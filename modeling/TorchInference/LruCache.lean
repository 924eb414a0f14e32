import Mathlib.Data.List.Basic
import Mathlib.Data.List.Nodup

/-!
# Caches that forget what was used least recently

The entries of a cache are kept in the order of their last use, the latest
first.  The cache carries the proof that it holds each key once and no more
entries than its capacity.
-/

structure LruCache (κ α : Type*) where
  capacity : Nat
  entries : List (κ × α)
  bounded : entries.length ≤ capacity
  distinct : (entries.map Prod.fst).Nodup

namespace LruCache

variable {κ α : Type*} [DecidableEq κ]

def empty (capacity : Nat) : LruCache κ α :=
  ⟨capacity, [], Nat.zero_le capacity, List.nodup_nil⟩

/-- The value of a key, as long as the cache remembers it. -/
def find (cache : LruCache κ α) (key : κ) : Option α :=
  cache.entries.lookup key

/-- The entries of other keys. -/
def without (cache : LruCache κ α) (key : κ) : List (κ × α) :=
  cache.entries.filter fun entry => entry.1 ≠ key

theorem nodup_cons_without (cache : LruCache κ α) (key : κ) (value : α) :
    (((key, value) :: cache.without key).map Prod.fst).Nodup := by
  rw [List.map_cons, List.nodup_cons]
  constructor
  · simp [without]
  · exact cache.distinct.sublist (List.filter_sublist.map Prod.fst)

/-- Put the entry of a key first, and forget the last one if there is no room
for it. -/
def put (cache : LruCache κ α) (key : κ) (value : α) : LruCache κ α where
  capacity := cache.capacity
  entries := ((key, value) :: cache.without key).take cache.capacity
  bounded := List.length_take_le _ _
  distinct := by
    rw [List.map_take]
    exact (cache.nodup_cons_without key value).sublist (List.take_sublist _ _)

/-- Look a key up, which counts as a use. -/
def get (cache : LruCache κ α) (key : κ) : Option α × LruCache κ α :=
  match cache.find key with
  | some value => (some value, cache.put key value)
  | none => (none, cache)

/-- Forget a key. -/
def remove (cache : LruCache κ α) (key : κ) : LruCache κ α where
  capacity := cache.capacity
  entries := cache.without key
  bounded := Nat.le_trans (List.length_filter_le _ _) cache.bounded
  distinct := cache.distinct.sublist (List.filter_sublist.map Prod.fst)

/-! ## What is remembered -/

theorem mem_of_find {cache : LruCache κ α} {key : κ} {value : α}
    (found : cache.find key = some value) : (key, value) ∈ cache.entries := by
  obtain ⟨before, after, listed, _⟩ := List.lookup_eq_some_iff.mp found
  rw [listed]
  exact List.mem_append_right before List.mem_cons_self

theorem mem_put {cache : LruCache κ α} {key : κ} {value : α} {entry : κ × α}
    (remembered : entry ∈ (cache.put key value).entries) :
    entry = (key, value) ∨ entry ∈ cache.entries := by
  obtain new | old := List.mem_cons.mp (List.mem_of_mem_take remembered)
  · exact .inl new
  · exact .inr (List.mem_of_mem_filter old)

theorem mem_get {cache : LruCache κ α} {key : κ} {entry : κ × α}
    (remembered : entry ∈ (cache.get key).2.entries) :
    entry ∈ cache.entries := by
  unfold get at remembered
  split at remembered
  · next value found =>
      obtain rfl | old := mem_put remembered
      · exact mem_of_find found
      · exact old
  · exact remembered

theorem mem_remove {cache : LruCache κ α} {key : κ} {entry : κ × α}
    (remembered : entry ∈ (cache.remove key).entries) :
    entry ∈ cache.entries :=
  List.mem_of_mem_filter remembered

theorem find_put {cache : LruCache κ α} (room : 0 < cache.capacity) (key : κ)
    (value : α) : (cache.put key value).find key = some value := by
  obtain ⟨more, positive⟩ := Nat.exists_eq_succ_of_ne_zero (Nat.ne_of_gt room)
  simp only [find, put, positive, List.take_succ_cons]
  exact List.lookup_cons_self

theorem get_of_find {cache : LruCache κ α} {key : κ} {value : α}
    (found : cache.find key = some value) :
    cache.get key = (some value, cache.put key value) := by
  rw [get, found]

end LruCache
