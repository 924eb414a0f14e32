import Mathlib.Data.List.Nodup
import Mathlib.Data.List.Perm.Subperm

/-!
# Queues of free indices into a vector

A resource pool may keep its resources in a vector and the positions of the
free ones in a separate queue.  The queue is exact when it names the position
of every free resource once and nothing else.  The lemmas say what appending a
resource, taking one, giving one back and erasing one do to an exact queue;
erasing shifts every later position down by one.
-/

namespace FreeIndexQueue

variable {α : Type*}

/-- The queue names the position of each free element of `slots` exactly
once, and no other position. -/
structure Exact (slots : List α) (free : α → Prop) (queue : List Nat) :
    Prop where
  nodup : queue.Nodup
  mem_iff : ∀ index, index ∈ queue ↔
    ∃ element, slots[index]? = some element ∧ free element

/-- The positions that remain in a queue after the element at `removed` is
erased from the vector. -/
def reindex (removed : Nat) : List Nat → List Nat
  | [] => []
  | index :: rest =>
      if index ≠ removed then
        (if index > removed then index - 1 else index) :: reindex removed rest
      else
        reindex removed rest

theorem mem_reindex (removed index : Nat) (queue : List Nat) :
    index ∈ reindex removed queue ↔
      (index < removed ∧ index ∈ queue) ∨
        (removed ≤ index ∧ index + 1 ∈ queue) := by
  induction queue with
  | nil => simp [reindex]
  | cons first rest ih =>
      unfold reindex
      split_ifs <;> simp only [List.mem_cons, ih] <;> grind

theorem length_reindex_le (removed : Nat) (queue : List Nat) :
    (reindex removed queue).length ≤ queue.length := by
  induction queue with
  | nil => simp [reindex]
  | cons first rest ih =>
      unfold reindex
      split_ifs <;> simp only [List.length_cons] <;> omega

theorem nodup_reindex (removed : Nat) {queue : List Nat}
    (distinct : queue.Nodup) : (reindex removed queue).Nodup := by
  induction queue with
  | nil => simp [reindex]
  | cons first rest ih =>
      obtain ⟨fresh, distinctRest⟩ := List.nodup_cons.mp distinct
      have rest := ih distinctRest
      unfold reindex
      split_ifs with different later
      · refine List.nodup_cons.mpr ⟨?_, rest⟩
        rw [mem_reindex]
        rintro (⟨before, _⟩ | ⟨_, member⟩)
        · omega
        · have same : first - 1 + 1 = first := by omega
          exact fresh (same ▸ member)
      · refine List.nodup_cons.mpr ⟨?_, rest⟩
        rw [mem_reindex]
        rintro (⟨_, member⟩ | ⟨after, _⟩)
        · exact fresh member
        · omega
      · exact rest

/-- The elements that remain are not the one that was erased. -/
theorem ne_erased_of_mem {slots : List α} (distinct : slots.Nodup)
    {removed : Nat} {erased other : α}
    (atRemoved : slots[removed]? = some erased)
    (member : other ∈ slots.eraseIdx removed) : other ≠ erased := by
  obtain ⟨index, different, atIndex⟩ :=
    List.mem_eraseIdx_iff_getElem?.mp member
  rintro rfl
  exact different ((List.getElem?_inj
    (List.getElem?_eq_some_iff.mp atIndex).1 distinct).mp
    (atIndex.trans atRemoved.symm))

/-- All the others remain. -/
theorem mem_of_ne_erased {slots : List α} {removed : Nat}
    {erased other : α} (atRemoved : slots[removed]? = some erased)
    (member : other ∈ slots) (different : other ≠ erased) :
    other ∈ slots.eraseIdx removed := by
  obtain ⟨index, atIndex⟩ := List.mem_iff_getElem?.mp member
  refine List.mem_eraseIdx_iff_getElem?.mpr ⟨index, ?_, atIndex⟩
  rintro rfl
  rw [atIndex, Option.some.injEq] at atRemoved
  exact different atRemoved

/-- The queue names positions of free elements, each at most once; it may have
lost some of them. -/
structure Names (slots : List α) (free : α → Prop) (queue : List Nat) :
    Prop where
  nodup : queue.Nodup
  free_of_mem : ∀ index ∈ queue,
    ∃ element, slots[index]? = some element ∧ free element

namespace Names

variable {slots : List α} {free free' : α → Prop} {queue : List Nat}

theorem of_nil (slots : List α) (free : α → Prop) : Names slots free [] :=
  ⟨List.nodup_nil, fun _ absent => absurd absent List.not_mem_nil⟩

theorem imp_free (names : Names slots free queue)
    (implied : ∀ element, free element → free' element) :
    Names slots free' queue := by
  refine ⟨names.nodup, fun index member => ?_⟩
  obtain ⟨element, atIndex, isFree⟩ := names.free_of_mem index member
  exact ⟨element, atIndex, implied element isFree⟩

theorem tail (names : Names slots free queue) :
    Names slots free queue.tail :=
  ⟨names.nodup.tail, fun index member =>
    names.free_of_mem index (List.mem_of_mem_tail member)⟩

theorem lt_length (names : Names slots free queue) {index : Nat}
    (member : index ∈ queue) : index < slots.length := by
  obtain ⟨_, atIndex, _⟩ := names.free_of_mem index member
  exact (List.getElem?_eq_some_iff.mp atIndex).1

theorem append (names : Names slots free queue) {element : α}
    (isFree : free element) :
    Names (slots ++ [element]) free (queue ++ [slots.length]) := by
  constructor
  · refine List.nodup_append.mpr ⟨names.nodup, List.nodup_singleton _, ?_⟩
    intro first firstMem second secondMem
    have := names.lt_length firstMem
    rw [List.mem_singleton.mp secondMem]
    omega
  · intro index member
    obtain old | new := List.mem_append.mp member
    · obtain ⟨found, atIndex, foundFree⟩ := names.free_of_mem index old
      rw [List.getElem?_append_left (names.lt_length old)]
      exact ⟨found, atIndex, foundFree⟩
    · rw [List.mem_singleton.mp new]
      exact ⟨element, by simp, isFree⟩

/-- The queue with further slots after the old ones. -/
theorem more_slots (names : Names slots free queue) (more : List α) :
    Names (slots ++ more) free queue := by
  refine ⟨names.nodup, fun index member => ?_⟩
  obtain ⟨element, atIndex, isFree⟩ := names.free_of_mem index member
  rw [List.getElem?_append_left (names.lt_length member)]
  exact ⟨element, atIndex, isFree⟩

/-- Taking the first named position leaves the others. -/
theorem take {first : Nat} (names : Names slots free (first :: queue))
    (distinct : slots.Nodup) {taken : α}
    (atFirst : slots[first]? = some taken) :
    Names slots (fun element => free element ∧ element ≠ taken) queue := by
  obtain ⟨fresh, distinctRest⟩ := List.nodup_cons.mp names.nodup
  refine ⟨distinctRest, fun index member => ?_⟩
  obtain ⟨element, atIndex, isFree⟩ :=
    names.free_of_mem index (List.mem_cons_of_mem _ member)
  refine ⟨element, atIndex, isFree, ?_⟩
  rintro rfl
  have same : index = first :=
    (List.getElem?_inj (List.getElem?_eq_some_iff.mp atIndex).1 distinct).mp
      (atIndex.trans atFirst.symm)
  exact fresh (same ▸ member)

/-- Giving an element back at its own position. -/
theorem giveBack (names : Names slots free queue) {index : Nat} {returned : α}
    (atIndex : slots[index]? = some returned) (taken : ¬ free returned) :
    Names slots (fun element => free element ∨ element = returned)
      (queue ++ [index]) := by
  constructor
  · refine List.nodup_append.mpr ⟨names.nodup, List.nodup_singleton _, ?_⟩
    intro first firstMem second secondMem
    rw [List.mem_singleton.mp secondMem]
    rintro rfl
    obtain ⟨element, atFirst, isFree⟩ := names.free_of_mem _ firstMem
    rw [atIndex, Option.some.injEq] at atFirst
    exact taken (atFirst ▸ isFree)
  · intro other member
    obtain old | new := List.mem_append.mp member
    · obtain ⟨element, atOther, isFree⟩ := names.free_of_mem other old
      exact ⟨element, atOther, .inl isFree⟩
    · rw [List.mem_singleton.mp new]
      exact ⟨returned, atIndex, .inr rfl⟩

/-- Erasing the element at any position and shifting the rest. -/
theorem eraseIdx (names : Names slots free queue) (removed : Nat) :
    Names (slots.eraseIdx removed) free (reindex removed queue) := by
  refine ⟨nodup_reindex removed names.nodup, fun index member => ?_⟩
  rw [mem_reindex] at member
  obtain ⟨before, old⟩ | ⟨after, old⟩ := member
  · rw [List.getElem?_eraseIdx_of_lt before]
    exact names.free_of_mem index old
  · rw [List.getElem?_eraseIdx_of_ge after]
    exact names.free_of_mem (index + 1) old

end Names

namespace Exact

variable {slots : List α} {free free' : α → Prop} {queue : List Nat}

theorem of_nil (free : α → Prop) : Exact ([] : List α) free [] :=
  ⟨List.nodup_nil, by simp⟩

theorem congr_free (exact : Exact slots free queue)
    (same : ∀ element ∈ slots, (free element ↔ free' element)) :
    Exact slots free' queue := by
  refine ⟨exact.nodup, fun index => ?_⟩
  rw [exact.mem_iff]
  constructor
  · rintro ⟨element, atIndex, isFree⟩
    exact ⟨element, atIndex,
      (same element (List.mem_of_getElem? atIndex)).mp isFree⟩
  · rintro ⟨element, atIndex, isFree⟩
    exact ⟨element, atIndex,
      (same element (List.mem_of_getElem? atIndex)).mpr isFree⟩

theorem names (exact : Exact slots free queue) : Names slots free queue :=
  ⟨exact.nodup, fun index => (exact.mem_iff index).mp⟩

/-- A queue that names free positions is exact if it misses none. -/
theorem of_names (names : Names slots free queue)
    (missesNone : ∀ index element, slots[index]? = some element →
      free element → index ∈ queue) : Exact slots free queue where
  nodup := names.nodup
  mem_iff := fun index =>
    ⟨names.free_of_mem index, fun ⟨element, atIndex, isFree⟩ =>
      missesNone index element atIndex isFree⟩

theorem length_le (exact : Exact slots free queue) :
    queue.length ≤ slots.length := by
  have inside : queue ⊆ List.range slots.length := fun index member =>
    List.mem_range.mpr (exact.names.lt_length member)
  simpa using (List.subperm_of_subset exact.nodup inside).length_le

/-- A position that is not free leaves room in the queue. -/
theorem length_lt (exact : Exact slots free queue) {index : Nat}
    (inside : index < slots.length) (absent : index ∉ queue) :
    queue.length < slots.length := by
  have contained : index :: queue ⊆ List.range slots.length := by
    intro other member
    rcases List.mem_cons.mp member with rfl | later
    · exact List.mem_range.mpr inside
    · exact List.mem_range.mpr (exact.names.lt_length later)
  have bound := (List.subperm_of_subset
    (List.nodup_cons.mpr ⟨absent, exact.nodup⟩) contained).length_le
  simp only [List.length_cons, List.length_range] at bound
  omega

theorem append (exact : Exact slots free queue) {element : α}
    (isFree : free element) :
    Exact (slots ++ [element]) free (queue ++ [slots.length]) := by
  apply of_names (exact.names.append isFree)
  intro index found atIndex foundFree
  rw [List.mem_append, List.mem_singleton, exact.mem_iff]
  rcases Nat.lt_or_ge index slots.length with before | after
  · rw [List.getElem?_append_left before] at atIndex
    exact Or.inl ⟨found, atIndex, foundFree⟩
  · have inside := (List.getElem?_eq_some_iff.mp atIndex).1
    simp only [List.length_append, List.length_singleton] at inside
    right
    omega

/-- Taking the first free position leaves an exact queue for the others. -/
theorem take {first : Nat} (exact : Exact slots free (first :: queue))
    (distinct : slots.Nodup) {taken : α}
    (atFirst : slots[first]? = some taken) :
    Exact slots (fun element => free element ∧ element ≠ taken) queue := by
  apply of_names (exact.names.take distinct atFirst)
  rintro index element atIndex ⟨isFree, different⟩
  have named := (exact.mem_iff index).mpr ⟨element, atIndex, isFree⟩
  rcases List.mem_cons.mp named with rfl | member
  · rw [atIndex, Option.some.injEq] at atFirst
    exact absurd atFirst different
  · exact member

/-- Giving an element back at its own position restores an exact queue. -/
theorem giveBack (exact : Exact slots free queue) (distinct : slots.Nodup)
    {index : Nat} {returned : α} (atIndex : slots[index]? = some returned)
    (taken : ¬ free returned) :
    Exact slots (fun element => free element ∨ element = returned)
      (queue ++ [index]) := by
  apply of_names (exact.names.giveBack atIndex taken)
  intro other element atOther isFree
  rw [List.mem_append, List.mem_singleton, exact.mem_iff]
  rcases isFree with isFree | rfl
  · exact Or.inl ⟨element, atOther, isFree⟩
  · right
    exact (List.getElem?_inj (List.getElem?_eq_some_iff.mp atOther).1
      distinct).mp (atOther.trans atIndex.symm)

/-- Erasing the element at the first free position and shifting the rest. -/
theorem eraseIdx {removed : Nat} (exact : Exact slots free (removed :: queue)) :
    Exact (slots.eraseIdx removed) free (reindex removed queue) := by
  have named (index : Nat) (different : index ≠ removed) {element : α}
      (atIndex : slots[index]? = some element) (isFree : free element) :
      index ∈ queue :=
    (List.mem_cons.mp ((exact.mem_iff index).mpr
      ⟨element, atIndex, isFree⟩)).resolve_left different
  apply of_names (exact.names.tail.eraseIdx removed)
  intro index element atIndex isFree
  rw [List.tail_cons, mem_reindex]
  rcases Nat.lt_or_ge index removed with before | after
  · rw [List.getElem?_eraseIdx_of_lt before] at atIndex
    exact Or.inl ⟨before, named index (by omega) atIndex isFree⟩
  · rw [List.getElem?_eraseIdx_of_ge after] at atIndex
    exact Or.inr ⟨after, named (index + 1) (by omega) atIndex isFree⟩

end Exact

end FreeIndexQueue
