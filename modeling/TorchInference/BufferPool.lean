import TorchInference.KeyedPool
import Mathlib.Data.UInt

/-!
# The buffer pool

Byte buffers are pooled in size classes.  A request and a returned buffer are
assigned to a class by the same function, which rounds up to the next class;
sizes beyond the largest class are classes of their own.
-/

namespace TorchInference

open KeyedPool

def bufferBuckets : List UInt64 :=
  [1024, 4096, 16384, 65536, 262144, 1048576]

def bufferBucketFor (minSize : UInt64) : UInt64 :=
  (bufferBuckets.find? (minSize ≤ ·)).getD minSize

/-- A vector of bytes; no vector is larger than `isize::MAX` bytes. -/
structure Buffer where
  bytes : List UInt8
  capacity : UInt64
  holds : bytes.length ≤ capacity.toNat
  fits : capacity.toNat < 2 ^ 63

namespace Buffer

/-- `vec![0u8; size]`, which panics on a capacity overflow. -/
def zeros (size : UInt64) : Option Buffer :=
  if fits : size.toNat < 2 ^ 63 then
    some ⟨List.replicate size.toNat 0, size, by simp, fits⟩
  else none

/-- A buffer whose bytes have been taken out. -/
def cleared (capacity : UInt64) (fits : capacity.toNat < 2 ^ 63) : Buffer :=
  ⟨[], capacity, Nat.zero_le _, fits⟩

end Buffer

abbrev BufferPool :=
  Pool UInt64 Buffer

namespace BufferPool

def acquire (pool : BufferPool) (minSize : UInt64) :
    Option (Buffer × BufferPool) :=
  let bucket := bufferBucketFor minSize
  Pool.acquire pool bucket (Buffer.zeros bucket)

def release (pool : BufferPool) (buffer : Buffer) : BufferPool :=
  Pool.release pool (bufferBucketFor buffer.capacity) buffer

/-- The calls of a buffer pool. -/
def use : Use UInt64 Buffer UInt64 Buffer where
  requestKey := bufferBucketFor
  fresh minSize := Buffer.zeros (bufferBucketFor minSize)
  returnKey buffer := bufferBucketFor buffer.capacity
  item buffer := buffer

theorem acquire_eq (pool : BufferPool) (minSize : UInt64) :
    pool.acquire minSize =
      Pool.acquire pool (use.requestKey minSize) (use.fresh minSize) :=
  rfl

theorem release_eq (pool : BufferPool) (buffer : Buffer) :
    pool.release buffer =
      Pool.release pool (use.returnKey buffer) (use.item buffer) :=
  rfl

/-- The buffer has room for the request. -/
def HasRoom (minSize : UInt64) (buffer : Buffer) : Prop :=
  minSize ≤ buffer.capacity

instance (minSize : UInt64) (buffer : Buffer) :
    Decidable (HasRoom minSize buffer) :=
  inferInstanceAs (Decidable (minSize ≤ buffer.capacity))

/-- Every request is given room, and no bucket holds more than the limit. -/
def KeepsContract (limit : Nat) (calls : List (Call UInt64 Buffer)) : Prop :=
  use.Serves HasRoom limit calls ∧
    ∀ bucket, ((use.after (Pool.empty limit) calls).items bucket).length ≤
      limit

theorem le_bufferBucketFor (minSize : UInt64) :
    minSize ≤ bufferBucketFor minSize := by
  unfold bufferBucketFor
  cases found : bufferBuckets.find? (minSize ≤ ·) with
  | none => exact UInt64.le_refl minSize
  | some bucket => simpa using List.find?_some found

/-- The first bucket above a size is the first one above every larger size that
it still holds. -/
theorem find?_eq_of_within {buckets : List UInt64}
    {capacity minSize bucket : UInt64} (larger : capacity < minSize)
    (within : minSize ≤ bucket)
    (found : buckets.find? (capacity ≤ ·) = some bucket) :
    buckets.find? (minSize ≤ ·) = some bucket := by
  induction buckets with
  | nil => cases found
  | cons first buckets ih =>
      by_cases fits : capacity ≤ first
      · rw [List.find?_cons_of_pos (by simpa using fits)] at found
        cases found
        exact List.find?_cons_of_pos (by simpa using within)
      · have small : ¬ minSize ≤ first :=
          fun le => fits (UInt64.le_trans (UInt64.le_of_lt larger) le)
        rw [List.find?_cons_of_neg (by simpa using fits)] at found
        rw [List.find?_cons_of_neg (by simpa using small)]
        exact ih found

/-- A request between a capacity and its class is in that class. -/
theorem bufferBucketFor_eq {capacity minSize : UInt64}
    (larger : capacity < minSize)
    (within : minSize ≤ bufferBucketFor capacity) :
    bufferBucketFor capacity = bufferBucketFor minSize := by
  unfold bufferBucketFor at within ⊢
  cases found : bufferBuckets.find? (capacity ≤ ·) with
  | none =>
      rw [found] at within
      exact absurd larger (UInt64.not_lt.mpr within)
  | some bucket =>
      rw [found, Option.getD_some] at within
      rw [find?_eq_of_within larger within found, Option.getD_some,
        Option.getD_some]

theorem hasRoom_zeros {minSize : UInt64} {buffer : Buffer}
    (made : Buffer.zeros (bufferBucketFor minSize) = some buffer) :
    HasRoom minSize buffer := by
  unfold Buffer.zeros at made
  split at made
  case isTrue =>
    cases made
    exact le_bufferBucketFor minSize
  case isFalse => cases made

theorem length_after_le (limit : Nat) (calls : List (Call UInt64 Buffer))
    (bucket : UInt64) :
    ((use.after (Pool.empty limit) calls).items bucket).length ≤ limit := by
  have bounded : (use.after (Pool.empty limit) calls).Bounded :=
    Use.bounded_after (Pool.bounded_empty limit)
  have within := bounded bucket
  rwa [Use.limit_after] at within

/-- The pool keeps its contract in all runs over some request sizes and some
returned buffers exactly when no request is larger than a returned capacity and
still within its class. -/
theorem keepsContract_iff (limit : Nat) (sizes : Set UInt64)
    (buffers : Set Buffer) :
    (∀ calls, (∀ call ∈ calls, call.Within sizes buffers) →
        KeepsContract limit calls) ↔
      limit = 0 ∨ ∀ minSize ∈ sizes, ∀ buffer ∈ buffers,
        ¬ (buffer.capacity < minSize ∧
          minSize ≤ bufferBucketFor buffer.capacity) := by
  have freshGood : ∀ minSize ∈ sizes, ∀ buffer,
      use.fresh minSize = some buffer → HasRoom minSize buffer :=
    fun minSize _ buffer made => hasRoom_zeros made
  have keeps : ∀ calls, KeepsContract limit calls ↔
      use.Serves HasRoom limit calls :=
    fun calls => and_iff_left (length_after_le limit calls)
  simp only [keeps]
  refine (Use.serves_iff freshGood limit).trans
    (or_congr Iff.rfl ⟨fun filed => ?_, fun outside => ?_⟩)
  · rintro minSize isSize buffer isBuffer ⟨larger, within⟩
    have room : minSize ≤ buffer.capacity :=
      filed minSize isSize buffer isBuffer (bufferBucketFor_eq larger within)
    exact UInt64.not_lt.mpr room larger
  · intro minSize isSize buffer isBuffer sameBucket
    by_contra tooSmall
    refine outside minSize isSize buffer isBuffer
      ⟨UInt64.not_le.mp tooSmall, ?_⟩
    have sameClass : bufferBucketFor buffer.capacity =
        bufferBucketFor minSize := sameBucket
    rw [sameClass]
    exact le_bufferBucketFor minSize

/-- A buffer of a thousand bytes, as `shrink_to` leaves it, is filed under the
class of 1024 and handed out for a request of that size; so is an empty one. -/
theorem shrunkBuffer_tooSmall :
    ¬ KeepsContract 32
        [.acquire 1024, .release (.cleared 1000 (by decide)),
          .acquire 1024] ∧
      ¬ KeepsContract 32
        [.release (.cleared 0 (by decide)), .acquire 1] := by
  constructor
  · rintro ⟨serves, -⟩
    have last := serves (1024, .cleared 1000 (by decide))
      (List.mem_cons_of_mem _ (List.mem_cons_self ..))
    exact absurd last (by decide)
  · rintro ⟨serves, -⟩
    have last := serves (1, .cleared 0 (by decide)) (List.mem_cons_self ..)
    exact absurd last (by decide)

end BufferPool

end TorchInference
