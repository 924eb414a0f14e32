import TorchInference.KeyedPool
import Mathlib.Algebra.BigOperators.Group.List.Basic
import Mathlib.Data.UInt

/-!
# The tensor pool

Tensors are pooled by shape.  Shapes are compared and hashed by a compact key
of eight 32-bit slots, one for each of the first eight dimensions, and zero for
the missing ones.  The size of a shape is the product of all its dimensions as
a 64-bit number.
-/

namespace TorchInference

open KeyedPool

structure TensorShape where
  dims : List UInt64
  totalSize : UInt64
  key : List UInt32

namespace TensorShape

def new (dims : List UInt64) : TensorShape where
  dims := dims
  totalSize := dims.foldl (· * ·) 1
  key := (List.range 8).map fun i => ((dims[i]?).getD 0).toUInt32

end TensorShape

/-- A vector of `f32` by their bits; no vector is longer than `isize::MAX`
bytes. -/
structure Tensor where
  data : List UInt32
  fits : 4 * data.length < 2 ^ 63

namespace Tensor

/-- `vec![0.0; size]`, which panics on a capacity overflow. -/
def zeros (size : UInt64) : Option Tensor :=
  if fits : 4 * size.toNat < 2 ^ 63 then
    some ⟨List.replicate size.toNat 0, by simpa using fits⟩
  else none

end Tensor

abbrev TensorPool :=
  Pool (List UInt32) Tensor

namespace TensorPool

def acquire (pool : TensorPool) (shape : TensorShape) :
    Option (Tensor × TensorPool) :=
  Pool.acquire pool shape.key (Tensor.zeros shape.totalSize)

def release (pool : TensorPool) (shape : TensorShape) (tensor : Tensor) :
    TensorPool :=
  Pool.release pool shape.key tensor

/-- The calls of a tensor pool; shapes are made from their dimensions. -/
def use : Use (List UInt64) (List UInt64 × Tensor) (List UInt32) Tensor where
  requestKey dims := (TensorShape.new dims).key
  fresh dims := Tensor.zeros (TensorShape.new dims).totalSize
  returnKey returned := (TensorShape.new returned.1).key
  item returned := returned.2

theorem acquire_new (pool : TensorPool) (dims : List UInt64) :
    pool.acquire (.new dims) =
      Pool.acquire pool (use.requestKey dims) (use.fresh dims) :=
  rfl

theorem release_new (pool : TensorPool) (dims : List UInt64)
    (tensor : Tensor) :
    pool.release (.new dims) tensor =
      Pool.release pool (use.returnKey (dims, tensor))
        (use.item (dims, tensor)) :=
  rfl

/-- The tensor has the size of the shape. -/
def HasSize (dims : List UInt64) (tensor : Tensor) : Prop :=
  tensor.data.length = (TensorShape.new dims).totalSize.toNat

instance (dims : List UInt64) (tensor : Tensor) :
    Decidable (HasSize dims tensor) :=
  inferInstanceAs (Decidable (_ = _))

/-- Tensors are returned under shapes of their own size. -/
def ownSize (shapes : Set (List UInt64)) : Set (List UInt64 × Tensor) :=
  fun returned => returned.1 ∈ shapes ∧ HasSize returned.1 returned.2

end TensorPool

namespace TensorShape

/-- The product of all dimensions, without a bound. -/
def product (dims : List UInt64) : Nat :=
  (dims.map UInt64.toNat).prod

/-- The first eight dimensions agree in their lowest 32 bits, where a missing
dimension counts as zero. -/
def PackedAlike (first second : List UInt64) : Prop :=
  ∀ i < 8, ((first[i]?).getD 0).toNat % 2 ^ 32 =
    ((second[i]?).getD 0).toNat % 2 ^ 32

theorem foldl_mul_toNat (dims : List UInt64) (start : UInt64) :
    (dims.foldl (· * ·) start).toNat =
      start.toNat * product dims % 2 ^ 64 := by
  induction dims generalizing start with
  | nil =>
      have small := start.toNat_lt
      simp [product, Nat.mod_eq_of_lt small]
  | cons dim dims ih =>
      have split : product (dim :: dims) = dim.toNat * product dims := by
        simp [product]
      rw [List.foldl_cons, ih, UInt64.toNat_mul, split, Nat.mod_mul_mod,
        Nat.mul_assoc]

theorem totalSize_toNat (dims : List UInt64) :
    (new dims).totalSize.toNat = product dims % 2 ^ 64 := by
  have folded := foldl_mul_toNat dims 1
  rw [UInt64.toNat_one, Nat.one_mul] at folded
  exact folded

theorem key_eq_iff (first second : List UInt64) :
    (new first).key = (new second).key ↔ PackedAlike first second := by
  simp only [new, List.map_inj_left, List.mem_range, PackedAlike,
    ← UInt32.toNat_inj, UInt64.toNat_toUInt32]

end TensorShape

namespace TensorPool

theorem hasSize_zeros {dims : List UInt64} {tensor : Tensor}
    (made : Tensor.zeros (TensorShape.new dims).totalSize = some tensor) :
    HasSize dims tensor := by
  unfold Tensor.zeros at made
  split at made
  case isTrue =>
    cases made
    simp [HasSize]
  case isFalse => cases made

/-- A tensor of the size of a shape exists unless it is larger than memory can
be. -/
theorem exists_hasSize_iff (dims : List UInt64) :
    (∃ tensor, HasSize dims tensor) ↔
      4 * (TensorShape.product dims % 2 ^ 64) < 2 ^ 63 := by
  constructor
  · rintro ⟨tensor, size⟩
    rw [← TensorShape.totalSize_toNat, ← size]
    exact tensor.fits
  · intro fits
    refine ⟨⟨List.replicate (TensorShape.product dims % 2 ^ 64) 0, ?_⟩, ?_⟩
    · simpa using fits
    · simp [HasSize, TensorShape.totalSize_toNat]

/-- The pool gives every request a tensor of its size exactly when shapes that
are packed alike have one size; and shapes with equal keys have equal sizes
exactly then. -/
theorem serves_hasSize_iff (limit : Nat) (shapes : Set (List UInt64)) :
    ((∀ calls, (∀ call ∈ calls, call.Within shapes (ownSize shapes)) →
        use.Serves HasSize limit calls) ↔
      limit = 0 ∨ ∀ first ∈ shapes, ∀ second ∈ shapes,
        TensorShape.PackedAlike first second →
          4 * (TensorShape.product first % 2 ^ 64) < 2 ^ 63 →
            TensorShape.product first % 2 ^ 64 =
              TensorShape.product second % 2 ^ 64) ∧
    ((∀ first ∈ shapes, ∀ second ∈ shapes,
        (TensorShape.new first).key = (TensorShape.new second).key →
          (TensorShape.new first).totalSize =
            (TensorShape.new second).totalSize) ↔
      ∀ first ∈ shapes, ∀ second ∈ shapes,
        TensorShape.PackedAlike first second →
          TensorShape.product first % 2 ^ 64 =
            TensorShape.product second % 2 ^ 64) := by
  constructor
  · have freshGood : ∀ dims ∈ shapes, ∀ tensor,
        use.fresh dims = some tensor → HasSize dims tensor :=
      fun dims _ tensor made => hasSize_zeros made
    refine (Use.serves_iff freshGood limit).trans
      (or_congr Iff.rfl ⟨fun filed => ?_, fun alike => ?_⟩)
    · intro first isFirst second isSecond packed fits
      obtain ⟨tensor, size⟩ := (exists_hasSize_iff first).mpr fits
      have given : HasSize second tensor :=
        filed second isSecond (first, tensor) ⟨isFirst, size⟩
          ((TensorShape.key_eq_iff first second).mpr packed)
      rw [← TensorShape.totalSize_toNat, ← TensorShape.totalSize_toNat,
        ← size, ← given]
    · rintro second isSecond ⟨first, tensor⟩ ⟨isFirst, size⟩ sameKey
      have fits := (exists_hasSize_iff first).mp ⟨tensor, size⟩
      have same := alike first isFirst second isSecond
        ((TensorShape.key_eq_iff first second).mp sameKey) fits
      rw [← TensorShape.totalSize_toNat, ← TensorShape.totalSize_toNat]
        at same
      exact size.trans same
  · simp only [TensorShape.key_eq_iff, ← UInt64.toNat_inj,
      TensorShape.totalSize_toNat]

/-- A tensor of two elements is released and handed out for a shape of none;
a ninth dimension and the upper half of a dimension are lost as well. -/
theorem packedAlike_wrongSize :
    ¬ use.Serves HasSize 10
        [.acquire [2], .release ([2], ⟨[0, 0], by decide⟩),
          .acquire [2, 0]] ∧
      (TensorShape.new [1, 1, 1, 1, 1, 1, 1, 1, 2]).key =
        (TensorShape.new [1, 1, 1, 1, 1, 1, 1, 1, 3]).key ∧
      (TensorShape.new [2]).key = (TensorShape.new [4294967298]).key ∧
      (TensorShape.new [2]).key = (TensorShape.new [2, 0]).key ∧
      (TensorShape.new [2]).totalSize ≠ (TensorShape.new [2, 0]).totalSize := by
  refine ⟨fun serves => ?_, by decide, by decide, by decide, by decide⟩
  have last := serves ([2, 0], ⟨[0, 0], by decide⟩)
    (List.mem_cons_of_mem _ (List.mem_cons_self ..))
  exact absurd last (by decide)

end TensorPool

end TorchInference
