import Mathlib.Data.Nat.Bitwise

/-!
# Blocks of addresses

An address is a number, and a block is the set of the addresses that agree
with a base in their leading bits.  A test of the leading bits by a mask is
membership in a block, and a block of addresses with several digits is one of
their first digits.
-/

namespace AddressBlock

/-- The address agrees with the base in all but its lowest `free` bits. -/
def Within (base free address : Nat) : Prop :=
  address / 2 ^ free = base / 2 ^ free

instance (base free address : Nat) : Decidable (Within base free address) :=
  inferInstanceAs (Decidable (_ = _))

/-- A block without free bits is one address. -/
theorem within_zero_iff {base address : Nat} :
    Within base 0 address ↔ address = base := by
  simp [Within]

/-- Masking out the lowest bits of a number leaves its leading bits. -/
theorem and_highMask {width free address : Nat} (bound : address < 2 ^ width)
    (le : free ≤ width) :
    address &&& (2 ^ width - 2 ^ free) = address / 2 ^ free * 2 ^ free := by
  have mask : 2 ^ width - 2 ^ free = (2 ^ (width - free) - 1) * 2 ^ free := by
    rw [Nat.sub_mul, ← Nat.pow_add, Nat.sub_add_cancel le, Nat.one_mul]
  apply Nat.eq_of_testBit_eq
  intro i
  rw [mask, Nat.testBit_and, Nat.testBit_mul_two_pow, Nat.testBit_mul_two_pow,
    Nat.testBit_two_pow_sub_one, Nat.testBit_div_two_pow]
  by_cases low : free ≤ i
  · rw [Nat.sub_add_cancel low]
    by_cases inside : i < width
    · have shifted : i - free < width - free := by omega
      simp [low, shifted]
    · have zero : address.testBit i = false :=
        Nat.testBit_lt_two_pow (lt_of_lt_of_le bound
          (Nat.pow_le_pow_right (by decide) (not_lt.mp inside)))
      simp [zero]
  · simp [low]

/-- The test of the leading bits by a mask is membership in a block. -/
theorem and_highMask_eq_iff {width free base address : Nat}
    (bound : address < 2 ^ width) (le : free ≤ width)
    (aligned : 2 ^ free ∣ base) :
    address &&& (2 ^ width - 2 ^ free) = base ↔ Within base free address := by
  rw [and_highMask bound le, Within]
  obtain ⟨leading, rfl⟩ := aligned
  rw [Nat.mul_comm (2 ^ free), Nat.mul_div_cancel _ (Nat.two_pow_pos free)]
  exact Nat.mul_left_inj (Nat.two_pow_pos free).ne'

/-- Free bits that cover the last digits leave a block of the first digits. -/
theorem within_digits_iff {base digits free high low : Nat}
    (bound : low < 2 ^ digits) :
    Within (base * 2 ^ digits) (digits + free) (high * 2 ^ digits + low) ↔
      Within base free high := by
  have split (number rest : Nat) (small : rest < 2 ^ digits) :
      (number * 2 ^ digits + rest) / 2 ^ (digits + free) =
        number / 2 ^ free := by
    rw [Nat.pow_add, ← Nat.div_div_eq_div_mul, Nat.mul_comm number,
      Nat.mul_add_div (Nat.two_pow_pos digits), Nat.div_eq_of_lt small,
      Nat.add_zero]
  have whole := split base 0 (Nat.two_pow_pos digits)
  rw [Nat.add_zero] at whole
  rw [Within, Within, split high low bound, whole]

end AddressBlock
