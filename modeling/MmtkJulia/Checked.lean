import Mathlib.Tactic

/-! Machine arithmetic that answers none where the exact result leaves the word, and the powers
of two that a leading-zero count gives. -/

namespace MmtkJulia.Checked

variable {w : Nat}

def checkedAdd (a b : BitVec w) : Option (BitVec w) :=
  if BitVec.uaddOverflow a b then none else some (a + b)

def checkedSub (a b : BitVec w) : Option (BitVec w) :=
  if BitVec.usubOverflow a b then none else some (a - b)

def checkedMul (a b : BitVec w) : Option (BitVec w) :=
  if BitVec.umulOverflow a b then none else some (a * b)

/-- A shift amount of the width or more overflows, as in the source language; the bits that
leave the word do not. -/
def checkedShl (a amount : BitVec w) : Option (BitVec w) :=
  if amount.toNat < w then some (a <<< amount.toNat) else none

theorem checkedAdd_fits {a b : BitVec w} (fits : a.toNat + b.toNat < 2 ^ w) :
    checkedAdd a b = some (a + b) := by
  simp [checkedAdd, BitVec.uaddOverflow, fits]

theorem checkedSub_fits {a b : BitVec w} (fits : b ≤ a) : checkedSub a b = some (a - b) := by
  simpa [checkedSub, BitVec.usubOverflow] using BitVec.le_def.mp fits

theorem checkedMul_fits {a b : BitVec w} (fits : a.toNat * b.toNat < 2 ^ w) :
    checkedMul a b = some (a * b) := by
  simp [checkedMul, BitVec.umulOverflow, fits]

theorem checkedShl_fits {a amount : BitVec w} (fits : amount.toNat < w) :
    checkedShl a amount = some (a <<< amount.toNat) :=
  if_pos fits

def bitLength (a : BitVec w) : Nat := w - a.clz.toNat

theorem lt_two_pow_bitLength (a : BitVec w) : a.toNat < 2 ^ bitLength a :=
  BitVec.toNat_lt_two_pow_sub_clz

theorem bitLength_le (a : BitVec w) : bitLength a ≤ w := Nat.sub_le _ _

theorem two_pow_bitLength_le {a : BitVec w} (positive : 0 < a.toNat) :
    2 ^ bitLength a ≤ 2 * a.toNat := by
  have width : 0 < w := Nat.pos_of_ne_zero fun zero => by
    subst zero
    exact absurd a.isLt (by omega)
  have nonzero : a ≠ 0#w := fun zero => by simp [zero] at positive
  have least := BitVec.two_pow_sub_clz_le_toNat_of_ne_zero width nonzero
  calc
    2 ^ bitLength a ≤ 2 ^ (w - 1 - a.clz.toNat + 1) :=
      Nat.pow_le_pow_right (by decide) (by rw [bitLength]; omega)
    _ = 2 * 2 ^ (w - 1 - a.clz.toNat) := by rw [pow_succ, Nat.mul_comm]
    _ ≤ 2 * a.toNat := Nat.mul_le_mul_left 2 least

theorem bitLength_mono {a b : BitVec w} (ordered : a ≤ b) : bitLength a ≤ bitLength b := by
  rcases Nat.eq_zero_or_pos a.toNat with zero | positive
  · have empty : a = 0#w := BitVec.eq_of_toNat_eq (by simpa using zero)
    have leading : a.clz.toNat = w := by
      simp [BitVec.clz_eq_iff_eq_zero.mpr empty, Nat.mod_eq_of_lt Nat.lt_two_pow_self]
    rw [bitLength, leading, Nat.sub_self]
    exact Nat.zero_le _
  · have below : 2 ^ bitLength a < 2 ^ (bitLength b + 1) := by
      calc
        2 ^ bitLength a ≤ 2 * a.toNat := two_pow_bitLength_le positive
        _ ≤ 2 * b.toNat := Nat.mul_le_mul_left 2 (BitVec.le_def.mp ordered)
        _ < 2 * 2 ^ bitLength b := by have := lt_two_pow_bitLength b; omega
        _ = 2 ^ (bitLength b + 1) := by rw [pow_succ, Nat.mul_comm]
    exact Nat.le_of_lt_succ ((Nat.pow_lt_pow_iff_right (by decide)).mp below)

/-- A rational power of a word, by its bit length: the exponent rounded down is within a
constant factor of the exact power, from below and from above. -/
theorem pow_bitLength_le {a : BitVec w} (positive : 0 < a.toNat) (p q : Nat) :
    2 ^ (q * (bitLength a * p / q)) ≤ 2 ^ p * a.toNat ^ p := by
  calc
    2 ^ (q * (bitLength a * p / q)) ≤ 2 ^ (bitLength a * p) :=
      Nat.pow_le_pow_right (by decide) (Nat.mul_div_le _ _)
    _ = (2 ^ bitLength a) ^ p := pow_mul _ _ _
    _ ≤ (2 * a.toNat) ^ p := Nat.pow_le_pow_left (two_pow_bitLength_le positive) p
    _ = 2 ^ p * a.toNat ^ p := mul_pow _ _ _

theorem lt_pow_bitLength (a : BitVec w) {p q : Nat} (power : p ≠ 0) (root : 0 < q) :
    a.toNat ^ p < 2 ^ (q - 1) * 2 ^ (q * (bitLength a * p / q)) := by
  have rounded : bitLength a * p ≤ q - 1 + q * (bitLength a * p / q) := by
    have whole := Nat.div_add_mod (bitLength a * p) q
    have rest := Nat.mod_lt (bitLength a * p) root
    omega
  calc
    a.toNat ^ p < (2 ^ bitLength a) ^ p := Nat.pow_lt_pow_left (lt_two_pow_bitLength a) power
    _ = 2 ^ (bitLength a * p) := (pow_mul _ _ _).symm
    _ ≤ 2 ^ (q - 1 + q * (bitLength a * p / q)) := Nat.pow_le_pow_right (by decide) rounded
    _ = 2 ^ (q - 1) * 2 ^ (q * (bitLength a * p / q)) := pow_add _ _ _

end MmtkJulia.Checked
