import MmtkJulia.GcTrigger
import MmtkJulia.Checked

/-! The curve and the cap of the overallocation that on_gc_end takes as its maximum step. -/

namespace MmtkJulia.GcTrigger

open Checked

def exp2 (oldVal : Usize) : Nat := 64 - oldVal.clz.toNat

def inc (oldVal : Usize) : Usize := ((1 : Usize) <<< (exp2 oldVal * 7 / 8)) * 4 + oldVal / 8

theorem mmtkOverallocation_eq (oldVal val maxVal : Usize) :
    mmtkOverallocation oldVal val maxVal =
      if inc oldVal + val > maxVal ∧ inc oldVal > maxVal / 20 then maxVal / 20 else inc oldVal :=
  rfl

/-- mmtk_overallocation in a build that checks each operation for overflow. -/
def checkedOverallocation (oldVal val maxVal : Usize) : Option Usize := do
  let exp2 ← checkedSub 64 oldVal.clz
  let scaled ← checkedMul exp2 7
  let power ← checkedShl 1 (scaled / 8)
  let quadruple ← checkedMul power 4
  let inc ← checkedAdd quadruple (oldVal / 8)
  let grown ← checkedAdd inc val
  some (if grown > maxVal ∧ inc > maxVal / 20 then maxVal / 20 else inc)

variable {oldVal val maxVal : Usize}

theorem exp2_le (oldVal : Usize) : exp2 oldVal ≤ 64 := bitLength_le oldVal

theorem power_toNat (oldVal : Usize) :
    ((1 : Usize) <<< (exp2 oldVal * 7 / 8)).toNat = 2 ^ (exp2 oldVal * 7 / 8) := by
  have bits := exp2_le oldVal
  have small : 2 ^ (exp2 oldVal * 7 / 8) < 2 ^ 64 :=
    Nat.pow_lt_pow_right (by decide) (by omega)
  rw [BitVec.toNat_shiftLeft, Nat.shiftLeft_eq]
  exact (congrArg (· % 2 ^ 64) (Nat.one_mul _)).trans (Nat.mod_eq_of_lt small)

theorem power_le (oldVal : Usize) : 2 ^ (exp2 oldVal * 7 / 8) ≤ 2 ^ 56 := by
  have bits := exp2_le oldVal
  exact Nat.pow_le_pow_right (by decide) (by omega)

theorem inc_toNat (oldVal : Usize) :
    (inc oldVal).toNat = 2 ^ (exp2 oldVal * 7 / 8) * 4 + oldVal.toNat / 8 := by
  have power := power_le oldVal
  have old := oldVal.isLt
  have four : (4 : Usize).toNat = 4 := rfl
  rw [inc, BitVec.toNat_add, BitVec.toNat_mul, BitVec.toNat_udiv, power_toNat, four, eight_toNat]
  omega

theorem inc_lt (oldVal : Usize) : (inc oldVal).toNat < 2 ^ 62 := by
  have power := power_le oldVal
  have old := oldVal.isLt
  rw [inc_toNat]
  omega

theorem inc_mono {smaller larger : Usize} (ordered : smaller ≤ larger) :
    inc smaller ≤ inc larger := by
  have bits : exp2 smaller ≤ exp2 larger := bitLength_mono ordered
  have power : 2 ^ (exp2 smaller * 7 / 8) ≤ 2 ^ (exp2 larger * 7 / 8) :=
    Nat.pow_le_pow_right (by decide) (Nat.div_le_div_right (Nat.mul_le_mul_right 7 bits))
  have share : smaller.toNat / 8 ≤ larger.toNat / 8 :=
    Nat.div_le_div_right (BitVec.le_def.mp ordered)
  rw [BitVec.le_def, inc_toNat, inc_toNat]
  omega

theorem le_eight_mul_inc (oldVal : Usize) : oldVal.toNat ≤ 8 * (inc oldVal).toNat := by
  have power : 0 < 2 ^ (exp2 oldVal * 7 / 8) := Nat.two_pow_pos _
  rw [inc_toNat]
  omega

theorem checkedOverallocation_fits (below : val.toNat < 2 ^ 63) :
    checkedOverallocation oldVal val maxVal = some (mmtkOverallocation oldVal val maxVal) := by
  have leading : oldVal.clz ≤ 64 := BitVec.clz_le
  have bits : ((64 : Usize) - oldVal.clz).toNat = exp2 oldVal := by
    rw [BitVec.toNat_sub_of_le leading, exp2]
    rfl
  have bitsBound := exp2_le oldVal
  have power := power_le oldVal
  have old := oldVal.isLt
  have step := inc_lt oldVal
  have seven : (7 : Usize).toNat = 7 := rfl
  have four : (4 : Usize).toNat = 4 := rfl
  have scaledFits : ((64 : Usize) - oldVal.clz).toNat * (7 : Usize).toNat < 2 ^ 64 := by
    rw [bits, seven]
    omega
  have amount : ((((64 : Usize) - oldVal.clz) * 7) / 8).toNat = exp2 oldVal * 7 / 8 := by
    rw [BitVec.toNat_udiv, BitVec.toNat_mul, bits, seven, eight_toNat, Nat.mod_eq_of_lt (by omega)]
  have quadrupleFits :
      ((1 : Usize) <<< (exp2 oldVal * 7 / 8)).toNat * (4 : Usize).toNat < 2 ^ 64 := by
    rw [power_toNat, four]
    omega
  have incFits :
      (((1 : Usize) <<< (exp2 oldVal * 7 / 8)) * 4).toNat + (oldVal / 8).toNat < 2 ^ 64 := by
    rw [BitVec.toNat_mul, power_toNat, BitVec.toNat_udiv, four, eight_toNat]
    omega
  have grownFits :
      (((1 : Usize) <<< (exp2 oldVal * 7 / 8)) * 4 + oldVal / 8).toNat + val.toNat < 2 ^ 64 := by
    rw [← inc]
    omega
  have shiftFits : ((((64 : Usize) - oldVal.clz) * 7) / 8).toNat < 64 := by omega
  simp only [checkedOverallocation, mmtkOverallocation_eq, inc, checkedSub_fits leading,
    checkedMul_fits scaledFits, checkedShl_fits shiftFits, amount, checkedMul_fits quadrupleFits,
    checkedAdd_fits incFits, checkedAdd_fits grownFits, Option.bind_eq_bind, Option.bind_some]
  rfl

theorem capped_le_inc (oldVal val maxVal : Usize) :
    mmtkOverallocation oldVal val maxVal ≤ inc oldVal := by
  rw [mmtkOverallocation_eq]
  split
  · next capped => exact BitVec.le_of_lt capped.2
  · exact BitVec.le_refl _

theorem grown_toNat (below : val.toNat < 2 ^ 63) :
    (inc oldVal + val).toNat = val.toNat + (inc oldVal).toNat := by
  have step := inc_lt oldVal
  rw [BitVec.toNat_add, Nat.mod_eq_of_lt (by omega), Nat.add_comm]

theorem not_capped_iff (below : val.toNat < 2 ^ 63) :
    ¬ (inc oldVal + val > maxVal ∧ inc oldVal > maxVal / 20) ↔
      val.toNat + (inc oldVal).toNat ≤ maxVal.toNat ∨ inc oldVal ≤ maxVal / 20 := by
  rw [not_and_or, gt_iff_lt, gt_iff_lt, BitVec.not_lt, BitVec.not_lt, BitVec.le_def,
    grown_toNat below]

theorem capped_within (below : val.toNat < 2 ^ 63) :
    let r := mmtkOverallocation oldVal val maxVal
    val.toNat + r.toNat ≤ maxVal.toNat ∨ r ≤ maxVal / 20 := by
  intro r
  by_cases capped : inc oldVal + val > maxVal ∧ inc oldVal > maxVal / 20
  · have cap : r = maxVal / 20 := if_pos capped
    exact .inr (cap ▸ BitVec.le_refl _)
  · have whole : r = inc oldVal := if_neg capped
    rw [whole]
    exact (not_capped_iff below).mp capped

theorem capped_eq_inc (below : val.toNat < 2 ^ 63)
    (within : val.toNat + (inc oldVal).toNat ≤ maxVal.toNat ∨ inc oldVal ≤ maxVal / 20) :
    mmtkOverallocation oldVal val maxVal = inc oldVal :=
  if_neg ((not_capped_iff below).mpr within)

/-- The step is four times a power of two that follows the 7/8 power of the heap before the
collection, and an eighth of it. The cap leaves it alone where it fits below the limit, or is
at most a twentieth of the limit. -/
theorem overallocation_curve (oldVal val maxVal : Usize) (below : val.toNat < 2 ^ 63) :
    let k := exp2 oldVal * 7 / 8
    let r := mmtkOverallocation oldVal val maxVal
    checkedOverallocation oldVal val maxVal = some r ∧
    (inc oldVal).toNat = 2 ^ k * 4 + oldVal.toNat / 8 ∧
    (0 < oldVal.toNat →
      2 ^ (8 * k) ≤ 128 * oldVal.toNat ^ 7 ∧ oldVal.toNat ^ 7 < 128 * 2 ^ (8 * k)) ∧
    (∀ larger, oldVal ≤ larger → inc oldVal ≤ inc larger) ∧
    oldVal.toNat ≤ 8 * (inc oldVal).toNat ∧
    r ≤ inc oldVal ∧
    (val.toNat + r.toNat ≤ maxVal.toNat ∨ r ≤ maxVal / 20) ∧
    (val.toNat + (inc oldVal).toNat ≤ maxVal.toNat ∨ inc oldVal ≤ maxVal / 20 → r = inc oldVal) := by
  intro k r
  refine ⟨checkedOverallocation_fits below, inc_toNat oldVal, fun positive => ⟨?_, ?_⟩,
    fun larger ordered => inc_mono ordered, le_eight_mul_inc oldVal, capped_le_inc oldVal val maxVal,
    capped_within below, capped_eq_inc below⟩
  · exact pow_bitLength_le positive 7 8
  · exact lt_pow_bitLength oldVal (p := 7) (q := 8) (by decide) (by decide)

/-- A heap of 1 GiB under a limit of 2 GiB steps by 640 MiB. -/
theorem overallocation_curve_gib :
    checkedOverallocation 0x40000000 0x40000000 0x80000000 = some 0x28000000 :=
  (overallocation_curve 0x40000000 0x40000000 0x80000000 (by decide)).1

end MmtkJulia.GcTrigger
