import Mathlib.Data.Nat.Init

/-! Machine words and their tag bits. Arithmetic wraps, as usize arithmetic does in a release
build. -/

namespace MmtkJulia

abbrev Usize := BitVec 64
abbrev Address := BitVec 64

theorem eight_toNat : (8 : Usize).toNat = 8 := rfl

/-- The two low bits of a word, where Julia tags a finalizer entry. -/
def tagBits (word : Usize) : Usize := word &&& 3

def untagged (word : Usize) : Usize := word &&& ~~~3

/-- An ObjectReference of mmtk-core: a word-aligned address that is not null. -/
structure ObjectReference where
  addr : Address
  nonzero : addr ≠ 0
  aligned : addr &&& 7 = 0
  deriving DecidableEq, Repr

theorem untagged_or_tagBits (word : Usize) : untagged word ||| tagBits word = word := by
  rw [untagged, tagBits, ← BitVec.and_or_distrib_left]
  exact BitVec.and_allOnes

theorem untagged_of_tag_zero {word : Usize} (tag : tagBits word = 0) : untagged word = word := by
  have whole := untagged_or_tagBits word
  simpa [tag] using whole

theorem and_low (word : Usize) {mask : Usize} (low : 3 &&& mask = mask) :
    word &&& mask = tagBits word &&& mask := by
  rw [tagBits, BitVec.and_assoc, low]

theorem clear_one_of_tag {word : Usize} (tag : tagBits word = 1) :
    word &&& ~~~1 = untagged word := by
  have split : word &&& ~~~1 = untagged word ||| (word &&& 2) := by
    rw [untagged, ← BitVec.and_or_distrib_left]
    rfl
  rw [split, and_low word (by decide), tag]
  simp

theorem sub_one_of_tag {word : Usize} (tag : tagBits word = 1) : word - 1 = untagged word := by
  have whole := untagged_or_tagBits word
  have disjoint : untagged word &&& 1 = 0 := by
    rw [untagged, BitVec.and_assoc]
    exact BitVec.and_zero
  rw [tag, ← BitVec.add_eq_or_of_and_eq_zero _ _ disjoint] at whole
  calc
    word - 1 = untagged word + 1 - 1 := by rw [whole]
    _ = untagged word := BitVec.add_sub_cancel _ _

namespace ObjectReference

variable (object : ObjectReference)

@[simp] theorem tagBits_addr : tagBits object.addr = 0 := by
  have low := congrArg (fun word => word &&& 3) object.aligned
  simpa [BitVec.and_assoc, tagBits] using low

@[simp] theorem untagged_addr : untagged object.addr = object.addr :=
  untagged_of_tag_zero object.tagBits_addr

theorem tagBits_or_one : tagBits (object.addr ||| 1) = 1 := by
  have low := object.tagBits_addr
  rw [tagBits] at low ⊢
  rw [BitVec.and_or_distrib_right, low]
  rfl

theorem untagged_or_one : untagged (object.addr ||| 1) = object.addr := by
  have low := object.untagged_addr
  rw [untagged] at low ⊢
  rw [BitVec.and_or_distrib_right, low]
  simp

theorem add_one : object.addr + 1 = object.addr ||| 1 := by
  apply BitVec.add_eq_or_of_and_eq_zero
  rw [and_low object.addr (by decide), object.tagBits_addr]
  rfl

end ObjectReference

end MmtkJulia
