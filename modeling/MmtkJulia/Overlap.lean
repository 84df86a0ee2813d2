import MmtkJulia.Memory

/-! Ranges of memory that are moved word by word while they may overlap. copyNonoverlapping is
read as the state a move has reached: a part of the target holds what a snapshot of the source
held. -/

namespace MmtkJulia.Memory

variable {memory : Memory} {src dst : Address}

theorem load_byte {address : Address} {count : Nat} {value : BitVec (8 * count)}
    (loaded : memory.load address count = some value) (i : Nat) (below : i < count) :
    memory (address + BitVec.ofNat 64 i) = some (value.extractLsb' (8 * i) 8) := by
  induction count generalizing address i with
  | zero => omega
  | succ count ih =>
      rw [load] at loaded
      rcases Option.bind_eq_some_iff.mp loaded with ⟨low, first, rest⟩
      rcases Option.bind_eq_some_iff.mp rest with ⟨high, later, whole⟩
      cases whole
      cases i with
      | zero =>
          have byte : (high ++ low).extractLsb' 0 8 = low := by
            apply BitVec.eq_of_getLsbD_eq
            intro j small
            rw [BitVec.getLsbD_extractLsb', BitVec.getLsbD_append]
            simp [small]
          simpa [first] using byte.symm
      | succ i =>
          have byte : (high ++ low).extractLsb' (8 * (i + 1)) 8 = high.extractLsb' (8 * i) 8 := by
            apply BitVec.eq_of_getLsbD_eq
            intro j small
            rw [BitVec.getLsbD_extractLsb', BitVec.getLsbD_extractLsb', BitVec.getLsbD_append]
            have above : ¬ 8 * (i + 1) + j < 8 := by omega
            have position : 8 * (i + 1) + j - 8 = 8 * i + j := by omega
            simp [above, position]
          rw [← offset_succ, ih later i (by omega)]
          exact congrArg some byte.symm

theorem copy_nothing : memory.copyNonoverlapping src dst 0 = memory := by
  funext byte
  rw [copyNonoverlapping, if_neg (by simp [Within])]

theorem copy_at (count : Nat) (offset : Address) :
    memory.copyNonoverlapping src dst count (dst + offset) =
      if offset.toNat < count then memory (src + offset) else memory (dst + offset) := by
  rw [copyNonoverlapping, BitVec.add_comm dst, BitVec.add_sub_cancel, ← BitVec.add_comm dst]
  simp only [within_add]

/-- A word stored behind the part that has been moved moves one word more. -/
theorem store_above (dst : Address) {count : Nat} {value : BitVec (8 * 8)} (fits : count + 8 ≤ 2 ^ 64)
    (loaded : memory.load (src + BitVec.ofNat 64 count) 8 = some value) :
    (memory.copyNonoverlapping src dst count).store (dst + BitVec.ofNat 64 count) value =
      memory.copyNonoverlapping src dst (count + 8) := by
  funext byte
  obtain ⟨offset, rfl⟩ : ∃ offset, byte = dst + offset := ⟨byte - dst, by bv_omega⟩
  have distance : dst + offset - (dst + BitVec.ofNat 64 count) = offset - BitVec.ofNat 64 count := by
    bv_omega
  rw [store, distance, copy_at, copy_at]
  by_cases inside : (offset - BitVec.ofNat 64 count).toNat < 8
  · have behind : offset.toNat = count + (offset - BitVec.ofNat 64 count).toNat := by bv_omega
    have place : src + offset =
        src + BitVec.ofNat 64 count + BitVec.ofNat 64 (offset - BitVec.ofNat 64 count).toNat := by
      bv_omega
    rw [if_pos inside, if_pos (by omega), place, load_byte loaded _ inside]
  · have outside : offset.toNat < count ↔ offset.toNat < count + 8 := by
      constructor
      · omega
      · intro below
        bv_omega
    rw [if_neg inside]
    simp only [outside]

theorem store_below (dst : Address) {count : Nat} {value : BitVec (8 * 8)} (fits : count + 8 ≤ 2 ^ 64)
    (loaded : memory.load src 8 = some value) :
    (memory.copyNonoverlapping (src + 8) (dst + 8) count).store dst value =
      memory.copyNonoverlapping src dst (count + 8) := by
  funext byte
  obtain ⟨offset, rfl⟩ : ∃ offset, byte = dst + offset := ⟨byte - dst, by bv_omega⟩
  have distance : dst + offset - dst = offset := by bv_omega
  have later : dst + offset = dst + 8 + (offset - 8) := by bv_omega
  rw [store, distance, copy_at]
  by_cases inside : offset.toNat < 8
  · have place : src + offset = src + BitVec.ofNat 64 offset.toNat := by bv_omega
    rw [if_pos inside, if_pos (by omega), place, load_byte loaded _ inside]
  · have shifted : (offset - 8).toNat < count ↔ offset.toNat < count + 8 := by bv_omega
    have place : src + 8 + (offset - 8) = src + offset := by bv_omega
    rw [if_neg inside, later, copy_at, place, ← later]
    simp only [shifted]

theorem load_beside (memory : Memory) (src : Address) {count width : Nat} {address : Address}
    (beside : ∀ i, i < width → ¬ Within dst count (address + BitVec.ofNat 64 i)) :
    (memory.copyNonoverlapping src dst count).load address width = memory.load address width := by
  apply load_congr
  intro i below
  rw [copyNonoverlapping, if_neg (beside i below)]

end MmtkJulia.Memory
