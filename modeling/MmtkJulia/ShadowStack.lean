import MmtkJulia.Layouts

/-! The frames of a shadow stack, and what the scan of it reports through a window. -/

namespace MmtkJulia.Scanning

structure Frame where
  address : Address
  nroots : Usize
  prev : Address
  words : List Usize
  count : words.length = (nroots >>> 2).toNat
  deriving DecidableEq, Repr

namespace Frame

variable (frame : Frame)

def rts : Address := shift frame.address 2

def wordAt (i : Nat) : Address := shift frame.rts (BitVec.ofNat 64 i)

def Holds (byte : Address) : Prop := Memory.Within frame.address (8 * (frame.words.length + 2)) byte

end Frame

structure FrameAt (read : Address → Except Fault Usize) (frame : Frame) : Prop where
  nroots : read frame.address = .ok frame.nroots
  prev : read (frame.address + 8) = .ok frame.prev
  words : ∀ i : Fin frame.words.length, read (frame.wordAt i) = .ok frame.words[i]

def Chain (read : Address → Except Fault Usize) : Address → List Frame → Prop
  | _, [] => False
  | s, frame :: frames => frame.address = s ∧ FrameAt read frame ∧
      (frames = [] ∧ frame.prev = 0 ∨ frame.prev ≠ 0 ∧ Chain read frame.prev frames)

theorem Chain.first_read {read : Address → Except Fault Usize} {s : Address} {frames : List Frame}
    (chain : Chain read s frames) : ∃ nroots, read s = .ok nroots := by
  cases frames with
  | nil => exact chain.elim
  | cons frame frames =>
      rcases chain with ⟨rfl, at_, -⟩
      exact ⟨frame.nroots, at_.nroots⟩

/-- The slots of the words of a direct frame, word i coming first: a word with tag 3 is skipped
together with the next one, a word with tag 1 skips the next one. -/
def directSlots (rts : Address) : Nat → List Usize → List JuliaVMSlot
  | _, [] => []
  | i, [word] =>
      if word &&& 3 = 3 then []
      else if word &&& 1 ≠ 0 then [.offset (shift rts (BitVec.ofNat 64 i)) 1]
      else [.simple (shift rts (BitVec.ofNat 64 i))]
  | i, word :: next :: words =>
      if word &&& 3 = 3 then directSlots rts (i + 2) words
      else if word &&& 1 ≠ 0 then
        .offset (shift rts (BitVec.ofNat 64 i)) 1 :: directSlots rts (i + 2) words
      else .simple (shift rts (BitVec.ofNat 64 i)) :: directSlots rts (i + 1) (next :: words)

theorem directSlots_cons (rts : Address) (i : Nat) (word : Usize) (words : List Usize) :
    directSlots rts i (word :: words) =
      if word &&& 3 = 3 then directSlots rts (i + 2) words.tail
      else if word &&& 1 ≠ 0 then
        .offset (shift rts (BitVec.ofNat 64 i)) 1 :: directSlots rts (i + 2) words.tail
      else .simple (shift rts (BitVec.ofNat 64 i)) :: directSlots rts (i + 1) words := by
  cases words <;> rfl

/-- The slots of a frame that lies where it was pushed. The words of an indirect frame are the
addresses of the root variables. -/
def Frame.slots (frame : Frame) : List JuliaVMSlot :=
  if frame.nroots &&& 1 ≠ 0 then frame.words.map .simple else directSlots frame.rts 0 frame.words

def JuliaVMSlot.relocate (place : Address → Address) : JuliaVMSlot → JuliaVMSlot
  | .simple address => .simple (place address)
  | .offset address distance => .offset (place address) distance

def JuliaVMSlot.address : JuliaVMSlot → Address
  | .simple address => address
  | .offset address _ => address

section Frames

variable {memory : Memory} {window : Window} {frame : Frame}

def seen (window : Window) (slots : List JuliaVMSlot) : List JuliaVMSlot :=
  slots.map (JuliaVMSlot.relocate (getStackAddr window))

theorem rootIndex_lt (frame : Frame) {i : Nat} (small : i < 2 ^ 64) :
    BitVec.ofNat 64 i < frame.nroots >>> 2 ↔ i < frame.words.length := by
  rw [BitVec.lt_def, BitVec.toNat_ofNat, Nat.mod_eq_of_lt small, frame.count]

theorem words_few (frame : Frame) : frame.words.length < 2 ^ 62 := by
  have bounded := frame.nroots.isLt
  rw [frame.count, BitVec.toNat_ushiftRight, Nat.shiftRight_eq_div_pow]
  omega

theorem scanRoots_ended (frame : Frame) {i : Nat} (small : i < 2 ^ 64)
    (ended : frame.words.length ≤ i) (fuel : Nat) :
    scanRoots memory window frame.rts frame.nroots (fuel + 1) (BitVec.ofNat 64 i) = .ok [] := by
  have stop : ¬ BitVec.ofNat 64 i < frame.nroots >>> 2 := by
    rw [rootIndex_lt frame small]
    omega
  rw [scanRoots, if_neg stop]
  rfl

/-- The loop over the roots of a direct frame, from root i on. A skip may pass the end by one. -/
theorem scanRoots_direct (at_ : FrameAt (readStack memory window) frame)
    (direct : frame.nroots &&& 1 = 0) (fuel i : Nat) (inside : i ≤ frame.words.length + 1)
    (enough : frame.words.length - i < fuel) :
    scanRoots memory window frame.rts frame.nroots fuel (BitVec.ofNat 64 i) =
      .ok (seen window (directSlots frame.rts i (frame.words.drop i))) := by
  have few := words_few frame
  induction fuel generalizing i with
  | zero => omega
  | succ fuel ih =>
      by_cases more : i < frame.words.length
      · have read : readStack memory window (shift frame.rts (BitVec.ofNat 64 i)) =
            .ok frame.words[i] := at_.words ⟨i, more⟩
        have one : BitVec.ofNat 64 i + 1 = BitVec.ofNat 64 (i + 1) := (BitVec.ofNat_add _ _).symm
        have two : BitVec.ofNat 64 i + 2 = BitVec.ofNat 64 (i + 2) := (BitVec.ofNat_add _ _).symm
        have skip := ih (i + 2) (by omega) (by omega)
        have next := ih (i + 1) (by omega) (by omega)
        rw [scanRoots, if_pos ((rootIndex_lt frame (by omega)).mpr more),
          if_neg (not_not.mpr direct), one, two, skip, next, read, List.drop_eq_getElem_cons more, directSlots_cons, List.tail_drop]
        simp only [bind, Except.bind]
        by_cases pair : frame.words[i] &&& 3 = 3
        · rw [if_pos pair, if_pos pair]
        · rw [if_neg pair, if_neg pair]
          by_cases tagged : frame.words[i] &&& 1 ≠ 0
          · rw [if_pos tagged, if_pos tagged]
            rfl
          · rw [if_neg tagged, if_neg tagged]
            rfl
      · rw [scanRoots_ended frame (by omega) (by omega), List.drop_eq_nil_of_le (by omega)]
        rfl

theorem scanRoots_indirect (at_ : FrameAt (readStack memory window) frame)
    (indirect : frame.nroots &&& 1 ≠ 0) (fuel i : Nat) (inside : i ≤ frame.words.length)
    (enough : frame.words.length - i < fuel) :
    scanRoots memory window frame.rts frame.nroots fuel (BitVec.ofNat 64 i) =
      .ok (seen window ((frame.words.drop i).map .simple)) := by
  have few := words_few frame
  induction fuel generalizing i with
  | zero => omega
  | succ fuel ih =>
      by_cases more : i < frame.words.length
      · have read : readStack memory window (shift frame.rts (BitVec.ofNat 64 i)) =
            .ok frame.words[i] := at_.words ⟨i, more⟩
        have one : BitVec.ofNat 64 i + 1 = BitVec.ofNat 64 (i + 1) := (BitVec.ofNat_add _ _).symm
        have next := ih (i + 1) (by omega) (by omega)
        rw [scanRoots, if_pos ((rootIndex_lt frame (by omega)).mpr more), if_pos indirect, one, next, read,
          List.drop_eq_getElem_cons more]
        rfl
      · rw [scanRoots_ended frame (by omega) (by omega), List.drop_eq_nil_of_le (by omega)]
        rfl

theorem scanFrame_eq (at_ : FrameAt (readStack memory window) frame) :
    scanFrame memory window frame.address frame.nroots = .ok (seen window frame.slots) := by
  have rounds : frame.words.length - 0 < (frame.nroots >>> 2).toNat + 1 := by
    rw [frame.count]
    omega
  rw [scanFrame, Frame.slots]
  by_cases indirect : frame.nroots &&& 1 ≠ 0
  · rw [if_pos indirect]
    exact scanRoots_indirect at_ indirect _ 0 (by omega) rounds
  · rw [if_neg indirect]
    exact scanRoots_direct at_ (not_not.mp indirect) _ 0 (by omega) rounds

/-- The loop over the frames visits every frame of the chain once. -/
theorem scanFrames_eq {frames : List Frame} {fuel : Nat} {s : Address} {nroots : Usize}
    (chain : Chain (readStack memory window) s frames)
    (first : readStack memory window s = .ok nroots) (enough : frames.length ≤ fuel) :
    scanFrames memory window fuel s nroots = .ok (seen window (frames.flatMap Frame.slots)) := by
  induction frames generalizing fuel s nroots with
  | nil => exact chain.elim
  | cons frame frames ih =>
      rcases chain with ⟨rfl, at_, rest⟩
      rcases Nat.exists_eq_add_of_lt enough with ⟨left, rfl⟩
      have same : nroots = frame.nroots := Except.ok.inj (first.symm.trans at_.nroots)
      rw [same, scanFrames, scanFrame_eq at_, at_.prev]
      simp only [bind, Except.bind]
      rcases rest with ⟨rfl, last⟩ | ⟨more, chain⟩
      · rw [if_pos last, List.flatMap_singleton]
        rfl
      · rcases chain.first_read with ⟨newNroots, read⟩
        have later := ih chain read (Nat.le_add_right frames.length left)
        rw [if_neg more, read]
        simp only [later, List.flatMap_cons, seen, List.map_append]
        rfl

end Frames

end MmtkJulia.Scanning
