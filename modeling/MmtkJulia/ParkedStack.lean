import MmtkJulia.ShadowStack

/-! The scan of a task's shadow stack on the stack it runs on, and in the buffer it is parked in. -/

namespace MmtkJulia.Scanning

/-- The segment of a window, copied byte for byte, with the rest of the frames in place. -/
structure Moved (live parked : Memory) (window : Window) (frames : List Frame) : Prop where
  lower : 8 ∣ window.lb.toNat
  upper : 8 ∣ window.ub.toNat
  copied : ∀ byte, window.lb ≤ byte → byte < window.ub → parked (byte + window.offset) = live byte
  kept : ∀ frame ∈ frames, ∀ byte, frame.Holds byte → ¬ (window.lb ≤ byte ∧ byte < window.ub) →
    parked byte = live byte

section Relocation

variable {live parked : Memory} {window : Window} {frames : List Frame}

def Frame.field (frame : Frame) (k : Nat) : Address := shift frame.address (BitVec.ofNat 64 k)

theorem wordAt_eq_field (frame : Frame) (i : Nat) : frame.wordAt i = frame.field (i + 2) := by
  rw [Frame.wordAt, Frame.rts, Frame.field, shift, shift, shift, BitVec.add_assoc, ← BitVec.mul_add,
    BitVec.add_comm 2, BitVec.ofNat_add]
  rfl

theorem field_aligned {frame : Frame} (aligned : 8 ∣ frame.address.toNat) (k : Nat) :
    8 ∣ (frame.field k).toNat := by
  rw [Frame.field, shift, BitVec.toNat_add, BitVec.toNat_mul, eight_toNat]
  omega

theorem holds_field {frame : Frame} {k : Nat} (inside : k < frame.words.length + 2) {b : Nat}
    (below : b < 8) : frame.Holds (frame.field k + BitVec.ofNat 64 b) := by
  have few := words_few frame
  rw [Frame.Holds, Frame.field, shift, BitVec.add_assoc, Memory.within_add, BitVec.toNat_add,
    BitVec.toNat_mul, BitVec.toNat_ofNat, BitVec.toNat_ofNat, eight_toNat]
  omega

theorem getStackAddr_inside {address : Address} (inside : window.lb ≤ address ∧ address < window.ub) :
    getStackAddr window address = address + window.offset := if_pos inside

theorem getStackAddr_outside {address : Address}
    (outside : ¬ (window.lb ≤ address ∧ address < window.ub)) :
    getStackAddr window address = address := if_neg outside

theorem byte_inside_iff {address lb ub : Address} (aligned : 8 ∣ address.toNat) (lower : 8 ∣ lb.toNat)
    (upper : 8 ∣ ub.toNat) {b : Nat} (below : b < 8) :
    lb ≤ address + BitVec.ofNat 64 b ∧ address + BitVec.ofNat 64 b < ub ↔
      lb ≤ address ∧ address < ub := by
  have bounded := address.isLt
  have top := ub.isLt
  have position : (address + BitVec.ofNat 64 b).toNat = address.toNat + b := by
    rw [BitVec.toNat_add, BitVec.toNat_ofNat]
    omega
  simp only [BitVec.le_def, BitVec.lt_def, position]
  omega

theorem loadU64_congr {memory other : Memory} {address place : Address}
    (same : ∀ b, b < 8 → memory (address + BitVec.ofNat 64 b) = other (place + BitVec.ofNat 64 b)) :
    loadU64 memory address = loadU64 other place := by
  rw [loadU64, loadU64, loadBytes, loadBytes, Memory.load_congr same]

theorem readStack_field (moved : Moved live parked window frames) {frame : Frame}
    (member : frame ∈ frames) (aligned : 8 ∣ frame.address.toNat) {k : Nat}
    (inside : k < frame.words.length + 2) :
    readStack parked window (frame.field k) = loadU64 live (frame.field k) := by
  have whole := fun (b : Nat) (below : b < 8) =>
    byte_inside_iff (field_aligned aligned k) moved.lower moved.upper below
  by_cases segment : window.lb ≤ frame.field k ∧ frame.field k < window.ub
  · rw [readStack, getStackAddr_inside segment]
    apply loadU64_congr
    intro b below
    rcases (whole b below).mpr segment with ⟨above, under⟩
    have same := moved.copied _ above under
    rw [BitVec.add_assoc, BitVec.add_comm window.offset, ← BitVec.add_assoc]
    exact same
  · rw [readStack, getStackAddr_outside segment]
    apply loadU64_congr
    intro b below
    apply moved.kept frame member _ (holds_field inside below)
    intro byteInside
    exact segment ((whole b below).mp byteInside)

theorem FrameAt.relocated (moved : Moved live parked window frames) {frame : Frame}
    (member : frame ∈ frames) (aligned : 8 ∣ frame.address.toNat)
    (at_ : FrameAt (loadU64 live) frame) : FrameAt (readStack parked window) frame := by
  have first : frame.field 0 = frame.address := by simp [Frame.field, shift]
  have second : frame.field 1 = frame.address + 8 := by simp [Frame.field, shift]
  refine ⟨?_, ?_, ?_⟩
  · have read : readStack parked window (frame.field 0) = loadU64 live (frame.field 0) :=
      readStack_field moved member aligned (by omega)
    rw [first] at read
    exact read.trans at_.nroots
  · have read : readStack parked window (frame.field 1) = loadU64 live (frame.field 1) :=
      readStack_field moved member aligned (by omega)
    rw [second] at read
    exact read.trans at_.prev
  · intro i
    rw [wordAt_eq_field, readStack_field moved member aligned (by omega), ← wordAt_eq_field]
    exact at_.words i

theorem Chain.transfer {read other : Address → Except Fault Usize} {s : Address}
    (each : ∀ frame ∈ frames, FrameAt read frame → FrameAt other frame)
    (chain : Chain read s frames) : Chain other s frames := by
  induction frames generalizing s with
  | nil => exact chain.elim
  | cons frame frames ih =>
      rcases chain with ⟨address, at_, rest⟩
      refine ⟨address, each frame (by simp) at_, ?_⟩
      rcases rest with last | ⟨more, chain⟩
      · exact .inl last
      · exact .inr ⟨more, ih (fun next member => each next (by simp [member])) chain⟩

theorem getStackAddr_whole : getStackAddr .whole = id := by
  funext address
  have nothing : address + Window.whole.offset = address := BitVec.add_zero address
  rw [getStackAddr, nothing, ite_self]
  rfl

theorem readStack_whole (memory : Memory) : readStack memory .whole = loadU64 memory := by
  funext address
  rw [readStack, getStackAddr_whole]
  rfl

theorem relocate_id (slots : List JuliaVMSlot) : slots.map (JuliaVMSlot.relocate id) = slots := by
  have same : JuliaVMSlot.relocate id = id := by
    funext slot
    cases slot <;> rfl
  rw [same, List.map_id]

theorem seen_whole (slots : List JuliaVMSlot) : seen .whole slots = slots := by
  rw [seen, getStackAddr_whole, relocate_id]

end Relocation

structure TaskFields where
  stkbuf : Usize
  copyStackRaw : BitVec 32
  ptls : Address
  tid : BitVec 16
  gcstack : Address
  excstack : Address
  deriving DecidableEq, Repr

structure TaskAt (memory : Memory) (ta : Address) (task : TaskFields) : Prop where
  stkbuf : loadU64 memory (ta + 200) = .ok task.stkbuf
  copyStack : loadU32 memory (ta + 216) = .ok task.copyStackRaw
  ptls : loadU64 memory (ta + 168) = .ok task.ptls
  tid : loadU16 memory (ta + 144) = .ok task.tid
  gcstack : loadU64 memory (ta + 152) = .ok task.gcstack
  excstack : loadU64 memory (ta + 176) = .ok task.excstack

namespace TaskFields

variable (task : TaskFields)

def Buffered : Prop := task.stkbuf ≠ 0 ∧ copyStackCustom task.copyStackRaw ≠ 0

instance : Decidable task.Buffered := inferInstanceAs (Decidable (_ ∧ _))

/-- The stack is in the buffer: no thread runs the task. -/
structure Parked : Prop where
  buffered : task.Buffered
  idle : task.ptls = 0
  owned : 0 ≤ task.tid.toInt

def segment (runtime : Runtime) : Window :=
  let ub := runtime.stackbase task.tid
  let lb := ub - (copyStackCustom task.copyStackRaw).setWidth 64
  ⟨task.stkbuf - lb, lb, ub⟩

def ownSlots (ta : Address) : List JuliaVMSlot := if task.Buffered then [.simple (ta + 200)] else []

def exceptionSlots (runtime : Runtime) (memory : Memory) (ta : Address) : List JuliaVMSlot :=
  if task.excstack ≠ 0 then (runtime.scanJuliaExcObj memory ta).map .simple else []

end TaskFields

section Task

variable {runtime : Runtime} {memory live parked : Memory} {ta : Address} {task : TaskFields}

theorem TaskAt.stackWindow_parked (at_ : TaskAt memory ta task) (feature : runtime.juliaCopyStack)
    (parked : task.Parked) : stackWindow runtime memory ta = .ok (task.segment runtime) := by
  have buffered : runtime.juliaCopyStack ∧ task.stkbuf ≠ 0 ∧ copyStackCustom task.copyStackRaw ≠ 0 :=
    ⟨feature, parked.buffered⟩
  have owned : ¬ task.tid.toInt < 0 := not_lt.mpr parked.owned
  simp only [stackWindow, at_.stkbuf, at_.copyStack, at_.ptls, at_.tid, bind, Except.bind]
  rw [if_pos buffered, if_pos parked.idle, if_neg owned]
  rfl

theorem TaskAt.stackWindow_live (at_ : TaskAt memory ta task)
    (running : ¬ task.Buffered ∨ task.ptls ≠ 0) : stackWindow runtime memory ta = .ok .whole := by
  simp only [stackWindow, at_.stkbuf, at_.copyStack, at_.ptls, bind, Except.bind]
  by_cases buffered : runtime.juliaCopyStack ∧ task.stkbuf ≠ 0 ∧ copyStackCustom task.copyStackRaw ≠ 0
  · have busy : task.ptls ≠ 0 := running.resolve_left (not_not.mpr buffered.2)
    rw [if_pos buffered, if_neg busy]
    rfl
  · rw [if_neg buffered]
    rfl

theorem TaskAt.stkbufSlot_eq (at_ : TaskAt memory ta task) (feature : runtime.juliaCopyStack) :
    stkbufSlot runtime memory ta = .ok (task.ownSlots ta) := by
  have same : (runtime.juliaCopyStack ∧ task.stkbuf ≠ 0 ∧ copyStackCustom task.copyStackRaw ≠ 0) ↔
      task.Buffered := and_iff_right feature
  simp only [stkbufSlot, at_.stkbuf, at_.copyStack, bind, Except.bind, TaskFields.ownSlots]
  by_cases buffered : task.Buffered
  · rw [if_pos (same.mpr buffered), if_pos buffered]
    rfl
  · rw [if_neg (mt same.mp buffered), if_neg buffered]
    rfl

theorem TaskAt.scanExcstack_eq (at_ : TaskAt memory ta task) :
    scanExcstack runtime memory ta = .ok (task.exceptionSlots runtime memory ta) := by
  simp only [scanExcstack, at_.excstack, bind, Except.bind, TaskFields.exceptionSlots]
  by_cases present : task.excstack ≠ 0
  · rw [if_pos present, if_pos present]
    rfl
  · rw [if_neg present, if_neg present]
    rfl

def Hangs (read : Address → Except Fault Usize) (gcstack : Address) (frames : List Frame) : Prop :=
  gcstack = 0 ∧ frames = [] ∨ gcstack ≠ 0 ∧ Chain read gcstack frames

theorem TaskAt.scanShadowStack_eq (at_ : TaskAt memory ta task) {window : Window}
    (through : stackWindow runtime memory ta = .ok window) {frames : List Frame} {fuel : Nat}
    (hangs : Hangs (readStack memory window) task.gcstack frames) (enough : frames.length ≤ fuel) :
    scanShadowStack runtime memory fuel ta = .ok (seen window (frames.flatMap Frame.slots)) := by
  simp only [scanShadowStack, at_.gcstack, through, bind, Except.bind]
  rcases hangs with ⟨none, rfl⟩ | ⟨some, chain⟩
  · rw [if_neg (not_not.mpr none)]
    rfl
  · rcases chain.first_read with ⟨nroots, read⟩
    rw [if_pos some, read]
    exact scanFrames_eq chain read enough

theorem TaskAt.mmtkScanGcstack_eq (at_ : TaskAt memory ta task) (feature : runtime.juliaCopyStack)
    {window : Window} (through : stackWindow runtime memory ta = .ok window) {frames : List Frame}
    {fuel : Nat} (hangs : Hangs (readStack memory window) task.gcstack frames)
    (enough : frames.length ≤ fuel) :
    mmtkScanGcstack runtime memory fuel ta =
      .ok (task.ownSlots ta ++ seen window (frames.flatMap Frame.slots) ++
        task.exceptionSlots runtime memory ta) := by
  rw [mmtkScanGcstack, at_.stkbufSlot_eq feature, at_.scanShadowStack_eq through hangs enough,
    at_.scanExcstack_eq]
  rfl

theorem seen_outside {window : Window} {addresses : List Address}
    (outside : ∀ address ∈ addresses, ¬ (window.lb ≤ address ∧ address < window.ub)) :
    seen window (addresses.map .simple) = addresses.map .simple := by
  rw [seen, List.map_map]
  apply List.map_congr_left
  intro address member
  change JuliaVMSlot.simple (getStackAddr window address) = .simple address
  rw [getStackAddr_outside (outside address member)]

/-- The scan of a stack that was copied out visits what the scan of the live stack visits, each
frame once, with the slots of the segment in the buffer. -/
theorem parked_scan_relocates_live_scan {running saved : TaskFields} {frames : List Frame} {fuel : Nat}
    (feature : runtime.juliaCopyStack) (atLive : TaskAt live ta running)
    (atParked : TaskAt parked ta saved) (onStack : ¬ running.Buffered ∨ running.ptls ≠ 0)
    (inBuffer : saved.Parked) (gcstack : saved.gcstack = running.gcstack)
    (excstack : saved.excstack = running.excstack)
    (hangs : Hangs (loadU64 live) running.gcstack frames)
    (aligned : ∀ frame ∈ frames, 8 ∣ frame.address.toNat)
    (moved : Moved live parked (saved.segment runtime) frames)
    (exceptions : runtime.scanJuliaExcObj parked ta = runtime.scanJuliaExcObj live ta)
    (outside : ∀ address ∈ runtime.scanJuliaExcObj live ta,
      ¬ ((saved.segment runtime).lb ≤ address ∧ address < (saved.segment runtime).ub))
    (enough : frames.length ≤ fuel) :
    ∃ visited, visited = frames.flatMap Frame.slots ++ running.exceptionSlots runtime live ta ∧
      mmtkScanGcstack runtime live fuel ta = .ok (running.ownSlots ta ++ visited) ∧
      mmtkScanGcstack runtime parked fuel ta =
        .ok (.simple (ta + 200) ::
          visited.map (JuliaVMSlot.relocate (getStackAddr (saved.segment runtime)))) := by
  refine ⟨_, rfl, ?_, ?_⟩
  · have whole : Hangs (readStack live .whole) running.gcstack frames := by
      rw [readStack_whole]
      exact hangs
    rw [atLive.mmtkScanGcstack_eq feature (atLive.stackWindow_live onStack) whole enough, seen_whole,
      List.append_assoc]
  · have relocated : Hangs (readStack parked (saved.segment runtime)) saved.gcstack frames := by
      rw [gcstack]
      rcases hangs with none | ⟨some, chain⟩
      · exact .inl none
      · right
        exact ⟨some, chain.transfer (fun frame member =>
          FrameAt.relocated moved member (aligned frame member))⟩
    have own : saved.ownSlots ta = [.simple (ta + 200)] := if_pos inBuffer.buffered
    have same : saved.exceptionSlots runtime parked ta =
        seen (saved.segment runtime) (running.exceptionSlots runtime live ta) := by
      rw [TaskFields.exceptionSlots, TaskFields.exceptionSlots, excstack, exceptions]
      by_cases present : running.excstack ≠ 0
      · rw [if_pos present, seen_outside outside]
      · rw [if_neg present]
        rfl
    rw [atParked.mmtkScanGcstack_eq feature (atParked.stackWindow_parked feature inBuffer) relocated
      enough, own, same, List.map_append]
    rfl

end Task

/-- A task at 0x7000 with a direct frame at 0x9fb0, at the bottom of the segment, and an indirect
one at 0xc000. -/
def sampleStack (ptls : Usize) : Memory := .ofWords [
  (0x70a8, ptls), (0x7090, 3), (0x7098, 0x9fb0), (0x70b0, 0), (0x70c8, 0xb000), (0x70d8, 80),
  (0x9fb0, 20), (0x9fb8, 0xc000), (0x9fc0, 0x1230), (0x9fc8, 0x5001), (0x9fd0, 0x1240),
  (0x9fd8, 0x5003), (0x9fe0, 0x1250), (0xc000, 9), (0xc008, 0), (0xc010, 0x9ff0), (0xc018, 0xd000)]

def parkedStack : Memory := (sampleStack 0).copyNonoverlapping 0x9fb0 0xb000 80

def sampleTask (ptls : Usize) : TaskFields := ⟨0xb000, 80, ptls, 3, 0x9fb0, 0⟩

def directFrame : Frame :=
  ⟨0x9fb0, 20, 0xc000, [0x1230, 0x5001, 0x1240, 0x5003, 0x1250], rfl⟩

def indirectFrame : Frame := ⟨0xc000, 9, 0, [0x9ff0, 0xd000], rfl⟩

theorem sampleStack_chain :
    Chain (loadU64 (sampleStack 0x900)) 0x9fb0 [directFrame, indirectFrame] := by
  have first : FrameAt (loadU64 (sampleStack 0x900)) directFrame := by
    constructor <;> decide +kernel
  have second : FrameAt (loadU64 (sampleStack 0x900)) indirectFrame := by
    constructor <;> decide +kernel
  exact ⟨rfl, first, .inr ⟨by decide, rfl, second, .inl ⟨rfl, rfl⟩⟩⟩

theorem sampleTask_at : TaskAt (sampleStack 0x900) 0x7000 (sampleTask 0x900) := by
  constructor <;> decide +kernel

theorem parkedTask_at : TaskAt parkedStack 0x7000 (sampleTask 0) := by
  constructor <;> decide +kernel

/-- The word that tells a running task from a parked one lies in the task. -/
theorem sampleStack_elsewhere {byte : Address} (outside : 0x9000 ≤ byte) :
    sampleStack 0 byte = sampleStack 0x900 byte := by
  have away : ¬ Memory.Within 0x70a8 8 byte := by
    rw [Memory.Within]
    bv_omega
  exact (Memory.store_outside _ away).trans (Memory.store_outside _ away).symm

theorem sampleStack_moved :
    Moved (sampleStack 0x900) parkedStack ⟨0x1050, 0x9fb0, 0xa000⟩ [directFrame, indirectFrame] where
  lower := ⟨0x13f6, rfl⟩
  upper := ⟨0x1400, rfl⟩
  copied := by
    intro byte above below
    have place : byte + 0x1050 = 0xb000 + (byte - 0x9fb0) := by bv_omega
    have back : 0x9fb0 + (byte - 0x9fb0) = byte := by bv_omega
    have inside : (byte - 0x9fb0).toNat < 80 := by bv_omega
    change parkedStack (byte + 0x1050) = sampleStack 0x900 byte
    rw [parkedStack, place, Memory.copy_inside inside, back]
    apply sampleStack_elsewhere
    bv_omega
  kept := by
    intro frame member byte held outside
    rcases List.mem_pair.mp member with rfl | rfl
    · have inside : (byte - 0x9fb0).toNat < 56 := held
      exact absurd ⟨by bv_omega, by bv_omega⟩ outside
    · have inside : (byte - 0xc000).toNat < 32 := held
      have away : ¬ Memory.Within 0xb000 80 byte := by
        rw [Memory.Within]
        bv_omega
      rw [parkedStack, Memory.copyNonoverlapping, if_neg away]
      apply sampleStack_elsewhere
      bv_omega

/-- A direct frame of the segment with entries of each tag, and an indirect frame outside of it. -/
theorem parked_scan_relocates_live_scan_two_frames :
    mmtkScanGcstack sampleRuntime (sampleStack 0x900) 2 0x7000 =
        .ok [.simple 0x70c8, .simple 0x9fc0, .offset 0x9fc8 1, .simple 0x9ff0, .simple 0xd000] ∧
      mmtkScanGcstack sampleRuntime parkedStack 2 0x7000 =
        .ok [.simple 0x70c8, .simple 0xb010, .offset 0xb018 1, .simple 0xb040, .simple 0xd000] := by
  have aligned : ∀ frame ∈ [directFrame, indirectFrame], 8 ∣ frame.address.toNat := by
    intro frame member
    rcases List.mem_pair.mp member with rfl | rfl
    · exact ⟨0x13f6, rfl⟩
    · exact ⟨0x1800, rfl⟩
  have parked : (sampleTask 0).Parked := ⟨by decide, rfl, by decide⟩
  have segment : (sampleTask 0).segment sampleRuntime = ⟨0x1050, 0x9fb0, 0xa000⟩ := by decide +kernel
  have moved : Moved (sampleStack 0x900) parkedStack ((sampleTask 0).segment sampleRuntime)
      [directFrame, indirectFrame] := by
    rw [segment]
    exact sampleStack_moved
  rcases parked_scan_relocates_live_scan rfl sampleTask_at parkedTask_at (.inr (by decide)) parked
      rfl rfl (.inr ⟨by decide, sampleStack_chain⟩) aligned moved rfl
      (fun _ member => nomatch member) (Nat.le_refl 2) with ⟨visited, same, onStack, inBuffer⟩
  have slots : visited = [.simple 0x9fc0, .offset 0x9fc8 1, .simple 0x9ff0, .simple 0xd000] := by
    rw [same]
    decide +kernel
  rw [slots] at onStack inBuffer
  constructor
  · exact onStack
  · rw [inBuffer]
    decide +kernel

end MmtkJulia.Scanning
