import MmtkJulia.Backtrace
import MmtkJulia.Packets
import MmtkJulia.ParkedStack
import MmtkJulia.Slots

/-! scan_roots_in_mutator_thread of scanning.rs: the roots that a thread holds, cut into work
packets. Debug assertions are compiled out. -/

namespace MmtkJulia.Scanning

open Backtrace

structure RootBuffers where
  slotBuffer : List Address
  nodeBuffer : List Address
  deriving DecidableEq, Repr

structure RootPackets where
  tpinningRoots : List (List Address)
  pinningRoots : List (List Address)
  deriving DecidableEq, Repr

def capacityPerPacket : Nat := 4096

section Thread

variable (runtime : Runtime) (memory : Memory) (fuel : Nat)

def visitSlot (buffer : List Address) (slot : JuliaVMSlot) : Except Fault (List Address) := do
  match ← slot.load memory with
  | some object => return buffer ++ [object]
  | none => return buffer

def rootScanTask (task : Address) (taskIsRoot : Bool) (buffers : RootBuffers) :
    Except Fault RootBuffers :=
  if task ≠ 0 then do
    let slots ← mmtkScanGcstack runtime memory fuel task
    let slotBuffer ← slots.foldlM (visitSlot memory) buffers.slotBuffer
    if taskIsRoot then
      return ⟨slotBuffer, buffers.nodeBuffer ++ [task]⟩
    else
      return ⟨slotBuffer, buffers.nodeBuffer⟩
  else return buffers

structure LiveTasks where
  i : Usize
  buffers : RootBuffers

def scanLiveTask (items : Address) (progress : LiveTasks) : Except Fault LiveTasks := do
  let task ← loadU64 memory (shift items progress.i)
  let buffers ← rootScanTask runtime memory fuel task false progress.buffers
  return ⟨progress.i + 1, buffers⟩

/-- The loop over gc_tls_common.heap.live_tasks: len at 896, items at 912. -/
def scanLiveTasks (ptls : Address) (buffers : RootBuffers) : Except Fault RootBuffers := do
  let len ← loadU64 memory (ptls + 896)
  let items ← loadU64 memory (ptls + 912)
  let progress ← whileLoop .stuck (fun progress => decide (progress.i < len))
    (scanLiveTask runtime memory fuel items) (len.toNat + 1) ⟨0, buffers⟩
  return progress.buffers

/-- jl_tls_states_t: current_task at 2184, next_task at 2192, previous_task at 2200, root_task at
2208, bt_data at 2248, bt_size at 2256, previous_exception at 2600. -/
def scanRootsInMutatorThread (ptls : Address) : Except Fault RootPackets := do
  let rootTask ← loadU64 memory (ptls + 2208)
  let buffers ← rootScanTask runtime memory fuel rootTask true ⟨[], []⟩
  let buffers ← scanLiveTasks runtime memory fuel ptls buffers
  let currentTask ← loadU64 memory (ptls + 2184)
  let buffers ← rootScanTask runtime memory fuel currentTask true buffers
  let nextTask ← loadU64 memory (ptls + 2192)
  let buffers ← rootScanTask runtime memory fuel nextTask true buffers
  let previousTask ← loadU64 memory (ptls + 2200)
  let buffers ← rootScanTask runtime memory fuel previousTask true buffers
  let previousException ← loadU64 memory (ptls + 2600)
  let nodeBuffer :=
    if previousException ≠ 0 then buffers.nodeBuffer ++ [previousException] else buffers.nodeBuffer
  let btData ← loadU64 memory (ptls + 2248)
  let btSize ← loadU64 memory (ptls + 2256)
  let nodeBuffer ← scanBtBuffer memory btData btSize nodeBuffer
  return ⟨chunks capacityPerPacket buffers.slotBuffer, chunks capacityPerPacket nodeBuffer⟩

end Thread

structure TaskStack where
  address : Address
  fields : TaskFields
  frames : List Frame

namespace TaskStack

variable (stack : TaskStack) (runtime : Runtime) (memory : Memory)

def window : Window :=
  if stack.fields.Buffered ∧ stack.fields.ptls = 0 then stack.fields.segment runtime else .whole

def slots : List JuliaVMSlot :=
  stack.fields.ownSlots stack.address ++
    seen (stack.window runtime) (stack.frames.flatMap Frame.slots) ++
    stack.fields.exceptionSlots runtime memory stack.address

def objects : List Address :=
  (stack.slots runtime memory).filterMap (fun slot => slot.target (wordAt memory slot.address))

structure At (fuel : Nat) : Prop where
  nonnull : stack.address ≠ 0
  fields : TaskAt memory stack.address stack.fields
  owned : stack.fields.Buffered → stack.fields.ptls = 0 → 0 ≤ stack.fields.tid.toInt
  hangs : Hangs (readStack memory (stack.window runtime)) stack.fields.gcstack stack.frames
  enough : stack.frames.length ≤ fuel
  mapped : ∀ slot ∈ stack.slots runtime memory, ∃ word, loadU64 memory slot.address = .ok word

def pointer : Option TaskStack → Address
  | none => 0
  | some stack => stack.address

structure Held (fuel : Nat) (place : Address) (task : Option TaskStack) : Prop where
  pointer : loadU64 memory place = .ok (pointer task)
  stack : ∀ stack ∈ task, stack.At runtime memory fuel

end TaskStack

section Tasks

variable {runtime : Runtime} {memory : Memory} {fuel : Nat} {stack : TaskStack}

theorem visitSlots_eq {slots : List JuliaVMSlot} (buffer : List Address)
    (mapped : ∀ slot ∈ slots, ∃ word, loadU64 memory slot.address = .ok word) :
    slots.foldlM (visitSlot memory) buffer =
      .ok (buffer ++ slots.filterMap (fun slot => slot.target (wordAt memory slot.address))) := by
  induction slots generalizing buffer with
  | nil => simp [pure, Except.pure]
  | cons slot slots ih =>
      rcases mapped slot (by simp) with ⟨word, loaded⟩
      have later := fun buffer => ih buffer (fun other member => mapped other (by simp [member]))
      have visited : visitSlot memory buffer slot = .ok (buffer ++ (slot.target word).toList) := by
        rw [visitSlot, JuliaVMSlot.load, loaded]
        cases refers : slot.target word <;>
          simp [refers, bind, Except.bind, pure, Except.pure]
      rw [List.foldlM_cons, visited]
      change slots.foldlM (visitSlot memory) (buffer ++ (slot.target word).toList) = _
      rw [later, List.append_assoc, List.filterMap_cons, wordAt_eq loaded]
      cases slot.target word <;> rfl

theorem TaskStack.At.window_eq (at_ : stack.At runtime memory fuel)
    (feature : runtime.juliaCopyStack) :
    stackWindow runtime memory stack.address = .ok (stack.window runtime) := by
  rw [TaskStack.window]
  by_cases parked : stack.fields.Buffered ∧ stack.fields.ptls = 0
  · rw [if_pos parked]
    exact at_.fields.stackWindow_parked feature ⟨parked.1, parked.2, at_.owned parked.1 parked.2⟩
  · rw [if_neg parked]
    apply at_.fields.stackWindow_live
    by_cases buffered : stack.fields.Buffered
    · exact .inr (fun idle => parked ⟨buffered, idle⟩)
    · exact .inl buffered

theorem rootScanTask_eq (feature : runtime.juliaCopyStack) {task : Option TaskStack}
    (each : ∀ stack ∈ task, stack.At runtime memory fuel) (taskIsRoot : Bool) (buffers : RootBuffers) :
    rootScanTask runtime memory fuel (TaskStack.pointer task) taskIsRoot buffers =
      .ok ⟨buffers.slotBuffer ++ task.toList.flatMap (fun stack => stack.objects runtime memory),
        buffers.nodeBuffer ++ if taskIsRoot then task.toList.map TaskStack.address else []⟩ := by
  cases task with
  | none =>
      rw [TaskStack.pointer, rootScanTask, if_neg (not_not.mpr rfl)]
      cases taskIsRoot <;> simp [pure, Except.pure]
  | some stack =>
      have at_ := each stack rfl
      have scanned := at_.fields.mmtkScanGcstack_eq feature (at_.window_eq feature) at_.hangs at_.enough
      have visited := visitSlots_eq buffers.slotBuffer at_.mapped
      rw [TaskStack.pointer, rootScanTask, if_pos at_.nonnull, scanned]
      simp only [bind, Except.bind]
      rw [TaskStack.slots] at visited
      rw [visited]
      cases taskIsRoot <;> simp [TaskStack.objects, TaskStack.slots, pure, Except.pure]

end Tasks

structure Thread where
  rootTask : Option TaskStack
  items : Address
  liveTasks : List (Option TaskStack)
  currentTask : Option TaskStack
  nextTask : Option TaskStack
  previousTask : Option TaskStack
  previousException : Address
  btData : Address
  btEntries : List BtEntry

namespace Thread

variable (thread : Thread) (runtime : Runtime) (memory : Memory)

/-- The tasks in the order of the scan. A task that the thread names twice is scanned twice. -/
def tasks : List TaskStack :=
  thread.rootTask.toList ++ thread.liveTasks.flatMap Option.toList ++ thread.currentTask.toList ++
    thread.nextTask.toList ++ thread.previousTask.toList

def objects : List Address := thread.tasks.flatMap (fun stack => stack.objects runtime memory)

/-- The live tasks are not among the nodes: they are kept alive by what refers to them. -/
def nodes : List Address :=
  (thread.rootTask.toList ++ thread.currentTask.toList ++ thread.nextTask.toList ++
      thread.previousTask.toList).map TaskStack.address ++
    (if thread.previousException ≠ 0 then [thread.previousException] else []) ++
    thread.btEntries.flatMap BtEntry.jlvals

structure At (fuel : Nat) (ptls : Address) : Prop where
  rootTask : TaskStack.Held runtime memory fuel (ptls + 2208) thread.rootTask
  len : loadU64 memory (ptls + 896) = .ok (BitVec.ofNat 64 thread.liveTasks.length)
  few : thread.liveTasks.length < 2 ^ 64
  items : loadU64 memory (ptls + 912) = .ok thread.items
  liveTasks : ∀ i task, thread.liveTasks[i]? = some task →
    TaskStack.Held runtime memory fuel (shift thread.items (BitVec.ofNat 64 i)) task
  currentTask : TaskStack.Held runtime memory fuel (ptls + 2184) thread.currentTask
  nextTask : TaskStack.Held runtime memory fuel (ptls + 2192) thread.nextTask
  previousTask : TaskStack.Held runtime memory fuel (ptls + 2200) thread.previousTask
  previousException : loadU64 memory (ptls + 2600) = .ok thread.previousException
  btData : loadU64 memory (ptls + 2248) = .ok thread.btData
  btSize : loadU64 memory (ptls + 2256) = .ok (BitVec.ofNat 64 (encodeAll thread.btEntries).length)
  short : (encodeAll thread.btEntries).length < 2 ^ 64
  btBuffer : HoldsWords memory thread.btData (encodeAll thread.btEntries)
  managed : ∀ entry ∈ thread.btEntries, ∀ value ∈ entry.jlvals, value ≠ 0

end Thread

section Roots

variable {runtime : Runtime} {memory : Memory} {fuel : Nat} {ptls : Address} {thread : Thread}

def liveBoundary (runtime : Runtime) (memory : Memory) (buffers : RootBuffers)
    (taken : List (Option TaskStack)) : LiveTasks where
  i := BitVec.ofNat 64 taken.length
  buffers := {
    slotBuffer := buffers.slotBuffer ++
      (taken.flatMap Option.toList).flatMap (fun stack => stack.objects runtime memory)
    nodeBuffer := buffers.nodeBuffer }

theorem scanLiveTasks_eq (feature : runtime.juliaCopyStack) (at_ : thread.At runtime memory fuel ptls)
    (buffers : RootBuffers) :
    scanLiveTasks runtime memory fuel ptls buffers =
      .ok (liveBoundary runtime memory buffers thread.liveTasks).buffers := by
  have few := at_.few
  have start : (⟨0, buffers⟩ : LiveTasks) = liveBoundary runtime memory buffers [] := by
    simp [liveBoundary]
  have count : (BitVec.ofNat 64 thread.liveTasks.length).toNat = thread.liveTasks.length := by
    rw [BitVec.toNat_ofNat, Nat.mod_eq_of_lt few]
  have position : ∀ taken : List (Option TaskStack), taken.length ≤ thread.liveTasks.length →
      ((liveBoundary runtime memory buffers taken).i < BitVec.ofNat 64 thread.liveTasks.length ↔
        taken.length < thread.liveTasks.length) := by
    intro taken below
    rw [BitVec.lt_def, count, liveBoundary, BitVec.toNat_ofNat, Nat.mod_eq_of_lt (by omega)]
  have ended : decide ((liveBoundary runtime memory buffers thread.liveTasks).i <
      BitVec.ofNat 64 thread.liveTasks.length) = false := by
    rw [decide_eq_false_iff_not, position _ (Nat.le_refl _)]
    omega
  have rounds : ∀ taken task later, taken ++ task :: later = thread.liveTasks →
      decide ((liveBoundary runtime memory buffers taken).i <
          BitVec.ofNat 64 thread.liveTasks.length) = true ∧
        scanLiveTask runtime memory fuel thread.items (liveBoundary runtime memory buffers taken) =
          .ok (liveBoundary runtime memory buffers (taken ++ [task])) := by
    intro taken task later whole
    have length := congrArg List.length whole
    rw [List.length_append, List.length_cons] at length
    have found : thread.liveTasks[taken.length]? = some task := by
      rw [← whole, List.getElem?_append_right (Nat.le_refl _), Nat.sub_self]
      rfl
    have held := at_.liveTasks _ _ found
    constructor
    · rw [decide_eq_true_eq, position _ (by omega)]
      omega
    · have scanned := rootScanTask_eq feature held.stack false
        (liveBoundary runtime memory buffers taken).buffers
      rw [scanLiveTask, liveBoundary, held.pointer]
      rw [liveBoundary] at scanned
      simp only [bind, Except.bind, scanned]
      simp [liveBoundary, pure, Except.pure, BitVec.ofNat_add]
  simp only [scanLiveTasks, at_.len, at_.items, bind, Except.bind, start]
  rw [whileLoop_items rounds ended (by omega)]
  rfl

theorem scanRootsInMutatorThread_eq (feature : runtime.juliaCopyStack)
    (at_ : thread.At runtime memory fuel ptls) :
    scanRootsInMutatorThread runtime memory fuel ptls =
      .ok ⟨chunks capacityPerPacket (thread.objects runtime memory),
        chunks capacityPerPacket thread.nodes⟩ := by
  have btSize : (BitVec.ofNat 64 (encodeAll thread.btEntries).length).toNat =
      (encodeAll thread.btEntries).length := by
    rw [BitVec.toNat_ofNat, Nat.mod_eq_of_lt at_.short]
  have root := fun buffers => rootScanTask_eq feature at_.rootTask.stack true buffers
  have live := fun buffers => scanLiveTasks_eq feature at_ buffers
  have current := fun buffers => rootScanTask_eq feature at_.currentTask.stack true buffers
  have next := fun buffers => rootScanTask_eq feature at_.nextTask.stack true buffers
  have previous := fun buffers => rootScanTask_eq feature at_.previousTask.stack true buffers
  have backtrace := fun nodes => scanBtBuffer_eq at_.btBuffer btSize nodes
  simp only [scanRootsInMutatorThread, at_.rootTask.pointer, at_.currentTask.pointer,
    at_.nextTask.pointer, at_.previousTask.pointer, at_.previousException, at_.btData, at_.btSize,
    bind, Except.bind, root, live, current, next, previous, backtrace, liveBoundary, pure, Except.pure,
    if_true]
  have objects : thread.objects runtime memory =
      [] ++ thread.rootTask.toList.flatMap (fun stack => stack.objects runtime memory) ++
        (thread.liveTasks.flatMap Option.toList).flatMap (fun stack => stack.objects runtime memory) ++
        thread.currentTask.toList.flatMap (fun stack => stack.objects runtime memory) ++
        thread.nextTask.toList.flatMap (fun stack => stack.objects runtime memory) ++
        thread.previousTask.toList.flatMap (fun stack => stack.objects runtime memory) := by
    simp only [Thread.objects, Thread.tasks, List.flatMap_append, List.nil_append]
  rw [← objects]
  by_cases thrown : thread.previousException ≠ 0
  · simp only [Thread.nodes, if_pos thrown, List.map_append, List.nil_append, List.append_assoc]
  · simp only [Thread.nodes, if_neg thrown, List.map_append, List.nil_append, List.append_nil,
      List.append_assoc]

theorem objects_nonnull {object : Address} (member : object ∈ thread.objects runtime memory) :
    object ≠ 0 := by
  rcases List.mem_flatMap.mp member with ⟨stack, -, present⟩
  rcases List.mem_filterMap.mp present with ⟨slot, -, refers⟩
  cases slot with
  | simple address =>
      rw [JuliaVMSlot.target] at refers
      by_cases null : wordAt memory (JuliaVMSlot.simple address).address = 0
      · rw [if_pos null] at refers
        cases refers
      · rw [if_neg null] at refers
        cases refers
        exact null
  | offset address distance =>
      rw [JuliaVMSlot.target] at refers
      by_cases null : wordAt memory (JuliaVMSlot.offset address distance).address - distance = 0
      · rw [if_pos null] at refers
        cases refers
      · rw [if_neg null] at refers
        cases refers
        exact null

theorem nodes_nonnull (at_ : thread.At runtime memory fuel ptls) {node : Address}
    (member : node ∈ thread.nodes) : node ≠ 0 := by
  rcases List.mem_append.mp member with member | member
  · rcases List.mem_append.mp member with member | member
    · rcases List.mem_map.mp member with ⟨stack, present, rfl⟩
      simp only [List.mem_append, Option.mem_toList] at present
      rcases present with ((root | current) | next) | previous
      · exact (at_.rootTask.stack stack root).nonnull
      · exact (at_.currentTask.stack stack current).nonnull
      · exact (at_.nextTask.stack stack next).nonnull
      · exact (at_.previousTask.stack stack previous).nonnull
    · by_cases thrown : thread.previousException ≠ 0
      · rw [if_pos thrown, List.mem_singleton] at member
        rw [member]
        exact thrown
      · rw [if_neg thrown] at member
        cases member
  · rcases List.mem_flatMap.mp member with ⟨entry, present, value⟩
    exact at_.managed entry present node value

/-- The roots of a thread reach the factory: what its stacks refer to, stack by stack, and the nodes
to pin, neither of them with a null reference, in full packets and a last one for the rest. -/
theorem thread_roots_packed (feature : runtime.juliaCopyStack)
    (at_ : thread.At runtime memory fuel ptls) :
    ∃ packets, scanRootsInMutatorThread runtime memory fuel ptls = .ok packets ∧
      Packed 4096 (thread.objects runtime memory) packets.tpinningRoots ∧
      packets.tpinningRoots.length = ((thread.objects runtime memory).length + 4095) / 4096 ∧
      Packed 4096 thread.nodes packets.pinningRoots ∧
      packets.pinningRoots.length = (thread.nodes.length + 4095) / 4096 ∧
      (∀ packet ∈ packets.tpinningRoots, ∀ object ∈ packet, object ≠ 0) ∧
      ∀ packet ∈ packets.pinningRoots, ∀ node ∈ packet, node ≠ 0 := by
  have objects := chunks_packed (by decide : 0 < capacityPerPacket) (thread.objects runtime memory)
  have nodes := chunks_packed (by decide : 0 < capacityPerPacket) thread.nodes
  refine ⟨_, scanRootsInMutatorThread_eq feature at_, objects, objects.count (by decide), nodes,
    nodes.count (by decide), ?_, ?_⟩
  · intro packet present object member
    have delivered := List.mem_flatten_of_mem present member
    rw [objects.whole] at delivered
    exact objects_nonnull delivered
  · intro packet present node member
    have delivered := List.mem_flatten_of_mem present member
    rw [nodes.whole] at delivered
    exact nodes_nonnull at_ delivered

end Roots

/-- A thread at 0x30000 whose root task is also current, with a null among two live tasks, an
exception and a backtrace. -/
def threadMemory : Memory := .ofWords (
  [(0x308a0, 0x7000), (0x30380, 2), (0x30390, 0x32000), (0x32000, 0), (0x32008, 0x7000),
    (0x30888, 0x7000), (0x30890, 0), (0x30898, 0), (0x30a28, 0x8800), (0x308c8, 0x20000),
    (0x308d0, 9), (0x70a8, 0x900), (0x7090, 3), (0x7098, 0x9fb0), (0x70b0, 0), (0x70c8, 0xb000),
    (0x70d8, 80), (0x9fb0, 20), (0x9fb8, 0xc000), (0x9fc0, 0x1230), (0x9fc8, 0x5001),
    (0x9fd0, 0x1240), (0x9fd8, 0x5003), (0x9fe0, 0x1250), (0xc000, 9), (0xc008, 0), (0xc010, 0x9ff0),
    (0xc018, 0xd000), (0x9ff0, 0), (0xd000, 0x1260)] ++
  (encodeAll sampleEntries).mapIdx (fun i word => (shift 0x20000 (BitVec.ofNat 64 i), word)))

def sampleTaskStack : TaskStack := ⟨0x7000, sampleTask 0x900, [directFrame, indirectFrame]⟩

def sampleThread : Thread where
  rootTask := some sampleTaskStack
  items := 0x32000
  liveTasks := [none, some sampleTaskStack]
  currentTask := some sampleTaskStack
  nextTask := none
  previousTask := none
  previousException := 0x8800
  btData := 0x20000
  btEntries := sampleEntries

theorem sampleTaskStack_at : sampleTaskStack.At sampleRuntime threadMemory 2 where
  nonnull := by decide
  fields := by constructor <;> decide +kernel
  owned := by decide
  hangs := by
    have whole : sampleTaskStack.window sampleRuntime = .whole := by decide +kernel
    rw [whole, readStack_whole]
    have first : FrameAt (loadU64 threadMemory) directFrame := by
      constructor <;> decide +kernel
    have second : FrameAt (loadU64 threadMemory) indirectFrame := by
      constructor <;> decide +kernel
    exact .inr ⟨by decide, rfl, first, .inr ⟨by decide, rfl, second, .inl ⟨rfl, rfl⟩⟩⟩
  enough := Nat.le_refl 2
  mapped := by
    have slots : sampleTaskStack.slots sampleRuntime threadMemory =
        [.simple 0x70c8, .simple 0x9fc0, .offset 0x9fc8 1, .simple 0x9ff0, .simple 0xd000] := by
      decide +kernel
    rw [slots]
    intro slot member
    simp only [List.mem_cons, List.not_mem_nil, or_false] at member
    rcases member with rfl | rfl | rfl | rfl | rfl
    · exact ⟨0xb000, by decide +kernel⟩
    · exact ⟨0x1230, by decide +kernel⟩
    · exact ⟨0x5001, by decide +kernel⟩
    · exact ⟨0, by decide +kernel⟩
    · exact ⟨0x1260, by decide +kernel⟩

theorem sampleThread_at : sampleThread.At sampleRuntime threadMemory 2 0x30000 := by
  have held : ∀ stack ∈ some sampleTaskStack, stack.At sampleRuntime threadMemory 2 := by
    intro stack member
    cases member
    exact sampleTaskStack_at
  have missing : ∀ stack ∈ (none : Option TaskStack), stack.At sampleRuntime threadMemory 2 := by
    intro stack member
    cases member
  refine ⟨⟨?_, held⟩, ?_, ?_, ?_, ?_, ⟨?_, held⟩, ⟨?_, missing⟩, ⟨?_, missing⟩, ?_, ?_, ?_, ?_, ?_, ?_⟩
  case refine_4 => decide +kernel
  case refine_5 =>
    intro i task found
    match i, found with
    | 0, found =>
        cases found
        exact ⟨by decide +kernel, missing⟩
    | 1, found =>
        cases found
        exact ⟨by decide +kernel, held⟩
  case refine_13 => exact holdsWords_of_fin (by decide +kernel)
  case refine_14 => simp [sampleThread, sampleEntries, BtEntry.jlvals]
  all_goals decide +kernel

/-- The null in an indirect root is no object, and the live task alone is not pinned again. -/
theorem thread_roots_packed_sample :
    ∃ packets, scanRootsInMutatorThread sampleRuntime threadMemory 2 0x30000 = .ok packets ∧
      packets.tpinningRoots.flatten = [0xb000, 0x1230, 0x5000, 0x1260, 0xb000, 0x1230, 0x5000, 0x1260,
        0xb000, 0x1230, 0x5000, 0x1260] ∧
      packets.pinningRoots.flatten = [0x7000, 0x7000, 0x8800, 0x5000, 0x6000, 0x7000] := by
  rcases thread_roots_packed rfl sampleThread_at with ⟨packets, ran, objects, -, nodes, -⟩
  refine ⟨packets, ran, objects.whole.trans ?_, nodes.whole.trans ?_⟩
  all_goals decide +kernel

end MmtkJulia.Scanning
