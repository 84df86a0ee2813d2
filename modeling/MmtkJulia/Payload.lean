import MmtkJulia.Evacuation

/-! An evacuation and the bytes that no slot covers: the payload of the objects, the pointers to
inlined data, and the memory beside the objects. -/

namespace MmtkJulia.Scanning

section Kinds

variable {runtime : Runtime} {types memory other : Memory} {source target : Address} {bytes : Usize}
  {slots : List JuliaVMSlot}

theorem Placed.isMemory_iff (placed : Placed runtime types memory source bytes slots)
    (kept : types.Extends memory) (still : types.Extends other)
    (header : loadU64 other (target - 8) = loadU64 memory (source - 8)) :
    IsMemory runtime other target ↔ IsMemory runtime memory source := by
  have tagged : mmtkJlTypetagof other target = mmtkJlTypetagof memory source := by
    rw [mmtkJlTypetagof, header]
    rfl
  have neither : ¬ IsMemory runtime other target → ¬ IsMemory runtime memory source →
      (IsMemory runtime other target ↔ IsMemory runtime memory source) := iff_of_false
  cases placed.movable with
  | bits tag type =>
      exact neither (type.not_isMemory still (tagged.trans tag)) (type.not_isMemory kept tag)
  | string tag type =>
      exact neither (type.not_isMemory still (tagged.trans tag)) (type.not_isMemory kept tag)
  | vector tag type =>
      exact neither (type.not_isMemory still (tagged.trans tag)) (type.not_isMemory kept tag)
  | weak tag type =>
      exact neither (type.not_isMemory still (tagged.trans tag)) (type.not_isMemory kept tag)
  | plain tag type =>
      exact neither (type.not_isMemory still (tagged.trans tag)) (type.not_isMemory kept tag)
  | array tag type =>
      exact neither (type.not_isMemory still (tagged.trans tag)) (type.not_isMemory kept tag)
  | inlined tag type =>
      have here := type.tag.at kept tag
      have there := type.tag.at still (tagged.trans tag)
      exact iff_of_true ⟨_, there.typeof, there.name⟩ ⟨_, here.typeof, here.name⟩

end Kinds

section Copies

variable {runtime : Runtime} {types memory : Memory} {source dst : Address} {bytes : Usize}
  {slots : List JuliaVMSlot}

theorem Placed.copy_bytes (placed : Placed runtime types memory source bytes slots)
    (statics : Statics runtime) (helpers : InlinedHelpers runtime)
    (tags : ∀ tag, runtime.smallTypeof tag ≠ runtime.buffTag) (kept : types.Extends memory)
    (small : isObjectInLos source = false) (fresh : Fresh memory source dst bytes.toNat) :
    ∃ other, copy runtime memory source dst = .ok (other, dst + 8) ∧
      (∀ byte, Memory.Within dst bytes.toNat byte →
        (IsMemory runtime memory source → ¬ Memory.Within (dst + 8 + 8) 8 byte) →
        other byte = memory (byte + (source - (dst + 8)))) ∧
      (IsMemory runtime memory source → loadU64 other (dst + 8 + 8) = .ok (dst + 8 + 16)) := by
  have header := placed.header statics helpers kept
  have copied := afterMemcpy_copied fresh header
  rcases placed.typed statics helpers kept with ⟨vt, name, typed, named, whole⟩
  have ran := copy_returns placed.size (placed.start_eq statics tags small) fresh typed named
  have moved : ∀ byte, Memory.Within dst bytes.toNat byte →
      afterMemcpy memory source dst bytes.toNat byte = memory (byte + (source - (dst + 8))) := by
    intro byte inside
    have place_ : source - 8 + (byte - dst) = byte + (source - (dst + 8)) := by bv_omega
    rw [afterMemcpy, Memory.copyNonoverlapping, if_pos inside, place_]
  by_cases memory_ : name = runtime.genericmemoryTypename
  · rcases whole memory_ with ⟨data, enough⟩
    have isMemory : IsMemory runtime memory source := ⟨vt, typed, memory_ ▸ named⟩
    have pointer := (loadU64_kept copied.kept _).returns data
    rw [if_pos memory_, helpers.rebase _ _ _ pointer] at ran
    refine ⟨_, ran, ?_, fun _ => loadU64_store _ _ _⟩
    intro byte inside beside
    rw [Memory.store_outside _ (beside isMemory)]
    exact moved byte inside
  · have plain := not_isMemory typed named memory_
    rw [if_neg memory_] at ran
    exact ⟨_, ran, fun byte inside _ => moved byte inside, fun isMemory => absurd isMemory plain⟩

end Copies

namespace Cell

variable (runtime : Runtime) (memory now : Memory) (cell : Cell)

/-- A byte of the copy that lies in no slot and, in a memory, not in the pointer to the data. -/
structure Payload (byte : Address) : Prop where
  inside : Inside cell.target cell.bytes.toNat byte
  unslotted : ∀ slot ∈ cell.slots, ¬ Memory.Within (cell.image slot).address 8 byte
  beside : IsMemory runtime memory cell.source → ¬ Memory.Within (cell.target + 8) 8 byte

def origin (byte : Address) : Address := byte + (cell.source - cell.target)

/-- The copy carries the payload of the original, and a memory points to its own data. -/
structure Carried : Prop where
  payload : ∀ byte, cell.Payload runtime memory byte → now byte = memory (cell.origin byte)
  data : IsMemory runtime memory cell.source → loadU64 now (cell.target + 8) = .ok (cell.target + 16)

end Cell

/-- The bytes that no slot covers. -/
structure Intact (runtime : Runtime) (memory : Memory) (cells : List Cell) (state : Collection) :
    Prop where
  untouched : ∀ byte, (∀ cell ∈ cells, ¬ cell.Touches byte) → state.memory byte = memory byte
  carried : ∀ cell ∈ cells, cell ∉ state.waiting → cell.Carried runtime memory state.memory

section Steps

variable {runtime : Runtime} {memory now after : Memory} {cells : List Cell} {cell : Cell} {fuel : Nat}
  {forward : Address → ObjectReference} {state : Collection} {moved_ done : List Cell}

variable (heap : Evacuable runtime memory cells) (statics : Statics runtime)
  (helpers : InlinedHelpers runtime)
include heap statics helpers

theorem Evacuable.data_word (member : cell ∈ cells) (isMemory : IsMemory runtime memory cell.source)
    (same : ∀ byte, Inside cell.target cell.bytes.toNat byte → after byte = now byte) :
    loadU64 after (cell.target + 8) = loadU64 now (cell.target + 8) := by
  rcases (heap.placed cell member).typed statics helpers (spared_extends memory cells)
    with ⟨vt, name, typed, named, whole⟩
  by_cases memory_ : name = runtime.genericmemoryTypename
  · have inner : (8 : Address).toNat + 16 ≤ cell.bytes.toNat := (whole memory_).2
    exact loadU64_inside same inner
  · exact absurd isMemory (not_isMemory typed named memory_)

theorem Cell.Carried.frame (member : cell ∈ cells) (carried : cell.Carried runtime memory now)
    (same : ∀ byte, Inside cell.target cell.bytes.toNat byte → after byte = now byte) :
    cell.Carried runtime memory after where
  payload := fun byte held => (same byte held.inside).trans (carried.payload byte held)
  data := fun isMemory =>
    (heap.data_word statics helpers member isMemory same).trans (carried.data isMemory)

theorem Cell.Carried.traced {slot : JuliaVMSlot} (member : cell ∈ cells) (listed : slot ∈ cell.slots)
    (carried : cell.Carried runtime memory now)
    (same : ∀ byte, ¬ Memory.Within (cell.image slot).address 8 byte → after byte = now byte) :
    cell.Carried runtime memory after where
  payload := fun byte held => (same byte (held.unslotted slot listed)).trans (carried.payload byte held)
  data := by
    intro isMemory
    rw [← carried.data isMemory]
    rcases (heap.placed cell member).slot_within statics helpers (spared_extends memory cells) slot listed
      with ⟨offset, lies, inner, behind⟩
    have above := behind isMemory
    have small := cell.bytes.isLt
    have moved_ : (cell.image slot).address = cell.target + offset := by
      rw [cell.image_address, lies, add_moved]
    apply loadU64_congr
    intro i below
    apply same
    rw [moved_, Memory.Within]
    bv_omega

theorem Sound.copy_carries (sound : Sound runtime memory cells forward state moved_ done)
    (tags : ∀ tag, runtime.smallTypeof tag ≠ runtime.buffTag) (member : cell ∈ state.waiting)
    {other : Memory} {target : Address}
    (ran : copy runtime state.memory cell.source cell.dst = .ok (other, target)) (remains : Memory) :
    cell.Carried runtime memory (overwritten other cell remains) := by
  have here := sound.waiting_mem member
  have waits := sound.waits cell member
  have original := heap.placed cell here
  have header := heap.header_size statics helpers here
  have same : IsMemory runtime state.memory cell.source ↔ IsMemory runtime memory cell.source :=
    original.isMemory_iff (spared_extends memory cells) sound.types (header_inside waits.original header)
  rcases sound.waiting_placed heap statics helpers member with ⟨placed, fresh⟩
  rcases placed.copy_bytes statics helpers tags sound.types (heap.small cell here) fresh
    with ⟨made, copied, bytes, data⟩
  have outcome : made = other := congrArg Prod.fst (Except.ok.inj (copied.symm.trans ran))
  rw [outcome] at bytes data
  have kept : ∀ byte, Inside cell.target cell.bytes.toNat byte →
      overwritten other cell remains byte = other byte :=
    fun byte inside => if_neg (heap.leaves cell here byte inside)
  constructor
  · intro byte held
    have inside := (cell.inside_target byte).mp held.inside
    have comes : Inside cell.source cell.bytes.toNat (cell.origin byte) := by
      have start : cell.origin byte = cell.source - 8 + (byte - cell.dst) := by
        rw [Cell.origin, Cell.target]
        bv_omega
      rw [Inside, start, Memory.within_add]
      exact inside
    calc overwritten other cell remains byte = other byte := kept byte held.inside
      _ = state.memory (cell.origin byte) :=
          bytes byte inside (fun isMemory => held.beside (same.mp isMemory))
      _ = memory (cell.origin byte) := waits.original _ comes
  · intro isMemory
    rw [heap.data_word statics helpers here isMemory kept]
    exact data (same.mpr isMemory)

variable (tags : ∀ tag, runtime.smallTypeof tag ≠ runtime.buffTag)
include tags

theorem Sound.evacuate_intact (sound : Sound runtime memory cells forward state moved_ done)
    (intact : Intact runtime memory cells state) {remains : Memory} {later : Collection}
    (taken : evacuateNext runtime state cell remains = some later) :
    Intact runtime memory cells later := by
  rcases evacuateNext_cases taken with ⟨other, target, member, ran, rfl⟩
  have beyond := sound.copy_beyond heap statics helpers tags member ran remains
  have here := sound.waiting_mem member
  constructor
  · intro byte untouched
    exact (beyond byte (untouched cell here)).trans (intact.untouched byte untouched)
  · intro next there absent
    by_cases own : next = cell
    · rw [own]
      exact sound.copy_carries heap statics helpers tags member ran remains
    · have gone : next ∉ state.waiting := by
        intro waiting
        exact absent ((List.mem_erase_of_ne own).mpr waiting)
      have separate := heap.apart here there (Ne.symm own)
      exact (intact.carried next there gone).frame heap statics helpers there
        (beyond.copy_same separate)

omit tags in
theorem Sound.trace_intact (sound : Sound runtime memory cells forward state moved_ done)
    (intact : Intact runtime memory cells state) {slot : JuliaVMSlot} {later : Collection}
    (taken : traceNext forward state slot = some later) : Intact runtime memory cells later := by
  rcases traceNext_cases taken with ⟨tracing, member, ran, rfl⟩
  rcases sound.owned slot member with ⟨cell, present, original, mine, rfl⟩
  have here := sound.done_mem present
  have beyond := heap.trace_beyond statics helpers here mine ran
  constructor
  · intro byte untouched
    exact (beyond byte (untouched cell here)).trans (intact.untouched byte untouched)
  · intro next there gone
    have carried := intact.carried next there gone
    by_cases own : next = cell
    · rw [own] at carried ⊢
      exact carried.traced heap statics helpers here mine (fun _ outside => traceSlot_bytes ran outside)
    · have separate := heap.apart here there (Ne.symm own)
      exact carried.frame heap statics helpers there (beyond.copy_same separate)

theorem Sound.step_intact (sound : Sound runtime memory cells forward state moved_ done)
    (intact : Intact runtime memory cells state) {action : Action} {later : Collection}
    (taken : evacuationNext runtime fuel forward state action = some later) :
    Intact runtime memory cells later := by
  cases action with
  | evacuate cell remains => exact sound.evacuate_intact heap statics helpers tags intact taken
  | trace slot => exact sound.trace_intact heap statics helpers intact taken
  | scan target =>
      rcases scanNext_cases taken with ⟨slots, -, -, rfl⟩
      exact ⟨intact.untouched, intact.carried⟩

/-- In whatever order the objects are copied, scanned and traced: the bytes of the originals that
wait and the bytes beside all objects and copies stay as they are, and every copy has the payload of
its original, a memory with the pointer to its own data. -/
theorem evacuation_keeps_payload
    (reached : (evacuation runtime fuel forward memory cells).Reachable state) :
    (∀ byte, (∀ cell ∈ cells, ¬ cell.Touches byte) → state.memory byte = memory byte) ∧
      (∀ cell ∈ state.waiting, ∀ byte, Inside cell.source cell.bytes.toNat byte →
        state.memory byte = memory byte) ∧
      ∀ cell ∈ cells, cell ∉ state.waiting → cell.Carried runtime memory state.memory := by
  have invariant : (∃ moved_ done, Sound runtime memory cells forward state moved_ done) ∧
      Intact runtime memory cells state := by
    apply reached.invariant (fun state =>
      (∃ moved_ done, Sound runtime memory cells forward state moved_ done) ∧
        Intact runtime memory cells state)
    · exact ⟨⟨[], [], sound_initial runtime memory cells forward fuel heap⟩,
        ⟨fun _ _ => rfl, fun cell member absent => absurd member absent⟩⟩
    · intro before action after holds _ taken
      rcases holds with ⟨⟨moved_, done, sound⟩, intact⟩
      exact ⟨sound.next heap statics helpers tags taken,
        sound.step_intact heap statics helpers tags intact taken⟩
  rcases invariant with ⟨⟨moved_, done, sound⟩, intact⟩
  exact ⟨intact.untouched, fun cell member => (sound.waits cell member).original, intact.carried⟩

end Steps

/-- One object of the cycle is moved and done, the other still waits. -/
theorem evacuation_keeps_payload_halfway :
    ∃ state, (evacuation sampleRuntime 0 cycleForward cycleMemory cycleCells).run
        (evacuation sampleRuntime 0 cycleForward cycleMemory cycleCells).initial
        [.evacuate (cycleCell 0x10108 0x20100) (fun _ => some 0), .scan 0x20108,
          .trace (.simple 0x20110)] = some state ∧
      state.memory 0x20108 = cycleMemory 0x10108 ∧ state.memory 0x10010 = cycleMemory 0x10010 ∧
      state.memory 0 = cycleMemory 0 := by
  have outcome : ((evacuation sampleRuntime 0 cycleForward cycleMemory cycleCells).run
      (evacuation sampleRuntime 0 cycleForward cycleMemory cycleCells).initial
      [.evacuate (cycleCell 0x10108 0x20100) (fun _ => some 0), .scan 0x20108,
        .trace (.simple 0x20110)]).map Collection.waiting =
      some [cycleCell 0x10008 0x20000] := by decide +kernel
  rcases Option.map_eq_some_iff.mp outcome with ⟨state, ran, waiting⟩
  have reached : (evacuation sampleRuntime 0 cycleForward cycleMemory cycleCells).Reachable state :=
    System.Reachable.run .initial _ ran
  have tags : ∀ tag, sampleRuntime.smallTypeof tag ≠ sampleRuntime.buffTag :=
    fun _ => (by decide : (0 : Address) ≠ 0x4eade800)
  obtain ⟨untouched, waits, carried⟩ := evacuation_keeps_payload cycle_evacuable sampleRuntime_statics
    sampleRuntime_inlinedHelpers tags reached
  have copy_ := carried (cycleCell 0x10108 0x20100) (by decide) (by rw [waiting]; decide)
  refine ⟨state, ran, ?_, ?_, ?_⟩
  · apply copy_.payload
    exact ⟨by decide, by decide, fun _ => by decide⟩
  · apply waits (cycleCell 0x10008 0x20000)
    · rw [waiting]
      exact List.mem_cons_self
    · decide
  · apply untouched
    simp only [Cell.Touches]
    decide

end MmtkJulia.Scanning
