import MmtkJulia.Payload

/-! The reference glue on weak references that are moved: scanning reports no slot of a weak
reference, so that its value is left to set_referent and clear_referent. -/

namespace MmtkJulia.Scanning

namespace VMReferenceGlue

/-- What can go wrong with a weak reference: a fault of the load, or a null referent, which a debug
build asserts. -/
inductive Fault where
  | load (fault : Scanning.Fault)
  | nullReferent
  deriving DecidableEq, Repr

variable (nothing : Address) (memory : Memory) (reference : Address)

/-! jl_weakref_t: value at 0. -/

def loadReferentRaw : Except Scanning.Fault Address := loadU64 memory reference

def setReferentRaw (referentRaw : Address) : Memory :=
  @Memory.store memory reference 8 referentRaw

def setReferent (referent : ObjectReference) : Memory :=
  setReferentRaw memory reference referent.addr

def clearReferent : Memory := setReferentRaw memory reference nothing

def getReferent : Except Fault (Option Address) :=
  match loadReferentRaw memory reference with
  | .error fault => .error (.load fault)
  | .ok value =>
      if value = nothing then .ok none
      else if value = 0 then .error .nullReferent
      else .ok (some value)

def standsFor (referent : ObjectReference) : Option Address :=
  if referent.addr = nothing then none else some referent.addr

variable {nothing memory reference}

theorem getReferent_congr {other : Memory} {place : Address}
    (same : loadU64 other place = loadU64 memory reference) :
    getReferent nothing other place = getReferent nothing memory reference := by
  rw [getReferent, getReferent, loadReferentRaw, loadReferentRaw, same]

theorem getReferent_clear :
    getReferent nothing (clearReferent nothing memory reference) reference = .ok none := by
  rw [getReferent, loadReferentRaw, clearReferent, setReferentRaw, loadU64_store]
  exact if_pos rfl

theorem getReferent_set (referent : ObjectReference) :
    getReferent nothing (setReferent memory reference referent) reference =
      .ok (standsFor nothing referent) := by
  rw [getReferent, loadReferentRaw, setReferent, setReferentRaw, loadU64_store, standsFor]
  by_cases empty : referent.addr = nothing
  · rw [if_pos empty]
    exact if_pos empty
  · rw [if_neg empty]
    exact (if_neg empty).trans (if_neg referent.nonzero)

end VMReferenceGlue

open VMReferenceGlue

def Cell.Weak (runtime : Runtime) (memory : Memory) (cells : List Cell) (cell : Cell) : Prop :=
  ∃ vtag name address layout, mmtkJlTypetagof memory cell.source = .ok vtag ∧
    PlainType runtime (spared memory cells) vtag runtime.weakrefType name address layout ∧
    name ≠ runtime.arrayTypename ∧ 8 ≤ layout.size.toNat

/-- An evacuation with the calls of the glue, the last call first. -/
structure WeakCollection where
  collection : Collection
  calls : List (Address × Option Address)

inductive WeakAction where
  | collect (action : Action)
  | setReferent (reference : Address) (referent : ObjectReference)
  | clearReferent (reference : Address)

section System

variable (runtime : Runtime) (nothing : Address) (fuel : Nat) (forward : Address → ObjectReference)
  (memory : Memory) (cells : List Cell)

def WeakCollection.written (state : WeakCollection) (now : Memory) (reference : Address)
    (referent : Option Address) : WeakCollection where
  collection := { state.collection with memory := now }
  calls := (reference, referent) :: state.calls

def weakNext (state : WeakCollection) : WeakAction → Option WeakCollection
  | .collect action =>
      (evacuationNext runtime fuel forward state.collection action).map
        (fun collection => ⟨collection, state.calls⟩)
  | .setReferent reference referent =>
      some (state.written (setReferent state.collection.memory reference referent) reference
        (standsFor nothing referent))
  | .clearReferent reference =>
      some (state.written (clearReferent nothing state.collection.memory reference) reference none)

def weakEvacuation : System WeakCollection WeakAction where
  initial := ⟨(evacuation runtime fuel forward memory cells).initial, []⟩
  next := weakNext runtime nothing fuel forward

/-- The collector calls the glue on the scanned copies of weak references. -/
def Candidate (state : WeakCollection) (reference : Address) : Prop :=
  ∃ cell ∈ cells, cell.Weak runtime memory cells ∧ cell.target = reference ∧
    reference ∈ state.collection.scanned

def OnCandidates (state : WeakCollection) : WeakAction → Prop
  | .collect _ => True
  | .setReferent reference _ => Candidate runtime memory cells state reference
  | .clearReferent reference => Candidate runtime memory cells state reference

/-- What the last call has made of the copy, or else what the original refers to. -/
def WeakCollection.referent (state : WeakCollection) (cell : Cell) :
    Except VMReferenceGlue.Fault (Option Address) :=
  match state.calls.lookup cell.target with
  | some referent => .ok referent
  | none => getReferent nothing memory cell.source

end System

section Values

variable {runtime : Runtime} {memory now after : Memory} {cells : List Cell} {cell : Cell}

theorem Cell.Weak.not_isMemory (weak : cell.Weak runtime memory cells) :
    ¬ IsMemory runtime memory cell.source := by
  rcases weak with ⟨vtag, name, address, layout, tag, type, -, -⟩
  exact type.not_isMemory (spared_extends memory cells) tag

variable (heap : Evacuable runtime memory cells) (statics : Statics runtime)
  (helpers : InlinedHelpers runtime) (weak : cell.Weak runtime memory cells)
include heap statics helpers weak

theorem Cell.Weak.slots_eq (member : cell ∈ cells) : cell.slots = [] := by
  have kept := spared_extends memory cells
  have placed := heap.placed cell member
  rcases weak with ⟨vtag, name, address, layout, tag, type, other, -⟩
  have bare : Placed runtime (spared memory cells) memory cell.source cell.bytes [] :=
    ⟨.weak tag type other, placed.size, placed.low⟩
  have scanned := placed.scan_eq statics helpers kept 0
  rw [bare.scan_eq statics helpers kept 0] at scanned
  exact (Except.ok.inj scanned).symm

omit helpers in
theorem Cell.Weak.room (member : cell ∈ cells) : 16 ≤ cell.bytes.toNat := by
  rcases weak with ⟨vtag, name, address, layout, tag, type, -, enough⟩
  have size := (heap.placed cell member).size
  have bound := (type.at (spared_extends memory cells) tag).size_bound statics size
  omega

omit helpers in
theorem Cell.Weak.value_same (member : cell ∈ cells)
    (same : ∀ byte, Inside cell.target cell.bytes.toNat byte → after byte = now byte) :
    loadU64 after cell.target = loadU64 now cell.target := by
  have inner : (0 : Address).toNat + 16 ≤ cell.bytes.toNat := weak.room heap statics member
  have start : cell.target + 0 = cell.target := by bv_omega
  have word := loadU64_inside same inner
  rw [start] at word
  exact word

theorem Cell.Weak.value_carried (member : cell ∈ cells) (carried : cell.Carried runtime memory now) :
    loadU64 now cell.target = loadU64 memory cell.source := by
  have room := weak.room heap statics member
  have bare := weak.slots_eq heap statics helpers member
  apply loadU64_congr
  intro i below
  have place_ : cell.origin (cell.target + BitVec.ofNat 64 i) = cell.source + BitVec.ofNat 64 i := by
    rw [Cell.origin]
    bv_omega
  rw [← place_]
  apply carried.payload
  constructor
  · have position : cell.target + BitVec.ofNat 64 i = cell.target - 8 + BitVec.ofNat 64 (8 + i) := by
      bv_omega
    rw [Inside, position, Memory.within_add, BitVec.toNat_ofNat]
    omega
  · rw [bare]
    exact List.forall_mem_nil _
  · exact fun isMemory => absurd isMemory weak.not_isMemory

omit helpers in
theorem Cell.Weak.written_beyond (member : cell ∈ cells) (referentRaw : Address) :
    Beyond cell now (setReferentRaw now cell.target referentRaw) := by
  intro byte untouched
  apply Memory.store_outside
  intro inside
  apply untouched
  right
  have room := weak.room heap statics member
  rw [Memory.Within] at inside
  rw [Inside, Memory.Within]
  bv_omega

end Values

section Steps

variable {runtime : Runtime} {nothing : Address} {memory : Memory} {cells : List Cell} {cell : Cell}
  {fuel : Nat} {forward : Address → ObjectReference} {state : Collection} {moved_ done : List Cell}

variable (heap : Evacuable runtime memory cells) (statics : Statics runtime)
  (helpers : InlinedHelpers runtime)
include heap statics helpers

theorem Sound.written (sound : Sound runtime memory cells forward state moved_ done)
    (present : cell ∈ done) (weak : cell.Weak runtime memory cells) (referentRaw : Address) :
    Sound runtime memory cells forward
      { state with memory := setReferentRaw state.memory cell.target referentRaw } moved_ done := by
  have here := sound.done_mem present
  have beyond : Beyond cell state.memory (setReferentRaw state.memory cell.target referentRaw) :=
    weak.written_beyond heap statics here referentRaw
  have bare := weak.slots_eq heap statics helpers here
  refine ⟨sound.all, sound.copied, sound.scanned, heap.types_kept here sound.types beyond,
    sound.waits_beyond heap statics helpers present beyond,
    sound.moves_beyond heap statics helpers present beyond, ?_, sound.once, sound.owned, ?_⟩
  · intro next there
    by_cases own : next = cell
    · rw [own]
      constructor
      · have beside : Apart cell.target cell.dst := by
          rw [Cell.target, Apart]
          bv_omega
        exact (loadU64_store_apart _ beside).trans (sound.reports cell present).header
      · rw [bare]
        exact List.forall_mem_nil _
      · rw [bare]
        exact List.forall_mem_nil _
    · have separate := heap.apart here (sound.done_mem there) (Ne.symm own)
      exact (sound.reports next there).frame heap statics helpers (sound.done_mem there)
        (beyond.copy_same separate) (fun _ _ => Iff.rfl)
  · have referents : state.pending.filterMap
        (referent (setReferentRaw state.memory cell.target referentRaw)) =
          state.pending.filterMap (referent state.memory) := by
      apply referents_same
      intro slot pending
      rcases sound.owned slot pending with ⟨owner, there, original, listed, rfl⟩
      have apart : cell ≠ owner := by
        intro same
        rw [← same, bare] at listed
        cases listed
      have separate := heap.apart here (sound.done_mem there) apart
      exact heap.image_word statics helpers (sound.done_mem there) listed (beyond.copy_same separate)
    change (state.traced ++ state.pending.filterMap
      (referent (setReferentRaw state.memory cell.target referentRaw))).Perm _
    rw [referents]
    exact sound.log

end Steps

structure Referring (runtime : Runtime) (nothing : Address) (memory : Memory) (cells : List Cell)
    (forward : Address → ObjectReference) (state : WeakCollection) : Prop where
  sound : ∃ moved_ done, Sound runtime memory cells forward state.collection moved_ done
  called : ∀ call ∈ state.calls, call.1 ∈ state.collection.scanned
  kept : ∀ cell ∈ cells, cell.Weak runtime memory cells → cell ∉ state.collection.waiting →
    getReferent nothing state.collection.memory cell.target = state.referent nothing memory cell

section Runs

variable {runtime : Runtime} {nothing : Address} {memory : Memory} {cells : List Cell} {cell : Cell}
  {fuel : Nat} {forward : Address → ObjectReference} {state : WeakCollection}

theorem WeakCollection.referent_uncalled
    (uncalled : ∀ call ∈ state.calls, call.1 ≠ cell.target) :
    state.referent nothing memory cell = getReferent nothing memory cell.source := by
  have absent : state.calls.lookup cell.target = none := by
    apply List.lookup_eq_none_iff.mpr
    intro call member
    exact bne_iff_ne.mpr (Ne.symm (uncalled call member))
  rw [WeakCollection.referent, absent]

theorem WeakCollection.referent_written {now : Memory} {reference : Address} {referent : Option Address}
    (elsewhere : cell.target ≠ reference) :
    (state.written now reference referent).referent nothing memory cell =
      state.referent nothing memory cell := by
  have later : ((reference, referent) :: state.calls).lookup cell.target =
      state.calls.lookup cell.target := by
    rw [List.lookup_cons, beq_false_of_ne elsewhere]
  rw [WeakCollection.referent, WeakCollection.referent, WeakCollection.written, later]

variable (heap : Evacuable runtime memory cells) (statics : Statics runtime)
  (helpers : InlinedHelpers runtime)
include heap statics helpers

theorem Referring.written (referring : Referring runtime nothing memory cells forward state)
    {reference referentRaw : Address} {referent : Option Address}
    (candidate : Candidate runtime memory cells state reference)
    (reads : getReferent nothing
      (setReferentRaw state.collection.memory reference referentRaw) reference = .ok referent) :
    Referring runtime nothing memory cells forward
      (state.written (setReferentRaw state.collection.memory reference referentRaw) reference referent) := by
  rcases referring.sound with ⟨moved_, done, sound⟩
  rcases candidate with ⟨own, member, weak, rfl, scanned⟩
  have present := (sound.scanned_cells heap statics helpers).2 own member scanned
  constructor
  · exact ⟨moved_, done, sound.written heap statics helpers present weak referentRaw⟩
  · intro call noted
    rcases List.mem_cons.mp noted with rfl | noted
    · exact scanned
    · exact referring.called call noted
  · intro cell there weakly gone
    by_cases same : cell.target = own.target
    · rw [same, WeakCollection.referent, same]
      rw [WeakCollection.written, List.lookup_cons_self]
      exact reads
    · have apart : own ≠ cell := fun equal => same (congrArg Cell.target equal.symm)
      have separate := heap.apart member there apart
      have beyond : Beyond own state.collection.memory
          (setReferentRaw state.collection.memory own.target referentRaw) :=
        weak.written_beyond heap statics member referentRaw
      rw [WeakCollection.referent_written same, ← referring.kept cell there weakly gone]
      exact getReferent_congr (weakly.value_same heap statics there (beyond.copy_same separate))

variable (tags : ∀ tag, runtime.smallTypeof tag ≠ runtime.buffTag)
include tags

theorem Referring.evacuated (referring : Referring runtime nothing memory cells forward state)
    {moved_ done : List Cell} (sound : Sound runtime memory cells forward state.collection moved_ done)
    {moving : Cell} {remains : Memory} {after : Collection}
    (taken : evacuateNext runtime state.collection moving remains = some after) :
    ∀ cell ∈ cells, cell.Weak runtime memory cells → cell ∉ after.waiting →
      getReferent nothing after.memory cell.target = state.referent nothing memory cell := by
  rcases evacuateNext_cases taken with ⟨other, target, waiting, ran, rfl⟩
  intro cell member weak gone
  by_cases own : cell = moving
  · -- A reference that waits has not been called on, since calls go to scanned copies.
    have uncalled : ∀ call ∈ state.calls, call.1 ≠ cell.target := by
      intro call noted same
      have scanned : cell.target ∈ state.collection.scanned := same ▸ referring.called call noted
      have present := (sound.scanned_cells heap statics helpers).2 cell member scanned
      exact sound.waiting_ne heap statics helpers waiting (List.mem_append_right moved_ present) own.symm
    rw [own] at member weak uncalled ⊢
    have carried := sound.copy_carries heap statics helpers tags waiting ran remains
    have value := weak.value_carried heap statics helpers member carried
    exact (getReferent_congr value).trans (WeakCollection.referent_uncalled uncalled).symm
  · have still : cell ∉ state.collection.waiting := by
      intro listed
      exact gone ((List.mem_erase_of_ne own).mpr listed)
    have beyond := sound.copy_beyond heap statics helpers tags waiting ran remains
    have separate := heap.apart (sound.waiting_mem waiting) member (Ne.symm own)
    have value := weak.value_same heap statics member (beyond.copy_same separate)
    exact (getReferent_congr value).trans (referring.kept cell member weak still)

omit tags in
theorem Referring.traced (referring : Referring runtime nothing memory cells forward state)
    {moved_ done : List Cell} (sound : Sound runtime memory cells forward state.collection moved_ done)
    {slot : JuliaVMSlot} {after : Collection}
    (taken : traceNext forward state.collection slot = some after) :
    ∀ cell ∈ cells, cell.Weak runtime memory cells → cell ∉ after.waiting →
      getReferent nothing after.memory cell.target = state.referent nothing memory cell := by
  rcases traceNext_cases taken with ⟨tracing, pending, ran, rfl⟩
  rcases sound.owned slot pending with ⟨owner, present, original, mine, rfl⟩
  have here := sound.done_mem present
  intro cell member weak gone
  have apart : owner ≠ cell := by
    intro same
    rw [same, weak.slots_eq heap statics helpers member] at mine
    cases mine
  have beyond := heap.trace_beyond statics helpers here mine ran
  have value := weak.value_same heap statics member (beyond.copy_same (heap.apart here member apart))
  exact (getReferent_congr value).trans (referring.kept cell member weak gone)

theorem Referring.collected (referring : Referring runtime nothing memory cells forward state)
    {action : Action} {after : Collection}
    (taken : evacuationNext runtime fuel forward state.collection action = some after) :
    Referring runtime nothing memory cells forward ⟨after, state.calls⟩ := by
  rcases referring.sound with ⟨moved_, done, sound⟩
  have next := sound.next heap statics helpers tags taken
  cases action with
  | evacuate moving remains =>
      have kept := referring.evacuated heap statics helpers tags sound taken
      rcases evacuateNext_cases taken with ⟨other, target, -, -, rfl⟩
      exact ⟨next, referring.called, kept⟩
  | scan target =>
      rcases scanNext_cases taken with ⟨slots, -, -, rfl⟩
      exact ⟨next, fun call noted => List.mem_cons_of_mem _ (referring.called call noted), referring.kept⟩
  | trace slot =>
      have kept := referring.traced heap statics helpers sound taken
      rcases traceNext_cases taken with ⟨tracing, -, -, rfl⟩
      exact ⟨next, referring.called, kept⟩

/-- However the calls of the glue fall between the steps of an evacuation: the copy of a weak
reference refers to what the last call on it set, and before any call to what the original refers
to; no step of the collector fails, and the slots of the scanned copies are as they should be. -/
theorem weak_references_follow
    (reached : (weakEvacuation runtime nothing fuel forward memory cells).ReachableUnder
      (OnCandidates runtime memory cells) state) :
    (∀ cell ∈ cells, cell.Weak runtime memory cells → cell ∉ state.collection.waiting →
        getReferent nothing state.collection.memory cell.target = state.referent nothing memory cell) ∧
      (∀ action, Enabled state.collection action →
        ∃ after, evacuationNext runtime fuel forward state.collection action = some after) ∧
      ∀ cell ∈ cells, cell.target ∈ state.collection.scanned → ∀ slot ∈ cell.slots,
        ∃ object, slot.load memory = .ok object ∧
          (cell.image slot).load state.collection.memory =
            .ok (if cell.image slot ∈ state.collection.pending then object
              else object.map (fun found => (forward found).addr)) := by
  have referring : Referring runtime nothing memory cells forward state := by
    apply reached.invariant (Referring runtime nothing memory cells forward)
    · constructor
      · exact ⟨[], [], sound_initial runtime memory cells forward fuel heap⟩
      · exact List.forall_mem_nil _
      · exact fun cell member _ gone => absurd member gone
    · intro before action after holds candidate taken
      cases action with
      | collect action =>
          rcases Option.map_eq_some_iff.mp taken with ⟨collection, ran, rfl⟩
          exact holds.collected heap statics helpers tags ran
      | setReferent reference referent =>
          cases taken
          exact holds.written heap statics helpers candidate (getReferent_set referent)
      | clearReferent reference =>
          cases taken
          exact holds.written heap statics helpers candidate getReferent_clear
  rcases referring.sound with ⟨moved_, done, sound⟩
  refine ⟨referring.kept, ?_, ?_⟩
  · intro action enabled
    rcases sound.step heap statics helpers tags enabled with ⟨after, -, -, ran, -⟩
    exact ⟨after, ran⟩
  · intro cell member scanned slot listed
    have present := (sound.scanned_cells heap statics helpers).2 cell member scanned
    exact sound.slot_loads heap present listed

end Runs

/-- A weak reference and a simple vector of one element that refer to one another. -/
def weakWords : List (Address × Usize) := [
  (0x10000, 0x500), (0x10008, 0x10108), (0x10100, 0x90), (0x10108, 1), (0x10110, 0x10008),
  (0x4f8, 0x20), (0x500, 0x900), (0x528, 0x3000), (0x530, 0),
  (0x3000, 0x100000008), (0x3008, 1), (0x3010, 0), (0, 0x900)]

def weakMemory : Memory := .ofWords weakWords

def weakCell : Cell := ⟨0x10008, 0x20000, 16, []⟩

def holderCell : Cell := ⟨0x10108, 0x20100, 32, slotsAt 0x10110 (wordOffsets 1)⟩

def weakLayout : Layout := ⟨8, 1, 1, 0, 0, [0], rfl⟩

theorem weakRef_type : PlainType sampleRuntime (spared weakMemory [weakCell, holderCell]) 0x500 0x500
    0x900 0x3000 weakLayout where
  tag := by
    constructor
    · decide
    · decide
    · exact .inr ⟨by decide, rfl, by decide +kernel⟩
    · decide +kernel
  plain := by decide
  described := by decide +kernel
  stored := by
    constructor
    case table => exact ⟨by decide +kernel, trivial⟩
    all_goals decide +kernel
  known := by decide
  inner := by simp [weakLayout]
  once := by decide
  array := fun same => absurd same (by decide)

theorem weakCell_weak : weakCell.Weak sampleRuntime weakMemory [weakCell, holderCell] :=
  ⟨0x500, 0x900, 0x3000, weakLayout, by decide +kernel, weakRef_type, by decide, by decide⟩

theorem weak_evacuable : Evacuable sampleRuntime weakMemory [weakCell, holderCell] where
  placed := by
    intro cell member
    rcases List.mem_cons.mp member with rfl | member
    · exact ⟨.weak (by decide +kernel) weakRef_type (by decide), by decide +kernel, by decide⟩
    · rw [List.mem_singleton.mp member]
      have type : SmallTag sampleRuntime (spared weakMemory [weakCell, holderCell]) simplevectorTag :=
        ⟨by decide, by decide, 0x900, by decide +kernel, by decide⟩
      have tag : mmtkJlTypetagof weakMemory 0x10108 = .ok simplevectorTag := by decide +kernel
      have counted : loadU64 weakMemory 0x10108 = .ok 1 := by decide +kernel
      exact ⟨.vector tag type counted (by decide), by decide +kernel, by decide⟩
  reads := by
    intro cell member slot listed
    rcases List.mem_cons.mp member with rfl | member
    · cases listed
    · rw [List.mem_singleton.mp member] at listed
      rw [List.mem_singleton.mp listed]
      exact ⟨0x10008, by decide +kernel⟩
  small := by decide
  room := by decide
  fresh := by
    have low : ∀ word ∈ weakWords, word.1.toNat + 8 ≤ 0x11000 := by
      simp [weakWords]
    intro cell member byte inside
    apply Memory.ofWords_above low
    rcases List.mem_cons.mp member with rfl | member
    · rw [Memory.Within, weakCell] at inside
      bv_omega
    · rw [List.mem_singleton.mp member, Memory.Within, holderCell] at inside
      bv_omega
  leaves := by
    intro cell member byte inside there
    rcases List.mem_cons.mp member with rfl | member
    · rw [Inside, Memory.Within, Cell.target, weakCell] at inside
      rw [Inside, Memory.Within, weakCell] at there
      bv_omega
    · rw [List.mem_singleton.mp member] at inside there
      rw [Inside, Memory.Within, Cell.target, holderCell] at inside
      rw [Inside, Memory.Within, holderCell] at there
      bv_omega
  separate := by
    apply List.pairwise_pair.mpr
    intro byte here there
    simp only [Cell.Touches, Inside, Memory.Within, Cell.target, weakCell, holderCell] at here there
    bv_omega

/-- The reference is moved, and set to the moved vector that holds it. -/
theorem weak_references_follow_set :
    ∃ state, (weakEvacuation sampleRuntime 0x1000 0 cycleForward weakMemory [weakCell, holderCell]).run
        (weakEvacuation sampleRuntime 0x1000 0 cycleForward weakMemory [weakCell, holderCell]).initial
        [.collect (.evacuate weakCell (fun _ => some 0)), .collect (.scan 0x20008),
          .collect (.evacuate holderCell (fun _ => some 0)), .collect (.scan 0x20108),
          .collect (.trace (.simple 0x20110))] = some state ∧
      getReferent 0x1000 state.collection.memory 0x20008 = .ok (some 0x10108) ∧
      getReferent 0x1000 (setReferent state.collection.memory 0x20008 (cycleForward 0x10108)) 0x20008 =
        .ok (some 0x20108) ∧
      JuliaVMSlot.load (setReferent state.collection.memory 0x20008 (cycleForward 0x10108))
        (.simple 0x20110) = .ok (some 0x20008) := by
  have outcome : ((weakEvacuation sampleRuntime 0x1000 0 cycleForward weakMemory [weakCell, holderCell]).run
      (weakEvacuation sampleRuntime 0x1000 0 cycleForward weakMemory [weakCell, holderCell]).initial
      [.collect (.evacuate weakCell (fun _ => some 0)), .collect (.scan 0x20008),
        .collect (.evacuate holderCell (fun _ => some 0)), .collect (.scan 0x20108),
        .collect (.trace (.simple 0x20110))]).map
          (fun state => (state.collection.waiting, state.collection.scanned,
            state.collection.pending.length + state.calls.length)) =
      some ([], [0x20108, 0x20008], 0) := by decide +kernel
  rcases Option.map_eq_some_iff.mp outcome with ⟨state, ran, lists⟩
  have waiting : state.collection.waiting = [] := congrArg Prod.fst lists
  have scanned : state.collection.scanned = [0x20108, 0x20008] := congrArg (fun lists => lists.2.1) lists
  have none_ : state.collection.pending.length + state.calls.length = 0 :=
    congrArg (fun lists => lists.2.2) lists
  have pending : state.collection.pending = [] := List.eq_nil_of_length_eq_zero (by omega)
  have calls : state.calls = [] := List.eq_nil_of_length_eq_zero (by omega)
  have reached : (weakEvacuation sampleRuntime 0x1000 0 cycleForward weakMemory
      [weakCell, holderCell]).ReachableUnder (OnCandidates sampleRuntime weakMemory [weakCell, holderCell])
      state := by
    apply System.ReachableUnder.run .initial _ _ ran
    exact ⟨trivial, fun _ _ => ⟨trivial, fun _ _ => ⟨trivial, fun _ _ => ⟨trivial, fun _ _ =>
      ⟨trivial, fun _ _ => trivial⟩⟩⟩⟩⟩
  have candidate : OnCandidates sampleRuntime weakMemory [weakCell, holderCell] state
      (.setReferent 0x20008 (cycleForward 0x10108)) :=
    ⟨weakCell, List.mem_cons_self, weakCell_weak, rfl, by rw [scanned]; decide⟩
  have set_ := System.ReachableUnder.step _ reached candidate rfl
  have tags : ∀ tag, sampleRuntime.smallTypeof tag ≠ sampleRuntime.buffTag :=
    fun _ => (by decide : (0 : Address) ≠ 0x4eade800)
  obtain ⟨before, -, -⟩ := weak_references_follow weak_evacuable sampleRuntime_statics
    sampleRuntime_inlinedHelpers tags reached
  obtain ⟨after, -, graph⟩ := weak_references_follow weak_evacuable sampleRuntime_statics
    sampleRuntime_inlinedHelpers tags set_
  have held : getReferent 0x1000 weakMemory 0x10008 = .ok (some 0x10108) := by decide +kernel
  have slot : JuliaVMSlot.load weakMemory (.simple 0x10110) = .ok (some 0x10008) := by decide +kernel
  refine ⟨state, ran, ?_, ?_, ?_⟩
  · have first := before weakCell List.mem_cons_self weakCell_weak (by rw [waiting]; decide)
    rw [WeakCollection.referent, calls] at first
    exact first.trans held
  · exact after weakCell List.mem_cons_self weakCell_weak
      (by rw [WeakCollection.written, waiting]; decide)
  · rcases graph holderCell (by decide) (by rw [WeakCollection.written, scanned]; decide)
      (.simple 0x10110) (by decide) with ⟨object, found, forwarded⟩
    rw [WeakCollection.written, pending, ← Except.ok.inj (slot.symm.trans found)] at forwarded
    exact forwarded

end MmtkJulia.Scanning
