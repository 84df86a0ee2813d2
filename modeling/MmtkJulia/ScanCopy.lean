import MmtkJulia.Copied

/-! The scan of a copy against the scan of the original. -/

namespace MmtkJulia.Scanning

instance (obj : Address) (bytes : Nat) (address : Address) : Decidable (Inside obj bytes address) :=
  inferInstanceAs (Decidable (Memory.Within _ _ _))

/-- Where an address of the heap lies once the object is at its new place. -/
def place (source target : Address) (bytes : Nat) (address : Address) : Address :=
  if Inside source bytes address then address + (target - source) else address

/-- Slots that the scan of the original reports, as they are after the move. -/
def moved (source target : Address) (bytes : Nat) (slots : List JuliaVMSlot) : List JuliaVMSlot :=
  slots.map (JuliaVMSlot.relocate (place source target bytes))

section Places

variable {source target : Address} {bytes : Nat}

theorem place_inside {offset : Address} (inner : offset.toNat + 8 < bytes) (fits : bytes ≤ 2 ^ 64) :
    place source target bytes (source + offset) = target + offset := by
  have inside : Inside source bytes (source + offset) := by
    have position : source + offset = source - 8 + (offset + 8) := by
      rw [BitVec.add_comm offset, ← BitVec.add_assoc, BitVec.sub_add_cancel]
    rw [Inside, position, Memory.within_add, BitVec.toNat_add, eight_toNat]
    omega
  rw [place, if_pos inside, BitVec.add_assoc, BitVec.add_comm offset, ← BitVec.add_assoc,
    BitVec.add_comm source, BitVec.sub_add_cancel]

theorem place_outside {address : Address} (outside : ¬ Inside source bytes address) :
    place source target bytes address = address := if_neg outside

theorem relocate_fixed {move : Address → Address} {slot : JuliaVMSlot}
    (fixed : move slot.address = slot.address) : slot.relocate move = slot := by
  cases slot with
  | simple address => exact congrArg JuliaVMSlot.simple fixed
  | offset address distance => exact congrArg (JuliaVMSlot.offset · distance) fixed

theorem moved_append (front back : List JuliaVMSlot) :
    moved source target bytes (front ++ back) =
      moved source target bytes front ++ moved source target bytes back := List.map_append

theorem moved_outside {slots : List JuliaVMSlot}
    (outside : ∀ slot ∈ slots, ¬ Inside source bytes slot.address) :
    moved source target bytes slots = slots := by
  calc moved source target bytes slots
      _ = slots.map id := List.map_congr_left
          (fun slot member => relocate_fixed (place_outside (outside slot member)))
      _ = slots := List.map_id slots

theorem moved_slotsAt {start : Address} {offsets : List Address} (fits : bytes ≤ 2 ^ 64)
    (inner : ∀ offset ∈ offsets, start.toNat + offset.toNat + 8 < bytes) :
    moved source target bytes (slotsAt (source + start) offsets) = slotsAt (target + start) offsets := by
  rw [moved, slotsAt, slotsAt, List.map_map]
  apply List.map_congr_left
  intro offset member
  have below := inner offset member
  have sum : (start + offset).toNat = start.toNat + offset.toNat := by
    rw [BitVec.toNat_add]
    omega
  have landed : place source target bytes (source + (start + offset)) = target + (start + offset) :=
    place_inside (by omega) fits
  rw [Function.comp_apply, JuliaVMSlot.relocate, BitVec.add_assoc, BitVec.add_assoc, landed]

theorem moved_slotsAt_zero {offsets : List Address} (fits : bytes ≤ 2 ^ 64)
    (inner : ∀ offset ∈ offsets, offset.toNat + 8 < bytes) :
    moved source target bytes (slotsAt source offsets) = slotsAt target offsets := by
  have start : moved source target bytes (slotsAt (source + 0) offsets) =
      slotsAt (target + 0) offsets := moved_slotsAt fits (by simpa using inner)
  simpa using start

end Places

def Moves (source target : Address) (bytes : Nat) (slots images : List JuliaVMSlot) : Prop :=
  images = moved source target bytes slots

section Kinds

variable {runtime : Runtime} {memory other : Memory} {fuel : Nat} {source target : Address}
  {bytes : Nat}

theorem Moves.append {slots images more others : List JuliaVMSlot}
    (front : Moves source target bytes slots images) (back : Moves source target bytes more others) :
    Moves source target bytes (slots ++ more) (images ++ others) := by
  rw [Moves, front, back, moved_append]

theorem SmallAt.copied {vtag : Usize} {limit : Nat} (at_ : SmallAt runtime memory source vtag)
    (copied : Copied memory other source target limit) : SmallAt runtime other target vtag := by
  rcases at_.named with ⟨name, read, different⟩
  exact ⟨copied.typetagof_eq.trans at_.tag, at_.small, at_.special, name,
    (loadU64_kept copied.kept _).returns read, different⟩

theorem bits_moves {vtag : Usize} {limit : Nat} (statics : Statics runtime)
    (at_ : SmallAt runtime memory source vtag) (leaf : vtag ∉ [simplevectorTag, moduleTag, taskTag])
    (copied : Copied memory other source target limit) :
    Carries (Moves source target bytes) (scanJuliaObject runtime memory fuel source)
      (scanJuliaObject runtime other fuel target) := by
  rw [at_.scan_leaf statics leaf, (at_.copied copied).scan_leaf statics leaf]
  exact .ok rfl

theorem vector_moves {length : Usize} (statics : Statics runtime)
    (at_ : VectorAt runtime memory source length) (size : 8 * length.toNat + 16 ≤ bytes)
    (copied : Copied memory other source target (bytes - 8))
    (fits : source.toNat + bytes < 2 ^ 64) (room : target.toNat + bytes < 2 ^ 64) :
    Carries (Moves source target bytes) (scanJuliaObject runtime memory fuel source)
      (scanJuliaObject runtime other fuel target) := by
  have counted : mmtkJlSvecLen other target = .ok length :=
    (copied.loadU64_zero (by omega)).trans at_.counted
  rw [at_.small.scan_vector statics at_.counted (by omega),
    (at_.small.copied copied).scan_vector statics counted (by omega)]
  have inner : ∀ offset ∈ wordOffsets length.toNat, (8 : Address).toNat + offset.toNat + 8 < bytes := by
    intro offset member
    have below := mem_wordOffsets member
    rw [eight_toNat]
    omega
  exact .ok (moved_slotsAt (by omega) inner).symm

def moduleSlots (runtime : Runtime) (m items : Address) : List JuliaVMSlot :=
  [.simple (m + 16), .simple (m + 24), .simple (m + 8), .simple (m + 48), .simple (m + 56)] ++
    if runtime.isManaged items then [.offset (m + 80) offsetOfInlinedSpaceInModule] else []

theorem module_scan {items nusings : Usize} (statics : Statics runtime)
    (small : SmallAt runtime memory source moduleTag)
    (list : loadU64 memory (source + 80) = .ok items)
    (counted : loadU64 memory (source + 64) = .ok nusings) :
    scanJuliaObject runtime memory fuel source = do
      return moduleSlots runtime source items ++ (← scanUsings items nusings) := by
  rw [small.scan_eq statics, if_neg (by decide), if_pos rfl, scanModule, list, counted]
  rfl

theorem moduleSlots_moved {items : Address} (size : bytes = 400) :
    moved source target bytes (moduleSlots runtime source items) = moduleSlots runtime target items := by
  have each : ∀ offset : Address, offset.toNat + 8 < 400 →
      place source target bytes (source + offset) = target + offset := by
    intro offset inner
    apply place_inside
    · rw [size]
      exact inner
    · omega
  rw [moduleSlots, moduleSlots, moved_append]
  congr 1
  · simp only [moved, List.map_cons, List.map_nil, JuliaVMSlot.relocate, each 16 (by decide),
      each 24 (by decide), each 8 (by decide), each 48 (by decide), each 56 (by decide)]
  · by_cases managed : runtime.isManaged items = true
    · rw [if_pos managed, if_pos managed]
      simp only [moved, List.map_cons, List.map_nil, JuliaVMSlot.relocate, each 80 (by decide)]
    · rw [if_neg managed, if_neg managed]
      rfl

theorem scanUsings_eq {items nusings : Usize} (lower : items.toNat + 8 * nusings.toNat ≤ 2 ^ 63) :
    scanUsings items nusings = .ok (slotsAt items
      ((List.range ((nusings.toNat + 3) / 4)).map (fun i => BitVec.ofNat 64 i * 32))) := by
  have limit : (shift items nusings).toNat = items.toNat + 8 * nusings.toNat := shift_toNat (by omega)
  have stride : (32 : Address).toNat = 32 := rfl
  have zero : (0 : Usize).toNat = 0 := rfl
  rw [scanUsings]
  by_cases positive : 0 < nusings
  · rw [if_pos positive]
    apply whileBelow_slots _ (by decide)
    · rw [stride]
      omega
    · intro i below
      rw [stride, limit]
      omega
    · rw [stride, limit]
      omega
  · have none : nusings = 0 := by
      rw [BitVec.lt_def] at positive
      exact BitVec.eq_of_toNat_eq (by omega)
    rw [if_neg positive, none]
    rfl

theorem usings_within {items nusings : Usize} (lower : items.toNat + 8 * nusings.toNat ≤ 2 ^ 63)
    {usings : List JuliaVMSlot} (ran : scanUsings items nusings = .ok usings) :
    ∀ slot ∈ usings, WordWithin items (8 * nusings.toNat) slot.address := by
  have thirtytwo : (32 : Address).toNat = 32 := rfl
  have same := Except.ok.inj (ran.symm.trans (scanUsings_eq lower))
  rw [same]
  apply slotsAt_within (by omega)
  intro offset member
  rcases List.mem_map.mp member with ⟨i, below, rfl⟩
  have index := List.mem_range.mp below
  rw [BitVec.toNat_mul, BitVec.toNat_ofNat, thirtytwo]
  omega

theorem usings_head {items nusings : Usize} {usings : List JuliaVMSlot} (some : nusings ≠ 0)
    (lower : items.toNat + 8 * nusings.toNat ≤ 2 ^ 63) (ran : scanUsings items nusings = .ok usings) :
    ∃ rest, usings = .simple items :: rest := by
  have positive : nusings.toNat ≠ 0 := fun zero => some (BitVec.eq_of_toNat_eq zero)
  have count : (nusings.toNat + 3) / 4 = (nusings.toNat - 1) / 4 + 1 := by omega
  have same := Except.ok.inj (ran.symm.trans (scanUsings_eq lower))
  rw [count, List.range_succ_eq_map, slotsAt, List.map_cons, List.map_cons] at same
  have start : items + 0#64 * 32 = items := by simp
  rw [start] at same
  exact ⟨_, same⟩

theorem malloced_usings {items nusings : Usize} {usings : List JuliaVMSlot}
    (at_ : ModuleAt runtime memory source bytes items nusings) (away : ¬ (items = source + 88 ∧ nusings ≠ 0))
    (ran : scanUsings items nusings = .ok usings) : moved source target bytes usings = usings := by
  have lower := at_.lower
  have limit : (shift items nusings).toNat = items.toNat + 8 * nusings.toNat :=
    shift_toNat (by omega)
  apply moved_outside
  intro slot member
  rcases usings_within lower ran slot member with ⟨above, below⟩
  have some : nusings ≠ 0 := by
    intro none
    have zero : (0 : Usize).toNat = 0 := rfl
    rw [none, zero] at below
    omega
  apply at_.malloced (fun same => away ⟨same, some⟩)
  · exact BitVec.le_def.mpr above
  · rw [BitVec.lt_def, limit]
    omega

theorem module_commutes_iff {items nusings : Usize} {slots : List JuliaVMSlot}
    (statics : Statics runtime) (at_ : ModuleAt runtime memory source bytes items nusings)
    (size : bytes = 400) (copied : Copied memory other source target 392)
    (apart : target ≠ source)
    (before : scanJuliaObject runtime memory fuel source = .ok slots) :
    scanJuliaObject runtime other fuel target = .ok (moved source target bytes slots) ↔
      ¬ (items = source + 88 ∧ nusings ≠ 0) := by
  have list : loadU64 other (target + 80) = .ok items :=
    (copied.loadU64_eq 80 (by decide)).trans at_.list
  have counted : loadU64 other (target + 64) = .ok nusings :=
    (copied.loadU64_eq 64 (by decide)).trans at_.counted
  rw [module_scan statics at_.small at_.list at_.counted] at before
  rcases bind_ok before with ⟨usings, ran, ended⟩
  cases ended
  rw [module_scan statics (at_.small.copied copied) list counted, ran, moved_append,
    moduleSlots_moved size]
  constructor
  · intro same both
    rcases both with ⟨rfl, some⟩
    have fixed : usings = moved source target bytes usings :=
      List.append_cancel_left (Except.ok.inj same)
    rcases usings_head some at_.lower ran with ⟨rest, rfl⟩
    have landed : place source target bytes (source + 88) = target + 88 := by
      apply place_inside
      · rw [size]
        decide
      · omega
    rw [moved, List.map_cons, JuliaVMSlot.relocate, landed] at fixed
    have head := JuliaVMSlot.simple.inj (List.cons.inj fixed).1
    exact apart ((BitVec.add_left_inj _).mp head).symm
  · intro away
    rw [malloced_usings at_ away ran]
    rfl

theorem pointers_moved {pointers : List Usize} (fits : bytes ≤ 2 ^ 64)
    (inner : ∀ pointer ∈ pointers, 8 * pointer.toNat + 8 < bytes) :
    Moves source target bytes (pointerSlots pointers source) (pointerSlots pointers target) := by
  rw [Moves, pointerSlots_eq, pointerSlots_eq, moved_slotsAt_zero fits]
  intro offset member
  rcases List.mem_map.mp member with ⟨pointer, present, rfl⟩
  have below := inner pointer present
  rw [BitVec.toNat_mul, eight_toNat]
  omega

theorem exceptionSlots_moved {task : TaskFields}
    (exceptions : runtime.scanJuliaExcObj other target =
      (runtime.scanJuliaExcObj memory source).map (place source target bytes)) :
    Moves source target bytes (task.exceptionSlots runtime memory source)
      (task.exceptionSlots runtime other target) := by
  rw [Moves, TaskFields.exceptionSlots, TaskFields.exceptionSlots]
  by_cases present : task.excstack ≠ 0
  · rw [if_pos present, if_pos present, exceptions, moved, List.map_map, List.map_map]
    rfl
  · rw [if_neg present, if_neg present]
    rfl

theorem stkbufSlot_moves {task : TaskFields} (size : bytes = 240) (original : TaskAt memory source task)
    (copy : TaskAt other target task) :
    Carries (Moves source target bytes) (stkbufSlot runtime memory source)
      (stkbufSlot runtime other target) := by
  have landed : place source target bytes (source + 200) = target + 200 := by
    apply place_inside
    · rw [size]
      decide
    · omega
  simp only [stkbufSlot, original.stkbuf, original.copyStack, copy.stkbuf, copy.copyStack, bind,
    Except.bind]
  apply Carries.ite
  · intro buffered
    apply Carries.ok
    rw [Moves, moved, List.map_cons, JuliaVMSlot.relocate, landed]
    rfl
  · intro direct
    exact .ok rfl

theorem task_moves {task : TaskFields} {window : Window} {frames : List Frame} {address : Address}
    {layout : Layout} (statics : Statics runtime)
    (at_ : TaskObjectAt runtime memory fuel source bytes task window frames address layout)
    (size : bytes = 240) (copied : Copied memory other source target 232)
    (exceptions : runtime.scanJuliaExcObj other target =
      (runtime.scanJuliaExcObj memory source).map (place source target bytes)) :
    Carries (Moves source target bytes) (scanJuliaObject runtime memory fuel source)
      (scanJuliaObject runtime other fuel target) := by
  have fields := copied.taskAt (by decide) at_.fields
  have through : stackWindow runtime other target = .ok window := by
    rw [← at_.through]
    simp only [stackWindow, fields.stkbuf, fields.copyStack, fields.ptls, fields.tid,
      at_.fields.stkbuf, at_.fields.copyStack, at_.fields.ptls, at_.fields.tid]
  have roots : Moves source target bytes (seen window (frames.flatMap Frame.slots))
      (seen window (frames.flatMap Frame.slots)) := (moved_outside at_.outside).symm
  have stack : Carries (Moves source target bytes) (mmtkScanGcstack runtime memory fuel source)
      (mmtkScanGcstack runtime other fuel target) := by
    apply (stkbufSlot_moves size at_.fields fields).bind
    intro own image _ same
    rw [at_.fields.scanShadowStack_eq at_.through at_.hangs at_.enough,
      fields.scanShadowStack_eq through (at_.hangs.kept copied.kept) at_.enough,
      at_.fields.scanExcstack_eq, fields.scanExcstack_eq]
    exact .ok ((same.append roots).append (exceptionSlots_moved exceptions))
  have described : datatypeLayout other runtime.taskType = .ok address :=
    (loadU64_kept copied.kept _).returns at_.described
  have stored := at_.stored.kept copied.kept
  rw [at_.small.scan_eq statics, (at_.small.copied copied).scan_eq statics, if_neg (by decide),
    if_neg (by decide), if_pos rfl, scanTask, scanTask]
  apply stack.bind
  intro slots images _ same
  rw [at_.described, described]
  simp only [bind, Except.bind, at_.stored.npointers, at_.stored.ptrs, stored.npointers, stored.ptrs,
    at_.stored.scanObj8_eq at_.narrow, stored.scanObj8_eq at_.narrow]
  apply Carries.ok
  apply same.append
  apply pointers_moved (by omega)
  intro pointer present
  have inner := at_.inner pointer present
  omega

theorem arrayRef_moves (copied : Copied memory other source target (bytes - 8))
    (whole : 24 ≤ bytes) (fits : bytes ≤ 2 ^ 64) :
    Carries (Moves source target bytes) (scanArrayRef runtime memory source)
      (scanArrayRef runtime other target) := by
  have landed : place source target bytes source = target := by
    have start : place source target bytes (source + 0) = target + 0 := by
      apply place_inside _ fits
      have zero : (0 : Address).toNat = 0 := rfl
      omega
    simpa using start
  have second : (8 : Address).toNat + 8 ≤ bytes - 8 := by
    have eight : (8 : Address).toNat = 8 := rfl
    omega
  rw [scanArrayRef, scanArrayRef, copied.loadU64_zero (by omega), copied.loadU64_eq 8 second]
  apply (Carries.same _).bind_same
  intro ptrOrOffset _
  apply (Carries.same _).bind_same
  intro mem _
  apply Carries.ite
  · intro managed
    apply Carries.ok
    rw [Moves, moved, List.map_cons, JuliaVMSlot.relocate, landed]
    rfl
  · intro foreign
    exact .ok rfl

theorem PlainAt.copied {vtag : Usize} {vt name address : Address} {layout : Layout} {limit : Nat}
    (at_ : PlainAt runtime memory source vtag vt name address layout)
    (copied : Copied memory other source target limit) :
    PlainAt runtime other target vtag vt name address layout :=
  ⟨copied.datatypeAt at_.typed, at_.plain, (loadU64_kept copied.kept _).returns at_.described,
    at_.stored.kept copied.kept, at_.known, at_.inner, at_.array⟩

theorem plain_moves {vtag : Usize} {vt name address : Address} {layout : Layout}
    (at_ : PlainAt runtime memory source vtag vt name address layout)
    (size : layout.size.toNat + 8 ≤ bytes) (fits : bytes ≤ 2 ^ 64)
    (copied : Copied memory other source target (bytes - 8)) :
    Carries (Moves source target bytes) (scanJuliaObject runtime memory fuel source)
      (scanJuliaObject runtime other fuel target) := by
  rw [at_.scan_eq fuel, (at_.copied copied).scan_eq fuel]
  have fields : Moves source target bytes
      (if vt = runtime.weakrefType then [] else pointerSlots layout.pointers source)
      (if vt = runtime.weakrefType then [] else pointerSlots layout.pointers target) := by
    by_cases weak : vt = runtime.weakrefType
    · rw [if_pos weak, if_pos weak]
      rfl
    · rw [if_neg weak, if_neg weak]
      apply pointers_moved fits
      intro pointer present
      have inner := at_.inner pointer present
      omega
  have ref : Carries (Moves source target bytes)
      (if name = runtime.arrayTypename then scanArrayRef runtime memory source else .ok [])
      (if name = runtime.arrayTypename then scanArrayRef runtime other target else .ok []) := by
    apply Carries.ite
    · intro array
      have enough := at_.array array
      exact arrayRef_moves copied (by omega) fits
    · intro other_
      exact .ok rfl
  apply ref.bind
  intro slots images _ same
  exact .ok (same.append fields)

theorem MemoryAt.copied {vt address ptr place_ : Address} {length : Usize}
    (at_ : MemoryAt runtime memory source vt address ptr length)
    (copied : Copied memory other source target 8)
    (how : runtime.genericmemoryHow other target ≠ 3)
    (pointer : loadU64 other (target + 8) = .ok place_) :
    MemoryAt runtime other target vt address place_ length where
  typetag := copied.typetagof_eq.trans at_.typetag
  symbol := at_.symbol
  buffer := at_.buffer
  large := at_.large
  datatype := (checkDatatype_kept copied.kept vt).returns at_.datatype
  name := (loadU64_kept copied.kept vt).returns at_.name
  array := at_.array
  layout := (loadU64_kept copied.kept _).returns at_.layout
  how := how
  length := (copied.loadU64_zero (le_refl 8)).trans at_.length
  ptr := pointer

theorem memory_moves {vt address ptr place_ : Address} {length : Usize} {layout : Layout}
    (original : MemoryAt runtime memory source vt address ptr length)
    (copy : MemoryAt runtime other target vt address place_ length)
    (stored : LayoutAt memory address layout) (kept : memory.Extends other) (data : DataLayout layout)
    (lower : ptr.toNat + layout.size.toNat * length.toNat ≤ 2 ^ 63)
    (room : place_.toNat + layout.size.toNat * length.toNat ≤ 2 ^ 63)
    (slots : Moves source target bytes (slotsAt ptr (dataOffsets layout length.toNat))
      (slotsAt place_ (dataOffsets layout length.toNat))) :
    Carries (Moves source target bytes) (scanJuliaObject runtime memory fuel source)
      (scanJuliaObject runtime other fuel target) := by
  rw [original.scan_eq fuel, copy.scan_eq fuel, original.data_eq stored data lower,
    copy.data_eq (stored.kept kept) data room]
  apply Carries.ite
  · intro undecoded
    exact .error _
  · intro decoded
    exact .ok slots

end Kinds

end MmtkJulia.Scanning
