import MmtkJulia.CopyCommutes

/-! How far an object reaches: the size that get_so_object_size computes against the slots that
scan_julia_object reports. -/

namespace MmtkJulia.Scanning

/-- What the C helpers say about a memory: whether its data follows its header, and where its owner
field lies. -/
structure MemoryHelpers (runtime : Runtime) (memory : Memory) (m : Address) : Prop where
  how : ∀ ptr, loadU64 memory (m + 8) = .ok ptr →
    (runtime.genericmemoryHow memory m = 0 ↔ ptr = m + 16)
  owner : runtime.genericmemoryHow memory m = 3 → runtime.ownerAddress m = m + 16

/-- The bytes behind the header, what the size of header and payload is rounded to, and the words
that the object only points to. -/
structure Footprint where
  payload : Nat
  grain : Nat
  pointed : Address → Prop

def OnStacks (runtime : Runtime) (memory : Memory) (ta : Address) (window : Window)
    (frames : List Frame) (address : Address) : Prop :=
  (∃ slot ∈ seen window (frames.flatMap Frame.slots), slot.address = address) ∨
    address ∈ runtime.scanJuliaExcObj memory ta

/-- The kinds of objects that the two functions tell apart. -/
inductive Occupies (runtime : Runtime) (memory : Memory) (fuel : Nat) (obj : Address) :
    Footprint → Prop
  | bits {vtag : Usize} {address : Address} {dtsz : BitVec 32}
      (small : SmallAt runtime memory obj vtag)
      (leaf : vtag ∉ [simplevectorTag, moduleTag, taskTag, stringTag])
      (described : datatypeLayout memory (runtime.smallTypeof (vtag / 8).toNat) = .ok address)
      (sized : layoutSize memory address = .ok dtsz) :
      Occupies runtime memory fuel obj ⟨dtsz.toNat, 16, fun _ => False⟩
  | string {length : Usize} (small : SmallAt runtime memory obj stringTag)
      (counted : loadU64 memory obj = .ok length) :
      Occupies runtime memory fuel obj ⟨length.toNat + 9, 8, fun _ => False⟩
  | vector {length : Usize} (small : SmallAt runtime memory obj simplevectorTag)
      (counted : mmtkJlSvecLen memory obj = .ok length) :
      Occupies runtime memory fuel obj ⟨8 * length.toNat + 8, 16, fun _ => False⟩
  | usings {items nusings : Usize} (small : SmallAt runtime memory obj moduleTag)
      (list : loadU64 memory (obj + 80) = .ok items)
      (counted : loadU64 memory (obj + 64) = .ok nusings)
      (inlined : items = obj + 88 → nusings.toNat ≤ 29)
      (lower : items.toNat + 8 * nusings.toNat ≤ 2 ^ 63) :
      Occupies runtime memory fuel obj ⟨392, 16, fun address =>
        items ≠ obj + 88 ∧ WordWithin items (8 * nusings.toNat) address⟩
  | task {task : TaskFields} {window : Window} {frames : List Frame} {address : Address}
      {layout : Layout} (small : SmallAt runtime memory obj taskTag) (fields : TaskAt memory obj task)
      (through : stackWindow runtime memory obj = .ok window)
      (hangs : Hangs (readStack memory window) task.gcstack frames) (enough : frames.length ≤ fuel)
      (described : datatypeLayout memory runtime.taskType = .ok address)
      (stored : LayoutAt memory address layout) (narrow : layout.fielddescType = 0)
      (whole : ∀ pointer ∈ layout.pointers, 8 * pointer.toNat + 8 ≤ layout.size.toNat)
      (covered : layout.size.toNat ≤ 224) :
      Occupies runtime memory fuel obj ⟨224, 16, OnStacks runtime memory obj window frames⟩
  | plain {vtag : Usize} {vt name address : Address} {layout : Layout}
      (at_ : PlainAt runtime memory obj vtag vt name address layout)
      (whole : ∀ pointer ∈ layout.pointers, 8 * pointer.toNat + 8 ≤ layout.size.toNat) :
      Occupies runtime memory fuel obj ⟨layout.size.toNat, 16, fun _ => False⟩
  | inlined {vt address : Address} {length : Usize} {layout : Layout}
      (helpers : MemoryHelpers runtime memory obj)
      (whole : MemoryAt runtime memory obj vt address (obj + 16) length)
      (stored : LayoutAt memory address layout) (data : DataLayout layout) :
      Occupies runtime memory fuel obj ⟨16 + layout.size.toNat * length.toNat +
        (if arrayelemIsunion layout.flags then length.toNat else 0), 16, fun _ => False⟩
  | external {vt address ptr : Address} {length : Usize} {layout : Layout}
      (helpers : MemoryHelpers runtime memory obj)
      (whole : MemoryAt runtime memory obj vt address ptr length) (elsewhere : ptr ≠ obj + 16)
      (stored : LayoutAt memory address layout) (data : DataLayout layout)
      (lower : ptr.toNat + layout.size.toNat * length.toNat ≤ 2 ^ 63) :
      Occupies runtime memory fuel obj
        ⟨24, 16, WordWithin ptr (layout.size.toNat * length.toNat)⟩
  | owned {vtag : Usize} {vt : Address} (helpers : MemoryHelpers runtime memory obj)
      (typed : DatatypeAt runtime memory obj vtag vt runtime.genericmemoryTypename)
      (how : runtime.genericmemoryHow memory obj = 3) :
      Occupies runtime memory fuel obj ⟨24, 16, fun _ => False⟩

section Sizes

variable {runtime : Runtime} {memory : Memory} {fuel : Nat} {obj : Address}

theorem rounded_external : Rounded 24 16 32 :=
  @rounded_lltAlign 32 16 4 24 rfl rfl (by decide)

theorem Occupies.size_rounded {footprint : Footprint} (statics : Statics runtime)
    (at_ : Occupies runtime memory fuel obj footprint) (room : footprint.payload + 16 ≤ 2 ^ 63) :
    ∃ size, getSoObjectSize runtime memory obj = .ok size ∧
      Rounded footprint.payload footprint.grain size := by
  cases at_ with
  | bits small leaf described sized =>
      simp only [List.mem_cons, List.not_mem_nil, or_false, not_or] at leaf
      rw [small.size_eq statics, smallSize, if_neg leaf.1, if_neg leaf.2.1, if_neg leaf.2.2.1,
        if_neg leaf.2.2.2]
      exact plainSize_rounded statics described sized
  | string small counted => exact string_rounded statics small counted room
  | vector small counted => exact vector_rounded statics small counted room
  | usings small =>
      have rounded : Rounded 392 16 400 := @rounded_lltAlign 400 16 4 392 rfl rfl (by decide)
      exact ⟨400, module_size statics small, rounded⟩
  | task small =>
      have rounded : Rounded 224 16 240 := @rounded_lltAlign 232 16 4 224 rfl rfl (by decide)
      exact ⟨240, task_size statics small, rounded⟩
  | plain at_ =>
      rw [at_.typed.size_eq, if_neg at_.plain]
      exact plainSize_rounded statics at_.described at_.stored.size
  | inlined helpers whole stored data =>
      have how := (helpers.how _ whole.ptr).mpr rfl
      rw [whole.typed.size_eq, if_pos rfl]
      exact inlined_rounded statics whole stored how (le_trans (Nat.le_add_right _ 16) room)
  | external helpers whole elsewhere =>
      have how : runtime.genericmemoryHow memory obj ≠ 0 :=
        fun inlined => elsewhere ((helpers.how _ whole.ptr).mp inlined)
      exact ⟨32, external_size statics whole.typed how, rounded_external⟩
  | owned helpers typed how =>
      have other : runtime.genericmemoryHow memory obj ≠ 0 := by
        rw [how]
        decide
      exact ⟨32, external_size statics typed other, rounded_external⟩

end Sizes

section Slots

variable {runtime : Runtime} {memory : Memory} {fuel : Nat} {obj : Address}

theorem moduleSlots_within {items : Address} (fits : obj.toNat + 392 ≤ 2 ^ 64) :
    ∀ slot ∈ moduleSlots runtime obj items, WordWithin obj 392 slot.address := by
  have fields : moduleSlots runtime obj items = slotsAt obj [16, 24, 8, 48, 56] ++
      if runtime.isManaged items then [.offset (obj + 80) offsetOfInlinedSpaceInModule] else [] := rfl
  intro slot member
  rw [fields] at member
  rcases List.mem_append.mp member with field | list
  · exact slotsAt_within fits (by simp) slot field
  · split_ifs at list
    · rw [List.mem_singleton.mp list]
      exact field_within fits (by decide)
    · cases list

theorem module_scan_slots {items nusings : Usize} (statics : Statics runtime)
    (small : SmallAt runtime memory obj moduleTag) (list : loadU64 memory (obj + 80) = .ok items)
    (counted : loadU64 memory (obj + 64) = .ok nusings)
    (inlined : items = obj + 88 → nusings.toNat ≤ 29)
    (lower : items.toNat + 8 * nusings.toNat ≤ 2 ^ 63) (fits : obj.toNat + 392 ≤ 2 ^ 63)
    {slots : List JuliaVMSlot} (ran : scanJuliaObject runtime memory fuel obj = .ok slots) :
    ∀ slot ∈ slots, WordWithin obj 392 slot.address ∨
      items ≠ obj + 88 ∧ WordWithin items (8 * nusings.toNat) slot.address := by
  rw [module_scan statics small list counted] at ran
  rcases bind_ok ran with ⟨usings, listed, ran⟩
  have all : moduleSlots runtime obj items ++ usings = slots := Except.ok.inj ran
  intro slot member
  rw [← all] at member
  rcases List.mem_append.mp member with field | used
  · exact .inl (moduleSlots_within (by omega) slot field)
  · have within := usings_within lower listed slot used
    by_cases own : items = obj + 88
    · have few := inlined own
      have extent : (88 : Address).toNat = 88 := rfl
      rw [own] at within
      exact .inl (within.part (by omega) (by omega))
    · exact .inr ⟨own, within⟩

theorem pointers_within {pointers : List Usize} {extent payload : Nat} (covered : extent ≤ payload)
    (fits : obj.toNat + payload ≤ 2 ^ 64)
    (whole : ∀ pointer ∈ pointers, 8 * pointer.toNat + 8 ≤ extent) :
    ∀ slot ∈ pointerSlots pointers obj, WordWithin obj payload slot.address := by
  rw [pointerSlots_eq]
  apply slotsAt_within fits
  intro offset member
  rcases List.mem_map.mp member with ⟨pointer, present, rfl⟩
  have inner := whole pointer present
  rw [BitVec.toNat_mul, eight_toNat]
  omega

theorem MemoryAt.scan_slots {vt address ptr : Address} {length : Usize} {layout : Layout}
    (whole : MemoryAt runtime memory obj vt address ptr length)
    (stored : LayoutAt memory address layout) (data : DataLayout layout)
    (lower : ptr.toNat + layout.size.toNat * length.toNat ≤ 2 ^ 63) {slots : List JuliaVMSlot}
    (ran : scanJuliaObject runtime memory fuel obj = .ok slots) :
    ∀ slot ∈ slots, WordWithin ptr (layout.size.toNat * length.toNat) slot.address := by
  rw [whole.scan_eq fuel, whole.data_eq stored data lower] at ran
  split_ifs at ran
  cases ran
  apply slotsAt_within (by omega)
  intro offset member
  exact mem_dataOffsets data (by omega) member

theorem stkbufSlot_within {task : TaskFields} {own : List JuliaVMSlot}
    (fields : TaskAt memory obj task) (fits : obj.toNat + 224 ≤ 2 ^ 64)
    (ran : stkbufSlot runtime memory obj = .ok own) :
    ∀ slot ∈ own, WordWithin obj 224 slot.address := by
  simp only [stkbufSlot, fields.stkbuf, fields.copyStack, bind, Except.bind] at ran
  intro slot member
  split_ifs at ran
  · have same : own = [.simple (obj + 200)] := (Except.ok.inj ran).symm
    rw [same] at member
    rw [List.mem_singleton.mp member]
    exact field_within fits (by decide)
  · have same : own = [] := (Except.ok.inj ran).symm
    rw [same] at member
    cases member

theorem exceptionSlots_mem {task : TaskFields} {slot : JuliaVMSlot}
    (member : slot ∈ task.exceptionSlots runtime memory obj) :
    slot.address ∈ runtime.scanJuliaExcObj memory obj := by
  rw [TaskFields.exceptionSlots] at member
  split_ifs at member
  · rcases List.mem_map.mp member with ⟨address, present, rfl⟩
    exact present
  · cases member

theorem task_scan_slots {task : TaskFields} {window : Window} {frames : List Frame}
    {address : Address} {layout : Layout} (statics : Statics runtime)
    (small : SmallAt runtime memory obj taskTag) (fields : TaskAt memory obj task)
    (through : stackWindow runtime memory obj = .ok window)
    (hangs : Hangs (readStack memory window) task.gcstack frames) (enough : frames.length ≤ fuel)
    (described : datatypeLayout memory runtime.taskType = .ok address)
    (stored : LayoutAt memory address layout) (narrow : layout.fielddescType = 0)
    (whole : ∀ pointer ∈ layout.pointers, 8 * pointer.toNat + 8 ≤ layout.size.toNat)
    (covered : layout.size.toNat ≤ 224) (fits : obj.toNat + 224 ≤ 2 ^ 64) {slots : List JuliaVMSlot}
    (ran : scanJuliaObject runtime memory fuel obj = .ok slots) :
    ∀ slot ∈ slots,
      WordWithin obj 224 slot.address ∨ OnStacks runtime memory obj window frames slot.address := by
  rw [small.scan_eq statics, if_neg (by decide), if_neg (by decide), if_pos rfl] at ran
  rcases bind_ok ran with ⟨stack, scanned, ran⟩
  rcases bind_ok scanned with ⟨own, buffer, scanned⟩
  rw [fields.scanShadowStack_eq through hangs enough, fields.scanExcstack_eq] at scanned
  simp only [described, stored.npointers, stored.ptrs, stored.scanObj8_eq narrow, bind,
    Except.bind] at ran
  have roots : own ++ seen window (frames.flatMap Frame.slots) ++
      task.exceptionSlots runtime memory obj = stack := Except.ok.inj scanned
  have all : stack ++ pointerSlots layout.pointers obj = slots := Except.ok.inj ran
  intro slot member
  rw [← all, ← roots] at member
  rcases List.mem_append.mp member with stacked | field
  · rcases List.mem_append.mp stacked with mine | exception
    · rcases List.mem_append.mp mine with buffered | root
      · exact .inl (stkbufSlot_within fields fits buffer slot buffered)
      · exact .inr (.inl ⟨slot, root, rfl⟩)
    · exact .inr (.inr (exceptionSlots_mem exception))
  · exact .inl (pointers_within covered fits whole slot field)

theorem arrayRef_within {payload : Nat} {slots : List JuliaVMSlot} (whole : 8 ≤ payload)
    (ran : scanArrayRef runtime memory obj = .ok slots) :
    ∀ slot ∈ slots, WordWithin obj payload slot.address := by
  rcases bind_ok ran with ⟨ptrOrOffset, -, ran⟩
  rcases bind_ok ran with ⟨mem, -, ran⟩
  intro slot member
  split_ifs at ran
  · have same : slots = [.offset obj (ptrOrOffset - mem)] := (Except.ok.inj ran).symm
    rw [same] at member
    rw [List.mem_singleton.mp member]
    exact ⟨Nat.le_refl _, Nat.add_le_add_left whole _⟩
  · have same : slots = [] := (Except.ok.inj ran).symm
    rw [same] at member
    cases member

theorem PlainAt.scan_slots {vtag : Usize} {vt name address : Address} {layout : Layout}
    (at_ : PlainAt runtime memory obj vtag vt name address layout)
    (whole : ∀ pointer ∈ layout.pointers, 8 * pointer.toNat + 8 ≤ layout.size.toNat)
    (fits : obj.toNat + layout.size.toNat ≤ 2 ^ 64) {slots : List JuliaVMSlot}
    (ran : scanJuliaObject runtime memory fuel obj = .ok slots) :
    ∀ slot ∈ slots, WordWithin obj layout.size.toNat slot.address := by
  rw [at_.scan_eq fuel] at ran
  rcases bind_ok ran with ⟨ref, reported, ran⟩
  have all := Except.ok.inj ran
  intro slot member
  rw [← all] at member
  rcases List.mem_append.mp member with interior | field
  · by_cases array : name = runtime.arrayTypename
    · have enough := at_.array array
      rw [if_pos array] at reported
      exact arrayRef_within (by omega) reported slot interior
    · rw [if_neg array] at reported
      have none : ref = [] := (Except.ok.inj reported).symm
      rw [none] at interior
      cases interior
  · by_cases weak : vt = runtime.weakrefType
    · rw [if_pos weak] at field
      cases field
    · rw [if_neg weak] at field
      exact pointers_within (Nat.le_refl _) fits whole slot field

theorem Occupies.scan_within {footprint : Footprint} (statics : Statics runtime)
    (at_ : Occupies runtime memory fuel obj footprint)
    (room : obj.toNat + footprint.payload ≤ 2 ^ 63) {slots : List JuliaVMSlot}
    (ran : scanJuliaObject runtime memory fuel obj = .ok slots) :
    ∀ slot ∈ slots,
      WordWithin obj footprint.payload slot.address ∨ footprint.pointed slot.address := by
  have eight : (8 : Address).toNat = 8 := rfl
  have sixteen : (16 : Address).toNat = 16 := rfl
  intro slot member
  cases at_ with
  | bits small leaf =>
      have plain : _ ∉ [simplevectorTag, moduleTag, taskTag] :=
        fun member => leaf (List.mem_append_left [stringTag] member)
      rw [← Except.ok.inj ((small.scan_leaf statics plain fuel).symm.trans ran)] at member
      cases member
  | string small =>
      rw [← Except.ok.inj ((small.scan_leaf statics (by decide) fuel).symm.trans ran)] at member
      cases member
  | @vector length small counted =>
      have below : obj.toNat + (8 * length.toNat + 8) ≤ 2 ^ 63 := room
      have words := small.scan_vector statics counted (by omega) fuel
      rw [← Except.ok.inj (words.symm.trans ran)] at member
      have inner := @slotsAt_within (obj + 8) (8 * length.toNat) _ (by bv_omega)
        (fun _ => mem_wordOffsets) slot member
      have landed : WordWithin obj (8 * length.toNat + 8) slot.address :=
        inner.part (by omega) (by omega)
      exact .inl landed
  | @usings items nusings small list counted inlined lower =>
      have below : obj.toNat + 392 ≤ 2 ^ 63 := room
      exact module_scan_slots statics small list counted inlined lower below ran slot member
  | task small fields through hangs enough described stored narrow whole covered =>
      have below : obj.toNat + 224 ≤ 2 ^ 63 := room
      exact task_scan_slots statics small fields through hangs enough described stored narrow whole
        covered (by omega) ran slot member
  | plain at_ whole =>
      exact .inl (at_.scan_slots whole (le_trans room (by decide)) ran slot member)
  | @inlined vt address length layout helpers whole stored data =>
      have below : obj.toNat + (16 + layout.size.toNat * length.toNat +
        (if arrayelemIsunion layout.flags then length.toNat else 0)) ≤ 2 ^ 63 := room
      have start : (obj + 16).toNat = obj.toNat + 16 := by
        rw [BitVec.toNat_add, sixteen]
        omega
      have within := whole.scan_slots stored data (by omega) ran slot member
      have landed : WordWithin obj (16 + layout.size.toNat * length.toNat +
          (if arrayelemIsunion layout.flags then length.toNat else 0)) slot.address :=
        within.part (by omega) (by omega)
      exact .inl landed
  | external helpers whole elsewhere stored data lower =>
      exact .inr (whole.scan_slots stored data lower ran slot member)
  | owned helpers typed how =>
      have below : obj.toNat + 24 ≤ 2 ^ 63 := room
      rw [typed.memory_scan_eq statics fuel, scanGenericMemory, if_pos how, helpers.owner how] at ran
      rw [← Except.ok.inj ran] at member
      rw [List.mem_singleton.mp member]
      exact .inl (field_within (by omega) (by decide))

end Slots

section Extent

variable {runtime : Runtime} {memory : Memory} {fuel : Nat} {obj : Address} {footprint : Footprint}

theorem Occupies.start_eq (statics : Statics runtime)
    (types : ∀ tag, runtime.smallTypeof tag ≠ runtime.buffTag)
    (at_ : Occupies runtime memory fuel obj footprint) :
    getObjectStartRef runtime memory obj = .ok (obj - 8) := by
  have header : ∀ vtag, mmtkJlTypetagof memory obj = .ok vtag → vtag ≠ runtime.buffTag →
      getObjectStartRef runtime memory obj = .ok (obj - 8) := by
    intro vtag tag buffer
    have type : mmtkJlToTypeof runtime vtag ≠ runtime.buffTag := by
      rw [mmtkJlToTypeof]
      split_ifs
      · exact types _
      · exact buffer
    simp only [getObjectStartRef, mmtkJlTypeof, tag, bind, Except.bind, pure, Except.pure,
      if_neg type, statics.header]
  have struct : ∀ {vtag vt name}, DatatypeAt runtime memory obj vtag vt name →
      getObjectStartRef runtime memory obj = .ok (obj - 8) :=
    fun typed => header _ typed.tag typed.buffer
  have tagged : ∀ {vtag}, SmallAt runtime memory obj vtag →
      getObjectStartRef runtime memory obj = .ok (obj - 8) :=
    fun small => header _ small.tag (ne_of_small small.small statics.buffer)
  cases at_ with
  | bits small => exact tagged small
  | string small => exact tagged small
  | vector small => exact tagged small
  | usings small => exact tagged small
  | task small => exact tagged small
  | plain at_ => exact struct at_.typed
  | inlined helpers whole => exact struct whole.typed
  | external helpers whole => exact struct whole.typed
  | owned helpers typed => exact struct typed

theorem Occupies.grain_eq (at_ : Occupies runtime memory fuel obj footprint) :
    footprint.grain = 16 ∨ footprint.grain = 8 ∧ 0 < footprint.payload := by
  cases at_ with
  | string => exact .inr ⟨rfl, Nat.succ_pos _⟩
  | _ => exact .inl rfl

/-- Copying by size takes all that the scan reports of the object itself, and no more than the
rounding asks for. -/
theorem size_covers_scan (statics : Statics runtime)
    (types : ∀ tag, runtime.smallTypeof tag ≠ runtime.buffTag)
    (at_ : Occupies runtime memory fuel obj footprint) (behind : 8 ≤ obj.toNat)
    (room : obj.toNat + footprint.payload + 16 ≤ 2 ^ 63) :
    ∃ start size, getObjectStartRef runtime memory obj = .ok start ∧
      getSoObjectSize runtime memory obj = .ok size ∧
      IsLeast {bytes | footprint.grain ∣ bytes ∧ 8 + footprint.payload ≤ bytes} size.toNat ∧
      start.toNat ≤ obj.toNat ∧ obj.toNat < start.toNat + size.toNat ∧
      ∀ slots, scanJuliaObject runtime memory fuel obj = .ok slots → ∀ slot ∈ slots,
        obj.toNat ≤ slot.address.toNat ∧ slot.address.toNat + 8 ≤ start.toNat + size.toNat ∨
          footprint.pointed slot.address := by
  rcases at_.size_rounded statics (by omega) with ⟨size, sized, rounded⟩
  have start : (obj - 8).toNat = obj.toNat - 8 := by bv_omega
  rcases rounded with ⟨⟨multiple, enough⟩, least⟩
  have beyond : 8 < size.toNat := by
    rcases at_.grain_eq with sixteen | ⟨_, positive⟩
    · rw [sixteen] at multiple
      omega
    · omega
  refine ⟨obj - 8, size, at_.start_eq statics types, sized, ⟨⟨multiple, enough⟩, least⟩, ?_, ?_, ?_⟩
  · omega
  · omega
  · intro slots ran slot member
    rcases at_.scan_within statics (by omega) ran slot member with ⟨above, below⟩ | pointed
    · exact .inl ⟨above, by omega⟩
    · exact .inr pointed

end Extent

/-- A memory with two pointers inlined: 16 bytes of fields and 16 of data. -/
theorem size_covers_scan_pair :
    ∃ size, getSoObjectSize sampleRuntime (pairMemory 2 0x10000) 0x10000 = .ok size ∧
      IsLeast {bytes | 16 ∣ bytes ∧ 8 + 32 ≤ bytes} size.toNat ∧
      ∀ slot ∈ [JuliaVMSlot.simple 0x10010, .simple 0x10018],
        slot.address.toNat + 8 ≤ 0xfff8 + size.toNat := by
  have field : loadU64 (pairMemory 2 0x10000) (0x10000 + 8) = .ok 0x10010 := by decide +kernel
  have helpers : MemoryHelpers sampleRuntime (pairMemory 2 0x10000) 0x10000 := by
    refine ⟨?_, fun _ => rfl⟩
    intro ptr loaded
    have same : ptr = 0x10010 := Except.ok.inj (loaded.symm.trans field)
    rw [same]
    decide +kernel
  have types : ∀ tag, sampleRuntime.smallTypeof tag ≠ sampleRuntime.buffTag :=
    fun _ => (by decide : (0 : Address) ≠ 0x4eade800)
  have pair := narrowPair_inlined
  have scanned : scanJuliaObject sampleRuntime (pairMemory 2 0x10000) 0 0x10000 =
      .ok [.simple 0x10010, .simple 0x10018] := by decide +kernel
  obtain ⟨start, size, begins, sized, least, -, -, slots⟩ := size_covers_scan sampleRuntime_statics
    types (.inlined helpers pair.whole pair.stored pair.data) (by decide) (by decide)
  have begin_ : getObjectStartRef sampleRuntime (pairMemory 2 0x10000) 0x10000 = .ok 0xfff8 := by
    decide +kernel
  have same : start = 0xfff8 := Except.ok.inj (begins.symm.trans begin_)
  refine ⟨size, sized, least, ?_⟩
  intro slot member
  rw [same] at slots
  rcases slots _ scanned slot member with inside | pointed
  · exact inside.2
  · cases pointed

end MmtkJulia.Scanning
