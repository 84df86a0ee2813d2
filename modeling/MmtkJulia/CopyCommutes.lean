import MmtkJulia.ScanCopy

/-! Copying an object and scanning it, in either order. -/

namespace MmtkJulia.Scanning

def afterMemcpy (memory : Memory) (source dst : Address) (bytes : Nat) : Memory :=
  memory.copyNonoverlapping (source - 8) dst bytes

def IsMemory (runtime : Runtime) (memory : Memory) (obj : Address) : Prop :=
  ∃ vt, mmtkJlTypeof runtime memory obj = .ok vt ∧
    datatypeName memory vt = .ok runtime.genericmemoryTypename

/-- How the data of a memory is classified: 0 where it lies behind the header, otherwise by the
owner field, 1 where the memory owns it, 2 where nobody does and 3 where another object does. -/
structure HowRule (runtime : Runtime) (memory : Memory) (m : Address) : Prop where
  inlined : loadU64 memory (m + 8) = .ok (m + 16) → runtime.genericmemoryHow memory m = 0
  elsewhere : ∀ ptr owner, loadU64 memory (m + 8) = .ok ptr → ptr ≠ m + 16 →
    loadU64 memory (runtime.ownerAddress m) = .ok owner →
    runtime.genericmemoryHow memory m = if owner = m then 1 else if owner = 0 then 2 else 3

/-- What the C helpers do for a copy: the owner field of a memory is a word of its header, memories
are classified by the rule, the pointer to inlined data is rebased, and the exceptions of a task are
reported for the copy as for the original. -/
structure Helpers (runtime : Runtime) (memory other : Memory) (source dst target : Address)
    (bytes : Nat) : Prop where
  owner : ∃ offset : Address, offset.toNat ≤ 16 ∧ ∀ m, runtime.ownerAddress m = m + offset
  original : IsMemory runtime memory source → HowRule runtime memory source
  image : IsMemory runtime memory source → HowRule runtime other target
  rebase : IsMemory runtime memory source → ∀ ptr, loadU64 memory (source + 8) = .ok ptr →
    runtime.updateInlinedArray (afterMemcpy memory source dst bytes) source target =
      if runtime.genericmemoryHow memory source = 0 then
        @Memory.store (afterMemcpy memory source dst bytes) (target + 8) 8 (ptr + (target - source))
      else afterMemcpy memory source dst bytes
  exceptions : mmtkJlTypetagof memory source = .ok taskTag →
    runtime.scanJuliaExcObj other target =
      (runtime.scanJuliaExcObj memory source).map (place source target bytes)

section Outcomes

variable {runtime : Runtime} {memory other : Memory} {fuel : Nat} {source dst target : Address}
  {bytes : Usize}

theorem SmallAt.typeof {vtag : Usize} (at_ : SmallAt runtime memory source vtag) :
    mmtkJlTypeof runtime memory source = .ok (runtime.smallTypeof (vtag / 8).toNat) := by
  simp only [mmtkJlTypeof, at_.tag, bind, Except.bind, mmtkJlToTypeof, if_pos at_.small]
  rfl

theorem typeof_kept (kept : memory.Extends other) (address : Address) :
    Kept (mmtkJlTypeof runtime · address) memory other := by
  apply (typetagof_kept kept address).bind_same
  intro vtag _
  exact .same _

theorem copy_outcome {vt name : Address} (size : getSoObjectSize runtime memory source = .ok bytes)
    (ran : copy runtime memory source dst = .ok (other, target))
    (fresh : Fresh memory source dst bytes.toNat)
    (typed : mmtkJlTypeof runtime memory source = .ok vt) (named : datatypeName memory vt = .ok name) :
    target = dst + 8 ∧
      other = if name = runtime.genericmemoryTypename then
          runtime.updateInlinedArray (afterMemcpy memory source dst bytes.toNat) source target
        else afterMemcpy memory source dst bytes.toNat := by
  have kept : memory.Extends (afterMemcpy memory source dst bytes.toNat) :=
    Memory.copy_extends fresh.unmapped
  rcases copy_eq size ran with ⟨place, vtLater, nameLater, typedLater, namedLater, outcome⟩
  have sameType : vtLater = vt :=
    Except.ok.inj (typedLater.symm.trans ((typeof_kept kept source).returns typed))
  rw [sameType] at namedLater
  have sameName : nameLater = name :=
    Except.ok.inj (namedLater.symm.trans ((loadU64_kept kept vt).returns named))
  rw [sameName] at outcome
  exact ⟨place, outcome⟩

theorem afterMemcpy_copied (fresh : Fresh memory source dst bytes.toNat) (header : 8 ≤ bytes.toNat) :
    Copied memory (afterMemcpy memory source dst bytes.toNat) source (dst + 8) (bytes.toNat - 8) :=
  copyNonoverlapping_copied fresh header

theorem plain_copied {vt name : Address} (size : getSoObjectSize runtime memory source = .ok bytes)
    (ran : copy runtime memory source dst = .ok (other, target))
    (fresh : Fresh memory source dst bytes.toNat) (header : 8 ≤ bytes.toNat)
    (typed : mmtkJlTypeof runtime memory source = .ok vt) (named : datatypeName memory vt = .ok name)
    (plain : name ≠ runtime.genericmemoryTypename) :
    Copied memory other source target (bytes.toNat - 8) := by
  rcases copy_outcome size ran fresh typed named with ⟨rfl, outcome⟩
  rw [outcome, if_neg plain]
  exact afterMemcpy_copied fresh header

theorem SmallAt.copy_copied {vtag : Usize} (at_ : SmallAt runtime memory source vtag)
    (size : getSoObjectSize runtime memory source = .ok bytes)
    (ran : copy runtime memory source dst = .ok (other, target))
    (fresh : Fresh memory source dst bytes.toNat) (header : 8 ≤ bytes.toNat) :
    Copied memory other source target (bytes.toNat - 8) := by
  rcases at_.named with ⟨name, named, plain⟩
  exact plain_copied size ran fresh header at_.typeof named plain

theorem external_copied {vtag : Usize} {vt ptr : Address}
    (at_ : DatatypeAt runtime memory source vtag vt runtime.genericmemoryTypename)
    (pointer : loadU64 memory (source + 8) = .ok ptr)
    (how : runtime.genericmemoryHow memory source ≠ 0) (statics : Statics runtime)
    (size : getSoObjectSize runtime memory source = .ok bytes)
    (ran : copy runtime memory source dst = .ok (other, target))
    (fresh : Fresh memory source dst bytes.toNat)
    (helpers : Helpers runtime memory other source dst target bytes.toNat) :
    bytes.toNat = 32 ∧ Copied memory other source target 24 := by
  have whole : bytes = 32 := Except.ok.inj (size.symm.trans (external_size statics at_ how))
  have count : bytes.toNat = 32 := by
    rw [whole]
    rfl
  have copied := afterMemcpy_copied fresh (by omega)
  rw [count] at copied
  rcases copy_outcome size ran fresh at_.typeof at_.name with ⟨rfl, outcome⟩
  rw [outcome, if_pos rfl, helpers.rebase ⟨vt, at_.typeof, at_.name⟩ ptr pointer, if_neg how, count]
  exact ⟨rfl, copied⟩

theorem inlined_copied {vtag : Usize} {vt : Address}
    (at_ : DatatypeAt runtime memory source vtag vt runtime.genericmemoryTypename)
    (pointer : loadU64 memory (source + 8) = .ok (source + 16))
    (how : runtime.genericmemoryHow memory source = 0)
    (size : getSoObjectSize runtime memory source = .ok bytes)
    (ran : copy runtime memory source dst = .ok (other, target))
    (fresh : Fresh memory source dst bytes.toNat) (whole : 24 ≤ bytes.toNat)
    (helpers : Helpers runtime memory other source dst target bytes.toNat) :
    Copied memory other source target 8 ∧ loadU64 other (target + 8) = .ok (target + 16) := by
  rcases copy_outcome size ran fresh at_.typeof at_.name with ⟨rfl, outcome⟩
  have moved_ : source + 16 + (dst + 8 - source) = dst + 8 + 16 := by bv_omega
  rw [outcome, if_pos rfl, helpers.rebase ⟨vt, at_.typeof, at_.name⟩ _ pointer, if_pos how, moved_]
  constructor
  · apply (afterMemcpy_copied fresh (by omega)).store (by omega)
    intro byte inside
    apply fresh.unmapped
    rw [Memory.Within] at inside ⊢
    bv_omega
  · rw [loadU64, loadBytes, Memory.load_store _ (by decide)]

theorem moved_leaves (fresh : Fresh memory source dst bytes.toNat) (slots : List JuliaVMSlot) :
    ∀ slot ∈ moved source (dst + 8) bytes.toNat slots, ¬ Inside source bytes.toNat slot.address := by
  have each : ∀ address, ¬ Inside source bytes.toNat (place source (dst + 8) bytes.toNat address) := by
    intro address
    by_cases inside : Inside source bytes.toNat address
    · rw [place, if_pos inside]
      apply fresh.apart
      rw [Inside, Memory.Within] at inside
      rw [Memory.Within]
      have position : address + (dst + 8 - source) - dst = address - (source - 8) := by bv_omega
      rw [position]
      exact inside
    · rw [place_outside inside]
      exact inside
  intro slot member
  rcases List.mem_map.mp member with ⟨original, -, rfl⟩
  cases original with
  | simple address => exact each address
  | offset address distance => exact each address

theorem target_ne_source (fresh : Fresh memory source dst bytes.toNat) (header : 8 ≤ bytes.toNat) :
    dst + 8 ≠ source := by
  intro same
  apply fresh.apart dst
  · rw [Memory.Within, BitVec.sub_self]
    exact Nat.lt_of_lt_of_le (by decide) header
  · have start : source - 8 = dst := by bv_omega
    rw [Inside, Memory.Within, start, BitVec.sub_self]
    exact Nat.lt_of_lt_of_le (by decide) header

/-- A module whose list of usings is not empty and lies in the module itself. -/
def InlineUsings (memory : Memory) (obj : Address) : Prop :=
  mmtkJlTypetagof memory obj = .ok moduleTag ∧ loadU64 memory (obj + 80) = .ok (obj + 88) ∧
    ∃ nusings, loadU64 memory (obj + 64) = .ok nusings ∧ nusings ≠ 0

theorem not_inlineUsings {vtag : Usize} (tag : mmtkJlTypetagof memory source = .ok vtag)
    (different : vtag ≠ moduleTag) : ¬ InlineUsings memory source := by
  intro inline_
  exact different (Except.ok.inj (tag.symm.trans inline_.1))

theorem DatatypeAt.not_module {vtag : Usize} {vt name : Address}
    (at_ : DatatypeAt runtime memory source vtag vt name) : vtag ≠ moduleTag := by
  intro same
  rcases at_.datatype with ⟨member, -⟩ | ⟨large, -⟩
  · rw [same] at member
    exact absurd member (by decide)
  · rw [same] at large
    exact large (by decide)

theorem inlineUsings_iff {count : Nat} {items nusings : Usize}
    (at_ : ModuleAt runtime memory source count items nusings) :
    InlineUsings memory source ↔ items = source + 88 ∧ nusings ≠ 0 := by
  constructor
  · rintro ⟨-, list, found, counted, some⟩
    have sameItems : items = source + 88 := Except.ok.inj (at_.list.symm.trans list)
    have sameCount : found = nusings := Except.ok.inj (counted.symm.trans at_.counted)
    rw [sameCount] at some
    exact ⟨sameItems, some⟩
  · rintro ⟨rfl, some⟩
    exact ⟨at_.small.tag, at_.list, nusings, at_.counted, some⟩

/-- A memory that owns the data it points to. -/
def OwnsData (runtime : Runtime) (memory : Memory) (obj : Address) : Prop :=
  IsMemory runtime memory obj ∧ ∃ ptr, loadU64 memory (obj + 8) = .ok ptr ∧ ptr ≠ obj + 16 ∧
    loadU64 memory (runtime.ownerAddress obj) = .ok obj

theorem not_isMemory {vt name : Address} (typed : mmtkJlTypeof runtime memory source = .ok vt)
    (named : datatypeName memory vt = .ok name) (plain : name ≠ runtime.genericmemoryTypename) :
    ¬ IsMemory runtime memory source := by
  rintro ⟨found, typedToo, memory_⟩
  have same : found = vt := Except.ok.inj (typedToo.symm.trans typed)
  rw [same] at memory_
  exact plain (Except.ok.inj (named.symm.trans memory_))

theorem SmallAt.not_ownsData {vtag : Usize} (at_ : SmallAt runtime memory source vtag) :
    ¬ OwnsData runtime memory source := by
  rcases at_.named with ⟨name, named, plain⟩
  exact fun owns => not_isMemory at_.typeof named plain owns.1

theorem InlinedAt.not_ownsData {vt address : Address} {length : Usize} {layout : Layout}
    (at_ : InlinedAt runtime memory source vt address length layout) :
    ¬ OwnsData runtime memory source := by
  rintro ⟨-, ptr, pointer, elsewhere, -⟩
  exact elsewhere (Except.ok.inj (pointer.symm.trans at_.whole.ptr))

theorem HowRule.three_iff {m ptr owner : Address} (rule : HowRule runtime memory m)
    (pointer : loadU64 memory (m + 8) = .ok ptr)
    (owned : loadU64 memory (runtime.ownerAddress m) = .ok owner) :
    runtime.genericmemoryHow memory m = 3 ↔ ptr ≠ m + 16 ∧ owner ≠ m ∧ owner ≠ 0 := by
  by_cases inline_ : ptr = m + 16
  · rw [inline_] at pointer
    rw [rule.inlined pointer]
    exact iff_of_false (by decide) (fun both => both.1 inline_)
  rw [rule.elsewhere ptr owner pointer inline_ owned]
  by_cases own : owner = m
  · rw [if_pos own]
    exact iff_of_false (by decide) (fun both => both.2.1 own)
  by_cases nobody : owner = 0
  · rw [if_neg own, if_pos nobody]
    exact iff_of_false (by decide) (fun both => both.2.2 nobody)
  · rw [if_neg own, if_neg nobody]
    exact iff_of_true rfl ⟨inline_, own, nobody⟩

theorem HowRule.data_elsewhere {m ptr : Address} (rule : HowRule runtime memory m)
    (pointer : loadU64 memory (m + 8) = .ok ptr) (how : runtime.genericmemoryHow memory m ≠ 0) :
    ptr ≠ m + 16 := by
  rintro rfl
  exact how (rule.inlined pointer)

/-- The pointer and the owner field are copied, so the copy is classified by the original's. -/
theorem copied_how_iff {ptr owner : Address} (isMemory : IsMemory runtime memory source)
    (helpers : Helpers runtime memory other source dst target bytes.toNat)
    (copied : Copied memory other source target 24) (pointer : loadU64 memory (source + 8) = .ok ptr)
    (owned : loadU64 memory (runtime.ownerAddress source) = .ok owner) :
    runtime.genericmemoryHow other target = 3 ↔ ptr ≠ target + 16 ∧ owner ≠ target ∧ owner ≠ 0 := by
  rcases helpers.owner with ⟨offset, inner, place_⟩
  have field : loadU64 other (runtime.ownerAddress target) = .ok owner := by
    rw [place_] at owned ⊢
    exact (copied.loadU64_eq offset (Nat.add_le_add_right inner 8)).trans owned
  exact (helpers.image isMemory).three_iff ((copied.loadU64_eq 8 (by decide)).trans pointer) field

theorem mapped_ne {address offset : Address} (fresh : Fresh memory source dst bytes.toNat)
    (mapped : memory address ≠ none) (inner : offset.toNat < bytes.toNat) : address ≠ dst + offset := by
  rintro rfl
  exact mapped (fresh.unmapped _ ((Memory.within_add _ _ _).mpr inner))

theorem mapped_ne_data {ptr : Address} (fresh : Fresh memory source dst bytes.toNat)
    (count : bytes.toNat = 32) (mapped : memory ptr ≠ none) : ptr ≠ dst + 8 + 16 := by
  rw [BitVec.add_assoc]
  apply mapped_ne fresh mapped
  rw [count]
  decide

theorem inlined_commutes {vt address : Address} {length : Usize} {layout : Layout}
    (at_ : InlinedAt runtime memory source vt address length layout) (statics : Statics runtime)
    (size : getSoObjectSize runtime memory source = .ok bytes)
    (ran : copy runtime memory source dst = .ok (other, target))
    (fresh : Fresh memory source dst bytes.toNat)
    (helpers : Helpers runtime memory other source dst target bytes.toNat) :
    Carries (Moves source target bytes.toNat) (scanJuliaObject runtime memory fuel source)
      (scanJuliaObject runtime other fuel target) := by
  have bound := at_.size_bound statics size
  have low := fresh.fits
  have room := fresh.room
  have typed := at_.whole.typed
  have place_ := (copy_outcome size ran fresh typed.typeof typed.name).1
  rcases inlined_copied typed at_.whole.ptr at_.how size ran fresh (by omega) helpers with
    ⟨copied, pointer⟩
  have how : runtime.genericmemoryHow other target ≠ 3 := by
    rw [(helpers.image ⟨vt, typed.typeof, typed.name⟩).inlined pointer]
    decide
  have copy := at_.whole.copied copied how pointer
  have sixteen : (16 : Address).toNat = 16 := rfl
  apply memory_moves at_.whole copy at_.stored copied.kept at_.data
  · bv_omega
  · rw [place_]
    bv_omega
  · rw [Moves, moved_slotsAt (by omega)]
    intro offset member
    have inner := mem_dataOffsets at_.data (by omega) member
    omega

section External

variable {vt address ptr owner : Address} {length : Usize} {layout : Layout}

theorem ExternalAt.ownsData_iff
    (at_ : ExternalAt runtime memory source bytes.toNat vt address ptr owner length layout)
    (helpers : Helpers runtime memory other source dst target bytes.toNat) :
    OwnsData runtime memory source ↔ owner = source := by
  have typed := at_.whole.typed
  have isMemory : IsMemory runtime memory source := ⟨vt, typed.typeof, typed.name⟩
  constructor
  · rintro ⟨-, _, -, -, own⟩
    exact Except.ok.inj (at_.owned.symm.trans own)
  · rintro rfl
    exact ⟨isMemory, ptr, at_.whole.ptr,
      (helpers.original isMemory).data_elsewhere at_.whole.ptr at_.how, at_.owned⟩

theorem ExternalAt.moved_data
    (at_ : ExternalAt runtime memory source bytes.toNat vt address ptr owner length layout) :
    moved source target bytes.toNat (slotsAt ptr (dataOffsets layout length.toNat)) =
      slotsAt ptr (dataOffsets layout length.toNat) := by
  have lower := at_.lower
  apply moved_outside
  intro slot member
  rcases List.mem_map.mp member with ⟨offset, present, rfl⟩
  apply at_.outside
  rw [JuliaVMSlot.address, Memory.within_add]
  have inner := mem_dataOffsets at_.data (by omega) present
  omega

theorem external_commutes
    (at_ : ExternalAt runtime memory source bytes.toNat vt address ptr owner length layout)
    (statics : Statics runtime) (size : getSoObjectSize runtime memory source = .ok bytes)
    (ran : copy runtime memory source dst = .ok (other, target))
    (fresh : Fresh memory source dst bytes.toNat)
    (helpers : Helpers runtime memory other source dst target bytes.toNat)
    (own : owner ≠ source) :
    Carries (Moves source target bytes.toNat) (scanJuliaObject runtime memory fuel source)
      (scanJuliaObject runtime other fuel target) := by
  have typed := at_.whole.typed
  have isMemory : IsMemory runtime memory source := ⟨vt, typed.typeof, typed.name⟩
  rcases external_copied typed at_.whole.ptr at_.how statics size ran fresh helpers with ⟨-, copied⟩
  have elsewhere := (helpers.original isMemory).data_elsewhere at_.whole.ptr at_.how
  -- a memory that neither owns its data nor is owned by another has no owner at all
  have nobody : owner = 0 := by
    by_contra some
    exact at_.whole.how (((helpers.original isMemory).three_iff at_.whole.ptr at_.owned).mpr
      ⟨elsewhere, own, some⟩)
  have how : runtime.genericmemoryHow other target ≠ 3 := by
    rw [Ne, copied_how_iff isMemory helpers copied at_.whole.ptr at_.owned]
    exact fun both => both.2.2 nobody
  have pointer : loadU64 other (target + 8) = .ok ptr :=
    (copied.loadU64_eq 8 (by decide)).trans at_.whole.ptr
  have copy := at_.whole.copied (copied.weaken (by decide)) how pointer
  exact memory_moves at_.whole copy at_.stored copied.kept at_.data at_.lower at_.lower
    at_.moved_data.symm

theorem ExternalAt.slots_eq {slots : List JuliaVMSlot}
    (at_ : ExternalAt runtime memory source bytes.toNat vt address ptr owner length layout)
    (before : scanJuliaObject runtime memory fuel source = .ok slots) :
    slots = slotsAt ptr (dataOffsets layout length.toNat) := by
  rw [at_.whole.scan_eq fuel, at_.whole.data_eq at_.stored at_.data at_.lower] at before
  by_cases undecoded : length ≠ 0 ∧ Undecoded layout
  · rw [if_pos undecoded] at before
    cases before
  · rw [if_neg undecoded] at before
    exact (Except.ok.inj before).symm

/-- The copy of a memory that owns its data names the original as its owner, so the scan reports
the owner field and none of the data. -/
theorem owner_left_behind {slots : List JuliaVMSlot}
    (at_ : ExternalAt runtime memory source bytes.toNat vt address ptr owner length layout)
    (statics : Statics runtime) (size : getSoObjectSize runtime memory source = .ok bytes)
    (ran : copy runtime memory source dst = .ok (other, target))
    (fresh : Fresh memory source dst bytes.toNat)
    (helpers : Helpers runtime memory other source dst target bytes.toNat)
    (own : owner = source) (before : scanJuliaObject runtime memory fuel source = .ok slots) :
    scanJuliaObject runtime other fuel target = .ok [.simple (runtime.ownerAddress target)] ∧
      JuliaVMSlot.simple (runtime.ownerAddress target) ∉ moved source target bytes.toNat slots := by
  have typed := at_.whole.typed
  have isMemory : IsMemory runtime memory source := ⟨vt, typed.typeof, typed.name⟩
  rcases external_copied typed at_.whole.ptr at_.how statics size ran fresh helpers with ⟨count, copied⟩
  have place_ : target = dst + 8 := (copy_eq size ran).1
  have how : runtime.genericmemoryHow other target = 3 := by
    rw [copied_how_iff isMemory helpers copied at_.whole.ptr at_.owned, own, place_]
    refine ⟨mapped_ne_data fresh count (at_.pointed own), ?_, ?_⟩
    · exact (target_ne_source fresh (by omega)).symm
    · have fits := fresh.fits
      rintro rfl
      rw [count] at fits
      exact absurd fits (by decide)
  constructor
  · rw [(copied.datatypeAt typed).memory_scan_eq statics fuel, scanGenericMemory, if_pos how]
    rfl
  rw [at_.slots_eq before, at_.moved_data]
  -- the data is mapped, and the copy lies where nothing was
  intro member
  rcases List.mem_map.mp member with ⟨offset, present, same⟩
  rcases helpers.owner with ⟨field, inner, owner_⟩
  have lower := at_.lower
  have below := mem_dataOffsets at_.data (by omega) present
  have mapped := at_.held own (ptr + offset) ((Memory.within_add _ _ _).mpr (by omega))
  have room : (8 + field).toNat < bytes.toNat := by
    rw [BitVec.toNat_add, eight_toNat, count]
    omega
  apply mapped_ne fresh mapped room
  rw [JuliaVMSlot.simple.inj same, owner_, place_, BitVec.add_assoc]

end External

theorem OwnedAt.not_ownsData {vtag : Usize} {vt ptr owner : Address}
    (at_ : OwnedAt runtime memory source vtag vt ptr owner)
    (helpers : Helpers runtime memory other source dst target bytes.toNat) :
    ¬ OwnsData runtime memory source := by
  rintro ⟨isMemory, found, pointer, -, own⟩
  rcases ((helpers.original isMemory).three_iff pointer own).mp at_.how with ⟨-, different, -⟩
  exact different rfl

theorem owned_commutes {vtag : Usize} {vt ptr owner : Address}
    (at_ : OwnedAt runtime memory source vtag vt ptr owner) (statics : Statics runtime)
    (size : getSoObjectSize runtime memory source = .ok bytes)
    (ran : copy runtime memory source dst = .ok (other, target))
    (fresh : Fresh memory source dst bytes.toNat)
    (helpers : Helpers runtime memory other source dst target bytes.toNat) :
    Carries (Moves source target bytes.toNat) (scanJuliaObject runtime memory fuel source)
      (scanJuliaObject runtime other fuel target) := by
  have free : runtime.genericmemoryHow memory source ≠ 0 := by
    rw [at_.how]
    decide
  have isMemory : IsMemory runtime memory source := ⟨vt, at_.typed.typeof, at_.typed.name⟩
  rcases external_copied at_.typed at_.pointer free statics size ran fresh helpers with ⟨count, copied⟩
  have place_ : target = dst + 8 := (copy_eq size ran).1
  have how : runtime.genericmemoryHow other target = 3 := by
    rcases ((helpers.original isMemory).three_iff at_.pointer at_.owned).mp at_.how with ⟨-, -, some⟩
    rw [copied_how_iff isMemory helpers copied at_.pointer at_.owned, place_]
    refine ⟨mapped_ne_data fresh count at_.pointed, ?_, some⟩
    rintro rfl
    have start : dst + 8 - 8 = dst + 0 := by
      rw [BitVec.add_sub_cancel]
      exact (BitVec.add_zero dst).symm
    apply mapped_ne fresh at_.headed _ start
    rw [count]
    decide
  rcases helpers.owner with ⟨offset, inner, owner_⟩
  have landed : place source target bytes.toNat (source + offset) = target + offset :=
    place_inside (by omega) (Nat.le_of_lt bytes.isLt)
  have typed := copied.datatypeAt at_.typed
  rw [at_.typed.memory_scan_eq statics fuel, typed.memory_scan_eq statics fuel, scanGenericMemory,
    scanGenericMemory, if_pos at_.how, if_pos how, owner_, owner_]
  apply Carries.ok
  rw [Moves, moved, List.map_cons, JuliaVMSlot.relocate, landed]
  rfl

theorem returns_moved {slots : List JuliaVMSlot}
    (carried : Carries (Moves source target bytes.toNat) (scanJuliaObject runtime memory fuel source)
      (scanJuliaObject runtime other fuel target))
    (before : scanJuliaObject runtime memory fuel source = .ok slots) :
    scanJuliaObject runtime other fuel target = .ok (moved source target bytes.toNat slots) := by
  rcases carried slots before with ⟨images, ran, same⟩
  rw [ran, same]

/-- Scanning what copy made reports the slots of the original, moved, and none in the original,
unless the object is a module with usings in its own space or a memory that owns its data. -/
theorem scan_commutes_with_copy_iff {slots : List JuliaVMSlot} (statics : Statics runtime)
    (object : HeapObject runtime memory fuel source bytes.toNat)
    (size : getSoObjectSize runtime memory source = .ok bytes)
    (ran : copy runtime memory source dst = .ok (other, target))
    (fresh : Fresh memory source dst bytes.toNat)
    (helpers : Helpers runtime memory other source dst target bytes.toNat)
    (before : scanJuliaObject runtime memory fuel source = .ok slots) :
    scanJuliaObject runtime other fuel target = .ok (moved source target bytes.toNat slots) ∧
        (∀ slot ∈ moved source target bytes.toNat slots, ¬ Inside source bytes.toNat slot.address) ↔
      ¬ InlineUsings memory source ∧ ¬ OwnsData runtime memory source := by
  have place_ : target = dst + 8 := (copy_eq size ran).1
  have leaves : ∀ slot ∈ moved source target bytes.toNat slots,
      ¬ Inside source bytes.toNat slot.address := by
    rw [place_]
    exact moved_leaves fresh slots
  have fits := fresh.fits
  have room := fresh.room
  rw [and_iff_left leaves]
  cases object with
  | @bits vtag small leaf string =>
      have bound := small.size_bound leaf string statics size
      have copied := small.copy_copied size ran fresh bound
      have different : vtag ≠ moduleTag := by
        intro same
        exact leaf (by simp [same])
      exact iff_of_true (returns_moved (bits_moves statics small leaf copied) before)
        ⟨not_inlineUsings small.tag different, small.not_ownsData⟩
  | vector at_ =>
      have bound := at_.size_bound statics size
      have copied := at_.small.copy_copied size ran fresh (by omega)
      have low : source.toNat + bytes.toNat < 2 ^ 64 := by bv_omega
      have high : target.toNat + bytes.toNat < 2 ^ 64 := by bv_omega
      exact iff_of_true (returns_moved (vector_moves statics at_ bound copied low high) before)
        ⟨not_inlineUsings at_.small.tag (by decide), at_.small.not_ownsData⟩
  | usings at_ =>
      have whole : bytes = 400 := Except.ok.inj (size.symm.trans (module_size statics at_.small))
      have count : bytes.toNat = 400 := by
        rw [whole]
        rfl
      have copied := at_.small.copy_copied size ran fresh (by omega)
      have apart : target ≠ source := by
        rw [place_]
        exact target_ne_source fresh (by omega)
      rw [and_iff_left at_.small.not_ownsData, inlineUsings_iff at_]
      apply module_commutes_iff statics at_ count (copied.weaken (by omega)) apart before
  | task at_ =>
      have whole : bytes = 240 := Except.ok.inj (size.symm.trans (task_size statics at_.small))
      have count : bytes.toNat = 240 := by
        rw [whole]
        rfl
      have copied := at_.small.copy_copied size ran fresh (by omega)
      have exceptions := helpers.exceptions at_.small.tag
      exact iff_of_true (returns_moved
          (task_moves statics at_ count (copied.weaken (by omega)) exceptions) before)
        ⟨not_inlineUsings at_.small.tag (by decide), at_.small.not_ownsData⟩
  | plain at_ =>
      have bound := at_.size_bound statics size
      have copied := plain_copied size ran fresh (by omega) at_.typed.typeof at_.typed.name at_.plain
      exact iff_of_true (returns_moved (plain_moves at_ bound (by omega) copied) before)
        ⟨not_inlineUsings at_.typed.tag at_.typed.not_module,
          fun owns => not_isMemory at_.typed.typeof at_.typed.name at_.plain owns.1⟩
  | inlined at_ =>
      exact iff_of_true (returns_moved (inlined_commutes at_ statics size ran fresh helpers) before)
        ⟨not_inlineUsings at_.whole.typetag at_.whole.typed.not_module, at_.not_ownsData⟩
  | @external _ _ _ owner _ _ at_ =>
      rw [and_iff_right (not_inlineUsings at_.whole.typetag at_.whole.typed.not_module),
        at_.ownsData_iff helpers]
      by_cases own : owner = source
      · rcases owner_left_behind at_ statics size ran fresh helpers own before with ⟨after, absent⟩
        rw [after]
        refine iff_of_false ?_ (fun other_ => other_ own)
        intro same
        apply absent
        rw [← Except.ok.inj same]
        exact List.mem_singleton_self _
      · exact iff_of_true
          (returns_moved (external_commutes at_ statics size ran fresh helpers own) before) own
  | owned at_ =>
      exact iff_of_true (returns_moved (owned_commutes at_ statics size ran fresh helpers) before)
        ⟨not_inlineUsings at_.typed.tag at_.typed.not_module, at_.not_ownsData helpers⟩

end Outcomes

def scanCopy (runtime : Runtime) (memory : Memory) (fuel : Nat) (source dst : Address) : Scan := do
  let (other, target) ← copy runtime memory source dst
  scanJuliaObject runtime other fuel target

theorem sampleRuntime_statics : Statics sampleRuntime := by
  constructor <;> decide

theorem pairMemory_fresh : Fresh (pairMemory 2 0x10000) 0x10000 0x20008 48 where
  unmapped := by
    intro address inside
    have low : ∀ word ∈ pairWords 2 0x10000, word.1.toNat + 8 ≤ 0x11000 := by
      simp [pairWords]
    apply Memory.ofWords_above low
    rw [Memory.Within] at inside
    bv_omega
  apart := by
    intro address inside there
    rw [Memory.Within] at inside
    rw [Inside, Memory.Within] at there
    bv_omega
  fits := by decide
  room := by decide

theorem narrowPair_inlined :
    InlinedAt sampleRuntime (pairMemory 2 0x10000) 0x10000 0x2000 0x3000 1 narrowPair.toLayout where
  whole := pairMemory_at 2 0x10000 (.inl ⟨rfl, rfl⟩)
  stored := narrowPair_at
  data := ⟨by decide, fun _ _ => ⟨narrowPair, rfl⟩⟩
  how := by decide +kernel
  bound := by decide

theorem sampleRuntime_rule (memory : Memory) (m : Address) : HowRule sampleRuntime memory m where
  inlined := fun pointer => if_pos (load_of_loadU64 pointer)
  elsewhere := by
    intro ptr owner pointer elsewhere owned
    have data := load_of_loadU64 pointer
    have field : memory.load (m + 16) 8 = some owner := load_of_loadU64 owned
    have away : memory.load (m + 8) 8 ≠ some (m + 16) := by
      rw [data]
      exact fun same => elsewhere (Option.some.inj same)
    change (if memory.load (m + 8) 8 = some (m + 16) then (0 : Usize)
      else if memory.load (m + 16) 8 = some m then 1
      else if memory.load (m + 16) 8 = some 0 then 2 else 3) = _
    rw [if_neg away, field]
    simp only [Option.some.injEq]

theorem sampleRuntime_rebase {memory : Memory} {source target : Address}
    (inlined : memory.load (source + 8) 8 = some (source + 16)) :
    sampleRuntime.updateInlinedArray memory source target =
      @Memory.store memory (target + 8) 8 (target + 16) := if_pos inlined

theorem pairMemory_helpers (other : Memory) :
    Helpers sampleRuntime (pairMemory 2 0x10000) other 0x10000 0x20008 0x20010 48 where
  owner := ⟨16, by decide, fun _ => rfl⟩
  original := fun _ => sampleRuntime_rule _ _
  image := fun _ => sampleRuntime_rule _ _
  rebase := by
    intro _ ptr read
    have pointer : loadU64 (pairMemory 2 0x10000) (0x10000 + 8) = .ok 0x10010 := by decide +kernel
    have same : ptr = 0x10010 := Except.ok.inj (read.symm.trans pointer)
    have kept : (afterMemcpy (pairMemory 2 0x10000) 0x10000 0x20008 48).load (0x10000 + 8) 8 =
        some (0x10000 + 16) := by decide +kernel
    have how : sampleRuntime.genericmemoryHow (pairMemory 2 0x10000) 0x10000 = 0 := by decide +kernel
    rw [if_pos how, same]
    exact sampleRuntime_rebase kept
  exceptions := fun _ => rfl

/-- A memory with two pointers inlined, moved by 0x10010. -/
theorem scan_commutes_with_copy_iff_pair :
    scanCopy sampleRuntime (pairMemory 2 0x10000) 0 0x10000 0x20008 =
      .ok [.simple 0x20020, .simple 0x20028] := by
  have size : getSoObjectSize sampleRuntime (pairMemory 2 0x10000) 0x10000 = .ok 48 := by
    decide +kernel
  have before : scanJuliaObject sampleRuntime (pairMemory 2 0x10000) 0 0x10000 =
      .ok [.simple 0x10010, .simple 0x10018] := by decide +kernel
  have tag : mmtkJlTypetagof (pairMemory 2 0x10000) 0x10000 = .ok 0x2000 := by decide +kernel
  have copies : (copy sampleRuntime (pairMemory 2 0x10000) 0x10000 0x20008).toBool = true := by
    decide +kernel
  cases ran : copy sampleRuntime (pairMemory 2 0x10000) 0x10000 0x20008 with
  | error fault =>
      rw [ran] at copies
      cases copies
  | ok outcome =>
      rcases outcome with ⟨other, target⟩
      have place_ : target = 0x20010 := (copy_eq size ran).1
      rw [place_] at ran
      have after := (scan_commutes_with_copy_iff sampleRuntime_statics (.inlined narrowPair_inlined)
        size ran pairMemory_fresh (pairMemory_helpers other) before).mpr
          ⟨not_inlineUsings tag (by decide), narrowPair_inlined.not_ownsData⟩
      have moves : moved 0x10000 0x20010 48 [.simple 0x10010, .simple 0x10018] =
          [.simple 0x20020, .simple 0x20028] := by decide +kernel
      rw [scanCopy, ran, ← moves]
      exact after.1

/-- A module at 0x10000 with one using in its own space. -/
def usingsMemory : Memory := .ofWords [
  (0xfff8, 0x80), (0x10000, 0), (0x10008, 0), (0x10010, 0), (0x10018, 0), (0x10030, 0), (0x10038, 0),
  (0x10040, 1), (0x10048, 29), (0x10050, 0x10058), (0x10058, 0x30000), (0, 0x900)]

/-- The copy keeps the address of the list in the original, and the scan of the copy follows it. -/
theorem inlined_usings_left_behind :
    InlineUsings usingsMemory 0x10000 ∧
      scanJuliaObject sampleRuntime usingsMemory 0 0x10000 = .ok [.simple 0x10010, .simple 0x10018,
        .simple 0x10008, .simple 0x10030, .simple 0x10038, .offset 0x10050 88, .simple 0x10058] ∧
      scanCopy sampleRuntime usingsMemory 0 0x10000 0x20008 = .ok [.simple 0x20020, .simple 0x20028,
        .simple 0x20018, .simple 0x20040, .simple 0x20048, .offset 0x20060 88, .simple 0x10058] ∧
      scanCopy sampleRuntime usingsMemory 0 0x10000 0x20008 ≠
        .ok (moved 0x10000 0x20010 400 [.simple 0x10010, .simple 0x10018, .simple 0x10008,
          .simple 0x10030, .simple 0x10038, .offset 0x10050 88, .simple 0x10058]) ∧
      Inside 0x10000 400 0x10058 := by
  refine ⟨⟨?_, ?_, 1, ?_, ?_⟩, ?_, ?_, ?_, ?_⟩
  all_goals decide +kernel

/-- The memory with two pointers, now at 0x30000 and its own. -/
def ownerMemory : Memory :=
  .ofWords ((0x10008, 0x30000) :: (0x10010, 0x10000) :: (0x30000, 0) :: (0x30008, 0) :: pairWords 2 0x10000)

-- the copy takes the original for the owner of the two pointers, and reports that alone
example : OwnsData sampleRuntime ownerMemory 0x10000 ∧
    scanJuliaObject sampleRuntime ownerMemory 0 0x10000 = .ok [.simple 0x30000, .simple 0x30008] ∧
    scanCopy sampleRuntime ownerMemory 0 0x10000 0x20008 = .ok [.simple 0x20020] := by
  refine ⟨⟨⟨0x2000, ?_, ?_⟩, 0x30000, ?_, ?_, ?_⟩, ?_, ?_⟩
  all_goals decide +kernel

end MmtkJulia.Scanning
