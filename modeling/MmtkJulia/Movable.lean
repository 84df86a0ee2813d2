import MmtkJulia.CopyCommutes
import MmtkJulia.MemoryRefs

/-! The objects whose slots lie in them, and what of them a copy has to keep. Their types lie in
memory that is not moved. -/

namespace MmtkJulia.Scanning

/-- What the C helpers do with a memory: how tells by the pointer whether the data follows the
header, and the pointer to such data is rebased for a copy. -/
structure InlinedHelpers (runtime : Runtime) : Prop where
  how : ∀ memory m ptr, loadU64 memory (m + 8) = .ok ptr →
    (runtime.genericmemoryHow memory m = 0 ↔ ptr = m + 16)
  rebase : ∀ memory m target, loadU64 memory (m + 8) = .ok (m + 16) →
    runtime.updateInlinedArray memory m target = @Memory.store memory (target + 8) 8 (target + 16)

section Types

variable (runtime : Runtime) (types : Memory)

structure SmallTag (vtag : Usize) : Prop where
  small : vtag < maxTags
  special : vtag ∉ structTags
  named : ∃ name, datatypeName types (runtime.smallTypeof (vtag / 8).toNat) = .ok name ∧
    name ≠ runtime.genericmemoryTypename

structure DatatypeTag (vtag : Usize) (vt name : Address) : Prop where
  symbol : vtag ≠ runtime.symbolType
  buffer : vtag ≠ runtime.buffTag
  datatype : vtag ∈ structTags ∧ vt = runtime.smallTypeof (vtag / 8).toNat ∨
    ¬ vtag < maxTags ∧ vt = vtag ∧ checkDatatype types vtag = .ok ()
  name : datatypeName types vt = .ok name

structure PlainType (vtag : Usize) (vt name address : Address) (layout : Layout) : Prop where
  tag : DatatypeTag runtime types vtag vt name
  plain : name ≠ runtime.genericmemoryTypename
  described : datatypeLayout types vt = .ok address
  stored : LayoutAt types address layout
  known : layout.fielddescType ≤ 2
  inner : ∀ pointer ∈ layout.pointers, 8 * pointer.toNat + 8 ≤ layout.size.toNat
  once : layout.pointers.Nodup
  array : name = runtime.arrayTypename → 16 ≤ layout.size.toNat

structure MemoryType (vt address : Address) (layout : Layout) : Prop where
  tag : DatatypeTag runtime types vt vt runtime.genericmemoryTypename
  large : ¬ vt < maxTags
  array : runtime.genericmemoryTypename ≠ runtime.arrayTypename
  described : datatypeLayout types vt = .ok address
  stored : LayoutAt types address layout
  data : DataLayout layout
  once : layout.pointers.Nodup

/-- An object with the slots that its scan reports, all of them in the object. -/
inductive Movable (memory : Memory) (obj : Address) : List JuliaVMSlot → Prop
  | bits {vtag : Usize} {size : Usize} (tag : mmtkJlTypetagof memory obj = .ok vtag)
      (type : SmallTag runtime types vtag) (leaf : vtag ∉ [simplevectorTag, moduleTag, taskTag])
      (other : vtag ≠ stringTag)
      (sized : plainSize runtime types (runtime.smallTypeof (vtag / 8).toNat) = .ok size) :
      Movable memory obj []
  | string {length : Usize} (tag : mmtkJlTypetagof memory obj = .ok stringTag)
      (type : SmallTag runtime types stringTag) (counted : loadU64 memory obj = .ok length)
      (bound : length.toNat + 17 ≤ 2032) :
      Movable memory obj []
  | vector {length : Usize} (tag : mmtkJlTypetagof memory obj = .ok simplevectorTag)
      (type : SmallTag runtime types simplevectorTag) (counted : loadU64 memory obj = .ok length)
      (bound : 8 * length.toNat + 16 ≤ 2032) :
      Movable memory obj (slotsAt (obj + 8) (wordOffsets length.toNat))
  | weak {vtag : Usize} {name address : Address} {layout : Layout}
      (tag : mmtkJlTypetagof memory obj = .ok vtag)
      (type : PlainType runtime types vtag runtime.weakrefType name address layout)
      (other : name ≠ runtime.arrayTypename) :
      Movable memory obj []
  | plain {vtag : Usize} {vt name address : Address} {layout : Layout}
      (tag : mmtkJlTypetagof memory obj = .ok vtag)
      (type : PlainType runtime types vtag vt name address layout)
      (strong : vt ≠ runtime.weakrefType) (other : name ≠ runtime.arrayTypename) :
      Movable memory obj (pointerSlots layout.pointers obj)
  | array {vtag : Usize} {vt address ptrOrOffset mem : Address} {layout : Layout}
      (tag : mmtkJlTypetagof memory obj = .ok vtag)
      (type : PlainType runtime types vtag vt runtime.arrayTypename address layout)
      (strong : vt ≠ runtime.weakrefType) (raw : 0 ∉ layout.pointers)
      (ptr : loadU64 memory obj = .ok ptrOrOffset) (ref : loadU64 memory (obj + 8) = .ok mem) :
      Movable memory obj
        (refSlots runtime runtime.arrayTypename obj ptrOrOffset mem layout.pointers)
  | inlined {vt address : Address} {length : Usize} {layout : Layout}
      (tag : mmtkJlTypetagof memory obj = .ok vt) (type : MemoryType runtime types vt address layout)
      (counted : loadU64 memory obj = .ok length) (data : loadU64 memory (obj + 8) = .ok (obj + 16))
      (bound : layout.size.toNat * length.toNat +
        (if arrayelemIsunion layout.flags then length.toNat else 0) + 24 ≤ 2032)
      (decoded : ¬ (length ≠ 0 ∧ Undecoded layout)) :
      Movable memory obj (slotsAt (obj + 16) (dataOffsets layout length.toNat))

end Types

section At

variable {runtime : Runtime} {types memory : Memory} {obj : Address}

theorem SmallTag.at {vtag : Usize} (type : SmallTag runtime types vtag) (kept : types.Extends memory)
    (tag : mmtkJlTypetagof memory obj = .ok vtag) : SmallAt runtime memory obj vtag := by
  rcases type.named with ⟨name, read, different⟩
  exact ⟨tag, type.small, type.special, name, (loadU64_kept kept _).returns read, different⟩

theorem DatatypeTag.checked {vtag : Usize} {vt name : Address}
    (type : DatatypeTag runtime types vtag vt name) (large : ¬ vtag < maxTags) :
    checkDatatype types vtag = .ok () := by
  rcases type.datatype with ⟨struct, -⟩ | ⟨-, -, checked⟩
  · exact absurd (structTags_small vtag struct) large
  · exact checked

theorem DatatypeTag.at {vtag : Usize} {vt name : Address}
    (type : DatatypeTag runtime types vtag vt name) (kept : types.Extends memory)
    (tag : mmtkJlTypetagof memory obj = .ok vtag) : DatatypeAt runtime memory obj vtag vt name where
  tag := tag
  symbol := type.symbol
  buffer := type.buffer
  datatype := by
    rcases type.datatype with struct | ⟨large, same, checked⟩
    · exact .inl struct
    · exact .inr ⟨large, same, (checkDatatype_kept kept vtag).returns checked⟩
  name := (loadU64_kept kept vt).returns type.name

theorem PlainType.at {vtag : Usize} {vt name address : Address} {layout : Layout}
    (type : PlainType runtime types vtag vt name address layout) (kept : types.Extends memory)
    (tag : mmtkJlTypetagof memory obj = .ok vtag) :
    PlainAt runtime memory obj vtag vt name address layout where
  typed := type.tag.at kept tag
  plain := type.plain
  described := (loadU64_kept kept _).returns type.described
  stored := type.stored.kept kept
  known := type.known
  inner := by
    intro pointer present
    have whole := type.inner pointer present
    omega
  array := type.array

theorem MemoryType.at {vt address : Address} {length : Usize} {layout : Layout}
    (type : MemoryType runtime types vt address layout) (helpers : InlinedHelpers runtime)
    (kept : types.Extends memory) (tag : mmtkJlTypetagof memory obj = .ok vt)
    (counted : loadU64 memory obj = .ok length) (data : loadU64 memory (obj + 8) = .ok (obj + 16))
    (bound : layout.size.toNat * length.toNat +
      (if arrayelemIsunion layout.flags then length.toNat else 0) + 24 ≤ 2032) :
    InlinedAt runtime memory obj vt address length layout := by
  have typed := type.tag.at kept tag
  have how : runtime.genericmemoryHow memory obj = 0 := (helpers.how memory obj _ data).mpr rfl
  refine ⟨⟨tag, typed.symbol, typed.buffer, type.large, ?_, typed.name, type.array, ?_, ?_, counted,
    data⟩, type.stored.kept kept, type.data, how, bound⟩
  · exact (checkDatatype_kept kept vt).returns (type.tag.checked type.large)
  · exact (loadU64_kept kept _).returns type.described
  · rw [how]
    decide

end At

/-- A movable object in the lower half of the address space. -/
structure Placed (runtime : Runtime) (types memory : Memory) (obj : Address) (bytes : Usize)
    (slots : List JuliaVMSlot) : Prop where
  movable : Movable runtime types memory obj slots
  size : getSoObjectSize runtime memory obj = .ok bytes
  low : (obj - 8).toNat + bytes.toNat ≤ 2 ^ 63

def Typed (runtime : Runtime) (memory : Memory) (obj : Address) (bytes : Nat) : Prop :=
  ∃ vt name, mmtkJlTypeof runtime memory obj = .ok vt ∧ datatypeName memory vt = .ok name ∧
    (name = runtime.genericmemoryTypename →
      loadU64 memory (obj + 8) = .ok (obj + 16) ∧ 24 ≤ bytes)

def OffsetsApart (offsets : List Address) : Prop :=
  offsets.Pairwise (fun first second =>
    first.toNat + 8 ≤ second.toNat ∨ second.toNat + 8 ≤ first.toNat)

section Offsets

variable {base : Address} {payload : Nat}

theorem slotsAt_apart {offsets : List Address} (fits : base.toNat + payload ≤ 2 ^ 64)
    (inner : ∀ offset ∈ offsets, offset.toNat + 8 ≤ payload) (apart : OffsetsApart offsets) :
    (slotsAt base offsets).Pairwise (fun slot other => Apart slot.address other.address) := by
  apply List.pairwise_map.mpr
  apply List.Pairwise.imp_of_mem _ apart
  intro first second member present beside
  have lower := inner first member
  have upper := inner second present
  rw [JuliaVMSlot.address_simple, JuliaVMSlot.address_simple, Apart, BitVec.toNat_sub,
    BitVec.toNat_sub, BitVec.toNat_add, BitVec.toNat_add]
  omega

theorem wordOffsets_apart {count : Nat} (bound : 8 * count < 2 ^ 64) :
    OffsetsApart (wordOffsets count) := by
  apply List.pairwise_map.mpr
  apply List.pairwise_lt_range.imp_of_mem
  intro i j first second less
  have below := List.mem_range.mp second
  left
  rw [BitVec.toNat_mul, BitVec.toNat_mul, BitVec.toNat_ofNat, BitVec.toNat_ofNat, eight_toNat]
  omega

theorem pointerOffsets_apart {pointers : List Usize}
    (inner : ∀ pointer ∈ pointers, 8 * pointer.toNat + 8 ≤ payload) (fits : payload ≤ 2 ^ 64)
    (once : pointers.Nodup) : OffsetsApart (pointers.map (fun pointer => 8 * pointer)) := by
  apply List.pairwise_map.mpr
  apply List.Pairwise.imp_of_mem _ once
  intro first second member present distinct
  have lower := inner first member
  have upper := inner second present
  have different : first.toNat ≠ second.toNat := fun same => distinct (BitVec.eq_of_toNat_eq same)
  rw [BitVec.toNat_mul, BitVec.toNat_mul, eight_toNat]
  omega

theorem elementOffset_toNat {layout : Layout} {i : Nat} {pointer : Usize} (positive : 0 < layout.size.toNat)
    (inner : 8 * pointer.toNat + 8 ≤ layout.size.toNat)
    (bound : layout.size.toNat * (i + 1) < 2 ^ 64) :
    (BitVec.ofNat 64 i * layout.size.setWidth 64 + 8 * pointer : Address).toNat =
      layout.size.toNat * i + 8 * pointer.toNat := by
  have small := layout.size.isLt
  have wide : (layout.size.setWidth 64 : Address).toNat = layout.size.toNat := by
    rw [BitVec.toNat_setWidth]
    omega
  rw [Nat.mul_succ] at bound
  have index : i ≤ layout.size.toNat * i := Nat.le_mul_of_pos_left _ positive
  have narrow : i < 2 ^ 64 := by omega
  have product : (BitVec.ofNat 64 i * layout.size.setWidth 64).toNat = layout.size.toNat * i := by
    rw [BitVec.toNat_mul, BitVec.toNat_ofNat, wide, Nat.mod_eq_of_lt narrow, Nat.mul_comm]
    exact Nat.mod_eq_of_lt (by omega)
  rw [BitVec.toNat_add, product, BitVec.toNat_mul, eight_toNat]
  omega

theorem dataOffsets_apart {layout : Layout} {count : Nat} (data : DataLayout layout)
    (once : layout.pointers.Nodup) (bound : layout.size.toNat * count < 2 ^ 64) :
    OffsetsApart (dataOffsets layout count) := by
  rw [dataOffsets]
  by_cases boxed : arrayelemIsboxed layout.flags = true
  · have size : layout.size.toNat = 8 := by
      rw [data.boxed boxed]
      rfl
    rw [if_pos boxed]
    rw [size] at bound
    exact wordOffsets_apart bound
  rw [if_neg boxed]
  by_cases pointers : 0 ≤ layout.firstPtr.toInt
  · rw [if_pos pointers]
    rcases data.struct (Bool.eq_false_of_not_eq_true boxed) pointers with ⟨element, rfl⟩
    have inner : ∀ pointer ∈ element.pointers, 8 * pointer.toNat + 8 ≤ element.size.toNat := by
      intro pointer present
      have below := element.inside pointer present
      have aligned := element.aligned
      omega
    have place_ : ∀ i, i < count → ∀ pointer ∈ element.pointers,
        (BitVec.ofNat 64 i * element.size.setWidth 64 + 8 * pointer : Address).toNat =
          element.size.toNat * i + 8 * pointer.toNat := by
      intro i below pointer present
      have whole := inner pointer present
      have step : element.size.toNat * (i + 1) ≤ element.size.toNat * count :=
        Nat.mul_le_mul_left _ below
      exact elementOffset_toNat (by omega) whole (by omega)
    rw [OffsetsApart, List.pairwise_flatMap]
    constructor
    · intro i member
      have below := List.mem_range.mp member
      apply List.pairwise_map.mpr
      apply List.Pairwise.imp_of_mem _ once
      intro first second here there distinct
      have different : first.toNat ≠ second.toNat :=
        fun same => distinct (BitVec.eq_of_toNat_eq same)
      rw [place_ i below first here, place_ i below second there]
      omega
    · apply List.pairwise_lt_range.imp_of_mem
      intro i j first second less offset here other there
      rcases List.mem_map.mp here with ⟨pointer, present, rfl⟩
      rcases List.mem_map.mp there with ⟨later, listed, rfl⟩
      have whole := inner pointer present
      have step : element.size.toNat * (i + 1) ≤ element.size.toNat * j :=
        Nat.mul_le_mul_left _ less
      rw [Nat.mul_succ] at step
      rw [place_ i (List.mem_range.mp first) pointer present,
        place_ j (List.mem_range.mp second) later listed]
      omega
  · rw [if_neg pointers]
    exact List.Pairwise.nil

end Offsets

section Object

variable {runtime : Runtime} {types memory : Memory} {obj : Address} {bytes : Usize}
  {slots : List JuliaVMSlot}

theorem array_scan {vtag : Usize} {vt address ptrOrOffset mem : Address} {layout : Layout}
    (at_ : PlainAt runtime memory obj vtag vt runtime.arrayTypename address layout)
    (strong : vt ≠ runtime.weakrefType) (ptr : loadU64 memory obj = .ok ptrOrOffset)
    (ref : loadU64 memory (obj + 8) = .ok mem) (fuel : Nat) :
    scanJuliaObject runtime memory fuel obj =
      .ok (refSlots runtime runtime.arrayTypename obj ptrOrOffset mem layout.pointers) := by
  have interior : scanArrayRef runtime memory obj =
      .ok (if Reported runtime runtime.arrayTypename ptrOrOffset mem then
        [.offset obj (ptrOrOffset - mem)] else []) := by
    simp only [scanArrayRef, ptr, ref, bind, Except.bind, Reported, true_and]
    split_ifs <;> rfl
  rw [at_.scan_eq fuel, if_pos rfl, if_neg strong, interior]
  rfl

theorem string_size_bound {length : Usize} (statics : Statics runtime)
    (small : SmallAt runtime memory obj stringTag) (counted : loadU64 memory obj = .ok length)
    (bound : length.toNat + 17 ≤ 2032) (size : getSoObjectSize runtime memory obj = .ok bytes) :
    16 ≤ bytes.toNat := by
  rcases string_rounded statics small counted (by omega) with ⟨total, same, rounded⟩
  have equal : bytes = total := Except.ok.inj (size.symm.trans same)
  have enough := rounded.enough
  rw [equal]
  omega

theorem Placed.scan_eq (placed : Placed runtime types memory obj bytes slots) (statics : Statics runtime)
    (helpers : InlinedHelpers runtime) (kept : types.Extends memory) (fuel : Nat) :
    scanJuliaObject runtime memory fuel obj = .ok slots := by
  have low := placed.low
  have size := placed.size
  cases placed.movable with
  | bits tag type leaf other sized => exact (type.at kept tag).scan_leaf statics leaf fuel
  | string tag type counted bound => exact (type.at kept tag).scan_leaf statics (by decide) fuel
  | vector tag type counted bound =>
      have at_ : VectorAt runtime memory obj _ := ⟨type.at kept tag, counted, bound⟩
      have enough := at_.size_bound statics size
      exact at_.small.scan_vector statics counted (by bv_omega) fuel
  | weak tag type other =>
      rw [(type.at kept tag).scan_eq fuel, if_neg other, if_pos rfl]
      rfl
  | plain tag type strong other =>
      rw [(type.at kept tag).scan_eq fuel, if_neg other, if_neg strong]
      rfl
  | array tag type strong raw ptr ref => exact array_scan (type.at kept tag) strong ptr ref fuel
  | inlined tag type counted data bound decoded =>
      have at_ := type.at helpers kept tag counted data bound
      have enough := at_.size_bound statics size
      rw [at_.whole.scan_eq fuel, at_.whole.data_eq at_.stored at_.data (by bv_omega), if_neg decoded]

theorem Placed.typed (placed : Placed runtime types memory obj bytes slots) (statics : Statics runtime)
    (helpers : InlinedHelpers runtime) (kept : types.Extends memory) :
    Typed runtime memory obj bytes.toNat := by
  have size := placed.size
  have struct : ∀ {vtag vt name address layout}, mmtkJlTypetagof memory obj = .ok vtag →
      PlainType runtime types vtag vt name address layout → Typed runtime memory obj bytes.toNat := by
    intro vtag vt name address layout tag type
    have typed := type.tag.at kept tag
    exact ⟨vt, name, typed.typeof, typed.name, fun memory_ => absurd memory_ type.plain⟩
  have tagged : ∀ {vtag}, mmtkJlTypetagof memory obj = .ok vtag → SmallTag runtime types vtag →
      Typed runtime memory obj bytes.toNat := by
    intro vtag tag type
    have small := type.at kept tag
    rcases small.named with ⟨name, read, different⟩
    exact ⟨_, name, small.typeof, read, fun memory_ => absurd memory_ different⟩
  cases placed.movable with
  | bits tag type leaf other sized => exact tagged tag type
  | string tag type counted bound => exact tagged tag type
  | vector tag type counted bound => exact tagged tag type
  | weak tag type other => exact struct tag type
  | plain tag type strong other => exact struct tag type
  | array tag type strong raw ptr ref => exact struct tag type
  | inlined tag type counted data bound decoded =>
      have at_ := type.at helpers kept tag counted data bound
      have enough := at_.size_bound statics size
      have typed := type.tag.at kept tag
      exact ⟨_, _, typed.typeof, typed.name, fun _ => ⟨data, by omega⟩⟩

theorem PlainType.not_isMemory {vtag : Usize} {vt name address : Address} {layout : Layout}
    (type : PlainType runtime types vtag vt name address layout) (kept : types.Extends memory)
    (tag : mmtkJlTypetagof memory obj = .ok vtag) : ¬ IsMemory runtime memory obj := by
  have typed := type.tag.at kept tag
  exact Scanning.not_isMemory typed.typeof typed.name type.plain

theorem SmallTag.not_isMemory {vtag : Usize} (type : SmallTag runtime types vtag)
    (kept : types.Extends memory) (tag : mmtkJlTypetagof memory obj = .ok vtag) :
    ¬ IsMemory runtime memory obj := by
  have small := type.at kept tag
  rcases small.named with ⟨name, read, different⟩
  exact Scanning.not_isMemory small.typeof read different

/-- A slot is a word of the object, behind the header of a memory. -/
def SlotWithin (runtime : Runtime) (memory : Memory) (obj : Address) (bytes : Nat)
    (slot : JuliaVMSlot) : Prop :=
  ∃ offset : Address, slot.address = obj + offset ∧ offset.toNat + 16 ≤ bytes ∧
    (IsMemory runtime memory obj → 16 ≤ offset.toNat)

theorem PlainType.slots_within {vtag : Usize} {vt name address : Address} {layout : Layout}
    (type : PlainType runtime types vtag vt name address layout) (statics : Statics runtime)
    (kept : types.Extends memory) (tag : mmtkJlTypetagof memory obj = .ok vtag)
    (size : getSoObjectSize runtime memory obj = .ok bytes) :
    ∀ slot ∈ pointerSlots layout.pointers obj, SlotWithin runtime memory obj bytes.toNat slot := by
  have enough := (type.at kept tag).size_bound statics size
  intro slot member
  rcases List.mem_map.mp member with ⟨pointer, present, rfl⟩
  have whole := type.inner pointer present
  refine ⟨8 * pointer, rfl, ?_, fun isMemory => absurd isMemory (type.not_isMemory kept tag)⟩
  rw [BitVec.toNat_mul, eight_toNat]
  omega

theorem Placed.slot_within (placed : Placed runtime types memory obj bytes slots)
    (statics : Statics runtime) (helpers : InlinedHelpers runtime) (kept : types.Extends memory) :
    ∀ slot ∈ slots, SlotWithin runtime memory obj bytes.toNat slot := by
  have size := placed.size
  have eight : (8 : Address).toNat = 8 := rfl
  have sixteen : (16 : Address).toNat = 16 := rfl
  cases placed.movable with
  | bits tag type leaf other sized => exact List.forall_mem_nil _
  | string tag type counted bound => exact List.forall_mem_nil _
  | @vector length tag type counted bound =>
      have at_ : VectorAt runtime memory obj length := ⟨type.at kept tag, counted, bound⟩
      have enough := at_.size_bound statics size
      intro slot member
      rcases List.mem_map.mp member with ⟨offset, present, rfl⟩
      have inner := mem_wordOffsets present
      refine ⟨8 + offset, BitVec.add_assoc _ _ _, ?_,
        fun isMemory => absurd isMemory (type.not_isMemory kept tag)⟩
      rw [BitVec.toNat_add]
      omega
  | weak tag type other => exact List.forall_mem_nil _
  | plain tag type strong other => exact type.slots_within statics kept tag size
  | array tag type strong raw ptr ref =>
      have enough := (type.at kept tag).size_bound statics size
      have words := type.array rfl
      intro slot member
      rcases List.mem_append.mp member with interior | listed
      · split_ifs at interior
        · rw [List.mem_singleton.mp interior]
          refine ⟨0, (BitVec.add_zero obj).symm, ?_,
            fun isMemory => absurd isMemory (type.not_isMemory kept tag)⟩
          have zero : (0 : Address).toNat = 0 := rfl
          omega
        · cases interior
      · exact type.slots_within statics kept tag size slot listed
  | @inlined vt address length layout tag type counted data bound decoded =>
      have at_ := type.at helpers kept tag counted data bound
      have enough := at_.size_bound statics size
      intro slot member
      rcases List.mem_map.mp member with ⟨offset, present, rfl⟩
      have inner := mem_dataOffsets type.data (by omega) present
      have place_ : (16 + offset : Address).toNat = 16 + offset.toNat := by
        rw [BitVec.toNat_add]
        omega
      refine ⟨16 + offset, BitVec.add_assoc _ _ _, ?_, fun _ => ?_⟩
      · omega
      · omega

theorem PlainType.slots_apart {vtag : Usize} {vt name address : Address} {layout : Layout}
    (type : PlainType runtime types vtag vt name address layout)
    (fits : obj.toNat + layout.size.toNat ≤ 2 ^ 64) :
    (pointerSlots layout.pointers obj).Pairwise
      (fun slot other => Apart slot.address other.address) := by
  have small := layout.size.isLt
  rw [pointerSlots_eq]
  apply slotsAt_apart fits
  · intro offset member
    rcases List.mem_map.mp member with ⟨pointer, present, rfl⟩
    have whole := type.inner pointer present
    rw [BitVec.toNat_mul, eight_toNat]
    omega
  · exact pointerOffsets_apart type.inner (by omega) type.once

theorem Placed.slots_apart (placed : Placed runtime types memory obj bytes slots)
    (statics : Statics runtime) (helpers : InlinedHelpers runtime) (kept : types.Extends memory) :
    slots.Pairwise (fun slot other => Apart slot.address other.address) := by
  have size := placed.size
  have low := placed.low
  cases placed.movable with
  | bits tag type leaf other sized => exact List.Pairwise.nil
  | string tag type counted bound => exact List.Pairwise.nil
  | @vector length tag type counted bound =>
      have at_ : VectorAt runtime memory obj length := ⟨type.at kept tag, counted, bound⟩
      have enough := at_.size_bound statics size
      have room : (obj + 8).toNat + 8 * length.toNat ≤ 2 ^ 64 := by bv_omega
      exact slotsAt_apart room (fun _ => mem_wordOffsets) (wordOffsets_apart (by omega))
  | weak tag type other => exact List.Pairwise.nil
  | plain tag type strong other =>
      have enough := (type.at kept tag).size_bound statics size
      exact type.slots_apart (by bv_omega)
  | @array vtag vt address ptrOrOffset mem layout tag type strong raw ptr ref =>
      have enough := (type.at kept tag).size_bound statics size
      have words := type.array rfl
      have zero : (0 : Usize).toNat = 0 := rfl
      apply List.pairwise_append.mpr
      refine ⟨?_, type.slots_apart (by bv_omega), ?_⟩
      · split_ifs
        · exact List.pairwise_singleton _ _
        · exact List.Pairwise.nil
      · intro slot interior other listed
        rcases List.mem_map.mp listed with ⟨pointer, present, rfl⟩
        have whole := type.inner pointer present
        have distinct : (0 : Usize) ≠ pointer := fun same => raw (same ▸ present)
        have apart : Apart (shift obj 0) (shift obj pointer) :=
          shift_apart (by bv_omega) (by omega) whole distinct
        rw [shift_zero] at apart
        split_ifs at interior
        · rw [List.mem_singleton.mp interior]
          exact apart
        · cases interior
  | @inlined vt address length layout tag type counted data bound decoded =>
      have at_ := type.at helpers kept tag counted data bound
      have enough := at_.size_bound statics size
      have room : (obj + 16).toNat + layout.size.toNat * length.toNat ≤ 2 ^ 64 := by bv_omega
      exact slotsAt_apart room (fun _ => mem_dataOffsets type.data (by omega))
        (dataOffsets_apart type.data type.once (by omega))

end Object

/-! What an object and its copy have in common. -/

def images (source target : Address) (slots : List JuliaVMSlot) : List JuliaVMSlot :=
  slots.map (JuliaVMSlot.relocate (· + (target - source)))

/-- The words that the type, the size and the slots of an object depend on. -/
structure Resembles (runtime : Runtime) (memory other : Memory) (source target : Address)
    (bytes : Nat) : Prop where
  header : loadU64 other (target - 8) = loadU64 memory (source - 8)
  first : 16 ≤ bytes → loadU64 other target = loadU64 memory source
  second : 24 ≤ bytes → ¬ IsMemory runtime memory source →
    loadU64 other (target + 8) = loadU64 memory (source + 8)
  data : IsMemory runtime memory source → loadU64 memory (source + 8) = .ok (source + 16) →
    loadU64 other (target + 8) = .ok (target + 16)

section Images

variable {source target : Address}

theorem add_moved (offset : Address) : source + offset + (target - source) = target + offset := by
  bv_omega

theorem images_slotsAt (start : Address) (offsets : List Address) :
    images source target (slotsAt (source + start) offsets) = slotsAt (target + start) offsets := by
  rw [images, slotsAt, slotsAt, List.map_map]
  apply List.map_congr_left
  intro offset _
  have place_ : source + start + offset + (target - source) = target + start + offset := by
    rw [BitVec.add_assoc source, BitVec.add_assoc target]
    exact add_moved _
  exact congrArg JuliaVMSlot.simple place_

theorem images_pointerSlots (pointers : List Usize) :
    images source target (pointerSlots pointers source) = pointerSlots pointers target := by
  have start : images source target (slotsAt (source + 0) (pointers.map (fun pointer => 8 * pointer))) =
      slotsAt (target + 0) (pointers.map (fun pointer => 8 * pointer)) := images_slotsAt _ _
  have here : source + 0 = source := BitVec.add_zero _
  have there : target + 0 = target := BitVec.add_zero _
  rw [here, there] at start
  rw [pointerSlots_eq, pointerSlots_eq]
  exact start

theorem images_refSlots {runtime : Runtime} {name ptrOrOffset mem : Address} (pointers : List Usize) :
    images source target (refSlots runtime name source ptrOrOffset mem pointers) =
      refSlots runtime name target ptrOrOffset mem pointers := by
  have fields : images source target (pointerSlots pointers source) = pointerSlots pointers target :=
    images_pointerSlots pointers
  have place_ : source + (target - source) = target := by bv_omega
  rw [images] at fields
  rw [refSlots, refSlots, images, List.map_append, fields]
  congr 1
  split_ifs
  · rw [List.map_singleton, JuliaVMSlot.relocate, place_]
  · rfl

end Images

section Resemblance

variable {runtime : Runtime} {types memory other : Memory} {source target : Address} {bytes : Usize}
  {slots : List JuliaVMSlot}

theorem Resembles.tag {vtag : Usize}
    (resembles : Resembles runtime memory other source target bytes.toNat)
    (tag : mmtkJlTypetagof memory source = .ok vtag) : mmtkJlTypetagof other target = .ok vtag := by
  rw [mmtkJlTypetagof, resembles.header]
  exact tag

theorem plainSize_kept (kept : memory.Extends other) (vt : Address) :
    Kept (plainSize runtime · vt) memory other := by
  apply (loadU64_kept kept _).bind_same
  intro layout _
  apply Carries.bind_same (loadBytes_kept kept layout 4)
  intro dtsz _
  exact .same _

theorem Rounded.unique {payload grain : Nat} {size again : Usize} (first : Rounded payload grain size)
    (second : Rounded payload grain again) : size = again :=
  BitVec.eq_of_toNat_eq (IsLeast.unique first second)

theorem PlainType.size_same {vtag : Usize} {vt name address : Address} {layout : Layout}
    (type : PlainType runtime types vtag vt name address layout) (statics : Statics runtime)
    (kept : types.Extends memory) (still : types.Extends other)
    (tag : mmtkJlTypetagof memory source = .ok vtag) (copied : mmtkJlTypetagof other target = .ok vtag)
    (size : getSoObjectSize runtime memory source = .ok bytes) :
    getSoObjectSize runtime other target = .ok bytes := by
  rcases plainSize_rounded statics type.described type.stored.size with ⟨total, sized, -⟩
  have typed := type.tag.at kept tag
  have again := type.tag.at still copied
  rw [typed.size_eq, if_neg type.plain] at size
  rw [again.size_eq, if_neg type.plain]
  have same : bytes = total := Except.ok.inj (size.symm.trans ((plainSize_kept kept vt).returns sized))
  rw [same]
  exact (plainSize_kept still vt).returns sized

theorem Placed.resembles (placed : Placed runtime types memory source bytes slots)
    (statics : Statics runtime) (helpers : InlinedHelpers runtime) (kept : types.Extends memory)
    (still : types.Extends other) (resembles : Resembles runtime memory other source target bytes.toNat)
    (low : (target - 8).toNat + bytes.toNat ≤ 2 ^ 63) :
    Placed runtime types other target bytes (images source target slots) := by
  have size := placed.size
  cases placed.movable with
  | @bits vtag total tag type leaf text sized =>
      have copied := resembles.tag tag
      refine ⟨.bits copied type leaf text sized, ?_, low⟩
      simp only [List.mem_cons, List.not_mem_nil, or_false, not_or] at leaf
      have same : ∀ {heap obj}, types.Extends heap → mmtkJlTypetagof heap obj = .ok vtag →
          getSoObjectSize runtime heap obj = .ok total := by
        intro heap obj extends_ tagged
        rw [(type.at extends_ tagged).size_eq statics, smallSize, if_neg leaf.1, if_neg leaf.2.1,
          if_neg leaf.2.2, if_neg text]
        exact (plainSize_kept extends_ _).returns sized
      rw [Except.ok.inj (size.symm.trans (same kept tag))]
      exact same still copied
  | @string length tag type counted bound =>
      have copied := resembles.tag tag
      have enough := string_size_bound statics (type.at kept tag) counted bound size
      have again := (resembles.first enough).trans counted
      refine ⟨.string copied type again bound, ?_, low⟩
      rcases string_rounded statics (type.at kept tag) counted (by omega) with ⟨total, sized, rounded⟩
      rcases string_rounded statics (type.at still copied) again (by omega) with ⟨other_, resized, same⟩
      rw [Except.ok.inj (size.symm.trans sized), rounded.unique same]
      exact resized
  | @vector length tag type counted bound =>
      have copied := resembles.tag tag
      have at_ : VectorAt runtime memory source length := ⟨type.at kept tag, counted, bound⟩
      have enough := at_.size_bound statics size
      have again := (resembles.first (by omega)).trans counted
      rw [images_slotsAt]
      refine ⟨.vector copied type again bound, ?_, low⟩
      rcases vector_rounded statics at_.small counted (by omega) with ⟨total, sized, rounded⟩
      rcases vector_rounded statics (type.at still copied) again (by omega) with ⟨other_, resized, same⟩
      rw [Except.ok.inj (size.symm.trans sized), rounded.unique same]
      exact resized
  | weak tag type text =>
      have copied := resembles.tag tag
      exact ⟨.weak copied type text, type.size_same statics kept still tag copied size, low⟩
  | plain tag type strong text =>
      have copied := resembles.tag tag
      rw [images_pointerSlots]
      exact ⟨.plain copied type strong text, type.size_same statics kept still tag copied size, low⟩
  | array tag type strong raw ptr ref =>
      have copied := resembles.tag tag
      have enough := (type.at kept tag).size_bound statics size
      have words := type.array rfl
      have first := (resembles.first (by omega)).trans ptr
      have second := (resembles.second (by omega) (type.not_isMemory kept tag)).trans ref
      rw [images_refSlots]
      exact ⟨.array copied type strong raw first second,
        type.size_same statics kept still tag copied size, low⟩
  | @inlined vt address length layout tag type counted data bound decoded =>
      have copied := resembles.tag tag
      have at_ := type.at helpers kept tag counted data bound
      have enough := at_.size_bound statics size
      have typed := type.tag.at kept tag
      have isMemory : IsMemory runtime memory source := ⟨vt, typed.typeof, typed.name⟩
      have again := (resembles.first (by omega)).trans counted
      have pointer := resembles.data isMemory data
      have copy := type.at helpers still copied again pointer bound
      rw [images_slotsAt]
      refine ⟨.inlined copied type again pointer bound decoded, ?_, low⟩
      rw [typed.size_eq, if_pos rfl] at size
      rw [(type.tag.at still copied).size_eq, if_pos rfl]
      rcases inlined_rounded statics at_.whole at_.stored at_.how (by omega) with
        ⟨total, sized, rounded⟩
      rcases inlined_rounded statics copy.whole copy.stored copy.how (by omega) with
        ⟨other_, resized, same⟩
      rw [Except.ok.inj (size.symm.trans sized), rounded.unique same]
      exact resized

theorem loadU64_inside (same : ∀ byte, Inside source bytes.toNat byte → other byte = memory byte)
    {offset : Address} (inner : offset.toNat + 16 ≤ bytes.toNat) :
    loadU64 other (source + offset) = loadU64 memory (source + offset) := by
  have small := bytes.isLt
  apply loadU64_congr
  intro i below
  apply same
  have position : source + offset + BitVec.ofNat 64 i = source - 8 + (offset + BitVec.ofNat 64 (i + 8)) := by
    rw [BitVec.ofNat_add]
    bv_omega
  rw [Inside, position, Memory.within_add, Memory.add_ofNat_toNat (by omega) (Nat.le_of_lt small)]
  omega

theorem header_inside (same : ∀ byte, Inside source bytes.toNat byte → other byte = memory byte)
    (inner : 8 ≤ bytes.toNat) : loadU64 other (source - 8) = loadU64 memory (source - 8) := by
  apply loadU64_congr
  intro i below
  apply same
  rw [Inside, Memory.within_add, BitVec.toNat_ofNat]
  omega

theorem images_same (obj : Address) (slots : List JuliaVMSlot) : images obj obj slots = slots := by
  have stay : ∀ address : Address, address + (obj - obj) = address := by
    intro address
    rw [BitVec.sub_self]
    exact BitVec.add_zero _
  calc images obj obj slots
      _ = slots.map id := List.map_congr_left (fun slot _ => relocate_fixed (stay _))
      _ = slots := List.map_id slots

theorem Placed.header (placed : Placed runtime types memory source bytes slots)
    (statics : Statics runtime) (helpers : InlinedHelpers runtime) (kept : types.Extends memory) :
    8 ≤ bytes.toNat := by
  have size := placed.size
  cases placed.movable with
  | bits tag type leaf text sized =>
      exact (type.at kept tag).size_bound leaf (fun string => absurd string text) statics size
  | string tag type counted bound =>
      have enough := string_size_bound statics (type.at kept tag) counted bound size
      omega
  | @vector length tag type counted bound =>
      have at_ : VectorAt runtime memory source length := ⟨type.at kept tag, counted, bound⟩
      have enough := at_.size_bound statics size
      omega
  | weak tag type text =>
      have enough := (type.at kept tag).size_bound statics size
      omega
  | plain tag type strong text =>
      have enough := (type.at kept tag).size_bound statics size
      omega
  | array tag type strong raw ptr ref =>
      have enough := (type.at kept tag).size_bound statics size
      omega
  | inlined tag type counted data bound decoded =>
      have enough := (type.at helpers kept tag counted data bound).size_bound statics size
      omega

theorem Placed.stable (placed : Placed runtime types memory source bytes slots)
    (statics : Statics runtime) (helpers : InlinedHelpers runtime) (kept : types.Extends memory)
    (still : types.Extends other)
    (same : ∀ byte, Inside source bytes.toNat byte → other byte = memory byte) :
    Placed runtime types other source bytes slots := by
  have resembles : Resembles runtime memory other source source bytes.toNat := by
    refine ⟨header_inside same (placed.header statics helpers kept), ?_, ?_, ?_⟩
    · intro enough
      have first : loadU64 other (source + 0) = loadU64 memory (source + 0) :=
        loadU64_inside same (by simpa using enough)
      simpa using first
    · intro enough _
      exact loadU64_inside same (by simpa using enough)
    · intro isMemory data
      rcases placed.typed statics helpers kept with ⟨vt, name, typed, named, whole⟩
      by_cases memory_ : name = runtime.genericmemoryTypename
      · have enough := (whole memory_).2
        rw [loadU64_inside same (by simpa using enough)]
        exact data
      · exact absurd isMemory (not_isMemory typed named memory_)
  have moved_ := placed.resembles statics helpers kept still resembles placed.low
  rw [images_same] at moved_
  exact moved_

theorem Placed.start_eq (placed : Placed runtime types memory source bytes slots)
    (statics : Statics runtime) (tags : ∀ tag, runtime.smallTypeof tag ≠ runtime.buffTag)
    (small : isObjectInLos source = false) :
    refToObjectStart runtime memory source = .ok (source - 8) := by
  have header : ∀ {vtag}, mmtkJlTypetagof memory source = .ok vtag → vtag ≠ runtime.buffTag →
      refToObjectStart runtime memory source = .ok (source - 8) := by
    intro vtag tag buffer
    have type : mmtkJlToTypeof runtime vtag ≠ runtime.buffTag := by
      rw [mmtkJlToTypeof]
      split_ifs
      · exact tags _
      · exact buffer
    rw [refToObjectStart, small]
    simp only [getObjectStartRef, mmtkJlTypeof, tag, bind, Except.bind, pure, Except.pure,
      if_neg type, statics.header]
    rfl
  cases placed.movable with
  | bits tag type => exact header tag (ne_of_small type.small statics.buffer)
  | string tag type => exact header tag (ne_of_small type.small statics.buffer)
  | vector tag type => exact header tag (ne_of_small type.small statics.buffer)
  | weak tag type => exact header tag type.tag.buffer
  | plain tag type => exact header tag type.tag.buffer
  | array tag type => exact header tag type.tag.buffer
  | inlined tag type => exact header tag type.tag.buffer

end Resemblance

/-! What copy does with a movable object. -/

section Copying

variable {runtime : Runtime} {types memory : Memory} {source dst : Address} {bytes : Usize}
  {slots : List JuliaVMSlot}

theorem copy_returns {vt name : Address} (size : getSoObjectSize runtime memory source = .ok bytes)
    (start : refToObjectStart runtime memory source = .ok (source - 8))
    (fresh : Fresh memory source dst bytes.toNat) (typed : mmtkJlTypeof runtime memory source = .ok vt)
    (named : datatypeName memory vt = .ok name) :
    copy runtime memory source dst =
      .ok (if name = runtime.genericmemoryTypename then
          runtime.updateInlinedArray (afterMemcpy memory source dst bytes.toNat) source (dst + 8)
        else afterMemcpy memory source dst bytes.toNat, dst + 8) := by
  have kept : memory.Extends (afterMemcpy memory source dst bytes.toNat) :=
    Memory.copy_extends fresh.unmapped
  have typedLater := (typeof_kept kept source).returns typed
  have namedLater := (loadU64_kept kept vt).returns named
  have eight : source - (source - 8) = 8 := by bv_omega
  rw [afterMemcpy] at typedLater namedLater
  rw [copy, size, start]
  simp only [bind, Except.bind, eight, if_true, typedLater, datatypeName, namedLater]
  split_ifs <;> rfl

theorem copied_word {other : Memory} {limit : Nat} {offset : Address}
    (copied : Copied memory other source (dst + 8) limit) (inner : offset.toNat + 8 ≤ limit) :
    loadU64 other (source + offset + (dst + 8 - source)) = loadU64 memory (source + offset) := by
  rw [add_moved]
  exact copied.loadU64_eq offset inner

/-- What copy leaves: an object that resembles the original, with the same words in its slots, and
all other bytes as they were. -/
structure CopyMade (runtime : Runtime) (memory other : Memory) (source dst : Address) (bytes : Nat)
    (slots : List JuliaVMSlot) : Prop where
  frame : ∀ byte, ¬ Memory.Within dst bytes byte → other byte = memory byte
  resembles : Resembles runtime memory other source (dst + 8) bytes
  words : ∀ slot ∈ slots,
    loadU64 other (slot.address + (dst + 8 - source)) = loadU64 memory slot.address

theorem Placed.copy_made (placed : Placed runtime types memory source bytes slots)
    (statics : Statics runtime) (helpers : InlinedHelpers runtime)
    (tags : ∀ tag, runtime.smallTypeof tag ≠ runtime.buffTag) (kept : types.Extends memory)
    (small : isObjectInLos source = false) (fresh : Fresh memory source dst bytes.toNat) :
    ∃ other, copy runtime memory source dst = .ok (other, dst + 8) ∧
      CopyMade runtime memory other source dst bytes.toNat slots := by
  have header := placed.header statics helpers kept
  have copied := afterMemcpy_copied fresh header
  have wide : (8 : Address).toNat = 8 := rfl
  rcases placed.typed statics helpers kept with ⟨vt, name, typed, named, whole⟩
  have ran := copy_returns placed.size (placed.start_eq statics tags small) fresh typed named
  by_cases memory_ : name = runtime.genericmemoryTypename
  · rcases whole memory_ with ⟨data, enough⟩
    have isMemory : IsMemory runtime memory source := ⟨vt, typed, memory_ ▸ named⟩
    have pointer := (loadU64_kept copied.kept _).returns data
    have within : ∀ byte, Memory.Within (dst + 8 + 8) 8 byte → Memory.Within dst bytes.toNat byte := by
      intro byte inside
      rw [Memory.Within] at inside ⊢
      bv_omega
    have made : Copied memory (@Memory.store (afterMemcpy memory source dst bytes.toNat) (dst + 8 + 8) 8
        (dst + 8 + 16)) source (dst + 8) 8 :=
      copied.store (by omega) (fun byte inside => fresh.unmapped byte (within byte inside))
    rw [if_pos memory_, helpers.rebase _ _ _ pointer] at ran
    refine ⟨_, ran, ⟨?_, ⟨made.header, fun _ => made.loadU64_zero (le_refl 8),
      fun _ other => absurd isMemory other, ?_⟩, ?_⟩⟩
    · intro byte outside
      rw [Memory.store_outside _ (fun inside => outside (within byte inside))]
      exact if_neg outside
    · intro _ _
      exact loadU64_store _ _ _
    · intro slot member
      rcases placed.slot_within statics helpers kept slot member with ⟨offset, lies, inner, behind⟩
      have above := behind isMemory
      have beside : Apart (dst + 8 + 8) (dst + 8 + offset) := by
        rw [Apart]
        have room := fresh.room
        bv_omega
      rw [lies, add_moved, loadU64_store_apart _ beside]
      exact copied.loadU64_eq offset (by omega)
  · rw [if_neg memory_] at ran
    have plain := not_isMemory typed named memory_
    refine ⟨_, ran, ⟨fun byte outside => if_neg outside, ⟨copied.header, ?_, ?_, ?_⟩, ?_⟩⟩
    · intro enough
      exact copied.loadU64_zero (by omega)
    · intro enough _
      exact copied.loadU64_eq 8 (by omega)
    · intro isMemory
      exact absurd isMemory plain
    · intro slot member
      rcases placed.slot_within statics helpers kept slot member with ⟨offset, lies, inner, -⟩
      rw [lies]
      exact copied_word copied (by omega)

theorem Placed.copy_placed {other : Memory} (placed : Placed runtime types memory source bytes slots)
    (statics : Statics runtime) (helpers : InlinedHelpers runtime) (kept : types.Extends memory)
    (still : types.Extends other) (room : dst.toNat + bytes.toNat ≤ 2 ^ 63)
    (made : CopyMade runtime memory other source dst bytes.toNat slots) :
    Placed runtime types other (dst + 8) bytes (images source (dst + 8) slots) := by
  have start : dst + 8 - 8 = dst := BitVec.add_sub_cancel _ _
  apply placed.resembles statics helpers kept still made.resembles
  rw [start]
  exact room

end Copying

end MmtkJulia.Scanning
