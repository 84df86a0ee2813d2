import MmtkJulia.GenericMemory
import MmtkJulia.ObjectModel
import MmtkJulia.ParkedStack

/-! The kinds of objects that move: what they hold in memory, how large their copies are and what
the scan reports for them. -/

namespace MmtkJulia.Scanning

/-- What Julia sets the statics to, as far as the branches of copy and scan depend on it. -/
structure Statics (runtime : Runtime) : Prop where
  header : runtime.headerSize = 8
  symbol : maxTags ≤ runtime.symbolType
  buffer : maxTags ≤ runtime.buffTag
  typenames : runtime.arrayTypename ≠ runtime.genericmemoryTypename

section Branches

variable {runtime : Runtime} {memory : Memory} {obj vt : Address} {vtag : Usize}

structure SmallAt (runtime : Runtime) (memory : Memory) (obj : Address) (vtag : Usize) : Prop where
  tag : mmtkJlTypetagof memory obj = .ok vtag
  small : vtag < maxTags
  special : vtag ∉ structTags
  named : ∃ name, datatypeName memory (runtime.smallTypeof (vtag / 8).toNat) = .ok name ∧
    name ≠ runtime.genericmemoryTypename

theorem ne_of_small {large : Usize} (small : vtag < maxTags) (above : maxTags ≤ large) :
    vtag ≠ large := by
  intro same
  rw [same] at small
  exact absurd above (BitVec.not_le.mpr small)

theorem SmallAt.size_eq (at_ : SmallAt runtime memory obj vtag) (statics : Statics runtime) :
    getSoObjectSize runtime memory obj = smallSize runtime memory vtag obj := by
  have buffer := ne_of_small at_.small statics.buffer
  simp only [getSoObjectSize, at_.tag, bind, Except.bind]
  rw [if_neg buffer, if_neg at_.special, if_pos at_.small]

theorem SmallAt.scan_eq (at_ : SmallAt runtime memory obj vtag) (statics : Statics runtime) (fuel : Nat) :
    scanJuliaObject runtime memory fuel obj =
      if vtag = simplevectorTag then scanSimpleVector memory obj
      else if vtag = moduleTag then scanModule runtime memory obj
      else if vtag = taskTag then scanTask runtime memory fuel obj
      else .ok [] := by
  have symbol := ne_of_small at_.small statics.symbol
  have buffer := ne_of_small at_.small statics.buffer
  simp only [scanJuliaObject, at_.tag, bind, Except.bind]
  rw [if_neg (not_or.mpr ⟨symbol, buffer⟩), if_neg at_.special, if_pos at_.small]
  rfl

theorem SmallAt.scan_leaf (at_ : SmallAt runtime memory obj vtag) (statics : Statics runtime)
    (leaf : vtag ∉ [simplevectorTag, moduleTag, taskTag]) (fuel : Nat) :
    scanJuliaObject runtime memory fuel obj = .ok [] := by
  simp only [List.mem_cons, List.not_mem_nil, or_false, not_or] at leaf
  rw [at_.scan_eq statics, if_neg leaf.1, if_neg leaf.2.1, if_neg leaf.2.2]

theorem SmallAt.scan_vector (at_ : SmallAt runtime memory obj simplevectorTag)
    (statics : Statics runtime) {length : Usize} (counted : mmtkJlSvecLen memory obj = .ok length)
    (fits : obj.toNat + (8 * length.toNat + 8) < 2 ^ 64) (fuel : Nat) :
    scanJuliaObject runtime memory fuel obj =
      .ok (slotsAt (obj + 8) (wordOffsets length.toNat)) := by
  have start : (mmtkJlSvecData obj).toNat = obj.toNat + 8 := by
    rw [mmtkJlSvecData, BitVec.toNat_add, eight_toNat]
    omega
  rw [at_.scan_eq statics, if_pos rfl, scanSimpleVector, counted]
  exact whileBelow_words (by omega)

structure DatatypeAt (runtime : Runtime) (memory : Memory) (obj : Address) (vtag : Usize)
    (vt name : Address) : Prop where
  tag : mmtkJlTypetagof memory obj = .ok vtag
  symbol : vtag ≠ runtime.symbolType
  buffer : vtag ≠ runtime.buffTag
  datatype : vtag ∈ structTags ∧ vt = runtime.smallTypeof (vtag / 8).toNat ∨
    ¬ vtag < maxTags ∧ vt = vtag ∧ checkDatatype memory vtag = .ok ()
  name : datatypeName memory vt = .ok name

namespace DatatypeAt

variable {name : Address}

theorem typeof (at_ : DatatypeAt runtime memory obj vtag vt name) :
    mmtkJlTypeof runtime memory obj = .ok vt := by
  simp only [mmtkJlTypeof, at_.tag, bind, Except.bind, pure, Except.pure]
  rcases at_.datatype with ⟨member, rfl⟩ | ⟨large, rfl, -⟩
  · rw [mmtkJlToTypeof, if_pos (structTags_small vtag member)]
  · rw [mmtkJlToTypeof, if_neg large]

theorem scan_eq (at_ : DatatypeAt runtime memory obj vtag vt name) (fuel : Nat) :
    scanJuliaObject runtime memory fuel obj = scanDatatype runtime memory vt obj := by
  simp only [scanJuliaObject, at_.tag, bind, Except.bind]
  rw [if_neg (not_or.mpr ⟨at_.symbol, at_.buffer⟩)]
  rcases at_.datatype with ⟨member, rfl⟩ | ⟨large, rfl, checked⟩
  · rw [if_pos member]
  · have struct : vt ∉ structTags := fun member => large (structTags_small vt member)
    rw [if_neg struct, if_neg large, checked]

theorem size_eq (at_ : DatatypeAt runtime memory obj vtag vt name) :
    getSoObjectSize runtime memory obj =
      if name = runtime.genericmemoryTypename then genericMemorySize runtime memory obj
      else plainSize runtime memory vt := by
  have sized : datatypeSize runtime memory vt obj =
      if name = runtime.genericmemoryTypename then genericMemorySize runtime memory obj
      else plainSize runtime memory vt := by
    simp only [datatypeSize, at_.typeof, at_.name, bind, Except.bind, if_true]
  simp only [getSoObjectSize, at_.tag, bind, Except.bind]
  rw [if_neg at_.buffer, ← sized]
  rcases at_.datatype with ⟨member, rfl⟩ | ⟨large, rfl, checked⟩
  · rw [if_pos member]
  · have struct : vt ∉ structTags := fun member => large (structTags_small vt member)
    rw [if_neg struct, if_neg large, checked]

theorem memory_scan_eq (at_ : DatatypeAt runtime memory obj vtag vt runtime.genericmemoryTypename)
    (statics : Statics runtime) (fuel : Nat) :
    scanJuliaObject runtime memory fuel obj = scanGenericMemory runtime memory vt obj := by
  rw [at_.scan_eq fuel, scanDatatype, at_.name]
  simp only [bind, Except.bind, if_neg statics.typenames.symm, if_true]
  cases scanGenericMemory runtime memory vt obj with
  | error fault => rfl
  | ok slots => rfl

end DatatypeAt

end Branches

/-! The kinds. Their sizes stay below the bound that the debug assertions of get_so_object_size
state, and what they own elsewhere lies outside of the bytes that are copied. -/

/-- The bytes of an object, its header included. -/
def Inside (obj : Address) (bytes : Nat) (address : Address) : Prop :=
  Memory.Within (obj - 8) bytes address

def WordWithin (base : Address) (bytes : Nat) (address : Address) : Prop :=
  base.toNat ≤ address.toNat ∧ address.toNat + 8 ≤ base.toNat + bytes

section Words

variable {obj : Address} {payload : Nat}

theorem field_within {offset : Address} (fits : obj.toNat + payload ≤ 2 ^ 64)
    (inner : offset.toNat + 8 ≤ payload) : WordWithin obj payload (obj + offset) := by
  rw [WordWithin, BitVec.toNat_add]
  omega

theorem WordWithin.part {start address : Address} {bytes : Nat}
    (fits : obj.toNat + payload ≤ 2 ^ 64) (inner : start.toNat + bytes ≤ payload)
    (within : WordWithin (obj + start) bytes address) : WordWithin obj payload address := by
  rcases within with ⟨above, below⟩
  rw [BitVec.toNat_add] at above below
  rw [WordWithin]
  omega

theorem slotsAt_within {offsets : List Address} (fits : obj.toNat + payload ≤ 2 ^ 64)
    (inner : ∀ offset ∈ offsets, offset.toNat + 8 ≤ payload) :
    ∀ slot ∈ slotsAt obj offsets, WordWithin obj payload slot.address := by
  intro slot member
  rcases List.mem_map.mp member with ⟨offset, present, rfl⟩
  exact field_within fits (inner offset present)

end Words

structure VectorAt (runtime : Runtime) (memory : Memory) (obj : Address) (length : Usize) :
    Prop where
  small : SmallAt runtime memory obj simplevectorTag
  counted : mmtkJlSvecLen memory obj = .ok length
  bound : 8 * length.toNat + 16 ≤ 2032

/-- A module whose usings are stored in its own space of 29 words, or malloced. -/
structure ModuleAt (runtime : Runtime) (memory : Memory) (obj : Address) (bytes : Nat)
    (items nusings : Usize) : Prop where
  small : SmallAt runtime memory obj moduleTag
  list : loadU64 memory (obj + 80) = .ok items
  counted : loadU64 memory (obj + 64) = .ok nusings
  inlined : items = obj + 88 → nusings.toNat ≤ 29
  lower : items.toNat + 8 * nusings.toNat ≤ 2 ^ 63
  malloced : items ≠ obj + 88 → ∀ address, items ≤ address → address < shift items nusings →
    ¬ Inside obj bytes address

structure TaskObjectAt (runtime : Runtime) (memory : Memory) (fuel : Nat) (obj : Address)
    (bytes : Nat) (task : TaskFields) (window : Window) (frames : List Frame) (address : Address)
    (layout : Layout) : Prop where
  small : SmallAt runtime memory obj taskTag
  fields : TaskAt memory obj task
  through : stackWindow runtime memory obj = .ok window
  hangs : Hangs (readStack memory window) task.gcstack frames
  enough : frames.length ≤ fuel
  outside : ∀ slot ∈ seen window (frames.flatMap Frame.slots), ¬ Inside obj bytes slot.address
  described : datatypeLayout memory runtime.taskType = .ok address
  stored : LayoutAt memory address layout
  narrow : layout.fielddescType = 0
  inner : ∀ pointer ∈ layout.pointers, 8 * pointer.toNat < 224

structure PlainAt (runtime : Runtime) (memory : Memory) (obj : Address) (vtag : Usize)
    (vt name address : Address) (layout : Layout) : Prop where
  typed : DatatypeAt runtime memory obj vtag vt name
  plain : name ≠ runtime.genericmemoryTypename
  described : datatypeLayout memory vt = .ok address
  stored : LayoutAt memory address layout
  known : layout.fielddescType ≤ 2
  inner : ∀ pointer ∈ layout.pointers, 8 * pointer.toNat < layout.size.toNat
  array : name = runtime.arrayTypename → 16 ≤ layout.size.toNat

structure DataLayout (layout : Layout) : Prop where
  boxed : arrayelemIsboxed layout.flags → layout.size = 8
  struct : arrayelemIsboxed layout.flags = false → 0 ≤ layout.firstPtr.toInt →
    ∃ element : ElementLayout, element.toLayout = layout

structure InlinedAt (runtime : Runtime) (memory : Memory) (obj vt address : Address)
    (length : Usize) (layout : Layout) : Prop where
  whole : MemoryAt runtime memory obj vt address (obj + 16) length
  stored : LayoutAt memory address layout
  data : DataLayout layout
  how : runtime.genericmemoryHow memory obj = 0
  bound : layout.size.toNat * length.toNat +
    (if arrayelemIsunion layout.flags then length.toNat else 0) + 24 ≤ 2032

/-- A memory with its data elsewhere. The data is there where the memory owns it. -/
structure ExternalAt (runtime : Runtime) (memory : Memory) (obj : Address) (bytes : Nat)
    (vt address ptr owner : Address) (length : Usize) (layout : Layout) : Prop where
  whole : MemoryAt runtime memory obj vt address ptr length
  stored : LayoutAt memory address layout
  data : DataLayout layout
  how : runtime.genericmemoryHow memory obj ≠ 0
  owned : loadU64 memory (runtime.ownerAddress obj) = .ok owner
  lower : ptr.toNat + layout.size.toNat * length.toNat ≤ 2 ^ 63
  outside : ∀ address, Memory.Within ptr (layout.size.toNat * length.toNat) address →
    ¬ Inside obj bytes address
  pointed : owner = obj → memory ptr ≠ none
  held : owner = obj → ∀ address, Memory.Within ptr (layout.size.toNat * length.toNat) address →
    memory address ≠ none

structure OwnedAt (runtime : Runtime) (memory : Memory) (obj : Address) (vtag : Usize)
    (vt ptr owner : Address) : Prop where
  typed : DatatypeAt runtime memory obj vtag vt runtime.genericmemoryTypename
  how : runtime.genericmemoryHow memory obj = 3
  pointer : loadU64 memory (obj + 8) = .ok ptr
  pointed : memory ptr ≠ none
  owned : loadU64 memory (runtime.ownerAddress obj) = .ok owner
  headed : memory (owner - 8) ≠ none

/-- An object that copy can be asked to move. -/
inductive HeapObject (runtime : Runtime) (memory : Memory) (fuel : Nat) (obj : Address)
    (bytes : Nat) : Prop where
  | bits {vtag : Usize} (small : SmallAt runtime memory obj vtag)
      (leaf : vtag ∉ [simplevectorTag, moduleTag, taskTag])
      (string : vtag = stringTag →
        ∀ length, loadU64 memory obj = .ok length → length.toNat + 17 ≤ 2032)
  | vector {length : Usize} (at_ : VectorAt runtime memory obj length)
  | usings {items nusings : Usize} (at_ : ModuleAt runtime memory obj bytes items nusings)
  | task {task : TaskFields} {window : Window} {frames : List Frame} {address : Address}
      {layout : Layout} (at_ : TaskObjectAt runtime memory fuel obj bytes task window frames address layout)
  | plain {vtag : Usize} {vt name address : Address} {layout : Layout}
      (at_ : PlainAt runtime memory obj vtag vt name address layout)
  | inlined {vt address : Address} {length : Usize} {layout : Layout}
      (at_ : InlinedAt runtime memory obj vt address length layout)
  | external {vt address ptr owner : Address} {length : Usize} {layout : Layout}
      (at_ : ExternalAt runtime memory obj bytes vt address ptr owner length layout)
  | owned {vtag : Usize} {vt ptr owner : Address}
      (at_ : OwnedAt runtime memory obj vtag vt ptr owner)

/-! What the data of a memory is scanned to. -/

def dataOffsets (layout : Layout) (length : Nat) : List Address :=
  if arrayelemIsboxed layout.flags then wordOffsets length
  else if 0 ≤ layout.firstPtr.toInt then
    (List.range length).flatMap (fun i => layout.pointers.map (fun pointer =>
      BitVec.ofNat 64 i * layout.size.setWidth 64 + 8 * pointer))
  else []

/-- Structs of more than one pointer with 32-bit descriptors. -/
def Undecoded (layout : Layout) : Prop :=
  arrayelemIsboxed layout.flags = false ∧ 0 ≤ layout.firstPtr.toInt ∧ layout.npointers ≠ 1 ∧
    layout.fielddescType = 2

instance (layout : Layout) : Decidable (Undecoded layout) := inferInstanceAs (Decidable (_ ∧ _))

section Data

variable {runtime : Runtime} {memory : Memory} {obj vt address ptr : Address} {length : Usize}
  {layout : Layout}

theorem elementSlots_eq (element : ElementLayout) (ptr : Address) (i : Nat) :
    element.elementSlots ptr i = slotsAt ptr (element.pointers.map (fun pointer =>
      BitVec.ofNat 64 i * element.size.setWidth 64 + 8 * pointer)) := by
  rw [ElementLayout.elementSlots, pointerSlots, slotsAt, List.map_map]
  apply List.map_congr_left
  intro pointer _
  rw [Function.comp_apply, ElementLayout.elementAt, shift, BitVec.add_assoc]
  rfl

theorem mem_dataOffsets (data : DataLayout layout) {count : Nat}
    (bound : layout.size.toNat * count < 2 ^ 64) {offset : Address}
    (member : offset ∈ dataOffsets layout count) : offset.toNat + 8 ≤ layout.size.toNat * count := by
  rw [dataOffsets] at member
  by_cases boxed : arrayelemIsboxed layout.flags = true
  · have size : layout.size.toNat = 8 := by
      rw [data.boxed boxed]
      rfl
    rw [if_pos boxed] at member
    rw [size]
    exact mem_wordOffsets member
  rw [if_neg boxed] at member
  by_cases pointers : 0 ≤ layout.firstPtr.toInt
  · rw [if_pos pointers] at member
    rcases data.struct (Bool.eq_false_of_not_eq_true boxed) pointers with ⟨element, rfl⟩
    rcases List.mem_flatMap.mp member with ⟨i, below, member⟩
    rcases List.mem_map.mp member with ⟨pointer, present, rfl⟩
    have index := List.mem_range.mp below
    have inner := element.inside pointer present
    have aligned := element.aligned
    have steps : element.size.toNat * (i + 1) ≤ element.size.toNat * count :=
      Nat.mul_le_mul_left _ index
    rw [Nat.mul_succ] at steps
    have stride : (element.size.setWidth 64 : Address).toNat = element.size.toNat :=
      element.stride_toNat
    have small : i < 2 ^ 64 := by
      have positive : 0 < element.size.toNat := by omega
      have wide : i ≤ element.size.toNat * i := Nat.le_mul_of_pos_left _ positive
      omega
    have product : (BitVec.ofNat 64 i * element.size.setWidth 64).toNat = element.size.toNat * i := by
      rw [BitVec.toNat_mul, BitVec.toNat_ofNat, stride, Nat.mod_eq_of_lt small, Nat.mul_comm]
      exact Nat.mod_eq_of_lt (by omega)
    rw [BitVec.toNat_add, product, BitVec.toNat_mul, eight_toNat]
    omega
  · rw [if_neg pointers] at member
    cases member

theorem MemoryAt.data_eq (at_ : MemoryAt runtime memory obj vt address ptr length)
    (stored : LayoutAt memory address layout) (data : DataLayout layout)
    (lower : ptr.toNat + layout.size.toNat * length.toNat ≤ 2 ^ 63) :
    scanGenericMemory runtime memory vt obj =
      if length ≠ 0 ∧ Undecoded layout then .error .unimplemented
      else .ok (slotsAt ptr (dataOffsets layout length.toNat)) := by
  by_cases boxed : arrayelemIsboxed layout.flags = true
  · have decoded : ¬ (length ≠ 0 ∧ Undecoded layout) := by
      intro both
      rw [both.2.1] at boxed
      cases boxed
    have size : layout.size.toNat = 8 := by
      rw [data.boxed boxed]
      rfl
    rw [if_neg decoded, scanGenericMemory, if_neg at_.how, dataOffsets, if_pos boxed]
    simp only [at_.length, at_.layout, stored.flags, at_.ptr, bind, Except.bind]
    by_cases empty : length = 0
    · rw [if_pos empty, empty]
      rfl
    · rw [if_neg empty, if_pos boxed]
      apply whileBelow_words
      rw [size] at lower
      omega
  have unboxed := Bool.eq_false_of_not_eq_true boxed
  by_cases pointers : 0 ≤ layout.firstPtr.toInt
  · rcases data.struct unboxed pointers with ⟨element, rfl⟩
    have slots : slotsAt ptr (dataOffsets element.toLayout length.toNat) =
        (List.range length.toNat).flatMap (element.elementSlots ptr) := by
      have each : element.elementSlots ptr = fun i => slotsAt ptr (element.pointers.map
          (fun pointer => BitVec.ofNat 64 i * element.size.setWidth 64 + 8 * pointer)) := by
        funext i
        exact elementSlots_eq element ptr i
      rw [dataOffsets, if_neg boxed, if_pos pointers, slotsAt, List.map_flatMap, each]
      rfl
    have room : ptr.toNat + length.toNat * element.size.toNat ≤ 2 ^ 63 := by
      rw [Nat.mul_comm]
      exact lower
    rw [at_.elements_eq stored, slots]
    by_cases empty : length = 0
    · rw [if_pos empty, if_neg (not_and.mpr (fun some => absurd empty some)), empty]
      rfl
    rw [if_neg empty]
    by_cases one : element.npointers = 1
    · rw [if_neg (fun both => both.2.2.2.1 one), scanElements_one stored room one]
    by_cases wide : element.fielddescType = 2
    · rw [if_pos ⟨empty, unboxed, pointers, one, wide⟩, scanElements_wide stored one wide]
    · rw [if_neg (fun both => wide both.2.2.2.2), scanElements_general stored room one wide]
  · rw [if_neg (fun both => pointers both.2.2.1), scanGenericMemory, if_neg at_.how, dataOffsets,
      if_neg boxed, if_neg pointers]
    simp only [at_.length, at_.layout, stored.flags, stored.firstPtr, bind, Except.bind]
    by_cases empty : length = 0
    · rw [if_pos empty]
      rfl
    · rw [if_neg empty, if_neg boxed, if_neg pointers]
      rfl

theorem PlainAt.scan_eq {vtag : Usize} {name : Address}
    (at_ : PlainAt runtime memory obj vtag vt name address layout) (fuel : Nat) :
    scanJuliaObject runtime memory fuel obj = do
      let ref ← (if name = runtime.arrayTypename then scanArrayRef runtime memory obj else .ok [])
      return ref ++ (if vt = runtime.weakrefType then [] else pointerSlots layout.pointers obj) := by
  have fields : scanPlainObject memory vt obj = .ok (pointerSlots layout.pointers obj) := by
    rw [scanPlainObject, at_.described]
    exact at_.stored.scanPointers_eq at_.known obj
  rw [at_.typed.scan_eq fuel, scanDatatype, at_.typed.name]
  simp only [bind, Except.bind, if_neg at_.plain, fields]
  by_cases weak : vt = runtime.weakrefType <;> by_cases array : name = runtime.arrayTypename
  · simp only [if_pos weak, if_pos array]
    rfl
  · simp only [if_pos weak, if_neg array]
    rfl
  · simp only [if_neg weak, if_pos array]
  · simp only [if_neg weak, if_neg array]
    rfl

end Data

section Sizes

variable {runtime : Runtime} {memory : Memory} {fuel : Nat} {obj : Address} {bytes : Usize}

theorem plainSize_rounded {vt address : Address} {dtsz : BitVec 32} (statics : Statics runtime)
    (described : datatypeLayout memory vt = .ok address)
    (sized : layoutSize memory address = .ok dtsz) :
    ∃ size, plainSize runtime memory vt = .ok size ∧ Rounded dtsz.toNat 16 size := by
  have small := dtsz.isLt
  have sixteen : (16 : Usize).toNat = 16 := rfl
  have total : (dtsz.setWidth 64 + 8 : Usize).toNat = 8 + dtsz.toNat := by
    rw [BitVec.toNat_add, BitVec.toNat_setWidth, eight_toNat]
    omega
  refine ⟨lltAlign (dtsz.setWidth 64 + 8) 16, ?_, ?_⟩
  · rw [plainSize, described, ← statics.header]
    simp only [bind, Except.bind, sized]
    rfl
  · exact rounded_lltAlign 16 4 rfl total (by omega)

theorem plainSize_bound {vt : Address} (statics : Statics runtime)
    (size : plainSize runtime memory vt = .ok bytes) :
    ∃ address dtsz, datatypeLayout memory vt = .ok address ∧ layoutSize memory address = .ok dtsz ∧
      dtsz.toNat + 8 ≤ bytes.toNat := by
  have whole := size
  rw [plainSize] at whole
  rcases bind_ok whole with ⟨address, described, whole⟩
  rcases bind_ok whole with ⟨dtsz, sized, -⟩
  rcases plainSize_rounded statics described sized with ⟨total, same, rounded⟩
  have equal : bytes = total := Except.ok.inj (size.symm.trans same)
  have enough := rounded.enough
  refine ⟨address, dtsz, described, sized, ?_⟩
  rw [equal]
  omega

theorem string_rounded {length : Usize} (statics : Statics runtime)
    (small : SmallAt runtime memory obj stringTag) (counted : loadU64 memory obj = .ok length)
    (room : length.toNat + 9 + 16 ≤ 2 ^ 63) :
    ∃ size, getSoObjectSize runtime memory obj = .ok size ∧ Rounded (length.toNat + 9) 8 size := by
  have eight : (8 : Usize).toNat = 8 := rfl
  have one : (1 : Usize).toNat = 1 := rfl
  rw [small.size_eq statics, smallSize, if_neg (by decide), if_neg (by decide), if_neg (by decide),
    if_pos rfl, counted, statics.header]
  refine ⟨_, rfl, ?_⟩
  apply rounded_lltAlign 8 3 rfl
  · rw [BitVec.toNat_add, BitVec.toNat_add, BitVec.toNat_add, eight, one]
    omega
  · omega

theorem vector_rounded {length : Usize} (statics : Statics runtime)
    (small : SmallAt runtime memory obj simplevectorTag)
    (counted : mmtkJlSvecLen memory obj = .ok length) (room : 8 * length.toNat + 8 + 16 ≤ 2 ^ 63) :
    ∃ size, getSoObjectSize runtime memory obj = .ok size ∧
      Rounded (8 * length.toNat + 8) 16 size := by
  have sixteen : (16 : Usize).toNat = 16 := rfl
  have loaded : loadU64 memory obj = .ok length := counted
  rw [small.size_eq statics, smallSize, if_pos rfl, loaded, statics.header]
  refine ⟨_, rfl, ?_⟩
  apply rounded_lltAlign 16 4 rfl
  · rw [BitVec.toNat_add, BitVec.toNat_add, BitVec.toNat_mul, eight_toNat]
    omega
  · omega

theorem inlined_rounded {vt address : Address} {length : Usize} {layout : Layout}
    (statics : Statics runtime) (whole : MemoryAt runtime memory obj vt address (obj + 16) length)
    (stored : LayoutAt memory address layout) (how : runtime.genericmemoryHow memory obj = 0)
    (room : 16 + layout.size.toNat * length.toNat +
      (if arrayelemIsunion layout.flags then length.toNat else 0) ≤ 2 ^ 63) :
    ∃ size, genericMemorySize runtime memory obj = .ok size ∧
      Rounded (16 + layout.size.toNat * length.toNat +
        (if arrayelemIsunion layout.flags then length.toNat else 0)) 16 size := by
  have widened : (layout.size.setWidth 64 : Usize).toNat = layout.size.toNat := by
    have small := layout.size.isLt
    rw [BitVec.toNat_setWidth]
    omega
  have sixteen : (16 : Usize).toNat = 16 := rfl
  have header : lltAlign 16 16 = 16 := rfl
  have elements : (layout.size.setWidth 64 * length : Usize).toNat =
      layout.size.toNat * length.toNat := by
    rw [BitVec.toNat_mul, widened]
    exact Nat.mod_eq_of_lt (by omega)
  rw [genericMemorySize, if_pos how]
  simp only [whole.typetag, whole.layout, whole.length, stored.size, stored.flags, bind, Except.bind,
    header, statics.header]
  refine ⟨_, rfl, ?_⟩
  apply rounded_lltAlign 16 4 rfl
  · by_cases isunion : arrayelemIsunion layout.flags = true
    · rw [if_pos isunion] at room ⊢
      rw [if_pos isunion, BitVec.toNat_add, BitVec.toNat_add, BitVec.toNat_add, elements, eight_toNat,
        sixteen]
      omega
    · rw [if_neg isunion] at room ⊢
      rw [if_neg isunion, BitVec.toNat_add, BitVec.toNat_add, elements, eight_toNat, sixteen]
      omega
  · omega

theorem SmallAt.size_bound {vtag : Usize} (at_ : SmallAt runtime memory obj vtag)
    (leaf : vtag ∉ [simplevectorTag, moduleTag, taskTag])
    (string : vtag = stringTag → ∀ length, loadU64 memory obj = .ok length → length.toNat + 17 ≤ 2032)
    (statics : Statics runtime) (size : getSoObjectSize runtime memory obj = .ok bytes) :
    8 ≤ bytes.toNat := by
  simp only [List.mem_cons, List.not_mem_nil, or_false, not_or] at leaf
  rcases leaf with ⟨vector, module_, task⟩
  have sized := size
  rw [at_.size_eq statics, smallSize, if_neg vector, if_neg module_, if_neg task] at sized
  by_cases text : vtag = stringTag
  · rw [if_pos text] at sized
    rcases bind_ok sized with ⟨length, counted, -⟩
    have bound := string text length counted
    rw [text] at at_
    rcases string_rounded statics at_ counted (by omega) with ⟨total, same, rounded⟩
    have equal : bytes = total := Except.ok.inj (size.symm.trans same)
    rw [equal]
    exact le_trans (Nat.le_add_right _ _) rounded.enough
  · rw [if_neg text] at sized
    rcases plainSize_bound statics sized with ⟨_, dtsz, -, -, bound⟩
    omega

theorem VectorAt.size_bound {length : Usize} (at_ : VectorAt runtime memory obj length)
    (statics : Statics runtime) (size : getSoObjectSize runtime memory obj = .ok bytes) :
    8 * length.toNat + 16 ≤ bytes.toNat := by
  have bound := at_.bound
  rcases vector_rounded statics at_.small at_.counted (by omega) with ⟨total, same, rounded⟩
  have equal : bytes = total := Except.ok.inj (size.symm.trans same)
  have enough := rounded.enough
  rw [equal]
  omega

theorem module_size (statics : Statics runtime) (small : SmallAt runtime memory obj moduleTag) :
    getSoObjectSize runtime memory obj = .ok 400 := by
  rw [small.size_eq statics, smallSize, if_neg (by decide), if_pos rfl, statics.header]
  rfl

theorem task_size (statics : Statics runtime) (small : SmallAt runtime memory obj taskTag) :
    getSoObjectSize runtime memory obj = .ok 240 := by
  rw [small.size_eq statics, smallSize, if_neg (by decide), if_neg (by decide), if_pos rfl,
    statics.header]
  rfl

theorem PlainAt.size_bound {vtag : Usize} {vt name address : Address} {layout : Layout}
    (at_ : PlainAt runtime memory obj vtag vt name address layout) (statics : Statics runtime)
    (size : getSoObjectSize runtime memory obj = .ok bytes) :
    layout.size.toNat + 8 ≤ bytes.toNat := by
  rw [at_.typed.size_eq, if_neg at_.plain] at size
  rcases plainSize_bound statics size with ⟨found, dtsz, described, sized, bound⟩
  have same : found = address := Except.ok.inj (described.symm.trans at_.described)
  rw [same] at sized
  have dtszSame : dtsz = layout.size := Except.ok.inj (sized.symm.trans at_.stored.size)
  rw [← dtszSame]
  exact bound

theorem external_size (statics : Statics runtime) {vtag : Usize} {vt : Address}
    (at_ : DatatypeAt runtime memory obj vtag vt runtime.genericmemoryTypename)
    (how : runtime.genericmemoryHow memory obj ≠ 0) :
    getSoObjectSize runtime memory obj = .ok 32 := by
  rw [at_.size_eq, if_pos rfl, genericMemorySize, if_neg how, statics.header]
  rfl

theorem MemoryAt.typed {vt address ptr : Address} {length : Usize}
    (at_ : MemoryAt runtime memory obj vt address ptr length) :
    DatatypeAt runtime memory obj vt vt runtime.genericmemoryTypename where
  tag := at_.typetag
  symbol := at_.symbol
  buffer := at_.buffer
  datatype := .inr ⟨at_.large, rfl, at_.datatype⟩
  name := at_.name

theorem InlinedAt.size_bound {vt address : Address} {length : Usize} {layout : Layout}
    (at_ : InlinedAt runtime memory obj vt address length layout) (statics : Statics runtime)
    (size : getSoObjectSize runtime memory obj = .ok bytes) :
    layout.size.toNat * length.toNat + 24 ≤ bytes.toNat := by
  have bound := at_.bound
  rw [at_.whole.typed.size_eq, if_pos rfl] at size
  rcases inlined_rounded statics at_.whole at_.stored at_.how (by omega) with ⟨total, same, rounded⟩
  have equal : bytes = total := Except.ok.inj (size.symm.trans same)
  have enough := rounded.enough
  rw [equal]
  omega

end Sizes

end MmtkJulia.Scanning
