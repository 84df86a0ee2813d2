import MmtkJulia.Layouts

/-! Scanning a generic memory of inline structs element by element. -/

namespace MmtkJulia.Scanning

/-- The layout of a struct with pointers, as a memory stores it inline. -/
structure ElementLayout extends Layout where
  known : toLayout.fielddescType ≤ 2
  unboxed : arrayelemIsboxed flags = false
  nonempty : pointers ≠ []
  aligned : 8 ∣ size.toNat
  inside : ∀ pointer ∈ pointers, 8 * pointer.toNat < size.toNat
  first : firstPtr.toInt = (pointers.head nonempty).toNat

namespace ElementLayout

variable (element : ElementLayout)

def stride : Address := element.size.setWidth 64

theorem stride_toNat : element.stride.toNat = element.size.toNat := by
  have small := element.size.isLt
  rw [stride, BitVec.toNat_setWidth]
  omega

theorem words_eq_stride : 8 * (element.size.setWidth 64 / 8 : Address) = element.stride := by
  apply BitVec.eq_of_toNat_eq
  have size := element.stride_toNat
  have small := element.size.isLt
  have aligned := element.aligned
  rw [stride] at size ⊢
  rw [BitVec.toNat_mul, BitVec.toNat_udiv, size]
  rw [eight_toNat]
  omega

theorem head_mem : element.pointers.head element.nonempty ∈ element.pointers := List.head_mem _

theorem stride_pos : 0 < element.stride.toNat := by
  have below := element.inside _ element.head_mem
  rw [element.stride_toNat]
  omega

theorem firstPtr_nonneg : 0 ≤ element.firstPtr.toInt := by
  rw [element.first]
  exact Int.natCast_nonneg _

theorem firstPtr_eq : element.firstPtr.signExtend 64 = element.pointers.head element.nonempty := by
  rw [BitVec.signExtend, element.first, BitVec.ofInt_natCast, BitVec.ofNat_toNat,
    BitVec.setWidth_eq]

def elementAt (ptr : Address) (i : Nat) : Address := ptr + BitVec.ofNat 64 i * element.stride

def elementSlots (ptr : Address) (i : Nat) : List JuliaVMSlot :=
  pointerSlots element.pointers (element.elementAt ptr i)

end ElementLayout

/-- A generic memory that holds its data itself or manages it, of a given datatype. -/
structure MemoryAt (runtime : Runtime) (memory : Memory) (m vt layout ptr : Address)
    (length : Usize) : Prop where
  typetag : mmtkJlTypetagof memory m = .ok vt
  symbol : vt ≠ runtime.symbolType
  buffer : vt ≠ runtime.buffTag
  large : ¬ vt < maxTags
  datatype : checkDatatype memory vt = .ok ()
  name : datatypeName memory vt = .ok runtime.genericmemoryTypename
  array : runtime.genericmemoryTypename ≠ runtime.arrayTypename
  layout : datatypeLayout memory vt = .ok layout
  how : runtime.genericmemoryHow memory m ≠ 3
  length : loadU64 memory m = .ok length
  ptr : loadU64 memory (m + 8) = .ok ptr

theorem structTags_small : ∀ tag ∈ structTags, tag < maxTags := by
  simp [structTags, maxTags, smallTag]

section Scan

variable {runtime : Runtime} {memory : Memory} {m vt address ptr : Address} {length : Usize}
  {element : ElementLayout}

theorem MemoryAt.scan_eq (at_ : MemoryAt runtime memory m vt address ptr length) (fuel : Nat) :
    scanJuliaObject runtime memory fuel m = scanGenericMemory runtime memory vt m := by
  have struct : vt ∉ structTags := fun member => at_.large (structTags_small vt member)
  rw [scanJuliaObject]
  simp only [at_.typetag, bind, Except.bind, at_.symbol, at_.buffer, or_self, if_false, struct,
    if_neg at_.large, at_.datatype]
  rw [scanDatatype]
  simp only [at_.name, bind, Except.bind, if_neg at_.array, if_true, pure, Except.pure]
  cases scanGenericMemory runtime memory vt m <;> rfl

theorem MemoryAt.elements_eq (at_ : MemoryAt runtime memory m vt address ptr length)
    (stored : LayoutAt memory address element.toLayout) :
    scanGenericMemory runtime memory vt m =
      if length = 0 then .ok [] else scanElements memory address ptr length := by
  rw [scanGenericMemory, if_neg at_.how]
  simp only [at_.length, at_.layout, stored.flags, stored.firstPtr, at_.ptr, bind, Except.bind,
    element.unboxed, Bool.false_eq_true, if_false, if_pos element.firstPtr_nonneg]
  rfl

theorem objaryEnd_toNat (lower : ptr.toNat + length.toNat * element.size.toNat ≤ 2 ^ 63) :
    (shift ptr (length * (element.size.setWidth 64 / 8))).toNat =
      ptr.toNat + length.toNat * element.stride.toNat := by
  have total : 8 * (length * (element.size.setWidth 64 / 8)) = length * element.stride := by
    rw [← element.words_eq_stride, ← BitVec.mul_assoc, ← BitVec.mul_assoc, BitVec.mul_comm 8]
  have product : (length * element.stride).toNat = length.toNat * element.stride.toNat := by
    rw [BitVec.toNat_mul, element.stride_toNat]
    exact Nat.mod_eq_of_lt (by omega)
  rw [shift, total, BitVec.toNat_add, product, element.stride_toNat]
  exact Nat.mod_eq_of_lt (by omega)

theorem collect_elements (visit : Address → Scan)
    (visits : ∀ i, i < length.toNat →
      visit (element.elementAt ptr i) = .ok (element.elementSlots ptr i)) :
    collect visit (stopsOf element.stride length.toNat ptr) =
      .ok ((List.range length.toNat).flatMap (element.elementSlots ptr)) := by
  rw [stopsOf_eq_map, collect_map]
  apply collect_ok
  intro i member
  exact visits i (List.mem_range.mp member)

theorem scanElements_one (stored : LayoutAt memory address element.toLayout)
    (lower : ptr.toNat + length.toNat * element.size.toNat ≤ 2 ^ 63)
    (one : element.npointers = 1) :
    scanElements memory address ptr length =
      .ok ((List.range length.toNat).flatMap (element.elementSlots ptr)) := by
  have count : element.pointers.length = 1 := by
    rw [element.count, one]
    rfl
  rcases List.length_eq_one_iff.mp count with ⟨pointer, only⟩
  have head : element.pointers.head element.nonempty = pointer := by simp [only]
  have below := element.inside pointer (by simp [only])
  have small := element.size.isLt
  have size := element.stride_toNat
  have start : (shift ptr pointer).toNat = ptr.toNat + 8 * pointer.toNat := by
    apply shift_toNat
    omega
  have limit := objaryEnd_toNat lower
  rw [scanElements]
  simp only [stored.npointers, stored.size, stored.firstPtr, bind, Except.bind, if_pos one,
    element.words_eq_stride, element.firstPtr_eq, head]
  rw [whileBelow_eq_collect length.toNat element.stride_pos]
  · rw [stopsOf_eq_map, collect_map]
    apply collect_ok
    intro i _
    have place : shift ptr pointer + BitVec.ofNat 64 i * element.stride =
        shift (element.elementAt ptr i) pointer := by
      rw [shift, shift, ElementLayout.elementAt, BitVec.add_assoc, BitVec.add_assoc,
        BitVec.add_comm (8 * pointer)]
    rw [processSlot, place, ElementLayout.elementSlots, only]
    rfl
  · rw [start, size]
    omega
  · intro i inside
    have steps : (i + 1) * element.stride.toNat ≤ length.toNat * element.stride.toNat :=
      Nat.mul_le_mul_right _ inside
    rw [Nat.succ_mul] at steps
    rw [start, limit]
    omega
  · rw [start, limit]
    omega

theorem whileBelow_elements (lower : ptr.toNat + length.toNat * element.size.toNat ≤ 2 ^ 63)
    {visit : Address → Scan}
    (visits : ∀ obj, visit obj = .ok (pointerSlots element.pointers obj)) :
    whileBelow visit ptr (shift ptr (length * (element.size.setWidth 64 / 8))) element.stride =
      .ok ((List.range length.toNat).flatMap (element.elementSlots ptr)) := by
  rw [whileBelow_extent length.toNat element.stride_pos (objaryEnd_toNat lower)]
  apply collect_elements
  intro i _
  exact visits _

theorem scanElements_general (stored : LayoutAt memory address element.toLayout)
    (lower : ptr.toNat + length.toNat * element.size.toNat ≤ 2 ^ 63)
    (several : element.npointers ≠ 1) (narrow : element.fielddescType ≠ 2) :
    scanElements memory address ptr length =
      .ok ((List.range length.toNat).flatMap (element.elementSlots ptr)) := by
  rw [scanElements]
  simp only [stored.npointers, stored.size, stored.flags, stored.ptrs, bind, Except.bind,
    if_neg several, element.words_eq_stride]
  change (if element.fielddescType = 0 then _ else if element.fielddescType = 1 then _ else _) = _
  by_cases obj8 : element.fielddescType = 0
  · rw [if_pos obj8]
    exact whileBelow_elements lower (fun obj => stored.scanObj8_eq obj8 obj)
  by_cases obj16 : element.fielddescType = 1
  · rw [if_neg obj8, if_pos obj16]
    exact whileBelow_elements lower (fun obj => stored.scanObj16_eq obj16 obj)
  exact absurd (fielddescType_cases element.known obj8 obj16) narrow

theorem scanElements_wide (stored : LayoutAt memory address element.toLayout)
    (several : element.npointers ≠ 1) (wide : element.fielddescType = 2) :
    scanElements memory address ptr length = .error .unimplemented := by
  rw [scanElements]
  simp only [stored.npointers, stored.size, stored.flags, bind, Except.bind, if_neg several]
  change (if element.fielddescType = 0 then _ else if element.fielddescType = 1 then _ else _) = _
  rw [wide, if_neg (by decide), if_neg (by decide)]
  rfl

/-- The scan of the memory is the concatenation of the plain-object loop over its elements unless
it meets more than one pointer with 32-bit descriptors. -/
theorem memory_scan_concatenates_elements_iff (fuel : Nat)
    (at_ : MemoryAt runtime memory m vt address ptr length)
    (stored : LayoutAt memory address element.toLayout)
    (lower : ptr.toNat + length.toNat * element.size.toNat ≤ 2 ^ 63) :
    ∃ slots : Nat → List JuliaVMSlot,
      (∀ i, scanPointers memory address (ptr + BitVec.ofNat 64 i * element.size.setWidth 64) =
        .ok (slots i)) ∧
      (scanJuliaObject runtime memory fuel m = .ok ((List.range length.toNat).flatMap slots) ↔
        length = 0 ∨ element.npointers = 1 ∨ element.fielddescType ≠ 2) := by
  refine ⟨element.elementSlots ptr, ?_, ?_⟩
  · intro i
    exact stored.scanPointers_eq element.known _
  · rw [at_.scan_eq fuel, at_.elements_eq stored]
    by_cases empty : length = 0
    · simp [empty]
    rw [if_neg empty]
    by_cases one : element.npointers = 1
    · rw [scanElements_one stored lower one]
      exact ⟨fun _ => .inr (.inl one), fun _ => rfl⟩
    by_cases wide : element.fielddescType = 2
    · rw [scanElements_wide stored one wide]
      constructor
      · intro returned
        cases returned
      · rintro (none | single | narrow)
        · exact absurd none empty
        · exact absurd single one
        · exact absurd wide narrow
    · rw [scanElements_general stored lower one wide]
      exact ⟨fun _ => .inr (.inr wide), fun _ => rfl⟩

end Scan

/-- A struct of two pointers, laid out with 16-bit or with 32-bit descriptors. -/
def pairLayout (flags : BitVec 16) : Layout where
  size := 16
  nfields := 0
  npointers := 2
  firstPtr := 0
  flags := flags
  pointers := [0, 1]
  count := rfl

/-- A memory of one such struct: the object at 0x10000, its datatype at 0x2000, the layout at
0x3000. -/
def pairWords (flags descriptors : Usize) : List (Address × Usize) := [
  (0xfff8, 0x2000), (0x10000, 1), (0x10008, 0x10010),
  (0x1ff8, 0x20), (0x2000, 0x800), (0x2028, 0x3000), (0x2030, 0),
  (0x3000, 16), (0x3008, 2), (0x3010, flags <<< 16 ||| (descriptors <<< 32)),
  (0x3018, descriptors >>> 32)]

def pairMemory (flags descriptors : Usize) : Memory := .ofWords (pairWords flags descriptors)

def narrowPair : ElementLayout where
  toLayout := pairLayout 2
  known := by decide
  unboxed := by decide
  nonempty := by decide
  aligned := ⟨2, rfl⟩
  inside := by simp [pairLayout]
  first := by decide

def widePair : ElementLayout where
  toLayout := pairLayout 4
  known := by decide
  unboxed := by decide
  nonempty := by decide
  aligned := ⟨2, rfl⟩
  inside := by simp [pairLayout]
  first := by decide

theorem pairMemory_at (flags descriptors : Usize)
    (shown : flags = 2 ∧ descriptors = 0x10000 ∨ flags = 4 ∧ descriptors = 0x100000000) :
    MemoryAt sampleRuntime (pairMemory flags descriptors) 0x10000 0x2000 0x3000 0x10010 1 := by
  rcases shown with ⟨rfl, rfl⟩ | ⟨rfl, rfl⟩ <;> constructor <;> decide +kernel

theorem narrowPair_at : LayoutAt (pairMemory 2 0x10000) 0x3000 narrowPair.toLayout := by
  constructor <;> first | decide +kernel | exact ⟨by decide +kernel, by decide +kernel, trivial⟩

/-- With 16-bit descriptors the memory reports the two pointers of its element. -/
theorem memory_scan_concatenates_elements_iff_narrow :
    ∃ slots : Nat → List JuliaVMSlot,
      scanPointers (pairMemory 2 0x10000) 0x3000 0x10010 = .ok (slots 0) ∧
      scanJuliaObject sampleRuntime (pairMemory 2 0x10000) 0 0x10000 =
        .ok ((List.range 1).flatMap slots) := by
  rcases memory_scan_concatenates_elements_iff 0
      (pairMemory_at 2 0x10000 (.inl ⟨rfl, rfl⟩)) narrowPair_at (by decide) with ⟨slots, plain, whole⟩
  exact ⟨slots, plain 0, whole.mpr (.inr (.inr (by decide)))⟩

/-- With 32-bit descriptors the plain-object loop decodes the element and the memory's scan does
not return. -/
theorem widePair_unimplemented :
    MemoryAt sampleRuntime (pairMemory 4 0x100000000) 0x10000 0x2000 0x3000 0x10010 1 ∧
      LayoutAt (pairMemory 4 0x100000000) 0x3000 widePair.toLayout ∧
      scanPointers (pairMemory 4 0x100000000) 0x3000 0x10010 =
        .ok [.simple 0x10010, .simple 0x10018] ∧
      scanJuliaObject sampleRuntime (pairMemory 4 0x100000000) 0 0x10000 =
        .error .unimplemented := by
  refine ⟨pairMemory_at 4 0x100000000 (.inr ⟨rfl, rfl⟩), ?_, ?_, ?_⟩
  · constructor <;> first | decide +kernel | exact ⟨by decide +kernel, by decide +kernel, trivial⟩
  · decide +kernel
  · decide +kernel

end MmtkJulia.Scanning
