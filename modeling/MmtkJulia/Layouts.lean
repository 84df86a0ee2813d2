import MmtkJulia.Scanning

/-! Type layouts in memory, and what the pointer loops report for them. -/

namespace MmtkJulia.Scanning

theorem shift_toNat {address : Address} {words : Usize}
    (fits : address.toNat + 8 * words.toNat < 2 ^ 64) :
    (shift address words).toNat = address.toNat + 8 * words.toNat := by
  rw [shift, BitVec.toNat_add, BitVec.toNat_mul, eight_toNat]
  omega

theorem whileBelow_eq_collect {visit : Address → Scan} (count : Nat)
    {cursor limit stride : Address} (positive : 0 < stride.toNat)
    (fits : cursor.toNat + count * stride.toNat < 2 ^ 64)
    (inside : ∀ i, i < count → cursor.toNat + i * stride.toNat < limit.toNat)
    (reached : limit.toNat ≤ cursor.toNat + count * stride.toNat) :
    whileBelow visit cursor limit stride = collect visit (stopsOf stride count cursor) := by
  apply walk_eq_collect count _ cursor _ fits inside reached
  cases count with
  | zero => omega
  | succ count =>
      have last := inside count (by omega)
      have steps : count ≤ count * stride.toNat := Nat.le_mul_of_pos_right _ positive
      have distance : (limit - cursor).toNat = limit.toNat - cursor.toNat := by
        rw [BitVec.toNat_sub]
        omega
      omega

theorem whileBelow_extent {visit : Address → Scan} (count : Nat) {cursor limit stride : Address}
    (positive : 0 < stride.toNat) (extent : limit.toNat = cursor.toNat + count * stride.toNat) :
    whileBelow visit cursor limit stride = collect visit (stopsOf stride count cursor) := by
  apply whileBelow_eq_collect count positive
  · have bounded := limit.isLt
    omega
  · intro i below
    have steps : (i + 1) * stride.toNat ≤ count * stride.toNat := Nat.mul_le_mul_right _ below
    rw [Nat.succ_mul] at steps
    omega
  · omega

def pointerSlots (pointers : List Usize) (obj : Address) : List JuliaVMSlot :=
  pointers.map (fun pointer => .simple (shift obj pointer))

def slotsAt (base : Address) (offsets : List Address) : List JuliaVMSlot :=
  offsets.map (fun offset => .simple (base + offset))

def wordOffsets (count : Nat) : List Address :=
  (List.range count).map (fun i => BitVec.ofNat 64 i * 8)

theorem mem_wordOffsets {count : Nat} {offset : Address} (member : offset ∈ wordOffsets count) :
    offset.toNat + 8 ≤ 8 * count := by
  rcases List.mem_map.mp member with ⟨i, below, rfl⟩
  have inner := List.mem_range.mp below
  rw [BitVec.toNat_mul, BitVec.toNat_ofNat, eight_toNat]
  omega

theorem whileBelow_slots {base limit stride : Address} (count : Nat) (positive : 0 < stride.toNat)
    (fits : base.toNat + count * stride.toNat < 2 ^ 64)
    (inside : ∀ i, i < count → base.toNat + i * stride.toNat < limit.toNat)
    (reached : limit.toNat ≤ base.toNat + count * stride.toNat) :
    whileBelow processSlot base limit stride =
      .ok (slotsAt base ((List.range count).map (fun i => BitVec.ofNat 64 i * stride))) := by
  have visited : collect (fun i => processSlot (base + BitVec.ofNat 64 i * stride)) (List.range count) =
      .ok ((List.range count).flatMap (fun i => [.simple (base + BitVec.ofNat 64 i * stride)])) :=
    collect_ok (fun _ _ => rfl)
  rw [whileBelow_eq_collect count positive fits inside reached, stopsOf_eq_map, collect_map, visited,
    slotsAt, List.map_map, ← List.map_eq_flatMap]
  rfl

theorem whileBelow_words {base : Address} {count : Usize}
    (fits : base.toNat + 8 * count.toNat < 2 ^ 64) :
    whileBelow processSlot base (shift base count) 8 =
      .ok (slotsAt base (wordOffsets count.toNat)) := by
  have limit := shift_toNat fits
  apply whileBelow_slots count.toNat (by decide)
  · rw [eight_toNat]
    omega
  · intro i below
    rw [eight_toNat, limit]
    omega
  · rw [eight_toNat, limit]
    omega

theorem pointerSlots_eq (pointers : List Usize) (obj : Address) :
    pointerSlots pointers obj = slotsAt obj (pointers.map (fun pointer => 8 * pointer)) := by
  rw [pointerSlots, slotsAt, List.map_map]
  rfl

def TableAt (load : Address → Except Fault Usize) (width : Address) : Address → List Usize → Prop
  | _, [] => True
  | address, pointer :: pointers =>
      load address = .ok pointer ∧ TableAt load width (address + width) pointers

theorem scanDescriptors_eq {load : Address → Except Fault Usize} {width obj table : Address}
    {npointers : BitVec 32} {pointers : List Usize} (positive : 0 < width.toNat)
    (stored : TableAt load width table pointers) (count : pointers.length = npointers.toNat)
    (fits : table.toNat + pointers.length * width.toNat < 2 ^ 64) :
    scanDescriptors obj table npointers load width = .ok (pointerSlots pointers obj) := by
  have extent : (table + npointers.setWidth 64 * width).toNat =
      table.toNat + pointers.length * width.toNat := by
    have small := npointers.isLt
    have widened : (npointers.setWidth 64).toNat = npointers.toNat := by
      rw [BitVec.toNat_setWidth]
      omega
    rw [count] at fits ⊢
    have product : (npointers.setWidth 64 * width).toNat = npointers.toNat * width.toNat := by
      rw [BitVec.toNat_mul, widened]
      exact Nat.mod_eq_of_lt (by omega)
    rw [BitVec.toNat_add, product]
    exact Nat.mod_eq_of_lt fits
  rw [scanDescriptors, whileBelow_extent pointers.length positive extent]
  clear extent fits count
  induction pointers generalizing table with
  | nil => rfl
  | cons pointer pointers ih =>
      rw [List.length_cons, stopsOf, collect, ih stored.2, stored.1]
      rfl

/-- What a layout in memory says: its own fields, and the word offsets of the pointers. -/
structure Layout where
  size : BitVec 32
  nfields : BitVec 32
  npointers : BitVec 32
  firstPtr : BitVec 32
  flags : BitVec 16
  pointers : List Usize
  count : pointers.length = npointers.toNat
  deriving DecidableEq, Repr

namespace Layout

variable (layout : Layout)

def fielddescType : BitVec 16 := fielddescTypeCustom layout.flags

def table (address : Address) : Address :=
  mmtkJlDtLayoutFields address +
    (mmtkJlFielddescSize layout.fielddescType * layout.nfields).setWidth 64

def width : Address := 1 <<< layout.fielddescType.toNat

def loadDescriptor (memory : Memory) (desc : Address) : Except Fault Usize :=
  if layout.fielddescType = 0 then do return (← loadU8 memory desc).setWidth 64
  else if layout.fielddescType = 1 then do return (← loadU16 memory desc).setWidth 64
  else do return (← loadU32 memory desc).setWidth 64

end Layout

theorem fielddescType_cases {type : BitVec 16} (known : type ≤ 2) (not0 : type ≠ 0)
    (not1 : type ≠ 1) : type = 2 := by
  rw [BitVec.le_def] at known
  apply BitVec.eq_of_toNat_eq
  have nonzero : type.toNat ≠ 0 := fun zero => not0 (BitVec.eq_of_toNat_eq zero)
  have several : type.toNat ≠ 1 := fun one => not1 (BitVec.eq_of_toNat_eq one)
  have two : (2 : BitVec 16).toNat = 2 := rfl
  omega

structure LayoutAt (memory : Memory) (address : Address) (layout : Layout) : Prop where
  size : layoutSize memory address = .ok layout.size
  nfields : loadU32 memory (address + 4) = .ok layout.nfields
  npointers : layoutNpointers memory address = .ok layout.npointers
  firstPtr : layoutFirstPtr memory address = .ok layout.firstPtr
  flags : layoutFlags memory address = .ok layout.flags
  table : TableAt (layout.loadDescriptor memory) layout.width (layout.table address) layout.pointers
  fits : (layout.table address).toNat + layout.pointers.length * layout.width.toNat < 2 ^ 64

namespace LayoutAt

variable {memory : Memory} {address : Address} {layout : Layout}

theorem ptrs (at_ : LayoutAt memory address layout) :
    mmtkJlDtLayoutPtrs memory address = .ok (layout.table address) := by
  simp only [mmtkJlDtLayoutPtrs, at_.flags, at_.nfields, bind, Except.bind]
  rfl

theorem scanTable_eq (at_ : LayoutAt memory address layout) (positive : 0 < layout.width.toNat)
    (obj : Address) :
    scanDescriptors obj (layout.table address) layout.npointers (layout.loadDescriptor memory)
      layout.width = .ok (pointerSlots layout.pointers obj) :=
  scanDescriptors_eq positive at_.table layout.count at_.fits

theorem scanObj_eq (at_ : LayoutAt memory address layout) {load : Address → Except Fault Usize}
    {width : Address} (loads : layout.loadDescriptor memory = load) (wide : layout.width = width)
    (positive : 0 < width.toNat) (obj : Address) :
    scanDescriptors obj (layout.table address) layout.npointers load width =
      .ok (pointerSlots layout.pointers obj) := by
  rw [← loads, ← wide]
  exact at_.scanTable_eq (wide ▸ positive) obj

theorem scanObj8_eq (at_ : LayoutAt memory address layout) (type : layout.fielddescType = 0)
    (obj : Address) :
    scanObj8 memory obj (layout.table address) layout.npointers =
      .ok (pointerSlots layout.pointers obj) := by
  apply at_.scanObj_eq _ _ (by decide)
  · funext desc
    rw [Layout.loadDescriptor, type]
    rfl
  · simp [Layout.width, type]

theorem scanObj16_eq (at_ : LayoutAt memory address layout) (type : layout.fielddescType = 1)
    (obj : Address) :
    scanObj16 memory obj (layout.table address) layout.npointers =
      .ok (pointerSlots layout.pointers obj) := by
  apply at_.scanObj_eq _ _ (by decide)
  · funext desc
    rw [Layout.loadDescriptor, type]
    rfl
  · simp [Layout.width, type]

theorem scanObj32_eq (at_ : LayoutAt memory address layout) (type : layout.fielddescType = 2)
    (obj : Address) :
    scanObj32 memory obj (layout.table address) layout.npointers =
      .ok (pointerSlots layout.pointers obj) := by
  apply at_.scanObj_eq _ _ (by decide)
  · funext desc
    rw [Layout.loadDescriptor, type]
    rfl
  · simp [Layout.width, type]

/-- The plain-object loop reports the pointers of the layout, whatever their width. -/
theorem scanPointers_eq (at_ : LayoutAt memory address layout) (known : layout.fielddescType ≤ 2)
    (obj : Address) :
    scanPointers memory address obj = .ok (pointerSlots layout.pointers obj) := by
  rw [scanPointers]
  simp only [at_.npointers, at_.flags, at_.ptrs, bind, Except.bind]
  by_cases none : layout.npointers = 0
  · have empty : layout.pointers = [] := by
      apply List.eq_nil_of_length_eq_zero
      rw [layout.count, none]
      rfl
    rw [if_pos none, empty]
    rfl
  · rw [if_neg none]
    change (if layout.fielddescType = 0 then _ else if layout.fielddescType = 1 then _
      else if layout.fielddescType = 2 then _ else _) = _
    by_cases obj8 : layout.fielddescType = 0
    · rw [if_pos obj8, at_.scanObj8_eq obj8]
    by_cases obj16 : layout.fielddescType = 1
    · rw [if_neg obj8, if_pos obj16, at_.scanObj16_eq obj16]
    have obj32 := fielddescType_cases known obj8 obj16
    rw [if_neg obj8, if_neg obj16, if_pos obj32, at_.scanObj32_eq obj32]

end LayoutAt

end MmtkJulia.Scanning
