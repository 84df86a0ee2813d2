import MmtkJulia.ObjectExtent
import MmtkJulia.Slots

/-! The elements of a simple vector, as the scan loop, the accessor and the size function address
them. -/

namespace MmtkJulia.Scanning

/-- The accessor of an element, without its two debug assertions. It adds the index to the address
of the data, in bytes. -/
def mmtkJlSvecref (memory : Memory) (vt : Address) (i : Usize) : Except Fault Usize :=
  let svecData := mmtkJlSvecData vt
  let resultPtr := svecData + i
  loadU64 memory resultPtr

section Places

def ReadsWord (read : Memory → Except Fault Usize) (address : Address) : Prop :=
  ∀ memory, read memory = loadU64 memory address

theorem loadU64_place {first second : Address}
    (same : ∀ memory, loadU64 memory first = loadU64 memory second) : first = second := by
  have inside : ∀ i, i < 8 → Memory.Within first 8 (second + BitVec.ofNat 64 i) := by
    intro i below
    have loaded := loadU64_store (fun _ => none) first 0
    rw [same] at loaded
    rcases Memory.load_mapped (load_of_loadU64 loaded) i below with ⟨byte, mapped⟩
    by_contra outside
    rw [Memory.store_outside _ outside] at mapped
    cases mapped
  have low := inside 0 (by decide)
  have high := inside 7 (by decide)
  rw [Memory.Within] at low high
  bv_omega

theorem ReadsWord.unique {read : Memory → Except Fault Usize} {first second : Address}
    (here : ReadsWord read first) (there : ReadsWord read second) : first = second :=
  loadU64_place (fun memory => (here memory).symm.trans (there memory))

end Places

/-- The slots of a scan against the size: as many as the length, words that do not overlap, inside
the object. -/
structure SlotsInside (length : Usize) (slots : List JuliaVMSlot) (start : Address) (size : Usize) :
    Prop where
  counted : slots.length = length.toNat
  apart : slots.Pairwise (fun slot other => Apart slot.address other.address)
  within : ∀ slot ∈ slots,
    start.toNat ≤ slot.address.toNat ∧ slot.address.toNat + 8 ≤ start.toNat + size.toNat

/-- And against the accessor: the slots are the elements it reads, in order. -/
structure VectorViews (v : Address) (length : Usize) (slots : List JuliaVMSlot) (start : Address)
    (size : Usize) : Prop extends SlotsInside length slots start size where
  elements : ∀ i : Usize, i < length → ∃ slot, slots[i.toNat]? = some slot ∧
    ReadsWord (mmtkJlSvecref · v i) slot.address

def ViewsAgree (runtime : Runtime) (memory : Memory) (fuel : Nat) (v : Address) : Prop :=
  ∃ length slots start size,
    mmtkJlSvecLen memory v = .ok length ∧ scanJuliaObject runtime memory fuel v = .ok slots ∧
    getObjectStartRef runtime memory v = .ok start ∧ getSoObjectSize runtime memory v = .ok size ∧
    VectorViews v length slots start size

section Elements

variable {v : Address} {length : Usize}

def elementSlot (v : Address) (i : Usize) : JuliaVMSlot := .simple (shift (mmtkJlSvecData v) i)

theorem vectorSlots_eq (v : Address) (count : Nat) :
    slotsAt (v + 8) (wordOffsets count) =
      (List.range count).map (fun i => elementSlot v (BitVec.ofNat 64 i)) := by
  rw [slotsAt, wordOffsets, List.map_map]
  apply List.map_congr_left
  intro i _
  rw [Function.comp_apply, elementSlot, shift, BitVec.mul_comm]
  rfl

theorem vectorSlots_getElem (i : Usize) (below : i < length) :
    (slotsAt (v + 8) (wordOffsets length.toNat))[i.toNat]? = some (elementSlot v i) := by
  rw [vectorSlots_eq, List.getElem?_map, List.getElem?_range (BitVec.lt_def.mp below), Option.map_some,
    BitVec.ofNat_toNat, BitVec.setWidth_eq]

theorem elements_apart (fits : v.toNat + (8 * length.toNat + 8) ≤ 2 ^ 64) :
    (slotsAt (v + 8) (wordOffsets length.toNat)).Pairwise
      (fun slot other => Apart slot.address other.address) := by
  have start : (v + 8).toNat + 8 * length.toNat ≤ 2 ^ 64 := by bv_omega
  rw [vectorSlots_eq, List.pairwise_map]
  apply List.Pairwise.imp_of_mem _ List.pairwise_lt_range
  intro i j before after ordered
  exact words_apart length.toNat start (List.mem_range.mp before) (List.mem_range.mp after) ordered.ne

theorem mmtkJlSvecref_reads (v : Address) (i : Usize) :
    ReadsWord (mmtkJlSvecref · v i) (mmtkJlSvecData v + i) :=
  fun _ => rfl

theorem zero_of_scaled {i : Usize} (fits : 8 * i.toNat < 2 ^ 64) (scaled : i = 8 * i) : i = 0 := by
  have value := congrArg BitVec.toNat scaled
  rw [BitVec.toNat_mul, eight_toNat, Nat.mod_eq_of_lt fits] at value
  have zero : i.toNat = 0 := by omega
  exact BitVec.eq_of_toNat_eq zero

/-- Only at index zero do the byte offset and the word offset meet. -/
theorem svecref_slot_iff {i : Usize} (below : i < length) (fits : 8 * length.toNat < 2 ^ 64) :
    ReadsWord (mmtkJlSvecref · v i) (elementSlot v i).address ↔ i = 0 := by
  constructor
  · intro agrees
    have same : mmtkJlSvecData v + i = shift (mmtkJlSvecData v) i :=
      (mmtkJlSvecref_reads v i).unique agrees
    have small : 8 * i.toNat < 2 ^ 64 :=
      lt_of_le_of_lt (Nat.mul_le_mul_left 8 (BitVec.lt_def.mp below).le) fits
    exact zero_of_scaled small ((BitVec.add_right_inj _).mp same)
  · intro first
    subst first
    exact mmtkJlSvecref_reads v 0

end Elements

section Views

variable {runtime : Runtime} {memory : Memory} {fuel : Nat} {v : Address} {length : Usize}

theorem vectorSlots_inside {start : Address} {size : Usize} (above : start.toNat ≤ v.toNat)
    (fits : v.toNat + (8 * length.toNat + 8) < 2 ^ 64)
    (enough : v.toNat + (8 * length.toNat + 8) ≤ start.toNat + size.toNat) :
    SlotsInside length (slotsAt (v + 8) (wordOffsets length.toNat)) start size where
  counted := by rw [vectorSlots_eq, List.length_map, List.length_range]
  apart := elements_apart fits.le
  within := by
    intro slot member
    have data : (v + 8).toNat = v.toNat + 8 := by bv_omega
    rcases slotsAt_within (by omega) (fun _ => mem_wordOffsets) slot member with ⟨low, high⟩
    omega

theorem vectorViews_iff {start : Address} {size : Usize}
    (fits : v.toNat + (8 * length.toNat + 8) < 2 ^ 64)
    (inside : SlotsInside length (slotsAt (v + 8) (wordOffsets length.toNat)) start size) :
    VectorViews v length (slotsAt (v + 8) (wordOffsets length.toNat)) start size ↔
      length.toNat ≤ 1 := by
  constructor
  · intro views
    by_contra several
    have second : (1 : Usize) < length := by
      rw [BitVec.lt_def]
      exact not_le.mp several
    obtain ⟨slot, found, reads⟩ := views.elements 1 second
    rw [vectorSlots_getElem 1 second] at found
    rw [← Option.some.inj found] at reads
    exact absurd ((svecref_slot_iff second (by omega)).mp reads) (by decide)
  · intro short
    refine ⟨inside, ?_⟩
    intro i below
    refine ⟨elementSlot v i, vectorSlots_getElem i below, ?_⟩
    apply (svecref_slot_iff below (by omega)).mpr
    have index : i.toNat < length.toNat := below
    exact BitVec.eq_of_toNat_eq (Nat.lt_one_iff.mp (index.trans_le short))

/-- The three views of a vector agree exactly where there is no second element. -/
theorem views_agree_iff (statics : Statics runtime)
    (types : ∀ tag, runtime.smallTypeof tag ≠ runtime.buffTag)
    (small : SmallAt runtime memory v simplevectorTag)
    (counted : mmtkJlSvecLen memory v = .ok length) (behind : 8 ≤ v.toNat)
    (room : v.toNat + (8 * length.toNat + 8) + 16 ≤ 2 ^ 63) :
    ViewsAgree runtime memory fuel v ↔ length.toNat ≤ 1 := by
  have kind : Occupies runtime memory fuel v ⟨8 * length.toNat + 8, 16, fun _ => False⟩ :=
    .vector small counted
  have scanned := small.scan_vector statics counted (by omega) fuel
  have began := kind.start_eq statics types
  obtain ⟨size, sized, rounded⟩ := vector_rounded statics small counted (by omega)
  have enough := rounded.enough
  have start : (v - 8).toNat = v.toNat - 8 := by bv_omega
  have inside := @vectorSlots_inside v length (v - 8) size (by omega) (by omega) (by omega)
  rw [← vectorViews_iff (by omega) inside]
  constructor
  · rintro ⟨found, slots, first, bytes, lengths, ran, begins, sizes, agree⟩
    cases lengths.symm.trans counted
    cases ran.symm.trans scanned
    cases begins.symm.trans began
    cases sizes.symm.trans sized
    exact agree
  · intro agree
    exact ⟨length, _, v - 8, size, counted, scanned, began, sized, agree⟩

end Views

/-- A vector at 0x10000 with room for two elements. -/
def sampleVector (length : Usize) : Memory :=
  Memory.ofWords [(0, 0x900), (0xfff8, simplevectorTag), (0x10000, length), (0x10008, 0x20000),
    (0x10010, 0x30000)]

theorem sampleVector_small {length : Usize} (known : length = 1 ∨ length = 2) :
    SmallAt sampleRuntime (sampleVector length) 0x10000 simplevectorTag := by
  rcases known with rfl | rfl
  · exact ⟨by decide +kernel, by decide, by decide, 0x900, by decide +kernel, by decide⟩
  · exact ⟨by decide +kernel, by decide, by decide, 0x900, by decide +kernel, by decide⟩

theorem views_agree_iff_single : ViewsAgree sampleRuntime (sampleVector 1) 0 0x10000 :=
  (@views_agree_iff sampleRuntime (sampleVector 1) 0 0x10000 1 sampleRuntime_statics
    (fun _ => (by decide : (0 : Address) ≠ 0x4eade800)) (sampleVector_small (.inl rfl))
    (by decide +kernel) (by decide) (by decide)).mpr (by decide)

/-- The second element of a pair is 0x30000. The accessor reads one byte behind the start of the
first. -/
theorem views_disagree_pair :
    scanJuliaObject sampleRuntime (sampleVector 2) 0 0x10000 =
      .ok [.simple 0x10008, .simple 0x10010] ∧
    loadU64 (sampleVector 2) 0x10010 = .ok 0x30000 ∧
    mmtkJlSvecref (sampleVector 2) 0x10000 1 = .ok 0x200 ∧
    ¬ ViewsAgree sampleRuntime (sampleVector 2) 0 0x10000 := by
  have pair : scanJuliaObject sampleRuntime (sampleVector 2) 0 0x10000 =
      .ok [.simple 0x10008, .simple 0x10010] := by decide +kernel
  have element : loadU64 (sampleVector 2) 0x10010 = .ok 0x30000 := by decide +kernel
  have accessed : mmtkJlSvecref (sampleVector 2) 0x10000 1 = .ok 0x200 := by decide +kernel
  refine ⟨pair, element, accessed, ?_⟩
  rintro ⟨length, slots, start, size, counted, scanned, -, -, views⟩
  have two : mmtkJlSvecLen (sampleVector 2) 0x10000 = .ok 2 := by decide +kernel
  cases counted.symm.trans two
  cases scanned.symm.trans pair
  obtain ⟨slot, found, reads⟩ := views.elements 1 (by decide)
  cases found
  have same := (reads (sampleVector 2)).symm.trans accessed
  rw [JuliaVMSlot.address_simple, element] at same
  exact absurd (Except.ok.inj same) (by decide)

end MmtkJulia.Scanning
