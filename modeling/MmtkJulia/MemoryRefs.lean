import MmtkJulia.HeapObjects
import MmtkJulia.Slots

/-! Objects that start with a memory reference, ptr_or_offset and mem, and what tracing their
slots makes of the two words. -/

namespace MmtkJulia.Scanning

/-- An array or a boxed memory reference. The layout lists mem among its pointers and leaves
ptr_or_offset out. -/
structure RefAt (runtime : Runtime) (memory : Memory) (obj : Address) (vtag : Usize)
    (vt name address : Address) (layout : Layout) (ptrOrOffset mem : Address) : Prop where
  plain : PlainAt runtime memory obj vtag vt name address layout
  strong : vt ≠ runtime.weakrefType
  ptr : loadU64 memory obj = .ok ptrOrOffset
  mem : loadU64 memory (obj + 8) = .ok mem
  listed : 1 ∈ layout.pointers
  raw : 0 ∉ layout.pointers
  distinct : layout.pointers.Nodup
  whole : ∀ pointer ∈ layout.pointers, 8 * pointer.toNat + 8 ≤ layout.size.toNat
  fields : ∀ pointer ∈ layout.pointers, ∃ word, loadU64 memory (shift obj pointer) = .ok word
  bounded : obj.toNat + layout.size.toNat ≤ 2 ^ 64

def Reported (runtime : Runtime) (name ptrOrOffset mem : Address) : Prop :=
  name = runtime.arrayTypename ∧ runtime.isManaged ptrOrOffset ∧ mem < ptrOrOffset

instance (runtime : Runtime) (name ptrOrOffset mem : Address) :
    Decidable (Reported runtime name ptrOrOffset mem) := inferInstanceAs (Decidable (_ ∧ _))

def refSlots (runtime : Runtime) (name obj ptrOrOffset mem : Address) (pointers : List Usize) :
    List JuliaVMSlot :=
  (if Reported runtime name ptrOrOffset mem then [.offset obj (ptrOrOffset - mem)] else []) ++
    pointerSlots pointers obj

def tracedPtr (runtime : Runtime) (traceObject : Address → ObjectReference)
    (name ptrOrOffset mem : Address) : Address :=
  if Reported runtime name ptrOrOffset mem ∧ mem ≠ 0 then
    (traceObject mem).addr + (ptrOrOffset - mem)
  else ptrOrOffset

def tracedMem (traceObject : Address → ObjectReference) (mem : Address) : Address :=
  if mem = 0 then 0 else (traceObject mem).addr

theorem shift_zero (obj : Address) : shift obj 0 = obj := by
  simp [shift]

theorem shift_one (obj : Address) : shift obj 1 = obj + 8 := by
  simp [shift]

section Holder

variable {runtime : Runtime} {memory : Memory} {obj : Address} {vtag : Usize}
  {vt name address : Address} {layout : Layout} {ptrOrOffset mem : Address}

theorem RefAt.scan_eq (at_ : RefAt runtime memory obj vtag vt name address layout ptrOrOffset mem)
    (fuel : Nat) : scanJuliaObject runtime memory fuel obj =
      .ok (refSlots runtime name obj ptrOrOffset mem layout.pointers) := by
  rw [at_.plain.scan_eq fuel, if_neg at_.strong, refSlots]
  by_cases array : name = runtime.arrayTypename
  · rw [if_pos array, scanArrayRef, at_.ptr, at_.mem]
    by_cases below : runtime.isManaged ptrOrOffset ∧ mem < ptrOrOffset
    · have reported : Reported runtime name ptrOrOffset mem := ⟨array, below⟩
      simp only [bind, Except.bind, if_pos below, if_pos reported]
      rfl
    · have silent : ¬ Reported runtime name ptrOrOffset mem := fun reported => below reported.2
      simp only [bind, Except.bind, if_neg below, if_neg silent]
      rfl
  · have silent : ¬ Reported runtime name ptrOrOffset mem := fun reported => array reported.1
    rw [if_neg array, if_neg silent]
    rfl

theorem RefAt.slot_word (at_ : RefAt runtime memory obj vtag vt name address layout ptrOrOffset mem)
    {slot : JuliaVMSlot} (member : slot ∈ refSlots runtime name obj ptrOrOffset mem layout.pointers) :
    ∃ word : Usize, slot.address = shift obj word ∧ 8 * word.toNat + 8 ≤ layout.size.toNat := by
  have zero : (0 : Usize).toNat = 0 := rfl
  rcases List.mem_append.mp member with interior | listed
  · have first := at_.whole 1 at_.listed
    split_ifs at interior
    · rw [List.mem_singleton.mp interior]
      refine ⟨0, (shift_zero obj).symm, ?_⟩
      omega
    · cases interior
  · rcases List.mem_map.mp listed with ⟨pointer, present, rfl⟩
    exact ⟨pointer, rfl, at_.whole pointer present⟩

theorem RefAt.slot_reads (at_ : RefAt runtime memory obj vtag vt name address layout ptrOrOffset mem)
    {slot : JuliaVMSlot} (member : slot ∈ refSlots runtime name obj ptrOrOffset mem layout.pointers) :
    loadU64 memory slot.address = .ok (wordAt memory slot.address) := by
  have mapped : ∃ word, loadU64 memory slot.address = .ok word := by
    rcases List.mem_append.mp member with interior | listed
    · split_ifs at interior
      · rw [List.mem_singleton.mp interior]
        exact ⟨ptrOrOffset, at_.ptr⟩
      · cases interior
    · rcases List.mem_map.mp listed with ⟨pointer, present, rfl⟩
      exact at_.fields pointer present
  rcases mapped with ⟨word, loaded⟩
  rw [wordAt_eq loaded]
  exact loaded

theorem RefAt.pointer_apart
    (at_ : RefAt runtime memory obj vtag vt name address layout ptrOrOffset mem) {pointer : Usize}
    (present : pointer ∈ layout.pointers) : Apart obj (shift obj pointer) := by
  have first := at_.whole 1 at_.listed
  have zero : (0 : Usize).toNat = 0 := rfl
  have distinct : (0 : Usize) ≠ pointer := by
    rintro rfl
    exact at_.raw present
  have apart := shift_apart at_.bounded (by omega) (at_.whole pointer present) distinct
  rw [shift_zero] at apart
  exact apart

theorem RefAt.slots_beside
    (at_ : RefAt runtime memory obj vtag vt name address layout ptrOrOffset mem)
    {other : Address} {extent : Nat} (limited : other.toNat + extent ≤ 2 ^ 64)
    (disjoint : obj.toNat + layout.size.toNat ≤ other.toNat ∨ other.toNat + extent ≤ obj.toNat)
    {word : Usize} (within : 8 * word.toNat + 8 ≤ extent) :
    ∀ slot ∈ refSlots runtime name obj ptrOrOffset mem layout.pointers,
      Apart slot.address (shift other word) := by
  intro slot member
  rcases at_.slot_word member with ⟨own, lies, inside⟩
  rw [lies]
  exact shift_apart_objects at_.bounded limited inside within disjoint

theorem RefAt.slots_beside_start
    (at_ : RefAt runtime memory obj vtag vt name address layout ptrOrOffset mem)
    {other : Address} {extent : Nat} (limited : other.toNat + extent ≤ 2 ^ 64)
    (disjoint : obj.toNat + layout.size.toNat ≤ other.toNat ∨ other.toNat + extent ≤ obj.toNat)
    (some : 8 ≤ extent) :
    ∀ slot ∈ refSlots runtime name obj ptrOrOffset mem layout.pointers, Apart slot.address other := by
  have zero : (0 : Usize).toNat = 0 := rfl
  have beside := at_.slots_beside limited disjoint (show 8 * (0 : Usize).toNat + 8 ≤ extent by omega)
  rw [shift_zero] at beside
  exact beside

theorem RefAt.slots_apart
    (at_ : RefAt runtime memory obj vtag vt name address layout ptrOrOffset mem) :
    (refSlots runtime name obj ptrOrOffset mem layout.pointers).Pairwise
      (fun slot other => Apart slot.address other.address) := by
  have fields : (pointerSlots layout.pointers obj).Pairwise
      (fun slot other => Apart slot.address other.address) := by
    apply List.pairwise_map.mpr
    apply at_.distinct.imp_of_mem
    intro first second member present distinct
    exact shift_apart at_.bounded (at_.whole first member) (at_.whole second present) distinct
  apply List.pairwise_append.mpr
  refine ⟨?_, fields, ?_⟩
  · split_ifs
    · exact List.pairwise_singleton _ _
    · exact List.Pairwise.nil
  · intro slot interior other listed
    rcases List.mem_map.mp listed with ⟨pointer, present, rfl⟩
    split_ifs at interior
    · rw [List.mem_singleton.mp interior]
      exact at_.pointer_apart present
    · cases interior

section Traced

variable {traceObject : Address → ObjectReference} {after : Memory} {slots : List JuliaVMSlot}

theorem RefAt.mem_after (at_ : RefAt runtime memory obj vtag vt name address layout ptrOrOffset mem)
    (own : ∀ slot ∈ refSlots runtime name obj ptrOrOffset mem layout.pointers, slot ∈ slots)
    (updated : ∀ slot ∈ slots, loadU64 after slot.address =
      .ok (slot.updated traceObject (wordAt memory slot.address))) :
    loadU64 after (obj + 8) = .ok (tracedMem traceObject mem) := by
  have listed : JuliaVMSlot.simple (obj + 8) ∈ slots := by
    apply own
    apply List.mem_append_right
    rw [← shift_one obj]
    exact List.mem_map.mpr ⟨1, at_.listed, rfl⟩
  have word := updated _ listed
  rw [JuliaVMSlot.address_simple, wordAt_eq at_.mem] at word
  rw [word, tracedMem]
  by_cases null : mem = 0
  · rw [if_pos null, null, JuliaVMSlot.updated_null]
  · rw [if_neg null, JuliaVMSlot.updated_simple _ traceObject null]

theorem RefAt.ptr_after (at_ : RefAt runtime memory obj vtag vt name address layout ptrOrOffset mem)
    (own : ∀ slot ∈ refSlots runtime name obj ptrOrOffset mem layout.pointers, slot ∈ slots)
    (beside : ∀ slot ∈ slots,
      slot ∉ refSlots runtime name obj ptrOrOffset mem layout.pointers → Apart slot.address obj)
    (updated : ∀ slot ∈ slots, loadU64 after slot.address =
      .ok (slot.updated traceObject (wordAt memory slot.address)))
    (unchanged : ∀ address, (∀ slot ∈ slots, Apart slot.address address) →
      loadU64 after address = loadU64 memory address) :
    loadU64 after obj = .ok (tracedPtr runtime traceObject name ptrOrOffset mem) := by
  by_cases reported : Reported runtime name ptrOrOffset mem
  · have interior : JuliaVMSlot.offset obj (ptrOrOffset - mem) ∈ slots := by
      apply own
      rw [refSlots, if_pos reported]
      exact List.mem_append_left _ (List.mem_singleton.mpr rfl)
    have word := updated _ interior
    have base : ptrOrOffset - (ptrOrOffset - mem) = mem := by bv_omega
    rw [JuliaVMSlot.address_offset, wordAt_eq at_.ptr] at word
    rw [word, tracedPtr]
    by_cases null : mem = 0
    · rw [if_neg (fun both => both.2 null), JuliaVMSlot.updated, JuliaVMSlot.target, base,
        if_pos null]
    · have nonzero : ptrOrOffset - (ptrOrOffset - mem) ≠ 0 := by
        rw [base]
        exact null
      rw [if_pos ⟨reported, null⟩, JuliaVMSlot.updated_offset _ traceObject nonzero, base]
  · have clear : ∀ slot ∈ slots, Apart slot.address obj := by
      intro slot member
      by_cases mine : slot ∈ refSlots runtime name obj ptrOrOffset mem layout.pointers
      · rw [refSlots, if_neg reported, List.nil_append] at mine
        rcases List.mem_map.mp mine with ⟨pointer, present, rfl⟩
        exact (at_.pointer_apart present).symm
      · exact beside slot member mine
    rw [unchanged obj clear, at_.ptr, tracedPtr, if_neg (fun both => reported both.1)]

theorem RefAt.traced (at_ : RefAt runtime memory obj vtag vt name address layout ptrOrOffset mem)
    (traceObject : Address → ObjectReference) {order : List JuliaVMSlot}
    (same : order.Perm (refSlots runtime name obj ptrOrOffset mem layout.pointers)) :
    ∃ after, traceSlots traceObject order memory = .ok after ∧
      loadU64 after.memory obj = .ok (tracedPtr runtime traceObject name ptrOrOffset mem) ∧
      loadU64 after.memory (obj + 8) = .ok (tracedMem traceObject mem) := by
  have reads : ∀ slot ∈ refSlots runtime name obj ptrOrOffset mem layout.pointers,
      loadU64 memory slot.address = .ok (wordAt memory slot.address) :=
    fun _ member => at_.slot_reads member
  rcases traceSlots_any_order traceObject same at_.slots_apart reads with
    ⟨after, ran, -, updated, unchanged⟩
  refine ⟨after, ran, ?_, ?_⟩
  · exact at_.ptr_after (fun _ member => member) (fun _ member foreign => absurd member foreign)
      updated unchanged
  · exact at_.mem_after (fun _ member => member) updated

end Traced

end Holder

/-! The interior pointer of an array. -/

section Designates

variable {runtime : Runtime} {memory : Memory} {obj : Address} {vtag : Usize}
  {vt address : Address} {layout : Layout} {ptrOrOffset mem owner : Address} {size : Nat}
  {traceObject : Address → ObjectReference}

/-- Whatever the order in which the slots of the array are traced, its pointer goes on designating
the same byte of the object it points into. -/
def Follows (runtime : Runtime) (memory : Memory) (fuel : Nat)
    (traceObject : Address → ObjectReference) (a owner ptrOrOffset : Address) : Prop :=
  ∃ slots, scanJuliaObject runtime memory fuel a = .ok slots ∧ ∀ order, order.Perm slots →
    ∃ after, traceSlots traceObject order memory = .ok after ∧
      loadU64 after.memory a = .ok ((traceObject owner).addr + (ptrOrOffset - owner))

/-- A memory below the pointer moves as far as the object that the pointer points into. Under any
other memory that object does not move. -/
def MovesAlong (traceObject : Address → ObjectReference) (ptrOrOffset mem owner : Address) : Prop :=
  if mem ≠ 0 ∧ mem < ptrOrOffset then
    (traceObject mem).addr - mem = (traceObject owner).addr - owner
  else (traceObject owner).addr = owner

theorem movesAlong_own (nonzero : mem ≠ 0) (above : mem < ptrOrOffset) :
    MovesAlong traceObject ptrOrOffset mem mem := by
  rw [MovesAlong, if_pos ⟨nonzero, above⟩]

theorem tracedPtr_follows_iff (managed : runtime.isManaged ptrOrOffset) :
    tracedPtr runtime traceObject runtime.arrayTypename ptrOrOffset mem =
        (traceObject owner).addr + (ptrOrOffset - owner) ↔
      MovesAlong traceObject ptrOrOffset mem owner := by
  rw [tracedPtr, MovesAlong]
  by_cases rebased : mem ≠ 0 ∧ mem < ptrOrOffset
  · rw [if_pos ⟨⟨rfl, managed, rebased.2⟩, rebased.1⟩, if_pos rebased]
    constructor
    · intro same
      bv_omega
    · intro same
      bv_omega
  · rw [if_neg (fun both => rebased ⟨both.2, both.1.2.2⟩), if_neg rebased]
    constructor
    · intro same
      bv_omega
    · intro same
      bv_omega

/-- The offset of the slot is taken from the memory of the array, whichever object the pointer
points into. -/
theorem array_pointer_follows_iff (fuel : Nat) (traceObject : Address → ObjectReference)
    (at_ : RefAt runtime memory obj vtag vt runtime.arrayTypename address layout ptrOrOffset mem)
    (managed : ∀ address, Memory.Within owner size address → runtime.isManaged address)
    (points : Memory.Within owner size ptrOrOffset) :
    Follows runtime memory fuel traceObject obj owner ptrOrOffset ↔
      MovesAlong traceObject ptrOrOffset mem owner := by
  rw [← tracedPtr_follows_iff (managed ptrOrOffset points)]
  constructor
  · rintro ⟨slots, scanned, follows⟩
    have same : slots = _ := Except.ok.inj (scanned.symm.trans (at_.scan_eq fuel))
    rcases follows slots (List.Perm.refl slots) with ⟨after, ran, word⟩
    rcases at_.traced traceObject (List.Perm.of_eq same) with ⟨again, rerun, ptr, -⟩
    have outcome : after = again := Except.ok.inj (ran.symm.trans rerun)
    rw [outcome] at word
    exact Except.ok.inj (ptr.symm.trans word)
  · intro designated
    refine ⟨_, at_.scan_eq fuel, ?_⟩
    intro order same
    rcases at_.traced traceObject same with ⟨after, ran, ptr, -⟩
    refine ⟨after, ran, ?_⟩
    rw [ptr, designated]

end Designates

/-- An array at 0x20000 and a boxed reference at 0x28000 share the memory at 0x30000. Its data is
its own, or that of the string at 0x18000. -/
def holderMemory (data : Address) : Memory := .ofWords [
  (0x17ff8, 0xa0), (0x18000, 8), (0x18008, 0),
  (0x1fff8, 0x5000), (0x20000, data), (0x20008, 0x30000), (0x20010, 8),
  (0x27ff8, 0x5800), (0x28000, data), (0x28008, 0x30000),
  (0x2fff8, 0x7000), (0x30000, 8), (0x30008, data), (0x30010, 0x18000),
  (0x4ff8, 0x20), (0x5000, 0x700), (0x5028, 0x6000), (0x5030, 0),
  (0x57f8, 0x20), (0x5800, 0x900), (0x5828, 0x6800), (0x5830, 0),
  (0x6000, 0x200000018), (0x6008, 0x100000001), (0x6010, 0), (0x6018, 1),
  (0x6800, 0x200000010), (0x6808, 0x100000001), (0x6810, 0), (0x6818, 1)]

def holderRuntime : Runtime := { sampleRuntime with
  genericmemoryHow := fun memory m => if memory.load (m + 8) 8 = some (m + 16) then 0 else 3 }

def refLayout (size : BitVec 32) : Layout where
  size := size
  nfields := 2
  npointers := 1
  firstPtr := 1
  flags := 0
  pointers := [1]
  count := rfl

structure Holder where
  obj : Address
  vt : Address
  name : Address
  address : Address
  size : BitVec 32

def arrayHolder : Holder := ⟨0x20000, 0x5000, 0x700, 0x6000, 24⟩

def boxedHolder : Holder := ⟨0x28000, 0x5800, 0x900, 0x6800, 16⟩

theorem holder_at {data : Address} {holder : Holder} (shown : data = 0x30010 ∨ data = 0x18008)
    (which : holder = arrayHolder ∨ holder = boxedHolder) :
    RefAt holderRuntime (holderMemory data) holder.obj holder.vt holder.vt holder.name holder.address
      (refLayout holder.size) data 0x30000 := by
  have stored : LayoutAt (holderMemory data) holder.address (refLayout holder.size) := by
    rcases shown with rfl | rfl <;> rcases which with rfl | rfl <;> constructor <;>
      first | decide +kernel | exact ⟨by decide +kernel, trivial⟩
  have typed : DatatypeAt holderRuntime (holderMemory data) holder.obj holder.vt holder.vt
      holder.name := by
    rcases shown with rfl | rfl <;> rcases which with rfl | rfl <;> constructor <;> decide +kernel
  have known : (refLayout holder.size).fielddescType ≤ 2 := by
    rcases which with rfl | rfl <;> decide
  have field : loadU64 (holderMemory data) (holder.obj + 8) = .ok 0x30000 := by
    rcases shown with rfl | rfl <;> rcases which with rfl | rfl <;> decide +kernel
  have room : 16 ≤ holder.size.toNat := by
    rcases which with rfl | rfl <;> decide
  have listed : ∀ pointer ∈ (refLayout holder.size).pointers, pointer = 1 :=
    fun pointer member => List.mem_singleton.mp member
  constructor
  case plain =>
    constructor
    case typed => exact typed
    case stored => exact stored
    case known => exact known
    case plain => rcases which with rfl | rfl <;> decide
    case described =>
      rcases shown with rfl | rfl <;> rcases which with rfl | rfl <;> decide +kernel
    case inner =>
      intro pointer member
      have second : 8 * (1 : Usize).toNat = 8 := rfl
      have extent : (refLayout holder.size).size.toNat = holder.size.toNat := rfl
      rw [listed pointer member]
      omega
    case array => exact fun _ => room
  case strong => rcases which with rfl | rfl <;> decide
  case ptr => rcases shown with rfl | rfl <;> rcases which with rfl | rfl <;> decide +kernel
  case mem => exact field
  case listed => exact List.mem_singleton.mpr rfl
  case raw => exact fun member => absurd (listed 0 member) (by decide)
  case distinct => exact List.nodup_singleton _
  case whole =>
    intro pointer member
    rw [listed pointer member]
    exact room
  case fields =>
    intro pointer member
    rw [listed pointer member, shift_one]
    exact ⟨_, field⟩
  case bounded => rcases which with rfl | rfl <;> decide

def holderForward (object : Address) : ObjectReference :=
  if object = 0x18000 then ⟨0x40000, by decide, by decide⟩ else ⟨0x50000, by decide, by decide⟩

theorem holderRuntime_manages {base : Address} {size : Nat} (low : 0x10000 ≤ base.toNat)
    (fits : base.toNat + size ≤ 2 ^ 64) :
    ∀ address, Memory.Within base size address → holderRuntime.isManaged address := by
  intro address within
  have least : (0x10000 : Address).toNat = 0x10000 := rfl
  rw [Memory.Within, BitVec.toNat_sub] at within
  apply decide_eq_true
  rw [BitVec.le_def, least]
  omega

theorem array_pointer_follows_iff_inlined :
    Follows holderRuntime (holderMemory 0x30010) 0 holderForward 0x20000 0x30000 0x30010 := by
  have managed := @holderRuntime_manages 0x30000 24 (by decide) (by decide)
  apply (array_pointer_follows_iff 0 holderForward (holder_at (.inl rfl) (.inl rfl)) managed
    (by decide)).mpr
  exact movesAlong_own (by decide) (by decide)

/-- Data that belongs to a string: the memory says so, and the array's pointer stays behind. -/
theorem array_of_string_left_behind :
    RefAt holderRuntime (holderMemory 0x18008) 0x20000 0x5000 0x5000 holderRuntime.arrayTypename
        0x6000 (refLayout 24) 0x18008 0x30000 ∧
      holderRuntime.genericmemoryHow (holderMemory 0x18008) 0x30000 = 3 ∧
      loadU64 (holderMemory 0x18008) (holderRuntime.ownerAddress 0x30000) = .ok 0x18000 ∧
      (∀ address, Memory.Within 0x18000 17 address → holderRuntime.isManaged address) ∧
      Memory.Within 0x18000 17 0x18008 ∧
      ¬ Follows holderRuntime (holderMemory 0x18008) 0 holderForward 0x20000 0x18000 0x18008 := by
  have scanned : scanJuliaObject holderRuntime (holderMemory 0x18008) 0 0x20000 =
      .ok [.simple 0x20008] := by decide +kernel
  have word : (traceSlots holderForward [.simple 0x20008] (holderMemory 0x18008)).map
      (fun after => loadU64 after.memory 0x20000) = .ok (.ok 0x18008) := by decide +kernel
  refine ⟨holder_at (.inr rfl) (.inl rfl), by decide +kernel, by decide +kernel,
    holderRuntime_manages (by decide) (by decide), by decide, ?_⟩
  rintro ⟨slots, reported, follows⟩
  have same : slots = [.simple 0x20008] := Except.ok.inj (reported.symm.trans scanned)
  rw [same] at follows
  rcases follows _ (List.Perm.refl _) with ⟨after, ran, designated⟩
  rw [ran] at word
  have stale : loadU64 after.memory 0x20000 = .ok 0x18008 := Except.ok.inj word
  rw [designated] at stale
  exact absurd (Except.ok.inj stale) (by decide)

/-! An array and a boxed reference into the same memory. -/

section Pair

variable {runtime : Runtime} {memory : Memory} {a r : Address} {vtag rtag : Usize}
  {vt rt name address place : Address} {layout other : Layout} {ptrOrOffset mem : Address}

/-- Whatever the order in which the slots of both objects are traced, they hold the same pair
again. -/
def StayEqual (runtime : Runtime) (memory : Memory) (fuel : Nat)
    (traceObject : Address → ObjectReference) (a r : Address) : Prop :=
  ∃ slots others, scanJuliaObject runtime memory fuel a = .ok slots ∧
    scanJuliaObject runtime memory fuel r = .ok others ∧ ∀ order, order.Perm (slots ++ others) →
      ∃ after ptrOrOffset mem, traceSlots traceObject order memory = .ok after ∧
        loadU64 after.memory a = .ok ptrOrOffset ∧ loadU64 after.memory r = .ok ptrOrOffset ∧
        loadU64 after.memory (a + 8) = .ok mem ∧ loadU64 after.memory (r + 8) = .ok mem

theorem pair_traced (traceObject : Address → ObjectReference)
    (array : RefAt runtime memory a vtag vt runtime.arrayTypename address layout ptrOrOffset mem)
    (ref : RefAt runtime memory r rtag rt name place other ptrOrOffset mem)
    (disjoint : a.toNat + layout.size.toNat ≤ r.toNat ∨ r.toNat + other.size.toNat ≤ a.toNat)
    {order : List JuliaVMSlot}
    (same : order.Perm (refSlots runtime runtime.arrayTypename a ptrOrOffset mem layout.pointers ++
      refSlots runtime name r ptrOrOffset mem other.pointers)) :
    ∃ after, traceSlots traceObject order memory = .ok after ∧
      loadU64 after.memory a =
        .ok (tracedPtr runtime traceObject runtime.arrayTypename ptrOrOffset mem) ∧
      loadU64 after.memory r = .ok (tracedPtr runtime traceObject name ptrOrOffset mem) ∧
      loadU64 after.memory (a + 8) = .ok (tracedMem traceObject mem) ∧
      loadU64 after.memory (r + 8) = .ok (tracedMem traceObject mem) := by
  have first := array.whole 1 array.listed
  have second := ref.whole 1 ref.listed
  have across : ∀ slot ∈ refSlots runtime runtime.arrayTypename a ptrOrOffset mem layout.pointers,
      ∀ others ∈ refSlots runtime name r ptrOrOffset mem other.pointers,
        Apart slot.address others.address := by
    intro slot member others present
    rcases ref.slot_word present with ⟨word, lies, within⟩
    rw [lies]
    exact array.slots_beside ref.bounded disjoint within slot member
  have reads : ∀ slot ∈ refSlots runtime runtime.arrayTypename a ptrOrOffset mem layout.pointers ++
      refSlots runtime name r ptrOrOffset mem other.pointers,
      loadU64 memory slot.address = .ok (wordAt memory slot.address) := by
    intro slot member
    rcases List.mem_append.mp member with mine | theirs
    · exact array.slot_reads mine
    · exact ref.slot_reads theirs
  rcases traceSlots_any_order traceObject same
    (List.pairwise_append.mpr ⟨array.slots_apart, ref.slots_apart, across⟩) reads with
    ⟨after, ran, -, updated, unchanged⟩
  refine ⟨after, ran, ?_, ?_, ?_, ?_⟩
  · apply array.ptr_after (fun _ member => List.mem_append_left _ member) _ updated unchanged
    intro slot member foreign
    have theirs := (List.mem_append.mp member).resolve_left foreign
    exact ref.slots_beside_start array.bounded disjoint.symm (by omega) slot theirs
  · apply ref.ptr_after (fun _ member => List.mem_append_right _ member) _ updated unchanged
    intro slot member foreign
    have mine := (List.mem_append.mp member).resolve_right foreign
    exact array.slots_beside_start ref.bounded disjoint (by omega) slot mine
  · exact array.mem_after (fun _ member => List.mem_append_left _ member) updated
  · exact ref.mem_after (fun _ member => List.mem_append_right _ member) updated

/-- Only the array is rebased, so the two agree again when there is nothing to rebase or when the
memory stays where it is. -/
theorem array_and_ref_stay_equal_iff (fuel : Nat) (traceObject : Address → ObjectReference)
    (array : RefAt runtime memory a vtag vt runtime.arrayTypename address layout ptrOrOffset mem)
    (ref : RefAt runtime memory r rtag rt name place other ptrOrOffset mem)
    (boxed : name ≠ runtime.arrayTypename)
    (disjoint : a.toNat + layout.size.toNat ≤ r.toNat ∨ r.toNat + other.size.toNat ≤ a.toNat) :
    StayEqual runtime memory fuel traceObject a r ↔
      (Reported runtime runtime.arrayTypename ptrOrOffset mem ∧ mem ≠ 0 →
        (traceObject mem).addr = mem) := by
  have stale : tracedPtr runtime traceObject name ptrOrOffset mem = ptrOrOffset :=
    if_neg (fun both => boxed both.1.1)
  constructor
  · rintro ⟨slots, others, scanned, rescanned, equal⟩ rebased
    have mine : slots = _ := Except.ok.inj (scanned.symm.trans (array.scan_eq fuel))
    have theirs : others = _ := Except.ok.inj (rescanned.symm.trans (ref.scan_eq fuel))
    obtain ⟨after, ptr, _, ran, arrayPtr, refPtr, -, -⟩ := equal (slots ++ others) (List.Perm.refl _)
    obtain ⟨again, rerun, arrayWord, refWord, -, -⟩ := pair_traced traceObject array ref disjoint
      (List.Perm.of_eq (congrArg₂ (· ++ ·) mine theirs))
    have outcome : after = again := Except.ok.inj (ran.symm.trans rerun)
    rw [outcome] at arrayPtr refPtr
    have moved : tracedPtr runtime traceObject runtime.arrayTypename ptrOrOffset mem = ptrOrOffset :=
      calc tracedPtr runtime traceObject runtime.arrayTypename ptrOrOffset mem
        _ = ptr := Except.ok.inj (arrayWord.symm.trans arrayPtr)
        _ = tracedPtr runtime traceObject name ptrOrOffset mem :=
            Except.ok.inj (refPtr.symm.trans refWord)
        _ = ptrOrOffset := stale
    rw [tracedPtr, if_pos rebased] at moved
    bv_omega
  · intro fixed
    have moved : tracedPtr runtime traceObject runtime.arrayTypename ptrOrOffset mem =
        ptrOrOffset := by
      rw [tracedPtr]
      by_cases rebased : Reported runtime runtime.arrayTypename ptrOrOffset mem ∧ mem ≠ 0
      · have still := fixed rebased
        rw [if_pos rebased]
        bv_omega
      · rw [if_neg rebased]
    refine ⟨_, _, array.scan_eq fuel, ref.scan_eq fuel, ?_⟩
    intro order same
    rcases pair_traced traceObject array ref disjoint same with
      ⟨after, ran, arrayPtr, refPtr, arrayMem, refMem⟩
    rw [moved] at arrayPtr
    rw [stale] at refPtr
    exact ⟨after, _, _, ran, arrayPtr, refPtr, arrayMem, refMem⟩

end Pair

theorem array_and_ref_stay_equal_iff_fixed :
    StayEqual holderRuntime (holderMemory 0x30010) 0 (fun _ => ⟨0x30000, by decide, by decide⟩)
      0x20000 0x28000 :=
  (array_and_ref_stay_equal_iff 0 _ (holder_at (.inl rfl) (.inl rfl)) (holder_at (.inl rfl) (.inr rfl))
    (by decide) (by decide)).mpr (fun _ => rfl)

/-- A memory that is moved: the reference keeps the address inside of its old place. -/
theorem boxed_ref_left_behind :
    RefAt holderRuntime (holderMemory 0x30010) 0x20000 0x5000 0x5000 holderRuntime.arrayTypename
        0x6000 (refLayout 24) 0x30010 0x30000 ∧
      RefAt holderRuntime (holderMemory 0x30010) 0x28000 0x5800 0x5800 0x900 0x6800 (refLayout 16)
        0x30010 0x30000 ∧
      holderRuntime.genericmemoryHow (holderMemory 0x30010) 0x30000 = 0 ∧
      (∀ address, Memory.Within 0x30000 24 address → holderRuntime.isManaged address) ∧
      ¬ StayEqual holderRuntime (holderMemory 0x30010) 0 holderForward 0x20000 0x28000 := by
  have scanned : scanJuliaObject holderRuntime (holderMemory 0x30010) 0 0x20000 =
      .ok [.offset 0x20000 16, .simple 0x20008] := by decide +kernel
  have rescanned : scanJuliaObject holderRuntime (holderMemory 0x30010) 0 0x28000 =
      .ok [.simple 0x28008] := by decide +kernel
  have words : (traceSlots holderForward [.offset 0x20000 16, .simple 0x20008, .simple 0x28008]
      (holderMemory 0x30010)).map
        (fun after => (loadU64 after.memory 0x20000, loadU64 after.memory 0x28000)) =
      .ok (.ok 0x50010, .ok 0x30010) := by decide +kernel
  refine ⟨holder_at (.inl rfl) (.inl rfl), holder_at (.inl rfl) (.inr rfl), by decide +kernel,
    holderRuntime_manages (by decide) (by decide), ?_⟩
  rintro ⟨slots, others, reported, listed, equal⟩
  have mine : slots = _ := Except.ok.inj (reported.symm.trans scanned)
  have theirs : others = _ := Except.ok.inj (listed.symm.trans rescanned)
  rw [mine, theirs] at equal
  rcases equal _ (List.Perm.refl _) with ⟨after, ptr, _, ran, arrayPtr, refPtr, -, -⟩
  have joined : [JuliaVMSlot.offset 0x20000 16, .simple 0x20008] ++ [.simple 0x28008] =
      [.offset 0x20000 16, .simple 0x20008, .simple 0x28008] := rfl
  rw [joined] at ran
  rw [ran] at words
  have pair : (loadU64 after.memory 0x20000, loadU64 after.memory 0x28000) =
      (.ok 0x50010, .ok 0x30010) := Except.ok.inj words
  rw [arrayPtr, refPtr] at pair
  rcases Prod.mk.inj pair with ⟨first, second⟩
  exact absurd ((Except.ok.inj first).symm.trans (Except.ok.inj second)) (by decide)

end MmtkJulia.Scanning
