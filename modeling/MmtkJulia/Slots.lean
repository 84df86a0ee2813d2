import MmtkJulia.ShadowStack
import MmtkJulia.Simulation

/-! The slots of slots.rs: what tracing through them does to memory. A SimpleSlot of mmtk-core
holds the address of an object, and null for none. -/

namespace MmtkJulia.Scanning

namespace JuliaVMSlot

/-- The object that the word in a slot refers to: its address, and none for null. -/
def target : JuliaVMSlot → Usize → Option Address
  | .simple _, word => if word = 0 then none else some word
  | .offset _ distance, middle =>
      if middle - distance = 0 then none else some (middle - distance)

def referring : JuliaVMSlot → Address → Usize
  | .simple _, object => object
  | .offset _ distance, object => object + distance

def load (memory : Memory) (slot : JuliaVMSlot) : Except Fault (Option Address) := do
  return slot.target (← loadU64 memory slot.address)

def store (memory : Memory) (slot : JuliaVMSlot) (object : ObjectReference) : Memory :=
  @Memory.store memory slot.address 8 (slot.referring object.addr)

/-- The word in a slot after its object has been traced. -/
def updated (traceObject : Address → ObjectReference) (slot : JuliaVMSlot) (word : Usize) : Usize :=
  match slot.target word with
  | none => word
  | some object => slot.referring (traceObject object).addr

section Words

variable (address : Address) {word distance : Usize}

@[simp] theorem address_simple : (simple address).address = address := rfl

@[simp] theorem address_offset : (offset address distance).address = address := rfl

theorem target_simple (nonzero : word ≠ 0) : (simple address).target word = some word :=
  if_neg nonzero

theorem target_null : (simple address).target 0 = none := rfl

theorem target_offset (nonzero : word - distance ≠ 0) :
    (offset address distance).target word = some (word - distance) := if_neg nonzero

variable (traceObject : Address → ObjectReference)

theorem updated_simple (nonzero : word ≠ 0) :
    (simple address).updated traceObject word = (traceObject word).addr := by
  rw [updated, target_simple address nonzero]
  rfl

theorem updated_null : (simple address).updated traceObject 0 = 0 := rfl

theorem updated_offset (nonzero : word - distance ≠ 0) :
    (offset address distance).updated traceObject word =
      (traceObject (word - distance)).addr + distance := by
  rw [updated, target_offset address nonzero]
  rfl

end Words

end JuliaVMSlot

structure Tracing where
  memory : Memory
  traced : List Address

def traceSlot (traceObject : Address → ObjectReference) (progress : Tracing) (slot : JuliaVMSlot) :
    Except Fault Tracing := do
  match ← slot.load progress.memory with
  | none => return progress
  | some object => return {
      memory := slot.store progress.memory (traceObject object)
      traced := progress.traced ++ [object] }

def traceSlots (traceObject : Address → ObjectReference) (slots : List JuliaVMSlot)
    (memory : Memory) : Except Fault Tracing :=
  slots.foldlM (traceSlot traceObject) ⟨memory, []⟩

def wordAt (memory : Memory) (address : Address) : Usize :=
  (loadU64 memory address).toOption.getD 0

theorem wordAt_eq {memory : Memory} {address : Address} {word : Usize}
    (loaded : loadU64 memory address = .ok word) : wordAt memory address = word := by
  rw [wordAt, loaded]
  rfl

/-- Words that do not overlap. -/
def Apart (first second : Address) : Prop :=
  8 ≤ (second - first).toNat ∧ 8 ≤ (first - second).toNat
  deriving Decidable

theorem Apart.symm {first second : Address} (apart : Apart first second) : Apart second first :=
  ⟨apart.2, apart.1⟩

theorem shift_apart {base : Address} {first second : Usize} {size : Nat}
    (bounded : base.toNat + size ≤ 2 ^ 64) (inside : 8 * first.toNat + 8 ≤ size)
    (within : 8 * second.toNat + 8 ≤ size) (distinct : first ≠ second) :
    Apart (shift base first) (shift base second) := by
  have place : ∀ word : Usize, 8 * word.toNat + 8 ≤ size →
      (shift base word).toNat = base.toNat + 8 * word.toNat := by
    intro word below
    rw [shift, BitVec.toNat_add, BitVec.toNat_mul, eight_toNat]
    omega
  have apart : first.toNat ≠ second.toNat := fun same => distinct (BitVec.eq_of_toNat_eq same)
  rw [Apart, BitVec.toNat_sub, BitVec.toNat_sub, place first inside, place second within]
  omega

theorem words_apart {base : Address} {i j : Nat} (count : Nat) (fits : base.toNat + 8 * count ≤ 2 ^ 64)
    (first : i < count) (second : j < count) (distinct : i ≠ j) :
    Apart (shift base (BitVec.ofNat 64 i)) (shift base (BitVec.ofNat 64 j)) := by
  have index : ∀ k, k < count → (BitVec.ofNat 64 k).toNat = k := by
    intro k below
    rw [BitVec.toNat_ofNat]
    omega
  apply shift_apart fits
  · rw [index i first]
    omega
  · rw [index j second]
    omega
  · intro same
    apply distinct
    rw [← index i first, ← index j second, same]

theorem shift_apart_objects {base other : Address} {first second : Usize} {size extent : Nat}
    (bounded : base.toNat + size ≤ 2 ^ 64) (limited : other.toNat + extent ≤ 2 ^ 64)
    (inside : 8 * first.toNat + 8 ≤ size) (within : 8 * second.toNat + 8 ≤ extent)
    (disjoint : base.toNat + size ≤ other.toNat ∨ other.toNat + extent ≤ base.toNat) :
    Apart (shift base first) (shift other second) := by
  rw [Apart, BitVec.toNat_sub, BitVec.toNat_sub, shift, shift, BitVec.toNat_add, BitVec.toNat_add,
    BitVec.toNat_mul, BitVec.toNat_mul, eight_toNat]
  omega

theorem loadU64_store_apart {memory : Memory} {address place : Address} (word : Usize)
    (apart : Apart address place) :
    loadU64 (@Memory.store memory address 8 word) place = loadU64 memory place := by
  have outside : ∀ i, i < 8 → ¬ Memory.Within address 8 (place + BitVec.ofNat 64 i) := by
    intro i below inside
    rw [Memory.Within] at inside
    rcases apart with ⟨above, under⟩
    bv_omega
  rw [loadU64, loadU64, loadBytes, loadBytes]
  have same := @Memory.load_store_outside memory address 8 word place 8 outside
  rw [same]

theorem loadU64_store (memory : Memory) (address : Address) (word : Usize) :
    loadU64 (@Memory.store memory address 8 word) address = .ok word := by
  have stored := @Memory.load_store memory address 8 word (by decide)
  rw [loadU64, loadBytes, stored]

section Tracing

variable {traceObject : Address → ObjectReference} {memory : Memory} {held : Address → Usize}

theorem traceSlot_eq (traceObject : Address → ObjectReference) {slot : JuliaVMSlot} {word : Usize}
    (reads : loadU64 memory slot.address = .ok word) (log : List Address) :
    ∃ after, traceSlot traceObject ⟨memory, log⟩ slot =
        .ok ⟨after, log ++ (slot.target word).toList⟩ ∧
      loadU64 after slot.address = .ok (slot.updated traceObject word) ∧
      ∀ address, Apart slot.address address → loadU64 after address = loadU64 memory address := by
  have loaded : slot.load memory = .ok (slot.target word) := by
    rw [JuliaVMSlot.load, reads]
    rfl
  cases refers : slot.target word with
  | none =>
      refine ⟨memory, ?_, ?_, fun _ _ => rfl⟩
      · simp [traceSlot, loaded, refers, bind, Except.bind, pure, Except.pure]
      · simpa [JuliaVMSlot.updated, refers] using reads
  | some object =>
      refine ⟨slot.store memory (traceObject object), ?_, ?_, ?_⟩
      · simp [traceSlot, loaded, refers, bind, Except.bind, pure, Except.pure]
      · simp only [JuliaVMSlot.updated, refers]
        exact loadU64_store _ _ _
      · intro address apart
        exact loadU64_store_apart _ apart

/-- Slots that do not overlap, traced one after the other: each ends with its own update, by
induction on the slots. -/
theorem traceSlots_from (traceObject : Address → ObjectReference) (slots : List JuliaVMSlot)
    (memory : Memory) (log : List Address)
    (apart : slots.Pairwise (fun slot other => Apart slot.address other.address))
    (reads : ∀ slot ∈ slots, loadU64 memory slot.address = .ok (held slot.address)) :
    ∃ after, slots.foldlM (traceSlot traceObject) ⟨memory, log⟩ =
        .ok ⟨after, log ++ slots.filterMap (fun slot => slot.target (held slot.address))⟩ ∧
      (∀ slot ∈ slots,
        loadU64 after slot.address = .ok (slot.updated traceObject (held slot.address))) ∧
      ∀ address, (∀ slot ∈ slots, Apart slot.address address) →
        loadU64 after address = loadU64 memory address := by
  induction slots generalizing memory log with
  | nil => exact ⟨memory, by simp [pure, Except.pure], by simp, fun _ _ => rfl⟩
  | cons slot slots ih =>
      rcases List.pairwise_cons.mp apart with ⟨first, rest⟩
      rcases traceSlot_eq traceObject (reads slot (by simp)) log with ⟨middle, round, stored, kept⟩
      have later : ∀ other ∈ slots, loadU64 middle other.address = .ok (held other.address) := by
        intro other member
        rw [kept other.address (first other member)]
        exact reads other (by simp [member])
      rcases ih middle (log ++ (slot.target (held slot.address)).toList) rest later with
        ⟨after, rounds, updated, outside⟩
      refine ⟨after, ?_, ?_, ?_⟩
      · have logged : (slot :: slots).filterMap (fun slot => slot.target (held slot.address)) =
            (slot.target (held slot.address)).toList ++
              slots.filterMap (fun slot => slot.target (held slot.address)) := by
          cases refers : slot.target (held slot.address) <;> simp [refers]
        rw [List.foldlM_cons, round, logged, ← List.append_assoc]
        exact rounds
      · intro other member
        rcases List.mem_cons.mp member with rfl | member
        · rw [outside other.address (fun next present => (first next present).symm)]
          exact stored
        · exact updated other member
      · intro address clear
        rw [outside address (fun other member => clear other (by simp [member]))]
        exact kept address (clear slot (by simp))

/-- The order in which the slots are traced does not matter. -/
theorem traceSlots_any_order (traceObject : Address → ObjectReference)
    {slots order : List JuliaVMSlot} (same : order.Perm slots)
    (apart : slots.Pairwise (fun slot other => Apart slot.address other.address))
    (reads : ∀ slot ∈ slots, loadU64 memory slot.address = .ok (held slot.address)) :
    ∃ after, traceSlots traceObject order memory = .ok after ∧
      after.traced.Perm (slots.filterMap (fun slot => slot.target (held slot.address))) ∧
      (∀ slot ∈ slots,
        loadU64 after.memory slot.address = .ok (slot.updated traceObject (held slot.address))) ∧
      ∀ address, (∀ slot ∈ slots, Apart slot.address address) →
        loadU64 after.memory address = loadU64 memory address := by
  have reordered := (same.pairwise_iff (fun apart => Apart.symm apart)).mpr apart
  obtain ⟨after, traced, updated, outside⟩ := traceSlots_from traceObject order memory [] reordered
    (fun slot member => reads slot (same.mem_iff.mp member))
  refine ⟨_, traced, ?_, ?_, ?_⟩
  · exact same.filterMap _
  · intro slot member
    exact updated slot (same.mem_iff.mpr member)
  · intro address clear
    exact outside address (fun slot member => clear slot (same.mem_iff.mp member))

end Tracing

theorem traceSlot_bytes {forward : Address → ObjectReference} {memory : Memory} {log : List Address}
    {slot : JuliaVMSlot} {after : Tracing} (ran : traceSlot forward ⟨memory, log⟩ slot = .ok after)
    {byte : Address} (outside : ¬ Memory.Within slot.address 8 byte) :
    after.memory byte = memory byte := by
  rw [traceSlot] at ran
  rcases bind_ok ran with ⟨object, -, ended⟩
  cases object with
  | none =>
      cases ended
      rfl
  | some object =>
      cases ended
      exact Memory.store_outside _ outside

theorem traceSlots_bytes {forward : Address → ObjectReference} {slots : List JuliaVMSlot}
    {progress after : Tracing} (ran : slots.foldlM (traceSlot forward) progress = .ok after)
    {byte : Address} (outside : ∀ slot ∈ slots, ¬ Memory.Within slot.address 8 byte) :
    after.memory byte = progress.memory byte := by
  induction slots generalizing progress with
  | nil =>
      cases ran
      rfl
  | cons slot slots ih =>
      rw [List.foldlM_cons] at ran
      rcases bind_ok ran with ⟨middle, round, rounds⟩
      rw [ih rounds (fun next member => outside next (List.mem_cons_of_mem slot member))]
      exact traceSlot_bytes round (outside slot List.mem_cons_self)

end MmtkJulia.Scanning
