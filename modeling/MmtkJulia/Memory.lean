import MmtkJulia.Word
import Mathlib.Tactic

/-! Byte memory, little-endian, over an address space that wraps. Bytes that are not mapped read
as none. -/

namespace MmtkJulia

abbrev Memory := Address → Option (BitVec 8)

namespace Memory

variable {memory other : Memory}

def load (memory : Memory) (address : Address) : (count : Nat) → Option (BitVec (8 * count))
  | 0 => some 0#0
  | count + 1 => do
      let low ← memory address
      let high ← load memory (address + 1) count
      return high ++ low

def store (memory : Memory) (address : Address) {count : Nat} (value : BitVec (8 * count)) : Memory :=
  fun byte =>
    let i := (byte - address).toNat
    if i < count then some (value.extractLsb' (8 * i) 8) else memory byte

def ofWords (words : List (Address × Usize)) : Memory :=
  words.foldr (fun word memory => @store memory word.1 8 word.2) (fun _ => none)

/-- A byte of the count bytes from the base on. -/
def Within (base : Address) (count : Nat) (address : Address) : Prop :=
  (address - base).toNat < count

instance (base : Address) (count : Nat) (address : Address) : Decidable (Within base count address) :=
  inferInstanceAs (Decidable (_ < _))

def copyNonoverlapping (memory : Memory) (src dst : Address) (count : Nat) : Memory :=
  fun byte => if Within dst count byte then memory (src + (byte - dst)) else memory byte

/-- The count bytes from the base on, and nothing else. -/
def only (memory : Memory) (base : Address) (count : Nat) : Memory :=
  fun byte => if Within base count byte then memory byte else none

/-- Whatever is mapped in the one memory reads the same in the other. -/
def Extends (memory other : Memory) : Prop :=
  ∀ address byte, memory address = some byte → other address = some byte

theorem offset_succ (address : Address) (i : Nat) :
    address + 1 + BitVec.ofNat 64 i = address + BitVec.ofNat 64 (i + 1) := by
  rw [BitVec.ofNat_add, BitVec.add_assoc]
  congr 1
  exact BitVec.add_comm _ _

theorem load_congr {address place : Address} {count : Nat}
    (same : ∀ i, i < count →
      memory (address + BitVec.ofNat 64 i) = other (place + BitVec.ofNat 64 i)) :
    memory.load address count = other.load place count := by
  induction count generalizing address place with
  | zero => rfl
  | succ count ih =>
      have first : memory address = other place := by simpa using same 0 (by omega)
      have rest : memory.load (address + 1) count = other.load (place + 1) count := by
        apply ih
        intro i below
        rw [offset_succ, offset_succ]
        exact same (i + 1) (by omega)
      rw [load, load, first, rest]

theorem load_mapped {address : Address} {count : Nat} {value : BitVec (8 * count)}
    (loaded : memory.load address count = some value) (i : Nat) (below : i < count) :
    ∃ byte, memory (address + BitVec.ofNat 64 i) = some byte := by
  induction count generalizing address i with
  | zero => omega
  | succ count ih =>
      rw [load] at loaded
      rcases Option.bind_eq_some_iff.mp loaded with ⟨low, first, rest⟩
      rcases Option.bind_eq_some_iff.mp rest with ⟨high, later, -⟩
      cases i with
      | zero => exact ⟨low, by simpa using first⟩
      | succ i =>
          rw [← offset_succ]
          exact ih later i (by omega)

theorem Extends.load (extends_ : Extends memory other) {address : Address} {count : Nat}
    {value : BitVec (8 * count)} (loaded : memory.load address count = some value) :
    other.load address count = some value := by
  rw [← loaded]
  apply load_congr
  intro i below
  rcases load_mapped loaded i below with ⟨byte, mapped⟩
  rw [mapped, extends_ _ _ mapped]

@[simp] theorem within_add (base offset : Address) (count : Nat) :
    Within base count (base + offset) ↔ offset.toNat < count := by
  rw [Within, BitVec.add_comm, BitVec.add_sub_cancel]

theorem add_ofNat_toNat {offset : Address} {i count : Nat} (below : offset.toNat + i < count)
    (fits : count ≤ 2 ^ 64) : (offset + BitVec.ofNat 64 i).toNat = offset.toNat + i := by
  rw [BitVec.toNat_add, BitVec.toNat_ofNat]
  omega

theorem load_only {base offset : Address} {count width : Nat}
    (inside : offset.toNat + width ≤ count) :
    (memory.only base count).load (base + offset) width = memory.load (base + offset) width := by
  apply load_congr
  intro i below
  rw [only, if_pos]
  rw [BitVec.add_assoc, within_add, BitVec.toNat_add, BitVec.toNat_ofNat]
  have wrapped := Nat.mod_le (offset.toNat + i % 2 ^ 64) (2 ^ 64)
  have index := Nat.mod_le i (2 ^ 64)
  omega

section Copy

variable {src dst : Address} {count : Nat}

theorem copy_inside {offset : Address} (below : offset.toNat < count) :
    memory.copyNonoverlapping src dst count (dst + offset) = memory (src + offset) := by
  rw [copyNonoverlapping, if_pos ((within_add _ _ _).mpr below), BitVec.add_comm dst,
    BitVec.add_sub_cancel]

theorem copy_extends (fresh : ∀ address, Within dst count address → memory address = none) :
    Extends memory (memory.copyNonoverlapping src dst count) := by
  intro address byte mapped
  rw [copyNonoverlapping, if_neg]
  · exact mapped
  · intro inside
    rw [fresh address inside] at mapped
    cases mapped

theorem load_copy {offset : Address} {width : Nat} (inside : offset.toNat + width ≤ count)
    (fits : count ≤ 2 ^ 64) :
    (memory.copyNonoverlapping src dst count).load (dst + offset) width =
      memory.load (src + offset) width := by
  apply load_congr
  intro i below
  have within : (offset + BitVec.ofNat 64 i).toNat < count := by
    rw [add_ofNat_toNat (by omega) fits]
    omega
  rw [BitVec.add_assoc, BitVec.add_assoc]
  exact copy_inside within

end Copy

section Store

variable {address : Address} {count : Nat}

theorem store_outside (value : BitVec (8 * count)) {byte : Address}
    (outside : ¬ Within address count byte) : memory.store address value byte = memory byte :=
  if_neg outside

theorem ofWords_above {words : List (Address × Usize)} {limit : Nat}
    (low : ∀ word ∈ words, word.1.toNat + 8 ≤ limit) {byte : Address} (above : limit ≤ byte.toNat) :
    ofWords words byte = none := by
  induction words with
  | nil => rfl
  | cons word words ih =>
      have first := low word (by simp)
      have outside : ¬ Within word.1 8 byte := by
        rw [Within, BitVec.toNat_sub]
        omega
      have rest := ih (fun next member => low next (by simp [member]))
      exact (@store_outside (ofWords words) word.1 8 word.2 byte outside).trans rest

theorem load_store_outside (value : BitVec (8 * count)) {place : Address} {width : Nat}
    (outside : ∀ i, i < width → ¬ Within address count (place + BitVec.ofNat 64 i)) :
    (memory.store address value).load place width = memory.load place width := by
  apply load_congr
  intro i below
  exact store_outside value (outside i below)

/-- Loading bytes that are laid out as those of a value, from its byte number start on. -/
theorem load_extract {width : Nat} (value : BitVec width) (start : Nat)
    (stored : ∀ i, i < count →
      memory (address + BitVec.ofNat 64 i) = some (value.extractLsb' (8 * (start + i)) 8)) :
    memory.load address count = some (value.extractLsb' (8 * start) (8 * count)) := by
  induction count generalizing address start with
  | zero =>
      rw [load]
      congr 1
      exact (BitVec.eq_nil _).symm
  | succ count ih =>
      have first : memory address = some (value.extractLsb' (8 * start) 8) := by
        simpa using stored 0 (by omega)
      have rest : memory.load (address + 1) count =
          some (value.extractLsb' (8 * (start + 1)) (8 * count)) := by
        apply ih
        intro i below
        rw [offset_succ, stored (i + 1) (by omega)]
        congr 2
        omega
      rw [load, first, rest]
      simp only [Option.bind_eq_bind, Option.bind_some, Option.pure_def, Option.some.injEq]
      apply BitVec.eq_of_getLsbD_eq
      intro i below
      have whole : (value.extractLsb' (8 * start) (8 * (count + 1))).getLsbD i =
          (decide (i < 8 * (count + 1)) && value.getLsbD (8 * start + i)) :=
        BitVec.getLsbD_extractLsb' ..
      refine Eq.trans ?_ whole.symm
      rw [BitVec.getLsbD_append, BitVec.getLsbD_extractLsb', BitVec.getLsbD_extractLsb']
      by_cases low : i < 8
      · have total : i < 8 * (count + 1) := below
        simp [low, total]
      · have total : i < 8 * (count + 1) := below
        have position : 8 * (start + 1) + (i - 8) = 8 * start + i := by omega
        have inside : i - 8 < 8 * count := by omega
        simp [low, total, inside, position]

theorem load_store (value : BitVec (8 * count)) (fits : count ≤ 2 ^ 64) :
    (memory.store address value).load address count = some value := by
  have stored : ∀ i, i < count → memory.store address value (address + BitVec.ofNat 64 i) =
      some (value.extractLsb' (8 * (0 + i)) 8) := by
    intro i below
    have position : (address + BitVec.ofNat 64 i - address).toNat = i := by
      rw [BitVec.add_comm, BitVec.add_sub_cancel, BitVec.toNat_ofNat]
      omega
    rw [store, position, if_pos below, Nat.zero_add]
  rw [load_extract value 0 stored]
  simp

end Store

end Memory

end MmtkJulia
