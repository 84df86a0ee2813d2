import MmtkJulia.Memory

/-! The bitfields of julia_types.rs, which get and set a value bit by bit, on a little-endian target.
None stands for a debug assertion or a slice index that fails. -/

namespace MmtkJulia.JuliaTypes

/-- __BindgenBitfieldUnit of a byte array. -/
structure BitfieldUnit (bytes : Nat) where
  storage : Vector (BitVec 8) bytes
  deriving DecidableEq, Repr

namespace BitfieldUnit

variable {bytes : Nat}

def extractBit (byte : BitVec 8) (index : Nat) : Bool :=
  let mask := 1#8 <<< (index % 8)
  decide (byte &&& mask = mask)

def getBit (unit : BitfieldUnit bytes) (index : Nat) : Option Bool := do
  let byte ← unit.storage[index / 8]?
  return extractBit byte index

def changeBit (byte : BitVec 8) (index : Nat) (val : Bool) : BitVec 8 :=
  let mask := 1#8 <<< (index % 8)
  if val then byte ||| mask else byte &&& ~~~mask

def setBit (unit : BitfieldUnit bytes) (index : Nat) (val : Bool) : Option (BitfieldUnit bytes) :=
  if inside : index / 8 < bytes then
    some ⟨unit.storage.set (index / 8) (changeBit unit.storage[index / 8] index val)⟩
  else none

def assertions (bytes bitOffset bitWidth : Nat) : Option Unit :=
  guard (bitWidth ≤ 64 ∧ bitOffset / 8 < bytes ∧ (bitOffset + bitWidth) / 8 ≤ bytes)

def get (unit : BitfieldUnit bytes) (bitOffset bitWidth : Nat) : Option (BitVec 64) := do
  assertions bytes bitOffset bitWidth
  (List.range bitWidth).foldlM (fun val i => do
    if ← unit.getBit (i + bitOffset) then return val ||| 1#64 <<< i else return val) 0

def set (unit : BitfieldUnit bytes) (bitOffset bitWidth : Nat) (val : BitVec 64) :
    Option (BitfieldUnit bytes) := do
  assertions bytes bitOffset bitWidth
  (List.range bitWidth).foldlM (fun unit i =>
    let mask := 1#64 <<< i
    unit.setBit (i + bitOffset) (decide (val &&& mask = mask))) unit

def bit (unit : BitfieldUnit bytes) (index : Nat) : Bool :=
  (unit.storage[index / 8]?.getD 0).getLsbD (index % 8)

/-- mem::transmute of the unit to an integer. -/
def transmute (unit : BitfieldUnit bytes) : BitVec (8 * bytes) :=
  (List.range bytes).foldl (fun value i =>
    value ||| (unit.storage[i]?.getD 0).setWidth (8 * bytes) <<< (8 * i)) 0#(8 * bytes)

end BitfieldUnit

theorem and_mask {width : Nat} (value : BitVec width) {i : Nat} (below : i < width) :
    decide (value &&& 1#(width) <<< i = 1#(width) <<< i) = value.getLsbD i := by
  rw [← BitVec.twoPow_eq, BitVec.and_twoPow]
  cases present : value.getLsbD i with
  | true => simp
  | false =>
      have differs : 0#(width) ≠ BitVec.twoPow width i := by
        intro same
        have chosen := congrArg (fun bits => bits.getLsbD i) same
        simp [below] at chosen
      simp [differs]

namespace BitfieldUnit

variable {bytes : Nat} (unit : BitfieldUnit bytes)

theorem extractBit_eq (byte : BitVec 8) (index : Nat) :
    extractBit byte index = byte.getLsbD (index % 8) :=
  and_mask byte (Nat.mod_lt index (by decide))

theorem changeBit_getLsbD (byte : BitVec 8) (index : Nat) (val : Bool) {j : Nat} (below : j < 8) :
    (changeBit byte index val).getLsbD j = if j = index % 8 then val else byte.getLsbD j := by
  have bound : index % 8 < 8 := Nat.mod_lt index (by decide)
  rw [changeBit, ← BitVec.twoPow_eq]
  cases val with
  | true =>
      by_cases here : j = index % 8
      · simp [here, bound]
      · simp [here, Ne.symm here]
  | false =>
      by_cases here : j = index % 8
      · simp [here, bound]
      · simp [here, below]

def At (memory : Memory) (address : Address) : Prop :=
  ∀ i, (below : i < bytes) → memory (address + BitVec.ofNat 64 i) = some unit.storage[i]

theorem low_bytes {count : Nat} (few : count ≤ bytes) (j : Nat) :
    ((List.range count).foldl (fun value i =>
      value ||| (unit.storage[i]?.getD 0).setWidth (8 * bytes) <<< (8 * i)) 0#(8 * bytes)).getLsbD j =
        (decide (j < 8 * count) && unit.bit j) := by
  induction count with
  | zero => simp
  | succ count ih =>
      rw [List.range_succ, List.foldl_append, List.foldl_cons, List.foldl_nil, BitVec.getLsbD_or,
        ih (by omega), BitVec.getLsbD_shiftLeft, BitVec.getLsbD_setWidth]
      by_cases low : j < 8 * count
      · have next : j < 8 * (count + 1) := by omega
        simp [low, next]
      · by_cases next : j < 8 * (count + 1)
        · have byte : j / 8 = count := by omega
          have place : j % 8 = j - 8 * count := by omega
          have inside : j < 8 * bytes := by omega
          have part : j - 8 * count < 8 * bytes := by omega
          simp [low, next, inside, part, bit, byte, place]
        · have above : 8 ≤ j - 8 * count := by omega
          simp [low, next, BitVec.getLsbD_of_ge _ _ above]

theorem transmute_getLsbD (i : Nat) :
    unit.transmute.getLsbD i = (decide (i < 8 * bytes) && unit.bit i) :=
  unit.low_bytes (Nat.le_refl bytes) i

theorem transmute_byte {i : Nat} (below : i < bytes) :
    unit.transmute.extractLsb' (8 * i) 8 = unit.storage[i] := by
  apply BitVec.eq_of_getLsbD_eq
  intro j narrow
  have inside : 8 * i + j < 8 * bytes := by omega
  have byte : (8 * i + j) / 8 = i := by omega
  have place : (8 * i + j) % 8 = j := by omega
  rw [BitVec.getLsbD_extractLsb', transmute_getLsbD, bit, byte, place]
  simp [narrow, inside, below]

variable {unit} in
theorem At.load {memory : Memory} {address : Address} (at_ : unit.At memory address) :
    memory.load address bytes = some unit.transmute := by
  have whole : unit.transmute.extractLsb' (8 * 0) (8 * bytes) = unit.transmute := by simp
  rw [← whole]
  apply Memory.load_extract
  intro i below
  rw [at_ i below, Nat.zero_add, transmute_byte unit below]

theorem getBit_eq {index : Nat} (inside : index < 8 * bytes) :
    unit.getBit index = some (unit.bit index) := by
  have present : index / 8 < bytes := Nat.div_lt_of_lt_mul inside
  rw [getBit, bit, Vector.getElem?_eq_getElem present, Option.getD_some, ← extractBit_eq]
  rfl

theorem setBit_eq {index : Nat} (inside : index < 8 * bytes) (val : Bool) :
    ∃ after, unit.setBit index val = some after ∧
      ∀ j, after.bit j = if j = index then val else unit.bit j := by
  have present : index / 8 < bytes := Nat.div_lt_of_lt_mul inside
  refine ⟨_, dif_pos present, ?_⟩
  intro j
  rw [bit, bit]
  by_cases byte : j / 8 = index / 8
  · have bits := changeBit_getLsbD unit.storage[index / 8] index val (Nat.mod_lt j (by decide))
    have same : j = index ↔ j % 8 = index % 8 := by omega
    simp [byte, present, bits, same]
  · have other : j ≠ index := by
      intro same
      exact byte (by rw [same])
    simp [Ne.symm byte, other]

theorem get_bits {bitOffset bitWidth : Nat} (narrow : bitWidth ≤ 64)
    (inside : bitOffset + bitWidth ≤ 8 * bytes) :
    ∃ value : BitVec 64, (List.range bitWidth).foldlM (fun val i => do
        if ← unit.getBit (i + bitOffset) then return val ||| 1#64 <<< i else return val) 0#64 =
          some value ∧
      ∀ j, value.getLsbD j = (decide (j < bitWidth) && unit.bit (j + bitOffset)) := by
  induction bitWidth with
  | zero => exact ⟨0#64, rfl, fun j => by simp⟩
  | succ bitWidth ih =>
      rcases ih (by omega) (by omega) with ⟨value, ran, bits⟩
      have read := unit.getBit_eq (by omega : bitWidth + bitOffset < 8 * bytes)
      rw [List.range_succ, List.foldlM_append, ran]
      refine ⟨if unit.bit (bitWidth + bitOffset) then value ||| 1#64 <<< bitWidth else value, ?_, ?_⟩
      · simp only [Option.bind_eq_bind, Option.bind_some, List.foldlM_cons, List.foldlM_nil, read]
        split_ifs <;> rfl
      · intro j
        have step : j < bitWidth + 1 ↔ j < bitWidth ∨ j = bitWidth := by omega
        by_cases last : j = bitWidth
        · cases here : unit.bit (bitWidth + bitOffset) <;>
            simp [last, here, bits, ← BitVec.twoPow_eq]
          omega
        · cases here : unit.bit (bitWidth + bitOffset) <;>
            simp [last, Ne.symm last, bits, ← BitVec.twoPow_eq, step]

theorem set_bits {bitOffset bitWidth : Nat} (val : BitVec 64) (narrow : bitWidth ≤ 64)
    (inside : bitOffset + bitWidth ≤ 8 * bytes) :
    ∃ after, (List.range bitWidth).foldlM (fun unit i =>
        let mask := 1#64 <<< i
        unit.setBit (i + bitOffset) (decide (val &&& mask = mask))) unit = some after ∧
      ∀ j, after.bit j =
        if bitOffset ≤ j ∧ j < bitOffset + bitWidth then val.getLsbD (j - bitOffset)
        else unit.bit j := by
  induction bitWidth with
  | zero =>
      refine ⟨unit, rfl, ?_⟩
      intro j
      rw [if_neg]
      omega
  | succ bitWidth ih =>
      rcases ih (by omega) (by omega) with ⟨middle, ran, bits⟩
      rcases middle.setBit_eq (by omega : bitWidth + bitOffset < 8 * bytes) (val.getLsbD bitWidth) with
        ⟨after, stored, changed⟩
      refine ⟨after, ?_, ?_⟩
      · rw [List.range_succ, List.foldlM_append, ran]
        simp only [Option.bind_eq_bind, Option.bind_some, List.foldlM_cons, List.foldlM_nil,
          and_mask val (by omega : bitWidth < 64), stored]
        rfl
      · intro j
        rw [changed, bits]
        by_cases last : j = bitWidth + bitOffset
        · rw [if_pos last, if_pos (by omega), last, Nat.add_sub_cancel]
        · rw [if_neg last]
          congr 1
          apply propext
          omega

end BitfieldUnit

structure Field (bytes : Nat) where
  offset : Nat
  width : Nat
  narrow : width ≤ 64
  starts : offset / 8 < bytes
  ends : offset + width ≤ 8 * bytes

namespace Field

variable {bytes : Nat} (field : Field bytes)

theorem assertions_hold : BitfieldUnit.assertions bytes field.offset field.width = some () := by
  have ends : (field.offset + field.width) / 8 ≤ bytes := by
    have inside := field.ends
    omega
  have all := And.intro field.narrow (And.intro field.starts ends)
  simp [BitfieldUnit.assertions, guard, all]

theorem get_eq (unit : BitfieldUnit bytes) :
    ∃ value, unit.get field.offset field.width = some value ∧
      ∀ j, value.getLsbD j = (decide (j < field.width) && unit.bit (j + field.offset)) := by
  rcases unit.get_bits field.narrow field.ends with ⟨value, ran, bits⟩
  refine ⟨value, ?_, bits⟩
  rw [BitfieldUnit.get, field.assertions_hold]
  exact ran

theorem set_eq (unit : BitfieldUnit bytes) (val : BitVec 64) :
    ∃ after, unit.set field.offset field.width val = some after ∧
      ∀ j, after.bit j = if field.offset ≤ j ∧ j < field.offset + field.width
        then val.getLsbD (j - field.offset) else unit.bit j := by
  rcases unit.set_bits val field.narrow field.ends with ⟨after, ran, bits⟩
  refine ⟨after, ?_, bits⟩
  rw [BitfieldUnit.set, field.assertions_hold]
  exact ran

end Field

def Field.Before {bytes : Nat} (first second : Field bytes) : Prop :=
  first.offset + first.width ≤ second.offset
  deriving Decidable

/-- The bitfields of a struct in the order of its constructor, which is the order in the unit. They
are read and written as integers of the given size. -/
structure Packing (Flag : Type) (bytes size : Nat) where
  field : Flag → Field bytes
  flags : List Flag
  small : size ≤ 64
  ordered : (flags.map field).Pairwise Field.Before
  every : ∀ flag, flag ∈ flags

namespace Packing

variable {Flag : Type} {bytes size : Nat} (packing : Packing Flag bytes size)

def getter (unit : BitfieldUnit bytes) (flag : Flag) : Option (BitVec size) := do
  let value ← unit.get (packing.field flag).offset (packing.field flag).width
  return value.setWidth size

def setter (unit : BitfieldUnit bytes) (flag : Flag) (val : BitVec size) : Option (BitfieldUnit bytes) :=
  unit.set (packing.field flag).offset (packing.field flag).width (val.setWidth 64)

def setters (unit : BitfieldUnit bytes) (writes : List (Flag × BitVec size)) :
    Option (BitfieldUnit bytes) :=
  writes.foldlM (fun unit write => packing.setter unit write.1 write.2) unit

def newBitfield1 (values : Flag → BitVec size) : Option (BitfieldUnit bytes) :=
  packing.setters ⟨Vector.replicate bytes 0⟩ (packing.flags.map (fun flag => (flag, values flag)))

/-- The part of a value that fits its bitfield. -/
def fit (flag : Flag) (val : BitVec size) : BitVec size :=
  (val.setWidth (packing.field flag).width).setWidth size

def record (unit : BitfieldUnit bytes) (flag : Flag) : BitVec size :=
  ((unit.transmute >>> (packing.field flag).offset).setWidth (packing.field flag).width).setWidth size

theorem record_getLsbD (unit : BitfieldUnit bytes) (flag : Flag) {j : Nat} (below : j < size) :
    (packing.record unit flag).getLsbD j =
      (decide (j < (packing.field flag).width) && unit.bit (j + (packing.field flag).offset)) := by
  rw [record, BitVec.getLsbD_setWidth, BitVec.getLsbD_setWidth, BitVec.getLsbD_ushiftRight,
    Nat.add_comm _ j, BitfieldUnit.transmute_getLsbD]
  by_cases narrow : j < (packing.field flag).width
  · have ends := (packing.field flag).ends
    have inside : j + (packing.field flag).offset < 8 * bytes := by omega
    simp [below, narrow, inside]
  · simp [narrow]

theorem getter_eq (unit : BitfieldUnit bytes) (flag : Flag) :
    packing.getter unit flag = some (packing.record unit flag) := by
  rcases (packing.field flag).get_eq unit with ⟨value, ran, bits⟩
  have same : value.setWidth size = packing.record unit flag := by
    apply BitVec.eq_of_getLsbD_eq
    intro j below
    rw [packing.record_getLsbD unit flag below, BitVec.getLsbD_setWidth, bits]
    simp [below]
  rw [getter, ran, ← same]
  rfl

def Beside (first second : Flag) : Prop :=
  (packing.field first).Before (packing.field second) ∨
    (packing.field second).Before (packing.field first)

instance : Std.Symm packing.Beside := ⟨fun _ _ => Or.symm⟩

theorem beside {first second : Flag} (distinct : first ≠ second) : packing.Beside first second := by
  have each : packing.flags.Pairwise packing.Beside :=
    (List.pairwise_map.mp packing.ordered).imp Or.inl
  exact each.forall (packing.every first) (packing.every second) distinct

variable [DecidableEq Flag]

theorem setter_eq (unit : BitfieldUnit bytes) (flag : Flag) (val : BitVec size) :
    ∃ after, packing.setter unit flag val = some after ∧
      packing.record after = Function.update (packing.record unit) flag (packing.fit flag val) := by
  rcases (packing.field flag).set_eq unit (val.setWidth 64) with ⟨after, ran, bits⟩
  refine ⟨after, ran, ?_⟩
  funext other
  apply BitVec.eq_of_getLsbD_eq
  intro j below
  rw [packing.record_getLsbD after other below, bits]
  by_cases same : other = flag
  · rw [same, Function.update_self, fit, BitVec.getLsbD_setWidth, BitVec.getLsbD_setWidth]
    by_cases narrow : j < (packing.field flag).width
    · have wide : j < 64 := Nat.lt_of_lt_of_le below packing.small
      have here : (packing.field flag).offset ≤ j + (packing.field flag).offset ∧
          j + (packing.field flag).offset <
            (packing.field flag).offset + (packing.field flag).width := by omega
      simp [narrow, below, wide, here]
    · simp [narrow]
  · rw [Function.update_of_ne same, packing.record_getLsbD unit other below]
    by_cases narrow : j < (packing.field other).width
    · have outside : ¬ ((packing.field flag).offset ≤ j + (packing.field other).offset ∧
          j + (packing.field other).offset <
            (packing.field flag).offset + (packing.field flag).width) := by
        have beside := packing.beside same
        rw [Beside, Field.Before, Field.Before] at beside
        omega
      rw [if_neg outside]
    · simp [narrow]

def write (record : Flag → BitVec size) (write : Flag × BitVec size) : Flag → BitVec size :=
  Function.update record write.1 (packing.fit write.1 write.2)

theorem setters_eq (unit : BitfieldUnit bytes) (writes : List (Flag × BitVec size)) :
    ∃ after, packing.setters unit writes = some after ∧
      packing.record after = writes.foldl packing.write (packing.record unit) := by
  induction writes generalizing unit with
  | nil => exact ⟨unit, rfl, rfl⟩
  | cons write writes ih =>
      rcases packing.setter_eq unit write.1 write.2 with ⟨middle, stored, changed⟩
      rcases ih middle with ⟨after, ran, record⟩
      refine ⟨after, ?_, ?_⟩
      · rw [setters, List.foldlM_cons, stored]
        exact ran
      · rw [record, changed, List.foldl_cons, Packing.write]

theorem foldl_write (values : Flag → BitVec size) (flags : List Flag) (record : Flag → BitVec size)
    {flag : Flag} (member : flag ∈ flags) :
    (flags.map (fun flag => (flag, values flag))).foldl packing.write record flag =
      packing.fit flag (values flag) := by
  induction flags using List.reverseRecOn with
  | nil => cases member
  | append_singleton flags last ih =>
      rw [List.map_append, List.foldl_append]
      by_cases same : flag = last
      · simp [write, same]
      · have earlier : flag ∈ flags := by simpa [same] using member
        simpa [write, same] using ih earlier

/-- No accessor fails; whatever is written in whatever order, each bitfield reads as the last value
written to it, cut to its width, and as before where nothing was; and the constructor gives each
bitfield its argument. -/
def ActsAsRecord : Prop :=
  (∀ unit, ∃ record, (∀ flag, packing.getter unit flag = some (record flag)) ∧
    ∀ writes, ∃ after, packing.setters unit writes = some after ∧
      ∀ flag, packing.getter after flag = some (writes.foldl packing.write record flag)) ∧
  ∀ values, ∃ unit, packing.newBitfield1 values = some unit ∧
    ∀ flag, packing.getter unit flag = some (packing.fit flag (values flag))

theorem actsAsRecord : packing.ActsAsRecord := by
  constructor
  · intro unit
    refine ⟨packing.record unit, packing.getter_eq unit, ?_⟩
    intro writes
    rcases packing.setters_eq unit writes with ⟨after, ran, record⟩
    refine ⟨after, ran, ?_⟩
    intro flag
    rw [packing.getter_eq, record]
  · intro values
    rcases packing.setters_eq ⟨Vector.replicate bytes 0⟩
      (packing.flags.map (fun flag => (flag, values flag))) with ⟨unit, ran, record⟩
    refine ⟨unit, ran, ?_⟩
    intro flag
    rw [packing.getter_eq, record, packing.foldl_write values packing.flags _ (packing.every flag)]

end Packing

end MmtkJulia.JuliaTypes
