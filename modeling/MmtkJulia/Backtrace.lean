import MmtkJulia.Layouts
import MmtkJulia.Loop

/-! The loop of scan_roots_in_mutator_thread over the backtrace buffer, with the accessors of its
entries. Debug assertions are compiled out. -/

namespace MmtkJulia.Backtrace

open Scanning

def jlBtNonPtrEntry : Usize := BitVec.allOnes 64

section Accessors

variable (memory : Memory) (btEntry : Address)

def mmtkJlBtIsNative : Except Fault Bool := do
  let entry ← loadU64 memory btEntry
  return decide (entry ≠ jlBtNonPtrEntry)

def mmtkJlBtNumJlvals : Except Fault Usize := do
  let entry ← loadU64 memory (shift btEntry 1)
  return entry &&& 0x7

def mmtkJlBtNumUintvals : Except Fault Usize := do
  let entry ← loadU64 memory (shift btEntry 1)
  return entry >>> 3 &&& 0x7

def mmtkJlBtEntrySize : Except Fault Usize := do
  if ← mmtkJlBtIsNative memory btEntry then
    return 1
  else
    return 2 + (← mmtkJlBtNumJlvals memory btEntry) + (← mmtkJlBtNumUintvals memory btEntry)

def mmtkJlBtEntryJlvalue (i : Usize) : Except Fault Address :=
  loadU64 memory (shift btEntry (2 + i))

end Accessors

structure Progress where
  i : Usize
  nodeBuffer : List Address
  deriving DecidableEq, Repr

def entryJlvalues (memory : Memory) (btEntry : Address) (njlvals : Usize) :
    Except Fault (List Address) :=
  collect (fun j => do return [← mmtkJlBtEntryJlvalue memory btEntry (BitVec.ofNat 64 j)])
    (List.range njlvals.toNat)

def scanBtEntry (memory : Memory) (btData : Address) (progress : Progress) :
    Except Fault Progress := do
  let btEntry := shift btData progress.i
  let btEntrySize ← mmtkJlBtEntrySize memory btEntry
  if ← mmtkJlBtIsNative memory btEntry then
    return { progress with i := progress.i + btEntrySize }
  else
    let njlvals ← mmtkJlBtNumJlvals memory btEntry
    let values ← entryJlvalues memory btEntry njlvals
    return { i := progress.i + btEntrySize, nodeBuffer := progress.nodeBuffer ++ values }

/-- The node buffer after the loop. Every entry takes at least one word, which bounds the rounds. -/
def scanBtBuffer (memory : Memory) (btData : Address) (btSize : Usize) (nodeBuffer : List Address) :
    Except Fault (List Address) := do
  let progress ← whileLoop .stuck (fun progress => decide (progress.i < btSize))
    (scanBtEntry memory btData) (btSize.toNat + 1) ⟨0, nodeBuffer⟩
  return progress.nodeBuffer

/-- What the runtime writes to the buffer: a native frame, or an entry that says how many values
follow its descriptor. -/
inductive BtEntry where
  | native (word : Usize) (pointer : word ≠ jlBtNonPtrEntry)
  | extended (descriptor : Usize) (jlvals : List Address) (uintvals : List Usize)
      (managed : jlvals.length = (descriptor &&& 0x7).toNat)
      (integers : uintvals.length = (descriptor >>> 3 &&& 0x7).toNat)

namespace BtEntry

def encode : BtEntry → List Usize
  | native word _ => [word]
  | extended descriptor jlvals uintvals _ _ => jlBtNonPtrEntry :: descriptor :: (jlvals ++ uintvals)

def jlvals : BtEntry → List Address
  | native _ _ => []
  | extended _ jlvals _ _ _ => jlvals

theorem encode_pos (entry : BtEntry) : 0 < entry.encode.length := by
  cases entry <;> simp [encode]

end BtEntry

def HoldsWords (memory : Memory) (base : Address) (words : List Usize) : Prop :=
  ∀ i word, words[i]? = some word → loadU64 memory (shift base (BitVec.ofNat 64 i)) = .ok word

section Words

variable {memory : Memory} {base : Address} {words more : List Usize}

theorem shift_shift (base : Address) (i j : Usize) : shift (shift base i) j = shift base (i + j) := by
  rw [shift, shift, shift, BitVec.mul_add, BitVec.add_assoc]

theorem HoldsWords.head {word : Usize} (holds : HoldsWords memory base (word :: words)) :
    loadU64 memory base = .ok word := by
  have first := holds 0 word rfl
  simpa [shift] using first

theorem HoldsWords.left (holds : HoldsWords memory base (words ++ more)) :
    HoldsWords memory base words := by
  intro i word found
  apply holds i word
  rw [List.getElem?_append_left (List.getElem?_eq_some_iff.mp found).1]
  exact found

theorem HoldsWords.right (holds : HoldsWords memory base (words ++ more)) :
    HoldsWords memory (shift base (BitVec.ofNat 64 words.length)) more := by
  intro i word found
  rw [shift_shift, ← BitVec.ofNat_add]
  apply holds
  rw [List.getElem?_append_right (Nat.le_add_right _ _), Nat.add_sub_cancel_left]
  exact found

theorem HoldsWords.only (holds : HoldsWords memory base words) :
    HoldsWords (memory.only base (8 * words.length)) base words := by
  intro i word found
  have inside := (List.getElem?_eq_some_iff.mp found).1
  have loaded := holds i word found
  have offset : (8 * BitVec.ofNat 64 i : Address).toNat + 8 ≤ 8 * words.length := by
    rw [BitVec.toNat_mul, BitVec.toNat_ofNat, eight_toNat]
    have wrapped := Nat.mod_le (8 * (i % 2 ^ 64)) (2 ^ 64)
    have index := Nat.mod_le i (2 ^ 64)
    omega
  rw [loadU64, loadBytes, shift, Memory.load_only offset]
  exact loaded

end Words

section Entry

variable {memory : Memory} {btEntry : Address} {word descriptor : Usize}

theorem isNative_of_header (header : loadU64 memory btEntry = .ok word) :
    mmtkJlBtIsNative memory btEntry = .ok (decide (word ≠ jlBtNonPtrEntry)) := by
  rw [mmtkJlBtIsNative, header]
  rfl

theorem numJlvals_of_descriptor (stored : loadU64 memory (shift btEntry 1) = .ok descriptor) :
    mmtkJlBtNumJlvals memory btEntry = .ok (descriptor &&& 0x7) := by
  rw [mmtkJlBtNumJlvals, stored]
  rfl

theorem numUintvals_of_descriptor (stored : loadU64 memory (shift btEntry 1) = .ok descriptor) :
    mmtkJlBtNumUintvals memory btEntry = .ok (descriptor >>> 3 &&& 0x7) := by
  rw [mmtkJlBtNumUintvals, stored]
  rfl

theorem values_of_range (values : List Address) :
    (List.range values.length).flatMap (fun j => [values[j]?.getD 0]) = values := by
  rw [← List.map_eq_flatMap]
  apply List.ext_getElem (by simp)
  intro j first second
  simp [second]

theorem entryJlvalues_eq {values : List Address} {njlvals : Usize}
    (holds : HoldsWords memory (shift btEntry 2) values) (count : values.length = njlvals.toNat) :
    entryJlvalues memory btEntry njlvals = .ok values := by
  have visits : ∀ j ∈ List.range values.length,
      (do return [← mmtkJlBtEntryJlvalue memory btEntry (BitVec.ofNat 64 j)] :
        Except Fault (List Address)) = .ok [values[j]?.getD 0] := by
    intro j member
    have below := List.mem_range.mp member
    have found : values[j]? = some values[j] := List.getElem?_eq_getElem below
    have loaded := holds j _ found
    rw [shift_shift] at loaded
    rw [mmtkJlBtEntryJlvalue, loaded, found]
    rfl
  rw [entryJlvalues, ← count, collect_ok visits, values_of_range]

theorem extended_size {jlvals : List Address} {uintvals : List Usize}
    (managed : jlvals.length = (descriptor &&& 0x7).toNat)
    (integers : uintvals.length = (descriptor >>> 3 &&& 0x7).toNat) :
    (BitVec.ofNat 64 (BtEntry.extended descriptor jlvals uintvals managed integers).encode.length :
      Usize) = (2 : Usize) + (descriptor &&& 0x7 : Usize) + (descriptor >>> 3 &&& 0x7 : Usize) := by
  have jl : (BitVec.ofNat 64 jlvals.length : Usize) = descriptor &&& 0x7 := by
    rw [managed, BitVec.ofNat_toNat, BitVec.setWidth_eq]
  have uint : (BitVec.ofNat 64 uintvals.length : Usize) = descriptor >>> 3 &&& 0x7 := by
    rw [integers, BitVec.ofNat_toNat, BitVec.setWidth_eq]
  rw [← jl, ← uint, BtEntry.encode, List.length_cons, List.length_cons, List.length_append]
  bv_omega

theorem scanBtEntry_eq {btData : Address} {i : Usize} {entry : BtEntry}
    (holds : HoldsWords memory (shift btData i) entry.encode) (nodeBuffer : List Address) :
    scanBtEntry memory btData ⟨i, nodeBuffer⟩ =
      .ok ⟨i + BitVec.ofNat 64 entry.encode.length, nodeBuffer ++ entry.jlvals⟩ := by
  cases entry with
  | native word pointer =>
      have native : mmtkJlBtIsNative memory (shift btData i) = .ok true := by
        rw [isNative_of_header holds.head, decide_eq_true pointer]
      simp only [scanBtEntry, mmtkJlBtEntrySize, native, bind, Except.bind, pure, Except.pure,
        if_true, BtEntry.encode, BtEntry.jlvals, List.length_singleton, List.append_nil]
      rfl
  | extended descriptor jlvals uintvals managed integers =>
      have stored := holds 1 descriptor rfl
      have extended : mmtkJlBtIsNative memory (shift btData i) = .ok false := by
        rw [isNative_of_header holds.head]
        rfl
      have values := entryJlvalues_eq
        (@HoldsWords.right memory (shift btData i) [jlBtNonPtrEntry, descriptor] _ holds).left managed
      have size := extended_size managed integers
      simp only [scanBtEntry, mmtkJlBtEntrySize, extended, numJlvals_of_descriptor stored,
        numUintvals_of_descriptor stored, values, bind, Except.bind, pure, Except.pure,
        BtEntry.jlvals, size]
      rfl

end Entry

section Buffer

variable {memory : Memory} {btData : Address} {btSize : Usize} {entries : List BtEntry}

def encodeAll (entries : List BtEntry) : List Usize := entries.flatMap BtEntry.encode

/-- After the entries taken so far the index is the number of their words, an entry boundary. -/
def boundary (nodeBuffer : List Address) (taken : List BtEntry) : Progress where
  i := BitVec.ofNat 64 (encodeAll taken).length
  nodeBuffer := nodeBuffer ++ taken.flatMap BtEntry.jlvals

theorem encodeAll_split (taken : List BtEntry) (entry : BtEntry) (later : List BtEntry) :
    encodeAll (taken ++ entry :: later) = encodeAll taken ++ (entry.encode ++ encodeAll later) := by
  rw [encodeAll, List.flatMap_append, List.flatMap_cons]
  rfl

theorem encodeAll_snoc (taken : List BtEntry) (entry : BtEntry) :
    encodeAll (taken ++ [entry]) = encodeAll taken ++ entry.encode := by
  rw [encodeAll_split, encodeAll, encodeAll, List.flatMap_nil, List.append_nil]

theorem length_le_encodeAll (entries : List BtEntry) : entries.length ≤ (encodeAll entries).length := by
  induction entries with
  | nil => exact Nat.le_refl _
  | cons entry entries ih =>
      have first := entry.encode_pos
      rw [encodeAll, List.flatMap_cons, List.length_append, List.length_cons]
      rw [encodeAll] at ih
      omega

theorem scanBtEntry_boundary (holds : HoldsWords memory btData (encodeAll entries))
    (nodeBuffer : List Address) {taken : List BtEntry} {entry : BtEntry} {later : List BtEntry}
    (whole : taken ++ entry :: later = entries) :
    scanBtEntry memory btData (boundary nodeBuffer taken) =
      .ok (boundary nodeBuffer (taken ++ [entry])) := by
  rw [← whole, encodeAll_split] at holds
  rw [boundary, scanBtEntry_eq holds.right.left, boundary, encodeAll_snoc, List.length_append,
    BitVec.ofNat_add, List.flatMap_append, List.flatMap_singleton, List.append_assoc]

theorem scanBtBuffer_eq (holds : HoldsWords memory btData (encodeAll entries))
    (size : btSize.toNat = (encodeAll entries).length) (nodeBuffer : List Address) :
    scanBtBuffer memory btData btSize nodeBuffer =
      .ok (nodeBuffer ++ entries.flatMap BtEntry.jlvals) := by
  have bounded := btSize.isLt
  have few := length_le_encodeAll entries
  have start : (⟨0, nodeBuffer⟩ : Progress) = boundary nodeBuffer [] := by
    rw [boundary, List.flatMap_nil, List.append_nil]
    rfl
  have ended : decide ((boundary nodeBuffer entries).i < btSize) = false := by
    rw [decide_eq_false_iff_not, BitVec.lt_def, boundary, BitVec.toNat_ofNat]
    omega
  have rounds : ∀ taken entry later, taken ++ entry :: later = entries →
      decide ((boundary nodeBuffer taken).i < btSize) = true ∧
        scanBtEntry memory btData (boundary nodeBuffer taken) =
          .ok (boundary nodeBuffer (taken ++ [entry])) := by
    intro taken entry later whole
    have words := congrArg List.length (encodeAll_split taken entry later)
    have first := entry.encode_pos
    rw [whole, List.length_append, List.length_append] at words
    refine ⟨?_, scanBtEntry_boundary holds nodeBuffer whole⟩
    rw [decide_eq_true_eq, BitVec.lt_def, boundary, BitVec.toNat_ofNat]
    omega
  rw [scanBtBuffer, start]
  rw [whileLoop_items rounds ended (by omega)]
  rfl

/-- The loop ends, reads no word from bt_size on, and pushes what the extended entries manage. The
payload of an entry may look like a header. -/
theorem scanBtBuffer_decodes (holds : HoldsWords memory btData (encodeAll entries))
    (size : btSize.toNat = (encodeAll entries).length) (nodeBuffer : List Address) :
    let decoded := nodeBuffer ++ entries.flatMap BtEntry.jlvals
    scanBtBuffer memory btData btSize nodeBuffer = .ok decoded ∧
    scanBtBuffer (memory.only btData (8 * btSize.toNat)) btData btSize nodeBuffer = .ok decoded := by
  refine ⟨scanBtBuffer_eq holds size nodeBuffer, ?_⟩
  apply scanBtBuffer_eq _ size nodeBuffer
  rw [size]
  exact holds.only

end Buffer

theorem holdsWords_of_fin {memory : Memory} {base : Address} {words : List Usize}
    (loads : ∀ i : Fin words.length,
      loadU64 memory (shift base (BitVec.ofNat 64 i)) = .ok (words.get i)) :
    HoldsWords memory base words := by
  intro i word found
  obtain ⟨below, rfl⟩ := List.getElem?_eq_some_iff.mp found
  exact loads ⟨i, below⟩

/-- An extended entry between others, with an integer that reads like the start of one. -/
def sampleEntries : List BtEntry :=
  [.native 0x401000 (by decide), .extended 0xff0a [0x5000, 0x6000] [jlBtNonPtrEntry] rfl rfl,
    .extended 1 [0x7000] [] rfl rfl]

def sampleBuffer : Memory :=
  Memory.ofWords ((encodeAll sampleEntries).mapIdx
    (fun i word => (shift 0x20000 (BitVec.ofNat 64 i), word)))

theorem sampleBuffer_holds : HoldsWords sampleBuffer 0x20000 (encodeAll sampleEntries) :=
  holdsWords_of_fin (by decide +kernel)

theorem scanBtBuffer_decodes_sample :
    scanBtBuffer sampleBuffer 0x20000 9 [0x100] = .ok [0x100, 0x5000, 0x6000, 0x7000] :=
  (scanBtBuffer_decodes sampleBuffer_holds (by decide) [0x100]).1

end MmtkJulia.Backtrace
