import MmtkJulia.FinalizerMark
import MmtkJulia.ParkedStack
import MmtkJulia.Slots

/-! A finalizer list that is run as a GC frame: mark_finlist and the scan of the frame treat its
words alike. -/

namespace MmtkJulia.Finalizer

open Scanning

/-- How a word of a direct frame is reported. -/
inductive SlotKind where
  | simple
  | offset (distance : Usize)
  deriving DecidableEq, Repr

def SlotKind.at : SlotKind → Address → JuliaVMSlot
  | .simple, address => .simple address
  | .offset distance, address => .offset address distance

def slotsOf (rts : Address) : Nat → List (Option SlotKind) → List JuliaVMSlot
  | _, [] => []
  | i, none :: kinds => slotsOf rts (i + 1) kinds
  | i, some kind :: kinds => kind.at (shift rts (BitVec.ofNat 64 i)) :: slotsOf rts (i + 1) kinds

def pairKinds (entry : Entry) : List (Option SlotKind) :=
  if tagBits entry.1 = 3 then [none, none]
  else if tagBits entry.1 = 1 then [some (.offset 1), none]
  else [some .simple, some .simple]

theorem SlotKind.address_at (kind : SlotKind) (address : Address) :
    (kind.at address).address = address := by
  cases kind <;> rfl

theorem mem_slotsOf {rts : Address} {kinds : List (Option SlotKind)} {i : Nat} {slot : JuliaVMSlot} :
    slot ∈ slotsOf rts i kinds ↔
      ∃ (j : Nat) (kind : SlotKind), kinds[j]? = some (some kind) ∧
        slot = kind.at (shift rts (BitVec.ofNat 64 (i + j))) := by
  induction kinds generalizing i with
  | nil => simp [slotsOf]
  | cons first kinds ih =>
      have position : ∀ j, i + 1 + j = i + (j + 1) := by omega
      cases first with
      | none =>
          rw [slotsOf, ih]
          constructor
          · rintro ⟨j, kind, found, rfl⟩
            exact ⟨j + 1, kind, found, by rw [position]⟩
          · rintro ⟨j, kind, found, rfl⟩
            cases j with
            | zero => simp at found
            | succ j => exact ⟨j, kind, found, by rw [position]⟩
      | some first =>
          rw [slotsOf, List.mem_cons, ih]
          constructor
          · rintro (rfl | ⟨j, kind, found, rfl⟩)
            · exact ⟨0, first, rfl, rfl⟩
            · exact ⟨j + 1, kind, found, by rw [position]⟩
          · rintro ⟨j, kind, found, rfl⟩
            cases j with
            | zero =>
                left
                cases found
                rfl
            | succ j => exact .inr ⟨j, kind, found, by rw [position]⟩

theorem slotsOf_apart (rts : Address) (kinds : List (Option SlotKind)) (i : Nat)
    (fits : rts.toNat + 8 * (i + kinds.length) ≤ 2 ^ 64) :
    (slotsOf rts i kinds).Pairwise (fun slot other => Apart slot.address other.address) := by
  induction kinds generalizing i with
  | nil => exact .nil
  | cons first kinds ih =>
      simp only [List.length_cons] at fits
      have rest := ih (i + 1) (by omega)
      cases first with
      | none => exact rest
      | some first =>
          apply List.Pairwise.cons _ rest
          intro other member
          obtain ⟨j, kind, found, rfl⟩ := mem_slotsOf.mp member
          have inside := (List.getElem?_eq_some_iff.mp found).1
          rw [SlotKind.address_at, SlotKind.address_at]
          exact words_apart (i + (kinds.length + 1)) fits (by omega) (by omega) (by omega)

section Words

variable {rts : Address} {i : Nat} {word : Usize} {rest : List Usize}

theorem directSlots_untagged (tag : tagBits word = 0) : directSlots rts i (word :: rest) =
    .simple (shift rts (BitVec.ofNat 64 i)) :: directSlots rts (i + 1) rest := by
  have paired : ¬ word &&& 3 = 3 := by
    rw [← tagBits, tag]
    decide
  have native : ¬ word &&& 1 ≠ 0 := by
    rw [and_low word (by decide), tag]
    decide
  rw [directSlots_cons, if_neg paired, if_neg native]

theorem directSlots_native (tag : tagBits word = 1) : directSlots rts i (word :: rest) =
    .offset (shift rts (BitVec.ofNat 64 i)) 1 :: directSlots rts (i + 2) rest.tail := by
  have paired : ¬ word &&& 3 = 3 := by
    rw [← tagBits, tag]
    decide
  have native : word &&& 1 ≠ 0 := by
    rw [and_low word (by decide), tag]
    decide
  rw [directSlots_cons, if_neg paired, if_pos native]

theorem directSlots_malloced (tag : tagBits word = 3) :
    directSlots rts i (word :: rest) = directSlots rts (i + 2) rest.tail := by
  have paired : word &&& 3 = 3 := tag
  rw [directSlots_cons, if_pos paired]

end Words

section Pairs

variable {entry : Entry}

theorem pairKinds_untagged (tag : tagBits entry.1 = 0) :
    pairKinds entry = [some .simple, some .simple] := by
  rw [pairKinds, tag]
  rfl

theorem pairKinds_native (tag : tagBits entry.1 = 1) :
    pairKinds entry = [some (.offset 1), none] := by
  rw [pairKinds, tag]
  rfl

theorem pairKinds_malloced (tag : tagBits entry.1 = 3) : pairKinds entry = [none, none] := by
  rw [pairKinds, tag]
  rfl

end Pairs

theorem directSlots_words (rts : Address) (entries : List Entry)
    (admissible : ∀ entry ∈ entries, Admissible entry) (i : Nat) :
    directSlots rts i (words entries) = slotsOf rts i (entries.flatMap pairKinds) := by
  induction entries generalizing i with
  | nil => rfl
  | cons entry rest ih =>
      have ih := ih (fun other member => admissible other (List.mem_cons_of_mem _ member)) (i + 2)
      rw [words_cons, List.flatMap_cons]
      rcases admissible entry (by simp) with registered | rfl
      · rcases registered.2 with ⟨tag, finalizer⟩ | tag | tag
        · rw [directSlots_untagged tag, directSlots_untagged finalizer.2, ih, pairKinds_untagged tag]
          rfl
        · rw [directSlots_native tag, List.tail_cons, ih, pairKinds_native tag]
          rfl
        · rw [directSlots_malloced tag, List.tail_cons, ih, pairKinds_malloced tag]
          rfl
      · have zeroed : tagBits 0 = 0 := rfl
        rw [directSlots_untagged zeroed, directSlots_untagged zeroed, ih, pairKinds_untagged zeroed]
        rfl

/-- What tracing makes of a word, by the way it is reported. -/
def Agrees (traceObject : Address → ObjectReference) (kind : Option SlotKind) (old new : Usize) : Prop :=
  match kind with
  | none => new = old
  | some kind => ∀ address, (kind.at address).updated traceObject old = new

section Updates

variable (traceObject : Address → ObjectReference) {word : Usize}

theorem agrees_object (nonzero : word ≠ 0) :
    Agrees traceObject (some .simple) word (traceObject word).addr :=
  fun address => JuliaVMSlot.updated_simple address traceObject nonzero

theorem agrees_zero : Agrees traceObject (some .simple) 0 0 :=
  fun address => JuliaVMSlot.updated_null address traceObject

theorem agrees_native (tag : tagBits word = 1) (nonzero : untagged word ≠ 0) :
    Agrees traceObject (some (.offset 1)) word ((traceObject (untagged word)).addr ||| 1) := by
  intro address
  have cleared := sub_one_of_tag tag
  have object : word - 1 ≠ 0 := by
    rw [cleared]
    exact nonzero
  calc
    (SlotKind.at (.offset 1) address).updated traceObject word =
        (traceObject (word - 1)).addr + 1 := JuliaVMSlot.updated_offset address traceObject object
    _ = (traceObject (untagged word)).addr ||| 1 := by rw [cleared, ObjectReference.add_one]

theorem agrees_pair {entry : Entry} (admissible : Admissible entry) :
    ∃ first second, pairKinds entry = [first, second] ∧
      Agrees traceObject first entry.1 (forwardPair traceObject entry).1 ∧
      Agrees traceObject second entry.2 (forwardPair traceObject entry).2 := by
  rcases admissible with registered | rfl
  · have nonzero := registered.nonzero
    rcases registered with ⟨address, ⟨tag, finalizer⟩ | tag | tag⟩
    · rw [forwardPair_object traceObject nonzero tag]
      exact ⟨_, _, pairKinds_untagged tag, agrees_object traceObject nonzero,
        agrees_object traceObject finalizer.1⟩
    · rw [forwardPair_native traceObject nonzero tag]
      exact ⟨_, _, pairKinds_native tag, agrees_native traceObject tag address, rfl⟩
    · rw [forwardPair_malloced traceObject nonzero tag]
      exact ⟨_, _, pairKinds_malloced tag, rfl, rfl⟩
  · exact ⟨_, _, rfl, agrees_zero traceObject, agrees_zero traceObject⟩

theorem agrees_at (entries : List Entry) (admissible : ∀ entry ∈ entries, Admissible entry)
    {j : Nat} {old : Usize} (found : (words entries)[j]? = some old) :
    ∃ kind new, (entries.flatMap pairKinds)[j]? = some kind ∧
      (words (entries.map (forwardPair traceObject)))[j]? = some new ∧
      Agrees traceObject kind old new := by
  induction entries generalizing j with
  | nil => simp at found
  | cons entry rest ih =>
      rcases agrees_pair traceObject (admissible entry (by simp)) with
        ⟨first, second, kinds, object, finalizer⟩
      have ih := fun j found =>
        @ih (fun other member => admissible other (List.mem_cons_of_mem _ member)) j found
      rw [List.flatMap_cons, kinds, List.map_cons, words_cons]
      rw [words_cons] at found
      match j with
      | 0 =>
          cases found
          exact ⟨first, _, rfl, rfl, object⟩
      | 1 =>
          cases found
          exact ⟨second, _, rfl, rfl, finalizer⟩
      | j + 2 => exact ih j found

end Updates

theorem targets_words {rts : Address} {held : Address → Usize} (entries : List Entry)
    (admissible : ∀ entry ∈ entries, Admissible entry) (i : Nat)
    (holds : ∀ j old, (words entries)[j]? = some old →
      held (shift rts (BitVec.ofNat 64 (i + j))) = old) :
    (slotsOf rts i (entries.flatMap pairKinds)).filterMap
      (fun slot => slot.target (held slot.address)) = entries.flatMap tracedBy := by
  induction entries generalizing i with
  | nil => rfl
  | cons entry rest ih =>
      have object : held (shift rts (BitVec.ofNat 64 i)) = entry.1 := holds 0 entry.1 rfl
      have finalizer : held (shift rts (BitVec.ofNat 64 (i + 1))) = entry.2 := holds 1 entry.2 rfl
      have later : ∀ j old, (words rest)[j]? = some old →
          held (shift rts (BitVec.ofNat 64 (i + 2 + j))) = old := by
        intro j old found
        have position : i + 2 + j = i + (j + 2) := by omega
        rw [position]
        exact holds (j + 2) old found
      have ih := ih (fun other member => admissible other (List.mem_cons_of_mem _ member)) (i + 2) later
      rw [List.flatMap_cons, List.flatMap_cons, ← ih]
      rcases admissible entry (by simp) with registered | rfl
      · have nonzero := registered.nonzero
        rcases registered with ⟨address, ⟨tag, managed⟩ | tag | tag⟩
        · have first := JuliaVMSlot.target_simple (shift rts (BitVec.ofNat 64 i)) nonzero
          have second := JuliaVMSlot.target_simple (shift rts (BitVec.ofNat 64 (i + 1))) managed.1
          rw [pairKinds_untagged tag, tracedBy_object nonzero tag]
          simp only [slotsOf, SlotKind.at, List.cons_append, List.nil_append, List.filterMap_cons,
            JuliaVMSlot.address_simple, object, finalizer, first, second]
        · have here : entry.1 - 1 ≠ 0 := by
            rw [sub_one_of_tag tag]
            exact address
          have first := JuliaVMSlot.target_offset (shift rts (BitVec.ofNat 64 i)) here
          rw [sub_one_of_tag tag] at first
          rw [pairKinds_native tag, tracedBy_native nonzero tag]
          simp only [slotsOf, SlotKind.at, List.cons_append, List.nil_append, List.filterMap_cons,
            JuliaVMSlot.address_offset, object, first]
        · rw [pairKinds_malloced tag, tracedBy_malloced nonzero tag]
          simp only [slotsOf, List.cons_append, List.nil_append]
      · have kinds : pairKinds (0, 0) = [some .simple, some .simple] := rfl
        have nothing : tracedBy (0, 0) = [] := rfl
        rw [kinds, nothing]
        simp only [slotsOf, SlotKind.at, List.cons_append, List.nil_append, List.filterMap_cons,
          JuliaVMSlot.address_simple, object, finalizer, JuliaVMSlot.target_null]

theorem pairKinds_length (entries : List Entry) :
    (entries.flatMap pairKinds).length = (words entries).length := by
  induction entries with
  | nil => rfl
  | cons entry rest ih =>
      have two : (pairKinds entry).length = 2 := by
        rw [pairKinds]
        split_ifs <;> rfl
      rw [List.flatMap_cons, List.length_append, two, ih, words_cons, List.length_cons,
        List.length_cons]
      omega

section Traced

variable {traceObject : Address → ObjectReference} {memory after : Memory} {rts : Address}
  {entries : List Entry}

theorem frame_slots_read
    (holds : ∀ j old, (words entries)[j]? = some old →
      loadU64 memory (shift rts (BitVec.ofNat 64 j)) = .ok old) :
    ∀ slot ∈ slotsOf rts 0 (entries.flatMap pairKinds),
      loadU64 memory slot.address = .ok (wordAt memory slot.address) := by
  intro slot member
  obtain ⟨j, kind, found, rfl⟩ := mem_slotsOf.mp member
  have inside := (List.getElem?_eq_some_iff.mp found).1
  have read := holds j _ (List.getElem?_eq_getElem (pairKinds_length entries ▸ inside))
  rw [SlotKind.address_at, Nat.zero_add, wordAt_eq read]
  exact read

theorem frame_word_after (admissible : ∀ entry ∈ entries, Admissible entry)
    (fits : rts.toNat + 8 * (words entries).length ≤ 2 ^ 64)
    (holds : ∀ j old, (words entries)[j]? = some old →
      loadU64 memory (shift rts (BitVec.ofNat 64 j)) = .ok old)
    (updated : ∀ slot ∈ slotsOf rts 0 (entries.flatMap pairKinds), loadU64 after slot.address =
      .ok (slot.updated traceObject (wordAt memory slot.address)))
    (outside : ∀ address, (∀ slot ∈ slotsOf rts 0 (entries.flatMap pairKinds),
      Apart slot.address address) → loadU64 after address = loadU64 memory address)
    {i : Nat} {new : Usize} (found : (words (entries.map (forwardPair traceObject)))[i]? = some new) :
    loadU64 after (shift rts (BitVec.ofNat 64 i)) = .ok new := by
  have lengths := pairKinds_length entries
  have inside : i < (words entries).length := by
    have bounded := (List.getElem?_eq_some_iff.mp found).1
    rw [words_length, List.length_map] at bounded
    rwa [words_length]
  obtain ⟨kind, word, reported, marked, agrees⟩ :=
    agrees_at traceObject entries admissible (List.getElem?_eq_getElem inside)
  have same : word = new := Option.some.inj (marked.symm.trans found)
  have read := holds i _ (List.getElem?_eq_getElem inside)
  subst same
  cases kind with
  | none =>
      have clear : ∀ slot ∈ slotsOf rts 0 (entries.flatMap pairKinds),
          Apart slot.address (shift rts (BitVec.ofNat 64 i)) := by
        intro slot member
        obtain ⟨j, kind, elsewhere, rfl⟩ := mem_slotsOf.mp member
        have below := (List.getElem?_eq_some_iff.mp elsewhere).1
        rw [SlotKind.address_at, Nat.zero_add]
        apply words_apart (words entries).length fits (lengths ▸ below) inside
        rintro rfl
        rw [reported] at elsewhere
        cases elsewhere
      rw [outside _ clear, read, agrees]
  | some kind =>
      have member : kind.at (shift rts (BitVec.ofNat 64 i)) ∈
          slotsOf rts 0 (entries.flatMap pairKinds) :=
        mem_slotsOf.mpr ⟨i, kind, reported, by rw [Nat.zero_add]⟩
      have stored := updated _ member
      rw [SlotKind.address_at, wordAt_eq read, agrees] at stored
      exact stored

theorem frame_traced_as_finlist (traceObject : Address → ObjectReference)
    (admissible : ∀ entry ∈ entries, Admissible entry)
    (fits : rts.toNat + 8 * (words entries).length ≤ 2 ^ 64)
    (holds : ∀ j old, (words entries)[j]? = some old →
      loadU64 memory (shift rts (BitVec.ofNat 64 j)) = .ok old)
    {order : List JuliaVMSlot} (same : order.Perm (directSlots rts 0 (words entries))) :
    ∃ after, traceSlots traceObject order memory = .ok after ∧
      after.traced.Perm (entries.flatMap tracedBy) ∧
      ∀ i new, (words (entries.map (forwardPair traceObject)))[i]? = some new →
        loadU64 after.memory (shift rts (BitVec.ofNat 64 i)) = .ok new := by
  rw [directSlots_words rts entries admissible] at same
  have lengths := pairKinds_length entries
  have apart := slotsOf_apart rts (entries.flatMap pairKinds) 0 (by rw [lengths]; omega)
  have targets := targets_words entries admissible 0 (fun j old found => by
    rw [Nat.zero_add]
    exact wordAt_eq (holds j old found))
  obtain ⟨after, ran, log, updated, outside⟩ :=
    traceSlots_any_order traceObject same apart (frame_slots_read holds)
  rw [targets] at log
  refine ⟨after, ran, log, ?_⟩
  intro i new found
  exact frame_word_after admissible fits holds updated outside found

end Traced

theorem frame_fits {frame : Frame}
    (bounded : frame.address.toNat + 8 * (frame.words.length + 2) ≤ 2 ^ 64) :
    frame.rts.toNat + 8 * frame.words.length ≤ 2 ^ 64 := by
  have two : (2 : Usize).toNat = 2 := rfl
  have top := frame.rts.isLt
  by_cases empty : frame.words.length = 0
  · omega
  · have start : frame.rts.toNat = frame.address.toNat + 16 := by
      rw [Frame.rts, shift, BitVec.toNat_add, BitVec.toNat_mul, eight_toNat, two]
      omega
    omega

theorem chain_frameAt {read : Address → Except Scanning.Fault Usize} {s : Address}
    {frames : List Frame} (chain : Chain read s frames) {frame : Frame} (member : frame ∈ frames) :
    FrameAt read frame := by
  induction frames generalizing s with
  | nil => cases member
  | cons first frames ih =>
      obtain ⟨-, at_, rest⟩ := chain
      rcases List.mem_cons.mp member with rfl | later
      · exact at_
      · rcases rest with ⟨rfl, -⟩ | ⟨-, chain⟩
        · cases later
        · exact ih chain later

theorem hangs_frameAt {read : Address → Except Scanning.Fault Usize} {gcstack : Address}
    {frames : List Frame} (hangs : Hangs read gcstack frames) {frame : Frame}
    (member : frame ∈ frames) : FrameAt read frame := by
  rcases hangs with ⟨-, rfl⟩ | ⟨-, chain⟩
  · cases member
  · exact chain_frameAt chain member

theorem stkbufSlot_returns (runtime : Runtime) {memory : Memory} {ta : Address} {task : TaskFields}
    (at_ : TaskAt memory ta task) : ∃ own, stkbufSlot runtime memory ta = .ok own := by
  simp only [stkbufSlot, at_.stkbuf, at_.copyStack, bind, Except.bind]
  split
  · exact ⟨_, rfl⟩
  · exact ⟨_, rfl⟩

/-- The frame may stand anywhere on the shadow stack of a task that is not parked. -/
theorem finlist_runs_as_frame (debug : Bool) (runtime : Runtime) (memory : Memory) (fuel : Nat)
    (ta : Address) (task : TaskFields) (at_ : TaskAt memory ta task)
    (live : stackWindow runtime memory ta = .ok .whole) (front back : List Frame) (frame : Frame)
    (hangs : Hangs (loadU64 memory) task.gcstack (front ++ frame :: back))
    (enough : (front ++ frame :: back).length ≤ fuel) (direct : frame.nroots &&& 1 = 0)
    (bounded : frame.address.toNat + 8 * (frame.words.length + 2) ≤ 2 ^ 64) (entries : List Entry)
    (holds : frame.words = words entries)
    (admissible : ∀ entry ∈ entries, Admissible entry)
    (traceObject : Address → ObjectReference) :
    ∃ before slots behind marked i traced,
      mmtkScanGcstack runtime memory fuel ta = .ok (before ++ slots ++ behind) ∧
      scanFrame memory .whole frame.address frame.nroots = .ok slots ∧
      markFinlist debug traceObject ⟨frame.words⟩ 0 [] = .ok ⟨⟨marked⟩, i, traced⟩ ∧
      marked.length = frame.words.length ∧
      ∀ order : List JuliaVMSlot, order.Perm slots →
        ∃ after, traceSlots traceObject order memory = .ok after ∧ after.traced.Perm traced ∧
          ∀ i word, marked[i]? = some word → loadU64 after.memory (frame.wordAt i) = .ok word := by
  have frameAt : FrameAt (loadU64 memory) frame := hangs_frameAt hangs (by simp)
  rw [← readStack_whole] at hangs
  obtain ⟨own, buffer⟩ := stkbufSlot_returns runtime at_
  have roots := at_.scanShadowStack_eq live hangs enough
  have exceptions := @TaskAt.scanExcstack_eq runtime memory ta task at_
  rw [seen_whole, List.flatMap_append, List.flatMap_cons] at roots
  have reported : mmtkScanGcstack runtime memory fuel ta =
      .ok (own ++ front.flatMap Frame.slots ++ frame.slots ++
        (back.flatMap Frame.slots ++ task.exceptionSlots runtime memory ta)) := by
    rw [mmtkScanGcstack, buffer, roots, exceptions]
    simp [bind, Except.bind, pure, Except.pure]
  have scanned : scanFrame memory .whole frame.address frame.nroots = .ok frame.slots := by
    rw [← readStack_whole] at frameAt
    rw [scanFrame_eq frameAt, seen_whole]
  have slots : frame.slots = directSlots frame.rts 0 (words entries) := by
    rw [Frame.slots, if_neg (not_not.mpr direct), holds]
  obtain ⟨i, marked⟩ := @markFinlist_eq debug traceObject [] entries admissible []
  simp only [List.nil_append, List.length_nil, Nat.mul_zero] at marked
  rw [holds]
  refine ⟨_, _, _, _, i, _, reported, scanned, marked, by simp, ?_⟩
  intro order same
  rw [slots] at same
  have fits := frame_fits bounded
  rw [holds] at fits
  apply frame_traced_as_finlist traceObject admissible fits _ same
  intro j old found
  rw [← holds] at found
  obtain ⟨inside, word⟩ := List.getElem?_eq_some_iff.mp found
  exact (frameAt.words ⟨j, inside⟩).trans (congrArg Except.ok word)

/-- A running task at 0x7000 with one frame, which holds a pair of each kind. -/
def finlistStack : Memory := .ofWords [
  (0x7090, 3), (0x7098, 0x9fb0), (0x70a8, 0x900), (0x70b0, 0), (0x70c8, 0), (0x70d8, 0),
  (0x9fb0, 32), (0x9fb8, 0), (0x9fc0, 0x1230), (0x9fc8, 0x1240), (0x9fd0, 0x5001), (0x9fd8, 7),
  (0x9fe0, 0), (0x9fe8, 0), (0x9ff0, 0x5003), (0x9ff8, 9)]

def finlistTask : TaskFields := ⟨0, 0, 0x900, 3, 0x9fb0, 0⟩

def finlistEntries : List Entry := [(0x1230, 0x1240), (0x5001, 7), (0, 0), (0x5003, 9)]

def finlistFrame : Frame := ⟨0x9fb0, 32, 0, words finlistEntries, rfl⟩

theorem finlistTask_at : TaskAt finlistStack 0x7000 finlistTask := by
  constructor <;> decide +kernel

theorem finlistFrame_hangs : Hangs (loadU64 finlistStack) finlistTask.gcstack [finlistFrame] := by
  have frameAt : FrameAt (loadU64 finlistStack) finlistFrame := by
    constructor <;> decide +kernel
  exact .inr ⟨by decide, rfl, frameAt, .inl ⟨rfl, rfl⟩⟩

theorem finlistEntries_admissible : ∀ entry ∈ finlistEntries, Admissible entry := by
  intro entry member
  simp only [finlistEntries, List.mem_cons, List.not_mem_nil, or_false] at member
  rcases member with rfl | rfl | rfl | rfl <;> decide

theorem finlist_runs_as_frame_tags :
    ∃ after, traceSlots (fun _ => ⟨8192, by decide, by decide⟩)
        [.offset 0x9fd0 1, .simple 0x9fe8, .simple 0x9fe0, .simple 0x9fc8, .simple 0x9fc0]
        finlistStack = .ok after ∧
      after.traced.Perm [0x1230, 0x1240, 0x5000] ∧ loadU64 after.memory 0x9fd0 = .ok 8193 := by
  obtain ⟨_, slots, _, marked, i, traced, -, scanned, finlist, -, any⟩ :=
    finlist_runs_as_frame false sampleRuntime finlistStack 1 0x7000 finlistTask finlistTask_at
      (finlistTask_at.stackWindow_live (.inr (by decide))) [] [] finlistFrame finlistFrame_hangs
      (by decide) rfl (by decide) finlistEntries rfl finlistEntries_admissible
      (fun _ => ⟨8192, by decide, by decide⟩)
  have reported : slots = [.simple 0x9fc0, .simple 0x9fc8, .offset 0x9fd0 1, .simple 0x9fe0,
      .simple 0x9fe8] := Except.ok.inj (scanned.symm.trans (by decide +kernel))
  have outcome : (⟨⟨marked⟩, i, traced⟩ : Mark) =
      ⟨⟨[8192, 8192, 8193, 7, 0, 0, 0x5003, 9]⟩, 8, [0x1230, 0x1240, 0x5000]⟩ :=
    Except.ok.inj (finlist.symm.trans (by decide +kernel))
  cases outcome
  obtain ⟨after, ran, log, words⟩ := any
    [.offset 0x9fd0 1, .simple 0x9fe8, .simple 0x9fe0, .simple 0x9fc8, .simple 0x9fc0]
    (by rw [reported]; decide)
  exact ⟨after, ran, log, words 2 8193 rfl⟩

end MmtkJulia.Finalizer
