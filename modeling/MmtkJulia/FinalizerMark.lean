import MmtkJulia.FinalizerSweep

/-! What one call of mark_finlist does to a list of finalizer pairs. -/

namespace MmtkJulia.Finalizer

/-- A finalizer that is a Julia function: an untagged pointer. -/
def Managed (word : Usize) : Prop := word ≠ 0 ∧ tagBits word = 0
  deriving Decidable

/-- A registered pair. The tag of the object says whether its finalizer is a Julia function
(tag 0) or a native one (tag 1), or whether the object itself is malloced (tag 3). -/
def Registered (entry : Entry) : Prop :=
  untagged entry.1 ≠ 0 ∧
    (tagBits entry.1 = 0 ∧ Managed entry.2 ∨ tagBits entry.1 = 1 ∨ tagBits entry.1 = 3)
  deriving Decidable

/-- A registered pair, or one that finalize() has zeroed. -/
def Admissible (entry : Entry) : Prop := Registered entry ∨ entry = (0, 0)
  deriving Decidable

def tracedBy (entry : Entry) : List Address :=
  if entry.1 = 0 then []
  else if tagBits entry.1 = 0 then [entry.1, entry.2]
  else if tagBits entry.1 = 1 then [untagged entry.1]
  else []

def forwardPair (traceObject : Address → ObjectReference) (entry : Entry) : Entry :=
  if entry.1 = 0 then entry
  else if tagBits entry.1 = 0 then ((traceObject entry.1).addr, (traceObject entry.2).addr)
  else if tagBits entry.1 = 1 then ((traceObject (untagged entry.1)).addr ||| 1, entry.2)
  else entry

theorem Registered.nonzero {entry : Entry} (registered : Registered entry) : entry.1 ≠ 0 :=
  nonzero_of_address registered.1

theorem Registered.admissible {entry : Entry} (registered : Registered entry) : Admissible entry :=
  .inl registered

section Tags

variable {entry : Entry}

theorem tracedBy_object (nonzero : entry.1 ≠ 0) (tag : tagBits entry.1 = 0) :
    tracedBy entry = [entry.1, entry.2] := by
  rw [tracedBy, if_neg nonzero, if_pos tag]

theorem tracedBy_native (nonzero : entry.1 ≠ 0) (tag : tagBits entry.1 = 1) :
    tracedBy entry = [untagged entry.1] := by
  rw [tracedBy, if_neg nonzero, tag]
  rfl

theorem tracedBy_malloced (nonzero : entry.1 ≠ 0) (tag : tagBits entry.1 = 3) :
    tracedBy entry = [] := by
  rw [tracedBy, if_neg nonzero, tag]
  rfl

variable (traceObject : Address → ObjectReference)

theorem forwardPair_object (nonzero : entry.1 ≠ 0) (tag : tagBits entry.1 = 0) :
    forwardPair traceObject entry =
      ((traceObject entry.1).addr, (traceObject entry.2).addr) := by
  rw [forwardPair, if_neg nonzero, if_pos tag]

theorem forwardPair_native (nonzero : entry.1 ≠ 0) (tag : tagBits entry.1 = 1) :
    forwardPair traceObject entry = ((traceObject (untagged entry.1)).addr ||| 1, entry.2) := by
  rw [forwardPair, if_neg nonzero, tag]
  rfl

theorem forwardPair_malloced (nonzero : entry.1 ≠ 0) (tag : tagBits entry.1 = 3) :
    forwardPair traceObject entry = entry := by
  rw [forwardPair, if_neg nonzero, tag]
  rfl

end Tags

theorem gcPtrTag_one (word : Usize) : gcPtrTag word 1 = decide (tagBits word &&& 1 ≠ 0) := by
  rw [gcPtrTag, and_low word (by decide)]

theorem gcPtrTag_two (word : Usize) : gcPtrTag word 2 = decide (tagBits word &&& 2 ≠ 0) := by
  rw [gcPtrTag, and_low word (by decide)]

section Rounds

variable {debug : Bool} {traceObject : Address → ObjectReference} {front rest : List Entry}
  {entry : Entry} {log : List Address}

def markAt (front rest : List Entry) (log : List Address) : Mark :=
  ⟨⟨words (front ++ rest)⟩, 2 * front.length, log⟩

def markBetween (front : List Entry) (entry : Entry) (rest : List Entry) (log : List Address) :
    Mark :=
  ⟨⟨words (front ++ entry :: rest)⟩, 2 * front.length + 1, log⟩

theorem markAt_more : (markAt front (entry :: rest) log).more = true := by
  simp [Mark.more, markAt, ArrayListT.len]

theorem markBetween_more : (markBetween front entry rest log).more = true := by
  simp [Mark.more, markBetween, ArrayListT.len]

theorem markAt_ended : (markAt front [] log).more = false := by
  simp [Mark.more, markAt, ArrayListT.len]

theorem markAt_snoc : markAt (front ++ [entry]) rest log =
    ⟨⟨words (front ++ entry :: rest)⟩, 2 * front.length + 2, log⟩ := by
  simp [markAt]
  omega

theorem markBody_zeroed (zeroed : entry.1 = 0) :
    markBody debug traceObject (markAt front (entry :: rest) log) =
      .ok (markBetween front entry rest log) := by
  have object := get_object front rest entry
  simp only [markBody, markAt, object, bind, Except.bind, if_pos zeroed]
  rfl

theorem markBody_object (nonzero : entry.1 ≠ 0) (tag : tagBits entry.1 = 0) :
    markBody debug traceObject (markAt front (entry :: rest) log) =
      .ok (markBetween front ((traceObject entry.1).addr, entry.2) rest (log ++ [entry.1])) := by
  have object := get_object front rest entry
  have moved := set_object front rest entry (traceObject entry.1).addr
  have untouched : (traceObject entry.1).addr ||| 0 = (traceObject entry.1).addr := BitVec.or_zero
  have managed : gcPtrTag entry.1 1 = false := by rw [gcPtrTag_one, tag]; rfl
  have collected : gcPtrTag entry.1 2 = false := by rw [gcPtrTag_two, tag]; rfl
  have made := fromRawAddressUnchecked_ok nonzero
  simp only [markBody, markAt, object, bind, Except.bind, if_neg nonzero, managed, collected, made,
    Bool.false_eq_true, if_false, pure, Except.pure, untouched, moved, markBetween]

theorem markBody_finalizer {object fin : Usize} (nonzero : fin ≠ 0) (tag : tagBits fin = 0) :
    markBody debug traceObject (markBetween front (object, fin) rest log) =
      .ok (markAt (front ++ [(object, (traceObject fin).addr)]) rest (log ++ [fin])) := by
  have finalizer := get_finalizer front rest (object, fin)
  have moved := set_finalizer front rest (object, fin) (traceObject fin).addr
  have untouched : (traceObject fin).addr ||| 0 = (traceObject fin).addr := BitVec.or_zero
  have managed : gcPtrTag fin 1 = false := by rw [gcPtrTag_one, tag]; rfl
  have collected : gcPtrTag fin 2 = false := by rw [gcPtrTag_two, tag]; rfl
  have made := fromRawAddressUnchecked_ok nonzero
  simp only [markBody, markBetween, finalizer, bind, Except.bind, if_neg nonzero, managed,
    collected, made, Bool.false_eq_true, if_false, pure, Except.pure, untouched, moved, markAt_snoc]

theorem markBody_noFinalizer (zero : entry.2 = 0) :
    markBody debug traceObject (markBetween front entry rest log) =
      .ok (markAt (front ++ [entry]) rest log) := by
  have finalizer := get_finalizer front rest entry
  simp only [markBody, markBetween, finalizer, bind, Except.bind, if_pos zero, markAt_snoc]
  rfl

theorem markBody_native (nonzero : entry.1 ≠ 0) (address : untagged entry.1 ≠ 0)
    (tag : tagBits entry.1 = 1) :
    markBody debug traceObject (markAt front (entry :: rest) log) =
      .ok (markAt (front ++ [((traceObject (untagged entry.1)).addr ||| 1, entry.2)]) rest
        (log ++ [untagged entry.1])) := by
  have object := get_object front rest entry
  have moved := set_object front rest entry ((traceObject (untagged entry.1)).addr ||| 1)
  have native : gcPtrTag entry.1 1 = true := by rw [gcPtrTag_one, tag]; rfl
  have collected : gcPtrTag entry.1 2 = false := by rw [gcPtrTag_two, tag]; rfl
  have cleared := clear_one_of_tag tag
  have clear : gcPtrClearTag debug entry.1 1 = .ok (untagged entry.1) := by
    rw [gcPtrClearTag, if_neg (fun zero => address (cleared ▸ zero.2)), cleared]
  have inside : ¬ (debug = true ∧ ¬ 2 * front.length + 1 <
      (ArrayListT.mk (words (front ++ entry :: rest))).len) := by
    simp [ArrayListT.len]
  have made := fromRawAddressUnchecked_ok address
  simp only [markBody, markAt, object, bind, Except.bind, if_neg nonzero, native, collected, clear,
    made, if_neg inside, Bool.false_eq_true, if_false, if_true, pure, Except.pure, moved]
  rw [← markAt_snoc, markAt]

theorem markBody_malloced (nonzero : entry.1 ≠ 0) (tag : tagBits entry.1 = 3) :
    markBody debug traceObject (markAt front (entry :: rest) log) =
      .ok (markAt (front ++ [entry]) rest log) := by
  have object := get_object front rest entry
  have native : gcPtrTag entry.1 1 = true := by rw [gcPtrTag_one, tag]; rfl
  have malloced : gcPtrTag entry.1 2 = true := by rw [gcPtrTag_two, tag]; rfl
  have address : entry.1 &&& ~~~1 ≠ 0 := by
    intro zero
    have bit : entry.1 &&& ~~~1 &&& 2 = 2 := by
      rw [BitVec.and_assoc, and_low entry.1 (by decide), tag]
      rfl
    rw [zero] at bit
    simp at bit
  have clear : gcPtrClearTag debug entry.1 1 = .ok (entry.1 &&& ~~~1) := by
    rw [gcPtrClearTag, if_neg (fun zero => address zero.2)]
  have inside : ¬ (debug = true ∧ ¬ 2 * front.length + 1 <
      (ArrayListT.mk (words (front ++ entry :: rest))).len) := by
    simp [ArrayListT.len]
  simp only [markBody, markAt, object, bind, Except.bind, if_neg nonzero, native, malloced, clear,
    if_neg inside, if_true, pure, Except.pure]
  rw [← markAt_snoc, markAt]

def marking (debug : Bool) (traceObject : Address → ObjectReference) (fuel : Nat) (s : Mark) :
    Except Fault Mark :=
  whileLoop .stuck Mark.more (markBody debug traceObject) fuel s

theorem marking_pair (admissible : Admissible entry) (fuel : Nat) (enough : 2 ≤ fuel) :
    ∃ left, fuel ≤ left + 2 ∧ marking debug traceObject fuel (markAt front (entry :: rest) log) =
      marking debug traceObject left
        (markAt (front ++ [forwardPair traceObject entry]) rest (log ++ tracedBy entry)) := by
  rcases Nat.exists_eq_add_of_le enough with ⟨left, rfl⟩
  rw [Nat.add_comm]
  rcases admissible with registered | rfl
  · have nonzero := registered.nonzero
    rcases registered with ⟨address, ⟨tag, finalizer⟩ | tag | tag⟩
    · refine ⟨left, by omega, ?_⟩
      rw [marking, whileLoop_round (left + 1) markAt_more (markBody_object nonzero tag),
        whileLoop_round left markBetween_more
          (markBody_finalizer finalizer.1 finalizer.2),
        tracedBy_object nonzero tag, forwardPair_object traceObject nonzero tag, marking,
        List.append_assoc, List.singleton_append]
    · refine ⟨left + 1, by omega, ?_⟩
      rw [marking, whileLoop_round (left + 1) markAt_more (markBody_native nonzero address tag),
        tracedBy_native nonzero tag, forwardPair_native traceObject nonzero tag, marking]
    · refine ⟨left + 1, by omega, ?_⟩
      rw [marking, whileLoop_round (left + 1) markAt_more (markBody_malloced nonzero tag),
        tracedBy_malloced nonzero tag, forwardPair_malloced traceObject nonzero tag,
        List.append_nil, marking]
  · refine ⟨left, by omega, ?_⟩
    rw [marking, whileLoop_round (left + 1) markAt_more (markBody_zeroed rfl),
      whileLoop_round left markBetween_more (markBody_noFinalizer rfl)]
    simp [marking, forwardPair, tracedBy]

theorem marking_rounds (rest : List Entry) (admissible : ∀ entry ∈ rest, Admissible entry)
    (front : List Entry) (log : List Address) (fuel : Nat) (below : 2 * rest.length < fuel) :
    marking debug traceObject fuel (markAt front rest log) =
      .ok (markAt (front ++ rest.map (forwardPair traceObject)) [] (log ++ rest.flatMap tracedBy)) := by
  induction rest generalizing front log fuel with
  | nil =>
      rcases Nat.exists_eq_add_of_lt below with ⟨left, rfl⟩
      simpa [marking] using whileLoop_exit _ markAt_ended
  | cons entry rest ih =>
      simp only [List.length_cons] at below
      rcases marking_pair (admissible entry (by simp)) fuel (by omega) with ⟨left, rounds, pair⟩
      rw [pair, ih (fun entry member => admissible entry (by simp [member])) _ _ left (by omega)]
      simp

end Rounds

theorem markFinlist_eq {debug : Bool} (traceObject : Address → ObjectReference)
    (front entries : List Entry) (admissible : ∀ entry ∈ entries, Admissible entry)
    (log : List Address) :
    ∃ i, markFinlist debug traceObject ⟨words (front ++ entries)⟩ (2 * front.length) log =
      .ok ⟨⟨words (front ++ entries.map (forwardPair traceObject))⟩, i,
        log ++ entries.flatMap tracedBy⟩ := by
  by_cases done : (ArrayListT.mk (words (front ++ entries))).len ≤ 2 * front.length
  · have empty : entries = [] := by
      apply List.length_eq_zero_iff.mp
      simp only [ArrayListT.len, words_length, List.length_append] at done
      omega
    exact ⟨2 * front.length, by simp [markFinlist, empty, ArrayListT.len, pure, Except.pure]⟩
  · have below : 2 * entries.length < (ArrayListT.mk (words (front ++ entries))).len + 1 := by
      simp only [ArrayListT.len, words_length, List.length_append]
      omega
    refine ⟨2 * (front ++ entries.map (forwardPair traceObject)).length, ?_⟩
    calc
      markFinlist debug traceObject ⟨words (front ++ entries)⟩ (2 * front.length) log =
          marking debug traceObject _ (markAt front entries log) := by
        rw [markFinlist, if_neg done]
        rfl
      _ = _ := marking_rounds entries admissible front log _ below
      _ = _ := by rw [markAt, List.append_nil]

end MmtkJulia.Finalizer
