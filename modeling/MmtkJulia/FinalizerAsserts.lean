import MmtkJulia.FinalizerScan

/-! Which lists a debug build processes without a failed assertion. -/

namespace MmtkJulia.Finalizer

/-- What the assertions of mark_finlist ask of the words it walks: a word that it takes for a
tagged one has more than its tag, and a word behind it. -/
def Walks : List Usize → Prop
  | [] => True
  | [word] => gcPtrTag word 1 = false
  | word :: next :: rest =>
      if gcPtrTag word 1 then word &&& ~~~1 ≠ 0 ∧ Walks rest else Walks (next :: rest)

section Marking

variable {traceObject : Address → ObjectReference} {front rest : List Usize} {word next : Usize}
  {log : List Address}

theorem get_here : (ArrayListT.mk (front ++ word :: rest)).get front.length = .ok word := by
  simp [ArrayListT.get]

theorem set_here (val : Usize) : (ArrayListT.mk (front ++ word :: rest)).set front.length val =
    .ok ⟨front ++ val :: rest⟩ := by
  simp [ArrayListT.set, ArrayListT.len]

def markFrom (front rest : List Usize) (log : List Address) : Mark :=
  ⟨⟨front ++ rest⟩, front.length, log⟩

theorem markFrom_more : (markFrom front (word :: rest) log).more = true := by
  simp [Mark.more, markFrom, ArrayListT.len]

theorem markFrom_ended : (markFrom front [] log).more = false := by
  simp [Mark.more, markFrom, ArrayListT.len]

theorem markFrom_one (new : Usize) : markFrom (front ++ [new]) rest log =
    ⟨⟨front ++ new :: rest⟩, front.length + 1, log⟩ := by
  simp [markFrom]

theorem markFrom_two (new next : Usize) : markFrom (front ++ [new, next]) rest log =
    ⟨⟨front ++ new :: next :: rest⟩, front.length + 2, log⟩ := by
  simp [markFrom]

theorem markBody_untagged (traceObject : Address → ObjectReference) (front rest : List Usize)
    (log : List Address) (untagged : gcPtrTag word 1 = false) :
    ∃ new log', markBody true traceObject (markFrom front (word :: rest) log) =
      .ok (markFrom (front ++ [new]) rest log') := by
  have here : (ArrayListT.mk (front ++ word :: rest)).get front.length = .ok word := get_here
  by_cases zero : word = 0
  · refine ⟨word, log, ?_⟩
    rw [markFrom_one]
    simp only [markBody, markFrom, here, bind, Except.bind, if_pos zero]
    rfl
  · cases collected : gcPtrTag word 2 with
    | true =>
        refine ⟨word, log, ?_⟩
        rw [markFrom_one]
        simp only [markBody, markFrom, here, bind, Except.bind, if_neg zero, untagged,
          collected, Bool.false_eq_true, if_false, if_true, pure, Except.pure]
    | false =>
        have made := fromRawAddressUnchecked_ok zero
        refine ⟨(traceObject word).addr ||| 0, log ++ [word], ?_⟩
        rw [markFrom_one]
        simp only [markBody, markFrom, here, bind, Except.bind, if_neg zero, untagged,
          collected, made, Bool.false_eq_true, if_false, pure, Except.pure, set_here]

theorem nonzero_of_tagged (tagged : gcPtrTag word 1 = true) : word ≠ 0 := by
  intro zero
  simp [zero, gcPtrTag] at tagged

theorem markBody_tagged (traceObject : Address → ObjectReference) (front rest : List Usize)
    (next : Usize) (log : List Address) (tagged : gcPtrTag word 1 = true) (address : word &&& ~~~1 ≠ 0) :
    ∃ new log', markBody true traceObject (markFrom front (word :: next :: rest) log) =
      .ok (markFrom (front ++ [new, next]) rest log') := by
  have here : (ArrayListT.mk (front ++ word :: next :: rest)).get front.length = .ok word := get_here
  have zero := nonzero_of_tagged tagged
  have inside : front.length + 1 < (ArrayListT.mk (front ++ word :: next :: rest)).len := by
    simp [ArrayListT.len]
  have clear : gcPtrClearTag true word 1 = .ok (word &&& ~~~1) := by
    rw [gcPtrClearTag, if_neg (fun null => address null.2)]
  cases collected : gcPtrTag word 2 with
  | true =>
      refine ⟨word, log, ?_⟩
      rw [markFrom_two]
      simp only [markBody, markFrom, here, bind, Except.bind, if_neg zero, tagged,
        collected, clear, inside, not_true_eq_false, and_false, if_false, if_true, pure, Except.pure]
  | false =>
      have made := fromRawAddressUnchecked_ok address
      refine ⟨(traceObject (word &&& ~~~1)).addr ||| 1, log ++ [word &&& ~~~1], ?_⟩
      rw [markFrom_two]
      simp only [markBody, markFrom, here, bind, Except.bind, if_neg zero, tagged,
        collected, clear, made, inside, not_true_eq_false, and_false, Bool.false_eq_true, if_false,
        if_true, pure, Except.pure, set_here]

theorem markBody_last (tagged : gcPtrTag word 1 = true) :
    markBody true traceObject (markFrom front [word] log) = .error .truncatedPair := by
  have here : (ArrayListT.mk (front ++ [word])).get front.length = .ok word := get_here
  have zero := nonzero_of_tagged tagged
  have outside : ¬ front.length + 1 < (ArrayListT.mk (front ++ [word])).len := by
    simp [ArrayListT.len]
  simp only [markBody, markFrom, here, bind, Except.bind, if_neg zero, tagged, outside,
    not_false_eq_true, and_self, if_true, throw, throwThe, MonadExceptOf.throw]

theorem markBody_bare (tagged : gcPtrTag word 1 = true) (bare : word &&& ~~~1 = 0) :
    markBody true traceObject (markFrom front (word :: next :: rest) log) = .error .zeroAddress := by
  have here : (ArrayListT.mk (front ++ word :: next :: rest)).get front.length = .ok word := get_here
  have zero := nonzero_of_tagged tagged
  have inside : front.length + 1 < (ArrayListT.mk (front ++ word :: next :: rest)).len := by
    simp [ArrayListT.len]
  have fault : gcPtrClearTag true word 1 = .error .zeroAddress := by
    rw [gcPtrClearTag, if_pos ⟨rfl, bare⟩]
  simp only [markBody, markFrom, here, bind, Except.bind, if_neg zero, tagged, fault, inside,
    not_true_eq_false, and_false, if_false, if_true, pure, Except.pure]

theorem marking_completes_iff (rest front : List Usize) (log : List Address) (fuel : Nat)
    (below : rest.length < fuel) :
    Completes (marking true traceObject fuel (markFrom front rest log)) ↔ Walks rest := by
  induction rest using Walks.induct generalizing front log fuel with
  | case1 =>
      obtain ⟨left, rfl⟩ := Nat.exists_eq_add_of_lt below
      rw [marking, whileLoop_exit _ markFrom_ended]
      exact iff_of_true (completes_ok _) trivial
  | case2 word =>
      obtain ⟨left, rfl⟩ := Nat.exists_eq_add_of_lt below
      cases tag : gcPtrTag word 1 with
      | true =>
          have stops : marking true traceObject (1 + left + 1) (markFrom front [word] log) =
              .error .truncatedPair := by
            simp [marking, whileLoop, markFrom_more, markBody_last tag, Except.bind]
          rw [List.length_singleton, stops, Walks, tag]
          exact iff_of_false (not_completes_error _) Bool.true_eq_false.mp
      | false =>
          obtain ⟨new, log', round⟩ := markBody_untagged traceObject front [] log tag
          have ended : marking true traceObject (1 + left + 1) (markFrom front [word] log) =
              .ok (markFrom (front ++ [new]) [] log') := by
            rw [marking, whileLoop_round _ markFrom_more round, Nat.add_comm 1 left]
            exact whileLoop_exit _ markFrom_ended
          rw [List.length_singleton, ended, Walks]
          exact iff_of_true (completes_ok _) tag
  | case3 word next rest tagged ih =>
      simp only [List.length_cons] at below
      obtain ⟨left, rfl⟩ := Nat.exists_eq_add_of_lt below
      rw [Walks, if_pos tagged]
      by_cases bare : word &&& ~~~1 = 0
      · have stops : marking true traceObject (rest.length + 1 + 1 + left + 1)
            (markFrom front (word :: next :: rest) log) = .error .zeroAddress := by
          simp [marking, whileLoop, markFrom_more, markBody_bare tagged bare, Except.bind]
        rw [stops]
        exact iff_of_false (not_completes_error _) (fun walks => walks.1 bare)
      · obtain ⟨new, log', round⟩ := markBody_tagged traceObject front rest next log tagged bare
        rw [marking, whileLoop_round _ markFrom_more round]
        have ih := ih (front ++ [new, next]) log' (rest.length + 1 + 1 + left) (by omega)
        exact ih.trans (and_iff_right bare).symm
  | case4 word next rest untagged ih =>
      simp only [List.length_cons] at below
      obtain ⟨left, rfl⟩ := Nat.exists_eq_add_of_lt below
      have clear : gcPtrTag word 1 = false := by simpa using untagged
      obtain ⟨new, log', round⟩ := markBody_untagged traceObject front (next :: rest) log clear
      rw [Walks, if_neg untagged, marking, whileLoop_round _ markFrom_more round]
      exact ih (front ++ [new]) log' _ (by simp only [List.length_cons]; omega)

theorem markFinlist_completes_iff (front rest : List Usize) (log : List Address) :
    Completes (markFinlist true traceObject ⟨front ++ rest⟩ front.length log) ↔ Walks rest := by
  by_cases done : (ArrayListT.mk (front ++ rest)).len ≤ front.length
  · have empty : rest = [] := by
      apply List.length_eq_zero_iff.mp
      simp only [ArrayListT.len, List.length_append] at done
      omega
    rw [markFinlist, if_pos done, empty]
    exact iff_of_true (completes_ok _) trivial
  · have below : rest.length < (ArrayListT.mk (front ++ rest)).len + 1 := by
      simp only [ArrayListT.len, List.length_append]
      omega
    rw [markFinlist, if_neg done]
    exact marking_completes_iff rest front log _ below

end Marking

theorem walks_cons {word : Usize} {rest : List Usize} (untagged : gcPtrTag word 1 = false)
    (walks : Walks rest) : Walks (word :: rest) := by
  cases rest with
  | nil => exact untagged
  | cons next rest => rwa [Walks, untagged, if_neg Bool.false_ne_true]

theorem clear_one_nonzero {word : Usize} (address : untagged word ≠ 0) : word &&& ~~~1 ≠ 0 := by
  intro bare
  apply address
  have narrower : untagged word = word &&& ~~~1 &&& ~~~2 := by
    rw [untagged, BitVec.and_assoc]
    rfl
  rw [narrower, bare]
  rfl

theorem walks_words {entries : List Entry} (provided : ∀ entry ∈ entries, Admissible entry) :
    Walks (words entries) := by
  induction entries with
  | nil => trivial
  | cons entry rest ih =>
      have ih := ih (fun other member => provided other (List.mem_cons_of_mem _ member))
      rw [words_cons, Walks]
      rcases provided entry (by simp) with registered | rfl
      · rcases registered with ⟨address, ⟨tag, finalizer⟩ | tag | tag⟩
        · have object : gcPtrTag entry.1 1 = false := by rw [gcPtrTag_one, tag]; rfl
          have function : gcPtrTag entry.2 1 = false := by rw [gcPtrTag_one, finalizer.2]; rfl
          rw [object, if_neg Bool.false_ne_true]
          exact walks_cons function ih
        · have native : gcPtrTag entry.1 1 = true := by rw [gcPtrTag_one, tag]; rfl
          rw [native, if_pos rfl]
          exact ⟨clear_one_nonzero address, ih⟩
        · have malloced : gcPtrTag entry.1 1 = true := by rw [gcPtrTag_one, tag]; rfl
          rw [malloced, if_pos rfl]
          exact ⟨clear_one_nonzero address, ih⟩
      · have zeroed : gcPtrTag 0 1 = false := rfl
        rw [zeroed, if_neg Bool.false_ne_true]
        exact walks_cons zeroed ih

section Scan

variable {Thread : Type} [DecidableEq Thread] {mutators : List Thread} {locals : Thread → List Entry}
  {marked toFinalize : List Entry} {isLive : Address → Bool}

theorem sweepThreads_addressed (mutators : List Thread) (once : mutators.Nodup)
    (locals : Thread → List Entry) (marked toFinalize : List Entry) (havePending : Int)
    (completes : Completes (mutators.foldlM (sweepThread true isLive)
      (holding locals marked toFinalize havePending))) : Addressed (mutators.flatMap locals) := by
  induction mutators generalizing locals marked toFinalize havePending with
  | nil => simp [Addressed]
  | cons mutator rest ih =>
      obtain ⟨absent, once⟩ := List.nodup_cons.mp once
      rw [List.foldlM_cons, completes_bind] at completes
      obtain ⟨lists, swept, completes⟩ := completes
      have here : Addressed (locals mutator) := by
        rw [sweepThread] at swept
        obtain ⟨s, ran, -⟩ := (completes_bind _ _).mp ⟨lists, swept⟩
        exact sweepFinalizerList_addressed _ ⟨s, ran⟩
      rw [sweepThread_eq isLive locals marked toFinalize havePending mutator here] at swept
      cases swept
      have later := ih once _ _ _ _ completes
      have same : rest.flatMap (Function.update locals mutator []) = rest.flatMap locals := by
        apply List.flatMap_congr
        intro other member
        apply Function.update_of_ne
        rintro rfl
        exact absent member
      rw [same] at later
      rw [List.flatMap_cons]
      exact addressed_append.mpr ⟨here, later⟩

theorem sweepLists_completes_iff (nursery : Bool) (once : mutators.Nodup) (havePending : Int) :
    Completes (sweepLists true nursery isLive mutators (holding locals marked toFinalize havePending)) ↔
      Addressed (decided nursery marked (mutators.flatMap locals)) := by
  constructor
  · intro completes
    obtain ⟨lists, swept, rest⟩ := (completes_bind _ _).mp completes
    have fresh := sweepThreads_addressed mutators once locals marked toFinalize havePending
      ⟨lists, swept⟩
    cases nursery with
    | true => exact fresh
    | false =>
        have each : ∀ mutator ∈ mutators, Addressed (locals mutator) := by
          intro mutator present entry member
          exact fresh entry (List.mem_flatMap.mpr ⟨mutator, present, member⟩)
        rw [sweepThreads_eq isLive mutators once locals each] at swept
        cases swept
        rw [if_neg Bool.false_ne_true, sweepMarked] at rest
        obtain ⟨s, ran, -⟩ := (completes_bind _ _).mp rest
        have old := addressed_append.mp (sweepFinalizerList_addressed _ ⟨s, ran⟩)
        exact addressed_append.mpr ⟨old.1, fresh⟩
  · intro addressed
    rw [sweepLists_eq nursery isLive once addressed]
    exact completes_ok _

theorem traceLists_completes_iff (nursery : Bool) (traceObject : Address → ObjectReference)
    (aged finalized : List Entry) (havePending : Int) :
    Completes (traceLists true traceObject mutators
        (if nursery then (ArrayListT.mk (words marked)).len else 0)
        (holding (emptied mutators locals) (settled nursery marked ++ aged) finalized havePending)) ↔
      Walks (words aged) ∧ Walks (words finalized) := by
  have traces := markThreads_eq true traceObject mutators
    (holding (emptied mutators locals) (settled nursery marked ++ aged) finalized havePending)
    (fun mutator present => by simp [holding, emptied, present]) []
  rw [settled_start, ← words_length, traceLists, traces]
  simp only [completes_bind, holding, words_append]
  constructor
  · rintro ⟨lists, same, marked, markedRun, toFinalize, finalRun, -⟩
    cases same
    exact ⟨(markFinlist_completes_iff _ _ _).mp ⟨marked, markedRun⟩,
      (markFinlist_completes_iff [] _ _).mp ⟨toFinalize, finalRun⟩⟩
  · rintro ⟨markedWalks, finalWalks⟩
    obtain ⟨marked, markedRun⟩ := (markFinlist_completes_iff _ _ []).mpr markedWalks
    rcases (markFinlist_completes_iff [] _ marked.traced).mpr finalWalks with ⟨toFinalize, finalRun⟩
    exact ⟨_, rfl, marked, markedRun, toFinalize, finalRun, completes_ok _⟩

theorem scan_completes_iff (nursery : Bool) (isLive : Address → Bool)
    (traceObject : Address → ObjectReference)
    (once : mutators.Nodup) (havePending : Int) :
    Completes (scanFinalizersInRust true nursery isLive traceObject mutators
        (holding locals marked toFinalize havePending)) ↔
      Addressed (decided nursery marked (mutators.flatMap locals)) ∧
      Walks (words (aged nursery isLive marked (mutators.flatMap locals))) ∧
      Walks (words (finalized nursery isLive marked toFinalize (mutators.flatMap locals))) := by
  rw [scan_eq_sweeps_then_traces]
  by_cases addressed : Addressed (decided nursery marked (mutators.flatMap locals))
  · rw [sweepLists_eq nursery isLive once addressed]
    exact (traceLists_completes_iff nursery traceObject _ _ _).trans (and_iff_right addressed).symm
  · have faulty : ¬ Completes (sweepLists true nursery isLive mutators
        (holding locals marked toFinalize havePending)) :=
      fun completes => addressed ((sweepLists_completes_iff nursery once havePending).mp completes)
    constructor
    · intro completes
      obtain ⟨lists, swept, -⟩ := (completes_bind _ _).mp completes
      exact absurd ⟨lists, swept⟩ faulty
    · intro walks
      exact absurd walks.1 addressed

theorem addressed_iff {entries : List Entry} (provided : ∀ entry ∈ entries, Admissible entry) :
    Addressed entries ↔ ∀ entry ∈ entries, entry ≠ (0, 0) := by
  constructor
  · intro addressed entry member zeroed
    apply addressed entry member
    rw [zeroed]
    rfl
  · intro nonzero entry member
    rcases provided entry member with registered | zeroed
    · exact registered.1
    · exact absurd zeroed (nonzero entry member)

/-- The first part is about any pairs at all, the second about registered and zeroed ones. -/
theorem no_assertion_fires_iff (nursery : Bool) (isLive : Address → Bool)
    (traceObject : Address → ObjectReference) (mutators : List Thread) (once : mutators.Nodup)
    (locals : Thread → List Entry) (marked toFinalize : List Entry) (havePending : Int) :
    let swept := decided nursery marked (mutators.flatMap locals)
    let completes := Completes (scanFinalizersInRust true nursery isLive traceObject mutators
      (holding locals marked toFinalize havePending))
    (completes ↔ Addressed swept ∧
      Walks (words (aged nursery isLive marked (mutators.flatMap locals))) ∧
      Walks (words (finalized nursery isLive marked toFinalize (mutators.flatMap locals)))) ∧
    (AdmissibleLists mutators locals marked toFinalize →
      (completes ↔ ∀ entry ∈ swept, entry ≠ (0, 0))) := by
  intro swept completes
  have exact : completes ↔ Addressed swept ∧ _ :=
    scan_completes_iff nursery isLive traceObject once havePending
  refine ⟨exact, fun admissible => ?_⟩
  have walks : Walks (words (aged nursery isLive marked (mutators.flatMap locals))) ∧
      Walks (words (finalized nursery isLive marked toFinalize (mutators.flatMap locals))) :=
    ⟨walks_words (admissible.aged nursery isLive), walks_words (admissible.finalized nursery isLive)⟩
  calc
    completes ↔ Addressed swept ∧ _ := exact
    _ ↔ Addressed swept := and_iff_left walks
    _ ↔ ∀ entry ∈ swept, entry ≠ (0, 0) := addressed_iff (admissible.swept nursery)

end Scan

/-- The one thread has a live object registered, and the marked list holds a zeroed pair. -/
theorem zeroed_marked_provided :
    AdmissibleLists [()] (fun _ => [(16, 24)]) [(0, 0)] [(67, 7)] where
  locals := by
    intro mutator _ entry member
    rw [List.mem_singleton.mp member]
    decide
  marked := by
    intro entry member
    rw [List.mem_singleton.mp member]
    decide
  toFinalize := by
    intro entry member
    rw [List.mem_singleton.mp member]
    decide

theorem no_assertion_fires_iff_nursery :
    Completes (scanFinalizersInRust true true (fun _ => true) (fun _ => ⟨4096, by decide, by decide⟩)
      [()] (holding (fun _ => [(16, 24)]) [(0, 0)] [(67, 7)] 0)) := by
  apply ((no_assertion_fires_iff true (fun _ => true) (fun _ => ⟨4096, by decide, by decide⟩) [()]
    (by decide) (fun _ => [(16, 24)]) [(0, 0)] [(67, 7)] 0).2 zeroed_marked_provided).mpr
  simp [decided]

/-- In a full collection the zeroed pair is swept, and its address is asserted not to be null. -/
theorem zeroed_pair_asserts : ¬ ∀ (nursery : Bool) (isLive : Address → Bool)
    (traceObject : Address → ObjectReference) (mutators : List Unit) (locals : Unit → List Entry)
    (marked toFinalize : List Entry) (havePending : Int), mutators.Nodup →
    AdmissibleLists mutators locals marked toFinalize →
      Completes (scanFinalizersInRust true nursery isLive traceObject mutators
        (holding locals marked toFinalize havePending)) := by
  intro safe
  have completes := safe false (fun _ => true) (fun _ => ⟨4096, by decide, by decide⟩) [()]
    (fun _ => [(16, 24)]) [(0, 0)] [(67, 7)] 0 (by decide) zeroed_marked_provided
  have swept := (scan_completes_iff false _ _ (by decide) 0).mp completes
  exact swept.1 (0, 0) (by simp [decided]) rfl

end MmtkJulia.Finalizer
