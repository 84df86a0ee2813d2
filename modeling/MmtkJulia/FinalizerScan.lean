import MmtkJulia.FinalizerMark

/-! What scan_finalizers_in_rust does to the lists of all threads. -/

namespace MmtkJulia.Finalizer

variable {Thread : Type}

def holding (locals : Thread → List Entry) (marked toFinalize : List Entry) (havePending : Int) :
    FinalizerLists Thread where
  threadLocal := fun thread => ⟨words (locals thread)⟩
  marked := ⟨words marked⟩
  toFinalize := ⟨words toFinalize⟩
  havePending := havePending

/-- The part of the marked list that a nursery collection neither sweeps nor traces. -/
def settled (nursery : Bool) (marked : List Entry) : List Entry := if nursery then marked else []

/-- The pairs that a collection decides about, in the order of the marked list. -/
def decided (nursery : Bool) (marked fresh : List Entry) : List Entry :=
  if nursery then fresh else marked ++ fresh

def aged (nursery : Bool) (isLive : Address → Bool) (marked fresh : List Entry) : List Entry :=
  survivors isLive (decided nursery marked fresh)

/-- The pairs in to_finalize when it is traced: the thread-local ones are swept first. -/
def finalized (nursery : Bool) (isLive : Address → Bool) (marked toFinalize fresh : List Entry) :
    List Entry :=
  toFinalize ++ freed isLive fresh ++ if nursery then [] else freed isLive marked

def pendingAfter (nursery : Bool) (isLive : Address → Bool) (marked fresh : List Entry)
    (havePending : Int) : Int :=
  if freed isLive (decided nursery marked fresh) = [] then havePending else 1

section Lists

variable (isLive : Address → Bool) (front back : List Entry)

@[simp] theorem freed_append : freed isLive (front ++ back) = freed isLive front ++ freed isLive back :=
  List.filter_append ..

@[simp] theorem survivors_append :
    survivors isLive (front ++ back) = survivors isLive front ++ survivors isLive back :=
  List.filter_append ..

@[simp] theorem survivors_survivors : survivors isLive (survivors isLive front) = survivors isLive front := by
  simp [survivors, List.filter_filter]

@[simp] theorem freed_survivors : freed isLive (survivors isLive front) = [] := by
  rw [freed, survivors, List.filter_filter, List.filter_eq_nil_iff]
  intro entry _
  cases due isLive entry <;> simp

theorem mem_survivors {entry : Entry} (member : entry ∈ survivors isLive front) : entry ∈ front :=
  List.mem_of_mem_filter member

theorem mem_freed {entry : Entry} (member : entry ∈ freed isLive front) : entry ∈ front :=
  List.mem_of_mem_filter member

end Lists

def emptied [DecidableEq Thread] (mutators : List Thread) (locals : Thread → List Entry) :
    Thread → List Entry :=
  fun thread => if thread ∈ mutators then [] else locals thread

section Threads

variable {debug : Bool} (isLive : Address → Bool)

theorem sweepMarked_eq (locals : Thread → List Entry) (marked toFinalize : List Entry)
    (havePending : Int) (addressed : Addressed marked) :
    sweepMarked debug isLive (holding locals marked toFinalize havePending) =
      .ok (holding locals (survivors isLive marked) (toFinalize ++ freed isLive marked)
        (if freed isLive marked = [] then havePending else 1)) := by
  rcases @sweepFinalizerList_eq debug isLive marked addressed ⟨words toFinalize⟩ none havePending with
    ⟨s, ran, ⟨finalized, -, pending⟩, kept⟩
  simp only [sweepMarked, holding, ran, bind, Except.bind, pure, Except.pure, finalized, pending,
    kept]
  simp [keeps]

variable [DecidableEq Thread]

theorem sweepThread_eq (locals : Thread → List Entry) (marked toFinalize : List Entry)
    (havePending : Int) (mutator : Thread) (addressed : Addressed (locals mutator)) :
    sweepThread debug isLive (holding locals marked toFinalize havePending) mutator =
      .ok (holding (Function.update locals mutator []) (marked ++ survivors isLive (locals mutator))
        (toFinalize ++ freed isLive (locals mutator))
        (if freed isLive (locals mutator) = [] then havePending else 1)) := by
  rcases @sweepFinalizerList_eq debug isLive (locals mutator) addressed ⟨words toFinalize⟩
    (some ⟨words marked⟩) havePending with ⟨s, ran, ⟨finalized, old, pending⟩, kept⟩
  have swept : (fun thread => ArrayListT.mk (words (Function.update locals mutator [] thread))) =
      Function.update (fun thread => ArrayListT.mk (words (locals thread))) mutator ⟨[]⟩ := by
    funext thread
    by_cases same : thread = mutator
    · subst same
      simp
    · simp [same]
  simp only [sweepThread, holding, ran, bind, Except.bind, pure, Except.pure, finalized, old,
    pending, kept, swept]
  simp [keeps]

theorem sweepThreads_eq (mutators : List Thread) (once : mutators.Nodup)
    (locals : Thread → List Entry)
    (addressed : ∀ mutator ∈ mutators, Addressed (locals mutator))
    (marked toFinalize : List Entry) (havePending : Int) :
    mutators.foldlM (sweepThread debug isLive) (holding locals marked toFinalize havePending) =
      .ok (holding (emptied mutators locals)
        (marked ++ survivors isLive (mutators.flatMap locals))
        (toFinalize ++ freed isLive (mutators.flatMap locals))
        (if freed isLive (mutators.flatMap locals) = [] then havePending else 1)) := by
  induction mutators generalizing locals marked toFinalize havePending with
  | nil =>
      have none : emptied [] locals = locals := by
        funext thread
        simp [emptied]
      simp [none, survivors, freed, pure, Except.pure]
  | cons mutator rest ih =>
      rcases List.nodup_cons.mp once with ⟨absent, once⟩
      have same : ∀ other ∈ rest, Function.update locals mutator [] other = locals other := by
        intro other member
        apply Function.update_of_ne
        rintro rfl
        exact absent member
      have later : ∀ other ∈ rest, Addressed (Function.update locals mutator [] other) := by
        intro other member
        rw [same other member]
        exact addressed other (by simp [member])
      have fresh : rest.flatMap (Function.update locals mutator []) = rest.flatMap locals :=
        List.flatMap_congr same
      have both : emptied rest (Function.update locals mutator []) = emptied (mutator :: rest) locals := by
        funext thread
        by_cases head : thread = mutator
        · simp [emptied, head]
        · simp [emptied, head]
      simp only [List.foldlM_cons, bind, Except.bind]
      rw [sweepThread_eq isLive _ _ _ _ _ (addressed mutator (by simp))]
      simp only [ih once _ later, fresh, both, List.flatMap_cons, survivors_append,
        freed_append, List.append_assoc, List.append_eq_nil_iff]
      by_cases none : freed isLive (locals mutator) = [] <;> simp [none]

theorem markThreads_eq (debug : Bool) (traceObject : Address → ObjectReference)
    (mutators : List Thread) (lists : FinalizerLists Thread)
    (empty : ∀ mutator ∈ mutators, lists.threadLocal mutator = ⟨[]⟩) (log : List Address) :
    mutators.foldlM (markThread debug traceObject) (lists, log) = .ok (lists, log) := by
  induction mutators with
  | nil => rfl
  | cons mutator rest ih =>
      have here : markThread debug traceObject (lists, log) mutator = .ok (lists, log) := by
        have same : Function.update lists.threadLocal mutator ⟨[]⟩ = lists.threadLocal := by
          rw [← empty mutator (by simp), Function.update_eq_self]
        simp [markThread, empty mutator, markFinlist, ArrayListT.len, bind, Except.bind, pure,
          Except.pure, same]
      simp only [List.foldlM_cons, here, bind, Except.bind]
      exact ih (fun other member => empty other (by simp [member]))

end Threads

structure AdmissibleLists (mutators : List Thread) (locals : Thread → List Entry)
    (marked toFinalize : List Entry) : Prop where
  locals : ∀ mutator ∈ mutators, ∀ entry ∈ locals mutator, Admissible entry
  marked : ∀ entry ∈ marked, Admissible entry
  toFinalize : ∀ entry ∈ toFinalize, Admissible entry

section Scan

variable {debug : Bool} {mutators : List Thread} {locals : Thread → List Entry}
  {marked toFinalize : List Entry}

theorem AdmissibleLists.fresh (admissible : AdmissibleLists mutators locals marked toFinalize) :
    ∀ entry ∈ mutators.flatMap locals, Admissible entry := by
  intro entry member
  rcases List.mem_flatMap.mp member with ⟨mutator, present, member⟩
  exact admissible.locals mutator present entry member

theorem AdmissibleLists.swept (admissible : AdmissibleLists mutators locals marked toFinalize)
    (nursery : Bool) :
    ∀ entry ∈ decided nursery marked (mutators.flatMap locals), Admissible entry := by
  intro entry member
  cases nursery with
  | true => exact admissible.fresh entry member
  | false =>
      rcases List.mem_append.mp member with old | young
      · exact admissible.marked entry old
      · exact admissible.fresh entry young

theorem AdmissibleLists.aged (admissible : AdmissibleLists mutators locals marked toFinalize)
    (nursery : Bool) (isLive : Address → Bool) :
    ∀ entry ∈ aged nursery isLive marked (mutators.flatMap locals), Admissible entry :=
  fun entry member => admissible.swept nursery entry (mem_survivors _ _ member)

theorem AdmissibleLists.finalized
    (admissible : AdmissibleLists mutators locals marked toFinalize) (nursery : Bool)
    (isLive : Address → Bool) :
    ∀ entry ∈ finalized nursery isLive marked toFinalize (mutators.flatMap locals),
      Admissible entry := by
  intro entry member
  rcases List.mem_append.mp member with member | old
  · rcases List.mem_append.mp member with waiting | fresh
    · exact admissible.toFinalize entry waiting
    · exact admissible.fresh entry (mem_freed _ _ fresh)
  · cases nursery with
    | true => simp at old
    | false => exact admissible.marked entry (mem_freed _ _ old)

variable [DecidableEq Thread]

def sweepLists (debug nursery : Bool) (isLive : Address → Bool) (mutators : List Thread)
    (lists : FinalizerLists Thread) : Except Fault (FinalizerLists Thread) :=
  (mutators.foldlM (sweepThread debug isLive) lists).bind fun lists =>
    if nursery then pure lists else sweepMarked debug isLive lists

def traceLists (debug : Bool) (traceObject : Address → ObjectReference) (mutators : List Thread)
    (start : Nat) (lists : FinalizerLists Thread) :
    Except Fault (FinalizerLists Thread × List Address) := do
  let (lists, traced) ← mutators.foldlM (markThread debug traceObject) (lists, [])
  let marked ← markFinlist debug traceObject lists.marked start traced
  let toFinalize ← markFinlist debug traceObject lists.toFinalize 0 marked.traced
  return ({ lists with marked := marked.list, toFinalize := toFinalize.list }, toFinalize.traced)

theorem scan_eq_sweeps_then_traces (nursery : Bool) (isLive : Address → Bool)
    (traceObject : Address → ObjectReference) (lists : FinalizerLists Thread) :
    scanFinalizersInRust debug nursery isLive traceObject mutators lists =
      (sweepLists debug nursery isLive mutators lists).bind
        (traceLists debug traceObject mutators (if nursery then lists.marked.len else 0)) := by
  rw [sweepLists]
  cases swept : mutators.foldlM (sweepThread debug isLive) lists with
  | error fault =>
      simp only [scanFinalizersInRust, swept, bind, Except.bind]
  | ok lists =>
      cases nursery <;>
        simp only [scanFinalizersInRust, traceLists, swept, bind, Except.bind, pure, Except.pure,
          Bool.false_eq_true, if_false, if_true]

theorem sweepLists_eq (nursery : Bool) (isLive : Address → Bool) (once : mutators.Nodup)
    (addressed : Addressed (decided nursery marked (mutators.flatMap locals))) (havePending : Int) :
    sweepLists debug nursery isLive mutators (holding locals marked toFinalize havePending) =
      .ok (holding (emptied mutators locals)
        (settled nursery marked ++ aged nursery isLive marked (mutators.flatMap locals))
        (finalized nursery isLive marked toFinalize (mutators.flatMap locals))
        (pendingAfter nursery isLive marked (mutators.flatMap locals) havePending)) := by
  have fresh : Addressed (mutators.flatMap locals) := by
    cases nursery with
    | true => exact addressed
    | false => exact (addressed_append.mp addressed).2
  have threads := @sweepThreads_eq Thread debug isLive _ mutators once locals
    (fun mutator present entry member =>
      fresh entry (List.mem_flatMap.mpr ⟨mutator, present, member⟩))
    marked toFinalize havePending
  rw [sweepLists, threads]
  cases nursery with
  | true => simp [Except.bind, settled, aged, decided, finalized, pendingAfter, pure, Except.pure]
  | false =>
      have old := (addressed_append.mp addressed).1
      have young : Addressed (survivors isLive (mutators.flatMap locals)) :=
        fun entry member => fresh entry (mem_survivors _ _ member)
      have both := addressed_append.mpr ⟨old, young⟩
      simp only [Except.bind, Bool.false_eq_true, if_false, sweepMarked_eq isLive _ _ _ _ both]
      simp only [settled, aged, decided, finalized, pendingAfter, survivors_append, freed_append,
        survivors_survivors, freed_survivors, Bool.false_eq_true, if_false, List.nil_append,
        List.append_nil, List.append_eq_nil_iff]
      by_cases old : freed isLive marked = [] <;> simp [old]

theorem settled_start (nursery : Bool) (marked : List Entry) :
    (if nursery then (ArrayListT.mk (words marked)).len else 0) =
      2 * (settled nursery marked).length := by
  cases nursery <;> simp [settled, ArrayListT.len]

theorem scanFinalizersInRust_eq (debug nursery : Bool) (isLive : Address → Bool)
    (traceObject : Address → ObjectReference) (once : mutators.Nodup)
    (admissible : AdmissibleLists mutators locals marked toFinalize)
    (addressed : Addressed (decided nursery marked (mutators.flatMap locals))) (havePending : Int) :
    scanFinalizersInRust debug nursery isLive traceObject mutators
        (holding locals marked toFinalize havePending) =
      .ok (holding (emptied mutators locals)
          (settled nursery marked ++ (aged nursery isLive marked (mutators.flatMap locals)).map
            (forwardPair traceObject))
          ((finalized nursery isLive marked toFinalize (mutators.flatMap locals)).map
            (forwardPair traceObject))
          (pendingAfter nursery isLive marked (mutators.flatMap locals) havePending),
        (aged nursery isLive marked (mutators.flatMap locals)).flatMap tracedBy ++
          (finalized nursery isLive marked toFinalize (mutators.flatMap locals)).flatMap tracedBy) := by
  have traces := markThreads_eq debug traceObject mutators
    (holding (emptied mutators locals)
      (settled nursery marked ++ aged nursery isLive marked (mutators.flatMap locals))
      (finalized nursery isLive marked toFinalize (mutators.flatMap locals))
      (pendingAfter nursery isLive marked (mutators.flatMap locals) havePending))
    (fun mutator present => by simp [holding, emptied, present]) []
  obtain ⟨markedEnd, markedRun⟩ := @markFinlist_eq debug traceObject (settled nursery marked) _
    (admissible.aged nursery isLive) []
  obtain ⟨finalEnd, finalRun⟩ :=
    @markFinlist_eq debug traceObject [] _ (admissible.finalized nursery isLive)
      ([] ++ (aged nursery isLive marked (mutators.flatMap locals)).flatMap tracedBy)
  simp only [List.nil_append, List.length_nil, Nat.mul_zero] at finalRun markedRun
  rw [scan_eq_sweeps_then_traces, sweepLists_eq nursery isLive once addressed]
  simp only [traceLists, Except.bind, bind, traces, pure, Except.pure]
  simp only [holding, settled_start, markedRun, finalRun]

theorem tagBits_forwardPair (traceObject : Address → ObjectReference) {entry : Entry}
    (admissible : Admissible entry) :
    tagBits (forwardPair traceObject entry).1 = tagBits entry.1 := by
  rcases admissible with registered | rfl
  · have nonzero := registered.nonzero
    rcases registered.2 with ⟨tag, -⟩ | tag | tag
    · rw [forwardPair_object traceObject nonzero tag, ObjectReference.tagBits_addr, tag]
    · rw [forwardPair_native traceObject nonzero tag, ObjectReference.tagBits_or_one, tag]
    · rw [forwardPair_malloced traceObject nonzero tag]
  · rfl

theorem mem_tracedBy {entry : Entry} (admissible : Admissible entry) {address : Address}
    (member : address ∈ tracedBy entry) :
    tagBits entry.1 ≠ 3 ∧ address = untagged entry.1 ∨ tagBits entry.1 = 0 ∧ address = entry.2 := by
  rcases admissible with registered | rfl
  · have nonzero := registered.nonzero
    rcases registered.2 with ⟨tag, -⟩ | tag | tag
    · rw [tracedBy_object nonzero tag] at member
      rcases List.mem_pair.mp member with object | finalizer
      · exact .inl ⟨by simp [tag], by rw [untagged_of_tag_zero tag, object]⟩
      · exact .inr ⟨tag, finalizer⟩
    · rw [tracedBy_native nonzero tag] at member
      exact .inl ⟨by simp [tag], List.mem_singleton.mp member⟩
    · rw [tracedBy_malloced nonzero tag] at member
      exact absurd member List.not_mem_nil
  · simp [tracedBy] at member

/-- The scan leaves whole pairs everywhere. Those behind the settled part of the marked list and
those in to_finalize are what tracing makes of young and due, each traced once; the threads'
lists are left empty. -/
theorem scan_traces_every_pair (debug nursery : Bool) (isLive : Address → Bool)
    (traceObject : Address → ObjectReference) (mutators : List Thread) (once : mutators.Nodup)
    (locals : Thread → List Entry) (marked toFinalize : List Entry) (havePending : Int)
    (admissible : AdmissibleLists mutators locals marked toFinalize)
    (addressed : Addressed (decided nursery marked (mutators.flatMap locals))) :
    let young := aged nursery isLive marked (mutators.flatMap locals)
    let due := finalized nursery isLive marked toFinalize (mutators.flatMap locals)
    ∃ after traced,
      scanFinalizersInRust debug nursery isLive traceObject mutators
          (holding locals marked toFinalize havePending) = .ok (after, traced) ∧
        (∀ thread, 2 ∣ (after.threadLocal thread).len) ∧
        2 ∣ after.marked.len ∧
        2 ∣ after.toFinalize.len ∧
        (∀ mutator ∈ mutators, after.threadLocal mutator = ⟨[]⟩) ∧
        after.marked = ⟨words (if nursery then marked else []) ++
          words (young.map (forwardPair traceObject))⟩ ∧
        after.toFinalize = ⟨words (due.map (forwardPair traceObject))⟩ ∧
        traced = (young ++ due).flatMap tracedBy ∧
        (∀ entry ∈ young ++ due, tagBits (forwardPair traceObject entry).1 = tagBits entry.1) ∧
        ∀ address ∈ traced, ∃ entry ∈ young ++ due,
          tagBits entry.1 ≠ 3 ∧ address = untagged entry.1 ∨
            tagBits entry.1 = 0 ∧ address = entry.2 := by
  intro young due
  have pairs : ∀ entry ∈ young ++ due, Admissible entry := by
    intro entry member
    rcases List.mem_append.mp member with member | member
    · exact admissible.aged nursery isLive entry member
    · exact admissible.finalized nursery isLive entry member
  refine ⟨_, _, scanFinalizersInRust_eq debug nursery isLive traceObject once admissible addressed havePending,
    ?_, ?_, ?_, ?_, ?_, rfl, ?_, ?_, ?_⟩
  · intro thread
    exact ⟨_, words_length _⟩
  · exact ⟨_, words_length _⟩
  · exact ⟨_, words_length _⟩
  · intro mutator present
    simp [holding, emptied, present]
  · simp [holding, settled, young]
  · exact List.flatMap_append.symm
  · intro entry member
    exact tagBits_forwardPair traceObject (pairs entry member)
  · intro address member
    rw [← List.flatMap_append] at member
    rcases List.mem_flatMap.mp member with ⟨entry, present, member⟩
    exact ⟨entry, present, mem_tracedBy (pairs entry present) member⟩

end Scan

/-- Two threads, an object of each tag, and a full collection that finds the object at 16 dead. -/
theorem scan_traces_every_pair_full :
    ∃ after traced,
      scanFinalizersInRust true false (fun address => decide (address ≠ 16))
          (fun _ => ⟨4096, by decide, by decide⟩) [false, true]
          (holding (fun thread => if thread then [(16, 24)] else [(33, 5)]) [(67, 7)] [(80, 88)] 0) =
        .ok (after, traced) ∧
      after.marked = ⟨[4097, 5]⟩ ∧
      after.toFinalize = ⟨[4096, 4096, 4096, 4096, 67, 7]⟩ ∧
      traced = [32, 80, 88, 16, 24] := by
  have locals : ∀ mutator ∈ [false, true],
      ∀ entry ∈ (if mutator then [(16, 24)] else [(33, 5)] : List Entry), Admissible entry := by
    intro mutator _ entry member
    cases mutator with
    | false =>
        rw [List.mem_singleton.mp member]
        decide
    | true =>
        rw [List.mem_singleton.mp member]
        decide
  have marked : ∀ entry ∈ ([(67, 7)] : List Entry), Admissible entry := by
    intro entry member
    rw [List.mem_singleton.mp member]
    decide
  have toFinalize : ∀ entry ∈ ([(80, 88)] : List Entry), Admissible entry := by
    intro entry member
    rw [List.mem_singleton.mp member]
    decide
  have addressed : Addressed (decided false [(67, 7)]
      ([false, true].flatMap (fun thread => if thread then [(16, 24)] else [(33, 5)]))) := by
    simp [Addressed, decided, untagged]
  rcases scan_traces_every_pair true false (fun address => decide (address ≠ 16))
      (fun _ => ⟨4096, by decide, by decide⟩) [false, true] (by decide)
      (fun thread => if thread then [(16, 24)] else [(33, 5)]) [(67, 7)] [(80, 88)] 0
      ⟨locals, marked, toFinalize⟩ addressed with
    ⟨after, traced, ran, -, -, -, -, marked, toFinalize, log, -, -⟩
  refine ⟨after, traced, ran, ?_, ?_, ?_⟩
  · rw [marked]
    decide
  · rw [toFinalize]
    decide
  · rw [log]
    decide

end MmtkJulia.Finalizer
