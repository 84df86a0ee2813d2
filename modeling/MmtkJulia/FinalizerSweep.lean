import MmtkJulia.Finalizer
import Mathlib.Tactic

/-! What one call of sweep_finalizer_list does to a list of finalizer pairs. -/

namespace MmtkJulia.Finalizer

def Completes {Result : Type} (outcome : Except Fault Result) : Prop := ∃ result, outcome = .ok result

theorem completes_ok {Result : Type} (result : Result) :
    Completes (.ok result : Except Fault Result) := ⟨result, rfl⟩

theorem not_completes_error {Result : Type} (fault : Fault) :
    ¬ Completes (.error fault : Except Fault Result) := by
  rintro ⟨_, same⟩
  cases same

theorem completes_bind {First Second : Type} (first : Except Fault First)
    (second : First → Except Fault Second) :
    Completes (first >>= second) ↔ ∃ result, first = .ok result ∧ Completes (second result) := by
  cases first with
  | error fault => simp [Completes, bind, Except.bind]
  | ok result => simp [Completes, bind, Except.bind]

/-- An object, tagged in its low bits, and its finalizer. -/
abbrev Entry := Usize × Usize

def words (entries : List Entry) : List Usize := entries.flatMap (fun entry => [entry.1, entry.2])

@[simp] theorem words_nil : words [] = [] := rfl

@[simp] theorem words_cons (entry : Entry) (rest : List Entry) :
    words (entry :: rest) = entry.1 :: entry.2 :: words rest := rfl

@[simp] theorem words_append (front back : List Entry) :
    words (front ++ back) = words front ++ words back := List.flatMap_append

@[simp] theorem words_length (entries : List Entry) : (words entries).length = 2 * entries.length := by
  induction entries with
  | nil => rfl
  | cons entry rest ih => simp [ih]; omega

section Access

variable (front rest : List Entry) (entry : Entry) (val : Usize)

theorem get_object : (ArrayListT.mk (words (front ++ entry :: rest))).get (2 * front.length) =
    .ok entry.1 := by
  have inside : 2 * front.length < (words (front ++ entry :: rest)).length := by simp
  simp [ArrayListT.get, List.getElem_append_right]

theorem get_finalizer : (ArrayListT.mk (words (front ++ entry :: rest))).get (2 * front.length + 1) =
    .ok entry.2 := by
  simp only [ArrayListT.get, words_append, words_cons, List.length_append, List.length_cons,
    words_length]
  rw [dif_pos (by omega), List.getElem_append_right (by simp)]
  simp

theorem set_object : (ArrayListT.mk (words (front ++ entry :: rest))).set (2 * front.length) val =
    .ok ⟨words (front ++ (val, entry.2) :: rest)⟩ := by
  simp [ArrayListT.set, ArrayListT.len, List.set_append_right]

theorem set_finalizer :
    (ArrayListT.mk (words (front ++ entry :: rest))).set (2 * front.length + 1) val =
      .ok ⟨words (front ++ (entry.1, val) :: rest)⟩ := by
  simp only [ArrayListT.set, ArrayListT.len, words_append, words_cons, List.length_append,
    List.length_cons, words_length]
  rw [if_pos (by omega), List.set_append_right _ _ (by simp)]
  simp

end Access

theorem push_eq (list : ArrayListT) (val : Usize) : list.push val = .ok ⟨list.items ++ [val]⟩ := by
  simp [ArrayListT.push, ArrayListT.grow, ArrayListT.set, ArrayListT.len, List.set_append_right]

theorem pushPair_eq (list : ArrayListT) (entry : Entry) :
    pushPair list entry.1 entry.2 = .ok ⟨list.items ++ words [entry]⟩ := by
  simp [pushPair, push_eq, bind, Except.bind]

/-- Entries zeroed by finalize() are present no more. -/
def present (entry : Entry) : Bool := decide (entry.1 ≠ 0)

/-- The verdict of one collection: a malloced pointer or a dead object. -/
def due (isLive : Address → Bool) (entry : Entry) : Bool :=
  gcPtrTag entry.1 2 || !isLive (untagged entry.1)

def freed (isLive : Address → Bool) (entries : List Entry) : List Entry :=
  entries.filter (fun entry => present entry && due isLive entry)

def survivors (isLive : Address → Bool) (entries : List Entry) : List Entry :=
  entries.filter (fun entry => present entry && !due isLive entry)

/-- Round state of the sweep loop: kept entries compacted to the front, a gap of entries that
have been dealt with, and the entries still to come. -/
def sweepAt (kept gap rest : List Entry) (toFinalize : ArrayListT) (marked : Option ArrayListT)
    (havePending : Int) : Sweep where
  list := ⟨words (kept ++ gap ++ rest)⟩
  toFinalize := toFinalize
  marked := marked
  havePending := havePending
  i := 2 * (kept ++ gap).length
  j := 2 * kept.length

def Addressed (entries : List Entry) : Prop := ∀ entry ∈ entries, untagged entry.1 ≠ 0

theorem addressed_append {front back : List Entry} :
    Addressed (front ++ back) ↔ Addressed front ∧ Addressed back := by
  simp only [Addressed, List.mem_append, or_imp, forall_and]

theorem nonzero_of_address {word : Usize} (address : untagged word ≠ 0) : word ≠ 0 := by
  intro zero
  apply address
  rw [zero]
  rfl

theorem fromRawAddressUnchecked_ok {addr : Address} (nonzero : addr ≠ 0) :
    fromRawAddressUnchecked addr = .ok addr := if_neg nonzero

theorem clearTag_ok {debug : Bool} {addr : Address} (address : untagged addr ≠ 0) :
    gcPtrClearTag debug addr 3 = .ok (untagged addr) := by
  have nonzero : addr &&& ~~~3 ≠ 0 := address
  rw [gcPtrClearTag, if_neg (fun zero => nonzero zero.2), untagged]

theorem keepPair_eq (kept gap rest : List Entry) (entry : Entry) :
    ∃ gap' : List Entry, gap'.length = gap.length ∧
      keepPair ⟨words (kept ++ gap ++ entry :: rest)⟩ (2 * (kept ++ gap).length) (2 * kept.length) =
        .ok ⟨words (kept ++ [entry] ++ gap' ++ rest)⟩ := by
  cases gap with
  | nil => exact ⟨[], rfl, by simp [keepPair, pure, Except.pure]⟩
  | cons hole gap =>
      have behind : 2 * kept.length < 2 * (kept ++ hole :: gap).length := by simp
      refine ⟨gap ++ [entry], by simp, ?_⟩
      have object := get_object (kept ++ hole :: gap) rest entry
      have moved : kept ++ hole :: gap ++ entry :: rest = kept ++ hole :: (gap ++ entry :: rest) := by
        simp
      have shifted : kept ++ (entry.1, hole.2) :: (gap ++ entry :: rest) =
          (kept ++ (entry.1, hole.2) :: gap) ++ entry :: rest := by simp
      have finalizer := get_finalizer (kept ++ (entry.1, hole.2) :: gap) rest entry
      have length : (kept ++ (entry.1, hole.2) :: gap).length = (kept ++ hole :: gap).length := by simp
      rw [length] at finalizer
      simp only [keepPair, if_pos behind, bind, Except.bind, object]
      simp only [moved, set_object, shifted, finalizer]
      simp only [← shifted, set_finalizer]
      simp

section Rounds

variable {debug : Bool} {isLive : Address → Bool} {kept gap rest : List Entry} {entry : Entry}
  {toFinalize : ArrayListT} {marked : Option ArrayListT} {havePending : Int}

theorem sweepBody_null (null : untagged entry.1 = 0) :
    ¬ Completes (sweepBody debug isLive
      (sweepAt kept gap (entry :: rest) toFinalize marked havePending)) := by
  have object := get_object (kept ++ gap) rest entry
  cases debug with
  | true =>
      have asserted : gcPtrClearTag true entry.1 3 = .error .zeroAddress := if_pos ⟨rfl, null⟩
      simp only [sweepBody, sweepAt, object, asserted, bind, Except.bind]
      exact not_completes_error _
  | false =>
      have cleared : gcPtrClearTag false entry.1 3 = .ok 0 := by
        rw [← null, untagged]
        exact if_neg (fun both => Bool.false_ne_true both.1)
      have unchecked : fromRawAddressUnchecked 0 = .error .undefined := rfl
      simp only [sweepBody, sweepAt, object, cleared, unchecked, bind, Except.bind]
      exact not_completes_error _

theorem sweepBody_freed (address : untagged entry.1 ≠ 0) (dead : due isLive entry = true) :
    sweepBody debug isLive (sweepAt kept gap (entry :: rest) toFinalize marked havePending) =
      .ok (sweepAt kept (gap ++ [entry]) rest ⟨toFinalize.items ++ words [entry]⟩ marked 1) := by
  have object := get_object (kept ++ gap) rest entry
  have finalizer := get_finalizer (kept ++ gap) rest entry
  have tag := @clearTag_ok debug _ address
  have made := fromRawAddressUnchecked_ok address
  have nonzero := nonzero_of_address address
  have freed : (if gcPtrTag entry.1 2 then true else !isLive (untagged entry.1)) = true := by
    simpa [due] using dead
  have notOld : (if gcPtrTag entry.1 2 then false else marked.isSome && !true) = false := by simp
  simp only [sweepBody, sweepAt, object, tag, made, bind, Except.bind, if_neg nonzero, finalizer, freed,
    notOld, Bool.true_or, if_true, pushPair_eq, pure, Except.pure]
  cases marked <;> simp <;> omega

theorem sweepBody_old {target : ArrayListT} (address : untagged entry.1 ≠ 0)
    (alive : due isLive entry = false) :
    sweepBody debug isLive (sweepAt kept gap (entry :: rest) toFinalize (some target) havePending) =
      .ok (sweepAt kept (gap ++ [entry]) rest toFinalize (some ⟨target.items ++ words [entry]⟩)
        havePending) := by
  have object := get_object (kept ++ gap) rest entry
  have finalizer := get_finalizer (kept ++ gap) rest entry
  have tag := @clearTag_ok debug _ address
  have made := fromRawAddressUnchecked_ok address
  have nonzero := nonzero_of_address address
  simp only [due, Bool.or_eq_false_iff] at alive
  simp only [sweepBody, sweepAt, object, tag, made, bind, Except.bind, if_neg nonzero, finalizer, alive]
  simp [pushPair_eq, pure, Except.pure]
  omega

theorem sweepBody_kept (address : untagged entry.1 ≠ 0)
    (alive : due isLive entry = false) :
    ∃ gap' : List Entry,
      sweepBody debug isLive (sweepAt kept gap (entry :: rest) toFinalize none havePending) =
        .ok (sweepAt (kept ++ [entry]) gap' rest toFinalize none havePending) := by
  rcases keepPair_eq kept gap rest entry with ⟨gap', length, moved⟩
  have object := get_object (kept ++ gap) rest entry
  have finalizer := get_finalizer (kept ++ gap) rest entry
  have tag := @clearTag_ok debug _ address
  have made := fromRawAddressUnchecked_ok address
  have nonzero := nonzero_of_address address
  simp only [due, Bool.or_eq_false_iff] at alive
  refine ⟨gap', ?_⟩
  simp only [sweepBody, sweepAt, object, tag, made, bind, Except.bind, if_neg nonzero, finalizer, alive,
    Option.isSome_none, Bool.false_and, Bool.false_eq_true, if_false, Bool.or_self, moved]
  simp [length, pure, Except.pure]
  omega

theorem sweepAt_more :
    (sweepAt kept gap (entry :: rest) toFinalize marked havePending).more = true := by
  simp [Sweep.more, sweepAt, ArrayListT.len]
  omega

theorem sweepBody_round (address : untagged entry.1 ≠ 0) :
    ∃ kept' gap' toFinalize' marked' pending',
      sweepBody debug isLive (sweepAt kept gap (entry :: rest) toFinalize marked havePending) =
        .ok (sweepAt kept' gap' rest toFinalize' marked' pending') := by
  cases dead : due isLive entry with
  | true => exact ⟨_, _, _, _, _, sweepBody_freed address dead⟩
  | false =>
      cases marked with
      | some target => exact ⟨_, _, _, _, _, sweepBody_old address dead⟩
      | none =>
          rcases sweepBody_kept address dead with ⟨gap', round⟩
          exact ⟨_, _, _, _, _, round⟩

end Rounds

/-- What a sweep of the entries leaves, from the lists it started with. -/
structure Swept (isLive : Address → Bool) (entries : List Entry) (toFinalize : ArrayListT)
    (marked : Option ArrayListT) (havePending : Int) (s : Sweep) : Prop where
  toFinalize : s.toFinalize = ⟨toFinalize.items ++ words (freed isLive entries)⟩
  marked : s.marked = marked.map (fun old => ⟨old.items ++ words (survivors isLive entries)⟩)
  havePending : s.havePending = if freed isLive entries = [] then havePending else 1

def keeps (isLive : Address → Bool) (marked : Option ArrayListT) (entries : List Entry) :
    List Entry :=
  if marked.isSome then [] else survivors isLive entries

section Run

variable {debug : Bool} {isLive : Address → Bool} {entry : Entry} {rest : List Entry}
  {toFinalize : ArrayListT} {marked : Option ArrayListT} {havePending : Int} {s : Sweep}

theorem Swept.freed (nonzero : entry.1 ≠ 0) (dead : due isLive entry = true)
    (tail : Swept isLive rest ⟨toFinalize.items ++ words [entry]⟩ marked 1 s) :
    Swept isLive (entry :: rest) toFinalize marked havePending s := by
  have here : present entry = true := decide_eq_true nonzero
  rcases tail with ⟨toFinalize, marked, pending⟩
  refine ⟨?_, ?_, ?_⟩
  · simpa [Finalizer.freed, here, dead] using toFinalize
  · simpa [survivors, here, dead] using marked
  · simpa [Finalizer.freed, here, dead] using pending

theorem Swept.survived (nonzero : entry.1 ≠ 0) (alive : due isLive entry = false)
    (tail : Swept isLive rest toFinalize
      (marked.map (fun old => ⟨old.items ++ words [entry]⟩)) havePending s) :
    Swept isLive (entry :: rest) toFinalize marked havePending s := by
  have here : present entry = true := decide_eq_true nonzero
  rcases tail with ⟨toFinalize, marked, pending⟩
  refine ⟨?_, ?_, ?_⟩
  · simpa [Finalizer.freed, here, alive] using toFinalize
  · simpa [survivors, here, alive, Function.comp_def] using marked
  · simpa [Finalizer.freed, here, alive] using pending

theorem sweep_rounds (rest : List Entry) (addressed : Addressed rest) (fuel : Nat)
    (below : rest.length < fuel) (kept gap : List Entry) (toFinalize : ArrayListT)
    (marked : Option ArrayListT) (havePending : Int) :
    ∃ s, whileLoop .stuck Sweep.more (sweepBody debug isLive) fuel
        (sweepAt kept gap rest toFinalize marked havePending) = .ok s ∧
      Swept isLive rest toFinalize marked havePending s ∧
      s.list.items.take s.j = words (kept ++ keeps isLive marked rest) := by
  induction rest generalizing fuel kept gap toFinalize marked havePending with
  | nil =>
      cases fuel with
      | zero => simp at below
      | succ fuel =>
          have ended : (sweepAt kept gap [] toFinalize marked havePending).more = false := by
            simp [Sweep.more, sweepAt, ArrayListT.len]
            omega
          refine ⟨_, whileLoop_exit fuel ended, ?_, ?_⟩
          · exact ⟨by simp [sweepAt, freed], by simp [sweepAt, survivors], by simp [sweepAt, freed]⟩
          · simp [sweepAt, keeps, survivors]
  | cons entry rest ih =>
      cases fuel with
      | zero => simp at below
      | succ fuel =>
          have more := @sweepAt_more kept gap rest entry toFinalize marked havePending
          have fits : rest.length < fuel := by simpa using below
          have address := addressed entry (by simp)
          have nonzero := nonzero_of_address address
          have here : present entry = true := decide_eq_true nonzero
          have ih := ih (fun entry member => addressed entry (by simp [member])) fuel fits
          cases dead : due isLive entry with
          | true =>
              rw [whileLoop_round fuel more (sweepBody_freed address dead)]
              rcases ih kept (gap ++ [entry]) ⟨toFinalize.items ++ words [entry]⟩ marked 1 with
                ⟨s, ran, swept, front⟩
              exact ⟨s, ran, swept.freed nonzero dead,
                by simpa [keeps, survivors, here, dead] using front⟩
          | false =>
              cases marked with
              | some target =>
                  rw [whileLoop_round fuel more (sweepBody_old address dead)]
                  rcases ih kept (gap ++ [entry]) toFinalize
                      (some ⟨target.items ++ words [entry]⟩) havePending with ⟨s, ran, swept, front⟩
                  exact ⟨s, ran, swept.survived nonzero dead, by simpa [keeps] using front⟩
              | none =>
                  rcases sweepBody_kept address dead with ⟨gap', round⟩
                  rw [whileLoop_round fuel more round]
                  rcases ih (kept ++ [entry]) gap' toFinalize none havePending with
                    ⟨s, ran, swept, front⟩
                  exact ⟨s, ran, swept.survived nonzero dead,
                    by simpa [keeps, survivors, here, dead] using front⟩

theorem sweep_rounds_addressed (rest : List Entry) (fuel : Nat) (kept gap : List Entry)
    (toFinalize : ArrayListT) (marked : Option ArrayListT) (havePending : Int)
    (completes : Completes (whileLoop .stuck Sweep.more (sweepBody debug isLive) fuel
      (sweepAt kept gap rest toFinalize marked havePending))) : Addressed rest := by
  induction rest generalizing fuel kept gap toFinalize marked havePending with
  | nil => exact List.forall_mem_nil _
  | cons entry rest ih =>
      cases fuel with
      | zero => exact absurd completes (not_completes_error _)
      | succ fuel =>
          have more := @sweepAt_more kept gap rest entry toFinalize marked havePending
          rw [whileLoop, if_pos more] at completes
          obtain ⟨middle, round, later⟩ := (completes_bind _ _).mp completes
          have address : untagged entry.1 ≠ 0 := fun null => sweepBody_null null ⟨middle, round⟩
          obtain ⟨kept', gap', toFinalize', marked', pending', went⟩ :=
            @sweepBody_round debug isLive kept gap rest entry toFinalize marked havePending address
          cases went.symm.trans round
          exact List.forall_mem_cons.mpr ⟨address, ih _ _ _ _ _ _ later⟩

end Run

theorem sweepFinalizerList_eq {debug : Bool} (isLive : Address → Bool) (entries : List Entry)
    (addressed : Addressed entries) (toFinalize : ArrayListT) (marked : Option ArrayListT)
    (havePending : Int) :
    ∃ s, sweepFinalizerList debug isLive ⟨words entries⟩ toFinalize marked havePending = .ok s ∧
      Swept isLive entries toFinalize marked havePending s ∧
      s.list = ⟨words (keeps isLive marked entries)⟩ := by
  cases entries with
  | nil =>
      refine ⟨_, rfl, ⟨?_, ?_, ?_⟩, ?_⟩ <;> simp [freed, survivors, keeps]
  | cons entry rest =>
      have nonempty : ¬ (ArrayListT.mk (words (entry :: rest))).len = 0 := by simp [ArrayListT.len]
      have below : (entry :: rest).length < (ArrayListT.mk (words (entry :: rest))).len + 1 := by
        simp [ArrayListT.len]
        omega
      rcases @sweep_rounds debug isLive (entry :: rest) addressed _ below [] [] toFinalize marked havePending
        with ⟨s, ran, swept, front⟩
      have start : sweepAt [] [] (entry :: rest) toFinalize marked havePending =
          ⟨⟨words (entry :: rest)⟩, toFinalize, marked, havePending, 0, 0⟩ := by simp [sweepAt]
      rw [start] at ran
      rcases swept with ⟨finalized, old, pending⟩
      refine ⟨{ s with list := ⟨s.list.items.take s.j⟩ }, ?_, ⟨finalized, old, pending⟩, ?_⟩
      · simp only [sweepFinalizerList, if_neg nonempty, ran, bind, Except.bind, pure, Except.pure]
      · simpa using front

theorem sweepFinalizerList_addressed {debug : Bool} {isLive : Address → Bool} (entries : List Entry)
    {toFinalize : ArrayListT} {marked : Option ArrayListT} {havePending : Int}
    (completes : Completes (sweepFinalizerList debug isLive ⟨words entries⟩ toFinalize marked
      havePending)) : Addressed entries := by
  by_cases empty : (ArrayListT.mk (words entries)).len = 0
  · have none : entries = [] := by simpa [ArrayListT.len] using empty
    rw [none]
    exact List.forall_mem_nil _
  · have start : sweepAt [] [] entries toFinalize marked havePending =
        ⟨⟨words entries⟩, toFinalize, marked, havePending, 0, 0⟩ := by simp [sweepAt]
    rw [sweepFinalizerList, if_neg empty, ← start] at completes
    obtain ⟨s, ran, -⟩ := (completes_bind _ _).mp completes
    exact sweep_rounds_addressed entries _ [] [] toFinalize marked havePending ⟨s, ran⟩

def pairs : List Usize → List Entry
  | object :: finalizer :: rest => (object, finalizer) :: pairs rest
  | _ => []

theorem words_pairs (items : List Usize) (even : 2 ∣ items.length) : words (pairs items) = items := by
  induction items using pairs.induct with
  | case1 object finalizer rest ih =>
      have shorter : 2 ∣ rest.length := by
        simp only [List.length_cons] at even
        omega
      rw [pairs, words_cons, ih shorter]
  | case2 items short =>
      cases items with
      | nil => rfl
      | cons object items =>
          cases items with
          | nil => simp at even
          | cons finalizer rest => exact absurd rfl (short object finalizer rest)

theorem freed_survivors_perm (isLive : Address → Bool) (entries : List Entry) :
    (freed isLive entries ++ survivors isLive entries).Perm (entries.filter present) := by
  have both := List.filter_append_perm (due isLive) (entries.filter present)
  rw [List.filter_filter, List.filter_filter] at both
  simpa [freed, survivors, Bool.and_comm] using both

/-- The sweep partitions a list stably if it finds an object in every entry, zeroed ones included,
and is undefined otherwise. -/
theorem sweep_partitions_iff (isLive : Address → Bool) (list toFinalize : ArrayListT)
    (marked : Option ArrayListT) (havePending : Int) (even : 2 ∣ list.len) :
    let dead := freed isLive (pairs list.items)
    let alive := survivors isLive (pairs list.items)
    ((dead ++ alive).Perm ((pairs list.items).filter present) ∧
      ∃ s, sweepFinalizerList false isLive list toFinalize marked havePending = .ok s ∧
        s.toFinalize = ⟨toFinalize.items ++ words dead⟩ ∧
        s.marked = marked.map (fun old => ⟨old.items ++ words alive⟩) ∧
        s.list = ⟨if marked.isSome then [] else words alive⟩ ∧
        s.havePending = if dead = [] then havePending else 1) ↔
      Addressed (pairs list.items) := by
  intro dead alive
  have whole : list = ⟨words (pairs list.items)⟩ := by rw [words_pairs list.items even]
  constructor
  · rintro ⟨-, s, ran, -⟩
    rw [whole] at ran
    exact sweepFinalizerList_addressed _ ⟨s, ran⟩
  · intro addressed
    refine ⟨freed_survivors_perm isLive _, ?_⟩
    obtain ⟨s, ran, swept, kept⟩ :=
      @sweepFinalizerList_eq false isLive (pairs list.items) addressed toFinalize marked havePending
    rw [← whole] at ran
    refine ⟨s, ran, swept.toFinalize, swept.marked, ?_, swept.havePending⟩
    rw [kept, keeps]
    cases marked <;> rfl

/-- A dead object, a malloced pointer and two live objects, in a list that is swept into itself. -/
theorem sweep_partitions_iff_mixed :
    ∃ s, sweepFinalizerList false (fun address => decide (address ≠ 16))
        ⟨[16, 24, 32, 40, 67, 7, 49, 5]⟩ ⟨[80, 88]⟩ none 0 = .ok s ∧
      s.toFinalize = ⟨[80, 88, 16, 24, 67, 7]⟩ ∧ s.list = ⟨[32, 40, 49, 5]⟩ ∧ s.havePending = 1 := by
  have addressed : Addressed (pairs [16, 24, 32, 40, 67, 7, 49, 5]) := by
    simp [Addressed, pairs, untagged]
  obtain ⟨-, s, ran, finalized, -, kept, pending⟩ :=
    (sweep_partitions_iff (fun address => decide (address ≠ 16)) ⟨[16, 24, 32, 40, 67, 7, 49, 5]⟩
      ⟨[80, 88]⟩ none 0 (by decide)).mpr addressed
  refine ⟨s, ran, ?_, ?_, ?_⟩
  · rw [finalized]
    decide
  · rw [kept]
    decide
  · rw [pending]
    decide

/-- A zeroed pair behind a live object: it ought to disappear, but a reference is made of it. -/
theorem zeroed_pair_undefined :
    sweepFinalizerList false (fun _ => true) ⟨[16, 24, 0, 0]⟩ ⟨[]⟩ none 0 = .error .undefined ∧
      ¬ ∀ (isLive : Address → Bool) (list toFinalize : ArrayListT) (marked : Option ArrayListT)
        (havePending : Int), 2 ∣ list.len →
        ∃ s, sweepFinalizerList false isLive list toFinalize marked havePending = .ok s ∧
          s.toFinalize = ⟨toFinalize.items ++ words (freed isLive (pairs list.items))⟩ ∧
          s.list = ⟨if marked.isSome then [] else words (survivors isLive (pairs list.items))⟩ := by
  have undefined : sweepFinalizerList false (fun _ => true) ⟨[16, 24, 0, 0]⟩ ⟨[]⟩ none 0 =
      .error .undefined := by decide
  refine ⟨undefined, ?_⟩
  intro partitions
  obtain ⟨s, ran, -⟩ := partitions (fun _ => true) ⟨[16, 24, 0, 0]⟩ ⟨[]⟩ none 0 (by decide)
  rw [undefined] at ran
  cases ran

end MmtkJulia.Finalizer
