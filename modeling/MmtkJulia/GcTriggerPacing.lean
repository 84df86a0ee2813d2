import MmtkJulia.GcTriggerLimit
import MmtkJulia.Runs

/-! How often a full heap calls for a collection: the trigger beside a heap that grows and
shrinks at will. -/

namespace MmtkJulia.GcTrigger

/-- A collection is asked for by is_heap_full, at a number of pages reserved or requested so far, or
by the plan or the user. -/
inductive Phase where
  | mutating
  | full (allocated : Nat)
  | collecting (full : Option Nat)
  deriving DecidableEq, Repr

/-- An automatic collection that a full heap called for: the bytes that the automatic collection
before it ended with, and the pages reserved or requested until then and until the call. -/
structure Called where
  survived : Nat
  allocatedThen : Nat
  allocated : Nat
  deriving DecidableEq, Repr

/-- The trigger and the pages that the plan reports. The rest is history: the pages reserved or
requested so far, the bytes that the last automatic collection ended with and the pages reserved or
requested until then, and the automatic collections that a full heap called for. -/
structure Pacing where
  trigger : JuliaGCTrigger
  reserved : Nat
  phase : Phase
  allocated : Nat
  survived : Nat
  allocatedThen : Nat
  paced : List Called

/-- The plan reserves and releases pages, also during a collection. The other actions call the
trigger, with what it reads from the clock and the plan. -/
inductive Action where
  | reserve (pages : Nat)
  | release (pages : Nat)
  | request (pages : Usize)
  | poll
  | start (now : Usize) (lastCollectionFullHeap : Option Bool)
  | finish (now : Usize) (userTriggered generational : Bool)

namespace Pacing

def reservedPages (s : Pacing) : Usize := BitVec.ofNat 64 s.reserved

def heapSize (s : Pacing) : Usize := pagesToBytes (reservedPagesNow s.trigger s.reservedPages)

def start (s : Pacing) (now : Usize) (lastCollectionFullHeap : Option Bool) (full : Option Nat) :
    Pacing :=
  { s with
    trigger := onGcStart s.trigger ⟨s.reservedPages, now, lastCollectionFullHeap⟩
    phase := .collecting full }

def finish (sqrt : ℚ → ℚ) (s : Pacing) (now : Usize) (userTriggered generational : Bool)
    (full : Option Nat) : Pacing :=
  let ended := { s with
    trigger := (onGcEnd sqrt s.trigger ⟨s.reservedPages, now, userTriggered, generational⟩).1
    phase := .mutating }
  if userTriggered then ended
  else { ended with
    survived := s.heapSize.toNat
    allocatedThen := s.allocated
    paced := s.paced ++ full.toList.map (Called.mk s.survived s.allocatedThen) }

def next (sqrt : ℚ → ℚ) (s : Pacing) : Action → Option Pacing
  | .reserve pages => some { s with reserved := s.reserved + pages, allocated := s.allocated + pages }
  | .release pages =>
      if pages ≤ s.reserved then some { s with reserved := s.reserved - pages } else none
  | .request pages =>
      some { s with
        trigger := onPendingAllocation s.trigger pages
        allocated := s.allocated + pages.toNat }
  | .poll =>
      let full := isHeapFull s.trigger s.reservedPages
      some { s with phase := if s.phase = .mutating ∧ full then .full s.allocated else s.phase }
  | .start now lastCollectionFullHeap =>
      match s.phase with
      | .mutating => some (s.start now lastCollectionFullHeap none)
      | .full allocated => some (s.start now lastCollectionFullHeap (some allocated))
      | .collecting _ => none
  | .finish now userTriggered generational =>
      match s.phase with
      | .collecting full => some (s.finish sqrt now userTriggered generational full)
      | _ => none

end Pacing

def pacing (sqrt : ℚ → ℚ) (maxTotalMem : Usize) : System Pacing Action where
  initial := ⟨new maxTotalMem, 0, .mutating, 0, 0, 0, []⟩
  next := Pacing.next sqrt

theorem onGcEnd_target_least (sqrt : ℚ → ℚ) (trigger : JuliaGCTrigger) {readings : EndReadings}
    (auto : readings.userTriggered = false) :
    leastTarget (pagesToBytes (reservedPagesNow trigger readings.reservedPages)).toNat ≤
      (onGcEnd sqrt trigger readings).1.heapTarget.toNat := by
  obtain ⟨estimate, set⟩ := onGcEnd_auto_heapTarget sqrt trigger readings auto
  have least := minTargetAllocs_toNat (pagesToBytes (reservedPagesNow trigger readings.reservedPages))
  have bounds := (targetAllocs_bounds sqrt estimate (onGcEnd sqrt trigger readings).1.thrashing
    (pagesToBytes (reservedPagesNow trigger readings.reservedPages)) trigger.beforeFreeHeapSize
    (userMax trigger)).1
  have room : (pagesToBytes (reservedPagesNow trigger readings.reservedPages)).toNat +
      leastAllocs (pagesToBytes (reservedPagesNow trigger readings.reservedPages)).toNat ≤
        ⌊targetHeap (targetAllocs sqrt estimate (onGcEnd sqrt trigger readings).1.thrashing
          (pagesToBytes (reservedPagesNow trigger readings.reservedPages)) trigger.beforeFreeHeapSize
          (userMax trigger)) (pagesToBytes (reservedPagesNow trigger readings.reservedPages))⌋₊ := by
    apply Nat.le_floor
    rw [targetHeap_eq]
    apply le_max_of_le_right
    rw [real, least] at bounds
    push_cast
    exact add_le_add le_rfl bounds
  rw [set, truncate_toNat_min, leastTarget]
  exact min_le_min room le_rfl

def Called.Paid (called : Called) : Prop :=
  4096 * called.allocatedThen + leastAllocs called.survived ≤ 4096 * called.allocated

namespace Pacing

def Fits (s : Pacing) : Prop := 4096 * s.allocated < 2 ^ 64

structure Paced (s : Pacing) : Prop where
  target : leastTarget s.survived ≤ s.trigger.heapTarget.toNat
  counted : s.reserved + s.trigger.pendingPages.toNat ≤ s.allocated
  earlier : s.allocatedThen ≤ s.allocated

def Calls (s : Pacing) (allocated : Nat) : Prop :=
  s.phase = .full allocated ∨ s.phase = .collecting (some allocated)

/-- The heap grows only by what is allocated, and a full heap has grown by the least allocation. -/
structure Paid (s : Pacing) : Prop where
  grown : 4096 * (s.reserved + s.trigger.pendingPages.toNat) + 4096 * s.allocatedThen ≤
    s.survived + 4096 * s.allocated
  paced : ∀ called ∈ s.paced, called.Paid ∧ called.allocated ≤ s.allocatedThen
  ordered : s.paced.Pairwise (fun called later => called.allocated ≤ later.allocatedThen)
  called : ∀ allocated, s.Calls allocated →
    (Called.mk s.survived s.allocatedThen allocated).Paid ∧ allocated ≤ s.allocated

theorem Paced.heapSize_toNat {s : Pacing} (paced : Paced s) (fits : s.Fits) :
    s.heapSize.toNat = 4096 * (s.reserved + s.trigger.pendingPages.toNat) := by
  have counted := paced.counted
  have pages : s.reservedPages.toNat = s.reserved := by
    rw [reservedPages, BitVec.toNat_ofNat]
    apply Nat.mod_eq_of_lt
    rw [Fits] at fits
    omega
  rw [Fits] at fits
  rw [heapSize, reservedPagesNow, pagesToBytes_toNat (by rw [pages]; omega), pages]
  omega

variable {sqrt : ℚ → ℚ} {s t : Pacing}

theorem Paced.full (paced : Paced s) (paid : Paid s) (fits : s.Fits)
    (full : isHeapFull s.trigger s.reservedPages = true) :
    (Called.mk s.survived s.allocatedThen s.allocated).Paid := by
  have reaches : s.trigger.heapTarget.toNat ≤ s.heapSize.toNat := by
    simpa [isHeapFull, heapSize, BitVec.le_def] using full
  have bytes := paced.heapSize_toNat fits
  have counted := paced.counted
  have target := paced.target
  have grown := paid.grown
  rw [Fits] at fits
  rw [leastTarget] at target
  change 4096 * s.allocatedThen + leastAllocs s.survived ≤ 4096 * s.allocated
  omega

theorem Paced.poll (paced : Paced s) (paid : s.Fits → Paid s)
    (taken : Pacing.next sqrt s .poll = some t) : Paced t ∧ (t.Fits → Paid t) := by
  cases taken
  refine ⟨⟨paced.target, paced.counted, paced.earlier⟩, ?_⟩
  intro fits
  have earlier := paid fits
  refine ⟨earlier.grown, earlier.paced, earlier.ordered, ?_⟩
  by_cases polled : s.phase = .mutating ∧ isHeapFull s.trigger s.reservedPages
  · intro allocated called
    have now : allocated = s.allocated := by simpa [Calls, polled, eq_comm] using called
    rw [now]
    exact ⟨paced.full earlier fits polled.2, Nat.le_refl _⟩
  · simp only [Calls, polled, if_false]
    exact earlier.called

theorem Paced.started (paced : Paced s) (paid : s.Fits → Paid s) (now : Usize)
    (lastCollectionFullHeap : Option Bool) {full : Option Nat}
    (phase : ∀ allocated, full = some allocated → s.phase = .full allocated) :
    Paced (s.start now lastCollectionFullHeap full) ∧
      ((s.start now lastCollectionFullHeap full).Fits →
        Paid (s.start now lastCollectionFullHeap full)) := by
  refine ⟨⟨paced.target, paced.counted, paced.earlier⟩, ?_⟩
  intro fits
  have earlier := paid fits
  refine ⟨earlier.grown, earlier.paced, earlier.ordered, ?_⟩
  intro allocated called
  apply earlier.called allocated
  left
  apply phase
  simpa [Calls, start] using called

theorem Paid.append (paced : Paced s) (paid : Paid s) {full : Option Nat}
    (phase : s.phase = .collecting full) :
    (∀ called ∈ s.paced ++ full.toList.map (Called.mk s.survived s.allocatedThen),
        called.Paid ∧ called.allocated ≤ s.allocated) ∧
      (s.paced ++ full.toList.map (Called.mk s.survived s.allocatedThen)).Pairwise
        (fun called later => called.allocated ≤ later.allocatedThen) := by
  have before : ∀ called ∈ s.paced, called.Paid ∧ called.allocated ≤ s.allocated :=
    fun called member => ⟨(paid.paced called member).1, (paid.paced called member).2.trans paced.earlier⟩
  cases full with
  | none => simpa using And.intro before paid.ordered
  | some allocated =>
      constructor
      · intro called member
        rcases List.mem_append.mp member with member | last
        · exact before called member
        · rw [List.mem_singleton.mp last]
          exact paid.called allocated (.inr phase)
      · apply List.pairwise_append.mpr
        refine ⟨paid.ordered, List.pairwise_singleton _ _, ?_⟩
        intro called member later last
        rw [List.mem_singleton.mp last]
        exact (paid.paced called member).2

theorem Paced.finished (paced : Paced s) (paid : s.Fits → Paid s) (now : Usize)
    (userTriggered generational : Bool) {full : Option Nat} (phase : s.phase = .collecting full) :
    Paced (s.finish sqrt now userTriggered generational full) ∧
      ((s.finish sqrt now userTriggered generational full).Fits →
        Paid (s.finish sqrt now userTriggered generational full)) := by
  cases userTriggered with
  | true =>
      have target := onGcEnd_user_heapTarget sqrt s.trigger
        ⟨s.reservedPages, now, true, generational⟩ rfl
      refine ⟨⟨?_, ?_, paced.earlier⟩, ?_⟩
      · simpa [finish, target] using paced.target
      · simpa [finish] using paced.counted
      · intro fits
        have earlier := paid fits
        refine ⟨?_, earlier.paced, earlier.ordered, ?_⟩
        · simpa [finish] using earlier.grown
        · simp [finish, Calls]
  | false =>
      have target := @onGcEnd_target_least sqrt s.trigger
        ⟨s.reservedPages, now, false, generational⟩ rfl
      refine ⟨⟨?_, ?_, Nat.le_refl _⟩, ?_⟩
      · simpa [finish, heapSize] using target
      · simpa [finish] using paced.counted
      · intro fits
        have earlier := paid fits
        have bytes := paced.heapSize_toNat fits
        have appended := earlier.append paced phase
        refine ⟨?_, appended.1, appended.2, ?_⟩
        · simp [finish, bytes]
        · simp [finish, Calls]

theorem Fits.earlier (fits : t.Fits) (more : s.allocated ≤ t.allocated) : s.Fits := by
  rw [Fits] at fits ⊢
  omega

theorem next_paced {action : Action} (paced : Paced s) (paid : s.Fits → Paid s)
    (taken : Pacing.next sqrt s action = some t) : Paced t ∧ (t.Fits → Paid t) := by
  have counted := paced.counted
  have earlier := paced.earlier
  cases action with
  | reserve pages =>
      cases taken
      refine ⟨⟨paced.target, by dsimp only; omega, by dsimp only; omega⟩, ?_⟩
      intro fits
      have before := paid (fits.earlier (Nat.le_add_right _ _))
      have grown := before.grown
      refine ⟨by dsimp only; omega, before.paced, before.ordered, ?_⟩
      intro allocated called
      have earlier := before.called allocated called
      exact ⟨earlier.1, earlier.2.trans (Nat.le_add_right _ _)⟩
  | release pages =>
      rw [next] at taken
      split_ifs at taken with enough
      cases taken
      refine ⟨⟨paced.target, by dsimp only; omega, earlier⟩, ?_⟩
      intro fits
      have before := paid fits
      have grown := before.grown
      exact ⟨by dsimp only; omega, before.paced, before.ordered, before.called⟩
  | request pages =>
      cases taken
      have pending : (onPendingAllocation s.trigger pages).pendingPages.toNat ≤
          s.trigger.pendingPages.toNat + pages.toNat := by
        rw [onPendingAllocation, BitVec.toNat_add]
        exact Nat.mod_le _ _
      refine ⟨⟨paced.target, by dsimp only; omega, by dsimp only; omega⟩, ?_⟩
      intro fits
      have before := paid (fits.earlier (Nat.le_add_right _ _))
      have grown := before.grown
      refine ⟨by dsimp only; omega, before.paced, before.ordered, ?_⟩
      intro allocated called
      have earlier := before.called allocated called
      exact ⟨earlier.1, earlier.2.trans (Nat.le_add_right _ _)⟩
  | poll => exact paced.poll paid taken
  | start now lastCollectionFullHeap =>
      cases phase : s.phase with
      | mutating =>
          rw [next, phase] at taken
          cases taken
          exact paced.started paid now lastCollectionFullHeap (fun _ full => by cases full)
      | full allocated =>
          rw [next, phase] at taken
          cases taken
          apply paced.started paid now lastCollectionFullHeap
          rintro allocated ⟨⟩
          exact phase
      | collecting full =>
          rw [next, phase] at taken
          cases taken
  | finish now userTriggered generational =>
      cases phase : s.phase with
      | mutating =>
          rw [next, phase] at taken
          cases taken
      | full allocated =>
          rw [next, phase] at taken
          cases taken
      | collecting full =>
          rw [next, phase] at taken
          cases taken
          exact paced.finished paid now userTriggered generational phase

theorem reachable_paced {maxTotalMem : Usize} (reached : (pacing sqrt maxTotalMem).Reachable s) :
    Paced s ∧ (s.Fits → Paid s) := by
  apply reached.invariant (fun s => Paced s ∧ (s.Fits → Paid s))
  · have target : leastTarget 0 ≤ defaultCollectInterval.toNat := by decide
    refine ⟨⟨target, Nat.le_refl 0, Nat.le_refl 0⟩, ?_⟩
    intro _
    exact ⟨Nat.le_refl 0, by simp [pacing], .nil, by simp [pacing, Calls]⟩
  · intro before action after holds _ taken
    exact next_paced holds.1 holds.2 taken

end Pacing

section Called

variable {paced : List Called}

/-- The intervals follow one another, so what was allocated in them adds up. -/
theorem sum_leastAllocs_le {start last : Nat} (each : ∀ called ∈ paced, called.Paid)
    (ordered : paced.Pairwise (fun called later => called.allocated ≤ later.allocatedThen))
    (from_ : ∀ called ∈ paced, start ≤ called.allocatedThen)
    (until_ : ∀ called ∈ paced, called.allocated ≤ last) (bounds : start ≤ last) :
    4096 * start + (paced.map (leastAllocs ·.survived)).sum ≤ 4096 * last := by
  induction paced generalizing start with
  | nil => simpa using bounds
  | cons called later ih =>
      rcases List.pairwise_cons.mp ordered with ⟨follow, ordered⟩
      rw [List.forall_mem_cons] at each from_ until_
      have rest := ih each.2 ordered follow until_.2 until_.1
      have first := each.1
      have begin_ := from_.1
      rw [Called.Paid] at first
      rw [List.map_cons, List.sum_cons]
      omega

theorem interval_le_leastAllocs (heap : Nat) :
    defaultCollectInterval.toNat / 8 ≤ leastAllocs heap := le_max_right _ _

theorem le_leastAllocs (heap : Nat) : heap ≤ 20 * leastAllocs heap + 19 := by
  rw [leastAllocs]
  omega

theorem Called.Paid.interval {called : Called} (paid : called.Paid) :
    4096 * called.allocatedThen + defaultCollectInterval.toNat / 8 ≤ 4096 * called.allocated := by
  have part := interval_le_leastAllocs called.survived
  rw [Paid] at paid
  omega

theorem Called.Paid.twentieth {called : Called} (paid : called.Paid) :
    20 * (4096 * called.allocatedThen) + called.survived ≤ 20 * (4096 * called.allocated) + 19 := by
  have part := le_leastAllocs called.survived
  rw [Paid] at paid
  omega

theorem sum_survived_le (paced : List Called) :
    (paced.map (·.survived)).sum ≤ 20 * (paced.map (leastAllocs ·.survived)).sum + 19 * paced.length := by
  induction paced with
  | nil => exact Nat.le_refl 0
  | cons called later ih =>
      have part := le_leastAllocs called.survived
      simp only [List.sum_cons, List.map_cons, List.length_cons]
      omega

theorem length_le_sum_leastAllocs (paced : List Called) :
    paced.length * (defaultCollectInterval.toNat / 8) ≤ (paced.map (leastAllocs ·.survived)).sum := by
  induction paced with
  | nil => simp
  | cons called later ih =>
      have part := interval_le_leastAllocs called.survived
      simp only [List.length_cons, List.map_cons, List.sum_cons, Nat.add_mul]
      omega

end Called

/-- Whatever the heap does between the calls, and whatever other collections the plan and the user
force, each automatic collection that a full heap calls for is paid by fresh allocation since the
automatic collection before it: an eighth of the default interval at least, and a twentieth of what
that collection left. No allocation pays twice, so it bounds the number of these collections, and the
heaps they go over. -/
theorem collections_paid_by_allocation {sqrt : ℚ → ℚ} {maxTotalMem : Usize} {s : Pacing}
    (reached : (pacing sqrt maxTotalMem).Reachable s) (fits : 4096 * s.allocated < 2 ^ 64) :
    (∀ called ∈ s.paced,
        4096 * called.allocatedThen + defaultCollectInterval.toNat / 8 ≤ 4096 * called.allocated ∧
        20 * (4096 * called.allocatedThen) + called.survived ≤ 20 * (4096 * called.allocated) + 19 ∧
        called.allocated ≤ s.allocated) ∧
      s.paced.Pairwise (fun called later => called.allocated ≤ later.allocatedThen) ∧
      (s.paced.map (leastAllocs ·.survived)).sum ≤ 4096 * s.allocated ∧
      s.paced.length * (defaultCollectInterval.toNat / 8) ≤ 4096 * s.allocated ∧
      (s.paced.map (·.survived)).sum ≤ 20 * (4096 * s.allocated) + 19 * s.paced.length := by
  obtain ⟨paced, kept⟩ := Pacing.reachable_paced reached
  have paid := kept fits
  have until_ : ∀ called ∈ s.paced, called.allocated ≤ s.allocated :=
    fun called member => (paid.paced called member).2.trans paced.earlier
  have due : (s.paced.map (leastAllocs ·.survived)).sum ≤ 4096 * s.allocated := by
    have total := sum_leastAllocs_le (fun called member => (paid.paced called member).1) paid.ordered
      (fun _ _ => Nat.zero_le _) until_ (Nat.zero_le _)
    omega
  have survived := sum_survived_le s.paced
  refine ⟨?_, paid.ordered, due, (length_le_sum_leastAllocs s.paced).trans due, by omega⟩
  intro called member
  have own := (paid.paced called member).1
  exact ⟨own.interval, own.twentieth, until_ called member⟩

/-- A program fills the first heap, and the collection frees half of it. -/
def firstFullHeap : List Action :=
  [.reserve 12000, .poll, .start 5000000 none, .release 6000, .finish 6000000 false false]

theorem collections_paid_by_allocation_first :
    ∃ s, (pacing (fun x => x) 0x200000000).Reachable s ∧ s.paced = [⟨0, 0, 12000⟩] ∧
      ∀ called ∈ s.paced,
        4096 * called.allocatedThen + defaultCollectInterval.toNat / 8 ≤ 4096 * called.allocated := by
  have full : isHeapFull (new 0x200000000) 12000 = true := by decide
  have polled : (pacing (fun x => x) 0x200000000).run (pacing (fun x => x) 0x200000000).initial
      (firstFullHeap.take 2) = some ⟨new 0x200000000, 12000, .full 12000, 12000, 0, 0, []⟩ := by
    simpa [firstFullHeap, System.run, pacing, Pacing.next, Pacing.reservedPages] using full
  have reached := System.Reachable.run .initial _ polled
  have collected := System.Reachable.run reached (firstFullHeap.drop 2) rfl
  have paid := collections_paid_by_allocation collected (by decide)
  exact ⟨_, collected, rfl, fun called member => (paid.1 called member).1⟩

end MmtkJulia.GcTrigger
