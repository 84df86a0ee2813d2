import MmtkJulia.GcTrigger
import Mathlib.Data.List.Induction

/-! The pending-pages counter over whole runs of the trigger. -/

namespace MmtkJulia.GcTrigger

variable (sqrt : ℚ → ℚ) (maxTotalMem : Usize)

@[simp] theorem onGcStart_pendingPages (trigger : JuliaGCTrigger) (readings : StartReadings) :
    (onGcStart trigger readings).pendingPages = trigger.pendingPages := rfl

@[simp] theorem onGcEnd_pendingPages (trigger : JuliaGCTrigger) (readings : EndReadings) :
    (onGcEnd sqrt trigger readings).1.pendingPages = trigger.pendingPages := by
  cases user : readings.userTriggered <;> simp [onGcEnd, updateHeapTarget, user]

@[simp] theorem onGcEnd_oldHeapSize (trigger : JuliaGCTrigger) (readings : EndReadings) :
    (onGcEnd sqrt trigger readings).1.oldHeapSize =
      pagesToBytes (reservedPagesNow trigger readings.reservedPages) := by
  cases user : readings.userTriggered <;> simp [onGcEnd, updateHeapTarget, user]

theorem run_snoc (events : List Event) (event : Event) :
    run sqrt maxTotalMem (events ++ [event]) = step sqrt (run sqrt maxTotalMem events) event := by
  simp [run]

/-- The pages reported by on_pending_allocation since the last completed collection. -/
def openRequests (events : List Event) : Usize :=
  events.foldl (fun pages event =>
    match event with
    | .pending more => pages + more
    | .gcStart _ => pages
    | .gcEnd _ => 0) 0

/-- At every point of the run the counter is the open requests, and these are what the heap
size of is_heap_full and of the two collection callbacks counts beside the reserved pages. -/
def CountsOpenRequests (events : List Event) : Prop :=
  ∀ past, past <+: events →
    let trigger := run sqrt maxTotalMem past
    let heapSize := fun reserved => pagesToBytes (reserved + openRequests past)
    trigger.pendingPages = openRequests past ∧
    (∀ reserved, isHeapFull trigger reserved = decide (heapSize reserved ≥ trigger.heapTarget)) ∧
    (∀ readings, (onGcStart trigger readings).beforeFreeHeapSize = heapSize readings.reservedPages) ∧
    ∀ readings, (onGcEnd sqrt trigger readings).1.oldHeapSize = heapSize readings.reservedPages

def reportedPages (events : List Event) : Nat :=
  (events.map (fun event =>
    match event with
    | .pending pages => pages.toNat
    | _ => 0)).sum

/-- Before each end of a collection the requests of the run add up to no pages, as far as a usize
counts them. -/
def CompletesWithoutRequests (events : List Event) : Prop :=
  ∀ past readings, past ++ [.gcEnd readings] <+: events → 2 ^ 64 ∣ reportedPages past

/-- Nothing ever resets the counter. -/
theorem pendingPages_reported (events : List Event) :
    (run sqrt maxTotalMem events).pendingPages = BitVec.ofNat 64 (reportedPages events) := by
  induction events using List.reverseRecOn with
  | nil => rfl
  | append_singleton events event ih =>
      have sum : reportedPages (events ++ [event]) = reportedPages events + reportedPages [event] := by
        rw [reportedPages, List.map_append, List.sum_append]
        rfl
      rw [run_snoc, sum, BitVec.ofNat_add, ← ih]
      cases event with
      | pending pages => simp [step, onPendingAllocation, reportedPages]
      | gcStart readings => simp [step, reportedPages]
      | gcEnd readings => simp [step, reportedPages]

theorem reported_zero_iff (events : List Event) :
    (run sqrt maxTotalMem events).pendingPages = 0 ↔ 2 ^ 64 ∣ reportedPages events := by
  rw [pendingPages_reported]
  constructor
  · intro zero
    have bits := congrArg BitVec.toNat zero
    rw [BitVec.toNat_ofNat] at bits
    exact Nat.dvd_of_mod_eq_zero bits
  · intro whole
    apply BitVec.eq_of_toNat_eq
    rw [BitVec.toNat_ofNat]
    exact Nat.mod_eq_zero_of_dvd whole

theorem pendingPages_openRequests (events : List Event)
    (settled : CompletesWithoutRequests events) :
    (run sqrt maxTotalMem events).pendingPages = openRequests events := by
  induction events using List.reverseRecOn with
  | nil => rfl
  | append_singleton events event ih =>
      have earlier : CompletesWithoutRequests events := by
        intro past readings before
        exact settled past readings (before.trans (List.prefix_append _ _))
      have counted := ih earlier
      rw [run_snoc]
      cases event with
      | pending pages => simp [step, onPendingAllocation, counted, openRequests]
      | gcStart readings => simp [step, counted, openRequests]
      | gcEnd readings =>
          have zero := (reported_zero_iff sqrt maxTotalMem events).mpr
            (settled events readings (List.prefix_refl _))
          simp [step, zero, openRequests]

theorem counts_open_requests_iff (events : List Event) :
    CountsOpenRequests sqrt maxTotalMem events ↔ CompletesWithoutRequests events := by
  constructor
  · intro counts past readings before
    have after := (counts _ before).1
    apply (reported_zero_iff sqrt maxTotalMem past).mp
    simpa [run_snoc, step, openRequests] using after
  · intro settled past before
    have earlier : CompletesWithoutRequests past := by
      intro front readings within
      exact settled front readings (within.trans before)
    have counted := pendingPages_openRequests sqrt maxTotalMem past earlier
    refine ⟨counted, fun reserved => ?_, fun readings => ?_, fun readings => ?_⟩
    · simp [isHeapFull, reservedPagesNow, counted]
    · simp [onGcStart, reservedPagesNow, counted]
    · simp [reservedPagesNow, counted]

/-- One failed request for a page, and the collection that it triggers. -/
def oneRequest : List Event :=
  [.pending 1, .gcStart ⟨10000, 5000000, none⟩, .gcEnd ⟨9000, 6000000, false, false⟩]

theorem oneRequest_counted_again : ¬ ∀ events, CountsOpenRequests (fun x => x) 0x200000000 events := by
  intro counts
  have kept := (counts oneRequest oneRequest (List.prefix_refl _)).1
  simp [oneRequest, run, step, onPendingAllocation, new, openRequests] at kept

end MmtkJulia.GcTrigger
