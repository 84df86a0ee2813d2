import MmtkJulia.GcTriggerPending
import MmtkJulia.GcTriggerTarget
import Mathlib.Analysis.Convex.Segment

/-! The smoothed statistics of the trigger over whole runs. -/

namespace MmtkJulia.GcTrigger

variable (sqrt : ℚ → ℚ) (maxTotalMem : Usize)

def clamped (observed : Usize) : Nat := max 1 (min observed.toNat (2 ^ 37))

theorem floor_mem {x : ℚ} {low high : Nat} (within : x ∈ Set.Icc (low : ℚ) (high : ℚ)) :
    ⌊x⌋₊ ∈ Set.Icc low high :=
  ⟨Nat.le_floor within.1, Nat.floor_le_of_le within.2⟩

theorem floor_mem_uIcc {x : ℚ} {a b : Nat} (within : x ∈ Set.uIcc (a : ℚ) (b : ℚ)) :
    ⌊x⌋₊ ∈ Set.uIcc a b := by
  rcases Set.mem_uIcc.mp within with ordered | reversed
  · exact Set.Icc_subset_uIcc (floor_mem ordered)
  · exact Set.Icc_subset_uIcc' (floor_mem reversed)

def weightedMean (oldVal newVal : Usize) (factor : ℚ) : ℚ :=
  factor * real oldVal + (1 - factor) * real newVal

theorem weightedMean_mem {factor : ℚ} (weight : factor ∈ Set.Icc (0 : ℚ) 1) (oldVal newVal : Usize) :
    weightedMean oldVal newVal factor ∈ Set.uIcc (real oldVal) (real newVal) := by
  have rest : 0 ≤ 1 - factor := sub_nonneg.mpr weight.2
  have whole : factor + (1 - factor) = 1 := by ring
  have low := Convex.min_le_combo (real oldVal) (real newVal) weight.1 rest whole
  have high := Convex.combo_le_max (real oldVal) (real newVal) weight.1 rest whole
  exact ⟨low, high⟩

theorem mmtkJlGcSmooth_cases (oldVal newVal : Usize) (factor : ℚ) :
    let mean := weightedMean oldVal newVal factor
    let estimate := (mmtkJlGcSmooth oldVal newVal factor).toNat
    (mean ≤ 1 ∧ estimate = 1) ∨ (2 ^ 37 < mean ∧ estimate = 2 ^ 37) ∨
      (1 < mean ∧ mean ≤ 2 ^ 37 ∧ estimate = ⌊mean⌋₊) := by
  intro mean estimate
  have bound : real (2 <<< 36) = 2 ^ 37 := by
    have bits : real (2 <<< 36) = ((2 ^ 37 : Nat) : ℚ) := rfl
    exact_mod_cast bits
  by_cases least : mean ≤ 1
  · exact .inl ⟨least, congrArg BitVec.toNat (if_pos least)⟩
  · by_cases most : mean > real (2 <<< 36)
    · refine .inr (.inl ⟨bound ▸ most, ?_⟩)
      exact congrArg BitVec.toNat ((if_neg least).trans (if_pos most))
    · have ceiling : mean ≤ 2 ^ 37 := bound ▸ not_lt.mp most
      have inner : estimate = (truncate mean).toNat :=
        congrArg BitVec.toNat ((if_neg least).trans (if_neg most))
      refine .inr (.inr ⟨not_le.mp least, ceiling, inner.trans (truncate_toNat ?_)⟩)
      exact lt_of_le_of_lt ceiling (by norm_num)

theorem mmtkJlGcSmooth_mem (oldVal newVal : Usize) (factor : ℚ) :
    (mmtkJlGcSmooth oldVal newVal factor).toNat ∈ Set.Icc 1 (2 ^ 37) := by
  rcases mmtkJlGcSmooth_cases oldVal newVal factor with
    ⟨_, least⟩ | ⟨_, most⟩ | ⟨above, below, inner⟩
  · rw [least]
    exact ⟨le_rfl, by norm_num⟩
  · rw [most]
    exact ⟨by norm_num, le_rfl⟩
  · rw [inner]
    apply floor_mem
    exact ⟨by exact_mod_cast above.le, by exact_mod_cast below⟩

theorem lt_of_real {n : Usize} (large : 2 ^ 37 < real n) : 2 ^ 37 < n.toNat := by
  have cast : (2 ^ 37 : ℚ) < (n.toNat : ℚ) := large
  exact_mod_cast cast

theorem mmtkJlGcSmooth_between {oldVal : Usize} {factor : ℚ}
    (bounded : oldVal.toNat ∈ Set.Icc 1 (2 ^ 37)) (weight : factor ∈ Set.Icc (0 : ℚ) 1)
    (newVal : Usize) :
    (mmtkJlGcSmooth oldVal newVal factor).toNat ∈ Set.uIcc oldVal.toNat (clamped newVal) := by
  have range := mmtkJlGcSmooth_mem oldVal newVal factor
  have within := weightedMean_mem weight oldVal newVal
  have mean := Set.mem_uIcc.mp within
  rw [Set.mem_Icc] at bounded range
  rw [Set.mem_uIcc, clamped]
  rcases mmtkJlGcSmooth_cases oldVal newVal factor with
    ⟨low, least⟩ | ⟨high, most⟩ | ⟨_, _, inner⟩
  · have passed : oldVal.toNat ≤ 1 ∨ newVal.toNat ≤ 1 := by
      rcases mean with ⟨start, _⟩ | ⟨start, _⟩
      · exact .inl (Nat.cast_le_one.mp (start.trans low))
      · exact .inr (Nat.cast_le_one.mp (start.trans low))
    omega
  · have passed : 2 ^ 37 < oldVal.toNat ∨ 2 ^ 37 < newVal.toNat := by
      rcases mean with ⟨_, stop⟩ | ⟨_, stop⟩
      · exact .inr (lt_of_real (high.trans_le stop))
      · exact .inl (lt_of_real (high.trans_le stop))
    omega
  · have floor := floor_mem_uIcc within
    rw [← inner, Set.mem_uIcc] at floor
    omega

structure Bounded (trigger : JuliaGCTrigger) : Prop where
  allocDiff : trigger.oldAllocDiff.toNat ∈ Set.Icc 1 (2 ^ 37)
  mutTime : trigger.oldMutTime.toNat ∈ Set.Icc 1 (2 ^ 37)
  freedDiff : trigger.oldFreedDiff.toNat ∈ Set.Icc 1 (2 ^ 37)
  pauseTime : trigger.oldPauseTime.toNat ∈ Set.Icc 1 (2 ^ 37)

theorem new_bounded : Bounded (new maxTotalMem) := by
  constructor <;> simp only [new, Set.mem_Icc] <;> decide

theorem updateHeapTarget_bounded (trigger : JuliaGCTrigger)
    (heapSize pause allocDiff freedDiff : Usize) :
    Bounded (updateHeapTarget sqrt trigger heapSize pause allocDiff freedDiff) where
  allocDiff := mmtkJlGcSmooth_mem _ _ _
  mutTime := mmtkJlGcSmooth_mem _ _ _
  freedDiff := mmtkJlGcSmooth_mem _ _ _
  pauseTime := mmtkJlGcSmooth_mem _ _ _

theorem onGcEnd_bounded {trigger : JuliaGCTrigger} (bounded : Bounded trigger)
    (readings : EndReadings) : Bounded (onGcEnd sqrt trigger readings).1 := by
  rcases bounded with ⟨allocDiff, mutTime, freedDiff, pauseTime⟩
  simp only [onGcEnd]
  split
  · exact updateHeapTarget_bounded sqrt _ _ _ _ _
  · exact ⟨allocDiff, mutTime, freedDiff, pauseTime⟩

theorem step_bounded {trigger : JuliaGCTrigger} (bounded : Bounded trigger) (event : Event) :
    Bounded (step sqrt trigger event) := by
  rcases bounded with ⟨allocDiff, mutTime, freedDiff, pauseTime⟩
  cases event with
  | pending pages => exact ⟨allocDiff, mutTime, freedDiff, pauseTime⟩
  | gcStart readings => exact ⟨allocDiff, mutTime, freedDiff, pauseTime⟩
  | gcEnd readings => exact onGcEnd_bounded sqrt ⟨allocDiff, mutTime, freedDiff, pauseTime⟩ readings

theorem run_bounded (events : List Event) : Bounded (run sqrt maxTotalMem events) := by
  induction events using List.reverseRecOn with
  | nil => exact new_bounded maxTotalMem
  | append_singleton events event ih =>
      rw [run_snoc]
      exact step_bounded sqrt ih event

/-- After an automatic collection each estimate lies between its old value and what the
collection observed, clamped. The differences wrap. -/
structure Smoothed (trigger : JuliaGCTrigger) (readings : EndReadings) (after : JuliaGCTrigger) :
    Prop where
  allocDiff : after.oldAllocDiff.toNat ∈ Set.uIcc trigger.oldAllocDiff.toNat
    (clamped (trigger.beforeFreeHeapSize - trigger.oldHeapSize))
  mutTime : after.oldMutTime.toNat ∈ Set.uIcc trigger.oldMutTime.toNat
    (clamped trigger.mutatorTime)
  freedDiff : after.oldFreedDiff.toNat ∈ Set.uIcc trigger.oldFreedDiff.toNat
    (clamped (trigger.beforeFreeHeapSize -
      pagesToBytes (reservedPagesNow trigger readings.reservedPages)))
  pauseTime : after.oldPauseTime.toNat ∈ Set.uIcc trigger.oldPauseTime.toNat
    (clamped (readings.now - trigger.gcStartTime))

theorem onGcEnd_smoothed {trigger : JuliaGCTrigger} (bounded : Bounded trigger)
    {readings : EndReadings} (auto : readings.userTriggered = false) :
    Smoothed trigger readings (onGcEnd sqrt trigger readings).1 := by
  have slow : allocSmoothFactor ∈ Set.Icc (0 : ℚ) 1 := by norm_num [allocSmoothFactor]
  have half : collectSmoothFactor ∈ Set.Icc (0 : ℚ) 1 := by norm_num [collectSmoothFactor]
  simp only [onGcEnd, auto, Bool.not_false, if_true]
  exact {
    allocDiff := mmtkJlGcSmooth_between bounded.allocDiff slow _
    mutTime := mmtkJlGcSmooth_between bounded.mutTime slow _
    freedDiff := mmtkJlGcSmooth_between bounded.freedDiff half _
    pauseTime := mmtkJlGcSmooth_between bounded.pauseTime half _ }

def allocRate (trigger : JuliaGCTrigger) : ℚ := real trigger.oldAllocDiff / real trigger.oldMutTime

def gcRate (trigger : JuliaGCTrigger) : ℚ := real trigger.oldFreedDiff / real trigger.oldPauseTime

def RateGuard (trigger : JuliaGCTrigger) : Prop :=
  trigger.oldAllocDiff ≠ 0 ∧ trigger.oldMutTime ≠ 0 ∧ trigger.oldFreedDiff ≠ 0 ∧
    trigger.oldPauseTime ≠ 0

theorem real_pos {n : Usize} (range : n.toNat ∈ Set.Icc 1 (2 ^ 37)) : 0 < real n := by
  exact Nat.cast_pos.mpr range.1

theorem ne_zero_of_range {n : Usize} (range : n.toNat ∈ Set.Icc 1 (2 ^ 37)) : n ≠ 0 := by
  intro zero
  have positive := range.1
  rw [zero] at positive
  exact absurd positive (by decide)

theorem Bounded.rateGuard {trigger : JuliaGCTrigger} (bounded : Bounded trigger) :
    RateGuard trigger :=
  ⟨ne_zero_of_range bounded.allocDiff, ne_zero_of_range bounded.mutTime,
    ne_zero_of_range bounded.freedDiff, ne_zero_of_range bounded.pauseTime⟩

theorem Bounded.gcRate_pos {trigger : JuliaGCTrigger} (bounded : Bounded trigger) :
    0 < gcRate trigger :=
  div_pos (real_pos bounded.freedDiff) (real_pos bounded.pauseTime)

theorem onGcEnd_rateEstimate {trigger : JuliaGCTrigger} (bounded : Bounded trigger)
    {readings : EndReadings} (auto : readings.userTriggered = false) :
    let heapSize := pagesToBytes (reservedPagesNow trigger readings.reservedPages)
    let after := (onGcEnd sqrt trigger readings).1
    after.heapTarget = truncate (targetHeap
      (targetAllocs sqrt (sqrt (real heapSize * allocRate after / gcRate after) * tuningFactor)
        after.thrashing heapSize trigger.beforeFreeHeapSize (userMax trigger)) heapSize) := by
  intro heapSize after
  have guard : RateGuard after := (onGcEnd_bounded sqrt bounded readings).rateGuard
  have estimate : rateEstimate sqrt heapSize after.oldAllocDiff after.oldMutTime
      after.oldFreedDiff after.oldPauseTime =
      sqrt (real heapSize * allocRate after / gcRate after) * tuningFactor := if_pos guard
  rw [← estimate]
  simp only [after, onGcEnd, auto, Bool.not_false, if_true]
  rfl

/-- The estimates stay in [1, 2^37] over every run, whatever the callbacks read. Each collection
that computes new ones moves them towards what it observed, and never divides by zero. -/
theorem smoothed_estimates (events : List Event) :
    let trigger := run sqrt maxTotalMem events
    Bounded trigger ∧
    ∀ readings : EndReadings, readings.userTriggered = false →
      let heapSize := pagesToBytes (reservedPagesNow trigger readings.reservedPages)
      let after := (onGcEnd sqrt trigger readings).1
      Smoothed trigger readings after ∧
      RateGuard after ∧
      real after.oldMutTime ≠ 0 ∧ real after.oldPauseTime ≠ 0 ∧ gcRate after ≠ 0 ∧
      after.heapTarget = truncate (targetHeap
        (targetAllocs sqrt (sqrt (real heapSize * allocRate after / gcRate after) * tuningFactor)
          after.thrashing heapSize trigger.beforeFreeHeapSize (userMax trigger)) heapSize) := by
  intro trigger
  have bounded : Bounded trigger := run_bounded sqrt maxTotalMem events
  refine ⟨bounded, fun readings auto => ?_⟩
  have next := onGcEnd_bounded sqrt bounded readings
  exact ⟨onGcEnd_smoothed sqrt bounded auto, next.rateGuard, (real_pos next.mutTime).ne',
    (real_pos next.pauseTime).ne', next.gcRate_pos.ne', onGcEnd_rateEstimate sqrt bounded auto⟩

/-- A collection that ends before the clock reading it started with: the pause wraps, and its
estimate rises towards the upper bound only. -/
theorem smoothed_estimates_wrapped :
    (onGcEnd (fun x => x) (run (fun x => x) 0x200000000 [.gcStart ⟨9000, 5, none⟩])
      ⟨9000, 4, false, false⟩).1.oldPauseTime.toNat ∈ Set.uIcc 10000000 (2 ^ 37) :=
  ((smoothed_estimates (fun x => x) 0x200000000 [.gcStart ⟨9000, 5, none⟩]).2
    ⟨9000, 4, false, false⟩ rfl).1.pauseTime

end MmtkJulia.GcTrigger
