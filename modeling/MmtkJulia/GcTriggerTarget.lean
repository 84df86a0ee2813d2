import MmtkJulia.GcTrigger
import Mathlib.Algebra.Order.Floor.Semiring
import Mathlib.Tactic

/-! The guardrails of the heap target that on_gc_end computes. -/

namespace MmtkJulia.GcTrigger

variable (sqrt : ℚ → ℚ)

theorem real_le {a b : Usize} : real a ≤ real b ↔ a ≤ b := by
  simp [real, BitVec.le_def]

theorem truncate_toNat {x : ℚ} (below : x < 2 ^ 64) : (truncate x).toNat = ⌊x⌋₊ := by
  have small : ⌊x⌋₊ < 2 ^ 64 := Nat.floor_lt' (by norm_num) |>.mpr (by exact_mod_cast below)
  rw [truncate, Int.floor_toNat, BitVec.toNat_ofNat, Nat.min_eq_left (by omega)]
  exact Nat.mod_eq_of_lt small

theorem pagesToBytes_toNat {pages more : Usize} (fits : (pages.toNat + more.toNat) * 4096 < 2 ^ 64) :
    (pagesToBytes (pages + more)).toNat = (pages.toNat + more.toNat) * 4096 := by
  rw [pagesToBytes, BitVec.toNat_shiftLeft, BitVec.toNat_add, Nat.shiftLeft_eq]
  omega

theorem minTargetAllocs_toNat (heapSize : Usize) :
    (minTargetAllocs heapSize).toNat =
      max (heapSize.toNat / 20) (defaultCollectInterval.toNat / 8) := by
  rw [minTargetAllocs]
  split
  · next small =>
      rw [BitVec.lt_def, BitVec.toNat_udiv, BitVec.toNat_udiv] at small
      rw [BitVec.toNat_udiv]
      exact (max_eq_right small.le).symm
  · next large =>
      rw [BitVec.lt_def, BitVec.toNat_udiv, BitVec.toNat_udiv] at large
      rw [BitVec.toNat_udiv]
      exact (max_eq_left (not_lt.mp large)).symm

theorem maxTargetAllocs_toNat (beforeFreeHeapSize heapSize userMax : Usize) :
    (maxTargetAllocs beforeFreeHeapSize heapSize userMax).toNat =
      max (minTargetAllocs heapSize).toNat
        (mmtkOverallocation beforeFreeHeapSize heapSize userMax).toNat := by
  rw [maxTargetAllocs]
  split
  · next small => exact (max_eq_left (BitVec.lt_def.mp small).le).symm
  · next large => exact (max_eq_right (not_lt.mp (fun below => large (BitVec.lt_def.mpr below)))).symm

theorem min_le_maxTargetAllocs (beforeFreeHeapSize heapSize userMax : Usize) :
    minTargetAllocs heapSize ≤ maxTargetAllocs beforeFreeHeapSize heapSize userMax := by
  rw [BitVec.le_def, maxTargetAllocs_toNat]
  exact le_max_left _ _

/-- The minimum is applied last, so it wins where the two limits cross. -/
theorem rateLimit_bounds (allocs : ℚ) {minAllocs maxAllocs : Usize} (ordered : minAllocs ≤ maxAllocs) :
    real minAllocs ≤ rateLimit allocs minAllocs maxAllocs ∧
      rateLimit allocs minAllocs maxAllocs ≤ real maxAllocs := by
  have crossing := real_le.mpr ordered
  simp only [rateLimit]
  split_ifs <;> constructor <;> linarith

theorem rateLimit_le (allocs : ℚ) (minAllocs maxAllocs : Usize) :
    rateLimit allocs minAllocs maxAllocs ≤ max allocs (real minAllocs) := by
  simp only [rateLimit]
  split_ifs with above below below
  · exact le_max_right _ _
  · exact le_max_of_le_left above.le
  · exact le_max_right _ _
  · exact le_max_left _ _

theorem limitToUser_le (estimate : ℚ) (heapSize userMax : Usize) :
    limitToUser estimate heapSize userMax + real heapSize ≤
      max (real userMax) (real heapSize + 1) := by
  simp only [limitToUser]
  split_ifs with above room
  · exact le_max_of_le_left (by linarith)
  · exact le_max_of_le_right (by linarith)
  · exact le_max_of_le_left (not_lt.mp above)

theorem one_le_minTargetAllocs (heapSize : Usize) : 1 ≤ real (minTargetAllocs heapSize) := by
  have least : 1 ≤ (minTargetAllocs heapSize).toNat := by
    rw [minTargetAllocs_toNat]
    exact le_max_of_le_right (by decide)
  simpa [real] using least

theorem targetAllocs_bounds (estimate : ℚ) (thrashing heapSize beforeFreeHeapSize userMax : Usize) :
    real (minTargetAllocs heapSize) ≤
        targetAllocs sqrt estimate thrashing heapSize beforeFreeHeapSize userMax ∧
      targetAllocs sqrt estimate thrashing heapSize beforeFreeHeapSize userMax ≤
        real (maxTargetAllocs beforeFreeHeapSize heapSize userMax) :=
  rateLimit_bounds _ (min_le_maxTargetAllocs _ _ _)

theorem targetAllocs_within_user (estimate : ℚ) (heapSize beforeFreeHeapSize userMax : Usize) :
    targetAllocs sqrt estimate 0 heapSize beforeFreeHeapSize userMax + real heapSize ≤
      max (real userMax) (real heapSize + real (minTargetAllocs heapSize)) := by
  have limited := limitToUser_le estimate heapSize userMax
  have least := one_le_minTargetAllocs heapSize
  have clamped := rateLimit_le (limitToUser estimate heapSize userMax) (minTargetAllocs heapSize)
    (maxTargetAllocs beforeFreeHeapSize heapSize userMax)
  simp only [targetAllocs, raiseForThrashing, ne_eq, not_true_eq_false, if_false]
  rcases le_max_iff.mp clamped with low | low <;> rcases le_max_iff.mp limited with user | user
  · exact le_max_of_le_left (by linarith)
  · exact le_max_of_le_right (by linarith)
  · exact le_max_of_le_right (by linarith)
  · exact le_max_of_le_right (by linarith)

theorem targetHeap_eq (allocs : ℚ) (heapSize : Usize) :
    targetHeap allocs heapSize = max (real defaultCollectInterval) (real heapSize + allocs) := by
  rw [targetHeap, add_comm allocs]
  split_ifs with low
  · exact (max_eq_left low.le).symm
  · exact (max_eq_right (not_lt.mp low)).symm

def heapBytes (trigger : JuliaGCTrigger) (reservedPages : Usize) : Nat :=
  (reservedPages.toNat + trigger.pendingPages.toNat) * 4096

/-- A twentieth of the heap, but no less than an eighth of the default interval. -/
def leastAllocs (heap : Nat) : Nat := max (heap / 20) (defaultCollectInterval.toNat / 8)

def mostAllocs (trigger : JuliaGCTrigger) (heap : Nat) : Nat :=
  max (leastAllocs heap)
    (mmtkOverallocation trigger.beforeFreeHeapSize (BitVec.ofNat 64 heap) (userMax trigger)).toNat

theorem reservedBytes_toNat {trigger : JuliaGCTrigger} {reservedPages : Usize}
    (fits : heapBytes trigger reservedPages < 2 ^ 64) :
    (pagesToBytes (reservedPagesNow trigger reservedPages)).toNat = heapBytes trigger reservedPages :=
  pagesToBytes_toNat fits

theorem mostAllocs_eq {trigger : JuliaGCTrigger} {reservedPages : Usize}
    (fits : heapBytes trigger reservedPages < 2 ^ 64) :
    (maxTargetAllocs trigger.beforeFreeHeapSize
      (pagesToBytes (reservedPagesNow trigger reservedPages)) (userMax trigger)).toNat =
      mostAllocs trigger (heapBytes trigger reservedPages) := by
  have bytes := reservedBytes_toNat fits
  have word : BitVec.ofNat 64 (heapBytes trigger reservedPages) =
      pagesToBytes (reservedPagesNow trigger reservedPages) := by
    rw [← bytes, BitVec.ofNat_toNat, BitVec.setWidth_eq]
  rw [maxTargetAllocs_toNat, minTargetAllocs_toNat, bytes, mostAllocs, leastAllocs, word]

theorem onGcEnd_user_heapTarget (trigger : JuliaGCTrigger) (readings : EndReadings)
    (forced : readings.userTriggered = true) :
    (onGcEnd sqrt trigger readings).1.heapTarget = trigger.heapTarget := by
  simp [onGcEnd, forced]

theorem onGcEnd_auto_heapTarget (trigger : JuliaGCTrigger) (readings : EndReadings)
    (auto : readings.userTriggered = false) :
    let heapSize := pagesToBytes (reservedPagesNow trigger readings.reservedPages)
    let after := (onGcEnd sqrt trigger readings).1
    ∃ estimate : ℚ, after.heapTarget = truncate (targetHeap
      (targetAllocs sqrt estimate after.thrashing heapSize trigger.beforeFreeHeapSize
        (userMax trigger)) heapSize) := by
  simp only [onGcEnd, auto, Bool.not_false, if_true]
  exact ⟨_, rfl⟩

theorem onGcEnd_step (trigger : JuliaGCTrigger) (readings : EndReadings)
    (auto : readings.userTriggered = false) :
    let heap := heapBytes trigger readings.reservedPages
    let after := (onGcEnd sqrt trigger readings).1
    heap + mostAllocs trigger heap < 2 ^ 64 →
    ∃ t : ℚ, leastAllocs heap ≤ t ∧ t ≤ mostAllocs trigger heap ∧
      (after.thrashing = 0 → t + heap ≤ max ((userMax trigger).toNat : ℚ) (heap + leastAllocs heap)) ∧
      after.heapTarget.toNat = ⌊max (defaultCollectInterval.toNat : ℚ) (heap + t)⌋₊ := by
  intro heap after fits
  have heapFits : heap < 2 ^ 64 := lt_of_le_of_lt (Nat.le_add_right _ _) fits
  obtain ⟨estimate, target⟩ := onGcEnd_auto_heapTarget sqrt trigger readings auto
  have least := minTargetAllocs_toNat (pagesToBytes (reservedPagesNow trigger readings.reservedPages))
  have most := mostAllocs_eq heapFits
  have bytes := reservedBytes_toNat heapFits
  rw [bytes] at least
  have bounds := targetAllocs_bounds sqrt estimate after.thrashing
    (pagesToBytes (reservedPagesNow trigger readings.reservedPages)) trigger.beforeFreeHeapSize
    (userMax trigger)
  simp only [real, least, most] at bounds
  refine ⟨_, bounds.1, bounds.2, fun calm => ?_, ?_⟩
  · have within := targetAllocs_within_user sqrt estimate
      (pagesToBytes (reservedPagesNow trigger readings.reservedPages)) trigger.beforeFreeHeapSize
      (userMax trigger)
    simp only [real, least, bytes] at within
    rw [calm]
    exact within
  · rw [target, truncate_toNat, targetHeap_eq, real, real, bytes]
    rw [targetHeap_eq, real, real, bytes]
    apply max_lt
    · exact_mod_cast (by decide : defaultCollectInterval.toNat < 2 ^ 64)
    · calc (heap : ℚ) + _ ≤ heap + mostAllocs trigger heap := by linarith [bounds.2]
        _ < 2 ^ 64 := by exact_mod_cast fits

theorem one_le_leastAllocs (heap : Nat) : 1 ≤ leastAllocs heap :=
  le_max_of_le_right (by decide)

/-- The new target is the heap plus a step between the two rate limits, it respects the user
limit unless the minimum step breaks it, and the collection leaves the heap below it. -/
theorem heap_target_guardrails (trigger : JuliaGCTrigger) (readings : EndReadings) :
    let heap := heapBytes trigger readings.reservedPages
    let after := (onGcEnd sqrt trigger readings).1
    (readings.userTriggered = true → after.heapTarget = trigger.heapTarget) ∧
    (readings.userTriggered = false → heap + mostAllocs trigger heap < 2 ^ 64 →
      (∃ t : ℚ, leastAllocs heap ≤ t ∧ t ≤ mostAllocs trigger heap ∧
        after.heapTarget.toNat = ⌊max (defaultCollectInterval.toNat : ℚ) (heap + t)⌋₊) ∧
      (after.thrashing = 0 → after.heapTarget.toNat ≤
        max (userMax trigger).toNat (max (heap + leastAllocs heap) defaultCollectInterval.toNat)) ∧
      isHeapFull after readings.reservedPages = false) := by
  intro heap after
  refine ⟨onGcEnd_user_heapTarget sqrt trigger readings, fun auto fits => ?_⟩
  obtain ⟨t, least, most, within, floor⟩ := onGcEnd_step sqrt trigger readings auto fits
  refine ⟨⟨t, least, most, floor⟩, fun calm => ?_, ?_⟩
  · rw [floor]
    apply Nat.floor_le_of_le
    push_cast
    apply max_le
    · exact le_max_of_le_right (le_max_right _ _)
    · rw [add_comm]
      exact (within calm).trans (max_le_max le_rfl (le_max_left _ _))
  · have step : (1 : ℚ) ≤ t := le_trans (by exact_mod_cast one_le_leastAllocs heap) least
    have room : heap < after.heapTarget.toNat := by
      rw [floor]
      apply Nat.lt_of_succ_le
      apply Nat.le_floor
      push_cast
      exact le_max_of_le_right (by linarith)
    have same : reservedPagesNow after readings.reservedPages =
        reservedPagesNow trigger readings.reservedPages := by
      simp [after, reservedPagesNow, onGcEnd, auto, updateHeapTarget]
    have bytes := reservedBytes_toNat (lt_of_le_of_lt (Nat.le_add_right _ _) fits)
    rw [isHeapFull, same, decide_eq_false_iff_not, ge_iff_le, BitVec.not_le, BitVec.lt_def]
    exact bytes.symm ▸ room

/-- The first collection of a program with an 8 GiB limit. -/
theorem heap_target_guardrails_first :
    isHeapFull (onGcEnd (fun x => x) (new 0x200000000) ⟨9000, 6000000, false, false⟩).1 9000 = false :=
  ((heap_target_guardrails (fun x => x) (new 0x200000000) ⟨9000, 6000000, false, false⟩).2 rfl
    (by decide)).2.2

end MmtkJulia.GcTrigger
