import MmtkJulia.GcTriggerLedger
import MmtkJulia.GcTriggerTarget

/-! The heap target and the advertised heap limit over whole runs. -/

namespace MmtkJulia.GcTrigger

theorem truncate_toNat_min (x : ℚ) : (truncate x).toNat = min ⌊x⌋₊ (2 ^ 64 - 1) := by
  rw [truncate, Int.floor_toNat, BitVec.toNat_ofNat]
  apply Nat.mod_eq_of_lt
  omega

theorem userMax_le (trigger : JuliaGCTrigger) :
    (userMax trigger).toNat ≤ trigger.maxTotalMemory.toNat := by
  calc
    (userMax trigger).toNat = trigger.maxTotalMemory.toNat * 80 % 2 ^ 64 / 100 := by
      rw [userMax, BitVec.toNat_udiv, BitVec.toNat_mul]
      rfl
    _ ≤ trigger.maxTotalMemory.toNat * 80 / 100 := Nat.div_le_div_right (Nat.mod_le _ _)
    _ ≤ trigger.maxTotalMemory.toNat := by omega

/-- The least target that an automatic collection can set: the minimum step above its heap, as
far as a usize holds it. -/
def leastTarget (heap : Nat) : Nat := min (heap + leastAllocs heap) (2 ^ 64 - 1)

theorem floor_target_bounds (floor : Nat) {t : ℚ} {heap step most : Nat} (least : (step : ℚ) ≤ t)
    (greatest : t + heap ≤ max (most : ℚ) (heap + step)) :
    max floor (heap + step) ≤ ⌊max (floor : ℚ) (heap + t)⌋₊ ∧
      ⌊max (floor : ℚ) (heap + t)⌋₊ ≤ max floor (max most (heap + step)) := by
  constructor
  · apply Nat.le_floor
    push_cast
    exact max_le_max le_rfl (by linarith)
  · apply Nat.floor_le_of_le
    push_cast
    exact max_le_max le_rfl (by linarith)

section Bounds

variable (sqrt : ℚ → ℚ) {trigger : JuliaGCTrigger} {readings : EndReadings} {heap : Nat}

theorem onGcEnd_target_bounds (auto : readings.userTriggered = false) (calm : Calm trigger)
    (bytes : (pagesToBytes (reservedPagesNow trigger readings.reservedPages)).toNat = heap) :
    let target := (onGcEnd sqrt trigger readings).1.heapTarget.toNat
    max defaultCollectInterval.toNat (leastTarget heap) ≤ target ∧
      target ≤ max (userMax trigger).toNat (max defaultCollectInterval.toNat (leastTarget heap)) := by
  intro target
  obtain ⟨estimate, set⟩ := onGcEnd_auto_heapTarget sqrt trigger readings auto
  rw [(onGcEnd_calm sqrt calm readings).flag, targetHeap_eq] at set
  have least := minTargetAllocs_toNat (pagesToBytes (reservedPagesNow trigger readings.reservedPages))
  rw [bytes] at least
  have bounds := (targetAllocs_bounds sqrt estimate 0
    (pagesToBytes (reservedPagesNow trigger readings.reservedPages)) trigger.beforeFreeHeapSize
    (userMax trigger)).1
  have within := targetAllocs_within_user sqrt estimate
    (pagesToBytes (reservedPagesNow trigger readings.reservedPages)) trigger.beforeFreeHeapSize
    (userMax trigger)
  simp only [real, least, bytes] at bounds within
  obtain ⟨lower, upper⟩ := floor_target_bounds defaultCollectInterval.toNat bounds within
  have stored : target = min ⌊max (real defaultCollectInterval) _⌋₊ (2 ^ 64 - 1) :=
    (congrArg BitVec.toNat set).trans (truncate_toNat_min _)
  have interval : defaultCollectInterval.toNat = 45875200 := rfl
  have userBound := (userMax trigger).isLt
  simp only [real, bytes] at stored
  rw [stored, leastTarget, leastAllocs]
  omega

def WithinLimit (trigger : JuliaGCTrigger) : Prop :=
  getCurrentHeapSizeInPages trigger ≤ getMaxHeapSizeInPages trigger

theorem withinLimit_iff (trigger : JuliaGCTrigger) :
    WithinLimit trigger ↔ trigger.heapTarget.toNat / 4096 ≤ trigger.maxTotalMemory.toNat / 4096 := by
  rw [WithinLimit, BitVec.le_def, getCurrentHeapSizeInPages, getMaxHeapSizeInPages,
    BitVec.toNat_udiv, BitVec.toNat_udiv]
  rfl

theorem onGcEnd_withinLimit_iff (auto : readings.userTriggered = false) (calm : Calm trigger)
    (bytes : (pagesToBytes (reservedPagesNow trigger readings.reservedPages)).toNat = heap) :
    WithinLimit (onGcEnd sqrt trigger readings).1 ↔
      defaultCollectInterval.toNat / 4096 ≤ trigger.maxTotalMemory.toNat / 4096 ∧
      leastTarget heap / 4096 ≤ trigger.maxTotalMemory.toNat / 4096 := by
  have bounds := onGcEnd_target_bounds sqrt auto calm bytes
  have user := userMax_le trigger
  rw [withinLimit_iff, onGcEnd_maxTotalMemory]
  dsimp only at bounds
  omega

end Bounds

variable (sqrt : ℚ → ℚ) (maxTotalMem : Usize)

theorem run_maxTotalMemory (events : List Event) :
    (run sqrt maxTotalMem events).maxTotalMemory = maxTotalMem := by
  induction events using List.reverseRecOn with
  | nil => rfl
  | append_singleton events event ih =>
      rw [run_snoc]
      cases event with
      | pending pages => exact ih
      | gcStart readings => exact ih
      | gcEnd readings => simpa [step] using ih

/-- The limit is above the two floors: the default interval, and at every automatic collection
of the run the minimum step above its heap. -/
def LimitAboveFloors (events : List Event) : Prop :=
  defaultCollectInterval.toNat / 4096 ≤ maxTotalMem.toNat / 4096 ∧
  ∀ past readings, past ++ [.gcEnd readings] <+: events → readings.userTriggered = false →
    leastTarget (countedPages readings.reservedPages (ledger past).requested * 4096) / 4096 ≤
      maxTotalMem.toNat / 4096

theorem target_within_limit_iff (events : List Event) :
    (∀ past, past <+: events → WithinLimit (run sqrt maxTotalMem past)) ↔
      LimitAboveFloors maxTotalMem events := by
  have collected : ∀ past readings, readings.userTriggered = false →
      (WithinLimit (run sqrt maxTotalMem (past ++ [.gcEnd readings])) ↔
        defaultCollectInterval.toNat / 4096 ≤ maxTotalMem.toNat / 4096 ∧
        leastTarget (countedPages readings.reservedPages (ledger past).requested * 4096) / 4096 ≤
          maxTotalMem.toNat / 4096) := by
    intro past readings auto
    have bytes := (run_recorded sqrt maxTotalMem past).bytes readings.reservedPages
    have exact := onGcEnd_withinLimit_iff sqrt auto (run_calm sqrt maxTotalMem past) bytes
    rw [run_maxTotalMemory] at exact
    rw [run_snoc]
    exact exact
  constructor
  · intro within
    constructor
    · exact (withinLimit_iff _).mp (within [] (List.nil_prefix))
    · intro past readings before auto
      exact ((collected past readings auto).mp (within _ before)).2
  · rintro ⟨interval, floors⟩ past before
    induction past using List.reverseRecOn with
    | nil => exact (withinLimit_iff _).mpr interval
    | append_singleton past event ih =>
        have earlier := ih ((List.prefix_append past [event]).trans before)
        cases event with
        | pending pages =>
            rw [run_snoc]
            exact earlier
        | gcStart readings =>
            rw [run_snoc]
            exact earlier
        | gcEnd readings =>
            cases user : readings.userTriggered with
            | true =>
                rw [withinLimit_iff, run_snoc, step, onGcEnd_user_heapTarget sqrt _ _ user,
                  onGcEnd_maxTotalMemory]
                exact (withinLimit_iff _).mp earlier
            | false =>
                exact (collected past readings user).mpr ⟨interval, floors past readings before user⟩

/-- A limit of 16 MiB is below the initial target. -/
theorem small_limit_exceeded : ¬ ∀ sqrt maxTotalMem events,
    WithinLimit (run sqrt maxTotalMem events) := by
  intro within
  have initial := within (fun x => x) 0x1000000 []
  revert initial
  simp only [WithinLimit, run, List.foldl_nil]
  decide

end MmtkJulia.GcTrigger
