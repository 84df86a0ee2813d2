import MmtkJulia.GcTriggerThrashing

/-! The subtractions of the trigger's accounting over whole runs. -/

namespace MmtkJulia.GcTrigger

def Event.time : Event → Option Usize
  | .pending _ => none
  | .gcStart readings => some readings.now
  | .gcEnd readings => some readings.now

def Chronological (events : List Event) : Prop :=
  (events.filterMap Event.time).Pairwise (· ≤ ·)

/-- Every usize subtraction of the callback has a first operand that is large enough. The
subtraction of on_gc_start is made only after a first collection. -/
def Subtracts (trigger : JuliaGCTrigger) : Event → Prop
  | .pending _ => True
  | .gcStart readings => trigger.gcEndTime ≠ 0 → trigger.gcEndTime ≤ readings.now
  | .gcEnd readings =>
      trigger.gcStartTime ≤ readings.now ∧
      trigger.oldHeapSize ≤ trigger.beforeFreeHeapSize ∧
      pagesToBytes (reservedPagesNow trigger readings.reservedPages) ≤ trigger.beforeFreeHeapSize

def NeverUnderflows (sqrt : ℚ → ℚ) (maxTotalMem : Usize) (events : List Event) : Prop :=
  ∀ past event, past ++ [event] <+: events → Subtracts (run sqrt maxTotalMem past) event

def countedPages (reservedPages : Usize) (requested : Nat) : Nat :=
  (reservedPages.toNat + requested) % 2 ^ 52

/-- What the readings of a run say: the pages requested so far, and the pages counted at the last
start and at the last end of a collection. -/
structure Ledger where
  requested : Nat
  atStart : Nat
  atEnd : Nat
  deriving DecidableEq, Repr

def Ledger.next (entries : Ledger) : Event → Ledger
  | .pending pages => { entries with requested := entries.requested + pages.toNat }
  | .gcStart readings =>
      { entries with atStart := countedPages readings.reservedPages entries.requested }
  | .gcEnd readings =>
      { entries with atEnd := countedPages readings.reservedPages entries.requested }

def ledger (events : List Event) : Ledger := events.foldl Ledger.next ⟨0, 0, 0⟩

/-- No collection ends with more pages than it started with, and none starts with fewer pages
than the one before it ended with. -/
def NeverShrinks (events : List Event) : Prop :=
  ∀ past readings, past ++ [.gcEnd readings] <+: events →
    (ledger past).atEnd ≤ (ledger past).atStart ∧
    countedPages readings.reservedPages (ledger past).requested ≤ (ledger past).atStart

theorem ledger_snoc (events : List Event) (event : Event) :
    ledger (events ++ [event]) = (ledger events).next event := by
  simp [ledger]

theorem pagesToBytes_counted (reservedPages : Usize) (requested : Nat) :
    (pagesToBytes (reservedPages + BitVec.ofNat 64 requested)).toNat =
      countedPages reservedPages requested * 4096 := by
  rw [pagesToBytes, countedPages, BitVec.toNat_shiftLeft, BitVec.toNat_add, BitVec.toNat_ofNat,
    Nat.shiftLeft_eq]
  omega

variable (sqrt : ℚ → ℚ) (maxTotalMem : Usize)

structure Recorded (entries : Ledger) (trigger : JuliaGCTrigger) : Prop where
  requested : trigger.pendingPages = BitVec.ofNat 64 entries.requested
  atStart : trigger.beforeFreeHeapSize.toNat = entries.atStart * 4096
  atEnd : trigger.oldHeapSize.toNat = entries.atEnd * 4096

theorem Recorded.bytes {entries : Ledger} {trigger : JuliaGCTrigger}
    (recorded : Recorded entries trigger) (reservedPages : Usize) :
    (pagesToBytes (reservedPagesNow trigger reservedPages)).toNat =
      countedPages reservedPages entries.requested * 4096 := by
  rw [reservedPagesNow, recorded.requested, pagesToBytes_counted]

theorem Recorded.step {entries : Ledger} {trigger : JuliaGCTrigger}
    (recorded : Recorded entries trigger) (event : Event) :
    Recorded (entries.next event) (step sqrt trigger event) := by
  cases event with
  | pending pages =>
      have sum : trigger.pendingPages + pages =
          BitVec.ofNat 64 (entries.requested + pages.toNat) := by
        rw [recorded.requested, BitVec.ofNat_add, BitVec.ofNat_toNat, BitVec.setWidth_eq]
      exact ⟨sum, recorded.atStart, recorded.atEnd⟩
  | gcStart readings =>
      exact ⟨recorded.requested, recorded.bytes readings.reservedPages, recorded.atEnd⟩
  | gcEnd readings =>
      constructor
      · simpa [GcTrigger.step, Ledger.next] using recorded.requested
      · simpa [GcTrigger.step, Ledger.next] using recorded.atStart
      · simpa [GcTrigger.step, Ledger.next] using recorded.bytes readings.reservedPages

theorem run_recorded (events : List Event) :
    Recorded (ledger events) (run sqrt maxTotalMem events) := by
  induction events using List.reverseRecOn with
  | nil => exact ⟨rfl, rfl, rfl⟩
  | append_singleton events event ih =>
      rw [run_snoc, ledger_snoc]
      exact ih.step sqrt event

theorem run_times_le (events : List Event) (time : Usize)
    (latest : ∀ earlier ∈ events.filterMap Event.time, earlier ≤ time) :
    (run sqrt maxTotalMem events).gcStartTime ≤ time ∧
      (run sqrt maxTotalMem events).gcEndTime ≤ time := by
  induction events using List.reverseRecOn with
  | nil => exact ⟨BitVec.le_def.mpr (Nat.zero_le _), BitVec.le_def.mpr (Nat.zero_le _)⟩
  | append_singleton events event ih =>
      have before : ∀ earlier ∈ events.filterMap Event.time, earlier ≤ time := by
        intro earlier member
        apply latest
        rw [List.filterMap_append]
        exact List.mem_append_left _ member
      have now : ∀ reading, event.time = some reading → reading ≤ time := by
        intro reading read
        apply latest
        simp [read]
      obtain ⟨started, ended⟩ := ih before
      rw [run_snoc]
      cases event with
      | pending pages => exact ⟨started, ended⟩
      | gcStart readings => exact ⟨now readings.now rfl, ended⟩
      | gcEnd readings =>
          constructor
          · simpa [step] using started
          · simpa [step] using now readings.now rfl

theorem Chronological.latest {past events : List Event} {event : Event}
    (chronological : Chronological events) (within : past ++ [event] <+: events) {reading : Usize}
    (read : event.time = some reading) : ∀ earlier ∈ past.filterMap Event.time, earlier ≤ reading := by
  obtain ⟨rest, rfl⟩ := within
  have sorted := chronological
  rw [Chronological, List.filterMap_append, List.filterMap_append] at sorted
  have front := (List.pairwise_append.mp sorted).1
  intro earlier member
  exact (List.pairwise_append.mp front).2.2 earlier member reading (by simp [read])

theorem le_iff_pages {a b : Usize} {m n : Nat} (first : a.toNat = m * 4096) (second : b.toNat = n * 4096) :
    a ≤ b ↔ m ≤ n := by
  rw [BitVec.le_def, first, second]
  omega

theorem subtracts_iff {past events : List Event} (chronological : Chronological events)
    {readings : EndReadings} (within : past ++ [.gcEnd readings] <+: events) :
    Subtracts (run sqrt maxTotalMem past) (.gcEnd readings) ↔
      (ledger past).atEnd ≤ (ledger past).atStart ∧
      countedPages readings.reservedPages (ledger past).requested ≤ (ledger past).atStart := by
  have recorded := run_recorded sqrt maxTotalMem past
  have started := (run_times_le sqrt maxTotalMem past readings.now
    (chronological.latest within rfl)).1
  have old := le_iff_pages recorded.atEnd recorded.atStart
  have new := le_iff_pages (recorded.bytes readings.reservedPages) recorded.atStart
  rw [Subtracts, old, new]
  exact and_iff_right started

theorem never_underflows_iff (events : List Event) (chronological : Chronological events) :
    NeverUnderflows sqrt maxTotalMem events ↔ NeverShrinks events := by
  constructor
  · intro safe past readings within
    exact (subtracts_iff sqrt maxTotalMem chronological within).mp (safe past _ within)
  · intro grows past event within
    cases event with
    | pending pages => trivial
    | gcStart readings =>
        intro _
        exact (run_times_le sqrt maxTotalMem past readings.now
          (chronological.latest within rfl)).2
    | gcEnd readings =>
        exact (subtracts_iff sqrt maxTotalMem chronological within).mpr (grows past readings within)

/-- A run of two collections, with 1000 pages of malloced memory freed between them. -/
def mallocedFreed : List Event :=
  [.gcStart ⟨10000, 5000000, none⟩, .gcEnd ⟨9000, 6000000, false, false⟩,
    .gcStart ⟨8000, 7000000, none⟩, .gcEnd ⟨7500, 8000000, false, false⟩]

theorem mallocedFreed_chronological : Chronological mallocedFreed := by
  simp [Chronological, mallocedFreed, Event.time]

theorem never_underflows_iff_mallocedFreed :
    NeverUnderflows (fun x => x) 0x200000000 mallocedFreed ↔ NeverShrinks mallocedFreed :=
  never_underflows_iff (fun x => x) 0x200000000 mallocedFreed mallocedFreed_chronological

theorem mallocedFreed_underflows : ¬ ∀ sqrt maxTotalMem events, Chronological events →
    NeverUnderflows sqrt maxTotalMem events := by
  intro safe
  have subtracts := (safe (fun x => x) 0x200000000 mallocedFreed mallocedFreed_chronological
    (mallocedFreed.take 3) (.gcEnd ⟨7500, 8000000, false, false⟩) (List.prefix_refl _)).2.1
  have old : (run (fun x => x) 0x200000000 (mallocedFreed.take 3)).oldHeapSize =
      pagesToBytes 9000 := by
    simp [mallocedFreed, run, step, onGcStart, reservedPagesNow, new]
  have before : (run (fun x => x) 0x200000000 (mallocedFreed.take 3)).beforeFreeHeapSize =
      pagesToBytes 8000 := by
    simp [mallocedFreed, run, step, onGcStart, reservedPagesNow, new]
  rw [old, before] at subtracts
  revert subtracts
  decide

end MmtkJulia.GcTrigger
