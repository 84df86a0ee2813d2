import MmtkJulia.GcTriggerPending

/-! The thrashing estimator over whole runs of the trigger. -/

namespace MmtkJulia.GcTrigger

variable (sqrt : ℚ → ℚ) (maxTotalMem : Usize)

@[simp] theorem onGcStart_thrashing (trigger : JuliaGCTrigger) (readings : StartReadings) :
    (onGcStart trigger readings).thrashing = trigger.thrashing := rfl

@[simp] theorem onGcStart_thrashCounter (trigger : JuliaGCTrigger) (readings : StartReadings) :
    (onGcStart trigger readings).thrashCounter = trigger.thrashCounter := rfl

@[simp] theorem onGcEnd_gcStartTime (trigger : JuliaGCTrigger) (readings : EndReadings) :
    (onGcEnd sqrt trigger readings).1.gcStartTime = trigger.gcStartTime := by
  cases user : readings.userTriggered <;> simp [onGcEnd, updateHeapTarget, user]

@[simp] theorem onGcEnd_gcEndTime (trigger : JuliaGCTrigger) (readings : EndReadings) :
    (onGcEnd sqrt trigger readings).1.gcEndTime = readings.now := by
  cases user : readings.userTriggered <;> simp [onGcEnd, updateHeapTarget, user]

@[simp] theorem onGcEnd_beforeFreeHeapSize (trigger : JuliaGCTrigger) (readings : EndReadings) :
    (onGcEnd sqrt trigger readings).1.beforeFreeHeapSize = trigger.beforeFreeHeapSize := by
  cases user : readings.userTriggered <;> simp [onGcEnd, updateHeapTarget, user]

@[simp] theorem onGcEnd_maxTotalMemory (trigger : JuliaGCTrigger) (readings : EndReadings) :
    (onGcEnd sqrt trigger readings).1.maxTotalMemory = trigger.maxTotalMemory := by
  cases user : readings.userTriggered <;> simp [onGcEnd, updateHeapTarget, user]

structure Calm (trigger : JuliaGCTrigger) : Prop where
  counter : trigger.thrashCounter = 0
  flag : trigger.thrashing = 0

/-- The counter counts up from 4 on only, so it never leaves zero. -/
theorem updateHeapTarget_calm {trigger : JuliaGCTrigger} (calm : Calm trigger)
    (heapSize pause allocDiff freedDiff : Usize) :
    Calm (updateHeapTarget sqrt trigger heapSize pause allocDiff freedDiff) := by
  have counter : updateThrashCounter trigger pause = 0 := by
    simp [updateThrashCounter, calm.counter]
  have estimator : updateThrashing trigger.thrashing (updateThrashCounter trigger pause) = (0, 0) := by
    rw [calm.flag, counter]
    decide
  exact ⟨congrArg Prod.snd estimator, congrArg Prod.fst estimator⟩

theorem onGcEnd_calm {trigger : JuliaGCTrigger} (calm : Calm trigger) (readings : EndReadings) :
    Calm (onGcEnd sqrt trigger readings).1 := by
  rcases calm with ⟨counter, flag⟩
  simp only [onGcEnd]
  split
  · apply updateHeapTarget_calm
    exact ⟨counter, flag⟩
  · exact ⟨counter, flag⟩

theorem step_calm {trigger : JuliaGCTrigger} (calm : Calm trigger) (event : Event) :
    Calm (step sqrt trigger event) := by
  cases event with
  | pending pages => exact ⟨calm.counter, calm.flag⟩
  | gcStart readings => exact ⟨calm.counter, calm.flag⟩
  | gcEnd readings => exact onGcEnd_calm sqrt calm readings

theorem run_calm (events : List Event) : Calm (run sqrt maxTotalMem events) := by
  induction events using List.reverseRecOn with
  | nil => exact ⟨rfl, rfl⟩
  | append_singleton events event ih =>
      rw [run_snoc]
      exact step_calm sqrt ih event

/-- One collection: the requests that fail before and while it runs, and what its two callbacks
read. -/
structure Collection where
  before : List Usize
  start : StartReadings
  during : List Usize
  finish : EndReadings

namespace Collection

def opening (collection : Collection) : List Event :=
  collection.before.map .pending ++ .gcStart collection.start :: collection.during.map .pending

def events (collection : Collection) : List Event :=
  collection.opening ++ [.gcEnd collection.finish]

def Thrashes (past : List Event) (collection : Collection) : Prop :=
  let trigger := run sqrt maxTotalMem (past ++ collection.opening)
  collection.finish.userTriggered = false ∧
    collection.finish.now - trigger.gcStartTime > trigger.mutatorTime

end Collection

/-- Three consecutive collections after the past, each of them thrashing. -/
structure ThreeThrashing (past : List Event) (first second third : Collection) : Prop where
  one : first.Thrashes sqrt maxTotalMem past
  two : second.Thrashes sqrt maxTotalMem (past ++ first.events)
  three : third.Thrashes sqrt maxTotalMem (past ++ first.events ++ second.events)

theorem three_thrashing_collections_undetected (past : List Event)
    (first second third : Collection) :
    ThreeThrashing sqrt maxTotalMem past first second third →
      (run sqrt maxTotalMem (past ++ first.events ++ second.events ++ third.events)).thrashing ≠ 1 := by
  intro _
  rw [(run_calm sqrt maxTotalMem _).flag]
  decide

/-- Three collections of two seconds each, one second apart. -/
def secondsOfCollection (start finish : Usize) : Collection :=
  ⟨[], ⟨10000, start, none⟩, [], ⟨9000, finish, false, false⟩⟩

theorem secondsOfCollection_thrashing :
    ThreeThrashing (fun x => x) 0x200000000 [] (secondsOfCollection 1000000000 3000000000)
      (secondsOfCollection 4000000000 6000000000) (secondsOfCollection 7000000000 9000000000) := by
  constructor <;>
    simp [Collection.Thrashes, Collection.events, Collection.opening, secondsOfCollection, run, step,
      onGcStart, new]

theorem three_thrashing_collections_undetected_seconds :
    (run (fun x => x) 0x200000000 ([] ++ (secondsOfCollection 1000000000 3000000000).events ++
      (secondsOfCollection 4000000000 6000000000).events ++
      (secondsOfCollection 7000000000 9000000000).events)).thrashing ≠ 1 :=
  three_thrashing_collections_undetected (fun x => x) 0x200000000 [] _ _ _
    secondsOfCollection_thrashing

theorem secondsOfCollection_undetected : ¬ ∀ sqrt maxTotalMem past first second third,
    ThreeThrashing sqrt maxTotalMem past first second third →
      (run sqrt maxTotalMem (past ++ first.events ++ second.events ++ third.events)).thrashing = 1 := by
  intro detected
  have raised := detected _ _ _ _ _ _ secondsOfCollection_thrashing
  rw [(run_calm _ _ _).flag] at raised
  simp at raised

end MmtkJulia.GcTrigger
