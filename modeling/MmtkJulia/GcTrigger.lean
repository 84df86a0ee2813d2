import MmtkJulia.Word
import Mathlib.Data.Rat.Floor

/-! The heap-size heuristics of gc_trigger.rs. An f64 is read as the exact rational that it
stands for, and its square root is a parameter. A store to an atomic field is a field update:
mmtk-core runs the callbacks of one collection one after the other. -/

namespace MmtkJulia.GcTrigger

def defaultCollectInterval : Usize := 5600 * 1024 * 8
def gcAlwaysSweepFull : Bool := false

structure JuliaGCTrigger where
  heapTarget : Usize
  maxTotalMemory : Usize
  oldPauseTime : Usize
  oldMutTime : Usize
  oldHeapSize : Usize
  oldAllocDiff : Usize
  oldFreedDiff : Usize
  gcStartTime : Usize
  gcEndTime : Usize
  mutatorTime : Usize
  thrashCounter : Usize
  thrashing : Usize
  beforeFreeHeapSize : Usize
  prevSweepFull : Bool
  pendingPages : Usize
  deriving DecidableEq, Repr

def new (maxTotalMem : Usize) : JuliaGCTrigger where
  heapTarget := defaultCollectInterval
  maxTotalMemory := maxTotalMem
  oldPauseTime := 10000000
  oldMutTime := 1000000000
  oldHeapSize := 0
  oldAllocDiff := defaultCollectInterval
  oldFreedDiff := defaultCollectInterval
  gcStartTime := 0
  gcEndTime := 0
  mutatorTime := 0
  thrashCounter := 0
  thrashing := 0
  beforeFreeHeapSize := 0
  prevSweepFull := true
  pendingPages := 0

/-- What on_gc_start reads from the plan and the clock. The last field is the answer of a
generational plan, and none for another plan. -/
structure StartReadings where
  reservedPages : Usize
  now : Usize
  lastCollectionFullHeap : Option Bool

/-- What on_gc_end reads from the plan, the clock and MMTk. -/
structure EndReadings where
  reservedPages : Usize
  now : Usize
  userTriggered : Bool
  generational : Bool

/-- conversions::pages_to_bytes, with pages of 2^12 bytes. -/
def pagesToBytes (pages : Usize) : Usize := pages <<< 12

/-- The cast of a non-negative f64 to usize: it truncates, and saturates at usize::MAX. -/
def truncate (x : ℚ) : Usize := BitVec.ofNat 64 (min ⌊x⌋.toNat (2 ^ 64 - 1))

def real (n : Usize) : ℚ := n.toNat

def mmtkJlGcSmooth (oldVal newVal : Usize) (factor : ℚ) : Usize :=
  let est := factor * real oldVal + (1 - factor) * real newVal
  if est ≤ 1 then 1
  else if est > real (2 <<< 36) then 2 <<< 36
  else truncate est

def mmtkOverallocation (oldVal val maxVal : Usize) : Usize :=
  let exp2 := 64 - oldVal.clz.toNat
  let inc := ((1 : Usize) <<< (exp2 * 7 / 8)) * 4 + oldVal / 8
  if inc + val > maxVal ∧ inc > maxVal / 20 then maxVal / 20 else inc

def reservedPagesNow (trigger : JuliaGCTrigger) (reservedPages : Usize) : Usize :=
  reservedPages + trigger.pendingPages

def onGcStart (trigger : JuliaGCTrigger) (readings : StartReadings) : JuliaGCTrigger :=
  { trigger with
    gcStartTime := readings.now
    mutatorTime :=
      if trigger.gcEndTime = 0 then trigger.oldMutTime else readings.now - trigger.gcEndTime
    beforeFreeHeapSize := pagesToBytes (reservedPagesNow trigger readings.reservedPages)
    prevSweepFull := readings.lastCollectionFullHeap.getD false }

/-- GC time above half of the runtime counts up, but only from 4 on. -/
def updateThrashCounter (trigger : JuliaGCTrigger) (pause : Usize) : Usize :=
  if pause > trigger.mutatorTime ∧ trigger.thrashCounter ≥ 4 then trigger.thrashCounter + 1
  else if trigger.thrashCounter > 0 then trigger.thrashCounter - 1
  else trigger.thrashCounter

def updateThrashing (thrashing thrashCounter : Usize) : Usize × Usize :=
  if thrashing = 0 ∧ thrashCounter ≥ 3 then (1, 6)
  else if thrashing = 1 ∧ thrashCounter ≤ 2 then (0, thrashCounter)
  else (thrashing, thrashCounter)

def tuningFactor : ℚ := 20000
def allocSmoothFactor : ℚ := 95 / 100
def collectSmoothFactor : ℚ := 1 / 2

def rateEstimate (sqrt : ℚ → ℚ) (heapSize allocMem allocTime gcMem gcTime : Usize) : ℚ :=
  if allocMem ≠ 0 ∧ allocTime ≠ 0 ∧ gcMem ≠ 0 ∧ gcTime ≠ 0 then
    let allocRate := real allocMem / real allocTime
    let gcRate := real gcMem / real gcTime
    sqrt (real heapSize * allocRate / gcRate) * tuningFactor
  else 0

def minTargetAllocs (heapSize : Usize) : Usize :=
  if heapSize / 20 < defaultCollectInterval / 8 then defaultCollectInterval / 8 else heapSize / 20

def maxTargetAllocs (beforeFreeHeapSize heapSize userMax : Usize) : Usize :=
  let max := mmtkOverallocation beforeFreeHeapSize heapSize userMax
  if max < minTargetAllocs heapSize then minTargetAllocs heapSize else max

def limitToUser (targetAllocs : ℚ) (heapSize userMax : Usize) : ℚ :=
  if targetAllocs + real heapSize > real userMax then
    if heapSize < userMax then real userMax - real heapSize else 1
  else targetAllocs

def raiseForThrashing (sqrt : ℚ → ℚ) (targetAllocs : ℚ) (thrashing minAllocs maxAllocs : Usize) : ℚ :=
  if thrashing ≠ 0 then
    let thrashingAllocs := sqrt (real minAllocs * real maxAllocs)
    if targetAllocs < thrashingAllocs then thrashingAllocs else targetAllocs
  else targetAllocs

def rateLimit (targetAllocs : ℚ) (minAllocs maxAllocs : Usize) : ℚ :=
  let capped := if targetAllocs > real maxAllocs then real maxAllocs else targetAllocs
  if capped < real minAllocs then real minAllocs else capped

def targetAllocs (sqrt : ℚ → ℚ) (estimate : ℚ) (thrashing heapSize beforeFreeHeapSize userMax : Usize) : ℚ :=
  let minAllocs := minTargetAllocs heapSize
  let maxAllocs := maxTargetAllocs beforeFreeHeapSize heapSize userMax
  rateLimit
    (raiseForThrashing sqrt (limitToUser estimate heapSize userMax) thrashing minAllocs maxAllocs)
    minAllocs maxAllocs

def targetHeap (targetAllocs : ℚ) (heapSize : Usize) : ℚ :=
  if targetAllocs + real heapSize < real defaultCollectInterval then real defaultCollectInterval
  else targetAllocs + real heapSize

def userMax (trigger : JuliaGCTrigger) : Usize := trigger.maxTotalMemory * 80 / 100

def updateHeapTarget (sqrt : ℚ → ℚ) (trigger : JuliaGCTrigger)
    (heapSize pause allocDiff freedDiff : Usize) : JuliaGCTrigger :=
  let allocMem := mmtkJlGcSmooth trigger.oldAllocDiff allocDiff allocSmoothFactor
  let allocTime := mmtkJlGcSmooth trigger.oldMutTime trigger.mutatorTime allocSmoothFactor
  let gcMem := mmtkJlGcSmooth trigger.oldFreedDiff freedDiff collectSmoothFactor
  let gcTime := mmtkJlGcSmooth trigger.oldPauseTime pause collectSmoothFactor
  let estimate := rateEstimate sqrt heapSize allocMem allocTime gcMem gcTime
  let estimator := updateThrashing trigger.thrashing (updateThrashCounter trigger pause)
  let allocs := targetAllocs sqrt estimate estimator.1 heapSize trigger.beforeFreeHeapSize
    (userMax trigger)
  { trigger with
    oldAllocDiff := allocMem
    oldMutTime := allocTime
    oldFreedDiff := gcMem
    oldPauseTime := gcTime
    thrashing := estimator.1
    thrashCounter := estimator.2
    heapTarget := truncate (targetHeap allocs heapSize) }

def onGcEnd (sqrt : ℚ → ℚ) (trigger : JuliaGCTrigger) (readings : EndReadings) :
    JuliaGCTrigger × Bool :=
  let pause := readings.now - trigger.gcStartTime
  let heapSize := pagesToBytes (reservedPagesNow trigger readings.reservedPages)
  let allocDiff := trigger.beforeFreeHeapSize - trigger.oldHeapSize
  let freedDiff := trigger.beforeFreeHeapSize - heapSize
  let stored := { trigger with gcEndTime := readings.now, oldHeapSize := heapSize }
  let gcAuto := !readings.userTriggered
  let updated :=
    if gcAuto then updateHeapTarget sqrt stored heapSize pause allocDiff freedDiff else stored
  let sweepFull := gcAlwaysSweepFull || decide (heapSize > userMax trigger) ||
    (!gcAuto && !trigger.prevSweepFull)
  (updated, sweepFull && readings.generational)

def onPendingAllocation (trigger : JuliaGCTrigger) (pages : Usize) : JuliaGCTrigger :=
  { trigger with pendingPages := trigger.pendingPages + pages }

def isHeapFull (trigger : JuliaGCTrigger) (reservedPages : Usize) : Bool :=
  decide (pagesToBytes (reservedPagesNow trigger reservedPages) ≥ trigger.heapTarget)

def getCurrentHeapSizeInPages (trigger : JuliaGCTrigger) : Usize := trigger.heapTarget / 4096
def getMaxHeapSizeInPages (trigger : JuliaGCTrigger) : Usize := trigger.maxTotalMemory / 4096

/-- A callback that mmtk-core makes, with what it reads. is_heap_full stores nothing and is
no event of a run. -/
inductive Event where
  | pending (pages : Usize)
  | gcStart (readings : StartReadings)
  | gcEnd (readings : EndReadings)

def step (sqrt : ℚ → ℚ) (trigger : JuliaGCTrigger) : Event → JuliaGCTrigger
  | .pending pages => onPendingAllocation trigger pages
  | .gcStart readings => onGcStart trigger readings
  | .gcEnd readings => (onGcEnd sqrt trigger readings).1

def run (sqrt : ℚ → ℚ) (maxTotalMem : Usize) (events : List Event) : JuliaGCTrigger :=
  events.foldl (step sqrt) (new maxTotalMem)

end MmtkJulia.GcTrigger
