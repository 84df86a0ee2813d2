import MmtkJulia.Runs

/-! The stop-the-world handshake of collection.rs: one thread at a time inside
mmtk_block_thread_for_gc against one GC worker that alternates stop_all_mutators
and resume_mutators. A program counter names the step that comes next. -/

namespace MmtkJulia.Handshake

/-- Steps of mmtk_block_thread_for_gc. -/
inductive MutatorPc where
  | outside
  | storeBlock
  | lock
  | storeStopped
  | loadBlock
  | wait
  | asleep
  | relock
  | unlock
  deriving DecidableEq, Repr

/-- Steps of stop_all_mutators (the spin loop, and its return) and of resume_mutators. -/
inductive WorkerPc where
  | spin
  | collecting
  | clearStopped
  | notify
  deriving DecidableEq, Repr

/-- The two flags, the mutex of STW_COND and both program counters. The counters are
history: calls of mmtk_block_thread_for_gc so far, the call that last stored true to
WORLD_HAS_STOPPED, returns of stop_all_mutators and of resume_mutators. No step reads them. -/
structure State where
  blockForGc : Bool
  worldHasStopped : Bool
  locked : Bool
  mutator : MutatorPc
  worker : WorkerPc
  calls : Nat
  announced : Nat
  stopped : Nat
  resumed : Nat
  deriving DecidableEq, Repr

/-- A thread takes its next step, or cvar.wait returns without a notification. -/
inductive Action where
  | mutator
  | worker
  | spuriousWakeup
  deriving DecidableEq, Repr

def mmtkBlockThreadForGc (s : State) : Option State :=
  match s.mutator with
  | .outside => some { s with mutator := .storeBlock, calls := s.calls + 1 }
  | .storeBlock => some { s with blockForGc := true, mutator := .lock }
  | .lock => if s.locked then none else some { s with locked := true, mutator := .storeStopped }
  | .storeStopped =>
      some { s with worldHasStopped := true, announced := s.calls, mutator := .loadBlock }
  | .loadBlock => some { s with mutator := if s.blockForGc then .wait else .unlock }
  -- cvar.wait gives up the mutex and falls asleep in one step
  | .wait => some { s with locked := false, mutator := .asleep }
  | .asleep => none
  | .relock => if s.locked then none else some { s with locked := true, mutator := .loadBlock }
  -- the guard is dropped as the function returns
  | .unlock => some { s with locked := false, mutator := .outside }

def stopAllMutators (s : State) : State :=
  if s.worldHasStopped then { s with worker := .collecting, stopped := s.stopped + 1 } else s

def notifyAll (s : State) : State :=
  { s with mutator := if s.mutator = .asleep then .relock else s.mutator }

def resumeMutators (s : State) : State :=
  match s.worker with
  | .collecting => { s with blockForGc := false, worker := .clearStopped }
  | .clearStopped => { s with worldHasStopped := false, worker := .notify }
  | .notify => { notifyAll s with worker := .spin, resumed := s.resumed + 1 }
  | .spin => s

def next (s : State) : Action → Option State
  | .mutator => mmtkBlockThreadForGc s
  | .worker => some (if s.worker = .spin then stopAllMutators s else resumeMutators s)
  | .spuriousWakeup => if s.mutator = .asleep then some { s with mutator := .relock } else none

def initial : State where
  blockForGc := false
  worldHasStopped := false
  locked := false
  mutator := .outside
  worker := .spin
  calls := 0
  announced := 0
  stopped := 0
  resumed := 0

def handshake : System State Action := ⟨initial, next⟩

def InWaitLoop (pc : MutatorPc) : Prop :=
  pc = .loadBlock ∨ pc = .wait ∨ pc = .asleep ∨ pc = .relock

def Announcing (pc : MutatorPc) : Prop := pc = .storeBlock ∨ pc = .lock ∨ pc = .storeStopped

end MmtkJulia.Handshake
