import MmtkJulia.HandshakeRaces

/-! The handshake comes to an end: where neither race happens, every call returns after a
bounded number of steps, in whatever order the two threads take them. -/

namespace MmtkJulia.Handshake

def Ordered (s : State) (action : Action) : Prop :=
  NotifyFindsWaiter s action ∧ AnnouncesAfterClear s action

def Busy (s : State) (action : Action) : Prop :=
  ¬ (action = .worker ∧ s.worker = .spin ∧ s.worldHasStopped = false)

instance (s : State) (action : Action) : Decidable (Busy s action) := inferInstanceAs (Decidable (¬ _))

/-- No call is open, and the worker has resumed every one. -/
def Settled (s : State) : Prop := s.mutator = .outside ∧ s.worker = .spin ∧ s.resumed = s.calls

/-- The mutex of STW_COND is held from the lock to the wait and from the wakeup to the return. -/
def MutexHeld (s : State) : Prop :=
  s.locked = true →
    s.mutator = .storeStopped ∨ s.mutator = .loadBlock ∨ s.mutator = .wait ∨ s.mutator = .unlock

/-- What the runs without races keep. -/
structure Calm (s : State) : Prop where
  paired : Paired s
  awake : Awake s
  kept : Kept s
  mutex : MutexHeld s

theorem moves_mutex {s t : State} {action : Action} (mutex : MutexHeld s) (moves : Moves s action t) :
    MutexHeld t := by
  intro locked
  cases moves with
  | enter pc | setBlock pc | wake pc sleeper | spurious pc =>
      have holder := mutex locked
      simp_all
  | acquire pc free | announce pc | blocked pc flag | released pc flag | reacquire pc free => simp
  | sleep pc | leave pc => cases locked
  | spinning pc flag | stop pc flag | clearBlock pc | clearStopped pc | wakeNobody pc sleeper =>
      exact mutex locked

theorem moves_calm {s t : State} {action : Action} (calm : Calm s) (ordered : Ordered s action)
    (moves : Moves s action t) : Calm t where
  paired := moves_paired calm.paired moves
  awake := moves_awake calm.paired calm.awake ordered.1 moves
  kept := moves_kept calm.paired calm.kept ordered.2 moves
  mutex := moves_mutex calm.mutex moves

theorem reachable_calm {s : State} (reached : handshake.ReachableUnder Ordered s) : Calm s := by
  apply reached.invariant Calm
  · constructor
    · exact initial_paired
    · exact fun _ _ => by simp [handshake, initial]
    · constructor <;> simp [handshake, initial]
    · exact fun locked => by cases locked
  · intro before action after calm ordered taken
    exact moves_calm calm ordered (next_moves (show next before action = some after from taken))

/-- The steps that the caller can take before it sleeps or returns. -/
def MutatorPc.rank : MutatorPc → Int
  | .storeBlock => 5
  | .lock => 4
  | .storeStopped => 3
  | .relock => 3
  | .loadBlock => 2
  | .wait => 1
  | .unlock => 1
  | .asleep => 0
  | .outside => 0

/-- The steps of the worker, where a notification also counts for the caller it wakes. -/
def WorkerPc.rank : WorkerPc → Int
  | .collecting => 6
  | .clearStopped => 5
  | .notify => 4
  | .spin => 0

/-- The steps that are left for the open collection. A new call brings 13 more. -/
def rank (s : State) : Int := 7 * (s.calls - s.stopped) + s.worker.rank + s.mutator.rank - 13 * s.calls

theorem moves_rank {s t : State} {action : Action} (moves : Moves s action t) :
    rank t + (if Busy s action then 1 else 0) ≤
      rank s + if action = .spuriousWakeup then 4 else 0 := by
  have most : (if Busy s action then (1 : Int) else 0) ≤ 1 := by
    by_cases busy : Busy s action <;> simp [busy]
  cases moves with
  | enter pc | setBlock pc | acquire pc free | announce pc | blocked pc flag | released pc flag
  | sleep pc | reacquire pc free | leave pc | spurious pc =>
      simp only [rank, pc, MutatorPc.rank, reduceCtorEq, if_false, if_true]
      omega
  | spinning pc flag =>
      rw [if_neg (fun busy => busy ⟨rfl, pc, flag⟩)]
      simp
  | stop pc flag | clearBlock pc | clearStopped pc | wakeNobody pc sleeper =>
      simp only [rank, pc, WorkerPc.rank, reduceCtorEq, if_false]
      omega
  | wake pc sleeper =>
      simp only [rank, pc, sleeper, WorkerPc.rank, MutatorPc.rank, reduceCtorEq, if_false]
      omega

theorem MutatorPc.rank_bounds (pc : MutatorPc) : 0 ≤ pc.rank ∧ pc.rank ≤ 5 := by
  cases pc <;> decide

theorem WorkerPc.rank_bounds (pc : WorkerPc) : 0 ≤ pc.rank ∧ pc.rank ≤ 6 := by
  cases pc <;> decide

theorem Calm.rank_bounds {s : State} (calm : Calm s) :
    -13 * s.calls ≤ rank s ∧ rank s ≤ 18 - 13 * s.calls := by
  have ahead := calm.paired.ahead
  have observed := calm.paired.observed
  have worker := s.worker.rank_bounds
  have mutator := s.mutator.rank_bounds
  have counted : s.stopped ≤ s.calls := by
    by_cases early : Announcing s.mutator
    · have behind := (calm.paired.unannounced early).1
      omega
    · have same := calm.paired.isAnnounced early
      omega
  rw [rank]
  omega

/-- An ordered step of the caller or of the worker that neither opens a call nor is idle. -/
def CanGoOn (s : State) : Prop :=
  ∃ action, Ordered s action ∧ Busy s action ∧ (next s action).isSome ∧ action ≠ .spuriousWakeup ∧
    ¬ (action = .mutator ∧ s.mutator = .outside)

theorem canGoOn_worker {s : State} (notified : NotifyFindsWaiter s .worker)
    (sees : s.worker = .spin → s.worldHasStopped = true) : CanGoOn s := by
  refine ⟨.worker, ⟨notified, ?_⟩, ?_, rfl, by decide, ?_⟩
  · intro early
    cases early.1
  · intro idle
    have flag := sees idle.2.1
    rw [idle.2.2] at flag
    cases flag
  · intro opens
    cases opens.1

theorem canGoOn_mutator {s : State} (inside : s.mutator ≠ .outside)
    (ordered : AnnouncesAfterClear s .mutator) (enabled : (mmtkBlockThreadForGc s).isSome) :
    CanGoOn s := by
  refine ⟨.mutator, ⟨?_, ordered⟩, ?_, enabled, by decide, ?_⟩
  · intro late
    cases late.1
  · intro idle
    cases idle.1
  · intro opens
    exact inside opens.2

theorem Calm.unlocked {s : State} (calm : Calm s) (pc : s.mutator = .lock ∨ s.mutator = .relock) :
    s.locked = false := by
  by_contra held
  have holder := calm.mutex (by simpa using held)
  rcases pc with pc | pc <;> simp [pc] at holder

theorem Calm.spinning {s : State} (calm : Calm s) (spin : s.worker = .spin)
    (down : s.worldHasStopped = false) : Settled s ∨ CanGoOn s := by
  have ordered : AnnouncesAfterClear s .mutator := fun early => by simp [spin] at early
  cases pc : s.mutator with
  | outside =>
      have closed : s.calls ≠ s.stopped + 1 := by
        intro pending
        have inside := calm.paired.inside pending
        simp [Announcing, InWaitLoop, pc] at inside
      have ahead := calm.paired.ahead
      have observed := calm.paired.observed
      have announced := calm.paired.isAnnounced (by simp [Announcing, pc])
      have resumes := calm.paired.resumes
      rw [if_pos spin] at resumes
      exact .inl ⟨pc, spin, by omega⟩
  | asleep =>
      -- the call of a sleeper is open, so its announcement is still there
      have announced := calm.paired.isAnnounced (by simp [Announcing, pc])
      have observed := calm.paired.observed
      have open_ : s.calls ≠ s.stopped := fun settled => (calm.awake spin settled).2 pc
      have flag := calm.kept.open_flag (by omega)
      rw [down] at flag
      cases flag
  | lock =>
      have free := calm.unlocked (.inl pc)
      exact .inr (canGoOn_mutator (by simp [pc]) ordered (by simp [mmtkBlockThreadForGc, pc, free]))
  | relock =>
      have free := calm.unlocked (.inr pc)
      exact .inr (canGoOn_mutator (by simp [pc]) ordered (by simp [mmtkBlockThreadForGc, pc, free]))
  | storeBlock | storeStopped | loadBlock | wait | unlock =>
      exact .inr (canGoOn_mutator (by simp [pc]) ordered (by simp [mmtkBlockThreadForGc, pc]))

theorem Calm.progress {s : State} (calm : Calm s) : Settled s ∨ CanGoOn s := by
  cases pc : s.worker with
  | spin =>
      by_cases flag : s.worldHasStopped = true
      · exact .inr (canGoOn_worker (fun late => by simp [pc] at late) (fun _ => flag))
      · exact calm.spinning pc (by simpa using flag)
  | collecting | clearStopped =>
      exact .inr (canGoOn_worker (fun late => by simp [pc] at late) (fun spin => by simp [pc] at spin))
  | notify =>
      by_cases waiting : s.mutator = .wait
      · -- the caller goes to sleep first, so that the notification finds it
        have ordered : AnnouncesAfterClear s .mutator := fun early => by simp [pc] at early
        have enabled : (mmtkBlockThreadForGc s).isSome := by simp [mmtkBlockThreadForGc, waiting]
        exact .inr (canGoOn_mutator (by simp [waiting]) ordered enabled)
      · exact .inr (canGoOn_worker (fun late => waiting late.2.2.1) (fun spin => by simp [pc] at spin))

/-- Where neither race happens the handshake neither blocks nor runs on. However the two threads
take turns, 18 steps, 13 for each new call and 4 for each spurious wakeup are all there is but rounds
of the spin loop; and until every call has returned and is resumed, one of the two can go on. -/
theorem handshake_settles {s t : State} {actions : List Action}
    (reached : handshake.ReachableUnder Ordered s) (admitted : handshake.Admits Ordered s actions)
    (ran : handshake.run s actions = some t) :
    handshake.picked Busy s actions + 13 * s.calls ≤
        18 + 13 * t.calls + 4 * actions.count .spuriousWakeup ∧
      (Settled t ∨ CanGoOn t) := by
  have moves : ∀ before action after, handshake.next before action = some after →
      Moves before action after := by
    intro before action after taken
    exact next_moves (show next before action = some after from taken)
  have calm := reachable_calm reached
  have paid : Calm t ∧
      handshake.picked Busy s actions + rank t ≤ rank s + 4 * actions.count .spuriousWakeup := by
    apply System.Admits.picked_le _ _ calm admitted ran
    · intro before action after calm ordered taken
      exact moves_calm calm ordered (moves before action after taken)
    · intro before action after calm ordered taken
      exact moves_rank (moves before action after taken)
  have most := calm.rank_bounds.2
  have least := paid.1.rank_bounds.1
  constructor
  · omega
  · exact paid.1.progress

/-- A round of the spin loop, then one whole collection up to the return of the caller: 13 steps. -/
def returnedCollection : List Action := .worker :: wholeCollection ++ [.mutator, .mutator, .mutator]

theorem handshake_settles_returned :
    ∃ t, handshake.run initial returnedCollection = some t ∧
      handshake.picked Busy initial returnedCollection = 13 ∧
      handshake.picked Busy initial returnedCollection ≤ 18 + 13 * t.calls ∧ t.resumed = 1 ∧
      (Settled t ∨ CanGoOn t) := by
  have admitted : handshake.Admits Ordered initial returnedCollection := by
    simp [returnedCollection, wholeCollection, System.Admits, Ordered, NotifyFindsWaiter,
      AnnouncesAfterClear, handshake, initial, next, mmtkBlockThreadForGc, stopAllMutators,
      resumeMutators, notifyAll]
  have settles := @handshake_settles initial ⟨false, false, false, .outside, .spin, 1, 1, 1, 1⟩ _
    .initial admitted rfl
  exact ⟨_, rfl, by decide, settles.1, rfl, settles.2⟩

end MmtkJulia.Handshake
