import MmtkJulia.Handshake

/-! What every interleaving of the handshake preserves. -/

namespace MmtkJulia.Handshake

/-- The steps of the handshake, one constructor for each, with the guard it needs. -/
inductive Moves (s : State) : Action → State → Prop where
  | enter (pc : s.mutator = .outside) :
      Moves s .mutator { s with mutator := .storeBlock, calls := s.calls + 1 }
  | setBlock (pc : s.mutator = .storeBlock) :
      Moves s .mutator { s with blockForGc := true, mutator := .lock }
  | acquire (pc : s.mutator = .lock) (free : s.locked = false) :
      Moves s .mutator { s with locked := true, mutator := .storeStopped }
  | announce (pc : s.mutator = .storeStopped) :
      Moves s .mutator
        { s with worldHasStopped := true, announced := s.calls, mutator := .loadBlock }
  | blocked (pc : s.mutator = .loadBlock) (flag : s.blockForGc = true) :
      Moves s .mutator { s with mutator := .wait }
  | released (pc : s.mutator = .loadBlock) (flag : s.blockForGc = false) :
      Moves s .mutator { s with mutator := .unlock }
  | sleep (pc : s.mutator = .wait) : Moves s .mutator { s with locked := false, mutator := .asleep }
  | reacquire (pc : s.mutator = .relock) (free : s.locked = false) :
      Moves s .mutator { s with locked := true, mutator := .loadBlock }
  | leave (pc : s.mutator = .unlock) :
      Moves s .mutator { s with locked := false, mutator := .outside }
  | spinning (pc : s.worker = .spin) (flag : s.worldHasStopped = false) : Moves s .worker s
  | stop (pc : s.worker = .spin) (flag : s.worldHasStopped = true) :
      Moves s .worker { s with worker := .collecting, stopped := s.stopped + 1 }
  | clearBlock (pc : s.worker = .collecting) :
      Moves s .worker { s with blockForGc := false, worker := .clearStopped }
  | clearStopped (pc : s.worker = .clearStopped) :
      Moves s .worker { s with worldHasStopped := false, worker := .notify }
  | wake (pc : s.worker = .notify) (sleeper : s.mutator = .asleep) :
      Moves s .worker { s with mutator := .relock, worker := .spin, resumed := s.resumed + 1 }
  | wakeNobody (pc : s.worker = .notify) (sleeper : s.mutator ≠ .asleep) :
      Moves s .worker { s with worker := .spin, resumed := s.resumed + 1 }
  | spurious (pc : s.mutator = .asleep) : Moves s .spuriousWakeup { s with mutator := .relock }

theorem mutator_moves {s t : State} (taken : mmtkBlockThreadForGc s = some t) :
    Moves s .mutator t := by
  cases pc : s.mutator <;> simp only [mmtkBlockThreadForGc, pc] at taken
  case outside => cases taken; exact .enter pc
  case storeBlock => cases taken; exact .setBlock pc
  case lock =>
    split at taken
    · cases taken
    · next free => cases taken; exact .acquire pc (by simpa using free)
  case storeStopped => cases taken; exact .announce pc
  case loadBlock =>
    cases taken
    by_cases flag : s.blockForGc = true
    · rw [if_pos flag]
      exact .blocked pc flag
    · rw [if_neg flag]
      exact .released pc (by simpa using flag)
  case wait => cases taken; exact .sleep pc
  case asleep => cases taken
  case relock =>
    split at taken
    · cases taken
    · next free => cases taken; exact .reacquire pc (by simpa using free)
  case unlock => cases taken; exact .leave pc

theorem worker_moves (s : State) :
    Moves s .worker (if s.worker = .spin then stopAllMutators s else resumeMutators s) := by
  cases pc : s.worker
  case spin =>
    cases flag : s.worldHasStopped
    · simpa [stopAllMutators, flag] using Moves.spinning pc flag
    · simpa [stopAllMutators, flag] using Moves.stop pc flag
  case collecting => simpa [resumeMutators, pc] using Moves.clearBlock pc
  case clearStopped => simpa [resumeMutators, pc] using Moves.clearStopped pc
  case notify =>
    by_cases sleeper : s.mutator = .asleep
    · simpa [resumeMutators, notifyAll, pc, sleeper] using Moves.wake pc sleeper
    · simpa [resumeMutators, notifyAll, pc, sleeper] using Moves.wakeNobody pc sleeper

theorem next_moves {s t : State} {action : Action} (taken : next s action = some t) :
    Moves s action t := by
  cases action with
  | mutator => exact mutator_moves taken
  | worker =>
      cases taken
      exact worker_moves s
  | spuriousWakeup =>
      simp only [next] at taken
      split at taken
      · next pc => cases taken; exact .spurious pc
      · cases taken

/-- The calls and the collections run in step: collection n is announced by call n, and
BLOCK_FOR_GC is true exactly from the entry of the call to the release by the worker. -/
structure Paired (s : State) : Prop where
  resumes : s.stopped = s.resumed + (if s.worker = .spin then 0 else 1)
  observed : s.stopped ≤ s.announced
  ahead : s.calls ≤ s.stopped + 1
  unannounced : Announcing s.mutator → s.calls = s.announced + 1 ∧ s.calls = s.stopped + 1
  isAnnounced : ¬ Announcing s.mutator → s.announced = s.calls
  inside : s.calls = s.stopped + 1 → Announcing s.mutator ∨ InWaitLoop s.mutator
  blocking : s.calls = s.stopped + 1 → s.mutator ≠ .storeBlock → s.blockForGc = true
  collecting : s.worker = .collecting →
    s.calls = s.stopped ∧ s.blockForGc = true ∧ InWaitLoop s.mutator
  unblocked : s.worker ≠ .collecting → s.calls = s.stopped → s.blockForGc = false
  flagged : s.worker = .spin ∨ s.worker = .notify → s.worldHasStopped = true →
    s.announced = s.stopped + 1

theorem initial_paired : Paired initial := by
  constructor <;> simp [initial, Announcing]

theorem not_announcing_of_waiting {pc : MutatorPc} (waiting : InWaitLoop pc) : ¬ Announcing pc := by
  rcases waiting with rfl | rfl | rfl | rfl <;> simp [Announcing]

namespace Paired

variable {s : State}

theorem loops (paired : Paired s) {pc : MutatorPc} (locked : Bool) (before : InWaitLoop s.mutator)
    (after : InWaitLoop pc) : Paired { s with mutator := pc, locked := locked } where
  resumes := paired.resumes
  observed := paired.observed
  ahead := paired.ahead
  unannounced := fun early => absurd early (not_announcing_of_waiting after)
  isAnnounced := fun _ => paired.isAnnounced (not_announcing_of_waiting before)
  inside := fun _ => .inr after
  blocking := by
    intro pending _
    apply paired.blocking pending
    intro pc
    exact not_announcing_of_waiting before (.inl pc)
  collecting := fun busy => ⟨(paired.collecting busy).1, (paired.collecting busy).2.1, after⟩
  unblocked := paired.unblocked
  flagged := paired.flagged

theorem approaches (paired : Paired s) {pc : MutatorPc} {block : Bool} (locked : Bool)
    (before : Announcing s.mutator) (after : Announcing pc) (set : block = true) :
    Paired { s with blockForGc := block, locked := locked, mutator := pc } where
  resumes := paired.resumes
  observed := paired.observed
  ahead := paired.ahead
  unannounced := fun _ => paired.unannounced before
  isAnnounced := fun late => absurd after late
  inside := fun _ => .inl after
  blocking := fun _ _ => set
  collecting := by
    intro busy
    have settled := (paired.collecting busy).1
    have pending := (paired.unannounced before).2
    omega
  unblocked := by
    intro _ settled
    have pending := (paired.unannounced before).2
    change s.calls = s.stopped at settled
    omega
  flagged := paired.flagged

theorem leaves (paired : Paired s) {pc : MutatorPc} (locked : Bool)
    (settled : s.calls ≠ s.stopped + 1) (resting : s.worker ≠ .collecting)
    (before : ¬ Announcing s.mutator) (after : ¬ Announcing pc) :
    Paired { s with mutator := pc, locked := locked } where
  resumes := paired.resumes
  observed := paired.observed
  ahead := paired.ahead
  unannounced := fun early => absurd early after
  isAnnounced := fun _ => paired.isAnnounced before
  inside := fun pending => absurd pending settled
  blocking := fun pending _ => absurd pending settled
  collecting := fun busy => absurd busy resting
  unblocked := paired.unblocked
  flagged := paired.flagged

theorem enters (paired : Paired s) (pc : s.mutator = .outside) :
    Paired { s with mutator := .storeBlock, calls := s.calls + 1 } := by
  have announced : s.announced = s.calls := paired.isAnnounced (by simp [Announcing, pc])
  have settled : s.calls = s.stopped := by
    have left : s.calls ≠ s.stopped + 1 := by
      intro pending
      simpa [Announcing, InWaitLoop, pc] using paired.inside pending
    have observed := paired.observed
    have ahead := paired.ahead
    omega
  have resting : s.worker ≠ .collecting := by
    intro busy
    simpa [InWaitLoop, pc] using (paired.collecting busy).2.2
  constructor
  · exact paired.resumes
  · exact paired.observed
  · exact Nat.succ_le_succ (Nat.le_of_eq settled)
  · intro _
    exact ⟨congrArg (· + 1) announced.symm, congrArg (· + 1) settled⟩
  · intro late
    exact absurd (.inl rfl) late
  · intro _
    exact .inl (.inl rfl)
  · intro _ elsewhere
    exact absurd rfl elsewhere
  · intro busy
    exact absurd busy resting
  · intro _ same
    change s.calls + 1 = s.stopped at same
    omega
  · exact paired.flagged

theorem announces (paired : Paired s) (pc : s.mutator = .storeStopped) :
    Paired { s with worldHasStopped := true, announced := s.calls, mutator := .loadBlock } := by
  rcases paired.unannounced (.inr (.inr pc)) with ⟨_, pending⟩
  constructor
  · exact paired.resumes
  · change s.stopped ≤ s.calls
    omega
  · exact paired.ahead
  · intro early
    simp [Announcing] at early
  · intro _
    rfl
  · intro _
    exact .inr (.inl rfl)
  · intro _ _
    exact paired.blocking pending (by simp [pc])
  · intro busy
    have settled := (paired.collecting busy).1
    omega
  · intro _ settled
    change s.calls = s.stopped at settled
    omega
  · intro _ _
    exact pending

/-- The flag that lets stop_all_mutators return is that of this collection's own call. -/
theorem stops (paired : Paired s) (pc : s.worker = .spin) (flag : s.worldHasStopped = true) :
    Paired { s with worker := .collecting, stopped := s.stopped + 1 } := by
  have fresh := paired.flagged (.inl pc) flag
  have past : ¬ Announcing s.mutator := by
    intro early
    have behind := paired.unannounced early
    omega
  have pending : s.calls = s.stopped + 1 := (paired.isAnnounced past).symm.trans fresh
  have waiting : InWaitLoop s.mutator := (paired.inside pending).resolve_left past
  have blocked : s.blockForGc = true := by
    apply paired.blocking pending
    intro early
    exact past (.inl early)
  have resumes := paired.resumes
  rw [if_pos pc] at resumes
  constructor
  · change s.stopped + 1 = s.resumed + 1
    omega
  · change s.stopped + 1 ≤ s.announced
    omega
  · exact Nat.le_succ_of_le paired.ahead
  · intro early
    exact absurd early past
  · exact paired.isAnnounced
  · intro later
    change s.calls = s.stopped + 1 + 1 at later
    omega
  · intro later
    change s.calls = s.stopped + 1 + 1 at later
    omega
  · intro _
    exact ⟨pending, blocked, waiting⟩
  · intro elsewhere
    exact absurd rfl elsewhere
  · intro idle
    simp at idle

theorem unblocks (paired : Paired s) (pc : s.worker = .collecting) :
    Paired { s with blockForGc := false, worker := .clearStopped } := by
  rcases paired.collecting pc with ⟨settled, -, -⟩
  have resumes := paired.resumes
  rw [if_neg (by simp [pc])] at resumes
  constructor
  · exact resumes
  · exact paired.observed
  · exact paired.ahead
  · exact paired.unannounced
  · exact paired.isAnnounced
  · exact paired.inside
  · intro pending
    change s.calls = s.stopped + 1 at pending
    omega
  · intro busy
    cases busy
  · intro _ _
    rfl
  · intro idle
    simp at idle

theorem clears (paired : Paired s) (pc : s.worker = .clearStopped) :
    Paired { s with worldHasStopped := false, worker := .notify } := by
  have resumes := paired.resumes
  rw [if_neg (by simp [pc])] at resumes
  refine ⟨resumes, paired.observed, paired.ahead, paired.unannounced, paired.isAnnounced,
    paired.inside, paired.blocking, ?_, ?_, ?_⟩
  · intro busy
    cases busy
  · intro _
    exact paired.unblocked (by simp [pc])
  · intro _ flag
    cases flag

theorem notifies (paired : Paired s) (pc : s.worker = .notify) :
    Paired { s with worker := .spin, resumed := s.resumed + 1 } := by
  have resumes := paired.resumes
  rw [if_neg (by simp [pc])] at resumes
  refine ⟨resumes, paired.observed, paired.ahead, paired.unannounced, paired.isAnnounced,
    paired.inside, paired.blocking, ?_, ?_, ?_⟩
  · intro busy
    cases busy
  · intro _
    exact paired.unblocked (by simp [pc])
  · intro _
    exact paired.flagged (.inr pc)

end Paired

theorem moves_paired {s t : State} {action : Action} (paired : Paired s)
    (moves : Moves s action t) : Paired t := by
  cases moves with
  | enter pc => exact paired.enters pc
  | setBlock pc =>
      have before : Announcing s.mutator := .inl pc
      exact paired.approaches s.locked before (.inr (.inl rfl)) rfl
  | acquire pc free =>
      have before : Announcing s.mutator := .inr (.inl pc)
      have set : s.blockForGc = true :=
        paired.blocking (paired.unannounced before).2 (by simp [pc])
      exact paired.approaches true before (.inr (.inr rfl)) set
  | announce pc => exact paired.announces pc
  | blocked pc flag => exact paired.loops s.locked (.inl pc) (.inr (.inl rfl))
  | released pc flag =>
      -- a clear flag means that the collection of this call is over
      have settled : s.calls ≠ s.stopped + 1 := by
        intro pending
        have set := paired.blocking pending (by simp [pc])
        simp [flag] at set
      have resting : s.worker ≠ .collecting := by
        intro busy
        simpa [flag] using (paired.collecting busy).2.1
      exact paired.leaves s.locked settled resting (by simp [Announcing, pc]) (by simp [Announcing])
  | sleep pc => exact paired.loops false (.inr (.inl pc)) (.inr (.inr (.inl rfl)))
  | reacquire pc free => exact paired.loops true (.inr (.inr (.inr pc))) (.inl rfl)
  | leave pc =>
      have settled : s.calls ≠ s.stopped + 1 := by
        intro pending
        simpa [Announcing, InWaitLoop, pc] using paired.inside pending
      have resting : s.worker ≠ .collecting := by
        intro busy
        simpa [InWaitLoop, pc] using (paired.collecting busy).2.2
      exact paired.leaves false settled resting (by simp [Announcing, pc]) (by simp [Announcing])
  | spinning pc flag => exact paired
  | stop pc flag => exact paired.stops pc flag
  | clearBlock pc => exact paired.unblocks pc
  | clearStopped pc => exact paired.clears pc
  | wake pc sleeper =>
      exact (paired.notifies pc).loops s.locked (.inr (.inr (.inl sleeper)))
        (.inr (.inr (.inr rfl)))
  | wakeNobody pc sleeper => exact paired.notifies pc
  | spurious pc => exact paired.loops s.locked (.inr (.inr (.inl pc))) (.inr (.inr (.inr rfl)))

theorem reachable_paired {s : State} (reached : handshake.Reachable s) : Paired s :=
  reached.invariant Paired initial_paired
    (fun before action after paired _ (taken : next before action = some after) =>
      moves_paired paired (next_moves taken))

/-- Between the return of stop_all_mutators and the release of BLOCK_FOR_GC the caller of
this collection waits in its loop, and stop_all_mutators returns only on a flag that this
collection's own call has stored. -/
theorem world_stays_stopped {s : State} (reached : handshake.Reachable s) :
    (s.worker = .collecting → InWaitLoop s.mutator ∧ s.calls = s.stopped) ∧
    ∀ t, next s .worker = some t → s.worker = .spin → t.worker = .collecting →
      s.announced = t.stopped := by
  have paired := reachable_paired reached
  refine ⟨fun busy => ⟨(paired.collecting busy).2.2, (paired.collecting busy).1⟩, ?_⟩
  intro t taken spin returned
  cases next_moves taken with
  | stop pc flag => exact paired.flagged (.inl pc) flag
  | spinning pc flag => simp [spin] at returned
  | clearBlock pc | clearStopped pc | wake pc sleeper | wakeNobody pc sleeper =>
      simp [spin] at pc

/-- The first collection: the only thread announces the stop and the worker sees it. -/
def firstStop : List Action := [.mutator, .mutator, .mutator, .mutator, .worker]

theorem world_stays_stopped_first :
    ∃ s, handshake.run initial firstStop = some s ∧ s.worker = .collecting ∧
      InWaitLoop s.mutator ∧ s.calls = s.stopped := by
  refine ⟨_, rfl, rfl, ?_⟩
  exact (world_stays_stopped (System.Reachable.run .initial firstStop rfl)).1 rfl

end MmtkJulia.Handshake
