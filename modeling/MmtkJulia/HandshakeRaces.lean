import MmtkJulia.HandshakeSafety

/-! Two races of the handshake: notify_all runs without the mutex of STW_COND, and
resume_mutators clears the two flags in two stores. -/

namespace MmtkJulia.Handshake

/-- The worker has resumed the collection of the last call, whose caller sleeps in cvar.wait
although BLOCK_FOR_GC is false. A notified caller is at relock, so none is outstanding. -/
def LostWakeup (s : State) : Prop :=
  s.calls ≤ s.resumed ∧ s.mutator = .asleep ∧ s.blockForGc = false

instance (s : State) : Decidable (LostWakeup s) :=
  inferInstanceAs (Decidable (_ ∧ _ ∧ _))

/-- The step is not a notify_all that falls between the flag check of the caller and its
cvar.wait, the flag having been cleared since. -/
def NotifyFindsWaiter (s : State) (action : Action) : Prop :=
  ¬ (action = .worker ∧ s.worker = .notify ∧ s.mutator = .wait ∧ s.blockForGc = false)

def Awake (s : State) : Prop :=
  s.worker = .spin → s.calls = s.stopped → s.mutator ≠ .wait ∧ s.mutator ≠ .asleep

theorem moves_awake {s t : State} {action : Action} (paired : Paired s) (awake : Awake s)
    (notified : NotifyFindsWaiter s action) (moves : Moves s action t) : Awake t := by
  intro spin settled
  cases moves with
  | enter pc | setBlock pc | acquire pc free | announce pc | released pc flag
  | reacquire pc free | leave pc | spurious pc => simp
  | blocked pc flag =>
      -- the loop goes round only while the flag is up
      change s.worker = .spin at spin
      have clear := paired.unblocked (by simp [spin]) settled
      simp [flag] at clear
  | sleep pc => exact absurd pc (awake spin settled).1
  | spinning pc flag => exact awake spin settled
  | stop pc flag | clearBlock pc | clearStopped pc => simp at spin
  | wake pc sleeper => simp
  | wakeNobody pc sleeper =>
      have clear := paired.unblocked (by simp [pc]) settled
      refine ⟨fun waiting => ?_, sleeper⟩
      exact notified ⟨rfl, pc, waiting, clear⟩

theorem awake_not_lost {s : State} (paired : Paired s) (awake : Awake s) : ¬ LostWakeup s := by
  rintro ⟨finished, sleeping, clear⟩
  have past := paired.isAnnounced (by simp [Announcing, sleeping])
  have counted := paired.resumes
  have observed := paired.observed
  have settled : s.calls = s.stopped := by omega
  have spin : s.worker = .spin := by
    by_contra busy
    simp only [busy, if_false] at counted
    omega
  exact (awake spin settled).2 sleeping

theorem no_lost_wakeup {s : State} (reached : handshake.ReachableUnder NotifyFindsWaiter s) :
    ¬ LostWakeup s := by
  have invariant : Paired s ∧ Awake s := by
    apply reached.invariant (fun s => Paired s ∧ Awake s)
    · exact ⟨initial_paired, fun _ _ => by simp [handshake, initial]⟩
    · intro before action after both notified taken
      rcases both with ⟨paired, awake⟩
      have moves := next_moves (show next before action = some after from taken)
      exact ⟨moves_paired paired moves, moves_awake paired awake notified moves⟩
  exact awake_not_lost invariant.1 invariant.2

def wholeCollection : List Action :=
  [.mutator, .mutator, .mutator, .mutator, .mutator, .mutator, .worker, .worker, .worker, .worker]

theorem wholeCollection_in_time :
    ∃ s, handshake.ReachableUnder NotifyFindsWaiter s ∧ s.resumed = 1 ∧ ¬ LostWakeup s := by
  have reached : handshake.ReachableUnder NotifyFindsWaiter
      ⟨false, false, false, .relock, .spin, 1, 1, 1, 1⟩ :=
    System.ReachableUnder.run .initial wholeCollection
      (by simp [wholeCollection, System.Admits, NotifyFindsWaiter, handshake, initial, next,
        mmtkBlockThreadForGc, stopAllMutators, resumeMutators]) rfl
  exact ⟨_, reached, rfl, no_lost_wakeup reached⟩

/-- The caller reads BLOCK_FOR_GC, the whole collection and its notification pass, and only
then does the caller wait. -/
def lateWait : List Action :=
  [.mutator, .mutator, .mutator, .mutator, .mutator, .worker, .worker, .worker, .worker, .mutator]

theorem wakeup_lost : ¬ ∀ s, handshake.Reachable s → ¬ LostWakeup s := by
  intro safe
  exact safe _ (System.Reachable.run .initial lateWait rfl) (by decide)

/-- The condition on the steps cannot be relaxed: wherever a notify_all breaks it, the caller
goes to sleep for good with its next step. -/
theorem late_notification_loses_wakeup {s : State} (reached : handshake.Reachable s)
    (late : ¬ NotifyFindsWaiter s .worker) :
    ∃ t, handshake.run s [.worker, .mutator] = some t ∧ LostWakeup t := by
  have paired := reachable_paired reached
  obtain ⟨-, pc, waiting, clear⟩ := not_not.mp late
  have settled : s.calls ≤ s.resumed + 1 := by
    have counted := paired.resumes
    have ahead := paired.ahead
    have open_ : s.calls ≠ s.stopped + 1 := by
      intro pending
      have blocked := paired.blocking pending (by simp [waiting])
      simp [clear] at blocked
    simp only [pc, reduceCtorEq, if_false] at counted
    omega
  refine ⟨{ s with locked := false, mutator := .asleep, worker := .spin, resumed := s.resumed + 1 },
    ?_, settled, rfl, clear⟩
  simp [System.run, handshake, next, resumeMutators, notifyAll, mmtkBlockThreadForGc, pc, waiting]

/-- A call has announced its stop to a worker that has not yet seen it, but the flag is down. -/
def ErasedStop (s : State) : Prop := s.stopped < s.announced ∧ s.worldHasStopped = false

instance (s : State) : Decidable (ErasedStop s) := inferInstanceAs (Decidable (_ ∧ _))

/-- The step is not a store to WORLD_HAS_STOPPED by a caller while resume_mutators stands
between its two stores. -/
def AnnouncesAfterClear (s : State) (action : Action) : Prop :=
  ¬ (action = .mutator ∧ s.mutator = .storeStopped ∧ s.worker = .clearStopped)

/-- No announcement is open while the worker is about to clear WORLD_HAS_STOPPED, and an
open one keeps the flag up. -/
structure Kept (s : State) : Prop where
  clearing : s.worker = .clearStopped → s.announced = s.stopped
  open_flag : s.stopped < s.announced → s.worldHasStopped = true

theorem moves_kept {s t : State} {action : Action} (paired : Paired s) (kept : Kept s)
    (ordered : AnnouncesAfterClear s action) (moves : Moves s action t) : Kept t := by
  obtain ⟨clearing, open_flag⟩ := kept
  cases moves with
  | enter pc | setBlock pc | acquire pc free | blocked pc flag | released pc flag | sleep pc
  | reacquire pc free | leave pc | spinning pc flag | spurious pc => exact ⟨clearing, open_flag⟩
  | announce pc =>
      exact ⟨fun clear => absurd ⟨rfl, pc, clear⟩ ordered, fun _ => rfl⟩
  | stop pc flag => exact ⟨by simp, fun _ => flag⟩
  | clearBlock pc =>
      have settled := paired.collecting pc
      have past : ¬ Announcing s.mutator := by
        intro early
        have behind := (paired.unannounced early).2
        omega
      exact ⟨fun _ => (paired.isAnnounced past).trans settled.1, open_flag⟩
  | clearStopped pc =>
      refine ⟨by simp, fun ahead => ?_⟩
      exact absurd (clearing pc) (Nat.ne_of_gt ahead)
  | wake pc sleeper | wakeNobody pc sleeper => exact ⟨by simp, open_flag⟩

theorem announcement_kept {s : State} (reached : handshake.ReachableUnder AnnouncesAfterClear s) :
    s.stopped < s.announced → s.worldHasStopped = true := by
  have invariant : Paired s ∧ Kept s := by
    apply reached.invariant (fun s => Paired s ∧ Kept s)
    · exact ⟨initial_paired, by constructor <;> simp [handshake, initial]⟩
    · intro before action after both ordered taken
      rcases both with ⟨paired, kept⟩
      have moves := next_moves (show next before action = some after from taken)
      exact ⟨moves_paired paired moves, moves_kept paired kept ordered moves⟩
  exact invariant.2.open_flag

theorem announcement_kept_whole :
    ∃ s, handshake.ReachableUnder AnnouncesAfterClear s ∧ s.stopped < s.announced ∧
      s.worldHasStopped = true := by
  have reached : handshake.ReachableUnder AnnouncesAfterClear
      ⟨true, true, true, .loadBlock, .spin, 1, 1, 0, 0⟩ :=
    System.ReachableUnder.run .initial [.mutator, .mutator, .mutator, .mutator]
      (by simp [System.Admits, AnnouncesAfterClear, handshake, initial, next,
        mmtkBlockThreadForGc]) rfl
  exact ⟨_, reached, by decide, announcement_kept reached (by decide)⟩

/-- The released caller returns and announces the next stop before the worker clears
WORLD_HAS_STOPPED for the last one. -/
def hastyReturn : List Action :=
  firstStop ++ [.worker] ++ List.replicate 7 .mutator ++ [.worker]

theorem announcement_erased : ¬ ∀ s, handshake.Reachable s →
    s.stopped < s.announced → s.worldHasStopped = true := by
  intro safe
  have erased := safe _ (System.Reachable.run .initial hastyReturn rfl) (by decide)
  cases erased

/-- Here too the condition is exact: the worker's next store erases every announcement that
breaks it. -/
theorem early_announcement_erased {s : State} (reached : handshake.Reachable s)
    (early : ¬ AnnouncesAfterClear s .mutator) :
    ∃ t, handshake.run s [.mutator, .worker] = some t ∧ ErasedStop t := by
  have paired := reachable_paired reached
  obtain ⟨-, pc, clearing⟩ := not_not.mp early
  have ahead := (paired.unannounced (by simp [Announcing, pc])).2
  have unobserved : s.stopped < s.calls := by omega
  refine ⟨{ s with
    worldHasStopped := false, announced := s.calls, mutator := .loadBlock, worker := .notify },
    ?_, unobserved, rfl⟩
  simp [System.run, handshake, next, resumeMutators, mmtkBlockThreadForGc, pc, clearing]

/-- After an erased announcement both sides wait for each other: the caller stays in its
loop and the announcement stays unobserved, whatever steps follow. -/
theorem erased_stop_persists {s t : State} {action : Action} (paired : Paired s)
    (erased : ErasedStop s) (settled : ¬ Announcing s.mutator) (moves : Moves s action t) :
    ErasedStop t ∧ ¬ Announcing t.mutator := by
  obtain ⟨unobserved, down⟩ := erased
  have called := paired.isAnnounced settled
  have ahead := paired.ahead
  have pending : s.calls = s.stopped + 1 := by omega
  have waiting : InWaitLoop s.mutator := (paired.inside pending).resolve_left settled
  cases moves with
  | enter pc | setBlock pc | acquire pc free | announce pc | leave pc =>
      simp [InWaitLoop, pc] at waiting
  | released pc flag =>
      have blocked := paired.blocking pending (by simp [pc])
      simp [flag] at blocked
  | blocked pc flag | sleep pc | reacquire pc free | spurious pc =>
      exact ⟨⟨unobserved, down⟩, by simp [Announcing]⟩
  | spinning pc flag | clearBlock pc => exact ⟨⟨unobserved, down⟩, settled⟩
  | clearStopped pc => exact ⟨⟨unobserved, rfl⟩, settled⟩
  | stop pc flag => simp [down] at flag
  | wake pc sleeper => exact ⟨⟨unobserved, down⟩, by simp [Announcing]⟩
  | wakeNobody pc sleeper => exact ⟨⟨unobserved, down⟩, settled⟩

theorem erased_stop_forever {s t : State} (paired : Paired s) (erased : ErasedStop s)
    (settled : ¬ Announcing s.mutator) (actions : List Action)
    (ran : handshake.run s actions = some t) : ErasedStop t := by
  induction actions generalizing s with
  | nil =>
      cases ran
      exact erased
  | cons action actions ih =>
      obtain ⟨middle, taken, rest⟩ := Option.bind_eq_some_iff.mp ran
      have moves := next_moves (show next s action = some middle from taken)
      have persists := erased_stop_persists paired erased settled moves
      exact ih (moves_paired paired moves) persists.1 persists.2 rest

end MmtkJulia.Handshake
