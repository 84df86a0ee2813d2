import Mathlib.Data.List.Basic
import Mathlib.Tactic.Linarith

/-! Runs of a labelled transition system given by a partial next-state function. -/

namespace MmtkJulia

/-- A transition system: an initial state, and the state that an action leads to
where the action is enabled. -/
structure System (State Action : Type) where
  initial : State
  next : State → Action → Option State

namespace System

variable {State Action : Type} {system : System State Action}

/-- States of the runs that take an action only where the guard admits it. -/
inductive ReachableUnder (system : System State Action) (guard : State → Action → Prop) :
    State → Prop where
  | initial : ReachableUnder system guard system.initial
  | step {before after : State} (action : Action) (past : ReachableUnder system guard before)
      (admitted : guard before action) (taken : system.next before action = some after) :
      ReachableUnder system guard after

def Reachable (system : System State Action) : State → Prop :=
  ReachableUnder system (fun _ _ => True)

def run (system : System State Action) : State → List Action → Option State
  | state, [] => some state
  | state, action :: actions => (system.next state action).bind (fun after => system.run after actions)

/-- The induction over a guarded run: the invariant carried by each admitted step
holds in every state reached. -/
theorem ReachableUnder.invariant {guard : State → Action → Prop} (holds : State → Prop)
    (start : holds system.initial)
    (preserved : ∀ before action after, holds before → guard before action →
      system.next before action = some after → holds after)
    {state : State} (reached : ReachableUnder system guard state) : holds state := by
  induction reached with
  | initial => exact start
  | step action _ admitted taken ih => exact preserved _ action _ ih admitted taken

def Admits (system : System State Action) (guard : State → Action → Prop) :
    State → List Action → Prop
  | _, [] => True
  | state, action :: actions =>
      guard state action ∧ ∀ after, system.next state action = some after →
        system.Admits guard after actions

theorem ReachableUnder.run {guard : State → Action → Prop} {before after : State}
    (past : ReachableUnder system guard before) (actions : List Action)
    (admitted : system.Admits guard before actions)
    (ran : system.run before actions = some after) : ReachableUnder system guard after := by
  induction actions generalizing before with
  | nil =>
      cases ran
      exact past
  | cons action actions ih =>
      obtain ⟨middle, taken, rest⟩ := Option.bind_eq_some_iff.mp ran
      exact ih (.step action past admitted.1 taken) (admitted.2 middle taken) rest

theorem Reachable.run {before after : State} (past : Reachable system before)
    (actions : List Action) (ran : system.run before actions = some after) :
    Reachable system after := by
  apply ReachableUnder.run past actions _ ran
  clear past ran
  induction actions generalizing before with
  | nil => trivial
  | cons action actions ih => exact ⟨trivial, fun middle _ => ih⟩

/-- The actions of a run that are picked in the states where they are taken. -/
def picked (system : System State Action) (pick : State → Action → Prop)
    [∀ state action, Decidable (pick state action)] : State → List Action → Nat
  | _, [] => 0
  | state, action :: actions =>
      (if pick state action then 1 else 0) +
        (system.next state action).elim 0 (fun after => system.picked pick after actions)

/-- Where each admitted step that is picked takes one off the rank and the others do not raise it,
except that the action `raise` may add `grant` to it, the rank bounds the picked steps of every
admitted run. -/
theorem Admits.picked_le [DecidableEq Action] {guard pick : State → Action → Prop}
    [∀ state action, Decidable (pick state action)] {holds : State → Prop} {rank : State → Int}
    {raise : Action} {grant : Nat}
    (preserved : ∀ before action after, holds before → guard before action →
      system.next before action = some after → holds after)
    (pays : ∀ before action after, holds before → guard before action →
      system.next before action = some after →
      rank after + (if pick before action then 1 else 0) ≤
        rank before + if action = raise then (grant : Int) else 0)
    {before last : State} (valid : holds before) {actions : List Action}
    (admitted : system.Admits guard before actions) (ran : system.run before actions = some last) :
    holds last ∧
      system.picked pick before actions + rank last ≤ rank before + grant * actions.count raise := by
  induction actions generalizing before with
  | nil =>
      cases ran
      exact ⟨valid, by simp [picked]⟩
  | cons action actions ih =>
      obtain ⟨middle, taken, rest⟩ := Option.bind_eq_some_iff.mp ran
      have paid := pays before action middle valid admitted.1 taken
      have later := ih (preserved before action middle valid admitted.1 taken)
        (admitted.2 middle taken) rest
      refine ⟨later.1, ?_⟩
      rw [picked, taken, Option.elim_some, List.count_cons]
      by_cases raised : action = raise
      · rw [if_pos raised] at paid
        simp only [raised, beq_self_eq_true, if_true] at paid ⊢
        push_cast
        linarith [later.2]
      · rw [if_neg raised] at paid
        simp only [beq_iff_eq, raised, if_false]
        push_cast
        linarith [later.2]

end System

end MmtkJulia
