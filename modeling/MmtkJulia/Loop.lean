import Mathlib.Data.Nat.Init

/-! A while loop whose body may fail, run with a bound on its rounds. -/

namespace MmtkJulia

variable {State Error : Type}

/-- The loop while condition do body. The bound is no part of the loop: an outcome other
than stuck is the outcome of the loop itself. -/
def whileLoop (stuck : Error) (condition : State → Bool) (body : State → Except Error State) :
    Nat → State → Except Error State
  | 0, _ => .error stuck
  | fuel + 1, state =>
      if condition state then (body state).bind (whileLoop stuck condition body fuel)
      else .ok state

variable {stuck : Error} {condition : State → Bool} {body : State → Except Error State}

theorem whileLoop_exit {state : State} (fuel : Nat) (ended : condition state = false) :
    whileLoop stuck condition body (fuel + 1) state = .ok state := by
  simp [whileLoop, ended]

theorem whileLoop_round {state next : State} (fuel : Nat) (more : condition state = true)
    (ran : body state = .ok next) :
    whileLoop stuck condition body (fuel + 1) state = whileLoop stuck condition body fuel next := by
  simp [whileLoop, more, ran, Except.bind]

section Items

variable {Item : Type} {between : List Item → State} {items : List Item}

/-- The rounds on the items that are left, by induction on them. What holds between the rounds is a
function of the items taken so far. -/
theorem whileLoop_rest
    (rounds : ∀ taken item later, taken ++ item :: later = items →
      condition (between taken) = true ∧ body (between taken) = .ok (between (taken ++ [item])))
    (ended : condition (between items) = false) {taken rest : List Item} {fuel : Nat}
    (whole : taken ++ rest = items) (enough : rest.length < fuel) :
    whileLoop stuck condition body fuel (between taken) = .ok (between items) := by
  induction rest generalizing taken fuel with
  | nil =>
      rcases Nat.exists_eq_add_of_lt enough with ⟨left, rfl⟩
      rw [List.append_nil] at whole
      rw [whole]
      exact whileLoop_exit _ ended
  | cons item rest ih =>
      rcases Nat.exists_eq_add_of_lt enough with ⟨left, rfl⟩
      obtain ⟨more, ran⟩ := rounds taken item rest whole
      rw [whileLoop_round _ more ran]
      apply ih
      · rw [List.append_assoc]
        exact whole
      · rw [List.length_cons]
        omega

theorem whileLoop_items
    (rounds : ∀ taken item later, taken ++ item :: later = items →
      condition (between taken) = true ∧ body (between taken) = .ok (between (taken ++ [item])))
    (ended : condition (between items) = false) {fuel : Nat} (enough : items.length < fuel) :
    whileLoop stuck condition body fuel (between []) = .ok (between items) :=
  whileLoop_rest rounds ended rfl enough

end Items

end MmtkJulia
