import Mathlib.Logic.Basic

/-! Fallible computations that run side by side. -/

namespace MmtkJulia

variable {Error Left Right LeftNext RightNext : Type}

theorem bind_ok {read : Except Error Left} {next : Left → Except Error Right} {result : Right}
    (ran : read >>= next = .ok result) : ∃ value, read = .ok value ∧ next value = .ok result := by
  cases read with
  | error fault => cases ran
  | ok value => exact ⟨value, rfl, ran⟩

/-- Where the left computation returns, the right one returns a related value. -/
def Carries (relation : Left → Right → Prop) (left : Except Error Left)
    (right : Except Error Right) : Prop :=
  ∀ value, left = .ok value → ∃ other, right = .ok other ∧ relation value other

namespace Carries

variable {relation : Left → Right → Prop} {next : LeftNext → RightNext → Prop}
  {left : Except Error Left} {right : Except Error Right}

theorem ok {value : Left} {other : Right} (related : relation value other) :
    Carries relation (.ok value : Except Error Left) (.ok other) := by
  intro returned same
  cases same
  exact ⟨other, rfl, related⟩

theorem error (fault : Error) : Carries relation (.error fault) right := by
  intro returned same
  cases same

theorem same (computation : Except Error Left) : Carries (· = ·) computation computation := by
  intro returned ran
  exact ⟨returned, ran, rfl⟩

theorem bind {front : Left → Except Error LeftNext} {back : Right → Except Error RightNext}
    (first : Carries relation left right)
    (rest : ∀ value other, left = .ok value → relation value other →
      Carries next (front value) (back other)) :
    Carries next (left >>= front) (right >>= back) := by
  intro returned ran
  rcases bind_ok ran with ⟨value, outcome, ended⟩
  rcases first value outcome with ⟨other, stepped, related⟩
  rcases rest value other outcome related returned ended with ⟨last, reached, final⟩
  rw [stepped]
  exact ⟨last, reached, final⟩

theorem bind_same {Value : Type} {read : Except Error Value} {other : Except Error Value}
    {front : Value → Except Error LeftNext} {back : Value → Except Error RightNext}
    (reads : Carries (· = ·) read other)
    (rest : ∀ value, read = .ok value → Carries next (front value) (back value)) :
    Carries next (read >>= front) (other >>= back) := by
  apply reads.bind
  rintro value _ ran rfl
  exact rest value ran

theorem returns {other : Except Error Left} (carried : Carries (· = ·) left other) {value : Left}
    (ran : left = .ok value) : other = .ok value := by
  rcases carried value ran with ⟨_, stepped, rfl⟩
  exact stepped

theorem ite {condition : Prop} [Decidable condition] {elseLeft : Except Error Left}
    {elseRight : Except Error Right} (yes : condition → Carries relation left right)
    (no : ¬ condition → Carries relation elseLeft elseRight) :
    Carries relation (if condition then left else elseLeft)
      (if condition then right else elseRight) := by
  by_cases holds : condition
  · rw [if_pos holds, if_pos holds]
    exact yes holds
  · rw [if_neg holds, if_neg holds]
    exact no holds

end Carries

end MmtkJulia
