import MmtkJulia.Simulation
import MmtkJulia.Word
import Mathlib.Tactic

/-! Loops that move a cursor through memory in steps of one stride and collect what each stop
yields. -/

namespace MmtkJulia

variable {Error Stop Item : Type}

def collect (visit : Stop → Except Error (List Item)) : List Stop → Except Error (List Item)
  | [] => return []
  | stop :: stops => do
      let here ← visit stop
      let later ← collect visit stops
      return here ++ later

/-- while cursor < limit: visit it and step. -/
def walk (stuck : Error) (visit : Address → Except Error (List Item)) (limit stride : Address) :
    Nat → Address → Except Error (List Item)
  | 0, _ => .error stuck
  | fuel + 1, cursor =>
      if cursor < limit then do
        let here ← visit cursor
        let later ← walk stuck visit limit stride fuel (cursor + stride)
        return here ++ later
      else return []

def stopsOf (stride : Address) : Nat → Address → List Address
  | 0, _ => []
  | count + 1, cursor => cursor :: stopsOf stride count (cursor + stride)

section Collect

variable {visit other : Stop → Except Error (List Item)} {items : Stop → List Item}
  {stops : List Stop}

theorem collect_ok (visits : ∀ stop ∈ stops, visit stop = .ok (items stop)) :
    collect visit stops = .ok (stops.flatMap items) := by
  induction stops with
  | nil => rfl
  | cons stop stops ih =>
      have later := ih (fun next member => visits next (by simp [member]))
      rw [collect, visits stop (by simp), later]
      rfl

theorem collect_map {Place : Type} (visit : Place → Except Error (List Item)) (place : Stop → Place)
    (stops : List Stop) : collect visit (stops.map place) = collect (fun stop => visit (place stop)) stops := by
  induction stops with
  | nil => rfl
  | cons stop stops ih => rw [List.map_cons, collect, collect, ih]

end Collect

section Walk

variable {stuck : Error} {visit : Address → Except Error (List Item)} {limit stride : Address}

/-- A walk that neither wraps nor overruns its bound makes the stops of its cursor. -/
theorem walk_eq_collect (count fuel : Nat) (cursor : Address) (enough : count < fuel)
    (fits : cursor.toNat + count * stride.toNat < 2 ^ 64)
    (inside : ∀ i, i < count → cursor.toNat + i * stride.toNat < limit.toNat)
    (reached : limit.toNat ≤ cursor.toNat + count * stride.toNat) :
    walk stuck visit limit stride fuel cursor = collect visit (stopsOf stride count cursor) := by
  induction count generalizing cursor fuel with
  | zero =>
      rcases Nat.exists_eq_add_of_lt enough with ⟨left, rfl⟩
      have ended : ¬ cursor < limit := by
        rw [BitVec.lt_def]
        omega
      rw [walk, if_neg ended]
      rfl
  | succ count ih =>
      rcases Nat.exists_eq_add_of_lt enough with ⟨left, rfl⟩
      have more : cursor < limit := by
        rw [BitVec.lt_def]
        simpa using inside 0 (by omega)
      have step : (count + 1) * stride.toNat = count * stride.toNat + stride.toNat :=
        Nat.succ_mul _ _
      have next : (cursor + stride).toNat = cursor.toNat + stride.toNat := by
        rw [BitVec.toNat_add]
        omega
      have later : walk stuck visit limit stride (count + 1 + left) (cursor + stride) =
          collect visit (stopsOf stride count (cursor + stride)) := by
        apply ih _ _ (by omega) (by omega)
        · intro i below
          have there := inside (i + 1) (by omega)
          rw [Nat.succ_mul] at there
          omega
        · omega
      rw [walk, if_pos more, later]
      rfl

theorem stopsOf_eq_map (stride : Address) (count : Nat) (cursor : Address) :
    stopsOf stride count cursor =
      (List.range count).map (fun i => cursor + BitVec.ofNat 64 i * stride) := by
  induction count generalizing cursor with
  | zero => rfl
  | succ count ih =>
      rw [stopsOf, ih, List.range_succ_eq_map, List.map_cons, List.map_map]
      congr 1
      · simp
      · apply List.map_congr_left
        intro i _
        have step : BitVec.ofNat 64 (i + 1) * stride = BitVec.ofNat 64 i * stride + stride := by
          rw [BitVec.ofNat_add, BitVec.mul_comm, BitVec.mul_add, BitVec.mul_comm]
          simp
        rw [Function.comp_apply, Nat.succ_eq_add_one, step, BitVec.add_assoc,
          BitVec.add_comm stride]

end Walk

end MmtkJulia
