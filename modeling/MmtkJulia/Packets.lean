import Mathlib.Data.List.Basic
import Mathlib.Tactic.Ring

/-! A list cut into packets of one size, the last of which may be smaller. -/

namespace MmtkJulia

variable {Item : Type}

def chunksWithin (size : Nat) : Nat → List Item → List (List Item)
  | 0, _ => []
  | _ + 1, [] => []
  | rounds + 1, item :: items =>
      (item :: items).take size :: chunksWithin size rounds ((item :: items).drop size)

/-- Every packet takes at least one item, which bounds the rounds. -/
def chunks (size : Nat) (items : List Item) : List (List Item) :=
  chunksWithin size items.length items

/-- The items in packets, as few as their size allows. -/
structure Packed (size : Nat) (items : List Item) (packets : List (List Item)) : Prop where
  whole : packets.flatten = items
  some : ∀ packet ∈ packets, packet ≠ []
  bounded : ∀ packet ∈ packets, packet.length ≤ size
  full : ∀ packet ∈ packets.dropLast, packet.length = size

namespace Packed

variable {size : Nat} {items front : List Item} {packets : List (List Item)}

theorem nil (size : Nat) : Packed size ([] : List Item) [] :=
  ⟨rfl, by simp, by simp, by simp⟩

theorem packets_eq_nil (packed : Packed size ([] : List Item) packets) : packets = [] := by
  cases packets with
  | nil => rfl
  | cons packet packets =>
      have empty := List.flatten_eq_nil_iff.mp packed.whole packet (by simp)
      exact absurd empty (packed.some packet (by simp))

theorem cons (packed : Packed size items packets) (nonempty : front ≠ [])
    (bound : front.length ≤ size) (complete : items ≠ [] → front.length = size) :
    Packed size (front ++ items) (front :: packets) := by
  constructor
  · rw [List.flatten_cons, packed.whole]
  · intro packet member
    rcases List.mem_cons.mp member with rfl | member
    · exact nonempty
    · exact packed.some packet member
  · intro packet member
    rcases List.mem_cons.mp member with rfl | member
    · exact bound
    · exact packed.bounded packet member
  · intro packet member
    cases packets with
    | nil => cases member
    | cons next packets =>
        rw [List.dropLast_cons_of_ne_nil (List.cons_ne_nil next packets)] at member
        rcases List.mem_cons.mp member with rfl | member
        · apply complete
          intro empty
          rw [empty] at packed
          cases packed.packets_eq_nil
        · exact packed.full packet member

theorem count (packed : Packed size items packets) (positive : 0 < size) :
    packets.length = (items.length + (size - 1)) / size := by
  induction packets generalizing items with
  | nil =>
      have empty : items = [] := packed.whole.symm
      rw [empty, List.length_nil, List.length_nil, Nat.zero_add, Nat.div_eq_of_lt (by omega)]
  | cons packet packets ih =>
      have first := List.length_pos_iff.mpr (packed.some packet (by simp))
      have bound := packed.bounded packet (by simp)
      have total : items.length = packet.length + packets.flatten.length := by
        rw [← packed.whole, List.flatten_cons, List.length_append]
      cases packets with
      | nil =>
          have one : (items.length + (size - 1)) / size = 1 := by
            rw [total, List.flatten_nil, List.length_nil]
            exact Nat.div_eq_of_lt_le (by omega) (by omega)
          exact one.symm
      | cons next packets =>
          have front : packet.length = size := by
            apply packed.full
            rw [List.dropLast_cons_of_ne_nil (List.cons_ne_nil next packets)]
            exact List.mem_cons_self
          have rest : Packed size (next :: packets).flatten (next :: packets) := by
            refine ⟨rfl, ?_, ?_, ?_⟩
            · exact fun other member => packed.some other (List.mem_cons_of_mem _ member)
            · exact fun other member => packed.bounded other (List.mem_cons_of_mem _ member)
            · intro other member
              apply packed.full
              rw [List.dropLast_cons_of_ne_nil (List.cons_ne_nil next packets)]
              exact List.mem_cons_of_mem _ member
          have more : items.length + (size - 1) = (next :: packets).flatten.length + (size - 1) + size := by
            omega
          rw [List.length_cons, ih rest, more, Nat.add_div_right _ positive]

end Packed

theorem chunksWithin_packed {size : Nat} (positive : 0 < size) (rounds : Nat) (items : List Item)
    (enough : items.length ≤ rounds) : Packed size items (chunksWithin size rounds items) := by
  induction rounds generalizing items with
  | zero =>
      rw [List.eq_nil_of_length_eq_zero (Nat.le_zero.mp enough)]
      exact .nil size
  | succ rounds ih =>
      cases items with
      | nil => exact .nil size
      | cons item items =>
          have shorter : ((item :: items).drop size).length ≤ rounds := by
            rw [List.length_drop]
            omega
          have cut : (item :: items).take size ++ (item :: items).drop size = item :: items :=
            List.take_append_drop _ _
          rw [chunksWithin]
          nth_rewrite 1 [← cut]
          apply (ih _ shorter).cons
          · intro empty
            have none := congrArg List.length empty
            rw [List.length_take, List.length_cons, List.length_nil] at none
            omega
          · exact List.length_take_le _ _
          · intro more
            have beyond := List.length_pos_iff.mpr more
            rw [List.length_drop] at beyond
            rw [List.length_take]
            omega

theorem chunks_packed {size : Nat} (positive : 0 < size) (items : List Item) :
    Packed size items (chunks size items) :=
  chunksWithin_packed positive items.length items (Nat.le_refl _)

end MmtkJulia
