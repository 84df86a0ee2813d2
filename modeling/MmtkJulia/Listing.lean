import Mathlib.Data.List.Nodup
import Mathlib.Data.List.Flatten

/-! Lists that name each thing with a given property exactly once. -/

namespace MmtkJulia

variable {Id Key : Type} {holds other : Id → Prop} {ids others : List Id}

def Enumerates (holds : Id → Prop) (ids : List Id) : Prop :=
  ids.Nodup ∧ ∀ id, id ∈ ids ↔ holds id

namespace Enumerates

theorem congr (enumerated : Enumerates holds ids) (same : ∀ id, holds id ↔ other id) :
    Enumerates other ids :=
  ⟨enumerated.1, fun id => (enumerated.2 id).trans (same id)⟩

theorem none (empty : ∀ id, ¬ holds id) : Enumerates holds ([] : List Id) := by
  refine ⟨List.nodup_nil, ?_⟩
  intro id
  simp [empty id]

theorem filter (enumerated : Enumerates holds ids) (chosen : Id → Bool) :
    Enumerates (fun id => holds id ∧ chosen id = true) (ids.filter chosen) := by
  refine ⟨enumerated.1.filter chosen, ?_⟩
  intro id
  rw [List.mem_filter, enumerated.2 id]

theorem append (enumerated : Enumerates holds ids) (second : Enumerates other others)
    (apart : ∀ id, holds id → ¬ other id) :
    Enumerates (fun id => holds id ∨ other id) (ids ++ others) := by
  refine ⟨List.nodup_append'.mpr ⟨enumerated.1, second.1, ?_⟩, ?_⟩
  · intro id first last
    exact apart id ((enumerated.2 id).mp first) ((second.2 id).mp last)
  · intro id
    rw [List.mem_append, enumerated.2 id, second.2 id]

theorem snoc (enumerated : Enumerates holds ids) (new : Id) (absent : ¬ holds new) :
    Enumerates (fun id => holds id ∨ id = new) (ids ++ [new]) := by
  apply enumerated.append ⟨List.nodup_singleton new, fun id => List.mem_singleton⟩
  rintro id present rfl
  exact absent present

theorem flatMap {owned : Key → Id → Prop} {lists : Key → List Id}
    (enumerated : ∀ key, Enumerates (owned key) (lists key)) (keys : List Key) (once : keys.Nodup)
    (apart : ∀ id key other, owned key id → owned other id → key = other) :
    Enumerates (fun id => ∃ key ∈ keys, owned key id) (keys.flatMap lists) := by
  constructor
  · apply List.nodup_flatMap.mpr
    refine ⟨fun key _ => (enumerated key).1, once.imp ?_⟩
    intro key other different id first second
    exact different (apart id key other (((enumerated key).2 id).mp first)
      (((enumerated other).2 id).mp second))
  · intro id
    simp only [List.mem_flatMap, (enumerated _).2]

end Enumerates

end MmtkJulia
