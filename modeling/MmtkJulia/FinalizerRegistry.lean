import MmtkJulia.FinalizerScan
import MmtkJulia.Listing
import MmtkJulia.Runs

/-! Runs of registrations, collections and drains over the finalizer lists, beside a registry
that says what the lists are for: each registered pair has one place. -/

namespace MmtkJulia.Finalizer

variable {Thread : Type} [DecidableEq Thread]

structure Collection (Thread : Type) where
  nursery : Bool
  isLive : Address → Bool
  traceObject : Address → ObjectReference
  mutators : List Thread

inductive Event (Thread : Type) where
  | register (thread : Thread) (entry : Entry)
  | scan (collection : Collection Thread)
  | drain

/-- The lists, and the pairs that have been taken off to_finalize to be run. -/
structure World (Thread : Type) where
  lists : FinalizerLists Thread
  drained : ArrayListT

namespace World

def initial : World Thread := ⟨holding (fun _ => []) [] [] 0, ⟨[]⟩⟩

def step (debug : Bool) (world : World Thread) : Event Thread → Except Fault (World Thread)
  | .register thread entry => do
      let list ← pushPair (world.lists.threadLocal thread) entry.1 entry.2
      return { world with lists := { world.lists with
        threadLocal := Function.update world.lists.threadLocal thread list } }
  | .scan collection => do
      let (lists, _) ← scanFinalizersInRust debug collection.nursery collection.isLive
        collection.traceObject collection.mutators world.lists
      return { world with lists }
  | .drain => return {
      lists := { world.lists with toFinalize := ⟨[]⟩, havePending := 0 }
      drained := ⟨world.drained.items ++ world.lists.toFinalize.items⟩ }

end World

inductive Place (Thread : Type) where
  | threadLocal (thread : Thread)
  | marked
  | toFinalize
  | drained
  deriving DecidableEq

def World.listAt (world : World Thread) : Place Thread → ArrayListT
  | .threadLocal thread => world.lists.threadLocal thread
  | .marked => world.lists.marked
  | .toFinalize => world.lists.toFinalize
  | .drained => world.drained

/-- The pairs registered so far, numbered in their order: what forwarding has made of each, the
place where it is, and how often it has entered to_finalize. -/
structure Registry (Thread : Type) where
  count : Nat
  pair : Nat → Entry
  place : Nat → Option (Place Thread)
  entries : Nat → Nat

namespace Registry

def initial : Registry Thread := ⟨0, fun _ => (0, 0), fun _ => none, fun _ => 0⟩

def register (registry : Registry Thread) (thread : Thread) (entry : Entry) : Registry Thread :=
  { registry with
    count := registry.count + 1
    pair := Function.update registry.pair registry.count entry
    place := Function.update registry.place registry.count (some (.threadLocal thread)) }

def relocate (registry : Registry Thread) (place : Nat → Option (Place Thread)) : Registry Thread :=
  { registry with
    place := place
    entries := fun id => registry.entries id +
      if place id = some .toFinalize ∧ registry.place id ≠ some .toFinalize then 1 else 0 }

def verdict (collection : Collection Thread) (entry : Entry) : Option (Place Thread) :=
  if present entry then some (if due collection.isLive entry then .toFinalize else .marked)
  else none

def placeAfter (collection : Collection Thread) (entry : Entry) :
    Option (Place Thread) → Option (Place Thread)
  | some (.threadLocal _) => verdict collection entry
  | some .marked => if collection.nursery then some .marked else verdict collection entry
  | place => place

/-- The pairs a collection traces: all that are then in the marked list or in to_finalize, but
for those that a nursery collection finds in the marked list. -/
def isTraced (collection : Collection Thread) (before after : Option (Place Thread)) : Bool :=
  match after with
  | some .toFinalize => true
  | some .marked => !(collection.nursery && decide (before = some .marked))
  | _ => false

def scan (registry : Registry Thread) (collection : Collection Thread) : Registry Thread :=
  let place := fun id => placeAfter collection (registry.pair id) (registry.place id)
  { registry.relocate place with
    pair := fun id =>
      if isTraced collection (registry.place id) (place id) then
        forwardPair collection.traceObject (registry.pair id)
      else registry.pair id }

def drain (registry : Registry Thread) : Registry Thread :=
  registry.relocate fun id =>
    if registry.place id = some .toFinalize then some .drained else registry.place id

def step (registry : Registry Thread) : Event Thread → Registry Thread
  | .register thread entry => registry.register thread entry
  | .scan collection => registry.scan collection
  | .drain => registry.drain

end Registry

/-- The world as the code runs it, and the registry in step with it. -/
def registered (debug : Bool) : System (Registry Thread × World Thread) (Event Thread) where
  initial := (.initial, .initial)
  next := fun (registry, world) event =>
    (world.step debug event).toOption.map fun after => (registry.step event, after)

/-- Registered pairs are well formed, and the iterator of the active plan yields each mutator
once and leaves out no list that holds anything. -/
def Permitted (state : Registry Thread × World Thread) : Event Thread → Prop
  | .register _ entry => Registered entry
  | .scan collection => collection.mutators.Nodup ∧
      ∀ thread, state.2.lists.threadLocal thread ≠ ⟨[]⟩ → thread ∈ collection.mutators
  | .drain => True

def Describes (registry : Registry Thread) (world : World Thread) : Prop :=
  ∀ place, ∃ ids, Enumerates (fun id => registry.place id = some place) ids ∧
    world.listAt place = ⟨words (ids.map registry.pair)⟩

/-- The invariant of the runs. -/
structure Coherent (registry : Registry Thread) (world : World Thread) : Prop where
  described : Describes registry world
  later : ∀ id, registry.count ≤ id → registry.place id = none
  wellFormed : ∀ id place, registry.place id = some place → Registered (registry.pair id)
  held : ∀ id, id < registry.count → present (registry.pair id) = true →
    ∃ place, registry.place id = some place
  entries : ∀ id, registry.entries id =
    if registry.place id = some .toFinalize ∨ registry.place id = some .drained then 1 else 0

theorem Registered.forwardPair {entry : Entry} (traceObject : Address → ObjectReference)
    (registered : Registered entry) : Registered (forwardPair traceObject entry) := by
  have nonzero := registered.nonzero
  rcases registered.2 with ⟨tag, finalizer⟩ | tag | tag
  · rw [forwardPair_object traceObject nonzero tag]
    exact ⟨by simpa using (traceObject entry.1).nonzero,
      .inl ⟨by simp, (traceObject entry.2).nonzero, by simp⟩⟩
  · rw [forwardPair_native traceObject nonzero tag]
    refine ⟨?_, .inr (.inl (ObjectReference.tagBits_or_one _))⟩
    rw [ObjectReference.untagged_or_one]
    exact (traceObject (untagged entry.1)).nonzero
  · rw [forwardPair_malloced traceObject nonzero tag]
    exact registered

theorem initial_coherent :
    Coherent (.initial : Registry Thread) (.initial : World Thread) := by
  refine ⟨?_, ?_, ?_, ?_, ?_⟩
  · intro place
    refine ⟨[], Enumerates.none (fun id => by simp [Registry.initial]), ?_⟩
    cases place <;> rfl
  · intro id _
    rfl
  · intro id place held
    simp [Registry.initial] at held
  · intro id below
    simp [Registry.initial] at below
  · intro id
    simp [Registry.initial]

section Register

variable {debug : Bool} {registry : Registry Thread} {world : World Thread}

theorem register_described (described : Describes registry world)
    (later : ∀ id, registry.count ≤ id → registry.place id = none) (thread : Thread)
    (entry : Entry) :
    ∃ after, world.step debug (.register thread entry) = .ok after ∧
      Describes (registry.register thread entry) after := by
  have pushed := pushPair_eq (world.lists.threadLocal thread) entry
  refine ⟨_, by simp only [World.step, pushed, bind, Except.bind]; rfl, ?_⟩
  intro place
  rcases described place with ⟨ids, enumerated, image⟩
  have unregistered : registry.place registry.count = none := later _ (le_refl _)
  have kept : ids.map (Function.update registry.pair registry.count entry) =
      ids.map registry.pair := by
    apply List.map_congr_left
    intro id member
    apply Function.update_of_ne
    rintro rfl
    simp [(enumerated.2 _).mp member] at unregistered
  by_cases here : place = .threadLocal thread
  · subst here
    refine ⟨ids ++ [registry.count], (enumerated.snoc registry.count ?_).congr ?_, ?_⟩
    · simp [unregistered]
    · intro id
      by_cases new : id = registry.count
      · simp [Registry.register, new]
      · simp [Registry.register, new]
    · simp only [World.listAt] at image
      simp [World.listAt, Registry.register, kept, image]
  · refine ⟨ids, enumerated.congr ?_, ?_⟩
    · intro id
      by_cases new : id = registry.count
      · subst new
        simp [Registry.register, unregistered, Ne.symm here]
      · simp [Registry.register, new]
    · rw [Registry.register, kept, ← image]
      cases place with
      | threadLocal other =>
          have different : other ≠ thread := by
            rintro rfl
            exact here rfl
          simp [World.listAt, different]
      | marked => rfl
      | toFinalize => rfl
      | drained => rfl

theorem register_coherent (coherent : Coherent registry world) (thread : Thread)
    {entry : Entry} (registered : Registered entry) :
    ∃ after, world.step debug (.register thread entry) = .ok after ∧
      Coherent (registry.register thread entry) after := by
  rcases register_described coherent.described coherent.later thread entry with
    ⟨after, stepped, described⟩
  refine ⟨after, stepped, described, ?_, ?_, ?_, ?_⟩
  · intro id above
    have above : registry.count + 1 ≤ id := above
    have old : id ≠ registry.count := by omega
    simpa [Registry.register, old] using coherent.later id (by omega)
  · intro id place held
    by_cases new : id = registry.count
    · simpa [Registry.register, new] using registered
    · simp only [Registry.register, Function.update_of_ne new] at held ⊢
      exact coherent.wellFormed id place held
  · intro id below shown
    by_cases new : id = registry.count
    · exact ⟨.threadLocal thread, by simp [Registry.register, new]⟩
    · have below : id < registry.count + 1 := below
      simp only [Registry.register, Function.update_of_ne new] at shown ⊢
      exact coherent.held id (by omega) shown
  · intro id
    by_cases new : id = registry.count
    · have none := coherent.entries id
      simp [new, coherent.later _ (le_refl registry.count)] at none
      simp [Registry.register, new, none]
    · simpa [Registry.register, new] using coherent.entries id

end Register

section Relocate

variable {debug : Bool} {registry : Registry Thread} {place : Nat → Option (Place Thread)}

theorem relocate_entries
    (entries : ∀ id, registry.entries id =
      if registry.place id = some .toFinalize ∨ registry.place id = some .drained then 1 else 0)
    (forward : ∀ id, registry.place id = some .toFinalize ∨ registry.place id = some .drained →
      place id = some .toFinalize ∧ registry.place id = some .toFinalize ∨
        place id = some .drained)
    (entered : ∀ id, place id = some .drained →
      registry.place id = some .toFinalize ∨ registry.place id = some .drained) (id : Nat) :
    (registry.relocate place).entries id =
      if place id = some .toFinalize ∨ place id = some .drained then 1 else 0 := by
  have count := entries id
  by_cases gone : registry.place id = some .toFinalize ∨ registry.place id = some .drained
  · rw [if_pos gone] at count
    rcases forward id gone with ⟨stays, was⟩ | drained
    · simp [Registry.relocate, count, stays, was]
    · simp [Registry.relocate, count, drained]
  · rw [if_neg gone] at count
    have notDrained : place id ≠ some .drained := fun drained => gone (entered id drained)
    have outside : registry.place id ≠ some .toFinalize := fun here => gone (.inl here)
    simp [Registry.relocate, count, notDrained, outside]

end Relocate

section Drain

variable {debug : Bool} {registry : Registry Thread} {world : World Thread}

theorem drain_described (described : Describes registry world) :
    ∃ after, world.step debug .drain = .ok after ∧ Describes registry.drain after := by
  refine ⟨_, rfl, ?_⟩
  rcases described .toFinalize with ⟨waiting, enumeratedWaiting, imageWaiting⟩
  rcases described .drained with ⟨drained, enumeratedDrained, imageDrained⟩
  intro place
  cases place with
  | threadLocal thread =>
      rcases described (.threadLocal thread) with ⟨ids, enumerated, image⟩
      refine ⟨ids, enumerated.congr ?_, image⟩
      intro id
      by_cases moved : registry.place id = some .toFinalize <;>
        simp [Registry.drain, Registry.relocate, moved]
  | marked =>
      rcases described .marked with ⟨ids, enumerated, image⟩
      refine ⟨ids, enumerated.congr ?_, image⟩
      intro id
      by_cases moved : registry.place id = some .toFinalize <;>
        simp [Registry.drain, Registry.relocate, moved]
  | toFinalize =>
      refine ⟨[], Enumerates.none ?_, rfl⟩
      intro id
      by_cases moved : registry.place id = some .toFinalize <;>
        simp [Registry.drain, Registry.relocate, moved]
  | drained =>
      have apart : ∀ id, registry.place id = some .drained → ¬ registry.place id = some .toFinalize := by
        intro id here
        simp [here]
      refine ⟨drained ++ waiting, (enumeratedDrained.append enumeratedWaiting apart).congr ?_, ?_⟩
      · intro id
        by_cases moved : registry.place id = some .toFinalize <;>
          simp [Registry.drain, Registry.relocate, moved]
      · simp only [World.listAt] at imageWaiting imageDrained
        simp [World.listAt, Registry.drain, Registry.relocate, imageWaiting, imageDrained]

theorem drain_coherent (coherent : Coherent registry world) :
    ∃ after, world.step debug .drain = .ok after ∧ Coherent registry.drain after := by
  rcases drain_described coherent.described with ⟨after, stepped, described⟩
  refine ⟨after, stepped, described, ?_, ?_, ?_, relocate_entries coherent.entries ?_ ?_⟩
  · intro id above
    simp [Registry.drain, Registry.relocate, coherent.later id above]
  · intro id place held
    by_cases moved : registry.place id = some .toFinalize
    · exact coherent.wellFormed id _ moved
    · simp only [Registry.drain, Registry.relocate, if_neg moved] at held
      exact coherent.wellFormed id place held
  · intro id below shown
    by_cases moved : registry.place id = some .toFinalize
    · exact ⟨.drained, by simp [Registry.drain, Registry.relocate, moved]⟩
    · simp only [Registry.drain, Registry.relocate, if_neg moved]
      exact coherent.held id below shown
  · rintro id (waiting | drained)
    · exact .inr (if_pos waiting)
    · exact .inr (by simp [drained])
  · intro id drained
    by_cases moved : registry.place id = some .toFinalize
    · exact .inl moved
    · simp only [if_neg moved] at drained
      exact .inr drained

end Drain

end MmtkJulia.Finalizer
