import MmtkJulia.Listing
import MmtkJulia.Runs
import MmtkJulia.Word
import Mathlib.Data.Finset.Basic

/-! The registry of mutators: MUTATORS of lib.rs with the functions of api.rs that change it under
the write lock, and the iterators of active_plan.rs that hold a read guard. -/

namespace MmtkJulia.Mutators

/-- JuliaMutatorIterator. What it has returned so far is history. -/
structure JuliaMutatorIterator where
  vec : List Address
  cursor : Nat
  returned : List (Option Address)
  deriving DecidableEq, Repr

def JuliaMutatorIterator.new (keys : List Address) : JuliaMutatorIterator := ⟨keys, 0, []⟩

def JuliaMutatorIterator.next (iterator : JuliaMutatorIterator) : JuliaMutatorIterator where
  vec := iterator.vec
  cursor := iterator.cursor + 1
  returned := iterator.returned ++ [iterator.vec[iterator.cursor]?]

/-- An unwrap of none under the write lock, and Box::from_raw of a box that has been freed. -/
inductive Broken where
  | poisoned
  | freedTwice
  deriving DecidableEq, Repr

/-- MUTATORS maps the address of a mutator in its thread to the box it was copied from. The read
guards are the open iterators. Boxes exist from bind_mutator until they are freed, and are fresh
until post_bind_mutator. A mutator is being destroyed from the call into MMTk until its entry is
removed. -/
structure State where
  mutators : Address → Option Address
  readers : Finset Nat
  iterators : Nat → JuliaMutatorIterator
  boxes : Address → Bool
  fresh : Address → Bool
  destroying : Address → Bool
  broken : Option Broken

inductive Action where
  | bindMutator (box : Address)
  | postBindMutator (mutator original : Address)
  | destroyMutator (mutator : Address)
  | removeMutator (mutator : Address)
  | newMutatorIterator (iter : Nat) (keys : List Address)
  | getNextMutator (iter : Nat)
  | closeMutatorIterator (iter : Nat)
  deriving DecidableEq, Repr

namespace State

variable (state : State)

/-- The write lock can be taken: nobody reads, and nobody has panicked with the lock. -/
def Writable : Prop := state.readers = ∅ ∧ state.broken = none

instance : Decidable state.Writable := inferInstanceAs (Decidable (_ ∧ _))

def remove (mutator : Address) : State :=
  match state.mutators mutator with
  | none => { state with broken := some .poisoned }
  | some original =>
      if state.boxes original then { state with
        boxes := Function.update state.boxes original false
        mutators := Function.update state.mutators mutator none
        destroying := Function.update state.destroying mutator false }
      else { state with broken := some .freedTwice }

def next : Action → Option State
  -- the allocator returns a box that is not in use
  | .bindMutator box =>
      if state.boxes box then none
      else some { state with
        boxes := Function.update state.boxes box true
        fresh := Function.update state.fresh box true }
  | .postBindMutator mutator original =>
      if state.Writable then some { state with
        mutators := Function.update state.mutators mutator (some original)
        fresh := Function.update state.fresh original false }
      else none
  -- memory_manager::destroy_mutator comes before the lock
  | .destroyMutator mutator =>
      some { state with destroying := Function.update state.destroying mutator true }
  | .removeMutator mutator =>
      if state.destroying mutator ∧ state.Writable then some (state.remove mutator) else none
  | .newMutatorIterator iter keys =>
      if iter ∉ state.readers ∧ state.broken = none then some { state with
        readers := insert iter state.readers
        iterators := Function.update state.iterators iter (.new keys) }
      else none
  | .getNextMutator iter =>
      if iter ∈ state.readers then some { state with
        iterators := Function.update state.iterators iter (state.iterators iter).next }
      else none
  | .closeMutatorIterator iter =>
      if iter ∈ state.readers then some { state with readers := state.readers.erase iter } else none

def Registered (mutator : Address) : Prop := state.mutators mutator ≠ none

/-- What the threads of the runtime do: a box is copied to one thread, a mutator is registered once
until it is destroyed, and destroyed once. HashMap::keys lists each key once, in some order. -/
def Disciplined : Action → Prop
  | .postBindMutator mutator original => state.fresh original = true ∧ ¬ state.Registered mutator
  | .destroyMutator mutator => state.Registered mutator ∧ state.destroying mutator = false
  | .newMutatorIterator _ keys => Enumerates state.Registered keys
  | _ => True

end State

def initial : State where
  mutators := fun _ => none
  readers := ∅
  iterators := fun _ => .new []
  boxes := fun _ => false
  fresh := fun _ => false
  destroying := fun _ => false
  broken := none

def registry : System State Action := ⟨initial, State.next⟩

structure Sound (state : State) : Prop where
  unbroken : state.broken = none
  covers : ∀ iter ∈ state.readers, Enumerates state.Registered (state.iterators iter).vec
  returned : ∀ iter ∈ state.readers, (state.iterators iter).returned =
    (List.range (state.iterators iter).cursor).map (fun i => (state.iterators iter).vec[i]?)
  live : ∀ mutator box, state.mutators mutator = some box →
    state.boxes box = true ∧ state.fresh box = false
  distinct : ∀ mutator other box, state.mutators mutator = some box →
    state.mutators other = some box → mutator = other
  kept : ∀ box, state.boxes box = true →
    state.fresh box = true ∨ ∃ mutator, state.mutators mutator = some box
  fresh : ∀ box, state.fresh box = true → state.boxes box = true
  destroying : ∀ mutator, state.destroying mutator = true → state.Registered mutator

section Steps

variable {state after : State}

theorem update_cases {Value : Type} {entries : Address → Value} {key other : Address}
    {value held : Value} (found : Function.update entries key value other = held) :
    other = key ∧ value = held ∨ other ≠ key ∧ entries other = held := by
  by_cases same : other = key
  · rw [same, Function.update_self] at found
    exact .inl ⟨same, found⟩
  · rw [Function.update_of_ne same] at found
    exact .inr ⟨same, found⟩

theorem sound_initial : Sound initial := by
  refine ⟨rfl, ?_, ?_, ?_, ?_, ?_, ?_, ?_⟩
  case refine_3 =>
    intro mutator box found
    cases found
  case refine_4 =>
    intro mutator other box found
    cases found
  all_goals simp [initial]

theorem Sound.unregistered (sound : Sound state) {box : Address} (new : state.fresh box = true)
    (mutator : Address) : state.mutators mutator ≠ some box := by
  intro found
  have before := (sound.live mutator box found).2
  rw [new] at before
  cases before

theorem Sound.bindMutator (sound : Sound state) {box : Address} (unused : state.boxes box = false) :
    Sound { state with
      boxes := Function.update state.boxes box true
      fresh := Function.update state.fresh box true } where
  unbroken := sound.unbroken
  covers := sound.covers
  returned := sound.returned
  live := by
    intro mutator other found
    have before := sound.live mutator other found
    have different : other ≠ box := by
      rintro rfl
      rw [unused] at before
      cases before.1
    simpa only [Function.update_of_ne different] using before
  distinct := sound.distinct
  kept := by
    intro other present
    rcases update_cases present with ⟨rfl, -⟩ | ⟨different, before⟩
    · exact .inl (Function.update_self _ _ _)
    · simpa only [Function.update_of_ne different] using sound.kept other before
  fresh := by
    intro other new
    rcases update_cases new with ⟨rfl, -⟩ | ⟨different, before⟩
    · exact Function.update_self _ _ _
    · simpa only [Function.update_of_ne different] using sound.fresh other before
  destroying := sound.destroying

theorem Sound.postBindMutator (sound : Sound state) {mutator original : Address}
    (nobody : state.readers = ∅) (new : state.fresh original = true)
    (absent : ¬ state.Registered mutator) :
    Sound { state with
      mutators := Function.update state.mutators mutator (some original)
      fresh := Function.update state.fresh original false } where
  unbroken := sound.unbroken
  covers := by
    intro iter member
    rw [nobody] at member
    cases member
  returned := sound.returned
  live := by
    intro other box found
    rcases update_cases found with ⟨-, same⟩ | ⟨-, before⟩
    · cases same
      exact ⟨sound.fresh original new, Function.update_self _ _ _⟩
    · have different : box ≠ original := by
        rintro rfl
        exact sound.unregistered new other before
      simpa only [Function.update_of_ne different] using sound.live other box before
  distinct := by
    intro first second box found again
    rcases update_cases found with ⟨same, own⟩ | ⟨-, before⟩
    · rcases update_cases again with ⟨equal, -⟩ | ⟨-, held⟩
      · exact same.trans equal.symm
      · exact absurd (held.trans own.symm) (sound.unregistered new second)
    · rcases update_cases again with ⟨-, own⟩ | ⟨-, held⟩
      · exact absurd (before.trans own.symm) (sound.unregistered new first)
      · exact sound.distinct first second box before held
  kept := by
    intro box present
    by_cases same : box = original
    · rw [same]
      exact .inr ⟨mutator, Function.update_self _ _ _⟩
    · rcases sound.kept box present with unbound | ⟨other, found⟩
      · exact .inl (by simpa only [Function.update_of_ne same] using unbound)
      · have different : other ≠ mutator := by
          rintro rfl
          exact absent (by simp [State.Registered, found])
        exact .inr ⟨other, by simpa only [Function.update_of_ne different] using found⟩
  fresh := by
    intro box unbound
    rcases update_cases unbound with ⟨-, never⟩ | ⟨-, before⟩
    · cases never
    · exact sound.fresh box before
  destroying := by
    intro other pending
    by_cases same : other = mutator
    · rw [same]
      simp [State.Registered]
    · simpa only [State.Registered, Function.update_of_ne same] using sound.destroying other pending

theorem Sound.destroyMutator (sound : Sound state) {mutator : Address}
    (registered : state.Registered mutator) :
    Sound { state with destroying := Function.update state.destroying mutator true } where
  unbroken := sound.unbroken
  covers := sound.covers
  returned := sound.returned
  live := sound.live
  distinct := sound.distinct
  kept := sound.kept
  fresh := sound.fresh
  destroying := by
    intro other pending
    rcases update_cases pending with ⟨rfl, -⟩ | ⟨-, before⟩
    · exact registered
    · exact sound.destroying other before

theorem Sound.remove_eq (sound : Sound state) {mutator original : Address}
    (found : state.mutators mutator = some original) : state.remove mutator = { state with
      boxes := Function.update state.boxes original false
      mutators := Function.update state.mutators mutator none
      destroying := Function.update state.destroying mutator false } := by
  rw [State.remove, found]
  exact if_pos (sound.live mutator original found).1

theorem Sound.removeMutator (sound : Sound state) {mutator : Address} (nobody : state.readers = ∅)
    (pending : state.destroying mutator = true) : Sound (state.remove mutator) := by
  rcases Option.ne_none_iff_exists'.mp (sound.destroying mutator pending) with ⟨original, found⟩
  have others : ∀ other box, Function.update state.mutators mutator none other = some box →
      other ≠ mutator ∧ state.mutators other = some box := by
    intro other box remains
    rcases update_cases remains with ⟨-, never⟩ | kept
    · cases never
    · exact kept
  rw [sound.remove_eq found]
  refine ⟨sound.unbroken, ?_, sound.returned, ?_, ?_, ?_, ?_, ?_⟩
  · intro iter member
    rw [nobody] at member
    cases member
  · intro other box remains
    rcases others other box remains with ⟨different, before⟩
    have elsewhere : box ≠ original := by
      rintro rfl
      exact different (sound.distinct other mutator box before found)
    simpa only [Function.update_of_ne elsewhere] using sound.live other box before
  · intro first second box remains again
    exact sound.distinct first second box (others first box remains).2 (others second box again).2
  · intro box present
    rcases update_cases present with ⟨-, never⟩ | ⟨elsewhere, remains⟩
    · cases never
    · rcases sound.kept box remains with unbound | ⟨other, before⟩
      · exact .inl unbound
      · have different : other ≠ mutator := by
          rintro rfl
          exact elsewhere (Option.some.inj (before.symm.trans found))
        exact .inr ⟨other, by simpa only [Function.update_of_ne different] using before⟩
  · intro box unbound
    have elsewhere : box ≠ original := by
      rintro rfl
      exact sound.unregistered unbound mutator found
    simpa only [Function.update_of_ne elsewhere] using sound.fresh box unbound
  · intro other waiting
    rcases update_cases waiting with ⟨-, never⟩ | ⟨different, before⟩
    · cases never
    · simpa only [State.Registered, Function.update_of_ne different] using
        sound.destroying other before

theorem Sound.newMutatorIterator (sound : Sound state) (iter : Nat) {keys : List Address}
    (listed : Enumerates state.Registered keys) :
    Sound { state with
      readers := insert iter state.readers
      iterators := Function.update state.iterators iter (.new keys) } where
  unbroken := sound.unbroken
  covers := by
    intro other member
    by_cases same : other = iter
    · rw [same]
      simp only [Function.update_self]
      exact listed
    · simp only [Function.update_of_ne same]
      exact sound.covers other (Finset.mem_of_mem_insert_of_ne member same)
  returned := by
    intro other member
    by_cases same : other = iter
    · rw [same]
      simp only [Function.update_self]
      rfl
    · simpa only [Function.update_of_ne same] using
        sound.returned other (Finset.mem_of_mem_insert_of_ne member same)
  live := sound.live
  distinct := sound.distinct
  kept := sound.kept
  fresh := sound.fresh
  destroying := sound.destroying

theorem Sound.getNextMutator (sound : Sound state) {iter : Nat} (reading : iter ∈ state.readers) :
    Sound { state with
      iterators := Function.update state.iterators iter (state.iterators iter).next } where
  unbroken := sound.unbroken
  covers := by
    intro other member
    by_cases same : other = iter
    · rw [same]
      simp only [Function.update_self]
      exact sound.covers iter reading
    · simp only [Function.update_of_ne same]
      exact sound.covers other member
  returned := by
    intro other member
    by_cases same : other = iter
    · rw [same]
      simp only [Function.update_self, JuliaMutatorIterator.next, List.range_succ, List.map_append]
      rw [← sound.returned iter reading]
      rfl
    · simpa only [Function.update_of_ne same] using sound.returned other member
  live := sound.live
  distinct := sound.distinct
  kept := sound.kept
  fresh := sound.fresh
  destroying := sound.destroying

theorem Sound.closeMutatorIterator (sound : Sound state) (iter : Nat) :
    Sound { state with readers := state.readers.erase iter } where
  unbroken := sound.unbroken
  covers := fun other member => sound.covers other (Finset.mem_of_mem_erase member)
  returned := fun other member => sound.returned other (Finset.mem_of_mem_erase member)
  live := sound.live
  distinct := sound.distinct
  kept := sound.kept
  fresh := sound.fresh
  destroying := sound.destroying

theorem Sound.next (sound : Sound state) {action : Action} (disciplined : state.Disciplined action)
    (taken : state.next action = some after) : Sound after := by
  cases action with
  | bindMutator box =>
      rw [State.next] at taken
      split at taken
      · cases taken
      · next unused =>
          cases taken
          exact sound.bindMutator (Bool.eq_false_of_not_eq_true unused)
  | postBindMutator mutator original =>
      rw [State.next] at taken
      split at taken
      · next writable =>
          cases taken
          exact sound.postBindMutator writable.1 disciplined.1 disciplined.2
      · cases taken
  | destroyMutator mutator =>
      cases taken
      exact sound.destroyMutator disciplined.1
  | removeMutator mutator =>
      rw [State.next] at taken
      split at taken
      · next writable =>
          cases taken
          exact sound.removeMutator writable.2.1 writable.1
      · cases taken
  | newMutatorIterator iter keys =>
      rw [State.next] at taken
      split at taken
      · cases taken
        exact sound.newMutatorIterator iter disciplined
      · cases taken
  | getNextMutator iter =>
      rw [State.next] at taken
      split at taken
      · next reading =>
          cases taken
          exact sound.getNextMutator reading
      · cases taken
  | closeMutatorIterator iter =>
      rw [State.next] at taken
      split at taken
      · cases taken
        exact sound.closeMutatorIterator iter
      · cases taken

end Steps

section Runs

variable {state : State}

theorem sound_of_reached (reached : registry.ReachableUnder State.Disciplined state) : Sound state := by
  apply reached.invariant Sound
  · exact sound_initial
  · intro before action after sound disciplined taken
    exact sound.next disciplined taken

def isMutator (tlsOf : Address → Address) (keys : List Address) (tls : Address) : Bool :=
  keys.any (fun mutator => tlsOf mutator = tls)

theorem isMutator_iff {keys : List Address} (listed : Enumerates state.Registered keys)
    (tlsOf : Address → Address) (tls : Address) :
    isMutator tlsOf keys tls = true ↔ ∃ mutator, state.Registered mutator ∧ tlsOf mutator = tls := by
  simp only [isMutator, List.any_eq_true, decide_eq_true_eq, listed.2]

theorem map_range_getElem? {Item : Type} (items : List Item) (count : Nat) :
    (List.range count).map (fun i => items[i]?) =
      (items.take count).map some ++ List.replicate (count - items.length) none := by
  induction count with
  | zero => simp
  | succ count ih =>
      rw [List.range_succ, List.map_append, ih, List.map_singleton, List.append_assoc]
      by_cases inside : count < items.length
      · have one : count + 1 - items.length = 0 := by omega
        have zero : count - items.length = 0 := by omega
        rw [one, zero, List.take_succ_eq_append_getElem inside, List.getElem?_eq_getElem inside,
          List.replicate_zero, List.append_nil, List.nil_append, List.map_append]
        rfl
      · have more : count + 1 - items.length = count - items.length + 1 := by omega
        rw [more, List.replicate_succ', List.getElem?_eq_none (by omega),
          List.take_of_length_le (by omega), List.take_of_length_le (by omega)]

/-- As long as an iterator is open, whatever other threads do, it stands for the registry as it is
now: it returns every registered mutator once and then null, and none of their boxes is freed. A box
is freed only once, and every box is either in the registry or has yet to be put there. -/
theorem open_iterators_cover_registry (reached : registry.ReachableUnder State.Disciplined state) :
    state.broken = none ∧
      (∀ iter ∈ state.readers, Enumerates state.Registered (state.iterators iter).vec ∧
        (state.iterators iter).returned =
          ((state.iterators iter).vec.take (state.iterators iter).cursor).map some ++
            List.replicate ((state.iterators iter).cursor - (state.iterators iter).vec.length) none ∧
        (∀ mutator ∈ (state.iterators iter).vec, ∃ box,
          state.mutators mutator = some box ∧ state.boxes box = true) ∧
        ∀ tlsOf tls, isMutator tlsOf (state.iterators iter).vec tls = true ↔
          ∃ mutator, state.Registered mutator ∧ tlsOf mutator = tls) ∧
      (∀ mutator other box, state.mutators mutator = some box → state.mutators other = some box →
        mutator = other) ∧
      (∀ box, state.boxes box = true ↔
        state.fresh box = true ∨ ∃ mutator, state.mutators mutator = some box) ∧
      ∀ mutator, state.destroying mutator = true → state.Writable →
        ∃ after, state.next (.removeMutator mutator) = some after ∧ after.broken = none ∧
          ¬ after.Registered mutator := by
  have sound := sound_of_reached reached
  refine ⟨sound.unbroken, ?_, sound.distinct, ?_, ?_⟩
  · intro iter reading
    have listed := sound.covers iter reading
    refine ⟨listed, ?_, ?_, isMutator_iff listed⟩
    · rw [sound.returned iter reading, map_range_getElem?]
    · intro mutator member
      rcases Option.ne_none_iff_exists'.mp ((listed.2 mutator).mp member) with ⟨box, found⟩
      exact ⟨box, found, (sound.live mutator box found).1⟩
  · intro box
    constructor
    · exact sound.kept box
    · rintro (new | ⟨mutator, found⟩)
      · exact sound.fresh box new
      · exact (sound.live mutator box found).1
  · intro mutator pending writable
    rcases Option.ne_none_iff_exists'.mp (sound.destroying mutator pending) with ⟨original, found⟩
    refine ⟨state.remove mutator, if_pos ⟨pending, writable⟩, ?_, ?_⟩
    · rw [sound.remove_eq found]
      exact sound.unbroken
    · rw [sound.remove_eq found]
      simp [State.Registered]

end Runs

theorem reached_step {before after : State} (action : Action)
    (past : registry.ReachableUnder State.Disciplined before) (disciplined : before.Disciplined action)
    (taken : before.next action = some after) : registry.ReachableUnder State.Disciplined after :=
  .step action past disciplined taken

theorem sampleKeys_listed (mutator : Address) : mutator ∈ [(0x6000 : Address), 0x5000] ↔
    Function.update (Function.update (fun _ => none) 0x5000 (some (0x1000 : Address))) 0x6000
      (some 0x2000) mutator ≠ none := by
  rw [List.mem_pair]
  by_cases last : mutator = 0x6000
  · rw [last, Function.update_self]
    exact iff_of_true (.inl rfl) nofun
  · rw [Function.update_of_ne last]
    by_cases other : mutator = 0x5000
    · rw [other, Function.update_self]
      exact iff_of_true (.inr rfl) nofun
    · rw [Function.update_of_ne other]
      exact iff_of_false (not_or.mpr ⟨last, other⟩) (not_not.mpr rfl)

/-- Two threads, an iterator that has returned both of them and null, and one of the threads in the
middle of its destruction, which waits for the iterator. -/
theorem open_iterators_cover_registry_drained :
    ∃ state : State, state.broken = none ∧ state.destroying 0x5000 = true ∧
      (state.iterators 7).returned = [some 0x6000, some 0x5000, none] ∧
      Enumerates state.Registered [0x6000, 0x5000] ∧ state.next (.removeMutator 0x5000) = none := by
  have first := reached_step (.bindMutator 0x1000) .initial trivial rfl
  have second := reached_step (.postBindMutator 0x5000 0x1000) first
    ⟨rfl, fun registered => registered rfl⟩ rfl
  have third := reached_step (.bindMutator 0x2000) second trivial rfl
  have fourth := reached_step (.postBindMutator 0x6000 0x2000) third
    ⟨rfl, fun registered => registered rfl⟩ rfl
  have fifth := reached_step (.destroyMutator 0x5000) fourth ⟨nofun, rfl⟩ rfl
  have sixth := reached_step (.newMutatorIterator 7 [0x6000, 0x5000]) fifth ⟨by decide, sampleKeys_listed⟩ rfl
  have seventh := reached_step (.getNextMutator 7) sixth trivial rfl
  have eighth := reached_step (.getNextMutator 7) seventh trivial rfl
  have ninth := reached_step (.getNextMutator 7) eighth trivial rfl
  rcases open_iterators_cover_registry ninth with ⟨unbroken, reading, -⟩
  rcases reading 7 (Finset.mem_insert_self 7 ∅) with ⟨listed, returned, -⟩
  exact ⟨_, unbroken, rfl, returned, listed, rfl⟩

end MmtkJulia.Mutators
