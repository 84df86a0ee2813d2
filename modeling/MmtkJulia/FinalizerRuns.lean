import MmtkJulia.FinalizerRegistry

/-! What a collection does to the registered pairs, and what holds in every run. -/

namespace MmtkJulia.Finalizer

variable {Thread : Type}

variable {debug : Bool} {registry : Registry Thread} {world : World Thread}
  {collection : Collection Thread} {ids : Place Thread → List Nat}

/-- The numbers of the pairs of each list. -/
structure Numbers (registry : Registry Thread) (world : World Thread)
    (ids : Place Thread → List Nat) : Prop where
  enumerated : ∀ place, Enumerates (fun id => registry.place id = some place) (ids place)
  image : ∀ place, world.listAt place = ⟨words ((ids place).map registry.pair)⟩

theorem Describes.numbers (described : Describes registry world) :
    ∃ ids, Numbers registry world ids := by
  choose ids both using described
  exact ⟨ids, fun place => (both place).1, fun place => (both place).2⟩

def imagesAt (registry : Registry Thread) (ids : Place Thread → List Nat) (place : Place Thread) :
    List Entry :=
  (ids place).map registry.pair

theorem Numbers.lists (numbers : Numbers registry world ids) :
    world.lists = holding (fun thread => imagesAt registry ids (.threadLocal thread))
      (imagesAt registry ids .marked) (imagesAt registry ids .toFinalize)
      world.lists.havePending := by
  rcases world with ⟨⟨locals, marked, toFinalize, pending⟩, drained⟩
  have first : locals = fun thread => ⟨words (imagesAt registry ids (.threadLocal thread))⟩ := by
    funext thread
    exact numbers.image (.threadLocal thread)
  have second := numbers.image .marked
  have third := numbers.image .toFinalize
  simp only [World.listAt] at second third
  simp only [holding, first, second, third, imagesAt]

def freshIds (collection : Collection Thread) (ids : Place Thread → List Nat) : List Nat :=
  collection.mutators.flatMap (fun thread => ids (.threadLocal thread))

def isOld (registry : Registry Thread) (collection : Collection Thread) (id : Nat) : Bool :=
  present (registry.pair id) && !due collection.isLive (registry.pair id)

def isFreed (registry : Registry Thread) (collection : Collection Thread) (id : Nat) : Bool :=
  present (registry.pair id) && due collection.isLive (registry.pair id)

def markedIds (registry : Registry Thread) (collection : Collection Thread)
    (ids : Place Thread → List Nat) : List Nat :=
  (if collection.nursery then ids .marked else []) ++
    (if collection.nursery then freshIds collection ids
      else ids .marked ++ freshIds collection ids).filter (isOld registry collection)

def finalIds (registry : Registry Thread) (collection : Collection Thread)
    (ids : Place Thread → List Nat) : List Nat :=
  ids .toFinalize ++ (freshIds collection ids).filter (isFreed registry collection) ++
    if collection.nursery then [] else (ids .marked).filter (isFreed registry collection)

theorem survivors_images (chosen : List Nat) :
    survivors collection.isLive (chosen.map registry.pair) =
      (chosen.filter (isOld registry collection)).map registry.pair := by
  rw [survivors, List.filter_map]
  rfl

theorem freed_images (chosen : List Nat) :
    freed collection.isLive (chosen.map registry.pair) =
      (chosen.filter (isFreed registry collection)).map registry.pair := by
  rw [freed, List.filter_map]
  rfl

theorem fresh_images :
    collection.mutators.flatMap (fun thread => imagesAt registry ids (.threadLocal thread)) =
      (freshIds collection ids).map registry.pair := by
  rw [freshIds, List.map_flatMap]
  rfl

theorem verdict_eq_marked {id : Nat} :
    Registry.verdict collection (registry.pair id) = some .marked ↔
      isOld registry collection id = true := by
  cases shown : present (registry.pair id) <;> cases dead : due collection.isLive (registry.pair id) <;>
    simp [Registry.verdict, isOld, shown, dead]

theorem verdict_eq_toFinalize {id : Nat} :
    Registry.verdict collection (registry.pair id) = some .toFinalize ↔
      isFreed registry collection id = true := by
  cases shown : present (registry.pair id) <;> cases dead : due collection.isLive (registry.pair id) <;>
    simp [Registry.verdict, isFreed, shown, dead]

theorem Numbers.fresh (numbers : Numbers registry world ids)
    (permitted : Permitted (registry, world) (.scan collection)) :
    Enumerates (fun id => ∃ thread, registry.place id = some (.threadLocal thread))
      (freshIds collection ids) := by
  have threads := Enumerates.flatMap (fun thread => numbers.enumerated (.threadLocal thread))
    collection.mutators permitted.1 (fun id thread other first second => by
      rw [first] at second
      injection second with second
      injection second)
  apply threads.congr
  intro id
  constructor
  · rintro ⟨thread, -, held⟩
    exact ⟨thread, held⟩
  · rintro ⟨thread, held⟩
    refine ⟨thread, permitted.2 thread ?_, held⟩
    have member := ((numbers.enumerated (.threadLocal thread)).2 id).mpr held
    have image := numbers.image (.threadLocal thread)
    simp only [World.listAt] at image
    rw [image]
    intro empty
    have none : (words ((ids (.threadLocal thread)).map registry.pair)).length = 0 := by
      rw [ArrayListT.mk.injEq] at empty
      rw [empty]
      rfl
    have some := List.length_pos_of_mem member
    simp at none
    simp [none] at some

theorem Numbers.registered (numbers : Numbers registry world ids)
    (wellFormed : ∀ id place, registry.place id = some place → Registered (registry.pair id))
    (place : Place Thread) : ∀ entry ∈ imagesAt registry ids place, Registered entry := by
  intro entry member
  rcases List.mem_map.mp member with ⟨id, listed, rfl⟩
  exact wellFormed id place (((numbers.enumerated place).2 id).mp listed)

theorem Numbers.admissible (numbers : Numbers registry world ids) (mutators : List Thread)
    (wellFormed : ∀ id place, registry.place id = some place → Registered (registry.pair id)) :
    AdmissibleLists mutators
      (fun thread => imagesAt registry ids (.threadLocal thread)) (imagesAt registry ids .marked)
      (imagesAt registry ids .toFinalize) := by
  have images := fun place entry member => (numbers.registered wellFormed place entry member).admissible
  exact ⟨fun thread _ => images (.threadLocal thread), images .marked, images .toFinalize⟩

theorem Numbers.addressed (numbers : Numbers registry world ids) (nursery : Bool)
    (mutators : List Thread)
    (wellFormed : ∀ id place, registry.place id = some place → Registered (registry.pair id)) :
    Addressed (decided nursery (imagesAt registry ids .marked)
      (mutators.flatMap (fun thread => imagesAt registry ids (.threadLocal thread)))) := by
  have each := fun place entry member => (numbers.registered wellFormed place entry member).1
  have fresh : Addressed (mutators.flatMap (fun thread => imagesAt registry ids (.threadLocal thread))) := by
    intro entry member
    rcases List.mem_flatMap.mp member with ⟨thread, -, member⟩
    exact each (.threadLocal thread) entry member
  cases nursery with
  | true => exact fresh
  | false => exact addressed_append.mpr ⟨each .marked, fresh⟩

section Verdict

variable (collection : Collection Thread) (entry : Entry)

theorem verdict_cases : Registry.verdict collection entry = none ∨
    Registry.verdict collection entry = some .toFinalize ∨
    Registry.verdict collection entry = some .marked := by
  rw [Registry.verdict]
  split_ifs <;> simp

theorem placeAfter_cases (place : Option (Place Thread)) :
    (Registry.placeAfter collection entry place = Registry.verdict collection entry ∧
      place ≠ some .drained) ∨
    (Registry.placeAfter collection entry place = place ∧
      ∀ thread, place ≠ some (.threadLocal thread)) := by
  rcases place with _ | (_ | _ | _ | _)
  case some.threadLocal thread => exact .inl ⟨rfl, by simp⟩
  case some.marked =>
    cases nursery : collection.nursery
    · exact .inl ⟨by simp [Registry.placeAfter, nursery], by simp⟩
    · exact .inr ⟨by simp [Registry.placeAfter, nursery], by simp⟩
  all_goals exact .inr ⟨rfl, by simp⟩

theorem placeAfter_ne_threadLocal (place : Option (Place Thread)) (thread : Thread) :
    Registry.placeAfter collection entry place ≠ some (.threadLocal thread) := by
  rcases placeAfter_cases collection entry place with ⟨judged, -⟩ | ⟨kept, other⟩
  · rw [judged]
    rcases verdict_cases collection entry with verdict | verdict | verdict <;> simp [verdict]
  · rw [kept]
    exact other thread

theorem placeAfter_eq_drained (place : Option (Place Thread)) :
    Registry.placeAfter collection entry place = some .drained ↔ place = some .drained := by
  rcases placeAfter_cases collection entry place with ⟨judged, waiting⟩ | ⟨kept, -⟩
  · rw [judged]
    rcases verdict_cases collection entry with verdict | verdict | verdict <;>
      simp [verdict, waiting]
  · rw [kept]

theorem placeAfter_ne_none (shown : present entry = true) (before : Place Thread) :
    Registry.placeAfter collection entry (some before) ≠ none := by
  rcases before with _ | _ | _ | _
  case marked =>
    cases nursery : collection.nursery <;>
      simp [Registry.placeAfter, nursery, Registry.verdict, shown]
  all_goals simp [Registry.placeAfter, Registry.verdict, shown]

end Verdict

variable [DecidableEq Thread]

theorem scan_place (id : Nat) : (registry.scan collection).place id =
    Registry.placeAfter collection (registry.pair id) (registry.place id) := rfl

theorem markedIds_enumerated (numbers : Numbers registry world ids)
    (permitted : Permitted (registry, world) (.scan collection)) :
    Enumerates (fun id => (registry.scan collection).place id = some .marked)
      (markedIds registry collection ids) := by
  have marked := numbers.enumerated .marked
  have fresh := numbers.fresh permitted
  have apart : ∀ id, registry.place id = some .marked →
      ¬ ∃ thread, registry.place id = some (.threadLocal thread) := by
    rintro id here ⟨thread, there⟩
    simp [here] at there
  cases nursery : collection.nursery with
  | true =>
      rw [markedIds, nursery]
      have old := fresh.filter (isOld registry collection)
      apply (marked.append old (fun id here there => apart id here there.1)).congr
      intro id
      rcases place : registry.place id with _ | (_ | _ | _ | _) <;>
        simp [scan_place, Registry.placeAfter, place, nursery, verdict_eq_marked]
  | false =>
      rw [markedIds, nursery]
      apply ((marked.append fresh apart).filter (isOld registry collection)).congr
      intro id
      rcases place : registry.place id with _ | (_ | _ | _ | _) <;>
        simp [scan_place, Registry.placeAfter, place, nursery, verdict_eq_marked]

theorem finalIds_enumerated (numbers : Numbers registry world ids)
    (permitted : Permitted (registry, world) (.scan collection)) :
    Enumerates (fun id => (registry.scan collection).place id = some .toFinalize)
      (finalIds registry collection ids) := by
  have waiting := numbers.enumerated .toFinalize
  have fresh := (numbers.fresh permitted).filter (isFreed registry collection)
  have both := waiting.append fresh (fun id here there => by
    rcases there.1 with ⟨thread, there⟩
    simp [here] at there)
  cases nursery : collection.nursery with
  | true =>
      rw [finalIds, nursery, if_pos rfl, List.append_nil]
      apply both.congr
      intro id
      rcases place : registry.place id with _ | (_ | _ | _ | _) <;>
        simp [scan_place, Registry.placeAfter, place, nursery, verdict_eq_toFinalize]
  | false =>
      rw [finalIds, nursery, if_neg Bool.false_ne_true]
      have marked := (numbers.enumerated .marked).filter (isFreed registry collection)
      apply (both.append marked (fun id here there => by
        rcases here with here | ⟨⟨thread, here⟩, -⟩ <;> simp [here] at there)).congr
      intro id
      rcases place : registry.place id with _ | (_ | _ | _ | _) <;>
        simp [scan_place, Registry.placeAfter, place, nursery, verdict_eq_toFinalize]

theorem scan_pair (id : Nat) : (registry.scan collection).pair id =
    if Registry.isTraced collection (registry.place id) ((registry.scan collection).place id) then
      forwardPair collection.traceObject (registry.pair id)
    else registry.pair id := rfl

theorem scan_pair_traced {id : Nat} {place : Option (Place Thread)}
    (moved : (registry.scan collection).place id = place)
    (traced : Registry.isTraced collection (registry.place id) place = true) :
    (registry.scan collection).pair id = forwardPair collection.traceObject (registry.pair id) := by
  rw [scan_pair, moved, if_pos traced]

theorem scan_pair_untraced {id : Nat} {place : Option (Place Thread)}
    (moved : (registry.scan collection).place id = place)
    (untraced : Registry.isTraced collection (registry.place id) place = false) :
    (registry.scan collection).pair id = registry.pair id := by
  rw [scan_pair, moved, untraced, if_neg Bool.false_ne_true]

theorem marked_images (numbers : Numbers registry world ids)
    (permitted : Permitted (registry, world) (.scan collection)) :
    settled collection.nursery (imagesAt registry ids .marked) ++
        (aged collection.nursery collection.isLive (imagesAt registry ids .marked)
          ((freshIds collection ids).map registry.pair)).map (forwardPair collection.traceObject) =
      (markedIds registry collection ids).map (registry.scan collection).pair := by
  have enumerated := markedIds_enumerated numbers permitted
  cases nursery : collection.nursery with
  | true =>
      simp only [markedIds, nursery, if_true] at enumerated ⊢
      simp only [settled, aged, decided, if_true, survivors_images, imagesAt, List.map_append,
        List.map_map]
      congr 1
      · apply List.map_congr_left
        intro id member
        have here := ((numbers.enumerated .marked).2 id).mp member
        have stays := (enumerated.2 id).mp (List.mem_append_left _ member)
        rw [scan_pair_untraced stays (by simp [Registry.isTraced, nursery, here])]
      · apply List.map_congr_left
        intro id member
        have moved := (enumerated.2 id).mp (List.mem_append_right _ member)
        rcases ((numbers.fresh permitted).2 id).mp (List.mem_of_mem_filter member) with ⟨thread, here⟩
        rw [scan_pair_traced moved (by simp [Registry.isTraced, here])]
        rfl
  | false =>
      simp only [markedIds, nursery, Bool.false_eq_true, if_false] at enumerated ⊢
      simp only [settled, aged, decided, Bool.false_eq_true, if_false, imagesAt, ← List.map_append,
        survivors_images, List.map_map, List.nil_append]
      apply List.map_congr_left
      intro id member
      have moved := (enumerated.2 id).mp member
      rw [scan_pair_traced moved (by simp [Registry.isTraced, nursery])]
      rfl

theorem final_images (numbers : Numbers registry world ids)
    (permitted : Permitted (registry, world) (.scan collection)) :
    (finalized collection.nursery collection.isLive (imagesAt registry ids .marked)
        (imagesAt registry ids .toFinalize) ((freshIds collection ids).map registry.pair)).map
          (forwardPair collection.traceObject) =
      (finalIds registry collection ids).map (registry.scan collection).pair := by
  have enumerated := finalIds_enumerated numbers permitted
  have images : finalized collection.nursery collection.isLive (imagesAt registry ids .marked)
      (imagesAt registry ids .toFinalize) ((freshIds collection ids).map registry.pair) =
      (finalIds registry collection ids).map registry.pair := by
    cases nursery : collection.nursery <;>
      simp [finalized, finalIds, nursery, imagesAt, freed_images]
  rw [images, List.map_map]
  apply List.map_congr_left
  intro id member
  rw [scan_pair_traced ((enumerated.2 id).mp member) rfl]
  rfl

theorem step_scan {lists : FinalizerLists Thread} {traced : List Address}
    (ran : scanFinalizersInRust debug collection.nursery collection.isLive collection.traceObject
      collection.mutators world.lists = .ok (lists, traced)) :
    world.step debug (.scan collection) = .ok { world with lists } := by
  simp only [World.step, ran, bind, Except.bind]
  rfl

theorem scan_runs (numbers : Numbers registry world ids)
    (permitted : Permitted (registry, world) (.scan collection))
    (wellFormed : ∀ id place, registry.place id = some place → Registered (registry.pair id)) :
    ∃ after, world.step debug (.scan collection) = .ok after ∧
      (∀ thread, after.lists.threadLocal thread = ⟨[]⟩) ∧
      after.lists.marked =
        ⟨words ((markedIds registry collection ids).map (registry.scan collection).pair)⟩ ∧
      after.lists.toFinalize =
        ⟨words ((finalIds registry collection ids).map (registry.scan collection).pair)⟩ ∧
      after.drained = world.drained := by
  have ran := scanFinalizersInRust_eq debug collection.nursery collection.isLive collection.traceObject
    permitted.1 (numbers.admissible _ wellFormed) (numbers.addressed _ _ wellFormed)
    world.lists.havePending
  rw [← numbers.lists, fresh_images, marked_images numbers permitted,
    final_images numbers permitted] at ran
  refine ⟨_, step_scan ran, ?_, rfl, rfl, rfl⟩
  intro thread
  simp only [holding, emptied]
  split_ifs with present
  · rfl
  · have image := numbers.image (.threadLocal thread)
    by_contra nonempty
    apply present
    apply permitted.2 thread
    intro empty
    apply nonempty
    rw [imagesAt, ← image]
    exact empty

theorem scan_described (described : Describes registry world)
    (permitted : Permitted (registry, world) (.scan collection))
    (wellFormed : ∀ id place, registry.place id = some place → Registered (registry.pair id)) :
    ∃ after, world.step debug (.scan collection) = .ok after ∧
      Describes (registry.scan collection) after := by
  rcases described.numbers with ⟨ids, numbers⟩
  rcases scan_runs numbers permitted wellFormed with
    ⟨after, stepped, threads, marked, toFinalize, drained⟩
  refine ⟨after, stepped, ?_⟩
  intro place
  cases place with
  | threadLocal thread =>
      refine ⟨[], Enumerates.none ?_, threads thread⟩
      intro id
      exact placeAfter_ne_threadLocal _ _ _ thread
  | marked => exact ⟨_, markedIds_enumerated numbers permitted, marked⟩
  | toFinalize => exact ⟨_, finalIds_enumerated numbers permitted, toFinalize⟩
  | drained =>
      have same : ∀ id, registry.place id = some .drained ↔
          (registry.scan collection).place id = some .drained := by
        intro id
        exact (placeAfter_eq_drained _ _ _).symm
      have listed := (numbers.enumerated .drained).congr same
      refine ⟨_, listed, ?_⟩
      have image := numbers.image .drained
      simp only [World.listAt] at image ⊢
      rw [drained, image]
      congr 2
      apply List.map_congr_left
      intro id member
      rw [scan_pair_untraced ((listed.2 id).mp member) rfl]

theorem scan_coherent (coherent : Coherent registry world)
    (permitted : Permitted (registry, world) (.scan collection)) :
    ∃ after, world.step debug (.scan collection) = .ok after ∧
      Coherent (registry.scan collection) after := by
  rcases scan_described coherent.described permitted coherent.wellFormed with
    ⟨after, stepped, described⟩
  have placed : ∀ id place, (registry.scan collection).place id = some place →
      ∃ before, registry.place id = some before := by
    intro id place here
    rcases there : registry.place id with _ | before
    · simp [scan_place, there, Registry.placeAfter] at here
    · exact ⟨before, rfl⟩
  refine ⟨after, stepped, described, ?_, ?_, ?_, relocate_entries coherent.entries ?_ ?_⟩
  · intro id above
    rw [scan_place, coherent.later id above]
    rfl
  · intro id place here
    rcases placed id place here with ⟨before, there⟩
    have registered := coherent.wellFormed id before there
    rw [scan_pair]
    split_ifs
    · exact registered.forwardPair _
    · exact registered
  · intro id below shown
    rcases moved : (registry.scan collection).place id with _ | place
    · rw [scan_pair_untraced moved rfl] at shown
      rcases coherent.held id below shown with ⟨before, here⟩
      rw [scan_place, here] at moved
      exact absurd moved (placeAfter_ne_none _ _ shown before)
    · exact ⟨place, rfl⟩
  · rintro id (waiting | drained)
    · exact .inl ⟨by simp [Registry.placeAfter, waiting], waiting⟩
    · exact .inr (by simp [Registry.placeAfter, drained])
  · intro id drained
    exact .inr ((placeAfter_eq_drained _ _ _).mp drained)

def Rearranged (list other : ArrayListT) : Prop :=
  ∃ pairs others : List Entry, list = ⟨words pairs⟩ ∧ other = ⟨words others⟩ ∧ pairs.Perm others

structure SamePairs (world other : World Thread) : Prop where
  threadLocal : world.lists.threadLocal = other.lists.threadLocal
  marked : Rearranged world.lists.marked other.lists.marked
  toFinalize : Rearranged world.lists.toFinalize other.lists.toFinalize
  havePending : world.lists.havePending = other.lists.havePending
  drained : world.drained = other.drained

theorem holding_rearranged {nursery : Bool} {isLive : Address → Bool}
    {traceObject : Address → ObjectReference} {locals : Thread → List Entry}
    {marked toFinalize fresh others : List Entry} {mutators order : List Thread} {pending : Int}
    {drained : ArrayListT} (same : mutators.Perm order) (rearranged : fresh.Perm others) :
    SamePairs
      ⟨holding (emptied mutators locals)
        (settled nursery marked ++ (aged nursery isLive marked fresh).map (forwardPair traceObject))
        ((finalized nursery isLive marked toFinalize fresh).map (forwardPair traceObject))
        (pendingAfter nursery isLive marked fresh pending), drained⟩
      ⟨holding (emptied order locals)
        (settled nursery marked ++ (aged nursery isLive marked others).map (forwardPair traceObject))
        ((finalized nursery isLive marked toFinalize others).map (forwardPair traceObject))
        (pendingAfter nursery isLive marked others pending), drained⟩ := by
  have decides : (decided nursery marked fresh).Perm (decided nursery marked others) := by
    cases nursery with
    | true => exact rearranged
    | false => exact rearranged.append_left marked
  refine ⟨?_, ⟨_, _, rfl, rfl, ?_⟩, ⟨_, _, rfl, rfl, ?_⟩, ?_, rfl⟩
  · funext thread
    simp [holding, emptied, same.mem_iff]
  · exact ((decides.filter _).map _).append_left _
  · exact (((rearranged.filter _).append_left _).append_right _).map _
  · have freed := decides.filter (fun entry => present entry && due isLive entry)
    simp only [holding, pendingAfter, Finalizer.freed, ← List.length_eq_zero_iff, freed.length_eq]

theorem scan_in_any_order (coherent : Coherent registry world)
    (permitted : Permitted (registry, world) (.scan collection)) {order : List Thread}
    (same : order.Perm collection.mutators) {after : World Thread}
    (stepped : world.step debug (.scan collection) = .ok after) :
    ∃ other, world.step debug (.scan { collection with mutators := order }) = .ok other ∧
      SamePairs after other := by
  rcases coherent.described.numbers with ⟨ids, numbers⟩
  have ran := scanFinalizersInRust_eq debug collection.nursery collection.isLive collection.traceObject
    permitted.1 (numbers.admissible _ coherent.wellFormed) (numbers.addressed _ _ coherent.wellFormed)
    world.lists.havePending
  have reran := scanFinalizersInRust_eq debug collection.nursery collection.isLive collection.traceObject
    (same.nodup_iff.mpr permitted.1)
    (numbers.admissible _ coherent.wellFormed) (numbers.addressed _ _ coherent.wellFormed)
    world.lists.havePending
  rw [← numbers.lists] at ran reran
  have first := step_scan ran
  rw [stepped, Except.ok.injEq] at first
  refine ⟨_, step_scan reran, ?_⟩
  rw [first]
  exact holding_rearranged same.symm (same.symm.flatMap_right _)

theorem step_coherent (debug : Bool) (coherent : Coherent registry world) (event : Event Thread)
    (permitted : Permitted (registry, world) event) :
    ∃ after, world.step debug event = .ok after ∧ Coherent (registry.step event) after := by
  cases event with
  | register thread entry => exact register_coherent coherent thread permitted
  | scan collection => exact scan_coherent coherent permitted
  | drain => exact drain_coherent coherent

theorem reachable_coherent
    (reached : (registered debug).ReachableUnder Permitted (registry, world)) :
    Coherent registry world := by
  apply reached.invariant (fun state => Coherent state.1 state.2) initial_coherent
  rintro ⟨registry, world⟩ event ⟨next, after⟩ coherent permitted taken
  rcases step_coherent debug coherent event permitted with ⟨stepped, ran, coherentAfter⟩
  simp only [registered, ran, Except.toOption, Option.map_some, Option.some.injEq,
    Prod.mk.injEq] at taken
  rcases taken with ⟨rfl, rfl⟩
  exact coherentAfter

theorem enters_if_due {event : Event Thread} {id : Nat}
    (outside : registry.place id ≠ some .toFinalize)
    (entered : (registry.step event).place id = some .toFinalize) :
    ∃ collection, event = .scan collection ∧ due collection.isLive (registry.pair id) = true := by
  cases event with
  | register thread entry =>
      by_cases new : id = registry.count
      · simp [Registry.step, Registry.register, new] at entered
      · simp [Registry.step, Registry.register, new] at entered
        exact absurd entered outside
  | scan collection =>
      refine ⟨collection, rfl, ?_⟩
      simp only [Registry.step, scan_place] at entered
      have verdict : Registry.verdict collection (registry.pair id) = some .toFinalize := by
        rcases place : registry.place id with _ | (_ | _ | _ | _)
        case some.marked =>
          cases nursery : collection.nursery <;>
            simp_all [Registry.placeAfter]
        all_goals simp_all [Registry.placeAfter]
      have freed := verdict_eq_toFinalize.mp verdict
      simp only [isFreed, Bool.and_eq_true] at freed
      exact freed.2
  | drain =>
      by_cases waiting : registry.place id = some .toFinalize
      · exact absurd waiting outside
      · simp [Registry.step, Registry.drain, Registry.relocate, waiting] at entered

theorem due_moves {id : Nat} (shown : present (registry.pair id) = true)
    (dead : due collection.isLive (registry.pair id) = true)
    (swept : (∃ thread, registry.place id = some (.threadLocal thread)) ∨
      collection.nursery = false ∧ registry.place id = some .marked) :
    (registry.scan collection).place id = some .toFinalize := by
  have verdict : Registry.verdict collection (registry.pair id) = some .toFinalize := by
    rw [verdict_eq_toFinalize, isFreed, shown, dead]
    rfl
  rcases swept with ⟨thread, here⟩ | ⟨full, here⟩
  · rw [scan_place, here]
    exact verdict
  · rw [scan_place, here]
    simp [Registry.placeAfter, full, verdict]

/-- In every run the lists hold each registered pair in one place, and a pair enters to_finalize
once, in a collection that finds it due; such a collection moves it there at once, whatever the
order of the threads. -/
theorem registered_pair_in_one_place (debug : Bool) {registry : Registry Thread}
    {world : World Thread}
    (reached : (registered debug).ReachableUnder Permitted (registry, world)) :
    Describes registry world ∧
      (∀ id, id < registry.count → present (registry.pair id) = true →
        ∃ place, registry.place id = some place) ∧
      (∀ id, registry.entries id ≤ 1) ∧
      ∀ event, Permitted (registry, world) event → ∃ after,
        (registered debug).next (registry, world) event = some (registry.step event, after) ∧
        (∀ id, registry.place id ≠ some .toFinalize →
          (registry.step event).place id = some .toFinalize →
            ∃ collection, event = .scan collection ∧
              due collection.isLive (registry.pair id) = true) ∧
        ∀ collection, event = .scan collection →
          (∀ id, present (registry.pair id) = true →
            due collection.isLive (registry.pair id) = true →
            ((∃ thread, registry.place id = some (.threadLocal thread)) ∨
              collection.nursery = false ∧ registry.place id = some .marked) →
            (registry.step event).place id = some .toFinalize) ∧
          ∀ order : List Thread, order.Perm collection.mutators →
            ∃ other, world.step debug (.scan { collection with mutators := order }) = .ok other ∧
              SamePairs after other := by
  have coherent := reachable_coherent reached
  refine ⟨coherent.described, coherent.held, ?_, ?_⟩
  · intro id
    rw [coherent.entries id]
    split_ifs <;> simp
  · intro event permitted
    rcases step_coherent debug coherent event permitted with ⟨after, ran, -⟩
    refine ⟨after, by simp [registered, ran, Except.toOption], ?_, ?_⟩
    · intro id outside entered
      exact enters_if_due outside entered
    · rintro collection rfl
      refine ⟨?_, ?_⟩
      · intro id shown dead swept
        exact due_moves shown dead swept
      · intro order same
        exact scan_in_any_order coherent permitted same ran

def raised (address : Address) : ObjectReference :=
  if address = 16 then ⟨0x1010, by decide, by decide⟩
  else if address = 24 then ⟨0x1018, by decide, by decide⟩
  else ⟨0x1020, by decide, by decide⟩

/-- Two threads register a pair of each tag, a nursery collection finds all objects live, the malloced
one is run, and another pair is registered. -/
def mixedRun : List (Event Bool) := [
  .register false (16, 24), .register true (33, 5), .register false (67, 7),
  .scan ⟨true, fun _ => true, raised, [true, false]⟩, .drain, .register true (48, 40)]

/-- A full collection in place that finds the first object dead where it has moved to. -/
def mixedEnd : Collection Bool where
  nursery := false
  isLive := fun address => decide (address ≠ 0x1010)
  traceObject := fun address =>
    if reference : address ≠ 0 ∧ address &&& 7 = 0 then ⟨address, reference.1, reference.2⟩
    else raised address
  mutators := [false, true]

theorem registered_pair_in_one_place_mixed :
    ∃ registry world after, (registered true).run (registered true).initial mixedRun =
        some (registry, world) ∧
      (registered true).next (registry, world) (.scan mixedEnd) =
        some (registry.step (.scan mixedEnd), after) ∧
      (List.range 4).map registry.place = [some .marked, some .marked, some .drained,
        some (.threadLocal true)] ∧
      (registry.step (.scan mixedEnd)).place 0 = some .toFinalize ∧ ∀ id, registry.entries id ≤ 1 := by
  have outcome : ((registered true).run (registered true).initial mixedRun).map
      (fun state => ((List.range 4).map state.1.place, state.1.pair 0)) =
        some ([some .marked, some .marked, some .drained, some (.threadLocal true)],
          (0x1010, 0x1018)) := by decide +kernel
  rcases Option.map_eq_some_iff.mp outcome with ⟨⟨registry, world⟩, ran, lists⟩
  have places : (List.range 4).map registry.place =
      [some .marked, some .marked, some .drained, some (.threadLocal true)] := congrArg Prod.fst lists
  have pair : registry.pair 0 = (0x1010, 0x1018) := congrArg Prod.snd lists
  have admitted : (registered true).Admits Permitted (registered true).initial mixedRun := by
    have scans : ∀ state, Permitted state (.scan ⟨true, fun _ => true, raised, [true, false]⟩) :=
      fun state => ⟨by decide, fun thread _ => by cases thread <;> decide⟩
    have registers : ∀ (state : Registry Bool × World Bool) thread (entry : Entry), Registered entry →
        Permitted state (.register thread entry) := fun _ _ _ registered => registered
    exact ⟨registers _ _ _ (by decide), fun _ _ => ⟨registers _ _ _ (by decide), fun _ _ =>
      ⟨registers _ _ _ (by decide), fun _ _ => ⟨scans _, fun _ _ => ⟨trivial, fun _ _ =>
        ⟨registers _ _ _ (by decide), fun _ _ => trivial⟩⟩⟩⟩⟩⟩
  have reached := System.ReachableUnder.run .initial mixedRun admitted ran
  rcases registered_pair_in_one_place true reached with ⟨-, -, once, moves⟩
  rcases moves (.scan mixedEnd) ⟨by decide, fun thread _ => by cases thread <;> decide⟩ with
    ⟨after, taken, -, rest⟩
  refine ⟨registry, world, after, ran, taken, places, ?_, once⟩
  have marked : registry.place 0 = some .marked := (List.cons.inj places).1
  apply (rest mixedEnd rfl).1 0
  · rw [pair]
    decide
  · rw [pair]
    decide
  · exact .inr ⟨rfl, marked⟩

end MmtkJulia.Finalizer
