import MmtkJulia.Backtrace
import MmtkJulia.Runs
import MmtkJulia.Slots

/-! RootsWorkClosure of slots.rs, by which C code reports the roots of the VM: it fills a buffer,
hands it back for a new one, and the roots of every buffer become a work packet. -/

namespace MmtkJulia.RootsWork

open Scanning Backtrace

/-- The three functions of the closure. -/
inductive RootKind where
  | slots
  | nodes
  | tpinnedNodes
  deriving DecidableEq, Repr

structure RootsWorkBuffer where
  ptr : Address
  capacity : Usize
  deriving DecidableEq, Repr

def RootsWorkBuffer.empty : RootsWorkBuffer := ⟨0, 0⟩

def rootWorkPacketSize : Nat := 4096

structure Factory where
  roots : List (List JuliaVMSlot)
  pinningRoots : List (List Address)
  tpinningRoots : List (List Address)
  deriving DecidableEq, Repr

/-- The allocations of vectors that ManuallyDrop has left without an owner are the leaked ones. -/
structure World where
  memory : Memory
  leaked : List RootsWorkBuffer
  factory : Factory

/-- Vec::from_raw_parts. Its contract: the parts are those of a vector that has no owner. -/
def fromRawParts (world : World) (buf : Address) (size cap : Usize) :
    Except Fault (List Usize × World) :=
  if ⟨buf, cap⟩ ∈ world.leaked ∧ size ≤ cap then do
    let items ← collect (fun i => do return [← loadU64 world.memory (shift buf (BitVec.ofNat 64 i))])
      (List.range size.toNat)
    return (items, { world with leaked := world.leaked.erase ⟨buf, cap⟩ })
  else throw .unmapped

/-- The functions of the closure differ in what they create. The buffer of a renewal is what
Vec::with_capacity returned. -/
def report (create : List Usize → Factory → Factory) (world : World) (buf : Address)
    (size cap : Usize) (renew : Bool) (allocated : RootsWorkBuffer) :
    Except Fault (World × RootsWorkBuffer) := do
  let consumed ← (if buf ≠ 0 then do
      let (items, rest) ← fromRawParts world buf size cap
      return { rest with factory := create items rest.factory }
    else return world)
  if renew then
    return ({ consumed with leaked := allocated :: consumed.leaked }, allocated)
  else
    return (consumed, .empty)

def createProcessRootsWork (items : List Usize) (factory : Factory) : Factory :=
  { factory with roots := factory.roots ++ [items.map .simple] }

def createProcessPinningRootsWork (items : List Usize) (factory : Factory) : Factory :=
  { factory with pinningRoots := factory.pinningRoots ++ [items] }

def createProcessTpinningRootsWork (items : List Usize) (factory : Factory) : Factory :=
  { factory with tpinningRoots := factory.tpinningRoots ++ [items] }

def reportSimpleSlots := report createProcessRootsWork

def reportNodes := report createProcessPinningRootsWork

def reportTpinnedNodes := report createProcessTpinningRootsWork

def RootKind.reportFunc : RootKind → World → Address → Usize → Usize → Bool → RootsWorkBuffer →
    Except Fault (World × RootsWorkBuffer)
  | .slots => reportSimpleSlots
  | .nodes => reportNodes
  | .tpinnedNodes => reportTpinnedNodes

/-! The client: for each kind of root it fills the buffer it was given last. -/

/-- What it has pushed in all is history. -/
structure Client where
  world : World
  held : RootKind → RootsWorkBuffer
  written : RootKind → List Usize
  pushed : RootKind → List Usize

inductive Action where
  | push (kind : RootKind) (root : Usize)
  | report (kind : RootKind) (renew : Bool) (allocated : RootsWorkBuffer)
  deriving DecidableEq, Repr

namespace Client

variable (client : Client)

def push (kind : RootKind) (root : Usize) : Client where
  world := { client.world with
    memory := @Memory.store client.world.memory
      (shift (client.held kind).ptr (BitVec.ofNat 64 (client.written kind).length)) 8 root }
  held := client.held
  written := Function.update client.written kind (client.written kind ++ [root])
  pushed := Function.update client.pushed kind (client.pushed kind ++ [root])

def renewed (kind : RootKind) (world : World) (buffer : RootsWorkBuffer) : Client where
  world := world
  held := Function.update client.held kind buffer
  written := Function.update client.written kind []
  pushed := client.pushed

def next : Action → Option Client
  | .push kind root =>
      if (client.written kind).length < (client.held kind).capacity.toNat then
        some (client.push kind root)
      else none
  | .report kind renew allocated =>
      match kind.reportFunc client.world (client.held kind).ptr
        (BitVec.ofNat 64 (client.written kind).length) (client.held kind).capacity renew allocated with
      | .ok (world, buffer) => some (client.renewed kind world buffer)
      | .error _ => none

end Client

def initial (memory : Memory) : Client where
  world := ⟨memory, [], ⟨[], [], []⟩⟩
  held := fun _ => .empty
  written := fun _ => []
  pushed := fun _ => []

def rootsWork (memory : Memory) : System Client Action := ⟨initial memory, Client.next⟩

def Separate (buffer other : RootsWorkBuffer) : Prop :=
  buffer.ptr.toNat + 8 * buffer.capacity.toNat ≤ other.ptr.toNat ∨
    other.ptr.toNat + 8 * other.capacity.toNat ≤ buffer.ptr.toNat

/-- Vec::with_capacity returns memory that no other vector has, for at least the capacity. -/
structure Allocates (leaked : List RootsWorkBuffer) (buffer : RootsWorkBuffer) : Prop where
  nonnull : buffer.ptr ≠ 0
  large : rootWorkPacketSize ≤ buffer.capacity.toNat
  fits : buffer.ptr.toNat + 8 * buffer.capacity.toNat ≤ 2 ^ 64
  separate : ∀ other ∈ leaked, Separate other buffer

def Admitted (client : Client) : Action → Prop
  | .push _ _ => True
  | .report kind renew allocated =>
      renew → Allocates (client.world.leaked.erase (client.held kind)) allocated

def Factory.packets (factory : Factory) : RootKind → List (List Usize)
  | .slots => factory.roots.map (fun packet => packet.map JuliaVMSlot.address)
  | .nodes => factory.pinningRoots
  | .tpinnedNodes => factory.tpinningRoots

def RootKind.create : RootKind → List Usize → Factory → Factory
  | .slots => createProcessRootsWork
  | .nodes => createProcessPinningRootsWork
  | .tpinnedNodes => createProcessTpinningRootsWork

theorem reportFunc_eq (kind : RootKind) : kind.reportFunc = report kind.create := by
  cases kind <;> rfl

theorem packets_create (kind : RootKind) (items : List Usize) (factory : Factory) :
    (kind.create items factory).packets =
      Function.update factory.packets kind (factory.packets kind ++ [items]) := by
  have slots : (items.map JuliaVMSlot.simple).map JuliaVMSlot.address = items := by
    rw [List.map_map]
    exact List.map_id items
  funext other
  cases kind <;> cases other <;>
    simp [RootKind.create, Factory.packets, createProcessRootsWork, createProcessPinningRootsWork,
      createProcessTpinningRootsWork, slots]

section Vectors

variable {memory : Memory} {base : Address} {words : List Usize}

theorem collect_words (holds : HoldsWords memory base words) :
    collect (fun i => do return [← loadU64 memory (shift base (BitVec.ofNat 64 i))])
      (List.range words.length) = .ok words := by
  have visits : ∀ i ∈ List.range words.length,
      (do return [← loadU64 memory (shift base (BitVec.ofNat 64 i))] : Except Fault (List Usize)) =
        .ok [words[i]?.getD 0] := by
    intro i member
    have below := List.mem_range.mp member
    have found : words[i]? = some words[i] := List.getElem?_eq_getElem below
    rw [holds i _ found, found]
    rfl
  rw [collect_ok visits, values_of_range]

theorem holdsWords_snoc {root : Usize} (count : Nat) (holds : HoldsWords memory base words)
    (fits : base.toNat + 8 * count ≤ 2 ^ 64) (room : words.length < count) :
    HoldsWords (@Memory.store memory (shift base (BitVec.ofNat 64 words.length)) 8 root) base
      (words ++ [root]) := by
  intro i word found
  by_cases last : i = words.length
  · rw [last, List.getElem?_concat_length] at found
    rw [last, ← Option.some.inj found]
    exact loadU64_store _ _ _
  · have below : i < words.length := by
      have inside := (List.getElem?_eq_some_iff.mp found).1
      rw [List.length_append, List.length_singleton] at inside
      omega
    rw [List.getElem?_append_left below] at found
    rw [loadU64_store_apart _ (words_apart count fits room (by omega) (fun same => last same.symm))]
    exact holds i word found

theorem holdsWords_elsewhere {root : Usize} {buffer other : RootsWorkBuffer} {i : Nat}
    (holds : HoldsWords memory other.ptr words) (separate : Separate buffer other)
    (fits : buffer.ptr.toNat + 8 * buffer.capacity.toNat ≤ 2 ^ 64)
    (limited : other.ptr.toNat + 8 * other.capacity.toNat ≤ 2 ^ 64)
    (room : words.length ≤ other.capacity.toNat) (inside : i < buffer.capacity.toNat) :
    HoldsWords (@Memory.store memory (shift buffer.ptr (BitVec.ofNat 64 i)) 8 root) other.ptr words := by
  have capacity := buffer.capacity.isLt
  have bound := other.capacity.isLt
  intro j word found
  have below := (List.getElem?_eq_some_iff.mp found).1
  have index : (BitVec.ofNat 64 i).toNat = i := by
    rw [BitVec.toNat_ofNat, Nat.mod_eq_of_lt (by omega)]
  have position : (BitVec.ofNat 64 j).toNat = j := by
    rw [BitVec.toNat_ofNat, Nat.mod_eq_of_lt (by omega)]
  have apart : Apart (shift buffer.ptr (BitVec.ofNat 64 i)) (shift other.ptr (BitVec.ofNat 64 j)) := by
    apply shift_apart_objects fits limited
    · rw [index]
      omega
    · rw [position]
      omega
    · exact separate
  rw [loadU64_store_apart _ apart]
  exact holds j word found

end Vectors

/-- What every run of a client keeps. -/
structure Sound (client : Client) : Prop where
  fits : ∀ kind, (client.held kind).ptr.toNat + 8 * (client.held kind).capacity.toNat ≤ 2 ^ 64
  bounded : ∀ kind, (client.written kind).length ≤ (client.held kind).capacity.toNat
  null : ∀ kind, (client.held kind).ptr = 0 → client.held kind = .empty
  stored : ∀ kind, HoldsWords client.world.memory (client.held kind).ptr (client.written kind)
  leaked : ∀ buffer, buffer ∈ client.world.leaked ↔ buffer.ptr ≠ 0 ∧ ∃ kind, client.held kind = buffer
  once : client.world.leaked.Nodup
  large : ∀ kind, (client.held kind).ptr ≠ 0 → 0 < (client.held kind).capacity.toNat
  separate : ∀ kind other, kind ≠ other → (client.held kind).ptr ≠ 0 → (client.held other).ptr ≠ 0 →
    Separate (client.held kind) (client.held other)
  delivered : ∀ kind, (client.world.factory.packets kind).flatten ++ client.written kind =
    client.pushed kind

section Steps

variable {client after : Client} {kind : RootKind}

theorem sound_initial (memory : Memory) : Sound (initial memory) := by
  refine ⟨?_, ?_, ?_, ?_, ?_, ?_, ?_, ?_, ?_⟩
  case refine_4 =>
    intro kind i word found
    cases found
  case refine_5 =>
    intro buffer
    constructor
    · intro member
      cases member
    · rintro ⟨nonnull, kind, rfl⟩
      exact absurd rfl nonnull
  case refine_9 =>
    intro kind
    cases kind <;> rfl
  all_goals simp [initial, RootsWorkBuffer.empty]

theorem Separate.symm {buffer other : RootsWorkBuffer} (separate : Separate buffer other) :
    Separate other buffer := Or.symm separate

theorem Sound.nonnull_of_room (sound : Sound client)
    (room : (client.written kind).length < (client.held kind).capacity.toNat) :
    (client.held kind).ptr ≠ 0 := by
  intro null
  rw [sound.null kind null] at room
  exact absurd room (Nat.not_lt_zero _)

theorem Sound.written_of_null (sound : Sound client) (null : (client.held kind).ptr = 0) :
    client.written kind = [] := by
  apply List.eq_nil_of_length_eq_zero
  have bound := sound.bounded kind
  rw [sound.null kind null] at bound
  exact Nat.le_zero.mp bound

theorem Sound.push (sound : Sound client) (root : Usize)
    (room : (client.written kind).length < (client.held kind).capacity.toNat) :
    Sound (client.push kind root) where
  fits := sound.fits
  bounded := by
    intro other
    by_cases same : other = kind
    · rw [same]
      simpa [Client.push] using room
    · simpa [Client.push, same] using sound.bounded other
  null := sound.null
  stored := by
    intro other
    by_cases same : other = kind
    · rw [same]
      simp only [Client.push, Function.update_self]
      exact holdsWords_snoc _ (sound.stored kind) (sound.fits kind) room
    · simp only [Client.push, Function.update_of_ne same]
      by_cases null : (client.held other).ptr = 0
      · rw [sound.written_of_null null]
        intro i word found
        cases found
      · have separate := sound.separate kind other (fun equal => same equal.symm)
          (sound.nonnull_of_room room) null
        exact holdsWords_elsewhere (sound.stored other) separate (sound.fits kind) (sound.fits other)
          (sound.bounded other) room
  leaked := sound.leaked
  once := sound.once
  large := sound.large
  separate := sound.separate
  delivered := by
    intro other
    have before := sound.delivered other
    by_cases same : other = kind
    · rw [same] at before ⊢
      simp only [Client.push, Function.update_self, ← before, List.append_assoc]
    · simpa [Client.push, same] using before

def Client.reported (client : Client) (kind : RootKind) : Factory :=
  if (client.held kind).ptr ≠ 0 then kind.create (client.written kind) client.world.factory
  else client.world.factory

def Client.answer (client : Client) (kind : RootKind) (renew : Bool) (allocated : RootsWorkBuffer) :
    World × RootsWorkBuffer :=
  let kept := client.world.leaked.erase (client.held kind)
  (⟨client.world.memory, if renew then allocated :: kept else kept, client.reported kind⟩,
    if renew then allocated else .empty)

def Client.afterReport (client : Client) (kind : RootKind) (renew : Bool)
    (allocated : RootsWorkBuffer) : Client :=
  client.renewed kind (client.answer kind renew allocated).1 (client.answer kind renew allocated).2

theorem Sound.report_eq (sound : Sound client) (kind : RootKind) (renew : Bool)
    (allocated : RootsWorkBuffer) :
    kind.reportFunc client.world (client.held kind).ptr
      (BitVec.ofNat 64 (client.written kind).length) (client.held kind).capacity renew allocated =
      .ok (client.answer kind renew allocated) := by
  have ending : ∀ world : World, world = ⟨client.world.memory,
      client.world.leaked.erase (client.held kind), client.reported kind⟩ →
      (if renew then .ok ({ world with leaked := allocated :: world.leaked }, allocated)
        else .ok (world, .empty) : Except Fault (World × RootsWorkBuffer)) =
        .ok (client.answer kind renew allocated) := by
    rintro world rfl
    cases renew <;> rfl
  rw [reportFunc_eq, report]
  by_cases some : (client.held kind).ptr ≠ 0
  · have owner : (⟨(client.held kind).ptr, (client.held kind).capacity⟩ : RootsWorkBuffer) ∈
        client.world.leaked := (sound.leaked _).mpr ⟨some, kind, rfl⟩
    have bound := sound.bounded kind
    have capacity := (client.held kind).capacity.isLt
    have size : (BitVec.ofNat 64 (client.written kind).length).toNat = (client.written kind).length := by
      rw [BitVec.toNat_ofNat, Nat.mod_eq_of_lt (by omega)]
    have below : BitVec.ofNat 64 (client.written kind).length ≤ (client.held kind).capacity := by
      rw [BitVec.le_def, size]
      exact bound
    rw [if_pos some, fromRawParts, if_pos ⟨owner, below⟩, size, collect_words (sound.stored kind)]
    apply ending
    rw [Client.reported, if_pos some]
  · have null := not_not.mp some
    have absent : client.held kind ∉ client.world.leaked :=
      fun member => some ((sound.leaked _).mp member).1
    rw [if_neg some]
    apply ending
    rw [Client.reported, if_neg some, List.erase_of_not_mem absent]

theorem Sound.reported_packets (sound : Sound client) (kind other : RootKind) :
    ((client.reported kind).packets other).flatten =
      (client.world.factory.packets other).flatten ++
        (if other = kind then client.written kind else []) := by
  rw [Client.reported]
  by_cases some : (client.held kind).ptr ≠ 0
  · rw [if_pos some, packets_create]
    by_cases same : other = kind
    · rw [same, Function.update_self, if_pos rfl, List.flatten_concat]
    · rw [Function.update_of_ne same, if_neg same, List.append_nil]
  · rw [if_neg some, sound.written_of_null (not_not.mp some), ite_self, List.append_nil]

theorem Sound.mem_erase (sound : Sound client) (kind : RootKind) (buffer : RootsWorkBuffer) :
    buffer ∈ client.world.leaked.erase (client.held kind) ↔
      buffer.ptr ≠ 0 ∧ ∃ other, other ≠ kind ∧ client.held other = buffer := by
  rw [sound.once.mem_erase_iff, sound.leaked]
  constructor
  · rintro ⟨different, nonnull, other, rfl⟩
    refine ⟨nonnull, other, ?_, rfl⟩
    rintro rfl
    exact different rfl
  · rintro ⟨nonnull, other, different, rfl⟩
    refine ⟨?_, nonnull, other, rfl⟩
    intro same
    have room := sound.large other nonnull
    have apart := sound.separate other kind different nonnull (same ▸ nonnull)
    rw [same, Separate] at apart
    rw [same] at room
    omega

/-- The buffer that a kind gets is empty or has not been lent, and is leaked in the latter case. -/
def Client.Supplied (client : Client) (kind : RootKind) (world : World) (buffer : RootsWorkBuffer) :
    Prop :=
  buffer = .empty ∧ world.leaked = client.world.leaked.erase (client.held kind) ∨
    Allocates (client.world.leaked.erase (client.held kind)) buffer ∧
      world.leaked = buffer :: client.world.leaked.erase (client.held kind)

section Supplied

variable {world : World} {buffer : RootsWorkBuffer} {other : RootKind}

@[simp] theorem Client.renewed_held_self : (client.renewed kind world buffer).held kind = buffer :=
  Function.update_self _ _ _

@[simp] theorem Client.renewed_written_self : (client.renewed kind world buffer).written kind = [] :=
  Function.update_self _ _ _

theorem Client.renewed_held (different : other ≠ kind) :
    (client.renewed kind world buffer).held other = client.held other :=
  Function.update_of_ne different _ _

theorem Client.renewed_written (different : other ≠ kind) :
    (client.renewed kind world buffer).written other = client.written other :=
  Function.update_of_ne different _ _

namespace Client.Supplied

variable (supplied : client.Supplied kind world buffer)
include supplied

theorem fits : buffer.ptr.toNat + 8 * buffer.capacity.toNat ≤ 2 ^ 64 := by
  rcases supplied with ⟨rfl, -⟩ | ⟨allocates, -⟩
  · decide
  · exact allocates.fits

theorem null : buffer.ptr = 0 → buffer = .empty := by
  rcases supplied with ⟨rfl, -⟩ | ⟨allocates, -⟩
  · exact fun _ => rfl
  · exact fun null => absurd null allocates.nonnull

theorem large : buffer.ptr ≠ 0 → 0 < buffer.capacity.toNat := by
  rcases supplied with ⟨rfl, -⟩ | ⟨allocates, -⟩
  · exact fun some => absurd rfl some
  · exact fun _ => Nat.lt_of_lt_of_le (by decide) allocates.large

variable (sound : Sound client)
include sound

theorem separate (different : other ≠ kind) (nonnull : (client.held other).ptr ≠ 0)
    (some : buffer.ptr ≠ 0) : Separate (client.held other) buffer := by
  rcases supplied with ⟨rfl, -⟩ | ⟨allocates, -⟩
  · exact absurd rfl some
  · exact allocates.separate _ ((sound.mem_erase kind _).mpr ⟨nonnull, other, different, rfl⟩)

theorem once : world.leaked.Nodup := by
  rcases supplied with ⟨-, leaked⟩ | ⟨allocates, leaked⟩
  · rw [leaked]
    exact sound.once.erase _
  · rw [leaked]
    apply List.nodup_cons.mpr
    constructor
    · intro member
      have apart := allocates.separate buffer member
      have room : 0 < buffer.capacity.toNat := Nat.lt_of_lt_of_le (by decide) allocates.large
      rw [Separate] at apart
      omega
    · exact sound.once.erase _

theorem leaked (lease : RootsWorkBuffer) : lease ∈ world.leaked ↔
    lease.ptr ≠ 0 ∧ (buffer = lease ∨ ∃ other, other ≠ kind ∧ client.held other = lease) := by
  rcases supplied with ⟨rfl, leaked⟩ | ⟨allocates, leaked⟩
  · rw [leaked, sound.mem_erase]
    apply and_congr_right
    intro nonnull
    have filled : .empty ≠ lease := fun empty => nonnull (empty ▸ rfl)
    exact (or_iff_right filled).symm
  · rw [leaked, List.mem_cons, sound.mem_erase]
    constructor
    · rintro (rfl | ⟨nonnull, held⟩)
      · exact ⟨allocates.nonnull, .inl rfl⟩
      · exact ⟨nonnull, .inr held⟩
    · rintro ⟨nonnull, rfl | held⟩
      · exact .inl rfl
      · exact .inr ⟨nonnull, held⟩

end Client.Supplied

theorem Client.renewed_holds (lease : RootsWorkBuffer) :
    (∃ other, (client.renewed kind world buffer).held other = lease) ↔
      buffer = lease ∨ ∃ other, other ≠ kind ∧ client.held other = lease := by
  constructor
  · rintro ⟨other, rfl⟩
    by_cases same : other = kind
    · rw [same]
      exact .inl renewed_held_self.symm
    · exact .inr ⟨other, same, (renewed_held same).symm⟩
  · rintro (rfl | ⟨other, different, rfl⟩)
    · exact ⟨kind, renewed_held_self⟩
    · exact ⟨other, renewed_held different⟩

theorem Sound.replace (sound : Sound client) (kind : RootKind) {world : World}
    {buffer : RootsWorkBuffer} (memory : world.memory = client.world.memory)
    (factory : world.factory = client.reported kind) (supplied : client.Supplied kind world buffer) :
    Sound (client.renewed kind world buffer) where
  fits := by
    intro other
    by_cases same : other = kind
    · rw [same, Client.renewed_held_self]
      exact supplied.fits
    · rw [Client.renewed_held same]
      exact sound.fits other
  bounded := by
    intro other
    by_cases same : other = kind
    · rw [same, Client.renewed_written_self]
      exact Nat.zero_le _
    · rw [Client.renewed_held same, Client.renewed_written same]
      exact sound.bounded other
  null := by
    intro other
    by_cases same : other = kind
    · rw [same, Client.renewed_held_self]
      exact supplied.null
    · rw [Client.renewed_held same]
      exact sound.null other
  stored := by
    intro other
    by_cases same : other = kind
    · rw [same, Client.renewed_written_self]
      intro i word found
      cases found
    · rw [Client.renewed_held same, Client.renewed_written same]
      change HoldsWords world.memory _ _
      rw [memory]
      exact sound.stored other
  leaked := fun lease => (supplied.leaked sound lease).trans
    (and_congr_right (fun _ => (Client.renewed_holds lease).symm))
  once := supplied.once sound
  large := by
    intro other
    by_cases same : other = kind
    · rw [same, Client.renewed_held_self]
      exact supplied.large
    · rw [Client.renewed_held same]
      exact sound.large other
  separate := by
    intro first second different
    by_cases same : first = kind
    · have later : second ≠ kind := fun equal => different (same.trans equal.symm)
      rw [same, Client.renewed_held_self, Client.renewed_held later]
      exact fun some nonnull => (supplied.separate sound later nonnull some).symm
    · rw [Client.renewed_held same]
      by_cases equal : second = kind
      · rw [equal, Client.renewed_held_self]
        exact fun nonnull some => supplied.separate sound same nonnull some
      · rw [Client.renewed_held equal]
        exact sound.separate first second different
  delivered := by
    intro other
    have before := sound.delivered other
    change (world.factory.packets other).flatten ++ _ = client.pushed other
    rw [factory, sound.reported_packets]
    by_cases same : other = kind
    · rw [same] at before ⊢
      rw [if_pos rfl, Client.renewed_written_self, List.append_nil, before]
    · rw [if_neg same, Client.renewed_written same, List.append_nil, before]

end Supplied

theorem Sound.report (sound : Sound client) (kind : RootKind) (renew : Bool)
    (allocated : RootsWorkBuffer)
    (fresh : renew → Allocates (client.world.leaked.erase (client.held kind)) allocated) :
    Sound (client.afterReport kind renew allocated) := by
  have memory : (client.answer kind renew allocated).1.memory = client.world.memory := rfl
  have factory : (client.answer kind renew allocated).1.factory = client.reported kind := rfl
  apply sound.replace kind memory factory
  cases renew with
  | false => exact .inl ⟨rfl, rfl⟩
  | true => exact .inr ⟨fresh rfl, rfl⟩

theorem Sound.next (sound : Sound client) {action : Action} (admitted : Admitted client action)
    (taken : client.next action = some after) : Sound after := by
  cases action with
  | push kind root =>
      rw [Client.next] at taken
      by_cases room : (client.written kind).length < (client.held kind).capacity.toNat
      · rw [if_pos room] at taken
        cases taken
        exact sound.push root room
      · rw [if_neg room] at taken
        cases taken
  | report kind renew allocated =>
      rw [Client.next, sound.report_eq] at taken
      cases taken
      exact sound.report kind renew allocated admitted

end Steps

section Runs

variable {memory : Memory} {client : Client}

theorem sound_of_reached (reached : (rootsWork memory).ReachableUnder Admitted client) :
    Sound client := by
  apply reached.invariant Sound
  · exact sound_initial memory
  · intro before action after sound admitted taken
    exact sound.next admitted taken

/-- In every run of a client that fills what it was given last, each root is in one packet of its
kind or still in the buffer, in the order of the pushes; the buffers without an owner are the ones
the client holds, so none is lost and none is freed twice; and no report faults. -/
theorem roots_reach_packets (reached : (rootsWork memory).ReachableUnder Admitted client) :
    (∀ kind, (client.world.factory.packets kind).flatten ++ client.written kind = client.pushed kind) ∧
      client.world.leaked.Nodup ∧
      (∀ buffer, buffer ∈ client.world.leaked ↔ buffer.ptr ≠ 0 ∧ ∃ kind, client.held kind = buffer) ∧
      (∀ (kind : RootKind) (renew : Bool) (allocated : RootsWorkBuffer), ∃ answer,
        kind.reportFunc client.world (client.held kind).ptr
          (BitVec.ofNat 64 (client.written kind).length) (client.held kind).capacity renew allocated =
            .ok answer) ∧
      ((∀ kind, client.held kind = .empty) → client.world.leaked = [] ∧
        ∀ kind, (client.world.factory.packets kind).flatten = client.pushed kind) := by
  have sound := sound_of_reached reached
  refine ⟨sound.delivered, sound.once, sound.leaked, ?_, ?_⟩
  · intro kind renew allocated
    exact ⟨_, sound.report_eq kind renew allocated⟩
  · intro ended
    constructor
    · apply List.eq_nil_iff_forall_not_mem.mpr
      intro buffer member
      rcases (sound.leaked buffer).mp member with ⟨nonnull, kind, held⟩
      rw [← held, ended kind] at nonnull
      exact absurd rfl nonnull
    · intro kind
      have null : (client.held kind).ptr = 0 := by
        rw [ended kind]
        rfl
      rw [← sound.delivered kind, sound.written_of_null null, List.append_nil]

theorem reached_push (reached : (rootsWork memory).ReachableUnder Admitted client) (kind : RootKind)
    (root : Usize) (room : (client.written kind).length < (client.held kind).capacity.toNat) :
    (rootsWork memory).ReachableUnder Admitted (client.push kind root) :=
  .step (.push kind root) reached trivial (if_pos room)

theorem reached_report (reached : (rootsWork memory).ReachableUnder Admitted client) (kind : RootKind)
    (renew : Bool) (allocated : RootsWorkBuffer)
    (fresh : renew → Allocates (client.world.leaked.erase (client.held kind)) allocated) :
    (rootsWork memory).ReachableUnder Admitted (client.afterReport kind renew allocated) := by
  have admitted : Admitted client (.report kind renew allocated) := fresh
  apply System.ReachableUnder.step _ reached admitted
  change client.next (.report kind renew allocated) = _
  rw [Client.next, (sound_of_reached reached).report_eq]
  rfl

end Runs

/-- Two slots and a node between them, in two buffers. -/
def sampleClient : Client :=
  let filled := (((initial (fun _ => none)).afterReport .slots true ⟨0x10000, 4096⟩).afterReport
    .nodes true ⟨0x18000, 4096⟩).push .slots 0x1000
  (((filled.push .nodes 0x2000).push .slots 0x1008).afterReport .slots false .empty).afterReport
    .nodes false .empty

theorem sampleClient_reached : (rootsWork (fun _ => none)).ReachableUnder Admitted sampleClient := by
  have ended : ∀ leaked, false = true → Allocates leaked .empty := fun _ renew => nomatch renew
  apply reached_report _ _ _ _ (ended _)
  apply reached_report _ _ _ _ (ended _)
  apply reached_push _ _ _ (by decide)
  apply reached_push _ _ _ (by decide)
  apply reached_push _ _ _ (by decide)
  apply reached_report
  · apply reached_report _ _ _ _ (fun _ => ⟨by decide, by decide, by decide, ?_⟩)
    · exact .initial
    · intro other member
      cases member
  · refine fun _ => ⟨by decide, by decide, by decide, ?_⟩
    intro other member
    rcases List.mem_singleton.mp member with rfl
    exact .inl (by decide)

theorem roots_reach_packets_sample :
    sampleClient.world.leaked = [] ∧
      (sampleClient.world.factory.packets .slots).flatten = [0x1000, 0x1008] ∧
      (sampleClient.world.factory.packets .nodes).flatten = [0x2000] := by
  rcases roots_reach_packets sampleClient_reached with ⟨-, -, -, -, complete⟩
  have empty : ∀ kind, sampleClient.held kind = .empty := by
    intro kind
    cases kind <;> rfl
  rcases complete empty with ⟨none, delivered⟩
  exact ⟨none, delivered .slots, delivered .nodes⟩

end MmtkJulia.RootsWork
