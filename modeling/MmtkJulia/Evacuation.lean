import MmtkJulia.Movable
import MmtkJulia.Runs

/-! An evacuation: movable objects are copied, their copies are scanned and the slots reported are
traced, in any order. What copy leaves in the place of an original does not matter: it is zeroed in
a debug build, and the forwarding pointer lies in its header. -/

namespace MmtkJulia.Scanning

/-- An object to be moved to what alloc_copy returns, with its size and its slots. -/
structure Cell where
  source : Address
  dst : Address
  bytes : Usize
  slots : List JuliaVMSlot
  deriving DecidableEq, Repr

namespace Cell

variable (cell : Cell)

def target : Address := cell.dst + 8

def image (slot : JuliaVMSlot) : JuliaVMSlot :=
  slot.relocate (· + (cell.target - cell.source))

def Touches (byte : Address) : Prop :=
  Inside cell.source cell.bytes.toNat byte ∨ Inside cell.target cell.bytes.toNat byte

def Separate (other : Cell) : Prop := ∀ byte, cell.Touches byte → ¬ other.Touches byte

instance : Std.Symm Separate := ⟨fun _ _ separate byte there here => separate byte here there⟩

theorem inside_target (byte : Address) :
    Inside cell.target cell.bytes.toNat byte ↔ Memory.Within cell.dst cell.bytes.toNat byte := by
  have start : cell.dst + 8 - 8 = cell.dst := BitVec.add_sub_cancel _ _
  rw [Inside, target, start]

end Cell

/-- A memory without the objects to be moved. -/
def spared (memory : Memory) (cells : List Cell) : Memory :=
  fun byte => if ∃ cell ∈ cells, Inside cell.source cell.bytes.toNat byte then none else memory byte

def overwritten (memory : Memory) (cell : Cell) (remains : Memory) : Memory :=
  fun byte => if Inside cell.source cell.bytes.toNat byte then remains byte else memory byte

structure Collection where
  memory : Memory
  traced : List Address
  waiting : List Cell
  copied : List Address
  scanned : List Address
  pending : List JuliaVMSlot

inductive Action where
  | evacuate (cell : Cell) (remains : Memory)
  | scan (target : Address)
  | trace (slot : JuliaVMSlot)

section System

variable (runtime : Runtime) (fuel : Nat) (forward : Address → ObjectReference) (state : Collection)

def evacuateNext (cell : Cell) (remains : Memory) : Option Collection :=
  if cell ∈ state.waiting then
    match copy runtime state.memory cell.source cell.dst with
    | .ok (other, target) => some { state with
        memory := overwritten other cell remains
        waiting := state.waiting.erase cell
        copied := target :: state.copied }
    | .error _ => none
  else none

def scanNext (target : Address) : Option Collection :=
  if target ∈ state.copied then
    match scanJuliaObject runtime state.memory fuel target with
    | .ok slots => some { state with
        copied := state.copied.erase target
        scanned := target :: state.scanned
        pending := slots ++ state.pending }
    | .error _ => none
  else none

def traceNext (slot : JuliaVMSlot) : Option Collection :=
  if slot ∈ state.pending then
    match traceSlot forward ⟨state.memory, state.traced⟩ slot with
    | .ok after => some { state with
        memory := after.memory
        traced := after.traced
        pending := state.pending.erase slot }
    | .error _ => none
  else none

def evacuationNext : Action → Option Collection
  | .evacuate cell remains => evacuateNext runtime state cell remains
  | .scan target => scanNext runtime fuel state target
  | .trace slot => traceNext forward state slot

def Enabled : Action → Prop
  | .evacuate cell _ => cell ∈ state.waiting
  | .scan target => target ∈ state.copied
  | .trace slot => slot ∈ state.pending

def evacuation (memory : Memory) (cells : List Cell) : System Collection Action where
  initial := ⟨memory, [], cells, [], [], []⟩
  next := evacuationNext runtime fuel forward

end System

/-- The objects lie in one memory with their types outside of them, and nothing is mapped where
they are moved. -/
structure Evacuable (runtime : Runtime) (memory : Memory) (cells : List Cell) : Prop where
  placed : ∀ cell ∈ cells,
    Placed runtime (spared memory cells) memory cell.source cell.bytes cell.slots
  reads : ∀ cell ∈ cells, ∀ slot ∈ cell.slots, ∃ word, loadU64 memory slot.address = .ok word
  small : ∀ cell ∈ cells, isObjectInLos cell.source = false
  room : ∀ cell ∈ cells, cell.dst.toNat + cell.bytes.toNat ≤ 2 ^ 63
  fresh : ∀ cell ∈ cells, ∀ byte, Memory.Within cell.dst cell.bytes.toNat byte → memory byte = none
  leaves : ∀ cell ∈ cells, ∀ byte, Inside cell.target cell.bytes.toNat byte →
    ¬ Inside cell.source cell.bytes.toNat byte
  separate : cells.Pairwise Cell.Separate

def referent (memory : Memory) (slot : JuliaVMSlot) : Option Address :=
  slot.target (wordAt memory slot.address)

/-! How far each object has come. -/

namespace Cell

variable (runtime : Runtime) (types memory now : Memory) (forward : Address → ObjectReference)
  (pending : List JuliaVMSlot) (cell : Cell)

structure Waits : Prop where
  original : ∀ byte, Inside cell.source cell.bytes.toNat byte → now byte = memory byte
  free : ∀ byte, Inside cell.target cell.bytes.toNat byte → now byte = none

structure Copied : Prop where
  placed : Placed runtime types now cell.target cell.bytes (cell.slots.map cell.image)
  header : loadU64 now cell.dst = loadU64 memory (cell.source - 8)
  words : ∀ slot ∈ cell.slots,
    loadU64 now (cell.image slot).address = loadU64 memory slot.address

structure Scanned : Prop where
  header : loadU64 now cell.dst = loadU64 memory (cell.source - 8)
  untraced : ∀ slot ∈ cell.slots, cell.image slot ∈ pending →
    loadU64 now (cell.image slot).address = loadU64 memory slot.address
  updated : ∀ slot ∈ cell.slots, cell.image slot ∉ pending →
    loadU64 now (cell.image slot).address =
      .ok (slot.updated forward (wordAt memory slot.address))

theorem image_address (slot : JuliaVMSlot) :
    (cell.image slot).address = slot.address + (cell.target - cell.source) := by
  cases slot with
  | simple address => rfl
  | offset address distance => rfl

theorem image_target (slot : JuliaVMSlot) (word : Usize) :
    (cell.image slot).target word = slot.target word := by
  cases slot with
  | simple address => rfl
  | offset address distance => rfl

theorem image_updated (slot : JuliaVMSlot) (word : Usize) :
    (cell.image slot).updated forward word = slot.updated forward word := by
  cases slot with
  | simple address => rfl
  | offset address distance => rfl

end Cell

theorem target_updated (forward : Address → ObjectReference) (slot : JuliaVMSlot) (word : Usize) :
    slot.target (slot.updated forward word) =
      (slot.target word).map (fun object => (forward object).addr) := by
  cases refers : slot.target word with
  | none =>
      rw [JuliaVMSlot.updated, refers]
      exact refers
  | some object =>
      have nonzero := (forward object).nonzero
      rw [JuliaVMSlot.updated, refers]
      cases slot with
      | simple address => exact if_neg nonzero
      | offset address distance =>
          have back : (forward object).addr + distance - distance = (forward object).addr :=
            BitVec.add_sub_cancel _ _
          simp only [JuliaVMSlot.referring, JuliaVMSlot.target, back, if_neg nonzero, Option.map_some]

def Beyond (cell : Cell) (now after : Memory) : Prop :=
  ∀ byte, ¬ cell.Touches byte → after byte = now byte

section Frames

variable {runtime : Runtime} {memory now after : Memory} {cells : List Cell} {cell other : Cell}
  {forward : Address → ObjectReference} {pending : List JuliaVMSlot}

theorem spared_extends (memory : Memory) (cells : List Cell) : (spared memory cells).Extends memory := by
  intro address byte mapped
  rw [spared] at mapped
  split_ifs at mapped
  exact mapped

namespace Evacuable

variable (heap : Evacuable runtime memory cells)
include heap

theorem spared_untouched (member : cell ∈ cells) {address : Address} {byte : BitVec 8}
    (mapped : spared memory cells address = some byte) : ¬ cell.Touches address := by
  intro touched
  rcases touched with original | copy
  · rw [spared, if_pos ⟨cell, member, original⟩] at mapped
    cases mapped
  · have free := heap.fresh cell member address ((cell.inside_target address).mp copy)
    rw [spared_extends memory cells address byte mapped] at free
    cases free

theorem types_kept (member : cell ∈ cells) (types : (spared memory cells).Extends now)
    (beyond : Beyond cell now after) : (spared memory cells).Extends after := by
  intro address byte mapped
  rw [beyond address (heap.spared_untouched member mapped)]
  exact types address byte mapped

theorem apart (member : cell ∈ cells) (present : other ∈ cells) (distinct : cell ≠ other) :
    cell.Separate other :=
  heap.separate.forall member present distinct

variable (statics : Statics runtime) (helpers : InlinedHelpers runtime)
include statics helpers

theorem header_size (member : cell ∈ cells) : 8 ≤ cell.bytes.toNat :=
  (heap.placed cell member).header statics helpers (spared_extends memory cells)

theorem image_within (member : cell ∈ cells) {slot : JuliaVMSlot} (present : slot ∈ cell.slots) :
    ∃ offset : Address, (cell.image slot).address = cell.target + offset ∧
      offset.toNat + 16 ≤ cell.bytes.toNat := by
  rcases (heap.placed cell member).slot_within statics helpers (spared_extends memory cells) slot present
    with ⟨offset, lies, inner, -⟩
  refine ⟨offset, ?_, inner⟩
  rw [cell.image_address, lies, add_moved]

theorem image_word (member : cell ∈ cells) {slot : JuliaVMSlot} (present : slot ∈ cell.slots)
    (same : ∀ byte, Inside cell.target cell.bytes.toNat byte → after byte = now byte) :
    loadU64 after (cell.image slot).address = loadU64 now (cell.image slot).address := by
  rcases heap.image_within statics helpers member present with ⟨offset, lies, inner⟩
  rw [lies]
  exact loadU64_inside same inner

theorem header_word (member : cell ∈ cells)
    (same : ∀ byte, Inside cell.target cell.bytes.toNat byte → after byte = now byte) :
    loadU64 after cell.dst = loadU64 now cell.dst := by
  have start : cell.target - 8 = cell.dst := BitVec.add_sub_cancel _ _
  rw [← start]
  exact header_inside same (heap.header_size statics helpers member)

theorem nodup : cells.Nodup := by
  apply List.Pairwise.imp_of_mem _ heap.separate
  intro first second member present separate same
  have header := heap.header_size statics helpers member
  have touched : first.Touches (first.source - 8) := by
    left
    rw [Inside, Memory.Within, BitVec.sub_self]
    exact Nat.lt_of_lt_of_le (by decide) header
  exact separate _ touched (same ▸ touched)

theorem slots_apart (member : cell ∈ cells) :
    cell.slots.Pairwise (fun slot other => Apart slot.address other.address) :=
  (heap.placed cell member).slots_apart statics helpers (spared_extends memory cells)

theorem images_apart (member : cell ∈ cells) {slot next : JuliaVMSlot} (present : slot ∈ cell.slots)
    (listed : next ∈ cell.slots) (distinct : slot ≠ next) :
    Apart (cell.image slot).address (cell.image next).address := by
  have symmetric : Std.Symm (fun slot other : JuliaVMSlot => Apart slot.address other.address) :=
    ⟨fun _ _ => Apart.symm⟩
  rcases (heap.slots_apart statics helpers member).forall present listed distinct with ⟨above, below⟩
  rw [cell.image_address, cell.image_address, Apart]
  constructor
  · bv_omega
  · bv_omega

theorem image_touches (member : cell ∈ cells) {slot : JuliaVMSlot} (present : slot ∈ cell.slots)
    {byte : Address} (inside : Memory.Within (cell.image slot).address 8 byte) : cell.Touches byte := by
  rcases heap.image_within statics helpers member present with ⟨offset, lies, inner⟩
  have small := cell.bytes.isLt
  right
  rw [lies, Memory.Within] at inside
  rw [Inside, Memory.Within]
  bv_omega

theorem trace_beyond (member : cell ∈ cells) {slot : JuliaVMSlot} (present : slot ∈ cell.slots)
    {log : List Address} {tracing : Tracing}
    (ran : traceSlot forward ⟨now, log⟩ (cell.image slot) = .ok tracing) :
    Beyond cell now tracing.memory := by
  intro byte untouched
  apply traceSlot_bytes ran
  intro inside
  exact untouched (heap.image_touches statics helpers member present inside)

theorem image_ne (member : cell ∈ cells) (present : other ∈ cells) (distinct : cell ≠ other)
    {slot next : JuliaVMSlot} (mine : slot ∈ cell.slots) (theirs : next ∈ other.slots) :
    cell.image slot ≠ other.image next := by
  intro same
  have first : ∀ address : Address, Memory.Within address 8 address := by
    intro address
    rw [Memory.Within, BitVec.sub_self]
    decide
  apply heap.apart member present distinct _ (heap.image_touches statics helpers member mine (first _))
  rw [same]
  exact heap.image_touches statics helpers present theirs (first _)

end Evacuable

theorem Cell.Waits.frame (waits : other.Waits memory now) (separate : cell.Separate other)
    (beyond : Beyond cell now after) : other.Waits memory after where
  original := by
    intro byte inside
    rw [beyond byte (fun touched => separate byte touched (.inl inside))]
    exact waits.original byte inside
  free := by
    intro byte inside
    rw [beyond byte (fun touched => separate byte touched (.inr inside))]
    exact waits.free byte inside

theorem Beyond.copy_same (beyond : Beyond cell now after) (separate : cell.Separate other) :
    ∀ byte, Inside other.target other.bytes.toNat byte → after byte = now byte :=
  fun byte inside => beyond byte (fun touched => separate byte touched (.inr inside))

variable (heap : Evacuable runtime memory cells) (statics : Statics runtime)
  (helpers : InlinedHelpers runtime)
include heap statics helpers

theorem Cell.Copied.frame (member : other ∈ cells) (types : (spared memory cells).Extends now)
    (still : (spared memory cells).Extends after)
    (copied : other.Copied runtime (spared memory cells) memory now)
    (same : ∀ byte, Inside other.target other.bytes.toNat byte → after byte = now byte) :
    other.Copied runtime (spared memory cells) memory after where
  placed := copied.placed.stable statics helpers types still same
  header := (heap.header_word statics helpers member same).trans copied.header
  words := fun slot present =>
    (heap.image_word statics helpers member present same).trans (copied.words slot present)

theorem Cell.Scanned.frame {later : List JuliaVMSlot} (member : other ∈ cells)
    (scanned : other.Scanned memory now forward pending)
    (same : ∀ byte, Inside other.target other.bytes.toNat byte → after byte = now byte)
    (pended : ∀ slot ∈ other.slots, other.image slot ∈ later ↔ other.image slot ∈ pending) :
    other.Scanned memory after forward later where
  header := (heap.header_word statics helpers member same).trans scanned.header
  untraced := fun slot present waiting =>
    (heap.image_word statics helpers member present same).trans
      (scanned.untraced slot present ((pended slot present).mp waiting))
  updated := fun slot present done =>
    (heap.image_word statics helpers member present same).trans
      (scanned.updated slot present (fun waiting => done ((pended slot present).mpr waiting)))

end Frames

/-- The objects waiting, those moved and those done are the cells, and each is as it should be. -/
structure Sound (runtime : Runtime) (memory : Memory) (cells : List Cell)
    (forward : Address → ObjectReference) (state : Collection) (moved_ done : List Cell) : Prop where
  all : (state.waiting ++ (moved_ ++ done)).Perm cells
  copied : state.copied.Perm (moved_.map Cell.target)
  scanned : state.scanned.Perm (done.map Cell.target)
  types : (spared memory cells).Extends state.memory
  waits : ∀ cell ∈ state.waiting, cell.Waits memory state.memory
  moves : ∀ cell ∈ moved_, cell.Copied runtime (spared memory cells) memory state.memory
  reports : ∀ cell ∈ done, cell.Scanned memory state.memory forward state.pending
  once : state.pending.Nodup
  owned : ∀ slot ∈ state.pending, ∃ cell ∈ done, ∃ original ∈ cell.slots, slot = cell.image original
  log : (state.traced ++ state.pending.filterMap (referent state.memory)).Perm
    (done.flatMap (fun cell => cell.slots.filterMap (referent memory)))

theorem referents_same {before now : Memory} {slots : List JuliaVMSlot}
    (same : ∀ slot ∈ slots, loadU64 now slot.address = loadU64 before slot.address) :
    slots.filterMap (referent now) = slots.filterMap (referent before) := by
  apply List.filterMap_congr
  intro slot member
  rw [referent, referent, wordAt, wordAt, same slot member]

section Steps

variable {runtime : Runtime} {memory : Memory} {cells : List Cell} {fuel : Nat}
  {forward : Address → ObjectReference} {state : Collection} {moved_ done : List Cell}

theorem sound_initial (runtime : Runtime) (memory : Memory) (cells : List Cell)
    (forward : Address → ObjectReference) (fuel : Nat) (heap : Evacuable runtime memory cells) :
    Sound runtime memory cells forward (evacuation runtime fuel forward memory cells).initial [] [] where
  all := .of_eq (List.append_nil cells)
  copied := .refl _
  scanned := .refl _
  types := spared_extends memory cells
  waits := fun cell member => ⟨fun _ _ => rfl,
    fun byte inside => heap.fresh cell member byte ((cell.inside_target byte).mp inside)⟩
  moves := List.forall_mem_nil _
  reports := List.forall_mem_nil _
  once := List.nodup_nil
  owned := List.forall_mem_nil _
  log := .refl _

namespace Sound

variable (sound : Sound runtime memory cells forward state moved_ done)
include sound

theorem waiting_mem {cell : Cell} (member : cell ∈ state.waiting) : cell ∈ cells :=
  sound.all.mem_iff.mp (List.mem_append_left _ member)

theorem moved_mem {cell : Cell} (member : cell ∈ moved_) : cell ∈ cells :=
  sound.all.mem_iff.mp (List.mem_append_right _ (List.mem_append_left _ member))

theorem done_mem {cell : Cell} (member : cell ∈ done) : cell ∈ cells :=
  sound.all.mem_iff.mp (List.mem_append_right _ (List.mem_append_right _ member))

variable (heap : Evacuable runtime memory cells) (statics : Statics runtime)
  (helpers : InlinedHelpers runtime)
include heap statics helpers

theorem nodup : (state.waiting ++ (moved_ ++ done)).Nodup :=
  sound.all.nodup_iff.mpr (heap.nodup statics helpers)

theorem waiting_ne {cell other : Cell} (member : cell ∈ state.waiting)
    (present : other ∈ moved_ ++ done) : cell ≠ other :=
  (List.nodup_append.mp (sound.nodup heap statics helpers)).2.2 cell member other present

theorem moved_ne {cell other : Cell} (member : cell ∈ moved_) (present : other ∈ done) :
    cell ≠ other := by
  have rest := (List.nodup_append.mp (sound.nodup heap statics helpers)).2.1
  exact (List.nodup_append.mp rest).2.2 cell member other present

theorem waiting_placed {cell : Cell} (member : cell ∈ state.waiting) :
    Placed runtime (spared memory cells) state.memory cell.source cell.bytes cell.slots ∧
      Fresh state.memory cell.source cell.dst cell.bytes.toNat := by
  have here := sound.waiting_mem member
  have waits := sound.waits cell member
  have original := heap.placed cell here
  have kept := spared_extends memory cells
  refine ⟨original.stable statics helpers kept sound.types waits.original, ?_, ?_, original.low,
    heap.room cell here⟩
  · intro byte inside
    exact waits.free byte ((cell.inside_target byte).mpr inside)
  · intro byte inside
    exact heap.leaves cell here byte ((cell.inside_target byte).mpr inside)

theorem copy_ran (tags : ∀ tag, runtime.smallTypeof tag ≠ runtime.buffTag) {cell : Cell}
    (member : cell ∈ state.waiting) :
    ∃ other, copy runtime state.memory cell.source cell.dst = .ok (other, cell.target) ∧
      (∀ remains, Beyond cell state.memory (overwritten other cell remains)) ∧
      ∀ remains, cell.Copied runtime (spared memory cells) memory (overwritten other cell remains) := by
  have here := sound.waiting_mem member
  have waits := sound.waits cell member
  rcases sound.waiting_placed heap statics helpers member with ⟨placed, fresh⟩
  rcases placed.copy_made statics helpers tags sound.types (heap.small cell here) fresh with
    ⟨other, ran, made⟩
  have framed : Beyond cell state.memory other := by
    intro byte untouched
    apply made.frame byte
    intro inside
    exact untouched (.inr ((cell.inside_target byte).mpr inside))
  have still := heap.types_kept here sound.types framed
  have words : ∀ slot ∈ cell.slots, loadU64 state.memory slot.address = loadU64 memory slot.address := by
    intro slot present
    rcases (heap.placed cell here).slot_within statics helpers (spared_extends memory cells) slot present
      with ⟨offset, lies, inner, -⟩
    rw [lies]
    exact loadU64_inside waits.original inner
  have start : cell.dst + 8 - 8 = cell.dst := BitVec.add_sub_cancel _ _
  have copied : cell.Copied runtime (spared memory cells) memory other := by
    refine ⟨placed.copy_placed statics helpers sound.types still (heap.room cell here) made, ?_, ?_⟩
    · rw [← start, made.resembles.header]
      exact header_inside waits.original (heap.header_size statics helpers here)
    · intro slot present
      rw [cell.image_address, ← words slot present]
      exact made.words slot present
  have beyond : ∀ remains, Beyond cell state.memory (overwritten other cell remains) := by
    intro remains byte untouched
    rw [overwritten, if_neg (fun inside => untouched (.inl inside))]
    exact framed byte untouched
  refine ⟨other, ran, beyond, ?_⟩
  intro remains
  apply copied.frame heap statics helpers here still (heap.types_kept here sound.types (beyond remains))
  intro byte inside
  exact if_neg (heap.leaves cell here byte inside)

theorem copy_beyond (tags : ∀ tag, runtime.smallTypeof tag ≠ runtime.buffTag) {cell : Cell}
    (member : cell ∈ state.waiting) {other : Memory} {target : Address}
    (ran : copy runtime state.memory cell.source cell.dst = .ok (other, target)) (remains : Memory) :
    Beyond cell state.memory (overwritten other cell remains) := by
  rcases sound.copy_ran heap statics helpers tags member with ⟨made, copied, beyond, -⟩
  have outcome : made = other := congrArg Prod.fst (Except.ok.inj (copied.symm.trans ran))
  exact outcome ▸ beyond remains

theorem evacuate_step (tags : ∀ tag, runtime.smallTypeof tag ≠ runtime.buffTag) {cell : Cell}
    (member : cell ∈ state.waiting) (remains : Memory) :
    ∃ after, evacuateNext runtime state cell remains = some after ∧
      Sound runtime memory cells forward after (cell :: moved_) done := by
  have here := sound.waiting_mem member
  rcases sound.copy_ran heap statics helpers tags member with ⟨other, ran, beyond, copied⟩
  have same := beyond remains
  have split := List.perm_cons_erase member
  have distinct := sound.nodup heap statics helpers
  refine ⟨_, by rw [evacuateNext, if_pos member, ran], ?_⟩
  refine ⟨?_, sound.copied.cons _, sound.scanned, heap.types_kept here sound.types same, ?_, ?_, ?_,
    sound.once, sound.owned, ?_⟩
  · calc (state.waiting.erase cell ++ (cell :: moved_ ++ done)).Perm
          (cell :: state.waiting.erase cell ++ (moved_ ++ done)) := List.perm_middle
      _ |>.Perm (state.waiting ++ (moved_ ++ done)) := split.symm.append_right _
      _ |>.Perm cells := sound.all
  · intro next waiting
    have apart : cell ≠ next := by
      intro equal
      have rest := (List.nodup_append.mp distinct).1
      exact (List.Nodup.not_mem_erase rest) (equal ▸ waiting)
    have present := List.mem_of_mem_erase waiting
    exact (sound.waits next present).frame (heap.apart here (sound.waiting_mem present) apart) same
  · intro next present
    rcases List.mem_cons.mp present with equal | present
    · rw [equal]
      exact copied remains
    · have apart := sound.waiting_ne heap statics helpers member (List.mem_append_left done present)
      have there := sound.moved_mem present
      exact (sound.moves next present).frame heap statics helpers there sound.types
        (heap.types_kept here sound.types same) (same.copy_same (heap.apart here there apart))
  · intro next present
    have apart := sound.waiting_ne heap statics helpers member (List.mem_append_right moved_ present)
    have there := sound.done_mem present
    exact (sound.reports next present).frame heap statics helpers there
      (same.copy_same (heap.apart here there apart)) (fun _ _ => Iff.rfl)
  · have referents : state.pending.filterMap (referent (overwritten other cell remains)) =
        state.pending.filterMap (referent state.memory) := by
      apply referents_same
      intro slot waiting
      rcases sound.owned slot waiting with ⟨owner, present, original, listed, equal⟩
      have apart := sound.waiting_ne heap statics helpers member (List.mem_append_right moved_ present)
      have there := sound.done_mem present
      rw [equal]
      exact heap.image_word statics helpers there listed (same.copy_same (heap.apart here there apart))
    change (state.traced ++ state.pending.filterMap (referent (overwritten other cell remains))).Perm _
    rw [referents]
    exact sound.log

theorem scan_step {target : Address} (member : target ∈ state.copied) :
    ∃ after rest cell, scanNext runtime fuel state target = some after ∧
      Sound runtime memory cells forward after rest (cell :: done) := by
  rcases List.mem_map.mp (sound.copied.mem_iff.mp member) with ⟨cell, present, rfl⟩
  have here := sound.moved_mem present
  have copied := sound.moves cell present
  have ran : scanJuliaObject runtime state.memory fuel cell.target = .ok (cell.slots.map cell.image) :=
    copied.placed.scan_eq statics helpers sound.types fuel
  have split := List.perm_cons_erase present
  have distinct := sound.nodup heap statics helpers
  have fewer : (moved_.erase cell).Sublist moved_ := List.erase_sublist
  have foreign : ∀ other ∈ done, ∀ slot ∈ other.slots, other.image slot ∉ cell.slots.map cell.image := by
    intro other there slot listed found
    rcases List.mem_map.mp found with ⟨own, mine, equal⟩
    exact heap.image_ne statics helpers here (sound.done_mem there)
      (sound.moved_ne heap statics helpers present there) mine listed equal
  refine ⟨_, moved_.erase cell, cell, by rw [scanNext, if_pos member, ran], ?_⟩
  refine ⟨?_, ?_, sound.scanned.cons _, sound.types, sound.waits, ?_, ?_, ?_, ?_, ?_⟩
  · calc (state.waiting ++ (moved_.erase cell ++ cell :: done)).Perm
          (state.waiting ++ (cell :: moved_.erase cell ++ done)) :=
            List.perm_middle.append_left _
      _ |>.Perm (state.waiting ++ (moved_ ++ done)) := (split.symm.append_right _).append_left _
      _ |>.Perm cells := sound.all
  · have whole := (sound.copied.trans (split.map Cell.target)).erase cell.target
    rw [List.map_cons, List.erase_cons_head] at whole
    exact whole
  · intro next there
    exact sound.moves next (fewer.subset there)
  · intro next there
    rcases List.mem_cons.mp there with equal | there
    · rw [equal]
      refine ⟨copied.header, fun slot listed _ => copied.words slot listed, ?_⟩
      intro slot listed absent
      exact absurd (List.mem_append_left _ (List.mem_map_of_mem listed)) absent
    · apply (sound.reports next there).frame heap statics helpers (sound.done_mem there) (fun _ _ => rfl)
      intro slot listed
      exact List.mem_append.trans (or_iff_right (foreign next there slot listed))
  · apply List.nodup_append.mpr
    refine ⟨?_, sound.once, ?_⟩
    · apply List.pairwise_map.mpr
      apply (heap.slots_apart statics helpers here).imp_of_mem
      intro slot next listed later apart equal
      have addresses := congrArg JuliaVMSlot.address equal
      rw [cell.image_address, cell.image_address] at addresses
      rw [Apart] at apart
      bv_omega
    · intro slot mine other waiting equal
      rcases sound.owned other waiting with ⟨owner, there, original, listed, image⟩
      rw [equal, image] at mine
      exact foreign owner there original listed mine
  · intro slot listed
    rcases List.mem_append.mp listed with mine | waiting
    · rcases List.mem_map.mp mine with ⟨original, own, rfl⟩
      exact ⟨cell, List.mem_cons_self, original, own, rfl⟩
    · rcases sound.owned slot waiting with ⟨owner, there, rest⟩
      exact ⟨owner, List.mem_cons_of_mem _ there, rest⟩
  · have referents : (cell.slots.map cell.image).filterMap (referent state.memory) =
        cell.slots.filterMap (referent memory) := by
      rw [List.filterMap_map]
      apply List.filterMap_congr
      intro slot listed
      rw [Function.comp_apply, referent, referent, cell.image_target, wordAt, wordAt,
        copied.words slot listed]
    change (state.traced ++ (cell.slots.map cell.image ++ state.pending).filterMap
      (referent state.memory)).Perm _
    rw [List.filterMap_append, referents, List.flatMap_cons]
    calc (state.traced ++ (cell.slots.filterMap (referent memory) ++
            state.pending.filterMap (referent state.memory))).Perm
          (cell.slots.filterMap (referent memory) ++
            (state.traced ++ state.pending.filterMap (referent state.memory))) :=
              List.perm_append_comm_assoc _ _ _
      _ |>.Perm (cell.slots.filterMap (referent memory) ++
            done.flatMap (fun cell => cell.slots.filterMap (referent memory))) :=
              sound.log.append_left _

/-! What an action on a scanned copy leaves alone. -/

theorem waits_beyond {now : Memory} {cell : Cell} (present : cell ∈ done)
    (beyond : Beyond cell state.memory now) : ∀ next ∈ state.waiting, next.Waits memory now := by
  intro next waiting
  have apart := sound.waiting_ne heap statics helpers waiting (List.mem_append_right moved_ present)
  have separate := heap.apart (sound.done_mem present) (sound.waiting_mem waiting) apart.symm
  exact (sound.waits next waiting).frame separate beyond

theorem moves_beyond {now : Memory} {cell : Cell} (present : cell ∈ done)
    (beyond : Beyond cell state.memory now) :
    ∀ next ∈ moved_, next.Copied runtime (spared memory cells) memory now := by
  intro next there
  have here := sound.done_mem present
  have apart := sound.moved_ne heap statics helpers there present
  have separate := heap.apart here (sound.moved_mem there) apart.symm
  exact (sound.moves next there).frame heap statics helpers (sound.moved_mem there) sound.types
    (heap.types_kept here sound.types beyond) (beyond.copy_same separate)

theorem other_word {now : Memory} {cell other : Cell} (here : cell ∈ done) (there : other ∈ done)
    {original slot : JuliaVMSlot} (mine : original ∈ cell.slots) (listed : slot ∈ other.slots)
    (distinct : other.image slot ≠ cell.image original) (beyond : Beyond cell state.memory now)
    (kept : ∀ address, Apart (cell.image original).address address →
      loadU64 now address = loadU64 state.memory address) :
    loadU64 now (other.image slot).address = loadU64 state.memory (other.image slot).address := by
  by_cases own : other = cell
  · rw [own] at listed distinct ⊢
    have different : original ≠ slot := by
      intro equal
      exact distinct (by rw [equal])
    exact kept _ (heap.images_apart statics helpers (sound.done_mem here) mine listed different)
  · have apart := heap.apart (sound.done_mem here) (sound.done_mem there) (Ne.symm own)
    exact heap.image_word statics helpers (sound.done_mem there) listed (beyond.copy_same apart)

theorem trace_step {slot : JuliaVMSlot} (member : slot ∈ state.pending) :
    ∃ after, traceNext forward state slot = some after ∧
      Sound runtime memory cells forward after moved_ done := by
  rcases sound.owned slot member with ⟨cell, present, original, mine, rfl⟩
  have here := sound.done_mem present
  have header := heap.header_size statics helpers here
  rcases heap.image_within statics helpers here mine with ⟨offset, lies, inner⟩
  rcases heap.reads cell here original mine with ⟨word, held⟩
  have reads : loadU64 state.memory (cell.image original).address = .ok word :=
    ((sound.reports cell present).untraced original mine member).trans held
  rcases traceSlot_eq forward reads state.traced with ⟨now, ran, stored, kept⟩
  have beyond : Beyond cell state.memory now := heap.trace_beyond statics helpers here mine ran
  have headerWord : loadU64 now cell.dst = loadU64 state.memory cell.dst := by
    apply kept
    rw [lies, Cell.target, Apart]
    have room := heap.room cell here
    bv_omega
  have absent : cell.image original ∉ state.pending.erase (cell.image original) :=
    List.Nodup.not_mem_erase sound.once
  refine ⟨_, by rw [traceNext, if_pos member, ran], ?_⟩
  refine ⟨sound.all, sound.copied, sound.scanned, heap.types_kept here sound.types beyond,
    sound.waits_beyond heap statics helpers present beyond,
    sound.moves_beyond heap statics helpers present beyond, ?_, sound.once.erase _, ?_, ?_⟩
  · intro next there
    have report := sound.reports next there
    constructor
    · by_cases own : next = cell
      · rw [own, headerWord]
        exact (sound.reports cell present).header
      · have separate := heap.apart here (sound.done_mem there) (Ne.symm own)
        rw [heap.header_word statics helpers (sound.done_mem there) (beyond.copy_same separate)]
        exact report.header
    · intro slot listed waiting
      have distinct : next.image slot ≠ cell.image original := fun equal => absent (equal ▸ waiting)
      rw [sound.other_word heap statics helpers present there mine listed distinct beyond kept]
      exact report.untraced slot listed (List.mem_of_mem_erase waiting)
    · intro slot listed traced
      by_cases equal : next.image slot = cell.image original
      · have own : next = cell := by
          by_contra different
          exact heap.image_ne statics helpers (sound.done_mem there) here different listed mine equal
        have same : slot = original := by
          by_contra different
          rw [own] at listed equal
          have apart := heap.images_apart statics helpers here listed mine different
          rw [equal, Apart, BitVec.sub_self] at apart
          exact absurd apart.1 (by decide)
        rw [equal, stored, cell.image_updated, same, wordAt_eq held]
      · rw [sound.other_word heap statics helpers present there mine listed equal beyond kept]
        exact report.updated slot listed
          (fun waiting => traced ((List.mem_erase_of_ne equal).mpr waiting))
  · intro slot waiting
    exact sound.owned slot (List.mem_of_mem_erase waiting)
  · have referents : (state.pending.erase (cell.image original)).filterMap (referent now) =
        (state.pending.erase (cell.image original)).filterMap (referent state.memory) := by
      apply referents_same
      intro slot waiting
      rcases sound.owned slot (List.mem_of_mem_erase waiting) with ⟨owner, there, source, listed, rfl⟩
      have distinct : owner.image source ≠ cell.image original := fun equal => absent (equal ▸ waiting)
      exact sound.other_word heap statics helpers present there mine listed distinct beyond kept
    have split : (state.pending.filterMap (referent state.memory)).Perm
        (((cell.image original).target word).toList ++
          (state.pending.erase (cell.image original)).filterMap (referent state.memory)) := by
      have moved_ := (List.perm_cons_erase member).filterMap (referent state.memory)
      have first : referent state.memory (cell.image original) = (cell.image original).target word := by
        rw [referent, wordAt_eq reads]
      rw [List.filterMap_cons, first] at moved_
      cases refers : (cell.image original).target word with
      | none =>
          rw [refers] at moved_
          exact moved_
      | some object =>
          rw [refers] at moved_
          exact moved_
    change (state.traced ++ ((cell.image original).target word).toList ++
      (state.pending.erase (cell.image original)).filterMap (referent now)).Perm _
    rw [referents, List.append_assoc]
    exact (split.symm.append_left _).trans sound.log

end Sound

end Steps

section Runs

variable {runtime : Runtime} {memory : Memory} {cells : List Cell} {fuel : Nat}
  {forward : Address → ObjectReference} {state : Collection}

theorem evacuateNext_cases {cell : Cell} {remains : Memory} {after : Collection}
    (taken : evacuateNext runtime state cell remains = some after) :
    ∃ other target, cell ∈ state.waiting ∧
      copy runtime state.memory cell.source cell.dst = .ok (other, target) ∧
      after = { state with
        memory := overwritten other cell remains
        waiting := state.waiting.erase cell
        copied := target :: state.copied } := by
  rw [evacuateNext] at taken
  split_ifs at taken with member
  cases ran : copy runtime state.memory cell.source cell.dst with
  | error fault =>
      rw [ran] at taken
      cases taken
  | ok outcome =>
      rw [ran] at taken
      exact ⟨outcome.1, outcome.2, member, rfl, (Option.some.inj taken).symm⟩

theorem scanNext_cases {target : Address} {after : Collection}
    (taken : scanNext runtime fuel state target = some after) :
    ∃ slots, target ∈ state.copied ∧ scanJuliaObject runtime state.memory fuel target = .ok slots ∧
      after = { state with
        copied := state.copied.erase target
        scanned := target :: state.scanned
        pending := slots ++ state.pending } := by
  rw [scanNext] at taken
  split_ifs at taken with member
  cases ran : scanJuliaObject runtime state.memory fuel target with
  | error fault =>
      rw [ran] at taken
      cases taken
  | ok slots =>
      rw [ran] at taken
      exact ⟨slots, member, rfl, (Option.some.inj taken).symm⟩

theorem traceNext_cases {slot : JuliaVMSlot} {after : Collection}
    (taken : traceNext forward state slot = some after) :
    ∃ tracing, slot ∈ state.pending ∧
      traceSlot forward ⟨state.memory, state.traced⟩ slot = .ok tracing ∧
      after = { state with
        memory := tracing.memory
        traced := tracing.traced
        pending := state.pending.erase slot } := by
  rw [traceNext] at taken
  split_ifs at taken with member
  cases ran : traceSlot forward ⟨state.memory, state.traced⟩ slot with
  | error fault =>
      rw [ran] at taken
      cases taken
  | ok tracing =>
      rw [ran] at taken
      exact ⟨tracing, member, rfl, (Option.some.inj taken).symm⟩

theorem enabled_of_next {action : Action} {after : Collection}
    (taken : evacuationNext runtime fuel forward state action = some after) : Enabled state action := by
  cases action with
  | evacuate cell remains =>
      rcases evacuateNext_cases taken with ⟨other, target, member, -, -⟩
      exact member
  | scan target =>
      rcases scanNext_cases taken with ⟨slots, member, -, -⟩
      exact member
  | trace slot =>
      rcases traceNext_cases taken with ⟨tracing, member, -, -⟩
      exact member

section Progress

variable (heap : Evacuable runtime memory cells) (statics : Statics runtime)
  (helpers : InlinedHelpers runtime) (tags : ∀ tag, runtime.smallTypeof tag ≠ runtime.buffTag)
include heap statics helpers tags

/-- Whatever is enabled succeeds, and keeps the objects sound. -/
theorem Sound.step {moved_ done : List Cell}
    (sound : Sound runtime memory cells forward state moved_ done) {action : Action}
    (enabled : Enabled state action) :
    ∃ after later scanned, evacuationNext runtime fuel forward state action = some after ∧
      Sound runtime memory cells forward after later scanned := by
  cases action with
  | evacuate cell remains =>
      rcases sound.evacuate_step heap statics helpers tags enabled remains with ⟨after, ran, next⟩
      exact ⟨after, _, _, ran, next⟩
  | scan target =>
      rcases sound.scan_step heap statics helpers enabled with ⟨after, rest, cell, ran, next⟩
      exact ⟨after, _, _, ran, next⟩
  | trace slot =>
      rcases sound.trace_step heap statics helpers enabled with ⟨after, ran, next⟩
      exact ⟨after, _, _, ran, next⟩

theorem Sound.next {moved_ done : List Cell}
    (sound : Sound runtime memory cells forward state moved_ done) {action : Action} {after : Collection}
    (taken : evacuationNext runtime fuel forward state action = some after) :
    ∃ later scanned, Sound runtime memory cells forward after later scanned := by
  rcases sound.step heap statics helpers tags (enabled_of_next taken) with
    ⟨next, later, scanned, ran, kept⟩
  have same : next = after := Option.some.inj (ran.symm.trans taken)
  exact ⟨later, scanned, same ▸ kept⟩

theorem evacuation_sound
    (reached : (evacuation runtime fuel forward memory cells).Reachable state) :
    ∃ moved_ done, Sound runtime memory cells forward state moved_ done := by
  apply reached.invariant (fun state => ∃ moved_ done, Sound runtime memory cells forward state moved_ done)
  · exact ⟨[], [], sound_initial runtime memory cells forward fuel heap⟩
  · intro before action after holds _ taken
    rcases holds with ⟨moved_, done, sound⟩
    exact sound.next heap statics helpers tags taken

end Progress

theorem Evacuable.target_inj (heap : Evacuable runtime memory cells) (statics : Statics runtime)
    (helpers : InlinedHelpers runtime) {cell other : Cell} (member : cell ∈ cells)
    (present : other ∈ cells) (same : cell.target = other.target) : cell = other := by
  by_contra distinct
  have touched : ∀ {c : Cell}, c ∈ cells → c.Touches (c.target - 8) := by
    intro c listed
    have header := heap.header_size statics helpers listed
    right
    rw [Inside, Memory.Within, BitVec.sub_self]
    exact Nat.lt_of_lt_of_le (by decide) header
  apply heap.apart member present distinct _ (touched member)
  rw [same]
  exact touched present

theorem Sound.scanned_cells {moved_ done : List Cell} (heap : Evacuable runtime memory cells)
    (statics : Statics runtime) (helpers : InlinedHelpers runtime)
    (sound : Sound runtime memory cells forward state moved_ done) :
    (cells.filter (fun cell => cell.target ∈ state.scanned)).Perm done ∧
      ∀ cell ∈ cells, cell.target ∈ state.scanned → cell ∈ done := by
  have found : ∀ cell ∈ cells, cell.target ∈ state.scanned → cell ∈ done := by
    intro cell member scanned
    rcases List.mem_map.mp (sound.scanned.mem_iff.mp scanned) with ⟨own, present, same⟩
    rw [← heap.target_inj statics helpers (sound.done_mem present) member same]
    exact present
  have distinct := sound.nodup heap statics helpers
  have waiting : state.waiting.filter (fun cell => cell.target ∈ state.scanned) = [] := by
    apply List.filter_eq_nil_iff.mpr
    intro cell member scanned
    have present := found cell (sound.waiting_mem member) (of_decide_eq_true scanned)
    exact sound.waiting_ne heap statics helpers member (List.mem_append_right _ present) rfl
  have moved_ : moved_.filter (fun cell => cell.target ∈ state.scanned) = [] := by
    apply List.filter_eq_nil_iff.mpr
    intro cell member scanned
    have present := found cell (sound.moved_mem member) (of_decide_eq_true scanned)
    exact sound.moved_ne heap statics helpers member present rfl
  have all : done.filter (fun cell => cell.target ∈ state.scanned) = done := by
    apply List.filter_eq_self.mpr
    intro cell member
    exact decide_eq_true (sound.scanned.mem_iff.mpr (List.mem_map_of_mem member))
  have filtered := sound.all.symm.filter (fun cell => cell.target ∈ state.scanned)
  rw [List.filter_append, List.filter_append, waiting, moved_, all] at filtered
  exact ⟨filtered, found⟩

theorem Sound.slot_loads {moved_ done : List Cell} (heap : Evacuable runtime memory cells)
    (sound : Sound runtime memory cells forward state moved_ done) {cell : Cell} (present : cell ∈ done)
    {slot : JuliaVMSlot} (listed : slot ∈ cell.slots) :
    ∃ object, slot.load memory = .ok object ∧
      (cell.image slot).load state.memory = .ok (if cell.image slot ∈ state.pending then object
        else object.map (fun found => (forward found).addr)) := by
  have report := sound.reports cell present
  rcases heap.reads cell (sound.done_mem present) slot listed with ⟨word, held⟩
  refine ⟨slot.target word, by rw [JuliaVMSlot.load, held]; rfl, ?_⟩
  by_cases pending : cell.image slot ∈ state.pending
  · rw [if_pos pending, JuliaVMSlot.load, report.untraced slot listed pending, held]
    exact congrArg Except.ok (cell.image_target slot word)
  · rw [if_neg pending, JuliaVMSlot.load, report.updated slot listed pending, wordAt_eq held,
      ← target_updated]
    exact congrArg Except.ok (cell.image_target slot _)

/-- In whatever order the objects are copied, scanned and traced, and whatever is left in their old
places: nothing fails, a copy has the header of the original, each of its slots refers to what the
original referred to, forwarded once the slot is traced, and each reference is traced once. -/
theorem evacuation_keeps_graph (heap : Evacuable runtime memory cells) (statics : Statics runtime)
    (helpers : InlinedHelpers runtime) (tags : ∀ tag, runtime.smallTypeof tag ≠ runtime.buffTag)
    (reached : (evacuation runtime fuel forward memory cells).Reachable state) :
    (∀ action, Enabled state action →
        ∃ after, evacuationNext runtime fuel forward state action = some after) ∧
      (∀ cell ∈ cells,
        cell ∈ state.waiting ∨ cell.target ∈ state.copied ∨ cell.target ∈ state.scanned) ∧
      (∀ cell ∈ cells, cell.target ∈ state.scanned →
        loadU64 state.memory cell.dst = loadU64 memory (cell.source - 8) ∧
        ∀ slot ∈ cell.slots, ∃ object, slot.load memory = .ok object ∧
          (cell.image slot).load state.memory = .ok (if cell.image slot ∈ state.pending then object
            else object.map (fun found => (forward found).addr))) ∧
      (state.traced ++ state.pending.filterMap (referent state.memory)).Perm
        ((cells.filter (fun cell => cell.target ∈ state.scanned)).flatMap
          (fun cell => cell.slots.filterMap (referent memory))) := by
  rcases evacuation_sound heap statics helpers tags reached with ⟨moved_, done, sound⟩
  rcases sound.scanned_cells heap statics helpers with ⟨same, found⟩
  refine ⟨?_, ?_, ?_, ?_⟩
  · intro action enabled
    rcases sound.step heap statics helpers tags enabled with ⟨after, -, -, ran, -⟩
    exact ⟨after, ran⟩
  · intro cell member
    rcases List.mem_append.mp (sound.all.mem_iff.mpr member) with waiting | rest
    · exact .inl waiting
    rcases List.mem_append.mp rest with copied | scanned
    · exact .inr (.inl (sound.copied.mem_iff.mpr (List.mem_map_of_mem copied)))
    · exact .inr (.inr (sound.scanned.mem_iff.mpr (List.mem_map_of_mem scanned)))
  · intro cell member scanned
    have present := found cell member scanned
    exact ⟨(sound.reports cell present).header, fun slot listed => sound.slot_loads heap present listed⟩
  · exact sound.log.trans (same.symm.flatMap_right _)

end Runs

/-- Two simple vectors of one element each that hold one another. -/
def cycleWords : List (Address × Usize) := [
  (0x10000, 0x90), (0x10008, 1), (0x10010, 0x10108),
  (0x10100, 0x90), (0x10108, 1), (0x10110, 0x10008), (0, 0x900)]

def cycleMemory : Memory := .ofWords cycleWords

def cycleCell (source dst : Address) : Cell := ⟨source, dst, 32, slotsAt (source + 8) (wordOffsets 1)⟩

def cycleCells : List Cell := [cycleCell 0x10008 0x20000, cycleCell 0x10108 0x20100]

def cycleForward (object : Address) : ObjectReference :=
  if object = 0x10008 then ⟨0x20008, by decide, by decide⟩ else ⟨0x20108, by decide, by decide⟩

theorem cycle_evacuable : Evacuable sampleRuntime cycleMemory cycleCells where
  placed := by
    have type : SmallTag sampleRuntime (spared cycleMemory cycleCells) simplevectorTag :=
      ⟨by decide, by decide, 0x900, by decide +kernel, by decide⟩
    have placed : ∀ {obj : Address}, mmtkJlTypetagof cycleMemory obj = .ok simplevectorTag →
        loadU64 cycleMemory obj = .ok 1 → getSoObjectSize sampleRuntime cycleMemory obj = .ok 32 →
        (obj - 8).toNat + 32 ≤ 2 ^ 63 → Placed sampleRuntime (spared cycleMemory cycleCells) cycleMemory
          obj 32 (slotsAt (obj + 8) (wordOffsets 1)) :=
      fun tag counted size low => ⟨.vector tag type counted (by decide), size, low⟩
    intro cell member
    rcases List.mem_cons.mp member with rfl | member
    · exact placed (by decide +kernel) (by decide +kernel) (by decide +kernel) (by decide)
    · rw [List.mem_singleton.mp member]
      exact placed (by decide +kernel) (by decide +kernel) (by decide +kernel) (by decide)
  reads := by
    intro cell member slot listed
    rcases List.mem_cons.mp member with rfl | member
    · rw [List.mem_singleton.mp listed]
      exact ⟨0x10108, by decide +kernel⟩
    · rw [List.mem_singleton.mp member] at listed
      rw [List.mem_singleton.mp listed]
      exact ⟨0x10008, by decide +kernel⟩
  small := by decide
  room := by decide
  fresh := by
    have low : ∀ word ∈ cycleWords, word.1.toNat + 8 ≤ 0x11000 := by
      simp [cycleWords]
    intro cell member byte inside
    apply Memory.ofWords_above low
    rcases List.mem_cons.mp member with rfl | member
    · rw [Memory.Within, cycleCell] at inside
      bv_omega
    · rw [List.mem_singleton.mp member, Memory.Within, cycleCell] at inside
      bv_omega
  leaves := by
    intro cell member byte inside there
    rcases List.mem_cons.mp member with rfl | member
    · rw [Inside, Memory.Within, Cell.target, cycleCell] at inside
      rw [Inside, Memory.Within, cycleCell] at there
      bv_omega
    · rw [List.mem_singleton.mp member] at inside there
      rw [Inside, Memory.Within, Cell.target, cycleCell] at inside
      rw [Inside, Memory.Within, cycleCell] at there
      bv_omega
  separate := by
    apply List.pairwise_pair.mpr
    intro byte here there
    simp only [Cell.Touches, Inside, Memory.Within, Cell.target, cycleCell] at here there
    bv_omega

theorem sampleRuntime_inlinedHelpers : InlinedHelpers sampleRuntime where
  how := by
    intro memory m ptr loaded
    constructor
    · intro zero
      by_contra different
      have away : memory.load (m + 8) 8 ≠ some (m + 16) := by
        rw [load_of_loadU64 loaded]
        exact fun same => different (Option.some.inj same)
      change (if memory.load (m + 8) 8 = some (m + 16) then (0 : Usize) else _) = 0 at zero
      rw [if_neg away] at zero
      split_ifs at zero
      all_goals exact absurd zero (by decide)
    · rintro rfl
      exact (sampleRuntime_rule memory m).inlined loaded
  rebase := by
    intro memory m target loaded
    exact sampleRuntime_rebase (load_of_loadU64 loaded)

/-- The objects, zeroed behind their copies, still hold one another. -/
theorem evacuation_keeps_graph_cycle :
    ∃ after, (evacuation sampleRuntime 0 cycleForward cycleMemory cycleCells).run
        (evacuation sampleRuntime 0 cycleForward cycleMemory cycleCells).initial
        [.evacuate (cycleCell 0x10108 0x20100) (fun _ => some 0), .scan 0x20108,
          .trace (.simple 0x20110), .evacuate (cycleCell 0x10008 0x20000) (fun _ => some 0),
          .scan 0x20008, .trace (.simple 0x20010)] = some after ∧
      JuliaVMSlot.load after.memory (.simple 0x20010) = .ok (some 0x20108) ∧
      JuliaVMSlot.load after.memory (.simple 0x20110) = .ok (some 0x20008) ∧
      after.traced.Perm [0x10108, 0x10008] := by
  have outcome : ((evacuation sampleRuntime 0 cycleForward cycleMemory cycleCells).run
      (evacuation sampleRuntime 0 cycleForward cycleMemory cycleCells).initial
      [.evacuate (cycleCell 0x10108 0x20100) (fun _ => some 0), .scan 0x20108,
        .trace (.simple 0x20110), .evacuate (cycleCell 0x10008 0x20000) (fun _ => some 0),
        .scan 0x20008, .trace (.simple 0x20010)]).map (fun state => (state.scanned, state.pending)) =
      some ([0x20008, 0x20108], []) := by decide +kernel
  rcases Option.map_eq_some_iff.mp outcome with ⟨after, ran, lists⟩
  have scanned : after.scanned = [0x20008, 0x20108] := congrArg Prod.fst lists
  have pending : after.pending = [] := congrArg Prod.snd lists
  have reached : (evacuation sampleRuntime 0 cycleForward cycleMemory cycleCells).Reachable after :=
    System.Reachable.run .initial _ ran
  have tags : ∀ tag, sampleRuntime.smallTypeof tag ≠ sampleRuntime.buffTag :=
    fun _ => (by decide : (0 : Address) ≠ 0x4eade800)
  obtain ⟨-, -, graph, log⟩ := evacuation_keeps_graph cycle_evacuable sampleRuntime_statics
    sampleRuntime_inlinedHelpers tags reached
  have first := (graph (cycleCell 0x10008 0x20000) (by decide) (by rw [scanned]; decide)).2
    (.simple 0x10010) (by decide)
  have second := (graph (cycleCell 0x10108 0x20100) (by decide) (by rw [scanned]; decide)).2
    (.simple 0x10110) (by decide)
  have held : JuliaVMSlot.load cycleMemory (.simple 0x10010) = .ok (some 0x10108) := by decide +kernel
  have back : JuliaVMSlot.load cycleMemory (.simple 0x10110) = .ok (some 0x10008) := by decide +kernel
  rw [pending] at first second log
  rcases first with ⟨object, found, forwarded⟩
  rcases second with ⟨other, also, returned⟩
  rw [← Except.ok.inj (held.symm.trans found)] at forwarded
  rw [← Except.ok.inj (back.symm.trans also)] at returned
  refine ⟨after, ran, forwarded, returned, ?_⟩
  rw [scanned, List.filterMap_nil, List.append_nil] at log
  exact log

end MmtkJulia.Scanning
