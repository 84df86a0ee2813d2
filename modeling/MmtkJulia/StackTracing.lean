import MmtkJulia.ParkedStack
import MmtkJulia.Slots

/-! The shadow stack of a task over many collections: what tracing its slots makes of the frames. -/

namespace MmtkJulia.Scanning

section Words

def wordSlots (address : Address) (word : Usize) : List JuliaVMSlot :=
  if word &&& 3 = 3 then [] else if word &&& 1 ≠ 0 then [.offset address 1] else [.simple address]

theorem lowBit_of_pair {word : Usize} (pair : word &&& 3 = 3) : word &&& 1 ≠ 0 := by
  have low := and_low word (by decide : (3 : Usize) &&& 1 = 1)
  rw [tagBits, pair] at low
  rw [low]
  decide

theorem tag_one {word : Usize} (pair : word &&& 3 ≠ 3) (tagged : word &&& 1 ≠ 0) : tagBits word = 1 := by
  have low := and_low word (by decide : (3 : Usize) &&& 1 = 1)
  have small : (tagBits word).toNat ≤ 3 := by
    rw [tagBits, BitVec.toNat_and]
    exact Nat.and_le_right
  have cases_ : tagBits word = 0 ∨ tagBits word = 1 ∨ tagBits word = 2 ∨ tagBits word = 3 := by
    bv_omega
  rw [low] at tagged
  rcases cases_ with zero | one | two | three
  · rw [zero] at tagged
    exact absurd rfl tagged
  · exact one
  · rw [two] at tagged
    exact absurd rfl tagged
  · exact absurd three pair

theorem directSlots_step (rts : Address) (i : Nat) (word : Usize) (words : List Usize) :
    directSlots rts i (word :: words) = wordSlots (shift rts (BitVec.ofNat 64 i)) word ++
      if word &&& 1 ≠ 0 then directSlots rts (i + 2) words.tail else directSlots rts (i + 1) words := by
  rw [directSlots_cons, wordSlots]
  by_cases pair : word &&& 3 = 3
  · rw [if_pos pair, if_pos pair, if_pos (lowBit_of_pair pair), List.nil_append]
  · rw [if_neg pair, if_neg pair]
    by_cases tagged : word &&& 1 ≠ 0
    · rw [if_pos tagged, if_pos tagged, if_pos tagged, List.singleton_append]
    · rw [if_neg tagged, if_neg tagged, if_neg tagged, List.singleton_append]

variable (forward : Address → ObjectReference)

def tracedWord (word : Usize) : Usize :=
  if word &&& 3 = 3 then word
  else if word &&& 1 ≠ 0 then (JuliaVMSlot.offset 0 1).updated forward word
  else (JuliaVMSlot.simple 0).updated forward word

def tracedWords : List Usize → List Usize
  | [] => []
  | [word] => [tracedWord forward word]
  | word :: next :: words =>
      if word &&& 1 ≠ 0 then tracedWord forward word :: next :: tracedWords words
      else tracedWord forward word :: tracedWords (next :: words)

theorem updated_simple_tag (address : Address) (word : Usize) :
    (JuliaVMSlot.simple address).updated forward word &&& 1 = 0 := by
  by_cases null : word = 0
  · rw [null, JuliaVMSlot.updated_null]
    rfl
  · rw [JuliaVMSlot.updated_simple _ forward null, and_low _ (by decide), ObjectReference.tagBits_addr]
    rfl

theorem updated_offset_tag (address : Address) {word : Usize} (tag : tagBits word = 1) :
    tagBits ((JuliaVMSlot.offset address 1).updated forward word) = 1 := by
  by_cases null : word - 1 = 0
  · rw [JuliaVMSlot.updated, JuliaVMSlot.target, if_pos null]
    exact tag
  · rw [JuliaVMSlot.updated_offset _ forward null, ObjectReference.add_one]
    exact ObjectReference.tagBits_or_one _

theorem tracedWord_kind (word : Usize) :
    (tracedWord forward word &&& 3 = 3 ↔ word &&& 3 = 3) ∧
      (tracedWord forward word &&& 1 ≠ 0 ↔ word &&& 1 ≠ 0) := by
  rw [tracedWord]
  by_cases pair : word &&& 3 = 3
  · rw [if_pos pair]
    exact ⟨Iff.rfl, Iff.rfl⟩
  rw [if_neg pair]
  by_cases tagged : word &&& 1 ≠ 0
  · have kept := updated_offset_tag forward 0 (tag_one pair tagged)
    rw [if_pos tagged]
    constructor
    · apply iff_of_false _ pair
      intro both
      rw [tagBits, both] at kept
      exact absurd kept (by decide)
    · apply iff_of_true _ tagged
      rw [and_low _ (by decide), kept]
      decide
  · have clear := updated_simple_tag forward 0 word
    rw [if_neg tagged]
    constructor
    · apply iff_of_false _ pair
      intro both
      exact lowBit_of_pair both clear
    · exact iff_of_false (not_not.mpr clear) tagged

theorem wordSlots_traced (address : Address) (word : Usize) :
    wordSlots address (tracedWord forward word) = wordSlots address word := by
  rcases tracedWord_kind forward word with ⟨pair, tagged⟩
  simp only [wordSlots, pair, tagged]

theorem tracedWords_length (words : List Usize) :
    (tracedWords forward words).length = words.length := by
  induction words using tracedWords.induct with
  | case1 => rfl
  | case2 word => rfl
  | case3 word next words tagged ih => simp only [tracedWords, if_pos tagged, List.length_cons, ih]
  | case4 word next words untagged ih =>
      rw [tracedWords, if_neg untagged, List.length_cons, ih, List.length_cons, List.length_cons,
        List.length_cons]

theorem directSlots_traced (rts : Address) (i : Nat) (words : List Usize) :
    directSlots rts i (tracedWords forward words) = directSlots rts i words := by
  induction words using tracedWords.induct generalizing i with
  | case1 => rfl
  | case2 word =>
      have kept := (tracedWord_kind forward word).2
      rw [tracedWords, directSlots_step, directSlots_step, wordSlots_traced]
      simp only [kept, List.tail_nil]
  | case3 word next words tagged ih =>
      have kept := (tracedWord_kind forward word).2.mpr tagged
      rw [tracedWords, if_pos tagged, directSlots_step rts i (tracedWord forward word),
        directSlots_step rts i word, wordSlots_traced, if_pos kept, if_pos tagged, List.tail_cons,
        List.tail_cons, ih]
  | case4 word next words untagged ih =>
      have kept := (not_congr (tracedWord_kind forward word).2).mpr untagged
      rw [tracedWords, if_neg untagged, directSlots_step rts i (tracedWord forward word),
        directSlots_step rts i word, wordSlots_traced, if_neg kept, if_neg untagged, ih]

theorem directSlots_sublist (rts : Address) (i : Nat) (words : List Usize) :
    ((directSlots rts i words).map JuliaVMSlot.address).Sublist
      ((List.range' i words.length).map (fun k => shift rts (BitVec.ofNat 64 k))) := by
  have first : ∀ (i : Nat) (word : Usize), ((wordSlots (shift rts (BitVec.ofNat 64 i)) word).map
      JuliaVMSlot.address).Sublist [shift rts (BitVec.ofNat 64 i)] := by
    intro i word
    rw [wordSlots]
    split_ifs
    · exact List.nil_sublist _
    · exact List.Sublist.refl _
    · exact List.Sublist.refl _
  induction words using tracedWords.induct generalizing i with
  | case1 => exact List.nil_sublist _
  | case2 word =>
      have rest : (if word &&& 1 ≠ 0 then directSlots rts (i + 2) [].tail
          else directSlots rts (i + 1) []) = [] := ite_self _
      rw [directSlots_step, rest, List.append_nil]
      exact first i word
  | case3 word next words tagged ih =>
      have later := (ih (i + 2)).cons (shift rts (BitVec.ofNat 64 (i + 1)))
      rw [directSlots_step, if_pos tagged, List.map_append]
      exact (first i word).append later
  | case4 word next words untagged ih =>
      rw [directSlots_step, if_neg untagged, List.map_append]
      exact (first i word).append (ih (i + 1))

theorem directSlots_index {rts : Address} {i : Nat} {words : List Usize} {slot : JuliaVMSlot}
    (member : slot ∈ directSlots rts i words) :
    ∃ j, j < words.length ∧ slot.address = shift rts (BitVec.ofNat 64 (i + j)) := by
  have listed := (directSlots_sublist rts i words).subset (List.mem_map_of_mem member)
  rcases List.mem_map.mp listed with ⟨k, present, same⟩
  rcases List.mem_range'_1.mp present with ⟨above, below⟩
  refine ⟨k - i, by omega, ?_⟩
  rw [← same, Nat.add_sub_cancel' above]

theorem wordSlots_word (address : Address) (word : Usize) :
    (∃ slot, wordSlots address word = [slot] ∧ slot.address = address ∧
        tracedWord forward word = slot.updated forward word) ∨
      wordSlots address word = [] ∧ tracedWord forward word = word := by
  rw [wordSlots, tracedWord]
  by_cases pair : word &&& 3 = 3
  · rw [if_pos pair, if_pos pair]
    exact .inr ⟨rfl, rfl⟩
  rw [if_neg pair, if_neg pair]
  by_cases tagged : word &&& 1 ≠ 0
  · rw [if_pos tagged, if_pos tagged]
    exact .inl ⟨_, rfl, rfl, rfl⟩
  · rw [if_neg tagged, if_neg tagged]
    exact .inl ⟨_, rfl, rfl, rfl⟩

/-- Either a slot lies in the word and tracing updates it, or all slots lie in other words and
tracing leaves it alone. -/
def WordTraced (rts : Address) (i : Nat) (words : List Usize) (k : Nat) : Prop :=
  (∃ slot ∈ directSlots rts i words, slot.address = shift rts (BitVec.ofNat 64 (i + k)) ∧
      (tracedWords forward words)[k]? = words[k]?.map (slot.updated forward)) ∨
    (tracedWords forward words)[k]? = words[k]? ∧
      ∀ slot ∈ directSlots rts i words, ∃ j, j < words.length ∧ j ≠ k ∧
        slot.address = shift rts (BitVec.ofNat 64 (i + j))

theorem WordTraced.first {rts : Address} {i : Nat} {word : Usize} {words rest : List Usize}
    {slots : List JuliaVMSlot} (traced : tracedWords forward (word :: words) =
      tracedWord forward word :: rest)
    (reported : directSlots rts i (word :: words) =
      wordSlots (shift rts (BitVec.ofNat 64 i)) word ++ slots)
    (later : ∀ slot ∈ slots, ∃ j, j < (word :: words).length ∧ j ≠ 0 ∧
      slot.address = shift rts (BitVec.ofNat 64 (i + j))) :
    WordTraced forward rts i (word :: words) 0 := by
  rw [WordTraced, traced, reported]
  rcases wordSlots_word forward (shift rts (BitVec.ofNat 64 i)) word with
    ⟨slot, only, lies, updated⟩ | ⟨none, kept⟩
  · rw [only, updated]
    exact .inl ⟨slot, List.mem_cons_self, lies, rfl⟩
  · rw [none, kept]
    exact .inr ⟨rfl, later⟩

theorem wordSlots_lies {address : Address} {word : Usize} {slot : JuliaVMSlot}
    (member : slot ∈ wordSlots address word) : slot.address = address := by
  rw [wordSlots] at member
  split_ifs at member
  · cases member
  · rw [List.mem_singleton.mp member]
    rfl
  · rw [List.mem_singleton.mp member]
    rfl

theorem WordTraced.later {rts : Address} {i k : Nat} {word : Usize} {front images words : List Usize}
    (traced : tracedWords forward (front ++ words) = images ++ tracedWords forward words)
    (same : images.length = front.length) (positive : 0 < front.length)
    (reported : directSlots rts i (front ++ words) =
      wordSlots (shift rts (BitVec.ofNat 64 i)) word ++ directSlots rts (i + front.length) words)
    (rest : WordTraced forward rts (i + front.length) words k) :
    WordTraced forward rts i (front ++ words) (front.length + k) := by
  have behind : (front ++ words)[front.length + k]? = words[k]? := by
    rw [List.getElem?_append_right (Nat.le_add_right _ _), Nat.add_sub_cancel_left]
  have image : (images ++ tracedWords forward words)[front.length + k]? =
      (tracedWords forward words)[k]? := by
    rw [← same, List.getElem?_append_right (Nat.le_add_right _ _), Nat.add_sub_cancel_left]
  rw [WordTraced, traced, reported, behind, image, ← Nat.add_assoc]
  rcases rest with ⟨slot, member, lies, updated⟩ | ⟨kept, others⟩
  · exact .inl ⟨slot, List.mem_append_right _ member, lies, updated⟩
  · refine .inr ⟨kept, ?_⟩
    intro slot member
    rcases List.mem_append.mp member with first | member
    · exact ⟨0, by rw [List.length_append]; omega, by omega, wordSlots_lies first⟩
    · rcases others slot member with ⟨j, below, different, lies⟩
      exact ⟨front.length + j, by rw [List.length_append]; omega, by omega,
        by rw [lies, Nat.add_assoc]⟩

theorem wordTraced (rts : Address) (i : Nat) (words : List Usize) {k : Nat} (inside : k < words.length) :
    WordTraced forward rts i words k := by
  induction words using tracedWords.induct generalizing i k with
  | case1 => exact absurd inside (Nat.not_lt_zero k)
  | case2 word =>
      have start : k = 0 := by
        rw [List.length_singleton] at inside
        omega
      have rest : (if word &&& 1 ≠ 0 then directSlots rts (i + 2) [].tail
          else directSlots rts (i + 1) []) = [] := ite_self _
      have reported := directSlots_step rts i word []
      rw [rest] at reported
      rw [start]
      exact WordTraced.first forward rfl reported (List.forall_mem_nil _)
  | case3 word next words tagged ih =>
      have reported := directSlots_step rts i word (next :: words)
      have traced : tracedWords forward (word :: next :: words) =
          tracedWord forward word :: next :: tracedWords forward words := by
        rw [tracedWords, if_pos tagged]
      rw [if_pos tagged, List.tail_cons] at reported
      have others : ∀ slot ∈ directSlots rts (i + 2) words, ∃ j, j < (word :: next :: words).length ∧
          2 ≤ j ∧ slot.address = shift rts (BitVec.ofNat 64 (i + j)) := by
        intro slot member
        rcases directSlots_index member with ⟨j, below, lies⟩
        exact ⟨2 + j, by simp only [List.length_cons]; omega, by omega, by rw [lies, Nat.add_assoc]⟩
      match k with
      | 0 =>
          apply WordTraced.first forward traced reported
          intro slot member
          rcases others slot member with ⟨j, below, above, lies⟩
          exact ⟨j, below, by omega, lies⟩
      | 1 =>
          -- the word that the first one skips
          rw [WordTraced, traced, reported]
          refine .inr ⟨rfl, ?_⟩
          intro slot member
          rcases List.mem_append.mp member with first | member
          · exact ⟨0, Nat.succ_pos _, by omega, wordSlots_lies first⟩
          · rcases others slot member with ⟨j, below, above, lies⟩
            exact ⟨j, below, by omega, lies⟩
      | k + 2 =>
          have split : tracedWords forward ([word, next] ++ words) =
              [tracedWord forward word, next] ++ tracedWords forward words := traced
          have below : k < words.length := Nat.lt_of_succ_lt_succ (Nat.lt_of_succ_lt_succ inside)
          rw [Nat.add_comm k 2]
          exact WordTraced.later forward split rfl (Nat.succ_pos 1) reported (ih (i + 2) below)
  | case4 word next words untagged ih =>
      have reported := directSlots_step rts i word (next :: words)
      have traced : tracedWords forward (word :: next :: words) =
          tracedWord forward word :: tracedWords forward (next :: words) := by
        rw [tracedWords, if_neg untagged]
      rw [if_neg untagged] at reported
      match k with
      | 0 =>
          apply WordTraced.first forward traced reported
          intro slot member
          rcases directSlots_index member with ⟨j, below, lies⟩
          exact ⟨1 + j, by simp only [List.length_cons] at below ⊢; omega, by omega,
            by rw [lies, Nat.add_assoc]⟩
      | k + 1 =>
          have split : tracedWords forward ([word] ++ next :: words) =
              [tracedWord forward word] ++ tracedWords forward (next :: words) := traced
          have below : k < (next :: words).length := Nat.lt_of_succ_lt_succ inside
          rw [Nat.add_comm k 1]
          exact WordTraced.later forward split rfl (Nat.succ_pos 0) reported (ih (i + 1) below)

end Words

namespace Frame

variable (frame : Frame)

def Indirect : Prop := frame.nroots &&& 1 ≠ 0

instance : Decidable frame.Indirect := inferInstanceAs (Decidable (_ ≠ _))

theorem slots_eq : frame.slots =
    if frame.Indirect then frame.words.map .simple else directSlots frame.rts 0 frame.words := rfl

/-- The frame after its slots have been traced. The words of an indirect frame are addresses of
root variables and stay as they are. -/
def traced (forward : Address → ObjectReference) : Frame where
  address := frame.address
  nroots := frame.nroots
  prev := frame.prev
  words := if frame.Indirect then frame.words else tracedWords forward frame.words
  count := by
    rw [← frame.count]
    split_ifs
    · rfl
    · exact tracedWords_length forward frame.words

def places : List Address :=
  (List.range (frame.words.length + 2)).map frame.field ++ if frame.Indirect then frame.words else []

theorem traced_length (forward : Address → ObjectReference) :
    (frame.traced forward).words.length = frame.words.length := by
  rw [traced]
  split_ifs
  · rfl
  · exact tracedWords_length forward frame.words

theorem traced_places (forward : Address → ObjectReference) :
    (frame.traced forward).places = frame.places := by
  rw [places, places, frame.traced_length]
  congr 1
  by_cases indirect : frame.Indirect
  · have still : (frame.traced forward).Indirect := indirect
    rw [if_pos still, if_pos indirect, traced]
    exact if_pos indirect
  · have still : ¬ (frame.traced forward).Indirect := indirect
    rw [if_neg still, if_neg indirect]

theorem traced_slots (forward : Address → ObjectReference) :
    (frame.traced forward).slots = frame.slots := by
  rw [slots_eq, slots_eq]
  by_cases indirect : frame.Indirect
  · have words : (frame.traced forward).words = frame.words := if_pos indirect
    have still : (frame.traced forward).Indirect := indirect
    rw [if_pos still, if_pos indirect, words]
  · have words : (frame.traced forward).words = tracedWords forward frame.words := if_neg indirect
    have still : ¬ (frame.traced forward).Indirect := indirect
    rw [if_neg still, if_neg indirect, words, directSlots_traced]
    rfl

theorem field_mem {k : Nat} (inside : k < frame.words.length + 2) : frame.field k ∈ frame.places :=
  List.mem_append_left _ (List.mem_map_of_mem (List.mem_range.mpr inside))

theorem slots_sublist : (frame.slots.map JuliaVMSlot.address).Sublist frame.places := by
  rw [slots_eq, places]
  by_cases indirect : frame.Indirect
  · have words : (frame.words.map JuliaVMSlot.simple).map JuliaVMSlot.address = frame.words := by
      rw [List.map_map]
      exact List.map_id frame.words
    rw [if_pos indirect, if_pos indirect, words]
    exact List.sublist_append_right _ _
  · have whole : (List.range (frame.words.length + 2)).map frame.field =
        frame.field 0 :: frame.field 1 ::
          (List.range' 0 frame.words.length).map (fun k => shift frame.rts (BitVec.ofNat 64 k)) := by
      rw [List.range_succ_eq_map, List.range_succ_eq_map, List.range_eq_range']
      simp only [List.map_cons, List.map_map]
      congr 2
      apply List.map_congr_left
      intro k _
      exact (wordAt_eq_field frame k).symm
    rw [if_neg indirect, if_neg indirect, List.append_nil, whole]
    exact ((directSlots_sublist frame.rts 0 frame.words).cons _).cons _

end Frame

/-- The frames lie beside one another, beside their root variables and beside the task. -/
structure Laid (window : Window) (ta : Address) (frames : List Frame) : Prop where
  apart : ((frames.flatMap Frame.places).map (getStackAddr window)).Pairwise Apart
  beside : ∀ place ∈ frames.flatMap Frame.places, ∀ byte,
    Memory.Within (getStackAddr window place) 8 byte → ¬ Memory.Within ta 224 byte

namespace Laid

variable {window : Window} {ta : Address} {frames : List Frame}

theorem slots_sublist (frames : List Frame) :
    ((frames.flatMap Frame.slots).map JuliaVMSlot.address).Sublist (frames.flatMap Frame.places) := by
  induction frames with
  | nil => exact List.Sublist.refl _
  | cons frame frames ih =>
      rw [List.flatMap_cons, List.flatMap_cons, List.map_append]
      exact frame.slots_sublist.append ih

theorem seen_address (window : Window) (slots : List JuliaVMSlot) :
    (seen window slots).map JuliaVMSlot.address =
      (slots.map JuliaVMSlot.address).map (getStackAddr window) := by
  rw [seen, List.map_map, List.map_map]
  apply List.map_congr_left
  intro slot _
  cases slot <;> rfl

variable (laid : Laid window ta frames)
include laid

theorem slots_apart : (seen window (frames.flatMap Frame.slots)).Pairwise
    (fun slot other => Apart slot.address other.address) := by
  apply List.pairwise_map.mp
  rw [seen_address]
  exact laid.apart.sublist ((slots_sublist frames).map _)

theorem own {frame : Frame} (member : frame ∈ frames) :
    (frame.places.map (getStackAddr window)).Pairwise Apart :=
  List.pairwise_map.mpr ((List.pairwise_flatMap.mp (List.pairwise_map.mp laid.apart)).1 frame member)

theorem fields_apart {frame : Frame} (member : frame ∈ frames) {j k : Nat}
    (first : j < frame.words.length + 2) (second : k < frame.words.length + 2) (distinct : j ≠ k) :
    Apart (getStackAddr window (frame.field j)) (getStackAddr window (frame.field k)) := by
  have places := laid.own member
  rw [Frame.places, List.map_append, List.map_map] at places
  have words := List.pairwise_map.mp (List.pairwise_append.mp places).1
  have symmetric : Std.Symm (fun j k : Nat => Apart ((getStackAddr window ∘ frame.field) j)
      ((getStackAddr window ∘ frame.field) k)) := ⟨fun _ _ => Apart.symm⟩
  exact words.forall (List.mem_range.mpr first) (List.mem_range.mpr second) distinct

theorem variables_apart {frame : Frame} (member : frame ∈ frames) (indirect : frame.Indirect) {word : Address}
    (present : word ∈ frame.words) {k : Nat} (inside : k < frame.words.length + 2) :
    Apart (getStackAddr window word) (getStackAddr window (frame.field k)) := by
  have places := laid.own member
  rw [Frame.places, List.map_append, if_pos indirect] at places
  have across := (List.pairwise_append.mp places).2.2
  apply Apart.symm
  apply across
  · rw [List.map_map]
    exact List.mem_map_of_mem (List.mem_range.mpr inside)
  · exact List.mem_map_of_mem present

theorem places_apart {frame other : Frame} (member : frame ∈ frames) (present : other ∈ frames)
    (distinct : frame ≠ other) {place_ next : Address} (mine : place_ ∈ frame.places)
    (theirs : next ∈ other.places) :
    Apart (getStackAddr window place_) (getStackAddr window next) := by
  have across := (List.pairwise_flatMap.mp (List.pairwise_map.mp laid.apart)).2
  have symmetric : Std.Symm (fun frame other : Frame => ∀ x ∈ frame.places, ∀ y ∈ other.places,
      Apart (getStackAddr window x) (getStackAddr window y)) :=
    ⟨fun _ _ apart x here y there => (apart y there x here).symm⟩
  exact across.forall member present distinct place_ mine next theirs

end Laid

section Traced

variable {window : Window} {ta : Address} {frames : List Frame} {memory after : Memory}
  {forward : Address → ObjectReference}

structure Rewritten (forward : Address → ObjectReference) (slots : List JuliaVMSlot)
    (memory after : Memory) : Prop where
  updated : ∀ slot ∈ slots,
    loadU64 after slot.address = .ok (slot.updated forward (wordAt memory slot.address))
  unchanged : ∀ address, (∀ slot ∈ slots, Apart slot.address address) →
    loadU64 after address = loadU64 memory address

theorem Frame.slot_place {frame : Frame} {slot : JuliaVMSlot} (member : slot ∈ frame.slots) :
    slot.address ∈ frame.places :=
  frame.slots_sublist.subset (List.mem_map_of_mem member)

theorem seen_member {slots : List JuliaVMSlot} {slot : JuliaVMSlot} (member : slot ∈ seen window slots) :
    ∃ original ∈ slots, slot = original.relocate (getStackAddr window) ∧
      slot.address = getStackAddr window original.address := by
  rcases List.mem_map.mp member with ⟨original, present, rfl⟩
  refine ⟨original, present, rfl, ?_⟩
  cases original <;> rfl

theorem updated_relocate (forward : Address → ObjectReference) (place_ : Address → Address)
    (slot : JuliaVMSlot) (word : Usize) :
    (slot.relocate place_).updated forward word = slot.updated forward word := by
  cases slot <;> rfl

theorem Laid.field_unchanged (laid : Laid window ta frames)
    (rewritten : Rewritten forward (seen window (frames.flatMap Frame.slots)) memory after)
    {frame : Frame} (member : frame ∈ frames) {k : Nat} (inside : k < frame.words.length + 2)
    (elsewhere : ∀ slot ∈ frame.slots,
      Apart (getStackAddr window slot.address) (getStackAddr window (frame.field k))) :
    readStack after window (frame.field k) = readStack memory window (frame.field k) := by
  apply rewritten.unchanged
  intro slot reported
  rcases seen_member reported with ⟨original, present, -, lies⟩
  rcases List.mem_flatMap.mp present with ⟨owner, listed, own⟩
  rw [lies]
  by_cases same : owner = frame
  · exact elsewhere original (same ▸ own)
  · exact laid.places_apart listed member same (Frame.slot_place own) (frame.field_mem inside)

theorem Laid.slot_beside (laid : Laid window ta frames) {frame : Frame} (member : frame ∈ frames)
    {k : Nat} (inside : k < frame.words.length + 2) (header : frame.Indirect ∨ k < 2) :
    ∀ slot ∈ frame.slots,
      Apart (getStackAddr window slot.address) (getStackAddr window (frame.field k)) := by
  intro slot listed
  by_cases indirect : frame.Indirect
  · rw [frame.slots_eq, if_pos indirect] at listed
    rcases List.mem_map.mp listed with ⟨word, present, rfl⟩
    exact laid.variables_apart member indirect present inside
  · have low := header.resolve_left indirect
    rw [frame.slots_eq, if_neg indirect] at listed
    rcases directSlots_index listed with ⟨j, below, lies⟩
    have place_ : slot.address = frame.field (j + 2) := by
      rw [lies, Nat.zero_add]
      exact wordAt_eq_field frame j
    rw [place_]
    exact laid.fields_apart member (by omega) inside (by omega)

theorem FrameAt.field_read {read : Address → Except Fault Usize} {frame : Frame}
    (at_ : FrameAt read frame) {i : Nat} (inside : i < frame.words.length) :
    read (frame.field (i + 2)) = .ok (frame.words[i]) := by
  rw [← wordAt_eq_field]
  exact at_.words ⟨i, inside⟩

theorem FrameAt.direct_word (laid : Laid window ta frames)
    (rewritten : Rewritten forward (seen window (frames.flatMap Frame.slots)) memory after)
    {frame : Frame} (member : frame ∈ frames) (direct : ¬ frame.Indirect)
    (at_ : FrameAt (readStack memory window) frame) {i : Nat} (inside : i < frame.words.length) :
    ∃ word, (tracedWords forward frame.words)[i]? = some word ∧
      readStack after window (frame.field (i + 2)) = .ok word := by
  have held := at_.field_read inside
  have present : frame.words[i]? = some frame.words[i] := List.getElem?_eq_getElem inside
  rcases wordTraced forward frame.rts 0 frame.words inside with ⟨slot, listed, lies, traced⟩ | ⟨kept, others⟩
  · have place_ : slot.address = frame.field (i + 2) := by
      rw [lies, Nat.zero_add]
      exact wordAt_eq_field frame i
    have reported : slot.relocate (getStackAddr window) ∈ seen window (frames.flatMap Frame.slots) := by
      apply List.mem_map_of_mem
      apply List.mem_flatMap.mpr
      refine ⟨frame, member, ?_⟩
      rw [frame.slots_eq, if_neg direct]
      exact listed
    have stored := rewritten.updated _ reported
    have address : (slot.relocate (getStackAddr window)).address =
        getStackAddr window (frame.field (i + 2)) := by
      rw [← place_]
      cases slot <;> rfl
    rw [address, wordAt_eq held, updated_relocate] at stored
    rw [traced, present]
    exact ⟨_, rfl, stored⟩
  · refine ⟨frame.words[i], kept.trans present, ?_⟩
    have still : readStack after window (frame.field (i + 2)) =
        readStack memory window (frame.field (i + 2)) := by
      apply laid.field_unchanged rewritten member (by omega)
      intro slot listed
      rw [frame.slots_eq, if_neg direct] at listed
      rcases others slot listed with ⟨j, below, different, lies⟩
      have place_ : slot.address = frame.field (j + 2) := by
        rw [lies, Nat.zero_add]
        exact wordAt_eq_field frame j
      rw [place_]
      exact laid.fields_apart member (by omega) (by omega) (by omega)
    exact still.trans held

theorem FrameAt.traced (laid : Laid window ta frames)
    (rewritten : Rewritten forward (seen window (frames.flatMap Frame.slots)) memory after)
    {frame : Frame} (member : frame ∈ frames) (at_ : FrameAt (readStack memory window) frame) :
    FrameAt (readStack after window) (frame.traced forward) := by
  have header : ∀ k, k < 2 →
      readStack after window (frame.field k) = readStack memory window (frame.field k) := by
    intro k low
    exact laid.field_unchanged rewritten member (by omega) (laid.slot_beside member (by omega) (.inr low))
  have first : frame.field 0 = frame.address := by simp [Frame.field, shift]
  have second : frame.field 1 = frame.address + 8 := by simp [Frame.field, shift]
  constructor
  · have kept := header 0 (by decide)
    rw [first] at kept
    exact kept.trans at_.nroots
  · have kept := header 1 (by decide)
    rw [second] at kept
    exact kept.trans at_.prev
  · intro i
    have inside : i.val < frame.words.length := (frame.traced_length forward) ▸ i.isLt
    have place_ : (frame.traced forward).wordAt i = frame.field (i.val + 2) := wordAt_eq_field frame i
    rw [place_]
    by_cases indirect : frame.Indirect
    · have words : (frame.traced forward).words = frame.words := if_pos indirect
      have same : (frame.traced forward).words[i] = frame.words[i.val] := by
        simp only [Fin.getElem_fin, words]
      rw [same, laid.field_unchanged rewritten member (by omega)
        (laid.slot_beside member (by omega) (.inl indirect))]
      exact at_.field_read inside
    · have words : (frame.traced forward).words = tracedWords forward frame.words := if_neg indirect
      rcases FrameAt.direct_word laid rewritten member indirect at_ inside with ⟨word, found, stored⟩
      have same : (frame.traced forward).words[i] = word := by
        rw [← words] at found
        exact Option.some.inj ((List.getElem?_eq_getElem i.isLt).symm.trans found)
      rw [same]
      exact stored

end Traced

section Collections

variable {runtime : Runtime} {fuel : Nat} {memory after last : Memory} {ta : Address} {task : TaskFields}
  {window : Window} {frames : List Frame} {forward : Address → ObjectReference}
  {forwards : List (Address → ObjectReference)}

theorem Chain.traced {read other : Address → Except Fault Usize} {s : Address}
    (each : ∀ frame ∈ frames, FrameAt read frame → FrameAt other (frame.traced forward))
    (chain : Chain read s frames) : Chain other s (frames.map (Frame.traced · forward)) := by
  induction frames generalizing s with
  | nil => exact chain.elim
  | cons frame frames ih =>
      rcases chain with ⟨address, at_, rest⟩
      refine ⟨address, each frame List.mem_cons_self at_, ?_⟩
      rcases rest with ⟨none, ended⟩ | ⟨more, chain⟩
      · exact .inl ⟨List.map_eq_nil_iff.mpr none, ended⟩
      · exact .inr ⟨more, ih (fun next member => each next (List.mem_cons_of_mem _ member)) chain⟩

theorem Chain.frames_at {read : Address → Except Fault Usize} {s : Address} (chain : Chain read s frames) :
    ∀ frame ∈ frames, FrameAt read frame := by
  induction frames generalizing s with
  | nil => exact List.forall_mem_nil _
  | cons frame frames ih =>
      rcases chain with ⟨-, at_, rest⟩
      intro next member
      rcases List.mem_cons.mp member with rfl | member
      · exact at_
      · rcases rest with ⟨rfl, -⟩ | ⟨-, chain⟩
        · cases member
        · exact ih chain next member

/-- Everything that the scan reads of a task lies in its first 224 bytes. -/
theorem TaskAt.beside (at_ : TaskAt memory ta task)
    (same : ∀ byte, Memory.Within ta 224 byte → after byte = memory byte) : TaskAt after ta task := by
  have reads : ∀ (offset : Address) (count : Nat), offset.toNat + count ≤ 224 →
      loadBytes after (ta + offset) count = loadBytes memory (ta + offset) count := by
    intro offset count inner
    have loads : after.load (ta + offset) count = memory.load (ta + offset) count := by
      apply Memory.load_congr
      intro i below
      apply same
      have inside : offset.toNat + i < 224 := by omega
      rw [BitVec.add_assoc, Memory.within_add, Memory.add_ofNat_toNat inside (by decide)]
      exact inside
    rw [loadBytes, loadBytes, loads]
  exact ⟨(reads 200 8 (by decide)).trans at_.stkbuf, (reads 216 4 (by decide)).trans at_.copyStack,
    (reads 168 8 (by decide)).trans at_.ptls, (reads 144 2 (by decide)).trans at_.tid,
    (reads 152 8 (by decide)).trans at_.gcstack, (reads 176 8 (by decide)).trans at_.excstack⟩

theorem TaskAt.stackWindow_same (at_ : TaskAt memory ta task) (still : TaskAt after ta task) :
    stackWindow runtime after ta = stackWindow runtime memory ta := by
  simp only [stackWindow, at_.stkbuf, at_.copyStack, at_.ptls, at_.tid, still.stkbuf, still.copyStack,
    still.ptls, still.tid]

/-- A task with its shadow stack, laid out in memory. -/
structure Standing (runtime : Runtime) (memory : Memory) (ta : Address) (task : TaskFields)
    (window : Window) (frames : List Frame) : Prop where
  fields : TaskAt memory ta task
  through : stackWindow runtime memory ta = .ok window
  hangs : Hangs (readStack memory window) task.gcstack frames
  laid : Laid window ta frames
  mapped : ∀ slot ∈ seen window (frames.flatMap Frame.slots),
    ∃ word, loadU64 memory slot.address = .ok word

theorem traced_slots (frames : List Frame) (forward : Address → ObjectReference) :
    (frames.map (Frame.traced · forward)).flatMap Frame.slots = frames.flatMap Frame.slots := by
  rw [List.flatMap_map]
  exact congrArg frames.flatMap (funext (fun frame => frame.traced_slots forward))

namespace Standing

variable (standing : Standing runtime memory ta task window frames)
include standing

theorem frames_at : ∀ frame ∈ frames, FrameAt (readStack memory window) frame := by
  rcases standing.hangs with ⟨-, rfl⟩ | ⟨-, chain⟩
  · exact List.forall_mem_nil _
  · exact chain.frames_at

theorem scan_eq (enough : frames.length ≤ fuel) :
    scanShadowStack runtime memory fuel ta = .ok (seen window (frames.flatMap Frame.slots)) :=
  standing.fields.scanShadowStack_eq standing.through standing.hangs enough

theorem collect (forward : Address → ObjectReference) {order : List JuliaVMSlot}
    (same : order.Perm (seen window (frames.flatMap Frame.slots))) :
    ∃ after, traceSlots forward order memory = .ok after ∧
      Rewritten forward (seen window (frames.flatMap Frame.slots)) memory after.memory ∧
      Standing runtime after.memory ta task window (frames.map (Frame.traced · forward)) := by
  have laid := standing.laid
  have reads : ∀ slot ∈ seen window (frames.flatMap Frame.slots),
      loadU64 memory slot.address = .ok (wordAt memory slot.address) := by
    intro slot member
    rcases standing.mapped slot member with ⟨word, held⟩
    rw [wordAt_eq held]
    exact held
  rcases traceSlots_any_order forward same laid.slots_apart reads with
    ⟨after, ran, -, updated, unchanged⟩
  have rewritten : Rewritten forward (seen window (frames.flatMap Frame.slots)) memory after.memory :=
    ⟨updated, unchanged⟩
  have places : (frames.map (Frame.traced · forward)).flatMap Frame.places =
      frames.flatMap Frame.places := by
    rw [List.flatMap_map]
    exact congrArg frames.flatMap (funext (fun frame => frame.traced_places forward))
  have kept : TaskAt after.memory ta task := by
    apply standing.fields.beside
    intro byte inside
    apply traceSlots_bytes ran
    intro slot member here
    rcases seen_member (same.mem_iff.mp member) with ⟨original, present, -, lies⟩
    have listed := (Laid.slots_sublist frames).subset (List.mem_map_of_mem present)
    rw [lies] at here
    exact laid.beside original.address listed byte here inside
  have each := standing.frames_at
  refine ⟨after, ran, rewritten, kept, ?_, ?_, ?_, ?_⟩
  · rw [standing.fields.stackWindow_same kept]
    exact standing.through
  · rcases standing.hangs with ⟨none, empty⟩ | ⟨some, chain⟩
    · exact .inl ⟨none, List.map_eq_nil_iff.mpr empty⟩
    · exact .inr ⟨some, chain.traced (fun frame member => FrameAt.traced laid rewritten member)⟩
  · constructor
    · rw [places]
      exact laid.apart
    · rw [places]
      exact laid.beside
  · rw [traced_slots]
    intro slot member
    exact ⟨_, updated slot member⟩

end Standing

/-- The memory after some collections, each of which scans the stack of the task and traces the
slots in an order of its own. -/
inductive StackCollected (runtime : Runtime) (fuel : Nat) (ta : Address) :
    Memory → List (Address → ObjectReference) → Memory → Prop
  | none (memory : Memory) : StackCollected runtime fuel ta memory [] memory
  | collect {memory last : Memory} {slots order : List JuliaVMSlot} {after : Tracing}
      {forward : Address → ObjectReference} {forwards : List (Address → ObjectReference)}
      (scanned : scanShadowStack runtime memory fuel ta = .ok slots) (same : order.Perm slots)
      (traced : traceSlots forward order memory = .ok after)
      (rest : StackCollected runtime fuel ta after.memory forwards last) :
      StackCollected runtime fuel ta memory (forward :: forwards) last

def JuliaVMSlot.updatedBy (slot : JuliaVMSlot) (forwards : List (Address → ObjectReference))
    (word : Usize) : Usize :=
  forwards.foldl (fun word forward => slot.updated forward word) word

/-- Over any number of collections, whatever their forwarding and the orders of their slots, the
frames keep hanging together with the same slots, each root word is forwarded by every collection
with its tag kept, what is skipped stays as it is, and the next collection cannot fail. -/
theorem stack_survives_collections (standing : Standing runtime memory ta task window frames)
    (enough : frames.length ≤ fuel) (collected : StackCollected runtime fuel ta memory forwards last) :
    Hangs (readStack last window) task.gcstack (frames.map (forwards.foldl Frame.traced)) ∧
      scanShadowStack runtime last fuel ta = .ok (seen window (frames.flatMap Frame.slots)) ∧
      (∀ slot ∈ seen window (frames.flatMap Frame.slots), loadU64 last slot.address =
        .ok (slot.updatedBy forwards (wordAt memory slot.address))) ∧
      ∀ forward order, order.Perm (seen window (frames.flatMap Frame.slots)) →
        ∃ after, traceSlots forward order last = .ok after := by
  induction collected generalizing frames with
  | none memory =>
      have still : frames.map ([].foldl Frame.traced) = frames := List.map_id frames
      rw [still]
      refine ⟨standing.hangs, standing.scan_eq enough, ?_, ?_⟩
      · intro slot member
        rcases standing.mapped slot member with ⟨word, held⟩
        rw [wordAt_eq held]
        exact held
      · intro forward order same
        rcases standing.collect forward same with ⟨after, ran, -⟩
        exact ⟨after, ran⟩
  | @collect memory last slots order after forward forwards scanned same traced rest ih =>
      have reported : slots = _ := Except.ok.inj (scanned.symm.trans (standing.scan_eq enough))
      rw [reported] at same
      rcases standing.collect forward same with ⟨again, ran, rewritten, next⟩
      have outcome : again = after := Except.ok.inj (ran.symm.trans traced)
      rw [outcome] at rewritten next
      have later := ih next (by rw [List.length_map]; exact enough)
      rw [traced_slots, List.map_map] at later
      refine ⟨later.1, later.2.1, ?_, later.2.2.2⟩
      intro slot member
      have word := later.2.2.1 slot member
      rw [wordAt_eq (rewritten.updated slot member)] at word
      exact word

end Collections

/-- The running task of the sample stack with its two root variables. -/
def rootedStack : Memory := .ofWords [
  (0x70a8, 0x900), (0x7090, 3), (0x7098, 0x9fb0), (0x70b0, 0), (0x70c8, 0xb000), (0x70d8, 80),
  (0x9fb0, 20), (0x9fb8, 0xc000), (0x9fc0, 0x1230), (0x9fc8, 0x5001), (0x9fd0, 0x1240),
  (0x9fd8, 0x5003), (0x9fe0, 0x1250), (0xc000, 9), (0xc008, 0), (0xc010, 0x9ff0), (0xc018, 0xd000),
  (0x9ff0, 0), (0xd000, 0x1260)]

theorem rootedStack_standing : Standing sampleRuntime rootedStack 0x7000 (sampleTask 0x900) .whole
    [directFrame, indirectFrame] where
  fields := by
    constructor <;> decide +kernel
  through := by decide +kernel
  hangs := by
    have first : FrameAt (readStack rootedStack .whole) directFrame := by
      constructor <;> decide +kernel
    have second : FrameAt (readStack rootedStack .whole) indirectFrame := by
      constructor <;> decide +kernel
    exact .inr ⟨by decide, rfl, first, .inr ⟨by decide, rfl, second, .inl ⟨rfl, rfl⟩⟩⟩
  laid := by
    constructor
    · decide +kernel
    · have places : [directFrame, indirectFrame].flatMap Frame.places =
          [0x9fb0, 0x9fb8, 0x9fc0, 0x9fc8, 0x9fd0, 0x9fd8, 0x9fe0, 0xc000, 0xc008, 0xc010, 0xc018,
            0x9ff0, 0xd000] := by
        decide +kernel
      intro place_ member byte inside there
      rw [places] at member
      simp only [List.mem_cons, List.not_mem_nil, or_false] at member
      have apart : 0x9000 ≤ place_.toNat ∧ place_.toNat ≤ 0xe000 := by bv_omega
      rw [getStackAddr_whole, id, Memory.Within] at inside
      rw [Memory.Within] at there
      bv_omega
  mapped := by
    have held : ∀ slot ∈ seen .whole ([directFrame, indirectFrame].flatMap Frame.slots),
        loadU64 rootedStack slot.address = .ok (wordAt rootedStack slot.address) := by decide +kernel
    intro slot member
    exact ⟨_, held slot member⟩

def climb (object : Address) : ObjectReference :=
  if fits : object + 0x100000 ≠ 0 ∧ (object + 0x100000) &&& 7 = 0 then ⟨_, fits.1, fits.2⟩
  else ⟨8, by decide, by decide⟩

/-- Two collections, the second with the slots in the opposite order. -/
theorem stack_survives_collections_twice :
    ∃ last, StackCollected sampleRuntime 2 0x7000 rootedStack [climb, climb] last ∧
      loadU64 last 0x9fc0 = .ok 0x201230 ∧ loadU64 last 0x9fc8 = .ok 0x205001 ∧
      loadU64 last 0x9ff0 = .ok 0 ∧ loadU64 last 0xd000 = .ok 0x201260 := by
  have start : StackCollected sampleRuntime 2 0x7000 rootedStack [] rootedStack := .none _
  obtain ⟨-, scanned, -, ready⟩ := stack_survives_collections rootedStack_standing (Nat.le_refl 2) start
  rcases ready climb _ (List.Perm.refl _) with ⟨first, traced⟩
  have once : StackCollected sampleRuntime 2 0x7000 rootedStack [climb] first.memory :=
    .collect scanned (List.Perm.refl _) traced (.none _)
  obtain ⟨-, rescanned, -, again⟩ := stack_survives_collections rootedStack_standing (Nat.le_refl 2) once
  rcases again climb _ (List.reverse_perm _) with ⟨second, retraced⟩
  have twice : StackCollected sampleRuntime 2 0x7000 rootedStack [climb, climb] second.memory :=
    .collect scanned (List.Perm.refl _) traced
      (.collect rescanned (List.reverse_perm _) retraced (.none _))
  obtain ⟨-, -, words, -⟩ := stack_survives_collections rootedStack_standing (Nat.le_refl 2) twice
  have word : ∀ slot ∈ [JuliaVMSlot.simple 0x9fc0, .offset 0x9fc8 1, .simple 0x9ff0, .simple 0xd000],
      loadU64 second.memory slot.address =
        .ok (slot.updatedBy [climb, climb] (wordAt rootedStack slot.address)) := words
  refine ⟨second.memory, twice, ?_, ?_, ?_, ?_⟩
  · refine (word (.simple 0x9fc0) (by decide)).trans ?_
    decide +kernel
  · refine (word (.offset 0x9fc8 1) (by decide)).trans ?_
    decide +kernel
  · refine (word (.simple 0x9ff0) (by decide)).trans ?_
    decide +kernel
  · refine (word (.simple 0xd000) (by decide)).trans ?_
    decide +kernel

end MmtkJulia.Scanning
