import MmtkJulia.HeapObjects

/-! What a copy preserves: all that was mapped before, and the words of the object it moves. -/

namespace MmtkJulia.Scanning

section Kept

variable {runtime : Runtime} {memory other : Memory}

/-- A read that succeeds in the one memory yields the same in the other. -/
abbrev Kept {Value : Type} (read : Memory → Except Fault Value) (memory other : Memory) : Prop :=
  Carries (· = ·) (read memory) (read other)

theorem loadBytes_kept (kept : memory.Extends other) (address : Address) (count : Nat) :
    Kept (loadBytes · address count) memory other := by
  intro value ran
  refine ⟨value, ?_, rfl⟩
  change loadBytes memory address count = .ok value at ran
  rw [loadBytes] at ran
  cases loaded : memory.load address count with
  | none =>
      rw [loaded] at ran
      cases ran
  | some found =>
      rw [loaded] at ran
      change loadBytes other address count = .ok value
      rw [loadBytes, kept.load loaded]
      exact ran

theorem load_of_loadU64 {memory : Memory} {address : Address} {word : Usize}
    (loaded : loadU64 memory address = .ok word) : memory.load address 8 = some word := by
  rw [loadU64, loadBytes] at loaded
  cases found : memory.load address 8 with
  | none =>
      rw [found] at loaded
      cases loaded
  | some value =>
      rw [found] at loaded
      exact congrArg some (Except.ok.inj loaded)

theorem loadU64_kept (kept : memory.Extends other) (address : Address) :
    Kept (loadU64 · address) memory other := loadBytes_kept kept address 8

theorem typetagof_kept (kept : memory.Extends other) (address : Address) :
    Kept (mmtkJlTypetagof · address) memory other := by
  apply (loadU64_kept kept (address - 8)).bind_same
  intro header _
  exact .same _

theorem smalltag_kept (kept : memory.Extends other) (vt : Address) :
    Kept (smalltag · vt) memory other := by
  apply Carries.bind_same (loadBytes_kept kept (vt + 52) 2)
  intro flags _
  exact .same _

theorem checkDatatype_kept (kept : memory.Extends other) (vtag : Usize) :
    Kept (checkDatatype · vtag) memory other := by
  apply (typetagof_kept kept vtag).bind_same
  intro tag _
  apply Carries.ite
  · intro corrupt
    exact .error _
  · intro sound
    exact (smalltag_kept kept vtag).bind_same (fun _ _ => .same _)

theorem loadDescriptor_kept (kept : memory.Extends other) (layout : Layout) (desc : Address) :
    Kept (layout.loadDescriptor · desc) memory other := by
  apply Carries.ite
  · intro obj8
    apply Carries.bind_same (loadBytes_kept kept desc 1)
    intro pointer _
    exact .same _
  · intro wider
    apply Carries.ite
    · intro obj16
      apply Carries.bind_same (loadBytes_kept kept desc 2)
      intro pointer _
      exact .same _
    · intro obj32
      apply Carries.bind_same (loadBytes_kept kept desc 4)
      intro pointer _
      exact .same _

theorem TableAt.kept {read other : Address → Except Fault Usize} {width address : Address}
    {pointers : List Usize} (each : ∀ desc, Carries (· = ·) (read desc) (other desc))
    (stored : TableAt read width address pointers) : TableAt other width address pointers := by
  induction pointers generalizing address with
  | nil => trivial
  | cons pointer pointers ih => exact ⟨(each address).returns stored.1, ih stored.2⟩

theorem LayoutAt.kept {address : Address} {layout : Layout} (kept : memory.Extends other)
    (at_ : LayoutAt memory address layout) : LayoutAt other address layout where
  size := (loadBytes_kept kept address 4).returns at_.size
  nfields := (loadBytes_kept kept (address + 4) 4).returns at_.nfields
  npointers := (loadBytes_kept kept (address + 8) 4).returns at_.npointers
  firstPtr := (loadBytes_kept kept (address + 12) 4).returns at_.firstPtr
  flags := (loadBytes_kept kept (address + 18) 2).returns at_.flags
  table := at_.table.kept (loadDescriptor_kept kept layout)
  fits := at_.fits

theorem readStack_kept (kept : memory.Extends other) (window : Window) (address : Address) :
    Kept (readStack · window address) memory other := loadU64_kept kept _

theorem FrameAt.kept {window : Window} {frame : Frame} (kept : memory.Extends other)
    (at_ : FrameAt (readStack memory window) frame) : FrameAt (readStack other window) frame where
  nroots := (readStack_kept kept window _).returns at_.nroots
  prev := (readStack_kept kept window _).returns at_.prev
  words := fun i => (readStack_kept kept window _).returns (at_.words i)

theorem Hangs.kept {window : Window} {gcstack : Address} {frames : List Frame}
    (kept : memory.Extends other) (hangs : Hangs (readStack memory window) gcstack frames) :
    Hangs (readStack other window) gcstack frames := by
  rcases hangs with none | ⟨some, chain⟩
  · exact .inl none
  · exact .inr ⟨some, chain.transfer (fun _ _ => FrameAt.kept kept)⟩

end Kept

/-- The object is found in the other memory up to a limit behind its header. -/
structure Copied (memory other : Memory) (source target : Address) (limit : Nat) : Prop where
  kept : memory.Extends other
  header : loadU64 other (target - 8) = loadU64 memory (source - 8)
  same : ∀ (offset : Address) (count : Nat), offset.toNat + count ≤ limit →
    other.load (target + offset) count = memory.load (source + offset) count

namespace Copied

variable {runtime : Runtime} {memory other : Memory} {source target : Address} {limit : Nat}

theorem weaken {less : Nat} (copied : Copied memory other source target limit) (shorter : less ≤ limit) :
    Copied memory other source target less :=
  ⟨copied.kept, copied.header, fun offset count inner => copied.same offset count (le_trans inner shorter)⟩

theorem loadBytes_eq (copied : Copied memory other source target limit) (offset : Address)
    (count : Nat) (inner : offset.toNat + count ≤ limit) :
    loadBytes other (target + offset) count = loadBytes memory (source + offset) count := by
  rw [loadBytes, loadBytes, copied.same offset count inner]

theorem loadU64_eq (copied : Copied memory other source target limit) (offset : Address)
    (inner : offset.toNat + 8 ≤ limit) :
    loadU64 other (target + offset) = loadU64 memory (source + offset) :=
  copied.loadBytes_eq offset 8 inner

theorem loadU64_zero (copied : Copied memory other source target limit) (inner : 8 ≤ limit) :
    loadU64 other target = loadU64 memory source := by
  have first := copied.loadU64_eq 0 (by simpa using inner)
  simpa using first

theorem typetagof_eq (copied : Copied memory other source target limit) :
    mmtkJlTypetagof other target = mmtkJlTypetagof memory source := by
  rw [mmtkJlTypetagof, mmtkJlTypetagof, copied.header]

theorem datatypeAt {vtag : Usize} {vt name : Address}
    (copied : Copied memory other source target limit)
    (at_ : DatatypeAt runtime memory source vtag vt name) :
    DatatypeAt runtime other target vtag vt name where
  tag := copied.typetagof_eq.trans at_.tag
  symbol := at_.symbol
  buffer := at_.buffer
  datatype := by
    rcases at_.datatype with struct | ⟨large, same, checked⟩
    · exact .inl struct
    · exact .inr ⟨large, same, (checkDatatype_kept copied.kept vtag).returns checked⟩
  name := (loadU64_kept copied.kept vt).returns at_.name

theorem taskAt {task : TaskFields} (copied : Copied memory other source target limit)
    (whole : 224 ≤ limit) (at_ : TaskAt memory source task) : TaskAt other target task where
  stkbuf := (copied.loadU64_eq 200 (le_trans (by decide) whole)).trans at_.stkbuf
  copyStack := (copied.loadBytes_eq 216 4 (le_trans (by decide) whole)).trans at_.copyStack
  ptls := (copied.loadU64_eq 168 (le_trans (by decide) whole)).trans at_.ptls
  tid := (copied.loadBytes_eq 144 2 (le_trans (by decide) whole)).trans at_.tid
  gcstack := (copied.loadU64_eq 152 (le_trans (by decide) whole)).trans at_.gcstack
  excstack := (copied.loadU64_eq 176 (le_trans (by decide) whole)).trans at_.excstack

end Copied

/-! The two outcomes of copy. -/

/-- alloc_copy returns a region that nothing uses, in the lower half of the address space. -/
structure Fresh (memory : Memory) (source dst : Address) (bytes : Nat) : Prop where
  unmapped : ∀ address, Memory.Within dst bytes address → memory address = none
  apart : ∀ address, Memory.Within dst bytes address → ¬ Inside source bytes address
  fits : (source - 8).toNat + bytes ≤ 2 ^ 63
  room : dst.toNat + bytes ≤ 2 ^ 63

section Outcome

variable {runtime : Runtime} {memory other : Memory} {source dst target : Address} {bytes : Usize}

theorem copy_eq (size : getSoObjectSize runtime memory source = .ok bytes)
    (ran : copy runtime memory source dst = .ok (other, target)) :
    target = dst + 8 ∧ ∃ vt name,
      mmtkJlTypeof runtime (memory.copyNonoverlapping (source - 8) dst bytes.toNat) source = .ok vt ∧
      datatypeName (memory.copyNonoverlapping (source - 8) dst bytes.toNat) vt = .ok name ∧
      other = if name = runtime.genericmemoryTypename then
          runtime.updateInlinedArray (memory.copyNonoverlapping (source - 8) dst bytes.toNat) source target
        else memory.copyNonoverlapping (source - 8) dst bytes.toNat := by
  rw [copy] at ran
  rcases bind_ok ran with ⟨found, sized, ran⟩
  have same : found = bytes := Except.ok.inj (sized.symm.trans size)
  rw [same] at ran
  rcases bind_ok ran with ⟨start, -, ran⟩
  by_cases regular : source - start = 8
  · have begin_ : start = source - 8 := by
      rw [← regular]
      bv_omega
    simp only [if_pos regular] at ran
    rw [regular, begin_] at ran
    rcases bind_ok ran with ⟨vt, typed, ran⟩
    rcases bind_ok ran with ⟨name, named, ran⟩
    by_cases array : name = runtime.genericmemoryTypename
    · rw [if_pos array] at ran
      cases ran
      exact ⟨rfl, vt, name, typed, named, (if_pos array).symm⟩
    · rw [if_neg array] at ran
      cases ran
      exact ⟨rfl, vt, name, typed, named, (if_neg array).symm⟩
  · simp only [if_neg regular] at ran
    cases ran

theorem copyNonoverlapping_copied (fresh : Fresh memory source dst bytes.toNat)
    (header : 8 ≤ bytes.toNat) :
    Copied memory (memory.copyNonoverlapping (source - 8) dst bytes.toNat) source (dst + 8)
      (bytes.toNat - 8) := by
  have fits : bytes.toNat ≤ 2 ^ 64 := Nat.le_of_lt bytes.isLt
  refine ⟨Memory.copy_extends fresh.unmapped, ?_, ?_⟩
  · have first : (memory.copyNonoverlapping (source - 8) dst bytes.toNat).load (dst + 0) 8 =
        memory.load (source - 8 + 0) 8 := Memory.load_copy (by simpa using header) fits
    have back : dst + 8 - 8 = dst + 0 := by bv_omega
    have stay : source - 8 + 0 = source - 8 := BitVec.add_zero _
    rw [loadU64, loadU64, loadBytes, loadBytes, back, first, stay]
  · intro offset count inner
    have sum : (8 + offset).toNat = 8 + offset.toNat := by
      rw [BitVec.toNat_add, eight_toNat]
      omega
    have from_ : source + offset = source - 8 + (8 + offset) := by
      rw [← BitVec.add_assoc, BitVec.sub_add_cancel]
    rw [BitVec.add_assoc, from_]
    exact Memory.load_copy (by omega) fits

theorem Copied.store {copied : Memory} {limit : Nat} {value : BitVec (8 * 8)}
    (whole : Copied memory copied source target limit) (first : 8 ≤ limit)
    (unmapped : ∀ byte, Memory.Within (target + 8) 8 byte → memory byte = none) :
    Copied memory (copied.store (target + 8) value) source target 8 := by
  refine ⟨?_, ?_, ?_⟩
  · intro address byte mapped
    rw [Memory.store_outside]
    · exact whole.kept address byte mapped
    · intro inside
      rw [unmapped address inside] at mapped
      cases mapped
  · have untouched : (copied.store (target + 8) value).load (target - 8) 8 =
        copied.load (target - 8) 8 := by
      apply Memory.load_store_outside
      intro i below
      rw [Memory.Within]
      bv_omega
    rw [← whole.header, loadU64, loadU64, loadBytes, loadBytes, untouched]
  · intro offset count inner
    rw [← whole.same offset count (le_trans inner first)]
    apply Memory.load_store_outside
    intro i below
    rw [Memory.Within]
    bv_omega

end Outcome

end MmtkJulia.Scanning
