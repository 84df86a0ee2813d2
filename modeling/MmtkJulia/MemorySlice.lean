import MmtkJulia.Overlap
import MmtkJulia.Layouts

/-! The memory slices of slots.rs: their slots, and the copy that the write barrier of
mmtk_memory_region_copy surrounds. -/

namespace MmtkJulia.Scanning

structure JuliaMemorySlice where
  owner : ObjectReference
  start : Address
  count : Usize
  deriving DecidableEq, Repr

structure JuliaMemorySliceSlotIterator where
  cursor : Address
  limit : Address
  deriving DecidableEq, Repr

def JuliaMemorySliceSlotIterator.next (iterator : JuliaMemorySliceSlotIterator) :
    Option (JuliaVMSlot × JuliaMemorySliceSlotIterator) :=
  if iterator.cursor ≥ iterator.limit then none
  else some (.simple iterator.cursor, { iterator with cursor := shift iterator.cursor 1 })

def JuliaMemorySliceSlotIterator.drain : Nat → JuliaMemorySliceSlotIterator → Scan
  | 0, _ => .error .stuck
  | fuel + 1, iterator =>
      match iterator.next with
      | none => .ok []
      | some (slot, rest) => do
          let slots ← drain fuel rest
          return slot :: slots

structure Copying where
  memory : Memory
  written : List Address

def copyWord (srcAddr tgtAddr : Address) (progress : Copying) (i : Nat) : Except Fault Copying := do
  let val ← loadU64 progress.memory (shift srcAddr (BitVec.ofNat 64 i))
  return {
    memory := @Memory.store progress.memory (shift tgtAddr (BitVec.ofNat 64 i)) 8 val
    written := progress.written ++ [shift tgtAddr (BitVec.ofNat 64 i)] }

namespace JuliaMemorySlice

def iterSlots (slice : JuliaMemorySlice) : JuliaMemorySliceSlotIterator where
  cursor := slice.start
  limit := shift slice.start slice.count

def bytes (slice : JuliaMemorySlice) : Usize := slice.count <<< 3

def copy (memory : Memory) (src tgt : JuliaMemorySlice) : Except Fault Copying :=
  let n := (tgt.bytes >>> 3).toNat
  if tgt.start < src.start ∨ tgt.start > src.start + tgt.bytes then
    (List.range n).foldlM (copyWord src.start tgt.start) ⟨memory, []⟩
  else
    (List.range n).foldlM (fun progress i => copyWord src.start tgt.start progress (n - i - 1))
      ⟨memory, []⟩

def addresses (slice : JuliaMemorySlice) : List Address :=
  (List.range slice.count.toNat).map (fun i => shift slice.start (BitVec.ofNat 64 i))

/-- The end of the slice is an address. -/
def Representable (slice : JuliaMemorySlice) : Prop :=
  slice.start.toNat + 8 * slice.count.toNat < 2 ^ 64
  deriving Decidable

end JuliaMemorySlice

theorem shift_ofNat (address : Address) (i : Nat) :
    shift address (BitVec.ofNat 64 i) = address + BitVec.ofNat 64 (8 * i) := by
  rw [shift, BitVec.ofNat_mul]
  rfl

section Drain

theorem drain_eq_walk (fuel : Nat) (cursor limit : Address) :
    JuliaMemorySliceSlotIterator.drain fuel ⟨cursor, limit⟩ =
      walk .stuck processSlot limit 8 fuel cursor := by
  induction fuel generalizing cursor with
  | zero => rfl
  | succ fuel ih =>
      have step : shift cursor 1 = cursor + 8 := rfl
      by_cases more : cursor < limit
      · have next : JuliaMemorySliceSlotIterator.next ⟨cursor, limit⟩ =
            some (.simple cursor, ⟨cursor + 8, limit⟩) := by
          rw [JuliaMemorySliceSlotIterator.next, if_neg (BitVec.not_le.mpr more), step]
        rw [JuliaMemorySliceSlotIterator.drain, next, walk, if_pos more]
        simp only [ih, processSlot]
        rfl
      · have ended : JuliaMemorySliceSlotIterator.next ⟨cursor, limit⟩ = none := by
          rw [JuliaMemorySliceSlotIterator.next, if_pos (BitVec.not_lt.mp more)]
        rw [JuliaMemorySliceSlotIterator.drain, ended, walk, if_neg more]
        rfl

theorem drain_iterSlots {slice : JuliaMemorySlice} (representable : slice.Representable) (fuel : Nat)
    (enough : slice.count.toNat < fuel) :
    slice.iterSlots.drain fuel = .ok (slice.addresses.map .simple) := by
  have extent : (shift slice.start slice.count).toNat =
      slice.start.toNat + slice.count.toNat * (8 : Address).toNat := by
    rw [shift_toNat representable, eight_toNat]
    omega
  have stops : stopsOf 8 slice.count.toNat slice.start = slice.addresses := by
    rw [stopsOf_eq_map, JuliaMemorySlice.addresses]
    apply List.map_congr_left
    intro i _
    rw [shift, BitVec.mul_comm]
  have representable : slice.start.toNat + 8 * slice.count.toNat < 2 ^ 64 := representable
  calc
    slice.iterSlots.drain fuel =
        walk .stuck processSlot (shift slice.start slice.count) 8 fuel slice.start :=
      drain_eq_walk fuel slice.start (shift slice.start slice.count)
    _ = collect processSlot (stopsOf 8 slice.count.toNat slice.start) := by
      apply walk_eq_collect slice.count.toNat fuel slice.start enough
      · omega
      · intro i below
        rw [extent, eight_toNat]
        omega
      · omega
    _ = .ok (slice.addresses.map .simple) := by
      have yielded : collect processSlot slice.addresses =
          .ok (slice.addresses.flatMap (fun slot => [.simple slot])) := collect_ok (fun _ _ => rfl)
      rw [stops, yielded, ← List.map_eq_flatMap]

theorem addresses_increase {slice : JuliaMemorySlice} (representable : slice.Representable) :
    slice.addresses.Pairwise (fun first second => first.toNat < second.toNat) := by
  have representable : slice.start.toNat + 8 * slice.count.toNat < 2 ^ 64 := representable
  rw [JuliaMemorySlice.addresses, List.pairwise_map]
  apply List.Pairwise.imp_of_mem _ (List.pairwise_lt_range)
  intro i j first second ordered
  have small := List.mem_range.mp first
  have below := List.mem_range.mp second
  rw [shift_ofNat, shift_ofNat, BitVec.toNat_add, BitVec.toNat_add, BitVec.toNat_ofNat,
    BitVec.toNat_ofNat]
  omega

end Drain

section Copy

variable {memory : Memory} {srcAddr tgtAddr : Address}

theorem copyWord_eq {progress : Copying} {i : Nat} {word : Usize}
    (loaded : progress.memory.load (srcAddr + BitVec.ofNat 64 (8 * i)) 8 = some word) :
    copyWord srcAddr tgtAddr progress i = .ok {
      memory := @Memory.store progress.memory (tgtAddr + BitVec.ofNat 64 (8 * i)) 8 word
      written := progress.written ++ [tgtAddr + BitVec.ofNat 64 (8 * i)] } := by
  rw [copyWord, shift_ofNat, shift_ofNat, loadU64, loadBytes, loaded]
  rfl

/-- The copy from the first word on, by induction on the words moved: the source words that are
still to be read lie outside of the target words already written. -/
theorem copy_forward (n : Nat) (tgtFits : tgtAddr.toNat + 8 * n < 2 ^ 64)
    (srcFits : srcAddr.toNat + 8 * n < 2 ^ 64)
    (direction : tgtAddr.toNat < srcAddr.toNat ∨ srcAddr.toNat + 8 * n < tgtAddr.toNat)
    (mapped : ∀ i, i < n → ∃ word, memory.load (srcAddr + BitVec.ofNat 64 (8 * i)) 8 = some word) :
    (List.range n).foldlM (copyWord srcAddr tgtAddr) ⟨memory, []⟩ = .ok {
      memory := memory.copyNonoverlapping srcAddr tgtAddr (8 * n)
      written := (List.range n).map (fun i => tgtAddr + BitVec.ofNat 64 (8 * i)) } := by
  induction n with
  | zero => simp [Memory.copy_nothing, pure, Except.pure]
  | succ n ih =>
      have before := ih (by omega) (by omega) (by omega) (fun i below => mapped i (by omega))
      rcases mapped n (by omega) with ⟨word, loaded⟩
      have beside : ∀ i, i < 8 →
          ¬ Memory.Within tgtAddr (8 * n) (srcAddr + BitVec.ofNat 64 (8 * n) + BitVec.ofNat 64 i) := by
        intro i below inside
        rw [Memory.Within] at inside
        bv_omega
      have here := Memory.load_beside memory srcAddr beside
      have moved := Memory.store_above tgtAddr (by omega) loaded
      rw [List.range_succ, List.foldlM_append, before]
      simp only [List.foldlM_cons, List.foldlM_nil, bind, Except.bind]
      rw [copyWord_eq (here.trans loaded)]
      simp only [moved, List.map_append]
      rfl

theorem copy_backward (n k : Nat) (few : k ≤ n) (tgtFits : tgtAddr.toNat + 8 * n < 2 ^ 64)
    (direction : srcAddr.toNat ≤ tgtAddr.toNat)
    (mapped : ∀ i, i < n → ∃ word, memory.load (srcAddr + BitVec.ofNat 64 (8 * i)) 8 = some word) :
    (List.range k).foldlM (fun progress i => copyWord srcAddr tgtAddr progress (n - i - 1))
        ⟨memory, []⟩ = .ok {
      memory := memory.copyNonoverlapping (srcAddr + BitVec.ofNat 64 (8 * (n - k)))
        (tgtAddr + BitVec.ofNat 64 (8 * (n - k))) (8 * k)
      written := (List.range k).map (fun i => tgtAddr + BitVec.ofNat 64 (8 * (n - i - 1))) } := by
  induction k with
  | zero => simp [Memory.copy_nothing, pure, Except.pure]
  | succ k ih =>
      have before := ih (by omega)
      rcases mapped (n - k - 1) (by omega) with ⟨word, loaded⟩
      have index : n - (k + 1) = n - k - 1 := by omega
      have next : ∀ address : Address, address + BitVec.ofNat 64 (8 * (n - k)) =
          address + BitVec.ofNat 64 (8 * (n - k - 1)) + 8 := by
        intro address
        have split : 8 * (n - k) = 8 * (n - k - 1) + 8 := by omega
        rw [split, BitVec.ofNat_add, BitVec.add_assoc]
        rfl
      have beside : ∀ i, i < 8 → ¬ Memory.Within (tgtAddr + BitVec.ofNat 64 (8 * (n - k))) (8 * k)
          (srcAddr + BitVec.ofNat 64 (8 * (n - k - 1)) + BitVec.ofNat 64 i) := by
        intro i below inside
        rw [Memory.Within] at inside
        bv_omega
      have here := Memory.load_beside memory (srcAddr + BitVec.ofNat 64 (8 * (n - k))) beside
      have fits : 8 * k + 8 ≤ 2 ^ 64 := by omega
      have moved := Memory.store_below (tgtAddr + BitVec.ofNat 64 (8 * (n - k - 1))) fits loaded
      rw [List.range_succ, List.foldlM_append, before]
      simp only [List.foldlM_cons, List.foldlM_nil, bind, Except.bind]
      rw [copyWord_eq (here.trans loaded), next srcAddr, next tgtAddr, moved, index]
      simp only [List.map_append]
      rfl

end Copy

namespace JuliaMemorySlice

variable {slice src tgt : JuliaMemorySlice}

theorem Representable.bytes_toNat (representable : slice.Representable) :
    slice.bytes.toNat = 8 * slice.count.toNat := by
  have fits : slice.start.toNat + 8 * slice.count.toNat < 2 ^ 64 := representable
  rw [bytes, BitVec.toNat_shiftLeft, Nat.shiftLeft_eq]
  omega

theorem Representable.words (representable : slice.Representable) :
    (slice.bytes >>> 3).toNat = slice.count.toNat := by
  rw [BitVec.toNat_ushiftRight, representable.bytes_toNat, Nat.shiftRight_eq_div_pow]
  omega

theorem copy_eq (memory : Memory) (same : src.count = tgt.count) (source : src.Representable)
    (target : tgt.Representable)
    (mapped : ∀ i, i < tgt.count.toNat →
      ∃ word, memory.load (src.start + BitVec.ofNat 64 (8 * i)) 8 = some word) :
    ∃ written, copy memory src tgt = .ok {
        memory := memory.copyNonoverlapping src.start tgt.start (8 * tgt.count.toNat)
        written := written } ∧ written.Perm tgt.addresses := by
  have srcFits : src.start.toNat + 8 * tgt.count.toNat < 2 ^ 64 := by
    rw [← same]
    exact source
  have tgtFits : tgt.start.toNat + 8 * tgt.count.toNat < 2 ^ 64 := target
  have place : tgt.addresses =
      (List.range tgt.count.toNat).map (fun i => tgt.start + BitVec.ofNat 64 (8 * i)) := by
    simp only [addresses, shift_ofNat]
  have ending : (src.start + tgt.bytes).toNat = src.start.toNat + 8 * tgt.count.toNat := by
    rw [BitVec.toNat_add, target.bytes_toNat]
    omega
  rw [copy, target.words, place]
  simp only [gt_iff_lt, BitVec.lt_def, ending]
  split
  · next direction =>
      have forward := copy_forward tgt.count.toNat tgtFits srcFits direction mapped
      exact ⟨_, forward, List.Perm.refl _⟩
  · next direction =>
      have backward := copy_backward tgt.count.toNat tgt.count.toNat le_rfl tgtFits (by omega) mapped
      rw [Nat.sub_self, Nat.mul_zero, BitVec.add_zero, BitVec.add_zero] at backward
      refine ⟨_, backward, ?_⟩
      have order : (List.range tgt.count.toNat).reverse =
          (List.range tgt.count.toNat).map (fun i => tgt.count.toNat - i - 1) := by
        rw [List.range_eq_range', List.reverse_range', ← List.range_eq_range']
        apply List.map_congr_left
        intro i _
        omega
      have reversed := congrArg
        (List.map (fun i => tgt.start + BitVec.ofNat 64 (8 * i))) order
      rw [List.map_reverse, List.map_map] at reversed
      exact (List.Perm.of_eq reversed.symm).trans (List.reverse_perm _)

/-- Whatever the overlap, the target holds the words of the source, nothing else has changed, and
the addresses stored to are those of the slots of the target. -/
theorem copy_moves_words (memory : Memory) (src tgt : JuliaMemorySlice) (same : src.count = tgt.count)
    (source : src.Representable) (target : tgt.Representable)
    (mapped : ∀ i, i < tgt.count.toNat →
      ∃ word, memory.load (src.start + BitVec.ofNat 64 (8 * i)) 8 = some word) :
    ∃ after slots, copy memory src tgt = .ok after ∧
      (∀ i, i < tgt.count.toNat →
        after.memory.load (tgt.start + BitVec.ofNat 64 (8 * i)) 8 =
          memory.load (src.start + BitVec.ofNat 64 (8 * i)) 8) ∧
      (∀ byte, ¬ Memory.Within tgt.start (8 * tgt.count.toNat) byte →
        after.memory byte = memory byte) ∧
      (∀ fuel, tgt.count.toNat < fuel → tgt.iterSlots.drain fuel = .ok (slots.map .simple)) ∧
      slots.Pairwise (fun first second => first.toNat < second.toNat) ∧
      after.written.Perm slots := by
  rcases copy_eq memory same source target mapped with ⟨written, copied, stores⟩
  have fits : tgt.start.toNat + 8 * tgt.count.toNat < 2 ^ 64 := target
  refine ⟨_, tgt.addresses, copied, ?_, ?_, drain_iterSlots target, addresses_increase target, stores⟩
  · intro i below
    have offset : (BitVec.ofNat 64 (8 * i)).toNat = 8 * i := by
      rw [BitVec.toNat_ofNat]
      omega
    exact Memory.load_copy (by omega) (by omega)
  · intro byte outside
    exact if_neg outside

end JuliaMemorySlice

def twoWords (start : Address) : JuliaMemorySlice := ⟨⟨4096, by decide, by decide⟩, start, 2⟩

/-- The first two of three words moved over the last two. -/
theorem copy_moves_words_overlapping :
    ∃ after, JuliaMemorySlice.copy (Memory.ofWords [(4096, 10), (4104, 20), (4112, 30)])
        (twoWords 4096) (twoWords 4104) = .ok after ∧
      after.memory.load 4104 8 = some 10 ∧ after.memory.load 4112 8 = some 20 := by
  have mapped : ∀ i, i < 2 → ∃ word, (Memory.ofWords [(4096, 10), (4104, 20), (4112, 30)]).load
      ((twoWords 4096).start + BitVec.ofNat 64 (8 * i)) 8 = some word := by
    intro i below
    rcases Nat.lt_succ_iff_lt_or_eq.mp below with below | rfl
    · rcases Nat.lt_one_iff.mp below with rfl
      exact ⟨10, by decide +kernel⟩
    · exact ⟨20, by decide +kernel⟩
  obtain ⟨after, slots, copied, words, -⟩ := JuliaMemorySlice.copy_moves_words
    (Memory.ofWords [(4096, 10), (4104, 20), (4112, 30)]) (twoWords 4096) (twoWords 4104) rfl
    (by decide) (by decide) mapped
  refine ⟨after, copied, ?_, ?_⟩
  · calc
      after.memory.load 4104 8 =
          (Memory.ofWords [(4096, 10), (4104, 20), (4112, 30)]).load 4096 8 := words 0 (by decide)
      _ = some 10 := by decide +kernel
  · calc
      after.memory.load 4112 8 =
          (Memory.ofWords [(4096, 10), (4104, 20), (4112, 30)]).load 4104 8 := words 1 (by decide)
      _ = some 20 := by decide +kernel

end MmtkJulia.Scanning
