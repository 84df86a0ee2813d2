import MmtkJulia.Bitfields
import MmtkJulia.Scanning

/-! The bitfields of the structs that a scan reads, and the accessors that go without the loop. -/

namespace MmtkJulia.JuliaTypes

open Scanning

/-- jl_ucontext_t. -/
inductive ContextFlag where
  | copyStack
  | started
  deriving DecidableEq, Repr

/-- jl_datatype_layout_t__bindgen_ty_1. -/
inductive LayoutFlag where
  | haspadding
  | fielddescType
  | arrayelemIsboxed
  | arrayelemIsunion
  | arrayelemIsatomic
  | arrayelemIslocked
  | isbitsegal
  | padding
  deriving DecidableEq, Repr

/-- _jl_datatype_t. -/
inductive DatatypeFlag where
  | hasfreetypevars
  | isconcretetype
  | isdispatchtuple
  | isbitstype
  | zeroinit
  | hasConcreteSubtype
  | maybeSubtypeOfCache
  | isprimitivetype
  | ismutationfree
  | isidentityfree
  | smalltag
  deriving DecidableEq, Repr

/-- _jl_taggedvalue_bits. -/
inductive TaggedvalueBits where
  | gc
  | inImage
  | unused
  | tag
  deriving DecidableEq, Repr

def contextFlags : Packing ContextFlag 4 32 where
  field
    | .copyStack => ⟨0, 31, by decide, by decide, by decide⟩
    | .started => ⟨31, 1, by decide, by decide, by decide⟩
  flags := [.copyStack, .started]
  small := by decide
  ordered := by decide
  every flag := by cases flag <;> decide

def layoutFlagBits : Packing LayoutFlag 2 16 where
  field
    | .haspadding => ⟨0, 1, by decide, by decide, by decide⟩
    | .fielddescType => ⟨1, 2, by decide, by decide, by decide⟩
    | .arrayelemIsboxed => ⟨3, 1, by decide, by decide, by decide⟩
    | .arrayelemIsunion => ⟨4, 1, by decide, by decide, by decide⟩
    | .arrayelemIsatomic => ⟨5, 1, by decide, by decide, by decide⟩
    | .arrayelemIslocked => ⟨6, 1, by decide, by decide, by decide⟩
    | .isbitsegal => ⟨7, 1, by decide, by decide, by decide⟩
    | .padding => ⟨8, 8, by decide, by decide, by decide⟩
  flags := [.haspadding, .fielddescType, .arrayelemIsboxed, .arrayelemIsunion, .arrayelemIsatomic,
    .arrayelemIslocked, .isbitsegal, .padding]
  small := by decide
  ordered := by decide
  every flag := by cases flag <;> decide

def datatypeFlags : Packing DatatypeFlag 2 16 where
  field
    | .hasfreetypevars => ⟨0, 1, by decide, by decide, by decide⟩
    | .isconcretetype => ⟨1, 1, by decide, by decide, by decide⟩
    | .isdispatchtuple => ⟨2, 1, by decide, by decide, by decide⟩
    | .isbitstype => ⟨3, 1, by decide, by decide, by decide⟩
    | .zeroinit => ⟨4, 1, by decide, by decide, by decide⟩
    | .hasConcreteSubtype => ⟨5, 1, by decide, by decide, by decide⟩
    | .maybeSubtypeOfCache => ⟨6, 1, by decide, by decide, by decide⟩
    | .isprimitivetype => ⟨7, 1, by decide, by decide, by decide⟩
    | .ismutationfree => ⟨8, 1, by decide, by decide, by decide⟩
    | .isidentityfree => ⟨9, 1, by decide, by decide, by decide⟩
    | .smalltag => ⟨10, 6, by decide, by decide, by decide⟩
  flags := [.hasfreetypevars, .isconcretetype, .isdispatchtuple, .isbitstype, .zeroinit,
    .hasConcreteSubtype, .maybeSubtypeOfCache, .isprimitivetype, .ismutationfree, .isidentityfree,
    .smalltag]
  small := by decide
  ordered := by decide
  every flag := by cases flag <;> decide

def taggedvalueBits : Packing TaggedvalueBits 8 64 where
  field
    | .gc => ⟨0, 2, by decide, by decide, by decide⟩
    | .inImage => ⟨2, 1, by decide, by decide, by decide⟩
    | .unused => ⟨3, 1, by decide, by decide, by decide⟩
    | .tag => ⟨4, 60, by decide, by decide, by decide⟩
  flags := [.gc, .inImage, .unused, .tag]
  small := by decide
  ordered := by decide
  every flag := by cases flag <;> decide

theorem bitfields_act_as_records :
    contextFlags.ActsAsRecord ∧ layoutFlagBits.ActsAsRecord ∧ datatypeFlags.ActsAsRecord ∧
      taggedvalueBits.ActsAsRecord :=
  ⟨contextFlags.actsAsRecord, layoutFlagBits.actsAsRecord, datatypeFlags.actsAsRecord,
    taggedvalueBits.actsAsRecord⟩

theorem and_low_ones {width : Nat} (raw mask : BitVec width) (count : Nat)
    (ones : mask.toNat = 2 ^ count - 1) : raw &&& mask = (raw.setWidth count).setWidth width := by
  apply BitVec.eq_of_toNat_eq
  have low : raw.toNat % 2 ^ count ≤ raw.toNat := Nat.mod_le _ _
  have fits : raw.toNat % 2 ^ count < 2 ^ width := Nat.lt_of_le_of_lt low raw.isLt
  rw [BitVec.toNat_and, ones, Nat.and_two_pow_sub_one_eq_mod, BitVec.toNat_setWidth,
    BitVec.toNat_setWidth, Nat.mod_eq_of_lt fits]

theorem fielddescTypeCustom_eq (flags : BitfieldUnit 2) :
    layoutFlagBits.getter flags .fielddescType = some (fielddescTypeCustom flags.transmute) := by
  rw [Packing.getter_eq, fielddescTypeCustom, and_low_ones _ _ 2 (by decide)]
  rfl

theorem copyStackCustom_eq (ctx : BitfieldUnit 4) :
    contextFlags.getter ctx .copyStack = some (copyStackCustom ctx.transmute) := by
  have whole : ctx.transmute >>> 0 = ctx.transmute := BitVec.ushiftRight_zero _
  rw [Packing.getter_eq, copyStackCustom, and_low_ones _ _ 31 (by decide), Packing.record]
  exact congrArg (fun raw : BitVec 32 => some ((raw.setWidth 31).setWidth 32)) whole

theorem single_bit (raw : BitVec 16) (i : Nat) :
    ((raw >>> i).setWidth 1).setWidth 16 ≠ 0 ↔ raw.getLsbD i = true := by
  have low : (((raw >>> i).setWidth 1).setWidth 16).getLsbD 0 = raw.getLsbD i := by simp
  cases bit : raw.getLsbD i with
  | true =>
      refine iff_of_true ?_ rfl
      intro zero
      rw [zero, bit] at low
      cases low
  | false =>
      refine iff_of_false (not_not.mpr ?_) Bool.false_ne_true
      apply BitVec.eq_of_getLsbD_eq
      intro j below
      by_cases first : j = 0
      · rw [first, low, bit]
        rfl
      · simp [first]

theorem smalltag_eq (raw : BitVec 16) : raw >>> 10 = ((raw >>> 10).setWidth 6).setWidth 16 := by
  apply BitVec.eq_of_toNat_eq
  have bound := raw.isLt
  rw [BitVec.toNat_setWidth, BitVec.toNat_setWidth, BitVec.toNat_ushiftRight, Nat.shiftRight_eq_div_pow]
  omega

theorem tag_shifted (header : Usize) :
    header &&& ~~~(0xf : Usize) = ((header >>> 4).setWidth 60).setWidth 64 <<< 4 := by
  have ones : (0xf : Usize) = (BitVec.allOnes 4).setWidth 64 := by decide
  apply BitVec.eq_of_getLsbD_eq
  intro j below
  rw [ones, BitVec.getLsbD_and, BitVec.getLsbD_not, BitVec.getLsbD_setWidth, BitVec.getLsbD_allOnes,
    BitVec.getLsbD_shiftLeft, BitVec.getLsbD_setWidth, BitVec.getLsbD_setWidth,
    BitVec.getLsbD_ushiftRight]
  by_cases low : j < 4
  · simp [low, below]
  · have part : j - 4 < 60 := by omega
    have place : 4 + (j - 4) = j := by omega
    have wide : j - 4 < 64 := by omega
    simp [low, below, part, place, wide]

/-- What the scan reads of flags and headers in memory is what the accessors give for the bytes there:
the two accessors that go without the loop, the tests of single bits, the small tag of a datatype and
the type tag of an object. -/
theorem accessors_agree {memory : Memory} {layout vt ta obj : Address} {flags kind : BitfieldUnit 2}
    {ctx : BitfieldUnit 4} {header : BitfieldUnit 8} (flagsAt : flags.At memory (layout + 18))
    (kindAt : kind.At memory (vt + 52)) (ctxAt : ctx.At memory (ta + 216))
    (headerAt : header.At memory (obj - 8)) :
    (∃ raw boxed union : BitVec 16, layoutFlags memory layout = .ok raw ∧
      layoutFlagBits.getter flags .fielddescType = some (fielddescTypeCustom raw) ∧
      layoutFlagBits.getter flags .arrayelemIsboxed = some boxed ∧
      (boxed ≠ 0 ↔ arrayelemIsboxed raw = true) ∧
      layoutFlagBits.getter flags .arrayelemIsunion = some union ∧
      (union ≠ 0 ↔ arrayelemIsunion raw = true)) ∧
    (∃ raw, loadU32 memory (ta + 216) = .ok raw ∧
      contextFlags.getter ctx .copyStack = some (copyStackCustom raw)) ∧
    (∃ small, smalltag memory vt = .ok small ∧ datatypeFlags.getter kind .smalltag = some small) ∧
    ∃ tag : Usize, mmtkJlTypetagof memory obj = .ok (tag <<< 4) ∧
      taggedvalueBits.getter header .tag = some tag := by
  have read : ∀ {bytes : Nat} {address : Address} {unit : BitfieldUnit bytes},
      unit.At memory address → loadBytes memory address bytes = .ok unit.transmute := by
    intro bytes address unit at_
    rw [loadBytes, at_.load]
  refine ⟨⟨flags.transmute, _, _, read flagsAt, fielddescTypeCustom_eq flags,
    layoutFlagBits.getter_eq flags _, single_bit _ 3, layoutFlagBits.getter_eq flags _,
    single_bit _ 4⟩, ⟨ctx.transmute, read ctxAt, copyStackCustom_eq ctx⟩, ⟨_, ?_,
    datatypeFlags.getter_eq kind _⟩, ⟨_, ?_, taggedvalueBits.getter_eq header _⟩⟩
  · have raw : loadU16 memory (vt + 52) = .ok kind.transmute := read kindAt
    rw [smalltag, raw]
    exact congrArg Except.ok (smalltag_eq kind.transmute)
  · have raw : loadU64 memory (obj - 8) = .ok header.transmute := read headerAt
    rw [mmtkJlTypetagof, raw]
    exact congrArg Except.ok (tag_shifted header.transmute)

/-- Flags of a boxed array element, a datatype with small tag 9, a started task and the header of a
marked simple vector. -/
def flagBytes : Memory := .ofWords [
  (0x1010, 0xa0000), (0x2030, 0x240000000000), (0x30d8, 0x80000050), (0x4000, 0x93)]

theorem accessors_agree_marked :
    (∃ small, smalltag flagBytes 0x2000 = .ok small ∧
      datatypeFlags.getter ⟨#v[0x00, 0x24]⟩ .smalltag = some small) ∧
    ∃ tag : Usize, mmtkJlTypetagof flagBytes 0x4008 = .ok (tag <<< 4) ∧
      taggedvalueBits.getter ⟨#v[0x93, 0, 0, 0, 0, 0, 0, 0]⟩ .tag = some tag := by
  have flags : BitfieldUnit.At ⟨#v[0x0a, 0x00]⟩ flagBytes (0x1000 + 18) := by
    unfold BitfieldUnit.At
    decide +kernel
  have kind : BitfieldUnit.At ⟨#v[0x00, 0x24]⟩ flagBytes (0x2000 + 52) := by
    unfold BitfieldUnit.At
    decide +kernel
  have ctx : BitfieldUnit.At ⟨#v[0x50, 0, 0, 0x80]⟩ flagBytes (0x3000 + 216) := by
    unfold BitfieldUnit.At
    decide +kernel
  have header : BitfieldUnit.At ⟨#v[0x93, 0, 0, 0, 0, 0, 0, 0]⟩ flagBytes (0x4008 - 8) := by
    unfold BitfieldUnit.At
    decide +kernel
  exact (accessors_agree flags kind ctx header).2.2

end MmtkJulia.JuliaTypes
