import MmtkJulia.Scanning

/-! VMObjectModel::copy of object_model.rs with the sizes of the objects it moves, as in a release
build. What post_copy does to the metadata of the copy is left out. -/

namespace MmtkJulia.Scanning

def lltAlign (size align : Usize) : Usize := (size + align - 1) &&& ~~~(align - 1)

theorem lltAlign_split (size align : Usize) :
    (size + align - 1).toNat =
      (lltAlign size align).toNat + ((size + align - 1) &&& (align - 1)).toNat := by
  have apart : lltAlign size align &&& ((size + align - 1) &&& (align - 1)) = 0 := by
    rw [lltAlign]
    ext i
    simp only [BitVec.getElem_and, BitVec.getElem_not]
    cases (align - 1)[i] <;> simp
  have whole : lltAlign size align ||| ((size + align - 1) &&& (align - 1)) = size + align - 1 := by
    rw [lltAlign, ← BitVec.and_or_distrib_left, BitVec.not_or_self, BitVec.and_allOnes]
  rw [← BitVec.toNat_add_of_and_eq_zero apart, BitVec.add_eq_or_of_and_eq_zero _ _ apart, whole]

section Align

variable {size align : Usize}

theorem align_pred_toNat (positive : align ≠ 0) : (align - 1).toNat = align.toNat - 1 := by
  have aligned : 0 < align.toNat :=
    Nat.pos_of_ne_zero (fun zero => positive (BitVec.eq_of_toNat_eq zero))
  have one : (1 : Usize).toNat = 1 := rfl
  rw [BitVec.toNat_sub]
  omega

theorem align_sum_toNat (positive : align ≠ 0) (small : size.toNat + align.toNat < 2 ^ 64) :
    (size + align - 1).toNat = size.toNat + align.toNat - 1 := by
  have aligned : 0 < align.toNat :=
    Nat.pos_of_ne_zero (fun zero => positive (BitVec.eq_of_toNat_eq zero))
  have one : (1 : Usize).toNat = 1 := rfl
  rw [BitVec.toNat_sub, BitVec.toNat_add]
  omega

theorem lltAlign_ge (positive : align ≠ 0) (small : size.toNat + align.toNat < 2 ^ 64) :
    size.toNat ≤ (lltAlign size align).toNat := by
  have split := lltAlign_split size align
  have rest : ((size + align - 1) &&& (align - 1)).toNat ≤ align.toNat - 1 := by
    rw [BitVec.toNat_and, ← align_pred_toNat positive]
    exact Nat.and_le_right
  rw [align_sum_toNat positive small] at split
  have aligned : 0 < align.toNat :=
    Nat.pos_of_ne_zero (fun zero => positive (BitVec.eq_of_toNat_eq zero))
  omega

/-- With a power of two, aligning a size yields the least multiple that holds it. -/
theorem lltAlign_least {k : Nat} (power : align.toNat = 2 ^ k)
    (small : size.toNat + align.toNat < 2 ^ 64) :
    IsLeast {bytes | align.toNat ∣ bytes ∧ size.toNat ≤ bytes} (lltAlign size align).toNat := by
  have aligned : 0 < align.toNat := power ▸ Nat.two_pow_pos k
  have positive : align ≠ 0 := by
    rintro rfl
    exact absurd aligned (by decide)
  have sum := align_sum_toNat positive small
  have rest : ((size + align - 1) &&& (align - 1)).toNat =
      (size.toNat + align.toNat - 1) % align.toNat := by
    rw [BitVec.toNat_and, align_pred_toNat positive, sum, power, Nat.and_two_pow_sub_one_eq_mod]
  have split := lltAlign_split size align
  rw [sum, rest] at split
  have whole := Nat.div_add_mod (size.toNat + align.toNat - 1) align.toNat
  have rounded : (lltAlign size align).toNat =
      align.toNat * ((size.toNat + align.toNat - 1) / align.toNat) := by omega
  refine ⟨⟨Dvd.intro _ rounded.symm, lltAlign_ge positive small⟩, ?_⟩
  rintro bytes ⟨⟨count, rfl⟩, enough⟩
  have below : size.toNat + align.toNat - 1 < align.toNat * (count + 1) := by
    rw [Nat.mul_succ]
    omega
  rw [rounded]
  exact Nat.mul_le_mul_left _ (Nat.le_of_lt_succ (Nat.div_lt_of_lt_mul below))

/-- The size holds the header and the payload and is the least multiple of the grain that does. -/
def Rounded (payload grain : Nat) (size : Usize) : Prop :=
  IsLeast {bytes | grain ∣ bytes ∧ 8 + payload ≤ bytes} size.toNat

theorem rounded_lltAlign (align : Usize) (k : Nat) {payload : Nat} (power : align.toNat = 2 ^ k)
    (total : size.toNat = 8 + payload) (small : 8 + payload + align.toNat < 2 ^ 64) :
    Rounded payload align.toNat (lltAlign size align) := by
  rw [Rounded, ← total]
  exact lltAlign_least power (by omega)

theorem Rounded.enough {payload grain : Nat} (rounded : Rounded payload grain size) :
    8 + payload ≤ size.toNat := rounded.1.2

end Align

def isObjectInLos (object : Address) : Bool :=
  decide (0x60000000000 ≤ object ∧ object < 0x80000000000)

section Size

variable (runtime : Runtime) (memory : Memory)

def mmtkGetObjSize (obj : Address) : Except Fault Usize := loadU64 memory (obj - 2 * runtime.headerSize)

def plainSize (vt : Address) : Except Fault Usize := do
  let layout ← datatypeLayout memory vt
  let dtsz := (← layoutSize memory layout).setWidth 64
  return lltAlign (dtsz + runtime.headerSize) 16

/-- Tags of jl_small_typeof_tags that the scan does not treat as structs: the sizes of jl_svec_t,
jl_module_t and jl_task_t are 8, 392 and 224. -/
def smallSize (vtag : Usize) (obj : Address) : Except Fault Usize :=
  if vtag = simplevectorTag then do
    let length ← loadU64 memory obj
    return lltAlign (length * 8 + 8 + runtime.headerSize) 16
  else if vtag = moduleTag then
    return lltAlign (392 + runtime.headerSize) 16
  else if vtag = taskTag then
    return lltAlign (224 + runtime.headerSize) 16
  else if vtag = stringTag then do
    let length ← loadU64 memory obj
    return lltAlign (length + 8 + 1 + runtime.headerSize) 8
  else
    plainSize runtime memory (runtime.smallTypeof (vtag / 8).toNat)

def genericMemorySize (obj : Address) : Except Fault Usize :=
  if runtime.genericmemoryHow memory obj = 0 then do
    let layout ← datatypeLayout memory (← mmtkJlTypetagof memory obj)
    let length ← loadU64 memory obj
    let elements := (← layoutSize memory layout).setWidth 64 * length
    let isunion := arrayelemIsunion (← layoutFlags memory layout)
    let sz := if isunion then elements + length else elements
    return lltAlign (sz + lltAlign 16 16 + runtime.headerSize) 16
  else
    return lltAlign (16 + 8 + runtime.headerSize) 16

def datatypeSize (vt obj : Address) : Except Fault Usize := do
  let objType ← mmtkJlTypeof runtime memory obj
  if objType = vt then
    let name ← datatypeName memory vt
    if name = runtime.genericmemoryTypename then genericMemorySize runtime memory obj
    else plainSize runtime memory vt
  else
    throw .typeMismatch

def getSoObjectSize (object : Address) : Except Fault Usize := do
  let vtag ← mmtkJlTypetagof memory object
  if vtag = runtime.buffTag then
    mmtkGetObjSize runtime memory object
  else if vtag ∈ structTags then
    datatypeSize runtime memory (runtime.smallTypeof (vtag / 8).toNat) object
  else if vtag < maxTags then
    smallSize runtime memory vtag object
  else
    checkDatatype memory vtag
    datatypeSize runtime memory vtag object

def getObjectStartRef (object : Address) : Except Fault Address := do
  if (← mmtkJlTypeof runtime memory object) = runtime.buffTag then
    return object - 2 * runtime.headerSize
  else
    return object - runtime.headerSize

def refToObjectStart (object : Address) : Except Fault Address :=
  if isObjectInLos object then return object - 48 else getObjectStartRef runtime memory object

/-- dst is what alloc_copy returns. -/
def copy (source dst : Address) : Except Fault (Memory × Address) := do
  let bytes ← getSoObjectSize runtime memory source
  let start ← refToObjectStart runtime memory source
  let headerOffset := source - start
  if headerOffset = 8 then
    let copied := memory.copyNonoverlapping start dst bytes.toNat
    let target := dst + headerOffset
    let vt ← mmtkJlTypeof runtime copied source
    let name ← datatypeName copied vt
    if name = runtime.genericmemoryTypename then
      return (runtime.updateInlinedArray copied source target, target)
    else
      return (copied, target)
  else
    throw .unimplemented

end Size

end MmtkJulia.Scanning
