import MmtkJulia.Cursor
import MmtkJulia.Memory

/-! scan_julia_object of julia_scanning.rs, over the object layouts of julia_types.rs. The
closure is the list of the slots it is called with. Debug assertions are compiled out. -/

namespace MmtkJulia.Scanning

inductive JuliaVMSlot where
  | simple (address : Address)
  | offset (address : Address) (offset : Usize)
  deriving DecidableEq, Repr

/-- What stops a scan: a load outside of mapped memory, the three panics, or a loop bound that is
too small. -/
inductive Fault where
  | unmapped
  | corruption
  | negativeTid
  | unimplemented
  | typeMismatch
  | stuck
  deriving DecidableEq, Repr

abbrev Scan := Except Fault (List JuliaVMSlot)

/-- The statics that Julia sets up, and the C functions that a scan or a copy calls. -/
structure Runtime where
  juliaCopyStack : Bool
  headerSize : Usize
  buffTag : Usize
  symbolType : Address
  weakrefType : Address
  taskType : Address
  arrayTypename : Address
  genericmemoryTypename : Address
  smallTypeof : Nat → Address
  isManaged : Address → Bool
  genericmemoryHow : Memory → Address → Usize
  ownerAddress : Address → Address
  stackbase : BitVec 16 → Usize
  scanJuliaExcObj : Memory → Address → List Address
  updateInlinedArray : Memory → Address → Address → Memory

section Loads

variable (memory : Memory) (address : Address)

def loadBytes (count : Nat) : Except Fault (BitVec (8 * count)) :=
  match memory.load address count with
  | some value => .ok value
  | none => .error .unmapped

def loadU8 : Except Fault (BitVec 8) := loadBytes memory address 1
def loadU16 : Except Fault (BitVec 16) := loadBytes memory address 2
def loadU32 : Except Fault (BitVec 32) := loadBytes memory address 4
def loadU64 : Except Fault Usize := loadBytes memory address 8

end Loads

def shift (address : Address) (words : Usize) : Address := address + 8 * words

/-- while cursor < limit, with as many rounds as there are bytes in between. -/
def whileBelow (visit : Address → Scan) (cursor limit stride : Address) : Scan :=
  walk .stuck visit limit stride ((limit - cursor).toNat + 1) cursor

def processSlot (slot : Address) : Scan := .ok [.simple slot]

def smallTag (tag : Usize) : Usize := tag <<< 4

def datatypeTag : Usize := smallTag 2
def moduleTag : Usize := smallTag 8
def simplevectorTag : Usize := smallTag 9
def stringTag : Usize := smallTag 10
def taskTag : Usize := smallTag 11
def maxTags : Usize := smallTag 64

/-- datatype, unionall, uniontype, tvar, vararg, globalref, gotoifnot, returnnode, enternode,
pinode, phinode, phicnode, upsilonnode, quotenode -/
def structTags : List Usize :=
  [2, 3, 4, 6, 5, 35, 28, 29, 30, 31, 32, 33, 34, 37].map smallTag

instance (vtag : Usize) : Decidable (vtag ∈ structTags) :=
  List.instDecidableMemOfLawfulBEq vtag structTags

section Types

variable (runtime : Runtime) (memory : Memory)

def mmtkJlTypetagof (addr : Address) : Except Fault Usize := do
  let tHeader ← loadU64 memory (addr - 8)
  return tHeader &&& ~~~0xf

def mmtkJlToTypeof (t : Usize) : Address :=
  if t < maxTags then runtime.smallTypeof (t / 8).toNat else t

def mmtkJlTypeof (addr : Address) : Except Fault Address := do
  return mmtkJlToTypeof runtime (← mmtkJlTypetagof memory addr)

/-- jl_datatype_t: name at 0, layout at 40, smalltag in the top six bits of the flags at 52. -/
def datatypeName (vt : Address) : Except Fault Address := loadU64 memory vt

def datatypeLayout (vt : Address) : Except Fault Address := loadU64 memory (vt + 40)

def smalltag (vt : Address) : Except Fault (BitVec 16) := do
  return (← loadU16 memory (vt + 52)) >>> 10

/-- The check before a header word is taken for the address of a datatype. -/
def checkDatatype (vtag : Usize) : Except Fault Unit := do
  if (← mmtkJlTypetagof memory vtag) ≠ datatypeTag then throw .corruption
  if (← smalltag memory vtag) ≠ 0 then throw .corruption

end Types

/-! jl_datatype_layout_t: size at 0, nfields at 4, npointers at 8, first_ptr at 12, flags at 18,
and 20 bytes on the field descriptors, with the pointer descriptors behind them. -/

section Layout

variable (memory : Memory) (layout : Address)

def layoutSize : Except Fault (BitVec 32) := loadU32 memory layout

def layoutNpointers : Except Fault (BitVec 32) := loadU32 memory (layout + 8)

def layoutFirstPtr : Except Fault (BitVec 32) := loadU32 memory (layout + 12)

def layoutFlags : Except Fault (BitVec 16) := loadU16 memory (layout + 18)

def fielddescTypeCustom (flags : BitVec 16) : BitVec 16 := flags >>> 1 &&& 0b11

def arrayelemIsboxed (flags : BitVec 16) : Bool := flags.getLsbD 3

def arrayelemIsunion (flags : BitVec 16) : Bool := flags.getLsbD 4

def mmtkJlFielddescSize (fielddescType : BitVec 16) : BitVec 32 := 2 <<< fielddescType.toNat

def mmtkJlDtLayoutFields : Address := layout + 20

def mmtkJlDtLayoutPtrs : Except Fault Address := do
  let size := mmtkJlFielddescSize (fielddescTypeCustom (← layoutFlags memory layout))
  let nfields ← loadU32 memory (layout + 4)
  return mmtkJlDtLayoutFields layout + (size * nfields).setWidth 64

end Layout

/-! The three pointer loops over an object, by the width of a descriptor in bytes. -/

section Descriptors

variable (memory : Memory) (obj descBegin : Address) (npointers : BitVec 32)

def scanDescriptors (load : Address → Except Fault Usize) (width : Address) : Scan :=
  whileBelow (fun desc => do processSlot (shift obj (← load desc))) descBegin
    (descBegin + npointers.setWidth 64 * width) width

def scanObj8 : Scan :=
  scanDescriptors obj descBegin npointers (fun desc => do return (← loadU8 memory desc).setWidth 64) 1

def scanObj16 : Scan :=
  scanDescriptors obj descBegin npointers (fun desc => do return (← loadU16 memory desc).setWidth 64) 2

def scanObj32 : Scan :=
  scanDescriptors obj descBegin npointers (fun desc => do return (← loadU32 memory desc).setWidth 64) 4

end Descriptors

def scanPointers (memory : Memory) (layout obj : Address) : Scan := do
  let npointers ← layoutNpointers memory layout
  if npointers = 0 then
    return []
  else
    let fielddescType := fielddescTypeCustom (← layoutFlags memory layout)
    if fielddescType = 0 then
      scanObj8 memory obj (← mmtkJlDtLayoutPtrs memory layout) npointers
    else if fielddescType = 1 then
      scanObj16 memory obj (← mmtkJlDtLayoutPtrs memory layout) npointers
    else if fielddescType = 2 then
      scanObj32 memory obj (← mmtkJlDtLayoutPtrs memory layout) npointers
    else
      throw .unimplemented

def scanPlainObject (memory : Memory) (vt obj : Address) : Scan := do
  scanPointers memory (← datatypeLayout memory vt) obj

def mmtkJlSvecLen (memory : Memory) (obj : Address) : Except Fault Usize := loadU64 memory obj

def mmtkJlSvecData (obj : Address) : Address := obj + 8

def scanSimpleVector (memory : Memory) (obj : Address) : Scan := do
  let length ← mmtkJlSvecLen memory obj
  let objaryBegin := mmtkJlSvecData obj
  whileBelow processSlot objaryBegin (shift objaryBegin length) 8

/-- usings lies 64 bytes into a module: len at 64, items at 80, _space from 88 on. -/
def offsetOfInlinedSpaceInModule : Usize := 88

def scanUsings (items : Address) (nusings : Usize) : Scan :=
  if 0 < nusings then whileBelow processSlot items (shift items nusings) 32 else return []

/-- bindings at 16, bindingkeyset at 24, parent at 8, usings_backedges at 48, scanned_methods at
56 -/
def scanModule (runtime : Runtime) (memory : Memory) (m : Address) : Scan := do
  let fields := [JuliaVMSlot.simple (m + 16), .simple (m + 24), .simple (m + 8), .simple (m + 48),
    .simple (m + 56)]
  let items ← loadU64 memory (m + 80)
  let inlined := if runtime.isManaged items then
    [JuliaVMSlot.offset (m + 80) offsetOfInlinedSpaceInModule] else []
  let nusings ← loadU64 memory (m + 64)
  let usings ← scanUsings items nusings
  return fields ++ inlined ++ usings

/-! mmtk_scan_gcstack -/

/-- The part [lb, ub) of the address space that is read at an offset. -/
structure Window where
  offset : Usize
  lb : Usize
  ub : Usize
  deriving DecidableEq, Repr

def Window.whole : Window := ⟨0, 0, BitVec.allOnes 64⟩

def getStackAddr (window : Window) (addr : Address) : Address :=
  if window.lb ≤ addr ∧ addr < window.ub then addr + window.offset else addr

def readStack (memory : Memory) (window : Window) (addr : Address) : Except Fault Usize :=
  loadU64 memory (getStackAddr window addr)

def scanRoots (memory : Memory) (window : Window) (rts : Address) (nroots : Usize) :
    Nat → Usize → Scan
  | 0, _ => throw .stuck
  | fuel + 1, i =>
      if i < nroots >>> 2 then
        if nroots &&& 1 ≠ 0 then do
          let slot ← readStack memory window (shift rts i)
          let here ← processSlot (getStackAddr window slot)
          return here ++ (← scanRoots memory window rts nroots fuel (i + 1))
        else do
          let realAddr := getStackAddr window (shift rts i)
          let slot ← readStack memory window (shift rts i)
          if slot &&& 3 = 3 then
            scanRoots memory window rts nroots fuel (i + 2)
          else if slot &&& 1 ≠ 0 then
            return .offset realAddr 1 :: (← scanRoots memory window rts nroots fuel (i + 2))
          else
            let here ← processSlot realAddr
            return here ++ (← scanRoots memory window rts nroots fuel (i + 1))
      else return []

def scanFrame (memory : Memory) (window : Window) (s : Address) (nroots : Usize) : Scan :=
  scanRoots memory window (shift s 2) nroots ((nroots >>> 2).toNat + 1) 0

/-- The loop over the frames: jl_gcframe_t has nroots at 0 and prev at 8. -/
def scanFrames (memory : Memory) (window : Window) : Nat → Address → Usize → Scan
  | 0, _, _ => throw .stuck
  | fuel + 1, s, nroots => do
      let here ← scanFrame memory window s nroots
      let sprev ← readStack memory window (s + 8)
      if sprev = 0 then
        return here
      else
        let newNroots ← readStack memory window sprev
        return here ++ (← scanFrames memory window fuel sprev newNroots)

def copyStackCustom (raw : BitVec 32) : BitVec 32 := raw &&& 2147483647

/-- jl_task_t: tid at 144, gcstack at 152, ptls at 168, excstack at 176, and in ctx stkbuf at 200
and copy_stack at 216. -/
def stackWindow (runtime : Runtime) (memory : Memory) (ta : Address) : Except Fault Window := do
  let stkbuf ← loadU64 memory (ta + 200)
  let copyStack := copyStackCustom (← loadU32 memory (ta + 216))
  if runtime.juliaCopyStack ∧ stkbuf ≠ 0 ∧ copyStack ≠ 0 then
    let ptls ← loadU64 memory (ta + 168)
    if ptls = 0 then
      let tid ← loadU16 memory (ta + 144)
      if tid.toInt < 0 then
        throw .negativeTid
      else
        let ub := runtime.stackbase tid
        let lb := ub - copyStack.setWidth 64
        return ⟨stkbuf - lb, lb, ub⟩
    else
      return .whole
  else
    return .whole

def stkbufSlot (runtime : Runtime) (memory : Memory) (ta : Address) : Scan := do
  let stkbuf ← loadU64 memory (ta + 200)
  let copyStack := copyStackCustom (← loadU32 memory (ta + 216))
  if runtime.juliaCopyStack ∧ stkbuf ≠ 0 ∧ copyStack ≠ 0 then processSlot (ta + 200) else return []

def scanShadowStack (runtime : Runtime) (memory : Memory) (fuel : Nat) (ta : Address) : Scan := do
  let s ← loadU64 memory (ta + 152)
  let window ← stackWindow runtime memory ta
  if s ≠ 0 then
    let nroots ← readStack memory window s
    scanFrames memory window fuel s nroots
  else
    return []

def scanExcstack (runtime : Runtime) (memory : Memory) (ta : Address) : Scan := do
  if (← loadU64 memory (ta + 176)) ≠ 0 then
    return (runtime.scanJuliaExcObj memory ta).map .simple
  else
    return []

def mmtkScanGcstack (runtime : Runtime) (memory : Memory) (fuel : Nat) (ta : Address) : Scan := do
  let own ← stkbufSlot runtime memory ta
  let roots ← scanShadowStack runtime memory fuel ta
  let exceptions ← scanExcstack runtime memory ta
  return own ++ roots ++ exceptions

def scanTask (runtime : Runtime) (memory : Memory) (fuel : Nat) (obj : Address) : Scan := do
  let stack ← mmtkScanGcstack runtime memory fuel obj
  let layout ← datatypeLayout memory runtime.taskType
  let npointers ← layoutNpointers memory layout
  let fields ← scanObj8 memory obj (← mmtkJlDtLayoutPtrs memory layout) npointers
  return stack ++ fields

/-- jl_array_t: ref.ptr_or_offset at 0 and ref.mem at 8. -/
def scanArrayRef (runtime : Runtime) (memory : Memory) (a : Address) : Scan := do
  let ptrOrOffset ← loadU64 memory a
  let mem ← loadU64 memory (a + 8)
  if runtime.isManaged ptrOrOffset ∧ mem < ptrOrOffset then
    return [.offset a (ptrOrOffset - mem)]
  else
    return []

/-- A memory of inline structs: the branch for first_ptr >= 0. The loop for 16-bit descriptors
goes back to the start of the table by computing it again. -/
def scanElements (memory : Memory) (layout objaryBegin : Address) (length : Usize) : Scan := do
  let npointers ← layoutNpointers memory layout
  let elsize := (← layoutSize memory layout).setWidth 64 / 8
  let objaryEnd := shift objaryBegin (length * elsize)
  if npointers = 1 then
    let firstPtr ← layoutFirstPtr memory layout
    whileBelow processSlot (shift objaryBegin (firstPtr.signExtend 64)) objaryEnd (8 * elsize)
  else
    let fielddescType := fielddescTypeCustom (← layoutFlags memory layout)
    if fielddescType = 0 then
      let obj8Begin ← mmtkJlDtLayoutPtrs memory layout
      whileBelow (fun elem => scanObj8 memory elem obj8Begin npointers) objaryBegin objaryEnd
        (8 * elsize)
    else if fielddescType = 1 then
      let obj16Begin ← mmtkJlDtLayoutPtrs memory layout
      whileBelow (fun elem => scanObj16 memory elem obj16Begin npointers) objaryBegin objaryEnd
        (8 * elsize)
    else
      throw .unimplemented

/-- jl_genericmemory_t: length at 0 and ptr at 8. -/
def scanGenericMemory (runtime : Runtime) (memory : Memory) (vt m : Address) : Scan := do
  if runtime.genericmemoryHow memory m = 3 then
    processSlot (runtime.ownerAddress m)
  else
    let length ← loadU64 memory m
    if length = 0 then
      return []
    else
      let layout ← datatypeLayout memory vt
      if arrayelemIsboxed (← layoutFlags memory layout) then
        let objaryBegin ← loadU64 memory (m + 8)
        whileBelow processSlot objaryBegin (shift objaryBegin length) 8
      else
        let firstPtr ← layoutFirstPtr memory layout
        if 0 ≤ firstPtr.toInt then
          scanElements memory layout (← loadU64 memory (m + 8)) length
        else
          return []

def scanDatatype (runtime : Runtime) (memory : Memory) (vt obj : Address) : Scan := do
  let name ← datatypeName memory vt
  let ref ← if name = runtime.arrayTypename then scanArrayRef runtime memory obj else pure []
  let rest ←
    if name = runtime.genericmemoryTypename then scanGenericMemory runtime memory vt obj
    else if vt = runtime.weakrefType then pure []
    else scanPlainObject memory vt obj
  return ref ++ rest

def scanJuliaObject (runtime : Runtime) (memory : Memory) (fuel : Nat) (obj : Address) : Scan := do
  let vtag ← mmtkJlTypetagof memory obj
  if vtag = runtime.symbolType ∨ vtag = runtime.buffTag then
    return []
  else if vtag ∈ structTags then
    scanDatatype runtime memory (runtime.smallTypeof (vtag / 8).toNat) obj
  else if vtag < maxTags then
    if vtag = simplevectorTag then scanSimpleVector memory obj
    else if vtag = moduleTag then scanModule runtime memory obj
    else if vtag = taskTag then scanTask runtime memory fuel obj
    else return []
  else
    checkDatatype memory vtag
    scanDatatype runtime memory vtag obj

/-- A runtime whose helpers look at the header of a memory only. -/
def sampleRuntime : Runtime where
  juliaCopyStack := true
  headerSize := 8
  buffTag := 0x4eade800
  symbolType := 0x400
  weakrefType := 0x500
  taskType := 0x600
  arrayTypename := 0x700
  genericmemoryTypename := 0x800
  smallTypeof := fun _ => 0
  isManaged := fun address => decide (0x10000 ≤ address)
  genericmemoryHow := fun memory m =>
    if memory.load (m + 8) 8 = some (m + 16) then 0
    else if memory.load (m + 16) 8 = some m then 1
    else if memory.load (m + 16) 8 = some 0 then 2
    else 3
  ownerAddress := fun m => m + 16
  stackbase := fun _ => 0xa000
  scanJuliaExcObj := fun _ _ => []
  updateInlinedArray := fun memory source copy =>
    if memory.load (source + 8) 8 = some (source + 16) then
      @Memory.store memory (copy + 8) 8 (copy + 16)
    else memory

end MmtkJulia.Scanning
