import MmtkJulia.Loop
import MmtkJulia.Word
import Mathlib.Logic.Function.Basic

/-! The finalizer lists of julia_finalizer.rs. An arraylist_t is the list of its words below
len: what lies between len and max is never read. The flag debug stands for
cfg(debug_assertions). -/

namespace MmtkJulia.Finalizer

/-- What stops a step: an index past len (asserted in a debug build, a read of unrelated memory
in a release build), a failed assertion, an ObjectReference made of zero, after which a release
build may do anything, or a loop bound that is too small. -/
inductive Fault where
  | index
  | zeroAddress
  | truncatedPair
  | undefined
  | stuck
  deriving DecidableEq, Repr

structure ArrayListT where
  items : List Usize
  deriving DecidableEq, Repr

namespace ArrayListT

def len (list : ArrayListT) : Nat := list.items.length

def get (list : ArrayListT) (i : Nat) : Except Fault Usize :=
  if inside : i < list.items.length then .ok list.items[i] else .error .index

def set (list : ArrayListT) (i : Nat) (val : Usize) : Except Fault ArrayListT :=
  if i < list.len then .ok ⟨list.items.set i val⟩ else .error .index

/-- arraylist_grow keeps the words and leaves the new ones to the caller to write. -/
def grow (list : ArrayListT) (n : Nat) : ArrayListT := ⟨list.items ++ List.replicate n 0⟩

def push (list : ArrayListT) (val : Usize) : Except Fault ArrayListT :=
  (list.grow 1).set ((list.grow 1).len - 1) val

end ArrayListT

def gcPtrClearTag (debug : Bool) (addr : Address) (tag : Usize) : Except Fault Address :=
  if debug ∧ addr &&& ~~~tag = 0 then .error .zeroAddress else .ok (addr &&& ~~~tag)

/-- The caller has to rule out zero: an ObjectReference is a NonZeroUsize. -/
def fromRawAddressUnchecked (addr : Address) : Except Fault Address :=
  if addr = 0 then .error .undefined else .ok addr

def gcPtrTag (addr : Address) (tag : Usize) : Bool := decide (addr &&& tag ≠ 0)

/-- The locals and the arguments of sweep_finalizer_list. -/
structure Sweep where
  list : ArrayListT
  toFinalize : ArrayListT
  marked : Option ArrayListT
  havePending : Int
  i : Nat
  j : Nat
  deriving DecidableEq, Repr

def Sweep.more (s : Sweep) : Bool := decide (s.i < s.list.len)

def pushPair (list : ArrayListT) (v0 fin : Usize) : Except Fault ArrayListT := do
  let list ← list.push v0
  list.push fin

/-- if j < i the pair at i is copied to j. -/
def keepPair (list : ArrayListT) (i j : Nat) : Except Fault ArrayListT := do
  if j < i then
    let list ← list.set j (← list.get i)
    list.set (j + 1) (← list.get (i + 1))
  else return list

def sweepBody (debug : Bool) (isLive : Address → Bool) (s : Sweep) : Except Fault Sweep := do
  let v0 ← s.list.get s.i
  -- the reference is made before v0 is tested
  let v ← fromRawAddressUnchecked (← gcPtrClearTag debug v0 3)
  if v0 = 0 then
    return { s with i := s.i + 2 }
  let fin ← s.list.get (s.i + 1)
  let isfreed := if gcPtrTag v0 2 then true else !isLive v
  let isold := if gcPtrTag v0 2 then false else s.marked.isSome && !isfreed
  let list ← if isfreed || isold then pure s.list else keepPair s.list s.i s.j
  let j := if isfreed || isold then s.j else s.j + 2
  let toFinalize ← if isfreed then pushPair s.toFinalize v0 fin else pure s.toFinalize
  let havePending := if isfreed then 1 else s.havePending
  let marked ← match s.marked with
    | some marked => if isold then some <$> pushPair marked v0 fin else pure (some marked)
    | none => pure none
  return { list, toFinalize, marked, havePending, i := s.i + 2, j }

/-- The swept list with len := j, to_finalize, finalizer_list_marked and the pending flag. -/
def sweepFinalizerList (debug : Bool) (isLive : Address → Bool) (list toFinalize : ArrayListT)
    (marked : Option ArrayListT) (havePending : Int) : Except Fault Sweep := do
  if list.len = 0 then
    return { list, toFinalize, marked, havePending, i := 0, j := 0 }
  let s ← whileLoop .stuck Sweep.more (sweepBody debug isLive) (list.len + 1)
    { list, toFinalize, marked, havePending, i := 0, j := 0 }
  return { s with list := ⟨s.list.items.take s.j⟩ }

structure Mark where
  list : ArrayListT
  i : Nat
  traced : List Address
  deriving DecidableEq, Repr

def Mark.more (s : Mark) : Bool := decide (s.i < s.list.len)

def markBody (debug : Bool) (traceObject : Address → ObjectReference) (s : Mark) :
    Except Fault Mark := do
  let cur ← s.list.get s.i
  let curI := s.i
  if cur = 0 then
    return { s with i := s.i + 1 }
  let (newObjAddr, curTag, i) ←
    if gcPtrTag cur 1 then
      -- the next word is a native function
      let i := s.i + 1
      if debug ∧ ¬ i < s.list.len then throw .truncatedPair
      pure (← gcPtrClearTag debug cur 1, 1, i)
    else pure (cur, 0, s.i)
  if gcPtrTag cur 2 then
    return { s with i := i + 1 }
  let newObj ← fromRawAddressUnchecked newObjAddr
  let traced := traceObject newObj
  let list ← s.list.set curI (traced.addr ||| curTag)
  return { list, i := i + 1, traced := s.traced ++ [newObj] }

def markFinlist (debug : Bool) (traceObject : Address → ObjectReference) (list : ArrayListT)
    (start : Nat) (traced : List Address) : Except Fault Mark := do
  if list.len ≤ start then
    return { list, i := start, traced }
  whileLoop .stuck Mark.more (markBody debug traceObject) (list.len + 1)
    { list, i := start, traced }

structure FinalizerLists (Thread : Type) where
  threadLocal : Thread → ArrayListT
  marked : ArrayListT
  toFinalize : ArrayListT
  havePending : Int

variable {Thread : Type} [DecidableEq Thread]

def sweepThread (debug : Bool) (isLive : Address → Bool) (lists : FinalizerLists Thread)
    (mutator : Thread) : Except Fault (FinalizerLists Thread) := do
  let s ← sweepFinalizerList debug isLive (lists.threadLocal mutator) lists.toFinalize
    (some lists.marked) lists.havePending
  return {
    threadLocal := Function.update lists.threadLocal mutator s.list
    marked := s.marked.getD lists.marked
    toFinalize := s.toFinalize
    havePending := s.havePending }

def sweepMarked (debug : Bool) (isLive : Address → Bool) (lists : FinalizerLists Thread) :
    Except Fault (FinalizerLists Thread) := do
  let s ← sweepFinalizerList debug isLive lists.marked lists.toFinalize none lists.havePending
  return { lists with marked := s.list, toFinalize := s.toFinalize, havePending := s.havePending }

def markThread (debug : Bool) (traceObject : Address → ObjectReference)
    (progress : FinalizerLists Thread × List Address) (mutator : Thread) :
    Except Fault (FinalizerLists Thread × List Address) := do
  let s ← markFinlist debug traceObject (progress.1.threadLocal mutator) 0 progress.2
  return ({ progress.1 with
    threadLocal := Function.update progress.1.threadLocal mutator s.list }, s.traced)

/-- scan_finalizers_in_rust: mutators is what the iterator of the active plan yields, isLive is
memory_manager::is_live_object. The second component is what the tracer was called with. -/
def scanFinalizersInRust (debug nursery : Bool) (isLive : Address → Bool)
    (traceObject : Address → ObjectReference) (mutators : List Thread)
    (lists : FinalizerLists Thread) : Except Fault (FinalizerLists Thread × List Address) := do
  let origMarkedLen := lists.marked.len
  let lists ← mutators.foldlM (sweepThread debug isLive) lists
  let lists ← if nursery then pure lists else sweepMarked debug isLive lists
  let origMarkedLen := if nursery then origMarkedLen else 0
  let (lists, traced) ← mutators.foldlM (markThread debug traceObject) (lists, [])
  let marked ← markFinlist debug traceObject lists.marked origMarkedLen traced
  let toFinalize ← markFinlist debug traceObject lists.toFinalize 0 marked.traced
  return ({ lists with marked := marked.list, toFinalize := toFinalize.list }, toFinalize.traced)

end MmtkJulia.Finalizer
