/-
  The reusable heap for code that runs a Tool inside the guest (`guest/alloc.rs`).  A block has
  a header of two words (its span and the link of the free list).  Both loops follow links in
  memory: they get as many rounds as the arena has bytes, and `none` says they were too few.
-/
import Reverie.Lib.Words

namespace Reverie.ToolHeap

open Words

/-! ## Arithmetic -/

def alignUp (value alignment : ℕ) : Option ℕ :=
  (checkedAdd value (alignment - 1)).map (· &&& not64 (alignment - 1))

/-! ## The heap -/

/-- `size_of::<ToolHeapBlock>()`. -/
def HEADER : ℕ := 16

/-- `size_of::<usize>()`, also the alignment of a `ToolHeapBlock`. -/
def WORD : ℕ := 8

def FREE_LIST_END : ℕ := 0

/-- `(HEADER + WORD + 1).next_multiple_of(8)`. -/
def MIN_FREE_SPAN : ℕ := 32

/-- A size and an alignment. -/
structure Layout where
  size : ℕ
  align : ℕ
  align_pow : ∃ k, align = 2 ^ k

/-- Where the arena is: `ToolHeapSpan` without its scalars. -/
structure Arena where
  base : ℕ
  bytes : ℕ
  aligned : WORD ∣ base
  fits : base + bytes < 2 ^ 64

/-- The arena's words, by their offsets, with the scalars of `ToolHeapMetadata`. -/
structure Heap where
  mem : ℕ → ℕ
  next : ℕ
  freeHead : ℕ

def Heap.fresh (mem : ℕ → ℕ) : Heap := ⟨mem, 0, FREE_LIST_END⟩

def Heap.span (h : Heap) (offset : ℕ) : ℕ := h.mem offset

def Heap.link (h : Heap) (offset : ℕ) : ℕ := h.mem (offset + WORD)

def Heap.write (h : Heap) (offset value : ℕ) : Heap :=
  { h with mem := Function.update h.mem offset value }

def Heap.setSpan (h : Heap) (offset value : ℕ) : Heap := h.write offset value

def Heap.setLink (h : Heap) (offset value : ℕ) : Heap := h.write (offset + WORD) value

/-- The link to what comes after `previous`: the list's head, or that of a block. -/
def Heap.relink (h : Heap) (previous value : ℕ) : Heap :=
  if previous = FREE_LIST_END then { h with freeHead := value } else h.setLink previous value

variable (a : Arena)

/-- `layout_end`: the payload's address, and where its block ends. -/
def layoutEnd (blockOffset : ℕ) (layout : Layout) : Option (ℕ × ℕ) := do
  let blockAddress ← checkedAdd a.base blockOffset
  let headerEnd ← checkedAdd blockAddress HEADER
  let payloadStart ← checkedAdd headerEnd WORD
  let payloadAddress ← alignUp payloadStart (max layout.align WORD)
  let payloadEnd ← checkedAdd payloadAddress (max layout.size 1)
  let blockEnd ← alignUp (payloadEnd - a.base) WORD
  pure (payloadAddress, blockEnd)

def backPointer (pointer : ℕ) : ℕ := pointer - WORD - a.base

/-- Whether the layout fits into the free block: the payload, where its block would
    end, and where the free block ends. -/
def fits (h : Heap) (current : ℕ) (layout : Layout) : Option (ℕ × ℕ × ℕ) :=
  (checkedAdd current (h.span current)).bind fun blockEnd =>
    ((layoutEnd a current layout).filter fun (_, stop) => stop ≤ blockEnd).map
      fun (pointer, stop) => (pointer, stop, blockEnd)

/-- Write the header of the remainder, and shorten the block. -/
def Heap.cut (h : Heap) (current stop blockEnd : ℕ) : Heap :=
  ((h.setSpan stop (blockEnd - stop)).setLink stop (h.link current)).setSpan current (stop - current)

/-- Take the block out of the free list; if it is long enough, its remainder takes
    its place there. -/
def take (h : Heap) (previous current pointer stop blockEnd : ℕ) : Heap :=
  if blockEnd - stop ≥ MIN_FREE_SPAN then
    ((h.cut current stop blockEnd).relink previous stop).write (backPointer a pointer) current
  else (h.relink previous (h.link current)).write (backPointer a pointer) current

/-- The loop of `allocate`: the first free block that fits. -/
def allocateFree (layout : Layout) (h : Heap) : ℕ → ℕ → ℕ → Option (Option (ℕ × Heap))
  | 0, _, _ => none
  | fuel + 1, previous, current =>
    if current = FREE_LIST_END then some none
    else
      match fits a h current layout with
      | some (pointer, stop, blockEnd) =>
        some (some (pointer, take a h previous current pointer stop blockEnd))
      | none => allocateFree layout h fuel current (h.link current)

/-- The end of `allocate`: fresh memory, or a null pointer. -/
def allocateFresh (layout : Layout) (h : Heap) : ℕ × Heap :=
  match alignUp (max h.next 1) WORD with
  | none => (0, h)
  | some blockOffset =>
    match layoutEnd a blockOffset layout with
    | none => (0, h)
    | some (pointer, stop) =>
      if stop > a.bytes then (0, h)
      else
        let h := (h.setSpan blockOffset (stop - blockOffset)).setLink blockOffset FREE_LIST_END
        (pointer, { h.write (backPointer a pointer) blockOffset with next := stop })

/-- `ToolHeapSpan::allocate`; the null pointer is 0. -/
def allocate (layout : Layout) (h : Heap) : Option (ℕ × Heap) := do
  match ← allocateFree a layout h (a.bytes + 1) FREE_LIST_END h.freeHead with
  | some result => pure result
  | none => pure (allocateFresh a layout h)

/-- The loop of `deallocate`: the free blocks around the offset. -/
def neighbors (h : Heap) (blockOffset : ℕ) : ℕ → ℕ → ℕ → Option (ℕ × ℕ)
  | 0, _, _ => none
  | fuel + 1, previous, next =>
    if next ≠ FREE_LIST_END ∧ next < blockOffset
    then neighbors h blockOffset fuel next (h.link next)
    else some (previous, next)

/-- Join the free block with the one after it, if they touch; `link` is its new
    link. -/
def join (h : Heap) (offset successor link : ℕ) : Option Heap :=
  if checkedAdd offset (h.span offset) = some successor then
    (checkedAdd (h.span offset) (h.span successor)).map fun span =>
      (h.setSpan offset span).setLink offset link
  else none

/-- Join the freed block with the free block before it; the block that it is in
    now. -/
def joinPrevious (h : Heap) (previous blockOffset next : ℕ) : Heap × ℕ :=
  if previous = FREE_LIST_END then (h, blockOffset)
  else
    match join h previous blockOffset next with
    | some h => (h, previous)
    | none => (h, blockOffset)

/-- Join the block with the free block after it. -/
def joinNext (h : Heap) (merged next : ℕ) : Heap :=
  if next = FREE_LIST_END then h else (join h merged next (h.link next)).getD h

def deallocate (pointer : ℕ) (h : Heap) : Option Heap := do
  let blockOffset := h.mem (backPointer a pointer)
  let (previous, next) ← neighbors h blockOffset (a.bytes + 1) FREE_LIST_END h.freeHead
  let h := (h.setLink blockOffset next).relink previous blockOffset
  let (h, merged) := joinPrevious h previous blockOffset next
  pure (joinNext h merged next)

/-! ## Sequences of operations -/

/-- A live allocation. -/
structure Allocation where
  pointer : ℕ
  layout : Layout

/-- The heap with the allocations that are live. -/
structure State where
  heap : Heap
  live : List Allocation

/-- What the tool does with its heap. -/
inductive Op where
  | allocate (layout : Layout)
  /-- free the n-th live allocation -/
  | deallocate (index : ℕ)
  /-- write a word of the payload of the n-th live allocation -/
  | store (index word value : ℕ)

/-- What an operation does, if no loop runs on. -/
def Op.run (s : State) : Op → Option State
  | .allocate layout => do
    let (pointer, heap) ← ToolHeap.allocate a layout s.heap
    pure ⟨heap, if pointer = 0 then s.live else ⟨pointer, layout⟩ :: s.live⟩
  | .deallocate index =>
    match s.live[index]? with
    | none => some s
    | some x => do
      let heap ← ToolHeap.deallocate a x.pointer s.heap
      pure ⟨heap, s.live.eraseIdx index⟩
  | .store index word value =>
    match s.live[index]? with
    | none => some s
    | some x =>
      if word * WORD < max x.layout.size 1
      then some { s with heap := s.heap.write (x.pointer - a.base + word * WORD) value }
      else some s

def run (s : State) (ops : List Op) : Option State := ops.foldlM (Op.run a) s

end Reverie.ToolHeap
