/-
  The write-back of a vfork child's changes (`memory/vfork.rs`): when the window ends, what
  the child changed in private memory goes back to the parent, by pages that differ from the
  parent's, or by bytes that differ from a baseline's.

  The parent's memory is the state of the operations here: its bytes by address.  Its
  tables do not change meanwhile, since its allocation guard is held, and the copies of bytes
  never fail inside the arena.
-/
import Reverie.Lib.Intervals
import Reverie.Lib.Outcome
import Reverie.Memory.AddressSpace

namespace Reverie.Vfork

open Memory

/-! ## Images -/

/-- The errors of a seek. -/
inductive Errno where
  | enxio
  | other

/-- The bytes of a base backing, and what `lseek` answers about its extents.  It does not
    skip data, so all that it skips reads as zero. -/
structure BaseFile where
  byte : ℕ → UInt8
  /-- `SEEK_DATA` -/
  seekData : ℕ → Except Errno ℕ
  /-- `SEEK_HOLE` -/
  seekHole : ℕ → Except Errno ℕ
  seekData_ok : ∀ {cursor data}, seekData cursor = .ok data →
    cursor ≤ data ∧ ∀ offset, cursor ≤ offset → offset < data → byte offset = 0
  seekData_enxio : ∀ {cursor}, seekData cursor = .error .enxio →
    ∀ offset, cursor ≤ offset → byte offset = 0

/-- A memory with its bytes. -/
structure Image extends GuestMemory where
  execCount : ℕ
  /-- the base backing, by offset in its file -/
  base : BaseFile
  /-- the pages with a backing of their own, by page and offset in the page -/
  installed : ℕ → ℕ → UInt8
  /-- a page from which on the tables are empty -/
  bound : ℕ
  finite : ∀ page, bound ≤ page → pages.get page = none ∧ mappingIncarnations page = none ∧
    filePages.inner page = none ∧ sharedAnonymousPages.inner page = false

namespace Image

/-- The byte that a raw access at an address reaches. -/
def byteAt (m : Image) (address : ℕ) : UInt8 :=
  match m.backingPages (address / pageSize) with
  | some _ => m.installed (address / pageSize) (address % pageSize)
  | none => m.base.byte (address - m.guestBase + m.slice.offset)

/-- Whether a page's backing is retained and shared. -/
def retainedShared (m : Image) (page : ℕ) : Bool :=
  match m.backingPages page with
  | some installed => installed.slice.backing.kind.retainedShared
  | none => false

/-- Whether a page has a private backing of its own. -/
def privateBacking (m : Image) (page : ℕ) : Bool :=
  match m.backingPages page with
  | some installed => !installed.slice.backing.kind.retainedShared
  | none => false

end Image

/-- The copy as it was when the child started. -/
structure VforkBaseline where
  memory : Image
  /-- the generation of each installation in the parent when the copy was taken -/
  parentBacking : ℕ → Option ℕ

/-- What a vfork child's copy keeps of its parent. -/
structure VforkParent where
  memory : Image
  execCount : ℕ
  baseline : Option VforkBaseline

/-- What a write-back did. -/
structure VforkWriteBack where
  pagesCompared : ℕ
  bytesWritten : ℕ

/-- Why a write-back fails. -/
inductive Error where
  | vforkChildCapability (operation reason : String)
  | invalidGuestAddress (address length guestBase guestEnd : ℕ)
  /-- a range of a map that ends before it starts -/
  | panicked

def runPages : ℕ := 256

/-- An operation on the parent's bytes. -/
abbrev Write := EStateM Error (ℕ → UInt8)

open Outcome (refuse)

/-! ## Candidates -/

def divCeil (a b : ℕ) : ℕ := (a + b - 1) / b

/-- The extents of `[cursor, limit)`, `none` if they cannot be read. -/
def dataExtents (file : BaseFile) (limit cursor : ℕ) : Option (List (ℕ × ℕ)) :=
  if cursor < limit then
    match _hdata : file.seekData cursor with
    | .error .enxio => some []
    | .error .other => none
    | .ok data =>
      if limit ≤ data then some []
      else match file.seekHole data with
        | .error _ => none
        | .ok hole =>
          if hole ≤ data then none
          else (dataExtents file limit (min hole limit)).map ((data, min hole limit) :: ·)
  else some []
termination_by limit - cursor
decreasing_by
  have := (file.seekData_ok _hdata).1
  omega

namespace Image

def toOffset (m : Image) (page : ℕ) : ℕ := page * pageSize - m.guestBase + m.slice.offset

def toAddress (m : Image) (offset : ℕ) : ℕ := offset - m.slice.offset + m.guestBase

/-- The pages of `[first, end)` in a data extent of the base backing, as ranges; every
    page if the extents cannot be read. -/
def baseDataPages (m : Image) (first last : ℕ) : List (ℕ × ℕ) :=
  match dataExtents m.base (m.toOffset last) (m.toOffset first) with
  | none => [(first, last)]
  | some extents => extents.map fun extent =>
      (m.toAddress extent.1 / pageSize, divCeil (m.toAddress extent.2) pageSize)

/-- The pages of `[first, last)` with a private backing of their own. -/
def privateBackingPages (m : Image) (first last : ℕ) : List (ℕ × ℕ) :=
  ((List.range' first (last - first)).filter m.privateBacking).map fun page => (page, page + 1)

/-- The pages of the ranges that the memory maps; all of them before user access is
    enabled. -/
def mappedPagesAmong (m : Image) (ranges : List (ℕ × ℕ)) : List ℕ :=
  if m.enabled = false then Intervals.elements (fun _ => true) ranges
  else Intervals.elements (fun page => (m.pages.get page).isSome) ranges

/-- Whether a memory maps every page from `first` on as `reference` does. -/
def mapsUserPagesAs (m reference : Image) (first : ℕ) : Bool :=
  let pages := List.range' first (max m.bound reference.bound - first)
  pages.all (fun page => m.pages.get page = reference.pages.get page) &&
    pages.all (fun page => m.mappingIncarnations page = reference.mappingIncarnations page) &&
    pages.all (fun page => m.filePages.inner page = reference.filePages.inner page) &&
    pages.all fun page =>
      m.sharedAnonymousPages.inner page = reference.sharedAnonymousPages.inner page

end Image

/-- Sorts and merges page ranges, joining those that overlap or touch. -/
def mergePageRanges (ranges : List (ℕ × ℕ)) : List (ℕ × ℕ) :=
  Intervals.join (ranges.mergeSort fun r s => r.1 < s.1 || (r.1 == s.1 && r.2 ≤ s.2))

/-! ## Copies of bytes -/

namespace Image

/-- The refusal of `checked_offset`. -/
def checkedOffset (m : Image) (address length : ℕ) : Write Unit :=
  refuse (address < m.guestBase ∨ m.slice.length < address - m.guestBase + length)
    (.invalidGuestAddress address length m.guestBase m.guestEnd)

/-- `read_raw` of a memory that does not change; the buffer by its index. -/
def readRaw (m : Image) (address length : ℕ) : Write (ℕ → UInt8) := do
  m.checkedOffset address length
  pure fun index => m.byteAt (address + index)

/-- `read_raw` of the parent. -/
def readParent (parent : Image) (address length : ℕ) : Write (ℕ → UInt8) := do
  parent.checkedOffset address length
  let bytes ← get
  pure fun index => bytes (address + index)

/-- `write_raw` of the parent. -/
def writeParent (parent : Image) (address length : ℕ) (source : ℕ → UInt8) : Write Unit := do
  parent.checkedOffset address length
  modify fun bytes a =>
    if address ≤ a ∧ a < address + length then source (a - address) else bytes a

end Image

/-- Whether page `index` of two buffers differs. -/
def pageDiffers (a b : ℕ → UInt8) (index : ℕ) : Bool :=
  (List.range' (index * pageSize) pageSize).any fun byte => a byte != b byte

/-! ## Without a baseline -/

/-- One page of `write_back_run`: opens a run of differing pages, or writes one that
    ended. -/
def writeBackPage (parent : Image) (address pages : ℕ) (child current : ℕ → UInt8)
    (done : ℕ × Option ℕ) (index : ℕ) : Write (ℕ × Option ℕ) :=
  let differs := decide (index < pages) && pageDiffers child current index
  match differs, done.2 with
  | true, none => pure (done.1, some index)
  | false, some start => do
    parent.writeParent (address + start * pageSize) ((index - start) * pageSize)
      fun byte => child (start * pageSize + byte)
    pure (done.1 + (index - start) * pageSize, none)
  | _, _ => pure done

/-- Writes the pages of `[first, last)` that differ into the parent. -/
def writeBackRun (child parent : Image) (first last : ℕ) : Write ℕ := do
  let length := (last - first) * pageSize
  let address := first * pageSize
  let mine ← child.readRaw address length
  let current ← parent.readParent address length
  let done ← (List.range (last - first + 1)).foldlM
    (writeBackPage parent address (last - first) mine current) (0, none)
  pure done.1

/-! ## With a baseline -/

/-- Refuses a changed page whose mapping another thread of the parent removed or
    replaced. -/
def checkVforkPageUnchanged (parent : Image) (page : ℕ) (baseline : VforkBaseline) : Write Unit :=
  refuse ((parent.pages.get page).isNone ∨
      parent.mappingIncarnations page ≠ baseline.memory.mappingIncarnations page ∨
      (parent.backingPages page).map (·.generation) ≠ baseline.parentBacking page)
    (.vforkChildCapability "vfork write-back"
      "another thread of the parent removed or replaced the mapping of a page the vfork child changed during the window")

/-- What a copy cannot order in page `index` of a run. -/
def checkPage (parent : Image) (baseline : VforkBaseline) (first : ℕ)
    (child start current : ℕ → UInt8) (index : ℕ) : Write Unit :=
  if pageDiffers child start index then do
    checkVforkPageUnchanged parent (first + index) baseline
    refuse ((List.range' (index * pageSize) pageSize).any fun byte =>
        child byte != start byte && current byte != start byte && current byte != child byte)
      (.vforkChildCapability "vfork write-back"
        "the vfork child and another thread of its parent changed the same bytes during the window, which a copy cannot order")
  else pure ()

/-- The first byte from `byte` on that is not `changed`. -/
def runEnd (changed : ℕ → Bool) (length byte : ℕ) : ℕ :=
  if byte < length ∧ changed byte = true then runEnd changed length (byte + 1) else byte
termination_by length - byte

theorem le_runEnd (changed : ℕ → Bool) (length byte : ℕ) : byte ≤ runEnd changed length byte := by
  fun_induction runEnd changed length byte with
  | case1 byte h ih => exact Nat.le_of_succ_le ih
  | case2 byte h => exact le_rfl

/-- Writes each run of changed bytes. -/
def mergeBytes (parent : Image) (address length : ℕ) (child : ℕ → UInt8) (changed : ℕ → Bool)
    (byte written : ℕ) : Write ℕ :=
  if byte < length then
    if changed byte = false then
      mergeBytes parent address length child changed (byte + 1) written
    else do
      -- the byte itself is changed, so the run ends after it
      let stop := runEnd changed length (byte + 1)
      parent.writeParent (address + byte) (stop - byte) fun index => child (byte + index)
      mergeBytes parent address length child changed stop (written + (stop - byte))
  else pure written
termination_by length - byte
decreasing_by
  · omega
  · have := le_runEnd changed length (byte + 1)
    omega

/-- Writes the bytes of `[first, last)` that the child changed into the parent. -/
def mergeBackRun (child parent : Image) (baseline : VforkBaseline) (first last : ℕ) : Write ℕ := do
  let length := (last - first) * pageSize
  let address := first * pageSize
  let mine ← child.readRaw address length
  let start ← baseline.memory.readRaw address length
  if (List.range length).all fun byte => mine byte == start byte then pure 0
  else do
    let current ← parent.readParent address length
    (List.range (last - first)).forM (checkPage parent baseline first mine start current)
    mergeBytes parent address length mine
      (fun byte => mine byte != start byte && mine byte != current byte) 0 0

/-! ## The write-back -/

variable (child : Image)

def firstPage (userStart : ℕ) : ℕ :=
  divCeil (max userStart child.guestBase) pageSize

def endPage : ℕ := child.guestEnd / pageSize

variable (link : VforkParent)

def VforkParent.reference : Image :=
  match link.baseline with
  | some baseline => baseline.memory
  | none => link.memory

/-- The ranges of pages that can differ. -/
def candidates (first last : ℕ) : List (ℕ × ℕ) :=
  child.baseDataPages first last ++ child.privateBackingPages first last ++
    match link.baseline with
    | none => link.memory.baseDataPages first last ++ link.memory.privateBackingPages first last
    | some baseline => baseline.memory.baseDataPages first last

def comparedPages (first last : ℕ) : List ℕ :=
  (child.mappedPagesAmong (mergePageRanges (candidates child link first last))).filter
    fun page => !(child.retainedShared page || link.memory.retainedShared page)

def writeBackOne (run : ℕ × ℕ) : Write ℕ :=
  match link.baseline with
  | none => writeBackRun child link.memory run.1 run.2
  | some baseline => mergeBackRun child link.memory baseline run.1 run.2

/-- The runs of the write-back, one after the other. -/
def writeBackRuns (child : Image) (link : VforkParent) :
    List (ℕ × ℕ) → VforkWriteBack → Write VforkWriteBack
  | [], result => pure result
  | run :: rest, result => do
    let written ← writeBackOne child link run
    writeBackRuns child link rest
      ⟨result.pagesCompared + (run.2 - run.1), result.bytesWritten + written⟩

/-- `write_back_to`; `none` when the parent exec'd since the copy was taken. -/
def writeBackTo (userStart : ℕ) : Write (Option VforkWriteBack) :=
  if link.memory.execCount ≠ link.execCount then pure none
  else do
    let first := firstPage child userStart
    let last := endPage child
    refuse (child.mapsUserPagesAs link.reference first = false)
      (.vforkChildCapability "vfork write-back"
        "the vfork child left a mapping changed (by mmap, munmap, mprotect or mremap) when its window ended, which on Linux would be its parent's too, and a copy carries back contents, not mappings")
    refuse (last < first) .panicked
    let pages := comparedPages child link first last
    let result ← writeBackRuns child link (Intervals.runs runPages pages) ⟨0, 0⟩
    pure (some result)

end Reverie.Vfork
