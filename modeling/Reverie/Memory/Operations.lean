/-
  The operations on the page tables of a guest memory (`memory.rs`).  An operation returns its
  result and the memory it leaves; the loops over pages are folds of one definition per body.
-/
import Reverie.Memory.AddressSpace

namespace Reverie.Memory
open Words (checkedAdd)

/-- The errors of the operations, with the texts of the source. -/
inductive Error where
  | invalidGuestAddress (address length guestBase guestEnd : ℕ)
  | guestMemoryAccessDenied (address length : ℕ)
  | sharedFileCapability (operation reason : String)
  /-- an `expect` that failed -/
  | expected (message : String)
  deriving DecidableEq

/-- `first..=last`. -/
def pageRange (first last : ℕ) : List ℕ := List.range' first (last + 1 - first)

theorem mem_pageRange {first last q : ℕ} : q ∈ pageRange first last ↔ first ≤ q ∧ q ≤ last := by
  rw [pageRange, List.mem_range'_1]
  omega

theorem nodup_pageRange {first last : ℕ} : (pageRange first last).Nodup := List.nodup_range'

namespace GuestMemory

def checkedOffset (m : GuestMemory) (address length : ℕ) : Except Error ℕ :=
  if m.guestBase ≤ address ∧ address - m.guestBase + length ≤ m.slice.length then
    .ok (address - m.guestBase)
  else .error (.invalidGuestAddress address length m.guestBase m.guestEnd)

/-- The first and the last page of a range, `none` for an empty one. -/
def checkedPageRange (m : GuestMemory) (address length : ℕ) : Except Error (Option (ℕ × ℕ)) :=
  if length = 0 then .ok none
  else
    match m.checkedOffset address length with
    | .error e => .error e
    | .ok _ => .ok (some (address / pageSize, (address + length - 1) / pageSize))

/-- `range_contains_retained_shared`; the end of the range saturates. -/
def rangeContainsRetainedShared (m : GuestMemory) (address length : ℕ) : Bool :=
  if length = 0 then false
  else
    (pageRange (address / pageSize) (min (address + (length - 1)) (2 ^ 64 - 1) / pageSize)).any
      fun page => (m.backingPages page).any fun installed => installed.slice.backing.kind.retainedShared

/-- Whether a page of the range is of a file the guest may not write. -/
def holdsReadOnlyFile (m : GuestMemory) (first last : ℕ) : Bool :=
  (pageRange first last).any fun page =>
    (m.backingPages page).any fun installed =>
      installed.slice.backing.kind = .ordinaryFile false

end GuestMemory

namespace Access

/-! ## Mapping and protection -/

def setUserPage (state : Option UserPageState → UserPageState) (a : Access) (page : ℕ) : Access :=
  let b := a.insertPage page (state (a.pages.get page))
  b.setReservation page (some ((b.reservations.inner page).getD .user))

variable (a : Access)

variable (address length : ℕ)

def setUserPages (writable : Bool)
    (state : Option UserPageState → UserPageState) : Except Error Unit × Access :=
  match a.checkedPageRange address length with
  | .error e => (.error e, a)
  | .ok none => (.ok (), a)
  | .ok (some (first, last)) =>
    if writable && a.holdsReadOnlyFile first last then
      (.error (.guestMemoryAccessDenied address length), a)
    else (.ok (), (pageRange first last).foldl (setUserPage state) a)

def mapUserPermissions (accessible writable : Bool) : Except Error Unit × Access :=
  a.setUserPages address length writable fun _ => .undeclared accessible writable

def mapUserRange (noAccess : Bool) : Except Error Unit × Access :=
  a.mapUserPermissions address length (!noAccess) (!noAccess)

def mapUserProtection (prot : BitVec 8) : Except Error Unit × Access :=
  a.setUserPages address length (prot &&& protWrite != 0) fun _ => .of { prot := prot }

/-- The state `mprotect` gives a page: the flags stay, and so does a guard. -/
def protectedState (prot : BitVec 8) (old : Option UserPageState) : UserPageState :=
  let new := match old.bind UserPageState.declared with
    | some declared => UserPageState.of { declared with prot := prot }
    | none => .undeclared (prot != 0) (prot &&& protWrite != 0)
  match old with
  | some old => old.keepingGuard new
  | none => new

def protectUserRange (prot : BitVec 8) : Except Error Unit × Access :=
  a.setUserPages address length (prot &&& protWrite != 0) (protectedState prot)

variable (page : ℕ)

/-- The loop body of `guard_physical_pages`. -/
def guardPhysicalPage : Access :=
  match a.pages.get page with
  | some state => a.insertPage page state.guarded
  | none => a

def guardPhysicalPages (pages : List ℕ) : Access := pages.foldl guardPhysicalPage a

/-! ## Reservations -/

def isPermanent : Bool := (a.reservations.inner page).any RegionKind.permanent

/-- What a pending reservation keeps: the reservations it replaced. -/
abbrev Replaced := List (ℕ × Option RegionKind)

def reservePage (kind : RegionKind) (preserveSupervisor : Bool) (s : Replaced × Access)
    (page : ℕ) : Replaced × Access :=
  if preserveSupervisor && s.2.isPermanent page then s
  else (s.1 ++ [(page, s.2.reservations.inner page)], s.2.setReservation page (some kind))

def reserveRegionInner (kind : RegionKind)
    (preserveSupervisor : Bool) : Except Error Replaced × Access :=
  match a.checkedPageRange address length with
  | .error e => (.error e, a)
  | .ok none => (.ok [], a)
  | .ok (some (first, last)) =>
    if !preserveSupervisor && !kind.permanent && (pageRange first last).any a.isPermanent then
      (.error (.guestMemoryAccessDenied address length), a)
    else
      let reserved := (pageRange first last).foldl (reservePage kind preserveSupervisor) ([], a)
      (.ok reserved.1, reserved.2)

def reserveRegion (kind : RegionKind) : Except Error Replaced × Access :=
  a.reserveRegionInner address length kind false

/-- The drop of a pending reservation that was not committed. -/
def dropReservation (old : Replaced) : Access :=
  old.foldl (fun a entry => a.setReservation entry.1 entry.2) a

/-! ## Unmapping and recording -/

/-- What `unmap_user_range` and `remap_user_range` do to a page that goes. -/
def unmapPage : Access :=
  let b := (((a.removePage page).setFileOffset page none).setSharedAnonymous page
    false).setMappingIncarnation page none
  if b.isPermanent page then b else b.setReservation page none

/-- The refusal to unmap a page that other address spaces may share. -/
def metadataOnlyUnmap : Error :=
  .sharedFileCapability "metadata-only unmap"
    "ordinary-file and shared anonymous backing require physical private replacement"

def unmapUserRange : Except Error Unit × Access :=
  if a.rangeContainsRetainedShared address length then (.error metadataOnlyUnmap, a)
  else
    match a.checkedPageRange address length with
    | .error e => (.error e, a)
    | .ok none => (.ok (), a)
    | .ok (some (first, last)) => (.ok (), (pageRange first last).foldl unmapPage a)

/-- The first loop of `record_mapping`. -/
def recordPage (first : ℕ) (offset : Option ℕ) (shared : Bool) (a : Access) (index : ℕ) : Access :=
  (a.setFileOffset (first + index) (offset.bind fun o => checkedAdd o (index * pageSize)))
    |>.setSharedAnonymous (first + index) shared

/-- The second loop of `record_mapping`. -/
def recordIncarnation (first incarnation : ℕ) (a : Access) (index : ℕ) : Access :=
  a.setMappingIncarnation (first + index) (some incarnation)

def recordMapping (first pages : ℕ) (offset : Option ℕ) (shared : Bool) : Access :=
  let b := (List.range pages).foldl (recordPage first offset shared) a
  (List.range pages).foldl (recordIncarnation first b.nextIncarnation)
    { b with nextIncarnation := b.nextIncarnation + 1 }

def recordPageBacking (offset : Option ℕ) (shared : Bool) : Access :=
  match a.checkedPageRange address length with
  | .ok (some (first, last)) => a.recordMapping first (last - first + 1) offset shared
  | _ => a

/-! ## Moving -/

/-- What `remap_user_range` captures of the old pages before it changes anything. -/
structure Captured where
  states : List (Option UserPageState)
  kinds : List RegionKind
  offsets : List (Option ℕ)
  shared : List Bool
  incarnations : List (Option ℕ)

def capture (first last : ℕ) : Captured where
  states := (pageRange first last).map a.pages.get
  kinds := (pageRange first last).map fun page => (a.reservations.inner page).getD .user
  offsets := (pageRange first last).map a.filePages.inner
  shared := (pageRange first last).map a.sharedAnonymousPages.inner
  incarnations := (pageRange first last).map a.mappingIncarnations

/-- The file offset of the page at `index` of the new range: a grown mapping
    continues its file past the last page. -/
def Captured.offset (old : Captured) (index : ℕ) : Option ℕ :=
  match old.offsets[index]? with
  | some offset => offset
  | none =>
    old.offsets.getLast?.join.bind fun last =>
      checkedAdd last ((index + 1 - old.offsets.length) * pageSize)

/-- The reservation of the page at `index`: that of the old page, but a permanent
    one stays where it is. -/
def Captured.kind (old : Captured) (index : ℕ) : RegionKind :=
  let kind := (old.kinds[index]?).getD (old.kinds.getLast?.getD .user)
  if kind.permanent then .mmap else kind

/-- The loop body of `remap_user_range` for the new page at `index`. -/
def placePage (old : Captured) (extension : UserPageState) (grown : Option ℕ) (a : Access)
    (entry : ℕ × ℕ) : Access :=
  let (page, index) := entry
  let b := ((a.insertPage page (old.states[index]?.join.getD extension)).setFileOffset page
    (old.offset index)).setSharedAnonymous page
      ((old.shared[index]?.or old.shared.getLast?).getD false)
  let c := b.setMappingIncarnation page ((old.incarnations[index]?).getD grown)
  if c.isPermanent page then c else c.setReservation page (some (old.kind index))

/-- The changes of `remap_user_range`, once everything is checked. -/
def movePages (oldFirst oldLast newFirst newLast : ℕ) (extension : UserPageState) : Access :=
  let old := a.capture oldFirst oldLast
  let grows : Bool := newLast - newFirst > oldLast - oldFirst
  let grown := if grows then some a.nextIncarnation else none
  let b := { a with nextIncarnation := if grows then a.nextIncarnation + 1 else a.nextIncarnation }
  (pageRange newFirst newLast).zipIdx.foldl (placePage old extension grown)
    ((pageRange oldFirst oldLast).foldl unmapPage b)

/-- The refusal to move a page that other address spaces may share. -/
def memoryRemap : Error :=
  .sharedFileCapability "memory remap"
    "ordinary-file or fork-shared anonymous source or destination is not supported by the private-copy remapper"

def remapUserRange (oldAddress oldLength newAddress newLength : ℕ) : Except Error Unit × Access :=
  if a.rangeContainsRetainedShared oldAddress oldLength ||
      a.rangeContainsRetainedShared newAddress newLength then (.error memoryRemap, a)
  else
    match a.checkedPageRange oldAddress oldLength with
    | .error e => (.error e, a)
    | .ok none => (.ok (), a)
    | .ok (some (oldFirst, oldLast)) =>
      match a.checkedPageRange newAddress newLength with
      | .error e => (.error e, a)
      | .ok none => (.ok (), a)
      | .ok (some (newFirst, newLast)) =>
        let old := a.capture oldFirst oldLast
        if old.states.any Option.isNone then
          (.error (.guestMemoryAccessDenied oldAddress oldLength), a)
        else
          match old.states.getLast?.join with
          | none => (.error (.expected "nonempty mapped range has a last page"), a)
          | some last =>
            (.ok (), a.movePages oldFirst oldLast newFirst newLast last.unguarded)

/-! ## Tool scratch -/

/-- The loop body of `expose_tool_scratch`. -/
def exposePage : Access :=
  if a.scratchCacheHolds page then a.exposeScratch page true
  else
    let b := if a.reservations.inner page = some .toolScratch then a
      else a.setReservation page (some .toolScratch)
    (b.exposeScratch page false).keepScratchCache a.scratchCacheValid

def exposeToolScratch : Except Error Unit × Access :=
  match a.checkedPageRange address length with
  | .error e => (.error e, a)
  | .ok none => (.ok (), a)
  | .ok (some (first, last)) =>
    if a.holdsReadOnlyFile first last then (.error (.guestMemoryAccessDenied address length), a)
    else (.ok (), (pageRange first last).foldl exposePage a)

/-! `hide_tool_scratch` edits a table only where that changes it. -/

def dropFileOffset : Access :=
  if (a.filePages.inner page).isSome then a.setFileOffset page none else a

def dropSharedAnonymous : Access :=
  if a.sharedAnonymousPages.inner page then a.setSharedAnonymous page false else a

def releaseReservation : Access :=
  if (a.reservations.inner page).any (fun kind => !kind.permanent) then a.setReservation page none
  else a

/-- The edits `hide_tool_scratch` makes to a page the cache does not name. -/
def hideEdits : Access :=
  (((a.hideScratch page false).dropFileOffset page).dropSharedAnonymous page).releaseReservation page

/-- The loop body of `hide_tool_scratch`. -/
def hidePage : Access :=
  if a.scratchCacheHolds page then a.hideScratch page true
  else
    let b := (a.hideEdits page).keepScratchCache a.scratchCacheValid
    if b.reservations.inner page = some .toolScratch then b.noteScratch page else b

def hideToolScratch : Except Error Unit × Access :=
  if a.rangeContainsRetainedShared address length then (.error metadataOnlyUnmap, a)
  else
    match a.checkedPageRange address length with
    | .error e => (.error e, a)
    | .ok none => (.ok (), a)
    | .ok (some (first, last)) => (.ok (), (pageRange first last).foldl hidePage a)

end Access

end Reverie.Memory
