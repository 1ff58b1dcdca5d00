/-
  The address space of a guest memory (`memory.rs`, `page_maps.rs`): the tables it keeps by
  physical page, and the edits every operation is made of.

  * `Access.page`: what all the tables say about a page, as one record;
  * `Access.Valid`: the overlay names no key of the page tree, and a scratch cache whose
    versions are current tells the truth about its pages; each edit keeps it.
-/
import Reverie.Lib.Words

namespace Reverie.Memory
open Function

def pageSize : ℕ := 4096

/-! ## Pages -/

/-- What a physical page is reserved for. -/
inductive RegionKind where
  | bootstrap
  | elf
  | programHeaders
  | stack
  | heap
  | mmap
  | toolScratch
  | user
  deriving DecidableEq

def RegionKind.permanent : RegionKind → Bool
  | .bootstrap | .programHeaders | .toolScratch => true
  | .elf | .stack | .heap | .mmap | .user => false

/-- The mapping a provider declared for a page. -/
structure DeclaredMapping where
  prot : BitVec 8 := 0
  flags : BitVec 8 := 0
  lineage : BitVec 16 := 0
  deriving DecidableEq

def protWrite : BitVec 8 := 2

/-- A mapped page: its access, under the guard of a guard page, and the declared
    mapping it belongs to. -/
inductive UserPageState where
  | accessible (writable : Bool) (declared : Option DeclaredMapping)
  | noAccess (declared : Option DeclaredMapping)
  | guardPage (accessible writable : Bool) (declared : Option DeclaredMapping)
  deriving DecidableEq

namespace UserPageState

def undeclared (accessible writable : Bool) : UserPageState :=
  if accessible then .accessible writable none else .noAccess none

/-- A page of a mapping with the declared protection and flags. -/
def of (declared : DeclaredMapping) : UserPageState :=
  if declared.prot = 0 then .noAccess (some declared)
  else .accessible (declared.prot &&& protWrite != 0) (some declared)

def declared : UserPageState → Option DeclaredMapping
  | .accessible _ declared | .noAccess declared | .guardPage _ _ declared => declared

def isGuarded : UserPageState → Bool
  | .guardPage .. => true
  | _ => false

def guarded : UserPageState → UserPageState
  | .accessible writable declared => .guardPage true writable declared
  | .noAccess declared => .guardPage false false declared
  | .guardPage reach writable declared => .guardPage reach writable declared

def unguarded : UserPageState → UserPageState
  | .guardPage true writable declared => .accessible writable declared
  | .guardPage false _ declared => .noAccess declared
  | unguarded => unguarded

/-- A state the page's mapping now gives it, kept a guard page if the page is one. -/
def keepingGuard (old new : UserPageState) : UserPageState :=
  if old.isGuarded then new.unguarded.guarded else new

end UserPageState

/-- The state of every exposed scratch page. -/
def EXPOSED : UserPageState := .accessible true none

/-! ## The tables -/

/-- A collection with the version of its last edit. -/
structure Versioned (M : Type) where
  inner : M
  version : ℕ

/-- The map of page states: a tree, and an overlay of exposed scratch pages. -/
structure UserPages where
  map : Versioned (ℕ → Option UserPageState)
  scratch : Finset ℕ

def UserPages.get (pages : UserPages) (page : ℕ) : Option UserPageState :=
  if page ∈ pages.scratch then some EXPOSED else pages.map.inner page

/-- Facts about hidden scratch pages, as of the versions of the reservations, the
    page tree, the file offsets and the shared anonymous pages. -/
structure ScratchCache where
  versions : ℕ × ℕ × ℕ × ℕ
  pages : List ℕ

def ScratchCache.capacity : ℕ := 64

def ScratchCache.note (cache : ScratchCache) (page : ℕ) : ScratchCache :=
  if page ∉ cache.pages ∧ cache.pages.length < capacity then
    { cache with pages := cache.pages ++ [page] }
  else cache

/-- What a backing is for. -/
inductive BackingKind where
  | fixed
  | sharedAnonymous
  | ordinaryFile (maxWritable : Bool)
  deriving DecidableEq

def BackingKind.retainedShared : BackingKind → Bool
  | .fixed => false
  | .sharedAnonymous | .ordinaryFile _ => true

/-- A file behind guest memory. -/
structure Backing where
  fd : ℕ
  kind : BackingKind

/-- A part of a backing. -/
structure BackingSlice where
  backing : Backing
  offset : ℕ
  length : ℕ

/-- A page with a backing of its own. -/
structure InstalledBackingPage where
  generation : ℕ
  slice : BackingSlice

/-- Physical memory placed at user addresses of its own. -/
structure UserWindow where
  physicalStart : ℕ
  physicalEnd : ℕ
  userStart : ℕ
  userEnd : ℕ
  deriving DecidableEq

/-- The access state of a guest's memory. -/
structure AddressSpaceState where
  coverageStart : ℕ
  coverageEnd : ℕ
  windows : List UserWindow
  identityEnd : Option ℕ
  reservations : Versioned (ℕ → Option RegionKind)
  enabled : Bool
  pages : UserPages
  filePages : Versioned (ℕ → Option ℕ)
  sharedAnonymousPages : Versioned (ℕ → Bool)
  mappingIncarnations : ℕ → Option ℕ
  scratchCache : ScratchCache
  backingPages : ℕ → Option InstalledBackingPage

/-- A guest's memory. -/
structure GuestMemory extends AddressSpaceState where
  guestBase : ℕ
  slice : BackingSlice

def GuestMemory.guestEnd (m : GuestMemory) : ℕ := m.guestBase + m.slice.length

/-- A new memory of `length` bytes from `base` on, whose tables drew the versions
    from 1 on. -/
def GuestMemory.new (base length : ℕ) : GuestMemory where
  coverageStart := base
  coverageEnd := base + length
  windows := []
  identityEnd := none
  reservations := ⟨fun _ => none, 1⟩
  enabled := false
  pages := ⟨⟨fun _ => none, 2⟩, ∅⟩
  filePages := ⟨fun _ => none, 3⟩
  sharedAnonymousPages := ⟨fun _ => false, 4⟩
  mappingIncarnations := fun _ => none
  scratchCache := ⟨(0, 0, 0, 0), []⟩
  backingPages := fun _ => none
  guestBase := base
  slice := ⟨⟨0, .fixed⟩, 0, length⟩

/-- A memory under its lock, with the counters of the process. -/
structure Access extends GuestMemory where
  /-- `NEXT_VERSION` -/
  nextVersion : ℕ
  /-- `NEXT_MAPPING_INCARNATION` -/
  nextIncarnation : ℕ

namespace Access

/-! ## Edits -/

variable (a : Access)

variable (page : ℕ)

def setReservation (kind : Option RegionKind) : Access :=
  { a with
    reservations := ⟨update a.reservations.inner page kind, a.nextVersion⟩
    nextVersion := a.nextVersion + 1 }

def setFileOffset (offset : Option ℕ) : Access :=
  { a with
    filePages := ⟨update a.filePages.inner page offset, a.nextVersion⟩
    nextVersion := a.nextVersion + 1 }

def setSharedAnonymous (shared : Bool) : Access :=
  { a with
    sharedAnonymousPages := ⟨update a.sharedAnonymousPages.inner page shared, a.nextVersion⟩
    nextVersion := a.nextVersion + 1 }

def setTree (state : Option UserPageState) : Access :=
  { a with
    pages := { a.pages with map := ⟨update a.pages.map.inner page state, a.nextVersion⟩ }
    nextVersion := a.nextVersion + 1 }

def setScratch (scratch : Finset ℕ) : Access :=
  { a with pages := { a.pages with scratch := scratch } }

def setMappingIncarnation (incarnation : Option ℕ) : Access :=
  { a with mappingIncarnations := update a.mappingIncarnations page incarnation }

/-- `UserPages::insert`. -/
def insertPage (state : UserPageState) : Access :=
  (a.setScratch (a.pages.scratch.erase page)).setTree page (some state)

/-- `UserPages::remove`. -/
def removePage : Access :=
  if page ∈ a.pages.scratch then a.setScratch (a.pages.scratch.erase page) else a.setTree page none

/-- `UserPages::expose_scratch`; `knownAbsent` must be a fact. -/
def exposeScratch (knownAbsent : Bool) : Access :=
  if page ∈ a.pages.scratch then a
  else if knownAbsent = false ∧ (a.pages.map.inner page).isSome then
    (a.setTree page none).setScratch (insert page a.pages.scratch)
  else a.setScratch (insert page a.pages.scratch)

def hideScratch (knownAbsent : Bool) : Access :=
  if page ∈ a.pages.scratch then a.setScratch (a.pages.scratch.erase page)
  else if knownAbsent then a
  else if (a.pages.map.inner page).isSome then a.setTree page none
  else a

/-! ## The scratch cache -/

def scratchCacheVersions : ℕ × ℕ × ℕ × ℕ :=
  (a.reservations.version, a.pages.map.version, a.filePages.version,
    a.sharedAnonymousPages.version)

def scratchCacheValid : Bool := a.scratchCache.versions = a.scratchCacheVersions

def scratchCacheHolds : Bool :=
  a.scratchCacheValid && page ∈ a.scratchCache.pages

def keepScratchCache (wasValid : Bool) : Access :=
  { a with
    scratchCache :=
      ⟨a.scratchCacheVersions, if wasValid then a.scratchCache.pages else []⟩ }

def noteScratch : Access :=
  { a with scratchCache := a.scratchCache.note page }

/-! ## Pages as records -/

end Access

/-- All that is kept of one page. -/
@[ext] structure PageRecord where
  state : Option UserPageState
  reservation : Option RegionKind
  fileOffset : Option ℕ
  sharedAnonymous : Bool
  incarnation : Option ℕ
  deriving DecidableEq

namespace Access

def page (a : Access) (q : ℕ) : PageRecord where
  state := a.pages.get q
  reservation := a.reservations.inner q
  fileOffset := a.filePages.inner q
  sharedAnonymous := a.sharedAnonymousPages.inner q
  incarnation := a.mappingIncarnations q

section
variable {a : Access} {p : ℕ}

theorem page_eq_update {b : Access} {r : PageRecord} (hp : b.page p = r)
    (hq : ∀ q, q ≠ p → b.page q = a.page q) : b.page = update a.page p r := by
  funext q
  by_cases h : q = p
  · rw [h, update_self, hp]
  · rw [update_of_ne h, hq q h]

theorem page_setReservation {kind : Option RegionKind} :
    (a.setReservation p kind).page =
      update a.page p { a.page p with reservation := kind } :=
  page_eq_update (by simp [page, setReservation]) fun q h => by simp [page, setReservation, h]

theorem page_setFileOffset {offset : Option ℕ} :
    (a.setFileOffset p offset).page =
      update a.page p { a.page p with fileOffset := offset } :=
  page_eq_update (by simp [page, setFileOffset]) fun q h => by simp [page, setFileOffset, h]

theorem page_setSharedAnonymous {shared : Bool} :
    (a.setSharedAnonymous p shared).page =
      update a.page p { a.page p with sharedAnonymous := shared } :=
  page_eq_update (by simp [page, setSharedAnonymous])
    fun q h => by simp [page, setSharedAnonymous, h]

theorem page_setMappingIncarnation {incarnation : Option ℕ} :
    (a.setMappingIncarnation p incarnation).page =
      update a.page p { a.page p with incarnation := incarnation } :=
  page_eq_update (by simp [page, setMappingIncarnation])
    fun q h => by simp [page, setMappingIncarnation, h]

theorem page_insertPage {state : UserPageState} :
    (a.insertPage p state).page =
      update a.page p { a.page p with state := some state } :=
  page_eq_update (by simp [page, insertPage, setScratch, setTree, UserPages.get])
    fun q h => by simp [page, insertPage, setScratch, setTree, UserPages.get, h]

end

/-! ## Validity -/

/-- The facts the cache tells about a page. -/
def Hidden (a : Access) (q : ℕ) : Prop :=
  a.reservations.inner q = some .toolScratch ∧ a.pages.map.inner q = none ∧
    a.filePages.inner q = none ∧ a.sharedAnonymousPages.inner q = false

/-- What the operations keep. -/
structure Valid (a : Access) : Prop where
  /-- the overlay names no key of the tree -/
  overlay : ∀ q ∈ a.pages.scratch, a.pages.map.inner q = none
  /-- incarnations were drawn from the counter -/
  drawn : ∀ q n, a.mappingIncarnations q = some n → n < a.nextIncarnation
  reservations_lt : a.reservations.version < a.nextVersion
  tree_lt : a.pages.map.version < a.nextVersion
  filePages_lt : a.filePages.version < a.nextVersion
  shared_lt : a.sharedAnonymousPages.version < a.nextVersion
  /-- so do the versions the cache keeps -/
  cache_lt : a.scratchCache.versions.1 < a.nextVersion ∧
    a.scratchCache.versions.2.1 < a.nextVersion ∧
    a.scratchCache.versions.2.2.1 < a.nextVersion ∧
    a.scratchCache.versions.2.2.2 < a.nextVersion
  /-- a cache at the current versions is right -/
  cache : a.scratchCacheValid = true → ∀ q ∈ a.scratchCache.pages, a.Hidden q

namespace Valid

variable {a : Access} {p : ℕ}

theorem hidden (h : a.Valid) (hp : a.scratchCacheHolds p = true) : a.Hidden p := by
  rw [scratchCacheHolds, Bool.and_eq_true, decide_eq_true_eq] at hp
  exact h.cache hp.1 p hp.2

/-- The counters may advance on their own: other memories draw from them. -/
theorem advance (h : a.Valid) {v n : ℕ} (hv : a.nextVersion ≤ v) (hn : a.nextIncarnation ≤ n) :
    Valid { a with nextVersion := v, nextIncarnation := n } where
  overlay := h.overlay
  drawn := fun q m hm => (h.drawn q m hm).trans_le hn
  reservations_lt := h.reservations_lt.trans_le hv
  tree_lt := h.tree_lt.trans_le hv
  filePages_lt := h.filePages_lt.trans_le hv
  shared_lt := h.shared_lt.trans_le hv
  cache_lt := ⟨h.cache_lt.1.trans_le hv, h.cache_lt.2.1.trans_le hv, h.cache_lt.2.2.1.trans_le hv,
    h.cache_lt.2.2.2.trans_le hv⟩
  cache := h.cache

theorem stale_of_ne {b : Access} (h : b.scratchCache.versions ≠ b.scratchCacheVersions) :
    b.scratchCacheValid = true → ∀ q ∈ b.scratchCache.pages, b.Hidden q := by
  intro hv
  rw [scratchCacheValid, decide_eq_true_eq] at hv
  exact absurd hv h

variable (h : a.Valid)
include h

theorem setReservation {kind : Option RegionKind} : (a.setReservation p kind).Valid :=
  { h.advance (Nat.le_succ _) le_rfl with
    reservations_lt := Nat.lt_succ_self _
    cache := stale_of_ne fun e => h.cache_lt.1.ne (congrArg Prod.fst e) }

theorem setFileOffset {offset : Option ℕ} : (a.setFileOffset p offset).Valid :=
  { h.advance (Nat.le_succ _) le_rfl with
    filePages_lt := Nat.lt_succ_self _
    cache := stale_of_ne fun e => h.cache_lt.2.2.1.ne (congrArg (·.2.2.1) e) }

theorem setSharedAnonymous {shared : Bool} : (a.setSharedAnonymous p shared).Valid :=
  { h.advance (Nat.le_succ _) le_rfl with
    shared_lt := Nat.lt_succ_self _
    cache := stale_of_ne fun e => h.cache_lt.2.2.2.ne (congrArg (·.2.2.2) e) }

theorem setTree {state : Option UserPageState}
    (hs : p ∈ a.pages.scratch → state = none) : (a.setTree p state).Valid :=
  { h.advance (Nat.le_succ _) le_rfl with
    overlay := by
      intro q hq
      by_cases e : q = p
      · subst e
        simp [Access.setTree, hs hq]
      · simp [Access.setTree, e, h.overlay q hq]
    tree_lt := Nat.lt_succ_self _
    cache := stale_of_ne fun e => h.cache_lt.2.1.ne (congrArg (·.2.1) e) }

theorem setScratch {scratch : Finset ℕ}
    (hs : ∀ q ∈ scratch, a.pages.map.inner q = none) : (a.setScratch scratch).Valid :=
  { h with overlay := hs }

theorem eraseScratch : (a.setScratch (a.pages.scratch.erase p)).Valid :=
  h.setScratch fun q hq => h.overlay q (Finset.mem_of_mem_erase hq)

theorem insertScratch (hp : a.pages.map.inner p = none) :
    (a.setScratch (insert p a.pages.scratch)).Valid := by
  refine h.setScratch fun q hq => ?_
  rcases Finset.mem_insert.1 hq with rfl | hq
  · exact hp
  · exact h.overlay q hq

theorem setMappingIncarnation {incarnation : Option ℕ}
    (hn : ∀ n, incarnation = some n → n < a.nextIncarnation) :
    (a.setMappingIncarnation p incarnation).Valid := by
  refine { h with drawn := fun q n hq => ?_ }
  have hu : update a.mappingIncarnations p incarnation q = some n := hq
  by_cases e : q = p
  · rw [e, update_self] at hu
    exact hn n hu
  · rw [update_of_ne e] at hu
    exact h.drawn q n hu

theorem insertPage {state : UserPageState} : (a.insertPage p state).Valid :=
  h.eraseScratch.setTree fun hp => absurd hp (Finset.notMem_erase p _)

theorem keepScratchCache {wasValid : Bool}
    (hk : wasValid = true → ∀ q ∈ a.scratchCache.pages, a.Hidden q) :
    (a.keepScratchCache wasValid).Valid :=
  { h with
    cache_lt := ⟨h.reservations_lt, h.tree_lt, h.filePages_lt, h.shared_lt⟩
    cache := by
      intro _ q hq
      cases wasValid with
      | true => exact hk rfl q hq
      | false => exact absurd hq List.not_mem_nil }

theorem noteScratch (hp : a.Hidden p) : (a.noteScratch p).Valid := by
  refine { h with cache_lt := ?_, cache := fun hv q hq => ?_ }
  · rw [Access.noteScratch, ScratchCache.note]
    split_ifs <;> exact h.cache_lt
  · rw [Access.noteScratch, ScratchCache.note] at hv hq
    split_ifs at hv hq with hc
    · rcases List.mem_append.1 hq with hq | hq
      · exact h.cache hv q hq
      · rw [List.mem_singleton] at hq
        exact hq ▸ hp
    · exact h.cache hv q hq

end Valid

theorem page_removePage {a : Access} {p : ℕ} (h : a.Valid) :
    (a.removePage p).page = update a.page p { a.page p with state := none } := by
  rw [removePage]
  split_ifs with hp
  · refine page_eq_update ?_ fun q hq => ?_
    · simp [page, setScratch, UserPages.get, h.overlay p hp]
    · simp [page, setScratch, UserPages.get, hq]
  · refine page_eq_update ?_ fun q hq => ?_
    · simp [page, setTree, UserPages.get, hp]
    · simp [page, setTree, UserPages.get, hq]

end Access

end Reverie.Memory
