/-
  What the operations on the page tables do, page by page.  A loop over pages is
  `Pointwise.Local`: each body changes the record of its own page.  The invariant of every
  loop is `Evolves`.
-/
import Reverie.Lib.Pointwise
import Reverie.Memory.Operations

namespace Reverie.Memory
open Function Option

open Pointwise (Local)

/-- The memory stays valid, the counters only advance, and the arena and what backs
    it stay as they are. -/
structure Evolves (a b : Access) : Prop where
  valid : b.Valid
  versions : a.nextVersion ≤ b.nextVersion
  incarnations : a.nextIncarnation ≤ b.nextIncarnation
  arena : b.guestBase = a.guestBase ∧ b.slice = a.slice ∧ b.backingPages = a.backingPages

namespace Evolves

variable {a b : Access} {p : ℕ}

theorem refl (h : a.Valid) : Evolves a a := ⟨h, le_rfl, le_rfl, rfl, rfl, rfl⟩

section
variable (h : Evolves a b)
include h

theorem trans {c : Access} (h' : Evolves b c) : Evolves a c :=
  ⟨h'.valid, h.versions.trans h'.versions, h.incarnations.trans h'.incarnations,
    h'.arena.1.trans h.arena.1, h'.arena.2.1.trans h.arena.2.1, h'.arena.2.2.trans h.arena.2.2⟩

theorem checkedPageRange : b.checkedPageRange = a.checkedPageRange := by
  funext address length
  simp only [GuestMemory.checkedPageRange, GuestMemory.checkedOffset, GuestMemory.guestEnd,
    h.arena.1, h.arena.2.1]

theorem holdsReadOnlyFile : b.holdsReadOnlyFile = a.holdsReadOnlyFile := by
  funext first last
  simp only [GuestMemory.holdsReadOnlyFile, h.arena.2.2]

theorem setReservation {kind : Option RegionKind} : Evolves a (b.setReservation p kind) :=
  ⟨h.valid.setReservation, h.versions.trans (Nat.le_succ _), h.incarnations, h.arena⟩

theorem setFileOffset {offset : Option ℕ} : Evolves a (b.setFileOffset p offset) :=
  ⟨h.valid.setFileOffset, h.versions.trans (Nat.le_succ _), h.incarnations, h.arena⟩

theorem setSharedAnonymous {shared : Bool} : Evolves a (b.setSharedAnonymous p shared) :=
  ⟨h.valid.setSharedAnonymous, h.versions.trans (Nat.le_succ _), h.incarnations, h.arena⟩

theorem setMappingIncarnation {incarnation : Option ℕ}
    (hn : ∀ n, incarnation = some n → n < b.nextIncarnation) :
    Evolves a (b.setMappingIncarnation p incarnation) :=
  ⟨h.valid.setMappingIncarnation hn, h.versions, h.incarnations, h.arena⟩

theorem insertPage {state : UserPageState} : Evolves a (b.insertPage p state) :=
  ⟨h.valid.insertPage, h.versions.trans (Nat.le_succ _), h.incarnations, h.arena⟩

theorem setTree_none : Evolves a (b.setTree p none) :=
  ⟨h.valid.setTree fun _ => rfl, h.versions.trans (Nat.le_succ _), h.incarnations, h.arena⟩

theorem eraseScratch : Evolves a (b.setScratch (b.pages.scratch.erase p)) :=
  ⟨h.valid.eraseScratch, h.versions, h.incarnations, h.arena⟩

theorem insertScratch (hp : b.pages.map.inner p = none) :
    Evolves a (b.setScratch (insert p b.pages.scratch)) :=
  ⟨h.valid.insertScratch hp, h.versions, h.incarnations, h.arena⟩

theorem removePage : Evolves a (b.removePage p) := by
  rw [Access.removePage]
  split_ifs
  · exact h.eraseScratch
  · exact h.setTree_none

end

variable {known : Bool}

variable (h : Evolves a b)
include h

theorem exposeScratch
    (hk : known = true → b.pages.map.inner p = none) : Evolves a (b.exposeScratch p known) := by
  rw [Access.exposeScratch]
  split_ifs with hp hs
  · exact h
  · refine Evolves.insertScratch (b := b.setTree p none) h.setTree_none ?_
    simp [Access.setTree]
  · refine h.insertScratch ?_
    rw [not_and_or, Bool.not_eq_false, Bool.not_eq_true, isSome_eq_false_iff,
      isNone_iff_eq_none] at hs
    exact hs.elim hk id

theorem hideScratch : Evolves a (b.hideScratch p known) := by
  rw [Access.hideScratch]
  split_ifs
  · exact h.eraseScratch
  · exact h
  · exact h.setTree_none
  · exact h

theorem dropFileOffset : Evolves a (b.dropFileOffset p) := by
  rw [Access.dropFileOffset]
  split_ifs
  · exact h.setFileOffset
  · exact h

theorem dropSharedAnonymous : Evolves a (b.dropSharedAnonymous p) := by
  rw [Access.dropSharedAnonymous]
  split_ifs
  · exact h.setSharedAnonymous
  · exact h

theorem releaseReservation : Evolves a (b.releaseReservation p) := by
  rw [Access.releaseReservation]
  split_ifs
  · exact h.setReservation
  · exact h

theorem keepScratchCache {wasValid : Bool}
    (hk : wasValid = true → ∀ q ∈ b.scratchCache.pages, b.Hidden q) :
    Evolves a (b.keepScratchCache wasValid) :=
  ⟨h.valid.keepScratchCache hk, h.versions, h.incarnations, h.arena⟩

theorem noteScratch (hp : b.Hidden p) : Evolves a (b.noteScratch p) :=
  ⟨h.valid.noteScratch hp, h.versions, h.incarnations, h.arena⟩

end Evolves

namespace PageRecord

def isPermanent (r : PageRecord) : Bool := r.reservation.any RegionKind.permanent

/-- The page once unmapped: only a permanent reservation stays. -/
def unmapped (r : PageRecord) : PageRecord where
  state := none
  reservation := if r.isPermanent then r.reservation else none
  fileOffset := none
  sharedAnonymous := false
  incarnation := none

/-- The page once mapped with a state computed from its old one. -/
def mapped (state : Option UserPageState → UserPageState) (r : PageRecord) : PageRecord :=
  { r with state := some (state r.state), reservation := some (r.reservation.getD .user) }

def reserved (kind : RegionKind) (preserveSupervisor : Bool) (r : PageRecord) : PageRecord :=
  if preserveSupervisor && r.isPermanent then r else { r with reservation := some kind }

def exposed (r : PageRecord) : PageRecord :=
  { r with state := some EXPOSED, reservation := some .toolScratch }

/-- A hidden page: as an unmapped one, but its incarnation stays. -/
def hidden (r : PageRecord) : PageRecord := { r.unmapped with incarnation := r.incarnation }

/-- A page that was moved here. -/
def placed (old : Access.Captured) (extension : UserPageState) (grown : Option ℕ) (index : ℕ)
    (r : PageRecord) : PageRecord where
  state := some (old.states[index]?.join.getD extension)
  reservation := if r.isPermanent then r.reservation else some (old.kind index)
  fileOffset := old.offset index
  sharedAnonymous := (old.shared[index]?.or old.shared.getLast?).getD false
  incarnation := (old.incarnations[index]?).getD grown

end PageRecord

theorem foldl_pageRange {σ ρ : Type} {I : σ → Prop} {view : σ → ℕ → ρ} {f : ℕ → ρ → ρ}
    {step : σ → ℕ → σ} {s : σ} {first last : ℕ} (hl : ∀ xs, Local I view id f step xs) (hs : I s)
    (q : ℕ) : view ((pageRange first last).foldl step s) q =
      if first ≤ q ∧ q ≤ last then f q (view s q) else view s q := by
  split_ifs with hq
  · refine (hl _).entry hs ?_ (mem_pageRange.2 hq)
    rw [List.map_id]
    exact nodup_pageRange
  · refine (hl _).other hs ?_
    rw [List.map_id, mem_pageRange]
    exact hq

namespace Access

variable {a₀ a : Access} {p : ℕ}

/-! ## Ordinary operations -/

variable {kind : Option RegionKind} {xs : List ℕ} {known : Bool}

theorem page_release :
    (if a.isPermanent p then a else a.setReservation p kind).page =
      update a.page p { a.page p with
        reservation := if (a.page p).isPermanent then (a.page p).reservation else kind } := by
  by_cases hp : a.isPermanent p = true
  · have hr : (a.page p).isPermanent = true := hp
    rw [if_pos hp, if_pos hr, update_eq_self]
  · have hr : ¬ (a.page p).isPermanent = true := hp
    rw [if_neg hp, if_neg hr, page_setReservation]

theorem evolves_release (h : Evolves a₀ a) :
    Evolves a₀ (if a.isPermanent p then a else a.setReservation p kind) := by
  split_ifs
  · exact h
  · exact h.setReservation

theorem unmapPage_local :
    Local (Evolves a₀) page id (fun _ => PageRecord.unmapped) unmapPage xs where
  keeps := by
    intro a p _ h
    refine evolves_release ?_
    exact (h.removePage.setFileOffset.setSharedAnonymous).setMappingIncarnation
      fun n hn => absurd hn (by simp)
  changes := by
    intro a p _ h
    rw [unmapPage, page_release]
    simp only [page_setMappingIncarnation, page_setSharedAnonymous, page_setFileOffset,
      page_removePage h.valid, update_idem, update_self]
    rfl

theorem setUserPage_local {state : Option UserPageState → UserPageState} :
    Local (Evolves a₀) page id (fun _ => PageRecord.mapped state) (setUserPage state) xs where
  keeps := fun _ _ _ h => h.insertPage.setReservation
  changes := by
    intro a p _ _
    rw [setUserPage, page_setReservation]
    simp only [page_insertPage, update_idem, update_self]
    rfl

theorem guardPhysicalPage_keeps (h : Evolves a₀ a) : Evolves a₀ (a.guardPhysicalPage p) := by
  rw [guardPhysicalPage]
  split
  · exact h.insertPage
  · exact h

theorem reservePage_local {kind : RegionKind} {preserve : Bool} :
    Local (fun s => Evolves a₀ s.2) (fun s => s.2.page) id
      (fun _ => PageRecord.reserved kind preserve) (reservePage kind preserve) xs where
  keeps := by
    intro s p _ h
    rw [reservePage]
    split_ifs
    · exact h
    · exact h.setReservation
  changes := by
    intro s p _ _
    by_cases hp : (preserve && s.2.isPermanent p) = true
    · have hr : (preserve && (s.2.page p).isPermanent) = true := hp
      rw [reservePage, if_pos hp, id, PageRecord.reserved, if_pos hr, update_eq_self]
    · have hr : ¬ (preserve && (s.2.page p).isPermanent) = true := hp
      rw [reservePage, if_neg hp, id, PageRecord.reserved, if_neg hr, page_setReservation]

theorem dropReservation_local {xs : Replaced} :
    Local (Evolves a₀) page Prod.fst (fun entry r => { r with reservation := entry.2 })
      (fun a entry => a.setReservation entry.1 entry.2) xs where
  keeps := fun _ _ _ h => h.setReservation
  changes := fun _ _ _ _ => page_setReservation

theorem recordPage_keeps {first index : ℕ} {offset : Option ℕ} {shared : Bool}
    (h : Evolves a₀ a) : Evolves a₀ (recordPage first offset shared a index) :=
  h.setFileOffset.setSharedAnonymous

theorem placePage_local {old : Captured} {extension : UserPageState} {grown : Option ℕ}
    {xs : List (ℕ × ℕ)} (ho : ∀ i n : ℕ,
      (old.incarnations[i]?).getD grown = some n → n < a₀.nextIncarnation) :
    Local (Evolves a₀) page Prod.fst (fun entry => PageRecord.placed old extension grown entry.2)
      (placePage old extension grown) xs where
  keeps := by
    intro a entry _ h
    refine evolves_release ?_
    exact (h.insertPage.setFileOffset.setSharedAnonymous).setMappingIncarnation
      fun n hn => (ho entry.2 n hn).trans_le h.incarnations
  changes := by
    intro a entry _ _
    rw [placePage, page_release]
    simp only [page_setMappingIncarnation, page_setSharedAnonymous, page_setFileOffset,
      page_insertPage, update_idem, update_self]
    rfl

/-! ## Scratch operations -/

theorem page_exposeScratch :
    (a.exposeScratch p known).page =
      update a.page p { a.page p with state := some EXPOSED } := by
  rw [exposeScratch]
  split_ifs with hp hs
  · simp [page, UserPages.get, hp]
  · refine page_eq_update ?_ fun q hq => ?_
    · simp [page, setScratch, setTree, UserPages.get]
    · simp [page, setScratch, setTree, UserPages.get, hq]
  · refine page_eq_update ?_ fun q hq => ?_
    · simp [page, setScratch, UserPages.get]
    · simp [page, setScratch, UserPages.get, hq]

theorem page_hideScratch (h : a.Valid) (hk : known = true → a.pages.map.inner p = none) :
    (a.hideScratch p known).page = update a.page p { a.page p with state := none } := by
  have ho := h.overlay p
  rw [hideScratch]
  split_ifs with hp hn hs
  · refine page_eq_update ?_ fun q hq => ?_
    · simp [page, setScratch, UserPages.get, ho hp]
    · simp [page, setScratch, UserPages.get, hq]
  · simp [page, UserPages.get, hp, hk hn]
  · refine page_eq_update ?_ fun q hq => ?_
    · simp [page, setTree, UserPages.get, hp]
    · simp [page, setTree, UserPages.get, hq]
  · rw [Bool.not_eq_true, isSome_eq_false_iff, isNone_iff_eq_none] at hs
    simp [page, UserPages.get, hp, hs]

/-- The tables of `b` agree with those of `a` on every page but `p`, in what the
    cache tells. -/
structure SameElsewhere (p : ℕ) (a b : Access) : Prop where
  cached : b.scratchCache = a.scratchCache
  hidden : ∀ q, q ≠ p → a.Hidden q → b.Hidden q

namespace SameElsewhere

variable {b c : Access}

theorem refl : SameElsewhere p a a := ⟨rfl, fun _ _ h => h⟩

theorem trans (h : SameElsewhere p a b) (h' : SameElsewhere p b c) : SameElsewhere p a c :=
  ⟨h'.cached.trans h.cached, fun q hq hh => h'.hidden q hq (h.hidden q hq hh)⟩

theorem setReservation {kind : Option RegionKind} : SameElsewhere p a (a.setReservation p kind) :=
  ⟨rfl, fun q hq h => by simpa [Hidden, Access.setReservation, hq] using h⟩

theorem setFileOffset {offset : Option ℕ} : SameElsewhere p a (a.setFileOffset p offset) :=
  ⟨rfl, fun q hq h => by simpa [Hidden, Access.setFileOffset, hq] using h⟩

theorem setSharedAnonymous {shared : Bool} : SameElsewhere p a (a.setSharedAnonymous p shared) :=
  ⟨rfl, fun q hq h => by simpa [Hidden, Access.setSharedAnonymous, hq] using h⟩

theorem setTree {state : Option UserPageState} : SameElsewhere p a (a.setTree p state) :=
  ⟨rfl, fun q hq h => by simpa [Hidden, Access.setTree, hq] using h⟩

theorem setScratch {scratch : Finset ℕ} : SameElsewhere p a (a.setScratch scratch) :=
  ⟨rfl, fun _ _ h => h⟩

variable {known : Bool}

theorem exposeScratch : SameElsewhere p a (a.exposeScratch p known) := by
  rw [Access.exposeScratch]
  split_ifs
  · exact refl
  · exact setTree.trans setScratch
  · exact setScratch

theorem hideScratch : SameElsewhere p a (a.hideScratch p known) := by
  rw [Access.hideScratch]
  split_ifs
  · exact setScratch
  · exact refl
  · exact setTree
  · exact refl

theorem dropFileOffset : SameElsewhere p a (a.dropFileOffset p) := by
  rw [Access.dropFileOffset]
  split_ifs
  · exact setFileOffset
  · exact refl

theorem dropSharedAnonymous : SameElsewhere p a (a.dropSharedAnonymous p) := by
  rw [Access.dropSharedAnonymous]
  split_ifs
  · exact setSharedAnonymous
  · exact refl

theorem releaseReservation : SameElsewhere p a (a.releaseReservation p) := by
  rw [Access.releaseReservation]
  split_ifs
  · exact setReservation
  · exact refl

theorem keep (hs : SameElsewhere p a b) (ha : a.Valid) (h : Evolves a₀ b)
    (hp : a.scratchCacheHolds p = false) :
    Evolves a₀ (b.keepScratchCache a.scratchCacheValid) := by
  refine h.keepScratchCache fun hv q hq => ?_
  rw [hs.cached] at hq
  refine hs.hidden q ?_ (ha.cache hv q hq)
  rintro rfl
  rw [scratchCacheHolds, hv, Bool.true_and, decide_eq_false_iff_not] at hp
  exact hp hq

end SameElsewhere

theorem page_keepScratchCache {wasValid : Bool} : (a.keepScratchCache wasValid).page = a.page := rfl

theorem page_noteScratch : (a.noteScratch p).page = a.page := rfl

/-- Reserving a page that is already reserved changes nothing of its record. -/
theorem page_reserveScratch :
    (if a.reservations.inner p = some .toolScratch then a
      else a.setReservation p (some .toolScratch)).page =
      update a.page p { a.page p with reservation := some .toolScratch } := by
  split_ifs with hr
  · refine page_eq_update ?_ fun _ _ => rfl
    rw [← hr]
    rfl
  · exact page_setReservation

theorem exposePage_local :
    Local (Evolves a₀) page id (fun _ => PageRecord.exposed) exposePage xs where
  keeps := by
    intro a p _ h
    rw [exposePage]
    by_cases hc : a.scratchCacheHolds p = true
    · rw [if_pos hc]
      exact h.exposeScratch fun _ => (h.valid.hidden hc).2.1
    · rw [if_neg hc]
      refine SameElsewhere.keep ?_ h.valid ?_ (Bool.not_eq_true _ ▸ hc)
      · refine SameElsewhere.trans ?_ SameElsewhere.exposeScratch
        split_ifs
        · exact .refl
        · exact .setReservation
      · refine Evolves.exposeScratch ?_ fun hk => absurd hk Bool.false_ne_true
        split_ifs
        · exact h
        · exact h.setReservation
  changes := by
    intro a p _ h
    rw [exposePage]
    by_cases hc : a.scratchCacheHolds p = true
    · rw [if_pos hc, page_exposeScratch, PageRecord.exposed, ← (h.valid.hidden hc).1]
      rfl
    · rw [if_neg hc, page_keepScratchCache, page_exposeScratch, page_reserveScratch]
      simp only [update_idem, update_self]
      rfl

theorem page_dropFileOffset : (a.dropFileOffset p).page =
    update a.page p { a.page p with fileOffset := none } := by
  rw [dropFileOffset]
  split_ifs with hf
  · exact page_setFileOffset
  · rw [Bool.not_eq_true, isSome_eq_false_iff, isNone_iff_eq_none] at hf
    refine page_eq_update ?_ fun _ _ => rfl
    rw [← hf]
    rfl

theorem page_dropSharedAnonymous : (a.dropSharedAnonymous p).page =
    update a.page p { a.page p with sharedAnonymous := false } := by
  rw [dropSharedAnonymous]
  split_ifs with hs
  · exact page_setSharedAnonymous
  · rw [Bool.not_eq_true] at hs
    refine page_eq_update ?_ fun _ _ => rfl
    rw [← hs]
    rfl

theorem page_releaseReservation : (a.releaseReservation p).page =
    update a.page p { a.page p with
      reservation := if (a.page p).isPermanent then (a.page p).reservation else none } := by
  have hr : (a.page p).reservation = a.reservations.inner p := rfl
  rw [releaseReservation, PageRecord.isPermanent, hr]
  rcases hk : a.reservations.inner p with _ | kind
  · refine page_eq_update ?_ fun _ _ => rfl
    change a.page p = { a.page p with reservation := none }
    rw [← hk]
    rfl
  · rw [any_some, any_some]
    cases kind.permanent
    · exact page_setReservation
    · refine page_eq_update ?_ fun _ _ => rfl
      rw [← hk]
      rfl

theorem page_hideEdits (h : a.Valid) :
    (a.hideEdits p).page = update a.page p (a.page p).hidden := by
  rw [hideEdits, page_releaseReservation, page_dropSharedAnonymous, page_dropFileOffset,
    page_hideScratch h fun hk => absurd hk Bool.false_ne_true]
  simp only [update_idem, update_self]
  rfl

theorem evolves_hideEdits (h : Evolves a₀ a) : Evolves a₀ (a.hideEdits p) :=
  h.hideScratch.dropFileOffset.dropSharedAnonymous.releaseReservation

theorem sameElsewhere_hideEdits : SameElsewhere p a (a.hideEdits p) :=
  ((SameElsewhere.hideScratch.trans .dropFileOffset).trans .dropSharedAnonymous).trans
    .releaseReservation

theorem hidden_of_page {r : PageRecord} (hr : a.page p = r.hidden)
    (ht : a.reservations.inner p = some .toolScratch) : a.Hidden p := by
  have hs : a.pages.get p = none := congrArg PageRecord.state hr
  rw [UserPages.get] at hs
  split_ifs at hs with hp
  exact ⟨ht, hs, congrArg PageRecord.fileOffset hr, congrArg PageRecord.sharedAnonymous hr⟩

theorem hidePage_local :
    Local (Evolves a₀) page id (fun _ => PageRecord.hidden) hidePage xs where
  keeps := by
    intro a p _ h
    rw [hidePage]
    by_cases hc : a.scratchCacheHolds p = true
    · rw [if_pos hc]
      exact h.hideScratch
    · have hk := sameElsewhere_hideEdits.keep h.valid (evolves_hideEdits (p := p) h)
        (Bool.not_eq_true _ ▸ hc)
      dsimp only
      split_ifs with ht
      · refine hk.noteScratch (hidden_of_page (r := a.page p) ?_ ht)
        rw [page_keepScratchCache, page_hideEdits h.valid, update_self]
      · exact hk
  changes := by
    intro a p _ h
    rw [hidePage]
    by_cases hc : a.scratchCacheHolds p = true
    · obtain ⟨hr, ht, hf, hs⟩ := h.valid.hidden hc
      rw [if_pos hc, page_hideScratch h.valid fun _ => ht]
      have hp : (a.page p).isPermanent = true := by
        rw [PageRecord.isPermanent, show (a.page p).reservation = some .toolScratch from hr]
        rfl
      rw [id, PageRecord.hidden, PageRecord.unmapped, if_pos hp, ← hf, ← hs]
      rfl
    · dsimp only
      split_ifs
      · rw [page_noteScratch, page_keepScratchCache, page_hideEdits h.valid, id]
      · rw [page_keepScratchCache, page_hideEdits h.valid, id]

end Access

end Reverie.Memory
