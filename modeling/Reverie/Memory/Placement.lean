/-
  Where a mapping without a fixed address goes (`place_mapping`, `mm.rs`).  In the layouts that
  the loaders make (`Layout`), each strategy gives a place that is aligned, free, allowed and
  one run of user addresses (`Fits`).  Main theorem: `place_mapping_valid`.
-/
import Reverie.Lib.Gaps
import Reverie.Memory.Windows

namespace Reverie.Memory
open List Option GuestMemory
open Words (checkedAdd)

/-! ## Constants -/

/-- The end of the boot area: the transports and scratch pages of 160 threads, the
    vDSO page between them and the pool of page tables. -/
def bootReservedEnd : ℕ :=
  0xf000 + 2 * pageSize * 160 + pageSize + pageSize * 160 + 15 * pageSize

def userAddressEnd : ℕ := 2 ^ 47

/-- `MMAP_BASE`: `TASK_SIZE` less the stack gap of 128 MiB. -/
def linuxMmapBase : ℕ := userAddressEnd - pageSize - 128 * 1024 * 1024

def largePage : ℕ := 2 * 1024 * 1024

def mmapMinAddr : ℕ := 0x10000

def map32BitEnd : ℕ := 0x80000000

/-! ## Searching physical memory -/

namespace GuestMemory

variable (m : GuestMemory)

/-- The conditions under which the searches look at all. -/
def searchable (start stop length : ℕ) : Bool :=
  length != 0 && start % pageSize == 0 && stop % pageSize == 0 && length % pageSize == 0 &&
    m.guestBase ≤ start && stop ≤ m.guestEnd && start < stop

def isMapped (page : ℕ) : Bool := (m.pages.get page).isSome

/-- The highest free range of `[start, stop)`. -/
def findUnmappedUserRangeTopdown (start stop length : ℕ) : Option ℕ :=
  if m.searchable start stop length then
    (Gaps.highest m.isMapped (length / pageSize) (start / pageSize) (stop / pageSize)).map
      (· * pageSize)
  else none

/-- The lowest free range of `[start, stop)`. -/
def findUnmappedUserRange (start stop length : ℕ) : Option ℕ :=
  if m.searchable start stop length then
    (Gaps.lowest m.isMapped (length / pageSize) (start / pageSize) (stop / pageSize)).map
      (· * pageSize)
  else none

def hasMmapWindow : Bool := m.identityEnd.isSome

end GuestMemory

/-! ## Placement -/

/-- The part of the loaded image's memory manager that placement reads. -/
structure MemoryManager where
  mmapBase : ℕ
  mmapNext : ℕ
  mmapLimit : ℕ

/-- How a file is to be aligned. -/
inductive FileAlignment where
  | largePage
  | page

/-- What is mapped. -/
inductive MappingKind where
  | anonymous
  | regularFile (offset : ℕ) (alignment : FileAlignment)
  | other

section
variable (m : GuestMemory) (mm : MemoryManager) (length : ℕ)

def legacyPlacement (limit : ℕ) : Option ℕ :=
  let next := min (max mm.mmapNext mm.mmapBase) (max limit mm.mmapBase)
  (m.findUnmappedUserRange mm.mmapBase next length).or
    ((m.findUnmappedUserRange next limit length).or
      (m.findUnmappedUserRange mm.mmapBase limit length))

/-- Linux rounds a hint down to a page and raises a nonzero one. -/
def roundHint (hint : ℕ) : ℕ :=
  match hint / pageSize * pageSize with
  | 0 => 0
  | rounded + 1 => max (rounded + 1) mmapMinAddr

def freeHint (hint : ℕ) : Option ℕ :=
  (m.userRangeToGuest hint length).bind fun physical =>
    if bootReservedEnd ≤ physical ∧ physical + length ≤ mm.mmapLimit ∧
        m.findUnmappedUserRange physical (physical + length) length = some physical then
      some physical
    else none

/-- The top of the identity memory a mapping may fall back to. -/
def identityTop : ℕ := if m.hasMmapWindow then m.identityLimit else mm.mmapBase

/-- The place of a `MAP_32BIT` mapping, for a rounded hint. -/
def place32Bit (hint : ℕ) : Option ℕ :=
  let lowLimit := min mm.mmapLimit map32BitEnd
  (if hint ≠ 0 ∧ hint + length ≤ map32BitEnd then freeHint m mm length hint else none).or
    ((if m.hasMmapWindow = false ∧ mm.mmapBase < lowLimit then
        legacyPlacement m mm length lowLimit else none).or
      (m.findUnmappedUserRangeTopdown bootReservedEnd (min (identityTop m mm) map32BitEnd) length))

/-- The place a rounded hint decides: the hint itself, or, for a low one that has no
    memory, the highest free identity memory below it. -/
def placeAtHint (hint : ℕ) : Option ℕ :=
  (if hint ≠ 0 then freeHint m mm length hint else none).or
    (if hint ≠ 0 ∧ hint < linuxMmapBase / 2 ∧ m.userRangeToGuest hint length = none then
      m.findUnmappedUserRangeTopdown bootReservedEnd (min hint (identityTop m mm)) length
    else none)

end

/-- `u64::checked_add`, and `align_up` to a large page. -/
def alignUpLarge (value : ℕ) : Option ℕ :=
  (checkedAdd value (largePage - 1)).map fun v => v / largePage * largePage

/-- The offset that Linux's large-page rule aligns to, if it applies. -/
def largePageOffset (kind : MappingKind) (hint length : ℕ) : Option ℕ :=
  match kind with
  | .anonymous => if hint = 0 ∧ length % largePage = 0 then some 0 else none
  | .regularFile offset .largePage =>
    match checkedAdd offset length with
    | some stop =>
      if stop / largePage * largePage > (alignUpLarge offset).getD (2 ^ 64 - 1) then some offset
      else none
    | none => none
  | _ => none

section
variable (m : GuestMemory) (mm : MemoryManager) (length : ℕ)

def topDown (length : ℕ) : Option ℕ :=
  m.findUnmappedUserRangeTopdown mm.mmapBase mm.mmapLimit length

/-- The distance from `user` to the next address congruent to the offset. -/
def largeShift (offset user : ℕ) : ℕ :=
  let shift := (offset + 2 ^ 64 - user) % largePage
  if shift = 0 then largePage else shift

/-- A place in the mmap window, or in identity memory when the window is full. -/
def placeAnywhere : Option ℕ :=
  (topDown m mm length).or
    (m.findUnmappedUserRangeTopdown bootReservedEnd (identityTop m mm) length)

/-- The place of a mapping that no hint decides. -/
def placeWithoutHint (offset : Option ℕ) : Option ℕ :=
  match offset.bind fun offset =>
      (checkedAdd length largePage).bind fun padded =>
        (topDown m mm padded).map fun found => (offset, found) with
  | some (offset, found) =>
    (m.physicalToUser found).map fun user => found + largeShift offset user
  | none => placeAnywhere m mm length

def placeMapping (hint : ℕ) (kind : MappingKind) (map32Bit : Bool) : Option ℕ :=
  let hint := roundHint hint
  if map32Bit then place32Bit m mm length hint
  else if m.hasMmapWindow then
    (placeAtHint m mm length hint).or
      (placeWithoutHint m mm length (largePageOffset kind hint length))
  else legacyPlacement m mm length mm.mmapLimit

end

/-! ## What the searches find -/

namespace GuestMemory

variable {m : GuestMemory} {start stop length p : ℕ}

/-- The pages of a physical range are unmapped. -/
def Unmapped (m : GuestMemory) (physical length : ℕ) : Prop :=
  ∀ q, physical ≤ q * pageSize → q * pageSize < physical + length → m.pages.get q = none

theorem searchable_iff : m.searchable start stop length = true ↔
    0 < length ∧ pageSize ∣ start ∧ pageSize ∣ stop ∧ pageSize ∣ length ∧ m.guestBase ≤ start ∧
      stop ≤ m.guestEnd ∧ start < stop := by
  simp only [searchable, Bool.and_eq_true, bne_iff_ne, beq_iff_eq, decide_eq_true_eq, and_assoc,
    Nat.dvd_iff_mod_eq_zero, Nat.pos_iff_ne_zero]

/-- The page-aligned ranges of `[start, stop)` that have no mapped page. -/
def freePlaces (m : GuestMemory) (start stop length : ℕ) : Set ℕ :=
  {p | pageSize ∣ p ∧ start ≤ p ∧ p + length ≤ stop ∧ m.Unmapped p length}

theorem unmapped_iff {k n : ℕ} :
    m.Unmapped (pageSize * k) (pageSize * n) ↔ Gaps.Free m.isMapped k n := by
  simp only [Unmapped, Gaps.Free, isMapped, isSome_eq_false_iff, isNone_iff_eq_none, pageSize]
  exact forall_congr' fun q =>
    ⟨fun h h1 h2 => h (by omega) (by omega), fun h h1 h2 => h (by omega) (by omega)⟩

theorem freePlaces_eq (hs : m.searchable start stop length = true) :
    m.freePlaces start stop length = (· * pageSize) ''
      Gaps.places m.isMapped (length / pageSize) (start / pageSize) (stop / pageSize) := by
  obtain ⟨-, ⟨a, rfl⟩, ⟨b, rfl⟩, ⟨n, rfl⟩, -⟩ := searchable_iff.1 hs
  simp only [Nat.mul_div_cancel_left _ (by decide : 0 < pageSize)]
  ext p
  constructor
  · rintro ⟨⟨k, rfl⟩, h1, h2, hu⟩
    simp only [pageSize] at h1 h2
    exact ⟨k, ⟨by omega, by omega, unmapped_iff.1 hu⟩, Nat.mul_comm _ _⟩
  · rintro ⟨k, ⟨h1, h2, hf⟩, rfl⟩
    dsimp only
    rw [Nat.mul_comm k]
    refine ⟨Nat.dvd_mul_right _ k, ?_, ?_, unmapped_iff.2 hf⟩
    all_goals
      simp only [pageSize]
      omega

theorem mul_pageSize_mono : Monotone fun k => k * pageSize := fun _ _ => Nat.mul_le_mul_right _

section
variable (hs : m.searchable start stop length = true)
include hs

theorem searchable_div_le : start / pageSize ≤ stop / pageSize :=
  Nat.div_le_div_right (searchable_iff.1 hs).2.2.2.2.2.2.le

theorem topdown_greatest (h : m.findUnmappedUserRangeTopdown start stop length = some p) :
    IsGreatest (m.freePlaces start stop length) p := by
  rw [findUnmappedUserRangeTopdown, if_pos hs] at h
  obtain ⟨g, hg, rfl⟩ := map_eq_some_iff.1 h
  rw [freePlaces_eq hs]
  exact mul_pageSize_mono.map_isGreatest (Gaps.highest_greatest (searchable_div_le hs) hg)

theorem topdown_none (h : m.findUnmappedUserRangeTopdown start stop length = none) :
    m.freePlaces start stop length = ∅ := by
  rw [findUnmappedUserRangeTopdown, if_pos hs, map_eq_none_iff] at h
  rw [freePlaces_eq hs, Gaps.highest_none (searchable_div_le hs) h, Set.image_empty]

theorem bottomUp_least (h : m.findUnmappedUserRange start stop length = some p) :
    IsLeast (m.freePlaces start stop length) p := by
  rw [findUnmappedUserRange, if_pos hs] at h
  obtain ⟨g, hg, rfl⟩ := map_eq_some_iff.1 h
  rw [freePlaces_eq hs]
  exact mul_pageSize_mono.map_isLeast (Gaps.lowest_least hg)

theorem bottomUp_none (h : m.findUnmappedUserRange start stop length = none) :
    m.freePlaces start stop length = ∅ := by
  rw [findUnmappedUserRange, if_pos hs, map_eq_none_iff] at h
  rw [freePlaces_eq hs, Gaps.lowest_none h, Set.image_empty]

end

/-- A free range that a search found in `[start, stop)`. -/
structure Found (m : GuestMemory) (start stop length p : ℕ) : Prop where
  aligned : pageSize ∣ p
  above : start ≤ p
  below : p + length ≤ stop
  unmapped : m.Unmapped p length
  base : m.guestBase ≤ start

theorem found_of_mem (hs : m.searchable start stop length = true)
    (hp : p ∈ m.freePlaces start stop length) : m.Found start stop length p :=
  ⟨hp.1, hp.2.1, hp.2.2.1, hp.2.2.2, (searchable_iff.1 hs).2.2.2.2.1⟩

theorem topdown_found (h : m.findUnmappedUserRangeTopdown start stop length = some p) :
    m.Found start stop length p := by
  have hs : m.searchable start stop length = true := by
    by_contra hs
    rw [findUnmappedUserRangeTopdown, if_neg hs] at h
    cases h
  exact found_of_mem hs (topdown_greatest hs h).1

theorem bottomUp_found (h : m.findUnmappedUserRange start stop length = some p) :
    m.Found start stop length p := by
  have hs : m.searchable start stop length = true := by
    by_contra hs
    rw [findUnmappedUserRange, if_neg hs] at h
    cases h
  exact found_of_mem hs (bottomUp_least hs h).1

theorem topdown_isSome (hs : m.searchable start stop length = true) (hp : pageSize ∣ p)
    (h1 : start ≤ p) (h2 : p + length ≤ stop) (hu : m.Unmapped p length) :
    (m.findUnmappedUserRangeTopdown start stop length).isSome := by
  rw [isSome_iff_ne_none]
  intro h
  exact (topdown_none hs h).le ⟨hp, h1, h2, hu⟩

theorem bottomUp_eq (hs : m.searchable p (p + length) length = true) (hu : m.Unmapped p length) :
    m.findUnmappedUserRange p (p + length) length = some p := by
  have hmem : p ∈ m.freePlaces p (p + length) length :=
    ⟨(searchable_iff.1 hs).2.1, le_rfl, le_rfl, hu⟩
  cases h : m.findUnmappedUserRange p (p + length) length with
  | none => exact absurd hmem ((bottomUp_none hs h).le ·)
  | some q =>
    have hq := bottomUp_least hs h
    rw [(hq.2 hmem).antisymm hq.1.2.1]

end GuestMemory

/-! ## Layouts -/

/-- The layouts the loaders make.  With an mmap window, the mapping range lies in one
    window above the identity memory; without, it is identity memory. -/
structure Layout (m : GuestMemory) (mm : MemoryManager) : Prop extends m.Separate where
  boot : bootReservedEnd ≤ mm.mmapBase
  ordered : mm.mmapBase ≤ mm.mmapLimit
  aligned : pageSize ∣ mm.mmapBase ∧ pageSize ∣ mm.mmapLimit
  windowed : m.hasMmapWindow = true → m.identityLimit ≤ mm.mmapLimit ∧
    ∃ w ∈ m.windows, w.physicalStart ≤ mm.mmapBase ∧ mm.mmapLimit ≤ w.physical w.userEnd
  plain : m.hasMmapWindow = false → mm.mmapLimit ≤ m.identityLimit
  /-- addresses are `u64` -/
  representable : m.guestEnd < 2 ^ 64 ∧ ∀ w ∈ m.windows, w.userEnd < 2 ^ 64

/-- A place for a mapping: aligned, allowed, free, and reached from `user` on. -/
structure Fits (m : GuestMemory) (mm : MemoryManager) (length p user : ℕ) : Prop where
  aligned : pageSize ∣ p
  above : bootReservedEnd ≤ p
  below : p + length ≤ mm.mmapLimit
  unmapped : m.Unmapped p length
  reached : m.Reached p length user

section
variable {m : GuestMemory} {mm : MemoryManager} {length hint p : ℕ}

theorem freeHint_fits (L : Layout m mm) (hl : 0 < length)
    (h : freeHint m mm length hint = some p) : Fits m mm length p hint := by
  obtain ⟨q, hq, h⟩ := bind_eq_some_iff.1 h
  split_ifs at h with hc
  obtain rfl := Option.some.inj h
  have hf := bottomUp_found hc.2.2
  exact ⟨hf.aligned, hc.1, hc.2.1, hf.unmapped, reached_user L.toSeparate hl hq⟩

variable {stop offset user : ℕ}

section
variable (L : Layout m mm)
include L

/-- Identity memory below the identity limit and the mapping range's end. -/
theorem Layout.identity_fits {start : ℕ} (hl : 0 < length)
    (hf : m.Found start stop length p) (hs : bootReservedEnd ≤ start)
    (hi : stop ≤ m.identityLimit) (hm : stop ≤ mm.mmapLimit) : Fits m mm length p p :=
  ⟨hf.aligned, hs.trans hf.above, hf.below.trans hm, hf.unmapped,
    reached_identity L.toSeparate hl (hf.base.trans hf.above) (hf.below.trans hi)⟩

theorem Layout.identityTop_le :
    identityTop m mm ≤ m.identityLimit ∧ identityTop m mm ≤ mm.mmapLimit := by
  rw [identityTop]
  split_ifs with hw
  · exact ⟨le_rfl, (L.windowed hw).1⟩
  · exact ⟨L.ordered.trans (L.plain (Bool.not_eq_true _ ▸ hw)), L.ordered⟩

variable (hl : 0 < length)
include hl

theorem identity_fits (h : m.findUnmappedUserRangeTopdown bootReservedEnd stop length = some p)
    (hs : stop ≤ identityTop m mm) : Fits m mm length p p :=
  L.identity_fits hl (topdown_found h) le_rfl (hs.trans L.identityTop_le.1)
    (hs.trans L.identityTop_le.2)

/-- Free memory inside the mapping range, in a memory with an mmap window. -/
theorem Layout.window_fits (hw : m.hasMmapWindow = true)
    (ha : pageSize ∣ p) (h1 : mm.mmapBase ≤ p) (h2 : p + length ≤ mm.mmapLimit)
    (hu : m.Unmapped p length) :
    ∃ w ∈ m.windows, Fits m mm length p (p - w.physicalStart + w.userStart) := by
  obtain ⟨-, w, hw, hs, he⟩ := L.windowed hw
  exact ⟨w, hw, ha, L.boot.trans h1, h2, hu,
    reached_window L.toSeparate hl hw (hs.trans h1) (h2.trans he)⟩

theorem legacy_fits {limit : ℕ} (hw : m.hasMmapWindow = false) (hm : limit ≤ mm.mmapLimit)
    (h : legacyPlacement m mm length limit = some p) :
    Fits m mm length p p ∧ p + length ≤ limit := by
  have hfound : ∃ start stop, m.Found start stop length p ∧ mm.mmapBase ≤ start ∧ stop ≤ limit := by
    rcases or_eq_some_iff.1 h with h | ⟨-, h⟩
    · have hf := bottomUp_found h
      refine ⟨_, _, hf, le_rfl, ?_⟩
      have h1 := hf.above
      have h2 := hf.below
      omega
    · rcases or_eq_some_iff.1 h with h | ⟨-, h⟩
      · exact ⟨_, _, bottomUp_found h, by omega, le_rfl⟩
      · exact ⟨_, _, bottomUp_found h, le_rfl, le_rfl⟩
  obtain ⟨start, stop, hf, hs, hlim⟩ := hfound
  exact ⟨L.identity_fits hl hf (L.boot.trans hs) (hlim.trans (hm.trans (L.plain hw)))
    (hlim.trans hm), hf.below.trans hlim⟩

/-! ## The strategies -/

theorem place32Bit_fits (h : place32Bit m mm length hint = some p) :
    ∃ user, Fits m mm length p user ∧ user + length ≤ map32BitEnd := by
  rcases or_eq_some_iff.1 h with h | ⟨-, h⟩
  · split_ifs at h with hc
    exact ⟨hint, freeHint_fits L hl h, hc.2⟩
  rcases or_eq_some_iff.1 h with h | ⟨-, h⟩
  · split_ifs at h with hc
    obtain ⟨hf, hlim⟩ := legacy_fits L hl hc.1 (min_le_left _ _) h
    exact ⟨p, hf, hlim.trans (min_le_right _ _)⟩
  · have hb := (topdown_found h).below
    exact ⟨p, identity_fits L hl h (min_le_left _ _), hb.trans (min_le_right _ _)⟩

theorem placeAtHint_fits
    (h : placeAtHint m mm length hint = some p) : ∃ user, Fits m mm length p user := by
  rcases or_eq_some_iff.1 h with h | ⟨-, h⟩
  · split_ifs at h
    exact ⟨hint, freeHint_fits L hl h⟩
  · split_ifs at h
    exact ⟨p, identity_fits L hl h (min_le_right _ _)⟩

theorem placeAnywhere_fits (hw : m.hasMmapWindow = true)
    (h : placeAnywhere m mm length = some p) : ∃ user, Fits m mm length p user := by
  rcases or_eq_some_iff.1 h with h | ⟨-, h⟩
  · have hf := topdown_found h
    obtain ⟨w, -, hfits⟩ := L.window_fits hl hw hf.aligned hf.above hf.below hf.unmapped
    exact ⟨_, hfits⟩
  · exact ⟨p, identity_fits L hl h le_rfl⟩

end

/-! ## Large pages -/

theorem largeShift_pos_le : 0 < largeShift offset user ∧ largeShift offset user ≤ largePage := by
  have hlt := Nat.mod_lt (offset + 2 ^ 64 - user) (by decide : 0 < largePage)
  rw [largeShift]
  split_ifs with h0
  · exact ⟨by decide, le_rfl⟩
  · exact ⟨Nat.pos_of_ne_zero h0, hlt.le⟩

theorem largeShift_congr (hu : user < 2 ^ 64) :
    (user + largeShift offset user) % largePage = offset % largePage := by
  rw [largeShift]
  rw [largePage]
  split_ifs <;> omega

theorem largeShift_aligned (ho : pageSize ∣ offset) (hu : pageSize ∣ user) :
    pageSize ∣ largeShift offset user := by
  rw [largeShift]
  rw [largePage]
  rw [pageSize] at *
  split_ifs <;> omega

theorem shifted_fits {found : ℕ} (L : Layout m mm) (hl : 0 < length)
    (hw : m.hasMmapWindow = true) (ho : pageSize ∣ offset)
    (h : topDown m mm (length + largePage) = some found) (hu : m.physicalToUser found = some user) :
    ∃ user', Fits m mm length (found + largeShift offset user) user' ∧
      user' % largePage = offset % largePage := by
  have hf := topdown_found h
  obtain ⟨hpos, hle⟩ : 0 < largeShift offset user ∧ largeShift offset user ≤ largePage :=
    largeShift_pos_le
  obtain ⟨-, w, hwm, hs, he⟩ := L.windowed hw
  have hr := reached_window L.toSeparate (by omega) hwm
    (hs.trans hf.above) (hf.below.trans he)
  have hue : user = found - w.physicalStart + w.userStart := Option.some.inj (hu.symm.trans hr.1)
  have hpl := L.placed w hwm
  have hend : w.physical w.userEnd = w.userEnd - w.userStart + w.physicalStart := rfl
  have hb := hf.below
  have hab := hf.above
  have hrep := L.representable.2 w hwm
  have hua : pageSize ∣ user := by
    rw [hue]
    exact Nat.dvd_add (Nat.dvd_sub hf.aligned hpl.startAligned) hpl.userAligned
  have hunm : m.Unmapped (found + largeShift offset user) length :=
    fun q h1 h2 => hf.unmapped q (by omega) (by omega)
  have hreach := reached_window L.toSeparate hl hwm (p := found + largeShift offset user)
    (by omega) (by omega)
  refine ⟨_, ⟨Nat.dvd_add hf.aligned (largeShift_aligned ho hua), ?_, ?_, hunm, hreach⟩, ?_⟩
  · exact L.boot.trans (by omega)
  · omega
  · have hsum : found + largeShift offset user - w.physicalStart + w.userStart =
        user + largeShift offset user := by omega
    rw [hsum]
    exact largeShift_congr (by omega)

/-- The offsets of the large-page rule are page aligned if the file's are. -/
theorem largePageOffset_aligned {kind : MappingKind}
    (hk : ∀ o alignment, kind = .regularFile o alignment → pageSize ∣ o)
    (h : largePageOffset kind hint length = some offset) : pageSize ∣ offset := by
  rcases kind with _ | ⟨o, _ | _⟩ | _
  · simp only [largePageOffset] at h
    split_ifs at h
    exact Option.some.inj h ▸ Nat.dvd_zero _
  · simp only [largePageOffset] at h
    split at h
    · split_ifs at h
      exact Option.some.inj h ▸ hk o _ rfl
    · exact absurd h (by simp)
  · exact absurd h (by simp [largePageOffset])
  · exact absurd h (by simp [largePageOffset])

theorem checkedAdd_eq {x y z : ℕ} (h : checkedAdd x y = some z) : z = x + y := by
  rw [checkedAdd] at h
  split_ifs at h
  exact (Option.some.inj h).symm

theorem placeWithoutHint_fits {offset : Option ℕ} (L : Layout m mm) (hl : 0 < length)
    (hw : m.hasMmapWindow = true) (ho : ∀ o, offset = some o → pageSize ∣ o)
    (h : placeWithoutHint m mm length offset = some p) : ∃ user, Fits m mm length p user := by
  rw [placeWithoutHint] at h
  split at h
  · rename_i o found hm
    obtain ⟨o', ho', hm⟩ := bind_eq_some_iff.1 hm
    obtain ⟨padded, hpad, hm⟩ := bind_eq_some_iff.1 hm
    obtain ⟨found', hfound, he⟩ := map_eq_some_iff.1 hm
    obtain ⟨rfl, rfl⟩ := Prod.mk.inj he
    obtain ⟨user, hu, rfl⟩ := map_eq_some_iff.1 h
    obtain rfl := checkedAdd_eq hpad
    obtain ⟨user', hf, -⟩ := shifted_fits L hl hw (ho _ ho') hfound hu
    exact ⟨user', hf⟩
  · exact placeAnywhere_fits L hl hw h

theorem placeWithoutHint_large {g : ℕ} (L : Layout m mm) (hl : 0 < length)
    (ha : pageSize ∣ length) (hw : m.hasMmapWindow = true) (ho : pageSize ∣ offset)
    (hg : pageSize ∣ g) (h1 : mm.mmapBase ≤ g) (h2 : g + (length + largePage) ≤ mm.mmapLimit)
    (hu : m.Unmapped g (length + largePage)) :
    ∃ p user, placeWithoutHint m mm length (some offset) = some p ∧
      m.physicalToUser p = some user ∧ user % largePage = offset % largePage := by
  obtain ⟨-, w, hwm, hs, he⟩ := L.windowed hw
  have hpl := L.placed w hwm
  have hend := hpl.physical_le
  have hguest := hpl.below
  have hbase := hpl.above
  have hrep := L.representable.1
  have hpad : checkedAdd length largePage = some (length + largePage) :=
    if_pos (by omega)
  have hsearch : m.searchable mm.mmapBase mm.mmapLimit (length + largePage) = true :=
    searchable_iff.2 ⟨by omega, L.aligned.1, L.aligned.2,
      Nat.dvd_add ha (by decide), by omega, by omega, by omega⟩
  obtain ⟨found, hfound⟩ := isSome_iff_exists.1
    (topdown_isSome hsearch hg h1 h2 hu)
  have hf := topdown_found hfound
  have hr := reached_window L.toSeparate (by omega) hwm
    (hs.trans hf.above) (hf.below.trans he)
  obtain ⟨user', hfits, hcong⟩ := shifted_fits L hl hw ho hfound hr.1
  refine ⟨_, user', ?_, hfits.reached.1, hcong⟩
  have htop : topDown m mm (length + largePage) = some found := hfound
  rw [placeWithoutHint, bind_some, hpad, bind_some, htop, map_some]
  dsimp only
  rw [hr.1, map_some]

/-! ## Hints -/

theorem roundHint_eq (ha : pageSize ∣ hint) (hm : mmapMinAddr ≤ hint) : roundHint hint = hint := by
  have h0 : 0 < hint := Nat.lt_of_lt_of_le (by decide) hm
  rw [roundHint, Nat.div_mul_cancel ha]
  split
  · exact absurd h0 (Nat.lt_irrefl 0)
  · exact max_eq_left hm

theorem freeHint_eq (L : Layout m mm) (hl : 0 < length) (ha : pageSize ∣ length)
    (hh : pageSize ∣ hint) (ht : m.userRangeToGuest hint length = some p)
    (h1 : bootReservedEnd ≤ p) (h2 : p + length ≤ mm.mmapLimit) (hu : m.Unmapped p length) :
    freeHint m mm length hint = some p := by
  obtain ⟨hp, hb, he⟩ := userRangeToGuest_bounds L.toSeparate hl hh ht
  have hs : m.searchable p (p + length) length = true :=
    searchable_iff.2 ⟨hl, hp, Nat.dvd_add hp ha, ha, hb, he, by omega⟩
  rw [freeHint, ht, bind_some, if_pos ⟨h1, h2, bottomUp_eq hs hu⟩]

end

/-- **Placement is valid.**  In a layout the loaders make, for a nonempty length of
    whole pages and page-aligned file offsets: every place is aligned, unmapped,
    inside `[bootReservedEnd, mmapLimit]`, one run of user addresses, and below 2 GiB
    for `MAP_32BIT`; where no hint decides, the large-page rule applies and the mapping
    range has a gap for the padded length, the user address is congruent to the
    offset; and a free hint is honoured. -/
theorem place_mapping_valid {m : GuestMemory} {mm : MemoryManager} (L : Layout m mm)
    {length : ℕ} (hl : 0 < length) (ha : pageSize ∣ length) (hint : ℕ) {kind : MappingKind}
    (hk : ∀ offset alignment, kind = .regularFile offset alignment → pageSize ∣ offset)
    (map32Bit : Bool) :
    (∀ p, placeMapping m mm length hint kind map32Bit = some p →
      ∃ user, Fits m mm length p user ∧ (map32Bit = true → user + length ≤ map32BitEnd)) ∧
    (∀ offset g, m.hasMmapWindow = true → map32Bit = false →
      placeAtHint m mm length (roundHint hint) = none →
      largePageOffset kind (roundHint hint) length = some offset →
      pageSize ∣ g → mm.mmapBase ≤ g → g + (length + largePage) ≤ mm.mmapLimit →
      m.Unmapped g (length + largePage) →
      ∃ p user, placeMapping m mm length hint kind map32Bit = some p ∧
        m.physicalToUser p = some user ∧ user % largePage = offset % largePage) ∧
    (∀ p, m.hasMmapWindow = true → pageSize ∣ hint → mmapMinAddr ≤ hint →
      m.userRangeToGuest hint length = some p → bootReservedEnd ≤ p →
      p + length ≤ mm.mmapLimit → m.Unmapped p length →
      (map32Bit = true → hint + length ≤ map32BitEnd) →
      placeMapping m mm length hint kind map32Bit = some p) := by
  refine ⟨fun p h => ?_, ?_, ?_⟩
  · rw [placeMapping] at h
    split_ifs at h with h32 hw
    · obtain ⟨user, hf, hb⟩ := place32Bit_fits L hl h
      exact ⟨user, hf, fun _ => hb⟩
    · have hno : ∀ {P : Prop}, map32Bit = true → P := fun h => absurd h h32
      rcases or_eq_some_iff.1 h with h | ⟨-, h⟩
      · obtain ⟨user, hf⟩ := placeAtHint_fits L hl h
        exact ⟨user, hf, hno⟩
      · obtain ⟨user, hf⟩ := placeWithoutHint_fits L hl hw
          (fun o ho => largePageOffset_aligned hk ho) h
        exact ⟨user, hf, hno⟩
    · obtain ⟨hf, -⟩ := legacy_fits L hl (Bool.not_eq_true _ ▸ hw) le_rfl h
      exact ⟨p, hf, fun h => absurd h h32⟩
  · intro offset g hw h32 hhint hoff hg h1 h2 hu
    rw [placeMapping, h32, hw, if_neg Bool.false_ne_true, if_pos rfl, hhint, none_or, hoff]
    exact placeWithoutHint_large L hl ha hw (largePageOffset_aligned hk hoff) hg h1 h2 hu
  · intro p hw hh hm ht h1 h2 hu h32
    have hfree := freeHint_eq L hl ha hh ht h1 h2 hu
    have h0 : hint ≠ 0 := (Nat.lt_of_lt_of_le (by decide) hm).ne'
    rw [placeMapping, roundHint_eq hh hm]
    split_ifs with hb
    · rw [place32Bit, if_pos ⟨h0, h32 hb⟩, hfree]
      rfl
    · rw [placeAtHint, if_pos h0, hfree]
      rfl

/-! ## A memory with a window -/

/-- 16 MiB of memory whose upper half is the mmap window. -/
def windowedMemory : GuestMemory :=
  { GuestMemory.new 0 0x1000000 with
    windows := [⟨0x800000, 0x1000000, linuxMmapBase - 0x800000, linuxMmapBase⟩]
    identityEnd := some 0x800000 }

def windowedManager : MemoryManager := ⟨0x800000, 0x800000, 0x1000000⟩

theorem windowed_layout : Layout windowedMemory windowedManager where
  placed := by
    intro w hw
    obtain rfl := mem_singleton.1 hw
    constructor <;> decide
  apart := pairwise_singleton _ _
  covered := ⟨rfl, by decide⟩
  userApart := pairwise_singleton _ _
  identity := by
    intro w hw
    obtain rfl := mem_singleton.1 hw
    decide
  boot := by decide
  ordered := by decide
  aligned := by decide
  windowed := fun _ => ⟨by decide, _, mem_singleton_self _, by decide⟩
  plain := fun h => absurd h (by decide)
  representable := by
    refine ⟨by decide, fun w hw => ?_⟩
    obtain rfl := mem_singleton.1 hw
    decide

/-- An anonymous mapping of a large page, one page above a gap for two. -/
theorem place_mapping_valid_windowed :
    placeMapping windowedMemory windowedManager 0x200000 0 .anonymous false = some 0xc01000 ∧
      ∃ user, Fits windowedMemory windowedManager 0x200000 0xc01000 user := by
  have hp : placeMapping windowedMemory windowedManager 0x200000 0 .anonymous false =
      some 0xc01000 := by decide +kernel
  refine ⟨hp, ?_⟩
  obtain ⟨user, hf, -⟩ := (place_mapping_valid windowed_layout (by decide) (by decide) 0
    (fun _ _ h => absurd h (by simp)) false).1 _ hp
  exact ⟨user, hf⟩

/-- A file at an offset that is not page aligned is placed off a page. -/
theorem place_mapping_unaligned :
    placeMapping windowedMemory windowedManager 0x400000 0 (.regularFile 1 .largePage) false =
      some 0xa01001 ∧ ¬ pageSize ∣ 0xa01001 := by
  decide +kernel

end Reverie.Memory
