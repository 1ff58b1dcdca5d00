/-
  User addresses of a guest memory (`memory.rs`): identity addresses, and windows that place
  physical memory elsewhere.  Where they overlap nowhere (`Separate`), physical memory inside
  one window, or below the identity limit, is one run of user addresses, and translation
  has an inverse (`layout_translates`).
-/
import Reverie.Memory.Operations

namespace Reverie.Memory
open List UserWindow

namespace UserWindow

def containsUser (w : UserWindow) (address : ℕ) : Bool :=
  w.userStart ≤ address && address < w.userEnd

def physical (w : UserWindow) (user : ℕ) : ℕ := user - w.userStart + w.physicalStart

def containsPhysical (w : UserWindow) (address : ℕ) : Bool :=
  w.physicalStart ≤ address && address < w.physical w.userEnd

theorem containsUser_iff {w : UserWindow} {u : ℕ} :
    w.containsUser u = true ↔ w.userStart ≤ u ∧ u < w.userEnd := by
  rw [containsUser, Bool.and_eq_true, decide_eq_true_eq, decide_eq_true_eq]

theorem containsPhysical_iff {w : UserWindow} {p : ℕ} :
    w.containsPhysical p = true ↔ w.physicalStart ≤ p ∧ p < w.physical w.userEnd := by
  rw [containsPhysical, Bool.and_eq_true, decide_eq_true_eq, decide_eq_true_eq]

end UserWindow

namespace GuestMemory

/-! ## Translation -/

variable (m : GuestMemory)

/-- The exclusive end of the identity user addresses. -/
def identityLimit : ℕ :=
  min (m.identityEnd.getD ((m.windows.map UserWindow.physicalStart).min?.getD m.coverageEnd))
    m.coverageEnd

def translate (address length : ℕ) : Except Error ℕ :=
  match m.windows.find? fun w => w.containsUser address || (length == 0 && address == w.userEnd) with
  | some w =>
    if address + length > w.userEnd then
      .error (.invalidGuestAddress address length m.coverageStart m.coverageEnd)
    else .ok (w.physical address)
  | none =>
    if address + length > m.identityLimit then
      .error (.invalidGuestAddress address length m.coverageStart m.coverageEnd)
    else if m.coverageStart ≤ address ∧
        address - m.coverageStart + length ≤ m.coverageEnd - m.coverageStart then
      .ok (m.coverageStart + (address - m.coverageStart))
    else .error (.invalidGuestAddress address length m.coverageStart m.coverageEnd)

def userRangeToGuest (address length : ℕ) : Option ℕ :=
  (m.translate address length).toOption

def physicalToUser (physical : ℕ) : Option ℕ :=
  match m.windows.find? fun w => w.containsPhysical physical with
  | some w => some (physical - w.physicalStart + w.userStart)
  | none =>
    if m.coverageStart ≤ physical ∧ physical < m.identityLimit then some physical else none

/-! ## Windows -/

/-- What `establish_user_window` asks of a window. -/
structure Placed (m : GuestMemory) (w : UserWindow) : Prop where
  above : m.guestBase ≤ w.physicalStart
  below : w.physicalEnd ≤ m.guestEnd
  nonempty : w.physicalStart < w.physicalEnd
  startAligned : pageSize ∣ w.physicalStart
  endAligned : pageSize ∣ w.physicalEnd
  userAligned : pageSize ∣ w.userStart
  ordered : w.userStart ≤ w.userEnd
  span : w.userEnd - w.userStart ≤ w.physicalEnd - w.physicalStart

/-- The refusals of `establish_user_window` that look at the window alone. -/
def misplaced (w : UserWindow) : Bool :=
  w.physicalStart < m.guestBase || w.physicalEnd > m.guestEnd ||
    w.physicalStart ≥ w.physicalEnd || w.physicalStart % pageSize != 0 ||
    w.physicalEnd % pageSize != 0 || w.userStart % pageSize != 0 || w.userEnd < w.userStart ||
    w.userEnd - w.userStart > w.physicalEnd - w.physicalStart

/-- The physical ranges of two windows do not overlap. -/
def Apart (v w : UserWindow) : Prop :=
  v.physicalEnd ≤ w.physicalStart ∨ w.physicalEnd ≤ v.physicalStart

/-- `establish_user_window`; a window with the same user start goes even if the call
    is refused after that.  The error is `LongModeMemoryTooSmall`. -/
def establishUserWindow (window : UserWindow) : Bool × GuestMemory :=
  if m.misplaced window then (false, m)
  else
    let kept := m.windows.filter fun w => w.userStart != window.userStart
    if kept.any fun w =>
        w.physicalStart < window.physicalEnd && window.physicalStart < w.physicalEnd then
      (false, { m with windows := kept })
    else
      (true, { m with
        windows := (kept ++ [window]).insertionSort fun v w => v.userStart ≤ w.userStart })

/-- The windows are whole pages of the memory and overlap no other. -/
structure Windows (m : GuestMemory) : Prop where
  placed : ∀ w ∈ m.windows, m.Placed w
  apart : m.windows.Pairwise Apart

instance : Std.Symm Apart := ⟨fun _ _ => Or.symm⟩

theorem placed_of_misplaced {m : GuestMemory} {w : UserWindow} (h : m.misplaced w = false) :
    m.Placed w := by
  simp only [misplaced, Bool.or_eq_false_iff, decide_eq_false_iff_not, bne_eq_false_iff_eq,
    Nat.not_lt, Nat.not_le] at h
  obtain ⟨⟨⟨⟨⟨⟨⟨h1, h2⟩, h3⟩, h4⟩, h5⟩, h6⟩, h7⟩, h8⟩ := h
  exact ⟨h1, h2, h3, Nat.dvd_of_mod_eq_zero h4, Nat.dvd_of_mod_eq_zero h5,
    Nat.dvd_of_mod_eq_zero h6, h7, h8⟩

/-- Establishing a window keeps the windows apart, also when it is refused. -/
theorem establishUserWindow_keeps {m : GuestMemory} (h : m.Windows) (window : UserWindow) :
    (m.establishUserWindow window).2.Windows := by
  rw [establishUserWindow]
  split_ifs with hm
  · exact h
  have hp := placed_of_misplaced (Bool.not_eq_true _ ▸ hm)
  have hkept : ∀ w ∈ m.windows.filter fun w => w.userStart != window.userStart, m.Placed w :=
    fun w hw => h.placed w (mem_of_mem_filter hw)
  have hap := h.apart.filter fun w => w.userStart != window.userStart
  dsimp only
  split_ifs with ho
  · refine ⟨fun w hw => ?_, hap⟩
    obtain ⟨h1, h2, h3, h4, h5, h6, h7, h8⟩ := hkept w hw
    exact ⟨h1, h2, h3, h4, h5, h6, h7, h8⟩
  · rw [Bool.not_eq_true, any_eq_false] at ho
    have hall : (List.filter (fun w => w.userStart != window.userStart) m.windows ++
        [window]).Pairwise Apart := by
      refine pairwise_append.2 ⟨hap, pairwise_singleton _ _, fun v hv w hw => ?_⟩
      rw [mem_singleton] at hw
      subst hw
      have := ho v hv
      rw [Bool.and_eq_true, decide_eq_true_eq, decide_eq_true_eq, not_and_or, Nat.not_lt,
        Nat.not_lt] at this
      exact this.symm
    refine ⟨fun w hw => ?_, (perm_insertionSort _ _).symm.pairwise hall Or.symm⟩
    have hw' := (perm_insertionSort _ _).mem_iff.1 hw
    have hpw : m.Placed w := by
      rcases mem_append.1 hw' with hw' | hw'
      · exact hkept w hw'
      · rw [mem_singleton] at hw'
        exact hw' ▸ hp
    obtain ⟨h1, h2, h3, h4, h5, h6, h7, h8⟩ := hpw
    exact ⟨h1, h2, h3, h4, h5, h6, h7, h8⟩

/-! ## One run of user addresses -/

/-- The user addresses of two windows do not overlap. -/
def UserApart (v w : UserWindow) : Prop := v.userEnd ≤ w.userStart ∨ w.userEnd ≤ v.userStart

instance : Std.Symm UserApart := ⟨fun _ _ => Or.symm⟩

/-- What the loaders add: the coverage is the memory, the user addresses of two
    windows do not overlap, and the identity addresses lie below every window, in
    physical memory and in user addresses. -/
structure Separate (m : GuestMemory) : Prop extends Windows m where
  covered : m.coverageStart = m.guestBase ∧ m.coverageEnd = m.guestEnd
  userApart : m.windows.Pairwise UserApart
  identity : ∀ w ∈ m.windows, m.identityLimit ≤ w.physicalStart ∧ m.identityLimit ≤ w.userStart

/-- The physical range is the user range from `user` on. -/
def Reached (physical length user : ℕ) : Prop :=
  m.physicalToUser physical = some user ∧ m.userRangeToGuest user length = some physical

variable {m : GuestMemory} {w : UserWindow} {p u length : ℕ}

theorem Placed.physical_le (h : m.Placed w) : w.physical w.userEnd ≤ w.physicalEnd := by
  have := h.span
  have := h.nonempty
  rw [UserWindow.physical]
  omega

theorem find_physical (h : m.Separate) (hw : w ∈ m.windows) (hp : w.containsPhysical p = true) :
    m.windows.find? (fun v => v.containsPhysical p) = some w := by
  rcases hf : m.windows.find? (fun v => v.containsPhysical p) with _ | v
  · rw [find?_eq_none] at hf
    exact absurd hp (hf w hw)
  · have hv := mem_of_find?_eq_some hf
    have hvp := find?_some hf
    rw [containsPhysical_iff] at hvp hp
    have h1 := (h.placed v hv).physical_le
    have h2 := (h.placed w hw).physical_le
    by_contra hne
    have := h.apart.forall hv hw fun e => hne (hf.trans (congrArg some e))
    rw [Apart] at this
    omega

theorem find_user (h : m.Separate) (hl : 0 < length) (hw : w ∈ m.windows)
    (hu : w.containsUser u = true) :
    m.windows.find? (fun v => v.containsUser u || (length == 0 && u == v.userEnd)) = some w := by
  rcases hf : m.windows.find? (fun v => v.containsUser u || (length == 0 && u == v.userEnd)) with _ | v
  · rw [find?_eq_none] at hf
    exact absurd (by rw [hu]; rfl) (hf w hw)
  · have hv := mem_of_find?_eq_some hf
    have hvu := find?_some hf
    rw [beq_eq_false_iff_ne.2 hl.ne', Bool.false_and, Bool.or_false] at hvu
    rw [containsUser_iff] at hvu hu
    by_contra hne
    have := h.userApart.forall hv hw fun e => hne (hf.trans (congrArg some e))
    rw [UserApart] at this
    omega

theorem reached_window (h : m.Separate) (hl : 0 < length) (hw : w ∈ m.windows)
    (h1 : w.physicalStart ≤ p) (h2 : p + length ≤ w.physical w.userEnd) :
    m.Reached p length (p - w.physicalStart + w.userStart) := by
  have hend : w.physical w.userEnd = w.userEnd - w.userStart + w.physicalStart := rfl
  have hp : w.containsPhysical p = true := containsPhysical_iff.2 ⟨h1, by omega⟩
  have hu : w.containsUser (p - w.physicalStart + w.userStart) = true :=
    containsUser_iff.2 ⟨by omega, by omega⟩
  constructor
  · rw [physicalToUser, find_physical h hw hp]
  · rw [userRangeToGuest, translate, find_user h hl hw hu]
    dsimp only
    rw [if_neg (by omega), UserWindow.physical]
    exact congrArg some (by omega)

theorem reached_identity (h : m.Separate) (hl : 0 < length) (h1 : m.guestBase ≤ p)
    (h2 : p + length ≤ m.identityLimit) : m.Reached p length p := by
  have hc : m.identityLimit ≤ m.coverageEnd := min_le_right _ _
  have hcs := h.covered.1
  constructor
  · have hn : m.windows.find? (fun v => v.containsPhysical p) = none := by
      refine find?_eq_none.2 fun v hv hp => ?_
      have := (h.identity v hv).1
      rw [containsPhysical_iff] at hp
      omega
    rw [physicalToUser, hn]
    exact if_pos ⟨by omega, by omega⟩
  · have hn : m.windows.find?
        (fun v => v.containsUser p || (length == 0 && p == v.userEnd)) = none := by
      refine find?_eq_none.2 fun v hv hp => ?_
      have := (h.identity v hv).2
      rw [beq_eq_false_iff_ne.2 hl.ne', Bool.false_and, Bool.or_false,
        containsUser_iff] at hp
      omega
    rw [userRangeToGuest, translate, hn]
    rw [if_neg (by omega), if_pos ⟨by omega, by omega⟩]
    exact congrArg some (by omega)

theorem userRangeToGuest_cases (hl : 0 < length) (hu : m.userRangeToGuest u length = some p) :
    (∃ w ∈ m.windows, w.userStart ≤ u ∧ u + length ≤ w.userEnd ∧ p = w.physical u) ∨
      (m.coverageStart ≤ u ∧ u + length ≤ m.identityLimit ∧ p = u) := by
  rw [userRangeToGuest, translate] at hu
  split at hu
  · rename_i w hf
    have hc := find?_some hf
    rw [beq_eq_false_iff_ne.2 hl.ne', Bool.false_and, Bool.or_false,
      containsUser_iff] at hc
    split_ifs at hu with h1
    · exact absurd hu (by simp [Except.toOption])
    · exact .inl ⟨w, mem_of_find?_eq_some hf, hc.1, by omega, (Option.some.inj hu).symm⟩
  · split_ifs at hu with h1 h2
    · exact absurd hu (by simp [Except.toOption])
    · have := Option.some.inj hu
      exact .inr ⟨h2.1, by omega, by omega⟩
    · exact absurd hu (by simp [Except.toOption])

theorem reached_user (h : m.Separate) (hl : 0 < length)
    (hu : m.userRangeToGuest u length = some p) : m.Reached p length u := by
  refine ⟨?_, hu⟩
  rcases userRangeToGuest_cases hl hu with ⟨w, hw, h1, h2, hp⟩ | ⟨h1, h2, hp⟩
  · have hend : w.physical w.userEnd = w.userEnd - w.userStart + w.physicalStart := rfl
    have hpu : w.physical u = u - w.userStart + w.physicalStart := rfl
    rw [(reached_window h hl hw (p := p) (by omega) (by omega)).1]
    exact congrArg some (by omega)
  · have hr : m.Reached p length p :=
      reached_identity h hl (by have := h.covered.1; omega) (by omega)
    rw [hr.1, hp]

/-- The physical range of a page-aligned user range is page aligned, in the memory. -/
theorem userRangeToGuest_bounds (h : m.Separate) (hl : 0 < length) (ha : pageSize ∣ u)
    (hu : m.userRangeToGuest u length = some p) :
    pageSize ∣ p ∧ m.guestBase ≤ p ∧ p + length ≤ m.guestEnd := by
  rcases userRangeToGuest_cases hl hu with ⟨w, hw, h1, h2, rfl⟩ | ⟨h1, h2, rfl⟩
  · have hp := h.placed w hw
    have hspan := hp.span
    have habove := hp.above
    have hbelow := hp.below
    refine ⟨Nat.dvd_add (Nat.dvd_sub ha hp.userAligned) hp.startAligned, ?_, ?_⟩
    · rw [UserWindow.physical]
      omega
    · rw [UserWindow.physical]
      omega
  · have hc : m.identityLimit ≤ m.coverageEnd := min_le_right _ _
    have hs := h.covered
    exact ⟨ha, by omega, by omega⟩

/-! ## Layouts -/

/-- The calls that lay out user addresses. -/
inductive LayoutCall where
  | establishUserWindow (w : UserWindow)
  | setUserIdentityEnd (stop : ℕ)

def LayoutCall.run (m : GuestMemory) : LayoutCall → GuestMemory
  | .establishUserWindow w => (m.establishUserWindow w).2
  | .setUserIdentityEnd stop => { m with identityEnd := some stop }

/-- What holds while user addresses are laid out. -/
def Laid (m : GuestMemory) : Prop :=
  m.Windows ∧ m.coverageStart = m.guestBase ∧ m.coverageEnd = m.guestEnd

theorem LayoutCall.keeps (h : m.Laid) (call : LayoutCall) : (call.run m).Laid := by
  cases call with
  | establishUserWindow w =>
    refine ⟨establishUserWindow_keeps h.1 w, ?_⟩
    rw [run, GuestMemory.establishUserWindow]
    dsimp only
    split_ifs <;> exact h.2
  | setUserIdentityEnd stop =>
    refine ⟨⟨fun w hw => ?_, h.1.apart⟩, h.2⟩
    obtain ⟨h1, h2, h3, h4, h5, h6, h7, h8⟩ := h.1.placed w hw
    exact ⟨h1, h2, h3, h4, h5, h6, h7, h8⟩

theorem Separate.translates (h : m.Separate) :
    m.userRangeToGuest u 1 = some p ↔ m.physicalToUser p = some u := by
  refine ⟨fun hu => (reached_user h Nat.one_pos hu).1, fun hp => ?_⟩
  rw [physicalToUser] at hp
  split at hp
  · next w hf =>
    have hw := find?_some hf
    rw [containsPhysical_iff] at hw
    rw [← Option.some.inj hp]
    exact (reached_window h Nat.one_pos (mem_of_find?_eq_some hf) hw.1 hw.2).2
  · split_ifs at hp with hi
    rw [← Option.some.inj hp]
    exact (reached_identity h Nat.one_pos (h.covered.1 ▸ hi.1) hi.2).2

/-- **Translation is coherent.**  The windows established overlap in no physical page, and
    where user addresses overlap nowhere, they are translated to physical memory and back. -/
theorem layout_translates (base length : ℕ) (calls : List LayoutCall) :
    let m := calls.foldl LayoutCall.run (.new base length)
    m.Windows ∧ (m.windows.Pairwise UserApart →
      (∀ w ∈ m.windows, m.identityLimit ≤ w.physicalStart ∧ m.identityLimit ≤ w.userStart) →
      ∀ u p, m.userRangeToGuest u 1 = some p ↔ m.physicalToUser p = some u) := by
  intro m
  obtain ⟨hw, hc⟩ : m.Laid := foldlRecOn calls LayoutCall.run
    ⟨⟨fun w hw => absurd hw not_mem_nil, Pairwise.nil⟩, rfl, rfl⟩ fun _ h call _ => call.keeps h
  exact ⟨hw, fun hu hi u p => Separate.translates ⟨hw, hc, hu, hi⟩⟩

end GuestMemory

end Reverie.Memory
