/-
  Runs of address-space operations over the memories of a process (`World`).  A step runs one
  operation on one memory, or makes a memory a clone of another; every step leads to a
  `World` again.
-/
import Reverie.Memory.Effects

namespace Reverie.Memory
open List Function Access

namespace Access

variable {a₀ a : Access}

/-! ## Every operation keeps a memory valid -/

theorem evolves_foldl {ι : Type} {step : Access → ι → Access} {xs : List ι}
    (hstep : ∀ b x, Evolves a b → Evolves a (step b x)) (h : Evolves a a₀) :
    Evolves a (xs.foldl step a₀) := by
  induction xs generalizing a₀ with
  | nil => exact h
  | cons x xs ih => exact ih (hstep a₀ x h)

variable {address length : ℕ} {offset : Option ℕ} {shared : Bool}

section
variable (h : a.Valid)
include h

theorem setUserPages_evolves {writable : Bool}
    {state : Option UserPageState → UserPageState} :
    Evolves a (a.setUserPages address length writable state).2 := by
  rw [setUserPages]
  split
  · exact .refl h
  · exact .refl h
  · split_ifs
    · exact .refl h
    · exact setUserPage_local.run (.refl h)

theorem reserveRegionInner_evolves {kind : RegionKind}
    {preserve : Bool} : Evolves a (a.reserveRegionInner address length kind preserve).2 := by
  rw [reserveRegionInner]
  split
  · exact .refl h
  · exact .refl h
  · split_ifs
    · exact .refl h
    · exact reservePage_local.run (s := ([], a)) (Evolves.refl h)

theorem dropReservation_evolves {old : Replaced} : Evolves a (a.dropReservation old) :=
  dropReservation_local.run (.refl h)

theorem guardPhysicalPages_evolves {pages : List ℕ} : Evolves a (a.guardPhysicalPages pages) :=
  evolves_foldl (fun _ _ => guardPhysicalPage_keeps) (.refl h)

theorem unmapUserRange_evolves : Evolves a (a.unmapUserRange address length).2 := by
  rw [unmapUserRange]
  split_ifs
  · exact .refl h
  · split
    · exact .refl h
    · exact .refl h
    · exact unmapPage_local.run (.refl h)

theorem recordMapping_evolves {first pages : ℕ} :
    Evolves a (a.recordMapping first pages offset shared) := by
  have hb : Evolves a ((List.range pages).foldl (recordPage first offset shared) a) :=
    evolves_foldl (fun _ _ => recordPage_keeps) (.refl h)
  rw [recordMapping]
  refine hb.trans ?_
  generalize (List.range pages).foldl (recordPage first offset shared) a = b at hb
  -- the incarnation is drawn before the loop, so the counter is past it all along
  have hl : ∀ (xs : List ℕ) (c : Access), Evolves b c → b.nextIncarnation < c.nextIncarnation →
      Evolves b (xs.foldl (recordIncarnation first b.nextIncarnation) c) := by
    intro xs
    induction xs with
    | nil => exact fun _ hc _ => hc
    | cons x xs ih =>
      refine fun c hc hlt => ih _ (hc.setMappingIncarnation fun n hn => ?_) hlt
      exact Option.some.inj hn ▸ hlt
  exact hl _ _ ⟨hb.valid.advance le_rfl (Nat.le_succ _), le_rfl, Nat.le_succ _, rfl, rfl, rfl⟩
    (Nat.lt_succ_self _)

theorem recordPageBacking_evolves : Evolves a (a.recordPageBacking address length offset shared) := by
  rw [recordPageBacking]
  split
  · exact recordMapping_evolves h
  · exact .refl h

theorem exposeToolScratch_evolves : Evolves a (a.exposeToolScratch address length).2 := by
  rw [exposeToolScratch]
  split
  · exact .refl h
  · exact .refl h
  · split_ifs
    · exact .refl h
    · exact exposePage_local.run (.refl h)

theorem hideToolScratch_evolves : Evolves a (a.hideToolScratch address length).2 := by
  rw [hideToolScratch]
  split_ifs
  · exact .refl h
  · split
    · exact .refl h
    · exact .refl h
    · exact hidePage_local.run (.refl h)

end

/-! ## Moves -/

section
variable {first last : ℕ}
variable {α : Type}

theorem pageRange_getElem? {f : ℕ → α} {i : ℕ} :
    ((pageRange first last).map f)[i]? = if first + i ≤ last then some (f (first + i)) else none := by
  rw [getElem?_map, pageRange]
  split_ifs with h
  · rw [getElem?_range' (by omega), Nat.one_mul]
    rfl
  · rw [getElem?_eq_none (by simp; omega)]
    rfl

theorem pageRange_getLast? {f : ℕ → α} (h : first ≤ last) :
    ((pageRange first last).map f).getLast? = some (f last) := by
  rw [getLast?_eq_getElem?, length_map, pageRange_getElem?]
  have hl : (pageRange first last).length = last + 1 - first := length_range'
  rw [hl, if_pos (by omega), show first + (last + 1 - first - 1) = last by omega]

end

/-- A move that grows the mapping draws an incarnation. -/
def drawGrown (a : Access) (oldFirst oldLast newFirst newLast : ℕ) : Access :=
  { a with nextIncarnation :=
      if newLast - newFirst > oldLast - oldFirst then a.nextIncarnation + 1
      else a.nextIncarnation }

/-- The memory once the old pages of a move are gone. -/
def vacated (a : Access) (oldFirst oldLast newFirst newLast : ℕ) : Access :=
  (pageRange oldFirst oldLast).foldl unmapPage (a.drawGrown oldFirst oldLast newFirst newLast)

/-- The incarnation of the pages a move adds. -/
def grownIncarnation (a : Access) (oldFirst oldLast newFirst newLast : ℕ) : Option ℕ :=
  if newLast - newFirst > oldLast - oldFirst then some a.nextIncarnation else none

theorem movePages_eq {oldFirst oldLast newFirst newLast : ℕ} {extension : UserPageState} :
    a.movePages oldFirst oldLast newFirst newLast extension =
      (pageRange newFirst newLast).zipIdx.foldl
        (placePage (a.capture oldFirst oldLast) extension
          (a.grownIncarnation oldFirst oldLast newFirst newLast))
        (a.vacated oldFirst oldLast newFirst newLast) := by
  simp only [movePages, grownIncarnation, vacated, drawGrown, decide_eq_true_eq]

section
variable {oldFirst oldLast newFirst newLast : ℕ}

theorem drawGrown_evolves (h : a.Valid) :
    Evolves a (a.drawGrown oldFirst oldLast newFirst newLast) := by
  have hle : a.nextIncarnation ≤
      if newLast - newFirst > oldLast - oldFirst then a.nextIncarnation + 1
      else a.nextIncarnation := by
    split_ifs <;> omega
  exact ⟨h.advance le_rfl hle, le_rfl, hle, rfl, rfl, rfl⟩

theorem vacated_evolves (h : a.Valid) : Evolves a (a.vacated oldFirst oldLast newFirst newLast) :=
  unmapPage_local.run (drawGrown_evolves h)

theorem placed_drawn (h : a.Valid) {i n : ℕ}
    (hn : ((a.capture oldFirst oldLast).incarnations[i]?).getD
      (a.grownIncarnation oldFirst oldLast newFirst newLast) = some n) :
    n < (a.vacated oldFirst oldLast newFirst newLast).nextIncarnation := by
  have hv : ∀ ps : List ℕ, ∀ b : Access, (ps.foldl unmapPage b).nextIncarnation = b.nextIncarnation := by
    intro ps
    induction ps with
    | nil => exact fun _ => rfl
    | cons p ps ih =>
      intro b
      rw [foldl_cons, ih, unmapPage, removePage]
      split_ifs <;> rfl
  rw [vacated, hv, drawGrown]
  rw [capture, pageRange_getElem?, grownIncarnation] at hn
  dsimp only
  by_cases hi : oldFirst + i ≤ oldLast
  · rw [if_pos hi] at hn
    have hlt := h.drawn _ n hn
    split_ifs <;> omega
  · rw [if_neg hi, Option.getD_none] at hn
    split_ifs at hn with hg
    rw [Option.some.injEq] at hn
    rw [if_pos hg]
    omega

theorem movePages_evolves (h : a.Valid) {extension : UserPageState} :
    Evolves a (a.movePages oldFirst oldLast newFirst newLast extension) := by
  have hv : Evolves a (a.vacated oldFirst oldLast newFirst newLast) := vacated_evolves h
  rw [movePages_eq]
  exact hv.trans ((placePage_local fun _ _ => placed_drawn h).run (.refl hv.valid))

end

theorem remapUserRange_evolves (h : a.Valid) {oldAddress oldLength newAddress newLength : ℕ} :
    Evolves a (a.remapUserRange oldAddress oldLength newAddress newLength).2 := by
  rw [remapUserRange]
  split_ifs
  · exact .refl h
  · split
    · exact .refl h
    · exact .refl h
    · split
      · exact .refl h
      · exact .refl h
      · dsimp only
        split_ifs
        · exact .refl h
        · split
          · exact .refl h
          · exact movePages_evolves h

end Access

/-! ## Worlds -/

/-- A process with its memories. -/
structure World where
  nextVersion : ℕ
  nextIncarnation : ℕ
  memories : ℕ → GuestMemory
  valid : ∀ i, (Access.mk (memories i) nextVersion nextIncarnation).Valid

/-- The operations on one memory. -/
inductive Op where
  | map (address length : ℕ) (accessible writable : Bool)
  | mapProtection (address length : ℕ) (prot : BitVec 8)
  | protect (address length : ℕ) (prot : BitVec 8)
  | guardPages (pages : List ℕ)
  | reserve (address length : ℕ) (kind : RegionKind) (preserveSupervisor : Bool)
  /-- the drop of a pending reservation -/
  | release (old : Access.Replaced)
  | unmap (address length : ℕ)
  | record (address length : ℕ) (offset : Option ℕ) (shared : Bool)
  | remap (oldAddress oldLength newAddress newLength : ℕ)
  | expose (address length : ℕ)
  | hide (address length : ℕ)

/-- What an operation does. -/
def Op.apply (a : Access) : Op → Access
  | .map address length accessible writable =>
    (a.mapUserPermissions address length accessible writable).2
  | .mapProtection address length prot => (a.mapUserProtection address length prot).2
  | .protect address length prot => (a.protectUserRange address length prot).2
  | .guardPages pages => a.guardPhysicalPages pages
  | .reserve address length kind preserve => (a.reserveRegionInner address length kind preserve).2
  | .release old => a.dropReservation old
  | .unmap address length => (a.unmapUserRange address length).2
  | .record address length offset shared => a.recordPageBacking address length offset shared
  | .remap oldAddress oldLength newAddress newLength =>
    (a.remapUserRange oldAddress oldLength newAddress newLength).2
  | .expose address length => (a.exposeToolScratch address length).2
  | .hide address length => (a.hideToolScratch address length).2

theorem Op.evolves {a : Access} (h : a.Valid) (op : Op) : Evolves a (op.apply a) := by
  cases op with
  | map => exact setUserPages_evolves h
  | mapProtection => exact setUserPages_evolves h
  | protect => exact setUserPages_evolves h
  | guardPages => exact guardPhysicalPages_evolves h
  | reserve => exact reserveRegionInner_evolves h
  | release => exact dropReservation_evolves h
  | unmap => exact unmapUserRange_evolves h
  | record => exact recordPageBacking_evolves h
  | remap => exact remapUserRange_evolves h
  | expose => exact exposeToolScratch_evolves h
  | hide => exact hideToolScratch_evolves h

/-- An operation, or a clone of a memory. -/
inductive Step where
  | on (memory : ℕ) (op : Op)
  | clone (source target : ℕ)

namespace World

def access (w : World) (i : ℕ) : Access := ⟨w.memories i, w.nextVersion, w.nextIncarnation⟩

/-- The process after an operation on the memory `i`. -/
def put (w : World) (i : ℕ) (b : Access) (h : Evolves (w.access i) b) : World where
  nextVersion := b.nextVersion
  nextIncarnation := b.nextIncarnation
  memories := update w.memories i b.toGuestMemory
  valid := by
    intro j
    by_cases e : j = i
    · subst e
      rw [update_self]
      exact h.valid
    · rw [update_of_ne e]
      exact (w.valid j).advance h.versions h.incarnations

/-- A clone shares the versions and the scratch cache. -/
def clone (w : World) (source target : ℕ) : World where
  nextVersion := w.nextVersion
  nextIncarnation := w.nextIncarnation
  memories := update w.memories target (w.memories source)
  valid := by
    intro j
    by_cases e : j = target
    · rw [e, update_self]
      exact w.valid source
    · rw [update_of_ne e]
      exact w.valid j

def step (w : World) : Step → World
  | .on i op => w.put i (op.apply (w.access i)) (op.evolves (w.valid i))
  | .clone source target => w.clone source target

def run (w : World) (steps : List Step) : World := steps.foldl step w

end World

/-- A process with one memory, and clones of it. -/
def World.new (base length : ℕ) : World where
  nextVersion := 5
  nextIncarnation := 1
  memories := fun _ => .new base length
  valid := fun _ => by
    constructor
    · exact fun q hq => absurd hq (Finset.notMem_empty q)
    · exact fun q n h => absurd h (by simp [GuestMemory.new])
    · exact (by decide : 1 < 5)
    · exact (by decide : 2 < 5)
    · exact (by decide : 3 < 5)
    · exact (by decide : 4 < 5)
    · exact (by decide : 0 < 5 ∧ 0 < 5 ∧ 0 < 5 ∧ 0 < 5)
    · exact fun _ q hq => absurd hq not_mem_nil

end Reverie.Memory
