/-
  The reserved input page (`reserved_input/mod.rs` and the data types of its registry).
  Identities are pairs of a run and a generation that is never reused inside the run, and
  order first by run, then by generation.
-/
import Mathlib

namespace Reverie.Input

/-- `InputUnavailable`: a refusal, by its stable reason. -/
abbrev Reason := String

/-! ## Identities -/

/-- Native task incarnation. -/
structure InputTaskId where
  run : ℕ
  generation : ℕ
  tid : ℤ
  deriving DecidableEq

def InputTaskId.cmp : InputTaskId → InputTaskId → Ordering :=
  compareLex (compareOn InputTaskId.run)
    (compareLex (compareOn InputTaskId.generation) (compareOn InputTaskId.tid))

instance : Ord InputTaskId := ⟨InputTaskId.cmp⟩

instance : Std.TransOrd InputTaskId :=
  inferInstanceAs (Std.TransCmp (compareLex (compareOn InputTaskId.run)
    (compareLex (compareOn InputTaskId.generation) (compareOn InputTaskId.tid))))

instance : Std.LawfulEqOrd InputTaskId where
  compare_self := Std.ReflCmp.compare_self
  eq_of_compare {a b} h := by
    have h' : InputTaskId.cmp a b = .eq := h
    simp only [InputTaskId.cmp, compareLex, compareOn, Ordering.then_eq_eq,
      Std.LawfulEqOrd.compare_eq_iff_eq] at h'
    obtain ⟨r, g, t⟩ := a
    simp_all

/-- What a lifetime is the lifetime of. -/
inductive LifetimeKind where
  | region | files | group

/-- Lifetime of an address space, a descriptor table or a thread group. -/
structure Lifetime (kind : LifetimeKind) where
  run : ℕ
  generation : ℕ
  deriving DecidableEq

/-- An address space, in its time. -/
abbrev RegionLifetime := Lifetime .region
/-- A descriptor table, in its time. -/
abbrev FileTableLifetime := Lifetime .files
/-- A thread group, in its time. -/
abbrev ThreadGroupLifetime := Lifetime .group

def Lifetime.cmp {kind : LifetimeKind} : Lifetime kind → Lifetime kind → Ordering :=
  compareLex (compareOn Lifetime.run) (compareOn Lifetime.generation)

instance {kind : LifetimeKind} : Ord (Lifetime kind) := ⟨Lifetime.cmp⟩

instance {kind : LifetimeKind} : Std.TransOrd (Lifetime kind) :=
  inferInstanceAs (Std.TransCmp
    (compareLex (compareOn (@Lifetime.run kind)) (compareOn Lifetime.generation)))

instance {kind : LifetimeKind} : Std.LawfulEqOrd (Lifetime kind) where
  compare_self := Std.ReflCmp.compare_self
  eq_of_compare {a b} h := by
    have h' : Lifetime.cmp a b = .eq := h
    simp only [Lifetime.cmp, compareLex, compareOn, Ordering.then_eq_eq,
      Std.LawfulEqOrd.compare_eq_iff_eq] at h'
    obtain ⟨r, g⟩ := a
    simp_all

/-- Identity of one physical injection within its run. -/
structure PhysicalInjectionId where
  run : ℕ
  id : ℕ
  deriving DecidableEq

def PhysicalInjectionId.cmp : PhysicalInjectionId → PhysicalInjectionId → Ordering :=
  compareLex (compareOn PhysicalInjectionId.run) (compareOn PhysicalInjectionId.id)

instance : Ord PhysicalInjectionId := ⟨PhysicalInjectionId.cmp⟩

instance : Std.TransOrd PhysicalInjectionId :=
  inferInstanceAs (Std.TransCmp
    (compareLex (compareOn PhysicalInjectionId.run) (compareOn PhysicalInjectionId.id)))

instance : Std.LawfulEqOrd PhysicalInjectionId where
  compare_self := Std.ReflCmp.compare_self
  eq_of_compare {a b} h := by
    have h' : PhysicalInjectionId.cmp a b = .eq := h
    simp only [PhysicalInjectionId.cmp, compareLex, compareOn, Ordering.then_eq_eq,
      Std.LawfulEqOrd.compare_eq_iff_eq] at h'
    obtain ⟨r, i⟩ := a
    simp_all

/-! ## Layouts and images -/

def RESERVED_INPUT_BASE : ℕ := 0x71010000

/-- The call conventions. -/
inductive InputAbi where
  | x86_64 | aarch64
  deriving DecidableEq

/-- Where the reserved page is. -/
structure ReservedInputLayout where
  base : ℕ
  pageBytes : ℕ
  abi : InputAbi
  deriving DecidableEq

def ReservedInputLayout.validate (l : ReservedInputLayout) : Except Reason ReservedInputLayout :=
  if l.base ≠ RESERVED_INPUT_BASE ∨ ¬ (l.pageBytes = 4096 ∨ l.pageBytes = 16384 ∨ l.pageBytes = 65536)
      ∨ 2 ^ 64 ≤ l.base + l.pageBytes ∨ (l.abi = .x86_64 ∧ l.pageBytes ≠ 4096) then
    .error "input-layout-unsupported"
  else .ok l

/-- A layout that is validated. -/
def ReservedInputLayout.Valid (l : ReservedInputLayout) : Prop := l.validate = .ok l

instance (l : ReservedInputLayout) : Decidable l.Valid :=
  if h : l.base ≠ RESERVED_INPUT_BASE ∨
      ¬ (l.pageBytes = 4096 ∨ l.pageBytes = 16384 ∨ l.pageBytes = 65536)
      ∨ 2 ^ 64 ≤ l.base + l.pageBytes ∨ (l.abi = .x86_64 ∧ l.pageBytes ≠ 4096) then
    .isFalse fun hv => by
      rw [ReservedInputLayout.Valid, ReservedInputLayout.validate, if_pos h] at hv
      cases hv
  else .isTrue (by rw [ReservedInputLayout.Valid, ReservedInputLayout.validate, if_neg h])

/-- The complete future image of a page.  Only `new` builds one, so its layout
    is valid and it has a byte for every byte of the page. -/
structure ReservedInputImage where
  layout : ReservedInputLayout
  bytes : List UInt8
  valid : layout.Valid
  complete : bytes.length = layout.pageBytes

theorem ReservedInputLayout.valid_of_validate {l v : ReservedInputLayout}
    (h : l.validate = .ok v) : v = l ∧ l.Valid := by
  have hv : v = l := by
    unfold validate at h
    split_ifs at h
    exact (Except.ok.inj h).symm
  subst hv
  exact ⟨rfl, h⟩

theorem ReservedInputLayout.Valid.base_eq {l : ReservedInputLayout} (h : l.Valid) :
    l.base = RESERVED_INPUT_BASE := by
  simp only [Valid, validate] at h
  split_ifs at h with hc
  by_contra hb
  exact hc (Or.inl hb)

/-! ## Accesses -/

/-- Which memory an access is to. -/
inductive InputTarget where
  | region (r : RegionLifetime)
  | unknown

/-- Which bytes an access is to. -/
inductive InputSpan where
  | range (address length : ℕ)
  | unknown

/-- The range that `InputSpan::range` refuses. -/
def InputSpan.overflows : InputSpan → Bool
  | .range address length => 2 ^ 64 ≤ address + length
  | .unknown => false

def InputSpan.overlaps (s : InputSpan) (layout : ReservedInputLayout) : Bool :=
  match s with
  | .unknown => true
  | .range address length =>
    length ≠ 0 && (2 ^ 64 ≤ address + length ||
      (address < layout.base + layout.pageBytes && layout.base < address + length))

/-- How memory is accessed. -/
inductive InputAccessDirection where
  | read | write | readWrite | forcedWrite

/-- How long an access lasts. -/
inductive InputAccessLifetime where
  | transient | persistent
  deriving DecidableEq

/-- A declared access. -/
structure InputAccess where
  target : InputTarget
  span : InputSpan
  direction : InputAccessDirection
  lifetime : InputAccessLifetime
  cause : Reason

def InputTarget.reaches (t : InputTarget) (region : RegionLifetime) : Bool :=
  match t with
  | .unknown => true
  | .region id => id == region

/-- Memory that others may reach. -/
structure InputExposure where
  target : InputTarget
  cause : Reason

/-! ## Physical calls -/

/-- What a grant is for. -/
inductive InputGrantKind where
  | ordinary
  | pendingVfork (logicalOperation : ℕ)

/-- A grant that is pending for another operation. -/
def InputGrantKind.pendingOther (kind : InputGrantKind) (logicalOperation : ℕ) : Bool :=
  match kind with
  | .pendingVfork pending => pending ≠ logicalOperation
  | .ordinary => false

/-- What a call is to share, as far as is known. -/
structure InputExpectedSharing where
  memory : Option Bool := none
  files : Option Bool := none
  mayCreate : Bool := false
  threadGroup : Option Bool := none

/-- What a call reads. -/
inductive InputCallInput where
  | registers
  | immutable (address : ℕ) (bytes : List UInt8)
  | unknown

/-- A physical call. -/
structure PhysicalInjectionDescription where
  number : ℕ
  args : Vector ℕ 6
  input : InputCallInput
  expectedSharing : InputExpectedSharing
  transient : List InputAccess
  prospective : List InputExposure
  unknownLifecycle : Option InputExposure

/-- What became of a physical call. -/
inductive PhysicalInjectionState where
  | prepared
  | issued
  | retainedBirth (child : InputTaskId)
  | provedNoChild
  | outcomeUnknown
  deriving DecidableEq

/-- A call whose native outcome is decided. -/
def PhysicalInjectionState.settled : PhysicalInjectionState → Bool
  | .prepared | .issued => false
  | _ => true

/-- How far the input of a call is prepared. -/
inductive InputTransactionPhase where
  | preparing | preparedStopped | initializing | normalizing | ready | launched
  deriving DecidableEq

/-! ## Handles -/

/-- A task and what it belongs to. -/
structure InputTaskRegistration where
  task : InputTaskId
  nativeTid : ℤ
  nativePid : ℤ
  toolTid : Option ℤ
  toolPid : Option ℤ
  group : ThreadGroupLifetime
  parent : Option InputTaskId
  region : RegionLifetime
  files : FileTableLifetime

/-- `InputOperationScope`, by the run of its control. -/
structure InputOperationScope where
  run : ℕ
  task : InputTaskId
  grant : ℕ
  logicalOperation : ℕ

/-- A declared access of one run. -/
structure InputAccessLease where
  run : ℕ
  id : ℕ

/-- A freeze of one run. -/
structure InputFreezeCohort where
  run : ℕ
  id : ℕ

/-- The creation of a descriptor table. -/
structure InputFilesEvent where
  source : InputTaskRegistration
  destination : InputTaskRegistration
  shared : Option Bool
  exec : Bool

/-- Identity of a `NativeOperationCompletion` (pointer equality). -/
abbrev NativeOperationId := ℕ

end Reverie.Input
