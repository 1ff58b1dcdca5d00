/-
  Requirements, environments and cells (`selection.rs`).

  A tool states what it needs (`ToolRequirements`), the host what it runs
  (`GuestProfile`) and what it has observed (`EnvironmentSnapshot`); the cells are
  the implementations that admission can choose from.
-/
import Mathlib

namespace Reverie.Selection

/-! ## Requirements -/

/-- How much unmonitored execution a tool accepts. -/
inductive WindowRequirement where
  | zero
  | declared (preInitOk : Bool)
  deriving DecidableEq

/-- The instructions to be mediated. -/
structure InstructionRequirements where
  cpuid : Bool
  rdtsc : Bool
  rdrandRdseed : Bool
  xgetbv : Bool

/-- Whether new code must be covered. -/
inductive DynamicCodeNeed where
  | mustCover
  | notRequired
  deriving DecidableEq

/-- What must be followed. -/
structure LifecycleRequirements where
  threads : Bool
  fork : Bool
  vfork : Bool
  execSuccessor : Bool
  signalFidelity : Bool
  dynamicCode : DynamicCodeNeed

/-- Where a tool must run. -/
inductive PlacementRequirement where
  | any
  | inGuestOnly
  | outOfProcessOnly
  deriving DecidableEq

/-- Whether another tracer may be there. -/
inductive DebuggerRequirement where
  | exclusive
  | coexistWithExternal
  deriving DecidableEq

/-- How densely a guest is instrumented. -/
inductive Density where
  | eventLevel
  | dense
  deriving DecidableEq

/-- What a tool states. -/
structure ToolRequirements where
  window : WindowRequirement
  instructions : InstructionRequirements
  lifecycle : LifecycleRequirements
  placement : PlacementRequirement
  debugger : DebuggerRequirement
  density : Density

/-- The strictest reading. -/
def ToolRequirements.default : ToolRequirements where
  window := .zero
  instructions := ⟨false, false, false, false⟩
  lifecycle := ⟨true, true, true, true, true, .mustCover⟩
  placement := .any
  debugger := .exclusive
  density := .eventLevel

/-- The window is as weak as the other, or weaker. -/
def WindowRequirement.relaxes : WindowRequirement → WindowRequirement → Bool
  | .declared true, .zero => true
  | .declared true, .declared false => true
  | .declared false, .zero => true
  | a, b => a = b

def InstructionRequirements.relaxes (a b : InstructionRequirements) : Bool :=
  (!a.cpuid || b.cpuid) && (!a.rdtsc || b.rdtsc) && (!a.rdrandRdseed || b.rdrandRdseed) &&
    (!a.xgetbv || b.xgetbv)

def LifecycleRequirements.relaxes (a b : LifecycleRequirements) : Bool :=
  (!a.threads || b.threads) && (!a.fork || b.fork) && (!a.vfork || b.vfork) &&
    (!a.execSuccessor || b.execSuccessor) && (!a.signalFidelity || b.signalFidelity) &&
    (a.dynamicCode = .notRequired || b.dynamicCode = .mustCover)

def ToolRequirements.isRelaxationOf (a b : ToolRequirements) : Bool :=
  a.window.relaxes b.window && a.instructions.relaxes b.instructions &&
    a.lifecycle.relaxes b.lifecycle &&
    (a.placement = .any || a.placement = b.placement) &&
    (a.debugger = .exclusive || a.debugger = b.debugger) &&
    (a.density = .eventLevel || a.density = b.density)

/-- What admission reads of the tool's event interests. -/
structure Subscription where
  cpuid : Bool
  rdtsc : Bool

/-- Who owns the threads. -/
inductive ThreadOwnership where
  | tool
  | host
  deriving DecidableEq

/-- The tool's answers to its query methods. -/
structure ToolQueries where
  requiresSignalControl : Bool
  observesSigreturns : Bool
  mayObserveSignalDequeues : Bool
  inGuestSignalDelivery : Bool
  enforcesSerializedExecution : Option Bool
  reservedInput : Bool
  threadOwnership : Option ThreadOwnership

/-- What follows from all that is asked. -/
structure EffectiveRequirements where
  stated : ToolRequirements
  subscriptions : Subscription
  queries : ToolQueries
  /-- the stated demands and those of the subscription -/
  instructions : InstructionRequirements

def EffectiveRequirements.compute (stated : ToolRequirements) (subscriptions : Subscription)
    (queries : ToolQueries) : EffectiveRequirements where
  stated := stated
  subscriptions := subscriptions
  queries := queries
  instructions := { stated.instructions with
    cpuid := stated.instructions.cpuid || subscriptions.cpuid
    rdtsc := stated.instructions.rdtsc || subscriptions.rdtsc }

/-! ## The environment -/

/-- A fact: proved, disproved, or unknown. -/
inductive Knowledge (α : Type) where
  | proved (value : α)
  | disproved
  | unknown (why : String)
  deriving DecidableEq

def Knowledge.isUnknown {α : Type} : Knowledge α → Bool
  | .unknown _ => true
  | _ => false

/-- The outcome of a trial installation of a filter. -/
inductive InstallEvidence where
  | proved
  | refused
  | unknown
  deriving DecidableEq

/-- The host's seccomp state. -/
structure SeccompState where
  mode : ℕ
  filters : ℕ
  noNewPrivs : Bool
  install : InstallEvidence

/-- Whether code may be mapped twice. -/
inductive WxPolicy where
  | dualMapAllowed
  | strictWx

/-- What a guest's code is like. -/
structure CodeShape where
  dynamic : Bool
  pie : Bool
  jitIndicators : Bool

/-- What is known of the architecture. -/
structure ArchFloor where
  linuxX8664 : Bool
  cetIbt : Bool

/-- The probes P1 to P10. -/
structure EnvironmentSnapshot where
  p1PtraceUsable : Knowledge Bool
  p2ExistingTracer : Knowledge Bool
  p3Seccomp : Knowledge SeccompState
  p4Sud : Knowledge Bool
  p5CpuidFaulting : Knowledge Bool
  p6PrSetTsc : Knowledge Bool
  p7Wx : Knowledge WxPolicy
  p8SignalOwnership : Knowledge Bool
  p9CodeShape : Knowledge CodeShape
  p10Arch : Knowledge ArchFloor

/-- What a guest is. -/
inductive GuestProfile where
  | hostProcessAny
  | hostProcessDynamicPreloadable
  | staticElfVm

/-! ## Cells -/

/-- The designs. -/
inductive DesignCell where
  | V1 | V2 | V3 | V4 | V5 | V6 | V7 | V8 | V9 | V10 | V11
  deriving DecidableEq

/-- How a cell is activated. -/
inductive Activation where
  | ptraceExecStop
  | preloadLate
  | customLoaderNoPtrace
  | attach
  | externalDebuggerCoexist
  | vmSubstrate
  deriving DecidableEq

/-- How a cell intercepts. -/
inductive Mechanism where
  | seccompTrap
  | inPlacePatching
  | pageFaultGate
  | offlineRewrite
  | translation
  | ptraceStops
  | vmExits
  deriving DecidableEq

/-- Where a cell's tool runs. -/
inductive Placement where
  | inGuest
  | outOfProcess
  deriving DecidableEq

/-- How a cell is configured. -/
inductive CellConfig where
  | ptraceDefault
  | preloadTrapOnly
  | preloadPatching
  | kvmStaticElf
  deriving DecidableEq

/-- From when on a cell sees the guest. -/
inductive WindowGuarantee where
  | zero
  | declaredPreInit
  deriving DecidableEq

/-- What an event costs. -/
inductive CostClass where
  | patch
  | gateThenPatch
  | trap
  | ptrace
  | translation
  | vmExit

def CostClass.rank : CostClass → ℕ
  | .patch => 0
  | .gateThenPatch => 1
  | .trap => 2
  | .ptrace => 3
  | .translation => 4
  | .vmExit => 5

/-- How well something is followed. -/
inductive LifecycleLevel where
  | reference
  | followed
  | declaredWeaker
  | refuses
  | emulated
  | unproven

/-- Whether the level satisfies a lifecycle requirement. -/
def LifecycleLevel.satisfies : LifecycleLevel → Bool
  | .reference | .followed | .emulated => true
  | _ => false

def LifecycleLevel.strength : LifecycleLevel → ℕ
  | .reference => 4
  | .followed => 3
  | .emulated => 2
  | .declaredWeaker => 1
  | .refuses | .unproven => 0

/-- What a cell follows. -/
structure LifecycleGuarantees where
  threads : LifecycleLevel
  fork : LifecycleLevel
  vfork : LifecycleLevel
  execSuccessor : LifecycleLevel
  signals : LifecycleLevel

/-- Which code a cell covers. -/
inductive CodeCoverage where
  | anyCodeByTrap
  | censusPatchPlusTrapFallback
  | censusPatchOnly
  | gatedCertifiedOnly
  | translationDiscovery
  | emulated
  deriving DecidableEq

/-- Whether new code is covered. -/
def CodeCoverage.coversDynamic : CodeCoverage → Bool
  | .anyCodeByTrap | .censusPatchPlusTrapFallback | .translationDiscovery | .emulated => true
  | _ => false

/-- Whether an instruction is mediated. -/
inductive InstructionMediation where
  | mediated
  /-- only when the environment support is proved -/
  | requiresEnv (probe : String)
  | absent
  deriving DecidableEq

/-- What a cell mediates. -/
structure InstructionGuarantees where
  cpuid : InstructionMediation
  rdtsc : InstructionMediation
  rdrandRdseed : InstructionMediation
  xgetbv : InstructionMediation

/-- The guests that were tested. -/
inductive GuestShape where
  | anyHostProcess
  | dynamicPreloadableOnly
  | staticElfVmOnly
  deriving DecidableEq

/-- Whether the envelope covers the guest profile. -/
def GuestShape.covers : GuestShape → GuestProfile → Bool
  | .anyHostProcess, .hostProcessAny => true
  | .anyHostProcess, .hostProcessDynamicPreloadable => true
  | .dynamicPreloadableOnly, .hostProcessDynamicPreloadable => true
  | .staticElfVmOnly, .staticElfVm => true
  | _, _ => false

/-- The threads that were tested. -/
inductive ThreadsBound where
  | multiThread
  | singleThread
  deriving DecidableEq

/-- What becomes of an exec. -/
inductive ExecBound where
  | rearmedSameCell
  | refused
  | emulated

/-- What a cell was tested for. -/
structure TestedEnvelope where
  guest : GuestShape
  threads : ThreadsBound
  exec : ExecBound
  reservedInput : Bool
  signalOwnershipAtHandoff : Bool
  honorsThreadOwnership : Bool
  notes : String

/-- Whether a cell allows a debugger. -/
inductive DebuggerSupport where
  | exclusiveOnly
  | coexists
  deriving DecidableEq

/-- What admission reads of the `BackendCapabilities`. -/
structure BackendCapabilities where
  providesProcessSignalControl : Bool
  reportsSigreturns : Bool

def BackendCapabilities.PTRACE : BackendCapabilities := ⟨false, true⟩

def BackendCapabilities.LITEINST_IN_GUEST : BackendCapabilities := ⟨false, false⟩

def BackendCapabilities.KVM : BackendCapabilities := ⟨true, false⟩

/-- A cell's name. -/
structure CellId where
  name : String
  deriving DecidableEq

/-- A backend's name. -/
structure BackendId where
  name : String
  deriving DecidableEq

/-- A cell and what it guarantees. -/
structure ImplementedCell where
  id : CellId
  design : DesignCell
  activation : Activation
  mechanism : Mechanism
  placement : Placement
  config : CellConfig
  window : WindowGuarantee
  cost : CostClass
  lifecycle : LifecycleGuarantees
  code : CodeCoverage
  instructions : InstructionGuarantees
  debugger : DebuggerSupport
  envelope : TestedEnvelope
  capabilities : BackendCapabilities
  backend : BackendId

def ptraceCell : ImplementedCell where
  id := ⟨"V1-ptrace"⟩
  design := .V1
  activation := .ptraceExecStop
  mechanism := .ptraceStops
  placement := .outOfProcess
  config := .ptraceDefault
  window := .zero
  cost := .ptrace
  lifecycle := ⟨.reference, .reference, .reference, .reference, .reference⟩
  code := .anyCodeByTrap
  instructions := ⟨.requiresEnv "P5", .requiresEnv "P6", .absent, .absent⟩
  debugger := .exclusiveOnly
  envelope :=
    { guest := .anyHostProcess
      threads := .multiThread
      exec := .rearmedSameCell
      reservedInput := true
      signalOwnershipAtHandoff := false
      honorsThreadOwnership := false
      notes := "reference backend; kernel follows fork/exec; CPUID/RDTSC via faulting prerequisites P5/P6" }
  capabilities := .PTRACE
  backend := ⟨"reverie-ptrace"⟩

def preloadTrapCell : ImplementedCell where
  id := ⟨"V4-preload-trap"⟩
  design := .V4
  activation := .preloadLate
  mechanism := .seccompTrap
  placement := .inGuest
  config := .preloadTrapOnly
  window := .declaredPreInit
  cost := .trap
  lifecycle := ⟨.refuses, .followed, .declaredWeaker, .refuses, .declaredWeaker⟩
  code := .anyCodeByTrap
  instructions := ⟨.requiresEnv "P5", .requiresEnv "P6", .absent, .absent⟩
  debugger := .exclusiveOnly
  envelope :=
    { guest := .dynamicPreloadableOnly
      threads := .singleThread
      exec := .refused
      reservedInput := false
      signalOwnershipAtHandoff := true
      honorsThreadOwnership := false
      notes := "preload in-guest trap; dynamic non-AT_SECURE single-thread envelope; thread creation and exec refuse by name" }
  capabilities := .LITEINST_IN_GUEST
  backend := ⟨"reverie-liteinst-preload"⟩

def preloadPatchCell : ImplementedCell where
  id := ⟨"V5-preload-patch"⟩
  design := .V5
  activation := .preloadLate
  mechanism := .inPlacePatching
  placement := .inGuest
  config := .preloadPatching
  window := .declaredPreInit
  cost := .patch
  lifecycle := ⟨.refuses, .followed, .declaredWeaker, .refuses, .declaredWeaker⟩
  code := .censusPatchPlusTrapFallback
  instructions := ⟨.requiresEnv "P5", .requiresEnv "P6", .absent, .absent⟩
  debugger := .exclusiveOnly
  envelope :=
    { guest := .dynamicPreloadableOnly
      threads := .singleThread
      exec := .refused
      reservedInput := false
      signalOwnershipAtHandoff := true
      honorsThreadOwnership := false
      notes := "preload site patching over the in-guest completeness trap; same envelope as V4-preload-trap" }
  capabilities := .LITEINST_IN_GUEST
  backend := ⟨"reverie-liteinst-preload"⟩

def kvmCell : ImplementedCell where
  id := ⟨"V11-kvm"⟩
  design := .V11
  activation := .vmSubstrate
  mechanism := .vmExits
  placement := .outOfProcess
  config := .kvmStaticElf
  window := .zero
  cost := .vmExit
  lifecycle := ⟨.emulated, .emulated, .emulated, .declaredWeaker, .declaredWeaker⟩
  code := .emulated
  instructions := ⟨.mediated, .mediated, .absent, .absent⟩
  debugger := .exclusiveOnly
  envelope :=
    { guest := .staticElfVmOnly
      threads := .multiThread
      exec := .emulated
      reservedInput := false
      signalOwnershipAtHandoff := false
      honorsThreadOwnership := true
      notes := "VM substrate with backend-emulated Linux lifecycle; static ELF images; non-leader exec and stop signals refuse by name; registered for admission/explainability, invoked via its own entry points" }
  capabilities := .KVM
  backend := ⟨"reverie-kvm"⟩

def implementedCells : List ImplementedCell := [ptraceCell, preloadTrapCell, preloadPatchCell, kvmCell]

/-- One row of the design matrix, as far as `design_satisfies` reads it. -/
structure DesignCellInfo where
  design : DesignCell
  window : WindowGuarantee
  placement : Placement

def designCells : List DesignCellInfo :=
  [⟨.V1, .zero, .outOfProcess⟩, ⟨.V2, .zero, .inGuest⟩, ⟨.V3, .zero, .inGuest⟩,
    ⟨.V4, .declaredPreInit, .inGuest⟩, ⟨.V5, .declaredPreInit, .inGuest⟩, ⟨.V6, .zero, .inGuest⟩,
    ⟨.V7, .zero, .inGuest⟩, ⟨.V8, .zero, .inGuest⟩, ⟨.V9, .zero, .inGuest⟩,
    ⟨.V10, .zero, .inGuest⟩, ⟨.V11, .zero, .outOfProcess⟩]

end Reverie.Selection
