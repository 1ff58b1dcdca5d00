/-
  Admission: two filter stages, a ranking, and a typed refusal (`selection.rs`).

  A stage removes a cell with every reason it finds; what passes both stages is
  eligible.  Admission chooses among the eligible cells, or names why there is
  none.
-/
import Reverie.Selection.Types

namespace Reverie.Selection

/-! ## Reasons and refusals -/

/-- Why admission refuses. -/
inductive RefusalCode where
  | rArch
  | rPtrace
  | rWindow
  | rCode
  | rSignal
  | rWx
  | rInstr
  | rExec
  | rLifecycle
  | rDense
  | rUnbuilt
  | rEnvUnknown
  deriving DecidableEq

/-- Why a cell is removed. -/
inductive RemovalReason where
  | windowMismatch
  | placementMismatch
  | debuggerMismatch
  | denseUnsupported
  | instructionUnmediated (name : String)
  | instructionEnvDisproved (probe : String)
  | lifecycleUnproven (axis : String)
  | execUnproven
  | codeUncovered
  | signalUnavailable (what : String)
  | guestShapeMismatch
  | reservedInputUnsupported
  | envDisproved (probe : String)
  | envUnknown (probe : String)
  | notExplicitlySelected
  deriving DecidableEq

def RemovalReason.code : RemovalReason → RefusalCode
  | .windowMismatch => .rWindow
  | .placementMismatch | .lifecycleUnproven _ | .guestShapeMismatch | .reservedInputUnsupported =>
    .rLifecycle
  | .debuggerMismatch => .rUnbuilt
  | .denseUnsupported => .rDense
  | .instructionUnmediated _ | .instructionEnvDisproved _ => .rInstr
  | .execUnproven => .rExec
  | .codeUncovered => .rCode
  | .signalUnavailable _ => .rSignal
  | .envDisproved probe =>
    if probe = "P1" ∨ probe = "P2" then .rPtrace
    else if probe = "P8" then .rSignal
    else if probe = "P7" then .rWx
    else if probe = "P10" then .rArch
    else .rLifecycle
  | .envUnknown _ => .rEnvUnknown
  | .notExplicitlySelected => .rLifecycle

def RemovalReason.isUnknown : RemovalReason → Bool
  | .envUnknown _ => true
  | _ => false

/-- A stage and the cells it removed. -/
structure FilterStage where
  name : String
  removed : List (CellId × List RemovalReason)
  deriving DecidableEq

/-- What every stage did. -/
structure FilterTrace where
  stages : List FilterStage
  satisfyingDesigns : List DesignCell
  deriving DecidableEq

def FilterTrace.reasonsFor (trace : FilterTrace) (id : CellId) : List RemovalReason :=
  trace.stages.flatMap fun stage =>
    (stage.removed.filter fun entry => entry.1 = id).flatMap (·.2)

/-- A refusal, with its trace. -/
structure AdmissionRefusal where
  code : RefusalCode
  detail : String
  trace : FilterTrace
  terminal : Bool
  deriving DecidableEq

/-- What the user selects. -/
inductive ExplicitSelection where
  | auto
  | cell (id : CellId)
  | backend (id : BackendId)
  deriving DecidableEq

/-- What admission decides on. -/
structure AdmissionRequest where
  requirements : EffectiveRequirements
  guest : GuestProfile
  env : EnvironmentSnapshot
  explicit : ExplicitSelection

/-- What admission reports. -/
structure AdmissionReport where
  requirements : EffectiveRequirements
  guest : GuestProfile
  env : EnvironmentSnapshot
  eligible : List CellId
  chosen : CellId
  envelopeNotes : String
  costNote : String
  trace : FilterTrace

def COST_HEURISTIC_NOTE : String :=
  "cost order is a heuristic (patch < gate+patch < trap < ptrace < translation), not a benchmark"

/-! ## The stages -/

def windowAccepts : WindowRequirement → WindowGuarantee → Bool
  | _, .zero => true
  | .declared true, .declaredPreInit => true
  | _, .declaredPreInit => false

def reasonIf (condition : Bool) (reason : RemovalReason) : List RemovalReason :=
  if condition then [reason] else []

def placementAccepts : PlacementRequirement → Placement → Bool
  | .any, _ => true
  | .inGuestOnly, placement => placement = .inGuest
  | .outOfProcessOnly, placement => placement = .outOfProcess

variable (req : EffectiveRequirements)

/-- The reasons of the window, placement, debugger and density. -/
def shapeReasons (cell : ImplementedCell) : List RemovalReason :=
  reasonIf (!windowAccepts req.stated.window cell.window) .windowMismatch ++
  reasonIf (!(placementAccepts req.stated.placement cell.placement &&
    (!req.queries.inGuestSignalDelivery || cell.placement = .inGuest))) .placementMismatch ++
  reasonIf (req.stated.debugger = .coexistWithExternal && cell.debugger = .exclusiveOnly)
    .debuggerMismatch ++
  reasonIf (req.stated.density = .dense && cell.mechanism ≠ .translation) .denseUnsupported

/-- The reasons of the lifecycle, with the joint prerequisites on thread ownership and
    signal delivery. -/
def lifecycleReasons (cell : ImplementedCell) : List RemovalReason :=
  let life := req.stated.lifecycle
  let threads := reasonIf (life.threads && !cell.lifecycle.threads.satisfies)
    (.lifecycleUnproven "threads")
  let unowned := cell.envelope.honorsThreadOwnership && req.queries.threadOwnership ≠ some .tool
  threads ++
  reasonIf (life.threads && unowned && !threads.contains (.lifecycleUnproven "threads"))
    (.lifecycleUnproven "threads") ++
  reasonIf (req.queries.mayObserveSignalDequeues && unowned)
    (.signalUnavailable "signal-dequeue observation under host thread ownership") ++
  reasonIf (req.queries.inGuestSignalDelivery && cell.config = .preloadPatching)
    (.signalUnavailable "in-guest signal delivery with site patching") ++
  reasonIf (life.fork && !cell.lifecycle.fork.satisfies) (.lifecycleUnproven "fork") ++
  reasonIf (life.vfork && !cell.lifecycle.vfork.satisfies) (.lifecycleUnproven "vfork") ++
  reasonIf (life.execSuccessor && !cell.lifecycle.execSuccessor.satisfies) .execUnproven ++
  reasonIf (life.signalFidelity && !cell.lifecycle.signals.satisfies)
    (.lifecycleUnproven "signals") ++
  reasonIf (life.dynamicCode = .mustCover && !cell.code.coversDynamic) .codeUncovered

/-- The instruction classes: whether each is wanted, and how the cell mediates it. -/
def instructionClasses (cell : ImplementedCell) : List (Bool × InstructionMediation × String) :=
  [(req.instructions.cpuid, cell.instructions.cpuid, "CPUID"),
    (req.instructions.rdtsc, cell.instructions.rdtsc, "RDTSC"),
    (req.instructions.rdrandRdseed, cell.instructions.rdrandRdseed, "RDRAND/RDSEED"),
    (req.instructions.xgetbv, cell.instructions.xgetbv, "XGETBV")]

/-- The reasons of the tool's queries, and of the guest profile. -/
def queryReasons (guest : GuestProfile) (cell : ImplementedCell) : List RemovalReason :=
  reasonIf (req.queries.requiresSignalControl && !cell.capabilities.providesProcessSignalControl)
    (.signalUnavailable "process signal control") ++
  reasonIf (req.queries.observesSigreturns && !cell.capabilities.reportsSigreturns)
    (.signalUnavailable "sigreturn reports") ++
  reasonIf (req.queries.reservedInput &&
    !(cell.envelope.reservedInput && req.queries.enforcesSerializedExecution = some true))
    .reservedInputUnsupported ++
  reasonIf (!cell.envelope.guest.covers guest) .guestShapeMismatch

def requirementReasons (guest : GuestProfile) (cell : ImplementedCell) : List RemovalReason :=
  shapeReasons req cell ++ lifecycleReasons req cell ++
  ((instructionClasses req cell).flatMap fun (wanted, got, name) =>
    reasonIf (wanted && got = .absent) (.instructionUnmediated name)) ++
  queryReasons req guest cell

def boolProbe (fact : Knowledge Bool) (name : String) : List RemovalReason :=
  match fact with
  | .proved true => []
  | .proved false | .disproved => [.envDisproved name]
  | .unknown _ => [.envUnknown name]

/-- P10 gates everything. -/
def archReasons : Knowledge ArchFloor → List RemovalReason
  | .proved floor => if floor.linuxX8664 then [] else [.envDisproved "P10"]
  | .disproved => [.envDisproved "P10"]
  | .unknown _ => [.envUnknown "P10"]

/-- Only a proved trial proves that a filter can be installed. -/
def seccompReasons : Knowledge SeccompState → List RemovalReason
  | .proved state =>
    if state.mode = 1 ∨ state.install = .refused then [.envDisproved "P3"]
    else if state.install = .proved then []
    else [.envUnknown "P3"]
  | .disproved => [.envDisproved "P3"]
  | .unknown _ => [.envUnknown "P3"]

variable (env : EnvironmentSnapshot)

def activationReasons (cell : ImplementedCell) : List RemovalReason :=
  match cell.activation with
  | .ptraceExecStop => boolProbe env.p1PtraceUsable "P1"
  | .preloadLate => seccompReasons env.p3Seccomp
  | _ => []

def Knowledge.isDenied : Knowledge Bool → Bool
  | .proved false | .disproved => true
  | _ => false

/-- An observed denial of signal ownership. -/
def signalReasons (cell : ImplementedCell) : List RemovalReason :=
  reasonIf (cell.envelope.signalOwnershipAtHandoff && env.p8SignalOwnership.isDenied)
    (.envDisproved "P8")

def wxReasons : Knowledge WxPolicy → List RemovalReason
  | .proved .dualMapAllowed => []
  | .proved .strictWx | .disproved => [.envDisproved "P7"]
  | .unknown _ => [.envUnknown "P7"]

def mappingReasons (cell : ImplementedCell) : List RemovalReason :=
  if cell.mechanism = .inPlacePatching then wxReasons env.p7Wx else []

/-- The fact behind an instruction's prerequisite. -/
def probeFact (probe : String) : Option (Knowledge Bool) :=
  if probe = "P5" then some env.p5CpuidFaulting
  else if probe = "P6" then some env.p6PrSetTsc
  else none

/-- A prerequisite that no fact is behind is unproved. -/
def prerequisiteReasons (probe : String) : Option (Knowledge Bool) → List RemovalReason
  | none => [.envUnknown probe]
  | some (.proved true) => []
  | some (.proved false) | some .disproved => [.instructionEnvDisproved probe]
  | some (.unknown _) => [.envUnknown probe]

def instructionReasons (wanted : Bool) (got : InstructionMediation) : List RemovalReason :=
  match wanted, got with
  | true, .requiresEnv probe => prerequisiteReasons probe (probeFact env probe)
  | _, _ => []

def Knowledge.hasJit : Knowledge CodeShape → Bool
  | .proved shape => shape.jitIndicators
  | _ => false

/-- The advisory tightening of P9. -/
def codeReasons (cell : ImplementedCell) : List RemovalReason :=
  reasonIf (req.stated.lifecycle.dynamicCode = .mustCover && cell.code = .censusPatchOnly &&
    env.p9CodeShape.hasJit) .codeUncovered

def environmentReasons (cell : ImplementedCell) : List RemovalReason :=
  archReasons env.p10Arch ++ activationReasons env cell ++ signalReasons env cell ++
  mappingReasons env cell ++
  ((instructionClasses req cell).flatMap fun (wanted, got, _) => instructionReasons env wanted got) ++
  codeReasons req env cell

/-! ## Refusal codes -/

def designSatisfies (info : DesignCellInfo) (req : EffectiveRequirements) : Bool :=
  windowAccepts req.stated.window info.window &&
  placementAccepts req.stated.placement info.placement &&
  !(req.stated.density = .dense && info.design ≠ .V10) &&
  !(req.stated.debugger = .coexistWithExternal && info.design ≠ .V9) &&
  !((req.instructions.rdrandRdseed || req.instructions.xgetbv) && info.design ≠ .V10)

def guaranteeRank (cell : ImplementedCell) : ℕ :=
  cell.lifecycle.threads.strength + cell.lifecycle.fork.strength + cell.lifecycle.vfork.strength +
    cell.lifecycle.execSuccessor.strength + cell.lifecycle.signals.strength +
    (if cell.window = .zero then 2 else 0) + (if cell.code.coversDynamic then 1 else 0)

def Knowledge.archDisproved : Knowledge ArchFloor → Bool
  | .proved floor => !floor.linuxX8664
  | .disproved => true
  | .unknown _ => false

/-- The stage that emptied the set, and whom it removed. -/
def emptyingStage : List FilterStage → List CellId → List (CellId × List RemovalReason)
  | [], _ => []
  | stage :: stages, alive =>
    let alive := alive.filter fun id => !stage.removed.any (·.1 = id)
    if alive = [] then stage.removed else emptyingStage stages alive

def PRECEDENCE : List RefusalCode :=
  [.rWindow, .rInstr, .rCode, .rExec, .rWx, .rPtrace, .rSignal, .rDense, .rLifecycle, .rUnbuilt]

/-- The code in the most cells; of several, the first. -/
def dominatingCode (emptying : List (CellId × List RemovalReason)) : RefusalCode :=
  let best := PRECEDENCE.foldl (fun (best : Option (RefusalCode × ℕ)) code =>
    let count := emptying.countP fun entry => entry.2.any (·.code = code)
    if 0 < count ∧ best.all (·.2 < count) then some (code, count) else best) none
  (best.map (·.1)).getD .rLifecycle

/-- A single sub-axis of the lifecycle that removed every cell. -/
def singleAxis (emptying : List (CellId × List RemovalReason)) : Bool :=
  [RemovalReason.lifecycleUnproven "threads", .lifecycleUnproven "fork", .lifecycleUnproven "vfork",
    .placementMismatch, .guestShapeMismatch].any fun axis =>
      !emptying.isEmpty && emptying.all fun entry => entry.2.contains axis

variable (request : AdmissionRequest)

variable (cells : List ImplementedCell)

/-- The code of a refusal. -/
def refusalCode (trace : FilterTrace) : RefusalCode :=
  if request.env.p10Arch.archDisproved then .rArch
  else if request.requirements.stated.density = .dense ∧ ∀ c ∈ cells, c.mechanism ≠ .translation then
    .rDense
  else if (cells.map fun c => trace.reasonsFor c.id).any fun rs =>
      !rs.isEmpty && rs.all RemovalReason.isUnknown then .rEnvUnknown
  else if request.requirements.stated.window = .zero ∧
      request.env.p1PtraceUsable.isDenied then .rPtrace
  else
    let emptying := emptyingStage trace.stages (cells.map (·.id))
    let dominating := dominatingCode emptying
    if dominating = .rLifecycle ∧ trace.satisfyingDesigns ≠ [] ∧ singleAxis emptying = false
    then .rUnbuilt else dominating

/-! ## Admission -/

/-- One stage: the cells that it keeps, and those that it removes. -/
def runStage (name : String) (alive : List ImplementedCell)
    (reasons : ImplementedCell → List RemovalReason) : List ImplementedCell × FilterStage :=
  (alive.filter fun cell => (reasons cell).isEmpty,
    { name := name
      removed := (alive.filter fun cell => !(reasons cell).isEmpty).map fun cell =>
        (cell.id, reasons cell) })

/-- The order of the ranking: cheaper first, then stronger, then by name. -/
def ranksBefore (a b : ImplementedCell) : Prop :=
  a.cost.rank < b.cost.rank ∨
    a.cost.rank = b.cost.rank ∧ (guaranteeRank b < guaranteeRank a ∨
      guaranteeRank a = guaranteeRank b ∧ a.id.name ≤ b.id.name)

instance : DecidableRel ranksBefore := fun a b => by
  unfold ranksBefore
  infer_instance

/-- The code of the first reason found for a cell. -/
def firstCode (trace : FilterTrace) (id : CellId) : RefusalCode :=
  ((trace.reasonsFor id).head?.map RemovalReason.code).getD .rLifecycle

/-- The two stages, and what they removed. -/
def runStages : List ImplementedCell × FilterTrace :=
  let req := request.requirements
  let designs := (designCells.filter fun info => designSatisfies info req).map (·.design)
  let (alive, requirements) := runStage "requirements" cells (requirementReasons req request.guest)
  let (alive, environment) := runStage "environment" alive (environmentReasons req request.env)
  (alive, ⟨[requirements, environment], designs⟩)

/-- The eligible cells, in the order of the ranking. -/
def rankedCells : List ImplementedCell :=
  (runStages request cells).1.insertionSort ranksBefore

def admissionTrace : FilterTrace :=
  (runStages request cells).2

def report (cell : ImplementedCell)
    (trace : FilterTrace) : AdmissionReport where
  requirements := request.requirements
  guest := request.guest
  env := request.env
  eligible := (rankedCells request cells).map (·.id)
  chosen := cell.id
  envelopeNotes := cell.envelope.notes
  costNote := COST_HEURISTIC_NOTE
  trace := trace

/-- The report of an explicit selection, with the stage that it adds. -/
def explicitReport (cell : ImplementedCell) : AdmissionReport :=
  let trace := admissionTrace request cells
  let others := (rankedCells request cells).filter fun c => c.id ≠ cell.id
  report request cells cell { trace with stages := trace.stages ++
    [⟨"explicit-selection", others.map fun c => (c.id, [.notExplicitlySelected])⟩] }

/-- Admission over given candidates. -/
def admitOver : Except AdmissionRefusal AdmissionReport :=
  let trace := admissionTrace request cells
  let ranked := rankedCells request cells
  match request.explicit with
  | .auto =>
    match ranked.head? with
    | some cell => .ok (report request cells cell trace)
    | none => .error
        { code := refusalCode request cells trace
          detail := "no implemented cell satisfies the requirements in this environment"
          trace := trace
          terminal := false }
  | .cell id =>
    match ranked.find? (·.id = id) with
    | some cell => .ok (explicitReport request cells cell)
    | none =>
      if cells.any (·.id = id) then
        .error ⟨firstCode trace id, s!"explicitly selected cell {id.name} is not eligible", trace, false⟩
      else
        .error ⟨.rUnbuilt, s!"explicitly selected cell {id.name} is not an implemented cell", trace,
          false⟩
  | .backend backend =>
    match ranked.find? (·.backend = backend) with
    | some cell => .ok (explicitReport request cells cell)
    | none =>
      match cells.find? (·.backend = backend) with
      | some first =>
        .error ⟨firstCode trace first.id,
          s!"explicitly selected backend {backend.name} has no eligible cell", trace, false⟩
      | none =>
        .error ⟨.rUnbuilt, s!"explicitly selected backend {backend.name} has no implemented cell", trace,
          false⟩

/-- `admit`. -/
def admitRegistered : Except AdmissionRefusal AdmissionReport :=
  admitOver request implementedCells

end Reverie.Selection
