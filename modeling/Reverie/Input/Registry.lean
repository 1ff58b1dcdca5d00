/-
  The reserved input registry (`reserved_input/registry.rs`): the state behind the leaf lock
  and every operation on it, a program that can stop with a refusal or with a panic.  Code
  outside the lock (the observers, the completion proof) answers through an argument.
-/
import Reverie.Lib.Table
import Reverie.Input.Types

namespace Reverie.Input

open Table (updateAll values)

/-! ## State -/

/-- The record of a task. -/
structure Task where
  registration : InputTaskRegistration
  /-- generation, kind, and whether an operation consumed it -/
  grant : Option (ℕ × InputGrantKind × Bool)
  frozen : Std.TreeSet ℕ
  nativeTerminal : Bool
  nativeEffectsComplete : Bool

/-- The record of an address space. -/
structure Region where
  layout : Option ReservedInputLayout
  exposures : List InputExposure
  transaction : Option PhysicalInjectionId

/-- `Region::default`. -/
def Region.empty : Region := ⟨none, [], none⟩

/-- The record of a declared access. -/
structure Access where
  task : InputTaskId
  declaration : InputAccess
  physical : Option PhysicalInjectionId
  operation : Option NativeOperationId
  nativeComplete : Bool

/-- The record of a physical call. -/
structure Injection where
  task : InputTaskId
  operation : ℕ
  grant : ℕ
  description : PhysicalInjectionDescription
  state : PhysicalInjectionState
  phase : Option InputTransactionPhase
  image : Option ReservedInputImage
  verifiedImage : Option ReservedInputImage

/-- The registry. -/
structure State where
  next : ℕ
  tasks : Std.TreeMap InputTaskId Task
  byTid : Std.TreeMap ℤ InputTaskId
  regions : Std.TreeMap RegionLifetime Region
  accesses : Std.TreeMap ℕ Access
  injections : Std.TreeMap PhysicalInjectionId Injection
  freezes : Std.TreeMap ℕ (Std.TreeSet InputTaskId)
  globalExposures : List InputExposure
  filesPossiblyShared : Std.TreeMap FileTableLifetime Bool
  groupsMayHaveOtherThreads : Std.TreeMap ThreadGroupLifetime Bool
  regionsMayHaveOtherProcesses : Std.TreeSet RegionLifetime
  frozenGroups : Std.TreeMap ThreadGroupLifetime (Std.TreeSet ℕ)
  fatal : Option String

/-- `State::default`. -/
def State.init : State :=
  ⟨0, ∅, ∅, ∅, ∅, ∅, ∅, [], ∅, ∅, ∅, ∅, none⟩

/-- How an operation stops. -/
inductive Stop where
  | unavailable (reason : Reason)
  | panic

/-- An operation on the registry. -/
abbrev Registry := EStateM Stop State

def unavailable {α : Type} (reason : Reason) : Registry α := throw (.unavailable reason)

/-- `if c { return Err(InputUnavailable::new(reason)) }`. -/
def refuse (c : Prop) [Decidable c] (reason : Reason) : Registry Unit :=
  if c then unavailable reason else pure ()

/-- `ok_or_else(|| InputUnavailable::new(reason))`. -/
def orUnavailable {α : Type} (o : Option α) (reason : Reason) : Registry α :=
  match o with
  | some a => pure a
  | none => unavailable reason

/-- `unwrap` and indexing: a missing entry panics. -/
def index {α : Type} (o : Option α) : Registry α :=
  match o with
  | some a => pure a
  | none => throw .panic

/-- `get_mut(key).unwrap()` and a change of the value. -/
def updateTask (task : InputTaskId) (f : Task → Task) : Registry Unit := do
  let s ← get
  let owner ← index s.tasks[task]?
  set { s with tasks := s.tasks.insert task (f owner) }

def updateRegion (region : RegionLifetime) (f : Region → Region) : Registry Unit := do
  let s ← get
  let owner ← index s.regions[region]?
  set { s with regions := s.regions.insert region (f owner) }

def updateInjection (id : PhysicalInjectionId) (f : Injection → Injection) : Registry Unit := do
  let s ← get
  let call ← index s.injections[id]?
  set { s with injections := s.injections.insert id (f call) }

/-! ## `impl State` -/

def next : Registry ℕ := do
  let s ← get
  refuse (2 ^ 64 ≤ s.next + 1) "input-generation-exhausted"
  set { s with next := s.next + 1 }
  pure (s.next + 1)

def live (task : InputTaskId) : Registry Task := do
  let s ← get
  refuse s.fatal.isSome "input-run-terminal"
  orUnavailable
    (s.tasks[task]?.filter fun owner => !owner.nativeTerminal && !owner.nativeEffectsComplete)
    "input-task-not-live"

/-- Whether the transaction of a region has passed its final access scan. -/
def initialized (region : Region) : Registry Bool := do
  match region.transaction with
  | some id =>
    let s ← get
    let call ← index s.injections[id]?
    pure (call.phase != some .preparing)
  | none => pure false

def State.unknownTarget (s : State) (target : InputTarget) : Bool :=
  match target with
  | .region region => !s.regions.contains region
  | .unknown => false

def validateAccess (declaration : InputAccess) : Registry Unit := do
  refuse declaration.span.overflows "input-access-range"
  let s ← get
  refuse (s.unknownTarget declaration.target) "input-target-identity"
  s.regions.toList.forM fun entry => do
    let started ← initialized entry.2
    refuse (started && declaration.target.reaches entry.1 &&
      entry.2.layout.any fun layout => declaration.span.overlaps layout) "input-transaction-busy"

/-! ## Grants and operations -/

section
variable (run : ℕ)

def backendBindToolIdentity (task : InputTaskId) (tid pid : ℤ) :
    Registry InputTaskRegistration := do
  let owner ← live task
  let registration := owner.registration
  refuse (registration.toolTid.any (· ≠ tid) ∨ registration.toolPid.any (· ≠ pid))
    "input-tool-identity-conflict"
  let registration := { registration with toolTid := some tid, toolPid := some pid }
  updateTask task fun owner => { owner with registration := registration }
  pure registration

def grant (task : InputTaskId) (kind : InputGrantKind) : Registry ℕ := do
  let owner ← live task
  refuse (!owner.frozen.isEmpty) "input-task-frozen"
  let generation ← next
  updateTask task fun owner => { owner with grant := some (generation, kind, false) }
  pure generation

def invalidateOperation (task : InputTaskId) : Registry Unit := do
  let s ← get
  match s.tasks[task]? with
  | some owner => set { s with tasks := s.tasks.insert task { owner with grant := none } }
  | none => pure ()

def nativeRequestGrant (task : InputTaskId) : Registry ℕ := do
  let owner ← live task
  refuse (!owner.frozen.isEmpty) "input-task-frozen"
  orUnavailable (owner.grant.map (·.1)) "input-no-execution-grant"

def beginOperation (task : InputTaskId) (logicalOperation : ℕ) : Registry InputOperationScope := do
  let owner ← live task
  let (generation, kind, consumed) ← orUnavailable owner.grant "input-no-execution-grant"
  refuse (consumed ∨ !owner.frozen.isEmpty) "input-grant-unavailable"
  refuse (kind.pendingOther logicalOperation) "input-barrier-operation-mismatch"
  updateTask task fun owner => { owner with grant := some (generation, kind, true) }
  pure ⟨run, task, generation, logicalOperation⟩

def validateScope (scope : InputOperationScope) : Registry Unit := do
  refuse (scope.run ≠ run) "input-run-mismatch"
  let owner ← live scope.task
  refuse (owner.grant.map (·.1) ≠ some scope.grant ∨ !owner.frozen.isEmpty)
    "input-operation-stale"

def finishOperation (scope : InputOperationScope) : Registry Unit := do
  validateScope run scope
  let s ← get
  refuse ((values s.injections).any fun call =>
      call.task == scope.task && call.operation == scope.logicalOperation && !call.state.settled)
    "input-operation-unsettled"
  let owner ← index s.tasks[scope.task]?
  let (generation, kind, _) ← index owner.grant
  updateTask scope.task fun owner => { owner with grant := some (generation, kind, false) }

/-! ## Accesses -/

def acquireAccess (task : InputTaskId) (declaration : InputAccess) : Registry InputAccessLease := do
  let _ ← live task
  validateAccess declaration
  let id ← next
  modify fun s => { s with accesses := s.accesses.insert id ⟨task, declaration, none, none, false⟩ }
  pure ⟨run, id⟩

def attachAccess (lease : InputAccessLease) (receipt : PhysicalInjectionId) : Registry Unit := do
  let s ← get
  refuse (lease.run ≠ run ∨ receipt.run ≠ run) "input-run-mismatch"
  let call ← orUnavailable s.injections[receipt]? "input-call-missing"
  let access ← orUnavailable s.accesses[lease.id]? "input-access-missing"
  refuse (access.task ≠ call.task ∨ access.physical.isSome ∨ access.operation.isSome)
    "input-access-binding"
  set { s with accesses := s.accesses.insert lease.id { access with physical := some receipt } }

def completeAccessAfterReturn (lease : InputAccessLease) (task : InputTaskId) : Registry Unit := do
  let s ← get
  refuse (lease.run ≠ run) "input-run-mismatch"
  let access ← orUnavailable s.accesses[lease.id]? "input-access-missing"
  refuse (access.task ≠ task ∨ access.physical.isSome ∨ access.operation.isSome)
    "input-access-binding"
  set { s with accesses := s.accesses.insert lease.id { access with nativeComplete := true } }

/-- `bind_access_completion` (and `bind_access_operation`). -/
def bindAccessCompletion (lease : InputAccessLease) (task : InputTaskId)
    (completion : NativeOperationId) : Registry Unit := do
  refuse (lease.run ≠ run) "input-run-mismatch"
  let s ← get
  let access ← orUnavailable s.accesses[lease.id]? "input-access-missing"
  refuse (access.task ≠ task ∨ access.physical.isSome) "input-access-binding"
  refuse (access.operation.any (· ≠ completion)) "input-operation-binding"
  set { s with accesses := s.accesses.insert lease.id { access with operation := some completion } }

/-- `complete_access_after_completion` (and `complete_access_after_operation`);
    `effectsComplete` is the completion's answer, read outside the lock. -/
def completeAccessAfterCompletion (lease : InputAccessLease) (task : InputTaskId)
    (completion : NativeOperationId) (effectsComplete : Bool) : Registry Unit := do
  refuse (lease.run ≠ run) "input-run-mismatch"
  refuse (!effectsComplete) "input-native-operation-unsettled"
  let s ← get
  let access ← orUnavailable s.accesses[lease.id]? "input-access-missing"
  refuse (access.task ≠ task ∨ access.physical.isSome ∨ access.operation ≠ some completion)
    "input-operation-binding"
  set { s with accesses := s.accesses.insert lease.id { access with nativeComplete := true } }

def readmitAccess (lease : InputAccessLease) (task : InputTaskId) (grant : ℕ) : Registry Unit := do
  refuse (lease.run ≠ run) "input-run-mismatch"
  let owner ← live task
  refuse (!owner.frozen.isEmpty ∨ owner.grant.map (·.1) ≠ some grant) "input-readmission-mismatch"
  let s ← get
  let access ← orUnavailable s.accesses[lease.id]? "input-access-missing"
  refuse (access.task ≠ task ∨ !access.nativeComplete) "input-native-access-unsettled"
  if access.declaration.lifetime = .transient then
    set { s with accesses := s.accesses.erase lease.id }

end

/-! ## Exposures -/

/-- `add_exposure_locked` (and `add_exposure`). -/
def addExposureLocked (exposure : InputExposure) : Registry Unit := do
  let s ← get
  match exposure.target with
  | .unknown => set { s with globalExposures := s.globalExposures ++ [exposure] }
  | .region region =>
    let owner ← orUnavailable s.regions[region]? "input-target-identity"
    set { s with
      regions := s.regions.insert region
        { owner with exposures := owner.exposures ++ [exposure] } }

def backendExposeBeforeContinuation (task : InputTaskId) (exposure : InputExposure) :
    Registry Unit := do
  let _ ← live task
  validateAccess ⟨exposure.target, .unknown, .readWrite, .persistent, exposure.cause⟩
  addExposureLocked exposure

/-! ## Injections -/

section
variable (run : ℕ)

/-- A call that may share the descriptor table marks it before it runs. -/
def noteFilesSharing (task : InputTaskId) (sharing : InputExpectedSharing) : Registry Unit := do
  if sharing.mayCreate && sharing.files ≠ some false then
    let s ← get
    let owner ← index s.tasks[task]?
    set { s with
      filesPossiblyShared := s.filesPossiblyShared.insert owner.registration.files true }

def attachDeclaredAccesses (physical : PhysicalInjectionId) (task : InputTaskId)
    (description : PhysicalInjectionDescription) : Registry Unit := do
  noteFilesSharing task description.expectedSharing
  description.transient.forM fun declaration => do
    refuse (declaration.lifetime ≠ .transient) "input-call-access-not-transient"
    validateAccess declaration
  description.transient.forM fun declaration => do
    let id ← next
    modify fun s => { s with
      accesses := s.accesses.insert id ⟨task, declaration, some physical, none, false⟩ }

/-- The common end of `prepare_injection` and `prepare_observed_injection`. -/
def registerInjection (task : InputTaskId) (operation grant : ℕ)
    (description : PhysicalInjectionDescription) : Registry PhysicalInjectionId := do
  let generation ← next
  let id : PhysicalInjectionId := ⟨run, generation⟩
  attachDeclaredAccesses id task description
  modify fun s => { s with
    injections := s.injections.insert id
      ⟨task, operation, grant, description, .prepared, none, none, none⟩ }
  pure id

def prepareInjection (scope : InputOperationScope) (description : PhysicalInjectionDescription) :
    Registry PhysicalInjectionId := do
  validateScope run scope
  registerInjection run scope.task scope.logicalOperation scope.grant description

def prepareObservedInjection (task : InputTaskId) (logicalOperation : ℕ)
    (description : PhysicalInjectionDescription) : Registry PhysicalInjectionId := do
  let owner ← live task
  let grant ← orUnavailable (owner.grant.map (·.1)) "input-no-execution-grant"
  refuse (!owner.frozen.isEmpty) "input-task-frozen"
  registerInjection run task logicalOperation grant description

end

def readmitInjection (id : PhysicalInjectionId) (task : InputTaskId) (grant : ℕ) :
    Registry Unit := do
  let owner ← live task
  refuse (!owner.frozen.isEmpty ∨ owner.grant.map (·.1) ≠ some grant) "input-readmission-mismatch"
  let s ← get
  let call ← orUnavailable s.injections[id]? "input-call-missing"
  refuse (call.task ≠ task ∨ !call.state.settled ∨
      (values s.accesses).any fun access => access.physical == some id && !access.nativeComplete)
    "input-native-access-unsettled"
  set { s with
    accesses := s.accesses.filter fun _ (access : Access) =>
      access.physical ≠ some id || access.declaration.lifetime == InputAccessLifetime.persistent }

/-! ## Freezes -/

section
variable (run : ℕ)

/-- `freeze_locked` (and `freeze_tasks`). -/
def freezeLocked (members : Std.TreeSet InputTaskId) : Registry InputFreezeCohort := do
  let s ← get
  refuse (members.toList.any fun task => task.run ≠ run || !s.tasks.contains task)
    "input-task-not-owned"
  let id ← next
  let s ← get
  let tasks ← index (updateAll s.tasks
    (fun owner => { owner with frozen := owner.frozen.insert id, grant := none }) members.toList)
  set { s with tasks := tasks, freezes := s.freezes.insert id members }
  pure ⟨run, id⟩

def freezeGroup (task : InputTaskId) (includeCaller : Bool) : Registry InputFreezeCohort := do
  let s ← get
  let owner ← orUnavailable s.tasks[task]? "input-task-not-owned"
  let group := owner.registration.group
  let members := s.tasks.toList.filterMap fun entry =>
    if entry.2.registration.group = group ∧ (includeCaller = true ∨ entry.1 ≠ task)
    then some entry.1 else none
  let cohort ← freezeLocked run (Std.TreeSet.ofList members)
  modify fun s => { s with
    frozenGroups :=
      s.frozenGroups.insert group ((s.frozenGroups.getD group ∅).insert cohort.id) }
  pure cohort

def cohortMembers (cohort : InputFreezeCohort) : Registry (List InputTaskId) := do
  let s ← get
  refuse (cohort.run ≠ run) "input-run-mismatch"
  let members ← orUnavailable s.freezes[cohort.id]? "input-freeze-missing"
  pure members.toList

/-- Whether every access of the tasks is natively complete. -/
def State.nativelyComplete (s : State) (tasks : Std.TreeSet InputTaskId) : Bool :=
  (values s.accesses).all fun access => !tasks.contains access.task || access.nativeComplete

/-- Whether every listed task has ended its native effects. -/
def effectsComplete (tasks : List InputTaskId) : Registry Bool := do
  let s ← get
  tasks.allM fun task => do
    let owner ← index s.tasks[task]?
    pure owner.nativeEffectsComplete

/-- Remove a freeze from the freeze table, the frozen groups and its members. -/
def thaw (id : ℕ) : Registry (Std.TreeSet InputTaskId) := do
  let s ← get
  let members ← index s.freezes[id]?
  let tasks ← index (updateAll s.tasks
    (fun owner => { owner with frozen := owner.frozen.erase id }) members.toList)
  set { s with
    freezes := s.freezes.erase id
    frozenGroups := s.frozenGroups.map fun _ (freezes : Std.TreeSet ℕ) => freezes.erase id
    tasks := tasks }
  pure members

/-- Retire the transient accesses of a settled cohort. -/
def retireAccesses (members : Std.TreeSet InputTaskId) : Registry Unit :=
  modify fun s => { s with
    accesses := s.accesses.filter fun _ (access : Access) =>
      !members.contains access.task || access.declaration.lifetime == InputAccessLifetime.persistent }

/-- Whether `settle_fenced_tasks` ends the freeze. -/
def completedBy (fenced members : Std.TreeSet InputTaskId) : Registry Bool := do
  if !members.isEmpty && members.toList.all fenced.contains then
    let s ← get
    let ended ← effectsComplete members.toList
    pure (ended && s.nativelyComplete members)
  else pure false

def completedFreezes (fenced : Std.TreeSet InputTaskId) :
    List (ℕ × Std.TreeSet InputTaskId) → Registry (List ℕ)
  | [] => pure []
  | entry :: rest => do
    let done ← completedBy fenced entry.2
    let ids ← completedFreezes fenced rest
    pure (if done then entry.1 :: ids else ids)

def settleFencedTasks (tasks : List InputTaskId) : Registry Unit := do
  let s ← get
  let fenced : Std.TreeSet InputTaskId := Std.TreeSet.ofList tasks
  refuse (fenced.toList.any fun id => id.run ≠ run || !s.tasks.contains id) "input-task-not-owned"
  let ended ← effectsComplete fenced.toList
  refuse (!ended ∨ !s.nativelyComplete fenced) "input-cohort-native-unsettled"
  let completed ← completedFreezes fenced s.freezes.toList
  completed.forM fun id => do
    let members ← thaw id
    retireAccesses members

def cancelFreezeBeforeEffect (cohort : InputFreezeCohort) : Registry Unit := do
  let s ← get
  refuse (cohort.run ≠ run) "input-run-mismatch"
  let members ← orUnavailable s.freezes[cohort.id]? "input-freeze-missing"
  let touched ← members.toList.anyM fun task => do
    let owner ← index s.tasks[task]?
    pure (owner.nativeEffectsComplete || owner.nativeTerminal)
  refuse touched "input-retirement-has-native-effect"
  let _ ← thaw cohort.id

def settleFrozenCohort (cohort : InputFreezeCohort) : Registry Unit := do
  let s ← get
  refuse (cohort.run ≠ run) "input-run-mismatch"
  let members ← orUnavailable s.freezes[cohort.id]? "input-freeze-missing"
  let ended ← effectsComplete members.toList
  refuse (!ended ∨ !s.nativelyComplete members) "input-cohort-native-unsettled"
  let members ← thaw cohort.id
  retireAccesses members

end

/-! ## Settling physical calls -/

/-- The state after a call has its result. -/
def State.finished (s : State) (id : PhysicalInjectionId) (call : Injection)
    (region : RegionLifetime) (place : Region) (result : PhysicalInjectionState) : State :=
  { s with
    injections := s.injections.insert id { call with state := result, phase := none }
    regions := if place.transaction = some id
      then s.regions.insert region { place with transaction := none } else s.regions
    accesses := s.accesses.map fun _ access =>
      if access.physical = some id then { access with nativeComplete := true } else access }

def finishLocked (id : PhysicalInjectionId) (result : PhysicalInjectionState) : Registry Unit := do
  let s ← get
  let call ← orUnavailable s.injections[id]? "input-call-missing"
  let owner ← index s.tasks[call.task]?
  let region := owner.registration.region
  let place ← index s.regions[region]?
  set (s.finished id call region place result)

/-- The exposure that an unknown outcome leaves behind. -/
def exposeUnknownLifecycle (call : Injection) : Registry Unit :=
  match call.description.unknownLifecycle with
  | some exposure => addExposureLocked exposure
  | none => pure ()

/-- Phases from which the end of the task is fatal. -/
def InputTransactionPhase.unsettled : InputTransactionPhase → Bool
  | .initializing | .normalizing | .ready | .launched => true
  | .preparing | .preparedStopped => false

def State.unfinished (s : State) (task : InputTaskId) : List PhysicalInjectionId :=
  (s.injections.toList.filter fun entry => entry.2.task == task && !entry.2.state.settled).map (·.1)

/-- One call of the common loop of `terminal_gate_locked` and
    `backend_cancel_injections`: an unsettled image is fatal, an issued call ends
    with an unknown outcome, and `prepared` deals with a call that never ran. -/
def settleOne (prepared : PhysicalInjectionId → Registry Unit) (id : PhysicalInjectionId) :
    Registry Unit := do
  let s ← get
  let call ← index s.injections[id]?
  if call.phase.any (·.unsettled) then
    set { s with fatal := some (s.fatal.getD "input-terminal-before-settlement") }
    unavailable "input-terminal-before-settlement"
  else if call.state = .issued then
    exposeUnknownLifecycle call
    finishLocked id .outcomeUnknown
  else prepared id

def settleUnfinished (task : InputTaskId) (prepared : PhysicalInjectionId → Registry Unit) :
    Registry Unit := do
  let s ← get
  (s.unfinished task).forM (settleOne prepared)

def terminalGateLocked (task : InputTaskId) : Registry Unit :=
  settleUnfinished task fun id => finishLocked id .provedNoChild

/-- `backend_cancel_injections`: a prepared call stays owned until the exit or
    exec of its task settles it. -/
def backendCancelInjections (task : InputTaskId) : Registry Unit := do
  let s ← get
  let owner ← orUnavailable s.tasks[task]? "input-task-not-owned"
  set { s with tasks := s.tasks.insert task { owner with grant := none } }
  settleUnfinished task fun _ => pure ()

/-- Every access of the task is natively complete. -/
def completeAccesses (task : InputTaskId) : Registry Unit :=
  modify fun s => { s with
    accesses := s.accesses.map fun _ access =>
      if access.task = task then { access with nativeComplete := true } else access }

def effectsCompleteLocked (task : InputTaskId) : Registry Unit := do
  terminalGateLocked task
  let s ← get
  let owner ← orUnavailable s.tasks[task]? "input-task-not-owned"
  set { s with
    tasks := s.tasks.insert task
      { owner with nativeEffectsComplete := true, grant := none } }
  completeAccesses task

/-- The first lock section of `observe_exit_effects`: whether the registry
    answers without the native observer. -/
def observeRetainedEffects (task : InputTaskId) : Registry Bool := do
  let s ← get
  let owner ← orUnavailable s.tasks[task]? "input-task-not-owned"
  if owner.nativeEffectsComplete then pure true
  else if owner.nativeTerminal then
    effectsCompleteLocked task
    pure true
  else pure false

def backendTerminal (task : InputTaskId) : Registry Unit := do
  let s ← get
  let owner ← orUnavailable s.tasks[task]? "input-task-not-owned"
  set { s with
    tasks := s.tasks.insert task { owner with nativeTerminal := true, grant := none }
    byTid := if s.byTid[task.tid]? = some task then s.byTid.erase task.tid else s.byTid }
  effectsCompleteLocked task
  completeAccesses task

def backendFail (reason : String) : Registry Unit :=
  modify fun s => { s with fatal := some (s.fatal.getD reason) }

/-! ## Registering tasks -/

section
variable (run : ℕ)

/-- A task record as registration makes it. -/
def Task.fresh (registration : InputTaskRegistration) (frozen : Std.TreeSet ℕ) : Task :=
  ⟨registration, none, frozen, false, false⟩

def backendRegisterRoot (tid pid : ℤ) : Registry InputTaskRegistration := do
  let s ← get
  refuse (s.byTid.contains tid) "input-task-already-owned"
  let task : InputTaskId := ⟨run, ← next, tid⟩
  let region : RegionLifetime := ⟨run, ← next⟩
  let files : FileTableLifetime := ⟨run, ← next⟩
  let group : ThreadGroupLifetime := ⟨run, ← next⟩
  let registration : InputTaskRegistration :=
    ⟨task, tid, pid, none, none, group, none, region, files⟩
  modify fun s => { s with
    regions := s.regions.insert region .empty
    filesPossiblyShared := s.filesPossiblyShared.insert files false
    groupsMayHaveOtherThreads := s.groupsMayHaveOtherThreads.insertIfNew group false
    byTid := s.byTid.insert tid task
    tasks := s.tasks.insert task (.fresh registration ∅) }
  pure registration

/-- The part that `backend_register_child` and `backend_exec_replacement` share:
    publish a task and let it join the freezes. -/
def publishTask (registration : InputTaskRegistration) (freezes : Std.TreeSet ℕ) :
    Registry Unit := do
  let s ← get
  let task := registration.task
  let joined ← index (updateAll s.freezes (·.insert task) freezes.toList)
  set { s with
    byTid := s.byTid.insert task.tid task
    freezes := joined
    tasks := s.tasks.insert task (.fresh registration freezes) }

/-- The region of a child: a copy of the parent's without its transaction when
    the memory is known not to be shared. -/
def childRegion (parent : RegionLifetime) (memoryShared : Option Bool) :
    Registry RegionLifetime := do
  if memoryShared = some false then
    let region : RegionLifetime := ⟨run, ← next⟩
    let s ← get
    let copied ← index s.regions[parent]?
    set { s with
      regions := s.regions.insert region
        { copied with
          transaction := none
          exposures := copied.exposures.map fun (exposure : InputExposure) =>
            { exposure with target := .region region } } }
    pure region
  else pure parent

def childFiles (parent : FileTableLifetime) (filesShared : Option Bool) :
    Registry FileTableLifetime := do
  if filesShared = some false then pure ⟨run, ← next⟩ else pure parent

def childGroup (parent : InputTaskRegistration) (pid : ℤ) : Registry ThreadGroupLifetime := do
  if pid = parent.nativePid then pure parent.group else pure ⟨run, ← next⟩

/-- A clone with unknown memory sharing exposes the region. -/
def exposeUnknownMemory (region : RegionLifetime) (memoryShared : Option Bool) : Registry Unit := do
  if memoryShared.isNone then
    updateRegion region fun place => { place with exposures := place.exposures ++
      [⟨.region region, "input-native-memory-identity-unavailable"⟩] }

/-- The answer of the files observer, which runs after the lock is released. -/
def notifyFiles (observer : InputFilesEvent → Option Reason) (event : InputFilesEvent) :
    Registry Unit :=
  match observer event with
  | some reason => unavailable reason
  | none => pure ()

/-- `backend_register_child` after it found no task under the TID. -/
def registerNewChild (parent : InputTaskId) (owner : Task) (tid pid : ℤ)
    (memoryShared filesShared : Option Bool) (observer : InputFilesEvent → Option Reason) :
    Registry InputTaskRegistration := do
  let source := owner.registration
  let region ← childRegion run source.region memoryShared
  let files ← childFiles run source.files filesShared
  modify fun s => { s with
    filesPossiblyShared := s.filesPossiblyShared.insert files (filesShared ≠ some false) }
  let task : InputTaskId := ⟨run, ← next, tid⟩
  let group ← childGroup run source pid
  let s ← get
  let freezes := owner.frozen ∪ s.frozenGroups.getD group ∅
  let registration : InputTaskRegistration :=
    ⟨task, tid, pid, none, none, group, some parent, region, files⟩
  modify fun s => { s with
    groupsMayHaveOtherThreads :=
      if pid = source.nativePid then s.groupsMayHaveOtherThreads.insert group true
      else s.groupsMayHaveOtherThreads.insertIfNew group false
    regionsMayHaveOtherProcesses :=
      if pid ≠ source.nativePid ∧ memoryShared ≠ some false
      then s.regionsMayHaveOtherProcesses.insert region else s.regionsMayHaveOtherProcesses }
  exposeUnknownMemory region memoryShared
  publishTask registration freezes
  notifyFiles observer ⟨source, registration, filesShared, false⟩
  pure registration

def backendRegisterChild (parent : InputTaskId) (tid pid : ℤ)
    (memoryShared filesShared : Option Bool) (observer : InputFilesEvent → Option Reason) :
    Registry InputTaskRegistration := do
  let owner ← live parent
  let s ← get
  match s.byTid[tid]? with
  | some existing =>
    let known ← index s.tasks[existing]?
    refuse (known.registration.parent ≠ some parent ∨ known.registration.nativePid ≠ pid)
      "input-child-owner-conflict"
    pure known.registration
  | none => registerNewChild run parent owner tid pid memoryShared filesShared observer

/-- Forget the native TID of an exec predecessor. -/
def forgetTid (old : InputTaskId) : Registry Unit :=
  modify fun s => { s with
    byTid := if s.byTid[old.tid]? = some old then s.byTid.erase old.tid else s.byTid }

/-- The old images end before the new one is published. -/
def endPredecessors (displaced former : InputTaskId) : Registry Unit := do
  effectsCompleteLocked displaced
  if former ≠ displaced then effectsCompleteLocked former

/-- A task generation with an empty region and a private descriptor table. -/
def freshImage (tid : ℤ) : Registry (InputTaskId × RegionLifetime × FileTableLifetime) := do
  let task : InputTaskId := ⟨run, ← next, tid⟩
  let region : RegionLifetime := ⟨run, ← next⟩
  let files : FileTableLifetime := ⟨run, ← next⟩
  modify fun s => { s with
    regions := s.regions.insert region .empty
    filesPossiblyShared := s.filesPossiblyShared.insert files false }
  pure (task, region, files)

/-- `backend_exec_replacement` (and `backend_exec`, with one task twice). -/
def backendExecReplacement (displaced former : InputTaskId)
    (observer : InputFilesEvent → Option Reason) : Registry InputTaskRegistration := do
  let s ← get
  refuse s.fatal.isSome "input-run-terminal"
  let leader ← orUnavailable s.tasks[displaced]? "input-exec-owner-not-retained"
  let oldLeader := leader.registration
  let survivor ← orUnavailable s.tasks[former]? "input-exec-former-not-retained"
  let oldFormer := survivor.registration
  refuse (oldLeader.group ≠ oldFormer.group ∨ oldLeader.nativeTid ≠ oldLeader.nativePid)
    "input-exec-owner-mismatch"
  let freezes := s.frozenGroups.getD oldFormer.group ∅
  endPredecessors displaced former
  let (task, region, files) ← freshImage run oldLeader.nativeTid
  let registration := { oldFormer with
    task := task, nativeTid := oldLeader.nativeTid, nativePid := oldLeader.nativePid,
    toolTid := none, toolPid := none, region := region, files := files }
  forgetTid displaced
  forgetTid former
  publishTask registration freezes
  notifyFiles observer ⟨oldFormer, registration, some false, true⟩
  pure registration

/-! ## Page transactions -/

def backendSetLayout (task : InputTaskId) (layout : ReservedInputLayout) : Registry Unit := do
  match layout.validate with
  | .error reason => unavailable reason
  | .ok layout =>
    let owner ← live task
    updateRegion owner.registration.region fun place => { place with layout := some layout }

def backendBindInjection (receipt : PhysicalInjectionId) (task : InputTaskId) (number : ℕ)
    (args : Vector ℕ 6) : Registry Unit := do
  let s ← get
  let call ← orUnavailable s.injections[receipt]? "input-call-missing"
  let owner ← live task
  refuse (receipt.run ≠ run ∨ call.task ≠ task ∨ call.description.number ≠ number ∨
      call.description.args ≠ args ∨ call.state ≠ .prepared ∨
      owner.grant.map (·.1) ≠ some call.grant ∨ !owner.frozen.isEmpty)
    "input-physical-call-mismatch"

def backendBeginPreparation (receipt : PhysicalInjectionId) (scope : InputOperationScope)
    (image : ReservedInputImage) : Registry Unit := do
  validateScope run scope
  let owner ← live scope.task
  let region := owner.registration.region
  let s ← get
  let place ← index s.regions[region]?
  refuse place.transaction.isSome "input-transaction-busy"
  refuse (place.layout ≠ some image.layout) "input-layout-not-authenticated"
  let call ← orUnavailable s.injections[receipt]? "input-call-missing"
  refuse (call.task ≠ scope.task ∨ call.operation ≠ scope.logicalOperation ∨
      call.grant ≠ scope.grant ∨ call.state ≠ .prepared ∨ call.phase.isSome)
    "input-transaction-binding"
  updateRegion region fun place => { place with transaction := some receipt }
  updateInjection receipt fun call => { call with phase := some .preparing, image := some image }

end

/-- The first exposure of the page of a region. -/
def firstExposure (region : RegionLifetime) : Registry (Option InputExposure) := do
  let s ← get
  match s.globalExposures with
  | exposure :: _ => pure (some exposure)
  | [] =>
    let place ← index s.regions[region]?
    pure place.exposures.head?

/-- `if let Some(cause) = cause { return Err(InputUnavailable::new(cause)) }`. -/
def refuseCause (cause : Option Reason) : Registry Unit :=
  match cause with
  | some reason => unavailable reason
  | none => pure ()

def backendPreparedStopped (id : PhysicalInjectionId) : Registry ReservedInputImage := do
  let s ← get
  let call ← orUnavailable s.injections[id]? "input-call-missing"
  let owner ← live call.task
  refuse (call.phase ≠ some .preparing ∨ owner.grant.map (·.1) ≠ some call.grant ∨
    !owner.frozen.isEmpty) "input-operation-stale"
  let region := owner.registration.region
  refuse ((values s.tasks).any fun other =>
    other.registration.region == region && !other.frozen.isEmpty) "input-region-frozen"
  let image ← orUnavailable call.image "input-image-missing"
  let exposure ← firstExposure region
  refuseCause (exposure.map (·.cause))
  let conflict := (values s.accesses).find? fun access =>
    access.declaration.target.reaches region && access.declaration.span.overlaps image.layout
  refuseCause (conflict.map (·.declaration.cause))
  updateInjection id fun call => { call with phase := some .preparedStopped }
  pure image

def transition (id : PhysicalInjectionId) (source target : InputTransactionPhase) :
    Registry Unit := do
  let s ← get
  let call ← orUnavailable s.injections[id]? "input-call-missing"
  refuse (call.phase ≠ some source) "input-transaction-phase"
  updateInjection id fun call => { call with phase := some target }

def backendInitializing (id : PhysicalInjectionId) : Registry Unit :=
  transition id .preparedStopped .initializing

def backendNormalizing (id : PhysicalInjectionId) : Registry Unit :=
  transition id .initializing .normalizing

def backendVerifiedImage (id : PhysicalInjectionId) (readback : List UInt8) : Registry Unit := do
  let s ← get
  let call ← orUnavailable s.injections[id]? "input-call-missing"
  refuse (call.phase ≠ some .initializing ∧ call.phase ≠ some .normalizing)
    "input-transaction-phase"
  let image ← orUnavailable call.image "input-image-missing"
  refuse (image.bytes ≠ readback) "input-image-readback-mismatch"
  updateInjection id fun call => { call with verifiedImage := some image, phase := some .ready }

def backendIssued (id : PhysicalInjectionId) : Registry Unit := do
  let s ← get
  let call ← orUnavailable s.injections[id]? "input-call-missing"
  let sharing := call.description.expectedSharing
  let owner ← index s.tasks[call.task]?
  set { s with
    groupsMayHaveOtherThreads :=
      if sharing.mayCreate ∧ sharing.threadGroup ≠ some false
      then s.groupsMayHaveOtherThreads.insert owner.registration.group true
      else s.groupsMayHaveOtherThreads
    regionsMayHaveOtherProcesses :=
      if sharing.mayCreate ∧ sharing.memory ≠ some false ∧ sharing.threadGroup ≠ some true
      then s.regionsMayHaveOtherProcesses.insert owner.registration.region
      else s.regionsMayHaveOtherProcesses }
  refuse (s.injections.toList.any fun entry =>
    entry.1 ≠ id && entry.2.task == call.task && entry.2.state == .issued)
    "input-native-call-already-issued"
  refuse (call.state ≠ .prepared ∨ (call.phase.isSome ∧ call.phase ≠ some .ready))
    "input-issue-phase"
  updateInjection id fun call =>
    { call with state := .issued, phase := call.phase.map fun _ => .launched }

def backendSettledNotRun (id : PhysicalInjectionId) : Registry Unit := do
  let s ← get
  let call ← orUnavailable s.injections[id]? "input-call-missing"
  refuse (call.state ≠ .prepared ∨ call.phase.any fun phase =>
    phase ≠ .preparing && phase ≠ .preparedStopped && phase ≠ .ready) "input-not-run-unproved"
  finishLocked id .provedNoChild

def backendNoChild (id : PhysicalInjectionId) : Registry Unit := do
  let s ← get
  refuse (s.injections[id]?.all fun call => call.state ≠ .issued) "input-no-child-unproved"
  finishLocked id .provedNoChild

/-- `a.zip(b).is_some_and(|(a, b)| a != b)`. -/
def disagree (a b : Option Bool) : Bool :=
  match a, b with
  | some a, some b => a != b
  | _, _ => false

def backendRetainedBirth (id : PhysicalInjectionId) (child : InputTaskId)
    (memoryShared filesShared : Option Bool) : Registry Unit := do
  let s ← get
  let call ← orUnavailable s.injections[id]? "input-call-missing"
  if call.state = .retainedBirth child then pure ()
  else
    refuse (call.state ≠ .issued ∨ !s.tasks.contains child) "input-birth-binding"
    let expected := call.description.expectedSharing
    refuse (disagree expected.memory memoryShared ∨ disagree expected.files filesShared)
      "input-native-sharing-mismatch"
    call.description.prospective.forM fun exposure => do
      addExposureLocked exposure
    finishLocked id (.retainedBirth child)

def backendUnknownOutcome (id : PhysicalInjectionId) : Registry Unit := do
  let s ← get
  let call ← orUnavailable s.injections[id]? "input-call-missing"
  exposeUnknownLifecycle call
  finishLocked id .outcomeUnknown

def backendContinuation (task : InputTaskId) (physical : Option PhysicalInjectionId) :
    Registry Unit := do
  let owner ← live task
  let s ← get
  let place ← index s.regions[owner.registration.region]?
  match place.transaction with
  | none => pure ()
  | some id =>
    let call ← index s.injections[id]?
    if call.phase = some .preparing ∨ call.phase = some .preparedStopped then pure ()
    else
      refuse (physical ≠ some id ∨ (call.phase ≠ some .ready ∧ call.phase ≠ some .launched))
        "input-unsettled-continuation"

end Reverie.Input
