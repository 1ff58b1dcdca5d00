/-
  Runs of the registry: finite sequences of calls, each atomic under the registry's lock (the
  two lock sections of `observe_exit_effects` are two calls).  A refused call keeps what it
  wrote.  `Run.invariant`: the invariant holds in every reachable state.
-/
import Reverie.Input.Effects

namespace Reverie.Input

open Relation (ReflTransGen)

/-! ## Calls -/

/-- The registry's calls. -/
inductive Call where
  | bindToolIdentity (task : InputTaskId) (tid pid : ℤ)
  | grant (task : InputTaskId) (kind : InputGrantKind)
  | invalidateOperation (task : InputTaskId)
  | nativeRequestGrant (task : InputTaskId)
  | beginOperation (task : InputTaskId) (logicalOperation : ℕ)
  | finishOperation (scope : InputOperationScope)
  | acquireAccess (task : InputTaskId) (declaration : InputAccess)
  | attachAccess (lease : InputAccessLease) (receipt : PhysicalInjectionId)
  | completeAccessAfterReturn (lease : InputAccessLease) (task : InputTaskId)
  | bindAccessCompletion (lease : InputAccessLease) (task : InputTaskId)
      (completion : NativeOperationId)
  | completeAccessAfterCompletion (lease : InputAccessLease) (task : InputTaskId)
      (completion : NativeOperationId) (effectsComplete : Bool)
  | readmitAccess (lease : InputAccessLease) (task : InputTaskId) (grant : ℕ)
  | addExposure (exposure : InputExposure)
  | exposeBeforeContinuation (task : InputTaskId) (exposure : InputExposure)
  | prepareInjection (scope : InputOperationScope) (description : PhysicalInjectionDescription)
  | prepareObservedInjection (task : InputTaskId) (logicalOperation : ℕ)
      (description : PhysicalInjectionDescription)
  | readmitInjection (id : PhysicalInjectionId) (task : InputTaskId) (grant : ℕ)
  | freezeTasks (tasks : List InputTaskId)
  | freezeGroup (task : InputTaskId) (includeCaller : Bool)
  | cohortMembers (cohort : InputFreezeCohort)
  | settleFencedTasks (tasks : List InputTaskId)
  | cancelFreezeBeforeEffect (cohort : InputFreezeCohort)
  | settleFrozenCohort (cohort : InputFreezeCohort)
  | registerRoot (tid pid : ℤ)
  | registerChild (parent : InputTaskId) (tid pid : ℤ) (memoryShared filesShared : Option Bool)
      (observer : InputFilesEvent → Option Reason)
  | execReplacement (displaced former : InputTaskId) (observer : InputFilesEvent → Option Reason)
  | setLayout (task : InputTaskId) (layout : ReservedInputLayout)
  | bindInjection (receipt : PhysicalInjectionId) (task : InputTaskId) (number : ℕ)
      (args : Vector ℕ 6)
  | beginPreparation (receipt : PhysicalInjectionId) (scope : InputOperationScope)
      (image : ReservedInputImage)
  | preparedStopped (id : PhysicalInjectionId)
  | initializing (id : PhysicalInjectionId)
  | normalizing (id : PhysicalInjectionId)
  | verifiedImage (id : PhysicalInjectionId) (readback : List UInt8)
  | issued (id : PhysicalInjectionId)
  | settledNotRun (id : PhysicalInjectionId)
  | noChild (id : PhysicalInjectionId)
  | retainedBirth (id : PhysicalInjectionId) (child : InputTaskId)
      (memoryShared filesShared : Option Bool)
  | unknownOutcome (id : PhysicalInjectionId)
  | continuation (task : InputTaskId) (physical : Option PhysicalInjectionId)
  | cancelInjections (task : InputTaskId)
  | terminal (task : InputTaskId)
  | fail (reason : String)
  | observeRetainedEffects (task : InputTaskId)
  | observedEffects (task : InputTaskId)

def ignore {α : Type} (op : Registry α) : Registry Unit := do
  let _ ← op

variable (run : ℕ)

/-- What a call does to the registry. -/
def Call.exec : Call → Registry Unit
  | .bindToolIdentity task tid pid => ignore (backendBindToolIdentity task tid pid)
  | .grant task kind => ignore (Input.grant task kind)
  | .invalidateOperation task => Input.invalidateOperation task
  | .nativeRequestGrant task => ignore (Input.nativeRequestGrant task)
  | .beginOperation task n => ignore (Input.beginOperation run task n)
  | .finishOperation scope => Input.finishOperation run scope
  | .acquireAccess task declaration => ignore (Input.acquireAccess run task declaration)
  | .attachAccess lease receipt => Input.attachAccess run lease receipt
  | .completeAccessAfterReturn lease task => Input.completeAccessAfterReturn run lease task
  | .bindAccessCompletion lease task completion =>
    Input.bindAccessCompletion run lease task completion
  | .completeAccessAfterCompletion lease task completion effectsComplete =>
    Input.completeAccessAfterCompletion run lease task completion effectsComplete
  | .readmitAccess lease task g => Input.readmitAccess run lease task g
  | .addExposure exposure => addExposureLocked exposure
  | .exposeBeforeContinuation task exposure => backendExposeBeforeContinuation task exposure
  | .prepareInjection scope description => ignore (Input.prepareInjection run scope description)
  | .prepareObservedInjection task n description =>
    ignore (Input.prepareObservedInjection run task n description)
  | .readmitInjection id task g => Input.readmitInjection id task g
  | .freezeTasks tasks => ignore (freezeLocked run (Std.TreeSet.ofList tasks))
  | .freezeGroup task includeCaller => ignore (Input.freezeGroup run task includeCaller)
  | .cohortMembers cohort => ignore (Input.cohortMembers run cohort)
  | .settleFencedTasks tasks => Input.settleFencedTasks run tasks
  | .cancelFreezeBeforeEffect cohort => Input.cancelFreezeBeforeEffect run cohort
  | .settleFrozenCohort cohort => Input.settleFrozenCohort run cohort
  | .registerRoot tid pid => ignore (backendRegisterRoot run tid pid)
  | .registerChild parent tid pid memoryShared filesShared observer =>
    ignore (backendRegisterChild run parent tid pid memoryShared filesShared observer)
  | .execReplacement displaced former observer =>
    ignore (backendExecReplacement run displaced former observer)
  | .setLayout task layout => backendSetLayout task layout
  | .bindInjection receipt task number args => backendBindInjection run receipt task number args
  | .beginPreparation receipt scope image => backendBeginPreparation run receipt scope image
  | .preparedStopped id => ignore (backendPreparedStopped id)
  | .initializing id => backendInitializing id
  | .normalizing id => backendNormalizing id
  | .verifiedImage id readback => backendVerifiedImage id readback
  | .issued id => backendIssued id
  | .settledNotRun id => backendSettledNotRun id
  | .noChild id => backendNoChild id
  | .retainedBirth id child memoryShared filesShared =>
    backendRetainedBirth id child memoryShared filesShared
  | .unknownOutcome id => backendUnknownOutcome id
  | .continuation task physical => backendContinuation task physical
  | .cancelInjections task => backendCancelInjections task
  | .terminal task => backendTerminal task
  | .fail reason => backendFail reason
  | .observeRetainedEffects task => ignore (Input.observeRetainedEffects task)
  | .observedEffects task => effectsCompleteLocked task

def stateOf {α : Type} : EStateM.Result Stop State α → State
  | .ok _ s => s
  | .error _ s => s

/-- The state that a call leaves, whether it returned or was refused. -/
def Call.after (c : Call) (s : State) : State := stateOf (c.exec run s)

/-- The calls whose changes are all `Quiet`. -/
def Call.isQuiet : Call → Bool
  | .settleFencedTasks _ | .cancelFreezeBeforeEffect _ | .settleFrozenCohort _ | .setLayout _ _
  | .verifiedImage _ _ | .issued _ | .unknownOutcome _ | .readmitAccess _ _ _
  | .readmitInjection _ _ _ | .execReplacement _ _ _ => false
  | _ => true

/-! ## What calls keep -/

section
variable {run : ℕ} {P : State → Prop} {s : State}

theorem Keeps.ignore {α : Type} {op : Registry α} (h : Keeps P op s) : Keeps P (ignore op) s :=
  h.andThen fun _ _ h => h

theorem Keeps.after {c : Call} (h : Keeps P (c.exec run) s) : P (c.after run s) := by
  unfold Keeps Does Ensures at h
  unfold Call.after
  rcases hx : c.exec run s with ⟨_, s'⟩ | ⟨e, s'⟩ <;> rw [hx] at h
  · exact h
  · exact h.1

theorem Keeps.no_panic {c : Call} (h : Keeps P (c.exec run) s) (s' : State) :
    c.exec run s ≠ .error .panic s' := by
  intro hx
  exact (Ensures.of_error h hx).2 rfl

theorem Call.keeps_quiet (hP : Stable Quiet P) (hs : P s) {c : Call} (hc : c.isQuiet = true) :
    Keeps P (c.exec run) s := by
  cases c with
  | bindToolIdentity => exact (backendBindToolIdentity_keeps hP hs).ignore
  | grant => exact (grant_keeps hP hs).ignore
  | invalidateOperation => exact invalidateOperation_keeps hP hs
  | nativeRequestGrant => exact (nativeRequestGrant_keeps hs).ignore
  | beginOperation => exact (beginOperation_keeps hP hs).ignore
  | finishOperation => exact finishOperation_keeps hP hs
  | acquireAccess => exact (acquireAccess_keeps hP hs).ignore
  | attachAccess => exact attachAccess_keeps hP hs
  | completeAccessAfterReturn => exact completeAccessAfterReturn_keeps hP hs
  | bindAccessCompletion => exact bindAccessCompletion_keeps hP hs
  | completeAccessAfterCompletion => exact completeAccessAfterCompletion_keeps hP hs
  | addExposure => exact addExposureLocked_keeps hP.calm hs
  | exposeBeforeContinuation => exact backendExposeBeforeContinuation_keeps hP.calm hs
  | prepareInjection => exact (prepareInjection_keeps hP hs).ignore
  | prepareObservedInjection => exact (prepareObservedInjection_keeps hP hs).ignore
  | freezeTasks => exact (freezeLocked_keeps hP hs).ignore
  | freezeGroup => exact (freezeGroup_keeps hP hs).ignore
  | cohortMembers => exact (cohortMembers_keeps hs).ignore
  | registerRoot => exact (backendRegisterRoot_keeps hP hs).ignore
  | registerChild =>
    exact (backendRegisterChild_keeps hP.calm hs fun _ _ _ _ _ _ h _ registers births _ =>
      hP.step h (.publish registers births)).ignore
  | bindInjection => exact backendBindInjection_keeps hs
  | beginPreparation => exact backendBeginPreparation_keeps hP hs
  | preparedStopped => exact (backendPreparedStopped_keeps hP hs).ignore
  | initializing => exact backendInitializing_keeps hP hs
  | normalizing => exact backendNormalizing_keeps hP hs
  | settledNotRun => exact backendSettledNotRun_keeps hP hs
  | noChild => exact backendNoChild_keeps hP hs
  | retainedBirth => exact backendRetainedBirth_keeps hP hs
  | continuation => exact backendContinuation_keeps hP hs
  | cancelInjections => exact backendCancelInjections_keeps hP.calm hs
  | terminal => exact backendTerminal_keeps hP.calm hs
  | fail => exact backendFail_keeps hP.calm hs
  | observeRetainedEffects => exact (observeRetainedEffects_keeps hP.calm hs).ignore
  | observedEffects => exact effectsCompleteLocked_keeps hP.calm hs
  | settleFencedTasks | cancelFreezeBeforeEffect | settleFrozenCohort | setLayout | verifiedImage
  | issued | unknownOutcome | readmitAccess | readmitInjection | execReplacement => cases hc

/-- The image that the call replaces keeps `P`. -/
def KeepsReplacement (P : State → Prop) (s : State) (c : Call) : Prop :=
  ∀ displaced former observer s' s'', c = .execReplacement displaced former observer →
    P s' → ReflTransGen Calm s s' → Replace former s' s'' → P s''

/-- What the calls that are not quiet must preserve, each in the state it finds. -/
structure Special (P : State → Prop) (s : State) (c : Call) : Prop where
  settle : (∃ tasks, c = .settleFencedTasks tasks) ∨ (∃ cohort, c = .settleFrozenCohort cohort) →
    Stable Settle P
  cancel : (∃ cohort, c = .cancelFreezeBeforeEffect cohort) → Stable Cancel P
  layout : ∀ task layout owner place, c = .setLayout task layout → s.tasks[task]? = some owner →
    layout.Valid → s.regions[owner.registration.region]? = some place →
    P { s with
      regions := s.regions.insert owner.registration.region { place with layout := some layout } }
  verified : ∀ id readback call image, c = .verifiedImage id readback →
    s.injections[id]? = some call → call.HalfWritten → call.image = some image →
    image.bytes = readback →
    P { s with
      injections := s.injections.insert id
        { call with verifiedImage := some image, phase := some .ready } }
  issued : ∀ id groups regions call, c = .issued id →
    s.Marks s.filesPossiblyShared groups regions → s.injections[id]? = some call →
    call.state = .prepared → (call.phase = none ∨ call.phase = some .ready) →
    s.NoneIssued id call.task →
    P { s with
      groupsMayHaveOtherThreads := groups
      regionsMayHaveOtherProcesses := regions
      injections := s.injections.insert id
        { call with state := .issued, phase := call.phase.map fun _ => .launched } }
  unknown : ∀ id s' call owner place, c = .unknownOutcome id → P s' →
    s'.injections = s.injections → s'.injections[id]? = some call →
    s'.tasks[call.task]? = some owner → s'.regions[owner.registration.region]? = some place →
    P (s'.finished id call owner.registration.region place .outcomeUnknown)
  replace : KeepsReplacement P s c
  readmitAccess : ∀ lease task g s', c = .readmitAccess lease task g →
    Readmission (fun n access => n = lease.id ∧ access.task = task) task g s s' → P s'
  readmitInjection : ∀ id task g s', c = .readmitInjection id task g →
    Readmission (fun _ access => access.physical = some id) task g s s' → P s'

/-- A call keeps what quiet changes preserve and its own special change does. -/
theorem Call.keeps_special (hP : Stable Quiet P) (hs : P s) {c : Call} (h : Special P s c) :
    Keeps P (c.exec run) s := by
  by_cases hc : c.isQuiet = true
  · exact keeps_quiet hP hs hc
  · cases c with
    | settleFencedTasks => exact settleFencedTasks_keeps hs (h.settle (Or.inl ⟨_, rfl⟩))
    | settleFrozenCohort =>
      exact settleFrozenCohort_keeps hs (hP.invariant hs) fun _ c _ =>
        (h.settle (Or.inr ⟨_, rfl⟩)).step hs c
    | cancelFreezeBeforeEffect =>
      exact cancelFreezeBeforeEffect_keeps hs (hP.invariant hs) fun _ c _ =>
        (h.cancel ⟨_, rfl⟩).step hs c
    | setLayout =>
      exact backendSetLayout_keeps hs (hP.invariant hs) fun owner place => h.layout _ _ owner place rfl
    | verifiedImage =>
      exact backendVerifiedImage_keeps hs fun call image => h.verified _ _ call image rfl
    | issued =>
      exact backendIssued_keeps hs (hP.invariant hs)
        (fun groups regions marks => hP.step hs (.history s _ groups regions marks))
        fun groups regions call => h.issued _ groups regions call rfl
    | execReplacement =>
      exact (backendExecReplacement_keeps hP.calm hs fun s' s'' =>
        h.replace _ _ _ s' s'' rfl).ignore
    | readmitAccess => exact readmitAccess_keeps hs fun s' => h.readmitAccess _ _ _ s' rfl
    | readmitInjection => exact readmitInjection_keeps hs fun s' => h.readmitInjection _ _ _ s' rfl
    | unknownOutcome =>
      exact backendUnknownOutcome_keeps hP.calm hs fun s' call owner place =>
        h.unknown _ s' call owner place rfl
    | _ => exact absurd rfl hc

theorem Stable.special (hP : Stable Change P) (hs : P s) {c : Call} (h : KeepsReplacement P s c) :
    Special P s c where
  settle _ := ⟨hP.invariant, fun h c => hP.step h (.settle c)⟩
  cancel _ := ⟨hP.invariant, fun h c => hP.step h (.cancel c)⟩
  layout _ _ _ _ _ _ valid region := hP.step hs (.layout _ valid region)
  verified _ _ _ _ _ known phase written _ := hP.step hs (.verified known phase written)
  issued _ groups regions _ _ marks known state phase alone :=
    hP.step (hP.step hs (.quiet (.history s s.filesPossiblyShared groups regions marks)))
      (.issue known state phase alone)
  unknown _ _ _ _ _ _ hs' _ known task region := hP.step hs' (.settleUnchecked known task region)
  replace := h
  readmitAccess _ _ _ _ _ c := hP.step hs (.readmission c)
  readmitInjection _ _ _ _ _ c := hP.step hs (.readmission c)

theorem Call.keeps (hP : Stable Change P) (hs : P s) (c : Call) (h : KeepsReplacement P s c) :
    Keeps P (c.exec run) s :=
  keeps_special hP.quiet hs (hP.special hs h)

end

/-! ## Runs -/

/-- A run of calls that all meet the condition `ok` in the state they find. -/
def Run (ok : State → Call → Prop) : State → State → Prop :=
  ReflTransGen fun s s' => ∃ c, ok s c ∧ s' = c.after run s

/-- Any call may be made. -/
def anyCall (_ : State) (_ : Call) : Prop := True

section
variable {run : ℕ} {ok : State → Call → Prop} {s s' : State}

theorem stable_invariant : Stable Change Invariant := ⟨id, Invariant.change⟩

theorem Call.keeps_invariant (hi : Invariant s) (c : Call) : Keeps Invariant (c.exec run) s :=
  c.keeps stable_invariant hi fun _ _ _ _ _ _ h _ c => h.replace c

theorem Run.invariant (h : Run run ok s s') (hi : Invariant s) : Invariant s' := by
  induction h with
  | refl => exact hi
  | tail _ hstep ih =>
    obtain ⟨c, _, rfl⟩ := hstep
    exact (c.keeps_invariant ih).after

def afterAll (run : ℕ) (s : State) (calls : List Call) : State :=
  calls.foldl (fun s c => c.after run s) s

theorem run_afterAll (s : State) (calls : List Call) : Run run anyCall s (afterAll run s calls) := by
  induction calls generalizing s with
  | nil => exact ReflTransGen.refl
  | cons c calls ih => exact ReflTransGen.head ⟨c, trivial, rfl⟩ (ih (c.after run s))

/-- **The tables never dangle.**  After any calls, refused ones included, entries name
    registered entries of past generations, the state of a call fits its phase, and every
    layout is valid. -/
theorem tables_closed (run : ℕ) (calls : List Call) :
    let s := afterAll run .init calls
    s.Fresh ∧ s.Owned ∧ s.Histories ∧
      (∀ (id : PhysicalInjectionId) call, s.injections[id]? = some call → call.Consistent) ∧
      ∀ (r : RegionLifetime) place, s.regions[r]? = some place →
        ∀ layout, place.layout = some layout → layout.Valid := by
  intro s
  have h : Invariant s := (run_afterAll _ calls).invariant .init
  exact ⟨h.fresh, h.owned, h.histories, h.transactions.consistent, h.transactions.layout⟩

end

end Reverie.Input
