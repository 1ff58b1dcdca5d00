/-
  Handoff and re-admission (`ExecutionPlan` of `selection.rs`).  Each function is a conjunction
  of its checks.  Main theorem: `readmission_strict_iff`.
-/
import Reverie.Selection.Admission

namespace Reverie.Selection

/-! ## Facts and plans -/

/-- Whose filters the guest carries. -/
inductive SeccompLineage where
  | backendInstalled
  | preexisting
  | noneInstalled
  deriving DecidableEq

/-- What is known of a guest at its handoff. -/
structure HandoffFacts where
  tracerPid : Knowledge ℤ
  seccompLineage : Knowledge SeccompLineage
  atSecure : Knowledge Bool
  threadsAtHandoff : Knowledge ℕ
  signalOwnership : Knowledge Bool
  firstInstructionPending : Knowledge Bool

/-- How a guest goes on. -/
inductive SuccessionKind where
  | fork
  | exec

/-- What is known of the one that goes on. -/
structure SuccessionFacts where
  kind : SuccessionKind
  preloadPresent : Knowledge Bool
  atSecure : Knowledge Bool
  firstInstructionPending : Knowledge Bool
  threads : Knowledge ℕ

/-- A retained cell, and the requirements that it was admitted under. -/
structure ExecutionPlan where
  cell : ImplementedCell
  requirements : EffectiveRequirements

namespace ExecutionPlan

def fromReport (report : AdmissionReport) (cells : List ImplementedCell) : Option ExecutionPlan :=
  (cells.find? (·.id = report.chosen)).map fun cell => ⟨cell, report.requirements⟩

/-- `terminal`: a refusal with a trace of one stage. -/
def terminal (plan : ExecutionPlan) (stage : String) (reason : RemovalReason) (code : RefusalCode)
    (detail : String) : AdmissionRefusal where
  code := code
  detail := detail
  trace := ⟨[⟨stage, [(plan.cell.id, [reason])]⟩], []⟩
  terminal := true

/-- A load-bearing fact: a good value passes, another or a disproved one is refused, and
    so is an unknown one. -/
def checkFact {α : Type} (plan : ExecutionPlan) (stage : String) (fact : Knowledge α) (good : α → Bool)
    (reason : RemovalReason) (code : RefusalCode) (detail : String) (unknown : RemovalReason)
    (unproved : String) : Except AdmissionRefusal Unit :=
  match fact with
  | .proved v => if good v then .ok () else .error (plan.terminal stage reason code detail)
  | .disproved => .error (plan.terminal stage reason code detail)
  | .unknown _ => .error (plan.terminal stage unknown .rEnvUnknown unproved)

variable (plan : ExecutionPlan)

def checkTrue (stage : String) (reason : RemovalReason) (fact : Knowledge Bool)
    (code : RefusalCode) (what : String) : Except AdmissionRefusal Unit :=
  plan.checkFact stage fact (· = true) reason code s!"{stage}: {what} does not hold"
    (.envUnknown stage) s!"{stage}: {what} is unproved"

/-! ## The handoff -/

def validateHandoff (facts : HandoffFacts) : Except AdmissionRefusal Unit := do
  if plan.cell.window = .zero then
    plan.checkTrue "handoff" .windowMismatch facts.firstInstructionPending .rWindow
      "no guest instruction has run before arming"
  if plan.cell.debugger = .exclusiveOnly then
    plan.checkFact "handoff" facts.tracerPid (· = 0) (.envDisproved "P2") .rPtrace
      "handoff: guest already has a tracer" (.envUnknown "P2")
      "handoff: guest tracer ownership is unproved"
  if plan.cell.mechanism ≠ .vmExits then
    plan.checkFact "handoff" facts.seccompLineage (· = .backendInstalled)
      (.lifecycleUnproven "seccomp lineage") .rLifecycle
      "handoff: guest seccomp lineage is not accounted for by the backend"
      (.envUnknown "seccomp lineage") "handoff: guest seccomp lineage is unproved"
  if plan.cell.envelope.guest = .dynamicPreloadableOnly then
    plan.checkFact "handoff" facts.atSecure (· = false) .guestShapeMismatch .rLifecycle
      "handoff: guest is in secure-execution mode, outside the tested envelope"
      (.envUnknown "handoff") "handoff: secure-execution mode is unproved"
  if plan.cell.envelope.threads = .singleThread then
    plan.checkFact "handoff" facts.threadsAtHandoff (· ≤ 1) (.lifecycleUnproven "threads") .rLifecycle
      "handoff: guest already has more threads than the tested envelope"
      (.envUnknown "handoff") "handoff: thread count is unproved"
  if plan.cell.envelope.signalOwnershipAtHandoff then
    plan.checkTrue "handoff" (.signalUnavailable "signal ownership") facts.signalOwnership .rSignal
      "required signal ownership is available"

/-! ## Re-admission

The `debug_assert` on the kind of the facts is no check of a release build. -/

def readmitOnFork (child : SuccessionFacts) : Except AdmissionRefusal ExecutionPlan := do
  if plan.cell.activation = .preloadLate then
    plan.checkFact "readmission" child.preloadPresent (· = true) (.lifecycleUnproven "fork preload")
      .rLifecycle "fork child does not carry the preload activation"
      (.envUnknown "readmission") "fork child preload presence is unproved"
  -- only a proved count binds
  match plan.cell.envelope.threads, child.threads with
  | .singleThread, .proved n =>
    if 1 < n then
      throw (plan.terminal "readmission" (.lifecycleUnproven "threads") .rLifecycle
        "fork child exceeds the tested single-thread envelope")
    else return plan
  | _, _ => return plan

def readmitOnExec (succ : SuccessionFacts) : Except AdmissionRefusal ExecutionPlan :=
  match plan.cell.envelope.exec with
  | .refused =>
    throw (plan.terminal "readmission" .execUnproven .rExec
      s!"cell {plan.cell.id.name} does not re-arm exec successors")
  | .emulated =>
    if plan.cell.window = .zero ∧ succ.firstInstructionPending.isDenied then
      throw (plan.terminal "readmission" .execUnproven .rExec
        "successor instructions ran before re-admission")
    else return plan
  | .rearmedSameCell => do
    plan.checkTrue "readmission" .execUnproven succ.firstInstructionPending .rExec
      "successor image is re-armed before its first instruction"
    -- a proved value of either kind passes
    if succ.atSecure.isUnknown ∧ plan.cell.envelope.guest = .dynamicPreloadableOnly then
      throw (plan.terminal "readmission" (.envUnknown "readmission") .rEnvUnknown
        "successor secure-execution mode is unproved")
    return plan

/-! ## Refusals -/

/-- A refusal, if there is one, is terminal. -/
def Terminal {α : Type} (x : Except AdmissionRefusal α) : Prop := ∀ r, x = .error r → r.terminal = true

section
variable {α β : Type} {x : Except AdmissionRefusal α} {f : α → Except AdmissionRefusal β}

theorem Terminal.pure (a : α) : Terminal (Pure.pure a) := by rintro r ⟨⟩

theorem Terminal.throw {stage : String} {reason : RemovalReason} {code : RefusalCode} {detail : String} :
    Terminal (throw (plan.terminal stage reason code detail) : Except AdmissionRefusal α) := by
  rintro r ⟨⟩
  rfl

theorem Terminal.bind (hx : Terminal x) (hf : ∀ a, Terminal (f a)) : Terminal (x >>= f) := by
  cases x with
  | ok a => exact hf a
  | error e =>
    rintro r ⟨⟩
    exact hx _ rfl

theorem checkFact_terminal {stage detail unproved : String} {fact : Knowledge α} {good : α → Bool}
    {reason unknown : RemovalReason} {code : RefusalCode} :
    Terminal (plan.checkFact stage fact good reason code detail unknown unproved) := by
  cases fact with
  | proved v =>
    rw [checkFact]
    split_ifs
    · exact Terminal.pure ()
    · exact Terminal.throw plan
  | disproved => exact Terminal.throw plan
  | unknown => exact Terminal.throw plan

/-- A check that is made only in some cells. -/
theorem Terminal.check {c : Prop} [Decidable c] {y : Except AdmissionRefusal Unit} (hy : Terminal y)
    {rest : Except AdmissionRefusal α} (hrest : Terminal rest) :
    Terminal (do if c then y
                 rest : Except AdmissionRefusal α) := by
  by_cases hc : c
  · simp only [hc, if_true]
    exact hy.bind fun _ => hrest
  · simp only [hc, if_false]
    exact hrest

/-- **After admission every refusal is terminal**: no weaker cell is tried. -/
theorem refusals_terminal (facts : HandoffFacts) (succ : SuccessionFacts) :
    Terminal (plan.validateHandoff facts) ∧ Terminal (plan.readmitOnFork succ) ∧
      Terminal (plan.readmitOnExec succ) := by
  refine ⟨?_, ?_, ?_⟩
  · rw [validateHandoff]
    iterate 5 refine Terminal.check (checkFact_terminal plan) ?_
    split_ifs
    · exact checkFact_terminal plan
    · exact Terminal.pure _
  · rw [readmitOnFork]
    refine Terminal.check (checkFact_terminal plan) ?_
    split
    · split_ifs
      · exact Terminal.throw plan
      · exact Terminal.pure _
    · exact Terminal.pure _
  · rw [readmitOnExec]
    split
    · exact Terminal.throw plan
    · split_ifs
      · exact Terminal.throw plan
      · exact Terminal.pure _
    · refine (checkFact_terminal plan).bind fun _ => ?_
      exact Terminal.check (Terminal.throw plan) (Terminal.pure _)

end

/-! ## What the functions check -/

section
variable {plan plan' : ExecutionPlan}
variable {α : Type} {stage : String} {reason : RemovalReason} {code : RefusalCode}
  {x : Except AdmissionRefusal Unit} {c : Prop}

theorem checkFact_ok_iff {detail unproved : String} {fact : Knowledge α} {good : α → Bool}
    {unknown : RemovalReason} :
    plan.checkFact stage fact good reason code detail unknown unproved = .ok () ↔
      ∃ v, good v = true ∧ fact = .proved v := by
  cases fact with
  | proved v =>
    simp only [checkFact, Knowledge.proved.injEq, exists_eq_right']
    split_ifs with hgood
    · simp only [hgood]
    · simp only [reduceCtorEq, hgood]
  | disproved => simp only [checkFact, reduceCtorEq, and_false, exists_false]
  | unknown => simp only [checkFact, reduceCtorEq, and_false, exists_false]

theorem checkTrue_ok_iff {what : String} {fact : Knowledge Bool} :
    plan.checkTrue stage reason fact code what = .ok () ↔ fact = .proved true := by
  simp only [checkTrue, checkFact_ok_iff, decide_eq_true_eq, exists_eq_left]

theorem check_bind_ok_iff {rest : Unit → Except AdmissionRefusal α} {a : α} :
    (x >>= rest) = .ok a ↔ x = .ok () ∧ rest () = .ok a := by
  cases x with
  | ok => simp only [bind, Except.bind, true_and]
  | error => simp only [bind, Except.bind, reduceCtorEq, false_and]

theorem check_then_ok_iff [Decidable c] {rest : Except AdmissionRefusal α} {a : α} :
    (do if c then x
        rest : Except AdmissionRefusal α) = .ok a ↔ (c → x = .ok ()) ∧ rest = .ok a := by
  by_cases hc : c
  · simp only [hc, if_true, forall_const, check_bind_ok_iff]
  · simp only [hc, if_false, false_implies, true_and]

theorem check_if_ok_iff [Decidable c] :
    (if c then x else pure PUnit.unit) = .ok () ↔ (c → x = .ok ()) := by
  by_cases hc : c
  · simp only [hc, if_true, forall_const]
  · simp only [hc, false_implies, iff_true]
    rfl

theorem pure_ok_iff :
    (pure plan : Except AdmissionRefusal ExecutionPlan) = .ok plan' ↔ plan' = plan := by
  simp only [pure, Except.pure, Except.ok.injEq, eq_comm]

theorem throw_ok_iff {refusal : AdmissionRefusal} {a : α} :
    (throw refusal : Except AdmissionRefusal α) = .ok a ↔ False := by
  simp only [reduceCtorEq]

theorem validateHandoff_ok_iff {facts : HandoffFacts} :
    plan.validateHandoff facts = .ok () ↔
      (plan.cell.window = .zero → facts.firstInstructionPending = .proved true) ∧
      (plan.cell.debugger = .exclusiveOnly → facts.tracerPid = .proved 0) ∧
      (plan.cell.mechanism ≠ .vmExits → facts.seccompLineage = .proved .backendInstalled) ∧
      (plan.cell.envelope.guest = .dynamicPreloadableOnly → facts.atSecure = .proved false) ∧
      (plan.cell.envelope.threads = .singleThread → ∃ n ≤ 1, facts.threadsAtHandoff = .proved n) ∧
      (plan.cell.envelope.signalOwnershipAtHandoff = true → facts.signalOwnership = .proved true) := by
  simp only [validateHandoff, check_then_ok_iff, check_if_ok_iff, checkTrue_ok_iff, checkFact_ok_iff,
    decide_eq_true_eq, exists_eq_left]

/-- A fork child needs the preload, and a proved count of threads within the bound. -/
theorem readmitOnFork_ok_iff {child : SuccessionFacts} :
    plan.readmitOnFork child = .ok plan' ↔
      plan' = plan ∧
      (plan.cell.activation = .preloadLate → child.preloadPresent = .proved true) ∧
      (plan.cell.envelope.threads = .singleThread → ∀ n, child.threads = .proved n → n ≤ 1) := by
  simp only [readmitOnFork, check_then_ok_iff, checkFact_ok_iff, decide_eq_true_eq, exists_eq_left]
  rw [and_left_comm]
  cases plan.cell.envelope.threads with
  | multiThread => simp only [pure_ok_iff, reduceCtorEq, false_implies, and_true]
  | singleThread =>
    cases child.threads with
    | disproved | unknown => simp only [pure_ok_iff, reduceCtorEq, false_implies, implies_true, and_true]
    | proved n =>
      simp only [Knowledge.proved.injEq, forall_eq', forall_const]
      split_ifs with hn
      · simp only [Nat.not_le.2 hn, and_false]
      · simp only [pure_ok_iff, Nat.not_lt.1 hn, and_true]

/-- An exec successor needs its first instruction pending where the cell is re-armed, and
    a known secure-execution mode, whichever it is. -/
theorem readmitOnExec_ok_iff {succ : SuccessionFacts} :
    plan.readmitOnExec succ = .ok plan' ↔
      plan' = plan ∧
      match plan.cell.envelope.exec with
      | .refused => False
      | .emulated => plan.cell.window = .zero → succ.firstInstructionPending.isDenied = false
      | .rearmedSameCell => succ.firstInstructionPending = .proved true ∧
          (plan.cell.envelope.guest = .dynamicPreloadableOnly → succ.atSecure.isUnknown = false) := by
  simp only [readmitOnExec]
  cases plan.cell.envelope.exec with
  | refused => simp only [throw_ok_iff, and_false]
  | emulated =>
    simp only
    split_ifs with hran
    · simp only [hran.1, hran.2, forall_const, Bool.true_eq_false, and_false]
    · rw [pure_ok_iff, and_iff_left]
      exact fun hzero => Bool.eq_false_iff.2 fun hdenied => hran ⟨hzero, hdenied⟩
  | rearmedSameCell =>
    simp only [check_bind_ok_iff, check_then_ok_iff, checkTrue_ok_iff, throw_ok_iff, pure_ok_iff]
    rw [← and_assoc, and_comm]
    rw [imp_false, not_and', Bool.not_eq_true]

end

/-! ## Strictness -/

/-- Activated by a preload, or only meant for guests that are. -/
def usesPreload : Prop :=
  plan.cell.activation = .preloadLate ∨ plan.cell.envelope.guest = .dynamicPreloadableOnly

/-- The facts of a successor as those of a handoff; what they do not have is as a handoff
    wants it. -/
def asHandoff (facts : SuccessionFacts) : HandoffFacts where
  tracerPid := .proved 0
  seccompLineage := .proved .backendInstalled
  atSecure := facts.atSecure
  threadsAtHandoff := facts.threads
  signalOwnership := .proved true
  firstInstructionPending := facts.firstInstructionPending

/-- The facts pass every check of a handoff, and the preload that the cell lives on is
    there. -/
def AsStrict (facts : SuccessionFacts) : Prop :=
  plan.validateHandoff (asHandoff facts) = .ok () ∧
    (plan.usesPreload → facts.preloadPresent = .proved true ∧ facts.atSecure = .proved false)

instance (plan : ExecutionPlan) : Decidable plan.usesPreload := by
  unfold usesPreload
  infer_instance

instance (plan : ExecutionPlan) (facts : SuccessionFacts) : Decidable (plan.AsStrict facts) := by
  unfold AsStrict
  infer_instance

theorem asStrict_iff {plan : ExecutionPlan} {facts : SuccessionFacts} :
    plan.AsStrict facts ↔
      (plan.cell.window = .zero → facts.firstInstructionPending = .proved true) ∧
      (plan.usesPreload → facts.preloadPresent = .proved true ∧ facts.atSecure = .proved false) ∧
      (plan.cell.envelope.threads = .singleThread → ∃ n ≤ 1, facts.threads = .proved n) := by
  simp only [AsStrict, validateHandoff_ok_iff, asHandoff, implies_true, true_and, and_true]
  constructor
  · rintro ⟨⟨hwindow, -, hthreads⟩, hpreload⟩
    exact ⟨hwindow, hpreload, hthreads⟩
  · rintro ⟨hwindow, hpreload, hthreads⟩
    exact ⟨⟨hwindow, fun hguest => (hpreload (.inr hguest)).2, hthreads⟩, hpreload⟩

/-- Facts of an exec that no re-admission refuses, unless it needs the first instruction. -/
def execFacts (pending : Knowledge Bool) : SuccessionFacts :=
  ⟨.exec, .disproved, .proved true, pending, .disproved⟩

/-- Facts of a fork that no re-admission refuses. -/
def forkFacts : SuccessionFacts :=
  ⟨.fork, .proved true, .disproved, .unknown "not observed", .disproved⟩

theorem not_bound_of_asStrict {plan : ExecutionPlan} {facts : SuccessionFacts}
    (h : plan.AsStrict facts) (hsecure : facts.atSecure ≠ .proved false)
    (hthreads : facts.threads = .disproved) :
    ¬ plan.usesPreload ∧ plan.cell.envelope.threads ≠ .singleThread := by
  obtain ⟨-, hpreload, hbound⟩ := asStrict_iff.1 h
  refine ⟨fun hp => hsecure (hpreload hp).2, fun hsingle => ?_⟩
  obtain ⟨n, -, hn⟩ := hbound hsingle
  rw [hthreads] at hn
  cases hn

theorem asStrict_of_not_bound {plan : ExecutionPlan} {facts : SuccessionFacts}
    (hpreload : ¬ plan.usesPreload) (hthreads : plan.cell.envelope.threads ≠ .singleThread)
    (hwindow : plan.cell.window = .zero → facts.firstInstructionPending = .proved true) :
    plan.AsStrict facts :=
  asStrict_iff.2 ⟨hwindow, fun hp => absurd hp hpreload, fun hsingle => absurd hsingle hthreads⟩

theorem readmitOnExec_strict_iff (plan : ExecutionPlan) :
    (∀ facts, facts.kind = .exec → plan.readmitOnExec facts = .ok plan → plan.AsStrict facts) ↔
      plan.cell.envelope.exec = .refused ∨
      (¬ plan.usesPreload ∧ plan.cell.envelope.threads ≠ .singleThread) ∧
        (plan.cell.envelope.exec = .rearmedSameCell ∨ plan.cell.window ≠ .zero) := by
  simp only [readmitOnExec_ok_iff, true_and]
  constructor
  · intro h
    cases hexec : plan.cell.envelope.exec with
    | refused => exact .inl rfl
    | rearmedSameCell =>
      have hstrict := h (execFacts (.proved true)) rfl (by rw [hexec]; exact ⟨rfl, fun _ => rfl⟩)
      exact .inr ⟨not_bound_of_asStrict hstrict (by simp [execFacts]) rfl, .inl rfl⟩
    | emulated =>
      have hstrict := h (execFacts (.unknown "not observed")) rfl (by rw [hexec]; exact fun _ => rfl)
      refine .inr ⟨not_bound_of_asStrict hstrict (by simp [execFacts]) rfl, .inr fun hzero => ?_⟩
      cases (asStrict_iff.1 hstrict).1 hzero
  · rintro (hrefused | ⟨⟨hpreload, hthreads⟩, hwindow⟩) facts - hchecked
    · rw [hrefused] at hchecked
      exact hchecked.elim
    · refine asStrict_of_not_bound hpreload hthreads fun hzero => ?_
      rw [hwindow.resolve_right (not_not.2 hzero)] at hchecked
      exact hchecked.1

theorem readmitOnFork_strict_iff (plan : ExecutionPlan) :
    (∀ facts, facts.kind = .fork → plan.readmitOnFork facts = .ok plan → plan.AsStrict facts) ↔
      (¬ plan.usesPreload ∧ plan.cell.envelope.threads ≠ .singleThread) ∧
        plan.cell.window ≠ .zero := by
  simp only [readmitOnFork_ok_iff, true_and]
  constructor
  · intro h
    have hstrict := h forkFacts rfl ⟨fun _ => rfl, fun _ n hn => by cases hn⟩
    refine ⟨not_bound_of_asStrict hstrict (by simp [forkFacts]) rfl, fun hzero => ?_⟩
    cases (asStrict_iff.1 hstrict).1 hzero
  · rintro ⟨⟨hpreload, hthreads⟩, hwindow⟩ facts - -
    exact asStrict_of_not_bound hpreload hthreads fun hzero => absurd hzero hwindow

/-- **The cells whose re-admission is as strict as the handoff.**  A re-admission keeps the
    plan.  After an exec it is as strict, whatever the facts are, exactly for the cells that
    refuse every exec and for those that use no preload, have no bound on the threads, and
    re-arm the successor or claim no zero window; after a fork, exactly for those that use no
    preload, have no bound on the threads and claim no zero window. -/
theorem readmission_strict_iff (plan : ExecutionPlan) :
    (∀ facts plan', plan.readmitOnExec facts = .ok plan' ∨ plan.readmitOnFork facts = .ok plan' →
      plan' = plan) ∧
    ((∀ facts, facts.kind = .exec → plan.readmitOnExec facts = .ok plan → plan.AsStrict facts) ↔
      plan.cell.envelope.exec = .refused ∨
      (¬ plan.usesPreload ∧ plan.cell.envelope.threads ≠ .singleThread) ∧
        (plan.cell.envelope.exec = .rearmedSameCell ∨ plan.cell.window ≠ .zero)) ∧
    ((∀ facts, facts.kind = .fork → plan.readmitOnFork facts = .ok plan → plan.AsStrict facts) ↔
      (¬ plan.usesPreload ∧ plan.cell.envelope.threads ≠ .singleThread) ∧
        plan.cell.window ≠ .zero) := by
  refine ⟨?_, plan.readmitOnExec_strict_iff, plan.readmitOnFork_strict_iff⟩
  rintro facts plan' (h | h)
  · exact (readmitOnExec_ok_iff.1 h).1
  · exact (readmitOnFork_ok_iff.1 h).1

/-- A preload cell that re-arms its exec successors: admitted, and then re-admitted for a
    successor that is proved to run in secure-execution mode, without the preload.  And a
    registered preload cell is re-admitted for a fork child that is proved to. -/
theorem readmission_drops_preload :
    let cell : ImplementedCell := { preloadTrapCell with
      lifecycle := ⟨.refuses, .followed, .declaredWeaker, .followed, .declaredWeaker⟩
      envelope := { preloadTrapCell.envelope with exec := .rearmedSameCell } }
    let request : AdmissionRequest :=
      { requirements := .compute { ToolRequirements.default with
            window := .declared true
            lifecycle := ⟨false, true, false, false, false, .mustCover⟩ }
          ⟨false, false⟩ ⟨false, false, false, false, none, false, none⟩
        guest := .hostProcessDynamicPreloadable
        env := ⟨.proved true, .proved false, .proved ⟨0, 0, true, .proved⟩, .proved true, .proved true,
          .proved true, .proved .dualMapAllowed, .proved true, .proved ⟨true, true, false⟩,
          .proved ⟨true, false⟩⟩
        explicit := .auto }
    let succ : SuccessionFacts := ⟨.exec, .disproved, .proved true, .proved true, .unknown "not observed"⟩
    let child : SuccessionFacts := ⟨.fork, .proved true, .proved true, .proved true, .disproved⟩
    let plan : ExecutionPlan := ⟨cell, request.requirements⟩
    let registered : ExecutionPlan := ⟨preloadTrapCell, request.requirements⟩
    ((∃ report, admitOver request [cell] = .ok report ∧ fromReport report [cell] = some plan) ∧
      plan.readmitOnExec succ = .ok plan ∧ ¬ plan.AsStrict succ) ∧
    (∃ report, admitOver request [preloadTrapCell] = .ok report ∧
      fromReport report [preloadTrapCell] = some registered) ∧
      registered.readmitOnFork child = .ok registered ∧ ¬ registered.AsStrict child := by
  refine ⟨⟨⟨_, rfl, rfl⟩, rfl, ?_⟩, ⟨_, rfl, rfl⟩, rfl, ?_⟩
  · decide
  · decide

end ExecutionPlan

end Reverie.Selection
