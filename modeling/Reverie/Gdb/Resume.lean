/-
  Resuming threads for gdb's `vCont` (`session.rs`, `inferior.rs`).  What the guest does is a
  `World`: in which order the threads waited for answer, and with what.

  Left out: the interrupts of the wait, the registers and events that a stop carries, and
  the text of the reply.
-/
import Reverie.Lib.Outcome
import Reverie.Lib.Table
import Reverie.Gdb.Commands

namespace Reverie.Gdb

/-! ## Inferiors -/

/-- A thread and its process. -/
structure InferiorThreadId where
  tid : ℤ
  pid : ℤ

/-- What a thread is told to do. -/
structure ResumeInferior where
  action : ResumeAction
  detach : Bool

/-- A traced thread, as the session knows it. -/
structure Inferior where
  id : InferiorThreadId
  /-- there is none once detached, and it may be closed -/
  resumeTx : Option Bool
  stopRx : Bool
  resumePending : Bool

/-- How a task was made. -/
inductive ChildOp where
  | fork
  | vfork
  | clone

/-- What a thread reports. -/
inductive StopReason where
  | stopped (pid tgid : ℤ)
  | newTask (pid tgid child : ℤ) (op : ChildOp) (resumeTx : Option Bool) (stopRx : Bool)
  | exited (pid : ℤ)
  | threadExited (pid tgid : ℤ)

/-- A reason, and the reporter to tell once gdb has its reply. -/
structure StoppedInferior where
  reason : StopReason
  replied : Option ℕ

/-- Why a resume fails. -/
inductive ResumeError where
  | unknownThread (tid : ℤ)
  | threadIdNotSpecified
  | detached
  | gdbResumeError
  | gdbServerStopEventRecvError

def IdKind.intoRaw : IdKind → ℤ
  | .all => -1
  | .any => 0
  | .id pid => pid

def IdKind.matches : IdKind → IdKind → Bool
  | .all, _ => true
  | .any, _ => true
  | .id pid, .id pid' => pid = pid'
  | .id _, _ => true

def ThreadId.matches (self other : ThreadId) : Bool :=
  self.pid.matches other.pid && self.tid.matches other.tid

/-- `ThreadId::gettid`. -/
def ThreadId.thread (id : ThreadId) : Option ℤ :=
  if 0 < id.tid.intoRaw then some id.tid.intoRaw else none

def InferiorThreadId.threadId (id : InferiorThreadId) : ThreadId := .pidTid id.pid id.tid

/-! ## The session -/

/-- The session, with a record of its resumes. -/
structure Session where
  inferiors : Std.TreeMap ℤ Inferior
  current : Option InferiorThreadId
  /-- the thread whose stop gdb was last told about -/
  stopped : Option InferiorThreadId
  replied : List ℕ
  /-- the actions taken, in order -/
  examined : List (ResumeAction × ThreadId)
  /-- which threads were asked to resume, and how, in order -/
  asked : List (ℤ × ResumeInferior)
  /-- what was sent to which thread, in order -/
  sent : List (ℤ × ResumeInferior)

/-- A step of the session. -/
abbrev SessionM := EStateM ResumeError Session

/-- What the threads waited for answer, and in which order: `none` for a closed channel. -/
structure World where
  answers : List ℤ → List (ℤ × Option StoppedInferior)
  /-- in the wait for the other threads of a process that exited -/
  lateAnswers : List ℤ → List (ℤ × Option StoppedInferior)
  perm : ∀ waiting, ((answers waiting).map Prod.fst).Perm waiting
  latePerm : ∀ waiting, ((lateAnswers waiting).map Prod.fst).Perm waiting

def Session.withInferior (s : Session) (tid : ℤ) (inferior : Inferior) : Session :=
  { s with inferiors := s.inferiors.insert tid inferior }

/-- `Inferior::notify_resume`: nothing is sent where a resume is pending. -/
def notifyResume (resume : ResumeInferior) (tid : ℤ) : SessionM Unit := do
  modify fun s => { s with asked := s.asked ++ [(tid, resume)] }
  let s ← get
  match s.inferiors[tid]? with
  | none => pure ()
  | some inferior =>
    if inferior.resumePending then pure ()
    else match inferior.resumeTx with
      | none => throw .detached
      | some false => throw .gdbResumeError
      | some true =>
        set { s.withInferior tid { inferior with resumePending := true } with
          sent := s.sent ++ [(tid, resume)] }

/-- `Inferior::wait_for_stop`, which received `answer`. -/
def waitForStop (tid : ℤ) (answer : Option StoppedInferior) :
    SessionM (Except ResumeError StoppedInferior) := do
  let s ← get
  match s.inferiors[tid]? with
  | none => pure (.error .detached)
  | some inferior =>
    if !inferior.stopRx then pure (.error .detached)
    else match answer with
      | none => pure (.error .gdbServerStopEventRecvError)
      | some stopped =>
        set (s.withInferior tid { inferior with resumePending := false })
        pure (.ok stopped)

/-! ## Stops -/

/-- What the stops of a resume add up to. -/
structure StopCollector where
  reason : Option StopReason
  replied : Option ℕ
  newInferior : Option Inferior
  ptidToRemove : List ThreadId
  reporter : Option InferiorThreadId
  switchTo : Option InferiorThreadId

/-- `StopCollector::default`. -/
def StopCollector.new : StopCollector := ⟨none, none, none, [], none, none⟩

/-- Whether gdb is to be told, and what was collected. -/
def StopCollector.take (stops : StopCollector) (id : InferiorThreadId) :
    Except ResumeError StoppedInferior → Except ResumeError (Bool × StopCollector)
  | .error .gdbServerStopEventRecvError =>
    pure (false, { stops with ptidToRemove := stops.ptidToRemove ++ [id.threadId] })
  | .error error => throw error
  | .ok ⟨.threadExited pid tgid, _⟩ =>
    pure (false, { stops with ptidToRemove := stops.ptidToRemove ++ [.pidTid tgid pid] })
  | .ok ⟨.exited pid, replied⟩ =>
    pure (true, { stops with
      ptidToRemove := stops.ptidToRemove ++ [.process pid], reason := some (.exited pid), replied })
  | .ok ⟨.newTask pid tgid child op resumeTx stopRx, replied⟩ =>
    let id := match op with
      | .fork | .vfork => InferiorThreadId.mk child child
      | .clone => ⟨child, tgid⟩
    pure (true, { stops with
      reporter := some ⟨pid, tgid⟩, newInferior := some ⟨id, resumeTx, stopRx, false⟩,
      reason := some (.newTask pid tgid child op resumeTx stopRx), replied })
  | .ok ⟨.stopped pid tgid, replied⟩ =>
    pure (true, { stops with
      reporter := some ⟨pid, tgid⟩, switchTo := some ⟨pid, tgid⟩,
      reason := some (.stopped pid tgid), replied })

/-- The stops reported, until one that gdb is told about. -/
def collectStops : List (ℤ × Option StoppedInferior) → StopCollector → SessionM StopCollector
  | [], stops => pure stops
  | (tid, answer) :: rest, stops => do
    let s ← get
    let id := (s.inferiors[tid]?.map Inferior.id).getD ⟨tid, tid⟩
    let stop ← waitForStop tid answer
    match stops.take id stop with
    | .error error => throw error
    | .ok (told, stops) => if told then pure stops else collectStops rest stops

/-! ## Resuming -/

/-- A resume that ended in a stop. -/
structure VcontResumeResult where
  reason : StopReason
  newInferior : Option Inferior
  ptidToRemove : List ThreadId
  reporter : Option InferiorThreadId
  replied : Option ℕ
  switchTo : Option InferiorThreadId

/-- Whether an action was carried out. -/
inductive HandleVcontResume where
  | notHandled
  | handled (result : VcontResumeResult)

/-- The threads that an action means. -/
def Session.toResume (s : Session) (threadid : ThreadId) : Except ResumeError (List ℤ) :=
  match threadid.tid with
  | .id tid => if s.inferiors[tid]?.isSome then pure [tid] else throw (.unknownThread tid)
  | .any => throw .threadIdNotSpecified
  | .all =>
    match threadid.pid with
    | .id pid => pure (((Table.values s.inferiors).filter fun i => i.id.pid = pid).map (·.id.tid))
    | _ => throw .threadIdNotSpecified

/-- The threads of the inferiors that satisfy a condition. -/
def Session.threads (s : Session) (p : Inferior → Bool) : List ℤ :=
  (s.inferiors.toList.filter fun entry => p entry.2).map Prod.fst

/-- If every thread that was resumed exited without a stop, the stops of the others of their
    processes that an earlier resume left running. -/
def lateStops (world : World) (processes : List ℤ) (stops : StopCollector) :
    SessionM StopCollector := do
  if stops.reason.isNone then
    let s ← get
    collectStops (world.lateAnswers (s.threads fun i => i.resumePending ∧ i.id.pid ∈ processes)) stops
  else pure stops

/-- `vcont_resume_until_stop`. -/
def vcontResume (world : World) (threadid : ThreadId) (resume : ResumeInferior) :
    SessionM HandleVcontResume := do
  let s ← get
  match s.toResume threadid with
  | .error error => throw error
  | .ok [] => pure .notHandled
  | .ok toResume =>
    let processes := toResume.filterMap fun tid => s.inferiors[tid]?.map (·.id.pid)
    let waiting := s.threads fun i => i.id.tid ∈ toResume
    waiting.forM (notifyResume resume)
    let stops ← collectStops (world.answers waiting) .new
    let stops ← lateStops world processes stops
    match stops.reason with
    | none => throw .gdbServerStopEventRecvError
    | some reason =>
      pure (.handled ⟨reason, stops.newInferior, stops.ptidToRemove, stops.reporter, stops.replied,
        stops.switchTo⟩)

/-! ## The handler -/

/-- A thread that has gone, or a process with all of its threads. -/
def Session.remove (s : Session) (ptid : ThreadId) : Session :=
  match ptid.thread with
  | some tid => { s with inferiors := s.inferiors.erase tid }
  | none => { s with inferiors := s.inferiors.filter fun _ i => !i.id.threadId.matches ptid }

/-- The session after a stop. -/
def Session.settle (s : Session) (result : VcontResumeResult) : Session :=
  let s := { s with stopped := result.reporter, replied := s.replied ++ result.replied.toList }
  let s := result.ptidToRemove.foldl Session.remove s
  let s := match result.newInferior with
    | some inferior => s.withInferior inferior.id.tid inferior
    | none => s
  match result.switchTo with
  | some switchTo => { s with current := some switchTo }
  | none => s

/-- How the handler of a `vCont` ends. -/
inductive VContEnd where
  | replied (reason : StopReason)
  | error (error : ResumeError)
  /-- `Unsupported vCont command` -/
  | panicked
  /-- no action was left -/
  | silent

/-- The resume for an action, if it is supported. -/
def resumeOf : ResumeAction → Option ResumeInferior
  | .step signal => some ⟨.step signal, false⟩
  | .continue signal => some ⟨.continue signal, false⟩
  | .stop => none
  | .stepUntil _ _ => none

/-- The loop over a `vCont`'s actions, as far as `fuel` takes it; `none` if it goes on. -/
def handleVCont (world : World) : ℕ → List (ResumeAction × ThreadId) → Session →
    Option (VContEnd × Session)
  | 0, _, _ => none
  | fuel + 1, actions, s =>
    match actions.head? with
    | none => some (.silent, s)
    | some (action, threadid) =>
      let s := { s with examined := s.examined ++ [(action, threadid)] }
      match resumeOf action with
      | none => some (.panicked, s)
      | some resume =>
        match vcontResume world threadid resume s with
        | .error error s => some (.error error, s)
        | .ok .notHandled s => handleVCont world fuel actions s
        | .ok (.handled result) s => some (.replied result.reason, s.settle result)

end Reverie.Gdb
