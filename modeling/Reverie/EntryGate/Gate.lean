/-
  Admission and retirement for one guest address space (`entry.rs`).

  Every function is one critical section of the registry's mutex: it returns, or it stops,
  and what it wrote before that stays written.  An assertion that fires poisons the mutex.
  Wakeups are left out: a waiter repeats its section, and may do so at any time.
-/
import Reverie.Lib.Table
import Reverie.Lib.Outcome

namespace Reverie.EntryGate

/-! ## Failures -/

/-- What a failure records. -/
inductive Error where
  /-- `protocol_failure` -/
  | protocol (operation : String)
  /-- an error of the host or of a caller -/
  | external (source : ℕ)

/-- What a failure is attributed to. -/
structure EntryOrigin where
  failure : Option ℕ := none
  operation : Option ℕ := none
  deriving DecidableEq

/-- The failure of a gate, and the errors that followed it. -/
structure PendingFailure where
  origin : Option ℕ
  operation : Option ℕ
  primary : Error
  cleanup : List Error

/-- How a section stops. -/
inductive Stop where
  | failed (failure : PendingFailure)
  | panicked (assertion : String)
  /-- an argument was refused before the mutex was taken -/
  | rejected (assertion : String)
  /-- a panic of the caller's own operation goes on -/
  | unwound
  /-- the caller owns no such handle -/
  | absent

def Stop.panics : Stop → Bool
  | .panicked _ => true
  | _ => false

/-! ## The registry -/

/-- Whether entries and copies are admitted. -/
inductive Admission where
  | open
  | closing (id : ℕ)
  | closed (id : ℕ)
  deriving DecidableEq

/-- A thread of the host. -/
structure HostThread where
  process : ℕ
  thread : ℕ
  deriving DecidableEq

/-- What a member does. -/
inductive Activity where
  | stopped
  | setup
  | running (thread : HostThread)
  | retiring
  deriving DecidableEq

/-- A participant's shared record. -/
structure Member where
  run : ℕ
  generation : Option ℕ
  activity : Activity
  kicks : ℕ
  retired : Bool
  lastAtRetirement : Bool

/-- Guest addresses, without the end. -/
structure Range where
  start : ℕ
  stop : ℕ
  deriving DecidableEq

def rangesOverlap (first second : Range) : Bool :=
  first.start < first.stop && second.start < second.stop && first.start < second.stop &&
    second.start < first.stop

/-- What the registry's mutex protects. -/
structure State where
  admission : Admission
  generation : ℕ
  nextMember : ℕ
  nextClose : ℕ
  members : Std.TreeMap ℕ Member
  copies : ℕ
  retainedOperands : Std.TreeMap ℕ Range
  nextOperand : ℕ
  failure : Option PendingFailure

def State.new : State := ⟨.open, 0, 0, 0, ∅, 0, ∅, 0, none⟩

/-- `checked_add(1)` of a `u64` or of a `usize`. -/
def checkedNext (n : ℕ) : Option ℕ := if n + 1 < 2 ^ 64 then some (n + 1) else none

namespace State

def liveMembers (s : State) : ℕ := ((Table.values s.members).filter fun m => !m.retired).length

def stopped (s : State) : Bool :=
  s.copies = 0 && (Table.values s.members).all fun m => m.activity = .stopped

def overlappingOperand (s : State) (range : Range) : Option Range :=
  (Table.values s.retainedOperands).find? fun operand => rangesOverlap operand range

end State

/-! ## Sections -/

/-- A critical section. -/
abbrev Section := EStateM Stop State

def assert (c : Prop) [Decidable c] (assertion : String) : Section Unit :=
  Outcome.refuse (¬ c) (.panicked assertion)

def check : Section Unit := do
  match (← get).failure with
  | some failure => throw (.failed failure)
  | none => pure ()

/-- Records a failure, or adds an error to the one recorded. -/
def fail (origin : EntryOrigin) (error : Error) : Section PendingFailure := do
  let s ← get
  let failure : PendingFailure := match s.failure with
    | some failure => { failure with cleanup := failure.cleanup ++ [error] }
    | none => ⟨origin.failure, origin.operation, error, []⟩
  set { s with failure := some failure }
  pure failure

/-- Records a failure and stops with it. -/
def failWith {α : Type} (origin : EntryOrigin) (error : Error) : Section α := do
  let failure ← fail origin error
  throw (.failed failure)

def poison (origin : EntryOrigin) (error : Error) : Section PendingFailure := fail origin error

/-- Fails if the counter is exhausted. -/
def nextOr (n : ℕ) (origin : EntryOrigin) (operation : String) : Section ℕ :=
  match checkedNext n with
  | some next => pure next
  | none => failWith origin (.protocol operation)

def member (id : ℕ) : Section Member := do
  Outcome.orElse (← get).members[id]? (.panicked "called Option::unwrap() on a None value")

def setMember (id : ℕ) (m : Member) : Section Unit :=
  modify fun s => { s with members := s.members.insert id m }

/-! ## Participants -/

/-- What the owner of an entry has done with it. -/
inductive Stage where
  | entered
  | active
  | withdrawn
  deriving DecidableEq

/-- A participant's entry. -/
structure Entry where
  run : ℕ
  generation : ℕ
  /-- only recorded: no section reads it -/
  stage : Stage

/-- A participant, with the entry that borrows it, if one does. -/
structure Participant where
  id : ℕ
  origin : EntryOrigin
  entryOutstanding : Bool
  entry : Option Entry

def register : Section Participant := do
  check
  let id ← nextOr (← get).nextMember {} "participant identity exhausted"
  modify fun s => { s with nextMember := id }
  setMember id ⟨0, none, .stopped, 0, false, false⟩
  pure ⟨id, {}, false, none⟩

namespace Participant

variable (p : Participant)

def retireFromGuest : Section Bool := do
  Outcome.refuse (p.entryOutstanding = true)
    (.rejected "participant retired from the guest with an entry outstanding")
  let last := (← get).members.toList.all fun (id, m) => id = p.id || m.retired
  let m ← member p.id
  assert (m.activity = .stopped) "member.activity == Activity::Stopped"
  if m.retired then pure m.lastAtRetirement
  else
    setMember p.id { m with retired := true, lastAtRetirement := last }
    pure last

def tryEnter : Section (Option Entry) := do
  check
  if (← get).admission ≠ .open then pure none
  else
    let generation := (← get).generation
    let m ← member p.id
    assert (m.activity = .stopped) "member.activity == Activity::Stopped"
    if m.retired then
      failWith p.origin (.protocol "entry after the participant's thread retired")
    else
      let run ← nextOr m.run p.origin "entry identity exhausted"
      setMember p.id { m with run := run, activity := .setup }
      pure (some ⟨run, generation, .entered⟩)

/-- `Drop for Participant`. -/
def drop : Section Unit := do
  let m ← member p.id
  if m.activity = .stopped then modify fun s => { s with members := s.members.erase p.id }
  else
    setMember p.id { m with activity := .retiring }
    let _failure ← fail p.origin (.protocol "participant retired before entry cleanup")

variable (e : Entry)

def activate (host : HostThread) : Section Bool := do
  check
  let m ← member p.id
  assert (m.run = e.run) "member.run == self.run"
  assert (m.activity = .setup) "member.activity == Activity::Setup"
  assert ((← get).generation = e.generation) "state.generation == self.generation"
  if (← get).admission ≠ .open then pure false
  else
    setMember p.id { m with activity := .running host, generation := some e.generation }
    pure true

/-- `Entry::withdraw`: how many times a closer sent the reserved signal. -/
def withdraw : Section ℕ := do
  let m ← member p.id
  assert (m.run = e.run) "member.run == self.run"
  assert (m.activity ≠ .stopped ∧ m.activity ≠ .retiring) "Activity::Setup | Activity::Running(_)"
  setMember p.id { m with activity := .retiring, kicks := 0 }
  pure m.kicks

/-- `Entry::acknowledge`, of a cleanup that had an error or none. -/
def acknowledge (cleanup : Option Error) : Section Unit := do
  let m ← member p.id
  assert (m.run = e.run) "member.run == self.run"
  assert (m.activity = .retiring) "member.activity == Activity::Retiring"
  setMember p.id { m with activity := .stopped }
  match cleanup with
  | some error =>
    let _failure ← fail p.origin error
    check
  | none => check

/-- `Drop for Entry` of an entry that is not acknowledged. -/
def dropEntry : Section Unit := do
  let m ← member p.id
  assert (m.run = e.run) "member.run == self.run"
  setMember p.id { m with activity := .retiring }
  let _failure ← fail p.origin (.protocol "entry cleanup was abandoned")

end Participant

/-! ## Copies and retained operands -/

/-- An admitted copy.  Its `origin` is stored, or rebuilt by its issuer for a failure. -/
structure CopyAccess where
  origin : EntryOrigin
  generation : ℕ

/-- `try_copy`, and one round of `copy_blocking`. -/
def tryCopy (origin : EntryOrigin) : Section (Option CopyAccess) := do
  check
  if (← get).admission ≠ .open then pure none
  else
    let copies ← nextOr (← get).copies origin "copy accounting exhausted"
    modify fun s => { s with copies := copies }
    pure (some ⟨origin, (← get).generation⟩)

def CopyAccess.retire (copy : CopyAccess) (panicking : Bool) : Section Unit := do
  if panicking then
    let _failure ← fail copy.origin (.protocol "host copy unwound")
  assert ((← get).copies ≠ 0) "copy retired twice"
  modify fun s => { s with copies := s.copies - 1 }

/-- An operand that outlives its copy. -/
structure RetainedOperand where
  origin : EntryOrigin
  generation : ℕ
  id : ℕ
  range : Range

def CopyAccess.retainOperand (copy : CopyAccess) (range : Range) (origin : EntryOrigin) :
    Section RetainedOperand := do
  Outcome.refuse (range.stop < range.start) (.rejected "retained operand range is reversed")
  check
  assert ((← get).copies ≠ 0) "retained operand requires a live copy"
  assert ((← get).generation = copy.generation) "state.generation == copy.generation"
  let id ← nextOr (← get).nextOperand origin "retained host operand accounting exhausted"
  modify fun s =>
    { s with nextOperand := id, retainedOperands := s.retainedOperands.insert id range }
  pure ⟨origin, copy.generation, id, range⟩

/-- `Drop for RetainedOperand`. -/
def RetainedOperand.drop (operand : RetainedOperand) (panicking : Bool) : Section Unit := do
  if panicking then
    let _failure ← fail operand.origin (.protocol "retained host operand unwound")
  assert (operand.generation ≤ (← get).generation) "state.generation.0 >= self.generation.0"
  let range ← Outcome.orElse (← get).retainedOperands[operand.id]?
    (.panicked "retained host operand retired twice")
  modify fun s => { s with retainedOperands := s.retainedOperands.erase operand.id }
  assert (range = operand.range) "range == self.range"

/-! ## Closing -/

/-- `try_close_quiescent_counting`: the identity of the close, or the number of live
    members. -/
def tryCloseQuiescent (members : ℕ) : Section (Except ℕ ℕ) := do
  check
  let s ← get
  let live := s.liveMembers
  if s.admission ≠ .open ∨ live ≠ members ∨ s.stopped = false ∨ s.retainedOperands.isEmpty = false ∨
      checkedNext s.generation = none then pure (.error live)
  else match checkedNext s.nextClose with
    | none => pure (.error live)
    | some id =>
      set { s with nextClose := id, admission := .closed id }
      pure (.ok id)

/-- What became of a kick. -/
inductive Send where
  | sent
  | failed (error : ℕ)
  | unwound

/-- The kicks of the running members, until a send is not made. -/
def kick : List (ℕ × Member) → List Send → Std.TreeMap ℕ Member → Std.TreeMap ℕ Member × Send
  | [], _, members => (members, .sent)
  | (id, m) :: rest, sends, members =>
    match m.activity with
    | .running _ =>
      let counted := { m with kicks := min (m.kicks + 1) (2 ^ 64 - 1) }
      match sends.headD .sent with
      | .sent => kick rest sends.tail (members.insert id counted)
      | .failed error => (members.insert id { counted with kicks := counted.kicks - 1 }, .failed error)
      | .unwound => (members.insert id counted, .unwound)
    | _ => kick rest sends members

/-- What an attempt to close found. -/
inductive CloseAttempt where
  | closing (id : ℕ)
  | notOpen
  | sendFailed (error : ℕ)

/-- `try_close_with`. -/
def tryClose (sends : List Send) : Section CloseAttempt := do
  check
  if (← get).admission ≠ .open then pure .notOpen
  else
    let id ← nextOr (← get).nextClose {} "close identity exhausted"
    let s ← get
    let (members, result) := kick s.members.toList sends s.members
    set { s with nextClose := id, admission := .closing id, members := members }
    match result with
    | .sent => pure (.closing id)
    | .failed error =>
      modify fun s => { s with admission := .open }
      pure (.sendFailed error)
    | .unwound =>
      let _failure ← fail {} (.protocol "interrupt running vCPU unwound")
      throw .unwound

/-- How a round of `Closing::finish` or `Closing::finish_blocking` ends. -/
inductive Round where
  | closed
  | waiting
  | timedOut

/-- One round of `Closing::finish_blocking`, with the deadline reached or not, which before
    the deadline is also one of `Closing::finish`. -/
def finishRound (id : ℕ) (expired : Bool) : Section Round := do
  check
  assert ((← get).admission = .closing id) "state.admission == Admission::Closing(self.id)"
  if (← get).stopped then
    modify fun s => { s with admission := .closed id }
    pure .closed
  else if expired then
    modify fun s => { s with admission := .open }
    pure .timedOut
  else pure .waiting

/-- `Drop for Closing` of a close that is not complete. -/
def dropClosing : Section PendingFailure :=
  poison {} (.protocol "unfinished close was abandoned")

/-! ## Publication -/

/-- One round of `Closed::wait_for_operands_outside`. -/
def waitForOperands (id : ℕ) (range : Range) : Section Bool := do
  check
  assert ((← get).admission = .closed id) "state.admission == Admission::Closed(self.id)"
  pure ((← get).overlappingOperand range).isNone

/-- `Closed::publish` up to the operation: the generation it is to install. -/
def publish (id : ℕ) (published : Bool) (origin : EntryOrigin) (expected : ℕ) (replaced : Range) :
    Section ℕ := do
  check
  assert ((← get).admission = .closed id) "state.admission == Admission::Closed(self.id)"
  if (← get).generation ≠ expected then
    failWith origin (.protocol "staged mapping generation changed before publication")
  else if published then failWith origin (.protocol "mapping generation published twice")
  else if ((← get).overlappingOperand replaced).isSome then
    failWith origin (.protocol "mapping publication overlaps a retained host operand")
  else nextOr (← get).generation origin "mapping generation exhausted"

/-- What the operation returns: the generation of its receipt, an error, or an unwind. -/
inductive Operation where
  | installed (generation : ℕ)
  | failed (error : Error)
  | unwound

/-- `Closed::publish` after the operation. -/
def finishPublish (id next : ℕ) (origin : EntryOrigin) : Operation → Section Unit
  | .failed error => failWith origin error
  | .unwound => do
    let _failure ← poison origin (.protocol "mapping publication unwound")
    throw .unwound
  | .installed generation =>
    if generation ≠ next then
      failWith origin (.protocol "installed mapping receipt has the wrong generation")
    else do
      check
      assert ((← get).admission = .closed id) "state.admission == Admission::Closed(self.id)"
      assert (checkedNext (← get).generation = some next) "state.generation.next() == Some(next)"
      modify fun s => { s with generation := next }

/-- `Drop for Closed`. -/
def dropClosed (id : ℕ) (panicking : Bool) : Section Unit := do
  assert ((← get).admission = .closed id) "state.admission == Admission::Closed(self.id)"
  if panicking then
    let _failure ← fail {} (.protocol "closed operation unwound")
  modify fun s => { s with admission := .open }

end Reverie.EntryGate
