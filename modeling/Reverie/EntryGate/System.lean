/-
  The handles of one registry, and what their owners do with them.

  An `Act` is one critical section on behalf of the owner of a handle.  A participant that an
  entry borrows is used only through the entry, and a closed token is not used while its
  operation runs.  An owner may use its entry in any order; `Orderly` says which order the
  assertions ask for.
-/
import Reverie.EntryGate.Gate

namespace Reverie.EntryGate

/-- A `Closing`, a `Closed`, or a `Closed` whose operation runs. -/
inductive Closer where
  | closing (id : ℕ)
  | closed (id : ℕ) (published : Bool)
  | publishing (id next : ℕ) (replaced : Range) (origin : EntryOrigin)
  deriving DecidableEq

/-- The registry and the handles of its callers. -/
structure System where
  state : State
  participants : Std.TreeMap ℕ Participant
  copies : List CopyAccess
  operands : Std.TreeMap ℕ RetainedOperand
  closers : List Closer
  /-- an assertion fired while the mutex was held -/
  poisoned : Bool

def System.new : System := ⟨State.new, ∅, [], ∅, [], false⟩

/-- The calls, each on a handle that its caller owns. -/
inductive Act where
  | register
  | updateOrigin (id : ℕ) (origin : EntryOrigin)
  | retireFromGuest (id : ℕ)
  | tryEnter (id : ℕ)
  | activate (id : ℕ) (host : HostThread)
  | withdraw (id : ℕ)
  | acknowledge (id : ℕ) (cleanup : Option Error)
  | dropEntry (id : ℕ)
  | dropParticipant (id : ℕ)
  | tryCopy (origin : EntryOrigin)
  | retireCopy (index : ℕ) (panicking : Bool)
  | retainOperand (index : ℕ) (range : Range) (origin : EntryOrigin)
  | dropOperand (id : ℕ) (panicking : Bool)
  | tryCloseQuiescent (members : ℕ)
  | tryClose (sends : List Send)
  | finishClosing (index : ℕ) (expired : Bool)
  | dropClosing (index : ℕ)
  | waitForOperands (index : ℕ) (range : Range)
  | publish (index : ℕ) (origin : EntryOrigin) (expected : ℕ) (replaced : Range)
  | finishPublish (index : ℕ) (operation : Operation)
  | dropClosed (index : ℕ) (panicking : Bool)
  | poison (origin : EntryOrigin) (error : Error)

/-- What a call gives its caller. -/
inductive Reply where
  | done
  | notAdmitted
  | registered
  | entered
  | activated
  | copying
  | retained
  | closing
  | closed
  | publishing
  | published
  deriving DecidableEq

/-- The section admitted an entry, a copy, an operand, a close or a publication. -/
def Reply.admits : Reply → Bool
  | .done | .notAdmitted => false
  | _ => true

/-- A call. -/
abbrev Api := EStateM Stop System

/-- A section under the mutex, `lock().unwrap()`. -/
def locked {α : Type} (x : Section α) : Api α := fun s =>
  if s.poisoned then .error (.panicked "called Result::unwrap() on an Err value: PoisonError") s
  else match x s.state with
    | .ok a state => .ok a { s with state := state }
    | .error e state => .error e { s with state := state, poisoned := e.panics }

/-- A participant that no entry borrows. -/
def freeParticipant (id : ℕ) : Api Participant := do
  let p ← Outcome.orElse (← get).participants[id]? .absent
  Outcome.refuse (p.entry ≠ none) .absent
  pure p

def borrowing (id : ℕ) : Api (Participant × Entry) := do
  let p ← Outcome.orElse (← get).participants[id]? .absent
  let e ← Outcome.orElse p.entry .absent
  pure (p, e)

def setParticipant (id : ℕ) (p : Participant) : Api Unit :=
  modify fun s => { s with participants := s.participants.insert id p }

def copyAt (index : ℕ) : Api CopyAccess := do
  Outcome.orElse (← get).copies[index]? .absent

def closerAt (index : ℕ) : Api Closer := do
  Outcome.orElse (← get).closers[index]? .absent

def setCloser (index : ℕ) (c : Closer) : Api Unit :=
  modify fun s => { s with closers := s.closers.set index c }

def eraseCloser (index : ℕ) : Api Unit :=
  modify fun s => { s with closers := s.closers.eraseIdx index }

/-! ## Acts -/

/-- One call, made with the handles that there are. -/
def call : Act → Api Reply
  | .register => do
    let p ← locked register
    setParticipant p.id p
    pure .registered
  | .updateOrigin id origin => do
    let p ← freeParticipant id
    Outcome.refuse (p.entryOutstanding = true)
      (.rejected "participant origin set while an entry is outstanding")
    setParticipant id { p with origin := origin }
    pure .done
  | .retireFromGuest id => do
    let p ← freeParticipant id
    let _last ← locked p.retireFromGuest
    pure .done
  | .tryEnter id => do
    let p ← freeParticipant id
    match ← locked p.tryEnter with
    | none => pure .notAdmitted
    | some e =>
      setParticipant id { p with entryOutstanding := true, entry := some e }
      pure .entered
  | .activate id host => do
    let (p, e) ← borrowing id
    if ← locked (p.activate e host) then
      setParticipant id { p with entry := some { e with stage := .active } }
      pure .activated
    else pure .notAdmitted
  | .withdraw id => do
    let (p, e) ← borrowing id
    let _kicks ← locked (p.withdraw e)
    setParticipant id { p with entry := some { e with stage := .withdrawn } }
    pure .done
  | .acknowledge id cleanup => do
    let (p, e) ← borrowing id
    setParticipant id { p with entryOutstanding := false, entry := none }
    locked (p.acknowledge e cleanup)
    pure .done
  | .dropEntry id => do
    let (p, e) ← borrowing id
    setParticipant id { p with entry := none }
    locked (p.dropEntry e)
    pure .done
  | .dropParticipant id => do
    let p ← freeParticipant id
    modify fun s => { s with participants := s.participants.erase id }
    locked p.drop
    pure .done
  | .tryCopy origin => do
    match ← locked (tryCopy origin) with
    | none => pure .notAdmitted
    | some copy =>
      modify fun s => { s with copies := copy :: s.copies }
      pure .copying
  | .retireCopy index panicking => do
    let copy ← copyAt index
    modify fun s => { s with copies := s.copies.eraseIdx index }
    locked (copy.retire panicking)
    pure .done
  | .retainOperand index range origin => do
    let copy ← copyAt index
    let operand ← locked (copy.retainOperand range origin)
    modify fun s => { s with operands := s.operands.insert operand.id operand }
    pure .retained
  | .dropOperand id panicking => do
    let operand ← Outcome.orElse (← get).operands[id]? .absent
    modify fun s => { s with operands := s.operands.erase id }
    locked (operand.drop panicking)
    pure .done
  | .tryCloseQuiescent members => do
    match ← locked (tryCloseQuiescent members) with
    | .error _live => pure .notAdmitted
    | .ok id =>
      modify fun s => { s with closers := .closed id false :: s.closers }
      pure .closed
  | .tryClose sends => do
    match ← locked (tryClose sends) with
    | .closing id =>
      modify fun s => { s with closers := .closing id :: s.closers }
      pure .closing
    | .notOpen => pure .notAdmitted
    | .sendFailed _error => pure .notAdmitted
  | .finishClosing index expired => do
    match ← closerAt index with
    | .closing id => match ← locked (finishRound id expired) with
      | .closed => do
        setCloser index (.closed id false)
        pure .closed
      | .waiting => pure .notAdmitted
      | .timedOut => do
        eraseCloser index
        pure .notAdmitted
    | _ => throw .absent
  | .dropClosing index => do
    match ← closerAt index with
    | .closing _id =>
      eraseCloser index
      let _failure ← locked dropClosing
      pure .done
    | _ => throw .absent
  | .waitForOperands index range => do
    match ← closerAt index with
    | .closed id _published =>
      let _outside ← locked (waitForOperands id range)
      pure .done
    | _ => throw .absent
  | .publish index origin expected replaced => do
    match ← closerAt index with
    | .closed id published =>
      let next ← locked (publish id published origin expected replaced)
      setCloser index (.publishing id next replaced origin)
      pure .publishing
    | _ => throw .absent
  | .finishPublish index operation => do
    match ← closerAt index with
    | .publishing id next _replaced origin =>
      setCloser index (.closed id false)
      locked (finishPublish id next origin operation)
      setCloser index (.closed id true)
      pure .published
    | _ => throw .absent
  | .dropClosed index panicking => do
    match ← closerAt index with
    | .closed id _published =>
      eraseCloser index
      locked (dropClosed id panicking)
      pure .done
    | _ => throw .absent
  | .poison origin error => do
    let _failure ← locked (poison origin error)
    pure .done

/-- The system after a section, whether it returned or stopped. -/
def System.step (s : System) (a : Act) : System :=
  match call a s with
  | .ok _ s' => s'
  | .error _ s' => s'

/-- The system after sections in any order. -/
def System.run (s : System) (acts : List Act) : System := acts.foldl System.step s

/-! ## The order that the assertions ask for -/

/-- What the owner has done with the entry of a participant, if there is one. -/
def System.stage (s : System) (id : ℕ) : Option Stage :=
  (s.participants[id]?.bind (·.entry)).map (·.stage)

/-- An entry is activated at most once, before it is withdrawn, withdrawn once, and then
    acknowledged. -/
def Act.Orderly (s : System) : Act → Prop
  | .activate id _ => s.stage id ≠ some .active ∧ s.stage id ≠ some .withdrawn
  | .withdraw id => s.stage id ≠ some .withdrawn
  | .acknowledge id _ => s.stage id ≠ some .entered ∧ s.stage id ≠ some .active
  | _ => True

/-- Every call is made in order. -/
def System.Orderly : System → List Act → Prop
  | _, [] => True
  | s, a :: rest => a.Orderly s ∧ (s.step a).Orderly rest

end Reverie.EntryGate
