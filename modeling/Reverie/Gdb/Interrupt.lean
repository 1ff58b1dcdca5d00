/-
  gdb's interrupt (`gdbstub/interrupt.rs`): the session arms it, the packet relay raises it,
  and the first traced thread that can stop takes it, one action for each access
  (`takes_are_awaited`, `bytes_apply`).
-/
import Reverie.Lib.Rely

namespace Reverie.Gdb.Interrupt
open List Function

/-! ## The calls -/

/-- The values of `state`. -/
inductive State where
  /-- no resume is outstanding -/
  | idle
  /-- gdb waits for a stop -/
  | armed
  /-- gdb asked for a stop that no thread has taken -/
  | requested
  /-- a thread is stopped for the request -/
  | taken
  deriving DecidableEq

/-- The calls of the session (`arm` to `allow_in_place`), of the relay (`request`) and of the
    traced threads. -/
inductive Call where
  | arm (command : ℕ)
  | disarm
  | waitFor (tids : List ℕ)
  | allowInPlace
  | request (after : ℕ)
  | take (tid : ℕ)
  | release

/-- The shared state. -/
structure Inner where
  state : State := .idle
  armedCommand : ℕ := 0
  interruptedAfter : ℕ := 0
  inPlace : Bool := false
  waiting : List ℕ := []

/-- A `take` that returned true. -/
structure Stop where
  /-- the number of the request, in the order of raising -/
  request : ℕ
  tid : ℕ
  /-- the waiting set at that moment -/
  waiting : List ℕ
  deriving DecidableEq

/-- What the calls other than `take` have been. -/
structure Record where
  /-- the actor that is in one -/
  serving : Option ℕ := none
  /-- the session has armed, and not disarmed since -/
  waits : Bool := false
  /-- the command of the latest `arm` -/
  armedFor : ℕ := 0
  /-- one was not in order (`Call.orderly`) -/
  disorderly : Bool := false

/-- The shared state with a record of what happened, which no call reads. -/
structure World extends Inner where
  raised : ℕ := 0
  stops : List Stop := []
  /-- the thread that the `take` of an actor has seen in the waiting set -/
  looked : ℕ → Option ℕ := fun _ => none
  /-- a thread was taken off the set after its `take` had seen it there -/
  withdrawn : Prop := False
  record : Record := {}

/-- `transition`, in the `take` of an actor and its thread if it is one. -/
def transition (before after : State) (taker : Option (ℕ × ℕ)) : Prog World Bool :=
  .act fun w =>
    let looked := taker.elim w.looked fun taker => update w.looked taker.1 none
    if w.state = before then
      (true, { w with
        state := after
        raised := if after = .requested then w.raised + 1 else w.raised
        stops := (taker.map fun taker => ⟨w.raised, taker.2, w.waiting⟩).toList ++ w.stops
        looked })
    else (false, { w with looked })

def setWaiting (tids : List ℕ) : Prog World Unit :=
  .write fun w => { w with
    waiting := tids
    withdrawn := w.withdrawn ∨ ∃ i tid, w.looked i = some tid ∧ tid ∈ w.waiting ∧ tid ∉ tids }

/-- The look of actor `i` at the waiting set. -/
def look (i tid : ℕ) : Prog World Bool :=
  .act fun w =>
    if tid ∈ w.waiting then (true, { w with looked := update w.looked i (some tid) })
    else (false, w)

def armFrom (before : State) : Prog World Bool := do
  if ← transition before .armed none then
    let interruptedAfter ← .read (·.interruptedAfter)
    let armedCommand ← .read (·.armedCommand)
    if armedCommand ≤ interruptedAfter then
      let _ ← transition .armed .requested none
    return true
  else return false

def arm (command : ℕ) : Prog World Unit := do
  .write fun w => { w with inPlace := false }
  .write fun w => { w with armedCommand := command }
  let _ ← armFrom .idle

def disarm : Prog World Unit := do
  if ← transition .requested .idle none then
    setWaiting []
  else
    let _ ← transition .armed .idle none
    setWaiting []

def request (after : ℕ) : Prog World Bool := do
  .write fun w => { w with interruptedAfter := max w.interruptedAfter after }
  let armedCommand ← .read (·.armedCommand)
  if armedCommand ≤ after then transition .armed .requested none
  else return false

def allowInPlace : Prog World Unit := do
  if (← .read (·.state)) = .requested then
    .write fun w => { w with inPlace := true }

/-- `take`, by actor `i`. -/
def take (i tid : ℕ) : Prog World Bool := do
  if (← .read (·.state)) ≠ .requested then return false
  else if !(← look i tid) then return false
  else if ← transition .requested .taken (some (i, tid)) then
    let interruptedAfter ← .read (·.interruptedAfter)
    .write fun w => { w with armedCommand := max w.armedCommand (interruptedAfter + 1) }
    return true
  else return false

def Call.run (i : ℕ) : Call → Prog World Unit
  | arm command => Interrupt.arm command
  | disarm => Interrupt.disarm
  | waitFor tids => setWaiting tids
  | allowInPlace => Interrupt.allowInPlace
  | request after => do let _ ← Interrupt.request after
  | take tid => do let _ ← Interrupt.take i tid
  | release => do let _ ← armFrom .taken

/-- Whether the session waits after a call. -/
def Call.waits (before : Bool) : Call → Bool
  | arm _ => true
  | disarm => false
  | _ => before

/-- The session arms when no resume is armed or requested, and the thread that took a
    request is released while the session waits. -/
def Call.orderly (w : World) : Call → Bool
  | arm _ => w.state ≠ .armed ∧ w.state ≠ .requested
  | release => w.state = .taken → w.record.waits = true
  | _ => true

def World.enter (w : World) (i : ℕ) (call : Call) : World :=
  match call with
  | .take _ => w
  | _ => { w with
      record.serving := some i
      record.waits := call.waits w.record.waits
      record.armedFor := match call with
        | .arm command => command
        | _ => w.record.armedFor
      record.disorderly := w.record.disorderly || w.record.serving.isSome || !call.orderly w }

def World.leave (w : World) : Call → World
  | .take _ => w
  | _ => { w with record.serving := none }

/-- An actor that makes calls one after the other. -/
def client (i : ℕ) : List Call → Prog World Unit
  | [] => pure ()
  | call :: calls => do
    .write (·.enter i call)
    call.run i
    .write (·.leave call)
    client i calls

def clients (calls : ℕ → List Call) : Pool World ℕ := ⟨{}, fun i => client i (calls i)⟩

/-! ## One request, one awaited thread -/

/-- At most one `take` succeeds for each request. -/
def World.TakenOnce (w : World) : Prop :=
  (w.stops.map Stop.request).Nodup ∧ ∀ stop ∈ w.stops, stop.request ≤ w.raised

/-- A `take` succeeds only for a thread in the waiting set. -/
def World.TakesAwaited (w : World) : Prop := ∀ stop ∈ w.stops, stop.tid ∈ stop.waiting

/-- No actor takes a thread off the waiting set that the `take` of another one has seen there
    without a record of it. -/
def awaited : Promise World ℕ where
  sound w := w.TakenOnce ∧ (w.state = .requested → ∀ stop ∈ w.stops, stop.request ≠ w.raised) ∧
    (¬ w.withdrawn → w.TakesAwaited)
  change i w w' := (∀ j, j ≠ i → w'.looked j = w.looked j) ∧ (¬ w'.withdrawn → ¬ w.withdrawn ∧
    ∀ j tid, w.looked j = some tid → tid ∈ w.waiting → tid ∈ w'.waiting)
  refl _ _ := ⟨fun _ _ => rfl, fun h => ⟨h, fun _ _ _ => id⟩⟩

variable {i tid : ℕ} {w w' : World} {α : Type} {Q : α → awaited.Assertion → Prop}

def resting (i : ℕ) : awaited.Assertion := ⟨i, fun _ => True, fun _ _ _ _ _ _ _ => trivial⟩

/-- `take` has seen the thread in the waiting set. -/
def seen (i tid : ℕ) : awaited.Assertion where
  owner := i
  holds w := w.looked i = some tid ∧ (¬ w.withdrawn → tid ∈ w.waiting)
  stable j hj _ _ _ hchange h := by
    refine ⟨(hchange.1 i hj.symm).trans h.1, fun hnot => ?_⟩
    obtain ⟨hbefore, hkept⟩ := hchange.2 hnot
    exact hkept i tid h.1 (h.2 hbefore)

theorem change_of_eq (hlooked : ∀ j, j ≠ i → w'.looked j = w.looked j)
    (hwaiting : w'.waiting = w.waiting) (hwithdrawn : w'.withdrawn = w.withdrawn) :
    awaited.change i w w' :=
  ⟨hlooked, fun h => ⟨hwithdrawn ▸ h, fun _ _ _ hmem => hwaiting ▸ hmem⟩⟩

theorem rest_act {f : World → α × World}
    (h : ∀ w, awaited.sound w → awaited.sound (f w).2 ∧ awaited.change i w (f w).2)
    (hQ : ∀ a, Q a (resting i)) : Follows awaited.protocol (Prog.act f) (resting i) Q :=
  Promise.keep (fun w hw _ => ⟨(h w hw).1, (h w hw).2, trivial⟩) hQ

theorem rest_read {f : World → α} (hQ : ∀ a, Q a (resting i)) :
    Follows awaited.protocol (Prog.read f) (resting i) Q :=
  rest_act (fun w hw => ⟨hw, awaited.refl i w⟩) hQ

theorem rest_write {f : World → World} {Q : Unit → awaited.Assertion → Prop}
    (h : ∀ w, awaited.sound w → awaited.sound (f w)) (hlooked : ∀ w, (f w).looked = w.looked)
    (hwaiting : ∀ w, (f w).waiting = w.waiting) (hwithdrawn : ∀ w, (f w).withdrawn = w.withdrawn)
    (hQ : Q () (resting i)) : Follows awaited.protocol (Prog.write f) (resting i) Q :=
  rest_act (fun w hw => ⟨h w hw, change_of_eq (fun j _ => by rw [hlooked]) (hwaiting w) (hwithdrawn w)⟩)
    fun _ => hQ

theorem rest_transition {before after : State} {Q : Bool → awaited.Assertion → Prop}
    (hQ : ∀ b, Q b (resting i)) :
    Follows awaited.protocol (transition before after none) (resting i) Q := by
  refine rest_act (fun w hw => ?_) hQ
  by_cases hstate : w.state = before
  · rw [if_pos hstate]
    obtain ⟨⟨hnodup, hle⟩, hnew, hawaited⟩ := hw
    refine ⟨⟨⟨hnodup, fun stop hmem => ?_⟩, fun hreq stop hmem => ?_, hawaited⟩,
      change_of_eq (fun _ _ => rfl) rfl rfl⟩
    · have hbound := hle stop hmem
      dsimp only
      split_ifs
      · omega
      · exact hbound
    · -- a request that is raised has a new number
      have hbound := hle stop hmem
      dsimp only at hreq ⊢
      rw [if_pos hreq]
      omega
  · rw [if_neg hstate]
    exact ⟨hw, awaited.refl i w⟩

theorem rest_setWaiting {tids : List ℕ} {Q : Unit → awaited.Assertion → Prop}
    (hQ : Q () (resting i)) : Follows awaited.protocol (setWaiting tids) (resting i) Q := by
  refine rest_act (fun w hw => ⟨⟨hw.1, hw.2.1, fun h => hw.2.2 (not_or.1 h).1⟩, fun _ _ => rfl,
    fun h => ?_⟩) fun _ => hQ
  obtain ⟨hnot, hkept⟩ := not_or.1 h
  refine ⟨hnot, fun j tid hlooked hmem => ?_⟩
  by_contra hgone
  exact hkept ⟨j, tid, hlooked, hmem, hgone⟩

theorem armFrom_awaited {before : State} {Q : Bool → awaited.Assertion → Prop}
    (hQ : ∀ b, Q b (resting i)) : Follows awaited.protocol (armFrom before) (resting i) Q := by
  refine Follows.bind (rest_transition fun armed => ?_)
  cases armed with
  | false => exact hQ false
  | true =>
    refine Follows.bind (rest_read fun interruptedAfter =>
      Follows.bind (rest_read fun armedCommand => ?_))
    split_ifs
    · exact Follows.bind (rest_transition fun _ => hQ true)
    · exact hQ true

theorem take_awaited {Q : Bool → awaited.Assertion → Prop} (hQ : ∀ b, Q b (resting i)) :
    Follows awaited.protocol (take i tid) (resting i) Q := by
  refine Follows.bind (rest_read fun state => ?_)
  split_ifs with hrequested
  · exact hQ false
  refine Promise.act fun w hw _ => ?_
  by_cases hmem : tid ∈ w.waiting
  swap
  · rw [if_neg hmem]
    exact ⟨hw, awaited.refl _ w, resting i, rfl, trivial, hQ false⟩
  rw [if_pos hmem]
  refine ⟨hw, change_of_eq (fun j hj => update_of_ne hj _ _) rfl rfl, seen i tid, rfl,
    ⟨update_self .., fun _ => hmem⟩, ?_⟩
  refine Promise.act fun w hw hseen => ?_
  have hchange {w' : World} (hl : w'.looked = update w.looked i none) (hs : w'.waiting = w.waiting)
      (hd : w'.withdrawn = w.withdrawn) : awaited.change i w w' :=
    change_of_eq (fun j hj => by rw [hl, update_of_ne hj]) hs hd
  by_cases hstate : w.state = .requested
  · rw [if_pos hstate]
    obtain ⟨⟨hnodup, hle⟩, hnew, hawaited⟩ := hw
    refine ⟨⟨⟨?_, ?_⟩, by rintro ⟨⟩, fun hnot => ?_⟩, hchange rfl rfl rfl, resting i, rfl, trivial, ?_⟩
    · refine nodup_cons.2 ⟨fun hmem => ?_, hnodup⟩
      obtain ⟨stop, hstop, heq⟩ := mem_map.1 hmem
      exact hnew hstate stop hstop heq
    · exact forall_mem_cons.2 ⟨Nat.le_refl _, hle⟩
    · exact forall_mem_cons.2 ⟨hseen.2 hnot, hawaited hnot⟩
    · refine Follows.bind (rest_read fun interruptedAfter => Follows.bind ?_)
      exact rest_write (fun _ => id) (fun _ => rfl) (fun _ => rfl) (fun _ => rfl) (hQ true)
  · rw [if_neg hstate]
    exact ⟨hw, hchange rfl rfl rfl, resting i, rfl, trivial, hQ false⟩

theorem Call.run_awaited (call : Call) {Q : Unit → awaited.Assertion → Prop} (hQ : Q () (resting i)) :
    Follows awaited.protocol (call.run i) (resting i) Q := by
  cases call with
  | arm command =>
    refine Follows.bind (rest_write (fun _ => id) (fun _ => rfl) (fun _ => rfl) (fun _ => rfl) ?_)
    refine Follows.bind (rest_write (fun _ => id) (fun _ => rfl) (fun _ => rfl) (fun _ => rfl) ?_)
    exact Follows.bind (armFrom_awaited fun _ => hQ)
  | disarm =>
    refine Follows.bind (rest_transition fun dropped => ?_)
    cases dropped with
    | true => exact rest_setWaiting hQ
    | false => exact Follows.bind (rest_transition fun _ => rest_setWaiting hQ)
  | waitFor tids => exact rest_setWaiting hQ
  | allowInPlace =>
    refine Follows.bind (rest_read fun state => ?_)
    split_ifs
    · exact rest_write (fun _ => id) (fun _ => rfl) (fun _ => rfl) (fun _ => rfl) hQ
    · exact hQ
  | request after =>
    refine Follows.bind (Follows.bind
      (rest_write (fun _ => id) (fun _ => rfl) (fun _ => rfl) (fun _ => rfl) ?_))
    refine Follows.bind (rest_read fun armedCommand => ?_)
    split_ifs
    · exact rest_transition fun _ => hQ
    · exact hQ
  | take tid => exact Follows.bind (take_awaited fun _ => hQ)
  | release => exact Follows.bind (armFrom_awaited fun _ => hQ)

theorem client_awaited (calls : List Call) :
    Follows awaited.protocol (client i calls) (resting i) fun _ _ => True := by
  induction calls with
  | nil => trivial
  | cons call calls ih =>
    refine Follows.bind (rest_write ?_ ?_ ?_ ?_ (Follows.bind (call.run_awaited
      (Follows.bind (rest_write ?_ ?_ ?_ ?_ ih)))))
    all_goals
      intro w
      cases call <;> first | rfl | exact id

/-- **One interrupt stops one awaited thread**, unless the session withdraws the thread
    between the checks of its `take` and the exchange. -/
theorem takes_are_awaited (calls : ℕ → List Call) (schedule : List ℕ) :
    let w := ((clients calls).run schedule).state
    w.TakenOnce ∧ (¬ w.withdrawn → w.TakesAwaited) := by
  have hstart : awaited.sound (clients calls).state :=
    ⟨⟨nodup_nil, fun _ h => absurd h not_mem_nil⟩, by rintro ⟨⟩, fun _ _ h => absurd h not_mem_nil⟩
  have hsound := Promise.run resting (fun _ => rfl) hstart (fun _ => trivial)
    (fun i => client_awaited (calls i)) schedule
  exact ⟨hsound.1, hsound.2.2⟩

/-- The session and the relay are one actor: their calls exclude each other. -/
def withdrawnCalls : ℕ → List Call
  | 0 => [.arm 1, .waitFor [7], .request 1, .disarm, .arm 2, .waitFor [8], .request 2]
  | 1 => [.take 7]
  | _ => []

theorem takes_are_awaited_once :
    let w := ((clients withdrawnCalls).run (.replicate 15 0 ++ .replicate 7 1)).state
    w.TakesAwaited ∧ w.stops = [⟨1, 7, [7]⟩] := by
  refine ⟨(takes_are_awaited _ _).2 ?_, by decide +kernel⟩
  rintro (h | ⟨i, tid, -, hmem, -⟩)
  · exact h
  · exact absurd hmem not_mem_nil

/-- Between the checks of a `take` and its exchange, the session reports another stop, resumes
    the guest and waits for thread 8, and gdb interrupts it again: thread 7 takes the
    request that only thread 8 may take. -/
theorem withdrawn_thread_takes :
    ((clients withdrawnCalls).run
        (.replicate 15 0 ++ .replicate 3 1 ++ .replicate 19 0 ++ [1])).state.stops = [⟨2, 7, [8]⟩] := by
  decide +kernel

/-! ## Bytes -/

/-- A pending request has a byte that was sent after the command of the resume. -/
def World.Fresh (w : World) : Prop := w.state = .requested → w.record.armedFor ≤ w.interruptedAfter

/-- No byte is lost: when no call but a `take` is in progress and the interrupt is armed,
    every byte was sent before the armed command.  None is stale. -/
structure World.BytesApply (w : World) : Prop where
  kept : w.record.serving = none → w.state = .armed → w.interruptedAfter < w.armedCommand
  fresh : w.Fresh

/-- What a `take` may change. -/
structure World.Taken (w w' : World) : Prop where
  state : w'.state = w.state ∨ w.state = .requested ∧ w'.state = .taken
  armedCommand : w.armedCommand ≤ w'.armedCommand
  interruptedAfter : w'.interruptedAfter = w.interruptedAfter
  record : w'.record = w.record

theorem World.Taken.quiet {inPlace : Bool} {waiting : List ℕ} {raised : ℕ} {stops : List Stop}
    {looked : ℕ → Option ℕ} {withdrawn : Prop} :
    w.Taken { w with inPlace, waiting, raised, stops, looked, withdrawn } :=
  ⟨.inl rfl, Nat.le_refl _, rfl, rfl⟩

theorem World.Taken.fresh (h : w.Taken w') (hw : w.Fresh) : w'.Fresh := by
  intro hreq
  rw [h.record, h.interruptedAfter]
  rcases h.state with heq | ⟨-, heq⟩
  · exact hw (heq ▸ hreq)
  · rw [heq] at hreq
    cases hreq

/-- Where an actor is in its call. -/
inductive Stage where
  /-- the session does not wait -/
  | closed
  /-- it does not wait, and no thread is to be released -/
  | idle
  /-- it begins to wait for a command -/
  | arming (command : ℕ)
  /-- it waits, and every byte has been applied -/
  | opened
  /-- `arm_from` has armed -/
  | armed
  /-- the armed command is to be compared with the command before a byte -/
  | compares (after : ℕ)
  /-- the byte applies to the resume -/
  | applies
  /-- `disarm` has found no request -/
  | dropped

/-- What a call in progress relies on. -/
def Stage.Holds (w : World) : Stage → Prop
  | closed => w.state ≠ .armed ∧ w.state ≠ .requested
  | idle => w.state = .idle
  | arming command => w.state ≠ .armed ∧ w.state ≠ .requested ∧ w.record.armedFor = command
  | opened =>
    w.record.armedFor ≤ w.armedCommand ∧ (w.state = .armed → w.interruptedAfter < w.armedCommand)
  | armed => w.record.armedFor ≤ w.armedCommand
  | compares n => w.record.armedFor ≤ w.armedCommand ∧ n ≤ w.interruptedAfter ∧
    (n < w.interruptedAfter → w.state = .armed → w.interruptedAfter < w.armedCommand)
  | applies => w.record.armedFor ≤ w.armedCommand ∧ w.record.armedFor ≤ w.interruptedAfter
  | dropped => w.state ≠ .requested

def Stage.between (waits : Bool) : Stage := if waits then opened else closed

/-- In order, the actor that is in a call other than `take` is changed only by takes. -/
def bytes : Promise World ℕ where
  sound w := w.record.disorderly = false →
    (w.record.serving = none → (Stage.between w.record.waits).Holds w) ∧ w.Fresh
  change i w w' := w'.record.disorderly = false → w.record.disorderly = false ∧
    ∀ j, j ≠ i → w.record.serving = some j → w.Taken w'
  refl _ _ h := ⟨h, fun _ _ _ => .quiet⟩

theorem Stage.Holds.taken {stage : Stage} (h : stage.Holds w) (ht : w.Taken w') : stage.Holds w' := by
  obtain ⟨hstate, hle, hafter, hrecord⟩ := ht
  have hkeep : ∀ {s : State}, s ≠ .taken → w'.state = s → w.state = s := by
    rintro s hs rfl
    rcases hstate with heq | ⟨-, heq⟩
    · exact heq.symm
    · exact absurd heq hs
  have harmed : w'.state = .armed → w.state = .armed := hkeep (by rintro ⟨⟩)
  have hrequested : w'.state = .requested → w.state = .requested := hkeep (by rintro ⟨⟩)
  cases stage with
  | closed => exact ⟨mt harmed h.1, mt hrequested h.2⟩
  | idle =>
    rcases hstate with heq | ⟨heq, -⟩
    · exact heq.trans h
    · rw [Holds, heq] at h
      cases h
  | arming command => exact ⟨mt harmed h.1, mt hrequested h.2.1, hrecord ▸ h.2.2⟩
  | opened =>
    rw [Holds, hrecord, hafter]
    exact ⟨Nat.le_trans h.1 hle, fun hs => Nat.lt_of_lt_of_le (h.2 (harmed hs)) hle⟩
  | armed =>
    rw [Holds, hrecord]
    exact Nat.le_trans h hle
  | compares n =>
    rw [Holds, hrecord, hafter]
    exact ⟨Nat.le_trans h.1 hle, h.2.1, fun hn hs => Nat.lt_of_lt_of_le (h.2.2 hn (harmed hs)) hle⟩
  | applies =>
    rw [Holds, hrecord, hafter]
    exact ⟨Nat.le_trans h.1 hle, h.2⟩
  | dropped => exact mt hrequested h

theorem Stage.closed_of_idle (h : idle.Holds w) : closed.Holds w := by
  rw [Holds] at h
  rw [Holds, h]
  exact ⟨by rintro ⟨⟩, by rintro ⟨⟩⟩

variable {waits : Bool}

/-- Actor `i` is in a call other than `take`, after which the session waits or not. -/
def during (i : ℕ) (waits : Bool) (stage : Stage) : bytes.Assertion where
  owner := i
  holds w := w.record.disorderly = false →
    w.record.serving = some i ∧ w.record.waits = waits ∧ stage.Holds w
  stable j hj _ _ _ hchange h hordered := by
    obtain ⟨hbefore, htaken⟩ := hchange hordered
    obtain ⟨hserving, hwaits, hstage⟩ := h hbefore
    have ht := htaken i hj.symm hserving
    rw [ht.record]
    exact ⟨hserving, hwaits, hstage.taken ht⟩

theorem during_act {stage : Stage} {f : World → α × World} {Q : α → bytes.Assertion → Prop}
    (h : ∀ w, (f w).2.record = w.record ∧ ∃ stage' : Stage,
      (w.Fresh → stage.Holds w → (f w).2.Fresh ∧ stage'.Holds (f w).2) ∧
        Q (f w).1 (during i waits stage')) :
    Follows bytes.protocol (Prog.act f) (during i waits stage) Q := by
  show Follows bytes.protocol (Prog.act f >>= pure) (during i waits stage) Q
  refine Promise.act fun w hw hl => ?_
  obtain ⟨hrecord, stage', hstage, hQ⟩ := h w
  refine ⟨fun hordered => ?_, fun hordered => ?_, during i waits stage', rfl, fun hordered => ?_, hQ⟩
  all_goals
    rw [hrecord] at hordered
    obtain ⟨hserving, hwaits, hholds⟩ := hl hordered
    obtain ⟨hfresh, hholds'⟩ := hstage (hw hordered).2 hholds
  · refine ⟨fun hnone => ?_, hfresh⟩
    rw [hrecord, hserving] at hnone
    cases hnone
  · refine ⟨hordered, fun j hj hother => ?_⟩
    exact absurd (Option.some.inj (hother.symm.trans hserving)) hj
  · rw [hrecord]
    exact ⟨hserving, hwaits, hholds'⟩

theorem during_write {stage : Stage} (stage' : Stage) {f : World → World}
    {Q : Unit → bytes.Assertion → Prop}
    (hrecord : ∀ w, (f w).record = w.record)
    (h : ∀ w, w.Fresh → stage.Holds w → (f w).Fresh ∧ stage'.Holds (f w))
    (hQ : Q () (during i waits stage')) :
    Follows bytes.protocol (Prog.write f) (during i waits stage) Q :=
  during_act fun w => ⟨hrecord w, stage', h w, hQ⟩

theorem during_read {stage : Stage} {f : World → α} {Q : α → bytes.Assertion → Prop}
    (h : ∀ w, ∃ stage' : Stage, (stage.Holds w → stage'.Holds w) ∧ Q (f w) (during i waits stage')) :
    Follows bytes.protocol (Prog.read f) (during i waits stage) Q := by
  refine during_act fun w => ?_
  obtain ⟨stage', hstage, hQ⟩ := h w
  exact ⟨rfl, stage', fun hfresh hholds => ⟨hfresh, hstage hholds⟩, hQ⟩

/-- A `transition` leads to one stage if it is made, and to another if it is not. -/
theorem during_transition {stage : Stage} (made not : Stage) {before after : State}
    {Q : Bool → bytes.Assertion → Prop}
    (hafter : after = .requested → ∀ w, stage.Holds w → w.state = before →
      w.record.armedFor ≤ w.interruptedAfter)
    (hmade : ∀ w w' : World, stage.Holds w → w.state = before → w'.state = after →
      w'.record = w.record → w'.armedCommand = w.armedCommand → made.Holds w')
    (hnot : ∀ w, stage.Holds w → w.state ≠ before → not.Holds w)
    (htrue : Q true (during i waits made)) (hfalse : Q false (during i waits not)) :
    Follows bytes.protocol (transition before after none) (during i waits stage) Q := by
  refine during_act fun w => ?_
  by_cases hstate : w.state = before
  · rw [if_pos hstate]
    exact ⟨rfl, made, fun _ hl => ⟨fun hreq => hafter hreq w hl hstate,
      hmade w _ hl hstate rfl rfl rfl⟩, htrue⟩
  · rw [if_neg hstate]
    exact ⟨rfl, not, fun hw hl => ⟨hw, hnot w hl hstate⟩, hfalse⟩

theorem raise_bytes {Q : Bool → bytes.Assertion → Prop} (hQ : ∀ b, Q b (during i waits .opened)) :
    Follows bytes.protocol (transition .armed .requested none) (during i waits .applies) Q := by
  refine during_transition .opened .opened (fun _ w h _ => h.2) (fun w w' h _ hs hrecord hcmd => ?_)
    (fun w h hs => ⟨h.1, fun harmed => absurd harmed hs⟩) (hQ true) (hQ false)
  rw [Stage.Holds, hrecord, hcmd, hs]
  exact ⟨h.1, by rintro ⟨⟩⟩

theorem raise_closed {Q : Bool → bytes.Assertion → Prop} (hQ : ∀ b, Q b (during i waits .closed)) :
    Follows bytes.protocol (transition .armed .requested none) (during i waits .closed) Q :=
  during_transition .closed .closed (fun _ _ h hs => absurd hs h.1) (fun _ _ h hs => absurd hs h.1)
    (fun _ h _ => h) (hQ true) (hQ false)

/-- The comparison of the armed command with the command before a byte. -/
theorem compare_bytes {n : ℕ} {Q : ℕ → bytes.Assertion → Prop}
    (hle : ∀ c, c ≤ n → Q c (during i waits .applies))
    (hlt : ∀ c, ¬ c ≤ n → Q c (during i waits .opened)) :
    Follows bytes.protocol (Prog.read (·.armedCommand)) (during i waits (.compares n)) Q := by
  refine during_read fun w => ?_
  by_cases hc : w.armedCommand ≤ n
  · exact ⟨.applies, fun h => ⟨h.1, Nat.le_trans h.1 (Nat.le_trans hc h.2.1)⟩, hle _ hc⟩
  · refine ⟨.opened, fun ⟨hfor, hn, hless⟩ => ⟨hfor, fun harmed => ?_⟩, hlt _ hc⟩
    by_cases heq : n < w.interruptedAfter
    · exact hless heq harmed
    · omega

theorem armFrom_bytes {before : State} {Q : Bool → bytes.Assertion → Prop}
    (hQ : ∀ b, Q b (during i waits .opened)) :
    Follows bytes.protocol (armFrom before) (during i waits .opened) Q := by
  refine Follows.bind (during_transition .armed .opened (by rintro ⟨⟩)
    (fun w w' h _ _ hrecord hcmd => ?_) (fun w h _ => h) ?_ (hQ false))
  · rw [Stage.Holds, hrecord, hcmd]
    exact h.1
  refine Follows.bind (during_read fun w => ⟨.compares w.interruptedAfter, fun h => ?_, ?_⟩)
  · exact ⟨h, Nat.le_refl _, fun hlt => absurd hlt (Nat.lt_irrefl _)⟩
  · refine Follows.bind (compare_bytes (fun c hc => ?_) fun c hc => ?_)
    · rw [if_pos hc]
      exact Follows.bind (raise_bytes fun _ => hQ true)
    · rw [if_neg hc]
      exact hQ true

/-- There is nothing to release. -/
theorem release_idle {Q : Bool → bytes.Assertion → Prop} (hQ : ∀ b, Q b (during i waits .closed)) :
    Follows bytes.protocol (armFrom .taken) (during i waits .idle) Q := by
  refine Follows.bind (during_transition .closed .closed (by rintro ⟨⟩) (fun w _ h hs => ?_)
    (fun w h _ => Stage.closed_of_idle h) ?_ (hQ false))
  · rw [Stage.Holds, hs] at h
    cases h
  refine Follows.bind (during_read fun w => ⟨.closed, id, Follows.bind (during_read fun w' => ?_)⟩)
  refine ⟨.closed, id, ?_⟩
  split_ifs
  · exact Follows.bind (raise_closed fun _ => hQ true)
  · exact hQ true

theorem request_bytes {after : ℕ} {Q : Bool → bytes.Assertion → Prop}
    (hQ : ∀ b, Q b (during i waits (.between waits))) :
    Follows bytes.protocol (request after) (during i waits (.between waits)) Q := by
  cases waits with
  | true =>
    refine Follows.bind (during_write (.compares after) (fun _ => rfl) (fun w hw h => ⟨fun hs => ?_, ?_⟩)
      (Follows.bind (compare_bytes (fun c hc => ?_) fun c hc => ?_)))
    · exact Nat.le_trans (hw hs) (Nat.le_max_left ..)
    · refine ⟨h.1, Nat.le_max_right w.interruptedAfter after, fun hlt harmed => ?_⟩
      show max w.interruptedAfter after < w.armedCommand
      have hold := h.2 harmed
      change after < max w.interruptedAfter after at hlt
      omega
    · rw [if_pos hc]
      exact raise_bytes hQ
    · rw [if_neg hc]
      exact hQ false
  | false =>
    refine Follows.bind (during_write .closed (fun _ => rfl)
      (fun w hw h => ⟨fun hs => absurd hs h.2, h⟩) ?_)
    refine Follows.bind (during_read fun w => ⟨.closed, id, ?_⟩)
    split_ifs
    · exact raise_closed hQ
    · exact hQ false

theorem disarm_bytes {stage : Stage} {Q : Unit → bytes.Assertion → Prop}
    (hQ : Q () (during i waits .closed)) :
    Follows bytes.protocol disarm (during i waits stage) Q := by
  have hset : Follows bytes.protocol (setWaiting []) (during i waits .closed) Q :=
    during_write .closed (fun _ => rfl) (fun w hw h => ⟨hw, h⟩) hQ
  refine Follows.bind (during_transition .closed .dropped (by rintro ⟨⟩)
    (fun _ w' _ _ hs _ _ => Stage.closed_of_idle hs) (fun w _ hs => hs) hset ?_)
  exact Follows.bind (during_transition .closed .closed (by rintro ⟨⟩)
    (fun _ w' _ _ hs _ _ => Stage.closed_of_idle hs) (fun w h hs => ⟨hs, h⟩) hset hset)

/-- Where an actor is when it has entered a call. -/
def Stage.entered (waits : Bool) : Call → Stage
  | .arm command => .arming command
  | .release => if waits then opened else idle
  | _ => .between waits

theorem Call.run_bytes {before : Bool} {call : Call} (hcall : ∀ tid, call ≠ .take tid)
    {Q : Unit → bytes.Assertion → Prop}
    (hQ : Q () (during i (call.waits before) (.between (call.waits before)))) :
    Follows bytes.protocol (call.run i) (during i (call.waits before) (.entered before call)) Q := by
  have hquiet {stage : Stage} {f : World → World} {Q : Unit → bytes.Assertion → Prop}
      (hQ : Q () (during i before stage)) (htaken : ∀ w, w.Taken (f w)) :
      Follows bytes.protocol (Prog.write f) (during i before stage) Q :=
    during_write stage (fun w => (htaken w).record)
      (fun w hw h => ⟨(htaken w).fresh hw, h.taken (htaken w)⟩) hQ
  cases call with
  | arm command =>
    refine Follows.bind (during_write (.arming command) (fun _ => rfl) (fun w hw h => ⟨hw, h⟩) ?_)
    refine Follows.bind (during_write .opened (fun _ => rfl) (fun w hw h => ⟨hw, ?_⟩)
      (Follows.bind (armFrom_bytes fun _ => hQ)))
    exact ⟨Nat.le_of_eq h.2.2, fun harmed => absurd harmed h.1⟩
  | disarm => exact disarm_bytes hQ
  | waitFor tids => exact hquiet hQ fun _ => .quiet
  | allowInPlace =>
    refine Follows.bind (during_read fun w => ⟨_, id, ?_⟩)
    split_ifs
    · exact hquiet hQ fun _ => .quiet
    · exact hQ
  | request after => exact Follows.bind (request_bytes fun _ => hQ)
  | take tid => exact absurd rfl (hcall tid)
  | release =>
    refine Follows.bind ?_
    cases before with
    | true => exact armFrom_bytes fun _ => hQ
    | false => exact release_idle fun _ => hQ

theorem Stage.Holds.recorded {stage : Stage} {r : Record} (h : stage.Holds w)
    (hr : r.armedFor = w.record.armedFor) : stage.Holds { w with record := r } := by
  cases stage <;> simpa only [Holds, hr] using h

/-- A call in order begins where it is to. -/
theorem Stage.entered_holds {call : Call} (hcall : ∀ tid, call ≠ .take tid) (hw : w.Fresh)
    (hholds : (Stage.between w.record.waits).Holds w) (hordered : call.orderly w = true) :
    (w.enter i call).Fresh ∧ (Stage.entered w.record.waits call).Holds (w.enter i call) := by
  cases call with
  | take tid => exact absurd rfl (hcall tid)
  | arm command =>
    obtain ⟨harmed, hrequested⟩ := of_decide_eq_true hordered
    exact ⟨fun hs => absurd hs hrequested, harmed, hrequested, rfl⟩
  | release =>
    have htaken := of_decide_eq_true hordered
    refine ⟨hw, ?_⟩
    cases hwaits : w.record.waits with
    | true =>
      rw [hwaits] at hholds
      exact hholds.recorded rfl
    | false =>
      rw [hwaits] at hholds htaken
      rcases hs : w.state with _ | _ | _ | _
      · exact hs
      · exact absurd hs hholds.1
      · exact absurd hs hholds.2
      · exact absurd (htaken hs) (by decide)
  | _ => exact ⟨hw, hholds.recorded rfl⟩

def other (i : ℕ) : bytes.Assertion := ⟨i, fun _ => True, fun _ _ _ _ _ _ _ => trivial⟩

theorem other_act {f : World → α × World} {Q : α → bytes.Assertion → Prop}
    (h : ∀ w : World, w.Taken (f w).2) (hQ : ∀ a, Q a (other i)) :
    Follows bytes.protocol (Prog.act f) (other i) Q := by
  refine Promise.keep (fun w hw _ => ⟨fun hordered => ?_, fun hordered => ?_, trivial⟩) hQ
  · rw [(h w).record] at hordered ⊢
    obtain ⟨hbetween, hfresh⟩ := hw hordered
    exact ⟨fun hnone => (hbetween hnone).taken (h w), (h w).fresh hfresh⟩
  · rw [(h w).record] at hordered
    exact ⟨hordered, fun _ _ _ => h w⟩

theorem take_bytes {Q : Bool → bytes.Assertion → Prop} (hQ : ∀ b, Q b (other i)) :
    Follows bytes.protocol (take i tid) (other i) Q := by
  refine Follows.bind (other_act (fun _ => .quiet) fun state => ?_)
  split_ifs
  · exact hQ false
  refine Follows.bind (other_act (fun w => ?_) fun seen => ?_)
  · by_cases hmem : tid ∈ w.waiting
    · rw [if_pos hmem]
      exact .quiet
    · rw [if_neg hmem]
      exact .quiet
  split_ifs
  · exact hQ false
  refine Follows.bind (other_act (fun w => ?_) fun taken => ?_)
  · by_cases hs : w.state = .requested
    · rw [if_pos hs]
      exact ⟨.inr ⟨hs, rfl⟩, Nat.le_refl _, rfl, rfl⟩
    · rw [if_neg hs]
      exact .quiet
  cases taken with
  | false => exact hQ false
  | true =>
    refine Follows.bind (other_act (fun _ => .quiet) fun after => Follows.bind ?_)
    refine other_act (fun w => ?_) fun _ => hQ true
    exact ⟨.inl rfl, Nat.le_max_left .., rfl, rfl⟩

theorem World.enter_ordered {call : Call} (hcall : ∀ tid, call ≠ .take tid)
    (h : (w.enter i call).record.disorderly = false) :
    w.record.disorderly = false ∧ w.record.serving = none ∧ call.orderly w = true ∧
      (w.enter i call).record.serving = some i ∧
        (w.enter i call).record.waits = call.waits w.record.waits := by
  have henter : (w.enter i call).record.disorderly =
      (w.record.disorderly || w.record.serving.isSome || !call.orderly w) ∧
        (w.enter i call).record.serving = some i ∧
          (w.enter i call).record.waits = call.waits w.record.waits := by
    cases call with
    | take tid => exact absurd rfl (hcall tid)
    | _ => exact ⟨rfl, rfl, rfl⟩
  rw [henter.1] at h
  simp only [Bool.or_eq_false_iff, Bool.not_eq_false', Option.isSome_eq_false_iff,
    Option.isNone_iff_eq_none] at h
  exact ⟨h.1.1, h.1.2, h.2, henter.2⟩

theorem client_bytes (calls : List Call) :
    Follows bytes.protocol (client i calls) (other i) fun _ _ => True := by
  induction calls with
  | nil => trivial
  | cons call calls ih =>
    by_cases htake : ∃ tid, call = .take tid
    · obtain ⟨tid, rfl⟩ := htake
      refine Follows.bind (other_act (fun _ => .quiet) fun _ => Follows.bind (Follows.bind ?_))
      exact take_bytes fun _ => Follows.bind (other_act (fun _ => .quiet) fun _ => ih)
    have hcall := not_exists.1 htake
    have hleave (w : World) : w.leave call = { w with record.serving := none } := by
      cases call with
      | take tid => exact absurd rfl (hcall tid)
      | _ => rfl
    refine Promise.act fun w hw _ => ⟨fun hordered => ?_, fun hordered => ?_,
      during i (call.waits w.record.waits) (.entered w.record.waits call), rfl, fun hordered => ?_, ?_⟩
    · obtain ⟨hbefore, hnone, horderly, hserving, -⟩ := World.enter_ordered hcall hordered
      refine ⟨fun hnot => ?_,
        (Stage.entered_holds hcall (hw hbefore).2 ((hw hbefore).1 hnone) horderly).1⟩
      rw [hserving] at hnot
      cases hnot
    · obtain ⟨hbefore, hnone, -⟩ := World.enter_ordered hcall hordered
      refine ⟨hbefore, fun j _ hserving => ?_⟩
      rw [hnone] at hserving
      cases hserving
    · obtain ⟨hbefore, hnone, horderly, hserving, hwaits⟩ := World.enter_ordered hcall hordered
      exact ⟨hserving, hwaits,
        (Stage.entered_holds hcall (hw hbefore).2 ((hw hbefore).1 hnone) horderly).2⟩
    refine Follows.bind (call.run_bytes hcall (Promise.act fun w hw hl => ?_))
    dsimp only
    rw [hleave]
    refine ⟨fun hordered => ?_, fun hordered => ?_, other i, rfl, trivial, ih⟩
    · obtain ⟨-, hwaits, hstage⟩ := hl hordered
      refine ⟨fun _ => ?_, (hw hordered).2⟩
      rw [← hwaits] at hstage
      exact hstage.recorded rfl
    · refine ⟨hordered, fun j hj hserving => ?_⟩
      exact absurd (Option.some.inj (hserving.symm.trans (hl hordered).1)) hj

/-- **No byte is lost or stale** if the calls other than the takes are made in order, one at a
    time. -/
theorem bytes_apply (calls : ℕ → List Call) (schedule : List ℕ)
    (hordered : ((clients calls).run schedule).state.record.disorderly = false) :
    ((clients calls).run schedule).state.BytesApply := by
  have hstart : bytes.sound (clients calls).state :=
    fun _ => ⟨fun _ => Stage.closed_of_idle rfl, by rintro ⟨⟩⟩
  have hsound : bytes.sound ((clients calls).run schedule).state :=
    Promise.run other (fun _ => rfl) hstart (fun _ => trivial) (fun i => client_bytes (calls i)) schedule
  obtain ⟨hbetween, hfresh⟩ := hsound hordered
  refine ⟨fun hnone hs => ?_, hfresh⟩
  have hholds := hbetween hnone
  cases hwaits : ((clients calls).run schedule).state.record.waits with
  | true =>
    rw [hwaits] at hholds
    exact hholds.2 hs
  | false =>
    rw [hwaits] at hholds
    exact absurd hs hholds.1

def releasedCalls : ℕ → List Call
  | 0 => [.arm 1, .waitFor [7], .request 1, .disarm, .request 2, .arm 3, .release]
  | 1 => [.take 7]
  | _ => []

theorem bytes_apply_released :
    ((clients releasedCalls).run
      (.replicate 15 0 ++ .replicate 7 1 ++ .replicate 20 0)).state.BytesApply :=
  bytes_apply releasedCalls _ (by decide +kernel)

/-- Whether the numbers in two calls, made in this order, are in the order of sending: a byte
    is recorded before the next command is passed on. -/
def sentInOrder : Call → Call → Bool
  | .arm command, .arm command' => command < command'
  | .arm command, .request after => command ≤ after
  | .request after, .request after' => after ≤ after'
  | _, _ => true

def staleCalls : ℕ → List Call
  | 0 => [.arm 1, .waitFor [7], .request 1, .disarm, .request 2, .arm 3, .waitFor [7]]
  | 1 => [.take 7, .release, .take 7]
  | _ => []

/-- Thread 7 takes a request and is released by a detach while gdb holds the guest stopped.  A
    byte that gdb then sends, before the command of the next resume, raises a request for
    that resume, and thread 7 takes it.  No two calls overlap. -/
theorem stale_byte_raises : (staleCalls 0).Pairwise (sentInOrder · ·) ∧
    let calls := .replicate 15 0 ++ .replicate 7 1 ++ .replicate 5 0 ++ .replicate 5 1 ++ .replicate 13 0
    let w := ((clients staleCalls).run calls).state
    (w.state = .requested ∧ w.record.armedFor = 3 ∧ w.interruptedAfter = 2 ∧ w.record.serving = none) ∧
      ((clients staleCalls).run (calls ++ .replicate 7 1)).state.stops = [⟨2, 7, [7]⟩, ⟨1, 7, [7]⟩] := by
  decide +kernel

end Reverie.Gdb.Interrupt
