/-
  Programming of timer events (`timer.rs`, `pmu_config.rs`).  The counter notifies some margin
  before the target of a precise event; a notification that comes too early programs it again.

  The operations of the counter succeed, and the clock and the times of a call are arguments.
  Sums and differences that the source does not check are checked here (`add`, `sub`).
-/
import Mathlib

namespace Reverie.Timer

/-- What can go wrong in a call: the request is refused, or arithmetic overflows. -/
inductive Fault where
  | einval
  | overflow
  | underflow

def add (a b : ℕ) : Except Fault ℕ := if a + b < 2 ^ 64 then .ok (a + b) else .error .overflow

def sub (a b : ℕ) : Except Fault ℕ := if b ≤ a then .ok (a - b) else .error .underflow

def saturatingAdd (a b : ℕ) : ℕ := min (a + b) (2 ^ 64 - 1)

def saturatingMul (a b : ℕ) : ℕ := min (a * b) (2 ^ 64 - 1)

/-! ## Configuration -/

def singlestepTimeoutRcbs : ℕ := 5

def largestTableSkidMargin : ℕ := 10000

def halvingStopDivisor : ℕ := 2

/-- The settings of a processor. -/
structure PmuConfig where
  tableSkidMargin : ℕ
  skidMarginOverride : Option ℕ
  skidLatencyBudgetNs : ℕ
  halveStages : Bool

namespace PmuConfig

variable (config : PmuConfig)

def skidMargin : ℕ := config.skidMarginOverride.getD config.tableSkidMargin

def firstStageMargin : ℕ := max config.skidMargin largestTableSkidMargin

/-- Whether a precise event requested `ticks` ahead is staged. -/
def stages (ticks : ℕ) : Bool :=
  config.skidLatencyBudgetNs != 0 && config.skidMarginOverride.isNone &&
    config.firstStageMargin > config.skidMargin &&
    ticks > config.firstStageMargin + singlestepTimeoutRcbs

/-- Whether a notification is programmed halfway. -/
def halves (notification margin : ℕ) : Bool :=
  config.halveStages && config.skidMarginOverride.isNone &&
    notification / 2 > singlestepTimeoutRcbs &&
    saturatingMul notification halvingStopDivisor > max margin config.skidMargin

/-- The margin of the second stage, by the branch rate of the first. -/
def secondStageMargin (rcbs : ℕ) (elapsedNs : Option ℕ) : ℕ :=
  match elapsedNs.filter (· > 0) with
  | none => config.skidMargin
  | some elapsed =>
    let margin := (rcbs * config.skidLatencyBudgetNs + elapsed - 1) / elapsed
    max config.skidMargin
      (min (min margin (2 ^ 64 - 1)) (max config.firstStageMargin config.skidMargin))

end PmuConfig

/-! ## Events -/

/-- What a tool requests. -/
inductive TimerEventRequest where
  | precise (ticks : ℕ)
  | preciseInstruction (ticks offset : ℕ)
  | imprecise (ticks : ℕ)

/-- What a timer waits for. -/
inductive ActiveEvent where
  | precise (clockTarget offset : ℕ)
  | imprecise (clockMin : ℕ)

/-- The request again, if the clock is too far from the event for single steps. -/
def ActiveEvent.rescheduleIfSpuriousWakeup (event : ActiveEvent)
    (currClock maxSingleStepCount : ℕ) : Except Fault (Option TimerEventRequest) :=
  match event with
  | .precise clockTarget offset =>
    if clockTarget - currClock > maxSingleStepCount then do
      let rcbs ← sub clockTarget currClock
      pure (some (if offset = 0 then .precise rcbs else .preciseInstruction rcbs offset))
    else pure none
  | .imprecise clockMin =>
    if clockMin > currClock then do
      let rcbs ← sub clockMin currClock
      pure (some (.imprecise rcbs))
    else pure none

/-- When and where a first stage was programmed. -/
structure FirstStage where
  programmedNs : ℕ
  programmedClock : ℕ

/-- A notification halfway to where it is due. -/
structure HalvedStage where
  margin : ℕ
  firstStage : Option FirstStage

/-- The timer of a thread whose initial exec is done. -/
structure TimerImpl where
  event : ActiveEvent
  firstStage : Option FirstStage
  halved : Option HalvedStage
  /-- the period of the counter, `none` if an artificial signal replaces it -/
  overflowPeriod : Option ℕ
  overflowPoint : Option ℕ
  sendArtificialSignal : Bool
  eventMargin : ℕ

/-- Where and when a call is made: the guest's clock, the monotonic time, and the time
    of the last sample. -/
structure Moment where
  clock : ℕ
  nowNs : ℕ
  sampleTime : Option ℕ

namespace TimerImpl

variable (config : PmuConfig)

def eventAt (event : TimerEventRequest) (clock : ℕ) : ActiveEvent :=
  match event with
  | .precise _ => .precise clock 0
  | .preciseInstruction _ offset => .precise clock offset
  | .imprecise _ => .imprecise clock

variable (timer : TimerImpl)

def prepareNotification (notification : ℕ) : TimerImpl :=
  if notification ≤ singlestepTimeoutRcbs then
    { timer with overflowPeriod := none, sendArtificialSignal := true }
  else { timer with overflowPeriod := some notification, sendArtificialSignal := false }

def programNotification (at_ : Moment) (notification margin : ℕ) (firstStage : Bool) : TimerImpl :=
  let halve := config.halves notification margin
  let prepared := timer.prepareNotification (if halve then notification / 2 else notification)
  let programmed : Option FirstStage :=
    if firstStage && prepared.overflowPeriod.isSome then some ⟨at_.nowNs, at_.clock⟩ else none
  if halve then { prepared with halved := some ⟨margin, programmed⟩, firstStage := none }
  else { prepared with halved := none, firstStage := programmed }

/-- `overflow_period.map(|period| clock + period)`. -/
def overflowPointAt (clock : ℕ) : Option ℕ → Except Fault (Option ℕ)
  | none => pure none
  | some period => do
    let point ← add clock period
    pure (some point)

/-- The distance, margin and staging of a request. -/
def plan (event : TimerEventRequest) : ℕ × ℕ × Bool :=
  match event with
  | .precise ticks | .preciseInstruction ticks _ =>
    let staged := config.stages ticks
    (ticks, if staged then config.firstStageMargin else config.skidMargin, staged)
  | .imprecise ticks => (ticks, 0, false)

def requestEvent (at_ : Moment) (event : TimerEventRequest) : Except Fault TimerImpl := do
  let (delivery, margin, staged) := plan config event
  let notification := delivery - margin
  if delivery = 0 then throw .einval
  let cleared := { timer with firstStage := none, halved := none }
  let programmed := match event with
    | .imprecise _ => cleared.prepareNotification notification
    | _ => cleared.programNotification config at_ notification margin staged
  let point ← overflowPointAt at_.clock programmed.overflowPeriod
  let target ← add at_.clock delivery
  pure { programmed with
    eventMargin := margin, overflowPoint := point, event := eventAt event target }

/-- `rearm`: programs the active event again, `margin` short of its target. -/
def rearm (at_ : Moment) (remaining margin : ℕ) (firstStage : Bool) : Except Fault TimerImpl := do
  let notification ← sub remaining margin
  let programmed := timer.programNotification config at_ notification margin firstStage
  let point ← overflowPointAt at_.clock programmed.overflowPeriod
  pure { programmed with overflowPoint := point, eventMargin := margin }

/-- The time between a programming and a later sample. -/
def elapsedSince (programmedNs : ℕ) (sampleTime : Option ℕ) : Except Fault (Option ℕ) :=
  match sampleTime.filter (· > programmedNs) with
  | none => pure none
  | some time => do
    let elapsed ← sub time programmedNs
    pure (some elapsed)

/-- The second stage, unless the clock is within its margin; `none` if it did not
    re-arm. -/
def rearmSecondStage (first : FirstStage) (at_ : Moment) : Except Fault (Option TimerImpl) :=
  match timer.event with
  | .imprecise _ => pure none
  | .precise clockTarget _ => do
    let elapsedNs ← elapsedSince first.programmedNs at_.sampleTime
    let margin := config.secondStageMargin (at_.clock - first.programmedClock) elapsedNs
    let remaining := clockTarget - at_.clock
    if remaining ≤ saturatingAdd margin singlestepTimeoutRcbs then pure none
    else do
      let rearmed ← timer.rearm config at_ remaining margin false
      pure (some rearmed)

def rearmHalved (halved : HalvedStage) (at_ : Moment) : Except Fault (Option TimerImpl) :=
  match timer.event with
  | .imprecise _ => pure none
  | .precise clockTarget _ =>
    let remaining := clockTarget - at_.clock
    if remaining ≤ saturatingAdd halved.margin singlestepTimeoutRcbs then
      match halved.firstStage with
      | some first => timer.rearmSecondStage config first at_
      | none => pure none
    else do
      let rearmed ← timer.rearm config at_ remaining halved.margin halved.firstStage.isSome
      pure (some rearmed)

def maxSingleStepCount : ℕ :=
  saturatingAdd (max timer.eventMargin config.skidMargin) singlestepTimeoutRcbs

/-- What a notification does first, with the first stage that `deliver` has taken:
    `none` if the event is to be delivered, and the timer armed again otherwise. -/
def rearmShortOfTarget (at_ : Moment) (firstStage : Option FirstStage) :
    Except Fault (Option TimerImpl) :=
  match timer.halved with
  | some halved => { timer with halved := none }.rearmHalved config halved at_
  | none => do
    match ← timer.event.rescheduleIfSpuriousWakeup at_.clock (timer.maxSingleStepCount config) with
    | some request => do
      let rescheduled ← timer.requestEvent config at_ request
      pure (some rescheduled)
    | none =>
      match firstStage with
      | some first => timer.rearmSecondStage config first at_
      | none => pure none

/-- The start of `deliver`. -/
def notified (at_ : Moment) : Except Fault (Option TimerImpl) :=
  { timer with firstStage := none }.rearmShortOfTarget config at_ timer.firstStage

end TimerImpl

end Reverie.Timer
