/-
  A precise timer event keeps its target through every re-arm (`precise_event_keeps_target`).
  `notified_armed`: a notification at any clock leaves an armed timer armed for the same
  event, without an overflow or underflow, or delivers the event.
-/
import Reverie.Timer.Precise

namespace Reverie.Timer

open TimerImpl Option

/-- How far ahead an event is requested. -/
def TimerEventRequest.ticks : TimerEventRequest → ℕ
  | .precise ticks | .preciseInstruction ticks _ | .imprecise ticks => ticks

/-- The offset of a precise event, `none` for an imprecise one. -/
def TimerEventRequest.offset? : TimerEventRequest → Option ℕ
  | .precise _ => some 0
  | .preciseInstruction _ offset => some offset
  | .imprecise _ => none

/-- The three ways a timer is programmed at `clock`. -/
inductive Stage (target clock : ℕ) (timer : TimerImpl) : Prop
  /-- halfway to a notification `n` ahead -/
  | halved (n : ℕ) (h : HalvedStage) : timer.halved = some h → h.margin = timer.eventMargin →
      timer.firstStage = none → singlestepTimeoutRcbs < n / 2 →
      clock + n + timer.eventMargin = target → timer.overflowPeriod = some (n / 2) →
      Stage target clock timer
  | whole (n : ℕ) : timer.halved = none → singlestepTimeoutRcbs < n →
      clock + n + timer.eventMargin = target → timer.overflowPeriod = some n →
      Stage target clock timer
  /-- the target is in reach of single steps -/
  | artificial : timer.halved = none → timer.firstStage = none → timer.overflowPeriod = none →
      target ≤ clock + timer.eventMargin + singlestepTimeoutRcbs → Stage target clock timer

/-- The timer was programmed at `clock` for the event. -/
structure Armed (target offset clock : ℕ) (timer : TimerImpl) : Prop where
  event : timer.event = .precise target offset
  point : timer.overflowPoint = timer.overflowPeriod.map (clock + ·)
  stage : Stage target clock timer

variable {target offset clock : ℕ} {timer : TimerImpl}

theorem Armed.period_le {p : ℕ}
    (h : Armed target offset clock timer) (hp : timer.overflowPeriod = some p) :
    clock + p + timer.eventMargin ≤ target := by
  rcases h.stage with ⟨n, h, -, -, -, -, hn, hq⟩ | ⟨n, -, -, hn, hq⟩ | ⟨-, -, hq, -⟩
  · obtain rfl := Option.some.inj (hq.symm.trans hp)
    omega
  · obtain rfl := Option.some.inj (hq.symm.trans hp)
    omega
  · exact absurd (hq.symm.trans hp) (by simp)

/-- A bound on the second stage's programmings, if one is to come. -/
def staged (target clock : ℕ) (first : Option FirstStage) : ℕ :=
  if first.isSome then 1 + Nat.log 2 (target - clock) else 0

/-- A bound on the programmings that follow. -/
def rank (target clock : ℕ) (timer : TimerImpl) : ℕ :=
  match timer.halved with
  | some h => Nat.log 2 (target - clock - h.margin - 1) + staged target clock h.firstStage
  | none => staged target clock timer.firstStage

theorem rank_halved {h : HalvedStage} (hh : timer.halved = some h) : rank target clock timer =
      Nat.log 2 (target - clock - h.margin - 1) + staged target clock h.firstStage := by
  rw [rank, hh]

theorem rank_whole (hh : timer.halved = none) :
    rank target clock timer = staged target clock timer.firstStage := by
  rw [rank, hh]

/-! ## Programming -/

section
variable {config : PmuConfig} {timer : TimerImpl} {at_ : Moment}
  {target offset notification margin : ℕ} {first : Bool}

theorem halves_half (h : config.halves notification margin = true) :
    singlestepTimeoutRcbs < notification / 2 := by
  simp only [PmuConfig.halves, Bool.and_eq_true, decide_eq_true_eq] at h
  exact h.1.2

theorem prepareNotification_of_lt (h : singlestepTimeoutRcbs < notification) :
    timer.prepareNotification notification =
      { timer with overflowPeriod := some notification, sendArtificialSignal := false } := by
  rw [prepareNotification, if_neg (by omega)]

theorem prepareNotification_of_le (h : notification ≤ singlestepTimeoutRcbs) :
    timer.prepareNotification notification =
      { timer with overflowPeriod := none, sendArtificialSignal := true } := by
  rw [prepareNotification, if_pos h]

/-- What a programming leaves, once its margin is recorded. -/
structure Programs (target clock margin : ℕ) (first : Bool)
    (timer : TimerImpl) : Prop where
  stage : Stage target clock timer
  rank_le : rank target clock timer ≤
    Nat.log 2 (target - clock - margin - 1) +
      if first then 1 + Nat.log 2 (target - clock) else 0

variable (config timer first) in
theorem programNotification_programs (point : Option ℕ) (event : ActiveEvent)
    (hfar : singlestepTimeoutRcbs < notification → at_.clock + notification + margin = target)
    (hnear : notification ≤ singlestepTimeoutRcbs →
      target ≤ at_.clock + margin + singlestepTimeoutRcbs) :
    Programs target at_.clock margin first
      { timer.programNotification config at_ notification margin first with
        overflowPoint := point, eventMargin := margin, event := event } := by
  rw [programNotification]
  by_cases hh : config.halves notification margin = true
  · have hhalf := halves_half hh
    have hn := hfar (by omega)
    simp only [hh, if_true, prepareNotification_of_lt hhalf]
    refine ⟨.halved notification _ rfl rfl rfl hhalf hn rfl, ?_⟩
    cases first <;> exact le_rfl
  · rw [Bool.not_eq_true] at hh
    by_cases hn : singlestepTimeoutRcbs < notification
    · simp only [hh, Bool.false_eq_true, if_false, prepareNotification_of_lt hn]
      refine ⟨.whole notification rfl hn (hfar hn) rfl, ?_⟩
      cases first <;> exact Nat.le_add_left _ _
    · simp only [hh, Bool.false_eq_true, if_false, prepareNotification_of_le (Nat.not_lt.1 hn)]
      refine ⟨.artificial rfl ?_ rfl (hnear (Nat.not_lt.1 hn)), ?_⟩
      · cases first <;> rfl
      · cases first <;> exact Nat.zero_le _

variable {a b clock remaining n : ℕ} {halved : HalvedStage} {request : TimerEventRequest}

theorem add_eq (h : a + b < 2 ^ 64) : add a b = pure (a + b) := if_pos h

theorem sub_eq (h : b ≤ a) : sub a b = pure (a - b) := if_pos h

theorem overflowPointAt_eq (h : Stage target clock timer) (ht : target < 2 ^ 64) :
    overflowPointAt clock timer.overflowPeriod = pure (timer.overflowPeriod.map (clock + ·)) := by
  rcases h with ⟨n, h, -, -, -, -, hn, hq⟩ | ⟨n, -, -, hn, hq⟩ | ⟨-, -, hq, -⟩
  · rw [hq, overflowPointAt, add_eq (by omega)]
    rfl
  · rw [hq, overflowPointAt, add_eq (by omega)]
    rfl
  · rw [hq]
    rfl

variable (config timer first) in
theorem programNotification_point (ht : target < 2 ^ 64)
    (hfar : singlestepTimeoutRcbs < notification → at_.clock + notification + margin = target)
    (hnear : notification ≤ singlestepTimeoutRcbs →
      target ≤ at_.clock + margin + singlestepTimeoutRcbs) :
    overflowPointAt at_.clock
        (timer.programNotification config at_ notification margin first).overflowPeriod =
      pure ((timer.programNotification config at_ notification margin first).overflowPeriod.map
        (at_.clock + ·)) := by
  have h := programNotification_programs config timer first none timer.event hfar hnear
  have hpoint := overflowPointAt_eq h.stage ht
  exact hpoint

theorem programNotification_event :
    (timer.programNotification config at_ notification margin first).event = timer.event := by
  rw [programNotification, prepareNotification]
  split_ifs <;> rfl

/-! ## Re-arming -/

/-- A re-arm more than the margin short of the target programs it again. -/
theorem rearm_armed (ht : target < 2 ^ 64)
    (he : timer.event = .precise target offset) (hr : at_.clock + remaining = target)
    (hm : margin + singlestepTimeoutRcbs < remaining) :
    ∃ next, timer.rearm config at_ remaining margin first = .ok next ∧
      Armed target offset at_.clock next ∧
      rank target at_.clock next ≤ Nat.log 2 (target - at_.clock - margin - 1) +
        if first then 1 + Nat.log 2 (target - at_.clock) else 0 := by
  have hfar : singlestepTimeoutRcbs < remaining - margin →
      at_.clock + (remaining - margin) + margin = target := by omega
  have hnear : remaining - margin ≤ singlestepTimeoutRcbs →
      target ≤ at_.clock + margin + singlestepTimeoutRcbs := by omega
  have hpoint := programNotification_point config timer first ht hfar hnear
  have hprog := programNotification_programs config timer first
    ((timer.programNotification config at_ (remaining - margin) margin first).overflowPeriod.map
      (at_.clock + ·))
    (timer.programNotification config at_ (remaining - margin) margin first).event hfar hnear
  refine ⟨_, ?_, ⟨?_, ?_, hprog.stage⟩, hprog.rank_le⟩
  · rw [rearm, sub_eq (by omega)]
    simp only [hpoint, pure_bind]
    rfl
  · exact programNotification_event.trans he
  · rfl

theorem lt_of_saturatingAdd_lt {c : ℕ} (h : saturatingAdd a b < c) (hc : c < 2 ^ 64) :
    a + b < c := by
  rw [saturatingAdd] at h
  omega

theorem elapsedSince_ok (programmed : ℕ) (sample : Option ℕ) :
    ∃ elapsed, elapsedSince programmed sample = pure elapsed := by
  rw [elapsedSince]
  rcases hs : sample.filter (· > programmed) with - | time
  · exact ⟨none, rfl⟩
  · have hlt := (filter_eq_some_iff.1 hs).2
    simp only [decide_eq_true_eq] at hlt
    exact ⟨some (time - programmed), by simp only [sub_eq hlt.le, pure_bind]⟩

/-- What the source calls a re-arm or a delivery: an armed timer, with a bound on its
    rank, or none. -/
def Rearms (target offset clock bound : ℕ) (result : Except Fault (Option TimerImpl)) : Prop :=
  ∃ next, result = .ok next ∧
    ∀ timer, next = some timer →
      Armed target offset clock timer ∧ rank target clock timer ≤ bound

theorem Rearms.none {bound : ℕ} : Rearms target offset clock bound (pure none) :=
  ⟨_, rfl, by simp⟩

theorem Rearms.mono {result : Except Fault (Option TimerImpl)}
    (h : Rearms target offset clock a result) (hab : a ≤ b) :
    Rearms target offset clock b result := by
  obtain ⟨next, hn, harm⟩ := h
  exact ⟨next, hn, fun timer ht => ⟨(harm timer ht).1, (harm timer ht).2.trans hab⟩⟩

theorem rearm_rearms (ht : target < 2 ^ 64)
    (he : timer.event = .precise target offset) (hr : remaining = target - at_.clock)
    (hm : saturatingAdd margin singlestepTimeoutRcbs < remaining) :
    Rearms target offset at_.clock
      (Nat.log 2 (target - at_.clock - margin - 1) +
        if first then 1 + Nat.log 2 (target - at_.clock) else 0)
      (timer.rearm config at_ remaining margin first >>= fun rearmed => pure (some rearmed)) := by
  have hlt := lt_of_saturatingAdd_lt hm (by omega)
  have hrem : at_.clock + remaining = target := by omega
  obtain ⟨next, hn, harmed, hrank⟩ := rearm_armed ht he hrem hlt
  refine ⟨some next, ?_, ?_⟩
  · rw [hn]
    rfl
  · rintro _ ⟨rfl⟩
    exact ⟨harmed, hrank⟩

theorem rearmSecondStage_rearms {stage : FirstStage} (ht : target < 2 ^ 64)
    (he : timer.event = .precise target offset) :
    Rearms target offset at_.clock (Nat.log 2 (target - at_.clock))
      (timer.rearmSecondStage config stage at_) := by
  obtain ⟨elapsed, hel⟩ := elapsedSince_ok stage.programmedNs at_.sampleTime
  simp only [rearmSecondStage, he, hel, pure_bind]
  split_ifs with hm
  · exact .none
  · have hlog := Nat.log_mono_right (b := 2) (Nat.sub_le_sub_right (Nat.sub_le
      (target - at_.clock) (config.secondStageMargin (at_.clock - stage.programmedClock) elapsed)) 1)
    exact (rearm_rearms ht he rfl (Nat.not_le.1 hm)).mono
      (hlog.trans (Nat.log_mono_right (Nat.sub_le _ _)))

theorem rearmHalved_rearms (ht : target < 2 ^ 64) (he : timer.event = .precise target offset) :
    Rearms target offset at_.clock
      (Nat.log 2 (target - at_.clock - halved.margin - 1) +
        staged target at_.clock halved.firstStage)
      (timer.rearmHalved config halved at_) := by
  simp only [rearmHalved, he]
  by_cases hm : target - at_.clock ≤ saturatingAdd halved.margin singlestepTimeoutRcbs
  · rw [if_pos hm]
    rcases halved.firstStage with - | first
    · exact .none
    · refine (rearmSecondStage_rearms ht he).mono ?_
      rw [staged, if_pos isSome_some]
      omega
  · rw [if_neg hm]
    exact rearm_rearms ht he rfl (Nat.not_le.1 hm)

theorem requestEvent_eq (hoff : request.offset? = some offset) :
    timer.requestEvent config at_ request =
      if request.ticks = 0 then .error .einval
      else (do
        let programmed := programNotification config
          { timer with firstStage := none, halved := none } at_
          (request.ticks - (plan config request).2.1) (plan config request).2.1
          (plan config request).2.2
        let point ← overflowPointAt at_.clock programmed.overflowPeriod
        let target ← add at_.clock request.ticks
        pure { programmed with
          overflowPoint := point, eventMargin := (plan config request).2.1,
          event := .precise target offset }) := by
  rcases request with ticks | ⟨ticks, off⟩ | ticks
  · obtain rfl := Option.some.inj hoff
    dsimp only [TimerEventRequest.ticks]
    split_ifs <;> rfl
  · obtain rfl := Option.some.inj hoff
    dsimp only [TimerEventRequest.ticks]
    split_ifs <;> rfl
  · exact absurd hoff (by simp [TimerEventRequest.offset?])

theorem requestEvent_zero (hoff : request.offset? = some offset)
    (h0 : request.ticks = 0) : timer.requestEvent config at_ request = .error .einval := by
  rw [requestEvent_eq hoff, if_pos h0]

theorem overflowPointAt_overflow (clock : ℕ) (period : Option ℕ) :
    (∃ point, overflowPointAt clock period = pure point) ∨
      overflowPointAt clock period = .error .overflow := by
  rcases period with - | period
  · exact .inl ⟨none, rfl⟩
  · by_cases h : clock + period < 2 ^ 64
    · exact .inl ⟨some (clock + period), by rw [overflowPointAt, add_eq h]; rfl⟩
    · refine .inr ?_
      rw [overflowPointAt, add, if_neg h]
      rfl

theorem requestEvent_overflow (hoff : request.offset? = some offset)
    (h0 : request.ticks ≠ 0) (hlt : ¬ at_.clock + request.ticks < 2 ^ 64) :
    timer.requestEvent config at_ request = .error .overflow := by
  rw [requestEvent_eq hoff, if_neg h0]
  dsimp only
  rcases overflowPointAt_overflow at_.clock (programNotification config
      { timer with firstStage := none, halved := none } at_ (request.ticks - (plan config request).2.1)
      (plan config request).2.1 (plan config request).2.2).overflowPeriod with ⟨point, hp⟩ | hp
  · rw [hp, add, if_neg hlt]
    rfl
  · rw [hp]
    rfl

theorem requestEvent_armed (hoff : request.offset? = some offset)
    (h0 : request.ticks ≠ 0) (hlt : at_.clock + request.ticks < 2 ^ 64) :
    ∃ next, timer.requestEvent config at_ request = .ok next ∧
      Armed (at_.clock + request.ticks) offset at_.clock next ∧
      rank (at_.clock + request.ticks) at_.clock next ≤ 2 * Nat.log 2 request.ticks + 1 := by
  have hfar : singlestepTimeoutRcbs < request.ticks - (plan config request).2.1 →
      at_.clock + (request.ticks - (plan config request).2.1) + (plan config request).2.1 =
        at_.clock + request.ticks := by omega
  have hnear : request.ticks - (plan config request).2.1 ≤ singlestepTimeoutRcbs →
      at_.clock + request.ticks ≤ at_.clock + (plan config request).2.1 + singlestepTimeoutRcbs := by
    omega
  have hpoint := programNotification_point config
    { timer with firstStage := none, halved := none } (plan config request).2.2 hlt hfar hnear
  have hprog := programNotification_programs config
    { timer with firstStage := none, halved := none } (plan config request).2.2
    (Option.map (at_.clock + ·) (programNotification config
      { timer with firstStage := none, halved := none } at_
      (request.ticks - (plan config request).2.1) (plan config request).2.1
      (plan config request).2.2).overflowPeriod)
    (.precise (at_.clock + request.ticks) offset) hfar hnear
  refine ⟨_, ?_, ⟨rfl, rfl, hprog.stage⟩, hprog.rank_le.trans ?_⟩
  · rw [requestEvent_eq hoff, if_neg h0]
    simp only [hpoint, add_eq hlt]
    rfl
  · rw [Nat.add_sub_cancel_left]
    have hlog : Nat.log 2 (request.ticks - (plan config request).2.1 - 1) ≤
        Nat.log 2 request.ticks := Nat.log_mono_right (by omega)
    split_ifs <;> omega

/-! ## Notifications -/

theorem reschedule_eq (ht : target < 2 ^ 64) (he : timer.event = .precise target offset) :
    (timer.event.rescheduleIfSpuriousWakeup at_.clock (timer.maxSingleStepCount config) =
        pure none) ∨
      (timer.eventMargin + singlestepTimeoutRcbs < target - at_.clock ∧
        ∃ request : TimerEventRequest, request.ticks = target - at_.clock ∧
          request.offset? = some offset ∧
          timer.event.rescheduleIfSpuriousWakeup at_.clock (timer.maxSingleStepCount config) =
            pure (some request)) := by
  rw [he, ActiveEvent.rescheduleIfSpuriousWakeup]
  by_cases hlt : target - at_.clock > timer.maxSingleStepCount config
  · have hadd := lt_of_saturatingAdd_lt hlt (by omega)
    have hmargin : timer.eventMargin + singlestepTimeoutRcbs < target - at_.clock := by
      omega
    refine .inr ⟨hmargin, if offset = 0 then .precise (target - at_.clock)
      else .preciseInstruction (target - at_.clock) offset, ?_, ?_, ?_⟩
    · split_ifs <;> rfl
    · split_ifs with h0
      · rw [h0]
        rfl
      · rfl
    · rw [if_pos hlt, sub_eq (by omega), pure_bind]
  · exact .inl (if_neg hlt)

/-- A notification that was not halved: requests the event again, arms the second
    stage, or delivers. -/
theorem rearmShortOfTarget_armed {stage : Option FirstStage} (ht : target < 2 ^ 64)
    (he : timer.event = .precise target offset) (hhalved : timer.halved = none) :
    ∃ next, timer.rearmShortOfTarget config at_ stage = .ok next ∧
      ∀ rearmed, next = some rearmed → Armed target offset at_.clock rearmed ∧
        (target - at_.clock ≤ timer.eventMargin + singlestepTimeoutRcbs →
          rank target at_.clock rearmed < staged target at_.clock stage) := by
  simp only [rearmShortOfTarget, hhalved]
  rcases reschedule_eq ht he with hno | ⟨hlt, request, hticks, hoff, hyes⟩
  · rw [hno]
    rcases stage with - | first
    · exact ⟨none, rfl, by simp⟩
    · obtain ⟨next, hn, hnext⟩ := rearmSecondStage_rearms ht he
      refine ⟨next, hn, fun rearmed hr => ⟨(hnext rearmed hr).1, fun _ => ?_⟩⟩
      rw [staged, if_pos isSome_some]
      have := (hnext rearmed hr).2
      omega
  · rw [hyes, pure_bind]
    have htarget : at_.clock + request.ticks = target := by omega
    have hfits : at_.clock + request.ticks < 2 ^ 64 := by omega
    obtain ⟨next, hn, harmed, -⟩ := requestEvent_armed hoff (by omega) hfits
    rw [htarget] at harmed
    refine ⟨some next, ?_, ?_⟩
    · dsimp only
      rw [hn]
      rfl
    · rintro _ ⟨rfl⟩
      exact ⟨harmed, fun hle => absurd hle (by omega)⟩

theorem staged_mono {clock' : ℕ} (first : Option FirstStage) (h : clock ≤ clock') :
    staged target clock' first ≤ staged target clock first := by
  have hlog : Nat.log 2 (target - clock') ≤ Nat.log 2 (target - clock) :=
    Nat.log_mono_right (by omega)
  rw [staged, staged]
  split_ifs <;> omega

/-- Past the half of `n`, what is left of `n` has a smaller logarithm. -/
theorem log_half_lt {m : ℕ} (hn : 1 < n / 2) (hm : m ≤ n - n / 2) :
    Nat.log 2 (m - 1) < Nat.log 2 (n - 1) := by
  have hle : Nat.log 2 (m - 1) ≤ Nat.log 2 ((n - 1) / 2) := Nat.log_mono_right (by omega)
  have hlog : Nat.log 2 (n - 1) = Nat.log 2 ((n - 1) / 2) + 1 :=
    Nat.log_of_one_lt_of_le Nat.one_lt_two (by omega)
  omega

/-- What a notification does to a timer that was armed at `clock`. -/
def Keeps (config : PmuConfig) (target offset clock : ℕ) (timer : TimerImpl) (at_ : Moment) :
    Prop :=
  ∃ next, timer.notified config at_ = .ok next ∧
    ∀ rearmed, next = some rearmed → Armed target offset at_.clock rearmed ∧
      (clock + timer.overflowPeriod.getD 0 ≤ at_.clock →
        rank target at_.clock rearmed < rank target clock timer)

theorem notified_whole (ht : target < 2 ^ 64)
    (he : timer.event = .precise target offset) (hhalved : timer.halved = none)
    (hreach : clock + timer.overflowPeriod.getD 0 ≤ at_.clock →
      target - at_.clock ≤ timer.eventMargin + singlestepTimeoutRcbs) :
    Keeps config target offset clock timer at_ := by
  have he' : { timer with firstStage := none }.event = .precise target offset := he
  obtain ⟨next, hn, hnext⟩ := rearmShortOfTarget_armed ht he' hhalved
  refine ⟨next, hn, fun rearmed hr => ⟨(hnext rearmed hr).1, fun hpunctual => ?_⟩⟩
  have hmono : staged target at_.clock timer.firstStage ≤ staged target clock timer.firstStage :=
    staged_mono timer.firstStage (by omega)
  rw [rank_whole hhalved]
  exact ((hnext rearmed hr).2 (hreach hpunctual)).trans_le hmono

theorem notified_halved (ht : target < 2 ^ 64)
    (he : timer.event = .precise target offset) (hhalved : timer.halved = some halved)
    (hn : 1 < n / 2) (hc : clock + n + halved.margin = target)
    (hp : timer.overflowPeriod = some (n / 2)) :
    Keeps config target offset clock timer at_ := by
  have he' : { timer with firstStage := none, halved := none }.event = .precise target offset := he
  obtain ⟨next, hnext, harmed⟩ : Rearms _ _ _ _
      (rearmHalved config { timer with firstStage := none, halved := none } halved at_) :=
    rearmHalved_rearms ht he'
  refine ⟨next, ?_, fun rearmed hr => ⟨(harmed rearmed hr).1, fun hpunctual => ?_⟩⟩
  · simp only [notified, hhalved]
    exact hnext
  rw [hp, getD_some] at hpunctual
  have hmono : staged target at_.clock halved.firstStage ≤
      staged target clock halved.firstStage := staged_mono halved.firstStage (by omega)
  have hlog := log_half_lt hn (show target - at_.clock - halved.margin ≤ n - n / 2 by omega)
  have hdist : target - clock - halved.margin = n := by omega
  have hrank := (harmed rearmed hr).2
  rw [rank_halved hhalved, hdist]
  omega

/-- A notification leaves an armed timer armed for the same event, or delivers it.
    If it does not come early, it uses up rank. -/
theorem notified_armed (ht : target < 2 ^ 64) (h : Armed target offset clock timer) (at_ : Moment) :
    Keeps config target offset clock timer at_ := by
  rcases h.stage with ⟨n, halved, hh, hmargin, -, hn, hc, hp⟩ | ⟨n, hh, -, hc, hp⟩ |
    ⟨hh, -, hp, hle⟩
  · rw [← hmargin] at hc
    exact notified_halved ht h.event hh (Nat.lt_of_le_of_lt (by decide) hn) hc hp
  · refine notified_whole ht h.event hh fun hpunctual => ?_
    rw [hp, getD_some] at hpunctual
    omega
  · refine notified_whole ht h.event hh fun hpunctual => ?_
    omega

end

/-! ## Sequences of notifications -/

/-- The programmings that a sequence of notifications makes, each with its clock, and
    whether the event was delivered. -/
structure Followed where
  rearms : List (ℕ × TimerImpl)
  delivered : Bool

/-- The notifications of an event, until it is delivered. -/
def TimerImpl.follow (config : PmuConfig) : TimerImpl → List Moment → Except Fault Followed
  | _, [] => pure ⟨[], false⟩
  | timer, at_ :: rest => do
    match ← timer.notified config at_ with
    | none => pure ⟨[], true⟩
    | some next => do
      let followed ← next.follow config rest
      pure ⟨(at_.clock, next) :: followed.rearms, followed.delivered⟩

/-- Each notification comes at least its period after the programming. -/
def Punctual (config : PmuConfig) : ℕ → TimerImpl → List Moment → Prop
  | _, _, [] => True
  | clock, timer, at_ :: rest =>
    clock + timer.overflowPeriod.getD 0 ≤ at_.clock ∧
      ∀ next, timer.notified config at_ = .ok (some next) → Punctual config at_.clock next rest

/-- Every sequence of notifications keeps an armed timer armed for its event. -/
theorem follow_armed {config : PmuConfig} (ht : target < 2 ^ 64)
    (notices : List Moment) : ∀ {clock : ℕ} {timer : TimerImpl}, Armed target offset clock timer →
      ∃ followed, timer.follow config notices = .ok followed ∧
        (∀ x ∈ followed.rearms, Armed target offset x.1 x.2) ∧
        (Punctual config clock timer notices →
          followed.rearms.length ≤ rank target clock timer ∧
          (rank target clock timer < notices.length → followed.delivered = true)) := by
  induction notices with
  | nil =>
    intro clock timer h
    exact ⟨⟨[], false⟩, rfl, by simp, fun _ => ⟨Nat.zero_le _, by simp⟩⟩
  | cons at_ rest ih =>
    intro clock timer h
    obtain ⟨next, hnext, hkeeps⟩ := notified_armed ht h at_
    rcases next with - | next
    · refine ⟨⟨[], true⟩, ?_, by simp, fun _ => ⟨Nat.zero_le _, fun _ => rfl⟩⟩
      rw [follow, hnext]
      rfl
    · obtain ⟨harmed, hrank⟩ := hkeeps next rfl
      obtain ⟨followed, hf, hall, hbound⟩ := ih harmed
      refine ⟨⟨(at_.clock, next) :: followed.rearms, followed.delivered⟩, ?_, ?_, ?_⟩
      · rw [follow, hnext]
        show (next.follow config rest >>= _) = _
        rw [hf]
        rfl
      · exact List.forall_mem_cons.2 ⟨harmed, hall⟩
      · rintro ⟨hpunctual, hlater⟩
        obtain ⟨hlen, hdel⟩ := hbound (hlater next hnext)
        simp only [List.length_cons]
        exact ⟨by omega, fun hmany => hdel (by omega)⟩

/-- **A precise event keeps its target through every re-arm.**  A request of no ticks
    is refused, and one whose target does not fit a clock overflows.  Every other arms the
    timer, and whatever the clocks of its notifications: none of them overflows or
    underflows, the event stays the requested one, and every period ends its margin before
    the target or earlier.  If no notification comes before its period, the event is
    delivered after a number of re-arms that is logarithmic in the request. -/
theorem precise_event_keeps_target (config : PmuConfig) (timer : TimerImpl) (start : Moment)
    (request : TimerEventRequest) (offset : ℕ) (hoff : request.offset? = some offset)
    (notices : List Moment) :
    match timer.requestEvent config start request with
    | .error fault => (request.ticks = 0 ∧ fault = .einval) ∨
        (2 ^ 64 ≤ start.clock + request.ticks ∧ fault = .overflow)
    | .ok armed =>
      ∃ followed, armed.follow config notices = .ok followed ∧
        (∀ x ∈ (start.clock, armed) :: followed.rearms,
          x.2.event = .precise (start.clock + request.ticks) offset ∧
          ∀ p, x.2.overflowPeriod = some p →
            x.1 + p + x.2.eventMargin ≤ start.clock + request.ticks) ∧
        (Punctual config start.clock armed notices →
          followed.rearms.length ≤ 2 * Nat.log 2 request.ticks + 1 ∧
          (2 * Nat.log 2 request.ticks + 1 < notices.length → followed.delivered = true)) := by
  by_cases h0 : request.ticks = 0
  · rw [requestEvent_zero hoff h0]
    exact .inl ⟨h0, rfl⟩
  by_cases hlt : start.clock + request.ticks < 2 ^ 64
  · obtain ⟨armed, hreq, harmed, hrank⟩ := requestEvent_armed hoff h0 hlt
    obtain ⟨followed, hf, hall, hbound⟩ := follow_armed hlt notices harmed
    rw [hreq]
    refine ⟨followed, hf, fun x hx => ?_, fun hpunctual => ?_⟩
    · have hx' : Armed (start.clock + request.ticks) offset x.1 x.2 := by
        rcases List.mem_cons.1 hx with rfl | hx
        · exact harmed
        · exact hall x hx
      exact ⟨hx'.event, fun p hp => hx'.period_le hp⟩
    · obtain ⟨hlen, hdel⟩ := hbound hpunctual
      exact ⟨hlen.trans hrank, fun hmany => hdel (by omega)⟩
  · rw [requestEvent_overflow hoff h0 hlt]
    exact .inr ⟨Nat.not_lt.1 hlt, rfl⟩

/-- An event 50000 branches ahead, staged and halved, whose first notification comes
    early, and whose others come late. -/
theorem precise_event_keeps_target_staged :
    ∃ armed, requestEvent ⟨2000, none, 2000, true⟩
        ⟨.imprecise 0, none, none, none, none, false, 0⟩ ⟨100, 0, none⟩ (.precise 50000) =
          .ok armed ∧
      ∃ followed, armed.follow ⟨2000, none, 2000, true⟩
          [⟨15000, 10000, none⟩, ⟨33000, 20000, some 19000⟩, ⟨41000, 30000, some 28000⟩] =
            .ok followed ∧
        followed.rearms.length = 3 ∧ ∀ x ∈ followed.rearms, x.2.event = .precise 50100 0 := by
  have h := precise_event_keeps_target ⟨2000, none, 2000, true⟩
    ⟨.imprecise 0, none, none, none, none, false, 0⟩ ⟨100, 0, none⟩ (.precise 50000) 0 rfl
    [⟨15000, 10000, none⟩, ⟨33000, 20000, some 19000⟩, ⟨41000, 30000, some 28000⟩]
  obtain ⟨armed, harmed⟩ : ∃ armed, requestEvent ⟨2000, none, 2000, true⟩
      ⟨.imprecise 0, none, none, none, none, false, 0⟩ ⟨100, 0, none⟩ (.precise 50000) =
        .ok armed := ⟨_, rfl⟩
  rw [harmed] at h
  obtain ⟨followed, hf, hall, -⟩ := h
  refine ⟨armed, harmed, followed, hf, ?_, fun x hx => (hall x (List.mem_cons_of_mem _ hx)).1⟩
  cases harmed
  cases hf
  rfl

end Reverie.Timer
