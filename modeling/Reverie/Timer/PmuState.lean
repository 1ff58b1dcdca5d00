/-
  The PMU configuration of a process (`PmuState` of `pmu_config.rs`).  A check and the write
  that follows it are one section of the lock, so an interleaving is a sequence of sections;
  what `build` gives, and when, is arbitrary.  Main theorem: `one_configuration`.
-/
import Reverie.Timer.Precise

namespace Reverie.Timer

/-- What a clock counts. -/
inductive RcbMetric where
  | conditionalBranchesRetiredUserV1
  deriving DecidableEq

/-- What identifies a clock. -/
structure ClockKey where
  rawEvent : ℕ
  metric : Option RcbMetric
  deriving DecidableEq

/-- A `PmuConfig` with the event that it counts. -/
structure HostConfig extends PmuConfig where
  rcbEvent : ℕ
  metric : Option RcbMetric

def HostConfig.clockKey (config : HostConfig) : ClockKey := ⟨config.rcbEvent, config.metric⟩

def HostConfig.withSkidMarginOverride (config : HostConfig) (skidMargin : ℕ) : HostConfig :=
  { config with skidMarginOverride := some skidMargin }

/-- Why a key is not pinned. -/
inductive PinRefusal where
  | installedDiffers (installed qualified : ClockKey)
  | pinnedDiffers (pinned qualified : ClockKey)

/-- The configuration of the process. -/
structure PmuState where
  pinned : Option ClockKey
  installed : Option HostConfig
  margin : Option ℕ

namespace PmuState

def new : PmuState := ⟨none, none, none⟩

variable (s : PmuState)

def withRecordedMargin (config : HostConfig) : HostConfig :=
  match s.margin with
  | some margin => config.withSkidMarginOverride margin
  | none => config

/-- `get_or_install`, once it has built the candidate and has the lock. -/
def getOrInstall (candidate : Option HostConfig) : Option HostConfig × PmuState :=
  match s.installed, candidate with
  | some config, _ => (some config, s)
  | none, none => (none, s)
  | none, some candidate =>
    if s.pinned.any (· ≠ candidate.clockKey) then (none, s)
    else (some (s.withRecordedMargin candidate),
      { s with installed := some (s.withRecordedMargin candidate) })

def set (config : HostConfig) : Except HostConfig Unit × PmuState :=
  if s.installed.isSome ∨ s.pinned.any (· ≠ config.clockKey) then (.error config, s)
  else (.ok (), { s with installed := some config })

def setSkidMargin (skidMargin : ℕ) : Except ℕ Unit × PmuState :=
  if s.installed.isSome ∨ s.margin.isSome then (.error skidMargin, s)
  else (.ok (), { s with margin := some skidMargin })

/-- `check`; a `PinTicket` is its key. -/
def check (key : ClockKey) : Except PinRefusal ClockKey :=
  match s.installed.filter (·.clockKey ≠ key), s.pinned.filter (· ≠ key) with
  | some installed, _ => .error (.installedDiffers installed.clockKey key)
  | none, some pinned => .error (.pinnedDiffers pinned key)
  | none, none => .ok key

def commitPin (key : ClockKey) : Except PinRefusal Unit × PmuState :=
  match s.check key with
  | .error e => (.error e, s)
  | .ok key => (.ok (), { s with pinned := some key })

/-- The sections that can write; `qualify` is `check`. -/
inductive Call where
  | getOrInstall (candidate : Option HostConfig)
  | set (config : HostConfig)
  | setSkidMargin (skidMargin : ℕ)
  | commitPin (key : ClockKey)

def next : Call → PmuState
  | .getOrInstall candidate => (s.getOrInstall candidate).2
  | .set config => (s.set config).2
  | .setSkidMargin skidMargin => (s.setSkidMargin skidMargin).2
  | .commitPin key => (s.commitPin key).2

def after (calls : List Call) : PmuState := calls.foldl next s

/-- Another key is installed or pinned. -/
def Conflicts (key : ClockKey) : Prop :=
  (∃ config, s.installed = some config ∧ config.clockKey ≠ key) ∨
    ∃ pinned, s.pinned = some pinned ∧ pinned ≠ key

/-- What is installed has the pinned key. -/
def Agrees : Prop :=
  ∀ key config, s.pinned = some key → s.installed = some config → config.clockKey = key

/-- A written cell stays, and the key of the configuration is the pinned one. -/
structure Leads (s s' : PmuState) : Prop where
  installed : ∀ config, s.installed = some config → s'.installed = some config
  pinned : ∀ key, s.pinned = some key → s'.pinned = some key
  margin : ∀ margin, s.margin = some margin → s'.margin = some margin
  agrees : s.Agrees → s'.Agrees

variable {s} {s' : PmuState} {key : ClockKey} {config : HostConfig}

theorem Leads.refl (s : PmuState) : s.Leads s := ⟨fun _ => id, fun _ => id, fun _ => id, id⟩

theorem clockKey_withRecordedMargin : (s.withRecordedMargin config).clockKey = config.clockKey := by
  unfold withRecordedMargin
  split <;> rfl

/-- Nothing is installed, and the configuration has the pinned key. -/
theorem Leads.install (hnone : s.installed = none) (hkey : ¬ s.Conflicts config.clockKey) :
    s.Leads { s with installed := some config } := by
  refine ⟨fun c hc => absurd hc (by simp [hnone]), fun _ => id, fun _ => id, fun _ k c hk hc => ?_⟩
  obtain rfl := Option.some.inj hc
  by_contra hne
  exact hkey (.inr ⟨k, hk, Ne.symm hne⟩)

theorem check_eq_ok (h : ¬ s.Conflicts key) : s.check key = .ok key := by
  have hinstalled : s.installed.filter (·.clockKey ≠ key) = none := by
    refine Option.filter_eq_none_iff.2 fun c hc hne => h (.inl ⟨c, hc, by simpa using hne⟩)
  have hpinned : s.pinned.filter (· ≠ key) = none := by
    refine Option.filter_eq_none_iff.2 fun p hp hne => h (.inr ⟨p, hp, by simpa using hne⟩)
  rw [check, hinstalled, hpinned]

theorem check_conflict (h : s.Conflicts key) : ∃ e, s.check key = .error e := by
  unfold check
  split
  · exact ⟨_, rfl⟩
  · exact ⟨_, rfl⟩
  · next hinstalled hpinned =>
    rcases h with ⟨c, hc, hne⟩ | ⟨p, hp, hne⟩
    · simp [hc, hne] at hinstalled
    · simp [hp, hne] at hpinned

theorem next_leads (s : PmuState) (call : Call) : s.Leads (s.next call) := by
  cases call with
  | getOrInstall candidate =>
    rw [next]
    unfold getOrInstall
    split
    · exact .refl s
    · exact .refl s
    · next hnone =>
      split_ifs with hpinned
      · exact .refl s
      · refine .install hnone ?_
        rw [clockKey_withRecordedMargin]
        rintro (⟨c, hc, -⟩ | ⟨p, hp, hne⟩)
        · simp [hnone] at hc
        · simp [hp, hne] at hpinned
  | set config =>
    rw [next, set]
    split_ifs with hrefused
    · exact .refl s
    · rw [not_or, Bool.not_eq_true, Option.isSome_eq_false_iff, Option.isNone_iff_eq_none] at hrefused
      refine .install hrefused.1 ?_
      rintro (⟨c, hc, -⟩ | ⟨p, hp, hne⟩)
      · simp [hrefused.1] at hc
      · simp [hp, hne] at hrefused
  | setSkidMargin skidMargin =>
    rw [next, setSkidMargin]
    split_ifs with hrefused
    · exact .refl s
    · refine ⟨fun _ => id, fun _ => id, fun m hm => ?_, id⟩
      simp [hm] at hrefused
  | commitPin key =>
    rw [next, commitPin]
    by_cases hconflict : s.Conflicts key
    · obtain ⟨e, he⟩ := check_conflict hconflict
      rw [he]
      exact .refl s
    · rw [check_eq_ok hconflict]
      refine ⟨fun _ => id, fun k hk => ?_, fun _ => id, fun _ k c hk hc => ?_⟩
      · exact congrArg some (by_contra fun hne => hconflict (.inr ⟨k, hk, Ne.symm hne⟩))
      · obtain rfl := Option.some.inj hk
        exact by_contra fun hne => hconflict (.inl ⟨c, hc, hne⟩)

theorem after_leads (s : PmuState) (calls : List Call) : s.Leads (s.after calls) := by
  induction calls generalizing s with
  | nil => exact .refl s
  | cons call calls ih =>
    have h := s.next_leads call
    have h' := ih (s.next call)
    exact ⟨fun c hc => h'.installed c (h.installed c hc), fun k hk => h'.pinned k (h.pinned k hk),
      fun m hm => h'.margin m (h.margin m hm), fun ha => h'.agrees (h.agrees ha)⟩

/-- **One configuration for the process.**  Along every sequence of sections, a configuration
    stays once it is installed, a pinned key is the key of what is installed then or later,
    an install or a pin that conflicts is refused and changes nothing, and a margin that was
    accepted is that of the configuration that is installed lazily after it. -/
theorem one_configuration (earlier later : List Call) :
    (∀ config, (new.after earlier).installed = some config →
      ((new.after earlier).after later).installed = some config) ∧
    (∀ key config, (new.after earlier).pinned = some key →
      ((new.after earlier).after later).installed = some config → config.clockKey = key) ∧
    (∀ config, (new.after earlier).Conflicts config.clockKey →
      (new.after earlier).set config = (.error config, new.after earlier) ∧
      ((new.after earlier).getOrInstall (some config)).2 = new.after earlier) ∧
    (∀ key, (new.after earlier).Conflicts key →
      ∃ e, (new.after earlier).commitPin key = (.error e, new.after earlier)) ∧
    ∀ margin s' candidate config, (new.after earlier).setSkidMargin margin = (.ok (), s') →
      (s'.after later).installed = none →
      ((s'.after later).getOrInstall candidate).2.installed = some config →
      config.skidMarginOverride = some margin := by
  have hearlier := after_leads new earlier
  have hagrees : (new.after earlier).Agrees := hearlier.agrees nofun
  generalize new.after earlier = s at hagrees ⊢
  have hlater := s.after_leads later
  refine ⟨hlater.installed, fun key config hk => hlater.agrees hagrees key config (hlater.pinned key hk),
    fun config h => ⟨?_, ?_⟩, fun key h => ?_, fun margin s' candidate config haccept hnone hlazy => ?_⟩
  · refine if_pos ?_
    rcases h with ⟨c, hc, -⟩ | ⟨p, hp, hne⟩
    · simp [hc]
    · simp [hp, hne]
  · unfold getOrInstall
    rcases h with ⟨c, hc, -⟩ | ⟨p, hp, hne⟩
    · rw [hc]
    · cases s.installed with
      | some c => rfl
      | none => simp [hp, hne]
  · obtain ⟨e, he⟩ := check_conflict h
    exact ⟨e, by rw [commitPin, he]⟩
  · have hmargin : (s'.after later).margin = some margin := by
      rw [setSkidMargin] at haccept
      split_ifs at haccept with hrefused
      · cases haccept
      · obtain rfl := (Prod.mk.inj haccept).2
        exact (after_leads _ later).margin margin rfl
    unfold getOrInstall at hlazy
    rw [hnone] at hlazy
    cases candidate with
    | none => simp [hnone] at hlazy
    | some candidate =>
      simp only at hlazy
      split_ifs at hlazy
      · simp [hnone] at hlazy
      · obtain rfl := Option.some.inj hlazy
        rw [withRecordedMargin, hmargin]
        rfl

end PmuState

end Reverie.Timer
