/-
  Freezes over whole runs (`freezes_consistent`): the tasks, the freeze table and the frozen
  groups agree, and a freeze only gains members until its cohort has settled or it is
  cancelled before any native effect.
-/
import Reverie.Input.Runs

namespace Reverie.Input

open Table

/-! ## The property -/

/-- What a call can do to a freeze that it finds. -/
inductive FreezeFate (c : Call) (s s' : State) (f : ℕ) (members : Std.TreeSet InputTaskId) :
    Prop where
  | kept (members' : Std.TreeSet InputTaskId) (known : s'.freezes[f]? = some members')
      (grown : ∀ t ∈ members, t ∈ members') : FreezeFate c s s' f members
  | settled (gone : s'.freezes[f]? = none)
      (call : (∃ tasks, c = .settleFencedTasks tasks) ∨
        ∃ cohort, c = .settleFrozenCohort cohort ∧ cohort.id = f)
      (settled : s.Settled members) : FreezeFate c s s' f members
  | cancelled (gone : s'.freezes[f]? = none)
      (call : ∃ cohort, c = .cancelFreezeBeforeEffect cohort ∧ cohort.id = f)
      (untouched : s.Untouched members) : FreezeFate c s s' f members

/-- The freezes of a state are consistent, and every call keeps them so. -/
structure State.FreezeSafe (run : ℕ) (s : State) : Prop where
  frozen : ∀ (t : InputTaskId) owner, s.tasks[t]? = some owner → ∀ f : ℕ,
    f ∈ owner.frozen ↔ ∃ members, s.freezes[f]? = some members ∧ t ∈ members
  member : ∀ (f : ℕ) members, s.freezes[f]? = some members → ∀ t ∈ members, s.tasks[t]?.isSome
  group : ∀ (g : ThreadGroupLifetime) freezes, s.frozenGroups[g]? = some freezes →
    ∀ f ∈ freezes, s.freezes[f]?.isSome
  /-- a frozen task holds no grant, and none is granted to it -/
  held : ∀ (t : InputTaskId) owner, s.tasks[t]? = some owner → owner.frozen.isEmpty = false →
    owner.grant = none ∧ ∀ kind g s', Input.grant t kind s ≠ .ok g s'
  /-- a new task, born of a clone or of an exec, joins the freezes of its group -/
  joins : ∀ (c : Call) (t : InputTaskId) new, s.tasks[t]? = none →
    (c.after run s).tasks[t]? = some new →
    ∀ f ∈ s.frozenGroups.getD new.registration.group ∅, f ∈ new.frozen
  /-- a child joins the freezes of its parent -/
  inherits : ∀ (parent : InputTaskId) owner tid pid memoryShared filesShared observer
    (t : InputTaskId) new, s.tasks[parent]? = some owner → s.tasks[t]? = none →
    ((Call.registerChild parent tid pid memoryShared filesShared observer).after run s).tasks[t]? =
      some new →
    ∀ f ∈ owner.frozen, f ∈ new.frozen
  fate : ∀ (c : Call) (f : ℕ) members, s.freezes[f]? = some members →
    FreezeFate c s (c.after run s) f members
  no_panic : ∀ (c : Call) s', c.exec run s ≠ .error .panic s'

/-! ## Joining -/

/-- What quiet changes do to frozen groups and new tasks. -/
structure State.Joins (s s' : State) : Prop where
  groups : ∀ g f, f ∈ s.frozenGroups.getD g ∅ → f ∈ s'.frozenGroups.getD g ∅
  tasks : ∀ (t : InputTaskId) new, s.tasks[t]? = none → s'.tasks[t]? = some new →
    ∀ f ∈ s.frozenGroups.getD new.registration.group ∅, f ∈ new.frozen

variable {s s' s'' : State} {f : ℕ} {t : InputTaskId} {new : Task}

theorem Quiet.groups (c : Quiet s s') {g : ThreadGroupLifetime}
    (h : f ∈ s.frozenGroups.getD g ∅) : f ∈ s'.frozenGroups.getD g ∅ := by
  cases c with
  | freezeGroup =>
    grind [mem_insert]
  | _ => exact h

/-- The task keeps its freezes, or it is new and joins those of its group. -/
def State.Freezing (s : State) (t : InputTaskId) (new : Task) : Prop :=
  (∃ old, s.tasks[t]? = some old ∧ new.registration.group = old.registration.group ∧
    ∀ f ∈ old.frozen, f ∈ new.frozen) ∨
  (s.tasks[t]? = none ∧ ∀ f ∈ s.frozenGroups.getD new.registration.group ∅, f ∈ new.frozen)

theorem State.Registers.frozen {registration : InputTaskRegistration}
    {freezes : Std.TreeSet ℕ} {joined : Std.TreeMap ℕ (Std.TreeSet InputTaskId)}
    (r : s.Registers registration freezes joined)
    (h : (s.published registration freezes joined).tasks[t]? = some new) : s.Freezing t new := by
  rw [State.published, getElem?_insert] at h
  split_ifs at h with ht
  · cases h
    exact .inr ⟨ht ▸ r.new, r.group⟩
  · exact .inl ⟨new, h, rfl, fun _ => id⟩

/-- A quiet change takes no freeze from a task, and a new task joins the freezes
    of its group. -/
theorem Quiet.frozen (c : Quiet s s') (h : s'.tasks[t]? = some new) : s.Freezing t new := by
  unfold State.Freezing
  cases c with
  | task _ follows =>
    have hreg := follows.registration
    have hfrozen := follows.frozen
    grind
  | grant =>
    grind
  | publish registers => exact registers.frozen h
  | freeze frozen =>
    have hj := getElem?_updateAll nodup_toList frozen
    grind [mem_insert]
  | _ => exact .inl ⟨new, h, rfl, fun _ => id⟩

theorem State.Joins.trans (h : s.Joins s')
    (groups : ∀ g f, f ∈ s'.frozenGroups.getD g ∅ → f ∈ s''.frozenGroups.getD g ∅)
    (tasks : ∀ (t : InputTaskId) new, s''.tasks[t]? = some new → s'.Freezing t new) :
    s.Joins s'' := by
  refine ⟨fun g f hf => groups g f (h.groups g f hf), fun t new hnone hnew f hf => ?_⟩
  rcases tasks t new hnew with ⟨old, hold, hgroup, hsub⟩ | ⟨_, hjoin⟩
  · exact hsub f (h.tasks t old hnone hold f (by rwa [← hgroup]))
  · exact hjoin f (h.groups _ f hf)

theorem State.Joins.quiet (h : s.Joins s') (c : Quiet s' s'') : s.Joins s'' :=
  h.trans (fun _ _ => c.groups) fun _ _ => c.frozen

theorem State.Joins.replace {former : InputTaskId} (h : s.Joins s')
    (c : Replace former s' s'') : s.Joins s'' := by
  cases c with
  | replace registers => exact h.trans (fun _ _ => id) fun _ _ => registers.frozen

theorem registerChild_inherits {run : ℕ} (hi : Invariant s) {parent : InputTaskId}
    {owner : Task} {tid pid : ℤ} {memoryShared filesShared : Option Bool}
    {observer : InputFilesEvent → Option Reason} (ho : s.tasks[parent]? = some owner) :
    Keeps (fun s' => Invariant s' ∧ ∀ (t : InputTaskId) new, s.tasks[t]? = none →
        s'.tasks[t]? = some new → ∀ f ∈ owner.frozen, f ∈ new.frozen)
      (backendRegisterChild run parent tid pid memoryShared filesShared observer) s := by
  refine backendRegisterChild_keeps ⟨And.left, ?_⟩ ⟨hi, by simp_all⟩ ?_
  · rintro s' s'' ⟨hi', hnew⟩ c
    refine ⟨hi'.quiet c.quiet, fun t new hnone ht f hf => ?_⟩
    rcases c.quiet.frozen ht with ⟨old, hold, _, hsub⟩ | ⟨hnone', _⟩
    · exact hsub f (hnew t old hnone hold f hf)
    · simpa [hnone'] using c.tasks t (by simp [ht])
  · rintro parentOwner s' registration freezes joined ho' ⟨hi', _⟩ htasks registers births hsub
    obtain rfl : owner = parentOwner := by simpa [ho] using ho'
    refine ⟨hi'.quiet (.publish registers births), fun t' new hnone ht' f hf => ?_⟩
    rw [State.published, htasks, getElem?_insert] at ht'
    split_ifs at ht'
    · cases ht'
      exact hsub f hf
    · rw [hnone] at ht'
      cases ht'

/-! ## Leaving -/

/-- What settling cohorts does to the freezes that were there before. -/
structure State.Retires (s s' : State) : Prop where
  freezes : ∀ (f : ℕ) members, s.freezes[f]? = some members →
    s'.freezes[f]? = some members ∨ (s'.freezes[f]? = none ∧ s.Settled members)
  tasks : ∀ (t : InputTaskId), s'.tasks[t]?.isSome → s.tasks[t]?.isSome
  effects : ∀ (t : InputTaskId) owner, s.tasks[t]? = some owner → ∃ owner',
    s'.tasks[t]? = some owner' ∧ owner'.nativeEffectsComplete = owner.nativeEffectsComplete
  accesses : ∀ (n : ℕ) access, s.accesses[n]? = some access →
    s'.accesses[n]? = some access ∨ access.nativeComplete = true

theorem State.Retires.refl (s : State) : s.Retires s :=
  ⟨fun _ _ h => .inl h, fun _ => id, fun _ owner h => ⟨owner, h, rfl⟩, fun _ _ h => .inl h⟩

theorem State.Retires.settled (h : s.Retires s')
    {members : Std.TreeSet InputTaskId} (hs : s'.Settled members) : s.Settled members := by
  refine ⟨fun t ht owner ho => ?_, fun n access ha hm => ?_⟩
  · obtain ⟨owner', ho', he⟩ := h.effects t owner ho
    rw [← he]
    exact hs.effects t ht owner' ho'
  · rcases h.accesses n access ha with ha' | hc
    · exact hs.accesses n access ha' hm
    · exact hc

theorem State.Retires.settle (h : s.Retires s') (c : Settle s' s'') : s.Retires s'' := by
  have hset := @h.settled
  obtain ⟨hf, ht, he, ha⟩ := h
  cases c with
  | @settle f members tasks known thaw settled =>
    have htasks := getElem?_updateAll nodup_toList thaw
    have hacc := settled.accesses
    constructor <;> simp only [State.thawed, getElem?_erase]
    · intro g ms hg
      rcases hf g ms hg with hg' | hg'
      · by_cases hfg : f = g
        · subst hfg
          obtain rfl : members = ms := by simpa [known] using hg'
          simp [hset settled]
        · simp [hfg, hg']
      · simp [hg']
    · grind
    · grind
    · intro n access hn
      rcases ha n access hn with hn' | hc
      · by_cases hm : access.task ∈ members
        · exact .inr (hacc n access hn' hm)
        · rw [Std.TreeSet.mem_iff_contains] at hm
          simp [hn', hm]
      · exact .inr hc

theorem Cancel.fate (c : Cancel s s') (hf : s'.freezes = s.freezes.erase f) :
    (∀ t : InputTaskId, s'.tasks[t]?.isSome → s.tasks[t]?.isSome) ∧
    ∀ members, s.freezes[f]? = some members → s.Untouched members := by
  cases c with
  | @cancel g members tasks known thaw untouched =>
    have htasks := getElem?_updateAll nodup_toList thaw
    have hgf : g = f := by
      by_contra hne
      have := congrArg (fun m => m[g]?) hf
      simp [State.thawed, getElem?_erase, Ne.symm hne, known] at this
    subst hgf
    refine ⟨fun t ht => ?_, fun ms hms => ?_⟩
    · simp only [State.thawed] at ht
      grind
    · obtain rfl : members = ms := by simpa [known] using hms
      exact untouched

/-! ## Every call -/

/-- What a call does to the freezes. -/
structure State.FreezeStep (c : Call) (s s' : State) : Prop where
  joins : ∀ (t : InputTaskId) new, s.tasks[t]? = none → s'.tasks[t]? = some new →
    ∀ f ∈ s.frozenGroups.getD new.registration.group ∅, f ∈ new.frozen
  fate : ∀ (f : ℕ) members, s.freezes[f]? = some members → FreezeFate c s s' f members

section
variable {run : ℕ} {s s' : State}

/-- No task has been registered, and the freezes are as they were. -/
structure State.Idle (s s' : State) : Prop where
  invariant : Invariant s'
  tasks : ∀ t : InputTaskId, s'.tasks[t]?.isSome → s.tasks[t]?.isSome
  freezes : s'.freezes = s.freezes

variable {c : Call} {t : InputTaskId}

theorem State.Idle.freezeStep (h : s.Idle s') : State.FreezeStep c s s' :=
  ⟨fun t new hnone hnew => by simpa [hnone] using h.tasks t (by simp [hnew]),
    fun f members hm => .kept members (by rw [h.freezes, hm]) fun _ => id⟩

theorem State.Idle.stable (s : State) : Stable Calm s.Idle :=
  ⟨State.Idle.invariant, fun h c => ⟨h.invariant.quiet c.quiet, fun t ht => h.tasks t (c.tasks t ht),
    c.freezes.trans h.freezes⟩⟩

theorem State.Idle.readmission {s'' : State} {chosen : ℕ → Access → Prop} {g : ℕ}
    (h : s.Idle s') (c : Readmission chosen t g s' s'') : s.Idle s'' := by
  have hi := h.invariant.readmission c
  cases c with
  | readmission => exact ⟨hi, h.tasks, h.freezes⟩

theorem State.FreezeStep.of_grows (hg : s.Grows s') (hj : s.Joins s') :
    State.FreezeStep c s s' := by
  refine ⟨hj.tasks, fun f members hm => ?_⟩
  obtain ⟨members', hm', hsub⟩ := hg.freeze f members hm
  exact .kept members' hm' hsub

theorem State.FreezeStep.thawed {f : ℕ}
    (tasks : ∀ t : InputTaskId, s'.tasks[t]?.isSome → s.tasks[t]?.isSome)
    (freezes : s'.freezes = s.freezes.erase f)
    (fate : ∀ members, s.freezes[f]? = some members → s'.freezes[f]? = none →
      FreezeFate c s s' f members) : State.FreezeStep c s s' := by
  refine ⟨fun t new hnone hnew => by simpa [hnone] using tasks t (by simp [hnew]),
    fun g members hm => ?_⟩
  by_cases hfg : f = g
  · subst hfg
    exact fate members hm (by rw [freezes, getElem?_erase, if_pos rfl])
  · exact .kept members (by rw [freezes, getElem?_erase, if_neg hfg, hm]) fun _ => id

theorem Call.freezeStep_page (hi : Invariant s)
    (hc : c.isQuiet = false) (hsettle : ∀ tasks, c ≠ .settleFencedTasks tasks)
    (hfrozen : ∀ cohort, c ≠ .settleFrozenCohort cohort)
    (hcancel : ∀ cohort, c ≠ .cancelFreezeBeforeEffect cohort)
    (hexec : ∀ displaced former observer, c ≠ .execReplacement displaced former observer) :
    State.FreezeStep c s (c.after run s) := by
  have hs : s.Idle s := ⟨hi, fun _ => id, rfl⟩
  suffices h : Keeps s.Idle (c.exec run) s from h.after.freezeStep
  cases c with
  | setLayout =>
    refine backendSetLayout_keeps hs hi fun owner place _ hv hr => ?_
    exact ⟨hi.layout hr hv, fun _ => id, rfl⟩
  | verifiedImage =>
    refine backendVerifiedImage_keeps hs fun call image hc hph hw _ => ?_
    exact ⟨hi.verified hc hph hw, fun _ => id, rfl⟩
  | issued =>
    have hist := fun groups regions (marks : s.Marks s.filesPossiblyShared groups regions) =>
      (State.Idle.stable s).step hs (.history s marks)
    refine backendIssued_keeps hs hi hist fun groups regions call marks hc hst hph _ => ?_
    exact ⟨(hist groups regions marks).invariant.issued hc hph, fun _ => id, rfl⟩
  | unknownOutcome =>
    refine backendUnknownOutcome_keeps (State.Idle.stable s) hs
      fun s' call owner place h _ hc ho hr => ?_
    exact ⟨h.invariant.finished hc ho hr _, h.tasks, h.freezes⟩
  | readmitAccess => exact readmitAccess_keeps hs fun s' => hs.readmission
  | readmitInjection => exact readmitInjection_keeps hs fun s' => hs.readmission
  | settleFencedTasks tasks => exact absurd rfl (hsettle tasks)
  | settleFrozenCohort cohort => exact absurd rfl (hfrozen cohort)
  | cancelFreezeBeforeEffect cohort => exact absurd rfl (hcancel cohort)
  | execReplacement displaced former observer => exact absurd rfl (hexec displaced former observer)
  | _ => cases hc

theorem Call.freezeStep (hi : Invariant s) (c : Call) : State.FreezeStep c s (c.after run s) := by
  have hP : Stable Quiet fun s' => Invariant s' ∧ s.Grows s' ∧ s.Joins s' :=
    ⟨And.left, fun ⟨hi, hg, hj⟩ c => ⟨hi.quiet c, hg.trans (c.grows hi.fresh), hj.quiet c⟩⟩
  have hs : Invariant s ∧ s.Grows s ∧ s.Joins s := ⟨hi, .refl s, fun _ _ => id, by simp_all⟩
  by_cases hc : c.isQuiet = true
  · have h : Keeps _ (c.exec run) s := keeps_quiet hP hs hc
    obtain ⟨_, hg, hj⟩ := h.after
    exact .of_grows hg hj
  · cases c with
    | execReplacement displaced former observer =>
      have h : Keeps _ ((Call.execReplacement displaced former observer).exec run) s :=
        (backendExecReplacement_keeps hP.calm hs fun _ _ ⟨hi, hg, hj⟩ _ c =>
          ⟨hi.replace c, hg.trans c.grows, hj.replace c⟩).ignore
      obtain ⟨_, hg, hj⟩ := h.after
      exact .of_grows hg hj
    | settleFencedTasks tasks =>
      have hP : Stable Settle fun s' => Invariant s' ∧ s.Retires s' :=
        ⟨And.left, fun ⟨hi, hr⟩ c => ⟨hi.change (.settle c), hr.settle c⟩⟩
      have h : Keeps _ ((Call.settleFencedTasks tasks).exec run) s :=
        settleFencedTasks_keeps ⟨hi, .refl s⟩ hP
      obtain ⟨_, hr⟩ := h.after
      refine ⟨fun t new hnone hnew => by simpa [hnone] using hr.tasks t (by simp [hnew]),
        fun f members hm => ?_⟩
      rcases hr.freezes f members hm with hk | ⟨hgone, hset⟩
      · exact .kept members hk fun _ => id
      · exact .settled hgone (.inl ⟨tasks, rfl⟩) hset
    | settleFrozenCohort cohort =>
      suffices h : Keeps _ ((Call.settleFrozenCohort cohort).exec run) s from h.after
      refine settleFrozenCohort_keeps (State.Idle.freezeStep ⟨hi, fun _ => id, rfl⟩) hi fun s' c hf => ?_
      have hr := (State.Retires.refl s).settle c
      refine .thawed hr.tasks hf fun members hm hgone => ?_
      rcases hr.freezes _ members hm with hk | ⟨_, hset⟩
      · simp [hgone] at hk
      · exact .settled hgone (.inr ⟨cohort, rfl, rfl⟩) hset
    | cancelFreezeBeforeEffect cohort =>
      suffices h : Keeps _ ((Call.cancelFreezeBeforeEffect cohort).exec run) s from h.after
      refine cancelFreezeBeforeEffect_keeps (State.Idle.freezeStep ⟨hi, fun _ => id, rfl⟩) hi
        fun s' c hf => ?_
      obtain ⟨ht, hun⟩ := c.fate hf
      exact .thawed ht hf fun members hm hgone =>
        .cancelled hgone ⟨cohort, rfl, rfl⟩ (hun members hm)
    | setLayout | verifiedImage | issued | unknownOutcome | readmitAccess | readmitInjection =>
      exact freezeStep_page hi rfl (by simp) (by simp) (by simp) (by simp)
    | _ => exact absurd rfl hc

theorem grant_refused {owner : Task} (ho : s.tasks[t]? = some owner)
    (hf : owner.frozen.isEmpty = false) (kind : InputGrantKind) (g : ℕ) :
    Input.grant t kind s ≠ .ok g s' := by
  intro hg
  have h : Does (fun _ => True) (Input.grant t kind) s fun _ _ => False := by
    refine live_then trivial fun owner' hl => refuse_then trivial fun hn => ?_
    obtain rfl : owner = owner' := by simpa [ho] using hl.task
    simp [hf] at hn
  exact Ensures.of_ok h hg

end

/-- **Freezes are consistent in every reachable state**, and every call keeps
    them so. -/
theorem freezes_consistent {run : ℕ} {s : State} (h : Run run anyCall .init s) :
    s.FreezeSafe run := by
  have hi := h.invariant Invariant.init
  refine ⟨hi.freezes.frozen, hi.freezes.member, hi.freezes.group,
    fun t owner ho hf => ⟨?_, fun kind g s' => grant_refused ho hf kind g⟩,
    fun c => (c.freezeStep hi).joins, ?_, fun c => (c.freezeStep hi).fate,
    fun c => (c.keeps_invariant hi).no_panic⟩
  · by_contra hg
    rw [hi.freezes.grant t owner ho (Option.isSome_iff_ne_none.2 hg)] at hf
    cases hf
  · intro parent owner tid pid memoryShared filesShared observer t new ho hnone hnew
    have hkeeps : Keeps _ ((Call.registerChild parent tid pid memoryShared filesShared observer).exec
      run) s := (registerChild_inherits hi ho).ignore
    exact hkeeps.after.2 t new hnone hnew

namespace Late

/-- A group is frozen, and a thread is cloned into it afterwards. -/
def calls : List Call :=
  [.registerRoot 5 5, .freezeGroup ⟨0, 1, 5⟩ true,
    .registerChild ⟨0, 1, 5⟩ 6 5 (some true) (some true) fun _ => none]

end Late

/-- The late thread is a member of the freeze that its group is under. -/
theorem freezes_consistent_late :
    (afterAll 0 .init Late.calls).FreezeSafe 0 ∧
    ((afterAll 0 .init Late.calls).freezes.toList.map fun entry => entry.2.toList) =
      [[⟨0, 1, 5⟩, ⟨0, 6, 6⟩]] :=
  ⟨freezes_consistent (run_afterAll .init Late.calls), rfl⟩

end Reverie.Input
