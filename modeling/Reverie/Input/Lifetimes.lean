/-
  The lifetimes of grants, of what is made under them, and of accesses (`lifetimes_hold`).
  `lifetimes_fail`: `backend_issued` takes a call whose grant has been replaced.
-/
import Reverie.Input.Freezes

namespace Reverie.Input

open Table Option

/-! ## The property -/

/-- The scope was made under the grant. -/
def InputOperationScope.Under (scope : InputOperationScope) (t : InputTaskId) (g : ℕ) : Prop :=
  scope.task = t ∧ scope.grant = g

/-- The injection was prepared under the grant. -/
def State.PreparedUnder (s : State) (id : PhysicalInjectionId) (t : InputTaskId) (g : ℕ) : Prop :=
  ∃ call, s.injections[id]? = some call ∧ call.task = t ∧ call.grant = g

/-- The calls that start or end work of a grant with a scope or an injection made under it. -/
inductive Uses (s : State) (t : InputTaskId) (g : ℕ) : Call → Prop where
  | finish {scope} (under : scope.Under t g) : Uses s t g (.finishOperation scope)
  | prepare {scope} (description) (under : scope.Under t g) :
      Uses s t g (.prepareInjection scope description)
  | begin {scope} (receipt image) (under : scope.Under t g) :
      Uses s t g (.beginPreparation receipt scope image)
  | beginWith {receipt} (scope image) (under : s.PreparedUnder receipt t g) :
      Uses s t g (.beginPreparation receipt scope image)
  | bind {receipt} (task number args) (under : s.PreparedUnder receipt t g) :
      Uses s t g (.bindInjection receipt task number args)
  | stopped {id} (under : s.PreparedUnder id t g) : Uses s t g (.preparedStopped id)

/-- What becomes of an access in a call: it stays, or it is transient and is readmitted under
    a current grant after its native completion, or leaves with a settled cohort. -/
inductive AccessFate (c : Call) (s s' : State) (n : ℕ) (access : Access) : Prop where
  | kept (access' : Access) (known : s'.accesses[n]? = some access')
      (task : access'.task = access.task) (declaration : access'.declaration = access.declaration)
  | readmitted (transient : access.declaration.lifetime = .transient)
      (complete : access.nativeComplete = true) (t : InputTaskId) (g : ℕ) (owner : Task)
      (current : s.Current t g owner)
      (call : (∃ lease, c = .readmitAccess lease t g ∧ lease.id = n ∧ access.task = t) ∨
        ∃ id, c = .readmitInjection id t g ∧ access.physical = some id)
  | settled (transient : access.declaration.lifetime = .transient) (f : ℕ)
      (members : Std.TreeSet InputTaskId) (cohort : s.freezes[f]? = some members)
      (member : access.task ∈ members) (ended : s.Settled members)
      (call : (∃ tasks, c = .settleFencedTasks tasks) ∨ ∃ cohort, c = .settleFrozenCohort cohort)

/-- Lifetimes over all runs, where `uses s t g` are the calls that use a grant. -/
structure Lifetimes (run : ℕ) (uses : State → InputTaskId → ℕ → Call → Prop) : Prop where
  /-- a later grant has a larger generation -/
  grants : ∀ s, Run run anyCall .init s → ∀ t kind g s₁, grant t kind s = .ok g s₁ →
    ∀ s₂, Run run anyCall s₁ s₂ → ∀ t' kind' g' s₃, grant t' kind' s₂ = .ok g' s₃ → g < g'
  /-- a grant that has been made and is no longer current is never of use again -/
  stale : ∀ s, Run run anyCall .init s → ∀ t g, g ≤ s.next → (∀ owner, ¬ s.Current t g owner) →
    ∀ s', Run run anyCall s s' → ∀ c, uses s' t g c → ∀ s'', c.exec run s' ≠ .ok () s''
  issued : ∀ s, Run run anyCall .init s → ∀ (id id' : PhysicalInjectionId) call call',
    s.injections[id]? = some call → s.injections[id']? = some call' → call.state = .issued →
    call'.state = .issued → call.task = call'.task → id = id'
  accesses : ∀ s, Run run anyCall .init s → ∀ (c : Call) (n : ℕ) access,
    s.accesses[n]? = some access → AccessFate c s (c.after run s) n access

section
variable {s s' : State} {t : InputTaskId} {g : ℕ} {run : ℕ} {new : Task} {c : Call}

/-! ## Grants -/

theorem Change.next_le (c : Change s s') : s.next ≤ s'.next := by
  cases c with
  | quiet c => cases c <;> first | exact le_rfl | exact Nat.le_succ _
  | settle c => cases c; exact le_rfl
  | cancel c => cases c; exact le_rfl
  | readmission c => cases c; exact le_rfl
  | _ => exact le_rfl

theorem Invariant.current_thawed (hi : Invariant s) (h : s'.Current t g new) {f : ℕ}
    {members : Std.TreeSet InputTaskId} {tasks : Std.TreeMap InputTaskId Task}
    (thaw : updateAll s.tasks (fun owner =>
      { owner with frozen := owner.frozen.erase f }) members.toList = some tasks)
    (hf : s'.fatal = s.fatal) (ht : s'.tasks = tasks) : ∃ old, s.Current t g old := by
  have htask := h.task
  rw [ht, getElem?_updateAll nodup_toList thaw] at htask
  split_ifs at htask
  · obtain ⟨old, hold, rfl⟩ := map_eq_some_iff.1 htask
    have hgrant : old.grant.map (·.1) = some g := h.grant
    refine ⟨old, hf ▸ h.running, hold, h.terminal, h.effects, ?_, hgrant⟩
    refine hi.freezes.grant t old hold ?_
    rw [← isSome_map, hgrant]
    rfl
  · exact ⟨new, hf ▸ h.running, htask, h.terminal, h.effects, h.thawed, h.grant⟩

theorem Change.current (hi : Invariant s) (c : Change s s') (hg : g ≤ s.next)
    (h : s'.Current t g new) : ∃ old, s.Current t g old := by
  obtain ⟨hfatal, htask, hterminal, heffects, hthawed, hgrant⟩ := id h
  have hsame : s.fatal = none → s.tasks[t]? = some new → ∃ old, s.Current t g old :=
    fun hf ht => ⟨new, hf, ht, hterminal, heffects, hthawed, hgrant⟩
  cases c with
  | quiet c =>
    cases c with
    | grant kind ho =>
      rw [getElem?_insert] at htask
      split_ifs at htask
      · cases htask
        cases hgrant
        exact absurd hg (Nat.not_succ_le_self _)
      · exact hsame hfatal htask
    | @task t' old new' ho follows =>
      rw [getElem?_insert] at htask
      split_ifs at htask with heq
      · cases htask
        have hsome : new.grant.isSome := by
          rw [← isSome_map, hgrant]
          rfl
        refine ⟨old, hfatal, heq ▸ ho, Bool.eq_false_of_not_eq_true fun hold => ?_,
          Bool.eq_false_of_not_eq_true fun hold => ?_, follows.frozen ▸ hthawed,
          follows.grant hsome ▸ hgrant⟩
        · exact Bool.false_ne_true (hterminal.symm.trans (follows.terminal hold))
        · exact Bool.false_ne_true (heffects.symm.trans (follows.effects hold))
      · exact hsame hfatal htask
    | publish =>
      rw [State.published, getElem?_insert] at htask
      split_ifs at htask
      · cases htask
        cases hgrant
      · exact hsame hfatal htask
    | freeze frozen =>
      rw [getElem?_updateAll nodup_toList frozen] at htask
      split_ifs at htask
      · obtain ⟨old, -, rfl⟩ := map_eq_some_iff.1 htask
        cases hgrant
      · exact hsame hfatal htask
    | fail => cases hfatal
    | _ => exact hsame hfatal htask
  | settle c =>
    cases c with
    | settle _ thaw _ => exact hi.current_thawed h thaw rfl rfl
  | cancel c =>
    cases c with
    | cancel _ thaw _ => exact hi.current_thawed h thaw rfl rfl
  | readmission c =>
    cases c
    exact hsame hfatal htask
  | _ => exact hsame hfatal htask

/-! ## Issued calls -/

/-- A task has at most one call issued. -/
def State.OneIssued (s : State) : Prop :=
  ∀ (id id' : PhysicalInjectionId) call call', s.injections[id]? = some call →
    s.injections[id']? = some call' → call.state = .issued → call'.state = .issued →
    call.task = call'.task → id = id'

/-- A call that is issued now was issued before, or no other call of its task is. -/
theorem State.OneIssued.insert (h : s.OneIssued) {id : PhysicalInjectionId} {call : Injection}
    (hs' : s'.injections = s.injections.insert id call)
    (hc : call.state = .issued → s.NoneIssued id call.task ∨ ∃ old, s.injections[id]? = some old ∧
      old.state = .issued ∧ old.task = call.task) : s'.OneIssued := by
  have hother : ∀ {id' : PhysicalInjectionId} {call'}, s.injections[id']? = some call' →
      call.state = .issued → call'.state = .issued → call'.task = call.task → id' = id := by
    intro id' call' hcall' hst hst' htask
    rcases hc hst with hnone | ⟨old, hold, hold', heq⟩
    · by_contra hne
      exact hnone id' call' hcall' hne htask hst'
    · exact h id' id call' old hcall' hold hst' hold' (htask.trans heq.symm)
  intro i j a b ha hb hsa hsb htask
  rw [hs', getElem?_insert] at ha hb
  split_ifs at ha hb with hi hj hj
  · exact hi.symm.trans hj
  · cases ha
    exact hi ▸ (hother hb hsa hsb htask.symm).symm
  · cases hb
    exact hj ▸ hother ha hsb hsa htask
  · exact h i j a b ha hb hsa hsb htask

theorem State.OneIssued.change (h : s.OneIssued) (c : Change s s') : s'.OneIssued := by
  cases c with
  | quiet c =>
    cases c with
    | addCall _ _ _ state => exact h.insert rfl fun hst => by rw [state] at hst; cases hst
    | beginPreparation _ known => exact h.insert rfl fun hst => Or.inr ⟨_, known, hst, rfl⟩
    | preparedStopped known => exact h.insert rfl fun hst => Or.inr ⟨_, known, hst, rfl⟩
    | initializing known => exact h.insert rfl fun hst => Or.inr ⟨_, known, hst, rfl⟩
    | normalizing known => exact h.insert rfl fun hst => Or.inr ⟨_, known, hst, rfl⟩
    | finish _ _ _ allowed =>
      refine h.insert rfl fun hst => ?_
      cases hst
      rcases allowed with ⟨-, -⟩ | ⟨-, hsettled⟩
      cases hsettled
    | _ => exact h
  | verified known => exact h.insert rfl fun hst => Or.inr ⟨_, known, hst, rfl⟩
  | issue _ _ _ alone => exact h.insert rfl fun _ => Or.inl alone
  | settleUnchecked => exact h.insert rfl fun hst => by cases hst
  | settle c => cases c; exact h
  | cancel c => cases c; exact h
  | readmission c => cases c; exact h
  | layout => exact h

/-! ## Runs -/

/-- What holds since `start`: generations are not taken back, no grant that had been made
    becomes current again, and no task has two issued calls. -/
structure State.Lasting (start s : State) : Prop where
  invariant : Invariant s
  next : start.next ≤ s.next
  current : ∀ t g owner, g ≤ start.next → s.Current t g owner → ∃ old, start.Current t g old
  issued : s.OneIssued

theorem State.Lasting.change {start : State} (h : start.Lasting s) (c : Change s s') :
    start.Lasting s' := by
  refine ⟨h.invariant.change c, h.next.trans c.next_le, fun t g owner hg hcur => ?_, h.issued.change c⟩
  obtain ⟨old, hold⟩ := c.current h.invariant (hg.trans h.next) hcur
  exact h.current t g old hg hold

theorem State.Lasting.replace {start : State} {former : InputTaskId} (h : start.Lasting s)
    (r : Replace former s s') : start.Lasting s' := by
  have hi := h.invariant.replace r
  cases r with
  | replace =>
    refine ⟨hi, h.next, fun t g owner hg hcur => ?_, h.issued⟩
    obtain ⟨hfatal, htask, hterminal, heffects, hthawed, hgrant⟩ := hcur
    rw [State.published, getElem?_insert] at htask
    split_ifs at htask
    · cases htask
      cases hgrant
    · exact h.current t g owner hg ⟨hfatal, htask, hterminal, heffects, hthawed, hgrant⟩

theorem Run.lasting {start : State} (h : Run run anyCall s s') (hs : start.Lasting s) :
    start.Lasting s' := by
  induction h with
  | refl => exact hs
  | tail _ hstep ih =>
    obtain ⟨c, -, rfl⟩ := hstep
    exact (c.keeps ⟨State.Lasting.invariant, State.Lasting.change⟩ ih
      fun _ _ _ _ _ _ h _ r => h.replace r).after

theorem grant_does {kind : InputGrantKind} :
    Does (fun _ => True) (grant t kind) s fun g s' => g = s.next + 1 ∧ s'.next = s.next + 1 := by
  refine live_then trivial fun owner hl => refuse_then trivial fun hf => next_then trivial ?_
  have hkeep := updateTask_keeps (P := fun s' => s'.next = s.next + 1)
    (s := { s with next := s.next + 1 })
    (f := fun owner => { owner with grant := some (s.next + 1, kind, false) }) hl.task rfl
  exact Ensures.bind (Does.weaken (fun _ _ => trivial) hkeep) fun _ _ h => ⟨rfl, h⟩

/-! ## Refusals -/

theorem Uses.refused (hi : Invariant s) (hcur : ∀ owner, ¬ s.Current t g owner) (h : Uses s t g c) :
    Does (fun _ => True) (c.exec run) s fun _ _ => False := by
  have hno : ∀ {t' g' owner}, s.Live t' owner → owner.grant.map (·.1) = some g' →
      owner.frozen.isEmpty = true → t' = t → g' = g → False := by
    rintro _ _ owner hl hg hf rfl rfl
    exact hcur owner ⟨hl.running, hl.task, hl.terminal, hl.effects, hf, hg⟩
  cases h with
  | finish under =>
    exact validateScope_then trivial fun owner hl hg hf => (hno hl hg hf under.1 under.2).elim
  | prepare description under =>
    refine Ensures.bind (Q := fun _ _ => False) ?_ fun _ _ h => h
    exact validateScope_then trivial fun owner hl hg hf => (hno hl hg hf under.1 under.2).elim
  | begin receipt image under =>
    exact validateScope_then trivial fun owner hl hg hf => (hno hl hg hf under.1 under.2).elim
  | beginWith scope image under =>
    obtain ⟨call, hc, htask, hgrant⟩ := under
    refine validateScope_then trivial fun owner hl hg hf => live_then trivial fun owner' hl' => ?_
    obtain ⟨place, hr⟩ := isSome_iff_exists.1 (hi.owned.region _ owner' hl'.task)
    refine get_then (index_then hr (refuse_then trivial fun _ => refuse_then trivial fun _ => ?_))
    refine orUnavailable_then trivial fun call' hc' => refuse_then trivial fun hok => ?_
    rw [hc] at hc'
    cases hc'
    simp only [not_or, not_not] at hok
    exact (hno hl hg hf (hok.1.symm.trans htask) (hok.2.2.1.symm.trans hgrant)).elim
  | bind task number args under =>
    obtain ⟨call, hc, htask, hgrant⟩ := under
    refine get_then (orUnavailable_then trivial fun call' hc' => live_then trivial fun owner hl => ?_)
    rw [hc] at hc'
    cases hc'
    refine (refuse_does (P := fun _ => True) trivial).mono ?_ fun _ _ h => h
    rintro _ _ ⟨rfl, hok⟩
    simp only [not_or, not_not, Bool.not_eq_true', Bool.not_eq_false] at hok
    exact hno hl hok.2.2.2.2.2.1 hok.2.2.2.2.2.2 (hok.2.1.symm.trans htask) hgrant
  | stopped under =>
    obtain ⟨call, hc, htask, hgrant⟩ := under
    refine Ensures.bind (Q := fun _ _ => False) ?_ fun _ _ h => h
    refine get_then (orUnavailable_then trivial fun call' hc' => live_then trivial fun owner hl => ?_)
    rw [hc] at hc'
    cases hc'
    refine refuse_then trivial fun hok => ?_
    simp only [not_or, not_not, Bool.not_eq_true', Bool.not_eq_false] at hok
    exact (hno hl hok.2.1 hok.2.2 htask hgrant).elim

/-! ## Accesses -/

/-- No declared access is lost. -/
def State.Retains (s s' : State) : Prop :=
  ∀ (n : ℕ) access, s.accesses[n]? = some access →
    ∃ access', s'.accesses[n]? = some access' ∧ access'.task = access.task ∧
      access'.declaration = access.declaration

/-- The identities of accesses are generations. -/
def State.Leased (s : State) : Prop :=
  ∀ (n : ℕ) access, s.accesses[n]? = some access → n ≤ s.next

theorem State.Retains.of_moves (h : ∀ n : ℕ, AccessMove s.accesses[n]? s'.accesses[n]?) :
    s.Retains s' := by
  intro n access ha
  have hmove := h n
  rw [ha] at hmove
  generalize hn : s'.accesses[n]? = access' at hmove
  cases hmove with
  | keep => exact ⟨access, rfl, rfl, rfl⟩
  | touch _ a' task declaration => exact ⟨a', rfl, task, declaration⟩

theorem finished_retains {id : PhysicalInjectionId} {call : Injection} {r : RegionLifetime}
    {place : Region} {result : PhysicalInjectionState} :
    s.Retains (s.finished id call r place result) := by
  intro n access ha
  rw [State.finished, Std.TreeMap.getElem?_map, ha, map_some]
  split_ifs
  · exact ⟨_, rfl, rfl, rfl⟩
  · exact ⟨access, rfl, rfl, rfl⟩

theorem finished_leased (h : s.Leased) {id : PhysicalInjectionId} {call : Injection}
    {r : RegionLifetime} {place : Region} {result : PhysicalInjectionState} :
    (s.finished id call r place result).Leased := by
  intro n access ha
  rw [State.finished, Std.TreeMap.getElem?_map, map_eq_some_iff] at ha
  obtain ⟨old, hold, -⟩ := ha
  exact h n old hold

theorem Quiet.retains (hl : s.Leased) (c : Quiet s s') : s'.Leased ∧ s.Retains s' := by
  have hnext := (Change.quiet c).next_le
  cases c with
  | addAccess access =>
    refine ⟨fun n a ha => ?_, fun n a ha => ⟨a, ?_, rfl, rfl⟩⟩
    · rw [getElem?_insert] at ha
      split_ifs at ha with hn
      · exact hn.symm.le
      · exact (hl n a ha).trans hnext
    · rw [getElem?_insert, if_neg, ha]
      have hle := hl n a ha
      omega
  | accesses m moves =>
    refine ⟨fun n a ha => ?_, .of_moves moves⟩
    have hmove := moves n
    rw [show m[n]? = some a from ha] at hmove
    generalize hn : s.accesses[n]? = old at hmove
    cases hmove with
    | keep => exact hl n a hn
    | touch old => exact hl n old hn
  | finish => exact ⟨finished_leased hl, finished_retains⟩
  | _ => exact ⟨fun n a ha => (hl n a ha).trans hnext, fun n a ha => ⟨a, ha, rfl, rfl⟩⟩

theorem AccessFate.trans {s'' : State} {n : ℕ} {access : Access} (h : AccessFate c s s' n access)
    (hr : s'.Retains s'') : AccessFate c s s'' n access := by
  cases h with
  | kept access' known task declaration =>
    obtain ⟨a, ha, htask, hdecl⟩ := hr n access' known
    exact .kept a ha (htask.trans task) (hdecl.trans declaration)
  | readmitted transient complete t g owner current call =>
    exact .readmitted transient complete t g owner current call
  | settled transient f members cohort member ended call =>
    exact .settled transient f members cohort member ended call

/-- The accesses of `s` in a call. -/
structure State.Accounts (c : Call) (s s' : State) : Prop where
  invariant : Invariant s'
  leased : s'.Leased
  fate : ∀ (n : ℕ) access, s.accesses[n]? = some access → AccessFate c s s' n access

theorem State.Accounts.refl (hi : Invariant s) (hl : s.Leased) : State.Accounts c s s :=
  ⟨hi, hl, fun _ access ha => .kept access ha rfl rfl⟩

theorem State.Accounts.trans {s'' : State} (h : State.Accounts c s s') (hi : Invariant s'')
    (hl : s''.Leased) (hr : s'.Retains s'') : State.Accounts c s s'' :=
  ⟨hi, hl, fun n access ha => (h.fate n access ha).trans hr⟩

/-- Readmission retires transient accesses that are natively complete. -/
theorem State.Accounts.readmission {chosen : ℕ → Access → Prop} (hi : Invariant s) (hl : s.Leased)
    (r : Readmission chosen t g s s') (hcall : ∀ n access, chosen n access →
      (∃ lease, c = .readmitAccess lease t g ∧ lease.id = n ∧ access.task = t) ∨
        ∃ id, c = .readmitInjection id t g ∧ access.physical = some id) :
    State.Accounts c s s' := by
  have hi' := hi.readmission r
  cases r with
  | readmission owner m current kept retired =>
    refine ⟨hi', fun n a ha => hl n a (kept n a ha), fun n access ha => ?_⟩
    rcases hm : m[n]? with - | a
    · obtain ⟨hchosen, htransient, hcomplete⟩ := retired n access ha hm
      exact .readmitted htransient hcomplete t g owner current (hcall n access hchosen)
    · have hold := kept n a hm
      rw [ha] at hold
      cases hold
      exact .kept access hm rfl rfl

/-- A settled cohort takes its transient accesses along. -/
structure State.Settling (c : Call) (s s' : State) : Prop where
  accounts : State.Accounts c s s'
  retires : s.Retires s'
  freezes : ∀ (f : ℕ) members, s'.freezes[f]? = some members → s.freezes[f]? = some members

theorem State.Settling.settle {s'' : State} (h : State.Settling c s s') (st : Settle s' s'')
    (hcall : (∃ tasks, c = .settleFencedTasks tasks) ∨ ∃ cohort, c = .settleFrozenCohort cohort) :
    State.Settling c s s'' := by
  have hi := h.accounts.invariant.change (.settle st)
  have hretires := h.retires.settle st
  cases st with
  | @settle f members tasks known thaw settled =>
    refine ⟨⟨hi, fun n a ha => ?_, fun n access ha => ?_⟩, hretires, fun f' ms hms => ?_⟩
    · rw [getElem?_filter, filter_eq_some_iff] at ha
      exact h.accounts.leased n a ha.1
    · rcases h.accounts.fate n access ha with ⟨a, hka, htask, hdecl⟩ | _ | _
      · by_cases hstay : (!members.contains a.task || a.declaration.lifetime == .persistent) = true
        · refine .kept a ?_ htask hdecl
          rw [getElem?_filter, hka, filter_some, if_pos hstay]
        · simp only [Bool.or_eq_true, Bool.not_eq_true', beq_iff_eq, not_or, Bool.not_eq_false] at hstay
          refine .settled ?_ f members (h.freezes f members known) ?_ (h.retires.settled settled) hcall
          · rw [← hdecl]
            cases hlife : a.declaration.lifetime with
            | transient => rfl
            | persistent => exact absurd hlife hstay.2
          · rw [← htask]
            exact Std.TreeSet.mem_iff_contains.2 hstay.1
      · exact .readmitted ‹_› ‹_› _ _ _ ‹_› ‹_›
      · exact .settled ‹_› _ _ ‹_› ‹_› ‹_› ‹_›
    · rw [State.thawed, getElem?_erase] at hms
      split_ifs at hms
      exact h.freezes f' ms hms

theorem Call.accounts (hi : Invariant s) (hl : s.Leased) (c : Call) :
    State.Accounts c s (c.after run s) := by
  have hs : State.Accounts c s s := .refl hi hl
  have hset : State.Settling c s s := ⟨hs, .refl s, fun _ _ => id⟩
  by_cases hcall : (∃ tasks, c = .settleFencedTasks tasks) ∨ ∃ cohort, c = .settleFrozenCohort cohort
  · have hP : Stable Settle (State.Settling c s) :=
      ⟨fun h => h.accounts.invariant, fun h st => h.settle st hcall⟩
    suffices h : Keeps (State.Settling c s) (c.exec run) s from h.after.accounts
    rcases hcall with ⟨tasks, rfl⟩ | ⟨cohort, rfl⟩
    · exact settleFencedTasks_keeps hset hP
    · exact settleFrozenCohort_keeps hset hi fun _ st _ => hP.step hset st
  refine Keeps.after (keeps_special ⟨State.Accounts.invariant, fun h q =>
    h.trans (h.invariant.quiet q) (q.retains h.leased).1 (q.retains h.leased).2⟩ hs ?_)
  constructor
  case settle => exact fun h => absurd h hcall
  case cancel =>
    refine fun _ => ⟨State.Accounts.invariant, fun h cn => ?_⟩
    have hi' := h.invariant.change (.cancel cn)
    cases cn
    exact h.trans hi' h.leased fun n a ha => ⟨a, ha, rfl, rfl⟩
  case layout =>
    exact fun _ _ _ _ _ _ valid hr =>
      hs.trans (hi.layout hr valid) hl fun n a ha => ⟨a, ha, rfl, rfl⟩
  case verified =>
    exact fun _ _ _ _ _ known phase written _ =>
      hs.trans (hi.verified known phase written) hl fun n a ha => ⟨a, ha, rfl, rfl⟩
  case issued =>
    intro id groups regions call _ marks known state phase _
    have hq := hi.quiet (.history s s.filesPossiblyShared groups regions marks)
    exact hs.trans (hq.issued known phase) hl fun n a ha => ⟨a, ha, rfl, rfl⟩
  case unknown =>
    exact fun _ _ _ _ _ _ h _ known task region =>
      h.trans (h.invariant.finished known task region _) (finished_leased h.leased) finished_retains
  case replace =>
    intro _ _ _ s' s'' _ h _ r
    have hi' := h.invariant.replace r
    cases r
    exact h.trans hi' h.leased fun n a ha => ⟨a, ha, rfl, rfl⟩
  case readmitAccess =>
    exact fun lease _ _ _ hc r => .readmission hi hl r fun n access hn =>
      Or.inl ⟨lease, hc, hn.1.symm, hn.2⟩
  case readmitInjection =>
    exact fun id _ _ _ hc r => .readmission hi hl r fun n access hn => Or.inr ⟨id, hc, hn⟩

theorem Run.leased (h : Run run anyCall s s') (hs : Invariant s ∧ s.Leased) :
    Invariant s' ∧ s'.Leased := by
  induction h with
  | refl => exact hs
  | tail _ hstep ih =>
    obtain ⟨c, -, rfl⟩ := hstep
    exact ⟨(c.accounts ih.1 ih.2).invariant, (c.accounts ih.1 ih.2).leased⟩

end

theorem State.Lasting.refl {s : State} (hi : Invariant s) (h : s.OneIssued) : s.Lasting s :=
  ⟨hi, le_rfl, fun _ _ owner _ h => ⟨owner, h⟩, h⟩

/-- **Lifetimes of grants and accesses.** -/
theorem lifetimes_hold (run : ℕ) : Lifetimes run Uses := by
  have hlasting : ∀ s, Run run anyCall .init s → s.Lasting s := fun s h =>
    have hs := h.lasting (.refl Invariant.init fun _ _ _ _ h => (by cases h))
    .refl hs.invariant hs.issued
  refine ⟨?_, ?_, fun s h => (hlasting s h).issued, fun s h c n access ha => ?_⟩
  · intro s h t kind g s₁ hg s₂ h' t' kind' g' s₃ hg'
    have hafter : s₁ = (Call.grant t kind).after run s := by
      simp only [Call.after, Call.exec, ignore, bind, EStateM.bind, hg]
      rfl
    have hle := (h'.lasting (hlasting s₁ (h.tail ⟨_, trivial, hafter⟩))).next
    have hmade := grant_does.of_ok hg
    have hmade' := grant_does.of_ok hg'
    omega
  · intro s h t g hg hcur s' h' c hc s'' hok
    have hs' := h'.lasting (hlasting s h)
    refine (hc.refused hs'.invariant fun owner howner => ?_).of_ok hok
    obtain ⟨old, hold⟩ := hs'.current t g owner hg howner
    exact hcur old hold
  · obtain ⟨hi, hl⟩ := h.leased ⟨Invariant.init, fun _ _ h => (by cases h)⟩
    exact (c.accounts hi hl).fate n access ha

/-! ## A call that outlives its grant -/

namespace Replaced

def task : InputTaskId := ⟨0, 1, 1⟩
def description : PhysicalInjectionDescription :=
  ⟨0, .replicate 6 0, .registers, {}, [], [], none⟩

/-- A call is prepared under the grant 5, which is then replaced. -/
def calls : List Call :=
  [.registerRoot 1 1, .grant task .ordinary, .prepareObservedInjection task 0 description,
    .grant task .ordinary]

end Replaced

/-- The call is issued all the same. -/
theorem lifetimes_fail : ¬ Lifetimes 0 fun s t g c =>
    Uses s t g c ∨ ∃ id, c = .issued id ∧ s.PreparedUnder id t g := by
  intro h
  refine h.stale (afterAll 0 .init Replaced.calls) (run_afterAll _ _) Replaced.task 5
    (by decide +kernel) (fun owner howner => ?_) _ .refl (.issued ⟨0, 6⟩)
    (Or.inr ⟨_, rfl, _, rfl, rfl, rfl⟩) _ rfl
  obtain ⟨-, htask, -, -, -, hgrant⟩ := howner
  cases htask
  cases hgrant

end Reverie.Input
