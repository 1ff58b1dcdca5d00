/-
  What every operation of the registry does: it moves the state by `Quiet` changes (five
  operations by `Change`s) and never panics.  So it keeps every property that the changes
  preserve (`Keeps`, `Stable`).
-/
import Reverie.Lib.Outcome
import Reverie.Input.Changes

namespace Reverie.Input

open Table Std.TreeSet

/-! ## Outcomes of operations -/

section
variable {α β : Type} {P : State → Prop} {s : State}

/-- A refusal that leaves `P`. -/
def Refused (P : State → Prop) (e : Stop) (s : State) : Prop := P s ∧ e ≠ .panic

/-- An operation that, refused, leaves `P`. -/
abbrev Does (P : State → Prop) (op : Registry α) (s : State) (Q : α → State → Prop) : Prop :=
  Ensures op s Q (Refused P)

/-- The operation leaves `P` true and does not panic. -/
def Keeps (P : State → Prop) (op : Registry α) (s : State) : Prop := Does P op s fun _ => P

/-- A property that changes of the kind `R` preserve and that contains the
    invariant. -/
structure Stable (R : State → State → Prop) (P : State → Prop) : Prop where
  invariant : ∀ {s}, P s → Invariant s
  step : ∀ {s s'}, P s → R s s' → P s'

theorem Stable.quiet (hP : Stable Change P) : Stable Quiet P :=
  ⟨hP.invariant, fun h c => hP.step h (.quiet c)⟩

theorem Stable.calm (hP : Stable Quiet P) : Stable Calm P :=
  ⟨hP.invariant, fun h c => hP.step h c.quiet⟩

variable {op : Registry α} {o : Option α} {a : α} {reason : Reason} {c : Prop} {t : InputTaskId}
  {d : InputAccess}

theorem Keeps.andThen {f : α → Registry β} {Q : β → State → Prop}
    (h : Keeps P op s) (hf : ∀ a s', P s' → Does P (f a) s' Q) : Does P (op >>= f) s Q :=
  Ensures.bind h hf

theorem Does.weaken {Q : α → State → Prop} {P' : State → Prop}
    (hP : ∀ s, P s → P' s) (h : Does P op s Q) : Does P' op s Q :=
  h.mono (fun _ _ h => h) fun _ s' h => ⟨hP s' h.1, h.2⟩

/-! ## Reads -/

/-- A task that may act. -/
structure State.Live (s : State) (t : InputTaskId) (owner : Task) : Prop where
  running : s.fatal = none
  task : s.tasks[t]? = some owner
  terminal : owner.nativeTerminal = false
  effects : owner.nativeEffectsComplete = false

variable {f : α → Registry β} {Q : β → State → Prop}

theorem get_then {f : State → Registry β} (h : Does P (f s) s Q) : Does P (get >>= f) s Q := h

theorem set_then {s' : State} {f : PUnit → Registry β} (h : Does P (f ⟨⟩) s' Q) :
    Does P (set s' >>= f) s Q := h

theorem modify_then {g : State → State} {f : PUnit → Registry β} (h : Does P (f ⟨⟩) (g s) Q) :
    Does P (modify g >>= f) s Q := h

theorem index_then (ha : o = some a) (h : Does P (f a) s Q) : Does P (index o >>= f) s Q := by
  subst ha
  exact h

variable (hs : P s)
include hs

theorem unavailable_does {Q : α → State → Prop} :
    Does P (unavailable reason) s Q := Ensures.throw ⟨hs, by simp⟩

theorem unavailable_keeps : Keeps P (unavailable reason : Registry α) s := by
  unfold Keeps
  exact unavailable_does hs

theorem refuse_does [Decidable c] : Does P (refuse c reason) s fun _ s' => s' = s ∧ ¬ c := by
  unfold refuse
  split_ifs with hc
  · exact unavailable_does hs
  · exact Ensures.pure ⟨rfl, hc⟩

theorem refuse_then [Decidable c] {f : PUnit → Registry β}
    (h : ¬ c → Does P (f ⟨⟩) s Q) : Does P (refuse c reason >>= f) s Q := by
  refine (refuse_does hs).bind fun _ s' hc => ?_
  obtain ⟨rfl, hc⟩ := hc
  exact h hc

theorem orUnavailable_does : Does P (orUnavailable o reason) s fun a s' => s' = s ∧ o = some a := by
  rcases o with _ | a
  · exact unavailable_does hs
  · exact Ensures.pure ⟨rfl, rfl⟩

theorem orUnavailable_then (h : ∀ a, o = some a → Does P (f a) s Q) :
    Does P (orUnavailable o reason >>= f) s Q := by
  refine (orUnavailable_does hs).bind fun a s' ha => ?_
  obtain ⟨rfl, ha⟩ := ha
  exact h a ha

theorem next_then {f : ℕ → Registry β}
    (h : Does P (f (s.next + 1)) { s with next := s.next + 1 } Q) : Does P (next >>= f) s Q := by
  unfold next
  rw [bind_assoc]
  refine get_then ?_
  rw [bind_assoc]
  refine refuse_then hs fun _ => ?_
  exact h

theorem live_does : Does P (live t) s fun owner s' => s' = s ∧ s.Live t owner := by
  refine get_then (refuse_then hs fun hfatal => (orUnavailable_does hs).mono ?_ fun _ _ h => h)
  rintro owner s' ⟨rfl, hf⟩
  rw [Option.filter_eq_some_iff] at hf
  simp only [Bool.and_eq_true, Bool.not_eq_eq_eq_not] at hf
  exact ⟨rfl, by simpa using hfatal, hf.1, hf.2.1, hf.2.2⟩

theorem live_then {f : Task → Registry β}
    (h : ∀ owner, s.Live t owner → Does P (f owner) s Q) : Does P (live t >>= f) s Q := by
  refine (live_does hs).bind fun owner s' hl => ?_
  obtain ⟨rfl, hl⟩ := hl
  exact h owner hl

theorem validateScope_then {run : ℕ} {scope : InputOperationScope} {f : PUnit → Registry β}
    (h : ∀ owner, s.Live scope.task owner → owner.grant.map (·.1) = some scope.grant →
      owner.frozen.isEmpty = true → Does P (f ⟨⟩) s Q) :
    Does P (validateScope run scope >>= f) s Q := by
  unfold validateScope
  rw [bind_assoc]
  refine refuse_then hs fun _ => ?_
  rw [bind_assoc]
  refine live_then hs fun owner hl => refuse_then hs fun hg => h owner hl ?_ ?_
  · by_contra hc
    exact hg (Or.inl hc)
  · by_contra hc
    exact hg (Or.inr (by simpa using hc))

omit hs in
theorem initialized_does (hi : Invariant s) {r : RegionLifetime} {place : Region}
    (hr : s.regions[r]? = some place) :
    Does P (initialized place) s fun started s' => s' = s ∧ ∀ id call,
      place.transaction = some id → s.injections[id]? = some call →
      call.phase ≠ some .preparing → started = true := by
  unfold initialized
  rcases htx : place.transaction with _ | id
  · exact Ensures.pure ⟨rfl, by simp⟩
  · obtain ⟨call, _, hcall, _⟩ := (hi.transactions.writer r place hr id).1 htx
    refine get_then (index_then hcall (Ensures.pure ⟨rfl, ?_⟩))
    rintro id' call' hid hcall' hph
    obtain rfl : id = id' := by simpa using hid
    obtain rfl : call = call' := by simpa [hcall] using hcall'
    simpa using hph

theorem validateAccess_does (hi : Invariant s) :
    Does P (validateAccess d) s fun _ s' => s' = s ∧ s.Admits d := by
  refine refuse_then hs fun _ => get_then (refuse_then hs fun _ => ?_)
  -- the invariant of the loop is `Admits`, for the regions already visited
  refine (Ensures.forM (fun entries s' => s' = s ∧ ∀ entry ∈ entries, ∀ id call layout,
    entry.2.transaction = some id → s.injections[id]? = some call → call.phase ≠ some .preparing →
    entry.2.layout = some layout → d.target.reaches entry.1 = true →
    d.span.overlaps layout = false) ?_ ⟨rfl, by simp⟩).mono ?_ fun _ _ h => h
  · rintro done ⟨r, place⟩ rest s' hd ⟨rfl, hI⟩
    have hr : s'.regions[r]? = some place := by
      rw [← Std.TreeMap.mem_toList_iff_getElem?_eq_some, hd]
      simp
    refine (initialized_does hi hr).bind fun started s'' hst => ?_
    obtain ⟨rfl, hst⟩ := hst
    refine (refuse_does hs).mono ?_ fun _ _ h => h
    rintro _ _ ⟨rfl, hc⟩
    refine ⟨rfl, fun entry he id call layout hid hcall hph hlay hreach => ?_⟩
    rcases List.mem_append.1 he with he | he
    · exact hI entry he id call layout hid hcall hph hlay hreach
    · obtain rfl := List.mem_singleton.1 he
      by_contra hov
      refine hc ?_
      rw [hst id call hid hcall hph, hreach, hlay]
      simpa using hov
  · rintro _ s' ⟨rfl, hI⟩
    refine ⟨rfl, fun r place id call layout hr hid hcall hph hlay hreach => ?_⟩
    exact hI (r, place) (Std.TreeMap.mem_toList_iff_getElem?_eq_some.2 hr) id call layout hid hcall
      hph hlay hreach

theorem validateAccess_then (hi : Invariant s) {f : PUnit → Registry β}
    (h : s.Admits d → Does P (f ⟨⟩) s Q) : Does P (validateAccess d >>= f) s Q := by
  refine (validateAccess_does hs hi).bind fun _ s' hd => ?_
  obtain ⟨rfl, hd⟩ := hd
  exact h hd

end

/-! ## Updates of one entry -/

section
variable {P : State → Prop} {s : State}

theorem updateTask_keeps {t : InputTaskId} {f : Task → Task} {owner : Task}
    (ht : s.tasks[t]? = some owner)
    (h : P { s with tasks := s.tasks.insert t (f owner) }) : Keeps P (updateTask t f) s := by
  exact get_then (index_then ht h)

variable {r : RegionLifetime} {f : Region → Region} {place : Region} {β : Type}
  {id : PhysicalInjectionId} {call : Injection}

theorem updateRegion_keeps (hr : s.regions[r]? = some place)
    (h : P { s with regions := s.regions.insert r (f place) }) : Keeps P (updateRegion r f) s := by
  exact get_then (index_then hr h)

theorem updateRegion_then {g : PUnit → Registry β} {Q : β → State → Prop}
    (hr : s.regions[r]? = some place)
    (h : Does P (g ⟨⟩) { s with regions := s.regions.insert r (f place) } Q) :
    Does P (updateRegion r f >>= g) s Q := by
  unfold updateRegion
  rw [bind_assoc]
  refine get_then ?_
  rw [bind_assoc]
  exact index_then hr (set_then h)

theorem updateInjection_then {f : Injection → Injection}
    {g : PUnit → Registry β} {Q : β → State → Prop} (hc : s.injections[id]? = some call)
    (h : Does P (g ⟨⟩) { s with injections := s.injections.insert id (f call) } Q) :
    Does P (updateInjection id f >>= g) s Q := by
  unfold updateInjection
  rw [bind_assoc]
  refine get_then ?_
  rw [bind_assoc]
  exact index_then hc (set_then h)

theorem updateInjection_keeps {f : Injection → Injection} (hc : s.injections[id]? = some call)
    (h : P { s with injections := s.injections.insert id (f call) }) :
    Keeps P (updateInjection id f) s := by
  exact get_then (index_then hc h)

end

/-! ## Exposures -/

section
variable {P : State → Prop} {s : State} (hP : Stable Calm P) (hs : P s)
include hP hs

theorem addExposureLocked_does {exposure : InputExposure} :
    Does P (addExposureLocked exposure) s fun _ s' => P s' ∧ s'.injections = s.injections := by
  refine get_then ?_
  rcases exposure.target with region | _
  · refine orUnavailable_then hs fun place hr => ?_
    exact ⟨hP.step hs (.of (.expose exposure hr) rfl rfl rfl), rfl⟩
  · exact ⟨hP.step hs (.of (.exposeAll s exposure) rfl rfl rfl), rfl⟩

theorem addExposureLocked_keeps {exposure : InputExposure} :
    Keeps P (addExposureLocked exposure) s :=
  (addExposureLocked_does hP hs).mono (fun _ _ h => h.1) fun _ _ h => h

theorem backendExposeBeforeContinuation_keeps {task : InputTaskId} {exposure : InputExposure} :
    Keeps P (backendExposeBeforeContinuation task exposure) s := by
  refine live_then hs fun _ _ => validateAccess_then hs (hP.invariant hs) fun _ => ?_
  exact addExposureLocked_keeps hP hs

theorem exposeUnknownLifecycle_does {call : Injection} :
    Does P (exposeUnknownLifecycle call) s fun _ s' => P s' ∧ s'.injections = s.injections := by
  unfold exposeUnknownLifecycle
  rcases call.description.unknownLifecycle with _ | exposure
  · exact ⟨hs, rfl⟩
  · exact addExposureLocked_does hP hs

end

/-! ## Grants and operations -/

section
variable {P : State → Prop} {s : State} {run : ℕ} (hP : Stable Quiet P) (hs : P s)
include hP hs

variable {task : InputTaskId} {logicalOperation : ℕ} {scope : InputOperationScope}
  {lease : InputAccessLease} {completion : NativeOperationId} {owner : Task}
  {description : PhysicalInjectionDescription} {members : Std.TreeSet InputTaskId}

theorem backendBindToolIdentity_keeps {tid pid : ℤ} :
    Keeps P (backendBindToolIdentity task tid pid) s := by
  refine live_then hs fun owner hl => refuse_then hs fun _ => ?_
  refine Keeps.andThen (updateTask_keeps hl.task ?_) fun _ _ h => h
  exact hP.step hs (.task hl.task ⟨rfl, rfl, id, id, fun _ => rfl⟩)

theorem grant_keeps {kind : InputGrantKind} : Keeps P (grant task kind) s := by
  refine live_then hs fun owner hl => refuse_then hs fun hf => next_then hs ?_
  refine Keeps.andThen (updateTask_keeps hl.task ?_) fun _ _ h => h
  exact hP.step hs (.grant kind hl.task (by simpa using hf))

theorem invalidateOperation_keeps : Keeps P (invalidateOperation task) s := by
  refine get_then ?_
  rcases ht : s.tasks[task]? with _ | owner
  · exact hs
  · exact hP.step hs (.task ht ⟨rfl, rfl, id, id, by simp⟩)

omit hP in
theorem nativeRequestGrant_keeps : Keeps P (nativeRequestGrant task) s := by
  unfold nativeRequestGrant
  refine live_then hs fun owner _ => refuse_then hs fun _ => ?_
  refine (orUnavailable_does hs).mono ?_ fun _ _ h => h
  rintro _ _ ⟨rfl, _⟩
  exact hs

theorem beginOperation_keeps : Keeps P (beginOperation run task logicalOperation) s := by
  refine live_then hs fun owner hl => orUnavailable_then hs ?_
  rintro ⟨generation, kind, consumed⟩ hg
  refine refuse_then hs fun _ => refuse_then hs fun _ => ?_
  refine Keeps.andThen (updateTask_keeps hl.task ?_) fun _ _ h => h
  exact hP.step hs (.task hl.task ⟨rfl, rfl, id, id, fun _ => by simp [hg]⟩)

theorem finishOperation_keeps : Keeps P (finishOperation run scope) s := by
  refine validateScope_then hs fun owner hl hg _ => get_then (refuse_then hs fun _ => ?_)
  obtain ⟨⟨generation, kind, consumed⟩, hgrant, _⟩ := Option.map_eq_some_iff.1 hg
  refine index_then hl.task (index_then hgrant ?_)
  refine updateTask_keeps hl.task (hP.step hs (.task hl.task ?_))
  exact ⟨rfl, rfl, id, id, fun _ => by simp [hgrant]⟩

/-! ## Accesses -/

theorem touchAccess {n : ℕ} {access access' : Access} (h : s.accesses[n]? = some access)
    (task : access'.task = access.task) (declaration : access'.declaration = access.declaration)
    (complete : access.nativeComplete = true → access'.nativeComplete = true) :
    P { s with accesses := s.accesses.insert n access' } := by
  refine hP.step hs (.accesses _ fun m => ?_)
  rw [getElem?_insert]
  split_ifs with hm
  · subst hm
    rw [h]
    exact .touch _ _ task declaration complete
  · exact .keep _

theorem acquireAccess_keeps {declaration : InputAccess} :
    Keeps P (acquireAccess run task declaration) s := by
  refine live_then hs fun _ _ => validateAccess_then hs (hP.invariant hs) fun hd => ?_
  refine next_then hs (modify_then ?_)
  exact hP.step hs (.addAccess ⟨task, declaration, none, none, false⟩ hd)

theorem attachAccess_keeps {receipt : PhysicalInjectionId} :
    Keeps P (attachAccess run lease receipt) s := by
  refine get_then (refuse_then hs fun _ => orUnavailable_then hs fun call _ => ?_)
  refine orUnavailable_then hs fun access ha => refuse_then hs fun _ => ?_
  exact touchAccess hP hs ha rfl rfl id

theorem completeAccessAfterReturn_keeps : Keeps P (completeAccessAfterReturn run lease task) s := by
  refine get_then (refuse_then hs fun _ => orUnavailable_then hs fun access ha => ?_)
  refine refuse_then hs fun _ => ?_
  exact touchAccess hP hs ha rfl rfl fun _ => rfl

theorem bindAccessCompletion_keeps :
    Keeps P (bindAccessCompletion run lease task completion) s := by
  refine refuse_then hs fun _ => get_then (orUnavailable_then hs fun access ha => ?_)
  refine refuse_then hs fun _ => refuse_then hs fun _ => ?_
  exact touchAccess hP hs ha rfl rfl id

theorem completeAccessAfterCompletion_keeps {effectsComplete : Bool} :
    Keeps P (completeAccessAfterCompletion run lease task completion effectsComplete) s := by
  refine refuse_then hs fun _ => refuse_then hs fun _ => get_then ?_
  refine orUnavailable_then hs fun access ha => refuse_then hs fun _ => ?_
  exact touchAccess hP hs ha rfl rfl fun _ => rfl

omit hP in
theorem readmitAccess_keeps {grant : ℕ}
    (h : ∀ s', Readmission (fun n access => n = lease.id ∧ access.task = task) task grant s s' → P s') :
    Keeps P (readmitAccess run lease task grant) s := by
  unfold readmitAccess
  refine refuse_then hs fun _ => live_then hs fun owner hl => refuse_then hs fun hg => get_then ?_
  refine orUnavailable_then hs fun access ha => refuse_then hs fun hc => ?_
  rw [not_or, not_not, Bool.not_eq_true', Bool.not_eq_false] at hg
  rw [not_or, not_not, Bool.not_eq_true', Bool.not_eq_false] at hc
  split_ifs with hlife
  · refine h _ (.readmission owner _ ⟨hl.running, hl.task, hl.terminal, hl.effects, hg.1, hg.2⟩
      (fun n a hn => ?_) fun n a hn hgone => ?_)
    · rw [getElem?_erase] at hn
      split_ifs at hn
      exact hn
    · rw [getElem?_erase] at hgone
      split_ifs at hgone with heq
      · subst heq
        rw [ha] at hn
        cases hn
        exact ⟨⟨rfl, hc.1⟩, hlife, hc.2⟩
      · rw [hn] at hgone
        cases hgone
  · exact hs

/-! ## Injections -/

theorem noteFilesSharing_does {sharing : InputExpectedSharing} (ht : s.tasks[task]? = some owner) :
    Does P (noteFilesSharing task sharing) s fun _ s' => P s' ∧ s'.tasks = s.tasks ∧
      s'.injections = s.injections ∧ s'.next = s.next := by
  have hh := (hP.invariant hs).histories
  unfold noteFilesSharing
  split_ifs
  · refine get_then (index_then ht ?_)
    obtain ⟨b, hb⟩ := Option.isSome_iff_exists.1 (hh.files task owner ht)
    exact ⟨hP.step hs (.history s _ _ _ (hh.marks.setFiles (hh.filesBound _ b hb) (Or.inl rfl))),
      rfl, rfl, rfl⟩
  · exact ⟨hs, rfl, rfl, rfl⟩

/-- The declared accesses are checked before the first one is registered; no
    task or call changes. -/
theorem attachDeclaredAccesses_does {physical : PhysicalInjectionId}
        (ht : s.tasks[task]? = some owner) :
    Does P (attachDeclaredAccesses physical task description) s fun _ s' => P s' ∧
      s'.tasks = s.tasks ∧ s'.injections = s.injections ∧ s.next ≤ s'.next := by
  refine (noteFilesSharing_does hP hs ht).bind fun _ s₁ hs₁ => ?_
  obtain ⟨hp, htasks, hcalls, hnext⟩ := hs₁
  refine Ensures.bind (Ensures.forM (fun done s' => s' = s₁ ∧ ∀ d ∈ done, s₁.Admits d) ?_
    ⟨rfl, by simp⟩) ?_
  · rintro done d rest s' _ ⟨rfl, hd⟩
    refine refuse_then hp fun _ => (validateAccess_does hp (hP.invariant hp)).mono ?_ fun _ _ h => h
    rintro _ _ ⟨rfl, had⟩
    refine ⟨rfl, fun d' hd' => ?_⟩
    rcases List.mem_append.1 hd' with hd' | hd'
    · exact hd d' hd'
    · rwa [List.mem_singleton.1 hd']
  · rintro _ _ ⟨rfl, hd⟩
    rename_i s₁
    refine (Ensures.forM (fun _ s' => P s' ∧ s'.tasks = s₁.tasks ∧ s'.injections = s₁.injections ∧
      s₁.next ≤ s'.next ∧ s'.regions = s₁.regions) ?_ ⟨hp, rfl, rfl, le_rfl, rfl⟩).mono ?_
      fun _ _ h => h
    · rintro done d rest s' hxs ⟨hp', ht', hc', hn', hr'⟩
      refine next_then hp' ?_
      have had : s'.Admits d := by
        have := hd d (by rw [hxs]; simp)
        unfold State.Admits at this ⊢
        rwa [hr', hc']
      exact ⟨hP.step hp' (.addAccess ⟨task, d, some physical, none, false⟩ had), ht', hc',
        Nat.le_succ_of_le hn', hr'⟩
    · rintro _ s' ⟨hp', ht', hc', hn', _⟩
      exact ⟨hp', ht'.trans htasks, hc'.trans hcalls, hnext ▸ hn'⟩

theorem registerInjection_keeps {operation grant : ℕ}
        (ht : s.tasks[task]? = some owner) :
    Keeps P (registerInjection run task operation grant description) s := by
  have hi := hP.invariant hs
  refine next_then hs ?_
  refine Ensures.bind (attachDeclaredAccesses_does hP (hP.step hs (.bump s)) ht) ?_
  rintro _ s' ⟨hp, htasks, hcalls, hnext⟩
  refine modify_then (hP.step hp (.addCall ?_ hnext ?_ rfl rfl))
  · rw [hcalls, Option.eq_none_iff_forall_ne_some]
    intro call hc
    exact absurd (hi.fresh.call _ call hc) (by simp)
  · rw [htasks]
    exact Option.isSome_iff_exists.2 ⟨owner, ht⟩

theorem prepareInjection_keeps : Keeps P (prepareInjection run scope description) s := by
  exact validateScope_then hs fun owner hl _ _ => registerInjection_keeps hP hs hl.task

theorem prepareObservedInjection_keeps :
    Keeps P (prepareObservedInjection run task logicalOperation description) s := by
  refine live_then hs fun owner hl => orUnavailable_then hs fun _ _ => refuse_then hs fun _ => ?_
  exact registerInjection_keeps hP hs hl.task

omit hP in
theorem readmitInjection_keeps {id : PhysicalInjectionId} {grant : ℕ}
    (h : ∀ s', Readmission (fun _ access => access.physical = some id) task grant s s' → P s') :
    Keeps P (readmitInjection id task grant) s := by
  unfold readmitInjection
  refine live_then hs fun owner hl => refuse_then hs fun hg => get_then ?_
  refine orUnavailable_then hs fun call _ => refuse_then hs fun hc => ?_
  rw [not_or, not_not, Bool.not_eq_true', Bool.not_eq_false] at hg
  refine h _ (.readmission owner _ ⟨hl.running, hl.task, hl.terminal, hl.effects, hg.1, hg.2⟩
    (fun n access hn => ?_) fun n access hn hgone => ?_)
  · rw [getElem?_filter, Option.filter_eq_some_iff] at hn
    exact hn.1
  · rw [getElem?_filter, hn, Option.filter_some] at hgone
    split_ifs at hgone with hk
    simp only [ne_eq, decide_not, Bool.or_eq_true, Bool.not_eq_eq_eq_not, Bool.not_true,
      decide_eq_false_iff_not, beq_iff_eq, not_or, not_not] at hk
    refine ⟨hk.1, ?_, ?_⟩
    · rcases hl : access.declaration.lifetime with _ | _
      · rfl
      · exact absurd hl hk.2
    · by_contra hno
      refine hc (Or.inr (Or.inr (List.any_eq_true.2 ⟨access, mem_values.2 ⟨n, hn⟩, ?_⟩)))
      simpa [hk.1] using hno

/-! ## Freezes -/

theorem freezeLocked_does :
    Does P (freezeLocked run members) s fun cohort s' => P s' ∧ s'.freezes[cohort.id]?.isSome := by
  refine get_then (refuse_then hs fun hm => next_then hs (get_then ?_))
  have hex : ∀ t ∈ members.toList, s.tasks[t]?.isSome := by
    intro t ht
    by_contra hn
    refine hm (List.any_eq_true.2 ⟨t, ht, ?_⟩)
    simp only [Bool.not_eq_true] at hn
    simp [Std.TreeMap.contains_eq_isSome_getElem?, hn]
  obtain ⟨tasks, htasks⟩ := Option.isSome_iff_exists.1 (updateAll_isSome (f := fun owner : Task =>
    { owner with frozen := owner.frozen.insert (s.next + 1), grant := none }) hex)
  refine index_then htasks ?_
  exact ⟨hP.step hs (.freeze htasks), by simp⟩

theorem freezeLocked_keeps : Keeps P (freezeLocked run members) s :=
  (freezeLocked_does hP hs).mono (fun _ _ h => h.1) fun _ _ h => h

theorem freezeGroup_keeps {includeCaller : Bool} :
    Keeps P (freezeGroup run task includeCaller) s := by
  have hi := hP.invariant hs
  refine get_then (orUnavailable_then hs fun owner ht => ?_)
  -- the group of the caller was made before the freeze
  have hP' : Stable Quiet fun s' => P s' ∧ s.Grows s' :=
    ⟨fun h => hP.invariant h.1, fun h c =>
      ⟨hP.step h.1 c, h.2.trans (c.grows (hP.invariant h.1).fresh)⟩⟩
  refine Ensures.bind ((freezeLocked_does hP' ⟨hs, State.Grows.refl s⟩).mono (fun _ _ h => h)
    fun _ _ h => ⟨h.1.1, h.2⟩) ?_
  rintro cohort s' ⟨⟨hp, hg⟩, hf⟩
  exact hP.step hp (.freezeGroup ((hi.fresh.task task owner ht).2.trans hg.next) hf)

omit hP in
theorem cohortMembers_keeps {cohort : InputFreezeCohort} : Keeps P (cohortMembers run cohort) s := by
  unfold cohortMembers
  exact get_then (refuse_then hs fun _ => orUnavailable_then hs fun _ _ => hs)

end

section
variable {P : State → Prop} {s : State} {run : ℕ}
variable {tasks : List InputTaskId} {members fenced : Std.TreeSet InputTaskId} {f : ℕ}
  {cohort : InputFreezeCohort}

theorem effectsComplete_does (h : ∀ t ∈ tasks, s.tasks[t]?.isSome) :
    Does P (effectsComplete tasks) s fun ended s' => s' = s ∧ (ended = true →
      ∀ t ∈ tasks, ∀ owner, s.tasks[t]? = some owner → owner.nativeEffectsComplete = true) := by
  refine get_then ((Ensures.allM (fun t => s.tasks[t]?.any (·.nativeEffectsComplete)) ?_).mono ?_
    fun _ _ h => h)
  · intro t ht
    obtain ⟨owner, ho⟩ := Option.isSome_iff_exists.1 (h t ht)
    refine index_then ho (Ensures.pure ⟨rfl, ?_⟩)
    rw [ho, Option.any_some]
  · rintro _ _ ⟨rfl, rfl⟩
    refine ⟨rfl, fun hall t ht owner ho => ?_⟩
    simpa [ho] using List.all_eq_true.1 hall t ht

theorem State.nativelyComplete_iff :
    s.nativelyComplete members = true ↔ ∀ (n : ℕ) access, s.accesses[n]? = some access →
      access.task ∈ members → access.nativeComplete = true := by
  unfold State.nativelyComplete
  rw [List.all_eq_true]
  constructor
  · intro h n access ha hm
    have := h access (mem_values.2 ⟨n, ha⟩)
    simpa [contains_iff_mem.2 hm] using this
  · intro h access ha
    obtain ⟨n, hn⟩ := mem_values.1 ha
    by_cases hm : access.task ∈ members
    · simp [h n access hn hm]
    · rw [mem_iff_contains] at hm
      simp [hm]

theorem thaw_does (hi : Invariant s) (known : s.freezes[f]? = some members) :
    ∃ tasks, updateAll s.tasks (fun owner =>
      { owner with frozen := owner.frozen.erase f }) members.toList = some tasks ∧
    Does P (thaw f) s fun ms s' => ms = members ∧ s' = s.thawed f tasks := by
  obtain ⟨tasks, htasks⟩ := Option.isSome_iff_exists.1 (updateAll_isSome (f := fun owner : Task =>
    { owner with frozen := owner.frozen.erase f }) fun t ht =>
      hi.freezes.member f members known t (mem_toList.1 ht))
  refine ⟨tasks, htasks, ?_⟩
  exact get_then (index_then known (index_then htasks ⟨rfl, rfl⟩))

variable (hs : P s)
include hs

theorem settleFrozenCohort_keeps (hi : Invariant s)
    (h : ∀ s', Settle s s' → s'.freezes = s.freezes.erase cohort.id → P s') :
    Keeps P (settleFrozenCohort run cohort) s := by
  refine get_then (refuse_then hs fun _ => orUnavailable_then hs fun members hm => ?_)
  refine (effectsComplete_does fun t ht =>
    hi.freezes.member _ members hm t (mem_toList.1 ht)).bind fun ended s' he => ?_
  obtain ⟨rfl, he⟩ := he
  refine refuse_then hs fun hn => ?_
  simp only [Bool.not_eq_eq_eq_not, Bool.not_true, not_or, Bool.not_eq_false] at hn
  obtain ⟨tasks, htasks, hdoes⟩ := thaw_does (P := P) hi hm
  refine hdoes.bind ?_
  rintro _ _ ⟨rfl, rfl⟩
  refine h _ (.settle hm htasks ⟨fun t ht => ?_, State.nativelyComplete_iff.1 hn.2⟩) rfl
  exact he hn.1 t (mem_toList.2 ht)

theorem cancelFreezeBeforeEffect_keeps (hi : Invariant s)
    (h : ∀ s', Cancel s s' → s'.freezes = s.freezes.erase cohort.id → P s') :
    Keeps P (cancelFreezeBeforeEffect run cohort) s := by
  refine get_then (refuse_then hs fun _ => orUnavailable_then hs fun members hm => ?_)
  refine Ensures.bind (Ensures.anyM (fun t => s.tasks[t]?.any fun owner =>
    owner.nativeEffectsComplete || owner.nativeTerminal) ?_) ?_
  · intro t ht
    obtain ⟨owner, ho⟩ := Option.isSome_iff_exists.1
      (hi.freezes.member _ members hm t (mem_toList.1 ht))
    refine index_then ho (Ensures.pure ⟨rfl, ?_⟩)
    rw [ho, Option.any_some]
  · rintro touched s' ⟨rfl, rfl⟩
    refine refuse_then hs fun hn => ?_
    obtain ⟨tasks, htasks, hdoes⟩ := thaw_does (P := P) hi hm
    refine hdoes.bind ?_
    rintro _ _ ⟨rfl, rfl⟩
    refine h _ (.cancel hm htasks fun t ht owner ho => ?_) rfl
    simp only [List.any_eq_true, not_exists, not_and] at hn
    simpa [ho] using hn t (mem_toList.2 ht)

omit hs in
theorem completedBy_does (hi : Invariant s) (known : s.freezes[f]? = some members) :
    Does P (completedBy fenced members) s fun done s' => s' = s ∧ (done = true → s.Settled members) := by
  unfold completedBy
  split_ifs
  · refine get_then ((effectsComplete_does fun t ht =>
      hi.freezes.member f members known t (mem_toList.1 ht)).bind fun ended s' he => ?_)
    obtain ⟨rfl, he⟩ := he
    refine ⟨rfl, fun hd => ?_⟩
    rw [Bool.and_eq_true] at hd
    exact ⟨fun t ht => he hd.1 t (mem_toList.2 ht), State.nativelyComplete_iff.1 hd.2⟩
  · exact ⟨rfl, by simp⟩

omit hs in
/-- The completed freezes are settled freezes of the list, each named once. -/
theorem completedFreezes_does (hi : Invariant s) {entries : List (ℕ × Std.TreeSet InputTaskId)}
    (known : ∀ entry ∈ entries, s.freezes[entry.1]? = some entry.2) :
    Does P (completedFreezes fenced entries) s fun ids s' => s' = s ∧
      List.Sublist ids (entries.map (·.1)) ∧
      ∀ f ∈ ids, ∃ members, s.freezes[f]? = some members ∧ s.Settled members := by
  induction entries with
  | nil => exact ⟨rfl, List.Sublist.refl _, by simp⟩
  | cons entry rest ih =>
    have hk := known entry List.mem_cons_self
    refine (completedBy_does hi hk).bind fun done s' hd => ?_
    obtain ⟨rfl, hd⟩ := hd
    refine (ih fun e he => known e (List.mem_cons_of_mem _ he)).bind ?_
    rintro ids s'' ⟨rfl, hsub, hids⟩
    rcases done with _ | _
    · exact ⟨rfl, hsub.cons _, hids⟩
    · refine ⟨rfl, hsub.cons_cons _, fun f hf => ?_⟩
      rcases List.mem_cons.1 hf with rfl | hf
      · exact ⟨entry.2, hk, hd rfl⟩
      · exact hids f hf

omit hs in
theorem Settle.others {s' : State} {g : ℕ} {ms : Std.TreeSet InputTaskId}
    {tasks : Std.TreeMap InputTaskId Task} (thaw : updateAll s.tasks (fun owner => { owner with
      frozen := owner.frozen.erase f }) members.toList = some tasks)
    (hs' : s' = { s.thawed f tasks with
      accesses := s.accesses.filter fun _ (access : Access) =>
        !members.contains access.task || access.declaration.lifetime == .persistent })
    (hne : f ≠ g) (hg : s.freezes[g]? = some ms) (settled : s.Settled ms) :
    s'.freezes[g]? = some ms ∧ s'.Settled ms := by
  subst hs'
  refine ⟨by simpa [State.thawed, getElem?_erase, hne] using hg, fun t ht owner ho => ?_,
    fun n access ha hm => ?_⟩
  · have ht' := getElem?_updateAll nodup_toList thaw t
    have ho : tasks[t]? = some owner := ho
    rw [ht'] at ho
    split_ifs at ho with hmem
    · obtain ⟨old, hold, rfl⟩ := Option.map_eq_some_iff.1 ho
      exact settled.effects t ht old hold
    · exact settled.effects t ht owner ho
  · have ha : (s.accesses.filter _)[n]? = some access := ha
    rw [getElem?_filter, Option.filter_eq_some_iff] at ha
    exact settled.accesses n access ha.1 hm

theorem settleFencedTasks_keeps (hP : Stable Settle P) :
    Keeps P (settleFencedTasks run tasks) s := by
  have hi := hP.invariant hs
  refine get_then (refuse_then hs fun hown => ?_)
  have hex : ∀ t ∈ (Std.TreeSet.ofList tasks).toList, s.tasks[t]?.isSome := by
    intro t ht
    by_contra hn
    refine hown (List.any_eq_true.2 ⟨t, ht, ?_⟩)
    simp only [Bool.not_eq_true] at hn
    simp [Std.TreeMap.contains_eq_isSome_getElem?, hn]
  refine (effectsComplete_does hex).bind fun ended s' he => ?_
  obtain ⟨rfl, _⟩ := he
  refine refuse_then hs fun _ => ?_
  refine (completedFreezes_does hi fun entry he =>
    Std.TreeMap.mem_toList_iff_getElem?_eq_some.1 he).bind ?_
  rintro ids s'' ⟨rfl, hsub, hids⟩
  have hnodup : ids.Nodup := hsub.nodup (by
    rw [Std.TreeMap.map_fst_toList_eq_keys]
    exact Std.TreeMap.nodup_keys)
  -- the freezes not yet thawed are still there, with settled members
  refine (Ensures.forM (fun done s' => P s' ∧ ∀ f ∈ ids, f ∉ done →
    ∃ members, s'.freezes[f]? = some members ∧ s'.Settled members) ?_
    ⟨hs, fun f hf _ => hids f hf⟩).mono (fun _ _ h => h.1) fun _ _ h => h
  rintro done f rest s' hxs ⟨hp, hrest⟩
  have hf : f ∉ done := fun hf => by
    rw [hxs] at hnodup
    exact (List.nodup_append.1 hnodup).2.2 f hf f List.mem_cons_self rfl
  obtain ⟨members, hm, hset⟩ := hrest f (by rw [hxs]; simp) hf
  obtain ⟨tasks', htasks, hdoes⟩ := thaw_does (P := P) (hP.invariant hp) hm
  refine hdoes.bind ?_
  rintro _ _ ⟨rfl, rfl⟩
  refine ⟨hP.step hp (.settle hm htasks hset), fun g hg hgd => ?_⟩
  rw [List.mem_append, List.mem_singleton, not_or] at hgd
  obtain ⟨ms, hms, hsettled⟩ := hrest g hg hgd.1
  exact ⟨ms, Settle.others htasks rfl (Ne.symm hgd.2) hms hsettled⟩

end

/-! ## Settling physical calls -/

section
variable {P : State → Prop} {s : State} {run : ℕ}

/-- No other call has changed. -/
def State.SameCallsBut (id : PhysicalInjectionId) (s s' : State) : Prop :=
  ∀ j, j ≠ id → s'.injections[j]? = s.injections[j]?

variable {id : PhysicalInjectionId}

/-- `finish_locked` finds the task and the region of every known call. -/
theorem finishLocked_does (hi : Invariant s) {call : Injection}
    {result : PhysicalInjectionState} (known : s.injections[id]? = some call)
    (h : ∀ owner place, s.tasks[call.task]? = some owner →
      s.regions[owner.registration.region]? = some place →
      P (s.finished id call owner.registration.region place result)) :
    Does P (finishLocked id result) s fun _ s' => P s' ∧ State.SameCallsBut id s s' := by
  obtain ⟨owner, ho⟩ := Option.isSome_iff_exists.1 (hi.owned.task id call known)
  obtain ⟨place, hp⟩ := Option.isSome_iff_exists.1 (hi.owned.region _ owner ho)
  refine get_then ?_
  rw [known]
  refine index_then ho (index_then hp ⟨h owner place ho hp, fun j hj => ?_⟩)
  change (s.injections.insert id _)[j]? = _
  rw [getElem?_insert, if_neg (Ne.symm hj)]

theorem backendUnknownOutcome_keeps (hP : Stable Calm P) (hs : P s)
    (h : ∀ s' call owner place, P s' → s'.injections = s.injections →
      s'.injections[id]? = some call → s'.tasks[call.task]? = some owner →
      s'.regions[owner.registration.region]? = some place →
      P (s'.finished id call owner.registration.region place .outcomeUnknown)) :
    Keeps P (backendUnknownOutcome id) s := by
  refine get_then (orUnavailable_then hs fun call hc => ?_)
  refine (exposeUnknownLifecycle_does hP hs).bind ?_
  rintro _ s' ⟨hp, hcalls⟩
  have hc' : s'.injections[id]? = some call := by rw [hcalls, hc]
  exact (finishLocked_does (hP.invariant hp) hc' fun owner place ho hr =>
    h s' call owner place hp hcalls hc' ho hr).mono (fun _ _ h => h.1) fun _ _ h => h

end

section
variable {P : State → Prop} {s : State} (hP : Stable Calm P)
include hP

/-- A property stays stable together with the entries of a fixed state and its
    frozen groups. -/
theorem Stable.grows : Stable Calm fun s' => P s' ∧ s.Grows s' ∧ s'.frozenGroups = s.frozenGroups :=
  ⟨fun h => hP.invariant h.1, fun h c => ⟨hP.step h.1 c,
    h.2.1.trans (c.quiet.grows (hP.invariant h.1).fresh), c.groups.trans h.2.2⟩⟩

variable {id : PhysicalInjectionId} {call : Injection} {result : PhysicalInjectionState}
  {prepared : PhysicalInjectionId → Registry Unit} {task t parent displaced former : InputTaskId}
  {s' s'' : State} {r : RegionLifetime} {owner : Task} {f : ℕ} {group : ThreadGroupLifetime}
  {files : FileTableLifetime} {memoryShared filesShared : Option Bool} {pid tid : ℤ}

theorem finish_does (hs : P s) (known : s.injections[id]? = some call)
    (allowed : call.CanFinish result) :
    Does P (finishLocked id result) s fun _ s' => P s' ∧ State.SameCallsBut id s s' :=
  finishLocked_does (hP.invariant hs) known fun _ _ ho hr => hP.step hs
    (.of (.finish known ho hr allowed) rfl rfl rfl)

theorem finish_keeps (hs : P s) (known : s.injections[id]? = some call)
    (allowed : call.CanFinish result) : Keeps P (finishLocked id result) s :=
  (finish_does hP hs known allowed).mono (fun _ _ h => h.1) fun _ _ h => h

/-- What a loop over unfinished calls does with one that never ran. -/
def SettlesPrepared (P : State → Prop) (prepared : PhysicalInjectionId → Registry Unit) : Prop :=
  ∀ {s id call}, P s → s.injections[id]? = some call → call.state = .prepared →
    ¬ call.HalfWritten →
    Does P (prepared id) s fun _ s' => P s' ∧ State.SameCallsBut id s s'

theorem settleOne_does (hprep : SettlesPrepared P prepared) (hs : P s)
    (hc : s.injections[id]? = some call) (hopen : call.state.settled = false) :
    Does P (settleOne prepared id) s fun _ s' => P s' ∧ State.SameCallsBut id s s' := by
  refine get_then (index_then hc ?_)
  split_ifs with hun hiss
  · exact set_then (unavailable_does (hP.step hs (.fail s _)))
  · refine (exposeUnknownLifecycle_does hP hs).bind ?_
    rintro _ s' ⟨hp, hcalls⟩
    refine (finish_does hP hp (by rw [hcalls, hc]) (.ran hiss rfl)).mono ?_ fun _ _ h => h
    rintro _ s'' ⟨hp', hsame⟩
    exact ⟨hp', fun j hj => by rw [hsame j hj, hcalls]⟩
  · refine hprep hs hc ?_ ?_
    · rcases hst : call.state with _ | _ | _ | _ | _ <;> simp_all [PhysicalInjectionState.settled]
    · rintro (h | h) <;> simp [h, InputTransactionPhase.unsettled] at hun

/-- The loop settles the unfinished calls of a task one by one; the calls it has
    not reached are as they were. -/
theorem settleUnfinished_keeps (hprep : SettlesPrepared P prepared) (hs : P s) :
    Keeps P (settleUnfinished task prepared) s := by
  have hnodup : (s.unfinished task).Nodup := by
    refine List.Nodup.sublist (List.Sublist.map _ List.filter_sublist) ?_
    rw [Std.TreeMap.map_fst_toList_eq_keys]
    exact Std.TreeMap.nodup_keys
  refine (Ensures.forM (fun done s' => P s' ∧ ∀ j, j ∉ done → s'.injections[j]? = s.injections[j]?)
    ?_ ⟨hs, fun _ _ => rfl⟩).mono (fun _ _ h => h.1) fun _ _ h => h
  rintro done id rest s' hxs ⟨hp, hsame⟩
  have hnew : id ∉ done := fun hd => by
    rw [hxs] at hnodup
    exact (List.nodup_append.1 hnodup).2.2 id hd id List.mem_cons_self rfl
  obtain ⟨⟨id', call⟩, hmem, rfl⟩ := List.mem_map.1 (show id ∈ s.unfinished task by rw [hxs]; simp)
  obtain ⟨hmem, hopen⟩ := List.mem_filter.1 hmem
  simp only [Bool.and_eq_true, Bool.not_eq_eq_eq_not] at hopen
  have hc : s'.injections[id']? = some call := by
    rw [hsame id' hnew, Std.TreeMap.mem_toList_iff_getElem?_eq_some.1 hmem]
  refine (settleOne_does hP hprep hp hc hopen.2).mono ?_ fun _ _ h => h
  rintro _ s'' ⟨hp', hsame'⟩
  refine ⟨hp', fun j hj => ?_⟩
  rw [List.mem_append, List.mem_singleton, not_or] at hj
  rw [hsame' j hj.2, hsame j hj.1]

theorem terminalGateLocked_keeps (hs : P s) : Keeps P (terminalGateLocked task) s :=
  settleUnfinished_keeps hP (fun hs hc hst hw => finish_does hP hs hc (.notRun hst hw)) hs

theorem backendCancelInjections_keeps (hs : P s) : Keeps P (backendCancelInjections task) s := by
  refine get_then (orUnavailable_then hs fun owner ht => set_then ?_)
  refine settleUnfinished_keeps hP (fun hs _ _ _ => Ensures.pure ⟨hs, fun _ _ => rfl⟩) ?_
  exact hP.step hs (.task ht ⟨rfl, rfl, id, id, by simp⟩)

theorem completeAccesses_keeps (hs : P s) : Keeps P (completeAccesses task) s := by
  refine hP.step hs (.of (.accesses _ fun n => ?_) rfl rfl rfl)
  rw [Std.TreeMap.getElem?_map]
  rcases s.accesses[n]? with _ | access
  · exact .keep _
  · rw [Option.map_some]
    split_ifs
    · exact .touch _ _ rfl rfl fun _ => rfl
    · exact .keep _

/-- The task's effects are complete. -/
def State.Ended (s : State) (t : InputTaskId) : Prop :=
  ∃ owner, s.tasks[t]? = some owner ∧ owner.nativeEffectsComplete = true

omit hP in
theorem State.Ended.calm {s : State} (h : s.Ended t) (hi : Invariant s)
    (c : Calm s s') : s'.Ended t := by
  obtain ⟨owner, ho, hended⟩ := h
  obtain ⟨new, hnew, -⟩ := (c.quiet.grows hi.fresh).task t owner ho
  rcases c.quiet.descends with ⟨registration, freezes, joined, rfl, registers, -⟩ | ⟨hd, -⟩
  · have hsome := c.tasks registration.task (by simp [State.published])
    rw [registers.new] at hsome
    cases hsome
  · obtain ⟨old, hold, hc⟩ := hd t new hnew
    rw [ho] at hold
    cases hold
    exact ⟨new, hnew, hc.effects hended⟩

omit hP in
theorem Stable.ended (hP : Stable Calm P) (t : InputTaskId) :
    Stable Calm fun s => P s ∧ s.Ended t :=
  ⟨fun h => hP.invariant h.1, fun h c => ⟨hP.step h.1 c, h.2.calm (hP.invariant h.1) c⟩⟩

theorem effectsCompleteLocked_ends (hs : P s) :
    Does P (effectsCompleteLocked task) s fun _ s' => P s' ∧ s'.Ended task := by
  refine (terminalGateLocked_keeps hP hs).andThen fun _ s₁ h₁ => get_then ?_
  refine orUnavailable_then h₁ fun owner ho => set_then ?_
  have h₂ : P { s₁ with
      tasks := s₁.tasks.insert task
        { owner with nativeEffectsComplete := true, grant := none } } :=
    hP.step h₁ (.task ho ⟨rfl, rfl, id, fun _ => rfl, by simp⟩)
  have hdone : Does (fun s => P s ∧ s.Ended task) (completeAccesses task) _
      fun _ s' => P s' ∧ s'.Ended task :=
    completeAccesses_keeps (hP.ended task) ⟨h₂, _, by rw [getElem?_insert, if_pos rfl], rfl⟩
  exact hdone.mono (fun _ _ h => h) fun _ _ h => ⟨h.1.1, h.2⟩

theorem effectsCompleteLocked_keeps (hs : P s) : Keeps P (effectsCompleteLocked task) s :=
  Ensures.mono (effectsCompleteLocked_ends hP hs) (fun _ _ h => h.1) fun _ _ h => h

theorem observeRetainedEffects_keeps (hs : P s) : Keeps P (observeRetainedEffects task) s := by
  refine get_then (orUnavailable_then hs fun owner _ => ?_)
  split_ifs
  · exact hs
  · exact (effectsCompleteLocked_keeps hP hs).andThen fun _ _ h => h
  · exact hs

theorem Stable.forget (hs : P s) (old : InputTaskId) : P { s with
    byTid := if s.byTid[old.tid]? = some old then s.byTid.erase old.tid else s.byTid } := by
  split_ifs
  · exact hP.step hs (.of (.forget s _) rfl rfl rfl)
  · exact hs

theorem backendTerminal_keeps (hs : P s) : Keeps P (backendTerminal task) s := by
  refine get_then (orUnavailable_then hs fun owner ht => set_then ?_)
  refine Keeps.andThen (effectsCompleteLocked_keeps hP ?_) fun _ _ h => completeAccesses_keeps hP h
  have hp : P { s with
      tasks := s.tasks.insert task { owner with nativeTerminal := true, grant := none } } :=
    hP.step hs (.task ht ⟨rfl, rfl, fun _ => rfl, id, by simp⟩)
  exact hP.forget hp task

theorem backendFail_keeps (hs : P s) {reason : String} : Keeps P (backendFail reason) s :=
  hP.step hs (.fail s reason)

/-! ## Registering tasks -/

omit hP in
theorem Invariant.task_new (hi : Invariant s) (h : s.next < t.generation) : s.tasks[t]? = none := by
  rw [Option.eq_none_iff_forall_ne_some]
  intro owner ho
  exact absurd (hi.fresh.task t owner ho).1 (by omega)

omit hP in
theorem Invariant.region_new (hi : Invariant s) (h : s.next < r.generation) :
    s.regions[r]? = none := by
  rw [Option.eq_none_iff_forall_ne_some]
  intro place hp
  exact absurd (hi.fresh.region r place hp) (by omega)

omit hP in
theorem Invariant.groups_new (hi : Invariant s) {g : ThreadGroupLifetime}
    (h : s.next < g.generation) : s.frozenGroups.getD g ∅ = ∅ := by
  have hnone : s.frozenGroups[g]? = none := by
    rw [Option.eq_none_iff_forall_ne_some]
    intro freezes hf
    exact absurd (hi.fresh.group g freezes hf) (by omega)
  rw [Std.TreeMap.getD_eq_getD_getElem?, hnone, Option.getD_none]

omit hP in
theorem Invariant.isSome_of_frozen (hi : Invariant s) (ho : s.tasks[t]? = some owner)
    (hf : f ∈ owner.frozen) : s.freezes[f]?.isSome := by
  obtain ⟨members, hm, _⟩ := (hi.freezes.frozen t owner ho f).1 hf
  exact Option.isSome_iff_exists.2 ⟨members, hm⟩

omit hP in
theorem Invariant.isSome_of_group (hi : Invariant s) (hf : f ∈ s.frozenGroups.getD group ∅) :
    s.freezes[f]?.isSome := by
  rw [Std.TreeMap.getD_eq_getD_getElem?] at hf
  rcases hg : s.frozenGroups[group]? with _ | freezes <;> rw [hg] at hf
  · exact absurd hf not_mem_emptyc
  · exact hi.freezes.group group freezes hg f hf

variable {run : ℕ}

omit hP in
theorem Invariant.files_new (hi : Invariant s) (ho : s.tasks[t]? = some owner)
    (h : s.next < files.generation) :
    owner.registration.files ≠ files := by
  rintro rfl
  obtain ⟨b, hb⟩ := Option.isSome_iff_exists.1 (hi.histories.files t owner ho)
  exact absurd (hi.histories.filesBound _ b hb) (by omega)

omit hP in
theorem Invariant.group_new (hi : Invariant s) (ho : s.tasks[t]? = some owner)
    (h : s.next < group.generation) :
    owner.registration.group ≠ group := by
  rintro rfl
  exact absurd (hi.fresh.task t owner ho).2 (by omega)

omit hP in
theorem Invariant.taskRegion_new (hi : Invariant s) {region : RegionLifetime}
    (ho : s.tasks[t]? = some owner) (h : s.next < region.generation) :
    owner.registration.region ≠ region := by
  rintro rfl
  obtain ⟨place, hp⟩ := Option.isSome_iff_exists.1 (hi.owned.region t owner ho)
  exact absurd (hi.fresh.region _ place hp) (by omega)

omit hP in
theorem Invariant.filesEntry_new (hi : Invariant s)
    (h : s.next < files.generation) : s.filesPossiblyShared[files]? = none := by
  rw [Option.eq_none_iff_forall_ne_some]
  intro b hb
  exact absurd (hi.histories.filesBound files b hb) (by omega)

omit hP in
theorem Invariant.groupEntry_new (hi : Invariant s)
    (h : s.next < group.generation) : s.groupsMayHaveOtherThreads[group]? = none := by
  rw [Option.eq_none_iff_forall_ne_some]
  intro b hb
  exact absurd (hi.histories.groupsBound group b hb) (by omega)

/-- The part of the state that registering a task reads at its end. -/
structure State.Apart (s s' : State) : Prop where
  tasks : s'.tasks = s.tasks
  freezes : s'.freezes = s.freezes
  groups : s'.frozenGroups = s.frozenGroups
  next : s.next ≤ s'.next
  region : ∀ r : RegionLifetime, s.regions[r]?.isSome → s'.regions[r]?.isSome

/-- The tables of possible sharing are the same. -/
structure State.SameMarks (s s' : State) : Prop where
  files : s'.filesPossiblyShared = s.filesPossiblyShared
  groups : s'.groupsMayHaveOtherThreads = s.groupsMayHaveOtherThreads
  regions : s'.regionsMayHaveOtherProcesses = s.regionsMayHaveOtherProcesses

omit hP in
theorem State.Apart.trans {s : State} (h : s.Apart s') (h' : s'.Apart s'') : s.Apart s'' :=
  ⟨h'.tasks.trans h.tasks, h'.freezes.trans h.freezes, h'.groups.trans h.groups,
    h.next.trans h'.next, fun r hr => h'.region r (h.region r hr)⟩

omit hP in
theorem State.SameMarks.trans {s : State} (h : s.SameMarks s') (h' : s'.SameMarks s'') :
    s.SameMarks s'' :=
  ⟨h'.files.trans h.files, h'.groups.trans h.groups, h'.regions.trans h.regions⟩

omit hP in
theorem State.Apart.bump (s : State) : s.Apart { s with next := s.next + 1 } :=
  ⟨rfl, rfl, rfl, Nat.le_succ _, fun _ => id⟩

theorem childRegion_does (hs : P s) {parent : RegionLifetime} (hr : s.regions[parent]?.isSome) :
    Does P (childRegion run parent memoryShared) s fun r s' => P s' ∧ s.Apart s' ∧
      s.SameMarks s' ∧ s'.regions[r]?.isSome ∧
      (memoryShared ≠ some false ∧ r = parent ∨ memoryShared = some false ∧ s.next < r.generation) := by
  have hi := hP.invariant hs
  unfold childRegion
  split_ifs with hshared
  · obtain ⟨place, hp⟩ := Option.isSome_iff_exists.1 hr
    have h1 := hP.step hs (.bump s)
    refine next_then hs (get_then (index_then hp (set_then ⟨?_, ?_, ⟨rfl, rfl, rfl⟩, ?_,
      Or.inr ⟨hshared, Nat.lt_succ_self _⟩⟩)))
    · exact hP.step h1 (.addRegion _ _ (hi.region_new (by simp)) (by simp) rfl
        (hi.transactions.layout parent place hp))
    · refine ⟨rfl, rfl, rfl, Nat.le_succ _, fun r hr => ?_⟩
      simp only [getElem?_insert]
      split_ifs
      · rfl
      · exact hr
    · simp
  · exact ⟨hs, ⟨rfl, rfl, rfl, le_rfl, fun _ => id⟩, ⟨rfl, rfl, rfl⟩, hr, Or.inl ⟨hshared, rfl⟩⟩

theorem childFiles_does (hs : P s) {parent : FileTableLifetime} (hb : parent.generation ≤ s.next) :
    Does P (childFiles run parent filesShared) s fun files s' => P s' ∧ s.Apart s' ∧
      s.SameMarks s' ∧ files.generation ≤ s'.next ∧
      (filesShared ≠ some false ∧ files = parent ∨
        filesShared = some false ∧ s.next < files.generation) := by
  unfold childFiles
  split_ifs with hshared
  · exact next_then hs ⟨hP.step hs (.bump s), .bump s, ⟨rfl, rfl, rfl⟩, le_rfl,
      Or.inr ⟨hshared, Nat.lt_succ_self _⟩⟩
  · exact ⟨hs, ⟨rfl, rfl, rfl, le_rfl, fun _ => id⟩, ⟨rfl, rfl, rfl⟩, hb, Or.inl ⟨hshared, rfl⟩⟩

theorem childGroup_does (hs : P s) {parent : InputTaskRegistration}
    (hg : parent.group.generation ≤ s.next) :
    Does P (childGroup run parent pid) s fun group s' => P s' ∧ s.Apart s' ∧ s.SameMarks s' ∧
      group.generation ≤ s'.next ∧
      (pid = parent.nativePid ∧ group = parent.group ∨
        pid ≠ parent.nativePid ∧ s.next < group.generation) := by
  unfold childGroup
  split_ifs with hpid
  · exact ⟨hs, ⟨rfl, rfl, rfl, le_rfl, fun _ => id⟩, ⟨rfl, rfl, rfl⟩, hg, Or.inl ⟨hpid, rfl⟩⟩
  · exact next_then hs ⟨hP.step hs (.bump s), .bump s, ⟨rfl, rfl, rfl⟩, le_rfl,
      Or.inr ⟨hpid, Nat.lt_succ_self _⟩⟩

theorem exposeUnknownMemory_does (hs : P s) (hr : s.regions[r]?.isSome) :
    Does P (exposeUnknownMemory r memoryShared) s fun _ s' => P s' ∧ s.Apart s' ∧
      s.SameMarks s' := by
  unfold exposeUnknownMemory
  split_ifs
  · obtain ⟨place, hp⟩ := Option.isSome_iff_exists.1 hr
    refine get_then (index_then hp (set_then ⟨hP.step hs (.of (.expose _ hp) rfl rfl rfl),
      ⟨rfl, rfl, rfl, le_rfl, ?_⟩, ⟨rfl, rfl, rfl⟩⟩))
    intro r' hr'
    simp only [getElem?_insert]
    split_ifs
    · rfl
    · exact hr'
  · exact ⟨hs, ⟨rfl, rfl, rfl, le_rfl, fun _ => id⟩, ⟨rfl, rfl, rfl⟩⟩

omit hP in
theorem publishTask_keeps {registration : InputTaskRegistration} {freezes : Std.TreeSet ℕ}
    (new : s.tasks[registration.task]? = none) (bound : registration.task.generation ≤ s.next)
    (groupBound : registration.group.generation ≤ s.next)
    (region : s.regions[registration.region]?.isSome) (exist : ∀ f ∈ freezes, s.freezes[f]?.isSome)
    (group : ∀ f ∈ s.frozenGroups.getD registration.group ∅, f ∈ freezes)
    (h : ∀ joined, s.Registers registration freezes joined →
      P (s.published registration freezes joined)) :
    Keeps P (publishTask registration freezes) s := by
  obtain ⟨joined, hj⟩ := Option.isSome_iff_exists.1
    (updateAll_isSome (f := fun ms : Std.TreeSet InputTaskId => ms.insert registration.task)
      fun f hf => exist f (mem_toList.1 hf))
  unfold publishTask
  refine get_then (index_then hj ?_)
  exact h joined ⟨new, bound, groupBound, region, hj, group⟩

omit hP in
theorem notifyFiles_then {β : Type} (hs : P s) {observer : InputFilesEvent → Option Reason}
    {event : InputFilesEvent} {f : PUnit → Registry β} {Q : β → State → Prop}
    (h : Does P (f ⟨⟩) s Q) : Does P (notifyFiles observer event >>= f) s Q := by
  unfold notifyFiles
  rcases observer event with _ | reason
  · exact h
  · exact Ensures.bind (Q := fun _ _ => False) (unavailable_does hs) fun _ _ h => h.elim

theorem registerNewChild_keeps (hs : P s) {observer : InputFilesEvent → Option Reason}
    (ho : s.tasks[parent]? = some owner)
    (h : ∀ s' registration freezes joined, P s' → s'.tasks = s.tasks →
      s'.Registers registration freezes joined → s'.Births registration →
      (∀ f ∈ owner.frozen, f ∈ freezes) → P (s'.published registration freezes joined)) :
    Keeps P (registerNewChild run parent owner tid pid memoryShared filesShared observer) s := by
  have hi := hP.invariant hs
  obtain ⟨b, hb⟩ := Option.isSome_iff_exists.1 (hi.histories.files parent owner ho)
  refine (childRegion_does hP hs (hi.owned.region parent owner ho)).bind ?_
  rintro region s₁ ⟨h₁, ha₁, hm₁, hr₁, hregion⟩
  refine (childFiles_does hP h₁ ((hi.histories.filesBound _ b hb).trans ha₁.next)).bind ?_
  rintro files s₂ ⟨h₂, ha₂, hm₂, hfb, hfiles⟩
  have hmarks : s₂.Marks (s₂.filesPossiblyShared.insert files (filesShared ≠ some false))
      s₂.groupsMayHaveOtherThreads s₂.regionsMayHaveOtherProcesses := by
    refine (hP.invariant h₂).histories.marks.setFiles hfb ?_
    rcases hfiles with ⟨hshared, -⟩ | ⟨-, hnew⟩
    · exact Or.inl (decide_eq_true hshared)
    · rw [(hm₁.trans hm₂).files]
      exact Or.inr (hi.filesEntry_new (ha₁.next.trans_lt hnew))
  have h₃ := hP.step h₂ (.history _ hmarks)
  refine modify_then (next_then h₃ ?_)
  have h₃' := hP.step h₃ (.bump _)
  have hg : owner.registration.group.generation ≤ s₂.next :=
    ((hi.fresh.task parent owner ho).2.trans ha₁.next).trans ha₂.next
  refine (childGroup_does hP h₃' (Nat.le_succ_of_le hg)).bind ?_
  rintro group s₄ ⟨h₄, ha₄, hm₄, hg₄, hgroup⟩
  refine get_then (modify_then ?_)
  have hmarks₄ : s₄.Marks s₄.filesPossiblyShared
      (if pid = owner.registration.nativePid then s₄.groupsMayHaveOtherThreads.insert group true
        else s₄.groupsMayHaveOtherThreads.insertIfNew group false)
      (if pid ≠ owner.registration.nativePid ∧ memoryShared ≠ some false
        then s₄.regionsMayHaveOtherProcesses.insert region
        else s₄.regionsMayHaveOtherProcesses) := by
    have hm := (hP.invariant h₄).histories.marks
    split_ifs
    · exact (hm.setGroup hg₄).setRegion region
    · exact hm.setGroup hg₄
    · exact (hm.newGroup hg₄).setRegion region
    · exact hm.newGroup hg₄
  refine Ensures.bind (exposeUnknownMemory_does hP (hP.step h₄ (.history _ hmarks₄)) ?_) ?_
  · exact ha₄.region _ (ha₂.region _ hr₁)
  rintro _ s₅ ⟨h₅, ha₅, hm₅⟩
  have ha₃ : s₂.Apart s₄ :=
    ⟨ha₄.tasks, ha₄.freezes, ha₄.groups, (Nat.le_succ _).trans ha₄.next, ha₄.region⟩
  have ha : s.Apart s₅ := (ha₁.trans (ha₂.trans ha₃)).trans
    ⟨ha₅.tasks, ha₅.freezes, ha₅.groups, ha₅.next, ha₅.region⟩
  have hgroups := (ha₁.trans (ha₂.trans ha₃)).groups
  refine Keeps.andThen (publishTask_keeps ?_ ?_ ?_ ?_ ?_ ?_ fun joined registers => ?_)
    fun _ _ h => notifyFiles_then h h
  · rw [ha.tasks]
    exact hi.task_new (Nat.lt_succ_of_le (ha₁.next.trans ha₂.next))
  · exact le_trans ha₄.next ha₅.next
  · exact hg₄.trans ha₅.next
  · exact ha₅.region _ (ha₃.region _ (ha₂.region _ hr₁))
  · intro f hf
    rw [ha.freezes]
    rcases mem_union_iff.1 hf with hf | hf
    · exact hi.isSome_of_frozen ho hf
    · rw [hgroups] at hf
      exact hi.isSome_of_group hf
  · intro f hf
    rw [ha.groups] at hf
    rw [hgroups]
    exact mem_union_iff.2 (Or.inr hf)
  · refine h s₅ _ _ joined h₅ ha.tasks registers ⟨?_, ?_, ?_⟩ fun f hf =>
      mem_union_iff.2 (Or.inl hf)
    · rw [hm₅.files, ha.tasks]
      rw [hm₄.files]
      rw [getElem?_insert, if_pos rfl]
      rcases hfiles with ⟨hshared, -⟩ | ⟨hshared, hnew⟩
      · exact Or.inl (congrArg some (decide_eq_true hshared))
      · refine Or.inr ⟨congrArg some (decide_eq_false (not_not.2 hshared)), fun t other hother => ?_⟩
        exact hi.files_new hother (ha₁.next.trans_lt hnew)
    · rw [hm₅.groups, ha.tasks]
      rcases hgroup with ⟨hpid, -⟩ | ⟨hpid, hnew⟩
      · rw [if_pos hpid, getElem?_insert, if_pos rfl]
        exact Or.inl rfl
      · have hlt : s.next < group.generation :=
          lt_of_le_of_lt ((ha₁.next.trans ha₂.next).trans (Nat.le_succ _)) hnew
        have hnone : s₄.groupsMayHaveOtherThreads[group]? = none := by
          rw [hm₄.groups]
          rw [(hm₁.trans hm₂).groups]
          exact hi.groupEntry_new hlt
        rw [if_neg hpid, getElem?_insertIfNew, if_pos ⟨rfl, hnone⟩]
        exact Or.inr ⟨rfl, fun t other hother => hi.group_new hother hlt⟩
    · rw [hm₅.regions, ha.tasks]
      dsimp only
      rcases hregion with ⟨hshared, rfl⟩ | ⟨-, hnew⟩
      · by_cases hpid : pid = owner.registration.nativePid
        · exact Or.inr (Or.inr ⟨parent, owner, ho, rfl, hpid.symm⟩)
        · rw [if_pos ⟨hpid, hshared⟩]
          exact Or.inl (mem_insert.2 (Or.inl rfl))
      · exact Or.inr (Or.inl fun t other hother => hi.taskRegion_new hother hnew)

theorem backendRegisterChild_keeps (hs : P s) {observer : InputFilesEvent → Option Reason}
    (h : ∀ owner s' registration freezes joined, s.tasks[parent]? = some owner → P s' →
      s'.tasks = s.tasks → s'.Registers registration freezes joined → s'.Births registration →
      (∀ f ∈ owner.frozen, f ∈ freezes) → P (s'.published registration freezes joined)) :
    Keeps P (backendRegisterChild run parent tid pid memoryShared filesShared observer) s := by
  refine live_then hs fun owner hl => get_then ?_
  rcases ht : s.byTid[tid]? with _ | existing
  · exact registerNewChild_keeps hP hs hl.task fun s' registration freezes joined =>
      h owner s' registration freezes joined hl.task
  · obtain ⟨known, hk⟩ := Option.isSome_iff_exists.1 ((hP.invariant hs).owned.tid tid existing ht)
    exact index_then hk (refuse_then hs fun _ => hs)

theorem endPredecessors_ends (hs : P s) :
    Does P (endPredecessors displaced former) s fun _ s' => P s' ∧ s'.Ended former := by
  refine (effectsCompleteLocked_ends hP hs).bind fun _ s₁ h₁ => ?_
  split_ifs with hne
  · exact effectsCompleteLocked_ends hP h₁.1
  · rw [not_not.1 hne]
    exact h₁

theorem freshImage_does (hs : P s) :
    Does P (freshImage run tid) s fun image s' => P s' ∧ s.Apart s' ∧
      s'.regions[image.2.1]?.isSome ∧ s.next < image.1.generation ∧
      image.1.generation ≤ s'.next ∧ s.next < image.2.1.generation ∧
      s.next < image.2.2.generation ∧ s'.filesPossiblyShared[image.2.2]? = some false := by
  have hi := hP.invariant hs
  refine next_then hs ?_
  have h₁ := hP.step hs (.bump s)
  refine next_then h₁ ?_
  have h₂ := hP.step h₁ (.bump _)
  refine next_then h₂ (modify_then ⟨?_, ⟨rfl, rfl, rfl, ?_, fun r hr => ?_⟩, ?_, ?_, ?_, ?_, ?_, ?_⟩)
  · have h₃ := hP.step h₂ (.bump _)
    have h₄ := hP.step h₃ (.addRegion ⟨run, s.next + 1 + 1⟩ .empty
      (hi.region_new (by simp)) (by simp) rfl (by simp [Region.empty]))
    refine hP.step h₄ (.history _ ((hP.invariant h₄).histories.marks.setFiles le_rfl (Or.inr ?_)))
    exact hi.filesEntry_new (by simp only; omega)
  · simp only
    omega
  · simp only [getElem?_insert]
    split_ifs
    · rfl
    · exact hr
  all_goals simp
  omega

theorem forgetTid_does (hs : P s) {old : InputTaskId} :
    Does P (forgetTid old) s fun _ s' => P s' ∧ s.Apart s' ∧ s.SameMarks s' :=
  ⟨hP.forget hs old, ⟨rfl, rfl, rfl, le_rfl, fun _ => id⟩, ⟨rfl, rfl, rfl⟩⟩

omit hP in
theorem Stable.since (hP : Stable Calm P) (s : State) :
    Stable Calm fun s' => P s' ∧ Relation.ReflTransGen Calm s s' :=
  ⟨fun h => hP.invariant h.1, fun h c => ⟨hP.step h.1 c, h.2.tail c⟩⟩

theorem backendExecReplacement_keeps (hs : P s) {observer : InputFilesEvent → Option Reason}
    (h : ∀ s' s'', P s' → Relation.ReflTransGen Calm s s' → Replace former s' s'' → P s'') :
    Keeps P (backendExecReplacement run displaced former observer) s := by
  have hi := hP.invariant hs
  refine get_then (refuse_then hs fun _ => orUnavailable_then hs fun leader hl => ?_)
  refine orUnavailable_then hs fun survivor hsv => refuse_then hs fun _ => ?_
  -- the freezes and the frozen groups outlive the end of the old images
  refine (Does.weaken (fun _ h => h.1.1) (endPredecessors_ends (hP.grows.since s)
    ⟨⟨hs, State.Grows.refl s, rfl⟩, .refl⟩)).bind ?_
  rintro _ s₁ ⟨⟨⟨h₁, hg, hgroups⟩, hcalm⟩, hended⟩
  have hi₁ := hP.invariant h₁
  refine (Does.weaken (fun _ h => h.1) (freshImage_does (hP.since s) ⟨h₁, hcalm⟩)).bind ?_
  rintro ⟨task, region, files⟩ s₂ ⟨h₂, ha₂, hr₂, hnew, hle, hregion, hfiles, hunshared⟩
  refine (Does.weaken (fun _ h => h.1) (forgetTid_does (hP.since s) h₂)).bind ?_
  rintro _ s₃ ⟨h₃, ha₃, hm₃⟩
  refine (Does.weaken (fun _ h => h.1) (forgetTid_does (hP.since s) h₃)).bind ?_
  rintro _ s₄ ⟨⟨h₄, hcalm₄⟩, ha₄, hm₄⟩
  have ha : s₁.Apart s₄ := ha₂.trans (ha₃.trans ha₄)
  refine Keeps.andThen (publishTask_keeps ?_ ?_ ?_ ?_ ?_ ?_ fun joined registers => ?_)
    fun _ _ h => notifyFiles_then h h
  · rw [ha.tasks]
    exact hi₁.task_new hnew
  · exact hle.trans (ha₃.trans ha₄).next
  · exact ((hi.fresh.task former survivor hsv).2.trans hg.next).trans ha.next
  · exact (ha₃.trans ha₄).region _ hr₂
  · intro f hf
    obtain ⟨members, hm⟩ := Option.isSome_iff_exists.1 (hi.isSome_of_group hf)
    obtain ⟨members', hm', _⟩ := hg.freeze f members hm
    rw [ha.freezes, hm']
    rfl
  · intro f hf
    rw [ha.groups, hgroups] at hf
    exact hf
  · refine h s₄ _ h₄ hcalm₄ (.replace registers ⟨⟨?_, ?_⟩, ?_, ?_⟩)
    · rw [(hm₃.trans hm₄).files]
      exact hunshared
    · rw [ha.tasks]
      exact fun t owner ho => hi₁.files_new ho hfiles
    · obtain ⟨owner, ho, heffects⟩ := hended
      obtain ⟨owner', ho', -, hgroup⟩ := hg.task former survivor hsv
      rw [ho] at ho'
      cases ho'
      exact ⟨owner, by rw [ha.tasks, ho], hgroup, heffects⟩
    · rw [ha.tasks]
      exact fun t owner ho => hi₁.taskRegion_new ho hregion

end

section
variable {P : State → Prop} {s : State} (hP : Stable Quiet P)
include hP

variable {run : ℕ}

theorem backendRegisterRoot_keeps (hs : P s) {tid pid : ℤ} :
    Keeps P (backendRegisterRoot run tid pid) s := by
  have hi := hP.invariant hs
  refine get_then (refuse_then hs fun _ => next_then hs ?_)
  have h1 := hP.step hs (.bump s)
  refine next_then h1 ?_
  have h2 := hP.step h1 (.bump _)
  refine next_then h2 ?_
  have h3 := hP.step h2 (.bump _)
  refine next_then h3 (modify_then ?_)
  have h4 := hP.step h3 (.bump _)
  have h5 := hP.step h4 (.addRegion ⟨run, s.next + 1 + 1⟩ .empty
    (hi.region_new (by simp)) (by simp) rfl (by simp [Region.empty]))
  have hfiles : s.next < (⟨run, s.next + 1 + 1 + 1⟩ : FileTableLifetime).generation := by
    simp only
    omega
  have hgroup : s.next < (⟨run, s.next + 1 + 1 + 1 + 1⟩ : ThreadGroupLifetime).generation := by
    simp only
    omega
  have h6 := hP.step h5 (.history _ (s.filesPossiblyShared.insert ⟨run, s.next + 1 + 1 + 1⟩ false)
    (s.groupsMayHaveOtherThreads.insertIfNew ⟨run, s.next + 1 + 1 + 1 + 1⟩ false)
    s.regionsMayHaveOtherProcesses (((hP.invariant h5).histories.marks.setFiles (by simp)
      (Or.inr (hi.filesEntry_new hfiles))).newGroup le_rfl))
  refine hP.step h6 (@Quiet.publish _ ⟨⟨run, s.next + 1, tid⟩, tid, pid, none, none,
    ⟨run, s.next + 1 + 1 + 1 + 1⟩, none, ⟨run, s.next + 1 + 1⟩, ⟨run, s.next + 1 + 1 + 1⟩⟩ ∅ s.freezes
    ⟨hi.task_new (by simp), by simp, by simp, by simp, rfl, ?_⟩ ⟨Or.inr ⟨?_, ?_⟩, Or.inr ⟨?_, ?_⟩,
      Or.inr (Or.inl ?_)⟩)
  · -- no freeze names a group that did not exist
    intro f hf
    have hnone : s.frozenGroups.getD ⟨run, s.next + 1 + 1 + 1 + 1⟩ ∅ = ∅ := hi.groups_new hgroup
    rwa [hnone] at hf
  · simp only [getElem?_insert, if_true]
  · exact fun t owner ho => hi.files_new ho hfiles
  · simp only [getElem?_insertIfNew, true_and, hi.groupEntry_new hgroup, if_true]
  · exact fun t owner ho => hi.group_new ho hgroup
  · exact fun t owner ho => hi.taskRegion_new ho (by simp only; omega)

/-! ## Page transactions -/

variable {receipt id : PhysicalInjectionId} {task : InputTaskId}

omit hP in
theorem backendBindInjection_keeps (hs : P s) {number : ℕ} {args : Vector ℕ 6} :
    Keeps P (backendBindInjection run receipt task number args) s := by
  unfold backendBindInjection
  refine get_then (orUnavailable_then hs fun _ _ => live_then hs fun _ _ => ?_)
  refine (refuse_does hs).mono ?_ fun _ _ h => h
  rintro _ _ ⟨rfl, _⟩
  exact hs

theorem backendBeginPreparation_keeps (hs : P s)
    {scope : InputOperationScope} {image : ReservedInputImage} :
    Keeps P (backendBeginPreparation run receipt scope image) s := by
  have hi := hP.invariant hs
  refine validateScope_then hs fun _ _ _ _ => live_then hs fun owner hl => get_then ?_
  obtain ⟨place, hr⟩ := Option.isSome_iff_exists.1 (hi.owned.region _ owner hl.task)
  refine index_then hr (refuse_then hs fun hidle => refuse_then hs fun hlay => ?_)
  refine orUnavailable_then hs fun call hc => refuse_then hs fun hb => ?_
  simp only [not_or, not_not] at hb hlay
  obtain ⟨htask, _, _, hst, hph⟩ := hb
  have hstep := hP.step hs (.beginPreparation image hc (by rw [htask, hl.task]) hr
    (by simpa using hidle) hlay hst (by simpa using hph))
  exact updateRegion_then hr (updateInjection_keeps hc hstep)

omit hP in
theorem firstExposure_does {r : RegionLifetime} (hr : s.regions[r]?.isSome) :
    Does P (firstExposure r) s fun _ s' => s' = s := by
  obtain ⟨place, hp⟩ := Option.isSome_iff_exists.1 hr
  unfold firstExposure
  refine get_then ?_
  rcases s.globalExposures with _ | ⟨exposure, _⟩
  · exact index_then hp rfl
  · exact Ensures.pure rfl

omit hP in
theorem refuseCause_then {β : Type} (hs : P s) {cause : Option Reason} {f : PUnit → Registry β}
    {Q : β → State → Prop} (h : cause = none → Does P (f ⟨⟩) s Q) :
    Does P (refuseCause cause >>= f) s Q := by
  unfold refuseCause
  rcases cause with _ | reason
  · exact h rfl
  · exact Ensures.bind (Q := fun _ _ => False) (unavailable_does hs) fun _ _ h => h.elim

variable (hs : P s)
include hs

theorem backendPreparedStopped_does :
    Does P (backendPreparedStopped id) s fun image s' => P s' ∧ s'.Scanned id image := by
  have hi := hP.invariant hs
  refine get_then (orUnavailable_then hs fun call hc => live_then hs fun owner hl => ?_)
  refine refuse_then hs fun hb => refuse_then hs fun _ => orUnavailable_then hs fun image him => ?_
  refine (firstExposure_does (hi.owned.region _ owner hl.task)).bind fun exposure s' hs' => ?_
  subst hs'
  refine refuseCause_then hs fun _ => refuseCause_then hs fun hscan => ?_
  refine updateInjection_then hc ⟨?_, _, by rw [getElem?_insert, if_pos rfl], Or.inr ?_⟩
  · simp only [not_or, not_not] at hb
    refine hP.step hs (.preparedStopped hc hl.task hb.1 him fun n access ha hreach => ?_)
    have hnone := List.find?_eq_none.1 (Option.map_eq_none_iff.1 hscan) access
      (mem_values.2 ⟨n, ha⟩)
    simpa [hreach] using hnone
  · simp [him]

theorem backendPreparedStopped_keeps : Keeps P (backendPreparedStopped id) s :=
  (backendPreparedStopped_does hP hs).mono (fun _ _ h => h.1) fun _ _ h => h

theorem backendInitializing_keeps : Keeps P (backendInitializing id) s := by
  refine get_then (orUnavailable_then hs fun call hc => refuse_then hs fun hph => ?_)
  exact updateInjection_keeps hc (hP.step hs (.initializing hc (not_not.1 hph)))

theorem backendNormalizing_keeps : Keeps P (backendNormalizing id) s := by
  refine get_then (orUnavailable_then hs fun call hc => refuse_then hs fun hph => ?_)
  exact updateInjection_keeps hc (hP.step hs (.normalizing hc (not_not.1 hph)))

theorem backendSettledNotRun_keeps : Keeps P (backendSettledNotRun id) s := by
  refine get_then (orUnavailable_then hs fun call hc => refuse_then hs fun hb => ?_)
  simp only [not_or, not_not] at hb
  refine finish_keeps hP.calm hs hc (.notRun hb.1 ?_)
  rintro (h | h) <;> simp [h] at hb

theorem backendNoChild_keeps : Keeps P (backendNoChild id) s := by
  refine get_then (refuse_then hs fun hb => ?_)
  rcases hc : s.injections[id]? with _ | call <;> rw [hc] at hb
  · simp at hb
  · exact finish_keeps hP.calm hs hc (.ran (by simpa using hb) rfl)

theorem backendRetainedBirth_keeps {child : InputTaskId}
    {memoryShared filesShared : Option Bool} :
    Keeps P (backendRetainedBirth id child memoryShared filesShared) s := by
  refine get_then (orUnavailable_then hs fun call hc => ?_)
  split_ifs
  · exact hs
  · refine refuse_then hs fun hb => refuse_then hs fun _ => ?_
    simp only [not_or, not_not] at hb
    refine Ensures.bind (Ensures.forM (fun _ s' => P s' ∧ s'.injections = s.injections) ?_
      ⟨hs, rfl⟩) ?_
    · rintro _ exposure _ s' _ ⟨hp, hcalls⟩
      refine (addExposureLocked_does hP.calm hp).mono ?_ fun _ _ h => h
      rintro _ s'' ⟨hp', hcalls'⟩
      exact ⟨hp', hcalls'.trans hcalls⟩
    · rintro _ s' ⟨hp, hcalls⟩
      exact finish_keeps hP.calm hp (by rw [hcalls, hc]) (.ran hb.1 rfl)

theorem backendContinuation_keeps
    {physical : Option PhysicalInjectionId} : Keeps P (backendContinuation task physical) s := by
  have hi := hP.invariant hs
  refine live_then hs fun owner hl => get_then ?_
  obtain ⟨place, hr⟩ := Option.isSome_iff_exists.1 (hi.owned.region _ owner hl.task)
  refine index_then hr ?_
  rcases htx : place.transaction with _ | id
  · exact hs
  · obtain ⟨call, _, hc, _⟩ := (hi.transactions.writer _ place hr id).1 htx
    refine index_then hc ?_
    split_ifs
    · exact hs
    · refine (refuse_does hs).mono ?_ fun _ _ h => h
      rintro _ _ ⟨rfl, _⟩
      exact hs

end

section
variable {P : State → Prop} {s : State} (hs : P s)
include hs

/-- `backend_set_layout` does not look at the transaction of the region. -/
theorem backendSetLayout_keeps (hi : Invariant s) {task : InputTaskId} {layout : ReservedInputLayout}
    (h : ∀ owner place, s.tasks[task]? = some owner → layout.Valid →
      s.regions[owner.registration.region]? = some place →
      P { s with
        regions := s.regions.insert owner.registration.region { place with layout := some layout } }) :
    Keeps P (backendSetLayout task layout) s := by
  unfold backendSetLayout
  rcases hv : layout.validate with reason | valid
  · exact unavailable_keeps hs
  · obtain ⟨rfl, hvalid⟩ := ReservedInputLayout.valid_of_validate hv
    refine live_then hs fun owner hl => ?_
    obtain ⟨place, hr⟩ := Option.isSome_iff_exists.1 (hi.owned.region _ owner hl.task)
    exact updateRegion_keeps hr (h owner place hl.task hvalid hr)

variable {id : PhysicalInjectionId}

/-- `backend_issued` notes possible sharing before it looks at the call. -/
theorem backendIssued_keeps (hi : Invariant s)
    (history : ∀ groups regions, s.Marks s.filesPossiblyShared groups regions → P { s with
      groupsMayHaveOtherThreads := groups, regionsMayHaveOtherProcesses := regions })
    (h : ∀ groups regions call, s.Marks s.filesPossiblyShared groups regions →
      s.injections[id]? = some call → call.state = .prepared →
      (call.phase = none ∨ call.phase = some .ready) → s.NoneIssued id call.task →
      P { s with
        groupsMayHaveOtherThreads := groups
        regionsMayHaveOtherProcesses := regions
        injections := s.injections.insert id
          { call with state := .issued, phase := call.phase.map fun _ => .launched } }) :
    Keeps P (backendIssued id) s := by
  refine get_then (orUnavailable_then hs fun call hc => ?_)
  obtain ⟨owner, ho⟩ := Option.isSome_iff_exists.1 (hi.owned.task id call hc)
  have hmarks : s.Marks s.filesPossiblyShared
      (if call.description.expectedSharing.mayCreate = true ∧
          call.description.expectedSharing.threadGroup ≠ some false
        then s.groupsMayHaveOtherThreads.insert owner.registration.group true
        else s.groupsMayHaveOtherThreads)
      (if call.description.expectedSharing.mayCreate = true ∧
          call.description.expectedSharing.memory ≠ some false ∧
          call.description.expectedSharing.threadGroup ≠ some true
        then s.regionsMayHaveOtherProcesses.insert owner.registration.region
        else s.regionsMayHaveOtherProcesses) := by
    have hm := hi.histories.marks
    have hbound := (hi.fresh.task _ owner ho).2
    split_ifs
    · exact (hm.setGroup hbound).setRegion _
    · exact hm.setGroup hbound
    · exact hm.setRegion _
    · exact hm
  refine index_then ho (set_then (refuse_then (history _ _ hmarks) fun hother => ?_))
  refine refuse_then (history _ _ hmarks) fun hb => ?_
  simp only [not_or, not_not, not_and, Option.isSome_iff_ne_none] at hb
  refine updateInjection_keeps hc (h _ _ call hmarks hc hb.1 ?_ ?_)
  · by_cases hn : call.phase = none
    · exact Or.inl hn
    · exact Or.inr (hb.2 hn)
  · intro other issued hissued hne htask hstate
    refine hother (List.any_eq_true.2 ⟨(other, issued),
      Std.TreeMap.mem_toList_iff_getElem?_eq_some.2 hissued, ?_⟩)
    simp [hne, htask, hstate]

/-- `backend_verified_image` certifies the complete image of a half-written page. -/
theorem backendVerifiedImage_keeps {readback : List UInt8}
    (h : ∀ call image, s.injections[id]? = some call → call.HalfWritten →
      call.image = some image → image.bytes = readback →
      P { s with
        injections := s.injections.insert id
          { call with verifiedImage := some image, phase := some .ready } }) :
    Keeps P (backendVerifiedImage id readback) s := by
  refine get_then (orUnavailable_then hs fun call hc => refuse_then hs fun hph => ?_)
  refine orUnavailable_then hs fun image him => refuse_then hs fun hbytes => ?_
  refine updateInjection_keeps hc (h call image hc ?_ him (not_not.1 hbytes))
  by_contra hw
  simp only [Injection.HalfWritten, not_or] at hw
  exact hph hw

end
end Reverie.Input
