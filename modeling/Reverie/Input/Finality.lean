/-
  Finality of physical calls, and no resumption over a partial page.  `backend_unknown_outcome`
  settles a call without looking at its state, so both hold if it is called only for issued
  calls (`calls_final`), and fail otherwise (`calls_final_fails`).
-/
import Reverie.Input.Runs

namespace Reverie.Input

open Table

/-! ## The property -/

/-- The moves of an observed call. -/
inductive PhysicalInjectionState.Moves : PhysicalInjectionState → PhysicalInjectionState → Prop where
  | stay (a : PhysicalInjectionState) : Moves a a
  | issue : Moves .prepared .issued
  | notRun : Moves .prepared .provedNoChild
  | birth (child : InputTaskId) : Moves .issued (.retainedBirth child)
  | noChild : Moves .issued .provedNoChild
  | unknown : Moves .issued .outcomeUnknown

/-- The call certifies the complete image of the transaction. -/
def Verifies (run : ℕ) (id : PhysicalInjectionId) (s : State) (c : Call) : Prop :=
  ∃ readback, c = .verifiedImage id readback ∧ ∃ s', c.exec run s = .ok () s'

/-- Finality of calls over the runs whose calls meet `ok`. -/
structure CallsFinal (run : ℕ) (ok : State → Call → Prop) : Prop where
  moves : ∀ s, Run run ok .init s → ∀ c, ok s c → ∀ (id : PhysicalInjectionId) call,
    s.injections[id]? = some call →
    ∃ call', (c.after run s).injections[id]? = some call' ∧ call.state.Moves call'.state
  final : ∀ s, Run run ok .init s → ∀ s', Run run ok s s' → ∀ (id : PhysicalInjectionId) call,
    s.injections[id]? = some call → call.state.settled = true →
    ∃ call', s'.injections[id]? = some call' ∧ call'.state = call.state
  /-- once the page may be partly written, until its image is certified -/
  barred : ∀ s, Run run ok .init s → ∀ (id : PhysicalInjectionId) call owner,
    s.injections[id]? = some call → call.phase = some .initializing →
    s.tasks[call.task]? = some owner →
    ∀ s', Run run (fun s c => ok s c ∧ ¬ Verifies run id s c) s s' →
      (∃ place, s'.regions[owner.registration.region]? = some place ∧
        place.transaction = some id) ∧
      ∀ (task : InputTaskId) other, s'.tasks[task]? = some other →
        other.registration.region = owner.registration.region →
        ∀ physical s'', backendContinuation task physical s' ≠ .ok () s''

/-- An unknown outcome is reported for an issued call, or again. -/
def ReportsIssued (s : State) (c : Call) : Prop :=
  ∀ id, c = .unknownOutcome id → ∀ call, s.injections[id]? = some call →
    call.state = .issued ∨ call.state = .outcomeUnknown

/-! ## Moves -/

/-- The moves that settle a call. -/
def PhysicalInjectionState.Settles (a b : PhysicalInjectionState) : Prop :=
  b = a ∨ (a = .prepared ∧ b = .provedNoChild) ∨ (a = .issued ∧ b.settled = true)

variable {a b : PhysicalInjectionState} {s s' : State} {call : Injection} {run : ℕ} {c : Call}
  {r : RegionLifetime}

theorem PhysicalInjectionState.Settles.trans {c : PhysicalInjectionState} (h : a.Settles b)
    (h' : b.Settles c) : a.Settles c := by
  rcases h with rfl | ⟨rfl, rfl⟩ | ⟨rfl, hb⟩
  · exact h'
  · rcases h' with rfl | ⟨h', _⟩ | ⟨h', _⟩
    · exact Or.inr (Or.inl ⟨rfl, rfl⟩)
    all_goals cases h'
  · rcases h' with rfl | ⟨rfl, _⟩ | ⟨rfl, _⟩
    · exact Or.inr (Or.inr ⟨rfl, hb⟩)
    all_goals cases hb

theorem PhysicalInjectionState.Settles.moves (h : a.Settles b) : a.Moves b := by
  rcases h with rfl | ⟨rfl, rfl⟩ | ⟨rfl, hb⟩
  · exact .stay _
  · exact .notRun
  · rcases b with _ | _ | child | _ | _
    · cases hb
    · cases hb
    · exact .birth child
    · exact .noChild
    · exact .unknown

theorem PhysicalInjectionState.Moves.eq_of_settled (h : a.Moves b)
    (ha : a.settled = true) : b = a := by
  cases h with
  | stay => rfl
  | _ => cases ha

/-- Every call of `s` is settled in `s'` as far as its state allows. -/
def State.SettlesTo (s s' : State) : Prop :=
  ∀ (id : PhysicalInjectionId) call, s.injections[id]? = some call →
    ∃ call', s'.injections[id]? = some call' ∧ call.state.Settles call'.state

theorem State.SettlesTo.refl (s : State) : s.SettlesTo s :=
  fun _ call h => ⟨call, h, Or.inl rfl⟩

theorem State.SettlesTo.trans {s'' : State} (h : s.SettlesTo s') (h' : s'.SettlesTo s'') :
    s.SettlesTo s'' := by
  intro id call hc
  obtain ⟨call', hc', hm⟩ := h id call hc
  obtain ⟨call'', hc'', hm'⟩ := h' id call' hc'
  exact ⟨call'', hc'', hm.trans hm'⟩

theorem State.SettlesTo.of_insert {id : PhysicalInjectionId} {call' : Injection}
    (hs : s'.injections = s.injections.insert id call') (hc : s.injections[id]? = some call)
    (h : call.state.Settles call'.state) : s.SettlesTo s' := by
  intro j other hj
  rw [hs, getElem?_insert]
  split_ifs with hij
  · subst hij
    rw [hc] at hj
    cases hj
    exact ⟨call', rfl, h⟩
  · exact ⟨other, hj, Or.inl rfl⟩

theorem Injection.CanFinish.settles {result : PhysicalInjectionState}
    (h : call.CanFinish result) : call.state.Settles result := by
  cases h with
  | notRun state _ => exact Or.inr (Or.inl ⟨state, rfl⟩)
  | ran state settled => exact Or.inr (Or.inr ⟨state, settled⟩)

theorem Quiet.settlesTo (c : Quiet s s') : s.SettlesTo s' := by
  cases c with
  | addCall new =>
    intro id call hc
    refine ⟨call, ?_, Or.inl rfl⟩
    rw [getElem?_insert, if_neg]
    · exact hc
    · rintro rfl
      rw [new] at hc
      cases hc
  | beginPreparation _ known => exact .of_insert rfl known (Or.inl rfl)
  | preparedStopped known => exact .of_insert rfl known (Or.inl rfl)
  | initializing known => exact .of_insert rfl known (Or.inl rfl)
  | normalizing known => exact .of_insert rfl known (Or.inl rfl)
  | finish known _ _ allowed => exact .of_insert rfl known allowed.settles
  | _ => exact .refl s

theorem Call.moves (hi : Invariant s) (hok : ReportsIssued s c)
    {id : PhysicalInjectionId} (hc : s.injections[id]? = some call) :
    ∃ call', (c.after run s).injections[id]? = some call' ∧ call.state.Moves call'.state := by
  by_cases hiss : ∃ j, c = .issued j
  · obtain ⟨j, rfl⟩ := hiss
    refine Keeps.after (P := fun s' => ∃ call', s'.injections[id]? = some call' ∧
      call.state.Moves call'.state) (backendIssued_keeps ⟨call, hc, .stay _⟩ hi
        (fun _ _ _ => ⟨call, hc, .stay _⟩) ?_)
    intro groups regions other _ hj hst _ _
    simp only [getElem?_insert]
    split_ifs with hij
    · subst hij
      rw [hc] at hj
      cases hj
      exact ⟨_, rfl, hst ▸ .issue⟩
    · exact ⟨call, hc, .stay _⟩
  · have hkeep : Invariant (c.after run s) ∧ s.SettlesTo (c.after run s) := by
      refine Keeps.after (P := fun s' => Invariant s' ∧ s.SettlesTo s') (keeps_special
        ⟨fun h => h.1, fun h c => ⟨h.1.quiet c, h.2.trans c.settlesTo⟩⟩ ⟨hi, .refl s⟩ ?_)
      constructor
      case settle =>
        exact fun _ => ⟨fun h => h.1, fun h c => ⟨h.1.change (.settle c), by cases c; exact h.2⟩⟩
      case cancel =>
        exact fun _ => ⟨fun h => h.1, fun h c => ⟨h.1.change (.cancel c), by cases c; exact h.2⟩⟩
      case layout => exact fun _ _ _ _ _ _ valid hr => ⟨hi.layout hr valid, .refl s⟩
      case verified =>
        exact fun _ _ _ _ _ known phase written _ =>
          ⟨hi.verified known phase written, .of_insert rfl known (Or.inl rfl)⟩
      case issued => exact fun j _ _ _ hc => absurd ⟨j, hc⟩ hiss
      case unknown =>
        intro j s' other owner place hcall hs' hcalls known task region
        refine ⟨hs'.1.finished known task region _, hs'.2.trans (.of_insert rfl known ?_)⟩
        rcases hok j hcall other (by rw [← hcalls, known]) with hst | hst
        · exact Or.inr (Or.inr ⟨hst, rfl⟩)
        · exact Or.inl hst.symm
      case replace => exact fun _ _ _ _ _ _ h _ c => ⟨h.1.replace c, by cases c; exact h.2⟩
      case readmitAccess => exact fun _ _ _ _ _ c => ⟨hi.readmission c, by cases c; exact .refl s⟩
      case readmitInjection => exact fun _ _ _ _ _ c => ⟨hi.readmission c, by cases c; exact .refl s⟩
    obtain ⟨call', hc', hm⟩ := hkeep.2 id call hc
    exact ⟨call', hc', hm.moves⟩

theorem Run.final (h : Run run ReportsIssued s s') (hi : Invariant s)
    {id : PhysicalInjectionId} (hc : s.injections[id]? = some call)
    (hset : call.state.settled = true) :
    ∃ call', s'.injections[id]? = some call' ∧ call'.state = call.state := by
  induction h with
  | refl => exact ⟨call, hc, rfl⟩
  | tail hrun hstep ih =>
    obtain ⟨c, hok, rfl⟩ := hstep
    obtain ⟨call', hc', hst⟩ := ih
    obtain ⟨call'', hc'', hm⟩ := Call.moves (Run.invariant hrun hi) hok hc'
    exact ⟨call'', hc'', (hm.eq_of_settled (hst ▸ hset)).trans hst⟩

/-! ## Half-written pages -/

/-- The call works on a half-written page of the region. -/
def State.HalfWrites (s : State) (id : PhysicalInjectionId) (r : RegionLifetime) : Prop :=
  ∃ call owner, s.injections[id]? = some call ∧ call.HalfWritten ∧
    s.tasks[call.task]? = some owner ∧ owner.registration.region = r

theorem Injection.HalfWritten.isSome (h : call.HalfWritten) : call.phase.isSome := by
  rcases h with h | h <;> rw [h] <;> rfl

theorem Injection.HalfWritten.prepared (h : call.HalfWritten)
    (hc : call.Consistent) : call.state = .prepared := by
  refine hc.prepared h.isSome ?_
  rcases h with h | h <;> rw [h] <;> simp

theorem State.HalfWrites.insert {id j : PhysicalInjectionId}
    (h : s.HalfWrites id r) (call : Injection) (hne : j ≠ id) :
    State.HalfWrites { s with injections := s.injections.insert j call } id r := by
  obtain ⟨known, owner, hc, hw, ho, hr⟩ := h
  exact ⟨known, owner, by rw [getElem?_insert, if_neg hne, hc], hw, ho, hr⟩

theorem State.HalfWrites.quiet {id : PhysicalInjectionId}
    (h : s.HalfWrites id r) (hi : Invariant s) (c : Quiet s s') : s'.HalfWrites id r := by
  obtain ⟨call, owner, hc, hw, ho, hr⟩ := h
  obtain ⟨owner', ho', hr', _⟩ := (c.grows hi.fresh).task _ owner ho
  suffices ∃ call', s'.injections[id]? = some call' ∧ call'.HalfWritten ∧ call'.task = call.task by
    obtain ⟨call', hc', hw', ht⟩ := this
    exact ⟨call', owner', hc', hw', ht ▸ ho', hr'.trans hr⟩
  have hst := hw.prepared (hi.transactions.consistent id call hc)
  simp only [Injection.HalfWritten] at *
  cases c with
  | finish _ _ _ allowed =>
    simp only [State.finished]
    cases allowed <;> grind [Injection.HalfWritten]
  | publish => exact ⟨call, hc, hw, rfl⟩
  | _ =>
    simp only [getElem?_insert]
    grind

theorem State.HalfWrites.replace {id : PhysicalInjectionId}
    {former : InputTaskId} (h : s.HalfWrites id r) (c : Replace former s s') :
    s'.HalfWrites id r := by
  obtain ⟨call, owner, hc, hw, ho, hr⟩ := h
  obtain ⟨owner', ho', hr', _⟩ := c.grows.task _ owner ho
  cases c with
  | replace => exact ⟨call, owner', hc, hw, ho', hr'.trans hr⟩

theorem State.HalfWrites.thawed {id : PhysicalInjectionId}
    (h : s.HalfWrites id r) {f : ℕ} {members : Std.TreeSet InputTaskId}
    {tasks : Std.TreeMap InputTaskId Task} (thaw : updateAll s.tasks (fun owner => { owner with
      frozen := owner.frozen.erase f }) members.toList = some tasks)
    (hc : s'.injections = s.injections) (ht : s'.tasks = tasks) : s'.HalfWrites id r := by
  obtain ⟨call, owner, hcall, hw, ho, hr⟩ := h
  have hlook := getElem?_updateAll nodup_toList thaw call.task
  rw [ho] at hlook
  split_ifs at hlook with hm
  · exact ⟨call, { owner with frozen := owner.frozen.erase f }, by rw [hc, hcall], hw,
      by rw [ht, hlook]; rfl, hr⟩
  · exact ⟨call, owner, by rw [hc, hcall], hw, by rw [ht, hlook], hr⟩

theorem backendVerifiedImage_ok {id : PhysicalInjectionId}
    {image : ReservedInputImage} (hc : s.injections[id]? = some call) (hw : call.HalfWritten)
    (him : call.image = some image) :
    ∃ s', backendVerifiedImage id image.bytes s = .ok () s' := by
  have hno : ¬ (call.phase ≠ some .initializing ∧ call.phase ≠ some .normalizing) := by
    rintro ⟨h1, h2⟩
    exact hw.elim h1 h2
  have hcall : orUnavailable s.injections[id]? "input-call-missing" = pure call := by
    rw [hc]
    rfl
  have himage : orUnavailable call.image "input-image-missing" = pure image := by
    rw [him]
    rfl
  have hupdate : ∃ s', updateInjection id (fun call =>
      { call with verifiedImage := some image, phase := some .ready }) s = .ok () s' := by
    change ∃ s', (index s.injections[id]? >>= _) s = .ok () s'
    rw [hc]
    exact ⟨_, rfl⟩
  change ∃ s', (orUnavailable s.injections[id]? "input-call-missing" >>= _) s = .ok () s'
  rw [hcall, pure_bind]
  rw [refuse, if_neg hno, pure_bind, himage, pure_bind, refuse, if_neg (fun h => h rfl)]
  exact hupdate

theorem Call.halfWrites {id : PhysicalInjectionId}
    (hok : ReportsIssued s c) (hver : ¬ Verifies run id s c)
    (hs : Invariant s ∧ s.HalfWrites id r) :
    Invariant (c.after run s) ∧ (c.after run s).HalfWrites id r := by
  obtain ⟨call, owner, hc, hw, ho, hr⟩ := hs.2
  have hst := hw.prepared (hs.1.transactions.consistent id call hc)
  refine Keeps.after (P := fun s => Invariant s ∧ s.HalfWrites id r) (keeps_special
    ⟨fun h => h.1, fun h c => ⟨h.1.quiet c, h.2.quiet h.1 c⟩⟩ hs ?_)
  constructor
  case settle =>
    refine fun _ => ⟨fun h => h.1, fun h c => ⟨h.1.change (.settle c), ?_⟩⟩
    cases c with
    | settle _ thaw _ => exact h.2.thawed thaw rfl rfl
  case cancel =>
    refine fun _ => ⟨fun h => h.1, fun h c => ⟨h.1.change (.cancel c), ?_⟩⟩
    cases c with
    | cancel _ thaw _ => exact h.2.thawed thaw rfl rfl
  case layout => exact fun _ _ _ _ _ _ valid hr => ⟨hs.1.layout hr valid, hs.2⟩
  case verified =>
    rintro j readback other image rfl known phase written rfl
    refine ⟨hs.1.verified known phase written, hs.2.insert _ ?_⟩
    rintro rfl
    exact hver ⟨image.bytes, rfl, backendVerifiedImage_ok known phase written⟩
  case issued =>
    rintro j groups regions other rfl marks known state phase _
    have hq := Quiet.history s s.filesPossiblyShared groups regions marks
    refine ⟨(hs.1.quiet hq).issued known phase, (hs.2.quiet hs.1 hq).insert _ ?_⟩
    rintro rfl
    rw [hc] at known
    cases known
    rcases hw with hw | hw <;> rcases phase with h | h <;> rw [hw] at h <;> cases h
  case unknown =>
    intro j s' other o place hcall hs' hcalls known task region
    refine ⟨hs'.1.finished known task region _, ?_⟩
    have hne : j ≠ id := by
      rintro rfl
      rcases hok j hcall call hc with h | h <;> rw [hst] at h <;> cases h
    obtain ⟨call', owner', hc', hw', ho', hr'⟩ := hs'.2
    refine ⟨call', owner', ?_, hw', ho', hr'⟩
    rw [State.finished, getElem?_insert, if_neg hne, hc']
  case replace => exact fun _ _ _ _ _ _ h _ c => ⟨h.1.replace c, h.2.replace c⟩
  case readmitAccess => exact fun _ _ _ _ _ c => ⟨hs.1.readmission c, by cases c; exact hs.2⟩
  case readmitInjection => exact fun _ _ _ _ _ c => ⟨hs.1.readmission c, by cases c; exact hs.2⟩

theorem Run.halfWrites {id : PhysicalInjectionId}
    (h : Run run (fun s c => ReportsIssued s c ∧ ¬ Verifies run id s c) s s')
    (hs : Invariant s ∧ s.HalfWrites id r) : Invariant s' ∧ s'.HalfWrites id r := by
  induction h with
  | refl => exact hs
  | tail _ hstep ih =>
    obtain ⟨c, ⟨hok, hver⟩, rfl⟩ := hstep
    exact Call.halfWrites hok hver ih

theorem backendContinuation_refused (hi : Invariant s) {id : PhysicalInjectionId}
    (h : s.HalfWrites id r) {task : InputTaskId} {other : Task}
    (ho : s.tasks[task]? = some other) (hr : other.registration.region = r)
    (physical : Option PhysicalInjectionId) (s'' : State) :
    backendContinuation task physical s ≠ .ok () s'' := by
  intro hok
  have hs : Invariant s := hi
  have hdoes : Does Invariant (backendContinuation task physical) s fun _ _ => False := by
    refine live_then hs fun owner hl => get_then ?_
    obtain rfl : other = owner := by
      have := ho.symm.trans hl.task
      cases this
      rfl
    obtain ⟨place, hp⟩ := Option.isSome_iff_exists.1 (hi.owned.region task other ho)
    refine index_then hp ?_
    obtain ⟨call, owner, hc, hw, hown, hreg⟩ := h
    rw [(hi.transactions.writer _ place hp id).2 ⟨call, owner, hc, hown, hreg.trans hr.symm, hw.isSome⟩]
    refine index_then hc ?_
    rw [if_neg (by rcases hw with hw | hw <;> simp [hw])]
    refine (refuse_does hs).mono ?_ fun _ _ h => h
    rintro _ _ ⟨_, hn⟩
    refine hn (Or.inr ?_)
    rcases hw with hw | hw <;> simp [hw]
  exact hdoes.of_ok hok

/-- **Finality of physical calls and no resumption over a partial page**, when
    an unknown outcome is only reported for an issued call. -/
theorem calls_final (run : ℕ) : CallsFinal run ReportsIssued := by
  refine ⟨fun s h c hok id call hc => Call.moves (h.invariant Invariant.init) hok hc,
    fun s h s' h' id call hc hset => h'.final (h.invariant Invariant.init) hc hset, ?_⟩
  intro s h id call owner hc hph ho s' h'
  obtain ⟨hi, hw⟩ := h'.halfWrites ⟨h.invariant Invariant.init, call, owner, hc, Or.inl hph, ho, rfl⟩
  refine ⟨?_, fun task other hother hr physical s'' =>
    backendContinuation_refused hi hw hother hr physical s''⟩
  obtain ⟨call', owner', hc', hw', ho', hr'⟩ := hw
  obtain ⟨place, hp⟩ := Option.isSome_iff_exists.1 (hi.owned.region _ owner' ho')
  rw [hr'] at hp
  exact ⟨place, hp, (hi.transactions.writer _ place hp id).2
    ⟨call', owner', hc', ho', hr', hw'.isSome⟩⟩

/-! ## An unknown outcome of a call that was never issued -/

namespace Torn

def task : InputTaskId := ⟨0, 1, 1⟩
def layout : ReservedInputLayout := ⟨RESERVED_INPUT_BASE, 4096, .x86_64⟩
def scope : InputOperationScope := ⟨0, task, 5, 7⟩
def id : PhysicalInjectionId := ⟨0, 6⟩

def image : ReservedInputImage :=
  ⟨layout, List.replicate 4096 0, by decide, List.length_replicate⟩

def description : PhysicalInjectionDescription :=
  ⟨0, .replicate 6 0, .registers, {}, [], [], none⟩

def writing : State := afterAll 0 .init
  [.registerRoot 1 1, .setLayout task layout, .grant task .ordinary, .beginOperation task 7,
    .prepareInjection scope description, .beginPreparation id scope image, .preparedStopped id,
    .initializing id]

/-- The call is settled although it was never issued and its page is torn. -/
def settled : State := afterAll 0 writing [.unknownOutcome id]

end Torn

/-- Without the condition a prepared call ends with an unknown outcome, and its
    task continues over a page that may be half written. -/
theorem calls_final_fails :
    Torn.writing.injections[Torn.id]?.map (·.state) = some .prepared ∧
    Torn.settled.injections[Torn.id]?.map (·.state) = some .outcomeUnknown ∧
    backendContinuation Torn.task none Torn.settled = .ok () Torn.settled ∧
    ¬ CallsFinal 0 anyCall := by
  refine ⟨rfl, rfl, rfl, fun h => ?_⟩
  obtain ⟨call, hc, hst⟩ : ∃ call, Torn.writing.injections[Torn.id]? = some call ∧
      call.state = .prepared := ⟨_, rfl, rfl⟩
  obtain ⟨call', hc', hst'⟩ : ∃ call', Torn.settled.injections[Torn.id]? = some call' ∧
      call'.state = .outcomeUnknown := ⟨_, rfl, rfl⟩
  obtain ⟨call'', hc'', hm⟩ := h.moves Torn.writing (run_afterAll _ _) (.unknownOutcome Torn.id)
    trivial Torn.id call hc
  obtain rfl : call' = call'' := Option.some.inj (hc'.symm.trans hc'')
  rw [hst, hst'] at hm
  cases hm

end Reverie.Input
