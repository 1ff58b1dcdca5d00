/-
  Write exclusivity of the reserved page.  Accesses are checked against the layout of the
  region, while the transaction writes that of its image: `backend_set_layout` can separate
  the two (`write_exclusive_fails`, `write_exclusive`).
-/
import Reverie.Input.Runs

namespace Reverie.Input

open Table Option

/-! ## The property -/

/-- No outstanding access that may name the region meets the layout. -/
def State.Clear (s : State) (r : RegionLifetime) (layout : ReservedInputLayout) : Prop :=
  ∀ (n : ℕ) access, s.accesses[n]? = some access → access.declaration.target.reaches r = true →
    access.declaration.span.overlaps layout = false

/-- Write exclusivity over the runs whose calls meet `ok`. -/
structure WriteExclusive (run : ℕ) (ok : State → Call → Prop) : Prop where
  /-- the transaction of a region is the call of one of its tasks with a phase -/
  writer : ∀ s, Run run ok .init s → ∀ (r : RegionLifetime) place, s.regions[r]? = some place →
    ∀ id, place.transaction = some id ↔ s.WritesIn id r
  /-- a region has at most one -/
  one : ∀ s, Run run ok .init s → ∀ r : RegionLifetime, s.regions[r]?.isSome →
    ∀ id id', s.WritesIn id r → s.WritesIn id' r → id = id'
  /-- from the moment `backend_prepared_stopped` returns until the call is settled -/
  clear : ∀ s, Run run ok .init s → ∀ id image s₁, backendPreparedStopped id s = .ok image s₁ →
    ∀ s₂, Run run ok s₁ s₂ → ∀ call owner, s₂.injections[id]? = some call →
      call.state.settled = false → s₂.tasks[call.task]? = some owner →
      s₂.Clear owner.registration.region image.layout

/-- A layout that a call succeeds in setting covers the image that a transaction of the
    region is writing. -/
def KeepsImages (s : State) (c : Call) : Prop :=
  ∀ task layout s', c = .setLayout task layout → backendSetLayout task layout s = .ok () s' →
    ∀ owner place id call image, s.tasks[task]? = some owner →
    s.regions[owner.registration.region]? = some place →
    place.transaction = some id → s.injections[id]? = some call → call.image = some image →
    image.layout.pageBytes ≤ layout.pageBytes

/-! ## The invariant -/

theorem InputSpan.overlaps_mono {span : InputSpan} {l l' : ReservedInputLayout} (hl : l.Valid)
    (hl' : l'.Valid) (hle : l.pageBytes ≤ l'.pageBytes) (h : span.overlaps l = true) :
    span.overlaps l' = true := by
  rcases span with ⟨address, length⟩ | _
  · simp only [overlaps, hl.base_eq, hl'.base_eq, Bool.and_eq_true,
      Bool.or_eq_true, decide_eq_true_eq] at h ⊢
    refine ⟨h.1, h.2.imp id fun h => ⟨?_, h.2⟩⟩
    omega
  · rfl

/-- The layout of a region covers the image of its transaction, and the image
    of a scanned transaction is clear. -/
structure State.Guarded (s : State) : Prop where
  covers : ∀ (r : RegionLifetime) place id call image, s.regions[r]? = some place →
    place.transaction = some id → s.injections[id]? = some call → call.image = some image →
    ∃ layout, place.layout = some layout ∧ image.layout.pageBytes ≤ layout.pageBytes
  clear : ∀ (id : PhysicalInjectionId) call image owner, s.injections[id]? = some call →
    call.phase.isSome → call.phase ≠ some .preparing → call.image = some image →
    s.tasks[call.task]? = some owner → s.Clear owner.registration.region image.layout

variable {s s' : State} {call : Injection} {r : RegionLifetime} {place : Region}
  {result : PhysicalInjectionState} {run : ℕ}

theorem State.Guarded.admits (h : s.Guarded) (hi : Invariant s) {d : InputAccess}
    (hd : s.Admits d) {id : PhysicalInjectionId} {image : ReservedInputImage}
    {owner : Task} (hc : s.injections[id]? = some call) (hph : call.phase.isSome)
    (hstarted : call.phase ≠ some .preparing) (him : call.image = some image)
    (ho : s.tasks[call.task]? = some owner)
    (hreach : d.target.reaches owner.registration.region = true) :
    d.span.overlaps image.layout = false := by
  obtain ⟨place, hp⟩ := isSome_iff_exists.1 (hi.owned.region _ owner ho)
  have htx := (hi.transactions.writer _ place hp id).2 ⟨call, owner, hc, ho, rfl, hph⟩
  obtain ⟨layout, hl, hle⟩ := h.covers _ place id call image hp htx hc him
  have hno := hd _ place id call layout hp htx hc hstarted hl hreach
  by_contra hov
  rw [Bool.not_eq_false] at hov
  rw [InputSpan.overlaps_mono image.valid (hi.transactions.layout _ place hp layout hl) hle hov] at hno
  cases hno

theorem AccessMove.declaration {a : Option Access} {a' : Access} (h : AccessMove a (some a')) :
    ∃ old, a = some old ∧ a'.declaration = old.declaration := by
  cases h with
  | keep => exact ⟨a', rfl, rfl⟩
  | touch old _ _ declaration => exact ⟨old, rfl, declaration⟩

theorem State.Clear.of_declarations {layout : ReservedInputLayout} (h : s.Clear r layout)
    (hd : ∀ (n : ℕ) access, s'.accesses[n]? = some access →
      ∃ old, s.accesses[n]? = some old ∧ access.declaration = old.declaration) :
    s'.Clear r layout := by
  intro n access ha hreach
  obtain ⟨old, hold, heq⟩ := hd n access ha
  rw [heq] at hreach ⊢
  exact h n old hold hreach

theorem finished_declaration {id : PhysicalInjectionId} (n : ℕ)
    (access : Access) (h : (s.finished id call r place result).accesses[n]? = some access) :
    ∃ old, s.accesses[n]? = some old ∧ access.declaration = old.declaration := by
  rw [State.finished, Std.TreeMap.getElem?_map, map_eq_some_iff] at h
  obtain ⟨old, hold, rfl⟩ := h
  refine ⟨old, hold, ?_⟩
  split_ifs <;> rfl

section
variable (h : s.Guarded)
include h

theorem State.Guarded.finished {id : PhysicalInjectionId} (hc : s.injections[id]? = some call) :
    (s.finished id call r place result).Guarded := by
  constructor
  · intro r' place' id' call' image hr' htx hc' him
    have hcov := h.covers
    simp only [State.finished] at hr' hc'
    grind
  · intro id' call' image owner hc' hph hst him ho
    simp only [State.finished, getElem?_insert] at hc'
    split_ifs at hc' with hid
    · cases hc'
      cases hph
    · exact (h.clear id' call' image owner hc' hph hst him ho).of_declarations finished_declaration

theorem State.Guarded.published (hi : Invariant s)
    {registration : InputTaskRegistration} {freezes : Std.TreeSet ℕ}
    {joined : Std.TreeMap ℕ (Std.TreeSet InputTaskId)}
    (r : s.Registers registration freezes joined) :
    (s.published registration freezes joined).Guarded := by
  refine ⟨h.covers, fun id call image owner hc hph hst him ho => ?_⟩
  rw [State.published, getElem?_insert, if_neg] at ho
  · exact h.clear id call image owner hc hph hst him ho
  · intro hnew
    have htask := hi.owned.task id call hc
    rw [← hnew, r.new] at htask
    cases htask

theorem State.Guarded.replace {former : InputTaskId}
    (hi : Invariant s) (c : Replace former s s') : s'.Guarded := by
  cases c with
  | replace registers => exact h.published hi registers

theorem State.Guarded.readmission {chosen : ℕ → Access → Prop} {t : InputTaskId} {g : ℕ}
    (c : Readmission chosen t g s s') : s'.Guarded := by
  cases c with
  | readmission _ m _ kept =>
    exact ⟨h.covers, fun id call image owner hc hph hst him ho =>
      (h.clear id call image owner hc hph hst him ho).of_declarations fun n access ha =>
        ⟨access, kept n access ha, rfl⟩⟩

theorem State.Guarded.quiet (hi : Invariant s) (c : Quiet s s') : s'.Guarded := by
  have hw := hi.transactions.writer
  simp only [State.WritesIn] at hw
  cases c with
  | bump | exposeAll | history => exact ⟨h.covers, h.clear⟩
  | addAccess access admits =>
    have hadm := @h.admits
    obtain ⟨hcov, hclear⟩ := h
    exact ⟨hcov, by simp only [State.Clear] at *; grind⟩
  | accesses m moves =>
    exact ⟨h.covers, fun id call image owner hc hph hst him ho =>
      (h.clear id call image owner hc hph hst him ho).of_declarations fun n access ha =>
        (ha ▸ moves n).declaration⟩
  | finish known => exact h.finished known
  | task _ follows =>
    have := follows.registration
    obtain ⟨hcov, hclear⟩ := h
    constructor <;> simp only [State.Clear] at * <;> grind
  | publish registers => exact h.published hi registers
  | freeze frozen =>
    have hj := getElem?_updateAll nodup_toList frozen
    obtain ⟨hcov, hclear⟩ := h
    constructor <;> simp only [State.Clear] at * <;> grind
  | _ =>
    obtain ⟨hcov, hclear⟩ := h
    constructor <;> simp only [State.Clear] at *
    · clear hclear
      grind
    · clear hcov hw
      grind

theorem State.Guarded.thawed {f : ℕ}
    {members : Std.TreeSet InputTaskId} {tasks : Std.TreeMap InputTaskId Task}
    (thaw : updateAll s.tasks (fun owner => { owner with
      frozen := owner.frozen.erase f }) members.toList = some tasks)
    {m : Std.TreeMap ℕ Access} (hm : ∀ (n : ℕ) access, m[n]? = some access →
      s.accesses[n]? = some access) : State.Guarded { s.thawed f tasks with accesses := m } := by
  refine ⟨h.covers, fun id call image owner hc hph hst him ho => ?_⟩
  have ho : tasks[call.task]? = some owner := ho
  rw [getElem?_updateAll nodup_toList thaw] at ho
  have hsame : ∃ old, s.tasks[call.task]? = some old ∧ old.registration = owner.registration := by
    split_ifs at ho
    · obtain ⟨old, hold, rfl⟩ := map_eq_some_iff.1 ho
      exact ⟨old, hold, rfl⟩
    · exact ⟨owner, ho, rfl⟩
  obtain ⟨old, hold, hreg⟩ := hsame
  rw [← hreg]
  exact (h.clear id call image old hc hph hst him hold).of_declarations fun n access ha =>
    ⟨access, hm n access ha, rfl⟩

theorem State.Guarded.settle (c : Settle s s') : s'.Guarded := by
  cases c with
  | settle _ thaw _ =>
    refine h.thawed thaw fun n access ha => ?_
    rw [getElem?_filter, filter_eq_some_iff] at ha
    exact ha.1

theorem State.Guarded.cancel (c : Cancel s s') : s'.Guarded := by
  cases c with
  | cancel _ thaw _ => exact h.thawed thaw fun _ _ ha => ha

end

/-! ## Runs -/

theorem backendSetLayout_refused (hi : Invariant s) {task : InputTaskId}
    {layout : ReservedInputLayout} :
    Does (· = s) (backendSetLayout task layout) s fun _ _ => True := by
  unfold backendSetLayout
  rcases hv : layout.validate with reason | valid
  · exact unavailable_does (by rfl)
  · refine live_then (by rfl) fun owner hl => ?_
    obtain ⟨place, hr⟩ := isSome_iff_exists.1 (hi.owned.region _ owner hl.task)
    exact get_then (index_then hr trivial)

/-- Every call keeps the guard, `backend_set_layout` if it keeps the images. -/
theorem Call.guarded {c : Call} (hok : KeepsImages s c) (hs : Invariant s ∧ s.Guarded) :
    Invariant (c.after run s) ∧ (c.after run s).Guarded := by
  by_cases hsets : ∀ task layout, c = .setLayout task layout →
      ∃ s', backendSetLayout task layout s = .ok () s'
  swap
  · -- a layout that is refused leaves the state as it is
    simp only [not_forall] at hsets
    obtain ⟨task, layout, rfl, hrefused⟩ := hsets
    rw [Call.after, Call.exec]
    rcases hx : backendSetLayout task layout s with ⟨_, s'⟩ | ⟨e, s'⟩
    · exact absurd ⟨s', hx⟩ hrefused
    · obtain rfl : s' = s := ((backendSetLayout_refused hs.1).of_error hx).1
      exact hs
  refine Keeps.after (P := fun s => Invariant s ∧ s.Guarded) (keeps_special
    ⟨fun h => h.1, fun h c => ⟨h.1.quiet c, h.2.quiet h.1 c⟩⟩ hs ?_)
  constructor
  case settle => exact fun _ => ⟨fun h => h.1, fun h c => ⟨h.1.change (.settle c), h.2.settle c⟩⟩
  case cancel => exact fun _ => ⟨fun h => h.1, fun h c => ⟨h.1.change (.cancel c), h.2.cancel c⟩⟩
  case layout =>
    intro task layout owner place hc ho valid hr
    refine ⟨hs.1.layout hr valid, fun r place' id call image hr' htx hcall him => ?_, hs.2.clear⟩
    rw [getElem?_insert] at hr'
    split_ifs at hr' with hreg
    · cases hr'
      obtain ⟨s', hset⟩ := hsets task layout hc
      exact ⟨layout, rfl, hok task layout s' hc hset owner place id call image ho hr htx hcall him⟩
    · exact hs.2.covers r place' id call image hr' htx hcall him
  case verified =>
    intro id readback call image _ known phase written _
    refine ⟨hs.1.verified known phase written, ?_⟩
    have hcov := hs.2.covers
    have hclear := hs.2.clear
    simp only [Injection.HalfWritten] at phase
    constructor <;> simp only [State.Clear] at * <;> grind
  case issued =>
    intro id groups regions call _ marks known state phase _
    have hq := Quiet.history s s.filesPossiblyShared groups regions marks
    refine ⟨(hs.1.quiet hq).issued known phase, ?_⟩
    have hcov := hs.2.covers
    have hclear := hs.2.clear
    constructor <;> simp only [State.Clear] at * <;> grind
  case unknown =>
    intro id s' call owner place _ hs' _ known task region
    exact ⟨hs'.1.finished known task region _, hs'.2.finished known⟩
  case replace => exact fun _ _ _ _ _ _ h _ c => ⟨h.1.replace c, h.2.replace h.1 c⟩
  case readmitAccess => exact fun _ _ _ _ _ c => ⟨hs.1.readmission c, hs.2.readmission c⟩
  case readmitInjection => exact fun _ _ _ _ _ c => ⟨hs.1.readmission c, hs.2.readmission c⟩

theorem Run.guarded (h : Run run KeepsImages s s')
    (hs : Invariant s ∧ s.Guarded) : Invariant s' ∧ s'.Guarded := by
  induction h with
  | refl => exact hs
  | tail _ hstep ih =>
    obtain ⟨c, hok, rfl⟩ := hstep
    exact Call.guarded hok ih

theorem Run.scanned {ok : State → Call → Prop} (h : Run run ok s s')
    (hi : Invariant s) {id : PhysicalInjectionId} {image : ReservedInputImage}
    (hs : s.Scanned id image) : Invariant s' ∧ s'.Scanned id image := by
  induction h with
  | refl => exact ⟨hi, hs⟩
  | tail _ hstep ih =>
    obtain ⟨c, _, rfl⟩ := hstep
    exact Keeps.after (P := fun s => Invariant s ∧ s.Scanned id image)
      (c.keeps ⟨fun h => h.1, fun h c => ⟨h.1.change c, h.2.change c⟩⟩ ih
        fun _ _ _ _ _ _ h _ c => ⟨h.1.replace c, by cases c; exact h.2⟩)

theorem guarded_init : Invariant State.init ∧ State.init.Guarded := by
  refine ⟨Invariant.init, ?_, ?_⟩ <;> intros <;> simp_all [State.init]

/-- **Write exclusivity of the reserved page**, when no layout shrinks under a
    transaction. -/
theorem write_exclusive (run : ℕ) : WriteExclusive run KeepsImages := by
  refine ⟨fun s h => (h.invariant Invariant.init).transactions.writer, ?_, ?_⟩
  · intro s h r hr id id' hw hw'
    obtain ⟨place, hp⟩ := isSome_iff_exists.1 hr
    have htx := (h.invariant Invariant.init).transactions.writer r place hp
    exact Option.some.inj (((htx id).2 hw).symm.trans ((htx id').2 hw'))
  · intro s h id image s₁ hstop s₂ h' call owner hc hopen ho
    have hg := h.guarded guarded_init
    have hstep : Invariant s₁ ∧ s₁.Guarded := by
      have hafter : (Call.preparedStopped id).after run s = s₁ := by
        simp only [Call.after, Call.exec, ignore, bind, EStateM.bind, hstop]
        rfl
      rw [← hafter]
      exact Call.guarded (fun _ _ _ h => by cases h) hg
    have hscan : s₁.Scanned id image :=
      ((backendPreparedStopped_does (P := Invariant) ⟨fun h => h, Invariant.quiet⟩ hg.1).of_ok
        hstop).2
    obtain ⟨call', hc', hsc⟩ := (h'.scanned hstep.1 hscan).2
    rw [hc] at hc'
    cases hc'
    rcases hsc with hsettled | ⟨hph, hst, him⟩
    · rw [hopen] at hsettled
      cases hsettled
    · exact (h'.guarded hstep).2.clear id call image owner hc hph hst him ho

/-! ## A layout that shrinks under a transaction -/

namespace Shrink

def task : InputTaskId := ⟨0, 1, 1⟩
def region : RegionLifetime := ⟨0, 2⟩
def large : ReservedInputLayout := ⟨RESERVED_INPUT_BASE, 16384, .aarch64⟩
def small : ReservedInputLayout := ⟨RESERVED_INPUT_BASE, 4096, .aarch64⟩
def scope : InputOperationScope := ⟨0, task, 5, 7⟩
def id : PhysicalInjectionId := ⟨0, 6⟩

def image : ReservedInputImage :=
  ⟨large, List.replicate 16384 0, by decide, List.length_replicate⟩

def description : PhysicalInjectionDescription :=
  ⟨0, #v[0, 0, 0, 0, 0, 0], .registers, {}, [], [], none⟩

/-- An access to the third page of the image, past the end of the small layout. -/
def access : InputAccess :=
  ⟨.region region, .range (RESERVED_INPUT_BASE + 0x2000) 8, .write, .transient, "late"⟩

/-- A transaction is prepared under the large layout. -/
def prepare : List Call :=
  [.registerRoot 1 1, .setLayout task large, .grant task .ordinary, .beginOperation task 7,
    .prepareInjection scope description, .beginPreparation id scope image]

/-- Then the layout shrinks, and an access to the image is admitted. -/
def intrude : List Call := [.setLayout task small, .acquireAccess task access]

def prepared : State := afterAll 0 .init prepare
def stopped : State := stateOf (backendPreparedStopped id prepared)
def intruded : State := afterAll 0 stopped intrude

end Shrink

/-- Without the condition on layouts an access reaches a page that is being
    written. -/
theorem write_exclusive_fails : ¬ WriteExclusive 0 anyCall := by
  intro h
  have hstop : backendPreparedStopped Shrink.id Shrink.prepared = .ok Shrink.image Shrink.stopped :=
    rfl
  have hclear := h.clear Shrink.prepared (run_afterAll _ _) Shrink.id Shrink.image Shrink.stopped
    hstop Shrink.intruded (run_afterAll _ _)
  obtain ⟨call, owner, hc, hopen, ho, hr⟩ : ∃ call owner,
      Shrink.intruded.injections[Shrink.id]? = some call ∧ call.state.settled = false ∧
      Shrink.intruded.tasks[call.task]? = some owner ∧
      owner.registration.region = Shrink.region := ⟨_, _, rfl, rfl, rfl, rfl⟩
  obtain ⟨a, ha, hd⟩ : ∃ a, Shrink.intruded.accesses[(7 : ℕ)]? = some a ∧
      a.declaration = Shrink.access := ⟨_, rfl, rfl⟩
  have hno := hclear call owner hc hopen ho 7 a ha (by rw [hd, hr]; decide)
  rw [hd] at hno
  exact absurd hno (by decide)

end Reverie.Input
