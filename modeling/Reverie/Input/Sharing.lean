/-
  The proofs of the registry that a descriptor table, a thread group or a region is not
  shared, from tables of possible sharing in which a mark is never taken back
  (`sharing_proofs_sound`, `sharing_proofs_fail`).
-/
import Reverie.Input.Runs

namespace Reverie.Input

open Table

/-! ## The queries -/

def filesProvenUnshared (s : State) (task : InputTaskId) : Bool :=
  (s.tasks[task]?.bind fun owner => s.filesPossiblyShared[owner.registration.files]?) == some false

def groupProvenSingleton (s : State) (task : InputTaskId) : Bool :=
  s.tasks[task]?.any fun owner =>
    s.groupsMayHaveOtherThreads[owner.registration.group]? == some false

def regionProvenSingleProcess (s : State) (task : InputTaskId) : Bool :=
  s.tasks[task]?.any fun owner =>
    !s.regionsMayHaveOtherProcesses.contains owner.registration.region

/-- The proofs that nothing is shared. -/
inductive SharingProof where
  | files
  | group
  | region

namespace SharingProof

def proven : SharingProof → State → InputTaskId → Bool
  | .files => filesProvenUnshared
  | .group => groupProvenSingleton
  | .region => regionProvenSingleProcess

/-- The registrations are of one table, group or region. -/
def Same : SharingProof → InputTaskRegistration → InputTaskRegistration → Prop
  | .files, a, b => a.files = b.files
  | .group, a, b => a.group = b.group
  | .region, a, b => a.region = b.region

/-- Two tasks of one table or group share it; tasks share a region if they are of
    different processes. -/
def Shares : SharingProof → InputTaskRegistration → InputTaskRegistration → Prop
  | .region, a, b => a.region = b.region ∧ a.nativePid ≠ b.nativePid
  | k, a, b => k.Same a b

/-- Recorded as possibly shared. -/
def Marked : SharingProof → State → InputTaskRegistration → Prop
  | .files, s, a => s.filesPossiblyShared[a.files]? = some true
  | .group, s, a => s.groupsMayHaveOtherThreads[a.group]? = some true
  | .region, s, a => a.region ∈ s.regionsMayHaveOtherProcesses

end SharingProof

/-- A task that may still run. -/
def Task.isLive (owner : Task) : Prop :=
  owner.nativeTerminal = false ∧ owner.nativeEffectsComplete = false

/-- Over all runs the proofs are monotone, and over those whose calls meet `ok` they are sound. -/
structure SharingProofs (run : ℕ) (ok : SharingProof → State → Call → Prop) : Prop where
  /-- a proof that is refused for a lifetime is not given for it later -/
  monotone : ∀ s s', Run run anyCall .init s → Run run anyCall s s' → ∀ (k : SharingProof)
    (t t' : InputTaskId) owner owner', s.tasks[t]? = some owner → s'.tasks[t']? = some owner' →
    k.Same owner.registration owner'.registration → k.proven s t = false → k.proven s' t' = false
  /-- no two live tasks share what is proven not to be shared -/
  sound : ∀ (k : SharingProof) s, Run run (ok k) .init s → ∀ (t t₁ t₂ : InputTaskId)
    owner owner₁ owner₂, s.tasks[t]? = some owner → k.proven s t = true →
    s.tasks[t₁]? = some owner₁ → s.tasks[t₂]? = some owner₂ → owner₁.isLive → owner₂.isLive →
    k.Same owner.registration owner₁.registration →
    k.Shares owner₁.registration owner₂.registration → t₁ = t₂

/-- If the proof is about a group, an image is replaced before its task ends. -/
def ReplacesLive (k : SharingProof) (s : State) (c : Call) : Prop :=
  k = .group → ∀ displaced former observer, c = .execReplacement displaced former observer →
    ∀ owner, s.tasks[former]? = some owner → owner.nativeEffectsComplete = false

/-! ## The invariant -/

/-- The tasks share what is not marked; of a group, only tasks that have not ended count. -/
structure State.Conflict (s : State) (k : SharingProof) (a b : Task) : Prop where
  shares : k.Shares a.registration b.registration
  unmarked : ¬ k.Marked s a.registration
  live : k = .group → a.nativeEffectsComplete = false ∧ b.nativeEffectsComplete = false

/-- No two tasks are in conflict. -/
def State.Separate (s : State) (k : SharingProof) : Prop :=
  ∀ (t t' : InputTaskId) a b, s.tasks[t]? = some a → s.tasks[t']? = some b → s.Conflict k a b → t = t'

/-- No task is registered, and no mark is taken back. -/
structure State.Advances (s s' : State) : Prop where
  tasks : s.Descends s'
  marks : ∀ (k : SharingProof) a, k.Marked s a → k.Marked s' a

section
variable {s s' : State} {k : SharingProof} {a b : Task} {t : InputTaskId}
  {registration : InputTaskRegistration} {freezes : Std.TreeSet ℕ}
  {joined : Std.TreeMap ℕ (Std.TreeSet InputTaskId)}

theorem SharingProof.Same.marked {x y : InputTaskRegistration} (h : k.Same x y) :
    k.Marked s x ↔ k.Marked s y := by
  cases k <;> simp only [Marked] at * <;> rw [h]

theorem SharingProof.Shares.same {x y : InputTaskRegistration} (h : k.Shares x y) : k.Same x y := by
  cases k with
  | region => exact h.1
  | _ => exact h

theorem State.Conflict.symm (h : s.Conflict k a b) : s.Conflict k b a := by
  refine ⟨?_, (h.shares.same.marked (s := s)).not.1 h.unmarked, fun hk => (h.live hk).symm⟩
  have hs := h.shares
  cases k with
  | region => exact ⟨hs.1.symm, hs.2.symm⟩
  | _ => exact Eq.symm hs

theorem State.Marks.marked (m : s.Marks s'.filesPossiblyShared s'.groupsMayHaveOtherThreads
    s'.regionsMayHaveOtherProcesses) (k : SharingProof) (a : InputTaskRegistration)
    (h : k.Marked s a) : k.Marked s' a := by
  cases k with
  | files =>
    obtain ⟨b, hb, himp⟩ := m.keepFiles _ true h
    rw [himp rfl] at hb
    exact hb
  | group =>
    obtain ⟨b, hb, himp⟩ := m.keepGroups _ true h
    rw [himp rfl] at hb
    exact hb
  | region => exact m.keepRegions _ h

theorem State.Advances.trans {s'' : State} (h : s.Advances s') (h' : s'.Advances s'') :
    s.Advances s'' := by
  refine ⟨fun t new hnew => ?_, fun k a ha => h'.marks k a (h.marks k a ha)⟩
  obtain ⟨mid, hmid, hc'⟩ := h'.tasks t new hnew
  obtain ⟨old, hold, hc⟩ := h.tasks t mid hmid
  refine ⟨old, hold, ?_, fun ho => hc'.terminal (hc.terminal ho),
    fun ho => hc'.effects (hc.effects ho)⟩
  rw [hc'.registration, hc.registration]

theorem State.Conflict.old {a' b' : Task} (h : s'.Conflict k a' b') (ha : a'.Continues a)
    (hb : b'.Continues b) (marks : ∀ x, k.Marked s x → k.Marked s' x) : s.Conflict k a b := by
  have hshares := h.shares
  have hunmarked := h.unmarked
  rw [ha.registration] at hshares hunmarked
  rw [hb.registration] at hshares
  have hold : ∀ {old new : Task}, new.Continues old → new.nativeEffectsComplete = false →
      old.nativeEffectsComplete = false := fun hc hnew =>
    Bool.eq_false_of_not_eq_true fun ho => Bool.false_ne_true (hnew.symm.trans (hc.effects ho))
  refine ⟨?_, fun hm => hunmarked ?_, fun hk => ⟨hold ha (h.live hk).1, hold hb (h.live hk).2⟩⟩
  · cases k <;> exact hshares
  · have hm' := marks _ hm
    cases k <;> exact hm'

theorem State.Separate.advances (h : s.Separate k) (adv : s.Advances s') : s'.Separate k := by
  intro t t' a' b' ha' hb' hc
  obtain ⟨a, ha, hca⟩ := adv.tasks t a' ha'
  obtain ⟨b, hb, hcb⟩ := adv.tasks t' b' hb'
  exact h t t' a b ha hb (hc.old hca hcb (adv.marks k))

theorem marked_published {x : InputTaskRegistration} :
    k.Marked (s.published registration freezes joined) x ↔ k.Marked s x := by
  cases k <;> rfl

theorem State.Separate.published (h : s.Separate k) (hnew : ∀ (t : InputTaskId) a,
    s.tasks[t]? = some a → ¬ s.Conflict k a (.fresh registration freezes)) :
    (s.published registration freezes joined).Separate k := by
  intro t t' a b ha hb hc
  have hc : s.Conflict k a b := ⟨hc.shares, fun hm => hc.unmarked (marked_published.2 hm), hc.live⟩
  rw [State.published, getElem?_insert] at ha hb
  split_ifs at ha hb with hta htb htb
  · exact hta.symm.trans htb
  · cases ha
    exact absurd hc.symm (hnew t' b hb)
  · cases hb
    exact absurd hc (hnew t a ha)
  · exact h t t' a b ha hb hc

theorem State.Births.separate (births : s.Births registration) (h : s.Separate k)
    (ha : s.tasks[t]? = some a) : ¬ s.Conflict k a (.fresh registration freezes) := by
  rintro ⟨hshares, hunmarked, -⟩
  have hborn := (hshares.same.marked (s := s)).not.1 hunmarked
  cases k with
  | files =>
    rcases births.files with hm | ⟨-, hnone⟩
    · exact hborn hm
    · exact hnone t a ha hshares
  | group =>
    rcases births.group with hm | ⟨-, hnone⟩
    · exact hborn hm
    · exact hnone t a ha hshares
  | region =>
    obtain ⟨heq, hpid⟩ : a.registration.region = registration.region ∧
      a.registration.nativePid ≠ registration.nativePid := hshares
    rcases births.region with hm | hnone | ⟨t', b, hb, hregion, hsame⟩
    · exact hborn hm
    · exact hnone t a ha heq
    · -- another task of the process has the region: the two would be in conflict
      have htt : t = t' := h t t' a b ha hb
        ⟨⟨heq.trans hregion.symm, fun hp => hpid (hp.trans hsame)⟩, hunmarked, fun hk => by cases hk⟩
      subst htt
      rw [ha] at hb
      cases hb
      exact hpid hsame

theorem Quiet.advances (hi : Invariant s) (c : Quiet s s') :
    (∃ registration freezes joined, s' = s.published registration freezes joined ∧
      s.Registers registration freezes joined ∧ s.Births registration) ∨ s.Advances s' := by
  rcases c.descends with h | ⟨hd, -, hm⟩
  · exact Or.inl h
  · exact Or.inr ⟨hd, (hm hi.histories).marked⟩

theorem calm_advances (hi : Invariant s) (h : Relation.ReflTransGen Calm s s') :
    Invariant s' ∧ s.Advances s' := by
  induction h with
  | refl => exact ⟨hi, .of_eq rfl, fun _ _ => id⟩
  | tail _ c ih =>
    refine ⟨ih.1.quiet c.quiet, ?_⟩
    rcases c.quiet.advances ih.1 with ⟨registration, freezes, joined, rfl, registers, -⟩ | hadv
    · have hsome := c.tasks registration.task (by simp [State.published])
      rw [registers.new] at hsome
      cases hsome
    · exact ih.2.trans hadv

/-- The task that replaces the only live task of its group, which has ended since. -/
theorem State.Replaces.separate {s₀ : State} {former : InputTaskId} {owner : Task}
    (r : s.Replaces former registration) (adv : s₀.Advances s) (h₀ : s₀.Separate k)
    (ho : s₀.tasks[former]? = some owner)
    (hlive : k = .group → owner.nativeEffectsComplete = false)
    (ha : s.tasks[t]? = some a) : ¬ s.Conflict k a (.fresh registration freezes) := by
  rintro ⟨hshares, hunmarked, halive⟩
  cases k with
  | files => exact r.files.2 t a ha hshares
  | region => exact r.region t a ha hshares.1
  | group =>
    obtain ⟨new, hnew, hgroup, hended⟩ := r.group
    obtain ⟨old, hold, hc⟩ := adv.tasks t a ha
    obtain ⟨owner', ho', hc'⟩ := adv.tasks former new hnew
    rw [ho] at ho'
    cases ho'
    have heq : a.registration.group = registration.group := hshares
    have hconflict : s.Conflict .group a { new with nativeEffectsComplete := false } :=
      ⟨heq.trans hgroup.symm, hunmarked, fun _ => ⟨(halive rfl).1, rfl⟩⟩
    have htt := h₀ t former old owner hold ho (hconflict.old hc
      ⟨hc'.registration, hc'.terminal, fun h => by rw [hlive rfl] at h; cases h⟩ (adv.marks _))
    subst htt
    rw [ha] at hnew
    cases hnew
    exact Bool.false_ne_true ((halive rfl).1.symm.trans hended)

/-- No two tasks are in conflict about `k`, and the marks of `start` are kept. -/
structure State.Shared (start : State) (k : SharingProof) (s : State) : Prop where
  invariant : Invariant s
  separate : s.Separate k
  marks : ∀ (k : SharingProof) a, k.Marked start a → k.Marked s a

variable {start : State}

theorem State.Shared.advances (h : start.Shared k s) (hi : Invariant s') (adv : s.Advances s') :
    start.Shared k s' :=
  ⟨hi, h.separate.advances adv, fun k a ha => adv.marks k a (h.marks k a ha)⟩

theorem State.Shared.published (h : start.Shared k s)
    (hi : Invariant (s.published registration freezes joined)) (hnew : ∀ (t : InputTaskId) a,
      s.tasks[t]? = some a → ¬ s.Conflict k a (.fresh registration freezes)) :
    start.Shared k (s.published registration freezes joined) :=
  ⟨hi, h.separate.published hnew, fun k a ha => marked_published.2 (h.marks k a ha)⟩

theorem State.Advances.of_updateAll {tasks : Std.TreeMap InputTaskId Task} {f : ℕ}
    {members : Std.TreeSet InputTaskId} (thaw : updateAll s.tasks (fun owner =>
      { owner with frozen := owner.frozen.erase f }) members.toList = some tasks)
    (marks : ∀ (k : SharingProof) a, k.Marked s' a ↔ k.Marked s a) (h : s'.tasks = tasks) :
    s.Advances s' :=
  ⟨.of_updateAll nodup_toList thaw h fun _ => ⟨rfl, id, id⟩, fun k a => (marks k a).2⟩

theorem State.Shared.change (h : start.Shared k s) (c : Change s s') : start.Shared k s' := by
  have hi := h.invariant.change c
  have hsame : ∀ {s'' : State}, Invariant s'' → s''.tasks = s.tasks →
      (∀ (k : SharingProof) a, k.Marked s a → k.Marked s'' a) → start.Shared k s'' :=
    fun hi ht hm => h.advances hi ⟨.of_eq ht, hm⟩
  cases c with
  | quiet c =>
    rcases c.advances h.invariant with ⟨registration, freezes, joined, rfl, -, births⟩ | adv
    · exact h.published hi fun t a ha => births.separate h.separate ha
    · exact h.advances hi adv
  | settle c =>
    cases c with
    | settle _ thaw _ => exact h.advances hi (.of_updateAll thaw (fun k _ => by cases k <;> rfl) rfl)
  | cancel c =>
    cases c with
    | cancel _ thaw _ => exact h.advances hi (.of_updateAll thaw (fun k _ => by cases k <;> rfl) rfl)
  | readmission c =>
    cases c
    exact hsame hi rfl fun k _ => by cases k <;> exact id
  | _ => exact hsame hi rfl fun k _ => by cases k <;> exact id

/-! ## Runs -/

variable {run : ℕ}

theorem Call.shared {c : Call} (hok : ReplacesLive k s c) (h : start.Shared k s) :
    start.Shared k (c.after run s) := by
  refine Keeps.after (c.keeps ⟨State.Shared.invariant, State.Shared.change⟩ h ?_)
  rintro displaced former observer s' s'' rfl h' hcalm r
  have hi := h'.invariant.replace r
  cases r with
  | replace registers replaces =>
    have adv := (calm_advances h.invariant hcalm).2
    obtain ⟨new, hnew, -⟩ := replaces.group
    obtain ⟨owner, ho, -⟩ := adv.tasks former new hnew
    exact h'.published hi fun t a ha => replaces.separate adv h.separate ho
      (fun hk => hok hk displaced former observer rfl owner ho) ha

theorem Run.shared (h : Run run (ReplacesLive k) s s') (hs : start.Shared k s) : start.Shared k s' := by
  induction h with
  | refl => exact hs
  | tail _ hstep ih =>
    obtain ⟨c, hok, rfl⟩ := hstep
    exact Call.shared hok ih

theorem proven_eq_false (hi : Invariant s) (ht : s.tasks[t]? = some a) :
    k.proven s t = false ↔ k.Marked s a.registration := by
  cases k with
  | files =>
    obtain ⟨b, hb⟩ := Option.isSome_iff_exists.1 (hi.histories.files t a ht)
    simp [SharingProof.proven, filesProvenUnshared, SharingProof.Marked, ht, hb]
  | group =>
    obtain ⟨b, hb⟩ := Option.isSome_iff_exists.1 (hi.histories.group t a ht)
    simp [SharingProof.proven, groupProvenSingleton, SharingProof.Marked, ht, hb]
  | region =>
    simp [SharingProof.proven, regionProvenSingleProcess, SharingProof.Marked, ht]

theorem Run.replacesLive (h : Run run anyCall s s') : Run run (ReplacesLive .files) s s' := by
  refine Relation.ReflTransGen.mono ?_ _ _ h
  rintro _ _ ⟨c, -, hc⟩
  exact ⟨c, nofun, hc⟩

theorem shared_init : State.init.Shared k .init :=
  ⟨Invariant.init, fun _ _ _ _ ha => (by cases ha), fun _ _ => id⟩

end

/-- **The proofs are monotone and sound**, that of a singleton group if no image is replaced
    after its task has ended. -/
theorem sharing_proofs_sound (run : ℕ) : SharingProofs run ReplacesLive := by
  refine ⟨?_, ?_⟩
  · intro s s' h h' k t t' owner owner' ht ht' hsame hlost
    have hs := h.replacesLive.shared shared_init
    have hs' := h'.replacesLive.shared ⟨hs.invariant, hs.separate, fun _ _ => id⟩
    rw [proven_eq_false hs.invariant ht] at hlost
    exact (proven_eq_false hs'.invariant ht').2 (hsame.marked.1 (hs'.marks k _ hlost))
  · intro k s h t t₁ t₂ owner owner₁ owner₂ ht hproven h₁ h₂ live₁ live₂ hsame hshares
    have hs := h.shared shared_init
    refine hs.separate t₁ t₂ owner₁ owner₂ h₁ h₂ ⟨hshares, fun hm => ?_, fun _ => ⟨live₁.2, live₂.2⟩⟩
    have hlost := (proven_eq_false hs.invariant ht).2 (hsame.marked.2 hm)
    rw [hproven] at hlost
    cases hlost

/-! ## An image that is replaced twice -/

namespace Twice

def first : InputTaskId := ⟨0, 1, 10⟩
def second : InputTaskId := ⟨0, 5, 10⟩
def third : InputTaskId := ⟨0, 8, 10⟩
def exec : Call := .execReplacement first first fun _ => none
def calls : List Call := [.registerRoot 10 10, exec, exec]

end Twice

/-- A task that has ended can be replaced again: its two images are live in a proven singleton
    group. -/
theorem sharing_proofs_fail : ¬ SharingProofs 0 fun _ => anyCall := by
  intro h
  obtain ⟨a, b, ha, hb, la, lb, hsame⟩ : ∃ a b,
      (afterAll 0 .init Twice.calls).tasks[Twice.second]? = some a ∧
      (afterAll 0 .init Twice.calls).tasks[Twice.third]? = some b ∧ a.isLive ∧ b.isLive ∧
      a.registration.group = b.registration.group :=
    ⟨_, _, rfl, rfl, ⟨rfl, rfl⟩, ⟨rfl, rfl⟩, rfl⟩
  have heq := h.sound .group _ (run_afterAll _ Twice.calls) Twice.second Twice.second Twice.third
    a a b ha (by decide +kernel) ha hb la lb rfl hsame
  exact absurd heq (by decide)

end Reverie.Input
