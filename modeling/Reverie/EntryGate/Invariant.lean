/-
  The invariant of a registry and its handles, and the changes that keep it.  A handle says
  what its registry must look like (`Participant.Matches`, `Closer.Matches`); while admission
  is closed every member is stopped and no copy is admitted (`Inv.quiet`).
-/
import Reverie.EntryGate.System

namespace Reverie.EntryGate
open List Option Table

/-! ## What a failure keeps -/

/-- A recorded failure stays, with more cleanup errors. -/
def Kept (before after : Option PendingFailure) : Prop :=
  ∀ f, before = some f → ∃ errors, after = some { f with cleanup := f.cleanup ++ errors }

theorem Kept.refl (o : Option PendingFailure) : Kept o o := fun f h => ⟨[], by simpa using h⟩

theorem Kept.ne_none {a b : Option PendingFailure} (h : Kept a b) (ha : a ≠ none) : b ≠ none := by
  obtain ⟨f, hf⟩ := ne_none_iff_exists'.1 ha
  obtain ⟨errors, hb⟩ := h f hf
  rw [hb]
  exact some_ne_none _

/-! ## The invariant -/

theorem rangesOverlap_iff {first second : Range} :
    rangesOverlap first second = true ↔
      ∃ byte, (first.start ≤ byte ∧ byte < first.stop) ∧ second.start ≤ byte ∧ byte < second.stop := by
  simp only [rangesOverlap, Bool.and_eq_true, decide_eq_true_eq]
  constructor
  · rintro ⟨⟨⟨_, _⟩, _⟩, _⟩
    exact ⟨max first.start second.start, by omega⟩
  · omega

/-- Every member is stopped and no copy is admitted. -/
def State.Stopped (st : State) : Prop :=
  st.copies = 0 ∧ ∀ (id : ℕ) (m : Member), st.members[id]? = some m → m.activity = .stopped

theorem State.stopped_iff {st : State} : st.stopped = true ↔ st.Stopped := by
  rw [State.stopped, Bool.and_eq_true, decide_eq_true_eq, List.all_eq_true]
  refine and_congr_right fun _ => ⟨fun h id m hm => ?_, fun h m hm => ?_⟩
  · exact of_decide_eq_true (h m (mem_values.2 ⟨id, hm⟩))
  · obtain ⟨id, hid⟩ := mem_values.1 hm
    exact decide_eq_true (h id m hid)

theorem State.overlappingOperand_none {st : State} {range : Range}
    (h : st.overlappingOperand range = none) {id : ℕ} {operand : Range}
    (ho : st.retainedOperands[id]? = some operand) : rangesOverlap operand range = false := by
  rw [State.overlappingOperand, find?_eq_none] at h
  exact Bool.eq_false_of_not_eq_true (h operand (mem_values.2 ⟨id, ho⟩))

/-- An entry's stage is its member's activity. -/
def Stage.Matches : Stage → Activity → Prop
  | .entered, activity => activity = .setup
  | .active, activity => ∃ host, activity = .running host
  | .withdrawn, activity => activity = .retiring

theorem Stage.Matches.ne_stopped {stage : Stage} {activity : Activity}
    (h : stage.Matches activity) : activity ≠ .stopped := by
  rintro rfl
  cases stage with
  | entered => cases h
  | active => cases h.choose_spec
  | withdrawn => cases h

/-- The member of a participant is where its entry is.  One whose entry was dropped is
    retiring for good. -/
def Participant.Matches (p : Participant) (st : State) (m : Member) : Prop :=
  match p.entry with
  | some e => p.entryOutstanding = true ∧ m.run = e.run ∧ e.generation = st.generation ∧
      e.stage.Matches m.activity
  | none => if p.entryOutstanding then m.activity = .retiring ∧ st.failure ≠ none
      else m.activity = .stopped

theorem Participant.Matches.entry_none {p : Participant} {st : State} {m : Member}
    (h : p.Matches st m) (hm : m.activity = .stopped) : p.entry = none := by
  rw [Participant.Matches] at h
  rcases he : p.entry with - | e
  · rfl
  · rw [he] at h
    exact absurd hm h.2.2.2.ne_stopped

/-- What the registry records for a closer. -/
def Closer.Matches (st : State) : Closer → Prop
  | .closing id => st.admission = .closing id
  | .closed id _ => st.admission = .closed id
  | .publishing id next replaced _ => st.admission = .closed id ∧
      checkedNext st.generation = some next ∧
      ∀ (k : ℕ) (operand : Range), st.retainedOperands[k]? = some operand →
        rangesOverlap operand replaced = false

theorem Closer.Matches.not_open {st : State} {c : Closer} (h : c.Matches st) :
    st.admission ≠ .open := by
  intro hopen
  cases c with
  | closing id => cases hopen.symm.trans h
  | closed id published => cases hopen.symm.trans h
  | publishing id next replaced origin => cases hopen.symm.trans h.1

theorem Closer.Matches.of_eq {st st' : State} {c : Closer} (h : c.Matches st)
    (hadmission : st'.admission = st.admission) (hgeneration : st'.generation = st.generation)
    (hoperands : st'.retainedOperands = st.retainedOperands) : c.Matches st' := by
  cases c with
  | closing id => exact hadmission.trans h
  | closed id published => exact hadmission.trans h
  | publishing id next replaced origin =>
    rw [Closer.Matches, hadmission, hgeneration, hoperands]
    exact h

/-- The handles and the shared records agree. -/
structure Inv (s : System) : Prop where
  intact : s.poisoned = false
  participant : ∀ (id : ℕ) (p : Participant), s.participants[id]? = some p → p.id = id ∧
    ∃ m, s.state.members[id]? = some m ∧ p.Matches s.state m
  memberId : ∀ (id : ℕ) (m : Member), s.state.members[id]? = some m → id ≤ s.state.nextMember
  copyCount : s.state.copies = s.copies.length
  copy : ∀ c ∈ s.copies, c.generation = s.state.generation
  operand : ∀ (id : ℕ) (o : RetainedOperand), s.operands[id]? = some o → o.id = id ∧
    s.state.retainedOperands[id]? = some o.range ∧ o.generation ≤ s.state.generation
  operandId : ∀ (id : ℕ) (range : Range), s.state.retainedOperands[id]? = some range →
    id ≤ s.state.nextOperand
  oneCloser : s.closers.length ≤ 1
  closer : ∀ c ∈ s.closers, c.Matches s.state
  closed : ∀ id, s.state.admission = .closed id → s.state.Stopped

/-- No entry borrows a participant and no copy is admitted. -/
def System.Quiet (s : System) : Prop :=
  s.copies = [] ∧ ∀ (id : ℕ) (p : Participant), s.participants[id]? = some p → p.entry = none

theorem inv_new : Inv System.new where
  intact := rfl
  participant _ _ h := by cases h
  memberId _ _ h := by cases h
  copyCount := rfl
  copy _ h := absurd h not_mem_nil
  operand _ _ h := by cases h
  operandId _ _ h := by cases h
  oneCloser := Nat.zero_le _
  closer _ h := absurd h not_mem_nil
  closed _ h := by cases h

namespace Inv

variable {s : System}

variable (h : Inv s)
include h

theorem closers_eq {index : ℕ} {c : Closer} (hc : s.closers[index]? = some c) :
    index = 0 ∧ s.closers = [c] := by
  have hone := h.oneCloser
  rcases hs : s.closers with - | ⟨c', - | ⟨c'', rest⟩⟩
  · rw [hs] at hc
    cases hc
  · rw [hs] at hc
    rcases index with - | index
    · cases hc
      exact ⟨rfl, rfl⟩
    · cases hc
  · rw [hs] at hone
    simp only [length_cons] at hone
    omega

theorem closers_nil (hopen : s.state.admission = .open) : s.closers = [] :=
  eq_nil_iff_forall_not_mem.2 fun c hc => (h.closer c hc).not_open hopen

theorem quiet (hs : s.state.Stopped) : s.Quiet := by
  refine ⟨eq_nil_of_length_eq_zero (h.copyCount.symm.trans hs.1), fun id p hp => ?_⟩
  obtain ⟨-, m, hm, hmatch⟩ := h.participant id p hp
  exact hmatch.entry_none (hs.2 id m hm)

theorem failure {f : Option PendingFailure} (hf : Kept s.state.failure f) :
    Inv { s with state := { s.state with failure := f } } :=
  { h with
    participant := fun id p hp => by
      obtain ⟨hid, m, hm, hmatch⟩ := h.participant id p hp
      refine ⟨hid, m, hm, ?_⟩
      rw [Participant.Matches] at hmatch ⊢
      rcases he : p.entry with - | e
      · rw [he] at hmatch
        split_ifs at hmatch ⊢
        · exact ⟨hmatch.1, hf.ne_none hmatch.2⟩
        · exact hmatch
      · rw [he] at hmatch
        exact hmatch
    closer := fun c hc => (h.closer c hc).of_eq rfl rfl rfl }

theorem members {members : Std.TreeMap ℕ Member}
    {participants : Std.TreeMap ℕ Participant} {nextMember : ℕ}
    (hpart : ∀ (id : ℕ) (p : Participant), participants[id]? = some p → p.id = id ∧
      ∃ m, members[id]? = some m ∧ p.Matches s.state m)
    (hid : ∀ (id : ℕ) (m : Member), members[id]? = some m → id ≤ nextMember)
    (hclosed : ∀ k, s.state.admission = .closed k →
      ∀ (id : ℕ) (m : Member), members[id]? = some m → m.activity = .stopped) :
    Inv { s with state := { s.state with members := members, nextMember := nextMember },
                 participants := participants } :=
  { h with
    participant := hpart
    memberId := hid
    closer := fun c hc => (h.closer c hc).of_eq rfl rfl rfl
    closed := fun k hk => ⟨(h.closed k hk).1, hclosed k hk⟩ }

theorem setMember {id : ℕ} {p p' : Participant} {m' : Member}
    (hp : s.participants[id]? = some p) (hid : p'.id = id) (hmatch : p'.Matches s.state m')
    (hclosed : ∀ k, s.state.admission = .closed k → m'.activity = .stopped) :
    Inv { s with state := { s.state with members := s.state.members.insert id m' },
                 participants := s.participants.insert id p' } := by
  refine h.members (fun k q hq => ?_) (fun k m hm => ?_) fun k hk j m hm => ?_
  · rw [Table.getElem?_insert] at hq ⊢
    split_ifs at hq ⊢ with hk
    · cases hq
      subst hk
      exact ⟨hid, m', rfl, hmatch⟩
    · exact h.participant k q hq
  · rw [Table.getElem?_insert] at hm
    split_ifs at hm with hk
    · obtain ⟨-, m, hold, -⟩ := h.participant id p hp
      exact hk ▸ h.memberId id m hold
    · exact h.memberId k m hm
  · rw [Table.getElem?_insert] at hm
    split_ifs at hm
    · cases hm
      exact hclosed k hk
    · exact (h.closed k hk).2 j m hm

theorem register {m : Member} (hm : m.activity = .stopped) {p : Participant}
    (hp : p.id = s.state.nextMember + 1 ∧ p.entry = none ∧ p.entryOutstanding = false) :
    Inv { s with
      state := { s.state with
        members := s.state.members.insert (s.state.nextMember + 1) m
        nextMember := s.state.nextMember + 1 }
      participants := s.participants.insert (s.state.nextMember + 1) p } := by
  refine h.members (fun k q hq => ?_) (fun k m hm => ?_) fun k hk j m hm => ?_
  · rw [Table.getElem?_insert] at hq ⊢
    split_ifs at hq ⊢ with hk
    · cases hq
      refine ⟨hp.1.trans hk, m, rfl, ?_⟩
      rw [Participant.Matches, hp.2.1, hp.2.2]
      exact hm
    · exact h.participant k q hq
  · rw [Table.getElem?_insert] at hm
    split_ifs at hm with hk
    · exact hk ▸ Nat.le_refl _
    · exact Nat.le_succ_of_le (h.memberId k m hm)
  · rw [Table.getElem?_insert] at hm
    split_ifs at hm
    · cases hm
      assumption
    · exact (h.closed k hk).2 j m hm

/-- A participant is dropped: its member is removed, or stays where it is. -/
theorem dropParticipant {id : ℕ} {members : Std.TreeMap ℕ Member}
    (hkeep : ∀ k : ℕ, k ≠ id → members[k]? = s.state.members[k]?)
    (hid : ∀ m, members[id]? = some m →
      id ≤ s.state.nextMember ∧ ∀ k, s.state.admission ≠ .closed k) :
    Inv { s with state := { s.state with members := members },
                 participants := s.participants.erase id } := by
  refine h.members (fun k q hq => ?_) (fun k m hm => ?_) fun k hk j m hm => ?_
  · rw [getElem?_erase] at hq
    split_ifs at hq with hk
    rw [hkeep k (Ne.symm hk)]
    exact h.participant k q hq
  · by_cases hk : k = id
    · subst hk
      exact (hid m hm).1
    · rw [hkeep k hk] at hm
      exact h.memberId k m hm
  · by_cases hj : j = id
    · subst hj
      exact absurd hk ((hid m hm).2 k)
    · rw [hkeep j hj] at hm
      exact (h.closed k hk).2 j m hm

theorem sameActivity {members : Std.TreeMap ℕ Member}
    (hsame : ∀ k : ℕ, members[k]?.map (fun m => (m.run, m.activity)) =
      s.state.members[k]?.map fun m => (m.run, m.activity)) :
    Inv { s with state := { s.state with members := members } } := by
  have hback : ∀ {k : ℕ} {m : Member}, members[k]? = some m →
      ∃ m', s.state.members[k]? = some m' ∧ m'.run = m.run ∧ m'.activity = m.activity := by
    intro k m hm
    have hk := hsame k
    rw [hm, map_some, eq_comm, map_eq_some_iff] at hk
    obtain ⟨m', hm', heq⟩ := hk
    exact ⟨m', hm', congrArg Prod.fst heq, congrArg Prod.snd heq⟩
  refine h.members (fun k q hq => ?_) (fun k m hm => ?_) fun k hk j m hm => ?_
  · obtain ⟨hid, m', hm', hmatch⟩ := h.participant k q hq
    have hk := hsame k
    rw [hm', map_some, map_eq_some_iff] at hk
    obtain ⟨m, hm, heq⟩ := hk
    refine ⟨hid, m, hm, ?_⟩
    have hrun : m.run = m'.run := congrArg Prod.fst heq
    have hact : m.activity = m'.activity := congrArg Prod.snd heq
    rwa [Participant.Matches, hrun, hact]
  · obtain ⟨m', hm', -⟩ := hback hm
    exact h.memberId k m' hm'
  · obtain ⟨m', hm', -, hact⟩ := hback hm
    rw [← hact]
    exact (h.closed k hk).2 j m' hm'

theorem copies {copies : List CopyAccess}
    (hcopy : ∀ c ∈ copies, c.generation = s.state.generation)
    (hclosed : ∀ k, s.state.admission = .closed k → copies = []) :
    Inv { s with state := { s.state with copies := copies.length }, copies := copies } :=
  { h with
    copyCount := rfl
    copy := hcopy
    closer := fun c hc => (h.closer c hc).of_eq rfl rfl rfl
    closed := fun k hk => ⟨congrArg List.length (hclosed k hk), (h.closed k hk).2⟩ }

theorem retain (hcopies : s.copies ≠ []) {o : RetainedOperand}
    (hid : o.id = s.state.nextOperand + 1) (hgen : o.generation = s.state.generation) :
    Inv { s with
      state := { s.state with
        nextOperand := o.id
        retainedOperands := s.state.retainedOperands.insert o.id o.range }
      operands := s.operands.insert o.id o } :=
  { h with
    operand := fun k o' ho' => by
      rw [Table.getElem?_insert] at ho' ⊢
      split_ifs at ho' ⊢ with hk
      · cases ho'
        exact ⟨hk, rfl, hgen.le⟩
      · exact h.operand k o' ho'
    operandId := fun k range hr => by
      rw [Table.getElem?_insert] at hr
      split_ifs at hr with hk
      · exact hk ▸ Nat.le_refl _
      · have := h.operandId k range hr
        show k ≤ o.id
        omega
    closer := fun c hc => by
      have hmatch := h.closer c hc
      cases c with
      | closing id => exact hmatch
      | closed id published => exact hmatch
      | publishing id next replaced origin =>
        exact absurd (h.quiet (h.closed id hmatch.1)).1 hcopies }

theorem release (id : ℕ) :
    Inv { s with
      state := { s.state with retainedOperands := s.state.retainedOperands.erase id }
      operands := s.operands.erase id } :=
  { h with
    operand := fun k o ho => by
      rw [getElem?_erase] at ho ⊢
      split_ifs at ho ⊢ with hk
      exact h.operand k o ho
    operandId := fun k range hr => by
      rw [getElem?_erase] at hr
      split_ifs at hr with hk
      exact h.operandId k range hr
    closer := fun c hc => by
      have hmatch := h.closer c hc
      cases c with
      | closing id => exact hmatch
      | closed id published => exact hmatch
      | publishing id next replaced origin =>
        refine ⟨hmatch.1, hmatch.2.1, fun k range hr => ?_⟩
        rw [getElem?_erase] at hr
        split_ifs at hr
        exact hmatch.2.2 k range hr }

theorem admission {admission : Admission} {nextClose : ℕ} {closers : List Closer}
    (hone : closers.length ≤ 1)
    (hcloser : ∀ c ∈ closers,
      c.Matches { s.state with admission := admission, nextClose := nextClose })
    (hclosed : ∀ k, admission = .closed k → s.state.Stopped) :
    Inv { s with state := { s.state with admission := admission, nextClose := nextClose },
                 closers := closers } :=
  { h with
    oneCloser := hone
    closer := hcloser
    closed := hclosed }

theorem publish {id next : ℕ} (hclosed : s.state.admission = .closed id)
    (hnext : s.state.generation ≤ next) {published : Bool} :
    Inv { s with state := { s.state with generation := next },
                 closers := [.closed id published] } :=
  { h with
    participant := fun k p hp => by
      obtain ⟨hid, m, hm, hmatch⟩ := h.participant k p hp
      refine ⟨hid, m, hm, ?_⟩
      have hentry := (h.quiet (h.closed id hclosed)).2 k p hp
      rw [Participant.Matches, hentry] at hmatch ⊢
      exact hmatch
    copy := fun c hc => by
      rw [(h.quiet (h.closed id hclosed)).1] at hc
      exact absurd hc not_mem_nil
    operand := fun k o ho => by
      obtain ⟨hid, hr, hgen⟩ := h.operand k o ho
      exact ⟨hid, hr, hgen.trans hnext⟩
    oneCloser := Nat.le_refl _
    closer := fun c hc => by
      obtain rfl := mem_singleton.1 hc
      exact hclosed }

end Inv

end Reverie.EntryGate
