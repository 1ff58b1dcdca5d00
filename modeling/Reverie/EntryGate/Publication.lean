/-
  Publication excludes guest entry and copies.

  * `call_fine`: every section is fine, and stops with no assertion;
  * `publication_excludes_entry`: so what holds of every run.
-/
import Reverie.EntryGate.Sections

namespace Reverie.EntryGate
open Ensures (get_bind orElse_bind refuse_bind set_bind)
open List

/-! ## Handles -/

section
variable {s : System}

theorem freeParticipant_bind (h : Inv s) {id : ℕ} {f : Participant → Api Reply}
    (hf : ∀ p m, s.participants[id]? = some p → p.entry = none → p.id = id →
      s.state.members[id]? = some m → p.Matches s.state m →
      Ensures (f p) s (fun r s' => Fine s (some r) s') (Halted s)) :
    Calls s (freeParticipant id >>= f) := by
  refine Ensures.bind (Q := fun p s' => s' = s ∧ s.participants[id]? = some p ∧ p.entry = none) ?_ ?_
  · refine get_bind (orElse_bind (fun _ => Halted.absent h) fun p hp => ?_)
    refine refuse_bind (fun _ => Halted.absent h) fun hentry => ?_
    exact Ensures.pure ⟨rfl, hp, not_not.1 hentry⟩
  · rintro p _ ⟨rfl, hp, hentry⟩
    obtain ⟨hid, m, hm, hmatch⟩ := h.participant id p hp
    exact hf p m hp hentry hid hm hmatch

theorem borrowing_bind (h : Inv s) {id : ℕ} {f : Participant × Entry → Api Reply} {orderly : Prop}
    (hf : ∀ p e m, s.participants[id]? = some p → p.id = id → s.state.members[id]? = some m →
      p.entryOutstanding = true → m.run = e.run → e.generation = s.state.generation →
      e.stage.Matches m.activity → s.stage id = some e.stage →
      Ensures (f (p, e)) s (fun r s' => Fine s (some r) s') (Stops orderly s)) :
    Ensures (borrowing id >>= f) s (fun r s' => Fine s (some r) s') (Stops orderly s) := by
  refine Ensures.bind (Q := fun x s' => s' = s ∧ s.participants[id]? = some x.1 ∧
    x.1.entry = some x.2) ?_ ?_
  · refine get_bind (orElse_bind (fun _ => (Halted.absent h).stops) fun p hp => ?_)
    refine orElse_bind (fun _ => (Halted.absent h).stops) fun e he => ?_
    exact Ensures.pure ⟨rfl, hp, he⟩
  · rintro ⟨p, e⟩ s' ⟨hs, hp, he⟩
    rw [hs]
    have hstage : s.stage id = some e.stage := by rw [System.stage, hp, Option.bind_some, he]; rfl
    obtain ⟨hid, m, hm, hmatch⟩ := h.participant id p hp
    rw [Participant.Matches, he] at hmatch
    obtain ⟨hout, hrun, hgen, hmatch⟩ := hmatch
    exact hf p e m hp hid hm hout hrun hgen hmatch hstage

end

/-! ## Participants -/

section
variable {s : System} (h : Inv s)
include h

theorem register_fine : Calls s (call .register) := by
  refine locked_bind h.intact (checked h fun hf => get_bind (nextOr_bind h fun _ => ?_))
  exact Fine.admitted (h.register rfl ⟨rfl, rfl, rfl⟩) (Kept.refl _) rfl (by decide) hf

variable (id : ℕ)

theorem updateOrigin_fine (origin : EntryOrigin) : Calls s (call (.updateOrigin id origin)) := by
  refine freeParticipant_bind h fun p m hp hentry hid hm hmatch => ?_
  refine refuse_bind (fun _ => Halted.same h (by simp)) fun _ => ?_
  refine Fine.quiet (h.members (fun k q hq => ?_) h.memberId fun k hk => (h.closed k hk).2)
    (Kept.refl _) rfl rfl
  rw [Table.getElem?_insert] at hq
  split_ifs at hq with hk
  · cases hq
    subst hk
    exact ⟨hid, m, hm, hmatch⟩
  · exact h.participant k q hq

theorem retireFromGuest_fine : Calls s (call (.retireFromGuest id)) := by
  refine freeParticipant_bind h fun p m hp hentry hid hm hmatch => ?_
  subst hid
  refine locked_bind h.intact (refuse_bind (fun _ => Halted.same h (by simp)) fun hout => ?_)
  rw [Participant.Matches, hentry, Bool.eq_false_of_not_eq_true hout] at hmatch
  refine get_bind (member_bind hm (assert_bind hmatch ?_))
  split_ifs
  · exact Fine.same h rfl
  · refine setMember_bind (Fine.quiet (h.sameActivity fun k => ?_) (Kept.refl _) rfl rfl)
    rw [Table.getElem?_insert]
    split_ifs with hk
    · rw [← hk, hm]
      rfl
    · rfl

theorem tryEnter_fine : Calls s (call (.tryEnter id)) := by
  refine freeParticipant_bind h fun p m hp hentry hid hm hmatch => ?_
  subst hid
  refine locked_bind h.intact (checked h fun hf => get_bind ?_)
  split_ifs with hopen
  · exact Fine.same h rfl
  · have hact : m.activity = .stopped := by
      rw [Participant.Matches, hentry] at hmatch
      split_ifs at hmatch
      · exact absurd hf hmatch.2
      · exact hmatch
    refine get_bind (member_bind hm (assert_bind hact ?_))
    split_ifs
    · exact failWith_halts h
    · refine nextOr_bind h fun _ => setMember_bind ?_
      refine Fine.admitted (h.setMember hp rfl ⟨rfl, rfl, rfl, rfl⟩ fun k hk => ?_) (Kept.refl _) rfl
        (by decide) hf
      cases (not_not.1 hopen).symm.trans hk

/-- While an entry is live its member is not stopped, so admission is not closed. -/
theorem not_closed_of_entry {id : ℕ} {e : Entry} {m : Member} (hm : s.state.members[id]? = some m)
    (hstage : e.stage.Matches m.activity) (k : ℕ) : s.state.admission ≠ .closed k :=
  fun hk => hstage.ne_stopped ((h.closed k hk).2 id m hm)

/-- An assertion on the activity of an entry's member fires before anything is changed. -/
theorem broken_of_entry {id : ℕ} {e : Entry} {m : Member} (hm : s.state.members[id]? = some m)
    (hstage : e.stage.Matches m.activity) (participants : Std.TreeMap ℕ Participant) :
    Broken s { s with participants := participants, poisoned := true } :=
  ⟨rfl, rfl, fun k _ _ _ hc => not_closed_of_entry h hm hstage k (h.closer _ hc).1⟩

theorem activate_stops (host : HostThread) :
    Ensures (call (.activate id host)) s (fun r s' => Fine s (some r) s')
      (Stops ((Act.activate id host).Orderly s) s) := by
  refine borrowing_bind h fun p e m hp hid hm hout hrun hgen hmatch hstage => ?_
  subst hid
  refine locked_run h.intact (check_bind (fun _ => (Halted.same h (by simp)).stops) fun hf => ?_)
  refine member_bind hm (assert_bind hrun (assert_or (fun hact => ?_) fun hact => ?_))
  · refine ⟨fun ho => ?_, broken_of_entry h hm hmatch _⟩
    rw [Act.Orderly, hstage] at ho
    rcases hs : e.stage with - | - | -
    · rw [hs] at hmatch
      exact hact hmatch
    · exact ho.1 (congrArg some hs)
    · exact ho.2 (congrArg some hs)
  · refine get_bind (assert_bind hgen.symm (get_bind ?_))
    split_ifs with hopen
    · exact Fine.same h rfl
    · refine setMember_bind (Fine.admitted (h.setMember hp rfl ⟨hout, hrun, hgen, host, rfl⟩
        fun k hk => ?_) (Kept.refl _) rfl (by decide) hf)
      cases (not_not.1 hopen).symm.trans hk

theorem withdraw_stops : Ensures (call (.withdraw id)) s (fun r s' => Fine s (some r) s')
    (Stops ((Act.withdraw id).Orderly s) s) := by
  refine borrowing_bind h fun p e m hp hid hm hout hrun hgen hmatch hstage => ?_
  subst hid
  refine locked_run h.intact (member_bind hm (assert_bind hrun (assert_or (fun hact => ?_)
    fun hact => setMember_bind ?_)))
  · refine ⟨fun ho => hact ⟨hmatch.ne_stopped, fun hretiring => ?_⟩, broken_of_entry h hm hmatch _⟩
    rw [Act.Orderly, hstage] at ho
    rcases hs : e.stage with - | - | -
    · rw [hs] at hmatch
      exact Activity.noConfusion (hretiring.symm.trans hmatch)
    · rw [hs] at hmatch
      exact Activity.noConfusion (hretiring.symm.trans hmatch.choose_spec)
    · exact ho (congrArg some hs)
  · refine Fine.quiet (h.setMember hp rfl ⟨hout, hrun, hgen, rfl⟩ fun k hk => ?_) (Kept.refl _) rfl rfl
    exact absurd hk (not_closed_of_entry h hm hmatch k)

/-- A participant that acknowledges is stopped, whether or not there is a failure. -/
theorem acknowledge_stops (cleanup : Option Error) :
    Ensures (call (.acknowledge id cleanup)) s (fun r s' => Fine s (some r) s')
      (Stops ((Act.acknowledge id cleanup).Orderly s) s) := by
  refine borrowing_bind h fun p e m hp hid hm hout hrun hgen hmatch hstage => ?_
  subst hid
  refine locked_run (s := { s with
      participants := s.participants.insert p.id
        { p with entryOutstanding := false, entry := none } }) h.intact
    (member_bind hm (assert_bind hrun (assert_or (fun hact => ?_) fun _ => setMember_bind ?_)))
  · refine ⟨fun ho => ?_, broken_of_entry h hm hmatch _⟩
    rw [Act.Orderly, hstage] at ho
    rcases hs : e.stage with - | - | -
    · exact ho.1 (congrArg some hs)
    · exact ho.2 (congrArg some hs)
    · rw [hs] at hmatch
      exact hact hmatch
  · have hinv : ∀ {f}, Kept s.state.failure f → Inv { s with
        state := { s.state with
          members := s.state.members.insert p.id { m with activity := .stopped }, failure := f }
        participants := s.participants.insert p.id
          { p with entryOutstanding := false, entry := none } } :=
      fun hf => (h.failure hf).setMember hp rfl rfl fun _ _ => rfl
    have hfailed : ∀ {f failure}, Kept s.state.failure f → Halted s (.failed failure) _ :=
      fun hf => Halted.of_inv (by simp) (hinv hf) hf rfl
    cases cleanup with
    | none =>
      refine get_bind ?_
      split
      · exact (hfailed (Kept.refl _)).stops
      · exact Fine.quiet (hinv (Kept.refl _)) (Kept.refl _) rfl rfl
    | some error => exact fail_bind fun failure hf => (@hfailed _ failure hf).stops

theorem dropEntry_stops (orderly : Prop) : Ensures (call (.dropEntry id)) s
    (fun r s' => Fine s (some r) s') (Stops orderly s) := by
  refine borrowing_bind h fun p e m hp hid hm hout hrun hgen hmatch _ => ?_
  subst hid
  refine locked_run (s := { s with
      participants := s.participants.insert p.id { p with entry := none } }) h.intact
    (member_bind hm (assert_bind hrun (setMember_bind (fail_bind fun f hf => ?_))))
  refine Fine.quiet ((h.failure hf).setMember hp rfl ?_ fun k hk => ?_) hf rfl rfl
  · rw [hout]
    exact ⟨rfl, by simp⟩
  · exact absurd hk (not_closed_of_entry h hm hmatch k)

theorem dropParticipant_fine : Calls s (call (.dropParticipant id)) := by
  refine freeParticipant_bind h fun p m hp hentry hid hm hmatch => ?_
  subst hid
  refine locked_bind h.intact (member_bind hm ?_)
  split_ifs with hact
  · refine Fine.quiet (h.dropParticipant (fun k hk => ?_) fun m' hm' => ?_) (Kept.refl _) rfl rfl
    · rw [Table.getElem?_erase, if_neg (Ne.symm hk)]
    · rw [Table.getElem?_erase, if_pos rfl] at hm'
      cases hm'
  · refine setMember_bind (fail_bind fun f hf => ?_)
    refine Fine.quiet ((h.failure hf).dropParticipant (fun k hk => ?_) fun m' hm' => ⟨?_, ?_⟩) hf rfl rfl
    · rw [Table.getElem?_insert, if_neg (Ne.symm hk)]
    · exact h.memberId p.id m hm
    · exact fun k hk => hact ((h.closed k hk).2 p.id m hm)

/-! ## Copies and operands -/

theorem tryCopy_fine (origin : EntryOrigin) : Calls s (call (.tryCopy origin)) := by
  refine locked_bind h.intact (checked h fun hf => get_bind ?_)
  split_ifs with hopen
  · exact Fine.same h rfl
  · refine get_bind (nextOr_bind h fun _ => modify_bind (get_bind ?_))
    have hinv : Inv { s with
        state := { s.state with copies := s.copies.length + 1 }
        copies := ⟨origin, s.state.generation⟩ :: s.copies } := by
      refine h.copies (forall_mem_cons.2 ⟨rfl, h.copy⟩) fun k hk => ?_
      cases (not_not.1 hopen).symm.trans hk
    rw [← h.copyCount] at hinv
    exact Fine.admitted hinv (Kept.refl _) rfl (by decide) hf

theorem copyAt_bind {index : ℕ} {f : CopyAccess → Api Reply}
    (hf : ∀ copy, s.copies[index]? = some copy → s.state.copies ≠ 0 →
      copy.generation = s.state.generation →
      Ensures (f copy) s (fun r s' => Fine s (some r) s') (Halted s)) :
    Calls s (copyAt index >>= f) := by
  refine Ensures.bind (Q := fun copy s' => s' = s ∧ s.copies[index]? = some copy) ?_ ?_
  · refine get_bind ?_
    rcases hc : s.copies[index]? with - | copy
    · exact Halted.absent h
    · exact Ensures.pure ⟨rfl, rfl⟩
  · rintro copy _ ⟨rfl, hcopy⟩
    have hmem := mem_of_getElem? hcopy
    refine hf copy hcopy ?_ (h.copy copy hmem)
    rw [h.copyCount]
    exact (length_pos_of_mem hmem).ne'

variable (index : ℕ)

theorem retireCopy_fine (panicking : Bool) : Calls s (call (.retireCopy index panicking)) := by
  refine copyAt_bind h fun copy hcopy hcount hgen => locked_bind h.intact ?_
  have hfine : ∀ {f}, Kept s.state.failure f → Fine s (some .done) { s with
      state := { s.state with copies := s.state.copies - 1, failure := f }
      copies := s.copies.eraseIdx index } := by
    intro f hf
    have hlen : (s.copies.eraseIdx index).length = s.state.copies - 1 := by
      obtain ⟨hlt, -⟩ := List.getElem?_eq_some_iff.1 hcopy
      rw [List.length_eraseIdx_of_lt hlt, h.copyCount]
    rw [← hlen]
    refine Fine.quiet ((h.failure hf).copies (fun c hc => h.copy c (List.mem_of_mem_eraseIdx hc))
      fun k hk => ?_) hf rfl rfl
    have hquiet : s.copies = [] := (h.quiet (h.closed k hk)).1
    rw [hquiet, List.eraseIdx_nil]
  cases panicking with
  | false => exact get_bind (assert_bind hcount (hfine (Kept.refl _)))
  | true => exact fail_bind fun _ hf => get_bind (assert_bind hcount (hfine hf))

theorem retainOperand_fine (range : Range) (origin : EntryOrigin) :
    Calls s (call (.retainOperand index range origin)) := by
  refine copyAt_bind h fun copy hcopy hcount hgen => locked_bind h.intact ?_
  refine refuse_bind (fun _ => Halted.same h (by simp)) fun _ => checked h fun hf => ?_
  refine get_bind (assert_bind hcount (get_bind (assert_bind hgen.symm ?_)))
  refine get_bind (nextOr_bind h fun _ => modify_bind (Ensures.pure ?_))
  have hcopies : s.copies ≠ [] := ne_nil_of_mem (mem_of_getElem? hcopy)
  exact Fine.admitted (h.retain (o := ⟨origin, copy.generation, _, range⟩) hcopies rfl hgen)
    (Kept.refl _) rfl (by decide) hf

theorem dropOperand_fine (panicking : Bool) : Calls s (call (.dropOperand id panicking)) := by
  refine get_bind (orElse_bind (fun _ => Halted.absent h) fun o ho => ?_)
  obtain ⟨rfl, hrange, hgen⟩ := h.operand id o ho
  have hrest : ∀ {f}, Kept s.state.failure f → Ensures (do
      assert (o.generation ≤ (← get).generation) "state.generation.0 >= self.generation.0"
      let range ← Outcome.orElse (← get).retainedOperands[o.id]?
        (.panicked "retained host operand retired twice")
      modify fun s => { s with retainedOperands := s.retainedOperands.erase o.id }
      assert (range = o.range) "range == self.range") { s.state with failure := f }
      (fun _ st' => Fine s (some .done)
        { s with operands := s.operands.erase o.id, state := st' })
      fun e st' => Halted s e { s with operands := s.operands.erase o.id, state := st' } := by
    intro f hf
    refine get_bind (assert_bind hgen (get_bind ?_))
    refine orElse_bind (fun hnone => ?_) fun range hsome => modify_bind ?_
    · cases hrange.symm.trans hnone
    · refine Ensures.refuse (fun hne => ?_) fun _ => ?_
      · cases hrange.symm.trans hsome
        exact absurd rfl hne
      · exact Fine.quiet ((h.failure hf).release o.id) hf rfl rfl
  refine locked_bind h.intact ?_
  cases panicking with
  | false => exact hrest (Kept.refl _)
  | true => exact fail_bind fun _ hf => hrest hf

/-! ## Closers -/

theorem tryCloseQuiescent_fine (members : ℕ) : Calls s (call (.tryCloseQuiescent members)) := by
  refine locked_bind h.intact (checked h fun hf => get_bind ?_)
  dsimp only
  split_ifs with hbusy
  · exact Fine.same h rfl
  · simp only [not_or, Bool.not_eq_false] at hbusy
    rcases checkedNext s.state.nextClose with - | id
    · exact Fine.same h rfl
    · have hnil := h.closers_nil (not_not.1 hbusy.1)
      refine set_bind (Fine.admitted (h.admission ?_ (fun c hc => ?_)
        fun _ _ => State.stopped_iff.1 hbusy.2.2.1) (Kept.refl _) rfl (by decide) hf)
      · rw [hnil]
        exact Nat.le_refl _
      · rw [hnil, mem_singleton] at hc
        subst hc
        rfl

theorem tryClose_fine (sends : List Send) : Calls s (call (.tryClose sends)) := by
  refine locked_bind h.intact (checked h fun hf => get_bind ?_)
  split_ifs with hopen
  · exact Fine.same h rfl
  · refine get_bind (nextOr_bind h fun _ => get_bind ?_)
    have hnil := h.closers_nil (not_not.1 hopen)
    have hsame := kick_same s.state.members.toList sends s.state.members fun x hx => by
      rw [Std.TreeMap.mem_toList_iff_getElem?_eq_some.1 hx]
      rfl
    rcases hk : kick s.state.members.toList sends s.state.members with ⟨members, result⟩
    rw [hk] at hsame
    have hinv : ∀ {f}, Kept s.state.failure f → ∀ {admission closers}, closers.length ≤ 1 →
        (∀ c ∈ closers, ∃ id, admission = .closing id ∧ c = .closing id) →
        (∀ k, admission ≠ .closed k) → Inv { s with
          state := { s.state with admission := admission, nextClose := s.state.nextClose + 1,
                                  members := members, failure := f }
          closers := closers } :=
      fun hf _ _ hone hcloser hclosed => ((h.failure hf).sameActivity hsame).admission hone
        (fun c hc => (hcloser c hc).elim fun id hid => hid.2 ▸ hid.1) fun k hk => absurd hk (hclosed k)
    cases result with
    | sent =>
      refine Fine.admitted (hinv (Kept.refl _) ?_ (fun c hc => ?_) (by simp)) (Kept.refl _) rfl
        (by decide) hf
      · rw [hnil]
        exact Nat.le_refl _
      · rw [hnil] at hc
        exact ⟨_, rfl, mem_singleton.1 hc⟩
    | failed error =>
      exact Fine.quiet (hinv (Kept.refl _) h.oneCloser (by simp [hnil]) (by simp)) (Kept.refl _) rfl rfl
    | unwound =>
      refine set_bind (fail_bind fun failure hfail => Ensures.throw ?_)
      exact .of_inv (by simp) (hinv hfail h.oneCloser (by simp [hnil]) (by simp)) hfail rfl

theorem closerAt_bind {index : ℕ} {f : Closer → Api Reply}
    (hf : ∀ c, (∀ c', s.closers.set index c' = [c']) → s.closers.eraseIdx index = [] →
      c.Matches s.state →
      Ensures (f c) s (fun r s' => Fine s (some r) s') (Halted s)) :
    Calls s (closerAt index >>= f) := by
  refine Ensures.bind (Q := fun c s' => s' = s ∧ s.closers[index]? = some c) ?_ ?_
  · refine get_bind ?_
    rcases hc : s.closers[index]? with - | c
    · exact Halted.absent h
    · exact Ensures.pure ⟨rfl, rfl⟩
  · rintro c _ ⟨rfl, hc⟩
    obtain ⟨rfl, hclosers⟩ := h.closers_eq hc
    refine hf c (fun c' => ?_) ?_ (h.closer c (mem_of_getElem? hc))
    · rw [hclosers]
      rfl
    · rw [hclosers]
      rfl

theorem closer_inv {f : Option PendingFailure} (hf : Kept s.state.failure f)
    {admission : Admission} {closers closers' : List Closer} (heq : closers = closers')
    (hone : closers'.length ≤ 1)
    (hcloser : ∀ c ∈ closers', c.Matches { s.state with admission := admission, failure := f })
    (hclosed : ∀ k, admission = .closed k → s.state.Stopped) :
    Inv { s with state := { s.state with admission := admission, failure := f }
                 closers := closers } :=
  (h.failure hf).admission (heq ▸ hone) (heq ▸ hcloser) hclosed

theorem finishClosing_fine (expired : Bool) : Calls s (call (.finishClosing index expired)) := by
  refine closerAt_bind h fun c hset herase hmatch => ?_
  cases c with
  | closed id published => exact Halted.absent h
  | publishing id next replaced origin => exact Halted.absent h
  | closing id =>
    refine locked_bind h.intact (checked h fun hf => get_bind (assert_bind hmatch ?_))
    refine get_bind ?_
    split_ifs with hstopped
    · exact Fine.admitted (closer_inv h (Kept.refl _) (hset _) (Nat.le_refl _)
        (forall_mem_singleton.2 rfl) fun _ _ => State.stopped_iff.1 hstopped) (Kept.refl _) rfl
        (by decide) hf
    · exact Fine.quiet (closer_inv h (Kept.refl _) herase (Nat.zero_le _) (by simp) (by simp))
        (Kept.refl _) rfl rfl
    · exact Fine.same h rfl

theorem dropClosing_fine : Calls s (call (.dropClosing index)) := by
  refine closerAt_bind h fun c hset herase hmatch => ?_
  cases c with
  | closed id published => exact Halted.absent h
  | publishing id next replaced origin => exact Halted.absent h
  | closing id =>
    refine eraseCloser_bind (locked_bind h.intact (fail_bind (f := pure) fun failure hf => ?_))
    exact Fine.quiet (closer_inv h hf herase (Nat.zero_le _) (by simp) h.closed) hf rfl rfl

theorem waitForOperands_fine (range : Range) : Calls s (call (.waitForOperands index range)) := by
  refine closerAt_bind h fun c _ _ hmatch => ?_
  cases c with
  | closing id => exact Halted.absent h
  | publishing id next replaced origin => exact Halted.absent h
  | closed id published =>
    refine locked_bind h.intact (checked h fun _ => get_bind (assert_bind hmatch ?_))
    exact get_bind (Fine.same h rfl)

theorem publish_fine (origin : EntryOrigin) (expected : ℕ) (replaced : Range) :
    Calls s (call (.publish index origin expected replaced)) := by
  refine closerAt_bind h fun c hset herase hmatch => ?_
  cases c with
  | closing id => exact Halted.absent h
  | publishing id next replaced origin => exact Halted.absent h
  | closed id published =>
    refine locked_bind h.intact (checked h fun hf => get_bind (assert_bind hmatch ?_))
    refine get_bind ?_
    split_ifs with hgen hpub
    · exact failWith_halts h
    · exact failWith_halts h
    · refine get_bind ?_
      split_ifs with hover
      · exact failWith_halts h
      · refine get_bind (nextOr_halts h fun hnext => ?_)
        have hout := Option.not_isSome_iff_eq_none.1 hover
        refine Fine.admitted (closer_inv h (Kept.refl _) (hset _) (Nat.le_refl _)
          (forall_mem_singleton.2 ⟨hmatch, hnext, fun k operand hk => ?_⟩) h.closed)
          (Kept.refl _) rfl (by decide) hf
        exact s.state.overlappingOperand_none hout hk

theorem finishPublish_fine (operation : Operation) :
    Calls s (call (.finishPublish index operation)) := by
  refine closerAt_bind h fun c hset herase hmatch => ?_
  cases c with
  | closing id => exact Halted.absent h
  | closed id published => exact Halted.absent h
  | publishing id next replaced origin =>
    obtain ⟨hadm, hnext, -⟩ := hmatch
    have hhalted : ∀ {e f}, (∀ assertion, e ≠ .panicked assertion) → Kept s.state.failure f →
        Halted s e { s with state := { s.state with failure := f }
                            closers := s.closers.set index (.closed id false) } :=
      fun he hf => .of_inv he (closer_inv h hf (hset _) (Nat.le_refl _)
        (forall_mem_singleton.2 hadm) h.closed) hf rfl
    refine locked_bind (s := { s with closers := s.closers.set index (.closed id false) }) h.intact ?_
    cases operation with
    | failed error => exact fail_bind fun _ hf => Ensures.throw (hhalted (by simp) hf)
    | unwound => exact fail_bind fun _ hf => Ensures.throw (hhalted (by simp) hf)
    | installed generation =>
      rw [finishPublish]
      split_ifs with hne
      · exact fail_bind fun _ hf => Ensures.throw (hhalted (by simp) hf)
      · refine check_bind (fun _ => hhalted (by simp) (Kept.refl _)) fun hf => get_bind ?_
        refine assert_bind hadm (get_bind (assert_bind hnext ?_))
        have hsucc : next = s.state.generation + 1 := by
          rw [checkedNext] at hnext
          split_ifs at hnext
          exact (Option.some.inj hnext).symm
        have hinv : Inv { s with
            state := { s.state with generation := next }, closers := [.closed id true] } :=
          h.publish hadm (hsucc ▸ Nat.le_succ _)
        rw [← hset (.closed id true), ← set_set (.closed id false)] at hinv
        refine ⟨hinv, Kept.refl _, ?_, fun _ _ _ => hf⟩
        exact ⟨hsucc, h.quiet (h.closed id hadm)⟩

theorem dropClosed_fine (panicking : Bool) : Calls s (call (.dropClosed index panicking)) := by
  refine closerAt_bind h fun c hset herase hmatch => ?_
  cases c with
  | closing id => exact Halted.absent h
  | publishing id next replaced origin => exact Halted.absent h
  | closed id published =>
    have hfine : ∀ {f}, Kept s.state.failure f → Fine s (some .done) { s with
        state := { s.state with admission := .open, failure := f }
        closers := s.closers.eraseIdx index } :=
      fun hf => Fine.quiet (closer_inv h hf herase (Nat.zero_le _) (by simp) (by simp)) hf rfl rfl
    refine eraseCloser_bind (locked_bind h.intact (get_bind (assert_bind hmatch ?_)))
    cases panicking with
    | false => exact hfine (Kept.refl _)
    | true => exact fail_bind fun _ hf => hfine hf

theorem poison_fine (origin : EntryOrigin) (error : Error) :
    Calls s (call (.poison origin error)) :=
  locked_bind h.intact (fail_bind (f := pure) fun _ hf => Fine.quiet (h.failure hf) hf rfl rfl)

theorem call_stops (a : Act) :
    Ensures (call a) s (fun r s' => Fine s (some r) s') (Stops (a.Orderly s) s) := by
  have hfine : ∀ {x : Api Reply}, Calls s x →
      Ensures x s (fun r s' => Fine s (some r) s') (Stops (a.Orderly s) s) :=
    fun hx => hx.mono (fun _ _ h => h) fun _ _ h => h.stops
  cases a with
  | register => exact hfine (register_fine h)
  | updateOrigin id origin => exact hfine (updateOrigin_fine h id origin)
  | retireFromGuest id => exact hfine (retireFromGuest_fine h id)
  | tryEnter id => exact hfine (tryEnter_fine h id)
  | activate id host => exact activate_stops h id host
  | withdraw id => exact withdraw_stops h id
  | acknowledge id cleanup => exact acknowledge_stops h id cleanup
  | dropEntry id => exact dropEntry_stops h id _
  | dropParticipant id => exact hfine (dropParticipant_fine h id)
  | tryCopy origin => exact hfine (tryCopy_fine h origin)
  | retireCopy index panicking => exact hfine (retireCopy_fine h index panicking)
  | retainOperand index range origin => exact hfine (retainOperand_fine h index range origin)
  | dropOperand id panicking => exact hfine (dropOperand_fine h id panicking)
  | tryCloseQuiescent members => exact hfine (tryCloseQuiescent_fine h members)
  | tryClose sends => exact hfine (tryClose_fine h sends)
  | finishClosing index expired => exact hfine (finishClosing_fine h index expired)
  | dropClosing index => exact hfine (dropClosing_fine h index)
  | waitForOperands index range => exact hfine (waitForOperands_fine h index range)
  | publish index origin expected replaced =>
    exact hfine (publish_fine h index origin expected replaced)
  | finishPublish index operation => exact hfine (finishPublish_fine h index operation)
  | dropClosed index panicking => exact hfine (dropClosed_fine h index panicking)
  | poison origin error => exact hfine (poison_fine h origin error)

end

/-! ## A poisoned mutex -/

section
variable {s : System} (hs : s.poisoned = true) (hidle : s.Idle)
include hs hidle

theorem Broken.same : Broken s s := ⟨hs, rfl, hidle⟩

omit hs in
theorem Broken.eraseCloser (hs : s.poisoned = true) (index : ℕ) :
    Broken s { s with closers := s.closers.eraseIdx index } :=
  ⟨hs, rfl, fun id next replaced origin hc => hidle id next replaced origin (mem_of_mem_eraseIdx hc)⟩

/-- A caller looks for its handle, and then no section runs. -/
theorem reads_bind {α : Type} {x : Api α} {f : α → Api Reply}
    (hx : Ensures x s (fun _ s' => s' = s) fun _ s' => s' = s)
    (hf : ∀ a, Ensures (f a) s (fun r s' => r = .done ∧ Broken s s') fun _ s' => Broken s s') :
    Ensures (x >>= f) s (fun r s' => r = .done ∧ Broken s s') fun _ s' => Broken s s' := by
  refine Ensures.bind (Q := fun _ s' => s' = s) (hx.mono (fun _ _ h => h) fun _ s' hs' => ?_)
    fun a s' hs' => ?_
  · rw [hs']
    exact Broken.same hs hidle
  · rw [hs']
    exact hf a

omit hs hidle in
theorem freeParticipant_reads (id : ℕ) :
    Ensures (freeParticipant id) s (fun _ s' => s' = s) fun _ s' => s' = s :=
  get_bind (orElse_bind (fun _ => rfl) fun _ _ => refuse_bind (fun _ => rfl) fun _ => rfl)

omit hs hidle in
theorem borrowing_reads (id : ℕ) :
    Ensures (borrowing id) s (fun _ s' => s' = s) fun _ s' => s' = s :=
  get_bind (orElse_bind (fun _ => rfl) fun _ _ => orElse_bind (fun _ => rfl) fun _ _ => rfl)

omit hs hidle in
theorem orElse_reads {α : Type} (found : System → Option α) :
    Ensures (do Outcome.orElse (found (← get)) .absent : Api α) s (fun _ s' => s' = s)
      fun _ s' => s' = s := by
  refine get_bind ?_
  rcases found s with - | a <;> rfl

/-- Where the mutex is poisoned every section panics as it locks, and only an origin, which
    is the caller's own, can still be changed. -/
theorem call_dead (a : Act) : Ensures (call a) s (fun r s' => r = .done ∧ Broken s s')
    fun _ s' => Broken s s' := by
  have hsame := Broken.same hs hidle
  have hdead : ∀ {α : Type} {x : Section α} {f : α → Api Reply}, Ensures (locked x >>= f) s
      (fun r s' => r = .done ∧ Broken s s') fun _ s' => Broken s s' :=
    locked_dead hs fun _ => hsame
  have hfree := fun {f} id => reads_bind (f := f) hs hidle (freeParticipant_reads id)
  have hborrowed := fun {f} id => reads_bind (f := f) hs hidle (borrowing_reads id)
  have hcopy := fun {f} (index : ℕ) =>
    reads_bind (f := f) hs hidle (orElse_reads fun s => s.copies[index]?)
  have hcloser := fun {f} (index : ℕ) =>
    reads_bind (f := f) hs hidle (orElse_reads fun s => s.closers[index]?)
  cases a with
  | register | tryCopy | tryCloseQuiescent | tryClose | poison => exact hdead
  | updateOrigin id origin =>
    exact hfree id fun p => refuse_bind (fun _ => hsame) fun _ => ⟨rfl, hs, rfl, hidle⟩
  | retireFromGuest id => exact hfree id fun _ => hdead
  | tryEnter id => exact hfree id fun _ => hdead
  | dropParticipant id => exact hfree id fun _ => locked_dead hs fun _ => ⟨hs, rfl, hidle⟩
  | activate id host => exact hborrowed id fun _ => hdead
  | withdraw id => exact hborrowed id fun _ => hdead
  | acknowledge id cleanup => exact hborrowed id fun _ => locked_dead hs fun _ => ⟨hs, rfl, hidle⟩
  | dropEntry id => exact hborrowed id fun _ => locked_dead hs fun _ => ⟨hs, rfl, hidle⟩
  | retireCopy index panicking => exact hcopy index fun _ => locked_dead hs fun _ => ⟨hs, rfl, hidle⟩
  | retainOperand index range origin => exact hcopy index fun _ => hdead
  | dropOperand id panicking =>
    exact get_bind (orElse_bind (fun _ => hsame) fun _ _ => locked_dead hs fun _ => ⟨hs, rfl, hidle⟩)
  | finishClosing index expired =>
    refine hcloser index fun c => ?_
    cases c with
    | closing id => exact hdead
    | closed | publishing => exact hsame
  | dropClosing index =>
    refine hcloser index fun c => ?_
    cases c with
    | closing id => exact locked_dead hs fun _ => Broken.eraseCloser hidle hs index
    | closed | publishing => exact hsame
  | waitForOperands index range =>
    refine hcloser index fun c => ?_
    cases c with
    | closed id published => exact hdead
    | closing | publishing => exact hsame
  | publish index origin expected replaced =>
    refine hcloser index fun c => ?_
    cases c with
    | closed id published => exact hdead
    | closing | publishing => exact hsame
  | finishPublish index operation =>
    refine hcloser index fun c => ?_
    cases c with
    | publishing id next replaced origin =>
      refine locked_dead hs fun _ => ⟨hs, rfl, fun id' next' replaced' origin' hc => ?_⟩
      rcases mem_or_eq_of_mem_set hc with hc | hc
      · exact hidle _ _ _ _ hc
      · cases hc
    | closing | closed => exact hsame
  | dropClosed index panicking =>
    refine hcloser index fun c => ?_
    cases c with
    | closed id published => exact locked_dead hs fun _ => Broken.eraseCloser hidle hs index
    | closing | publishing => exact hsame

end

/-! ## Runs -/

/-- The invariant, as long as no assertion has fired. -/
def Sound (s : System) : Prop :=
  if s.poisoned then s.Idle else Inv s

theorem Inv.sound {s : System} (h : Inv s) : Sound s := by
  rw [Sound, h.intact, if_neg Bool.false_ne_true]
  exact h

theorem Broken.sound {s s' : System} (h : Broken s s') : Sound s' := by
  rw [Sound, h.poisoned, if_pos rfl]
  exact h.idle

/-- What a section leaves, from a system that is sound. -/
structure Leaves (s : System) (r : Option Reply) (s' : System) : Prop where
  sound : Sound s'
  kept : Kept s.state.failure s'.state.failure
  generation : if r = some .published then
      s'.state.generation = s.state.generation + 1 ∧ s.Quiet
    else s'.state.generation = s.state.generation
  admits : ∀ reply, r = some reply → reply.admits = true → s.state.failure = none

theorem Fine.leaves {s s' : System} {r : Option Reply} (h : Fine s r s') : Leaves s r s' :=
  ⟨h.inv.sound, h.kept, h.generation, h.admits⟩

theorem Broken.leaves {s s' : System} {r : Option Reply} (h : Broken s s')
    (hr : ∀ reply, r = some reply → reply = .done) : Leaves s r s' where
  sound := h.sound
  kept := by
    rw [h.state]
    exact Kept.refl _
  generation := by
    have hne : r ≠ some .published := fun hp => Reply.noConfusion (hr _ hp)
    rw [if_neg hne, h.state]
  admits reply hreply hadmits := by
    rw [hr reply hreply] at hadmits
    cases hadmits

theorem call_leaves {s : System} (h : Sound s) (a : Act) :
    Ensures (call a) s (fun r s' => Leaves s (some r) s') fun _ s' => Leaves s none s' := by
  rcases hs : s.poisoned with - | -
  · rw [Sound, hs, if_neg Bool.false_ne_true] at h
    refine (call_stops h a).mono (fun _ _ h => h.leaves) fun e s' he => ?_
    rw [Stops] at he
    split_ifs at he
    · exact he.2.leaves (by simp)
    · exact he.leaves
  · rw [Sound, hs, if_pos rfl] at h
    refine (call_dead hs h a).mono (fun r s' hr => hr.2.leaves fun _ heq => ?_)
      fun e s' he => he.leaves (by simp)
    exact (Option.some.inj heq).symm.trans hr.1

theorem step_leaves {s : System} (h : Sound s) (a : Act) : Sound (s.step a) := by
  rw [System.step]
  rcases hx : call a s with ⟨reply, s'⟩ | ⟨e, s'⟩
  · exact ((call_leaves h a).of_ok hx).sound
  · exact ((call_leaves h a).of_error hx).sound

theorem run_sound {s : System} (h : Sound s) (acts : List Act) : Sound (s.run acts) := by
  induction acts generalizing s with
  | nil => exact h
  | cons a rest ih => exact ih (step_leaves h a)

/-- In order, no assertion fires. -/
theorem step_inv {s : System} (h : Inv s) {a : Act} (ho : a.Orderly s) :
    Inv (s.step a) ∧ ∀ e s', call a s = .error e s' → e.panics = false := by
  have hstops : ∀ e s', call a s = .error e s' → e.panics = false ∧ Inv s' := by
    intro e s' hx
    have he := (call_stops h a).of_error hx
    rw [Stops] at he
    split_ifs at he with hp
    · exact absurd ho he.1
    · exact ⟨Bool.eq_false_of_not_eq_true hp, he.inv⟩
  refine ⟨?_, fun e s' hx => (hstops e s' hx).1⟩
  rw [System.step]
  rcases hx : call a s with ⟨reply, s'⟩ | ⟨e, s'⟩
  · exact ((call_stops h a).of_ok hx).inv
  · exact (hstops e s' hx).2

theorem run_inv {s : System} (h : Inv s) {acts : List Act} {a : Act}
    (ho : s.Orderly (acts ++ [a])) : Inv (s.run acts) ∧ a.Orderly (s.run acts) := by
  induction acts generalizing s with
  | nil => exact ⟨h, ho.1⟩
  | cons b rest ih => exact ih (step_inv h ho.1).1 ho.2

/-- **Publication excludes guest entry and copies.**  After sections in any order, on behalf
    of any number of participants, copies, operands and closers:

    * while the operation of a publication runs every member is stopped, no entry or copy is
      live, and no retained operand has a byte of the range that is replaced;
    * the next section keeps the generation, unless it is a successful publication, which
      advances it by one with no entry or copy live;
    * a recorded failure stays, and after it nothing is admitted;
    * in runs in which each entry is activated at most once, before it is withdrawn, withdrawn
      once and then acknowledged, no assertion fires. -/
theorem publication_excludes_entry (acts : List Act) :
    (∀ id next replaced origin,
      .publishing id next replaced origin ∈ (System.new.run acts).closers →
        (∀ (k : ℕ) (m : Member), (System.new.run acts).state.members[k]? = some m →
          m.activity = .stopped) ∧
        (System.new.run acts).Quiet ∧
        ∀ (k : ℕ) (o : RetainedOperand), (System.new.run acts).operands[k]? = some o →
          ¬ ∃ byte, (o.range.start ≤ byte ∧ byte < o.range.stop) ∧
            replaced.start ≤ byte ∧ byte < replaced.stop) ∧
    ∀ a, match call a (System.new.run acts) with
      | .ok reply s' =>
        (if reply = .published then
          s'.state.generation = (System.new.run acts).state.generation + 1 ∧
            (System.new.run acts).Quiet
        else s'.state.generation = (System.new.run acts).state.generation) ∧
        Kept (System.new.run acts).state.failure s'.state.failure ∧
        ((System.new.run acts).state.failure ≠ none → reply.admits = false)
      | .error e s' =>
        s'.state.generation = (System.new.run acts).state.generation ∧
        Kept (System.new.run acts).state.failure s'.state.failure ∧
        (System.new.Orderly (acts ++ [a]) → ∀ assertion, e ≠ .panicked assertion) := by
  have hsound := run_sound inv_new.sound acts
  have horderly := fun a => @run_inv _ inv_new acts a
  generalize System.new.run acts = s at hsound horderly
  constructor
  · intro id next replaced origin hc
    rw [Sound] at hsound
    split_ifs at hsound with hpoisoned
    · exact absurd hc (hsound id next replaced origin)
    obtain ⟨hadm, -, hover⟩ := hsound.closer _ hc
    have hstopped := hsound.closed id hadm
    refine ⟨hstopped.2, hsound.quiet hstopped, fun k o ho hbyte => ?_⟩
    obtain ⟨-, hrange, -⟩ := hsound.operand k o ho
    rw [← rangesOverlap_iff, hover k o.range hrange] at hbyte
    exact Bool.false_ne_true hbyte
  · intro a
    rcases hx : call a s with ⟨reply, s'⟩ | ⟨e, s'⟩
    · have hleaves := (call_leaves hsound a).of_ok hx
      refine ⟨?_, hleaves.kept, fun hf => ?_⟩
      · simpa only [Option.some.injEq] using hleaves.generation
      · exact Bool.eq_false_of_not_eq_true fun hadmits => hf (hleaves.admits reply rfl hadmits)
    · have hleaves := (call_leaves hsound a).of_error hx
      refine ⟨hleaves.generation, hleaves.kept, fun ho assertion heq => ?_⟩
      obtain ⟨hinv, ha⟩ := horderly a ho
      rw [heq] at hx
      cases (step_inv hinv ha).2 _ _ hx

/-- An entry that is activated twice: the assertion on its activity fires. -/
theorem second_activation_panics :
    ∃ s', call (.activate 1 ⟨1, 1⟩)
      (System.new.run [.register, .tryEnter 1, .activate 1 ⟨1, 1⟩]) =
        .error (.panicked "member.activity == Activity::Setup") s' :=
  ⟨_, rfl⟩

end Reverie.EntryGate
