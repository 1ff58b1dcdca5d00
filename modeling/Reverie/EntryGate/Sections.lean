/-
  Rules for the critical sections of a registry.

  `Fine s r s'`: the invariant still holds, a recorded failure is kept, only a publication
  changes the generation, while no entry or copy is live, and nothing is admitted after a
  failure.  A section that stops (`Halted`) does so with no assertion, and one that is out of
  order (`Stops`) may stop with one, before it changes anything.
-/
import Reverie.EntryGate.Invariant

namespace Reverie.EntryGate

/-- What a section that returns leaves. -/
structure Fine (s : System) (r : Option Reply) (s' : System) : Prop where
  inv : Inv s'
  kept : Kept s.state.failure s'.state.failure
  generation : if r = some .published then
      s'.state.generation = s.state.generation + 1 ∧ s.Quiet
    else s'.state.generation = s.state.generation
  admits : ∀ reply, r = some reply → reply.admits = true → s.state.failure = none

/-- A section stopped by no assertion and left the system fine. -/
def Halted (s : System) (e : Stop) (s' : System) : Prop :=
  (∀ assertion, e ≠ .panicked assertion) ∧ Fine s none s'

/-- The outcomes of a section on behalf of a handle. -/
def Calls (s : System) (x : Api Reply) : Prop :=
  Ensures x s (fun r s' => Fine s (some r) s') (Halted s)

/-- No operation of a publication runs. -/
def System.Idle (s : System) : Prop :=
  ∀ id next replaced origin, Closer.publishing id next replaced origin ∉ s.closers

/-- The mutex is poisoned, and what it guards is as before. -/
structure Broken (s s' : System) : Prop where
  poisoned : s'.poisoned = true
  state : s'.state = s.state
  idle : s'.Idle

/-- A section stopped: with an assertion only if it was out of order. -/
def Stops (orderly : Prop) (s : System) (e : Stop) (s' : System) : Prop :=
  if e.panics then ¬ orderly ∧ Broken s s' else Fine s none s'

variable {α β : Type} {s s' : System}

theorem Fine.of_inv {r : Option Reply} (h : Inv s') (hkept : Kept s.state.failure s'.state.failure)
    (hgen : s'.state.generation = s.state.generation) (hr : r ≠ some .published)
    (hadmits : ∀ reply, r = some reply → reply.admits = true → s.state.failure = none) :
    Fine s r s' where
  inv := h
  kept := hkept
  generation := by rwa [if_neg hr]
  admits := hadmits

theorem Fine.admitted {r : Reply} (h : Inv s') (hkept : Kept s.state.failure s'.state.failure)
    (hgen : s'.state.generation = s.state.generation) (hr : r ≠ .published)
    (hf : s.state.failure = none) : Fine s (some r) s' :=
  Fine.of_inv h hkept hgen (fun h => hr (Option.some.inj h)) fun _ _ _ => hf

theorem Fine.quiet {r : Reply} (h : Inv s') (hkept : Kept s.state.failure s'.state.failure)
    (hgen : s'.state.generation = s.state.generation) (hr : r.admits = false) :
    Fine s (some r) s' := by
  refine Fine.of_inv h hkept hgen (fun heq => ?_) fun reply hreply hadmits => ?_
  · cases Option.some.inj heq
    cases hr
  · cases Option.some.inj hreply
    cases hadmits.symm.trans hr

theorem Fine.same (h : Inv s) {r : Reply} (hr : r.admits = false) : Fine s (some r) s :=
  Fine.quiet h (Kept.refl _) rfl hr

theorem Halted.of_inv {e : Stop} (he : ∀ assertion, e ≠ .panicked assertion) (h : Inv s')
    (hkept : Kept s.state.failure s'.state.failure)
    (hgen : s'.state.generation = s.state.generation) : Halted s e s' :=
  ⟨he, Fine.of_inv h hkept hgen (by simp) (by simp)⟩

theorem Halted.same (h : Inv s) {e : Stop} (he : ∀ assertion, e ≠ .panicked assertion) :
    Halted s e s := .of_inv he h (Kept.refl _) rfl

theorem Halted.absent (h : Inv s) : Halted s .absent s := .same h (by simp)

theorem panics_eq_false {e : Stop} (h : ∀ assertion, e ≠ .panicked assertion) :
    e.panics = false := by
  cases e with
  | panicked assertion => exact absurd rfl (h assertion)
  | failed | rejected | unwound | absent => rfl

theorem Halted.stops {e : Stop} {orderly : Prop} (h : Halted s e s') : Stops orderly s e s' := by
  rw [Stops, panics_eq_false h.1, if_neg Bool.false_ne_true]
  exact h.2

/-! ## Steps of a section -/

section
variable {st : State} {R : β → State → Prop} {E : Stop → State → Prop} {f : Unit → Section β}
  {origin : EntryOrigin} {error : Error} {n id : ℕ} {operation : String} {m : Member}
  {g : State → State}

theorem locked_run {x : Section α} {f : α → Api β} {R : β → System → Prop}
    {E : Stop → System → Prop} (hs : s.poisoned = false)
    (hx : Ensures x s.state (fun a st' => Ensures (f a) { s with state := st' } R E)
      fun e st' => E e { s with state := st', poisoned := e.panics || s.poisoned }) :
    Ensures (locked x >>= f) s R E := by
  have hb : (locked x >>= f) s = EStateM.bind (locked x) f s := rfl
  unfold Ensures at hx ⊢
  rw [hb, EStateM.bind, locked, if_neg (by rw [hs]; exact Bool.false_ne_true)]
  rcases hr : x s.state with ⟨a, st'⟩ | ⟨e, st'⟩ <;> rw [hr] at hx
  · exact hx
  · simp only [hs, Bool.or_false] at hx
    exact hx

/-- Under a poisoned mutex no section runs. -/
theorem locked_dead {x : Section α} {f : α → Api β} {R : β → System → Prop}
    {E : Stop → System → Prop} (hs : s.poisoned = true) (hE : ∀ e, E e s) :
    Ensures (locked x >>= f) s R E := by
  have hb : (locked x >>= f) s = EStateM.bind (locked x) f s := rfl
  rw [Ensures, hb, EStateM.bind, locked, if_pos hs]
  exact hE _

theorem locked_bind {s₀ : System} {x : Section α} {f : α → Api β} {R : β → System → Prop}
    (hs : s.poisoned = false)
    (hx : Ensures x s.state (fun a st' => Ensures (f a) { s with state := st' } R (Halted s₀))
      fun e st' => Halted s₀ e { s with state := st' }) :
    Ensures (locked x >>= f) s R (Halted s₀) := by
  refine locked_run hs (hx.mono (fun _ _ h => h) fun e st' h => ?_)
  rwa [panics_eq_false h.1]

theorem check_bind (hE : ∀ failure, E (.failed failure) st)
    (h : st.failure = none → Ensures (f ()) st R E) : Ensures (check >>= f) st R E := by
  refine Ensures.bind (Q := fun _ st' => st' = st ∧ st.failure = none) ?_ ?_
  · refine Ensures.get_bind ?_
    rcases hf : st.failure with - | failure
    · exact Ensures.pure ⟨rfl, rfl⟩
    · exact Ensures.throw (hE failure)
  · rintro a _ ⟨rfl, hf⟩
    exact h hf

theorem fail_bind {f : PendingFailure → Section β} (h : ∀ failure, Kept st.failure (some failure) →
      Ensures (f failure) { st with failure := some failure } R E) :
    Ensures (fail origin error >>= f) st R E := by
  refine h _ ?_
  rintro f hf
  exact ⟨[error], by rw [hf]⟩

theorem member_bind {f : Member → Section β}
    (hm : st.members[id]? = some m) (h : Ensures (f m) st R E) :
    Ensures (member id >>= f) st R E := by
  refine Ensures.bind (Q := fun m' st' => st' = st ∧ m' = m) ?_ ?_
  · refine Ensures.get_bind ?_
    rw [hm]
    exact Ensures.pure ⟨rfl, rfl⟩
  · rintro _ _ ⟨rfl, rfl⟩
    exact h

theorem assert_bind {c : Prop} [Decidable c] {assertion : String}
    (hc : c) (h : Ensures (f ()) st R E) : Ensures (assert c assertion >>= f) st R E :=
  Ensures.refuse_bind (fun hn => absurd hc hn) fun _ => h

theorem assert_or {c : Prop} [Decidable c] {assertion : String}
    (hE : ¬ c → E (.panicked assertion) st) (h : c → Ensures (f ()) st R E) :
    Ensures (assert c assertion >>= f) st R E :=
  Ensures.refuse_bind hE fun hc => h (not_not.1 hc)

theorem eraseCloser_bind {index : ℕ} {f : Unit → Api β} {R : β → System → Prop}
    {E : Stop → System → Prop}
    (hf : Ensures (f ()) { s with closers := s.closers.eraseIdx index } R E) :
    Ensures (eraseCloser index >>= f) s R E := hf

theorem modify_bind (h : Ensures (f ()) (g st) R E) : Ensures (modify g >>= f) st R E := h

theorem setMember_bind (h : Ensures (f ()) { st with members := st.members.insert id m } R E) :
    Ensures (setMember id m >>= f) st R E := h

end

/-! ## Steps that may stop the section -/

section
variable (h : Inv s) {R : β → State → Prop} {n : ℕ} {origin : EntryOrigin} {operation : String}
include h

theorem checked {f : Unit → Section β}
    (hf : s.state.failure = none →
      Ensures (f ()) s.state R fun e st' => Halted s e { s with state := st' }) :
    Ensures (check >>= f) s.state R fun e st' => Halted s e { s with state := st' } :=
  check_bind (fun _ => Halted.same h (by simp)) hf

theorem failWith_halts {error : Error} :
    Ensures (failWith origin error) s.state R fun e st' => Halted s e { s with state := st' } :=
  fail_bind fun _ hf => Ensures.throw (.of_inv (by simp) (h.failure hf) hf rfl)

theorem nextOr_halts {R : ℕ → State → Prop}
    (hR : checkedNext n = some (n + 1) → R (n + 1) s.state) :
    Ensures (nextOr n origin operation) s.state R
      fun e st' => Halted s e { s with state := st' } := by
  rw [nextOr]
  rcases hn : checkedNext n with - | next
  · exact failWith_halts h
  · have hnext : next = n + 1 := by
      rw [checkedNext] at hn
      split_ifs at hn
      exact (Option.some.inj hn).symm
    rw [hnext] at hn ⊢
    exact hR hn

theorem nextOr_bind {f : ℕ → Section β}
    (hf : checkedNext n = some (n + 1) →
      Ensures (f (n + 1)) s.state R fun e st' => Halted s e { s with state := st' }) :
    Ensures (nextOr n origin operation >>= f) s.state R
      fun e st' => Halted s e { s with state := st' } := by
  refine (nextOr_halts h (R := fun next st' => next = n + 1 ∧ st' = s.state ∧
    checkedNext n = some (n + 1)) fun hn => ⟨rfl, rfl, hn⟩).bind ?_
  rintro _ _ ⟨rfl, rfl, hn⟩
  exact hf hn

end

/-! ## Kicks -/

theorem kick_same (entries : List (ℕ × Member)) : ∀ (sends : List Send)
    (members : Std.TreeMap ℕ Member),
    (∀ x ∈ entries, members[x.1]?.map (fun m => (m.run, m.activity)) =
      some (x.2.run, x.2.activity)) →
    ∀ k : ℕ, (kick entries sends members).1[k]?.map (fun m => (m.run, m.activity)) =
      members[k]?.map fun m => (m.run, m.activity) := by
  have hkicks : ∀ {members : Std.TreeMap ℕ Member} {id : ℕ} {m : Member},
      members[id]?.map (fun m => (m.run, m.activity)) = some (m.run, m.activity) →
      ∀ kicks k : ℕ, (members.insert id { m with kicks := kicks })[k]?.map
        (fun m => (m.run, m.activity)) = members[k]?.map fun m => (m.run, m.activity) := by
    intro members id m hm kicks k
    rw [Table.getElem?_insert]
    split_ifs with hk
    · subst hk
      exact hm.symm
    · rfl
  induction entries with
  | nil => exact fun _ _ _ _ => rfl
  | cons x rest ih =>
    intro sends members hentries k
    obtain ⟨id, m⟩ := x
    have hm := hentries (id, m) List.mem_cons_self
    have hrest := fun y hy => hentries y (List.mem_cons_of_mem _ hy)
    rw [kick]
    split
    · split
      · refine (ih sends.tail _ (fun y hy => ?_) k).trans (hkicks hm _ k)
        exact (hkicks hm _ y.1).trans (hrest y hy)
      · exact hkicks hm _ k
      · exact hkicks hm _ k
    · exact ih sends members hrest k

end Reverie.EntryGate
