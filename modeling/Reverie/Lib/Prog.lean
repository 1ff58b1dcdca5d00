/-
  Programs of concurrent threads.  A `Prog σ α` is a sequence of atomic actions on a shared
  state, with loops that may run for ever; a schedule says which thread acts next.

  A protocol has a ghost state, a ghost value for every thread and an invariant that its
  moves keep; a program follows it if each of its actions is a move.  `Protocol.run`: then
  the invariant holds after every schedule.
-/
import Mathlib

/-! ## Programs -/

/-- The program of one thread. -/
inductive Prog (σ : Type) : Type → Type 1 where
  | pure {α : Type} (a : α) : Prog σ α
  | atomic {α β : Type} (act : σ → β × σ) (next : β → Prog σ α) : Prog σ α
  /-- repeat the body from `c` until it returns a result -/
  | loop {α β γ : Type} (body : γ → Prog σ (γ ⊕ β)) (c : γ) (next : β → Prog σ α) : Prog σ α

namespace Prog

variable {σ α β γ : Type}

protected def bind : Prog σ α → (α → Prog σ β) → Prog σ β
  | pure a, f => f a
  | atomic act next, f => atomic act fun b => (next b).bind f
  | loop body c next, f => loop body c fun b => (next b).bind f

instance : Monad (Prog σ) where
  pure := Prog.pure
  bind := Prog.bind

/-- One atomic action. -/
def act (f : σ → β × σ) : Prog σ β := atomic f pure

def read (f : σ → β) : Prog σ β := act fun s => (f s, s)

def write (f : σ → σ) : Prog σ Unit := act fun s => ((), f s)

/-- Repeat the body until it returns a result. -/
def iterate (body : γ → Prog σ (γ ⊕ β)) (c : γ) : Prog σ β := loop body c pure

/-- How a loop goes on after one round. -/
def again (body : γ → Prog σ (γ ⊕ β)) (next : β → Prog σ α) : γ ⊕ β → Prog σ α
  | .inl c => loop body c next
  | .inr b => next b

/-- The next action of a thread.  Entering a round of a loop is a step of its
    own, which leaves the shared state alone. -/
def step : Prog σ α → σ → Prog σ α × σ
  | pure a, s => (pure a, s)
  | atomic f next, s => (next (f s).1, (f s).2)
  | loop body c next, s => ((body c).bind (again body next), s)

end Prog

/-! ## Pools -/

/-- A shared state with the programs of the threads. -/
structure Pool (σ ι : Type) where
  state : σ
  threads : ι → Prog σ Unit

namespace Pool

variable {σ ι : Type} [DecidableEq ι]

/-- One action of thread `i`. -/
def step (p : Pool σ ι) (i : ι) : Pool σ ι :=
  let next := (p.threads i).step p.state
  ⟨next.2, Function.update p.threads i next.1⟩

def run (p : Pool σ ι) : List ι → Pool σ ι
  | [] => p
  | i :: schedule => (p.step i).run schedule

theorem run_append (p : Pool σ ι) (a b : List ι) : p.run (a ++ b) = (p.run a).run b := by
  induction a generalizing p with
  | nil => rfl
  | cons i a ih => exact ih (p.step i)

end Pool

/-! ## Protocols -/

/-- A ghost state `γ`, a ghost value in `Λ` for every thread, the moves of a
    thread and an invariant that they keep. -/
structure Protocol (σ γ Λ ι : Type) [DecidableEq ι] where
  move : σ → γ → Λ → σ → γ → Λ → Prop
  inv : σ → γ → (ι → Λ) → Prop
  stay : ∀ s g l, move s g l s g l
  keep : ∀ {s g L i s' g' l}, inv s g L → move s g (L i) s' g' l → inv s' g' (Function.update L i l)

section
variable {σ γ Λ ι α β δ : Type} [DecidableEq ι] (P : Protocol σ γ Λ ι)

/-- Every action of the program is a move from the ghost value `l` on, and it
    returns in `Q`.  The moves may be chosen with knowledge of the whole state;
    a loop has an invariant of its own. -/
def Follows {α : Type} : Prog σ α → Λ → (α → Λ → Prop) → Prop
  | .pure a, l, Q => Q a l
  | .atomic f next, l, Q => ∀ s g L i, P.inv s g L → L i = l →
      ∃ g' l', P.move s g l (f s).2 g' l' ∧ Follows (next (f s).1) l' Q
  | .loop body c next, l, Q => ∃ J : _ → Λ → Prop, J c l ∧ ∀ c l, J c l →
      Follows (body c) l fun r l' => match r with
        | .inl c' => J c' l'
        | .inr b => Follows (next b) l' Q

variable {P} {l : Λ}
variable {p : Prog σ α} {Q : α → Λ → Prop} {f : α → Prog σ β} {next : β → Prog σ α}

theorem Follows.mono {Q' : α → Λ → Prop} (h : Follows P p l Q)
    (hQ : ∀ a l, Q a l → Q' a l) : Follows P p l Q' := by
  induction p generalizing l with
  | pure a => exact hQ a l h
  | atomic f next ih =>
    intro s g L i hi hl
    obtain ⟨g', l', hm, hf⟩ := h s g L i hi hl
    exact ⟨g', l', hm, ih _ hf hQ⟩
  | loop body c next ihb ihn =>
    obtain ⟨J, hc, hJ⟩ := h
    refine ⟨J, hc, fun c l hj => ihb c (hJ c l hj) fun r l' hr => ?_⟩
    cases r with
    | inl c' => exact hr
    | inr b => exact ihn b hr hQ

theorem Follows.bind {Q : β → Λ → Prop}
    (h : Follows P p l fun a l' => Follows P (f a) l' Q) : Follows P (p.bind f) l Q := by
  induction p generalizing l with
  | pure a => exact h
  | atomic act next ih =>
    intro s g L i hi hl
    obtain ⟨g', l', hm, hf⟩ := h s g L i hi hl
    exact ⟨g', l', hm, ih _ hf⟩
  | loop body c next ihb ihn =>
    obtain ⟨J, hc, hJ⟩ := h
    refine ⟨J, hc, fun c l hj => (hJ c l hj).mono fun r l' hr => ?_⟩
    cases r with
    | inl c' => exact hr
    | inr b => exact ihn b hr

theorem Follows.act {f : σ → β × σ} (h : ∀ s g L i, P.inv s g L → L i = l →
      ∃ g' l', P.move s g l (f s).2 g' l' ∧ Follows P (next (f s).1) l' Q) :
    Follows P (Prog.act f >>= next) l Q := h

theorem Follows.read {f : σ → β} (h : ∀ s g L i, P.inv s g L → L i = l → Follows P (next (f s)) l Q) :
    Follows P (Prog.read f >>= next) l Q :=
  fun s g L i hi hl => ⟨g, l, P.stay s g l, h s g L i hi hl⟩

theorem Follows.write {f : σ → σ} {next : Unit → Prog σ α}
    (h : ∀ s g L i, P.inv s g L → L i = l → ∃ g' l', P.move s g l (f s) g' l' ∧
      Follows P (next ()) l' Q) :
    Follows P (Prog.write f >>= next) l Q := h

theorem Follows.iterate {body : δ → Prog σ (δ ⊕ β)} {c : δ} (J : δ → Λ → Prop) (hc : J c l)
    (h : ∀ c l, J c l → Follows P (body c) l fun r l' => match r with
      | .inl c' => J c' l'
      | .inr b => Follows P (next b) l' Q) :
    Follows P (Prog.iterate body c >>= next) l Q := ⟨J, hc, h⟩

/-- Every action of the program is a move that leaves the ghost value of its
    thread alone. -/
def Still (P : Protocol σ γ Λ ι) (p : Prog σ α) : Prop := ∀ l, Follows P p l fun _ l' => l' = l

theorem Still.pure {a : α} : Still P (Pure.pure a) := fun _ => rfl

theorem Still.act {f : σ → β × σ}
    (h : ∀ s g L i, P.inv s g L → ∃ g', P.move s g (L i) (f s).2 g' (L i)) :
    Still P (Prog.act f) := by
  intro l s g L i hi hl
  obtain ⟨g', hm⟩ := h s g L i hi
  exact ⟨g', l, by rwa [hl] at hm, rfl⟩

theorem Still.read {f : σ → β} : Still P (Prog.read f) :=
  Still.act fun s g L i _ => ⟨g, P.stay s g (L i)⟩

theorem Still.follows (h : Still P p) (hQ : ∀ a, Q a l) : Follows P p l Q :=
  (h l).mono fun a l' hl => by
    subst hl
    exact hQ a

theorem Follows.still {Q : β → Λ → Prop} (h : Still P p)
    (hf : ∀ a, Follows P (f a) l Q) : Follows P (p >>= f) l Q :=
  Follows.bind (h.follows hf)

theorem Still.bind (h : Still P p) (hf : ∀ a, Still P (f a)) : Still P (p >>= f) :=
  fun l => Follows.still h fun a => hf a l

theorem Follows.step (h : Follows P p l Q) {s : σ} {g : γ}
    {L : ι → Λ} {i : ι} (hi : P.inv s g L) (hl : L i = l) :
    ∃ g' l', P.inv (p.step s).2 g' (Function.update L i l') ∧ Follows P (p.step s).1 l' Q := by
  cases p with
  | pure a => exact ⟨g, l, by rwa [← hl, Function.update_eq_self], h⟩
  | atomic f next =>
    obtain ⟨g', l', hm, hf⟩ := h s g L i hi hl
    exact ⟨g', l', P.keep hi (by rwa [hl]), hf⟩
  | loop body c next =>
    obtain ⟨J, hc, hJ⟩ := h
    refine ⟨g, l, by rwa [← hl, Function.update_eq_self], Follows.bind ((hJ c l hc).mono ?_)⟩
    intro r l' hr
    cases r with
    | inl c' => exact ⟨J, hr, hJ⟩
    | inr b => exact hr

/-- The programs of a pool follow the protocol, and its invariant holds. -/
def Protocol.Holds (P : Protocol σ γ Λ ι) (p : Pool σ ι) : Prop :=
  ∃ g L, P.inv p.state g L ∧ ∀ i, Follows P (p.threads i) (L i) fun _ _ => True

theorem Protocol.Holds.step {p : Pool σ ι} (h : P.Holds p) (i : ι) : P.Holds (p.step i) := by
  obtain ⟨g, L, hi, hf⟩ := h
  obtain ⟨g', l', hi', hf'⟩ := (hf i).step hi rfl
  refine ⟨g', Function.update L i l', hi', fun j => ?_⟩
  by_cases hj : j = i
  · subst hj
    simpa [Pool.step] using hf'
  · simpa [Pool.step, Function.update_of_ne hj] using hf j

/-- A relation that contains every move relates the states before and after a
    schedule. -/
theorem Protocol.run_rel {R : σ → σ → Prop} (refl : ∀ s, R s s)
    (trans : ∀ {a b c}, R a b → R b c → R a c)
    (move : ∀ {s g L i s' g' l'}, P.inv s g L → P.move s g (L i) s' g' l' → R s s')
    {p : Pool σ ι} (h : P.Holds p) (schedule : List ι) : R p.state (p.run schedule).state := by
  induction schedule generalizing p with
  | nil => exact refl _
  | cons i schedule ih =>
    refine trans ?_ (ih (h.step i))
    obtain ⟨g, L, hi, hf⟩ := h
    have hfi := hf i
    change R p.state ((p.threads i).step p.state).2
    generalize p.threads i = prog at hfi
    cases prog with
    | pure a => exact refl _
    | atomic f next =>
      obtain ⟨g', l', hm, -⟩ := hfi p.state g L i hi rfl
      exact move hi hm
    | loop body c next => exact refl _

theorem Protocol.run {p : Pool σ ι} (h : P.Holds p) (schedule : List ι) :
    P.Holds (p.run schedule) := by
  induction schedule generalizing p with
  | nil => exact h
  | cons i schedule ih => exact ih (h.step i)

end

/-! ## Programs that can fail -/

/-- A program that returns a result or an error. -/
abbrev Fallible (σ ε : Type) : Type → Type 1 := ExceptT ε (Prog σ)

namespace Fallible

variable {σ ε α : Type}

def refuse (c : Prop) [Decidable c] (e : ε) : Fallible σ ε Unit := if c then throw e else pure ()

def orElse (o : Option α) (e : ε) : Fallible σ ε α :=
  match o with
  | some a => pure a
  | none => throw e

/-- A guard: clean up when the program fails. -/
def onError (x : Fallible σ ε α) (cleanup : Prog σ Unit) : Fallible σ ε α :=
  ExceptT.mk do
    match ← x.run with
    | .ok a => pure (.ok a)
    | .error e =>
      cleanup
      pure (.error e)

/-- Repeat the program until it returns a value. -/
def retry (x : Fallible σ ε (Option α)) : Fallible σ ε α :=
  ExceptT.mk (Prog.iterate (fun _ : Unit => do
    match ← x.run with
    | .error e => pure (.inr (.error e))
    | .ok none => pure (.inl ())
    | .ok (some a) => pure (.inr (.ok a))) ())

end Fallible

section
variable {σ γ Λ ι ε α β : Type} [DecidableEq ι] {P : Protocol σ γ Λ ι} {l : Λ}

/-- The program follows the protocol; it returns in `Q` or fails in `E`. -/
def Tries (P : Protocol σ γ Λ ι) (x : Fallible σ ε α) (l : Λ) (Q : α → Λ → Prop)
    (E : ε → Λ → Prop) : Prop :=
  Follows P x.run l fun r l' => match r with
    | .ok a => Q a l'
    | .error e => E e l'

namespace Tries

variable {Q : α → Λ → Prop} {R : β → Λ → Prop} {E : ε → Λ → Prop}
variable {x : Fallible σ ε α} {e : ε} {f next : α → Fallible σ ε β} {p : Prog σ α}

theorem mono {Q' : α → Λ → Prop} {E' : ε → Λ → Prop} (h : Tries P x l Q E)
    (hQ : ∀ a l, Q a l → Q' a l) (hE : ∀ e l, E e l → E' e l) : Tries P x l Q' E' :=
  Follows.mono h fun r l hr => by
    cases r with
    | ok a => exact hQ a l hr
    | error e => exact hE e l hr

theorem bind (h : Tries P x l (fun a l' => Tries P (f a) l' R E) E) : Tries P (x >>= f) l R E :=
  Follows.bind (Follows.mono h fun r l' hr => by
    cases r with
    | ok a => exact hr
    | error e => exact hr)

theorem lift (h : Follows P p l fun a l' => Tries P (f a) l' R E) :
    Tries P (ExceptT.lift p >>= f) l R E :=
  bind (Follows.bind (Follows.mono h fun _ _ h => h))

theorem act {f : σ → α × σ} (h : ∀ s g L i, P.inv s g L → L i = l →
      ∃ g' l', P.move s g l (f s).2 g' l' ∧ Tries P (next (f s).1) l' R E) :
    Tries P (ExceptT.lift (Prog.act f) >>= next) l R E := h

theorem read {f : σ → α} (h : ∀ s g L i, P.inv s g L → L i = l → Tries P (next (f s)) l R E) :
    Tries P (ExceptT.lift (Prog.read f) >>= next) l R E :=
  fun s g L i hi hl => ⟨g, l, P.stay s g l, h s g L i hi hl⟩

theorem refuse {c : Prop} [Decidable c] {next : Unit → Fallible σ ε β}
    (hE : c → E e l) (h : ¬ c → Tries P (next ()) l R E) :
    Tries P (Fallible.refuse c e >>= next) l R E := by
  unfold Fallible.refuse
  by_cases hc : c
  · rw [if_pos hc]
    exact hE hc
  · rw [if_neg hc]
    exact h hc

theorem orElse {o : Option α} (hE : o = none → E e l)
    (h : ∀ a, o = some a → Tries P (next a) l R E) :
    Tries P (Fallible.orElse o e >>= next) l R E := by
  cases o with
  | none => exact hE rfl
  | some a => exact h a rfl

theorem onError {cleanup : Prog σ Unit}
    (h : Tries P x l Q fun e l' => Follows P cleanup l' fun _ => E e) :
    Tries P (Fallible.onError x cleanup) l Q E := by
  refine Follows.bind (Follows.mono h fun r l' hr => ?_)
  cases r with
  | ok a => exact hr
  | error e => exact Follows.bind hr

theorem retry {x : Fallible σ ε (Option α)} (J : Λ → Prop) (hl : J l)
    (h : ∀ l, J l → Tries P x l (fun o l' => match o with
      | none => J l'
      | some a => Q a l') E) : Tries P (Fallible.retry x) l Q E := by
  refine ⟨fun _ l => J l, hl, fun _ l hj => Follows.bind (Follows.mono (h l hj) fun r l' hr => ?_)⟩
  rcases r with e | _ | a
  · exact hr
  · exact hr
  · exact hr

theorem of_still (hx : Still P x.run) : Tries P x l (fun _ l' => l' = l) (fun _ l' => l' = l) :=
  hx.follows fun r => by cases r <;> rfl

theorem still (hx : Still P x.run)
    (hE : ∀ e, E e l) (h : ∀ a, Tries P (f a) l R E) : Tries P (x >>= f) l R E :=
  bind (hx.follows fun r => by
    cases r with
    | ok a => exact h a
    | error e => exact hE e)

theorem pass (hp : Still P p)
    (h : ∀ a, Tries P (f a) l R E) : Tries P (ExceptT.lift p >>= f) l R E :=
  lift (hp.follows h)

end Tries

namespace Still

theorem lift {p : Prog σ α} (h : Still P p) : Still P (ExceptT.lift p : Fallible σ ε α).run :=
  Still.bind h fun _ => Still.pure

variable {e : ε}

theorem throw : Still P (MonadExcept.throw e : Fallible σ ε α).run := Still.pure

theorem refuse {c : Prop} [Decidable c] : Still P (Fallible.refuse c e).run := by
  unfold Fallible.refuse
  split
  · exact Still.pure
  · exact Still.pure

theorem tryBind {x : Fallible σ ε α} {f : α → Fallible σ ε β} (hx : Still P x.run)
    (hf : ∀ a, Still P (f a).run) : Still P (x >>= f).run :=
  Still.bind hx fun r => by
    cases r with
    | ok a => exact hf a
    | error e => exact Still.pure

end Still

end
