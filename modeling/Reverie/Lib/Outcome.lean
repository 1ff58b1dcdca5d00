/-
  Programs with state and failure, by the outcomes they can have.  `Ensures x s Q E`: from the
  state `s` the program `x` returns with `Q`, or stops with `E`.  A program that stops keeps
  what it wrote, so `E` speaks of the state too.
-/
import Mathlib

variable {ε σ α β : Type}

/-- From `s`, `x` returns with `Q` or stops with `E`. -/
def Ensures (x : EStateM ε σ α) (s : σ) (Q : α → σ → Prop) (E : ε → σ → Prop) : Prop :=
  match x s with
  | .ok a s' => Q a s'
  | .error e s' => E e s'

/-- Stop if the condition holds. -/
def Outcome.refuse (c : Prop) [Decidable c] (e : ε) : EStateM ε σ Unit :=
  if c then throw e else pure ()

/-- Stop if there is no value. -/
def Outcome.orElse (o : Option α) (e : ε) : EStateM ε σ α :=
  match o with
  | some a => pure a
  | none => throw e

theorem Outcome.bind_eq_ok {x : Except ε α} {f : α → Except ε β} {b : β} :
    x >>= f = .ok b ↔ ∃ a, x = .ok a ∧ f a = .ok b := by
  rcases x with e | a
  · constructor
    · rintro ⟨⟩
    · rintro ⟨_, ⟨⟩, _⟩
  · constructor
    · exact fun h => ⟨a, rfl, h⟩
    · rintro ⟨_, ⟨rfl⟩, h⟩
      exact h

namespace Ensures
open List

variable {x : EStateM ε σ α} {f : α → EStateM ε σ β} {s : σ} {Q : α → σ → Prop}
  {R : β → σ → Prop} {E : ε → σ → Prop}

theorem mono {Q' : α → σ → Prop} {E' : ε → σ → Prop} (h : Ensures x s Q E)
    (hQ : ∀ a s', Q a s' → Q' a s') (hE : ∀ e s', E e s' → E' e s') : Ensures x s Q' E' := by
  unfold Ensures at *
  rcases hx : x s with ⟨a, s'⟩ | ⟨e, s'⟩ <;> rw [hx] at h
  · exact hQ a s' h
  · exact hE e s' h

theorem bind (h : Ensures x s Q E) (hf : ∀ a s', Q a s' → Ensures (f a) s' R E) :
    Ensures (x >>= f) s R E := by
  have hb : (x >>= f) s = match x s with
    | .ok a s' => f a s'
    | .error e s' => .error e s' := rfl
  unfold Ensures at *
  rw [hb]
  rcases hx : x s with ⟨a, s'⟩ | ⟨e, s'⟩ <;> rw [hx] at h
  · exact hf a s' h
  · exact h

variable {a : α} {e : ε} {s' : σ} {c : Prop} {xs : List α} {p : α → EStateM ε σ Bool}

theorem pure (h : Q a s) : Ensures (Pure.pure a) s Q E := h

theorem throw (h : E e s) : Ensures (MonadExcept.throw e) s Q E := h

theorem map {g : α → β} (h : Ensures x s (fun a s' => R (g a) s') E) : Ensures (g <$> x) s R E := by
  have hb : (g <$> x) s = match x s with
    | .ok a s' => .ok (g a) s'
    | .error e s' => .error e s' := rfl
  unfold Ensures at *
  rw [hb]
  rcases hx : x s with ⟨a, s'⟩ | ⟨e, s'⟩ <;> rw [hx] at h
  · exact h
  · exact h

theorem get_bind {f : σ → EStateM ε σ β} (h : Ensures (f s) s R E) :
    Ensures (MonadState.get >>= f) s R E := h

theorem set_bind {f : PUnit → EStateM ε σ β} (h : Ensures (f ⟨⟩) s' R E) :
    Ensures (MonadStateOf.set s' >>= f) s R E := h

theorem modify_bind {g : σ → σ} {f : PUnit → EStateM ε σ β} (h : Ensures (f ⟨⟩) (g s) R E) :
    Ensures (modify g >>= f) s R E := h

theorem refuse [Decidable c] {Q : PUnit → σ → Prop} (hE : c → E e s)
    (h : ¬ c → Q ⟨⟩ s) : Ensures (Outcome.refuse c e) s Q E := by
  unfold Outcome.refuse
  by_cases hc : c
  · rw [if_pos hc]
    exact hE hc
  · rw [if_neg hc]
    exact h hc

theorem refuse_bind [Decidable c] {f : PUnit → EStateM ε σ β} (hE : c → E e s)
    (h : ¬ c → Ensures (f ⟨⟩) s R E) : Ensures (Outcome.refuse c e >>= f) s R E := by
  unfold Outcome.refuse
  by_cases hc : c
  · rw [if_pos hc]
    exact hE hc
  · rw [if_neg hc]
    exact h hc

theorem orElse_bind {o : Option α} (hE : o = none → E e s)
    (h : ∀ a, o = some a → Ensures (f a) s R E) : Ensures (Outcome.orElse o e >>= f) s R E := by
  cases o with
  | none => exact hE rfl
  | some a => exact h a rfl

theorem of_ok (h : Ensures x s Q E) (hx : x s = .ok a s') : Q a s' := by
  unfold Ensures at h
  rwa [hx] at h

theorem of_error (h : Ensures x s Q E) (hx : x s = .error e s') : E e s' := by
  unfold Ensures at h
  rwa [hx] at h

theorem forM {body : α → EStateM ε σ PUnit} (I : List α → σ → Prop)
    (step : ∀ done x rest s, xs = done ++ x :: rest → I done s →
      Ensures (body x) s (fun _ s' => I (done ++ [x]) s') E) (start : I [] s) :
    Ensures (xs.forM body) s (fun _ s' => I xs s') E := by
  have main : ∀ rest done s, xs = done ++ rest → I done s →
      Ensures (rest.forM body) s (fun _ s' => I xs s') E := by
    intro rest
    induction rest with
    | nil =>
      intro done s hxs hI
      rw [append_nil] at hxs
      exact Ensures.pure (hxs ▸ hI)
    | cons x rest ih =>
      intro done s hxs hI
      refine (step done x rest s hxs hI).bind fun _ s' hI' => ih (done ++ [x]) s' ?_ hI'
      rw [hxs, append_assoc, singleton_append]
  exact main xs [] s rfl start

theorem foldlM_range {body : α → ℕ → EStateM ε σ α} (I : ℕ → α → σ → Prop) {n : ℕ}
    (step : ∀ k a s, k < n → I k a s → Ensures (body a k) s (fun a' s' => I (k + 1) a' s') E)
    (start : I 0 a s) :
    Ensures ((List.range n).foldlM body a) s (fun a' s' => I n a' s') E := by
  induction n with
  | zero => exact Ensures.pure start
  | succ n ih =>
    rw [range_succ, foldlM_append]
    refine (ih fun k a s hk => step k a s (Nat.lt_succ_of_lt hk)).bind fun a' s' hI => ?_
    exact (step n a' s' (Nat.lt_succ_self n) hI).bind fun a'' s'' hI' => Ensures.pure hI'

theorem allM (q : α → Bool) (h : ∀ x ∈ xs, Ensures (p x) s (fun b s' => s' = s ∧ b = q x) E) :
    Ensures (xs.allM p) s (fun b s' => s' = s ∧ b = xs.all q) E := by
  induction xs with
  | nil => exact Ensures.pure ⟨rfl, rfl⟩
  | cons x xs ih =>
    refine (h x mem_cons_self).bind fun b s' ⟨hs, hb⟩ => ?_
    subst hs hb
    rcases hq : q x with _ | _
    · exact Ensures.pure ⟨rfl, by rw [all_cons, hq, Bool.false_and]⟩
    · rw [all_cons, hq]
      exact ih fun y hy => h y (mem_cons_of_mem _ hy)

theorem anyM (q : α → Bool) (h : ∀ x ∈ xs, Ensures (p x) s (fun b s' => s' = s ∧ b = q x) E) :
    Ensures (xs.anyM p) s (fun b s' => s' = s ∧ b = xs.any q) E := by
  induction xs with
  | nil => exact Ensures.pure ⟨rfl, rfl⟩
  | cons x xs ih =>
    refine (h x mem_cons_self).bind fun b s' ⟨hs, hb⟩ => ?_
    subst hs hb
    rcases hq : q x with _ | _
    · rw [any_cons, hq]
      exact ih fun y hy => h y (mem_cons_of_mem _ hy)
    · exact Ensures.pure ⟨rfl, by rw [any_cons, hq, Bool.true_or]⟩

end Ensures
