/-
  Programs that may panic.  A panic is an `Except` below the program's own way to fail, and
  `Returns` says that a program does not panic, whatever else it does.
-/
import Mathlib

/-- The program does not panic. -/
def Returns {ε α : Type*} (x : Except ε α) : Prop :=
  ∃ a, x = .ok a

namespace Returns

variable {ε e α β : Type}

theorem ok (a : α) : Returns (Except.ok a : Except ε α) :=
  ⟨a, rfl⟩

theorem not_error (p : ε) : ¬ Returns (Except.error p : Except ε α) := by
  rintro ⟨a, h⟩
  cases h

variable {x : Except ε α} {f : α → OptionT (Except ε) β} {a : α}

theorem map_iff {f : α → β} : Returns (f <$> x) ↔ Returns x := by
  rcases x with p | a
  · exact iff_of_false (not_error p) (not_error p)
  · exact iff_of_true (ok _) (ok a)

theorem map {f : α → β} (h : Returns x) : Returns (f <$> x) :=
  map_iff.2 h

theorem bind {f : α → Except ε β} (h : Returns x)
    (hf : ∀ a, x = .ok a → Returns (f a)) : Returns (x >>= f) := by
  obtain ⟨a, rfl⟩ := h
  exact hf a rfl

/-! ## Programs that may find nothing -/

theorem opt_pure (a : α) : Returns (Pure.pure a : OptionT (Except ε) α).run :=
  ⟨some a, rfl⟩

theorem opt_failure : Returns (failure : OptionT (Except ε) α).run :=
  ⟨none, rfl⟩

theorem opt_mk (o : Option α) : Returns (OptionT.mk (Pure.pure o) : OptionT (Except ε) α).run :=
  ⟨o, rfl⟩

theorem opt_bind {x : OptionT (Except ε) α} (h : Returns x.run)
    (hf : ∀ a, x.run = .ok (some a) → Returns (f a).run) : Returns (x >>= f).run := by
  obtain ⟨o, ho⟩ := h
  rw [OptionT.run_bind, ho]
  cases o with
  | none => exact ⟨none, rfl⟩
  | some a => exact hf a ho

theorem opt_bind_iff {x : OptionT (Except ε) α} (h : x.run = .ok (some a)) :
    Returns (x >>= f).run ↔ Returns (f a).run := by
  rw [OptionT.run_bind, h]
  rfl

theorem opt_bind_none {x : OptionT (Except ε) α}
    (h : x.run = .ok none) : Returns (x >>= f).run := by
  rw [OptionT.run_bind, h]
  exact ok none

theorem opt_of_bind {x : OptionT (Except ε) α} (h : Returns (x >>= f).run) : Returns x.run := by
  obtain ⟨o, ho⟩ := h
  rw [OptionT.run_bind] at ho
  rcases hx : x.run with p | a
  · rw [hx] at ho
    cases ho
  · exact ok a

theorem opt_map_iff {f : α → β} {x : OptionT (Except ε) α} :
    Returns (f <$> x).run ↔ Returns x.run := by
  rw [OptionT.run_map]
  exact map_iff

theorem opt_map {f : α → β} {x : OptionT (Except ε) α} (h : Returns x.run) :
    Returns (f <$> x).run :=
  opt_map_iff.2 h

theorem opt_lift_eq (h : x = .ok a) (f : α → OptionT (Except ε) β) : liftM x >>= f = f a := by
  subst h
  rfl

theorem opt_lift_bind (h : x = .ok a) (hf : Returns (f a).run) : Returns (liftM x >>= f).run := by
  rwa [opt_lift_eq h]

/-! ## Programs that may report an error -/

theorem exc_bind {x : ExceptT e (Except ε) α} {f : α → ExceptT e (Except ε) β} (h : Returns x.run)
    (hf : ∀ a, x.run = .ok (.ok a) → Returns (f a).run) : Returns (x >>= f).run := by
  obtain ⟨r, hr⟩ := h
  rw [ExceptT.run_bind, hr]
  rcases r with err | a
  · exact ok _
  · exact hf a hr

theorem exc_of_bind {x : ExceptT e (Except ε) α} {f : α → ExceptT e (Except ε) β}
    (h : Returns (x >>= f).run) : Returns x.run := by
  obtain ⟨r, hr⟩ := h
  rw [ExceptT.run_bind] at hr
  rcases hx : x.run with p | a
  · rw [hx] at hr
    cases hr
  · exact ok a

theorem exc_bind_iff {x : ExceptT e (Except ε) α} {f : α → ExceptT e (Except ε) β}
    (h : x.run = .ok (.ok a)) : Returns (x >>= f).run ↔ Returns (f a).run := by
  rw [ExceptT.run_bind, h]
  rfl

theorem exc_lift_eq (h : x = .ok a) (f : α → ExceptT e (Except ε) β) : liftM x >>= f = f a := by
  subst h
  rfl

theorem exc_lift_iff : Returns (liftM x : ExceptT e (Except ε) α).run ↔ Returns x := by
  rcases x with p | a
  · exact iff_of_false (not_error p) (not_error p)
  · exact iff_of_true (ok _) (ok a)

theorem filterMapM {f : α → Except ε (Option β)} (h : ∀ a, Returns (f a)) (as : List α) :
    Returns (as.filterMapM f) := by
  suffices ∀ acc, Returns (List.filterMapM.loop f as acc) from this []
  induction as with
  | nil => exact fun acc => ok _
  | cons a as ih =>
    intro acc
    refine (h a).bind fun o _ => ?_
    cases o with
    | none => exact ih acc
    | some b => exact ih (b :: acc)

end Returns
