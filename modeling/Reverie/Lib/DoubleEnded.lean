/-
  Reading a sequence from both its ends.  A reader of another kind is as good as a list if its
  steps give what the steps of the list give (`reads_eq`); a list gives every entry once
  (`reads_pop`).
-/
import Mathlib

namespace DoubleEnded
open List

variable {α σ : Type}

/-- The ends of a list. -/
inductive End where
  | front
  | back
  deriving DecidableEq

/-- The entry at an end, and the others. -/
def pop : End → List α → Option α × List α
  | .front, entries => (entries.head?, entries.tail)
  | .back, entries => (entries.getLast?, entries.dropLast)

/-- What the steps at the given ends give, and what is left. -/
def reads (step : End → σ → Option α × σ) : List End → σ → List (End × Option α) × σ
  | [], s => ([], s)
  | e :: ends, s =>
    ((e, (step e s).1) :: (reads step ends (step e s).2).1, (reads step ends (step e s).2).2)

/-- What was given at an end. -/
def givenAt (e : End) (results : List (End × Option α)) : List α :=
  results.filterMap fun result => if result.1 = e then result.2 else none

/-! ## Readers -/

/-- Steps that follow those of a list, with `R` between a reader and the list it is at. -/
theorem reads_eq {step : End → σ → Option α × σ} {R : σ → List α → Prop}
    (hstep : ∀ e s entries, R s entries →
      (step e s).1 = (pop e entries).1 ∧ R (step e s).2 (pop e entries).2) (ends : List End) :
    ∀ {s : σ} {entries : List α}, R s entries →
      (reads step ends s).1 = (reads pop ends entries).1 ∧
        R (reads step ends s).2 (reads pop ends entries).2 := by
  induction ends with
  | nil => exact fun h => ⟨rfl, h⟩
  | cons e ends ih =>
    intro s entries h
    obtain ⟨hgiven, hleft⟩ := hstep e s entries h
    obtain ⟨hrest, hend⟩ := ih hleft
    refine ⟨?_, hend⟩
    rw [reads, reads, hgiven, hrest]

theorem givenAt_cons (e e' : End) (given : Option α) (results : List (End × Option α)) :
    givenAt e ((e', given) :: results) =
      (if e' = e then given else none).toList ++ givenAt e results := by
  rw [givenAt, filterMap_cons]
  split_ifs <;> cases given <;> rfl

theorem pop_front (entries : List α) :
    (pop .front entries).1.toList ++ (pop .front entries).2 = entries := by
  cases entries <;> rfl

theorem pop_back (entries : List α) :
    (pop .back entries).2 ++ (pop .back entries).1.toList = entries := by
  rcases entries.eq_nil_or_concat with rfl | ⟨entries, a, rfl⟩
  · rfl
  · simp [pop]

/-- **A list gives every entry once**, in order from the front and in reverse from the
    back, but for those it has left. -/
theorem reads_pop (ends : List End) : ∀ entries : List α,
    givenAt .front (reads pop ends entries).1 ++ (reads pop ends entries).2 ++
      (givenAt .back (reads pop ends entries).1).reverse = entries := by
  induction ends with
  | nil => exact fun entries => append_nil _
  | cons e ends ih =>
    intro entries
    have hrest := ih (pop e entries).2
    rw [reads, givenAt_cons, givenAt_cons, reverse_append]
    cases e with
    | front =>
      rw [if_pos rfl, if_neg (by decide), Option.toList_none, reverse_nil, append_nil,
        append_assoc, append_assoc, ← append_assoc (givenAt _ _), hrest, pop_front]
    | back =>
      have hone : (pop .back entries).1.toList.reverse = (pop .back entries).1.toList := by
        cases (pop .back entries).1 <;> rfl
      rw [if_pos rfl, if_neg (by decide), Option.toList_none, nil_append,
        ← append_assoc, hrest, hone, pop_back]

theorem reads_pop_nil (ends : List End) : ∀ {entries : List α}, entries.length ≤ ends.length →
    (reads pop ends entries).2 = [] := by
  induction ends with
  | nil => exact fun h => length_eq_zero_iff.1 (Nat.le_zero.1 h)
  | cons e ends ih =>
    intro entries h
    refine ih ?_
    cases e with
    | front =>
      rw [pop, length_tail]
      exact Nat.sub_le_of_le_add h
    | back =>
      rw [pop, length_dropLast]
      exact Nat.sub_le_of_le_add h

/-! ## Ascending entries -/

section
variable {R : α → α → Prop} [Std.Asymm R] {entries others : List α} {a : α}

theorem head_of_perm (hasc : entries.Pairwise R) (hperm : entries.Perm (a :: others))
    (hleast : ∀ b ∈ others, R a b) : ∃ rest, entries = a :: rest ∧ rest.Perm others := by
  cases entries with
  | nil => exact absurd hperm.symm.eq_nil (cons_ne_nil _ _)
  | cons b rest =>
    obtain rfl : b = a := by
      by_contra hne
      have hb : b ∈ others := by
        rcases mem_cons.1 (hperm.subset mem_cons_self) with h | h
        · exact absurd h hne
        · exact h
      have ha : a ∈ rest := by
        rcases mem_cons.1 (hperm.symm.subset mem_cons_self) with h | h
        · exact absurd h.symm hne
        · exact h
      exact Std.Asymm.asymm _ _ (hleast b hb) ((pairwise_cons.1 hasc).1 a ha)
    exact ⟨rest, rfl, hperm.cons_inv⟩

theorem last_of_perm (hasc : entries.Pairwise R) (hperm : entries.Perm (a :: others))
    (hgreatest : ∀ b ∈ others, R b a) : ∃ rest, entries = rest ++ [a] ∧ rest.Perm others := by
  obtain ⟨rest, hrest, hothers⟩ := head_of_perm (R := fun b c => R c b)
    (pairwise_reverse.2 hasc) (entries.reverse_perm.trans hperm) hgreatest
  refine ⟨rest.reverse, ?_, rest.reverse_perm.trans hothers⟩
  rw [← reverse_reverse entries, hrest, reverse_cons]

end

end DoubleEnded
