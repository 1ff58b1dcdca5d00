/-
  Segments that tile an interval (`Tiles`), and singly linked lists in memory (`Linked`): the
  rules for cutting and joining both, and for writes that do not touch them.
-/
import Mathlib

/-! ## Tilings -/

section
variable {α : Type} (start span : α → ℕ)

/-- The segments follow each other from `a` to `e`. -/
def Tiles : ℕ → List α → ℕ → Prop
  | a, [], e => a = e
  | a, b :: bs, e => start b = a ∧ Tiles (a + span b) bs e

variable {start span}

namespace Tiles
open List Function

variable {a e : ℕ} {b : α} {bs cs : List α}

theorem append : Tiles start span a (bs ++ cs) e ↔
    ∃ m, Tiles start span a bs m ∧ Tiles start span m cs e := by
  induction bs generalizing a with
  | nil => exact ⟨fun h => ⟨a, rfl, h⟩, fun ⟨m, hm, h⟩ => hm ▸ h⟩
  | cons b bs ih =>
    simp only [cons_append, Tiles, ih]
    constructor
    · rintro ⟨hb, m, h, h'⟩
      exact ⟨m, ⟨hb, h⟩, h'⟩
    · rintro ⟨m, ⟨hb, h⟩, h'⟩
      exact ⟨hb, m, h, h'⟩

section
variable (h : Tiles start span a bs e)
include h

theorem le : a ≤ e := by
  induction bs generalizing a with
  | nil => exact Nat.le_of_eq h
  | cons b bs ih => exact Nat.le_trans (Nat.le_add_right _ _) (ih h.2)

theorem bounds (hb : b ∈ bs) : a ≤ start b ∧ start b + span b ≤ e := by
  induction bs generalizing a with
  | nil => cases hb
  | cons c bs ih =>
    obtain ⟨hc, h⟩ := h
    rcases mem_cons.1 hb with rfl | hb
    · exact ⟨Nat.le_of_eq hc.symm, hc ▸ h.le⟩
    · exact ⟨Nat.le_trans (Nat.le_add_right _ _) (ih h hb).1, (ih h hb).2⟩

theorem pairwise : bs.Pairwise fun b c => start b + span b ≤ start c := by
  induction bs generalizing a with
  | nil => exact .nil
  | cons b bs ih =>
    obtain ⟨rfl, h⟩ := h
    exact pairwise_cons.2 ⟨fun c hc => (h.bounds hc).1, ih h⟩

theorem disjoint {c : α} (hb : b ∈ bs) (hc : c ∈ bs) (hne : b ≠ c) :
    start b + span b ≤ start c ∨ start c + span c ≤ start b := by
  induction bs generalizing a with
  | nil => cases hb
  | cons d bs ih =>
    obtain ⟨rfl, h⟩ := h
    rcases mem_cons.1 hb with rfl | hb'
    · rcases mem_cons.1 hc with rfl | hc'
      · exact absurd rfl hne
      · exact .inl (h.bounds hc').1
    · rcases mem_cons.1 hc with rfl | hc'
      · exact .inr (h.bounds hb').1
      · exact ih h hb' hc'

end

theorem append_cons : Tiles start span a (bs ++ b :: cs) e ↔
    Tiles start span a bs (start b) ∧ Tiles start span (start b + span b) cs e := by
  rw [append]
  constructor
  · rintro ⟨m, h, rfl, h'⟩
    exact ⟨h, h'⟩
  · rintro ⟨h, h'⟩
    exact ⟨start b, h, rfl, h'⟩

theorem dvd {d : ℕ} (h : Tiles start span a bs e) (ha : d ∣ a) (hspan : ∀ b ∈ bs, d ∣ span b)
    (hb : b ∈ bs) : d ∣ start b := by
  induction bs generalizing a with
  | nil => cases hb
  | cons c bs ih =>
    obtain ⟨hc, h⟩ := h
    rcases mem_cons.1 hb with rfl | hb
    · exact hc ▸ ha
    · exact ih h (Nat.dvd_add ha (hspan c mem_cons_self))
        (fun x hx => hspan x (mem_cons_of_mem _ hx)) hb

theorem length_le (h : Tiles start span a bs e) (pos : ∀ b ∈ bs, 0 < span b) :
    a + bs.length ≤ e := by
  induction bs generalizing a with
  | nil => exact Nat.le_of_eq h
  | cons b bs ih =>
    have hb := pos b mem_cons_self
    have hih := ih h.2 fun c hc => pos c (mem_cons_of_mem _ hc)
    rw [length_cons]
    omega

end Tiles

end

/-! ## Linked lists -/

/-- From `head`, the links lead through `xs` and end at 0. -/
def Linked (next : ℕ → ℕ) : ℕ → List ℕ → Prop
  | head, [] => head = 0
  | head, x :: xs => head = x ∧ x ≠ 0 ∧ Linked next (next x) xs

namespace Linked

variable {next next' : ℕ → ℕ} {head value x : ℕ} {xs ys zs : List ℕ}

/-- The last element of a list, 0 for the empty list. -/
def last : List ℕ → ℕ
  | [] => 0
  | [x] => x
  | _ :: x :: xs => last (x :: xs)

@[simp] theorem last_append_singleton : last (xs ++ [x]) = x := by
  induction xs with
  | nil => rfl
  | cons y xs ih =>
    cases xs with
    | nil => rfl
    | cons z xs => exact ih

theorem head_eq (h : Linked next head xs) : head = xs.headD 0 := by
  cases xs with
  | nil => exact h
  | cons x xs => exact h.1

theorem nonzero (h : Linked next head xs) (hx : x ∈ xs) : x ≠ 0 := by
  induction xs generalizing head with
  | nil => cases hx
  | cons y xs ih =>
    rcases List.mem_cons.1 hx with rfl | hx
    · exact h.2.1
    · exact ih h.2.2 hx

theorem last_mem (h : xs ≠ []) : last xs ∈ xs := by
  induction xs with
  | nil => exact absurd rfl h
  | cons y xs ih =>
    cases xs with
    | nil => exact List.mem_singleton_self y
    | cons z xs => exact List.mem_cons_of_mem _ (ih (List.cons_ne_nil z xs))

theorem last_eq_zero (h : Linked next head (xs ++ ys)) : last xs = 0 ↔ xs = [] := by
  constructor
  · intro hlast
    by_contra hne
    exact h.nonzero (List.mem_append_left _ (last_mem hne)) hlast
  · rintro rfl
    rfl

theorem congr (h : Linked next head xs) (agree : ∀ x ∈ xs, next' x = next x) :
    Linked next' head xs := by
  induction xs generalizing head with
  | nil => exact h
  | cons x xs ih =>
    obtain ⟨rfl, hx, h⟩ := h
    refine ⟨rfl, hx, ?_⟩
    rw [agree _ List.mem_cons_self]
    exact ih h fun y hy => agree y (List.mem_cons_of_mem _ hy)

theorem suffix (h : Linked next head (xs ++ ys)) :
    Linked next (if xs = [] then head else next (last xs)) ys := by
  induction xs generalizing head with
  | nil => exact h
  | cons x xs ih =>
    have hih := ih h.2.2
    cases xs with
    | nil => exact hih
    | cons y xs => exact hih

theorem replace (h : Linked next head (xs ++ ys)) (h' : Linked next value zs)
    (nodup : xs.Nodup) (apart : ∀ x ∈ xs, x ∉ zs) :
    Linked (if xs = [] then next else Function.update next (last xs) value)
      (if xs = [] then value else head) (xs ++ zs) := by
  induction xs generalizing head with
  | nil => exact h'
  | cons x xs ih =>
    obtain ⟨rfl, hx, h⟩ := h
    obtain ⟨hnotin, hnodup⟩ := List.nodup_cons.1 nodup
    simp only [reduceCtorEq, if_false]
    refine ⟨rfl, hx, ?_⟩
    cases xs with
    | nil =>
      simp only [last, Function.update_self]
      refine h'.congr fun z hz => Function.update_of_ne ?_ _ _
      rintro rfl
      exact apart _ List.mem_cons_self hz
    | cons y xs =>
      have hne : head ≠ last (y :: xs) := by
        intro heq
        exact hnotin (heq ▸ last_mem (List.cons_ne_nil y xs))
      have hih := ih h hnodup fun z hz => apart z (List.mem_cons_of_mem _ hz)
      rw [show last (head :: y :: xs) = last (y :: xs) from rfl, Function.update_of_ne hne]
      exact hih

end Linked
