/-
  Half-open ranges of naturals: joining sorted ranges (`mem_join`, `join_apart`), and cutting a
  list of numbers into runs (`mem_runs`, `runs_ordered`).
-/
import Mathlib

namespace Intervals
open List

/-- A number of one of the ranges `[r.1, r.2)`. -/
def Mem (x : ℕ) (ranges : List (ℕ × ℕ)) : Prop := ∃ r ∈ ranges, r.1 ≤ x ∧ x < r.2

variable {x limit : ℕ} {ranges as bs : List (ℕ × ℕ)} {p : ℕ → Bool} {xs : List ℕ}

theorem mem_nil : ¬ Mem x [] := by
  rintro ⟨r, hr, -⟩
  exact absurd hr not_mem_nil

theorem mem_cons {r : ℕ × ℕ} : Mem x (r :: ranges) ↔ (r.1 ≤ x ∧ x < r.2) ∨ Mem x ranges := by
  rw [Mem, exists_mem_cons_iff]
  rfl

theorem mem_append : Mem x (as ++ bs) ↔ Mem x as ∨ Mem x bs := by
  simp only [Mem, List.mem_append, or_and_right, exists_or]

theorem mem_of_perm (h : as.Perm bs) : Mem x as ↔ Mem x bs := by
  simp only [Mem, h.mem_iff]

/-! ## Joining -/

/-- The joined ranges, from the range `last` that is being grown. -/
def joinFrom (last : ℕ × ℕ) : List (ℕ × ℕ) → List (ℕ × ℕ)
  | [] => [last]
  | r :: rest =>
    if r.1 ≤ last.2 then joinFrom (last.1, max last.2 r.2) rest else last :: joinFrom r rest

/-- Joins ranges that overlap or touch, in ranges sorted by their start. -/
def join : List (ℕ × ℕ) → List (ℕ × ℕ)
  | [] => []
  | r :: rest => joinFrom r rest

theorem mem_joinFrom : ∀ {last : ℕ × ℕ}, (last :: ranges).Pairwise (fun r s => r.1 ≤ s.1) →
      (Mem x (joinFrom last ranges) ↔ Mem x (last :: ranges)) := by
  induction ranges with
  | nil => intros; rfl
  | cons r rest ih =>
    intro last hsorted
    obtain ⟨hlast, hrest⟩ := pairwise_cons.1 hsorted
    have hr := hlast r mem_cons_self
    rw [joinFrom]
    split_ifs with htouch
    · have hgrown : ((last.1, max last.2 r.2) :: rest).Pairwise (fun r s => r.1 ≤ s.1) :=
        pairwise_cons.2 ⟨fun s hs => hlast s (mem_cons_of_mem _ hs),
          (pairwise_cons.1 hrest).2⟩
      rw [ih hgrown]
      simp only [mem_cons, ← or_assoc]
      refine or_congr_left ?_
      omega
    · rw [mem_cons, ih hrest, mem_cons, mem_cons, mem_cons]

theorem mem_join (h : ranges.Pairwise fun r s => r.1 ≤ s.1) : Mem x (join ranges) ↔ Mem x ranges := by
  cases ranges with
  | nil => rfl
  | cons r rest => exact mem_joinFrom h

theorem joinFrom_apart : ∀ {last : ℕ × ℕ}, (last :: ranges).Pairwise (fun r s => r.1 ≤ s.1) →
      (joinFrom last ranges).Pairwise (fun r s => r.2 < s.1) ∧
        ∀ s ∈ joinFrom last ranges, last.1 ≤ s.1 := by
  induction ranges with
  | nil =>
    intro last _
    exact ⟨List.pairwise_singleton _ _, fun s hs => by rw [List.mem_singleton.1 hs]⟩
  | cons r rest ih =>
    intro last hsorted
    obtain ⟨hlast, hrest⟩ := List.pairwise_cons.1 hsorted
    have hr := hlast r List.mem_cons_self
    rw [joinFrom]
    split_ifs with htouch
    · exact ih (List.pairwise_cons.2 ⟨fun s hs => hlast s (List.mem_cons_of_mem _ hs),
        (List.pairwise_cons.1 hrest).2⟩)
    · obtain ⟨happart, hle⟩ := ih hrest
      refine ⟨List.pairwise_cons.2 ⟨fun s hs => ?_, happart⟩, fun s hs => ?_⟩
      · have := hle s hs
        omega
      · rcases List.mem_cons.1 hs with rfl | hs
        · exact le_rfl
        · exact le_trans hr (hle s hs)

theorem join_apart (h : ranges.Pairwise fun r s => r.1 ≤ s.1) :
    (join ranges).Pairwise fun r s => r.2 < s.1 := by
  cases ranges with
  | nil => exact List.Pairwise.nil
  | cons r rest => exact (joinFrom_apart h).1

/-! ## The numbers of ranges -/

/-- The numbers of ranges that satisfy `p`, in order. -/
def elements (p : ℕ → Bool) (ranges : List (ℕ × ℕ)) : List ℕ :=
  ranges.flatMap fun r => (List.range' r.1 (r.2 - r.1)).filter p

theorem mem_elements : x ∈ elements p ranges ↔ Mem x ranges ∧ p x = true := by
  simp only [elements, mem_flatMap, mem_filter, mem_range'_1]
  constructor
  · rintro ⟨r, hr, hx, hp⟩
    exact ⟨⟨r, hr, by omega⟩, hp⟩
  · rintro ⟨⟨r, hr, hx⟩, hp⟩
    exact ⟨r, hr, by omega, hp⟩

theorem elements_ascend (h : ranges.Pairwise fun r s => r.2 < s.1) :
    (elements p ranges).Pairwise (· < ·) := by
  rw [elements, pairwise_flatMap]
  refine ⟨fun r _ => (pairwise_lt_range' (s := r.1) (n := r.2 - r.1)).filter _, ?_⟩
  refine h.imp fun {r s} hrs x hx y hy => ?_
  have hx := mem_range'_1.1 (mem_filter.1 hx).1
  have hy := mem_range'_1.1 (mem_filter.1 hy).1
  omega

/-! ## Runs -/

/-- The runs, from the run `[first, last]` that is being grown. -/
def runsFrom (limit first last : ℕ) : List ℕ → List (ℕ × ℕ)
  | [] => [(first, last + 1)]
  | x :: rest =>
    if x = last + 1 ∧ x - first < limit then runsFrom limit first x rest
    else (first, last + 1) :: runsFrom limit x x rest

/-- Cuts a list into runs of successive numbers, each of at most `limit`. -/
def runs (limit : ℕ) : List ℕ → List (ℕ × ℕ)
  | [] => []
  | x :: rest => runsFrom limit x x rest

theorem mem_runsFrom : ∀ {first last : ℕ}, first ≤ last →
    (Mem x (runsFrom limit first last xs) ↔ (first ≤ x ∧ x ≤ last) ∨ x ∈ xs) := by
  induction xs with
  | nil =>
    intro first last _
    simp only [runsFrom, mem_cons, mem_nil, List.not_mem_nil, Nat.lt_succ_iff]
  | cons y rest ih =>
    intro first last hle
    rw [runsFrom, List.mem_cons]
    split_ifs with hnext
    · rw [ih (by omega), ← or_assoc]
      refine or_congr_left ?_
      omega
    · rw [mem_cons, ih le_rfl]
      refine or_congr (by omega) (or_congr_left (by omega))

theorem mem_runs : Mem x (runs limit xs) ↔ x ∈ xs := by
  cases xs with
  | nil => simp only [runs, mem_nil, List.not_mem_nil]
  | cons y rest =>
    rw [runs, mem_runsFrom le_rfl, List.mem_cons]
    refine or_congr_left ?_
    omega

theorem runsFrom_ordered : ∀ {first last : ℕ}, first ≤ last → (last :: xs).Pairwise (· < ·) →
      (runsFrom limit first last xs).Pairwise (fun r s => r.2 ≤ s.1) ∧
        ∀ r ∈ runsFrom limit first last xs, first ≤ r.1 ∧ r.1 < r.2 := by
  induction xs with
  | nil =>
    intro first last hle _
    refine ⟨List.pairwise_singleton _ _, fun r hr => ?_⟩
    rw [runsFrom, List.mem_singleton] at hr
    subst hr
    exact ⟨le_rfl, Nat.lt_succ_of_le hle⟩
  | cons y rest ih =>
    intro first last hle hasc
    obtain ⟨hlast, hrest⟩ := List.pairwise_cons.1 hasc
    have hy := hlast y List.mem_cons_self
    rw [runsFrom]
    split_ifs with hnext
    · exact ih (by omega) hrest
    · obtain ⟨hord, hmem⟩ := ih le_rfl hrest
      refine ⟨List.pairwise_cons.2 ⟨fun s hs => ?_, hord⟩, fun s hs => ?_⟩
      · have := (hmem s hs).1
        omega
      · rcases List.mem_cons.1 hs with rfl | hs
        · exact ⟨le_rfl, Nat.lt_succ_of_le hle⟩
        · have := hmem s hs
          omega

/-- The runs of an ascending list follow each other, and none is empty. -/
theorem runs_ordered (h : xs.Pairwise (· < ·)) :
    (runs limit xs).Pairwise (fun r s => r.2 ≤ s.1) ∧ ∀ r ∈ runs limit xs, r.1 < r.2 := by
  cases xs with
  | nil => exact ⟨List.Pairwise.nil, by simp [runs]⟩
  | cons y rest =>
    obtain ⟨hord, hmem⟩ := runsFrom_ordered le_rfl h
    exact ⟨hord, fun r hr => (hmem r hr).2⟩

end Intervals
