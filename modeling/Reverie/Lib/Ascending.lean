/-
  Ascending lists as sets: the searches of a sorted slice, `binarySearch` and `partitionPoint`,
  give the index to remove or to insert at, and the entries between two bounds.
-/
import Mathlib

namespace Ascending
open List

variable {α : Type} {p : α → Bool} {b : α}

/-- `slice::partition_point`: where the first entry is that is not `p`. -/
def partitionPoint (p : α → Bool) (entries : List α) : ℕ := (entries.takeWhile p).length

theorem partitionPoint_cons_pos (h : p b = true) (entries : List α) :
    partitionPoint p (b :: entries) = partitionPoint p entries + 1 := by
  rw [partitionPoint, takeWhile_cons_of_pos h, length_cons, partitionPoint]

theorem partitionPoint_cons_neg (h : ¬ p b = true) (entries : List α) :
    partitionPoint p (b :: entries) = 0 := by
  rw [partitionPoint, takeWhile_cons_of_neg h, length_nil]

theorem partitionPoint_le (p : α → Bool) (entries : List α) :
    partitionPoint p entries ≤ entries.length :=
  ( takeWhile_prefix p).length_le

variable [LinearOrder α] {entries : List α} {a : α}

/-- `slice::binary_search`: the index of an entry, or where it can be inserted. -/
def binarySearch (a : α) (entries : List α) : Except ℕ ℕ :=
  if a ∈ entries then .ok (partitionPoint (fun b => decide (b < a)) entries)
  else .error (partitionPoint (fun b => decide (b < a)) entries)

theorem eraseIdx_found (hasc : entries.Pairwise (· < ·)) (ha : a ∈ entries) :
    entries.eraseIdx (partitionPoint (fun b => decide (b < a)) entries) = entries.erase a := by
  induction entries with
  | nil => exact absurd ha not_mem_nil
  | cons b entries ih =>
    obtain ⟨hb, hasc⟩ := pairwise_cons.1 hasc
    rcases mem_cons.1 ha with rfl | ha
    · rw [partitionPoint_cons_neg (by simp), eraseIdx_zero, erase_cons_head, tail_cons]
    · have hlt := hb a ha
      rw [partitionPoint_cons_pos (by simpa using hlt), eraseIdx_cons_succ, ih hasc ha,
        erase_cons_tail (by simpa using hlt.ne)]

theorem pairwise_insertIdx (hasc : entries.Pairwise (· < ·)) (ha : a ∉ entries) :
    (entries.insertIdx (partitionPoint (fun b => decide (b < a)) entries) a).Pairwise (· < ·) := by
  induction entries with
  | nil => exact pairwise_singleton _ _
  | cons b entries ih =>
    obtain ⟨hb, hrest⟩ := pairwise_cons.1 hasc
    obtain ⟨hne, ha⟩ := not_or.1 (mt mem_cons.2 ha)
    by_cases hlt : b < a
    · rw [partitionPoint_cons_pos (by simpa using hlt), insertIdx_succ_cons,
        pairwise_cons]
      refine ⟨fun c hc => ?_, ih hrest ha⟩
      rcases (mem_insertIdx (partitionPoint_le _ _)).1 hc with rfl | hc
      · exact hlt
      · exact hb c hc
    · have hgt : a < b := lt_of_le_of_ne (not_lt.1 hlt) hne
      rw [partitionPoint_cons_neg (by simpa using hlt), insertIdx_zero, pairwise_cons]
      refine ⟨fun c hc => ?_, hasc⟩
      rcases mem_cons.1 hc with rfl | hc
      · exact hgt
      · exact hgt.trans (hb c hc)

omit [LinearOrder α] in
theorem mem_insertIdx {c : α} :
    c ∈ entries.insertIdx (partitionPoint p entries) a ↔ c = a ∨ c ∈ entries :=
  List.mem_insertIdx (partitionPoint_le p entries)

/-! ## Slices -/

variable (hasc : entries.Pairwise (· < ·))
include hasc

theorem takeWhile_eq_filter
    (hdown : ∀ a b, a < b → p b = true → p a = true) : entries.takeWhile p = entries.filter p := by
  induction entries with
  | nil => rfl
  | cons b entries ih =>
    obtain ⟨hb, hasc⟩ := pairwise_cons.1 hasc
    by_cases hp : p b = true
    · rw [takeWhile_cons_of_pos hp, filter_cons_of_pos hp, ih hasc]
    · rw [takeWhile_cons_of_neg hp, filter_cons_of_neg hp]
      refine (filter_eq_nil_iff.2 fun c hc hpc => hp ?_).symm
      exact hdown b c (hb c hc) hpc

theorem drop_partitionPoint (hdown : ∀ a b, a < b → p b = true → p a = true) :
    entries.drop (partitionPoint p entries) = entries.filter fun a => !p a := by
  induction entries with
  | nil => rfl
  | cons b entries ih =>
    obtain ⟨hb, hasc⟩ := pairwise_cons.1 hasc
    by_cases hp : p b = true
    · rw [partitionPoint_cons_pos hp, drop_succ_cons, ih hasc,
        filter_cons_of_neg (by simp [hp])]
    · rw [partitionPoint_cons_neg hp]
      refine (filter_eq_self.2 fun c hc => ?_).symm
      rcases mem_cons.1 hc with rfl | hc
      · simpa using hp
      · simpa using fun hpc => hp (hdown b c (hb c hc) hpc)

/-- The entries from the partition point of `below` to that of `upTo`. -/
theorem slice_eq_filter {below upTo : α → Bool}
    (hbelow : ∀ a b, a < b → below b = true → below a = true)
    (hupTo : ∀ a b, a < b → upTo b = true → upTo a = true)
    (hle : ∀ a, below a = true → upTo a = true) :
    (entries.take (max (partitionPoint upTo entries) (partitionPoint below entries))).drop
      (partitionPoint below entries) = entries.filter fun a => !below a && upTo a := by
  have hpoint : partitionPoint below entries = partitionPoint below (entries.filter upTo) := by
    rw [partitionPoint, partitionPoint, takeWhile_eq_filter hasc hbelow,
      takeWhile_eq_filter (hasc.filter _) hbelow, filter_filter]
    refine congrArg List.length (filter_congr fun a _ => ?_)
    by_cases h : below a = true
    · rw [h, hle a h]
      rfl
    · simp [h]
  have hmax : partitionPoint below entries ≤ partitionPoint upTo entries := by
    rw [hpoint, ← takeWhile_eq_filter hasc hupTo]
    exact partitionPoint_le _ _
  have htake : entries.take (partitionPoint upTo entries) = entries.filter upTo := by
    rw [← takeWhile_eq_filter hasc hupTo]
    exact (prefix_iff_eq_take.1 ( takeWhile_prefix upTo)).symm
  rw [max_eq_left hmax, htake, hpoint, drop_partitionPoint (hasc.filter _) hbelow, filter_filter]

end Ascending
