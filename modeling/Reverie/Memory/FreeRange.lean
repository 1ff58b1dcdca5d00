/-
  Searching for free physical memory (`find_unmapped_user_range` and its `_topdown`, of
  `memory.rs`), with the arithmetic of `u64`.  Main theorem: `free_range_exact`.
-/
import Reverie.Memory.Placement

namespace Reverie.Memory
open List Option GuestMemory Access
open Words (checkedAdd checkedSub)

def checkedMul (x y : ℕ) : Option ℕ := if x * y < 2 ^ 64 then some (x * y) else none

/-- The loop of `find_unmapped_user_range_topdown` over the occupied pages, from the last
    one down.  `none` is an overflow; `checked_mul` ends the search with its `None`. -/
def topdownWalk (needed start : ℕ) : ℕ → List ℕ → Option (Option ℕ)
  | top, [] => do
    if (← checkedSub top start) ≥ needed then
      some (some (← checkedMul (← checkedSub top needed) pageSize))
    else some none
  | top, occupied :: rest => do
    if (← checkedSub top (← checkedAdd occupied 1)) ≥ needed then
      some (checkedMul (← checkedSub top needed) pageSize)
    else topdownWalk needed start occupied rest

def topdownChecked (m : GuestMemory) (start stop length : ℕ) : Option (Option ℕ) :=
  if m.searchable start stop length then
    topdownWalk (length / pageSize) (start / pageSize) (stop / pageSize)
      (Gaps.keys m.isMapped (start / pageSize) (stop / pageSize)).reverse
  else some none

/-- The loop of `find_unmapped_user_range` over the occupied pages.  Every operation is
    checked, and an overflow ends the search with `None`. -/
def bottomUpWalk (needed stop : ℕ) : ℕ → List ℕ → Option ℕ
  | candidate, [] => checkedMul candidate pageSize
  | candidate, occupied :: rest => do
    if (← checkedAdd candidate needed) ≤ occupied then checkedMul candidate pageSize
    else
      let candidate ← checkedAdd occupied 1
      if (← checkedAdd candidate needed) > stop then none
      else bottomUpWalk needed stop candidate rest

def bottomUpChecked (m : GuestMemory) (start stop length : ℕ) : Option ℕ :=
  if m.searchable start stop length then do
    if (← checkedAdd (start / pageSize) (length / pageSize)) > stop / pageSize then none
    else
      bottomUpWalk (length / pageSize) (stop / pageSize) (start / pageSize)
        (Gaps.keys m.isMapped (start / pageSize) (stop / pageSize))
  else none

/-! ## No operation overflows -/

section
variable {occupied : ℕ → Bool} {needed start stop top candidate : ℕ} {l : List ℕ}

theorem topdownWalk_eq (h : Gaps.Below occupied start top l) (htop : top * pageSize < 2 ^ 64) :
    topdownWalk needed start top l =
      some ((Gaps.highestFrom needed start top l).map (· * pageSize)) := by
  have hmul : checkedMul (top - needed) pageSize = some ((top - needed) * pageSize) :=
    if_pos ((Nat.mul_le_mul_right _ (Nat.sub_le _ _)).trans_lt htop)
  have hsub : ∀ {x}, x ≤ top → checkedSub top x = some (top - x) := fun h => if_pos h
  induction l generalizing top with
  | nil =>
    rw [topdownWalk, Gaps.highestFrom, hsub h.le]
    simp only [bind_eq_bind, bind_some]
    split_ifs with hn
    · simp [hsub (hn.trans (Nat.sub_le _ _)), hmul]
    · rfl
  | cons key rest ih =>
    obtain ⟨hk, ht⟩ := h.tail
    have hadd : checkedAdd key 1 = some (key + 1) := if_pos (by rw [pageSize] at htop; omega)
    rw [topdownWalk, Gaps.highestFrom, hadd]
    simp only [bind_eq_bind, bind_some, hsub hk.2.1]
    split_ifs with hn
    · simp [hsub (hn.trans (Nat.sub_le _ _)), hmul]
    · have hlt : key * pageSize < 2 ^ 64 := (Nat.mul_le_mul_right _ hk.2.1.le).trans_lt htop
      exact ih ht hlt (if_pos ((Nat.mul_le_mul_right _ (Nat.sub_le _ _)).trans_lt hlt))
        fun h => if_pos h

theorem bottomUpWalk_eq (h : Gaps.Above occupied candidate stop l) (hc : candidate ≤ stop)
    (hstop : stop * pageSize < 2 ^ 64) (hneeded : needed * pageSize < 2 ^ 64) :
    bottomUpWalk needed stop candidate l =
      (Gaps.lowestFrom needed stop candidate l).map (· * pageSize) := by
  have hadd : ∀ {x}, x ≤ stop → checkedAdd x needed = some (x + needed) := fun hx =>
    if_pos (by rw [pageSize] at hstop hneeded; omega)
  have hmul : candidate * pageSize < 2 ^ 64 := (Nat.mul_le_mul_right _ hc).trans_lt hstop
  induction l generalizing candidate with
  | nil => exact if_pos hmul
  | cons key rest ih =>
    obtain ⟨hk, ht⟩ := h.tail
    have hone : checkedAdd key 1 = some (key + 1) := if_pos (by rw [pageSize] at hstop; omega)
    rw [bottomUpWalk, Gaps.lowestFrom, hadd hc, hone]
    simp only [bind_eq_bind, bind_some, hadd hk.2.1]
    split_ifs with hn hs
    · exact if_pos hmul
    · rfl
    · exact ih ht hk.2.1 ((Nat.mul_le_mul_right _ hk.2.1).trans_lt hstop)

end

section
variable {m : GuestMemory} {start stop length : ℕ}

theorem topdownChecked_eq (hstop : stop < 2 ^ 64) :
    topdownChecked m start stop length = some (m.findUnmappedUserRangeTopdown start stop length) := by
  rw [topdownChecked, findUnmappedUserRangeTopdown]
  split_ifs with hs
  · exact topdownWalk_eq (.keys (searchable_div_le hs))
      ((Nat.div_mul_le_self _ _).trans_lt hstop)
  · rfl

theorem bottomUpChecked_eq (hstop : stop < 2 ^ 64) (hlength : length < 2 ^ 64) :
    bottomUpChecked m start stop length = m.findUnmappedUserRange start stop length := by
  rw [bottomUpChecked, findUnmappedUserRange]
  split_ifs with hs
  · have hle := searchable_div_le hs
    have hadd : checkedAdd (start / pageSize) (length / pageSize) =
        some (start / pageSize + length / pageSize) := if_pos (by rw [pageSize] at *; omega)
    rw [hadd, Gaps.lowest]
    simp only [bind_eq_bind, bind_some]
    split_ifs
    · rfl
    · exact bottomUpWalk_eq .keys hle ((Nat.div_mul_le_self _ _).trans_lt hstop)
        ((Nat.div_mul_le_self _ _).trans_lt hlength)
  · rfl

end

/-- **The searches for free memory are exact.**  For all 64-bit bounds and lengths nothing
    overflows.  In aligned bounds inside the memory the highest and the lowest free range are
    found, or there is none; with other bounds both searches refuse. -/
theorem free_range_exact (m : GuestMemory) (start stop length : UInt64) :
    ∃ down, topdownChecked m start.toNat stop.toNat length.toNat = some down ∧
      if m.searchable start.toNat stop.toNat length.toNat then
        let free := m.freePlaces start.toNat stop.toNat length.toNat
        (∀ p, down = some p → IsGreatest free p) ∧ (down = none ↔ free = ∅) ∧
        (∀ p, bottomUpChecked m start.toNat stop.toNat length.toNat = some p → IsLeast free p) ∧
        (bottomUpChecked m start.toNat stop.toNat length.toNat = none ↔ free = ∅)
      else down = none ∧ bottomUpChecked m start.toNat stop.toNat length.toNat = none := by
  refine ⟨_, topdownChecked_eq stop.toNat_lt, ?_⟩
  rw [bottomUpChecked_eq stop.toNat_lt length.toNat_lt]
  split_ifs with hs
  · refine ⟨fun p => topdown_greatest hs, ⟨topdown_none hs, fun hempty => ?_⟩,
      fun p => bottomUp_least hs, ⟨bottomUp_none hs, fun hempty => ?_⟩⟩
    · refine eq_none_iff_forall_ne_some.2 fun p hp => ?_
      exact (hempty.le (topdown_greatest hs hp).1)
    · refine eq_none_iff_forall_ne_some.2 fun p hp => ?_
      exact (hempty.le (bottomUp_least hs hp).1)
  · rw [findUnmappedUserRangeTopdown, findUnmappedUserRange, if_neg hs, if_neg hs]
    exact ⟨rfl, rfl⟩

/-- Page 1 of an empty memory is free and in the bounds, which are not aligned. -/
theorem unaligned_bounds_refused :
    let m := GuestMemory.new 0 0x10000
    pageSize ∈ m.freePlaces 1 0x10000 pageSize ∧
      topdownChecked m 1 0x10000 pageSize = some none ∧
      bottomUpChecked m 1 0x10000 pageSize = none :=
  ⟨⟨Nat.dvd_refl _, by decide, by decide, fun _ _ _ => rfl⟩, rfl, rfl⟩

end Reverie.Memory
