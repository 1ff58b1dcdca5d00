/-
  Gaps between the occupied numbers of an interval, found by walking over the occupied ones.
  `highest` walks down and `lowest` up; they return the greatest, or the least, place where
  the numbers needed are free, if there is one.
-/
import Mathlib

namespace Gaps
open List

variable (occupied : ℕ → Bool)

/-- A gap of `n` places at `p`. -/
def Free (p n : ℕ) : Prop := ∀ q, p ≤ q → q < p + n → occupied q = false

/-- Where in `[start, stop)` the numbers needed are free. -/
def places (needed start stop : ℕ) : Set ℕ :=
  {p | start ≤ p ∧ p + needed ≤ stop ∧ Free occupied p needed}

/-- The occupied numbers of `[start, stop)`, ascending. -/
def keys (start stop : ℕ) : List ℕ := (List.range' start (stop - start)).filter occupied

/-- The walk down from `top` over the occupied numbers below it. -/
def highestFrom (needed start : ℕ) : ℕ → List ℕ → Option ℕ
  | top, [] => if top - start ≥ needed then some (top - needed) else none
  | top, key :: rest =>
    if top - (key + 1) ≥ needed then some (top - needed) else highestFrom needed start key rest

/-- The search from above. -/
def highest (needed start top : ℕ) : Option ℕ :=
  highestFrom needed start top (keys occupied start top).reverse

/-- The walk up from `candidate` over the occupied numbers from it on. -/
def lowestFrom (needed stop : ℕ) : ℕ → List ℕ → Option ℕ
  | candidate, [] => some candidate
  | candidate, key :: rest =>
    if candidate + needed ≤ key then some candidate
    else if key + 1 + needed > stop then none
    else lowestFrom needed stop (key + 1) rest

/-- The search from below. -/
def lowest (needed start stop : ℕ) : Option ℕ :=
  if start + needed > stop then none
  else lowestFrom needed stop start (keys occupied start stop)

variable {occupied} {needed start stop top candidate p key : ℕ} {l rest : List ℕ}

theorem mem_keys {q : ℕ} :
    q ∈ keys occupied start stop ↔ start ≤ q ∧ q < stop ∧ occupied q = true := by
  rw [keys, mem_filter, mem_range'_1]
  constructor
  · rintro ⟨⟨h1, h2⟩, h3⟩
    exact ⟨h1, by omega, h3⟩
  · rintro ⟨h1, h2, h3⟩
    exact ⟨⟨h1, by omega⟩, h3⟩

theorem sorted_keys : (keys occupied start stop).Pairwise (· < ·) :=
  List.Pairwise.filter _ pairwise_lt_range'

/-- A place is on one side of an occupied number. -/
theorem Free.apart {n : ℕ} (h : Free occupied p n) (hk : occupied key = true) :
    p + n ≤ key ∨ key < p := by
  by_contra hin
  rw [not_or, Nat.not_le, Nat.not_lt] at hin
  rw [h key hin.2 hin.1] at hk
  cases hk

/-! ## Downwards -/

/-- The occupied places of a window, descending. -/
structure Below (occupied : ℕ → Bool) (start top : ℕ) (l : List ℕ) : Prop where
  mem : ∀ q, q ∈ l ↔ start ≤ q ∧ q < top ∧ occupied q = true
  sorted : l.Pairwise (· > ·)
  le : start ≤ top

theorem Below.tail (h : Below occupied start top (key :: rest)) :
    (start ≤ key ∧ key < top ∧ occupied key = true) ∧ Below occupied start key rest := by
  have hk := (h.mem key).1 mem_cons_self
  refine ⟨hk, fun q => ?_, (pairwise_cons.1 h.sorted).2, hk.1⟩
  constructor
  · intro hq
    obtain ⟨h1, -, h3⟩ := (h.mem q).1 (mem_cons_of_mem key hq)
    exact ⟨h1, (pairwise_cons.1 h.sorted).1 q hq, h3⟩
  · rintro ⟨h1, h2, h3⟩
    rcases mem_cons.1 ((h.mem q).2 ⟨h1, h2.trans hk.2.1, h3⟩) with rfl | hq
    · exact absurd h2 (Nat.lt_irrefl _)
    · exact hq

theorem Below.keys (h : start ≤ top) :
    Below occupied start top (Gaps.keys occupied start top).reverse where
  mem q := by rw [mem_reverse, mem_keys]
  sorted := pairwise_reverse.2 sorted_keys
  le := h

/-- The place that ends at the top is the greatest, if nothing left is occupied there. -/
theorem Below.greatest (h : Below occupied start top l) (hn : start + needed ≤ top)
    (hl : ∀ q ∈ l, q < top - needed) :
    IsGreatest (places occupied needed start top) (top - needed) := by
  refine ⟨⟨by omega, by omega, fun q h1 h2 => ?_⟩, fun q hq => Nat.le_sub_of_add_le hq.2.1⟩
  rw [← Bool.not_eq_true]
  intro hq
  have := hl q ((h.mem q).2 ⟨by omega, by omega, hq⟩)
  omega

theorem highestFrom_spec (h : Below occupied start top l) :
    (∀ p, highestFrom needed start top l = some p →
      IsGreatest (places occupied needed start top) p) ∧
    (highestFrom needed start top l = none → places occupied needed start top = ∅) := by
  induction l generalizing top with
  | nil =>
    have hle := h.le
    rw [highestFrom]
    split_ifs with hn
    · refine ⟨fun p hp => ?_, nofun⟩
      cases hp
      exact h.greatest (by omega) nofun
    · refine ⟨nofun, fun _ => Set.eq_empty_of_forall_notMem fun p hp => ?_⟩
      have := hp.1
      have := hp.2.1
      omega
  | cons key rest ih =>
    obtain ⟨hk, ht⟩ := h.tail
    rw [highestFrom]
    split_ifs with hn
    · refine ⟨fun p hp => ?_, nofun⟩
      cases hp
      refine h.greatest (by omega) fun q hq => ?_
      rcases mem_cons.1 hq with rfl | hq
      · omega
      · have := (ht.mem q).1 hq
        omega
    · -- there is no room above the occupied number
      have hplaces : places occupied needed start top = places occupied needed start key := by
        ext p
        constructor
        · rintro ⟨h1, h2, hf⟩
          have := hf.apart hk.2.2
          exact ⟨h1, by omega, hf⟩
        · rintro ⟨h1, h2, hf⟩
          exact ⟨h1, by omega, hf⟩
      rw [hplaces]
      exact ih ht

theorem highest_greatest (hle : start ≤ top) (hp : highest occupied needed start top = some p) :
    IsGreatest (places occupied needed start top) p :=
  (highestFrom_spec (.keys hle)).1 p hp

theorem highest_none (hle : start ≤ top) (h : highest occupied needed start top = none) :
    places occupied needed start top = ∅ :=
  (highestFrom_spec (.keys hle)).2 h

/-! ## Upwards -/

/-- The occupied places of a window, ascending. -/
structure Above (occupied : ℕ → Bool) (candidate stop : ℕ) (l : List ℕ) : Prop where
  mem : ∀ q, q ∈ l ↔ candidate ≤ q ∧ q < stop ∧ occupied q = true
  sorted : l.Pairwise (· < ·)

theorem Above.tail (h : Above occupied candidate stop (key :: rest)) :
    (candidate ≤ key ∧ key < stop ∧ occupied key = true) ∧ Above occupied (key + 1) stop rest := by
  have hk := (h.mem key).1 mem_cons_self
  refine ⟨hk, fun q => ?_, (pairwise_cons.1 h.sorted).2⟩
  constructor
  · intro hq
    obtain ⟨-, h2, h3⟩ := (h.mem q).1 (mem_cons_of_mem key hq)
    exact ⟨(pairwise_cons.1 h.sorted).1 q hq, h2, h3⟩
  · rintro ⟨h1, h2, h3⟩
    rcases mem_cons.1 ((h.mem q).2 ⟨by omega, h2, h3⟩) with rfl | hq
    · omega
    · exact hq

theorem Above.keys : Above occupied start stop (Gaps.keys occupied start stop) where
  mem _ := mem_keys
  sorted := sorted_keys

/-- The candidate is the least place, if nothing left is occupied there. -/
theorem Above.least (h : Above occupied candidate stop l) (hn : candidate + needed ≤ stop)
    (hl : ∀ q ∈ l, candidate + needed ≤ q) :
    IsLeast (places occupied needed candidate stop) candidate := by
  refine ⟨⟨le_rfl, hn, fun q h1 h2 => ?_⟩, fun q hq => hq.1⟩
  rw [← Bool.not_eq_true]
  intro hq
  have := hl q ((h.mem q).2 ⟨h1, by omega, hq⟩)
  omega

theorem lowestFrom_spec (h : Above occupied candidate stop l) (hc : candidate + needed ≤ stop) :
    (∀ p, lowestFrom needed stop candidate l = some p →
      IsLeast (places occupied needed candidate stop) p) ∧
    (lowestFrom needed stop candidate l = none → places occupied needed candidate stop = ∅) := by
  induction l generalizing candidate with
  | nil =>
    refine ⟨fun p hp => ?_, nofun⟩
    cases hp
    exact h.least hc nofun
  | cons key rest ih =>
    obtain ⟨hk, ht⟩ := h.tail
    have hplaces (hn : ¬ candidate + needed ≤ key) :
        places occupied needed candidate stop = places occupied needed (key + 1) stop := by
      ext p
      constructor
      · rintro ⟨h1, h2, hf⟩
        have := hf.apart hk.2.2
        exact ⟨by omega, h2, hf⟩
      · rintro ⟨h1, h2, hf⟩
        exact ⟨by omega, h2, hf⟩
    rw [lowestFrom]
    split_ifs with hn hs
    · refine ⟨fun p hp => ?_, nofun⟩
      cases hp
      refine h.least hc fun q hq => ?_
      rcases mem_cons.1 hq with rfl | hq
      · exact hn
      · have := (ht.mem q).1 hq
        omega
    · refine ⟨nofun, fun _ => Set.eq_empty_of_forall_notMem fun p hp => ?_⟩
      rw [hplaces hn] at hp
      have := hp.1
      have := hp.2.1
      omega
    · rw [hplaces hn]
      exact ih ht (by omega)

theorem lowest_least (hp : lowest occupied needed start stop = some p) :
    IsLeast (places occupied needed start stop) p := by
  rw [lowest] at hp
  split_ifs at hp with hs
  exact (lowestFrom_spec .keys (by omega)).1 p hp

theorem lowest_none (h : lowest occupied needed start stop = none) :
    places occupied needed start stop = ∅ := by
  rw [lowest] at h
  split_ifs at h with hs
  · refine Set.eq_empty_of_forall_notMem fun p hp => ?_
    have := hp.1
    have := hp.2.1
    omega
  · exact (lowestFrom_spec .keys (by omega)).2 h

end Gaps
