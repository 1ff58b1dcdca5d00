/-
  Counting the steps to a target (`ClockCounter` of `timer.rs`).  `none` is a panic, or a count
  that overflows: a clock that stands still for `2 ^ 64` readings does that
  (`long_wait_overflows`).  Main theorem: `steps_reach_target`.
-/
import Reverie.Timer.Precise

namespace Reverie.Timer
open List

/-- The clock, and the steps since its target. -/
@[ext] structure ClockCounter where
  rcbs : ℕ
  instr : ℕ
  targetRcb : ℕ
  deriving DecidableEq

namespace ClockCounter

def countInstr (c : ClockCounter) : Option ClockCounter :=
  (add c.instr 1).toOption.map fun instr => { c with instr := instr }

def singleStepWithClock (c : ClockCounter) (rcbs : ℕ) : Option ClockCounter :=
  match compare c.rcbs c.targetRcb, compare c.rcbs rcbs with
  | .lt, .lt => some { c with instr := 0, rcbs := rcbs }
  | .lt, .eq | .eq, .eq => c.countInstr
  | .eq, .lt => c.countInstr
  | _, .gt => none
  | .gt, _ => none

def catchUp (c : ClockCounter) (rcbs : ℕ) : Option ClockCounter :=
  if c.rcbs < c.targetRcb ∧ rcbs > c.rcbs then c.singleStepWithClock rcbs else some c

/-- Whether the counter is behind the pair; `none` if they cannot be compared. -/
def isBehind (c : ClockCounter) (rcbs instr : ℕ) : Option Bool :=
  match compare c.targetRcb rcbs with
  | .lt => none
  | .gt | .eq =>
    match compare c.rcbs rcbs with
    | .lt => some true
    | .eq => some (c.instr < instr)
    | .gt => some false

end ClockCounter

/-- A reading of the clock: after a step, or after an instruction outside the steps. -/
inductive Reading where
  | step (clock : ℕ)
  | catchUp (clock : ℕ)

namespace Reading

def clock : Reading → ℕ
  | .step clock | .catchUp clock => clock

def isStep : Reading → Bool
  | .step _ => true
  | .catchUp _ => false

/-- What a reading does to the counter.  A step is made only while it is behind. -/
def apply (target offset : ℕ) (c : ClockCounter) : Reading → Option ClockCounter
  | .step clock =>
    if c.isBehind target offset = some true then c.singleStepWithClock clock else some c
  | .catchUp clock => c.catchUp clock

end Reading

/-- The stepping loop, over the readings. -/
def followSteps (target offset : ℕ) (c : ClockCounter) (readings : List Reading) :
    Option ClockCounter :=
  readings.foldlM (Reading.apply target offset) c

/-- How many steps were made since the clock first read the target, if it has. -/
def sinceTarget (target : ℕ) (since : Option ℕ) (r : Reading) : Option ℕ :=
  match since with
  | none => if r.clock = target then some 0 else none
  | some k => some (if r.isStep then k + 1 else k)

section
variable {c : ClockCounter} {clock target offset n : ℕ} {r : Reading} {rest : List Reading}

theorem ClockCounter.isBehind_iff (offset : ℕ) (ht : c.targetRcb = target) :
    c.isBehind target offset = some true ↔
      c.rcbs < target ∨ c.rcbs = target ∧ c.instr < offset := by
  rw [isBehind, Nat.compare_eq_eq.2 ht]
  rcases lt_trichotomy c.rcbs target with h | h | h
  · simp [Nat.compare_eq_lt.2 h, h]
  · simp [h]
  · simp [Nat.compare_eq_gt.2 h, h.ne', h.not_gt]

theorem ClockCounter.singleStep_moves (hbelow : c.rcbs < c.targetRcb) (hmoved : c.rcbs < clock) :
    c.singleStepWithClock clock = some ⟨clock, 0, c.targetRcb⟩ := by
  rw [singleStepWithClock, Nat.compare_eq_lt.2 hbelow, Nat.compare_eq_lt.2 hmoved]

theorem ClockCounter.singleStep_counts (hle : c.rcbs ≤ clock) (hn : c.instr + 1 < 2 ^ 64)
    (hstill : c.rcbs < c.targetRcb ∧ c.rcbs = clock ∨ c.rcbs = c.targetRcb) :
    c.singleStepWithClock clock = some { c with instr := c.instr + 1 } := by
  have hcount : c.countInstr = some { c with instr := c.instr + 1 } := by
    rw [countInstr, add, if_pos hn]
    rfl
  rw [singleStepWithClock]
  rcases hstill with ⟨hbelow, heq⟩ | hat
  · rw [Nat.compare_eq_lt.2 hbelow, Nat.compare_eq_eq.2 heq, hcount]
  · rw [Nat.compare_eq_eq.2 hat]
    rcases hle.lt_or_eq with hlt | heq
    · rw [Nat.compare_eq_lt.2 hlt, hcount]
    · rw [Nat.compare_eq_eq.2 heq, hcount]

/-- A reading moves the clock, counts a step, or changes nothing. -/
theorem Reading.apply_cases (offset : ℕ) (ht : c.targetRcb = target) (hle : c.rcbs ≤ r.clock)
    (hn : c.instr + 1 < 2 ^ 64) :
    c.rcbs < target ∧ c.rcbs < r.clock ∧ r.apply target offset c = some ⟨r.clock, 0, target⟩ ∨
    (c.rcbs < target → c.rcbs = r.clock) ∧
      ((r.isStep = true ∧ c.isBehind target offset = some true ∧
          r.apply target offset c = some ⟨c.rcbs, c.instr + 1, target⟩) ∨
        (r.isStep = true → c.isBehind target offset ≠ some true) ∧
          r.apply target offset c = some c) := by
  subst ht
  by_cases hmoves : c.rcbs < c.targetRcb ∧ c.rcbs < r.clock
  · have hstep := ClockCounter.singleStep_moves hmoves.1 hmoves.2
    refine .inl ⟨hmoves.1, hmoves.2, ?_⟩
    cases r with
    | step clock => exact (if_pos ((ClockCounter.isBehind_iff offset rfl).2 (.inl hmoves.1))).trans hstep
    | catchUp clock => exact (if_pos hmoves).trans hstep
  · have hstill : c.rcbs < c.targetRcb → c.rcbs = r.clock := fun h =>
      hle.antisymm (not_lt.1 fun hlt => hmoves ⟨h, hlt⟩)
    refine .inr ⟨hstill, ?_⟩
    cases r with
    | catchUp clock => exact .inr ⟨nofun, if_neg hmoves⟩
    | step clock =>
      by_cases hbehind : c.isBehind c.targetRcb offset = some true
      · refine .inl ⟨rfl, hbehind, (if_pos hbehind).trans (ClockCounter.singleStep_counts hle hn ?_)⟩
        exact ((ClockCounter.isBehind_iff offset rfl).1 hbehind).imp (fun h => ⟨h, hstill h⟩) And.left
      · exact .inr ⟨fun _ => hbehind, if_neg hbehind⟩

/-- The counter after `n` readings, before the others. -/
structure Counting (target n : ℕ) (c : ClockCounter) (rest : List Reading) : Prop where
  target : c.targetRcb = target
  instr : c.instr ≤ n
  le : ∀ r ∈ rest, c.rcbs ≤ r.clock
  mono : rest.Pairwise fun r r' => r.clock ≤ r'.clock
  short : n + rest.length < 2 ^ 64

/-- Where a counter is that has not passed the target. -/
def ClockCounter.Shows (c : ClockCounter) (target offset : ℕ) : Option ℕ → Prop
  | none => c.rcbs < target
  | some k => c.rcbs = target ∧ c.instr = min offset k

theorem Counting.apply (h : Counting target n c (r :: rest)) (offset : ℕ) :
    ∃ c', r.apply target offset c = some c' ∧ Counting target (n + 1) c' rest ∧
      (r.isStep = true → c.isBehind target offset = some true →
        toLex (c.rcbs, c.instr) < toLex (c'.rcbs, c'.instr)) ∧
      ∀ since, r.clock ≤ target → c.Shows target offset since →
        c'.Shows target offset (sinceTarget target since r) := by
  have hle := h.le r mem_cons_self
  obtain ⟨hfirst, hmono⟩ := pairwise_cons.1 h.mono
  have hshort := h.short
  have hinstr := h.instr
  rw [length_cons] at hshort
  have hnext : ∀ c' : ClockCounter, c'.targetRcb = target → c'.instr ≤ c.instr + 1 →
      c'.rcbs ≤ r.clock → Counting target (n + 1) c' rest :=
    fun c' ht hi hr => ⟨ht, by omega, fun q hq => hr.trans (hfirst q hq), hmono, by omega⟩
  have hbehind := ClockCounter.isBehind_iff offset h.target
  rcases r.apply_cases offset h.target hle (by omega) with
    ⟨hbelow, hmoved, happly⟩ | ⟨hstill, ⟨hstep, hb, happly⟩ | ⟨hb, happly⟩⟩
  · refine ⟨_, happly, hnext _ rfl (Nat.zero_le _) le_rfl,
      fun _ _ => Prod.Lex.toLex_lt_toLex.2 (.inl hmoved), fun since hr hshows => ?_⟩
    cases since with
    | none =>
      rw [sinceTarget]
      split_ifs with heq
      · exact ⟨heq, (Nat.min_zero _).symm⟩
      · exact lt_of_le_of_ne hr heq
    | some k => exact absurd hshows.1 hbelow.ne
  · refine ⟨_, happly, hnext _ rfl le_rfl hle,
      fun _ _ => Prod.Lex.toLex_lt_toLex.2 (.inr ⟨rfl, Nat.lt_succ_self _⟩),
      fun since _ hshows => ?_⟩
    cases since with
    | none => rwa [sinceTarget, if_neg ((hstill hshows).symm.trans_lt hshows).ne]
    | some k =>
      obtain ⟨hat, hcount⟩ := hshows
      rw [hbehind] at hb
      rw [sinceTarget, if_pos hstep]
      exact ⟨hat, by simp only; omega⟩
  · refine ⟨c, happly, hnext c h.target (Nat.le_succ _) hle, fun hs hb' => absurd hb' (hb hs),
      fun since _ hshows => ?_⟩
    cases since with
    | none => rwa [sinceTarget, if_neg ((hstill hshows).symm.trans_lt hshows).ne]
    | some k =>
      obtain ⟨hat, hcount⟩ := hshows
      rw [sinceTarget]
      split_ifs with hs
      · have hdone := mt hbehind.2 (hb hs)
        exact ⟨hat, by omega⟩
      · exact ⟨hat, hcount⟩

theorem Counting.follow {before : List Reading} (h : Counting target n c (before ++ rest))
    (offset : ℕ) :
    ∃ c', followSteps target offset c before = some c' ∧
      Counting target (n + before.length) c' rest ∧
      ∀ since, (∀ r ∈ before, r.clock ≤ target) → c.Shows target offset since →
        c'.Shows target offset (before.foldl (sinceTarget target) since) := by
  induction before generalizing c n with
  | nil => exact ⟨c, rfl, h, fun _ _ hshows => hshows⟩
  | cons r before ih =>
    obtain ⟨c₁, happly, h₁, -, hshows₁⟩ := h.apply offset
    obtain ⟨c', hrun, h', hshows'⟩ := ih h₁
    refine ⟨c', ?_, by rwa [length_cons, Nat.add_comm before.length, ← Nat.add_assoc],
      fun since hclock hshows => ?_⟩
    · rw [followSteps, foldlM_cons, happly]
      exact hrun
    · exact hshows' _ (fun q hq => hclock q (mem_cons_of_mem _ hq))
        (hshows₁ since (hclock r mem_cons_self) hshows)

end

/-- **The steps reach exactly the requested point.**  From any clock, over fewer than
    `2 ^ 64` readings that never go back, no reading makes the loop panic and each of its
    steps moves the counter forward.  If no reading passes the target, then the loop counts
    the steps since the clock first read the target, and ends when they are `offset`. -/
theorem steps_reach_target (start target offset : ℕ) (readings : List Reading)
    (hstart : ∀ r ∈ readings, start ≤ r.clock)
    (hmono : readings.Pairwise fun r r' => r.clock ≤ r'.clock) (hshort : readings.length < 2 ^ 64) :
    (∀ before r after, readings = before ++ r :: after →
      ∃ c c', followSteps target offset ⟨start, 0, target⟩ before = some c ∧
        r.apply target offset c = some c' ∧
        (r.isStep = true → c.isBehind target offset = some true →
          toLex (c.rcbs, c.instr) < toLex (c'.rcbs, c'.instr))) ∧
    ((∀ r ∈ readings, r.clock ≤ target) → ∀ k,
      readings.foldl (sinceTarget target) (if start = target then some 0 else none) = some k →
      followSteps target offset ⟨start, 0, target⟩ readings = some ⟨target, min offset k, target⟩) := by
  have h : Counting target 0 ⟨start, 0, target⟩ readings :=
    ⟨rfl, le_rfl, hstart, hmono, by rwa [Nat.zero_add]⟩
  constructor
  · rintro before r after rfl
    obtain ⟨c, hrun, h', -⟩ := h.follow offset
    obtain ⟨c', happly, -, hprogress, -⟩ := h'.apply offset
    exact ⟨c, c', hrun, happly, hprogress⟩
  · intro hclock k hk
    rw [← append_nil readings] at h
    obtain ⟨c, hrun, h', hshows⟩ := h.follow offset
    have hle : start ≤ target := by
      cases readings with
      | nil =>
        by_contra hlt
        rw [if_neg fun heq => hlt heq.le] at hk
        cases hk
      | cons r rest => exact (hstart r mem_cons_self).trans (hclock r mem_cons_self)
    have hend := hshows (if start = target then some 0 else none) hclock ?_
    · rw [hk] at hend
      exact hrun.trans (congrArg some (ClockCounter.ext hend.1 hend.2 h'.target))
    · split_ifs with heq
      · exact ⟨heq, (Nat.min_zero _).symm⟩
      · exact lt_of_le_of_ne hle heq

/-- A step below the target, a reading of it, and two steps of which one is made. -/
theorem steps_reach_target_sample :
    followSteps 5 1 ⟨3, 0, 5⟩ [.step 3, .catchUp 5, .step 5, .step 5] = some ⟨5, 1, 5⟩ :=
  (steps_reach_target 3 5 1 [.step 3, .catchUp 5, .step 5, .step 5] (by decide) (by decide)
    (by decide)).2 (by decide) 2 rfl

theorem follow_waiting (target offset k : ℕ) {clock : ℕ} (hbelow : clock < target) (n : ℕ)
    (hn : k + n < 2 ^ 64) :
    followSteps target offset ⟨clock, k, target⟩ (List.replicate n (.step clock)) =
      some ⟨clock, k + n, target⟩ := by
  induction n generalizing k with
  | zero => rfl
  | succ n ih =>
    have happly : Reading.apply target offset ⟨clock, k, target⟩ (.step clock) =
        some ⟨clock, k + 1, target⟩ :=
      (if_pos ((ClockCounter.isBehind_iff offset rfl).2 (.inl hbelow))).trans
        (ClockCounter.singleStep_counts le_rfl (by simp only; omega) (.inl ⟨hbelow, rfl⟩))
    rw [replicate_succ, followSteps, foldlM_cons, happly]
    refine (ih (k + 1) (by omega)).trans ?_
    rw [Nat.add_assoc, Nat.add_comm 1]

/-- A clock that stands still for `2 ^ 64` steps overflows the count of instructions. -/
theorem long_wait_overflows :
    followSteps 1 0 ⟨0, 0, 1⟩ (List.replicate (2 ^ 64 - 1) (.step 0) ++ [.step 0]) = none := by
  have hwait := follow_waiting 1 0 0 Nat.zero_lt_one (2 ^ 64 - 1)
    (by decide)
  rw [followSteps] at hwait ⊢
  rw [foldlM_append, hwait]
  decide

end Reverie.Timer
