/-
  Branch runs (`decode_branch_run` of `timer.rs`).  `transfer` refines the flow of control by
  the branches that are not conditional, which read a register.

  Main theorem: `branch_run_exact`.
-/
import Reverie.BranchStep.Exact

namespace Reverie.BranchStep
open List Option BitVec

/-! ## The plan -/

/-- `Stop::successors`: where control can go after the branch. -/
def Stop.successors (stop : Stop) (at_ : BitVec 64) (x : Fin 31 → BitVec 64) :
    Option ((Fin 2 → BitVec 64) × ℕ) :=
  match stop with
  | .direct target false => some (![target, target], 1)
  | .direct target true =>
    if target = at_ + 4 then some (![target, target], 1) else some (![at_ + 4, target], 2)
  | .register reg => if h : reg < 31 then some (![x ⟨reg, h⟩, x ⟨reg, h⟩], 1) else none
  | .other => none

/-- The successors, as far as they are known at `pc`: a register is current only there. -/
def Stop.known (stop : Stop) (pc at_ : BitVec 64) (x : Fin 31 → BitVec 64) :
    Option ((Fin 2 → BitVec 64) × ℕ) :=
  match stop with
  | .register reg => if at_ ≠ pc then none else (Stop.register reg).successors at_ x
  | stop => stop.successors at_ x

def ExclusiveSequence.most (seq : ExclusiveSequence) : ℕ :=
  if seq.count = 1 then seq.branches 0 else max (seq.branches 0) (seq.branches 1)

/-- The breakpoints of a run, and the branches retired on the way to each. -/
structure BranchRunPlan where
  stops : Fin 2 → BitVec 64
  count : ℕ
  branches : Fin 2 → ℕ
  exclusive : Bool
  deriving DecidableEq

section
variable (mem : Memory) (readable : BitVec 64 → ℕ)

/-- `read_code`, with a window of `STOP_WINDOW` instructions: what can be read. -/
def readCode (from_ : BitVec 64) : List (BitVec 8) :=
  read mem from_ (min (readable from_) (4 * STOP_WINDOW))

/-- Where the run ends behind a successor of the branch: at its own first stop point, or
    just before `pc`, if it runs back into the run. -/
def endAfter (pc at_ successor : BitVec 64) : Option (BitVec 64) := do
  let (next, _) ← firstStop successor (readCode mem readable successor)
  if ¬ (pc ≤ next ∧ next ≤ at_) then some next
  else if successor < pc then some (pc - 4)
  else none

/-- The run through the branch at the first stop point. -/
def through (pc at_ : BitVec 64) (stop : Stop) (x : Fin 31 → BitVec 64) (clock target : BitVec 64) :
    Option BranchRunPlan :=
  if clock + 1 < target then do
    let (successors, count) ← stop.known pc at_ x
    let first ← endAfter mem readable pc at_ (successors 0)
    if count = 1 then some ⟨![first, first], 1, ![1, 1], false⟩
    else
      let second ← endAfter mem readable pc at_ (successors 1)
      if first = second then some ⟨![first, first], 1, ![1, 1], false⟩
      else some ⟨![first, second], 2, ![1, 1], false⟩
  else none

def decodeBranchRun (pc : BitVec 64) (x : Fin 31 → BitVec 64) (clock target : BitVec 64) :
    Option BranchRunPlan :=
  match exclusiveSequence pc (readCode mem readable pc) with
  | some seq =>
    -- one unit or nothing
    if clock + BitVec.ofNat 64 seq.most < target
    then some ⟨seq.stops, seq.count, seq.branches, true⟩ else none
  | none => do
    let (at_, stop) ← firstStop pc (readCode mem readable pc)
    (through mem readable pc at_ stop x clock target).or
      (if at_ ≠ pc then some ⟨![at_, at_], 1, ![0, 0], false⟩ else none)

end

/-! ## Transfers of control -/

/-- What an instruction does to the flow of control, with the branches that are not
    conditional. -/
inductive Transfer where
  | next
  | conditional (target : BitVec 64)
  | direct (target : BitVec 64)
  | register (reg : Fin 31)
  | other
  deriving DecidableEq

/-- The transfer of the instruction, by the fields of its encoding. -/
def transfer (insn : BitVec 32) (pc : BitVec 64) : Transfer :=
  match flow insn pc with
  | .next => .next
  | .conditional target => .conditional target
  | .other =>
    -- B, BL
    if insn.extractLsb' 26 5 = 0b00101#5 then .direct (target pc (insn.extractLsb' 0 26))
    -- BR, BLR, RET
    else if insn.extractLsb' 25 7 = 0b1101011#7 ∧ insn.extractLsb' 16 5 = 0b11111#5 ∧
        insn.extractLsb' 10 6 = 0#6 ∧ insn.extractLsb' 0 5 = 0#5 ∧
        (insn.extractLsb' 21 4 = 0b0000#4 ∨ insn.extractLsb' 21 4 = 0b0001#4 ∨
          insn.extractLsb' 21 4 = 0b0010#4) then
      if h : (insn.extractLsb' 5 5).toNat < 31 then .register ⟨_, h⟩ else .other
    else .other

/-- The guest: where it is, its general registers, and how many branches it has
    retired, of all kinds and of the conditional ones. -/
structure Guest where
  pc : BitVec 64
  regs : Fin 31 → BitVec 64
  branches : ℕ
  conditionals : ℕ

/-- One instruction.  What it does to the registers is open. -/
inductive Guest.Step (mem : Memory) : Guest → Guest → Prop where
  | next {g : Guest} {regs} (h : transfer (fetch mem g.pc) g.pc = .next) :
      Guest.Step mem g ⟨g.pc + 4, regs, g.branches, g.conditionals⟩
  | taken {g : Guest} {regs} {target : BitVec 64}
      (h : transfer (fetch mem g.pc) g.pc = .conditional target) :
      Guest.Step mem g ⟨target, regs, g.branches + 1, g.conditionals + 1⟩
  | fallthrough {g : Guest} {regs} {target : BitVec 64}
      (h : transfer (fetch mem g.pc) g.pc = .conditional target) :
      Guest.Step mem g ⟨g.pc + 4, regs, g.branches + 1, g.conditionals + 1⟩
  | direct {g : Guest} {regs} {target : BitVec 64}
      (h : transfer (fetch mem g.pc) g.pc = .direct target) :
      Guest.Step mem g ⟨target, regs, g.branches + 1, g.conditionals⟩
  | register {g : Guest} {regs} {reg : Fin 31}
      (h : transfer (fetch mem g.pc) g.pc = .register reg) :
      Guest.Step mem g ⟨g.regs reg, regs, g.branches + 1, g.conditionals⟩
  | other {g g' : Guest} (h : transfer (fetch mem g.pc) g.pc = .other) : Guest.Step mem g g'

/-- An execution without end. -/
def Guest.Execution (mem : Memory) (e : ℕ → Guest) : Prop := ∀ k, Guest.Step mem (e k) (e (k + 1))

def Guest.machine (g : Guest) : Machine := ⟨g.pc, g.branches⟩

section
variable {insn : BitVec 32} {pc : BitVec 64}

theorem transfer_next (h : transfer insn pc = .next) : flow insn pc = .next := by
  unfold transfer at h
  split at h
  · assumption
  · cases h
  · split_ifs at h

variable {t : BitVec 64} {mem : Memory} {g g' : Guest}

theorem transfer_conditional :
    transfer insn pc = .conditional t ↔ flow insn pc = .conditional t := by
  unfold transfer
  constructor
  · intro h
    split at h
    · cases h
    · rename_i hflow
      cases h
      exact hflow
    · split_ifs at h
  · intro h
    rw [h]

theorem transfer_flow_other {x : Transfer} (h : transfer insn pc = x) (hnext : x ≠ .next)
    (hconditional : ∀ t, x ≠ .conditional t) : flow insn pc = .other := by
  cases hflow : flow insn pc with
  | next => exact absurd (h.symm.trans (by unfold transfer; rw [hflow])) hnext
  | conditional t => exact absurd (h.symm.trans (transfer_conditional.2 hflow)) (hconditional t)
  | other => rfl

theorem Guest.Step.machine (h : Guest.Step mem g g') :
    BranchStep.Step mem g.machine g'.machine := by
  cases h with
  | next h => exact .next (transfer_next h)
  | taken h => exact .taken (transfer_conditional.1 h)
  | fallthrough h => exact .fallthrough (transfer_conditional.1 h)
  | direct h => exact .other (transfer_flow_other h nofun nofun)
  | register h => exact .other (transfer_flow_other h nofun nofun)
  | other h => exact .other (transfer_flow_other h nofun nofun)

theorem Guest.Execution.machine {e : ℕ → Guest} (h : Guest.Execution mem e) :
    BranchStep.Execution mem fun k => (e k).machine := fun k => (h k).machine

theorem classify_direct (h : classify insn pc = some (.direct t false)) :
    transfer insn pc = .direct t := by
  unfold classify at h
  simp only [ite_eq_iff, reduceCtorEq, and_false, or_false, Option.some.injEq,
    Stop.direct.injEq, and_true] at h
  obtain ⟨hmask, rfl⟩ := h
  have hfield : insn.toNat / 2 ^ 26 % 2 ^ 5 = 0b00101 :=
    (mask_eq 26 5 0b00101 (by decide) (by decide)).1 hmask
  have hflow : flow insn pc = .other := by
    rw [flow_unconditional (by omega) (by omega) (by omega), if_neg (by omega)]
  unfold transfer
  rw [hflow]
  simp only [(extract_eq 26 5 0b00101 (by decide)).2 hfield]
  have himm := offset_eq (x := insn) 0 26 (by decide) (by decide) pc
  exact congrArg Transfer.direct himm.symm

theorem register_mask {v : ℕ} (hv : v < 2 ^ 22)
    (h : insn &&& (0xfffffc1f : BitVec 32) = BitVec.ofNat 32 (v <<< 10)) :
    insn.toNat / 2 ^ 10 % 2 ^ 22 = v ∧ insn.toNat % 2 ^ 5 = 0 := by
  have hvalue : (BitVec.ofNat 32 (v <<< 10)).toNat = v * 2 ^ 10 := by
    rw [BitVec.toNat_ofNat, Nat.shiftLeft_eq, Nat.mod_eq_of_lt (by omega)]
  -- a part of the mask
  have hpart : ∀ m : BitVec 32, 0xfffffc1f &&& m = m →
      insn &&& m = BitVec.ofNat 32 (v <<< 10) &&& m := by
    intro m hm
    rw [← h, BitVec.and_assoc, hm]
  constructor
  · have hhigh : insn &&& (0xfffffc00 : BitVec 32) = BitVec.ofNat 32 (v <<< 10) := by
      rw [hpart 0xfffffc00 (by decide)]
      exact (mask_eq 10 22 v (by decide) hv).2 (by omega)
    exact (mask_eq 10 22 v (by decide) hv).1 hhigh
  · have hlow : insn &&& 0x1f = 0 := by
      rw [hpart 0x1f (by decide)]
      exact (mask_eq 0 5 0 (by decide) (by decide)).2 (by omega)
    have hzero := (mask_eq 0 5 0 (by decide) (by decide)).1 hlow
    simpa using hzero

theorem classify_register {reg : ℕ} (h : classify insn pc = some (.register reg)) :
    ∃ hreg : reg < 31, transfer insn pc = .register ⟨reg, hreg⟩ := by
  unfold classify at h
  simp only [ite_eq_iff, reduceCtorEq, and_false, false_or, or_false, Option.some.injEq] at h
  obtain ⟨-, -, -, -, hmask, hreg⟩ := h
  obtain ⟨h31, hreg⟩ := hreg
  obtain rfl := Stop.register.inj hreg
  have hvalue : ((insn >>> 5) &&& 0x1f).toNat = (insn.extractLsb' 5 5).toNat := by
    exact Nat.and_two_pow_sub_one_eq_mod _ 5
  have hfields : insn.toNat % 2 ^ 5 = 0 ∧ (insn.toNat / 2 ^ 10 % 2 ^ 22 = 0x3587c0 ∨
      insn.toNat / 2 ^ 10 % 2 ^ 22 = 0x358fc0 ∨ insn.toNat / 2 ^ 10 % 2 ^ 22 = 0x3597c0) := by
    rcases hmask with hmask | hmask | hmask
    · obtain ⟨hhigh, hlow⟩ := register_mask (v := 0x3587c0) (by decide) hmask
      exact ⟨hlow, .inl hhigh⟩
    · obtain ⟨hhigh, hlow⟩ := register_mask (v := 0x358fc0) (by decide) hmask
      exact ⟨hlow, .inr (.inl hhigh)⟩
    · obtain ⟨hhigh, hlow⟩ := register_mask (v := 0x3597c0) (by decide) hmask
      exact ⟨hlow, .inr (.inr hhigh)⟩
  obtain ⟨hlow, hhigh⟩ := hfields
  have hflow : flow insn pc = .other := by
    rw [flow_unconditional (by omega) (by omega) (by omega), if_neg (by omega)]
  have hlt : (insn.extractLsb' 5 5).toNat < 31 := by
    omega
  refine ⟨by rw [hvalue]; exact hlt, ?_⟩
  unfold transfer
  rw [hflow]
  have hop : insn.extractLsb' 21 4 = 0b0000#4 ∨ insn.extractLsb' 21 4 = 0b0001#4 ∨
      insn.extractLsb' 21 4 = 0b0010#4 := by
    rcases hhigh with h | h | h
    · exact .inl ((extract_eq 21 4 0b0000 (by decide)).2 (by omega))
    · exact .inr (.inl ((extract_eq 21 4 0b0001 (by decide)).2 (by omega)))
    · exact .inr (.inr ((extract_eq 21 4 0b0010 (by decide)).2 (by omega)))
  rw [if_neg fun h => absurd ((extract_eq 26 5 0b00101 (by decide)).1 h) (by omega),
    if_pos ⟨(extract_eq 25 7 0b1101011 (by decide)).2 (by omega),
      (extract_eq 16 5 0b11111 (by decide)).2 (by omega),
      (extract_eq 10 6 0 (by decide)).2 (by omega), (extract_eq 0 5 0 (by decide)).2 (by omega), hop⟩,
    dif_pos hlt]
  exact congrArg Transfer.register (Fin.ext hvalue.symm)

/-- The guest goes to one of the successors of the branch, and has retired it. -/
theorem Guest.Step.successors (hstep : Guest.Step mem g g') {stop : Stop}
    (hclass : classify (fetch mem g.pc) g.pc = some stop) {successors : Fin 2 → BitVec 64} {count : ℕ}
    (h : stop.successors g.pc g.regs = some (successors, count)) :
    ∃ i : Fin 2, i < count ∧ g'.pc = successors i ∧ g'.branches = g.branches + 1 := by
  cases stop with
  | other => cases h
  | register reg =>
    obtain ⟨hreg, htransfer⟩ := classify_register hclass
    simp only [Stop.successors, hreg] at h
    obtain ⟨rfl, rfl⟩ := h
    cases hstep with
    | register h =>
      rw [htransfer] at h
      obtain rfl := Transfer.register.inj h
      exact ⟨0, by decide, rfl, rfl⟩
    | next h | taken h | fallthrough h | direct h | other h => rw [htransfer] at h; cases h
  | direct t conditional =>
    cases conditional with
    | false =>
      have htransfer := classify_direct hclass
      obtain ⟨rfl, rfl⟩ := h
      cases hstep with
      | direct h =>
        rw [htransfer] at h
        obtain rfl := Transfer.direct.inj h
        exact ⟨0, by decide, rfl, rfl⟩
      | next h | taken h | fallthrough h | register h | other h => rw [htransfer] at h; cases h
    | true =>
      have htransfer := transfer_conditional.2 (classify_conditional hclass)
      simp only [Stop.successors] at h
      cases hstep with
      | taken h' =>
        rw [htransfer] at h'
        obtain rfl := Transfer.conditional.inj h'
        split_ifs at h with heq
        · cases h
          exact ⟨0, by decide, rfl, rfl⟩
        · cases h
          exact ⟨1, by decide, rfl, rfl⟩
      | fallthrough h' =>
        split_ifs at h with heq
        · cases h
          exact ⟨0, by decide, heq.symm, rfl⟩
        · cases h
          exact ⟨0, by decide, rfl, rfl⟩
      | next h' | direct h' | register h' | other h' => rw [htransfer] at h'; cases h'

end

/-! ## The ends of a run -/

section
variable {mem : Memory} {readable : BitVec 64 → ℕ} {pc at_ : BitVec 64}

/-- The instruction at the address is no stop point. -/
def NoStop (mem : Memory) (a : BitVec 64) : Prop := classify (fetch mem a) a = none

theorem firstStop_aligned {code : List (BitVec 8)} {r : BitVec 64 × Stop}
    (h : firstStop pc code = some r) :
    pc.toNat % 4 = 0 := by
  unfold firstStop at h
  split_ifs at h with haligned
  exact not_ne_iff.1 haligned

/-- The straight line from `s` to an end of the run: the end is outside of the run, and
    it is a stop point or the address just before the run. -/
structure Line (mem : Memory) (pc at_ s x : BitVec 64) (m : ℕ) : Prop where
  short : m < STOP_WINDOW
  last : x = addressOf s m
  straight : ∀ i < m, NoStop mem (addressOf s i)
  outside : ¬ (pc ≤ x ∧ x ≤ at_)
  stop : ¬ NoStop mem x ∨ NoStop mem x ∧ x + 4 = pc

variable {s x : BitVec 64} {i j : ℕ}

theorem addressOf_add : addressOf (addressOf s i) j = addressOf s (i + j) := by
  unfold addressOf
  rw [Nat.mul_add, BitVec.ofNat_add, BitVec.add_assoc]

theorem addressOf_inj (hi : i < STOP_WINDOW) (hj : j < STOP_WINDOW)
    (h : addressOf s i = addressOf s j) : i = j := by
  unfold addressOf STOP_WINDOW at *
  have hofNat := (BitVec.add_right_inj s).1 h
  have hnat := congrArg BitVec.toNat hofNat
  rw [BitVec.toNat_ofNat, BitVec.toNat_ofNat] at hnat
  omega

/-- Where a window does not reach a larger address, it has wrapped around. -/
theorem addressOf_of_le (hj : j < STOP_WINDOW) (hs : s < x)
    (hx : x ≤ addressOf s j) : (addressOf s j).toNat = s.toNat + 4 * j := by
  rw [lt_def] at hs
  rw [le_def] at hx
  unfold addressOf STOP_WINDOW at *
  rw [toNat_add, toNat_ofNat] at hx ⊢
  omega

theorem endAfter_line (haligned : pc.toNat % 4 = 0)
    (h : endAfter mem readable pc at_ s = some x) : ∃ m, Line mem pc at_ s x m := by
  simp only [endAfter, bind_eq_bind, bind_eq_some_iff] at h
  obtain ⟨⟨next, stop⟩, hnext, h⟩ := h
  obtain ⟨j, hj, hlast, hclass, hstraight⟩ := firstStop_read hnext
  split_ifs at h with hin hback
  · -- the straight line runs into the run: it passes `pc - 4`
    obtain rfl := Option.some.inj h
    obtain ⟨hle, -⟩ : pc ≤ next ∧ next ≤ at_ := hin
    have hs := firstStop_aligned hnext
    rw [hlast] at hle
    have hnat := addressOf_of_le hj hback hle
    rw [lt_def] at hback
    rw [le_def, hnat] at hle
    obtain ⟨m, hm⟩ : ∃ m, pc.toNat = s.toNat + 4 * m + 4 :=
      ⟨(pc.toNat - s.toNat) / 4 - 1, by omega⟩
    have hmj : m < j := by omega
    have hlt : s.toNat + 4 * m < 2 ^ 64 := by have := pc.isLt; omega
    have hbefore : pc - 4 = addressOf s m := by
      refine eq_of_toNat_eq ?_
      rw [addressOf_toNat hlt, toNat_sub, show (4 : BitVec 64).toNat = 4 from rfl]
      omega
    have hsucc : pc - 4 + 4 = pc := by rw [sub_add_cancel]
    refine ⟨m, hmj.trans hj, hbefore, fun i hi => hstraight i (hi.trans hmj), ?_, .inr ⟨?_, hsucc⟩⟩
    · rintro ⟨hge, -⟩
      rw [hbefore, le_def, addressOf_toNat hlt] at hge
      omega
    · rw [hbefore]
      exact hstraight m hmj
  · obtain rfl := Option.some.inj h
    refine ⟨j, hj, hlast, hstraight, hin, .inl fun hnone => ?_⟩
    rw [NoStop, hclass] at hnone
    cases hnone

theorem Line.no_end {index m m' : ℕ} {s' x' : BitVec 64} (hat : at_ = addressOf pc index)
    (hindex : index < STOP_WINDOW) (hstop : ¬ NoStop mem at_)
    (hrun : ∀ i < index, NoStop mem (addressOf pc i)) (hle : pc ≤ at_) (line : Line mem pc at_ s x m)
    (line' : Line mem pc at_ s' x' m') {l : ℕ} (hl : l < m) : addressOf s l ≠ x' := by
  intro heq
  rcases line'.stop with hstop' | ⟨-, hbefore⟩
  · exact hstop' (heq ▸ line.straight l hl)
  -- the line passes the address just before the run, so it goes on to `at_`
  have hpc : addressOf s (l + 1) = pc := by rw [← addressOf_succ, heq, hbefore]
  have hon : ∀ i, addressOf s (l + 1 + i) = addressOf pc i := fun i => by rw [← addressOf_add, hpc]
  rcases line.stop with hx | ⟨-, hx⟩
  · obtain ⟨i, rfl⟩ : ∃ i, m = l + 1 + i := ⟨m - (l + 1), by omega⟩
    have hxi : x = addressOf pc i := line.last.trans (hon i)
    rcases Nat.lt_trichotomy i index with hi | rfl | hi
    · exact hx (hxi ▸ hrun i hi)
    · refine line.outside ⟨?_, ?_⟩
      · rw [hxi, ← hat]
        exact hle
      · rw [hxi, ← hat]
        exact BitVec.le_refl _
    · refine hstop ?_
      rw [hat, ← hon index]
      exact line.straight _ (by omega)
  · -- both ends are that address
    have hsame : addressOf s l = addressOf s m := by
      refine (BitVec.add_left_inj 4).1 ?_
      rw [← line.last, hx, heq, hbefore]
    exact absurd (addressOf_inj (hl.trans line.short) line.short hsame) hl.ne

end

/-! ## Runs -/

/-- One of its stops. -/
def BranchRunPlan.StopsAt (plan : BranchRunPlan) (a : BitVec 64) : Prop :=
  ∃ i : Fin 2, i < plan.count ∧ plan.stops i = a

/-- The execution first stops as the plan says. -/
def BranchRunPlan.Exact (plan : BranchRunPlan) (e : ℕ → Guest) : Prop :=
  ∃ k, plan.StopsAt (e k).pc ∧
    (∀ i : Fin 2, i < plan.count → plan.stops i = (e k).pc →
      (e k).branches = (e 0).branches + plan.branches i) ∧
    ∀ j < k, ¬ plan.StopsAt (e j).pc

section
variable {mem : Memory} {readable : BitVec 64 → ℕ} {pc at_ : BitVec 64} {x : Fin 31 → BitVec 64}
  {clock target : BitVec 64} {plan : BranchRunPlan}

variable {stop : Stop} {e : ℕ → Guest}

theorem through_some (h : through mem readable pc at_ stop x clock target = some plan) :
    clock + 1 < target ∧ (∀ reg, stop = .register reg → at_ = pc) ∧ plan.branches = ![1, 1] ∧
      ∃ successors count, stop.successors at_ x = some (successors, count) ∧
        (∀ i : Fin 2, i < count → ∃ j : Fin 2, j < plan.count ∧
          endAfter mem readable pc at_ (successors i) = some (plan.stops j)) ∧
        ∀ j : Fin 2, j < plan.count → ∃ i : Fin 2, i < count ∧
          endAfter mem readable pc at_ (successors i) = some (plan.stops j) := by
  have hcount : ∀ {successors count}, stop.successors at_ x = some (successors, count) →
      count = 1 ∨ count = 2 := by
    intro successors count hs
    unfold Stop.successors at hs
    split at hs
    · cases hs
      exact .inl rfl
    · split_ifs at hs
      · cases hs
        exact .inl rfl
      · cases hs
        exact .inr rfl
    · split_ifs at hs
      cases hs
      exact .inl rfl
    · cases hs
  simp only [through] at h
  split_ifs at h with hclock
  simp only [bind_eq_bind, bind_eq_some_iff] at h
  obtain ⟨⟨successors, count⟩, hsuccessors, first, hfirst, h⟩ := h
  obtain ⟨hs, hregister⟩ : stop.successors at_ x = some (successors, count) ∧
      ∀ reg, stop = .register reg → at_ = pc := by
    cases stop with
    | register reg =>
      simp only [Stop.known] at hsuccessors
      split_ifs at hsuccessors with hne
      exact ⟨hsuccessors, fun _ _ => not_ne_iff.1 hne⟩
    | direct t c => exact ⟨hsuccessors, nofun⟩
    | other => exact ⟨hsuccessors, nofun⟩
  refine ⟨hclock, hregister, ?_⟩
  rcases hcount hs with rfl | rfl
  · simp only [if_true, Option.some.injEq] at h
    obtain rfl := h
    refine ⟨rfl, successors, 1, hs, ?_, ?_⟩
    · intro i hi
      obtain rfl : i = 0 := by omega
      exact ⟨0, Nat.one_pos, hfirst⟩
    · intro j hj
      obtain rfl : j = 0 := Fin.ext (Nat.lt_one_iff.1 hj)
      exact ⟨0, by decide, hfirst⟩
  · simp only [show ¬ 2 = 1 from by decide, if_false, bind_eq_some_iff] at h
    obtain ⟨second, hsecond, h⟩ := h
    split_ifs at h with hsame
    · obtain rfl := Option.some.inj h
      subst hsame
      refine ⟨rfl, successors, 2, hs, ?_, ?_⟩
      · intro i _
        refine ⟨0, Nat.one_pos, ?_⟩
        fin_cases i
        · exact hfirst
        · exact hsecond
      · intro j hj
        obtain rfl : j = 0 := Fin.ext (Nat.lt_one_iff.1 hj)
        exact ⟨0, by decide, hfirst⟩
    · obtain rfl := Option.some.inj h
      refine ⟨rfl, successors, 2, hs, ?_, ?_⟩
      · intro i _
        refine ⟨i, i.isLt, ?_⟩
        fin_cases i
        · exact hfirst
        · exact hsecond
      · intro j _
        refine ⟨j, j.isLt, ?_⟩
        fin_cases j
        · exact hfirst
        · exact hsecond

theorem Guest.Execution.straight (he : Guest.Execution mem e) {start index : ℕ}
    {s : BitVec 64} (hs : (e start).pc = s) (hstraight : ∀ i < index, NoStop mem (addressOf s i)) :
    ∀ i ≤ index, (e (start + i)).pc = addressOf s i ∧ (e (start + i)).branches = (e start).branches := by
  intro i hi
  have hrun := straight_run hstraight he.machine hs i hi
  exact ⟨congrArg Machine.pc hrun, congrArg Machine.branches hrun⟩

theorem through_exact (hpc : pc.toNat + 4 * STOP_WINDOW ≤ 2 ^ 64)
    (hfirst : firstStop pc (readCode mem readable pc) = some (at_, stop))
    (h : through mem readable pc at_ stop x clock target = some plan)
    (he : Guest.Execution mem e) (hpc₀ : (e 0).pc = pc) (hregs : (e 0).regs = x) : plan.Exact e := by
  obtain ⟨-, hregister, hbranches, successors, count, hs, hends, hends'⟩ := through_some h
  obtain ⟨index, hindex, hat, hclass, hrun⟩ := firstStop_read hfirst
  have haligned := firstStop_aligned hfirst
  have hnat : ∀ i ≤ index, (addressOf pc i).toNat = pc.toNat + 4 * i :=
    fun i hi => addressOf_toNat (by omega)
  have hle : pc ≤ at_ := by
    rw [hat, le_def, hnat index le_rfl]
    omega
  have hstop : ¬ NoStop mem at_ := by
    rw [NoStop, hclass]
    nofun
  have hline : ∀ j : Fin 2, j < plan.count → ∃ s m, Line mem pc at_ s (plan.stops j) m := by
    intro j hj
    obtain ⟨i, -, hi⟩ := hends' j hj
    obtain ⟨m, hm⟩ := endAfter_line haligned hi
    exact ⟨_, m, hm⟩
  -- up to the branch, and through it
  have hstart := he.straight hpc₀ hrun
  simp only [Nat.zero_add] at hstart
  obtain ⟨hatpc, hatbranches⟩ := hstart index le_rfl
  rw [← hat] at hatpc
  have hsuccessors : stop.successors (e index).pc (e index).regs = some (successors, count) := by
    rw [hatpc, ← hs]
    cases stop with
    | register reg =>
      have hzero : index = 0 := by
        refine addressOf_inj (s := pc) hindex (by decide) ?_
        rw [← hat, hregister reg rfl, addressOf_zero]
      rw [hzero, hregs]
    | direct t c => cases c <;> rfl
    | other => rfl
  obtain ⟨i, hi, hsucc, hretired⟩ := (he index).successors (by rw [hatpc]; exact hclass) hsuccessors
  -- to the end behind the successor
  obtain ⟨j, hj, hend⟩ := hends i hi
  obtain ⟨m, line⟩ := endAfter_line haligned hend
  have hrest := he.straight hsucc line.straight
  obtain ⟨hendpc, hendbranches⟩ := hrest m le_rfl
  rw [← line.last] at hendpc
  refine ⟨index + 1 + m, ⟨j, hj, hendpc.symm⟩, fun l hl _ => ?_, fun k hk => ?_⟩
  · rw [hendbranches, hretired, hatbranches, hbranches]
    fin_cases l <;> rfl
  · rintro ⟨l, hl, hstopk⟩
    obtain ⟨s', m', line'⟩ := hline l hl
    rcases Nat.lt_or_ge index k with hk' | hk'
    · obtain ⟨n, rfl⟩ : ∃ n, k = index + 1 + n := ⟨k - (index + 1), by omega⟩
      rw [(hrest n (by omega)).1] at hstopk
      exact line.no_end hat hindex hstop hrun hle line' (by omega) hstopk.symm
    · rw [(hstart k hk').1] at hstopk
      refine line'.outside ?_
      rw [hstopk, hat, le_def, le_def, hnat k hk', hnat index le_rfl]
      omega

theorem up_to_exact (hfirst : firstStop pc (readCode mem readable pc) = some (at_, stop))
    (he : Guest.Execution mem e) (hpc₀ : (e 0).pc = pc) :
    BranchRunPlan.Exact ⟨![at_, at_], 1, ![0, 0], false⟩ e := by
  obtain ⟨index, hindex, hat, hclass, hrun⟩ := firstStop_read hfirst
  have hstart := he.straight hpc₀ hrun
  simp only [Nat.zero_add] at hstart
  obtain ⟨hatpc, hatbranches⟩ := hstart index le_rfl
  refine ⟨index, ⟨0, Nat.one_pos, by rw [hatpc, ← hat]; rfl⟩, fun l hl _ => ?_, fun k hk => ?_⟩
  · rw [hatbranches]
    fin_cases l <;> rfl
  · rintro ⟨l, hl, hstopk⟩
    obtain rfl : l = 0 := by simp only at hl; omega
    have hsame : addressOf pc index = addressOf pc k := by
      rw [← hat, ← (hstart k hk.le).1, ← hstopk]
      rfl
    exact absurd (addressOf_inj hindex (hk.trans hindex) hsame) hk.ne'

end

/-! ## The counts of a sequence -/

section
variable {mem : Memory} {pc : BitVec 64} {length : ℕ} {seq : ExclusiveSequence}

variable {exits : List End}

theorem Path.counts {code : List (BitVec 8)} {index store : ℕ} {all : List End}
    (p : Path pc code index exits store all) (h : ∀ y ∈ exits, y.2 ≤ exits.length) :
    all.length + index ≤ exits.length + store ∧ ∀ y ∈ all, y.2 ≤ all.length := by
  induction p with
  | store => exact ⟨le_rfl, h⟩
  | straight _ _ _ ih =>
    obtain ⟨hlength, hcounts⟩ := ih h
    exact ⟨by omega, hcounts⟩
  | branch _ _ _ ih =>
    obtain ⟨hlength, hcounts⟩ := ih (by
      intro y hy
      rw [length_append, length_singleton]
      rcases mem_append.1 hy with hy | hy
      · exact (h y hy).trans (Nat.le_succ _)
      · rw [mem_singleton.1 hy])
    rw [length_append, length_singleton] at hlength
    exact ⟨by omega, hcounts⟩

theorem unitOf_count {stop : BitVec 64} (h : unitOf pc stop exits = some seq) :
    seq.count = 1 ∨ seq.count = 2 := by
  unfold unitOf at h
  simp only at h
  split_ifs at h
  split at h
  · cases h
    exact .inl rfl
  · cases h
    exact .inr rfl
  · cases h

theorem sequence_most (h : exclusiveSequence pc (read mem pc length) = some seq) :
    seq.most < EXCLUSIVE_WINDOW ∧ ∀ i : Fin 2, i < seq.count → seq.branches i ≤ seq.most := by
  obtain ⟨-, store, all, path, hlt, hunit⟩ := exclusiveSequence_some h
  obtain ⟨-, -, hexact, hends⟩ := unitOf_some hunit
  obtain ⟨hlength, hcounts⟩ := path.counts nofun
  have hbound : ∀ i : Fin 2, i < seq.count → seq.branches i < EXCLUSIVE_WINDOW := by
    intro i hi
    obtain ⟨y, hy, hstop⟩ := hends i hi
    have hle : y.2 ≤ all.length := by
      rcases mem_cons.1 hy with rfl | hy
      · exact le_rfl
      · exact hcounts y hy
    rw [hexact y hy i hi hstop]
    rw [length_nil] at hlength
    omega
  rcases unitOf_count hunit with hcount | hcount
  · simp only [ExclusiveSequence.most, hcount] at hbound ⊢
    refine ⟨hbound 0 (by decide), fun i hi => ?_⟩
    obtain rfl : i = 0 := by omega
    exact le_rfl
  · simp only [ExclusiveSequence.most, hcount] at hbound ⊢
    refine ⟨max_lt (hbound 0 (by decide)) (hbound 1 (by decide)), fun i _ => ?_⟩
    fin_cases i
    · exact le_max_left _ _
    · exact le_max_right _ _

end

/-! ## Branch runs -/

/-- **Branch runs are exact.**  Every execution from `pc` reaches one of the planned
    stops; when it first does, it has retired exactly the branches that are planned
    for it, and at none of the stops it passes the target. -/
theorem branch_run_exact (mem : Memory) (readable : BitVec 64 → ℕ) (pc : BitVec 64)
    (x : Fin 31 → BitVec 64) (clock target : BitVec 64) (plan : BranchRunPlan)
    (hpc : pc.toNat + 4 * STOP_WINDOW ≤ 2 ^ 64) (hclock : clock.toNat + EXCLUSIVE_WINDOW ≤ 2 ^ 64)
    (hlt : clock < target) (h : decodeBranchRun mem readable pc x clock target = some plan) :
    (∀ i : Fin 2, i < plan.count → clock.toNat + plan.branches i < target.toNat) ∧
      ∀ e, Guest.Execution mem e → (e 0).pc = pc → (e 0).regs = x → plan.Exact e := by
  unfold decodeBranchRun at h
  split at h
  · rename_i seq hseq
    split_ifs at h with hmost
    obtain rfl := Option.some.inj h
    obtain ⟨hwindow, hle⟩ := sequence_most hseq
    refine ⟨fun i hi => ?_, fun e he hpc₀ _ => ?_⟩
    · have := hle i hi
      rw [lt_def, toNat_add, toNat_ofNat, Nat.mod_eq_of_lt (by omega),
        Nat.mod_eq_of_lt (by omega)] at hmost
      exact (Nat.add_le_add_left this _).trans_lt hmost
    · have hpc' : pc.toNat + 4 * EXCLUSIVE_WINDOW < 2 ^ 64 := by
        unfold STOP_WINDOW at hpc
        unfold EXCLUSIVE_WINDOW
        omega
      obtain ⟨k, hstops, hcounts, hbefore⟩ := sequence_reaches hpc' hseq he.machine hpc₀
      exact ⟨k, hstops, hcounts, fun j hj => (hbefore j hj).1⟩
  · simp only [bind_eq_bind, bind_eq_some_iff] at h
    obtain ⟨⟨at_, stop⟩, hfirst, h⟩ := h
    rcases or_eq_some_iff.1 h with h | ⟨-, h⟩
    · obtain ⟨hnext, -, hbranches, -⟩ := through_some h
      refine ⟨fun i _ => ?_, fun e he hpc₀ hregs => through_exact hpc hfirst h he hpc₀ hregs⟩
      have hone : plan.branches i = 1 := by
        rw [hbranches]
        fin_cases i <;> rfl
      rw [hone]
      unfold EXCLUSIVE_WINDOW at hclock
      rw [lt_def, toNat_add, show (1 : BitVec 64).toNat = 1 from rfl,
        Nat.mod_eq_of_lt (by omega)] at hnext
      exact hnext
    · split_ifs at h with hne
      obtain rfl := Option.some.inj h
      refine ⟨fun i _ => ?_, fun e he hpc₀ _ => up_to_exact hfirst he hpc₀⟩
      fin_cases i <;> exact hlt

/-- `nop`, `cbz x0, 0x100c`, and a system call on either side. -/
theorem branch_run_exact_cbz :
    ∃ plan, decodeBranchRun (codeAt 0x1000 [0xd503201f, 0xb4000040, 0xd4000001, 0xd4000001])
        (fun _ => 256) 0x1000 0 0 10 = some plan ∧ plan = ⟨![0x1008, 0x100c], 2, ![1, 1], false⟩ ∧
      (∀ i : Fin 2, i < plan.count → (0 : BitVec 64).toNat + plan.branches i < (10 : BitVec 64).toNat) ∧
      ∀ e, Guest.Execution (codeAt 0x1000 [0xd503201f, 0xb4000040, 0xd4000001, 0xd4000001]) e →
        (e 0).pc = 0x1000 → (e 0).regs = 0 → plan.Exact e := by
  have hplan : decodeBranchRun (codeAt 0x1000 [0xd503201f, 0xb4000040, 0xd4000001, 0xd4000001])
      (fun _ => 256) 0x1000 0 0 10 = some ⟨![0x1008, 0x100c], 2, ![1, 1], false⟩ := by decide +kernel
  exact ⟨_, hplan, rfl, branch_run_exact _ _ 0x1000 0 0 10 _ (by decide) (by decide) (by decide) hplan⟩

/-- An unconditional branch is planned as one retired branch, and no conditional branch is
    retired on the way.  And at the end of the clock the sum with the branches of a
    sequence wraps around: the plan passes the target. -/
theorem branch_run_counts_every_branch :
    (∃ plan e, decodeBranchRun (codeAt 0x1000 [0x14000002, 0xd4000001, 0xd4000001])
        (fun _ => 256) 0x1000 0 0 10 = some plan ∧
      Guest.Execution (codeAt 0x1000 [0x14000002, 0xd4000001, 0xd4000001]) e ∧ (e 0).pc = 0x1000 ∧
      (e 0).regs = 0 ∧ ¬ plan.StopsAt (e 0).pc ∧ plan.stops 0 = (e 1).pc ∧ plan.branches 0 = 1 ∧
      (e 1).conditionals = (e 0).conditionals) ∧
    ∃ plan, decodeBranchRun (codeAt 0x1000 [0xc85f7c40, 0xb50000e0, 0xb5000040, 0xc8017c43])
        (fun _ => 256) 0x1000 0 0xfffffffffffffffe 0xffffffffffffffff = some plan ∧ 0 < plan.count ∧
      (0xffffffffffffffff : BitVec 64).toNat <
        (0xfffffffffffffffe : BitVec 64).toNat + plan.branches 0 := by
  constructor
  · have hplan : decodeBranchRun (codeAt 0x1000 [0x14000002, 0xd4000001, 0xd4000001])
        (fun _ => 256) 0x1000 0 0 10 = some ⟨![0x1008, 0x1008], 1, ![1, 1], false⟩ := by decide +kernel
    -- the branch, and then the system call
    refine ⟨_, fun k => if k = 0 then ⟨0x1000, 0, 0, 0⟩ else ⟨0x1008, 0, 1, 0⟩, hplan,
      fun k => ?_, rfl, rfl,
      ?_, rfl, rfl, rfl⟩
    · rcases Nat.eq_zero_or_pos k with rfl | hk
      · exact .direct (by decide +kernel)
      · simp only [hk.ne']
        exact .other (by decide +kernel)
    · rintro ⟨i, hi, hstop⟩
      obtain rfl : i = 0 := by simp only at hi; omega
      exact absurd hstop (by decide)
  · refine ⟨⟨![0x1010, 0x1020], 2, ![2, 1], true⟩, by decide +kernel, by decide, by decide⟩

end Reverie.BranchStep
