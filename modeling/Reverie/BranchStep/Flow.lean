/-
  A64 control flow, and what `classify` says about it.  `flow` reads an instruction by the
  fields of its encoding, independently of the masks in `classify`.  Main theorems:
  `classify_none`, `classify_conditional`, `isExclusive_flow`.
-/
import Reverie.BranchStep.Decode

namespace Reverie.BranchStep
open Option BitVec

/-! ## Control flow -/

/-- What an instruction does to the flow of control. -/
inductive Flow where
  | next
  | conditional (target : BitVec 64)
  | other

/-- `SignExtend(imm : '00', 64)` behind the address. -/
def target {w : ℕ} (pc : BitVec 64) (imm : BitVec w) : BitVec 64 := pc + (imm ++ 0#2).signExtend 64

/-- The flow of the instruction, by the top-level encoding and the group of
    branches, exceptions and system instructions. -/
def flow (insn : BitVec 32) (pc : BitVec 64) : Flow :=
  if insn.extractLsb' 26 3 = 0b101#3 then
    -- B.cond, BC.cond
    if insn.extractLsb' 24 8 = 0b01010100#8 then .conditional (target pc (insn.extractLsb' 5 19))
    -- CBZ, CBNZ
    else if insn.extractLsb' 25 6 = 0b011010#6 then .conditional (target pc (insn.extractLsb' 5 19))
    -- TBZ, TBNZ
    else if insn.extractLsb' 25 6 = 0b011011#6 then .conditional (target pc (insn.extractLsb' 5 14))
    -- hints, barriers, moves from and to system registers
    else if insn.extractLsb' 22 10 = 0b1101010100#10 then .next
    else .other
  -- reserved and unallocated
  else if insn.extractLsb' 25 4 = 0b0000#4 ∨ insn.extractLsb' 25 4 = 0b0001#4 ∨
      insn.extractLsb' 25 4 = 0b0011#4 then .other
  else .next

/-- The guest: where it is, and how many branches it has retired. -/
structure Machine where
  pc : BitVec 64
  branches : ℕ

/-- The bytes of the code. -/
abbrev Memory : Type := BitVec 64 → BitVec 8

def fetch (mem : Memory) (pc : BitVec 64) : BitVec 32 :=
  mem (pc + 3) ++ mem (pc + 2) ++ mem (pc + 1) ++ mem pc

/-- One instruction, with the branches retired. -/
inductive Step (mem : Memory) : Machine → Machine → Prop where
  | next {m : Machine} (h : flow (fetch mem m.pc) m.pc = .next) : Step mem m ⟨m.pc + 4, m.branches⟩
  | taken {m : Machine} {target : BitVec 64} (h : flow (fetch mem m.pc) m.pc = .conditional target) :
      Step mem m ⟨target, m.branches + 1⟩
  | fallthrough {m : Machine} {target : BitVec 64}
      (h : flow (fetch mem m.pc) m.pc = .conditional target) :
      Step mem m ⟨m.pc + 4, m.branches + 1⟩
  | other {m m' : Machine} (h : flow (fetch mem m.pc) m.pc = .other) : Step mem m m'

/-- The states of the guest, one after each instruction. -/
def Execution (mem : Memory) (e : ℕ → Machine) : Prop := ∀ k, Step mem (e k) (e (k + 1))

def read (mem : Memory) (pc : BitVec 64) (length : ℕ) : List (BitVec 8) :=
  (List.range length).map fun i => mem (pc + BitVec.ofNat 64 i)

theorem read_getElem? {mem : Memory} {pc : BitVec 64} {length i : ℕ} {b : BitVec 8}
    (h : (read mem pc length)[i]? = some b) : b = mem (pc + BitVec.ofNat 64 i) := by
  unfold read at h
  rw [List.getElem?_map, map_eq_some_iff] at h
  obtain ⟨j, hj, rfl⟩ := h
  obtain ⟨_, rfl⟩ := List.getElem?_eq_some_iff.1 hj
  rw [List.getElem_range]

theorem insnAt_read {mem : Memory} {pc : BitVec 64} {length index : ℕ} {word : BitVec 32}
    (h : insnAt (read mem pc length) index = some word) :
    word = fetch mem (addressOf pc index) := by
  unfold insnAt at h
  simp only [bind_eq_bind, bind_eq_some_iff, pure_def, Option.some.injEq] at h
  obtain ⟨b₀, h₀, b₁, h₁, b₂, h₂, b₃, h₃, rfl⟩ := h
  rw [read_getElem? h₀, read_getElem? h₁, read_getElem? h₂, read_getElem? h₃]
  unfold fetch addressOf
  rw [BitVec.ofNat_add, BitVec.ofNat_add, BitVec.ofNat_add, BitVec.add_assoc, BitVec.add_assoc,
    BitVec.add_assoc]
  rfl

/-! ## Masks and fields -/

section
variable {x : BitVec 32}

theorem and_mask (n p w : ℕ) : n &&& ((2 ^ w - 1) <<< p) = (n / 2 ^ p % 2 ^ w) <<< p := by
  refine Nat.eq_of_testBit_eq fun i => ?_
  rw [Nat.testBit_and, Nat.testBit_shiftLeft, Nat.testBit_shiftLeft, Nat.testBit_mod_two_pow,
    Nat.testBit_div_two_pow]
  by_cases hi : p ≤ i
  · simp [hi, Bool.and_comm]
  · simp [hi]

theorem extract_eq (p w v : ℕ) (hv : v < 2 ^ w) :
    x.extractLsb' p w = BitVec.ofNat w v ↔ x.toNat / 2 ^ p % 2 ^ w = v := by
  rw [← toNat_inj, BitVec.extractLsb'_toNat, toNat_ofNat, Nat.shiftRight_eq_div_pow,
    Nat.mod_eq_of_lt hv]

theorem mask_eq (p w v : ℕ) (hw : p + w ≤ 32) (hv : v < 2 ^ w) :
    x &&& BitVec.ofNat 32 ((2 ^ w - 1) <<< p) = BitVec.ofNat 32 (v <<< p) ↔
      x.toNat / 2 ^ p % 2 ^ w = v := by
  have hlt : ∀ u, u < 2 ^ w → u <<< p < 2 ^ 32 := by
    intro u hu
    calc u <<< p = u * 2 ^ p := Nat.shiftLeft_eq u p
      _ < 2 ^ w * 2 ^ p := Nat.mul_lt_mul_of_pos_right hu (Nat.two_pow_pos p)
      _ = 2 ^ (p + w) := by rw [← Nat.pow_add, Nat.add_comm]
      _ ≤ 2 ^ 32 := Nat.pow_le_pow_right (by decide) hw
  rw [← toNat_inj, toNat_and, toNat_ofNat, toNat_ofNat,
    Nat.mod_eq_of_lt (hlt _ (Nat.sub_lt (Nat.two_pow_pos w) Nat.one_pos)), Nat.mod_eq_of_lt (hlt v hv),
    and_mask, Nat.shiftLeft_eq, Nat.shiftLeft_eq]
  exact Nat.mul_left_inj (Nat.ne_of_gt (Nat.two_pow_pos p))

theorem shift_mask_eq (p w v : ℕ) (hw : w ≤ 32) (hv : v < 2 ^ w) :
    (x >>> p) &&& BitVec.ofNat 32 (2 ^ w - 1) = BitVec.ofNat 32 v ↔ x.toNat / 2 ^ p % 2 ^ w = v := by
  have hpow : 2 ^ w ≤ 2 ^ 32 := Nat.pow_le_pow_right (by decide) hw
  rw [← toNat_inj, toNat_and, toNat_ofNat, toNat_ofNat,
    toNat_ushiftRight, Nat.shiftRight_eq_div_pow,
    Nat.mod_eq_of_lt (lt_of_lt_of_le (Nat.sub_lt (Nat.two_pow_pos w) Nat.one_pos) hpow),
    Nat.mod_eq_of_lt (hv.trans_le hpow), Nat.and_two_pow_sub_one_eq_mod]

theorem signExtend_eq {w : ℕ} (v : BitVec w) (h0 : 0 < w) (hw : w ≤ 64) :
    signExtend (v.setWidth 64) w = v.signExtend 64 := by
  unfold signExtend
  refine eq_of_getLsbD_eq fun i hi => ?_
  rw [getLsbD_sshiftRight, getLsbD_signExtend]
  simp only [getLsbD_shiftLeft, getLsbD_setWidth, msb_eq_getLsbD_last]
  by_cases hiw : i < w
  · have h₁ : 64 - w + i < 64 := by omega
    have h₂ : 64 - w + i - (64 - w) = i := by omega
    have h₃ : ¬ 64 - w + i < 64 - w := by omega
    have h₄ : ¬ 64 ≤ i := by omega
    simp only [hiw, h₁, h₂, h₃, h₄, if_true, decide_true, decide_false, Bool.not_false,
      Bool.true_and]
  · have h₁ : ¬ 64 - w + i < 64 := by omega
    have h₂ : 64 - 1 - (64 - w) = w - 1 := by omega
    have h₃ : ¬ 64 - 1 < 64 - w := by omega
    have h₄ : ¬ 64 ≤ i := by omega
    have h₅ : w - 1 < 64 := by omega
    simp only [hiw, h₁, h₂, h₃, h₄, h₅, hi, if_false, decide_true, decide_false, Bool.not_false,
      Bool.true_and, show 64 - 1 < 64 from by decide]

theorem offset_eq (p w : ℕ) (h0 : 0 < w) (hw : p + w ≤ 32) (pc : BitVec 64) :
    offset pc ((x >>> p) &&& BitVec.ofNat 32 (2 ^ w - 1)) w = target pc (x.extractLsb' p w) := by
  unfold offset target
  have himm : ((x >>> p) &&& BitVec.ofNat 32 (2 ^ w - 1)).setWidth 64 <<< 2 =
      (x.extractLsb' p w ++ 0#2).setWidth 64 := by
    refine eq_of_getLsbD_eq fun i hi => ?_
    simp only [getLsbD_shiftLeft, getLsbD_setWidth, getLsbD_and,
      getLsbD_ofNat, getLsbD_append]
    by_cases hi₂ : i < 2
    · simp [hi₂]
    · have h₁ : i - 2 < 64 := by omega
      by_cases hiw : i - 2 < w
      · have h₂ : i - 2 < 32 := by omega
        simp [hi₂, h₁, h₂, hiw]
      · simp [hiw]
  rw [himm, signExtend_eq _ (by omega) (by omega)]

end

/-! ## What `classify` says about the flow -/

section
variable {insn : BitVec 32} {pc : BitVec 64}

theorem bcond_iff : insn &&& 0xff000000 = 0x54000000 ↔ insn.toNat / 2 ^ 24 % 2 ^ 8 = 0b01010100 :=
  mask_eq 24 8 0b01010100 (by decide) (by decide)

theorem cbz_iff : insn &&& 0x7e000000 = 0x34000000 ↔ insn.toNat / 2 ^ 25 % 2 ^ 6 = 0b011010 :=
  mask_eq 25 6 0b011010 (by decide) (by decide)

theorem tbz_iff : insn &&& 0x7e000000 = 0x36000000 ↔ insn.toNat / 2 ^ 25 % 2 ^ 6 = 0b011011 :=
  mask_eq 25 6 0b011011 (by decide) (by decide)

theorem system_iff : insn &&& 0xffc00000 = 0xd5000000 ↔ insn.toNat / 2 ^ 22 % 2 ^ 10 = 0b1101010100 :=
  mask_eq 22 10 0b1101010100 (by decide) (by decide)

theorem exclusive_iff : insn &&& 0x3f800000 = 0x08000000 ↔ insn.toNat / 2 ^ 23 % 2 ^ 7 = 0b0010000 :=
  mask_eq 23 7 0b0010000 (by decide) (by decide)

theorem group_iff : (insn >>> 26) &&& 0b111 = 0b101 ↔ insn.toNat / 2 ^ 26 % 2 ^ 3 = 0b101 :=
  shift_mask_eq 26 3 0b101 (by decide) (by decide)

theorem op0_iff {v : ℕ} (hv : v < 2 ^ 4) :
    (insn >>> 25) &&& 0xf = BitVec.ofNat 32 v ↔ insn.toNat / 2 ^ 25 % 2 ^ 4 = v :=
  shift_mask_eq 25 4 v (by decide) hv

theorem flow_of_group (hgroup : insn.toNat / 2 ^ 26 % 2 ^ 3 ≠ 0b101)
    (hop : insn.toNat / 2 ^ 25 % 2 ^ 4 ≠ 0b0000 ∧ insn.toNat / 2 ^ 25 % 2 ^ 4 ≠ 0b0001 ∧
      insn.toNat / 2 ^ 25 % 2 ^ 4 ≠ 0b0011) : flow insn pc = .next := by
  unfold flow
  rw [if_neg fun h => hgroup ((extract_eq 26 3 0b101 (by decide)).1 h), if_neg]
  rintro (h | h | h)
  · exact hop.1 ((extract_eq 25 4 0b0000 (by decide)).1 h)
  · exact hop.2.1 ((extract_eq 25 4 0b0001 (by decide)).1 h)
  · exact hop.2.2 ((extract_eq 25 4 0b0011 (by decide)).1 h)

theorem flow_unconditional (hgroup : insn.toNat / 2 ^ 26 % 2 ^ 3 = 0b101)
    (hbcond : insn.toNat / 2 ^ 24 % 2 ^ 8 ≠ 0b01010100)
    (hcbz : insn.toNat / 2 ^ 26 % 2 ^ 5 ≠ 0b01101) :
    flow insn pc = if insn.toNat / 2 ^ 22 % 2 ^ 10 = 0b1101010100 then .next else .other := by
  unfold flow
  rw [if_pos ((extract_eq 26 3 0b101 (by decide)).2 (by omega)),
    if_neg fun h => absurd ((extract_eq 24 8 0b01010100 (by decide)).1 h) (by omega),
    if_neg fun h => absurd ((extract_eq 25 6 0b011010 (by decide)).1 h) (by omega),
    if_neg fun h => absurd ((extract_eq 25 6 0b011011 (by decide)).1 h) (by omega)]
  exact if_congr (extract_eq 22 10 0b1101010100 (by decide)) rfl rfl

theorem flow_system (h : insn.toNat / 2 ^ 22 % 2 ^ 10 = 0b1101010100) : flow insn pc = .next := by
  rw [flow_unconditional (by omega) (by omega) (by omega), if_pos h]

theorem flow_bcond (h : insn.toNat / 2 ^ 24 % 2 ^ 8 = 0b01010100) :
    flow insn pc = .conditional (target pc (insn.extractLsb' 5 19)) := by
  unfold flow
  rw [if_pos ((extract_eq 26 3 0b101 (by decide)).2 (by omega)),
    if_pos ((extract_eq 24 8 0b01010100 (by decide)).2 h)]

theorem flow_cbz (h : insn.toNat / 2 ^ 25 % 2 ^ 6 = 0b011010) :
    flow insn pc = .conditional (target pc (insn.extractLsb' 5 19)) := by
  unfold flow
  rw [if_pos ((extract_eq 26 3 0b101 (by decide)).2 (by omega)),
    if_neg fun h => absurd ((extract_eq 24 8 0b01010100 (by decide)).1 h) (by omega),
    if_pos ((extract_eq 25 6 0b011010 (by decide)).2 h)]

theorem flow_tbz (h : insn.toNat / 2 ^ 25 % 2 ^ 6 = 0b011011) :
    flow insn pc = .conditional (target pc (insn.extractLsb' 5 14)) := by
  unfold flow
  rw [if_pos ((extract_eq 26 3 0b101 (by decide)).2 (by omega)),
    if_neg fun h => absurd ((extract_eq 24 8 0b01010100 (by decide)).1 h) (by omega),
    if_neg fun h => absurd ((extract_eq 25 6 0b011010 (by decide)).1 h) (by omega),
    if_pos ((extract_eq 25 6 0b011011 (by decide)).2 h)]

theorem classify_none (h : classify insn pc = none) : flow insn pc = .next := by
  unfold classify at h
  simp only [ite_eq_iff, reduceCtorEq, and_false, false_or, and_true] at h
  obtain ⟨-, -, -, -, -, -, -, ⟨hsystem, -⟩ | ⟨-, hgroup, -, hop⟩⟩ := h
  · exact flow_system (system_iff.1 hsystem)
  · refine flow_of_group (mt group_iff.2 hgroup) ⟨fun h => ?_, fun h => ?_, fun h => ?_⟩
    · exact hop (.inl ((op0_iff (by decide)).2 h))
    · exact hop (.inr (.inl ((op0_iff (by decide)).2 h)))
    · exact hop (.inr (.inr ((op0_iff (by decide)).2 h)))

theorem classify_conditional {t : BitVec 64} (h : classify insn pc = some (.direct t true)) :
    flow insn pc = .conditional t := by
  unfold classify at h
  simp only [ite_eq_iff, reduceCtorEq, and_false, false_or, and_true, or_false, Option.some.injEq,
    Stop.direct.injEq] at h
  obtain ⟨-, ⟨h, rfl⟩ | ⟨-, ⟨h, rfl⟩ | ⟨-, h, rfl⟩⟩⟩ := h
  · rw [flow_bcond (bcond_iff.1 h)]
    exact congrArg Flow.conditional (offset_eq 5 19 (by decide) (by decide) pc).symm
  · rw [flow_cbz (cbz_iff.1 h)]
    exact congrArg Flow.conditional (offset_eq 5 19 (by decide) (by decide) pc).symm
  · rw [flow_tbz (tbz_iff.1 h)]
    exact congrArg Flow.conditional (offset_eq 5 14 (by decide) (by decide) pc).symm

theorem isExclusive_flow {load : Bool} (h : isExclusive insn load = true) : flow insn pc = .next := by
  have hmask := exclusive_iff.1 (of_decide_eq_true h).1
  exact flow_of_group (by omega) (by omega)

end

end Reverie.BranchStep
