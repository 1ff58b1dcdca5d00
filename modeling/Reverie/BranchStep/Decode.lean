/-
  Branch-to-branch steps on aarch64: decoding (`branch_step.rs`).

  A run of the guest ends at a stop point (`classify`); a load-exclusive and the code up to
  its store-exclusive run as one unit (`exclusiveSequence`).  Sums of addresses wrap around.
-/
import Mathlib

namespace Reverie.BranchStep

/-- How many instructions are decoded forward from an address, at most. -/
def STOP_WINDOW : ℕ := 64

/-- How far a store-exclusive may be from its load-exclusive. -/
def EXCLUSIVE_WINDOW : ℕ := 16

/-! ## Stop points -/

/-- An instruction that ends straight-line code. -/
inductive Stop where
  /-- a branch whose successors its encoding gives -/
  | direct (target : BitVec 64) (conditional : Bool)
  /-- to the address in a general register -/
  | register (reg : ℕ)
  | other

def signExtend (value : BitVec 64) (bits : ℕ) : BitVec 64 :=
  (value <<< (64 - bits)).sshiftRight (64 - bits)

/-- Where a branch at `pc` leads, by its immediate. -/
def offset (pc : BitVec 64) (imm : BitVec 32) (bits : ℕ) : BitVec 64 :=
  pc + signExtend (imm.setWidth 64 <<< 2) (bits + 2)

/-- `system_runs_straight`: hints other than WFE and WFI, the data barriers, and the
    read of the thread pointer. -/
def systemRunsStraight (insn : BitVec 32) : Bool :=
  if insn &&& 0xfffff01f = 0xd503201f then
    ¬ ((insn >>> 5) &&& 0x7f = 2 ∨ (insn >>> 5) &&& 0x7f = 3)
  else
    insn &&& 0xfffff0ff = 0xd50330bf ∨ insn &&& 0xfffff0ff = 0xd503309f ∨
      insn &&& 0xffffffe0 = 0xd53bd040

/-- `classify`: whether the instruction at `pc` is a stop point, and which. -/
def classify (insn : BitVec 32) (pc : BitVec 64) : Option Stop :=
  -- B, BL
  if insn &&& 0x7c000000 = 0x14000000 then
    some (.direct (offset pc (insn &&& 0x03ffffff) 26) false)
  -- B.cond, BC.cond
  else if insn &&& 0xff000000 = 0x54000000 then
    some (.direct (offset pc ((insn >>> 5) &&& 0x7ffff) 19) true)
  -- CBZ, CBNZ
  else if insn &&& 0x7e000000 = 0x34000000 then
    some (.direct (offset pc ((insn >>> 5) &&& 0x7ffff) 19) true)
  -- TBZ, TBNZ
  else if insn &&& 0x7e000000 = 0x36000000 then
    some (.direct (offset pc ((insn >>> 5) &&& 0x3fff) 14) true)
  -- BR, BLR, RET
  else if insn &&& 0xfffffc1f = 0xd61f0000 ∨ insn &&& 0xfffffc1f = 0xd63f0000 ∨
      insn &&& 0xfffffc1f = 0xd65f0000 then
    let reg := ((insn >>> 5) &&& 0x1f).toNat
    some (if reg = 31 then .other else .register reg)
  -- the other branches to a register
  else if insn &&& 0xfe000000 = 0xd6000000 then some .other
  -- exception generation
  else if insn &&& 0xff000000 = 0xd4000000 then some .other
  -- system instructions
  else if insn &&& 0xffc00000 = 0xd5000000 then
    if systemRunsStraight insn then none else some .other
  -- the rest of the group of branches, exceptions and system instructions
  else if (insn >>> 26) &&& 0b111 = 0b101 then some .other
  -- load and store exclusive
  else if insn &&& 0x3f800000 = 0x08000000 then some .other
  -- the reserved group and the unallocated ones
  else if (insn >>> 25) &&& 0xf = 0b0000 ∨ (insn >>> 25) &&& 0xf = 0b0001 ∨
      (insn >>> 25) &&& 0xf = 0b0011 then some .other
  else none

/-- The instruction at an index of the code, little-endian. -/
def insnAt (code : List (BitVec 8)) (index : ℕ) : Option (BitVec 32) := do
  let b₀ ← code[4 * index]?
  let b₁ ← code[4 * index + 1]?
  let b₂ ← code[4 * index + 2]?
  let b₃ ← code[4 * index + 3]?
  pure (b₃ ++ b₂ ++ b₁ ++ b₀)

def addressOf (pc : BitVec 64) (index : ℕ) : BitVec 64 := pc + BitVec.ofNat 64 (4 * index)

/-- `first_stop`: the first stop point at or after `pc`. -/
def firstStop (pc : BitVec 64) (code : List (BitVec 8)) : Option (BitVec 64 × Stop) :=
  if pc.toNat % 4 ≠ 0 then none
  else
    (List.range STOP_WINDOW).findSome? fun index =>
      (insnAt code index).bind fun insn =>
        (classify insn (addressOf pc index)).map fun stop => (addressOf pc index, stop)

/-! ## Exclusive sequences -/

/-- `is_exclusive`: a load-exclusive, or a store-exclusive. -/
def isExclusive (insn : BitVec 32) (load : Bool) : Bool :=
  let o₁ := insn &&& (1 <<< 21) ≠ 0
  let pairSize := insn >>> 30 ≥ 2
  insn &&& 0x3f800000 = 0x08000000 ∧ decide (insn &&& (1 <<< 22) ≠ 0) = load ∧ (¬ o₁ ∨ pairSize)

/-- A sequence that runs as one unit, up to one of `count` stops. -/
structure ExclusiveSequence where
  stops : Fin 2 → BitVec 64
  branches : Fin 2 → ℕ
  count : ℕ
  deriving DecidableEq

/-- An end of the sequence, with the branches that were retired before it. -/
abbrev End : Type := BitVec 64 × ℕ

/-- The ends in order, each one once. -/
def sortEnds (ends : List End) : List End :=
  (ends.insertionSort fun x y => x.1 < y.1 ∨ x.1 = y.1 ∧ x.2 ≤ y.2).destutter (· ≠ ·)

/-- The sequence up to a store-exclusive that ends at `stop`. -/
def unitOf (pc stop : BitVec 64) (exits : List End) : Option ExclusiveSequence :=
  if exits.any fun x => pc ≤ x.1 ∧ x.1 < stop then none
  else
    let ends := sortEnds ((stop, exits.length) :: exits)
    if (ends.zip ends.tail).any fun x => x.1.1 = x.2.1 then none
    else
      match ends with
      | [(stop, branches)] => some ⟨![stop, stop], ![branches, branches], 1⟩
      | [(first, firstBranches), (second, secondBranches)] =>
        some ⟨![first, second], ![firstBranches, secondBranches], 2⟩
      | _ => none

/-- The loop of `exclusive_sequence`, with what is left of the window. -/
def scan (pc : BitVec 64) (code : List (BitVec 8)) : ℕ → ℕ → List End → Option ExclusiveSequence
  | 0, _, _ => none
  | left + 1, index, exits => do
    let at_ := addressOf pc index
    let word ← insnAt code index
    if isExclusive word false then unitOf pc (at_ + 4) exits
    else
      match classify word at_ with
      | none => scan pc code left (index + 1) exits
      | some (.direct target true) =>
        scan pc code left (index + 1) (exits ++ [(target, exits.length + 1)])
      | some _ => none

def exclusiveSequence (pc : BitVec 64) (code : List (BitVec 8)) : Option ExclusiveSequence := do
  if pc.toNat % 4 ≠ 0 then none
  else
    let first ← insnAt code 0
    if isExclusive first true then scan pc code (EXCLUSIVE_WINDOW - 1) 1 [] else none

end Reverie.BranchStep
