/-
  Decoding of code (`liteinst_census.rs`).

  The decoder of the x86 library is a function of an address and of at most 15 bytes.
  `decodeAll_tiles`: its instructions lie one after the other, from the start of the code to
  its end.
-/
import Mathlib

namespace Reverie.LiteInst
open List

/-! ## Instructions -/

/-- The mnemonics that the census looks for. -/
inductive Mnemonic where
  | syscall
  | call
  | lea
  | jmp
  | nop
  | int3
  | other
  deriving DecidableEq

/-- The kinds of a first operand that the census looks for. -/
inductive OpKind where
  | nearBranch
  | register
  | memory
  | other
  deriving DecidableEq

/-- A decoded instruction. -/
structure Instruction where
  ip : ℕ
  len : ℕ
  invalid : Bool
  mnemonic : Mnemonic
  op0Kind : OpKind
  nearBranchTarget : ℕ
  /-- the address of a RIP-relative memory operand -/
  ipRelMemoryAddress : Option ℕ

def Instruction.nextIp (i : Instruction) : ℕ := i.ip + i.len

def isIndirectJump (i : Instruction) : Bool :=
  i.mnemonic = .jmp && (i.op0Kind = .register || i.op0Kind = .memory)

def isPadding (i : Instruction) : Bool := i.mnemonic = .nop || i.mnemonic = .int3

def instructionEntries (i : Instruction) : List ℕ :=
  (if i.op0Kind = .nearBranch then [i.nearBranchTarget] else []) ++
    match i.mnemonic, i.ipRelMemoryAddress with
    | .call, _ => [i.nextIp]
    | .lea, some address => [address]
    | _, _ => []

def maxInstructionBytes : ℕ := 15

/-- A decoder: what it decodes at an address, and that it takes some of the bytes. -/
structure Decoder where
  decode : ℕ → List UInt8 → Instruction
  ip_eq : ∀ ip bytes, (decode ip bytes).ip = ip
  len_pos : ∀ ip bytes, bytes ≠ [] → 0 < (decode ip bytes).len
  len_le : ∀ ip bytes, bytes ≠ [] → (decode ip bytes).len ≤ bytes.length

/-! ## Decoding -/

section
variable (dec : Decoder)

/-- The instruction at `position` of the code, whose first byte is at `ip`. -/
def Decoder.at (code : List UInt8) (ip position : ℕ) : Instruction :=
  dec.decode (ip + position) ((code.drop position).take maxInstructionBytes)

/-- `while decoder.can_decode()`, of one decoder over the code. -/
def decodeFrom (code : List UInt8) (ip : ℕ) : ℕ → ℕ → List Instruction
  | 0, _ => []
  | fuel + 1, position =>
    if position < code.length then
      dec.at code ip position ::
        decodeFrom code ip fuel (position + (dec.at code ip position).len)
    else []

/-- The instructions of one decoder over the code from `position` on. -/
def decodeAll (code : List UInt8) (ip position : ℕ) : List Instruction :=
  decodeFrom dec code ip (code.length - position) position

/-- The offset of the byte just below a multiple of 4 GiB, if it is among the `length`
    bytes at `address`. -/
def byteBefore4Gib (address length : ℕ) : Option ℕ :=
  let offset := (address ||| (2 ^ 32 - 1)) - address
  if offset < length then some offset else none

end

/-! ## One decoder -/

section
variable {dec : Decoder} {code : List UInt8} {ip position : ℕ}

theorem Decoder.at_ip : (dec.at code ip position).ip = ip + position := dec.ip_eq _ _

theorem drop_take_ne_nil (h : position < code.length) :
    (code.drop position).take maxInstructionBytes ≠ [] := by
  rw [← length_pos_iff, length_take, length_drop, maxInstructionBytes]
  omega

theorem Decoder.at_len (dec : Decoder) (ip : ℕ) (h : position < code.length) :
    0 < (dec.at code ip position).len ∧ position + (dec.at code ip position).len ≤ code.length := by
  refine ⟨dec.len_pos _ _ (drop_take_ne_nil h), ?_⟩
  have hle := dec.len_le (ip + position) _ (drop_take_ne_nil h)
  rw [length_take, length_drop] at hle
  rw [Decoder.at]
  omega

theorem Decoder.at_short (dec : Decoder) (ip : ℕ) (h : position < code.length) :
    (dec.at code ip position).len ≤ maxInstructionBytes :=
  Nat.le_trans (dec.len_le _ _ (drop_take_ne_nil h)) (length_take_le _ _)

theorem decodeFrom_fuel {fuel more : ℕ} (h : code.length - position ≤ fuel) :
    decodeFrom dec code ip (fuel + more) position = decodeFrom dec code ip fuel position := by
  induction fuel generalizing position with
  | zero =>
    cases more with
    | zero => rfl
    | succ more => rw [Nat.zero_add, decodeFrom, decodeFrom, if_neg (by omega)]
  | succ fuel ih =>
    rw [Nat.add_right_comm, decodeFrom, decodeFrom]
    split_ifs with hlt
    · have := (dec.at_len ip hlt).1
      rw [ih (by omega)]
    · rfl

theorem decodeAll_cons (h : position < code.length) :
    decodeAll dec code ip position = dec.at code ip position ::
      decodeAll dec code ip (position + (dec.at code ip position).len) := by
  obtain ⟨hpos, hle⟩ := dec.at_len ip h
  have hfuel : code.length - position =
      code.length - (position + (dec.at code ip position).len) +
        ((dec.at code ip position).len - 1) + 1 := by omega
  rw [decodeAll, hfuel, decodeFrom, if_pos h, decodeFrom_fuel (Nat.le_refl _), decodeAll]

theorem decodeAll_nil (h : code.length ≤ position) : decodeAll dec code ip position = [] := by
  rw [decodeAll, Nat.sub_eq_zero_of_le h, decodeFrom]

theorem decodeAll_drop (start : ℕ) :
    decodeAll dec (code.drop start) (ip + start) position =
      decodeAll dec code ip (start + position) := by
  have hat : ∀ position, dec.at (code.drop start) (ip + start) position =
      dec.at code ip (start + position) := by
    intro position
    rw [Decoder.at, Decoder.at, drop_drop, Nat.add_assoc]
  induction hn : code.length - (start + position) using Nat.strongRecOn
    generalizing position with
  | _ n ih =>
    rcases Nat.lt_or_ge (start + position) code.length with hlt | hge
    · have hpos := (dec.at_len ip hlt).1
      rw [decodeAll_cons hlt, decodeAll_cons (by rw [length_drop]; omega), hat,
        ih _ (by omega) rfl, Nat.add_assoc]
    · rw [decodeAll_nil hge, decodeAll_nil (by rw [length_drop]; omega)]

theorem Decoder.at_take {last : ℕ} (h : position + maxInstructionBytes ≤ last) :
    dec.at (code.take last) ip position = dec.at code ip position := by
  rw [Decoder.at, Decoder.at, drop_take, take_take, Nat.min_eq_left (by omega)]

theorem byteBefore4Gib_lt {address length last : ℕ} (h : byteBefore4Gib address length = some last) :
    last < length := by
  rw [byteBefore4Gib] at h
  split_ifs at h with hlt
  cases h
  exact hlt

/-! ## Tiles -/

/-- The instructions lie one after the other from `first` to `last`. -/
def Tiles (first last : ℕ) : List Instruction → Prop
  | [] => first = last
  | i :: rest => i.ip = first ∧ 0 < i.len ∧ Tiles (first + i.len) last rest

theorem decodeAll_tiles (h : position ≤ code.length) :
    Tiles (ip + position) (ip + code.length) (decodeAll dec code ip position) := by
  induction hn : code.length - position using Nat.strongRecOn generalizing position with
  | _ n ih =>
    rcases Nat.lt_or_ge position code.length with hlt | hge
    · obtain ⟨hpos, hle⟩ := dec.at_len ip hlt
      rw [decodeAll_cons hlt]
      refine ⟨dec.at_ip, hpos, ?_⟩
      rw [Nat.add_assoc]
      exact ih _ (by omega) hle rfl
    · rw [decodeAll_nil hge, Tiles, Nat.le_antisymm h hge]

theorem Tiles.mem {first last : ℕ} {is : List Instruction} (h : Tiles first last is)
    {i : Instruction} (hi : i ∈ is) : first ≤ i.ip ∧ i.ip + i.len ≤ last ∧ 0 < i.len := by
  have hle : ∀ {first : ℕ} {is : List Instruction}, Tiles first last is → first ≤ last := by
    intro first is
    induction is generalizing first with
    | nil => exact Nat.le_of_eq
    | cons j rest ih =>
      intro h
      have := ih h.2.2
      omega
  induction is generalizing first with
  | nil => exact absurd hi not_mem_nil
  | cons j rest ih =>
    obtain ⟨hip, hpos, hrest⟩ := h
    rcases mem_cons.1 hi with rfl | hi
    · have := hle hrest
      exact ⟨by omega, by omega, hpos⟩
    · have := ih hrest hi
      exact ⟨by omega, this.2⟩

end

end Reverie.LiteInst
