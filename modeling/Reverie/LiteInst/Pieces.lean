/-
  The piecewise decode is that of one decoder (`decode_each` of `liteinst_census.rs`).

  A decoder panics at an instruction that has the byte just below a multiple of 4 GiB of
  the buffer it reads.  `decode_each` decodes the instructions near it from copies.  Code
  addresses are not reduced modulo `2 ^ 64`; a decoder and a visitor may do that.
-/
import Reverie.LiteInst.Decode

namespace Reverie.LiteInst
open List

/-! ## The loops with their visitor -/

/-- One of the bytes at `address` is just below a multiple of 4 GiB. -/
def hasHazard (address length : ℕ) : Bool :=
  (range length).any fun k => (address + k) % 2 ^ 32 = 2 ^ 32 - 1

/-- How a piecewise decode stops. -/
inductive Halt (σ : Type) where
  | panic
  /-- the visitor returned `ControlFlow::Break` -/
  | broken (s : σ)

def copyBytes : ℕ := 2 * maxInstructionBytes

def copyStart (address : ℕ) : ℕ :=
  match byteBefore4Gib address copyBytes with
  | some hazard => if hazard < maxInstructionBytes then maxInstructionBytes else 0
  | none => 0

section
variable {σ : Type} (dec : Decoder) (visit : σ → Instruction → Except σ σ)

/-- `decode_out` and the visit: the length that was taken, and the visitor's state. -/
def decodeOut (address : ℕ) (slice : List UInt8) (ip position : ℕ) (s : σ) :
    Except (Halt σ) (ℕ × σ) :=
  let instruction := dec.at slice ip position
  if hasHazard (address + position) instruction.len then .error .panic
  else match visit s instruction with
    | .ok s => .ok (instruction.len, s)
    | .error s => .error (.broken s)

/-- `while decoder.can_decode()`. -/
def sliceFrom (address : ℕ) (slice : List UInt8) (ip : ℕ) : ℕ → ℕ → σ → Except (Halt σ) σ
  | 0, _, s => .ok s
  | fuel + 1, position, s =>
    if position < slice.length then do
      let (len, s) ← decodeOut dec visit address slice ip position s
      sliceFrom address slice ip fuel (position + len) s
    else .ok s

/-- The loop of the decoder that stops before `last`. -/
def sliceBefore (address : ℕ) (rest : List UInt8) (ip last : ℕ) :
    ℕ → ℕ → σ → Except (Halt σ) (ℕ × σ)
  | 0, position, s => .ok (position, s)
  | fuel + 1, position, s =>
    if position + maxInstructionBytes ≤ last then do
      let (len, s) ← decodeOut dec visit address (rest.take last) ip position s
      sliceBefore address rest ip last fuel (position + len) s
    else .ok (position, s)

/-- `decode_copy` of the bytes at `offset`, in a buffer at `buffer`. -/
def decodeCopy (buffer : ℕ) (rest : List UInt8) (ip offset : ℕ) (s : σ) : Except (Halt σ) (ℕ × σ) :=
  decodeOut dec visit (buffer + copyStart buffer) ((rest.drop offset).take maxInstructionBytes)
    (ip + offset) 0 s

/-- The loop over the instructions that start at or before `last`. -/
def copiesFrom (buffer : ℕ → ℕ) (rest : List UInt8) (ip last : ℕ) :
    ℕ → ℕ → σ → Except (Halt σ) (ℕ × σ)
  | 0, offset, s => .ok (offset, s)
  | fuel + 1, offset, s =>
    if offset ≤ last then do
      let (len, s) ← decodeCopy dec visit (buffer (ip + offset)) rest ip offset s
      copiesFrom buffer rest ip last fuel (offset + len) s
    else .ok (offset, s)

/-- The loop over the pieces. -/
def eachFrom (host : ℕ) (buffer : ℕ → ℕ) (code : List UInt8) (ip : ℕ) :
    ℕ → ℕ → σ → Except (Halt σ) σ
  | 0, _, s => .ok s
  | fuel + 1, start, s =>
    if start < code.length then
      let rest := code.drop start
      match byteBefore4Gib (host + start) rest.length with
      | none => sliceFrom dec visit (host + start) rest (ip + start) rest.length 0 s
      | some last => do
        let (offset, s) ←
          sliceBefore dec visit (host + start) rest (ip + start) last rest.length 0 s
        let (offset, s) ← copiesFrom dec visit buffer rest (ip + start) last rest.length offset s
        eachFrom host buffer code ip fuel (start + offset) s
    else .ok s

/-- `decode_each`. -/
def decodeEachWith (host : ℕ) (buffer : ℕ → ℕ) (code : List UInt8) (ip : ℕ) (s : σ) :
    Except (Halt σ) σ :=
  eachFrom dec visit host buffer code ip code.length 0 s

/-- The instructions that `decode_each` passes to a visitor that never breaks.  Where the
    copies are does not matter. -/
def decodeEach (host : ℕ) (code : List UInt8) (ip : ℕ) : List Instruction :=
  match decodeEachWith dec (fun passed i => .ok (passed ++ [i])) host (fun _ => 0) code ip [] with
  | .ok passed => passed
  | .error _ => []

/-- The visitor on instructions in a row, until it breaks. -/
def visitAll : σ → List Instruction → Except (Halt σ) σ
  | s, [] => .ok s
  | s, i :: rest =>
    match visit s i with
    | .ok s => visitAll s rest
    | .error s => .error (.broken s)

end

/-! ## Bytes without the hazard -/

/-- None of the bytes at `address` is just below a multiple of 4 GiB. -/
def Clear (address length : ℕ) : Prop :=
  ∀ k < length, (address + k) % 2 ^ 32 ≠ 2 ^ 32 - 1

theorem Clear.part {address length position n : ℕ} (h : Clear address length)
    (hle : position + n ≤ length) : hasHazard (address + position) n = false := by
  simp only [hasHazard, any_eq_false, mem_range, decide_eq_true_eq]
  intro k hk
  rw [Nat.add_assoc]
  exact h _ (by omega)

theorem or_mask (address : ℕ) :
    address ||| (2 ^ 32 - 1) = 2 ^ 32 * (address / 2 ^ 32) + (2 ^ 32 - 1) := by
  refine Nat.eq_of_testBit_eq fun i => ?_
  rw [Nat.testBit_or, Nat.testBit_two_pow_mul_add _ (by decide),
    Nat.testBit_two_pow_sub_one, Nat.testBit_div_two_pow]
  by_cases hi : i < 32
  · simp [hi]
  · rw [Nat.sub_add_cancel (Nat.not_lt.1 hi)]
    simp [hi]

theorem byteBefore4Gib_clear (address length : ℕ) :
    match byteBefore4Gib address length with
    | none => Clear address length
    | some last => Clear address last ∧ (address + last) % 2 ^ 32 = 2 ^ 32 - 1 := by
  rw [byteBefore4Gib, or_mask]
  split_ifs with hlt
  · exact ⟨fun k hk => by omega, by omega⟩
  · exact fun k hk => by omega

theorem copyStart_clear (buffer : ℕ) : Clear (buffer + copyStart buffer) maxInstructionBytes := by
  have h := byteBefore4Gib_clear buffer copyBytes
  rw [copyStart]
  cases hb : byteBefore4Gib buffer copyBytes with
  | none =>
    rw [hb] at h
    exact fun k hk => h k (Nat.lt_trans hk (by decide))
  | some last =>
    rw [hb] at h
    dsimp only
    split_ifs with hlt
    · intro k hk
      simp only [maxInstructionBytes] at hlt hk ⊢
      omega
    · exact fun k hk => h.1 k (Nat.lt_of_lt_of_le hk (Nat.not_lt.1 hlt))

/-! ## The loops visit what one decoder gives -/

section
variable {σ : Type} {dec : Decoder} {visit : σ → Instruction → Except σ σ} {code slice : List UInt8}
  {address ip position last fuel : ℕ} {k : ℕ × σ → Except (Halt σ) σ}

theorem decodeOut_then {is : List Instruction}
    (hclear : hasHazard (address + position) (dec.at slice ip position).len = false)
    (hk : ∀ s, k ((dec.at slice ip position).len, s) = visitAll visit s is) (s : σ) :
    decodeOut dec visit address slice ip position s >>= k =
      visitAll visit s (dec.at slice ip position :: is) := by
  rw [decodeOut, hclear, visitAll]
  cases visit s (dec.at slice ip position) with
  | ok s => exact hk s
  | error s => rfl

theorem sliceFrom_eq (hclear : Clear address slice.length) (h : position ≤ slice.length)
    (hfuel : slice.length - position ≤ fuel) (s : σ) :
    sliceFrom dec visit address slice ip fuel position s =
      visitAll visit s (decodeAll dec slice ip position) := by
  induction fuel generalizing position s with
  | zero =>
    rw [sliceFrom, decodeAll_nil (by omega), visitAll]
  | succ fuel ih =>
    rw [sliceFrom]
    split_ifs with hlt
    · obtain ⟨hpos, hle⟩ := dec.at_len ip hlt
      rw [decodeAll_cons hlt]
      exact decodeOut_then (hclear.part hle) (fun s => ih hle (by omega) s) s
    · rw [decodeAll_nil (Nat.not_lt.1 hlt), visitAll]

theorem sliceBefore_then (hclear : Clear address last) (hlast : last < code.length)
    (hk : ∀ p s, p ≤ code.length → k (p, s) = visitAll visit s (decodeAll dec code ip p))
    (h : position ≤ code.length) (s : σ) :
    sliceBefore dec visit address code ip last fuel position s >>= k =
      visitAll visit s (decodeAll dec code ip position) := by
  induction fuel generalizing position s with
  | zero => exact hk position s h
  | succ fuel ih =>
    rw [sliceBefore]
    split_ifs with hle
    · have hlt : position < code.length := by omega
      rw [decodeAll_cons hlt, ← dec.at_take hle, bind_assoc]
      have hshort := dec.at_short ip hlt
      refine decodeOut_then (hclear.part ?_) (fun s => ?_) s
      · rw [dec.at_take hle]
        omega
      · rw [dec.at_take hle]
        exact ih (dec.at_len ip hlt).2 s
    · exact hk position s h

theorem copiesFrom_then (buffer : ℕ → ℕ) (hlast : last < code.length)
    (hk : ∀ p s, last < p → p ≤ code.length →
      k (p, s) = visitAll visit s (decodeAll dec code ip p))
    (h : position ≤ code.length) (hfuel : last < position + fuel) (s : σ) :
    copiesFrom dec visit buffer code ip last fuel position s >>= k =
      visitAll visit s (decodeAll dec code ip position) := by
  induction fuel generalizing position s with
  | zero => exact hk position s hfuel h
  | succ fuel ih =>
    rw [copiesFrom]
    split_ifs with hle
    · have hlt : position < code.length := by omega
      obtain ⟨hpos, hend⟩ := dec.at_len ip hlt
      have hcopy : dec.at ((code.drop position).take maxInstructionBytes) (ip + position) 0 =
          dec.at code ip position := by
        rw [Decoder.at, Decoder.at, drop_zero, take_take, Nat.min_self, Nat.add_zero]
      have hshort := dec.at_short ip hlt
      rw [decodeAll_cons hlt, ← hcopy, bind_assoc]
      refine decodeOut_then ((copyStart_clear _).part ?_) (fun s => ?_) s
      · rw [hcopy]
        omega
      · rw [hcopy]
        exact ih hend (by omega) s
    · exact hk position s (Nat.not_le.1 hle) h

theorem eachFrom_eq (host : ℕ) (buffer : ℕ → ℕ) (h : position ≤ code.length)
    (hfuel : code.length - position ≤ fuel) (s : σ) :
    eachFrom dec visit host buffer code ip fuel position s =
      visitAll visit s (decodeAll dec code ip position) := by
  induction fuel generalizing position s with
  | zero => rw [eachFrom, decodeAll_nil (by omega), visitAll]
  | succ fuel ih =>
    rw [eachFrom]
    split_ifs with hlt
    · have hlen : (code.drop position).length = code.length - position := length_drop
      have hclear := byteBefore4Gib_clear (host + position) (code.drop position).length
      rw [← Nat.add_zero position, ← decodeAll_drop, Nat.add_zero]
      dsimp only
      cases hbyte : byteBefore4Gib (host + position) (code.drop position).length with
      | none =>
        rw [hbyte] at hclear
        exact sliceFrom_eq hclear (Nat.zero_le _) (Nat.le_refl _) s
      | some last =>
        rw [hbyte] at hclear
        have hlast := byteBefore4Gib_lt hbyte
        refine sliceBefore_then hclear.1 hlast (fun p s hp => ?_) (Nat.zero_le _) s
        refine copiesFrom_then buffer hlast (fun p s hlt hp => ?_) hp (by omega) s
        rw [decodeAll_drop]
        exact ih (by omega) (by omega) s
    · rw [decodeAll_nil (Nat.not_lt.1 hlt), visitAll]

theorem decodeEachWith_eq (host : ℕ) (buffer : ℕ → ℕ) (s : σ) :
    decodeEachWith dec visit host buffer code ip s = visitAll visit s (decodeAll dec code ip 0) :=
  eachFrom_eq host buffer (Nat.zero_le _) (Nat.le_refl _) s

theorem visitAll_ne_panic (s : σ) (is : List Instruction) :
    visitAll visit s is ≠ .error .panic := by
  induction is generalizing s with
  | nil => nofun
  | cons i rest ih =>
    rw [visitAll]
    split
    · exact ih _
    · nofun

/-- **The piecewise decode is that of one decoder.**  Wherever the code and the copies are,
    and whatever the visitor does, it is passed the instructions of one decoder over the code
    until it breaks, and no decoder meets the byte just below a multiple of 4 GiB. -/
theorem decode_each_exact (dec : Decoder) (visit : σ → Instruction → Except σ σ) (host : ℕ)
    (buffer : ℕ → ℕ) (code : List UInt8) (ip : ℕ) (s : σ) :
    decodeEachWith dec visit host buffer code ip s = visitAll visit s (decodeAll dec code ip 0) ∧
      decodeEachWith dec visit host buffer code ip s ≠ .error .panic := by
  rw [decodeEachWith_eq]
  exact ⟨rfl, visitAll_ne_panic s _⟩

theorem visitAll_record (passed is : List Instruction) :
    visitAll (fun passed i => .ok (passed ++ [i])) passed is = .ok (passed ++ is) := by
  induction is generalizing passed with
  | nil => rw [visitAll, append_nil]
  | cons i rest ih => exact (ih _).trans (by rw [append_assoc, singleton_append])

theorem decodeEach_eq (host : ℕ) : decodeEach dec host code ip = decodeAll dec code ip 0 := by
  rw [decodeEach, decodeEachWith_eq, visitAll_record, nil_append]

end

end Reverie.LiteInst
