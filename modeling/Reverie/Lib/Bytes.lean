/-
  Numbers as bytes, the lowest first (`ofLe_toLe`, `toLe_ofLe`) or last (`ofBe_toBe`,
  `toBe_ofBe`), and lists cut into chunks (`take_append_chunk`, `take_chunkCount`).
-/
import Mathlib

namespace Bytes
open List

/-- The `w` low bytes of a number, the lowest first. -/
def toLe : ℕ → ℕ → List UInt8
  | 0, _ => []
  | w + 1, n => UInt8.ofNat n :: toLe w (n / 256)

/-- The number with these bytes, the lowest first. -/
def ofLe : List UInt8 → ℕ
  | [] => 0
  | b :: bs => b.toNat + 256 * ofLe bs

@[simp] theorem length_toLe (w n : ℕ) : (toLe w n).length = w := by
  induction w generalizing n with
  | zero => rfl
  | succ w ih => simp [toLe, ih]

theorem ofLe_toLe {w n : ℕ} (h : n < 256 ^ w) : ofLe (toLe w n) = n := by
  induction w generalizing n with
  | zero =>
    simp only [pow_zero, Nat.lt_one_iff] at h
    simp [toLe, ofLe, h]
  | succ w ih =>
    have hdiv : n / 256 < 256 ^ w := by
      omega
    have hbyte : (UInt8.ofNat n).toNat = n % 256 := by simp
    rw [toLe, ofLe, ih hdiv]
    omega

theorem ofLe_lt (bs : List UInt8) : ofLe bs < 256 ^ bs.length := by
  induction bs with
  | nil => simp [ofLe]
  | cons b bs ih =>
    have hb := b.toNat_lt
    rw [ofLe, length_cons]
    omega

theorem ofLe_append (bs cs : List UInt8) : ofLe (bs ++ cs) = ofLe bs + 256 ^ bs.length * ofLe cs := by
  induction bs with
  | nil => simp [ofLe]
  | cons b bs ih =>
    rw [cons_append, ofLe, ofLe, ih, length_cons]
    ring

theorem toLe_ofLe (bs : List UInt8) : toLe bs.length (ofLe bs) = bs := by
  induction bs with
  | nil => rfl
  | cons b bs ih =>
    have hb := b.toNat_lt
    have hbyte : UInt8.ofNat (b.toNat + 256 * ofLe bs) = b := by
      refine UInt8.toNat_inj.1 ?_
      rw [UInt8.toNat_ofNat']
      omega
    have hdiv : (b.toNat + 256 * ofLe bs) / 256 = ofLe bs := by omega
    rw [length_cons, ofLe, toLe, hbyte, hdiv, ih]

/-! ## The highest byte first -/

/-- The `w` low bytes of a number, the highest first. -/
def toBe (w n : ℕ) : List UInt8 := (toLe w n).reverse

/-- The number with these bytes, the highest first. -/
def ofBe (bs : List UInt8) : ℕ := ofLe bs.reverse

theorem length_toBe (w n : ℕ) : (toBe w n).length = w := by
  rw [toBe, length_reverse, length_toLe]

theorem ofBe_toBe {w n : ℕ} (h : n < 256 ^ w) : ofBe (toBe w n) = n := by
  rw [ofBe, toBe, reverse_reverse, ofLe_toLe h]

theorem toBe_ofBe {w : ℕ} {bs : List UInt8} (h : bs.length = w) : toBe w (ofBe bs) = bs := by
  rw [toBe, ofBe, ← h, ← length_reverse, toLe_ofLe, reverse_reverse]

/-! ## Chunks -/

section
variable {α : Type}

/-- The `k`-th piece of a list that is cut into pieces of length `n`; the last
    piece may be shorter. -/
def chunk (n : ℕ) (xs : List α) (k : ℕ) : List α := (xs.drop (k * n)).take n

/-- The number of these pieces. -/
def chunkCount (n : ℕ) (xs : List α) : ℕ := (xs.length + n - 1) / n

variable {n k : ℕ} {xs : List α}

theorem take_append_chunk : xs.take (k * n) ++ chunk n xs k = xs.take ((k + 1) * n) := by
  rw [chunk, Nat.succ_mul, take_add]

theorem take_chunkCount (hn : 0 < n) : xs.take (chunkCount n xs * n) = xs := by
  refine take_of_length_le ?_
  rw [chunkCount]
  have := Nat.div_add_mod (xs.length + n - 1) n
  have := Nat.mod_lt (xs.length + n - 1) hn
  rw [Nat.mul_comm]
  omega

end

end Bytes
