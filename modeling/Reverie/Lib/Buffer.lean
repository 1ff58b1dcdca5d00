/-
  Buffers that are read and written in pieces.

  `read_write_self`, `read_write_of_disjoint`: what a write does to a read of the same
  piece, and to one of another piece; `read_writes`, `read_writes_of_misses`: the same for
  writes in a row.
-/
import Mathlib

namespace Buffer
open List

variable {α : Type} {buf data : List α} {offset len : ℕ}

/-- The piece of `len` entries at an offset. -/
def read (buf : List α) (offset len : ℕ) : List α := (buf.drop offset).take len

/-- Data written at an offset. -/
def write (buf : List α) (offset : ℕ) (data : List α) : List α :=
  buf.take offset ++ data ++ buf.drop (offset + data.length)

theorem length_read (h : offset + len ≤ buf.length) : (read buf offset len).length = len := by
  rw [read, length_take, length_drop]
  omega

theorem length_write (h : offset + data.length ≤ buf.length) :
    (write buf offset data).length = buf.length := by
  rw [write, length_append, length_append, length_take, length_drop]
  omega

theorem read_add (buf : List α) (offset len len' : ℕ) :
    read buf offset (len + len') = read buf offset len ++ read buf (offset + len) len' := by
  rw [read, read, read, take_add, drop_drop]

theorem read_write_self (h : offset ≤ buf.length) :
    read (write buf offset data) offset data.length = data := by
  have hlen : (buf.take offset).length = offset := by
    rw [length_take]
    omega
  rw [read, write, append_assoc]
  nth_rewrite 1 [← hlen]
  rw [drop_left, take_left]

theorem read_write_of_disjoint {o : ℕ} (h : o + data.length ≤ buf.length)
    (hd : offset + len ≤ o ∨ o + data.length ≤ offset) :
    read (write buf o data) offset len = read buf offset len := by
  refine ext_getElem? fun i => ?_
  rw [read, read, getElem?_take, getElem?_take]
  split_ifs with hi
  · rw [getElem?_drop, getElem?_drop, write]
    rcases hd with hd | hd
    · rw [append_assoc, getElem?_append_left, getElem?_take, if_pos (by omega)]
      rw [length_take]
      omega
    · have hlen : (buf.take o ++ data).length = o + data.length := by
        rw [length_append, length_take]
        omega
      rw [getElem?_append_right (by omega), getElem?_drop]
      congr 1
      omega
  · rfl

theorem read_take {n : ℕ} (h : offset + len ≤ n) :
    read (buf.take n) offset len = read buf offset len := by
  rw [read, read, drop_take, take_take, Nat.min_eq_left (by omega)]

theorem read_read {o n : ℕ} (h : o + n ≤ len) :
    read (read buf offset len) o n = read buf (offset + o) n := by
  rw [show read buf offset len = (buf.drop offset).take len from rfl, read_take h, read, read,
    drop_drop]

theorem read_piece (before piece after : List α) (ho : before.length = offset)
    (hl : piece.length = len) : read (before ++ piece ++ after) offset len = piece := by
  subst ho hl
  rw [read, append_assoc, drop_left, take_left]

/-! ## Writes in a row -/

/-- Pieces written one after the other. -/
def writes (buf : List α) (pieces : List (ℕ × List α)) : List α :=
  pieces.foldl (fun buf piece => write buf piece.1 piece.2) buf

/-- Every piece is within the size. -/
def Fits (size : ℕ) (pieces : List (ℕ × List α)) : Prop :=
  ∀ piece ∈ pieces, piece.1 + piece.2.length ≤ size

/-- No piece is written over `len` entries at an offset. -/
def Misses (offset len : ℕ) (pieces : List (ℕ × List α)) : Prop :=
  ∀ piece ∈ pieces, offset + len ≤ piece.1 ∨ piece.1 + piece.2.length ≤ offset

variable {pieces : List (ℕ × List α)}

theorem length_writes (h : Fits buf.length pieces) : (writes buf pieces).length = buf.length := by
  induction pieces generalizing buf with
  | nil => rfl
  | cons piece pieces ih =>
    have hlen := length_write (h piece mem_cons_self)
    refine (ih fun p hp => ?_).trans hlen
    rw [hlen]
    exact h p (mem_cons_of_mem _ hp)

theorem read_writes_of_misses (h : Fits buf.length pieces) (hm : Misses offset len pieces) :
    read (writes buf pieces) offset len = read buf offset len := by
  induction pieces generalizing buf with
  | nil => rfl
  | cons piece pieces ih =>
    have hfit := h piece mem_cons_self
    refine (ih (fun p hp => ?_) fun p hp => hm p (mem_cons_of_mem _ hp)).trans
      (read_write_of_disjoint hfit (hm piece mem_cons_self))
    rw [length_write hfit]
    exact h p (mem_cons_of_mem _ hp)

theorem read_writes {before after : List (ℕ × List α)}
    (h : Fits buf.length (before ++ (offset, data) :: after))
    (hm : Misses offset data.length after) :
    read (writes buf (before ++ (offset, data) :: after)) offset data.length = data := by
  have hbefore := length_writes fun p hp => h p (mem_append_left _ hp)
  have hone : offset + data.length ≤ buf.length :=
    h (offset, data) (mem_append_right _ mem_cons_self)
  rw [writes, foldl_append]
  change read (writes (write (writes buf before) offset data) after) offset data.length = data
  refine (read_writes_of_misses (fun p hp => ?_) hm).trans (read_write_self ?_)
  · rw [length_write (le_of_le_of_eq hone hbefore.symm), hbefore]
    exact h p (mem_append_right _ (mem_cons_of_mem _ hp))
  · rw [hbefore]
    exact Nat.le_of_add_right_le hone

theorem read_writes_at (k : ℕ) (h : Fits buf.length pieces) (hk : pieces[k]? = some (offset, data))
    (hm : Misses offset data.length (pieces.drop (k + 1))) :
    read (writes buf pieces) offset data.length = data := by
  obtain ⟨hlt, hget⟩ := List.getElem?_eq_some_iff.1 hk
  have hsplit : pieces = pieces.take k ++ (offset, data) :: pieces.drop (k + 1) := by
    rw [← hget, ← List.drop_eq_getElem_cons hlt, List.take_append_drop]
  rw [hsplit] at h ⊢
  exact read_writes h hm

/-! ## Pieces in places of their own -/

/-- Where the pieces are. -/
def spans (pieces : List (ℕ × List α)) : List (ℕ × ℕ) :=
  pieces.map fun piece => (piece.1, piece.2.length)

/-- The spans lie inside a buffer, and no two of them meet. -/
def Spaced (size : ℕ) (spans : List (ℕ × ℕ)) : Prop :=
  (∀ span ∈ spans, span.1 + span.2 ≤ size) ∧
    spans.Pairwise fun a b => a.1 + a.2 ≤ b.1 ∨ b.1 + b.2 ≤ a.1

instance (size : ℕ) (spans : List (ℕ × ℕ)) : Decidable (Spaced size spans) :=
  inferInstanceAs (Decidable (_ ∧ _))

theorem Spaced.fits {size : ℕ} (h : Spaced size (spans pieces)) : Fits size pieces :=
  fun _ hpiece => h.1 _ (mem_map_of_mem hpiece)

theorem Spaced.read_writes (h : Spaced buf.length (spans pieces)) (hm : (offset, data) ∈ pieces)
    (hl : data.length = len) : read (writes buf pieces) offset len = data := by
  subst hl
  obtain ⟨before, after, rfl⟩ := append_of_mem hm
  refine Buffer.read_writes h.fits fun piece hpiece => ?_
  have hapart := pairwise_append.1 (pairwise_map.1 h.2)
  exact (pairwise_cons.1 hapart.2.1).1 piece hpiece

/-! ## Words of the same length -/

/-- The words of a memory, one after the other. -/
def concat (word : ℕ → List α) (n : ℕ) : List α := (List.range n).flatMap word

variable {word : ℕ → List α} {w n i : ℕ}

theorem concat_succ (word : ℕ → List α) (n : ℕ) : concat word (n + 1) = concat word n ++ word n := by
  rw [concat, concat, range_succ, flatMap_append, flatMap_singleton]

theorem length_concat (hw : ∀ i, (word i).length = w) (n : ℕ) : (concat word n).length = n * w := by
  induction n with
  | zero => rw [Nat.zero_mul]; rfl
  | succ n ih => rw [concat_succ, length_append, ih, hw, Nat.succ_mul]

theorem read_concat (hw : ∀ i, (word i).length = w) (rest : List α) (hi : i < n) :
    read (concat word n ++ rest) (i * w) w = word i := by
  induction n generalizing rest with
  | zero => exact absurd hi (Nat.not_lt_zero _)
  | succ n ih =>
    rw [concat_succ, append_assoc]
    rcases Nat.lt_succ_iff_lt_or_eq.1 hi with hlt | rfl
    · exact ih _ hlt
    · rw [read, ← length_concat hw i, drop_left, ← hw i, take_left]

end Buffer
