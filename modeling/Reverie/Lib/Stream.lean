/-
  Byte streams that are read and written in pieces.  A source decides at each turn how many
  bytes it gives (`read_ok`); a turn may also be interrupted or fail (`read_error`).
-/
import Mathlib

namespace ByteStream
open List

/-- What a stream does when it is asked. -/
inductive Turn where
  /-- at most `n + 1` bytes -/
  | gives (n : ℕ)
  | interrupted
  | failed

/-- The errors of a stream, and those of the functions that wait for a whole. -/
inductive IoError where
  | interrupted
  | failed
  | unexpectedEof
  | writeZero

/-- The stream may be interrupted, but does not fail. -/
def Lives (turns : List Turn) : Prop := ∀ turn ∈ turns, turn ≠ .failed

theorem Lives.suffix {turns turns' : List Turn} (h : Lives turns) (hs : turns' <:+ turns) :
    Lives turns' :=
  fun turn ht => h turn (hs.subset ht)

/-- The bytes that were taken, and the turns to come. -/
structure Sink where
  bytes : List UInt8
  turns : List Turn

/-- The bytes still to be read, and the turns to come. -/
structure Source where
  bytes : List UInt8
  turns : List Turn

/-- What the source gives of `len` bytes. -/
def Source.give (s : Source) (len : ℕ) (turns : List Turn) : Except IoError (List UInt8) × Source :=
  (.ok (s.bytes.take len), ⟨s.bytes.drop len, turns⟩)

/-- One read into a buffer of `len` bytes. -/
def Source.read (s : Source) (len : ℕ) : Except IoError (List UInt8) × Source :=
  match s.turns with
  | [] => s.give len []
  | .gives n :: turns => s.give (min len (n + 1)) turns
  | .interrupted :: turns => (.error .interrupted, ⟨s.bytes, turns⟩)
  | .failed :: turns => (.error .failed, ⟨s.bytes, turns⟩)

theorem Source.read_ok {s s' : Source} {len : ℕ} {chunk : List UInt8}
    (h : s.read len = (.ok chunk, s')) :
    s.bytes = chunk ++ s'.bytes ∧ chunk.length ≤ len ∧ s'.turns <:+ s.turns ∧
      (0 < len → chunk = [] → s.bytes = []) := by
  have hgive : ∀ {n : ℕ} {turns : List Turn}, s.give n turns = (.ok chunk, s') → n ≤ len →
      (0 < len → 0 < n) → turns <:+ s.turns → s.bytes = chunk ++ s'.bytes ∧ chunk.length ≤ len ∧
        s'.turns <:+ s.turns ∧ (0 < len → chunk = [] → s.bytes = []) := by
    intro n turns hg hn hpos hsuffix
    cases hg
    refine ⟨(take_append_drop n s.bytes).symm, ?_, hsuffix, fun hlen hnil => ?_⟩
    · rw [length_take]
      omega
    · rcases take_eq_nil_iff.1 hnil with hzero | hnil
      · exact absurd hzero (hpos hlen).ne'
      · exact hnil
  rw [Source.read] at h
  split at h
  · exact hgive h le_rfl id nil_suffix
  · next n turns hturns =>
    exact hgive h (min_le_left _ _) (fun hlen => by omega) (hturns ▸ suffix_cons _ _)
  · cases h
  · cases h

theorem Source.read_error {s s' : Source} {len : ℕ} {e : IoError}
    (h : s.read len = (.error e, s')) :
    s'.bytes = s.bytes ∧ (∃ turn, s.turns = turn :: s'.turns) ∧
      (e = .interrupted ∧ .interrupted ∈ s.turns ∨ e = .failed ∧ .failed ∈ s.turns) := by
  rw [Source.read] at h
  split at h
  · cases h
  · cases h
  · next turns hturns =>
    cases h
    exact ⟨rfl, ⟨_, hturns⟩, Or.inl ⟨rfl, hturns ▸ mem_cons_self⟩⟩
  · next turns hturns =>
    cases h
    exact ⟨rfl, ⟨_, hturns⟩, Or.inr ⟨rfl, hturns ▸ mem_cons_self⟩⟩

end ByteStream
