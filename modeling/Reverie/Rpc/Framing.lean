/-
  The frames are lossless (`framing_lossless`), if a payload has a length of 32 bits: a
  longer one has no frame (`framing_refuses_long`).
-/
import Reverie.Rpc.Codec

namespace Reverie.Rpc

open ByteStream List Source
open Bytes (length_toBe ofBe ofBe_toBe toBe)

/-! ## Bounded output -/

variable {limit len maxLen : ℕ} {rest payload : List UInt8}
  {turns : List Turn} {s s' : Source} {payloads : List (List UInt8)} {runtime : Runtime}

theorem BoundedWriter.write_length {w : BoundedWriter} (h : w.bytes.length ≤ limit)
    (bytes : List UInt8) : (w.write limit bytes).2.bytes.length ≤ limit := by
  rw [BoundedWriter.write]
  split_ifs with hexceeded hoverflow hlimit
  · exact h
  · exact h
  · exact h
  · show (w.bytes ++ bytes).length ≤ limit
    rw [length_append]
    exact Nat.le_of_not_lt hlimit

theorem Encoder.run_length (value : Encoder) : ∀ {w : BoundedWriter},
    w.bytes.length ≤ limit → (value.run limit w).2.bytes.length ≤ limit := by
  induction value with
  | done ok => exact fun h => h
  | write bytes next ih => exact fun h => ih _ (BoundedWriter.write_length h bytes)

theorem encodeBounded_length {value : Encoder} {bytes : List UInt8}
    (h : encodeBounded limit value = .ok bytes) : bytes.length ≤ limit := by
  have hrun := value.run_length (w := ⟨[], none⟩) (Nat.zero_le limit)
  rw [encodeBounded] at h
  split at h
  · cases h
  · split_ifs at h
    cases h
    exact hrun

/-! ## Headers -/

/-- A header is filled, however its bytes come and wherever it is interrupted. -/
theorem fillHeader_of_lives (n : ℕ) : ∀ (filled bytes : List UInt8)
    {turns : List Turn}, turns.length + (4 - filled.length) ≤ n → Lives turns →
      filled.length + bytes.length = 4 → ∃ turns', Lives turns' ∧
        fillHeader filled ⟨bytes ++ rest, turns⟩ = (.ok (filled ++ bytes), ⟨rest, turns'⟩) := by
  -- an interrupt uses up a turn, and a read fills a part
  induction n with
  | zero =>
    intro filled bytes turns hn hl hlen
    obtain rfl : bytes = [] := length_eq_zero_iff.1 (by omega)
    rw [fillHeader, if_pos (by omega)]
    exact ⟨turns, hl, by rw [append_nil, nil_append]⟩
  | succ n ih =>
    intro filled bytes turns hn hl hlen
    rw [fillHeader]
    by_cases hfull : 4 ≤ filled.length
    · obtain rfl : bytes = [] := length_eq_zero_iff.1 (by omega)
      rw [if_pos hfull]
      exact ⟨turns, hl, by rw [append_nil, nil_append]⟩
    rw [if_neg hfull]
    split
    · next s' hread =>
      have hnil := (read_ok hread).2.2.2 (by omega) rfl
      have hbytes : bytes = [] := (append_eq_nil_iff.1 hnil).1
      rw [hbytes, length_nil] at hlen
      omega
    · next b chunk s' hread =>
      obtain ⟨hbytes, hle, hturns, -⟩ := read_ok hread
      obtain ⟨tail, rfl⟩ := prefix_of_prefix_length_le ⟨_, hbytes.symm⟩
        (prefix_append bytes rest) (by omega)
      rw [append_assoc] at hbytes
      have hs' : s' = ⟨tail ++ rest, s'.turns⟩ := by
        rw [append_cancel_left hbytes]
      rw [length_append, length_cons] at hlen
      have hlength : s'.turns.length ≤ turns.length := hturns.length_le
      obtain ⟨turns', hl', hrest⟩ := ih (filled ++ b :: chunk) tail
        (by rw [length_append, length_cons]; omega) (hl.suffix hturns)
        (by rw [length_append, length_cons]; omega)
      refine ⟨turns', hl', ?_⟩
      rw [hs', hrest, append_assoc]
    · next s' hread =>
      obtain ⟨hbytes, ⟨turn, hturns⟩, -⟩ := read_error hread
      obtain rfl : turns = turn :: s'.turns := hturns
      have hs' : s' = ⟨bytes ++ rest, s'.turns⟩ := congrArg (Source.mk · s'.turns) hbytes
      rw [length_cons] at hn
      obtain ⟨turns', hl', hrest⟩ := ih filled bytes (by omega) (hl.suffix (suffix_cons _ _)) hlen
      refine ⟨turns', hl', ?_⟩
      rw [hs', hrest]
    · next e s' hne hread =>
      exfalso
      rcases (read_error hread).2.2 with ⟨rfl, -⟩ | ⟨rfl, hmem⟩
      · exact hne rfl
      · exact hl _ hmem rfl

/-- What a header was read from, and when the stream had ended. -/
structure Filled (filled : List UInt8) (s s' : Source) (result : Except RpcError (List UInt8)) :
    Prop where
  ok : ∀ header, result = .ok header →
    header.length = 4 ∧ ∃ bytes, header = filled ++ bytes ∧ s.bytes = bytes ++ s'.bytes
  closed : result = .error .closed → filled = [] ∧ s.bytes = []

theorem Filled.full {filled : List UInt8} (s : Source) (h : filled.length = 4) :
    Filled filled s s (.ok filled) := by
  refine ⟨fun header hok => ?_, fun hclosed => ?_⟩
  · cases hok
    exact ⟨h, [], (append_nil _).symm, rfl⟩
  · cases hclosed

theorem Filled.failed (filled : List UInt8) (s s' : Source) (e : IoError) :
    Filled filled s s' (.error (.io e)) := by
  refine ⟨fun header hok => ?_, fun hclosed => ?_⟩
  · cases hok
  · cases hclosed

theorem fillHeader_filled (n : ℕ) : ∀ (filled : List UInt8) (s : Source),
    s.turns.length + (4 - filled.length) ≤ n → filled.length ≤ 4 →
      Filled filled s (fillHeader filled s).2 (fillHeader filled s).1 := by
  induction n with
  | zero =>
    intro filled s hn hle
    rw [fillHeader, if_pos (by omega)]
    exact Filled.full s (by omega)
  | succ n ih =>
    intro filled s hn hle
    rw [fillHeader]
    by_cases hfull : 4 ≤ filled.length
    · rw [if_pos hfull]
      exact Filled.full s (by omega)
    rw [if_neg hfull]
    split
    · next s' hread =>
      have hnil := (read_ok hread).2.2.2 (by omega) rfl
      split_ifs with hfirst
      · refine ⟨fun header hok => ?_, fun _ => ⟨hfirst, hnil⟩⟩
        cases hok
      · exact Filled.failed filled s s' _
    · next b chunk s' hread =>
      obtain ⟨hbytes, hlen, hturns, -⟩ := read_ok hread
      have hlength := hturns.length_le
      rw [length_cons] at hlen
      have hrest := ih (filled ++ b :: chunk) s'
        (by rw [length_append, length_cons]; omega)
        (by rw [length_append, length_cons]; omega)
      refine ⟨fun header h => ?_, fun h => ?_⟩
      · obtain ⟨hfour, bytes, rfl, hrest⟩ := hrest.ok header h
        exact ⟨hfour, b :: chunk ++ bytes, by rw [append_assoc],
          by rw [hbytes, hrest, append_assoc]⟩
      · exact absurd (hrest.closed h).1 (by simp)
    · next s' hread =>
      obtain ⟨hbytes, ⟨turn, hturns⟩, -⟩ := read_error hread
      rw [hturns, length_cons] at hn
      have hrest := ih filled s' (by omega) hle
      exact ⟨hbytes ▸ hrest.ok, hbytes ▸ hrest.closed⟩
    · next e s' hne hread =>
      exact Filled.failed filled s s' e

/-! ## Messages -/

/-- The bytes of a payload's frame. -/
def frame (payload : List UInt8) : List UInt8 := toBe 4 payload.length ++ payload

theorem fillHeader_toBe (rest : List UInt8) (len : ℕ) (hl : Lives turns) :
    ∃ turns', Lives turns' ∧
      fillHeader [] ⟨toBe 4 len ++ rest, turns⟩ = (.ok (toBe 4 len), ⟨rest, turns'⟩) :=
  fillHeader_of_lives _ [] _ le_rfl hl (by rw [length_toBe, length_nil])

/-- **A frame is read, however its bytes come, and leaves what follows it.** -/
theorem readMessage_frame (runtime : Runtime) (rest : List UInt8)
    (hmax : payload.length ≤ maxLen) (hlen : payload.length < 2 ^ 32) (hl : Lives turns) :
    ∃ turns', Lives turns' ∧
      readMessage runtime maxLen ⟨frame payload ++ rest, turns⟩ = (.ok payload, ⟨rest, turns'⟩) := by
  obtain ⟨turns₁, hl₁, hfill⟩ := fillHeader_toBe (payload ++ rest) payload.length hl
  obtain ⟨turns₂, hl₂, hread⟩ := runtime.readExact_lives payload rest hl₁
  refine ⟨turns₂, hl₂, ?_⟩
  rw [readMessage, frame, append_assoc, hfill]
  dsimp only
  rw [ofBe_toBe hlen, if_neg (Nat.not_lt.2 hmax), hread]

/-- A frame that announces too much is refused, and none of its payload is read. -/
theorem readMessage_tooLarge (hlen : len < 2 ^ 32) (hmax : maxLen < len) (hl : Lives turns) :
    ∃ turns', readMessage runtime maxLen ⟨toBe 4 len ++ rest, turns⟩ =
      (.error (.frameTooLarge len maxLen), ⟨rest, turns'⟩) := by
  obtain ⟨turns', -, hfill⟩ := fillHeader_toBe rest len hl
  refine ⟨turns', ?_⟩
  rw [readMessage, hfill]
  dsimp only
  rw [ofBe_toBe hlen, if_pos hmax]

/-- A message is read only from a whole frame that announces no more than the bound. -/
theorem readMessage_ok (h : readMessage runtime maxLen s = (.ok payload, s')) :
    ∃ header, header.length = 4 ∧ ofBe header = payload.length ∧ payload.length ≤ maxLen ∧
      s.bytes = header ++ payload ++ s'.bytes := by
  have hfilled := fillHeader_filled _ [] s le_rfl (Nat.zero_le 4)
  rw [readMessage] at h
  rcases hfill : fillHeader [] s with ⟨e | header, s₁⟩
  · rw [hfill] at h
    cases h
  · rw [hfill] at h hfilled
    dsimp only at h
    obtain ⟨hfour, bytes, hheader, hbytes⟩ := hfilled.ok header rfl
    obtain rfl : header = bytes := hheader
    by_cases hmax : maxLen < ofBe header
    · rw [if_pos hmax] at h
      cases h
    rw [if_neg hmax] at h
    split at h
    · cases h
    · next buf s₂ hread =>
      cases h
      obtain ⟨hpayload, hlength⟩ := runtime.readExact_ok hread
      refine ⟨header, hfour, hlength.symm, hlength ▸ Nat.le_of_not_lt hmax, ?_⟩
      rw [append_assoc, ← hpayload]
      exact hbytes

/-- The end is reported only where the stream ends at a frame boundary. -/
theorem readMessage_closed (h : readMessage runtime maxLen s = (.error .closed, s')) :
    s.bytes = [] := by
  have hfilled := fillHeader_filled _ [] s le_rfl (Nat.zero_le 4)
  rw [readMessage] at h
  rcases hfill : fillHeader [] s with ⟨e | header, s₁⟩
  · rw [hfill] at h hfilled
    cases h
    exact (hfilled.closed rfl).2
  · rw [hfill] at h
    dsimp only at h
    by_cases hmax : maxLen < ofBe header
    · rw [if_pos hmax] at h
      cases h
    · rw [if_neg hmax] at h
      split at h <;> cases h

theorem readMessage_truncated {head tail : List UInt8} (hlen : payload.length < 2 ^ 32)
    (hcut : frame payload = head ++ tail) (hhead : head ≠ []) (htail : tail ≠ []) :
    ∃ e s', readMessage runtime maxLen ⟨head, turns⟩ = (.error e, s') ∧ e ≠ .closed := by
  rcases hread : readMessage runtime maxLen ⟨head, turns⟩ with ⟨e | read, s'⟩
  · refine ⟨e, s', rfl, ?_⟩
    rintro rfl
    exact hhead (readMessage_closed hread)
  · -- the header that was read is that of the frame, which announces more than is there
    exfalso
    obtain ⟨header, hfour, hannounced, -, rfl⟩ := readMessage_ok hread
    rw [frame, append_assoc, append_assoc] at hcut
    obtain ⟨rfl, hpayload⟩ := append_inj hcut ((length_toBe _ _).trans hfour.symm)
    rw [ofBe_toBe hlen] at hannounced
    have hlength := congrArg List.length hpayload
    rw [length_append, length_append] at hlength
    exact htail (length_eq_zero_iff.1 (by omega))

/-! ## Sequences of messages -/

theorem writeMessage_of_lives (runtime : Runtime) (bytes : List UInt8)
    (hlen : payload.length < 2 ^ 32) (hl : Lives turns) : ∃ turns', Lives turns' ∧
      writeMessage runtime ⟨bytes, turns⟩ payload = (.ok (), ⟨bytes ++ frame payload, turns'⟩) := by
  obtain ⟨turns₁, hl₁, hheader⟩ := runtime.writeAll_lives bytes (toBe 4 payload.length) hl
  obtain ⟨turns₂, hl₂, hpayload⟩ :=
    runtime.writeAll_lives (bytes ++ toBe 4 payload.length) payload hl₁
  obtain ⟨turns₃, hl₃, hflush⟩ :=
    runtime.flush_lives (bytes ++ toBe 4 payload.length ++ payload) hl₂
  refine ⟨turns₃, hl₃, ?_⟩
  rw [writeMessage, if_neg (Nat.not_le.2 hlen), hheader]
  dsimp only
  rw [hpayload]
  dsimp only
  rw [hflush, frame, append_assoc]

theorem writeMessages_of_lives : ∀ (bytes : List UInt8) {turns : List Turn},
    (∀ payload ∈ payloads, payload.length < 2 ^ 32) → Lives turns →
      ∃ turns', writeMessages runtime ⟨bytes, turns⟩ payloads =
        (.ok (), ⟨bytes ++ payloads.flatMap frame, turns'⟩) := by
  induction payloads with
  | nil =>
    intro bytes turns _ _
    exact ⟨turns, by rw [writeMessages, flatMap_nil, append_nil]⟩
  | cons payload payloads ih =>
    intro bytes turns hlen hl
    obtain ⟨turns₁, hl₁, hone⟩ :=
      writeMessage_of_lives runtime bytes (hlen payload mem_cons_self) hl
    obtain ⟨turns₂, hrest⟩ := ih (bytes ++ frame payload)
      (fun p hp => hlen p (mem_cons_of_mem _ hp)) hl₁
    refine ⟨turns₂, ?_⟩
    rw [writeMessages, hone]
    dsimp only
    rw [hrest, flatMap_cons, append_assoc]

/-- At the end of the stream, however often it is interrupted, the end is reported. -/
theorem fillHeader_end (hl : Lives turns) :
    ∃ s, fillHeader [] ⟨[], turns⟩ = (.error .closed, s) := by
  induction turns with
  | nil => exact ⟨⟨[], []⟩, by rw [fillHeader]; rfl⟩
  | cons turn turns ih =>
    have hrest := hl.suffix (suffix_cons turn turns)
    cases turn with
    | gives n =>
      have hread : Source.read ⟨[], .gives n :: turns⟩ 4 = (.ok [], ⟨[], turns⟩) := by
        simp only [Source.read, Source.give, take_nil, drop_nil]
      refine ⟨⟨[], turns⟩, ?_⟩
      rw [fillHeader, if_neg (by decide)]
      split <;> simp_all
    | interrupted =>
      obtain ⟨s, hs⟩ := ih hrest
      exact ⟨s, by rw [fillHeader]; exact hs⟩
    | failed => exact absurd rfl (hl _ mem_cons_self)

theorem readMessages_frames : ∀ {turns : List Turn},
    (∀ payload ∈ payloads, payload.length ≤ maxLen ∧ payload.length < 2 ^ 32) → Lives turns →
      readMessages runtime maxLen (payloads.length + 1) ⟨payloads.flatMap frame, turns⟩ =
        payloads.map .ok ++ [.error .closed] := by
  induction payloads with
  | nil =>
    intro turns _ hl
    obtain ⟨s, hs⟩ := fillHeader_end hl
    have hread : readMessage runtime maxLen ⟨[], turns⟩ = (.error .closed, s) := by
      rw [readMessage, hs]
    rw [flatMap_nil, readMessages, hread]
    rfl
  | cons payload payloads ih =>
    intro turns hlen hl
    obtain ⟨hmax, hsmall⟩ := hlen payload mem_cons_self
    obtain ⟨turns', hl', hread⟩ :=
      readMessage_frame runtime (payloads.flatMap frame) hmax hsmall hl
    rw [length_cons, flatMap_cons, readMessages, hread]
    dsimp only
    rw [ih (fun p hp => hlen p (mem_cons_of_mem _ hp)) hl']
    rfl

/-- **Messages that are written are read, in order, and then the end**, however the bytes
    are cut into reads and writes and wherever these are interrupted, if no payload is longer
    than the bound or than 32 bits can say.  The end is reported only at a frame boundary, a
    frame cut short is another error, one that announces too much is refused before its
    payload is read, and no more than the bound is encoded. -/
theorem framing_lossless (runtime : Runtime) (maxLen : ℕ) :
    (∀ (payloads : List (List UInt8)) (writes reads : List Turn),
      (∀ payload ∈ payloads, payload.length ≤ maxLen ∧ payload.length < 2 ^ 32) →
      Lives writes → Lives reads →
        ∃ writer, writeMessages runtime ⟨[], writes⟩ payloads = (.ok (), writer) ∧
          readMessages runtime maxLen (payloads.length + 1) ⟨writer.bytes, reads⟩ =
            payloads.map .ok ++ [.error .closed]) ∧
    (∀ s s', readMessage runtime maxLen s = (.error .closed, s') → s.bytes = []) ∧
    (∀ (payload head tail : List UInt8) (turns : List Turn),
      payload.length < 2 ^ 32 → frame payload = head ++ tail → head ≠ [] → tail ≠ [] →
        ∃ e s', readMessage runtime maxLen ⟨head, turns⟩ = (.error e, s') ∧ e ≠ .closed) ∧
    (∀ (len : ℕ) (rest : List UInt8) (turns : List Turn),
      len < 2 ^ 32 → maxLen < len → Lives turns →
        ∃ turns', readMessage runtime maxLen ⟨toBe 4 len ++ rest, turns⟩ =
          (.error (.frameTooLarge len maxLen), ⟨rest, turns'⟩)) ∧
    (∀ (limit : ℕ) (value : Encoder) (bytes : List UInt8),
      encodeBounded limit value = .ok bytes → bytes.length ≤ limit) := by
  refine ⟨?_, fun s s' => readMessage_closed, ?_, ?_, fun limit value bytes => encodeBounded_length⟩
  · intro payloads writes reads hlen hw hr
    obtain ⟨turns', hwrite⟩ := writeMessages_of_lives [] (fun p hp => (hlen p hp).2) hw
    exact ⟨_, hwrite, readMessages_frames hlen hr⟩
  · intro payload head tail turns hlen hcut hhead htail
    exact readMessage_truncated hlen hcut hhead htail
  · intro len rest turns hlen hmax hl
    exact readMessage_tooLarge hlen hmax hl

/-- A runtime that passes over every turn that gives no bytes. -/
def Runtime.sample : Runtime where
  readExact s len :=
    if s.bytes.length < len then (.error .unexpectedEof, ⟨[], []⟩)
    else (.ok (s.bytes.take len), ⟨s.bytes.drop len, s.turns.drop 1⟩)
  writeAll w data := (.ok (), ⟨w.bytes ++ data, w.turns.drop 1⟩)
  flush w := (.ok (), w)
  readExact_ok {s s' len data} h := by
    split_ifs at h with hlen
    · cases h
    · cases h
      exact ⟨(take_append_drop len s.bytes).symm, length_take_of_le (Nat.le_of_not_lt hlen)⟩
  readExact_lives {turns} data rest hl := by
    refine ⟨turns.drop 1, hl.suffix (drop_suffix 1 turns), ?_⟩
    rw [if_neg (by rw [length_append]; omega), take_left, drop_left]
  writeAll_lives {turns} bytes data hl := ⟨turns.drop 1, hl.suffix (drop_suffix 1 turns), rfl⟩
  flush_lives bytes hl := ⟨_, hl, rfl⟩

/-- Two messages, with interrupts in the writes, in a header and in a payload. -/
theorem framing_lossless_sample :
    ∃ writer, writeMessages .sample ⟨[], [.gives 0, .interrupted]⟩ [[7, 8], []] = (.ok (), writer) ∧
      readMessages .sample 3 3 ⟨writer.bytes, [.gives 1, .interrupted, .gives 1, .interrupted]⟩ =
        [.ok [7, 8], .ok [], .error .closed] :=
  (framing_lossless .sample 3).1 [[7, 8], []] [.gives 0, .interrupted]
    [.gives 1, .interrupted, .gives 1, .interrupted]
    (by simp) (by simp [Lives]) (by simp [Lives])

/-- A payload of `2 ^ 32` bytes has no frame, whatever the bound of the reader. -/
theorem framing_refuses_long :
    writeMessages .sample ⟨[], []⟩ [replicate (2 ^ 32) 0] =
      (.error (.frameTooLarge (2 ^ 32) (2 ^ 32 - 1)), ⟨[], []⟩) := by
  rw [writeMessages, writeMessage, length_replicate, if_pos le_rfl]

end Reverie.Rpc
