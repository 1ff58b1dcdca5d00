/-
  Length-prefixed frames over a byte stream (`codec.rs`).  `readMessage` fills the header in a
  loop of its own; the payload and the frames are left to functions of the runtime, which are
  parameters with what they promise (`Runtime`).
-/
import Reverie.Lib.Stream
import Reverie.Lib.Bytes

namespace Reverie.Rpc

open ByteStream
open Bytes (ofBe toBe)

/-- The errors of a message. -/
inductive RpcError where
  | closed
  | io (error : IoError)
  | frameTooLarge (len max : ℕ)
  | encode

/-! ## Bounded output -/

/-- What a serializer does with its writer: writes, each of which may fail, and a result. -/
inductive Encoder where
  | done (ok : Bool)
  | write (bytes : List UInt8) (next : Bool → Encoder)

/-- What was written so far, and the length that exceeded the bound. -/
structure BoundedWriter where
  bytes : List UInt8
  exceeded : Option ℕ

/-- `BoundedWriter::write`: whether the bytes were taken. -/
def BoundedWriter.write (limit : ℕ) (w : BoundedWriter) (bytes : List UInt8) :
    Bool × BoundedWriter :=
  if w.exceeded.isSome then (false, w)
  else if 2 ^ 64 ≤ w.bytes.length + bytes.length then
    (false, { w with exceeded := some (2 ^ 64 - 1) })
  else if limit < w.bytes.length + bytes.length then
    (false, { w with exceeded := some (w.bytes.length + bytes.length) })
  else (true, { w with bytes := w.bytes ++ bytes })

/-- `encode_into_writer`: whether the serializer succeeded. -/
def Encoder.run (limit : ℕ) : Encoder → BoundedWriter → Bool × BoundedWriter
  | .done ok, w => (ok, w)
  | .write bytes next, w => (next (w.write limit bytes).1).run limit (w.write limit bytes).2

/-- Serializes a value into at most `limit` bytes. -/
def encodeBounded (limit : ℕ) (value : Encoder) : Except RpcError (List UInt8) :=
  match (value.run limit ⟨[], none⟩).2.exceeded with
  | some len => throw (.frameTooLarge len limit)
  | none =>
    if (value.run limit ⟨[], none⟩).1 then pure (value.run limit ⟨[], none⟩).2.bytes
    else throw .encode

/-! ## Frames -/

/-- The functions of the runtime that codecs call (`AsyncReadExt::read_exact`,
    `AsyncWriteExt::write_all` and `AsyncWriteExt::flush` of tokio), with what they promise.
    Each goes on after an interrupted turn, so that a stream that does not fail lets them do
    the whole. -/
structure Runtime where
  readExact : Source → ℕ → Except IoError (List UInt8) × Source
  writeAll : Sink → List UInt8 → Except IoError Unit × Sink
  flush : Sink → Except IoError Unit × Sink
  /-- the bytes that are returned are the next ones, and no others are taken -/
  readExact_ok : ∀ {s s' : Source} {len : ℕ} {data : List UInt8},
    readExact s len = (.ok data, s') → s.bytes = data ++ s'.bytes ∧ data.length = len
  readExact_lives : ∀ {turns : List Turn} (data rest : List UInt8), Lives turns → ∃ turns',
    Lives turns' ∧ readExact ⟨data ++ rest, turns⟩ data.length = (.ok data, ⟨rest, turns'⟩)
  writeAll_lives : ∀ {turns : List Turn} (bytes data : List UInt8), Lives turns → ∃ turns',
    Lives turns' ∧ writeAll ⟨bytes, turns⟩ data = (.ok (), ⟨bytes ++ data, turns'⟩)
  flush_lives : ∀ {turns : List Turn} (bytes : List UInt8), Lives turns → ∃ turns',
    Lives turns' ∧ flush ⟨bytes, turns⟩ = (.ok (), ⟨bytes, turns'⟩)

section
variable (runtime : Runtime)

/-- Writes a payload as one frame, and flushes it. -/
def writeMessage (writer : Sink) (payload : List UInt8) : Except RpcError Unit × Sink :=
  if 2 ^ 32 ≤ payload.length then (.error (.frameTooLarge payload.length (2 ^ 32 - 1)), writer)
  else match runtime.writeAll writer (toBe 4 payload.length) with
    | (.error e, writer) => (.error (.io e), writer)
    | (.ok (), writer) => match runtime.writeAll writer payload with
      | (.error e, writer) => (.error (.io e), writer)
      | (.ok (), writer) => match runtime.flush writer with
        | (.error e, writer) => (.error (.io e), writer)
        | (.ok (), writer) => (.ok (), writer)

/-- The loop over the header, which reads again where it is interrupted. -/
def fillHeader (filled : List UInt8) (s : Source) : Except RpcError (List UInt8) × Source :=
  if 4 ≤ filled.length then (.ok filled, s)
  else match _ : s.read (4 - filled.length) with
    | (.ok [], s') =>
      if filled = [] then (.error .closed, s') else (.error (.io .unexpectedEof), s')
    | (.ok (b :: chunk), s') => fillHeader (filled ++ b :: chunk) s'
    | (.error .interrupted, s') => fillHeader filled s'
    | (.error e, s') => (.error (.io e), s')
termination_by s.turns.length + (4 - filled.length)
decreasing_by
  · next hread =>
    have hle := (Source.read_ok hread).2.2.1.length_le
    rw [List.length_append, List.length_cons]
    omega
  · next hread =>
    obtain ⟨-, ⟨turn, hturns⟩, -⟩ := Source.read_error hread
    rw [hturns, List.length_cons]
    omega

/-- Reads one frame of at most `maxLen` bytes. -/
def readMessage (maxLen : ℕ) (s : Source) : Except RpcError (List UInt8) × Source :=
  match fillHeader [] s with
  | (.error e, s) => (.error e, s)
  | (.ok header, s) =>
    let len := ofBe header
    if maxLen < len then (.error (.frameTooLarge len maxLen), s)
    else match runtime.readExact s len with
      | (.error e, s) => (.error (.io e), s)
      | (.ok buf, s) => (.ok buf, s)

/-! ## Sequences of messages -/

/-- One message after another, until a write fails. -/
def writeMessages (writer : Sink) : List (List UInt8) → Except RpcError Unit × Sink
  | [] => (.ok (), writer)
  | payload :: payloads =>
    match writeMessage runtime writer payload with
    | (.error e, writer) => (.error e, writer)
    | (.ok (), writer) => writeMessages writer payloads

/-- At most `n` messages, until one is an error. -/
def readMessages (maxLen : ℕ) : ℕ → Source → List (Except RpcError (List UInt8))
  | 0, _ => []
  | n + 1, s =>
    match readMessage runtime maxLen s with
    | (.error e, _) => [.error e]
    | (.ok payload, s) => .ok payload :: readMessages maxLen n s

end

end Reverie.Rpc
