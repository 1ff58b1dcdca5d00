/-
  gdb's packets (`packet.rs`).

  A packet is `$`, a body, `#` and a checksum of two digits.  In the body `}` escapes the
  byte after it, so that the first `#` that is not escaped ends the body.
-/
import Reverie.Gdb.Commands

namespace Reverie.Gdb

/-- Why a packet is refused. -/
inductive PacketParseError where
  | checksumMismatched (checksum calculated : ℕ)
  | emptyBuf
  | missingChecksum
  | packetTooLarge (limit : ℕ)
  | malformedChecksum
  | commandError (error : CommandParseError)
  | unexpectedHeader (header : UInt8)
  deriving DecidableEq

/-- What gdb sends. -/
inductive Packet where
  | ack
  | nack
  | interrupt
  | command (command : Command)

/-- The first `#` that is not escaped. -/
def checksumDelimiter : List UInt8 → Bool → Option ℕ
  | [], _ => none
  | _ :: rest, true => (checksumDelimiter rest false).map (· + 1)
  | byte :: rest, false =>
    if byte = '}'.toUInt8 then (checksumDelimiter rest true).map (· + 1)
    else if byte = '#'.toUInt8 then some 0
    else (checksumDelimiter rest false).map (· + 1)

def checksum (body : List UInt8) : UInt8 := body.foldl (· + ·) 0

/-- `bytes.get(1..3)`. -/
def checksumDigits (bytes : List UInt8) : Option (List UInt8) :=
  if 3 ≤ bytes.length then some ((bytes.drop 1).take 2) else none

/-- The body, with its checksum verified. -/
def decodePacket (bytes : List UInt8) : ExceptT PacketParseError (Except Panic) (List UInt8) :=
  match checksumDelimiter bytes false with
  | none => throw .missingChecksum
  | some endOfBody => do
    let (body, tail) ← splitAt bytes endOfBody
    match checksumDigits tail with
    | none => throw .missingChecksum
    | some digits =>
      match decodeHex .u8 digits with
      | .error _ => throw .malformedChecksum
      | .ok given =>
        let calculated := checksum (body.drop 1)
        if calculated.toNat ≠ given then throw (.checksumMismatched given calculated.toNat)
        else
          let (packet, _) ← splitAt bytes endOfBody
          let (_, body) ← splitAt packet 1
          pure body

/-- An error of a command, as one of its packet. -/
def ofCommand {α : Type} (x : ExceptT CommandParseError (Except Panic) α) :
    ExceptT PacketParseError (Except Panic) α :=
  ExceptT.mk (Except.mapError PacketParseError.commandError <$> x.run)

def Packet.tryFrom (buf : List UInt8) : ExceptT PacketParseError (Except Panic) Packet :=
  match buf with
  | [] => throw .emptyBuf
  | header :: _ => do
    if header = '$'.toUInt8 then
      let body ← decodePacket buf
      let command ← ofCommand (Command.tryParse body)
      pure (.command command)
    else if header = '+'.toUInt8 then pure .ack
    else if header = '-'.toUInt8 then pure .nack
    else if header = 0x03 then pure .interrupt
    else throw (.unexpectedHeader header)

end Reverie.Gdb
