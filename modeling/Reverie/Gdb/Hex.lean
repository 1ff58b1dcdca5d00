/-
  Hexadecimal and binary fields of gdb's packets (`hex.rs`).  A number is read as one of
  Rust's integer types; no field has a sign.  A slice, a split or a subtraction that Rust
  checks panics where it fails.
-/
import Mathlib

namespace Reverie.Gdb

/-! ## Checked operations -/

/-- How the parsers panic. -/
inductive Panic where
  | subtractOverflow
  | outOfBounds
  deriving DecidableEq

/-- `left - right` on `usize`. -/
def subtract (left right : ℕ) : Except Panic ℕ :=
  if right ≤ left then pure (left - right) else throw .subtractOverflow

/-- `bytes[start..]`. -/
def sliceFrom (bytes : List UInt8) (start : ℕ) : Except Panic (List UInt8) :=
  if start ≤ bytes.length then pure (bytes.drop start) else throw .outOfBounds

/-- `slice::split_at`, and `BytesMut::split_off` with both halves.  The capacity of a
    packet's buffer is its length. -/
def splitAt (bytes : List UInt8) (mid : ℕ) : Except Panic (List UInt8 × List UInt8) :=
  if mid ≤ bytes.length then pure (bytes.take mid, bytes.drop mid) else throw .outOfBounds

/-! ## Numbers -/

def ascii (text : String) : List UInt8 := text.toList.map Char.toUInt8

/-- Why a hex or binary string is refused. -/
inductive GdbHexError where
  | notAscii
  | empty
  | overflow
  | invalidGdbHex
  | invalidGdbBinary
  | invalidOutput
  deriving DecidableEq

/-- The integer types that fields are read as. -/
inductive IntType where
  | u8 | u16 | i32 | u32 | u64 | u128 | usize | isize

def IntType.max : IntType → ℕ
  | .u8 => 2 ^ 8 - 1
  | .u16 => 2 ^ 16 - 1
  | .i32 => 2 ^ 31 - 1
  | .u32 => 2 ^ 32 - 1
  | .u64 | .usize => 2 ^ 64 - 1
  | .u128 => 2 ^ 128 - 1
  | .isize => 2 ^ 63 - 1

/-- A digit; `x` stands for a missing one. -/
def fromHex (c : UInt8) : Option UInt8 :=
  if (ascii "0123456789").contains c then some (c - '0'.toUInt8)
  else if (ascii "abcdef").contains c then some (c - 'a'.toUInt8 + 10)
  else if (ascii "ABCDEF").contains c then some (c - 'A'.toUInt8 + 10)
  else if (ascii "xX").contains c then some 0
  else none

def hexDigit (c : UInt8) : Except GdbHexError UInt8 :=
  match fromHex c with
  | some x => pure x
  | none => throw .notAscii

/-- The loop of `decode_hex`, with what was read before. -/
def decodeHexFrom (ty : IntType) : List UInt8 → ℕ → Except GdbHexError ℕ
  | [], result => pure result
  | digit :: rest, result => do
    let x ← hexDigit digit
    if ty.max < result * 16 then throw .overflow
    else if ty.max < result * 16 + x.toNat then throw .overflow
    else decodeHexFrom ty rest (result * 16 + x.toNat)

def decodeHex (ty : IntType) (buf : List UInt8) : Except GdbHexError ℕ :=
  if buf.isEmpty then throw .empty else decodeHexFrom ty buf 0

/-! ## Strings -/

/-- The loop of `decode_hex_string`: it runs while two bytes are left. -/
def decodeHexPairs : List UInt8 → Except GdbHexError (List UInt8)
  | x :: y :: rest => do
    let x ← hexDigit x
    let y ← hexDigit y
    let res ← decodeHexPairs rest
    pure ((16 * x + y) :: res)
  | _ => pure []

def decodeHexString (buf : List UInt8) : ExceptT GdbHexError (Except Panic) (List UInt8) :=
  if buf.length % 2 ≠ 0 then throw .invalidGdbHex
  else do
    -- the bound of the loop, `buf.len() - 1`
    let _ ← subtract buf.length 1
    ExceptT.mk (pure (decodeHexPairs buf))

def decodeBinaryString : List UInt8 → Except GdbHexError (List UInt8)
  | [] => pure []
  | [b] => if b = '}'.toUInt8 then throw .invalidGdbBinary else pure [b]
  | b :: c :: rest =>
    if b = '}'.toUInt8 then do
      let res ← decodeBinaryString rest
      pure ((c ^^^ 0x20) :: res)
    else do
      let res ← decodeBinaryString (c :: rest)
      pure (b :: res)

end Reverie.Gdb
