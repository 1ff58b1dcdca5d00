/-
  The shared buffer of the guest log: channels with one ring of frames each.

  Every access to an atomic of the mapping, and every read or write of a slot, is one atomic
  action.  What the caller's `wait` closure answers is an oracle in the state.
-/
import Reverie.Lib.Prog
import Reverie.Lib.Bytes
import Reverie.Lib.Words

namespace Reverie.GuestLog
open Words

/-! ## Types -/

/-- `PAYLOAD`. -/
def payloadSize : ℕ := 4096

/-- `PRODUCERS`. -/
def maxProducers : ℕ := 64

/-- `u64::MAX`. -/
def u64Max : ℕ := 2 ^ 64 - 1

/-- `fetch_sub` on a 64-bit atomic. -/
def wrappingSub (a b : ℕ) : ℕ := (a + 2 ^ 64 - b) % 2 ^ 64

/-- Why nothing is published. -/
inductive PublishError where
  | full
  | stopped
  | invalid
  | capacity
  | overflow
  deriving DecidableEq

/-- The life of a channel. -/
inductive ChannelState where
  | unused
  | reserved
  | active
  | finished
  | cancelledFork
  deriving DecidableEq

/-- The frames of a record, and the last one. -/
inductive FrameKind where
  | BEGIN
  | DATA
  | END
  | FINISH
  deriving DecidableEq

/-- A channel's shared words. -/
structure Channel where
  state : ChannelState
  parent : ℕ
  pid : ℕ
  forkResult : ℕ
  head : ℕ
  tail : ℕ
  terminalHead : ℕ
  terminalSequence : ℕ

def Channel.new : Channel := ⟨.unused, 0, 0, 0, 0, 0, 0, 0⟩

/-- A slot's contents. -/
structure Frame where
  ordinal : ℕ
  kind : FrameKind
  length : ℕ
  sequence : ℕ
  offset : ℕ
  total : ℕ
  payload : List UInt8

/-- What a slot holds before its first write. -/
def Frame.zero : Frame := ⟨0, .BEGIN, 0, 0, 0, 0, []⟩

/-- What a buffer is made for. -/
structure Options where
  byteLimit : ℕ
  producers : ℕ
  slots : ℕ

/-- The buffer's shared words. -/
structure Buffer where
  allocated : ℕ
  /-- the bits `FAILURE` and `TRUNCATED` -/
  failure : ℕ
  stop : Bool
  progress : ℕ
  reservedBytes : ℕ
  channels : ℕ → Channel
  /-- the frame at a position of the ring of a channel -/
  slots : ℕ → ℕ → Frame

def FAILURE : ℕ := 1

/-- The buffer, what the `wait` closures will answer, and what is not part of
    the buffer. -/
structure World (ρ : Type) where
  buffer : Buffer
  answers : ℕ → Option PublishError
  asked : ℕ
  rest : ρ

/-- Process-private progress of a producer. -/
structure Producer where
  index : ℕ
  sequence : ℕ
  broken : Bool
  finished : Bool

/-- A program that may fail to publish. -/
abbrev Fails (ρ : Type) : Type → Type 1 := Fallible (World ρ) PublishError

open Fallible (refuse orElse retry)
open ExceptT (lift)

def Producer.frame (p : Producer) (kind : FrameKind) (total offset : ℕ) (bytes : List UInt8) :
    Frame :=
  { ordinal := 0
    kind := kind
    length := bytes.length
    sequence := p.sequence
    offset := offset
    total := total
    payload := bytes ++ List.replicate (payloadSize - bytes.length) 0 }

/-! ## Header and channels -/

section
variable {ρ : Type}

def World.channel (s : World ρ) (index : ℕ) : Channel := s.buffer.channels index

def World.setChannel (index : ℕ) (f : Channel → Channel) (s : World ρ) : World ρ :=
  { s with buffer := { s.buffer with
      channels := Function.update s.buffer.channels index (f (s.buffer.channels index)) } }

def World.setSlot (index position : ℕ) (frame : Frame) (s : World ρ) : World ρ :=
  { s with buffer := { s.buffer with
      slots := Function.update s.buffer.slots index
        (Function.update (s.buffer.slots index) position frame) } }

def load {α : Type} (index : ℕ) (f : Channel → α) : Prog (World ρ) α :=
  Prog.read fun s => f (s.channel index)

def store (index : ℕ) (f : Channel → Channel) : Prog (World ρ) Unit :=
  Prog.write (World.setChannel index f)

def allocated : Prog (World ρ) ℕ := Prog.read (·.buffer.allocated)

def failure : Prog (World ρ) ℕ := Prog.read (·.buffer.failure)

def fail (reason : ℕ) : Prog (World ρ) Unit :=
  Prog.write fun s => { s with buffer := { s.buffer with failure := s.buffer.failure ||| reason } }

def stopped : Prog (World ρ) Bool := Prog.read (·.buffer.stop)

def progress : Prog (World ρ) ℕ := Prog.read (·.buffer.progress)

/-- `wake`: the futex call changes nothing in the mapping. -/
def wake : Prog (World ρ) Unit :=
  Prog.write fun s => { s with
    buffer := { s.buffer with progress := (s.buffer.progress + 1) % 2 ^ 32 } }

def stop : Prog (World ρ) Unit := do
  Prog.write fun s => { s with buffer := { s.buffer with stop := true } }
  wake

/-- The caller's `wait` closure: it lets the loop go on, or ends it. -/
def wait : Prog (World ρ) (Option PublishError) :=
  Prog.act fun s => (s.answers s.asked, { s with asked := s.asked + 1 })

/-- Wait when the operation finds no room, and ask for another round. -/
def orWait {α : Type} (x : Fails ρ α) : Fails ρ (Option α) :=
  ExceptT.mk do
    match ← x.run with
    | .ok a => pure (.ok (some a))
    | .error .full =>
      match ← wait with
      | none => pure (.ok none)
      | some e => pure (.error e)
    | .error e => pure (.error e)

/-! ## Incarnations -/

variable (o : Options)

def reserveChild (parent : ℕ) : Fails ρ ℕ := do
  refuse (parent ≥ (← lift allocated)) .invalid
  refuse ((← lift <| load parent (·.state)) ≠ .active) .invalid
  let taken ← lift <| Prog.act fun s : World ρ =>
    if s.buffer.allocated < o.producers
    then (some s.buffer.allocated,
      { s with buffer := { s.buffer with allocated := s.buffer.allocated + 1 } })
    else (none, s)
  match taken with
  | none =>
    lift (fail FAILURE)
    throw .capacity
  | some index =>
    lift <| store index fun c => { c with parent := parent + 1 }
    lift <| store index fun c => { c with state := .reserved }
    pure index

/-- A compare-and-exchange on the state of a channel. -/
def exchangeState (index : ℕ) (old new : ChannelState) : Prog (World ρ) Bool :=
  Prog.act fun s =>
    if (s.channel index).state = old
    then (true, s.setChannel index fun c => { c with state := new }) else (false, s)

def bindPid (index pid : ℕ) : Fails ρ Unit := do
  let bound ← lift <| Prog.act fun s : World ρ =>
    if (s.channel index).pid = 0
    then (true, s.setChannel index fun c => { c with pid := pid })
    else ((s.channel index).pid = pid, s)
  refuse (bound = false) .invalid

def resolveFork (index : ℕ) (result : ℤ) : Fails ρ Unit := do
  refuse (index = 0) .invalid
  refuse (index ≥ (← lift allocated)) .invalid
  refuse (result = 0) .invalid
  if result < 0 then
    refuse ((← lift <| exchangeState index .reserved .cancelledFork) = false) .invalid
    lift <| store index fun c => { c with forkResult := u64Max }
  else
    bindPid index result.toNat
    let resolved ← lift <| Prog.act fun s : World ρ =>
      if (s.channel index).forkResult = 0
      then (true, s.setChannel index fun c => { c with forkResult := result.toNat })
      else (false, s)
    refuse (resolved = false) .invalid

def activate (index : ℕ) (pid : ℤ) : Fails ρ Producer := do
  refuse (index ≥ (← lift allocated)) .invalid
  refuse (pid ≤ 0) .invalid
  bindPid index pid.toNat
  refuse ((← lift <| exchangeState index .reserved .active) = false) .invalid
  if index = 0 then lift <| store index fun c => { c with forkResult := pid.toNat }
  pure { index := index, sequence := 1, broken := false, finished := false }

/-! ## Rings -/

def publish (index : ℕ) (frame : Frame) : Fails ρ Unit := do
  refuse (← lift stopped) .stopped
  let head ← lift <| load index (·.head)
  let tail ← lift <| load index (·.tail)
  let next ← orElse (checkedAdd head 1) .overflow
  let pending ← orElse (checkedSub head tail) .invalid
  refuse (pending ≥ o.slots) .full
  lift <| Prog.write (World.setSlot index (head % o.slots) { frame with ordinal := head })
  lift <| store index fun c => { c with head := next }

/-- `SharedBuffer::read`. -/
def readFrame (index : ℕ) : Fails ρ (Option Frame) := do
  let tail ← lift <| load index (·.tail)
  let head ← lift <| load index (·.head)
  if tail = head then pure none
  else
    let pending ← orElse (checkedSub head tail) .invalid
    refuse (pending > o.slots) .invalid
    let frame ← lift <| Prog.read fun s : World ρ => s.buffer.slots index (tail % o.slots)
    refuse (frame.ordinal ≠ tail) .invalid
    pure (some frame)

def consume (index : ℕ) : Prog (World ρ) Unit := do
  store index fun c => { c with tail := (c.tail + 1) % 2 ^ 64 }
  wake

end

end Reverie.GuestLog
