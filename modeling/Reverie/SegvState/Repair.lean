/-
  Keeping a guest's SIGSEGV action and mask across traps (`segv_state.rs`, `task.rs`).  Linux
  resets what blocks or ignores a forced SIGSEGV; the tracer records what it knows of both at
  every resume, and puts back at the trap what it knows was reset.
-/
import Mathlib

namespace Reverie.SegvState

/-! ## Actions -/

/-- The kernel's `struct sigaction`. -/
structure KernelSigaction where
  handler : BitVec 64
  flags : BitVec 64
  restorer : BitVec 64
  mask : BitVec 64
  deriving DecidableEq

def SIG_DFL : BitVec 64 := 0

def SIG_IGN : BitVec 64 := 1

def SA_RESETHAND : BitVec 64 := 0x80000000

def SA_NODEFER : BitVec 64 := 0x40000000

def SIGSEGV : ℕ := 11

def signalBit (signal : ℕ) : BitVec 64 := 1 <<< (signal - 1)

def SIGSEGV_BIT : BitVec 64 := signalBit SIGSEGV

def has (mask bit : BitVec 64) : Bool := mask &&& bit ≠ 0

def KernelSigaction.ignored (a : KernelSigaction) : Bool := a.handler = SIG_IGN

/-- The action runs a handler. -/
def KernelSigaction.caught (a : KernelSigaction) : Bool := a.handler ≠ SIG_DFL ∧ a.ignored = false

/-- The action with `SIG_DFL` as its handler. -/
def KernelSigaction.resetOf (a : KernelSigaction) : KernelSigaction := { a with handler := SIG_DFL }

def KernelSigaction.afterDelivery (a : KernelSigaction) : KernelSigaction :=
  if a.caught ∧ has a.flags SA_RESETHAND then a.resetOf else a

/-! ## The mask of a run -/

/-- What is known of a signal's bit in the mask that the guest runs under since the
    last resume. -/
inductive SignalRun where
  | unknown
  | known (blocked : Bool)
  /-- the resume delivered another signal, under `blocked`; without a handler the
      return restores `saved` -/
  | delivered (signal : ℕ) (blocked saved : Bool)

/-- `SignalRun::resolve`: the bit before the trap, given the mask at the trap and
    the delivered signal's action there. -/
def SignalRun.resolve (run : SignalRun) (bit now : BitVec 64) (action : Option KernelSigaction) :
    Option Bool :=
  if has now bit then none
  else
    match run with
    | .unknown => none
    | .known blocked => some blocked
    | .delivered _ blocked saved =>
      match action with
      | some action =>
        let handled := blocked || has action.mask bit
        if action.caught then some handled
        else if action.ignored then some saved
        else if has action.flags SA_RESETHAND then if handled = saved then some saved else none
        else some saved
      | none => if blocked && saved then some true else none

def SignalRun.afterSegvDelivery (before : Option KernelSigaction) (blocked saved : Bool) : SignalRun :=
  match before with
  | some action =>
    if action.caught then
      .known (blocked || has action.mask SIGSEGV_BIT || !has action.flags SA_NODEFER)
    else .known saved
  | none => .unknown

/-! ## The repair -/

/-- What is done after a trap. -/
structure SegvRepair where
  block : Bool
  write : Option KernelSigaction
  after : Option KernelSigaction
  known : Bool
  deriving DecidableEq

/-- SIGSEGV's bit before the trap: as recorded, or as the reset of a caught action
    tells. -/
def repairBlocked (blocked : Option Bool) (before now : Option KernelSigaction) : Option Bool :=
  match blocked, before, now with
  | some blocked, _, _ => some blocked
  | none, some before, some now =>
    if before.caught then
      if now = before.resetOf then some true else if now = before then some false else none
    else none
  | _, _, _ => none

/-- Whether the trap reset the action. -/
def repairReset (blocked : Option Bool) (before : Option KernelSigaction) : Option Bool :=
  match blocked, before with
  | blocked, some before => if before.ignored then some true else blocked
  | _, none => none

/-- The action that is written back. -/
def repairWrite (reset : Option Bool) (before now : Option KernelSigaction) :
    Option KernelSigaction :=
  match reset, before, now with
  | some true, some before, some now =>
    if before.handler ≠ now.handler ∧ now = before.resetOf then some before else none
  | _, _, _ => none

/-- The action after the repair. -/
def repairAfter (reset : Option Bool) (write before now : Option KernelSigaction) :
    Option KernelSigaction :=
  match before with
  | some before =>
    if before.handler = SIG_DFL then some before
    else if reset = some false ∨ write.isSome then some before else none
  | none => now.filter fun now => now.handler ≠ SIG_DFL

def segvRepair (blocked : Option Bool) (before now : Option KernelSigaction) : SegvRepair :=
  match now.filter fun now => now.caught || now.ignored with
  | some now =>
    { block := false
      write := none
      after := some now
      known := now.caught && blocked ≠ some true && before.all (· = now) }
  | none =>
    let blocked := repairBlocked blocked before now
    let reset := repairReset blocked before
    let write := repairWrite reset before now
    let after := repairAfter reset write before now
    { block := blocked = some true
      write := write
      after := after
      known := blocked.isSome && after.isSome }

end Reverie.SegvState
