/-
  The registry of native exec tickets (`exec_ticket.rs`).

  The operations are programs over the registry that can stop with an `ExecControlError`.
  The embedder's `TicketProof` answers every question of every call anew, through an
  argument of the call (`Answers`).  `sha256` is any function.
-/
import Reverie.Lib.Bytes
import Reverie.Lib.Outcome
import Reverie.Lib.Table

/-- `ExecTicket`: a private token. -/
abbrev Reverie.ExecTicket := Vector UInt8 32

namespace Reverie.ExecTicket

open Outcome (refuse orElse)

/-! ## Types -/

/-- A SHA-256 digest. -/
abbrev Digest := Vector UInt8 32

/-- A byte string. -/
abbrev Bytes := List UInt8

def MAX_TRANSITIONS : ℕ := 1024

def MAX_SNAPSHOT_BYTES : ℕ := 1024 * 1024

def MAX_STATE_BYTES : ℕ := 1024 * 1024

/-- `b"Reverie native exec ticket v1\0"`. -/
def TICKET_DOMAIN : Bytes := "Reverie native exec ticket v1".toUTF8.toList ++ [0]

/-- Why a call is refused. -/
inductive ExecControlError where
  | unavailable
  | identity
  | bounds
  | digest
  | transition
  | dead
  | capacity
  | qualification
  deriving DecidableEq

/-- Where a ticket is on its way. -/
inductive ExecStage where
  | prepared
  | issued
  | redeemed
  | completed
  | cancelled
  | dead
  | failed
  deriving DecidableEq

def ExecStage.live : ExecStage → Bool
  | .prepared | .issued | .redeemed => true
  | _ => false

/-- What the embedder retains under a ticket. -/
class TicketBinding (β : Type) (ω : outParam Type) where
  owner : β → ω
  configDigest : β → Digest

/-- What the embedder's `TicketProof` answers in one call. -/
structure Answers (ω : Type) where
  owner : ω
  /-- the answer when `owner` is called for the second time -/
  ownerAgain : ω
  matchesPeer : Bool
  qualifyPrepare : Bool
  qualifyRuntime : Bool
  qualifyCompletion : Bool

/-- Whether a provision was delivered. -/
inductive ProvisionState where
  | fresh
  | delivered
  deriving DecidableEq

/-- The record of a ticket. -/
structure Transition (β : Type) where
  binding : β
  stage : ExecStage
  provision : ProvisionState
  tool : Bytes
  state : Bytes
  stateDigest : Option Digest

/-- The tickets, and whether any may be used. -/
structure ExecTicketRegistry (β : Type) where
  nonce : Digest
  nextTicket : ℕ
  transitions : Std.TreeMap ExecTicket (Transition β)
  dead : Bool
  terminalFailure : Bool

section
variable {β ω : Type}

/-- `ExecTicketRegistry::new`, which refuses only a nonce of zeros. -/
def ExecTicketRegistry.fresh (nonce : Digest) : ExecTicketRegistry β := ⟨nonce, 1, ∅, false, false⟩

def ExecTicketRegistry.stage (r : ExecTicketRegistry β) (ticket : ExecTicket) : Option ExecStage :=
  r.transitions[ticket]?.map (·.stage)

/-! ## Operations -/

/-- An operation on the registry. -/
abbrev Registry (β : Type) := EStateM ExecControlError (ExecTicketRegistry β)

variable [TicketBinding β ω] [DecidableEq ω] (sha256 : Bytes → Digest)

/-- `check_owner`; `watched` is what the proof answers. -/
def checkOwner (watched owner : ω) : Registry β Unit := do
  let r ← get
  refuse r.dead .dead
  refuse r.terminalFailure .unavailable
  refuse (owner ≠ watched) .identity

def transaction (watched owner : ω) (ticket : ExecTicket) : Registry β (Transition β) := do
  checkOwner watched owner
  let r ← get
  let entry ← orElse r.transitions[ticket]? .identity
  refuse (TicketBinding.owner entry.binding ≠ owner) .identity
  pure entry

/-- A write through the reference to the entry of a ticket. -/
def write (ticket : ExecTicket) (entry : Transition β) : Registry β Unit := do
  let r ← get
  set { r with transitions := r.transitions.insert ticket entry }

def ticketBytes (nonce : Digest) (ordinal : ℕ) : Bytes :=
  TICKET_DOMAIN ++ nonce.toList ++ Bytes.toLe 8 ordinal

variable (a : Answers ω)

def prepare (owner : ω) (binding : β) (snapshot : Bytes) (snapshotDigest : Digest) :
    Registry β ExecTicket := do
  checkOwner a.owner owner
  refuse (TicketBinding.owner binding ≠ owner) .identity
  let r ← get
  refuse ((Table.values r.transitions).any (·.stage.live)) .transition
  refuse (r.transitions.size ≥ MAX_TRANSITIONS) .capacity
  refuse (snapshot = [] ∨ snapshot.length > MAX_SNAPSHOT_BYTES) .bounds
  refuse (sha256 snapshot ≠ snapshotDigest) .digest
  refuse (a.qualifyPrepare = false) .qualification
  let ticket := sha256 (ticketBytes r.nonce r.nextTicket)
  refuse (r.nextTicket + 1 ≥ 2 ^ 64) .capacity
  let r := { r with nextTicket := r.nextTicket + 1 }
  set r
  refuse (r.transitions.contains ticket) .transition
  write ticket ⟨binding, .prepared, .fresh, snapshot, [], none⟩
  pure ticket

/-- `seal`. -/
def sealTicket (owner : ω) (ticket : ExecTicket) (runtimeDigest : Digest)
    (runtime : Bytes) : Registry β Digest := do
  checkOwner a.owner owner
  refuse (runtime = [] ∨ runtime.length > MAX_STATE_BYTES) .bounds
  refuse (sha256 runtime ≠ runtimeDigest) .digest
  refuse (a.qualifyRuntime = false) .qualification
  let entry ← transaction a.ownerAgain owner ticket
  refuse (entry.stage ≠ .prepared ∨ entry.stateDigest.isSome) .transition
  -- the sum of two lengths that are at most `MAX_STATE_BYTES` fits
  refuse (entry.tool.length + runtime.length > MAX_STATE_BYTES) .bounds
  let state := entry.tool ++ runtime
  write ticket { entry with tool := [], state := state, stateDigest := some (sha256 state) }
  pure (sha256 state)

def markProvisionDelivered (owner : ω) (ticket : ExecTicket) : Registry β Unit := do
  let entry ← transaction a.owner owner ticket
  refuse (entry.stage ≠ .prepared) .transition
  write ticket { entry with provision := .delivered }

def issue (owner : ω) (ticket : ExecTicket) (digest : Digest) : Registry β Unit := do
  let entry ← transaction a.owner owner ticket
  refuse (entry.stage ≠ .prepared ∨ entry.stateDigest ≠ some digest ∨ entry.provision ≠ .delivered)
    .transition
  write ticket { entry with stage := .issued }

/-- The checks that `issued_binding` and `redeem` begin with: the entry of an
    issued ticket, for the peer. -/
def issuedEntry (ticket : ExecTicket) : Registry β (Transition β) := do
  checkOwner a.ownerAgain a.owner
  refuse (a.matchesPeer = false) .identity
  let r ← get
  let entry ← orElse r.transitions[ticket]? .identity
  refuse (entry.stage ≠ .issued) .transition
  pure entry

def issuedBinding (ticket : ExecTicket) : Registry β β := do
  let entry ← issuedEntry a ticket
  pure entry.binding

def redeem (ticket : ExecTicket) (configDigest stateDigest : Digest) : Registry β Bytes := do
  let entry ← issuedEntry a ticket
  refuse (TicketBinding.configDigest entry.binding ≠ configDigest ∨
    entry.stateDigest ≠ some stateDigest) .digest
  write ticket { entry with stage := .redeemed, state := [] }
  pure entry.state

def cancel (owner : ω) (ticket : ExecTicket) : Registry β Unit := do
  let entry ← transaction a.owner owner ticket
  refuse (entry.stage ≠ .prepared ∧ entry.stage ≠ .issued) .transition
  write ticket { entry with stage := .cancelled, tool := [], state := [] }

/-- `failed`: no owner is checked. -/
def failed (ticket : ExecTicket) : Registry β Unit := do
  let r ← get
  let entry ← orElse r.transitions[ticket]? .identity
  refuse (entry.stage.live = false) .transition
  write ticket { entry with stage := .failed, tool := [], state := [] }
  modify fun r => { r with terminalFailure := true }

def complete (owner : ω) (ticket : ExecTicket) : Registry β Unit := do
  let entry ← transaction a.owner owner ticket
  refuse (entry.stage ≠ .redeemed) .transition
  if a.qualifyCompletion = false then
    failed ticket
    throw .qualification
  -- the record is still there, so the `expect` of the source does not panic
  write ticket { entry with stage := .completed }

def died : Registry β Unit :=
  modify fun r => { r with
    dead := true
    transitions := r.transitions.map fun _ entry =>
      if entry.stage.live then { entry with stage := .dead, tool := [], state := [] } else entry }

end

/-! ## Runs -/

/-- A call, with its arguments.  The peer of a call is known by the answer of
    `matches_peer` only. -/
inductive Call (β ω : Type) where
  | prepare (owner : ω) (binding : β) (snapshot : Bytes) (snapshotDigest : Digest)
  | sealTicket (owner : ω) (ticket : ExecTicket) (runtimeDigest : Digest) (runtime : Bytes)
  | markProvisionDelivered (owner : ω) (ticket : ExecTicket)
  | issue (owner : ω) (ticket : ExecTicket) (digest : Digest)
  | issuedBinding (ticket : ExecTicket)
  | redeem (ticket : ExecTicket) (configDigest stateDigest : Digest)
  | cancel (owner : ω) (ticket : ExecTicket)
  | complete (owner : ω) (ticket : ExecTicket)
  | failed (ticket : ExecTicket)
  | died

/-- What a call returns. -/
inductive Response (β : Type) where
  | ticket (ticket : ExecTicket)
  | digest (digest : Digest)
  | done
  | binding (binding : β)
  | bytes (bytes : Bytes)
  | refused (error : ExecControlError)

/-- A call, with its answers and its response. -/
structure Event (β ω : Type) where
  call : Call β ω
  answers : Answers ω
  response : Response β

/-- A registry with all that happened to it. -/
structure Log (β ω : Type) where
  registry : ExecTicketRegistry β
  history : List (Event β ω)

section
variable {β ω : Type} [TicketBinding β ω] [DecidableEq ω] (sha256 : Bytes → Digest)

/-- What a call does, with its answers. -/
def Call.exec (a : Answers ω) : Call β ω → Registry β (Response β)
  | .prepare owner binding snapshot digest =>
    .ticket <$> ExecTicket.prepare sha256 a owner binding snapshot digest
  | .sealTicket owner ticket digest runtime =>
    .digest <$> ExecTicket.sealTicket sha256 a owner ticket digest runtime
  | .markProvisionDelivered owner ticket =>
    (fun _ => .done) <$> ExecTicket.markProvisionDelivered a owner ticket
  | .issue owner ticket digest => (fun _ => .done) <$> ExecTicket.issue a owner ticket digest
  | .issuedBinding ticket => .binding <$> ExecTicket.issuedBinding a ticket
  | .redeem ticket configDigest stateDigest =>
    .bytes <$> ExecTicket.redeem a ticket configDigest stateDigest
  | .cancel owner ticket => (fun _ => .done) <$> ExecTicket.cancel a owner ticket
  | .complete owner ticket => (fun _ => .done) <$> ExecTicket.complete a owner ticket
  | .failed ticket => (fun _ => .done) <$> ExecTicket.failed ticket
  | .died => (fun _ => .done) <$> ExecTicket.died

def Log.step (l : Log β ω) (c : Call β ω × Answers ω) : Log β ω :=
  match c.1.exec sha256 c.2 l.registry with
  | .ok response r => ⟨r, l.history ++ [⟨c.1, c.2, response⟩]⟩
  | .error e r => ⟨r, l.history ++ [⟨c.1, c.2, .refused e⟩]⟩

def run (nonce : Digest) (calls : List (Call β ω × Answers ω)) : Log β ω :=
  calls.foldl (Log.step sha256) ⟨.fresh nonce, []⟩

end

end Reverie.ExecTicket
