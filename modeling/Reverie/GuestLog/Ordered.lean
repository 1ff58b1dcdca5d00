/-
  The ordered guest log (version 4): credits, admission, the global order of complete
  records, the writer and the collector.  `clients` is the most general use of the log: any
  threads that make any calls, which are noted in a history.
-/
import Reverie.Lib.Table
import Reverie.GuestLog.Buffer

namespace Reverie.GuestLog
open Function Words

open Fallible (refuse orElse onError retry)
open ExceptT (lift)

/-! ## Layouts -/

/-- What an ordered log is made for. -/
structure Limits where
  producers : ℕ
  slots : ℕ
  maxRecordBytes : ℕ
  hostPendingBytes : ℕ
  guestPendingBytes : ℕ
  pendingRecords : ℕ

def Limits.options (l : Limits) : Option Options :=
  if l.producers < 2 ∨ l.pendingRecords < 2 ∨ l.pendingRecords > 4096 ∨ l.maxRecordBytes = 0 ∨
      l.maxRecordBytes > l.hostPendingBytes ∨ l.maxRecordBytes > l.guestPendingBytes then none
  else (checkedAdd l.hostPendingBytes l.guestPendingBytes).map fun byteLimit =>
    ⟨byteLimit, l.producers, l.slots⟩

/-- `buffer::size`, with the sizes of `Header` and `Slot`. -/
def Options.size (o : Options) : Option ℕ :=
  if o.producers = 0 ∨ o.producers > maxProducers ∨ o.slots = 0 ∨ o.slots > 64 then none
  else some (4160 + o.producers * o.slots * 4160)

/-- `ordered::size`, with the sizes of `Header` and `Credit`. -/
def Limits.size (l : Limits) : Option ℕ := do
  let o ← l.options
  let base ← o.size
  let length := base + 128 + l.pendingRecords * 64
  if length ≤ 32 * 1024 * 1024 then some length else none

/-- Limits that `Limits::options` and `validate` accept. -/
structure Layout where
  limits : Limits
  accepted : limits.size.isSome

def Layout.options (lay : Layout) : Options :=
  ⟨lay.limits.hostPendingBytes + lay.limits.guestPendingBytes, lay.limits.producers,
    lay.limits.slots⟩

/-! ## State -/

/-- Who writes a record. -/
inductive Role where
  | host
  | guest
  deriving DecidableEq

/-- The life of a credit. -/
inductive CreditState where
  | free
  | reserved
  | committed
  | releasing
  deriving DecidableEq

/-- A pending record's place. -/
structure Credit where
  state : CreditState
  generation : ℕ
  producer : ℕ
  sequence : ℕ
  length : ℕ
  order : ℕ

/-- A credit, at one use. -/
structure Ticket where
  index : ℕ
  generation : ℕ
  deriving DecidableEq

/-- What the commit of a record returns. -/
structure RecordCommit where
  order : ℕ
  deriving DecidableEq

/-- A record that the collector has put together. -/
structure Record where
  ticket : Ticket
  order : ℕ
  producer : ℕ
  bytes : List UInt8
  deriving DecidableEq

/-- What the callers of the log see.  The calls of `write_record` on a producer
    are numbered. -/
inductive Event where
  | called (producer call : ℕ) (bytes : List UInt8)
  | returned (producer call : ℕ) (bytes : List UInt8) (result : Except PublishError RecordCommit)
  | delivered (record : Record)
  | observed (result : Except PublishError Bool)
  deriving DecidableEq

/-- The ordered header, the credits, the delivered records that have not been
    released, and the history. -/
structure Ordered where
  admission : Role → ℕ
  used : Role → ℕ
  nextOrder : ℕ
  collector : Bool
  orderFault : Bool
  guestFailure : Bool
  credits : ℕ → Credit
  held : List Record
  history : List Event

/-- An ordered log. -/
abbrev Log := World Ordered

/-- A program over it that may fail. -/
abbrev LogFails := Fails Ordered

/-- The mapping as `channel_pair` initializes it: the channels of the host and
    of the root guest are reserved. -/
def Log.init (answers : ℕ → Option PublishError) : Log where
  buffer :=
    { allocated := 2
      failure := 0
      stop := false
      progress := 0
      reservedBytes := 0
      channels := fun index => { Channel.new with
        state := if index < 2 then .reserved else .unused }
      slots := fun _ _ => .zero }
  answers := answers
  asked := 0
  rest :=
    { admission := fun _ => 0
      used := fun _ => 0
      nextOrder := 1
      collector := false
      orderFault := false
      guestFailure := false
      credits := fun _ => ⟨.free, 0, 0, 0, 0, 0⟩
      held := []
      history := [] }

/-- The state after a write outside the buffer. -/
def Log.set (f : Ordered → Ordered) (s : Log) : Log := { s with rest := f s.rest }

def Log.setCredit (index : ℕ) (f : Credit → Credit) (s : Log) : Log :=
  s.set fun r => { r with credits := update r.credits index (f (r.credits index)) }

def emit (e : Event) : Prog Log Unit :=
  Prog.write (Log.set fun r => { r with history := r.history ++ [e] })

/-! ## Admission -/

/-- The bit `CLOSED` of an admission word; the other bits count the entrants. -/
def CLOSED : ℕ := 2 ^ 63

def closed (word : ℕ) : Bool := CLOSED ≤ word

def entrants (word : ℕ) : ℕ := word % CLOSED

def admission (role : Role) : Prog Log ℕ := Prog.read fun s => s.rest.admission role

/-- A read-modify-write of an admission word. -/
def setAdmission (role : Role) (f : ℕ → ℕ) : Prog Log Unit :=
  Prog.write (Log.set fun r =>
    { r with admission := update r.admission role (f (r.admission role)) })

def close (role : Role) : Prog Log ℕ := do
  setAdmission role fun word => if closed word then word else word + CLOSED
  wake
  admission role

def orderFailed : Prog Log Bool := Prog.read (·.rest.orderFault)

def guestFailed : Prog Log Bool := Prog.read (·.rest.guestFailure)

def failGuest : Prog Log Unit := do
  Prog.write (Log.set fun r => { r with guestFailure := true })
  let _ ← close .guest

def fault : Prog Log Unit := do
  Prog.write (Log.set fun r => { r with orderFault := true })
  wake

def unresolvedGuestCommit : Prog Log Bool := do
  let word ← admission .guest
  if closed word ∧ entrants word ≠ 0 then
    fault
    pure true
  else pure false

def check (role : Role) : LogFails Unit := do
  refuse (← lift orderFailed) .invalid
  refuse ((← lift failure) ≠ 0) .invalid
  refuse (← lift stopped) .stopped
  refuse (closed (← lift <| admission role)) .stopped
  if role = .guest then refuse (← lift guestFailed) .stopped

def enter (role : Role) : LogFails Unit := do
  check role
  let entered ← lift <| Prog.act fun s : Log =>
    let word := s.rest.admission role
    if !closed word ∧ word < CLOSED - 1
    then (true, s.set fun r => { r with admission := update r.admission role (word + 1) })
    else (false, s)
  refuse (entered = false) .stopped

/-- The drop of an `Entrant`. -/
def leave (role : Role) : Prog Log Unit := do
  setAdmission role fun word => wrappingSub word 1
  wake

/-! ## Credits -/

variable (lay : Layout)

/-- The bound check of `Buffer::credit`. -/
def creditBound (index : ℕ) : LogFails Unit :=
  refuse (index ≥ lay.limits.pendingRecords) .invalid

def loadCredit {α : Type} (index : ℕ) (f : Credit → α) : Prog Log α :=
  Prog.read fun s => f (s.rest.credits index)

def storeCredit (index : ℕ) (f : Credit → Credit) : Prog Log Unit :=
  Prog.write (Log.setCredit index f)

/-- A compare-and-exchange on the state of a credit. -/
def exchangeCredit (index : ℕ) (old new : CreditState) : Prog Log Bool :=
  Prog.act fun s =>
    if (s.rest.credits index).state = old
    then (true, s.setCredit index fun c => { c with state := new }) else (false, s)

def subUsed (role : Role) (length : ℕ) : Prog Log Unit :=
  Prog.write (Log.set fun r =>
    { r with used := update r.used role (wrappingSub (r.used role) length) })

def pendingBytes (role : Role) : ℕ :=
  match role with
  | .host => lay.limits.hostPendingBytes
  | .guest => lay.limits.guestPendingBytes

def creditRange (role : Role) : List ℕ :=
  let middle := lay.limits.pendingRecords / 2
  match role with
  | .host => List.range middle
  | .guest => (List.range (lay.limits.pendingRecords - middle)).map (middle + ·)

/-- The loop of `Buffer::reserve` over the credits. -/
def reserveFrom (role : Role) (producer sequence length : ℕ) : List ℕ → LogFails Ticket
  | [] => throw .full
  | index :: rest => do
    creditBound lay index
    if ← lift <| exchangeCredit index .free .reserved then
      let charged ← lift <| Prog.act fun s : Log =>
        match (checkedAdd (s.rest.used role) length).filter (· ≤ pendingBytes lay role) with
        | some used =>
          (true, s.set fun r => { r with used := update r.used role used })
        | none => (false, s)
      if charged then
        match checkedAdd (← lift <| loadCredit index (·.generation)) 1 with
        | some generation =>
          lift <| storeCredit index fun c => { c with generation := generation }
          lift <| storeCredit index fun c => { c with producer := producer }
          lift <| storeCredit index fun c => { c with sequence := sequence }
          lift <| storeCredit index fun c => { c with length := length }
          lift <| storeCredit index fun c => { c with order := 0 }
          pure ⟨index, generation⟩
        | none =>
          lift <| subUsed role length
          lift <| storeCredit index fun c => { c with state := .free }
          throw .overflow
      else
        lift <| storeCredit index fun c => { c with state := .free }
        throw .full
    else reserveFrom role producer sequence length rest

def reserve (role : Role) (producer sequence length : ℕ) : LogFails Ticket := do
  check role
  refuse (length > lay.limits.maxRecordBytes) .capacity
  reserveFrom lay role producer sequence length (creditRange lay role)

/-! ## Incarnations -/

/-- A producer's writer. -/
structure Writer where
  producer : Producer
  role : Role

/-- `Buffer::activate`. -/
def activateWriter (index : ℕ) (pid : ℤ) : LogFails Writer := do
  let role := if index = 0 then Role.host else .guest
  check role
  let producer ← activate index pid
  if index = 1 then lift <| store index fun c => { c with forkResult := pid.toNat }
  pure ⟨producer, role⟩

/-- `Buffer::reserve_child`. -/
def reserveGuest (parent : ℕ) : LogFails ℕ := do
  check .guest
  refuse (parent = 0) .invalid
  reserveChild lay.options parent

/-- `Buffer::resolve_fork`. -/
def resolveGuest (index : ℕ) (result : ℤ) : LogFails Unit := do
  refuse (index < 2) .invalid
  resolveFork index result

/-! ## The writer -/

def metadata (ticket : Ticket) (order : Option ℕ) : List UInt8 :=
  Bytes.toLe 8 ticket.index ++ Bytes.toLe 8 ticket.generation ++
    match order with
    | some order => Bytes.toLe 8 order
    | none => []

variable (w : Writer)

def Writer.send (frame : Frame) : LogFails Unit :=
  retry do
    let _ ← lift progress
    check w.role
    orWait (publish lay.options w.producer.index frame)

/-- The loop of `write_inner` that takes a credit. -/
def Writer.ticket (length : ℕ) : LogFails Ticket :=
  retry do
    let _ ← lift progress
    orWait (reserve lay w.role w.producer.index w.producer.sequence length)

/-- The chunks of a record, each in one frame. -/
def Writer.sendChunks (w : Writer) (bytes : List UInt8) : List ℕ → LogFails Unit
  | [] => pure ()
  | k :: rest => do
    w.send lay (w.producer.frame .DATA bytes.length (k * payloadSize)
      (Bytes.chunk payloadSize bytes k))
    w.sendChunks bytes rest

/-- The loop of `write_inner` that waits for a free slot. -/
def Writer.room : LogFails (ℕ × ℕ) :=
  retry do
    let _ ← lift progress
    check w.role
    let head ← lift <| load w.producer.index (·.head)
    let next ← orElse (checkedAdd head 1) .overflow
    let tail ← lift <| load w.producer.index (·.tail)
    let pending ← orElse (checkedSub head tail) .invalid
    if pending < lay.limits.slots then pure (some (head, next))
    else
      match ← lift wait with
      | none => pure none
      | some e => throw e

/-- Write the order into the metadata of an `END` frame. -/
def Frame.stamp (frame : Frame) (order : ℕ) : Frame :=
  { frame with payload := frame.payload.take 16 ++ Bytes.toLe 8 order ++ frame.payload.drop 24 }

/-- The next order for an entrant; an error drops the entrant. -/
def takeOrder (role : Role) : LogFails ℕ :=
  onError (do
    check role
    let taken ← lift <| Prog.act fun s : Log =>
      match checkedAdd s.rest.nextOrder 1 with
      | some order => (some s.rest.nextOrder, s.set fun r => { r with nextOrder := order })
      | none => (none, s)
    orElse taken .overflow) (leave role)

/-- The end of `write_inner`, from the admission on. -/
def Writer.commit (ticket : Ticket) (frame : Frame) (head next : ℕ) : LogFails RecordCommit := do
  creditBound lay ticket.index
  enter w.role
  let order ← takeOrder w.role
  lift <| storeCredit ticket.index fun c => { c with order := order }
  lift <| storeCredit ticket.index fun c => { c with state := .committed }
  lift <| Prog.write (World.setSlot w.producer.index (head % lay.limits.slots)
    ({ frame with ordinal := head }.stamp order))
  lift <| store w.producer.index fun c => { c with head := next }
  lift <| leave w.role
  pure ⟨order⟩

def Writer.writeInner (bytes : List UInt8) : LogFails RecordCommit := do
  refuse (w.producer.broken ∨ w.producer.finished ∨ w.producer.sequence = u64Max) .invalid
  let ticket ← w.ticket lay bytes.length
  w.send lay (w.producer.frame .BEGIN bytes.length 0 (metadata ticket none))
  w.sendChunks lay bytes (List.range (Bytes.chunkCount payloadSize bytes))
  let frame := w.producer.frame .END bytes.length bytes.length (metadata ticket (some 0))
  let (head, next) ← w.room lay
  w.commit lay ticket frame head next

/-- `Writer::write_record`, with the writer that it leaves. -/
def Writer.writeRecord (bytes : List UInt8) :
    Prog Log (Except PublishError RecordCommit × Writer) := do
  match ← (w.writeInner lay bytes).run with
  | .ok commit =>
    pure (.ok commit,
      { w with producer := { w.producer with sequence := w.producer.sequence + 1 } })
  | .error e =>
    if e ≠ .stopped then fault
    pure (.error e, { w with producer := { w.producer with broken := true } })

/-- `Writer::finish`, with the writer that it leaves. -/
def Writer.finish : Prog Log (Except PublishError Unit × Writer) := do
  match ← (do
      check w.role
      refuse (w.producer.broken ∨ w.producer.finished ∨ w.producer.sequence = u64Max) .invalid :
      LogFails Unit).run with
  | .error e => pure (.error e, w)
  | .ok _ =>
    match ← (w.send lay (w.producer.frame .FINISH 0 0 [])).run with
    | .error e => pure (.error e, { w with producer := { w.producer with broken := true } })
    | .ok _ =>
      let index := w.producer.index
      store index fun c => { c with terminalSequence := w.producer.sequence }
      let head ← load index (·.head)
      store index fun c => { c with terminalHead := head }
      store index fun c => { c with state := .finished }
      pure (.ok (), { w with producer := { w.producer with finished := true } })

/-! ## Records and the collector -/

def Record.release (r : Record) : Prog Log (Except PublishError Unit) := do
  match ← (do
      creditBound lay r.ticket.index
      if (← lift <| loadCredit r.ticket.index (·.generation)) ≠ r.ticket.generation then pure false
      else if (← lift <| loadCredit r.ticket.index (·.order)) ≠ r.order then pure false
      else lift <| exchangeCredit r.ticket.index .committed .releasing : LogFails Bool).run with
  | .error e => pure (.error e)
  | .ok false =>
    fault
    pure (.error .invalid)
  | .ok true =>
    let role := if r.producer = 0 then Role.host else .guest
    let length ← loadCredit r.ticket.index (·.length)
    subUsed role length
    storeCredit r.ticket.index fun c => { c with state := .free }
    wake
    pure (.ok ())

/-- A record of which frames are missing. -/
structure Partial where
  ticket : Ticket
  length : ℕ
  bytes : List UInt8

/-- What the collector keeps to itself. -/
structure Collector where
  partials : ℕ → Option Partial
  sequences : ℕ → ℕ
  finished : ℕ → Bool
  rejected : ℕ → Option Frame
  pending : Std.TreeMap ℕ Record
  next : ℕ

/-- `Buffer::collector`. -/
def newCollector : LogFails Collector := do
  let won ← lift <| Prog.act fun s : Log =>
    if s.rest.collector then (false, s) else (true, s.set fun r => { r with collector := true })
  refuse (won = false) .invalid
  pure ⟨fun _ => none, fun _ => 1, fun _ => false, fun _ => none, ∅, 1⟩

def number (frame : Frame) (offset : ℕ) : ℕ := Bytes.ofLe ((frame.payload.drop offset).take 8)

variable (c : Collector)

/-- `Collector::accept` for a `BEGIN` frame. -/
def Collector.acceptBegin (index : ℕ) (frame : Frame) : LogFails Collector := do
  refuse ((c.partials index).isSome ∨ frame.length ≠ 16 ∨ frame.offset ≠ 0) .invalid
  let ticket : Ticket := ⟨number frame 0, number frame 8⟩
  creditBound lay ticket.index
  let state ← lift <| loadCredit ticket.index (·.state)
  refuse (state ≠ .reserved ∧ state ≠ .committed) .invalid
  refuse ((← lift <| loadCredit ticket.index (·.generation)) ≠ ticket.generation) .invalid
  refuse ((← lift <| loadCredit ticket.index (·.producer)) ≠ index) .invalid
  refuse ((← lift <| loadCredit ticket.index (·.sequence)) ≠ frame.sequence) .invalid
  refuse ((← lift <| loadCredit ticket.index (·.length)) ≠ frame.total) .invalid
  refuse (frame.total > lay.limits.maxRecordBytes) .invalid
  pure { c with partials := update c.partials index (some ⟨ticket, frame.total, []⟩) }

/-- `Collector::accept` for a `DATA` frame. -/
def Collector.acceptData (index : ℕ) (frame : Frame) : LogFails Collector := do
  let p ← orElse (c.partials index) .invalid
  refuse (frame.total ≠ p.length ∨ frame.offset ≠ p.bytes.length ∨ frame.length = 0 ∨
    frame.length > p.length - p.bytes.length) .invalid
  let p := { p with bytes := p.bytes ++ frame.payload.take frame.length }
  pure { c with partials := update c.partials index (some p) }

/-- `Collector::accept` for an `END` frame.  The sequence number is advanced
    last, and its overflow leaves the record in `pending`. -/
def Collector.acceptEnd (index : ℕ) (frame : Frame) :
    LogFails (Collector × Option PublishError) := do
  let p ← orElse (c.partials index) .invalid
  let order := number frame 16
  creditBound lay p.ticket.index
  refuse (frame.length ≠ 24 ∨ frame.total ≠ p.length ∨ frame.offset ≠ frame.total ∨
    p.bytes.length ≠ p.length ∨ number frame 0 ≠ p.ticket.index ∨
    number frame 8 ≠ p.ticket.generation ∨ order < c.next ∨ c.pending.contains order) .invalid
  refuse ((← lift <| loadCredit p.ticket.index (·.state)) ≠ .committed) .invalid
  refuse ((← lift <| loadCredit p.ticket.index (·.order)) ≠ order) .invalid
  let c := { c with
    partials := update c.partials index none
    pending := c.pending.insert order ⟨p.ticket, order, index, p.bytes⟩ }
  match checkedAdd (c.sequences index) 1 with
  | some sequence =>
    pure ({ c with sequences := update c.sequences index sequence }, none)
  | none => pure (c, some .overflow)

/-- `Collector::accept` for a `FINISH` frame. -/
def Collector.acceptFinish (index : ℕ) (frame : Frame) : LogFails Collector := do
  refuse ((c.partials index).isSome ∨ frame.length ≠ 0 ∨ frame.total ≠ 0 ∨ frame.offset ≠ 0)
    .invalid
  pure { c with finished := update c.finished index true }

/-- `Collector::accept`: the collector that it leaves, with the error if there
    is one after the collector has changed. -/
def Collector.accept (index : ℕ) (frame : Frame) : LogFails (Collector × Option PublishError) := do
  refuse (c.finished index ∨ frame.sequence ≠ c.sequences index ∨ frame.length > payloadSize)
    .invalid
  match frame.kind with
  | .BEGIN => return (← c.acceptBegin lay index frame, none)
  | .DATA => return (← c.acceptData index frame, none)
  | .END => c.acceptEnd lay index frame
  | .FINISH => return (← c.acceptFinish index frame, none)

/-- The frame is kept as rejected, and the order is lost. -/
def Collector.reject (index : ℕ) (frame : Frame) : Prog Log (Collector × Bool) := do
  fault
  pure ({ c with rejected := update c.rejected index (some frame) }, true)

/-- The inner loop of `poll`: at most `n` frames of one channel. -/
def Collector.drain (c : Collector) (index : ℕ) : ℕ → Prog Log (Collector × Bool)
  | 0 => pure (c, false)
  | n + 1 => do
    match ← (readFrame lay.options index).run with
    | .ok none => pure (c, false)
    | .error _ =>
      fault
      pure (c, true)
    | .ok (some frame) =>
      match ← (c.accept lay index frame).run with
      | .ok (c', none) =>
        consume index
        c'.drain index n
      | .ok (c', some _) => c'.reject index frame
      | .error _ => c.reject index frame

/-- The outer loop of `poll`. -/
def Collector.scan (c : Collector) (error : Bool) : List ℕ → Prog Log (Collector × Bool)
  | [] => pure (c, error)
  | index :: rest =>
    if (c.rejected index).isSome then c.scan error rest
    else do
      let (c', e) ← c.drain lay index lay.limits.slots
      c'.scan (error || e) rest

/-- `Collector::poll`, with the collector that it leaves. -/
def Collector.poll : Prog Log (Except PublishError (Option Record) × Collector) := do
  if (← allocated) > lay.limits.producers then
    fault
    pure (.error .invalid, c)
  else
    let (c, error) ← c.scan lay false (List.range (← allocated))
    if error then pure (.error .invalid, c)
    else if ← orderFailed then pure (.error .invalid, c)
    else
      match c.pending[c.next]? with
      | none => pure (.ok none, c)
      | some record =>
        let c := { c with pending := c.pending.erase c.next }
        match checkedAdd c.next 1 with
        | some next => pure (.ok (some record), { c with next := next })
        | none =>
          fault
          pure (.error .invalid, c)

def emptyChannels : List ℕ → Prog Log Bool
  | [] => pure true
  | index :: rest => do
    let head ← load index (·.head)
    let tail ← load index (·.tail)
    if head ≠ tail then pure false else emptyChannels rest

/-- The admissions are closed and no entrant is left. -/
def sealed : List Role → Prog Log Bool
  | [] => pure true
  | role :: rest => do
    let word ← admission role
    if !closed word ∨ entrants word ≠ 0 then pure false else sealed rest

def Collector.commitsObserved : Prog Log (Except PublishError Bool) := do
  if ← orderFailed then pure (.error .invalid)
  else if !(← sealed [.host, .guest]) then pure (.ok false)
  else if !(← emptyChannels (List.range (← allocated))) then pure (.ok false)
  else if c.pending.contains c.next then pure (.ok false)
  else if !c.pending.isEmpty then
    fault
    pure (.error .invalid)
  else if c.next ≠ (← Prog.read (·.rest.nextOrder)) then
    fault
    pure (.error .invalid)
  else pure (.ok true)

/-! ## Clients -/

/-- The calls of a writer. -/
inductive WriterCall where
  | writeRecord (bytes : List UInt8)
  | finish

/-- The calls of a collector. -/
inductive CollectorCall where
  | poll
  | commitsObserved

/-- The calls of control. -/
inductive Call where
  | reserveChild (parent : ℕ)
  | resolveFork (index : ℕ) (result : ℤ)
  | close (role : Role)
  | failGuest
  | unresolvedGuestCommit
  | stop
  | fail (reason : ℕ)
  /-- release one of the delivered records that are held -/
  | release (position : ℕ)

/-- A thread: what it does with the log. -/
inductive Client where
  | produce (index : ℕ) (pid : ℤ) (calls : List WriterCall)
  | collect (calls : List CollectorCall)
  | call (calls : List Call)

/-- The calls of one writer; `n` counts those of `write_record`. -/
def Writer.calls (w : Writer) (n : ℕ) : List WriterCall → Prog Log Unit
  | [] => pure ()
  | .writeRecord bytes :: rest => do
    emit (.called w.producer.index n bytes)
    let (result, w') ← w.writeRecord lay bytes
    emit (.returned w.producer.index n bytes result)
    w'.calls (n + 1) rest
  | .finish :: rest => do
    let (_, w') ← w.finish lay
    w'.calls n rest

/-- A delivered record belongs to the caller, who may release it at any time. -/
def deliver (record : Record) : Prog Log Unit :=
  Prog.write (Log.set fun r => { r with
    history := r.history ++ [.delivered record]
    held := r.held ++ [record] })

def Collector.calls (c : Collector) : List CollectorCall → Prog Log Unit
  | [] => pure ()
  | .poll :: rest => do
    let (result, c') ← c.poll lay
    match result with
    | .ok (some record) =>
      deliver record
      c'.calls rest
    | _ => c'.calls rest
  | .commitsObserved :: rest => do
    let result ← c.commitsObserved
    emit (.observed result)
    c.calls rest

def takeHeld (position : ℕ) : Prog Log (Option Record) :=
  Prog.act fun s =>
    (s.rest.held[position]?, s.set fun r => { r with held := r.held.eraseIdx position })

def ignore {α : Type} (x : Prog Log α) : Prog Log Unit := do
  let _ ← x

/-- The program of a call. -/
def Call.exec : Call → Prog Log Unit
  | .reserveChild parent => ignore (reserveGuest lay parent).run
  | .resolveFork index result => ignore (resolveGuest index result).run
  | .close role => ignore (GuestLog.close role)
  | .failGuest => GuestLog.failGuest
  | .unresolvedGuestCommit => ignore GuestLog.unresolvedGuestCommit
  | .stop => GuestLog.stop
  | .fail reason => GuestLog.fail reason
  | .release position => do
    match ← takeHeld position with
    | some record => ignore (record.release lay)
    | none => pure ()

def Client.program : Client → Prog Log Unit
  | .produce index pid calls => do
    match ← (activateWriter index pid).run with
    | .ok w => w.calls lay 0 calls
    | .error _ => pure ()
  | .collect calls => do
    match ← newCollector.run with
    | .ok c => c.calls lay calls
    | .error _ => pure ()
  | .call calls => calls.forM (Call.exec lay)

def clients {ι : Type} (answers : ℕ → Option PublishError) (threads : ι → Client) : Pool Log ι :=
  ⟨Log.init answers, fun i => (threads i).program lay⟩

end Reverie.GuestLog
