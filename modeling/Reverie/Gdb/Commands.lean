/-
  gdb's commands and their parsers (`commands.rs`, `commands/`, `signals.rs`).

  A parser reads what follows a command's name, and finds the command or nothing.
  `Command.tryParse` takes the first command of the table whose name starts the body.
-/
import Reverie.Gdb.Hex

namespace Reverie.Gdb

/-- What may find nothing, or panic. -/
abbrev Parser := OptionT (Except Panic)

/-- `x?` for an `Option`. -/
def found {α : Type} (x : Option α) : Parser α := OptionT.mk (pure x)

/-- `x.ok()?`. -/
def okay {ε α : Type} (x : ExceptT ε (Except Panic) α) : Parser α :=
  OptionT.mk (Except.toOption <$> x.run)

/-- `iter.next().and_then(|x| decode_hex(x).ok())?`. -/
def hexField (ty : IntType) (field : Option (List UInt8)) : Parser ℕ :=
  found (field.bind fun x => (decodeHex ty x).toOption)

/-- `bytes.split(|c| *c == separator)`. -/
def fields (separator : Char) (bytes : List UInt8) : List (List UInt8) :=
  bytes.splitOnP fun c => c = separator.toUInt8

/-- `bytes.split(|c| *c == b',' || *c == b':')`. -/
def fieldsAt (first second : Char) (bytes : List UInt8) : List (List UInt8) :=
  bytes.splitOnP fun c => c = first.toUInt8 || c = second.toUInt8

def startsWith (bytes : List UInt8) (text : String) : Bool :=
  (ascii text).isPrefixOf bytes

/-! ## Threads -/

/-- A process or thread number, or `-1` or `0`. -/
inductive IdKind where
  | all
  | any
  | id (pid : ℤ)
  deriving DecidableEq

def IdKind.fromRaw (pid : ℤ) : IdKind :=
  if pid = -1 then .all else if pid = 0 then .any else .id pid

/-- A thread id, `pPID.TID`. -/
structure ThreadId where
  pid : IdKind
  tid : IdKind
  deriving DecidableEq

/-- `ThreadId::all`. -/
def ThreadId.every : ThreadId := ⟨.all, .all⟩

def ThreadId.any : ThreadId := ⟨.any, .all⟩

/-- `ThreadId::pid`. -/
def ThreadId.process (pid : ℤ) : ThreadId := ⟨.fromRaw pid, .all⟩

def ThreadId.pidTid (pid tid : ℤ) : ThreadId := ⟨.fromRaw pid, .fromRaw tid⟩

/-- The thread of a process, if the field has one. -/
def decodeTid (field : List UInt8) : Option ℤ :=
  if field = ascii "-1" then some (-1) else (decodeHex .i32 field).toOption.map fun t => (t : ℤ)

def ThreadId.decode (bytes : List UInt8) : Parser ThreadId :=
  if !startsWith bytes "p" then failure
  else do
    let ids := fields '.' (← sliceFrom bytes 1)
    let p ← hexField .i32 ids[0]?
    match ids[1]?.bind decodeTid with
    | some t => pure (.pidTid p t)
    | none => pure (.process p)

def threadSuffix : List UInt8 → Option ℕ
  | [] => none
  | b :: rest =>
    if startsWith (b :: rest) ";thread:" then some 0 else (threadSuffix rest).map (· + 1)

def optional {α : Type} (x : Parser α) : Parser (Option α) := OptionT.mk (some <$> x.run)

def bareTid (bytes : List UInt8) : Parser ℤ := do
  let tid ← hexField .i32 (some bytes)
  pure (tid : ℤ)

def splitThreadSuffix (bytes : List UInt8) : Parser (List UInt8 × Option ThreadId) :=
  match threadSuffix bytes with
  | none => pure (bytes, none)
  | some pos => do
    let (bytes, suffix) ← splitAt bytes pos
    let ids := fields ';' (← sliceFrom suffix (ascii ";thread:").length)
    let id := ids[0]?.getD []
    let thread ← optional (if startsWith id "p" then ThreadId.decode id
      else ThreadId.pidTid (-1) <$> bareTid id)
    pure (bytes, thread)

/-! ## Signals -/

/-- `STANDARD`: Linux's signals with gdb's numbers. -/
def standard : List (ℕ × ℕ) :=
  [(1, 1), (2, 2), (3, 3), (4, 4), (5, 5), (6, 6), (8, 8), (9, 9), (7, 10), (11, 11), (31, 12),
    (13, 13), (14, 14), (15, 15), (23, 16), (19, 17), (20, 18), (18, 19), (17, 20), (21, 21),
    (22, 22), (29, 23), (24, 24), (25, 25), (26, 26), (27, 27), (28, 28), (10, 30), (12, 31),
    (30, 32)]

/-- `from_gdb`, with 64 for `SIGRTMAX`. -/
def fromGdb (gdb : ℕ) : Option ℕ :=
  if gdb = 0 then some 0
  else if gdb = 33 then some 29
  else match standard.find? fun entry => entry.2 = gdb with
    | some (linux, _) => some linux
    | none =>
      let linux :=
        if gdb = 77 then some 32
        else if 45 ≤ gdb ∧ gdb ≤ 75 then some (33 + (gdb - 45))
        else if 78 ≤ gdb ∧ gdb ≤ 141 then some (64 + (gdb - 78))
        else none
      linux.filter (· ≤ 64)

/-- `AnySignal::new`. -/
def anySignal (raw : ℕ) : Option ℕ := if 1 ≤ raw ∧ raw ≤ 64 then some raw else none

def decodeSignal (hex : List UInt8) : Parser ℕ := do
  let gdb ← hexField .u8 (some hex)
  let raw ← found (fromGdb gdb)
  found (anySignal raw)

/-! ## Commands -/

/-- What `H` selects a thread for. -/
inductive ThreadOp where
  | c | g | G | m | M

/-- The kinds of `z` and `Z`. -/
inductive BreakpointType where
  | software
  | hardware
  | readWatch
  | writeWatch

/-- `BreakpointType::new`. -/
def breakpointType : ℕ → Option BreakpointType
  | 0 => some .software
  | 1 => some .hardware
  | 2 => some .readWatch
  | 3 => some .writeWatch
  | _ => none

/-- An action of a `vCont`. -/
inductive ResumeAction where
  | step (signal : Option ℕ)
  | continue (signal : Option ℕ)
  | stop
  | stepUntil (start stop : ℕ)

/-- The reads of `qXfer`. -/
inductive QXfer where
  | featuresRead (offset len : ℕ)
  | auxvRead (offset len : ℕ)
  | threadsRead (offset len : ℕ)

/-- The forms of `vCont`. -/
inductive VCont where
  | query
  | actions (actions : List (ResumeAction × ThreadId))

/-- Host I/O; a path is its bytes. -/
inductive VFile where
  | setfs (pid : Option ℕ)
  | open (path : List UInt8) (flags mode : ℕ)
  | close (fd : ℕ)
  | pread (fd count offset : ℕ)
  | pwrite (fd offset : ℕ) (data : List UInt8)
  | fstat (fd : ℕ)
  | unlink (path : List UInt8)
  | readlink (path : List UInt8)
  | unsupported

/-- The base commands. -/
inductive Base where
  | QuestionMark
  | D (pid : Option ℕ)
  | g (thread : Option ThreadId)
  | G (vals : List UInt8) (thread : Option ThreadId)
  | H (op : ThreadOp) (id : ThreadId)
  | m (addr length : ℕ)
  | M (addr length : ℕ) (vals : List UInt8)
  | qAttached (pid : Option ℕ)
  | QPassSignals (signals : List ℕ)
  | QThreadEvents (enable : Bool)
  | qC
  | qfThreadInfo
  | QStartNoAckMode
  | qsThreadInfo
  | qSupported (features : List UInt8)
  | qXfer (request : QXfer)
  | T (thread : Option ThreadId)
  | qHostInfo
  | qProcessInfo
  | qRegisterInfo (reg : ℕ)
  | jThreadsInfo
  | QThreadSuffixSupported
  | vCont (request : VCont)
  | vKill (pid : ℕ)
  | z (ty : BreakpointType) (addr kind : ℕ)
  | Z (ty : BreakpointType) (addr kind : ℕ)
  | X (addr length : ℕ) (vals : List UInt8)
  | vFile (request : VFile)

/-- The commands of the extended mode. -/
inductive ExtendedMode where
  | ExclamationMark
  | QDisableRandomization (val : Bool)

/-- A parsed command. -/
inductive Command where
  | base (command : Base)
  | extendedMode (command : ExtendedMode)
  | qRcmd (cmd : List UInt8)
  | qOffsets
  | unknown (body : List UInt8)

/-- Why a body is refused. -/
inductive CommandParseError where
  | empty
  | malformedCommand (name : String)
  | malformedRegisters
  deriving DecidableEq

/-! ## Parsers -/

section
variable (bytes : List UInt8)

def parseBare {α : Type} (command : α) : Parser α :=
  if bytes.isEmpty then pure command else failure

def D.parse : Parser Base := do
  if bytes.isEmpty then pure (.D none)
  else if !startsWith bytes ";" then failure
  else
    let pid ← hexField .i32 (some (← sliceFrom bytes 1))
    pure (.D (some pid))

def g.parse : Parser Base := do
  let (rest, thread) ← splitThreadSuffix bytes
  if rest.isEmpty then pure (.g thread) else failure

def G.parse : Parser Base := do
  let (rest, thread) ← splitThreadSuffix bytes
  if rest.isEmpty then failure
  else
    let vals ← okay (decodeHexString rest)
    pure (.G vals thread)

def threadOp (ch : UInt8) : Option ThreadOp :=
  if ch = 'c'.toUInt8 then some .c
  else if ch = 'g'.toUInt8 then some .g
  else if ch = 'G'.toUInt8 then some .G
  else if ch = 'm'.toUInt8 then some .m
  else if ch = 'M'.toUInt8 then some .M
  else none

def H.parse : Parser Base :=
  match bytes with
  | [] => failure
  | ch :: bytes => do
    let op ← found (threadOp ch)
    if bytes = ascii "-1" then pure (.H op .every)
    else if bytes = ascii "0" then pure (.H op .any)
    else
      let id ← ThreadId.decode bytes
      pure (.H op id)

def m.parse : Parser Base := do
  if bytes.isEmpty then failure
  else
    let iter := fields ',' bytes
    let addr ← hexField .u64 iter[0]?
    let length ← hexField .usize iter[1]?
    pure (.m addr length)

def M.parse : Parser Base := do
  let iter := fieldsAt ',' ':' bytes
  let addr ← found iter[0]?
  let len ← found iter[1]?
  let j := 2 + addr.length + len.length
  let addr ← hexField .u64 (some addr)
  let len ← hexField .usize (some len)
  let (_, vals) ← splitAt bytes j
  let vals ← okay (decodeHexString vals)
  pure (.M addr len vals)

def qAttached.parse : Parser Base := do
  if !startsWith bytes ":" then failure
  else
    let iter := fields ':' bytes
    let _ ← found iter[0]?
    let pid ← optional (hexField .i32 iter[1]?)
    pure (.qAttached pid)

def QPassSignals.parse : Parser Base := do
  let list ← found ((ascii ":").isPrefixOf? bytes)
  let signals ← found (((fields ';' list).filter fun signal => !signal.isEmpty).mapM fun signal =>
    (decodeHex .u8 signal).toOption)
  pure (.QPassSignals signals)

def QThreadEvents.parse : Parser Base := do
  if !startsWith bytes ":" then failure
  else
    let value ← hexField .u32 (some (← sliceFrom bytes 1))
    if value ≠ 0 ∧ value ≠ 1 then failure else pure (.QThreadEvents (value = 1))

def qSupported.parse : Parser Base :=
  if bytes.isEmpty then failure else pure (.qSupported bytes)

/-- A read of a part of an object: `name`, the annex, and the part. -/
def parseRead (name annex : String) (read : ℕ → ℕ → QXfer) : Parser Base := do
  let iter := fieldsAt ':' ',' (← sliceFrom bytes (ascii name).length)
  let given ← found iter[0]?
  if given ≠ ascii annex then failure
  else
    let offset ← found iter[1]?
    let len ← found iter[2]?
    let offset ← hexField .usize (some offset)
    let len ← hexField .usize (some len)
    pure (.qXfer (read offset len))

def qXfer.parse : Parser Base :=
  if startsWith bytes ":features:read:" then
    parseRead bytes ":features:read:" "target.xml" .featuresRead
  else if startsWith bytes ":auxv:read:" then parseRead bytes ":auxv:read:" "" .auxvRead
  else if startsWith bytes ":threads:read:" then parseRead bytes ":threads:read:" "" .threadsRead
  else failure

def T.parse : Parser Base := do
  let thread ← optional (if startsWith bytes "p" then ThreadId.decode bytes
    else (fun tid => ⟨.any, .fromRaw tid⟩) <$> bareTid bytes)
  pure (.T thread)

def qRegisterInfo.parse : Parser Base := do
  if bytes.isEmpty then failure
  else
    let reg ← hexField .usize (some bytes)
    pure (.qRegisterInfo reg)

/-- The action of a `vCont` and what follows its letter. -/
def resumeAction (action : List UInt8) : Parser ResumeAction :=
  match action with
  | [] => failure
  | letter :: _ => do
    if letter = 'c'.toUInt8 then pure (.continue none)
    else if letter = 'C'.toUInt8 then
      let signal ← decodeSignal (← sliceFrom action 1)
      pure (.continue (some signal))
    else if letter = 's'.toUInt8 then pure (.step none)
    else if letter = 'S'.toUInt8 then
      let signal ← decodeSignal (← sliceFrom action 1)
      pure (.step (some signal))
    else if letter = 't'.toUInt8 then pure .stop
    else if letter = 'r'.toUInt8 then
      let iter := fields ',' (← sliceFrom action 1)
      let start ← hexField .u64 iter[0]?
      let stop ← hexField .u64 iter[1]?
      pure (.stepUntil start stop)
    else failure

/-- An action of a `vCont` and the threads it is for. -/
def vContAction (act : List UInt8) : Parser (ResumeAction × ThreadId) := do
  let iter := fields ':' act
  let action ← found iter[0]?
  let tid ← found iter[1]?
  let threadId ← ThreadId.decode tid
  let action ← resumeAction action
  pure (action, threadId)

def vContActions : Except Panic (List (ResumeAction × ThreadId)) :=
  (fields ';' bytes).filterMapM fun act => (vContAction act).run

def vCont.parse : Parser Base := do
  if bytes = ascii "?" then pure (.vCont .query)
  else if bytes.isEmpty then failure
  else
    let (_, bytes) ← splitAt bytes 1
    let actions ← vContActions bytes
    if actions.isEmpty then failure else pure (.vCont (.actions actions))

def vKill.parse : Parser Base := do
  if !startsWith bytes ";" then failure
  else
    let pid ← hexField .i32 (some (← sliceFrom bytes 1))
    pure (.vKill pid)

def parseBreakpoint (command : BreakpointType → ℕ → ℕ → Base) : Parser Base := do
  let iter := fields ',' bytes
  let ty ← hexField .i32 iter[0]?
  let ty ← found (breakpointType ty)
  let addr ← hexField .u64 iter[1]?
  let kind ← hexField .u8 iter[2]?
  pure (command ty addr kind)

def X.parse : Parser Base := do
  let firstColon ← found (bytes.findIdx? fun b => b = ':'.toUInt8)
  let (addrLen, vals) ← splitAt bytes firstColon
  let iter := fields ',' addrLen
  let addr ← hexField .u64 iter[0]?
  let len ← hexField .usize iter[1]?
  let vals ← found (decodeBinaryString (← sliceFrom vals 1)).toOption
  pure (.X addr len vals)

def pathField (field : Option (List UInt8)) : Parser (List UInt8) := do
  let name ← found field
  okay (decodeHexString name)

def vFile.parse : Parser VFile := do
  if startsWith bytes ":setfs:" then
    let pid ← hexField .i32 (some (← sliceFrom bytes (ascii ":setfs:").length))
    pure (.setfs (if pid = 0 then none else some pid))
  else if startsWith bytes ":open:" then
    let iter := fields ',' (← sliceFrom bytes (ascii ":open:").length)
    let fname ← pathField iter[0]?
    let flags ← hexField .i32 iter[1]?
    let mode ← hexField .u32 iter[2]?
    pure (.open fname flags mode)
  else if startsWith bytes ":close:" then
    let fd ← hexField .i32 (some (← sliceFrom bytes (ascii ":close:").length))
    pure (.close fd)
  else if startsWith bytes ":pread:" then
    let iter := fields ',' (← sliceFrom bytes (ascii ":pread:").length)
    let fd ← hexField .i32 iter[0]?
    let count ← hexField .isize iter[1]?
    let offset ← hexField .isize iter[2]?
    pure (.pread fd count offset)
  else if startsWith bytes ":pwrite:" then
    let iter := fields ',' (← sliceFrom bytes (ascii ":pwrite:").length)
    let fd ← hexField .i32 iter[0]?
    let offset ← hexField .isize iter[1]?
    let data ← found (iter[2]?.bind fun s => (decodeBinaryString s).toOption)
    pure (.pwrite fd offset data)
  else if startsWith bytes ":fstat:" then
    let fd ← hexField .i32 (some (← sliceFrom bytes (ascii ":fstat:").length))
    pure (.fstat fd)
  else if startsWith bytes ":unlink:" then
    let (_, fname) ← splitAt bytes (ascii ":unlink:").length
    let fname ← pathField (some fname)
    pure (.unlink fname)
  else if startsWith bytes ":readlink:" then
    let (_, fname) ← splitAt bytes (ascii ":readlink:").length
    let fname ← pathField (some fname)
    pure (.readlink fname)
  else
    let operation ← found ((ascii ":").isPrefixOf? bytes)
    let separator ← found (operation.findIdx? fun byte => byte = ':'.toUInt8)
    if separator ≠ 0 then pure .unsupported else failure

def QDisableRandomization.parse : Parser ExtendedMode :=
  if bytes = ascii ":0" then pure (.QDisableRandomization false)
  else if bytes = ascii ":1" then pure (.QDisableRandomization true)
  else failure

def qRcmd.parse : Parser Command :=
  if bytes.isEmpty then failure else pure (.qRcmd bytes)

end

/-! ## The table -/

/-- A command's name and the parser of its rest. -/
structure Entry where
  name : String
  parse : List UInt8 → Parser Command

def Entry.base (name : String) (parse : List UInt8 → Parser Base) : Entry :=
  ⟨name, fun bytes => Command.base <$> parse bytes⟩

/-- A command of the base protocol with nothing after its name. -/
def Entry.bare (name : String) (command : Base) : Entry :=
  .base name fun bytes => parseBare bytes command

/-- The commands, by name. -/
def commands : List Entry :=
  [.bare "?" .QuestionMark, .base "D" D.parse, .base "g" g.parse, .base "G" G.parse,
    .base "H" H.parse, .base "m" m.parse, .base "M" M.parse, .base "qAttached" qAttached.parse,
    .base "QPassSignals" QPassSignals.parse, .base "QThreadEvents" QThreadEvents.parse,
    .bare "qC" .qC, .bare "qfThreadInfo" .qfThreadInfo, .bare "QStartNoAckMode" .QStartNoAckMode,
    .bare "qsThreadInfo" .qsThreadInfo, .base "qSupported" qSupported.parse,
    .base "qXfer" qXfer.parse, .base "T" T.parse, .bare "qHostInfo" .qHostInfo,
    .bare "qProcessInfo" .qProcessInfo, .base "qRegisterInfo" qRegisterInfo.parse,
    .bare "jThreadsInfo" .jThreadsInfo, .bare "QThreadSuffixSupported" .QThreadSuffixSupported,
    .base "vCont" vCont.parse, .base "vKill" vKill.parse,
    .base "z" fun bytes => parseBreakpoint bytes .z, .base "Z" fun bytes => parseBreakpoint bytes .Z,
    .base "X" X.parse, .base "vFile" fun bytes => Base.vFile <$> vFile.parse bytes,
    ⟨"!", fun bytes => parseBare bytes (.extendedMode .ExclamationMark)⟩,
    ⟨"QDisableRandomization", fun bytes => Command.extendedMode <$> QDisableRandomization.parse bytes⟩,
    ⟨"qRcmd", qRcmd.parse⟩, ⟨"qOffsets", fun bytes => parseBare bytes .qOffsets⟩]

/-- The first command whose name starts the body. -/
def commandOf (buf : List UInt8) : Option Entry :=
  commands.find? fun entry => startsWith buf entry.name

/-- The command of a body. -/
def Command.tryParse (buf : List UInt8) : ExceptT CommandParseError (Except Panic) Command :=
  if buf.isEmpty then throw .empty
  else match commandOf buf with
    | none => pure (.unknown buf)
    | some entry => do
      let (_, rest) ← splitAt buf (ascii entry.name).length
      match ← (entry.parse rest).run with
      | some command => pure command
      | none => throw (.malformedCommand entry.name)

end Reverie.Gdb
