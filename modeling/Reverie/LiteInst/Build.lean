/-
  The census of an executable mapping, and the proof of a site (`liteinst_census.rs`,
  `interior_entry.rs`).  Code addresses lie below `2 ^ 64`, and allocations succeed.  The
  address of the text in the process that decodes it (`host`) is an argument.
-/
import Reverie.LiteInst.Unwind
import Reverie.LiteInst.Pieces

namespace Reverie.LiteInst

def windowLookahead : ℕ := 64

def nearJumpBytes : ℕ := 5

/-- A `syscall`, and the lowest entry in `(address, address + windowLookahead]`, or
    `u64::MAX`. -/
structure Site where
  address : ℕ
  len : ℕ
  opaqueCode : Bool
  limit : ℕ
  deriving DecidableEq

/-- The text mapping, its bytes, and where they are decoded. -/
structure Text where
  start : ℕ
  stop : ℕ
  code : List UInt8
  host : ℕ

/-! ## Sites -/

section
variable (dec : Decoder) (text : Text)

def Function.inText (f : Function) : Bool :=
  !f.isEmpty && text.start ≤ f.start && f.stop ≤ text.stop

def Text.codeOf (first last : ℕ) : List UInt8 :=
  (text.code.drop (first - text.start)).take (last - first)

/-- The instructions of `[first, last)`, as `decode_each` visits them. -/
def decodeRange (first last : ℕ) : List Instruction :=
  decodeEach dec (text.host + (first - text.start)) (text.codeOf first last) first

/-- Whether a function is transparent, and its instructions that decode. -/
def decodeFunction (f : Function) : Bool × List Instruction :=
  ((decodeRange dec text f.start f.stop).all fun i => !i.invalid && !isIndirectJump i,
    (decodeRange dec text f.start f.stop).filter fun i => !i.invalid)

def functionSites (f : Function) : List Site :=
  ((decodeFunction dec text f).2.filter fun i => i.mnemonic = .syscall).map fun i =>
    ⟨i.ip, i.len % 256, !(decodeFunction dec text f).1 || f.overlaps, 2 ^ 64 - 1⟩

/-- One copy of each address, opaque if there were several, from the copy `earlier`. -/
def dedupFrom (earlier : Site) : List Site → List Site
  | [] => [earlier]
  | later :: rest =>
    if later.address = earlier.address then dedupFrom { earlier with opaqueCode := true } rest
    else earlier :: dedupFrom later rest

def dedup : List Site → List Site
  | [] => []
  | site :: rest => dedupFrom site rest

def collectSites (functions : List Function) : List Site :=
  dedup (((functions.filter (·.inText text)).flatMap (functionSites dec text)).insertionSort
    fun s t => s.address ≤ t.address)

/-! ## Entries -/

/-- Lowers the limits of the sites before `index` whose window has the entry. -/
def lowerLimits (entry : ℕ) : ℕ → List Site → List Site
  | 0, sites => sites
  | index + 1, sites =>
    match sites[index]? with
    | none => sites
    | some site =>
      if windowLookahead < entry - site.address then sites
      else lowerLimits entry index (sites.set index { site with limit := min site.limit entry })

/-- `record`. -/
def recordEntry (sites : List Site) (entry : ℕ) : List Site :=
  lowerLimits entry (sites.takeWhile fun site => site.address < entry).length sites

/-- `decode_gap`. -/
def gapEntries (first last : ℕ) : List ℕ :=
  ((decodeRange dec text first last).filter fun i => !i.invalid).flatMap instructionEntries

/-- `record_code_after`. -/
def codeAfter (last : ℕ) : List ℕ :=
  ((decodeRange dec text last (last + min (text.stop - last) windowLookahead)).find?
    fun i => i.invalid || !isPadding i).toList.map (·.ip)

variable (segments : List Segment)

/-- The landing pads of a function, if it has a language-specific data area. -/
def padsOf (f : Function) : Except CensusError (List ℕ) :=
  if f.lsda ≠ 0 then landingPads segments f.lsda f.start else pure []

/-- The entries of the functions and of the code between them, from `covered` on. -/
def codeEntries : List Function → ℕ → Except CensusError (List ℕ)
  | [], covered => pure (if covered < text.stop then gapEntries dec text covered text.stop else [])
  | f :: rest, covered => do
    let pads ← padsOf segments f
    if f.inText text then
      let gap := if covered < f.start then gapEntries dec text covered f.start else []
      let own := (decodeFunction dec text f).2.flatMap instructionEntries
      let entries ← codeEntries rest (max covered f.stop)
      pure (f.start :: pads ++ gap ++ own ++ codeAfter dec text f.stop ++ entries)
    else
      let entries ← codeEntries rest covered
      pure (f.start :: pads ++ entries)

def words : List UInt8 → List ℕ
  | b₀ :: b₁ :: b₂ :: b₃ :: b₄ :: b₅ :: b₆ :: b₇ :: rest =>
    Bytes.ofLe [b₀, b₁, b₂, b₃, b₄, b₅, b₆, b₇] :: words rest
  | _ => []

/-- The aligned words of the other mappings that point into the text. -/
def wordEntries : List ℕ :=
  (segments.filter fun segment => !segment.executable).flatMap fun segment =>
    (words (segment.bytes.drop ((8 - segment.address % 8) % 8))).filter fun value =>
      text.start ≤ value && value < text.stop

end

/-! ## The census -/

/-- The sites of an image. -/
structure Census where
  sites : List Site
  deriving DecidableEq

/-- The one executable mapping, if it is the text. -/
def textOf (segments : List Segment) (text : ℕ × ℕ) (host : ℕ) : Except CensusError Text :=
  match segments.filter (·.executable) with
  | [segment] =>
    if segment.address = text.1 ∧ text.1 + segment.bytes.length = text.2 then
      pure ⟨text.1, text.2, segment.bytes, host⟩
    else throw ⟨"the object does not have exactly one executable mapping"⟩
  | _ => throw ⟨"the object does not have exactly one executable mapping"⟩

def build (dec : Decoder) (segments : List Segment) (header : ℕ) (range : ℕ × ℕ) (host : ℕ) :
    Except CensusError Census := do
  let text ← textOf segments range host
  let hdr ← ehFrameHdr segments header
  let fs ← functions segments hdr
  if fs.any fun f => !f.isEmpty && !f.inText text && f.start < text.stop && text.start < f.stop then
    throw ⟨"an unwind-table function crosses the executable mapping"⟩
  let entries ← codeEntries dec text segments fs text.start
  pure ⟨(entries ++ wordEntries text segments).foldl recordEntry (collectSites dec text fs)⟩

/-- Why a site is not patched. -/
inductive Refusal where
  | notInFunction
  | opaqueFunction
  | interiorEntry (entry : ℕ)
  | instructionMismatch
  deriving DecidableEq

/-- What a census knows about a site. -/
structure SiteEntries where
  len : ℕ
  limit : ℕ

def Census.site (census : Census) (address : ℕ) : Except Refusal SiteEntries :=
  match census.sites.find? fun site => site.address = address with
  | none => throw .notInFunction
  | some site => if site.opaqueCode then throw .opaqueFunction else pure ⟨site.len, site.limit⟩

/-! ## The proof of a site -/

/-- What a scan keeps of an instruction. -/
structure ScannedInstruction where
  address : ℕ
  len : ℕ
  mnemonic : Mnemonic

/-- The end of the instructions from `stop` on that cover a near jump at `address`. -/
def displacedFrom (address : ℕ) : List ScannedInstruction → ℕ → Option ℕ
  | [], _ => none
  | instruction :: rest, stop =>
    if instruction.address ≠ stop then none
    else if 2 ^ 64 ≤ stop + instruction.len then none
    else if nearJumpBytes ≤ stop + instruction.len - address then some (stop + instruction.len)
    else displacedFrom address rest (stop + instruction.len)

def displacedEnd (address : ℕ) (scan : List ScannedInstruction) : Option ℕ :=
  match scan.dropWhile fun instruction => instruction.address ≠ address with
  | [] => none
  | found => displacedFrom address found address

def proveWithin (address : ℕ) (entries : SiteEntries) (scan : List ScannedInstruction) :
    Except Refusal Unit :=
  match scan with
  | [] => throw .instructionMismatch
  | first :: _ =>
    if first.address ≠ address ∨ first.len ≠ entries.len ∨ first.mnemonic ≠ .syscall then
      throw .instructionMismatch
    else match displacedEnd address scan with
      | none => throw .instructionMismatch
      | some stop => if entries.limit < stop then throw (.interiorEntry entries.limit) else pure ()

def prove (census : Census) (address : ℕ) (scan : List ScannedInstruction) :
    Except Refusal Unit := do
  let entries ← census.site address
  proveWithin address entries scan

end Reverie.LiteInst
