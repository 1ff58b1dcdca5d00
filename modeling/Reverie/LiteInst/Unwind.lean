/-
  The unwind tables of a loaded object (`liteinst_census.rs`).  Numbers are `u64` values, and
  the sums that the source wraps are taken modulo `2 ^ 64`.
-/
import Reverie.Lib.Bytes

namespace Reverie.LiteInst
open List

/-- Why there is no census. -/
structure CensusError where
  message : String
  deriving DecidableEq

def truncated : CensusError := ⟨"an unwind or ELF table ends outside its mapping"⟩

def unsupportedEncoding : CensusError :=
  ⟨"an unwind table uses an unsupported pointer encoding"⟩

/-- One readable mapping of a loaded object. -/
structure Segment where
  address : ℕ
  bytes : List UInt8
  executable : Bool

/-! ## Cursors -/

/-- The bytes of a table that are not yet taken, and where they start. -/
structure Cursor where
  bytes : List UInt8
  address : ℕ

/-- A reader of a table's bytes. -/
abbrev Read := StateT Cursor (Except CensusError)

variable (segments : List Segment)

/-- The table at an address. -/
def cursor (address : ℕ) : Except CensusError Cursor :=
  match segments.findSome? fun segment =>
      if segment.address ≤ address then
        match segment.bytes.drop (address - segment.address) with
        | [] => none
        | tail => some (⟨tail, address⟩ : Cursor)
      else none with
  | some found => pure found
  | none => throw ⟨"an unwind or ELF table points outside the object's mappings"⟩

/-- Reads all that `read` takes from a cursor. -/
def Cursor.read {α : Type} (c : Cursor) (read : Read α) : Except CensusError α :=
  Prod.fst <$> read.run c

def take (length : ℕ) : Read (List UInt8) := do
  let c ← get
  if length ≤ c.bytes.length then
    set (⟨c.bytes.drop length, (c.address + length) % 2 ^ 64⟩ : Cursor)
    pure (c.bytes.take length)
  else throw truncated

def sub (length : ℕ) : Read Cursor := do
  let c ← get
  let bytes ← take length
  pure ⟨bytes, c.address⟩

def u8 : Read UInt8 := do
  let bytes ← take 1
  pure (bytes.headD 0)

def u16 : Read ℕ := Bytes.ofLe <$> take 2

def u32 : Read ℕ := Bytes.ofLe <$> take 4

def u64 : Read ℕ := Bytes.ofLe <$> take 8

/-- `(0..64).step_by(7)`. -/
def lebShifts : List ℕ := [0, 7, 14, 21, 28, 35, 42, 49, 56, 63]

def ulebFrom : List ℕ → ℕ → Read ℕ
  | [], _ => throw ⟨"an unwind table has an overlong LEB128 value"⟩
  | shift :: shifts, value => do
    let byte ← u8
    let value := value ||| (((byte &&& 0x7f).toNat <<< shift) % 2 ^ 64)
    if byte &&& 0x80 = 0 then pure value else ulebFrom shifts value

def uleb : Read ℕ := ulebFrom lebShifts 0

/-- The bits of an `i64`. -/
def slebFrom : List ℕ → ℕ → Read ℕ
  | [], _ => throw ⟨"an unwind table has an overlong LEB128 value"⟩
  | shift :: shifts, value => do
    let byte ← u8
    let value := value ||| (((byte &&& 0x7f).toNat <<< shift) % 2 ^ 64)
    if byte &&& 0x80 = 0 then
      pure (if shift + 7 < 64 ∧ byte &&& 0x40 ≠ 0 then value ||| (2 ^ 64 - 2 ^ (shift + 7))
        else value)
    else slebFrom shifts value

def sleb : Read ℕ := slebFrom lebShifts 0

/-- A signed number of `bits` bits, as a `u64`. -/
def signExtend (bits n : ℕ) : ℕ := if n < 2 ^ (bits - 1) then n else n + 2 ^ 64 - 2 ^ bits

/-- A value in the format named by the low nibble of `encoding`. -/
def encodedValue (encoding : UInt8) : Read ℕ :=
  match (encoding &&& 0x0f).toNat with
  | 0x00 | 0x04 | 0x0c => u64
  | 0x01 => uleb
  | 0x02 => u16
  | 0x03 => u32
  | 0x09 => sleb
  | 0x0a => signExtend 16 <$> u16
  | 0x0b => signExtend 32 <$> u32
  | _ => throw unsupportedEncoding

/-- `DW_EH_PE_omit`. -/
def omitted : UInt8 := 0xff

/-- A pointer: a raw zero stays zero, and otherwise the application base is added. -/
def encodedPointer (encoding : UInt8) (dataBase : Option ℕ) : Read ℕ := do
  if encoding &&& 0x80 ≠ 0 then throw unsupportedEncoding
  let position := (← get).address
  let value ← encodedValue encoding
  if value = 0 then pure 0
  else match (encoding &&& 0x70).toNat, dataBase with
    | 0x00, _ => pure value
    | 0x10, _ => pure ((position + value) % 2 ^ 64)
    | 0x30, some base => pure ((base + value) % 2 ^ 64)
    | _, _ => throw unsupportedEncoding

/-! ## The ELF header -/

/-- The load bias and the address of `.eh_frame_hdr` that `count` program headers give. -/
def programHeaders (header : ℕ) : ℕ → Option ℕ → Option ℕ → Read (Option ℕ × Option ℕ)
  | 0, bias, ehFrameHdr => pure (bias, ehFrameHdr)
  | count + 1, bias, ehFrameHdr => do
    let entry ← sub 56
    let (kind, offset, address) ← entry.read do
      let kind ← u32
      let _flags ← u32
      let offset ← u64
      let address ← u64
      pure (kind, offset, address)
    if kind = 1 ∧ offset = 0 ∧ bias = none then
      programHeaders header count (some ((header + 2 ^ 64 - address) % 2 ^ 64)) ehFrameHdr
    else if kind = 0x6474e550 then programHeaders header count bias (some address)
    else programHeaders header count bias ehFrameHdr

/-- Where the program headers are, and how many. -/
def elfHeader : Read (ℕ × ℕ) := do
  let identity ← take 16
  if identity.take 6 ≠ [0x7f, 0x45, 0x4c, 0x46, 2, 1] then
    throw ⟨"the object is not a 64-bit little-endian ELF"⟩
  let _kind ← u16
  if (← u16) ≠ 62 then throw ⟨"the object is not an x86-64 ELF"⟩
  let _version ← u32
  let _entry ← u64
  let programHeaders ← u64
  let _sectionHeaders ← u64
  let _flags ← u32
  let _headerSize ← u16
  let entrySize ← u16
  let count ← u16
  if entrySize ≠ 56 then throw ⟨"the object has an unexpected program header size"⟩
  pure (programHeaders, count)

def ehFrameHdr (header : ℕ) : Except CensusError ℕ := do
  let (offset, count) ← (← cursor segments header).read elfHeader
  if 2 ^ 64 ≤ header + offset then throw truncated
  let table ← cursor segments (header + offset)
  let (bias, hdr) ← table.read (programHeaders header count none none)
  match bias with
  | none => throw ⟨"the object has no PT_LOAD at file offset zero"⟩
  | some bias => match hdr with
    | none => throw ⟨"the object has no PT_GNU_EH_FRAME"⟩
    | some hdr => pure ((bias + hdr) % 2 ^ 64)

/-! ## Functions -/

/-- A function of the unwind tables. -/
structure Function where
  start : ℕ
  stop : ℕ
  lsda : ℕ
  overlaps : Bool

def Function.isEmpty (function : Function) : Bool := function.stop ≤ function.start

/-- What a CIE tells its FDEs. -/
structure CommonInformation where
  fdeEncoding : UInt8 := 0
  lsdaEncoding : UInt8 := omitted
  hasAugmentationData : Bool := false

/-- The bytes before the next zero, which is taken too. -/
def zeroTerminated : Read (List UInt8) := do
  match (← get).bytes.findIdx? (· = 0) with
  | none => throw truncated
  | some length => do
    let text ← take length
    let _zero ← u8
    pure text

/-- The letters of an augmentation after the `z`, with their data. -/
def augmentationData : List UInt8 → CommonInformation → Read CommonInformation
  | [], information => pure information
  | letter :: letters, information =>
    if letter = 0x4c then do
      let encoding ← u8
      augmentationData letters { information with lsdaEncoding := encoding }
    else if letter = 0x52 then do
      let encoding ← u8
      augmentationData letters { information with fdeEncoding := encoding }
    else if letter = 0x50 then do
      let encoding ← u8
      if (encoding &&& 0x70).toNat > 0x30 then throw unsupportedEncoding
      let _personality ← encodedValue encoding
      augmentationData letters information
    else if letter = 0x53 ∨ letter = 0x42 ∨ letter = 0x47 then augmentationData letters information
    else throw ⟨"an unwind table has an unsupported CIE augmentation"⟩

def commonInformationBody : Read CommonInformation := do
  if (← u32) ≠ 0 then throw ⟨"an FDE names a record that is not a CIE"⟩
  let version ← u8
  if version ≠ 1 ∧ version ≠ 3 then throw ⟨"an unwind table has an unsupported CIE version"⟩
  let augmentation ← zeroTerminated
  let _codeAlignment ← uleb
  let _dataAlignment ← sleb
  if version = 1 then
    let _returnRegister ← u8
  else
    let _returnRegister ← uleb
  match augmentation with
  | [] => pure {}
  | first :: letters => do
    if first ≠ 0x7a then throw ⟨"an unwind table has an unsupported CIE augmentation"⟩
    let data ← sub (← uleb)
    data.read (augmentationData letters { hasAugmentationData := true })

def commonInformation (address : ℕ) : Except CensusError CommonInformation := do
  let record ← cursor segments address
  let body ← record.read do
    let length ← u32
    if length = 0 ∨ length = 2 ^ 32 - 1 then
      throw ⟨"an unwind table has an unsupported CIE length"⟩
    sub length
  body.read commonInformationBody

def functionBody : Read Function := do
  let cieField := (← get).address
  let ciePointer ← u32
  if ciePointer = 0 then throw ⟨"the unwind search table names a CIE as an FDE"⟩
  let information ← commonInformation segments ((cieField + 2 ^ 64 - ciePointer) % 2 ^ 64)
  let start ← encodedPointer information.fdeEncoding none
  let range ← encodedValue information.fdeEncoding
  if 2 ^ 64 ≤ start + range then throw ⟨"an FDE's address range overflows"⟩
  if information.hasAugmentationData then
    let data ← sub (← uleb)
    if information.lsdaEncoding ≠ omitted then
      let lsda ← data.read (encodedPointer information.lsdaEncoding none)
      return ⟨start, start + range, lsda, false⟩
  pure ⟨start, start + range, 0, false⟩

def function (address : ℕ) : Except CensusError Function := do
  let record ← cursor segments address
  let body ← record.read do
    let length ← u32
    if length = 0 ∨ length = 2 ^ 32 - 1 then
      throw ⟨"an unwind table has an unsupported FDE length"⟩
    sub length
  body.read (functionBody segments)

/-- The functions that `count` entries of the search table name. -/
def searchTable (segments : List Segment) (hdr : ℕ) : ℕ → Read (List Function)
  | 0 => pure []
  | count + 1 => do
    let _start ← u32
    let fde ← u32
    let found ← function segments ((hdr + signExtend 32 fde) % 2 ^ 64)
    let rest ← searchTable segments hdr count
    pure (found :: rest)

/-- Marks each function that starts before an earlier one ends. -/
def markForward (furthestEnd : ℕ) : List Function → List Function
  | [] => []
  | f :: rest =>
    if f.isEmpty then f :: markForward furthestEnd rest
    else { f with overlaps := f.start < furthestEnd } :: markForward (max furthestEnd f.stop) rest

/-- Marks each function that ends after a later one starts, the last function first. -/
def markBackward (nearestStart : ℕ) : List Function → List Function
  | [] => []
  | f :: rest =>
    if f.isEmpty then f :: markBackward nearestStart rest
    else { f with overlaps := f.overlaps || nearestStart < f.stop } ::
      markBackward (min nearestStart f.start) rest

/-- `sort_unstable_by_key(|function| (function.start, function.end))`. -/
def sortFunctions (functions : List Function) : List Function :=
  functions.insertionSort fun f g => f.start < g.start ∨ (f.start = g.start ∧ f.stop ≤ g.stop)

/-- The functions in order, with those that overlap another marked. -/
def arrange (found : List Function) : List Function :=
  (markBackward (2 ^ 64 - 1) (markForward 0 (sortFunctions found)).reverse).reverse

def searchTableHeader (hdr : ℕ) : Read (ℕ × Cursor) := do
  if (← u8) ≠ 1 then throw ⟨"the object has an unsupported .eh_frame_hdr version"⟩
  let frameEncoding ← u8
  let countEncoding ← u8
  let tableEncoding ← u8
  let _frame ← encodedPointer frameEncoding (some hdr)
  if countEncoding = omitted ∨ tableEncoding ≠ 0x3b then
    throw ⟨"the object's .eh_frame_hdr has no search table"⟩
  let count ← encodedValue countEncoding
  let entries ← sub (count * 8)
  pure (count, entries)

/-- Every function of the `.eh_frame_hdr` binary-search table. -/
def functions (hdr : ℕ) : Except CensusError (List Function) := do
  let table ← cursor segments hdr
  let (count, entries) ← table.read (searchTableHeader hdr)
  let found ← entries.read (searchTable segments hdr count)
  pure (arrange found)

/-! ## Landing pads -/

def callSite (encoding : UInt8) : Read ℕ := do
  let _start ← encodedValue encoding
  let _len ← encodedValue encoding
  let landingPad ← encodedValue encoding
  let _action ← uleb
  pure landingPad

/-- The landing pads of a call-site table, of at most `fuel` bytes. -/
def callSites (encoding : UInt8) : ℕ → Read (List ℕ)
  | 0 => pure []
  | fuel + 1 => do
    if (← get).bytes = [] then pure []
    else
      let landingPad ← callSite encoding
      let rest ← callSites encoding fuel
      pure (if landingPad ≠ 0 then landingPad :: rest else rest)

def landingPadTable (functionStart : ℕ) : Read (ℕ × UInt8 × Cursor) := do
  let landingPadEncoding ← u8
  let base ← if landingPadEncoding = omitted then pure functionStart
    else encodedPointer landingPadEncoding none
  if (← u8) ≠ omitted then
    let _typeTableOffset ← uleb
  let callSiteEncoding ← u8
  if callSiteEncoding &&& 0x70 ≠ 0 then throw unsupportedEncoding
  let table ← sub (← uleb)
  pure (base, callSiteEncoding, table)

/-- Every landing pad in a GCC-format LSDA. -/
def landingPads (lsda functionStart : ℕ) : Except CensusError (List ℕ) := do
  let header ← cursor segments lsda
  let (base, encoding, table) ← header.read (landingPadTable functionStart)
  let pads ← table.read (callSites encoding table.bytes.length)
  pure (pads.map fun pad => (base + pad) % 2 ^ 64)

/-! ## Bytes taken -/

/-- The reader takes at least `n` bytes if it succeeds. -/
def Takes {α : Type} (n : ℕ) (read : Read α) : Prop :=
  ∀ c a c', read.run c = .ok (a, c') → c'.bytes.length + n ≤ c.bytes.length

section
variable {α β : Type} {m n : ℕ} {read : Read α} {f : α → Read β}

theorem Takes.pure (a : α) : Takes 0 (Pure.pure a) := by
  rintro c _ _ ⟨⟩
  exact Nat.le_refl _

theorem Takes.throw (e : CensusError) : Takes n (MonadExcept.throw e : Read α) := by
  rintro c _ _ ⟨⟩

theorem Takes.mono (h : Takes n read) (hmn : m ≤ n) : Takes m read := fun c a c' hr => by
  have := h c a c' hr
  omega

theorem bind_run (read : Read α) (f : α → Read β) (c : Cursor) :
    (read >>= f).run c = match read.run c with
      | .ok (a, c') => (f a).run c'
      | .error e => .error e := by
  show (read.run c >>= fun p => (f p.1).run p.2) = _
  rcases read.run c with e | ⟨a, c'⟩ <;> rfl

theorem run_bind_ok {c c' : Cursor} {a : α} (h : read.run c = .ok (a, c')) :
    (read >>= f).run c = (f a).run c' := by
  rw [bind_run, h]

theorem Takes.bind (h : Takes m read) (hf : ∀ a, Takes n (f a)) : Takes (m + n) (read >>= f) := by
  intro c b c' hr
  rw [bind_run] at hr
  rcases hc : read.run c with e | ⟨a, c₁⟩
  · rw [hc] at hr
    cases hr
  · rw [hc] at hr
    have h1 := h c a c₁ hc
    have h2 := hf a c₁ b c' hr
    omega

theorem Takes.map (g : α → β) (h : Takes n read) : Takes n (g <$> read) := by
  exact (h.bind fun a => Takes.pure (g a)).mono (by omega)

theorem takes_take (length : ℕ) : Takes length (take length) := by
  intro c a c' hr
  have htake : (take length).run c = if length ≤ c.bytes.length then
      .ok (c.bytes.take length, ⟨c.bytes.drop length, (c.address + length) % 2 ^ 64⟩)
    else .error truncated := by
    show (if length ≤ c.bytes.length then _ else _ : Read (List UInt8)).run c = _
    split_ifs <;> rfl
  rw [htake] at hr
  split_ifs at hr with hle
  cases hr
  simp only [length_drop]
  omega

theorem takes_u8 : Takes 1 u8 := (takes_take 1).bind fun _ => Takes.pure _

theorem takes_uleb : Takes 1 uleb := by
  have hfrom : ∀ shifts value, Takes 1 (ulebFrom shifts value) := by
    intro shifts
    induction shifts with
    | nil => exact fun _ => Takes.throw _
    | cons shift shifts ih =>
      intro value
      refine (takes_u8.bind fun byte => ?_).mono (Nat.le_add_right 1 0)
      split_ifs
      · exact Takes.pure _
      · exact (ih _).mono (Nat.zero_le _)
  exact hfrom _ _

theorem takes_sleb : Takes 0 sleb := by
  have hfrom : ∀ shifts value, Takes 0 (slebFrom shifts value) := by
    intro shifts
    induction shifts with
    | nil => exact fun _ => Takes.throw _
    | cons shift shifts ih =>
      intro value
      refine (takes_u8.bind fun byte => ?_).mono (Nat.zero_le (1 + 0))
      split_ifs
      · exact Takes.pure _
      · exact Takes.pure _
      · exact ih _
  exact hfrom _ _

theorem takes_encodedValue (encoding : UInt8) : Takes 0 (encodedValue encoding) := by
  have hnumber : ∀ k, Takes 0 (Bytes.ofLe <$> take k) := fun k =>
    ((takes_take k).map _).mono (Nat.zero_le _)
  rw [encodedValue]
  split
  · exact hnumber 8
  · exact hnumber 8
  · exact hnumber 8
  · exact takes_uleb.mono (Nat.zero_le _)
  · exact hnumber 2
  · exact hnumber 4
  · exact takes_sleb
  · exact (hnumber 2).map _
  · exact (hnumber 4).map _
  · exact Takes.throw _

theorem takes_callSite (encoding : UInt8) : Takes 1 (callSite encoding) := by
  have h := takes_encodedValue encoding
  exact h.bind fun _ => h.bind fun _ => h.bind fun _ => takes_uleb.bind fun _ => Takes.pure _

theorem callSites_nil (encoding : UInt8) (n : ℕ) {c : Cursor} (hc : c.bytes = []) :
    (callSites encoding n).run c = .ok ([], c) := by
  cases n with
  | zero => rfl
  | succ n =>
    show (if c.bytes = [] then _ else _ : Read (List ℕ)).run c = _
    rw [if_pos hc]
    rfl

theorem callSites_succ (encoding : UInt8) (n : ℕ) {c : Cursor} (hc : c.bytes ≠ []) :
    (callSites encoding (n + 1)).run c = (do
      let landingPad ← callSite encoding
      let rest ← callSites encoding n
      pure (if landingPad ≠ 0 then landingPad :: rest else rest) : Read (List ℕ)).run c := by
  show (if c.bytes = [] then _ else _ : Read (List ℕ)).run c = _
  rw [if_neg hc]

/-- Fuel for every byte of the table is fuel enough, and takes them all. -/
theorem callSites_run (encoding : UInt8) : ∀ (m n : ℕ) (c : Cursor), c.bytes.length ≤ m →
    c.bytes.length ≤ n → (callSites encoding m).run c = (callSites encoding n).run c ∧
      ∀ pads c', (callSites encoding m).run c = .ok (pads, c') → c'.bytes = [] := by
  intro m
  induction m with
  | zero =>
    intro n c hm _
    have hc := eq_nil_of_length_eq_zero (Nat.le_zero.1 hm)
    rw [callSites_nil encoding 0 hc, callSites_nil encoding n hc]
    refine ⟨rfl, ?_⟩
    rintro _ _ ⟨⟩
    exact hc
  | succ m ih =>
    intro n c hm hn
    by_cases hc : c.bytes = []
    · rw [callSites_nil encoding _ hc, callSites_nil encoding n hc]
      refine ⟨rfl, ?_⟩
      rintro _ _ ⟨⟩
      exact hc
    · obtain ⟨n, rfl⟩ : ∃ k, n = k + 1 := by
        refine ⟨n - 1, ?_⟩
        have := length_pos_iff.2 hc
        omega
      rw [callSites_succ encoding m hc, callSites_succ encoding n hc, bind_run, bind_run]
      rcases hs : (callSite encoding).run c with e | ⟨pad, c'⟩
      · exact ⟨rfl, by rintro _ _ ⟨⟩⟩
      · have := takes_callSite encoding c pad c' hs
        obtain ⟨hsame, hall⟩ := ih n c' (by omega) (by omega)
        dsimp only
        rw [bind_run, bind_run, ← hsame]
        refine ⟨rfl, fun pads last hrun => ?_⟩
        rcases hr : (callSites encoding m).run c' with e | ⟨rest, c''⟩
        · rw [hr] at hrun
          cases hrun
        · rw [hr] at hrun
          cases hrun
          exact hall rest _ hr

/-- **The fuel of a call-site table is its length.**  Every call site takes a byte, so the loop
    of `landing_pads` ends: any fuel of at least the table's length gives one result, and where
    that is a success no byte of the table is left. -/
theorem callSites_fuel (encoding : UInt8) (c : Cursor) :
    (∀ pad c', (callSite encoding).run c = .ok (pad, c') →
      c'.bytes.length < c.bytes.length) ∧
    ∀ m n, c.bytes.length ≤ m → c.bytes.length ≤ n →
      (callSites encoding m).run c = (callSites encoding n).run c ∧
      ∀ pads c', (callSites encoding m).run c = .ok (pads, c') → c'.bytes = [] :=
  ⟨fun pad c' h => takes_callSite encoding c pad c' h, fun m n => callSites_run encoding m n c⟩

end

/-! ## The order of functions -/

/-- `f` is `g`, marked at least as much. -/
def Function.Marks (g f : Function) : Prop :=
  f.start = g.start ∧ f.stop = g.stop ∧ (f.overlaps = false → g.overlaps = false)

variable {f : Function} {k : ℕ} {fs : List Function}

theorem Function.Marks.isEmpty {g : Function} (h : g.Marks f) : f.isEmpty = g.isEmpty := by
  rw [Function.isEmpty, Function.isEmpty, h.1, h.2.1]

theorem mem_markBackward (h : f ∈ markBackward k fs) : ∃ g ∈ fs, g.Marks f := by
  induction fs generalizing k with
  | nil => exact absurd h not_mem_nil
  | cons g rest ih =>
    rw [markBackward] at h
    split_ifs at h <;> rcases mem_cons.1 h with rfl | h
    · exact ⟨f, mem_cons_self, rfl, rfl, id⟩
    · obtain ⟨g', hg', hf⟩ := ih h
      exact ⟨g', mem_cons_of_mem _ hg', hf⟩
    · exact ⟨g, mem_cons_self, rfl, rfl, fun ho => (Bool.or_eq_false_iff.1 ho).1⟩
    · obtain ⟨g', hg', hf⟩ := ih h
      exact ⟨g', mem_cons_of_mem _ hg', hf⟩

/-- A function that starts before the furthest end of an earlier one is marked. -/
theorem markForward_apart (k : ℕ) (fs : List Function) :
    (∀ f ∈ markForward k fs, f.isEmpty = false → f.overlaps = false → k ≤ f.start) ∧
      (markForward k fs).Pairwise fun g f => g.isEmpty = false → f.isEmpty = false →
        f.overlaps = false → g.stop ≤ f.start := by
  induction fs generalizing k with
  | nil => exact ⟨fun f h => absurd h not_mem_nil, List.Pairwise.nil⟩
  | cons g rest ih =>
    rw [markForward]
    rcases hg : g.isEmpty with - | -
    · obtain ⟨hfurther, hpairs⟩ := ih (max k g.stop)
      refine ⟨fun f hf he ho => ?_, pairwise_cons.2 ⟨fun f hf _ he ho => ?_, hpairs⟩⟩
      · rcases mem_cons.1 hf with rfl | hf
        · simpa using ho
        · exact (le_max_left _ _).trans (hfurther f hf he ho)
      · exact (le_max_right _ _).trans (hfurther f hf he ho)
    · obtain ⟨hfurther, hpairs⟩ := ih k
      refine ⟨fun f hf he ho => ?_, pairwise_cons.2 ⟨fun f hf he => ?_, hpairs⟩⟩
      · rcases mem_cons.1 hf with rfl | hf
        · exact absurd (hg.symm.trans he) (by simp)
        · exact hfurther f hf he ho
      · exact absurd (hg.symm.trans he) (by simp)

/-- A function that ends after the nearest start of a later one is marked. -/
theorem markBackward_apart (k : ℕ) (fs : List Function) :
    (∀ f ∈ markBackward k fs, f.isEmpty = false → f.overlaps = false → f.stop ≤ k) ∧
      (markBackward k fs).Pairwise fun g f => g.isEmpty = false → f.isEmpty = false →
        f.overlaps = false → f.stop ≤ g.start := by
  induction fs generalizing k with
  | nil => exact ⟨fun f h => absurd h not_mem_nil, List.Pairwise.nil⟩
  | cons g rest ih =>
    rw [markBackward]
    rcases hg : g.isEmpty with - | -
    · obtain ⟨hfurther, hpairs⟩ := ih (min k g.start)
      refine ⟨fun f hf he ho => ?_, pairwise_cons.2 ⟨fun f hf _ he ho => ?_, hpairs⟩⟩
      · rcases mem_cons.1 hf with rfl | hf
        · have hk := (Bool.or_eq_false_iff.1 ho).2
          simpa using hk
        · exact (hfurther f hf he ho).trans (min_le_left _ _)
      · exact (hfurther f hf he ho).trans (min_le_right _ _)
    · obtain ⟨hfurther, hpairs⟩ := ih k
      refine ⟨fun f hf he ho => ?_, pairwise_cons.2 ⟨fun f hf he => ?_, hpairs⟩⟩
      · rcases mem_cons.1 hf with rfl | hf
        · exact absurd (hg.symm.trans he) (by simp)
        · exact hfurther f hf he ho
      · exact absurd (hg.symm.trans he) (by simp)

theorem pairwise_markBackward {R : Function → Function → Prop}
    (hR : ∀ g g' f f', g.Marks g' → f.Marks f' → R g f → R g' f') (h : fs.Pairwise R) :
    (markBackward k fs).Pairwise R := by
  induction fs generalizing k with
  | nil => exact List.Pairwise.nil
  | cons g rest ih =>
    obtain ⟨hg, hrest⟩ := pairwise_cons.1 h
    have htail : ∀ {k g'}, g.Marks g' → ∀ f' ∈ markBackward k rest, R g' f' := by
      intro k g' hmarks f' hf'
      obtain ⟨f, hf, hf'⟩ := mem_markBackward hf'
      exact hR g g' f f' hmarks hf' (hg f hf)
    rw [markBackward]
    split_ifs
    · exact pairwise_cons.2 ⟨htail ⟨rfl, rfl, id⟩, ih hrest⟩
    · exact pairwise_cons.2
        ⟨htail ⟨rfl, rfl, fun ho => (Bool.or_eq_false_iff.1 ho).1⟩, ih hrest⟩

/-- Of two functions that are not both marked, the earlier ends before the later
    starts. -/
theorem arrange_apart (found : List Function) :
    (arrange found).Pairwise fun g f => g.isEmpty = false → f.isEmpty = false →
      g.overlaps = false ∨ f.overlaps = false → g.stop ≤ f.start := by
  have hforward := (markForward_apart 0 (sortFunctions found)).2
  rw [← pairwise_reverse] at hforward
  have hforward := pairwise_markBackward (k := 2 ^ 64 - 1) ?_ hforward
  · have hbackward := (markBackward_apart (2 ^ 64 - 1)
      (markForward 0 (sortFunctions found)).reverse).2
    rw [arrange, pairwise_reverse]
    refine (hforward.and hbackward).imp fun {f g} h hg hf ho => ?_
    rcases ho with ho | ho
    · exact h.2 hf hg ho
    · exact h.1 hg hf ho
  · intro f f' g g' hf hg h he he' ho
    rw [hf.1, hg.2.1]
    rw [hg.isEmpty] at he
    rw [hf.isEmpty] at he'
    exact h he he' (hf.2.2 ho)

theorem map_start_markForward : (markForward k fs).map (·.start) = fs.map (·.start) := by
  induction fs generalizing k with
  | nil => rfl
  | cons g rest ih =>
    rw [markForward]
    split_ifs <;> rw [map_cons, map_cons, ih]

theorem map_start_markBackward : (markBackward k fs).map (·.start) = fs.map (·.start) := by
  induction fs generalizing k with
  | nil => rfl
  | cons g rest ih =>
    rw [markBackward]
    split_ifs <;> rw [map_cons, map_cons, ih]

theorem arrange_sorted (found : List Function) :
    (arrange found).Pairwise fun g f => g.start ≤ f.start := by
  have hmap : (arrange found).map (·.start) = (sortFunctions found).map (·.start) := by
    rw [arrange, map_reverse, map_start_markBackward, map_reverse, reverse_reverse,
      map_start_markForward]
  have hsorted : ((sortFunctions found).map (·.start)).Pairwise (· ≤ ·) := by
    rw [pairwise_map]
    have htotal : Std.Total fun f g : Function =>
        f.start < g.start ∨ (f.start = g.start ∧ f.stop ≤ g.stop) := ⟨fun f g => by omega⟩
    have htrans : IsTrans Function fun f g =>
        f.start < g.start ∨ (f.start = g.start ∧ f.stop ≤ g.stop) := ⟨fun f g h => by omega⟩
    refine (pairwise_insertionSort _ found).imp fun {g f} h => ?_
    omega
  rw [← hmap, pairwise_map] at hsorted
  exact hsorted

end Reverie.LiteInst
