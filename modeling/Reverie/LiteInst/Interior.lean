/-
  No known entry lands inside a patched window (`prove_excludes_entries`).  `Promised` lists the
  entries that a census is to know, each by what it is and not by how the census finds it: an
  instruction's by its fields, a landing pad by the records of the call-site table.
-/
import Reverie.Lib.Outcome
import Reverie.LiteInst.Sites

namespace Reverie.LiteInst
open List Outcome

/-! ## Promised entries -/

/-- The instructions of `[first, last)`, decoded from `first`. -/
def decoded (dec : Decoder) (text : Text) (first last : ℕ) : List Instruction :=
  decodeAll dec (text.codeOf first last) first 0

/-- The function has code, and all of it is in the text. -/
def Function.Within (text : Text) (f : Function) : Prop :=
  f.start < f.stop ∧ text.start ≤ f.start ∧ f.stop ≤ text.stop

/-- A longest range of the text that is in no function. -/
structure Gap (text : Text) (fs : List Function) (first last : ℕ) : Prop where
  lt : first < last
  lower : first = text.start ∨ ∃ f ∈ fs, f.Within text ∧ f.stop = first
  upper : last = text.stop ∨ ∃ f ∈ fs, f.Within text ∧ f.start = last
  free : ∀ f ∈ fs, f.Within text → f.stop ≤ first ∨ last ≤ f.start

/-- Where control may come to because of an instruction. -/
inductive Instruction.Entry (i : Instruction) : ℕ → Prop
  /-- the target of a direct branch, call or loop -/
  | target : i.op0Kind = .nearBranch → Entry i i.nearBranchTarget
  /-- the return address of a call -/
  | returnAddress : i.mnemonic = .call → Entry i (i.ip + i.len)
  /-- the address that a RIP-relative `lea` computes -/
  | computed (address : ℕ) : i.mnemonic = .lea → i.ipRelMemoryAddress = some address →
      Entry i address

/-- What is between functions. -/
def Instruction.Padding (i : Instruction) : Prop :=
  i.invalid = false ∧ (i.mnemonic = .nop ∨ i.mnemonic = .int3)

/-- The fields of a call-site record at the cursor, with the landing pad, and what follows. -/
inductive CallSiteRecord (encoding : UInt8) (c : Cursor) : ℕ → Cursor → Prop
  | mk (start length pad action : ℕ) (c₁ c₂ c₃ c₄ : Cursor) :
      (encodedValue encoding).run c = .ok (start, c₁) →
      (encodedValue encoding).run c₁ = .ok (length, c₂) →
      (encodedValue encoding).run c₂ = .ok (pad, c₃) → uleb.run c₃ = .ok (action, c₄) →
      CallSiteRecord encoding c pad c₄

/-- One of the records from the cursor on has the landing pad. -/
inductive HasPad (encoding : UInt8) : Cursor → ℕ → Prop
  | here (c c' : Cursor) (pad : ℕ) : CallSiteRecord encoding c pad c' → HasPad encoding c pad
  | later (c c' : Cursor) (pad other : ℕ) : CallSiteRecord encoding c other c' →
      HasPad encoding c' pad → HasPad encoding c pad

/-- The fields of the header of an LSDA at the cursor: the base of its landing pads, and the
    encoding of its call-site table and the table. -/
inductive LsdaHeader (functionStart : ℕ) (c : Cursor) : ℕ → UInt8 → Cursor → Prop
  | mk (padEncoding typeEncoding encoding : UInt8) (base length : ℕ) (table : Cursor)
      (c₁ c₂ c₃ c₄ c₅ c₆ c₇ : Cursor) : u8.run c = .ok (padEncoding, c₁) →
      (if padEncoding = omitted then base = functionStart ∧ c₂ = c₁
        else (encodedPointer padEncoding none).run c₁ = .ok (base, c₂)) →
      u8.run c₂ = .ok (typeEncoding, c₃) →
      (if typeEncoding = omitted then c₄ = c₃ else ∃ offset, uleb.run c₃ = .ok (offset, c₄)) →
      u8.run c₄ = .ok (encoding, c₅) → uleb.run c₅ = .ok (length, c₆) →
      (sub length).run c₆ = .ok (table, c₇) → LsdaHeader functionStart c base encoding table

/-- The entries that a census is to know. -/
inductive Promised (dec : Decoder) (text : Text) (segments : List Segment) (fs : List Function) :
    ℕ → Prop
  | start (f : Function) : f ∈ fs → Promised dec text segments fs f.start
  /-- a landing pad that a call site of the function names -/
  | landingPad (f : Function) (c table : Cursor) (base pad : ℕ) (encoding : UInt8) : f ∈ fs →
      f.lsda ≠ 0 → cursor segments f.lsda = .ok c → LsdaHeader f.start c base encoding table →
      HasPad encoding table pad → pad ≠ 0 →
      Promised dec text segments fs ((base + pad) % 2 ^ 64)
  /-- an entry of an instruction of a function -/
  | code (f : Function) (i : Instruction) (entry : ℕ) : f ∈ fs → f.Within text →
      i ∈ decoded dec text f.start f.stop → i.invalid = false → i.Entry entry →
      Promised dec text segments fs entry
  /-- an entry of an instruction between functions -/
  | gap (first last : ℕ) (i : Instruction) (entry : ℕ) : Gap text fs first last →
      i ∈ decoded dec text first last → i.invalid = false → i.Entry entry →
      Promised dec text segments fs entry
  /-- an aligned word of another mapping that points into the text -/
  | word (segment : Segment) (offset : ℕ) : segment ∈ segments → segment.executable = false →
      (segment.address + offset) % 8 = 0 → offset + 8 ≤ segment.bytes.length →
      text.start ≤ Bytes.ofLe ((segment.bytes.drop offset).take 8) →
      Bytes.ofLe ((segment.bytes.drop offset).take 8) < text.stop →
      Promised dec text segments fs (Bytes.ofLe ((segment.bytes.drop offset).take 8))
  /-- the first instruction within 64 bytes after a function that is not padding -/
  | after (f : Function) (padding rest : List Instruction) (i : Instruction) : f ∈ fs →
      f.Within text → decoded dec text f.stop (f.stop + min (text.stop - f.stop) 64) =
        padding ++ i :: rest → (∀ j ∈ padding, j.Padding) → ¬ i.Padding →
      Promised dec text segments fs i.ip

theorem decodeRange_eq (dec : Decoder) (text : Text) (first last : ℕ) :
    decodeRange dec text first last = decoded dec text first last :=
  decodeEach_eq _

/-! ## Entries of one instruction or table -/

theorem Instruction.Entry.mem {i : Instruction} {entry : ℕ} (h : i.Entry entry) :
    entry ∈ instructionEntries i := by
  rw [instructionEntries, mem_append]
  cases h with
  | target h => exact .inl (by rw [if_pos h]; exact mem_singleton_self _)
  | returnAddress h => exact .inr (by rw [h]; exact mem_singleton_self _)
  | computed _ h ha => exact .inr (by rw [h, ha]; exact mem_singleton_self _)

theorem padding_iff {i : Instruction} : i.Padding ↔ (i.invalid || !isPadding i) = false := by
  rw [Instruction.Padding, Bool.or_eq_false_iff, Bool.not_eq_false', isPadding, Bool.or_eq_true,
    decide_eq_true_eq, decide_eq_true_eq]

theorem CallSiteRecord.run {encoding : UInt8} {c c' : Cursor} {pad : ℕ}
    (h : CallSiteRecord encoding c pad c') : (callSite encoding).run c = .ok (pad, c') := by
  obtain ⟨start, length, _, action, c₁, c₂, c₃, _, hstart, hlength, hpad, haction⟩ := h
  rw [callSite, run_bind_ok hstart, run_bind_ok hlength, run_bind_ok hpad, run_bind_ok haction]
  rfl

/-- A landing pad of the table is among those that a run over all of it returns. -/
theorem HasPad.mem {encoding : UInt8} {c : Cursor} {pad : ℕ} (h : HasPad encoding c pad)
    (hpad : pad ≠ 0) : ∀ {fuel : ℕ} {pads : List ℕ} {c' : Cursor}, c.bytes.length ≤ fuel →
      (callSites encoding fuel).run c = .ok (pads, c') → pad ∈ pads := by
  have hne : ∀ {c c' : Cursor} {pad : ℕ}, CallSiteRecord encoding c pad c' →
      c'.bytes.length < c.bytes.length := fun h => takes_callSite encoding _ _ _ h.run
  have hsucc : ∀ {c c₁ c' : Cursor} {other fuel : ℕ} {pads : List ℕ},
      CallSiteRecord encoding c other c₁ → c.bytes.length ≤ fuel →
      (callSites encoding fuel).run c = .ok (pads, c') →
      ∃ less rest, c₁.bytes.length ≤ less ∧ (callSites encoding less).run c₁ = .ok (rest, c') ∧
        pads = if other ≠ 0 then other :: rest else rest := by
    intro c c₁ c' other fuel pads hrecord hfuel hrun
    have hlt := hne hrecord
    obtain ⟨less, rfl⟩ : ∃ less, fuel = less + 1 := ⟨fuel - 1, by omega⟩
    rw [callSites_succ encoding less (by rintro hc; rw [hc] at hlt; cases hlt),
      run_bind_ok hrecord.run, bind_run] at hrun
    rcases hr : (callSites encoding less).run c₁ with e | ⟨rest, c₂⟩
    · rw [hr] at hrun
      cases hrun
    · rw [hr] at hrun
      cases hrun
      exact ⟨less, rest, by omega, hr, rfl⟩
  induction h with
  | here c c₁ pad hrecord =>
    intro fuel pads c' hfuel hrun
    obtain ⟨_, rest, -, -, rfl⟩ := hsucc hrecord hfuel hrun
    rw [if_pos hpad]
    exact mem_cons_self
  | later c c₁ pad other hrecord _ ih =>
    intro fuel pads c' hfuel hrun
    obtain ⟨less, rest, hless, hrest, rfl⟩ := hsucc hrecord hfuel hrun
    have hmem := ih hpad hless hrest
    split_ifs
    · exact mem_cons_of_mem _ hmem
    · exact hmem

theorem LsdaHeader.run {functionStart base : ℕ} {c table : Cursor} {encoding : UInt8}
    (h : LsdaHeader functionStart c base encoding table) {found : ℕ × UInt8 × Cursor}
    (hread : c.read (landingPadTable functionStart) = .ok found) :
    found = (base, encoding, table) := by
  obtain ⟨padEncoding, typeEncoding, _, _, length, _, c₁, c₂, c₃, c₄, c₅, c₆, c₇, hpad, hbase,
    htype, hoffset, hencoding, hlength, htable⟩ := h
  have htail : ∀ rest : UInt8 → Read (ℕ × UInt8 × Cursor),
      (if typeEncoding ≠ omitted then uleb >>= fun _ => u8 >>= rest else u8 >>= rest).run c₃ =
        (rest encoding).run c₅ := by
    intro rest
    split_ifs at hoffset with homit
    · rw [if_neg (not_not.2 homit), ← hoffset, run_bind_ok hencoding]
    · obtain ⟨offset, hoffset⟩ := hoffset
      rw [if_pos homit, run_bind_ok hoffset, run_bind_ok hencoding]
  have hrun : (landingPadTable functionStart).run c = (do
      if encoding &&& 0x70 ≠ 0 then throw unsupportedEncoding
      let table ← sub (← uleb)
      pure (base, encoding, table) : Read (ℕ × UInt8 × Cursor)).run c₅ := by
    rw [landingPadTable, run_bind_ok hpad]
    split_ifs at hbase with homit
    · obtain ⟨rfl, rfl⟩ := hbase
      dsimp only
      rw [if_pos homit, pure_bind, run_bind_ok htype]
      exact htail _
    · dsimp only
      rw [if_neg homit, run_bind_ok hbase, run_bind_ok htype]
      exact htail _
  rw [Cursor.read, hrun] at hread
  split_ifs at hread with henc
  · cases hread
  · rw [run_bind_ok hlength, run_bind_ok htable] at hread
    cases hread
    rfl

/-! ## Gathering -/

section
variable {dec : Decoder} {text : Text} {segments : List Segment}
  {f : Function} {fs : List Function}

theorem codeEntries_cons {rest : List Function} {covered : ℕ} {entries : List ℕ}
    (h : codeEntries dec text segments (f :: rest) covered = .ok entries) :
    ∃ pads later, padsOf segments f = .ok pads ∧
      codeEntries dec text segments rest
        (if f.inText text then max covered f.stop else covered) = .ok later ∧
      entries = f.start :: pads ++
        (if f.inText text then
          (if covered < f.start then gapEntries dec text covered f.start else []) ++
            (decodeFunction dec text f).2.flatMap instructionEntries ++ codeAfter dec text f.stop
        else []) ++ later := by
  rw [codeEntries, bind_eq_ok] at h
  obtain ⟨pads, hpads, h⟩ := h
  rcases hin : f.inText text with - | -
  · rw [hin, if_neg Bool.false_ne_true, bind_eq_ok] at h
    obtain ⟨later, hlater, h⟩ := h
    cases h
    exact ⟨pads, later, hpads, hlater, by simp⟩
  · rw [hin, if_pos rfl, bind_eq_ok] at h
    obtain ⟨later, hlater, h⟩ := h
    cases h
    exact ⟨pads, later, hpads, hlater, by simp⟩

theorem codeEntries_function : ∀ {covered : ℕ} {entries : List ℕ},
    codeEntries dec text segments fs covered = .ok entries →
      ∀ f ∈ fs, f.start ∈ entries ∧
        (∃ pads, padsOf segments f = .ok pads ∧ ∀ e ∈ pads, e ∈ entries) ∧
        (f.inText text = true →
          (∀ e ∈ (decodeFunction dec text f).2.flatMap instructionEntries, e ∈ entries) ∧
          ∀ e ∈ codeAfter dec text f.stop, e ∈ entries) := by
  induction fs with
  | nil => exact fun _ f hf => absurd hf not_mem_nil
  | cons g rest ih =>
    intro covered entries h f hf
    obtain ⟨pads, later, hpads, hlater, rfl⟩ := codeEntries_cons h
    rcases mem_cons.1 hf with rfl | hf
    · refine ⟨by simp, ⟨pads, hpads, fun e he => by simp [he]⟩,
        fun hin => ⟨fun e he => ?_, fun e he => ?_⟩⟩
      · simp only [hin, if_true, mem_append]
        exact .inl (.inr (.inl (.inr he)))
      · simp only [hin, if_true, mem_append]
        exact .inl (.inr (.inr he))
    · obtain ⟨hstart, ⟨pads', hpads', hmem⟩, hcode⟩ := ih hlater f hf
      refine ⟨mem_append_right _ hstart,
        ⟨pads', hpads', fun e he => mem_append_right _ (hmem e he)⟩,
        fun hin => ⟨fun e he => mem_append_right _ ((hcode hin).1 e he),
          fun e he => mem_append_right _ ((hcode hin).2 e he)⟩⟩

theorem inText_iff : f.inText text = true ↔ f.Within text := by
  simp only [Function.Within, Function.inText, Function.isEmpty, Bool.and_eq_true, Bool.not_eq_true',
    decide_eq_false_iff_not, decide_eq_true_eq, Nat.not_le, and_assoc]

/-- A gap that is still ahead is decoded from its start: the functions before it end at
    `first` or earlier, one of them there. -/
theorem codeEntries_gap {first last : ℕ} (hlt : first < last) :
    ∀ {covered : ℕ} {entries : List ℕ}, codeEntries dec text segments fs covered = .ok entries →
      (fs.Pairwise fun g f => g.start ≤ f.start) →
      (covered = first ∨ covered ≤ first ∧ ∃ f ∈ fs, f.Within text ∧ f.stop = first) →
      (last = text.stop ∨ ∃ f ∈ fs, f.Within text ∧ f.start = last) →
      (∀ f ∈ fs, f.Within text → f.stop ≤ first ∨ last ≤ f.start) →
      ∀ e ∈ gapEntries dec text first last, e ∈ entries := by
  induction fs with
  | nil =>
    intro covered entries h _ hlower hupper _ e he
    obtain rfl : covered = first := by simpa using hlower
    obtain rfl : last = text.stop := by simpa using hupper
    rw [codeEntries, if_pos hlt] at h
    cases h
    exact he
  | cons f rest ih =>
    intro covered entries h hsorted hlower hupper hfree e he
    obtain ⟨pads, later, -, hlater, rfl⟩ := codeEntries_cons h
    obtain ⟨hf, hrest⟩ := pairwise_cons.1 hsorted
    have hfree' := fun g hg => hfree g (mem_cons_of_mem _ hg)
    rcases hin : f.inText text with - | -
    · -- a function outside the text is no bound of a gap
      have hout : ¬ f.Within text := by
        rw [← inText_iff, hin]
        exact Bool.false_ne_true
      rw [hin, if_neg Bool.false_ne_true] at hlater
      refine mem_append_right _ (ih hlater hrest ?_ ?_ hfree' e he)
      · simpa only [exists_mem_cons_iff, hout, false_and, false_or]
          using hlower
      · simpa only [exists_mem_cons_iff, hout, false_and, false_or]
          using hupper
    · have hwithin := inText_iff.1 hin
      have ⟨hne, hfs, hft⟩ := hwithin
      rcases hfree f mem_cons_self hwithin with hbefore | hafter
      · rw [hin, if_pos rfl] at hlater
        refine mem_append_right _ (ih hlater hrest ?_ ?_ hfree' e he)
        · rcases hlower with rfl | ⟨hle, g, hg, hgin, hgs⟩
          · exact .inl (max_eq_left hbefore)
          · rcases mem_cons.1 hg with rfl | hg
            · exact .inl (by omega)
            · exact .inr ⟨by omega, g, hg, hgin, hgs⟩
        · rcases hupper with hstop | ⟨g, hg, hgin, hgs⟩
          · exact .inl hstop
          · rcases mem_cons.1 hg with rfl | hg
            · omega
            · exact .inr ⟨g, hg, hgin, hgs⟩
      · -- the first function after the gap
        have hcovered : covered = first := by
          rcases hlower with hc | ⟨-, g, hg, hgin, hgs⟩
          · exact hc
          · have hgne := hgin.1
            rcases mem_cons.1 hg with rfl | hg
            · omega
            · have := hf g hg
              omega
        have hlast : f.start = last := by
          rcases hupper with hstop | ⟨g, hg, -, hgs⟩
          · omega
          · rcases mem_cons.1 hg with rfl | hg
            · exact hgs
            · have := hf g hg
              omega
        rw [hcovered, hlast, if_pos hlt]
        simp only [if_true, mem_append]
        exact .inl (.inr (.inl (.inl he)))

/-! ## Words -/

theorem mem_words : ∀ (k : ℕ) (bytes : List UInt8), 8 * k + 8 ≤ bytes.length →
    Bytes.ofLe ((bytes.drop (8 * k)).take 8) ∈ words bytes
  | k, b₀ :: b₁ :: b₂ :: b₃ :: b₄ :: b₅ :: b₆ :: b₇ :: rest, h => by
    rcases k with - | k
    · exact mem_cons_self
    · refine mem_cons_of_mem _ ?_
      refine mem_words k rest ?_
      simp only [length_cons] at h
      omega
  | _, [], h | _, [_], h | _, [_, _], h | _, [_, _, _], h | _, [_, _, _, _], h
  | _, [_, _, _, _, _], h | _, [_, _, _, _, _, _], h | _, [_, _, _, _, _, _, _], h => by
    simp only [length_cons, length_nil] at h
    omega

theorem mem_wordEntries {segment : Segment} {offset : ℕ} (hseg : segment ∈ segments)
    (hexec : segment.executable = false) (halign : (segment.address + offset) % 8 = 0)
    (hlen : offset + 8 ≤ segment.bytes.length) {word : ℕ}
    (hword : Bytes.ofLe ((segment.bytes.drop offset).take 8) = word)
    (hlow : text.start ≤ word) (hhigh : word < text.stop) : word ∈ wordEntries text segments := by
  refine mem_flatMap.2 ⟨segment, mem_filter.2 ⟨hseg, by rw [hexec]; rfl⟩,
    mem_filter.2 ⟨?_, by rw [decide_eq_true hlow, decide_eq_true hhigh]; rfl⟩⟩
  have hoffset : offset = (8 - segment.address % 8) % 8 +
      8 * ((offset - (8 - segment.address % 8) % 8) / 8) := by omega
  rw [← hword, hoffset, ← drop_drop]
  refine mem_words _ _ ?_
  rw [length_drop]
  omega

theorem promised_mem {entries : List ℕ}
    (hcode : codeEntries dec text segments fs text.start = .ok entries)
    (hsorted : fs.Pairwise fun g f => g.start ≤ f.start) {entry : ℕ}
    (h : Promised dec text segments fs entry) : entry ∈ entries ++ wordEntries text segments := by
  rw [mem_append]
  cases h with
  | start f hf => exact .inl (codeEntries_function hcode f hf).1
  | landingPad f c table base pad encoding hf hlsda hc hheader hpad hne =>
    obtain ⟨pads, hpads, hmem⟩ := (codeEntries_function hcode f hf).2.1
    rw [padsOf, if_pos hlsda, landingPads, hc] at hpads
    obtain ⟨_, ⟨⟩, hpads⟩ := bind_eq_ok.1 hpads
    obtain ⟨found, hfound, hpads⟩ := bind_eq_ok.1 hpads
    cases hheader.run hfound
    obtain ⟨sites, hsites, hpads⟩ := bind_eq_ok.1 hpads
    cases hpads
    refine .inl (hmem _ (mem_map.2 ⟨pad, ?_, rfl⟩))
    rcases hrun : (callSites encoding table.bytes.length).run table with e | ⟨_, last⟩
    · rw [Cursor.read, hrun] at hsites
      cases hsites
    · rw [Cursor.read, hrun] at hsites
      cases hsites
      exact hpad.mem hne (Nat.le_refl _) hrun
  | code f i _ hf hin hi hvalid he =>
    refine .inl (((codeEntries_function hcode f hf).2.2 (inText_iff.2 hin)).1 _ ?_)
    rw [decodeFunction, decodeRange_eq]
    exact mem_flatMap.2 ⟨i, mem_filter.2 ⟨hi, by rw [hvalid]; rfl⟩, he.mem⟩
  | gap first last i _ hgap hi hvalid he =>
    have hlower : text.start = first ∨
        text.start ≤ first ∧ ∃ f ∈ fs, f.Within text ∧ f.stop = first := by
      rcases hgap.lower with hstart | ⟨f, hf, hin, hstop⟩
      · exact .inl hstart.symm
      · have ⟨hlt, hle, _⟩ := hin
        exact .inr ⟨by omega, f, hf, hin, hstop⟩
    refine .inl (codeEntries_gap hgap.lt hcode hsorted hlower hgap.upper hgap.free _ ?_)
    rw [gapEntries, decodeRange_eq]
    exact mem_flatMap.2 ⟨i, mem_filter.2 ⟨hi, by rw [hvalid]; rfl⟩, he.mem⟩
  | word segment offset hseg hexec halign hlen hlow hhigh =>
    exact .inr (mem_wordEntries hseg hexec halign hlen rfl hlow hhigh)
  | after f padding rest i hf hin hcode' hpadding hi =>
    refine .inl (((codeEntries_function hcode f hf).2.2 (inText_iff.2 hin)).2 _ ?_)
    have hfind : (padding ++ i :: rest).find? (fun j => j.invalid || !isPadding j) = some i := by
      rw [find?_append, find?_eq_none.2 fun j hj => ?_, Option.none_or, find?_cons_of_pos]
      · rwa [padding_iff, Bool.not_eq_false] at hi
      · rw [padding_iff.1 (hpadding j hj)]
        exact Bool.false_ne_true
    rw [codeAfter, decodeRange_eq, windowLookahead, hcode', hfind]
    exact mem_singleton_self _

end

/-! ## The displaced window -/

variable {address : ℕ} {scan : List ScannedInstruction}

theorem displacedFrom_lt (hlen : ∀ i ∈ scan, i.len ≤ maxInstructionBytes) : ∀ {current stop : ℕ},
      current < address + nearJumpBytes → displacedFrom address scan current = some stop →
        stop < address + nearJumpBytes + maxInstructionBytes := by
  induction scan with
  | nil => rintro current stop - ⟨⟩
  | cons i rest ih =>
    intro current stop hlt h
    have hi := hlen i mem_cons_self
    rw [displacedFrom] at h
    split_ifs at h with haddr hover hcover
    · cases h
      omega
    · exact ih (fun j hj => hlen j (mem_cons_of_mem _ hj)) (by omega) h

theorem displacedEnd_le {stop : ℕ}
    (hlen : ∀ i ∈ scan, i.len ≤ maxInstructionBytes) (h : displacedEnd address scan = some stop) :
    stop ≤ address + windowLookahead := by
  rw [displacedEnd] at h
  split at h
  · cases h
  · have hlt := displacedFrom_lt
      (fun i hi => hlen i ((dropWhile_sublist _).subset hi))
      (Nat.lt_add_of_pos_right (by decide)) h
    rw [nearJumpBytes, maxInstructionBytes] at hlt
    rw [windowLookahead]
    omega

/-! ## Sites that pass -/

section
variable {census : Census} {address : ℕ} {scan : List ScannedInstruction}

theorem prove_ok (h : prove census address scan = .ok ()) :
    ∃ site ∈ census.sites, site.address = address ∧ site.opaqueCode = false ∧
      ∃ stop, displacedEnd address scan = some stop ∧ stop ≤ site.limit := by
  rw [prove, Census.site] at h
  split at h
  · cases h
  · next site hfind =>
    have haddr := find?_some hfind
    split_ifs at h with hop
    · cases h
    · refine ⟨site, mem_of_find?_eq_some hfind, of_decide_eq_true haddr,
        Bool.eq_false_of_not_eq_true hop, ?_⟩
      have h : proveWithin address ⟨site.len, site.limit⟩ scan = .ok () := h
      rcases scan with - | ⟨first, rest⟩
      · cases h
      · rw [proveWithin] at h
        split_ifs at h with hfirst
        split at h
        · cases h
        · next stop hstop =>
          split_ifs at h with hlimit
          exact ⟨stop, hstop, Nat.not_lt.1 hlimit⟩

end

section
variable {dec : Decoder} {segments : List Segment} {header host : ℕ} {range : ℕ × ℕ}
variable {fs : List Function} {f : Function} {text : Text}

theorem functions_ok {hdr : ℕ} (h : functions segments hdr = .ok fs) :
    ∃ found, fs = arrange found := by
  rw [functions, bind_eq_ok] at h
  obtain ⟨table, -, h⟩ := h
  rw [bind_eq_ok] at h
  obtain ⟨⟨count, entries⟩, -, h⟩ := h
  obtain ⟨found, -, h⟩ := bind_eq_ok.1 h
  cases h
  exact ⟨found, rfl⟩

theorem build_ok {census : Census} (h : build dec segments header range host = .ok census) :
    ∃ text hdr found entries, textOf segments range host = .ok text ∧
      ehFrameHdr segments header = .ok hdr ∧ functions segments hdr = .ok (arrange found) ∧
      codeEntries dec text segments (arrange found) text.start = .ok entries ∧
      census.sites = (entries ++ wordEntries text segments).foldl recordEntry
        (collectSites dec text (arrange found)) := by
  rw [build, bind_eq_ok] at h
  obtain ⟨text, htext, h⟩ := h
  rw [bind_eq_ok] at h
  obtain ⟨hdr, hhdr, h⟩ := h
  rw [bind_eq_ok] at h
  obtain ⟨fs, hfs, h⟩ := h
  obtain ⟨found, rfl⟩ := functions_ok hfs
  split_ifs at h with hcross
  · cases h
  obtain ⟨entries, hentries, h⟩ := bind_eq_ok.1 h
  cases h
  exact ⟨text, hdr, found, entries, htext, hhdr, hfs, hentries, rfl⟩

theorem filter_contains {address : ℕ} (hf : f ∈ fs)
    (hapart : fs.Pairwise fun g f => g.isEmpty = false → f.isEmpty = false →
      g.overlaps = false ∨ f.overlaps = false → g.stop ≤ f.start)
    (ho : f.overlaps = false) (hle : f.start ≤ address) (hlt : address < f.stop) :
    (fs.filter fun g => g.start ≤ address && address < g.stop) = [f] := by
  obtain ⟨before, after, rfl⟩ := append_of_mem hf
  obtain ⟨-, hafter, hbefore⟩ := pairwise_append.1 hapart
  have hne : f.isEmpty = false := decide_eq_false (by omega)
  have hno : ∀ g : Function, (g.isEmpty = false → address < g.stop → g.start ≤ address → False) →
      ¬ (decide (g.start ≤ address) && decide (address < g.stop)) = true := by
    intro g hg hin
    simp only [Bool.and_eq_true, decide_eq_true_eq] at hin
    exact hg (decide_eq_false (by omega)) hin.2 hin.1
  rw [filter_append, filter_cons_of_pos (by simp [hle, hlt]),
    filter_eq_nil_iff.2, filter_eq_nil_iff.2, nil_append]
  · refine fun g hg => hno g fun he _ hstart => ?_
    have := (pairwise_cons.1 hafter).1 g hg hne he (.inl ho)
    omega
  · refine fun g hg => hno g fun he hstop _ => ?_
    have := hbefore g hg f mem_cons_self he hne (.inr ho)
    omega

theorem textOf_ok (h : textOf segments range host = .ok text) :
    text.stop = text.start + text.code.length := by
  rw [textOf] at h
  split at h
  · split_ifs at h with hrange
    cases h
    exact hrange.2.symm
  · cases h

theorem decoded_tiles (ht : text.stop = text.start + text.code.length) (hf : f.inText text = true) :
    Tiles f.start f.stop (decoded dec text f.start f.stop) := by
  obtain ⟨hne, hlow, hhigh⟩ := inText_iff.1 hf
  have hlen : (text.codeOf f.start f.stop).length = f.stop - f.start := by
    rw [Text.codeOf, length_take, length_drop]
    omega
  have htiles : Tiles (f.start + 0) (f.start + (text.codeOf f.start f.stop).length)
      (decoded dec text f.start f.stop) := decodeAll_tiles (Nat.zero_le _)
  rwa [hlen, Nat.add_sub_cancel' hne.le] at htiles

/-- A function all of whose instructions decode, with no indirect jump among them. -/
structure Transparent (dec : Decoder) (text : Text) (f : Function) : Prop where
  within : f.Within text
  tiles : Tiles f.start f.stop (decoded dec text f.start f.stop)
  valid : ∀ i ∈ decoded dec text f.start f.stop, i.invalid = false
  direct : ∀ i ∈ decoded dec text f.start f.stop,
    ¬ (i.mnemonic = .jmp ∧ (i.op0Kind = .register ∨ i.op0Kind = .memory))

/-- A site that is not opaque is a `syscall` of a transparent function. -/
theorem functionSites_transparent (ht : text.stop = text.start + text.code.length)
    (hf : f.inText text = true) {site : Site} (hs : site ∈ functionSites dec text f)
    (ho : site.opaqueCode = false) :
    Transparent dec text f ∧ f.overlaps = false ∧
      ∃ i ∈ decoded dec text f.start f.stop, i.ip = site.address ∧ i.mnemonic = .syscall := by
  rw [functionSites, decodeFunction, decodeRange_eq] at hs
  obtain ⟨i, hi, rfl⟩ := mem_map.1 hs
  obtain ⟨hi, hsys⟩ := mem_filter.1 hi
  obtain ⟨hi, -⟩ := mem_filter.1 hi
  obtain ⟨hall, hover⟩ := Bool.or_eq_false_iff.1 ho
  rw [Bool.not_eq_false', all_eq_true] at hall
  have hinstr : ∀ j ∈ decoded dec text f.start f.stop,
      j.invalid = false ∧
        ¬ (j.mnemonic = .jmp ∧ (j.op0Kind = .register ∨ j.op0Kind = .memory)) := by
    intro j hj
    simpa [isIndirectJump, ← imp_iff_not_or] using hall j hj
  exact ⟨⟨inText_iff.1 hf, decoded_tiles ht hf, fun j hj => (hinstr j hj).1,
    fun j hj => (hinstr j hj).2⟩, hover,
    i, hi, rfl, of_decide_eq_true hsys⟩

/-- **No known entry lands inside a patched window.**  A site that passes is a `syscall` of
    exactly one function, which is transparent, and no promised entry lies strictly between
    the site and the end of the instructions that a patch displaces. -/
theorem prove_excludes_entries {census : Census} {address : ℕ} {scan : List ScannedInstruction}
    (hbuild : build dec segments header range host = .ok census)
    (hscan : ∀ i ∈ scan, 1 ≤ i.len ∧ i.len ≤ maxInstructionBytes)
    (hprove : prove census address scan = .ok ()) :
    ∃ text hdr fs stop, textOf segments range host = .ok text ∧
      ehFrameHdr segments header = .ok hdr ∧ functions segments hdr = .ok fs ∧
      displacedEnd address scan = some stop ∧
      (∃ f, (fs.filter fun g => g.start ≤ address && address < g.stop) = [f] ∧
        Transparent dec text f ∧
        ∃ i ∈ decoded dec text f.start f.stop, i.ip = address ∧ i.mnemonic = .syscall) ∧
      ∀ entry, Promised dec text segments fs entry → ¬ (address < entry ∧ entry < stop) := by
  obtain ⟨text, hdr, found, entries, htext, hhdr, hfs, hentries, hsites⟩ := build_ok hbuild
  obtain ⟨site, hsite, rfl, hopaque, stop, hstop, hlimit⟩ := prove_ok hprove
  rw [hsites] at hsite
  obtain ⟨first, hfirst, hlow, -⟩ := foldl_recordEntry _ (collectSites_ascend dec text _) site hsite
  rw [hlow.opaqueCode] at hopaque
  obtain ⟨f, hf, hin, hfsite⟩ := mem_collectSites dec text _ hfirst hopaque
  obtain ⟨htransparent, hover, i, hi, hip, hsys⟩ :=
    functionSites_transparent (textOf_ok htext) hin hfsite hopaque
  rw [← hlow.address] at hip
  refine ⟨text, hdr, arrange found, stop, htext, hhdr, hfs, hstop,
    ⟨f, ?_, htransparent, i, hi, hip, hsys⟩, fun entry hentry hbetween => ?_⟩
  · obtain ⟨hlower, hupper, hpos⟩ := htransparent.tiles.mem hi
    exact filter_contains hf (arrange_apart found) hover (by omega) (by omega)
  · -- the entry is in the window of the site, so its limit is at most the entry
    have hwindow := displacedEnd_le (fun j hj => (hscan j hj).2) hstop
    have hmem := promised_mem hentries (arrange_sorted found) hentry
    have hle := hlow.limit entry hmem (by rw [← hlow.address]; exact hbetween.1)
      (by rw [← hlow.address]; omega)
    omega

end

/-! ## A small object -/

/-- A decoder that knows `syscall` and short jumps, and takes other bytes as padding. -/
def sampleDecode (ip : ℕ) : List UInt8 → Instruction
  | 0x0f :: 0x05 :: _ => ⟨ip, 2, false, .syscall, .other, 0, none⟩
  | 0xeb :: d :: _ => ⟨ip, 2, false, .jmp, .nearBranch, (ip + 2 + signExtend 8 d.toNat) % 2 ^ 64, none⟩
  | _ => ⟨ip, 1, false, .nop, .other, 0, none⟩

def sampleDecoder : Decoder where
  decode := sampleDecode
  ip_eq ip bytes := by
    unfold sampleDecode
    split <;> rfl
  len_pos ip bytes _ := by
    unfold sampleDecode
    split <;> exact Nat.succ_pos _
  len_le ip bytes h := by
    unfold sampleDecode
    split
    · exact Nat.le_add_left 2 _
    · exact Nat.le_add_left 2 _
    · exact length_pos_iff.2 h

/-- An ELF header, two program headers, a search table of one entry, a CIE and an FDE. -/
def sampleTables : List UInt8 :=
  [0x7f, 0x45, 0x4c, 0x46, 2, 1, 1, 0, 0, 0, 0, 0, 0, 0, 0, 0, 3, 0, 62, 0, 1, 0, 0, 0] ++
  List.replicate 8 0 ++ Bytes.toLe 8 64 ++ List.replicate 8 0 ++ [0, 0, 0, 0, 64, 0, 56, 0, 2, 0] ++
  List.replicate 6 0 ++
  Bytes.toLe 4 1 ++ Bytes.toLe 4 5 ++ List.replicate 48 0 ++
  Bytes.toLe 4 0x6474e550 ++ Bytes.toLe 4 4 ++ Bytes.toLe 8 176 ++ Bytes.toLe 8 176 ++
  List.replicate 32 0 ++
  [1, 0x1b, 0x03, 0x3b] ++ Bytes.toLe 4 16 ++ Bytes.toLe 4 1 ++ Bytes.toLe 4 0xf50 ++ Bytes.toLe 4 37 ++
  Bytes.toLe 4 13 ++ [0, 0, 0, 0, 1, 0x7a, 0x52, 0, 1, 0x78, 0x10, 1, 0x03] ++
  Bytes.toLe 4 13 ++ Bytes.toLe 4 21 ++ Bytes.toLe 4 0x2000 ++ Bytes.toLe 4 7 ++ [0]

/-- The tables, and a function: `syscall`, padding, and a jump to itself. -/
def sampleSegments : List Segment :=
  [⟨0x1000, sampleTables, false⟩, ⟨0x2000, [0x0f, 0x05, 0x90, 0x90, 0x90, 0xeb, 0xfe], true⟩]

def sampleScan : List ScannedInstruction :=
  [⟨0x2000, 2, .syscall⟩, ⟨0x2002, 1, .nop⟩, ⟨0x2003, 1, .nop⟩, ⟨0x2004, 1, .nop⟩]

theorem sample_build : build sampleDecoder sampleSegments 0x1000 (0x2000, 0x2007) 0 =
    .ok ⟨[⟨0x2000, 2, false, 0x2005⟩]⟩ := by
  decide +kernel

/-- The window of the sample ends where the jump starts, which is an entry. -/
theorem prove_excludes_entries_sample :
    displacedEnd 0x2000 sampleScan = some 0x2005 ∧
    ∃ text hdr fs stop, textOf sampleSegments (0x2000, 0x2007) 0 = .ok text ∧
      ehFrameHdr sampleSegments 0x1000 = .ok hdr ∧ functions sampleSegments hdr = .ok fs ∧
      displacedEnd 0x2000 sampleScan = some stop ∧
      (∃ f, (fs.filter fun g => g.start ≤ 0x2000 && 0x2000 < g.stop) = [f] ∧
        Transparent sampleDecoder text f ∧
        ∃ i ∈ decoded sampleDecoder text f.start f.stop, i.ip = 0x2000 ∧ i.mnemonic = .syscall) ∧
      ∀ entry, Promised sampleDecoder text sampleSegments fs entry →
        ¬ (0x2000 < entry ∧ entry < stop) :=
  ⟨by decide, prove_excludes_entries sample_build (by decide) (by decide)⟩

end Reverie.LiteInst
