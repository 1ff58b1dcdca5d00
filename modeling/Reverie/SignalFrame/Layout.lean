/-
  The frame of a signal: its place on the stack (`below_spec`), its bytes
  (`RtSigframe.decode_encode`), and what `rt_sigreturn` takes from them (`signal.rs`).
-/
import Reverie.Lib.Words
import Reverie.SignalFrame.Xsave

namespace Reverie.SignalFrame
open List hiding Vector
open Option BitVec Bytes

open Buffer (read Spaced spans)
open Words

/-! ## Places on the stack -/

def rtSigframeSize : ℕ := 8 + 304 + 128

def signalRedZone : ℕ := 128

def signalStackAlignment : ℕ := 16

def xsaveAlignment : ℕ := 64

def alignDown (value alignment : ℕ) : ℕ := value &&& not64 (alignment - 1)

def alignDownWithRemainder (value alignment remainder : ℕ) : Option ℕ := do
  checkedAdd (alignDown (← checkedSub value remainder) alignment) remainder

/-- Where a frame is. -/
structure SignalFrameLayout where
  frameAddress : ℕ
  xsaveAddress : ℕ

/-- `SignalFrameLayout::below`; `none` is `AddressOverflow`. -/
def SignalFrameLayout.below (stackTop : ℕ) (reserveRedZone : Bool) : Option SignalFrameLayout := do
  let ceiling ← checkedSub stackTop (if reserveRedZone then signalRedZone else 0)
  let xsaveAddress := alignDown (← checkedSub ceiling xsaveSignalSize) xsaveAlignment
  let frameAddress ← alignDownWithRemainder (← checkedSub xsaveAddress rtSigframeSize)
    signalStackAlignment 8
  pure ⟨frameAddress, xsaveAddress⟩

/-- A place for the frame and the extended state below a ceiling. -/
structure SignalFrameLayout.Fits (ceiling : ℕ) (layout : SignalFrameLayout) : Prop where
  xsave_aligned : layout.xsaveAddress % 64 = 0
  frame_aligned : layout.frameAddress % 16 = 8
  xsave_below : layout.xsaveAddress + xsaveSignalSize ≤ ceiling
  frame_below : layout.frameAddress + rtSigframeSize ≤ layout.xsaveAddress

/-- The highest such place. -/
structure SignalFrameLayout.Highest (ceiling : ℕ) (layout : SignalFrameLayout) : Prop where
  fits : layout.Fits ceiling
  highest : ∀ other : SignalFrameLayout, other.Fits ceiling →
    other.xsaveAddress ≤ layout.xsaveAddress ∧ other.frameAddress ≤ layout.frameAddress

theorem alignDown_64 {value : ℕ} (h : value < 2 ^ 64) : alignDown value 64 = value / 64 * 64 :=
  and_not64 (k := 6) h (by decide)

/-- The highest number up to `value` that is `8` more than a multiple of `16`. -/
theorem alignDownWithRemainder_16 {value : ℕ} (h : value < 2 ^ 64) :
    (alignDownWithRemainder value 16 8 = none → value < 8) ∧
    ∀ r, alignDownWithRemainder value 16 8 = some r → r % 16 = 8 ∧ r ≤ value ∧ value < r + 16 := by
  rw [alignDownWithRemainder, checkedSub]
  split_ifs with h8
  · have halign : alignDown (value - 8) 16 = (value - 8) / 16 * 16 :=
      and_not64 (k := 4) (by omega) (by decide)
    rw [bind_eq_bind, bind_some, checkedAdd, if_pos (by omega)]
    refine ⟨by rintro ⟨⟩, fun r hr => ?_⟩
    obtain rfl := Option.some.inj hr
    omega
  · exact ⟨fun _ => Nat.lt_of_not_le h8, by rintro _ ⟨⟩⟩

/-- The layout is the highest one below the ceiling, and is refused only if there is none. -/
theorem below_spec {stackTop : ℕ} (h : stackTop < 2 ^ 64) (reserveRedZone : Bool) :
    match SignalFrameLayout.below stackTop reserveRedZone with
    | some layout => layout.Highest (stackTop - if reserveRedZone then signalRedZone else 0)
    | none => ∀ layout : SignalFrameLayout,
        ¬ layout.Fits (stackTop - if reserveRedZone then signalRedZone else 0) := by
  have hxsize : xsaveSignalSize = 836 := rfl
  rw [SignalFrameLayout.below, signalStackAlignment, xsaveAlignment]
  generalize (if reserveRedZone then signalRedZone else 0) = zone
  rcases hceiling : checkedSub stackTop zone with _ | ceiling
  · rw [checkedSub_eq_none] at hceiling
    rintro layout ⟨-, -, hxsave, -⟩
    omega
  obtain ⟨hzone, rfl⟩ := checkedSub_eq_some.1 hceiling
  simp only [bind_eq_bind, bind_some]
  rcases hspace : checkedSub (stackTop - zone) xsaveSignalSize with _ | space
  · rw [checkedSub_eq_none] at hspace
    rintro layout ⟨-, -, hxsave, -⟩
    omega
  obtain ⟨hxsave, rfl⟩ := checkedSub_eq_some.1 hspace
  rw [bind_some, alignDown_64 (by omega)]
  rcases hroom : checkedSub ((stackTop - zone - xsaveSignalSize) / 64 * 64) rtSigframeSize with _ | room
  · rw [checkedSub_eq_none] at hroom
    rintro layout ⟨haligned, -, hx, hf⟩
    omega
  obtain ⟨hframe, rfl⟩ := checkedSub_eq_some.1 hroom
  rw [bind_some]
  have hbound : (stackTop - zone - xsaveSignalSize) / 64 * 64 - rtSigframeSize < 2 ^ 64 := by omega
  have hround := alignDownWithRemainder_16 hbound
  generalize alignDownWithRemainder _ 16 8 = result at hround ⊢
  rcases result with _ | frame
  · have h8 := hround.1 rfl
    rintro layout ⟨hxa, hfa, hx, hf⟩
    omega
  · obtain ⟨hfa, hle, hlt⟩ := hround.2 frame rfl
    refine SignalFrameLayout.Highest.mk ⟨Nat.mul_mod_left _ _, hfa, ?_, ?_⟩ ?_
    · dsimp only
      omega
    · dsimp only
      omega
    · rintro layout ⟨hxa', hfa', hx, hf⟩
      dsimp only
      omega

/-! ## Bytes of a frame -/

def readU16 (bytes : List UInt8) (offset : ℕ) : BitVec 16 :=
  BitVec.ofNat 16 (Bytes.ofLe (read bytes offset 2))

/-- A fixed array of bytes at an offset. -/
def readArray (n : ℕ) (bytes : List UInt8) (offset : ℕ) : Vector UInt8 n :=
  Vector.ofFn fun i => bytes.getD (offset + i) 0

/-- Words in a row, from an offset on. -/
def wordsAt (base : ℕ) (values : List (BitVec 64)) : List (ℕ × List UInt8) :=
  values.mapIdx fun index value => (base + index * 8, Bytes.toLe 8 value.toNat)

/-- `stack_t`; the flags are an `i32`, by its bits. -/
@[ext]
structure GuestStack where
  sp : BitVec 64
  flags : BitVec 32
  size : BitVec 64

namespace GuestStack

def pieces (stack : GuestStack) : List (ℕ × List UInt8) :=
  [(0, Bytes.toLe 8 stack.sp.toNat), (8, Bytes.toLe 4 stack.flags.toNat),
    (16, Bytes.toLe 8 stack.size.toNat)]

def encode (stack : GuestStack) : List UInt8 := Buffer.writes (List.replicate 24 0) stack.pieces

def decode (bytes : List UInt8) : GuestStack := ⟨readU64 bytes 0, readU32 bytes 8, readU64 bytes 16⟩

end GuestStack

/-- `struct sigcontext`. -/
@[ext]
structure Sigcontext where
  (r8 r9 r10 r11 r12 r13 r14 r15 : BitVec 64)
  (rdi rsi rbp rbx rdx rax rcx rsp rip rflags : BitVec 64)
  (cs gs fs ss : BitVec 16)
  (err trapno oldmask cr2 fpstate : BitVec 64)
  reserved : Fin 8 → BitVec 64

namespace Sigcontext
variable (s : Sigcontext)

def words : List (BitVec 64) :=
  [s.r8, s.r9, s.r10, s.r11, s.r12, s.r13, s.r14, s.r15, s.rdi, s.rsi, s.rbp, s.rbx, s.rdx, s.rax,
    s.rcx, s.rsp, s.rip, s.rflags]

def pieces : List (ℕ × List UInt8) :=
  wordsAt 0 s.words ++
    [(144, Bytes.toLe 2 s.cs.toNat), (146, Bytes.toLe 2 s.gs.toNat), (148, Bytes.toLe 2 s.fs.toNat),
      (150, Bytes.toLe 2 s.ss.toNat)] ++
    wordsAt 152 [s.err, s.trapno, s.oldmask, s.cr2, s.fpstate] ++
    wordsAt 192 ((List.finRange 8).map s.reserved)

def encode : List UInt8 := Buffer.writes (List.replicate 256 0) s.pieces

def decode (bytes : List UInt8) : Sigcontext :=
  let word index := readU64 bytes (index * 8)
  { r8 := word 0, r9 := word 1, r10 := word 2, r11 := word 3, r12 := word 4, r13 := word 5
    r14 := word 6, r15 := word 7, rdi := word 8, rsi := word 9, rbp := word 10, rbx := word 11
    rdx := word 12, rax := word 13, rcx := word 14, rsp := word 15, rip := word 16
    rflags := word 17
    cs := readU16 bytes 144, gs := readU16 bytes 146, fs := readU16 bytes 148
    ss := readU16 bytes 150
    err := readU64 bytes 152, trapno := readU64 bytes 160, oldmask := readU64 bytes 168
    cr2 := readU64 bytes 176, fpstate := readU64 bytes 184
    reserved := fun index => readU64 bytes (192 + index * 8) }

end Sigcontext

/-- `struct ucontext`. -/
@[ext]
structure Ucontext where
  flags : BitVec 64
  link : BitVec 64
  stack : GuestStack
  mcontext : Sigcontext
  sigmask : Vector UInt8 8

namespace Ucontext

def pieces (u : Ucontext) : List (ℕ × List UInt8) :=
  [(0, Bytes.toLe 8 u.flags.toNat), (8, Bytes.toLe 8 u.link.toNat), (16, u.stack.encode),
    (40, u.mcontext.encode), (296, u.sigmask.toList)]

def encode (u : Ucontext) : List UInt8 := Buffer.writes (List.replicate 304 0) u.pieces

def decode (bytes : List UInt8) : Ucontext :=
  ⟨readU64 bytes 0, readU64 bytes 8, .decode (read bytes 16 24), .decode (read bytes 40 256),
    readArray 8 bytes 296⟩

end Ucontext

/-- `struct rt_sigframe`. -/
@[ext]
structure RtSigframe where
  pretcode : BitVec 64
  ucontext : Ucontext
  siginfo : Vector UInt8 128

namespace RtSigframe

def pieces (f : RtSigframe) : List (ℕ × List UInt8) :=
  [(0, Bytes.toLe 8 f.pretcode.toNat), (8, f.ucontext.encode), (312, f.siginfo.toList)]

def encode (f : RtSigframe) : List UInt8 := Buffer.writes (List.replicate rtSigframeSize 0) f.pieces

def decode (bytes : List UInt8) : RtSigframe :=
  ⟨readU64 bytes 0, .decode (read bytes 8 304), readArray 128 bytes 312⟩

end RtSigframe

/-! ## Registers -/

/-- The registers that KVM has. -/
structure KvmRegs where
  (rax rbx rcx rdx rsi rdi rsp rbp : BitVec 64)
  (r8 r9 r10 r11 r12 r13 r14 r15 : BitVec 64)
  (rip rflags : BitVec 64)

def userCodeSelector : BitVec 16 := 0x23

def userDataSelector : BitVec 16 := 0x1b

def fixEflags : BitVec 64 :=
  1 <<< 18 ||| 1 <<< 16 ||| 1 <<< 11 ||| 1 <<< 10 ||| 1 <<< 8 ||| 1 <<< 7 ||| 1 <<< 6 ||| 1 <<< 4 |||
    1 <<< 2 ||| 1 <<< 0

def isCanonicalUserAddress (address : BitVec 64) : Bool := address.toNat < 1 <<< 47

namespace Sigcontext
variable (s : Sigcontext)

def validateForRestore : Except SignalFrameError Unit :=
  if s.cs ≠ userCodeSelector ∨ s.ss ∉ [userDataSelector, userDataSelector &&& ~~~ 3] then
    .error .invalidSelectors
  else if !isCanonicalUserAddress s.rip || !isCanonicalUserAddress s.rsp ||
      s.fpstate ≠ 0 && !isCanonicalUserAddress s.fpstate then .error .invalidAddress
  else .ok ()

def restoreKvm (registers : KvmRegs) : KvmRegs :=
  { r8 := s.r8, r9 := s.r9, r10 := s.r10, r11 := s.r11, r12 := s.r12, r13 := s.r13, r14 := s.r14
    r15 := s.r15, rdi := s.rdi, rsi := s.rsi, rbp := s.rbp, rbx := s.rbx, rdx := s.rdx, rax := s.rax
    rcx := s.rcx, rsp := s.rsp, rip := s.rip
    rflags := registers.rflags &&& ~~~ fixEflags ||| s.rflags &&& fixEflags }

end Sigcontext

/-- The general registers and the instruction pointer, in the order of a `sigcontext`. -/
def KvmRegs.words (r : KvmRegs) : List (BitVec 64) :=
  [r.r8, r.r9, r.r10, r.r11, r.r12, r.r13, r.r14, r.r15, r.rdi, r.rsi, r.rbp, r.rbx, r.rdx, r.rax,
    r.rcx, r.rsp, r.rip]

/-! ## Frames are read back -/

section
variable {bytes : List UInt8} {offset n : ℕ}

theorem readU64_eq_of_read {value : BitVec 64}
    (h : read bytes offset 8 = Bytes.toLe 8 value.toNat) : readU64 bytes offset = value := by
  rw [readU64, h, ofLe_toLe value.isLt, ofNat_toNat, setWidth_eq]

theorem readU32_eq_of_read {value : BitVec 32}
    (h : read bytes offset 4 = Bytes.toLe 4 value.toNat) : readU32 bytes offset = value := by
  rw [readU32, h, ofLe_toLe value.isLt, ofNat_toNat, setWidth_eq]

theorem readU16_eq_of_read {value : BitVec 16}
    (h : read bytes offset 2 = Bytes.toLe 2 value.toNat) : readU16 bytes offset = value := by
  rw [readU16, h, ofLe_toLe value.isLt, ofNat_toNat, setWidth_eq]

theorem readArray_eq_of_read {value : Vector UInt8 n} (h : read bytes offset n = value.toList) :
    readArray n bytes offset = value := by
  refine Vector.ext fun i hi => ?_
  have hget := congrArg (·[i]?) h
  simp only [Buffer.read, getElem?_take, if_pos hi, getElem?_drop] at hget
  rw [readArray, Vector.getElem_ofFn, getD_eq_getElem?_getD, hget]
  simp [hi]

end

section
variable {pieces : List (ℕ × List UInt8)} {size offset : ℕ} (h : Spaced size (spans pieces))
include h

theorem length_frame : (Buffer.writes (List.replicate size 0) pieces).length = size := by
  rw [Buffer.length_writes, length_replicate]
  rw [length_replicate]
  exact h.fits

theorem read_frame {data : List UInt8} {len : ℕ} (hm : (offset, data) ∈ pieces)
    (hl : data.length = len) :
    read (Buffer.writes (List.replicate size 0) pieces) offset len = data := by
  refine Spaced.read_writes ?_ hm hl
  rwa [length_replicate]

theorem readU64_frame {value : BitVec 64} (hm : (offset, Bytes.toLe 8 value.toNat) ∈ pieces) :
    readU64 (Buffer.writes (List.replicate size 0) pieces) offset = value :=
  readU64_eq_of_read (read_frame h hm (length_toLe _ _))

end

namespace GuestStack

theorem spaced (stack : GuestStack) : Spaced 24 (spans stack.pieces) := by
  have h : Spaced 24 [(0, 8), (8, 4), (16, 8)] := by decide
  exact h

theorem decode_encode (stack : GuestStack) : decode stack.encode = stack := by
  refine GuestStack.ext (readU64_frame stack.spaced ?_)
    (readU32_eq_of_read (read_frame stack.spaced ?_ (length_toLe _ _)))
    (readU64_frame stack.spaced ?_)
  all_goals simp [pieces]

end GuestStack

theorem mem_wordsAt {values : List (BitVec 64)} {index base : ℕ} {value : BitVec 64}
    (h : values[index]? = some value) :
    (base + index * 8, Bytes.toLe 8 value.toNat) ∈ wordsAt base values := by
  refine mem_of_getElem? (i := index) ?_
  rw [wordsAt, getElem?_mapIdx, h]
  rfl

theorem spans_wordsAt (base : ℕ) (values : List (BitVec 64)) :
    spans (wordsAt base values) = (List.range values.length).map fun i => (base + i * 8, 8) := by
  refine ext_getElem (by simp [spans, wordsAt]) fun i _ _ => ?_
  simp [spans, wordsAt]

namespace Sigcontext
variable (s : Sigcontext)

theorem spaced : Spaced 256 (spans s.pieces) := by
  have h : Spaced 256 ((List.range 18).map (fun i => (0 + i * 8, 8)) ++
      [(144, 2), (146, 2), (148, 2), (150, 2)] ++
      (List.range 5).map (fun i => (152 + i * 8, 8)) ++
      (List.range 8).map fun i => (192 + i * 8, 8)) := by
    decide
  have hspans : ∀ pieces rest : List (ℕ × List UInt8),
      spans (pieces ++ rest) = spans pieces ++ spans rest := fun _ _ => map_append
  rw [pieces, hspans, hspans, hspans, spans_wordsAt]
  exact h

theorem readU64_encode {base : ℕ} {values : List (BitVec 64)} {value : BitVec 64}
    (hin : wordsAt base values ⊆ s.pieces) (index : ℕ) (h : values[index]? = some value) :
    readU64 s.encode (base + index * 8) = value :=
  readU64_frame s.spaced (hin (mem_wordsAt h))

theorem readU16_encode {offset : ℕ} {value : BitVec 16}
    (hin : (offset, Bytes.toLe 2 value.toNat) ∈ s.pieces) : readU16 s.encode offset = value :=
  readU16_eq_of_read (read_frame s.spaced hin (length_toLe _ _))

theorem decode_encode : decode s.encode = s := by
  have hwords : wordsAt 0 s.words ⊆ s.pieces := by
    intro piece hpiece
    simp only [pieces, mem_append, hpiece, true_or]
  have hfields : wordsAt 152 [s.err, s.trapno, s.oldmask, s.cr2, s.fpstate] ⊆ s.pieces := by
    intro piece hpiece
    simp only [pieces, mem_append, hpiece, true_or, or_true]
  have hreserved : wordsAt 192 ((List.finRange 8).map s.reserved) ⊆ s.pieces := by
    intro piece hpiece
    simp only [pieces, mem_append, hpiece, or_true]
  have hword : ∀ {index : ℕ} {value : BitVec 64}, s.words[index]? = some value →
      readU64 s.encode (index * 8) = value := by
    intro index value h
    rw [← s.readU64_encode hwords index h, Nat.zero_add]
  refine Sigcontext.ext (hword rfl) (hword rfl) (hword rfl) (hword rfl) (hword rfl) (hword rfl)
    (hword rfl) (hword rfl) (hword rfl) (hword rfl) (hword rfl) (hword rfl) (hword rfl) (hword rfl)
    (hword rfl) (hword rfl) (hword rfl) (hword rfl) (s.readU16_encode ?_) (s.readU16_encode ?_)
    (s.readU16_encode ?_) (s.readU16_encode ?_) (s.readU64_encode hfields 0 rfl)
    (s.readU64_encode hfields 1 rfl) (s.readU64_encode hfields 2 rfl)
    (s.readU64_encode hfields 3 rfl) (s.readU64_encode hfields 4 rfl)
    (funext fun i => s.readU64_encode hreserved i ?_)
  all_goals simp [pieces]

end Sigcontext

theorem Ucontext.spaced (u : Ucontext) : Spaced 304 (spans u.pieces) := by
  have hstack : u.stack.encode.length = 24 := length_frame u.stack.spaced
  have hmcontext : u.mcontext.encode.length = 256 := length_frame u.mcontext.spaced
  simp only [pieces, spans, map_cons, length_toLe, hstack, hmcontext,
    Vector.length_toList]
  decide

theorem Ucontext.decode_encode (u : Ucontext) : decode u.encode = u := by
  have hstack : read u.encode 16 24 = u.stack.encode :=
    read_frame u.spaced (by simp [pieces]) (length_frame u.stack.spaced)
  have hmcontext : read u.encode 40 256 = u.mcontext.encode :=
    read_frame u.spaced (by simp [pieces]) (length_frame u.mcontext.spaced)
  refine Ucontext.ext (readU64_frame u.spaced ?_) (readU64_frame u.spaced ?_) ?_ ?_
    (readArray_eq_of_read (read_frame u.spaced ?_ Vector.length_toList))
  · simp [pieces]
  · simp [pieces]
  · exact (congrArg GuestStack.decode hstack).trans u.stack.decode_encode
  · exact (congrArg Sigcontext.decode hmcontext).trans u.mcontext.decode_encode
  · simp [pieces]

theorem RtSigframe.spaced (f : RtSigframe) : Spaced rtSigframeSize (spans f.pieces) := by
  have hucontext : f.ucontext.encode.length = 304 := length_frame f.ucontext.spaced
  simp only [pieces, spans, map_cons, length_toLe, hucontext,
    Vector.length_toList]
  decide

theorem RtSigframe.decode_encode (f : RtSigframe) : decode f.encode = f := by
  have hucontext : read f.encode 8 304 = f.ucontext.encode :=
    read_frame f.spaced (by simp [pieces]) (length_frame f.ucontext.spaced)
  refine RtSigframe.ext (readU64_frame f.spaced ?_) ?_
    (readArray_eq_of_read (read_frame f.spaced ?_ Vector.length_toList))
  · simp [pieces]
  · exact (congrArg Ucontext.decode hucontext).trans f.ucontext.decode_encode
  · simp [pieces]

/-! ## What is restored -/

/-- The words of the guest's `sigcontext` are at offset 48 of the frame. -/
theorem readU64_mcontext (bytes : List UInt8) (index : ℕ) (h : index < 32) :
    readU64 (read (read bytes 8 304) 40 256) (index * 8) = readU64 bytes (48 + index * 8) := by
  rw [readU64, Buffer.read_read (by omega), Buffer.read_read (by omega), readU64, ← Nat.add_assoc]

theorem words_restoreKvm (bytes : List UInt8) (registers : KvmRegs) :
    ((RtSigframe.decode bytes).ucontext.mcontext.restoreKvm registers).words =
      (List.range 17).map fun index => readU64 bytes (48 + index * 8) := by
  have hwords : ∀ index ∈ List.range 17, readU64 (read (read bytes 8 304) 40 256) (index * 8) =
      readU64 bytes (48 + index * 8) :=
    fun index hindex => readU64_mcontext bytes index (Nat.lt_trans (mem_range.1 hindex) (by decide))
  exact map_congr_left hwords

def fixedFlags : List ℕ := [0, 2, 4, 6, 7, 8, 10, 11, 16, 18]

theorem getLsbD_fixEflags (i : ℕ) : fixEflags.getLsbD i = decide (i ∈ fixedFlags) := by
  by_cases hi : i < 64
  · have hall : ∀ i : Fin 64, fixEflags.getLsbD i = decide (i.val ∈ fixedFlags) := by decide
    exact hall ⟨i, hi⟩
  · rw [getLsbD_of_ge _ _ (Nat.not_lt.1 hi)]
    refine (decide_eq_false fun hmem => hi ?_).symm
    have hall : ∀ j ∈ fixedFlags, j < 64 := by decide
    exact hall i hmem

theorem getLsbD_rflags (s : Sigcontext) (registers : KvmRegs) (i : ℕ) :
    (s.restoreKvm registers).rflags.getLsbD i =
      if i ∈ fixedFlags then s.rflags.getLsbD i else registers.rflags.getLsbD i := by
  have hlt : 64 ≤ i → registers.rflags.getLsbD i = false := getLsbD_of_ge _ _
  rw [Sigcontext.restoreKvm, getLsbD_or, getLsbD_and, getLsbD_and,
    getLsbD_not, getLsbD_fixEflags]
  split_ifs with hmem
  · simp [hmem]
  · by_cases hi : i < 64
    · simp [hmem, hi]
    · simp [hmem, hlt (Nat.not_lt.1 hi)]

/-- **Placement and codec of signal frames.**  The layout is the highest one below the
    ceiling, refused only if there is none; a frame is read back as it was written; and a
    context that passes the check gives the sixteen general registers, the instruction
    pointer and ten flags, whatever the guest wrote, and no other bit. -/
theorem signalFrame_exact :
    (∀ stackTop < 2 ^ 64, ∀ reserveRedZone : Bool,
      match SignalFrameLayout.below stackTop reserveRedZone with
      | some layout => layout.Highest (stackTop - if reserveRedZone then signalRedZone else 0)
      | none => ∀ layout : SignalFrameLayout,
          ¬ layout.Fits (stackTop - if reserveRedZone then signalRedZone else 0)) ∧
    (∀ f : RtSigframe, RtSigframe.decode f.encode = f) ∧
    ∀ (bytes : List UInt8) (registers : KvmRegs),
      let s := (RtSigframe.decode bytes).ucontext.mcontext
      s.validateForRestore = .ok () →
        (s.restoreKvm registers).words =
          (List.range 17).map (fun index => readU64 bytes (48 + index * 8)) ∧
        ∀ i, (s.restoreKvm registers).rflags.getLsbD i =
          if i ∈ fixedFlags then (readU64 bytes 184).getLsbD i
          else registers.rflags.getLsbD i := by
  refine ⟨fun _ h reserveRedZone => below_spec h reserveRedZone, RtSigframe.decode_encode,
    fun bytes registers _ => ⟨words_restoreKvm bytes registers, fun i => ?_⟩⟩
  have hflags := readU64_mcontext bytes 17 (by decide)
  rw [getLsbD_rflags]
  exact if_congr Iff.rfl (congrArg (BitVec.getLsbD · i) hflags) rfl

end Reverie.SignalFrame
