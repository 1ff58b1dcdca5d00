/-
  The extended state of a signal frame (`signal.rs`).  `fromKvm` makes its image from the state
  KVM reports, and `restoreFromSignal` a state from whatever the guest has left in the frame.
  The words of a region from 1024 on are not used.
-/
import Reverie.Lib.Buffer
import Reverie.Lib.Bytes

namespace Reverie.SignalFrame

open Buffer (read write)

/-! ## Constants -/

def legacyFpstateSize : ℕ := 512

def xsaveSize : ℕ := 832

def xsaveSignalSize : ℕ := xsaveSize + 4

def fpXstateMagic1 : BitVec 32 := 0x46505853

def fpXstateMagic2 : BitVec 32 := 0x46505845

def xfeatureX87 : BitVec 64 := 1

def xfeatureSse : BitVec 64 := 2

def xfeatureYmm : BitVec 64 := 4

def fixedXfeatures : BitVec 64 := xfeatureX87 ||| xfeatureSse ||| xfeatureYmm

def defaultMxcsrFeatureMask : BitVec 32 := 0xffbf

def initialMxcsr : BitVec 32 := 0x1f80

def mxcsrMaskOffset : ℕ := 28

def xmmOffset : ℕ := 160

def xmmEnd : ℕ := xmmOffset + 16 * 16

def fpSwReservedOffset : ℕ := 464

def xstateBvOffset : ℕ := 512

def xcompBvOffset : ℕ := 520

def xstateReservedOffset : ℕ := 528

def xstateReservedEnd : ℕ := 576

/-- Why a frame's contents are refused. -/
inductive SignalFrameError where
  | invalidSelectors
  | invalidAddress
  | invalidXsaveMetadata
  | invalidXsaveFeatures
  | invalidXsaveReserved
  | invalidMxcsr
  deriving DecidableEq

/-! ## Words -/

variable (bytes : List UInt8)

def readU32 (offset : ℕ) : BitVec 32 :=
  BitVec.ofNat 32 (Bytes.ofLe (read bytes offset 4))

def readU64 (offset : ℕ) : BitVec 64 :=
  BitVec.ofNat 64 (Bytes.ofLe (read bytes offset 8))

def writeU32 (offset : ℕ) (value : BitVec 32) : List UInt8 :=
  write bytes offset (Bytes.toLe 4 value.toNat)

def writeU64 (offset : ℕ) (value : BitVec 64) : List UInt8 :=
  write bytes offset (Bytes.toLe 8 value.toNat)

/-- `[u8]::fill` with zero, from `start` to `stop`. -/
def fillZero (start stop : ℕ) : List UInt8 :=
  write bytes start (List.replicate (stop - start) 0)

/-- The words of KVM's XSAVE region. -/
abbrev Region := ℕ → BitVec 32

/-- `[u32]::fill` with zero, from `start` to `stop`. -/
def Region.fillZero (region : Region) (start stop : ℕ) : Region :=
  fun i => if start ≤ i ∧ i < stop then 0 else region i

/-- The first `count` words of the bytes, in place of those of the region. -/
def Region.copyWords (region : Region) (bytes : List UInt8) (count : ℕ) : Region :=
  fun i => if i < count then readU32 bytes (4 * i) else region i

def Region.set (region : Region) (index : ℕ) (value : BitVec 32) : Region :=
  Function.update region index value

/-! ## The processor -/

/-- The MXCSR bits a frame may set, from the mask that FXSAVE reports. -/
def featureMaskOf (hardwareMask : BitVec 32) : BitVec 32 :=
  if hardwareMask = 0 then defaultMxcsrFeatureMask else hardwareMask

/-- The processor, which takes the initial MXCSR. -/
structure Cpu where
  hardwareMxcsrMask : BitVec 32
  takes_initial : initialMxcsr &&& ~~~ featureMaskOf hardwareMxcsrMask = 0

def Cpu.mxcsrFeatureMask (cpu : Cpu) : BitVec 32 := featureMaskOf cpu.hardwareMxcsrMask

/-! ## Frames -/

def fromKvm (xsave : Region) : List UInt8 :=
  let bytes := Buffer.concat (fun i => Bytes.toLe 4 (xsave i).toNat) (xsaveSize / 4) ++
    List.replicate 4 0
  let bytes := writeU64 bytes xstateBvOffset
    (readU64 bytes xstateBvOffset ||| xfeatureX87 ||| xfeatureSse)
  let bytes := writeU32 bytes fpSwReservedOffset fpXstateMagic1
  let bytes := writeU32 bytes (fpSwReservedOffset + 4) (BitVec.ofNat 32 xsaveSignalSize)
  let bytes := writeU64 bytes (fpSwReservedOffset + 8) fixedXfeatures
  let bytes := writeU32 bytes (fpSwReservedOffset + 16) (BitVec.ofNat 32 xsaveSize)
  let bytes := fillZero bytes (fpSwReservedOffset + 20) 512
  let bytes := fillZero bytes xstateReservedOffset xstateReservedEnd
  writeU32 bytes xsaveSize fpXstateMagic2

section
variable (cpu : Cpu)

def initializedKvm : Region :=
  (((Region.set (fun _ => 0) 0 0x037f).set 6 initialMxcsr).set (mxcsrMaskOffset / 4)
    cpu.hardwareMxcsrMask).set (xstateBvOffset / 4) ((xfeatureX87 ||| xfeatureSse).setWidth 32)

variable (bytes : List UInt8)

/-- `XsaveImage::restore_size`: the size of the image that its first bytes tell of. -/
def restoreSize : Except SignalFrameError ℕ :=
  if readU32 bytes fpSwReservedOffset = 0 then .ok legacyFpstateSize
  else if readU32 bytes fpSwReservedOffset = fpXstateMagic1 then
    let extendedSize := (readU32 bytes (fpSwReservedOffset + 4)).toNat
    let xstateSize := (readU32 bytes (fpSwReservedOffset + 16)).toNat
    if extendedSize ≠ xstateSize + 4 ∨ ¬ (xstateReservedEnd ≤ xstateSize ∧ xstateSize ≤ xsaveSize) ∨
        xsaveSignalSize < extendedSize then
      .error .invalidXsaveMetadata
    else .ok extendedSize
  else .error .invalidXsaveMetadata

def restoreLegacy : Except SignalFrameError Region :=
  if readU32 bytes 24 &&& ~~~ cpu.mxcsrFeatureMask ≠ 0 then .error .invalidMxcsr
  else
    .ok (((((initializedKvm cpu).copyWords bytes (bytes.length / 4)).fillZero
      (fpSwReservedOffset / 4) (legacyFpstateSize / 4)).set (xstateBvOffset / 4)
        ((xfeatureX87 ||| xfeatureSse).setWidth 32)).set (mxcsrMaskOffset / 4) cpu.hardwareMxcsrMask)

/-- What is made of an extended image, if nothing in it is refused. -/
def restoredState (xstateSize : ℕ) (xfeatures xstateBv : BitVec 64) : Region :=
  let xsave := ((initializedKvm cpu).copyWords bytes (xstateSize / 4)).fillZero
    (fpSwReservedOffset / 4) (legacyFpstateSize / 4)
  let present := xstateBv &&& xfeatures
  let xsave := if present &&& xfeatureSse = 0 then xsave.fillZero (xmmOffset / 4) (xmmEnd / 4) else xsave
  let xsave := if xfeatures &&& xfeatureSse = 0 then xsave.set 6 initialMxcsr else xsave
  (xsave.set (xstateBvOffset / 4) ((present ||| xfeatureSse).setWidth 32)).set (mxcsrMaskOffset / 4)
    cpu.hardwareMxcsrMask

/-- The checks of an extended image of `xstateSize` bytes. -/
def restoreExtended (xstateSize : ℕ) : Except SignalFrameError Region :=
  let xfeatures := readU64 bytes (fpSwReservedOffset + 8)
  let xstateBv := readU64 bytes xstateBvOffset
  if xfeatures &&& ~~~ fixedXfeatures ≠ 0 ∨ xfeatures &&& xfeatureYmm ≠ 0 ∧ xstateSize < xsaveSize then
    .error .invalidXsaveFeatures
  else if xstateBv &&& ~~~ fixedXfeatures ≠ 0 then .error .invalidXsaveFeatures
  else if readU64 bytes xcompBvOffset ≠ 0 ∨
      (read bytes xstateReservedOffset (xstateReservedEnd - xstateReservedOffset)).any (· ≠ 0) then
    .error .invalidXsaveReserved
  else if xfeatures &&& (xfeatureSse ||| xfeatureYmm) ≠ 0 ∧
      readU32 bytes 24 &&& ~~~ cpu.mxcsrFeatureMask ≠ 0 then
    .error .invalidMxcsr
  else .ok (restoredState cpu bytes xstateSize xfeatures xstateBv)

def restoreFromSignal : Except SignalFrameError Region := do
  if bytes.length < legacyFpstateSize then throw .invalidXsaveMetadata
  else
    let expected ← restoreSize (bytes.take legacyFpstateSize)
    if bytes.length ≠ expected then throw .invalidXsaveMetadata
    else if expected = legacyFpstateSize ∨ readU32 bytes (expected - 4) ≠ fpXstateMagic2 then
      restoreLegacy cpu (bytes.take legacyFpstateSize)
    else restoreExtended cpu bytes (expected - 4)

end

end Reverie.SignalFrame
