/-
  The extended state of a signal frame goes round (`restoreFromSignal_fromKvm`), and what is
  restored is one KVM accepts (`restoreFromSignal_accepted`), whatever the guest has left.
-/
import Reverie.SignalFrame.Xsave

namespace Reverie.SignalFrame
open List Function Bytes

open Buffer (read write)

/-! ## The state KVM loads -/

/-- XSTATE_BV. -/
def Region.xstateBv (region : Region) : BitVec 64 :=
  region (xstateBvOffset / 4 + 1) ++ region (xstateBvOffset / 4)

/-- XCOMP_BV. -/
def Region.xcompBv (region : Region) : BitVec 64 :=
  region (xcompBvOffset / 4 + 1) ++ region (xcompBvOffset / 4)

def Region.mxcsr (region : Region) : BitVec 32 := region 6

def Region.byte (region : Region) (j : ℕ) : UInt8 := (Bytes.toLe 4 (region (j / 4)).toNat).getD (j % 4) 0

/-- The features, the compaction, the reserved words of the header and the MXCSR are ones
    that KVM takes for a guest with x87, SSE and YMM state. -/
structure KvmAccepts (cpu : Cpu) (region : Region) : Prop where
  features : region.xstateBv &&& ~~~ fixedXfeatures = 0
  standard : region.xcompBv = 0
  reserved : ∀ i, xstateReservedOffset / 4 ≤ i → i < xstateReservedEnd / 4 → region i = 0
  mxcsr : region.mxcsr &&& ~~~ cpu.mxcsrFeatureMask = 0

/-- The parts of the extended state. -/
inductive Component where
  | x87
  | mxcsr
  | xmm
  | ymm

/-- The bytes of a component. -/
def Component.covers : Component → ℕ → Prop
  | .x87, j => j < 24 ∨ 32 ≤ j ∧ j < 160
  | .mxcsr, j => 24 ≤ j ∧ j < 28
  | .xmm, j => 160 ≤ j ∧ j < 416
  | .ymm, j => 576 ≤ j ∧ j < 832

/-! ## Words and features -/

theorem and_not_eq_zero_iff (x : BitVec 64) : x &&& ~~~ fixedXfeatures = 0 ↔ x.toNat < 8 := by
  constructor
  · intro h
    have hx : x = x &&& fixedXfeatures := by
      ext i hi
      have hbit := congrArg (fun y : BitVec 64 => y[i]) h
      simp only [BitVec.getElem_and] at hbit ⊢
      cases hxi : x[i] <;> cases hfi : fixedXfeatures[i] <;> simp_all
    rw [hx]
    exact Nat.lt_succ_of_le Nat.and_le_right
  · intro h
    have hx : x = BitVec.ofNat 64 x.toNat := (BitVec.ofNat_toNat 64 x).symm
    rw [hx]
    generalize x.toNat = n at h
    interval_cases n <;> decide

theorem toNat_append (hi lo : BitVec 32) : (hi ++ lo).toNat = hi.toNat * 2 ^ 32 + lo.toNat := by
  rw [BitVec.toNat_append, Nat.shiftLeft_eq, Nat.mul_comm, ← Nat.two_pow_add_eq_or_of_lt lo.isLt]

variable {offset size xstateSize i : ℕ}

theorem readU64_eq {bytes : List UInt8} (h : offset + 8 ≤ bytes.length) :
    readU64 bytes offset = readU32 bytes (offset + 4) ++ readU32 bytes offset := by
  have hlo := ofLe_lt (read bytes offset 4)
  rw [Buffer.length_read (by omega)] at hlo
  refine BitVec.eq_of_toNat_eq ?_
  rw [toNat_append, readU64, readU32, readU32, Buffer.read_add bytes offset 4 4, ofLe_append,
    Buffer.length_read (by omega), BitVec.toNat_ofNat, BitVec.toNat_ofNat, BitVec.toNat_ofNat]
  omega

theorem readU32_high {bytes : List UInt8} (offset : ℕ) (h : offset + 8 ≤ bytes.length)
    (hlt : (readU64 bytes offset).toNat < 8) : readU32 bytes (offset + 4) = 0 := by
  rw [readU64_eq h, toNat_append] at hlt
  refine BitVec.eq_of_toNat_eq ?_
  change (readU32 bytes (offset + 4)).toNat = 0
  omega

theorem present_lt {xstateBv : BitVec 64} (xfeatures : BitVec 64) (h : xstateBv.toNat < 8) :
    (((xstateBv &&& xfeatures) ||| xfeatureSse).setWidth 32).toNat < 8 := by
  refine (Nat.mod_le _ _).trans_lt (Nat.or_lt_two_pow (n := 3) ?_ (by decide))
  exact Nat.and_le_left.trans_lt h

theorem sse_eq_zero {xfeatures : BitVec 64} (h : xfeatures &&& (xfeatureSse ||| xfeatureYmm) = 0) :
    xfeatures &&& xfeatureSse = 0 := by
  have hsse : (xfeatureSse ||| xfeatureYmm) &&& xfeatureSse = xfeatureSse := by decide
  rw [← hsse, ← BitVec.and_assoc, h]
  exact BitVec.zero_and

theorem readU32_of_zeros {bytes : List UInt8} {start len : ℕ}
    (h : ∀ b ∈ read bytes start len, b = 0) (hlo : start ≤ offset) (hhi : offset + 4 ≤ start + len) :
    readU32 bytes offset = 0 := by
  obtain ⟨d, rfl⟩ := Nat.exists_eq_add_of_le hlo
  obtain ⟨rest, rfl⟩ : ∃ rest, len = d + (4 + rest) := ⟨len - d - 4, by omega⟩
  rw [Buffer.read_add, Buffer.read_add] at h
  have hzero : read bytes (start + d) 4 = List.replicate (read bytes (start + d) 4).length 0 :=
    eq_replicate_of_mem fun b hb =>
      h b (mem_append_right _ (mem_append_left _ hb))
  have hle : ∀ n, Bytes.ofLe (List.replicate n 0) = 0 := by
    intro n
    induction n with
    | zero => rfl
    | succ n ih => rw [replicate_succ, Bytes.ofLe, ih]; rfl
  rw [readU32, hzero, hle]
  rfl

/-! ## What is restored -/

section
variable (cpu : Cpu) (bytes : List UInt8) (xstateSize : ℕ) (xfeatures xstateBv : BitVec 64)

theorem restoredState_word {i : ℕ} (h : i < xstateSize / 4) (hsw : i < 116 ∨ 128 < i) (hmask : i ≠ 7)
    (hxmm : i < 40 ∨ 104 ≤ i ∨ (xstateBv &&& xfeatures) &&& xfeatureSse ≠ 0)
    (hmxcsr : i ≠ 6 ∨ xfeatures &&& xfeatureSse ≠ 0) :
    restoredState cpu bytes xstateSize xfeatures xstateBv i = readU32 bytes (4 * i) := by
  have hcopy : ((initializedKvm cpu).copyWords bytes (xstateSize / 4)).fillZero
      (fpSwReservedOffset / 4) (legacyFpstateSize / 4) i = readU32 bytes (4 * i) := by
    rw [Region.fillZero, if_neg (by simp only [fpSwReservedOffset, legacyFpstateSize]; omega),
      Region.copyWords, if_pos h]
  rw [restoredState, Region.set, update_of_ne (show i ≠ mxcsrMaskOffset / 4 from hmask), Region.set,
    update_of_ne (by simp only [xstateBvOffset]; omega)]
  have hset : ∀ region : Region, region i = readU32 bytes (4 * i) →
      (if xfeatures &&& xfeatureSse = 0 then region.set 6 initialMxcsr else region) i =
        readU32 bytes (4 * i) := by
    intro region hregion
    split_ifs with hsse
    · rw [Region.set, update_of_ne (hmxcsr.resolve_right fun hne => hne hsse)]
      exact hregion
    · exact hregion
  refine hset _ ?_
  split_ifs with hpresent
  · rw [Region.fillZero, if_neg]
    · exact hcopy
    · rintro ⟨hlow, hhigh⟩
      rcases hxmm with hlt | hge | hne
      · exact absurd (lt_of_lt_of_le hlt hlow) (lt_irrefl _)
      · exact absurd (lt_of_lt_of_le hhigh hge) (lt_irrefl _)
      · exact hne hpresent
  · exact hcopy

theorem restoredState_mxcsr (h : 7 ≤ xstateSize / 4) :
    restoredState cpu bytes xstateSize xfeatures xstateBv 6 =
      if xfeatures &&& xfeatureSse = 0 then initialMxcsr else readU32 bytes 24 := by
  by_cases hsse : xfeatures &&& xfeatureSse = 0
  · rw [restoredState, Region.set, update_of_ne (by decide), Region.set,
      update_of_ne (by decide), if_pos hsse, if_pos hsse, Region.set, update_self]
  · rw [restoredState_word cpu bytes xstateSize xfeatures xstateBv (by omega) (by omega) (by omega)
      (by omega) (Or.inr hsse), if_neg hsse]

end

variable {cpu : Cpu} {bytes : List UInt8} {region : Region}

theorem restoreSize_ok (h : restoreSize bytes = .ok size) :
    size = legacyFpstateSize ∨ 580 ≤ size ∧ size ≤ 836 := by
  rw [restoreSize] at h
  dsimp only at h
  split_ifs at h with hzero hmagic hbad
  · cases h
    exact Or.inl rfl
  · cases h
    simp only [xstateReservedEnd, xsaveSize] at hbad
    omega

theorem restoreExtended_ok (h : restoreExtended cpu bytes xstateSize = .ok region) :
    region = restoredState cpu bytes xstateSize (readU64 bytes (fpSwReservedOffset + 8))
        (readU64 bytes xstateBvOffset) ∧
      readU64 bytes (fpSwReservedOffset + 8) &&& ~~~ fixedXfeatures = 0 ∧
      readU64 bytes xstateBvOffset &&& ~~~ fixedXfeatures = 0 ∧
      readU64 bytes xcompBvOffset = 0 ∧
      (∀ b ∈ read bytes xstateReservedOffset (xstateReservedEnd - xstateReservedOffset), b = 0) ∧
      (readU64 bytes (fpSwReservedOffset + 8) &&& (xfeatureSse ||| xfeatureYmm) = 0 ∨
        readU32 bytes 24 &&& ~~~ cpu.mxcsrFeatureMask = 0) := by
  rw [restoreExtended] at h
  split_ifs at h with hfeatures hbv hreserved hmxcsr
  cases h
  rw [not_or, not_not] at hfeatures
  rw [not_not] at hbv
  rw [not_or, not_not, any_eq_true, not_exists] at hreserved
  refine ⟨rfl, hfeatures.1, hbv, hreserved.1, fun b hb => ?_, ?_⟩
  · have hb' := hreserved.2 b
    simp only [hb, true_and, decide_eq_true_eq, not_not] at hb'
    exact hb'
  · rw [not_and_or, not_not, not_not] at hmxcsr
    exact hmxcsr

theorem initializedKvm_of_gt (cpu : Cpu) (h : 128 < i) : initializedKvm cpu i = 0 := by
  simp only [initializedKvm, Region.set, mxcsrMaskOffset, xstateBvOffset]
  rw [update_of_ne (by omega), update_of_ne (by omega),
    update_of_ne (by omega), update_of_ne (by omega)]

theorem restoreExtended_accepted (hsize : 576 ≤ xstateSize) (hlen : bytes.length = xstateSize + 4)
    (h : restoreExtended cpu bytes xstateSize = .ok region) : KvmAccepts cpu region := by
  obtain ⟨rfl, hfeatures, hbv, hxcomp, hreserved, hmxcsr⟩ := restoreExtended_ok h
  have hword : ∀ i, 128 < i → i < 144 →
      restoredState cpu bytes xstateSize (readU64 bytes (fpSwReservedOffset + 8))
        (readU64 bytes xstateBvOffset) i = readU32 bytes (4 * i) := by
    intro i hlo hhi
    exact restoredState_word cpu bytes xstateSize _ _ (by omega) (Or.inr hlo) (by omega)
      (Or.inr (Or.inl (by omega))) (Or.inl (by omega))
  refine ⟨?_, ?_, fun i hlo hhi => ?_, ?_⟩
  · rw [and_not_eq_zero_iff] at hbv ⊢
    have hhigh := (hword 129 (by omega) (by omega)).trans
      (readU32_high xstateBvOffset (by simp only [xstateBvOffset]; omega) hbv)
    have hpresent := present_lt (readU64 bytes (fpSwReservedOffset + 8)) hbv
    rw [Region.xstateBv, toNat_append, show xstateBvOffset / 4 + 1 = 129 from rfl, hhigh]
    change 0 * 2 ^ 32 + _ < 8
    rw [Nat.zero_mul, Nat.zero_add]
    exact hpresent
  · rw [readU64_eq (by simp only [xcompBvOffset]; omega)] at hxcomp
    rw [← hxcomp]
    exact congrArg₂ _ (hword 131 (by omega) (by omega)) (hword 130 (by omega) (by omega))
  · change 132 ≤ i at hlo
    change i < 144 at hhi
    rw [hword i (by omega) hhi]
    exact readU32_of_zeros hreserved (by simp only [xstateReservedOffset]; omega)
      (by simp only [xstateReservedEnd]; omega)
  · rw [Region.mxcsr, restoredState_mxcsr _ _ _ _ _ (by omega)]
    split_ifs with hsse
    · exact cpu.takes_initial
    · exact hmxcsr.resolve_left fun hzero => hsse (sse_eq_zero hzero)

theorem restoreLegacy_accepted (hlen : bytes.length = 512)
    (h : restoreLegacy cpu bytes = .ok region) : KvmAccepts cpu region := by
  rw [restoreLegacy] at h
  split_ifs at h with hmxcsr
  cases h
  rw [not_not] at hmxcsr
  have hword : ∀ i, i ≠ 7 → i ≠ 128 →
      ((((initializedKvm cpu).copyWords bytes (bytes.length / 4)).fillZero
      (fpSwReservedOffset / 4) (legacyFpstateSize / 4)).set (xstateBvOffset / 4)
        ((xfeatureX87 ||| xfeatureSse).setWidth 32)).set (mxcsrMaskOffset / 4)
          cpu.hardwareMxcsrMask i =
      if 116 ≤ i ∧ i < 128 then 0 else (initializedKvm cpu).copyWords bytes 128 i := by
    intro i hmask hbv
    rw [Region.set, update_of_ne (show i ≠ mxcsrMaskOffset / 4 from hmask), Region.set,
      update_of_ne (show i ≠ xstateBvOffset / 4 from hbv), hlen]
    rfl
  have hheader : ∀ i, 128 < i → (if 116 ≤ i ∧ i < 128 then 0
      else (initializedKvm cpu).copyWords bytes 128 i) = 0 := by
    intro i hi
    rw [if_neg (by omega), Region.copyWords, if_neg (by omega), initializedKvm_of_gt cpu hi]
  refine ⟨?_, ?_, fun i hlo hhi => ?_, ?_⟩
  · have hhigh := (hword 129 (by omega) (by omega)).trans (hheader 129 (by omega))
    rw [Region.xstateBv, show xstateBvOffset / 4 + 1 = 129 from rfl, hhigh, Region.set,
      update_of_ne (by decide), Region.set, update_self]
    decide
  · exact congrArg₂ _ ((hword 131 (by omega) (by omega)).trans (hheader 131 (by omega)))
      ((hword 130 (by omega) (by omega)).trans (hheader 130 (by omega)))
  · change 132 ≤ i at hlo
    exact (hword i (by omega) (by omega)).trans (hheader i (by omega))
  · rw [Region.mxcsr, hword 6 (by omega) (by omega), if_neg (by omega), Region.copyWords]
    exact hmxcsr

/-- **Whatever the guest leaves in the frame, it is refused or KVM accepts what is made of
    it.** -/
theorem restoreFromSignal_accepted (h : restoreFromSignal cpu bytes = .ok region) :
    KvmAccepts cpu region := by
  rw [restoreFromSignal] at h
  by_cases hshort : bytes.length < legacyFpstateSize
  · rw [if_pos hshort] at h
    cases h
  rw [if_neg hshort] at h
  rcases hsize : restoreSize (bytes.take legacyFpstateSize) with e | expected
  · rw [hsize] at h
    cases h
  rw [hsize] at h
  change (if bytes.length ≠ expected then _ else _) = _ at h
  split_ifs at h with hlen hlegacy
  · refine restoreLegacy_accepted ?_ h
    simp only [legacyFpstateSize] at hshort ⊢
    rw [length_take]
    omega
  · rw [not_or] at hlegacy
    rcases restoreSize_ok hsize with hfixed | ⟨hlo, hhi⟩
    · exact absurd hfixed hlegacy.1
    · exact restoreExtended_accepted (by omega) (by omega) h

/-! ## The image of a state -/

/-- The words of the state that go into the frame, and room for the trailing magic number. -/
def frameWords (xsave : Region) : List UInt8 :=
  Buffer.concat (fun i => Bytes.toLe 4 (xsave i).toNat) (xsaveSize / 4) ++ List.replicate 4 0

/-- What a frame adds to the region. -/
def framePieces (xsave : Region) : List (ℕ × List UInt8) :=
  [(512, Bytes.toLe 8 (readU64 (frameWords xsave) 512 ||| xfeatureX87 ||| xfeatureSse).toNat),
    (464, Bytes.toLe 4 fpXstateMagic1.toNat),
    (468, Bytes.toLe 4 (BitVec.ofNat 32 xsaveSignalSize).toNat),
    (472, Bytes.toLe 8 fixedXfeatures.toNat),
    (480, Bytes.toLe 4 (BitVec.ofNat 32 xsaveSize).toNat),
    (484, List.replicate 28 0),
    (528, List.replicate 48 0),
    (832, Bytes.toLe 4 fpXstateMagic2.toNat)]

variable (xsave : Region)

theorem fromKvm_eq : fromKvm xsave = Buffer.writes (frameWords xsave) (framePieces xsave) := rfl

theorem length_frameWords : (frameWords xsave).length = 836 := by
  rw [frameWords, length_append, Buffer.length_concat (w := 4) fun i => length_toLe 4 _]
  rfl

theorem framePieces_fit : Buffer.Fits (frameWords xsave).length (framePieces xsave) := by
  intro piece hpiece
  rw [length_frameWords]
  simp only [framePieces, mem_cons, not_mem_nil, or_false] at hpiece
  rcases hpiece with rfl | rfl | rfl | rfl | rfl | rfl | rfl | rfl <;>
    simp only [length_toLe, length_replicate] <;> omega

theorem length_fromKvm : (fromKvm xsave).length = 836 := by
  rw [fromKvm_eq, Buffer.length_writes (framePieces_fit xsave), length_frameWords]

theorem readU32_frameWords (h : i < 208) : readU32 (frameWords xsave) (4 * i) = xsave i := by
  have hword := Buffer.read_concat (n := 208) (w := 4) (i := i)
    (fun i => length_toLe 4 (xsave i).toNat) (List.replicate 4 0) h
  rw [Nat.mul_comm]
  change BitVec.ofNat 32 (Bytes.ofLe (read (Buffer.concat _ 208 ++ _) (i * 4) 4)) = _
  rw [hword, ofLe_toLe (xsave i).isLt, BitVec.ofNat_toNat, BitVec.setWidth_eq]

theorem readU32_fromKvm (h : i < 116 ∨ 130 ≤ i ∧ i < 132 ∨ 144 ≤ i ∧ i < 208) :
    readU32 (fromKvm xsave) (4 * i) = xsave i := by
  have hmiss : Buffer.Misses (4 * i) 4 (framePieces xsave) := by
    intro piece hpiece
    simp only [framePieces, mem_cons, not_mem_nil, or_false] at hpiece
    rcases hpiece with rfl | rfl | rfl | rfl | rfl | rfl | rfl | rfl <;>
      simp only [length_toLe, length_replicate] <;> omega
  rw [readU32, fromKvm_eq, Buffer.read_writes_of_misses (framePieces_fit xsave) hmiss]
  exact readU32_frameWords xsave (by omega)

theorem read_fromKvm (k : ℕ) {data : List UInt8}
    (hk : (framePieces xsave)[k]? = some (offset, data))
    (hm : Buffer.Misses offset data.length ((framePieces xsave).drop (k + 1))) :
    read (fromKvm xsave) offset data.length = data := by
  rw [fromKvm_eq]
  exact Buffer.read_writes_at k (framePieces_fit xsave) hk hm

theorem readU32_piece (k : ℕ) {value : BitVec 32}
    (hk : (framePieces xsave)[k]? = some (offset, Bytes.toLe 4 value.toNat))
    (hm : Buffer.Misses offset 4 ((framePieces xsave).drop (k + 1))) :
    readU32 (fromKvm xsave) offset = value := by
  have hread := read_fromKvm xsave k hk (by exact hm)
  rw [length_toLe] at hread
  rw [readU32, hread, ofLe_toLe value.isLt, BitVec.ofNat_toNat, BitVec.setWidth_eq]

theorem readU64_piece (k : ℕ) {value : BitVec 64}
    (hk : (framePieces xsave)[k]? = some (offset, Bytes.toLe 8 value.toNat))
    (hm : Buffer.Misses offset 8 ((framePieces xsave).drop (k + 1))) :
    readU64 (fromKvm xsave) offset = value := by
  have hread := read_fromKvm xsave k hk (by exact hm)
  rw [length_toLe] at hread
  rw [readU64, hread, ofLe_toLe value.isLt, BitVec.ofNat_toNat, BitVec.setWidth_eq]

theorem xfeatures_fromKvm : readU64 (fromKvm xsave) (fpSwReservedOffset + 8) = fixedXfeatures := by
  change readU64 (fromKvm xsave) 472 = fixedXfeatures
  exact readU64_piece xsave 3 rfl (by simp [Buffer.Misses, framePieces])

theorem xstateBv_fromKvm : readU64 (fromKvm xsave) xstateBvOffset =
    xsave.xstateBv ||| xfeatureX87 ||| xfeatureSse := by
  have hwords : readU64 (frameWords xsave) 512 = xsave.xstateBv := by
    rw [readU64_eq (by rw [length_frameWords]; omega)]
    exact congrArg₂ _ (readU32_frameWords xsave (i := 129) (by omega))
      (readU32_frameWords xsave (i := 128) (by omega))
  rw [← hwords]
  change readU64 (fromKvm xsave) 512 = _
  exact readU64_piece xsave 0 rfl (by simp [Buffer.Misses, framePieces])

theorem xcompBv_fromKvm : readU64 (fromKvm xsave) xcompBvOffset = xsave.xcompBv := by
  rw [readU64_eq (by rw [length_fromKvm]; simp only [xcompBvOffset]; omega)]
  exact congrArg₂ _ (readU32_fromKvm xsave (i := 131) (by omega))
    (readU32_fromKvm xsave (i := 130) (by omega))

theorem restoreSize_fromKvm :
    restoreSize ((fromKvm xsave).take legacyFpstateSize) = .ok xsaveSignalSize := by
  have htake : ∀ offset, offset + 4 ≤ 512 →
      readU32 ((fromKvm xsave).take legacyFpstateSize) offset = readU32 (fromKvm xsave) offset := by
    intro offset hle
    rw [readU32, readU32, Buffer.read_take (show offset + 4 ≤ legacyFpstateSize from hle)]
  have hmagic := (htake 464 (by omega)).trans
    (readU32_piece xsave 1 rfl (by simp [Buffer.Misses, framePieces]))
  have hextended := (htake 468 (by omega)).trans
    (readU32_piece xsave 2 rfl (by simp [Buffer.Misses, framePieces]))
  have hxstate := (htake 480 (by omega)).trans
    (readU32_piece xsave 4 rfl (by simp [Buffer.Misses, framePieces]))
  simp only [restoreSize, fpSwReservedOffset, hmagic, hextended, hxstate]
  decide

/-! ## The round trip -/

theorem toNat_or_lt {x : BitVec 64} (h : x.toNat < 8) :
    (x ||| xfeatureX87 ||| xfeatureSse).toNat < 8 := by
  exact Nat.or_lt_two_pow (n := 3) (Nat.or_lt_two_pow h (by decide)) (by decide)

theorem sse_present (x : BitVec 64) :
    (x ||| xfeatureX87 ||| xfeatureSse) &&& fixedXfeatures &&& xfeatureSse ≠ 0 := by
  intro h
  have hbit := congrArg (fun y : BitVec 64 => y[1]) h
  simp only [BitVec.getElem_and, BitVec.getElem_or] at hbit
  have hsse : xfeatureSse[1] = true := by decide
  have hfixed : fixedXfeatures[1] = true := by decide
  rw [hsse, hfixed, Bool.or_true] at hbit
  cases hbit

variable {xsave}

theorem restoreExtended_fromKvm (hbv : xsave.xstateBv &&& ~~~ fixedXfeatures = 0)
    (hxcomp : xsave.xcompBv = 0) (hmxcsr : xsave.mxcsr &&& ~~~ cpu.mxcsrFeatureMask = 0) :
    restoreExtended cpu (fromKvm xsave) xsaveSize = .ok (restoredState cpu (fromKvm xsave) xsaveSize
      fixedXfeatures (xsave.xstateBv ||| xfeatureX87 ||| xfeatureSse)) := by
  have hfeatures : (xsave.xstateBv ||| xfeatureX87 ||| xfeatureSse) &&& ~~~ fixedXfeatures = 0 :=
    (and_not_eq_zero_iff _).2 (toNat_or_lt ((and_not_eq_zero_iff _).1 hbv))
  have hzeros : read (fromKvm xsave) xstateReservedOffset (xstateReservedEnd - xstateReservedOffset) =
      List.replicate 48 0 := by
    have hread := read_fromKvm xsave 6 rfl (by simp [Buffer.Misses, framePieces])
    exact hread
  have hframe : readU32 (fromKvm xsave) 24 = xsave.mxcsr :=
    readU32_fromKvm xsave (i := 6) (by omega)
  rw [restoreExtended, xfeatures_fromKvm, xstateBv_fromKvm, xcompBv_fromKvm, hzeros, hframe,
    if_neg (by decide), if_neg (not_not.2 hfeatures), if_neg, if_neg fun h => h.2 hmxcsr]
  rintro (h | h)
  · exact h hxcomp
  · simp at h

theorem restoreFromSignal_extended (hsize : restoreSize (bytes.take legacyFpstateSize) = .ok size)
    (hlen : bytes.length = size) (hlong : legacyFpstateSize < size)
    (hmagic : readU32 bytes (size - 4) = fpXstateMagic2) :
    restoreFromSignal cpu bytes = restoreExtended cpu bytes (size - 4) := by
  rw [restoreFromSignal, if_neg (by omega), hsize]
  change (if bytes.length ≠ size then _ else _) = _
  rw [if_neg (not_not.2 hlen), if_neg]
  rintro (h | h)
  · exact hlong.ne' h
  · exact h hmagic

theorem restoreFromSignal_fromKvm (hbv : xsave.xstateBv &&& ~~~ fixedXfeatures = 0)
    (hxcomp : xsave.xcompBv = 0) (hmxcsr : xsave.mxcsr &&& ~~~ cpu.mxcsrFeatureMask = 0) :
    ∃ restored, restoreFromSignal cpu (fromKvm xsave) = .ok restored ∧
      ∀ i, i < 7 ∨ 8 ≤ i ∧ i < 104 ∨ 144 ≤ i ∧ i < 208 → restored i = xsave i := by
  have hmagic : readU32 (fromKvm xsave) xsaveSize = fpXstateMagic2 := by
    exact readU32_piece xsave 7 rfl (by simp [Buffer.Misses, framePieces])
  refine ⟨restoredState cpu (fromKvm xsave) xsaveSize fixedXfeatures
    (xsave.xstateBv ||| xfeatureX87 ||| xfeatureSse), ?_, fun i hi => ?_⟩
  · rw [restoreFromSignal_extended (restoreSize_fromKvm xsave) (length_fromKvm xsave) (by decide)
      hmagic]
    exact restoreExtended_fromKvm hbv hxcomp hmxcsr
  · rw [restoredState_word _ _ _ _ _ (by simp only [xsaveSize]; omega) (by omega) (by omega)
      (Or.inr (Or.inr (sse_present _))) (Or.inr (by decide)), readU32_fromKvm xsave (by omega)]

theorem Component.covers_word {component : Component} {j : ℕ} (h : component.covers j) :
    j / 4 < 7 ∨ 8 ≤ j / 4 ∧ j / 4 < 104 ∨ 144 ≤ j / 4 ∧ j / 4 < 208 := by
  cases component <;> simp only [covers] at h <;> omega

/-- **The extended state of a signal frame goes round.**  The image of a state with known
    features, no compaction and a valid MXCSR is restored with the same x87, MXCSR, XMM and
    YMM bytes.  Any bytes that are not refused make a state whose header, reserved words and
    MXCSR KVM accepts. -/
theorem xsave_round_trip (cpu : Cpu) :
    (∀ xsave : Region, xsave.xstateBv &&& ~~~ fixedXfeatures = 0 → xsave.xcompBv = 0 →
      xsave.mxcsr &&& ~~~ cpu.mxcsrFeatureMask = 0 →
        ∃ restored, restoreFromSignal cpu (fromKvm xsave) = .ok restored ∧
          ∀ (component : Component) (j : ℕ), component.covers j → restored.byte j = xsave.byte j) ∧
    (∀ (bytes : List UInt8) (restored : Region), restoreFromSignal cpu bytes = .ok restored →
      KvmAccepts cpu restored) := by
  refine ⟨fun xsave hbv hxcomp hmxcsr => ?_, fun bytes restored => restoreFromSignal_accepted⟩
  obtain ⟨restored, hok, hwords⟩ := restoreFromSignal_fromKvm hbv hxcomp hmxcsr
  refine ⟨restored, hok, fun component j hj => ?_⟩
  rw [Region.byte, Region.byte, hwords (j / 4) (Component.covers_word hj)]

/-- A processor with every MXCSR bit. -/
def sampleCpu : Cpu := ⟨0xffff, by decide⟩

/-- A state with x87, XMM and YMM registers that are not the initial ones. -/
def sampleXsave : Region :=
  (((((initializedKvm sampleCpu).set 0 0x027f).set 6 0x1fa0).set 40 0x11223344).set 144 0x55667788).set
    (xstateBvOffset / 4) (fixedXfeatures.setWidth 32)

theorem xsave_round_trip_ymm :
    ∃ restored, restoreFromSignal sampleCpu (fromKvm sampleXsave) = .ok restored ∧
      restored.byte 0 = 0x7f ∧ restored.byte 24 = 0xa0 ∧ restored.byte 160 = 0x44 ∧
        restored.byte 576 = 0x88 := by
  obtain ⟨restored, hok, hbytes⟩ := (xsave_round_trip sampleCpu).1 sampleXsave (by decide) (by decide)
    (by decide)
  refine ⟨restored, hok, ?_, ?_, ?_, ?_⟩
  · exact (hbytes .x87 0 (by simp [Component.covers])).trans (by decide)
  · exact (hbytes .mxcsr 24 (by simp [Component.covers])).trans (by decide)
  · exact (hbytes .xmm 160 (by simp [Component.covers])).trans (by decide)
  · exact (hbytes .ymm 576 (by simp [Component.covers])).trans (by decide)

end Reverie.SignalFrame
