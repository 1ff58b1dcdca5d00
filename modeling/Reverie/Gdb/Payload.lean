/-
  Binary payloads and the parsers (`_x_upper.rs`, `_m_upper.rs`, `_vFile.rs`).  `pwrite` splits
  its data at commas, which the protocol does not escape, and an `M` without data panics
  (`payload_lost`); exactly the rest is read back as it was (`payload_read_back`).
-/
import Reverie.Gdb.Render

namespace Reverie.Gdb
open List

/-! ## What gdb sends -/

/-- The address and the length of an `X` or an `M`. -/
def addrLen (addr len : ℕ) : List UInt8 :=
  hexNumber addr ++ ','.toUInt8 :: hexNumber len

section
variable (esc : Escaping)

/-- The body of an `X`. -/
def renderX (addr : ℕ) (data : List UInt8) : List UInt8 :=
  ascii "X" ++ (addrLen addr data.length ++ ':'.toUInt8 :: esc.escape data)

/-- The body of an `M`. -/
def renderM (addr : ℕ) (data : List UInt8) : List UInt8 :=
  ascii "M" ++ (addrLen addr data.length ++ ':'.toUInt8 :: hexBytes data)

/-- The body of a `vFile:pwrite`. -/
def renderPwrite (fd offset : ℕ) (data : List UInt8) : List UInt8 :=
  ascii "vFile" ++ (ascii ":pwrite:" ++
    (hexNumber fd ++ ','.toUInt8 :: (hexNumber offset ++ ','.toUInt8 :: esc.escape data)))

end

/-! ## X -/

theorem ne_colon_of_mem_addrLen {addr len : ℕ} {c : UInt8} (h : c ∈ addrLen addr len) :
    c ≠ ':'.toUInt8 := by
  rcases mem_append.1 h with h | h
  · exact ne_of_mem_hexNumber h (by decide)
  · rcases mem_cons.1 h with rfl | h
    · decide
    · exact ne_of_mem_hexNumber h (by decide)

theorem not_mem_hexNumber {s : Char} (hs : s ∈ [',', ':', '#', '}']) (n : ℕ) :
    s.toUInt8 ∉ hexNumber n :=
  fun h => ne_of_mem_hexNumber h hs rfl

theorem X.parse_render {addr : ℕ} {data : List UInt8} (haddr : addr < 2 ^ 64)
    (hlen : data.length < 2 ^ 64) (esc : Escaping) :
    (X.parse (addrLen addr data.length ++ ':'.toUInt8 :: esc.escape data)).run =
      .ok (some (.X addr data.length data)) := by
  have hfind : (addrLen addr data.length ++ ':'.toUInt8 :: esc.escape data).findIdx?
      (fun b => b = ':'.toUInt8) = some (addrLen addr data.length).length := by
    rw [findIdx?_append, findIdx?_eq_none_iff.2
      fun c hc => decide_eq_false (ne_colon_of_mem_addrLen hc), findIdx?_cons]
    simp
  have hsplit : splitAt (addrLen addr data.length ++ ':'.toUInt8 :: esc.escape data)
      (addrLen addr data.length).length =
        .ok (addrLen addr data.length, ':'.toUInt8 :: esc.escape data) := by
    rw [splitAt_ok (by simp), take_left, drop_left]
  have hfields : fields ',' (addrLen addr data.length) = [hexNumber addr, hexNumber data.length] := by
    rw [addrLen, fields_hexNumber (by decide), fields_of_not_mem (not_mem_hexNumber (by decide) _)]
  have hslice : sliceFrom (':'.toUInt8 :: esc.escape data) 1 = .ok (esc.escape data) :=
    sliceFrom_ok (by simp)
  rw [X.parse, hfind, found_some_bind, Returns.opt_lift_eq hsplit]
  dsimp only
  rw [hfields, getElem?_cons_zero, hexField_bind (Nat.le_sub_one_of_lt haddr),
    getElem?_cons_succ, getElem?_cons_zero, hexField_bind (Nat.le_sub_one_of_lt hlen),
    Returns.opt_lift_eq hslice, decodeBinaryString_escape]
  rfl

/-! ## M -/

theorem okay_bind {ε α β : Type} {x : ExceptT ε (Except Panic) α} {a : α} (h : x.run = .ok (.ok a))
    (f : α → Parser β) : okay x >>= f = f a := by
  rw [okay, h]
  rfl

/-- Without data, the bound of the loop over the digits underflows. -/
theorem M.parse_render_iff {addr : ℕ} {data : List UInt8} (haddr : addr < 2 ^ 64)
    (hlen : data.length < 2 ^ 64) :
    (M.parse (addrLen addr data.length ++ ':'.toUInt8 :: hexBytes data)).run =
      .ok (some (.M addr data.length data)) ↔ data ≠ [] := by
  have hdigits := not_separator_of_mem_hexNumber (s := ',') (t := ':') (by decide) (by decide)
  have hfields : fieldsAt ',' ':' (addrLen addr data.length ++ ':'.toUInt8 :: hexBytes data) =
      hexNumber addr :: hexNumber data.length :: fieldsAt ',' ':' (hexBytes data) := by
    rw [addrLen, append_assoc, cons_append, fieldsAt,
      splitOnP_append_cons_of_forall_mem (hdigits addr) _ (by decide),
      splitOnP_append_cons_of_forall_mem (hdigits data.length) _ (by decide)]
    rfl
  have hsplit : splitAt (addrLen addr data.length ++ ':'.toUInt8 :: hexBytes data)
      (2 + (hexNumber addr).length + (hexNumber data.length).length) =
        .ok (addrLen addr data.length ++ [':'.toUInt8], hexBytes data) := by
    have hj : 2 + (hexNumber addr).length + (hexNumber data.length).length =
        (addrLen addr data.length ++ [':'.toUInt8]).length := by
      simp [addrLen]
      omega
    rw [hj, append_cons, splitAt_ok (by simp), take_left, drop_left]
  rw [M.parse, hfields]
  simp only [getElem?_cons_zero, getElem?_cons_succ, found_some_bind]
  rw [hexField_bind (Nat.le_sub_one_of_lt haddr), hexField_bind (Nat.le_sub_one_of_lt hlen),
    Returns.opt_lift_eq hsplit]
  by_cases hne : data = []
  · subst hne
    exact ⟨(by cases ·), (absurd rfl ·)⟩
  · rw [okay_bind (decodeHexString_hexBytes hne)]
    exact iff_of_true rfl hne

/-! ## pwrite -/

/-- What is cut short has less data. -/
theorem length_lt_of_decodeBinaryString {esc : Escaping} {data head tail read : List UInt8}
    (h : esc.escape data = head ++ tail) (htail : tail ≠ [])
    (hread : decodeBinaryString head = .ok read) : read.length < data.length := by
  induction data generalizing head read with
  | nil => exact absurd (append_eq_nil_iff.1 h.symm).2 htail
  | cons b data ih =>
    have hcons : ∀ {c : UInt8} {head' read' : List UInt8}, esc.escape data = head' ++ tail →
        (c :: ·) <$> decodeBinaryString head' = .ok read' → read'.length < data.length + 1 := by
      intro c head' read' hrest hmap
      rcases hd : decodeBinaryString head' with e | rest
      · rw [hd] at hmap
        cases hmap
      · rw [hd] at hmap
        cases hmap
        exact Nat.succ_lt_succ (ih hrest hd)
    have hbyte : esc.byte b ++ esc.escape data = head ++ tail := h
    rw [Escaping.byte] at hbyte
    rcases head with _ | ⟨c, head⟩
    · cases hread
      exact Nat.succ_pos _
    split_ifs at hbyte with hb
    · obtain ⟨rfl, hrest⟩ := List.cons.inj hbyte
      rcases head with _ | ⟨d, head⟩
      · cases hread
      · exact hcons (List.cons.inj hrest).2 hread
    · obtain ⟨rfl, hrest⟩ := List.cons.inj hbyte
      have hne : b ≠ '}'.toUInt8 := by
        rintro rfl
        exact hb esc.brace
      rw [decodeBinaryString_cons hne] at hread
      exact hcons hrest hread

/-- The data ends at its first comma. -/
theorem vFile.parse_render_iff {fd offset : ℕ} {data : List UInt8} (hfd : fd < 2 ^ 31)
    (hoffset : offset < 2 ^ 63) {esc : Escaping} :
    (vFile.parse (ascii ":pwrite:" ++ (hexNumber fd ++ ','.toUInt8 :: (hexNumber offset ++
      ','.toUInt8 :: esc.escape data)))).run = .ok (some (.pwrite fd offset data)) ↔
        ','.toUInt8 ∉ esc.escape data := by
  set args := hexNumber fd ++ ','.toUInt8 :: (hexNumber offset ++ ','.toUInt8 :: esc.escape data)
  have hpwrite : startsWith (ascii ":pwrite:" ++ args) ":pwrite:" = true := rfl
  have hslice : sliceFrom (ascii ":pwrite:" ++ args) (ascii ":pwrite:").length = .ok args := by
    rw [sliceFrom_ok (length_of_startsWith hpwrite), drop_left]
  obtain ⟨more, hmore⟩ := fields_eq_cons ',' (esc.escape data)
  have hfields : fields ',' args = hexNumber fd :: hexNumber offset ::
      (esc.escape data).takeWhile (· ≠ ','.toUInt8) :: more := by
    rw [fields_hexNumber (by decide), fields_hexNumber (by decide), hmore]
  have hparse : (vFile.parse (ascii ":pwrite:" ++ args)).run = .ok ((decodeBinaryString
      ((esc.escape data).takeWhile (· ≠ ','.toUInt8))).toOption.map (.pwrite fd offset)) := by
    rw [vFile.parse, hpwrite]
    rw [Returns.opt_lift_eq hslice, hfields]
    simp only [getElem?_cons_zero, getElem?_cons_succ]
    rw [hexField_bind (Nat.le_sub_one_of_lt hfd), hexField_bind (Nat.le_sub_one_of_lt hoffset),
      Option.bind_some]
    rcases (decodeBinaryString ((esc.escape data).takeWhile _)).toOption <;> rfl
  rw [hparse]
  constructor
  · intro hread hcomma
    have hsplit := takeWhile_append_dropWhile (p := (· ≠ ','.toUInt8)) (l := esc.escape data)
    have htail : (esc.escape data).dropWhile (· ≠ ','.toUInt8) ≠ [] := by
      rw [ne_eq, dropWhile_eq_nil_iff]
      exact fun hall => absurd (hall _ hcomma) (by simp)
    rcases hd : decodeBinaryString ((esc.escape data).takeWhile (· ≠ ','.toUInt8)) with e | read
    · rw [hd] at hread
      cases hread
    · rw [hd] at hread
      cases hread
      exact lt_irrefl _ (length_lt_of_decodeBinaryString hsplit.symm htail hd)
  · intro hcomma
    have hall : (esc.escape data).takeWhile (· ≠ ','.toUInt8) = esc.escape data :=
      takeWhile_eq_self_iff.2 fun c hc => decide_eq_true fun he => hcomma (he ▸ hc)
    rw [hall, decodeBinaryString_escape]
    rfl

/-! ## Packets -/

section
variable {esc : Escaping} {addr fd offset : ℕ} {data : List UInt8}

theorem sealed_addrLen (addr len : ℕ) : Sealed (addrLen addr len) :=
  (sealed_hexNumber addr).append ((sealed_hexNumber len).cons (by decide) (by decide))

theorem renderX_read_back (haddr : addr < 2 ^ 64) (hlen : data.length < 2 ^ 64) :
    (Packet.tryFrom (frame (renderX esc addr data))).run =
      .ok (.ok (.command (.base (.X addr data.length data)))) := by
  refine (Packet.tryFrom_frame_iff (.base "X" X.parse) rfl rfl (by decide) ?_).2 ?_
  · exact (sealed_of_all (by decide)).append ((sealed_addrLen _ _).append
      ((sealed_escape esc data).cons (by decide) (by decide)))
  · exact Entry.base_run_iff.2 (X.parse_render haddr hlen esc)

theorem renderM_read_back_iff (haddr : addr < 2 ^ 64) (hlen : data.length < 2 ^ 64) :
    (Packet.tryFrom (frame (renderM addr data))).run =
      .ok (.ok (.command (.base (.M addr data.length data)))) ↔ data ≠ [] := by
  rw [← M.parse_render_iff haddr hlen]
  refine (Packet.tryFrom_frame_iff (.base "M" M.parse) rfl rfl (by decide) ?_).trans Entry.base_run_iff
  exact (sealed_of_all (by decide)).append ((sealed_addrLen _ _).append
    ((sealed_hexBytes data).cons (by decide) (by decide)))

theorem renderPwrite_read_back_iff (hfd : fd < 2 ^ 31) (hoffset : offset < 2 ^ 63) :
    (Packet.tryFrom (frame (renderPwrite esc fd offset data))).run =
      .ok (.ok (.command (.base (.vFile (.pwrite fd offset data))))) ↔
        ','.toUInt8 ∉ esc.escape data := by
  refine (Packet.tryFrom_frame_iff (.base "vFile" fun bytes => Base.vFile <$> vFile.parse bytes)
    rfl rfl (by decide) ?_).trans (Entry.base_run_iff.trans ?_)
  · exact (sealed_of_all (by decide)).append ((sealed_of_all (by decide)).append
      ((sealed_hexNumber fd).append (((sealed_hexNumber offset).append
        ((sealed_escape esc data).cons (by decide) (by decide))).cons (by decide) (by decide))))
  · rw [OptionT.run_map, ← vFile.parse_render_iff hfd hoffset]
    rcases (vFile.parse _).run with p | _ | request
    · exact ⟨(by cases ·), (by cases ·)⟩
    · exact ⟨(by cases ·), (by cases ·)⟩
    · exact ⟨fun h => (by cases h; rfl), fun h => (by cases h; rfl)⟩

end

/-- **What is read back.**  The addresses, descriptors and offsets are those of their
    types. -/
theorem payload_read_back (esc : Escaping) (addr fd offset : ℕ) (data : List UInt8)
    (haddr : addr < 2 ^ 64) (hfd : fd < 2 ^ 31) (hoffset : offset < 2 ^ 63)
    (hlen : data.length < 2 ^ 64) :
    (Packet.tryFrom (frame (renderX esc addr data))).run =
        .ok (.ok (.command (.base (.X addr data.length data)))) ∧
      ((Packet.tryFrom (frame (renderM addr data))).run =
        .ok (.ok (.command (.base (.M addr data.length data)))) ↔ data ≠ []) ∧
      ((Packet.tryFrom (frame (renderPwrite esc fd offset data))).run =
        .ok (.ok (.command (.base (.vFile (.pwrite fd offset data))))) ↔
          ','.toUInt8 ∉ esc.escape data) :=
  ⟨renderX_read_back haddr hlen, renderM_read_back_iff haddr hlen,
    renderPwrite_read_back_iff hfd hoffset⟩

theorem payload_read_back_sample :
    (Packet.tryFrom (frame (renderX gdbEscaping 0x216eb0 (ascii ":;#$\x7d")))).run =
        .ok (.ok (.command (.base (.X 0x216eb0 5 (ascii ":;#$\x7d"))))) ∧
      (Packet.tryFrom (frame (renderM 0x216eb0 (ascii ":;#$\x7d")))).run =
        .ok (.ok (.command (.base (.M 0x216eb0 5 (ascii ":;#$\x7d"))))) ∧
      (Packet.tryFrom (frame (renderPwrite gdbEscaping 3 0 (ascii ":;#$\x7d")))).run =
        .ok (.ok (.command (.base (.vFile (.pwrite 3 0 (ascii ":;#$\x7d")))))) := by
  obtain ⟨hX, hM, hpwrite⟩ := payload_read_back gdbEscaping 0x216eb0 3 0 (ascii ":;#$\x7d")
    (by decide) (by decide) (by decide) (by decide)
  exact ⟨hX, hM.2 (by decide), hpwrite.2 (by decide)⟩

/-- The data of a `pwrite` is lost from its first comma on, and an `M` without data panics. -/
theorem payload_lost :
    (Packet.tryFrom (frame (renderPwrite gdbEscaping 1 0 (ascii "a,b")))).run =
        .ok (.ok (.command (.base (.vFile (.pwrite 1 0 (ascii "a")))))) ∧
      (Packet.tryFrom (frame (renderM 0 []))).run = .error .subtractOverflow :=
  ⟨rfl, rfl⟩

end Reverie.Gdb
