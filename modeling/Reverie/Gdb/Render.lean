/-
  What the two ends of the protocol write, and that it is read back.  The remote protocol asks
  a sender to escape `#`, `$` and `}`, and leaves it free to escape others (`*` in replies).
-/
import Reverie.Gdb.Total

namespace Reverie.Gdb
open List Option

/-! ## Numbers -/

def hexChar (n : ℕ) : UInt8 :=
  if n < 10 then '0'.toUInt8 + n.toUInt8 else 'a'.toUInt8 + (n - 10).toUInt8

def hexNumber (n : ℕ) : List UInt8 :=
  if n = 0 then [hexChar 0] else (Nat.digits 16 n).reverse.map hexChar

variable {n : ℕ} {ty : IntType} {c b : UInt8} {s separator : Char} {bytes body rest : List UInt8}
  {name : String} {command : Command}

theorem fromHex_hexChar (h : n < 16) : fromHex (hexChar n) = some n.toUInt8 := by
  have hall : ∀ n : Fin 16, fromHex (hexChar n) = some (n : ℕ).toUInt8 := by decide
  exact hall ⟨n, h⟩

theorem hexDigit_hexChar (h : n < 16) : hexDigit (hexChar n) = .ok n.toUInt8 := by
  rw [hexDigit, fromHex_hexChar h]
  rfl

theorem toNat_toUInt8 (h : n < 16) : n.toUInt8.toNat = n :=
  Nat.mod_eq_of_lt (h.trans (by decide))

theorem decodeHexFrom_cons {r : ℕ} (h : n < 16) (hmax : r * 16 + n ≤ ty.max)
    (rest : List UInt8) :
    decodeHexFrom ty (hexChar n :: rest) r = decodeHexFrom ty rest (r * 16 + n) := by
  rw [decodeHexFrom, hexDigit_hexChar h]
  show (if ty.max < r * 16 then _ else if ty.max < r * 16 + n.toUInt8.toNat then _ else _) = _
  rw [toNat_toUInt8 h, if_neg (by omega), if_neg (by omega)]

theorem decodeHexFrom_digits (ty : IntType) (r : ℕ) (ds : List ℕ) : ∀ rest : List UInt8,
    (∀ d ∈ ds, d < 16) → r * 16 ^ ds.length + Nat.ofDigits 16 ds ≤ ty.max →
      decodeHexFrom ty (ds.reverse.map hexChar ++ rest) r =
        decodeHexFrom ty rest (r * 16 ^ ds.length + Nat.ofDigits 16 ds) := by
  -- the first digit written is the last of the list
  induction ds with
  | nil => exact fun rest _ _ => by simp
  | cons d ds ih =>
    intro rest hlt hmax
    have hvalue : r * 16 ^ (d :: ds).length + Nat.ofDigits 16 (d :: ds) =
        (r * 16 ^ ds.length + Nat.ofDigits 16 ds) * 16 + d := by
      rw [Nat.ofDigits_cons, length_cons]
      ring
    rw [hvalue] at hmax ⊢
    rw [reverse_cons, map_append, append_assoc,
      ih _ (fun x hx => hlt x (mem_cons_of_mem _ hx)) (by omega)]
    exact decodeHexFrom_cons (hlt d mem_cons_self) hmax rest

theorem decodeHex_hexNumber (h : n ≤ ty.max) : decodeHex ty (hexNumber n) = .ok n := by
  rw [decodeHex, hexNumber]
  by_cases hn : n = 0
  · subst hn
    exact decodeHexFrom_cons (r := 0) (by decide) h []
  · have hdigits := decodeHexFrom_digits ty 0 (Nat.digits 16 n) []
      (fun d hd => Nat.digits_lt_base (by decide) hd)
      (by rwa [Nat.ofDigits_digits, Nat.zero_mul, Nat.zero_add])
    rw [Nat.ofDigits_digits, Nat.zero_mul, Nat.zero_add, List.append_nil] at hdigits
    have hne : ¬ ((Nat.digits 16 n).reverse.map hexChar).isEmpty = true := by
      rw [List.isEmpty_iff, List.map_eq_nil_iff, List.reverse_eq_nil_iff]
      exact Nat.digits_ne_nil_iff_ne_zero.2 hn
    rw [if_neg hn, if_neg hne, hdigits]
    rfl

theorem exists_of_mem_hexNumber (h : c ∈ hexNumber n) : ∃ k < 16, c = hexChar k := by
  rw [hexNumber] at h
  split_ifs at h with hn
  · exact ⟨0, by decide, mem_singleton.1 h⟩
  · obtain ⟨k, hk, rfl⟩ := mem_map.1 h
    exact ⟨k, Nat.digits_lt_base (by decide) (mem_reverse.1 hk), rfl⟩

theorem hexChar_ne {k : ℕ} (h : k < 16) (hs : s ∈ [',', ':', '#', '}']) :
    hexChar k ≠ s.toUInt8 := by
  have hall : ∀ k : Fin 16, ([',', ':', '#', '}'].all fun s => hexChar k ≠ s.toUInt8) = true := by
    decide
  exact of_decide_eq_true (all_eq_true.1 (hall ⟨k, h⟩) s hs)

theorem ne_of_mem_hexNumber (h : c ∈ hexNumber n)
    (hs : s ∈ [',', ':', '#', '}']) : c ≠ s.toUInt8 := by
  obtain ⟨k, hk, rfl⟩ := exists_of_mem_hexNumber h
  exact hexChar_ne hk hs

/-- No digit is one of two separators. -/
theorem not_separator_of_mem_hexNumber {t : Char} (hs : s ∈ [',', ':', '#', '}'])
    (ht : t ∈ [',', ':', '#', '}']) (n : ℕ) :
    ∀ c ∈ hexNumber n, (c = s.toUInt8 || c = t.toUInt8) = false := by
  intro c hc
  rw [Bool.or_eq_false_iff, decide_eq_false_iff_not, decide_eq_false_iff_not]
  exact ⟨ne_of_mem_hexNumber hc hs, ne_of_mem_hexNumber hc ht⟩

/-! ## Bytes -/

def hexByte (b : UInt8) : List UInt8 := [hexChar (b.toNat / 16), hexChar (b.toNat % 16)]

def hexBytes (data : List UInt8) : List UInt8 := data.flatMap hexByte

theorem hexByte_value (b : UInt8) : 16 * (b.toNat / 16).toUInt8 + (b.toNat % 16).toUInt8 = b := by
  have hb := b.toNat_lt
  apply UInt8.toNat_inj.1
  simp only [UInt8.toNat_add, UInt8.toNat_mul, UInt8.toNat_ofNat', UInt8.toNat_ofNat]
  omega

theorem decodeHexPairs_hexBytes (data : List UInt8) : decodeHexPairs (hexBytes data) = .ok data := by
  induction data with
  | nil => rfl
  | cons b data ih =>
    show decodeHexPairs (hexChar (b.toNat / 16) :: hexChar (b.toNat % 16) :: hexBytes data) = _
    have hb := b.toNat_lt
    rw [decodeHexPairs, hexDigit_hexChar (by omega), hexDigit_hexChar (by omega), ih]
    show Except.ok (_ :: data) = _
    rw [hexByte_value]

theorem length_hexBytes (data : List UInt8) : (hexBytes data).length = 2 * data.length := by
  induction data with
  | nil => rfl
  | cons b data ih =>
    show (hexBytes data).length + 2 = _
    rw [length_cons]
    omega

theorem decodeHexString_hexBytes {data : List UInt8} (h : data ≠ []) :
    (decodeHexString (hexBytes data)).run = .ok (.ok data) := by
  have hlen := length_hexBytes data
  have hpos : 0 < data.length := length_pos_iff.2 h
  have hsub : subtract (hexBytes data).length 1 = .ok ((hexBytes data).length - 1) :=
    if_pos (by omega)
  rw [decodeHexString, if_neg (by omega), hsub, ← decodeHexPairs_hexBytes data]
  rfl

/-! ## Binary data -/

/-- The bytes that a sender escapes. -/
structure Escaping where
  escapes : UInt8 → Bool
  hash : escapes '#'.toUInt8 = true
  dollar : escapes '$'.toUInt8 = true
  brace : escapes '}'.toUInt8 = true

def Escaping.byte (esc : Escaping) (b : UInt8) : List UInt8 :=
  if esc.escapes b then ['}'.toUInt8, b ^^^ 0x20] else [b]

def Escaping.escape (esc : Escaping) (data : List UInt8) : List UInt8 := data.flatMap esc.byte

def gdbEscaping : Escaping where
  escapes b := ['#', '$', '}', '*'].any fun c => b = c.toUInt8
  hash := rfl
  dollar := rfl
  brace := rfl

theorem decodeBinaryString_brace (c : UInt8) (rest : List UInt8) :
    decodeBinaryString ('}'.toUInt8 :: c :: rest) = ((c ^^^ 0x20) :: ·) <$> decodeBinaryString rest := by
  rfl

theorem decodeBinaryString_cons (h : b ≠ '}'.toUInt8) (rest : List UInt8) :
    decodeBinaryString (b :: rest) = (b :: ·) <$> decodeBinaryString rest := by
  cases rest with
  | nil =>
    show (if b = '}'.toUInt8 then _ else _) = _
    rw [if_neg h]
    rfl
  | cons c rest =>
    rw [decodeBinaryString, if_neg h]
    rfl

theorem decodeBinaryString_escape (esc : Escaping) (data : List UInt8) :
    decodeBinaryString (esc.escape data) = .ok data := by
  induction data with
  | nil => rfl
  | cons b data ih =>
    show decodeBinaryString (esc.byte b ++ esc.escape data) = _
    rw [Escaping.byte]
    split_ifs with hb
    · rw [cons_append, singleton_append, decodeBinaryString_brace, ih]
      show Except.ok (_ :: data) = _
      rw [UInt8.xor_assoc, UInt8.xor_self, UInt8.xor_zero]
    · have hne : b ≠ '}'.toUInt8 := by
        rintro rfl
        exact hb esc.brace
      rw [singleton_append, decodeBinaryString_cons hne, ih]
      rfl

/-! ## Frames -/

def frame (body : List UInt8) : List UInt8 :=
  '$'.toUInt8 :: body ++ '#'.toUInt8 :: hexByte (checksum body)

/-- Every `}` of the bytes escapes the byte after it, and no other byte is `#`. -/
inductive Sealed : List UInt8 → Prop
  | nil : Sealed []
  | cons {b : UInt8} {bytes : List UInt8} (hbrace : b ≠ '}'.toUInt8) (hhash : b ≠ '#'.toUInt8)
      (h : Sealed bytes) : Sealed (b :: bytes)
  | escape {b : UInt8} {bytes : List UInt8} (h : Sealed bytes) : Sealed ('}'.toUInt8 :: b :: bytes)

/-- The end of a packet is looked for behind sealed bytes. -/
theorem Sealed.delimiter (h : Sealed bytes) (rest : List UInt8) :
    checksumDelimiter (bytes ++ rest) false =
      (checksumDelimiter rest false).map (· + bytes.length) := by
  induction h with
  | nil => simp
  | cons hbrace hhash _ ih =>
    rw [cons_append, checksumDelimiter, if_neg hbrace, if_neg hhash, ih, Option.map_map]
    rfl
  | escape _ ih =>
    rw [cons_append, cons_append, checksumDelimiter, if_pos rfl, checksumDelimiter, ih,
      Option.map_map, Option.map_map]
    rfl

theorem Sealed.append {left right : List UInt8} (hl : Sealed left) (hr : Sealed right) :
    Sealed (left ++ right) := by
  induction hl with
  | nil => exact hr
  | cons hbrace hhash _ ih => exact .cons hbrace hhash ih
  | escape _ ih => exact .escape ih

theorem sealed_of_forall (h : ∀ b ∈ bytes, b ≠ '}'.toUInt8 ∧ b ≠ '#'.toUInt8) : Sealed bytes := by
  induction bytes with
  | nil => exact .nil
  | cons b bytes ih =>
    obtain ⟨hb, hbytes⟩ := forall_mem_cons.1 h
    exact .cons hb.1 hb.2 (ih hbytes)

theorem sealed_of_all (h : (bytes.all fun b => b ≠ '}'.toUInt8 ∧ b ≠ '#'.toUInt8) = true) :
    Sealed bytes :=
  sealed_of_forall fun b hb => of_decide_eq_true (all_eq_true.1 h b hb)

theorem sealed_hexNumber (n : ℕ) : Sealed (hexNumber n) :=
  sealed_of_forall fun _ hb => ⟨ne_of_mem_hexNumber hb (by decide), ne_of_mem_hexNumber hb (by decide)⟩

theorem sealed_hexBytes (data : List UInt8) : Sealed (hexBytes data) := by
  refine sealed_of_forall fun c hc => ?_
  obtain ⟨b, -, hc⟩ := mem_flatMap.1 hc
  have hb := b.toNat_lt
  have hdigit : ∃ k < 16, c = hexChar k := by
    rcases mem_cons.1 hc with rfl | hc
    · exact ⟨_, by omega, rfl⟩
    · obtain rfl := mem_singleton.1 hc
      exact ⟨_, Nat.mod_lt _ (by decide), rfl⟩
  obtain ⟨k, hk, rfl⟩ := hdigit
  exact ⟨hexChar_ne hk (by decide), hexChar_ne hk (by decide)⟩

theorem sealed_escape (esc : Escaping) (data : List UInt8) : Sealed (esc.escape data) := by
  induction data with
  | nil => exact .nil
  | cons b data ih =>
    show Sealed (esc.byte b ++ esc.escape data)
    rw [Escaping.byte]
    split_ifs with hb
    · exact .escape ih
    · refine .cons ?_ ?_ ih
      · rintro rfl
        exact hb esc.brace
      · rintro rfl
        exact hb esc.hash

theorem decodeHex_hexByte (b : UInt8) : decodeHex .u8 (hexByte b) = .ok b.toNat := by
  have hb := b.toNat_lt
  have hmax : IntType.max .u8 = 255 := rfl
  have hne : (hexByte b).isEmpty = false := rfl
  rw [decodeHex, hne, hexByte, decodeHexFrom_cons (by omega) (by omega),
    decodeHexFrom_cons (by omega) (by omega), Nat.zero_add,
    Nat.div_add_mod']
  rfl

theorem checksumDelimiter_frame (h : Sealed body) (rest : List UInt8) :
    checksumDelimiter ('$'.toUInt8 :: body ++ '#'.toUInt8 :: rest) false = some (body.length + 1) := by
  have hend : checksumDelimiter ('#'.toUInt8 :: rest) false = some 0 := rfl
  rw [cons_append, checksumDelimiter, if_neg (by decide), if_neg (by decide), h.delimiter, hend,
    map_some, map_some, Nat.zero_add]

theorem decodePacket_frame {hi lo : UInt8} (h : Sealed body)
    (hsum : decodeHex .u8 [hi, lo] = .ok (checksum body).toNat) :
    (decodePacket ('$'.toUInt8 :: body ++ ['#'.toUInt8, hi, lo])).run = .ok (.ok body) := by
  have hsplit : splitAt ('$'.toUInt8 :: body ++ ['#'.toUInt8, hi, lo]) (body.length + 1) =
      .ok ('$'.toUInt8 :: body, ['#'.toUInt8, hi, lo]) := by
    rw [splitAt_ok (by simp)]
    simp
  rw [decodePacket, checksumDelimiter_frame h]
  dsimp only
  rw [Returns.exc_lift_eq hsplit]
  have hdigits : checksumDigits ['#'.toUInt8, hi, lo] = some [hi, lo] := rfl
  rw [hdigits]
  dsimp only
  rw [hsum]
  dsimp only
  rw [drop_one, tail_cons, if_neg (not_not_intro rfl), Returns.exc_lift_eq hsplit]
  rfl

/-! ## Parsers on what is written -/

theorem hexField_bind (h : n ≤ ty.max) {α : Type} (f : ℕ → Parser α) :
    hexField ty (some (hexNumber n)) >>= f = f n := by
  rw [hexField, bind_some, decodeHex_hexNumber h]
  rfl

theorem fields_hexNumber (hs : separator ∈ [',', ':', '#', '}']) (n : ℕ) (rest : List UInt8) :
    fields separator (hexNumber n ++ separator.toUInt8 :: rest) = hexNumber n :: fields separator rest :=
  splitOnP_append_cons_of_forall_mem
    (fun _ hc => decide_eq_false (ne_of_mem_hexNumber hc hs)) _ (decide_eq_true rfl) rest

theorem fields_of_not_mem (h : separator.toUInt8 ∉ bytes) : fields separator bytes = [bytes] :=
  splitOnP_eq_singleton fun _ hc => decide_eq_false fun heq => h (heq ▸ hc)

theorem fields_eq_cons (separator : Char) (bytes : List UInt8) : ∃ more,
    fields separator bytes = bytes.takeWhile (· ≠ separator.toUInt8) :: more := by
  induction bytes with
  | nil => exact ⟨[], rfl⟩
  | cons b bytes ih =>
    obtain ⟨more, hmore⟩ := ih
    rw [fields] at hmore
    rw [fields, splitOnP_cons_eq_if_modifyHead, hmore]
    by_cases hb : b = separator.toUInt8
    · exact ⟨_, by rw [if_pos (decide_eq_true hb), takeWhile_cons_of_neg (by simpa using hb)]⟩
    · exact ⟨more, by rw [if_neg (by simpa using hb), takeWhile_cons_of_pos (by simpa using hb)]; rfl⟩

theorem Command.tryParse_eq_ok_iff {entry : Entry}
    (hentry : commandOf (ascii name ++ rest) = some entry)
    (hname : entry.name = name) (hne : ascii name ≠ []) :
    (Command.tryParse (ascii name ++ rest)).run = .ok (.ok command) ↔
      (entry.parse rest).run = .ok (some command) := by
  subst hname
  have hsplit : splitAt (ascii entry.name ++ rest) (ascii entry.name).length =
      .ok (ascii entry.name, rest) := by
    rw [splitAt_ok (length_of_startsWith (startsWith_of_commandOf hentry)), take_left,
      drop_left]
  rw [Command.tryParse, if_neg fun he => ascii_append_ne_nil hne rest (isEmpty_iff.1 he), hentry]
  dsimp only
  rw [Returns.exc_lift_eq hsplit]
  rcases (entry.parse rest).run with p | _ | found
  · exact ⟨(by cases ·), (by cases ·)⟩
  · exact ⟨(by cases ·), (by cases ·)⟩
  · exact ⟨fun h => (by cases h; rfl), fun h => (by cases h; rfl)⟩

theorem Entry.base_run_iff {parse : List UInt8 → Parser Base} {command : Base} :
    ((Entry.base name parse).parse bytes).run = .ok (some (.base command)) ↔
      (parse bytes).run = .ok (some command) := by
  show (Command.base <$> parse bytes).run = _ ↔ _
  rw [OptionT.run_map]
  rcases (parse bytes).run with p | _ | found
  · exact ⟨(by cases ·), (by cases ·)⟩
  · exact ⟨(by cases ·), (by cases ·)⟩
  · exact ⟨fun h => (by cases h; rfl), fun h => (by cases h; rfl)⟩

/-- A packet is read as a command exactly if its entry of the table reads it so. -/
theorem Packet.tryFrom_frame_iff (entry : Entry)
    (hentry : commandOf (ascii name ++ rest) = some entry) (hname : entry.name = name)
    (hne : ascii name ≠ []) (hsealed : Sealed (ascii name ++ rest)) :
    (Packet.tryFrom (frame (ascii name ++ rest))).run = .ok (.ok (.command command)) ↔
      (entry.parse rest).run = .ok (some command) := by
  rw [← Command.tryParse_eq_ok_iff hentry hname hne]
  show (ExceptT.run do
    let body ← decodePacket (frame (ascii name ++ rest))
    let command ← ofCommand (Command.tryParse body)
    pure (Packet.command command)) = _ ↔ _
  rw [ExceptT.run_bind]
  erw [decodePacket_frame hsealed (decodeHex_hexByte _)]
  show (ExceptT.run do
    let command ← ofCommand (Command.tryParse (ascii name ++ rest))
    pure (Packet.command command)) = _ ↔ _
  rw [ExceptT.run_bind, ofCommand]
  rcases (Command.tryParse (ascii name ++ rest)).run with p | e | found
  · exact ⟨(by cases ·), (by cases ·)⟩
  · exact ⟨(by cases ·), (by cases ·)⟩
  · exact ⟨fun h => (by cases h; rfl), fun h => (by cases h; rfl)⟩

end Reverie.Gdb
