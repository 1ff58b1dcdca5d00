/-
  What the stub writes (`response.rs`, and the encoders of `hex.rs` and `commands.rs`), and
  what is read back of it (`responses_decode`, `thread_ids_read_back`, `strings_read_back`).
-/
import Reverie.Gdb.Transfer

namespace Reverie.Gdb
open List

/-! ## The writer -/

/-- A response with its running checksum. -/
structure ResponseWriter where
  started : Bool
  checksum : UInt8
  buf : List UInt8

namespace ResponseWriter

def new (txBuf : List UInt8) (noAckMode : Bool) : ResponseWriter :=
  ⟨false, 0, txBuf ++ if noAckMode then [] else ascii "+"⟩

variable (w : ResponseWriter) {start body : List UInt8} {n : ℕ}

def putU8 (byte : UInt8) : ResponseWriter where
  started := true
  checksum := w.checksum + byte
  buf := (if w.started then w.buf else w.buf ++ ascii "$") ++ [byte]

def putU8Hex (byte : UInt8) : ResponseWriter :=
  [(byte &&& 0xf0) >>> 4, byte &&& 0x0f].foldl (fun w digit =>
    w.putU8 (if digit ≤ 9 then '0'.toUInt8 + digit else 'a'.toUInt8 + digit - 10)) w

def putSlice (bytes : List UInt8) : ResponseWriter := bytes.foldl putU8 w

def putHexEncoded (data : List UInt8) : ResponseWriter := data.foldl putU8Hex w

def putBinaryEncoded (data : List UInt8) : ResponseWriter :=
  data.foldl (fun w b =>
    if b = '#'.toUInt8 ∨ b = '$'.toUInt8 ∨ b = '}'.toUInt8 ∨ b = '*'.toUInt8 then
      (w.putU8 '}'.toUInt8).putU8 (b ^^^ 0x20)
    else w.putU8 b) w

/-- The loop of `put_num`, with the index `k` that it writes at and the bytes behind it. -/
def numBytes : ℕ → ℕ → List UInt8 → Except Panic (List UInt8)
  | _, 0, bytes => pure bytes
  | 0, _, _ => throw .subtractOverflow
  | k + 1, x, bytes => numBytes k (x / 256) ((x % 256).toUInt8 :: bytes)

/-- A negative number is written as the unsigned one with its bits. -/
def putNum (n : ℕ) : Except Panic ResponseWriter :=
  if n = 0 then pure (w.putU8Hex 0) else w.putHexEncoded <$> numBytes 15 n []

def finish : List UInt8 :=
  let buf := if w.started then w.buf else w.buf ++ ascii "$"
  ({ w with started := true, buf := buf ++ ascii "#" }.putU8Hex w.checksum).buf

def wrote (start body : List UInt8) : ResponseWriter :=
  ⟨!body.isEmpty, Gdb.checksum body, start ++ if body.isEmpty then [] else '$'.toUInt8 :: body⟩

theorem putU8_wrote (b : UInt8) : (wrote start body).putU8 b = wrote start (body ++ [b]) := by
  cases body with
  | nil => simp [wrote, putU8, Gdb.checksum, ascii]
  | cons c body => simp [wrote, putU8, Gdb.checksum]

theorem putSlice_wrote (bytes : List UInt8) :
    (wrote start body).putSlice bytes = wrote start (body ++ bytes) := by
  induction bytes generalizing body with
  | nil => rw [append_nil]; rfl
  | cons b bytes ih =>
    show ((wrote start body).putU8 b).putSlice bytes = _
    rw [putU8_wrote, ih, append_assoc, singleton_append]

theorem putU8Hex_eq (b : UInt8) : w.putU8Hex b = w.putSlice (hexByte b) := by
  have hall : ∀ n : Fin 256, hexByte (.ofFin n) =
      [(UInt8.ofFin n &&& 0xf0) >>> 4, UInt8.ofFin n &&& 0x0f].map fun d =>
        if d ≤ 9 then '0'.toUInt8 + d else 'a'.toUInt8 + d - 10 := by decide +kernel
  have hb := hall b.toFin
  rw [UInt8.ofFin_toFin] at hb
  rw [putSlice, hb]
  rfl

theorem putHexEncoded_eq (data : List UInt8) :
    w.putHexEncoded data = w.putSlice (hexBytes data) := by
  have heq : putU8Hex = fun w b => w.putSlice (hexByte b) := funext₂ putU8Hex_eq
  rw [putHexEncoded, heq]
  exact foldl_flatMap.symm

theorem putBinaryEncoded_eq (data : List UInt8) :
    w.putBinaryEncoded data = w.putSlice (Gdb.putBinaryEncoded data) := by
  rw [putSlice, Gdb.putBinaryEncoded, foldl_flatMap, putBinaryEncoded]
  congr 1
  funext w b
  split_ifs <;> rfl

theorem finish_wrote : (wrote start body).finish = start ++ frame body := by
  rw [finish, putU8Hex_eq, frame]
  cases body <;> simp [wrote, putSlice, putU8, hexByte, ascii]

/-! ## Numbers -/

/-- The bytes of a number, the highest first. -/
def bigEndian (n : ℕ) : List UInt8 := ((Nat.digits 256 n).map Nat.toUInt8).reverse

theorem numBytes_eq {k : ℕ} (h : n < 256 ^ k) (bytes : List UInt8) :
    numBytes k n bytes = .ok (bigEndian n ++ bytes) := by
  induction k generalizing n bytes with
  | zero =>
    obtain rfl : n = 0 := by omega
    rfl
  | succ k ih =>
    rcases Nat.eq_zero_or_pos n with rfl | hn
    · rfl
    · have hdiv : n / 256 < 256 ^ k := by omega
      rw [numBytes, ih hdiv, bigEndian, bigEndian, Nat.digits_def' (by decide) hn]
      · simp
      · omega

def numText (n : ℕ) : List UInt8 := hexBytes (if n = 0 then [0] else bigEndian n)

theorem putNum_eq (h : n < 2 ^ 120) : w.putNum n = .ok (w.putSlice (numText n)) := by
  rw [putNum, numText]
  split_ifs
  · rfl
  · rw [numBytes_eq (by omega), append_nil]
    exact congrArg Except.ok (w.putHexEncoded_eq _)

/-- The number of some bytes, the highest first. -/
def numOf (r : ℕ) (bytes : List UInt8) : ℕ := bytes.foldl (fun r b => r * 256 + b.toNat) r

theorem le_numOf (bytes : List UInt8) (r : ℕ) : r ≤ numOf r bytes := by
  induction bytes generalizing r with
  | nil => exact le_rfl
  | cons b bytes ih => exact le_trans (by omega) (ih (r * 256 + b.toNat))

theorem numOf_bigEndian (n : ℕ) : numOf 0 (bigEndian n) = n := by
  have hdigits : ∀ ds : List ℕ, (∀ d ∈ ds, d < 256) →
      numOf 0 (ds.map Nat.toUInt8).reverse = Nat.ofDigits 256 ds := by
    intro ds hds
    induction ds with
    | nil => rfl
    | cons d ds ih =>
      obtain ⟨hd, hds⟩ := forall_mem_cons.1 hds
      have hbyte : d.toUInt8.toNat = d := Nat.mod_eq_of_lt hd
      have ih := ih hds
      rw [numOf] at ih ⊢
      rw [map_cons, reverse_cons, foldl_append, ih, Nat.ofDigits_cons]
      show Nat.ofDigits 256 ds * 256 + d.toUInt8.toNat = _
      rw [hbyte]
      ring
  rw [bigEndian, hdigits _ fun d hd => Nat.digits_lt_base (by decide) hd, Nat.ofDigits_digits]

theorem decodeHexFrom_hexBytes {ty : IntType} (bytes : List UInt8) (r : ℕ)
    (h : numOf r bytes ≤ ty.max) : decodeHexFrom ty (hexBytes bytes) r = .ok (numOf r bytes) := by
  induction bytes generalizing r with
  | nil => rfl
  | cons b bytes ih =>
    have hb := b.toNat_lt
    have hle : r * 256 + b.toNat ≤ ty.max := le_trans (le_numOf bytes _) h
    have hvalue : (r * 16 + b.toNat / 16) * 16 + b.toNat % 16 = r * 256 + b.toNat := by omega
    show decodeHexFrom ty (hexChar (b.toNat / 16) :: hexChar (b.toNat % 16) :: hexBytes bytes) r = _
    rw [decodeHexFrom_cons (by omega) (by omega), decodeHexFrom_cons (by omega) (by omega), hvalue]
    exact ih _ h

theorem decodeHex_numText {ty : IntType} (h : n ≤ ty.max) : decodeHex ty (numText n) = .ok n := by
  have hne : (numText n).isEmpty = false := by
    rw [isEmpty_eq_false_iff, ← length_pos_iff, numText, length_hexBytes, bigEndian]
    split_ifs with hn
    · decide
    · have hpos : 0 < (Nat.digits 256 n).length :=
        length_pos_iff.2 (Nat.digits_ne_nil_iff_ne_zero.2 hn)
      rw [length_reverse, length_map]
      omega
  have hnum : numOf 0 (if n = 0 then [0] else bigEndian n) = n := by
    split_ifs with hn
    · rw [hn]
      rfl
    · exact numOf_bigEndian n
  rw [decodeHex, hne, if_neg Bool.false_ne_true, numText,
    decodeHexFrom_hexBytes _ _ (hnum.trans_le h), hnum]

end ResponseWriter

/-! ## Responses -/

open ResponseWriter

/-- What is put into a response. -/
inductive Put where
  | str (text : List UInt8)
  | hex (data : List UInt8)
  | binary (data : List UInt8)
  | num (n : ℕ)

def Put.run (w : ResponseWriter) : Put → Except Panic ResponseWriter
  | .str text => pure (w.putSlice text)
  | .hex data => pure (w.putHexEncoded data)
  | .binary data => pure (w.putBinaryEncoded data)
  | .num n => w.putNum n

def Put.body : Put → List UInt8
  | .str text => text
  | .hex data => hexBytes data
  | .binary data => putBinaryEncoded data
  | .num n => numText n

/-- A plain text has nothing to escape, and a number has at most fifteen bytes. -/
def Put.Plain : Put → Prop
  | .str text => ∀ b ∈ text, b ≠ '#'.toUInt8 ∧ b ≠ '$'.toUInt8 ∧ b ≠ '}'.toUInt8
  | .num n => n < 2 ^ 120
  | _ => True

theorem Put.run_wrote {put : Put} (h : put.Plain) (start body : List UInt8) :
    put.run (wrote start body) = .ok (wrote start (body ++ put.body)) := by
  cases put with
  | str text => exact congrArg Except.ok (putSlice_wrote text)
  | hex data => exact congrArg Except.ok ((putHexEncoded_eq _ data).trans (putSlice_wrote _))
  | binary data => exact congrArg Except.ok ((ResponseWriter.putBinaryEncoded_eq _ data).trans
      (putSlice_wrote _))
  | num n =>
    show (wrote start body).putNum n = _
    rw [putNum_eq _ h, putSlice_wrote]
    rfl

theorem Put.sealed_body {put : Put} (h : put.Plain) : Sealed put.body := by
  cases put with
  | str text => exact sealed_of_forall fun b hb => ⟨(h b hb).2.2, (h b hb).1⟩
  | hex data => exact sealed_hexBytes data
  | binary data =>
    rw [Put.body, Gdb.putBinaryEncoded_eq]
    exact sealed_escape _ data
  | num n => exact sealed_hexBytes _

theorem run_all_wrote {puts : List Put} (h : ∀ put ∈ puts, put.Plain) (start body : List UInt8) :
    puts.foldlM Put.run (wrote start body) = .ok (wrote start (body ++ puts.flatMap Put.body)) ∧
      Sealed (puts.flatMap Put.body) := by
  induction puts generalizing body with
  | nil => exact ⟨by rw [flatMap_nil, append_nil]; rfl, .nil⟩
  | cons put puts ih =>
    obtain ⟨hput, hputs⟩ := forall_mem_cons.1 h
    obtain ⟨hrun, hsealed⟩ := ih hputs (body ++ put.body)
    refine ⟨?_, (put.sealed_body hput).append hsealed⟩
    rw [foldlM_cons, Put.run_wrote hput, flatMap_cons, ← append_assoc, ← hrun]
    rfl

/-- **Responses decode to what was written**, behind the bytes that the buffer had and the
    acknowledgement; binary strings and numbers are read back from their bodies. -/
theorem responses_decode :
    (∀ (puts : List Put) (txBuf : List UInt8) (noAckMode : Bool), (∀ put ∈ puts, put.Plain) →
      ∃ w, puts.foldlM Put.run (.new txBuf noAckMode) = .ok w ∧
        w.finish = (ResponseWriter.new txBuf noAckMode).buf ++ frame (puts.flatMap Put.body) ∧
        (decodePacket (frame (puts.flatMap Put.body))).run = .ok (.ok (puts.flatMap Put.body))) ∧
    (∀ data, decodeBinaryString (Put.binary data).body = .ok data) ∧
    ∀ ty n, n ≤ IntType.max ty → decodeHex ty (Put.num n).body = .ok n := by
  refine ⟨fun puts txBuf noAckMode h => ?_, decodeBinaryString_put, fun ty n h => decodeHex_numText h⟩
  obtain ⟨hrun, hsealed⟩ := run_all_wrote h (ResponseWriter.new txBuf noAckMode).buf []
  have hnew : wrote (ResponseWriter.new txBuf noAckMode).buf [] = .new txBuf noAckMode := by
    simp [wrote, ResponseWriter.new, checksum]
  rw [hnew] at hrun
  exact ⟨_, hrun, finish_wrote, decodePacket_frame hsealed (decodeHex_hexByte _)⟩

/-- With an acknowledgement before it, a response is no packet; and a number of sixteen bytes
    overflows the index. -/
theorem response_refused :
    (decodePacket ((ResponseWriter.new [] false).putSlice (ascii "OK")).finish).run =
      .ok (.error (.checksumMismatched 0x9a 0xbe)) ∧
    ((ResponseWriter.new [] true).putNum (2 ^ 120)).toOption.isNone := by
  decide +kernel

/-! ## Thread ids -/

/-- A number is an `i32`. -/
def IdKind.writeResponse (w : ResponseWriter) : IdKind → Except Panic ResponseWriter
  | .all => pure (w.putSlice (ascii "-1"))
  | .any => pure (w.putSlice (ascii "0"))
  | .id pid => w.putNum (pid % 2 ^ 32).toNat

def ThreadId.writeResponse (id : ThreadId) (w : ResponseWriter) : Except Panic ResponseWriter := do
  let w ← id.pid.writeResponse (w.putSlice (ascii "p"))
  id.tid.writeResponse (w.putSlice (ascii "."))

def IdKind.text : IdKind → List UInt8
  | .all => ascii "-1"
  | .any => ascii "0"
  | .id pid => numText (pid % 2 ^ 32).toNat

def ThreadId.text (id : ThreadId) : List UInt8 :=
  ascii "p" ++ (id.pid.text ++ '.'.toUInt8 :: id.tid.text)

/-- The ids that are read back from a number. -/
def IdKind.Number : IdKind → Prop
  | .all => False
  | .any => True
  | .id pid => 0 < pid ∧ pid < 2 ^ 31

variable {kind : IdKind} {field rest : List UInt8} {more : List (List UInt8)}

theorem IdKind.writeResponse_wrote (kind : IdKind) (start body : List UInt8) :
    kind.writeResponse (wrote start body) = .ok (wrote start (body ++ kind.text)) := by
  cases kind with
  | all => exact congrArg Except.ok (putSlice_wrote _)
  | any => exact congrArg Except.ok (putSlice_wrote _)
  | id pid =>
    have hlt : (pid % 2 ^ 32).toNat < 2 ^ 120 := by omega
    rw [IdKind.writeResponse, putNum_eq _ hlt, putSlice_wrote]
    rfl

theorem ThreadId.writeResponse_wrote (id : ThreadId) (start body : List UInt8) :
    id.writeResponse (wrote start body) = .ok (wrote start (body ++ id.text)) := by
  rw [ThreadId.writeResponse, putSlice_wrote, IdKind.writeResponse_wrote]
  show id.tid.writeResponse ((wrote _ _).putSlice _) = _
  rw [putSlice_wrote, IdKind.writeResponse_wrote, ThreadId.text]
  simp [ascii]

theorem dot_not_mem_hexBytes (data : List UInt8) : '.'.toUInt8 ∉ hexBytes data := by
  intro hc
  obtain ⟨b, -, hc⟩ := mem_flatMap.1 hc
  have hall : ∀ n : Fin 256, '.'.toUInt8 ∉ hexByte (.ofFin n) := by decide +kernel
  exact hall b.toFin hc

theorem IdKind.Number.read (h : kind.Number) : '.'.toUInt8 ∉ kind.text ∧
    ∃ n : ℕ, decodeHex .i32 kind.text = .ok n ∧ IdKind.fromRaw n = kind := by
  cases kind with
  | all => exact h.elim
  | any => exact ⟨by decide, 0, by decide, rfl⟩
  | id pid =>
    obtain ⟨hpos, hlt⟩ := h
    refine ⟨dot_not_mem_hexBytes _, _, decodeHex_numText ?_, ?_⟩
    · show _ ≤ 2 ^ 31 - 1
      omega
    · have hpid : (pid % 2 ^ 32).toNat = pid := by omega
      rw [hpid, IdKind.fromRaw, if_neg (by omega), if_neg (by omega)]

theorem IdKind.decodeTid_text (h : kind = .all ∨ kind.Number) :
    '.'.toUInt8 ∉ kind.text ∧ (decodeTid kind.text).map IdKind.fromRaw = some kind := by
  rcases h with rfl | h
  · decide
  · obtain ⟨hdot, n, hn, hraw⟩ := h.read
    have hne : kind.text ≠ ascii "-1" := fun hc => by
      rw [hc] at hn
      cases hn
    refine ⟨hdot, ?_⟩
    rw [decodeTid, if_neg hne, hn, ← hraw]
    rfl

theorem ThreadId.decode_fields (h : fields '.' rest = field :: more) :
    (ThreadId.decode (ascii "p" ++ rest)).run =
      .ok ((decodeHex .i32 field).toOption.map fun p : ℕ =>
        ⟨.fromRaw p, ((more.head?.bind decodeTid).map IdKind.fromRaw).getD .all⟩) := by
  have hslice : sliceFrom (ascii "p" ++ rest) 1 = .ok rest := if_pos (by simp [ascii])
  have hp : (!startsWith (ascii "p" ++ rest) "p") = false := by simp [startsWith]
  rw [ThreadId.decode, hp, if_neg Bool.false_ne_true, Returns.opt_lift_eq hslice]
  rw [h]
  rcases hd : decodeHex .i32 field with e | p
  · simp [hexField, hd]
    rfl
  · rw [OptionT.run_bind, List.getElem?_cons_zero, hexField_ok hd]
    rw [head?_eq_getElem?]
    rcases ht : (more[0]?).bind decodeTid <;> simp [ht] <;> rfl

/-- The number that digits mean, behind those of `r`. -/
def digitsValue (r : ℕ) (digits : List UInt8) : ℕ :=
  digits.foldl (fun r c => r * 16 + ((fromHex c).getD 0).toNat) r

/-- A number of the type, in hexadecimal digits; `x` stands for one. -/
structure IsNumber (ty : IntType) (field : List UInt8) : Prop where
  digit : field ≠ []
  digits : ∀ c ∈ field, c ∈ ascii "0123456789abcdefABCDEFxX"
  fits : digitsValue 0 field ≤ ty.max

theorem fromHex_ne_none_iff (c : UInt8) :
    fromHex c ≠ none ↔ c ∈ ascii "0123456789abcdefABCDEFxX" := by
  have hall : ∀ n : Fin 256, fromHex (.ofFin n) ≠ none ↔
      UInt8.ofFin n ∈ ascii "0123456789abcdefABCDEFxX" := by decide +kernel
  exact hall c.toFin

theorem le_digitsValue (digits : List UInt8) (r : ℕ) : r ≤ digitsValue r digits := by
  induction digits generalizing r with
  | nil => exact le_rfl
  | cons c digits ih => exact le_trans (by omega) (ih (r * 16 + ((fromHex c).getD 0).toNat))

theorem decodeHexFrom_eq_ok_iff {ty : IntType} {r n : ℕ} (hr : r ≤ ty.max) :
    decodeHexFrom ty field r = .ok n ↔
      (∀ c ∈ field, fromHex c ≠ none) ∧ digitsValue r field = n ∧ n ≤ ty.max := by
  induction field generalizing r with
  | nil =>
    refine ⟨fun h => ?_, fun ⟨_, h, _⟩ => congrArg Except.ok h⟩
    cases h
    exact ⟨forall_mem_nil _, rfl, hr⟩
  | cons c field ih =>
    rw [decodeHexFrom, hexDigit, forall_mem_cons]
    rcases hc : fromHex c with _ | x
    · exact ⟨(by cases ·), fun h => absurd rfl h.1.1⟩
    · have hvalue : digitsValue r (c :: field) = digitsValue (r * 16 + x.toNat) field := by
        rw [digitsValue, foldl_cons, hc]
        rfl
      have hle := le_digitsValue field (r * 16 + x.toNat)
      rw [hvalue]
      show (if _ then _ else if _ then _ else _ : Except GdbHexError ℕ) = _ ↔ _
      split_ifs with hmul hadd
      · exact ⟨(by cases ·), fun h => by omega⟩
      · exact ⟨(by cases ·), fun h => by omega⟩
      · rw [ih (Nat.le_of_not_lt hadd)]
        exact and_congr_left' (and_iff_right (Option.some_ne_none x)).symm

theorem decodeHex_eq_ok_iff {ty : IntType} {n : ℕ} :
    decodeHex ty field = .ok n ↔ IsNumber ty field ∧ digitsValue 0 field = n := by
  rw [decodeHex]
  split_ifs with hempty
  · refine ⟨(by cases ·), fun h => absurd (isEmpty_iff.1 hempty) h.1.digit⟩
  · rw [decodeHexFrom_eq_ok_iff (Nat.zero_le _)]
    constructor
    · rintro ⟨hdigits, hn, hle⟩
      exact ⟨⟨fun h => hempty (isEmpty_iff.2 h),
        fun c hc => (fromHex_ne_none_iff c).1 (hdigits c hc), hn ▸ hle⟩, hn⟩
    · rintro ⟨h, hn⟩
      exact ⟨fun c hc => (fromHex_ne_none_iff c).2 (h.digits c hc), hn, hn ▸ h.fits⟩

theorem decodeHex_toOption_eq_none_iff {ty : IntType} :
    (decodeHex ty field).toOption = none ↔ ¬ IsNumber ty field := by
  rcases hd : decodeHex ty field with e | n
  · refine iff_of_true rfl fun h => ?_
    rw [decodeHex_eq_ok_iff.2 ⟨h, rfl⟩] at hd
    cases hd
  · exact ⟨(by cases ·), (absurd (decodeHex_eq_ok_iff.1 hd).1 ·)⟩

/-- An id that is read has numbers, but for the thread that means all. -/
theorem ThreadId.number_of_decode {id : ThreadId}
    (h : (ThreadId.decode (ascii "p" ++ rest)).run = .ok (some id)) :
    id.pid.Number ∧ (id.tid = .all ∨ id.tid.Number) := by
  have hnumber : ∀ {field : List UInt8} {n : ℕ}, decodeHex .i32 field = .ok n →
      (IdKind.fromRaw n).Number := by
    intro field n hn
    obtain ⟨hfield, rfl⟩ := decodeHex_eq_ok_iff.1 hn
    have hfits : digitsValue 0 field ≤ 2 ^ 31 - 1 := hfield.fits
    rw [IdKind.fromRaw, if_neg (by omega)]
    split_ifs with hzero
    · exact trivial
    · exact ⟨by omega, by omega⟩
  obtain ⟨more, hfields⟩ := fields_eq_cons '.' rest
  rw [ThreadId.decode_fields hfields] at h
  obtain ⟨p, hp, rfl⟩ := Option.map_eq_some_iff.1 (Except.ok.inj h)
  rcases hd : decodeHex .i32 (rest.takeWhile (· ≠ '.'.toUInt8)) with e | n
  · rw [hd] at hp
    cases hp
  · rw [hd] at hp
    cases hp
    refine ⟨hnumber hd, ?_⟩
    rcases ht : more.head?.bind decodeTid with _ | t
    · exact Or.inl rfl
    · obtain ⟨field, -, hfield⟩ := Option.bind_eq_some_iff.1 ht
      rw [decodeTid] at hfield
      split_ifs at hfield
      · cases hfield
        exact Or.inl rfl
      · rcases hd : decodeHex .i32 field with e | n
        · rw [hd] at hfield
          cases hfield
        · rw [hd] at hfield
          cases hfield
          exact Or.inr (hnumber hd)

theorem ThreadId.decode_text {id : ThreadId} (hpid : id.pid.Number)
    (htid : id.tid = .all ∨ id.tid.Number) : (ThreadId.decode id.text).run = .ok (some id) := by
  obtain ⟨hdot, p, hp, hraw⟩ := hpid.read
  obtain ⟨hdot', htid⟩ := IdKind.decodeTid_text htid
  have hfields : fields '.' (id.pid.text ++ '.'.toUInt8 :: id.tid.text) =
      id.pid.text :: [id.tid.text] := by
    rw [← fields_of_not_mem hdot']
    exact splitOnP_append_cons_of_forall_mem
      (fun c hc => decide_eq_false fun he : c = '.'.toUInt8 => hdot (he ▸ hc)) _
      (decide_eq_true rfl) _
  rw [ThreadId.text, ThreadId.decode_fields hfields, hp]
  show Except.ok (some (ThreadId.mk (.fromRaw p) (((decodeTid _).map _).getD _))) = _
  rw [htid, hraw]
  rfl

/-- **Thread ids are read back exactly if** the process is a number, and the thread is one or
    all; and bytes are refused exactly if they do not start with `p` or their process is not
    a number. -/
theorem thread_ids_read_back (id : ThreadId) (start body bytes : List UInt8) :
    id.writeResponse (wrote start body) = .ok (wrote start (body ++ id.text)) ∧
    ((ThreadId.decode id.text).run = .ok (some id) ↔
      id.pid.Number ∧ (id.tid = .all ∨ id.tid.Number)) ∧
    ((ThreadId.decode bytes).run = .ok none ↔
      ¬ (ascii "p" <+: bytes ∧ IsNumber .i32 ((bytes.drop 1).takeWhile (· ≠ '.'.toUInt8)))) := by
  refine ⟨id.writeResponse_wrote start body,
    ⟨fun h => ThreadId.number_of_decode h, fun h => ThreadId.decode_text h.1 h.2⟩, ?_⟩
  by_cases hp : ascii "p" <+: bytes
  · obtain ⟨rest, rfl⟩ := hp
    obtain ⟨more, hfields⟩ := fields_eq_cons '.' rest
    rw [ThreadId.decode_fields hfields, Except.ok.injEq, Option.map_eq_none_iff,
      decodeHex_toOption_eq_none_iff, and_iff_right (prefix_append _ _)]
    rfl
  · refine iff_of_true ?_ fun h => hp h.1
    rw [ThreadId.decode, startsWith, Bool.eq_false_iff.2 (mt isPrefixOf_iff_prefix.1 hp)]
    rfl

/-- The id of all threads is not read back; a thread that is no number means all threads of
    its process; and an `x` is read as a digit. -/
theorem thread_id_misread :
    (ThreadId.decode ThreadId.every.text).run = .ok none ∧
    (ThreadId.decode (ascii "p1.zz")).run = .ok (some (.process 1)) ∧
    (ThreadId.decode (ascii "px")).run = .ok (some .any) := by
  decide +kernel

/-! ## Strings -/

/-- A digit as a character. -/
def toHex (c : UInt8) : Option UInt8 :=
  if c > 15 then none else if c < 10 then some (c + '0'.toUInt8) else some (c + 'A'.toUInt8)

/-- bincode's `encode_to_vec` and `decode_from_slice` on byte strings, which the strings go
    through: what was encoded is decoded. -/
structure Bincode where
  encode : List UInt8 → List UInt8
  decode : List UInt8 → Option (List UInt8)
  decode_encode : ∀ bytes, decode (encode bytes) = some bytes

/-- What is deserialized of the bytes that were serialized. -/
def Bincode.through (bincode : Bincode) (bytes : List UInt8) : Except GdbHexError (List UInt8) :=
  match bincode.decode (bincode.encode bytes) with
  | some bytes => pure bytes
  | none => throw .invalidGdbHex

theorem Bincode.through_eq (bincode : Bincode) (bytes : List UInt8) :
    bincode.through bytes = .ok bytes := by
  rw [through, bincode.decode_encode]
  rfl

/-- `HexStringVisitor::visit_bytes`; `none` is a failed `expect`. -/
def visitHex (bytes : List UInt8) : Option (List UInt8) :=
  flatten <$> bytes.mapM fun ch : UInt8 => do
    let hi ← toHex (ch >>> 4)
    let lo ← toHex (ch &&& 0xf)
    pure [hi, lo]

section
variable (bincode : Bincode) (bytes : List UInt8)

/-- A byte string in hexadecimal digits. -/
def GdbHexString.encode : Option (Except GdbHexError (List UInt8)) :=
  match bincode.through bytes with
  | .ok bytes => .ok <$> visitHex bytes
  | .error e => some (.error e)

/-- The bytes of hexadecimal digits. -/
def GdbHexString.decode : Except GdbHexError (List UInt8) :=
  if bytes.isEmpty ∨ bytes.length % 2 ≠ 0 then throw .invalidGdbHex
  else do
    let vals ← (decodeHexPairs bytes).mapError fun _ => .invalidGdbHex
    bincode.through vals

/-- A byte string with its special characters escaped. -/
def GdbBinaryString.encode : Except GdbHexError (List UInt8) :=
  putBinaryEncoded <$> bincode.through bytes

/-- The bytes of an escaped string. -/
def GdbBinaryString.decode : Except GdbHexError (List UInt8) := do
  let res ← (decodeBinaryString bytes).mapError fun _ => .invalidGdbHex
  bincode.through res

end

/-- Neither half of the byte is above 9. -/
def Decimal (b : UInt8) : Prop := b.toNat / 16 < 10 ∧ b.toNat % 16 < 10

instance : DecidablePred Decimal := fun _ => instDecidableAnd

/-- What `toHex` makes of a digit. -/
def capital (c : UInt8) : UInt8 := if c < 10 then c + '0'.toUInt8 else c + 'A'.toUInt8

/-- The two characters that a byte is encoded as. -/
def hexPair (b : UInt8) : List UInt8 := [capital (b >>> 4), capital (b &&& 0xf)]

/-- Text that a packet may hold: no special character, but escapes. -/
def Legal (text : List UInt8) : Prop :=
  Sealed text ∧ ∀ c ∈ text, c ≠ '#'.toUInt8 ∧ c ≠ '$'.toUInt8 ∧ c ≠ '*'.toUInt8

theorem visitHex_eq (bytes : List UInt8) : visitHex bytes = some (bytes.flatMap hexPair) := by
  have hall : ∀ n : Fin 256, (do
      let hi ← toHex (UInt8.ofFin n >>> 4)
      let lo ← toHex (UInt8.ofFin n &&& 0xf)
      pure [hi, lo]) = some (hexPair (.ofFin n)) := by decide +kernel
  rw [visitHex, flatMap_def]
  induction bytes with
  | nil => rfl
  | cons b bytes ih =>
    obtain ⟨texts, htexts, hflat⟩ := Option.map_eq_some_iff.1 ih
    rw [mapM_cons, htexts, map_cons, flatten_cons, ← hflat]
    have hb := hall b.toFin
    rw [UInt8.ofFin_toFin] at hb
    rw [hb]
    rfl

theorem decodeHexPairs_hexPair (b : UInt8) (rest : List UInt8) :
    decodeHexPairs (hexPair b ++ rest) =
      if Decimal b then (b :: ·) <$> decodeHexPairs rest else .error .notAscii := by
  have hall : ∀ n : Fin 256, (do
      let x ← hexDigit (capital (UInt8.ofFin n >>> 4))
      let y ← hexDigit (capital (UInt8.ofFin n &&& 0xf))
      pure (16 * x + y)) =
        if Decimal (.ofFin n) then .ok (.ofFin n) else .error .notAscii := by decide +kernel
  have hb := hall b.toFin
  rw [UInt8.ofFin_toFin] at hb
  show (do
    let x ← hexDigit (capital (b >>> 4))
    let y ← hexDigit (capital (b &&& 0xf))
    let res ← decodeHexPairs rest
    pure ((16 * x + y) :: res)) = _
  generalize hexDigit (capital (b >>> 4)) = hi at hb ⊢
  generalize hexDigit (capital (b &&& 0xf)) = lo at hb ⊢
  split_ifs at hb ⊢ <;> rcases hi with e | x <;> rcases lo with e' | y <;> cases hb <;> rfl

theorem decodeHexPairs_flatMap (bytes : List UInt8) :
    decodeHexPairs (bytes.flatMap hexPair) =
      if ∀ b ∈ bytes, Decimal b then .ok bytes else .error .notAscii := by
  induction bytes with
  | nil => exact (if_pos (forall_mem_nil _)).symm
  | cons b bytes ih =>
    rw [flatMap_cons, decodeHexPairs_hexPair, ih]
    by_cases hb : Decimal b
    · by_cases hbytes : ∀ b ∈ bytes, Decimal b
      · rw [if_pos hb, if_pos hbytes, if_pos (forall_mem_cons.2 ⟨hb, hbytes⟩)]
        rfl
      · rw [if_pos hb, if_neg hbytes, if_neg fun h => hbytes (forall_mem_cons.1 h).2]
        rfl
    · rw [if_neg hb, if_neg fun h => hb (forall_mem_cons.1 h).1]

theorem legal_hexPairs (bytes : List UInt8) : Legal (bytes.flatMap hexPair) := by
  have hall : ∀ n : Fin 256, (hexPair (.ofFin n)).all fun c =>
      c ≠ '}'.toUInt8 ∧ c ≠ '#'.toUInt8 ∧ c ≠ '$'.toUInt8 ∧ c ≠ '*'.toUInt8 := by
    decide +kernel
  have hmem : ∀ c ∈ bytes.flatMap hexPair,
      c ≠ '}'.toUInt8 ∧ c ≠ '#'.toUInt8 ∧ c ≠ '$'.toUInt8 ∧ c ≠ '*'.toUInt8 := by
    intro c hc
    obtain ⟨b, -, hc⟩ := mem_flatMap.1 hc
    exact of_decide_eq_true (all_eq_true.1 (hall b.toFin) c hc)
  exact ⟨sealed_of_forall fun c hc => ⟨(hmem c hc).1, (hmem c hc).2.1⟩, fun c hc => (hmem c hc).2⟩

theorem legal_putBinaryEncoded (data : List UInt8) : Legal (putBinaryEncoded data) := by
  refine ⟨by rw [Gdb.putBinaryEncoded_eq]; exact sealed_escape _ data, fun c hc => ?_⟩
  obtain ⟨b, -, hc⟩ := mem_flatMap.1 hc
  split_ifs at hc with hb
  · obtain rfl | rfl := mem_pair.1 hc
    · decide
    · rcases hb with rfl | rfl | rfl | rfl <;> decide
  · obtain rfl := mem_singleton.1 hc
    exact ⟨fun h => hb (.inl h), fun h => hb (.inr (.inl h)), fun h => hb (.inr (.inr (.inr h)))⟩

theorem GdbHexString.encode_eq (bincode : Bincode) (bytes : List UInt8) :
    GdbHexString.encode bincode bytes = some (.ok (bytes.flatMap hexPair)) := by
  rw [GdbHexString.encode, bincode.through_eq]
  dsimp only
  rw [visitHex_eq]
  rfl

/-- **Binary strings are read back, and hex strings exactly if** they are not empty and no
    byte has a half above 9; both use legal characters only. -/
theorem strings_read_back (bincode : Bincode) (bytes : List UInt8) :
    (∃ text, GdbBinaryString.encode bincode bytes = .ok text ∧ Legal text ∧
      GdbBinaryString.decode bincode text = .ok bytes) ∧
    ∃ text, GdbHexString.encode bincode bytes = some (.ok text) ∧ Legal text ∧
      (GdbHexString.decode bincode text = .ok bytes ↔ bytes ≠ [] ∧ ∀ b ∈ bytes, Decimal b) := by
  refine ⟨⟨putBinaryEncoded bytes, ?_, legal_putBinaryEncoded bytes, ?_⟩, _,
    GdbHexString.encode_eq bincode bytes, legal_hexPairs bytes, ?_⟩
  · rw [GdbBinaryString.encode, bincode.through_eq]
    rfl
  · rw [GdbBinaryString.decode, decodeBinaryString_put]
    exact bincode.through_eq bytes
  · rw [GdbHexString.decode, decodeHexPairs_flatMap]
    have hlength : (bytes.flatMap hexPair).length = 2 * bytes.length := by
      simp [hexPair, Nat.mul_comm]
    rcases bytes with _ | ⟨b, bytes⟩
    · exact ⟨(by cases ·), (absurd rfl ·.1)⟩
    · rw [if_neg (by rw [hlength]; simp [hexPair])]
      split_ifs with hall
      · exact iff_of_true (bincode.through_eq _) ⟨cons_ne_nil _ _, hall⟩
      · exact ⟨(by cases ·), (absurd ·.2 hall)⟩

/-- Byte strings that encode themselves. -/
def Bincode.plain : Bincode := ⟨id, some, fun _ => rfl⟩

/-- The characters of the halves from 10 to 15 are `K` to `P`. -/
theorem hex_string_lost :
    GdbHexString.encode .plain [0x0a] = some (.ok (ascii "0K")) ∧
    GdbHexString.decode .plain (ascii "0K") = .error .invalidGdbHex ∧
    GdbHexString.encode .plain [] = some (.ok []) ∧
    GdbHexString.decode .plain [] = .error .invalidGdbHex :=
  ⟨by rfl, by rfl, rfl, rfl⟩

end Reverie.Gdb
