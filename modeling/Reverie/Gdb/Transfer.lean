/-
  Transfers of objects to gdb in parts (`session.rs`, `_qXfer.rs`), and the sequences of
  requests by which they are exact (`transfer_exact`).
-/
import Reverie.Gdb.Render

namespace Reverie.Gdb
open List Option

/-! ## Replies -/

/-- The session's side of an object, each fixed during a transfer. -/
structure XferSession where
  /-- `/proc/<pid>/auxv` of the current thread, if there is one -/
  auxv : Option (List UInt8)
  /-- `threads_xml` -/
  threadsXml : List UInt8
  /-- a length is a `usize` -/
  sized : threadsXml.length < 2 ^ 64

def bufsiz : ℕ := 0x8000

def putBinaryEncoded (data : List UInt8) : List UInt8 :=
  data.flatMap fun b =>
    if b = '#'.toUInt8 ∨ b = '$'.toUInt8 ∨ b = '}'.toUInt8 ∨ b = '*'.toUInt8 then
      ['}'.toUInt8, b ^^^ 0x20]
    else [b]

def targetXml : List UInt8 :=
  ascii "<target version=\"1.0\"><architecture>i386:x86-64</architecture><feature name=\"org.gnu.gdb.i386.sse\"></feature></target>"

/-- `pread`, which fails on a negative offset. -/
def pread (file : List UInt8) (count offset : ℕ) : Option (List UInt8) :=
  if offset < 2 ^ 63 then some ((file.drop offset).take count) else none

/-- `saturating_add` on `usize`. -/
def saturatingAdd (left right : ℕ) : ℕ := min (left + right) (2 ^ 64 - 1)

/-- The reply to a `qXfer`; an empty one says that it is not supported. -/
def XferSession.reply (s : XferSession) : QXfer → List UInt8
  | .featuresRead _ _ => ascii "l" ++ targetXml
  | .auxvRead offset len =>
    match s.auxv with
    | none => []
    | some auxv =>
      match pread auxv (min bufsiz len) offset with
      | none => []
      | some data => ascii "l" ++ putBinaryEncoded data
  | .threadsRead offset len =>
    let start := min offset s.threadsXml.length
    let stop := min (saturatingAdd offset len) s.threadsXml.length
    (if stop < s.threadsXml.length then ascii "m" else ascii "l") ++
      putBinaryEncoded ((s.threadsXml.take stop).drop start)

/-! ## Transfers -/

/-- The objects that gdb transfers. -/
inductive XferObject where
  | features
  | auxv
  | threads

def XferSession.object (s : XferSession) : XferObject → List UInt8
  | .features => targetXml
  | .auxv => s.auxv.getD []
  | .threads => s.threadsXml

def XferObject.name : XferObject → String
  | .features => ":features:read:"
  | .auxv => ":auxv:read:"
  | .threads => ":threads:read:"

def XferObject.annex : XferObject → String
  | .features => "target.xml"
  | .auxv => ""
  | .threads => ""

def XferObject.read : XferObject → ℕ → ℕ → QXfer
  | .features => .featuresRead
  | .auxv => .auxvRead
  | .threads => .threadsRead

/-- The request for `len` bytes from `offset` on. -/
def XferObject.request (object : XferObject) (offset len : ℕ) : List UInt8 :=
  ascii "qXfer" ++ (ascii object.name ++ (ascii object.annex ++ ':'.toUInt8 :: (hexNumber offset ++
    ','.toUInt8 :: hexNumber len)))

/-- What gdb takes from a reply: whether it is the last, and its data. -/
def readReply (reply : List UInt8) : Option (Bool × List UInt8) :=
  match reply with
  | [] => none
  | marker :: data =>
    if marker = 'l'.toUInt8 then (decodeBinaryString data).toOption.map fun data => (true, data)
    else if marker = 'm'.toUInt8 then (decodeBinaryString data).toOption.map fun data => (false, data)
    else none

/-- A request and what gdb takes from its reply. -/
structure Answer where
  offset : ℕ
  len : ℕ
  last : Bool
  data : List UInt8
  deriving DecidableEq

section
variable (s : XferSession) (object : XferObject)

def XferSession.ask (offset len : ℕ) : Option Answer :=
  match (Packet.tryFrom (frame (object.request offset len))).run with
  | .ok (.ok (.command (.base (.qXfer request)))) =>
    (readReply (s.reply request)).map fun answer => ⟨offset, len, answer.1, answer.2⟩
  | _ => none

/-- Requests for `lens` bytes, each from where the last reply ended. -/
def XferSession.transfer : ℕ → List ℕ → Option (List Answer)
  | _, [] => some []
  | offset, len :: lens => do
    let answer ← s.ask object offset len
    let answers ← XferSession.transfer (offset + answer.data.length) lens
    pure (answer :: answers)

end

/-! ## One request -/

variable (data : List UInt8)

theorem putBinaryEncoded_eq : putBinaryEncoded data = gdbEscaping.escape data := by
  refine flatMap_congr fun b _ => ?_
  have hiff : gdbEscaping.escapes b = true ↔
      b = '#'.toUInt8 ∨ b = '$'.toUInt8 ∨ b = '}'.toUInt8 ∨ b = '*'.toUInt8 := by
    simp [gdbEscaping]
  exact if_congr hiff.symm rfl rfl

theorem decodeBinaryString_put : decodeBinaryString (putBinaryEncoded data) = .ok data := by
  rw [putBinaryEncoded_eq, decodeBinaryString_escape]

theorem decodeBinaryString_plain {data : List UInt8} (h : '}'.toUInt8 ∉ data) :
    decodeBinaryString data = .ok data := by
  induction data with
  | nil => rfl
  | cons b data ih =>
    rw [mem_cons, not_or] at h
    rw [decodeBinaryString_cons (Ne.symm h.1), ih h.2]
    rfl

theorem readReply_l {data decoded : List UInt8} (h : decodeBinaryString data = .ok decoded) :
    readReply (ascii "l" ++ data) = some (true, decoded) := by
  show (decodeBinaryString data).toOption.map _ = _
  rw [h]
  rfl

theorem readReply_last : readReply (ascii "l" ++ putBinaryEncoded data) = some (true, data) :=
  readReply_l (decodeBinaryString_put data)

theorem readReply_more : readReply (ascii "m" ++ putBinaryEncoded data) = some (false, data) := by
  show (decodeBinaryString (putBinaryEncoded data)).toOption.map _ = _
  rw [decodeBinaryString_put]
  rfl

variable (object : XferObject)

theorem XferObject.annex_not_bound : ∀ c ∈ ascii object.annex,
    (c = ':'.toUInt8 || c = ','.toUInt8) = false := by
  have hall : ((ascii object.annex).all fun c => !(c = ':'.toUInt8 || c = ','.toUInt8)) = true := by
    cases object
    · decide
    · decide
    · decide
  intro c hc
  exact Bool.eq_false_of_not_eq_true' (all_eq_true.1 hall c hc)

theorem parseRead_request {offset len : ℕ} (ho : offset < 2 ^ 64)
    (hl : len < 2 ^ 64) :
    (parseRead (ascii object.name ++ (ascii object.annex ++ ':'.toUInt8 :: (hexNumber offset ++
      ','.toUInt8 :: hexNumber len))) object.name object.annex object.read).run =
        .ok (some (.qXfer (object.read offset len))) := by
  set args := ascii object.annex ++ ':'.toUInt8 :: (hexNumber offset ++ ','.toUInt8 :: hexNumber len)
  have hslice : sliceFrom (ascii object.name ++ args) (ascii object.name).length = .ok args := by
    rw [sliceFrom_ok (by simp), drop_left]
  have hdigits := not_separator_of_mem_hexNumber (s := ':') (t := ',') (by decide) (by decide)
  have hfields : fieldsAt ':' ',' args = [ascii object.annex, hexNumber offset, hexNumber len] := by
    rw [fieldsAt, splitOnP_append_cons_of_forall_mem object.annex_not_bound _ (by decide),
      splitOnP_append_cons_of_forall_mem (hdigits offset) _ (by decide),
      splitOnP_eq_singleton (hdigits len)]
  rw [parseRead, Returns.opt_lift_eq hslice, hfields]
  simp only [getElem?_cons_zero, getElem?_cons_succ, found_some_bind]
  rw [if_neg (not_not_intro rfl), hexField_bind (Nat.le_sub_one_of_lt ho),
    hexField_bind (Nat.le_sub_one_of_lt hl)]
  rfl

theorem qXfer.parse_request {offset len : ℕ} (ho : offset < 2 ^ 64)
    (hl : len < 2 ^ 64) :
    (qXfer.parse (ascii object.name ++ (ascii object.annex ++ ':'.toUInt8 :: (hexNumber offset ++
      ','.toUInt8 :: hexNumber len)))).run = .ok (some (.qXfer (object.read offset len))) := by
  have hread := parseRead_request object ho hl
  cases object
  · exact hread
  · exact hread
  · exact hread

theorem tryFrom_request {offset len : ℕ} (ho : offset < 2 ^ 64)
    (hl : len < 2 ^ 64) : (Packet.tryFrom (frame (object.request offset len))).run =
      .ok (.ok (.command (.base (.qXfer (object.read offset len))))) := by
  refine (Packet.tryFrom_frame_iff (.base "qXfer" qXfer.parse) rfl rfl (by decide) ?_).2 ?_
  · have hname : Sealed (ascii object.name ++ ascii object.annex) := by
      cases object
      · exact sealed_of_all (by decide)
      · exact sealed_of_all (by decide)
      · exact sealed_of_all (by decide)
    rw [← append_assoc (ascii object.name)]
    exact (sealed_of_all (by decide)).append (hname.append (((sealed_hexNumber offset).append
      ((sealed_hexNumber len).cons (by decide) (by decide))).cons (by decide) (by decide)))
  · exact Entry.base_run_iff.2 (qXfer.parse_request object ho hl)

theorem XferSession.ask_eq (s : XferSession) (object : XferObject) {offset len : ℕ}
    (ho : offset < 2 ^ 64) (hl : len < 2 ^ 64) : s.ask object offset len =
      (readReply (s.reply (object.read offset len))).map fun answer =>
        ⟨offset, len, answer.1, answer.2⟩ := by
  delta XferSession.ask
  rw [tryFrom_request object ho hl]

def XferSession.exactAnswer (s : XferSession) (object : XferObject) (offset len : ℕ) : Answer :=
  ⟨offset, len, (s.object object).length ≤ offset + len, ((s.object object).drop offset).take len⟩

theorem XferSession.ask_threads (s : XferSession) {offset len : ℕ}
    (ho : offset ≤ s.threadsXml.length) (hl : len < 2 ^ 64) :
    s.ask .threads offset len = some (s.exactAnswer .threads offset len) := by
  have hsize := s.sized
  rw [s.ask_eq .threads (by omega) hl]
  show (readReply ((if min (saturatingAdd offset len) s.threadsXml.length < s.threadsXml.length then
      ascii "m" else ascii "l") ++ putBinaryEncoded ((s.threadsXml.take
        (min (saturatingAdd offset len) s.threadsXml.length)).drop
          (min offset s.threadsXml.length)))).map _ = _
  have hsat : saturatingAdd offset len = min (offset + len) (2 ^ 64 - 1) := rfl
  rw [Nat.min_eq_left ho, drop_take]
  split_ifs with hmore
  · have hstop : min (saturatingAdd offset len) s.threadsXml.length = offset + len := by omega
    have hlast : ¬ s.threadsXml.length ≤ offset + len := by omega
    rw [hstop, Nat.add_sub_cancel_left, readReply_more, map_some]
    simp only [exactAnswer, object, hlast, decide_false]
  · have hstop : min (saturatingAdd offset len) s.threadsXml.length = s.threadsXml.length := by omega
    have hlast : s.threadsXml.length ≤ offset + len := by omega
    rw [hstop, readReply_last, map_some, take_of_length_le (by rw [length_drop])]
    simp only [exactAnswer, object, hlast, decide_true]
    rw [take_of_length_le (by rw [length_drop]; omega)]

/-- Every answer from the auxiliary vector is marked as the last one. -/
theorem XferSession.ask_auxv {s : XferSession} {auxv : List UInt8} (hs : s.auxv = some auxv)
    {offset len : ℕ} (ho : offset < 2 ^ 63) (hl : len < 2 ^ 64) :
    s.ask .auxv offset len =
      some ⟨offset, len, true, (auxv.drop offset).take (min bufsiz len)⟩ := by
  have hreply : s.reply (.auxvRead offset len) =
      ascii "l" ++ putBinaryEncoded ((auxv.drop offset).take (min bufsiz len)) := by
    simp only [reply, hs, pread, if_pos ho]
  rw [s.ask_eq .auxv (by omega) hl]
  show (readReply (s.reply (.auxvRead offset len))).map _ = _
  rw [hreply, readReply_last, map_some]

theorem XferSession.ask_auxv_none {s : XferSession} (hs : s.auxv = none) {offset len : ℕ}
    (ho : offset < 2 ^ 64) (hl : len < 2 ^ 64) : s.ask .auxv offset len = none := by
  have hreply : s.reply (.auxvRead offset len) = [] := by simp only [reply, hs]
  rw [s.ask_eq .auxv ho hl]
  show (readReply (s.reply (.auxvRead offset len))).map _ = _
  rw [hreply]
  rfl

/-- An answer from the auxiliary vector is right if it takes the rest. -/
theorem XferSession.ask_auxv_rest {s : XferSession} {auxv : List UInt8} (hs : s.auxv = some auxv)
    {offset len : ℕ} (ho : offset < 2 ^ 63) (hl : len < 2 ^ 64)
    (hrest : auxv.length - offset ≤ min bufsiz len) :
    s.ask .auxv offset len = some (s.exactAnswer .auxv offset len) := by
  have hobject : s.object .auxv = auxv := by rw [object, hs, getD_some]
  have hlast : auxv.length ≤ offset + len := by omega
  rw [ask_auxv hs ho hl, exactAnswer, hobject, take_of_length_le (by rwa [length_drop]),
    take_of_length_le (by rw [length_drop]; omega)]
  simp only [hlast, decide_true]

/-- Every request for a part of the target description is answered with all of it. -/
theorem XferSession.ask_features (s : XferSession) {offset len : ℕ} (ho : offset < 2 ^ 64)
    (hl : len < 2 ^ 64) : s.ask .features offset len = some ⟨offset, len, true, targetXml⟩ := by
  have hread : readReply (ascii "l" ++ targetXml) = some (true, targetXml) :=
    readReply_l (decodeBinaryString_plain (by decide +kernel))
  rw [s.ask_eq .features ho hl]
  show (readReply (ascii "l" ++ targetXml)).map _ = _
  rw [hread, map_some]

/-! ## Sequences of requests -/

/-- What a transfer is to give: no more than was asked, marked at the end of the object,
    and all of the object by then. -/
structure Exact (object : List UInt8) (offset : ℕ) (lens : List ℕ) (answers : List Answer) : Prop where
  data : (answers.map Answer.data).flatten = (object.drop offset).take lens.sum
  answer : ∀ a ∈ answers, a.data.length ≤ a.len ∧
    (a.last = true ↔ a.offset + a.data.length = object.length)
  complete : (∃ a ∈ answers, a.last = true) → (answers.map Answer.data).flatten = object.drop offset

theorem Exact.nil (object : List UInt8) (offset : ℕ) : Exact object offset [] [] :=
  ⟨rfl, fun _ h => absurd h not_mem_nil, fun ⟨_, h, _⟩ => absurd h not_mem_nil⟩

theorem Exact.cons {s : XferSession} {object : XferObject} {offset len : ℕ} {lens : List ℕ}
    {answers : List Answer} (ho : offset ≤ (s.object object).length)
    (h : Exact (s.object object) (offset + (s.exactAnswer object offset len).data.length) lens answers) :
    Exact (s.object object) offset (len :: lens) (s.exactAnswer object offset len :: answers) := by
  obtain ⟨hdata, hanswer, hcomplete⟩ := h
  simp only [XferSession.exactAnswer] at *
  generalize s.object object = bytes at *
  have hlength : ((bytes.drop offset).take len).length = min len (bytes.length - offset) := by
    rw [length_take, length_drop]
  -- what is left after the answer
  have hdrop : bytes.drop (offset + ((bytes.drop offset).take len).length) =
      (bytes.drop offset).drop len := by
    rw [hlength, drop_drop]
    rcases Nat.le_total len (bytes.length - offset) with hle | hle
    · rw [Nat.min_eq_left hle]
    · rw [drop_of_length_le (by omega), drop_of_length_le (by omega)]
  refine ⟨?_, ?_, ?_⟩
  · rw [map_cons, flatten_cons, hdata, hdrop, sum_cons, take_add]
  · intro a ha
    rcases mem_cons.1 ha with rfl | ha
    · dsimp only
      rw [decide_eq_true_eq]
      omega
    · exact hanswer a ha
  · rintro ⟨a, ha, hlast⟩
    rw [map_cons, flatten_cons]
    rcases mem_cons.1 ha with rfl | ha
    · have hend : (bytes.drop offset).drop len = [] := by
        rw [drop_drop]
        exact drop_of_length_le (of_decide_eq_true hlast)
      have htail : (answers.map Answer.data).flatten = (bytes.drop offset).drop len := by
        rw [hdata, hdrop, hend, take_nil]
      rw [htail, take_append_drop]
    · rw [hcomplete ⟨a, ha, hlast⟩, hdrop, take_append_drop]

section
variable (s : XferSession) (object : XferObject)

theorem XferSession.transfer_cons {offset len : ℕ} {lens : List ℕ} {answers : List Answer} :
    s.transfer object offset (len :: lens) = some answers ↔
      ∃ answer, s.ask object offset len = some answer ∧
        ∃ rest, s.transfer object (offset + answer.data.length) lens = some rest ∧
          answers = answer :: rest := by
  show (s.ask object offset len).bind (fun answer =>
    (s.transfer object (offset + answer.data.length) lens).bind fun rest => some (answer :: rest)) =
      some answers ↔ _
  simp only [bind_eq_some_iff, some.injEq, @eq_comm _ _ answers]

variable {s object}

/-- The transfer of the object from an offset on is exact. -/
def XferSession.TransfersExactly (s : XferSession) (object : XferObject) (offset : ℕ)
    (lens : List ℕ) : Prop :=
  ∃ answers, s.transfer object offset lens = some answers ∧
    Exact (s.object object) offset lens answers

theorem XferSession.TransfersExactly.cons {offset len : ℕ} {lens : List ℕ}
    (ho : offset ≤ (s.object object).length)
    (hask : s.ask object offset len = some (s.exactAnswer object offset len))
    (h : s.TransfersExactly object (offset + (s.exactAnswer object offset len).data.length) lens) :
    s.TransfersExactly object offset (len :: lens) := by
  obtain ⟨rest, hrest, hexact⟩ := h
  exact ⟨_ :: rest, (s.transfer_cons object).2 ⟨_, hask, rest, hrest, rfl⟩, hexact.cons ho⟩

/-- A session that answers every request as it is to transfers the object exactly. -/
theorem XferSession.transfersExactly_of_ask {lens : List ℕ} : ∀ {offset : ℕ},
    offset ≤ (s.object object).length →
      (∀ next, offset ≤ next → next ≤ (s.object object).length → ∀ len ∈ lens,
        s.ask object next len = some (s.exactAnswer object next len)) →
      s.TransfersExactly object offset lens := by
  induction lens with
  | nil => exact fun {offset} _ _ => ⟨[], rfl, Exact.nil _ _⟩
  | cons len lens ih =>
    intro offset ho hask
    have hnext : offset + (s.exactAnswer object offset len).data.length ≤ (s.object object).length := by
      simp only [exactAnswer, length_take, length_drop]
      omega
    refine .cons ho (hask offset le_rfl ho len mem_cons_self) (ih hnext fun next hle hn n hmem => ?_)
    exact hask next (by omega) hn n (mem_cons_of_mem _ hmem)

/-- The transfers that are exact: of the target description, one request for all of it; of
    the auxiliary vector, those whose first request is for all of it; of the threads, all. -/
def XferSession.Fits (s : XferSession) : XferObject → List ℕ → Prop
  | .features, [] => True
  | .features, len :: lens => targetXml.length ≤ len ∧ lens = []
  | .auxv, [] => True
  | .auxv, len :: _ => ∃ auxv, s.auxv = some auxv ∧ auxv.length ≤ min bufsiz len
  | .threads, _ => True

theorem XferSession.features_exact_iff {len : ℕ} {lens : List ℕ}
    (hl : ∀ n ∈ len :: lens, n < 2 ^ 64) :
    s.TransfersExactly .features 0 (len :: lens) ↔ targetXml.length ≤ len ∧ lens = [] := by
  have hsize : targetXml.length < 2 ^ 64 := by decide +kernel
  have hsome : 0 < targetXml.length := by decide +kernel
  have hobject : s.object .features = targetXml := rfl
  have hask {offset n : ℕ} (ho : offset < 2 ^ 64) (hn : n ∈ len :: lens) := s.ask_features ho (hl n hn)
  -- the text itself does not matter
  generalize targetXml = xml at *
  constructor
  · rintro ⟨answers, htransfer, hexact⟩
    rw [hobject] at hexact
    obtain ⟨answer, hanswer, rest, hrest, rfl⟩ := (s.transfer_cons _).1 htransfer
    obtain rfl := some.inj ((hask (by decide) mem_cons_self).symm.trans hanswer)
    refine ⟨(hexact.answer _ mem_cons_self).1, ?_⟩
    -- a second request is answered with all of the description again
    rcases lens with _ | ⟨n, lens⟩
    · rfl
    · obtain ⟨answer, hanswer, more, -, rfl⟩ := (s.transfer_cons _).1 hrest
      rw [Nat.zero_add, hask hsize (mem_cons_of_mem _ mem_cons_self)] at hanswer
      obtain rfl := some.inj hanswer
      have hend := (hexact.answer _ (mem_cons_of_mem _ mem_cons_self)).2.1 rfl
      dsimp only at hend
      omega
  · rintro ⟨hlen, rfl⟩
    have hexact : s.exactAnswer .features 0 len = ⟨0, len, true, xml⟩ := by
      simp only [exactAnswer, hobject, drop_zero, Nat.zero_add, hlen, decide_true]
      rw [take_of_length_le hlen]
    refine .cons (Nat.zero_le _) ?_ ⟨[], rfl, Exact.nil _ _⟩
    rw [hask (by decide) mem_cons_self, hexact]

theorem XferSession.auxv_exact_iff {len : ℕ} {lens : List ℕ} (hl : ∀ n ∈ len :: lens, n < 2 ^ 64) :
    s.TransfersExactly .auxv 0 (len :: lens) ↔
      ∃ auxv, s.auxv = some auxv ∧ auxv.length ≤ min bufsiz len := by
  have hbufsiz : bufsiz = 0x8000 := rfl
  constructor
  · rintro ⟨answers, htransfer, hexact⟩
    obtain ⟨answer, hanswer, rest, -, rfl⟩ := (s.transfer_cons _).1 htransfer
    rcases hs : s.auxv with _ | auxv
    · rw [ask_auxv_none hs (by decide) (hl len mem_cons_self)] at hanswer
      cases hanswer
    · rw [ask_auxv hs (by decide) (hl len mem_cons_self)] at hanswer
      obtain rfl := some.inj hanswer
      -- the answer is marked as the last one, so it takes everything
      have hend := (hexact.answer _ mem_cons_self).2.1 rfl
      simp only [object, hs, getD_some, drop_zero, length_take] at hend
      exact ⟨auxv, rfl, by omega⟩
  · rintro ⟨auxv, hs, hfits⟩
    have hobject : s.object .auxv = auxv := by rw [object, hs, getD_some]
    have hall : (s.exactAnswer .auxv 0 len).data.length = auxv.length := by
      rw [exactAnswer, hobject, drop_zero, length_take]
      omega
    refine .cons (Nat.zero_le _) (ask_auxv_rest hs (by decide) (hl len mem_cons_self) (by omega)) ?_
    rw [hall, Nat.zero_add]
    refine transfersExactly_of_ask (by rw [hobject]) fun next hle hn n hmem => ?_
    rw [hobject] at hn
    exact ask_auxv_rest hs (by omega) (hl n (mem_cons_of_mem _ hmem)) (by omega)

variable (s object)

/-- **Which transfers are exact.** -/
theorem transfer_exact {lens : List ℕ} (hl : ∀ len ∈ lens, len < 2 ^ 64) :
    (∃ answers, s.transfer object 0 lens = some answers ∧ Exact (s.object object) 0 lens answers) ↔
      s.Fits object lens := by
  have hnil (object : XferObject) : s.TransfersExactly object 0 [] := ⟨[], rfl, Exact.nil _ _⟩
  cases object with
  | threads =>
    refine iff_of_true (XferSession.transfersExactly_of_ask (Nat.zero_le _) ?_) trivial
    exact fun next _ hn len hlen => s.ask_threads hn (hl len hlen)
  | auxv =>
    cases lens with
    | nil => exact iff_of_true (hnil _) trivial
    | cons len lens => exact XferSession.auxv_exact_iff hl
  | features =>
    cases lens with
    | nil => exact iff_of_true (hnil _) trivial
    | cons len lens => exact XferSession.features_exact_iff hl

end

theorem transfer_exact_sample : ∃ answers,
    (⟨none, ascii "<threads>", by decide⟩ : XferSession).transfer .threads 0 [4, 1, 9] = some answers ∧
      Exact (ascii "<threads>") 0 [4, 1, 9] answers :=
  (transfer_exact ⟨none, ascii "<threads>", by decide⟩ .threads (by decide)).2 trivial

/-- A part of the target description is answered with all of it, and a part of the
    auxiliary vector as if it were all. -/
theorem transfer_inexact :
    (⟨none, [], by decide⟩ : XferSession).transfer .features 0 [1] = some [⟨0, 1, true, targetXml⟩] ∧
      (⟨some [1, 2, 3, 4], [], by decide⟩ : XferSession).transfer .auxv 0 [2, 2] =
        some [⟨0, 2, true, [1, 2]⟩, ⟨2, 2, true, [3, 4]⟩] :=
  ⟨by decide +kernel, by decide +kernel⟩

end Reverie.Gdb
