/-
  Which packets make the parser panic: those whose body is a `Crash`, an `M` with an address
  and a length and no data, or a `vFile` operation with an empty file name
  (`parser_returns_iff`).
-/
import Reverie.Lib.Returns
import Reverie.Gdb.Packet

namespace Reverie.Gdb

open Returns List Entry

/-! ## Fields -/

variable {bytes body rest : List UInt8} {text : String} {α : Type}
  {parse : List UInt8 → Parser Base} {entry : Entry} {i : ℕ}

theorem sliceFrom_ok {start : ℕ} (h : start ≤ bytes.length) :
    sliceFrom bytes start = .ok (bytes.drop start) :=
  if_pos h

theorem splitAt_ok {mid : ℕ} (h : mid ≤ bytes.length) :
    splitAt bytes mid = .ok (bytes.take mid, bytes.drop mid) :=
  if_pos h

theorem startsWith_iff : startsWith bytes text = true ↔ ∃ rest, bytes = ascii text ++ rest := by
  rw [startsWith, isPrefixOf_iff_prefix]
  constructor
  · rintro ⟨rest, rfl⟩
    exact ⟨rest, rfl⟩
  · rintro ⟨rest, rfl⟩
    exact prefix_append _ _

theorem length_of_startsWith (h : startsWith bytes text = true) :
    (ascii text).length ≤ bytes.length := by
  obtain ⟨rest, rfl⟩ := startsWith_iff.1 h
  rw [length_append]
  exact Nat.le_add_right _ _

theorem found_returns (x : Option α) : Returns (found x).run :=
  opt_mk x

theorem found_some_bind {β : Type} (a : α) (f : α → Parser β) : found (some a) >>= f = f a :=
  rfl

theorem hexField_returns (ty : IntType) (field : Option (List UInt8)) :
    Returns (hexField ty field).run :=
  found_returns _

theorem optional_returns {x : Parser α} (h : Returns x.run) : Returns (optional x).run :=
  h.map

theorem opt_strip {f : List UInt8 → Parser α} (h : ∀ rest, Returns (f rest).run) :
    Returns (if !startsWith bytes text then failure
      else liftM (sliceFrom bytes (ascii text).length) >>= f : Parser α).run := by
  split_ifs with hs
  · exact opt_failure
  · rw [Bool.not_eq_true, Bool.not_eq_false'] at hs
    exact opt_lift_bind (sliceFrom_ok (length_of_startsWith hs)) (h _)

theorem parseBare_returns (bytes : List UInt8) (command : α) :
    Returns (parseBare bytes command).run := by
  rw [parseBare]
  split_ifs
  · exact opt_pure _
  · exact opt_failure

theorem decodeHexString_returns_iff {field : List UInt8} :
    Returns (okay (decodeHexString field)).run ↔ field ≠ [] := by
  rw [decodeHexString]
  constructor
  · rintro h rfl
    exact not_error _ h
  · intro h
    split_ifs with hodd
    · exact ok _
    · have hlen : 1 ≤ field.length := length_pos_iff.2 h
      have hsub : subtract field.length 1 = .ok (field.length - 1) := if_pos hlen
      rw [hsub]
      exact ok _

/-! ## Threads -/

section
variable (bytes : List UInt8)

theorem ThreadId.decode_returns : Returns (ThreadId.decode bytes).run := by
  refine opt_strip fun _ => opt_bind (hexField_returns _ _) fun p _ => ?_
  split
  · exact opt_pure _
  · exact opt_pure _

theorem bareTid_returns : Returns (bareTid bytes).run :=
  opt_bind (hexField_returns _ _) fun _ _ => opt_pure _

theorem threadSuffix_spec {bytes : List UInt8} {pos : ℕ} (h : threadSuffix bytes = some pos) :
    pos ≤ bytes.length ∧ startsWith (bytes.drop pos) ";thread:" = true := by
  induction bytes generalizing pos with
  | nil => cases h
  | cons b rest ih =>
    rw [threadSuffix] at h
    split_ifs at h with hs
    · obtain rfl := Option.some.inj h
      exact ⟨Nat.zero_le _, hs⟩
    · obtain ⟨p, hp, rfl⟩ := Option.map_eq_some_iff.1 h
      obtain ⟨hle, hstart⟩ := ih hp
      exact ⟨Nat.succ_le_succ hle, hstart⟩

theorem splitThreadSuffix_returns : Returns (splitThreadSuffix bytes).run := by
  rw [splitThreadSuffix]
  split
  · exact opt_pure _
  · next pos hpos =>
    obtain ⟨hle, hstart⟩ := threadSuffix_spec hpos
    refine opt_lift_bind (splitAt_ok hle) ?_
    refine opt_lift_bind (sliceFrom_ok (length_of_startsWith hstart)) ?_
    refine opt_bind (optional_returns ?_) fun thread _ => opt_pure _
    split_ifs
    · exact ThreadId.decode_returns _
    · exact (bareTid_returns _).opt_map

/-! ## Parsers -/

theorem D.parse_returns : Returns (D.parse bytes).run := by
  rw [D.parse]
  by_cases hempty : bytes.isEmpty
  · rw [if_pos hempty]
    exact opt_pure _
  · rw [if_neg hempty]
    exact opt_strip fun _ => opt_bind (hexField_returns _ _) fun _ _ => opt_pure _

theorem g.parse_returns : Returns (g.parse bytes).run := by
  refine opt_bind (splitThreadSuffix_returns _) ?_
  rintro ⟨rest, thread⟩ -
  dsimp only
  split_ifs
  · exact opt_pure _
  · exact opt_failure

theorem G.parse_returns : Returns (G.parse bytes).run := by
  refine opt_bind (splitThreadSuffix_returns _) ?_
  rintro ⟨rest, thread⟩ -
  dsimp only
  split_ifs with hempty
  · exact opt_failure
  · rw [List.isEmpty_iff] at hempty
    exact opt_bind (decodeHexString_returns_iff.2 hempty) fun _ _ => opt_pure _

theorem H.parse_returns : Returns (H.parse bytes).run := by
  cases bytes with
  | nil => exact opt_failure
  | cons ch bytes =>
    refine opt_bind (found_returns _) fun op _ => ?_
    split_ifs
    · exact opt_pure _
    · exact opt_pure _
    · exact opt_bind (ThreadId.decode_returns _) fun _ _ => opt_pure _

theorem m.parse_returns : Returns (m.parse bytes).run := by
  rw [m.parse]
  split_ifs
  · exact opt_failure
  · refine opt_bind (hexField_returns _ _) fun addr _ => ?_
    exact opt_bind (hexField_returns _ _) fun _ _ => opt_pure _

theorem qAttached.parse_returns : Returns (qAttached.parse bytes).run := by
  rw [qAttached.parse]
  split_ifs
  · exact opt_failure
  · refine opt_bind (found_returns _) fun _ _ => ?_
    exact opt_bind (optional_returns (hexField_returns _ _)) fun _ _ => opt_pure _

theorem QPassSignals.parse_returns : Returns (QPassSignals.parse bytes).run := by
  refine opt_bind (found_returns _) fun list _ => ?_
  exact opt_bind (found_returns _) fun _ _ => opt_pure _

theorem QThreadEvents.parse_returns : Returns (QThreadEvents.parse bytes).run := by
  refine opt_strip fun _ => opt_bind (hexField_returns _ _) fun value _ => ?_
  split_ifs
  · exact opt_failure
  · exact opt_pure _

theorem qSupported.parse_returns : Returns (qSupported.parse bytes).run := by
  rw [qSupported.parse]
  split_ifs
  · exact opt_failure
  · exact opt_pure _

theorem parseRead_returns {name : String} (annex : String) (read : ℕ → ℕ → QXfer)
    (h : startsWith bytes name = true) : Returns (parseRead bytes name annex read).run := by
  refine opt_lift_bind (sliceFrom_ok (length_of_startsWith h)) ?_
  refine opt_bind (found_returns _) fun given _ => ?_
  split_ifs
  · exact opt_failure
  · refine opt_bind (found_returns _) fun offset _ => opt_bind (found_returns _) fun len _ => ?_
    refine opt_bind (hexField_returns _ _) fun offset _ => ?_
    exact opt_bind (hexField_returns _ _) fun _ _ => opt_pure _

theorem qXfer.parse_returns : Returns (qXfer.parse bytes).run := by
  rw [qXfer.parse]
  split_ifs with hfeatures hauxv hthreads
  · exact parseRead_returns _ _ _ hfeatures
  · exact parseRead_returns _ _ _ hauxv
  · exact parseRead_returns _ _ _ hthreads
  · exact opt_failure

theorem T.parse_returns : Returns (T.parse bytes).run := by
  refine opt_bind (optional_returns ?_) fun _ _ => opt_pure _
  split_ifs
  · exact ThreadId.decode_returns _
  · exact (bareTid_returns _).opt_map

theorem qRegisterInfo.parse_returns : Returns (qRegisterInfo.parse bytes).run := by
  rw [qRegisterInfo.parse]
  split_ifs
  · exact opt_failure
  · exact opt_bind (hexField_returns _ _) fun _ _ => opt_pure _

theorem decodeSignal_returns : Returns (decodeSignal bytes).run := by
  refine opt_bind (hexField_returns _ _) fun gdb _ => ?_
  exact opt_bind (found_returns _) fun _ _ => found_returns _

theorem resumeAction_returns : Returns (resumeAction bytes).run := by
  cases bytes with
  | nil => exact opt_failure
  | cons letter rest =>
    have hslice : sliceFrom (letter :: rest) 1 = .ok rest := sliceFrom_ok (by simp)
    rw [resumeAction]
    split_ifs
    · exact opt_pure _
    · refine opt_lift_bind hslice ?_
      exact opt_bind (decodeSignal_returns _) fun _ _ => opt_pure _
    · exact opt_pure _
    · refine opt_lift_bind hslice ?_
      exact opt_bind (decodeSignal_returns _) fun _ _ => opt_pure _
    · exact opt_pure _
    · refine opt_lift_bind hslice ?_
      refine opt_bind (hexField_returns _ _) fun start _ => ?_
      exact opt_bind (hexField_returns _ _) fun _ _ => opt_pure _
    · exact opt_failure

theorem vContAction_returns : Returns (vContAction bytes).run := by
  refine opt_bind (found_returns _) fun action _ => opt_bind (found_returns _) fun tid _ => ?_
  refine opt_bind (ThreadId.decode_returns _) fun threadId _ => ?_
  exact opt_bind (resumeAction_returns _) fun _ _ => opt_pure _

theorem vContActions_returns : Returns (vContActions bytes) :=
  filterMapM vContAction_returns _

theorem vCont.parse_returns : Returns (vCont.parse bytes).run := by
  rw [vCont.parse]
  split_ifs with hquery hempty
  · exact opt_pure _
  · exact opt_failure
  · rw [List.isEmpty_iff] at hempty
    refine opt_lift_bind (splitAt_ok (length_pos_iff.2 hempty)) ?_
    obtain ⟨actions, hactions⟩ := vContActions_returns (bytes.drop 1)
    refine opt_lift_bind hactions ?_
    split_ifs
    · exact opt_failure
    · exact opt_pure _

theorem vKill.parse_returns : Returns (vKill.parse bytes).run :=
  opt_strip fun _ => opt_bind (hexField_returns _ _) fun _ _ => opt_pure _

theorem parseBreakpoint_returns (command : BreakpointType → ℕ → ℕ → Base) :
    Returns (parseBreakpoint bytes command).run := by
  refine opt_bind (hexField_returns _ _) fun ty _ => opt_bind (found_returns _) fun ty _ => ?_
  refine opt_bind (hexField_returns _ _) fun addr _ => ?_
  exact opt_bind (hexField_returns _ _) fun _ _ => opt_pure _

theorem X.parse_returns : Returns (X.parse bytes).run := by
  refine opt_bind (found_returns _) fun colon hcolon => ?_
  have hfind : bytes.findIdx? (fun b => b = ':'.toUInt8) = some colon := Except.ok.inj hcolon
  have hlt : colon < bytes.length := (findIdx?_eq_some_iff_findIdx_eq.1 hfind).1
  refine opt_lift_bind (splitAt_ok (Nat.le_of_lt hlt)) ?_
  refine opt_bind (hexField_returns _ _) fun addr _ => opt_bind (hexField_returns _ _) fun len _ => ?_
  refine opt_lift_bind (sliceFrom_ok ?_) (opt_bind (found_returns _) fun _ _ => opt_pure _)
  rw [length_drop]
  omega

theorem QDisableRandomization.parse_returns : Returns (QDisableRandomization.parse bytes).run := by
  rw [QDisableRandomization.parse]
  split_ifs
  · exact opt_pure _
  · exact opt_pure _
  · exact opt_failure

theorem qRcmd.parse_returns : Returns (qRcmd.parse bytes).run := by
  rw [qRcmd.parse]
  split_ifs
  · exact opt_failure
  · exact opt_pure _

/-! ## The two commands that panic -/

/-- An address and a length, and nothing after them. -/
def M.Dataless : Prop :=
  ∃ addr len rest a l, fieldsAt ',' ':' bytes = addr :: len :: rest ∧ decodeHex .u64 addr = .ok a ∧
    decodeHex .usize len = .ok l ∧ bytes.length ≤ 2 + addr.length + len.length

/-- A file name is empty. -/
def vFile.Nameless : Prop :=
  bytes = ascii ":open:" ∨ startsWith bytes ":open:," = true ∨ bytes = ascii ":unlink:" ∨
    bytes = ascii ":readlink:"

variable {ty : IntType} {field : List UInt8}

theorem hexField_ok {n : ℕ} (h : decodeHex ty field = .ok n) :
    (hexField ty (some field)).run = .ok (some n) := by
  show Except.ok ((decodeHex ty field).toOption) = _
  rw [h]
  rfl

theorem hexField_error {e : GdbHexError}
    (h : decodeHex ty field = .error e) : (hexField ty (some field)).run = .ok none := by
  show Except.ok ((decodeHex ty field).toOption) = _
  rw [h]
  rfl

theorem M.parse_returns_iff : Returns (M.parse bytes).run ↔ ¬ M.Dataless bytes := by
  rw [M.parse, M.Dataless]
  rcases fieldsAt ',' ':' bytes with _ | ⟨addr, _ | ⟨len, rest⟩⟩
  · exact iff_of_true (opt_bind_none rfl) (by simp)
  · exact iff_of_true ((opt_bind_iff rfl).2 (opt_bind_none rfl)) (by simp)
  simp only [getElem?_cons_zero, getElem?_cons_succ, found_some_bind]
  rcases ha : decodeHex .u64 addr with e | a
  · exact iff_of_true (opt_bind_none (hexField_error ha)) (by simp [ha])
  rw [opt_bind_iff (hexField_ok ha)]
  rcases hl : decodeHex .usize len with e | l
  · exact iff_of_true (opt_bind_none (hexField_error hl)) (by simp [hl])
  rw [opt_bind_iff (hexField_ok hl)]
  by_cases hle : bytes.length ≤ 2 + addr.length + len.length
  · refine iff_of_false ?_ (not_not_intro ⟨addr, len, rest, a, l, rfl, ha, hl, hle⟩)
    rcases Nat.lt_or_eq_of_le hle with hlt | heq
    · have hsplit : splitAt bytes (2 + addr.length + len.length) = .error .outOfBounds :=
        if_neg (Nat.not_le.2 hlt)
      rw [hsplit]
      exact fun h => not_error _ (opt_of_bind h)
    · rw [opt_lift_eq (splitAt_ok (Nat.le_of_eq heq.symm)), ← heq, drop_length]
      exact fun h => decodeHexString_returns_iff.1 (opt_of_bind h) rfl
  · refine iff_of_true ?_ ?_
    · have hlt := Nat.lt_of_not_le hle
      refine opt_lift_bind (splitAt_ok (Nat.le_of_lt hlt)) ?_
      refine opt_bind (decodeHexString_returns_iff.2 ?_) fun _ _ => opt_pure _
      rw [Ne, drop_eq_nil_iff]
      exact hle
    · rintro ⟨_, _, _, _, _, heq, -, -, hle'⟩
      cases heq
      exact hle hle'

theorem fields_head_eq_nil {separator : Char} {bytes : List UInt8}
    (h : (fields separator bytes)[0]? = some []) :
    bytes = [] ∨ ∃ rest, bytes = separator.toUInt8 :: rest := by
  cases bytes with
  | nil => exact Or.inl rfl
  | cons b rest =>
    rw [fields, splitOnP_cons_eq_if_modifyHead] at h
    split_ifs at h with hb
    · exact Or.inr ⟨rest, by rw [of_decide_eq_true hb]⟩
    · rcases hs : List.splitOnP (fun c => decide (c = separator.toUInt8)) rest with _ | ⟨first, others⟩
      · rw [hs] at h
        cases h
      · rw [hs] at h
        cases h

theorem pathField_returns {field : Option (List UInt8)} (h : field ≠ some []) :
    Returns (pathField field).run := by
  cases field with
  | none => exact opt_bind_none rfl
  | some name => exact decodeHexString_returns_iff.2 fun hname => h (congrArg some hname)

theorem vFile.parse_returns (h : ¬ vFile.Nameless bytes) : Returns (vFile.parse bytes).run := by
  rw [vFile.parse]
  split_ifs with hsetfs hopen hclose hpread hpwrite hfstat hunlink hreadlink
  · refine opt_lift_bind (sliceFrom_ok (length_of_startsWith hsetfs)) ?_
    exact opt_bind (hexField_returns _ _) fun _ _ => opt_pure _
  · refine opt_lift_bind (sliceFrom_ok (length_of_startsWith hopen)) ?_
    refine opt_bind (pathField_returns fun hname => h ?_) fun fname _ => ?_
    · obtain ⟨rest, rfl⟩ := startsWith_iff.1 hopen
      rcases fields_head_eq_nil hname with rfl | ⟨rest, rfl⟩
      · exact Or.inl (append_nil _)
      · exact Or.inr (Or.inl (startsWith_iff.2 ⟨rest, rfl⟩))
    · refine opt_bind (hexField_returns _ _) fun flags _ => ?_
      exact opt_bind (hexField_returns _ _) fun _ _ => opt_pure _
  · refine opt_lift_bind (sliceFrom_ok (length_of_startsWith hclose)) ?_
    exact opt_bind (hexField_returns _ _) fun _ _ => opt_pure _
  · refine opt_lift_bind (sliceFrom_ok (length_of_startsWith hpread)) ?_
    refine opt_bind (hexField_returns _ _) fun fd _ => opt_bind (hexField_returns _ _) fun count _ => ?_
    exact opt_bind (hexField_returns _ _) fun _ _ => opt_pure _
  · refine opt_lift_bind (sliceFrom_ok (length_of_startsWith hpwrite)) ?_
    refine opt_bind (hexField_returns _ _) fun fd _ => opt_bind (hexField_returns _ _) fun offset _ => ?_
    exact opt_bind (found_returns _) fun _ _ => opt_pure _
  · refine opt_lift_bind (sliceFrom_ok (length_of_startsWith hfstat)) ?_
    exact opt_bind (hexField_returns _ _) fun _ _ => opt_pure _
  · refine opt_lift_bind (splitAt_ok (length_of_startsWith hunlink)) ?_
    refine opt_bind (pathField_returns fun hname => h ?_) fun _ _ => opt_pure _
    obtain ⟨rest, rfl⟩ := startsWith_iff.1 hunlink
    obtain rfl := Option.some.inj hname
    exact Or.inr (Or.inr (Or.inl (append_nil _)))
  · refine opt_lift_bind (splitAt_ok (length_of_startsWith hreadlink)) ?_
    refine opt_bind (pathField_returns fun hname => h ?_) fun _ _ => opt_pure _
    obtain ⟨rest, rfl⟩ := startsWith_iff.1 hreadlink
    obtain rfl := Option.some.inj hname
    exact Or.inr (Or.inr (Or.inr (append_nil _)))
  · refine opt_bind (found_returns _) fun operation _ => opt_bind (found_returns _) fun separator _ => ?_
    split_ifs
    · exact opt_pure _
    · exact opt_failure

theorem vFile.parse_panics (h : vFile.Nameless bytes) : ¬ Returns (vFile.parse bytes).run := by
  rcases h with rfl | hopen | rfl | rfl
  · exact not_error Panic.subtractOverflow
  · obtain ⟨rest, rfl⟩ := startsWith_iff.1 hopen
    have hsetfs : startsWith (ascii ":open:," ++ rest) ":setfs:" = false := rfl
    have hopen : startsWith (ascii ":open:," ++ rest) ":open:" = true := rfl
    have hslice : sliceFrom (ascii ":open:," ++ rest) (ascii ":open:").length =
      .ok (','.toUInt8 :: rest) := sliceFrom_ok (length_of_startsWith hopen)
    rw [vFile.parse, hsetfs, hopen, opt_lift_eq hslice]
    exact fun h => decodeHexString_returns_iff.1 (opt_of_bind h) rfl
  · exact not_error Panic.subtractOverflow
  · exact not_error Panic.subtractOverflow

theorem vFile.parse_returns_iff : Returns (vFile.parse bytes).run ↔ ¬ vFile.Nameless bytes :=
  ⟨fun h hnameless => vFile.parse_panics bytes hnameless h, vFile.parse_returns bytes⟩

end

/-! ## Commands and packets -/

/-- The bodies that make the parser panic. -/
def Crash (body : List UInt8) : Prop :=
  (∃ rest, body = ascii "M" ++ rest ∧ M.Dataless rest) ∨
    ∃ rest, body = ascii "vFile" ++ rest ∧ vFile.Nameless rest

theorem Entry.base_returns_iff {name : String} :
    Returns ((Entry.base name parse).parse bytes).run ↔ Returns (parse bytes).run :=
  opt_map_iff

theorem Entry.base_returns (h : ∀ bytes, Returns (parse bytes).run)
    (name : String) (bytes : List UInt8) : Returns ((Entry.base name parse).parse bytes).run :=
  base_returns_iff.2 (h bytes)

theorem Entry.bare_returns (name : String) (command : Base) (bytes : List UInt8) :
    Returns ((Entry.bare name command).parse bytes).run :=
  base_returns (fun bytes => parseBare_returns bytes command) name bytes

theorem commands_return : ∀ entry ∈ commands, entry.name ≠ "M" → entry.name ≠ "vFile" →
    ∀ bytes, Returns (entry.parse bytes).run := by
  simp only [commands, forall_mem_cons]
  refine ⟨fun _ _ => bare_returns _ _, fun _ _ => base_returns D.parse_returns _,
    fun _ _ => base_returns g.parse_returns _, fun _ _ => base_returns G.parse_returns _,
    fun _ _ => base_returns H.parse_returns _, fun _ _ => base_returns m.parse_returns _,
    fun h => absurd rfl h, fun _ _ => base_returns qAttached.parse_returns _,
    fun _ _ => base_returns QPassSignals.parse_returns _,
    fun _ _ => base_returns QThreadEvents.parse_returns _, fun _ _ => bare_returns _ _,
    fun _ _ => bare_returns _ _, fun _ _ => bare_returns _ _,
    fun _ _ => bare_returns _ _, fun _ _ => base_returns qSupported.parse_returns _,
    fun _ _ => base_returns qXfer.parse_returns _, fun _ _ => base_returns T.parse_returns _,
    fun _ _ => bare_returns _ _, fun _ _ => bare_returns _ _,
    fun _ _ => base_returns qRegisterInfo.parse_returns _, fun _ _ => bare_returns _ _,
    fun _ _ => bare_returns _ _, fun _ _ => base_returns vCont.parse_returns _,
    fun _ _ => base_returns vKill.parse_returns _,
    fun _ _ => base_returns (fun bytes => parseBreakpoint_returns bytes _) _,
    fun _ _ => base_returns (fun bytes => parseBreakpoint_returns bytes _) _,
    fun _ _ => base_returns X.parse_returns _, fun _ h => absurd rfl h,
    fun _ _ bytes => parseBare_returns bytes _,
    fun _ _ bytes => (QDisableRandomization.parse_returns bytes).opt_map,
    fun _ _ => qRcmd.parse_returns, fun _ _ bytes => parseBare_returns bytes _,
    fun _ h => absurd h not_mem_nil⟩

theorem startsWith_of_commandOf (h : commandOf body = some entry) :
    startsWith body entry.name = true := by
  have hsome := find?_some h
  exact hsome

theorem Command.tryParse_returns_iff_entry (hne : body ≠ [])
    (h : commandOf body = some entry) : Returns (Command.tryParse body).run ↔
      Returns (entry.parse (body.drop (ascii entry.name).length)).run := by
  rw [Command.tryParse, if_neg fun he => hne (isEmpty_iff.1 he), h]
  dsimp only
  rw [exc_lift_eq (splitAt_ok (length_of_startsWith (startsWith_of_commandOf h)))]
  refine ⟨fun h => exc_lift_iff.1 (exc_of_bind h),
    fun h => exc_bind (exc_lift_iff.2 h) fun found _ => ?_⟩
  cases found with
  | none => exact ok _
  | some command => exact ok _

theorem commandOf_M (rest : List UInt8) :
    commandOf (ascii "M" ++ rest) = some (.base "M" M.parse) :=
  rfl

theorem commandOf_vFile (rest : List UInt8) : commandOf (ascii "vFile" ++ rest) =
    some (.base "vFile" fun bytes => Base.vFile <$> vFile.parse bytes) :=
  rfl

theorem ascii_append_ne_nil (h : ascii text ≠ []) (rest : List UInt8) : ascii text ++ rest ≠ [] :=
  fun he => h (append_eq_nil_iff.1 he).1

theorem crash_M_iff (rest : List UInt8) : Crash (ascii "M" ++ rest) ↔ M.Dataless rest := by
  constructor
  · rintro (⟨rest', h, hcrash⟩ | ⟨rest', h, -⟩)
    · rwa [append_cancel_left h]
    · exact absurd (List.cons.inj h).1 (by decide)
  · exact fun h => Or.inl ⟨rest, rfl, h⟩

theorem crash_vFile_iff (rest : List UInt8) : Crash (ascii "vFile" ++ rest) ↔ vFile.Nameless rest := by
  constructor
  · rintro (⟨rest', h, -⟩ | ⟨rest', h, hcrash⟩)
    · exact absurd (List.cons.inj h).1 (by decide)
    · rwa [append_cancel_left h]
  · exact fun h => Or.inr ⟨rest, rfl, h⟩

theorem Command.tryParse_returns_iff (body : List UInt8) :
    Returns (Command.tryParse body).run ↔ ¬ Crash body := by
  by_cases hM : ∃ rest, body = ascii "M" ++ rest
  · obtain ⟨rest, rfl⟩ := hM
    rw [tryParse_returns_iff_entry (ascii_append_ne_nil (by decide) _) (commandOf_M rest), crash_M_iff,
      ← M.parse_returns_iff, base_returns_iff]
    exact Iff.rfl
  by_cases hV : ∃ rest, body = ascii "vFile" ++ rest
  · obtain ⟨rest, rfl⟩ := hV
    rw [tryParse_returns_iff_entry (ascii_append_ne_nil (by decide) _) (commandOf_vFile rest),
      crash_vFile_iff, ← vFile.parse_returns_iff, base_returns_iff, opt_map_iff]
    exact Iff.rfl
  refine iff_of_true ?_ ?_
  · cases body with
    | nil => exact ok _
    | cons b body =>
      rcases hfind : commandOf (b :: body) with _ | entry
      · rw [Command.tryParse, hfind]
        exact ok _
      · have hstart := startsWith_of_commandOf hfind
        rw [tryParse_returns_iff_entry (cons_ne_nil _ _) hfind]
        refine commands_return entry (mem_of_find?_eq_some hfind) ?_ ?_ _
        · intro hname
          rw [hname] at hstart
          exact hM (startsWith_iff.1 hstart)
        · intro hname
          rw [hname] at hstart
          exact hV (startsWith_iff.1 hstart)
  · rintro (⟨rest, hbody, -⟩ | ⟨rest, hbody, -⟩)
    · exact hM ⟨rest, hbody⟩
    · exact hV ⟨rest, hbody⟩

theorem checksumDelimiter_lt {escaped : Bool}
    (h : checksumDelimiter bytes escaped = some i) : i < bytes.length := by
  induction bytes generalizing escaped i with
  | nil => cases h
  | cons b rest ih =>
    have hsucc : ∀ {e : Bool}, (checksumDelimiter rest e).map (· + 1) = some i →
        i < (b :: rest).length := by
      intro e h
      obtain ⟨j, hj, rfl⟩ := Option.map_eq_some_iff.1 h
      exact Nat.succ_lt_succ (ih hj)
    cases escaped with
    | true => exact hsucc h
    | false =>
      rw [checksumDelimiter] at h
      split_ifs at h
      · exact hsucc h
      · obtain rfl := Option.some.inj h
        exact Nat.succ_pos _
      · exact hsucc h

theorem checksumDelimiter_pos (h : checksumDelimiter ('$'.toUInt8 :: rest) false = some i) : 0 < i := by
  obtain ⟨j, -, rfl⟩ := Option.map_eq_some_iff.1 h
  exact Nat.succ_pos j

theorem decodePacket_returns (rest : List UInt8) :
    Returns (decodePacket ('$'.toUInt8 :: rest)).run := by
  rw [decodePacket]
  split
  · exact ok _
  · next stop hstop =>
    have hlt := checksumDelimiter_lt hstop
    have hsplit := splitAt_ok (Nat.le_of_lt hlt)
    rw [exc_lift_eq hsplit]
    dsimp only
    split
    · exact ok _
    split
    · exact ok _
    split_ifs
    · exact ok _
    · have hpos : 1 ≤ (('$'.toUInt8 :: rest).take stop).length := by
        rw [length_take, Nat.min_eq_left (Nat.le_of_lt hlt)]
        exact checksumDelimiter_pos hstop
      rw [exc_lift_eq hsplit, exc_lift_eq (splitAt_ok hpos)]
      exact ok _

theorem ofCommand_returns_iff {x : ExceptT CommandParseError (Except Panic) α} :
    Returns (ofCommand x).run ↔ Returns x.run := by
  refine ⟨fun h => ?_, map⟩
  rcases hx : x.run with p | r
  · have hrun : (ofCommand x).run = .error p := by
      show Except.mapError PacketParseError.commandError <$> x.run = _
      rw [hx]
      rfl
    rw [hrun] at h
    exact absurd h (not_error p)
  · exact ok r

theorem Packet.tryFrom_returns_iff (h : (decodePacket ('$'.toUInt8 :: rest)).run = .ok (.ok body)) :
    Returns (Packet.tryFrom ('$'.toUInt8 :: rest)).run ↔ ¬ Crash body := by
  rw [Packet.tryFrom, if_pos rfl, exc_bind_iff h, ← Command.tryParse_returns_iff,
    ← ofCommand_returns_iff]
  exact ⟨exc_of_bind, fun h => exc_bind h fun _ _ => ok _⟩

/-- **Which packets panic.** -/
theorem parser_returns_iff (body buf : List UInt8) :
    (Returns (Command.tryParse body).run ↔ ¬ Crash body) ∧
      (Returns (Packet.tryFrom buf).run ↔ ¬ ∃ rest body, buf = '$'.toUInt8 :: rest ∧
        (decodePacket buf).run = .ok (.ok body) ∧ Crash body) := by
  refine ⟨Command.tryParse_returns_iff body, ?_⟩
  by_cases hdollar : ∃ rest, buf = '$'.toUInt8 :: rest
  · obtain ⟨rest, rfl⟩ := hdollar
    obtain ⟨e | body, hbody⟩ := decodePacket_returns rest
    · refine iff_of_true (exc_bind ⟨_, hbody⟩ fun body hok => ?_) ?_
      · rw [hbody] at hok
        cases hok
      · rintro ⟨_, body, -, hok, -⟩
        rw [hbody] at hok
        cases hok
    · rw [Packet.tryFrom_returns_iff hbody]
      refine not_congr ⟨fun h => ⟨rest, body, rfl, hbody, h⟩, ?_⟩
      rintro ⟨_, body', -, hok, hcrash⟩
      rw [hbody] at hok
      cases hok
      exact hcrash
  · refine iff_of_true ?_ fun ⟨rest, _, h, _⟩ => hdollar ⟨rest, h⟩
    cases buf with
    | nil => exact ok _
    | cons header rest =>
      rw [Packet.tryFrom]
      split_ifs with h
      · exact absurd ⟨rest, by rw [h]⟩ hdollar
      · exact ok _
      · exact ok _
      · exact ok _
      · exact ok _

/-- An `M` that ends after its length splits its buffer beyond the end; one with no data
    underflows the bound of the loop over the data, as does a file without a name. -/
theorem parser_panics : (Packet.tryFrom (ascii "$M0,0#d9")).run = .error .outOfBounds ∧
    (Packet.tryFrom (ascii "$M0,0:#13")).run = .error .subtractOverflow ∧
      (Packet.tryFrom (ascii "$vFile:open:,0,0#d4")).run = .error .subtractOverflow :=
  ⟨rfl, rfl, rfl⟩

end Reverie.Gdb
