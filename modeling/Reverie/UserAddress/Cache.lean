/-
  The cache of the measured user address limit: one shared word that callers claim, measure
  for and publish to by compare-and-exchange.  A caller that dies is one that the schedule
  leaves out, and a frame that `fork` has copied starts with its claim.
-/
import Reverie.Lib.Prog

namespace Reverie.UserAddress

/-! ## Words -/

/-- What is measured. -/
structure UserAddressLimit where
  maxEnd : ℕ
  capsSingleVector : Bool

/-- The numbers of a thread. -/
structure Thread where
  pid : ℕ
  tid : ℕ

/-- What the word says. -/
inductive CacheState where
  | idle
  | measuring (owner : Thread)
  | measured (limit : UserAddressLimit)

def IDLE : ℕ := 0

def ID_BITS : ℕ := 30

def WAIT_CHECKS : ℕ := 1024

def decode (word : ℕ) : CacheState :=
  if word &&& 1 = 1 then .measured ⟨word >>> 2, word &&& 2 ≠ 0⟩
  else if word = IDLE then .idle
  else
    let ids := word >>> 2
    .measuring ⟨(ids >>> ID_BITS) % 2 ^ 32, (ids &&& (1 <<< ID_BITS - 1)) % 2 ^ 32⟩

def measuredWord (limit : UserAddressLimit) : Option ℕ :=
  if limit.maxEnd < 1 <<< 62
  then some (limit.maxEnd <<< 2 ||| limit.capsSingleVector.toNat <<< 1 ||| 1) else none

def measuringWord (thread : Thread) : Option ℕ :=
  if thread.pid < 1 <<< ID_BITS ∧ thread.tid < 1 <<< ID_BITS
  then some ((thread.pid <<< ID_BITS ||| thread.tid) <<< 2 ||| 2) else none

theorem decode_IDLE : decode IDLE = .idle := rfl

theorem or_add {a b i : ℕ} (h : b < 2 ^ i) : a <<< i ||| b = 2 ^ i * a + b := by
  rw [← Nat.shiftLeft_add_eq_or_of_lt h, Nat.shiftLeft_eq, Nat.mul_comm]

variable {limit : UserAddressLimit} {word : ℕ} {thread : Thread}

theorem measuredWord_eq (h : measuredWord limit = some word) :
    word = 4 * limit.maxEnd + (2 * limit.capsSingleVector.toNat + 1) := by
  unfold measuredWord at h
  split_ifs at h
  obtain rfl := Option.some.inj h
  have hc := limit.capsSingleVector.toNat_le
  rw [Nat.or_assoc, or_add (a := limit.capsSingleVector.toNat) (by decide), or_add (by omega)]
  omega

theorem measuringWord_eq (h : measuringWord thread = some word) :
    word = 4 * (2 ^ 30 * thread.pid + thread.tid) + 2 ∧ thread.pid < 2 ^ 30 ∧ thread.tid < 2 ^ 30 := by
  unfold measuringWord ID_BITS at h
  split_ifs at h with hids
  obtain rfl := Option.some.inj h
  rw [or_add (by decide), or_add hids.2]
  exact ⟨rfl, hids⟩

theorem and_two (n : ℕ) : n &&& 2 ≠ 0 ↔ n / 2 % 2 = 1 := by
  rw [show n &&& 2 = n &&& 2 ^ 1 from rfl, Nat.and_two_pow, Nat.testBit_eq_decide_div_mod_eq]
  by_cases h : n / 2 % 2 = 1 <;> simp [h]

theorem decode_measuredWord (h : measuredWord limit = some word) : decode word = .measured limit := by
  obtain rfl := measuredWord_eq h
  unfold decode
  rw [Nat.and_one_is_mod, if_pos (by omega), Nat.shiftRight_eq_div_pow]
  have hc := limit.capsSingleVector.toNat_le
  have hend : (4 * limit.maxEnd + (2 * limit.capsSingleVector.toNat + 1)) / 2 ^ 2 = limit.maxEnd := by
    omega
  have hbit : (4 * limit.maxEnd + (2 * limit.capsSingleVector.toNat + 1)) / 2 % 2 =
      limit.capsSingleVector.toNat := by
    omega
  rw [hend]
  simp only [and_two, hbit]
  obtain ⟨maxEnd, capsSingleVector⟩ := limit
  cases capsSingleVector <;> rfl

theorem decode_measuringWord (h : measuringWord thread = some word) :
    decode word = .measuring thread := by
  obtain ⟨rfl, hpid, htid⟩ := measuringWord_eq h
  unfold decode IDLE ID_BITS
  rw [Nat.and_one_is_mod, if_neg (by omega), if_neg (by omega), Nat.one_shiftLeft]
  simp only [Nat.and_two_pow_sub_one_eq_mod]
  obtain ⟨pid, tid⟩ := thread
  simp only at hpid htid ⊢
  congr 2 <;> omega

theorem measuringWord_inj {a b : Thread} (ha : measuringWord a = some word)
    (hb : measuringWord b = some word) : a = b := by
  have h := (decode_measuringWord ha).symm.trans (decode_measuringWord hb)
  simpa using h

/-! ## The cache -/

/-- What the measurement of a caller does. -/
inductive Outcome (ε : Type) where
  | returns (result : Except ε UserAddressLimit)
  | panics

/-- A caller and what it will meet. -/
structure Caller (ε : Type) where
  me : Thread
  /-- the answers of `is_running`, check after check -/
  running : ℕ → Bool
  measure : Outcome ε
  /-- the frame was copied by `fork` when it had its claim -/
  copied : Bool

/-- What happens to the cache. -/
inductive Event (ι ε : Type) where
  | checked (caller : ι) (running : Bool)
  /-- the caller replaces a word by its claim -/
  | claimed (caller : ι) (old : ℕ)
  /-- another word was there when the caller tried to, which had just seen that the owner
      does not run, or had not -/
  | lost (caller : ι) (dead : Bool)
  | measured (caller : ι) (result : Except ε UserAddressLimit)
  /-- the publication or the drop of a claim replaces a word -/
  | closed (caller : ι) (old new : ℕ)
  /-- the publication or the drop of a claim finds another word -/
  | kept (caller : ι)
  | returned (caller : ι) (result : Except ε UserAddressLimit)

def Event.caller {ι ε : Type} : Event ι ε → ι
  | .checked i _ | .claimed i _ | .lost i _ | .measured i _ | .closed i _ _ | .kept i
  | .returned i _ => i

/-- The word, and what happened to it. -/
structure Cache (ι ε : Type) where
  word : ℕ
  history : List (Event ι ε)

section
variable {ι ε : Type}

def Cache.note (e : Event ι ε) (s : Cache ι ε) : Cache ι ε := { s with history := s.history ++ [e] }

def load : Prog (Cache ι ε) ℕ := Prog.read (·.word)

def note (e : Event ι ε) : Prog (Cache ι ε) Unit := Prog.write (Cache.note e)

/-- The call of `is_running`. -/
def check (i : ι) (answer : Bool) : Prog (Cache ι ε) Bool :=
  Prog.act fun s => (answer, s.note (.checked i answer))

/-- The `compare_exchange` that takes a claim, after a check that found the owner dead or
    without one. -/
def exchangeClaim (i : ι) (dead : Bool) (word mine : ℕ) : Prog (Cache ι ε) Bool :=
  Prog.act fun s =>
    if s.word = word then (true, { s with word := mine }.note (.claimed i word))
    else (false, s.note (.lost i dead))

/-- The `compare_exchange` of `Claim::publish` and of the drop of a `Claim`. -/
def closeClaim (i : ι) (mine new : ℕ) : Prog (Cache ι ε) Unit :=
  Prog.write fun s =>
    if s.word = mine then { s with word := new }.note (.closed i mine new) else s.note (.kept i)

/-- The `match` in the loop of `cached_measurement`.  The number of liveness
    checks that found the owner running is what `checks` counts; `asked` counts all
    of them, for the answers. -/
def Caller.respond (c : Caller ε) (i : ι) (mine : ℕ) : ℕ × ℕ → ℕ →
    Prog (Cache ι ε) (ℕ × ℕ ⊕ Option UserAddressLimit)
  | (checks, asked), word =>
    match decode word with
    | .measured limit => pure (.inr (some limit))
    | .measuring owner => do
      if checks < WAIT_CHECKS ∧ owner.pid = c.me.pid ∧ owner.tid ≠ c.me.tid then
        if ← check i (c.running asked) then pure (.inl (checks + 1, asked + 1))
        else if ← exchangeClaim i true word mine then pure (.inr none)
        else pure (.inl (checks, asked + 1))
      else if ← exchangeClaim i false word mine then pure (.inr none)
      else pure (.inl (checks, asked))
    | .idle => do
      if ← exchangeClaim i false word mine then pure (.inr none) else pure (.inl (checks, asked))

def Caller.round (c : Caller ε) (i : ι) (mine : ℕ) (n : ℕ × ℕ) :
    Prog (Cache ι ε) (ℕ × ℕ ⊕ Option UserAddressLimit) :=
  load >>= c.respond i mine n

/-- The loop of `cached_measurement`: a cached limit, or a claim. -/
def Caller.claim (c : Caller ε) (i : ι) (mine : ℕ) : Prog (Cache ι ε) (Option UserAddressLimit) :=
  Prog.iterate (c.round i mine) (0, 0)

/-- The end of `cached_measurement`, with a claim. -/
def Caller.measureClaimed (c : Caller ε) (i : ι) (mine : ℕ) : Prog (Cache ι ε) (Outcome ε) :=
  match c.measure with
  | .returns (.ok limit) => do
    note (.measured i (.ok limit))
    closeClaim i mine ((measuredWord limit).getD IDLE)
    pure (.returns (.ok limit))
  | .returns (.error e) => do
    note (.measured i (.error e))
    closeClaim i mine IDLE
    pure (.returns (.error e))
  | .panics => do
    closeClaim i mine IDLE
    pure .panics

/-- The measurement of a caller whose word does not hold its identity. -/
def Caller.measureAlone (c : Caller ε) (i : ι) : Prog (Cache ι ε) (Outcome ε) :=
  match c.measure with
  | .returns result => do
    note (.measured i result)
    pure (.returns result)
  | .panics => pure .panics

def Caller.cachedMeasurement (c : Caller ε) (i : ι) : Prog (Cache ι ε) (Outcome ε) := do
  match decode (← load) with
  | .measured limit => pure (.returns (.ok limit))
  | _ =>
    match measuringWord c.me with
    | none => c.measureAlone i
    | some mine =>
      match ← c.claim i mine with
      | some limit => pure (.returns (.ok limit))
      | none => c.measureClaimed i mine

/-- A call, or the rest of one if the frame is a copy. -/
def Caller.outcome (c : Caller ε) (i : ι) : Prog (Cache ι ε) (Outcome ε) :=
  if c.copied then
    match measuringWord c.me with
    | some mine => c.measureClaimed i mine
    | none => pure .panics
  else c.cachedMeasurement i

def Caller.program (c : Caller ε) (i : ι) : Prog (Cache ι ε) Unit := do
  match ← c.outcome i with
  | .returns result => note (.returned i result)
  | .panics => pure ()

/-- Callers on a word, which may hold a claim from another process. -/
def callers (word : ℕ) (c : ι → Caller ε) : Pool (Cache ι ε) ι :=
  ⟨⟨word, []⟩, fun i => (c i).program i⟩

end

end Reverie.UserAddress
