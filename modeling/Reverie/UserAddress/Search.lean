/-
  The search for the user address limit (`search_user_address_limit`).  The oracle answers
  whether a syscall accepts a range; its answer may depend on everything that was asked
  before.  An overflow of `u64` stops the search.  Main theorem: `userAddressLimit_exact`.
-/
import Reverie.Lib.Outcome
import Reverie.Lib.Words
import Reverie.UserAddress.Cache

namespace Reverie.UserAddress
open List

/-! ## Calls of the oracle -/

/-- A call of the oracle, with its answer. -/
structure Query where
  base : ℕ
  len : ℕ
  accepted : Bool

/-- An oracle that answers, or fails, knowing all calls before. -/
abbrev Oracle (ε : Type) := List Query → ℕ → ℕ → Except ε Bool

/-- How a search stops. -/
inductive Stop (ε : Type) where
  /-- `Error::Tool` -/
  | tool (message : String)
  | oracle (error : ε)
  | overflow
  | cutOff

/-- A program that asks the oracle. -/
abbrev Asks (ε : Type) := EStateM (Stop ε) (List Query)

section
variable {ε : Type} (oracle : Oracle ε)

def accepts (base len : ℕ) : Asks ε Bool := do
  match oracle (← get) base len with
  | .ok accepted =>
    modify (· ++ [⟨base, len, accepted⟩])
    pure accepted
  | .error error => throw (.oracle error)

/-- `a + b`, which stops where it overflows. -/
def sum (a b : ℕ) : Asks ε ℕ := Outcome.orElse (Words.checkedAdd a b) .overflow

/-- `a - b`, which stops where it overflows. -/
def difference (a b : ℕ) : Asks ε ℕ := Outcome.orElse (Words.checkedSub a b) .overflow

def U64_MAX : ℕ := 2 ^ 64 - 1

/-! ## The search -/

def notALimit (what : String) : Stop ε :=
  .tool ("the kernel's user range check is not a limit on the range's end: " ++ what)

/-- The loop of the search, for at most `fuel` turns. -/
def bisect : ℕ → ℕ → ℕ → Asks ε ℕ
  | 0, _, _ => throw .cutOff
  | fuel + 1, accepted, refused => do
    if (← difference refused accepted) > 1 then
      let middle ← sum accepted ((← difference refused accepted) / 2)
      if ← accepts oracle middle 0 then bisect fuel middle refused
      else bisect fuel accepted middle
    else pure accepted

def checkLimit (limit : ℕ) : Asks ε ℕ := do
  if limit = 0 then throw (notALimit "the byte below the limit is refused")
  else if !(← accepts oracle (← difference limit 1) 1) then
    throw (notALimit "the byte below the limit is refused")
  else if ← accepts oracle limit 1 then throw (notALimit "the byte at the limit is accepted")
  else pure limit

def searchUserAddressLimit (fuel : ℕ) : Asks ε ℕ := do
  if !(← accepts oracle 0 0) then throw (notALimit "an empty range at 0 is refused")
  else if ← accepts oracle U64_MAX 0 then
    throw (notALimit "an empty range at the last address is accepted")
  else checkLimit oracle (← bisect oracle fuel 0 U64_MAX)

/-- `i32::MAX & !4095`. -/
def MAX_RW_COUNT : ℕ := 0x7ffff000

def measureUserAddressLimit (fuel : ℕ) : Asks ε UserAddressLimit := do
  let maxEnd ← searchUserAddressLimit oracle fuel
  if MAX_RW_COUNT ≤ maxEnd then
    pure ⟨maxEnd, ← accepts oracle (maxEnd - MAX_RW_COUNT) (MAX_RW_COUNT + 1)⟩
  else throw (.tool ("the user address limit 0x" ++ String.ofList (Nat.toDigits 16 maxEnd) ++
    " is below MAX_RW_COUNT"))

end

/-! ## Oracles of kernels -/

/-- The check of a kernel that accepts a range by its end. -/
def limitOracle {ε : Type} (limit : ℕ) : Oracle ε := fun _ base len => .ok (base + len ≤ limit)

/-- The check of a lone vector, which some kernels shorten first. -/
def kernelOracle {ε : Type} (limit : UserAddressLimit) : Oracle ε := fun _ base len =>
  .ok (base + (if limit.capsSingleVector then min len MAX_RW_COUNT else len) ≤ limit.maxEnd)

/-! ## What the answers imply -/

/-- The log shows where empty ranges stop being accepted. -/
def Found (limit : ℕ) (log : List Query) : Prop := ⟨limit, 0, true⟩ ∈ log ∧ ⟨limit + 1, 0, false⟩ ∈ log

/-- What a search that returns has seen. -/
structure Confirmed (limit : ℕ) (log : List Query) : Prop where
  pos : 0 < limit
  found : Found limit log
  below : ⟨limit - 1, 1, true⟩ ∈ log
  at_limit : ⟨limit, 1, false⟩ ∈ log

/-- What a search that gives up has seen: answers that no limit gives. -/
inductive Refuted (log : List Query) : Prop
  | bottom : ⟨0, 0, false⟩ ∈ log → Refuted log
  | top : ⟨U64_MAX, 0, true⟩ ∈ log → Refuted log
  | zero : ⟨1, 0, false⟩ ∈ log → Refuted log
  | below {limit : ℕ} : 0 < limit → ⟨limit, 0, true⟩ ∈ log → ⟨limit - 1, 1, false⟩ ∈ log → Refuted log
  | above {limit : ℕ} : ⟨limit + 1, 0, false⟩ ∈ log → ⟨limit, 1, true⟩ ∈ log → Refuted log

/-- Why a search of this oracle may stop: the answers are those of no limit, or the
    oracle failed. -/
inductive Fails {ε : Type} (oracle : Oracle ε) (log : List Query) : Stop ε → Prop
  | refuted (message : String) : Refuted log → Fails oracle log (.tool message)
  | failed {base len : ℕ} {error : ε} : oracle log base len = .error error →
      Fails oracle log (.oracle error)

section
variable {ε : Type} {oracle : Oracle ε} {P : Query → Prop} {log : List Query}
  {limit base len accepted refused fuel k n : ℕ}

/-- The calls so far: at most `n`, each with an answer that the oracle may give. -/
structure Calls (P : Query → Prop) (n : ℕ) (log : List Query) : Prop where
  length_le : log.length ≤ n
  answers : ∀ q ∈ log, P q

/-- The answers of the oracle are as `P` says. -/
def Oracle.Gives (oracle : Oracle ε) (P : Query → Prop) : Prop :=
  ∀ log base len accepted, oracle log base len = .ok accepted → P ⟨base, len, accepted⟩

theorem Calls.mono (h : Calls P k log) (hk : k ≤ n) : Calls P n log :=
  ⟨h.length_le.trans hk, h.answers⟩

theorem accepts_bind {α : Type} {f : Bool → Asks ε α} {Q : α → List Query → Prop}
    (hP : oracle.Gives P) (hlog : Calls P k log) (hk : k < n)
    (h : ∀ accepted log', (∀ q ∈ log, q ∈ log') → ⟨base, len, accepted⟩ ∈ log' →
      Calls P (k + 1) log' → Ensures (f accepted) log' Q fun stop log' =>
        Fails oracle log' stop ∧ Calls P n log') :
    Ensures (accepts oracle base len >>= f) log Q fun stop log' =>
      Fails oracle log' stop ∧ Calls P n log' := by
  refine Ensures.bind (Q := fun accepted log' => (∀ q ∈ log, q ∈ log') ∧
    ⟨base, len, accepted⟩ ∈ log' ∧ Calls P (k + 1) log') (Ensures.get_bind ?_) ?_
  · rcases horacle : oracle log base len with error | accepted
    · exact ⟨.failed horacle, hlog.mono hk.le⟩
    · refine ⟨fun q hq => mem_append_left _ hq,
        mem_append_right _ (mem_singleton_self _), ?_, fun q hq => ?_⟩
      · rw [length_append]
        exact Nat.add_le_add_right hlog.length_le 1
      · rcases mem_append.1 hq with hq | hq
        · exact hlog.answers q hq
        · rw [mem_singleton.1 hq]
          exact hP _ _ _ _ horacle
  · rintro accepted log' ⟨hmono, hmem, hcalls⟩
    exact h accepted log' hmono hmem hcalls

theorem difference_bind {α : Type} {a b : ℕ} {f : ℕ → Asks ε α} {Q : α → List Query → Prop}
    {E : Stop ε → List Query → Prop} (hle : b ≤ a) (h : Ensures (f (a - b)) log Q E) :
    Ensures (difference a b >>= f) log Q E := by
  rw [difference, Words.checkedSub, if_pos hle]
  exact h

/-- The loop halves an interval of at most `2 ^ k` addresses until one is left. -/
theorem bisect_spec (hP : oracle.Gives P) (hlt : accepted < refused) (htop : refused < 2 ^ 64)
    (hwidth : refused - accepted ≤ 2 ^ k) (hfuel : k < fuel) (hlog : Calls P n log)
    (haccepted : ⟨accepted, 0, true⟩ ∈ log) (hrefused : ⟨refused, 0, false⟩ ∈ log) :
    Ensures (bisect oracle fuel accepted refused) log
      (fun limit log' => Found limit log' ∧ Calls P (n + k) log')
      fun stop log' => Fails oracle log' stop ∧ Calls P (n + k) log' := by
  induction fuel generalizing accepted refused k n log with
  | zero => exact absurd hfuel (Nat.not_lt_zero k)
  | succ fuel ih =>
    refine difference_bind hlt.le ?_
    split_ifs with hwide
    · obtain ⟨k, rfl⟩ : ∃ j, k = j + 1 := by
        refine Nat.exists_eq_add_one.2 (Nat.pos_of_ne_zero ?_)
        rintro rfl
        omega
      refine difference_bind hlt.le ?_
      rw [sum, Words.checkedAdd, if_pos (by omega)]
      refine accepts_bind hP hlog (by omega) fun answer log' hmono hmem hcalls => ?_
      have hn : n + (k + 1) = n + 1 + k := by omega
      rw [hn]
      cases answer with
      | true => exact ih (by omega) htop (by omega) (by omega) hcalls hmem (hmono _ hrefused)
      | false => exact ih (by omega) (by omega) (by omega) (by omega) hcalls (hmono _ haccepted) hmem
    · obtain rfl : refused = accepted + 1 := by omega
      exact ⟨⟨haccepted, hrefused⟩, hlog.mono (Nat.le_add_right n k)⟩

theorem checkLimit_spec (hP : oracle.Gives P) (hlog : Calls P k log) (hfound : Found limit log) :
    Ensures (checkLimit oracle limit) log
      (fun found log' => found = limit ∧ Confirmed limit log' ∧ Calls P (k + 2) log')
      fun stop log' => Fails oracle log' stop ∧ Calls P (k + 2) log' := by
  rw [checkLimit]
  split_ifs with hzero
  · subst hzero
    exact ⟨.refuted _ (.zero hfound.2), hlog.mono (Nat.le_add_right k 2)⟩
  · have hpos := Nat.pos_of_ne_zero hzero
    refine difference_bind hpos (accepts_bind hP hlog (by omega) fun below log₁ h₁ hbelow hlog₁ => ?_)
    cases below with
    | false => exact ⟨.refuted _ (.below hpos (h₁ _ hfound.1) hbelow), hlog₁.mono (by omega)⟩
    | true =>
      refine accepts_bind hP hlog₁ (by omega) fun above log₂ h₂ habove hlog₂ => ?_
      cases above with
      | true => exact ⟨.refuted _ (.above (h₂ _ (h₁ _ hfound.2)) habove), hlog₂⟩
      | false => exact ⟨rfl, ⟨hpos, ⟨h₂ _ (h₁ _ hfound.1), h₂ _ (h₁ _ hfound.2)⟩, h₂ _ hbelow, habove⟩,
          hlog₂⟩

/-- Whatever the oracle answers, the search ends within 68 calls and without an overflow;
    a limit that it returns was confirmed, and otherwise the answers are those of no limit. -/
theorem search_spec (hP : oracle.Gives P) (hfuel : 64 < fuel) :
    Ensures (searchUserAddressLimit oracle fuel) []
      (fun limit log => Confirmed limit log ∧ Calls P 68 log)
      fun stop log => Fails oracle log stop ∧ Calls P 68 log := by
  have hnil : Calls P 0 [] := ⟨Nat.le_refl 0, fun _ hq => absurd hq not_mem_nil⟩
  refine accepts_bind hP hnil (by decide) fun bottom log₁ _ hbottom hlog₁ => ?_
  cases bottom with
  | false => exact ⟨.refuted _ (.bottom hbottom), hlog₁.mono (by decide)⟩
  | true =>
    refine accepts_bind hP hlog₁ (by decide) fun top log₂ h₂ htop hlog₂ => ?_
    cases top with
    | true => exact ⟨.refuted _ (.top htop), hlog₂.mono (by decide)⟩
    | false =>
      refine ((bisect_spec hP (by decide) (by decide) (by decide) hfuel hlog₂ (h₂ _ hbottom) htop).mono
        (fun _ _ h => h) fun _ _ h => ⟨h.1, h.2.mono (by decide)⟩).bind ?_
      rintro limit log₃ ⟨hfound, hlog₃⟩
      refine (checkLimit_spec hP hlog₃ hfound).mono ?_ fun _ _ h => h
      rintro _ log₄ ⟨rfl, hconfirmed, hlog₄⟩
      exact ⟨hconfirmed, hlog₄⟩

/-! ## Limits -/

/-- Answers to empty ranges and to single bytes as those of a limit. -/
def Query.LimitedBy (limit : ℕ) (q : Query) : Prop :=
  q.len ≤ 1 → q.accepted = decide (q.base + q.len ≤ limit)

theorem Confirmed.eq (h : Confirmed n log) (hlog : ∀ q ∈ log, q.LimitedBy limit) : n = limit := by
  have hle := hlog _ h.found.1 (Nat.zero_le 1)
  have hlt := hlog _ h.found.2 (Nat.zero_le 1)
  simp only [true_eq_decide_iff, false_eq_decide_iff] at hle hlt
  omega

theorem Refuted.false (h : Refuted log) (hlog : ∀ q ∈ log, q.LimitedBy limit) (hpos : 1 ≤ limit)
    (htop : limit ≤ 2 ^ 64 - 2) : False := by
  cases h with
  | bottom hmem =>
    have h := hlog _ hmem (Nat.zero_le 1)
    simp only [false_eq_decide_iff] at h
    omega
  | top hmem =>
    have h := hlog _ hmem (Nat.zero_le 1)
    have hmax : U64_MAX = 2 ^ 64 - 1 := rfl
    simp only [true_eq_decide_iff] at h
    omega
  | zero hmem =>
    have h := hlog _ hmem (Nat.zero_le 1)
    simp only [false_eq_decide_iff] at h
    omega
  | below hlimit hin hmem =>
    have h := hlog _ hin (Nat.zero_le 1)
    have h' := hlog _ hmem (Nat.le_refl 1)
    simp only [true_eq_decide_iff, false_eq_decide_iff] at h h'
    omega
  | above hout hmem =>
    have h := hlog _ hout (Nat.zero_le 1)
    have h' := hlog _ hmem (Nat.le_refl 1)
    simp only [true_eq_decide_iff, false_eq_decide_iff] at h h'
    omega

/-- An oracle that answers as a limit does, where the search asks, gives that limit. -/
theorem search_limit (hgives : oracle.Gives (Query.LimitedBy limit))
    (htotal : ∀ log base len error, oracle log base len ≠ .error error) (hpos : 1 ≤ limit)
    (htop : limit ≤ 2 ^ 64 - 2) (hfuel : 64 < fuel) :
    ∃ log, searchUserAddressLimit oracle fuel [] = .ok limit log ∧ log.length ≤ 68 := by
  have hspec := search_spec hgives hfuel
  rcases hrun : searchUserAddressLimit oracle fuel [] with ⟨found, log⟩ | ⟨stop, log⟩
  · obtain ⟨hconfirmed, hcalls⟩ := hspec.of_ok hrun
    exact ⟨log, by rw [hconfirmed.eq hcalls.answers], hcalls.length_le⟩
  · obtain ⟨hfails, hcalls⟩ := hspec.of_error hrun
    cases hfails with
    | refuted _ h => exact (h.false hcalls.answers hpos htop).elim
    | failed h => exact (htotal _ _ _ _ h).elim

theorem kernelOracle_gives (limit : UserAddressLimit) :
    (kernelOracle (ε := ε) limit).Gives (Query.LimitedBy limit.maxEnd) := by
  rintro log base len _ ⟨⟩ hlen
  have hmin : min len MAX_RW_COUNT = len := Nat.min_eq_left (Nat.le_trans hlen (by decide))
  simp only [hmin, ite_self]

/-- The lone vector that ends one byte past the limit is accepted if it is shortened. -/
theorem kernelOracle_probe {limit : UserAddressLimit} (h : MAX_RW_COUNT ≤ limit.maxEnd) :
    kernelOracle (ε := ε) limit log (limit.maxEnd - MAX_RW_COUNT) (MAX_RW_COUNT + 1) =
      .ok limit.capsSingleVector := by
  rw [kernelOracle, Nat.min_eq_right (Nat.le_succ _)]
  cases limit.capsSingleVector with
  | true =>
    rw [if_pos rfl, Nat.sub_add_cancel h]
    exact congrArg Except.ok (decide_eq_true (Nat.le_refl _))
  | false =>
    rw [if_neg Bool.false_ne_true, ← Nat.add_assoc, Nat.sub_add_cancel h]
    exact congrArg Except.ok (decide_eq_false (Nat.not_succ_le_self _))

theorem measure_kernel {limit : UserAddressLimit} (hmin : MAX_RW_COUNT ≤ limit.maxEnd)
    (htop : limit.maxEnd ≤ 2 ^ 64 - 2) (hfuel : 64 < fuel) :
    ∃ log, measureUserAddressLimit (kernelOracle (ε := ε) limit) fuel [] = .ok limit log := by
  obtain ⟨log, hsearch, -⟩ := search_limit (kernelOracle_gives (ε := ε) limit)
    (fun _ _ _ _ => nofun) (Nat.le_trans (by decide) hmin) htop hfuel
  have hmeasure : Ensures (measureUserAddressLimit (kernelOracle (ε := ε) limit) fuel) []
      (fun measured _ => measured = limit) fun _ _ => False := by
    refine Ensures.bind (Q := fun maxEnd _ => maxEnd = limit.maxEnd) ?_ ?_
    · rw [Ensures, hsearch]
    · rintro _ log rfl
      rw [if_pos hmin]
      refine Ensures.bind (Q := fun caps _ => caps = limit.capsSingleVector)
        (Ensures.get_bind ?_) ?_
      · rw [kernelOracle_probe hmin]
        exact rfl
      · rintro _ log rfl
        exact rfl
  rcases hrun : measureUserAddressLimit (kernelOracle (ε := ε) limit) fuel [] with ⟨_, log⟩ | ⟨_, _⟩
  · exact ⟨log, by rw [hmeasure.of_ok hrun]⟩
  · exact (hmeasure.of_error hrun).elim

end

/-- **The search for the user address limit is exact.**  It returns any limit below the
    last address within 68 calls; whatever the oracle, it ends within 68 calls with a
    limit that four answers confirm, a reason, or the failure of the oracle, never by an
    overflow; and the measurement tells whether the kernel shortens lone vectors. -/
theorem userAddressLimit_exact (ε : Type) {fuel : ℕ} (hfuel : 64 < fuel) :
    (∀ limit : ℕ, 1 ≤ limit → limit ≤ 2 ^ 64 - 2 → ∃ log,
      searchUserAddressLimit (limitOracle (ε := ε) limit) fuel [] = .ok limit log ∧
        log.length ≤ 68) ∧
    (∀ oracle : Oracle ε, Ensures (searchUserAddressLimit oracle fuel) []
      (fun limit log => log.length ≤ 68 ∧ 0 < limit ∧ ⟨limit, 0, true⟩ ∈ log ∧
        ⟨limit - 1, 1, true⟩ ∈ log ∧ ⟨limit + 1, 0, false⟩ ∈ log ∧ ⟨limit, 1, false⟩ ∈ log)
      fun stop log => log.length ≤ 68 ∧
        ((∃ message, stop = .tool message) ∨ ∃ error, stop = .oracle error)) ∧
    ∀ limit : UserAddressLimit, MAX_RW_COUNT ≤ limit.maxEnd → limit.maxEnd ≤ 2 ^ 64 - 2 → ∃ log,
      measureUserAddressLimit (kernelOracle (ε := ε) limit) fuel [] = .ok limit log := by
  refine ⟨fun limit hpos htop => ?_, fun oracle => ?_, fun limit hmin htop => ?_⟩
  · refine search_limit ?_ (fun _ _ _ _ => nofun) hpos htop hfuel
    rintro log base len _ ⟨⟩ -
    rfl
  · have hany : oracle.Gives fun _ => True := fun _ _ _ _ _ => trivial
    refine (search_spec hany hfuel).mono ?_ ?_
    · rintro limit log ⟨h, hcalls⟩
      exact ⟨hcalls.length_le, h.pos, h.found.1, h.below, h.found.2, h.at_limit⟩
    · rintro stop log ⟨hfails, hcalls⟩
      refine ⟨hcalls.length_le, ?_⟩
      cases hfails with
      | refuted message _ => exact .inl ⟨message, rfl⟩
      | failed _ => exact .inr ⟨_, rfl⟩
  · exact measure_kernel hmin htop hfuel

theorem userAddressLimit_exact_five_levels : ∃ log,
    searchUserAddressLimit (limitOracle (ε := Unit) (2 ^ 56 - 4096)) 65 [] =
      .ok (2 ^ 56 - 4096) log ∧ log.length ≤ 68 :=
  (userAddressLimit_exact Unit (by decide)).1 _ (by decide) (by decide)

end Reverie.UserAddress
