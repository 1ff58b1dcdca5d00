/-
  The measurement cache has one winner at a time (`cache_sound`).  `Move` says what a caller
  can do to the word and the history in each phase of its call, `Inv` what holds in between.
-/
import Reverie.UserAddress.Cache

namespace Reverie.UserAddress
open List Function Caller

variable {ι ε : Type}

/-! ## Phases and moves -/

/-- Where a caller is. -/
inductive Phase (ε : Type) where
  /-- before its claim, with the number of checks that found the owner running, and whether
      it has just found that the owner does not run -/
  | loop (checks : ℕ) (dead : Bool)
  | holding
  /-- has measured a limit, which it is about to publish -/
  | decided (limit : UserAddressLimit)
  | answer (result : Except ε UserAddressLimit)
  | done

/-- The caller has a claim that it has not given up. -/
def Phase.active : Phase ε → Bool
  | .holding | .decided _ => true
  | _ => false

/-- A caller and where it is. -/
structure Local (ι ε : Type) where
  caller : ι
  phase : Phase ε

/-- What may come after the end of a claim. -/
inductive Phase.Closes : Phase ε → Phase ε → Prop where
  | panics : Closes .holding .done
  | error (e : ε) : Closes .holding (.answer (.error e))
  | ok (limit : UserAddressLimit) : Closes (.decided limit) (.answer (.ok limit))

section
variable (c : ι → Caller ε)

/-- What one action of a caller does. -/
inductive Move : Cache ι ε → Unit → Local ι ε → Cache ι ε → Unit → Local ι ε → Prop where
  | stay (s : Cache ι ε) (l : Local ι ε) : Move s () l s () l
  | check {s : Cache ι ε} {i : ι} {n : ℕ} (b : Bool) (bound : n < WAIT_CHECKS) :
      Move s () ⟨i, .loop n false⟩ (s.note (.checked i b)) ()
        ⟨i, .loop (if b then n + 1 else n) (!b)⟩
  | hit {s : Cache ι ε} {i : ι} {n : ℕ} {limit : UserAddressLimit}
      (word : decode s.word = .measured limit) :
      Move s () ⟨i, .loop n false⟩ s () ⟨i, .answer (.ok limit)⟩
  | claim {s : Cache ι ε} {i : ι} {n mine : ℕ} {dead : Bool}
      (own : measuringWord (c i).me = some mine)
      (free : ∀ limit, decode s.word ≠ .measured limit) :
      Move s () ⟨i, .loop n dead⟩ ({ s with word := mine }.note (.claimed i s.word)) () ⟨i, .holding⟩
  | lose {s : Cache ι ε} {i : ι} {n : ℕ} {dead : Bool} :
      Move s () ⟨i, .loop n dead⟩ (s.note (.lost i dead)) () ⟨i, .loop n false⟩
  | alone {s : Cache ι ε} {i : ι} {n : ℕ} (r : Except ε UserAddressLimit) :
      Move s () ⟨i, .loop n false⟩ (s.note (.measured i r)) () ⟨i, .answer r⟩
  | decide {s : Cache ι ε} {i : ι} (limit : UserAddressLimit) :
      Move s () ⟨i, .holding⟩ (s.note (.measured i (.ok limit))) () ⟨i, .decided limit⟩
  | fail {s : Cache ι ε} {i : ι} (e : ε) :
      Move s () ⟨i, .holding⟩ (s.note (.measured i (.error e))) () ⟨i, .holding⟩
  | close {s : Cache ι ε} {i : ι} {p p' : Phase ε} {new : ℕ}
      (own : measuringWord (c i).me = some s.word) (closes : p.Closes p')
      (value : new = IDLE ∨ ∃ limit, p = .decided limit ∧ measuredWord limit = some new) :
      Move s () ⟨i, p⟩ ({ s with word := new }.note (.closed i s.word new)) () ⟨i, p'⟩
  | keep {s : Cache ι ε} {i : ι} {p p' : Phase ε}
      (other : measuringWord (c i).me ≠ some s.word) (closes : p.Closes p') :
      Move s () ⟨i, p⟩ (s.note (.kept i)) () ⟨i, p'⟩
  | answer {s : Cache ι ε} {i : ι} (r : Except ε UserAddressLimit) :
      Move s () ⟨i, .answer r⟩ (s.note (.returned i r)) () ⟨i, .done⟩

end

/-! ## The invariant -/

/-- Who put the word there, if it is a claim. -/
def holder (history : List (Event ι ε)) : Option ι :=
  history.foldl (fun h e => match e with
    | .claimed i _ => some i
    | .closed _ _ _ => none
    | _ => h) none

/-- Some caller has measured the limit. -/
def Backed (history : List (Event ι ε)) (limit : UserAddressLimit) : Prop :=
  ∃ i, .measured i (.ok limit) ∈ history

/-- The end of the claim of `i` is not in the history. -/
def Open (history : List (Event ι ε)) (i : ι) : Prop :=
  .kept i ∉ history ∧ ∀ old new, .closed i old new ∉ history

/-- The liveness checks of `i` that found the owner running. -/
def waits [DecidableEq ι] (history : List (Event ι ε)) (i : ι) : ℕ :=
  history.countP fun
    | .checked j true => j = i
    | _ => false

/-- The liveness checks of `i`. -/
def checks [DecidableEq ι] (history : List (Event ι ε)) (i : ι) : ℕ :=
  history.countP fun
    | .checked j _ => j = i
    | _ => false

/-- The exchanges that `i` lost after it had found the owner dead. -/
def losses [DecidableEq ι] (history : List (Event ι ε)) (i : ι) : ℕ :=
  history.countP fun
    | .lost j true => j = i
    | _ => false

section
variable [DecidableEq ι] (c : ι → Caller ε)

/-- What holds of a history. -/
structure Sound (history : List (Event ι ε)) : Prop where
  returned : ∀ i limit, .returned i (.ok limit) ∈ history → Backed history limit
  claimed : ∀ i old, .claimed i old ∈ history → ∀ limit, decode old ≠ .measured limit
  closed : ∀ i old new, .closed i old new ∈ history → measuringWord (c i).me = some old ∧
    (new = IDLE ∨ ∃ limit, measuredWord limit = some new ∧ .measured i (.ok limit) ∈ history)
  checks : ∀ i, waits history i ≤ WAIT_CHECKS
  asked : ∀ i, UserAddress.checks history i ≤ WAIT_CHECKS + losses history i
  erased : ∀ before after i old new j, history = before ++ .closed i old new :: after →
    holder before = some j → j = i ∨ ((c j).me = (c i).me ∧ Open before j)

/-- What holds at every moment. -/
structure Inv (s : Cache ι ε) (L : ι → Local ι ε) : Prop where
  sound : Sound c s.history
  caller : ∀ t, (L t).caller = t
  value : ∀ limit, decode s.word = .measured limit → Backed s.history limit
  answer : ∀ t limit, (L t).phase = .answer (.ok limit) → Backed s.history limit
  decided : ∀ t limit, (L t).phase = .decided limit → .measured t (.ok limit) ∈ s.history
  checks : ∀ t n dead, (L t).phase = .loop n dead → waits s.history t = n ∧
    UserAddress.checks s.history t = n + dead.toNat + losses s.history t
  opened : ∀ t, (L t).phase.active = true ∨ (∃ n dead, (L t).phase = .loop n dead) →
    Open s.history t
  claim : ∀ j, holder s.history = some j →
    measuringWord (c j).me = some s.word ∧ (L j).phase.active = true

end

/-! ## Histories that grow -/

section
variable {history : List (Event ι ε)} {e : Event ι ε}

theorem holder_append : holder (history ++ [e]) = match e with
    | .claimed i _ => some i
    | .closed _ _ _ => none
    | _ => holder history := by
  simp only [holder, foldl_append, foldl_cons, foldl_nil]

theorem waits_append [DecidableEq ι] (i : ι) : waits (history ++ [e]) i =
    waits history i + match e with
      | .checked j true => if j = i then 1 else 0
      | _ => 0 := by
  unfold waits
  split <;> simp

theorem checks_append [DecidableEq ι] (i : ι) : checks (history ++ [e]) i =
    checks history i + match e with
      | .checked j _ => if j = i then 1 else 0
      | _ => 0 := by
  unfold checks
  split <;> simp

theorem losses_append [DecidableEq ι] (i : ι) : losses (history ++ [e]) i =
    losses history i + match e with
      | .lost j true => if j = i then 1 else 0
      | _ => 0 := by
  unfold losses
  split <;> simp

theorem Backed.append {limit : UserAddressLimit} (h : Backed history limit) (e : Event ι ε) :
    Backed (history ++ [e]) limit := by
  obtain ⟨i, hi⟩ := h
  exact ⟨i, mem_append_left _ hi⟩

theorem Open.append {i : ι} (h : Open history i) (kept : e ≠ .kept i)
    (closed : ∀ old new, e ≠ .closed i old new) : Open (history ++ [e]) i := by
  obtain ⟨hk, hc⟩ := h
  refine ⟨fun hm => ?_, fun old new hm => ?_⟩
  · rcases mem_append.1 hm with hm | hm
    · exact hk hm
    · exact kept (mem_singleton.1 hm).symm
  · rcases mem_append.1 hm with hm | hm
    · exact hc old new hm
    · exact closed old new (mem_singleton.1 hm).symm

theorem Open.of_ne {i : ι} (h : Open history i) (hi : e.caller ≠ i) : Open (history ++ [e]) i :=
  h.append (fun he => hi (by rw [he]; rfl)) fun _ _ he => hi (by rw [he]; rfl)

/-- How often a caller has found the owner running, has checked, and has lost. -/
def tally [DecidableEq ι] (history : List (Event ι ε)) (i : ι) : ℕ × ℕ × ℕ :=
  (waits history i, checks history i, losses history i)

theorem tally_of_ne [DecidableEq ι] {i : ι} (hi : e.caller ≠ i) :
    tally (history ++ [e]) i = tally history i := by
  have hother : ∀ {p : Event ι ε → Bool}, (∀ e, p e = true → e.caller = i) →
      (history ++ [e]).countP p = history.countP p := by
    intro p hp
    rw [countP_append, countP_singleton, if_neg fun h => hi (hp e h), Nat.add_zero]
  rw [tally, tally, waits, checks, losses, hother, hother, hother]
  · rfl
  all_goals
    intro e he
    split at he
    · exact of_decide_eq_true he
    · cases he

theorem Sound.append [DecidableEq ι] {c : ι → Caller ε} (h : Sound c history)
    (returned : ∀ i limit, e = .returned i (.ok limit) → Backed history limit)
    (claimed : ∀ i old, e = .claimed i old → ∀ limit, decode old ≠ .measured limit)
    (closed : ∀ i old new, e = .closed i old new → measuringWord (c i).me = some old ∧
      (new = IDLE ∨ ∃ limit, measuredWord limit = some new ∧ .measured i (.ok limit) ∈ history))
    (checks : ∀ i b, e = .checked i b → waits history i < WAIT_CHECKS ∧
      UserAddress.checks history i < WAIT_CHECKS + losses history i)
    (erased : ∀ i old new j, e = .closed i old new → holder history = some j →
      j = i ∨ ((c j).me = (c i).me ∧ Open history j)) : Sound c (history ++ [e]) := by
  refine ⟨fun i limit hm => ?_, fun i old hm => ?_, fun i old new hm => ?_, fun i => ?_, fun i => ?_,
    fun before after i old new j hh hj => ?_⟩
  · rcases mem_append.1 hm with hm | hm
    · exact (h.returned i limit hm).append e
    · exact (returned i limit (mem_singleton.1 hm).symm).append e
  · rcases mem_append.1 hm with hm | hm
    · exact h.claimed i old hm
    · exact claimed i old (mem_singleton.1 hm).symm
  · have hold : measuringWord (c i).me = some old ∧
        (new = IDLE ∨ ∃ limit, measuredWord limit = some new ∧ .measured i (.ok limit) ∈ history) := by
      rcases mem_append.1 hm with hm | hm
      · exact h.closed i old new hm
      · exact closed i old new (mem_singleton.1 hm).symm
    refine ⟨hold.1, hold.2.imp_right ?_⟩
    rintro ⟨limit, hw, hl⟩
    exact ⟨limit, hw, mem_append_left _ hl⟩
  · rw [waits_append]
    have := h.checks i
    split
    · split_ifs with hi
      · subst hi
        exact (checks _ _ rfl).1
      · exact this
    · exact this
  · rw [checks_append]
    have := h.asked i
    refine Nat.le_trans ?_ (Nat.add_le_add_left (losses_append i ▸ Nat.le_add_right _ _) _)
    split
    · split_ifs with hi
      · subst hi
        exact (checks _ _ rfl).2
      · exact this
    · exact this
  · rcases eq_nil_or_concat after with rfl | ⟨after', e', rfl⟩
    · obtain ⟨rfl, he⟩ := append_inj' hh rfl
      exact erased i old new j (singleton_inj.1 he) hj
    · rw [concat_eq_append, ← cons_append, ← append_assoc] at hh
      exact h.erased before after' i old new j (append_inj' hh rfl).1 hj

end

section
variable [DecidableEq ι] {c : ι → Caller ε} {s s' : Cache ι ε} {L : ι → Local ι ε} {t : ι}
variable {l' : Local ι ε}

/-- A caller goes to the phase `p`, and the history grows to `history`. -/
theorem Inv.step (h : Inv c s L) {p : Phase ε} {word : ℕ} {history : List (Event ι ε)}
    (grows : ∀ e ∈ s.history, e ∈ history)
    (tally_eq : ∀ u, u ≠ t → tally history u = tally s.history u)
    (opens : ∀ u, u ≠ t → Open s.history u → Open history u) (sound : Sound c history)
    (value : ∀ limit, decode word = .measured limit → Backed history limit)
    (answer : ∀ limit, p = .answer (.ok limit) → Backed history limit)
    (decided : ∀ limit, p = .decided limit → .measured t (.ok limit) ∈ history)
    (checks : ∀ n dead, p = .loop n dead → waits history t = n ∧
      UserAddress.checks history t = n + dead.toNat + losses history t)
    (opened : p.active = true ∨ (∃ n dead, p = .loop n dead) → Open history t)
    (claim : ∀ j, holder history = some j → measuringWord (c j).me = some word ∧
      if j = t then p.active = true else (L j).phase.active = true) :
    Inv c ⟨word, history⟩ (update L t ⟨t, p⟩) := by
  obtain ⟨h1, h2, h3, h4, h5, h6, h7, h8⟩ := h
  have hother : ∀ u, u ≠ t → update L t ⟨t, p⟩ u = L u := fun u hu =>
    update_of_ne hu _ _
  refine ⟨sound, fun u => ?_, value, fun u limit hu => ?_, fun u limit hu => ?_,
    fun u n dead hu => ?_, fun u hu => ?_, fun j hj => ?_⟩
  · rcases eq_or_ne u t with rfl | hut
    · simp
    · rw [hother u hut, h2]
  · rcases eq_or_ne u t with rfl | hut
    · exact answer limit (by simpa using hu)
    · rw [hother u hut] at hu
      obtain ⟨i, hi⟩ := h4 u limit hu
      exact ⟨i, grows _ hi⟩
  · rcases eq_or_ne u t with rfl | hut
    · exact decided limit (by simpa using hu)
    · rw [hother u hut] at hu
      exact grows _ (h5 u limit hu)
  · rcases eq_or_ne u t with rfl | hut
    · exact checks n dead (by simpa using hu)
    · rw [hother u hut] at hu
      obtain ⟨hwaits, htally⟩ := Prod.ext_iff.1 (tally_eq u hut)
      obtain ⟨hchecks, hlosses⟩ := Prod.ext_iff.1 htally
      have := h6 u n dead hu
      simp only [tally] at hwaits hchecks hlosses
      rwa [hwaits, hchecks, hlosses]
  · rcases eq_or_ne u t with rfl | hut
    · exact opened (by simpa using hu)
    · rw [hother u hut] at hu
      exact opens u hut (h7 u hu)
  · obtain ⟨hw, ha⟩ := claim j hj
    refine ⟨hw, ?_⟩
    rcases eq_or_ne j t with rfl | hjt
    · simpa using ha
    · rw [hother j hjt]
      rwa [if_neg hjt] at ha

theorem Inv.note (h : Inv c s L) {p : Phase ε} {word : ℕ} {e : Event ι ε} (caller : e.caller = t)
    (sound : Sound c (s.history ++ [e]))
    (value : ∀ limit, decode word = .measured limit → Backed (s.history ++ [e]) limit)
    (answer : ∀ limit, p = .answer (.ok limit) → Backed (s.history ++ [e]) limit)
    (decided : ∀ limit, p = .decided limit → .measured t (.ok limit) ∈ s.history ++ [e])
    (checks : ∀ n dead, p = .loop n dead → waits (s.history ++ [e]) t = n ∧
      UserAddress.checks (s.history ++ [e]) t = n + dead.toNat + losses (s.history ++ [e]) t)
    (opened : p.active = true ∨ (∃ n dead, p = .loop n dead) → Open (s.history ++ [e]) t)
    (claim : ∀ j, holder (s.history ++ [e]) = some j → measuringWord (c j).me = some word ∧
      if j = t then p.active = true else (L j).phase.active = true) :
    Inv c ⟨word, s.history ++ [e]⟩ (update L t ⟨t, p⟩) :=
  h.step (fun _ => mem_append_left _) (fun _ hu => tally_of_ne (by rwa [caller, ne_comm]))
    (fun _ hu ho => ho.of_ne (by rwa [caller, ne_comm])) sound value answer decided checks opened claim

/-- An event after which the caller may hold a claim only if it held it before. -/
theorem Inv.claim_keep (h : Inv c s L) {p p' : Phase ε} {e : Event ι ε} (hL : L t = ⟨t, p⟩)
    (holder : holder (s.history ++ [e]) = holder s.history)
    (active : p.active = true → p'.active = true) :
    ∀ j, UserAddress.holder (s.history ++ [e]) = some j → measuringWord (c j).me = some s.word ∧
      if j = t then p'.active = true else (L j).phase.active = true := by
  intro j hj
  rw [holder] at hj
  obtain ⟨hw, ha⟩ := h.claim j hj
  refine ⟨hw, ?_⟩
  split_ifs with hjt
  · subst hjt
    rw [hL] at ha
    exact active ha
  · exact ha

theorem Phase.Closes.active {p p' : Phase ε} (h : p.Closes p') : p'.active = false := by
  cases h <;> rfl

theorem Inv.move (h : Inv c s L) (m : Move c s () (L t) s' () l') : Inv c s' (update L t l') := by
  have hcaller := h.caller t
  generalize hL : L t = l at m
  rw [hL] at hcaller
  cases m with
  | stay =>
    rw [← hL, update_eq_self]
    exact h
  | hit word =>
    obtain rfl : _ = t := hcaller
    refine h.step (fun _ he => he) (fun _ _ => rfl) (fun _ _ ho => ho) h.sound h.value ?_ nofun nofun
      (by nofun) ?_
    · rintro limit ⟨⟩
      exact h.value _ word
    · intro j hj
      obtain ⟨hw, ha⟩ := h.claim j hj
      refine ⟨hw, ?_⟩
      split_ifs with hjt
      · rw [hjt, hL] at ha
        exact ha
      · exact ha
  | check b bound =>
    obtain rfl : _ = t := hcaller
    obtain ⟨hwaits, hchecks⟩ := h.checks _ _ _ (by rw [hL])
    have hopen := h.opened _ (by rw [hL]; exact .inr ⟨_, _, rfl⟩)
    refine h.note rfl (h.sound.append nofun nofun nofun ?_ nofun)
      (fun l hw => (h.value l hw).append _) nofun nofun ?_
      (fun _ => hopen.append nofun nofun) (h.claim_keep hL holder_append (by nofun))
    · rintro i b he
      cases he
      rw [hwaits, hchecks]
      exact ⟨bound, by simpa using bound⟩
    · rintro n dead ⟨⟩
      rw [waits_append, checks_append, losses_append, hwaits, hchecks]
      cases b <;> simp [Nat.add_right_comm]
  | @claim _ _ _ _ own free =>
    obtain rfl : _ = t := hcaller
    have hopen := h.opened _ (by rw [hL]; exact .inr ⟨_, _, rfl⟩)
    refine h.note rfl (h.sound.append nofun ?_ nofun nofun nofun) ?_ nofun nofun nofun
      (fun _ => hopen.append nofun nofun) ?_
    · rintro i old he
      cases he
      exact free
    · intro limit hw
      rw [decode_measuringWord own] at hw
      cases hw
    · intro j hj
      rw [holder_append] at hj
      obtain rfl := Option.some.inj hj
      exact ⟨own, by simp [Phase.active]⟩
  | @lose _ _ dead =>
    obtain rfl : _ = t := hcaller
    obtain ⟨hwaits, hchecks⟩ := h.checks _ _ _ (by rw [hL])
    have hopen := h.opened _ (by rw [hL]; exact .inr ⟨_, _, rfl⟩)
    refine h.note rfl (h.sound.append nofun nofun nofun nofun nofun)
      (fun l hw => (h.value l hw).append _) nofun nofun ?_
      (fun _ => hopen.append nofun nofun) (h.claim_keep hL holder_append (by nofun))
    rintro n dead ⟨⟩
    rw [waits_append, checks_append, losses_append, hwaits, hchecks]
    cases dead <;> simp [Nat.add_assoc, Nat.add_comm 1]
  | alone r =>
    obtain rfl : _ = t := hcaller
    refine h.note rfl (h.sound.append nofun nofun nofun nofun nofun)
      (fun l hw => (h.value l hw).append _) ?_ nofun nofun (by nofun)
      (h.claim_keep hL holder_append (by nofun))
    rintro limit ⟨⟩
    exact ⟨_, mem_append_right _ (mem_singleton.2 rfl)⟩
  | decide limit =>
    obtain rfl : _ = t := hcaller
    have hopen := h.opened _ (by rw [hL]; exact .inl rfl)
    refine h.note rfl (h.sound.append nofun nofun nofun nofun nofun)
      (fun l hw => (h.value l hw).append _) nofun ?_ nofun (fun _ => hopen.append nofun nofun)
      (h.claim_keep hL holder_append fun _ => rfl)
    rintro limit ⟨⟩
    exact mem_append_right _ (mem_singleton.2 rfl)
  | fail e =>
    obtain rfl : _ = t := hcaller
    have hopen := h.opened _ (by rw [hL]; exact .inl rfl)
    exact h.note rfl (h.sound.append nofun nofun nofun nofun nofun)
      (fun l hw => (h.value l hw).append _) nofun nofun nofun (fun _ => hopen.append nofun nofun)
      (h.claim_keep hL holder_append fun _ => rfl)
  | @close i p p' new own closes value =>
    obtain rfl : i = t := hcaller
    have hactive := closes.active
    have hphase : (L i).phase = p := by rw [hL]
    refine h.note rfl (h.sound.append nofun nofun ?_ nofun ?_) ?_ ?_ ?_ ?_ ?_ ?_
    · rintro i old new he
      cases he
      refine ⟨own, value.imp_right ?_⟩
      rintro ⟨limit, rfl, hw⟩
      exact ⟨limit, hw, h.decided _ _ hphase⟩
    · rintro i old new j he hj
      cases he
      obtain ⟨hw, ha⟩ := h.claim j hj
      exact .inr ⟨measuringWord_inj hw own, h.opened j (.inl ha)⟩
    · rintro limit hw
      rcases value with rfl | ⟨limit', rfl, hw'⟩
      · cases decode_IDLE.symm.trans hw
      · rw [decode_measuredWord hw'] at hw
        cases hw
        exact ⟨_, mem_append_left _ (h.decided _ _ hphase)⟩
    · rintro limit rfl
      cases closes
      exact ⟨_, mem_append_left _ (h.decided _ _ hphase)⟩
    · rintro limit rfl
      cases closes
    · rintro n dead rfl
      cases closes
    · rintro (ha | ⟨n, dead, rfl⟩)
      · rw [hactive] at ha
        cases ha
      · cases closes
    · intro j hj
      rw [holder_append] at hj
      cases hj
  | @keep i p p' other closes =>
    obtain rfl : i = t := hcaller
    have hactive := closes.active
    have hphase : (L i).phase = p := by rw [hL]
    refine h.note rfl (h.sound.append nofun nofun nofun nofun nofun)
      (fun l hw => (h.value l hw).append _) ?_ ?_ ?_ ?_ ?_
    · rintro limit rfl
      cases closes
      exact ⟨_, mem_append_left _ (h.decided _ _ hphase)⟩
    · rintro limit rfl
      cases closes
    · rintro n dead rfl
      cases closes
    · rintro (ha | ⟨n, dead, rfl⟩)
      · rw [hactive] at ha
        cases ha
      · cases closes
    · intro j hj
      rw [holder_append] at hj
      obtain ⟨hw, ha⟩ := h.claim j hj
      refine ⟨hw, ?_⟩
      rw [if_neg]
      · exact ha
      · rintro rfl
        exact other hw
  | @answer i r =>
    obtain rfl : i = t := hcaller
    have hback : ∀ limit, r = .ok limit → Backed s.history limit := fun limit hr =>
      h.answer i limit (by rw [hL, hr])
    refine h.note rfl (h.sound.append ?_ nofun nofun nofun nofun)
      (fun l hw => (h.value l hw).append _) nofun nofun nofun (by nofun)
      (h.claim_keep hL holder_append (by nofun))
    rintro i limit he
    cases he
    exact hback limit rfl

end

/-! ## Callers follow the protocol -/

section
variable [DecidableEq ι] (c : ι → Caller ε)

def protocol : Protocol (Cache ι ε) Unit (Local ι ε) ι where
  move := Move c
  inv s _ L := Inv c s L
  stay s _ l := .stay s l
  keep h m := h.move m

variable {c} {α : Type} {i : ι} {n mine : ℕ} {Q : α → Local ι ε → Prop}

theorem follows_load {next : ℕ → Prog (Cache ι ε) α}
    (hit : ∀ word limit, decode word = .measured limit →
      Follows (protocol c) (next word) ⟨i, .answer (.ok limit)⟩ Q)
    (miss : ∀ word, (∀ limit, decode word ≠ .measured limit) →
      Follows (protocol c) (next word) ⟨i, .loop n false⟩ Q) :
    Follows (protocol c) (load >>= next) ⟨i, .loop n false⟩ Q := by
  refine Follows.act fun s g L j hi hl => ?_
  by_cases h : ∃ limit, decode s.word = .measured limit
  · obtain ⟨limit, h⟩ := h
    exact ⟨(), _, .hit h, hit s.word limit h⟩
  · rw [not_exists] at h
    exact ⟨(), _, .stay _ _, miss s.word h⟩

theorem follows_exchangeClaim {word : ℕ} {dead : Bool} {next : Bool → Prog (Cache ι ε) α}
    (own : measuringWord (c i).me = some mine) (free : ∀ limit, decode word ≠ .measured limit)
    (hit : Follows (protocol c) (next true) ⟨i, .holding⟩ Q)
    (miss : Follows (protocol c) (next false) ⟨i, .loop n false⟩ Q) :
    Follows (protocol c) (exchangeClaim i dead word mine >>= next) ⟨i, .loop n dead⟩ Q := by
  refine Follows.act fun s g L j hi hl => ?_
  by_cases h : s.word = word
  · subst h
    rw [if_pos rfl]
    exact ⟨(), _, .claim own free, hit⟩
  · rw [if_neg h]
    exact ⟨(), _, .lose, miss⟩

theorem follows_closeClaim {new : ℕ} {p p' : Phase ε} {next : Unit → Prog (Cache ι ε) α}
    (own : measuringWord (c i).me = some mine) (closes : p.Closes p')
    (value : new = IDLE ∨ ∃ limit, p = .decided limit ∧ measuredWord limit = some new)
    (h : Follows (protocol c) (next ()) ⟨i, p'⟩ Q) :
    Follows (protocol c) (closeClaim i mine new >>= next) ⟨i, p⟩ Q := by
  refine Follows.write fun s g L j hi hl => ?_
  by_cases hw : s.word = mine
  · subst hw
    rw [if_pos rfl]
    exact ⟨(), _, .close own closes value, h⟩
  · rw [if_neg hw]
    exact ⟨(), _, .keep (fun hw' => hw (Option.some.inj (hw'.symm.trans own))) closes, h⟩

/-- Where a caller is when it has its outcome. -/
def Ends (i : ι) : Outcome ε → Local ι ε → Prop
  | .returns r, l => l = ⟨i, .answer r⟩
  | .panics, _ => True

theorem Caller.claim_follows {next : Option UserAddressLimit → Prog (Cache ι ε) α}
    (own : measuringWord (c i).me = some mine)
    (hit : ∀ limit, Follows (protocol c) (next (some limit)) ⟨i, .answer (.ok limit)⟩ Q)
    (claimed : Follows (protocol c) (next none) ⟨i, .holding⟩ Q) :
    Follows (protocol c) ((c i).claim i mine >>= next) ⟨i, .loop 0 false⟩ Q := by
  refine Follows.iterate (fun checks l => l = ⟨i, .loop checks.1 false⟩) rfl ?_
  rintro ⟨checks, asked⟩ l rfl
  refine follows_load (fun word limit h => ?_) fun word free => ?_
  · simp only [Caller.respond, h]
    exact hit limit
  · cases h : decode word with
    | measured limit => exact absurd h (free limit)
    | idle =>
      simp only [Caller.respond, h]
      exact follows_exchangeClaim own free claimed rfl
    | measuring owner =>
      simp only [Caller.respond, h]
      split_ifs with hwait
      · refine Follows.act fun s g L j hi hl => ⟨(), _, .check _ hwait.1, ?_⟩
        dsimp only
        cases (c i).running asked with
        | true => rfl
        | false => exact follows_exchangeClaim own free claimed rfl
      · exact follows_exchangeClaim own free claimed rfl

theorem Caller.measureClaimed_follows (own : measuringWord (c i).me = some mine) :
    Follows (protocol c) ((c i).measureClaimed i mine) ⟨i, .holding⟩ (Ends i) := by
  unfold Caller.measureClaimed
  rcases (c i).measure with (e | limit) | _
  · refine Follows.write fun s g L j hi hl => ⟨(), _, .fail e, ?_⟩
    exact follows_closeClaim own (.error e) (.inl rfl) rfl
  · refine Follows.write fun s g L j hi hl => ⟨(), _, .decide limit, ?_⟩
    refine follows_closeClaim own (.ok limit) ?_ rfl
    cases hnew : measuredWord limit with
    | none => exact .inl rfl
    | some new => exact .inr ⟨limit, rfl, hnew⟩
  · exact follows_closeClaim own .panics (.inl rfl) trivial

theorem Caller.measureAlone_follows :
    Follows (protocol c) ((c i).measureAlone i) ⟨i, .loop n false⟩ (Ends i) := by
  unfold Caller.measureAlone
  rcases (c i).measure with r | _
  · exact Follows.write fun s g L j hi hl => ⟨(), _, .alone r, rfl⟩
  · exact trivial

theorem Caller.miss_follows :
    Follows (protocol c) (match measuringWord (c i).me with
      | none => (c i).measureAlone i
      | some mine => (c i).claim i mine >>= fun
        | some limit => pure (.returns (.ok limit))
        | none => (c i).measureClaimed i mine) ⟨i, .loop 0 false⟩ (Ends i) := by
  cases own : measuringWord (c i).me with
  | none => exact measureAlone_follows
  | some mine => exact claim_follows own (fun _ => rfl) (measureClaimed_follows own)

theorem Caller.cachedMeasurement_follows :
    Follows (protocol c) ((c i).cachedMeasurement i) ⟨i, .loop 0 false⟩ (Ends i) := by
  refine follows_load (fun word limit h => ?_) fun word free => ?_
  · rw [h]
    rfl
  · cases h : decode word with
    | measured limit => exact absurd h (free limit)
    | idle => exact miss_follows
    | measuring owner => exact miss_follows

/-- Where a caller is at the start: a copied frame has its claim. -/
def Caller.start (c : Caller ε) (i : ι) : Local ι ε :=
  ⟨i, if c.copied ∧ (measuringWord c.me).isSome then .holding else .loop 0 false⟩

theorem Caller.program_follows :
    Follows (protocol c) ((c i).program i) ((c i).start i) fun _ _ => True := by
  refine Follows.bind (Follows.mono (Q := Ends i) ?_ ?_)
  swap
  · rintro (r | _) l hl
    · obtain rfl : l = _ := hl
      exact fun s g L j hi hl => ⟨(), _, Move.answer r, trivial⟩
    · exact trivial
  unfold Caller.start Caller.outcome
  by_cases hcopied : (c i).copied = true
  · rw [if_pos hcopied]
    cases own : measuringWord (c i).me with
    | none => exact trivial
    | some mine =>
      rw [if_pos ⟨hcopied, rfl⟩]
      exact measureClaimed_follows own
  · rw [if_neg hcopied, if_neg fun h => hcopied h.1]
    exact cachedMeasurement_follows

variable (c)

theorem Inv.init {word : ℕ} (free : ∀ limit, decode word ≠ .measured limit) :
    Inv c ⟨word, []⟩ fun i => (c i).start i where
  sound := ⟨nofun, nofun, nofun, fun _ => Nat.zero_le _, fun _ => Nat.zero_le _,
    fun before _ _ _ _ _ h => by simp at h⟩
  caller _ := rfl
  value limit h := absurd h (free limit)
  answer t limit h := by
    simp only [Caller.start] at h
    split_ifs at h
  decided t limit h := by
    simp only [Caller.start] at h
    split_ifs at h
  checks t n dead h := by
    simp only [Caller.start] at h
    split_ifs at h
    cases h
    exact ⟨rfl, rfl⟩
  opened _ _ := ⟨nofun, nofun⟩
  claim _ h := by cases h

theorem callers_holds {word : ℕ} (free : ∀ limit, decode word ≠ .measured limit) :
    (protocol c).Holds (callers word c) :=
  ⟨(), fun i => (c i).start i, Inv.init c free, fun _ => program_follows⟩

omit [DecidableEq ι] in
theorem Move.measured {s s' : Cache ι ε} {l l' : Local ι ε} (m : Move c s () l s' () l')
    {limit : UserAddressLimit} (h : decode s.word = .measured limit) : s'.word = s.word := by
  cases m with
  | claim own free => exact absurd h (free limit)
  | close own closes value => cases (decode_measuringWord own).symm.trans h
  | _ => rfl

theorem callers_measured {word : ℕ} (free : ∀ limit, decode word ≠ .measured limit)
    (schedule later : List ι) {limit : UserAddressLimit}
    (h : decode ((callers word c).run schedule).state.word = .measured limit) :
    ((callers word c).run (schedule ++ later)).state.word =
      ((callers word c).run schedule).state.word := by
  rw [Pool.run_append]
  have hholds := Protocol.run (callers_holds c free) schedule
  refine Protocol.run_rel (R := fun s s' : Cache ι ε => ∀ limit, decode s.word = .measured limit →
    s'.word = s.word) (fun _ _ _ => rfl) ?_ (fun _ m limit h => Move.measured c m h) hholds later
    limit h
  intro a b d hab hbd limit ha
  rw [hbd limit (by rw [hab limit ha, ha]), hab limit ha]

theorem losses_eq_zero {history : List (Event ι ε)} {i : ι} (h : .lost i true ∉ history) :
    losses history i = 0 := by
  refine countP_eq_zero.2 fun e he hlost => ?_
  split at hlost
  · obtain rfl := of_decide_eq_true hlost
    exact h he
  · cases hlost

/-- **The cache has one winner.**  For all callers and every interleaving, from a
    word that holds no result: a measured word stays, and it holds what some caller
    has measured; the history is sound; and words give back what they encode.  Where no two
    callers have the same numbers, the end of a claim replaces no claim of another caller, and
    a caller that loses no exchange after it has found the owner dead makes at most
    `WAIT_CHECKS` liveness checks. -/
theorem cache_sound (word : ℕ) (free : ∀ limit, decode word ≠ .measured limit)
    (schedule later : List ι) :
    let s := ((callers word c).run schedule).state
    (∀ limit, decode s.word = .measured limit →
      Backed s.history limit ∧ ((callers word c).run (schedule ++ later)).state.word = s.word) ∧
    Sound c s.history ∧
    ((∀ i j, (c i).me = (c j).me → i = j) → ∀ before after i old new j,
      s.history = before ++ .closed i old new :: after → holder before = some j → j = i) ∧
    (∀ i, .lost i true ∉ s.history → checks s.history i ≤ WAIT_CHECKS) ∧
    (∀ limit w, measuredWord limit = some w → decode w = .measured limit) ∧
    (∀ thread w, measuringWord thread = some w → decode w = .measuring thread) := by
  intro s
  obtain ⟨_, L, h, _⟩ := Protocol.run (callers_holds c free) schedule
  have hinv : Inv c s L := h
  refine ⟨fun limit h => ⟨hinv.value limit h, callers_measured c free schedule later h⟩, hinv.sound,
    fun hdistinct before after i old new j hh hj => ?_, fun i hlost => ?_,
    fun _ _ => decode_measuredWord, fun _ _ => decode_measuringWord⟩
  · exact (hinv.sound.erased before after i old new j hh hj).elim id fun hsame =>
      hdistinct j i hsame.1
  · have hasked := hinv.sound.asked i
    rwa [losses_eq_zero hlost] at hasked

end

/-! ## What the bounds leave out -/

section
variable [DecidableEq ι]

theorem Caller.run_round {p : Pool (Cache ι ε) ι} {c : Caller ε} {i : ι} {mine n a : ℕ}
    {owner : Thread} {next : Option UserAddressLimit → Prog (Cache ι ε) Unit}
    (thread : p.threads i = .loop (c.round i mine) (n, a) next) (bound : n < WAIT_CHECKS)
    (word : decode p.state.word = .measuring owner) (pid : owner.pid = c.me.pid)
    (tid : owner.tid ≠ c.me.tid) (running : c.running a = true) :
    (p.run [i, i, i]).state = p.state.note (.checked i true) ∧
      (p.run [i, i, i]).threads i = .loop (c.round i mine) (n + 1, a + 1) next := by
  have hround : c.round i mine (n, a) = .atomic (fun s => (s.word, s)) (c.respond i mine (n, a)) := rfl
  have hrespond : c.respond i mine (n, a) p.state.word =
      .atomic (fun s => (c.running a, s.note (.checked i (c.running a)))) fun b =>
        if b then pure (.inl (n + 1, a + 1)) else
          exchangeClaim i true p.state.word mine >>= fun taken =>
            if taken then pure (.inr none) else pure (.inl (n, a + 1)) := by
    have hready : n < WAIT_CHECKS ∧ owner.pid = c.me.pid ∧ owner.tid ≠ c.me.tid := ⟨bound, pid, tid⟩
    simp only [Caller.respond, word, if_pos hready]
    rfl
  simp [Pool.run, Pool.step, thread, Prog.step, hround, hrespond, Prog.bind, Prog.again, running,
    pure]

theorem Caller.run_rounds {c : Caller ε} {i : ι} {mine : ℕ}
    {next : Option UserAddressLimit → Prog (Cache ι ε) Unit} (owner : Thread)
    (pid : owner.pid = c.me.pid) (tid : owner.tid ≠ c.me.tid) (k : ℕ) {p : Pool (Cache ι ε) ι} {n a : ℕ}
    (thread : p.threads i = .loop (c.round i mine) (n, a) next)
    (word : decode p.state.word = .measuring owner) (running : ∀ b, a ≤ b → c.running b = true)
    (bound : n + k ≤ WAIT_CHECKS) :
    ∃ schedule, (p.run schedule).state.history =
      p.state.history ++ List.replicate k (.checked i true) := by
  induction k generalizing p n a with
  | zero => exact ⟨[], by simp [Pool.run]⟩
  | succ k ih =>
    obtain ⟨hstate, hthread⟩ := run_round thread (by omega) word pid tid (running a le_rfl)
    obtain ⟨schedule, h⟩ := ih hthread (by rw [hstate]; exact word)
      (fun b hb => running b (by omega)) (by omega)
    refine ⟨[i, i, i] ++ schedule, ?_⟩
    rw [Pool.run_append, h, hstate]
    simp [Cache.note, replicate_succ]

end

/-- A frame that `fork` has copied into a new PID namespace, and a thread there
    that has the same numbers. -/
def Forked.caller (copied : Bool) : Caller Unit :=
  ⟨⟨1, 1⟩, fun _ => false, .returns (.error ()), copied⟩

def Forked.word : ℕ := 4 * (2 ^ 30 * 1 + 1) + 2

def Forked.schedule : List Bool := [false, false, false, false, true, true]

theorem cache_sound_forked :
    let s := ((callers Forked.word Forked.caller).run Forked.schedule).state
    s.word = IDLE ∧ Sound Forked.caller s.history :=
  ⟨rfl, (cache_sound Forked.caller Forked.word (by nofun) Forked.schedule []).2.1⟩

/-- Three threads of a process.  The first liveness check of each of them fails. -/
def Three.caller (i : Fin 3) : Caller Unit :=
  ⟨⟨1, i + 1⟩, fun n => n ≠ 0, .returns (.error ()), false⟩

/-- The second thread claims, the third takes over while the first thread is
    between its check and its exchange. -/
def Three.schedule : List (Fin 3) := [1, 1, 1, 1, 0, 0, 0, 0, 2, 2, 2, 2, 2, 0]

/-- **A drop can erase the claim of another caller, and a caller can make more
    than `WAIT_CHECKS` liveness checks.** -/
theorem claim_erased_and_checks_exceeded :
    (∃ before after old new,
      ((callers Forked.word Forked.caller).run Forked.schedule).state.history =
        before ++ .closed true old new :: after ∧ holder before = some false) ∧
    ∃ schedule, WAIT_CHECKS < checks ((callers IDLE Three.caller).run schedule).state.history 0 := by
  constructor
  · exact ⟨[.claimed false Forked.word, .measured true (.error ())], [], Forked.word, IDLE,
      by rfl, rfl⟩
  · have hthread : ∃ next, ((callers IDLE Three.caller).run Three.schedule).threads 0 =
        .loop ((Three.caller 0).round 0 (4 * (2 ^ 30 * 1 + 1) + 2)) (0, 1) next := ⟨_, rfl⟩
    have hrunning : ∀ b, 1 ≤ b → (Three.caller 0).running b = true := fun b hb =>
      decide_eq_true (by omega)
    have hfirst : 0 < checks ((callers IDLE Three.caller).run Three.schedule).state.history 0 := by
      decide +kernel
    obtain ⟨next, hthread⟩ := hthread
    obtain ⟨schedule, h⟩ := run_rounds ⟨1, 3⟩ rfl (by decide) WAIT_CHECKS hthread rfl hrunning
      (by decide)
    refine ⟨Three.schedule ++ schedule, ?_⟩
    rw [Pool.run_append, h]
    simp only [checks, countP_append, countP_replicate] at hfirst ⊢
    simp only [decide_true, if_true]
    omega

end Reverie.UserAddress
