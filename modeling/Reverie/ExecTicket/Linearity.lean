/-
  The life of an exec ticket is linear.  `Move` says what a call can do to the registry,
  `Inv` what holds after every sequence of calls.  Main theorem: `exec_ticket_linear`.
-/
import Reverie.ExecTicket.Registry

namespace Reverie.ExecTicket
open Ensures (get_bind orElse_bind refuse_bind)
open List Option

/-! ## Successful calls -/

section
variable {β ω : Type} [TicketBinding β ω]

variable (e : Event β ω)

/-- The call was refused. -/
def Event.Refused : Prop := ∃ error, e.response = .refused error

/-- The ticket that a successful `prepare` returned. -/
def Event.minted : Option ExecTicket :=
  match e.call, e.response with
  | .prepare .., .ticket t => some t
  | _, _ => none

/-- The ticket of a successful `seal`. -/
def Event.stamped : Option ExecTicket :=
  match e.call, e.response with
  | .sealTicket _ t _ _, .digest _ => some t
  | _, _ => none

/-- The ticket of a successful `redeem`. -/
def Event.spent : Option ExecTicket :=
  match e.call, e.response with
  | .redeem t _ _, .bytes _ => some t
  | _, _ => none

/-- `owner` was the watched owner when it prepared the ticket. -/
def Event.Prepares (owner : ω) (t : ExecTicket) (snapshot : Bytes) : Prop :=
  ∃ binding digest, e.call = .prepare owner binding snapshot digest ∧ e.response = .ticket t ∧
    e.answers.owner = owner ∧ TicketBinding.owner binding = owner

/-- The owner sealed the ticket. -/
def Event.Seals (owner : ω) (t : ExecTicket) (runtime : Bytes) (digest : Digest) : Prop :=
  ∃ runtimeDigest, e.call = .sealTicket owner t runtimeDigest runtime ∧ e.response = .digest digest ∧
    e.answers.owner = owner

/-- The owner marked its provision. -/
def Event.Marks (owner : ω) (t : ExecTicket) : Prop :=
  e.call = .markProvisionDelivered owner t ∧ e.response = .done ∧ e.answers.owner = owner

/-- The owner issued it. -/
def Event.Issues (owner : ω) (t : ExecTicket) (digest : Digest) : Prop :=
  e.call = .issue owner t digest ∧ e.response = .done ∧ e.answers.owner = owner

/-- It was redeemed for these bytes. -/
def Event.Redeems (t : ExecTicket) (bytes : Bytes) : Prop :=
  ∃ configDigest stateDigest, e.call = .redeem t configDigest stateDigest ∧ e.response = .bytes bytes

/-- The path to a redemption: the ticket is prepared, sealed and marked in either
    order, and issued with the sealed digest, all by its owner; `bytes` is the
    snapshot with the runtime. -/
def Authorized (before : List (Event β ω)) (t : ExecTicket) (bytes : Bytes) : Prop :=
  ∃ owner snapshot runtime digest p s m i, Event.Prepares p owner t snapshot ∧
    s.Seals owner t runtime digest ∧ m.Marks owner t ∧ i.Issues owner t digest ∧
    ([p, s, m, i].Sublist before ∨ [p, m, s, i].Sublist before) ∧ bytes = snapshot ++ runtime

/-! ## Moves -/

/-- Tickets may be used. -/
def ExecTicketRegistry.Open (r : ExecTicketRegistry β) : Prop :=
  r.dead = false ∧ r.terminalFailure = false

/-- No ticket is live. -/
def ExecTicketRegistry.Idle (r : ExecTicketRegistry β) : Prop :=
  ∀ (t : ExecTicket) (x : Transition β), r.transitions[t]? = some x → x.stage.live = false

/-- What a successful call does to the entry of its ticket. -/
inductive Update (t : ExecTicket) : Transition β → Event β ω → Transition β → Prop where
  | stamp {x : Transition β} {a : Answers ω} {owner : ω} {runtimeDigest digest : Digest}
      {runtime : Bytes} (watched : a.owner = owner) (own : TicketBinding.owner x.binding = owner)
      (stage : x.stage = .prepared) (fresh : x.stateDigest = none) :
      Update t x ⟨.sealTicket owner t runtimeDigest runtime, a, .digest digest⟩
        { x with tool := [], state := x.tool ++ runtime, stateDigest := some digest }
  | mark {x : Transition β} {a : Answers ω} {owner : ω} (watched : a.owner = owner)
      (own : TicketBinding.owner x.binding = owner) (stage : x.stage = .prepared) :
      Update t x ⟨.markProvisionDelivered owner t, a, .done⟩ { x with provision := .delivered }
  | issue {x : Transition β} {a : Answers ω} {owner : ω} {digest : Digest}
      (watched : a.owner = owner) (own : TicketBinding.owner x.binding = owner)
      (stage : x.stage = .prepared) (sealed : x.stateDigest = some digest)
      (delivered : x.provision = .delivered) :
      Update t x ⟨.issue owner t digest, a, .done⟩ { x with stage := .issued }
  | redeem {x : Transition β} {a : Answers ω} {configDigest stateDigest : Digest}
      (peer : a.matchesPeer = true) (stage : x.stage = .issued) :
      Update t x ⟨.redeem t configDigest stateDigest, a, .bytes x.state⟩
        { x with stage := .redeemed, state := [] }
  | cancel {x : Transition β} {a : Answers ω} {owner : ω}
      (stage : x.stage = .prepared ∨ x.stage = .issued) :
      Update t x ⟨.cancel owner t, a, .done⟩ { x with stage := .cancelled, tool := [], state := [] }
  | complete {x : Transition β} {a : Answers ω} {owner : ω} (stage : x.stage = .redeemed) :
      Update t x ⟨.complete owner t, a, .done⟩ { x with stage := .completed }

/-- The calls that make a ticket fail. -/
inductive Event.Fails (t : ExecTicket) : Event β ω → Prop where
  | failed (a : Answers ω) : Fails t ⟨.failed t, a, .done⟩
  | complete (owner : ω) (a : Answers ω) : Fails t ⟨.complete owner t, a, .refused .qualification⟩

/-- What a call does to the registry. -/
inductive Move : ExecTicketRegistry β → Event β ω → ExecTicketRegistry β → Prop where
  | refuse {r : ExecTicketRegistry β} {e : Event β ω} (n : ℕ) (refused : e.Refused)
      (alive : e.call ≠ .died) : Move r e { r with nextTicket := n }
  | look {r : ExecTicketRegistry β} {t : ExecTicket} {a : Answers ω} {b : β} (opened : r.Open) :
      Move r ⟨.issuedBinding t, a, .binding b⟩ r
  | prepare {r : ExecTicketRegistry β} {a : Answers ω} {owner : ω} {b : β} {snapshot : Bytes}
      {digest : Digest} {t : ExecTicket} (n : ℕ) (opened : r.Open) (idle : r.Idle)
      (new : r.transitions[t]? = none) (watched : a.owner = owner)
      (own : TicketBinding.owner b = owner) :
      Move r ⟨.prepare owner b snapshot digest, a, .ticket t⟩
        { r with nextTicket := n,
                 transitions := r.transitions.insert t ⟨b, .prepared, .fresh, snapshot, [], none⟩ }
  | update {r : ExecTicketRegistry β} {t : ExecTicket} {x x' : Transition β} {e : Event β ω}
      (opened : r.Open) (entry : r.transitions[t]? = some x) (how : Update t x e x') :
      Move r e { r with transitions := r.transitions.insert t x' }
  | fail {r : ExecTicketRegistry β} {t : ExecTicket} {x : Transition β} {e : Event β ω}
      (entry : r.transitions[t]? = some x) (live : x.stage.live = true) (how : e.Fails t) :
      Move r e { r with
        transitions := r.transitions.insert t { x with stage := .failed, tool := [], state := [] }
        terminalFailure := true }
  | die {r : ExecTicketRegistry β} {a : Answers ω} :
      Move r ⟨.died, a, .done⟩ { r with
        dead := true
        transitions := r.transitions.map fun _ x =>
          if x.stage.live then { x with stage := .dead, tool := [], state := [] } else x }

end

/-! ## Every call is a move -/

section
variable {β ω α : Type} [TicketBinding β ω] [DecidableEq ω] {sha256 : Bytes → Digest}
  {r : ExecTicketRegistry β} {R : α → ExecTicketRegistry β → Prop}
  {E : ExecControlError → ExecTicketRegistry β → Prop} {watched owner : ω} {t : ExecTicket}
  {a : Answers ω}

omit [TicketBinding β ω] in
theorem checkOwner_bind {f : PUnit → Registry β α} (hE : ∀ e, E e r)
    (h : r.Open → watched = owner → Ensures (f ⟨⟩) r R E) :
    Ensures (checkOwner watched owner >>= f) r R E := by
  refine Ensures.bind (Q := fun _ r' => r' = r ∧ r.Open ∧ watched = owner) ?_ ?_
  · refine get_bind (refuse_bind (fun _ => hE _) fun hdead => ?_)
    refine refuse_bind (fun _ => hE _) fun hterm => ?_
    unfold Outcome.refuse
    split_ifs with hw
    · exact hE _
    · exact ⟨rfl, ⟨by simpa using hdead, by simpa using hterm⟩, (not_not.1 hw).symm⟩
  · rintro _ _ ⟨rfl, hopen, hw⟩
    exact h hopen hw

variable {f : Transition β → Registry β α}

theorem transaction_bind (hE : ∀ e, E e r)
    (h : ∀ x, r.Open → watched = owner → r.transitions[t]? = some x →
      TicketBinding.owner x.binding = owner → Ensures (f x) r R E) :
    Ensures (transaction watched owner t >>= f) r R E := by
  refine Ensures.bind (Q := fun x r' => r' = r ∧ r.Open ∧ watched = owner ∧
    r.transitions[t]? = some x ∧ TicketBinding.owner x.binding = owner) ?_ ?_
  · refine checkOwner_bind hE fun hopen hw => get_bind ?_
    refine orElse_bind (fun _ => hE _) fun x hx => ?_
    refine refuse_bind (fun _ => hE _) fun hown => ?_
    exact ⟨rfl, hopen, hw, hx, not_not.1 hown⟩
  · rintro x _ ⟨rfl, hopen, hw, hx, hown⟩
    exact h x hopen hw hx hown

omit [TicketBinding β ω] in
theorem issuedEntry_bind (hE : ∀ e, E e r)
    (h : ∀ x, r.Open → a.matchesPeer = true → r.transitions[t]? = some x → x.stage = .issued →
      Ensures (f x) r R E) : Ensures (issuedEntry a t >>= f) r R E := by
  refine Ensures.bind (Q := fun x r' => r' = r ∧ r.Open ∧ a.matchesPeer = true ∧
    r.transitions[t]? = some x ∧ x.stage = .issued) ?_ ?_
  · refine checkOwner_bind hE fun hopen _ => ?_
    refine refuse_bind (fun _ => hE _) fun hpeer => get_bind ?_
    refine orElse_bind (fun _ => hE _) fun x hx => ?_
    refine refuse_bind (fun _ => hE _) fun hstage => ?_
    exact ⟨rfl, hopen, by simpa using hpeer, hx, not_not.1 hstage⟩
  · rintro x _ ⟨rfl, hopen, hpeer, hx, hstage⟩
    exact h x hopen hpeer hx hstage

theorem failed_ensures {Q : Unit → ExecTicketRegistry β → Prop} (hE : ∀ e, E e r)
    (h : ∀ x, r.transitions[t]? = some x → x.stage.live = true →
      Q () { r with
        transitions := r.transitions.insert t { x with stage := .failed, tool := [], state := [] }
        terminalFailure := true }) : Ensures (failed t) r Q E := by
  refine get_bind (orElse_bind (fun _ => hE _) fun x hx => ?_)
  refine refuse_bind (fun _ => hE _) fun hlive => ?_
  exact h x hx (by simpa using hlive)

/-- Whatever a program answers, it is a move. -/
def Call.Moves (c : Call β ω) (a : Answers ω) (r : ExecTicketRegistry β)
    (op : Registry β (Response β)) : Prop :=
  Ensures op r (fun response r' => Move r ⟨c, a, response⟩ r')
    fun e r' => Move r ⟨c, a, .refused e⟩ r'

omit [DecidableEq ω] in
theorem refusal {c : Call β ω} (hc : c ≠ .died) (e : ExecControlError) :
    Move r ⟨c, a, .refused e⟩ r := .refuse r.nextTicket ⟨e, rfl⟩ hc

theorem idle_of_values (h : ¬ (Table.values r.transitions).any (·.stage.live) = true) : r.Idle := by
  intro t x hx
  have hmem : x ∈ Table.values r.transitions := Table.mem_values.2 ⟨t, hx⟩
  by_contra hlive
  exact h (any_eq_true.2 ⟨x, hmem, by simpa using hlive⟩)

variable (owner : ω)

theorem prepare_moves (b : β) (snapshot : Bytes) (digest : Digest) :
    Call.Moves (.prepare owner b snapshot digest) a r
      (.ticket <$> prepare sha256 a owner b snapshot digest) := by
  have hE : ∀ e, Move r ⟨.prepare owner b snapshot digest, a, .refused e⟩ r := refusal nofun
  refine Ensures.map (checkOwner_bind hE fun hopen hw => ?_)
  refine refuse_bind (fun _ => hE _) fun hown => get_bind ?_
  refine refuse_bind (fun _ => hE _) fun hidle => ?_
  refine refuse_bind (fun _ => hE _) fun _ => ?_
  refine refuse_bind (fun _ => hE _) fun _ => ?_
  refine refuse_bind (fun _ => hE _) fun _ => ?_
  refine refuse_bind (fun _ => hE _) fun _ => ?_
  refine refuse_bind (fun _ => hE _) fun _ => Ensures.set_bind ?_
  refine refuse_bind (fun _ => .refuse _ ⟨_, rfl⟩ nofun) fun hnew => ?_
  refine Move.prepare _ hopen (idle_of_values hidle) ?_ hw (not_not.1 hown)
  simpa using hnew

variable (t : ExecTicket)

theorem sealTicket_moves (digest : Digest) (runtime : Bytes) :
    Call.Moves (.sealTicket owner t digest runtime) a r
      (.digest <$> sealTicket sha256 a owner t digest runtime) := by
  have hE : ∀ e, Move r ⟨.sealTicket owner t digest runtime, a, .refused e⟩ r := refusal nofun
  refine Ensures.map (checkOwner_bind hE fun hopen hw => ?_)
  refine refuse_bind (fun _ => hE _) fun _ => ?_
  refine refuse_bind (fun _ => hE _) fun _ => ?_
  refine refuse_bind (fun _ => hE _) fun _ => ?_
  refine transaction_bind hE fun x _ _ hx hown => ?_
  refine refuse_bind (fun _ => hE _) fun hstage => ?_
  refine refuse_bind (fun _ => hE _) fun _ => ?_
  simp only [not_or, not_not, Bool.not_eq_true, isSome_eq_false_iff,
    isNone_iff_eq_none] at hstage
  exact .update hopen hx (.stamp hw hown hstage.1 hstage.2)

theorem markProvisionDelivered_moves :
    Call.Moves (.markProvisionDelivered owner t) a r
      ((fun _ => .done) <$> markProvisionDelivered a owner t) := by
  have hE : ∀ e, Move r ⟨.markProvisionDelivered owner t, a, .refused e⟩ r := refusal nofun
  refine Ensures.map (transaction_bind hE fun x hopen hw hx hown => ?_)
  refine refuse_bind (fun _ => hE _) fun hstage => ?_
  exact .update hopen hx (.mark hw hown (not_not.1 hstage))

theorem issue_moves (digest : Digest) :
    Call.Moves (.issue owner t digest) a r ((fun _ => .done) <$> issue a owner t digest) := by
  have hE : ∀ e, Move r ⟨.issue owner t digest, a, .refused e⟩ r := refusal nofun
  refine Ensures.map (transaction_bind hE fun x hopen hw hx hown => ?_)
  refine refuse_bind (fun _ => hE _) fun hstage => ?_
  simp only [not_or, not_not] at hstage
  exact .update hopen hx (.issue hw hown hstage.1 hstage.2.1 hstage.2.2)

theorem issuedBinding_moves : Call.Moves (.issuedBinding t) a r (.binding <$> issuedBinding a t) :=
  Ensures.map (issuedEntry_bind (refusal nofun) fun _ hopen _ _ _ => .look hopen)

theorem redeem_moves (configDigest stateDigest : Digest) :
    Call.Moves (.redeem t configDigest stateDigest) a r
      (.bytes <$> redeem a t configDigest stateDigest) := by
  have hE : ∀ e, Move r ⟨.redeem t configDigest stateDigest, a, .refused e⟩ r := refusal nofun
  refine Ensures.map (issuedEntry_bind hE fun x hopen hpeer hx hstage => ?_)
  refine refuse_bind (fun _ => hE _) fun _ => ?_
  exact .update hopen hx (.redeem hpeer hstage)

theorem cancel_moves :
    Call.Moves (.cancel owner t) a r ((fun _ => .done) <$> cancel a owner t) := by
  have hE : ∀ e, Move r ⟨.cancel owner t, a, .refused e⟩ r := refusal nofun
  refine Ensures.map (transaction_bind hE fun x hopen hw hx hown => ?_)
  refine refuse_bind (fun _ => hE _) fun hstage => ?_
  exact .update hopen hx (.cancel (by tauto))

omit [DecidableEq ω] in
theorem failed_moves : Call.Moves (.failed t) a r ((fun _ => .done) <$> failed t) :=
  Ensures.map (failed_ensures (refusal nofun) fun _ hx hlive => .fail hx hlive (.failed a))

theorem complete_moves :
    Call.Moves (.complete owner t) a r ((fun _ => .done) <$> complete a owner t) := by
  have hE : ∀ e, Move r ⟨.complete owner t, a, .refused e⟩ r := refusal nofun
  refine Ensures.map (transaction_bind hE fun x hopen hw hx hown => ?_)
  refine refuse_bind (fun _ => hE _) fun hstage => ?_
  rw [not_not] at hstage
  by_cases hq : a.qualifyCompletion = false
  · rw [if_pos hq]
    refine Ensures.bind (failed_ensures hE fun y hy hlive => ?_) fun _ _ h => h
    exact .fail hy hlive (.complete owner a)
  · rw [if_neg hq]
    exact .update hopen hx (.complete hstage)

theorem Call.exec_moves (sha256 : Bytes → Digest) (r : ExecTicketRegistry β) (a : Answers ω)
    (c : Call β ω) : c.Moves a r (c.exec sha256 a) := by
  cases c with
  | prepare owner b snapshot digest => exact prepare_moves owner b snapshot digest
  | sealTicket owner t digest runtime => exact sealTicket_moves owner t digest runtime
  | markProvisionDelivered owner t => exact markProvisionDelivered_moves owner t
  | issue owner t digest => exact issue_moves owner t digest
  | issuedBinding t => exact issuedBinding_moves t
  | redeem t configDigest stateDigest => exact redeem_moves t configDigest stateDigest
  | cancel owner t => exact cancel_moves owner t
  | complete owner t => exact complete_moves owner t
  | failed t => exact failed_moves t
  | died => exact .die

theorem Log.step_move (sha256 : Bytes → Digest) (l : Log β ω) (c : Call β ω × Answers ω) :
    ∃ e, (l.step sha256 c).history = l.history ++ [e] ∧
      Move l.registry e (l.step sha256 c).registry := by
  have h := c.1.exec_moves sha256 l.registry c.2
  unfold Log.step
  unfold Call.Moves Ensures at h
  rcases hx : c.1.exec sha256 c.2 l.registry with ⟨response, r'⟩ | ⟨e, r'⟩ <;> rw [hx] at h
  · exact ⟨_, rfl, h⟩
  · exact ⟨_, rfl, h⟩

end

/-! ## What a move does to an entry -/

section
variable {β ω : Type} [TicketBinding β ω] {r r' : ExecTicketRegistry β} {e : Event β ω}
  {t u : ExecTicket} {x x' : Transition β}

/-- A record only goes forward. -/
structure Evolves (x x' : Transition β) : Prop where
  stamped : x.stateDigest.isSome = true → x'.stateDigest.isSome = true
  spent : x.stage ≠ .prepared → x.stage ≠ .issued → x'.stage ≠ .prepared ∧ x'.stage ≠ .issued
  ended : x.stage.live = false → x'.stage = x.stage

theorem Evolves.refl : Evolves x x := ⟨id, fun h h' => ⟨h, h'⟩, fun _ => rfl⟩

theorem Update.evolves (h : Update u x e x') : Evolves x x' := by
  cases h with
  | stamp _ _ stage => exact ⟨fun _ => rfl, fun h => absurd stage h, fun h => by simp⟩
  | mark _ _ stage => exact ⟨id, fun h => absurd stage h, fun h => by simp⟩
  | issue _ _ stage => exact ⟨id, fun h => absurd stage h, fun h => by simp [stage, ExecStage.live] at h⟩
  | redeem _ stage => exact ⟨id, fun _ h => absurd stage h,
      fun h => by simp [stage, ExecStage.live] at h⟩
  | cancel stage =>
    refine ⟨id, fun h h' => absurd stage (by tauto), fun h => ?_⟩
    rcases stage with stage | stage <;> simp [stage, ExecStage.live] at h
  | complete stage => exact ⟨id, fun _ _ => ⟨nofun, nofun⟩,
      fun h => by simp [stage, ExecStage.live] at h⟩

theorem Update.live (h : Update u x e x') : x.stage.live = true := by
  cases h with
  | stamp _ _ stage => rw [stage]; rfl
  | mark _ _ stage => rw [stage]; rfl
  | issue _ _ stage => rw [stage]; rfl
  | redeem _ stage => rw [stage]; rfl
  | cancel stage => rcases stage with stage | stage <;> rw [stage] <;> rfl
  | complete stage => rw [stage]; rfl

theorem Move.evolves (m : Move r e r') (hx : r.transitions[u]? = some x) :
    ∃ x', r'.transitions[u]? = some x' ∧ Evolves x x' := by
  cases m with
  | refuse n => exact ⟨x, hx, .refl⟩
  | look => exact ⟨x, hx, .refl⟩
  | prepare n opened idle new =>
    refine ⟨x, ?_, .refl⟩
    rw [Table.getElem?_insert, if_neg, hx]
    rintro rfl
    rw [new] at hx
    cases hx
  | update opened entry how =>
    simp only [Table.getElem?_insert]
    split_ifs with h
    · subst h
      obtain rfl := Option.some.inj (entry.symm.trans hx)
      exact ⟨_, rfl, how.evolves⟩
    · exact ⟨x, hx, .refl⟩
  | fail entry live how =>
    simp only [Table.getElem?_insert]
    split_ifs with h
    · subst h
      obtain rfl := Option.some.inj (entry.symm.trans hx)
      exact ⟨_, rfl, id, fun _ _ => ⟨nofun, nofun⟩, fun h => by rw [live] at h; cases h⟩
    · exact ⟨x, hx, .refl⟩
  | die =>
    simp only [Std.TreeMap.getElem?_map, hx, map_some]
    refine ⟨_, rfl, ?_⟩
    split_ifs with h
    · exact ⟨id, fun _ _ => ⟨nofun, nofun⟩, fun h' => by rw [h] at h'; cases h'⟩
    · exact .refl

/-- A live ticket was live before, or it is new and no other was live. -/
theorem Move.live (m : Move r e r') (hx : r'.transitions[u]? = some x')
    (hlive : x'.stage.live = true) :
    (∃ x, r.transitions[u]? = some x ∧ x.stage.live = true) ∨ (r.Idle ∧ e.minted = some u) := by
  cases m with
  | refuse n => exact .inl ⟨x', hx, hlive⟩
  | look => exact .inl ⟨x', hx, hlive⟩
  | prepare n opened idle new =>
    rw [Table.getElem?_insert] at hx
    split_ifs at hx with h
    · exact .inr ⟨idle, by rw [h]; rfl⟩
    · exact .inl ⟨x', hx, hlive⟩
  | update opened entry how =>
    rw [Table.getElem?_insert] at hx
    split_ifs at hx with h
    · exact .inl ⟨_, by rw [← h, entry], how.live⟩
    · exact .inl ⟨x', hx, hlive⟩
  | fail entry live how =>
    rw [Table.getElem?_insert] at hx
    split_ifs at hx with h
    · exact .inl ⟨_, by rw [← h, entry], live⟩
    · exact .inl ⟨x', hx, hlive⟩
  | die =>
    simp only [Std.TreeMap.getElem?_map, map_eq_some_iff] at hx
    obtain ⟨y, hy, rfl⟩ := hx
    split_ifs at hlive with h
    · cases hlive
    · exact .inl ⟨y, hy, hlive⟩

/-- Success needs a registry that is open, except for `failed` and `died`. -/
theorem Move.barred (m : Move r e r') (hclosed : ¬ r.Open) (hidle : r.Idle) :
    e.call = .died ∨ e.Refused := by
  cases m with
  | refuse n refused => exact .inr refused
  | look opened => exact absurd opened hclosed
  | prepare n opened => exact absurd opened hclosed
  | update opened => exact absurd opened hclosed
  | fail entry live how => rw [hidle _ _ entry] at live; cases live
  | die => exact .inl rfl

theorem Move.closed (m : Move r e r') (hclosed : ¬ r.Open) : ¬ r'.Open := by
  cases m with
  | fail entry live how => exact fun h => absurd h.2 (by simp)
  | die => exact fun h => absurd h.1 (by simp)
  | _ => exact hclosed

end

/-! ## Calls that succeed at most once -/

section
variable {β ω : Type} [TicketBinding β ω]

/-- Calls that `f` picks succeed only on a ticket that is not used, and use it. -/
structure Once (f : Event β ω → Option ExecTicket) (Used : Transition β → Prop) : Prop where
  mark : ∀ {r e r' t}, Move r e r' → f e = some t →
    (∀ x, r.transitions[t]? = some x → ¬ Used x) ∧ ∃ x, r'.transitions[t]? = some x ∧ Used x
  keep : ∀ {x x'}, Evolves x x' → Used x → Used x'

/-- The calls that `f` picks were on different tickets, which are used. -/
structure Uses (f : Event β ω → Option ExecTicket) (Used : Transition β → Prop) (l : Log β ω) :
    Prop where
  nodup : (l.history.filterMap f).Nodup
  used : ∀ t ∈ l.history.filterMap f, ∃ x, l.registry.transitions[t]? = some x ∧ Used x

variable {Used : Transition β → Prop} {bytes : Bytes}

theorem Uses.move {f : Event β ω → Option ExecTicket}
    {r r' : ExecTicketRegistry β} {history : List (Event β ω)} {e : Event β ω}
    (h : Uses f Used ⟨r, history⟩) (once : Once f Used) (m : Move r e r') :
    Uses f Used ⟨r', history ++ [e]⟩ := by
  have hkeep : ∀ t ∈ history.filterMap f, ∃ x, r'.transitions[t]? = some x ∧ Used x := by
    intro t ht
    obtain ⟨x, hx, hu⟩ := h.used t ht
    obtain ⟨x', hx', he⟩ := m.evolves hx
    exact ⟨x', hx', once.keep he hu⟩
  rcases hf : f e with _ | t
  · have hhist : (history ++ [e]).filterMap f = history.filterMap f := by
      simp [hf]
    exact ⟨by simpa only [hhist] using h.nodup, by simpa only [hhist] using hkeep⟩
  · have hhist : (history ++ [e]).filterMap f = history.filterMap f ++ [t] := by
      simp [hf]
    obtain ⟨hfresh, hused⟩ := once.mark m hf
    refine ⟨?_, ?_⟩
    · simp only [hhist]
      refine h.nodup.append (nodup_singleton t) ?_
      rw [disjoint_singleton]
      intro ht
      obtain ⟨x, hx, hu⟩ := h.used t ht
      exact hfresh x hx hu
    · simp only [hhist, mem_append, mem_singleton]
      rintro u (hu | rfl)
      · exact hkeep u hu
      · exact hused

theorem once_minted : Once (Event.minted (β := β) (ω := ω)) fun _ => True where
  mark m hf := by
    cases m with
    | refuse n refused =>
      obtain ⟨error, he⟩ := refused
      simp [Event.minted, he] at hf
    | prepare n opened idle new =>
      obtain rfl := Option.some.inj hf
      refine ⟨fun x hx => ?_, _, by rw [Table.getElem?_insert, if_pos rfl], trivial⟩
      rw [new] at hx
      cases hx
    | update opened entry how => cases how <;> cases hf
    | fail entry live how => cases how <;> cases hf
    | _ => cases hf
  keep _ _ := trivial

/-- A call on an entry uses the ticket if `Used` tells the entry before from the
    entry after. -/
theorem uses_entry {r : ExecTicketRegistry β} {t : ExecTicket}
    {x x' : Transition β} (entry : r.transitions[t]? = some x) (fresh : ¬ Used x) (used : Used x') :
    (∀ x, r.transitions[t]? = some x → ¬ Used x) ∧
      ∃ y, (r.transitions.insert t x')[t]? = some y ∧ Used y := by
  refine ⟨fun y hy => ?_, x', by rw [Table.getElem?_insert, if_pos rfl], used⟩
  obtain rfl := Option.some.inj (entry.symm.trans hy)
  exact fresh

theorem once_stamped : Once (Event.stamped (β := β) (ω := ω)) fun x => x.stateDigest.isSome = true where
  mark m hf := by
    cases m with
    | refuse n refused =>
      obtain ⟨error, he⟩ := refused
      simp [Event.stamped, he] at hf
    | update opened entry how =>
      cases how with
      | stamp watched own stage fresh =>
        obtain rfl := Option.some.inj hf
        exact uses_entry entry (by simp [fresh]) rfl
      | _ => cases hf
    | fail entry live how => cases how <;> cases hf
    | _ => cases hf
  keep he hu := he.stamped hu

theorem once_spent : Once (Event.spent (β := β) (ω := ω))
    fun x => x.stage ≠ .prepared ∧ x.stage ≠ .issued where
  mark m hf := by
    cases m with
    | refuse n refused =>
      obtain ⟨error, he⟩ := refused
      simp [Event.spent, he] at hf
    | update opened entry how =>
      cases how with
      | redeem peer stage =>
        obtain rfl := Option.some.inj hf
        exact uses_entry entry (fun h => h.2 stage) ⟨nofun, nofun⟩
      | _ => cases hf
    | fail entry live how => cases how <;> cases hf
    | _ => cases hf
  keep he hu := he.spent hu.1 hu.2

/-! ## The path of a ticket -/

variable {history : List (Event β ω)} {t : ExecTicket} {x x' : Transition β}

/-- How the ticket came to its entry. -/
def Trail (history : List (Event β ω)) (t : ExecTicket) (x : Transition β) : Prop :=
  match x.stage, x.stateDigest, x.provision with
  | .prepared, none, .fresh => ∃ p : Event β ω,
    p.Prepares (TicketBinding.owner x.binding) t x.tool ∧ [p].Sublist history
  | .prepared, none, .delivered => ∃ p m : Event β ω,
    p.Prepares (TicketBinding.owner x.binding) t x.tool ∧
    m.Marks (TicketBinding.owner x.binding) t ∧ [p, m].Sublist history
  | .prepared, some digest, .fresh => ∃ (p s : Event β ω) (snapshot runtime : Bytes),
    p.Prepares (TicketBinding.owner x.binding) t snapshot ∧
    s.Seals (TicketBinding.owner x.binding) t runtime digest ∧ [p, s].Sublist history ∧
    x.state = snapshot ++ runtime
  | .prepared, some digest, .delivered => ∃ (p s m : Event β ω) (snapshot runtime : Bytes),
    p.Prepares (TicketBinding.owner x.binding) t snapshot ∧
    s.Seals (TicketBinding.owner x.binding) t runtime digest ∧
    m.Marks (TicketBinding.owner x.binding) t ∧
    ([p, s, m].Sublist history ∨ [p, m, s].Sublist history) ∧ x.state = snapshot ++ runtime
  | .issued, _, _ => Authorized history t x.state
  | _, _, _ => True

theorem Authorized.append (h : Authorized history t bytes) (e : Event β ω) :
    Authorized (history ++ [e]) t bytes := by
  obtain ⟨owner, snapshot, runtime, digest, p, s, m, i, hp, hs, hm, hi, h, hb⟩ := h
  exact ⟨owner, snapshot, runtime, digest, p, s, m, i, hp, hs, hm, hi,
    h.imp (·.trans (sublist_append_left _ _)) (·.trans (sublist_append_left _ _)), hb⟩

theorem Trail.append (h : Trail history t x) (e : Event β ω) : Trail (history ++ [e]) t x := by
  have hmono : ∀ {es : List (Event β ω)}, es.Sublist history → es.Sublist (history ++ [e]) :=
    fun h => h.trans (sublist_append_left _ _)
  unfold Trail at *
  split at h
  · obtain ⟨p, hp, h⟩ := h
    exact ⟨p, hp, hmono h⟩
  · obtain ⟨p, m, hp, hm, h⟩ := h
    exact ⟨p, m, hp, hm, hmono h⟩
  · obtain ⟨p, s, snapshot, runtime, hp, hs, h, hb⟩ := h
    exact ⟨p, s, snapshot, runtime, hp, hs, hmono h, hb⟩
  · obtain ⟨p, s, m, snapshot, runtime, hp, hs, hm, h, hb⟩ := h
    exact ⟨p, s, m, snapshot, runtime, hp, hs, hm, h.imp hmono hmono, hb⟩
  · exact h.append e
  · trivial

theorem Trail.update {e : Event β ω} (h : Trail history t x) (how : Update t x e x') :
    Trail (history ++ [e]) t x' := by
  have hsnoc : ∀ {es : List (Event β ω)}, es.Sublist history → (es ++ [e]).Sublist (history ++ [e]) :=
    fun h => h.append (List.Sublist.refl _)
  cases how with
  | @stamp a owner runtimeDigest digest runtime watched own stage fresh =>
    obtain ⟨b, stage', provision, tool, state, stateDigest⟩ := x
    subst own stage fresh
    have hs : Event.Seals (β := β) ⟨.sealTicket (TicketBinding.owner b) t runtimeDigest runtime, a,
        .digest digest⟩ (TicketBinding.owner b) t runtime digest := ⟨_, rfl, rfl, watched⟩
    cases provision with
    | fresh =>
      obtain ⟨p, hp, h⟩ := h
      exact ⟨p, _, _, _, hp, hs, hsnoc h, rfl⟩
    | delivered =>
      obtain ⟨p, m, hp, hm, h⟩ := h
      exact ⟨p, _, m, _, _, hp, hs, hm, .inr (hsnoc h), rfl⟩
  | @mark a owner watched own stage =>
    obtain ⟨b, stage', provision, tool, state, stateDigest⟩ := x
    subst own stage
    have hm : Event.Marks (β := β) ⟨.markProvisionDelivered (TicketBinding.owner b) t, a, .done⟩
        (TicketBinding.owner b) t := ⟨rfl, rfl, watched⟩
    cases provision with
    | fresh =>
      cases stateDigest with
      | none =>
        obtain ⟨p, hp, h⟩ := h
        exact ⟨p, _, hp, hm, hsnoc h⟩
      | some digest =>
        obtain ⟨p, s, snapshot, runtime, hp, hs, h, hb⟩ := h
        exact ⟨p, s, _, snapshot, runtime, hp, hs, hm, .inl (hsnoc h), hb⟩
    | delivered => exact h.append _
  | @issue a owner digest watched own stage stamped delivered =>
    obtain ⟨b, stage', provision, tool, state, stateDigest⟩ := x
    subst own stage stamped delivered
    obtain ⟨p, s, m, snapshot, runtime, hp, hs, hm, h, hb⟩ := h
    exact ⟨_, snapshot, runtime, digest, p, s, m, _, hp, hs, hm, ⟨rfl, rfl, watched⟩,
      h.imp hsnoc hsnoc, hb⟩
  | _ => trivial

theorem Move.trail {r r' : ExecTicketRegistry β} {e : Event β ω} (m : Move r e r')
    (h : ∀ t x, r.transitions[t]? = some x → Trail history t x)
    (hx : r'.transitions[t]? = some x') : Trail (history ++ [e]) t x' := by
  cases m with
  | refuse n => exact (h t x' hx).append e
  | look => exact (h t x' hx).append _
  | prepare n opened idle new watched own =>
    rw [Table.getElem?_insert] at hx
    split_ifs at hx with ht
    · subst ht own
      obtain rfl := Option.some.inj hx
      exact ⟨_, ⟨_, _, rfl, rfl, watched, rfl⟩, sublist_append_right _ _⟩
    · exact (h t x' hx).append _
  | update opened entry how =>
    rw [Table.getElem?_insert] at hx
    split_ifs at hx with ht
    · subst ht
      obtain rfl := Option.some.inj hx
      exact (h _ _ entry).update how
    · exact (h t x' hx).append _
  | fail entry live how =>
    rw [Table.getElem?_insert] at hx
    split_ifs at hx with ht
    · obtain rfl := Option.some.inj hx
      trivial
    · exact (h t x' hx).append _
  | die =>
    simp only [Std.TreeMap.getElem?_map, map_eq_some_iff] at hx
    obtain ⟨y, hy, rfl⟩ := hx
    split_ifs with hlive
    · trivial
    · exact (h t y hy).append _

/-- A successful redemption is of an issued ticket, for a matching peer. -/
theorem Move.redeems {r r' : ExecTicketRegistry β} {e : Event β ω}
    (m : Move r e r') (h : e.Redeems t bytes) : e.answers.matchesPeer = true ∧
      ∃ x, r.transitions[t]? = some x ∧ x.stage = .issued ∧ x.state = bytes := by
  obtain ⟨configDigest, stateDigest, hcall, hresponse⟩ := h
  cases m with
  | refuse n refused =>
    obtain ⟨error, he⟩ := refused
    rw [he] at hresponse
    cases hresponse
  | update opened entry how =>
    cases how with
    | redeem peer stage =>
      cases hcall
      cases hresponse
      exact ⟨peer, _, entry, stage, rfl⟩
    | _ => cases hcall
  | fail entry live how => cases how <;> cases hcall
  | _ => cases hcall

/-! ## The invariant -/

/-- What a history leaves in the registry. -/
structure Inv (l : Log β ω) : Prop where
  minted : Uses Event.minted (fun _ => True) l
  stamped : Uses Event.stamped (fun x => x.stateDigest.isSome = true) l
  spent : Uses Event.spent (fun x => x.stage ≠ .prepared ∧ x.stage ≠ .issued) l
  single : ∀ (t u : ExecTicket) (x y : Transition β), l.registry.transitions[t]? = some x →
    l.registry.transitions[u]? = some y → x.stage.live = true → y.stage.live = true → t = u
  trail : ∀ (t : ExecTicket) (x : Transition β), l.registry.transitions[t]? = some x →
    Trail l.history t x
  redeems : ∀ before e after t bytes, l.history = before ++ e :: after → e.Redeems t bytes →
    e.answers.matchesPeer = true ∧ Authorized before t bytes
  idle : ¬ l.registry.Open → l.registry.Idle
  died : ∀ e ∈ l.history, e.call = .died → ¬ l.registry.Open
  failed : ∀ (t : ExecTicket) (x : Transition β), l.registry.transitions[t]? = some x →
    x.stage = .failed → ¬ l.registry.Open

theorem Inv.fresh (nonce : Digest) : Inv (⟨.fresh nonce, []⟩ : Log β ω) where
  minted := ⟨nodup_nil, nofun⟩
  stamped := ⟨nodup_nil, nofun⟩
  spent := ⟨nodup_nil, nofun⟩
  single t u x y hx := by simp [ExecTicketRegistry.fresh] at hx
  trail t x hx := by simp [ExecTicketRegistry.fresh] at hx
  redeems before e after t bytes h := by simp at h
  idle h := absurd ⟨rfl, rfl⟩ h
  died := nofun
  failed t x hx := by simp [ExecTicketRegistry.fresh] at hx

variable {r r' : ExecTicketRegistry β} {e : Event β ω}

variable (h : Inv ⟨r, history⟩)
include h

variable (m : Move r e r')
include m

theorem Inv.single_move {t u : ExecTicket}
    {x y : Transition β} (hx : r'.transitions[t]? = some x) (hy : r'.transitions[u]? = some y)
    (hlx : x.stage.live = true) (hly : y.stage.live = true) : t = u := by
  rcases m.live hx hlx with ⟨x', hx', hlx'⟩ | ⟨hidle, ht⟩
  · rcases m.live hy hly with ⟨y', hy', hly'⟩ | ⟨hidle, hu⟩
    · exact h.single t u x' y' hx' hy' hlx' hly'
    · rw [hidle t x' hx'] at hlx'
      cases hlx'
  · rcases m.live hy hly with ⟨y', hy', hly'⟩ | ⟨-, hu⟩
    · rw [hidle u y' hy'] at hly'
      cases hly'
    · exact Option.some.inj (ht.symm.trans hu)

theorem Inv.idle_move (hclosed : ¬ r'.Open) : r'.Idle := by
  cases m with
  | refuse n => exact h.idle hclosed
  | look opened => exact absurd opened hclosed
  | prepare n opened => exact absurd opened hclosed
  | update opened => exact absurd opened hclosed
  | fail entry live how =>
    intro u y hy
    rw [Table.getElem?_insert] at hy
    split_ifs at hy with hu
    · obtain rfl := Option.some.inj hy
      rfl
    · by_contra hlive
      exact hu (h.single _ u _ y entry hy live (by simpa using hlive))
  | die =>
    intro u y hy
    simp only [Std.TreeMap.getElem?_map, map_eq_some_iff] at hy
    obtain ⟨x, hx, rfl⟩ := hy
    split_ifs with hlive
    · rfl
    · simpa using hlive

theorem Inv.redeems_move {before after : List (Event β ω)}
    {e' : Event β ω} (hh : history ++ [e] = before ++ e' :: after)
    (hr : e'.Redeems t bytes) : e'.answers.matchesPeer = true ∧ Authorized before t bytes := by
  rcases eq_nil_or_concat after with rfl | ⟨after', last, rfl⟩
  · obtain ⟨rfl, he⟩ := append_inj' hh rfl
    obtain rfl : e = e' := by simpa using he
    obtain ⟨hpeer, x, hx, hstage, rfl⟩ := m.redeems hr
    have htrail := h.trail t x hx
    unfold Trail at htrail
    rw [hstage] at htrail
    exact ⟨hpeer, htrail⟩
  · rw [concat_eq_append, ← cons_append, ← append_assoc] at hh
    exact h.redeems before e' after' t bytes (append_inj' hh rfl).1 hr

theorem Inv.failed_move
    (hx : r'.transitions[t]? = some x') (hfailed : x'.stage = .failed) : ¬ r'.Open := by
  have hkept : ∀ x, r.transitions[t]? = some x → x.stage = .failed → ¬ r'.Open := fun x hx hs =>
    m.closed (h.failed t x hx hs)
  cases m with
  | refuse n => exact hkept x' hx hfailed
  | look => exact hkept x' hx hfailed
  | prepare n =>
    rw [Table.getElem?_insert] at hx
    split_ifs at hx
    · obtain rfl := Option.some.inj hx
      cases hfailed
    · exact hkept x' hx hfailed
  | update opened entry how =>
    rw [Table.getElem?_insert] at hx
    split_ifs at hx
    · obtain rfl := Option.some.inj hx
      cases how <;> simp_all
    · exact hkept x' hx hfailed
  | fail => exact fun hopen => absurd hopen.2 (by simp)
  | die => exact fun hopen => absurd hopen.1 (by simp)

theorem Inv.move : Inv ⟨r', history ++ [e]⟩ where
  minted := h.minted.move once_minted m
  stamped := h.stamped.move once_stamped m
  spent := h.spent.move once_spent m
  single _ _ _ _ := h.single_move m
  trail _ _ := m.trail h.trail
  redeems _ _ _ _ _ := h.redeems_move m
  idle := h.idle_move m
  died e' he hdied := by
    rcases mem_append.1 he with he | he
    · exact m.closed (h.died e' he hdied)
    · obtain rfl := mem_singleton.1 he
      cases m with
      | refuse n refused alive => exact absurd hdied alive
      | update opened entry how => cases how <;> cases hdied
      | fail entry live how => cases how <;> cases hdied
      | die => exact fun hopen => absurd hopen.1 (by simp)
      | _ => cases hdied
  failed _ _ := h.failed_move m

end

/-! ## Runs -/

section
variable {β ω : Type} [TicketBinding β ω] [DecidableEq ω] (sha256 : Bytes → Digest)
variable {l : Log β ω}

theorem Inv.step (h : Inv l) (c : Call β ω × Answers ω) : Inv (l.step sha256 c) := by
  obtain ⟨e, he, m⟩ := l.step_move sha256 c
  have hl : l.step sha256 c = ⟨(l.step sha256 c).registry, l.history ++ [e]⟩ := by rw [← he]
  rw [hl]
  exact Inv.move h m

theorem Inv.steps (h : Inv l) (calls : List (Call β ω × Answers ω)) :
    Inv (calls.foldl (Log.step sha256) l) := by
  induction calls generalizing l with
  | nil => exact h
  | cons c calls ih => exact ih (h.step sha256 c)

theorem run_inv (nonce : Digest) (calls : List (Call β ω × Answers ω)) :
    Inv (run sha256 nonce calls) := (Inv.fresh nonce).steps sha256 calls

theorem steps_ended {t : ExecTicket} {x : Transition β}
    (calls : List (Call β ω × Answers ω)) (hx : l.registry.transitions[t]? = some x)
    (hended : x.stage.live = false) :
    ∃ x', (calls.foldl (Log.step sha256) l).registry.transitions[t]? = some x' ∧
      x'.stage = x.stage := by
  induction calls generalizing l x with
  | nil => exact ⟨x, hx, rfl⟩
  | cons c calls ih =>
    obtain ⟨e, -, m⟩ := l.step_move sha256 c
    obtain ⟨y, hy, hev⟩ := m.evolves hx
    obtain ⟨x', hx', hstage⟩ := ih hy (by rw [hev.ended hended, hended])
    exact ⟨x', hx', hstage.trans (hev.ended hended)⟩

theorem steps_barred (h : Inv l) (hclosed : ¬ l.registry.Open)
    (calls : List (Call β ω × Answers ω)) :
    ∃ rest, (calls.foldl (Log.step sha256) l).history = l.history ++ rest ∧
      ∀ e ∈ rest, e.call = .died ∨ e.Refused := by
  induction calls generalizing l with
  | nil => exact ⟨[], by simp, nofun⟩
  | cons c calls ih =>
    obtain ⟨e, he, m⟩ := l.step_move sha256 c
    obtain ⟨rest, hrest, hall⟩ := ih (h.step sha256 c) (m.closed hclosed)
    refine ⟨e :: rest, by rw [foldl_cons, hrest, he]; simp, ?_⟩
    rintro e' he'
    rcases mem_cons.1 he' with rfl | he'
    · exact m.barred hclosed (h.idle hclosed)
    · exact hall e' he'

/-- **Exec tickets are linear.**  After any sequence of calls: `prepare` has minted
    every ticket once, a ticket was sealed and redeemed at most once, at most one is
    live; every redemption was for a matching peer, at the end of the whole path
    of its ticket, and returned the snapshot with the runtime.  Afterwards, a ticket
    stays in an end stage, and once there was a death or a failed ticket, no call
    succeeds. -/
theorem exec_ticket_linear (nonce : Digest) (calls later : List (Call β ω × Answers ω)) :
    let l := run sha256 nonce calls
    let l' := run sha256 nonce (calls ++ later)
    (l.history.filterMap Event.minted).Nodup ∧ (l.history.filterMap Event.stamped).Nodup ∧
    (l.history.filterMap Event.spent).Nodup ∧
    (∀ t u s s', l.registry.stage t = some s → l.registry.stage u = some s' →
      s.live = true → s'.live = true → t = u) ∧
    (∀ before e after t bytes, l.history = before ++ e :: after → e.Redeems t bytes →
      e.answers.matchesPeer = true ∧ Authorized before t bytes) ∧
    (∀ t s, l.registry.stage t = some s → s.live = false → l'.registry.stage t = some s) ∧
    ((∃ e ∈ l.history, e.call = .died) ∨ (∃ t, l.registry.stage t = some .failed) →
      ∃ rest, l'.history = l.history ++ rest ∧ ∀ e ∈ rest, e.call = .died ∨ e.Refused) := by
  intro l l'
  have h : Inv l := run_inv sha256 nonce calls
  have hl' : l' = later.foldl (Log.step sha256) l := foldl_append
  simp only [ExecTicketRegistry.stage, map_eq_some_iff]
  refine ⟨h.minted.nodup, h.stamped.nodup, h.spent.nodup, ?_, h.redeems, ?_, ?_⟩
  · rintro t u _ _ ⟨x, hx, rfl⟩ ⟨y, hy, rfl⟩
    exact h.single t u x y hx hy
  · rintro t _ ⟨x, hx, rfl⟩ hended
    rw [hl']
    exact steps_ended sha256 later hx hended
  · intro hend
    rw [hl']
    refine steps_barred sha256 h ?_ later
    rcases hend with ⟨e, he, hdied⟩ | ⟨t, x, hx, hfailed⟩
    · exact h.died e he hdied
    · exact h.failed t x hx hfailed

end

end Reverie.ExecTicket
