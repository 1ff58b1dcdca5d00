/-
  Calls that are refused.  They leave nothing behind, but for a completion that does not
  qualify, which makes its ticket fail, and for a `prepare` whose ticket is taken, which has
  used up a number.  Main theorem: `refused_without_effect`.
-/
import Reverie.ExecTicket.Linearity

namespace Reverie.ExecTicket
open Ensures (refuse_bind)

section
variable {β ω : Type}

def Call.ticket : Call β ω → Option ExecTicket
  | .prepare .. | .died => none
  | .sealTicket _ ticket _ _ | .markProvisionDelivered _ ticket | .issue _ ticket _
  | .issuedBinding ticket | .redeem ticket _ _ | .cancel _ ticket | .complete _ ticket
  | .failed ticket => some ticket

/-- The registry that a refused call leaves. -/
inductive Refusal (sha256 : Bytes → Digest) (r : ExecTicketRegistry β) (a : Answers ω) :
    Call β ω → ExecControlError → ExecTicketRegistry β → Prop where
  | unchanged {c : Call β ω} {e : ExecControlError} : Refusal sha256 r a c e r
  | unqualified {owner : ω} {t : ExecTicket} {x : Transition β}
      (entry : r.transitions[t]? = some x) (stage : x.stage = .redeemed)
      (answer : a.qualifyCompletion = false) :
      Refusal sha256 r a (.complete owner t) .qualification { r with
        transitions := r.transitions.insert t { x with stage := .failed, tool := [], state := [] }
        terminalFailure := true }
  | collision {owner : ω} {b : β} {snapshot : Bytes} {digest : Digest}
      (taken : r.transitions.contains (sha256 (ticketBytes r.nonce r.nextTicket)) = true) :
      Refusal sha256 r a (.prepare owner b snapshot digest) .transition
        { r with nextTicket := r.nextTicket + 1 }

end

/-! ## Refusals -/

section
variable {β ω : Type} [TicketBinding β ω] [DecidableEq ω] {sha256 : Bytes → Digest}
  {r r' : ExecTicketRegistry β} {a : Answers ω} {e : Event β ω} {t u : ExecTicket}

theorem prepare_refusal (owner : ω) (b : β) (snapshot : Bytes) (digest : Digest) :
    Ensures (prepare sha256 a owner b snapshot digest) r (fun _ _ => True)
      (Refusal sha256 r a (.prepare owner b snapshot digest)) := by
  refine checkOwner_bind (fun _ => .unchanged) fun _ _ => ?_
  refine refuse_bind (fun _ => .unchanged) fun _ => Ensures.get_bind ?_
  refine refuse_bind (fun _ => .unchanged) fun _ => ?_
  refine refuse_bind (fun _ => .unchanged) fun _ => ?_
  refine refuse_bind (fun _ => .unchanged) fun _ => ?_
  refine refuse_bind (fun _ => .unchanged) fun _ => ?_
  refine refuse_bind (fun _ => .unchanged) fun _ => ?_
  refine refuse_bind (fun _ => .unchanged) fun _ => Ensures.set_bind ?_
  -- the number is used up before the ticket is looked up
  exact refuse_bind (fun htaken => .collision htaken) fun _ => trivial

theorem sealTicket_refusal (owner : ω) (t : ExecTicket) (digest : Digest) (runtime : Bytes) :
    Ensures (sealTicket sha256 a owner t digest runtime) r (fun _ _ => True)
      (Refusal sha256 r a (.sealTicket owner t digest runtime)) := by
  refine checkOwner_bind (fun _ => .unchanged) fun _ _ => ?_
  refine refuse_bind (fun _ => .unchanged) fun _ => ?_
  refine refuse_bind (fun _ => .unchanged) fun _ => ?_
  refine refuse_bind (fun _ => .unchanged) fun _ => ?_
  refine transaction_bind (fun _ => .unchanged) fun _ _ _ _ _ => ?_
  refine refuse_bind (fun _ => .unchanged) fun _ => ?_
  exact refuse_bind (fun _ => .unchanged) fun _ => trivial

theorem complete_refusal (owner : ω) (t : ExecTicket) :
    Ensures (complete a owner t) r (fun _ _ => True)
      (Refusal sha256 r a (.complete owner t)) := by
  refine transaction_bind (fun _ => .unchanged) fun x _ _ hx _ => ?_
  refine refuse_bind (fun _ => .unchanged) fun hstage => ?_
  by_cases hq : a.qualifyCompletion = false
  · rw [if_pos hq]
    refine Ensures.bind (failed_ensures (fun _ => .unchanged) fun y hy _ => ?_) fun _ _ h => h
    obtain rfl := Option.some.inj (hx.symm.trans hy)
    exact .unqualified hx (not_not.1 hstage) hq
  · rw [if_neg hq]
    exact trivial

/-- A refused call leaves the registry as it was, but for the two exceptions. -/
theorem Call.exec_refusal (sha256 : Bytes → Digest) (r : ExecTicketRegistry β) (a : Answers ω)
    (c : Call β ω) : Ensures (c.exec sha256 a) r (fun _ _ => True) (Refusal sha256 r a c) := by
  cases c with
  | prepare owner b snapshot digest => exact Ensures.map (prepare_refusal owner b snapshot digest)
  | sealTicket owner t digest runtime => exact Ensures.map (sealTicket_refusal owner t digest runtime)
  | markProvisionDelivered owner t =>
    refine Ensures.map (transaction_bind (fun _ => .unchanged) fun _ _ _ _ _ => ?_)
    exact refuse_bind (fun _ => .unchanged) fun _ => trivial
  | issue owner t digest =>
    refine Ensures.map (transaction_bind (fun _ => .unchanged) fun _ _ _ _ _ => ?_)
    exact refuse_bind (fun _ => .unchanged) fun _ => trivial
  | issuedBinding t =>
    exact Ensures.map (issuedEntry_bind (fun _ => .unchanged) fun _ _ _ _ _ => trivial)
  | redeem t configDigest stateDigest =>
    refine Ensures.map (issuedEntry_bind (fun _ => .unchanged) fun _ _ _ _ _ => ?_)
    exact refuse_bind (fun _ => .unchanged) fun _ => trivial
  | cancel owner t =>
    refine Ensures.map (transaction_bind (fun _ => .unchanged) fun _ _ _ _ _ => ?_)
    exact refuse_bind (fun _ => .unchanged) fun _ => trivial
  | complete owner t => exact Ensures.map (complete_refusal owner t)
  | failed t => exact Ensures.map (failed_ensures (fun _ => .unchanged) fun _ _ _ => trivial)
  | died => exact trivial

/-! ## Other tickets -/

omit [DecidableEq ω] in
theorem Update.ticket {x x' : Transition β} (h : Update t x e x') : e.call.ticket = some t := by
  cases h <;> rfl

omit [TicketBinding β ω] [DecidableEq ω] in
theorem Event.Fails.ticket (h : e.Fails t) : e.call.ticket = some t := by
  cases h <;> rfl

omit [DecidableEq ω] in
theorem Move.frame (m : Move r e r') (ht : e.call.ticket = some t) (hu : u ≠ t) :
    r'.transitions[u]? = r.transitions[u]? := by
  cases m with
  | refuse n => rfl
  | look => rfl
  | prepare n => cases ht
  | update opened entry how =>
    obtain rfl := Option.some.inj (how.ticket.symm.trans ht)
    rw [Table.getElem?_insert, if_neg hu.symm]
  | fail entry live how =>
    obtain rfl := Option.some.inj (how.ticket.symm.trans ht)
    rw [Table.getElem?_insert, if_neg hu.symm]
  | die => cases ht

omit [DecidableEq ω] in
/-- A call without a ticket, other than `died`, changes no entry that there is. -/
theorem Move.keeps (m : Move r e r') (ht : e.call.ticket = none) (hdied : e.call ≠ .died)
    {x : Transition β} (hx : r.transitions[u]? = some x) : r'.transitions[u]? = some x := by
  cases m with
  | refuse n => exact hx
  | look => exact hx
  | prepare n opened idle new =>
    rw [Table.getElem?_insert, if_neg, hx]
    rintro rfl
    rw [new] at hx
    cases hx
  | update opened entry how => cases how.ticket.symm.trans ht
  | fail entry live how => cases how.ticket.symm.trans ht
  | die => exact absurd rfl hdied

/-- The registry after a call, whether it was refused or not. -/
def Call.after (sha256 : Bytes → Digest) (a : Answers ω) (c : Call β ω) (r : ExecTicketRegistry β) :
    ExecTicketRegistry β :=
  match c.exec sha256 a r with
  | .ok _ r' => r'
  | .error _ r' => r'

theorem Call.after_move (sha256 : Bytes → Digest) (r : ExecTicketRegistry β) (a : Answers ω)
    (c : Call β ω) : ∃ response, Move r ⟨c, a, response⟩ (c.after sha256 a r) := by
  have h := c.exec_moves sha256 r a
  unfold Call.Moves Ensures at h
  unfold Call.after
  rcases hx : c.exec sha256 a r with ⟨response, r'⟩ | ⟨e, r'⟩
  · rw [hx] at h
    exact ⟨response, h⟩
  · rw [hx] at h
    exact ⟨.refused e, h⟩

/-- **Refused calls have no effect.**  From any registry, a call that is refused leaves it
    as it was, except for a completion that does not qualify, which moves exactly its ticket
    to `failed`, drops the bytes and sets the failure of the registry, and for a `prepare`
    whose ticket is taken, which advances the ticket number.  A call that names a ticket
    changes the record of no other, and `prepare` changes none that there is. -/
theorem refused_without_effect (sha256 : Bytes → Digest) (r : ExecTicketRegistry β)
    (a : Answers ω) (c : Call β ω) :
    (∀ e r', c.exec sha256 a r = .error e r' → Refusal sha256 r a c e r') ∧
    (∀ t, c.ticket = some t → ∀ u, u ≠ t →
      (c.after sha256 a r).transitions[u]? = r.transitions[u]?) ∧
    (c.ticket = none → c ≠ .died → ∀ (u : ExecTicket) (x : Transition β),
      r.transitions[u]? = some x → (c.after sha256 a r).transitions[u]? = some x) := by
  obtain ⟨response, hmove⟩ := c.after_move sha256 r a
  refine ⟨fun e r' herror => ?_, fun t ht u hu => ?_, fun ht hdied u x hx => ?_⟩
  · exact (c.exec_refusal sha256 r a).of_error herror
  · exact hmove.frame ht hu
  · exact hmove.keeps ht hdied hx

end

section

local instance : TicketBinding Unit Unit := ⟨id, fun _ => Vector.replicate 32 0⟩

/-- A redeemed ticket whose completion does not qualify. -/
theorem refused_without_effect_unqualified :
    let zero : Digest := Vector.replicate 32 0
    let x : Transition Unit := ⟨(), .redeemed, .delivered, [], [], some zero⟩
    let r : ExecTicketRegistry Unit := ⟨zero, 2, Std.TreeMap.ofList [(zero, x)], false, false⟩
    let a : Answers Unit := ⟨(), (), true, true, true, false⟩
    ∃ r', (Call.complete () zero).exec (fun _ => zero) a r = .error .qualification r' ∧
      Refusal (fun _ => zero) r a (.complete () zero) .qualification r' ∧
      r'.stage zero = some .failed := by
  intro zero x r a
  have heval : (match (Call.complete () zero).exec (fun _ => zero) a r with
      | .ok _ _ => false
      | .error e r' => decide (e = .qualification ∧ r'.stage zero = some .failed)) = true := by
    decide +kernel
  rcases hexec : (Call.complete () zero).exec (fun _ => zero) a r with ⟨response, r'⟩ | ⟨e, r'⟩
  · rw [hexec] at heval
    cases heval
  · rw [hexec] at heval
    obtain ⟨rfl, hstage⟩ := of_decide_eq_true heval
    exact ⟨r', rfl, (refused_without_effect (fun _ => zero) r a _).1 _ _ hexec, hstage⟩

end

end Reverie.ExecTicket
