/-
  The repair of a trap restores the truth (`segv_repair_restores`).  A forced SIGSEGV resets a
  blocked or ignored one (`Signals.force`); records may be missing, but what is recorded is
  right (`Recorded`, `Correct`).
-/
import Reverie.SegvState.Repair

namespace Reverie.SegvState
open Option

/-! ## The kernel -/

/-- The state of SIGSEGV: its bit in the mask, and its action. -/
structure Signals where
  blocked : Bool
  action : KernelSigaction

/-- `force_sig_info_to_task`, for a fault. -/
def Signals.force (s : Signals) : Signals :=
  if s.blocked ∨ s.action.ignored then ⟨false, s.action.resetOf⟩ else s

/-- How the guest was resumed: under its own mask, or with a signal delivered, whose
    action was `action`, while the kernel blocked `blocked` and the return would
    restore `saved`. -/
inductive Resume where
  | quiet (mask : BitVec 64)
  | delivered (signal : ℕ) (action : KernelSigaction) (blocked saved : BitVec 64)

/-- The mask that the guest runs under (`signal_delivered`). -/
def Resume.mask : Resume → BitVec 64
  | .quiet mask => mask
  | .delivered signal action blocked saved =>
    if action.caught then
      blocked ||| action.mask |||
        if has action.flags SA_NODEFER then 0 else signalBit signal
    else saved

/-- SIGSEGV's bit in the mask. -/
def Resume.blocks (r : Resume) : Bool := has r.mask SIGSEGV_BIT

/-- The delivered signal's action after the delivery (`get_signal`). -/
def Resume.action : Resume → Option KernelSigaction
  | .quiet _ => none
  | .delivered _ action _ _ =>
    some (if action.caught ∧ has action.flags SA_RESETHAND
      then { action with handler := SIG_DFL } else action)

def SegvRepair.apply (repair : SegvRepair) (s : Signals) : Signals :=
  ⟨repair.block || s.blocked, repair.write.getD s.action⟩

/-! ## Records -/

/-- What is recorded is right; it may be missing. -/
def Correct {α : Type} (record : Option α) (truth : α) : Prop := ∀ a, record = some a → a = truth

/-- What is recorded of a resume is right. -/
inductive Recorded : Resume → SignalRun → Prop where
  | unknown {r : Resume} : Recorded r .unknown
  | known {r : Resume} : Recorded r (.known r.blocks)
  | delivered {signal : ℕ} {action : KernelSigaction} {blocked saved : BitVec 64}
      (valid : 1 ≤ signal ∧ signal ≤ 64) (other : signal ≠ SIGSEGV) :
      Recorded (.delivered signal action blocked saved)
        (.delivered signal (has blocked SIGSEGV_BIT) (has saved SIGSEGV_BIT))

section
variable {a b bit : BitVec 64} {x y : KernelSigaction} {s : Signals}

theorem has_or : has (a ||| b) bit = (has a bit || has b bit) := by
  have hzero : (a ||| b) &&& bit = 0 ↔ a &&& bit = 0 ∧ b &&& bit = 0 := by
    rw [BitVec.and_or_distrib_right]
    exact BitVec.or_eq_zero_iff
  simp only [has, ne_eq, hzero]
  by_cases ha : a &&& bit = 0 <;> simp [ha]

theorem has_signalBit {signal : ℕ} (valid : 1 ≤ signal ∧ signal ≤ 64) :
    has (signalBit signal) SIGSEGV_BIT = decide (signal = SIGSEGV) := by
  have hall : ∀ n : Fin 65, 1 ≤ n.val →
      has (signalBit n.val) SIGSEGV_BIT = decide (n.val = SIGSEGV) := by decide
  exact hall ⟨signal, by omega⟩ valid.1

theorem resetOf_eq_iff : x.resetOf = x ↔ x.handler = SIG_DFL := by
  constructor
  · intro h
    rw [← h]
    rfl
  · intro h
    simp only [KernelSigaction.resetOf, ← h]

theorem caught_iff : x.caught = true ↔ x.handler ≠ SIG_DFL ∧ x.ignored = false := by
  simp [KernelSigaction.caught]

/-- What the trap leaves is neither caught nor ignored, unless it left everything. -/
theorem force_blocked : s.force.blocked = false := by
  unfold Signals.force
  split_ifs with h
  · rfl
  · simpa using fun hb => h (.inl hb)

theorem force_of_not (hb : s.blocked = false) (hi : s.action.ignored = false) : s.force = s := by
  unfold Signals.force
  simp [hb, hi]

theorem force_action (h : s.blocked = true ∨ s.action.ignored = true) :
    s.force.action = s.action.resetOf := by
  unfold Signals.force
  rw [if_pos h]

theorem force_action_default (h : s.action.handler = SIG_DFL) : s.force.action = s.action := by
  unfold Signals.force
  split_ifs
  · exact resetOf_eq_iff.2 h
  · rfl

end

/-! ## The bit before the trap -/

section
variable {r : Resume} {run : SignalRun} {read : Option KernelSigaction}

theorem blocks_delivered {signal : ℕ} {action : KernelSigaction} {blocked saved : BitVec 64}
    (valid : 1 ≤ signal ∧ signal ≤ 64) :
    (Resume.delivered signal action blocked saved).blocks =
      if action.caught then
        has blocked SIGSEGV_BIT || has action.mask SIGSEGV_BIT ||
          (!has action.flags SA_NODEFER && decide (signal = SIGSEGV))
      else has saved SIGSEGV_BIT := by
  simp only [Resume.blocks, Resume.mask]
  split_ifs with hcaught hnodefer
  · rw [has_or, has_or, hnodefer]
    simp [has]
  · rw [has_or, has_or, has_signalBit valid]
    simp [hnodefer]
  · rfl

/-- **`resolve` reports the bit that the guest ran under**, or nothing. -/
theorem resolve_correct (hrun : Recorded r run) (hread : ∀ a, read = some a → r.action = some a)
    (now : BitVec 64) : Correct (run.resolve SIGSEGV_BIT now read) r.blocks := by
  intro b hb
  unfold SignalRun.resolve at hb
  split_ifs at hb
  cases hrun with
  | unknown => cases hb
  | known => exact (Option.some.inj hb).symm
  | @delivered signal action blocked saved valid other =>
    rw [blocks_delivered valid]
    rcases read with _ | a
    · -- not read: both ways of resuming block it
      simp only at hb
      split_ifs at hb with hboth
      obtain ⟨hblocked, hsaved⟩ := Bool.and_eq_true_iff.1 hboth
      simp [hblocked, hsaved, ← Option.some.inj hb]
    · have ha := hread a rfl
      simp only [Resume.action, Option.some.injEq] at ha
      simp only [other, decide_false, Bool.and_false, Bool.or_false]
      by_cases hreset : action.caught = true ∧ has action.flags SA_RESETHAND = true
      · -- the delivery reset a handler, and kept its mask and flags
        rw [if_pos hreset] at ha
        subst ha
        have hdefault : KernelSigaction.caught { action with handler := SIG_DFL } = false := rfl
        have hnot : KernelSigaction.ignored { action with handler := SIG_DFL } = false := rfl
        simp only [hdefault, hnot, hreset.1, hreset.2, Bool.false_eq_true, if_false, if_true] at hb ⊢
        split_ifs at hb with heq
        rw [heq, Option.some.inj hb]
      · rw [if_neg hreset] at ha
        subst ha
        by_cases hcaught : action.caught = true
        · simp only [hcaught] at hb ⊢
          exact (Option.some.inj hb).symm
        · simp only [hcaught, Bool.false_eq_true, if_false] at hb ⊢
          split_ifs at hb <;> exact (Option.some.inj hb).symm

theorem afterSegvDelivery_recorded {before : Option KernelSigaction} {action : KernelSigaction}
    (hbefore : Correct before action) (blocked saved : BitVec 64) :
    Recorded (.delivered SIGSEGV action blocked saved)
        (.afterSegvDelivery before (has blocked SIGSEGV_BIT) (has saved SIGSEGV_BIT)) ∧
      ∀ a, before.map KernelSigaction.afterDelivery = some a →
        (Resume.delivered SIGSEGV action blocked saved).action = some a := by
  constructor
  · rcases before with _ | x
    · exact .unknown
    · obtain rfl := hbefore x rfl
      have hrun : SignalRun.afterSegvDelivery (some x) (has blocked SIGSEGV_BIT)
          (has saved SIGSEGV_BIT) =
          .known (Resume.delivered SIGSEGV x blocked saved).blocks := by
        rw [blocks_delivered (by decide)]
        simp only [SignalRun.afterSegvDelivery, decide_true, Bool.and_true]
        split_ifs <;> rfl
      rw [hrun]
      exact .known
  · intro a ha
    obtain ⟨x, hx, rfl⟩ := map_eq_some_iff.1 ha
    obtain rfl := hbefore x hx
    rfl

end

/-! ## The repair -/

section
variable {s : Signals} {blocked reset : Option Bool} {before now write : Option KernelSigaction}

theorem repairBlocked_correct (hblocked : Correct blocked s.blocked) (hbefore : Correct before s.action)
    (hnow : Correct now s.force.action) : Correct (repairBlocked blocked before now) s.blocked := by
  intro b hb
  rcases blocked with _ | blocked
  · rcases before with _ | x
    · cases hb
    · rcases now with _ | y
      · cases hb
      · -- the reset of a caught action tells whether SIGSEGV was blocked
        obtain rfl := hbefore x rfl
        obtain rfl := hnow y rfl
        simp only [repairBlocked] at hb
        split_ifs at hb with hcaught hreset hsame
        · obtain rfl := Option.some.inj hb
          cases hs : s.blocked with
          | true => rfl
          | false =>
            rw [force_of_not hs (caught_iff.1 hcaught).2] at hreset
            exact absurd (resetOf_eq_iff.1 hreset.symm) (caught_iff.1 hcaught).1
        · obtain rfl := Option.some.inj hb
          cases hs : s.blocked with
          | true => exact absurd (force_action (.inl hs)) hreset
          | false => rfl
  · exact hblocked b hb

theorem repairReset_correct (hblocked : Correct blocked s.blocked) (hbefore : Correct before s.action) :
    Correct (repairReset blocked before) (s.blocked || s.action.ignored) := by
  intro b hb
  rcases before with _ | x
  · rcases blocked with _ | _ <;> cases hb
  · obtain rfl := hbefore x rfl
    simp only [repairReset] at hb
    split_ifs at hb with hignored
    · simp [hignored, ← Option.some.inj hb]
    · simp [hignored, hblocked b hb]

theorem repairWrite_correct {a : KernelSigaction}
    (hreset : Correct reset (s.blocked || s.action.ignored)) (hbefore : Correct before s.action)
    (hnow : Correct now s.force.action) (h : repairWrite reset before now = some a) :
    a = s.action ∧ (s.blocked = true ∨ s.action.ignored = true) ∧ s.force.action ≠ s.action := by
  rcases reset with _ | _ | _
  · cases h
  · cases h
  · rcases before with _ | x
    · cases h
    · rcases now with _ | y
      · cases h
      · obtain rfl := hbefore x rfl
        obtain rfl := hnow y rfl
        simp only [repairWrite] at h
        split_ifs at h with hdiffers
        refine ⟨(Option.some.inj h).symm, ?_, fun heq => hdiffers.1 (by rw [heq])⟩
        have hor := hreset true rfl
        exact Bool.or_eq_true_iff.1 hor.symm

theorem repairAfter_correct {a : KernelSigaction}
    (hreset : Correct reset (s.blocked || s.action.ignored)) (hbefore : Correct before s.action)
    (hnow : Correct now s.force.action) (hdefault : ∀ x, now = some x → x.handler = SIG_DFL)
    (h : repairAfter reset (repairWrite reset before now) before now = some a) :
    a = s.action ∧ (repairWrite reset before now).getD s.force.action = s.action := by
  have hwrite : ∀ x, repairWrite reset before now = some x → x = s.action :=
    fun x hx => (repairWrite_correct hreset hbefore hnow hx).1
  rcases before with _ | x
  · obtain ⟨hx, hhandler⟩ := filter_eq_some_iff.1 h
    exact absurd (hdefault a hx) (by simpa using hhandler)
  · obtain rfl := hbefore x rfl
    simp only [repairAfter] at h
    cases hw : repairWrite reset (some s.action) now with
    | some y =>
      obtain rfl := hwrite y hw
      split_ifs at h <;> exact ⟨(Option.some.inj h).symm, rfl⟩
    | none =>
      rw [getD_none]
      split_ifs at h with hdfl hkept
      · exact ⟨(Option.some.inj h).symm, force_action_default hdfl⟩
      · -- it was not reset
        refine ⟨(Option.some.inj h).symm, ?_⟩
        rcases hkept with hkept | hkept
        · obtain ⟨hb, hi⟩ := Bool.or_eq_false_iff.1 (hreset false hkept).symm
          rw [force_of_not hb hi]
        · rw [hw] at hkept
          cases hkept

/-- What a repair that restores the state does. -/
structure Restores (s : Signals) (repair : SegvRepair) : Prop where
  /-- SIGSEGV is blocked only if it was -/
  block : repair.block = true → s.blocked = true
  /-- an action is written only if the kernel reset it, and then the true one -/
  write : ∀ a, repair.write = some a →
    a = s.action ∧ (s.blocked = true ∨ s.action.ignored = true) ∧ s.force.action ≠ s.action
  after : Correct repair.after (repair.apply s.force).action
  known : repair.known = true → repair.apply s.force = s

theorem force_of_caught (h : (s.force.action.caught || s.force.action.ignored) = true) :
    s.force = s := by
  by_cases hreset : s.blocked = true ∨ s.action.ignored = true
  · rw [force_action hreset] at h
    cases h
  · exact if_neg hreset

theorem segvRepair_restores (hblocked : Correct blocked s.blocked) (hbefore : Correct before s.action)
    (hnow : Correct now s.force.action) : Restores s (segvRepair blocked before now) := by
  unfold segvRepair
  split
  · rename_i x hx
    obtain ⟨hx, hcaught⟩ := filter_eq_some_iff.1 hx
    obtain rfl := hnow x hx
    have hforce := force_of_caught hcaught
    refine ⟨nofun, nofun, fun a ha => (Option.some.inj ha).symm, fun _ => ?_⟩
    exact hforce
  · rename_i hnone
    have hdefault : ∀ x, now = some x → x.handler = SIG_DFL := by
      intro x hx
      have hread := filter_eq_none_iff.1 hnone x hx
      by_contra hne
      cases hi : x.ignored with
      | true => simp [hi] at hread
      | false => simp [caught_iff.2 ⟨hne, hi⟩] at hread
    have hb := repairBlocked_correct hblocked hbefore hnow
    have hr := repairReset_correct hb hbefore
    refine ⟨?_, ?_, ?_, ?_⟩
    · intro h
      exact (hb true (of_decide_eq_true h)).symm
    · intro a ha
      exact repairWrite_correct hr hbefore hnow ha
    · intro a ha
      obtain ⟨h₁, h₂⟩ := repairAfter_correct hr hbefore hnow hdefault ha
      exact h₁.trans h₂.symm
    · intro h
      obtain ⟨hsome, hafter⟩ := Bool.and_eq_true_iff.1 h
      obtain ⟨b, hbs⟩ := isSome_iff_exists.1 hsome
      obtain ⟨a, ha⟩ := isSome_iff_exists.1 hafter
      obtain ⟨h₁, h₂⟩ := repairAfter_correct hr hbefore hnow hdefault ha
      have hbit : decide (repairBlocked blocked before now = some true) = s.blocked := by
        rw [hbs, ← hb b hbs]
        cases b <;> rfl
      simp only [SegvRepair.apply, force_blocked, Bool.or_false, hbit, h₂]

end

/-- **The repair of a trap restores the truth.**  Whatever the mask and the action
    of SIGSEGV were when the guest trapped, and however it came to run under that
    mask: `resolve` reports the true bit or nothing, and from any right records the
    repair blocks SIGSEGV only if it was blocked, writes an action only if the kernel
    reset it, and then the true one, and when it reports the state as known, the
    state is what it was.  A delivered SIGSEGV leaves right records, too. -/
theorem segv_repair_restores (r : Resume) (run : SignalRun) (mask : BitVec 64)
    (read : Option KernelSigaction) (hrun : Recorded r run)
    (hread : ∀ a, read = some a → r.action = some a) :
    Correct (run.resolve SIGSEGV_BIT mask read) r.blocks ∧
    (∀ (s : Signals) (blocked : Option Bool) (before now : Option KernelSigaction),
      Correct blocked s.blocked → Correct before s.action → Correct now s.force.action →
      Restores s (segvRepair blocked before now)) ∧
    ∀ (action : KernelSigaction) (before : Option KernelSigaction) (blocked saved : BitVec 64),
      Correct before action →
      Recorded (.delivered SIGSEGV action blocked saved)
        (.afterSegvDelivery before (has blocked SIGSEGV_BIT) (has saved SIGSEGV_BIT)) ∧
      ∀ a, before.map KernelSigaction.afterDelivery = some a →
        (Resume.delivered SIGSEGV action blocked saved).action = some a :=
  ⟨resolve_correct hrun hread mask,
    fun _ _ _ _ hblocked hbefore hnow => segvRepair_restores hblocked hbefore hnow,
    fun _ _ blocked saved hbefore => afterSegvDelivery_recorded hbefore blocked saved⟩

/-- A handler for another signal that blocks SIGSEGV while it runs. -/
def alarmHandler : KernelSigaction := ⟨0x401000, 0, 0, SIGSEGV_BIT⟩

def segvHandler : KernelSigaction := ⟨0x402000, SA_NODEFER, 0, 0⟩

/-- A trap in the handler: the bit is resolved from the handler's mask, and the reset
    action is put back. -/
theorem segv_repair_restores_handler :
    let r := Resume.delivered 14 alarmHandler 0 0
    let run := SignalRun.delivered 14 false false
    run.resolve SIGSEGV_BIT 0 (some alarmHandler) = some r.blocks ∧ r.blocks = true ∧
      Restores ⟨true, segvHandler⟩
        (segvRepair (some true) (some segvHandler) (some segvHandler.resetOf)) ∧
      segvRepair (some true) (some segvHandler) (some segvHandler.resetOf) =
        ⟨true, some segvHandler, some segvHandler, true⟩ := by
  have hsound := segv_repair_restores (.delivered 14 alarmHandler 0 0) (.delivered 14 false false) 0
    (some alarmHandler) (.delivered (by decide) (by decide))
    (fun a ha => by rw [← Option.some.inj ha]; decide)
  have hbit : SignalRun.resolve (.delivered 14 false false) SIGSEGV_BIT 0 (some alarmHandler) =
      some true := by decide
  refine ⟨hbit.trans (congrArg some (hsound.1 true hbit)), by decide, ?_, by decide⟩
  refine hsound.2.1 ⟨true, segvHandler⟩ _ _ _ ?_ ?_ ?_
  · exact fun b hb => (Option.some.inj hb).symm
  · exact fun a ha => (Option.some.inj ha).symm
  · exact fun a ha => (Option.some.inj ha).symm.trans (by decide)

end Reverie.SegvState
