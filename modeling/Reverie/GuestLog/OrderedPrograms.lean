/-
  The programs of the ordered log follow its protocol.  Most operations are not seen by the
  invariant (`Still`); the writer walks through the modes of its channel, and the collector
  decodes one frame at a time.  `clients_holds`: every pool of clients starts in the protocol.
-/
import Reverie.GuestLog.OrderedSteps

namespace Reverie.GuestLog
open List Function Words

open Fallible (refuse orElse retry)
open ExceptT (lift)

def protocol (lay : Layout) (ι : Type) [DecidableEq ι] : Protocol Log Ghost Local ι where
  move := Move lay
  inv := Inv lay
  stay := Move.stay
  keep := Inv.move

variable {lay : Layout} {ι : Type} [DecidableEq ι] {l : Local}

/-! ## Changes that the invariant does not see -/

variable {s : Log} {i : ℕ} {f : Channel → Channel} {α : Type}

theorem Same.set {f : Ordered → Ordered} (admission : (f s.rest).admission = s.rest.admission)
    (nextOrder : (f s.rest).nextOrder = s.rest.nextOrder)
    (collector : (f s.rest).collector = s.rest.collector)
    (history : (f s.rest).history = s.rest.history) : Same s (s.set f) :=
  ⟨rfl, fun _ => rfl, fun _ => rfl, fun _ => rfl, rfl, admission, nextOrder, collector, history⟩

theorem Same.setCredit (s : Log) (i : ℕ) (f : Credit → Credit) : Same s (s.setCredit i f) :=
  .set rfl rfl rfl rfl

theorem Same.setChannel (head : ∀ c, (f c).head = c.head)
    (tail : ∀ c, (f c).tail = c.tail) (state : ∀ c, (f c).state = c.state) :
    Same s (s.setChannel i f) :=
  ⟨rfl, head_setChannel_of head, tail_setChannel_of tail, state_setChannel_of state, rfl, rfl, rfl, rfl,
    rfl⟩

theorem Same.refl (s : Log) : Same s s :=
  ⟨rfl, fun _ => rfl, fun _ => rfl, fun _ => rfl, rfl, rfl, rfl, rfl, rfl⟩

theorem still_act {f : Log → α × Log} (h : ∀ s, Same s (f s).2) :
    Still (protocol lay ι) (Prog.act f) :=
  Still.act fun s g _ _ _ => ⟨g, Move.free (h s)⟩

theorem still_write {f : Log → Log} (h : ∀ s, Same s (f s)) :
    Still (protocol lay ι) (Prog.write f) :=
  still_act h

theorem wake_still : Still (protocol lay ι) wake :=
  still_act fun _ => ⟨rfl, fun _ => rfl, fun _ => rfl, fun _ => rfl, rfl, rfl, rfl, rfl, rfl⟩

theorem fail_still (reason : ℕ) : Still (protocol lay ι) (fail reason) :=
  still_act fun _ => ⟨rfl, fun _ => rfl, fun _ => rfl, fun _ => rfl, rfl, rfl, rfl, rfl, rfl⟩

theorem stop_still : Still (protocol lay ι) stop :=
  .bind (still_act fun _ => ⟨rfl, fun _ => rfl, fun _ => rfl, fun _ => rfl, rfl, rfl, rfl, rfl, rfl⟩)
    fun _ => wake_still

theorem wait_still : Still (protocol lay ι) wait :=
  still_act fun _ => ⟨rfl, fun _ => rfl, fun _ => rfl, fun _ => rfl, rfl, rfl, rfl, rfl, rfl⟩

theorem fault_still : Still (protocol lay ι) fault :=
  .bind (still_write fun _ => .set rfl rfl rfl rfl) fun _ => wake_still

theorem storeCredit_still (i : ℕ) (f : Credit → Credit) : Still (protocol lay ι) (storeCredit i f) :=
  still_act fun s => .setCredit s i f

theorem exchangeCredit_still (i : ℕ) (old new : CreditState) :
    Still (protocol lay ι) (exchangeCredit i old new) := by
  refine still_act fun s => ?_
  split
  · dsimp only
    exact .setCredit s i _
  · exact .refl s

variable (role : Role)

theorem subUsed_still (length : ℕ) : Still (protocol lay ι) (subUsed role length) :=
  still_write fun _ => .set rfl rfl rfl rfl

theorem store_still (head : ∀ c, (f c).head = c.head)
    (tail : ∀ c, (f c).tail = c.tail) (state : ∀ c, (f c).state = c.state) :
    Still (protocol lay ι) (store i f) :=
  still_act fun _ => .setChannel head tail state

theorem check_still : Still (protocol lay ι) (check role).run := by
  refine .tryBind (.lift .read) fun _ => .tryBind .refuse fun _ => .tryBind (.lift .read) fun _ =>
    .tryBind .refuse fun _ => .tryBind (.lift .read) fun _ => .tryBind .refuse fun _ =>
    .tryBind (.lift .read) fun _ => .tryBind .refuse fun _ => ?_
  split
  · exact .tryBind (.lift .read) fun _ => .refuse
  · exact .pure

theorem reserveFrom_still (producer sequence length : ℕ) (indices : List ℕ) :
    Still (protocol lay ι) (reserveFrom lay role producer sequence length indices).run := by
  induction indices with
  | nil => exact .throw
  | cons index rest ih =>
    refine .tryBind .refuse fun _ => .tryBind (.lift (exchangeCredit_still _ _ _)) fun b => ?_
    split
    · refine .tryBind (.lift (still_act fun s => ?_)) fun charged => ?_
      · split
        · dsimp only
          exact .set rfl rfl rfl rfl
        · exact .refl s
      split
      · refine .tryBind (.lift .read) fun generation => ?_
        split
        · exact .tryBind (.lift (storeCredit_still _ _)) fun _ =>
            .tryBind (.lift (storeCredit_still _ _)) fun _ =>
            .tryBind (.lift (storeCredit_still _ _)) fun _ =>
            .tryBind (.lift (storeCredit_still _ _)) fun _ =>
            .tryBind (.lift (storeCredit_still _ _)) fun _ => .pure
        · exact .tryBind (.lift (subUsed_still _ _)) fun _ =>
            .tryBind (.lift (storeCredit_still _ _)) fun _ => .throw
      · exact .tryBind (.lift (storeCredit_still _ _)) fun _ => .throw
    · exact ih

theorem reserve_still (producer sequence length : ℕ) :
    Still (protocol lay ι) (reserve lay role producer sequence length).run :=
  .tryBind (check_still role) fun _ => .tryBind .refuse fun _ => reserveFrom_still _ _ _ _ _

/-! ## The writer -/

theorem orWait_tries {x : LogFails α} {Q : α → Local → Prop} {F : Local → Prop}
    (h : Tries (protocol lay ι) x l Q fun _ => F) :
    Tries (protocol lay ι) (orWait x) l
      (fun o l' => match o with
        | none => F l'
        | some a => Q a l') fun _ => F := by
  refine Follows.bind (Follows.mono h fun r l' hr => ?_)
  cases r with
  | ok a => exact hr
  | error e =>
    cases e with
    | full =>
      refine Follows.bind (wait_still.follows fun o => ?_)
      cases o with
      | none => exact hr
      | some e => exact hr
    | _ => exact hr

section
variable {s : Log} {g : Ghost} {L : ι → Local} {t : ι} {i : ℕ} {p : Pen}

omit [DecidableEq ι] in
theorem Inv.head_eq (h : Inv lay s g L) (hL : L t = .writer i p) : s.head i = p.count := by
  rw [h.ring.head, ← h.pen.count, (h.own.writer _ _ _ hL).1]

section
variable {β : Type} {next : ℕ → LogFails β} {R : β → Local → Prop} {E : PublishError → Local → Prop}

theorem load_head (h : Tries (protocol lay ι) (next p.count) (.writer i p) R E) :
    Tries (protocol lay ι) (lift (load i (·.head)) >>= next) (.writer i p) R E :=
  .read fun s g L t hi hL => by
    change Tries _ (next (s.head i)) _ _ _
    rwa [Inv.head_eq hi hL]

theorem load_tail (mode : p.mode = .idle)
    (hroom : ∀ tail, tail ≤ p.count → p.count < tail + lay.limits.slots →
      Tries (protocol lay ι) (next tail) (.writer i { p with mode := .room p.count }) R E)
    (hfull : ∀ tail, tail ≤ p.count → p.count = tail + lay.limits.slots →
      Tries (protocol lay ι) (next tail) (.writer i p) R E) :
    Tries (protocol lay ι) (lift (load i (·.tail)) >>= next) (.writer i p) R E := by
  refine .act fun s g L t hi hL => ?_
  have hhead := Inv.head_eq hi hL
  have hlower := (Inv.ring hi).lower i
  have hupper := (Inv.ring hi).upper i
  rw [hhead] at hlower hupper
  rcases hupper.lt_or_eq with hlt | heq
  · refine ⟨_, _, Move.room mode (by rwa [hhead]), ?_⟩
    rw [hhead]
    exact hroom (s.tail i) hlower hlt
  · exact ⟨g, _, Move.stay _ _ _, hfull (s.tail i) hlower heq⟩

end

variable {a n h : ℕ} {f : Frame} {w : Writer} {b body : Option (List UInt8)} {bytes : List UInt8}

theorem checkedAdd_eq_some {b c : ℕ} : checkedAdd a b = some c ↔ a + b = c ∧ a + b ≤ u64Max := by
  rw [checkedAdd, u64Max]
  split_ifs with h
  · simp only [Option.some.injEq]
    omega
  · simp only [false_iff]
    omega

theorem checkedAdd_of_le {b : ℕ} (h : a + b ≤ u64Max) : checkedAdd a b = some (a + b) :=
  checkedAdd_eq_some.2 ⟨rfl, h⟩

theorem checkedAdd_of_not_le {b : ℕ} (h : ¬ a + b ≤ u64Max) : checkedAdd a b = none :=
  Option.eq_none_iff_forall_not_mem.2 fun _ hc => h (checkedAdd_eq_some.1 hc).2

theorem checkedSub_of_le {b : ℕ} (h : b ≤ a) : checkedSub a b = some (a - b) := if_pos h

theorem publish_tries (mode : p.mode = .idle) (kind : f.kind ≠ .END) :
    Tries (protocol lay ι) (publish lay.options i f) (.writer i p)
      (fun _ l' => l' = .writer i { p with scan := p.scan.step f, count := p.count + 1 })
      (fun _ l' => l' = .writer i p) := by
  refine .read fun _ _ _ _ _ _ => .refuse (fun _ => rfl) fun _ => load_head ?_
  by_cases hmax : p.count + 1 ≤ u64Max
  · simp only [checkedAdd_of_le hmax]
    refine load_tail mode (fun tail hle hlt => ?_) (fun tail hle heq => ?_)
    · rw [checkedSub_of_le hle]
      refine .refuse (fun hfull => ?_) fun _ => ?_
      · simp only [Layout.options] at hfull
        omega
      refine .act fun s g L t hi hL => ⟨_, _, Move.stage { f with ordinal := p.count } rfl, ?_⟩
      exact fun s g L t hi hL => ⟨_, _, Move.push rfl kind hmax, by rw [mode]; rfl⟩
    · rw [checkedSub_of_le hle]
      refine .refuse (fun _ => rfl) fun hfull => ?_
      simp only [Layout.options] at hfull
      omega
  · simp only [checkedAdd_of_not_le hmax]
    exact .read fun _ _ _ _ _ _ => .orElse (fun _ => rfl) (by rintro _ ⟨⟩)

theorem send_tries (mode : p.mode = .idle) (kind : f.kind ≠ .END) (index : w.producer.index = i) :
    Tries (protocol lay ι) (w.send lay f) (.writer i p)
      (fun _ l' => l' = .writer i { p with scan := p.scan.step f, count := p.count + 1 })
      (fun _ l' => l' = .writer i p) := by
  refine .retry (· = .writer i p) rfl ?_
  rintro _ rfl
  refine .read fun _ _ _ _ _ _ => .still (check_still _) (fun _ => rfl) fun _ => ?_
  rw [index]
  exact orWait_tries (publish_tries mode kind)

theorem ticket_tries (w : Writer) (length : ℕ) :
    Tries (protocol lay ι) (w.ticket lay length) l (fun _ l' => l' = l) (fun _ l' => l' = l) := by
  refine .retry (· = l) rfl ?_
  rintro _ rfl
  refine .read fun _ _ _ _ _ _ => ?_
  exact orWait_tries (.of_still (reserve_still _ _ _ _))

/-- The writer of a channel is between two frames of a call. -/
def Between (i call : ℕ) (bytes body : Option (List UInt8)) (l : Local) : Prop :=
  ∃ p, l = .writer i p ∧ p.mode = .idle ∧ p.call = call ∧ p.bytes = bytes ∧ p.scan.body = body

/-- After `k` chunks the journal has the first `k` chunks of the record. -/
theorem sendChunks_tries (index : w.producer.index = i) (m k : ℕ)
    (hl : Between i n b (some (bytes.take (k * payloadSize))) l) :
    Tries (protocol lay ι) (w.sendChunks lay bytes (List.range' k m)) l
      (fun _ => Between i n b (some (bytes.take ((k + m) * payloadSize))))
      (fun _ l' => ∃ body, Between i n b body l') := by
  induction m generalizing k l with
  | zero => exact hl
  | succ m ih =>
    obtain ⟨p, rfl, hmode, hcall, hbytes, hbody⟩ := hl
    refine .bind ((send_tries hmode (show FrameKind.DATA ≠ .END by decide) index).mono ?_ ?_)
    · rintro _ _ rfl
      rw [show k + (m + 1) = k + 1 + m by omega]
      refine ih (k + 1) ⟨_, rfl, hmode, hcall, hbytes, ?_⟩
      simp only [Scan.step, Producer.frame, hbody]
      rw [← Bytes.take_append_chunk]
      simp
    · rintro _ _ rfl
      exact ⟨_, p, rfl, hmode, hcall, hbytes, rfl⟩

theorem room_tries (index : w.producer.index = i) (mode : p.mode = .idle) :
    Tries (protocol lay ι) (w.room lay) (.writer i p)
      (fun r l' => ∃ h, r = (h, h + 1) ∧ h + 1 ≤ u64Max ∧ l' = .writer i { p with mode := .room h })
      (fun _ l' => l' = .writer i p) := by
  refine .retry (· = .writer i p) rfl ?_
  rintro _ rfl
  refine .read fun _ _ _ _ _ _ => .still (check_still _) (fun _ => rfl) fun _ => ?_
  rw [index]
  refine load_head (.orElse (fun _ => rfl) fun next hnext => ?_)
  obtain ⟨rfl, hmax⟩ := checkedAdd_eq_some.1 hnext
  refine load_tail mode (fun tail hle hlt => ?_) (fun tail hle heq => ?_)
  · rw [checkedSub_of_le hle]
    change Tries _ (if p.count - tail < lay.limits.slots then _ else _) _ _ _
    rw [if_pos (by omega)]
    exact ⟨_, rfl, hmax, rfl⟩
  · rw [checkedSub_of_le hle]
    change Tries _ (if p.count - tail < lay.limits.slots then _ else _) _ _ _
    rw [if_neg (by omega)]
    refine .still (.lift wait_still) (fun _ => rfl) fun o => ?_
    cases o with
    | none => exact rfl
    | some e => exact rfl

theorem number_stamp (length : 16 ≤ f.payload.length) {order : ℕ} (h : order < 2 ^ 64) :
    number (f.stamp order) 16 = order := by
  have h16 : (f.payload.take 16).length = 16 := by
    rw [length_take, Nat.min_eq_left length]
  simp only [number, Frame.stamp, append_assoc]
  rw [drop_left' h16, take_left' (Bytes.length_toLe 8 order)]
  exact Bytes.ofLe_toLe (by simpa using h)

theorem length_payload_end (pr : Producer) (ticket : Ticket) (total : ℕ) :
    16 ≤ (pr.frame .END total total (metadata ticket (some 0))).payload.length := by
  have h : (metadata ticket (some 0)).length = 24 := by simp [metadata]
  simp only [Producer.frame, length_append]
  omega

/-- The call has failed; the owner may still know of room. -/
def Fallen (i call : ℕ) (bytes : Option (List UInt8)) (l : Local) : Prop :=
  ∃ p, l = .writer i p ∧ (p.mode = .idle ∨ ∃ h, p.mode = .room h) ∧ p.call = call ∧ p.bytes = bytes

/-- The writer has its order. -/
def Committed (i call : ℕ) (bytes : Option (List UInt8)) (order : ℕ) (l : Local) : Prop :=
  ∃ p, l = .writer i p ∧ p.mode = .done order ∧ p.call = call ∧ p.bytes = bytes

theorem enter_tries (mode : p.mode = .room h) :
    Tries (protocol lay ι) (enter (roleOf i)) (.writer i p)
      (fun _ l' => l' = .writer i { p with mode := .inside h }) (fun _ l' => l' = .writer i p) := by
  refine .still (check_still _) (fun _ => rfl) fun _ => .act fun s g L t hi hL => ?_
  dsimp only
  split_ifs with hc
  · simp only [Bool.not_eq_eq_eq_not] at hc
    exact ⟨_, _, Move.enter mode hc.1 hc.2, rfl⟩
  · exact ⟨g, _, Move.stay _ _ _, rfl⟩

theorem leave_follows (mode : p.mode = .inside h) :
    Follows (protocol lay ι) (leave (roleOf i)) (.writer i p)
      fun _ l' => l' = .writer i { p with mode := .idle } := by
  refine Follows.act fun s g L t hi hL => ⟨_, _, Move.leave mode, ?_⟩
  exact wake_still.follows fun _ => rfl

theorem depart_follows (mode : p.mode = .published n) :
    Follows (protocol lay ι) (leave (roleOf i)) (.writer i p)
      fun _ l' => l' = .writer i { p with mode := .done n } := by
  refine Follows.act fun s g L t hi hL => ⟨_, _, Move.depart mode, ?_⟩
  exact wake_still.follows fun _ => rfl

theorem takeOrder_tries (mode : p.mode = .inside h) (hbytes : p.bytes = some bytes) :
    Tries (protocol lay ι) (takeOrder (roleOf i)) (.writer i p)
      (fun order l' => order < 2 ^ 64 ∧ l' = .writer i { p with mode := .ordered h order })
      (fun _ l' => l' = .writer i { p with mode := .idle }) := by
  refine .onError (.still (check_still _) (fun _ => leave_follows mode) fun _ =>
    .act fun s g L t hi hL => ?_)
  by_cases hmax : s.rest.nextOrder + 1 ≤ u64Max
  · simp only [checkedAdd_of_le hmax]
    refine ⟨_, _, Move.order mode hbytes, ?_, rfl⟩
    unfold u64Max at hmax
    omega
  · simp only [checkedAdd_of_not_le hmax]
    exact ⟨g, _, Move.stay _ _ _, leave_follows mode⟩

theorem commit_tries (index : w.producer.index = i) (role : w.role = roleOf i)
    (kind : f.kind = .END) (length : 16 ≤ f.payload.length) (ticket : Ticket)
    (mode : p.mode = .room h) (hbytes : p.bytes = some bytes)
    (body : p.scan.body = some bytes) (bound : h + 1 ≤ u64Max) :
    Tries (protocol lay ι) (w.commit lay ticket f h (h + 1)) (.writer i p)
      (fun c => Committed i p.call p.bytes c.order) (fun _ => Fallen i p.call p.bytes) := by
  have hfallen : Fallen i p.call p.bytes (.writer i p) := ⟨p, rfl, .inr ⟨h, mode⟩, rfl, rfl⟩
  unfold Writer.commit
  rw [role, index]
  refine .still .refuse (fun _ => hfallen) fun _ => .bind ((enter_tries mode).mono ?_ ?_)
  · rintro _ _ rfl
    refine .bind (.mono (takeOrder_tries rfl hbytes) ?_ ?_)
    · rintro order _ ⟨hlt, rfl⟩
      refine .pass (storeCredit_still _ _) fun _ => .pass (storeCredit_still _ _) fun _ => ?_
      refine .act fun s g L t hi hL => ⟨_, _, Move.stamp _ rfl, ?_⟩
      refine .act fun s g L t hi hL => ⟨_, _, Move.commit rfl kind ?_ ?_ bound, ?_⟩
      · exact number_stamp (f := { f with ordinal := h }) length hlt
      · exact body.trans hbytes.symm
      refine .lift ((depart_follows rfl).mono ?_)
      rintro _ _ rfl
      exact ⟨_, rfl, rfl, rfl, rfl⟩
    · rintro _ _ rfl
      exact ⟨_, rfl, .inl rfl, rfl, rfl⟩
  · rintro _ _ rfl
    exact hfallen

theorem Between.fallen (h : Between i n b body l) : Fallen i n b l := by
  obtain ⟨p, hl, hmode, hcall, hbytes, -⟩ := h
  exact ⟨p, hl, .inl hmode, hcall, hbytes⟩

theorem Between.begun (kind : f.kind = .BEGIN) (mode : p.mode = .idle)
    (call : p.call = n) (hbytes : p.bytes = b) :
    Between i n b (some (bytes.take (0 * payloadSize)))
      (.writer i { p with scan := p.scan.step f, count := p.count + 1 }) :=
  ⟨_, rfl, mode, call, hbytes, by simp [Scan.step, kind]⟩

theorem writeInner_tries (index : w.producer.index = i) (role : w.role = roleOf i)
        (hl : Between i n (some bytes) body l) :
    Tries (protocol lay ι) (w.writeInner lay bytes) l
      (fun c => Committed i n (some bytes) c.order) (fun _ => Fallen i n (some bytes)) := by
  refine .still .refuse (fun _ => hl.fallen) fun _ => .bind ((ticket_tries _ _).mono ?_ ?_)
  · rintro ticket _ rfl
    obtain ⟨p, rfl, hmode, hcall, hbytes, -⟩ := hl
    refine .bind ((send_tries hmode (show FrameKind.BEGIN ≠ .END by decide) index).mono ?_ ?_)
    · rintro _ _ rfl
      rw [range_eq_range']
      refine .bind ((sendChunks_tries index _ 0 (.begun rfl hmode hcall hbytes)).mono ?_ ?_)
      · rintro _ _ ⟨p, rfl, hmode, hcall, hbytes, hbody⟩
        rw [Nat.zero_add, Bytes.take_chunkCount (by decide)] at hbody
        refine .bind ((room_tries index hmode).mono ?_ ?_)
        · rintro _ _ ⟨head, rfl, hmax, rfl⟩
          rw [← hcall, ← hbytes]
          exact commit_tries index role rfl (length_payload_end _ _ _) ticket rfl hbytes hbody hmax
        · rintro _ _ rfl
          exact ⟨p, rfl, .inl hmode, hcall, hbytes⟩
      · rintro _ _ ⟨_, hb⟩
        exact hb.fallen
    · rintro _ _ rfl
      exact ⟨p, rfl, .inl hmode, hcall, hbytes⟩
  · rintro _ _ rfl
    exact hl.fallen

/-- What a call of `write_record` leaves for the note of its return. -/
def Answered (i n : ℕ) (bytes : List UInt8) (r : Except PublishError RecordCommit) (l : Local) : Prop :=
  match r with
  | .ok c => Committed i n (some bytes) c.order l
  | .error _ => Fallen i n (some bytes) l

theorem writeRecord_follows (index : w.producer.index = i) (role : w.role = roleOf i)
        (hl : Between i n (some bytes) body l) :
    Follows (protocol lay ι) (w.writeRecord lay bytes) l fun r l' =>
      r.2.producer.index = i ∧ r.2.role = roleOf i ∧ Answered i n bytes r.1 l' := by
  refine Follows.bind (Follows.mono (writeInner_tries index role hl) fun r l' hr => ?_)
  cases r with
  | ok c => exact ⟨index, role, hr⟩
  | error e =>
    dsimp only
    split
    · exact Follows.bind (fault_still.follows fun _ => ⟨index, role, hr⟩)
    · exact ⟨index, role, hr⟩

theorem finish_follows (index : w.producer.index = i) (role : w.role = roleOf i)
    (hl : Between i n b body l) :
    Follows (protocol lay ι) (w.finish lay) l fun r l' =>
      r.2.producer.index = i ∧ r.2.role = roleOf i ∧ ∃ body, Between i n b body l' := by
  refine Follows.bind (Still.follows (.tryBind (check_still _) fun _ => .refuse) fun r => ?_)
  cases r with
  | error e => exact ⟨index, role, _, hl⟩
  | ok _ =>
    obtain ⟨p, rfl, hmode, hcall, hbytes, -⟩ := hl
    refine Follows.bind (Follows.mono
      (send_tries hmode (show FrameKind.FINISH ≠ .END by decide) index) fun r l' hr => ?_)
    cases r with
    | error e =>
      obtain rfl := hr
      exact ⟨index, role, _, p, rfl, hmode, hcall, hbytes, rfl⟩
    | ok _ =>
      obtain rfl := hr
      dsimp only
      rw [index]
      refine Follows.still (store_still (fun _ => rfl) (fun _ => rfl) fun _ => rfl) fun _ => ?_
      refine Follows.read fun _ _ _ _ _ _ => ?_
      refine Follows.still (store_still (fun _ => rfl) (fun _ => rfl) fun _ => rfl) fun _ => ?_
      exact Follows.act fun s g L t hi hL =>
        ⟨_, _, Move.finish, rfl, role, _, _, rfl, hmode, hcall, hbytes, rfl⟩

theorem calls_follows (index : w.producer.index = i) (role : w.role = roleOf i)
    (calls : List WriterCall) (hl : Between i n none body l) :
    Follows (protocol lay ι) (w.calls lay n calls) l fun _ _ => True := by
  induction calls generalizing w n l body with
  | nil => trivial
  | cons call calls ih =>
    cases call with
    | writeRecord bytes =>
      obtain ⟨p, rfl, hmode, rfl, hbytes, -⟩ := hl
      unfold Writer.calls
      rw [index]
      refine Follows.act fun s g L t hi hL => ⟨_, _, Move.call bytes hmode hbytes, ?_⟩
      have hcalled : Between i p.call (some bytes) p.scan.body
          (.writer i { p with bytes := some bytes }) := ⟨_, rfl, hmode, rfl, rfl, rfl⟩
      refine Follows.bind ((writeRecord_follows index role hcalled).mono ?_)
      rintro ⟨r, w'⟩ l' ⟨hindex, hrole, hr⟩
      cases r with
      | ok c =>
        obtain ⟨p', rfl, hmode', hcall', hbytes'⟩ := hr
        rw [← hcall']
        exact Follows.act fun s g L t hi hL =>
          ⟨_, _, Move.returned hmode' hbytes', ih hindex hrole ⟨_, rfl, rfl, rfl, rfl, rfl⟩⟩
      | error e =>
        obtain ⟨p', rfl, hmode', hcall', hbytes'⟩ := hr
        rw [← hcall']
        exact Follows.act fun s g L t hi hL =>
          ⟨_, _, Move.failed e hmode' hbytes', ih hindex hrole ⟨_, rfl, rfl, rfl, rfl, rfl⟩⟩
    | finish =>
      refine Follows.bind ((finish_follows index role hl).mono ?_)
      rintro ⟨r, w'⟩ l' ⟨hindex, hrole, body, hl'⟩
      exact ih hindex hrole hl'

end

/-! ## The collector -/

section
variable {c : Collector} {i : ℕ} {f : Frame}

theorem Decodes.begun (kind : f.kind = .BEGIN) (p : Partial) (bytes : p.bytes = []) :
    Decodes c i f { c with partials := update c.partials i (some p) } where
  partials j hj := update_of_ne hj _ _
  body s _ := by simp [Scan.step, kind, bytes]
  pending n r hr := .inl hr
  next := rfl
  rejected := rfl

variable {p : Partial} {c' : Collector}

theorem Decodes.data (kind : f.kind = .DATA) (hp : c.partials i = some p) :
    let p := { p with bytes := p.bytes ++ f.payload.take f.length }
    Decodes c i f { c with partials := update c.partials i (some p) } where
  partials j hj := update_of_ne hj _ _
  body s hs := by
    rw [hp] at hs
    simp [Scan.step, kind, ← hs]
  pending n r hr := .inl hr
  next := rfl
  rejected := rfl

theorem Decodes.ended (kind : f.kind = .END) (hp : c.partials i = some p) (sequences : ℕ → ℕ) :
    Decodes c i f { c with
      partials := update c.partials i none
      pending := c.pending.insert (number f 16) ⟨p.ticket, number f 16, i, p.bytes⟩
      sequences := sequences } where
  partials j hj := update_of_ne hj _ _
  body s hs := by simp [Scan.step, kind]
  pending n r hr := by
    rw [Std.TreeMap.getElem?_insert] at hr
    split_ifs at hr with hn
    · obtain rfl := Option.some.inj hr
      obtain rfl : number f 16 = n := compare_eq_iff_eq.1 hn
      refine .inr ⟨rfl, rfl, fun s hs => ?_⟩
      rw [hp] at hs
      simp [Scan.step, kind, ← hs]
    · exact .inl hr
  next := rfl
  rejected := rfl

theorem Decodes.finish (kind : f.kind = .FINISH) (finished : ℕ → Bool) :
    Decodes c i f { c with finished := finished } where
  partials j hj := rfl
  body s hs := by simpa [Scan.step, kind] using hs
  pending n r hr := .inl hr
  next := rfl
  rejected := rfl

theorem accept_tries :
    Tries (protocol lay ι) (c.accept lay i f) l (fun r l' => l' = l ∧ Decodes c i f r.1)
      (fun _ l' => l' = l) := by
  refine .refuse (fun _ => rfl) fun _ => ?_
  cases kind : f.kind with
  | BEGIN =>
    refine .bind (.refuse (fun _ => rfl) fun _ => .still .refuse (fun _ => rfl) fun _ =>
      .read fun _ _ _ _ _ _ => .refuse (fun _ => rfl) fun _ =>
      .read fun _ _ _ _ _ _ => .refuse (fun _ => rfl) fun _ =>
      .read fun _ _ _ _ _ _ => .refuse (fun _ => rfl) fun _ =>
      .read fun _ _ _ _ _ _ => .refuse (fun _ => rfl) fun _ =>
      .read fun _ _ _ _ _ _ => .refuse (fun _ => rfl) fun _ =>
      .refuse (fun _ => rfl) fun _ => ?_)
    exact ⟨rfl, .begun kind _ rfl⟩
  | DATA =>
    refine .bind (.orElse (fun _ => rfl) fun p hp => .refuse (fun _ => rfl) fun _ => ?_)
    exact ⟨rfl, .data kind hp⟩
  | END =>
    refine .orElse (fun _ => rfl) fun p hp => .still .refuse (fun _ => rfl) fun _ =>
      .refuse (fun _ => rfl) fun _ =>
      .read fun _ _ _ _ _ _ => .refuse (fun _ => rfl) fun _ =>
      .read fun _ _ _ _ _ _ => .refuse (fun _ => rfl) fun _ => ?_
    dsimp only
    split
    · exact ⟨rfl, .ended kind hp _⟩
    · exact ⟨rfl, .ended kind hp c.sequences⟩
  | FINISH =>
    refine .bind (.refuse (fun _ => rfl) fun _ => ?_)
    exact ⟨rfl, .finish kind _⟩

/-- The thread is the collector and holds `c`. -/
def Collects (c : Collector) (l : Local) : Prop := ∃ w, l = .collector c w

theorem readFrame_tries (hl : Collects c l) :
    Tries (protocol lay ι) (readFrame lay.options i) l
      (fun o l' => match o with
        | none => Collects c l'
        | some f => l' = .collector c (.got i f)) (fun _ => Collects c) := by
  obtain ⟨w, rfl⟩ := hl
  refine .act fun s g L t hi hL => ⟨_, _, Move.look (.inr (.inr ⟨i, rfl⟩)), ?_⟩
  refine .act fun s' g L t hi hL => ?_
  by_cases hmore : (s.channel i).tail = (s'.channel i).head
  · refine ⟨_, _, Move.stay _ _ _, ?_⟩
    rw [if_pos hmore]
    exact ⟨_, rfl⟩
  · refine ⟨_, _, Move.avail hmore, ?_⟩
    rw [if_neg hmore]
    refine .orElse (fun _ => ⟨_, rfl⟩) fun _ _ => .refuse (fun _ => ⟨_, rfl⟩) fun _ => ?_
    refine .act fun s g L t hi hL => ⟨_, _, Move.got, .refuse (fun _ => ⟨_, rfl⟩) fun _ => ?_⟩
    rfl

theorem fault_follows (hl : Collects c l) (partials : c'.partials = c.partials)
    (rejected : ∀ i, c'.rejected i = none → c.rejected i = none)
    (pending : ∀ (n : ℕ) r, c'.pending[n]? = some r → c.pending[n]? = some r)
    (next : c'.next = c.next) :
    Follows (protocol lay ι) fault l fun _ => Collects c' := by
  obtain ⟨w, rfl⟩ := hl
  refine Follows.write fun s g _ _ _ _ => ⟨g, .collector c' .idle, ?_, ?_⟩
  · exact Move.lose (.set rfl rfl rfl rfl) partials rejected pending next
  · exact wake_still.follows fun _ => ⟨_, rfl⟩

theorem reject_follows (opened : c.rejected i = none) (decodes : Decodes c i f c') :
    Follows (protocol lay ι) (c'.reject i f) (.collector c (.got i f)) fun r => Collects r.1 := by
  refine Follows.bind (Follows.write fun s g _ _ _ _ =>
    ⟨g, _, Move.reject (.set rfl rfl rfl rfl) opened decodes, ?_⟩)
  exact wake_still.follows fun _ => ⟨_, rfl⟩

theorem reject_same_follows (hl : Collects c l) :
    Follows (protocol lay ι) (c.reject i f) l fun r => Collects r.1 := by
  refine Follows.bind (fault_follows hl rfl (fun j hj => ?_) (fun _ _ hr => hr) rfl)
  rcases eq_or_ne j i with rfl | hji
  · simp at hj
  · simpa [update_of_ne hji] using hj

theorem drain_follows (n : ℕ) (opened : c.rejected i = none) (hl : Collects c l) :
    Follows (protocol lay ι) (c.drain lay i n) l fun r => Collects r.1 := by
  induction n generalizing c l with
  | zero => exact hl
  | succ n ih =>
    refine Follows.bind (Follows.mono (readFrame_tries hl) fun r l' hr => ?_)
    rcases r with e | _ | f
    · exact Follows.still fault_still fun _ => hr
    · exact hr
    · obtain rfl := hr
      refine Follows.bind (Follows.mono accept_tries fun r l' hr => ?_)
      rcases r with e | ⟨c', _ | e⟩
      · obtain rfl := hr
        exact reject_same_follows ⟨_, rfl⟩
      · obtain ⟨rfl, decodes⟩ := hr
        refine Follows.bind (Follows.act fun s g L t hi hL =>
          ⟨_, _, Move.consume opened decodes, wake_still.follows fun _ => ?_⟩)
        exact ih (by rwa [decodes.rejected]) ⟨_, rfl⟩
      · obtain ⟨rfl, decodes⟩ := hr
        exact reject_follows opened decodes

theorem scan_follows (indices : List ℕ) (error : Bool) (hl : Collects c l) :
    Follows (protocol lay ι) (c.scan lay error indices) l fun r => Collects r.1 := by
  induction indices generalizing c l error with
  | nil => exact hl
  | cons index rest ih =>
    unfold Collector.scan
    split
    · exact ih error hl
    · rename_i hopen
      refine Follows.bind ((drain_follows _ (by simpa using hopen) hl).mono fun r l' hr => ?_)
      exact ih _ hr

/-- What `poll` leaves for the note of a delivery. -/
def Polled (r : Except PublishError (Option Record)) (c' : Collector) (l : Local) : Prop :=
  match r with
  | .ok (some record) => ∃ c, Collects c l ∧ c.pending[c.next]? = some record ∧
      c' = { c with pending := c.pending.erase c.next, next := c.next + 1 }
  | _ => Collects c' l

theorem getElem?_of_erase {α : Type} {m : Std.TreeMap ℕ α} {k n : ℕ} {a : α}
    (h : (m.erase k)[n]? = some a) : m[n]? = some a := by
  rw [Std.TreeMap.getElem?_erase] at h
  split_ifs at h
  exact h

theorem poll_follows (hl : Collects c l) :
    Follows (protocol lay ι) (c.poll lay) l fun r l' => Polled r.1 r.2 l' := by
  refine Follows.read fun s _ _ _ _ _ => ?_
  split
  · exact Follows.still fault_still fun _ => hl
  refine Follows.read fun s _ _ _ _ _ => Follows.bind ((scan_follows _ false hl).mono fun r l' hr => ?_)
  obtain ⟨c, error⟩ := r
  dsimp only at hr ⊢
  split
  · exact hr
  refine Follows.read fun s _ _ _ _ _ => ?_
  split
  · exact hr
  split
  · exact hr
  · rename_i record hrecord
    split
    · rename_i next hnext
      obtain ⟨rfl, -⟩ := checkedAdd_eq_some.1 hnext
      exact ⟨c, hr, hrecord, rfl⟩
    · exact Follows.bind (fault_follows hr rfl (fun _ hj => hj) (fun _ _ => getElem?_of_erase) rfl)

theorem emptyChannels_still (indices : List ℕ) : Still (protocol lay ι) (emptyChannels indices) := by
  induction indices with
  | nil => exact .pure
  | cons index rest ih =>
    refine .bind .read fun _ => .bind .read fun _ => ?_
    split
    · exact .pure
    · exact ih

theorem sealed_follows (roles known : List Role) :
    Follows (protocol lay ι) (sealed roles) (.collector c (.sealed known)) fun b l' =>
      Collects c l' ∧ (b = true → ∃ known', l' = .collector c (.sealed known') ∧
        ∀ r, r ∈ known ∨ r ∈ roles → r ∈ known') := by
  induction roles generalizing known with
  | nil => exact ⟨⟨_, rfl⟩, fun _ => ⟨known, rfl, by simp⟩⟩
  | cons role rest ih =>
    refine Follows.act fun s g L t hi hL => ?_
    by_cases hsealed : s.Sealed role
    · refine ⟨_, _, Move.sealed role hsealed, ?_⟩
      rw [if_neg (by simp [hsealed.1, hsealed.2])]
      refine (ih (role :: known)).mono fun b l' hb => ⟨hb.1, fun htrue => ?_⟩
      obtain ⟨known', hl', hk⟩ := hb.2 htrue
      exact ⟨known', hl', fun r hr => hk r (by grind)⟩
    · refine ⟨_, _, Move.stay _ _ _, ?_⟩
      rw [if_pos (by simpa [World.Sealed, Classical.or_iff_not_imp_left] using hsealed)]
      exact ⟨⟨_, rfl⟩, (by cases ·)⟩

theorem commitsObserved_follows (hl : Collects c l) :
    Follows (protocol lay ι) c.commitsObserved l fun r l' =>
      ∃ w, l' = .collector c w ∧ (r = .ok true → w = .final) := by
  obtain ⟨w, rfl⟩ := hl
  refine Follows.act fun s g L t hi hL => ⟨_, _, Move.look (.inr (.inl rfl)), ?_⟩
  split
  · exact ⟨_, rfl, nofun⟩
  refine Follows.bind ((sealed_follows _ []).mono fun b l' hb => ?_)
  obtain ⟨⟨w, rfl⟩, hb⟩ := hb
  split
  · exact ⟨_, rfl, nofun⟩
  rename_i hsealed
  obtain ⟨known, hl, hknown⟩ := hb (by simpa using hsealed)
  obtain rfl : w = .sealed known := by simpa using hl
  refine Follows.read fun s _ _ _ _ _ => Follows.still (emptyChannels_still _) fun b => ?_
  split
  · exact ⟨_, rfl, nofun⟩
  split
  · exact ⟨_, rfl, nofun⟩
  split
  · exact Follows.still fault_still fun _ => ⟨_, rfl, nofun⟩
  refine Follows.act fun s g L t hi hL => ?_
  by_cases hnext : c.next = s.rest.nextOrder
  · refine ⟨_, _, Move.final (fun role => ?_) hnext, ?_⟩
    · cases role <;> exact hknown _ (by simp)
    · rw [if_neg (by simpa using hnext)]
      exact ⟨_, rfl, fun _ => rfl⟩
  · refine ⟨_, _, Move.stay _ _ _, ?_⟩
    rw [if_pos hnext]
    exact Follows.still fault_still fun _ => ⟨_, rfl, nofun⟩

theorem collectorCalls_follows (calls : List CollectorCall) (hl : Collects c l) :
    Follows (protocol lay ι) (c.calls lay calls) l fun _ _ => True := by
  induction calls generalizing c l with
  | nil => trivial
  | cons call calls ih =>
    cases call with
    | poll =>
      refine Follows.bind ((poll_follows hl).mono fun r l' hr => ?_)
      rcases r with e | _ | record
      · exact ih hr
      · exact ih hr
      · obtain ⟨c, ⟨w, rfl⟩, hrecord, rfl⟩ := hr
        refine Follows.act fun s g L t hi hL => ⟨g, .collector _ .idle, ?_, ih ⟨_, rfl⟩⟩
        exact Move.deliver hrecord rfl rfl (fun _ _ => getElem?_of_erase) rfl
    | commitsObserved =>
      refine Follows.bind ((commitsObserved_follows hl).mono fun r l' hr => ?_)
      obtain ⟨w, rfl, hfinal⟩ := hr
      exact Follows.act fun s g L t hi hL => ⟨_, _, Move.observed r hfinal, ih ⟨_, rfl⟩⟩

end

/-! ## Incarnations and other calls -/

theorem close_still : Still (protocol lay ι) (close role) :=
  .bind (.act fun _ g _ _ _ => ⟨g, Move.close role⟩) fun _ => .bind wake_still fun _ => .read

theorem failGuest_still : Still (protocol lay ι) failGuest :=
  .bind (still_write fun _ => .set rfl rfl rfl rfl) fun _ => .bind (close_still _) fun _ => .pure

theorem unresolvedGuestCommit_still : Still (protocol lay ι) unresolvedGuestCommit := by
  refine .bind .read fun _ => ?_
  split
  · exact .bind fault_still fun _ => .pure
  · exact .pure

theorem bindPid_still (index pid : ℕ) : Still (protocol lay ι) (bindPid index pid).run := by
  refine .tryBind (.lift (still_act fun s => ?_)) fun _ => .refuse
  split
  · dsimp only
    exact .setChannel (fun _ => rfl) (fun _ => rfl) fun _ => rfl
  · exact .refl s

theorem cancel_still (index : ℕ) :
    Still (protocol lay ι) (exchangeState index .reserved .cancelledFork) := by
  refine .act fun s g L i _ => ⟨g, ?_⟩
  split
  · rename_i h
    exact Move.cancel index h
  · exact Move.stay _ _ _

theorem resolveGuest_still (index : ℕ) (result : ℤ) :
    Still (protocol lay ι) (resolveGuest index result).run := by
  refine .tryBind .refuse fun _ => .tryBind .refuse fun _ => .tryBind (.lift .read) fun _ =>
    .tryBind .refuse fun _ => .tryBind .refuse fun _ => ?_
  split
  · exact .tryBind (.lift (cancel_still index)) fun _ => .tryBind .refuse fun _ =>
      .lift (store_still (fun _ => rfl) (fun _ => rfl) fun _ => rfl)
  · refine .tryBind (bindPid_still _ _) fun _ =>
      .tryBind (.lift (still_act fun s => ?_)) fun _ => .refuse
    split
    · dsimp only
      exact .setChannel (fun _ => rfl) (fun _ => rfl) fun _ => rfl
    · exact .refl s

theorem reserveGuest_tries (parent : ℕ) :
    Tries (protocol lay ι) (reserveGuest lay parent) .outside (fun _ l' => l' = .outside)
      (fun _ l' => l' = .outside) := by
  refine .still (check_still _) (fun _ => rfl) fun _ => .refuse (fun _ => rfl) fun _ =>
    .read fun _ _ _ _ _ _ => .refuse (fun _ => rfl) fun _ =>
    .read fun _ _ _ _ _ _ => .refuse (fun _ => rfl) fun _ => .act fun s g L t hi hL => ?_
  by_cases hroom : s.buffer.allocated < lay.limits.producers
  · refine ⟨g, .child s.buffer.allocated, ?_, ?_⟩
    · rw [if_pos (show s.buffer.allocated < lay.options.producers from hroom)]
      exact Move.allocate hroom
    · rw [if_pos (show s.buffer.allocated < lay.options.producers from hroom)]
      refine .pass (store_still (fun _ => rfl) (fun _ => rfl) fun _ => rfl) fun _ => ?_
      exact .act fun s g L t hi hL => ⟨g, _, Move.reserve _, rfl⟩
  · refine ⟨g, .outside, ?_, ?_⟩
    · rw [if_neg (show ¬ s.buffer.allocated < lay.options.producers from hroom)]
      exact Move.stay _ _ _
    · rw [if_neg (show ¬ s.buffer.allocated < lay.options.producers from hroom)]
      exact .pass (fail_still _) fun _ => rfl

theorem storeRoot_tries {index : ℕ} {pid : ℤ} {w : Writer} {Q : Writer → Local → Prop}
    {E : PublishError → Local → Prop} (h : Q w l) :
    Tries (protocol lay ι) (do
      if index = 1 then lift <| store index fun c => { c with forkResult := pid.toNat }
      pure w : LogFails Writer) l Q E := by
  split
  · exact .pass (store_still (fun _ => rfl) (fun _ => rfl) fun _ => rfl) fun _ => h
  · exact h

theorem activateWriter_tries (index : ℕ) (pid : ℤ) :
    Tries (protocol lay ι) (activateWriter index pid) .outside
      (fun w l' => w.producer.index = index ∧ w.role = roleOf index ∧ l' = .writer index .init)
      (fun _ l' => l' = .outside) := by
  refine .still (check_still _) (fun _ => rfl) fun _ => .bind ?_
  refine .read fun _ _ _ _ _ _ => .refuse (fun _ => rfl) fun _ => .refuse (fun _ => rfl) fun _ =>
    .still (bindPid_still _ _) (fun _ => rfl) fun _ => .act fun s g L t hi hL => ?_
  by_cases hstate : s.state index = .reserved
  · have hbound : index < s.buffer.allocated := by
      by_contra hle
      have := (Inv.own hi).beyond index (not_lt.1 hle)
      rw [hstate] at this
      cases this
    refine ⟨g, .writer index .init, ?_, ?_⟩
    · rw [if_pos (show (s.channel index).state = .reserved from hstate)]
      exact Move.activate index hstate hbound
    · rw [if_pos (show (s.channel index).state = .reserved from hstate)]
      split
      · rename_i hzero
        refine .pass (store_still (fun _ => rfl) (fun _ => rfl) fun _ => rfl) fun _ => ?_
        exact storeRoot_tries ⟨rfl, (if_pos hzero).symm, rfl⟩
      · rename_i hzero
        exact storeRoot_tries ⟨rfl, (if_neg hzero).symm, rfl⟩
  · refine ⟨g, .outside, ?_, ?_⟩
    · rw [if_neg (show ¬ (s.channel index).state = .reserved from hstate)]
      exact Move.stay _ _ _
    · rw [if_neg (show ¬ (s.channel index).state = .reserved from hstate)]
      rfl

theorem release_still (r : Record) : Still (protocol lay ι) (r.release lay) := by
  refine .bind (.tryBind .refuse fun _ => .tryBind (.lift .read) fun _ => ?_) fun b => ?_
  · split
    · exact .pure
    · refine .tryBind (.lift .read) fun _ => ?_
      split
      · exact .pure
      · exact .lift (exchangeCredit_still _ _ _)
  · rcases b with e | _ | _
    · exact .pure
    · exact .bind fault_still fun _ => .pure
    · exact .bind .read fun _ => .bind (subUsed_still _ _) fun _ =>
        .bind (storeCredit_still _ _) fun _ =>
        .bind wake_still fun _ => .pure

theorem newCollector_tries :
    Tries (protocol lay ι) newCollector .outside (fun c => Collects c) (fun _ l' => l' = .outside) := by
  refine .act fun s g L t hi hL => ?_
  cases hc : s.rest.collector with
  | true => exact ⟨g, .outside, Move.stay _ _ _, rfl⟩
  | false => exact ⟨g, .collector _ .idle, Move.attach hc (fun _ => rfl) rfl rfl, _, rfl⟩

theorem Call.exec_follows (call : Call) :
    Follows (protocol lay ι) (call.exec lay) .outside fun _ l' => l' = .outside := by
  cases call with
  | reserveChild parent =>
    refine Follows.bind (Follows.mono (reserveGuest_tries parent) fun r l' hr => ?_)
    cases r <;> exact hr
  | resolveFork index result => exact Follows.still (resolveGuest_still index result) fun _ => rfl
  | close role => exact Follows.still (close_still role) fun _ => rfl
  | failGuest => exact failGuest_still.follows fun _ => rfl
  | unresolvedGuestCommit => exact Follows.still unresolvedGuestCommit_still fun _ => rfl
  | stop => exact stop_still.follows fun _ => rfl
  | fail reason => exact (fail_still reason).follows fun _ => rfl
  | release position =>
    refine Follows.still (still_act fun s => by dsimp only; exact .set rfl rfl rfl rfl) fun o => ?_
    cases o with
    | some record => exact Follows.still (release_still record) fun _ => rfl
    | none => rfl

theorem Client.follows (client : Client) :
    Follows (protocol lay ι) (client.program lay) .outside fun _ _ => True := by
  cases client with
  | produce index pid calls =>
    refine Follows.bind (Follows.mono (activateWriter_tries index pid) fun r l' hr => ?_)
    cases r with
    | error e => trivial
    | ok w =>
      obtain ⟨hindex, hrole, rfl⟩ := hr
      exact calls_follows hindex hrole calls ⟨_, rfl, rfl, rfl, rfl, rfl⟩
  | collect calls =>
    refine Follows.bind (Follows.mono newCollector_tries fun r l' hr => ?_)
    cases r with
    | error e => trivial
    | ok c => exact collectorCalls_follows calls hr
  | call calls =>
    suffices h : Follows (protocol lay ι) (calls.forM (Call.exec lay)) .outside fun _ l' =>
        l' = .outside from h.mono fun _ _ _ => trivial
    induction calls with
    | nil => rfl
    | cons call calls ih =>
      refine Follows.bind (call.exec_follows.mono ?_)
      rintro _ _ rfl
      exact ih

theorem clients_holds (answers : ℕ → Option PublishError) (threads : ι → Client) :
    (protocol lay ι).Holds (clients lay answers threads) :=
  ⟨.init, fun _ => .outside, Inv.init lay answers, fun i => (threads i).follows⟩

end Reverie.GuestLog
