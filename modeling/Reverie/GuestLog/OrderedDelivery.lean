/-
  What the callers of the ordered log see, after every schedule: `records_in_order`, and
  `commits_observed_final`.  A call that has dropped its entrant may return its commit after
  that (`commit_returned_later`).
-/
import Reverie.GuestLog.OrderedPrograms

namespace Reverie.GuestLog
open List

variable {lay : Layout} {ι : Type} [DecidableEq ι]

/-- The history of a new log after a schedule of its clients. -/
def historyOf (lay : Layout) (answers : ℕ → Option PublishError) (threads : ι → Client)
    (schedule : List ι) : List Event :=
  ((clients lay answers threads).run schedule).state.rest.history

theorem inv_run (lay : Layout) (answers : ℕ → Option PublishError) (threads : ι → Client)
    (schedule : List ι) :
    ∃ g L, Inv lay ((clients lay answers threads).run schedule).state g (L : ι → Local) := by
  obtain ⟨g, L, hi, -⟩ := Protocol.run (clients_holds answers threads) schedule
  exact ⟨g, L, hi⟩

/-! ## Orders -/

/-- The collector delivers the records of the calls in the order of their
    commits. -/
structure OrderedDelivery (history : List Event) : Prop where
  orders : (delivered history).map (·.order) = List.range' 1 (delivered history).length
  /-- a producer and a number stand for one call -/
  calls : (history.filterMap Event.start).Nodup
  returns : (history.filterMap Event.finish).Nodup
  /-- a record has the bytes of one call; if that call has returned, then with
      the order of the record, and no other call returns this order -/
  record : ∀ r ∈ delivered history, ∃ call, .called r.producer call r.bytes ∈ history ∧
    (∀ bytes result, .returned r.producer call bytes result ∈ history →
      bytes = r.bytes ∧ result = .ok ⟨r.order⟩) ∧
    ∀ producer call' bytes, .returned producer call' bytes (.ok ⟨r.order⟩) ∈ history →
      producer = r.producer ∧ call' = call ∧ bytes = r.bytes

omit [DecidableEq ι] in
theorem Inv.orderedDelivery {s : Log} {g : Ghost} {L : ι → Local} (h : Inv lay s g L) :
    OrderedDelivery s.rest.history := by
  refine ⟨h.history.orders, h.calls.calls, h.calls.returns, fun r hr => ?_⟩
  obtain ⟨m, call, horder, htaken⟩ := h.order.record _ _ _ (h.history.arrived r hr)
  refine ⟨call, h.history.origin _ _ _ _ htaken, fun bytes result hret => ?_,
    fun producer call' bytes hret => ?_⟩
  · obtain ⟨rfl, rfl⟩ := h.history.answer _ _ _ _ _ _ htaken hret
    rw [horder]
    exact ⟨rfl, rfl⟩
  · obtain ⟨m', hm', hcommit⟩ := h.history.commit _ _ _ _ hret
    obtain rfl : m' = m := by
      simp only at hm'
      omega
    rw [htaken] at hcommit
    simp only [Option.some.injEq, Prod.mk.injEq] at hcommit
    exact ⟨hcommit.1.symm, hcommit.2.1.symm, hcommit.2.2.symm⟩

/-- **The records are delivered in the order of their commits, without gaps, and
    with the bytes of their calls.** -/
theorem records_in_order (lay : Layout) (answers : ℕ → Option PublishError) (threads : ι → Client)
    (schedule : List ι) : OrderedDelivery (historyOf lay answers threads schedule) := by
  obtain ⟨g, L, h⟩ := inv_run lay answers threads schedule
  exact h.orderedDelivery

/-! ## Completeness -/

/-- Every order up to the number of delivered records has been delivered. -/
theorem OrderedDelivery.exists_of_le {history h : List Event} (hd : OrderedDelivery history)
    (hpre : h <+: history) {n : ℕ} (hn : n < (delivered h).length) :
    ∃ r ∈ delivered h, r.order = n + 1 := by
  obtain ⟨rest, rfl⟩ := hpre
  refine ⟨_, getElem_mem hn, ?_⟩
  have hmap := congrArg (·[n]?) hd.orders
  simp only [delivered_append, getElem?_map] at hmap
  rw [getElem?_append_left hn, getElem?_eq_getElem hn,
    getElem?_range' (by simp; omega)] at hmap
  simp only [Option.map_some, Option.some.injEq] at hmap
  omega

/-- **The shared words stay in their bounds.**  After every schedule no slot was written before
    it was read, only allocated channels are in use, and no record was delivered before its
    order was taken. -/
theorem words_bounded (lay : Layout) (answers : ℕ → Option PublishError) (threads : ι → Client)
    (schedule : List ι) :
    let s := ((clients lay answers threads).run schedule).state
    (∀ i, s.tail i ≤ s.head i ∧ s.head i ≤ s.tail i + lay.limits.slots ∧ s.head i ≤ u64Max) ∧
      s.buffer.allocated ≤ lay.limits.producers ∧
      (∀ i, s.buffer.allocated ≤ i → s.state i = .unused) ∧
      (delivered s.rest.history).length < s.rest.nextOrder := by
  obtain ⟨g, L, h⟩ := inv_run lay answers threads schedule
  refine ⟨fun i => ⟨h.ring.lower i, h.ring.upper i, h.ring.bound i⟩, h.own.bound, h.own.beyond, ?_⟩
  rw [h.order.next, Nat.lt_succ_iff]
  by_contra! hlt
  obtain ⟨r, hr, hn⟩ := h.orderedDelivery.exists_of_le prefix_rfl hlt
  obtain ⟨m, k, hm, ho⟩ := h.order.record _ _ _ (h.history.arrived r hr)
  have := (List.getElem?_eq_some_iff.1 ho).1
  omega

/-- What holds from the time on when `commits_observed` has returned `true`,
    with the history `h` at that time. -/
structure Complete (s : Log) (h : List Event) : Prop where
  /-- both admissions are closed and nobody is inside -/
  sealed : ∀ role, s.Sealed role
  /-- every order that was taken has been delivered -/
  orders : s.rest.nextOrder = (delivered h).length + 1
  /-- every commit is of a record that was delivered -/
  commits : ∀ producer call bytes commit, .returned producer call bytes (.ok commit) ∈ s.rest.history →
    ∃ r ∈ delivered h, r.order = commit.order ∧ r.producer = producer ∧ r.bytes = bytes

omit [DecidableEq ι] in
theorem Inv.complete {s : Log} {g : Ghost} {L : ι → Local} (hi : Inv lay s g L) {h h' : List Event}
    (hh : s.rest.history = h ++ .observed (.ok true) :: h') : Complete s h := by
  obtain ⟨hsealed, hle⟩ := hi.sealing.observed h h' hh
  have hd := hi.orderedDelivery
  have hpre : h <+: s.rest.history := ⟨_, hh.symm⟩
  have hall : ∀ m, m < g.orders.length → ∃ r ∈ delivered h, r.order = m + 1 := fun m hm =>
    hd.exists_of_le hpre (hm.trans_le hle)
  have hmem : ∀ r ∈ delivered h, r ∈ delivered s.rest.history := by
    intro r hr
    rw [hh, delivered_append]
    exact List.mem_append_left _ hr
  refine ⟨hsealed, ?_, fun producer call bytes commit hret => ?_⟩
  · -- the last delivered record took an order
    rw [hi.order.next]
    rcases Nat.eq_zero_or_pos (delivered h).length with hz | hpos
    · omega
    · obtain ⟨r, hr, hn⟩ := hd.exists_of_le hpre (Nat.sub_one_lt hpos.ne')
      obtain ⟨m, k, hm, ho⟩ := hi.order.record _ _ _ (hi.history.arrived r (hmem r hr))
      have := (List.getElem?_eq_some_iff.1 ho).1
      omega
  · obtain ⟨m, hm, hcommit⟩ := hi.history.commit _ _ _ _ hret
    obtain ⟨r, hr, hn⟩ := hall m (List.getElem?_eq_some_iff.1 hcommit).1
    obtain ⟨m', k, hm', ho⟩ := hi.order.record _ _ _ (hi.history.arrived r (hmem r hr))
    obtain rfl : m' = m := by omega
    rw [hcommit] at ho
    simp only [Option.some.injEq, Prod.mk.injEq] at ho
    exact ⟨r, hr, by rw [hn, hm], ho.1.symm, ho.2.2.symm⟩

/-- **After `commits_observed` has returned `true`, the log is complete for
    ever.** -/
theorem commits_observed_final (answers : ℕ → Option PublishError) (threads : ι → Client)
    (schedule : List ι) (h h' : List Event)
    (hh : historyOf lay answers threads schedule = h ++ .observed (.ok true) :: h') :
    Complete ((clients lay answers threads).run schedule).state h := by
  obtain ⟨g, L, hi⟩ := inv_run lay answers threads schedule
  exact hi.complete hh

namespace Small

def layout : Layout := ⟨⟨2, 2, 1, 1, 1, 2⟩, by decide⟩

/-- A host that writes the empty record, the collector, and a thread that closes
    both roles. -/
def threads : ℕ → Client
  | 0 => .produce 0 1 [.writeRecord []]
  | 1 => .collect [.poll, .commitsObserved]
  | _ => .call [.close .host, .close .guest]

/-- The host has dropped its entrant, and it returns after the collector. -/
def schedule : List ℕ :=
  List.replicate 58 0 ++ List.replicate 6 2 ++ List.replicate 40 1 ++ [0]

def before : List Event := [.called 0 0 [], .delivered ⟨⟨0, 1⟩, 1, 0, []⟩]

theorem history_eq : historyOf layout (fun _ => none) threads schedule =
    before ++ .observed (.ok true) :: [.returned 0 0 [] (.ok ⟨1⟩)] := by
  decide +kernel

end Small

/-- A call may return its commit after `commits_observed` has returned `true`. -/
theorem commit_returned_later : ∃ (lay : Layout) (answers : ℕ → Option PublishError)
    (threads : ℕ → Client) (schedule : List ℕ) (h h' : List Event),
    historyOf lay answers threads schedule = h ++ .observed (.ok true) :: h' ∧
      .called 0 0 [] ∈ h ∧ (0, 0) ∉ h.filterMap Event.finish ∧
      .returned 0 0 [] (.ok ⟨1⟩) ∈ h' := by
  refine ⟨Small.layout, _, Small.threads, Small.schedule, Small.before, _, Small.history_eq, ?_, ?_, ?_⟩
  all_goals decide

theorem commits_observed_final_small :
    Complete ((clients Small.layout (fun _ => none) Small.threads).run Small.schedule).state
      Small.before :=
  commits_observed_final _ _ _ _ _ Small.history_eq

end Reverie.GuestLog
