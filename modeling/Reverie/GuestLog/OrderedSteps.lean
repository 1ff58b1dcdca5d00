/-
  The moves of the ordered log keep its invariant (`Inv.move`): one section per part of it,
  which ends in a theorem `move` that goes through the moves.
-/
import Reverie.GuestLog.OrderedProtocol

namespace Reverie.GuestLog
open List Function Option Words

/-! ## Layouts and readings -/

theorem Layout.options_eq (lay : Layout) : lay.limits.options = some lay.options := by
  obtain ⟨n, h⟩ := isSome_iff_exists.1 lay.accepted
  simp only [Limits.size, bind_eq_bind, bind_eq_some_iff] at h
  obtain ⟨o, ho, -⟩ := h
  rw [ho]
  unfold Limits.options checkedAdd at ho
  split_ifs at ho with _ hsum
  · exact ho.symm
  · cases ho

theorem Layout.options_size (lay : Layout) : lay.options.size.isSome := by
  obtain ⟨n, h⟩ := isSome_iff_exists.1 lay.accepted
  simp only [Limits.size, lay.options_eq, bind_eq_bind, bind_some,
    bind_eq_some_iff] at h
  obtain ⟨base, hb, -⟩ := h
  rw [hb]
  rfl

theorem Layout.two_le (lay : Layout) : 2 ≤ lay.limits.producers := by
  have h := lay.options_eq
  unfold Limits.options at h
  split_ifs at h with hc
  omega

theorem Layout.bounds (lay : Layout) :
    0 < lay.limits.slots ∧ lay.limits.producers ≤ maxProducers := by
  have h := lay.options_size
  unfold Options.size at h
  split_ifs at h with hc
  · cases h
  · simp only [Layout.options] at hc
    omega

variable {lay : Layout} {s s' : Log} {g g' : Ghost} {l l' : Local} {ι : Type} {L : ι → Local} {t : ι}

variable {n i k : ℕ} {f : Channel → Channel} {p : Pen} {b : List UInt8} {h : List Event}

theorem mod_ne_of_window {a b : ℕ} (hab : a < b) (hb : b < a + n) : a % n ≠ b % n := by
  intro h
  have h1 := Nat.sub_mod_eq_zero_of_mod_eq h.symm
  have h2 : (b - a) % n = b - a := Nat.mod_eq_of_lt (by omega)
  omega

theorem head_setChannel_of (hf : ∀ c, (f c).head = c.head) (j : ℕ) :
    World.head (s.setChannel i f) j = s.head j := by
  rw [head_setChannel]
  split_ifs with h
  · rw [hf, h]
    rfl
  · rfl

theorem tail_setChannel_of (hf : ∀ c, (f c).tail = c.tail) (j : ℕ) :
    World.tail (s.setChannel i f) j = s.tail j := by
  rw [tail_setChannel]
  split_ifs with h
  · rw [hf, h]
    rfl
  · rfl

theorem state_setChannel_of (hf : ∀ c, (f c).state = c.state)
    (j : ℕ) : World.state (s.setChannel i f) j = s.state j := by
  rw [state_setChannel]
  split_ifs with h
  · rw [hf, h]
    rfl
  · rfl

theorem state_allocate (n i : ℕ) :
    World.state { s with buffer := { s.buffer with allocated := n } } i = s.state i := rfl

/-! ## Rings -/

theorem RingInv.congr (h : RingInv lay s g) (head : ∀ i, s'.head i = s.head i)
    (tail : ∀ i, s'.tail i = s.tail i) (slots : s'.buffer.slots = s.buffer.slots)
    (journal : g'.journal = g.journal) : RingInv lay s' g' := by
  obtain ⟨hh, hb, hl, hu, hc⟩ := h
  constructor <;> simp only [head, tail, slots, journal] <;> assumption

theorem RingInv.setSlot (h : RingInv lay s g) (room : s.head i < s.tail i + lay.limits.slots)
    (f : Frame) (journal : g'.journal = g.journal) :
    RingInv lay (s.setSlot i (s.head i % lay.limits.slots) f) g' := by
  obtain ⟨hh, hb, hl, hu, hc⟩ := h
  refine ⟨by rwa [journal], hb, hl, hu, fun j n h1 h2 => ?_⟩
  rw [journal, slots_setSlot, if_neg]
  · exact hc j n h1 h2
  · rintro ⟨rfl, hn⟩
    simp only [tail_setSlot, head_setSlot] at h1 h2
    exact mod_ne_of_window h2 (by omega) hn

theorem RingInv.push (h : RingInv lay s g) (room : s.head i < s.tail i + lay.limits.slots)
    (bound : s.head i + 1 ≤ u64Max) (journal : g'.journal = update g.journal i
      (g.journal i ++ [s.buffer.slots i (s.head i % lay.limits.slots)])) :
    RingInv lay (s.setChannel i fun c => { c with head := s.head i + 1 }) g' := by
  obtain ⟨hh, hb, hl, hu, hc⟩ := h
  constructor <;> simp only [head_setChannel, tail_setChannel_of, slots_setChannel, journal,
    implies_true] <;> grind

theorem RingInv.consume (h : RingInv lay s g) (more : s.tail i < s.head i) :
    RingInv lay (s.setChannel i fun c => { c with tail := (c.tail + 1) % 2 ^ 64 }) g := by
  obtain ⟨hh, hb, hl, hu, hc⟩ := h
  have hwrap : (s.tail i + 1) % 2 ^ 64 = s.tail i + 1 := by
    have := hb i
    unfold u64Max at this
    exact Nat.mod_eq_of_lt (by omega)
  constructor <;> simp only [head_setChannel_of, tail_setChannel, slots_setChannel, implies_true] <;>
    grind [World.tail]

theorem RingInv.move (h : Inv lay s g L) (m : Move lay s g (L t) s' g' l') : RingInv lay s' g' := by
  have hr := h.ring
  have hw := h.own.writer t
  have hroom := h.pen.room
  have hcell := h.pen.cell
  generalize hL : L t = l at m
  cases m with
  | free same | reject same | lose same => exact hr.congr same.head same.tail same.slots rfl
  | reserve | cancel | activate | finish =>
    exact hr.congr (head_setChannel_of fun _ => rfl) (tail_setChannel_of fun _ => rfl) rfl rfl
  | stage f mode | stamp f mode =>
    obtain ⟨rfl, hlt⟩ := hroom _ _ (by rw [(hw _ _ hL).1, mode]; rfl)
    exact hr.setSlot hlt f rfl
  | push mode _ bound | commit mode _ _ _ bound =>
    obtain ⟨rfl, hlt⟩ := hroom _ _ (by rw [(hw _ _ hL).1, mode]; rfl)
    refine hr.push hlt bound ?_
    rw [hcell _ _ _ (by rw [(hw _ _ hL).1, mode]; rfl) (by rw [(hw _ _ hL).1, mode]; rfl)]
    rfl
  | consume =>
    refine hr.consume ?_
    have hgot := h.watch.got _ _ _ _ hL
    rw [hr.head]
    exact (List.getElem?_eq_some_iff.1 hgot).1
  | _ => exact hr.congr (fun _ => rfl) (fun _ => rfl) rfl rfl

/-! ## Pens -/

theorem PenInv.congr (h : PenInv lay s g) (head : ∀ i, s'.head i = s.head i)
    (tail : ∀ i, s'.tail i = s.tail i) (slots : s'.buffer.slots = s.buffer.slots)
    (journal : g'.journal = g.journal) (pens : g'.pens = g.pens) : PenInv lay s' g' := by
  obtain ⟨hs, hn, hr, hc⟩ := h
  constructor <;> simp only [head, tail, slots, journal, pens] <;> assumption

/-- The owner of a channel goes on, with what it knows about its ring. -/
theorem PenInv.setPen (h : PenInv lay s g) (pens : g'.pens = update g.pens i p)
    (journal : g'.journal = g.journal)
    (head : s'.head = s.head) (tail : s'.tail = s.tail) (slots : s'.buffer.slots = s.buffer.slots)
    (scan : p.scan = (g.pens i).scan) (count : p.count = (g.pens i).count)
    (frame : p.mode.frame = none)
    (room : ∀ h, p.mode.head = some h → s.head i = h ∧ h < s.tail i + lay.limits.slots) :
    PenInv lay s' g' := by
  obtain ⟨hs, hn, hr, hc⟩ := h
  constructor <;> simp only [head, tail, pens] <;> grind

theorem PenInv.setSlot (h : PenInv lay s g) {f : Frame}
    (scan : p.scan = (g.pens i).scan) (count : p.count = (g.pens i).count)
    (head : p.mode.head = some (s.head i))
    (room : s.head i < s.tail i + lay.limits.slots) (frame : p.mode.frame = some f) :
    PenInv lay (s.setSlot i (s.head i % lay.limits.slots) f) (g.setPen i p) := by
  obtain ⟨hs, hn, hr, hc⟩ := h
  constructor <;> simp only [head_setSlot, tail_setSlot, slots_setSlot, Ghost.setPen] <;> grind

theorem PenInv.push (h : PenInv lay s g) {f : Frame}
    (scan : p.scan = (g.pens i).scan.step f) (count : p.count = (g.pens i).count + 1)
    (head : p.mode.head = none) :
    PenInv lay (s.setChannel i fun c => { c with head := s.head i + 1 }) ((g.push i f).setPen i p) := by
  obtain ⟨hs, hn, hr, hc⟩ := h
  constructor <;> simp only [head_setChannel, tail_setChannel_of, slots_setChannel, Ghost.setPen,
    Ghost.push, implies_true] <;> grind [scan_append]

theorem PenInv.consume (h : PenInv lay s g) (bound : s.tail i < u64Max) :
    PenInv lay (s.setChannel i fun c => { c with tail := (c.tail + 1) % 2 ^ 64 }) g := by
  have hwrap : (s.tail i + 1) % 2 ^ 64 = s.tail i + 1 := by
    unfold u64Max at bound
    exact Nat.mod_eq_of_lt (by omega)
  refine ⟨h.scan, h.count, fun j head hm => ?_, h.cell⟩
  have := h.room j head hm
  simp only [head_setChannel_of, tail_setChannel, implies_true]
  grind [World.tail]

theorem PenInv.move (h : Inv lay s g L) (m : Move lay s g (L t) s' g' l') : PenInv lay s' g' := by
  have hp := h.pen
  have hw := h.own.writer t
  generalize hL : L t = l at m
  cases m with
  | free same | reject same | lose same => exact hp.congr same.head same.tail same.slots rfl rfl
  | reserve | cancel | activate | finish =>
    exact hp.congr (head_setChannel_of fun _ => rfl) (tail_setChannel_of fun _ => rfl) rfl rfl rfl
  | room _ room =>
    obtain ⟨rfl, -⟩ := hw _ _ hL
    exact hp.setPen rfl rfl rfl rfl rfl rfl rfl rfl (by rintro _ ⟨⟩; exact ⟨rfl, room⟩)
  | enter mode | order mode =>
    obtain ⟨rfl, -⟩ := hw _ _ hL
    refine hp.setPen rfl rfl rfl rfl rfl rfl rfl rfl ?_
    rintro _ ⟨⟩
    exact hp.room _ _ (by rw [mode]; rfl)
  | leave | depart | failed | returned =>
    obtain ⟨rfl, -⟩ := hw _ _ hL
    exact hp.setPen rfl rfl rfl rfl rfl rfl rfl rfl nofun
  | call _ mode =>
    obtain ⟨rfl, -⟩ := hw _ _ hL
    refine hp.setPen rfl rfl rfl rfl rfl rfl rfl (by simp only [mode]; rfl) ?_
    simp only [mode]
    nofun
  | stage f mode | stamp f mode =>
    obtain ⟨rfl, -⟩ := hw _ _ hL
    obtain ⟨rfl, hlt⟩ := hp.room _ _ (by rw [mode]; rfl)
    exact hp.setSlot rfl rfl rfl hlt rfl
  | push mode | commit mode =>
    obtain ⟨rfl, -⟩ := hw _ _ hL
    obtain ⟨rfl, -⟩ := hp.room _ _ (by rw [mode]; rfl)
    exact hp.push rfl rfl rfl
  | consume =>
    have hlt := (List.getElem?_eq_some_iff.1 (h.watch.got _ _ _ _ hL)).1
    rw [← h.ring.head] at hlt
    exact hp.consume (hlt.trans_le (h.ring.bound _))
  | _ => exact hp.congr (fun _ => rfl) (fun _ => rfl) rfl rfl rfl

/-! ## Owners -/

section
variable [DecidableEq ι]

theorem OwnInv.congr (h : OwnInv lay s g L) (allocated : s'.buffer.allocated = s.buffer.allocated)
    (state : ∀ i, s'.state i = s.state i) (pens : g'.pens = g.pens)
    (writer : ∀ i p, l' = .writer i p ↔ L t = .writer i p)
    (child : ∀ i, l' = .child i ↔ L t = .child i) :
    OwnInv lay s' g' (update L t l') := by
  obtain ⟨h1, h2, h3, h4, h5, h6, h7⟩ := h
  simp only [World.owned] at h3 h4
  constructor <;> simp only [allocated, update_apply, World.owned] <;> grind

theorem OwnInv.setPen (h : OwnInv lay s g L) {i : ℕ} {p p' : Pen} (hL : L t = .writer i p)
    (allocated : s'.buffer.allocated = s.buffer.allocated)
    (state : ∀ i, s'.state i = s.state i) (pens : g'.pens = update g.pens i p') :
    OwnInv lay s' g' (update L t (.writer i p')) := by
  obtain ⟨h1, h2, h3, h4, h5, h6, h7⟩ := h
  simp only [World.owned] at h3 h4
  constructor <;> simp only [allocated, pens, update_apply, World.owned] <;> grind

theorem OwnInv.move (h : Inv lay s g L) (m : Move lay s g (L t) s' g' l') :
    OwnInv lay s' g' (update L t l') := by
  have ho := h.own
  generalize hL : L t = l at m
  cases m with
  | free same | reject same | lose same =>
    exact ho.congr same.allocated same.state rfl (by simp [hL]) (by simp [hL])
  | stay | close => exact ho.congr rfl (fun _ => rfl) rfl (by simp [hL]) (by simp [hL])
  | allocate room =>
    obtain ⟨h1, h2, h3, h4, h5, h6, h7⟩ := ho
    simp only [World.owned] at h3 h4
    constructor <;> simp only [update_apply, state_allocate, World.owned] <;> grind
  | reserve | cancel | activate | finish =>
    obtain ⟨h1, h2, h3, h4, h5, h6, h7⟩ := ho
    simp only [World.owned] at h3 h4
    constructor <;> simp only [update_apply, state_setChannel, allocated_setChannel,
      World.owned] <;> grind
  | push | commit => exact ho.setPen hL rfl (state_setChannel_of fun _ => rfl) rfl
  | room | stage | enter | leave | order | stamp | depart | call | failed | returned =>
    exact ho.setPen hL rfl (fun _ => rfl) rfl
  | consume => exact ho.congr rfl (state_setChannel_of fun _ => rfl) rfl (by simp [hL]) (by simp [hL])
  | _ => exact ho.congr rfl (fun _ => rfl) rfl (by simp [hL]) (by simp [hL])

end

/-! ## Orders -/

theorem Scan.records_step_of_ne (s : Scan) {f : Frame} (kind : f.kind ≠ .END) :
    (s.step f).records = s.records := by
  unfold Scan.step
  split <;> simp_all

theorem OrderInv.congr (h : OrderInv s g) (next : s'.rest.nextOrder = s.rest.nextOrder)
    (pens : g'.pens = g.pens) (orders : g'.orders = g.orders) : OrderInv s' g' := by
  obtain ⟨h1, h2, h3, h4⟩ := h
  constructor <;> simp only [next, pens, orders] <;> assumption

/-- The owner of a channel goes on in its call, with the order that it has
    taken. -/
theorem OrderInv.setPen (h : OrderInv s g) (pens : g'.pens = update g.pens i p)
    (orders : g'.orders = g.orders)
    (next : s'.rest.nextOrder = s.rest.nextOrder) (scan : p.scan.records = (g.pens i).scan.records)
    (call : p.call = (g.pens i).call) (order : p.mode.order = (g.pens i).mode.order)
    (bytes : p.mode.order.isSome → p.bytes = (g.pens i).bytes) : OrderInv s' g' := by
  obtain ⟨h1, h2, h3, h4⟩ := h
  constructor <;> simp only [pens, orders] <;> grind

theorem OrderInv.take (h : OrderInv s g) {head : ℕ}
    (mode : (g.pens i).mode = .inside head) (bytes : (g.pens i).bytes = some b) :
    OrderInv (s.set fun r => { r with nextOrder := r.nextOrder + 1 })
      ({ g with orders := g.orders ++ [(i, (g.pens i).call, b)] }.setPen i
        { g.pens i with mode := .ordered head s.rest.nextOrder }) := by
  obtain ⟨h1, h2, h3, h4⟩ := h
  have hold : ∀ (m : ℕ) e, g.orders[m]? = some e →
      (g.orders ++ [(i, (g.pens i).call, b)])[m]? = some e := by grind
  have hnew : ∀ (m : ℕ) e, (g.orders ++ [(i, (g.pens i).call, b)])[m]? = some e →
      g.orders[m]? = some e ∨ (m = g.orders.length ∧ e = (i, (g.pens i).call, b)) := by grind
  refine ⟨by simp [Ghost.setPen, h1], fun j n c hn => ?_, fun j n hn => ?_, fun m j k c hm => ?_⟩
  · have hrec : (n, c) ∈ (g.pens j).scan.records := by
      simp only [Ghost.setPen, update_apply] at hn
      split_ifs at hn with hj
      · rwa [hj]
      · exact hn
    obtain ⟨m, k, hm, ho⟩ := h2 j n c hrec
    exact ⟨m, k, hm, hold _ _ ho⟩
  · simp only [Ghost.setPen, update_apply] at hn ⊢
    split_ifs at hn ⊢ with hj
    · obtain rfl : s.rest.nextOrder = n := by simpa [Mode.order] using hn
      exact ⟨g.orders.length, b, h1, bytes, by simp [hj]⟩
    · obtain ⟨m, c, hm, hb, ho⟩ := h3 j n hn
      exact ⟨m, c, hm, hb, hold _ _ ho⟩
  · simp only [Ghost.setPen] at hm ⊢
    rcases hnew _ _ hm with ho | ⟨rfl, he⟩
    · have := h4 m j k c ho
      grind [Mode.order]
    · grind [Mode.order]

theorem OrderInv.move (h : Inv lay s g L) (m : Move lay s g (L t) s' g' l') : OrderInv s' g' := by
  have ho := h.order
  have hw := h.own.writer t
  generalize hL : L t = l at m
  cases m with
  | free same | reject same | lose same => exact ho.congr same.nextOrder rfl rfl
  | room mode | stage _ mode | enter mode | leave mode | stamp _ mode | depart mode =>
    obtain ⟨rfl, -⟩ := hw _ _ hL
    exact ho.setPen rfl rfl rfl rfl rfl (by rw [mode]; rfl) fun _ => rfl
  | push mode kind =>
    obtain ⟨rfl, -⟩ := hw _ _ hL
    exact ho.setPen rfl rfl rfl (Scan.records_step_of_ne _ kind) rfl (by rw [mode]; rfl) fun _ => rfl
  | call _ mode =>
    obtain ⟨rfl, -⟩ := hw _ _ hL
    exact ho.setPen rfl rfl rfl rfl rfl rfl (by simp only [mode]; nofun)
  | order mode bytes =>
    obtain ⟨rfl, -⟩ := hw _ _ hL
    exact ho.take mode bytes
  | commit mode kind number body =>
    obtain ⟨rfl, -⟩ := hw _ _ hL
    obtain ⟨h1, h2, h3, h4⟩ := ho
    have := h3 _ _ (by rw [mode]; rfl)
    constructor <;> simp only [Ghost.setPen, Ghost.push, rest_setChannel, Scan.step] <;>
      grind [Mode.order]
  | failed _ mode =>
    obtain ⟨h1, h2, h3, h4⟩ := ho
    constructor <;> simp only [Ghost.setPen, rest_set] <;> grind [Mode.order]
  | returned mode =>
    obtain ⟨h1, h2, h3, h4⟩ := ho
    constructor <;> simp only [Ghost.setPen, rest_set] <;> grind [Mode.order]
  | _ => exact ho.congr rfl rfl rfl

/-! ## Histories -/

@[simp] theorem delivered_append (h h' : List Event) :
    delivered (h ++ h') = delivered h ++ delivered h' := filterMap_append

theorem delivered_delivered (r : Record) : delivered [.delivered r] = [r] := rfl

theorem HistoryInv.congr (h : HistoryInv s g) (history : s'.rest.history = s.rest.history)
    (pens : g'.pens = g.pens) (orders : g'.orders = g.orders) : HistoryInv s' g' := by
  obtain ⟨h1, h2, h3, h4, h5, h6, h7⟩ := h
  constructor <;> simp only [history, pens, orders] <;> assumption

theorem HistoryInv.setPen (h : HistoryInv s g) (pens : g'.pens = update g.pens i p)
    (orders : g'.orders = g.orders)
    (history : s'.rest.history = s.rest.history) (scan : (g.pens i).scan.records <+: p.scan.records)
    (call : p.call = (g.pens i).call) (bytes : p.bytes = (g.pens i).bytes) : HistoryInv s' g' := by
  obtain ⟨h1, h2, h3, h4, h5, h6, h7⟩ := h
  constructor <;> simp only [history, pens] <;> grind

theorem HistoryInv.move (h : Inv lay s g L) (m : Move lay s g (L t) s' g' l') : HistoryInv s' g' := by
  have hh := h.history
  have hw := h.own.writer t
  generalize hL : L t = l at m
  cases m with
  | free same | reject same | lose same => exact hh.congr same.history rfl rfl
  | room | stage | enter | leave | stamp | depart =>
    obtain ⟨rfl, -⟩ := hw _ _ hL
    exact hh.setPen rfl rfl rfl prefix_rfl rfl rfl
  | push | commit =>
    obtain ⟨rfl, -⟩ := hw _ _ hL
    exact hh.setPen rfl rfl rfl (Scan.records_step _ _) rfl rfl
  | @order _ i _ _ b mode bytes =>
    obtain ⟨rfl, -⟩ := hw _ _ hL
    obtain ⟨h1, h2, h3, h4, h5, h6, h7⟩ := hh
    have hold : ∀ (m : ℕ) e, g.orders[m]? = some e →
        (g.orders ++ [(i, (g.pens i).call, b)])[m]? = some e := by grind
    constructor <;> simp only [Ghost.setPen, rest_set]
    all_goals grind
  | call b mode bytes =>
    obtain ⟨h1, h2, h3, h4, h5, h6, h7⟩ := hh
    constructor <;> simp only [Ghost.setPen, rest_set] <;> grind [delivered]
  | failed e mode bytes =>
    obtain ⟨rfl, -⟩ := hw _ _ hL
    obtain ⟨h1, h2, h3, h4, h5, h6, h7⟩ := hh
    have ho := h.order.call
    constructor <;> simp only [Ghost.setPen, rest_set] <;> grind [delivered, Mode.order]
  | returned mode bytes =>
    obtain ⟨rfl, -⟩ := hw _ _ hL
    obtain ⟨h1, h2, h3, h4, h5, h6, h7⟩ := hh
    have ho := h.order.call
    have ht := h.order.taken _ _ (by rw [mode]; rfl)
    constructor <;> simp only [Ghost.setPen, rest_set] <;> grind [delivered]
  | deliver found =>
    obtain ⟨h1, h2, h3, h4, h5, h6, h7⟩ := hh
    have hp := h.watch.pending _ _ _ hL _ _ found
    have hn := h.watch.next _ _ _ hL
    constructor <;> simp only [rest_set, delivered_append]
    case orders =>
      rw [map_append, h7]
      simp [delivered_delivered, List.range'_concat, hp.1, hn, Nat.add_comm 1]
    all_goals grind [delivered]
  | observed r whole =>
    obtain ⟨h1, h2, h3, h4, h5, h6, h7⟩ := hh
    constructor <;> simp only [rest_set] <;> grind [delivered]
  | _ => exact hh.congr rfl rfl rfl

/-! ## Calls -/

theorem mem_starts : (i, k) ∈ h.filterMap Event.start ↔ ∃ b, .called i k b ∈ h := by
  simp only [mem_filterMap]
  constructor
  · rintro ⟨e, he, hs⟩
    cases e <;> simp [Event.start] at hs
    obtain ⟨rfl, rfl⟩ := hs
    exact ⟨_, he⟩
  · rintro ⟨b, hb⟩
    exact ⟨_, hb, rfl⟩

theorem mem_finishes : (i, k) ∈ h.filterMap Event.finish ↔ ∃ b r, .returned i k b r ∈ h := by
  simp only [mem_filterMap]
  constructor
  · rintro ⟨e, he, hs⟩
    cases e <;> simp [Event.finish] at hs
    obtain ⟨rfl, rfl⟩ := hs
    exact ⟨_, _, he⟩
  · rintro ⟨b, r, hb⟩
    exact ⟨_, hb, rfl⟩

theorem filterMap_concat {α β : Type} (f : α → Option β) (xs : List α) (x : α) :
    (xs ++ [x]).filterMap f = xs.filterMap f ++ (f x).toList := by
  cases h : f x <;> simp [h]

theorem CallInv.congr (h : CallInv s g) (history : s'.rest.history = s.rest.history)
    (call : ∀ i, (g'.pens i).call = (g.pens i).call)
    (bytes : ∀ i, (g'.pens i).bytes = (g.pens i).bytes) : CallInv s' g' := by
  obtain ⟨h1, h2, h3⟩ := h
  constructor <;> simp only [history, call, bytes] <;> assumption

theorem CallInv.setPen (h : CallInv s g) (pens : g'.pens = update g.pens i p)
    (history : s'.rest.history = s.rest.history)
    (call : p.call = (g.pens i).call) (bytes : p.bytes = (g.pens i).bytes) : CallInv s' g' := by
  refine h.congr history (fun j => ?_) fun j => ?_
  all_goals
    rw [pens, update_apply]
    split_ifs with hj
    · simp [hj, call, bytes]
    · rfl

theorem CallInv.note (h : CallInv s g) {e : Event} (history : s'.rest.history = s.rest.history ++ [e])
    (start : e.start = none) (finish : e.finish = none) : CallInv s' g := by
  obtain ⟨h1, h2, h3⟩ := h
  refine ⟨fun i k b hb => ?_, ?_, ?_⟩
  · rw [history, mem_append, mem_singleton] at hb
    rcases hb with hb | rfl
    · exact h1 i k b hb
    · cases start
  · rwa [history, filterMap_concat, start, toList_none, append_nil]
  · rwa [history, filterMap_concat, finish, toList_none, append_nil]

theorem CallInv.call (h : CallInv s g) (bytes : (g.pens i).bytes = none) :
    CallInv (s.set fun r => { r with history := r.history ++ [.called i (g.pens i).call b] })
      (g.setPen i { g.pens i with bytes := some b }) := by
  obtain ⟨h1, h2, h3⟩ := h
  refine ⟨fun j k c hc => ?_, ?_, ?_⟩
  · simp only [rest_set] at hc
    simp only [Ghost.setPen]
    grind
  · simp only [rest_set, filterMap_concat, Event.start]
    refine nodup_append.2 ⟨h2, nodup_singleton _, ?_⟩
    rintro ⟨j, k⟩ hj _ hk rfl
    obtain ⟨rfl, rfl⟩ : j = i ∧ k = (g.pens i).call := by simpa using hk
    obtain ⟨c, hc⟩ := mem_starts.1 hj
    rcases h1 _ _ _ hc with hlt | ⟨-, hn⟩
    · exact absurd hlt (lt_irrefl _)
    · exact hn bytes
  · simpa only [rest_set, filterMap_concat, Event.finish, toList_none, append_nil] using h3

theorem CallInv.finish (h : CallInv s g) (hh : HistoryInv s g) {r : Except PublishError RecordCommit} :
    CallInv (s.set fun o => { o with history := o.history ++ [.returned i (g.pens i).call b r] })
      (g.setPen i { g.pens i with bytes := none, call := (g.pens i).call + 1, mode := .idle }) := by
  obtain ⟨h1, h2, h3⟩ := h
  refine ⟨fun j k c hc => ?_, ?_, ?_⟩
  · simp only [rest_set] at hc
    simp only [Ghost.setPen]
    grind
  · simpa only [rest_set, filterMap_concat, Event.start, toList_none, append_nil] using h2
  · simp only [rest_set, filterMap_concat, Event.finish]
    refine nodup_append.2 ⟨h3, nodup_singleton _, ?_⟩
    rintro ⟨j, k⟩ hj _ hk rfl
    obtain ⟨rfl, rfl⟩ : j = i ∧ k = (g.pens i).call := by simpa using hk
    obtain ⟨c, r, hc⟩ := mem_finishes.1 hj
    exact absurd (hh.past _ _ _ _ hc) (lt_irrefl _)

theorem CallInv.move (h : Inv lay s g L) (m : Move lay s g (L t) s' g' l') : CallInv s' g' := by
  have hc := h.calls
  have hw := h.own.writer t
  generalize hL : L t = l at m
  cases m with
  | free same | reject same | lose same => exact hc.congr same.history (fun _ => rfl) fun _ => rfl
  | room | stage | enter | leave | order | stamp | depart | push | commit =>
    obtain ⟨rfl, -⟩ := hw _ _ hL
    exact hc.setPen rfl rfl rfl rfl
  | call b mode bytes =>
    obtain ⟨rfl, -⟩ := hw _ _ hL
    exact hc.call bytes
  | failed | returned =>
    obtain ⟨rfl, -⟩ := hw _ _ hL
    exact hc.finish h.history
  | deliver | observed => exact hc.note rfl rfl rfl
  | _ => exact hc.congr rfl (fun _ => rfl) fun _ => rfl

/-! ## Admissions -/

theorem closed_add (hn : n < CLOSED) (b : Bool) : closed (n + if b then CLOSED else 0) = b := by
  cases b
  · simpa [closed] using hn
  · simp [closed]

theorem entrants_add (hn : n < CLOSED) (b : Bool) : entrants (n + if b then CLOSED else 0) = n := by
  cases b
  · exact Nat.mod_eq_of_lt hn
  · simp only [entrants, if_true, Nat.add_mod_right]
    exact Nat.mod_eq_of_lt hn

theorem wrappingSub_add (hn : 0 < n) (hc : n < CLOSED) (b : Bool) :
    wrappingSub (n + if b then CLOSED else 0) 1 = n - 1 + if b then CLOSED else 0 := by
  unfold wrappingSub CLOSED at *
  split_ifs <;> omega

theorem card_insiders_lt (g : Ghost) (role : Role) : (g.insiders role).card < CLOSED := by
  have h : (g.insiders role).card ≤ (Finset.range maxProducers).card := Finset.card_filter_le _ _
  rw [Finset.card_range] at h
  unfold maxProducers at h
  unfold CLOSED
  omega

theorem insiders_of_ne (pens : g'.pens = update g.pens i p) {role : Role}
    (h : roleOf i ≠ role) : g'.insiders role = g.insiders role := by
  refine Finset.filter_congr fun j _ => ?_
  rw [pens, update_apply]
  split_ifs with hj
  · simp [hj, h]
  · rfl

theorem insiders_of_inside (pens : g'.pens = update g.pens i p)
    (h : p.mode.isInside = (g.pens i).mode.isInside) (role : Role) :
    g'.insiders role = g.insiders role := by
  refine Finset.filter_congr fun j _ => ?_
  rw [pens, update_apply]
  split_ifs with hj
  · rw [h, hj]
  · rfl

theorem insiders_enter (pens : g'.pens = update g.pens i p)
    (bound : i < maxProducers) (h : p.mode.isInside = true) :
    g'.insiders (roleOf i) = insert i (g.insiders (roleOf i)) := by
  simp only [Ghost.insiders, pens]
  grind

theorem insiders_leave (pens : g'.pens = update g.pens i p) (h : p.mode.isInside = false) :
    g'.insiders (roleOf i) = (g.insiders (roleOf i)).erase i := by
  simp only [Ghost.insiders, pens]
  grind

theorem CountInv.congr (h : CountInv s g) (admission : s'.rest.admission = s.rest.admission)
    (insiders : ∀ role, g'.insiders role = g.insiders role) : CountInv s' g' := by
  intro role
  rw [admission, insiders]
  exact h role

theorem CountInv.enter (h : CountInv s g) (bound : i < maxProducers)
    (pens : g'.pens = update g.pens i p) (old : (g.pens i).mode.isInside = false)
    (new : p.mode.isInside = true) :
    CountInv (s.set fun r => { r with
      admission := update r.admission (roleOf i) (s.rest.admission (roleOf i) + 1) }) g' := by
  intro role
  obtain ⟨b, hb⟩ := h role
  refine ⟨b, ?_⟩
  rcases eq_or_ne role (roleOf i) with rfl | hr
  · have hi : i ∉ g.insiders (roleOf i) := by simp [Ghost.insiders, old]
    simp only [rest_set, update_self]
    rw [insiders_enter pens bound new, Finset.card_insert_of_notMem hi]
    omega
  · simp only [rest_set, update_of_ne hr]
    rw [insiders_of_ne pens hr.symm, hb]

theorem CountInv.leave (h : CountInv s g) (bound : i < maxProducers)
    (pens : g'.pens = update g.pens i p) (old : (g.pens i).mode.isInside = true)
    (new : p.mode.isInside = false) :
    CountInv (s.set fun r => { r with
      admission := update r.admission (roleOf i)
        (wrappingSub (r.admission (roleOf i)) 1) }) g' := by
  intro role
  obtain ⟨b, hb⟩ := h role
  refine ⟨b, ?_⟩
  rcases eq_or_ne role (roleOf i) with rfl | hr
  · have hi : i ∈ g.insiders (roleOf i) := by
      simp [Ghost.insiders, old, bound]
    simp only [rest_set, update_self]
    rw [insiders_leave pens new, Finset.card_erase_of_mem hi, hb,
      wrappingSub_add (Finset.card_pos.2 ⟨i, hi⟩) (card_insiders_lt g _)]
  · simp only [rest_set, update_of_ne hr]
    rw [insiders_of_ne pens hr.symm, hb]

theorem CountInv.close (h : CountInv s g) (role : Role) :
    CountInv (s.set fun r => { r with
      admission := update r.admission role
        (if closed (r.admission role) then r.admission role else r.admission role + CLOSED) }) g := by
  intro role'
  obtain ⟨b, hb⟩ := h role'
  simp only [rest_set, update_apply]
  split_ifs with hr hc
  · exact ⟨b, by rw [← hr, hb]⟩
  · subst hr
    rw [hb, closed_add (card_insiders_lt g _)] at hc
    simp [hb, hc]
  · exact ⟨b, hb⟩

theorem CountInv.move (h : Inv lay s g L) (m : Move lay s g (L t) s' g' l') : CountInv s' g' := by
  have hc := h.count
  have hw := h.own.writer t
  have hb : s.buffer.allocated ≤ maxProducers := h.own.bound.trans lay.bounds.2
  generalize hL : L t = l at m
  cases m with
  | free same | reject same | lose same => exact hc.congr same.admission fun _ => rfl
  | close role => exact hc.close role
  | room mode | stage _ mode | order mode | stamp _ mode | push mode | commit mode
  | returned mode =>
    obtain ⟨rfl, -⟩ := hw _ _ hL
    exact hc.congr rfl (insiders_of_inside rfl (by rw [mode]; rfl))
  | call =>
    obtain ⟨rfl, -⟩ := hw _ _ hL
    exact hc.congr rfl (insiders_of_inside rfl rfl)
  | failed _ mode =>
    obtain ⟨rfl, -⟩ := hw _ _ hL
    refine hc.congr rfl (insiders_of_inside rfl ?_)
    rcases mode with hm | ⟨_, hm⟩
    · rw [hm]
    · rw [hm]
      rfl
  | enter mode =>
    obtain ⟨rfl, hi, -⟩ := hw _ _ hL
    exact hc.enter (hi.trans_le hb) rfl (by rw [mode]; rfl) rfl
  | leave mode | depart mode =>
    obtain ⟨rfl, hi, -⟩ := hw _ _ hL
    exact hc.leave (hi.trans_le hb) rfl (by rw [mode]; rfl) rfl
  | _ => exact hc.congr rfl fun _ => rfl

/-! ## The collector -/

section
variable [DecidableEq ι]

theorem WatchInv.congr (h : WatchInv s g L) (ring : RingInv lay s g) (tail : ∀ i, s'.tail i = s.tail i)
    (head : ∀ i, s.head i ≤ s'.head i) (journal : ∀ i, g.journal i <+: g'.journal i)
    (records : ∀ i, (g.pens i).scan.records <+: (g'.pens i).scan.records)
    (collector : s'.rest.collector = s.rest.collector)
    (history : delivered s'.rest.history = delivered s.rest.history)
    (new : ∀ c w, l' = .collector c w → L t = .collector c w) :
    WatchInv s' g' (Function.update L t l') := by
  have hL : ∀ u c w, Function.update L t l' u = .collector c w → L u = .collector c w := by
    intro u c w hu
    rw [Function.update_apply] at hu
    split_ifs at hu with ht
    · rw [ht]
      exact new c w hu
    · exact hu
  have htake : ∀ i, (g'.journal i).take (s.tail i) = (g.journal i).take (s.tail i) := by
    intro i
    obtain ⟨rest, hr⟩ := journal i
    rw [← hr, List.take_append_of_le_length]
    rw [← ring.head]
    exact ring.lower i
  obtain ⟨h1, h2, h3, h4, h5, h6, h7, h8, h9⟩ := h
  refine ⟨?one, ?claimed, ?fresh, ?decode, ?pending, ?next, ?seen, ?avail, ?got⟩
  all_goals try simp only [tail, collector, history, htake]
  case one => exact fun u u' c c' w w' hu hu' => h1 _ _ _ _ _ _ (hL _ _ _ hu) (hL _ _ _ hu')
  case claimed => exact fun u c w hu => h2 _ _ _ (hL _ _ _ hu)
  case fresh => exact h3
  case decode => exact fun u c w hu => h4 _ _ _ (hL _ _ _ hu)
  case pending =>
    intro u c w hu n r hr
    obtain ⟨ho, hm⟩ := h5 _ _ _ (hL _ _ _ hu) n r hr
    exact ⟨ho, (records _).subset hm⟩
  case next => exact fun u c w hu => h6 _ _ _ (hL _ _ _ hu)
  case seen => exact fun u c i n hu => h7 _ _ _ _ (hL _ _ _ hu)
  case avail => exact fun u c i n hu => (h8 _ _ _ _ (hL _ _ _ hu)).imp_right (·.trans_le (head i))
  case got =>
    intro u c i f hu
    obtain ⟨rest, hr⟩ := journal i
    have hf := h9 _ _ _ _ (hL _ _ _ hu)
    rwa [← hr, List.getElem?_append_left (List.getElem?_eq_some_iff.1 hf).1]

variable {i : ℕ} {p p' : Pen} {f : Frame} {c c' : Collector} {w : Watch} {role r : Role}

theorem WatchInv.setPen (h : WatchInv s g L) (ring : RingInv lay s g) (hL : L t = .writer i p)
    (pens : g'.pens = update g.pens i p')
    (journal : g'.journal = g.journal) (tail : s'.tail = s.tail) (head : s'.head = s.head)
    (collector : s'.rest.collector = s.rest.collector)
    (history : delivered s'.rest.history = delivered s.rest.history)
    (scan : p'.scan = (g.pens i).scan) :
    WatchInv s' g' (update L t (.writer i p')) := by
  refine h.congr ring (by simp [tail]) (by simp [head]) (by simp [journal]) (fun j => ?_) collector
    history (by simp [hL])
  rw [pens, update_apply]
  split_ifs with hj
  · rw [scan, hj]
  · exact prefix_rfl

theorem WatchInv.push (h : WatchInv s g L) (ring : RingInv lay s g) (hL : L t = .writer i p)
    (scan : p'.scan = (g.pens i).scan.step f) :
    WatchInv (s.setChannel i fun c => { c with head := s.head i + 1 }) ((g.push i f).setPen i p')
      (update L t (.writer i p')) := by
  refine h.congr ring (tail_setChannel_of fun _ => rfl) (fun j => ?_) (fun j => ?_) (fun j => ?_) rfl
    rfl (by simp [hL])
  · rw [head_setChannel]
    split_ifs with hj
    · simp [hj]
    · exact le_rfl
  · simp only [Ghost.push, Ghost.setPen, update_apply]
    split_ifs with hj
    · simp [hj]
    · exact prefix_rfl
  · simp only [Ghost.setPen, update_apply]
    split_ifs with hj
    · rw [hj, scan]
      exact Scan.records_step _ _
    · exact prefix_rfl

theorem WatchInv.of (one : ∀ u c w, u ≠ t → L u ≠ .collector c w)
    (claimed : s.rest.collector = true) (decode : ∀ i, c.rejected i = none →
      (c.partials i).map (·.bytes) = (scan ((g.journal i).take (s.tail i))).body)
    (pending : ∀ (n : ℕ) r, c.pending[n]? = some r →
      r.order = n ∧ (n, r.bytes) ∈ (g.pens r.producer).scan.records)
    (next : c.next = (delivered s.rest.history).length + 1)
    (seen : ∀ i n, w = .seen i n → s.tail i = n)
    (avail : ∀ i n, w = .avail i n → s.tail i = n ∧ n < s.head i)
    (got : ∀ i f, w = .got i f → (g.journal i)[s.tail i]? = some f) :
    WatchInv s g (update L t (.collector c w)) := by
  have hL : ∀ u c' w', update L t (.collector c w) u = .collector c' w' →
      u = t ∧ c' = c ∧ w' = w := by
    intro u c' w' hu
    by_cases ht : u = t
    · subst ht
      simp only [update_self, Local.collector.injEq] at hu
      exact ⟨rfl, hu.1.symm, hu.2.symm⟩
    · rw [update_of_ne ht] at hu
      exact absurd hu (one u c' w' ht)
  refine ⟨fun u u' _ _ _ _ hu hu' => ?_, fun _ _ _ _ => claimed, by simp [claimed],
    fun u c' w' hu => ?_, fun u c' w' hu => ?_, fun u c' w' hu => ?_, fun u c' i n hu => ?_,
    fun u c' i n hu => ?_, fun u c' i f hu => ?_⟩
  · rw [(hL _ _ _ hu).1, (hL _ _ _ hu').1]
  all_goals obtain ⟨rfl, rfl, rfl⟩ := hL _ _ _ hu
  · exact decode
  · exact pending
  · exact next
  · exact seen i n rfl
  · exact avail i n rfl
  · exact got i f rfl

omit [DecidableEq ι] in
theorem WatchInv.only (h : WatchInv s g L) (hL : L t = .collector c w) :
    ∀ u c w, u ≠ t → L u ≠ .collector c w :=
  fun _ _ _ hu hc => hu (h.one _ _ _ _ _ _ hc hL)

theorem WatchInv.look (h : WatchInv s g L) {w' : Watch} (hL : L t = .collector c w)
    (tail : s'.tail = s.tail) (head : s'.head = s.head)
    (collector : s'.rest.collector = s.rest.collector)
    (history : delivered s'.rest.history = delivered s.rest.history)
    (seen : ∀ i n, w' = .seen i n → s.tail i = n)
    (avail : ∀ i n, w' = .avail i n → s.tail i = n ∧ n < s.head i)
    (got : ∀ i f, w' = .got i f → (g.journal i)[s.tail i]? = some f) :
    WatchInv s' g (update L t (.collector c w')) := by
  refine .of (h.only hL) (by rw [collector, h.claimed _ _ _ hL]) ?_ (h.pending _ _ _ hL) ?_ ?_ ?_ ?_
  · rw [tail]
    exact h.decode _ _ _ hL
  · rw [history]
    exact h.next _ _ _ hL
  · rwa [tail]
  · rwa [tail, head]
  · rwa [tail]

theorem WatchInv.attach (h : WatchInv s g L) (idle : s.rest.collector = false)
    (partials : ∀ i, c.partials i = none) (pending : c.pending = ∅) (next : c.next = 1) :
    WatchInv (s.set fun r => { r with collector := true }) g
      (update L t (.collector c .idle)) := by
  obtain ⟨htail, hdel⟩ := h.fresh idle
  refine .of (fun u c w _ hu => ?_) rfl (fun i _ => ?_) (by simp [pending]) (by simp [hdel, next])
    nofun nofun nofun
  · simpa [idle] using h.claimed u c w hu
  · simp [htail, partials, scan]

omit [DecidableEq ι] in
/-- What the collector holds after it has decoded the next frame of a channel. -/
theorem WatchInv.decoded (h : WatchInv s g L) (pen : PenInv lay s g)
    (hL : L t = .collector c (.got i f)) (opened : c.rejected i = none)
    (decodes : Decodes c i f c') :
    scan ((g.journal i).take (s.tail i + 1)) = (scan ((g.journal i).take (s.tail i))).step f ∧
      ∀ (n : ℕ) r, c'.pending[n]? = some r →
        r.order = n ∧ (n, r.bytes) ∈ (g.pens r.producer).scan.records := by
  have htake : scan ((g.journal i).take (s.tail i + 1)) =
      (scan ((g.journal i).take (s.tail i))).step f := by
    rw [take_add_one, h.got _ _ _ _ hL]
    exact scan_append _ _
  refine ⟨htake, fun n r hr => ?_⟩
  rcases decodes.pending n r hr with hr | ⟨ho, hp, hrec⟩
  · exact h.pending _ _ _ hL n r hr
  · refine ⟨ho, ?_⟩
    have hmem := hrec _ (h.decode _ _ _ hL i opened)
    rw [hp, pen.scan]
    rw [← htake] at hmem
    exact (records_take _ _).subset hmem

theorem WatchInv.consume (h : WatchInv s g L) (ring : RingInv lay s g) (pen : PenInv lay s g)
    (hL : L t = .collector c (.got i f))
    (opened : c.rejected i = none) (decodes : Decodes c i f c') :
    WatchInv (s.setChannel i fun c => { c with tail := (c.tail + 1) % 2 ^ 64 }) g
      (Function.update L t (.collector c' .idle)) := by
  have hwrap : (s.tail i + 1) % 2 ^ 64 = s.tail i + 1 := by
    have h1 := (List.getElem?_eq_some_iff.1 (h.got _ _ _ _ hL)).1
    have h2 := ring.bound i
    rw [← ring.head] at h1
    unfold u64Max at h2
    exact Nat.mod_eq_of_lt (by omega)
  obtain ⟨htake, hpending⟩ := h.decoded pen hL opened decodes
  refine .of (h.only hL) (h.claimed _ _ _ hL) (fun j hj => ?_) hpending ?_ nofun nofun nofun
  · rw [decodes.rejected] at hj
    rw [tail_setChannel]
    split_ifs with hji
    · subst hji
      change _ = (scan ((g.journal j).take ((s.tail j + 1) % 2 ^ 64))).body
      rw [hwrap, htake]
      exact decodes.body _ (h.decode _ _ _ hL j hj)
    · rw [decodes.partials j hji]
      exact h.decode _ _ _ hL j hj
  · rw [decodes.next]
    exact h.next _ _ _ hL

/-- The collector decodes the next frame of a channel, but keeps it as rejected. -/
theorem WatchInv.reject (h : WatchInv s g L) (pen : PenInv lay s g) (same : Same s s')
    (hL : L t = .collector c (.got i f)) (opened : c.rejected i = none)
    (decodes : Decodes c i f c') :
    WatchInv s' g (update L t
      (.collector { c' with rejected := update c'.rejected i (some f) } .idle)) := by
  obtain ⟨-, hpending⟩ := h.decoded pen hL opened decodes
  refine .of (h.only hL) (by rw [same.collector, h.claimed _ _ _ hL]) (fun j hj => ?_) hpending ?_
    nofun nofun nofun
  · rcases eq_or_ne j i with rfl | hji
    · simp at hj
    · simp only [update_of_ne hji, decodes.rejected] at hj
      simp only [decodes.partials j hji, same.tail]
      exact h.decode _ _ _ hL j hj
  · rw [same.history]
    exact decodes.next.trans (h.next _ _ _ hL)

theorem WatchInv.lose (h : WatchInv s g L) (same : Same s s')
    (hL : L t = .collector c w) (partials : c'.partials = c.partials)
    (rejected : ∀ i, c'.rejected i = none → c.rejected i = none)
    (pending : ∀ (n : ℕ) r, c'.pending[n]? = some r → c.pending[n]? = some r)
    (next : c'.next = c.next) : WatchInv s' g (update L t (.collector c' .idle)) := by
  refine .of (h.only hL) (by rw [same.collector, h.claimed _ _ _ hL]) (fun j hj => ?_)
    (fun n r hr => h.pending _ _ _ hL n r (pending n r hr)) ?_ nofun nofun nofun
  · rw [partials, same.tail]
    exact h.decode _ _ _ hL j (rejected j hj)
  · rw [same.history, next]
    exact h.next _ _ _ hL

theorem WatchInv.deliver (h : WatchInv s g L) {r : Record}
    (hL : L t = .collector c w) (partials : c'.partials = c.partials)
    (rejected : c'.rejected = c.rejected)
    (pending : ∀ (n : ℕ) r, c'.pending[n]? = some r → c.pending[n]? = some r)
    (next : c'.next = c.next + 1) :
    WatchInv
      (s.set fun o => { o with history := o.history ++ [.delivered r], held := o.held ++ [r] }) g
      (update L t (.collector c' .idle)) := by
  refine .of (h.only hL) (h.claimed _ _ _ hL) ?_
    (fun n r hr => h.pending _ _ _ hL n r (pending n r hr)) ?_ nofun nofun nofun
  · rw [partials, rejected]
    exact h.decode _ _ _ hL
  · simp [next, h.next _ _ _ hL, delivered_delivered]

theorem WatchInv.move (h : Inv lay s g L) (m : Move lay s g (L t) s' g' l') :
    WatchInv s' g' (update L t l') := by
  have hwatch := h.watch
  have hw := h.own.writer t
  have hring := h.ring
  generalize hL : L t = l at m
  cases m with
  | free same =>
    exact hwatch.congr hring same.tail (fun i => (same.head i).ge) (fun _ => prefix_rfl)
      (fun _ => prefix_rfl) same.collector (by rw [same.history]) (by simp [hL])
  | look new =>
    rcases new with rfl | rfl | ⟨i, rfl⟩
    · exact hwatch.look hL rfl rfl rfl rfl nofun nofun nofun
    · exact hwatch.look hL rfl rfl rfl rfl nofun nofun nofun
    · exact hwatch.look hL rfl rfl rfl rfl (by rintro _ _ ⟨⟩; rfl) nofun nofun
  | avail more =>
    refine hwatch.look hL rfl rfl rfl rfl nofun ?_ nofun
    rintro _ _ ⟨⟩
    obtain rfl := hwatch.seen _ _ _ _ hL
    exact ⟨rfl, lt_of_le_of_ne (hring.lower _) more⟩
  | got =>
    refine hwatch.look hL rfl rfl rfl rfl nofun nofun ?_
    rintro _ _ ⟨⟩
    obtain ⟨rfl, hlt⟩ := hwatch.avail _ _ _ _ hL
    exact hring.cell _ _ le_rfl hlt
  | sealed | final => exact hwatch.look hL rfl rfl rfl rfl nofun nofun nofun
  | observed => exact hwatch.look hL rfl rfl rfl (by simp [delivered]) nofun nofun nofun
  | reject same opened decodes => exact hwatch.reject h.pen same hL opened decodes
  | lose same partials rejected pending next =>
    exact hwatch.lose same hL partials rejected pending next
  | attach idle partials pending next => exact hwatch.attach idle partials pending next
  | consume opened decodes => exact hwatch.consume hring h.pen hL opened decodes
  | deliver found partials rejected pending next =>
    exact hwatch.deliver hL partials rejected pending next
  | push mode | commit mode =>
    obtain ⟨rfl, -⟩ := hw _ _ hL
    obtain ⟨rfl, -⟩ := h.pen.room _ _ (by rw [mode]; rfl)
    exact hwatch.push hring hL rfl
  | room | stage | enter | leave | order | stamp | depart =>
    obtain ⟨rfl, -⟩ := hw _ _ hL
    exact hwatch.setPen hring hL rfl rfl rfl rfl rfl rfl rfl
  | call | failed | returned =>
    obtain ⟨rfl, -⟩ := hw _ _ hL
    exact hwatch.setPen hring hL rfl rfl rfl rfl rfl (by simp [delivered]) rfl
  | reserve | cancel | activate | finish =>
    exact hwatch.congr hring (tail_setChannel_of fun _ => rfl)
      (fun i => (head_setChannel_of (by exact fun _ => rfl) i).ge) (fun _ => prefix_rfl)
      (fun _ => prefix_rfl) rfl rfl (by simp [hL])
  | _ =>
    exact hwatch.congr hring (fun _ => rfl) (fun _ => le_rfl) (fun _ => prefix_rfl)
      (fun _ => prefix_rfl) rfl rfl (by simp [hL])

/-! ## Sealed admissions -/

theorem CountInv.not_sealed (h : CountInv s g) (bound : i < maxProducers)
    (inside : (g.pens i).mode.isInside = true) : ¬ s.Sealed (roleOf i) := by
  rintro ⟨-, hz⟩
  obtain ⟨b, hb⟩ := h (roleOf i)
  rw [hb, entrants_add (card_insiders_lt g _), Finset.card_eq_zero] at hz
  have hi : i ∈ g.insiders (roleOf i) := by simp [Ghost.insiders, bound, inside]
  simp [hz] at hi

theorem Sealed.close (h : s.Sealed r) :
    World.Sealed (s.set fun r => { r with
      admission := update r.admission role
        (if closed (r.admission role) then r.admission role else r.admission role + CLOSED) }) r := by
  rcases eq_or_ne r role with rfl | hr
  · simp only [World.Sealed, rest_set, update_self, if_pos h.1]
    exact h
  · simp only [World.Sealed, rest_set, update_of_ne hr]
    exact h

theorem Sealed.update {f : Ordered → ℕ} (hn : ¬ s.Sealed role) (h : s.Sealed r) :
    World.Sealed
      (s.set fun r => { r with admission := update r.admission role (f r) }) r := by
  have hr : r ≠ role := fun he => hn (he ▸ h)
  simp only [World.Sealed, rest_set, update_of_ne hr]
  exact h

theorem append_eq_observed {h₀ h h' : List Event} {e o : Event} (he : e ≠ o)
    (heq : h₀ ++ [e] = h ++ o :: h') : ∃ h'', h₀ = h ++ o :: h'' := by
  rcases eq_nil_or_concat h' with rfl | ⟨h'', e', rfl⟩
  · exact absurd (append_inj_right' heq rfl) (by simpa using he)
  · refine ⟨h'', ?_⟩
    rw [concat_eq_append, ← cons_append, ← append_assoc] at heq
    exact (append_inj' heq rfl).1

theorem Local.Knows.mono {l : Local} (h : l.Knows s) (sealed : ∀ r, s.Sealed r → s'.Sealed r)
    (next : (∀ r, s.Sealed r) → s'.rest.nextOrder = s.rest.nextOrder) : l.Knows s' := by
  match l, h with
  | .collector _ (.sealed _), h => exact fun r hr => sealed r (h r hr)
  | .collector _ .final, h => exact ⟨fun r => sealed r (h.1 r), by rw [next h.1, h.2]⟩
  | .collector _ .idle, _ | .collector _ (.seen _ _), _ | .collector _ (.avail _ _), _
  | .collector _ (.got _ _), _
  | .outside, _ | .child _, _ | .writer _ _, _ => trivial

/-- Sealed admissions stay sealed, and while all are sealed no order is taken. -/
theorem SealInv.congr (h : SealInv s g L) (sealed : ∀ r, s.Sealed r → s'.Sealed r)
    (next : (∀ r, s.Sealed r) → s'.rest.nextOrder = s.rest.nextOrder ∧ g'.orders = g.orders)
    (history : s'.rest.history = s.rest.history ∨
      ∃ e, s'.rest.history = s.rest.history ++ [e] ∧ e ≠ .observed (.ok true))
    (new : l'.Knows s') : SealInv s' g' (update L t l') := by
  refine ⟨fun u => ?_, fun h₁ h₂ hh => ?_⟩
  · rw [update_apply]
    split_ifs
    · exact new
    · exact (h.knows u).mono sealed fun hs => (next hs).1
  · obtain ⟨h₃, hold⟩ : ∃ h₃, s.rest.history = h₁ ++ .observed (.ok true) :: h₃ := by
      rcases history with he | ⟨e, he, hne⟩
      · exact ⟨h₂, he.symm.trans hh⟩
      · exact append_eq_observed hne (he.symm.trans hh)
    obtain ⟨hs, hn⟩ := h.observed _ _ hold
    exact ⟨fun r => sealed r (hs r), by rwa [(next hs).2]⟩

/-- The collector observes that all admissions are sealed and every order is
    delivered. -/
theorem SealInv.observe (h : Inv lay s g L) (hL : L t = .collector c .final) :
    SealInv (s.set fun o => { o with history := o.history ++ [.observed (.ok true)] }) g
      (update L t (.collector c .idle)) := by
  obtain ⟨hs, hn⟩ : (∀ r, s.Sealed r) ∧ s.rest.nextOrder = c.next := by
    have := h.sealing.knows t
    rwa [hL] at this
  have hall : g.orders.length ≤ (delivered s.rest.history).length := by
    have h1 := h.watch.next _ _ _ hL
    have h2 := h.order.next
    omega
  refine ⟨fun u => ?_, fun h₁ h₂ hh => ?_⟩
  · rw [update_apply]
    split_ifs
    · trivial
    · exact h.sealing.knows u
  · refine ⟨hs, ?_⟩
    rcases eq_nil_or_concat h₂ with rfl | ⟨h₃, e, rfl⟩
    · rwa [← (append_inj' hh rfl).1]
    · rw [concat_eq_append, ← cons_append, ← append_assoc] at hh
      exact (h.sealing.observed _ _ (append_inj' hh rfl).1).2

theorem SealInv.move (h : Inv lay s g L) (m : Move lay s g (L t) s' g' l') :
    SealInv s' g' (update L t l') := by
  have hs := h.sealing
  have hk := hs.knows t
  have hw := h.own.writer t
  have hb : s.buffer.allocated ≤ maxProducers := h.own.bound.trans lay.bounds.2
  generalize hL : L t = l at m hk
  cases m with
  | free same =>
    have hsame : ∀ r, s.Sealed r → s'.Sealed r := by simp [World.Sealed, same.admission]
    exact hs.congr hsame (fun _ => ⟨same.nextOrder, rfl⟩) (.inl same.history)
      (hk.mono hsame fun _ => same.nextOrder)
  | close role =>
    exact hs.congr (fun _ => Sealed.close) (fun _ => ⟨rfl, rfl⟩) (.inl rfl)
      (hk.mono (fun _ => Sealed.close) fun _ => rfl)
  | enter mode opened =>
    refine hs.congr (fun r hr => Sealed.update ?_ hr) (fun _ => ⟨rfl, rfl⟩) (.inl rfl) trivial
    rintro ⟨hc, -⟩
    simp [opened] at hc
  | leave mode | depart mode =>
    obtain ⟨rfl, hi, -⟩ := hw _ _ hL
    have hn := h.count.not_sealed (hi.trans_le hb) (by rw [mode]; rfl)
    exact hs.congr (fun r hr => Sealed.update hn hr) (fun _ => ⟨rfl, rfl⟩) (.inl rfl) trivial
  | order mode =>
    obtain ⟨rfl, hi, -⟩ := hw _ _ hL
    have hn := h.count.not_sealed (hi.trans_le hb) (by rw [mode]; rfl)
    exact hs.congr (fun r hr => hr) (fun hall => absurd (hall _) hn) (.inl rfl) trivial
  | call | failed | returned | deliver =>
    exact hs.congr (fun r hr => hr) (fun _ => ⟨rfl, rfl⟩) (.inr ⟨_, rfl, nofun⟩) trivial
  | reject same | lose same =>
    exact hs.congr (by simp [World.Sealed, same.admission]) (fun _ => ⟨same.nextOrder, rfl⟩)
      (.inl same.history) trivial
  | look new =>
    refine hs.congr (fun r hr => hr) (fun _ => ⟨rfl, rfl⟩) (.inl rfl) ?_
    rcases new with rfl | rfl | ⟨_, rfl⟩
    · trivial
    · exact nofun
    · trivial
  | sealed role sealed =>
    refine hs.congr (fun r hr => hr) (fun _ => ⟨rfl, rfl⟩) (.inl rfl) fun r hr => ?_
    rcases mem_cons.1 hr with rfl | hr
    · exact sealed
    · exact hk r hr
  | final sealed next =>
    exact hs.congr (fun r hr => hr) (fun _ => ⟨rfl, rfl⟩) (.inl rfl)
      ⟨fun r => hk r (sealed r), next.symm⟩
  | observed r whole =>
    by_cases hr : r = .ok true
    · obtain rfl := whole hr
      rw [hr]
      exact .observe h hL
    · exact hs.congr (fun r hr => hr) (fun _ => ⟨rfl, rfl⟩) (.inr ⟨_, rfl, by simpa using hr⟩) trivial
  | stay => exact hs.congr (fun r hr => hr) (fun _ => ⟨rfl, rfl⟩) (.inl rfl) hk
  | cancel => exact hs.congr (fun r hr => hr) (fun _ => ⟨rfl, rfl⟩) (.inl rfl) hk
  | _ => exact hs.congr (fun r hr => hr) (fun _ => ⟨rfl, rfl⟩) (.inl rfl) trivial

theorem Inv.move (h : Inv lay s g L) (m : Move lay s g (L t) s' g' l') :
    Inv lay s' g' (update L t l') :=
  ⟨.move h m, .move h m, .move h m, .move h m, .move h m, .move h m, .move h m, .move h m, .move h m⟩

end

def Ghost.init : Ghost := ⟨fun _ => [], fun _ => .init, []⟩

theorem Inv.init (lay : Layout) (answers : ℕ → Option PublishError) :
    Inv lay (Log.init answers) .init fun _ : ι => .outside where
  ring := ⟨fun _ => rfl, fun _ => Nat.zero_le _, fun _ => le_rfl, fun _ => Nat.zero_le _,
    fun _ _ _ h => absurd h (Nat.not_lt_zero _)⟩
  pen := ⟨fun _ => rfl, fun _ => rfl, fun _ _ => nofun, fun _ _ _ => nofun⟩
  own := by
    refine ⟨lay.two_le, fun i hi => ?_, fun _ _ => rfl, nofun, nofun, nofun, nofun⟩
    exact if_neg (not_lt.2 hi)
  order := ⟨rfl, nofun, nofun, nofun⟩
  history := ⟨nofun, nofun, nofun, nofun, nofun, nofun, rfl⟩
  calls := ⟨nofun, .nil, .nil⟩
  count := fun role => ⟨false, by simp [Log.init, Ghost.insiders, Ghost.init, Pen.init, Mode.isInside]⟩
  watch := ⟨nofun, nofun, fun _ => ⟨fun _ => rfl, rfl⟩, nofun, nofun, nofun, nofun, nofun, nofun⟩
  sealing := ⟨fun _ => trivial, fun h h' he => by simp [Log.init] at he⟩

end Reverie.GuestLog
