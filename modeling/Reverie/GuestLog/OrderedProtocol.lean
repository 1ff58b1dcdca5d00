/-
  The protocol of the ordered log, with a ghost state: for every channel all frames that were
  ever published (`journal`) and what its owner is doing (`Pen`), and who took each order.

  `Inv`: the rings hold the unread end of the journals, a complete record in a journal is
  that of the call that took its order, and the collector has read a beginning of each.
-/
import Reverie.GuestLog.Ordered

namespace Reverie.GuestLog
open Function

/-! ## Journals -/

/-- The complete records of a journal, with their orders, and the bytes of a
    record that has begun. -/
structure Scan where
  records : List (ℕ × List UInt8)
  body : Option (List UInt8)

def Scan.step (s : Scan) (f : Frame) : Scan :=
  match f.kind with
  | .BEGIN => { s with body := some [] }
  | .DATA => { s with body := s.body.map (· ++ f.payload.take f.length) }
  | .END => { records := s.records ++ [(number f 16, s.body.getD [])], body := none }
  | .FINISH => s

def scan (frames : List Frame) : Scan := frames.foldl Scan.step ⟨[], none⟩

@[simp] theorem scan_append (frames : List Frame) (f : Frame) :
    scan (frames ++ [f]) = (scan frames).step f := by
  simp [scan]

theorem Scan.records_step (s : Scan) (f : Frame) : s.records <+: (s.step f).records := by
  unfold Scan.step
  split
  all_goals simp

theorem Scan.records_foldl (frames : List Frame) (s : Scan) :
    s.records <+: (frames.foldl Scan.step s).records := by
  induction frames generalizing s with
  | nil => exact List.prefix_rfl
  | cons f frames ih => exact (s.records_step f).trans (ih _)

theorem records_take (frames : List Frame) (n : ℕ) :
    (scan (frames.take n)).records <+: (scan frames).records := by
  conv_rhs => rw [← List.take_append_drop n frames]
  rw [scan, scan, List.foldl_append]
  exact Scan.records_foldl _ _

/-! ## Ghost state -/

/-- Where the owner of a channel is in the publication of a frame. -/
inductive Mode where
  | idle
  /-- there is room for a frame at the head -/
  | room (head : ℕ)
  | staged (head : ℕ) (frame : Frame)
  | inside (head : ℕ)
  | ordered (head order : ℕ)
  | stamped (head order : ℕ) (frame : Frame)
  | published (order : ℕ)
  /-- the entrant has been dropped, but the call has not returned -/
  | done (order : ℕ)

def Mode.isInside : Mode → Bool
  | .inside _ | .ordered _ _ | .stamped _ _ _ | .published _ => true
  | _ => false

/-- The head of the ring, while the mode relies on it. -/
def Mode.head : Mode → Option ℕ
  | .room h | .staged h _ | .inside h | .ordered h _ | .stamped h _ _ => some h
  | _ => none

/-- The frame in the slot at the head. -/
def Mode.frame : Mode → Option Frame
  | .staged _ f | .stamped _ _ f => some f
  | _ => none

/-- The order that the call in progress has taken. -/
def Mode.order : Mode → Option ℕ
  | .ordered _ n | .stamped _ n _ | .published n | .done n => some n
  | _ => none

/-- Where a writer is. -/
structure Pen where
  scan : Scan
  /-- the frames that it has published -/
  count : ℕ
  /-- the number of the call of `write_record` that is in progress or comes next -/
  call : ℕ
  bytes : Option (List UInt8)
  mode : Mode

def Pen.init : Pen := ⟨⟨[], none⟩, 0, 0, none, .idle⟩

/-- What was written, which no program reads. -/
structure Ghost where
  journal : ℕ → List Frame
  pens : ℕ → Pen
  /-- the channel, the call and the bytes that each order was taken for -/
  orders : List (ℕ × ℕ × List UInt8)

/-- Where the collector is. -/
inductive Watch where
  | idle
  | seen (index tail : ℕ)
  /-- there is a frame at the tail -/
  | avail (index tail : ℕ)
  | got (index : ℕ) (frame : Frame)
  | sealed (roles : List Role)
  /-- sealed, and every order that was taken has been delivered -/
  | final

/-- What a client knows. -/
inductive Local where
  | outside
  /-- has taken the index for a fork child, but not yet reserved it -/
  | child (index : ℕ)
  | writer (index : ℕ) (pen : Pen)
  | collector (c : Collector) (watch : Watch)

def Ghost.setPen (g : Ghost) (index : ℕ) (pen : Pen) : Ghost :=
  { g with pens := update g.pens index pen }

def Ghost.push (g : Ghost) (index : ℕ) (f : Frame) : Ghost :=
  { g with journal := update g.journal index (g.journal index ++ [f]) }

/-! ## Readings of a state -/

def roleOf (index : ℕ) : Role := if index = 0 then .host else .guest

/-- The channels of a role whose owner is inside. -/
def Ghost.insiders (g : Ghost) (role : Role) : Finset ℕ :=
  (Finset.range maxProducers).filter fun i => (g.pens i).mode.isInside = true ∧ roleOf i = role

def delivered (history : List Event) : List Record :=
  history.filterMap fun
    | .delivered r => some r
    | _ => none

def Event.start : Event → Option (ℕ × ℕ)
  | .called i k _ => some (i, k)
  | _ => none

def Event.finish : Event → Option (ℕ × ℕ)
  | .returned i k _ _ => some (i, k)
  | _ => none

def World.head (s : Log) (i : ℕ) : ℕ := (s.channel i).head

def World.tail (s : Log) (i : ℕ) : ℕ := (s.channel i).tail

def World.state (s : Log) (i : ℕ) : ChannelState := (s.channel i).state

/-- The channel has, or had, a producer. -/
def World.owned (s : Log) (i : ℕ) : Prop := s.state i = .active ∨ s.state i = .finished

/-- The admission is closed and no entrant is left. -/
def World.Sealed (s : Log) (role : Role) : Prop :=
  closed (s.rest.admission role) = true ∧ entrants (s.rest.admission role) = 0

/-- The part of the state that the invariant reads is the same. -/
structure Same (s s' : Log) : Prop where
  allocated : s'.buffer.allocated = s.buffer.allocated
  head : ∀ i, s'.head i = s.head i
  tail : ∀ i, s'.tail i = s.tail i
  state : ∀ i, s'.state i = s.state i
  slots : s'.buffer.slots = s.buffer.slots
  admission : s'.rest.admission = s.rest.admission
  nextOrder : s'.rest.nextOrder = s.rest.nextOrder
  collector : s'.rest.collector = s.rest.collector
  history : s'.rest.history = s.rest.history

/-- What the collector has made of the next frame of a channel. -/
structure Decodes (c : Collector) (index : ℕ) (f : Frame) (c' : Collector) : Prop where
  partials : ∀ i, i ≠ index → c'.partials i = c.partials i
  body : ∀ s : Scan, (c.partials index).map (·.bytes) = s.body →
    (c'.partials index).map (·.bytes) = (s.step f).body
  pending : ∀ (n : ℕ) r, c'.pending[n]? = some r → c.pending[n]? = some r ∨
    (r.order = n ∧ r.producer = index ∧ ∀ s : Scan, (c.partials index).map (·.bytes) = s.body →
      (n, r.bytes) ∈ (s.step f).records)
  next : c'.next = c.next
  rejected : c'.rejected = c.rejected

/-! ## Moves -/

variable (lay : Layout)

/-- What one action of a client does. -/
inductive Move : Log → Ghost → Local → Log → Ghost → Local → Prop where
  | stay (s : Log) (g : Ghost) (l : Local) : Move s g l s g l
  | free {s s' : Log} {g : Ghost} {l : Local} (same : Same s s') : Move s g l s' g l
  | close {s : Log} {g : Ghost} {l : Local} (role : Role) :
      Move s g l (s.set fun r => { r with
        admission := update r.admission role
          (if closed (r.admission role) then r.admission role else r.admission role + CLOSED) }) g l
  -- incarnations
  | allocate {s : Log} {g : Ghost} (room : s.buffer.allocated < lay.limits.producers) :
      Move s g .outside
        { s with buffer := { s.buffer with allocated := s.buffer.allocated + 1 } } g
        (.child s.buffer.allocated)
  | reserve {s : Log} {g : Ghost} (i : ℕ) :
      Move s g (.child i) (s.setChannel i fun c => { c with state := .reserved }) g .outside
  | cancel {s : Log} {g : Ghost} {l : Local} (i : ℕ) (state : s.state i = .reserved) :
      Move s g l (s.setChannel i fun c => { c with state := .cancelledFork }) g l
  | activate {s : Log} {g : Ghost} (i : ℕ) (state : s.state i = .reserved)
      (bound : i < s.buffer.allocated) :
      Move s g .outside (s.setChannel i fun c => { c with state := .active }) g (.writer i .init)
  | finish {s : Log} {g : Ghost} {i : ℕ} {p : Pen} :
      Move s g (.writer i p) (s.setChannel i fun c => { c with state := .finished }) g (.writer i p)
  -- frames
  | room {s : Log} {g : Ghost} {i : ℕ} {p : Pen} (mode : p.mode = .idle)
      (room : s.head i < s.tail i + lay.limits.slots) :
      Move s g (.writer i p) s (g.setPen i { p with mode := .room (s.head i) })
        (.writer i { p with mode := .room (s.head i) })
  | stage {s : Log} {g : Ghost} {i h : ℕ} {p : Pen} (f : Frame) (mode : p.mode = .room h) :
      Move s g (.writer i p) (s.setSlot i (h % lay.limits.slots) f)
        (g.setPen i { p with mode := .staged h f }) (.writer i { p with mode := .staged h f })
  | push {s : Log} {g : Ghost} {i h : ℕ} {p : Pen} {f : Frame} (mode : p.mode = .staged h f)
      (kind : f.kind ≠ .END) (bound : h + 1 ≤ u64Max) :
      Move s g (.writer i p) (s.setChannel i fun c => { c with head := h + 1 })
        ((g.push i f).setPen i { p with mode := .idle, scan := p.scan.step f, count := p.count + 1 })
        (.writer i { p with mode := .idle, scan := p.scan.step f, count := p.count + 1 })
  -- commits
  | enter {s : Log} {g : Ghost} {i h : ℕ} {p : Pen} (mode : p.mode = .room h)
      (opened : closed (s.rest.admission (roleOf i)) = false)
      (bound : s.rest.admission (roleOf i) < CLOSED - 1) :
      Move s g (.writer i p)
        (s.set fun r => { r with
          admission := update r.admission (roleOf i) (s.rest.admission (roleOf i) + 1) })
        (g.setPen i { p with mode := .inside h }) (.writer i { p with mode := .inside h })
  | leave {s : Log} {g : Ghost} {i h : ℕ} {p : Pen} (mode : p.mode = .inside h) :
      Move s g (.writer i p)
        (s.set fun r => { r with
          admission := update r.admission (roleOf i)
            (wrappingSub (r.admission (roleOf i)) 1) })
        (g.setPen i { p with mode := .idle }) (.writer i { p with mode := .idle })
  | order {s : Log} {g : Ghost} {i h : ℕ} {p : Pen} {b : List UInt8} (mode : p.mode = .inside h)
      (bytes : p.bytes = some b) :
      Move s g (.writer i p) (s.set fun r => { r with nextOrder := r.nextOrder + 1 })
        ({ g with orders := g.orders ++ [(i, p.call, b)] }.setPen i
          { p with mode := .ordered h s.rest.nextOrder })
        (.writer i { p with mode := .ordered h s.rest.nextOrder })
  | stamp {s : Log} {g : Ghost} {i h n : ℕ} {p : Pen} (f : Frame) (mode : p.mode = .ordered h n) :
      Move s g (.writer i p) (s.setSlot i (h % lay.limits.slots) f)
        (g.setPen i { p with mode := .stamped h n f }) (.writer i { p with mode := .stamped h n f })
  | commit {s : Log} {g : Ghost} {i h n : ℕ} {p : Pen} {f : Frame} (mode : p.mode = .stamped h n f)
      (kind : f.kind = .END) (number : number f 16 = n) (body : p.scan.body = p.bytes)
      (bound : h + 1 ≤ u64Max) :
      Move s g (.writer i p) (s.setChannel i fun c => { c with head := h + 1 })
        ((g.push i f).setPen i
          { p with mode := .published n, scan := p.scan.step f, count := p.count + 1 })
        (.writer i { p with mode := .published n, scan := p.scan.step f, count := p.count + 1 })
  | depart {s : Log} {g : Ghost} {i n : ℕ} {p : Pen} (mode : p.mode = .published n) :
      Move s g (.writer i p)
        (s.set fun r => { r with
          admission := update r.admission (roleOf i)
            (wrappingSub (r.admission (roleOf i)) 1) })
        (g.setPen i { p with mode := .done n }) (.writer i { p with mode := .done n })
  -- calls
  | call {s : Log} {g : Ghost} {i : ℕ} {p : Pen} (b : List UInt8) (mode : p.mode = .idle)
      (bytes : p.bytes = none) :
      Move s g (.writer i p)
        (s.set fun r => { r with history := r.history ++ [.called i p.call b] })
        (g.setPen i { p with bytes := some b }) (.writer i { p with bytes := some b })
  | failed {s : Log} {g : Ghost} {i : ℕ} {p : Pen} {b : List UInt8} (e : PublishError)
      (mode : p.mode = .idle ∨ ∃ h, p.mode = .room h) (bytes : p.bytes = some b) :
      Move s g (.writer i p)
        (s.set fun r => { r with history := r.history ++ [.returned i p.call b (.error e)] })
        (g.setPen i { p with bytes := none, call := p.call + 1, mode := .idle })
        (.writer i { p with bytes := none, call := p.call + 1, mode := .idle })
  | returned {s : Log} {g : Ghost} {i n : ℕ} {p : Pen} {b : List UInt8} (mode : p.mode = .done n)
      (bytes : p.bytes = some b) :
      Move s g (.writer i p)
        (s.set fun r => { r with history := r.history ++ [.returned i p.call b (.ok ⟨n⟩)] })
        (g.setPen i { p with bytes := none, call := p.call + 1, mode := .idle })
        (.writer i { p with bytes := none, call := p.call + 1, mode := .idle })
  -- the collector
  | attach {s : Log} {g : Ghost} {c : Collector} (idle : s.rest.collector = false)
      (partials : ∀ i, c.partials i = none) (pending : c.pending = ∅) (next : c.next = 1) :
      Move s g .outside (s.set fun r => { r with collector := true }) g (.collector c .idle)
  | look {s : Log} {g : Ghost} {c : Collector} {w w' : Watch}
      (new : w' = .idle ∨ w' = .sealed [] ∨ ∃ i, w' = .seen i (s.tail i)) :
      Move s g (.collector c w) s g (.collector c w')
  | avail {s : Log} {g : Ghost} {c : Collector} {i n : ℕ} (more : n ≠ s.head i) :
      Move s g (.collector c (.seen i n)) s g (.collector c (.avail i n))
  | got {s : Log} {g : Ghost} {c : Collector} {i n : ℕ} :
      Move s g (.collector c (.avail i n)) s g
        (.collector c (.got i (s.buffer.slots i (n % lay.limits.slots))))
  | consume {s : Log} {g : Ghost} {c c' : Collector} {i : ℕ} {f : Frame}
      (opened : c.rejected i = none) (decodes : Decodes c i f c') :
      Move s g (.collector c (.got i f))
        (s.setChannel i fun c => { c with tail := (c.tail + 1) % 2 ^ 64 }) g (.collector c' .idle)
  -- the decoded frame stays in its channel, from which nothing is read any more
  | reject {s s' : Log} {g : Ghost} {c c' : Collector} {i : ℕ} {f : Frame} (same : Same s s')
      (opened : c.rejected i = none) (decodes : Decodes c i f c') :
      Move s g (.collector c (.got i f)) s' g
        (.collector { c' with rejected := update c'.rejected i (some f) } .idle)
  | lose {s s' : Log} {g : Ghost} {c c' : Collector} {w : Watch} (same : Same s s')
      (partials : c'.partials = c.partials)
      (rejected : ∀ i, c'.rejected i = none → c.rejected i = none)
      (pending : ∀ (n : ℕ) r, c'.pending[n]? = some r → c.pending[n]? = some r)
      (next : c'.next = c.next) :
      Move s g (.collector c w) s' g (.collector c' .idle)
  | deliver {s : Log} {g : Ghost} {c c' : Collector} {w : Watch} {r : Record}
      (found : c.pending[c.next]? = some r) (partials : c'.partials = c.partials)
      (rejected : c'.rejected = c.rejected)
      (pending : ∀ (n : ℕ) r, c'.pending[n]? = some r → c.pending[n]? = some r)
      (next : c'.next = c.next + 1) :
      Move s g (.collector c w)
        (s.set fun o => { o with history := o.history ++ [.delivered r], held := o.held ++ [r] }) g
        (.collector c' .idle)
  | sealed {s : Log} {g : Ghost} {c : Collector} {roles : List Role} (role : Role)
      (sealed : s.Sealed role) :
      Move s g (.collector c (.sealed roles)) s g (.collector c (.sealed (role :: roles)))
  | final {s : Log} {g : Ghost} {c : Collector} {roles : List Role}
      (sealed : ∀ role, role ∈ roles) (next : c.next = s.rest.nextOrder) :
      Move s g (.collector c (.sealed roles)) s g (.collector c .final)
  | observed {s : Log} {g : Ghost} {c : Collector} {w : Watch} (r : Except PublishError Bool)
      (whole : r = .ok true → w = .final) :
      Move s g (.collector c w)
        (s.set fun o => { o with history := o.history ++ [.observed r] }) g (.collector c .idle)

/-! ## The invariant -/

/-- The rings hold the unread end of the journals. -/
structure RingInv (s : Log) (g : Ghost) : Prop where
  head : ∀ i, s.head i = (g.journal i).length
  bound : ∀ i, s.head i ≤ u64Max
  lower : ∀ i, s.tail i ≤ s.head i
  upper : ∀ i, s.head i ≤ s.tail i + lay.limits.slots
  cell : ∀ i n, s.tail i ≤ n → n < s.head i →
    (g.journal i)[n]? = some (s.buffer.slots i (n % lay.limits.slots))

/-- What the owner of a channel relies on. -/
structure PenInv (s : Log) (g : Ghost) : Prop where
  scan : ∀ i, (g.pens i).scan = scan (g.journal i)
  count : ∀ i, (g.pens i).count = (g.journal i).length
  room : ∀ i h, (g.pens i).mode.head = some h → s.head i = h ∧ h < s.tail i + lay.limits.slots
  cell : ∀ i h f, (g.pens i).mode.head = some h → (g.pens i).mode.frame = some f →
    s.buffer.slots i (h % lay.limits.slots) = f

/-- Every active channel has one owner. -/
structure OwnInv {ι : Type} (s : Log) (g : Ghost) (L : ι → Local) : Prop where
  bound : s.buffer.allocated ≤ lay.limits.producers
  beyond : ∀ i, s.buffer.allocated ≤ i → s.state i = .unused
  fresh : ∀ i, ¬ s.owned i → g.pens i = .init
  writer : ∀ t i p, L t = .writer i p → g.pens i = p ∧ i < s.buffer.allocated ∧ s.owned i
  writers : ∀ t t' i p p', L t = .writer i p → L t' = .writer i p' → t = t'
  child : ∀ t i, L t = .child i → i < s.buffer.allocated ∧ s.state i = .unused
  children : ∀ t t' i, L t = .child i → L t' = .child i → t = t'

/-- Every order was taken by one call, and complete records have the order and
    the bytes of their calls. -/
structure OrderInv (s : Log) (g : Ghost) : Prop where
  next : s.rest.nextOrder = g.orders.length + 1
  record : ∀ i n b, (n, b) ∈ (g.pens i).scan.records →
    ∃ m k, n = m + 1 ∧ g.orders[m]? = some (i, k, b)
  taken : ∀ i n, (g.pens i).mode.order = some n →
    ∃ m b, n = m + 1 ∧ (g.pens i).bytes = some b ∧ g.orders[m]? = some (i, (g.pens i).call, b)
  call : ∀ (m : ℕ) i k b, g.orders[m]? = some (i, k, b) → k < (g.pens i).call ∨
    (k = (g.pens i).call ∧ (g.pens i).mode.order = some (m + 1))

/-- The history tells what was ordered. -/
structure HistoryInv (s : Log) (g : Ghost) : Prop where
  called : ∀ i b, (g.pens i).bytes = some b → .called i (g.pens i).call b ∈ s.rest.history
  origin : ∀ (m : ℕ) i k b, g.orders[m]? = some (i, k, b) → .called i k b ∈ s.rest.history
  past : ∀ i k b r, .returned i k b r ∈ s.rest.history → k < (g.pens i).call
  commit : ∀ i k b c, .returned i k b (.ok c) ∈ s.rest.history →
    ∃ m, c.order = m + 1 ∧ g.orders[m]? = some (i, k, b)
  answer : ∀ (m : ℕ) i k b b' r, g.orders[m]? = some (i, k, b) → .returned i k b' r ∈ s.rest.history →
    b' = b ∧ r = .ok ⟨m + 1⟩
  arrived : ∀ r ∈ delivered s.rest.history,
    (r.order, r.bytes) ∈ (g.pens r.producer).scan.records
  orders : (delivered s.rest.history).map (·.order) =
    List.range' 1 (delivered s.rest.history).length

/-- Every call begins once and returns at most once. -/
structure CallInv (s : Log) (g : Ghost) : Prop where
  started : ∀ i k b, .called i k b ∈ s.rest.history → k < (g.pens i).call ∨
    (k = (g.pens i).call ∧ (g.pens i).bytes ≠ none)
  calls : (s.rest.history.filterMap Event.start).Nodup
  returns : (s.rest.history.filterMap Event.finish).Nodup

/-- The admission words count the owners inside. -/
def CountInv (s : Log) (g : Ghost) : Prop :=
  ∀ role, ∃ b : Bool, s.rest.admission role = (g.insiders role).card + if b then CLOSED else 0

/-- The collector has read a beginning of every journal. -/
structure WatchInv {ι : Type} (s : Log) (g : Ghost) (L : ι → Local) : Prop where
  one : ∀ t t' c c' w w', L t = .collector c w → L t' = .collector c' w' → t = t'
  claimed : ∀ t c w, L t = .collector c w → s.rest.collector = true
  fresh : s.rest.collector = false → (∀ i, s.tail i = 0) ∧ delivered s.rest.history = []
  decode : ∀ t c w, L t = .collector c w → ∀ i, c.rejected i = none →
    (c.partials i).map (·.bytes) = (scan ((g.journal i).take (s.tail i))).body
  pending : ∀ t c w, L t = .collector c w → ∀ (n : ℕ) r, c.pending[n]? = some r →
    r.order = n ∧ (n, r.bytes) ∈ (g.pens r.producer).scan.records
  next : ∀ t c w, L t = .collector c w → c.next = (delivered s.rest.history).length + 1
  seen : ∀ t c i n, L t = .collector c (.seen i n) → s.tail i = n
  avail : ∀ t c i n, L t = .collector c (.avail i n) → s.tail i = n ∧ n < s.head i
  got : ∀ t c i f, L t = .collector c (.got i f) → (g.journal i)[s.tail i]? = some f

/-- What the collector knows about the admissions. -/
def Local.Knows (s : Log) : Local → Prop
  | .collector _ (.sealed roles) => ∀ r ∈ roles, s.Sealed r
  | .collector c .final => (∀ r, s.Sealed r) ∧ s.rest.nextOrder = c.next
  | _ => True

/-- Sealed admissions stay sealed, and no order is taken after a complete
    observation. -/
structure SealInv {ι : Type} (s : Log) (g : Ghost) (L : ι → Local) : Prop where
  knows : ∀ t, (L t).Knows s
  observed : ∀ h h', s.rest.history = h ++ .observed (.ok true) :: h' →
    (∀ r, s.Sealed r) ∧ g.orders.length ≤ (delivered h).length

/-- What holds at every moment. -/
structure Inv {ι : Type} (s : Log) (g : Ghost) (L : ι → Local) : Prop where
  ring : RingInv lay s g
  pen : PenInv lay s g
  own : OwnInv lay s g L
  order : OrderInv s g
  history : HistoryInv s g
  calls : CallInv s g
  count : CountInv s g
  watch : WatchInv s g L
  sealing : SealInv s g L

/-! ## Readings after updates -/

section
variable (s : Log)

theorem head_setChannel (i j : ℕ) (f : Channel → Channel) :
    World.head (s.setChannel i f) j = if j = i then (f (s.channel i)).head else s.head j := by
  simp only [World.head, World.channel, World.setChannel, update_apply]
  split_ifs <;> rfl

theorem tail_setChannel (i j : ℕ) (f : Channel → Channel) :
    World.tail (s.setChannel i f) j = if j = i then (f (s.channel i)).tail else s.tail j := by
  simp only [World.tail, World.channel, World.setChannel, update_apply]
  split_ifs <;> rfl

theorem state_setChannel (i j : ℕ) (f : Channel → Channel) :
    World.state (s.setChannel i f) j = if j = i then (f (s.channel i)).state else s.state j := by
  simp only [World.state, World.channel, World.setChannel, update_apply]
  split_ifs <;> rfl

variable (f : Ordered → Ordered)

@[simp] theorem buffer_set : (s.set f).buffer = s.buffer := rfl

@[simp] theorem rest_set : (s.set f).rest = f s.rest := rfl

@[simp] theorem head_set (i : ℕ) : World.head (s.set f) i = s.head i := rfl

@[simp] theorem tail_set (i : ℕ) : World.tail (s.set f) i = s.tail i := rfl

@[simp] theorem state_set (i : ℕ) : World.state (s.set f) i = s.state i := rfl

@[simp] theorem rest_setChannel (i : ℕ) (f : Channel → Channel) :
    (s.setChannel i f).rest = s.rest := rfl

@[simp] theorem slots_setChannel (i : ℕ) (f : Channel → Channel) :
    (s.setChannel i f).buffer.slots = s.buffer.slots := rfl

@[simp] theorem allocated_setChannel (i : ℕ) (f : Channel → Channel) :
    (s.setChannel i f).buffer.allocated = s.buffer.allocated := rfl

@[simp] theorem rest_setSlot (i n : ℕ) (f : Frame) : (s.setSlot i n f).rest = s.rest := rfl

@[simp] theorem head_setSlot (i n : ℕ) (f : Frame) (j : ℕ) :
    World.head (s.setSlot i n f) j = s.head j := rfl

@[simp] theorem tail_setSlot (i n : ℕ) (f : Frame) (j : ℕ) :
    World.tail (s.setSlot i n f) j = s.tail j := rfl

@[simp] theorem state_setSlot (i n : ℕ) (f : Frame) (j : ℕ) :
    World.state (s.setSlot i n f) j = s.state j := rfl

theorem slots_setSlot (i n : ℕ) (f : Frame) (j m : ℕ) :
    (s.setSlot i n f).buffer.slots j m = if j = i ∧ m = n then f else s.buffer.slots j m := by
  simp only [World.setSlot, update_apply]
  split_ifs <;> simp_all

end

end Reverie.GuestLog
