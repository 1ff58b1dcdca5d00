/-
  `close_range` that spares reserved descriptors (`reserved_fds.rs`).  The iterator yields the
  maximal ranges of the window without them (`collect_gaps`), and the driver makes the planned
  calls up to the first error (`closeRangeSparing_eq`, `untilError_eq`).
-/
import Reverie.Lib.Outcome
import Reverie.Lib.Words

namespace Reverie.ReservedFds
open List hiding Vector
open Outcome Words

/-! ## The iterator -/

/-- How the iterator panics. -/
inductive Overflow where
  | add
  | sub

/-- `a + b`, which panics where it overflows. -/
def sum (a b : ℕ) : Except Overflow ℕ := (checkedAdd a b).elim (.error .add) .ok

/-- `a - b`, which panics where it overflows. -/
def difference (a b : ℕ) : Except Overflow ℕ := (checkedSub a b).elim (.error .sub) .ok

/-- `as u32`. -/
def asU32 (n : ℕ) : ℕ := n % 2 ^ 32

def u32Max : ℕ := 2 ^ 32 - 1

/-- The iterator over a window's gaps. -/
structure CloseRangeGaps where
  /-- the lowest descriptor not yet covered, `none` past `u32Max` -/
  next : Option ℕ
  last : ℕ
  reserved : List ℕ

def closeRangeGaps (first last : ℕ) (reserved : List ℕ) : CloseRangeGaps :=
  ⟨some first, last, reserved⟩

/-- The descriptor after a reserved one.  `then_some` evaluates its argument also
    when the condition is false. -/
def after (fd : ℕ) : Except Overflow (Option ℕ) := do
  let above ← sum fd 1
  pure (if fd < u32Max then some above else none)

/-- The loop of `CloseRangeGaps::next`, by the reserved descriptors that are left. -/
def nextGap (last : ℕ) : Option ℕ → List ℕ → Except Overflow (Option (ℕ × ℕ) × CloseRangeGaps)
  | none, reserved => .ok (none, ⟨none, last, reserved⟩)
  | some start, [] =>
    if start > last then .ok (none, ⟨some start, last, []⟩)
    else .ok (some (asU32 start, asU32 last), ⟨none, last, []⟩)
  | some start, fd :: rest =>
    if start > last then .ok (none, ⟨some start, last, fd :: rest⟩)
    else if fd ≤ last then
      if fd < start then nextGap last (some start) rest
      else do
        let next ← after fd
        if start < fd then
          let below ← difference fd 1
          pure (some (asU32 start, asU32 below), ⟨next, last, rest⟩)
        else nextGap last next rest
    else .ok (some (asU32 start, asU32 last), ⟨none, last, fd :: rest⟩)

/-- `CloseRangeGaps::next`. -/
def CloseRangeGaps.nextItem (g : CloseRangeGaps) :
    Except Overflow (Option (ℕ × ℕ) × CloseRangeGaps) := nextGap g.last g.next g.reserved

def CloseRangeGaps.size (g : CloseRangeGaps) : ℕ := g.reserved.length + g.next.toList.length

theorem toList_length_le (o : Option ℕ) : o.toList.length ≤ 1 := by
  cases o <;> simp

variable {last first fd flags : ℕ} {reserved : List ℕ} {gaps : List (ℕ × ℕ)}

theorem nextGap_size {next : Option ℕ} {gap : ℕ × ℕ}
    {g : CloseRangeGaps} (h : nextGap last next reserved = .ok (some gap, g)) :
    g.size < reserved.length + next.toList.length := by
  induction reserved generalizing next with
  | nil =>
    cases next with
    | none => cases h
    | some start =>
      unfold nextGap at h
      split_ifs at h
      · cases h
      · cases h
        exact Nat.lt_succ_self 0
  | cons fd rest ih =>
    cases next with
    | none => cases h
    | some start =>
      simp only [length_cons, Option.toList_some]
      unfold nextGap at h
      split_ifs at h with hlast hfd hskip hgap
      · cases h
      · have := ih h
        simp only [Option.toList_some, length_cons] at this
        omega
      · obtain ⟨next, -, h⟩ := bind_eq_ok.1 h
        obtain ⟨below, -, h⟩ := bind_eq_ok.1 h
        cases h
        have := toList_length_le next
        simp only [CloseRangeGaps.size]
        omega
      · obtain ⟨next, -, h⟩ := bind_eq_ok.1 h
        have := toList_length_le next
        have := ih h
        omega
      · cases h
        simp [CloseRangeGaps.size]

def CloseRangeGaps.collect (g : CloseRangeGaps) : Except Overflow (List (ℕ × ℕ)) :=
  match _h : g.nextItem with
  | .error e => .error e
  | .ok (none, _) => .ok []
  | .ok (some gap, g') => do
    let gaps ← g'.collect
    pure (gap :: gaps)
termination_by g.size
decreasing_by exact nextGap_size _h

/-! ## The gaps -/

/-- `gaps` are the parts of `[first, last]` between the reserved descriptors. -/
structure GapsOf (first last : ℕ) (reserved : List ℕ) (gaps : List (ℕ × ℕ)) : Prop where
  nonempty : ∀ g ∈ gaps, g.1 ≤ g.2
  ordered : gaps.Pairwise fun g h => g.2 < h.1
  maximal : ∀ g ∈ gaps, (g.1 = first ∨ ∃ fd ∈ reserved, g.1 = fd + 1) ∧
    (g.2 = last ∨ g.2 + 1 ∈ reserved)
  exact : ∀ fd, (∃ g ∈ gaps, g.1 ≤ fd ∧ fd ≤ g.2) ↔ first ≤ fd ∧ fd ≤ last ∧ fd ∉ reserved

/-- The gaps from `start` on, by the reserved descriptors that are left. -/
def gapsFrom (last : ℕ) : ℕ → List ℕ → List (ℕ × ℕ)
  | start, [] => if start > last then [] else [(start, last)]
  | start, fd :: rest =>
    if start > last then []
    else if last < fd then [(start, last)]
    else if fd < start then gapsFrom last start rest
    else if start < fd then (start, fd - 1) :: gapsFrom last (fd + 1) rest
    else gapsFrom last (fd + 1) rest

theorem GapsOf.none (h : last < first) : GapsOf first last reserved [] :=
  ⟨nofun, .nil, nofun, fun fd => ⟨nofun, fun hfd => by omega⟩⟩

theorem GapsOf.whole (h : first ≤ last)
    (free : ∀ fd ∈ reserved, last < fd) : GapsOf first last reserved [(first, last)] where
  nonempty := by simpa using h
  ordered := pairwise_singleton _ _
  maximal := by simp
  exact fd := by
    simp only [mem_singleton, exists_eq_left]
    refine ⟨fun hfd => ⟨hfd.1, hfd.2, fun hmem => ?_⟩, fun hfd => ⟨hfd.1, hfd.2.1⟩⟩
    have := free fd hmem
    omega

theorem GapsOf.skip (h : GapsOf first last reserved gaps) (below : fd < first) :
    GapsOf first last (fd :: reserved) gaps where
  nonempty := h.nonempty
  ordered := h.ordered
  maximal g hg := by
    obtain ⟨hl, hr⟩ := h.maximal g hg
    refine ⟨hl.imp_right ?_, hr.imp_right (mem_cons_of_mem _)⟩
    rintro ⟨d, hd, he⟩
    exact ⟨d, mem_cons_of_mem _ hd, he⟩
  exact d := by
    rw [h.exact, mem_cons, not_or]
    exact ⟨fun hd => ⟨hd.1, hd.2.1, by omega, hd.2.2⟩, fun hd => ⟨hd.1, hd.2.1, hd.2.2.2⟩⟩

theorem GapsOf.split (h : GapsOf (fd + 1) last reserved gaps) (above : ∀ d ∈ reserved, fd ≤ d)
    (lower : first ≤ fd)
    (upper : fd ≤ last) :
    GapsOf first last (fd :: reserved) (if first < fd then (first, fd - 1) :: gaps else gaps) := by
  have hmax : ∀ g ∈ gaps, (g.1 = first ∨ ∃ d ∈ fd :: reserved, g.1 = d + 1) ∧
      (g.2 = last ∨ g.2 + 1 ∈ fd :: reserved) := by
    intro g hg
    obtain ⟨hl, hr⟩ := h.maximal g hg
    refine ⟨.inr ?_, hr.imp_right (mem_cons_of_mem _)⟩
    rcases hl with hl | ⟨d, hd, he⟩
    · exact ⟨fd, mem_cons_self, hl⟩
    · exact ⟨d, mem_cons_of_mem _ hd, he⟩
  have hstart : ∀ g ∈ gaps, fd < g.1 := by
    intro g hg
    exact ((h.exact g.1).1 ⟨g, hg, le_rfl, h.nonempty g hg⟩).1
  split_ifs with hlt
  · refine ⟨?_, ?_, ?_, fun d => ?_⟩
    · simp only [mem_cons, forall_eq_or_imp]
      exact ⟨by omega, h.nonempty⟩
    · refine pairwise_cons.2 ⟨fun g hg => ?_, h.ordered⟩
      have := hstart g hg
      omega
    · simp only [mem_cons, forall_eq_or_imp]
      refine ⟨⟨.inl trivial, .inr (.inl ?_)⟩, fun g hg => ?_⟩
      · omega
      · simpa only [mem_cons] using hmax g hg
    · simp only [mem_cons, exists_eq_or_imp, h.exact, not_or]
      constructor
      · rintro (hd | hd)
        · refine ⟨hd.1, by omega, by omega, fun hmem => ?_⟩
          have := above d hmem
          omega
        · exact ⟨by omega, hd.2.1, by omega, hd.2.2⟩
      · rintro ⟨hd1, hd2, hd3, hd4⟩
        rcases Nat.lt_or_gt_of_ne hd3 with hlt | hgt
        · exact .inl ⟨hd1, by omega⟩
        · exact .inr ⟨hgt, hd2, hd4⟩
  · refine ⟨h.nonempty, h.ordered, hmax, fun d => ?_⟩
    rw [h.exact, mem_cons, not_or]
    exact ⟨fun hd => ⟨by omega, hd.2.1, by omega, hd.2.2⟩,
      fun hd => ⟨by omega, hd.2.1, hd.2.2.2⟩⟩

theorem gapsFrom_gapsOf (last start : ℕ) (sorted : reserved.Pairwise (· ≤ ·)) :
    GapsOf start last reserved (gapsFrom last start reserved) := by
  induction reserved generalizing start with
  | nil =>
    unfold gapsFrom
    split_ifs with h
    · exact .none h
    · exact .whole (by omega) nofun
  | cons fd rest ih =>
    obtain ⟨habove, hrest⟩ := pairwise_cons.1 sorted
    unfold gapsFrom
    split_ifs with h1 h2 h3 h4
    · exact .none h1
    · refine .whole (by omega) fun d hd => ?_
      rcases mem_cons.1 hd with rfl | hd
      · exact h2
      · exact h2.trans_le (habove d hd)
    · exact (ih start hrest).skip h3
    · have hsplit := (ih (fd + 1) hrest).split habove (Nat.not_lt.1 h3) (Nat.not_lt.1 h2)
      rwa [if_pos h4] at hsplit
    · have hsplit := (ih (fd + 1) hrest).split habove (Nat.not_lt.1 h3) (Nat.not_lt.1 h2)
      rwa [if_neg h4] at hsplit

/-! ## The iterator yields the gaps -/

theorem gapsFrom_of_lt {start : ℕ} (h : last < start) (reserved : List ℕ) :
    gapsFrom last start reserved = [] := by
  cases reserved <;> rw [gapsFrom, if_pos h]

/-- The gaps that an iterator has left. -/
def CloseRangeGaps.left (g : CloseRangeGaps) : List (ℕ × ℕ) :=
  match g.next with
  | none => []
  | some start => gapsFrom g.last start g.reserved

theorem asU32_of_le {n : ℕ} (h : n ≤ u32Max) : asU32 n = n := Nat.mod_eq_of_lt (by
  unfold u32Max at h
  omega)

theorem after_eq (h : fd ≤ u32Max) :
    after fd = .ok (if fd < u32Max then some (fd + 1) else none) := by
  rw [after, sum, checkedAdd, if_pos (by unfold u32Max at h; omega)]
  rfl

theorem difference_eq (h : 0 < fd) : difference fd 1 = .ok (fd - 1) := by
  rw [difference, checkedSub, if_pos (Nat.succ_le_of_lt h)]
  rfl

theorem left_after {rest : List ℕ} (hlast : last ≤ u32Max) :
    CloseRangeGaps.left ⟨if fd < u32Max then some (fd + 1) else none, last, rest⟩ =
      gapsFrom last (fd + 1) rest := by
  split_ifs with h
  · rfl
  · exact (gapsFrom_of_lt (by omega) rest).symm

theorem nextGap_eq (hlast : last ≤ u32Max) (next : Option ℕ) (reserved : List ℕ) :
    ∃ item g, nextGap last next reserved = .ok (item, g) ∧ g.last = last ∧
      CloseRangeGaps.left ⟨next, last, reserved⟩ = match item with
        | none => []
        | some gap => gap :: g.left := by
  induction reserved generalizing next with
  | nil =>
    cases next with
    | none => exact ⟨_, _, rfl, rfl, rfl⟩
    | some start =>
      by_cases hpast : start > last
      · exact ⟨_, _, if_pos hpast, rfl, gapsFrom_of_lt hpast _⟩
      · refine ⟨_, _, if_neg hpast, rfl, ?_⟩
        rw [asU32_of_le (by omega), asU32_of_le hlast]
        simp [CloseRangeGaps.left, gapsFrom, hpast]
  | cons fd rest ih =>
    cases next with
    | none => exact ⟨_, _, rfl, rfl, rfl⟩
    | some start =>
      unfold nextGap
      by_cases hpast : start > last
      · refine ⟨_, _, if_pos hpast, rfl, ?_⟩
        exact gapsFrom_of_lt hpast _
      rw [if_neg hpast]
      by_cases hfd : fd ≤ last
      · rw [if_pos hfd]
        by_cases hskip : fd < start
        · obtain ⟨item, g, hg, hgl, hleft⟩ := ih (some start)
          refine ⟨item, g, by rw [if_pos hskip, hg], hgl, ?_⟩
          rw [← hleft]
          simp [CloseRangeGaps.left, gapsFrom, hpast, hskip, Nat.not_lt.2 hfd]
        · rw [if_neg hskip, after_eq (hfd.trans hlast)]
          by_cases hgap : start < fd
          · refine ⟨some (asU32 start, asU32 (fd - 1)),
              ⟨if fd < u32Max then some (fd + 1) else none, last, rest⟩, ?_, rfl, ?_⟩
            · simp only [if_pos hgap, difference_eq (Nat.zero_lt_of_lt hgap)]
              rfl
            · rw [left_after hlast, asU32_of_le (by omega), asU32_of_le (by omega)]
              simp [CloseRangeGaps.left, gapsFrom, hpast, hskip, hgap, Nat.not_lt.2 hfd]
          · obtain ⟨item, g, hg, hgl, hleft⟩ := ih (if fd < u32Max then some (fd + 1) else none)
            refine ⟨item, g, ?_, hgl, ?_⟩
            · simp only [if_neg hgap]
              exact hg
            · rw [← hleft, left_after hlast]
              simp [CloseRangeGaps.left, gapsFrom, hpast, hskip, hgap, Nat.not_lt.2 hfd]
      · refine ⟨_, _, if_neg hfd, rfl, ?_⟩
        rw [asU32_of_le (by omega), asU32_of_le hlast]
        simp [CloseRangeGaps.left, gapsFrom, hpast, Nat.not_le.1 hfd]

theorem collect_eq (g : CloseRangeGaps) (hlast : g.last ≤ u32Max) : g.collect = .ok g.left := by
  induction hn : g.size using Nat.strong_induction_on generalizing g with
  | h n ih =>
    obtain ⟨item, g', hg, hgl, hleft⟩ := nextGap_eq hlast g.next g.reserved
    have hitem : g.nextItem = .ok (item, g') := hg
    rw [show g.left = _ from hleft, CloseRangeGaps.collect]
    split
    · rename_i e he
      cases hitem.symm.trans he
    · rename_i g'' he
      cases hitem.symm.trans he
      rfl
    · rename_i gap g'' he
      cases hitem.symm.trans he
      have hsize : g'.size < n := hn ▸ nextGap_size hg
      rw [ih g'.size hsize g' (hgl ▸ hlast) rfl]
      rfl

theorem collect_gaps (first : ℕ) {reserved : List UInt64} (hlast : last ≤ u32Max)
    (sorted : reserved.Pairwise (· ≤ ·)) :
    ∃ gaps, (closeRangeGaps first last (reserved.map (·.toNat))).collect = .ok gaps ∧
      GapsOf first last (reserved.map (·.toNat)) gaps :=
  ⟨_, collect_eq _ hlast, gapsFrom_gapsOf _ _ (pairwise_map.2 sorted)⟩

/-! ## The driver -/

def CLOSE_RANGE_UNSHARE : ℕ := 1 <<< 1

def CLOSE_RANGE_CLOEXEC : ℕ := 1 <<< 2

def EINVAL : ℤ := 22

def CLONE_FILES : ℕ := 0x400

/-- What the driver asks of the kernel. -/
inductive Syscall where
  | unshare (flags : ℕ)
  | closeRange (first last flags : ℕ)

/-- The kernel, as the caller sees it. -/
structure Kernel where
  /-- the open descriptors, with their close-on-exec flags -/
  table : ℕ → Option Bool
  calls : List Syscall
  /-- the error with which the n-th call fails, if it does -/
  fault : ℕ → Option ℕ+

/-- What `close_range` refuses. -/
def badRange (first last flags : ℕ) : Prop :=
  flags &&& not64 (CLOSE_RANGE_UNSHARE ||| CLOSE_RANGE_CLOEXEC) ≠ 0 ∨ first > last

instance (first last flags : ℕ) : Decidable (badRange first last flags) :=
  inferInstanceAs (Decidable (_ ∨ _))

/-- What `close_range` does to an entry of the range. -/
def closed (flags : ℕ) (entry : Option Bool) : Option Bool :=
  if flags &&& CLOSE_RANGE_CLOEXEC ≠ 0 then entry.map fun _ => true else none

/-- The table after a call that succeeds.  To the caller, a table that it no
    longer shares has the same entries. -/
def Syscall.effect (table : ℕ → Option Bool) : Syscall → ℕ → Option Bool
  | .unshare _ => table
  | .closeRange first last flags => fun fd =>
    if first ≤ fd ∧ fd ≤ last then closed flags (table fd) else table fd

/-- A call that fails has no effect. -/
def Kernel.syscall (c : Syscall) (k : Kernel) : ℤ × Kernel :=
  let k' := { k with calls := k.calls ++ [c] }
  match k.fault k.calls.length, c with
  | some e, _ => (-(e : ℤ), k')
  | none, .unshare _ => (0, k')
  | none, .closeRange first last flags =>
    if badRange first last flags then (-EINVAL, k') else (0, { k' with table := c.effect k.table })

/-- The loop of `close_range_sparing`. -/
def closeGaps (flags : ℕ) : List (ℕ × ℕ) → Kernel → ℤ × Kernel
  | [], k => (0, k)
  | gap :: gaps, k =>
    let (result, k') := k.syscall (.closeRange gap.1 gap.2 flags)
    if result < 0 then (result, k') else closeGaps flags gaps k'

def descriptorArg (args : Vector UInt64 6) (index : Fin 6) : ℕ := args[index].toUInt32.toNat

def closeRangeSparing (args : Vector UInt64 6) (reserved : List UInt64) (k : Kernel) :
    Except Overflow (ℤ × Kernel) :=
  let first := descriptorArg args 0
  let last := descriptorArg args 1
  let flags := descriptorArg args 2
  if badRange first last flags then .ok (-EINVAL, k)
  else
    let rest (flags : ℕ) (k : Kernel) : Except Overflow (ℤ × Kernel) := do
      let gaps ← (closeRangeGaps (asU32 first) (asU32 last) (reserved.map (·.toNat))).collect
      pure (closeGaps flags gaps k)
    if flags &&& CLOSE_RANGE_UNSHARE ≠ 0 then
      let (result, k) := k.syscall (.unshare CLONE_FILES)
      if result < 0 then .ok (result, k) else rest (flags &&& not64 CLOSE_RANGE_UNSHARE) k
    else rest flags k

/-! ## What the driver does -/

/-- Make the calls up to the first that fails. -/
def untilError : List Syscall → Kernel → ℤ × Kernel
  | [], k => (0, k)
  | c :: cs, k => if (k.syscall c).1 < 0 then k.syscall c else untilError cs (k.syscall c).2

def gapFlags (flags : ℕ) : ℕ :=
  if flags &&& CLOSE_RANGE_UNSHARE ≠ 0 then flags &&& not64 CLOSE_RANGE_UNSHARE else flags

/-- The calls for the gaps: unshare the table if the guest asks for it, then
    close gap after gap. -/
def plan (flags : ℕ) (gaps : List (ℕ × ℕ)) : List Syscall :=
  (if flags &&& CLOSE_RANGE_UNSHARE ≠ 0 then [.unshare CLONE_FILES] else []) ++
    gaps.map fun gap => .closeRange gap.1 gap.2 (gapFlags flags)

theorem closeGaps_eq (flags : ℕ) (gaps : List (ℕ × ℕ)) (k : Kernel) :
    closeGaps flags gaps k = untilError (gaps.map fun gap => .closeRange gap.1 gap.2 flags) k := by
  induction gaps generalizing k with
  | nil => rfl
  | cons gap gaps ih =>
    rw [closeGaps, map_cons, untilError]
    rcases k.syscall (.closeRange gap.1 gap.2 flags) with ⟨result, k'⟩
    dsimp only
    rw [ih k']

/-- The calls of a plan are valid: only a fault makes them fail. -/
def Syscall.Valid : Syscall → Prop
  | .unshare _ => True
  | .closeRange first last flags => ¬ badRange first last flags

theorem Kernel.syscall_valid {c : Syscall} (h : c.Valid) (k : Kernel) :
    k.syscall c = match k.fault k.calls.length with
      | some e => (-e, { k with calls := k.calls ++ [c] })
      | none => (0, { k with calls := k.calls ++ [c], table := c.effect k.table }) := by
  unfold Kernel.syscall
  cases k.fault k.calls.length with
  | some e => rfl
  | none =>
    cases c with
    | unshare flags => rfl
    | closeRange first last flags => exact if_neg h

/-- The calls up to the first fault have their effect, and there is no other. -/
theorem untilError_eq {cs : List Syscall} (valid : ∀ c ∈ cs, c.Valid) (k : Kernel) :
    (∃ n e, n < cs.length ∧ k.fault (k.calls.length + n) = some e ∧
      (∀ i < n, k.fault (k.calls.length + i) = none) ∧
      untilError cs k = (-(e : ℤ), { k with
        calls := k.calls ++ cs.take (n + 1)
        table := (cs.take n).foldl Syscall.effect k.table })) ∨
    ((∀ i < cs.length, k.fault (k.calls.length + i) = none) ∧
      untilError cs k = (0, { k with
        calls := k.calls ++ cs
        table := cs.foldl Syscall.effect k.table })) := by
  induction cs generalizing k with
  | nil => exact .inr ⟨nofun, by simp [untilError]⟩
  | cons c cs ih =>
    have hc := k.syscall_valid (valid c mem_cons_self)
    rw [untilError]
    cases hf : k.fault k.calls.length with
    | some e =>
      rw [hf] at hc
      have hneg : (k.syscall c).1 < 0 := by
        rw [hc]
        exact Int.neg_neg_of_pos (by exact_mod_cast e.pos)
      exact .inl ⟨0, e, by simp, hf, nofun, by rw [if_pos hneg, hc]; rfl⟩
    | none =>
      rw [hf] at hc
      rw [hc]
      have hshift : ∀ i, (k.calls ++ [c]).length + i = k.calls.length + (i + 1) := fun i => by
        simp only [length_append, length_singleton]
        omega
      have hih := ih (fun d hd => valid d (mem_cons_of_mem _ hd))
        { k with calls := k.calls ++ [c], table := c.effect k.table }
      simp only [hshift, append_assoc] at hih
      have hfirst : ∀ {m : ℕ}, (∀ i < m, k.fault (k.calls.length + (i + 1)) = none) →
          ∀ i < m + 1, k.fault (k.calls.length + i) = none := by
        rintro m hm (_ | i) hi
        · exact hf
        · exact hm i (by omega)
      rcases hih with ⟨n, e, hn, hfault, hbefore, h⟩ | ⟨hnone, h⟩
      · exact .inl ⟨n + 1, e, by simpa using hn, hfault, hfirst hbefore, by rw [h]; rfl⟩
      · exact .inr ⟨by simpa using hfirst hnone, by rw [h]; rfl⟩

theorem gapFlags_and (flags mask : ℕ) (h : not64 CLOSE_RANGE_UNSHARE &&& mask = mask) :
    gapFlags flags &&& mask = flags &&& mask := by
  unfold gapFlags
  split_ifs
  · rw [Nat.and_assoc, h]
  · rfl

theorem closed_gapFlags (flags : ℕ) (entry : Option Bool) :
    closed (gapFlags flags) entry = closed flags entry := by
  unfold closed
  rw [gapFlags_and flags _ (by decide)]

theorem closed_closed (flags : ℕ) (entry : Option Bool) :
    closed flags (closed flags entry) = closed flags entry := by
  unfold closed
  split_ifs
  · cases entry <;> rfl
  · rfl

theorem plan_valid (good : ¬ badRange first last flags) (h : GapsOf first last reserved gaps) :
    ∀ c ∈ plan flags gaps, c.Valid := by
  intro c hc
  rcases mem_append.1 hc with hc | hc
  · split_ifs at hc
    · obtain rfl := mem_singleton.1 hc
      trivial
    · cases hc
  · obtain ⟨g, hg, rfl⟩ := mem_map.1 hc
    have hflags : flags &&& not64 (CLOSE_RANGE_UNSHARE ||| CLOSE_RANGE_CLOEXEC) = 0 := by
      by_contra hne
      exact good (.inl hne)
    rintro (hbad | hbad)
    · rw [gapFlags_and flags _ (by decide)] at hbad
      exact hbad hflags
    · exact absurd (h.nonempty g hg) (Nat.not_le.2 hbad)

theorem foldl_effect (flags : ℕ) (gaps : List (ℕ × ℕ)) (table : ℕ → Option Bool) (fd : ℕ) :
    (gaps.map fun gap => Syscall.closeRange gap.1 gap.2 flags).foldl Syscall.effect table fd =
      if ∃ g ∈ gaps, g.1 ≤ fd ∧ fd ≤ g.2 then closed flags (table fd) else table fd := by
  induction gaps generalizing table with
  | nil => simp
  | cons g gaps ih =>
    rw [map_cons, foldl_cons, ih]
    simp only [Syscall.effect, mem_cons, exists_eq_or_imp]
    by_cases hg : g.1 ≤ fd ∧ fd ≤ g.2
    · have hor : g.1 ≤ fd ∧ fd ≤ g.2 ∨ ∃ h ∈ gaps, h.1 ≤ fd ∧ fd ≤ h.2 := .inl hg
      rw [if_pos hg, closed_closed, ite_self, if_pos hor]
    · simp only [hg, if_false, false_or]

/-- The effect of the first calls of the plan is that of the first gaps. -/
theorem take_plan (flags n : ℕ) (gaps : List (ℕ × ℕ)) (table : ℕ → Option Bool) :
    ∃ m, ((plan flags gaps).take n).foldl Syscall.effect table =
      ((gaps.take m).map fun gap => Syscall.closeRange gap.1 gap.2 (gapFlags flags)).foldl
        Syscall.effect table := by
  unfold plan
  split_ifs
  · refine ⟨n - 1, ?_⟩
    cases n with
    | zero => rfl
    | succ n => rw [singleton_append, take_succ_cons, map_take]; rfl
  · exact ⟨n, by rw [nil_append, map_take]⟩

theorem plan_effect (h : GapsOf first last reserved gaps) (table : ℕ → Option Bool) (fd : ℕ) :
    (plan flags gaps).foldl Syscall.effect table fd =
      if first ≤ fd ∧ fd ≤ last ∧ fd ∉ reserved then closed flags (table fd) else table fd := by
  have heffect : (plan flags gaps).foldl Syscall.effect table =
      (gaps.map fun gap => Syscall.closeRange gap.1 gap.2 (gapFlags flags)).foldl
        Syscall.effect table := by
    unfold plan
    rw [foldl_append]
    split_ifs <;> rfl
  rw [heffect, foldl_effect, closed_gapFlags]
  simp only [h.exact]

theorem take_plan_effect (h : GapsOf first last reserved gaps) (n : ℕ) (table : ℕ → Option Bool)
    (fd : ℕ) :
    ((plan flags gaps).take n).foldl Syscall.effect table fd = table fd ∨
    (first ≤ fd ∧ fd ≤ last ∧ fd ∉ reserved) ∧
      ((plan flags gaps).take n).foldl Syscall.effect table fd = closed flags (table fd) := by
  obtain ⟨m, hm⟩ := take_plan flags n gaps table
  rw [hm, foldl_effect, closed_gapFlags]
  split_ifs with hg
  · obtain ⟨g, hg, hfd⟩ := hg
    exact .inr ⟨(h.exact fd).1 ⟨g, mem_of_mem_take hg, hfd⟩, rfl⟩
  · exact .inl rfl

theorem descriptorArg_le (args : Vector UInt64 6) (index : Fin 6) :
    descriptorArg args index ≤ u32Max := Nat.le_pred_of_lt (UInt32.toNat_lt _)

theorem closeRangeSparing_eq {args : Vector UInt64 6} {reserved : List UInt64}
    (good : ¬ badRange (descriptorArg args 0) (descriptorArg args 1) (descriptorArg args 2))
    (collected : (closeRangeGaps (descriptorArg args 0) (descriptorArg args 1)
      (reserved.map (·.toNat))).collect = .ok gaps) (k : Kernel) :
    closeRangeSparing args reserved k = .ok (untilError (plan (descriptorArg args 2) gaps) k) := by
  unfold closeRangeSparing
  simp only [if_neg good, asU32_of_le (descriptorArg_le args _), collected]
  unfold plan gapFlags
  by_cases hshare : descriptorArg args 2 &&& CLOSE_RANGE_UNSHARE ≠ 0
  · simp only [if_pos hshare, singleton_append, untilError, ← closeGaps_eq]
    split_ifs <;> rfl
  · simp only [if_neg hshare, nil_append, ← closeGaps_eq]
    rfl

/-- **`close_range` spares the reserved descriptors.**  For every ascending list of
    them: the iterator ends without an overflow and yields the maximal ranges of
    the window between them; and the driver refuses what the kernel refuses, or
    unshares the table once if it is asked to, closes gap after gap, and stops at the
    first error.  It changes no reserved descriptor, and all others of the window if
    it returns 0. -/
theorem close_range_spares_reserved {reserved : List UInt64} (sorted : reserved.Pairwise (· ≤ ·)) :
    (∀ first last : UInt32, ∃ gaps,
      (closeRangeGaps first.toNat last.toNat (reserved.map (·.toNat))).collect = .ok gaps ∧
      GapsOf first.toNat last.toNat (reserved.map (·.toNat)) gaps) ∧
    ∀ (args : Vector UInt64 6) (k : Kernel),
      let first := descriptorArg args 0
      let last := descriptorArg args 1
      let flags := descriptorArg args 2
      if badRange first last flags then closeRangeSparing args reserved k = .ok (-EINVAL, k)
      else ∃ gaps result k', GapsOf first last (reserved.map (·.toNat)) gaps ∧
        closeRangeSparing args reserved k = .ok (result, k') ∧
        ((∃ n e, n < (plan flags gaps).length ∧ k.fault (k.calls.length + n) = some e ∧
            (∀ i < n, k.fault (k.calls.length + i) = none) ∧ result = -e ∧
            k'.calls = k.calls ++ (plan flags gaps).take (n + 1) ∧
            k'.table = ((plan flags gaps).take n).foldl Syscall.effect k.table ∧
            ∀ fd, k'.table fd = k.table fd ∨ first ≤ fd ∧ fd ≤ last ∧
              fd ∉ reserved.map (·.toNat) ∧ k'.table fd = closed flags (k.table fd)) ∨
          result = 0 ∧ k'.calls = k.calls ++ plan flags gaps ∧
            (∀ i < (plan flags gaps).length, k.fault (k.calls.length + i) = none) ∧
            ∀ fd, k'.table fd = if first ≤ fd ∧ fd ≤ last ∧ fd ∉ reserved.map (·.toNat)
              then closed flags (k.table fd) else k.table fd) := by
  refine ⟨fun first last => collect_gaps _ (Nat.le_pred_of_lt last.toNat_lt) sorted, ?_⟩
  intro args k first last flags
  split_ifs with hbad
  · exact if_pos hbad
  · obtain ⟨gaps, hcollect, hgaps⟩ := collect_gaps first (descriptorArg_le args 1) sorted
    have hrun := closeRangeSparing_eq hbad hcollect k
    refine ⟨gaps, _, _, hgaps, hrun, ?_⟩
    rcases untilError_eq (plan_valid hbad hgaps) k with ⟨n, e, hn, hfault, hbefore, h⟩ | ⟨hnone, h⟩
    · rw [h]
      refine .inl ⟨n, e, hn, hfault, hbefore, rfl, rfl, rfl, fun fd => ?_⟩
      rcases take_plan_effect hgaps n k.table fd with h | ⟨⟨h1, h2, h3⟩, h⟩
      · exact .inl h
      · exact .inr ⟨h1, h2, h3, h⟩
    · rw [h]
      exact .inr ⟨rfl, rfl, hnone, plan_effect hgaps k.table⟩

/-- Descriptors at both ends of the range, one of them twice. -/
theorem close_range_spares_reserved_ends :
    let reserved : List UInt64 := [0, 5, 5, 4294967295]
    let last : UInt32 := 4294967295
    reserved.Pairwise (· ≤ ·) ∧
    ∃ gaps, (closeRangeGaps (0 : UInt32).toNat last.toNat (reserved.map (·.toNat))).collect =
        .ok gaps ∧
      GapsOf (0 : UInt32).toNat last.toNat (reserved.map (·.toNat)) gaps := by
  intro reserved last
  have hsorted : reserved.Pairwise (· ≤ ·) := by decide
  exact ⟨hsorted, (close_range_spares_reserved hsorted).1 0 last⟩

end Reverie.ReservedFds
