/-
  What the write-back does to the parent's bytes, run by run.  Both kinds of run are an
  update that is all or nothing (`Updates`): a byte of the run becomes what a function of its
  address and old value says, and every byte was in order, or nothing is written.
-/
import Reverie.Vfork.WriteBack

namespace Reverie.Vfork

open Memory List

theorem pageSize_pos : 0 < pageSize := by decide

/-- The bytes of `[first, last)` pages. -/
def InPages (first last a : ℕ) : Prop := first ≤ a / pageSize ∧ a / pageSize < last

instance (first last a : ℕ) : Decidable (InPages first last a) :=
  inferInstanceAs (Decidable (_ ∧ _))

theorem inPages_iff {first last a : ℕ} :
    InPages first last a ↔ first * pageSize ≤ a ∧ a < last * pageSize := by
  rw [InPages, Nat.le_div_iff_mul_le pageSize_pos, Nat.div_lt_iff_lt_mul pageSize_pos]

/-! ## Copies -/

section
variable {m parent : Image} {address length : ℕ} {s : ℕ → UInt8}

theorem checkedOffset_ensures :
    Ensures (m.checkedOffset address length) s (fun _ s' => s' = s) (fun _ s' => s' = s) :=
  Ensures.refuse (fun _ => rfl) fun _ => rfl

theorem readRaw_ensures :
    Ensures (m.readRaw address length) s
      (fun buffer s' => s' = s ∧ ∀ index, buffer index = m.byteAt (address + index))
      (fun _ s' => s' = s) :=
  checkedOffset_ensures.bind fun _ _ hs => Ensures.pure ⟨hs, fun _ => rfl⟩

theorem readParent_ensures :
    Ensures (parent.readParent address length) s
      (fun buffer s' => s' = s ∧ (∀ index, buffer index = s (address + index)) ∧
        parent.guestBase ≤ address ∧ address - parent.guestBase + length ≤ parent.slice.length)
      (fun _ s' => s' = s) := by
  refine Ensures.refuse_bind (fun _ => rfl) fun h => ?_
  refine Ensures.get_bind (Ensures.pure ⟨rfl, fun _ => rfl, ?_⟩)
  omega

theorem writeParent_ensures {source : ℕ → UInt8} {E : Error → (ℕ → UInt8) → Prop}
    (hbase : parent.guestBase ≤ address)
    (hend : address - parent.guestBase + length ≤ parent.slice.length) :
    Ensures (parent.writeParent address length source) s
      (fun _ s' => s' = fun a =>
        if address ≤ a ∧ a < address + length then source (a - address) else s a) E := by
  rw [Image.writeParent, Image.checkedOffset, Outcome.refuse, if_neg (by omega)]
  exact rfl

end

/-! ## Comparisons -/

variable {index : ℕ}

theorem mem_page {i : ℕ} : i ∈ List.range' (index * pageSize) pageSize ↔ i / pageSize = index := by
  rw [mem_range'_1, Nat.div_eq_iff pageSize_pos]
  have := pageSize_pos
  omega

theorem pageDiffers_eq_false {a b : ℕ → UInt8} :
    pageDiffers a b index = false ↔ ∀ i, i / pageSize = index → a i = b i := by
  simp only [pageDiffers, any_eq_false, mem_page, bne_iff_ne, not_not]

/-! ## Updates -/

/-- An operation that updates the bytes of pages `[first, last)`, all of which were in
    order, or writes nothing. -/
def Updates (first last : ℕ) (new : ℕ → UInt8 → UInt8) (fine : ℕ → UInt8 → Prop) (x : Write ℕ)
    (s : ℕ → UInt8) : Prop :=
  Ensures x s
    (fun _ s' => (∀ a, s' a = if InPages first last a then new a (s a) else s a) ∧
      ∀ a, InPages first last a → fine a (s a))
    (fun _ s' => s' = s)

section
variable {child parent : Image} {first n : ℕ} {s : ℕ → UInt8} {mine current : ℕ → UInt8}

/-- The bytes after the pages `[first, first + k)`. -/
def upTo (child : Image) (first k : ℕ) (s : ℕ → UInt8) (a : ℕ) : UInt8 :=
  if InPages first (first + k) a then child.byteAt a else s a

/-- What holds after `k` of the `n` pages and the end: what was written, and the run of
    differing pages that is open. -/
def Scanned (child : Image) (first n : ℕ) (s : ℕ → UInt8) (k : ℕ) (done : ℕ × Option ℕ)
    (s' : ℕ → UInt8) : Prop :=
  match done.2 with
  | none => s' = upTo child first (min k n) s
  | some start => start < k ∧ k ≤ n ∧ s' = upTo child first start s

variable {k length byte address a : ℕ} {changed : ℕ → Bool}

theorem upTo_succ (hmine : ∀ index, mine index = child.byteAt (first * pageSize + index))
    (hcurrent : ∀ index, current index = s (first * pageSize + index))
    (heq : pageDiffers mine current k = false) :
    upTo child first (k + 1) s = upTo child first k s := by
  funext a
  by_cases ha : a / pageSize = first + k
  · have hbase : first * pageSize ≤ a := by
      rw [← Nat.le_div_iff_mul_le pageSize_pos]
      omega
    have hdiv : (a - first * pageSize) / pageSize = k := by
      rw [Nat.mul_comm, Nat.sub_mul_div]
      omega
    have hbyte := pageDiffers_eq_false.1 heq _ hdiv
    rw [hmine, hcurrent, Nat.add_sub_cancel' hbase] at hbyte
    rw [upTo, upTo, if_pos (by rw [InPages]; omega), if_neg (by rw [InPages]; omega), hbyte]
  · refine if_congr ?_ rfl rfl
    rw [InPages, InPages]
    omega

theorem upTo_write {start : ℕ} (hk : start ≤ k)
    (hmine : ∀ index, mine index = child.byteAt (first * pageSize + index)) :
    (fun a => if first * pageSize + start * pageSize ≤ a ∧
        a < first * pageSize + start * pageSize + (k - start) * pageSize
      then mine (start * pageSize + (a - (first * pageSize + start * pageSize)))
      else upTo child first start s a) = upTo child first k s := by
  funext a
  have hrun : (first * pageSize + start * pageSize ≤ a ∧
      a < first * pageSize + start * pageSize + (k - start) * pageSize) ↔
        InPages (first + start) (first + k) a := by
    rw [inPages_iff, ← Nat.add_mul, ← Nat.add_mul, Nat.add_assoc, Nat.add_sub_cancel' hk]
  by_cases ha : InPages (first + start) (first + k) a
  · rw [if_pos (hrun.2 ha), upTo, if_pos ⟨by have := ha.1; omega, ha.2⟩, hmine]
    congr 1
    have := (hrun.2 ha).1
    omega
  · rw [if_neg (mt hrun.1 ha)]
    refine if_congr ?_ rfl rfl
    simp only [InPages] at ha ⊢
    omega

theorem writeBackPage_scanned {done : ℕ × Option ℕ} {s' : ℕ → UInt8}
    (hmine : ∀ index, mine index = child.byteAt (first * pageSize + index))
    (hcurrent : ∀ index, current index = s (first * pageSize + index))
    (hbase : parent.guestBase ≤ first * pageSize)
    (hend : first * pageSize - parent.guestBase + n * pageSize ≤ parent.slice.length)
    (h : Scanned child first n s k done s') :
    Ensures (writeBackPage parent (first * pageSize) n mine current done k) s'
      (fun done' s'' => Scanned child first n s (k + 1) done' s'') (fun _ s'' => s'' = s) := by
  obtain ⟨written, run⟩ := done
  rw [writeBackPage]
  rcases hd : (decide (k < n) && pageDiffers mine current k) with - | -
  · -- nothing more differs at this page
    have hsame : upTo child first (min (k + 1) n) s = upTo child first (min k n) s := by
      rcases Nat.lt_or_ge k n with hlt | hge
      · rw [decide_eq_true hlt] at hd
        rw [Nat.min_eq_left hlt, Nat.min_eq_left hlt.le, upTo_succ hmine hcurrent hd]
      · rw [Nat.min_eq_right hge, Nat.min_eq_right (Nat.le_succ_of_le hge)]
    rcases run with - | start
    · exact Ensures.pure ((show s' = _ from h).trans hsame.symm)
    · obtain ⟨hstart, hkn, hs⟩ := h
      have hroom : (k - start) * pageSize + start * pageSize ≤ n * pageSize := by
        rw [← Nat.add_mul, Nat.sub_add_cancel hstart.le]
        exact Nat.mul_le_mul_right _ hkn
      refine (writeParent_ensures (by omega) (by omega)).bind fun _ s'' hw => Ensures.pure ?_
      show s'' = _
      rw [hw, hs, upTo_write hstart.le hmine, hsame, Nat.min_eq_left hkn]
  · obtain ⟨hlt, -⟩ := Bool.and_eq_true_iff.1 hd
    have hlt := of_decide_eq_true hlt
    rcases run with - | start
    · refine Ensures.pure ⟨Nat.lt_succ_self k, hlt, (show s' = _ from h).trans ?_⟩
      rw [Nat.min_eq_left hlt.le]
    · obtain ⟨hstart, -, hs⟩ := h
      exact Ensures.pure ⟨Nat.lt_succ_of_lt hstart, hlt, hs⟩

theorem writeBackRun_updates {last : ℕ} (h : first ≤ last) :
    Updates first last (fun a _ => child.byteAt a) (fun _ _ => True)
      (writeBackRun child parent first last) s := by
  refine readRaw_ensures.bind fun mine s₁ ⟨hs₁, hmine⟩ => ?_
  subst hs₁
  refine readParent_ensures.bind fun current s₂ ⟨hs₂, hcurrent, hbase, hend⟩ => ?_
  subst hs₂
  have hstart : Scanned child first (last - first) s₂ 0 (0, none) s₂ := by
    funext a
    rw [upTo, if_neg (by rw [InPages]; omega)]
  refine (Ensures.foldlM_range (Scanned child first (last - first) s₂)
    (fun k done s' _ hI => writeBackPage_scanned hmine hcurrent hbase hend hI) hstart).bind
      fun done s' hdone => Ensures.pure ⟨fun a => ?_, fun _ _ => trivial⟩
  rcases done with ⟨written, - | start⟩
  · have hs' : s' = _ := hdone
    rw [hs', upTo, Nat.min_eq_right (Nat.le_succ _), Nat.add_sub_cancel' h]
  · exact absurd hdone.2.1 (Nat.not_succ_le_self _)

/-! ## Merging -/

theorem runEnd_changed : ∀ i, byte ≤ i → i < runEnd changed length byte → changed i = true := by
  fun_induction runEnd changed length byte with
  | case1 byte h ih =>
    intro i hi hlt
    rcases Nat.eq_or_lt_of_le hi with rfl | hi
    · exact h.2
    · exact ih i hi hlt
  | case2 byte h =>
    omega

theorem runEnd_le (h : byte ≤ length) : runEnd changed length byte ≤ length := by
  fun_induction runEnd changed length byte with
  | case1 byte hb ih => exact ih hb.1
  | case2 byte hb => exact h

/-- The bytes after the first `k` of a run. -/
def mergedTo (address k : ℕ) (mine : ℕ → UInt8) (changed : ℕ → Bool) (s : ℕ → UInt8) (a : ℕ) :
    UInt8 :=
  if address ≤ a ∧ a < address + k ∧ changed (a - address) = true then mine (a - address) else s a

theorem mergedTo_succ (h : changed k = false) :
    mergedTo address (k + 1) mine changed s = mergedTo address k mine changed s := by
  funext a
  refine if_congr ⟨?_, ?_⟩ rfl rfl
  · rintro ⟨hle, hlt, hc⟩
    refine ⟨hle, Nat.lt_of_not_le fun hge => ?_, hc⟩
    have hk : a - address = k := by omega
    rw [hk, h] at hc
    exact Bool.false_ne_true hc
  · rintro ⟨hle, hlt, hc⟩
    exact ⟨hle, by omega, hc⟩

theorem mergedTo_write {stop : ℕ} (hk : k ≤ stop) (h : ∀ i, k ≤ i → i < stop → changed i = true) :
    (fun a => if address + k ≤ a ∧ a < address + k + (stop - k) then mine (k + (a - (address + k)))
      else mergedTo address k mine changed s a) = mergedTo address stop mine changed s := by
  funext a
  by_cases ha : address + k ≤ a ∧ a < address + k + (stop - k)
  · rw [if_pos ha, mergedTo, if_pos ⟨by omega, by omega, h _ (by omega) (by omega)⟩]
    congr 1
    omega
  · rw [if_neg ha]
    refine if_congr (and_congr_right fun _ => and_congr_left fun _ => ?_) rfl rfl
    omega

theorem mergeBytes_ensures {written : ℕ}
    {E : Error → (ℕ → UInt8) → Prop} (hbase : parent.guestBase ≤ address)
    (hend : address - parent.guestBase + length ≤ parent.slice.length) (hbyte : byte ≤ length) :
    Ensures (mergeBytes parent address length mine changed byte written)
      (mergedTo address byte mine changed s)
      (fun _ s' => s' = mergedTo address length mine changed s) E := by
  induction hn : length - byte using Nat.strong_induction_on generalizing byte written with
  | _ n ih =>
    rw [mergeBytes]
    split_ifs with hlt hc
    · rw [← mergedTo_succ hc]
      exact ih (length - (byte + 1)) (by omega) (by omega) rfl
    · rw [Bool.not_eq_false] at hc
      have hle := le_runEnd changed length (byte + 1)
      have hroom : runEnd changed length (byte + 1) ≤ length := runEnd_le hlt
      refine (writeParent_ensures (by omega) (by omega)).bind fun _ s' hs' => ?_
      rw [hs', mergedTo_write (by omega)]
      · exact ih _ (by omega) hroom rfl
      · intro i hi hlt
        rcases Nat.eq_or_lt_of_le hi with rfl | hi
        · exact hc
        · exact runEnd_changed i hi hlt
    · rw [Nat.le_antisymm hbyte (Nat.not_lt.1 hlt)]
      exact Ensures.pure rfl

variable {baseline : VforkBaseline} {last : ℕ} {start : ℕ → UInt8}

/-- Whether the parent still has the mapping of a page that it had when the child
    started. -/
def PageUnchanged (parent : Image) (baseline : VforkBaseline) (page : ℕ) : Prop :=
  (parent.pages.get page).isSome ∧
    parent.mappingIncarnations page = baseline.memory.mappingIncarnations page ∧
    (parent.backingPages page).map (·.generation) = baseline.parentBacking page

/-- Whether the child's byte can go back over `old`. -/
def Orderable (child parent : Image) (baseline : VforkBaseline) (a : ℕ) (old : UInt8) : Prop :=
  child.byteAt a ≠ baseline.memory.byteAt a →
    PageUnchanged parent baseline (a / pageSize) ∧
      (old = baseline.memory.byteAt a ∨ old = child.byteAt a)

/-- The child's byte where it differs from the baseline's. -/
def mergedByte (child : Image) (baseline : VforkBaseline) (a : ℕ) (old : UInt8) : UInt8 :=
  if child.byteAt a ≠ baseline.memory.byteAt a then child.byteAt a else old

theorem checkPage_ensures {index : ℕ} :
    Ensures (checkPage parent baseline first mine start current index) s
      (fun _ s' => s' = s ∧ (pageDiffers mine start index = true →
        PageUnchanged parent baseline (first + index) ∧
          ∀ i, i / pageSize = index → mine i ≠ start i → current i = start i ∨ current i = mine i))
      (fun _ s' => s' = s) := by
  rcases hd : pageDiffers mine start index with - | -
  · rw [checkPage, hd]
    exact Ensures.pure ⟨rfl, fun h => absurd h Bool.false_ne_true⟩
  · rw [checkPage, hd]
    refine Ensures.refuse_bind (fun _ => rfl) fun hpage => ?_
    refine Ensures.refuse (fun _ => rfl) fun hc => ⟨rfl, fun _ => ⟨?_, ?_⟩⟩
    · push Not at hpage
      exact ⟨Option.isSome_iff_ne_none.2 (by simpa using hpage.1), hpage.2.1, hpage.2.2⟩
    · rintro i rfl hne
      by_contra hcon
      obtain ⟨hstart, hmine⟩ := not_or.1 hcon
      refine hc (any_eq_true.2 ⟨i, mem_page.2 rfl, ?_⟩)
      rw [bne_iff_ne.2 hne, bne_iff_ne.2 hstart, bne_iff_ne.2 hmine]
      rfl

theorem checkPages_ensures {n : ℕ} :
    Ensures ((List.range n).forM (checkPage parent baseline first mine start current)) s
      (fun _ s' => s' = s ∧ ∀ i, i / pageSize < n → mine i ≠ start i →
        PageUnchanged parent baseline (first + i / pageSize) ∧
          (current i = start i ∨ current i = mine i))
      (fun _ s' => s' = s) := by
  refine (Ensures.forM (fun done s' => s' = s ∧ ∀ i, i / pageSize ∈ done → mine i ≠ start i →
    PageUnchanged parent baseline (first + i / pageSize) ∧
      (current i = start i ∨ current i = mine i)) ?_ ⟨rfl, fun _ h => absurd h not_mem_nil⟩).mono
      (fun _ s' h => ⟨h.1, fun i hi => h.2 i (mem_range.2 hi)⟩) fun _ _ h => h
  intro done index rest s' _ hI
  have hstep : Ensures (checkPage parent baseline first mine start current index) s' _ _ :=
    checkPage_ensures
  refine hstep.mono (fun _ s' hpage => ⟨hpage.1.trans hI.1, fun i hi hne => ?_⟩)
    fun _ _ h => h.trans hI.1
  rcases mem_append.1 hi with hi | hi
  · exact hI.2 i hi hne
  · obtain rfl := mem_singleton.1 hi
    have hd : pageDiffers mine start (i / pageSize) = true := by
      rw [← Bool.not_eq_false]
      exact fun heq => hne (pageDiffers_eq_false.1 heq i rfl)
    exact ⟨(hpage.2 hd).1, (hpage.2 hd).2 i rfl hne⟩

theorem inPages_index (h : InPages first last a) :
    first * pageSize ≤ a ∧ a - first * pageSize < (last - first) * pageSize ∧
      first + (a - first * pageSize) / pageSize = a / pageSize := by
  obtain ⟨hle, hlt⟩ := inPages_iff.1 h
  refine ⟨hle, ?_, ?_⟩
  · rw [Nat.sub_mul]
    omega
  · rw [Nat.mul_comm, Nat.sub_mul_div]
    exact Nat.add_sub_cancel' h.1

theorem inPages_of_index (hle : first * pageSize ≤ a)
    (hlt : a < first * pageSize + (last - first) * pageSize) : InPages first last a := by
  rw [inPages_iff]
  rw [Nat.sub_mul] at hlt
  omega

/-- With a baseline the child's changes go back, if all can be ordered. -/
theorem mergeBackRun_updates :
    Updates first last (mergedByte child baseline) (Orderable child parent baseline)
      (mergeBackRun child parent baseline first last) s := by
  refine readRaw_ensures.bind fun mine s₁ ⟨hs₁, hmine⟩ => ?_
  subst hs₁
  refine readRaw_ensures.bind fun start s₂ ⟨hs₂, hstart⟩ => ?_
  subst hs₂
  -- the buffers hold the bytes of the run
  have hbytes : ∀ {a}, InPages first last a →
      mine (a - first * pageSize) = child.byteAt a ∧
        start (a - first * pageSize) = baseline.memory.byteAt a := by
    intro a ha
    rw [hmine, hstart, Nat.add_sub_cancel' (inPages_index ha).1]
    exact ⟨rfl, rfl⟩
  rcases hall : (List.range ((last - first) * pageSize)).all fun byte => mine byte == start byte
    with - | -
  · refine readParent_ensures.bind fun current s₃ ⟨hs₃, hcurrent, hbase, hend⟩ => ?_
    subst hs₃
    refine checkPages_ensures.bind fun _ s₄ ⟨hs₄, hpages⟩ => ?_
    subst hs₄
    have hzero : mergedTo (first * pageSize) 0 mine
        (fun byte => mine byte != start byte && mine byte != current byte) s₄ = s₄ := by
      funext a
      rw [mergedTo, if_neg (by omega)]
    have hmerge : Ensures (mergeBytes parent (first * pageSize) ((last - first) * pageSize) mine
        (fun byte => mine byte != start byte && mine byte != current byte) 0 0)
        (mergedTo (first * pageSize) 0 mine _ s₄) _ (fun _ s' => s' = s₄) :=
      mergeBytes_ensures hbase hend (Nat.zero_le _)
    rw [hzero] at hmerge
    have hold : ∀ {a}, InPages first last a → current (a - first * pageSize) = s₄ a := by
      intro a ha
      rw [hcurrent, Nat.add_sub_cancel' (inPages_index ha).1]
    refine hmerge.mono (fun _ s' hs' => ⟨fun a => ?_, fun a ha hne => ?_⟩) fun _ _ h => h
    · rw [hs', mergedTo]
      by_cases ha : InPages first last a
      · obtain ⟨hle, hlt, -⟩ := inPages_index ha
        rw [if_pos ha, mergedByte, (hbytes ha).1, (hbytes ha).2, hold ha]
        by_cases hne : child.byteAt a = baseline.memory.byteAt a
        · rw [if_neg (not_not.2 hne), if_neg (by simp [hne])]
        · rw [if_pos hne]
          by_cases hcur : child.byteAt a = s₄ a
          · rw [if_neg (by simp [hcur]), hcur]
          · rw [if_pos ⟨hle, by omega, by simp [hne, hcur]⟩]
      · rw [if_neg ha, if_neg fun h => ha (inPages_of_index h.1 (by omega))]
    · obtain ⟨-, hlt, hpage⟩ := inPages_index ha
      rw [← (hbytes ha).1, ← (hbytes ha).2] at hne
      have := hpages _ ((Nat.div_lt_iff_lt_mul pageSize_pos).2 hlt) hne
      rwa [hpage, (hbytes ha).1, (hbytes ha).2, hold ha] at this
  · have heq : ∀ {a}, InPages first last a → child.byteAt a = baseline.memory.byteAt a := by
      intro a ha
      have := all_eq_true.1 hall _ (mem_range.2 (inPages_index ha).2.1)
      rw [← (hbytes ha).1, ← (hbytes ha).2]
      exact eq_of_beq this
    refine Ensures.pure ⟨fun a => ?_, fun a ha hne => absurd (heq ha) hne⟩
    split_ifs with ha
    · rw [mergedByte, if_neg (not_not.2 (heq ha))]
    · rfl

end

/-! ## All runs -/

section
variable {child : Image} {link : VforkParent} {s : ℕ → UInt8}

/-- The byte that goes back over `old`. -/
def newByte (child : Image) (link : VforkParent) (a : ℕ) (old : UInt8) : UInt8 :=
  match link.baseline with
  | none => child.byteAt a
  | some baseline => mergedByte child baseline a old

/-- Whether a byte can go back over `old`. -/
def Fine (child : Image) (link : VforkParent) (a : ℕ) (old : UInt8) : Prop :=
  match link.baseline with
  | none => True
  | some baseline => Orderable child link.memory baseline a old

variable {run : ℕ × ℕ} {runs : List (ℕ × ℕ)}

theorem writeBackOne_updates (h : run.1 ≤ run.2) :
    Updates run.1 run.2 (newByte child link) (Fine child link) (writeBackOne child link run) s := by
  obtain ⟨memory, execCount, - | baseline⟩ := link
  · exact writeBackRun_updates h
  · exact mergeBackRun_updates

/-- The bytes of the runs were in order and went back, and no others changed. -/
structure Written (child : Image) (link : VforkParent) (runs : List (ℕ × ℕ))
    (s s' : ℕ → UInt8) : Prop where
  new : ∀ a, Intervals.Mem (a / pageSize) runs → s' a = newByte child link a (s a)
  same : ∀ a, ¬ Intervals.Mem (a / pageSize) runs → s' a = s a
  fine : ∀ a, Intervals.Mem (a / pageSize) runs → Fine child link a (s a)

theorem Written.nil : Written child link [] s s :=
  ⟨fun _ h => absurd h Intervals.mem_nil, fun _ _ => rfl, fun _ h => absurd h Intervals.mem_nil⟩

theorem Written.cons {s₁ s' : ℕ → UInt8} (hord : ∀ r ∈ runs, run.2 ≤ r.1)
    (hone : ∀ a, s₁ a = if InPages run.1 run.2 a then newByte child link a (s a) else s a)
    (hfine : ∀ a, InPages run.1 run.2 a → Fine child link a (s a))
    (h : Written child link runs s₁ s') : Written child link (run :: runs) s s' := by
  have hapart : ∀ a, InPages run.1 run.2 a → ¬ Intervals.Mem (a / pageSize) runs := by
    rintro a ha ⟨r, hr, hle, -⟩
    exact absurd ha.2 (Nat.not_lt.2 ((hord r hr).trans hle))
  refine ⟨fun a ha => ?_, fun a ha => ?_, fun a ha => ?_⟩
  · by_cases hin : InPages run.1 run.2 a
    · rw [h.same a (hapart a hin), hone, if_pos hin]
    · rw [h.new a ((Intervals.mem_cons.1 ha).resolve_left hin), hone, if_neg hin]
  · obtain ⟨hin, hrest⟩ := not_or.1 (mt Intervals.mem_cons.2 ha)
    have hin : ¬ InPages run.1 run.2 a := hin
    rw [h.same a hrest, hone, if_neg hin]
  · by_cases hin : InPages run.1 run.2 a
    · exact hfine a hin
    · have := h.fine a ((Intervals.mem_cons.1 ha).resolve_left hin)
      rwa [hone, if_neg hin] at this

theorem writeBackRuns_updates (hord : runs.Pairwise fun r s => r.2 ≤ s.1)
    (hpos : ∀ r ∈ runs, r.1 < r.2) : ∀ {result : VforkWriteBack} {s : ℕ → UInt8},
      Ensures (writeBackRuns child link runs result) s
        (fun _ s' => Written child link runs s s')
        (fun _ s' => ∃ done rest, runs = done ++ rest ∧ Written child link done s s') := by
  induction runs with
  | nil => exact fun {_ s} => Ensures.pure Written.nil
  | cons run runs ih =>
    obtain ⟨hrun, hrest⟩ := pairwise_cons.1 hord
    refine Ensures.bind ((writeBackOne_updates (hpos run mem_cons_self).le).mono
      (fun _ _ h => h) fun _ s' h => ⟨[], run :: runs, rfl, h ▸ Written.nil⟩) ?_
    intro written s₁ hone
    refine (ih hrest fun r hr => hpos r (mem_cons_of_mem _ hr)).mono ?_ ?_
    · intro _ s' h
      exact h.cons hrun hone.1 hone.2
    · rintro _ s' ⟨done, rest, rfl, h⟩
      exact ⟨run :: done, rest, rfl,
        h.cons (fun r hr => hrun r (mem_append_left _ hr)) hone.1 hone.2⟩

end

end Reverie.Vfork
