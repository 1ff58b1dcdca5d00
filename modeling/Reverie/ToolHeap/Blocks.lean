/-
  The blocks of the heap: `Rep a h bs` says that they tile the used part of the arena,
  `Apart bs` that no two free ones touch.
-/
import Reverie.Lib.Segments
import Reverie.ToolHeap.Alloc

namespace Reverie.ToolHeap

open Words Option

/-! ## Alignment -/

theorem alignUp_eq {value k r : ℕ} (h : alignUp value (2 ^ k) = some r) :
    value ≤ r ∧ r < value + 2 ^ k ∧ 2 ^ k ∣ r := by
  have hpos : 0 < 2 ^ k := Nat.two_pow_pos k
  unfold alignUp checkedAdd at h
  split_ifs at h with hlt
  · rw [map_some, and_not64 hlt (by omega)] at h
    obtain rfl := Option.some.inj h
    have hdiv := Nat.div_add_mod (value + (2 ^ k - 1)) (2 ^ k)
    rw [Nat.mul_comm] at hdiv
    refine ⟨?_, ?_, Nat.dvd_mul_left _ _⟩ <;> omega
  · cases h

theorem alignUp_of_dvd {value : ℕ} (h : WORD ∣ value) (hlt : value + 7 < 2 ^ 64) :
    alignUp value WORD = some value := by
  obtain ⟨m, rfl⟩ := h
  unfold WORD at hlt
  unfold alignUp checkedAdd WORD
  have hround := and_not64 (k := 3) hlt (by decide)
  rw [if_pos hlt, map_some, show 8 - 1 = 7 from rfl]
  rw [show 2 ^ 3 - 1 = 7 from rfl] at hround
  congr 1
  omega

theorem layoutEnd_eq {a : Arena} {offset pointer stop : ℕ} {layout : Layout}
    (h : layoutEnd a offset layout = some (pointer, stop)) :
    layout.align ∣ pointer ∧ WORD ∣ pointer ∧ a.base + offset + HEADER + WORD ≤ pointer ∧
      pointer + max layout.size 1 ≤ a.base + stop ∧ WORD ∣ stop := by
  unfold layoutEnd at h
  simp only [bind_eq_bind, bind_eq_some_iff, checkedAdd, ite_none_right_eq_some,
    Option.some.injEq] at h
  obtain ⟨_, ⟨-, rfl⟩, _, ⟨-, rfl⟩, _, ⟨-, rfl⟩, p, hp, _, ⟨-, rfl⟩, e, he, rfl, rfl⟩ := h
  obtain ⟨k, hk⟩ := layout.align_pow
  have hmax : ∃ j, max layout.align WORD = 2 ^ j ∧ layout.align ∣ 2 ^ j ∧ WORD ∣ 2 ^ j := by
    rw [hk, show WORD = 2 ^ 3 from rfl]
    rcases Nat.le_total k 3 with h | h
    · exact ⟨3, max_eq_right (Nat.pow_le_pow_right (by decide) h), Nat.pow_dvd_pow 2 h, dvd_rfl⟩
    · exact ⟨k, max_eq_left (Nat.pow_le_pow_right (by decide) h), dvd_rfl, Nat.pow_dvd_pow 2 h⟩
  obtain ⟨j, hj, halign, hword⟩ := hmax
  rw [hj] at hp
  obtain ⟨hp1, -, hp2⟩ := alignUp_eq hp
  obtain ⟨he1, -, he2⟩ := alignUp_eq (k := 3) he
  refine ⟨halign.trans hp2, hword.trans hp2, hp1, ?_, he2⟩
  omega

/-! ## Blocks -/

/-- A block of the arena, free or with its allocation. -/
structure Block where
  start : ℕ
  span : ℕ
  used : Option Allocation

/-- The end of a block. -/
abbrev Block.stop (b : Block) : ℕ := b.start + b.span

def freeBlocks (bs : List Block) : List Block := bs.filter (·.used.isNone)

def freeStarts (bs : List Block) : List ℕ := (freeBlocks bs).map Block.start

/-- The payload lies in its block, behind the header and the back-pointer. -/
structure Payload (a : Arena) (mem : ℕ → ℕ) (b : Block) (x : Allocation) : Prop where
  align : x.layout.align ∣ x.pointer
  word : WORD ∣ x.pointer
  lower : a.base + b.start + HEADER + WORD ≤ x.pointer
  upper : x.pointer + max x.layout.size 1 ≤ a.base + b.stop
  back : mem (backPointer a x.pointer) = b.start

/-- The memory holds a block. -/
structure Block.Ok (a : Arena) (mem : ℕ → ℕ) (b : Block) : Prop where
  aligned : WORD ∣ b.span
  large : MIN_FREE_SPAN ≤ b.span
  header : mem b.start = b.span
  used : ∀ x, b.used = some x → Payload a mem b x

def Heap.cursor (h : Heap) : ℕ := if h.next = 0 then WORD else h.next

/-- The memory holds the blocks. -/
structure Rep (a : Arena) (h : Heap) (bs : List Block) : Prop where
  tiles : Tiles Block.start Block.span WORD bs h.cursor
  next_dvd : WORD ∣ h.next
  next_le : h.next ≤ a.bytes
  ok : ∀ b ∈ bs, b.Ok a h.mem
  links : Linked h.link h.freeHead (freeStarts bs)

/-- No two free blocks are adjacent. -/
def Apart (bs : List Block) : Prop :=
  bs.IsChain fun b c => ¬ (b.used.isNone ∧ c.used.isNone)

section
variable {a : Arena} {h : Heap} {mem mem' : ℕ → ℕ} {b c : Block} {bs pre post : List Block}
  {x : Allocation}

@[simp] theorem freeStarts_append : freeStarts (pre ++ post) = freeStarts pre ++ freeStarts post := by
  simp [freeStarts, freeBlocks]

theorem freeStarts_cons_free (hb : b.used = none) : freeStarts (b :: bs) = b.start :: freeStarts bs := by
  simp [freeStarts, freeBlocks, hb]

theorem freeStarts_cons_used (hb : b.used = some x) : freeStarts (b :: bs) = freeStarts bs := by
  simp [freeStarts, freeBlocks, hb]

theorem mem_freeStarts {y : ℕ} : y ∈ freeStarts bs ↔ ∃ c ∈ bs, c.used = none ∧ c.start = y := by
  simp [freeStarts, freeBlocks, and_assoc]

theorem Payload.backPointer_bounds (p : Payload a mem b x) :
    b.start + HEADER ≤ backPointer a x.pointer ∧ backPointer a x.pointer + WORD < b.stop ∧
      a.base + backPointer a x.pointer + WORD = x.pointer := by
  have hlower := p.lower
  have hupper := p.upper
  unfold backPointer HEADER WORD at *
  omega

theorem Block.Ok.frame (ok : b.Ok a mem)
    (agree : ∀ w, b.start ≤ w → w < b.stop → w ≠ b.start + WORD → mem' w = mem w) :
    b.Ok a mem' where
  aligned := ok.aligned
  large := ok.large
  header := by
    have hlarge := ok.large
    unfold MIN_FREE_SPAN at hlarge
    rw [agree b.start le_rfl (by rw [Block.stop]; omega) (by unfold WORD; omega), ok.header]
  used x hx := by
    have p := ok.used x hx
    have hback := p.backPointer_bounds
    refine ⟨p.align, p.word, p.lower, p.upper, ?_⟩
    rw [agree _ (by omega) (by omega) (by unfold HEADER at hback; unfold WORD; omega), p.back]

theorem Rep.around (r : Rep a h (pre ++ b :: post)) :
    (∀ c ∈ pre, c.stop ≤ b.start) ∧ (∀ c ∈ post, b.stop ≤ c.start) := by
  obtain ⟨hpre, hpost⟩ := Tiles.append_cons.1 r.tiles
  exact ⟨fun c hc => (hpre.bounds hc).2, fun c hc => (hpost.bounds hc).1⟩

theorem Rep.large (r : Rep a h bs) (hb : b ∈ bs) : MIN_FREE_SPAN ≤ b.span := (r.ok b hb).large

theorem Rep.start_pos (r : Rep a h bs) (hb : b ∈ bs) : WORD ≤ b.start := (r.tiles.bounds hb).1

theorem Rep.cursor_le (r : Rep a h bs) (hb : b ∈ bs) : b.stop ≤ h.next := by
  have hstop := (r.tiles.bounds hb).2
  have hlarge := r.large hb
  unfold Heap.cursor at hstop
  split_ifs at hstop
  · have := r.start_pos hb
    unfold MIN_FREE_SPAN at hlarge
    omega
  · exact hstop

theorem Rep.unique {w : ℕ} (r : Rep a h bs) (hb : b ∈ bs) (hc : c ∈ bs) (hb₁ : b.start ≤ w)
    (hb₂ : w < b.stop) (hc₁ : c.start ≤ w) (hc₂ : w < c.stop) : b = c := by
  by_contra hne
  rcases r.tiles.disjoint hb hc hne with h | h
  · exact absurd (hb₂.trans_le (h.trans hc₁)) (lt_irrefl w)
  · exact absurd (hc₂.trans_le (h.trans hb₁)) (lt_irrefl w)

/-- Outside of `[lo, hi)` nothing but links of free blocks was written. -/
def Frame (bs : List Block) (lo hi : ℕ) (mem mem' : ℕ → ℕ) : Prop :=
  ∀ w, w < lo ∨ hi ≤ w → (∀ d ∈ bs, d.used = none → w ≠ d.start + WORD) → mem' w = mem w

theorem Rep.frame {lo hi : ℕ} (r : Rep a h bs) (hc : c ∈ bs) (hout : c.stop ≤ lo ∨ hi ≤ c.start)
    (frame : Frame bs lo hi h.mem mem') : c.Ok a mem' := by
  refine (r.ok c hc).frame fun w hw₁ hw₂ hlink => frame w ?_ fun d hd hfree heq => hlink ?_
  · rcases hout with h | h
    · exact .inl (hw₂.trans_le h)
    · exact .inr (h.trans hw₁)
  · -- the link of another block is not in this one
    have hlarge := r.large hd
    unfold MIN_FREE_SPAN at hlarge
    have hdc : d = c := r.unique hd hc (by omega) (by rw [heq, Block.stop, WORD]; omega) hw₁ hw₂
    rw [heq, hdc]

theorem Rep.nodup (r : Rep a h bs) : (freeStarts bs).Nodup := by
  have hpair : bs.Pairwise fun b c => b.start < c.start := by
    refine r.tiles.pairwise.imp_of_mem fun {b c} hb _ hle => ?_
    have := r.large hb
    unfold MIN_FREE_SPAN at this
    omega
  have hfree : (freeBlocks bs).Pairwise fun b c => b.start < c.start := hpair.filter _
  exact List.pairwise_map.2 (hfree.imp Nat.ne_of_lt)

theorem Rep.length_lt (r : Rep a h bs) : (freeStarts bs).length < a.bytes + 1 := by
  have hle : (freeStarts bs).length ≤ bs.length := by
    simp only [freeStarts, List.length_map]
    exact List.length_filter_le _ _
  have htiles := r.tiles.length_le fun b hb => lt_of_lt_of_le (by decide) (r.large hb)
  have hnext := r.next_le
  unfold Heap.cursor at htiles
  split_ifs at htiles
  · omega
  · omega

end

/-! ## Writes -/

section
variable {h : Heap} {offset value w : ℕ} {xs ys zs : List ℕ}

theorem Heap.mem_write : (h.write offset value).mem w = if w = offset then value else h.mem w := by
  unfold Heap.write
  by_cases hw : w = offset
  · simp [hw]
  · simp [hw]

theorem Heap.link_write (hw : w + WORD ≠ offset) : (h.write offset value).link w = h.link w := by
  unfold Heap.link
  rw [Heap.mem_write, if_neg hw]

theorem Heap.link_setLink :
    (h.setLink offset value).link w = if w = offset then value else h.link w := by
  unfold Heap.link Heap.setLink
  rw [Heap.mem_write]
  simp only [Nat.add_right_cancel_iff]

theorem Heap.relink_linked (hl : Linked h.link h.freeHead (xs ++ ys)) (hz : Linked h.link value zs)
    (nodup : xs.Nodup) (apart : ∀ x ∈ xs, x ∉ zs) :
    Linked (h.relink (Linked.last xs) value).link (h.relink (Linked.last xs) value).freeHead
      (xs ++ zs) := by
  have hreplace := hl.replace hz nodup apart
  unfold Heap.relink
  by_cases hxs : xs = []
  · subst hxs
    exact hz
  · have hne : Linked.last xs ≠ FREE_LIST_END := fun h0 => hxs (hl.last_eq_zero.1 h0)
    rw [if_neg hne]
    rw [if_neg hxs, if_neg hxs] at hreplace
    refine hreplace.congr fun x _ => ?_
    rw [Heap.link_setLink, Function.update_apply]

theorem Heap.relink_mem {previous : ℕ} (hw : w ≠ previous + WORD) :
    (h.relink previous value).mem w = h.mem w := by
  unfold Heap.relink Heap.setLink
  split_ifs
  · rfl
  · rw [Heap.mem_write, if_neg hw]

theorem Heap.relink_mem_last (hw : ∀ y ∈ xs, w ≠ y + WORD) :
    (h.relink (Linked.last xs) value).mem w = h.mem w := by
  by_cases hnil : xs = []
  · subst hnil
    rfl
  · exact Heap.relink_mem (hw _ (Linked.last_mem hnil))

@[simp] theorem Heap.relink_next {previous : ℕ} : (h.relink previous value).next = h.next := by
  unfold Heap.relink
  split_ifs <;> rfl

end

end Reverie.ToolHeap
