/-
  The heap is sound.

  Main theorem: `heap_sound`, over any sequence of operations.  Each operation keeps
  the blocks (`Op.run_holds`), and what clients rely on follows from them
  (`Holds.sound`).
-/
import Reverie.ToolHeap.Deallocation

namespace Reverie.ToolHeap
open List

/-! ## Writes to payloads -/

section
variable {a : Arena} {h : Heap} {bs : List Block} {b : Block} {x : Allocation} {live : List Allocation}

theorem Payload.word_bounds {mem : ℕ → ℕ} {word : ℕ} (p : Payload a mem b x)
    (hstop : WORD ∣ b.stop) (hword : word * WORD < max x.layout.size 1) :
    backPointer a x.pointer < x.pointer - a.base + word * WORD ∧
      x.pointer - a.base + word * WORD < b.stop := by
  have hlower := p.lower
  have hupper := p.upper
  unfold backPointer HEADER WORD at *
  omega

theorem store_holds {word : ℕ} (i : Holds a h bs live) (hx : x ∈ live)
    (hword : word * WORD < max x.layout.size 1) (value : ℕ) :
    Holds a (h.write (x.pointer - a.base + word * WORD) value) bs live := by
  have r := i.rep
  obtain ⟨b, hb, hused⟩ := mem_filterMap.1 (i.live.mem_iff.2 hx)
  have p := (r.ok b hb).used x hused
  obtain ⟨hlo, hhi⟩ := p.word_bounds (Nat.dvd_add (r.start_dvd hb) (r.ok b hb).aligned) hword
  have hback := p.backPointer_bounds
  refine ⟨⟨r.tiles, r.next_dvd, r.next_le, fun c hc => ?_, ?_⟩, i.apart, i.live⟩
  · by_cases hcb : c = b
    · -- the header and the back-pointer are before the payload
      subst hcb
      have hok := r.ok c hc
      refine ⟨hok.aligned, hok.large, ?_, fun y hy => ?_⟩
      · rw [Heap.mem_write, if_neg (by omega), hok.header]
      · have hxy : x = y := Option.some.inj (hused.symm.trans hy)
        subst hxy
        refine ⟨p.align, p.word, p.lower, p.upper, ?_⟩
        rw [Heap.mem_write, if_neg (by omega), p.back]
    · refine (r.ok c hc).frame fun w hw₁ hw₂ _ => Heap.mem_write.trans (if_neg ?_)
      rintro rfl
      exact hcb (r.unique hc hb hw₁ hw₂ (by omega) hhi)
  · refine r.links.congr fun y hy => Heap.link_write ?_
    obtain ⟨c, hc, hfree, rfl, hlt⟩ := mem_freeStarts_bounds r hy
    intro heq
    have hcb := r.unique hc hb (Nat.le_add_right _ _) hlt (by omega) (by omega)
    rw [hcb, hused] at hfree
    cases hfree

/-! ## Sequences of operations -/

theorem Op.run_holds {s : State} (i : Holds a s.heap bs s.live) (op : Op) :
    ∃ s' bs', op.run a s = some s' ∧ Holds a s'.heap bs' s'.live := by
  cases op with
  | allocate layout =>
    rcases allocate_holds i layout with hnull | ⟨pointer, h', bs', hrun, hpos, hnew⟩
    · exact ⟨s, bs, by simp [Op.run, hnull], i⟩
    · refine ⟨⟨h', ⟨pointer, layout⟩ :: s.live⟩, bs', ?_, hnew⟩
      simp [Op.run, hrun, hpos]
  | deallocate index =>
    rcases hx : s.live[index]? with _ | x
    · exact ⟨s, bs, by simp [Op.run, hx], i⟩
    · obtain ⟨hlt, rfl⟩ := List.getElem?_eq_some_iff.1 hx
      have hperm := (List.getElem_cons_eraseIdx_perm hlt).symm
      obtain ⟨h', bs', hrun, hnew⟩ := deallocate_holds ⟨i.rep, i.apart, i.live.trans hperm⟩
      exact ⟨⟨h', s.live.eraseIdx index⟩, bs', by simp [Op.run, hlt, hrun], hnew⟩
  | store index word value =>
    rcases hx : s.live[index]? with _ | x
    · exact ⟨s, bs, by simp [Op.run, hx], i⟩
    · by_cases hword : word * WORD < max x.layout.size 1
      · refine ⟨⟨s.heap.write (x.pointer - a.base + word * WORD) value, s.live⟩, bs, ?_, ?_⟩
        · simp only [Op.run, hx, if_pos hword]
        · exact store_holds i (List.mem_of_getElem? hx) hword value
      · exact ⟨s, bs, by simp only [Op.run, hx, if_neg hword], i⟩

theorem run_holds {s : State} (i : Holds a s.heap bs s.live) (ops : List Op) :
    ∃ s' bs', run a s ops = some s' ∧ Holds a s'.heap bs' s'.live := by
  induction ops generalizing s bs with
  | nil => exact ⟨s, bs, rfl, i⟩
  | cons op ops ih =>
    obtain ⟨s₁, bs₁, hop, i₁⟩ := op.run_holds i
    obtain ⟨s', bs', hrun, i'⟩ := ih i₁
    refine ⟨s', bs', ?_, i'⟩
    rw [run, foldlM_cons, hop]
    exact hrun

theorem fresh_holds (a : Arena) (mem : ℕ → ℕ) : Holds a (Heap.fresh mem) [] [] :=
  ⟨⟨rfl, Nat.dvd_zero _, Nat.zero_le _, nofun, rfl⟩, .nil, .nil⟩

/-- The payload of the allocation has the byte at this offset. -/
def Allocation.Occupies (a : Arena) (x : Allocation) (offset : ℕ) : Prop :=
  x.pointer ≤ a.base + offset ∧ a.base + offset < x.pointer + max x.layout.size 1

/-- What clients of the heap rely on; the blocks are those that the headers in
    memory describe. -/
structure Sound (a : Arena) (s : State) (blocks : List Block) : Prop where
  aligned : ∀ x ∈ s.live, x.layout.align ∣ x.pointer
  inside : ∀ x ∈ s.live, a.base ≤ x.pointer ∧ x.pointer + max x.layout.size 1 ≤ a.base + a.bytes
  /-- payloads do not overlap -/
  disjoint : s.live.Pairwise fun x y => ∀ offset, ¬ (x.Occupies a offset ∧ y.Occupies a offset)
  headers : ∀ x ∈ s.live, ∀ b ∈ blocks, ∀ offset, x.Occupies a offset →
    ¬ (b.start ≤ offset ∧ offset < b.start + HEADER)
  backPointers : ∀ x ∈ s.live, ∀ y ∈ s.live, ∀ offset, x.Occupies a offset →
    ¬ (backPointer a y.pointer ≤ offset ∧ offset < backPointer a y.pointer + WORD)
  /-- the blocks fill the used part of the arena -/
  tiles : Tiles Block.start Block.span WORD blocks s.heap.cursor
  used_le : s.heap.next ≤ a.bytes
  spans : ∀ b ∈ blocks, s.heap.span b.start = b.span ∧ WORD ∣ b.span ∧ MIN_FREE_SPAN ≤ b.span
  /-- every block is live or free -/
  live : (allocations blocks).Perm s.live
  free : Linked s.heap.link s.heap.freeHead (freeStarts blocks)
  /-- in address order, with something between any two -/
  ascending : (freeBlocks blocks).Pairwise fun b c => b.stop < c.start

theorem Apart.pairwise {start stop : ℕ} (ap : Apart bs)
    (tiles : Tiles Block.start Block.span start bs stop) (pos : ∀ b ∈ bs, 0 < b.span) :
    (freeBlocks bs).Pairwise fun b c => b.stop < c.start := by
  induction bs generalizing start with
  | nil => exact .nil
  | cons b bs ih =>
    have hih := ih (isChain_cons.1 ap).2 tiles.2 fun c hc => pos c (mem_cons_of_mem _ hc)
    rcases hb : b.used with _ | x
    · have hcons : freeBlocks (b :: bs) = b :: freeBlocks bs := by simp [freeBlocks, hb]
      rw [hcons]
      refine pairwise_cons.2 ⟨fun c hc => ?_, hih⟩
      obtain ⟨hc, hfree⟩ := mem_filter.1 hc
      obtain ⟨rfl, tiles⟩ := tiles
      cases bs with
      | nil => cases hc
      | cons d bs =>
        obtain ⟨hd, tiles⟩ := tiles
        have hdpos := pos d (by simp)
        rcases mem_cons.1 hc with rfl | hc
        · have hnot := (isChain_cons.1 ap).1 c rfl
          exact absurd ⟨by rw [hb]; rfl, hfree⟩ hnot
        · have hle := (tiles.bounds hc).1
          rw [Block.stop]
          omega
    · have hcons : freeBlocks (b :: bs) = freeBlocks bs := by simp [freeBlocks, hb]
      rw [hcons]
      exact hih

theorem Payload.occupies {mem : ℕ → ℕ} {offset : ℕ} (p : Payload a mem b x) (h : x.Occupies a offset) :
    backPointer a x.pointer + WORD ≤ offset ∧ offset < b.stop := by
  obtain ⟨h₁, h₂⟩ := h
  have hback := p.backPointer_bounds
  have hupper := p.upper
  omega

theorem Holds.sound {s : State} (i : Holds a s.heap bs s.live) : Sound a s bs := by
  have r := i.rep
  have hblock : ∀ x ∈ s.live, ∃ b ∈ bs, b.used = some x ∧ Payload a s.heap.mem b x := by
    intro x hx
    obtain ⟨b, hb, hused⟩ := mem_filterMap.1 (i.live.mem_iff.2 hx)
    exact ⟨b, hb, hused, (r.ok b hb).used x hused⟩
  have hlarge : ∀ b ∈ bs, b.start + 32 ≤ b.stop := fun b hb => Nat.add_le_add_left (r.large hb) _
  refine ⟨?_, ?_, ?_, ?_, ?_, r.tiles, r.next_le, ?_, i.live, r.links, ?_⟩
  · intro x hx
    obtain ⟨b, -, -, p⟩ := hblock x hx
    exact p.align
  · intro x hx
    obtain ⟨b, hb, -, p⟩ := hblock x hx
    have hlower := p.lower
    have hupper := p.upper
    have hstop := r.cursor_le hb
    have hnext := r.next_le
    omega
  · -- the blocks do not overlap, in whatever order they were allocated
    have hsymm : ∀ {x y : Allocation}, (∀ offset, ¬ (x.Occupies a offset ∧ y.Occupies a offset)) →
        ∀ offset, ¬ (y.Occupies a offset ∧ x.Occupies a offset) :=
      fun hxy offset hyx => hxy offset hyx.symm
    refine (i.live.pairwise_iff hsymm).1 (pairwise_filterMap.2 ?_)
    refine r.tiles.pairwise.imp_of_mem fun {b c} hb hc hle x hx y hy offset hxy => ?_
    have px := (r.ok b hb).used x hx
    have py := (r.ok c hc).used y hy
    have h₁ := (px.occupies hxy.1).2
    have h₂ := (py.occupies hxy.2).1
    have h₃ := py.backPointer_bounds
    rw [Block.stop] at h₁
    omega
  · intro x hx b hb offset hocc hheader
    obtain ⟨c, hc, -, p⟩ := hblock x hx
    have h₁ := p.occupies hocc
    have h₂ := p.backPointer_bounds
    have h₃ := hlarge b hb
    unfold HEADER at *
    have hbc := r.unique hb hc hheader.1 (by omega) (by omega) h₁.2
    subst hbc
    omega
  · intro x hx y hy offset hocc hback
    obtain ⟨b, hb, hbx, px⟩ := hblock x hx
    obtain ⟨c, hc, hcy, py⟩ := hblock y hy
    have h₁ := px.occupies hocc
    have h₂ := px.backPointer_bounds
    have h₃ := py.backPointer_bounds
    have hbc := r.unique hb hc (by omega) h₁.2 (by omega) (by omega)
    subst hbc
    obtain rfl := Option.some.inj (hbx.symm.trans hcy)
    omega
  · exact fun b hb => ⟨(r.ok b hb).header, (r.ok b hb).aligned, r.large hb⟩
  · exact i.apart.pairwise r.tiles fun b hb => lt_of_lt_of_le (by decide) (r.large hb)

/-- **The heap is sound.**  Any sequence of allocations with valid layouts, of
    deallocations of live pointers and of writes to live payloads goes through: the
    loops end, payloads are aligned, in the arena and apart from each other and from
    the heap's own data, the blocks tile the used part of the arena, and the free
    list is in address order with no two of its blocks touching. -/
theorem heap_sound (a : Arena) (mem : ℕ → ℕ) (ops : List Op) :
    ∃ s blocks, run a ⟨Heap.fresh mem, []⟩ ops = some s ∧ Sound a s blocks := by
  obtain ⟨s, blocks, hrun, i⟩ := run_holds (s := ⟨Heap.fresh mem, []⟩) (fresh_holds a mem) ops
  exact ⟨s, blocks, hrun, i.sound⟩

end

end Reverie.ToolHeap
