/-
  Reuse of a heap whose allocations were all freed.  Its one free block ends where fresh memory
  begins, and a layout is placed in one of the two but never across both
  (`heap_reused_iff`, `use_shrinks_heap`).
-/
import Reverie.ToolHeap.Sound

namespace Reverie.ToolHeap

/-- The allocation succeeds. -/
def Satisfies (a : Arena) (h : Heap) (layout : Layout) : Prop :=
  ∃ pointer h', allocate a layout h = some (pointer, h') ∧ pointer ≠ 0

/-- The layout fits between the offset and the limit. -/
def Within (a : Arena) (layout : Layout) (offset limit : ℕ) : Prop :=
  ∃ pointer stop, layoutEnd a offset layout = some (pointer, stop) ∧ stop ≤ limit

section
variable {a : Arena} {h : Heap} {bs : List Block} {b : Block} {layout : Layout}

theorem Holds.all_free (i : Holds a h bs []) (hb : b ∈ bs) : b.used = none := by
  by_contra hused
  obtain ⟨x, hx⟩ := Option.ne_none_iff_exists'.1 hused
  have hmem : x ∈ allocations bs := List.mem_filterMap.2 ⟨b, hb, hx⟩
  exact List.not_mem_nil (i.live.mem_iff.1 hmem)

theorem layoutEnd_pos {offset pointer stop : ℕ} (hl : layoutEnd a offset layout = some (pointer, stop)) :
    pointer ≠ 0 ∧ offset + HEADER < stop := by
  obtain ⟨-, -, hlower, hupper, -⟩ := layoutEnd_eq hl
  unfold HEADER WORD at *
  omega

theorem allocateFresh_iff (r : Rep a h bs) :
    (allocateFresh a layout h).1 ≠ 0 ↔ Within a layout h.cursor a.bytes := by
  unfold allocateFresh Within
  rw [r.cursor_eq]
  simp only
  rcases hl : layoutEnd a h.cursor layout with _ | ⟨pointer, stop⟩
  · simp
  · simp only [gt_iff_lt]
    split_ifs with hstop
    · simp [hstop]
    · simp [(layoutEnd_pos hl).1, not_lt.1 hstop]

theorem fits_iff (r : Rep a h [b]) :
    (fits a h b.start layout).isSome ↔ Within a layout b.start b.stop := by
  have hb : b ∈ [b] := List.mem_singleton_self b
  have hlimit : b.stop < 2 ^ 64 := by
    have h₁ := r.cursor_le hb
    have h₂ := r.next_le
    have h₃ := a.fits
    omega
  rw [fits, show h.span b.start = b.span from (r.ok b hb).header, Words.checkedAdd, if_pos hlimit]
  unfold Within
  rcases layoutEnd a b.start layout with _ | ⟨pointer, stop⟩ <;> simp [Option.filter_some]

theorem allocate_of_free {found : Option (ℕ × Heap)}
    (hfree : allocateFree a layout h (a.bytes + 1) FREE_LIST_END h.freeHead = some found) :
    allocate a layout h = some (found.getD (allocateFresh a layout h)) := by
  rw [allocate, hfree]
  cases found <;> rfl

theorem Holds.satisfies_iff (i : Holds a h bs []) :
    Satisfies a h layout ↔ Within a layout WORD h.next ∨ Within a layout h.cursor a.bytes := by
  have r := i.rep
  -- without a free block that fits, memory behind the cursor is left
  have hfresh : allocateFree a layout h (a.bytes + 1) FREE_LIST_END h.freeHead = some none →
      (Satisfies a h layout ↔ Within a layout h.cursor a.bytes) := by
    intro hfree
    rw [← allocateFresh_iff r, Satisfies, allocate_of_free hfree]
    simp [Prod.ext_iff]
  rcases bs with _ | ⟨b, _ | ⟨c, rest⟩⟩
  · have hcursor : WORD = h.cursor := r.tiles
    rw [hfresh (if_pos r.links)]
    refine (or_iff_right ?_).symm
    rintro ⟨pointer, stop, hl, hstop⟩
    have hpos := (layoutEnd_pos hl).2
    unfold Heap.cursor at hcursor
    split_ifs at hcursor <;> omega
  · have hb : b ∈ [b] := List.mem_singleton_self b
    obtain ⟨hstart, hstop⟩ := r.tiles
    have hstop : b.stop = h.cursor := by rw [← show _ = h.cursor from hstop, Block.stop, hstart]
    have hnext : h.cursor = h.next := by
      have hlarge := r.large hb
      have hspan : b.stop = b.start + b.span := rfl
      unfold MIN_FREE_SPAN at hlarge
      unfold Heap.cursor at hstop ⊢
      split_ifs at hstop ⊢
      · omega
      · rfl
    have hlinks := r.links
    rw [freeStarts_cons_free (i.all_free hb)] at hlinks
    obtain ⟨hhead, hne, hlast⟩ := hlinks
    obtain ⟨fuel, hfuel⟩ : ∃ fuel, a.bytes + 1 = fuel + 2 := ⟨a.bytes - 1, by
      have hpos := r.length_lt
      rw [freeStarts_cons_free (i.all_free hb)] at hpos
      simp only [List.length_cons] at hpos
      omega⟩
    rw [← hstart, ← hnext, ← hstop, ← fits_iff r, hstop]
    have hloop := allocateFree.eq_2 a layout h FREE_LIST_END b.start (fuel + 1)
    rw [if_neg (show b.start ≠ FREE_LIST_END from hne), Nat.succ_eq_add_one, ← hfuel] at hloop
    rcases hfits : fits a h b.start layout with _ | ⟨pointer, stop, blockEnd⟩ <;> rw [hfits] at hloop
    · rw [hfresh (hhead ▸ hloop.trans (if_pos hlast))]
      simp
    · exact iff_of_true ⟨pointer, _, allocate_of_free (hhead ▸ hloop),
        (layoutEnd_pos (fits_eq hfits).2.1).1⟩ (.inl rfl)
  · have hapart := (List.isChain_cons_cons.1 i.apart).1
    simp [i.all_free (b := b) (by simp), i.all_free (b := c) (by simp)] at hapart

end

/-- **What a heap can be reused for.**  After any history at the end of which nothing is
    live, a layout is satisfied exactly if it fits into the memory used so far, or into the
    memory behind it. -/
theorem heap_reused_iff (a : Arena) (mem : ℕ → ℕ) (ops : List Op) (s : State)
    (hrun : run a ⟨Heap.fresh mem, []⟩ ops = some s) (hlive : s.live = []) (layout : Layout) :
    Satisfies a s.heap layout ↔
      Within a layout WORD s.heap.next ∨ Within a layout s.heap.cursor a.bytes := by
  obtain ⟨s', bs, hrun', i⟩ := run_holds (s := ⟨Heap.fresh mem, []⟩) (fresh_holds a mem) ops
  obtain rfl := Option.some.inj (hrun.symm.trans hrun')
  rw [hlive] at i
  exact i.satisfies_iff

def smallArena : Arena := ⟨4096, 128, by decide, by decide⟩

def bytes8 (size : ℕ) : Layout := ⟨size, 8, 3, rfl⟩

def useOnce : List Op := [.allocate (bytes8 8), .deallocate 0]

/-- Eight bytes that were used once serve again. -/
theorem heap_reused_sample : ∃ s, run smallArena ⟨Heap.fresh fun _ => 0, []⟩ useOnce = some s ∧
    Satisfies smallArena s.heap (bytes8 8) :=
  ⟨_, rfl, (heap_reused_iff smallArena (fun _ => 0) useOnce _ rfl rfl (bytes8 8)).2
    (.inl ⟨4128, 40, rfl, by decide⟩)⟩

/-- A fresh heap of 128 bytes has a place for 72 bytes; after an allocation of 8 bytes that
    was freed, it has none. -/
theorem use_shrinks_heap :
    ∃ s, run smallArena ⟨Heap.fresh fun _ => 0, []⟩ useOnce = some s ∧ s.live = [] ∧
      Satisfies smallArena (Heap.fresh fun _ => 0) (bytes8 72) ∧
      ¬ Satisfies smallArena s.heap (bytes8 72) := by
  refine ⟨_, rfl, rfl, ⟨_, _, rfl, by decide⟩, ?_⟩
  rintro ⟨pointer, h', hrun, hpos⟩
  exact hpos (congrArg Prod.fst (Option.some.inj hrun)).symm

end Reverie.ToolHeap
