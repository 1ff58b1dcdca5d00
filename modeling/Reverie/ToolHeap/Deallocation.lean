/-
  What `deallocate` does to the blocks (`deallocate_holds`): the block is free again, and joined
  with the free blocks that it touches (`join_previous`, `join_next`).
-/
import Reverie.ToolHeap.Allocation

namespace Reverie.ToolHeap
open List Option Heap Words

section
variable {a : Arena} {h : Heap} {bs pre post : List Block} {b p : Block} {x : Allocation}

/-- The loop stops between the free blocks before the offset and those after it. -/
theorem neighbors_eq (offset : ℕ) (zs : List ℕ) {xs ys : List ℕ} {next fuel : ℕ}
    (hl : Linked h.link next (xs ++ ys)) (hfuel : (xs ++ ys).length < fuel)
    (hxs : ∀ y ∈ xs, y < offset) (hys : ∀ y ∈ ys, offset ≤ y) :
    ∃ after, neighbors h offset fuel (Linked.last zs) next = some (Linked.last (zs ++ xs), after) ∧
      Linked h.link after ys := by
  induction xs generalizing zs next fuel with
  | nil =>
    obtain ⟨fuel, rfl⟩ := Nat.exists_eq_succ_of_ne_zero (Nat.ne_zero_of_lt hfuel)
    refine ⟨next, ?_, hl⟩
    rw [neighbors, if_neg, append_nil]
    rintro ⟨hne, hlt⟩
    cases ys with
    | nil => exact hne hl
    | cons y ys =>
      have hle := hys y mem_cons_self
      have heq := hl.1
      omega
  | cons x xs ih =>
    obtain ⟨fuel, rfl⟩ := Nat.exists_eq_succ_of_ne_zero (Nat.ne_zero_of_lt hfuel)
    obtain ⟨rfl, hne, hl⟩ := hl
    obtain ⟨after, hrun, hafter⟩ := ih (zs ++ [next]) hl (by simpa using hfuel)
      fun y hy => hxs y (mem_cons_of_mem _ hy)
    refine ⟨after, ?_, hafter⟩
    rw [Linked.last_append_singleton, append_assoc] at hrun
    rw [neighbors, if_pos ⟨hne, hxs _ mem_cons_self⟩]
    exact hrun

theorem release_rep {next : ℕ} (r : Rep a h (pre ++ b :: post)) (hb : b.used = some x)
    (hnext : Linked h.link next (freeStarts post)) :
    Rep a ((h.setLink b.start next).relink (Linked.last (freeStarts pre)) b.start)
      (pre ++ { b with used := none } :: post) := by
  have hmem : b ∈ pre ++ b :: post := by simp
  have hlarge := r.large hmem
  have hpos := r.start_pos hmem
  have hword : WORD = 8 := rfl
  unfold MIN_FREE_SPAN at hlarge
  have hspan : b.stop = b.start + b.span := rfl
  rw [← singleton_append, ← append_assoc]
  refine r.place (fun w hw => ?_) rfl rfl (fun hfree => ?_) ⟨rfl, rfl⟩ ?_ ?_
  · exact mem_write.trans (if_neg (by omega))
  · rw [hb] at hfree
    cases hfree
  · intro m hm
    obtain rfl := mem_singleton.1 hm
    have hok := r.ok b hmem
    refine ⟨hok.aligned, hok.large, ?_, nofun⟩
    exact (mem_write.trans (if_neg (by simp only; omega))).trans hok.header
  · refine ⟨rfl, by simp only; omega, ?_⟩
    simp only [link_setLink]
    refine hnext.congr fun y hy => ?_
    obtain ⟨c, hc, -, rfl⟩ := mem_freeStarts.1 hy
    have hle := r.around.2 c hc
    rw [link_setLink, if_neg (by omega)]

variable {q : Block}

theorem join_rep (r : Rep a h (pre ++ p :: q :: post)) (hp : p.used = none) (hq : q.used = none) :
    ∃ h', join h p.start q.start (h.link q.start) = some h' ∧
      Rep a h' (pre ++ ⟨p.start, p.span + q.span, none⟩ :: post) := by
  have hpmem : p ∈ pre ++ p :: q :: post := by simp
  have hqmem : q ∈ pre ++ p :: q :: post := by simp
  have hpok := r.ok p hpmem
  have hqok := r.ok q hqmem
  obtain ⟨tpre, hqstart, tpost⟩ := Tiles.append_cons.1 r.tiles
  have hlimit : q.stop < 2 ^ 64 := by
    have h₁ := r.cursor_le hqmem
    have h₂ := r.next_le
    have h₃ := a.fits
    omega
  have hqstop : q.stop = q.start + q.span := rfl
  have hword : WORD = 8 := rfl
  have hlarge := hpok.large
  unfold MIN_FREE_SPAN at hlarge
  have hrun : join h p.start q.start (h.link q.start) =
      some ((h.setSpan p.start (p.span + q.span)).setLink p.start (h.link q.start)) := by
    unfold join checkedAdd
    rw [show h.span p.start = p.span from hpok.header, show h.span q.start = q.span from hqok.header,
      if_pos (by rw [if_pos (by omega), hqstart]), if_pos (by omega), map_some]
  refine ⟨_, hrun, ?_⟩
  have hmem : ∀ w, w ≠ p.start → w ≠ p.start + WORD →
      ((h.setSpan p.start (p.span + q.span)).setLink p.start (h.link q.start)).mem w = h.mem w := by
    intro w h₁ h₂
    unfold Heap.setSpan Heap.setLink
    rw [mem_write, if_neg h₂, mem_write, if_neg h₁]
  have hout : ∀ c ∈ pre ++ p :: q :: post, c ≠ p → c.Ok a
      ((h.setSpan p.start (p.span + q.span)).setLink p.start (h.link q.start)).mem := by
    intro c hc hne
    refine (r.ok c hc).frame fun w hw₁ hw₂ _ => hmem w ?_ ?_
    · rintro rfl
      exact hne (r.unique hc hpmem hw₁ hw₂ le_rfl (by rw [Block.stop]; omega))
    · rintro rfl
      exact hne (r.unique hc hpmem hw₁ hw₂ (by omega) (by rw [Block.stop]; omega))
  have hbefore := r.around.1
  have hafter := r.around.2
  refine ⟨Tiles.append_cons.2 ⟨tpre, ?_⟩, r.next_dvd, r.next_le, ?_, ?_⟩
  · rw [← Nat.add_assoc]
    exact tpost
  · intro c hc
    rcases mem_append.1 hc with hc₁ | hc
    · refine hout c (mem_append_left _ hc₁) ?_
      rintro rfl
      have hle := hbefore c hc₁
      rw [Block.stop] at hle
      omega
    · rcases mem_cons.1 hc with rfl | hc₂
      · refine ⟨Nat.dvd_add hpok.aligned hqok.aligned, ?_, ?_, by simp⟩
        · exact hpok.large.trans (Nat.le_add_right _ _)
        · simp only [Heap.setSpan, Heap.setLink]
          rw [mem_write, if_neg (by omega), mem_write, if_pos rfl]
      · refine hout c (mem_append_right _ (mem_cons_of_mem _ (mem_cons_of_mem _ hc₂))) ?_
        rintro rfl
        have hle := hafter c (mem_cons_of_mem _ hc₂)
        rw [Block.stop] at hle
        omega
  · have hold := r.links
    have hnodup := r.nodup
    rw [freeStarts_append, freeStarts_cons_free hp, freeStarts_cons_free hq, ← singleton_append,
      ← append_assoc] at hold hnodup
    obtain ⟨hxs, hys, hdisj⟩ := nodup_append.1 hnodup
    have hpost : Linked h.link (h.link q.start) (freeStarts post) := by
      have hsuffix := hold.suffix
      exact hsuffix.2.2
    have hreplace := hold.replace hpost hxs fun y hy hy' =>
      hdisj y hy y (mem_cons_of_mem _ hy') rfl
    rw [if_neg (by simp), if_neg (by simp), Linked.last_append_singleton, append_assoc,
      singleton_append] at hreplace
    rw [freeStarts_append]
    refine hreplace.congr fun y hy => ?_
    have hfree : y ∈ freeStarts (pre ++ p :: q :: post) := by
      rw [freeStarts_append, freeStarts_cons_free hp, freeStarts_cons_free hq]
      simp only [mem_append, mem_cons] at hy ⊢
      tauto
    obtain ⟨c, hc, -, rfl, hlt⟩ := mem_freeStarts_bounds r hfree
    have hne : c.start + WORD ≠ p.start := by
      intro heq
      have hcp := r.unique hc hpmem (Nat.le_add_right _ _) hlt (Nat.le_of_eq heq.symm)
        (by rw [heq, Block.stop]; omega)
      rw [hcp] at heq
      omega
    rw [link_setLink, Function.update_apply]
    split_ifs
    · rfl
    · exact link_write hne

theorem join_none {offset successor link : ℕ} (hne : offset + h.span offset ≠ successor) :
    join h offset successor link = none := by
  unfold join checkedAdd
  rw [if_neg]
  split_ifs
  · simpa using hne
  · nofun

theorem join_previous (r : Rep a h (pre ++ b :: post)) (hb : b.used = none) (ap : Apart pre) :
    ∃ h' pre' b', joinPrevious h (Linked.last (freeStarts pre)) b.start (h.link b.start) =
        (h', b'.start) ∧ Rep a h' (pre' ++ b' :: post) ∧ b'.used = none ∧ Apart pre' ∧
      (∀ c ∈ pre'.getLast?, c.used ≠ none) ∧ allocations pre' = allocations pre := by
  rcases eq_nil_or_concat' pre with rfl | ⟨pre, p, rfl⟩
  · exact ⟨h, [], b, rfl, r, hb, ap, by simp, rfl⟩
  · rcases hp : p.used with _ | x
    · -- the last block before it is free
      have hlast : Linked.last (freeStarts (pre ++ [p])) = p.start := by
        rw [freeStarts_append, freeStarts_cons_free hp]
        exact Linked.last_append_singleton
      obtain ⟨hpre, -, hused, -⟩ := (apart_append_cons_free hp).1 ap
      rw [append_assoc] at r
      obtain ⟨h', hrun, hrep⟩ := join_rep r hp hb
      have hpos := r.start_pos (b := p) (by simp)
      refine ⟨h', pre, _, ?_, hrep, rfl, hpre, hused, ?_⟩
      · rw [hlast, joinPrevious, if_neg (Nat.ne_of_gt (lt_of_lt_of_le (by decide) hpos)), hrun]
      · rw [allocations_append, allocations_cons_free hp]
        exact (append_nil _).symm
    · refine ⟨h, pre ++ [p], b, ?_, r, hb, ap, ?_, rfl⟩
      · unfold joinPrevious
        split_ifs with hzero
        · rfl
        · -- the free block before it ends before the used one
          have hfree : freeStarts (pre ++ [p]) = freeStarts pre := by
            rw [freeStarts_append, freeStarts_cons_used hp]
            exact append_nil _
          have hne : freeStarts (pre ++ [p]) ≠ [] := fun hnil => hzero (by rw [hnil]; rfl)
          have hmem := Linked.last_mem hne
          rw [hfree] at hmem
          obtain ⟨c, hc, -, hstart⟩ := mem_freeStarts.1 hmem
          rw [hfree, ← hstart]
          have hcp : c.stop ≤ p.start := by
            have r' := r
            rw [append_assoc] at r'
            exact r'.around.1 c hc
          have hpb : p.stop ≤ b.start := r.around.1 p (by simp)
          have hlarge := r.large (b := p) (by simp)
          have hheader : h.span c.start = c.span := (r.ok c (by simp [hc])).header
          unfold MIN_FREE_SPAN at hlarge
          rw [join_none]
          rw [Block.stop] at hcp hpb
          omega
      · intro c hc
        simp only [getLast?_append, getLast?_singleton, some_or, mem_def,
          Option.some.injEq] at hc
        rw [← hc, hp]
        exact some_ne_none x

theorem join_next (r : Rep a h (pre ++ b :: post)) (hb : b.used = none) (ap : Apart post) :
    ∃ b' post', Rep a (joinNext h b.start ((freeStarts post).headD 0)) (pre ++ b' :: post') ∧
      b'.used = none ∧ Apart post' ∧ (∀ c ∈ post'.head?, c.used ≠ none) ∧
      allocations post' = allocations post := by
  cases post with
  | nil => exact ⟨b, [], r, hb, ap, by simp, rfl⟩
  | cons q post =>
    rcases hq : q.used with _ | x
    · obtain ⟨hpost, hused⟩ : Apart post ∧ ∀ c ∈ post.head?, c.used ≠ none := by
        rw [← nil_append (q :: post)] at ap
        obtain ⟨-, hpost, -, hused⟩ := (apart_append_cons_free hq).1 ap
        exact ⟨hpost, hused⟩
      obtain ⟨h', hrun, hrep⟩ := join_rep r hb hq
      have hpos := r.start_pos (b := q) (by simp)
      refine ⟨⟨b.start, b.span + q.span, none⟩, post, ?_, rfl, hpost, hused,
        (allocations_cons_free hq).symm⟩
      rw [freeStarts_cons_free hq, headD_cons, joinNext,
        if_neg (Nat.ne_of_gt (lt_of_lt_of_le (by decide) hpos)), hrun, getD_some]
      exact hrep
    · have hsame : joinNext h b.start ((freeStarts (q :: post)).headD 0) = h := by
        rw [freeStarts_cons_used hq, joinNext]
        split_ifs with hzero
        · rfl
        · -- the free block after it starts after the used one
          have hmem : (freeStarts post).headD 0 ∈ freeStarts post := by
            cases hf : freeStarts post with
            | nil => exact absurd (by rw [hf]; rfl) hzero
            | cons y ys => exact mem_cons_self
          obtain ⟨c, hc, -, hstart⟩ := mem_freeStarts.1 hmem
          have hbq : b.stop ≤ q.start := r.around.2 q (by simp)
          have hqc : q.stop ≤ c.start := by
            have r' := r
            rw [← singleton_append, ← append_assoc] at r'
            exact r'.around.2 c hc
          have hlarge := r.large (b := q) (by simp)
          have hheader : h.span b.start = b.span := (r.ok b (by simp)).header
          unfold MIN_FREE_SPAN at hlarge
          rw [join_none, getD_none]
          rw [Block.stop] at hbq hqc
          omega
      refine ⟨b, q :: post, by rw [hsame]; exact r, hb, ap, ?_, rfl⟩
      intro c hc
      simp only [head?_cons, mem_def, Option.some.injEq] at hc
      rw [← hc, hq]
      exact some_ne_none x

variable {live : List Allocation}

theorem deallocate_holds (i : Holds a h bs (x :: live)) :
    ∃ h' bs', deallocate a x.pointer h = some h' ∧ Holds a h' bs' live := by
  have r := i.rep
  have hx : x ∈ allocations bs := i.live.mem_iff.2 mem_cons_self
  obtain ⟨b, hb, hused⟩ := mem_filterMap.1 hx
  obtain ⟨pre, post, rfl⟩ := append_of_mem hb
  have hback := ((r.ok b hb).used x hused).back
  obtain ⟨hapre, hapost⟩ : Apart pre ∧ Apart post := by
    obtain ⟨h₁, h₂, -⟩ := isChain_append.1 i.apart
    exact ⟨h₁, (apart_cons_used hused).1 h₂⟩
  have hfree : freeStarts (pre ++ b :: post) = freeStarts pre ++ freeStarts post := by
    rw [freeStarts_append, freeStarts_cons_used hused]
  -- the blocks around it in the free list
  have hlinks := r.links
  have hlength := r.length_lt
  rw [hfree] at hlinks hlength
  obtain ⟨next, hrun, hnext⟩ := neighbors_eq b.start [] hlinks hlength
    (fun y hy => by
      obtain ⟨c, hc, -, rfl⟩ := mem_freeStarts.1 hy
      have hle := r.around.1 c hc
      have hlarge := r.large (mem_append_left _ hc)
      unfold MIN_FREE_SPAN at hlarge
      rw [Block.stop] at hle
      omega)
    (fun y hy => by
      obtain ⟨c, hc, -, rfl⟩ := mem_freeStarts.1 hy
      exact (Nat.le_add_right _ _).trans (r.around.2 c hc))
  rw [nil_append] at hrun
  -- free it, then join it on both sides
  have r₁ := release_rep r hused hnext
  have hlink := (r₁.link_after rfl).head_eq
  obtain ⟨h₂, pre', b₂, hjoin₁, r₂, hb₂, hapre', hlast, hallocpre⟩ := join_previous r₁ rfl hapre
  obtain ⟨b₃, post', r₃, hb₃, hapost', hfirst, hallocpost⟩ := join_next r₂ hb₂ hapost
  refine ⟨_, pre' ++ b₃ :: post', ?_, r₃,
    (apart_append_cons_free hb₃).2 ⟨hapre', hapost', hlast, hfirst⟩, ?_⟩
  · have hhead := hnext.head_eq
    rw [hlink] at hjoin₁
    subst hhead
    unfold deallocate
    simp only [hback]
    rw [show neighbors h b.start (a.bytes + 1) FREE_LIST_END h.freeHead = _ from hrun,
      bind_eq_bind, bind_some, hjoin₁]
    rfl
  · have hlive := i.live
    rw [allocations_append, allocations_cons_used hused] at hlive
    rw [allocations_append, allocations_cons_free hb₃, hallocpre, hallocpost]
    exact (perm_middle.symm.trans hlive).cons_inv

end

end Reverie.ToolHeap
