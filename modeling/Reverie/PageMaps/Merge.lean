/-
  The merging iterator reads a list from both ends: it is at a list of entries (`Iter.At`) if
  they are, in ascending order, those of the tree and those of the overlay, and a step at
  either end gives the entry of the list there (`Iter.step_at`).
-/
import Reverie.PageMaps.UserPages

namespace Reverie.PageMaps
open List

open Memory (UserPageState EXPOSED)
open DoubleEnded (End pop)

/-- The order of entries. -/
abbrev Entry.Before (a b : Entry) : Prop := a.1 < b.1

instance : Std.Asymm Entry.Before := ⟨fun _ _ h h' => Nat.lt_asymm h h'⟩

namespace Iter

/-- The entries of the tree that are not yielded. -/
def waiting (it : Iter) : List Entry := it.front.toList ++ it.tree ++ it.back.toList

def contents (it : Iter) : List Entry := it.waiting ++ it.scratch.map fun page => (page, EXPOSED)

/-- An iterator with the given entries left. -/
structure At (it : Iter) (entries : List Entry) : Prop where
  ascending : entries.Pairwise Entry.Before
  perm : entries.Perm it.contents
  tree : it.waiting.Pairwise Entry.Before
  scratch : it.scratch.Pairwise (· < ·)

variable {it it' : Iter} {entries : List Entry} {a : Entry}

theorem At.ne (h : it.At entries) (b : Entry) (page : ℕ) (hb : b ∈ it.waiting)
    (hpage : page ∈ it.scratch) : b.1 ≠ page := by
  have hne : entries.Pairwise fun a b => a.1 ≠ b.1 := h.ascending.imp Nat.ne_of_lt
  have hcontents := (h.perm.pairwise_iff fun h => Ne.symm h).1 hne
  exact (pairwise_append.1 hcontents).2.2 b hb (page, EXPOSED) (mem_map_of_mem hpage)

theorem At.pop_front (h : it.At entries) (hperm : it.contents.Perm (a :: it'.contents))
    (hleast : ∀ b ∈ it'.contents, a.1 < b.1) (hw : it'.waiting.Sublist it.waiting)
    (hs : it'.scratch.Sublist it.scratch) :
    (pop .front entries).1 = some a ∧ it'.At (pop .front entries).2 := by
  obtain ⟨rest, rfl, hrest⟩ :=
    DoubleEnded.head_of_perm h.ascending (h.perm.trans hperm) hleast
  exact ⟨rfl, (pairwise_cons.1 h.ascending).2, hrest, h.tree.sublist hw, h.scratch.sublist hs⟩

theorem At.pop_back (h : it.At entries) (hperm : it.contents.Perm (a :: it'.contents))
    (hgreatest : ∀ b ∈ it'.contents, b.1 < a.1) (hw : it'.waiting.Sublist it.waiting)
    (hs : it'.scratch.Sublist it.scratch) :
    (pop .back entries).1 = some a ∧ it'.At (pop .back entries).2 := by
  obtain ⟨rest, rfl, hrest⟩ :=
    DoubleEnded.last_of_perm h.ascending (h.perm.trans hperm) hgreatest
  rw [pop, getLast?_concat, dropLast_concat]
  exact ⟨rfl, (pairwise_append.1 h.ascending).1, hrest, h.tree.sublist hw, h.scratch.sublist hs⟩

theorem At.pop_nil (h : it.At entries) (hnil : it.contents = []) (e : End) :
    (pop e entries).1 = none ∧ it.At (pop e entries).2 := by
  obtain rfl : entries = [] := (hnil ▸ h.perm).eq_nil
  cases e <;> exact ⟨rfl, h⟩

/-! ## The front -/

theorem waiting_fillFront (it : Iter) : it.fillFront.waiting = it.waiting := by
  obtain ⟨tree, scratch, front, back⟩ := it
  rcases front with _ | entry
  · rcases tree with _ | ⟨entry, tree⟩
    · simp [fillFront, waiting]
    · rfl
  · rfl

theorem scratch_fillFront (it : Iter) : it.fillFront.scratch = it.scratch := by
  obtain ⟨tree, scratch, front, back⟩ := it
  rcases front with _ | entry
  · rcases tree with _ | ⟨entry, tree⟩ <;> rfl
  · rfl

theorem front_fillFront (it : Iter) : it.fillFront.front = it.waiting.head? := by
  obtain ⟨tree, scratch, front, back⟩ := it
  rcases front with _ | entry
  · rcases tree with _ | ⟨entry, tree⟩
    · rcases back with _ | entry <;> rfl
    · rfl
  · rfl

theorem At.fillFront (h : it.At entries) : it.fillFront.At entries := by
  refine ⟨h.ascending, ?_, ?_, ?_⟩
  · rw [contents, waiting_fillFront, scratch_fillFront]
    exact h.perm
  · rw [waiting_fillFront]
    exact h.tree
  · rw [scratch_fillFront]
    exact h.scratch

variable {entry : Entry} {exposed : ℕ} {scratch : List ℕ}

theorem waiting_eq_front (h : it.front = some entry) :
    it.waiting = entry :: Iter.waiting { it with front := none } := by
  rw [waiting, h]
  rfl

theorem At.yield_front (h : it.At entries) (hfront : it.front = some entry)
    (hleast : ∀ page ∈ it.scratch, entry.1 < page) :
    (pop .front entries).1 = some entry ∧ At { it with front := none } (pop .front entries).2 := by
  have hw := waiting_eq_front hfront
  refine h.pop_front ?_ ?_ ?_ (List.Sublist.refl _)
  · rw [contents, hw]
    exact List.Perm.refl _
  · intro b hb
    rcases mem_append.1 hb with hb | hb
    · exact (pairwise_cons.1 (hw ▸ h.tree)).1 b hb
    · obtain ⟨page, hpage, rfl⟩ := mem_map.1 hb
      exact hleast page hpage
  · rw [hw]
    exact sublist_cons_self _ _

/-- The first page of the overlay is yielded if the tree has no smaller one. -/
theorem At.expose_front (h : it.At entries) (hscratch : it.scratch = exposed :: scratch)
    (hleast : ∀ b ∈ it.waiting, exposed < b.1) :
    (pop .front entries).1 = some (exposed, EXPOSED) ∧
      At { it with scratch := scratch } (pop .front entries).2 := by
  refine h.pop_front ?_ ?_ (List.Sublist.refl _) ?_
  · rw [contents, hscratch]
    exact perm_middle
  · intro b hb
    rcases mem_append.1 hb with hb | hb
    · exact hleast b hb
    · obtain ⟨page, hpage, rfl⟩ := mem_map.1 hb
      exact (pairwise_cons.1 (hscratch ▸ h.scratch)).1 page hpage
  · rw [hscratch]
    exact sublist_cons_self _ _

theorem next_at (h : it.At entries) :
    it.next.1 = (pop .front entries).1 ∧ it.next.2.At (pop .front entries).2 := by
  have hf := h.fillFront
  have hhead := front_fillFront it
  rw [← waiting_fillFront] at hhead
  rw [next]
  generalize it.fillFront = it at hf hhead
  rcases hfront : it.front with _ | ⟨page, state⟩ <;>
    rcases hscratch : it.scratch with _ | ⟨exposed, scratch⟩ <;> dsimp only
  · have hnil : it.waiting = [] := head?_eq_none_iff.1 (hhead.symm.trans hfront)
    obtain ⟨hgiven, hleft⟩ := hf.pop_nil (by rw [contents, hnil, hscratch]; rfl) .front
    exact ⟨hgiven.symm, hleft⟩
  · have hnil : it.waiting = [] := head?_eq_none_iff.1 (hhead.symm.trans hfront)
    obtain ⟨hgiven, hleft⟩ := hf.expose_front hscratch (by simp [hnil])
    exact ⟨hgiven.symm, hleft⟩
  · obtain ⟨hgiven, hleft⟩ := hf.yield_front hfront (by simp [hscratch])
    exact ⟨hgiven.symm, hleft⟩
  · have hw := waiting_eq_front hfront
    have hleast : ∀ b ∈ it.waiting, page ≤ b.1 := by
      intro b hb
      rcases mem_cons.1 (hw ▸ hb) with rfl | hb
      · exact le_rfl
      · exact ((pairwise_cons.1 (hw ▸ hf.tree)).1 b hb).le
    split_ifs with hlt
    · obtain ⟨hgiven, hleft⟩ := hf.expose_front hscratch fun b hb => hlt.trans_le (hleast b hb)
      exact ⟨hgiven.symm, hleft⟩
    · have hne := hf.ne (page, state) exposed (by rw [hw]; exact mem_cons_self)
        (by rw [hscratch]; exact mem_cons_self)
      have hlt' : page < exposed := lt_of_le_of_ne (Nat.le_of_not_lt hlt) hne
      obtain ⟨hgiven, hleft⟩ := hf.yield_front hfront fun p hp => by
        rw [hscratch] at hp
        rcases mem_cons.1 hp with rfl | hp
        · exact hlt'
        · exact hlt'.trans ((pairwise_cons.1 (hscratch ▸ hf.scratch)).1 p hp)
      exact ⟨hgiven.symm, hleft⟩

/-! ## The back -/

theorem waiting_fillBack (it : Iter) : it.fillBack.waiting = it.waiting := by
  obtain ⟨tree, scratch, front, back⟩ := it
  rcases back with _ | entry
  · rcases tree.eq_nil_or_concat with rfl | ⟨tree, entry, rfl⟩
    · simp [fillBack, waiting]
    · simp [fillBack, waiting]
  · rfl

theorem scratch_fillBack (it : Iter) : it.fillBack.scratch = it.scratch := by
  obtain ⟨tree, scratch, front, back⟩ := it
  rcases back with _ | entry
  · rcases tree.eq_nil_or_concat with rfl | ⟨tree, entry, rfl⟩
    · rfl
    · simp [fillBack]
  · rfl

theorem back_fillBack (it : Iter) : it.fillBack.back = it.waiting.getLast? := by
  obtain ⟨tree, scratch, front, back⟩ := it
  rcases back with _ | entry
  · rcases tree.eq_nil_or_concat with rfl | ⟨tree, entry, rfl⟩
    · rcases front with _ | entry <;> rfl
    · simp [fillBack, waiting]
  · simp [fillBack, waiting]

theorem At.fillBack (h : it.At entries) : it.fillBack.At entries := by
  refine ⟨h.ascending, ?_, ?_, ?_⟩
  · rw [contents, waiting_fillBack, scratch_fillBack]
    exact h.perm
  · rw [waiting_fillBack]
    exact h.tree
  · rw [scratch_fillBack]
    exact h.scratch

theorem waiting_eq_back (h : it.back = some entry) :
    it.waiting = Iter.waiting { it with back := none } ++ [entry] := by
  rw [waiting, h, waiting, Option.toList_none, append_nil]
  rfl

theorem At.yield_back (h : it.At entries) (hback : it.back = some entry)
    (hgreatest : ∀ page ∈ it.scratch, page < entry.1) :
    (pop .back entries).1 = some entry ∧ At { it with back := none } (pop .back entries).2 := by
  have hw := waiting_eq_back hback
  refine h.pop_back ?_ ?_ ?_ (List.Sublist.refl _)
  · rw [contents, hw, append_assoc]
    exact perm_middle
  · intro b hb
    rcases mem_append.1 hb with hb | hb
    · exact (pairwise_append.1 (hw ▸ h.tree)).2.2 b hb entry (mem_singleton_self _)
    · obtain ⟨page, hpage, rfl⟩ := mem_map.1 hb
      exact hgreatest page hpage
  · rw [hw]
    exact sublist_append_left _ _

/-- The last page of the overlay is yielded if the tree has no greater one. -/
theorem At.expose_back (h : it.At entries) (hscratch : it.scratch = scratch ++ [exposed])
    (hgreatest : ∀ b ∈ it.waiting, b.1 < exposed) :
    (pop .back entries).1 = some (exposed, EXPOSED) ∧
      At { it with scratch := scratch } (pop .back entries).2 := by
  refine h.pop_back ?_ ?_ (List.Sublist.refl _) ?_
  · rw [contents, hscratch, map_append, ← append_assoc]
    exact perm_append_singleton _ _
  · intro b hb
    rcases mem_append.1 hb with hb | hb
    · exact hgreatest b hb
    · obtain ⟨page, hpage, rfl⟩ := mem_map.1 hb
      exact (pairwise_append.1 (hscratch ▸ h.scratch)).2.2 page hpage exposed
        (mem_singleton_self _)
  · rw [hscratch]
    exact sublist_append_left _ _

theorem nextBack_at (h : it.At entries) :
    it.nextBack.1 = (pop .back entries).1 ∧ it.nextBack.2.At (pop .back entries).2 := by
  have hf := h.fillBack
  have hlast := back_fillBack it
  rw [← waiting_fillBack] at hlast
  rw [nextBack]
  generalize it.fillBack = it at hf hlast
  rcases hback : it.back with _ | ⟨page, state⟩ <;>
    rcases it.scratch.eq_nil_or_concat with hscratch | ⟨scratch, exposed, hscratch⟩ <;>
      rw [hscratch] <;> simp only [concat_eq_append, getLast?_concat,
        dropLast_concat]
  · have hnil : it.waiting = [] := getLast?_eq_none_iff.1 (hlast.symm.trans hback)
    obtain ⟨hgiven, hleft⟩ := hf.pop_nil (by rw [contents, hnil, hscratch]; rfl) .back
    exact ⟨hgiven.symm, hleft⟩
  · have hnil : it.waiting = [] := getLast?_eq_none_iff.1 (hlast.symm.trans hback)
    rw [concat_eq_append] at hscratch
    obtain ⟨hgiven, hleft⟩ := hf.expose_back hscratch (by simp [hnil])
    exact ⟨hgiven.symm, hleft⟩
  · obtain ⟨hgiven, hleft⟩ := hf.yield_back hback (by simp [hscratch])
    exact ⟨hgiven.symm, hleft⟩
  · rw [concat_eq_append] at hscratch
    have hw := waiting_eq_back hback
    have hgreatest : ∀ b ∈ it.waiting, b.1 ≤ page := by
      intro b hb
      rcases mem_append.1 (hw ▸ hb) with hb | hb
      · exact ((pairwise_append.1 (hw ▸ hf.tree)).2.2 b hb _ (mem_singleton_self _)).le
      · exact (congrArg Prod.fst (mem_singleton.1 hb)).le
    have hexposed : exposed ∈ it.scratch := by
      rw [hscratch]
      exact mem_append_right _ (mem_singleton_self _)
    split_ifs with hlt
    · obtain ⟨hgiven, hleft⟩ :=
        hf.expose_back hscratch fun b hb => (hgreatest b hb).trans_lt hlt
      exact ⟨hgiven.symm, hleft⟩
    · have hne := hf.ne (page, state) exposed
        (by rw [hw]; exact mem_append_right _ (mem_singleton_self _)) hexposed
      have hlt' : exposed < page := lt_of_le_of_ne (Nat.le_of_not_lt hlt) hne.symm
      obtain ⟨hgiven, hleft⟩ := hf.yield_back hback fun p hp => by
        rw [hscratch] at hp
        rcases mem_append.1 hp with hp | hp
        · exact ((pairwise_append.1 (hscratch ▸ hf.scratch)).2.2 p hp exposed
            (mem_singleton_self _)).trans hlt'
        · rw [mem_singleton.1 hp]
          exact hlt'
      exact ⟨hgiven.symm, hleft⟩

theorem step_at (e : End) (h : it.At entries) :
    (Iter.step e it).1 = (pop e entries).1 ∧ (Iter.step e it).2.At (pop e entries).2 := by
  cases e with
  | front => exact next_at h
  | back => exact nextBack_at h

end Iter

end Reverie.PageMaps
