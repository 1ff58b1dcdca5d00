/-
  `UserPages` refines a plain ordered map (`userPages_refines`), if `known_absent` was a fact
  each time: a page that is a key of the tree stays one when it is hidden as known to be
  absent (`hideScratch_told_wrongly`).
-/
import Reverie.Lib.Table
import Reverie.PageMaps.Effects
import Reverie.PageMaps.Merge

namespace Reverie.PageMaps
open List Option Owned

open Memory (UserPageState EXPOSED)
open DoubleEnded (End pop reads givenAt)

/-! ## The plain map -/

/-- An operation on a plain map: an exposed page is inserted, and a hidden one removed. -/
def Op.plain : Op → Tree → Option UserPageState × Tree
  | .insert page state, m => (m[page]?, m.insert page state)
  | .remove page, m => (m[page]?, m.erase page)
  | .clear, _ => (none, ∅)
  | .exposeScratch page _, m => (none, m.insert page EXPOSED)
  | .hideScratch page _, m => (none, m.erase page)
  | .watch _ _, m | .noteChange _ _, m | .countChange _ _, m | .detachWatch, m => (none, m)

def Act.plain : Act → List Tree → Option UserPageState × List Tree
  | .new, ms => (none, ms ++ [∅])
  | .clone map, ms => (none, ms ++ ms[map]?.toList)
  | .op map operation, ms =>
    match ms[map]? with
    | none => (none, ms)
    | some m => ((operation.plain m).1, ms.set map (operation.plain m).2)

def plainRun : List Act → List Tree → List (Option UserPageState) × List Tree
  | [], ms => ([], ms)
  | act :: acts, ms =>
    ((act.plain ms).1 :: (plainRun acts (act.plain ms).2).1, (plainRun acts (act.plain ms).2).2)

/-! ## Lookups -/

/-- A map and the plain map it stands for. -/
structure UserPages.Refines (pages : UserPages) (m : Tree) : Prop where
  ascending : pages.scratch.Pairwise (· < ·)
  absent : ∀ page ∈ pages.scratch, pages.map.inner[page]? = none
  lookup : ∀ page, m[page]? = if page ∈ pages.scratch then some EXPOSED else pages.map.inner[page]?

variable {pages : UserPages} {m : Tree} {range : PageRange} {entries : List Entry} {op : Op}
  {o o' : Owned} {reply : Option UserPageState}

theorem UserPages.Refines.congr {pages' : UserPages} (h : pages.Refines m)
    (hmap : pages'.map.inner = pages.map.inner) (hscratch : pages'.scratch = pages.scratch) :
    pages'.Refines m := by
  refine ⟨hscratch ▸ h.ascending, ?_, ?_⟩
  · rw [hmap, hscratch]
    exact h.absent
  · rw [hmap, hscratch]
    exact h.lookup

theorem UserPages.get_eq (pages : UserPages) (page : ℕ) :
    pages.get page = if page ∈ pages.scratch then some EXPOSED else pages.map.inner[page]? := by
  rw [get, scratchIndex, Ascending.binarySearch]
  by_cases hmem : page ∈ pages.scratch
  · have hne : pages.scratch ≠ [] := ne_nil_of_mem hmem
    rw [if_pos hmem, if_pos hmem, if_pos]
    simpa [Except.toBool] using hne
  · rw [if_neg hmem, if_neg hmem]
    simp [Except.toBool]

/-! ## Ranges -/

theorem PageRange.upTo_of_before (h : range.inverted = false) (page : ℕ)
    (hb : range.start.before page = true) : range.stop.upTo page = true := by
  obtain ⟨start, stop⟩ := range
  cases start <;> cases stop <;>
    simp only [inverted, Bound.before, Bound.upTo, decide_eq_true_eq, decide_eq_false_iff_not,
      Bool.false_eq_true] at h hb ⊢ <;> omega

theorem Bound.before_mono (bound : Bound) (a b : ℕ) (h : a < b) (hb : bound.before b = true) :
    bound.before a = true := by
  cases bound <;> simp only [before, decide_eq_true_eq] at hb ⊢ <;> omega

theorem Bound.upTo_mono (bound : Bound) (a b : ℕ) (h : a < b) (hb : bound.upTo b = true) :
    bound.upTo a = true := by
  cases bound <;> simp only [upTo, decide_eq_true_eq] at hb ⊢ <;> omega

theorem UserPages.scratchRange_eq (h : pages.scratch.Pairwise (· < ·))
    (hr : range.inverted = false) :
    pages.scratchRange range = pages.scratch.filter range.contains :=
  Ascending.slice_eq_filter h range.start.before_mono range.stop.upTo_mono
    (PageRange.upTo_of_before hr)

theorem toList_ascending (m : Tree) : m.toList.Pairwise Entry.Before :=
  Std.TreeMap.ordered_keys_toList.imp Nat.compare_eq_lt.1

theorem nodup_of_ascending (h : entries.Pairwise Entry.Before) : entries.Nodup :=
  h.imp fun hlt heq => absurd (congrArg Prod.fst heq) (Nat.ne_of_lt hlt)

/-- The iterator of a range starts at the entries that the plain map has there. -/
theorem UserPages.Refines.range_at (h : pages.Refines m)
    (range : PageRange) (hr : range.inverted = false) :
    ∃ it, pages.range range = some it ∧
      it.At (m.toList.filter fun entry => range.contains entry.1) := by
  have hscratch := UserPages.scratchRange_eq h.ascending hr
  have hasc := h.ascending.filter range.contains
  have htree := (toList_ascending pages.map.inner).filter fun entry => range.contains entry.1
  have hentries := (toList_ascending m).filter fun entry => range.contains entry.1
  refine ⟨⟨_, pages.scratchRange range, none, none⟩,
    by rw [UserPages.range, treeRange, hr]; rfl, hentries, ?_, ?_, ?_⟩
  · have hcontents : Iter.contents ⟨pages.map.inner.toList.filter fun entry =>
        range.contains entry.1, pages.scratchRange range, none, none⟩ =
          (pages.map.inner.toList.filter fun entry => range.contains entry.1) ++
            (pages.scratch.filter range.contains).map fun page => (page, EXPOSED) := by
      rw [Iter.contents, hscratch]
      exact congrArg (· ++ _) (List.append_nil _)
    rw [hcontents]
    refine (List.perm_ext_iff_of_nodup (nodup_of_ascending hentries) ?_).2 ?_
    · refine List.nodup_append.2 ⟨nodup_of_ascending htree,
        (hasc.imp Nat.ne_of_lt).map _ fun a b hne heq => hne (congrArg Prod.fst heq), ?_⟩
      -- no page of the overlay is a key of the tree
      rintro ⟨page, state⟩ hmem b hb rfl
      obtain ⟨exposed, hexposed, heq⟩ := List.mem_map.1 hb
      obtain rfl : exposed = page := congrArg Prod.fst heq
      have hnone := h.absent exposed (List.mem_filter.1 hexposed).1
      have hsome := Std.TreeMap.mem_toList_iff_getElem?_eq_some.1 (List.mem_filter.1 hmem).1
      rw [hnone] at hsome
      cases hsome
    · rintro ⟨page, state⟩
      rw [List.mem_append, List.mem_filter, List.mem_filter, List.mem_map,
        Std.TreeMap.mem_toList_iff_getElem?_eq_some, Std.TreeMap.mem_toList_iff_getElem?_eq_some,
        h.lookup]
      constructor
      · rintro ⟨hstate, hin⟩
        split_ifs at hstate with hmem
        · cases hstate
          exact Or.inr ⟨page, List.mem_filter.2 ⟨hmem, hin⟩, rfl⟩
        · exact Or.inl ⟨hstate, hin⟩
      · rintro (⟨hstate, hin⟩ | ⟨exposed, hexposed, heq⟩)
        · refine ⟨?_, hin⟩
          rw [if_neg]
          · exact hstate
          · intro hmem
            rw [h.absent page hmem] at hstate
            cases hstate
        · cases heq
          obtain ⟨hmem, hin⟩ := List.mem_filter.1 hexposed
          exact ⟨if_pos hmem, hin⟩
  · rw [Iter.waiting]
    simpa using htree
  · rw [hscratch]
    exact hasc

/-! ## Agreement -/

/-- An iterator that reads a list: whatever the ends, it gives what the list gives, and so
    every entry once, in order from the front and in reverse from the back. -/
def Iter.Yields (it : Iter) (entries : List Entry) : Prop :=
  ∀ ends : List End, (reads Iter.step ends it).1 = (reads pop ends entries).1 ∧
    ∃ rest, givenAt .front (reads Iter.step ends it).1 ++ rest ++
      (givenAt .back (reads Iter.step ends it).1).reverse = entries ∧
        (entries.length ≤ ends.length → rest = [])

/-- A map that cannot be told from a plain one. -/
structure UserPages.Agrees (pages : UserPages) (m : Tree) : Prop where
  get : ∀ page, pages.get page = m[page]?
  iter : Option.Rel Iter.Yields pages.iter (some m.toList)
  range : ∀ range, Option.Rel Iter.Yields (pages.range range) (treeRange m range)

theorem Iter.At.yields {it : Iter} (h : it.At entries) : it.Yields entries := by
  intro ends
  obtain ⟨hreads, -⟩ :=
    DoubleEnded.reads_eq (R := Iter.At) (fun e _ _ hat => Iter.step_at e hat) ends h
  refine ⟨hreads, (reads pop ends entries).2, ?_, DoubleEnded.reads_pop_nil ends⟩
  rw [hreads]
  exact DoubleEnded.reads_pop ends entries

theorem UserPages.Refines.agrees (h : pages.Refines m) : pages.Agrees m := by
  refine ⟨fun page => (pages.get_eq page).trans (h.lookup page).symm, ?_, fun range => ?_⟩
  · obtain ⟨it, hit, hat⟩ := h.range_at .full rfl
    have hall : (m.toList.filter fun entry => PageRange.full.contains entry.1) = m.toList :=
      filter_eq_self.2 fun _ _ => rfl
    rw [UserPages.iter, hit]
    exact Option.Rel.some (hall ▸ hat).yields
  · cases hr : range.inverted with
    | true =>
      rw [UserPages.range, treeRange, treeRange, hr]
      exact Option.Rel.none
    | false =>
      obtain ⟨it, hit, hat⟩ := h.range_at range hr
      rw [hit, treeRange, hr]
      exact Option.Rel.some hat.yields

/-! ## Operations -/

/-- `known_absent` is told only of pages that are not keys of the tree. -/
def Op.Fact : Op → UserPages → Prop
  | .exposeScratch page true, pages | .hideScratch page true, pages => pages.map.inner[page]? = none
  | _, _ => True

namespace Owned

variable {o : Owned} {m : Tree}

theorem countChange_map (o : Owned) (first last : ℕ) :
    (o.countChange first last).pages.map = o.pages.map := by
  rw [countChange]
  split
  · rfl
  · split_ifs <;> rfl

theorem countChange_scratch (o : Owned) (first last : ℕ) :
    (o.countChange first last).pages.scratch = o.pages.scratch := by
  rw [countChange]
  split
  · rfl
  · split_ifs <;> rfl

theorem refines_countChange (h : o.pages.Refines m) (first last : ℕ) :
    (o.countChange first last).pages.Refines m :=
  h.congr (congrArg _ (o.countChange_map first last)) (o.countChange_scratch first last)

theorem refines_countChange_ite (h : o.pages.Refines m) (first last : ℕ) (p : Prop) [Decidable p] :
    (if p then o.countChange first last else o).pages.Refines m := by
  split_ifs
  · exact refines_countChange h first last
  · exact h

theorem takeScratch_eq (h : o.pages.Refines m) (page : ℕ) :
    o.takeScratch page =
      (decide (page ∈ o.pages.scratch), o.setScratch (o.pages.scratch.erase page)) := by
  rw [takeScratch, UserPages.scratchIndex, Ascending.binarySearch]
  by_cases hmem : page ∈ o.pages.scratch
  · rw [if_pos hmem]
    dsimp only
    rw [Ascending.eraseIdx_found h.ascending hmem, decide_eq_true hmem]
  · rw [if_neg hmem, decide_eq_false hmem, erase_of_not_mem hmem]
    rfl

variable {page q : ℕ}

section
variable (h : o.pages.Refines m)
include h

theorem mem_erase_scratch : q ∈ o.pages.scratch.erase page ↔ q ≠ page ∧ q ∈ o.pages.scratch :=
  List.Nodup.mem_erase_iff (h.ascending.imp Nat.ne_of_lt)

theorem ite_erase_scratch (hq : page ≠ q) (a b : Option UserPageState) :
    (if q ∈ o.pages.scratch then a else b) = if q ∈ o.pages.scratch.erase page then a else b := by
  refine if_congr ?_ rfl rfl
  rw [mem_erase_scratch h]
  exact ⟨fun hmem => ⟨Ne.symm hq, hmem⟩, fun hmem => hmem.2⟩

/-- A page that is taken from the overlay is removed from the plain map, if it is no key of
    the tree. -/
theorem refines_taken (habsent : o.pages.map.inner[page]? = none) :
    (o.setScratch (o.pages.scratch.erase page)).pages.Refines (m.erase page) := by
  refine ⟨h.ascending.sublist erase_sublist, fun q hq => ?_, fun q => ?_⟩
  · exact h.absent q ((mem_erase_scratch h).1 hq).2
  · show _ = if q ∈ o.pages.scratch.erase page then some EXPOSED else o.pages.map.inner[q]?
    rw [Table.getElem?_erase, h.lookup]
    by_cases hq : page = q
    · subst hq
      rw [if_pos rfl, if_neg fun hmem => ((mem_erase_scratch h).1 hmem).1 rfl, habsent]
    · rw [if_neg hq, ite_erase_scratch h hq]

/-- A page removed from the overlay and from the tree is removed from the plain map. -/
theorem refines_erase (page : ℕ) :
    ((o.setScratch (o.pages.scratch.erase page)).edit (·.erase page)).pages.Refines
      (m.erase page) := by
  refine ⟨h.ascending.sublist erase_sublist, fun q hq => ?_, fun q => ?_⟩
  · show (o.pages.map.inner.erase page)[q]? = none
    rw [Table.getElem?_erase, h.absent q ((mem_erase_scratch h).1 hq).2, ite_self]
  · show _ = if q ∈ o.pages.scratch.erase page then some EXPOSED else (o.pages.map.inner.erase page)[q]?
    rw [Table.getElem?_erase, Table.getElem?_erase, h.lookup]
    by_cases hq : page = q
    · subst hq
      rw [if_pos rfl, if_neg fun hmem => ((mem_erase_scratch h).1 hmem).1 rfl, if_pos rfl]
    · rw [if_neg hq, if_neg hq, ite_erase_scratch h hq]

/-- What was taken of a page and what the tree has of it are what the plain map has. -/
theorem previous_eq (page : ℕ) :
    (if decide (page ∈ o.pages.scratch) = true then some EXPOSED else o.pages.map.inner[page]?) =
      m[page]? := by
  rw [h.lookup]
  simp only [decide_eq_true_eq]

theorem insert_refines (page : ℕ) (state : UserPageState) :
    (o.insert page state).1 = m[page]? ∧
      (o.insert page state).2.pages.Refines (m.insert page state) := by
  rw [insert, takeScratch_eq h]
  refine ⟨previous_eq h page, refines_countChange_ite ⟨h.ascending.sublist erase_sublist,
    fun q hq => ?_, fun q => ?_⟩ page page _⟩
  · obtain ⟨hne, hmem⟩ := (mem_erase_scratch h).1 hq
    show (o.pages.map.inner.insert page state)[q]? = none
    rw [Table.getElem?_insert, if_neg (Ne.symm hne), h.absent q hmem]
  · show _ = if q ∈ o.pages.scratch.erase page then some EXPOSED
      else (o.pages.map.inner.insert page state)[q]?
    rw [Table.getElem?_insert, Table.getElem?_insert, h.lookup]
    by_cases hq : page = q
    · subst hq
      rw [if_pos rfl, if_neg fun hmem => ((mem_erase_scratch h).1 hmem).1 rfl, if_pos rfl]
    · rw [if_neg hq, if_neg hq, ite_erase_scratch h hq]

theorem remove_refines (page : ℕ) :
    (o.remove page).1 = m[page]? ∧ (o.remove page).2.pages.Refines (m.erase page) := by
  rw [remove, takeScratch_eq h]
  by_cases hmem : page ∈ o.pages.scratch
  · rw [h.lookup, if_pos hmem, decide_eq_true hmem]
    exact ⟨rfl, refines_countChange (refines_taken h (h.absent page hmem)) page page⟩
  · rw [h.lookup, if_neg hmem, decide_eq_false hmem]
    exact ⟨rfl, refines_countChange_ite (refines_erase h page) page page _⟩

theorem hideScratch_refines (page : ℕ) (knownAbsent : Bool)
    (hfact : knownAbsent = true → o.pages.map.inner[page]? = none) :
    (o.hideScratch page knownAbsent).pages.Refines (m.erase page) := by
  rw [hideScratch, takeScratch_eq h]
  by_cases hmem : page ∈ o.pages.scratch
  · rw [decide_eq_true hmem]
    exact refines_countChange (refines_taken h (h.absent page hmem)) page page
  · rw [decide_eq_false hmem]
    dsimp only
    rw [if_neg Bool.false_ne_true]
    split_ifs with hknown hcontains
    · exact refines_taken h (hfact hknown)
    · exact refines_countChange (refines_erase h page) page page
    · refine refines_taken h ?_
      rw [← not_isSome_iff_eq_none, ← Std.TreeMap.contains_eq_isSome_getElem?]
      exact hcontains

/-- A page put in the overlay, and no longer in the tree, is inserted in the plain map. -/
theorem refines_expose {tree : Tree} (hmem : page ∉ o.pages.scratch)
    (htree : ∀ q : ℕ, tree[q]? = if page = q then none else o.pages.map.inner[q]?)
    {pages : UserPages} (hmap : pages.map.inner = tree)
    (hscratch : pages.scratch = o.pages.scratch.insertIdx
      (Ascending.partitionPoint (fun b => decide (b < page)) o.pages.scratch) page) :
    pages.Refines (m.insert page EXPOSED) := by
  refine ⟨?_, fun q hq => ?_, fun q => ?_⟩
  · rw [hscratch]
    exact Ascending.pairwise_insertIdx h.ascending hmem
  · rw [hmap, htree]
    rw [hscratch, Ascending.mem_insertIdx] at hq
    rcases hq with rfl | hq
    · exact if_pos rfl
    · rw [h.absent q hq, ite_self]
  · rw [hmap, htree, Table.getElem?_insert, h.lookup, hscratch]
    simp only [Ascending.mem_insertIdx]
    by_cases hq : page = q
    · rw [if_pos hq, if_pos (Or.inl hq.symm)]
    · rw [if_neg hq, if_neg hq]
      refine if_congr ⟨Or.inr, fun hor => ?_⟩ rfl rfl
      exact hor.resolve_left (Ne.symm hq)

theorem exposeScratch_refines (page : ℕ) (knownAbsent : Bool)
    (hfact : knownAbsent = true → o.pages.map.inner[page]? = none) :
    (o.exposeScratch page knownAbsent).pages.Refines (m.insert page EXPOSED) := by
  rw [exposeScratch, UserPages.scratchIndex, Ascending.binarySearch]
  by_cases hmem : page ∈ o.pages.scratch
  · rw [if_pos hmem]
    refine ⟨h.ascending, h.absent, fun q => ?_⟩
    rw [Table.getElem?_insert, h.lookup]
    by_cases hq : page = q
    · rw [if_pos hq, if_pos (hq ▸ hmem)]
    · rw [if_neg hq]
  · rw [if_neg hmem]
    refine refines_countChange_ite ?_ page page _
    by_cases hsome : (if (!knownAbsent) = true then o.pages.map.inner[page]? else none).isSome
    · rw [if_pos hsome]
      exact refines_expose h hmem (fun q => Table.getElem?_erase) rfl rfl
    · have hnone : o.pages.map.inner[page]? = none := by
        cases knownAbsent with
        | true => exact hfact rfl
        | false => exact not_isSome_iff_eq_none.1 hsome
      rw [if_neg hsome]
      refine refines_expose h hmem (fun q => ?_) rfl rfl
      by_cases hq : page = q
      · rw [if_pos hq, ← hq]
        exact hnone
      · rw [if_neg hq]
        rfl

end

theorem clear_refines {o' : Owned} (hclear : o.clear = some o') : o'.pages.Refines ∅ := by
  obtain ⟨counted, -, rfl⟩ := map_eq_some_iff.1 hclear
  refine ⟨List.Pairwise.nil, fun page hpage => absurd hpage not_mem_nil, fun page => rfl⟩

theorem newRecord_refines (h : o.pages.Refines m) (first last : ℕ) (value : SharedRecord) :
    (o.newRecord first last value).pages.Refines m :=
  h.congr rfl rfl

theorem noteChange_pages (o : Owned) (first last : ℕ) :
    (o.noteChange first last).pages = o.pages := by
  rw [noteChange]
  split
  · rfl
  · split_ifs <;> rfl

theorem detachWatch_refines (h : o.pages.Refines m) : o.detachWatch.pages.Refines m := by
  rw [detachWatch]
  split
  · exact h
  · exact newRecord_refines h _ _ _

end Owned

/-- **Every operation keeps a map and the plain map it stands for together**, and returns
    the same. -/
theorem Op.run_refines (h : o.pages.Refines m) (hfact : op.Fact o.pages)
    (hrun : op.run o = some (reply, o')) :
    reply = (op.plain m).1 ∧ o'.pages.Refines (op.plain m).2 := by
  cases op with
  | insert page state =>
    have hinsert := insert_refines h page state
    rw [show o.insert page state = (reply, o') from Option.some.inj hrun] at hinsert
    exact hinsert
  | remove page =>
    have hremove := remove_refines h page
    rw [show o.remove page = (reply, o') from Option.some.inj hrun] at hremove
    exact hremove
  | clear =>
    obtain ⟨cleared, hclear, heq⟩ := map_eq_some_iff.1 hrun
    cases heq
    exact ⟨rfl, clear_refines hclear⟩
  | exposeScratch page knownAbsent =>
    cases hrun
    refine ⟨rfl, exposeScratch_refines h page knownAbsent ?_⟩
    rintro rfl
    exact hfact
  | hideScratch page knownAbsent =>
    cases hrun
    refine ⟨rfl, hideScratch_refines h page knownAbsent ?_⟩
    rintro rfl
    exact hfact
  | watch first last =>
    cases hrun
    exact ⟨rfl, newRecord_refines h first last _⟩
  | noteChange first last =>
    cases hrun
    exact ⟨rfl, (o.noteChange_pages first last).symm ▸ h⟩
  | countChange first last =>
    cases hrun
    exact ⟨rfl, refines_countChange h first last⟩
  | detachWatch =>
    cases hrun
    exact ⟨rfl, detachWatch_refines h⟩

/-! ## Panics -/

/-- A watch whose pages are in order. -/
def UserPages.Ordered (pages : UserPages) : Prop :=
  ∀ watch, pages.watch = some watch → watch.first ≤ watch.last

theorem Op.run_isSome (op : Op) (h : o.pages.Ordered) : ∃ result, op.run o = some result := by
  cases op with
  | clear =>
    have hcount : ∃ counted, o.countClear = some counted := by
      rw [Owned.countClear]
      split
      · exact ⟨o, rfl⟩
      · next watch hwatch =>
        have hr : PageRange.inverted ⟨.included watch.first, .included watch.last⟩ = false :=
          decide_eq_false (Nat.not_lt.2 (h watch hwatch))
        rw [UserPages.range, treeRange, hr]
        exact ⟨_, rfl⟩
    obtain ⟨counted, hcount⟩ := hcount
    rw [Op.run, Owned.clear, hcount]
    exact ⟨_, rfl⟩
  | insert | remove | exposeScratch | hideScratch | watch | noteChange | countChange | detachWatch =>
    exact ⟨_, rfl⟩

theorem Op.run_ordered (h : o.pages.Ordered)
    (hwatch : ∀ first last, op = .watch first last → first ≤ last)
    (hrun : op.run o = some (reply, o')) : o'.pages.Ordered := by
  intro watch' hwatch'
  cases hop : op.changes with
  | true =>
    have hsame : o'.watching.watch = some watch' := hwatch'
    rcases Op.run_watching hop hrun with heq | ⟨watch, hwatch, heq⟩
    · rw [heq] at hsame
      exact h watch' hsame
    · rw [heq] at hsame
      cases hsame
      exact h watch hwatch
  | false =>
    cases op with
    | watch first last =>
      cases hrun
      cases hwatch'
      exact hwatch first last rfl
    | noteChange first last =>
      cases hrun
      rw [noteChange_pages] at hwatch'
      exact h watch' hwatch'
    | detachWatch =>
      cases hrun
      rw [Owned.detachWatch] at hwatch'
      split at hwatch'
      · exact h watch' hwatch'
      · next watch hwatch =>
        cases hwatch'
        exact h watch hwatch
    | insert | remove | clear | exposeScratch | hideScratch | countChange => cases hop

/-! ## Histories -/

/-- Whenever `known_absent` is told, it is a fact. -/
def System.Facts : List Act → System → Prop
  | [], _ => True
  | act :: acts, s =>
    (∀ map op pages, act = .op map op → s.maps[map]? = some pages → op.Fact pages) ∧
      ∀ result, s.step act = some result → System.Facts acts result.2

/-- A map that stands for a plain one, and whose watch is in order. -/
def UserPages.Stands (pages : UserPages) (m : Tree) : Prop := pages.Refines m ∧ pages.Ordered

section
variable {α β : Type} {R : α → β → Prop} {l : List α} {l' : List β}

theorem forall₂_getElem? (h : List.Forall₂ R l l') (i : ℕ) :
    List.Forall₂ R l[i]?.toList l'[i]?.toList := by
  rw [← head?_drop, ← take_one, ← head?_drop, ← take_one]
  exact forall₂_take 1 (forall₂_drop i h)

theorem forall₂_set (h : List.Forall₂ R l l') {a : α} {b : β} (hab : R a b) (i : ℕ) :
    List.Forall₂ R (l.set i a) (l'.set i b) := by
  rw [set_eq_take_append_cons_drop, set_eq_take_append_cons_drop, h.length_eq]
  split_ifs
  · exact rel_append (forall₂_take i h) (List.Forall₂.cons hab (forall₂_drop (i + 1) h))
  · exact h

end

theorem UserPages.stands_new (shared : Shared) : shared.newPages.pages.Stands ∅ := by
  refine ⟨⟨List.Pairwise.nil, fun page hpage => absurd hpage not_mem_nil, fun page => rfl⟩,
    fun watch hwatch => ?_⟩
  cases hwatch

theorem System.step_stands {s : System} {ms : List Tree} {act : Act}
    (h : List.Forall₂ UserPages.Stands s.maps ms)
    (hfact : ∀ map op pages, act = .op map op → s.maps[map]? = some pages → op.Fact pages)
    (hwatch : ∀ map first last, act = .op map (.watch first last) → first ≤ last) :
    ∃ s', s.step act = some ((act.plain ms).1, s') ∧
      List.Forall₂ UserPages.Stands s'.maps (act.plain ms).2 := by
  cases act with
  | new =>
    exact ⟨_, rfl, rel_append h (List.Forall₂.cons (UserPages.stands_new _) List.Forall₂.nil)⟩
  | clone map =>
    exact ⟨_, rfl, rel_append h (forall₂_getElem? h map)⟩
  | op map operation =>
    rw [System.step, Act.plain]
    have hat := forall₂_getElem? h map
    rcases hpages : s.maps[map]? with _ | pages <;> rcases hm : ms[map]? with _ | m <;>
      rw [hpages, hm] at hat
    · exact ⟨s, rfl, h⟩
    · cases hat
    · cases hat
    · obtain ⟨hrefines, hordered⟩ : pages.Stands m := by
        cases hat with
        | cons hone _ => exact hone
      obtain ⟨⟨reply, o'⟩, hrun⟩ := operation.run_isSome (o := ⟨pages, s.shared⟩) hordered
      obtain ⟨hreply, hrefines'⟩ := Op.run_refines hrefines (hfact map operation pages rfl hpages) hrun
      have hordered' := Op.run_ordered hordered
        (fun first last heq => hwatch map first last (by rw [heq])) hrun
      dsimp only
      rw [hrun]
      exact ⟨_, by rw [map_some, hreply], forall₂_set h ⟨hrefines', hordered'⟩ map⟩

theorem System.run_stands (acts : List Act) : ∀ {s : System} {ms : List Tree},
    List.Forall₂ UserPages.Stands s.maps ms → System.Facts acts s →
      (∀ map first last, Act.op map (.watch first last) ∈ acts → first ≤ last) →
        ∃ s', s.run acts = some ((plainRun acts ms).1, s') ∧
          List.Forall₂ UserPages.Stands s'.maps (plainRun acts ms).2 := by
  induction acts with
  | nil => exact fun h _ _ => ⟨_, rfl, h⟩
  | cons act acts ih =>
    intro s ms h hfacts hwatch
    obtain ⟨s₁, hstep, h₁⟩ := System.step_stands h hfacts.1
      fun map first last heq => hwatch map first last (heq ▸ mem_cons_self)
    obtain ⟨s', hrun, h'⟩ := ih h₁ (hfacts.2 _ hstep)
      fun map first last hmem => hwatch map first last (mem_cons_of_mem _ hmem)
    refine ⟨s', ?_, h'⟩
    rw [System.run, hstep, bind_some, hrun]
    rfl

/-- **`UserPages` refines a plain ordered map.**  After any history of operations and clones
    every map agrees with a plain map under the same operations, and they returned the same,
    if `known_absent` was a fact each time.  A watch of pages out of order makes a clear
    panic. -/
theorem userPages_refines (acts : List Act) (hfacts : System.Facts acts System.new)
    (hwatch : ∀ map first last, Act.op map (.watch first last) ∈ acts → first ≤ last) :
    ∃ s, System.new.run acts = some ((plainRun acts []).1, s) ∧
      List.Forall₂ UserPages.Agrees s.maps (plainRun acts []).2 := by
  obtain ⟨s, hrun, h⟩ := System.run_stands acts (s := System.new) List.Forall₂.nil hfacts hwatch
  exact ⟨s, hrun, h.imp fun pages m hstands => hstands.1.agrees⟩

/-- A page mapped, exposed and hidden, in a map and in its clone. -/
def sampleActs : List Act :=
  [.new, .op 0 (.insert 3 EXPOSED), .op 0 (.exposeScratch 5 true), .clone 0,
    .op 1 (.hideScratch 3 false)]

theorem sampleActs_facts : System.Facts sampleActs System.new := by
  refine ⟨fun map op pages hact => ?_, fun result hstep => ?_⟩
  · cases hact
  cases hstep
  refine ⟨fun map op pages hact _ => ?_, fun result hstep => ?_⟩
  · cases hact
    exact trivial
  cases hstep
  refine ⟨fun map op pages hact hpages => ?_, fun result hstep => ?_⟩
  · cases hact
    cases hpages
    rfl
  refine ⟨fun map op pages hact => ?_, fun result hstep => ?_⟩
  · cases hact
  refine ⟨fun map op pages hact _ => ?_, fun result hstep => ?_⟩
  · cases hact
    exact trivial
  exact trivial

theorem userPages_refines_sample :
    ∃ s, System.new.run sampleActs = some ([none, none, none, none, none], s) ∧
      List.Forall₂ UserPages.Agrees s.maps
        [((∅ : Tree).insert 3 EXPOSED).insert 5 EXPOSED,
          (((∅ : Tree).insert 3 EXPOSED).insert 5 EXPOSED).erase 3] :=
  userPages_refines sampleActs sampleActs_facts (by simp [sampleActs])

/-- A page of the tree that is hidden as known to be absent is still mapped. -/
theorem hideScratch_told_wrongly :
    ∃ s pages, System.new.run [.new, .op 0 (.insert 5 EXPOSED), .op 0 (.hideScratch 5 true)] =
        some ([none, none, none], s) ∧ s.maps = [pages] ∧ pages.get 5 = some EXPOSED ∧
      ∃ m : Tree, (plainRun [.new, .op 0 (.insert 5 EXPOSED), .op 0 (.hideScratch 5 true)] []).2 = [m] ∧
        m[5]? = none :=
  ⟨_, _, rfl, rfl, rfl, _, rfl, rfl⟩

/-! ## Sizes -/

/-- `len` and `contains_key` answer as those of the plain map. -/
def UserPages.Counts (pages : UserPages) (m : Tree) : Prop :=
  pages.len = m.size ∧ ∀ page, pages.containsKey page = m.contains page

theorem UserPages.Refines.counts (h : pages.Refines m) : pages.Counts m := by
  have hkeys : (pages.map.inner.keys ++ pages.scratch).Perm m.keys := by
    refine (perm_ext_iff_of_nodup ?_ Std.TreeMap.nodup_keys).2 fun page => ?_
    · refine Std.TreeMap.nodup_keys.append (h.ascending.imp Nat.ne_of_lt) fun page hpage hmem => ?_
      rw [Std.TreeMap.mem_keys, Std.TreeMap.mem_iff_isSome_getElem?, h.absent page hmem] at hpage
      cases hpage
    · simp only [mem_append, Std.TreeMap.mem_keys, Std.TreeMap.mem_iff_isSome_getElem?, h.lookup]
      split_ifs with hmem <;> simp [hmem]
  refine ⟨by simpa [UserPages.len] using hkeys.length_eq, fun page => ?_⟩
  rw [UserPages.containsKey, h.agrees.1 page, Std.TreeMap.contains_eq_isSome_getElem?]

/-- **Sizes.**  After any history the maps have the sizes and the keys of the plain maps,
    whichever of its two parts a map has a page in. -/
theorem userPages_count (acts : List Act) (hfacts : System.Facts acts System.new)
    (hwatch : ∀ map first last, Act.op map (.watch first last) ∈ acts → first ≤ last) :
    ∃ s, System.new.run acts = some ((plainRun acts []).1, s) ∧
      List.Forall₂ UserPages.Counts s.maps (plainRun acts []).2 := by
  obtain ⟨s, hrun, h⟩ := System.run_stands acts (s := System.new) List.Forall₂.nil hfacts hwatch
  exact ⟨s, hrun, h.imp fun pages m hstands => hstands.1.counts⟩

theorem userPages_count_exposed : ∃ s,
    System.new.run sampleActs = some ([none, none, none, none, none], s) ∧
      s.maps.map UserPages.len = [2, 1] ∧
      List.Forall₂ UserPages.Counts s.maps
        [((∅ : Tree).insert 3 EXPOSED).insert 5 EXPOSED,
          (((∅ : Tree).insert 3 EXPOSED).insert 5 EXPOSED).erase 3] := by
  obtain ⟨s, hrun, hcounts⟩ := userPages_count sampleActs sampleActs_facts (by simp [sampleActs])
  refine ⟨s, hrun, ?_, hcounts⟩
  cases hrun
  rfl

end Reverie.PageMaps
