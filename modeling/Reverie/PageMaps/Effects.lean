/-
  What an operation does to a watch (`Op.run_watching`) and to the version of a map
  (`Op.run_drawn`).
-/
import Reverie.PageMaps.UserPages

namespace Reverie.PageMaps
open Option

open Memory (UserPageState)

/-- A watch and the records, without the pages. -/
structure Watching where
  watch : Option Watch
  records : ℕ → SharedRecord
  nextRecord : ℕ

def Owned.watching (o : Owned) : Watching := ⟨o.pages.watch, o.shared.records, o.shared.nextRecord⟩

/-- One change counted in the record, as the map's own. -/
def Watching.count (w : Watching) (watch : Watch) : Watching :=
  ⟨some { watch with own := watch.own + 1 },
    Function.update w.records watch.record
      { w.records watch.record with changes := (w.records watch.record).changes + 1 },
    w.nextRecord⟩

/-- No change, or one that is counted. -/
def Watching.Counts (w w' : Watching) : Prop :=
  w' = w ∨ ∃ watch, w.watch = some watch ∧ w' = w.count watch

/-- The operations that change pages, or are told of a change. -/
def Op.changes : Op → Bool
  | .insert _ _ | .remove _ | .clear | .exposeScratch _ _ | .hideScratch _ _ | .countChange _ _ => true
  | .watch _ _ | .noteChange _ _ | .detachWatch => false

namespace Owned

variable (o : Owned)

theorem countChange_watching (first last : ℕ) :
    o.watching.Counts (o.countChange first last).watching := by
  rw [countChange]
  split
  · exact Or.inl rfl
  · next watch hwatch =>
    split_ifs
    · exact Or.inr ⟨watch, hwatch, rfl⟩
    · exact Or.inl rfl

theorem countChange_ite_watching (first last : ℕ) (p : Prop) [Decidable p] :
    o.watching.Counts (if p then o.countChange first last else o).watching := by
  split_ifs
  · exact o.countChange_watching first last
  · exact Or.inl rfl

theorem takeScratch_watching (page : ℕ) : (o.takeScratch page).2.watching = o.watching := by
  rw [takeScratch]
  split <;> rfl

theorem insert_watching (page : ℕ) (state : UserPageState) :
    o.watching.Counts (o.insert page state).2.watching := by
  rw [← o.takeScratch_watching page]
  exact countChange_ite_watching ((o.takeScratch page).2.edit (·.insert page state)) page page _

theorem remove_watching (page : ℕ) : o.watching.Counts (o.remove page).2.watching := by
  rw [← o.takeScratch_watching page, remove]
  dsimp only
  split_ifs
  · exact countChange_watching _ page page
  · exact countChange_watching ((o.takeScratch page).2.edit (·.erase page)) page page
  · exact Or.inl rfl

theorem clear_watching {o o' : Owned} (h : o.clear = some o') : o.watching.Counts o'.watching := by
  obtain ⟨counted, hcount, rfl⟩ := map_eq_some_iff.1 h
  rw [countClear] at hcount
  split at hcount
  · cases hcount
    exact Or.inl rfl
  · next watch _ =>
    obtain ⟨it, -, rfl⟩ := map_eq_some_iff.1 hcount
    exact o.countChange_ite_watching watch.first watch.last _

theorem exposeScratch_watching (page : ℕ) (knownAbsent : Bool) :
    o.watching.Counts (o.exposeScratch page knownAbsent).watching := by
  rw [exposeScratch]
  split
  · exact Or.inl rfl
  · next index _ =>
    generalize (if (!knownAbsent) = true then o.pages.map.inner[page]? else none) = previous
    dsimp only
    cases hsome : previous.isSome with
    | true => exact countChange_ite_watching ((o.edit (·.erase page)).setScratch _) page page _
    | false => exact countChange_ite_watching (o.setScratch _) page page _

theorem hideScratch_watching (page : ℕ) (knownAbsent : Bool) :
    o.watching.Counts (o.hideScratch page knownAbsent).watching := by
  rw [← o.takeScratch_watching page, hideScratch]
  dsimp only
  split_ifs
  · exact countChange_watching _ page page
  · exact Or.inl rfl
  · exact countChange_watching ((o.takeScratch page).2.edit (·.erase page)) page page
  · exact Or.inl rfl

end Owned

/-- **An operation on pages counts at most one change**, in the record and as the map's own. -/
theorem Op.run_watching {op : Op} (hop : op.changes = true) {o o' : Owned}
    {reply : Option UserPageState} (h : op.run o = some (reply, o')) :
    o.watching.Counts o'.watching := by
  cases op with
  | insert page state =>
    have hcount := o.insert_watching page state
    rw [show o.insert page state = (reply, o') from Option.some.inj h] at hcount
    exact hcount
  | remove page =>
    have hcount := o.remove_watching page
    rw [show o.remove page = (reply, o') from Option.some.inj h] at hcount
    exact hcount
  | clear =>
    obtain ⟨cleared, hclear, heq⟩ := map_eq_some_iff.1 h
    cases heq
    exact Owned.clear_watching hclear
  | exposeScratch page knownAbsent =>
    cases h
    exact o.exposeScratch_watching page knownAbsent
  | hideScratch page knownAbsent =>
    cases h
    exact o.hideScratch_watching page knownAbsent
  | countChange first last =>
    cases h
    exact o.countChange_watching first last
  | watch | noteChange | detachWatch => cases hop

/-! ## Versions -/

/-- The tree with its version, and the next version. -/
def Owned.drawn (o : Owned) : Memory.Versioned Tree × ℕ := (o.pages.map, o.shared.nextVersion)

/-- The tree as it was, or with the next version. -/
def Draws (before after : Memory.Versioned Tree × ℕ) : Prop :=
  after = before ∨ ∃ tree, after = (⟨tree, before.2⟩, before.2 + 1)

namespace Owned

variable (o : Owned)

theorem countChange_drawn (first last : ℕ) : (o.countChange first last).drawn = o.drawn := by
  rw [countChange]
  split
  · rfl
  · split_ifs <;> rfl

theorem countChange_ite_drawn (first last : ℕ) (p : Prop) [Decidable p] :
    (if p then o.countChange first last else o).drawn = o.drawn := by
  split_ifs
  · exact o.countChange_drawn first last
  · rfl

theorem takeScratch_drawn (page : ℕ) : (o.takeScratch page).2.drawn = o.drawn := by
  rw [takeScratch]
  split <;> rfl

theorem edit_drawn (f : Tree → Tree) : Draws o.drawn (o.edit f).drawn :=
  Or.inr ⟨_, rfl⟩

theorem insert_drawn (page : ℕ) (state : UserPageState) :
    Draws o.drawn (o.insert page state).2.drawn := by
  rw [← o.takeScratch_drawn page, insert]
  rw [countChange_ite_drawn]
  exact edit_drawn _ _

theorem remove_drawn (page : ℕ) : Draws o.drawn (o.remove page).2.drawn := by
  rw [← o.takeScratch_drawn page, remove]
  dsimp only
  split_ifs
  · exact Or.inl (countChange_drawn _ page page)
  · rw [countChange_drawn]
    exact edit_drawn _ _
  · exact edit_drawn _ _

theorem clear_drawn {o o' : Owned} (h : o.clear = some o') : Draws o.drawn o'.drawn := by
  obtain ⟨counted, hcount, rfl⟩ := map_eq_some_iff.1 h
  have hsame : counted.drawn = o.drawn := by
    rw [countClear] at hcount
    split at hcount
    · cases hcount
      rfl
    · obtain ⟨it, -, rfl⟩ := map_eq_some_iff.1 hcount
      exact countChange_ite_drawn o _ _ _
  rw [← hsame]
  exact edit_drawn (counted.setScratch []) _

theorem exposeScratch_drawn (page : ℕ) (knownAbsent : Bool) :
    Draws o.drawn (o.exposeScratch page knownAbsent).drawn := by
  rw [exposeScratch]
  split
  · exact Or.inl rfl
  · generalize (if (!knownAbsent) = true then o.pages.map.inner[page]? else none) = previous
    rw [countChange_ite_drawn]
    cases hsome : previous.isSome with
    | true => exact o.edit_drawn (·.erase page)
    | false => exact Or.inl rfl

theorem hideScratch_drawn (page : ℕ) (knownAbsent : Bool) :
    Draws o.drawn (o.hideScratch page knownAbsent).drawn := by
  rw [← o.takeScratch_drawn page, hideScratch]
  dsimp only
  split_ifs
  · exact Or.inl (countChange_drawn _ page page)
  · exact Or.inl rfl
  · rw [countChange_drawn]
    exact edit_drawn _ _
  · exact Or.inl rfl

theorem noteChange_drawn (first last : ℕ) : (o.noteChange first last).drawn = o.drawn := by
  rw [noteChange]
  split
  · rfl
  · split_ifs <;> rfl

theorem detachWatch_drawn : o.detachWatch.drawn = o.drawn := by
  rw [detachWatch]
  split <;> rfl

end Owned

/-- **An operation leaves the tree, or gives it a version that no map had before.** -/
theorem Op.run_drawn {op : Op} {o o' : Owned} {reply : Option UserPageState}
    (h : op.run o = some (reply, o')) : Draws o.drawn o'.drawn := by
  cases op with
  | insert page state =>
    have hdraw := o.insert_drawn page state
    rw [show o.insert page state = (reply, o') from Option.some.inj h] at hdraw
    exact hdraw
  | remove page =>
    have hdraw := o.remove_drawn page
    rw [show o.remove page = (reply, o') from Option.some.inj h] at hdraw
    exact hdraw
  | clear =>
    obtain ⟨cleared, hclear, heq⟩ := map_eq_some_iff.1 h
    cases heq
    exact Owned.clear_drawn hclear
  | exposeScratch page knownAbsent =>
    cases h
    exact o.exposeScratch_drawn page knownAbsent
  | hideScratch page knownAbsent =>
    cases h
    exact o.hideScratch_drawn page knownAbsent
  | watch first last =>
    cases h
    exact Or.inl rfl
  | noteChange first last =>
    cases h
    exact Or.inl (o.noteChange_drawn first last)
  | countChange first last =>
    cases h
    exact Or.inl (o.countChange_drawn first last)
  | detachWatch =>
    cases h
    exact Or.inl o.detachWatch_drawn

end Reverie.PageMaps
