/-
  The certainty of a watch, and the versions of maps.  `Ledger` says what a history did to the
  watches, without their counters; `System.step_inv`: the counters keep saying that, across
  clones and detached records.  Main theorems: `watch_certain_exact`, and that a change of a
  watched page is counted (`watched_change_counted`).
-/
import Reverie.PageMaps.Refinement

namespace Reverie.PageMaps
open List Function Option

open Memory (UserPageState EXPOSED)

/-! ## What a history did -/

/-- What happened to a record. -/
structure Story where
  noted : Bool := false
  changes : List ℕ := []

/-- What happened to all records and maps. -/
structure Ledger where
  time : ℕ := 0
  stories : ℕ → Story := fun _ => {}
  /-- the changes of each map's own lineage -/
  lineages : List (List ℕ) := []

namespace Ledger

variable (l : Ledger)

def setStory (record : ℕ) (story : Story) : Ledger :=
  { l with stories := update l.stories record story }

/-- The change of an act, in the record and on the map's lineage. -/
def change (map record : ℕ) : Ledger :=
  { l.setStory record
      { l.stories record with changes := l.time :: (l.stories record).changes } with
    lineages := l.lineages.set map (l.time :: l.lineages.getD map []) }

/-- What an operation did: `before` and `after` are the records before and after it. -/
def onOp (map : ℕ) (watch : Option Watch) (nextRecord : ℕ) (before after : ℕ → SharedRecord) :
    Op → Ledger
  | .watch _ _ =>
    { l.setStory nextRecord {} with lineages := l.lineages.set map [] }
  | .detachWatch =>
    match watch with
    | none => l
    | some watch => l.setStory nextRecord (l.stories watch.record)
  | .noteChange first last =>
    match watch with
    | none => l
    | some watch =>
      if watch.overlaps first last then
        l.setStory watch.record { l.stories watch.record with noted := true }
      else l
  | _ =>
    match watch with
    | none => l
    | some watch =>
      if (after watch.record).changes ≠ (before watch.record).changes then
        l.change map watch.record
      else l

/-- What an act did, from one state of the maps to the next. -/
def onAct (s s' : System) : Act → Ledger
  | .new => { l with lineages := l.lineages ++ [[]] }
  | .clone map => { l with lineages := l.lineages ++ l.lineages[map]?.toList }
  | .op map op =>
    match s.maps[map]? with
    | none => l
    | some pages => l.onOp map pages.watch s.shared.nextRecord s.shared.records s'.shared.records op

def ofRun : List Act → System → Ledger → Ledger
  | [], _, l => l
  | act :: acts, s, l =>
    match s.step act with
    | none => l
    | some (_, s') => ofRun acts s' { l.onAct s s' act with time := l.time + 1 }

end Ledger

/-! ## One watch -/

/-- What a record began with: the changes already counted, and those of the lineage of the
    map that it was made for. -/
structure Base where
  changes : List ℕ := []
  lineage : List ℕ := []

/-- The counters of a record and of a map that shares it tell its story. -/
structure Told (base : Base) (story : Story) (lineage : List ℕ) (record : SharedRecord) (own : ℕ) :
    Prop where
  changes : ∃ since made, story.changes = since ++ base.changes ∧ lineage = made ++ base.lineage ∧
    record.changes = since.length ∧ own = made.length ∧ made ⊆ since ∧ since.Nodup ∧ made.Nodup ∧
      ∀ t ∈ since, t ∉ base.changes ∧ t ∉ base.lineage
  uncertain : record.uncertain = true ↔ story.noted = true ∨ ∃ t ∈ base.changes, t ∉ base.lineage

section
variable {base : Base} {story : Story} {lineage : List ℕ} {record : SharedRecord} {own t : ℕ}

/-- **A watch is certain exactly if nothing was noted and every change is the map's own.** -/
theorem Told.certain_iff (h : Told base story lineage record own) :
    (!record.uncertain && record.changes == own) = true ↔
      story.noted = false ∧ ∀ t ∈ story.changes, t ∈ lineage := by
  obtain ⟨since, made, hstory, hlineage, hchanges, hown, hsub, hnodup, hmade, hfresh⟩ := h.changes
  have hperm : since.length = made.length ↔ since ⊆ made := by
    have hsubperm := (subperm_of_subset hmade hsub)
    constructor
    · exact fun hlen => (hsubperm.perm_of_length_le hlen.le).symm.subset
    · exact fun hback => le_antisymm (subperm_of_subset hnodup hback).length_le hsubperm.length_le
  rw [Bool.and_eq_true, Bool.not_eq_true', beq_iff_eq, hchanges, hown, hperm, ← Bool.not_eq_true,
    h.uncertain, hstory, hlineage, not_or, Bool.not_eq_true]
  constructor
  · rintro ⟨⟨hnoted, hbase⟩, hsince⟩
    refine ⟨hnoted, fun t ht => ?_⟩
    rcases mem_append.1 ht with ht | ht
    · exact mem_append_left _ (hsince ht)
    · refine mem_append_right _ ?_
      by_contra hnot
      exact hbase ⟨t, ht, hnot⟩
  · rintro ⟨hnoted, hall⟩
    refine ⟨⟨hnoted, ?_⟩, fun t ht => ?_⟩
    · rintro ⟨t, ht, hnot⟩
      rcases mem_append.1 (hall t (mem_append_right _ ht)) with hmem | hmem
      · exact (hfresh t (hsub hmem)).1 ht
      · exact hnot hmem
    · rcases mem_append.1 (hall t (mem_append_left _ ht)) with hmem | hmem
      · exact hmem
      · exact absurd hmem (hfresh t ht).2

theorem Told.begun : Told {} {} [] {} 0 :=
  ⟨⟨[], [], rfl, rfl, rfl, rfl, nil_subset _, nodup_nil, nodup_nil,
    fun t ht => absurd ht not_mem_nil⟩, by simp⟩

variable (h : Told base story lineage record own)
include h

theorem Told.detached :
    Told ⟨story.changes, lineage⟩ story lineage
      { uncertain := !(!record.uncertain && record.changes == own) } 0 := by
  refine ⟨⟨[], [], rfl, rfl, rfl, rfl, nil_subset _, nodup_nil, nodup_nil,
    fun t ht => absurd ht not_mem_nil⟩, ?_⟩
  rw [Bool.not_eq_true', ← Bool.not_eq_true, h.certain_iff, not_and_or, Bool.not_eq_false]
  simp only [not_forall, exists_prop]

theorem Told.noted :
    Told base { story with noted := true } lineage { record with uncertain := true } own :=
  ⟨h.changes, by simp⟩

theorem Told.own_change (hc : t ∉ story.changes)
    (hl : t ∉ lineage) :
    Told base { story with changes := t :: story.changes } (t :: lineage)
      { record with changes := record.changes + 1 } (own + 1) := by
  obtain ⟨since, made, hstory, rfl, hchanges, hown, hsub, hnodup, hmade, hfresh⟩ := h.changes
  rw [hstory, mem_append, not_or] at hc
  rw [mem_append, not_or] at hl
  refine ⟨⟨t :: since, t :: made, by rw [hstory]; rfl, rfl, congrArg (· + 1) hchanges,
    congrArg (· + 1) hown, cons_subset_cons _ hsub, nodup_cons.2 ⟨hc.1, hnodup⟩,
    nodup_cons.2 ⟨hl.1, hmade⟩, fun u hu => ?_⟩, h.uncertain⟩
  rcases mem_cons.1 hu with rfl | hu
  · exact ⟨hc.2, hl.2⟩
  · exact hfresh u hu

theorem Told.other_change (hc : t ∉ story.changes)
    (hl : t ∉ lineage) :
    Told base { story with changes := t :: story.changes } lineage
      { record with changes := record.changes + 1 } own := by
  obtain ⟨since, made, hstory, rfl, hchanges, hown, hsub, hnodup, hmade, hfresh⟩ := h.changes
  rw [hstory, mem_append, not_or] at hc
  rw [mem_append, not_or] at hl
  refine ⟨⟨t :: since, made, by rw [hstory]; rfl, rfl, congrArg (· + 1) hchanges, hown,
    subset_cons_of_subset _ hsub, nodup_cons.2 ⟨hc.1, hnodup⟩, hmade, fun u hu => ?_⟩,
    h.uncertain⟩
  rcases mem_cons.1 hu with rfl | hu
  · exact ⟨hc.2, hl.2⟩
  · exact hfresh u hu

end

/-! ## All maps -/

/-- A map's watch, if it has one, tells its story. -/
def Tells (base : ℕ → Base) (stories : ℕ → Story) (w : Watching) (lineage : List ℕ) : Prop :=
  ∀ watch, w.watch = some watch → watch.record < w.nextRecord ∧
    Told (base watch.record) (stories watch.record) lineage (w.records watch.record) watch.own

section
variable {base : ℕ → Base} {stories : ℕ → Story} {w : Watching} {lineage : List ℕ} {t : ℕ}

/-- A record that changes together with its story, and still tells it. -/
theorem Tells.update (h : Tells base stories w lineage) {record : ℕ} {story : Story}
    {value : SharedRecord}
    (htold : ∀ own, Told (base record) (stories record) lineage (w.records record) own →
      Told (base record) story lineage value own) :
    Tells base (update stories record story)
      { w with records := update w.records record value } lineage := by
  intro watch hwatch
  obtain ⟨hlt, hone⟩ := h watch hwatch
  refine ⟨hlt, ?_⟩
  dsimp only
  by_cases hr : watch.record = record
  · subst hr
    rw [update_self, update_self]
    exact htold _ hone
  · rw [update_of_ne hr, update_of_ne hr]
    exact hone

theorem Tells.newRecord (h : Tells base stories w lineage) (b : Base) (story : Story)
    (value : SharedRecord) :
    Tells (Function.update base w.nextRecord b) (Function.update stories w.nextRecord story)
      ⟨w.watch, Function.update w.records w.nextRecord value, w.nextRecord + 1⟩ lineage := by
  intro watch hwatch
  obtain ⟨hlt, hone⟩ := h watch hwatch
  have hr : watch.record ≠ w.nextRecord := hlt.ne
  dsimp only
  rw [Function.update_of_ne hr, Function.update_of_ne hr, Function.update_of_ne hr]
  exact ⟨hlt.trans (Nat.lt_succ_self _), hone⟩

theorem tells_newRecord {b : Base} {story : Story} {value : SharedRecord}
    (h : Told b story lineage value 0) (first last : ℕ) :
    Tells (update base w.nextRecord b) (update stories w.nextRecord story)
      ⟨some ⟨first, last, w.nextRecord, 0⟩, update w.records w.nextRecord value,
        w.nextRecord + 1⟩ lineage := by
  intro watch hwatch
  cases hwatch
  dsimp only
  rw [update_self, update_self, update_self]
  exact ⟨Nat.lt_succ_self _, h⟩

theorem Tells.count (h : Tells base stories w lineage) {watch : Watch} (hwatch : w.watch = some watch)
    (hc : t ∉ (stories watch.record).changes) (hl : t ∉ lineage) :
    Tells base (Function.update stories watch.record
        { stories watch.record with changes := t :: (stories watch.record).changes })
      (w.count watch) (t :: lineage) := by
  obtain ⟨hlt, hone⟩ := h watch hwatch
  intro watch' hwatch'
  cases hwatch'
  refine ⟨hlt, ?_⟩
  show Told _ _ _ (Function.update w.records watch.record _ watch.record) _
  rw [Function.update_self, Function.update_self]
  exact hone.own_change hc hl

end

/-- The watches of all maps, with the stories and lineages of a ledger. -/
structure WatchInv (base : ℕ → Base) (s : System) (l : Ledger) : Prop where
  length : l.lineages.length = s.maps.length
  stories : ∀ record, ∀ t ∈ (l.stories record).changes, t < l.time
  lineages : ∀ lineage ∈ l.lineages, ∀ t ∈ lineage, t < l.time
  tells : ∀ (i : ℕ) (pages : UserPages) (lineage : List ℕ), s.maps[i]? = some pages →
    l.lineages[i]? = some lineage →
      Tells base l.stories ⟨pages.watch, s.shared.records, s.shared.nextRecord⟩ lineage

theorem set_eq_self {α : Type} {l : List α} {i : ℕ} {a : α} (h : l[i]? = some a) : l.set i a = l := by
  obtain ⟨hlt, rfl⟩ := List.getElem?_eq_some_iff.1 h
  exact set_getElem_self hlt

section
variable {base : ℕ → Base} {s : System} {l : Ledger} {i : ℕ} {pages : UserPages} {lineage : List ℕ}

theorem WatchInv.set (h : WatchInv base s l) (hpages : s.maps[i]? = some pages)
    {base' : ℕ → Base} {pages' : UserPages} {shared' : Shared} (lineage' : List ℕ) {l' : Ledger}
    (htime : l.time ≤ l'.time) (hlineages : l'.lineages = l.lineages.set i lineage')
    (hstories : ∀ record, ∀ t ∈ (l'.stories record).changes, t < l'.time)
    (hlineage : ∀ t ∈ lineage', t < l'.time)
    (hown : Tells base' l'.stories ⟨pages'.watch, shared'.records, shared'.nextRecord⟩ lineage')
    (hothers : ∀ watch lineage, (∀ t ∈ lineage, t < l.time) →
      Tells base l.stories ⟨watch, s.shared.records, s.shared.nextRecord⟩ lineage →
        Tells base' l'.stories ⟨watch, shared'.records, shared'.nextRecord⟩ lineage) :
    WatchInv base' ⟨s.maps.set i pages', shared'⟩ l' := by
  have hi : i < s.maps.length := (List.getElem?_eq_some_iff.1 hpages).1
  refine ⟨?_, hstories, fun lin hlin t ht => ?_, fun j pagesj lin hj hlin => ?_⟩
  · rw [hlineages, List.length_set, List.length_set, h.length]
  · rw [hlineages] at hlin
    rcases List.mem_or_eq_of_mem_set hlin with hlin | rfl
    · exact (h.lineages lin hlin t ht).trans_le htime
    · exact hlineage t ht
  · rw [hlineages, List.getElem?_set] at hlin
    rw [List.getElem?_set] at hj
    by_cases hij : i = j
    · subst hij
      rw [if_pos rfl, if_pos hi] at hj
      rw [if_pos rfl, h.length, if_pos hi] at hlin
      cases hj
      cases hlin
      exact hown
    · rw [if_neg hij] at hj hlin
      exact hothers _ _ (h.lineages lin (List.mem_of_getElem? hlin)) (h.tells j pagesj lin hj hlin)

theorem WatchInv.later (h : WatchInv base s l) : WatchInv base s { l with time := l.time + 1 } :=
  ⟨h.length, fun record t ht => Nat.lt_succ_of_lt (h.stories record t ht),
    fun lin hlin t ht => Nat.lt_succ_of_lt (h.lineages lin hlin t ht), h.tells⟩

theorem Ledger.onOp_changes (l : Ledger) {op : Op} (hop : op.changes = true) (map : ℕ)
    (watch : Option Watch) (nextRecord : ℕ) (before after : ℕ → SharedRecord) :
    l.onOp map watch nextRecord before after op =
      match watch with
      | none => l
      | some watch =>
        if (after watch.record).changes ≠ (before watch.record).changes then
          l.change map watch.record
        else l := by
  cases op with
  | watch | noteChange | detachWatch => cases hop
  | insert | remove | clear | exposeScratch | hideScratch | countChange => rfl

theorem Watching.changes_count (w : Watching) (watch : Watch) :
    ((w.count watch).records watch.record).changes = (w.records watch.record).changes + 1 := by
  rw [Watching.count]
  dsimp only
  rw [update_self]

theorem WatchInv.stories_update (h : WatchInv base s l) (record : ℕ) {story : Story}
    (hstory : ∀ t ∈ story.changes, t ≤ l.time) (r : ℕ) :
    ∀ t ∈ (update l.stories record story r).changes, t < l.time + 1 := by
  intro t ht
  by_cases hr : r = record
  · subst hr
    rw [update_self] at ht
    exact Nat.lt_succ_of_le (hstory t ht)
  · rw [update_of_ne hr] at ht
    exact Nat.lt_succ_of_lt (h.stories r t ht)

section
variable {op : Op} {reply : Option UserPageState} {o' : Owned}

variable (h : WatchInv base s l)
include h

variable (hpages : s.maps[i]? = some pages)
include hpages

section
variable (hlineage : l.lineages[i]? = some lineage)
include hlineage

theorem WatchInv.still
    (hsame : o'.watching = ⟨pages.watch, s.shared.records, s.shared.nextRecord⟩) :
    WatchInv base ⟨s.maps.set i o'.pages, o'.shared⟩ { l with time := l.time + 1 } := by
  have hrecords : o'.shared.records = s.shared.records := congrArg Watching.records hsame
  have hnext : o'.shared.nextRecord = s.shared.nextRecord := congrArg Watching.nextRecord hsame
  refine h.set hpages lineage (Nat.le_succ _) (set_eq_self hlineage).symm h.later.stories
    (h.later.lineages lineage (mem_of_getElem? hlineage)) ?_ ?_
  · show Tells base l.stories o'.watching lineage
    rw [hsame]
    exact h.tells i pages lineage hpages hlineage
  · intro watch lin _ htells
    rw [hrecords, hnext]
    exact htells

theorem WatchInv.counted {watch : Watch} (hwatch : pages.watch = some watch)
    (hcount : o'.watching =
      Watching.count ⟨pages.watch, s.shared.records, s.shared.nextRecord⟩ watch) :
    WatchInv base ⟨s.maps.set i o'.pages, o'.shared⟩
      { l.change i watch.record with time := l.time + 1 } := by
  have hrecords : o'.shared.records = update s.shared.records watch.record
      { s.shared.records watch.record with
        changes := (s.shared.records watch.record).changes + 1 } :=
    congrArg Watching.records hcount
  have hnext : o'.shared.nextRecord = s.shared.nextRecord := congrArg Watching.nextRecord hcount
  have hgetD : l.lineages.getD i [] = lineage := by
    rw [getD_eq_getElem?_getD, hlineage, getD_some]
  have hlin := h.lineages lineage (mem_of_getElem? hlineage)
  have hc : l.time ∉ (l.stories watch.record).changes := fun ht =>
    absurd (h.stories watch.record l.time ht) (lt_irrefl _)
  refine h.set hpages (l.time :: lineage) (Nat.le_succ _) (by rw [← hgetD]; rfl) ?_ ?_ ?_ ?_
  · refine h.stories_update watch.record fun t ht => ?_
    rcases mem_cons.1 ht with rfl | ht
    · exact le_rfl
    · exact (h.stories watch.record t ht).le
  · intro t ht
    rcases mem_cons.1 ht with rfl | ht
    · exact Nat.lt_succ_self _
    · exact Nat.lt_succ_of_lt (hlin t ht)
  · show Tells base _ o'.watching _
    rw [hcount]
    exact (h.tells i pages lineage hpages hlineage).count hwatch hc
      fun ht => absurd (hlin l.time ht) (lt_irrefl _)
  · intro watch' lin hlin htells
    rw [hrecords, hnext]
    exact htells.update fun own htold => htold.other_change hc
      fun ht => absurd (hlin l.time ht) (lt_irrefl _)

theorem WatchInv.noted (record : ℕ) :
    WatchInv base ⟨s.maps.set i pages, { s.shared with
        records := update s.shared.records record
          { s.shared.records record with uncertain := true } }⟩
      { l.setStory record { l.stories record with noted := true } with time := l.time + 1 } := by
  refine h.set hpages lineage (Nat.le_succ _) (set_eq_self hlineage).symm ?_
    (h.later.lineages lineage (mem_of_getElem? hlineage)) ?_ ?_
  · exact h.stories_update record fun t ht => (h.stories record t ht).le
  · exact (h.tells i pages lineage hpages hlineage).update fun own htold => htold.noted
  · intro watch lin _ htells
    exact htells.update fun own htold => htold.noted

end

theorem WatchInv.taken {b : Base}
    {story : Story} {lineage' : List ℕ} {value : SharedRecord} (htold : Told b story lineage' value 0)
    (hstory : ∀ t ∈ story.changes, t ≤ l.time) (hlineage : ∀ t ∈ lineage', t ≤ l.time)
    (first last : ℕ) :
    WatchInv (update base s.shared.nextRecord b)
      ⟨s.maps.set i (Owned.newRecord ⟨pages, s.shared⟩ first last value).pages,
        (Owned.newRecord ⟨pages, s.shared⟩ first last value).shared⟩
      { l.setStory s.shared.nextRecord story with
        lineages := l.lineages.set i lineage', time := l.time + 1 } := by
  refine h.set hpages lineage' (Nat.le_succ _) rfl ?_
    (fun t ht => Nat.lt_succ_of_le (hlineage t ht)) ?_ ?_
  · exact h.stories_update s.shared.nextRecord hstory
  · exact tells_newRecord (w := ⟨pages.watch, s.shared.records, s.shared.nextRecord⟩) htold first last
  · intro watch lin _ htells
    exact htells.newRecord b story value

theorem WatchInv.operate (hrun : op.run ⟨pages, s.shared⟩ = some (reply, o')) :
    ∃ base', WatchInv base' ⟨s.maps.set i o'.pages, o'.shared⟩
      { l.onOp i pages.watch s.shared.nextRecord s.shared.records o'.shared.records op with
        time := l.time + 1 } := by
  obtain ⟨lineage, hlineage⟩ : ∃ lineage, l.lineages[i]? = some lineage := by
    have hi : i < s.maps.length := (List.getElem?_eq_some_iff.1 hpages).1
    rw [← h.length] at hi
    exact ⟨_, List.getElem?_eq_getElem hi⟩
  have hlin := h.lineages lineage (List.mem_of_getElem? hlineage)
  cases hop : op.changes with
  | true =>
    refine ⟨base, ?_⟩
    rw [Ledger.onOp_changes l hop]
    rcases Op.run_watching hop hrun with hsame | ⟨watch, hwatch, hcount⟩
    · have hrecords : o'.shared.records = s.shared.records := congrArg Watching.records hsame
      have hstill := h.still hpages hlineage hsame
      split
      · exact hstill
      · rw [if_neg (by rw [hrecords]; exact fun hne => hne rfl)]
        exact hstill
    · have hrecords := congrArg Watching.records hcount
      have hne : (o'.shared.records watch.record).changes ≠
          (s.shared.records watch.record).changes := by
        rw [show o'.shared.records = _ from hrecords, Watching.changes_count]
        exact Nat.succ_ne_self _
      rw [show pages.watch = some watch from hwatch]
      dsimp only
      rw [if_pos hne]
      exact h.counted hpages hlineage hwatch hcount
  | false =>
    cases op with
    | watch first last =>
      cases hrun
      exact ⟨_, h.taken hpages Told.begun (by simp) (by simp) first last⟩
    | noteChange first last =>
      cases hrun
      refine ⟨base, ?_⟩
      rw [Owned.noteChange]
      rcases hwatch : pages.watch with _ | watch
      · exact h.still hpages hlineage rfl
      · simp only [Ledger.onOp]
        split_ifs with hover
        · exact h.noted hpages hlineage watch.record
        · exact h.still hpages hlineage rfl
    | detachWatch =>
      cases hrun
      rw [Owned.detachWatch]
      rcases hwatch : pages.watch with _ | watch
      · exact ⟨base, h.still hpages hlineage rfl⟩
      · have htold := (h.tells i pages lineage hpages hlineage watch hwatch).2
        have htaken := h.taken hpages htold.detached
          (fun t ht => (h.stories watch.record t ht).le) (fun t ht => (hlin t ht).le)
          watch.first watch.last
        rw [set_eq_self hlineage] at htaken
        exact ⟨_, htaken⟩
    | insert | remove | clear | exposeScratch | hideScratch | countChange => cases hop

end

theorem WatchInv.append (h : WatchInv base s l) {shared' : Shared}
    (hrecords : shared'.records = s.shared.records)
    (hnext : shared'.nextRecord = s.shared.nextRecord) (hlineage : ∀ t ∈ lineage, t < l.time)
    (htells : Tells base l.stories ⟨pages.watch, s.shared.records, s.shared.nextRecord⟩ lineage) :
    WatchInv base ⟨s.maps ++ [pages], shared'⟩ { l with lineages := l.lineages ++ [lineage] } := by
  refine ⟨?_, h.stories, fun lin hlin => ?_, fun j pagesj lin hj hlin => ?_⟩
  · rw [length_append, length_append, h.length]
    rfl
  · rcases mem_append.1 hlin with hlin | hlin
    · exact h.lineages lin hlin
    · obtain rfl := mem_singleton.1 hlin
      exact hlineage
  · rw [hrecords, hnext]
    rcases Nat.lt_or_ge j s.maps.length with hlt | hge
    · rw [getElem?_append_left hlt] at hj
      rw [getElem?_append_left (h.length ▸ hlt)] at hlin
      exact h.tells j pagesj lin hj hlin
    · rw [getElem?_append_right hge] at hj
      rw [getElem?_append_right (h.length ▸ hge)] at hlin
      obtain rfl : pagesj = pages := mem_singleton.1 (mem_of_getElem? hj)
      obtain rfl : lin = lineage := mem_singleton.1 (mem_of_getElem? hlin)
      exact htells

theorem WatchInv.step (h : WatchInv base s l) {act : Act} {reply : Option UserPageState}
    {s' : System} (hstep : s.step act = some (reply, s')) :
    ∃ base', WatchInv base' s' { l.onAct s s' act with time := l.time + 1 } := by
  cases act with
  | new =>
    cases hstep
    refine ⟨base, h.later.append rfl rfl (fun t ht => absurd ht List.not_mem_nil) ?_⟩
    intro watch hwatch
    cases hwatch
  | clone map =>
    cases hstep
    refine ⟨base, ?_⟩
    rw [Ledger.onAct]
    rcases hpages : s.maps[map]? with _ | pages
    · have hnone : l.lineages[map]? = none := by
        rw [List.getElem?_eq_none_iff] at hpages ⊢
        exact h.length ▸ hpages
      rw [hnone, Option.toList_none, Option.toList_none, List.append_nil, List.append_nil]
      exact h.later
    · have hlt : map < l.lineages.length := h.length ▸ (List.getElem?_eq_some_iff.1 hpages).1
      have hlineage : l.lineages[map]? = some l.lineages[map] := List.getElem?_eq_getElem hlt
      rw [hlineage]
      exact h.later.append rfl rfl (h.later.lineages _ (List.getElem_mem hlt))
        (h.tells map pages _ hpages hlineage)
  | op map op =>
    rw [System.step] at hstep
    rw [Ledger.onAct]
    rcases hpages : s.maps[map]? with _ | pages <;> rw [hpages] at hstep
    · cases hstep
      exact ⟨base, h.later⟩
    · obtain ⟨⟨reply', o'⟩, hrun, heq⟩ := Option.map_eq_some_iff.1 hstep
      cases heq
      exact h.operate hpages hrun

end

/-! ## Versions -/

/-- Every version had one tree: `seen`. -/
structure VersionInv (seen : ℕ → Tree) (s : System) : Prop where
  drawn : ∀ pages ∈ s.maps, pages.map.version < s.shared.nextVersion
  same : ∀ pages ∈ s.maps, pages.map.inner = seen pages.map.version

/-- What was seen stays, and versions are drawn in order. -/
structure Keeps (seen seen' : ℕ → Tree) (next next' : ℕ) : Prop where
  seen : ∀ version < next, seen' version = seen version
  next : next ≤ next'

theorem Keeps.trans {seen₁ seen₂ seen₃ : ℕ → Tree} {next₁ next₂ next₃ : ℕ}
    (h : Keeps seen₁ seen₂ next₁ next₂) (h' : Keeps seen₂ seen₃ next₂ next₃) :
    Keeps seen₁ seen₃ next₁ next₃ :=
  ⟨fun version hlt => (h'.seen version (hlt.trans_le h.next)).trans (h.seen version hlt),
    h.next.trans h'.next⟩

section
variable {seen : ℕ → Tree} {s : System} {maps' : List UserPages} {shared' : Shared}

theorem VersionInv.kept (h : VersionInv seen s) (hmaps : ∀ p ∈ maps', ∃ q ∈ s.maps, p.map = q.map)
    (hnext : shared'.nextVersion = s.shared.nextVersion) :
    VersionInv seen ⟨maps', shared'⟩ ∧
      Keeps seen seen s.shared.nextVersion shared'.nextVersion := by
  refine ⟨⟨fun p hp => ?_, fun p hp => ?_⟩, fun _ _ => rfl, hnext.ge⟩
  · obtain ⟨q, hq, hmap⟩ := hmaps p hp
    rw [hmap]
    exact (h.drawn q hq).trans_le hnext.ge
  · obtain ⟨q, hq, hmap⟩ := hmaps p hp
    rw [hmap]
    exact h.same q hq

theorem VersionInv.fresh (h : VersionInv seen s) (tree : Tree)
    (hmaps : ∀ p ∈ maps', p ∈ s.maps ∨ p.map = ⟨tree, s.shared.nextVersion⟩)
    (hnext : shared'.nextVersion = s.shared.nextVersion + 1) :
    ∃ seen', VersionInv seen' ⟨maps', shared'⟩ ∧
      Keeps seen seen' s.shared.nextVersion shared'.nextVersion := by
  refine ⟨update seen s.shared.nextVersion tree, ⟨fun p hp => ?_, fun p hp => ?_⟩,
    fun version hlt => update_of_ne hlt.ne _ _, hnext ▸ Nat.le_succ _⟩
  · rw [hnext]
    rcases hmaps p hp with hp | hmap
    · exact Nat.lt_succ_of_lt (h.drawn p hp)
    · rw [hmap]
      exact Nat.lt_succ_self _
  · rcases hmaps p hp with hp | hmap
    · rw [update_of_ne (h.drawn p hp).ne]
      exact h.same p hp
    · rw [hmap, update_self]

theorem VersionInv.step {s' : System} (h : VersionInv seen s) {act : Act}
    {reply : Option UserPageState} (hstep : s.step act = some (reply, s')) :
    ∃ seen', VersionInv seen' s' ∧
      Keeps seen seen' s.shared.nextVersion s'.shared.nextVersion := by
  cases act with
  | new =>
    cases hstep
    refine h.fresh ∅ (fun p hp => ?_) rfl
    rcases mem_append.1 hp with hp | hp
    · exact Or.inl hp
    · rw [mem_singleton.1 hp]
      exact Or.inr rfl
  | clone map =>
    cases hstep
    refine ⟨seen, h.kept (fun p hp => ⟨p, ?_, rfl⟩) rfl⟩
    rcases mem_append.1 hp with hp | hp
    · exact hp
    · exact mem_of_getElem? (mem_toList.1 hp)
  | op map op =>
    rw [System.step] at hstep
    rcases hpages : s.maps[map]? with _ | pages <;> rw [hpages] at hstep
    · cases hstep
      exact ⟨seen, h.kept (fun p hp => ⟨p, hp, rfl⟩) rfl⟩
    · obtain ⟨⟨reply', o'⟩, hrun, heq⟩ := map_eq_some_iff.1 hstep
      cases heq
      rcases Op.run_drawn hrun with hsame | ⟨tree, hnew⟩
      · refine ⟨seen, h.kept (fun p hp => ?_) (congrArg Prod.snd hsame)⟩
        rcases mem_or_eq_of_mem_set hp with hp | rfl
        · exact ⟨p, hp, rfl⟩
        · exact ⟨pages, mem_of_getElem? hpages, congrArg Prod.fst hsame⟩
      · refine h.fresh tree (fun p hp => ?_) (congrArg Prod.snd hnew)
        rcases mem_or_eq_of_mem_set hp with hp | rfl
        · exact Or.inl hp
        · exact Or.inr (congrArg Prod.fst hnew)

end

/-! ## Histories -/

theorem System.run_cons {act : Act} {acts : List Act} {s s' : System}
    {replies : List (Option UserPageState)} (h : s.run (act :: acts) = some (replies, s')) :
    ∃ reply s₁ rest, s.step act = some (reply, s₁) ∧ s₁.run acts = some (rest, s') := by
  obtain ⟨⟨reply, s₁⟩, hstep, hrest⟩ := bind_eq_some_iff.1 h
  obtain ⟨⟨rest, s₂⟩, hrun, heq⟩ := map_eq_some_iff.1 hrest
  cases heq
  exact ⟨reply, s₁, rest, hstep, hrun⟩

theorem WatchInv.run (acts : List Act) : ∀ {base : ℕ → Base} {s s' : System} {l : Ledger}
    {replies : List (Option UserPageState)}, WatchInv base s l →
      s.run acts = some (replies, s') → ∃ base', WatchInv base' s' (Ledger.ofRun acts s l) := by
  induction acts with
  | nil =>
    intro base s s' l replies h hrun
    cases hrun
    exact ⟨base, h⟩
  | cons act acts ih =>
    intro base s s' l replies h hrun
    obtain ⟨reply, s₁, rest, hstep, hrest⟩ := System.run_cons hrun
    obtain ⟨base₁, h₁⟩ := h.step hstep
    rw [Ledger.ofRun, hstep]
    exact ih h₁ hrest

theorem VersionInv.run (acts : List Act) : ∀ {seen : ℕ → Tree} {s s' : System}
    {replies : List (Option UserPageState)}, VersionInv seen s → s.run acts = some (replies, s') →
      ∃ seen', VersionInv seen' s' ∧
        Keeps seen seen' s.shared.nextVersion s'.shared.nextVersion := by
  induction acts with
  | nil =>
    intro seen s s' replies h hrun
    cases hrun
    exact ⟨seen, h, fun _ _ => rfl, le_rfl⟩
  | cons act acts ih =>
    intro seen s s' replies h hrun
    obtain ⟨reply, s₁, rest, hstep, hrest⟩ := System.run_cons hrun
    obtain ⟨seen₁, h₁, hkeeps₁⟩ := h.step hstep
    obtain ⟨seen', h', hkeeps'⟩ := ih h₁ hrest
    exact ⟨seen', h', hkeeps₁.trans hkeeps'⟩

theorem watchInv_new : WatchInv (fun _ => {}) System.new {} := by
  refine ⟨rfl, fun _ t ht => absurd ht not_mem_nil, fun _ h => absurd h not_mem_nil,
    fun i pages lineage hpages => ?_⟩
  cases hpages

theorem versionInv_new (seen : ℕ → Tree) : VersionInv seen System.new :=
  ⟨fun _ h => absurd h not_mem_nil, fun _ h => absurd h not_mem_nil⟩

theorem Owned.certainWatch_eq_some {o : Owned} {first last : ℕ} :
    o.certainWatch = some (first, last) ↔ ∃ watch, o.pages.watch = some watch ∧
      watch.first = first ∧ watch.last = last ∧ watch.certain o.shared = true := by
  rw [certainWatch]
  constructor
  · intro h
    obtain ⟨watch, hfilter, heq⟩ := map_eq_some_iff.1 h
    obtain ⟨hwatch, hcertain⟩ := filter_eq_some_iff.1 hfilter
    cases heq
    exact ⟨watch, hwatch, rfl, rfl, hcertain⟩
  · rintro ⟨watch, hwatch, rfl, rfl, hcertain⟩
    rw [map_eq_some_iff]
    exact ⟨watch, filter_eq_some_iff.2 ⟨hwatch, hcertain⟩, rfl⟩

/-- **The certainty of a watch is exact.**  After any history a map's watch is certain
    exactly if nothing was noted in its record since it began, and every change counted
    there was made on the map, or on the one it was cloned from before the clone.  A map of
    any time and a map of a later one with the same version have the same tree. -/
theorem watch_certain_exact (acts : List Act) {replies : List (Option UserPageState)} {s : System}
    (hrun : System.new.run acts = some (replies, s)) :
    (∀ (map : ℕ) (pages : UserPages), s.maps[map]? = some pages →
      ∃ lineage, (Ledger.ofRun acts System.new {}).lineages[map]? = some lineage ∧
        ∀ first last, Owned.certainWatch ⟨pages, s.shared⟩ = some (first, last) ↔
          ∃ watch, pages.watch = some watch ∧ watch.first = first ∧ watch.last = last ∧
            ((Ledger.ofRun acts System.new {}).stories watch.record).noted = false ∧
            ∀ t ∈ ((Ledger.ofRun acts System.new {}).stories watch.record).changes, t ∈ lineage) ∧
    (∀ later replies' s', s.run later = some (replies', s') →
      ∀ pages ∈ s.maps, ∀ pages' ∈ s'.maps, pages.mapVersion = pages'.mapVersion →
        pages.map.inner = pages'.map.inner) := by
  constructor
  · intro map pages hpages
    obtain ⟨base, h⟩ := WatchInv.run acts watchInv_new hrun
    have hlt : map < (Ledger.ofRun acts System.new {}).lineages.length :=
      h.length ▸ (List.getElem?_eq_some_iff.1 hpages).1
    refine ⟨_, List.getElem?_eq_getElem hlt, fun first last => ?_⟩
    rw [Owned.certainWatch_eq_some]
    refine exists_congr fun watch => and_congr_right fun hwatch => ?_
    have htold := (h.tells map pages _ hpages (List.getElem?_eq_getElem hlt) watch hwatch).2
    exact and_congr_right fun _ => and_congr_right fun _ => htold.certain_iff
  · intro later replies' s' hlater pages hpages pages' hpages' hversion
    obtain ⟨seen, h, -⟩ := VersionInv.run acts (versionInv_new fun _ => ∅) hrun
    obtain ⟨seen', h', hkeeps⟩ := VersionInv.run later h hlater
    have hversion' : pages.map.version = pages'.map.version := hversion
    rw [h.same pages hpages, h'.same pages' hpages', ← hversion',
      hkeeps.seen _ (h.drawn pages hpages)]

/-- A watched map, and its clone that changes a watched page. -/
theorem watch_certain_exact_sample :
    ∃ replies s pages clone,
      System.new.run [.new, .op 0 (.watch 4 6), .clone 0, .op 1 (.exposeScratch 5 false)] =
        some (replies, s) ∧ s.maps = [pages, clone] ∧
      Owned.certainWatch ⟨pages, s.shared⟩ = none ∧
      Owned.certainWatch ⟨clone, s.shared⟩ = some (4, 6) ∧
      ∀ later replies' s', s.run later = some (replies', s') →
        ∀ pages ∈ s.maps, ∀ pages' ∈ s'.maps, pages.mapVersion = pages'.mapVersion →
          pages.map.inner = pages'.map.inner :=
  ⟨_, _, _, _, rfl, rfl, rfl, rfl, (watch_certain_exact [.new, .op 0 (.watch 4 6), .clone 0,
    .op 1 (.exposeScratch 5 false)] rfl).2⟩

/-! ## Changes of watched pages -/

section
variable {o o' : Owned} {m : Tree} {watch : Watch} (hwatch : o.pages.watch = some watch)
include hwatch

theorem Owned.countChange_counted {first last : ℕ} (hover : watch.overlaps first last = true)
    (hsame : o'.watching = o.watching) :
    (o'.countChange first last).watching = o.watching.count watch := by
  have hwatch' : o'.pages.watch = some watch := (congrArg Watching.watch hsame).trans hwatch
  rw [countChange, hwatch', ← hsame]
  dsimp only
  rw [if_pos hover]
  rfl

theorem Owned.clear_counted (h : o.pages.Refines m) {page : ℕ} (hpage : m[page]? ≠ none)
    (hin : watch.first ≤ page ∧ page ≤ watch.last) (hclear : o.clear = some o') :
    o'.watching = o.watching.count watch := by
  have hle : watch.first ≤ watch.last := hin.1.trans hin.2
  obtain ⟨counted, hcount, rfl⟩ := map_eq_some_iff.1 hclear
  obtain ⟨it, hit, hat⟩ := h.range_at ⟨.included watch.first, .included watch.last⟩
    (decide_eq_false (Nat.not_lt.2 hle))
  -- the range has the page, so its iterator gives an entry
  obtain ⟨state, hstate⟩ := ne_none_iff_exists'.1 hpage
  have hmem : (page, state) ∈ m.toList.filter fun entry =>
      PageRange.contains ⟨.included watch.first, .included watch.last⟩ entry.1 := by
    refine mem_filter.2 ⟨Std.TreeMap.mem_toList_iff_getElem?_eq_some.2 hstate, ?_⟩
    simpa [PageRange.contains, Bound.before, Bound.upTo] using hin
  have hnext : it.next.1.isSome = true := by
    rw [(Iter.next_at hat).1]
    obtain ⟨entry, rest, hentries⟩ := exists_cons_of_ne_nil (ne_nil_of_mem hmem)
    rw [hentries]
    rfl
  rw [countClear, hwatch] at hcount
  dsimp only at hcount
  rw [hit, map_some, if_pos hnext] at hcount
  cases hcount
  exact countChange_counted hwatch (by simpa [Watch.overlaps] using hle) (by rfl)

section
variable (h : o.pages.Refines m) {page : ℕ} (hover : watch.overlaps page page = true)
include h hover

theorem Owned.insert_counted {state : UserPageState} (hne : m[page]? ≠ some state) :
    (o.insert page state).2.watching = o.watching.count watch := by
  rw [insert, takeScratch_eq h]
  dsimp only
  rw [if_pos]
  · exact countChange_counted hwatch hover (by rfl)
  · exact fun heq => hne ((previous_eq h page).symm.trans heq)

theorem Owned.remove_counted (hne : m[page]? ≠ none) :
    (o.remove page).2.watching = o.watching.count watch := by
  rw [h.lookup] at hne
  rw [remove, takeScratch_eq h]
  by_cases hmem : page ∈ o.pages.scratch
  · simp only [decide_eq_true hmem, if_true]
    exact countChange_counted hwatch hover (by rfl)
  · rw [if_neg hmem] at hne
    have hsome : (o.setScratch (o.pages.scratch.erase page)).pages.map.inner[page]?.isSome = true :=
      isSome_iff_ne_none.2 hne
    simp only [decide_eq_false hmem, Bool.false_eq_true, if_false, if_pos hsome]
    exact countChange_counted hwatch hover (by rfl)

theorem Owned.exposeScratch_counted {knownAbsent : Bool} (hne : m[page]? ≠ some EXPOSED) :
    (o.exposeScratch page knownAbsent).watching = o.watching.count watch := by
  rw [h.lookup] at hne
  have hmem : page ∉ o.pages.scratch := fun hmem => hne (if_pos hmem)
  rw [if_neg hmem] at hne
  rw [exposeScratch, UserPages.scratchIndex, Ascending.binarySearch, if_neg hmem]
  have hprevious :
      (if (!knownAbsent) = true then o.pages.map.inner[page]? else none) ≠ some EXPOSED := by
    cases knownAbsent with
    | true => simp
    | false => exact hne
  generalize (if (!knownAbsent) = true then o.pages.map.inner[page]? else none) = previous at hprevious
  dsimp only
  rw [if_pos hprevious]
  split_ifs
  · exact countChange_counted hwatch hover (by rfl)
  · exact countChange_counted hwatch hover (by rfl)

theorem Owned.hideScratch_counted {knownAbsent : Bool}
    (hfact : knownAbsent = true → o.pages.map.inner[page]? = none) (hne : m[page]? ≠ none) :
    (o.hideScratch page knownAbsent).watching = o.watching.count watch := by
  rw [h.lookup] at hne
  rw [hideScratch, takeScratch_eq h]
  by_cases hmem : page ∈ o.pages.scratch
  · simp only [decide_eq_true hmem, if_true]
    exact countChange_counted hwatch hover (by rfl)
  · rw [if_neg hmem] at hne
    have hcontains : (o.setScratch (o.pages.scratch.erase page)).pages.map.inner.contains page := by
      rw [Std.TreeMap.contains_eq_isSome_getElem?]
      exact isSome_iff_ne_none.2 hne
    simp only [decide_eq_false hmem, Bool.false_eq_true, if_false, if_pos hcontains,
      if_neg fun hknown => hne (hfact hknown)]
    exact countChange_counted hwatch hover (by rfl)

end

theorem Op.run_counted {op : Op} {reply : Option UserPageState} (h : o.pages.Refines m)
    (hfact : op.Fact o.pages) (hrun : op.run o = some (reply, o')) {page : ℕ}
    (hin : watch.first ≤ page ∧ page ≤ watch.last) (hchanged : o'.pages.get page ≠ o.pages.get page) :
    op.changes = true ∧ o'.watching = o.watching.count watch := by
  have hover : watch.overlaps page page = true := by
    simpa [Watch.overlaps] using And.symm hin
  rw [(Op.run_refines h hfact hrun).2.agrees.get, h.agrees.get] at hchanged
  -- a lookup that an operation changes is one of the page that it is about
  have hinsert {q : ℕ} {state : UserPageState} (hne : (m.insert q state)[page]? ≠ m[page]?) :
      q = page ∧ m[page]? ≠ some state := by
    rw [Table.getElem?_insert, ite_ne_right_iff] at hne
    exact ⟨hne.1, hne.2.symm⟩
  have herase {q : ℕ} (hne : (m.erase q)[page]? ≠ m[page]?) : q = page ∧ m[page]? ≠ none := by
    rw [Table.getElem?_erase, ite_ne_right_iff] at hne
    exact ⟨hne.1, hne.2.symm⟩
  cases op with
  | insert q state =>
    obtain ⟨rfl, hne⟩ := hinsert hchanged
    have hcount := Owned.insert_counted hwatch h hover hne
    rw [show o.insert q state = (reply, o') from Option.some.inj hrun] at hcount
    exact ⟨rfl, hcount⟩
  | remove q =>
    obtain ⟨rfl, hne⟩ := herase hchanged
    have hcount := Owned.remove_counted hwatch h hover hne
    rw [show o.remove q = (reply, o') from Option.some.inj hrun] at hcount
    exact ⟨rfl, hcount⟩
  | clear =>
    obtain ⟨cleared, hclear, heq⟩ := map_eq_some_iff.1 hrun
    cases heq
    exact ⟨rfl, Owned.clear_counted hwatch h (fun hnone => hchanged hnone.symm) hin hclear⟩
  | exposeScratch q knownAbsent =>
    obtain ⟨rfl, hne⟩ := hinsert hchanged
    cases hrun
    exact ⟨rfl, Owned.exposeScratch_counted hwatch h hover hne⟩
  | hideScratch q knownAbsent =>
    obtain ⟨rfl, hne⟩ := herase hchanged
    cases hrun
    refine ⟨rfl, Owned.hideScratch_counted hwatch h hover ?_ hne⟩
    rintro rfl
    exact hfact
  | watch | noteChange | countChange | detachWatch => exact absurd rfl hchanged

end

/-- **Every change of a watched page is counted**, after any history, in the record and as one
    of the map's own. -/
theorem watched_change_counted (acts : List Act) (hfacts : System.Facts acts System.new)
    (hordered : ∀ map first last, Act.op map (.watch first last) ∈ acts → first ≤ last)
    {replies : List (Option UserPageState)} {s s' : System}
    (hrun : System.new.run acts = some (replies, s)) {map : ℕ} {op : Op}
    {reply : Option UserPageState} (hstep : s.step (.op map op) = some (reply, s'))
    {pages pages' : UserPages} (hpages : s.maps[map]? = some pages) (hfact : op.Fact pages)
    (hpages' : s'.maps[map]? = some pages') {watch : Watch} (hwatch : pages.watch = some watch)
    {page : ℕ} (hin : watch.first ≤ page ∧ page ≤ watch.last)
    (hchanged : pages'.get page ≠ pages.get page) (l : Ledger) :
    pages'.watch = some { watch with own := watch.own + 1 } ∧
      l.onAct s s' (.op map op) = l.change map watch.record := by
  obtain ⟨_, hrun', hstands⟩ :=
    System.run_stands acts (s := System.new) List.Forall₂.nil hfacts hordered
  cases hrun.symm.trans hrun'
  have hat := forall₂_getElem? hstands map
  rw [hpages] at hat
  obtain ⟨m, _, ⟨hrefines, -⟩, -, -⟩ := forall₂_cons_left_iff.1 hat
  rw [System.step, hpages] at hstep
  obtain ⟨⟨reply', o'⟩, hop, heq⟩ := map_eq_some_iff.1 hstep
  cases heq
  have hlt := (List.getElem?_eq_some_iff.1 hpages).1
  rw [getElem?_set_self hlt] at hpages'
  cases hpages'
  obtain ⟨hchanges, hcount⟩ := Op.run_counted (o := ⟨pages, s.shared⟩) hwatch hrefines hfact hop hin
    hchanged
  have hown : o'.watching.watch = some { watch with own := watch.own + 1 } := by
    rw [hcount]
    rfl
  have hrecord : (o'.shared.records watch.record).changes ≠
      (s.shared.records watch.record).changes := by
    have hrecords : o'.shared.records = ((Owned.mk pages s.shared).watching.count watch).records :=
      congrArg Watching.records hcount
    rw [hrecords]
    simp [Watching.count, Owned.watching]
  refine ⟨hown, ?_⟩
  rw [Ledger.onAct, hpages]
  dsimp only
  cases op with
  | watch | noteChange | detachWatch => cases hchanges
  | insert | remove | clear | exposeScratch | hideScratch | countChange =>
    simp only [Ledger.onOp, hwatch]
    exact if_pos hrecord

end Reverie.PageMaps
