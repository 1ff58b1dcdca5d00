/-
  The page-keyed access maps (`page_maps.rs`).  The iterator merges the entries of tree and
  overlay from both ends; an entry taken from the tree and not yet yielded waits in `front`
  or `back`.  `BTreeMap::range` panics on an inverted range; a panic is `none`.
-/
import Reverie.Lib.Ascending
import Reverie.Lib.DoubleEnded
import Reverie.Memory.AddressSpace

namespace Reverie.PageMaps

open Memory (UserPageState EXPOSED Versioned)
open Ascending (partitionPoint binarySearch)
open DoubleEnded (End)

/-- The pages in the tree. -/
abbrev Tree := Std.TreeMap ℕ UserPageState

/-- A page and its state. -/
abbrev Entry := ℕ × UserPageState

/-! ## Ranges -/

/-- A bound of a range. -/
inductive Bound where
  | included (page : ℕ)
  | excluded (page : ℕ)
  | unbounded

/-- Whether a page is before a start bound. -/
def Bound.before : Bound → ℕ → Bool
  | .included start, page => page < start
  | .excluded start, page => page ≤ start
  | .unbounded, _ => false

/-- Whether a page is not after an end bound. -/
def Bound.upTo : Bound → ℕ → Bool
  | .included stop, page => page ≤ stop
  | .excluded stop, page => page < stop
  | .unbounded, _ => true

/-- A range of pages. -/
structure PageRange where
  start : Bound
  stop : Bound

def PageRange.contains (range : PageRange) (page : ℕ) : Bool :=
  !range.start.before page && range.stop.upTo page

/-- A range that `BTreeMap::range` panics on. -/
def PageRange.inverted : PageRange → Bool
  | ⟨.excluded start, .excluded stop⟩ => stop ≤ start
  | ⟨.excluded start, .included stop⟩ | ⟨.included start, .excluded stop⟩
  | ⟨.included start, .included stop⟩ => stop < start
  | ⟨.unbounded, _⟩ | ⟨_, .unbounded⟩ => false

def PageRange.full : PageRange := ⟨.unbounded, .unbounded⟩

/-- `BTreeMap::range`: the entries of a range, ascending. -/
def treeRange (tree : Tree) (range : PageRange) : Option (List Entry) :=
  if range.inverted then none else some (tree.toList.filter fun entry => range.contains entry.1)

/-! ## The merging iterator -/

/-- The iterator over tree and overlay. -/
structure Iter where
  tree : List Entry
  scratch : List ℕ
  front : Option Entry
  back : Option Entry

/-- Takes an entry of the tree from the front, or the one taken from the back. -/
def Iter.fillFront (it : Iter) : Iter :=
  match it.front, it.tree with
  | some _, _ => it
  | none, entry :: tree => { it with front := some entry, tree := tree }
  | none, [] => { it with front := it.back, back := none }

def Iter.next (it : Iter) : Option Entry × Iter :=
  match it.fillFront.front, it.fillFront.scratch with
  | some (page, state), exposed :: scratch =>
    if exposed < page then (some (exposed, EXPOSED), { it.fillFront with scratch := scratch })
    else (some (page, state), { it.fillFront with front := none })
  | some entry, [] => (some entry, { it.fillFront with front := none })
  | none, exposed :: scratch => (some (exposed, EXPOSED), { it.fillFront with scratch := scratch })
  | none, [] => (none, it.fillFront)

/-- Takes an entry of the tree from the back, or the one taken from the front. -/
def Iter.fillBack (it : Iter) : Iter :=
  match it.back, it.tree.getLast? with
  | some _, _ => it
  | none, some entry => { it with back := some entry, tree := it.tree.dropLast }
  | none, none => { it with back := it.front, front := none }

def Iter.nextBack (it : Iter) : Option Entry × Iter :=
  match it.fillBack.back, it.fillBack.scratch.getLast? with
  | some (page, state), some exposed =>
    if page < exposed then
      (some (exposed, EXPOSED), { it.fillBack with scratch := it.fillBack.scratch.dropLast })
    else (some (page, state), { it.fillBack with back := none })
  | some entry, none => (some entry, { it.fillBack with back := none })
  | none, some exposed =>
    (some (exposed, EXPOSED), { it.fillBack with scratch := it.fillBack.scratch.dropLast })
  | none, none => (none, it.fillBack)

def Iter.step : End → Iter → Option Entry × Iter
  | .front => Iter.next
  | .back => Iter.nextBack

/-! ## The map -/

/-- A watch: its pages, the record it shares, and how many of the record's changes this map
    made. -/
structure Watch where
  first : ℕ
  last : ℕ
  record : ℕ
  own : ℕ

/-- What clones share of a watch. -/
structure SharedRecord where
  changes : ℕ := 0
  uncertain : Bool := false

/-- A tree, the exposed pages over it, and a watch. -/
structure UserPages where
  map : Versioned Tree
  scratch : List ℕ
  watch : Option Watch

namespace UserPages

variable (pages : UserPages)

def scratchIndex (page : ℕ) : Except ℕ ℕ := binarySearch page pages.scratch

def get (page : ℕ) : Option UserPageState :=
  if !pages.scratch.isEmpty && (pages.scratchIndex page).isOk then some EXPOSED
  else pages.map.inner[page]?

def containsKey (page : ℕ) : Bool := (pages.get page).isSome

def len : ℕ := pages.map.inner.size + pages.scratch.length

def mapVersion : ℕ := pages.map.version

/-- The overlay's part of a range. -/
def scratchRange (range : PageRange) : List ℕ :=
  (pages.scratch.take (max (partitionPoint range.stop.upTo pages.scratch)
    (partitionPoint range.start.before pages.scratch))).drop
      (partitionPoint range.start.before pages.scratch)

def range (pages : UserPages) (range : PageRange) : Option Iter :=
  (treeRange pages.map.inner range).map fun tree => ⟨tree, pages.scratchRange range, none, none⟩

def iter : Option Iter := pages.range .full

end UserPages

/-- What maps have in common. -/
structure Shared where
  nextVersion : ℕ
  records : ℕ → SharedRecord
  nextRecord : ℕ

/-- A map, with what it has in common with others. -/
structure Owned where
  pages : UserPages
  shared : Shared

def Watch.certain (watch : Watch) (shared : Shared) : Bool :=
  !(shared.records watch.record).uncertain && (shared.records watch.record).changes == watch.own

def Watch.overlaps (watch : Watch) (first last : ℕ) : Bool :=
  first ≤ watch.last && watch.first ≤ last

/-- `UserPages::new`. -/
def Shared.newPages (shared : Shared) : Owned :=
  ⟨⟨⟨∅, shared.nextVersion⟩, [], none⟩, { shared with nextVersion := shared.nextVersion + 1 }⟩

namespace Owned

variable (o : Owned)

/-- An edit of the tree, through `Versioned::edit`. -/
def edit (f : Tree → Tree) : Owned :=
  ⟨{ o.pages with map := ⟨f o.pages.map.inner, o.shared.nextVersion⟩ },
    { o.shared with nextVersion := o.shared.nextVersion + 1 }⟩

def setScratch (scratch : List ℕ) : Owned :=
  { o with pages := { o.pages with scratch := scratch } }

def setWatch (watch : Watch) : Owned :=
  { o with pages := { o.pages with watch := some watch } }

def setRecord (record : ℕ) (value : SharedRecord) : Owned :=
  { o with shared := { o.shared with records := Function.update o.shared.records record value } }

/-- A watch with a record of its own. -/
def newRecord (first last : ℕ) (value : SharedRecord) : Owned :=
  ⟨{ o.pages with watch := some ⟨first, last, o.shared.nextRecord, 0⟩ },
    { o.shared with
      records := Function.update o.shared.records o.shared.nextRecord value
      nextRecord := o.shared.nextRecord + 1 }⟩

def watch (first last : ℕ) : Owned := o.newRecord first last {}

def certainWatch : Option (ℕ × ℕ) :=
  (o.pages.watch.filter fun watch => watch.certain o.shared).map fun watch =>
    (watch.first, watch.last)

def noteChange (first last : ℕ) : Owned :=
  match o.pages.watch with
  | none => o
  | some watch =>
    if watch.overlaps first last then
      o.setRecord watch.record { o.shared.records watch.record with uncertain := true }
    else o

def countChange (first last : ℕ) : Owned :=
  match o.pages.watch with
  | none => o
  | some watch =>
    if watch.overlaps first last then
      (o.setRecord watch.record
        { o.shared.records watch.record with
          changes := (o.shared.records watch.record).changes + 1 }).setWatch
        { watch with own := watch.own + 1 }
    else o

def detachWatch : Owned :=
  match o.pages.watch with
  | none => o
  | some watch => o.newRecord watch.first watch.last { uncertain := !watch.certain o.shared }

/-- Whether the page was exposed, and the map without it in the overlay. -/
def takeScratch (page : ℕ) : Bool × Owned :=
  match o.pages.scratchIndex page with
  | .ok index => (true, o.setScratch (o.pages.scratch.eraseIdx index))
  | .error _ => (false, o)

def insert (o : Owned) (page : ℕ) (state : UserPageState) : Option UserPageState × Owned :=
  let (exposed, taken) := o.takeScratch page
  let previous := if exposed then some EXPOSED else taken.pages.map.inner[page]?
  let edited := taken.edit (·.insert page state)
  (previous, if previous ≠ some state then edited.countChange page page else edited)

def remove (page : ℕ) : Option UserPageState × Owned :=
  let (exposed, taken) := o.takeScratch page
  if exposed then (some EXPOSED, taken.countChange page page)
  else
    let previous := taken.pages.map.inner[page]?
    let edited := taken.edit (·.erase page)
    (previous, if previous.isSome then edited.countChange page page else edited)

/-- Counts a clear, if a watched page is mapped. -/
def countClear : Option Owned :=
  match o.pages.watch with
  | none => some o
  | some watch => (o.pages.range ⟨.included watch.first, .included watch.last⟩).map fun it =>
    if it.next.1.isSome then o.countChange watch.first watch.last else o

def clear : Option Owned :=
  o.countClear.map fun o => (o.setScratch []).edit fun _ => ∅

def exposeScratch (page : ℕ) (knownAbsent : Bool) : Owned :=
  match o.pages.scratchIndex page with
  | .ok _ => o
  | .error index =>
    let previous := if !knownAbsent then o.pages.map.inner[page]? else none
    let edited := if previous.isSome then o.edit (·.erase page) else o
    let exposed := edited.setScratch (edited.pages.scratch.insertIdx index page)
    if previous ≠ some EXPOSED then exposed.countChange page page else exposed

def hideScratch (page : ℕ) (knownAbsent : Bool) : Owned :=
  let (exposed, taken) := o.takeScratch page
  if exposed then taken.countChange page page
  else if knownAbsent then taken
  else if taken.pages.map.inner.contains page then (taken.edit (·.erase page)).countChange page page
  else taken

end Owned

/-! ## Histories -/

/-- The operations on a map. -/
inductive Op where
  | insert (page : ℕ) (state : UserPageState)
  | remove (page : ℕ)
  | clear
  | exposeScratch (page : ℕ) (knownAbsent : Bool)
  | hideScratch (page : ℕ) (knownAbsent : Bool)
  | watch (first last : ℕ)
  | noteChange (first last : ℕ)
  | countChange (first last : ℕ)
  | detachWatch

/-- What an operation returns, and the map after it. -/
def Op.run : Op → Owned → Option (Option UserPageState × Owned)
  | .insert page state, o => some (o.insert page state)
  | .remove page, o => some (o.remove page)
  | .clear, o => o.clear.map (none, ·)
  | .exposeScratch page knownAbsent, o => some (none, o.exposeScratch page knownAbsent)
  | .hideScratch page knownAbsent, o => some (none, o.hideScratch page knownAbsent)
  | .watch first last, o => some (none, o.watch first last)
  | .noteChange first last, o => some (none, o.noteChange first last)
  | .countChange first last, o => some (none, o.countChange first last)
  | .detachWatch, o => some (none, o.detachWatch)

/-- What is done with maps. -/
inductive Act where
  | new
  | clone (map : ℕ)
  | op (map : ℕ) (op : Op)

/-- Maps, each under its number, and what they have in common. -/
structure System where
  maps : List UserPages
  shared : Shared

/-- `NEXT_VERSION` starts at one. -/
def System.new : System := ⟨[], ⟨1, fun _ => {}, 0⟩⟩

/-- An act on a map that does not exist does nothing. -/
def System.step (s : System) : Act → Option (Option UserPageState × System)
  | .new => some (none, ⟨s.maps ++ [s.shared.newPages.pages], s.shared.newPages.shared⟩)
  | .clone map => some (none, { s with maps := s.maps ++ s.maps[map]?.toList })
  | .op map op =>
    match s.maps[map]? with
    | none => some (none, s)
    | some pages => (op.run ⟨pages, s.shared⟩).map fun result =>
      (result.1, ⟨s.maps.set map result.2.pages, result.2.shared⟩)

/-- What each act returned, and the maps after all of them. -/
def System.run : List Act → System → Option (List (Option UserPageState) × System)
  | [], s => some ([], s)
  | act :: acts, s => (s.step act).bind fun result =>
    (System.run acts result.2).map fun rest => (result.1 :: rest.1, rest.2)

end Reverie.PageMaps
