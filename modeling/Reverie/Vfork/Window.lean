/-
  A vfork window, from the child's copy to the write-back (`write_back_exact`).  What the
  child and the parent's other threads do to bytes and tables meanwhile is arbitrary, but a
  snapshot has no private backing of its own, and a publication that would change a shared
  view of the child is refused.  So a page with a backing of its own in the baseline is a
  shared view of the child's at the window's end (`Kept`).
-/
import Reverie.Vfork.Candidates

namespace Reverie.Vfork

open Memory Intervals

/-! ## Windows -/

/-- `copy` was taken of `source`: the same arena, with the shared views and no other
    backings. -/
structure SnapshotOf (copy source : Image) : Prop where
  guestBase : copy.guestBase = source.guestBase
  views : ∀ page, copy.retainedShared page = source.retainedShared page
  privateFree : ∀ page, copy.privateBacking page = false

/-- A vfork child's copy and its link to the parent. -/
structure Window where
  child : Image
  link : VforkParent

/-- Where a publication takes its contents from. -/
inductive InstallSource where
  | fresh
  /-- the sharing of anonymous memory before a fork -/
  | currentContents
  deriving DecidableEq

/-- Whether a publication changes a shared view. -/
def changesAView (m : Image) (source : InstallSource) (first : ℕ) (slice : BackingSlice) : Bool :=
  source = .fresh && (slice.backing.kind.retainedShared ||
    (List.range' first (slice.length / pageSize)).any m.retainedShared)

def publishedPages (m : Image) (first : ℕ) (slice : BackingSlice) (generation page : ℕ) :
    Option InstalledBackingPage :=
  if first ≤ page ∧ page < first + slice.length / pageSize then
    some ⟨generation, { slice with
      offset := slice.offset + (page - first) * pageSize, length := pageSize }⟩
  else m.backingPages page

/-- What happens while a window is open. -/
inductive Window.Step : Window → Window → Prop
  /-- the child stores, discards, maps or unmaps, which installs no backing -/
  | child (w : Window) (m : Image) : m.guestBase = w.child.guestBase →
      m.backingPages = w.child.backingPages → Window.Step w { w with child := m }
  /-- the child publishes, which is refused if it changes a shared view -/
  | publish (w : Window) (m : Image) (source : InstallSource) (first : ℕ) (slice : BackingSlice)
      (generation : ℕ) : m.guestBase = w.child.guestBase →
      changesAView w.child source first slice = false →
      (source = .currentContents → slice.backing.kind = .sharedAnonymous) →
      m.backingPages = publishedPages w.child first slice generation →
      Window.Step w { w with child := m }
  /-- the parent's other threads do anything, an exec included -/
  | parent (w : Window) (m : Image) : m.guestBase = w.link.memory.guestBase →
      Window.Step w { w with link := { w.link with memory := m } }
  /-- `keep_vfork_baseline` -/
  | keepVforkBaseline (w : Window) (m : Image) : SnapshotOf m w.child →
      Window.Step w { w with link := { w.link with
        baseline := some ⟨m, fun page => (w.link.memory.backingPages page).map (·.generation)⟩ } }

/-- `snapshot_sharing_address_space`. -/
def Window.Opened (w : Window) : Prop :=
  SnapshotOf w.child w.link.memory ∧ w.link.execCount = w.link.memory.execCount ∧
    w.link.baseline = none

/-- A window that was opened, and what happened since. -/
def Window.Reached (w : Window) : Prop :=
  ∃ start : Window, start.Opened ∧ Relation.ReflTransGen Window.Step start w

/-- What every window keeps: the arenas, and the baseline's backings as shared views of
    the child. -/
structure Window.Kept (w : Window) : Prop where
  parentBase : w.link.memory.guestBase = w.child.guestBase
  baselineBase : ∀ baseline, w.link.baseline = some baseline →
    baseline.memory.guestBase = w.child.guestBase
  views : ∀ baseline, w.link.baseline = some baseline →
    ∀ page, baseline.memory.retainedShared page = true → w.child.retainedShared page = true
  privateFree : ∀ baseline, w.link.baseline = some baseline →
    ∀ page, baseline.memory.privateBacking page = false

theorem retainedShared_congr {m m' : Image} (h : m'.backingPages = m.backingPages) (page : ℕ) :
    m'.retainedShared page = m.retainedShared page := by
  simp only [Image.retainedShared, h]

theorem retainedShared_publish {m m' : Image} {source : InstallSource} {first generation : ℕ}
    {slice : BackingSlice} (hview : changesAView m source first slice = false)
    (hsource : source = .currentContents → slice.backing.kind = .sharedAnonymous)
    (h : m'.backingPages = publishedPages m first slice generation) {page : ℕ}
    (hpage : m.retainedShared page = true) : m'.retainedShared page = true := by
  simp only [Image.retainedShared, h, publishedPages]
  by_cases hin : first ≤ page ∧ page < first + slice.length / pageSize
  · rw [if_pos hin]
    rcases source with - | -
    · simp only [changesAView, decide_true, Bool.true_and, Bool.or_eq_false_iff,
        List.any_eq_false] at hview
      exact absurd hpage (hview.2 page (List.mem_range'_1.2 hin))
    · simp only [hsource rfl, BackingKind.retainedShared]
  · rw [if_neg hin]
    exact hpage

theorem Window.Step.kept {w w' : Window} (h : w.Step w') (hk : w.Kept) : w'.Kept := by
  cases h with
  | child m hbase hbacking =>
    refine ⟨hk.parentBase.trans hbase.symm, fun b hb => (hk.baselineBase b hb).trans hbase.symm,
      fun b hb page hp => ?_, hk.privateFree⟩
    exact (retainedShared_congr hbacking page).trans (hk.views b hb page hp)
  | publish m source first slice generation hbase hview hsource hbacking =>
    refine ⟨hk.parentBase.trans hbase.symm, fun b hb => (hk.baselineBase b hb).trans hbase.symm,
      fun b hb page hp => ?_, hk.privateFree⟩
    exact retainedShared_publish hview hsource hbacking (hk.views b hb page hp)
  | parent m hbase => exact ⟨hbase.trans hk.parentBase, hk.baselineBase, hk.views, hk.privateFree⟩
  | keepVforkBaseline m hsnap =>
    refine ⟨hk.parentBase, ?_, ?_, ?_⟩
    · rintro _ ⟨rfl⟩
      exact hsnap.guestBase
    · rintro _ ⟨rfl⟩ page hp
      exact (hsnap.views page).symm.trans hp
    · rintro _ ⟨rfl⟩
      exact hsnap.privateFree

theorem reached_kept {w : Window} (h : w.Reached) : w.Kept := by
  obtain ⟨start, ⟨hsnap, -, hnone⟩, hrun⟩ := h
  induction hrun with
  | refl =>
    refine ⟨hsnap.guestBase.symm, ?_, ?_, ?_⟩ <;> intro b hb <;>
      exact absurd (hnone.symm.trans hb) (by simp)
  | tail _ hstep ih => exact hstep.kept ih

/-! ## The write-back -/

/-- `return_vfork_changes`, with the link that the copy had. -/
def returnVforkChanges (child : Image) (link : Option VforkParent) (userStart : ℕ) :
    Write (Option VforkWriteBack) :=
  match link with
  | none => pure none
  | some link => writeBackTo child link userStart

namespace Window

variable (w : Window) (userStart : ℕ)

/-- A byte of a mapped user page that is not retained and shared. -/
def UserByte (a : ℕ) : Prop :=
  InPages (firstPage w.child userStart) (endPage w.child) a ∧ w.child.Maps (a / pageSize) ∧
    w.child.retainedShared (a / pageSize) = false ∧
    w.link.memory.retainedShared (a / pageSize) = false

/-- The pages that are compared, and their runs. -/
def runs : List (ℕ × ℕ) :=
  Intervals.runs runPages
    (comparedPages w.child w.link (firstPage w.child userStart) (endPage w.child))

theorem base_le_firstPage : w.child.guestBase ≤ firstPage w.child userStart * pageSize :=
  (le_max_right userStart w.child.guestBase).trans (le_divCeil_mul _)

variable {w userStart}

theorem candidates_bounds (hk : w.Kept) (hle : firstPage w.child userStart ≤ endPage w.child)
    {page : ℕ} (h : Intervals.Mem page
      (candidates w.child w.link (firstPage w.child userStart) (endPage w.child))) :
    firstPage w.child userStart ≤ page ∧ page < endPage w.child := by
  have hbase := base_le_firstPage w userStart
  obtain ⟨child, ⟨memory, execCount, baseline⟩⟩ := w
  have hparent : memory.guestBase ≤ firstPage child userStart * pageSize := by
    rw [hk.parentBase]
    exact hbase
  rcases baseline with - | baseline
  · simp only [candidates, mem_append, mem_privateBackingPages] at h
    rcases h with (h | ⟨h1, h2, -⟩) | h | ⟨h1, h2, -⟩
    · exact baseDataPages_bounds hbase hle h
    · exact ⟨h1, h2⟩
    · exact baseDataPages_bounds hparent hle h
    · exact ⟨h1, h2⟩
  · simp only [candidates, mem_append, mem_privateBackingPages] at h
    rcases h with (h | ⟨h1, h2, -⟩) | h
    · exact baseDataPages_bounds hbase hle h
    · exact ⟨h1, h2⟩
    · refine baseDataPages_bounds ?_ hle h
      rw [hk.baselineBase baseline rfl]
      exact hbase

theorem userByte_of_mem_runs (hk : w.Kept) (hle : firstPage w.child userStart ≤ endPage w.child)
    {a : ℕ} (h : Intervals.Mem (a / pageSize) (w.runs userStart)) : w.UserByte userStart a := by
  rw [runs, mem_runs, mem_comparedPages] at h
  exact ⟨candidates_bounds hk hle h.1, h.2⟩

/-- A user byte that is in no run is the same in all memories compared. -/
theorem same_of_not_mem_runs (hk : w.Kept) {a : ℕ} (ha : w.UserByte userStart a)
    (h : ¬ Intervals.Mem (a / pageSize) (w.runs userStart)) :
    newByte w.child w.link a (w.link.memory.byteAt a) = w.link.memory.byteAt a ∧
      Fine w.child w.link a (w.link.memory.byteAt a) := by
  have hbase := base_le_firstPage w userStart
  obtain ⟨hin, hmaps, hshared, hpshared⟩ := ha
  rw [runs, mem_runs, mem_comparedPages] at h
  have hcand := fun hc => h ⟨hc, hmaps, hshared, hpshared⟩
  obtain ⟨child, ⟨memory, execCount, - | baseline⟩⟩ := w
  · simp only [candidates, mem_append, imp_false, not_or] at hcand
    obtain ⟨⟨hdata, hprivate⟩, hpdata, hpprivate⟩ := hcand
    have hchild := byteAt_eq_zero hbase hin hshared hprivate hdata
    have hparent := byteAt_eq_zero (hk.parentBase.trans_le hbase) hin hpshared hpprivate hpdata
    exact ⟨hchild.trans hparent.symm, trivial⟩
  · simp only [candidates, mem_append, imp_false, not_or] at hcand
    obtain ⟨⟨hdata, hprivate⟩, hbdata⟩ := hcand
    have hchild := byteAt_eq_zero hbase hin hshared hprivate hdata
    -- a shared view of the baseline would be one of the child
    have hbshared : baseline.memory.retainedShared (a / pageSize) = false := by
      rw [← Bool.not_eq_true]
      exact fun hs => Bool.false_ne_true (hshared.symm.trans (hk.views baseline rfl _ hs))
    have hbprivate : ¬ Intervals.Mem (a / pageSize) (baseline.memory.privateBackingPages
        (firstPage child userStart) (endPage child)) := fun hm =>
      Bool.false_ne_true ((hk.privateFree baseline rfl _).symm.trans
        (mem_privateBackingPages.1 hm).2.2)
    have hstart := byteAt_eq_zero ((hk.baselineBase baseline rfl).trans_le hbase) hin hbshared
      hbprivate hbdata
    have heq : child.byteAt a = baseline.memory.byteAt a := hchild.trans hstart.symm
    exact ⟨if_neg (not_not.2 heq), fun hne => absurd heq hne⟩

variable (w userStart)

/-- What a write-back that succeeds leaves in the parent. -/
structure Merged (bytes : ℕ → UInt8) : Prop where
  mappings : w.child.SameMappings w.link.reference (firstPage w.child userStart)
  new : ∀ a, w.UserByte userStart a → bytes a = newByte w.child w.link a (w.link.memory.byteAt a)
  ordered : ∀ a, w.UserByte userStart a → Fine w.child w.link a (w.link.memory.byteAt a)
  same : ∀ a, ¬ w.UserByte userStart a → bytes a = w.link.memory.byteAt a

/-- What a write-back that is refused leaves in the parent: runs that went back, and the
    others as they were. -/
structure Refused (bytes : ℕ → UInt8) : Prop where
  mappings : ¬ w.child.SameMappings w.link.reference (firstPage w.child userStart) →
    bytes = w.link.memory.byteAt
  unordered : ∀ a, w.UserByte userStart a → ¬ Fine w.child w.link a (w.link.memory.byteAt a) →
    ∃ run ∈ w.runs userStart, InPages run.1 run.2 a ∧
      ∀ b, InPages run.1 run.2 b → bytes b = w.link.memory.byteAt b
  part : ∀ a, bytes a = w.link.memory.byteAt a ∨
    (w.UserByte userStart a ∧ bytes a = newByte w.child w.link a (w.link.memory.byteAt a))

variable {w userStart}

theorem mem_runs_of_not_fine (hk : w.Kept) {a : ℕ} (ha : w.UserByte userStart a)
    (h : ¬ Fine w.child w.link a (w.link.memory.byteAt a)) :
    ∃ run ∈ w.runs userStart, InPages run.1 run.2 a := by
  by_contra hno
  exact h (same_of_not_mem_runs hk ha hno).2

theorem refused_unchanged (hk : w.Kept) : w.Refused userStart w.link.memory.byteAt := by
  refine ⟨fun _ => rfl, fun a ha hfine => ?_, fun _ => .inl rfl⟩
  obtain ⟨run, hrun, hin⟩ := mem_runs_of_not_fine hk ha hfine
  exact ⟨run, hrun, hin, fun _ _ => rfl⟩

theorem runs_pairwise : (w.runs userStart).Pairwise (fun r s => r.2 ≤ s.1) ∧
    ∀ r ∈ w.runs userStart, r.1 < r.2 :=
  runs_ordered comparedPages_ascend

theorem merged_of_written (hk : w.Kept) (hle : firstPage w.child userStart ≤ endPage w.child)
    (hmap : w.child.SameMappings w.link.reference (firstPage w.child userStart))
    {bytes : ℕ → UInt8}
    (h : Written w.child w.link (w.runs userStart) w.link.memory.byteAt bytes) :
    w.Merged userStart bytes := by
  refine ⟨hmap, fun a ha => ?_, fun a ha => ?_, fun a ha => ?_⟩
  · by_cases hm : Intervals.Mem (a / pageSize) (w.runs userStart)
    · exact h.new a hm
    · rw [h.same a hm, (same_of_not_mem_runs hk ha hm).1]
  · by_cases hm : Intervals.Mem (a / pageSize) (w.runs userStart)
    · exact h.fine a hm
    · exact (same_of_not_mem_runs hk ha hm).2
  · exact h.same a fun hm => ha (userByte_of_mem_runs hk hle hm)

theorem refused_of_written (hk : w.Kept) (hle : firstPage w.child userStart ≤ endPage w.child)
    (hmap : w.child.SameMappings w.link.reference (firstPage w.child userStart))
    {bytes : ℕ → UInt8} {done rest : List (ℕ × ℕ)} (hruns : w.runs userStart = done ++ rest)
    (h : Written w.child w.link done w.link.memory.byteAt bytes) : w.Refused userStart bytes := by
  refine ⟨fun hne => absurd hmap hne, fun a ha hfine => ?_, fun a => ?_⟩
  · obtain ⟨run, hrun, hin⟩ := mem_runs_of_not_fine hk ha hfine
    refine ⟨run, hrun, hin, fun b hb => h.same b ?_⟩
    -- the runs that went back were in order, so this one comes later
    rw [hruns] at hrun
    have hrest : run ∈ rest := (List.mem_append.1 hrun).resolve_left fun hd =>
      hfine (h.fine a ⟨run, hd, hin⟩)
    rintro ⟨r, hr, -, hlt⟩
    have hpairs : (w.runs userStart).Pairwise _ := runs_pairwise.1
    rw [hruns, List.pairwise_append] at hpairs
    have := hpairs.2.2 r hr run hrest
    have := hb.1
    omega
  · by_cases hm : Intervals.Mem (a / pageSize) done
    · refine .inr ⟨userByte_of_mem_runs hk hle ?_, h.new a hm⟩
      rw [hruns, mem_append]
      exact .inl hm
    · exact .inl (h.same a hm)

end Window

/-- **The write-back merges exactly.**  In every window reached, whatever the contents: if it
    succeeds, every byte of a mapped user page that is not a shared view becomes the child's
    where it differs from the baseline's (always, without a baseline), every other byte of
    the parent is as it was, and no byte was changed on both sides to different values or on
    a page whose mapping was replaced.  If it is refused, then before any write where the
    mappings differ, and with nothing written in the run of a byte that cannot be ordered. -/
theorem write_back_exact {w : Window} (h : w.Reached) (userStart : ℕ) :
    match returnVforkChanges w.child (some w.link) userStart w.link.memory.byteAt with
    | .ok none bytes =>
      w.link.memory.execCount ≠ w.link.execCount ∧ bytes = w.link.memory.byteAt
    | .ok (some _) bytes => w.Merged userStart bytes
    | .error _ bytes => w.Refused userStart bytes := by
  have hk := reached_kept h
  have key : Ensures (writeBackTo w.child w.link userStart) w.link.memory.byteAt
      (fun result bytes => match result with
        | none => w.link.memory.execCount ≠ w.link.execCount ∧ bytes = w.link.memory.byteAt
        | some _ => w.Merged userStart bytes)
      (fun _ bytes => w.Refused userStart bytes) := by
    rw [writeBackTo]
    split_ifs with hexec
    · exact Ensures.pure ⟨hexec, rfl⟩
    refine Ensures.refuse_bind (fun _ => Window.refused_unchanged hk) fun hmap => ?_
    refine Ensures.refuse_bind (fun _ => Window.refused_unchanged hk) fun hle => ?_
    have hmap := mapsUserPagesAs_iff.1 (Bool.not_eq_false _ ▸ hmap)
    have hle := Nat.not_lt.1 hle
    refine Ensures.bind ((writeBackRuns_updates Window.runs_pairwise.1
      Window.runs_pairwise.2).mono (fun _ _ hw => hw) ?_) fun _ bytes hw =>
        Ensures.pure (Window.merged_of_written hk hle hmap hw)
    rintro _ bytes ⟨done, rest, hruns, hw⟩
    exact Window.refused_of_written hk hle hmap hruns hw
  rw [Ensures] at key
  rw [returnVforkChanges]
  rcases hx : writeBackTo w.child w.link userStart w.link.memory.byteAt with ⟨_ | _, bytes⟩ | _
  · rw [hx] at key
    exact key
  · rw [hx] at key
    exact key
  · rw [hx] at key
    exact key

/-- A file with one byte of data. -/
def oneByte (offset : ℕ) (value : UInt8) : BaseFile where
  byte o := if o = offset then value else 0
  seekData cursor := if cursor ≤ offset then .ok offset else .error .enxio
  seekHole data := .ok (data + 1)
  seekData_ok := by
    intro cursor data h
    split_ifs at h with hle
    cases h
    exact ⟨hle, fun o _ ho => if_neg (Nat.ne_of_lt ho)⟩
  seekData_enxio := by
    intro cursor h o ho
    split_ifs at h with hle
    exact if_neg (by omega)

/-- A memory of two pages, with one byte of data. -/
def twoPages (offset : ℕ) (value : UInt8) : Image where
  toGuestMemory := GuestMemory.new 0 (2 * pageSize)
  execCount := 0
  base := oneByte offset value
  installed _ _ := 0
  bound := 0
  finite _ _ := ⟨rfl, rfl, rfl, rfl⟩

/-- The child's only store is on the second page, the parent's data on the first. -/
def storedWindow : Window := ⟨twoPages 5000 1, ⟨twoPages 7 2, 0, none⟩⟩

theorem storedWindow_reached : storedWindow.Reached :=
  ⟨storedWindow, ⟨⟨rfl, fun _ => rfl, fun _ => rfl⟩, rfl, rfl⟩, .refl⟩

theorem storedWindow_pages : comparedPages storedWindow.child storedWindow.link 0 2 = [0, 1] := by
  have hchild : storedWindow.child.baseDataPages 0 2 = [(1, 2)] := by
    simp [storedWindow, twoPages, oneByte, Image.baseDataPages, dataExtents, Image.toOffset,
      Image.toAddress, GuestMemory.new, divCeil, pageSize]
  have hparent : storedWindow.link.memory.baseDataPages 0 2 = [(0, 1)] := by
    simp [storedWindow, twoPages, oneByte, Image.baseDataPages, dataExtents, Image.toOffset,
      Image.toAddress, GuestMemory.new, divCeil, pageSize]
  have hcand : candidates storedWindow.child storedWindow.link 0 2 = [(1, 2), (0, 1)] := by
    rw [candidates, hchild]
    rw [hparent]
    rfl
  have hsorted : mergePageRanges [(1, 2), (0, 1)] = [(0, 2)] := by
    simp [mergePageRanges, List.mergeSort, Intervals.join,
      Intervals.joinFrom]
  rw [comparedPages, hcand, hsorted]
  decide +kernel

theorem storedWindow_writeBackTo :
    writeBackTo storedWindow.child storedWindow.link 0 = (do
      let result ← writeBackRuns storedWindow.child storedWindow.link
        (Intervals.runs runPages [0, 1]) ⟨0, 0⟩
      pure (some result)) := by
  have hfirst : firstPage storedWindow.child 0 = 0 := by decide +kernel
  have hlast : endPage storedWindow.child = 2 := by decide +kernel
  have hmap : storedWindow.child.mapsUserPagesAs storedWindow.link.reference 0 = true := by
    decide +kernel
  have hexec : ¬ storedWindow.link.memory.execCount ≠ storedWindow.link.execCount :=
    not_not.2 rfl
  rw [writeBackTo, if_neg hexec]
  simp only [hfirst, hlast, hmap, storedWindow_pages, Outcome.refuse, Bool.true_eq_false, if_false,
    Nat.not_lt_zero, pure_bind]

theorem storedWindow_bytes : (match (do
      let result ← writeBackRuns storedWindow.child storedWindow.link
        (Intervals.runs runPages [0, 1]) ⟨0, 0⟩
      pure (some result)) storedWindow.link.memory.byteAt with
    | .ok (some _) bytes => bytes 5000 == 1 && bytes 7 == 0
    | _ => false) = true := by
  decide +kernel

theorem write_back_exact_stored :
    ∃ result bytes, returnVforkChanges storedWindow.child (some storedWindow.link) 0
        storedWindow.link.memory.byteAt = .ok (some result) bytes ∧
      storedWindow.Merged 0 bytes ∧ bytes 5000 = 1 ∧ bytes 7 = 0 := by
  have h := write_back_exact storedWindow_reached 0
  have hok := storedWindow_bytes
  rw [returnVforkChanges, storedWindow_writeBackTo] at h
  rw [returnVforkChanges, storedWindow_writeBackTo]
  split at hok
  · next result bytes hrun =>
    rw [hrun] at h
    exact ⟨result, bytes, hrun, h, by simpa using hok⟩
  · exact absurd hok Bool.false_ne_true

end Reverie.Vfork
