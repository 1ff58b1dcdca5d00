/-
  Admission reports are complete, and name no other cell than the one asked for
  (`report_complete`): the trace has each candidate at the stage that removed it.
-/
import Reverie.Selection.Relaxation

namespace Reverie.Selection
open List Option

variable {request : AdmissionRequest} {cells : List ImplementedCell} {cell : ImplementedCell}

/-! ## The ranking -/

theorem ranksBefore_total (a b : ImplementedCell) : ranksBefore a b ∨ ranksBefore b a := by
  rcases lt_trichotomy a.cost.rank b.cost.rank with hcost | hcost | hcost
  · exact Or.inl (Or.inl hcost)
  · rcases lt_trichotomy (guaranteeRank a) (guaranteeRank b) with hrank | hrank | hrank
    · exact Or.inr (Or.inr ⟨hcost.symm, Or.inl hrank⟩)
    · rcases String.le_total a.id.name b.id.name with hname | hname
      · exact Or.inl (Or.inr ⟨hcost, Or.inr ⟨hrank, hname⟩⟩)
      · exact Or.inr (Or.inr ⟨hcost.symm, Or.inr ⟨hrank.symm, hname⟩⟩)
    · exact Or.inl (Or.inr ⟨hcost, Or.inl hrank⟩)
  · exact Or.inr (Or.inl hcost)

theorem ranksBefore_trans {a b c : ImplementedCell} (hab : ranksBefore a b) (hbc : ranksBefore b c) :
    ranksBefore a c := by
  rcases hab with hab | ⟨hab, hab'⟩
  · rcases hbc with hbc | ⟨hbc, -⟩
    · exact Or.inl (hab.trans hbc)
    · exact Or.inl (hbc ▸ hab)
  · rcases hbc with hbc | ⟨hbc, hbc'⟩
    · exact Or.inl (hab ▸ hbc)
    · refine Or.inr ⟨hab.trans hbc, ?_⟩
      rcases hab' with hab' | ⟨hab', habn⟩
      · rcases hbc' with hbc' | ⟨hbc', -⟩
        · exact Or.inl (hbc'.trans hab')
        · exact Or.inl (hbc' ▸ hab')
      · rcases hbc' with hbc' | ⟨hbc', hbcn⟩
        · exact Or.inl (hab' ▸ hbc')
        · exact Or.inr ⟨hab'.trans hbc', String.le_trans habn hbcn⟩

instance : Std.Total ranksBefore := ⟨ranksBefore_total⟩

instance : IsTrans ImplementedCell ranksBefore := ⟨fun _ _ _ => ranksBefore_trans⟩

theorem rankedCells_sorted (request : AdmissionRequest) (cells : List ImplementedCell) :
    (rankedCells request cells).Pairwise ranksBefore :=
  pairwise_insertionSort ranksBefore _

/-- The ranked cells are the eligible candidates, each as often as it is one. -/
theorem rankedCells_perm (request : AdmissionRequest) (cells : List ImplementedCell) :
    (rankedCells request cells).Perm (cells.filter fun cell => Eligible request cell) := by
  refine (List.perm_insertionSort ranksBefore _).trans (.of_eq ?_)
  simp only [runStages, runStage, List.filter_filter]
  refine List.filter_congr fun cell _ => ?_
  rw [Bool.eq_iff_iff]
  rw [decide_eq_true_iff, Bool.and_eq_true, List.isEmpty_iff, List.isEmpty_iff]
  exact And.comm

/-! ## The choice -/

def ExplicitSelection.means (explicit : ExplicitSelection) (cell : ImplementedCell) : Bool :=
  match explicit with
  | .auto => true
  | .cell id => cell.id = id
  | .backend id => cell.backend = id

/-- The report of the cell that a selection chose. -/
def chosenReport (request : AdmissionRequest) (cells : List ImplementedCell)
    (cell : ImplementedCell) : AdmissionReport :=
  if request.explicit = .auto then report request cells cell (admissionTrace request cells)
  else explicitReport request cells cell

theorem chosenReport_chosen : (chosenReport request cells cell).chosen = cell.id := by
  unfold chosenReport
  split_ifs
  · rfl
  · rfl

theorem chosenReport_eligible :
    (chosenReport request cells cell).eligible = (rankedCells request cells).map (·.id) := by
  unfold chosenReport
  split_ifs
  · rfl
  · rfl

/-- Admission reports the first ranked cell that the selection means; it refuses if there
    is none. -/
theorem admitOver_eq (request : AdmissionRequest) (cells : List ImplementedCell) :
    (∃ cell, (rankedCells request cells).find? request.explicit.means = some cell ∧
      admitOver request cells = .ok (chosenReport request cells cell)) ∨
    (rankedCells request cells).find? request.explicit.means = none ∧
      ∃ refusal, admitOver request cells = .error refusal := by
  rcases hexplicit : request.explicit with _ | id | id
  · have hfind : (rankedCells request cells).find? ExplicitSelection.auto.means =
        (rankedCells request cells).head? := by
      cases rankedCells request cells <;> rfl
    rw [hfind]
    simp only [admitOver, hexplicit]
    rcases (rankedCells request cells).head? with _ | cell
    · exact Or.inr ⟨rfl, _, rfl⟩
    · refine Or.inl ⟨cell, rfl, ?_⟩
      rw [chosenReport, if_pos hexplicit]
  · rcases hfind : (rankedCells request cells).find? (ExplicitSelection.cell id).means with _ | cell
    · have hnone : (rankedCells request cells).find? (·.id = id) = none := hfind
      refine Or.inr ⟨rfl, ?_⟩
      simp only [admitOver, hexplicit, hnone]
      split_ifs
      · exact ⟨_, rfl⟩
      · exact ⟨_, rfl⟩
    · have hsome : (rankedCells request cells).find? (·.id = id) = some cell := hfind
      refine Or.inl ⟨cell, rfl, ?_⟩
      simp only [admitOver, hexplicit, hsome, chosenReport]
      rfl
  · rcases hfind : (rankedCells request cells).find? (ExplicitSelection.backend id).means
      with _ | cell
    · have hnone : (rankedCells request cells).find? (·.backend = id) = none := hfind
      refine Or.inr ⟨rfl, ?_⟩
      simp only [admitOver, hexplicit, hnone]
      split
      · exact ⟨_, rfl⟩
      · exact ⟨_, rfl⟩
    · have hsome : (rankedCells request cells).find? (·.backend = id) = some cell := hfind
      refine Or.inl ⟨cell, rfl, ?_⟩
      simp only [admitOver, hexplicit, hsome, chosenReport]
      rfl

/-! ## The trace -/

/-- The first stage of the trace that removed the cell, with the reasons it gave. -/
def FilterTrace.removal (trace : FilterTrace) (id : CellId) : Option (String × List RemovalReason) :=
  trace.stages.findSome? fun stage =>
    (stage.removed.find? (·.1 = id)).map fun entry => (stage.name, entry.2)

/-- The filter stage that removes the cell, with the reasons it finds. -/
def filteredBy (request : AdmissionRequest) (cell : ImplementedCell) :
    Option (String × List RemovalReason) :=
  let requirement := requirementReasons request.requirements request.guest cell
  let environment := environmentReasons request.requirements request.env cell
  if requirement ≠ [] then some ("requirements", requirement)
  else if environment ≠ [] then some ("environment", environment)
  else none

theorem filteredBy_eq_none : filteredBy request cell = none ↔ Eligible request cell := by
  unfold filteredBy Eligible
  dsimp only
  split_ifs with hreq henv
  · simp [hreq]
  · simp [henv]
  · exact ⟨fun _ => ⟨not_not.1 hreq, not_not.1 henv⟩, fun _ => rfl⟩

theorem filteredBy_reasons {name : String} {reasons : List RemovalReason}
    (h : filteredBy request cell = some (name, reasons)) : reasons ≠ [] := by
  unfold filteredBy at h
  dsimp only at h
  split_ifs at h with hreq henv
  · cases h
    exact hreq
  · cases h
    exact henv

section
variable {alive : List ImplementedCell}

theorem find_id (hids : (alive.map (·.id)).Nodup) (hmem : cell ∈ alive) :
    alive.find? (fun c => c.id = cell.id) = some cell := by
  rcases hfind : alive.find? (fun c => c.id = cell.id) with _ | found
  · have hnone := find?_eq_none.1 hfind cell hmem
    exact absurd (decide_eq_true rfl) hnone
  · have hid : found.id = cell.id := by simpa using find?_some hfind
    rw [hfind, inj_on_of_nodup_map hids (mem_of_find?_eq_some hfind) hmem hid]

/-- A stage removes an alive cell exactly if it finds a reason, and with all it finds. -/
theorem find_removed (hids : (alive.map (·.id)).Nodup) (hmem : cell ∈ alive) (name : String)
    (reasons : ImplementedCell → List RemovalReason) :
    (runStage name alive reasons).2.removed.find? (·.1 = cell.id) =
      if reasons cell = [] then none else some (cell.id, reasons cell) := by
  have hsub : ((alive.filter fun c => !(reasons c).isEmpty).map (·.id)).Nodup :=
    hids.sublist (filter_sublist.map _)
  simp only [runStage, find?_map, Function.comp_def]
  split_ifs with hreason
  · rw [map_eq_none_iff, find?_eq_none]
    intro c hc hid
    have hc' := mem_filter.1 hc
    obtain rfl := inj_on_of_nodup_map hids hc'.1 hmem (of_decide_eq_true hid)
    rw [hreason] at hc'
    exact absurd hc'.2 (by decide)
  · rw [find_id hsub (mem_filter.2 ⟨hmem, by simpa using hreason⟩)]
    rfl

end

/-- The two stages have every candidate that they remove at the stage that did. -/
theorem removal_filtered (hids : (cells.map (·.id)).Nodup) (hmem : cell ∈ cells) :
    (admissionTrace request cells).removal cell.id = filteredBy request cell := by
  simp only [admissionTrace, runStages, FilterTrace.removal, findSome?_cons, filteredBy,
    find_removed hids hmem]
  by_cases hreq : requirementReasons request.requirements request.guest cell = []
  · have hmem' : cell ∈ (runStage "requirements" cells
        (requirementReasons request.requirements request.guest)).1 :=
      mem_filter.2 ⟨hmem, isEmpty_iff.2 hreq⟩
    have hids' : ((runStage "requirements" cells
        (requirementReasons request.requirements request.guest)).1.map (·.id)).Nodup :=
      hids.sublist (filter_sublist.map _)
    simp only [find_removed hids' hmem', ne_eq]
    split_ifs with henv
    · rfl
    · rfl
  · simp only [hreq, ne_eq]
    rfl

/-- The stage of an explicit selection comes last, and has every eligible cell but the one
    that was chosen. -/
theorem removal_explicit (hids : (cells.map (·.id)).Nodup) (hmem : cell ∈ cells)
    (chosen : ImplementedCell) :
    (explicitReport request cells chosen).trace.removal cell.id =
      (filteredBy request cell).or
        (if cell.id ≠ chosen.id then some ("explicit-selection", [.notExplicitlySelected])
          else none) := by
  simp only [FilterTrace.removal, explicitReport, report, findSome?_append,
    findSome?_cons]
  rw [← FilterTrace.removal, removal_filtered hids hmem]
  rcases hby : filteredBy request cell with _ | entry
  · have hranked := mem_rankedCells.2 ⟨hmem, filteredBy_eq_none.1 hby⟩
    have hids' : ((rankedCells request cells).map (·.id)).Nodup :=
      ((rankedCells_perm request cells).map _).nodup_iff.2
        (hids.sublist (filter_sublist.map _))
    simp only [find?_map, Function.comp_def]
    split_ifs with hchosen
    · rw [find_id (hids'.sublist (filter_sublist.map _))
        (mem_filter.2 ⟨hranked, decide_eq_true hchosen⟩)]
      rfl
    · have hnone : ((rankedCells request cells).filter fun c => c.id ≠ chosen.id).find?
          (fun c => c.id = cell.id) = none := by
        refine find?_eq_none.2 fun c hc hid => ?_
        have hne : c.id ≠ chosen.id := of_decide_eq_true (mem_filter.1 hc).2
        exact hne ((of_decide_eq_true hid).trans (not_not.1 hchosen))
      rw [hnone]
      rfl
  · rfl

/-! ## Completeness -/

/-- The trace of the report has each candidate at the stage that removed it. -/
theorem removal_chosenReport (hids : (cells.map (·.id)).Nodup) (hmem : cell ∈ cells)
    (chosen : ImplementedCell) :
    (chosenReport request cells chosen).trace.removal cell.id =
      (filteredBy request cell).or
        (if request.explicit ≠ .auto ∧ cell.id ≠ chosen.id then
          some ("explicit-selection", [.notExplicitlySelected]) else none) := by
  unfold chosenReport
  split_ifs with hauto hchosen hchosen
  · exact absurd hauto hchosen.1
  · rw [or_none]
    exact removal_filtered hids hmem
  · rw [removal_explicit hids hmem, if_pos hchosen.2]
  · rw [removal_explicit hids hmem, if_neg fun hne => hchosen ⟨hauto, hne⟩]

/-- What a report of `request` over `cells` says, with the eligible cells in `ranked`. -/
structure Complete (request : AdmissionRequest) (cells ranked : List ImplementedCell)
    (r : AdmissionReport) : Prop where
  /-- The eligible cells are the candidates against which neither stage finds a reason. -/
  eligible : r.eligible = ranked.map (·.id)
  exactly : ranked.Perm (cells.filter fun cell => Eligible request cell)
  sorted : ranked.Pairwise ranksBefore
  /-- Every other candidate was removed with a reason, by the first stage that finds one. -/
  removed : ∀ cell ∈ cells, ¬ Eligible request cell → ∃ name reasons, reasons ≠ [] ∧
    filteredBy request cell = some (name, reasons) ∧ r.trace.removal cell.id = some (name, reasons)
  kept : ∀ cell ∈ cells, Eligible request cell →
    request.explicit = .auto ∨ cell.id = r.chosen → r.trace.removal cell.id = none
  chosen : match request.explicit with
    | .auto => r.eligible.head? = some r.chosen
    | .cell id => r.chosen = id ∧ id ∈ r.eligible
    | .backend id => ∃ before cell after, ranked = before ++ cell :: after ∧ cell.backend = id ∧
        (∀ other ∈ before, other.backend ≠ id) ∧ r.chosen = cell.id

theorem chosenReport_complete (hids : (cells.map (·.id)).Nodup)
    (hfind : (rankedCells request cells).find? request.explicit.means = some cell) :
    Complete request cells (rankedCells request cells) (chosenReport request cells cell) where
  eligible := chosenReport_eligible
  exactly := rankedCells_perm request cells
  sorted := rankedCells_sorted request cells
  removed := by
    intro other hmem hother
    rw [removal_chosenReport hids hmem]
    rcases hby : filteredBy request other with _ | ⟨name, reasons⟩
    · exact absurd (filteredBy_eq_none.1 hby) hother
    · exact ⟨name, reasons, filteredBy_reasons hby, rfl, rfl⟩
  kept := by
    intro other hmem hother hkept
    rw [chosenReport_chosen] at hkept
    rw [removal_chosenReport hids hmem, filteredBy_eq_none.2 hother, if_neg]
    · rfl
    · rintro ⟨hexplicit, hne⟩
      exact hkept.elim hexplicit hne
  chosen := by
    rw [chosenReport_chosen, chosenReport_eligible]
    obtain ⟨hmeans, before, after, hsplit, hbefore⟩ := find?_eq_some_iff_append.1 hfind
    rcases hexplicit : request.explicit with _ | id | id
    · rw [hexplicit] at hbefore
      have hnil : before = [] := by
        refine eq_nil_iff_forall_not_mem.2 fun other hother => ?_
        exact Bool.false_ne_true (hbefore other hother)
      rw [hsplit, hnil]
      rfl
    · rw [hexplicit] at hmeans
      have hid : cell.id = id := of_decide_eq_true hmeans
      refine ⟨hid, mem_map.2 ⟨cell, ?_, hid⟩⟩
      rw [hsplit]
      exact mem_append_right _ mem_cons_self
    · rw [hexplicit] at hmeans hbefore
      refine ⟨before, cell, after, hsplit, of_decide_eq_true hmeans, fun other hother hid => ?_, rfl⟩
      have hnot := hbefore other hother
      rw [ExplicitSelection.means, decide_eq_true hid] at hnot
      exact absurd hnot (by decide)

/-- **Admission reports are complete and unsubstituted.**  Over candidates with distinct
    ids, a report lists exactly the eligible cells, by cost, then strength, then id; has
    every other candidate in its trace, with the reasons of the first stage that removed
    it; and chooses the first eligible cell that the selection means.  Admission refuses
    exactly if the selection means no eligible cell. -/
theorem report_complete (request : AdmissionRequest) (cells : List ImplementedCell)
    (hids : (cells.map (·.id)).Nodup) :
    (∀ r, admitOver request cells = .ok r → ∃ ranked, Complete request cells ranked r) ∧
    ((∃ refusal, admitOver request cells = .error refusal) ↔
      ∀ cell ∈ cells, Eligible request cell → request.explicit.means cell = false) := by
  rcases admitOver_eq request cells with ⟨cell, hfind, hok⟩ | ⟨hfind, refusal, herror⟩
  · refine ⟨fun r hr => ?_, fun ⟨refusal, herror⟩ => ?_, fun hnone => ?_⟩
    · rw [hok] at hr
      cases hr
      exact ⟨_, chosenReport_complete hids hfind⟩
    · rw [hok] at herror
      cases herror
    · have hcell := mem_rankedCells.1 (mem_of_find?_eq_some hfind)
      have hmeans := find?_some hfind
      rw [hnone cell hcell.1 hcell.2] at hmeans
      cases hmeans
  · refine ⟨fun r hr => ?_, fun _ cell hmem hcell => ?_, fun _ => ⟨refusal, herror⟩⟩
    · rw [herror] at hr
      cases hr
    · exact Bool.eq_false_iff.2
        (find?_eq_none.1 hfind cell (mem_rankedCells.2 ⟨hmem, hcell⟩))

theorem report_complete_registered :
    (implementedCells.map (·.id)).Nodup ∧ ∀ request r, admitRegistered request = .ok r →
      ∃ ranked, Complete request implementedCells ranked r :=
  ⟨by decide, fun request => (report_complete request implementedCells (by decide)).1⟩

end Reverie.Selection
