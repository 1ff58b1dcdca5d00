/-
  Relaxing a requirement never removes a cell.

  `Eligible`: both filter stages find no reason against the cell; admission reports
  the eligible cells (`admitOver_auto`).  Main theorem: `relaxation_monotone`.
-/
import Reverie.Selection.Admission

namespace Reverie.Selection
open List

/-! ## Eligible cells -/

/-- Neither stage removes the cell. -/
def Eligible (request : AdmissionRequest) (cell : ImplementedCell) : Prop :=
  requirementReasons request.requirements request.guest cell = [] ∧
    environmentReasons request.requirements request.env cell = []

instance (request : AdmissionRequest) (cell : ImplementedCell) : Decidable (Eligible request cell) := by
  unfold Eligible
  infer_instance

variable {request : AdmissionRequest} {cells : List ImplementedCell}

theorem mem_rankedCells {cell : ImplementedCell} :
    cell ∈ rankedCells request cells ↔ cell ∈ cells ∧ Eligible request cell := by
  simp only [rankedCells, runStages, runStage, Eligible, List.mem_insertionSort, List.mem_filter,
    List.isEmpty_iff, and_assoc]

/-- Automatic admission succeeds if a cell is eligible, and reports those that are. -/
theorem admitOver_auto (request : AdmissionRequest)
    (hauto : request.explicit = .auto) (h : ∃ cell ∈ cells, Eligible request cell) :
    ∃ r, admitOver request cells = .ok r ∧
      ∀ id, id ∈ r.eligible ↔ ∃ cell ∈ cells, Eligible request cell ∧ cell.id = id := by
  obtain ⟨cell, hcell⟩ := h
  have hmem := mem_rankedCells.2 hcell
  obtain ⟨first, rest, hranked⟩ := exists_cons_of_ne_nil (ne_nil_of_mem hmem)
  refine ⟨report request cells first (admissionTrace request cells), ?_, fun id => ?_⟩
  · simp only [admitOver, hauto, hranked, head?_cons]
  · simp only [report, mem_map, mem_rankedCells, and_assoc]

/-- It refuses if there is none, with the code that `refusal_code` finds. -/
theorem admitOver_none (request : AdmissionRequest)
    (hauto : request.explicit = .auto) (h : ¬ ∃ cell ∈ cells, Eligible request cell) :
    ∃ refusal, admitOver request cells = .error refusal ∧
      refusal.code = refusalCode request cells (admissionTrace request cells) := by
  have hranked : rankedCells request cells = [] := by
    refine eq_nil_iff_forall_not_mem.2 fun cell hmem => h ⟨cell, mem_rankedCells.1 hmem⟩
  refine ⟨{ code := refusalCode request cells (admissionTrace request cells)
            detail := "no implemented cell satisfies the requirements in this environment"
            trace := admissionTrace request cells
            terminal := false }, ?_, rfl⟩
  simp only [admitOver, hauto, hranked, head?_nil]

theorem admitOver_eligible {r : AdmissionReport} (hauto : request.explicit = .auto)
    (h : admitOver request cells = .ok r) :
    (∃ cell ∈ cells, Eligible request cell) ∧
      ∀ id ∈ r.eligible, ∃ cell ∈ cells, Eligible request cell ∧ cell.id = id := by
  by_cases hsome : ∃ cell ∈ cells, Eligible request cell
  · obtain ⟨r', hr', heligible⟩ := admitOver_auto request hauto hsome
    rw [h] at hr'
    cases hr'
    exact ⟨hsome, fun id hid => (heligible id).1 hid⟩
  · obtain ⟨refusal, herror, -⟩ := admitOver_none request hauto hsome
    rw [h] at herror
    cases herror

/-! ## The axes -/

section
variable {a b : ToolRequirements} {c x : Bool} {r : RemovalReason}

theorem reasonIf_eq_nil : reasonIf c r = [] ↔ c = false := by
  cases c <;> simp [reasonIf]

theorem demand_mono {p q : Bool} (h : (!p || q) = true) (hq : (q && x) = false) : (p && x) = false := by
  cases p with
  | false => rfl
  | true =>
    obtain rfl : q = true := h
    exact hq

theorem windowAccepts_mono {v w : WindowRequirement} {g : WindowGuarantee}
    (h : v.relaxes w = true) (hw : windowAccepts w g = true) : windowAccepts v g = true := by
  cases g with
  | zero => cases v <;> rfl
  | declaredPreInit =>
    rcases w with _ | _ | _
    · cases hw
    · cases hw
    · rcases v with _ | _ | _
      · cases h
      · cases h
      · rfl

theorem placementAccepts_mono {v w : PlacementRequirement} {p : Placement}
    (h : (v = .any || v = w) = true) (hw : placementAccepts w p = true) :
    placementAccepts v p = true := by
  cases v with
  | any => rfl
  | inGuestOnly =>
    obtain rfl : PlacementRequirement.inGuestOnly = w := by simpa using h
    exact hw
  | outOfProcessOnly =>
    obtain rfl : PlacementRequirement.outOfProcessOnly = w := by simpa using h
    exact hw

theorem debugger_demand {v w : DebuggerRequirement} (h : (v = .exclusive || v = w) = true) :
    (!decide (v = .coexistWithExternal) || decide (w = .coexistWithExternal)) = true := by
  cases v <;> cases w <;> first | rfl | cases h

theorem density_demand {v w : Density} (h : (v = .eventLevel || v = w) = true) :
    (!decide (v = .dense) || decide (w = .dense)) = true := by
  cases v <;> cases w <;> first | rfl | cases h

theorem dynamicCode_demand {v w : DynamicCodeNeed}
    (h : (v = .notRequired || w = .mustCover) = true) :
    (!decide (v = .mustCover) || decide (w = .mustCover)) = true := by
  cases v <;> cases w <;> first | rfl | cases h

variable {s : Subscription} {q : ToolQueries} {cell : ImplementedCell} {env : EnvironmentSnapshot}

theorem shapeReasons_mono (h : a.isRelaxationOf b = true)
    (hb : shapeReasons (.compute b s q) cell = []) : shapeReasons (.compute a s q) cell = [] := by
  simp only [ToolRequirements.isRelaxationOf, Bool.and_eq_true] at h
  obtain ⟨⟨⟨⟨⟨hwindow, -⟩, -⟩, hplacement⟩, hdebugger⟩, hdensity⟩ := h
  simp only [shapeReasons, append_eq_nil_iff, reasonIf_eq_nil,
    Bool.not_eq_false', Bool.and_eq_true] at hb ⊢
  obtain ⟨⟨⟨hw, hp, hd⟩, hdbg⟩, hdense⟩ := hb
  exact ⟨⟨⟨windowAccepts_mono hwindow hw, placementAccepts_mono hplacement hp, hd⟩,
    demand_mono (debugger_demand hdebugger) hdbg⟩, demand_mono (density_demand hdensity) hdense⟩

theorem lifecycleReasons_mono (h : a.isRelaxationOf b = true)
    (hb : lifecycleReasons (.compute b s q) cell = []) :
    lifecycleReasons (.compute a s q) cell = [] := by
  simp only [ToolRequirements.isRelaxationOf, LifecycleRequirements.relaxes, Bool.and_eq_true] at h
  obtain ⟨⟨⟨⟨-, ⟨⟨⟨⟨hthreads, hfork⟩, hvfork⟩, hexec⟩, hsignal⟩, hcode⟩, -⟩, -⟩, -⟩ := h
  simp only [lifecycleReasons, EffectiveRequirements.compute, append_eq_nil_iff,
    reasonIf_eq_nil] at hb ⊢
  obtain ⟨⟨⟨⟨⟨⟨⟨⟨h₁, h₂⟩, h₃⟩, h₄⟩, h₅⟩, h₆⟩, h₇⟩, h₈⟩, h₉⟩ := hb
  refine ⟨⟨⟨⟨⟨⟨⟨⟨demand_mono hthreads h₁, ?_⟩, h₃⟩, h₄⟩, demand_mono hfork h₅⟩,
    demand_mono hvfork h₆⟩, demand_mono hexec h₇⟩, demand_mono hsignal h₈⟩,
    demand_mono (dynamicCode_demand hcode) h₉⟩
  -- the other check of the threads axis has nothing to find, too
  rw [reasonIf_eq_nil.2 (demand_mono hthreads h₁)]
  rw [reasonIf_eq_nil.2 h₁] at h₂
  simp only [Bool.and_assoc] at h₂ ⊢
  exact demand_mono hthreads h₂

/-- The demands of the classes, for every use of them that is a demand. -/
theorem instructionClasses_mono (f : Bool → InstructionMediation → String → List RemovalReason)
    (hf : ∀ got name, f false got name = []) (h : a.isRelaxationOf b = true)
    (hb : ((instructionClasses (.compute b s q) cell).flatMap fun x => f x.1 x.2.1 x.2.2) = []) :
    ((instructionClasses (.compute a s q) cell).flatMap fun x => f x.1 x.2.1 x.2.2) = [] := by
  simp only [ToolRequirements.isRelaxationOf, InstructionRequirements.relaxes, Bool.and_eq_true] at h
  obtain ⟨⟨⟨⟨⟨-, ⟨⟨hcpuid, hrdtsc⟩, hrdrand⟩, hxgetbv⟩, -⟩, -⟩, -⟩, -⟩ := h
  -- one class: what is wanted by the weaker side is wanted by the other
  have hone : ∀ {p q : Bool} {got : InstructionMediation} {name : String}, (!p || q) = true →
      f q got name = [] → f p got name = [] := by
    intro p q got name hpq hq
    cases p with
    | false => exact hf got name
    | true =>
      obtain rfl : q = true := hpq
      exact hq
  have hor : ∀ {p q x : Bool}, (!p || q) = true → (!(p || x) || (q || x)) = true := by
    intro p q x hpq
    cases p <;> cases q <;> cases x <;> first | rfl | exact hpq
  simp only [instructionClasses, flatMap_cons, flatMap_nil,
    append_eq_nil_iff, and_true] at hb ⊢
  obtain ⟨h₁, h₂, h₃, h₄⟩ := hb
  exact ⟨hone (hor hcpuid) h₁, hone (hor hrdtsc) h₂, hone hrdrand h₃, hone hxgetbv h₄⟩

variable {guest : GuestProfile}

theorem requirementReasons_mono (h : a.isRelaxationOf b = true)
    (hb : requirementReasons (.compute b s q) guest cell = []) :
    requirementReasons (.compute a s q) guest cell = [] := by
  simp only [requirementReasons, append_eq_nil_iff] at hb ⊢
  obtain ⟨⟨⟨hshape, hlife⟩, hinstr⟩, hquery⟩ := hb
  refine ⟨⟨⟨shapeReasons_mono h hshape, lifecycleReasons_mono h hlife⟩, ?_⟩, hquery⟩
  exact instructionClasses_mono
    (fun wanted got name => reasonIf (wanted && got = .absent) (.instructionUnmediated name))
    (fun _ _ => rfl) h hinstr

theorem environmentReasons_mono (h : a.isRelaxationOf b = true)
    (hb : environmentReasons (.compute b s q) env cell = []) :
    environmentReasons (.compute a s q) env cell = [] := by
  simp only [environmentReasons, append_eq_nil_iff] at hb ⊢
  obtain ⟨⟨hrest, hinstr⟩, hcode⟩ := hb
  refine ⟨⟨hrest, instructionClasses_mono (fun wanted got _ => instructionReasons env wanted got)
    (fun _ _ => rfl) h hinstr⟩, ?_⟩
  have hcode' := h
  simp only [ToolRequirements.isRelaxationOf, LifecycleRequirements.relaxes, Bool.and_eq_true] at hcode'
  obtain ⟨⟨⟨⟨-, -, hdynamic⟩, -⟩, -⟩, -⟩ := hcode'
  simp only [codeReasons, reasonIf_eq_nil, Bool.and_assoc] at hcode ⊢
  exact demand_mono (dynamicCode_demand hdynamic) hcode

end

/-! ## Monotonicity -/

/-- **Relaxation is monotone.**  If `a` relaxes `b`, then with the same subscription,
    queries, guest, environment and candidate cells, every cell that is eligible for
    `b` is eligible for `a`; so if `b` is admitted, `a` is, and with at least the
    cells of `b`. -/
theorem relaxation_monotone (a b : ToolRequirements) (h : a.isRelaxationOf b = true)
    (s : Subscription) (q : ToolQueries) (guest : GuestProfile) (env : EnvironmentSnapshot)
    (cells : List ImplementedCell) :
    (∀ cell, Eligible ⟨.compute b s q, guest, env, .auto⟩ cell →
      Eligible ⟨.compute a s q, guest, env, .auto⟩ cell) ∧
    ∀ r, admitOver ⟨.compute b s q, guest, env, .auto⟩ cells = .ok r →
      ∃ r', admitOver ⟨.compute a s q, guest, env, .auto⟩ cells = .ok r' ∧ r.eligible ⊆ r'.eligible := by
  have hmono : ∀ cell, Eligible ⟨.compute b s q, guest, env, .auto⟩ cell →
      Eligible ⟨.compute a s q, guest, env, .auto⟩ cell :=
    fun cell hb => ⟨requirementReasons_mono h hb.1, environmentReasons_mono h hb.2⟩
  refine ⟨hmono, fun r hr => ?_⟩
  obtain ⟨⟨cell, hcell, hb⟩, heligible⟩ := admitOver_eligible rfl hr
  obtain ⟨r', hr', heligible'⟩ := admitOver_auto ⟨.compute a s q, guest, env, .auto⟩ rfl
    ⟨cell, hcell, hmono cell hb⟩
  refine ⟨r', hr', fun id hid => ?_⟩
  obtain ⟨c, hc, hcb, hid⟩ := heligible id hid
  exact (heligible' id).2 ⟨c, hc, hmono c hcb, hid⟩

/-- The strict default, and a tool that accepts a preload window and needs neither
    threads nor exec. -/
theorem relaxation_monotone_default :
    let a : ToolRequirements := { ToolRequirements.default with
      window := .declared true
      lifecycle := ⟨false, true, false, false, false, .notRequired⟩ }
    a.isRelaxationOf .default = true ∧
      ∀ s q guest env cells r,
        admitOver ⟨.compute .default s q, guest, env, .auto⟩ cells = .ok r →
          ∃ r', admitOver ⟨.compute a s q, guest, env, .auto⟩ cells = .ok r' ∧
            r.eligible ⊆ r'.eligible := by
  refine ⟨by decide, fun s q guest env cells => ?_⟩
  exact (relaxation_monotone _ .default (by decide) s q guest env cells).2

end Reverie.Selection
