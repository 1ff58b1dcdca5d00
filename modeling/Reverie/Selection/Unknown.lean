/-
  Unknown facts of the environment.  What is known removes a cell in every completion
  (`environmentReasons_persist`), and what is unknown does not in the best one
  (`environmentReasons_complete`).  Main theorem: `unknown_refusal_exact`.
-/
import Reverie.Selection.Relaxation

namespace Reverie.Selection
open List

/-! ## Completions -/

/-- The probes of the environment. -/
inductive Probe where
  | P1 | P2 | P3 | P4 | P5 | P6 | P7 | P8 | P9 | P10

def Probe.name : Probe → String
  | .P1 => "P1"
  | .P2 => "P2"
  | .P3 => "P3"
  | .P4 => "P4"
  | .P5 => "P5"
  | .P6 => "P6"
  | .P7 => "P7"
  | .P8 => "P8"
  | .P9 => "P9"
  | .P10 => "P10"

section
variable {α : Type}

/-- The other fact knows at least as much; `rel` compares the values. -/
def Knowledge.Refines (rel : α → α → Prop) : Knowledge α → Knowledge α → Prop
  | .unknown _, _ => True
  | .proved v, .proved v' => rel v v'
  | .disproved, .disproved => True
  | _, _ => False

/-- Nothing is left to know. -/
def Knowledge.Definite (full : α → Prop) : Knowledge α → Prop
  | .proved v => full v
  | .disproved => True
  | .unknown _ => False

/-- The fact is the same, or it is one that may be refined. -/
def Refined (may : Prop) (rel : α → α → Prop) (k k' : Knowledge α) : Prop :=
  k' = k ∨ may ∧ k.Refines rel k'

theorem Refined.eq {may : Prop} {k k' : Knowledge α} (h : Refined may Eq k k')
    (hk : k.isUnknown = false) : k' = k := by
  rcases h with h | ⟨-, h⟩
  · exact h
  · cases k with
    | unknown => cases hk
    | proved v =>
      cases k' with
      | proved v' =>
        obtain rfl : v = v' := h
        rfl
      | disproved => cases h
      | unknown => cases h
    | disproved =>
      cases k' with
      | disproved => rfl
      | proved => cases h
      | unknown => cases h

end

/-- Only an unproved trial may be refined. -/
def SeccompState.Refines (s s' : SeccompState) : Prop :=
  s' = s ∨ s.install = .unknown ∧ s' = { s with install := s'.install }

namespace EnvironmentSnapshot

/-- The other snapshot knows at least as much of the probes, and the same of the others. -/
structure RefinesOn (probes : Probe → Prop) (env env' : EnvironmentSnapshot) : Prop where
  p1 : Refined (probes .P1) Eq env.p1PtraceUsable env'.p1PtraceUsable
  p2 : Refined (probes .P2) Eq env.p2ExistingTracer env'.p2ExistingTracer
  p3 : Refined (probes .P3) SeccompState.Refines env.p3Seccomp env'.p3Seccomp
  p4 : Refined (probes .P4) Eq env.p4Sud env'.p4Sud
  p5 : Refined (probes .P5) Eq env.p5CpuidFaulting env'.p5CpuidFaulting
  p6 : Refined (probes .P6) Eq env.p6PrSetTsc env'.p6PrSetTsc
  p7 : Refined (probes .P7) Eq env.p7Wx env'.p7Wx
  p8 : Refined (probes .P8) Eq env.p8SignalOwnership env'.p8SignalOwnership
  p9 : Refined (probes .P9) Eq env.p9CodeShape env'.p9CodeShape
  p10 : Refined (probes .P10) Eq env.p10Arch env'.p10Arch

/-- Every fact is definite, and the trial of a filter too. -/
structure Definite (env : EnvironmentSnapshot) : Prop where
  p1 : env.p1PtraceUsable.Definite fun _ => True
  p2 : env.p2ExistingTracer.Definite fun _ => True
  p3 : env.p3Seccomp.Definite fun s => s.install ≠ .unknown
  p4 : env.p4Sud.Definite fun _ => True
  p5 : env.p5CpuidFaulting.Definite fun _ => True
  p6 : env.p6PrSetTsc.Definite fun _ => True
  p7 : env.p7Wx.Definite fun _ => True
  p8 : env.p8SignalOwnership.Definite fun _ => True
  p9 : env.p9CodeShape.Definite fun _ => True
  p10 : env.p10Arch.Definite fun _ => True

/-- A completion of the unknown facts by definite values. -/
structure Completes (env env' : EnvironmentSnapshot) : Prop where
  refines : env.RefinesOn (fun _ => True) env'
  definite : env'.Definite

end EnvironmentSnapshot

/-- The probes that gate a cell: the architecture's, its activation's and its mechanism's, and
    those that the instruction classes the request wants depend on. -/
inductive Gates (req : EffectiveRequirements) (cell : ImplementedCell) : Probe → Prop
  | arch : Gates req cell .P10
  | ptrace : cell.activation = .ptraceExecStop → Gates req cell .P1
  | seccomp : cell.activation = .preloadLate → Gates req cell .P3
  | patching : cell.mechanism = .inPlacePatching → Gates req cell .P7
  | cpuid (probe : Probe) : req.instructions.cpuid = true →
      cell.instructions.cpuid = .requiresEnv probe.name → Gates req cell probe
  | rdtsc (probe : Probe) : req.instructions.rdtsc = true →
      cell.instructions.rdtsc = .requiresEnv probe.name → Gates req cell probe
  | rdrandRdseed (probe : Probe) : req.instructions.rdrandRdseed = true →
      cell.instructions.rdrandRdseed = .requiresEnv probe.name → Gates req cell probe
  | xgetbv (probe : Probe) : req.instructions.xgetbv = true →
      cell.instructions.xgetbv = .requiresEnv probe.name → Gates req cell probe

/-! ## What is known persists -/

theorem mem_reasonIf {condition : Bool} {r reason : RemovalReason} :
    r ∈ reasonIf condition reason ↔ condition = true ∧ r = reason := by
  cases condition <;> simp [reasonIf]

/-- The definite reasons are reasons on the other side, too. -/
def Persist (rs rs' : List RemovalReason) : Prop :=
  ∀ r ∈ rs, r.isUnknown = false → r ∈ rs'

theorem Persist.refl (rs : List RemovalReason) : Persist rs rs := fun _ hr _ => hr

variable {rs us : List RemovalReason} {α : Type}

theorem Persist.append {rs' us' : List RemovalReason} (h : Persist rs rs') (h' : Persist us us') :
    Persist (rs ++ us) (rs' ++ us') := by
  intro r hr hknown
  rcases mem_append.1 hr with hr | hr
  · exact mem_append_left _ (h r hr hknown)
  · exact mem_append_right _ (h' r hr hknown)

theorem Persist.flatMap {β : Type} {l : List β} {f g : β → List RemovalReason}
    (h : ∀ x, Persist (f x) (g x)) : Persist (l.flatMap f) (l.flatMap g) := by
  intro r hr hknown
  obtain ⟨x, hx, hr⟩ := mem_flatMap.1 hr
  exact mem_flatMap.2 ⟨x, hx, h x r hr hknown⟩

/-- A part that reads one fact: either the fact is final, or what the part finds is not
    definite. -/
theorem Persist.of_fact {may : Prop} {k k' : Knowledge α} (f : Knowledge α → List RemovalReason)
    (h : Refined may Eq k k') (hf : ∀ why, ∀ r ∈ f (.unknown why), r.isUnknown = true) :
    Persist (f k) (f k') := by
  cases hk : k.isUnknown with
  | false =>
    rw [h.eq hk]
    exact Persist.refl _
  | true =>
    cases k with
    | unknown why =>
      intro r hr hknown
      rw [hf why r hr] at hknown
      cases hknown
    | proved => cases hk
    | disproved => cases hk

section
variable {probes : Probe → Prop} {env env' : EnvironmentSnapshot}

theorem seccompReasons_persist {may : Prop} {k k' : Knowledge SeccompState}
    (h : Refined may SeccompState.Refines k k') : Persist (seccompReasons k) (seccompReasons k') := by
  rcases h with rfl | ⟨-, h⟩
  · exact Persist.refl _
  intro r hr hknown
  cases k with
  | unknown =>
    rw [mem_singleton.1 hr] at hknown
    cases hknown
  | disproved =>
    cases k' with
    | disproved => exact hr
    | proved => cases h
    | unknown => cases h
  | proved s =>
    cases k' with
    | disproved => cases h
    | unknown => cases h
    | proved s' =>
      rcases h with rfl | ⟨hinstall, hs'⟩
      · exact hr
      -- the trial is unproved: only the strict mode is definite
      have hmode : s'.mode = s.mode := by rw [hs']
      simp only [seccompReasons, hinstall, reduceCtorEq, or_false] at hr ⊢
      by_cases hstrict : s.mode = 1
      · simpa only [hstrict, hmode, true_or, if_true] using hr
      · simp only [hstrict, if_false, mem_singleton] at hr
        rw [hr] at hknown
        cases hknown

variable (h : env.RefinesOn probes env')
include h

theorem activationReasons_persist (cell : ImplementedCell) :
    Persist (activationReasons env cell) (activationReasons env' cell) := by
  simp only [activationReasons]
  cases cell.activation with
  | ptraceExecStop =>
    refine Persist.of_fact (boolProbe · "P1") h.p1 fun why r hr => ?_
    rw [mem_singleton.1 hr]
    rfl
  | preloadLate => exact seccompReasons_persist h.p3
  | customLoaderNoPtrace | attach | externalDebuggerCoexist | vmSubstrate => exact Persist.refl _

theorem mappingReasons_persist (cell : ImplementedCell) :
    Persist (mappingReasons env cell) (mappingReasons env' cell) := by
  simp only [mappingReasons]
  by_cases hpatch : cell.mechanism = .inPlacePatching
  · simp only [hpatch]
    refine Persist.of_fact wxReasons h.p7 fun why r hr => ?_
    rw [mem_singleton.1 hr]
    rfl
  · simp only [hpatch]
    exact Persist.refl _

theorem signalReasons_persist (cell : ImplementedCell) :
    Persist (signalReasons env cell) (signalReasons env' cell) := by
  refine Persist.of_fact (fun k => reasonIf (cell.envelope.signalOwnershipAtHandoff && k.isDenied)
    (.envDisproved "P8")) h.p8 fun why r hr => ?_
  simp only [Knowledge.isDenied, Bool.and_false, mem_reasonIf, Bool.false_eq_true, false_and] at hr

theorem instructionReasons_persist (wanted : Bool)
    (got : InstructionMediation) :
    Persist (instructionReasons env wanted got) (instructionReasons env' wanted got) := by
  have hfact : ∀ {may : Prop} {k k' : Knowledge Bool} {probe : String}, Refined may Eq k k' →
      Persist (prerequisiteReasons probe (some k)) (prerequisiteReasons probe (some k')) := by
    intro may k k' probe hk
    refine Persist.of_fact (fun k => prerequisiteReasons probe (some k)) hk fun why r hr => ?_
    rw [mem_singleton.1 hr]
    rfl
  cases wanted with
  | false => exact Persist.refl _
  | true =>
    cases got with
    | mediated | absent => exact Persist.refl _
    | requiresEnv probe =>
      simp only [instructionReasons, probeFact]
      by_cases h5 : probe = "P5"
      · simp only [h5]
        exact hfact h.p5
      by_cases h6 : probe = "P6"
      · simp only [h6]
        exact hfact h.p6
      · simp only [h5, h6]
        exact Persist.refl _

theorem codeReasons_persist (req : EffectiveRequirements)
    (cell : ImplementedCell) : Persist (codeReasons req env cell) (codeReasons req env' cell) := by
  refine Persist.of_fact (fun k => reasonIf (req.stated.lifecycle.dynamicCode = .mustCover &&
    cell.code = .censusPatchOnly && k.hasJit) .codeUncovered) h.p9 fun why r hr => ?_
  simp only [Knowledge.hasJit, Bool.and_false, mem_reasonIf, Bool.false_eq_true, false_and] at hr

/-- A definite reason against a cell is one in every snapshot that knows more. -/
theorem environmentReasons_persist (req : EffectiveRequirements)
    (cell : ImplementedCell) :
    Persist (environmentReasons req env cell) (environmentReasons req env' cell) := by
  have harch : Persist (archReasons env.p10Arch) (archReasons env'.p10Arch) := by
    refine Persist.of_fact archReasons h.p10 fun why r hr => ?_
    rw [mem_singleton.1 hr]
    rfl
  exact ((((harch.append (activationReasons_persist h cell)).append
    (signalReasons_persist h cell)).append (mappingReasons_persist h cell)).append
    (Persist.flatMap fun (wanted, got, _) => instructionReasons_persist h wanted got)).append
    (codeReasons_persist h req cell)

end

/-! ## The best completion -/

/-- An unknown fact is taken to be proved. -/
def Knowledge.orProved {α : Type} (v : α) : Knowledge α → Knowledge α
  | .unknown _ => .proved v
  | k => k

/-- An unproved trial is taken to be proved. -/
def SeccompState.complete (s : SeccompState) : SeccompState :=
  if s.install = .unknown then { s with install := .proved } else s

def completeSeccomp : Knowledge SeccompState → Knowledge SeccompState
  | .unknown _ => .proved ⟨0, 0, true, .proved⟩
  | .proved s => .proved s.complete
  | .disproved => .disproved

/-- Every unknown fact is what a cell can best hope for. -/
def EnvironmentSnapshot.complete (env : EnvironmentSnapshot) : EnvironmentSnapshot where
  p1PtraceUsable := env.p1PtraceUsable.orProved true
  p2ExistingTracer := env.p2ExistingTracer.orProved false
  p3Seccomp := completeSeccomp env.p3Seccomp
  p4Sud := env.p4Sud.orProved true
  p5CpuidFaulting := env.p5CpuidFaulting.orProved true
  p6PrSetTsc := env.p6PrSetTsc.orProved true
  p7Wx := env.p7Wx.orProved .dualMapAllowed
  p8SignalOwnership := env.p8SignalOwnership.orProved true
  p9CodeShape := env.p9CodeShape.orProved ⟨true, true, false⟩
  p10Arch := env.p10Arch.orProved ⟨true, false⟩

theorem orProved_refines (v : α) (k : Knowledge α) : Refined True Eq k (k.orProved v) := by
  cases k with
  | proved => exact .inl rfl
  | disproved => exact .inl rfl
  | unknown => exact .inr ⟨trivial, trivial⟩

theorem orProved_definite (v : α) (k : Knowledge α) : (k.orProved v).Definite fun _ => True := by
  cases k with
  | proved | disproved | unknown => exact trivial

theorem completeSeccomp_refines (k : Knowledge SeccompState) :
    Refined True SeccompState.Refines k (completeSeccomp k) := by
  cases k with
  | unknown => exact .inr ⟨trivial, trivial⟩
  | disproved => exact .inl rfl
  | proved s =>
    refine .inr ⟨trivial, ?_⟩
    simp only [completeSeccomp, Knowledge.Refines, SeccompState.Refines, SeccompState.complete]
    by_cases hinstall : s.install = .unknown
    · simp only [hinstall, if_true, true_and, or_true]
    · simp only [hinstall, if_false, true_or]

theorem completeSeccomp_definite (k : Knowledge SeccompState) :
    (completeSeccomp k).Definite fun s => s.install ≠ .unknown := by
  cases k with
  | unknown => exact InstallEvidence.noConfusion
  | disproved => exact trivial
  | proved s =>
    simp only [completeSeccomp, Knowledge.Definite, SeccompState.complete]
    by_cases hinstall : s.install = .unknown
    · simp only [hinstall, if_true, ne_eq, reduceCtorEq, not_false_iff]
    · simp only [hinstall, if_false, ne_eq, not_false_iff]

theorem complete_completes (env : EnvironmentSnapshot) : env.Completes env.complete where
  refines :=
    { p1 := orProved_refines _ _, p2 := orProved_refines _ _, p3 := completeSeccomp_refines _
      p4 := orProved_refines _ _, p5 := orProved_refines _ _, p6 := orProved_refines _ _
      p7 := orProved_refines _ _, p8 := orProved_refines _ _, p9 := orProved_refines _ _
      p10 := orProved_refines _ _ }
  definite :=
    { p1 := orProved_definite _ _, p2 := orProved_definite _ _, p3 := completeSeccomp_definite _
      p4 := orProved_definite _ _, p5 := orProved_definite _ _, p6 := orProved_definite _ _
      p7 := orProved_definite _ _, p8 := orProved_definite _ _, p9 := orProved_definite _ _
      p10 := orProved_definite _ _ }

/-- All the reasons are unknown facts. -/
def AllUnknown (rs : List RemovalReason) : Prop := ∀ r ∈ rs, r.isUnknown = true

theorem allUnknown_append :
    AllUnknown (rs ++ us) ↔ AllUnknown rs ∧ AllUnknown us := forall_mem_append

theorem AllUnknown.eq_nil (h : AllUnknown rs)
    (hknown : ∀ r ∈ rs, r.isUnknown = false) : rs = [] := by
  refine eq_nil_iff_forall_not_mem.2 fun r hr => ?_
  have hr' := h r hr
  rw [hknown r hr] at hr'
  cases hr'

/-- A part that reads one fact finds nothing in the best completion, if it found only
    that the fact is unknown. -/
theorem AllUnknown.complete {k : Knowledge α} (f : Knowledge α → List RemovalReason) (v : α)
    (hv : f (.proved v) = []) (hproved : ∀ w, ∀ r ∈ f (.proved w), r.isUnknown = false)
    (hdisproved : ∀ r ∈ f .disproved, r.isUnknown = false) (h : AllUnknown (f k)) :
    f (k.orProved v) = [] := by
  cases k with
  | unknown => exact hv
  | proved w => exact h.eq_nil (hproved w)
  | disproved => exact h.eq_nil hdisproved

section
variable {env : EnvironmentSnapshot} {cell : ImplementedCell}

theorem archReasons_complete (h : AllUnknown (archReasons env.p10Arch)) :
    archReasons env.complete.p10Arch = [] := by
  refine h.complete archReasons ⟨true, false⟩ rfl (fun w r hr => ?_) fun r hr => ?_
  · cases hlinux : w.linuxX8664 with
    | true =>
      simp only [archReasons, hlinux] at hr
      cases hr
    | false =>
      simp only [archReasons, hlinux] at hr
      rw [mem_singleton.1 hr]
      rfl
  · rw [mem_singleton.1 hr]
    rfl

variable {k : Knowledge Bool} {req : EffectiveRequirements}

theorem boolProbe_complete {name : String} (h : AllUnknown (boolProbe k name)) :
    boolProbe (k.orProved true) name = [] := by
  refine h.complete (boolProbe · name) true rfl (fun w r hr => ?_) fun r hr => ?_
  · cases w with
    | true => cases hr
    | false =>
      rw [mem_singleton.1 hr]
      rfl
  · rw [mem_singleton.1 hr]
    rfl

theorem seccompReasons_complete {k : Knowledge SeccompState} (h : AllUnknown (seccompReasons k)) :
    seccompReasons (completeSeccomp k) = [] := by
  cases k with
  | unknown => rfl
  | disproved => cases h _ (mem_singleton_self _)
  | proved s =>
    simp only [seccompReasons, completeSeccomp, SeccompState.complete] at h ⊢
    by_cases hdenied : s.mode = 1 ∨ s.install = .refused
    · simp only [hdenied] at h
      cases h _ (mem_singleton_self _)
    · obtain ⟨hmode, hrefused⟩ := not_or.1 hdenied
      cases hinstall : s.install with
      | proved => simp only [hinstall, hmode, reduceCtorEq, or_self, if_false, if_true]
      | refused => exact absurd hinstall hrefused
      | unknown => simp only [hmode, reduceCtorEq, or_self, if_false, if_true]

theorem activationReasons_complete (h : AllUnknown (activationReasons env cell)) :
    activationReasons env.complete cell = [] := by
  simp only [activationReasons] at h ⊢
  cases hactivation : cell.activation with
  | ptraceExecStop =>
    simp only [hactivation] at h
    exact boolProbe_complete h
  | preloadLate =>
    simp only [hactivation] at h
    exact seccompReasons_complete h
  | customLoaderNoPtrace | attach | externalDebuggerCoexist | vmSubstrate => rfl

theorem signalReasons_complete (h : AllUnknown (signalReasons env cell)) :
    signalReasons env.complete cell = [] := by
  refine h.complete (fun k => reasonIf (cell.envelope.signalOwnershipAtHandoff && k.isDenied)
    (.envDisproved "P8")) true ?_ (fun w r hr => ?_) fun r hr => ?_
  · simp only [Knowledge.isDenied, Bool.and_false, reasonIf_eq_nil]
  · rw [(mem_reasonIf.1 hr).2]
    rfl
  · rw [(mem_reasonIf.1 hr).2]
    rfl

theorem mappingReasons_complete (h : AllUnknown (mappingReasons env cell)) :
    mappingReasons env.complete cell = [] := by
  simp only [mappingReasons] at h ⊢
  by_cases hpatch : cell.mechanism = .inPlacePatching
  · simp only [hpatch] at h ⊢
    refine h.complete wxReasons .dualMapAllowed rfl (fun w r hr => ?_) fun r hr => ?_
    · cases w with
      | dualMapAllowed => cases hr
      | strictWx =>
        rw [mem_singleton.1 hr]
        rfl
    · rw [mem_singleton.1 hr]
      rfl
  · simp only [hpatch, if_false]

theorem codeReasons_complete (h : AllUnknown (codeReasons req env cell)) :
    codeReasons req env.complete cell = [] := by
  refine h.complete (fun k => reasonIf (req.stated.lifecycle.dynamicCode = .mustCover &&
    cell.code = .censusPatchOnly && k.hasJit) .codeUncovered) ⟨true, true, false⟩ ?_
    (fun w r hr => ?_) fun r hr => ?_
  · simp only [Knowledge.hasJit, Bool.and_false, reasonIf_eq_nil]
  · rw [(mem_reasonIf.1 hr).2]
    rfl
  · rw [(mem_reasonIf.1 hr).2]
    rfl

/-- The prerequisite is one that a fact is behind. -/
def InstructionMediation.Known (got : InstructionMediation) : Prop :=
  ∀ probe, got = .requiresEnv probe → probe = "P5" ∨ probe = "P6"

theorem prerequisiteReasons_complete {probe : String}
    (h : AllUnknown (prerequisiteReasons probe (some k))) :
    prerequisiteReasons probe (some (k.orProved true)) = [] := by
  refine h.complete (fun k => prerequisiteReasons probe (some k)) true rfl (fun w r hr => ?_)
    fun r hr => ?_
  · cases w with
    | true => cases hr
    | false =>
      rw [mem_singleton.1 hr]
      rfl
  · rw [mem_singleton.1 hr]
    rfl

theorem instructionReasons_complete {wanted : Bool} {got : InstructionMediation} (hgot : got.Known)
    (h : AllUnknown (instructionReasons env wanted got)) :
    instructionReasons env.complete wanted got = [] := by
  cases wanted with
  | false => rfl
  | true =>
    cases got with
    | mediated | absent => rfl
    | requiresEnv probe =>
      rcases hgot probe rfl with rfl | rfl
      · exact prerequisiteReasons_complete h
      · exact prerequisiteReasons_complete h

/-- Where only unknown facts are against a cell, the best completion has none against it. -/
theorem environmentReasons_complete (hknown : ∀ x ∈ instructionClasses req cell, x.2.1.Known)
    (h : AllUnknown (environmentReasons req env cell)) :
    environmentReasons req env.complete cell = [] := by
  simp only [environmentReasons, allUnknown_append] at h
  obtain ⟨⟨⟨⟨⟨harch, hactivation⟩, hsignal⟩, hmapping⟩, hinstr⟩, hcode⟩ := h
  simp only [environmentReasons, append_eq_nil_iff, flatMap_eq_nil_iff]
  refine ⟨⟨⟨⟨⟨archReasons_complete harch, activationReasons_complete hactivation⟩,
    signalReasons_complete hsignal⟩, mappingReasons_complete hmapping⟩, fun x hx => ?_⟩,
    codeReasons_complete hcode⟩
  exact instructionReasons_complete (hknown x hx) fun r hr => hinstr r (mem_flatMap.2 ⟨x, hx, hr⟩)

end

/-! ## The trace -/

section
variable {request : AdmissionRequest} {cells : List ImplementedCell}

variable {cell : ImplementedCell} {r : RemovalReason}

theorem requirementReasons_known {req : EffectiveRequirements} {guest : GuestProfile} :
    ∀ r ∈ requirementReasons req guest cell, r.isUnknown = false := by
  have hany : (requirementReasons req guest cell).any RemovalReason.isUnknown = false := by
    have hif : ∀ c x, (reasonIf c x).any RemovalReason.isUnknown = (c && x.isUnknown) := by
      intro c x
      cases c <;> simp [reasonIf]
    simp only [requirementReasons, shapeReasons, lifecycleReasons, instructionClasses, queryReasons,
      flatMap_cons, flatMap_nil, any_append, any_nil, hif, RemovalReason.isUnknown,
      Bool.and_false, Bool.or_false]
  intro r hr
  by_contra hr'
  exact Bool.false_ne_true (hany.symm.trans (any_eq_true.2 ⟨r, hr, by simpa using hr'⟩))

theorem mem_removed {name : String} {alive : List ImplementedCell}
    {reasons : ImplementedCell → List RemovalReason} {id : CellId} :
    r ∈ ((runStage name alive reasons).2.removed.filter fun entry => entry.1 = id).flatMap (·.2) ↔
      ∃ cell ∈ alive, cell.id = id ∧ r ∈ reasons cell := by
  simp only [runStage, mem_flatMap, mem_filter, mem_map, decide_eq_true_eq]
  constructor
  · rintro ⟨entry, ⟨⟨cell, ⟨hcell, -⟩, rfl⟩, hid⟩, hr⟩
    exact ⟨cell, hcell, hid, hr⟩
  · rintro ⟨cell, hcell, hid, hr⟩
    refine ⟨(cell.id, reasons cell), ⟨⟨cell, ⟨hcell, ?_⟩, rfl⟩, hid⟩, hr⟩
    simpa only [Bool.not_eq_true', isEmpty_eq_false_iff] using ne_nil_of_mem hr

/-- What the trace has of a cell: the reasons of the stage that removed it. -/
theorem mem_reasonsFor (hids : ∀ c ∈ cells, ∀ d ∈ cells, c.id = d.id → c = d)
    (hcell : cell ∈ cells) :
    r ∈ (admissionTrace request cells).reasonsFor cell.id ↔
      r ∈ requirementReasons request.requirements request.guest cell ∨
      requirementReasons request.requirements request.guest cell = [] ∧
        r ∈ environmentReasons request.requirements request.env cell := by
  simp only [FilterTrace.reasonsFor, admissionTrace, runStages, flatMap_cons, flatMap_nil,
    append_nil, mem_append, mem_removed]
  refine or_congr ⟨?_, fun hr => ⟨cell, hcell, rfl, hr⟩⟩ ⟨?_, ?_⟩
  · rintro ⟨c, hc, hid, hr⟩
    rwa [← hids c hc cell hcell hid]
  · rintro ⟨c, hc, hid, hr⟩
    obtain ⟨hc, hpassed⟩ := mem_filter.1 hc
    obtain rfl := hids c hc cell hcell hid
    exact ⟨isEmpty_iff.1 hpassed, hr⟩
  · rintro ⟨hpassed, hr⟩
    exact ⟨cell, mem_filter.2 ⟨hcell, isEmpty_iff.2 hpassed⟩, rfl, hr⟩

/-- The test of `refusal_code`: only unknown facts are against some cell. -/
theorem only_unknown_iff (hids : ∀ c ∈ cells, ∀ d ∈ cells, c.id = d.id → c = d) :
    ((cells.map fun c => (admissionTrace request cells).reasonsFor c.id).any fun rs =>
      !rs.isEmpty && rs.all RemovalReason.isUnknown) = true ↔
    ∃ cell ∈ cells, requirementReasons request.requirements request.guest cell = [] ∧
      environmentReasons request.requirements request.env cell ≠ [] ∧
      AllUnknown (environmentReasons request.requirements request.env cell) := by
  simp only [any_map, any_eq_true, Function.comp_apply, Bool.and_eq_true, Bool.not_eq_true',
    isEmpty_eq_false_iff, all_eq_true]
  refine exists_congr fun cell => and_congr_right fun hcell => ⟨?_, ?_⟩
  · rintro ⟨hne, hall⟩
    simp only [mem_reasonsFor hids hcell] at hall
    have hpassed : requirementReasons request.requirements request.guest cell = [] :=
      AllUnknown.eq_nil (fun r hr => hall r (.inl hr)) requirementReasons_known
    obtain ⟨r, hr⟩ := exists_mem_of_ne_nil _ hne
    rcases (mem_reasonsFor hids hcell).1 hr with hr | ⟨-, hr⟩
    · rw [hpassed] at hr
      cases hr
    · exact ⟨hpassed, ne_nil_of_mem hr, fun r hr => hall r (.inr ⟨hpassed, hr⟩)⟩
  · rintro ⟨hpassed, hne, hall⟩
    obtain ⟨r, hr⟩ := exists_mem_of_ne_nil _ hne
    refine ⟨ne_nil_of_mem ((mem_reasonsFor hids hcell).2 (.inr ⟨hpassed, hr⟩)), fun r hr => ?_⟩
    rcases (mem_reasonsFor hids hcell).1 hr with hr | ⟨-, hr⟩
    · rw [hpassed] at hr
      cases hr
    · exact hall r hr

theorem dominatingCode_ne_unknown (emptying : List (CellId × List RemovalReason)) :
    dominatingCode emptying ≠ .rEnvUnknown := by
  -- the fold keeps a code of its list
  have hfold : ∀ (codes : List RefusalCode) (best : Option (RefusalCode × ℕ)),
      RefusalCode.rEnvUnknown ∉ codes → (∀ b ∈ best, b.1 ≠ .rEnvUnknown) →
      ∀ b ∈ codes.foldl (fun best code =>
        let count := emptying.countP fun entry => entry.2.any (·.code = code)
        if 0 < count ∧ best.all (·.2 < count) then some (code, count) else best) best,
        b.1 ≠ .rEnvUnknown := by
    intro codes
    induction codes with
    | nil => exact fun _ _ hbest => hbest
    | cons code codes ih =>
      intro best hcodes hbest
      obtain ⟨hcode, hcodes⟩ := not_or.1 (mt mem_cons.2 hcodes)
      refine ih _ hcodes fun b hb => ?_
      simp only at hb
      split at hb
      · obtain rfl := Option.some.inj hb
        exact fun h => hcode h.symm
      · exact hbest b hb
  have hbest := hfold PRECEDENCE none (by decide) (fun _ h => by cases h)
  simp only [dominatingCode]
  intro h
  generalize PRECEDENCE.foldl _ none = best at h hbest
  cases best with
  | none => cases h
  | some b => exact hbest b rfl h

theorem refusalCode_unknown_iff (hids : ∀ c ∈ cells, ∀ d ∈ cells, c.id = d.id → c = d) :
    refusalCode request cells (admissionTrace request cells) = .rEnvUnknown ↔
      request.env.p10Arch.archDisproved = false ∧
      ¬ (request.requirements.stated.density = .dense ∧ ∀ c ∈ cells, c.mechanism ≠ .translation) ∧
      ∃ cell ∈ cells, requirementReasons request.requirements request.guest cell = [] ∧
        environmentReasons request.requirements request.env cell ≠ [] ∧
        AllUnknown (environmentReasons request.requirements request.env cell) := by
  rw [← only_unknown_iff hids]
  simp only [refusalCode, ite_eq_iff, reduceCtorEq, and_false, false_or, and_true,
    dominatingCode_ne_unknown, or_false, Bool.not_eq_true]

end

/-! ## Gates -/

section
variable {req : EffectiveRequirements} {env env' : EnvironmentSnapshot} {cell : ImplementedCell}

/-- The fact of the probe is as a cell needs it. -/
def EnvironmentSnapshot.Granted (env : EnvironmentSnapshot) : Probe → Prop
  | .P1 => env.p1PtraceUsable = .proved true
  | .P3 => ∃ s, env.p3Seccomp = .proved s ∧ s.install = .proved
  | .P5 => env.p5CpuidFaulting = .proved true
  | .P6 => env.p6PrSetTsc = .proved true
  | .P7 => env.p7Wx = .proved .dualMapAllowed
  | .P10 => ∃ floor, env.p10Arch = .proved floor ∧ floor.linuxX8664 = true
  | .P2 | .P4 | .P8 | .P9 => False

theorem prerequisiteReasons_eq_nil {probe : String} {fact : Option (Knowledge Bool)}
    (h : prerequisiteReasons probe fact = []) : fact = some (.proved true) := by
  revert h
  simp only [prerequisiteReasons]
  split <;> simp

theorem granted_of_class {probe : Probe} {wanted : Bool} {got : InstructionMediation}
    (h : instructionReasons env wanted got = []) (hwanted : wanted = true)
    (hgot : got = .requiresEnv probe.name) : env.Granted probe := by
  rw [hwanted, hgot] at h
  have hfact := prerequisiteReasons_eq_nil h
  cases probe <;> simp [probeFact, Probe.name] at hfact <;> exact hfact

/-- A cell with no reason against it has every fact that gates it. -/
theorem Gates.granted {probe : Probe} (hgate : Gates req cell probe)
    (h : environmentReasons req env cell = []) : env.Granted probe := by
  simp only [environmentReasons, instructionClasses, append_eq_nil_iff, flatMap_cons] at h
  obtain ⟨⟨⟨⟨⟨harch, hactivation⟩, -⟩, hmapping⟩, hcpuid, hrdtsc, hrdrand, hxgetbv, -⟩, -⟩ := h
  cases hgate with
  | arch =>
    simp only [archReasons] at harch
    split at harch
    · rename_i floor hfloor
      split_ifs at harch with hlinux
      exact ⟨floor, hfloor, hlinux⟩
    · cases harch
    · cases harch
  | ptrace hptrace =>
    simp only [activationReasons, hptrace, boolProbe] at hactivation
    split at hactivation
    · assumption
    · cases hactivation
    · cases hactivation
    · cases hactivation
  | seccomp hpreload =>
    simp only [activationReasons, hpreload, seccompReasons] at hactivation
    split at hactivation
    · rename_i s hs
      split_ifs at hactivation with hdenied hinstall
      exact ⟨s, hs, hinstall⟩
    · cases hactivation
    · cases hactivation
  | patching hpatch =>
    simp only [mappingReasons, hpatch, if_true, wxReasons] at hmapping
    split at hmapping
    · assumption
    · cases hmapping
    · cases hmapping
    · cases hmapping
  | cpuid _ hwanted hgot => exact granted_of_class hcpuid hwanted hgot
  | rdtsc _ hwanted hgot => exact granted_of_class hrdtsc hwanted hgot
  | rdrandRdseed _ hwanted hgot => exact granted_of_class hrdrand hwanted hgot
  | xgetbv _ hwanted hgot => exact granted_of_class hxgetbv hwanted hgot

theorem refinesOn_gates_eq (h : environmentReasons req env cell = [])
    (hrefines : env.RefinesOn (Gates req cell) env') : env' = env := by
  have hbool : ∀ {α : Type} {p : Prop} {k k' : Knowledge α}, Refined p Eq k k' →
      (p → k.isUnknown = false) → k' = k := by
    intro α p k k' hk hp
    rcases hk with hk | ⟨hgate, hk⟩
    · exact hk
    · exact Refined.eq (.inr ⟨hgate, hk⟩) (hp hgate)
  have h1 := hbool hrefines.p1 fun hg => by rw [show _ = _ from hg.granted h]; rfl
  have h2 := hbool hrefines.p2 fun hg => (hg.granted h).elim
  have h4 := hbool hrefines.p4 fun hg => (hg.granted h).elim
  have h5 := hbool hrefines.p5 fun hg => by rw [show _ = _ from hg.granted h]; rfl
  have h6 := hbool hrefines.p6 fun hg => by rw [show _ = _ from hg.granted h]; rfl
  have h7 := hbool hrefines.p7 fun hg => by rw [show _ = _ from hg.granted h]; rfl
  have h8 := hbool hrefines.p8 fun hg => (hg.granted h).elim
  have h9 := hbool hrefines.p9 fun hg => (hg.granted h).elim
  have h10 := hbool hrefines.p10 fun hg => by
    obtain ⟨floor, hfloor, -⟩ := hg.granted h
    rw [hfloor]
    rfl
  have h3 : env'.p3Seccomp = env.p3Seccomp := by
    rcases hrefines.p3 with h3 | ⟨hg, h3⟩
    · exact h3
    obtain ⟨s, hs, hinstall⟩ := hg.granted h
    rw [hs] at h3 ⊢
    cases hs' : env'.p3Seccomp with
    | proved s' =>
      rw [hs'] at h3
      rcases h3 with rfl | ⟨hunknown, -⟩
      · rfl
      · rw [hinstall] at hunknown
        cases hunknown
    | disproved =>
      rw [hs'] at h3
      cases h3
    | unknown =>
      rw [hs'] at h3
      cases h3
  cases env'
  simp_all only

end

/-! ## The refusal -/

theorem implementedCells_ids : ∀ c ∈ implementedCells, ∀ d ∈ implementedCells, c.id = d.id → c = d := by
  simp only [implementedCells, mem_cons, not_mem_nil, or_false]
  rintro c (rfl | rfl | rfl | rfl) d (rfl | rfl | rfl | rfl) h <;> first
    | rfl
    | simp [ptraceCell, preloadTrapCell, preloadPatchCell, kvmCell] at h

theorem implementedCells_known (req : EffectiveRequirements) :
    ∀ cell ∈ implementedCells, ∀ x ∈ instructionClasses req cell, x.2.1.Known := by
  intro cell hcell x hx probe hprobe
  simp only [implementedCells, mem_cons, not_mem_nil, or_false] at hcell
  rcases hcell with rfl | rfl | rfl | rfl <;>
    simp only [instructionClasses, ptraceCell, preloadTrapCell, preloadPatchCell, kvmCell, mem_cons,
      not_mem_nil, or_false] at hx <;>
    rcases hx with rfl | rfl | rfl | rfl <;> simp_all

/-- **The unknown-environment refusal is exact.**  Admission refuses for an unknown
    environment if and only if no cell is eligible, the architecture is not disproved,
    the request is not a dense one without a translation cell, and some completion of
    the unknown facts makes a cell eligible.  And what is eligible stays so, whatever
    becomes known of the probes that gate it. -/
theorem unknown_refusal_exact (req : EffectiveRequirements) (guest : GuestProfile)
    (env : EnvironmentSnapshot) :
    ((∃ refusal, admitRegistered ⟨req, guest, env, .auto⟩ = .error refusal ∧
      refusal.code = .rEnvUnknown) ↔
      (∀ cell ∈ implementedCells, ¬ Eligible ⟨req, guest, env, .auto⟩ cell) ∧
      env.p10Arch.archDisproved = false ∧
      ¬ (req.stated.density = .dense ∧ ∀ c ∈ implementedCells, c.mechanism ≠ .translation) ∧
      ∃ env', env.Completes env' ∧ ∃ cell ∈ implementedCells, Eligible ⟨req, guest, env', .auto⟩ cell) ∧
    ∀ cell ∈ implementedCells, Eligible ⟨req, guest, env, .auto⟩ cell →
      ∀ env', env.RefinesOn (Gates req cell) env' → Eligible ⟨req, guest, env', .auto⟩ cell := by
  refine ⟨⟨?_, ?_⟩, fun cell _ helig env' hrefines => ?_⟩
  · rintro ⟨refusal, hrefused, hcode⟩
    have hnone : ¬ ∃ cell ∈ implementedCells, Eligible ⟨req, guest, env, .auto⟩ cell := by
      intro hsome
      obtain ⟨r, hr, -⟩ := admitOver_auto _ rfl hsome
      rw [admitRegistered, hr] at hrefused
      cases hrefused
    obtain ⟨refusal', hrefused', hcode'⟩ := admitOver_none _ rfl hnone
    rw [admitRegistered, hrefused'] at hrefused
    obtain rfl := Except.error.inj hrefused
    rw [hcode'] at hcode
    obtain ⟨harch, hdense, cell, hcell, hpassed, -, hall⟩ :=
      (refusalCode_unknown_iff implementedCells_ids).1 hcode
    refine ⟨fun cell hcell helig => hnone ⟨cell, hcell, helig⟩, harch, hdense, env.complete,
      complete_completes env, cell, hcell, hpassed, ?_⟩
    exact environmentReasons_complete (implementedCells_known req cell hcell) hall
  · rintro ⟨hnone, harch, hdense, env', hcompletes, cell, hcell, hpassed, helig⟩
    obtain ⟨refusal, hrefused, hcode⟩ := admitOver_none ⟨req, guest, env, .auto⟩ rfl
      (fun ⟨c, hc, h⟩ => hnone c hc h)
    refine ⟨refusal, hrefused, hcode.trans ?_⟩
    refine (refusalCode_unknown_iff implementedCells_ids).2
      ⟨harch, hdense, cell, hcell, hpassed, fun h => hnone cell hcell ⟨hpassed, h⟩, fun r hr => ?_⟩
    -- a definite reason would be one in the completion, too
    by_contra hknown
    have hr' := environmentReasons_persist hcompletes.refines req cell r hr (by simpa using hknown)
    rw [show environmentReasons req env' cell = [] from helig] at hr'
    cases hr'
  · obtain rfl := refinesOn_gates_eq helig.2 hrefines
    exact helig

end Reverie.Selection
