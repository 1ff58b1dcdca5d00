/-
  What the registry can do to its state.  `Change` lists the guarded updates that the
  operations are made of; `Quiet` is the part of it that neither changes a layout, nor
  certifies an image, nor thaws a freeze, nor settles a call without looking at its state.
-/
import Reverie.Input.Registry

namespace Reverie.Input
open Option

open Table (updateAll values)

/-! ## Guards -/

variable (s : State)

/-- The access does not meet the layout of a region whose transaction has
    passed its final access scan. -/
def State.Admits (declaration : InputAccess) : Prop :=
  ∀ r place id call layout, s.regions[r]? = some place → place.transaction = some id →
    s.injections[id]? = some call → call.phase ≠ some .preparing → place.layout = some layout →
    declaration.target.reaches r = true → declaration.span.overlaps layout = false

/-- What can happen to the record of a registered task, apart from new grants
    and freezes. -/
structure Task.Follows (new old : Task) : Prop where
  registration : new.registration = { old.registration with
    toolTid := new.registration.toolTid, toolPid := new.registration.toolPid }
  frozen : new.frozen = old.frozen
  terminal : old.nativeTerminal = true → new.nativeTerminal = true
  effects : old.nativeEffectsComplete = true → new.nativeEffectsComplete = true
  grant : new.grant.isSome → new.grant.map (·.1) = old.grant.map (·.1)

/-- What can happen to an access that is not retired: it keeps its task and declaration. -/
inductive AccessMove : Option Access → Option Access → Prop where
  | keep (a : Option Access) : AccessMove a a
  | touch (a a' : Access) (task : a'.task = a.task) (declaration : a'.declaration = a.declaration)
      (complete : a.nativeComplete = true → a'.nativeComplete = true) : AccessMove (some a) (some a')

/-- The task is live and not frozen, and holds the grant. -/
structure State.Current (s : State) (t : InputTaskId) (g : ℕ) (owner : Task) : Prop where
  running : s.fatal = none
  task : s.tasks[t]? = some owner
  terminal : owner.nativeTerminal = false
  effects : owner.nativeEffectsComplete = false
  thawed : owner.frozen.isEmpty = true
  grant : owner.grant.map (·.1) = some g

/-- No mark of possible sharing is taken back, and the lifetimes that are new to the tables
    have been made. -/
structure State.Marks (s : State) (files : Std.TreeMap FileTableLifetime Bool)
    (groups : Std.TreeMap ThreadGroupLifetime Bool) (regions : Std.TreeSet RegionLifetime) :
    Prop where
  keepFiles : ∀ (f : FileTableLifetime) b, s.filesPossiblyShared[f]? = some b →
    ∃ b', files[f]? = some b' ∧ (b = true → b' = true)
  keepGroups : ∀ (g : ThreadGroupLifetime) b, s.groupsMayHaveOtherThreads[g]? = some b →
    ∃ b', groups[g]? = some b' ∧ (b = true → b' = true)
  keepRegions : ∀ r ∈ s.regionsMayHaveOtherProcesses, r ∈ regions
  filesBound : ∀ (f : FileTableLifetime) b, files[f]? = some b → f.generation ≤ s.next
  groupsBound : ∀ (g : ThreadGroupLifetime) b, groups[g]? = some b → g.generation ≤ s.next

/-- A task that is born shares only what is marked: its descriptor table and its group are
    marked or its own, and it shares an unmarked region only with its process. -/
structure State.Births (s : State) (registration : InputTaskRegistration) : Prop where
  files : s.filesPossiblyShared[registration.files]? = some true ∨
    s.filesPossiblyShared[registration.files]? = some false ∧ ∀ (t : InputTaskId) owner,
      s.tasks[t]? = some owner → owner.registration.files ≠ registration.files
  group : s.groupsMayHaveOtherThreads[registration.group]? = some true ∨
    s.groupsMayHaveOtherThreads[registration.group]? = some false ∧ ∀ (t : InputTaskId) owner,
      s.tasks[t]? = some owner → owner.registration.group ≠ registration.group
  region : registration.region ∈ s.regionsMayHaveOtherProcesses ∨
    (∀ (t : InputTaskId) owner, s.tasks[t]? = some owner →
      owner.registration.region ≠ registration.region) ∨
    ∃ (t : InputTaskId) (owner : Task), s.tasks[t]? = some owner ∧
      owner.registration.region = registration.region ∧
      owner.registration.nativePid = registration.nativePid

/-- A task that replaces an image is of the group of a task that has ended, and has a
    descriptor table and a region of its own. -/
structure State.Replaces (s : State) (former : InputTaskId) (registration : InputTaskRegistration) :
    Prop where
  files : s.filesPossiblyShared[registration.files]? = some false ∧ ∀ (t : InputTaskId) owner,
    s.tasks[t]? = some owner → owner.registration.files ≠ registration.files
  group : ∃ owner, s.tasks[former]? = some owner ∧
    owner.registration.group = registration.group ∧ owner.nativeEffectsComplete = true
  region : ∀ (t : InputTaskId) owner, s.tasks[t]? = some owner →
    owner.registration.region ≠ registration.region

/-- The registration is new, and can join the freezes. -/
structure State.Registers (s : State) (registration : InputTaskRegistration)
    (freezes : Std.TreeSet ℕ) (joined : Std.TreeMap ℕ (Std.TreeSet InputTaskId)) : Prop where
  new : s.tasks[registration.task]? = none
  bound : registration.task.generation ≤ s.next
  groupBound : registration.group.generation ≤ s.next
  region : s.regions[registration.region]?.isSome
  joins : updateAll s.freezes (·.insert registration.task) freezes.toList = some joined
  group : ∀ f ∈ s.frozenGroups.getD registration.group ∅, f ∈ freezes

def State.published (registration : InputTaskRegistration) (freezes : Std.TreeSet ℕ)
    (joined : Std.TreeMap ℕ (Std.TreeSet InputTaskId)) : State :=
  { s with
    byTid := s.byTid.insert registration.task.tid registration.task
    freezes := joined
    tasks := s.tasks.insert registration.task (.fresh registration freezes) }

/-- The page may hold a part of the image. -/
def Injection.HalfWritten (call : Injection) : Prop :=
  call.phase = some .initializing ∨ call.phase = some .normalizing

/-- The outcomes that the state of a call allows. -/
inductive Injection.CanFinish (call : Injection) : PhysicalInjectionState → Prop where
  | notRun (state : call.state = .prepared) (whole : ¬ call.HalfWritten) :
      CanFinish call .provedNoChild
  | ran {result : PhysicalInjectionState} (state : call.state = .issued)
      (settled : result.settled = true) : CanFinish call result

/-- The task has issued no other call. -/
def State.NoneIssued (id : PhysicalInjectionId) (task : InputTaskId) : Prop :=
  ∀ (other : PhysicalInjectionId) call, s.injections[other]? = some call → other ≠ id →
    call.task = task → call.state ≠ .issued

/-! ## Changes -/

/-- The guarded updates of most operations. -/
inductive Quiet : State → State → Prop where
  | bump (s : State) : Quiet s { s with next := s.next + 1 }
  | grant {s : State} {t : InputTaskId} {owner : Task} (kind : InputGrantKind)
      (task : s.tasks[t]? = some owner) (frozen : owner.frozen.isEmpty = true) :
      Quiet s { s with
        next := s.next + 1
        tasks := s.tasks.insert t { owner with grant := some (s.next + 1, kind, false) } }
  | task {s : State} {t : InputTaskId} {owner owner' : Task}
      (task : s.tasks[t]? = some owner) (follows : owner'.Follows owner) :
      Quiet s { s with tasks := s.tasks.insert t owner' }
  | addAccess {s : State} (access : Access) (admits : s.Admits access.declaration) :
      Quiet s { s with
        next := s.next + 1
        accesses := s.accesses.insert (s.next + 1) access }
  | accesses {s : State} (m : Std.TreeMap ℕ Access)
      (moves : ∀ id : ℕ, AccessMove s.accesses[id]? m[id]?) : Quiet s { s with accesses := m }
  | exposeAll (s : State) (exposure : InputExposure) :
      Quiet s { s with globalExposures := s.globalExposures ++ [exposure] }
  | expose {s : State} {r : RegionLifetime} {place : Region} (exposure : InputExposure)
      (region : s.regions[r]? = some place) :
      Quiet s { s with
        regions := s.regions.insert r { place with exposures := place.exposures ++ [exposure] } }
  | addRegion {s : State} (r : RegionLifetime) (place : Region) (new : s.regions[r]? = none)
      (bound : r.generation ≤ s.next) (idle : place.transaction = none)
      (valid : ∀ layout, place.layout = some layout → layout.Valid) :
      Quiet s { s with regions := s.regions.insert r place }
  | history (s : State) (files : Std.TreeMap FileTableLifetime Bool)
      (groups : Std.TreeMap ThreadGroupLifetime Bool) (regions : Std.TreeSet RegionLifetime)
      (marks : s.Marks files groups regions) :
      Quiet s { s with
        filesPossiblyShared := files
        groupsMayHaveOtherThreads := groups
        regionsMayHaveOtherProcesses := regions }
  | addCall {s : State} {id : PhysicalInjectionId} {call : Injection}
      (new : s.injections[id]? = none) (bound : id.id ≤ s.next)
      (task : s.tasks[call.task]?.isSome) (state : call.state = .prepared)
      (phase : call.phase = none) : Quiet s { s with injections := s.injections.insert id call }
  | beginPreparation {s : State} {id : PhysicalInjectionId} {call : Injection} {owner : Task}
      {place : Region} (image : ReservedInputImage) (known : s.injections[id]? = some call)
      (task : s.tasks[call.task]? = some owner)
      (region : s.regions[owner.registration.region]? = some place)
      (idle : place.transaction = none) (layout : place.layout = some image.layout)
      (state : call.state = .prepared) (phase : call.phase = none) :
      Quiet s { s with
        regions := s.regions.insert owner.registration.region { place with transaction := some id }
        injections := s.injections.insert id
          { call with phase := some .preparing, image := some image } }
  | preparedStopped {s : State} {id : PhysicalInjectionId} {call : Injection} {owner : Task}
      {image : ReservedInputImage} (known : s.injections[id]? = some call)
      (task : s.tasks[call.task]? = some owner) (phase : call.phase = some .preparing)
      (written : call.image = some image)
      (scan : ∀ (n : ℕ) access, s.accesses[n]? = some access →
        access.declaration.target.reaches owner.registration.region = true →
        access.declaration.span.overlaps image.layout = false) :
      Quiet s { s with
        injections := s.injections.insert id { call with phase := some .preparedStopped } }
  | initializing {s : State} {id : PhysicalInjectionId} {call : Injection}
      (known : s.injections[id]? = some call) (phase : call.phase = some .preparedStopped) :
      Quiet s { s with
        injections := s.injections.insert id { call with phase := some .initializing } }
  | normalizing {s : State} {id : PhysicalInjectionId} {call : Injection}
      (known : s.injections[id]? = some call) (phase : call.phase = some .initializing) :
      Quiet s { s with
        injections := s.injections.insert id { call with phase := some .normalizing } }
  | finish {s : State} {id : PhysicalInjectionId} {call : Injection} {owner : Task}
      {place : Region} {result : PhysicalInjectionState} (known : s.injections[id]? = some call)
      (task : s.tasks[call.task]? = some owner)
      (region : s.regions[owner.registration.region]? = some place)
      (allowed : call.CanFinish result) :
      Quiet s (s.finished id call owner.registration.region place result)
  | publish {s : State} {registration : InputTaskRegistration} {freezes : Std.TreeSet ℕ}
      {joined : Std.TreeMap ℕ (Std.TreeSet InputTaskId)}
      (registers : s.Registers registration freezes joined) (births : s.Births registration) :
      Quiet s (s.published registration freezes joined)
  | forget (s : State) (tid : ℤ) : Quiet s { s with byTid := s.byTid.erase tid }
  | fail (s : State) (reason : String) : Quiet s { s with fatal := some (s.fatal.getD reason) }
  | freeze {s : State} {members : Std.TreeSet InputTaskId} {tasks : Std.TreeMap InputTaskId Task}
      (frozen : updateAll s.tasks (fun owner => { owner with
        frozen := owner.frozen.insert (s.next + 1), grant := none }) members.toList = some tasks) :
      Quiet s { s with
        next := s.next + 1
        tasks := tasks
        freezes := s.freezes.insert (s.next + 1) members }
  | freezeGroup {s : State} {group : ThreadGroupLifetime} {f : ℕ}
      (bound : group.generation ≤ s.next) (exist : s.freezes[f]?.isSome) :
      Quiet s { s with
        frozenGroups :=
          s.frozenGroups.insert group ((s.frozenGroups.getD group ∅).insert f) }

/-- A quiet change that leaves the freezes alone and registers no task. -/
structure Calm (s s' : State) : Prop where
  quiet : Quiet s s'
  freezes : s'.freezes = s.freezes
  groups : s'.frozenGroups = s.frozenGroups
  tasks : ∀ t : InputTaskId, s'.tasks[t]?.isSome → s.tasks[t]?.isSome

variable {s s' : State}

theorem Calm.of (quiet : Quiet s s') (freezes : s'.freezes = s.freezes)
    (groups : s'.frozenGroups = s.frozenGroups) (tasks : s'.tasks = s.tasks) : Calm s s' :=
  ⟨quiet, freezes, groups, fun _ => by rw [tasks]; exact id⟩

namespace Calm

theorem bump (s : State) : Calm s { s with next := s.next + 1 } := .of (.bump s) rfl rfl rfl

theorem history (s : State) {files : Std.TreeMap FileTableLifetime Bool}
    {groups : Std.TreeMap ThreadGroupLifetime Bool} {regions : Std.TreeSet RegionLifetime}
    (marks : s.Marks files groups regions) :
    Calm s { s with
      filesPossiblyShared := files
      groupsMayHaveOtherThreads := groups
      regionsMayHaveOtherProcesses := regions } :=
  .of (.history s files groups regions marks) rfl rfl rfl

variable {s : State}

theorem addRegion (r : RegionLifetime) (place : Region) (new : s.regions[r]? = none)
    (bound : r.generation ≤ s.next) (idle : place.transaction = none)
    (valid : ∀ layout, place.layout = some layout → layout.Valid) :
    Calm s { s with regions := s.regions.insert r place } :=
  .of (.addRegion r place new bound idle valid) rfl rfl rfl

theorem fail (s : State) (reason : String) : Calm s { s with fatal := some (s.fatal.getD reason) } :=
  .of (.fail s reason) rfl rfl rfl

theorem task {t : InputTaskId} {owner owner' : Task}
    (task : s.tasks[t]? = some owner) (follows : owner'.Follows owner) :
    Calm s { s with tasks := s.tasks.insert t owner' } := by
  refine ⟨.task task follows, rfl, rfl, fun t' ht' => ?_⟩
  simp only [Table.getElem?_insert] at ht'
  split_ifs at ht' with h
  · rw [← h, task]
    rfl
  · exact ht'

end Calm

/-- Every member has ended its native effects, and so has every access of a
    member. -/
structure State.Settled (s : State) (members : Std.TreeSet InputTaskId) : Prop where
  effects : ∀ t ∈ members, ∀ owner, s.tasks[t]? = some owner → owner.nativeEffectsComplete = true
  accesses : ∀ (n : ℕ) access, s.accesses[n]? = some access → access.task ∈ members →
    access.nativeComplete = true

/-- No member has had a native effect. -/
def State.Untouched (members : Std.TreeSet InputTaskId) : Prop :=
  ∀ t ∈ members, ∀ owner, s.tasks[t]? = some owner →
    owner.nativeEffectsComplete = false ∧ owner.nativeTerminal = false

/-- The state after a freeze has left the freeze table, the frozen groups and
    its members. -/
def State.thawed (f : ℕ) (tasks : Std.TreeMap InputTaskId Task) : State :=
  { s with
    freezes := s.freezes.erase f
    frozenGroups := s.frozenGroups.map fun _ (freezes : Std.TreeSet ℕ) => freezes.erase f
    tasks := tasks }

/-- A cohort whose native work has ended leaves its freeze, and its transient
    accesses are retired. -/
inductive Settle : State → State → Prop where
  | settle {s : State} {f : ℕ} {members : Std.TreeSet InputTaskId}
      {tasks : Std.TreeMap InputTaskId Task} (known : s.freezes[f]? = some members)
      (thaw : updateAll s.tasks (fun owner => { owner with
        frozen := owner.frozen.erase f }) members.toList = some tasks)
      (settled : s.Settled members) :
      Settle s { s.thawed f tasks with
        accesses := s.accesses.filter fun _ (access : Access) =>
          !members.contains access.task || access.declaration.lifetime == .persistent }

/-- A freeze without any native effect is cancelled. -/
inductive Cancel : State → State → Prop where
  | cancel {s : State} {f : ℕ} {members : Std.TreeSet InputTaskId}
      {tasks : Std.TreeMap InputTaskId Task} (known : s.freezes[f]? = some members)
      (thaw : updateAll s.tasks (fun owner => { owner with
        frozen := owner.frozen.erase f }) members.toList = some tasks)
      (untouched : s.Untouched members) : Cancel s (s.thawed f tasks)

/-- The image of a task is replaced by a new task. -/
inductive Replace (former : InputTaskId) : State → State → Prop where
  | replace {s : State} {registration : InputTaskRegistration} {freezes : Std.TreeSet ℕ}
      {joined : Std.TreeMap ℕ (Std.TreeSet InputTaskId)}
      (registers : s.Registers registration freezes joined)
      (replaces : s.Replaces former registration) :
      Replace former s (s.published registration freezes joined)

/-- Under a current grant, the chosen accesses are retired; they are transient and natively
    complete. -/
inductive Readmission (chosen : ℕ → Access → Prop) (t : InputTaskId) (g : ℕ) : State → State → Prop where
  | readmission {s : State} (owner : Task) (m : Std.TreeMap ℕ Access) (current : s.Current t g owner)
      (kept : ∀ (n : ℕ) access, m[n]? = some access → s.accesses[n]? = some access)
      (retired : ∀ (n : ℕ) access, s.accesses[n]? = some access → m[n]? = none →
        chosen n access ∧ access.declaration.lifetime = .transient ∧ access.nativeComplete = true) :
      Readmission chosen t g s { s with accesses := m }

/-- Every update of the registry other than the replacement of an image. -/
inductive Change : State → State → Prop where
  | quiet {s s' : State} (h : Quiet s s') : Change s s'
  | readmission {s s' : State} {chosen : ℕ → Access → Prop} {t : InputTaskId} {g : ℕ}
      (h : Readmission chosen t g s s') : Change s s'
  | layout {s : State} {r : RegionLifetime} {place : Region} (layout : ReservedInputLayout)
      (valid : layout.Valid) (region : s.regions[r]? = some place) :
      Change s { s with regions := s.regions.insert r { place with layout := some layout } }
  | verified {s : State} {id : PhysicalInjectionId} {call : Injection} {image : ReservedInputImage}
      (known : s.injections[id]? = some call) (phase : call.HalfWritten)
      (written : call.image = some image) :
      Change s { s with
        injections := s.injections.insert id
          { call with verifiedImage := some image, phase := some .ready } }
  | issue {s : State} {id : PhysicalInjectionId} {call : Injection}
      (known : s.injections[id]? = some call) (state : call.state = .prepared)
      (phase : call.phase = none ∨ call.phase = some .ready)
      (alone : s.NoneIssued id call.task) :
      Change s { s with
        injections := s.injections.insert id
          { call with state := .issued, phase := call.phase.map fun _ => .launched } }
  | settleUnchecked {s : State} {id : PhysicalInjectionId} {call : Injection} {owner : Task}
      {place : Region} (known : s.injections[id]? = some call)
      (task : s.tasks[call.task]? = some owner)
      (region : s.regions[owner.registration.region]? = some place) :
      Change s (s.finished id call owner.registration.region place .outcomeUnknown)
  | settle {s s' : State} (h : Settle s s') : Change s s'
  | cancel {s s' : State} (h : Cancel s s') : Change s s'

/-! ## The invariant -/

/-- The state and the phase of a call fit together. -/
@[mk_iff]
structure Injection.Consistent (call : Injection) : Prop where
  prepared : call.phase.isSome → call.phase ≠ some .launched → call.state = .prepared
  launched : call.phase = some .launched → call.state = .issued
  image : call.phase.isSome → call.image.isSome

/-- Identities are made from generations, which are never used twice. -/
structure State.Fresh (s : State) : Prop where
  task : ∀ (t : InputTaskId) owner, s.tasks[t]? = some owner →
    t.generation ≤ s.next ∧ owner.registration.group.generation ≤ s.next
  region : ∀ (r : RegionLifetime) place, s.regions[r]? = some place → r.generation ≤ s.next
  call : ∀ (id : PhysicalInjectionId) call, s.injections[id]? = some call → id.id ≤ s.next
  freeze : ∀ (f : ℕ) members, s.freezes[f]? = some members → f ≤ s.next
  group : ∀ (g : ThreadGroupLifetime) freezes, s.frozenGroups[g]? = some freezes →
    g.generation ≤ s.next

/-- Entries name registered entries. -/
structure State.Owned (s : State) : Prop where
  region : ∀ (t : InputTaskId) owner, s.tasks[t]? = some owner →
    s.regions[owner.registration.region]?.isSome
  task : ∀ (id : PhysicalInjectionId) call, s.injections[id]? = some call →
    s.tasks[call.task]?.isSome
  tid : ∀ (tid : ℤ) t, s.byTid[tid]? = some t → s.tasks[t]?.isSome

/-- A transaction of the region. -/
def State.WritesIn (id : PhysicalInjectionId) (r : RegionLifetime) : Prop :=
  ∃ call owner, s.injections[id]? = some call ∧ s.tasks[call.task]? = some owner ∧
    owner.registration.region = r ∧ call.phase.isSome

/-- The transaction of a region is the call that works on its page. -/
structure State.Transactions (s : State) : Prop where
  writer : ∀ (r : RegionLifetime) place, s.regions[r]? = some place →
    ∀ id, place.transaction = some id ↔ s.WritesIn id r
  consistent : ∀ (id : PhysicalInjectionId) call, s.injections[id]? = some call → call.Consistent
  layout : ∀ (r : RegionLifetime) place, s.regions[r]? = some place →
    ∀ layout, place.layout = some layout → layout.Valid

/-- Tasks, freezes and frozen groups agree. -/
structure State.Freezes (s : State) : Prop where
  frozen : ∀ (t : InputTaskId) owner, s.tasks[t]? = some owner → ∀ f : ℕ,
    f ∈ owner.frozen ↔ ∃ members, s.freezes[f]? = some members ∧ t ∈ members
  member : ∀ (f : ℕ) members, s.freezes[f]? = some members → ∀ t ∈ members, s.tasks[t]?.isSome
  group : ∀ (g : ThreadGroupLifetime) freezes, s.frozenGroups[g]? = some freezes →
    ∀ f ∈ freezes, s.freezes[f]?.isSome
  grant : ∀ (t : InputTaskId) owner, s.tasks[t]? = some owner → owner.grant.isSome →
    owner.frozen.isEmpty = true

/-- The lifetimes of the tasks are in the tables of possible sharing. -/
structure State.Histories (s : State) : Prop where
  files : ∀ (t : InputTaskId) owner, s.tasks[t]? = some owner →
    s.filesPossiblyShared[owner.registration.files]?.isSome
  group : ∀ (t : InputTaskId) owner, s.tasks[t]? = some owner →
    s.groupsMayHaveOtherThreads[owner.registration.group]?.isSome
  filesBound : ∀ (f : FileTableLifetime) b, s.filesPossiblyShared[f]? = some b →
    f.generation ≤ s.next
  groupsBound : ∀ (g : ThreadGroupLifetime) b, s.groupsMayHaveOtherThreads[g]? = some b →
    g.generation ≤ s.next

/-- What every call keeps. -/
structure Invariant (s : State) : Prop where
  fresh : s.Fresh
  owned : s.Owned
  transactions : s.Transactions
  freezes : s.Freezes
  histories : s.Histories

theorem Invariant.init : Invariant State.init := by
  constructor <;> constructor <;> intros <;> simp_all [State.init]

section
open Table

/-! ### Published tasks -/

section
variable {s : State} {registration : InputTaskRegistration} {freezes : Std.TreeSet ℕ}
  {joined : Std.TreeMap ℕ (Std.TreeSet InputTaskId)}

theorem State.Fresh.published (h : s.Fresh) (r : s.Registers registration freezes joined) :
    (s.published registration freezes joined).Fresh := by
  obtain ⟨ht, hr, hc, hf, hg⟩ := h
  obtain ⟨new, bound, groupBound, region, joins, group⟩ := r
  have hj := getElem?_updateAll nodup_toList joins
  constructor <;> simp only [State.published, Task.fresh] <;> grind

theorem State.Owned.published (h : s.Owned) (r : s.Registers registration freezes joined) :
    (s.published registration freezes joined).Owned := by
  obtain ⟨hr, hc, hb⟩ := h
  obtain ⟨new, bound, groupBound, region, joins, group⟩ := r
  constructor <;> simp only [State.published, Task.fresh] <;> grind

theorem State.Transactions.published (h : s.Transactions) (o : s.Owned)
    (r : s.Registers registration freezes joined) :
    (s.published registration freezes joined).Transactions := by
  obtain ⟨hw, hc, hl⟩ := h
  obtain ⟨hr, ht, _⟩ := o
  obtain ⟨new, bound, groupBound, region, joins, group⟩ := r
  simp only [WritesIn] at hw
  constructor <;> simp only [State.published, WritesIn] <;> grind

theorem State.Freezes.published (h : s.Freezes) (r : s.Registers registration freezes joined) :
    (s.published registration freezes joined).Freezes := by
  obtain ⟨hf, hm, hg, hgr⟩ := h
  obtain ⟨new, bound, groupBound, region, joins, group⟩ := r
  have hj := getElem?_updateAll nodup_toList joins
  have hex := isSome_of_updateAll joins
  simp only [Std.TreeSet.mem_toList] at hj hex
  constructor <;> simp only [State.published, Task.fresh] <;> grind [mem_insert]

theorem State.Histories.published (h : s.Histories)
    (files : s.filesPossiblyShared[registration.files]?.isSome)
    (group : s.groupsMayHaveOtherThreads[registration.group]?.isSome) :
    (s.published registration freezes joined).Histories := by
  refine ⟨fun t owner ht => ?_, fun t owner ht => ?_, h.filesBound, h.groupsBound⟩
  · simp only [State.published, getElem?_insert] at ht
    split_ifs at ht
    · cases ht
      exact files
    · exact h.files t owner ht
  · simp only [State.published, getElem?_insert] at ht
    split_ifs at ht
    · cases ht
      exact group
    · exact h.group t owner ht

theorem Invariant.published (h : Invariant s) (r : s.Registers registration freezes joined)
    (files : s.filesPossiblyShared[registration.files]?.isSome)
    (group : s.groupsMayHaveOtherThreads[registration.group]?.isSome) :
    Invariant (s.published registration freezes joined) :=
  ⟨h.fresh.published r, h.owned.published r, h.transactions.published h.owned r,
    h.freezes.published r, h.histories.published files group⟩

end

/-! ### Tasks that were registered before -/

/-- The record is of the same registration, and a task that has ended stays so. -/
structure Task.Continues (new old : Task) : Prop where
  registration : new.registration = { old.registration with
    toolTid := new.registration.toolTid, toolPid := new.registration.toolPid }
  terminal : old.nativeTerminal = true → new.nativeTerminal = true
  effects : old.nativeEffectsComplete = true → new.nativeEffectsComplete = true

theorem Task.Continues.refl (owner : Task) : owner.Continues owner := ⟨rfl, id, id⟩

/-- Every task is one that was registered before. -/
def State.Descends (s s' : State) : Prop :=
  ∀ (t : InputTaskId) new, s'.tasks[t]? = some new →
    ∃ old, s.tasks[t]? = some old ∧ new.Continues old

variable {s s' : State} {t : InputTaskId} {tasks : Std.TreeMap InputTaskId Task}
  {registration : InputTaskRegistration} {place : Region} {id : PhysicalInjectionId}
  {call : Injection}

theorem State.Descends.of_eq (h : s'.tasks = s.tasks) : s.Descends s' :=
  fun t new ht => ⟨new, by rw [← h, ht], .refl new⟩

theorem State.Descends.of_insert {old new : Task}
    (ht : s.tasks[t]? = some old) (h : s'.tasks = s.tasks.insert t new) (hc : new.Continues old) :
    s.Descends s' := by
  intro t' owner ht'
  rw [h, getElem?_insert] at ht'
  split_ifs at ht' with heq
  · subst heq
    cases ht'
    exact ⟨old, ht, hc⟩
  · exact ⟨owner, ht', .refl owner⟩

theorem State.Descends.of_updateAll {f : Task → Task} {ts : List InputTaskId} (hn : ts.Nodup)
    (hu : updateAll s.tasks f ts = some tasks) (h : s'.tasks = tasks)
    (hf : ∀ owner, (f owner).Continues owner) : s.Descends s' := by
  intro t owner ht
  rw [h, getElem?_updateAll hn hu] at ht
  split_ifs at ht
  · obtain ⟨old, hold, rfl⟩ := map_eq_some_iff.1 ht
    exact ⟨old, hold, hf old⟩
  · exact ⟨owner, ht, .refl owner⟩

theorem State.Histories.marks (h : s.Histories) : s.Marks s.filesPossiblyShared
    s.groupsMayHaveOtherThreads s.regionsMayHaveOtherProcesses :=
  ⟨fun _ b hb => ⟨b, hb, id⟩, fun _ b hb => ⟨b, hb, id⟩, fun _ => id, h.filesBound, h.groupsBound⟩

section
variable {s : State} {files : Std.TreeMap FileTableLifetime Bool}
  {groups : Std.TreeMap ThreadGroupLifetime Bool} {regions : Std.TreeSet RegionLifetime}

theorem State.Marks.setFiles (h : s.Marks files groups regions) {f : FileTableLifetime} {b : Bool}
    (bound : f.generation ≤ s.next) (new : b = true ∨ files[f]? = none) :
    s.Marks (files.insert f b) groups regions := by
  refine ⟨fun f' b' hb' => ?_, h.keepGroups, h.keepRegions, fun f' b' hb' => ?_, h.groupsBound⟩
  · obtain ⟨b'', hb'', himp⟩ := h.keepFiles f' b' hb'
    rw [getElem?_insert]
    split_ifs with heq
    · subst heq
      refine ⟨b, rfl, fun _ => ?_⟩
      rcases new with new | new
      · exact new
      · rw [new] at hb''
        cases hb''
    · exact ⟨b'', hb'', himp⟩
  · rw [getElem?_insert] at hb'
    split_ifs at hb' with heq
    · exact heq ▸ bound
    · exact h.filesBound f' b' hb'

variable {g : ThreadGroupLifetime}

variable (h : s.Marks files groups regions)
include h

theorem State.Marks.setGroup
    (bound : g.generation ≤ s.next) : s.Marks files (groups.insert g true) regions := by
  refine ⟨h.keepFiles, fun g' b' hb' => ?_, h.keepRegions, h.filesBound, fun g' b' hb' => ?_⟩
  · obtain ⟨b'', hb'', himp⟩ := h.keepGroups g' b' hb'
    rw [getElem?_insert]
    split_ifs
    · exact ⟨true, rfl, fun _ => rfl⟩
    · exact ⟨b'', hb'', himp⟩
  · rw [getElem?_insert] at hb'
    split_ifs at hb' with heq
    · exact heq ▸ bound
    · exact h.groupsBound g' b' hb'

theorem State.Marks.newGroup
    (bound : g.generation ≤ s.next) : s.Marks files (groups.insertIfNew g false) regions := by
  refine ⟨h.keepFiles, fun g' b' hb' => ?_, h.keepRegions, h.filesBound, fun g' b' hb' => ?_⟩
  · obtain ⟨b'', hb'', himp⟩ := h.keepGroups g' b' hb'
    rw [getElem?_insertIfNew]
    split_ifs with heq
    · obtain ⟨rfl, hnone⟩ := heq
      rw [hnone] at hb''
      cases hb''
    · exact ⟨b'', hb'', himp⟩
  · rw [getElem?_insertIfNew] at hb'
    split_ifs at hb' with heq
    · exact heq.1 ▸ bound
    · exact h.groupsBound g' b' hb'

theorem State.Marks.setRegion (r : RegionLifetime) : s.Marks files groups (regions.insert r) :=
  ⟨h.keepFiles, h.keepGroups, fun r' hr' => mem_insert.2 (Or.inr (h.keepRegions r' hr')),
    h.filesBound, h.groupsBound⟩

end

/-- A quiet change other than a publication registers no task, and changes the tables of
    possible sharing by marks only. -/
theorem Quiet.descends (c : Quiet s s') :
    (∃ registration freezes joined, s' = s.published registration freezes joined ∧
      s.Registers registration freezes joined ∧ s.Births registration) ∨
    s.Descends s' ∧ s.next ≤ s'.next ∧ (s.Histories → s.Marks s'.filesPossiblyShared
      s'.groupsMayHaveOtherThreads s'.regionsMayHaveOtherProcesses) := by
  have hsame := State.Histories.marks (s := s)
  cases c with
  | publish registers births => exact Or.inl ⟨_, _, _, rfl, registers, births⟩
  | history _ _ _ marks => exact Or.inr ⟨.of_eq rfl, le_rfl, fun _ => marks⟩
  | task ht follows =>
    exact Or.inr ⟨.of_insert ht rfl ⟨follows.registration, follows.terminal, follows.effects⟩,
      le_rfl, hsame⟩
  | grant kind ht => exact Or.inr ⟨.of_insert ht rfl ⟨rfl, id, id⟩, Nat.le_succ _, hsame⟩
  | freeze frozen =>
    exact Or.inr ⟨.of_updateAll nodup_toList frozen rfl fun _ => ⟨rfl, id, id⟩, Nat.le_succ _, hsame⟩
  | bump => exact Or.inr ⟨.of_eq rfl, Nat.le_succ _, hsame⟩
  | addAccess => exact Or.inr ⟨.of_eq rfl, Nat.le_succ _, hsame⟩
  | _ => exact Or.inr ⟨.of_eq rfl, le_rfl, hsame⟩

theorem State.Histories.descends (h : s.Histories) (hd : s.Descends s')
    (hn : s.next ≤ s'.next) (hm : s.Marks s'.filesPossiblyShared s'.groupsMayHaveOtherThreads
      s'.regionsMayHaveOtherProcesses) : s'.Histories := by
  refine ⟨fun t new ht => ?_, fun t new ht => ?_, fun f b hb => (hm.filesBound f b hb).trans hn,
    fun g b hb => (hm.groupsBound g b hb).trans hn⟩
  · obtain ⟨old, hold, hc⟩ := hd t new ht
    obtain ⟨b, hb⟩ := isSome_iff_exists.1 (h.files t old hold)
    obtain ⟨b', hb', -⟩ := hm.keepFiles _ b hb
    rw [hc.registration, hb']
    rfl
  · obtain ⟨old, hold, hc⟩ := hd t new ht
    obtain ⟨b, hb⟩ := isSome_iff_exists.1 (h.group t old hold)
    obtain ⟨b', hb', -⟩ := hm.keepGroups _ b hb
    rw [hc.registration, hb']
    rfl

theorem State.Births.files_isSome (h : s.Births registration) :
    s.filesPossiblyShared[registration.files]?.isSome := by
  rcases h.files with h | h
  · rw [h]
    rfl
  · rw [h.1]
    rfl

theorem State.Births.group_isSome (h : s.Births registration) :
    s.groupsMayHaveOtherThreads[registration.group]?.isSome := by
  rcases h.group with h | h
  · rw [h]
    rfl
  · rw [h.1]
    rfl

theorem State.Histories.quiet (h : s.Histories) (c : Quiet s s') : s'.Histories := by
  rcases c.descends with ⟨registration, freezes, joined, rfl, -, hb⟩ | ⟨hd, hn, hm⟩
  · exact h.published hb.files_isSome hb.group_isSome
  · exact h.descends hd hn (hm h)

/-! ### Quiet changes -/

theorem State.Fresh.quiet (h : s.Fresh) (c : Quiet s s') : s'.Fresh := by
  obtain ⟨ht, hr, hc, hf, hg⟩ := h
  cases c with
  | task _ follows =>
    have hreg := follows.registration
    constructor <;> simp only [getElem?_insert] <;> grind
  | publish registers => exact State.Fresh.published ⟨ht, hr, hc, hf, hg⟩ registers
  | freeze frozen =>
    have hj := getElem?_updateAll nodup_toList frozen
    constructor <;> simp only [getElem?_insert] <;> grind
  | _ => constructor <;> simp only [State.finished] <;> grind

theorem State.Owned.quiet (h : s.Owned) (c : Quiet s s') : s'.Owned := by
  obtain ⟨hr, hc, hb⟩ := h
  cases c with
  | task _ follows =>
    have hreg := follows.registration
    constructor <;> simp only [getElem?_insert] <;> grind
  | publish registers => exact State.Owned.published ⟨hr, hc, hb⟩ registers
  | freeze frozen =>
    have hj := getElem?_updateAll nodup_toList frozen
    constructor <;> grind
  | _ => constructor <;> simp only [State.finished] <;> grind

theorem State.Transactions.quiet (h : s.Transactions) (o : s.Owned)
    (c : Quiet s s') : s'.Transactions := by
  have hall := h
  obtain ⟨hw, hc, hl⟩ := h
  have howned := o
  obtain ⟨hr, ht, _⟩ := o
  simp only [WritesIn] at hw
  cases c with
  | task _ follows =>
    have hreg := follows.registration
    constructor <;> simp only [WritesIn] <;> grind
  | publish registers => exact hall.published howned registers
  | freeze frozen =>
    have hj := getElem?_updateAll nodup_toList frozen
    constructor <;> simp only [WritesIn] <;> grind
  | _ =>
    -- a field needs no fact about the others
    constructor <;> simp only [getElem?_insert, State.finished, WritesIn]
    · clear hc hl
      grind
    · clear hw hl hr ht
      grind [Injection.consistent_iff]
    · clear hw hc hr ht
      grind

theorem State.Freezes.quiet (h : s.Freezes) (f : s.Fresh) (c : Quiet s s') : s'.Freezes := by
  obtain ⟨hf, hm, hg, hgr⟩ := h
  cases c with
  | task _ follows =>
    have hfrozen := follows.frozen
    have hgrant := follows.grant
    constructor <;> simp only [getElem?_insert] <;> grind [isSome_map]
  | publish registers => exact State.Freezes.published ⟨hf, hm, hg, hgr⟩ registers
  | freeze frozen =>
    have hj := getElem?_updateAll nodup_toList frozen
    have hex := isSome_of_updateAll frozen
    have hle := f.freeze
    constructor <;> simp only [getElem?_insert] <;> grind [mem_insert]
  | freezeGroup =>
    constructor <;> simp only [Std.TreeMap.getD_eq_getD_getElem?] <;> grind [mem_insert]
  | _ => constructor <;> simp only [State.finished] <;> grind

variable (h : Invariant s)
include h

theorem Invariant.quiet (c : Quiet s s') : Invariant s' :=
  ⟨h.fresh.quiet c, h.owned.quiet c, h.transactions.quiet h.owned c, h.freezes.quiet h.fresh c,
    h.histories.quiet c⟩

theorem Invariant.layout {r : RegionLifetime}
    (hr : s.regions[r]? = some place) {layout : ReservedInputLayout} (valid : layout.Valid) :
    Invariant { s with regions := s.regions.insert r { place with layout := some layout } } := by
  obtain ⟨⟨h1, h2, h3, h4, h5⟩, ⟨h6, h7, h8⟩, ⟨h9, h10, h15⟩, hf, hh⟩ := h
  simp only [State.WritesIn] at h9
  refine ⟨?_, ?_, ?_, ⟨hf.1, hf.2, hf.3, hf.4⟩, ⟨hh.1, hh.2, hh.3, hh.4⟩⟩ <;> constructor <;>
    simp only [State.WritesIn] <;> grind

theorem Invariant.verified {image : ReservedInputImage} (hc : s.injections[id]? = some call)
    (phase : call.HalfWritten) (written : call.image = some image) :
    Invariant { s with
      injections := s.injections.insert id
        { call with verifiedImage := some image, phase := some .ready } } := by
  obtain ⟨⟨h1, h2, h3, h4, h5⟩, ⟨h6, h7, h8⟩, ⟨h9, h10, h15⟩, hf, hh⟩ := h
  simp only [State.WritesIn] at h9
  simp only [Injection.HalfWritten] at phase
  refine ⟨?_, ?_, ?_, ⟨hf.1, hf.2, hf.3, hf.4⟩, ⟨hh.1, hh.2, hh.3, hh.4⟩⟩ <;> constructor <;>
    simp only [State.WritesIn] <;> grind [Injection.consistent_iff]

theorem Invariant.issued (hc : s.injections[id]? = some call)
    (phase : call.phase = none ∨ call.phase = some .ready) :
    Invariant { s with
      injections := s.injections.insert id
        { call with state := .issued, phase := call.phase.map fun _ => .launched } } := by
  obtain ⟨⟨h1, h2, h3, h4, h5⟩, ⟨h6, h7, h8⟩, ⟨h9, h10, h15⟩, hf, hh⟩ := h
  simp only [State.WritesIn] at h9
  refine ⟨?_, ?_, ?_, ⟨hf.1, hf.2, hf.3, hf.4⟩, ⟨hh.1, hh.2, hh.3, hh.4⟩⟩ <;> constructor <;>
    simp only [State.WritesIn] <;> grind [Injection.consistent_iff]

theorem Invariant.finished {owner : Task} (known : s.injections[id]? = some call)
    (task : s.tasks[call.task]? = some owner)
    (region : s.regions[owner.registration.region]? = some place)
    (result : PhysicalInjectionState) :
    Invariant (s.finished id call owner.registration.region place result) := by
  obtain ⟨⟨h1, h2, h3, h4, h5⟩, ⟨h6, h7, h8⟩, ⟨h9, h10, h15⟩, hf, hh⟩ := h
  simp only [State.WritesIn] at h9
  refine ⟨?_, ?_, ?_, ⟨hf.1, hf.2, hf.3, hf.4⟩, ⟨hh.1, hh.2, hh.3, hh.4⟩⟩ <;> constructor <;>
    simp only [State.WritesIn, State.finished] <;> grind [Injection.consistent_iff]

theorem Invariant.thawed {f : ℕ} {members : Std.TreeSet InputTaskId}
    (known : s.freezes[f]? = some members) (thaw : updateAll s.tasks (fun owner => { owner with
      frozen := owner.frozen.erase f }) members.toList = some tasks) :
    Invariant (s.thawed f tasks) := by
  have hh : (s.thawed f tasks).Histories := h.histories.descends
    (.of_updateAll nodup_toList thaw rfl fun _ => ⟨rfl, id, id⟩) le_rfl h.histories.marks
  obtain ⟨⟨h1, h2, h3, h4, h5⟩, ⟨h6, h7, h8⟩, ⟨h9, h10, h15⟩, ⟨h11, h12, h13, h14⟩, -⟩ := h
  have ht := getElem?_updateAll nodup_toList thaw
  simp only [State.WritesIn] at h9
  refine ⟨?_, ?_, ?_, ?_, hh⟩ <;> constructor <;>
    simp only [State.WritesIn, State.thawed] <;> grind [mem_erase]

theorem Invariant.accesses (m : Std.TreeMap ℕ Access) : Invariant { s with accesses := m } := by
  obtain ⟨⟨h1, h2, h3, h4, h5⟩, ⟨h6, h7, h8⟩, ⟨h9, h10, h15⟩, ⟨h11, h12, h13, h14⟩, hh⟩ := h
  exact ⟨⟨h1, h2, h3, h4, h5⟩, ⟨h6, h7, h8⟩, ⟨h9, h10, h15⟩, ⟨h11, h12, h13, h14⟩,
    ⟨hh.1, hh.2, hh.3, hh.4⟩⟩

theorem Invariant.replace {former : InputTaskId} (c : Replace former s s') : Invariant s' := by
  cases c with
  | replace registers replaces =>
    obtain ⟨owner, ho, hgroup, -⟩ := replaces.group
    refine h.published registers ?_ ?_
    · rw [replaces.files.1]
      rfl
    · rw [← hgroup]
      exact h.histories.group former owner ho

theorem Invariant.readmission {chosen : ℕ → Access → Prop} {g : ℕ}
    (c : Readmission chosen t g s s') : Invariant s' := by
  cases c with
  | readmission _ m => exact h.accesses m

end

theorem Invariant.change (h : Invariant s) (c : Change s s') : Invariant s' := by
  cases c with
  | quiet c => exact h.quiet c
  | readmission c => exact h.readmission c
  | layout layout valid region => exact h.layout region valid
  | verified known phase written => exact h.verified known phase written
  | issue known _ phase => exact h.issued known phase
  | settleUnchecked known task region => exact h.finished known task region _
  | settle c =>
    cases c with
    | settle known thaw _ => exact (h.thawed known thaw).accesses _
  | cancel c =>
    cases c with
    | cancel known thaw _ => exact h.thawed known thaw

/-! ## Growth -/

/-- No generation is taken back, and no task, region, call or freeze is lost. -/
structure State.Grows (s s' : State) : Prop where
  next : s.next ≤ s'.next
  task : ∀ (t : InputTaskId) owner, s.tasks[t]? = some owner → ∃ owner', s'.tasks[t]? = some owner' ∧
    owner'.registration.region = owner.registration.region ∧
    owner'.registration.group = owner.registration.group
  region : ∀ r : RegionLifetime, s.regions[r]?.isSome → s'.regions[r]?.isSome
  call : ∀ id : PhysicalInjectionId, s.injections[id]?.isSome → s'.injections[id]?.isSome
  freeze : ∀ (f : ℕ) members, s.freezes[f]? = some members →
    ∃ members', s'.freezes[f]? = some members' ∧ ∀ t ∈ members, t ∈ members'

theorem State.Grows.refl (s : State) : s.Grows s :=
  ⟨le_rfl, fun _ owner h => ⟨owner, h, rfl, rfl⟩, fun _ => id, fun _ => id,
    fun _ members h => ⟨members, h, fun _ => id⟩⟩

theorem State.Grows.trans {s'' : State} (h : s.Grows s') (h' : s'.Grows s'') : s.Grows s'' := by
  refine ⟨h.next.trans h'.next, fun t owner ht => ?_, fun r hr => h'.region r (h.region r hr),
    fun id hc => h'.call id (h.call id hc), fun f members hf => ?_⟩
  · obtain ⟨o', ho', hr', hg'⟩ := h.task t owner ht
    obtain ⟨o'', ho'', hr'', hg''⟩ := h'.task t o' ho'
    exact ⟨o'', ho'', hr''.trans hr', hg''.trans hg'⟩
  · obtain ⟨m', hm', hsub⟩ := h.freeze f members hf
    obtain ⟨m'', hm'', hsub'⟩ := h'.freeze f m' hm'
    exact ⟨m'', hm'', fun t ht => hsub' t (hsub t ht)⟩

section
open Table
variable {s s' : State}

theorem State.Registers.grows {registration : InputTaskRegistration}
    {freezes : Std.TreeSet ℕ} {joined : Std.TreeMap ℕ (Std.TreeSet InputTaskId)}
    (r : s.Registers registration freezes joined) :
    s.Grows (s.published registration freezes joined) := by
  obtain ⟨new, bound, groupBound, region, joins, group⟩ := r
  have hj := getElem?_updateAll nodup_toList joins
  constructor <;> simp only [State.published] <;> grind [mem_insert]

theorem Replace.grows {former : InputTaskId} (c : Replace former s s') : s.Grows s' := by
  cases c with
  | replace registers => exact registers.grows

theorem Quiet.grows (h : s.Fresh) (c : Quiet s s') : s.Grows s' := by
  have hfz := h.freeze
  cases c with
  | task _ follows =>
    have hreg := follows.registration
    constructor <;> simp only [getElem?_insert] <;> grind
  | publish registers => exact registers.grows
  | freeze frozen =>
    have hj := getElem?_updateAll nodup_toList frozen
    constructor <;> simp only [getElem?_insert] <;> grind
  | _ => constructor <;> simp only [State.finished] <;> grind

end

/-! ## Scanned transactions -/

/-- The call has passed its final access scan with the image, or is settled. -/
def State.Scanned (id : PhysicalInjectionId) (image : ReservedInputImage) : Prop :=
  ∃ call, s.injections[id]? = some call ∧ (call.state.settled = true ∨
    (call.phase.isSome ∧ call.phase ≠ some .preparing ∧ call.image = some image))

section
open Table

theorem State.Scanned.change {s s' : State} {id : PhysicalInjectionId}
    {image : ReservedInputImage} (h : s.Scanned id image) (c : Change s s') : s'.Scanned id image := by
  obtain ⟨call, hc, hsc⟩ := h
  cases c with
  | quiet c =>
    cases c with
    | finish _ _ _ allowed =>
      simp only [State.Scanned, State.finished]
      cases allowed <;> grind [PhysicalInjectionState.settled]
    | publish => exact ⟨call, hc, hsc⟩
    | _ =>
      simp only [State.Scanned]
      grind [PhysicalInjectionState.settled]
  | readmission c => cases c; exact ⟨call, hc, hsc⟩
  | settle c => cases c; exact ⟨call, hc, hsc⟩
  | cancel c => cases c; exact ⟨call, hc, hsc⟩
  | settleUnchecked =>
    simp only [State.Scanned, State.finished]
    grind [PhysicalInjectionState.settled]
  | _ =>
    simp only [State.Scanned]
    grind [PhysicalInjectionState.settled]

end

end Reverie.Input
