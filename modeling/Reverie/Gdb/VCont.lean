/-
  Which action of a `vCont` is carried out: the first one alone, and again and again if it is
  for a process without inferiors (`handleVCont_spins`).  `vCont_leftmost` says when that is
  the left-most action that matches an inferior.
-/
import Reverie.Gdb.Resume
import Reverie.Gdb.Packet

namespace Reverie.Gdb
open Table

/-! ## Inferiors and their threads -/

/-- Every inferior is kept under its thread. -/
def Session.Keyed (s : Session) : Prop :=
  ∀ (tid : ℤ) (i : Inferior), s.inferiors[tid]? = some i → i.id.tid = tid

/-- The ids of the inferiors are those of tasks. -/
def Session.Positive (s : Session) : Prop :=
  ∀ (tid : ℤ) (i : Inferior), s.inferiors[tid]? = some i → 0 < i.id.pid ∧ 0 < i.id.tid

/-- The id is for a thread, or for all threads of a process. -/
def ThreadId.Specified : ThreadId → Prop
  | ⟨_, .id _⟩ => True
  | ⟨.id _, .all⟩ => True
  | _ => False

/-- The id matches an inferior. -/
def Session.Has (s : Session) (threadid : ThreadId) : Prop :=
  ∃ (tid : ℤ) (i : Inferior), s.inferiors[tid]? = some i ∧ threadid.matches i.id.threadId = true

variable {s : Session} {tid : ℤ} {i : Inferior} {threadid : ThreadId}

theorem ThreadId.matches_task (hpid : 0 < i.id.pid) (htid : 0 < i.id.tid) :
    threadid.matches i.id.threadId =
      (threadid.pid.matches (.id i.id.pid) && threadid.tid.matches (.id i.id.tid)) := by
  have hraw : ∀ {n : ℤ}, 0 < n → IdKind.fromRaw n = .id n := fun hn => by
    rw [IdKind.fromRaw, if_neg (by omega), if_neg (by omega)]
  rw [ThreadId.matches, InferiorThreadId.threadId, ThreadId.pidTid, hraw hpid, hraw htid]

theorem Session.mem_threads {p : Inferior → Bool} :
    tid ∈ s.threads p ↔ ∃ i : Inferior, s.inferiors[tid]? = some i ∧ p i = true := by
  rw [Session.threads, List.mem_map]
  constructor
  · rintro ⟨⟨tid, i⟩, hi, rfl⟩
    obtain ⟨hi, hp⟩ := List.mem_filter.1 hi
    exact ⟨i, Std.TreeMap.mem_toList_iff_getElem?_eq_some.1 hi, hp⟩
  · rintro ⟨i, hi, hp⟩
    exact ⟨(tid, i), List.mem_filter.2 ⟨Std.TreeMap.mem_toList_iff_getElem?_eq_some.2 hi, hp⟩, rfl⟩

theorem Session.Keyed.withInferior (h : s.Keyed) : (s.withInferior i.id.tid i).Keyed := by
  intro tid j hj
  rw [Session.withInferior, getElem?_insert] at hj
  split_ifs at hj with heq
  · cases hj
    exact heq
  · exact h tid j hj

/-- The threads of a specified id are those of the inferiors that it matches, if there is
    one. -/
theorem Session.toResume_of_has (hs : s.Keyed) (hpos : s.Positive) (hspec : threadid.Specified)
    (hhas : s.Has threadid) : ∃ tids, s.toResume threadid = .ok tids ∧ tids ≠ [] ∧
      ∀ (tid : ℤ) (j : Inferior), s.inferiors[tid]? = some j →
        (j.id.tid ∈ tids ↔ threadid.matches j.id.threadId = true) := by
  obtain ⟨tid, i, hi, hm⟩ := hhas
  have hmatches : ∀ {t : ℤ} {j : Inferior}, s.inferiors[t]? = some j →
      (threadid.matches j.id.threadId = true ↔ threadid.pid.matches (.id j.id.pid) = true ∧
        threadid.tid.matches (.id j.id.tid) = true) := fun hj => by
    rw [ThreadId.matches_task (hpos _ _ hj).1 (hpos _ _ hj).2, Bool.and_eq_true]
  obtain ⟨hpid, htid⟩ := (hmatches hi).1 hm
  obtain ⟨pid, kind⟩ := threadid
  cases kind with
  | any => cases hspec
  | id t =>
    obtain rfl : t = i.id.tid := of_decide_eq_true htid
    have hkey := hs tid i hi
    refine ⟨[i.id.tid], ?_, List.cons_ne_nil _ _, fun t j hj => ?_⟩
    · rw [Session.toResume, hkey]
      dsimp only
      rw [hi]
      rfl
    · rw [List.mem_singleton, hmatches hj]
      refine ⟨fun heq => ?_, fun h => (of_decide_eq_true h.2).symm⟩
      have hji : j = i := by
        rw [hs t j hj] at heq
        rw [heq, hkey, hi] at hj
        exact (Option.some.inj hj).symm
      rw [hji]
      exact ⟨hpid, htid⟩
  | all =>
    cases pid with
    | all => cases hspec
    | any => cases hspec
    | id pid =>
    obtain rfl : pid = i.id.pid := of_decide_eq_true hpid
    refine ⟨((Table.values s.inferiors).filter fun j => j.id.pid = i.id.pid).map (·.id.tid), rfl, ?_,
      fun t j hj => ?_⟩
    · have hmem : i ∈ (Table.values s.inferiors).filter fun j => j.id.pid = i.id.pid :=
        List.mem_filter.2 ⟨mem_values.2 ⟨tid, hi⟩, decide_eq_true rfl⟩
      exact List.ne_nil_of_mem (List.mem_map_of_mem hmem)
    · rw [List.mem_map, hmatches hj]
      constructor
      · rintro ⟨j', hj', heq⟩
        obtain ⟨hj', hpid'⟩ := List.mem_filter.1 hj'
        obtain ⟨t', ht'⟩ := mem_values.1 hj'
        have hjj : j' = j := by
          rw [hs t' j' ht', hs t j hj] at heq
          rw [heq, hj] at ht'
          exact (Option.some.inj ht').symm
        subst hjj
        exact ⟨decide_eq_true (of_decide_eq_true hpid').symm, rfl⟩
      · rintro ⟨heq, -⟩
        have heq : i.id.pid = j.id.pid := of_decide_eq_true heq
        exact ⟨j, List.mem_filter.2 ⟨mem_values.2 ⟨t, hj⟩, decide_eq_true heq.symm⟩, rfl⟩

/-- The id is refused: it names no thread, or one that is not there. -/
def Session.Refuses (s : Session) (threadid : ThreadId) : Prop :=
  ¬ threadid.Specified ∨ ∃ tid, threadid.tid = .id tid ∧ s.inferiors[tid]? = none

theorem Session.toResume_error_iff :
    (∃ error, s.toResume threadid = .error error) ↔ s.Refuses threadid := by
  obtain ⟨pid, tid⟩ := threadid
  rw [Session.toResume, Session.Refuses]
  cases tid with
  | any => exact iff_of_true ⟨_, rfl⟩ (Or.inl id)
  | id tid =>
    have hspec : ThreadId.Specified ⟨pid, .id tid⟩ := by cases pid <;> trivial
    rcases hi : s.inferiors[tid]? with _ | i
    · exact iff_of_true ⟨_, by dsimp only; rw [hi]; rfl⟩ (Or.inr ⟨tid, rfl, hi⟩)
    · refine iff_of_false ?_ ?_
      · rintro ⟨error, h⟩
        dsimp only at h
        rw [hi] at h
        cases h
      · rintro (h | ⟨t, ht, hnone⟩)
        · exact h hspec
        · cases ht
          rw [hi] at hnone
          cases hnone
  | all =>
    cases pid with
    | id pid =>
      refine iff_of_false ?_ ?_
      · rintro ⟨error, h⟩
        cases h
      · rintro (h | ⟨t, ht, -⟩)
        · exact h trivial
        · cases ht
    | _ => exact iff_of_true ⟨_, rfl⟩ (Or.inl id)

/-- The ids for which nothing is resumed. -/
theorem Session.toResume_eq_nil_iff : s.toResume threadid = .ok [] ↔ ∃ pid,
    threadid = ⟨.id pid, .all⟩ ∧
      ∀ (tid : ℤ) (i : Inferior), s.inferiors[tid]? = some i → i.id.pid ≠ pid := by
  obtain ⟨pid, tid⟩ := threadid
  rw [Session.toResume]
  constructor
  · intro h
    cases tid with
    | any => cases h
    | id tid =>
      dsimp only at h
      split_ifs at h
      cases h
    | all =>
      cases pid with
      | id pid =>
        refine ⟨pid, rfl, fun tid i hi heq => ?_⟩
        have hnil := List.map_eq_nil_iff.1 (Except.ok.inj h)
        exact List.filter_eq_nil_iff.1 hnil i (mem_values.2 ⟨tid, hi⟩) (decide_eq_true heq)
      | _ => cases h
  · rintro ⟨pid, heq, hnone⟩
    cases heq
    have hfilter : (Table.values s.inferiors).filter (fun i => i.id.pid = pid) = [] := by
      refine List.filter_eq_nil_iff.2 fun i hi => ?_
      obtain ⟨tid, htid⟩ := mem_values.1 hi
      exact fun h => hnone tid i htid (of_decide_eq_true h)
    dsimp only
    rw [hfilter]
    rfl

theorem Session.threads_ne_nil (hs : s.Keyed) {tids : List ℤ} (h : s.toResume threadid = .ok tids)
    (hne : tids ≠ []) : (s.threads fun i => i.id.tid ∈ tids) ≠ [] := by
  have hthread : ∀ {t : ℤ} {i : Inferior}, s.inferiors[t]? = some i → i.id.tid ∈ tids →
      (s.threads fun i => i.id.tid ∈ tids) ≠ [] := fun hi hmem =>
    List.ne_nil_of_mem (Session.mem_threads.2 ⟨_, hi, decide_eq_true hmem⟩)
  obtain ⟨pid, kind⟩ := threadid
  rw [Session.toResume] at h
  cases kind with
  | any => cases h
  | id t =>
    dsimp only at h
    split_ifs at h with hi
    cases h
    obtain ⟨i, hi⟩ := Option.isSome_iff_exists.1 hi
    exact hthread hi (List.mem_singleton.2 (hs t i hi))
  | all =>
    cases pid with
    | id pid =>
      cases h
      obtain ⟨t, ht⟩ := List.exists_mem_of_ne_nil _ hne
      obtain ⟨i, hi, rfl⟩ := List.mem_map.1 ht
      obtain ⟨key, hkey⟩ := mem_values.1 (List.mem_filter.1 hi).1
      exact hthread hkey ht
    | _ => cases h

/-! ## What a resume sends -/

/-- From `s` to `s'` some threads were asked to resume, and `new` was sent to them; no action
    was taken. -/
structure Sends (resume : ResumeInferior) (tids : List ℤ) (s s' : Session)
    (new : List (ℤ × ResumeInferior)) : Prop where
  examined : s'.examined = s.examined
  asked : s'.asked = s.asked ++ tids.map (·, resume)
  sent : s'.sent = s.sent ++ new
  only : ∀ x ∈ new, x.1 ∈ tids ∧ x.2 = resume
  keyed : s.Keyed → s'.Keyed

/-- No thread was asked to resume, and no action was taken. -/
abbrev Quiet (s s' : Session) : Prop := ∀ resume, Sends resume [] s s' []

theorem Quiet.of_eq {s' : Session} (hexamined : s'.examined = s.examined)
    (hasked : s'.asked = s.asked) (hsent : s'.sent = s.sent) (hkeyed : s.Keyed → s'.Keyed) :
    Quiet s s' := fun _ =>
  ⟨hexamined, by rw [hasked, List.map_nil, List.append_nil], by rw [hsent, List.append_nil],
    fun _ h => absurd h List.not_mem_nil, hkeyed⟩

theorem Quiet.refl (s : Session) : Quiet s s :=
  Quiet.of_eq rfl rfl rfl id

section
variable {resume : ResumeInferior} {tids : List ℤ} {s s' s'' : Session}
  {new : List (ℤ × ResumeInferior)}

theorem Sends.quiet (h : Sends resume tids s s' new) (hq : Quiet s' s'') :
    Sends resume tids s s'' new := by
  obtain ⟨hexamined, hasked, hsent, -, hkeyed⟩ := hq resume
  refine ⟨hexamined.trans h.examined, ?_, ?_, h.only, fun hs => hkeyed (h.keyed hs)⟩
  · rw [hasked, List.map_nil, List.append_nil, h.asked]
  · rw [hsent, List.append_nil, h.sent]

theorem Quiet.trans (h : Quiet s s') (h' : Quiet s' s'') : Quiet s s'' :=
  fun resume => (h resume).quiet h'

theorem waitForStop_quiet (tid : ℤ) (answer : Option StoppedInferior) :
    Ensures (waitForStop tid answer) s (fun _ s' => Quiet s s') fun _ _ => False := by
  refine Ensures.get_bind ?_
  rcases hi : s.inferiors[tid]? with _ | inferior
  · exact Ensures.pure (Quiet.refl s)
  dsimp only
  split_ifs
  · exact Ensures.pure (Quiet.refl s)
  cases answer with
  | none => exact Ensures.pure (Quiet.refl s)
  | some stopped =>
    refine Ensures.set_bind (Ensures.pure (Quiet.of_eq rfl rfl rfl fun hs => ?_))
    obtain rfl := hs tid inferior hi
    exact hs.withInferior (i := { inferior with resumePending := false })

theorem collectStops_quiet (answers : List (ℤ × Option StoppedInferior)) : ∀ {s : Session}
    (stops : StopCollector), Ensures (collectStops answers stops) s (fun _ s' => Quiet s s')
      fun _ s' => Quiet s s' := by
  induction answers with
  | nil => exact fun stops => Ensures.pure (Quiet.refl _)
  | cons answer rest ih =>
    intro s stops
    refine ((waitForStop_quiet _ _).mono (fun _ _ h => h) fun _ _ h => h.elim).bind fun stop s' hq => ?_
    split
    · exact Ensures.throw hq
    · split_ifs
      · exact Ensures.pure hq
      · exact (ih _).mono (fun _ _ h => hq.trans h) fun _ _ h => hq.trans h

theorem lateStops_quiet (world : World) (processes : List ℤ) (stops : StopCollector) :
    Ensures (lateStops world processes stops) s (fun _ s' => Quiet s s') fun _ s' => Quiet s s' := by
  rw [lateStops]
  split_ifs
  · exact Ensures.get_bind (collectStops_quiet _ _)
  · exact Ensures.pure (Quiet.refl s)

end

/-! ## Resuming -/

/-- Every one of the threads that was not resumed before is sent the resume. -/
def Complete (resume : ResumeInferior) (tids : List ℤ) (s : Session)
    (new : List (ℤ × ResumeInferior)) : Prop :=
  ∀ tid ∈ tids, ∀ i : Inferior, s.inferiors[tid]? = some i → i.resumePending = false →
    (tid, resume) ∈ new

/-- A thread of the list was asked to resume, before an error. -/
def Stopped (resume : ResumeInferior) (tids : List ℤ) (s s' : Session) : Prop :=
  ∃ asked new, Sends resume asked s s' new ∧ asked ≠ [] ∧ ∀ tid ∈ asked, tid ∈ tids

theorem notifyEach_spec (resume : ResumeInferior) (tids : List ℤ) (s : Session) :
    Ensures (tids.forM (notifyResume resume)) s
      (fun _ s' => ∃ new, Sends resume tids s s' new ∧ Complete resume tids s new)
      fun _ s' => Stopped resume tids s s' := by
  refine (Ensures.forM (fun done s' => ∃ new, Sends resume done s s' new ∧ Complete resume done s new ∧
    ∀ tid, tid ∉ done → s'.inferiors[tid]? = s.inferiors[tid]?) ?_ ?_).mono ?_ fun _ _ h => h
  · intro done tid rest s₀ hsplit ⟨new, hsends₀, hcomplete, hframe⟩
    -- the thread is asked, whatever comes of it
    set s' : Session := { s₀ with asked := s₀.asked ++ [(tid, resume)] } with hs'
    have hsends : Sends resume (done ++ [tid]) s s' new := by
      refine ⟨hsends₀.examined, ?_, hsends₀.sent, fun x hx => ?_, hsends₀.keyed⟩
      · rw [hs', hsends₀.asked, List.map_append, List.append_assoc]
        rfl
      · exact ⟨List.mem_append_left _ (hsends₀.only x hx).1, (hsends₀.only x hx).2⟩
    have hstopped : Stopped resume tids s s' := by
      refine ⟨_, new, hsends, List.append_ne_nil_of_right_ne_nil _ (List.cons_ne_nil _ _), ?_⟩
      intro t ht
      rw [hsplit, List.append_cons]
      exact List.mem_append_left _ ht
    -- an inferior that was resumed before, or is sent nothing
    have hkeep : (∀ i : Inferior, s'.inferiors[tid]? = some i → i.resumePending = true) →
        ∃ new, Sends resume (done ++ [tid]) s s' new ∧ Complete resume (done ++ [tid]) s new ∧
          ∀ t, t ∉ done ++ [tid] → s'.inferiors[t]? = s.inferiors[t]? := by
      intro hpending
      refine ⟨new, hsends, fun t ht i hi hp => ?_, fun t ht =>
        hframe t fun h => ht (List.mem_append_left _ h)⟩
      by_cases hdone : t ∈ done
      · exact hcomplete t hdone i hi hp
      · rcases List.mem_append.1 ht with ht | ht
        · exact absurd ht hdone
        · obtain rfl := List.mem_singleton.1 ht
          rw [← hframe t hdone] at hi
          rw [hpending i hi] at hp
          cases hp
    refine Ensures.modify_bind (Ensures.get_bind ?_)
    rcases hi : s'.inferiors[tid]? with _ | inferior
    · exact Ensures.pure (hkeep fun i h => by rw [hi] at h; cases h)
    dsimp only
    split_ifs with hpending
    · exact Ensures.pure (hkeep fun i h => by rw [hi] at h; cases h; exact hpending)
    split
    · exact Ensures.throw hstopped
    · exact Ensures.throw hstopped
    · refine Ensures.set_bind (f := fun _ => Pure.pure ())
        (Ensures.pure ⟨new ++ [(tid, resume)], ?_, ?_, ?_⟩)
      · refine ⟨hsends.examined, hsends.asked, ?_, ?_, fun hs => ?_⟩
        · rw [hsends.sent, List.append_assoc]
        · intro x hx
          rcases List.mem_append.1 hx with hx | hx
          · exact hsends.only x hx
          · obtain rfl := List.mem_singleton.1 hx
            exact ⟨List.mem_append_right _ List.mem_cons_self, rfl⟩
        · have hkeyed := hsends.keyed hs
          obtain rfl := hkeyed tid inferior hi
          exact hkeyed.withInferior (i := { inferior with resumePending := true })
      · intro t ht i hti hp
        rcases List.mem_append.1 ht with ht | ht
        · exact List.mem_append_left _ (hcomplete t ht i hti hp)
        · obtain rfl := List.mem_singleton.1 ht
          exact List.mem_append_right _ List.mem_cons_self
      · intro t ht
        obtain ⟨hdone, hne⟩ := not_or.1 (mt List.mem_append.2 ht)
        rw [← hframe t hdone]
        show (s'.inferiors.insert tid _)[t]? = _
        rw [getElem?_insert, if_neg fun h => hne (List.mem_singleton.2 h.symm)]
  · exact ⟨[], Quiet.refl s resume, fun _ h => absurd h List.not_mem_nil, fun _ _ => rfl⟩
  · exact fun _ _ ⟨new, hsends, hcomplete, _⟩ => ⟨new, hsends, hcomplete⟩

theorem vcontResume_spec (world : World) (s : Session) (resume : ResumeInferior)
    {tids waiting : List ℤ} (h : s.toResume threadid = .ok tids) (hne : tids ≠ [])
    (hwaiting : waiting = s.threads fun i => i.id.tid ∈ tids) (hwait : waiting ≠ []) :
    Ensures (vcontResume world threadid resume) s
      (fun handled s' => (∃ result, handled = .handled result) ∧
        ∃ new, Sends resume waiting s s' new ∧ Complete resume waiting s new)
      fun _ s' => Stopped resume waiting s s' := by
  subst hwaiting
  refine Ensures.get_bind ?_
  obtain ⟨tid, others, rfl⟩ := List.exists_cons_of_ne_nil hne
  rw [h]
  refine (notifyEach_spec resume _ s).bind fun _ s₁ ⟨new, hsends, hcomplete⟩ => ?_
  refine ((collectStops_quiet _ _).mono (fun _ _ h => h) fun _ _ h =>
    ⟨_, new, hsends.quiet h, hwait, fun _ => id⟩).bind fun stops s₂ hq => ?_
  refine ((lateStops_quiet _ _ _).mono (fun _ _ h => h) fun _ _ h =>
    ⟨_, new, (hsends.quiet hq).quiet h, hwait, fun _ => id⟩).bind fun stops s₃ hq' => ?_
  have hdone := (hsends.quiet hq).quiet hq'
  split
  · exact Ensures.throw ⟨_, new, hdone, hwait, fun _ => id⟩
  · exact Ensures.pure ⟨⟨_, rfl⟩, new, hdone, hcomplete⟩

theorem vcontResume_refused (world : World) (resume : ResumeInferior) {error : ResumeError}
    (h : s.toResume threadid = .error error) :
    vcontResume world threadid resume s = .error error s := by
  simp only [vcontResume, bind, EStateM.bind, get, getThe, MonadStateOf.get, EStateM.get, h]
  rfl

theorem vcontResume_nothing (world : World) (resume : ResumeInferior)
    (h : s.toResume threadid = .ok []) :
    vcontResume world threadid resume s = .ok .notHandled s := by
  simp only [vcontResume, bind, EStateM.bind, get, getThe, MonadStateOf.get, EStateM.get, h]
  rfl

/-! ## The handler -/

theorem Session.remove_quiet (s : Session) (ptid : ThreadId) : Quiet s (s.remove ptid) := by
  rw [Session.remove]
  split
  · refine Quiet.of_eq rfl rfl rfl fun hs tid i hi => hs tid i ?_
    rw [getElem?_erase] at hi
    split_ifs at hi
    exact hi
  · refine Quiet.of_eq rfl rfl rfl fun hs tid i hi => hs tid i ?_
    rw [getElem?_filter] at hi
    exact (Option.filter_eq_some_iff.1 hi).1

theorem Session.settle_quiet (s : Session) (result : VcontResumeResult) :
    Quiet s (s.settle result) := by
  have hremove : ∀ (ptids : List ThreadId) (s : Session), Quiet s (ptids.foldl Session.remove s) := by
    intro ptids
    induction ptids with
    | nil => exact fun s => Quiet.refl s
    | cons ptid ptids ih => exact fun s => (s.remove_quiet ptid).trans (ih _)
  have hstop : Quiet s { s with
      stopped := result.reporter, replied := s.replied ++ result.replied.toList } :=
    Quiet.of_eq rfl rfl rfl id
  have hgone := hstop.trans (hremove result.ptidToRemove _)
  rw [Session.settle]
  revert hgone
  generalize result.ptidToRemove.foldl Session.remove _ = s₁
  intro hgone
  rcases result.newInferior with _ | inferior
  · rcases result.switchTo with _ | switchTo
    · exact hgone
    · exact hgone.trans (Quiet.of_eq rfl rfl rfl id)
  · have hnew : Quiet s (s₁.withInferior inferior.id.tid inferior) :=
      hgone.trans (Quiet.of_eq rfl rfl rfl fun hs => hs.withInferior)
    rcases result.switchTo with _ | switchTo
    · exact hnew
    · exact hnew.trans (Quiet.of_eq rfl rfl rfl id)

/-- The handler ends, with a reply or an error. -/
def VContEnd.Answers : VContEnd → Prop
  | .replied _ => True
  | .error _ => True
  | .panicked => False
  | .silent => False

/-- The first action that matches an inferior. -/
def Session.leftmost (s : Session) (actions : List (ResumeAction × ThreadId)) :
    Option (ResumeAction × ThreadId) :=
  actions.find? fun action => (Table.values s.inferiors).any (action.2.matches ·.id.threadId)

/-- What a `vCont` is to do: reply or fail, after it has examined the actions from the left,
    each at most once; and ask those inferiors to resume that the left-most action with one
    matches, and no others, all of them if it replies. -/
structure LeftMost (s : Session) (actions : List (ResumeAction × ThreadId)) (ended : VContEnd)
    (s' : Session) : Prop where
  answers : ended.Answers
  examined : ∃ done, done <+: actions ∧ s'.examined = s.examined ++ done ∧
    ∀ first, s.leftmost actions = some first → first ∈ done
  resumes : ∃ asked sent, s'.asked = s.asked ++ asked ∧ s'.sent = s.sent ++ sent ∧
    (∀ x ∈ sent, x ∈ asked) ∧
    (∀ x ∈ asked, ∃ first, s.leftmost actions = some first ∧ resumeOf first.1 = some x.2 ∧
      ∃ i : Inferior, s.inferiors[x.1]? = some i ∧ first.2.matches i.id.threadId = true) ∧
    ∀ first, s.leftmost actions = some first → asked ≠ [] ∧
      ∀ reason, ended = .replied reason → ∀ (tid : ℤ) (i : Inferior), s.inferiors[tid]? = some i →
        first.2.matches i.id.threadId = true → ∃ resume, (tid, resume) ∈ asked ∧
          (i.resumePending = false → (tid, resume) ∈ sent)

/-- The first action can be carried out, and matches an inferior that it specifies, or it is
    refused while no action matches one. -/
def Session.Fits (s : Session) (actions : List (ResumeAction × ThreadId)) : Prop :=
  ∃ first rest resume, actions = first :: rest ∧ resumeOf first.1 = some resume ∧
    (first.2.Specified ∧ s.Has first.2 ∨
      s.Refuses first.2 ∧ ∀ action ∈ actions, ¬ s.Has action.2)

theorem Session.any_matches_iff : ((Table.values s.inferiors).any
    (threadid.matches ·.id.threadId)) = true ↔ s.Has threadid := by
  rw [List.any_eq_true, Session.Has]
  constructor
  · rintro ⟨i, hi, hm⟩
    obtain ⟨tid, hi⟩ := mem_values.1 hi
    exact ⟨tid, i, hi, hm⟩
  · rintro ⟨tid, i, hi, hm⟩
    exact ⟨i, mem_values.2 ⟨tid, hi⟩, hm⟩

section
variable {actions rest : List (ResumeAction × ThreadId)} {first : ResumeAction × ThreadId}
  {resume : ResumeInferior}

theorem Session.leftmost_eq_none_iff :
    s.leftmost actions = none ↔ ∀ action ∈ actions, ¬ s.Has action.2 := by
  rw [Session.leftmost, List.find?_eq_none]
  exact forall₂_congr fun _ _ => not_congr Session.any_matches_iff

theorem Session.leftmost_of_has (rest : List (ResumeAction × ThreadId)) (h : s.Has first.2) :
    s.leftmost (first :: rest) = some first :=
  List.find?_cons_of_pos (Session.any_matches_iff.2 h)

/-- A first action that is refused ends the handler. -/
theorem handleVCont_refused (world : World) (rest : List (ResumeAction × ThreadId))
    (hresume : resumeOf first.1 = some resume)
    (h : s.Refuses first.2) (fuel : ℕ) :
    ∃ error, handleVCont world (fuel + 1) (first :: rest) s =
      some (.error error, { s with examined := s.examined ++ [first] }) := by
  obtain ⟨action, threadid⟩ := first
  obtain ⟨error, herror⟩ := Session.toResume_error_iff.2 h
  refine ⟨error, ?_⟩
  rw [handleVCont, List.head?_cons]
  dsimp only at hresume ⊢
  rw [hresume]
  dsimp only
  rw [vcontResume_refused world resume]
  exact herror

/-- A first action with threads to resume is carried out. -/
theorem handleVCont_resumes (world : World) (rest : List (ResumeAction × ThreadId))
    (hresume : resumeOf first.1 = some resume)
    {tids : List ℤ} (htids : s.toResume first.2 = .ok tids) (hne : tids ≠ [])
    (hwait : (s.threads fun i => i.id.tid ∈ tids) ≠ []) (fuel : ℕ) :
    ∃ ended s' asked new, handleVCont world (fuel + 1) (first :: rest) s = some (ended, s') ∧
      ended.Answers ∧ Sends resume asked { s with examined := s.examined ++ [first] } s' new ∧
      asked ≠ [] ∧ (∀ tid ∈ asked, tid ∈ s.threads fun i => i.id.tid ∈ tids) ∧
      ∀ reason, ended = .replied reason → asked = (s.threads fun i => i.id.tid ∈ tids) ∧
        Complete resume asked s new := by
  obtain ⟨action, threadid⟩ := first
  rw [handleVCont, List.head?_cons]
  dsimp only at hresume htids ⊢
  rw [hresume]
  dsimp only
  set s₁ : Session := { s with examined := s.examined ++ [(action, threadid)] }
  have hspec := vcontResume_spec world s₁ resume htids hne rfl hwait
  rcases hx : vcontResume world threadid resume s₁ with ⟨handled, s'⟩ | ⟨error, s'⟩
  · obtain ⟨⟨result, rfl⟩, new, hsends, hcomplete⟩ := hspec.of_ok hx
    exact ⟨_, _, _, new, rfl, trivial, hsends.quiet (s'.settle_quiet result), hwait, fun _ => id,
      fun _ _ => ⟨rfl, hcomplete⟩⟩
  · obtain ⟨asked, new, hsends, hasked, honly⟩ := hspec.of_error hx
    exact ⟨_, _, asked, new, rfl, trivial, hsends, hasked, honly, fun _ => (by cases ·)⟩

/-- **A first action that is for a process without inferiors is taken again and again.** -/
theorem handleVCont_spins (world : World) {action : ResumeAction} {pid : ℤ}
    (hresume : resumeOf action = some resume) (rest : List (ResumeAction × ThreadId)) (fuel : ℕ) :
    ∀ {s : Session}, (∀ (tid : ℤ) (i : Inferior), s.inferiors[tid]? = some i → i.id.pid ≠ pid) →
      handleVCont world fuel ((action, ⟨.id pid, .all⟩) :: rest) s = none := by
  induction fuel with
  | zero => exact fun _ => rfl
  | succ fuel ih =>
    intro s hnone
    rw [handleVCont, List.head?_cons]
    dsimp only
    rw [hresume]
    dsimp only
    rw [vcontResume_nothing world resume]
    · exact ih hnone
    · exact Session.toResume_eq_nil_iff.2 ⟨pid, rfl, hnone⟩

theorem Session.Fits.leftMost (world : World) (hs : s.Keyed) (hpos : s.Positive)
    (h : s.Fits actions) : ∃ fuel ended s', handleVCont world fuel actions s = some (ended, s') ∧
      LeftMost s actions ended s' := by
  obtain ⟨first, rest, resume, rfl, hresume, ⟨hspec, hhas⟩ | ⟨hrefuses, hnone⟩⟩ := h
  · obtain ⟨tids, htids, hne, hmatches⟩ := Session.toResume_of_has hs hpos hspec hhas
    have hthreads : ∀ {tid : ℤ} {i : Inferior}, s.inferiors[tid]? = some i →
        first.2.matches i.id.threadId = true → tid ∈ s.threads fun i => i.id.tid ∈ tids :=
      fun hi hm => Session.mem_threads.2 ⟨_, hi, decide_eq_true ((hmatches _ _ hi).2 hm)⟩
    have hleft := Session.leftmost_of_has rest hhas
    obtain ⟨tid, i, hi, hm⟩ := hhas
    obtain ⟨ended, s', asked, new, hrun, hanswers, hsends, hasked, honly, hall⟩ :=
      handleVCont_resumes world rest hresume htids hne
        (List.ne_nil_of_mem (hthreads hi hm)) 0
    refine ⟨1, ended, s', hrun, hanswers, ⟨[first], ⟨rest, rfl⟩, hsends.examined, ?_⟩, _, new,
      hsends.asked, hsends.sent, ?_, ?_, ?_⟩
    · intro act hact
      rw [hleft] at hact
      cases hact
      exact List.mem_singleton_self first
    · intro x hx
      obtain ⟨hmem, hx2⟩ := hsends.only x hx
      exact List.mem_map.2 ⟨x.1, hmem, by rw [← hx2]⟩
    · intro x hx
      obtain ⟨tid, htid, rfl⟩ := List.mem_map.1 hx
      obtain ⟨j, hj, hmem⟩ := Session.mem_threads.1 (honly tid htid)
      exact ⟨first, hleft, hresume, j, hj, (hmatches tid j hj).1 (of_decide_eq_true hmem)⟩
    · intro act hact
      rw [hleft] at hact
      cases hact
      refine ⟨mt List.map_eq_nil_iff.1 hasked, fun reason hreason tid j hj hmj => ⟨resume, ?_⟩⟩
      obtain ⟨rfl, hcomplete⟩ := hall reason hreason
      have htid := hthreads hj hmj
      exact ⟨List.mem_map_of_mem htid, hcomplete tid htid j hj⟩
  · have hleft := Session.leftmost_eq_none_iff.2 hnone
    obtain ⟨error, hrun⟩ := handleVCont_refused world rest hresume hrefuses 0
    refine ⟨1, _, _, hrun, trivial, ⟨[first], ⟨rest, rfl⟩, rfl, ?_⟩, [], [],
      (List.append_nil _).symm, (List.append_nil _).symm, fun _ => id, ?_, ?_⟩
    · exact fun act hact => by rw [hleft] at hact; cases hact
    · exact fun x hx => absurd hx List.not_mem_nil
    · exact fun act hact => by rw [hleft] at hact; cases hact

theorem LeftMost.fits (world : World) (hs : s.Keyed) {fuel : ℕ} {ended : VContEnd} {s' : Session}
    (hrun : handleVCont world fuel actions s = some (ended, s')) (h : LeftMost s actions ended s') :
    s.Fits actions := by
  obtain ⟨asked, sent, hasked, -, -, honly, hleft⟩ := h.resumes
  rcases fuel with _ | fuel
  · cases hrun
  rcases actions with _ | ⟨first, rest⟩
  · cases hrun
    exact h.answers.elim
  rcases hresume : resumeOf first.1 with _ | resume
  · rw [handleVCont, List.head?_cons] at hrun
    dsimp only at hrun
    rw [hresume] at hrun
    cases hrun
    exact h.answers.elim
  refine ⟨first, rest, resume, rfl, hresume, ?_⟩
  rcases htids : s.toResume first.2 with error | tids
  · -- refused: no thread was asked, so that no action matches
    have hrefuses := Session.toResume_error_iff.1 ⟨error, htids⟩
    obtain ⟨error, hend⟩ := handleVCont_refused world rest hresume hrefuses fuel
    cases hrun.symm.trans hend
    obtain rfl : asked = [] := List.append_cancel_left (hasked.symm.trans (List.append_nil _).symm)
    refine Or.inr ⟨hrefuses, Session.leftmost_eq_none_iff.1 ?_⟩
    rcases hl : s.leftmost (first :: rest) with _ | act
    · rfl
    · exact absurd rfl (hleft act hl).1
  · have hspec : first.2.Specified := by
      by_contra hno
      obtain ⟨error, herror⟩ := Session.toResume_error_iff.2 (Or.inl hno)
      rw [herror] at htids
      cases htids
    by_cases hne : tids = []
    · subst hne
      obtain ⟨pid, hpid, hnone⟩ := Session.toResume_eq_nil_iff.1 htids
      obtain ⟨action, threadid⟩ := first
      obtain rfl : threadid = ⟨.id pid, .all⟩ := hpid
      rw [handleVCont_spins world hresume rest _ hnone] at hrun
      cases hrun
    · -- carried out: a thread was asked for the left-most action, which was examined
      refine Or.inl ⟨hspec, ?_⟩
      obtain ⟨ended', s'', tids', new, hend, -, hsends, hne', -, -⟩ := handleVCont_resumes world
        rest hresume htids hne (Session.threads_ne_nil hs htids hne) fuel
      cases hrun.symm.trans hend
      obtain ⟨done, -, hexamined, hmem⟩ := h.examined
      obtain rfl : done = [first] :=
        List.append_cancel_left (hexamined.symm.trans hsends.examined)
      obtain rfl : asked = tids'.map (·, resume) :=
        List.append_cancel_left (hasked.symm.trans hsends.asked)
      obtain ⟨t, ht⟩ := List.exists_mem_of_ne_nil _ hne'
      obtain ⟨act, hact, -⟩ := honly _ (List.mem_map_of_mem ht)
      obtain rfl := List.mem_singleton.1 (hmem act hact)
      have hany := List.find?_some hact
      exact Session.any_matches_iff.1 hany

end

/-- **The left-most action alone is carried out, exactly if the condition holds.** -/
theorem vCont_leftmost (world : World) (hs : s.Keyed) (hpos : s.Positive)
    (actions : List (ResumeAction × ThreadId)) :
    (∃ fuel ended s', handleVCont world fuel actions s = some (ended, s') ∧
      LeftMost s actions ended s') ↔ s.Fits actions :=
  ⟨fun ⟨_, _, _, hrun, h⟩ => h.fits world hs hrun, Session.Fits.leftMost world hs hpos⟩

/-- Every thread that is waited for has gone. -/
def World.closed : World where
  answers waiting := waiting.map fun tid => (tid, none)
  lateAnswers waiting := waiting.map fun tid => (tid, none)
  perm waiting := by simp [Function.comp_def]
  latePerm waiting := by simp [Function.comp_def]

/-- The session of one thread, before its first command. -/
def Session.single (tid : ℤ) : Session :=
  ⟨(∅ : Std.TreeMap ℤ Inferior).insert tid ⟨⟨tid, tid⟩, some true, true, false⟩,
    none, none, [], [], [], []⟩

theorem Session.single_inferiors {t : ℤ}
    (h : (Session.single tid).inferiors[t]? = some i) :
    tid = t ∧ i = ⟨⟨tid, tid⟩, some true, true, false⟩ := by
  rw [Session.single, getElem?_insert] at h
  split_ifs at h with heq
  · exact ⟨heq, (Option.some.inj h).symm⟩
  · simp at h

theorem vCont_leftmost_sample : (Session.single 2).Keyed ∧ (Session.single 2).Positive ∧
    ∃ fuel ended s', handleVCont World.closed fuel
      [(.continue none, ⟨.any, .id 2⟩), (.stop, ⟨.id 2, .id 2⟩)] (Session.single 2) =
        some (ended, s') ∧ LeftMost (Session.single 2)
          [(.continue none, ⟨.any, .id 2⟩), (.stop, ⟨.id 2, .id 2⟩)] ended s' := by
  have hkeyed : (Session.single 2).Keyed := fun tid i hi => by
    obtain ⟨rfl, rfl⟩ := Session.single_inferiors hi
    rfl
  have hpos : (Session.single 2).Positive := fun tid i hi => by
    obtain ⟨rfl, rfl⟩ := Session.single_inferiors hi
    decide
  refine ⟨hkeyed, hpos, (vCont_leftmost World.closed hkeyed hpos _).2
    ⟨_, _, _, rfl, rfl, Or.inl ⟨trivial, 2, ⟨⟨2, 2⟩, some true, true, false⟩, ?_, ?_⟩⟩⟩
  · rfl
  · rfl

/-- The parser accepts an action for a process that has no inferior, on which the handler
    does not end, actions that make it panic, and an action for a thread that has gone, which
    ends the handler before an action for a thread that has not. -/
theorem vCont_diverges : (Packet.tryFrom (ascii "$vCont;c:p2.-1#10")).run =
      .ok (.ok (.command (.base (.vCont (.actions [(.continue none, ⟨.id 2, .all⟩)]))))) ∧
    (Packet.tryFrom (ascii "$vCont;t:p2.2#f5")).run =
      .ok (.ok (.command (.base (.vCont (.actions [(.stop, ⟨.id 2, .id 2⟩)]))))) ∧
    ∀ world : World,
      (∀ fuel, handleVCont world fuel [(.continue none, ⟨.id 2, .all⟩)] (Session.single 3) = none) ∧
      (∀ (s : Session) (fuel : ℕ),
        (handleVCont world (fuel + 1) [(.stop, ⟨.id 2, .id 2⟩)] s).map Prod.fst = some .panicked) ∧
      ∀ fuel, (handleVCont world (fuel + 1) [(.continue none, ⟨.id 2, .id 5⟩),
        (.continue none, ⟨.id 2, .id 2⟩)] (Session.single 2)).map Prod.fst =
          some (.error (.unknownThread 5)) := by
  refine ⟨rfl, rfl, fun world => ⟨fun fuel => handleVCont_spins world rfl [] fuel fun tid i hi => ?_,
    fun s fuel => rfl, fun fuel => rfl⟩⟩
  obtain ⟨rfl, rfl⟩ := Session.single_inferiors hi
  decide

end Reverie.Gdb
