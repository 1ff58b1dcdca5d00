/-
  Runs between stop points retire the branches that the decoder says.  The loop that decodes
  a sequence walks along the only path of the guest that takes no branch (`Path`), and every
  branch on it leads to one of the ends.  Main theorem: `exclusive_sequence_exact`.
-/
import Reverie.BranchStep.Flow

namespace Reverie.BranchStep
open List Option BitVec

/-! ## Addresses -/

section
variable {pc : BitVec 64} {index : ℕ}

theorem addressOf_zero : addressOf pc 0 = pc := BitVec.add_zero pc

theorem addressOf_succ : addressOf pc index + 4 = addressOf pc (index + 1) := by
  unfold addressOf
  rw [Nat.mul_succ, BitVec.ofNat_add, BitVec.add_assoc]
  rfl

theorem addressOf_toNat (h : pc.toNat + 4 * index < 2 ^ 64) :
    (addressOf pc index).toNat = pc.toNat + 4 * index := by
  unfold addressOf
  have hindex : 4 * index < 2 ^ 64 := by omega
  rw [toNat_add, toNat_ofNat, Nat.mod_eq_of_lt hindex, Nat.mod_eq_of_lt h]

end

/-! ## Steps -/

section
variable {mem : Memory} {m m' : Machine}

theorem Step.of_next (h : Step mem m m') (hf : flow (fetch mem m.pc) m.pc = .next) :
    m' = ⟨m.pc + 4, m.branches⟩ := by
  cases h with
  | next => rfl
  | taken h => rw [hf] at h; cases h
  | fallthrough h => rw [hf] at h; cases h
  | other h => rw [hf] at h; cases h

theorem Step.of_conditional {t : BitVec 64} (h : Step mem m m')
    (hf : flow (fetch mem m.pc) m.pc = .conditional t) :
    m' = ⟨t, m.branches + 1⟩ ∨ m' = ⟨m.pc + 4, m.branches + 1⟩ := by
  cases h with
  | next h => rw [hf] at h; cases h
  | taken h =>
    rw [hf] at h
    cases h
    exact .inl rfl
  | fallthrough => exact .inr rfl
  | other h => rw [hf] at h; cases h

/-- The instruction falls through, or is a conditional branch. -/
def Straight (mem : Memory) (pc : BitVec 64) : Prop :=
  flow (fetch mem pc) pc = .next ∨ ∃ t, flow (fetch mem pc) pc = .conditional t

end

/-! ## The first stop point -/

variable {code : List (BitVec 8)} {index length : ℕ} {pc at_ : BitVec 64} {stop : Stop}
  {mem : Memory} {e : ℕ → Machine} {α : Type}

theorem insnAt_isSome : (insnAt code index).isSome ↔ 4 * index + 3 < code.length := by
  unfold insnAt
  by_cases h : 4 * index + 3 < code.length
  · have h₀ : 4 * index < code.length := by omega
    have h₁ : 4 * index + 1 < code.length := by omega
    have h₂ : 4 * index + 2 < code.length := by omega
    simp [h, h₀, h₁, h₂]
  · simp [h]

theorem firstStop_some (h : firstStop pc code = some (at_, stop)) :
    ∃ index < STOP_WINDOW, at_ = addressOf pc index ∧
      (∃ word, insnAt code index = some word ∧ classify word at_ = some stop) ∧
      ∀ i < index, ∃ word, insnAt code i = some word ∧ classify word (addressOf pc i) = none := by
  unfold firstStop at h
  split_ifs at h
  obtain ⟨before, index, after, hrange, hfound, hbefore⟩ := findSome?_eq_some_iff.1 h
  simp only [bind_eq_some_iff, map_eq_some_iff] at hfound
  obtain ⟨word, hword, _, hclass, rfl, rfl⟩ := hfound
  have hget : ∀ j < STOP_WINDOW, (before ++ index :: after)[j]? = some j := by
    intro j hj
    rw [← hrange, getElem?_range hj]
  have hlength : before.length < STOP_WINDOW := by
    have := congrArg List.length hrange
    rw [length_range, length_append, length_cons] at this
    omega
  have hindex : index = before.length := by
    have := hget before.length hlength
    simpa using this
  refine ⟨index, hindex ▸ hlength, rfl, ⟨word, hword, hclass⟩, fun i hi => ?_⟩
  have hmem : i ∈ before := by
    have := hget i (by omega)
    rw [getElem?_append_left (by omega)] at this
    exact mem_of_getElem? this
  have hsome : (insnAt code i).isSome := by
    have := insnAt_isSome.1 (isSome_of_eq_some hword)
    exact insnAt_isSome.2 (by omega)
  obtain ⟨word, hword⟩ := isSome_iff_exists.1 hsome
  refine ⟨word, hword, ?_⟩
  have hnone := hbefore i hmem
  rwa [hword, bind_some, map_eq_none_iff] at hnone

theorem straight_run {start : ℕ}
    (hbefore : ∀ i < index, classify (fetch mem (addressOf pc i)) (addressOf pc i) = none)
    (he : Execution mem e) (hpc : (e start).pc = pc) :
    ∀ i ≤ index, e (start + i) = ⟨addressOf pc i, (e start).branches⟩ := by
  intro i
  induction i with
  | zero =>
    intro _
    rw [addressOf_zero, ← hpc]
    rfl
  | succ i ih =>
    intro hi
    have hei := ih (by omega)
    have hflow : flow (fetch mem (e (start + i)).pc) (e (start + i)).pc = .next := by
      rw [hei]
      exact classify_none (hbefore i hi)
    rw [← Nat.add_assoc, (he (start + i)).of_next hflow, hei, addressOf_succ]

theorem firstStop_read (h : firstStop pc (read mem pc length) = some (at_, stop)) :
    ∃ index < STOP_WINDOW, at_ = addressOf pc index ∧ classify (fetch mem at_) at_ = some stop ∧
      ∀ i < index, classify (fetch mem (addressOf pc i)) (addressOf pc i) = none := by
  obtain ⟨index, hindex, rfl, ⟨word, hword, hclass⟩, hbefore⟩ := firstStop_some h
  refine ⟨index, hindex, rfl, ?_, fun i hi => ?_⟩
  · rwa [insnAt_read hword] at hclass
  · obtain ⟨word, hword, hclass⟩ := hbefore i hi
    rwa [insnAt_read hword] at hclass

/-! ## The ends of a sequence -/

theorem mem_destutter' [DecidableEq α] {a x : α} {l : List α} :
    x ∈ l.destutter' (· ≠ ·) a ↔ x = a ∨ x ∈ l := by
  induction l generalizing a with
  | nil => simp
  | cons b l ih =>
    rw [List.destutter'_cons]
    split_ifs with hne
    · rw [mem_cons, ih, mem_cons]
    · obtain rfl := not_ne_iff.1 hne
      rw [ih, mem_cons]
      tauto

theorem mem_destutter [DecidableEq α] {x : α} {l : List α} : x ∈ l.destutter (· ≠ ·) ↔ x ∈ l := by
  cases l with
  | nil => rfl
  | cons a l => rw [destutter_cons', mem_destutter', mem_cons]

theorem mem_sortEnds {x : End} {ends : List End} : x ∈ sortEnds ends ↔ x ∈ ends :=
  mem_destutter.trans (mem_insertionSort _)

/-- The stops are the ends of the sequence, and none of its branches leads into it. -/
theorem unitOf_some {stop : BitVec 64} {exits : List End} {seq : ExclusiveSequence}
    (h : unitOf pc stop exits = some seq) :
    (∀ x ∈ exits, ¬ (pc ≤ x.1 ∧ x.1 < stop)) ∧
    (∀ x ∈ (stop, exits.length) :: exits, ∃ i : Fin 2, i < seq.count ∧ seq.stops i = x.1) ∧
    (∀ x ∈ (stop, exits.length) :: exits, ∀ i : Fin 2, i < seq.count → seq.stops i = x.1 →
      seq.branches i = x.2) ∧
    ∀ i : Fin 2, i < seq.count → ∃ x ∈ (stop, exits.length) :: exits, seq.stops i = x.1 := by
  unfold unitOf at h
  split_ifs at h with hinside
  simp only at h
  split_ifs at h with hsame
  refine ⟨fun x hx hin => hinside (any_eq_true.2 ⟨x, hx, by simpa using hin⟩), ?_⟩
  have hmem : ∀ x, x ∈ (stop, exits.length) :: exits ↔ x ∈ sortEnds ((stop, exits.length) :: exits) :=
    fun x => mem_sortEnds.symm
  simp only [hmem]
  generalize sortEnds ((stop, exits.length) :: exits) = ends at h hsame
  split at h
  · -- one end
    cases h
    simp
  · -- two ends, at different addresses
    rename_i first firstBranches second secondBranches
    cases h
    have hne : first ≠ second := by simpa using hsame
    simp [hne, hne.symm]
  · cases h

/-! ## The path of a sequence -/

section
variable {pc : BitVec 64} {code : List (BitVec 8)}

/-- The loop goes from `index`, with the branches `exits` behind it, to the
    store-exclusive at `store`, with `all` of them. -/
inductive Path (pc : BitVec 64) (code : List (BitVec 8)) : ℕ → List End → ℕ → List End → Prop where
  | store {index : ℕ} {exits : List End} {word : BitVec 32} (hword : insnAt code index = some word)
      (h : isExclusive word false = true) : Path pc code index exits index exits
  | straight {index store : ℕ} {exits all : List End} {word : BitVec 32}
      (hword : insnAt code index = some word) (h : classify word (addressOf pc index) = none)
      (rest : Path pc code (index + 1) exits store all) : Path pc code index exits store all
  | branch {index store : ℕ} {exits all : List End} {word : BitVec 32} {t : BitVec 64}
      (hword : insnAt code index = some word)
      (h : classify word (addressOf pc index) = some (.direct t true))
      (rest : Path pc code (index + 1) (exits ++ [(t, exits.length + 1)]) store all) :
      Path pc code index exits store all

variable {index store : ℕ} {exits all : List End}

theorem scan_path {left : ℕ} {seq : ExclusiveSequence}
    (h : scan pc code left index exits = some seq) :
    ∃ store all, Path pc code index exits store all ∧ store < index + left ∧
      unitOf pc (addressOf pc store + 4) all = some seq := by
  induction left generalizing index exits with
  | zero => cases h
  | succ left ih =>
    simp only [scan, bind_eq_bind, bind_eq_some_iff] at h
    obtain ⟨word, hword, h⟩ := h
    split_ifs at h with hstore
    · exact ⟨index, exits, .store hword hstore, by omega, h⟩
    · split at h
      · rename_i hclass
        obtain ⟨store, all, path, hlt, hunit⟩ := ih h
        exact ⟨store, all, .straight hword hclass path, by omega, hunit⟩
      · rename_i t hclass
        obtain ⟨store, all, path, hlt, hunit⟩ := ih h
        exact ⟨store, all, .branch hword hclass path, by omega, hunit⟩
      · cases h

section
variable (p : Path pc code index exits store all)
include p

theorem Path.le : index ≤ store := by
  induction p with
  | store => exact le_rfl
  | straight _ _ _ ih => omega
  | branch _ _ _ ih => omega

theorem Path.subset : exits ⊆ all := by
  induction p with
  | store => exact List.Subset.refl _
  | straight _ _ _ ih => exact ih
  | branch _ _ _ ih => exact List.Subset.trans (subset_append_left _ _) ih

theorem Path.exclusive : ∃ word, insnAt code store = some word ∧ isExclusive word false = true := by
  induction p with
  | store hword h => exact ⟨_, hword, h⟩
  | straight _ _ _ ih => exact ih
  | branch _ _ _ ih => exact ih

end

/-- The guest is on the path, before the end. -/
def OnPath (mem : Memory) (pc : BitVec 64) (index store : ℕ) (at_ : BitVec 64) : Prop :=
  ∃ i, index ≤ i ∧ i ≤ store ∧ at_ = addressOf pc i ∧ Straight mem at_

variable {mem : Memory} {length : ℕ}

/-- An execution on the path reaches an end, with the branches that it says. -/
theorem Path.run {e : ℕ → Machine} {j n : ℕ}
    (p : Path pc (read mem pc length) index exits store all) (he : Execution mem e)
    (hpc : (e j).pc = addressOf pc index) (hbranches : (e j).branches = n + exits.length) :
    ∃ k, (∃ x ∈ (addressOf pc store + 4, all.length) :: all, (e k).pc = x.1 ∧
        (e k).branches = n + x.2) ∧
      ∀ i, j ≤ i → i < k → OnPath mem pc index store (e i).pc := by
  induction p generalizing j with
  | @store index exits word hword h =>
    have hflow : flow (fetch mem (e j).pc) (e j).pc = .next := by
      rw [hpc, ← insnAt_read hword]
      exact isExclusive_flow h
    have hstep := (he j).of_next hflow
    refine ⟨j + 1, ⟨_, mem_cons_self, ?_⟩, fun i hi₁ hi₂ => ?_⟩
    · rw [hstep, hpc]
      exact ⟨rfl, hbranches⟩
    · obtain rfl : i = j := by omega
      exact ⟨index, le_rfl, le_rfl, hpc, .inl hflow⟩
  | @straight index store exits all word hword h rest ih =>
    have hflow : flow (fetch mem (e j).pc) (e j).pc = .next := by
      rw [hpc, ← insnAt_read hword]
      exact classify_none h
    have hstep := (he j).of_next hflow
    obtain ⟨k, hend, hpath⟩ := ih (j := j + 1) (by rw [hstep, hpc, addressOf_succ])
      (by rw [hstep, hbranches])
    refine ⟨k, hend, fun i hi₁ hi₂ => ?_⟩
    rcases Nat.eq_or_lt_of_le hi₁ with rfl | hi₁
    · exact ⟨index, le_rfl, (Nat.le_succ _).trans rest.le, hpc, .inl hflow⟩
    · obtain ⟨l, hl₁, hl₂⟩ := hpath i hi₁ hi₂
      exact ⟨l, (Nat.le_succ _).trans hl₁, hl₂⟩
  | @branch index store exits all word t hword h rest ih =>
    have hflow : flow (fetch mem (e j).pc) (e j).pc = .conditional t := by
      rw [hpc, ← insnAt_read hword]
      exact classify_conditional h
    have hhere : OnPath mem pc index store (e j).pc :=
      ⟨index, le_rfl, (Nat.le_succ _).trans rest.le, hpc, .inr ⟨t, hflow⟩⟩
    rcases (he j).of_conditional hflow with hstep | hstep
    · -- taken: the target is an end
      refine ⟨j + 1, ⟨(t, exits.length + 1), ?_, ?_⟩, fun i hi₁ hi₂ => ?_⟩
      · exact mem_cons_of_mem _ (rest.subset (by simp))
      · rw [hstep]
        exact ⟨rfl, by simp only [hbranches]; omega⟩
      · obtain rfl : i = j := by omega
        exact hhere
    · obtain ⟨k, hend, hpath⟩ := ih (j := j + 1) (by rw [hstep, hpc, addressOf_succ])
        (by rw [hstep, hbranches, length_append, length_singleton, Nat.add_assoc])
      refine ⟨k, hend, fun i hi₁ hi₂ => ?_⟩
      rcases Nat.eq_or_lt_of_le hi₁ with rfl | hi₁
      · exact hhere
      · obtain ⟨l, hl₁, hl₂⟩ := hpath i hi₁ hi₂
        exact ⟨l, (Nat.le_succ _).trans hl₁, hl₂⟩

end

/-! ## Exclusive sequences -/

/-- One of its stops. -/
def ExclusiveSequence.StopsAt (seq : ExclusiveSequence) (at_ : BitVec 64) : Prop :=
  ∃ i : Fin 2, i < seq.count ∧ seq.stops i = at_

section
variable {mem : Memory} {pc : BitVec 64} {length : ℕ} {seq : ExclusiveSequence}

/-- The load-exclusive, the path to the store-exclusive, and what is made of it. -/
theorem exclusiveSequence_some (h : exclusiveSequence pc (read mem pc length) = some seq) :
    isExclusive (fetch mem pc) true = true ∧
      ∃ store all, Path pc (read mem pc length) 1 [] store all ∧ store < EXCLUSIVE_WINDOW ∧
        unitOf pc (addressOf pc store + 4) all = some seq := by
  unfold exclusiveSequence at h
  split_ifs at h with halign
  simp only [bind_eq_bind, bind_eq_some_iff] at h
  obtain ⟨first, hfirst, h⟩ := h
  split_ifs at h with hload
  obtain ⟨store, all, path, hlt, hunit⟩ := scan_path h
  rw [insnAt_read hfirst, addressOf_zero] at hload
  exact ⟨hload, store, all, path, by unfold EXCLUSIVE_WINDOW at hlt ⊢; omega, hunit⟩

theorem sequence_order (hpc : pc.toNat + 4 * EXCLUSIVE_WINDOW < 2 ^ 64) {store : ℕ}
    (hstore : store < EXCLUSIVE_WINDOW) (i : ℕ) (hi : i ≤ store) :
    pc ≤ addressOf pc i ∧ addressOf pc i ≤ addressOf pc store ∧
      addressOf pc store < addressOf pc store + 4 := by
  have haddress : ∀ l ≤ store + 1, (addressOf pc l).toNat = pc.toNat + 4 * l :=
    fun l hl => addressOf_toNat (by omega)
  rw [addressOf_succ, le_def, le_def, lt_def, haddress i (by omega),
    haddress store (by omega), haddress (store + 1) le_rfl]
  omega

theorem stops_outside {stop : BitVec 64} {all : List End} (hunit : unitOf pc stop all = some seq)
    {i : Fin 2} (hi : i < seq.count) : ¬ (pc ≤ seq.stops i ∧ seq.stops i < stop) := by
  obtain ⟨hinside, -, -, hends⟩ := unitOf_some hunit
  rintro ⟨h₁, h₂⟩
  obtain ⟨x, hx, hstop⟩ := hends i hi
  rw [hstop] at h₁ h₂
  rcases mem_cons.1 hx with rfl | hx
  · exact absurd h₂ (BitVec.lt_irrefl _)
  · exact hinside x hx ⟨h₁, h₂⟩

/-- From the load-exclusive, an execution reaches a stop, with the branches that the
    sequence says. -/
theorem sequence_reaches (hpc : pc.toNat + 4 * EXCLUSIVE_WINDOW < 2 ^ 64)
    (h : exclusiveSequence pc (read mem pc length) = some seq) {e : ℕ → Machine}
    (he : Execution mem e) (hpc₀ : (e 0).pc = pc) :
    ∃ k, seq.StopsAt (e k).pc ∧
      (∀ i : Fin 2, i < seq.count → seq.stops i = (e k).pc →
        (e k).branches = (e 0).branches + seq.branches i) ∧
      ∀ j < k, ¬ seq.StopsAt (e j).pc ∧ Straight mem (e j).pc := by
  obtain ⟨hload, store, all, path, hlt, hunit⟩ := exclusiveSequence_some h
  obtain ⟨-, hreach, hexact, -⟩ := unitOf_some hunit
  have hflow : flow (fetch mem (e 0).pc) (e 0).pc = .next := by
    rw [hpc₀]
    exact isExclusive_flow hload
  have hstep := (he 0).of_next hflow
  obtain ⟨k, ⟨x, hx, hkpc, hkbranches⟩, hpath⟩ := path.run he (j := 1) (n := (e 0).branches)
    (by rw [hstep, hpc₀, ← addressOf_succ, addressOf_zero]) (by rw [hstep]; rfl)
  obtain ⟨i, hi, hstop⟩ := hreach x hx
  refine ⟨k, ⟨i, hi, by rw [hstop, hkpc]⟩, fun i hi hstop => ?_, fun j hj => ?_⟩
  · rw [hkbranches, hexact x hx i hi (by rw [hstop, hkpc])]
  · have hon : OnPath mem pc 0 store (e j).pc := by
      rcases Nat.eq_zero_or_pos j with rfl | hj₀
      · exact ⟨0, le_rfl, by omega, by rw [hpc₀, addressOf_zero], .inl hflow⟩
      · obtain ⟨l, -, hl⟩ := hpath j hj₀ hj
        exact ⟨l, Nat.zero_le _, hl⟩
    obtain ⟨l, -, hl, hjpc, hstraight⟩ := hon
    obtain ⟨hle, hle', hlt'⟩ := sequence_order hpc hlt l hl
    refine ⟨?_, hstraight⟩
    rintro ⟨i, hi, hstop⟩
    refine stops_outside hunit hi ⟨?_, ?_⟩
    · rwa [hstop, hjpc]
    · rw [hstop, hjpc]
      exact Nat.lt_of_le_of_lt hle' hlt'

end

/-- **Exclusive sequences are exact.**  From the load-exclusive, every execution
    reaches one of the stops; when it first does, it has executed only instructions
    that fall through and conditional branches, and retired exactly as many
    branches as the sequence says.  No stop is between the load-exclusive and the
    store-exclusive. -/
theorem exclusive_sequence_exact (mem : Memory) (pc : BitVec 64) (length : ℕ)
    (seq : ExclusiveSequence) (hpc : pc.toNat + 4 * EXCLUSIVE_WINDOW < 2 ^ 64)
    (h : exclusiveSequence pc (read mem pc length) = some seq) :
    ∃ store, pc < store ∧ isExclusive (fetch mem pc) true = true ∧
      isExclusive (fetch mem store) false = true ∧
      (∀ i : Fin 2, i < seq.count → ¬ (pc ≤ seq.stops i ∧ seq.stops i ≤ store)) ∧
      ∀ e, Execution mem e → (e 0).pc = pc →
        ∃ k, seq.StopsAt (e k).pc ∧
          (∀ i : Fin 2, i < seq.count → seq.stops i = (e k).pc →
            (e k).branches = (e 0).branches + seq.branches i) ∧
          ∀ j < k, ¬ seq.StopsAt (e j).pc ∧ Straight mem (e j).pc := by
  obtain ⟨hload, store, all, path, hlt, hunit⟩ := exclusiveSequence_some h
  have hstore := path.le
  obtain ⟨word, hword, hexclusive⟩ := path.exclusive
  rw [insnAt_read hword] at hexclusive
  refine ⟨addressOf pc store, ?_, hload, hexclusive, fun i hi => ?_,
    fun e he hpc₀ => sequence_reaches hpc h he hpc₀⟩
  · rw [lt_def, addressOf_toNat (by omega)]
    omega
  · rintro ⟨h₁, h₂⟩
    obtain ⟨-, -, hlt'⟩ := sequence_order hpc hlt store le_rfl
    exact stops_outside hunit hi ⟨h₁, Nat.lt_of_le_of_lt h₂ hlt'⟩

/-- Code in memory, from an address. -/
def codeAt (base : BitVec 64) (words : List (BitVec 32)) : Memory := fun address =>
  let i := (address - base).toNat
  ((words[i / 4]?).getD 0).extractLsb' (8 * (i % 4)) 8

/-- A compare-and-swap: `ldxr x0, [x2]`, `cbnz x0, 3f`, `stxr w1, x3, [x2]`,
    `cbnz w1, 1b`. -/
def compareAndSwap : Memory :=
  codeAt 0x1000 [0xc85f7c40, 0xb5000060, 0xc8017c43, 0x35ffffa1]

theorem exclusive_sequence_exact_swap :
    ∃ seq, exclusiveSequence 0x1000 (read compareAndSwap 0x1000 16) = some seq ∧
      seq = ⟨![0x100c, 0x1010], ![1, 1], 2⟩ ∧
      ∃ store, 0x1000 < store ∧ isExclusive (fetch compareAndSwap 0x1000) true = true ∧
        isExclusive (fetch compareAndSwap store) false = true ∧
        (∀ i : Fin 2, i < seq.count → ¬ (0x1000 ≤ seq.stops i ∧ seq.stops i ≤ store)) ∧
        ∀ e, Execution compareAndSwap e → (e 0).pc = 0x1000 →
          ∃ k, seq.StopsAt (e k).pc ∧
            (∀ i : Fin 2, i < seq.count → seq.stops i = (e k).pc →
              (e k).branches = (e 0).branches + seq.branches i) ∧
            ∀ j < k, ¬ seq.StopsAt (e j).pc ∧ Straight compareAndSwap (e j).pc := by
  have hseq : exclusiveSequence 0x1000 (read compareAndSwap 0x1000 16) =
      some ⟨![0x100c, 0x1010], ![1, 1], 2⟩ := by decide +kernel
  exact ⟨_, hseq, rfl, exclusive_sequence_exact compareAndSwap 0x1000 16 _ (by decide) hseq⟩

/-- At the end of the address space the sum wraps around: the sequence is from
    `0xfffffffffffffff8` to the store-exclusive at 0, and a branch back to the
    load-exclusive is accepted.  The first stop is then where the guest already is,
    with no branch retired. -/
theorem exclusive_sequence_wraps :
    ∃ seq, exclusiveSequence 0xfffffffffffffff8
        (read (codeAt 0xfffffffffffffff8 [0xc85f7c40, 0xb5ffffe0, 0xc8017c43]) 0xfffffffffffffff8 12) =
        some seq ∧
      seq.StopsAt 0xfffffffffffffff8 ∧ seq.stops 1 = 0xfffffffffffffff8 ∧ seq.branches 1 = 1 := by
  have hseq : exclusiveSequence 0xfffffffffffffff8
      (read (codeAt 0xfffffffffffffff8 [0xc85f7c40, 0xb5ffffe0, 0xc8017c43]) 0xfffffffffffffff8 12) =
      some ⟨![0x4, 0xfffffffffffffff8], ![1, 1], 2⟩ := by decide +kernel
  exact ⟨_, hseq, ⟨1, by decide, rfl⟩, rfl, rfl⟩

end Reverie.BranchStep
