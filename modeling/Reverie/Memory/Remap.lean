/-
  Moving a mapping (`remap_user_range`).  `Moved` says what a move makes of the pages: those both
  ranges have keep what they were, those the new range adds continue the last old page, the
  rest of the old range is unmapped.  Main theorem: `remap_moves_pages`.
-/
import Reverie.Memory.Runs

namespace Reverie.Memory
open List GuestMemory
open Words (checkedAdd)

/-- The pages of `a` are moved in `b`. -/
structure Moved (a b : Access) (oldFirst oldLast newFirst newLast : ℕ) : Prop where
  /-- the page at `i` is the old page at `i` -/
  kept : ∀ i, oldFirst + i ≤ oldLast → newFirst + i ≤ newLast →
    (b.page (newFirst + i)).state = (a.page (oldFirst + i)).state ∧
    (b.page (newFirst + i)).fileOffset = (a.page (oldFirst + i)).fileOffset ∧
    (b.page (newFirst + i)).sharedAnonymous = (a.page (oldFirst + i)).sharedAnonymous ∧
    (b.page (newFirst + i)).incarnation = (a.page (oldFirst + i)).incarnation
  /-- a grown page continues the last old page -/
  grown : ∀ i, oldLast < oldFirst + i → newFirst + i ≤ newLast →
    (b.page (newFirst + i)).state = (a.page oldLast).state.map UserPageState.unguarded ∧
    (b.page (newFirst + i)).fileOffset = (a.page oldLast).fileOffset.bind
      (fun offset => checkedAdd offset ((oldFirst + i - oldLast) * pageSize)) ∧
    (b.page (newFirst + i)).sharedAnonymous = (a.page oldLast).sharedAnonymous ∧
    (b.page (newFirst + i)).incarnation = some a.nextIncarnation
  /-- an old page that is not a new one is unmapped -/
  unmapped : ∀ q, oldFirst ≤ q → q ≤ oldLast → ¬ (newFirst ≤ q ∧ q ≤ newLast) →
    b.page q = (a.page q).unmapped
  permanent : ∀ q, (a.page q).isPermanent = true →
    (b.page q).reservation = (a.page q).reservation
  other : ∀ q, ¬ (oldFirst ≤ q ∧ q ≤ oldLast) → ¬ (newFirst ≤ q ∧ q ≤ newLast) →
    b.page q = a.page q

namespace Access

variable {a : Access} {oldFirst oldLast newFirst newLast : ℕ} {extension : UserPageState}

/-! ## The two loops -/

theorem vacated_page (h : a.Valid) (q : ℕ) :
    (a.vacated oldFirst oldLast newFirst newLast).page q =
      if oldFirst ≤ q ∧ q ≤ oldLast then (a.page q).unmapped else a.page q :=
  foldl_pageRange (fun _ => unmapPage_local) (drawGrown_evolves h) q

variable {i : ℕ} {r : PageRecord} {grown : Option ℕ}

theorem movePages_page (h : a.Valid) (hi : newFirst + i ≤ newLast) :
    (a.movePages oldFirst oldLast newFirst newLast extension).page (newFirst + i) =
      .placed (a.capture oldFirst oldLast) extension
        (a.grownIncarnation oldFirst oldLast newFirst newLast) i
        ((a.vacated oldFirst oldLast newFirst newLast).page (newFirst + i)) := by
  have hn : ((pageRange newFirst newLast).zipIdx.map Prod.fst).Nodup := by
    rw [zipIdx_map_fst]
    exact nodup_pageRange
  have hx : (newFirst + i, i) ∈ (pageRange newFirst newLast).zipIdx := by
    rw [mk_mem_zipIdx_iff_getElem?, ← map_id (pageRange newFirst newLast),
      pageRange_getElem?, if_pos hi]
    rfl
  rw [movePages_eq]
  exact (placePage_local fun _ _ => placed_drawn h).entry (.refl (vacated_evolves h).valid) hn hx

theorem movePages_page_other (h : a.Valid) {q : ℕ} (hq : ¬ (newFirst ≤ q ∧ q ≤ newLast)) :
    (a.movePages oldFirst oldLast newFirst newLast extension).page q =
      (a.vacated oldFirst oldLast newFirst newLast).page q := by
  rw [movePages_eq]
  refine (placePage_local fun _ _ => placed_drawn h).other (.refl (vacated_evolves h).valid) ?_
  rw [zipIdx_map_fst, mem_pageRange]
  exact hq

/-! ## A move is exact -/

theorem placed_kept (hi : oldFirst + i ≤ oldLast) (hm : (a.page (oldFirst + i)).state.isSome) :
    let new := PageRecord.placed (a.capture oldFirst oldLast) extension grown i r
    new.state = (a.page (oldFirst + i)).state ∧
    new.fileOffset = (a.page (oldFirst + i)).fileOffset ∧
    new.sharedAnonymous = (a.page (oldFirst + i)).sharedAnonymous ∧
    new.incarnation = (a.page (oldFirst + i)).incarnation := by
  simp only [PageRecord.placed, Captured.offset, capture, pageRange_getElem?, if_pos hi]
  refine ⟨?_, rfl, rfl, rfl⟩
  obtain ⟨state, hs⟩ := Option.isSome_iff_exists.1 hm
  have hg : a.pages.get (oldFirst + i) = some state := hs
  rw [hs, hg]
  rfl

/-- A page past the old range is placed as a continuation of the last old page. -/
theorem placed_grown (ho : oldFirst ≤ oldLast) (hi : oldLast < oldFirst + i) :
    let new := PageRecord.placed (a.capture oldFirst oldLast) extension grown i r
    new.state = some extension ∧
    new.fileOffset = (a.page oldLast).fileOffset.bind
      (fun offset => checkedAdd offset ((oldFirst + i - oldLast) * pageSize)) ∧
    new.sharedAnonymous = (a.page oldLast).sharedAnonymous ∧ new.incarnation = grown := by
  have hl : (pageRange oldFirst oldLast).length = oldLast + 1 - oldFirst := length_range'
  simp only [PageRecord.placed, Captured.offset, capture, pageRange_getElem?,
    if_neg (Nat.not_le.2 hi), pageRange_getLast? ho, length_map, hl]
  refine ⟨rfl, ?_, rfl, rfl⟩
  rw [show i + 1 - (oldLast + 1 - oldFirst) = oldFirst + i - oldLast by omega]
  rfl

theorem moved (h : a.Valid) (ho : oldFirst ≤ oldLast)
    (hm : ∀ q, oldFirst ≤ q → q ≤ oldLast → (a.page q).state.isSome)
    (he : (a.page oldLast).state.map UserPageState.unguarded = some extension) :
    Moved a (a.movePages oldFirst oldLast newFirst newLast extension)
      oldFirst oldLast newFirst newLast where
  kept := by
    intro i hi hn
    rw [movePages_page h hn]
    exact placed_kept hi (hm _ (Nat.le_add_right _ _) hi)
  grown := by
    intro i hi hn
    have hg : a.grownIncarnation oldFirst oldLast newFirst newLast = some a.nextIncarnation := by
      rw [grownIncarnation, if_pos (by omega)]
    rw [movePages_page h hn, hg, he]
    exact placed_grown ho hi
  unmapped := by
    intro q hf hl hq
    rw [movePages_page_other h hq, vacated_page h, if_pos ⟨hf, hl⟩]
  permanent := by
    intro q hp
    have hv : ((a.vacated oldFirst oldLast newFirst newLast).page q).reservation =
        (a.page q).reservation := by
      rw [vacated_page h]
      split_ifs
      · rw [PageRecord.unmapped, if_pos hp]
      · rfl
    by_cases hq : newFirst ≤ q ∧ q ≤ newLast
    · obtain ⟨i, rfl⟩ := Nat.exists_eq_add_of_le hq.1
      have hvp : ((a.vacated oldFirst oldLast newFirst newLast).page (newFirst + i)).isPermanent =
          true := by
        rw [PageRecord.isPermanent, hv]
        exact hp
      rw [movePages_page h hq.2, PageRecord.placed, if_pos hvp, hv]
    · rw [movePages_page_other h hq, hv]
  other := by
    intro q hq hq'
    rw [movePages_page_other h hq', vacated_page h, if_neg hq]

end Access

/-! ## The call -/

variable {m : GuestMemory} {address length : ℕ}

theorem GuestMemory.checkedPageRange_eq_some {first last : ℕ}
    (h : m.checkedPageRange address length = .ok (some (first, last))) :
    0 < length ∧ first = address / pageSize ∧ last = (address + length - 1) / pageSize ∧
      first ≤ last := by
  rw [checkedPageRange] at h
  split_ifs at h with hl
  · exact absurd h (by simp)
  · split at h
    · exact absurd h (by simp)
    · obtain ⟨rfl, rfl⟩ := Prod.mk.inj (Option.some.inj (Except.ok.inj h))
      exact ⟨Nat.pos_of_ne_zero hl, rfl, rfl, Nat.div_le_div_right (by omega)⟩

theorem GuestMemory.checkedPageRange_eq_none (h : m.checkedPageRange address length = .ok none) :
    length = 0 := by
  rw [checkedPageRange] at h
  split_ifs at h with hl
  · exact hl
  · split at h
    · exact absurd h (by simp)
    · exact absurd h (by simp)

/-- The three ways `remap_user_range` can go: it refuses, it has nothing to do, or
    every old page is mapped and the pages move. -/
theorem Access.remapUserRange_cases (a : Access) (oldAddress oldLength newAddress newLength : ℕ) :
    (∃ e, a.remapUserRange oldAddress oldLength newAddress newLength = (.error e, a)) ∨
    ((oldLength = 0 ∨ newLength = 0) ∧
      a.remapUserRange oldAddress oldLength newAddress newLength = (.ok (), a)) ∨
    ∃ oldFirst oldLast newFirst newLast last,
      a.checkedPageRange oldAddress oldLength = .ok (some (oldFirst, oldLast)) ∧
      a.checkedPageRange newAddress newLength = .ok (some (newFirst, newLast)) ∧
      (∀ q, oldFirst ≤ q → q ≤ oldLast → (a.page q).state.isSome) ∧
      (a.page oldLast).state = some last ∧
      a.remapUserRange oldAddress oldLength newAddress newLength =
        (.ok (), a.movePages oldFirst oldLast newFirst newLast last.unguarded) := by
  rw [remapUserRange]
  split_ifs
  · exact .inl ⟨_, rfl⟩
  rcases ho : a.checkedPageRange oldAddress oldLength with e | _ | ⟨oldFirst, oldLast⟩
  · exact .inl ⟨_, rfl⟩
  · exact .inr (.inl ⟨.inl (checkedPageRange_eq_none ho), rfl⟩)
  rcases hn : a.checkedPageRange newAddress newLength with e | _ | ⟨newFirst, newLast⟩
  · exact .inl ⟨_, rfl⟩
  · exact .inr (.inl ⟨.inr (checkedPageRange_eq_none hn), rfl⟩)
  obtain ⟨-, -, -, hle⟩ := checkedPageRange_eq_some ho
  dsimp only
  split_ifs with hm
  · exact .inl ⟨_, rfl⟩
  have hmapped : ∀ q, oldFirst ≤ q → q ≤ oldLast → (a.page q).state.isSome := by
    intro q hf hl
    rw [Bool.not_eq_true, any_eq_false] at hm
    have hq := hm (a.pages.get q) (mem_map_of_mem (mem_pageRange.2 ⟨hf, hl⟩))
    rw [Bool.not_eq_true, Option.isNone_eq_false_iff] at hq
    exact hq
  obtain ⟨last, hlast⟩ := Option.isSome_iff_exists.1 (hmapped oldLast hle le_rfl)
  have hj : (a.capture oldFirst oldLast).states.getLast?.join = some last := by
    rw [capture, pageRange_getLast? hle]
    exact hlast
  rw [hj]
  exact .inr (.inr ⟨oldFirst, oldLast, newFirst, newLast, last, rfl, rfl, hmapped, hlast, rfl⟩)

/-- **Remapping moves pages exactly.**  With both ranges nonempty; with an empty one
    the call succeeds and does nothing.  No page of any memory of the process has
    the incarnation that the grown pages take. -/
theorem remap_moves_pages (w : World) (i oldAddress oldLength newAddress newLength : ℕ) :
    let a := w.access i
    let r := a.remapUserRange oldAddress oldLength newAddress newLength
    (∀ e, r.1 = .error e → r.2 = a) ∧ (r.1 = .ok () →
      (oldLength = 0 ∨ newLength = 0) ∧ r.2 = a ∨
      (0 < oldLength ∧ 0 < newLength) ∧
        Moved a r.2 (oldAddress / pageSize) ((oldAddress + oldLength - 1) / pageSize)
          (newAddress / pageSize) ((newAddress + newLength - 1) / pageSize)) ∧
    ∀ j q, ((w.access j).page q).incarnation ≠ some a.nextIncarnation := by
  intro a r
  refine and_assoc.1 ⟨?_, fun j q hq => ((w.valid j).drawn q _ hq).false⟩
  rcases a.remapUserRange_cases oldAddress oldLength newAddress newLength with
    ⟨e, hr⟩ | ⟨h0, hr⟩ | ⟨oldFirst, oldLast, newFirst, newLast, last, ho, hn, hm, hl, hr⟩
  · have hr' : r = (.error e, a) := hr
    rw [hr']
    exact ⟨fun _ _ => rfl, fun h => absurd h (by simp)⟩
  · have hr' : r = (.ok (), a) := hr
    rw [hr']
    exact ⟨fun _ _ => rfl, fun _ => .inl ⟨h0, rfl⟩⟩
  · have hr' : r = (.ok (), _) := hr
    obtain ⟨hop, rfl, rfl, hle⟩ := checkedPageRange_eq_some ho
    obtain ⟨hnp, rfl, rfl, -⟩ := checkedPageRange_eq_some hn
    rw [hr']
    refine ⟨fun _ h => absurd h (by simp), fun _ => .inr ⟨⟨hop, hnp⟩, ?_⟩⟩
    exact Access.moved (w.valid i) hle hm (by rw [hl]; rfl)

def World.onePage : World := (World.new 0 8192).run [.on 0 (.map 0 4096 true true)]

/-- A move to an empty range succeeds and leaves the old page mapped. -/
theorem remap_to_nothing_keeps_page :
    let r := (World.onePage.access 0).remapUserRange 0 4096 4096 0
    r.1 = .ok () ∧ (r.2.page 0).state = some (.accessible true none) :=
  ⟨rfl, rfl⟩

end Reverie.Memory
