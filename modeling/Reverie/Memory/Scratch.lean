/-
  The scratch cache (`expose_tool_scratch`, `hide_tool_scratch`) is invisible: exposing is
  reserving and mapping (`expose_agrees`), and hiding is unmapping, except that mapping
  incarnations stay (`hide_agrees`).  Main theorem: `scratch_cache_invisible`.
-/
import Reverie.Memory.Remap

namespace Reverie.Memory
open List

namespace Access

/-- `expose_tool_scratch` by its parts: a reservation, a mapping, and a commit, or a
    rollback if the mapping fails. -/
def exposeSeparately (a : Access) (address length : ℕ) : Except Error Unit × Access :=
  match a.reserveRegion address length .toolScratch with
  | (.error e, b) => (.error e, b)
  | (.ok old, b) =>
    match b.mapUserRange address length false with
    | (.ok (), c) => (.ok (), c)
    | (.error e, c) => (.error e, c.dropReservation old)

variable {a : Access} {first last : ℕ}

/-! ## Exposing -/

def reserveScratch (a : Access) (first last : ℕ) : Replaced × Access :=
  (pageRange first last).foldl (reservePage .toolScratch false) ([], a)

theorem reserveScratch_evolves (h : a.Valid) : Evolves a (a.reserveScratch first last).2 :=
  reservePage_local.run (s := ([], a)) (Evolves.refl h)

theorem reserveScratch_page (h : a.Valid) (q : ℕ) :
    (a.reserveScratch first last).2.page q =
      if first ≤ q ∧ q ≤ last then { a.page q with reservation := some .toolScratch }
      else a.page q := by
  have hs : Evolves a (([], a) : Replaced × Access).2 := .refl h
  exact foldl_pageRange (fun _ => reservePage_local) hs q

theorem reserve_replaced {kind : RegionKind} {ps : List ℕ} (hn : ps.Nodup) :
    ∀ (old : Replaced) (b : Access), (ps.foldl (reservePage kind false) (old, b)).1 =
      old ++ ps.map fun p => (p, b.reservations.inner p) := by
  induction ps with
  | nil => exact fun old _ => (append_nil old).symm
  | cons p ps ih =>
    intro old b
    obtain ⟨hp, hps⟩ := nodup_cons.1 hn
    have hm : (ps.map fun q => (q, (b.setReservation p (some kind)).reservations.inner q)) =
        ps.map fun q => (q, b.reservations.inner q) := by
      refine map_congr_left fun q hq => ?_
      have hqp : q ≠ p := fun e => hp (e ▸ hq)
      exact congrArg (Prod.mk q) (Function.update_of_ne hqp _ _)
    rw [map_cons]
    refine (ih hps _ _).trans ?_
    rw [hm, append_assoc, singleton_append]

theorem reserveScratch_dropped (h : a.Valid) (q : ℕ) :
    ((a.reserveScratch first last).2.dropReservation (a.reserveScratch first last).1).page q =
      a.page q := by
  have hr : (a.reserveScratch first last).1 =
      (pageRange first last).map fun p => (p, a.reservations.inner p) :=
    (reserve_replaced nodup_pageRange [] a).trans (nil_append _)
  have hk : (((pageRange first last).map fun p => (p, a.reservations.inner p)).map Prod.fst) =
      pageRange first last := by
    rw [map_map]
    exact map_id _
  have he : Evolves a (a.reserveScratch first last).2 := reserveScratch_evolves h
  rw [hr, dropReservation]
  by_cases hq : first ≤ q ∧ q ≤ last
  · have hx : (q, a.reservations.inner q) ∈
        (pageRange first last).map fun p => (p, a.reservations.inner p) :=
      mem_map_of_mem (mem_pageRange.2 hq)
    have hn : (((pageRange first last).map fun p => (p, a.reservations.inner p)).map
        Prod.fst).Nodup := by
      rw [hk]
      exact nodup_pageRange
    refine (dropReservation_local.entry he hn hx).trans ?_
    rw [reserveScratch_page h, if_pos hq]
    rfl
  · have hx : q ∉ ((pageRange first last).map fun p => (p, a.reservations.inner p)).map Prod.fst := by
      rw [hk, mem_pageRange]
      exact hq
    rw [dropReservation_local.other he hx, reserveScratch_page h, if_neg hq]

theorem exposeSeparately_eq (h : a.Valid) {address length : ℕ}
    (hr : a.checkedPageRange address length = .ok (some (first, last))) :
    a.exposeSeparately address length =
      if a.holdsReadOnlyFile first last then
        (.error (.guestMemoryAccessDenied address length),
          (a.reserveScratch first last).2.dropReservation (a.reserveScratch first last).1)
      else
        (.ok (), (pageRange first last).foldl (setUserPage fun _ => EXPOSED)
          (a.reserveScratch first last).2) := by
  have he : Evolves a (a.reserveScratch first last).2 := reserveScratch_evolves h
  have hs : a.reserveRegion address length .toolScratch =
      (.ok (a.reserveScratch first last).1, (a.reserveScratch first last).2) := by
    rw [reserveRegion, reserveRegionInner, hr]
    rfl
  rw [exposeSeparately, hs]
  dsimp only
  rw [mapUserRange, mapUserPermissions, setUserPages, he.checkedPageRange, hr]
  dsimp only
  rw [he.holdsReadOnlyFile, Bool.not_false, Bool.true_and]
  split_ifs
  · rfl
  · rfl

theorem expose_agrees (h : a.Valid) (address length : ℕ) :
    (a.exposeToolScratch address length).1 = (a.exposeSeparately address length).1 ∧
      ∀ q, (a.exposeToolScratch address length).2.page q =
        (a.exposeSeparately address length).2.page q := by
  rcases hr : a.checkedPageRange address length with e | _ | ⟨first, last⟩
  · rw [exposeSeparately, reserveRegion, reserveRegionInner, exposeToolScratch, hr]
    exact ⟨rfl, fun _ => rfl⟩
  · rw [exposeSeparately, reserveRegion, reserveRegionInner, exposeToolScratch, hr]
    dsimp only
    rw [mapUserRange, mapUserPermissions, setUserPages, hr]
    exact ⟨rfl, fun _ => rfl⟩
  · rw [exposeSeparately_eq h hr, exposeToolScratch, hr]
    dsimp only
    split_ifs
    · exact ⟨rfl, fun q => (reserveScratch_dropped h q).symm⟩
    · refine ⟨rfl, fun q => ?_⟩
      have he : Evolves a (a.reserveScratch first last).2 := reserveScratch_evolves h
      rw [foldl_pageRange (fun _ => exposePage_local) (.refl h),
        foldl_pageRange (fun _ => setUserPage_local) he, reserveScratch_page h]
      split_ifs
      · rfl
      · rfl

/-! ## Hiding -/

/-- A page of a range that can be unmapped: the range has no page of a retained shared
    backing, and its pages are in the memory. -/
def Hides (a : Access) (address length q : ℕ) : Prop :=
  a.rangeContainsRetainedShared address length = false ∧
    ∃ first last, a.checkedPageRange address length = .ok (some (first, last)) ∧
      first ≤ q ∧ q ≤ last

theorem hide_agrees (h : a.Valid) (address length : ℕ) :
    (a.hideToolScratch address length).1 = (a.unmapUserRange address length).1 ∧
      ∀ q, (a.Hides address length q →
          (a.hideToolScratch address length).2.page q = (a.page q).hidden ∧
            (a.unmapUserRange address length).2.page q = (a.page q).unmapped) ∧
        (¬ a.Hides address length q →
          (a.hideToolScratch address length).2.page q = a.page q ∧
            (a.unmapUserRange address length).2.page q = a.page q) := by
  rw [hideToolScratch, unmapUserRange]
  split_ifs with hs
  · exact ⟨rfl, fun q => ⟨fun hq => absurd hs (by simp [hq.1]), fun _ => ⟨rfl, rfl⟩⟩⟩
  rcases hr : a.checkedPageRange address length with e | _ | ⟨first, last⟩
  · exact ⟨rfl, fun q => ⟨fun hq => by simp [Hides, hr] at hq, fun _ => ⟨rfl, rfl⟩⟩⟩
  · exact ⟨rfl, fun q => ⟨fun hq => by simp [Hides, hr] at hq, fun _ => ⟨rfl, rfl⟩⟩⟩
  · have hides (q : ℕ) : a.Hides address length q ↔ first ≤ q ∧ q ≤ last := by
      simp [Hides, hs, hr]
    refine ⟨rfl, fun q => ?_⟩
    rw [foldl_pageRange (fun _ => hidePage_local) (.refl h),
      foldl_pageRange (fun _ => unmapPage_local) (.refl h), hides]
    refine ⟨fun hq => ?_, fun hq => ?_⟩
    · rw [if_pos hq, if_pos hq]
      exact ⟨rfl, rfl⟩
    · rw [if_neg hq, if_neg hq]
      exact ⟨rfl, rfl⟩

end Access

/-! ## Along every run -/

/-- **The scratch cache is invisible, except in mapping incarnations.**  After every
    run of operations, on every memory: exposing has the result and the pages of
    reserving and mapping; hiding has the result of unmapping, and its pages in all
    but the incarnation, which it leaves, so that it is unmapping exactly when no page
    it hides has one. -/
theorem scratch_cache_invisible (w : World) (steps : List Step) (i address length : ℕ) :
    let a := (w.run steps).access i
    let expose := a.exposeToolScratch address length
    let hide := a.hideToolScratch address length
    let unmap := a.unmapUserRange address length
    (expose.1 = (a.exposeSeparately address length).1 ∧
      ∀ q, expose.2.page q = (a.exposeSeparately address length).2.page q) ∧
    hide.1 = unmap.1 ∧
    (∀ q, hide.2.page q = { unmap.2.page q with incarnation := (hide.2.page q).incarnation }) ∧
    ((∀ q, hide.2.page q = unmap.2.page q) ↔
      ∀ q, a.Hides address length q → (a.page q).incarnation = none) := by
  intro a expose hide unmap
  have ha : a.Valid := (w.run steps).valid i
  obtain ⟨hr, hp⟩ := Access.hide_agrees ha address length
  refine ⟨Access.expose_agrees ha address length, hr, fun q => ?_, fun he q hq => ?_,
    fun hn q => ?_⟩
  · by_cases hq : a.Hides address length q
    · obtain ⟨h1, h2⟩ := (hp q).1 hq
      rw [h1, h2]
      rfl
    · obtain ⟨h1, h2⟩ := (hp q).2 hq
      rw [h1, h2]
  · obtain ⟨h1, h2⟩ := (hp q).1 hq
    have hi := congrArg PageRecord.incarnation (he q)
    rw [h1, h2] at hi
    exact hi
  · by_cases hq : a.Hides address length q
    · obtain ⟨h1, h2⟩ := (hp q).1 hq
      rw [h1, h2, PageRecord.hidden, hn q hq]
      rfl
    · obtain ⟨h1, h2⟩ := (hp q).2 hq
      rw [h1, h2]

/-- A process that has mapped a page and grown the mapping by one. -/
def World.grown : World :=
  (World.new 0 8192).run [.on 0 (.map 0 4096 true true), .on 0 (.remap 0 4096 0 8192)]

/-- Hiding the grown page leaves its incarnation, unmapping it does not. -/
theorem hide_keeps_incarnation :
    let hide := (World.grown.access 0).hideToolScratch 4096 4096
    let unmap := (World.grown.access 0).unmapUserRange 4096 4096
    hide.1 = .ok () ∧ unmap.1 = .ok () ∧
      hide.2.page 1 = ⟨none, none, none, false, some 1⟩ ∧
      unmap.2.page 1 = ⟨none, none, none, false, none⟩ := by
  refine ⟨rfl, rfl, ?_, ?_⟩
  · decide +kernel
  · decide +kernel

end Reverie.Memory
