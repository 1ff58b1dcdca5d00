/-
  The sites of a census and their limits: an entry lowers the limit of every site that has it
  in its window (`recordEntry_eq`), and there is one site for an address
  (`collectSites_ascend`, `mem_collectSites`).
-/
import Reverie.LiteInst.Build

namespace Reverie.LiteInst
open List

/-! ## Entries -/

def Site.lower (entry : ℕ) (site : Site) : Site :=
  if site.address < entry ∧ entry - site.address ≤ windowLookahead then
    { site with limit := min site.limit entry }
  else site

theorem Site.lower_address (entry : ℕ) (site : Site) : (site.lower entry).address = site.address := by
  rw [Site.lower]
  split_ifs <;> rfl

theorem lowerLimits_eq (entry : ℕ) (before : List Site) : ∀ after : List Site,
    (before.Pairwise fun s t => s.address < t.address) → (∀ s ∈ before, s.address < entry) →
      lowerLimits entry before.length (before ++ after) = before.map (Site.lower entry) ++ after := by
  induction before using List.reverseRecOn with
  | nil => exact fun _ _ _ => rfl
  | append_singleton init last ih =>
    intro after hasc hbefore
    obtain ⟨hinit, -, hlast⟩ := pairwise_append.1 hasc
    have hlt := hbefore last (by simp)
    have hget : (init ++ [last] ++ after)[init.length]? = some last := by simp
    rw [length_append, length_singleton, lowerLimits, hget]
    dsimp only
    split_ifs with hfar
    · -- every earlier site is farther from the entry
      have hsame : ∀ s ∈ init ++ [last], s.lower entry = s := by
        intro s hs
        rw [Site.lower, if_neg]
        rcases mem_append.1 hs with hs | hs
        · have := hlast s hs last (mem_singleton_self _)
          omega
        · obtain rfl := mem_singleton.1 hs
          omega
      rw [map_congr_left hsame, map_id']
    · have hset : (init ++ [last] ++ after).set init.length
          { last with limit := min last.limit entry } = init ++ (last.lower entry :: after) := by
        rw [Site.lower, if_pos ⟨hlt, Nat.not_lt.1 hfar⟩, append_assoc, set_append_right _ _ le_rfl,
          Nat.sub_self]
        rfl
      rw [hset, ih _ hinit fun s hs => hbefore s (mem_append_left _ hs), map_append,
        append_assoc]
      rfl

theorem not_lt_of_mem_dropWhile {entry : ℕ} {sites : List Site}
    (hasc : sites.Pairwise fun s t => s.address < t.address) {s : Site}
    (hs : s ∈ sites.dropWhile fun s => decide (s.address < entry)) : ¬ s.address < entry := by
  induction sites with
  | nil => exact absurd hs not_mem_nil
  | cons t rest ih =>
    obtain ⟨ht, hrest⟩ := pairwise_cons.1 hasc
    rw [dropWhile_cons] at hs
    split_ifs at hs with hlt
    · exact ih hrest hs
    · rw [decide_eq_true_eq] at hlt
      rcases mem_cons.1 hs with rfl | hs
      · exact hlt
      · have := ht s hs
        omega

theorem recordEntry_eq {sites : List Site} (entry : ℕ)
    (hasc : sites.Pairwise fun s t => s.address < t.address) :
    recordEntry sites entry = sites.map (Site.lower entry) := by
  have hbefore : ∀ s ∈ sites.takeWhile (fun s => decide (s.address < entry)),
      s.address < entry := by
    intro s hs
    have := mem_takeWhile_imp hs
    exact of_decide_eq_true this
  have hafter : (sites.dropWhile fun s => decide (s.address < entry)).map (Site.lower entry) =
      sites.dropWhile fun s => decide (s.address < entry) := by
    refine (map_congr_left fun s hs => ?_).trans (map_id' _)
    rw [Site.lower, if_neg fun h => not_lt_of_mem_dropWhile hasc hs h.1]
  have hlower := lowerLimits_eq entry _ (sites.dropWhile fun s => decide (s.address < entry))
    (hasc.sublist (takeWhile_sublist _)) hbefore
  rw [← hafter, ← map_append, hafter, takeWhile_append_dropWhile] at hlower
  exact hlower

/-- A site with the limit that entries leave it. -/
structure Site.Lowered (entries : List ℕ) (site lowered : Site) : Prop where
  address : lowered.address = site.address
  len : lowered.len = site.len
  opaqueCode : lowered.opaqueCode = site.opaqueCode
  limit : ∀ entry ∈ entries, site.address < entry → entry ≤ site.address + windowLookahead →
    lowered.limit ≤ entry

theorem Site.lower_lowered (entry : ℕ) (site : Site) :
    site.Lowered [entry] (site.lower entry) ∧ (site.lower entry).limit ≤ site.limit := by
  rw [Site.lower]
  split_ifs with h
  · refine ⟨⟨rfl, rfl, rfl, fun e he _ _ => ?_⟩, min_le_left _ _⟩
    obtain rfl := mem_singleton.1 he
    exact min_le_right _ _
  · refine ⟨⟨rfl, rfl, rfl, fun e he hlt hle => ?_⟩, le_rfl⟩
    obtain rfl := mem_singleton.1 he
    exact absurd ⟨hlt, Nat.sub_le_iff_le_add'.2 hle⟩ h

/-- Every site after the entries was one before them, with its limit lowered. -/
theorem foldl_recordEntry (entries : List ℕ) : ∀ {sites : List Site},
    (sites.Pairwise fun s t => s.address < t.address) →
      ∀ t ∈ entries.foldl recordEntry sites, ∃ s ∈ sites, s.Lowered entries t ∧ t.limit ≤ s.limit := by
  induction entries with
  | nil =>
    intro sites _ t ht
    exact ⟨t, ht, ⟨rfl, rfl, rfl, fun e he => absurd he not_mem_nil⟩, le_rfl⟩
  | cons entry rest ih =>
    intro sites hasc t ht
    rw [foldl_cons, recordEntry_eq entry hasc] at ht
    have hasc' : (sites.map (Site.lower entry)).Pairwise fun s t => s.address < t.address := by
      rw [pairwise_map]
      exact hasc.imp fun h => by rwa [Site.lower_address, Site.lower_address]
    obtain ⟨s', hs', hlow, hlim⟩ := ih hasc' t ht
    obtain ⟨s, hs, rfl⟩ := mem_map.1 hs'
    obtain ⟨hone, hle⟩ := s.lower_lowered entry
    refine ⟨s, hs, ⟨hlow.address.trans hone.address, hlow.len.trans hone.len,
      hlow.opaqueCode.trans hone.opaqueCode, fun e he hlt hwin => ?_⟩, hlim.trans hle⟩
    rcases mem_cons.1 he with rfl | he
    · exact hlim.trans (hone.limit e (mem_singleton_self _) hlt hwin)
    · rw [← hone.address] at hlt hwin
      exact hlow.limit e he hlt hwin

/-! ## One site for an address -/

theorem dedupFrom_ascend {rest : List Site} : ∀ {earlier : Site},
    ((earlier :: rest).Pairwise fun s t => s.address ≤ t.address) →
      ((dedupFrom earlier rest).Pairwise fun s t => s.address < t.address) ∧
        ∀ t ∈ dedupFrom earlier rest, earlier.address ≤ t.address ∧
          (t.opaqueCode = false → t ∈ earlier :: rest) := by
  induction rest with
  | nil =>
    intro earlier _
    refine ⟨pairwise_singleton _ _, fun t ht => ?_⟩
    obtain rfl := mem_singleton.1 ht
    exact ⟨le_rfl, fun _ => mem_singleton_self _⟩
  | cons later rest ih =>
    intro earlier hasc
    obtain ⟨hearlier, hlater⟩ := pairwise_cons.1 hasc
    rw [dedupFrom]
    split_ifs with heq
    · have hmark : ({ earlier with opaqueCode := true } :: rest).Pairwise
          fun s t => s.address ≤ t.address :=
        pairwise_cons.2 ⟨fun s hs => hearlier s (mem_cons_of_mem _ hs),
          (pairwise_cons.1 hlater).2⟩
      obtain ⟨hpairs, hmem⟩ := ih hmark
      refine ⟨hpairs, fun t ht => ⟨(hmem t ht).1, fun ho => ?_⟩⟩
      rcases mem_cons.1 ((hmem t ht).2 ho) with rfl | hrest
      · exact absurd ho (by simp)
      · exact mem_cons_of_mem _ (mem_cons_of_mem _ hrest)
    · obtain ⟨hpairs, hmem⟩ := ih hlater
      have hlt : earlier.address < later.address :=
        lt_of_le_of_ne (hearlier later mem_cons_self) (Ne.symm heq)
      refine ⟨pairwise_cons.2 ⟨fun t ht => hlt.trans_le (hmem t ht).1, hpairs⟩,
        fun t ht => ?_⟩
      rcases mem_cons.1 ht with rfl | ht
      · exact ⟨le_rfl, fun _ => mem_cons_self⟩
      · exact ⟨hlt.le.trans (hmem t ht).1, fun ho => mem_cons_of_mem _ ((hmem t ht).2 ho)⟩

section
variable (dec : Decoder) (text : Text) (fs : List Function)

theorem sites_sorted (sites : List Site) :
    (sites.insertionSort fun s t => s.address ≤ t.address).Pairwise
      fun s t => s.address ≤ t.address := by
  exact pairwise_insertionSort _ sites

theorem dedup_ascend {sites : List Site} (h : sites.Pairwise fun s t => s.address ≤ t.address) :
    ((dedup sites).Pairwise fun s t => s.address < t.address) ∧
      ∀ t ∈ dedup sites, t.opaqueCode = false → t ∈ sites := by
  cases sites with
  | nil => exact ⟨List.Pairwise.nil, fun t ht => absurd ht not_mem_nil⟩
  | cons site rest => exact ⟨(dedupFrom_ascend h).1, fun t ht => ((dedupFrom_ascend h).2 t ht).2⟩

theorem collectSites_ascend :
    (collectSites dec text fs).Pairwise fun s t => s.address < t.address :=
  (dedup_ascend (sites_sorted _)).1

theorem mem_collectSites {site : Site} (h : site ∈ collectSites dec text fs)
    (ho : site.opaqueCode = false) :
    ∃ f ∈ fs, f.inText text = true ∧ site ∈ functionSites dec text f := by
  have hmem := (dedup_ascend (sites_sorted _)).2 site h ho
  rw [mem_insertionSort, mem_flatMap] at hmem
  obtain ⟨f, hf, hsite⟩ := hmem
  obtain ⟨hf, hin⟩ := mem_filter.1 hf
  exact ⟨f, hf, hin, hsite⟩

end

end Reverie.LiteInst
