/-
  The pages that the write-back compares, in ascending order (`mem_comparedPages`).  Every
  byte that is not zero lies in a data extent (`dataExtents_covers`), so a page that is not
  a candidate holds zeros in every memory that is compared (`byteAt_eq_zero`).
-/
import Reverie.Vfork.Runs

namespace Reverie.Vfork

open Memory List Intervals

/-! ## Extents -/

section
variable {file : BaseFile} {limit cursor : ℕ}

theorem dataExtents_covers {extents : List (ℕ × ℕ)}
    (h : dataExtents file limit cursor = some extents) {offset : ℕ} (hle : cursor ≤ offset)
    (hlt : offset < limit) (hbyte : file.byte offset ≠ 0) : Intervals.Mem offset extents := by
  fun_induction dataExtents file limit cursor generalizing extents with
  | case1 cursor hcursor hdata => exact absurd (file.seekData_enxio hdata offset hle) hbyte
  | case2 => cases h
  | case3 cursor hcursor data hdata hlimit =>
    exact absurd ((file.seekData_ok hdata).2 offset hle (by omega)) hbyte
  | case4 => cases h
  | case5 => cases h
  | case6 cursor hcursor data hdata hlimit hole hhole hlt' ih =>
    obtain ⟨rest, hrest, rfl⟩ := Option.map_eq_some_iff.1 h
    rw [Intervals.mem_cons]
    rcases Nat.lt_or_ge offset data with hbefore | hafter
    · exact absurd ((file.seekData_ok hdata).2 offset hle hbefore) hbyte
    · rcases Nat.lt_or_ge offset (min hole limit) with hin | hout
      · exact .inl ⟨hafter, hin⟩
      · exact .inr (ih hrest hout)
  | case7 cursor hcursor => omega

theorem dataExtents_bounds {extents : List (ℕ × ℕ)}
    (h : dataExtents file limit cursor = some extents) :
    ∀ r ∈ extents, cursor ≤ r.1 ∧ r.2 ≤ limit := by
  fun_induction dataExtents file limit cursor generalizing extents with
  | case1 | case3 | case7 =>
    cases h
    simp
  | case2 | case4 | case5 => cases h
  | case6 cursor hcursor data hdata hlimit hole hhole hlt ih =>
    obtain ⟨rest, hrest, rfl⟩ := Option.map_eq_some_iff.1 h
    have hle := (file.seekData_ok hdata).1
    intro r hr
    rcases mem_cons.1 hr with rfl | hr
    · exact ⟨hle, Nat.min_le_right _ _⟩
    · have := ih hrest r hr
      omega

end

/-! ## Ranges of pages -/

section
variable {m : Image} {first last a : ℕ}

theorem div_lt_divCeil {x : ℕ} (h : a < x) : a / pageSize < divCeil x pageSize := by
  simp only [divCeil, pageSize]
  omega

theorem le_divCeil_mul (x : ℕ) : x ≤ divCeil x pageSize * pageSize := by
  simp only [divCeil, pageSize]
  omega

theorem divCeil_le {x : ℕ} (h : x ≤ last * pageSize) : divCeil x pageSize ≤ last := by
  simp only [divCeil, pageSize] at h ⊢
  omega

/-- A byte of the base backing that is not zero is on a candidate page. -/
theorem baseDataPages_covers (hbase : m.guestBase ≤ first * pageSize)
    (ha : InPages first last a) (hbyte : m.base.byte (a - m.guestBase + m.slice.offset) ≠ 0) :
    Intervals.Mem (a / pageSize) (m.baseDataPages first last) := by
  obtain ⟨hle, hlt⟩ := inPages_iff.1 ha
  rw [Image.baseDataPages]
  rcases hd : dataExtents m.base (m.toOffset last) (m.toOffset first) with - | extents
  · exact ⟨(first, last), mem_singleton_self _, ha⟩
  · obtain ⟨r, hr, hr1, hr2⟩ := dataExtents_covers hd
      (show m.toOffset first ≤ _ by rw [Image.toOffset]; omega)
      (show _ < m.toOffset last by rw [Image.toOffset]; omega) hbyte
    refine ⟨_, mem_map_of_mem hr, Nat.div_le_div_right ?_, div_lt_divCeil ?_⟩
    · rw [Image.toAddress]
      omega
    · rw [Image.toAddress]
      omega

theorem baseDataPages_bounds (hbase : m.guestBase ≤ first * pageSize) (hle : first ≤ last)
    {page : ℕ} (h : Intervals.Mem page (m.baseDataPages first last)) :
    first ≤ page ∧ page < last := by
  have hend : first * pageSize ≤ last * pageSize := Nat.mul_le_mul_right _ hle
  rw [Image.baseDataPages] at h
  rcases hd : dataExtents m.base (m.toOffset last) (m.toOffset first) with - | extents
  · rw [hd] at h
    obtain ⟨r, hr, hpage⟩ := h
    rw [mem_singleton.1 hr] at hpage
    exact hpage
  · rw [hd] at h
    obtain ⟨r, hr, hpage⟩ := h
    obtain ⟨extent, hextent, rfl⟩ := mem_map.1 hr
    obtain ⟨h1, h2⟩ := dataExtents_bounds hd extent hextent
    rw [Image.toOffset] at h1 h2
    have hfirst : first ≤ m.toAddress extent.1 / pageSize := by
      rw [Nat.le_div_iff_mul_le pageSize_pos, Image.toAddress]
      omega
    have hlast : divCeil (m.toAddress extent.2) pageSize ≤ last := by
      refine divCeil_le ?_
      rw [Image.toAddress]
      omega
    exact ⟨hfirst.trans hpage.1, hpage.2.trans_le hlast⟩

theorem mem_privateBackingPages {page : ℕ} :
    Intervals.Mem page (m.privateBackingPages first last) ↔
      first ≤ page ∧ page < last ∧ m.privateBacking page = true := by
  constructor
  · rintro ⟨r, hr, hpage⟩
    obtain ⟨q, hq, rfl⟩ := mem_map.1 hr
    obtain ⟨hq, hp⟩ := mem_filter.1 hq
    have hq := mem_range'_1.1 hq
    obtain rfl : page = q := by
      omega
    exact ⟨by omega, by omega, hp⟩
  · rintro ⟨hle, hlt, hp⟩
    refine ⟨(page, page + 1), mem_map_of_mem (mem_filter.2 ⟨?_, hp⟩), le_rfl,
      Nat.lt_succ_self _⟩
    rw [mem_range'_1]
    omega

/-- A byte that is not zero is on a candidate page, or the page is retained and shared. -/
theorem byteAt_eq_zero (hbase : m.guestBase ≤ first * pageSize) (ha : InPages first last a)
    (hshared : m.retainedShared (a / pageSize) = false)
    (hprivate : ¬ Intervals.Mem (a / pageSize) (m.privateBackingPages first last))
    (hdata : ¬ Intervals.Mem (a / pageSize) (m.baseDataPages first last)) : m.byteAt a = 0 := by
  rw [Image.byteAt]
  rcases hb : m.backingPages (a / pageSize) with - | installed
  · by_contra hbyte
    exact hdata (baseDataPages_covers hbase ha hbyte)
  · refine absurd (mem_privateBackingPages.2 ⟨ha.1, ha.2, ?_⟩) hprivate
    simp only [Image.retainedShared, hb] at hshared
    simp only [Image.privateBacking, hb, hshared, Bool.not_false]

end

/-! ## Merging ranges -/

theorem mergeSort_sorted (ranges : List (ℕ × ℕ)) :
    (ranges.mergeSort fun r s => r.1 < s.1 || (r.1 == s.1 && r.2 ≤ s.2)).Pairwise
      fun r s => r.1 ≤ s.1 := by
  refine (pairwise_mergeSort ?_ ?_ ranges).imp ?_
  · simp only [Bool.or_eq_true, Bool.and_eq_true, decide_eq_true_eq, beq_iff_eq]
    omega
  · simp only [Bool.or_eq_true, Bool.and_eq_true, decide_eq_true_eq, beq_iff_eq]
    omega
  · simp only [Bool.or_eq_true, Bool.and_eq_true, decide_eq_true_eq, beq_iff_eq]
    omega

theorem mem_mergePageRanges {page : ℕ} {ranges : List (ℕ × ℕ)} :
    Intervals.Mem page (mergePageRanges ranges) ↔ Intervals.Mem page ranges := by
  rw [mergePageRanges, mem_join (mergeSort_sorted ranges),
    mem_of_perm (mergeSort_perm ranges _)]

theorem mergePageRanges_apart (ranges : List (ℕ × ℕ)) :
    (mergePageRanges ranges).Pairwise fun r s => r.2 < s.1 :=
  join_apart (mergeSort_sorted ranges)

/-! ## Compared pages -/

section
variable {child : Image} {link : VforkParent} {first last : ℕ}

/-- Whether a memory maps a page, as far as it records that. -/
def Image.Maps (m : Image) (page : ℕ) : Prop := m.enabled = true → (m.pages.get page).isSome

theorem mem_mappedPagesAmong {m : Image} {ranges : List (ℕ × ℕ)} {page : ℕ} :
    page ∈ m.mappedPagesAmong ranges ↔ Intervals.Mem page ranges ∧ m.Maps page := by
  rw [Image.mappedPagesAmong, Image.Maps]
  split_ifs with he
  · simp only [mem_elements, he, Bool.false_eq_true, false_imp_iff]
  · simp only [mem_elements, he, true_imp_iff]

theorem mem_comparedPages {page : ℕ} :
    page ∈ comparedPages child link first last ↔
      Intervals.Mem page (candidates child link first last) ∧ child.Maps page ∧
        child.retainedShared page = false ∧ link.memory.retainedShared page = false := by
  rw [comparedPages, mem_filter, mem_mappedPagesAmong, mem_mergePageRanges]
  simp only [Bool.not_eq_true', Bool.or_eq_false_iff, and_assoc]

theorem comparedPages_ascend : (comparedPages child link first last).Pairwise (· < ·) := by
  rw [comparedPages, Image.mappedPagesAmong]
  split_ifs
  · exact (elements_ascend (mergePageRanges_apart _)).filter _
  · exact (elements_ascend (mergePageRanges_apart _)).filter _

end

/-! ## The same mappings -/

/-- Two memories map every page from `first` on in the same way. -/
def Image.SameMappings (m reference : Image) (first : ℕ) : Prop :=
  ∀ page, first ≤ page →
    m.pages.get page = reference.pages.get page ∧
    m.mappingIncarnations page = reference.mappingIncarnations page ∧
    m.filePages.inner page = reference.filePages.inner page ∧
    m.sharedAnonymousPages.inner page = reference.sharedAnonymousPages.inner page

theorem mapsUserPagesAs_iff {m reference : Image} {first : ℕ} :
    m.mapsUserPagesAs reference first = true ↔ m.SameMappings reference first := by
  simp only [Image.mapsUserPagesAs, Bool.and_eq_true, all_eq_true, mem_range'_1,
    decide_eq_true_eq]
  constructor
  · rintro ⟨⟨⟨hpages, hinc⟩, hfile⟩, hshared⟩ page hpage
    rcases Nat.lt_or_ge page (max m.bound reference.bound) with hlt | hge
    · have hin : first ≤ page ∧ page < first + (max m.bound reference.bound - first) := by omega
      exact ⟨hpages page hin, hinc page hin, hfile page hin, hshared page hin⟩
    · obtain ⟨h1, h2, h3, h4⟩ := m.finite page (by omega)
      obtain ⟨k1, k2, k3, k4⟩ := reference.finite page (by omega)
      exact ⟨h1.trans k1.symm, h2.trans k2.symm, h3.trans k3.symm, h4.trans k4.symm⟩
  · intro h
    exact ⟨⟨⟨fun p hp => (h p hp.1).1, fun p hp => (h p hp.1).2.1⟩,
      fun p hp => (h p hp.1).2.2.1⟩, fun p hp => (h p hp.1).2.2.2⟩

end Reverie.Vfork
