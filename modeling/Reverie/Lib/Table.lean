/-
  Ordered tables: facts about the lookups of `Std.TreeMap` that a registry of
  tables needs, and the update of every listed entry at once.

  Every lemma reads a table through `m[k]?`, so that a proof about a table never
  looks at its tree.
-/
import Mathlib

namespace Table
open List Option

variable {κ ν : Type} [Ord κ]

/-- Change the values of all listed keys; `none` when a key is missing. -/
def updateAll (m : Std.TreeMap κ ν) (f : ν → ν) (keys : List κ) : Option (Std.TreeMap κ ν) :=
  keys.foldlM (fun m key => m[key]?.map fun v => m.insert key (f v)) m

variable {m : Std.TreeMap κ ν} {f : ν → ν} {k a : κ} {v : ν} {t : Std.TreeSet κ}

theorem updateAll_cons {key : κ} {keys : List κ} :
    updateAll m f (key :: keys) =
      m[key]?.bind fun v => updateAll (m.insert key (f v)) f keys := by
  simp only [updateAll, foldlM_cons]
  rcases m[key]? <;> rfl

/-- The values of a table, in the order of their keys. -/
def values (m : Std.TreeMap κ ν) : List ν := m.toList.map Prod.snd

variable [Std.TransOrd κ] [Std.LawfulEqOrd κ]

/-! ## Lookups -/

theorem getElem?_insert [DecidableEq κ] : (m.insert k v)[a]? = if k = a then some v else m[a]? := by
  rw [Std.TreeMap.getElem?_insert]
  simp only [Std.LawfulEqOrd.compare_eq_iff_eq]

theorem getElem?_erase [DecidableEq κ] : (m.erase k)[a]? = if k = a then none else m[a]? := by
  rw [Std.TreeMap.getElem?_erase]
  simp only [Std.LawfulEqOrd.compare_eq_iff_eq]

theorem getElem?_insertIfNew [DecidableEq κ] :
    (m.insertIfNew k v)[a]? = if k = a ∧ m[k]? = none then some v else m[a]? := by
  rw [Std.TreeMap.getElem?_insertIfNew]
  simp only [Std.LawfulEqOrd.compare_eq_iff_eq, Std.TreeMap.mem_iff_isSome_getElem?,
    Bool.not_eq_true, isSome_eq_false_iff, isNone_iff_eq_none]

theorem getElem?_filter {f : κ → ν → Bool} : (m.filter f)[k]? = m[k]?.filter (f k) := by
  rw [Std.TreeMap.getElem?_filter]
  simp only [Std.TreeMap.getKey_eq, pfilter_eq_filter]

theorem mem_values : v ∈ values m ↔ ∃ k : κ, m[k]? = some v := by
  rw [values, List.mem_map]
  constructor
  · rintro ⟨⟨k, v⟩, hm, rfl⟩
    exact ⟨k, Std.TreeMap.mem_toList_iff_getElem?_eq_some.1 hm⟩
  · rintro ⟨k, hk⟩
    exact ⟨(k, v), Std.TreeMap.mem_toList_iff_getElem?_eq_some.2 hk, rfl⟩

theorem nodup_toList : t.toList.Nodup := by
  refine (Std.TreeSet.distinct_toList (t := t)).imp fun h hab => h ?_
  rw [hab]
  exact Std.ReflCmp.compare_self

theorem mem_insert : a ∈ t.insert k ↔ k = a ∨ a ∈ t := by
  rw [Std.TreeSet.mem_insert, Std.LawfulEqOrd.compare_eq_iff_eq]

theorem mem_erase : a ∈ t.erase k ↔ k ≠ a ∧ a ∈ t := by
  rw [Std.TreeSet.mem_erase, Ne, Std.LawfulEqOrd.compare_eq_iff_eq]

/-! ## Updating listed entries -/

theorem updateAll_isSome [DecidableEq κ] :
    ∀ {keys : List κ} {m : Std.TreeMap κ ν}, (∀ k ∈ keys, m[k]?.isSome) →
      (updateAll m f keys).isSome
  | [], _, _ => rfl
  | key :: keys, m, h => by
    obtain ⟨v, hv⟩ := isSome_iff_exists.1 (h key mem_cons_self)
    rw [updateAll_cons, hv]
    refine updateAll_isSome fun k hk => ?_
    rw [getElem?_insert]
    split_ifs
    · rfl
    · exact h k (mem_cons_of_mem _ hk)

theorem isSome_of_updateAll [DecidableEq κ] :
    ∀ {keys : List κ} {m m' : Std.TreeMap κ ν}, updateAll m f keys = some m' →
      ∀ k ∈ keys, m[k]?.isSome
  | key :: keys, m, m', h, k, hk => by
    rw [updateAll_cons] at h
    rcases hv : m[key]? with _ | v <;> rw [hv] at h
    · cases h
    · rcases mem_cons.1 hk with rfl | hk
      · rw [hv]
        rfl
      · have := isSome_of_updateAll h k hk
        rw [getElem?_insert] at this
        split_ifs at this with hkk
        · rw [← hkk, hv]
          rfl
        · exact this

theorem getElem?_updateAll [DecidableEq κ] :
    ∀ {keys : List κ} {m m' : Std.TreeMap κ ν}, keys.Nodup → updateAll m f keys = some m' →
      ∀ k, m'[k]? = if k ∈ keys then m[k]?.map f else m[k]?
  | [], m, m', _, h, k => by cases h; simp
  | key :: keys, m, m', hn, h, k => by
    rw [updateAll_cons] at h
    rcases hv : m[key]? with _ | v <;> rw [hv] at h
    · cases h
    · rw [getElem?_updateAll (nodup_cons.1 hn).2 h k, getElem?_insert]
      by_cases hk : key = k
      · subst hk
        simp [(nodup_cons.1 hn).1, hv]
      · simp [hk, Ne.symm hk]

end Table
