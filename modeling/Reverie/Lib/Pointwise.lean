/-
  Loops whose steps each change one entry (`Local`).  Over items with different keys, such a
  loop changes each entry once, by a function of what the entry was before the loop.
-/
import Mathlib

namespace Pointwise
open List Function

variable {ι κ σ ρ : Type} [DecidableEq κ]

/-- Each step keeps the invariant and changes only the entry of its key. -/
structure Local (I : σ → Prop) (view : σ → κ → ρ) (key : ι → κ) (f : ι → ρ → ρ)
    (step : σ → ι → σ) (xs : List ι) : Prop where
  keeps : ∀ s, ∀ x ∈ xs, I s → I (step s x)
  changes : ∀ s, ∀ x ∈ xs, I s →
    view (step s x) = update (view s) (key x) (f x (view s (key x)))

namespace Local

variable {I : σ → Prop} {view : σ → κ → ρ} {key : ι → κ} {f : ι → ρ → ρ} {step : σ → ι → σ}
  {x : ι} {xs : List ι} {s : σ}

theorem tail (h : Local I view key f step (x :: xs)) : Local I view key f step xs :=
  ⟨fun s y hy => h.keeps s y (mem_cons_of_mem x hy),
    fun s y hy => h.changes s y (mem_cons_of_mem x hy)⟩

variable (h : Local I view key f step xs)
include h

theorem run (hs : I s) : I (xs.foldl step s) := by
  induction xs generalizing s with
  | nil => exact hs
  | cons x xs ih => exact ih h.tail (h.keeps s x mem_cons_self hs)

theorem other {q : κ} (hs : I s) (hq : q ∉ xs.map key) : view (xs.foldl step s) q = view s q := by
  induction xs generalizing s with
  | nil => rfl
  | cons x xs ih =>
    rw [map_cons, mem_cons, not_or] at hq
    rw [foldl_cons, ih h.tail (h.keeps s x mem_cons_self hs) hq.2,
      h.changes s x mem_cons_self hs, update_of_ne hq.1]

theorem entry (hs : I s) (hn : (xs.map key).Nodup)
    (hx : x ∈ xs) : view (xs.foldl step s) (key x) = f x (view s (key x)) := by
  induction xs generalizing s with
  | nil => exact absurd hx not_mem_nil
  | cons y xs ih =>
    rw [map_cons, nodup_cons] at hn
    have hy := h.keeps s y mem_cons_self hs
    rw [foldl_cons]
    rcases mem_cons.1 hx with rfl | hx
    · rw [h.tail.other hy hn.1, h.changes s x mem_cons_self hs, update_self]
    · have hxy : key x ≠ key y := fun e => hn.1 (e ▸ mem_map_of_mem hx)
      rw [ih h.tail hy hn.2 hx, h.changes s y mem_cons_self hs, update_of_ne hxy]

end Local

end Pointwise
