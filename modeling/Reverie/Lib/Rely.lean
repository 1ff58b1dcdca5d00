/-
  Rely and guarantee, over the programs of `Lib.Prog`.  Each thread promises how it changes the
  shared state, and asserts between its steps something that the others' promises cannot make
  false.  `Promise.run` is the rule for all schedules.
-/
import Reverie.Lib.Prog

/-- What holds throughout, and the changes that each thread makes. -/
structure Promise (σ ι : Type) where
  sound : σ → Prop
  change : ι → σ → σ → Prop
  refl : ∀ i s, change i s s

namespace Promise

variable {σ ι α β : Type} [DecidableEq ι] (P : Promise σ ι)

/-- An assertion of one thread, which the changes of the others keep. -/
structure Assertion where
  owner : ι
  holds : σ → Prop
  stable : ∀ j, j ≠ owner → ∀ {s s'}, P.sound s → P.change j s s' → holds s → holds s'

/-- The protocol of a promise. -/
def protocol : Protocol σ Unit P.Assertion ι where
  move s _ l s' _ l' := l'.owner = l.owner ∧
    (P.sound s → l.holds s → P.sound s' ∧ P.change l.owner s s' ∧ l'.holds s')
  inv s _ L := P.sound s ∧ ∀ i, (L i).owner = i ∧ (L i).holds s
  stay s _ l := ⟨rfl, fun hs hl => ⟨hs, P.refl _ s, hl⟩⟩
  keep := by
    rintro s _ L i s' _ l ⟨hs, hL⟩ ⟨howner, hmove⟩
    obtain ⟨hs', hchange, hl⟩ := hmove hs (hL i).2
    refine ⟨hs', fun j => ?_⟩
    by_cases hj : j = i
    · subst hj
      rw [Function.update_self]
      exact ⟨howner.trans (hL j).1, hl⟩
    · rw [Function.update_of_ne hj]
      obtain ⟨hown, hholds⟩ := hL j
      rw [(hL i).1] at hchange
      exact ⟨hown, (L j).stable i (by rw [hown]; exact Ne.symm hj) hs hchange hholds⟩

variable {P} {l : P.Assertion} {Q : α → P.Assertion → Prop}

/-- One action: from what holds, the thread keeps its promise and asserts `l'`. -/
theorem act {f : σ → β × σ} {next : β → Prog σ α} (h : ∀ s, P.sound s → l.holds s →
      P.sound (f s).2 ∧ P.change l.owner s (f s).2 ∧
        ∃ l' : P.Assertion, l'.owner = l.owner ∧ l'.holds (f s).2 ∧
          Follows P.protocol (next (f s).1) l' Q) :
    Follows P.protocol (Prog.act f >>= next) l Q := by
  rintro s _ L i ⟨hs, hL⟩ rfl
  obtain ⟨hs', hchange, l', howner, hl', hnext⟩ := h s hs (hL i).2
  exact ⟨(), l', ⟨howner, fun _ _ => ⟨hs', hchange, hl'⟩⟩, hnext⟩

theorem keep {f : σ → α × σ} (h : ∀ s, P.sound s → l.holds s →
      P.sound (f s).2 ∧ P.change l.owner s (f s).2 ∧ l.holds (f s).2) (hQ : ∀ a, Q a l) :
    Follows P.protocol (Prog.act f) l Q := by
  rintro s _ L i ⟨hs, hL⟩ rfl
  exact ⟨(), L i, ⟨rfl, fun hs hl => h s hs hl⟩, hQ _⟩

theorem run {p : Pool σ ι} (L : ι → P.Assertion) (howner : ∀ i, (L i).owner = i)
    (hs : P.sound p.state) (hL : ∀ i, (L i).holds p.state)
    (hf : ∀ i, Follows P.protocol (p.threads i) (L i) fun _ _ => True) (schedule : List ι) :
    P.sound (p.run schedule).state := by
  have hholds : P.protocol.Holds p := ⟨(), L, ⟨hs, fun i => ⟨howner i, hL i⟩⟩, hf⟩
  obtain ⟨_, _, hinv, -⟩ := Protocol.run hholds schedule
  exact hinv.1

end Promise
