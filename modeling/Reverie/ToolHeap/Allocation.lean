/-
  What `allocate` does to the blocks (`allocate_holds`): a free block that fits becomes a used
  one, with its remainder if that is long enough, or a used block is added behind the others.
-/
import Reverie.ToolHeap.Blocks

namespace Reverie.ToolHeap
open List Option Heap Words

/-! ## New blocks in the place of an old one -/

section
variable {a : Arena} {h : Heap} {bs pre post : List Block} {b : Block} {layout : Layout}

variable {ys : List ℕ} {current pointer blockEnd w : ℕ}

theorem split_freeStarts {xs : List ℕ} {x : ℕ} (hf : freeStarts bs = xs ++ x :: ys) :
    ∃ pre b post, bs = pre ++ b :: post ∧ b.used = none ∧ b.start = x ∧ freeStarts pre = xs ∧
      freeStarts post = ys := by
  obtain ⟨l₁, l₂, hl, rfl, hl₂⟩ := map_eq_append_iff.1 hf
  obtain ⟨b, l₃, rfl, rfl, rfl⟩ := map_eq_cons_iff.1 hl₂
  obtain ⟨pre₁, rest, rfl, rfl, hrest⟩ := filter_eq_append_iff.1 hl
  obtain ⟨pre₂, post, rfl, hused, hb, rfl⟩ := filter_eq_cons_iff.1 hrest
  have hpre₂ : freeStarts pre₂ = [] := by
    unfold freeStarts freeBlocks
    rw [filter_eq_nil_iff.2 hused]
    rfl
  refine ⟨pre₁ ++ pre₂, b, post, by simp, by simpa using hb, rfl, ?_, rfl⟩
  rw [freeStarts_append, hpre₂, append_nil]
  rfl

/-- The loop finds a block of the free list that fits, or there is none. -/
theorem allocateFree_eq (a : Arena) (layout : Layout) (xs : List ℕ) {fuel : ℕ}
    (hc : Linked h.link current ys)
    (hfuel : ys.length < fuel) :
    allocateFree a layout h fuel (Linked.last xs) current = some none ∨
    ∃ zs x us pointer stop blockEnd, xs ++ ys = zs ++ x :: us ∧
      fits a h x layout = some (pointer, stop, blockEnd) ∧
      allocateFree a layout h fuel (Linked.last xs) current =
        some (some (pointer, take a h (Linked.last zs) x pointer stop blockEnd)) := by
  induction ys generalizing xs current fuel with
  | nil =>
    obtain ⟨fuel, rfl⟩ := Nat.exists_eq_succ_of_ne_zero (Nat.ne_of_gt hfuel)
    left
    rw [allocateFree, if_pos (show current = FREE_LIST_END from hc)]
  | cons y ys ih =>
    obtain ⟨fuel, rfl⟩ := Nat.exists_eq_succ_of_ne_zero (Nat.ne_zero_of_lt hfuel)
    obtain ⟨rfl, hy, hl⟩ := hc
    rw [allocateFree, if_neg (show ¬ current = FREE_LIST_END from hy)]
    rcases hfits : fits a h current layout with _ | ⟨pointer, stop, blockEnd⟩
    · have hih := ih (xs ++ [current]) hl (by simpa using hfuel)
      rw [Linked.last_append_singleton, append_assoc] at hih
      exact hih
    · exact .inr ⟨xs, current, ys, pointer, stop, blockEnd, rfl, hfits, rfl⟩

theorem fits_eq {x stop : ℕ} (hf : fits a h x layout = some (pointer, stop, blockEnd)) :
    blockEnd = x + h.span x ∧ layoutEnd a x layout = some (pointer, stop) ∧ stop ≤ blockEnd := by
  unfold fits checkedAdd at hf
  simp only [bind_eq_some_iff, ite_none_right_eq_some, Option.some.injEq,
    map_eq_some_iff, filter_eq_some_iff, Prod.exists,
    decide_eq_true_eq] at hf
  obtain ⟨_, ⟨-, rfl⟩, p, s, ⟨hl, hle⟩, rfl, rfl, rfl⟩ := hf
  exact ⟨rfl, hl, hle⟩

/-- The blocks that come from a free block when a layout is placed in it. -/
def Block.place (b : Block) (x : Allocation) (stop : ℕ) : List Block :=
  if b.stop - stop ≥ MIN_FREE_SPAN
  then [⟨b.start, stop - b.start, some x⟩, ⟨stop, b.stop - stop, none⟩]
  else [⟨b.start, b.span, some x⟩]

theorem apart_cons_used {x : Allocation} (hb : b.used = some x) : Apart (b :: bs) ↔ Apart bs := by
  unfold Apart
  cases bs with
  | nil => simp
  | cons c bs => simp [hb]

theorem apart_append_cons_free (hb : b.used = none) : Apart (pre ++ b :: post) ↔
    Apart pre ∧ Apart post ∧ (∀ c ∈ pre.getLast?, c.used ≠ none) ∧ ∀ c ∈ post.head?, c.used ≠ none := by
  unfold Apart
  rw [isChain_append, isChain_cons]
  simp only [head?_cons, mem_def, Option.some.injEq]
  simp only [isNone_iff_eq_none, forall_eq']
  tauto

theorem Apart.place {x : Allocation} {stop : ℕ} (h : Apart (pre ++ b :: post)) (hb : b.used = none) :
    Apart (pre ++ b.place x stop ++ post) := by
  obtain ⟨hpre, hpost, -, hnext⟩ := (apart_append_cons_free hb).1 h
  have hused : ∀ {span : ℕ} {bs : List Block}, Apart bs →
      Apart (pre ++ ⟨b.start, span, some x⟩ :: bs) := by
    intro span bs hbs
    refine isChain_append.2 ⟨hpre, (apart_cons_used rfl).2 hbs, fun c _ d hd => ?_⟩
    simp only [head?_cons, mem_def, Option.some.injEq] at hd
    subst hd
    simp
  unfold Block.place
  split_ifs
  · rw [append_assoc]
    refine hused (isChain_cons.2 ⟨fun c hc => ?_, hpost⟩)
    simpa using hnext c hc
  · rw [append_assoc]
    exact hused hpost

theorem mem_freeStarts_bounds (r : Rep a h bs) {y : ℕ} (hy : y ∈ freeStarts bs) :
    ∃ c ∈ bs, c.used = none ∧ c.start = y ∧ y + WORD < c.stop := by
  obtain ⟨c, hc, hfree, rfl⟩ := mem_freeStarts.1 hy
  have hlarge := r.large hc
  refine ⟨c, hc, hfree, rfl, ?_⟩
  unfold MIN_FREE_SPAN at hlarge
  unfold WORD
  rw [Block.stop]
  omega

theorem relink_frame {h₁ : Heap} {value lo hi : ℕ}
    (frame : ∀ w, w < lo ∨ hi ≤ w → h₁.mem w = h.mem w) :
    Frame (pre ++ post) lo hi h.mem (h₁.relink (Linked.last (freeStarts pre)) value).mem := by
  intro w hw hfree
  rw [relink_mem_last fun y hy => ?_, frame w hw]
  obtain ⟨c, hc, hused, rfl⟩ := mem_freeStarts.1 hy
  exact hfree c (mem_append_left _ hc) hused

variable {ms : List Block} {h₁ : Heap} {value : ℕ}

/-- New blocks in the place of an old one: the memory in it is written, then the
    link to them. -/
theorem Rep.place (r : Rep a h (pre ++ b :: post))
    (frame : ∀ w, w < b.start ∨ b.stop ≤ w → h₁.mem w = h.mem w) (next : h₁.next = h.next)
    (head : h₁.freeHead = h.freeHead) (link : b.used = none → h₁.link b.start = h.link b.start)
    (tiles : Tiles Block.start Block.span b.start ms b.stop) (ok : ∀ m ∈ ms, m.Ok a h₁.mem)
    (links : Linked h₁.link value (freeStarts ms ++ freeStarts post)) :
    Rep a (h₁.relink (Linked.last (freeStarts pre)) value) (pre ++ ms ++ post) := by
  obtain ⟨hbefore, hafter⟩ := r.around
  obtain ⟨tpre, tpost⟩ := Tiles.append_cons.1 r.tiles
  have hpre : ∀ y ∈ freeStarts pre, y + WORD < b.start := by
    intro y hy
    obtain ⟨c, hc, hfree, rfl⟩ := mem_freeStarts.1 hy
    have hlarge := r.large (mem_append_left _ hc)
    have hle := hbefore c hc
    unfold MIN_FREE_SPAN at hlarge
    unfold WORD
    rw [Block.stop] at hle
    omega
  have hpost : ∀ y ∈ freeStarts post, b.stop ≤ y := by
    intro y hy
    obtain ⟨c, hc, -, rfl⟩ := mem_freeStarts.1 hy
    exact hafter c hc
  have hms : ∀ y ∈ freeStarts ms, b.start ≤ y := by
    intro y hy
    obtain ⟨c, hc, -, rfl⟩ := mem_freeStarts.1 hy
    exact (tiles.bounds hc).1
  have hnext : (h₁.relink (Linked.last (freeStarts pre)) value).next = h.next := by
    rw [← next]
    exact relink_next
  have hold : Linked h₁.link h₁.freeHead (freeStarts pre ++ freeStarts (b :: post)) := by
    rw [head, ← freeStarts_append]
    refine r.links.congr fun y hy => ?_
    rw [freeStarts_append] at hy
    rcases mem_append.1 hy with hy | hy
    · exact frame _ (.inl (hpre y hy))
    · obtain ⟨c, hc, hfree, rfl⟩ := mem_freeStarts.1 hy
      rcases mem_cons.1 hc with rfl | hc
      · exact link hfree
      · exact frame _ (.inr ((hafter c hc).trans (Nat.le_add_right _ _)))
  have hnodup : (freeStarts pre).Nodup := by
    have hall := r.nodup
    rw [freeStarts_append] at hall
    exact (nodup_append.1 hall).1
  have hnew := relink_linked hold links hnodup fun y hy hy' => by
    have h₁ := hpre y hy
    rcases mem_append.1 hy' with hy' | hy'
    · have h₂ := hms y hy'
      omega
    · have h₂ := hpost y hy'
      have h₃ : b.start ≤ b.stop := Nat.le_add_right _ _
      omega
  have hframe : Frame (pre ++ b :: post) b.start b.stop h.mem
      (h₁.relink (Linked.last (freeStarts pre)) value).mem := relink_frame frame
  refine ⟨?_, by rw [hnext]; exact r.next_dvd, by rw [hnext]; exact r.next_le, ?_, ?_⟩
  · rw [append_assoc, Heap.cursor, hnext]
    exact Tiles.append.2 ⟨_, tpre, Tiles.append.2 ⟨_, tiles, tpost⟩⟩
  · intro c hc
    rw [append_assoc] at hc
    rcases mem_append.1 hc with hc | hc
    · exact r.frame (mem_append_left _ hc) (.inl (hbefore c hc)) hframe
    · rcases mem_append.1 hc with hc | hc
      · refine (ok c hc).frame fun w hw _ _ => relink_mem_last fun y hy => ?_
        have h₁ := hpre y hy
        have h₂ := (tiles.bounds hc).1
        omega
      · exact r.frame (mem_append_right _ (mem_cons_of_mem _ hc)) (.inr (hafter c hc)) hframe
  · rw [freeStarts_append, freeStarts_append, append_assoc]
    exact hnew

theorem Rep.link_after (r : Rep a h (pre ++ b :: post)) (hb : b.used = none) :
    Linked h.link (h.link b.start) (freeStarts post) := by
  have hold := r.links
  rw [freeStarts_append, freeStarts_cons_free hb, ← singleton_append, ← append_assoc] at hold
  have hsuffix := hold.suffix
  rwa [if_neg (by simp), Linked.last_append_singleton] at hsuffix

/-- The allocation fits into the block, up to `stop`. -/
structure Placement (a : Arena) (b : Block) (x : Allocation) (stop : ℕ) : Prop where
  align : x.layout.align ∣ x.pointer
  word : WORD ∣ x.pointer
  lower : a.base + b.start + HEADER + WORD ≤ x.pointer
  upper : x.pointer + max x.layout.size 1 ≤ a.base + stop
  dvd : WORD ∣ stop
  room : b.start + MIN_FREE_SPAN ≤ stop

theorem layoutEnd_placement {stop : ℕ} (hl : layoutEnd a b.start layout = some (pointer, stop))
    (hstart : WORD ∣ b.start) : Placement a b ⟨pointer, layout⟩ stop := by
  obtain ⟨halign, hword, hlower, hupper, hdvd⟩ := layoutEnd_eq hl
  refine ⟨halign, hword, hlower, hupper, hdvd, ?_⟩
  unfold HEADER WORD at *
  unfold MIN_FREE_SPAN
  omega

variable {x : Allocation} {stop : ℕ}

theorem Placement.back_bounds (p : Placement a b x stop) :
    b.start + HEADER ≤ backPointer a x.pointer ∧ backPointer a x.pointer + WORD < stop := by
  have hlower := p.lower
  have hupper := p.upper
  unfold backPointer HEADER WORD at *
  omega

theorem Placement.ok {mem : ℕ → ℕ} {span : ℕ} (p : Placement a b x stop) (hspan : stop ≤ b.start + span)
    (hdvd : WORD ∣ span) (header : mem b.start = span) (back : mem (backPointer a x.pointer) = b.start) :
    Block.Ok a mem ⟨b.start, span, some x⟩ := by
  have hroom := p.room
  refine ⟨hdvd, by simp only; omega, header, fun y hy => ?_⟩
  obtain rfl := Option.some.inj hy
  exact ⟨p.align, p.word, p.lower, p.upper.trans (Nat.add_le_add_left hspan _), back⟩

theorem Rep.start_dvd (r : Rep a h bs) (hb : b ∈ bs) : WORD ∣ b.start :=
  r.tiles.dvd dvd_rfl (fun c hc => (r.ok c hc).aligned) hb

theorem Rep.link_before (r : Rep a h (pre ++ b :: post)) (hw : b.start ≤ w) :
    ∀ y ∈ freeStarts pre, w ≠ y + WORD := by
  intro y hy
  obtain ⟨c, hc, -, rfl⟩ := mem_freeStarts.1 hy
  have hlarge := r.large (mem_append_left _ hc)
  have hle := r.around.1 c hc
  unfold MIN_FREE_SPAN at hlarge
  unfold WORD
  rw [Block.stop] at hle
  omega

theorem Rep.relink_write (r : Rep a h (pre ++ b :: post)) {u : ℕ} (hw : b.start ≤ w) (h₁ : Heap) :
    (h₁.relink (Linked.last (freeStarts pre)) value).write w u =
      (h₁.write w u).relink (Linked.last (freeStarts pre)) value := by
  unfold Heap.relink
  split_ifs with hnil
  · rfl
  · have hne : freeStarts pre ≠ [] := by
      rintro heq
      rw [heq] at hnil
      exact hnil rfl
    have hlink := r.link_before hw _ (Linked.last_mem hne)
    simp only [Heap.setLink, Heap.write, Function.update_comm hlink]

theorem take_whole_rep (r : Rep a h (pre ++ b :: post)) (hb : b.used = none)
    (p : Placement a b x stop) (hstop : stop ≤ b.stop) :
    Rep a ((h.relink (Linked.last (freeStarts pre)) (h.link b.start)).write
      (backPointer a x.pointer) b.start) (pre ++ [⟨b.start, b.span, some x⟩] ++ post) := by
  have hok := r.ok b (by simp)
  have hword : WORD = 8 := rfl
  obtain ⟨hback₁, hback₂⟩ := p.back_bounds
  unfold HEADER at hback₁
  rw [r.relink_write (by omega)]
  refine r.place (fun w hw => ?_) rfl rfl (fun _ => link_write (by omega)) ⟨rfl, rfl⟩ ?_ ?_
  · rw [mem_write, if_neg (by omega)]
  · intro m hm
    obtain rfl := mem_singleton.1 hm
    refine p.ok hstop hok.aligned ?_ ?_
    · rw [mem_write, if_neg (by omega), hok.header]
    · rw [mem_write, if_pos rfl]
  · refine (r.link_after hb).congr fun y hy => link_write ?_
    obtain ⟨c, hc, -, rfl⟩ := mem_freeStarts.1 hy
    have hle := r.around.2 c hc
    omega

theorem Heap.mem_cut {stop : ℕ} : (h.cut current stop blockEnd).mem w =
    if w = current then stop - current else if w = stop + WORD then h.link current
    else if w = stop then blockEnd - stop else h.mem w := by
  simp only [Heap.cut, Heap.setSpan, Heap.setLink, mem_write]

theorem Heap.link_cut {stop : ℕ} (h₁ : w + WORD ≠ current) (h₂ : w ≠ stop)
    (h₃ : w + WORD ≠ stop) : (h.cut current stop blockEnd).link w = h.link w := by
  have hw : w + WORD ≠ stop + WORD := fun h => h₂ (Nat.add_right_cancel h)
  exact mem_cut.trans (by rw [if_neg h₁, if_neg hw, if_neg h₃]; rfl)

theorem take_split_rep (r : Rep a h (pre ++ b :: post)) (hb : b.used = none)
    (p : Placement a b x stop) (hstop : stop + MIN_FREE_SPAN ≤ b.stop) :
    Rep a (((h.cut b.start stop b.stop).relink (Linked.last (freeStarts pre)) stop).write
      (backPointer a x.pointer) b.start)
      (pre ++ [⟨b.start, stop - b.start, some x⟩, ⟨stop, b.stop - stop, none⟩] ++ post) := by
  have hmem : b ∈ pre ++ b :: post := by simp
  have hok := r.ok b hmem
  have hroom := p.room
  have hstart := r.start_dvd hmem
  have hspan : b.stop = b.start + b.span := rfl
  obtain ⟨hback₁, hback₂⟩ := p.back_bounds
  have hdvd : WORD ∣ b.stop - stop := Nat.dvd_sub (hspan ▸ Nat.dvd_add hstart hok.aligned) p.dvd
  have hword : WORD = 8 := rfl
  unfold MIN_FREE_SPAN at hstop hroom
  unfold HEADER at hback₁
  rw [r.relink_write (by omega)]
  have hlink : ∀ y, y + WORD ≠ b.start → y ≠ stop → y + WORD ≠ stop →
      y + WORD ≠ backPointer a x.pointer →
      ((h.cut b.start stop b.stop).write (backPointer a x.pointer) b.start).link y = h.link y :=
    fun y h₁ h₂ h₃ h₄ => (link_write h₄).trans (link_cut h₁ h₂ h₃)
  refine r.place (fun w hw => ?_) rfl rfl (fun _ => hlink _ (by omega) (by omega) (by omega) (by omega))
    ⟨rfl, ?_, ?_⟩ ?_ ?_
  · rw [mem_write, if_neg (by omega), mem_cut, if_neg (by omega), if_neg (by omega),
      if_neg (by omega)]
  · simp only
    omega
  · simp only [Tiles]
    omega
  · intro m hm'
    rcases mem_cons.1 hm' with rfl | hm'
    · refine p.ok (by omega) (Nat.dvd_sub p.dvd hstart) ?_ ?_
      · rw [mem_write, if_neg (by omega), mem_cut, if_pos rfl]
      · rw [mem_write, if_pos rfl]
    · obtain rfl := mem_singleton.1 hm'
      refine ⟨hdvd, by unfold MIN_FREE_SPAN; simp only; omega, ?_, by simp⟩
      simp only
      rw [mem_write, if_neg (by omega), mem_cut, if_neg (by omega), if_neg (by omega),
        if_pos rfl]
  · -- the links lead from the remainder to what came after the block
    have hnext : ((h.cut b.start stop b.stop).write (backPointer a x.pointer) b.start).link stop =
        h.link b.start :=
      (link_write (by omega)).trans (mem_cut.trans (by rw [if_neg (by omega), if_pos rfl]))
    refine ⟨rfl, by simp only; omega, ?_⟩
    rw [hnext]
    refine (r.link_after hb).congr fun y hy => ?_
    obtain ⟨c, hc, -, rfl⟩ := mem_freeStarts.1 hy
    have hle := r.around.2 c hc
    exact hlink _ (by omega) (by omega) (by omega) (by omega)

theorem take_rep (r : Rep a h (pre ++ b :: post)) (hb : b.used = none)
    (hl : layoutEnd a b.start layout = some (pointer, stop)) (hstop : stop ≤ b.stop) :
    Rep a (take a h (Linked.last (freeStarts pre)) b.start pointer stop b.stop)
      (pre ++ b.place ⟨pointer, layout⟩ stop ++ post) := by
  have p := layoutEnd_placement hl (r.start_dvd (by simp))
  unfold take Block.place
  split_ifs with hsplit
  · have hrep := take_split_rep r hb p (by omega)
    exact hrep
  · have hrep := take_whole_rep r hb p hstop
    exact hrep

theorem allocateFresh_rep (r : Rep a h bs)
    (hl : layoutEnd a h.cursor layout = some (pointer, stop)) (hstop : stop ≤ a.bytes) :
    Rep a { (((h.setSpan h.cursor (stop - h.cursor)).setLink h.cursor FREE_LIST_END).write
        (backPointer a pointer) h.cursor) with next := stop }
      (bs ++ [⟨h.cursor, stop - h.cursor, some ⟨pointer, layout⟩⟩]) := by
  have hcursor : WORD ∣ h.cursor := by
    unfold Heap.cursor
    split_ifs
    · exact dvd_rfl
    · exact r.next_dvd
  have p : Placement a ⟨h.cursor, stop - h.cursor, none⟩ ⟨pointer, layout⟩ stop :=
    layoutEnd_placement hl hcursor
  obtain ⟨hback₁, hback₂⟩ := p.back_bounds
  have hroom := p.room
  have hword : WORD = 8 := rfl
  unfold HEADER at hback₁
  simp only at hback₁ hback₂ hroom
  have hmem : ∀ w, w < h.cursor →
      (((h.setSpan h.cursor (stop - h.cursor)).setLink h.cursor FREE_LIST_END).write
        (backPointer a pointer) h.cursor).mem w = h.mem w := by
    intro w hw
    unfold Heap.setSpan Heap.setLink
    rw [mem_write, if_neg (by omega), mem_write, if_neg (by omega), mem_write,
      if_neg (by omega)]
  have hbelow : ∀ c ∈ bs, c.stop ≤ h.cursor := fun c hc => (r.tiles.bounds hc).2
  refine ⟨?_, p.dvd, hstop, ?_, ?_⟩
  · refine Tiles.append.2 ⟨_, r.tiles, rfl, ?_⟩
    have hend : ∀ h' : Heap, h'.next = stop → h'.cursor = stop := by
      rintro h' rfl
      exact if_neg (by omega)
    have hspan : h.cursor + (stop - h.cursor) = stop := by omega
    exact hspan.trans (hend _ rfl).symm
  · intro c hc
    rcases mem_append.1 hc with hc | hc
    · exact (r.ok c hc).frame fun w _ hw _ => hmem w (hw.trans_le (hbelow c hc))
    · obtain rfl := mem_singleton.1 hc
      refine p.ok (by simp only; omega) (Nat.dvd_sub p.dvd hcursor) ?_ ?_
      · simp only [Heap.setSpan, Heap.setLink]
        rw [mem_write, if_neg (by omega), mem_write, if_neg (by omega), mem_write,
          if_pos rfl]
      · exact mem_write.trans (if_pos rfl)
  · rw [freeStarts_append, freeStarts_cons_used rfl]
    have hlinks := r.links.congr fun y hy => by
      obtain ⟨c, hc, -, -, hlt⟩ := mem_freeStarts_bounds r hy
      exact hmem _ (hlt.trans_le (hbelow c hc))
    rw [show freeStarts [] = [] from rfl, append_nil]
    exact hlinks

theorem Rep.cursor_eq (r : Rep a h bs) : alignUp (max h.next 1) WORD = some h.cursor := by
  unfold Heap.cursor
  split_ifs with hnext
  · rw [hnext]
    rfl
  · obtain ⟨m, hm⟩ := r.next_dvd
    have hle := r.next_le
    have hfits := a.fits
    rw [Nat.max_eq_left (by omega)]
    refine alignUp_of_dvd r.next_dvd ?_
    unfold WORD at hm
    omega

def allocations (bs : List Block) : List Allocation := bs.filterMap Block.used

@[simp] theorem allocations_append : allocations (pre ++ post) = allocations pre ++ allocations post :=
  filterMap_append ..

theorem allocations_cons_free (hb : b.used = none) : allocations (b :: bs) = allocations bs :=
  filterMap_cons_none hb

theorem allocations_cons_used (hb : b.used = some x) : allocations (b :: bs) = x :: allocations bs :=
  filterMap_cons_some hb

theorem allocations_place : allocations (b.place x stop) = [x] := by
  unfold Block.place
  split_ifs <;> rfl

/-- The heap holds the blocks, with these live allocations. -/
structure Holds (a : Arena) (h : Heap) (bs : List Block) (live : List Allocation) : Prop where
  rep : Rep a h bs
  apart : Apart bs
  live : (allocations bs).Perm live

variable {live : List Allocation}

theorem allocateFresh_holds (i : Holds a h bs live) (layout : Layout) :
    allocateFresh a layout h = (0, h) ∨ ∃ pointer h' bs', allocateFresh a layout h = (pointer, h') ∧
      pointer ≠ 0 ∧ Holds a h' bs' (⟨pointer, layout⟩ :: live) := by
  unfold allocateFresh
  rw [i.rep.cursor_eq]
  simp only
  rcases hl : layoutEnd a h.cursor layout with _ | ⟨pointer, stop⟩
  · exact .inl rfl
  · by_cases hstop : stop > a.bytes
    · exact .inl (if_pos hstop)
    · have hrep := allocateFresh_rep i.rep hl (Nat.not_lt.1 hstop)
      refine .inr ⟨_, _, _, if_neg hstop, ?_, hrep, ?_, ?_⟩
      · have hlower := (layoutEnd_eq hl).2.2.1
        unfold HEADER at hlower
        omega
      · refine isChain_append.2 ⟨i.apart, .singleton _, fun c _ d hd => ?_⟩
        simp only [head?_cons, mem_def, Option.some.injEq] at hd
        subst hd
        simp
      · rw [allocations_append]
        exact (perm_append_comm).trans (i.live.cons _)

/-- `allocate` returns an allocation, or a null pointer and the same heap. -/
theorem allocate_holds (i : Holds a h bs live) (layout : Layout) :
    allocate a layout h = some (0, h) ∨ ∃ pointer h' bs', allocate a layout h = some (pointer, h') ∧
      pointer ≠ 0 ∧ Holds a h' bs' (⟨pointer, layout⟩ :: live) := by
  have r := i.rep
  have hfree := allocateFree_eq a layout [] r.links r.length_lt
  rcases hfree with hnone | ⟨zs, y, us, pointer, stop, blockEnd, hsplit, hfits, hfound⟩
  · have hrun : allocate a layout h = some (allocateFresh a layout h) := by
      unfold allocate
      rw [show FREE_LIST_END = Linked.last [] from rfl, hnone]
      rfl
    rw [hrun]
    rcases allocateFresh_holds i layout with hnull | ⟨pointer, h', bs', hfresh, hrest⟩
    · exact .inl (congrArg some hnull)
    · exact .inr ⟨pointer, h', bs', congrArg some hfresh, hrest⟩
  · obtain ⟨pre, b, post, rfl, hb, rfl, rfl, rfl⟩ := split_freeStarts hsplit
    obtain ⟨rfl, hl, hstop⟩ := fits_eq hfits
    rw [show h.span b.start = b.span from (r.ok b (by simp)).header] at hstop hfound
    have hrep := take_rep r hb hl hstop
    have hrun : allocate a layout h = some (pointer,
        take a h (Linked.last (freeStarts pre)) b.start pointer stop b.stop) := by
      unfold allocate
      rw [show FREE_LIST_END = Linked.last [] from rfl, hfound]
      rfl
    refine .inr ⟨_, _, _, hrun, ?_, hrep, i.apart.place hb, ?_⟩
    · have hlower := (layoutEnd_eq hl).2.2.1
      unfold HEADER at hlower
      omega
    · have hlive := i.live
      rw [allocations_append, allocations_cons_free hb] at hlive
      rw [append_assoc, allocations_append, allocations_append, allocations_place]
      exact perm_middle.trans (hlive.cons _)

end

end Reverie.ToolHeap
