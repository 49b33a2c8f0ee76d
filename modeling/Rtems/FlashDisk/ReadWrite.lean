import Rtems.FlashDisk.Recycling

/-!
# Reading and writing blocks

What a write stores and a read returns, over the cells.  A write of a mapped block first flags the old
page: until the new page is programmed the block is in the gap, and it stays there when no room is
found.
-/

namespace Rtems.FlashDisk

open Function Rtems.LinkedQueue Rtems.Traced Rtems.LogStore

variable {Sid : Type} [DecidableEq Sid] {cfg : Config Sid} {ok : Event Sid → Prop}
  {content : ℕ → Option Page} {gap : Option ℕ} {c : Store Sid ℕ Page}
  {loc : Sid → Option QueueName} {s s' : Disk Sid} {x : Sid} {page block turns : ℕ} {buffer : Page}

omit [DecidableEq Sid] in
/-- A block with contents is mapped, even in the gap. -/
theorem Stores.mapped (h : Stores cfg content gap s) (hb : content block ≠ none) :
    (s.blocks block).isSome = true := by
  obtain ⟨c, loc, h⟩ := h
  cases hi : s.blocks block with
  | none => exact absurd (h.indexed.unmapped block hi) hb
  | some e => rfl

omit [DecidableEq Sid] in
/-- A mapped block that is not in the gap has contents, in a live page. -/
theorem Stored.live_of_mapped {moved : Sid → ℕ} (h : Stored cfg content gap moved c loc s)
    (hb : s.blocks block = some (x, page)) (hgap : gap ≠ some block) :
    ∃ buffer, c x page = .live block buffer ∧ content block = some buffer := by
  obtain ⟨buffer, hcell⟩ := h.indexed.mapped block x page hb hgap
  exact ⟨buffer, hcell, (h.indexed.live x page block buffer hcell).2.1⟩

/-! ## Flagging the old page -/

theorem flagged_flags : (activeDesc block buffer).flags &&&
    (pageDescSetFlags (activeDesc block buffer) pageUsed).flags =
      (pageDescSetFlags (activeDesc block buffer) pageUsed).flags := by
  show (0xfffe#16 &&& (0xfffe#16 &&& ~~~ 2#16)) = 0xfffe#16 &&& ~~~ 2#16
  decide

theorem flagUsed_stores (hc : Reliable cfg) (h : Stored cfg content none (fun _ => 0) c loc s)
    (hcell : c x page = .live block buffer) :
    Ensures ok (flagUsed cfg x page) s fun _ => Stores cfg content (some block) := by
  have hp := (h.shows x).inside _ _ _ hcell
  have hshown := (h.shows x).cell page hp
  rw [hcell] at hshown
  simp only [flagUsed, ensures_bind, ensures_get, ensures_modify, ensures_report]
  intro _
  generalize hs₁ : s.updSeg x _ = s₁
  have hdesc : (s₁.seg x).pageDescriptors page =
      pageDescSetFlags (activeDesc block buffer) pageUsed := by
    simp [← hs₁, Disk.updSeg, hshown.1]
  have hflash₁ : s₁.flash = s.flash := by rw [← hs₁]; rfl
  rw [hdesc]
  refine segWritePageDescFlags_reliable hc ?_ fun s₂ hs₂ => ?_
  · rw [hflash₁, hshown.2.1, hshown.1]
    exact flagged_flags
  · rw [if_pos rfl]
    generalize hs₃ : s₂.updSeg x SegmentCtl.retirePage = s₃
    have hseg : s₃.seg = update s.seg x ((s.seg x).setDesc page
        (pageDescSetFlags (activeDesc block buffer) pageUsed)).retirePage := by
      simp [← hs₃, Disk.updSeg, hs₂.seg, ← hs₁, hshown.1]
    have hflash : s₃.flash = update s.flash x { s.flash x with
        descs := update (s.flash x).descs page
          (pageDescSetFlags (activeDesc block buffer) pageUsed) } := by
      rw [← hs₃, Disk.updSeg, hs₂.flash, hflash₁, hshown.2.1, hshown.1]
      rfl
    have hblocks : s₃.blocks = s.blocks := by simp [← hs₃, Disk.updSeg, hs₂.blocks, ← hs₁]
    have hlinks : s₃.links = s.links := by simp [← hs₃, Disk.updSeg, hs₂.links, ← hs₁]
    have hshows := h.shows.update_segment ((h.shows x).flag hcell) hseg hflash
    rw [update_eq_self_iff.mpr rfl] at hshows
    have hplace : ∀ y, y ≠ x → place cfg s₃ y = place cfg s y := fun y hy =>
      place_congr (by rw [hseg, update_of_ne hy])
    have hstoring : Storing cfg content (some block) (fun _ => 0) (c.set x page .stale) loc x s₃ := by
      refine ⟨hshows, ?_, hlinks ▸ h.settled.located, ?_, ?_⟩
      · rw [hblocks]
        exact h.indexed.retire hcell
      · intro y hy
        rw [hplace y hy]
        exact (h.settled.placed y).imp_right And.right
      · intro hb y hy _
        rw [hplace y hy]
        exact h.clean hb y rfl
    refine queueSegment_stored hc hstoring ?_ ?_
    · intro hl
      exact h.shows.place_ne_failed (h.place_of_loc hl)
    · intro hl
      exact h.shows.place_ne_erase hcell (h.place_of_loc hl)

/-! ## Writing a new page -/

theorem programmed_desc :
    pageDescSetFlags ⟨pageChecksum buffer, PageDesc.blank.flags, block⟩ pageActive =
      activeDesc block buffer := by
  show (⟨_, 0xffff#16 &&& ~~~ 1#16, _⟩ : PageDesc) = ⟨_, 0xfffe#16, _⟩
  have : 0xffff#16 &&& ~~~ 1#16 = 0xfffe#16 := by decide
  rw [this]

theorem writeToSegment_stores (hc : Reliable cfg) (hok : ∀ x, ¬ ok (.noDst x))
    (h : Stored cfg content gap (fun _ => 0) c loc s) (hnone : loc x = none)
    (herased : erasedPages cfg c x ≠ 0) (hblock : block < cfg.blockCount)
    (hgap : ∀ k, gap = some k → k = block) (hnew : gap = some block ∨ s.blocks block = none) :
    Ensures ok (writeToSegment cfg turns x block buffer) s fun ret s' =>
      ret = 0 ∧ Stores cfg (update content block (some buffer)) none s' := by
  obtain ⟨hp, hcell⟩ := h.shows.nextAvailable rfl herased
  have hshown := (h.shows x).cell _ hp
  rw [hcell] at hshown
  simp only [writeToSegment, ensures_bind, ensures_get]
  generalize segNextAvailablePage cfg s x = page at hp hcell hshown
  rw [if_neg (by omega)]
  simp only [programPage, ensures_bind, ensures_get, ensures_modify, ensures_pure]
  generalize hs₁ : s.mapBlock x page block buffer = s₁
  have hdesc : (s₁.seg x).pageDescriptors page = activeDesc block buffer := by
    simp [← hs₁, Disk.mapBlock, Disk.updSeg, hshown.1, programmed_desc]
  have hflash₁ : s₁.flash = s.flash := by rw [← hs₁]; rfl
  refine segWritePage_reliable hc (by rw [hflash₁, hshown.2.2]) fun s₂ hs₂ => ?_
  simp only [ne_eq, not_true, if_false, ensures_bind]
  refine segWritePageDesc_reliable hc ?_ fun s₃ hs₃ => ?_
  · rw [hs₂.flash, update_self, hflash₁, hshown.2.1, hshown.1]
  simp only [not_true, if_false, ensures_bind, ensures_modify, ensures_pure]
  generalize hs₄ : s₃.updSeg x _ = s₄
  have hseg : s₄.seg = update s.seg x { (s.seg x).setDesc page (activeDesc block buffer) with
      pagesActive := inc32 (s.seg x).pagesActive } := by
    simp [← hs₄, Disk.updSeg, hs₃.seg, hs₂.seg, ← hs₁, Disk.mapBlock, hshown.1, programmed_desc]
  have hflash : s₄.flash = update s.flash x
      ⟨update (s.flash x).descs page (activeDesc block buffer),
        update (s.flash x).data page buffer⟩ := by
    rw [← hs₄, Disk.updSeg, hs₃.flash, hs₂.flash, hflash₁, hdesc]
    simp
  have hblocks : s₄.blocks = update s.blocks block (some (x, page)) := by
    simp [← hs₄, Disk.updSeg, hs₃.blocks, hs₂.blocks, ← hs₁, Disk.mapBlock]
  have hlinks : s₄.links = s.links := by
    simp [← hs₄, Disk.updSeg, hs₃.links, hs₂.links, ← hs₁, Disk.mapBlock]
  have hshows := h.shows.update_segment ((h.shows x).program hp hcell hblock) hseg hflash
  rw [update_eq_self_iff.mpr rfl] at hshows
  have hplace : ∀ y, y ≠ x → place cfg s₄ y = place cfg s y := fun y hy =>
    place_congr (by rw [hseg, update_of_ne hy])
  have hstoring : Storing cfg (update content block (some buffer)) none (fun _ => 0)
      (c.set x page (.live block buffer)) loc x s₄ := by
    refine ⟨hshows, ?_, hlinks ▸ h.settled.located, ?_, ?_⟩
    · rw [hblocks]
      exact h.indexed.program hgap hnew hcell
    · intro y hy
      rw [hplace y hy]
      exact (h.settled.placed y).imp_right And.right
    · intro hb y hy _
      rw [hplace y hy]
      exact h.clean hb y rfl
  refine (queueSegment_stored hc hstoring (by simp [hnone]) (by simp [hnone])).mono fun _ s₅ hs₅ => ?_
  exact (compactIf_stores hc hok hs₅).mono fun _ s₆ hs₆ => ⟨trivial, hs₆⟩

/-- The block is in the gap, or was never written. -/
def Vacant (content : ℕ → Option Page) (gap : Option ℕ) (block : ℕ) : Prop :=
  gap = some block ∧ content block ≠ none ∨ gap = none ∧ content block = none

theorem writeNewPage_stores (hc : Reliable cfg) (hok : ∀ x, ¬ ok (.noDst x))
    (h : Stores cfg content gap s) (hblock : block < cfg.blockCount)
    (hv : Vacant content gap block) :
    Ensures ok (writeNewPage cfg turns block buffer) s fun ret s' =>
      if ret = 0 then Stores cfg (update content block (some buffer)) none s'
      else Stores cfg content gap s' ∧ (gap ≠ none → ok (.noSpace block true)) := by
  have hpop : ∀ s₁ (f : Option Sid → Fdisk Sid ℕ) (Q : ℕ → Disk Sid → Prop),
      Stores cfg content gap s₁ →
      (∀ sc, f (some sc) = writeToSegment cfg turns sc block buffer) →
      (∀ s₂, Stores cfg (update content block (some buffer)) none s₂ → Q 0 s₂) →
      Ensures ok (f none) s₁ Q →
      Ensures ok (popHead .available) s₁ fun o s₂ => Ensures ok (f o) s₂ Q := by
    rintro s₁ f Q ⟨c, loc, hs₁⟩ hf hQ hm
    refine popHead_ensures hs₁.settled.located (fun _ => hm) fun sc l hsc hl _ _ => ?_
    rw [hf]
    have hgap : ∀ k, gap = some k → k = block := by
      rcases hv with ⟨rfl, -⟩ | ⟨rfl, -⟩ <;> simp [eq_comm]
    have hnew : gap = some block ∨ s₁.blocks block = none := by
      refine hv.imp And.left fun hn => ?_
      cases hb : s₁.blocks block with
      | none => rfl
      | some e =>
        have hmapped : s₁.blocks block = some (e.1, e.2) := hb
        obtain ⟨_, -, hcontent⟩ := hs₁.live_of_mapped hmapped (by simp [hn.1])
        rw [hn.2] at hcontent
        cases hcontent
    refine (writeToSegment_stores hc hok (hs₁.unlink hl hsc) (update_self _ _ _)
      (hs₁.erased_of_available hsc) hblock hgap hnew).mono ?_
    rintro ret s₂ ⟨rfl, hs₂⟩
    exact hQ s₂ hs₂
  simp only [writeNewPage, countQueue, ensures_bind, ensures_get, ensures_lift, ensures_pure]
  intro xs _
  refine (compactIf_stores hc hok h).mono fun _ s₁ hs₁ => ?_
  refine hpop s₁ _ _ hs₁ (fun _ => rfl) (fun s₂ hs₂ => by rwa [if_pos rfl]) ?_
  simp only [ensures_bind]
  refine (compactIf_stores hc hok hs₁).mono fun _ s₂ hs₂ => ?_
  refine hpop s₂ _ _ hs₂ (fun _ => rfl) (fun s₃ hs₃ => by rwa [if_pos rfl]) ?_
  simp only [ensures_bind, ensures_get, ensures_report, ensures_pure]
  intro hspace
  rw [if_neg (by decide)]
  refine ⟨hs₂, fun hgap => ?_⟩
  rcases hv with ⟨-, hcontent⟩ | ⟨hnone, -⟩
  · rwa [hs₂.mapped hcontent] at hspace
  · exact absurd hnone hgap

/-! ## Requests -/

/-- A write that returns 0 stores the data; another one leaves the contents, or has found no room for a
block it had already flagged. -/
theorem writeBlock_stores (hc : Reliable cfg) (hok : ∀ x, ¬ ok (.noDst x))
    (h : Stores cfg content none s) :
    Ensures ok (writeBlock cfg turns block buffer) s fun ret s' =>
      if ret = 0 then Stores cfg (update content block (some buffer)) none s'
      else Stores cfg content none s' ∨ ok (.noSpace block true) := by
  simp only [writeBlock, ensures_bind, ensures_get]
  split
  next =>
    rw [ensures_pure, if_neg (by decide)]
    exact Or.inl h
  next hrange =>
    have hblock : block < cfg.blockCount := by omega
    obtain ⟨c, loc, hst⟩ := h
    have h : Stores cfg content none s := ⟨c, loc, hst⟩
    cases hb : s.blocks block with
    | none =>
      have hv : Vacant content none block := Or.inr ⟨rfl, hst.indexed.unmapped block hb⟩
      refine (writeNewPage_stores hc hok h hblock hv).mono fun ret s₁ hs₁ => ?_
      split at hs₁
      next hret => rwa [if_pos hret]
      next hret =>
        rw [if_neg hret]
        exact Or.inl hs₁.1
    | some e =>
      obtain ⟨x, page⟩ := e
      obtain ⟨old, hcell, hcontent⟩ := hst.live_of_mapped hb (by simp)
      have hshown := (hst.shows x).cell page ((hst.shows x).inside _ _ _ hcell)
      rw [hcell] at hshown
      simp only [segVerifyPage, ensures_bind]
      refine segTest_reliable hc fun s₁ hs₁ => ?_
      have hst₁ := hst.congr hs₁
      simp only [hshown.2.2.1, decide_eq_true_eq]
      by_cases hsame : old = buffer
      · -- the page already holds the data
        rw [if_pos hsame, if_pos rfl, ensures_pure, if_pos rfl, ← hsame, ← hcontent, update_eq_self]
        exact ⟨c, loc, hst₁⟩
      · rw [if_neg hsame, if_neg (by decide)]
        simp only [ensures_bind]
        refine (flagUsed_stores hc hst₁ hcell).mono fun _ s₂ hs₂ => ?_
        refine (compactIf_stores hc hok hs₂).mono fun _ s₃ hs₃ => ?_
        have hv : Vacant content (some block) block := Or.inl ⟨rfl, by simp [hcontent]⟩
        refine (writeNewPage_stores hc hok hs₃ hblock hv).mono fun ret s₄ hs₄ => ?_
        split at hs₄
        next hret => rwa [if_pos hret]
        next hret =>
          rw [if_neg hret]
          exact Or.inr (hs₄.2 (by simp))

omit [DecidableEq Sid] in
/-- A read of a block in range succeeds and returns its contents. -/
theorem readBlock_eq (hc : Reliable cfg) (h : Stores cfg content none s)
    (hblock : block < cfg.blockCount - cfg.unavailBlocks) :
    ∃ s', readBlock cfg block s = some (some ((content block).getD cfg.blankPage), s', []) ∧
      Reflash s s' s.flash := by
  obtain ⟨c, loc, h⟩ := h
  have hrange : ¬ cfg.blockCount - cfg.unavailBlocks ≤ block := by omega
  cases hb : s.blocks block with
  | none =>
    refine ⟨s, ?_, rfl, rfl, rfl, rfl⟩
    simp [readBlock, bind, pure, Prog.get, hrange, hb, h.indexed.unmapped block hb]
  | some e =>
    obtain ⟨x, page⟩ := e
    obtain ⟨buffer, hcell, hcontent⟩ := h.live_of_mapped hb (by simp)
    have hshown := (h.shows x).cell page ((h.shows x).inside _ _ _ hcell)
    rw [hcell] at hshown
    refine ⟨{ s with calls := s.calls + 1 }, ?_, rfl, rfl, rfl, rfl⟩
    simp [readBlock, segReadPage, segRead, driverCall, bind, pure, Prog.get, Prog.modify, hrange, hb,
      hc.fault, hc.address, hshown.1, hshown.2.2.1, hcontent]
    rfl

end Rtems.FlashDisk
