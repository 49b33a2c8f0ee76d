import Rtems.FlashDisk.Queues
import Rtems.Lib.LogStore

/-!
# The pages as cells of a log-structured store

With a driver that never fails, descriptors in memory, descriptors in flash and page data show the
cells of a store whose keys are the blocks; the counts of a segment are those of its cells.  Pages that
a recycling has copied away are stale although their descriptors still say active.
-/

namespace Rtems.FlashDisk

open Function Rtems.LinkedQueue Rtems.Traced Rtems.LogStore

variable {Sid : Type} [DecidableEq Sid] {cfg : Config Sid} {ok : Event Sid → Prop}
  {s s' : Disk Sid} {x y : Sid} {page : ℕ}

/-! ## A reliable driver -/

/-- Driver calls succeed, and reach the segment of the control they are made for: each device has one
segment descriptor. -/
structure Reliable (cfg : Config Sid) : Prop where
  fault : ∀ n, cfg.fault n = none
  address : ∀ x, cfg.address x = x

/-- Only the flash, and counts that no page depends on, have changed. -/
structure Reflash (s s' : Disk Sid) (flash : Sid → FlashSegment) : Prop where
  links : s'.links = s.links
  seg : s'.seg = s.seg
  blocks : s'.blocks = s.blocks
  flash : s'.flash = flash

omit [DecidableEq Sid] in
theorem segRead_reliable {α : Type} {f : FlashSegment → α} {Q : Except ℕ α → Disk Sid → Prop}
    (hc : Reliable cfg) (hQ : ∀ s', Reflash s s' s.flash → Q (.ok (f (s.flash x))) s') :
    Ensures ok (segRead cfg x f) s Q := by
  simp only [segRead, driverCall, hc.fault, hc.address, ensures_bind, ensures_get, ensures_modify,
    ensures_pure]
  exact hQ _ ⟨rfl, rfl, rfl, rfl⟩

omit [DecidableEq Sid] in
theorem segTest_reliable {f : FlashSegment → Bool} {Q : ℕ → Disk Sid → Prop} (hc : Reliable cfg)
    (hQ : ∀ s', Reflash s s' s.flash → Q (if f (s.flash x) then 0 else eio) s') :
    Ensures ok (segTest cfg x f) s Q := by
  simp only [segTest, driverCall, hc.fault, hc.address, ensures_bind, ensures_get, ensures_modify,
    ensures_pure]
  exact hQ _ ⟨rfl, rfl, rfl, rfl⟩

theorem segWrite_reliable {part : Part} {f : FlashSegment → FlashSegment}
    {Q : ℕ → Disk Sid → Prop} (hc : Reliable cfg)
    (hQ : ∀ s', Reflash s s' (update s.flash x (f (s.flash x))) → Q 0 s') :
    Ensures ok (segWrite cfg x part page f) s Q := by
  simp only [segWrite, driverCall, setFlash, hc.fault, hc.address, ensures_bind, ensures_get,
    ensures_modify, ensures_report, ensures_pure]
  intro _
  exact hQ _ ⟨rfl, rfl, rfl, rfl⟩

omit [DecidableEq Sid] in
/-- A blank check that passes makes no difference. -/
theorem blankCheckFirst_reliable {f : FlashSegment → Bool} {write : Fdisk Sid ℕ}
    {Q : ℕ → Disk Sid → Prop} (hc : Reliable cfg) (hblank : f (s.flash x) = true)
    (hQ : ∀ s', Reflash s s' s.flash → Ensures ok write s' Q) :
    Ensures ok (blankCheckFirst cfg (segTest cfg x f) write) s Q := by
  unfold blankCheckFirst
  split
  · rw [ensures_bind]
    refine segTest_reliable hc fun s' hs' => ?_
    rw [if_pos hblank, if_pos rfl]
    exact hQ s' hs'
  · exact hQ s ⟨rfl, rfl, rfl, rfl⟩

theorem segWritePage_reliable {buffer : Page} {Q : ℕ → Disk Sid → Prop} (hc : Reliable cfg)
    (hblank : (s.flash x).data page = cfg.blankPage)
    (hQ : ∀ s', Reflash s s' (update s.flash x
      { s.flash x with data := update (s.flash x).data page buffer }) → Q 0 s') :
    Ensures ok (segWritePage cfg x page buffer) s Q := by
  refine blankCheckFirst_reliable hc (by simpa using hblank) fun s₁ hs₁ => ?_
  simp only [ensures_bind, ensures_modify]
  refine segWrite_reliable hc fun s₂ hs₂ => hQ s₂ ?_
  exact ⟨hs₂.links.trans hs₁.links, hs₂.seg.trans hs₁.seg, hs₂.blocks.trans hs₁.blocks,
    by rw [hs₂.flash, hs₁.flash]⟩

theorem segWritePageDesc_reliable {pd : PageDesc} {Q : ℕ → Disk Sid → Prop} (hc : Reliable cfg)
    (hblank : (s.flash x).descs page = PageDesc.blank)
    (hQ : ∀ s', Reflash s s' (update s.flash x
      { s.flash x with descs := update (s.flash x).descs page pd }) → Q 0 s') :
    Ensures ok (segWritePageDesc cfg x page pd) s Q := by
  refine blankCheckFirst_reliable hc (by simpa using hblank) fun s₁ hs₁ => ?_
  refine segWrite_reliable hc fun s₂ hs₂ => hQ s₂ ?_
  exact ⟨hs₂.links.trans hs₁.links, hs₂.seg.trans hs₁.seg, hs₂.blocks.trans hs₁.blocks,
    by rw [hs₂.flash, hs₁.flash]⟩

theorem segCopyPage_reliable {spage : ℕ} {Q : ℕ → Disk Sid → Prop} (hc : Reliable cfg)
    (hblank : (s.flash x).data page = cfg.blankPage)
    (hQ : ∀ s', Reflash s s' (update s.flash x
      { s.flash x with data := update (s.flash x).data page ((s.flash y).data spage) }) → Q 0 s') :
    Ensures ok (segCopyPage cfg y spage x page) s Q := by
  simp only [segCopyPage, segReadPage, ensures_bind]
  refine segRead_reliable hc fun s₁ hs₁ => ?_
  refine segWritePage_reliable hc (by rw [hs₁.flash, hblank]) fun s₂ hs₂ => hQ s₂ ?_
  exact ⟨hs₂.links.trans hs₁.links, hs₂.seg.trans hs₁.seg, hs₂.blocks.trans hs₁.blocks,
    by rw [hs₂.flash, hs₁.flash]⟩

theorem segWritePageDescFlags_reliable {pd : PageDesc} {Q : ℕ → Disk Sid → Prop}
    (hc : Reliable cfg) (hflags : ((s.flash x).descs page).flags &&& pd.flags = pd.flags)
    (hQ : ∀ s', Reflash s s' (update s.flash x
      { s.flash x with
        descs := update (s.flash x).descs page
          { (s.flash x).descs page with flags := pd.flags } }) → Q 0 s') :
    Ensures ok (segWritePageDescFlags cfg x page pd) s Q := by
  simp only [segWritePageDescFlags]
  split
  · rw [ensures_bind]
    refine segRead_reliable hc fun s₁ hs₁ => ?_
    simp only [if_pos hflags]
    refine segWrite_reliable hc fun s₂ hs₂ => hQ s₂ ?_
    exact ⟨hs₂.links.trans hs₁.links, hs₂.seg.trans hs₁.seg, hs₂.blocks.trans hs₁.blocks,
      by rw [hs₂.flash, hs₁.flash]⟩
  · exact segWrite_reliable hc hQ

/-! ## Cells -/

/-- The descriptor of a page that holds a block. -/
def activeDesc (block : ℕ) (buffer : Page) : PageDesc := ⟨pageChecksum buffer, 0xfffe#16, block⟩

/-- Memory and flash show a cell; the descriptor of a moved page is not up to date. -/
def ShowsCell (cfg : Config Sid) (pd : PageDesc) (flash : FlashSegment) (page : ℕ) (moved : Prop) :
    Cell ℕ Page → Prop
  | .erased => pd = PageDesc.blank ∧ flash.descs page = pd ∧ flash.data page = cfg.blankPage
  | .live block buffer =>
    pd = activeDesc block buffer ∧ flash.descs page = pd ∧ flash.data page = buffer ∧
      block < cfg.blockCount
  | .stale => flash.descs page = pd ∧ (moved ∨ pageDescFlagsSet pd pageUsed = true)

/-- A segment shows its cells, the first `moved` of which have been looked at by a recycling. -/
structure ShowsSegment (cfg : Config Sid) (x : Sid) (f : ℕ → Cell ℕ Page) (moved : ℕ)
    (g : SegmentCtl) (flash : FlashSegment) : Prop where
  cell : ∀ page, page < cfg.pages x →
    ShowsCell cfg (g.pageDescriptors page) flash page (page < moved) (f page)
  inside : ∀ page block buffer, f page = .live block buffer → page < cfg.pages x
  active : g.pagesActive = tally Cell.isLive f (cfg.pages x)
  used : g.pagesUsed = tally Cell.isStale f (cfg.pages x)
  bad : g.pagesBad = 0
  sound : g.failed = false

/-- The disk shows the cells of a store. -/
def Shows (cfg : Config Sid) (c : Store Sid ℕ Page) (moved : Sid → ℕ) (s : Disk Sid) : Prop :=
  ∀ x, ShowsSegment cfg x (c x) (moved x) (s.seg x) (s.flash x)

theorem activeDesc_ne_blank {block : ℕ} {buffer : Page} :
    activeDesc block buffer ≠ PageDesc.blank := by
  intro h
  have := congrArg PageDesc.flags h
  simp [activeDesc, PageDesc.blank] at this

theorem pageDescErased_iff {pd : PageDesc} : pageDescErased pd = true ↔ pd = PageDesc.blank := by
  simp [pageDescErased]

theorem pageDescFlagsSet_iff {pd : PageDesc} {flags : BitVec 16} :
    pageDescFlagsSet pd flags = true ↔ pd.flags &&& flags = 0#16 :=
  decide_eq_true_iff

theorem flagsSet_setFlags (pd : PageDesc) (flags : BitVec 16) :
    pageDescFlagsSet (pageDescSetFlags pd flags) flags = true := by
  rw [pageDescFlagsSet_iff]
  show pd.flags &&& ~~~ flags &&& flags = 0#16
  rw [BitVec.and_assoc]
  simp

theorem flagsSet_used_ne_blank {pd : PageDesc} (h : pageDescFlagsSet pd pageUsed = true) :
    pd ≠ PageDesc.blank := by
  rintro rfl
  simp [pageDescFlagsSet, PageDesc.blank, pageUsed] at h

@[simp]
theorem activeDesc_flagsSet_active {block : ℕ} {buffer : Page} :
    pageDescFlagsSet (activeDesc block buffer) pageActive = true := by
  simp [pageDescFlagsSet, activeDesc, pageActive]

@[simp]
theorem activeDesc_flagsSet_used {block : ℕ} {buffer : Page} :
    pageDescFlagsSet (activeDesc block buffer) pageUsed = false := by
  simp [pageDescFlagsSet, activeDesc, pageUsed]

@[simp]
theorem activeDesc_flagsClear_used {block : ℕ} {buffer : Page} :
    pageDescFlagsClear (activeDesc block buffer) pageUsed = true := by
  simp [pageDescFlagsClear, activeDesc, pageUsed]

/-! ## What a segment shows -/

section Segment

variable {f : ℕ → Cell ℕ Page} {moved : ℕ} {g : SegmentCtl} {flash : FlashSegment} {block : ℕ}
  {buffer : Page}

omit [DecidableEq Sid] in
theorem ShowsSegment.mono {moved' : ℕ} (h : ShowsSegment cfg x f moved g flash)
    (hm : moved ≤ moved') : ShowsSegment cfg x f moved' g flash := by
  refine ⟨?_, h.inside, h.active, h.used, h.bad, h.sound⟩
  intro page hp
  have hcell := h.cell page hp
  revert hcell
  cases f page with
  | erased => exact id
  | live block buffer => exact id
  | stale => exact fun hc => ⟨hc.1, hc.2.imp_left fun hlt => hlt.trans_le hm⟩

omit [DecidableEq Sid] in
/-- An erased page is programmed. -/
theorem ShowsSegment.program (h : ShowsSegment cfg x f moved g flash) (hp : page < cfg.pages x)
    (hcell : f page = .erased) (hblock : block < cfg.blockCount) :
    ShowsSegment cfg x (update f page (.live block buffer)) moved
      { g.setDesc page (activeDesc block buffer) with pagesActive := inc32 g.pagesActive }
      ⟨update flash.descs page (activeDesc block buffer), update flash.data page buffer⟩ := by
  have hlive := tally_update Cell.isLive f (.live block buffer) hp
  have hstale := tally_update Cell.isStale f (.live block buffer) hp
  have hle := tally_le Cell.isLive (update f page (.live block buffer)) (cfg.pages x)
  have hlt := cfg.pages_lt x
  simp only [hcell, Cell.isLive, Cell.isStale, Bool.false_eq_true, if_false, if_true] at hlive hstale
  refine ⟨?_, ?_, ?_, ?_, h.bad, h.sound⟩
  · intro q hq
    by_cases hqp : q = page
    · subst hqp
      simp [ShowsCell, SegmentCtl.setDesc, hblock]
    · simpa [SegmentCtl.setDesc, hqp, ShowsCell] using h.cell q hq
  · intro q b d hq
    by_cases hqp : q = page
    · exact hqp ▸ hp
    · rw [update_of_ne hqp] at hq
      exact h.inside q b d hq
  · show inc32 g.pagesActive = _
    rw [h.active, inc32_of_lt (by omega)]
    omega
  · show g.pagesUsed = _
    rw [h.used]
    omega

omit [DecidableEq Sid] in
/-- The counts when a live page becomes stale. -/
theorem ShowsSegment.retire_counts (h : ShowsSegment cfg x f moved g flash)
    (hcell : f page = .live block buffer) :
    dec32 g.pagesActive = tally Cell.isLive (update f page .stale) (cfg.pages x) ∧
      inc32 g.pagesUsed = tally Cell.isStale (update f page .stale) (cfg.pages x) := by
  have hp := h.inside page block buffer hcell
  have hlive := tally_update Cell.isLive f .stale hp
  have hstale := tally_update Cell.isStale f .stale hp
  have hle := tally_le Cell.isLive f (cfg.pages x)
  have hle' := tally_le Cell.isStale (update f page .stale) (cfg.pages x)
  have hlt := cfg.pages_lt x
  simp only [hcell, Cell.isLive, Cell.isStale, Bool.false_eq_true, if_false, if_true] at hlive hstale
  refine ⟨?_, ?_⟩
  · rw [h.active, dec32_of_pos (by omega)]
    omega
  · rw [h.used, inc32_of_lt (by omega)]
    omega

omit [DecidableEq Sid] in
/-- The page of a block is flagged used. -/
theorem ShowsSegment.flag (h : ShowsSegment cfg x f moved g flash)
    (hcell : f page = .live block buffer) :
    ShowsSegment cfg x (update f page .stale) moved
      (g.setDesc page (pageDescSetFlags (activeDesc block buffer) pageUsed)).retirePage
      { flash with
        descs := update flash.descs page (pageDescSetFlags (activeDesc block buffer) pageUsed) } := by
  refine ⟨?_, ?_, by simpa using (h.retire_counts hcell).1,
    by simpa using (h.retire_counts hcell).2, by simpa using h.bad, by simpa using h.sound⟩
  · intro q hq
    by_cases hqp : q = page
    · subst hqp
      simp [ShowsCell, flagsSet_setFlags]
    · simpa [hqp, ShowsCell] using h.cell q hq
  · intro q b d hq
    by_cases hqp : q = page
    · subst hqp
      simp at hq
    · rw [update_of_ne hqp] at hq
      exact h.inside q b d hq

omit [DecidableEq Sid] in
/-- The page of a block has been copied away. -/
theorem ShowsSegment.move (h : ShowsSegment cfg x f page g flash)
    (hcell : f page = .live block buffer) :
    ShowsSegment cfg x (update f page .stale) (page + 1) g.retirePage flash := by
  refine ⟨?_, ?_, by simpa using (h.retire_counts hcell).1,
    by simpa using (h.retire_counts hcell).2, by simpa using h.bad, by simpa using h.sound⟩
  · intro q hq
    by_cases hqp : q = page
    · subst hqp
      have hc := h.cell q hq
      rw [hcell] at hc
      simp [ShowsCell, hc.2.1]
    · rw [update_of_ne hqp]
      exact (h.mono (Nat.le_succ page)).cell q hq
  · intro q b d hq
    by_cases hqp : q = page
    · subst hqp
      simp at hq
    · rw [update_of_ne hqp] at hq
      exact h.inside q b d hq

omit [DecidableEq Sid] in
theorem ShowsSegment.blank :
    ShowsSegment cfg x (fun _ => .erased) 0 ⟨fun _ => PageDesc.blank, 0, 0, 0, false⟩
      cfg.blankSegment := by
  refine ⟨?_, ?_, ?_, ?_, rfl, rfl⟩
  · intro q _
    simp [ShowsCell, Config.blankSegment]
  · simp
  · simp [tally_erased, Cell.isLive]
  · simp [tally_erased, Cell.isStale]

omit [DecidableEq Sid] in
/-- A page that no recycling has passed is erased when its descriptor is. -/
theorem ShowsSegment.erased_of_blank (h : ShowsSegment cfg x f 0 g flash) (hp : page < cfg.pages x)
    (hblank : g.pageDescriptors page = PageDesc.blank) : f page = .erased := by
  have hcell := h.cell page hp
  revert hcell
  cases f page with
  | erased => exact fun _ => rfl
  | live block buffer =>
    rintro ⟨hpd, -⟩
    exact absurd (hpd.symm.trans hblank) activeDesc_ne_blank
  | stale =>
    rintro ⟨-, hlt | hused⟩
    · exact absurd hlt (Nat.not_lt_zero _)
    · exact absurd hblank (flagsSet_used_ne_blank hused)

omit [DecidableEq Sid] in
theorem ShowsSegment.segPagesAvailable (h : ShowsSegment cfg x f moved (s.seg x) flash) :
    segPagesAvailable cfg s x = tally Cell.isErased f (cfg.pages x) := by
  have htotal := tally_total f (cfg.pages x)
  have hlt := cfg.pages_lt x
  unfold FlashDisk.segPagesAvailable
  rw [h.active, h.used, h.bad]
  omega

omit [DecidableEq Sid] in
theorem ShowsSegment.place_eq_available (h : ShowsSegment cfg x f moved (s.seg x) flash) :
    place cfg s x = .available ↔ tally Cell.isErased f (cfg.pages x) ≠ 0 := by
  rw [FlashDisk.place_eq_available, h.segPagesAvailable]
  simp [h.sound]

omit [DecidableEq Sid] in
theorem ShowsSegment.place_eq_erase (h : ShowsSegment cfg x f moved (s.seg x) flash) :
    place cfg s x = .erase ↔ tally Cell.isErased f (cfg.pages x) = 0 ∧
      tally Cell.isLive f (cfg.pages x) = 0 := by
  rw [FlashDisk.place_eq_erase, h.segPagesAvailable, h.active]
  simp [h.sound]

end Segment

/-! ## What the disk shows -/

section Disk

variable {c : Store Sid ℕ Page} {moved : Sid → ℕ}

/-- One segment changes. -/
theorem Shows.update_segment {f : ℕ → Cell ℕ Page} {m : ℕ} {g : SegmentCtl} {fl : FlashSegment}
    (h : Shows cfg c moved s) (hx : ShowsSegment cfg x f m g fl)
    (hs : s'.seg = update s.seg x g) (hf : s'.flash = update s.flash x fl) :
    Shows cfg (update c x f) (update moved x m) s' := by
  intro y
  rw [hs, hf]
  by_cases hy : y = x
  · subst hy
    simpa using hx
  · simpa [hy] using h y

omit [DecidableEq Sid] in
theorem Shows.congr (h : Shows cfg c moved s) (hs : s'.seg = s.seg) (hf : s'.flash = s.flash) :
    Shows cfg c moved s' := by
  intro y
  rw [hs, hf]
  exact h y

omit [DecidableEq Sid] in
theorem Shows.segPagesAvailable (h : Shows cfg c moved s) (x : Sid) :
    segPagesAvailable cfg s x = tally Cell.isErased (c x) (cfg.pages x) :=
  (h x).segPagesAvailable

omit [DecidableEq Sid] in
theorem Shows.place_eq_available (h : Shows cfg c moved s) :
    place cfg s x = .available ↔ tally Cell.isErased (c x) (cfg.pages x) ≠ 0 :=
  (h x).place_eq_available

omit [DecidableEq Sid] in
theorem Shows.place_eq_used (h : Shows cfg c moved s) :
    place cfg s x = .used ↔ tally Cell.isErased (c x) (cfg.pages x) = 0 ∧
      tally Cell.isLive (c x) (cfg.pages x) ≠ 0 := by
  rw [FlashDisk.place_eq_used, h.segPagesAvailable, (h x).active]
  simp [(h x).sound]

omit [DecidableEq Sid] in
theorem Shows.place_eq_erase (h : Shows cfg c moved s) :
    place cfg s x = .erase ↔ tally Cell.isErased (c x) (cfg.pages x) = 0 ∧
      tally Cell.isLive (c x) (cfg.pages x) = 0 :=
  (h x).place_eq_erase

omit [DecidableEq Sid] in
theorem Shows.place_ne_failed (h : Shows cfg c moved s) : place cfg s x ≠ .failed := by
  rw [Ne, place_eq_failed, (h x).sound]
  simp

omit [DecidableEq Sid] in
/-- A segment with a live page is not to be erased. -/
theorem Shows.place_ne_erase {block : ℕ} {buffer : Page} (h : Shows cfg c moved s)
    (hcell : c x page = .live block buffer) : place cfg s x ≠ .erase := by
  rw [Ne, h.place_eq_erase, tally_eq_zero]
  rintro ⟨-, hlive⟩
  rw [tally_eq_zero] at hlive
  have := hlive page ((h x).inside page block buffer hcell)
  simp [hcell, Cell.isLive] at this

omit [DecidableEq Sid] in
/-- The first available page of a segment with erased pages is erased. -/
theorem Shows.nextAvailable (h : Shows cfg c moved s) (hm : moved x = 0)
    (he : tally Cell.isErased (c x) (cfg.pages x) ≠ 0) :
    segNextAvailablePage cfg s x < cfg.pages x ∧ c x (segNextAvailablePage cfg s x) = .erased := by
  have hx := h x
  rw [hm] at hx
  obtain ⟨p, hp, hpe⟩ := tally_ne_zero.mp he
  have hcell := hx.cell p hp
  rw [Cell.isErased_iff.mp hpe] at hcell
  unfold segNextAvailablePage
  cases hfind : (List.range (cfg.pages x)).find? fun page =>
      pageDescErased ((s.seg x).pageDescriptors page) with
  | none =>
    rw [List.find?_eq_none] at hfind
    exact absurd (pageDescErased_iff.mpr hcell.1) (hfind p (List.mem_range.mpr hp))
  | some q =>
    have hq := List.mem_range.mp (List.mem_of_find?_eq_some hfind)
    have hqe := List.find?_some hfind
    exact ⟨hq, hx.erased_of_blank hq (pageDescErased_iff.mp hqe)⟩

/-- A live page of one segment is copied to an erased page of another. -/
theorem Shows.copy {ssc dsc : Sid} {spage dpage block : ℕ} {buffer : Page}
    (h : Shows cfg c moved s) (hne : ssc ≠ dsc) (hm : moved ssc = spage)
    (hsrc : c ssc spage = .live block buffer) (hp : dpage < cfg.pages dsc)
    (hdst : c dsc dpage = .erased)
    (hs : s'.seg = update (update s.seg dsc
      { (s.seg dsc).setDesc dpage (activeDesc block buffer) with
        pagesActive := inc32 (s.seg dsc).pagesActive }) ssc (s.seg ssc).retirePage)
    (hf : s'.flash = update s.flash dsc
      ⟨update (s.flash dsc).descs dpage (activeDesc block buffer),
        update (s.flash dsc).data dpage buffer⟩) :
    Shows cfg ((c.set dsc dpage (.live block buffer)).set ssc spage .stale)
      (update moved ssc (spage + 1)) s' := by
  have hsrc' := h ssc
  rw [hm] at hsrc'
  have hblock := (hsrc'.cell spage (hsrc'.inside _ _ _ hsrc))
  rw [hsrc] at hblock
  intro y
  rw [hs, hf]
  by_cases hy : y = ssc
  · subst hy
    simpa [Store.set, hne] using hsrc'.move hsrc
  · by_cases hd : y = dsc
    · subst hd
      simpa [Store.set, hy] using (h y).program hp hdst hblock.2.2.2
    · simpa [Store.set, hy, hd] using h y

end Disk

end Rtems.FlashDisk
