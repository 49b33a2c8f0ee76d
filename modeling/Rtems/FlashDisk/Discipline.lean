import Rtems.FlashDisk.Accounting
import Rtems.FlashDisk.History

/-!
# Discipline and count in every run

The requests and the recovery, on every flash image, program pages and descriptors only where they are
erased and clear flags only.  In every run that takes none of the exits that lose count, the count of
erased blocks is the number of pages with an erased descriptor.
-/

namespace Rtems.FlashDisk

open Function Rtems.LinkedQueue Rtems.Traced Rtems.LogStore

variable {Sid : Type} [DecidableEq Sid] {cfg : Config Sid} {ok : Event Sid → Prop}
  {s s' : Disk Sid} {x : Sid} {page : ℕ} {counting : Prop} {done : List Sid}

/-! ## Requests -/

section Requests

variable {turns block : ℕ} {buffer : Page}

theorem eraseUsedLoop_sound (hc : Reliable cfg) (hcount : counting → ∀ e, ok e → e.KeepsCount)
    (turns latched : ℕ) (s : Disk Sid) (h : Steady cfg counting 0 s) :
    Guarantees ok (Event.Disciplined cfg) (eraseUsedLoop cfg turns latched) s fun _ =>
      Steady cfg counting 0 := by
  induction turns generalizing latched s with
  | zero => exact guarantees_lift_none
  | succ turns ih =>
    rw [eraseUsedLoop]
    refine Guarantees.bind (relinks_popHead.guarantees fun o l => ?_)
    cases o with
    | none =>
      rw [guarantees_pure]
      exact h.links l
    | some sc =>
      simp only [guarantees_get_bind]
      refine guarantees_report_bind fun hok => ⟨trivial, ?_⟩
      have hnone : counting → 0 = 0 + erasedDescs cfg { s with links := l } sc := by
        intro hcnt
        have herased : erasedDescs cfg { s with links := l } sc = 0 := hcount hcnt _ hok
        rw [herased]
      refine Guarantees.bind ((eraseSegment_sound hc (h.links l) (cfg.segments_complete sc)
        hnone).mono fun ret s₁ hs₁ => ?_)
      exact ih _ s₁ hs₁.1

omit [DecidableEq Sid] in
theorem readBlock_sound (hc : Reliable cfg) (h : Steady cfg counting 0 s) :
    Guarantees ok (Event.Disciplined cfg) (readBlock cfg block) s fun _ =>
      Steady cfg counting 0 := by
  rw [readBlock, guarantees_get_bind]
  split
  · rw [guarantees_pure]
    exact h
  · split
    · rw [guarantees_pure]
      exact h
    · simp only
      split
      · rw [segReadPage, guarantees_silent_bind (segRead_eq hc)]
        simp only
        rw [guarantees_pure]
        exact h.congr rfl rfl rfl
      · rw [guarantees_pure]
        exact h

/-- The descriptor of a page is flagged used, in memory and in flash. -/
theorem Sound.flagged (h : Steady cfg counting 0 s)
    (hlive : counting → pageDescErased ((s.seg x).pageDescriptors page) = false)
    (hseg : s'.seg = update s.seg x ((s.seg x).setDesc page
      (pageDescSetFlags ((s.seg x).pageDescriptors page) pageUsed)).retirePage)
    (hflash : s'.flash = update s.flash x { s.flash x with
      descs := update (s.flash x).descs page
        (pageDescSetFlags ((s.seg x).pageDescriptors page) pageUsed) })
    (he : s'.erasedBlocks = s.erasedBlocks) : Steady cfg counting 0 s' := by
  have hused := flagsSet_used_ne_blank (flagsSet_setFlags ((s.seg x).pageDescriptors page) pageUsed)
  generalize pageDescSetFlags ((s.seg x).pageDescriptors page) pageUsed = pd at hseg hflash hused
  have hself : s'.seg x = ((s.seg x).setDesc page pd).retirePage := by rw [hseg, update_self]
  refine ⟨Faithful.modify (x := x) h.faithful (fun y hy => ?_) (fun y hy => ?_) ?_ ?_,
    fun hcnt => ?_⟩
  · rw [hseg, update_of_ne hy]
  · rw [hflash, update_of_ne hy]
  · rw [hself, hflash, update_self, SegmentCtl.retirePage_pageDescriptors,
      SegmentCtl.setDesc_pageDescriptors, h.faithful.descs x (cfg.segments_complete x)]
  · intro q hq hblank
    rw [hflash, update_self] at hblank ⊢
    by_cases hqp : q = page
    · subst hqp
      exact absurd (by simpa using hblank) hused
    · simp only [update_of_ne hqp] at hblank
      exact h.faithful.blank x (cfg.segments_complete x) q hq hblank
  · have hcounted := h.counted hcnt
    have hnew : pageDescErased pd = false := by
      rw [Bool.eq_false_iff, Ne, pageDescErased_iff]
      exact hused
    -- first the descriptor, which stays one that is not erased, then the counts
    have hdesc : Counted cfg cfg.segments 0
        { s with seg := update s.seg x ((s.seg x).setDesc page pd) } := by
      have herased : erasedDescs cfg { s with seg := update s.seg x ((s.seg x).setDesc page pd) } x =
          erasedDescs cfg s x :=
        erasedBefore_setDesc (hlive hcnt) hnew (by simp)
      refine hcounted.modify (cfg.segments_complete x) (fun y hy => update_of_ne hy _ _) ?_ ?_ ?_ ?_
      · simpa using hcounted.active_lt x (cfg.segments_complete x)
      · simpa using hcounted.used_lt x (cfg.segments_complete x)
      · rw [herased, ← hcounted.available x (cfg.segments_complete x)]
        simp [segPagesAvailable]
      · rw [herased]
    refine hdesc.retire (cfg.segments_complete x) (fun y hy => ?_) ?_ he
    · rw [hseg, update_of_ne hy]
      exact (update_of_ne hy _ _).symm
    · simp [hself]

theorem flagUsed_sound (hc : Reliable cfg) (hcount : counting → ∀ e, ok e → e.KeepsCount)
    (h : Steady cfg counting 0 s) :
    Guarantees ok (Event.Disciplined cfg) (flagUsed cfg x page) s fun _ =>
      Steady cfg counting 0 := by
  rw [flagUsed, guarantees_get_bind]
  refine guarantees_report_bind fun hok => ⟨trivial, ?_⟩
  have hlive : counting → pageDescErased ((s.seg x).pageDescriptors page) = false :=
    fun hcnt => hcount hcnt _ hok
  simp only [guarantees_modify_bind, guarantees_get_bind]
  generalize hs₁ : s.updSeg x _ = s₁
  have hdesc : (s₁.seg x).pageDescriptors page =
      pageDescSetFlags ((s.seg x).pageDescriptors page) pageUsed := by
    simp [← hs₁, Disk.updSeg]
  have hflash : s₁.flash = s.flash := by
    rw [← hs₁]
    rfl
  have hsame := congrFun (h.faithful.descs x (cfg.segments_complete x)) page
  rw [hdesc]
  refine Guarantees.bind (segWritePageDescFlags_guarantees hc ?_ fun n => ?_)
  · rw [hflash, ← hsame]
    show _ &&& (_ &&& ~~~ pageUsed) = _ &&& ~~~ pageUsed
    rw [← BitVec.and_assoc, BitVec.and_self]
  · simp only [if_true, guarantees_modify_bind]
    refine (queueSegment_sound hc (h.flagged hlive ?_ ?_ ?_) (cfg.segments_complete x)).mono
      fun _ _ hs₂ => hs₂.1
    · simp [Disk.updSeg, ← hs₁]
    · simp only [Disk.updSeg, hflash, ← hsame]
      rfl
    · simp [Disk.updSeg, ← hs₁]

/-- A page has been programmed, with its descriptor. -/
theorem Sound.programmed {pd : PageDesc} (buffer : Page) (h : Steady cfg counting 0 s)
    (hp : page < cfg.pages x) (hold : pageDescErased ((s.seg x).pageDescriptors page) = true)
    (hnew : pageDescErased pd = false)
    (hseg : s'.seg = update s.seg x
      { (s.seg x).setDesc page pd with pagesActive := inc32 (s.seg x).pagesActive })
    (hflash : s'.flash = update s.flash x
      ⟨update (s.flash x).descs page pd, update (s.flash x).data page buffer⟩)
    (he : s'.erasedBlocks = dec32 s.erasedBlocks) : Steady cfg counting 0 s' := by
  refine ⟨Faithful.modify (x := x) h.faithful (fun y hy => ?_) (fun y hy => ?_) ?_ ?_,
    fun hcnt => ?_⟩
  · rw [hseg, update_of_ne hy]
  · rw [hflash, update_of_ne hy]
  · rw [hseg, hflash, update_self, update_self]
    show update (s.seg x).pageDescriptors page pd = _
    rw [h.faithful.descs x (cfg.segments_complete x)]
  · intro q hq hblank
    rw [hflash, update_self] at hblank ⊢
    by_cases hqp : q = page
    · subst hqp
      have herased : pd = PageDesc.blank := by simpa using hblank
      rw [← pageDescErased_iff, hnew] at herased
      cases herased
    · simp only [update_of_ne hqp] at hblank ⊢
      exact h.faithful.blank x (cfg.segments_complete x) q hq hblank
  · have hcounted := h.counted hcnt
    have hpos : 0 < s.erasedBlocks := by
      have hpage : 0 < erasedDescs cfg s x := Nat.pos_of_ne_zero (tally_ne_zero.mpr ⟨page, hp, hold⟩)
      have hle := hcounted.erasedDescs_le (cfg.segments_complete x)
      omega
    refine hcounted.program (cfg.segments_complete x) hp hold hnew hpos (fun y hy => ?_) ?_ he
    · rw [hseg, update_of_ne hy]
    · rw [hseg, update_self]

theorem writeToSegment_sound (hc : Reliable cfg) (hcount : counting → ∀ e, ok e → e.KeepsCount)
    (h : Steady cfg counting 0 s) :
    Guarantees ok (Event.Disciplined cfg) (writeToSegment cfg turns x block buffer) s fun _ =>
      Steady cfg counting 0 := by
  rw [writeToSegment, guarantees_get_bind]
  simp only
  split
  next =>
    refine Guarantees.bind ((setFailed_sound h (cfg.segments_complete x)).mono fun _ s₁ hs₁ => ?_)
    refine Guarantees.bind ((queueSegment_sound hc hs₁.1 (cfg.segments_complete x)).mono
      fun _ s₂ hs₂ => ?_)
    rw [guarantees_pure]
    exact hs₂.1
  next hroom =>
    have hp := not_le.mp hroom
    have hold := segNextAvailablePage_erased hp
    obtain ⟨hdesc, hdata⟩ := h.faithful.erased (cfg.segments_complete x) hp hold
    generalize segNextAvailablePage cfg s x = page at hp hold hdesc hdata
    rw [guarantees_modify_bind]
    generalize hs₁ : s.mapBlock x page block buffer = s₁
    obtain ⟨pd, hpd, hnew⟩ : ∃ pd, (s₁.seg x).pageDescriptors page = pd ∧
        pageDescErased pd = false := by
      refine ⟨_, rfl, ?_⟩
      rw [Bool.eq_false_iff, Ne, pageDescErased_iff]
      intro hblank
      have hflag := flagsSet_setFlags { (s.seg x).pageDescriptors page with
        crc := pageChecksum buffer
        block := block } pageActive
      simp only [← hs₁, Disk.mapBlock, Disk.updSeg, update_self,
        SegmentCtl.setDesc_pageDescriptors] at hblank
      rw [hblank] at hflag
      exact absurd hflag (by decide)
    have hseg : s₁.seg = update s.seg x ((s.seg x).setDesc page pd) := by
      rw [← hpd, ← hs₁]
      simp [Disk.mapBlock, Disk.updSeg]
    have hflash : s₁.flash = s.flash := by
      rw [← hs₁]
      rfl
    refine Guarantees.bind ?_
    rw [programPage, guarantees_get_bind]
    refine Guarantees.bind (segWritePage_guarantees hc (by rw [hflash, hdata]) fun n => ?_)
    rw [if_neg (by simp)]
    refine Guarantees.bind (segWritePageDesc_guarantees hc ?_ fun n' => ?_)
    · simpa [hflash] using hdesc
    · rw [if_neg (by simp), guarantees_modify_bind, guarantees_pure]
      generalize hs₂ : Disk.updSeg _ x _ = s₂
      have hsound : Steady cfg counting 0 s₂ := by
        refine h.programmed buffer hp hold hnew ?_ ?_ ?_
        · rw [← hs₂]
          simp [Disk.updSeg, hseg]
        · rw [← hs₂, hpd]
          simp [Disk.updSeg, hflash]
        · rw [← hs₂, ← hs₁]
          rfl
      refine Guarantees.bind ((queueSegment_sound hc hsound (cfg.segments_complete x)).mono
        fun _ s₃ hs₃ => ?_)
      rw [guarantees_get_bind]
      refine Guarantees.bind ((compactIf_sound hc hcount hs₃.1).mono fun _ s₄ hs₄ => ?_)
      rw [guarantees_pure]
      exact hs₄

theorem writeNewPage_sound (hc : Reliable cfg) (hcount : counting → ∀ e, ok e → e.KeepsCount)
    (h : Steady cfg counting 0 s) :
    Guarantees ok (Event.Disciplined cfg) (writeNewPage cfg turns block buffer) s fun _ =>
      Steady cfg counting 0 := by
  rw [writeNewPage]
  refine Guarantees.bind (relinks_countQueue.guarantees fun count l => ?_)
  refine Guarantees.bind ((compactIf_sound hc hcount (h.links l)).mono fun _ s₁ hs₁ => ?_)
  refine Guarantees.bind (relinks_popHead.guarantees fun o l₁ => ?_)
  cases o with
  | some sc => exact writeToSegment_sound hc hcount (hs₁.links l₁)
  | none =>
    refine Guarantees.bind ((compactIf_sound hc hcount (hs₁.links l₁)).mono fun _ s₂ hs₂ => ?_)
    refine Guarantees.bind (relinks_popHead.guarantees fun o l₂ => ?_)
    cases o with
    | some sc => exact writeToSegment_sound hc hcount (hs₂.links l₂)
    | none =>
      simp only [guarantees_get_bind]
      refine guarantees_report_bind fun _ => ⟨trivial, ?_⟩
      rw [guarantees_pure]
      exact hs₂.links l₂

theorem writeBlock_sound (hc : Reliable cfg) (hcount : counting → ∀ e, ok e → e.KeepsCount)
    (h : Steady cfg counting 0 s) :
    Guarantees ok (Event.Disciplined cfg) (writeBlock cfg turns block buffer) s fun _ =>
      Steady cfg counting 0 := by
  rw [writeBlock, guarantees_get_bind]
  split
  · rw [guarantees_pure]
    exact h
  · split
    · exact writeNewPage_sound hc hcount h
    next x page _ =>
      rw [segVerifyPage]
      refine Guarantees.bind (segTest_guarantees hc fun ret n => ?_)
      have h₁ : Steady cfg counting 0 { s with calls := n } := h.congr rfl rfl rfl
      split
      · rw [guarantees_pure]
        exact h₁
      · refine Guarantees.bind ((flagUsed_sound hc hcount h₁).mono fun _ s₂ hs₂ => ?_)
        refine Guarantees.bind ((compactIf_sound hc hcount hs₂).mono fun _ s₃ hs₃ => ?_)
        exact writeNewPage_sound hc hcount hs₃

theorem exec_sound (hc : Reliable cfg) (hcount : counting → ∀ e, ok e → e.KeepsCount)
    (call : Call) (h : Steady cfg counting 0 s) :
    Guarantees ok (Event.Disciplined cfg) (exec cfg turns call) s fun _ =>
      Steady cfg counting 0 := by
  cases call with
  | write block buffer => exact writeBlock_sound hc hcount h
  | read block =>
    rw [exec]
    refine Guarantees.bind ((readBlock_sound hc h).mono fun _ s₁ hs₁ => ?_)
    rw [guarantees_pure]
    exact hs₁
  | compact => exact compact_sound hc hcount h
  | eraseUsed => exact eraseUsedLoop_sound hc hcount _ _ s h

end Requests

/-! ## Recovery -/

/-- The scan of `x` has come to `page`, after the segments `done`. -/
structure Scan (cfg : Config Sid) (done : List Sid) (x : Sid) (page : ℕ) (s : Disk Sid) : Prop where
  faithful : Faithful cfg done s
  descs : (s.seg x).pageDescriptors = (s.flash x).descs
  blank : ∀ q, q < page → (s.flash x).descs q = PageDesc.blank →
    (s.flash x).data q = cfg.blankPage
  nodup : (done ++ [x]).Nodup
  active_lt : ∀ y ∈ done, (s.seg y).pagesActive < 4294967296
  used_lt : ∀ y ∈ done, (s.seg y).pagesUsed < 4294967296
  available : ∀ y ∈ done, segPagesAvailable cfg s y = erasedDescs cfg s y
  count : (s.seg x).pagesActive + (s.seg x).pagesUsed + (s.seg x).pagesBad +
    erasedBefore s x page = page
  total : s.erasedBlocks = (done.map (erasedDescs cfg s)).sum + erasedBefore s x page

omit [DecidableEq Sid] in
theorem Scan.ne (h : Scan cfg done x page s) {y : Sid} (hy : y ∈ done) : y ≠ x := by
  rintro rfl
  exact List.disjoint_of_nodup_append h.nodup hy (by simp)

omit [DecidableEq Sid] in
/-- The segments scanned before are as they were. -/
theorem Scan.others (h : Scan cfg done x page s) (hs : ∀ y, y ≠ x → s'.seg y = s.seg y)
    (hf : ∀ y, y ≠ x → s'.flash y = s.flash y) :
    Faithful cfg done s' ∧ (∀ y ∈ done, (s'.seg y).pagesActive < 4294967296) ∧
      (∀ y ∈ done, (s'.seg y).pagesUsed < 4294967296) ∧
      (∀ y ∈ done, segPagesAvailable cfg s' y = erasedDescs cfg s' y) ∧
      done.map (erasedDescs cfg s') = done.map (erasedDescs cfg s) := by
  refine ⟨⟨fun y hy => ?_, fun y hy => ?_⟩, fun y hy => ?_, fun y hy => ?_, fun y hy => ?_, ?_⟩
  · rw [hs y (h.ne hy), hf y (h.ne hy)]
    exact h.faithful.descs y hy
  · rw [hf y (h.ne hy)]
    exact h.faithful.blank y hy
  · rw [hs y (h.ne hy)]
    exact h.active_lt y hy
  · rw [hs y (h.ne hy)]
    exact h.used_lt y hy
  · rw [segPagesAvailable_congr (hs y (h.ne hy)), erasedDescs_congr (hs y (h.ne hy))]
    exact h.available y hy
  · exact List.map_congr_left fun y hy => erasedDescs_congr (hs y (h.ne hy))

omit [DecidableEq Sid] in
/-- A page whose descriptor is not erased is counted. -/
theorem Scan.count_page (h : Scan cfg done x page s)
    (hs : ∀ y, y ≠ x → s'.seg y = s.seg y) (hf : ∀ y, y ≠ x → s'.flash y = s.flash y)
    (hdescs : (s'.seg x).pageDescriptors = (s'.flash x).descs)
    (hnot : pageDescErased ((s'.seg x).pageDescriptors page) = false)
    (hbefore : erasedBefore s' x page = erasedBefore s x page)
    (hblank : ∀ q, q < page → (s'.flash x).descs q = PageDesc.blank →
      (s'.flash x).data q = cfg.blankPage)
    (hcount : (s'.seg x).pagesActive + (s'.seg x).pagesUsed + (s'.seg x).pagesBad =
      (s.seg x).pagesActive + (s.seg x).pagesUsed + (s.seg x).pagesBad + 1)
    (he : s'.erasedBlocks = s.erasedBlocks) : Scan cfg done x (page + 1) s' := by
  obtain ⟨hfaithful, hactive, hused, havail, hmap⟩ := h.others hs hf
  have hsucc : erasedBefore s' x (page + 1) = erasedBefore s x page := by
    rw [erasedBefore_succ, hnot, hbefore]
    rfl
  refine ⟨hfaithful, hdescs, fun q hq hq' => ?_, h.nodup, hactive, hused, havail, ?_, ?_⟩
  · rcases Nat.lt_succ_iff_lt_or_eq.mp hq with hlt | rfl
    · exact hblank q hlt hq'
    · rw [← hdescs, ← pageDescErased_iff, hnot] at hq'
      cases hq'
  · have := h.count
    rw [hsucc]
    omega
  · rw [hsucc, hmap, he]
    exact h.total

omit [DecidableEq Sid] in
/-- An erased page is counted. -/
theorem Scan.count_erased (h : Scan cfg done x page s) (hp : page < cfg.pages x)
    (herased : pageDescErased ((s.seg x).pageDescriptors page) = true)
    (hdata : (s.flash x).data page = cfg.blankPage) (hseg : s'.seg = s.seg)
    (hflash : s'.flash = s.flash) (he : s'.erasedBlocks = inc32 s.erasedBlocks) :
    Scan cfg done x (page + 1) s' := by
  obtain ⟨hfaithful, hactive, hused, havail, hmap⟩ := h.others (fun y _ => congrFun hseg y)
    (fun y _ => congrFun hflash y)
  have hsucc : erasedBefore s' x (page + 1) = erasedBefore s x page + 1 := by
    rw [erasedBefore_succ, erasedBefore, erasedBefore, hseg, herased]
    rfl
  refine ⟨hfaithful, by rw [hseg, hflash, h.descs], fun q hq hq' => ?_, h.nodup, hactive, hused,
    havail, ?_, ?_⟩
  · rw [hflash] at hq' ⊢
    rcases Nat.lt_succ_iff_lt_or_eq.mp hq with hlt | rfl
    · exact h.blank q hlt hq'
    · exact hdata
  · have := h.count
    rw [hsucc, hseg]
    omega
  · have htotal := h.total
    have hlt : ((done ++ [x]).map (erasedDescs cfg s)).sum < 4294967296 :=
      cfg.sum_lt (fun _ => erasedDescs_le) h.nodup
    have hle : erasedBefore s x (page + 1) ≤ erasedDescs cfg s x := tally_mono _ _ hp
    rw [erasedBefore_succ, herased, if_pos rfl] at hle
    rw [List.map_append, List.sum_append, List.map_singleton, List.sum_singleton] at hlt
    rw [hsucc, hmap, he, inc32_of_lt (by omega)]
    omega

theorem recoverPage_scan (hc : Reliable cfg) (h : Scan cfg done x page s)
    (hp : page < cfg.pages x) :
    Guarantees ok (Event.Disciplined cfg) (recoverPage cfg x page) s fun _ =>
      Scan cfg done x (page + 1) := by
  have hlt := cfg.pages_lt x
  have hcount := h.count
  -- a page that is only counted
  have hcounted : ∀ {t : Disk Sid} (f : SegmentCtl → SegmentCtl),
      pageDescErased ((s.seg x).pageDescriptors page) = false →
      (f (s.seg x)).pageDescriptors = (s.seg x).pageDescriptors →
      (f (s.seg x)).pagesActive + (f (s.seg x)).pagesUsed + (f (s.seg x)).pagesBad =
        (s.seg x).pagesActive + (s.seg x).pagesUsed + (s.seg x).pagesBad + 1 →
      t.seg = update s.seg x (f (s.seg x)) → t.flash = s.flash →
      t.erasedBlocks = s.erasedBlocks → Scan cfg done x (page + 1) t := by
    intro t f hnot hdescs hsum hseg hflash he
    have hself : t.seg x = f (s.seg x) := by rw [hseg, update_self]
    refine h.count_page (fun y hy => by rw [hseg, update_of_ne hy])
      (fun y _ => congrFun hflash y) ?_ ?_ ?_ ?_ ?_ he
    · rw [hself, hdescs, hflash, h.descs]
    · rw [hself, hdescs, hnot]
    · rw [erasedBefore, hself, hdescs]
      rfl
    · rw [hflash]
      exact h.blank
    · rw [hself, hsum]
  rw [recoverPage, guarantees_get_bind]
  simp only
  split
  next herased =>
    have hblank : (s.flash x).descs page = PageDesc.blank := by
      rw [← h.descs]
      exact pageDescErased_iff.mp herased
    rw [segBlankCheckPage, guarantees_silent_bind (segTest_eq hc)]
    by_cases hdata : (s.flash x).data page = cfg.blankPage
    · simp only [hdata, decide_true, if_true, guarantees_modify]
      exact h.count_erased hp herased hdata rfl rfl rfl
    · have heio : eio ≠ 0 := by decide
      simp only [hdata, decide_false, Bool.false_eq_true, if_false, if_neg heio,
        guarantees_modify_bind]
      have hnew := flagsSet_used_ne_blank (flagsSet_setFlags ((s.seg x).pageDescriptors page) pageUsed)
      generalize pageDescSetFlags ((s.seg x).pageDescriptors page) pageUsed = pd at hnew
      refine Guarantees.bind (segWritePageDesc_guarantees hc hblank fun n => ?_)
      rw [guarantees_modify]
      have hnot : pageDescErased pd = false := by
        rw [Bool.eq_false_iff, Ne, pageDescErased_iff]
        exact hnew
      generalize hs₁ : Disk.updSeg _ x _ = s₁
      have hself : s₁.seg x = { (s.seg x).setDesc page pd with
          pagesUsed := inc32 (s.seg x).pagesUsed } := by
        simp [← hs₁, Disk.updSeg]
      have hflash : s₁.flash x =
          { s.flash x with descs := update (s.flash x).descs page pd } := by
        simp [← hs₁, Disk.updSeg]
      refine h.count_page (fun y hy => ?_) (fun y hy => ?_) ?_ ?_ ?_ (fun q hq hq' => ?_) ?_ ?_
      · simp [← hs₁, Disk.updSeg, hy]
      · simp [← hs₁, Disk.updSeg, hy]
      · rw [hself, hflash, ← h.descs]
        rfl
      · simpa [hself] using hnot
      · unfold erasedBefore
        rw [hself]
        exact tally_update_of_le _ _ _ le_rfl
      · rw [hflash] at hq' ⊢
        simp only [update_of_ne hq.ne] at hq'
        exact h.blank q hq hq'
      · rw [hself]
        show (s.seg x).pagesActive + inc32 (s.seg x).pagesUsed + (s.seg x).pagesBad = _
        rw [inc32_of_lt (by omega)]
        omega
      · rw [← hs₁]
        rfl
  next hnot =>
    have hnot : pageDescErased ((s.seg x).pageDescriptors page) = false := by simpa using hnot
    split
    · rw [guarantees_modify]
      refine hcounted (fun g => { g with pagesUsed := inc32 g.pagesUsed }) hnot rfl ?_ rfl rfl rfl
      show (s.seg x).pagesActive + inc32 (s.seg x).pagesUsed + (s.seg x).pagesBad = _
      rw [inc32_of_lt (by omega)]
      omega
    · split
      · split
        · rw [guarantees_modify]
          refine hcounted (fun g => { g with pagesBad := inc32 g.pagesBad }) hnot rfl ?_ rfl rfl rfl
          show (s.seg x).pagesActive + (s.seg x).pagesUsed + inc32 (s.seg x).pagesBad = _
          rw [inc32_of_lt (by omega)]
          omega
        · rw [guarantees_modify]
          refine hcounted (fun g => { g with pagesActive := inc32 g.pagesActive }) hnot rfl ?_ rfl rfl
            rfl
          show inc32 (s.seg x).pagesActive + (s.seg x).pagesUsed + (s.seg x).pagesBad = _
          rw [inc32_of_lt (by omega)]
          omega
      · rw [guarantees_modify]
        refine hcounted (fun g => { g with pagesBad := inc32 g.pagesBad }) hnot rfl ?_ rfl rfl rfl
        show (s.seg x).pagesActive + (s.seg x).pagesUsed + inc32 (s.seg x).pagesBad = _
        rw [inc32_of_lt (by omega)]
        omega

theorem recoverPages_scan (hc : Reliable cfg) (n : ℕ) (hn : page + n = cfg.pages x) (s : Disk Sid)
    (h : Scan cfg done x page s) :
    Guarantees ok (Event.Disciplined cfg) (recoverPages cfg x (List.range' page n)) s fun _ =>
      Scan cfg done x (cfg.pages x) := by
  induction n generalizing page s with
  | zero =>
    rw [← hn]
    exact guarantees_pure.mpr h
  | succ n ih =>
    rw [List.range'_succ, recoverPages]
    exact Guarantees.bind ((recoverPage_scan hc h (by omega)).mono fun _ s₁ hs₁ =>
      ih (by omega) s₁ hs₁)

omit [DecidableEq Sid] in
/-- A segment that was scanned to its end joins the others. -/
theorem Scan.sound (h : Scan cfg done x (cfg.pages x) s) :
    Sound cfg counting (done ++ [x]) 0 s := by
  have hmem : ∀ {P : Sid → Prop}, (∀ y ∈ done, P y) → P x → ∀ y ∈ done ++ [x], P y := by
    intro P hdone hx y hy
    rcases List.mem_append.mp hy with hy | hy
    · exact hdone y hy
    · rw [List.mem_singleton.mp hy]
      exact hx
  have hlt := cfg.pages_lt x
  have hcount := h.count
  refine ⟨⟨hmem h.faithful.descs h.descs, hmem h.faithful.blank h.blank⟩, fun _ =>
    ⟨h.nodup, hmem h.active_lt (by omega), hmem h.used_lt (by omega), hmem h.available ?_, ?_⟩⟩
  · unfold segPagesAvailable erasedDescs
    omega
  · rw [h.total, List.map_append, List.sum_append, List.map_singleton, List.sum_singleton]
    rfl

theorem recoverSegment_sound (hc : Reliable cfg) (hnodup : (done ++ [x]).Nodup)
    (h : Sound cfg True done 0 s) :
    Guarantees ok (Event.Disciplined cfg) (recoverSegment cfg x) s fun ret s' =>
      ret = 0 ∧ Sound cfg True (done ++ [x]) 0 s' := by
  have hne : ∀ y ∈ done, y ≠ x := by
    rintro y hy rfl
    exact List.disjoint_of_nodup_append hnodup hy (by simp)
  rw [recoverSegment, guarantees_modify_bind, guarantees_silent_bind (segRead_eq hc)]
  simp only [guarantees_modify_bind]
  generalize hs₁ : Disk.updSeg _ x _ = s₁
  have hseg : ∀ y, y ≠ x → s₁.seg y = s.seg y := by
    intro y hy
    simp [← hs₁, Disk.beginScan, Disk.updSeg, hy]
  have hself : s₁.seg x = ⟨(s.flash x).descs, 0, 0, 0, false⟩ := by
    simp [← hs₁, Disk.beginScan, Disk.updSeg]
  have hflash : s₁.flash = s.flash := by
    rw [← hs₁]
    rfl
  have he : s₁.erasedBlocks = s.erasedBlocks := by
    rw [← hs₁]
    rfl
  have hcounted := h.counted trivial
  have hscan : Scan cfg done x 0 s₁ := by
    refine ⟨⟨fun y hy => ?_, fun y hy => ?_⟩, ?_, fun q hq => absurd hq (Nat.not_lt_zero q), hnodup,
      fun y hy => ?_, fun y hy => ?_, fun y hy => ?_, ?_, ?_⟩
    · rw [hseg y (hne y hy), hflash]
      exact h.faithful.descs y hy
    · rw [hflash]
      exact h.faithful.blank y hy
    · rw [hself, hflash]
    · rw [hseg y (hne y hy)]
      exact hcounted.active_lt y hy
    · rw [hseg y (hne y hy)]
      exact hcounted.used_lt y hy
    · rw [segPagesAvailable_congr (hseg y (hne y hy)), erasedDescs_congr (hseg y (hne y hy))]
      exact hcounted.available y hy
    · rw [hself]
      rfl
    · have hmap : done.map (erasedDescs cfg s₁) = done.map (erasedDescs cfg s) :=
        List.map_congr_left fun y hy => erasedDescs_congr (hseg y (hne y hy))
      rw [hmap, he]
      exact hcounted.total
  rw [List.range_eq_range']
  refine Guarantees.bind ((recoverPages_scan hc _ (Nat.zero_add _) s₁ hscan).mono fun _ s₂ hs₂ => ?_)
  have hsound : Sound cfg True (done ++ [x]) 0 s₂ := hs₂.sound
  refine Guarantees.bind ((queueSegment_sound hc hsound (by simp)).mono fun _ s₃ hs₃ => ?_)
  rw [guarantees_pure]
  exact ⟨rfl, hs₃.1⟩

theorem recoverSegments_sound (hc : Reliable cfg) (done rest : List Sid)
    (hnodup : (done ++ rest).Nodup) (s : Disk Sid) (h : Sound cfg True done 0 s) :
    Guarantees ok (Event.Disciplined cfg) (recoverSegments cfg rest) s fun ret s' =>
      ret = 0 ∧ Sound cfg True (done ++ rest) 0 s' := by
  induction rest generalizing done s with
  | nil =>
    rw [recoverSegments, guarantees_pure, List.append_nil]
    exact ⟨rfl, h⟩
  | cons x rest ih =>
    rw [List.append_cons] at hnodup ⊢
    rw [recoverSegments]
    refine Guarantees.bind ((recoverSegment_sound hc (List.Nodup.of_append_left hnodup) h).mono ?_)
    rintro _ s₁ ⟨rfl, hs₁⟩
    rw [if_neg (by simp)]
    exact ih _ hnodup s₁ hs₁

theorem recoverBlockMappings_sound (hc : Reliable cfg) :
    Guarantees ok (Event.Disciplined cfg) (recoverBlockMappings cfg) s fun ret s' =>
      ret = 0 ∧ Steady cfg True 0 s' := by
  rw [recoverBlockMappings, guarantees_modify_bind]
  refine recoverSegments_sound hc [] cfg.segments (by simpa using cfg.segments_nodup) _ ?_
  exact ⟨⟨by simp, by simp⟩, fun _ => ⟨List.nodup_nil, by simp, by simp, by simp, rfl⟩⟩

/-! ## Runs -/

/-- The runs from a flash image whose active pages are of blocks of the disk: a recovery, then
requests. -/
inductive FromImage (cfg : Config Sid) (flash : Sid → FlashSegment) :
    Disk Sid → List (Event Sid) → Prop
  | start {ret : ℕ} {s : Disk Sid} {es : List (Event Sid)} : InRange cfg flash →
      recoverBlockMappings cfg (Disk.allocated flash) = some (ret, s, es) → FromImage cfg flash s es
  | step {turns ret : ℕ} {call : Call} {s s' : Disk Sid} {es es' : List (Event Sid)} :
      FromImage cfg flash s es → exec cfg turns call s = some (ret, s', es') →
      FromImage cfg flash s' (es ++ es')

section Runs

variable {flash : Sid → FlashSegment} {es : List (Event Sid)}

/-- The start of a disk is a recovery and a compaction. -/
theorem Reached.fromImage (h : Reached cfg flash s es) : FromImage cfg flash s es := by
  induction h with
  | @start turns s es hrange hs =>
    simp only [startDisk] at hs
    obtain ⟨ret, s₁, es₁, es₂, hr, hrest, rfl⟩ := bind_eq_some_iff.mp hs
    split at hrest
    next hret =>
      cases hrest
      exact absurd rfl hret
    next =>
      have hcompact : exec cfg turns .compact s₁ = some (0, s, es₂) := hrest
      exact (FromImage.start hrange hr).step hcompact
  | step _ hexec ih => exact ih.step hexec

theorem FromImage.sound (hc : Reliable cfg) (h : FromImage cfg flash s es)
    (hcount : counting → ∀ e ∈ es, e.KeepsCount) :
    (∀ e ∈ es, e.Disciplined cfg) ∧ Steady cfg counting 0 s := by
  induction h with
  | @start ret s es _ hs =>
    have hpost : Guarantees (fun _ => True) (Event.Disciplined cfg) (recoverBlockMappings cfg)
        (Disk.allocated flash) _ := recoverBlockMappings_sound hc
    obtain ⟨hgood, -, hsound⟩ := hpost _ _ _ hs fun _ _ => trivial
    exact ⟨hgood, hsound.faithful, fun _ => hsound.counted trivial⟩
  | @step turns ret call s s' es es' _ hexec ih =>
    obtain ⟨hgood, hsound⟩ := ih fun hcnt e he => hcount hcnt e (List.mem_append_left _ he)
    have hpost : Guarantees (fun e => counting → e.KeepsCount) (Event.Disciplined cfg)
        (exec cfg turns call) s _ := exec_sound hc (fun hcnt e he => he hcnt) call hsound
    obtain ⟨hgood', hsound'⟩ := hpost _ _ _ hexec fun e he hcnt =>
      hcount hcnt e (List.mem_append_right _ he)
    refine ⟨fun e he => ?_, hsound'⟩
    rcases List.mem_append.mp he with he | he
    · exact hgood e he
    · exact hgood' e he

end Runs

/-- **Flash programming discipline**: with one segment descriptor per device and a driver that never
fails, every write of every run from any flash image programs a page or a descriptor that is erased, or
clears flags, and changes bits from one to zero only. -/
theorem writes_disciplined (cfg : Config Sid) (hc : Reliable cfg) (flash : Sid → FlashSegment)
    (s : Disk Sid) (es : List (Event Sid)) (h : FromImage cfg flash s es) (sc : Sid) (part : Part)
    (page : ℕ) (before after : FlashSegment) (he : Event.write sc part page before after ∈ es) :
    Programs cfg page before after part ∧ ClearsBits before after := by
  have hcount : False → ∀ e ∈ es, e.KeepsCount := fun hfalse => hfalse.elim
  have hprog : Programs cfg page before after part := (h.sound hc hcount).1 _ he
  exact ⟨hprog, hprog.clearsBits⟩

local instance neZeroTwoTwin : NeZero 2 := ⟨by decide⟩

/-- Two segments of one page each, reached through one segment descriptor. -/
def twinDisk : Config (Fin 2) where
  segments := [0, 1]
  segments_nodup := twoSegments_nodup
  segments_complete := twoSegments_complete
  pages _ := 1
  pages_pos := by decide
  blocks_lt := by decide
  address _ := 0
  blockSize := 16
  unavailBlocks := 0
  unavail_le := by decide
  compactSegs := 2
  availCompactSegs := 0
  backgroundErase := false
  backgroundCompact := true
  blankCheckBeforeWrite := false
  fault _ := none

/-- The event writes a page from `before` to `after`. -/
def Event.pageWrite {Sid : Type} (before after : Page) : Event Sid → Bool
  | .write _ .page page b a => decide (b.data page = before ∧ a.data page = after)
  | _ => false

omit [DecidableEq Sid] in
theorem Event.pageWrite_iff {before after : Page} {e : Event Sid} :
    e.pageWrite before after = true ↔ ∃ sc page b a, e = .write sc .page page b a ∧
      b.data page = before ∧ a.data page = after := by
  constructor
  · intro h
    unfold Event.pageWrite at h
    split at h
    next sc page b a => exact ⟨sc, page, b, a, rfl, of_decide_eq_true h⟩
    next => cases h
  · rintro ⟨sc, page, b, a, rfl, hb, ha⟩
    exact decide_eq_true ⟨hb, ha⟩

/-- The page of a first write. -/
theorem writes_disciplined_first :
    ∃ (page : ℕ) (before after : FlashSegment), after.data page = pageOf 3#8 ∧
      Programs unevenDisk page before after .page ∧ ClearsBits before after := by
  have hrun : ((session unevenDisk 10 [.write 1 (pageOf 3#8)]
      (Disk.allocated fun _ => unevenDisk.blankSegment)).map fun r =>
        (r.1, r.2.2.any (Event.pageWrite (pageOf 255#8) (pageOf 3#8)))) = some ((0, [0]), true) := by
    decide_cbv
  obtain ⟨⟨r, s, es⟩, hr, heq⟩ := Option.map_eq_some_iff.mp hrun
  simp only [Prod.mk.injEq, List.any_eq_true, Event.pageWrite_iff] at heq
  obtain ⟨rfl, _, he, sc, page, before, after, rfl, -, hafter⟩ := heq
  exact ⟨page, before, after, hafter, writes_disciplined unevenDisk unevenDisk_reliable _ s es
    (Reached.of_session hr).fromImage sc .page page before after he⟩

/-- The driver is asked for the first segment whichever segment is meant: the second block goes where
the first one is. -/
theorem writes_disciplined_twice :
    ¬ ∀ (cfg : Config (Fin 2)) flash s es, (∀ n, cfg.fault n = none) → FromImage cfg flash s es →
      ∀ sc part page before after, Event.write sc part page before after ∈ es →
        ClearsBits before after := by
  intro hall
  have hrun : ((session twinDisk 10 [.write 0 (pageOf 1#8), .write 1 (pageOf 2#8)]
      (Disk.allocated fun _ => twinDisk.blankSegment)).map fun r =>
        (r.1, r.2.2.any (Event.pageWrite (pageOf 1#8) (pageOf 2#8)))) = some ((0, [0, 0]), true) := by
    decide_cbv
  obtain ⟨⟨r, s, es⟩, hr, heq⟩ := Option.map_eq_some_iff.mp hrun
  simp only [Prod.mk.injEq, List.any_eq_true, Event.pageWrite_iff] at heq
  obtain ⟨rfl, _, he, sc, page, before, after, rfl, hbefore, hafter⟩ := heq
  have hclear := (hall twinDisk _ s es (fun _ => rfl) (Reached.of_session hr).fromImage sc .page page
    before after he).data page 0 1#8 2#8 (by rw [hbefore]; rfl) (by rw [hafter]; rfl)
  exact absurd hclear (by decide)

/-- **Erased-page accounting**: with one segment descriptor per device and a driver that never fails,
the count of erased blocks is the number of pages with an erased descriptor in memory, between the
requests of every run from any flash image that takes none of the exits that lose count. -/
theorem erased_blocks_exact (cfg : Config Sid) (hc : Reliable cfg) (flash : Sid → FlashSegment)
    (s : Disk Sid) (es : List (Event Sid)) (h : FromImage cfg flash s es)
    (hes : ∀ e ∈ es, e.KeepsCount) :
    s.erasedBlocks = (cfg.segments.map (erasedDescs cfg s)).sum ∧
      (isErasedBlocksStarvation s = true ↔
        (cfg.segments.map (erasedDescs cfg s)).sum < s.starvationThreshold) := by
  have hcount : True → ∀ e ∈ es, e.KeepsCount := fun _ => hes
  have htotal : s.erasedBlocks = (cfg.segments.map (erasedDescs cfg s)).sum :=
    ((h.sound hc hcount).2.counted trivial).total
  refine ⟨htotal, ?_⟩
  rw [isErasedBlocksStarvation, decide_eq_true_eq, htotal]

instance : DecidablePred fun e : Event Sid => e.KeepsCount
  | .recycle ssc dsc => inferInstanceAs (Decidable (ssc ≠ dsc))
  | .eraseEarly _ left => inferInstanceAs (Decidable (left = 0))
  | .keep _ passed => inferInstanceAs (Decidable (passed = 0))
  | .flag _ erased => inferInstanceAs (Decidable (erased = false))
  | .eraseQueued _ erased => inferInstanceAs (Decidable (erased = 0))
  | .queueSeg .. | .failed .. | .giveBack .. | .noDst .. | .starvation .. | .stopped ..
  | .noSpace .. | .write .. => .isTrue trivial

/-- A disk of a segment with four pages and one with two. -/
def doubleDisk : Config (Fin 2) where
  segments := [0, 1]
  segments_nodup := twoSegments_nodup
  segments_complete := twoSegments_complete
  pages x := if x = 0 then 4 else 2
  pages_pos := by decide
  blocks_lt := by decide
  address := id
  blockSize := 16
  unavailBlocks := 2
  unavail_le := by decide
  compactSegs := 2
  availCompactSegs := 1
  backgroundErase := false
  backgroundCompact := true
  blankCheckBeforeWrite := false
  fault _ := none

theorem doubleDisk_reliable : Reliable doubleDisk := ⟨fun _ => rfl, fun _ => rfl⟩

/-- Two blocks, one of them written twice. -/
theorem erased_blocks_exact_twice :
    ∃ s es, FromImage doubleDisk (fun _ => doubleDisk.blankSegment) s es ∧
      s.erasedBlocks = (doubleDisk.segments.map (erasedDescs doubleDisk s)).sum := by
  have hrun : ((session doubleDisk 10
      [.write 3 (pageOf 1#8), .write 3 (pageOf 2#8), .write 1 (pageOf 3#8)]
      (Disk.allocated fun _ => doubleDisk.blankSegment)).map fun r =>
        (r.1, decide (∀ e ∈ r.2.2, e.KeepsCount))) = some ((0, [0, 0, 0]), true) := by
    decide_cbv
  obtain ⟨⟨r, s, es⟩, hr, heq⟩ := Option.map_eq_some_iff.mp hrun
  simp only [Prod.mk.injEq, decide_eq_true_eq] at heq
  obtain ⟨rfl, hes⟩ := heq
  have himage := (Reached.of_session hr).fromImage
  exact ⟨s, es, himage, (erased_blocks_exact doubleDisk doubleDisk_reliable _ s es himage hes).1⟩

/-- A compaction moves the last active page of the large segment into the last page of the small one,
and erases the large segment before it has seen the erased page at its end. -/
theorem erased_blocks_exact_early :
    ¬ ∀ (cfg : Config (Fin 2)) flash s es, Reliable cfg → FromImage cfg flash s es →
      s.erasedBlocks = (cfg.segments.map (erasedDescs cfg s)).sum := by
  intro hall
  have hrun : ((session doubleDisk 10 [.write 3 (pageOf 1#8), .write 3 (pageOf 2#8),
      .write 1 (pageOf 3#8), .write 3 (pageOf 4#8), .compact] (Disk.allocated fun _ => doubleDisk.blankSegment)).map fun r =>
        (r.1, r.2.1.erasedBlocks, (doubleDisk.segments.map (erasedDescs doubleDisk r.2.1)).sum)) =
      some ((0, [0, 0, 0, 0, 0]), 5, 4) := by
    decide_cbv
  obtain ⟨⟨r, s, es⟩, hr, heq⟩ := Option.map_eq_some_iff.mp hrun
  simp only [Prod.mk.injEq] at heq
  obtain ⟨rfl, hcount, herased⟩ := heq
  have hexact := hall doubleDisk _ s es doubleDisk_reliable (Reached.of_session hr).fromImage
  omega

end Rtems.FlashDisk
