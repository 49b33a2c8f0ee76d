import Rtems.FlashDisk.Faithful

/-!
# Recycling keeps memory faithful

Queueing, erasing, recycling and compaction, on every flash image, keep the descriptors in memory those of
the flash and write to the driver with discipline.  They keep the counts right as well, unless they take
one of the exits that lose count: a recycling that erases its source before it has seen all its erased
pages, one that leaves its source after it has taken erased pages off the count, and one into its own
source.
-/

namespace Rtems.FlashDisk

open Function Rtems.LinkedQueue Rtems.Traced Rtems.LogStore

variable {Sid : Type} [DecidableEq Sid] {cfg : Config Sid} {ok good : Event Sid → Prop}
  {s s' : Disk Sid} {x y : Sid} {page passed : ℕ} {counting : Prop} {xs : List Sid}

/-- The event does not lose count of the erased blocks: nor do requests that flag an erased page used, or
erase a queued segment that has erased pages. -/
def Event.KeepsCount : Event Sid → Prop
  | .recycle ssc dsc => ssc ≠ dsc
  | .eraseEarly _ left => left = 0
  | .keep _ passed => passed = 0
  | .flag _ erased => erased = false
  | .eraseQueued _ erased => erased = 0
  | _ => True

/-! ## Operations on the queues -/

/-- The operation changes the links of the queues only, and reports nothing. -/
def Relinks {α : Type} (m : Fdisk Sid α) : Prop :=
  ∀ s a s' es, m s = some (a, s', es) → es = [] ∧ s' = { s with links := s'.links }

section

variable {α β : Type}

omit [DecidableEq Sid] in
theorem Relinks.guarantees {m : Fdisk Sid α} {Q : α → Disk Sid → Prop} (h : Relinks m)
    (hQ : ∀ a l, Q a { s with links := l }) : Guarantees ok good m s Q := by
  intro a s' es hm _
  obtain ⟨rfl, hs'⟩ := h s a s' es hm
  rw [hs']
  exact ⟨by simp, hQ a _⟩

omit [DecidableEq Sid] in
theorem Relinks.bind {m : Fdisk Sid α} {f : α → Fdisk Sid β} (h : Relinks m)
    (hf : ∀ a, Relinks (f a)) : Relinks (m >>= f) := by
  intro s b s₂ es hb
  obtain ⟨a, s₁, es₁, es₂, hm, hf', rfl⟩ := bind_eq_some_iff.mp hb
  obtain ⟨rfl, hs₁⟩ := h s a s₁ es₁ hm
  obtain ⟨rfl, hs₂⟩ := hf a s₁ b s₂ es₂ hf'
  refine ⟨rfl, ?_⟩
  rw [hs₂, hs₁]

omit [DecidableEq Sid] in
theorem relinks_pure {a : α} : Relinks (pure a : Fdisk Sid α) := by
  intro s b s' es hb
  cases hb
  exact ⟨rfl, rfl⟩

omit [DecidableEq Sid] in
theorem relinks_get : Relinks (Prog.get : Fdisk Sid (Disk Sid)) := by
  intro s b s' es hb
  cases hb
  exact ⟨rfl, rfl⟩

omit [DecidableEq Sid] in
theorem relinks_lift {o : Option α} : Relinks (Prog.lift o : Fdisk Sid α) := by
  intro s b s' es hb
  simp only [Prog.lift, Option.map_eq_some_iff, Prod.mk.injEq] at hb
  obtain ⟨_, -, -, rfl, rfl⟩ := hb
  exact ⟨rfl, rfl⟩

omit [DecidableEq Sid] in
theorem relinks_modify {g : Disk Sid → Links QueueName Sid} :
    Relinks (Prog.modify fun s : Disk Sid => { s with links := g s }) := by
  intro s b s' es hb
  cases hb
  exact ⟨rfl, rfl⟩

end

theorem relinks_pushHead {q : QueueName} : Relinks (pushHead q x) := relinks_modify

theorem relinks_pushTail {q : QueueName} : Relinks (pushTail q x) := relinks_modify

theorem relinks_popHead {q : QueueName} : Relinks (popHead q : Fdisk Sid (Option Sid)) :=
  relinks_get.bind fun _ => relinks_modify.bind fun _ => relinks_pure

theorem relinks_remove {q : QueueName} : Relinks (remove cfg q x) :=
  relinks_get.bind fun _ => relinks_lift.bind fun _ => relinks_modify

theorem relinks_present {q : QueueName} : Relinks (present cfg q x) :=
  relinks_get.bind fun _ => relinks_lift

omit [DecidableEq Sid] in
theorem relinks_countQueue {q : QueueName} : Relinks (countQueue cfg q) :=
  relinks_get.bind fun _ => relinks_lift.bind fun _ => relinks_pure

omit [DecidableEq Sid] in
theorem relinks_segMostAvailable {q : QueueName} : Relinks (segMostAvailable cfg q) :=
  relinks_get.bind fun _ => relinks_lift.bind fun _ => relinks_pure

theorem relinks_insertSorted {q : QueueName} {before : Disk Sid → Sid → Bool} :
    Relinks (insertSorted cfg q x before) := by
  refine relinks_get.bind fun _ => relinks_lift.bind fun seg => ?_
  cases seg with
  | none => exact relinks_pushTail
  | some seg => exact relinks_get.bind fun _ => relinks_lift.bind fun _ => relinks_modify

/-! ## Counts -/

section

omit [DecidableEq Sid]

theorem Sound.links (h : Sound cfg counting xs passed s) (l : Links QueueName Sid) :
    Sound cfg counting xs passed { s with links := l } :=
  h.congr rfl rfl rfl

/-- How many erased blocks were passed matters while counting only. -/
theorem Sound.passed_congr {p : ℕ} (h : Sound cfg counting xs passed s)
    (hp : counting → passed = p) : Sound cfg counting xs p s :=
  ⟨h.faithful, fun hcount => hp hcount ▸ h.counted hcount⟩

theorem retire_mod {a u b : ℕ} (ha : a < 4294967296) (hu : u < 4294967296) :
    (dec32 a + inc32 u + b) % 4294967296 = (a + u + b) % 4294967296 := by
  unfold dec32 inc32
  split <;> split <;> omega

theorem inc32_lt {n : ℕ} (h : n < 4294967296) : inc32 n < 4294967296 := by
  unfold inc32
  split <;> omega

theorem dec32_lt {n : ℕ} (h : n < 4294967296) : dec32 n < 4294967296 := by
  unfold dec32
  split <;> omega

/-- A page less active and one more used. -/
theorem Counted.retire (h : Counted cfg xs passed s) (hx : x ∈ xs)
    (hs : ∀ y, y ≠ x → s'.seg y = s.seg y) (hseg : s'.seg x = (s.seg x).retirePage)
    (he : s'.erasedBlocks = s.erasedBlocks) : Counted cfg xs passed s' := by
  have ha := h.active_lt x hx
  have hu := h.used_lt x hx
  have herased : erasedDescs cfg s' x = erasedDescs cfg s x := by
    simp [erasedDescs, erasedBefore, hseg]
  refine h.modify hx hs ?_ ?_ ?_ ?_
  · rw [hseg, SegmentCtl.retirePage_pagesActive]
    exact dec32_lt ha
  · rw [hseg, SegmentCtl.retirePage_pagesUsed]
    exact inc32_lt hu
  · rw [herased, ← h.available x hx]
    simp only [segPagesAvailable, hseg, SegmentCtl.retirePage_pagesActive,
      SegmentCtl.retirePage_pagesUsed, SegmentCtl.retirePage_pagesBad, retire_mod ha hu]
  · rw [herased, he]

end

omit [DecidableEq Sid] in
/-- Replacing a descriptor that is not erased by another one. -/
theorem erasedBefore_setDesc {pd : PageDesc} {n : ℕ}
    (hold : pageDescErased ((s.seg x).pageDescriptors page) = false)
    (hnew : pageDescErased pd = false)
    (hs : (s'.seg x).pageDescriptors = update (s.seg x).pageDescriptors page pd) :
    erasedBefore s' x n = erasedBefore s x n := by
  unfold erasedBefore
  rw [hs]
  by_cases hp : page < n
  · have := tally_update pageDescErased (s.seg x).pageDescriptors pd hp
    simpa [hold, hnew] using this
  · exact tally_update_of_le _ _ _ (not_lt.mp hp)

omit [DecidableEq Sid] in
/-- Replacing an erased descriptor. -/
theorem erasedDescs_setDesc {pd : PageDesc} (hp : page < cfg.pages x)
    (hold : pageDescErased ((s.seg x).pageDescriptors page) = true)
    (hnew : pageDescErased pd = false)
    (hs : (s'.seg x).pageDescriptors = update (s.seg x).pageDescriptors page pd) :
    erasedDescs cfg s' x + 1 = erasedDescs cfg s x := by
  unfold erasedDescs erasedBefore
  rw [hs]
  have := tally_update pageDescErased (s.seg x).pageDescriptors pd hp
  simpa [hold, hnew] using this

omit [DecidableEq Sid] in
/-- An erased page is programmed. -/
theorem Counted.program {pd : PageDesc} (h : Counted cfg xs passed s) (hx : x ∈ xs)
    (hp : page < cfg.pages x)
    (hold : pageDescErased ((s.seg x).pageDescriptors page) = true)
    (hnew : pageDescErased pd = false) (hpos : 0 < s.erasedBlocks)
    (hs : ∀ y, y ≠ x → s'.seg y = s.seg y)
    (hseg : s'.seg x =
      { (s.seg x).setDesc page pd with pagesActive := inc32 (s.seg x).pagesActive })
    (he : s'.erasedBlocks = dec32 s.erasedBlocks) : Counted cfg xs passed s' := by
  have ha := h.active_lt x hx
  have herased : erasedDescs cfg s' x + 1 = erasedDescs cfg s x :=
    erasedDescs_setDesc hp hold hnew (by rw [hseg]; rfl)
  have havail := h.available x hx
  have hlt := cfg.pages_lt x
  refine h.modify hx hs ?_ ?_ ?_ ?_
  · rw [hseg]
    exact inc32_lt ha
  · rw [hseg]
    exact h.used_lt x hx
  · unfold segPagesAvailable at havail ⊢
    rw [hseg]
    show (cfg.pages x + 4294967296 -
      (inc32 (s.seg x).pagesActive + (s.seg x).pagesUsed + (s.seg x).pagesBad) % 4294967296) %
        4294967296 = _
    have hinc : (inc32 (s.seg x).pagesActive + (s.seg x).pagesUsed + (s.seg x).pagesBad) %
        4294967296 =
        ((s.seg x).pagesActive + (s.seg x).pagesUsed + (s.seg x).pagesBad + 1) % 4294967296 := by
      unfold inc32
      split <;> omega
    rw [hinc]
    omega
  · rw [he, dec32_of_pos hpos]
    omega

/-! ## Erasing and queueing -/

/-- The disk is sound, and only the segment `x` has changed. -/
def SoundAt (cfg : Config Sid) (counting : Prop) (xs : List Sid) (passed : ℕ) (x : Sid)
    (s s' : Disk Sid) : Prop :=
  Sound cfg counting xs passed s' ∧ ∀ y, y ≠ x → s'.seg y = s.seg y

theorem eraseSegment_sound {p : ℕ} (hc : Reliable cfg) (h : Sound cfg counting xs p s)
    (hx : x ∈ xs) (hp : counting → p = passed + erasedDescs cfg s x) :
    Guarantees ok (Event.Disciplined cfg) (eraseSegment cfg x) s fun _ =>
      SoundAt cfg counting xs passed x s := by
  have hcall : driverCall cfg s = some (none, { s with calls := s.calls + 1 }, []) := by
    simp [driverCall, bind, pure, Prog.get, Prog.modify, hc.fault]
  rw [eraseSegment, guarantees_silent_bind hcall]
  simp only [setFlash, hc.address, pushTail, guarantees_modify_bind, guarantees_pure]
  generalize hs' : Disk.mk _ _ _ _ _ _ _ = s'
  have hseg : s'.seg = update s.seg x ⟨fun _ => PageDesc.blank, 0, 0, 0, false⟩ := by
    rw [← hs']
    rfl
  have hflash : s'.flash = update s.flash x cfg.blankSegment := by
    rw [← hs']
    rfl
  have hother : ∀ y, y ≠ x → s'.seg y = s.seg y := fun y hy => by rw [hseg, update_of_ne hy]
  refine ⟨⟨h.faithful.modify (fun y hy => by rw [hother y hy])
    (fun y hy => by rw [hflash, update_of_ne hy]) ?_ ?_, fun hcount => ?_⟩, hother⟩
  · rw [hseg, hflash, update_self, update_self]
    rfl
  · intro page _ _
    rw [hflash, update_self]
    rfl
  · have hlt := cfg.pages_lt x
    have hblank : erasedDescs cfg s' x = cfg.pages x := by
      unfold erasedDescs erasedBefore
      rw [hseg, update_self]
      simp [tally, pageDescErased]
    have hcounted := h.counted hcount
    -- the sum after the erasure stays below the number of blocks
    have hroom : s.erasedBlocks + cfg.pages x < 4294967296 := by
      have hsum : (xs.map (update (erasedDescs cfg s) x (cfg.pages x))).sum + erasedDescs cfg s x =
          (xs.map (erasedDescs cfg s)).sum + update (erasedDescs cfg s) x (cfg.pages x) x :=
        sum_map_change hcounted.nodup hx fun y _ hy => update_of_ne hy _ _
      have hbound : (xs.map (update (erasedDescs cfg s) x (cfg.pages x))).sum < 4294967296 := by
        refine cfg.sum_lt (fun y => ?_) hcounted.nodup
        by_cases hy : y = x
        · subst hy
          exact (update_self _ _ _).le
        · rw [update_of_ne hy]
          exact erasedDescs_le
      rw [update_self, ← hcounted.total, hp hcount] at hsum
      omega
    refine hcounted.modify hx hother ?_ ?_ ?_ ?_
    · rw [hseg, update_self]
      decide
    · rw [hseg, update_self]
      decide
    · rw [hblank, segPagesAvailable, hseg, update_self]
      show (cfg.pages x + 4294967296 - (0 + 0 + 0) % 4294967296) % 4294967296 = cfg.pages x
      omega
    · have herased : s'.erasedBlocks = (s.erasedBlocks + cfg.pages x) % 4294967296 := by
        rw [← hs']
      rw [herased, hblank, hp hcount, Nat.mod_eq_of_lt hroom]
      omega

omit [DecidableEq Sid] in
/-- A change of the links keeps what was kept. -/
theorem SoundAt.links {s₁ : Disk Sid} (h : SoundAt cfg counting xs passed x s s₁)
    (l : Links QueueName Sid) :
    SoundAt cfg counting xs passed x s { s₁ with links := l } :=
  ⟨h.1.links l, h.2⟩

omit [DecidableEq Sid] in
theorem Sound.at (h : Sound cfg counting xs passed s) :
    SoundAt cfg counting xs passed x s s :=
  ⟨h, fun _ _ => rfl⟩

theorem placeSegment_sound (hc : Reliable cfg) (h : Sound cfg counting xs passed s)
    (hx : x ∈ xs) :
    Guarantees ok (Event.Disciplined cfg) (placeSegment cfg x) s fun _ =>
      SoundAt cfg counting xs passed x s := by
  rw [placeSegment, guarantees_get_bind]
  split
  next havail =>
    split
    · exact relinks_insertSorted.guarantees fun _ l => h.at.links l
    · split
      · exact relinks_pushTail.guarantees fun _ l => h.at.links l
      · -- no page of the segment is available, so none is erased
        have hnone : counting → passed = passed + erasedDescs cfg s x := by
          intro hcount
          rw [← (h.counted hcount).available x hx, havail, Nat.add_zero]
        refine Guarantees.bind ((eraseSegment_sound hc h hx hnone).mono fun _ s₁ hs₁ => ?_)
        rw [guarantees_pure]
        exact hs₁
  next => exact relinks_insertSorted.guarantees fun _ l => h.at.links l

theorem queueSegment_sound (hc : Reliable cfg) (h : Sound cfg counting xs passed s)
    (hx : x ∈ xs) :
    Guarantees ok (Event.Disciplined cfg) (queueSegment cfg x) s fun _ =>
      SoundAt cfg counting xs passed x s := by
  rw [queueSegment, guarantees_get_bind]
  refine guarantees_report_bind fun _ => ⟨trivial, ?_⟩
  split
  · refine Guarantees.bind (relinks_present.guarantees fun onFailed l => ?_)
    split
    · exact relinks_pushTail.guarantees fun _ l' => (h.at.links l).links l'
    · rw [guarantees_pure]
      exact h.at.links l
  · refine Guarantees.bind (relinks_remove.guarantees fun _ l => ?_)
    refine Guarantees.bind (relinks_remove.guarantees fun _ l' => ?_)
    exact placeSegment_sound hc ((h.links l).links l') hx

theorem setFailed_sound (h : Sound cfg counting xs passed s) (hx : x ∈ xs) :
    Guarantees ok (Event.Disciplined cfg) (setFailed cfg x) s fun _ =>
      SoundAt cfg counting xs passed x s := by
  rw [setFailed, guarantees_get_bind]
  refine guarantees_report_bind fun _ => ⟨trivial, ?_⟩
  rw [guarantees_modify]
  have hother : ∀ y, y ≠ x → (s.updSeg x fun g => { g with failed := true }).seg y = s.seg y :=
    fun y hy => update_of_ne hy _ _
  have hself : (s.updSeg x fun g => { g with failed := true }).seg x =
      { s.seg x with failed := true } := update_self _ _ _
  have herased : erasedDescs cfg (s.updSeg x fun g => { g with failed := true }) x =
      erasedDescs cfg s x := by
    rw [erasedDescs, erasedBefore, hself]
    rfl
  refine ⟨⟨h.faithful.congr (fun y => ?_) rfl, fun hcount => ?_⟩, hother⟩
  · by_cases hy : y = x
    · subst hy
      rw [hself]
    · rw [hother y hy]
  · have hcounted := h.counted hcount
    refine hcounted.modify hx hother ?_ ?_ ?_ ?_
    · rw [hself]
      exact hcounted.active_lt x hx
    · rw [hself]
      exact hcounted.used_lt x hx
    · rw [herased, segPagesAvailable, hself]
      exact hcounted.available x hx
    · rw [herased]
      rfl

/-! ## Recycling -/

section Recycling

variable {ssc dsc : Sid} {spage pages ret turns : ℕ}

/-- Every segment is sound. -/
abbrev Steady (cfg : Config Sid) (counting : Prop) (passed : ℕ) (s : Disk Sid) : Prop :=
  Sound cfg counting cfg.segments passed s

theorem giveUp_sound (hc : Reliable cfg) (h : Steady cfg counting passed s) :
    Guarantees ok (Event.Disciplined cfg) (giveUp cfg ssc dsc ret) s fun _ =>
      SoundAt cfg counting cfg.segments passed dsc s := by
  rw [giveUp]
  refine Guarantees.bind ((queueSegment_sound hc h (cfg.segments_complete dsc)).mono fun _ s₁ hs₁ => ?_)
  rw [guarantees_get_bind]
  refine guarantees_report_bind fun _ => ⟨trivial, ?_⟩
  refine Guarantees.bind (relinks_pushHead.guarantees fun _ l => ?_)
  rw [guarantees_pure]
  exact hs₁.links l

/-- A page has been copied, with its descriptor. -/
theorem Sound.copied {pd : PageDesc} {dpage : ℕ} (buffer : Page)
    (h : Steady cfg counting passed s) (hne : counting → ssc ≠ dsc)
    (hpassed : counting → passed ≤ erasedDescs cfg s ssc) (hp : dpage < cfg.pages dsc)
    (hold : pageDescErased ((s.seg dsc).pageDescriptors dpage) = true)
    (hnew : pageDescErased pd = false)
    (hseg : s'.seg = update (update s.seg dsc
      { (s.seg dsc).setDesc dpage pd with pagesActive := inc32 (s.seg dsc).pagesActive }) ssc
        (update s.seg dsc { (s.seg dsc).setDesc dpage pd with
          pagesActive := inc32 (s.seg dsc).pagesActive } ssc).retirePage)
    (hflash : s'.flash = update s.flash dsc
      ⟨update (s.flash dsc).descs dpage pd, update (s.flash dsc).data dpage buffer⟩)
    (he : s'.erasedBlocks = dec32 s.erasedBlocks) : Steady cfg counting passed s' := by
  generalize hg : ({ (s.seg dsc).setDesc dpage pd with
    pagesActive := inc32 (s.seg dsc).pagesActive } : SegmentCtl) = g at hseg
  have hdescs : ∀ y, (s'.seg y).pageDescriptors = (update s.seg dsc g y).pageDescriptors := by
    intro y
    rw [hseg]
    by_cases hy : y = ssc
    · subst hy
      rw [update_self, SegmentCtl.retirePage_pageDescriptors]
    · rw [update_of_ne hy]
  have hpd : g.pageDescriptors = update (s.seg dsc).pageDescriptors dpage pd := by
    rw [← hg]
    rfl
  refine ⟨Faithful.modify (x := dsc) h.faithful (fun y hy => ?_) (fun y hy => ?_) ?_ ?_,
    fun hcount => ?_⟩
  · rw [hdescs, update_of_ne hy]
  · rw [hflash, update_of_ne hy]
  · rw [hdescs, update_self, hflash, update_self, hpd,
      h.faithful.descs dsc (cfg.segments_complete dsc)]
  · intro page hpage hblank
    rw [hflash, update_self] at hblank ⊢
    by_cases hpd' : page = dpage
    · subst hpd'
      have herased : pd = PageDesc.blank := by simpa using hblank
      rw [← pageDescErased_iff, hnew] at herased
      cases herased
    · simp only [update_of_ne hpd'] at hblank ⊢
      exact h.faithful.blank dsc (cfg.segments_complete dsc) page hpage hblank
  · have hcounted := h.counted hcount
    -- the destination has an erased page besides those passed in the source
    have hpos : 0 < s.erasedBlocks := by
      have hpage : 0 < erasedDescs cfg s dsc := Nat.pos_of_ne_zero (tally_ne_zero.mpr ⟨dpage, hp, hold⟩)
      have hsum := add_le_sum_map (f := erasedDescs cfg s) hcounted.nodup
        (cfg.segments_complete ssc) (cfg.segments_complete dsc) (hne hcount)
      have := hcounted.total
      have := hpassed hcount
      omega
    have hprogram : Counted cfg cfg.segments passed
        { s with seg := update s.seg dsc g, erasedBlocks := dec32 s.erasedBlocks } :=
      hcounted.program (cfg.segments_complete dsc) hp hold hnew hpos
        (fun y hy => update_of_ne hy _ _) ((update_self _ _ _).trans hg.symm) rfl
    refine hprogram.retire (cfg.segments_complete ssc) (fun y hy => ?_) ?_ he
    · rw [hseg, update_of_ne hy]
    · rw [hseg, update_self]

theorem movePage_sound (hc : Reliable cfg) (hcount : counting → ∀ e, ok e → e.KeepsCount)
    (h : Steady cfg counting (erasedBefore s ssc spage) s) (hsp : spage ≤ cfg.pages ssc)
    (hactive : pageDescFlagsSet ((s.seg ssc).pageDescriptors spage) pageActive = true) :
    Guarantees ok (Event.Disciplined cfg) (movePage cfg ssc spage dsc) s fun _ s' =>
      Steady cfg counting (erasedBefore s ssc spage) s' ∧
      (counting → (s'.seg ssc).pageDescriptors = (s.seg ssc).pageDescriptors) := by
  have hnew : pageDescErased ((s.seg ssc).pageDescriptors spage) = false := by
    rw [Bool.eq_false_iff, Ne, pageDescErased_iff]
    intro hblank
    rw [hblank] at hactive
    exact absurd hactive (by decide)
  rw [movePage, guarantees_get_bind]
  refine guarantees_report_bind fun hok => ⟨trivial, ?_⟩
  have hne : counting → ssc ≠ dsc := fun hcnt => hcount hcnt _ hok
  -- what queueing the destination leaves of the source
  have hkept : ∀ {s₁ s₂ : Disk Sid}, SoundAt cfg counting cfg.segments (erasedBefore s ssc spage)
      dsc s₁ s₂ → (s₁.seg ssc).pageDescriptors = (s.seg ssc).pageDescriptors ∨ ¬ counting →
      Steady cfg counting (erasedBefore s ssc spage) s₂ ∧
      (counting → (s₂.seg ssc).pageDescriptors = (s.seg ssc).pageDescriptors) := by
    intro s₁ s₂ h₂ hs₁
    refine ⟨h₂.1, fun hcnt => ?_⟩
    rw [h₂.2 ssc (hne hcnt)]
    exact hs₁.resolve_right (not_not.mpr hcnt)
  split
  next =>
    refine Guarantees.bind ((setFailed_sound h (cfg.segments_complete dsc)).mono fun _ s₁ hs₁ => ?_)
    refine (giveUp_sound hc hs₁.1).mono fun _ s₂ hs₂ => hkept hs₂ ?_
    by_cases hcnt : counting
    · exact Or.inl (by rw [hs₁.2 ssc (hne hcnt)])
    · exact Or.inr hcnt
  next hroom =>
    have hp := not_le.mp hroom
    have hold := segNextAvailablePage_erased hp
    obtain ⟨hdesc, hdata⟩ := h.faithful.erased (cfg.segments_complete dsc) hp hold
    generalize segNextAvailablePage cfg s dsc = dpage at hp hold hdesc hdata
    refine Guarantees.bind (segCopyPage_guarantees hc hdata fun n => ?_)
    rw [if_neg (by simp), guarantees_modify_bind]
    refine Guarantees.bind (segWritePageDesc_guarantees hc ?_ fun n' => ?_)
    · simpa [Disk.updSeg] using hdesc
    · rw [if_neg (by simp), guarantees_modify_bind]
      generalize hs₁ : Disk.countMove _ ssc dsc dpage _ = s₁
      have hsound : Steady cfg counting (erasedBefore s ssc spage) s₁ := by
        refine h.copied ((s.flash ssc).data spage) hne (fun _ => tally_mono _ _ hsp) hp hold hnew
          ?_ ?_ ?_
        · rw [← hs₁]
          simp [Disk.countMove, Disk.updSeg]
        · rw [← hs₁]
          simp [Disk.countMove, Disk.updSeg]
        · rw [← hs₁]
          rfl
      refine Guarantees.bind ((queueSegment_sound hc hsound (cfg.segments_complete dsc)).mono
        fun _ s₂ hs₂ => ?_)
      rw [guarantees_pure]
      refine hkept hs₂ ?_
      by_cases hcnt : counting
      · left
        rw [← hs₁]
        simp [Disk.countMove, Disk.updSeg, hne hcnt]
      · exact Or.inr hcnt

omit [DecidableEq Sid] in
/-- Erased pages the scan has passed, up to the next page. -/
theorem erasedBefore_succ : erasedBefore s ssc (spage + 1) =
    erasedBefore s ssc spage +
      if pageDescErased ((s.seg ssc).pageDescriptors spage) then 1 else 0 :=
  tally_succ _ _ _

theorem recyclePage_sound {next : Sid → ℕ → Fdisk Sid (ℕ × ℕ)} (hc : Reliable cfg)
    (hcount : counting → ∀ e, ok e → e.KeepsCount)
    (hnext : ∀ d p t, Steady cfg counting (erasedBefore t ssc (spage + 1)) t →
      Guarantees ok (Event.Disciplined cfg) (next d p) t fun _ => Steady cfg counting 0)
    (h : Steady cfg counting (erasedBefore s ssc spage) s) (hsp : spage < cfg.pages ssc) :
    Guarantees ok (Event.Disciplined cfg) (recyclePage cfg ssc spage next dsc pages) s fun _ =>
      Steady cfg counting 0 := by
  rw [recyclePage, guarantees_get_bind]
  simp only
  split
  next hmove =>
    rw [Bool.and_eq_true] at hmove
    have hnot : pageDescErased ((s.seg ssc).pageDescriptors spage) = false := by
      rw [Bool.eq_false_iff, Ne, pageDescErased_iff]
      intro hblank
      rw [hblank] at hmove
      exact absurd hmove.1 (by decide)
    refine Guarantees.bind ((movePage_sound hc hcount h hsp.le hmove.1).mono fun ret s₁ hs₁ => ?_)
    rw [guarantees_get_bind]
    -- the descriptors of the source are the same, while counting
    have hbefore : ∀ n, counting → erasedBefore s₁ ssc n = erasedBefore s ssc n := by
      intro n hcnt
      unfold erasedBefore
      rw [hs₁.2 hcnt]
    have hsucc : counting → erasedBefore s ssc spage = erasedBefore s₁ ssc (spage + 1) := by
      intro hcnt
      rw [hbefore _ hcnt, erasedBefore_succ, hnot]
      rfl
    split
    next =>
      refine guarantees_report_bind fun hok => ⟨trivial, ?_⟩
      rw [guarantees_pure]
      refine hs₁.1.passed_congr fun hcnt => ?_
      rw [← hbefore _ hcnt]
      exact hcount hcnt _ hok
    next =>
      split
      next =>
        refine Guarantees.bind (relinks_segMostAvailable.guarantees fun o l => ?_)
        cases o with
        | some d => exact hnext d _ _ ((hs₁.1.links l).passed_congr hsucc)
        | none =>
          simp only
          split
          next =>
            refine guarantees_report_bind fun hok => ⟨trivial, ?_⟩
            -- no erased page is left behind, so all of them have been passed
            have hall : counting → erasedBefore s ssc spage = 0 + erasedDescs cfg s₁ ssc := by
              intro hcnt
              have hleft : erasedBefore s₁ ssc (cfg.pages ssc) - erasedBefore s₁ ssc spage = 0 :=
                hcount hcnt _ hok
              have hle : erasedBefore s₁ ssc spage ≤ erasedBefore s₁ ssc (cfg.pages ssc) :=
                tally_mono _ _ hsp.le
              rw [← hbefore _ hcnt, erasedDescs]
              omega
            refine Guarantees.bind ((eraseSegment_sound hc (hs₁.1.links l)
              (cfg.segments_complete ssc) hall).mono fun ret s₂ hs₂ => ?_)
            rw [guarantees_pure]
            exact hs₂.1
          next =>
            refine guarantees_report_bind fun _ => ⟨trivial, ?_⟩
            refine guarantees_report_bind fun hok => ⟨trivial, ?_⟩
            rw [guarantees_pure]
            refine (hs₁.1.links l).passed_congr fun hcnt => ?_
            rw [← hbefore _ hcnt]
            exact hcount hcnt _ hok
      next => exact hnext dsc _ _ (hs₁.1.passed_congr hsucc)
  next =>
    split
    next herased =>
      rw [guarantees_modify_bind]
      refine hnext dsc pages _ ⟨h.faithful.congr (fun _ => rfl) rfl, fun hcnt => ?_⟩
      have hcounted := h.counted hcnt
      have hle := hcounted.erasedDescs_le (cfg.segments_complete ssc)
      have hbound : erasedBefore s ssc (spage + 1) ≤ erasedDescs cfg s ssc := tally_mono _ _ hsp
      rw [erasedBefore_succ, herased, if_pos rfl] at hbound
      refine ⟨hcounted.nodup, hcounted.active_lt, hcounted.used_lt, hcounted.available, ?_⟩
      show dec32 s.erasedBlocks + erasedBefore s ssc (spage + 1) = _
      rw [erasedBefore_succ, herased, if_pos rfl, dec32_of_pos (by omega)]
      have htotal := hcounted.total
      show _ = (cfg.segments.map (erasedDescs cfg s)).sum
      omega
    next hnot =>
      refine hnext dsc pages s (h.passed_congr fun _ => ?_)
      rw [erasedBefore_succ, if_neg hnot]
      rfl

theorem recyclePages_sound (hc : Reliable cfg) (hcount : counting → ∀ e, ok e → e.KeepsCount)
    (n : ℕ) (hn : spage + n = cfg.pages ssc) (dsc : Sid) (pages : ℕ) (s : Disk Sid)
    (h : Steady cfg counting (erasedBefore s ssc spage) s) :
    Guarantees ok (Event.Disciplined cfg)
      (recyclePages cfg ssc (List.range' spage n) dsc pages) s fun _ => Steady cfg counting 0 := by
  induction n generalizing spage dsc pages s with
  | zero =>
    have hall : counting → erasedBefore s ssc spage = 0 + erasedDescs cfg s ssc := by
      intro _
      rw [erasedDescs, ← hn, Nat.zero_add]
      rfl
    refine Guarantees.bind ((eraseSegment_sound hc h (cfg.segments_complete ssc) hall).mono
      fun ret s₁ hs₁ => ?_)
    rw [guarantees_pure]
    exact hs₁.1
  | succ n ih =>
    exact recyclePage_sound hc hcount (fun d p t ht => ih (by omega) d p t ht) h (by omega)

theorem recycleSegment_sound (hc : Reliable cfg) (hcount : counting → ∀ e, ok e → e.KeepsCount)
    (h : Steady cfg counting 0 s) :
    Guarantees ok (Event.Disciplined cfg) (recycleSegment cfg ssc dsc pages) s fun _ =>
      Steady cfg counting 0 := by
  rw [recycleSegment, List.range_eq_range']
  exact recyclePages_sound hc hcount _ (Nat.zero_add _) dsc pages s h

/-! ## Compaction -/

theorem recycleStarving_sound (hc : Reliable cfg) (hcount : counting → ∀ e, ok e → e.KeepsCount)
    (h : Steady cfg counting 0 s) :
    Guarantees ok (Event.Disciplined cfg) (recycleStarving cfg ssc) s fun _ =>
      Steady cfg counting 0 := by
  rw [recycleStarving]
  refine Guarantees.bind (relinks_segMostAvailable.guarantees fun o l => ?_)
  cases o with
  | none =>
    refine guarantees_report_bind fun _ => ⟨trivial, ?_⟩
    rw [guarantees_pure]
    exact h.links l
  | some d =>
    refine Guarantees.bind ((recycleSegment_sound hc hcount (h.links l)).mono fun r s₁ hs₁ => ?_)
    rw [guarantees_pure]
    exact hs₁

theorem resolveStarvation_sound (hc : Reliable cfg)
    (hcount : counting → ∀ e, ok e → e.KeepsCount) (h : Steady cfg counting 0 s) :
    Guarantees ok (Event.Disciplined cfg) (resolveStarvation cfg) s fun _ =>
      Steady cfg counting 0 := by
  rw [resolveStarvation]
  refine Guarantees.bind (relinks_popHead.guarantees fun o l => ?_)
  cases o with
  | some ssc => exact recycleStarving_sound hc hcount (h.links l)
  | none =>
    refine Guarantees.bind (relinks_popHead.guarantees fun o l' => ?_)
    cases o with
    | some ssc => exact recycleStarving_sound hc hcount ((h.links l).links l')
    | none =>
      rw [guarantees_pure]
      exact (h.links l).links l'

theorem copyLoop_sound (hc : Reliable cfg) (hcount : counting → ∀ e, ok e → e.KeepsCount)
    (counted turns pages : ℕ) (s : Disk Sid) (h : Steady cfg counting 0 s) :
    Guarantees ok (Event.Disciplined cfg) (copyLoop cfg dsc counted turns pages) s fun _ =>
      Steady cfg counting 0 := by
  induction turns generalizing pages s with
  | zero => exact guarantees_lift_none
  | succ turns ih =>
    rw [copyLoop]
    split
    · rw [guarantees_pure]
      exact h
    · refine Guarantees.bind (relinks_popHead.guarantees fun o l => ?_)
      cases o with
      | none => exact ih pages _ (h.links l)
      | some ssc =>
        rw [guarantees_get_bind]
        refine Guarantees.bind ((recycleSegment_sound hc hcount (h.links l)).mono
          fun r s₁ hs₁ => ?_)
        split
        · refine guarantees_report_bind fun _ => ⟨trivial, ?_⟩
          rw [guarantees_pure]
          exact hs₁
        · exact ih r.2 s₁ hs₁

theorem compactLoop_sound (hc : Reliable cfg) (hcount : counting → ∀ e, ok e → e.KeepsCount)
    (turns left compactedSegs : ℕ) (s : Disk Sid) (h : Steady cfg counting 0 s) :
    Guarantees ok (Event.Disciplined cfg) (compactLoop cfg turns left compactedSegs) s fun _ =>
      Steady cfg counting 0 := by
  induction left generalizing compactedSegs s with
  | zero => exact guarantees_lift_none
  | succ left ih =>
    rw [compactLoop, guarantees_get_bind]
    split
    · rw [guarantees_pure]
      exact h
    · refine Guarantees.bind (relinks_segMostAvailable.guarantees fun o l => ?_)
      cases o with
      | none =>
        rw [guarantees_pure]
        exact h.links l
      | some dsc =>
        simp only
        split
        · rw [guarantees_pure]
          exact h.links l
        · refine Guarantees.bind (relinks_remove.guarantees fun _ l' => ?_)
          refine Guarantees.bind ((copyLoop_sound hc hcount _ turns _ _
            ((h.links l).links l')).mono fun ret s₁ hs₁ => ?_)
          split
          · rw [guarantees_pure]
            exact hs₁
          · exact ih _ s₁ hs₁

theorem compact_sound (hc : Reliable cfg) (hcount : counting → ∀ e, ok e → e.KeepsCount)
    (h : Steady cfg counting 0 s) :
    Guarantees ok (Event.Disciplined cfg) (compact cfg turns) s fun _ =>
      Steady cfg counting 0 := by
  rw [compact, guarantees_get_bind]
  split
  · refine Guarantees.bind ((resolveStarvation_sound hc hcount h).mono fun ret s₁ hs₁ => ?_)
    split
    · rw [guarantees_pure]
      exact hs₁
    · exact compactLoop_sound hc hcount _ _ _ s₁ hs₁
  · exact compactLoop_sound hc hcount _ _ _ s h

theorem compactIf_sound {wanted : Bool} (hc : Reliable cfg)
    (hcount : counting → ∀ e, ok e → e.KeepsCount) (h : Steady cfg counting 0 s) :
    Guarantees ok (Event.Disciplined cfg) (compactIf cfg turns wanted) s fun _ =>
      Steady cfg counting 0 := by
  rw [compactIf]
  split
  · refine Guarantees.bind ((compact_sound hc hcount h).mono fun ret s₁ hs₁ => ?_)
    rw [guarantees_pure]
    exact hs₁
  · rw [guarantees_pure]
    exact h

end Recycling

end Rtems.FlashDisk
