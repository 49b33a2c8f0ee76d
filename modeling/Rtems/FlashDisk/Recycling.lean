import Rtems.FlashDisk.Contents

/-!
# Recycling keeps the contents

A recycling moves the live pages of its source one by one and erases it.  As long as it finds a
destination it returns 0 and the store keeps its contents; a destination with room for all the pages is
not exchanged, and then the used queue is left alone.
-/

namespace Rtems.FlashDisk

open Function Rtems.LinkedQueue Rtems.Traced Rtems.LogStore

variable {Sid : Type} [DecidableEq Sid] {cfg : Config Sid} {ok : Event Sid → Prop}
  {content : ℕ → Option Page} {gap : Option ℕ} {c c' : Store Sid ℕ Page}
  {loc : Sid → Option QueueName} {s s' : Disk Sid} {ssc dsc : Sid} {spage : ℕ}

/-- The erased pages of a segment. -/
def erasedPages (cfg : Config Sid) (c : Store Sid ℕ Page) (x : Sid) : ℕ :=
  tally Cell.isErased (c x) (cfg.pages x)

/-- The live pages of a segment. -/
def livePages (cfg : Config Sid) (c : Store Sid ℕ Page) (x : Sid) : ℕ :=
  tally Cell.isLive (c x) (cfg.pages x)

/-- A recycling of `ssc` has come to page `spage`. -/
structure Recycling (cfg : Config Sid) (content : ℕ → Option Page) (gap : Option ℕ) (ssc : Sid)
    (spage : ℕ) (c : Store Sid ℕ Page) (loc : Sid → Option QueueName) (s : Disk Sid) : Prop where
  stored : Stored cfg content gap (update (fun _ => 0) ssc spage) c loc s
  unlinked : loc ssc = none
  passed : ∀ p k d, p < spage → c ssc p ≠ .live k d

/-- Pages have gone from `ssc` to `dsc`. -/
structure Passed (cfg : Config Sid) (ssc dsc : Sid) (n : ℕ) (c c' : Store Sid ℕ Page) : Prop where
  others : ∀ y, y ≠ ssc → y ≠ dsc → c' y = c y
  live : livePages cfg c' ssc + n = livePages cfg c ssc
  erased : erasedPages cfg c' dsc + n = erasedPages cfg c dsc

/-! ## Moving a page -/

theorem passed_copy {dpage block : ℕ} {buffer : Page} (hne : ssc ≠ dsc)
    (hs : spage < cfg.pages ssc) (hsrc : c ssc spage = .live block buffer)
    (hd : dpage < cfg.pages dsc) (hdst : c dsc dpage = .erased) :
    Passed cfg ssc dsc 1 c ((c.set dsc dpage (.live block buffer)).set ssc spage .stale) := by
  refine ⟨?_, ?_, ?_⟩
  · intro y hys hyd
    rw [Store.set_segment_of_ne hys, Store.set_segment_of_ne hyd]
  · have h := tally_update Cell.isLive (c ssc) .stale hs
    simpa [livePages, Store.set, hne, hsrc, Cell.isLive] using h
  · have h := tally_update Cell.isErased (c dsc) (.live block buffer) hd
    simpa [erasedPages, Store.set, hne.symm, hdst, Cell.isErased] using h

theorem movePage_recycling {block : ℕ} {buffer : Page} (hc : Reliable cfg)
    (h : Recycling cfg content gap ssc spage c loc s) (hne : ssc ≠ dsc)
    (hsrc : c ssc spage = .live block buffer) (hdst : erasedPages cfg c dsc ≠ 0) :
    Ensures ok (movePage cfg ssc spage dsc) s fun ret s' => ret = 0 ∧ ∃ c' loc',
      Recycling cfg content gap ssc (spage + 1) c' loc' s' ∧ Passed cfg ssc dsc 1 c c' ∧
      (erasedPages cfg c' dsc ≠ 0 → SameList .used s.links s'.links) := by
  obtain ⟨hstored, hnone, hpassed⟩ := h
  have hshows := hstored.shows
  have hm : update (fun _ : Sid => 0) ssc spage dsc = 0 := by simp [hne.symm]
  obtain ⟨hd, hde⟩ := hshows.nextAvailable hm hdst
  have hs := (hshows ssc).inside _ _ _ hsrc
  have hscell := (hshows ssc).cell spage hs
  rw [hsrc] at hscell
  have hdcell := (hshows dsc).cell _ hd
  rw [hde] at hdcell
  have hdplace : place cfg s dsc = .available := hshows.place_eq_available.mpr hdst
  have hpass : Passed cfg ssc dsc 1 c _ := passed_copy hne hs hsrc hd hde
  simp only [movePage, ensures_bind, ensures_get, ensures_report, hscell.1]
  intro _
  generalize segNextAvailablePage cfg s dsc = dpage at hd hde hdcell hpass
  rw [if_neg (by omega), ensures_bind]
  refine segCopyPage_reliable hc hdcell.2.2 fun s₁ hs₁ => ?_
  simp only [ne_eq, not_true, if_false, ensures_bind, ensures_modify]
  refine segWritePageDesc_reliable hc ?_ fun s₂ hs₂ => ?_
  · simp [Disk.updSeg, hs₁.flash, hdcell.1, hdcell.2.1]
  simp only [not_true, if_false, ensures_bind, ensures_modify, ensures_pure]
  -- the state in which the destination is queued
  generalize hs₃ : s₂.countMove ssc dsc dpage (activeDesc block buffer).block = s₃
  have hseg : s₃.seg = update (update s.seg dsc
      { (s.seg dsc).setDesc dpage (activeDesc block buffer) with
        pagesActive := inc32 (s.seg dsc).pagesActive }) ssc (s.seg ssc).retirePage := by
    rw [← hs₃]
    simp [Disk.countMove, Disk.updSeg, hs₂.seg, hs₁.seg, hne]
  have hflash : s₃.flash = update s.flash dsc
      ⟨update (s.flash dsc).descs dpage (activeDesc block buffer),
        update (s.flash dsc).data dpage buffer⟩ := by
    rw [← hs₃]
    simp [Disk.countMove, Disk.updSeg, hs₂.flash, hs₁.flash, hscell.2.2.1]
  have hblocks : s₃.blocks = update s.blocks block (some (dsc, dpage)) := by
    rw [← hs₃]
    simp [Disk.countMove, Disk.updSeg, hs₂.blocks, hs₁.blocks, activeDesc]
  have hlinks : s₃.links = s.links := by
    rw [← hs₃]
    simp [Disk.countMove, Disk.updSeg, hs₂.links, hs₁.links]
  have hshows₃ := hshows.copy hne (update_self _ _ _) hsrc hd hde hseg hflash
  rw [update_idem] at hshows₃
  generalize hc₃ : (c.set dsc dpage (.live block buffer)).set ssc spage .stale = c₃ at hpass hshows₃
  have hplace : ∀ y, y ≠ ssc → y ≠ dsc → place cfg s₃ y = place cfg s y := by
    intro y hys hyd
    exact place_congr (by rw [hseg, update_of_ne hys, update_of_ne hyd])
  have hstoring : Storing cfg content gap (update (fun _ => 0) ssc (spage + 1)) c₃ loc dsc s₃ := by
    refine ⟨hshows₃, ?_, hlinks ▸ hstored.settled.located, ?_, ?_⟩
    · rw [hblocks, ← hc₃]
      exact hstored.indexed.relocate hsrc hde
    · intro y hy
      by_cases hys : y = ssc
      · exact Or.inr (hys ▸ hnone)
      · rw [hplace y hys hy]
        exact (hstored.settled.placed y).imp_right And.right
    · intro hb y hy hmoved
      have hys : y ≠ ssc := by
        rintro rfl
        simp at hmoved
      rw [hplace y hys hy]
      exact hstored.clean hb y (by simp [hys])
  have hloc : loc dsc = some .available ∨ loc dsc = none :=
    hdplace ▸ (hstored.settled.placed dsc).imp_right And.right
  have hlive : c₃ dsc dpage = .live block buffer := by
    rw [← hc₃, Store.set_of_ne (fun hh => hne hh.1.symm), Store.set_self]
  refine (queueSegment_keeps_pages hstoring ?_ ?_ (hshows₃.place_ne_erase hlive)).mono ?_
  · rcases hloc with hl | hl <;> simp [hl]
  · rcases hloc with hl | hl <;> simp [hl]
  rintro _ s₄ ⟨hs₄, hseg₄, hsame⟩
  refine ⟨trivial, c₃, _, ⟨hs₄, ?_, ?_⟩, hpass, ?_⟩
  · rw [update_of_ne hne, hnone]
  · intro p k d hp
    rcases Nat.lt_succ_iff_lt_or_eq.mp hp with hp | rfl
    · rw [← hc₃, Store.set_of_ne (fun hh => by omega), Store.set_of_ne (fun hh => hne hh.1)]
      exact hpassed p k d hp
    · rw [← hc₃, Store.set_self]
      simp
  · intro herased
    rw [← hlinks]
    refine hsame .used ?_ ?_
    · rcases hloc with hl | hl <;> simp [hl]
    · rw [hshows₃.place_eq_available.mpr herased]
      simp

/-! ## Recycling a segment -/

/-- What a recycling of `ssc` into `dsc` leaves, from the cells `c` and the queues `l`, with `pages`
pages to move: when `dsc` had room, it took the pages. -/
def Recycled (cfg : Config Sid) (content : ℕ → Option Page) (gap : Option ℕ) (ssc dsc : Sid)
    (pages : ℕ) (c : Store Sid ℕ Page) (l : Links QueueName Sid) (r : ℕ × ℕ) (s' : Disk Sid) : Prop :=
  r.1 = 0 ∧ ∃ c' loc', Stored cfg content gap (fun _ => 0) c' loc' s' ∧
    (livePages cfg c ssc < erasedPages cfg c dsc → livePages cfg c ssc ≤ pages →
      r.2 + livePages cfg c ssc = pages ∧ (∀ y, y ≠ ssc → y ≠ dsc → c' y = c y) ∧
      erasedPages cfg c' dsc + livePages cfg c ssc = erasedPages cfg c dsc ∧
      SameList .used l s'.links)

theorem Recycling.eraseSegment (hc : Reliable cfg) (h : Recycling cfg content gap ssc spage c loc s)
    (hne : ssc ≠ dsc) (hlive : ∀ p k d, c ssc p ≠ .live k d) (pages : ℕ) :
    Ensures ok (eraseSegment cfg ssc) s fun ret s' =>
      Recycled cfg content gap ssc dsc pages c s.links (ret, pages) s' := by
  refine (eraseSegment_stored hc (h.stored.storing ssc) h.unlinked hlive).mono ?_
  rintro ret s' ⟨rfl, hs', hsame⟩
  have hzero : livePages cfg c ssc = 0 := by
    rw [livePages, tally_eq_zero]
    intro p _
    cases hcell : c ssc p with
    | erased => rfl
    | live k d => exact absurd hcell (hlive p k d)
    | stale => rfl
  rw [update_idem, update_eq_self_iff.mpr rfl] at hs'
  refine ⟨rfl, _, _, hs', fun _ _ => ⟨by simp [hzero], ?_, ?_, hsame⟩⟩
  · intro y hy _
    rw [Store.reclaim_of_ne hy]
  · rw [hzero, erasedPages, Store.reclaim_of_ne hne.symm]
    rfl

/-- A page that is not live is passed over. -/
theorem Recycling.skip (h : Recycling cfg content gap ssc spage c loc s)
    (hcell : ∀ k d, c ssc spage ≠ .live k d) :
    Recycling cfg content gap ssc (spage + 1) c loc s := by
  refine ⟨⟨?_, h.stored.indexed, h.stored.settled, ?_⟩, h.unlinked, ?_⟩
  · intro y
    have hy := h.stored.shows y
    by_cases hys : y = ssc
    · subst hys
      rw [update_self] at hy ⊢
      exact hy.mono (Nat.le_succ spage)
    · rw [update_of_ne hys] at hy ⊢
      exact hy
  · intro hb y hm
    have hys : y ≠ ssc := by
      rintro rfl
      simp at hm
    exact h.stored.clean hb y (by simp [hys])
  · intro p k d hp
    rcases Nat.lt_succ_iff_lt_or_eq.mp hp with hp | rfl
    · exact h.passed p k d hp
    · exact hcell k d

omit [DecidableEq Sid] in
/-- What is left of a recycling after a page was moved. -/
theorem Recycled.of_moved {pages : ℕ} {r : ℕ × ℕ} {l l' : Links QueueName Sid}
    (h : Recycled cfg content gap ssc dsc (dec32 pages) c' l' r s')
    (hp : Passed cfg ssc dsc 1 c c') (hl : erasedPages cfg c' dsc ≠ 0 → SameList .used l l') :
    Recycled cfg content gap ssc dsc pages c l r s' := by
  obtain ⟨hr, c'', loc'', hs', hroom⟩ := h
  refine ⟨hr, c'', loc'', hs', ?_⟩
  intro hlt hle
  have hlive := hp.live
  have herased := hp.erased
  rw [dec32_of_pos (by omega)] at hroom
  obtain ⟨hcount, hothers, hfilled, hsame⟩ := hroom (by omega) (by omega)
  refine ⟨by omega, ?_, by omega, (hl (by omega)).trans hsame⟩
  intro y hys hyd
  rw [hothers y hys hyd, hp.others y hys hyd]

theorem recyclePages_recycled (hc : Reliable cfg) (hok : ∀ x, ¬ ok (.noDst x)) (n : ℕ)
    (hn : spage + n = cfg.pages ssc) (pages : ℕ) (h : Recycling cfg content gap ssc spage c loc s)
    (hne : ssc ≠ dsc) (hdst : erasedPages cfg c dsc ≠ 0) :
    Ensures ok (recyclePages cfg ssc (List.range' spage n) dsc pages) s fun r s' =>
      Recycled cfg content gap ssc dsc pages c s.links r s' := by
  induction n generalizing spage dsc pages c loc s with
  | zero =>
    simp only [List.range'_zero, recyclePages, ensures_bind, ensures_pure]
    refine h.eraseSegment hc hne ?_ pages
    intro p k d hcell
    have hp := (h.stored.shows ssc).inside p k d hcell
    exact h.passed p k d (by omega) hcell
  | succ n ih =>
    have hsp : spage < cfg.pages ssc := by omega
    have hcell := (h.stored.shows ssc).cell spage hsp
    simp only [List.range'_succ, recyclePages, recyclePage, ensures_bind, ensures_get]
    cases hsrc : c ssc spage with
    | live block buffer =>
      rw [hsrc] at hcell
      rw [hcell.1, if_pos (by simp), ensures_bind]
      refine (movePage_recycling hc h hne hsrc hdst).mono ?_
      rintro _ s₁ ⟨rfl, c₁, loc₁, h₁, hpass, hsame⟩
      simp only [ne_eq, not_true, if_false, ensures_bind, ensures_get]
      rw [h₁.stored.shows.segPagesAvailable]
      split
      next hfull =>
        -- the destination is full: it is exchanged, and nothing is promised about the pages
        have hno : ¬ livePages cfg c ssc < erasedPages cfg c dsc := by
          have hlive := hpass.live
          have herased := hpass.erased
          rw [erasedPages, hfull] at herased
          omega
        rw [ensures_bind]
        refine segMostAvailable_ensures h₁.stored.settled.located (fun _ => ?_) fun d hd => ?_
        · simp only
          split
          next hactive =>
            simp only [ensures_bind, ensures_report, ensures_pure]
            intro _
            rw [(h₁.stored.shows ssc).active, tally_eq_zero] at hactive
            refine (h₁.eraseSegment hc hne ?_ pages).mono ?_
            · intro p k d hp
              have := hactive p ((h₁.stored.shows ssc).inside p k d hp)
              simp [hp, Cell.isLive] at this
            · rintro ret s₂ ⟨hr, c₂, loc₂, hs₂, -⟩
              exact ⟨hr, c₂, loc₂, hs₂, fun hlt => absurd hlt hno⟩
          next =>
            simp only [ensures_bind, ensures_report]
            exact fun hd => absurd hd (hok ssc)
        · have hned : ssc ≠ d := by
            rintro rfl
            rw [h₁.unlinked] at hd
            cases hd
          refine (ih (by omega) _ h₁ hned (h₁.stored.erased_of_available hd)).mono ?_
          rintro r s₂ ⟨hr, c₂, loc₂, hs₂, -⟩
          exact ⟨hr, c₂, loc₂, hs₂, fun hlt => absurd hlt hno⟩
      next hroom =>
        refine (ih (by omega) _ h₁ hne hroom).mono ?_
        intro r s₂ hr
        exact hr.of_moved hpass hsame
    | erased =>
      rw [hsrc] at hcell
      rw [hcell.1, if_neg (by decide), if_pos (by decide)]
      simp only [ensures_bind, ensures_modify]
      have hskip := h.skip (by simp [hsrc])
      exact ih (by omega) pages ⟨hskip.stored.congr ⟨rfl, rfl, rfl, rfl⟩, hskip.unlinked,
        hskip.passed⟩ hne hdst
    | stale =>
      rw [hsrc] at hcell
      have hused := hcell.2.resolve_left (by simp)
      have hskip := h.skip (by simp [hsrc])
      rw [hused]
      simp only [Bool.not_true, Bool.and_false, Bool.false_eq_true, if_false]
      split
      next hblank => exact absurd (pageDescErased_iff.mp hblank) (flagsSet_used_ne_blank hused)
      next => exact ih (by omega) pages hskip hne hdst

theorem recycleSegment_recycled (hc : Reliable cfg) (hok : ∀ x, ¬ ok (.noDst x)) (pages : ℕ)
    (h : Stored cfg content gap (fun _ => 0) c loc s) (hnone : loc ssc = none) (hne : ssc ≠ dsc)
    (hdst : erasedPages cfg c dsc ≠ 0) :
    Ensures ok (recycleSegment cfg ssc dsc pages) s fun r s' =>
      Recycled cfg content gap ssc dsc pages c s.links r s' := by
  have hstart : Recycling cfg content gap ssc 0 c loc s := by
    refine ⟨?_, hnone, by simp⟩
    rw [update_eq_self_iff.mpr rfl]
    exact h
  rw [recycleSegment, List.range_eq_range']
  exact recyclePages_recycled hc hok _ (Nat.zero_add _) pages hstart hne hdst

/-! ## Compaction -/

theorem recycleStarving_stores (hc : Reliable cfg) (hok : ∀ x, ¬ ok (.noDst x))
    (h : Stored cfg content gap (fun _ => 0) c loc s) (hnone : loc ssc = none) :
    Ensures ok (recycleStarving cfg ssc) s fun _ => Stores cfg content gap := by
  simp only [recycleStarving, ensures_bind]
  refine segMostAvailable_ensures h.settled.located (fun _ => ?_) fun dsc hdsc => ?_
  · -- the segment is lost, but its pages stay where they are
    simp only [ensures_bind, ensures_report, ensures_pure]
    exact fun _ => ⟨c, loc, h⟩
  · simp only [ensures_bind, ensures_pure]
    have hne : ssc ≠ dsc := by
      rintro rfl
      rw [hnone] at hdsc
      cases hdsc
    refine (recycleSegment_recycled hc hok 0 h hnone hne (h.erased_of_available hdsc)).mono ?_
    rintro r s' ⟨-, c', loc', hs', -⟩
    exact ⟨c', loc', hs'⟩

theorem resolveStarvation_stores (hc : Reliable cfg) (hok : ∀ x, ¬ ok (.noDst x))
    (h : Stores cfg content gap s) :
    Ensures ok (resolveStarvation cfg) s fun _ => Stores cfg content gap := by
  obtain ⟨c, loc, h⟩ := h
  simp only [resolveStarvation, ensures_bind]
  refine popHead_ensures h.settled.located (fun _ => ?_) fun ssc l hssc hl _ _ =>
    recycleStarving_stores hc hok (h.unlink hl hssc) (update_self _ _ _)
  rw [ensures_bind]
  refine popHead_ensures h.settled.located (fun _ => ?_) fun ssc l hssc hl _ _ =>
    recycleStarving_stores hc hok (h.unlink hl hssc) (update_self _ _ _)
  rw [ensures_pure]
  exact ⟨c, loc, h⟩

omit [DecidableEq Sid] in
/-- The scan of the used queue takes a prefix whose pages fit. -/
theorem scanUsed_prefix (h : Shows cfg c (fun _ => 0) s) (dstPages budget : ℕ) {ssc : Option Sid}
    {xs : List Sid} (hpath : LinkedQueue.Path s.links.next ssc xs none) (pages segments : ℕ)
    (hlt : pages + (xs.map (livePages cfg c)).sum < 4294967296) :
    ∃ ys zs, xs = ys ++ zs ∧
      (scanUsed s dstPages budget ssc pages segments).2.1 = pages + (ys.map (livePages cfg c)).sum ∧
      (ys = [] ∨ (scanUsed s dstPages budget ssc pages segments).2.1 < dstPages) := by
  induction budget generalizing ssc xs pages segments with
  | zero => exact ⟨[], xs, rfl, rfl, Or.inl rfl⟩
  | succ budget ih =>
    cases xs with
    | nil =>
      cases hpath
      exact ⟨[], [], rfl, rfl, Or.inl rfl⟩
    | cons x xs =>
      obtain ⟨rfl, hpath⟩ := hpath
      have hactive : (s.seg x).pagesActive = livePages cfg c x := (h x).active
      simp only [List.map_cons, List.sum_cons] at hlt
      have hmod : (pages + (s.seg x).pagesActive) % 4294967296 = pages + livePages cfg c x := by
        rw [hactive]
        omega
      simp only [scanUsed, hmod]
      split
      next hfit =>
        obtain ⟨ys, zs, rfl, hsum, hlast⟩ := ih hpath (pages + livePages cfg c x)
          (segments + 1) (by omega)
        refine ⟨x :: ys, zs, rfl, ?_, ?_⟩
        · rw [hsum, List.map_cons, List.sum_cons]
          omega
        · rcases hlast with rfl | hlast
          · right
            rw [hsum]
            simpa using hfit
          · exact Or.inr hlast
      next => exact ⟨[], x :: xs, rfl, rfl, Or.inl rfl⟩

theorem copyLoop_stores (hc : Reliable cfg) (hok : ∀ x, ¬ ok (.noDst x)) (turns : ℕ)
    {pages counted : ℕ}
    {xs ys : List Sid} (h : Stored cfg content gap (fun _ => 0) c loc s)
    (hpath : LinkedQueue.Path s.links.next (s.links.queue .used).head (xs ++ ys) none)
    (hsum : (xs.map (livePages cfg c)).sum = pages) (hroom : pages < erasedPages cfg c dsc) :
    Ensures ok (copyLoop cfg dsc counted turns pages) s fun _ => Stores cfg content gap := by
  induction turns generalizing pages xs s c loc with
  | zero => simp [copyLoop]
  | succ turns ih =>
    simp only [copyLoop]
    split
    next =>
      rw [ensures_pure]
      exact ⟨c, loc, h⟩
    next hpages =>
      rw [ensures_bind]
      refine popHead_ensures h.settled.located (fun _ => ih h hpath hsum hroom) ?_
      intro ssc l hssc hl _ hpop
      cases xs with
      | nil => exact absurd hsum.symm hpages
      | cons x xs =>
        obtain ⟨zs, hzs, hpath'⟩ := hpop _ hpath
        obtain ⟨rfl, rfl⟩ := List.cons.inj hzs
        have hnodup := hpath.nodup
        rw [List.map_cons, List.sum_cons] at hsum
        -- no segment of the used queue is the destination
        have hneq : ∀ z ∈ x :: (xs ++ ys), z ≠ dsc := by
          rintro z hz rfl
          have hloc := (h.settled.located.mem_path hpath z).mp hz
          have hfull := h.shows.place_eq_used.mp (h.place_of_loc hloc)
          exact absurd hfull.1 (by rw [← erasedPages]; omega)
        simp only [ensures_bind, ensures_get]
        refine (recycleSegment_recycled hc hok pages (h.unlink hl hssc) (update_self _ _ _)
          (hneq x (by simp)) (by omega)).mono ?_
        rintro r s₁ ⟨hr, c₁, loc₁, hs₁, hmoved⟩
        obtain ⟨hcount, hothers, hfilled, hsame⟩ := hmoved (by omega) (by omega)
        rw [if_neg (not_not.mpr hr)]
        refine ih hs₁ (hsame _ hpath') ?_ (by omega)
        have hmap : xs.map (livePages cfg c₁) = xs.map (livePages cfg c) := by
          refine List.map_congr_left fun z hz => ?_
          rw [livePages, hothers z ?_ (hneq z (by simp [hz])), livePages]
          rintro rfl
          simp [hz] at hnodup
        rw [hmap]
        omega

theorem compactLoop_stores (hc : Reliable cfg) (hok : ∀ x, ¬ ok (.noDst x))
    (turns left compactedSegs : ℕ) (h : Stores cfg content gap s) :
    Ensures ok (compactLoop cfg turns left compactedSegs) s fun _ => Stores cfg content gap := by
  induction left generalizing compactedSegs s with
  | zero => simp [compactLoop]
  | succ left ih =>
    obtain ⟨c, loc, h⟩ := h
    simp only [compactLoop, ensures_bind, ensures_get]
    split
    · rw [ensures_pure]
      exact ⟨c, loc, h⟩
    · rw [ensures_bind]
      refine segMostAvailable_ensures h.settled.located (fun _ => ?_) fun dsc hdsc => ?_
      · rw [ensures_pure]
        exact ⟨c, loc, h⟩
      · simp only
        split
        · rw [ensures_pure]
          exact ⟨c, loc, h⟩
        next hgo =>
          simp only [Bool.or_eq_true, decide_eq_true_eq, not_or] at hgo
          simp only [ensures_bind]
          refine remove_ensures h.settled.located fun l hl hsame => ?_
          rw [if_pos hdsc] at hl
          obtain ⟨xs, -, hnodup, -, hpath⟩ := h.settled.located.elements (q := .used)
          obtain ⟨ys, zs, rfl, hsum, hfit⟩ := scanUsed_prefix h.shows (segPagesAvailable cfg s dsc)
            (cfg.compactSegs - compactedSegs) hpath 0 0
            (by rw [Nat.zero_add]; exact cfg.sum_lt (fun _ => tally_le _ _ _) hnodup)
          have hroom := hfit.resolve_left fun hnil => hgo.1.2 (by rw [hsum, hnil]; rfl)
          refine (copyLoop_stores hc hok turns (h.unlink hl hdsc)
            (hsame .used (Or.inr (by simp)) _ hpath) ?_
            (hroom.trans_eq (h.shows.segPagesAvailable dsc))).mono ?_
          · rw [hsum, Nat.zero_add]
          · intro ret s₁ hs₁
            split
            · rw [ensures_pure]
              exact hs₁
            · exact ih _ hs₁

theorem compact_stores {turns : ℕ} (hc : Reliable cfg) (hok : ∀ x, ¬ ok (.noDst x))
    (h : Stores cfg content gap s) :
    Ensures ok (compact cfg turns) s fun _ => Stores cfg content gap := by
  simp only [compact, ensures_bind, ensures_get]
  split
  · rw [ensures_bind]
    refine (resolveStarvation_stores hc hok h).mono fun ret s₁ hs₁ => ?_
    split
    · rw [ensures_pure]
      exact hs₁
    · exact compactLoop_stores hc hok _ _ _ hs₁
  · exact compactLoop_stores hc hok _ _ _ h

theorem compactIf_stores {turns : ℕ} {wanted : Bool} (hc : Reliable cfg)
    (hok : ∀ x, ¬ ok (.noDst x)) (h : Stores cfg content gap s) :
    Ensures ok (compactIf cfg turns wanted) s fun _ => Stores cfg content gap := by
  unfold compactIf
  split
  · simp only [ensures_bind, ensures_pure]
    exact compact_stores hc hok h
  · rw [ensures_pure]
    exact h

/-! ## Erasing the used segments -/

theorem eraseUsedLoop_stores (hc : Reliable cfg) (turns latched : ℕ)
    (h : Stores cfg content gap s) :
    Ensures ok (eraseUsedLoop cfg turns latched) s fun _ => Stores cfg content gap := by
  induction turns generalizing latched s with
  | zero => simp [eraseUsedLoop]
  | succ turns ih =>
    obtain ⟨c, loc, h⟩ := h
    simp only [eraseUsedLoop, ensures_bind]
    refine popHead_ensures h.settled.located (fun _ => ?_) fun sc l hsc hl _ _ => ?_
    · rw [ensures_pure]
      exact ⟨c, loc, h⟩
    · simp only [ensures_bind, ensures_get, ensures_report]
      intro _
      have hlive : ∀ p k d, c sc p ≠ .live k d := by
        intro p k d hcell
        exact h.shows.place_ne_erase hcell (h.place_of_loc hsc)
      refine (eraseSegment_stored hc ((h.unlink hl hsc).storing sc) (update_self _ _ _) hlive).mono ?_
      rintro ret s₁ ⟨-, hs₁, -⟩
      rw [update_eq_self_iff.mpr rfl] at hs₁
      exact ih _ ⟨_, _, hs₁⟩

end Rtems.FlashDisk
