import Rtems.FlashDisk.Queues

/-!
# Every segment on its queue

The four queues hold every segment control once, each on the queue its pages ask for, as long as no
exit of the code leaves a segment behind.  The exits that do are told by their events: a segment is
marked failed or queued again while it is still linked somewhere, a recycling gives back a source that
does not belong on the used queue, or a segment that was taken off a queue is forgotten.
-/

namespace Rtems.FlashDisk

open Function Rtems.LinkedQueue Rtems.Traced

variable {Sid : Type} [DecidableEq Sid] {cfg : Config Sid} {held : Sid → Prop}
  {s s' : Disk Sid} {loc : Sid → Option QueueName} {x : Sid}

/-- The event finds the segments where the code takes them to be. -/
def Event.Orderly : Event Sid → Prop
  | .queueSeg _ q => q.erase = false
  | .failed _ q => q.available = false ∧ q.used = false ∧ q.erase = false
  | .recycle ssc dsc => ssc ≠ dsc
  | .giveBack _ available active => available = 0 ∧ active ≠ 0
  | .noDst _ => False
  | .starvation _ => False
  | .stopped _ moved toMove => moved ∨ toMove
  | .noSpace _ _ => True
  | .write .. => True
  | .eraseEarly _ _ => True
  | .keep _ _ => True
  | .flag _ _ => True
  | .eraseQueued _ _ => True

/-- Every segment is on its queue, except held ones that are on none. -/
structure Settled (cfg : Config Sid) (held : Sid → Prop) (s : Disk Sid)
    (loc : Sid → Option QueueName) : Prop where
  located : Located cfg.segments s.links loc
  placed : ∀ x, loc x = some (place cfg s x) ∨ held x ∧ loc x = none

/-- The same without `x`, which is about to be queued; the failed queue still tells whether it
failed. -/
structure Unsettled (cfg : Config Sid) (held : Sid → Prop) (x : Sid) (s : Disk Sid)
    (loc : Sid → Option QueueName) : Prop where
  located : Located cfg.segments s.links loc
  placed : ∀ y, y ≠ x → loc y = some (place cfg s y) ∨ held y ∧ loc y = none
  failed : (s.seg x).failed = true → loc x = none ∨ loc x = some .failed
  live : (s.seg x).failed = false → loc x ≠ some .failed

/-- The segments are partitioned by the queues. -/
def Whole (cfg : Config Sid) (s : Disk Sid) : Prop := ∃ loc, Settled cfg (fun _ => False) s loc

omit [DecidableEq Sid] in
theorem Settled.unsettled (h : Settled cfg held s loc) (x : Sid) : Unsettled cfg held x s loc := by
  refine ⟨h.located, fun y _ => h.placed y, ?_, ?_⟩
  · intro hf
    rcases h.placed x with hx | ⟨-, hx⟩
    · rw [place_eq_failed.mpr hf] at hx
      exact Or.inr hx
    · exact Or.inl hx
  · intro hf hx
    rcases h.placed x with hp | ⟨-, hp⟩
    · rw [hx, Option.some.injEq, eq_comm, place_eq_failed] at hp
      simp [hp] at hf
    · simp [hp] at hx

omit [DecidableEq Sid] in
theorem Settled.mono {held' : Sid → Prop} (h : Settled cfg held s loc)
    (hh : ∀ y, held y → loc y = none → held' y) : Settled cfg held' s loc :=
  ⟨h.located, fun y => (h.placed y).imp_right fun hy => ⟨hh y hy.1 hy.2, hy.2⟩⟩

omit [DecidableEq Sid] in
/-- Controls change at `x` and at held segments only. -/
theorem Unsettled.modify (h : Unsettled cfg held x s loc) (hl : s'.links = s.links)
    (hs : ∀ y, y ≠ x → s'.seg y = s.seg y ∨ held y ∧ loc y = none)
    (hf : (s'.seg x).failed = (s.seg x).failed) : Unsettled cfg held x s' loc := by
  refine ⟨hl ▸ h.located, ?_, hf ▸ h.failed, hf ▸ h.live⟩
  intro y hy
  rcases hs y hy with hsy | hh
  · rw [place_congr hsy]
    exact h.placed y hy
  · exact Or.inr hh

/-! ## Queueing and erasing -/

/-- The segment is settled and the others are as they were. -/
def Settles (cfg : Config Sid) (held : Sid → Prop) (x : Sid) (s : Disk Sid)
    (loc : Sid → Option QueueName) (s' : Disk Sid) : Prop :=
  ∃ q, Settled cfg held s' (update loc x (some q)) ∧ ∀ y, y ≠ x → s'.seg y = s.seg y

theorem Unsettled.settles {q : QueueName} (h : Unsettled cfg held x s loc)
    (hl : Located cfg.segments s'.links (update loc x (some q)))
    (hs : ∀ y, y ≠ x → s'.seg y = s.seg y) (hq : place cfg s' x = q) :
    Settles cfg held x s loc s' := by
  refine ⟨q, ⟨hl, ?_⟩, hs⟩
  intro y
  by_cases hy : y = x
  · subst hy
    simp [hq]
  · rw [update_of_ne hy, place_congr (hs y hy)]
    exact h.placed y hy

theorem eraseSegment_settles (h : Unsettled cfg held x s loc) (hx : loc x = none) :
    Ensures Event.Orderly (eraseSegment cfg x) s fun _ => Settles cfg held x s loc := by
  refine eraseSegment_ensures h.located hx ?_ ?_
  · intro _ l hl _
    refine h.settles hl (fun y hy => update_of_ne hy _ _) (place_eq_available.mpr ⟨?_, ?_⟩)
    · simp [Disk.erased, Disk.updSeg]
    · have hpos := cfg.pages_pos x
      have hlt := cfg.pages_lt x
      simp only [Disk.erased, Disk.updSeg, segPagesAvailable, update_self]
      omega
  · intro e _ l hl
    refine h.settles hl (fun y hy => update_of_ne hy _ _) (place_eq_failed.mpr ?_)
    simp [Disk.faulted, Disk.updSeg]

theorem queueSegment_settles (h : Unsettled cfg held x s loc) :
    Ensures Event.Orderly (queueSegment cfg x) s fun _ => Settles cfg held x s loc := by
  refine queueSegment_ensures h.located h.failed h.live ?_ ?_ ?_
  · intro hok
    simpa [Event.Orderly, queueStatus_eq h.located] using hok
  · intro _ l hl _
    exact h.settles hl (fun _ _ => rfl) (place_congr rfl)
  · intro hpl _ l hl _
    have hun : Unsettled cfg held x { s with links := l } (update loc x none) := by
      refine ⟨hl, ?_, by simp, by simp⟩
      intro y hy
      rw [update_of_ne hy]
      exact h.placed y hy
    refine (eraseSegment_settles hun (update_self _ _ _)).mono ?_
    rintro _ s' ⟨q, hs', hseg⟩
    rw [update_idem] at hs'
    exact ⟨q, hs', hseg⟩

/-! ## Driver calls -/

/-- A driver call on `x` leaves the queues and the other controls alone. -/
def Keeps (cfg : Config Sid) (held : Sid → Prop) (x : Sid) (s : Disk Sid)
    (loc : Sid → Option QueueName) (s' : Disk Sid) : Prop :=
  Unsettled cfg held x s' loc ∧ ∀ y, y ≠ x → s'.seg y = s.seg y

/-- A call that only asks leaves the queues and all controls alone. -/
def Asks (s s' : Disk Sid) : Prop := s'.links = s.links ∧ s'.seg = s.seg

omit [DecidableEq Sid] in
theorem Unsettled.asks (h : Unsettled cfg held x s loc) (ha : Asks s s') :
    Keeps cfg held x s loc s' := by
  refine ⟨h.modify ha.1 ?_ (by rw [ha.2]), fun y _ => by rw [ha.2]⟩
  intro y _
  exact Or.inl (by rw [ha.2])

omit [DecidableEq Sid] in
theorem Keeps.trans {s'' : Disk Sid} (h : Keeps cfg held x s loc s')
    (h' : Keeps cfg held x s' loc s'') : Keeps cfg held x s loc s'' :=
  ⟨h'.1, fun y hy => (h'.2 y hy).trans (h.2 y hy)⟩

omit [DecidableEq Sid] in
theorem segTest_asks {ok : Event Sid → Prop} {f : FlashSegment → Bool} :
    Ensures ok (segTest cfg x f) s fun _ => Asks s := by
  simp only [segTest, driverCall, ensures_bind, ensures_get, ensures_modify, ensures_pure]
  cases cfg.fault s.calls <;> simp [Asks]

omit [DecidableEq Sid] in
theorem segRead_asks {ok : Event Sid → Prop} {α : Type} {f : FlashSegment → α} :
    Ensures ok (segRead cfg x f) s fun _ => Asks s := by
  simp only [segRead, driverCall, ensures_bind, ensures_get, ensures_modify, ensures_pure]
  cases cfg.fault s.calls <;> simp [Asks]

omit [DecidableEq Sid] in
theorem segRead_error_ne {ok : Event Sid → Prop} {α : Type} {f : FlashSegment → α} :
    Ensures ok (segRead cfg x f) s fun r _ => ∀ ret, r = .error ret → ret ≠ 0 := by
  simp only [segRead, driverCall, ensures_bind, ensures_get, ensures_modify, ensures_pure]
  cases cfg.fault s.calls with
  | none => simp
  | some e => simpa using e.errno_ne

/-- Marking a segment failed is orderly when it is on no queue but the failed one. -/
theorem setFailed_keeps (h : Unsettled cfg held x s loc) :
    Ensures Event.Orderly (setFailed cfg x) s fun _ => Keeps cfg held x s loc := by
  simp only [setFailed, ensures_bind, ensures_get, ensures_report, ensures_modify]
  intro hok
  rw [queueStatus_eq h.located] at hok
  simp only [Event.Orderly, decide_eq_false_iff_not] at hok
  have hseg : ∀ y, y ≠ x → (s.updSeg x fun g => { g with failed := true }).seg y = s.seg y :=
    fun y hy => update_of_ne hy _ _
  refine ⟨⟨h.located, ?_, ?_, ?_⟩, hseg⟩
  · intro y hy
    rw [place_congr (hseg y hy)]
    exact h.placed y hy
  · intro _
    rcases hlx : loc x with _ | q
    · exact Or.inl rfl
    · cases q with
      | available => exact absurd hlx hok.1
      | used => exact absurd hlx hok.2.1
      | erase => exact absurd hlx hok.2.2
      | failed => exact Or.inr rfl
  · simp [Disk.updSeg]

theorem segWrite_keeps {part : Part} {page : ℕ} {f : FlashSegment → FlashSegment}
    (h : Unsettled cfg held x s loc) :
    Ensures Event.Orderly (segWrite cfg x part page f) s fun _ => Keeps cfg held x s loc := by
  simp only [segWrite, driverCall, ensures_bind, ensures_get, ensures_modify, ensures_report,
    ensures_pure]
  intro _
  cases cfg.fault s.calls with
  | none =>
    simp only [setFlash, ensures_bind, ensures_modify, ensures_pure]
    exact h.asks ⟨rfl, rfl⟩
  | some e =>
    simp only [setFlash, ensures_bind, ensures_modify, ensures_pure]
    have hk : Keeps cfg held x s loc
        { s with
          flash := update s.flash (cfg.address x) e.residue
          calls := s.calls + 1 } := h.asks ⟨rfl, rfl⟩
    exact (setFailed_keeps hk.1).mono fun _ s' hs' => hk.trans hs'

omit [DecidableEq Sid] in
theorem blankCheckFirst_keeps {check write : Fdisk Sid ℕ}
    (hc : Ensures Event.Orderly check s fun _ => Asks s)
    (hw : ∀ s₁, Keeps cfg held x s loc s₁ →
      Ensures Event.Orderly write s₁ fun _ => Keeps cfg held x s₁ loc)
    (h : Unsettled cfg held x s loc) :
    Ensures Event.Orderly (blankCheckFirst cfg check write) s fun _ => Keeps cfg held x s loc := by
  unfold blankCheckFirst
  split
  · rw [ensures_bind]
    refine hc.mono fun ret s₁ hs₁ => ?_
    have hk := h.asks hs₁
    split
    · exact (hw s₁ hk).mono fun _ s₂ hs₂ => hk.trans hs₂
    · rw [ensures_pure]
      exact hk
  · have hk : Keeps cfg held x s loc s := h.asks ⟨rfl, rfl⟩
    exact (hw s hk).mono fun _ s₂ hs₂ => hk.trans hs₂

theorem segWritePage_keeps {page : ℕ} {buffer : Page} (h : Unsettled cfg held x s loc) :
    Ensures Event.Orderly (segWritePage cfg x page buffer) s fun _ => Keeps cfg held x s loc := by
  refine blankCheckFirst_keeps segTest_asks (fun s₁ hs₁ => ?_) h
  simp only [ensures_bind, ensures_modify]
  have hk : Keeps cfg held x s₁ loc { s₁ with erasedBlocks := dec32 s₁.erasedBlocks } :=
    hs₁.1.asks ⟨rfl, rfl⟩
  exact (segWrite_keeps hk.1).mono fun _ s₂ hs₂ => hk.trans hs₂

theorem segWritePageDesc_keeps {page : ℕ} {pd : PageDesc} (h : Unsettled cfg held x s loc) :
    Ensures Event.Orderly (segWritePageDesc cfg x page pd) s fun _ => Keeps cfg held x s loc :=
  blankCheckFirst_keeps segTest_asks (fun _ hs₁ => segWrite_keeps hs₁.1) h

theorem segCopyPage_keeps {src : Sid} {spage dpage : ℕ} (h : Unsettled cfg held x s loc) :
    Ensures Event.Orderly (segCopyPage cfg src spage x dpage) s fun _ =>
      Keeps cfg held x s loc := by
  simp only [segCopyPage, segReadPage, ensures_bind]
  refine segRead_asks.mono fun r s₁ hs₁ => ?_
  have hk := h.asks hs₁
  cases r with
  | error ret =>
    simp only [ensures_pure]
    exact hk
  | ok buffer => exact (segWritePage_keeps hk.1).mono fun _ s₂ hs₂ => hk.trans hs₂

theorem segWritePageDescFlags_keeps {page : ℕ} {pd : PageDesc} (h : Unsettled cfg held x s loc) :
    Ensures Event.Orderly (segWritePageDescFlags cfg x page pd) s fun _ =>
      Keeps cfg held x s loc := by
  simp only [segWritePageDescFlags]
  split
  · rw [ensures_bind]
    refine segRead_asks.mono fun r s₁ hs₁ => ?_
    have hk := h.asks hs₁
    cases r with
    | error ret =>
      simp only [ensures_pure]
      exact hk
    | ok flags =>
      simp only
      split
      · exact (segWrite_keeps hk.1).mono fun _ s₂ hs₂ => hk.trans hs₂
      · rw [ensures_pure]
        exact hk
  · exact segWrite_keeps h

/-! ## Recycling -/

section Recycling

variable {H : Sid → Prop} {ssc dsc : Sid} {ret : ℕ}

/-- The source of a recycling is on no queue and has not failed; the segments of `H` may be on none. -/
structure Recycles (cfg : Config Sid) (H : Sid → Prop) (ssc : Sid) (s : Disk Sid) : Prop where
  live : (s.seg ssc).failed = false
  settled : ∃ loc, Settled cfg (fun y => y = ssc ∨ H y) s loc ∧ loc ssc = none

omit [DecidableEq Sid] in
theorem Settled.asks (h : Settled cfg held s loc) (ha : Asks s s') : Settled cfg held s' loc := by
  refine ⟨ha.1 ▸ h.located, fun y => ?_⟩
  rw [place_congr (congrFun ha.2 y)]
  exact h.placed y

omit [DecidableEq Sid] in
theorem Recycles.asks (h : Recycles cfg H ssc s) (ha : Asks s s') : Recycles cfg H ssc s' := by
  obtain ⟨hlive, loc, hset, hnone⟩ := h
  exact ⟨by rw [ha.2, hlive], loc, hset.asks ha, hnone⟩

/-- The source, on no queue, is put where it belongs. -/
theorem Settled.release {q : QueueName} {l : Links QueueName Sid}
    (h : Settled cfg (fun y => y = ssc ∨ H y) s loc)
    (hl : Located cfg.segments l (update loc ssc (some q))) (hq : place cfg s ssc = q) :
    Settled cfg H { s with links := l } (update loc ssc (some q)) := by
  refine ⟨hl, ?_⟩
  intro y
  by_cases hy : y = ssc
  · subst hy
    rw [update_self, ← hq]
    exact Or.inl (congrArg some (place_congr rfl).symm)
  · rw [update_of_ne hy]
    rcases h.placed y with hp | ⟨hyh, hp⟩
    · exact Or.inl hp
    · exact Or.inr ⟨hyh.resolve_left hy, hp⟩

omit [DecidableEq Sid] in
/-- A destination that is on a queue is not held any more. -/
theorem held_settled {q : QueueName} (hd : loc dsc = some q) :
    ∀ y, (y = ssc ∨ H y) → loc y = none → y = ssc ∨ H y ∧ y ≠ dsc := by
  rintro y (rfl | hy) hnone
  · exact .inl rfl
  · refine .inr ⟨hy, ?_⟩
    rintro rfl
    rw [hd] at hnone
    cases hnone

theorem giveUp_settles (h : Unsettled cfg (fun y => y = ssc ∨ H y) dsc s loc) (hne : ssc ≠ dsc)
    (hnone : loc ssc = none) (hlive : (s.seg ssc).failed = false) :
    Ensures Event.Orderly (giveUp cfg ssc dsc ret) s fun r s' =>
      r = ret ∧ ∃ loc', Settled cfg (fun y => H y ∧ y ≠ dsc) s' loc' := by
  simp only [giveUp, ensures_bind, ensures_get, ensures_report, ensures_pure]
  refine (queueSegment_settles h).mono ?_
  rintro _ s₁ ⟨q, hs₁, hseg⟩ hok
  have hplace : place cfg s₁ ssc = .used := place_eq_used.mpr ⟨by rw [hseg ssc hne, hlive], hok⟩
  have hs₁ := hs₁.mono (held_settled (update_self ..))
  refine pushHead_ensures hs₁.located (by rw [update_of_ne hne, hnone]) fun l hl _ => ?_
  exact ⟨trivial, _, hs₁.release hl hplace⟩

/-- The destination is settled, with the page or without. -/
theorem movePage_settles {spage : ℕ} (h : Recycles cfg H ssc s) :
    Ensures Event.Orderly (movePage cfg ssc spage dsc) s fun r s' =>
      if r = 0 then Recycles cfg (fun y => H y ∧ y ≠ dsc) ssc s'
      else ∃ loc', Settled cfg (fun y => H y ∧ y ≠ dsc) s' loc' := by
  obtain ⟨hlive, loc, hset, hnone⟩ := h
  simp only [movePage, ensures_bind, ensures_get, ensures_report]
  intro hok
  have hne : ssc ≠ dsc := hok
  have hun := hset.unsettled dsc
  split
  next =>
    rw [ensures_bind]
    refine (setFailed_keeps hun).mono fun _ s₁ hs₁ => ?_
    refine (giveUp_settles hs₁.1 hne hnone (by rw [hs₁.2 ssc hne, hlive])).mono ?_
    rintro _ s₂ ⟨rfl, hs₂⟩
    exact hs₂
  next =>
    rw [ensures_bind]
    refine (segCopyPage_keeps hun).mono fun ret s₁ hs₁ => ?_
    split
    next hret =>
      refine (giveUp_settles hs₁.1 hne hnone (by rw [hs₁.2 ssc hne, hlive])).mono ?_
      rintro _ s₂ ⟨rfl, hs₂⟩
      rw [if_neg hret]
      exact hs₂
    next =>
      simp only [ensures_bind, ensures_modify]
      generalize hd : (SegmentCtl.setDesc · (segNextAvailablePage cfg s dsc)
        ((s.seg ssc).pageDescriptors spage)) = setd
      have hk : Keeps cfg (fun y => y = ssc ∨ H y) dsc s₁ loc (s₁.updSeg dsc setd) := by
        have hseg : ∀ y, y ≠ dsc → (s₁.updSeg dsc setd).seg y = s₁.seg y :=
          fun y hy => update_of_ne hy _ _
        refine ⟨hs₁.1.modify rfl (fun y hy => Or.inl (hseg y hy)) ?_, hseg⟩
        simp [Disk.updSeg, ← hd, SegmentCtl.setDesc]
      have hk := hs₁.trans hk
      refine (segWritePageDesc_keeps hk.1).mono fun ret s₂ hs₂ => ?_
      have hk₂ := hk.trans hs₂
      split
      next hret =>
        refine (giveUp_settles hk₂.1 hne hnone (by rw [hk₂.2 ssc hne, hlive])).mono ?_
        rintro _ s₃ ⟨rfl, hs₃⟩
        rw [if_neg hret]
        exact hs₃
      next =>
        simp only [ensures_bind, ensures_modify, ensures_pure, if_true]
        have hun₂ : Unsettled cfg (fun y => y = ssc ∨ H y) dsc
            (s₂.countMove ssc dsc (segNextAvailablePage cfg s dsc)
              ((s.seg ssc).pageDescriptors spage).block) loc := by
          refine hk₂.1.modify rfl ?_ ?_
          · intro y hy
            by_cases hys : y = ssc
            · exact Or.inr ⟨Or.inl hys, hys ▸ hnone⟩
            · left
              simp [Disk.countMove, Disk.updSeg, hy, hys]
          · simp [Disk.countMove, Disk.updSeg, Ne.symm hne]
        refine (queueSegment_settles hun₂).mono ?_
        rintro _ s₃ ⟨q, hs₃, hseg⟩
        have hs₃ := hs₃.mono (held_settled (update_self ..))
        refine ⟨?_, _, hs₃, by rw [update_of_ne hne, hnone]⟩
        rw [hseg ssc hne]
        simp [Disk.countMove, Disk.updSeg, SegmentCtl.retirePage, hne, hk₂.2 ssc hne, hlive]

/-- The source is erased and settled. -/
theorem Recycles.eraseSegment (h : Recycles cfg H ssc s) :
    Ensures Event.Orderly (eraseSegment cfg ssc) s fun _ s' => ∃ loc', Settled cfg H s' loc' := by
  obtain ⟨-, loc, hset, hnone⟩ := h
  refine (eraseSegment_settles (hset.unsettled ssc) hnone).mono ?_
  rintro _ s₁ ⟨q, hs₁, -⟩
  refine ⟨_, hs₁.mono ?_⟩
  rintro y (rfl | hy) hloc
  · simp at hloc
  · exact hy

/-- One turn of the loop, with what the rest of it comes to when the page was moved and when it was
passed. -/
theorem recyclePage_settles {spage pages : ℕ} {next : Sid → ℕ → Fdisk Sid (ℕ × ℕ)}
    {post : ℕ × ℕ → Disk Sid → Prop} (h : Recycles cfg H ssc s)
    (hmoved : ∀ d p s₁, Recycles cfg (fun y => H y ∧ y ≠ dsc) ssc s₁ →
      Ensures Event.Orderly (next d p) s₁ fun _ s' =>
        ∃ loc', Settled cfg (fun y => H y ∧ y ≠ dsc) s' loc')
    (hpassed : ∀ s₁, Asks s s₁ →
      (pageDescFlagsSet ((s.seg ssc).pageDescriptors spage) pageActive &&
        !pageDescFlagsSet ((s.seg ssc).pageDescriptors spage) pageUsed) = false →
      Ensures Event.Orderly (next dsc pages) s₁ post)
    (hpost : ∀ r s', (∃ loc', Settled cfg (fun y => H y ∧ y ≠ dsc) s' loc') → post r s') :
    Ensures Event.Orderly (recyclePage cfg ssc spage next dsc pages) s post := by
  simp only [recyclePage, ensures_bind, ensures_get]
  split
  next =>
    rw [ensures_bind]
    refine (movePage_settles h).mono fun ret s₁ hs₁ => ?_
    rw [ensures_bind, ensures_get]
    split
    next hret =>
      simp only [ensures_bind, ensures_report, ensures_pure]
      intro _
      rw [if_neg hret] at hs₁
      exact hpost _ s₁ hs₁
    next hret =>
      rw [if_pos (not_not.mp hret)] at hs₁
      split
      next =>
        rw [ensures_bind]
        obtain ⟨-, loc, hset, -⟩ := id hs₁
        refine segMostAvailable_ensures hset.located (fun _ => ?_) fun d _ =>
          (hmoved d _ s₁ hs₁).mono hpost
        simp only
        split
        · simp only [ensures_bind, ensures_report, ensures_pure]
          exact fun _ => hs₁.eraseSegment.mono fun _ => hpost _
        · simp only [ensures_bind, ensures_report]
          exact fun hok => hok.elim
      next => exact (hmoved dsc _ s₁ hs₁).mono hpost
  next hpass =>
    have hpass := eq_false_of_ne_true hpass
    split
    next =>
      simp only [ensures_bind, ensures_modify]
      exact hpassed _ ⟨rfl, rfl⟩ hpass
    next => exact hpassed s ⟨rfl, rfl⟩ hpass

theorem recyclePages_settles (rest : List ℕ) (dsc : Sid) (pages : ℕ) (s : Disk Sid)
    (h : Recycles cfg H ssc s) :
    Ensures Event.Orderly (recyclePages cfg ssc rest dsc pages) s fun _ s' =>
      ∃ loc', Settled cfg H s' loc' := by
  induction rest generalizing H dsc pages s with
  | nil =>
    simp only [recyclePages, ensures_bind, ensures_pure]
    exact h.eraseSegment
  | cons spage rest ih =>
    refine recyclePage_settles h (fun d p s₁ hs₁ => ih d p s₁ hs₁)
      (fun s₁ hs₁ _ => ih dsc pages s₁ (h.asks hs₁)) ?_
    rintro _ s₁ ⟨loc, hset⟩
    exact ⟨loc, hset.mono fun y hy _ => hy.1⟩

/-- A destination that was taken off its queue is on one again as soon as a page was to be moved. -/
theorem recyclePages_places (rest : List ℕ) (pages : ℕ) (s : Disk Sid)
    (h : Recycles cfg (· = dsc) ssc s) :
    Ensures Event.Orderly (recyclePages cfg ssc rest dsc pages) s fun r s' =>
      Whole cfg s' ∨ (∃ loc', Settled cfg (· = dsc) s' loc') ∧ r.2 = pages ∧
        (rest.any fun page => pageDescFlagsSet ((s.seg ssc).pageDescriptors page) pageActive &&
          !pageDescFlagsSet ((s.seg ssc).pageDescriptors page) pageUsed) = false := by
  induction rest generalizing s with
  | nil =>
    simp only [recyclePages, ensures_bind, ensures_pure]
    exact h.eraseSegment.mono fun _ _ hs₁ => .inr ⟨hs₁, trivial, rfl⟩
  | cons spage rest ih =>
    refine recyclePage_settles h (fun d p s₁ hs₁ => recyclePages_settles rest d p s₁ hs₁) ?_ ?_
    · intro s₁ hs₁ hpass
      refine (ih s₁ (h.asks hs₁)).mono fun r s₂ hs₂ => hs₂.imp_right ?_
      rintro ⟨hset, hr, hrest⟩
      refine ⟨hset, hr, ?_⟩
      rw [hs₁.2] at hrest
      rw [List.any_cons, hpass, hrest]
      rfl
    · rintro _ s₁ ⟨loc, hset⟩
      exact .inl ⟨loc, hset.mono fun y hy _ => hy.2 hy.1⟩

omit [DecidableEq Sid] in
theorem Settled.place_of_loc {q : QueueName} (h : Settled cfg held s loc) (hx : loc x = some q) :
    place cfg s x = q := by
  rcases h.placed x with hp | ⟨-, hp⟩
  · rw [hx] at hp
    exact (Option.some.inj hp).symm
  · rw [hx] at hp
    cases hp

/-- A segment taken off the used or the available queue can be recycled. -/
theorem Settled.recycles {q : QueueName} {l : Links QueueName Sid} (h : Settled cfg H s loc)
    (hx : loc x = some q) (hq : q ≠ .failed) (hl : Located cfg.segments l (update loc x none)) :
    Recycles cfg H x { s with links := l } := by
  refine ⟨?_, _, ⟨hl, ?_⟩, update_self _ _ _⟩
  · cases hf : (s.seg x).failed with
    | false => rfl
    | true => exact absurd ((h.place_of_loc hx).symm.trans (place_eq_failed.mpr hf)) hq
  · intro y
    by_cases hy : y = x
    · subst hy
      exact Or.inr ⟨Or.inl rfl, update_self _ _ _⟩
    · rw [update_of_ne hy]
      exact (h.placed y).imp_right fun hp => ⟨Or.inr hp.1, hp.2⟩

end Recycling

/-! ## Compaction -/

theorem recycleStarving_whole {ssc : Sid} (h : Recycles cfg (fun _ => False) ssc s) :
    Ensures Event.Orderly (recycleStarving cfg ssc) s fun _ => Whole cfg := by
  obtain ⟨-, loc, hset, -⟩ := id h
  simp only [recycleStarving, ensures_bind]
  refine segMostAvailable_ensures hset.located (fun _ => ?_) fun dsc _ => ?_
  · simp only [ensures_bind, ensures_report]
    exact fun hok => hok.elim
  · simp only [ensures_bind, ensures_pure]
    exact recyclePages_settles _ dsc 0 s h

theorem resolveStarvation_whole (h : Whole cfg s) :
    Ensures Event.Orderly (resolveStarvation cfg) s fun _ => Whole cfg := by
  obtain ⟨loc, hset⟩ := h
  simp only [resolveStarvation, ensures_bind]
  refine popHead_ensures hset.located (fun _ => ?_) fun ssc l hssc hl _ _ =>
    recycleStarving_whole (hset.recycles hssc (by simp) hl)
  rw [ensures_bind]
  refine popHead_ensures hset.located (fun _ => ?_) fun ssc l hssc hl _ _ =>
    recycleStarving_whole (hset.recycles hssc (by simp) hl)
  rw [ensures_pure]
  exact ⟨loc, hset⟩

omit [DecidableEq Sid] in
theorem Settled.whole {dsc : Sid} (h : Settled cfg (· = dsc) s loc) (hd : loc dsc ≠ none) :
    Whole cfg s := by
  refine ⟨loc, h.mono ?_⟩
  rintro y rfl hy
  exact hd hy

/-- The destination is on no queue until a page was moved to it. -/
theorem copyLoop_whole {dsc : Sid} {counted : ℕ} (hcounted : counted ≠ 0) (turns pages : ℕ)
    (s : Disk Sid)
    (h : Whole cfg s ∨ (∃ loc, Settled cfg (· = dsc) s loc) ∧ pages = counted) :
    Ensures Event.Orderly (copyLoop cfg dsc counted turns pages) s fun _ => Whole cfg := by
  induction turns generalizing pages s with
  | zero => simp [copyLoop]
  | succ turns ih =>
    simp only [copyLoop]
    split
    next hpages =>
      rw [ensures_pure]
      exact h.resolve_right fun hset => hcounted (hset.2.symm.trans hpages)
    next =>
      rw [ensures_bind]
      rcases h with ⟨loc, hset⟩ | ⟨⟨loc, hset⟩, rfl⟩
      · refine popHead_ensures hset.located (fun _ => ih _ _ (.inl ⟨loc, hset⟩))
          fun ssc l hssc hl _ _ => ?_
        simp only [ensures_bind, ensures_get]
        refine (recyclePages_settles _ dsc pages _
          (hset.recycles hssc (by simp) hl)).mono fun r s₁ hs₁ => ?_
        split
        · simp only [ensures_bind, ensures_report, ensures_pure]
          exact fun _ => hs₁
        · exact ih _ _ (.inl hs₁)
      · refine popHead_ensures hset.located (fun _ => ih _ _ (.inr ⟨⟨loc, hset⟩, rfl⟩))
          fun ssc l hssc hl _ _ => ?_
        simp only [ensures_bind, ensures_get]
        refine (recyclePages_places _ pages _
          (hset.recycles hssc (by simp) hl)).mono fun r s₁ hs₁ => ?_
        split
        · simp only [ensures_bind, ensures_report, ensures_pure]
          intro hok
          refine hs₁.resolve_right fun hnone => ?_
          -- no page was moved before and the source has none to move
          rcases hok with hmoved | hmove
          · exact absurd rfl (of_decide_eq_true hmoved)
          · exact Bool.false_ne_true (hnone.2.2.symm.trans hmove)
        · exact ih _ _ (hs₁.imp_right fun hnone => ⟨hnone.1, hnone.2.1⟩)

theorem compactLoop_whole (turns left compactedSegs : ℕ) (s : Disk Sid) (h : Whole cfg s) :
    Ensures Event.Orderly (compactLoop cfg turns left compactedSegs) s fun _ => Whole cfg := by
  induction left generalizing compactedSegs s with
  | zero => simp [compactLoop]
  | succ left ih =>
    obtain ⟨loc, hset⟩ := h
    simp only [compactLoop, ensures_bind, ensures_get]
    split
    · rw [ensures_pure]
      exact ⟨loc, hset⟩
    · rw [ensures_bind]
      refine segMostAvailable_ensures hset.located (fun _ => ?_) fun dsc hdsc => ?_
      · rw [ensures_pure]
        exact ⟨loc, hset⟩
      · simp only
        split
        next =>
          rw [ensures_pure]
          exact ⟨loc, hset⟩
        next hgo =>
          simp only [Bool.or_eq_true, decide_eq_true_eq, not_or] at hgo
          simp only [ensures_bind]
          refine remove_ensures hset.located fun l hl _ => ?_
          rw [if_pos hdsc] at hl
          obtain ⟨-, loc₁, hset₁, -⟩ := hset.recycles hdsc (by simp) hl
          have hset₁ : Settled cfg (· = dsc) { s with links := l } loc₁ := hset₁.mono (by simp)
          refine (copyLoop_whole hgo.1.2 turns _ _ (.inr ⟨⟨loc₁, hset₁⟩, rfl⟩)).mono
            fun ret s₂ hs₂ => ?_
          split
          · rw [ensures_pure]
            exact hs₂
          · exact ih _ _ hs₂

theorem compact_whole {turns : ℕ} (h : Whole cfg s) :
    Ensures Event.Orderly (compact cfg turns) s fun _ => Whole cfg := by
  simp only [compact, ensures_bind, ensures_get]
  split
  · rw [ensures_bind]
    refine (resolveStarvation_whole h).mono fun ret s₁ hs₁ => ?_
    split
    · rw [ensures_pure]
      exact hs₁
    · exact compactLoop_whole _ _ _ _ hs₁
  · exact compactLoop_whole _ _ _ _ h

/-! ## Requests -/

theorem Settles.whole (h : Settles cfg (· = x) x s loc s') : Whole cfg s' := by
  obtain ⟨q, hs', -⟩ := h
  exact hs'.whole (by simp)

theorem eraseUsedLoop_whole (turns latched : ℕ) (s : Disk Sid) (h : Whole cfg s) :
    Ensures Event.Orderly (eraseUsedLoop cfg turns latched) s fun _ => Whole cfg := by
  induction turns generalizing latched s with
  | zero => simp [eraseUsedLoop]
  | succ turns ih =>
    obtain ⟨loc, hset⟩ := h
    simp only [eraseUsedLoop, ensures_bind]
    refine popHead_ensures hset.located (fun _ => ?_) fun sc l hsc hl _ _ => ?_
    · rw [ensures_pure]
      exact ⟨loc, hset⟩
    · simp only [ensures_bind, ensures_get, ensures_report]
      intro _
      exact (hset.recycles hsc (by simp) hl).eraseSegment.mono fun ret s₁ hs₁ => ih _ _ hs₁

omit [DecidableEq Sid] in
theorem readBlock_whole {block : ℕ} (h : Whole cfg s) :
    Ensures Event.Orderly (readBlock cfg block) s fun _ => Whole cfg := by
  obtain ⟨loc, hset⟩ := h
  have hw : Whole cfg s := ⟨loc, hset⟩
  simp only [readBlock, ensures_bind, ensures_get]
  split
  · simpa using hw
  · split
    · simpa using hw
    · split
      · simp only [segReadPage, ensures_bind]
        refine segRead_asks.mono fun r s₁ hs₁ => ?_
        cases r <;> simpa using ⟨loc, hset.asks hs₁⟩
      · simpa using hw

theorem flagUsed_whole {page : ℕ} (h : Whole cfg s) :
    Ensures Event.Orderly (flagUsed cfg x page) s fun _ => Whole cfg := by
  obtain ⟨loc, hset⟩ := h
  have hun : Unsettled cfg (fun _ => False) x (s.updSeg x fun g =>
      g.setDesc page (pageDescSetFlags (g.pageDescriptors page) pageUsed)) loc := by
    refine (hset.unsettled x).modify rfl (fun y hy => Or.inl (update_of_ne hy _ _)) ?_
    simp [Disk.updSeg, SegmentCtl.setDesc]
  simp only [flagUsed, ensures_bind, ensures_get, ensures_modify, ensures_report]
  intro _
  refine (segWritePageDescFlags_keeps hun).mono fun ret s₁ hs₁ => ?_
  have hun₁ : Unsettled cfg (fun _ => False) x
      (if ret = 0 then s₁.updSeg x SegmentCtl.retirePage else s₁) loc := by
    split
    · refine hs₁.1.modify rfl (fun y hy => Or.inl (update_of_ne hy _ _)) ?_
      simp [Disk.updSeg, SegmentCtl.retirePage]
    · exact hs₁.1
  refine (queueSegment_settles hun₁).mono ?_
  rintro _ s₂ ⟨q, hs₂, -⟩
  exact ⟨_, hs₂⟩

theorem programPage_keeps {page : ℕ} {buffer : Page} (h : Unsettled cfg held x s loc) :
    Ensures Event.Orderly (programPage cfg x page buffer) s fun _ => Keeps cfg held x s loc := by
  simp only [programPage, ensures_bind, ensures_get]
  refine (segWritePage_keeps h).mono fun ret s₁ hs₁ => ?_
  split
  · rw [ensures_pure]
    exact hs₁
  · rw [ensures_bind]
    refine (segWritePageDesc_keeps hs₁.1).mono fun ret s₂ hs₂ => ?_
    have hk := hs₁.trans hs₂
    split
    · rw [ensures_pure]
      exact hk
    · simp only [ensures_bind, ensures_modify, ensures_pure]
      have hseg : ∀ y, y ≠ x → (s₂.updSeg x fun g =>
          { g with pagesActive := inc32 g.pagesActive }).seg y = s₂.seg y :=
        fun y hy => update_of_ne hy _ _
      refine hk.trans ⟨hk.1.modify rfl (fun y hy => Or.inl (hseg y hy)) ?_, hseg⟩
      simp [Disk.updSeg]

theorem compactIf_whole {turns : ℕ} {wanted : Bool} (h : Whole cfg s) :
    Ensures Event.Orderly (compactIf cfg turns wanted) s fun _ => Whole cfg := by
  unfold compactIf
  split
  · simp only [ensures_bind, ensures_pure]
    exact compact_whole h
  · rw [ensures_pure]
    exact h

theorem writeToSegment_whole {turns block : ℕ} {buffer : Page}
    (h : Recycles cfg (fun _ => False) x s) :
    Ensures Event.Orderly (writeToSegment cfg turns x block buffer) s fun _ => Whole cfg := by
  obtain ⟨-, loc, hset, hnone⟩ := h
  have hset : Settled cfg (· = x) s loc := hset.mono (by simp)
  simp only [writeToSegment, ensures_bind, ensures_get]
  split
  · simp only [ensures_bind, ensures_pure]
    refine (setFailed_keeps (hset.unsettled x)).mono fun _ s₁ hs₁ => ?_
    exact (queueSegment_settles hs₁.1).mono fun _ s₂ hs₂ => hs₂.whole
  · simp only [ensures_bind, ensures_get, ensures_modify, ensures_pure]
    have hun : Unsettled cfg (· = x) x
        (s.mapBlock x (segNextAvailablePage cfg s x) block buffer) loc := by
      refine (hset.unsettled x).modify rfl (fun y hy => Or.inl (update_of_ne hy _ _)) ?_
      simp [Disk.mapBlock, Disk.updSeg, SegmentCtl.setDesc]
    refine (programPage_keeps hun).mono fun ret s₁ hs₁ => ?_
    exact (queueSegment_settles hs₁.1).mono fun _ s₂ hs₂ => compactIf_whole hs₂.whole

theorem writeNewPage_whole {turns block : ℕ} {buffer : Page} (h : Whole cfg s) :
    Ensures Event.Orderly (writeNewPage cfg turns block buffer) s fun _ => Whole cfg := by
  -- the segment at the head of the available queue is taken, if there is one
  have hpop : ∀ s₁ (f : Option Sid → Fdisk Sid ℕ), Whole cfg s₁ →
      (∀ sc, f (some sc) = writeToSegment cfg turns sc block buffer) →
      (Ensures Event.Orderly (f none) s₁ fun _ => Whole cfg) →
      Ensures Event.Orderly (popHead .available) s₁ fun o s₂ =>
        Ensures Event.Orderly (f o) s₂ fun _ => Whole cfg := by
    rintro s₁ f ⟨loc, hset⟩ hf hm
    refine popHead_ensures hset.located (fun _ => hm) fun sc l hsc hl _ _ => ?_
    rw [hf]
    exact writeToSegment_whole (hset.recycles hsc (by simp) hl)
  simp only [writeNewPage, countQueue, ensures_bind, ensures_get, ensures_lift, ensures_pure]
  intro xs _
  refine (compactIf_whole h).mono fun _ s₁ hs₁ => hpop s₁ _ hs₁ (fun _ => rfl) ?_
  simp only [ensures_bind]
  refine (compactIf_whole hs₁).mono fun _ s₂ hs₂ => hpop s₂ _ hs₂ (fun _ => rfl) ?_
  simp only [ensures_bind, ensures_get, ensures_report, ensures_pure]
  exact fun _ => hs₂

theorem writeBlock_whole {turns block : ℕ} {buffer : Page} (h : Whole cfg s) :
    Ensures Event.Orderly (writeBlock cfg turns block buffer) s fun _ => Whole cfg := by
  simp only [writeBlock, ensures_bind, ensures_get]
  split
  · rw [ensures_pure]
    exact h
  · split
    · exact writeNewPage_whole h
    · rw [ensures_bind]
      obtain ⟨loc, hset⟩ := h
      refine segTest_asks.mono fun ret s₁ hs₁ => ?_
      have hw : Whole cfg s₁ := ⟨loc, hset.asks hs₁⟩
      split
      · rw [ensures_pure]
        exact hw
      · simp only [ensures_bind]
        refine (flagUsed_whole hw).mono fun _ s₂ hs₂ => ?_
        exact (compactIf_whole hs₂).mono fun _ s₃ hs₃ => writeNewPage_whole hs₃

theorem exec_whole {turns : ℕ} {c : Call} (h : Whole cfg s) :
    Ensures Event.Orderly (exec cfg turns c) s fun _ => Whole cfg := by
  cases c with
  | write block buffer => exact writeBlock_whole h
  | read block =>
    simp only [exec, ensures_bind, ensures_pure]
    exact readBlock_whole h
  | compact => exact compact_whole h
  | eraseUsed => exact eraseUsedLoop_whole _ _ _ h

/-! ## Recovery -/

theorem recoverPage_keeps {page : ℕ} (h : Unsettled cfg held x s loc) :
    Ensures Event.Orderly (recoverPage cfg x page) s fun _ => Keeps cfg held x s loc := by
  -- every step of the classification changes counts or descriptors of the segment only
  have hstep : ∀ {s₁ : Disk Sid} (s₂ : Disk Sid), Keeps cfg held x s loc s₁ →
      s₂.links = s₁.links → (∀ y, y ≠ x → s₂.seg y = s₁.seg y) →
      (s₂.seg x).failed = (s₁.seg x).failed → Keeps cfg held x s loc s₂ := by
    intro s₁ s₂ hk hl hs hf
    exact hk.trans ⟨hk.1.modify hl (fun y hy => Or.inl (hs y hy)) hf, hs⟩
  have hk : Keeps cfg held x s loc s := h.asks ⟨rfl, rfl⟩
  have hother : ∀ (s₁ : Disk Sid) (f : SegmentCtl → SegmentCtl) y, y ≠ x →
      (s₁.updSeg x f).seg y = s₁.seg y := fun s₁ f y hy => update_of_ne hy _ _
  simp only [recoverPage, ensures_bind, ensures_get]
  split
  · rw [ensures_bind]
    refine segTest_asks.mono fun ret s₁ hs₁ => ?_
    have hk₁ := h.asks hs₁
    split
    · rw [ensures_modify]
      exact hstep _ hk₁ rfl (fun _ _ => rfl) rfl
    · simp only [ensures_bind, ensures_modify]
      have hk₂ : Keeps cfg held x s loc (s₁.updSeg x (·.setDesc page
          (pageDescSetFlags ((s.seg x).pageDescriptors page) pageUsed))) :=
        hstep _ hk₁ rfl (hother _ _) (by simp [Disk.updSeg, SegmentCtl.setDesc])
      refine (segWritePageDesc_keeps hk₂.1).mono fun _ s₃ hs₃ => ?_
      exact hstep _ (hk₂.trans hs₃) rfl (hother _ _) (by simp [Disk.updSeg])
  · split
    · rw [ensures_modify]
      exact hstep _ hk rfl (hother _ _) (by simp [Disk.updSeg])
    · split
      · split
        · rw [ensures_modify]
          exact hstep _ hk rfl (hother _ _) (by simp [Disk.updSeg])
        · rw [ensures_modify]
          exact hstep _ hk rfl (fun y hy => update_of_ne hy _ _)
            (by simp [Disk.foundBlock, Disk.updSeg])
      · rw [ensures_modify]
        exact hstep _ hk rfl (hother _ _) (by simp [Disk.updSeg])

theorem recoverPages_keeps (rest : List ℕ) (s : Disk Sid) (h : Unsettled cfg held x s loc) :
    Ensures Event.Orderly (recoverPages cfg x rest) s fun _ => Keeps cfg held x s loc := by
  induction rest generalizing s with
  | nil =>
    simp only [recoverPages, ensures_pure]
    exact h.asks ⟨rfl, rfl⟩
  | cons page rest ih =>
    simp only [recoverPages, ensures_bind]
    refine (recoverPage_keeps h).mono fun _ s₁ hs₁ => ?_
    exact (ih s₁ hs₁.1).mono fun _ s₂ hs₂ => hs₁.trans hs₂

/-- The segments of `rest` are still to be scanned. -/
def Scanned (cfg : Config Sid) (rest : List Sid) (s : Disk Sid) : Prop :=
  ∃ loc, Settled cfg (· ∈ rest) s loc ∧ ∀ y ∈ rest, loc y = none

theorem recoverSegment_scanned {rest : List Sid} (h : Scanned cfg (x :: rest) s) (hx : x ∉ rest) :
    Ensures Event.Orderly (recoverSegment cfg x) s fun ret s' =>
      ret = 0 → Scanned cfg rest s' := by
  obtain ⟨loc, hset, hnone⟩ := h
  have hloc : loc x = none := hnone x (by simp)
  have hun : Unsettled cfg (· ∈ rest) x (s.beginScan cfg x) loc := by
    refine ⟨hset.located, ?_, fun _ => Or.inl hloc, fun _ => by simp [hloc]⟩
    intro y hy
    have hseg : (s.beginScan cfg x).seg y = s.seg y := update_of_ne hy _ _
    rw [place_congr hseg]
    refine (hset.placed y).imp_right fun hp => ⟨?_, hp.2⟩
    exact (List.mem_cons.mp hp.1).resolve_left hy
  simp only [recoverSegment, ensures_bind, ensures_modify]
  refine (segRead_asks.and segRead_error_ne).mono fun r s₁ hs₁ => ?_
  have hk₁ := hun.asks hs₁.1
  cases r with
  | error ret =>
    simp only [ensures_pure]
    exact fun hret => absurd hret (hs₁.2 ret rfl)
  | ok descs =>
    simp only [ensures_bind, ensures_modify, ensures_pure, true_imp_iff]
    have hun₂ : Unsettled cfg (· ∈ rest) x
        (s₁.updSeg x fun g => { g with pageDescriptors := descs }) loc :=
      hk₁.1.modify rfl (fun y hy => Or.inl (update_of_ne hy _ _)) (by simp [Disk.updSeg])
    refine (recoverPages_keeps _ _ hun₂).mono fun _ s₃ hs₃ => ?_
    refine (queueSegment_settles hs₃.1).mono ?_
    rintro _ s₄ ⟨q, hs₄, -⟩
    refine ⟨_, hs₄, fun y hy => ?_⟩
    have hyx : y ≠ x := fun e => hx (e ▸ hy)
    rw [update_of_ne hyx]
    exact hnone y (by simp [hy])

theorem recoverSegments_scanned (rest : List Sid) (s : Disk Sid) (h : Scanned cfg rest s)
    (hrest : rest.Nodup) :
    Ensures Event.Orderly (recoverSegments cfg rest) s fun ret s' =>
      ret = 0 → Scanned cfg [] s' := by
  induction rest generalizing s with
  | nil =>
    simp only [recoverSegments, ensures_pure, true_imp_iff]
    exact h
  | cons sc rest ih =>
    obtain ⟨hsc, hrest⟩ := List.nodup_cons.mp hrest
    simp only [recoverSegments, ensures_bind]
    refine (recoverSegment_scanned h hsc).mono fun ret s₁ hs₁ => ?_
    split
    next hret =>
      rw [ensures_pure]
      exact fun h0 => absurd h0 hret
    next hret => exact ih s₁ (hs₁ (not_not.mp hret)) hrest

theorem recoverBlockMappings_whole :
    Ensures Event.Orderly (recoverBlockMappings cfg) s fun ret s' => ret = 0 → Whole cfg s' := by
  simp only [recoverBlockMappings, ensures_bind, ensures_modify]
  refine (recoverSegments_scanned _ _ ?_ cfg.segments_nodup).mono ?_
  · refine ⟨fun _ => none, ⟨⟨⟨_, Rep.empty _, by simp⟩, cfg.segments_complete⟩, ?_⟩, by simp⟩
    intro y
    exact Or.inr ⟨cfg.segments_complete y, rfl⟩
  · intro ret s₁ hs₁ hret
    obtain ⟨loc, hset, -⟩ := hs₁ hret
    exact ⟨loc, hset.mono (by simp)⟩

theorem startDisk_whole {turns : ℕ} :
    Ensures Event.Orderly (startDisk cfg turns) s fun ret s' => ret = 0 → Whole cfg s' := by
  simp only [startDisk, ensures_bind]
  refine recoverBlockMappings_whole.mono fun ret s₁ hs₁ => ?_
  split
  next hret =>
    rw [ensures_pure]
    exact fun h0 => absurd h0 hret
  next hret => exact (compact_whole (hs₁ (not_not.mp hret))).mono fun _ _ hw _ => hw

/-! ## Runs -/

theorem Reached.whole {flash : Sid → FlashSegment} {es : List (Event Sid)}
    (h : Reached cfg flash s es) (hes : ∀ e ∈ es, e.Orderly) : Whole cfg s := by
  induction h with
  | start _ hs => exact startDisk_whole _ _ _ hs hes rfl
  | step _ hc ih =>
    have hw := ih fun e he => hes e (List.mem_append_left _ he)
    exact exec_whole hw _ _ _ hc fun e he => hes e (List.mem_append_right _ he)

/-- Every segment control is on one queue, once; counts and tails are those of the lists, and a
segment that has not failed is on the available or the used queue as its pages say. -/
structure Partition (cfg : Config Sid) (s : Disk Sid) (queue : QueueName → List Sid) : Prop where
  links : ∀ q, LinkedQueue.Path s.links.next (s.links.queue q).head (queue q) none
  once : ∀ q, (queue q).Nodup
  one : ∀ x, ∃! q, x ∈ queue q
  count : ∀ q, (s.links.queue q).count = (queue q).length
  tail : ∀ q, (s.links.queue q).tail = (queue q).getLast?
  available : ∀ x, (s.seg x).failed = false →
    (x ∈ queue .available ↔ segPagesAvailable cfg s x ≠ 0)
  used : ∀ x, (s.seg x).failed = false →
    (x ∈ queue .used ↔ segPagesAvailable cfg s x = 0 ∧ (s.seg x).pagesActive ≠ 0)

omit [DecidableEq Sid] in
theorem Whole.partition (h : Whole cfg s) : ∃ queue, Partition cfg s queue := by
  obtain ⟨loc, hset⟩ := h
  obtain ⟨queue, hrep, hmem⟩ := hset.located.rep
  have hloc : ∀ x, loc x = some (place cfg s x) := fun x =>
    (hset.placed x).resolve_right fun hp => hp.1
  have hqueue : ∀ q x, x ∈ queue q ↔ place cfg s x = q := by
    intro q x
    rw [hmem, hloc, Option.some.injEq]
  refine ⟨queue, hrep.path, hrep.nodup, ?_, ?_, hrep.tail, ?_, ?_⟩
  · intro x
    refine ⟨place cfg s x, (hqueue _ x).mpr rfl, fun q hq => ?_⟩
    exact ((hqueue q x).mp hq).symm
  · intro q
    have hle := hset.located.length_le (hrep.nodup q)
    have hlt := cfg.segments_lt
    rw [hrep.count q]
    exact Nat.mod_eq_of_lt (by omega)
  · intro x hx
    rw [hqueue, place_eq_available]
    simp [hx]
  · intro x hx
    rw [hqueue, place_eq_used]
    simp [hx]

/-- Between requests the queues partition the segments, whatever the driver does, in every run that
never marks a linked segment failed, never queues a segment of the erase queue, never gives back a
source that does not belong on the used queue, never recycles a segment that is taken off its queue
without a destination and never stops a compaction before it had a page to move. -/
theorem queues_partition (cfg : Config Sid) (flash : Sid → FlashSegment) (s : Disk Sid)
    (es : List (Event Sid)) (h : Reached cfg flash s es) (hes : ∀ e ∈ es, e.Orderly) :
    ∃ queue, Partition cfg s queue :=
  (h.whole hes).partition

omit [DecidableEq Sid] in
theorem Partition.elements {queue : QueueName → List Sid} (h : Partition cfg s queue)
    (q : QueueName) : s.links.elements cfg.segments.length q = some (queue q) :=
  walk_of_path (h.links q)
    ((h.once q).length_le_of_subset fun x _ => cfg.segments_complete x)

instance : DecidablePred fun e : Event Sid => e.Orderly := fun e => by
  cases e <;> dsimp only [Event.Orderly] <;> infer_instance

theorem twoSegments_nodup : ([0, 1] : List (Fin 2)).Nodup := by decide

theorem twoSegments_complete : ∀ x : Fin 2, x ∈ ([0, 1] : List (Fin 2)) := by decide

/-- A page that holds one byte throughout. -/
def pageOf (b : BitVec 8) : Page := List.replicate 16 b

/-- A disk of two segments with two pages each, whose driver fails at one call. -/
def smallDisk (call : ℕ) : Config (Fin 2) where
  segments := [0, 1]
  segments_nodup := twoSegments_nodup
  segments_complete := twoSegments_complete
  pages _ := 2
  pages_pos := by decide
  blocks_lt := by decide
  address := id
  blockSize := 16
  unavailBlocks := 2
  unavail_le := by decide
  compactSegs := 2
  availCompactSegs := 0
  backgroundErase := true
  backgroundCompact := true
  blankCheckBeforeWrite := false
  fault n :=
    if n = call then some ⟨eio, by decide, ⟨fun _ => PageDesc.blank, fun _ => []⟩⟩ else none

/-- The page of the second write cannot be programmed: its segment, taken off the available queue, is
queued as failed. -/
theorem queues_partition_failed_write :
    ∃ s es, Reached (smallDisk 10) (fun _ => (smallDisk 10).blankSegment) s es ∧
      (∀ e ∈ es, e.Orderly) ∧ ∃ queue, Partition (smallDisk 10) s queue := by
  have hrun : ((session (smallDisk 10) 10 [.write 0 (pageOf 1#8), .write 0 (pageOf 2#8)]
      (Disk.allocated fun _ => (smallDisk 10).blankSegment)).map fun r =>
        (r.1, decide (∀ e ∈ r.2.2, e.Orderly))) = some ((0, [0, eio]), true) := by
    decide_cbv
  obtain ⟨⟨ret, s, es⟩, hr, heq⟩ := Option.map_eq_some_iff.mp hrun
  simp only [Prod.mk.injEq, decide_eq_true_eq] at heq
  obtain ⟨rfl, hes⟩ := heq
  have hreach := Reached.of_session hr
  exact ⟨s, es, hreach, hes, queues_partition _ _ s es hreach hes⟩

/-- The used flag of the first page cannot be programmed: its segment is put on the failed queue while
it heads the available queue, which loses the segment behind it. -/
theorem queues_partition_flag_failed :
    ¬ ∀ (cfg : Config (Fin 2)) flash s es, Reached cfg flash s es → ∃ queue, Partition cfg s queue := by
  intro hall
  have hrun : ((session (smallDisk 9) 10 [.write 0 (pageOf 1#8), .write 0 (pageOf 2#8)]
      (Disk.allocated fun _ => (smallDisk 9).blankSegment)).map fun r =>
        (r.1, [QueueName.available, .used, .erase, .failed].map (r.2.1.links.elements 2))) =
      some ((0, [0, 0]), [some [], some [], some [], some [0]]) := by
    decide_cbv
  obtain ⟨⟨ret, s, es⟩, hr, heq⟩ := Option.map_eq_some_iff.mp hrun
  simp only [Prod.mk.injEq, List.map_cons, List.map_nil, List.cons.injEq] at heq
  obtain ⟨rfl, ha, hu, he, hf, -⟩ := heq
  obtain ⟨queue, hp⟩ := hall _ _ s es (Reached.of_session hr)
  obtain ⟨q, hq, -⟩ := hp.one 1
  have hel := hp.elements q
  cases q with
  | available =>
    rw [show (smallDisk 9).segments.length = 2 from rfl, ha, Option.some.injEq] at hel
    simp [← hel] at hq
  | used =>
    rw [show (smallDisk 9).segments.length = 2 from rfl, hu, Option.some.injEq] at hel
    simp [← hel] at hq
  | erase =>
    rw [show (smallDisk 9).segments.length = 2 from rfl, he, Option.some.injEq] at hel
    simp [← hel] at hq
  | failed =>
    rw [show (smallDisk 9).segments.length = 2 from rfl, hf, Option.some.injEq] at hel
    simp [← hel] at hq

end Rtems.FlashDisk
