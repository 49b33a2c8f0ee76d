import Rtems.FlashDisk.Pages
import Rtems.FlashDisk.Partition

/-!
# What was written is read

With a driver that never fails, the disk is a log-structured store: every request keeps the block
table, the descriptors, the counts and the queues in agreement with its cells, as long as no recycling
stops half way for want of a destination.  Segments may get lost from the queues; their pages stay
readable.
-/

namespace Rtems.FlashDisk

open Function Rtems.LinkedQueue Rtems.Traced Rtems.LogStore

variable {Sid : Type} [DecidableEq Sid] {cfg : Config Sid} {ok : Event Sid → Prop}
  {content : ℕ → Option Page} {gap : Option ℕ} {moved : Sid → ℕ} {c : Store Sid ℕ Page}
  {loc : Sid → Option QueueName} {s s' : Disk Sid} {x : Sid}

/-- The disk stores `content`, in the cells `c`; the block of the gap is being rewritten.  Without
background erasure no segment waits to be erased, unless it is being recycled. -/
structure Stored (cfg : Config Sid) (content : ℕ → Option Page) (gap : Option ℕ) (moved : Sid → ℕ)
    (c : Store Sid ℕ Page) (loc : Sid → Option QueueName) (s : Disk Sid) : Prop where
  shows : Shows cfg c moved s
  indexed : Indexed c s.blocks content gap
  settled : Settled cfg (fun _ => True) s loc
  clean : cfg.backgroundErase = false → ∀ x, moved x = 0 → place cfg s x ≠ .erase

/-- The same while the queue of `x` is open. -/
structure Storing (cfg : Config Sid) (content : ℕ → Option Page) (gap : Option ℕ) (moved : Sid → ℕ)
    (c : Store Sid ℕ Page) (loc : Sid → Option QueueName) (x : Sid) (s : Disk Sid) : Prop where
  shows : Shows cfg c moved s
  indexed : Indexed c s.blocks content gap
  located : Located cfg.segments s.links loc
  placed : ∀ y, y ≠ x → loc y = some (place cfg s y) ∨ loc y = none
  clean : cfg.backgroundErase = false → ∀ y, y ≠ x → moved y = 0 → place cfg s y ≠ .erase

/-- Between requests. -/
def Stores (cfg : Config Sid) (content : ℕ → Option Page) (gap : Option ℕ) (s : Disk Sid) : Prop :=
  ∃ c loc, Stored cfg content gap (fun _ => 0) c loc s

omit [DecidableEq Sid] in
theorem Stored.storing (h : Stored cfg content gap moved c loc s) (x : Sid) :
    Storing cfg content gap moved c loc x s :=
  ⟨h.shows, h.indexed, h.settled.located, fun y _ => (h.settled.placed y).imp_right And.right,
    fun hb y _ => h.clean hb y⟩

omit [DecidableEq Sid] in
theorem Stored.congr (h : Stored cfg content gap moved c loc s) (hr : Reflash s s' s.flash) :
    Stored cfg content gap moved c loc s' := by
  refine ⟨h.shows.congr hr.seg hr.flash, hr.blocks ▸ h.indexed, h.settled.asks ⟨hr.links, hr.seg⟩, ?_⟩
  intro hb y hy
  rw [place_congr (congrFun hr.seg y)]
  exact h.clean hb y hy

omit [DecidableEq Sid] in
/-- A segment on a queue is on the one its pages ask for. -/
theorem Stored.place_of_loc {q : QueueName} (h : Stored cfg content gap moved c loc s)
    (hx : loc x = some q) : place cfg s x = q :=
  h.settled.place_of_loc hx

omit [DecidableEq Sid] in
/-- A segment on the available queue has erased pages. -/
theorem Stored.erased_of_available (h : Stored cfg content gap moved c loc s)
    (hx : loc x = some .available) : tally Cell.isErased (c x) (cfg.pages x) ≠ 0 :=
  h.shows.place_eq_available.mp (h.place_of_loc hx)

/-- A segment taken off a queue. -/
theorem Stored.unlink {q : QueueName} {l : Links QueueName Sid}
    (h : Stored cfg content gap moved c loc s) (hl : Located cfg.segments l (update loc x none))
    (_hx : loc x = some q) :
    Stored cfg content gap moved c (update loc x none) { s with links := l } := by
  refine ⟨h.shows, h.indexed, ⟨hl, ?_⟩, h.clean⟩
  intro y
  by_cases hy : y = x
  · subst hy
    simp
  · rw [update_of_ne hy]
    exact h.settled.placed y

/-! ## Erasing and queueing -/

theorem eraseSegment_stored (hc : Reliable cfg) (h : Storing cfg content gap moved c loc x s)
    (hx : loc x = none) (hlive : ∀ p k d, c x p ≠ .live k d) :
    Ensures ok (eraseSegment cfg x) s fun ret s' => ret = 0 ∧
      Stored cfg content gap (update moved x 0) (c.reclaim x) (update loc x (some .available)) s' ∧
      SameList .used s.links s'.links := by
  refine eraseSegment_ensures h.located hx ?_ ?_
  · intro _ l hl hsame
    have hseg : (s.erased cfg x l).seg =
        update s.seg x ⟨fun _ => PageDesc.blank, 0, 0, 0, false⟩ := rfl
    have hflash : (s.erased cfg x l).flash = update s.flash x cfg.blankSegment := by
      simp [Disk.erased, hc.address]
    have hblank : ShowsSegment cfg x _ 0 _ cfg.blankSegment := ShowsSegment.blank
    have hshows := h.shows.update_segment hblank hseg hflash
    have hplace : place cfg (s.erased cfg x l) x = .available := by
      rw [hshows.place_eq_available, update_self, tally_erased]
      exact (cfg.pages_pos x).ne'
    have hother : ∀ y, y ≠ x → place cfg (s.erased cfg x l) y = place cfg s y := fun y hy =>
      place_congr (by rw [hseg, update_of_ne hy])
    refine ⟨rfl, ⟨hshows, h.indexed.reclaim hlive, ⟨hl, ?_⟩, ?_⟩, hsame .used (by simp)⟩
    · intro y
      by_cases hy : y = x
      · subst hy
        rw [update_self, hplace]
        exact Or.inl rfl
      · rw [update_of_ne hy, hother y hy]
        exact (h.placed y hy).imp_right fun hn => ⟨trivial, hn⟩
    · intro hb y hm
      by_cases hy : y = x
      · subst hy
        rw [hplace]
        simp
      · rw [update_of_ne hy] at hm
        rw [hother y hy]
        exact h.clean hb y hy hm
  · intro e he
    rw [hc.fault] at he
    cases he

/-- The segment is put where its pages ask for. -/
theorem Storing.place (h : Storing cfg content gap moved c loc x s) {l : Links QueueName Sid}
    (hl : Located cfg.segments l (update loc x (some (place cfg s x))))
    (hbg : FlashDisk.place cfg s x = .erase → cfg.backgroundErase = true) :
    Stored cfg content gap moved c (update loc x (some (FlashDisk.place cfg s x)))
      { s with links := l } := by
  refine ⟨h.shows, h.indexed, ⟨hl, ?_⟩, ?_⟩
  · intro y
    by_cases hy : y = x
    · subst hy
      rw [update_self]
      exact Or.inl (congrArg some (place_congr rfl).symm)
    · rw [update_of_ne hy]
      exact (h.placed y hy).imp_right fun hn => ⟨trivial, hn⟩
  · intro hb y hm
    by_cases hy : y = x
    · subst hy
      intro hpl
      rw [hbg hpl] at hb
      cases hb
    · exact h.clean hb y hy hm

/-- A segment that keeps pages is queued. -/
theorem queueSegment_keeps_pages (h : Storing cfg content gap moved c loc x s)
    (hfailed : loc x ≠ some .failed) (herase : loc x ≠ some .erase)
    (hplace : place cfg s x ≠ .erase) :
    Ensures ok (queueSegment cfg x) s fun _ s' =>
      Stored cfg content gap moved c (update loc x (some (place cfg s x))) s' ∧
      s'.seg = s.seg ∧
      ∀ r, loc x ≠ some r → r ≠ place cfg s x → SameList r s.links s'.links := by
  have hsound := (h.shows x).sound
  refine queueSegment_ensures h.located (by simp [hsound]) (fun _ => hfailed) (fun _ => herase) ?_
    fun hpl => absurd hpl hplace
  intro hbg l hl hsame
  exact ⟨h.place hl hbg, rfl, hsame⟩

/-- Any segment is queued, or erased. -/
theorem queueSegment_stored (hc : Reliable cfg)
    (h : Storing cfg content gap (fun _ => 0) c loc x s)
    (hfailed : loc x ≠ some .failed) (herase : loc x ≠ some .erase) :
    Ensures ok (queueSegment cfg x) s fun _ s' => Stores cfg content gap s' := by
  have hsound := (h.shows x).sound
  have hzero : update (fun _ : Sid => 0) x 0 = fun _ => 0 := by simp
  refine queueSegment_ensures h.located (by simp [hsound]) (fun _ => hfailed) (fun _ => herase) ?_ ?_
  · intro hbg l hl _
    exact ⟨_, _, h.place hl hbg⟩
  · intro hpl _ l hl _
    have hlive : ∀ p k d, c x p ≠ .live k d := by
      intro p k d hcell
      exact h.shows.place_ne_erase hcell hpl
    have hst : Storing cfg content gap (fun _ => 0) c (update loc x none) x { s with links := l } := by
      refine ⟨h.shows, h.indexed, hl, fun y hy => ?_, h.clean⟩
      rw [update_of_ne hy]
      exact h.placed y hy
    refine (eraseSegment_stored hc hst (update_self _ _ _) hlive).mono ?_
    rintro _ s₁ ⟨-, hs₁, -⟩
    rw [hzero] at hs₁
    exact ⟨_, _, hs₁⟩

end Rtems.FlashDisk
