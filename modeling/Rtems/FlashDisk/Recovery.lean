import Rtems.FlashDisk.ReadWrite

/-!
# Recovery finds what the flash shows

`rtems_fdisk_recover_block_mappings` rebuilds the block table, the descriptors, the counts and the queues
from the flash alone.  On a flash that shows the cells of a store it finds that store; only segments
without erased and live pages are erased on the way, where the erasure is not left to the background.
-/

namespace Rtems.FlashDisk

open Function Rtems.LinkedQueue Rtems.Traced Rtems.LogStore

variable {Sid : Type} [DecidableEq Sid] {cfg : Config Sid} {ok : Event Sid → Prop}
  {content : ℕ → Option Page} {c : Store Sid ℕ Page} {index : ℕ → Option (Sid × ℕ)}
  {loc : Sid → Option QueueName} {s s' : Disk Sid} {x : Sid} {page : ℕ} {done : List Sid}

/-- The flash shows the cells of a store, without the help of memory. -/
structure Legible (cfg : Config Sid) (c : Store Sid ℕ Page) (flash : Sid → FlashSegment) : Prop where
  cell : ∀ x page, page < cfg.pages x →
    ShowsCell cfg ((flash x).descs page) (flash x) page False (c x page)
  inside : ∀ x page block buffer, c x page = .live block buffer → page < cfg.pages x

/-- No segment is left to be erased, but in the background. -/
def Tidy (cfg : Config Sid) (c : Store Sid ℕ Page) : Prop :=
  cfg.backgroundErase = false → ∀ x, ¬ (erasedPages cfg c x = 0 ∧ livePages cfg c x = 0)

omit [DecidableEq Sid] in
theorem Shows.legible (h : Shows cfg c (fun _ => 0) s) : Legible cfg c s.flash := by
  refine ⟨?_, fun x => (h x).inside⟩
  intro x page hp
  have hcell := (h x).cell page hp
  revert hcell
  cases c x page with
  | erased => exact fun hcell => ⟨hcell.2.1.trans hcell.1, rfl, hcell.2.2⟩
  | live block buffer =>
    exact fun hcell => ⟨hcell.2.1.trans hcell.1, rfl, hcell.2.2.1, hcell.2.2.2⟩
  | stale =>
    rintro ⟨hdesc, hlt | hused⟩
    · exact absurd hlt (Nat.not_lt_zero _)
    · exact ⟨rfl, Or.inr (hdesc ▸ hused)⟩

omit [DecidableEq Sid] in
theorem Stored.tidy (h : Stored cfg content none (fun _ => 0) c loc s) : Tidy cfg c := by
  intro hb x hx
  exact h.clean hb x rfl (h.shows.place_eq_erase.mpr hx)

/-- What a page shows. -/
def FlashSegment.cell (f : FlashSegment) (page : ℕ) : Cell ℕ Page :=
  if pageDescErased (f.descs page) then .erased
  else if pageDescFlagsSet (f.descs page) pageUsed then .stale
  else .live (f.descs page).block (f.data page)

/-- A flash that was written by the driver or is erased: pages without descriptor are blank, the
descriptors of the others are in order, and no block is active twice. -/
structure Formatted (cfg : Config Sid) (flash : Sid → FlashSegment) : Prop where
  erased : ∀ x p, p < cfg.pages x → (flash x).cell p = .erased → (flash x).data p = cfg.blankPage
  active : ∀ x p block buffer, p < cfg.pages x → (flash x).cell p = .live block buffer →
    (flash x).descs p = activeDesc block buffer ∧ block < cfg.blockCount
  once : ∀ x p y q block buffer buffer', p < cfg.pages x → q < cfg.pages y →
    (flash x).cell p = .live block buffer → (flash y).cell q = .live block buffer' → y = x ∧ q = p

omit [DecidableEq Sid] in
theorem Formatted.legible {flash : Sid → FlashSegment} (h : Formatted cfg flash) :
    ∃ c index content, Legible cfg c flash ∧ Indexed c index content none := by
  generalize hcells : (fun x p => if p < cfg.pages x then (flash x).cell p else Cell.erased :
    Store Sid ℕ Page) = c
  have hin : ∀ x p, p < cfg.pages x → c x p = (flash x).cell p := by
    intro x p hp
    rw [← hcells]
    exact if_pos hp
  have hinside : ∀ x p block buffer, c x p = .live block buffer → p < cfg.pages x := by
    intro x p block buffer hx
    by_contra hp
    rw [← hcells] at hx
    simp only [if_neg hp] at hx
    cases hx
  obtain ⟨index, content, hi⟩ := exists_indexed c fun x p y q k d d' hx hy => by
    have hp := hinside x p k d hx
    have hq := hinside y q k d' hy
    rw [hin x p hp] at hx
    rw [hin y q hq] at hy
    exact h.once x p y q k d d' hp hq hx hy
  refine ⟨c, index, content, ⟨?_, hinside⟩, hi⟩
  intro x p hp
  rw [hin x p hp]
  cases hcell : (flash x).cell p with
  | erased =>
    have hdata := h.erased x p hp hcell
    unfold FlashSegment.cell at hcell
    split at hcell
    next hblank => exact ⟨pageDescErased_iff.mp hblank, rfl, hdata⟩
    next => split at hcell <;> cases hcell
  | live block buffer =>
    obtain ⟨hdesc, hblock⟩ := h.active x p block buffer hp hcell
    unfold FlashSegment.cell at hcell
    split at hcell
    · cases hcell
    · split at hcell
      · cases hcell
      · exact ⟨hdesc, rfl, (Cell.live.inj hcell).2, hblock⟩
  | stale =>
    unfold FlashSegment.cell at hcell
    split at hcell
    · cases hcell
    · split at hcell
      next hused => exact ⟨rfl, Or.inr hused⟩
      next => cases hcell

omit [DecidableEq Sid] in
theorem formatted_blank : Formatted cfg fun _ => cfg.blankSegment := by
  have hcell : ∀ p, cfg.blankSegment.cell p = .erased := fun p => if_pos rfl
  refine ⟨fun _ _ _ _ => rfl, ?_, ?_⟩
  · intro x p block buffer _ hx
    rw [hcell] at hx
    cases hx
  · intro x p y q block buffer buffer' _ _ hx
    rw [hcell] at hx
    cases hx

/-- The segments of `done` are recovered, and no other is on a queue. -/
structure Recovered (cfg : Config Sid) (content : ℕ → Option Page) (index : ℕ → Option (Sid × ℕ))
    (done : List Sid) (c : Store Sid ℕ Page) (loc : Sid → Option QueueName) (s : Disk Sid) : Prop where
  legible : Legible cfg c s.flash
  indexed : Indexed c index content none
  shows : ∀ x ∈ done, ShowsSegment cfg x (c x) 0 (s.seg x) (s.flash x)
  located : Located cfg.segments s.links loc
  placed : ∀ x ∈ done, loc x = some (place cfg s x)
  unplaced : ∀ x, x ∉ done → loc x = none
  clean : cfg.backgroundErase = false → ∀ x ∈ done, place cfg s x ≠ .erase

/-- The block table holds the entries of the pages seen so far. -/
def Found (index : ℕ → Option (Sid × ℕ)) (seen : Sid → ℕ → Prop)
    (blocks : ℕ → Option (Sid × ℕ)) : Prop :=
  ∀ block x page, blocks block = some (x, page) ↔ index block = some (x, page) ∧ seen x page

/-- The first `page` pages of `x` have been scanned. -/
structure Scanning (cfg : Config Sid) (content : ℕ → Option Page) (index : ℕ → Option (Sid × ℕ))
    (done : List Sid) (c : Store Sid ℕ Page) (loc : Sid → Option QueueName) (x : Sid) (page : ℕ)
    (s : Disk Sid) : Prop where
  recovered : Recovered cfg content index done c loc s
  found : Found index (fun y p => y ∈ done ∨ y = x ∧ p < page) s.blocks
  descs : (s.seg x).pageDescriptors = (s.flash x).descs
  active : (s.seg x).pagesActive = tally Cell.isLive (c x) page
  used : (s.seg x).pagesUsed = tally Cell.isStale (c x) page
  bad : (s.seg x).pagesBad = 0
  sound : (s.seg x).failed = false

omit [DecidableEq Sid] in
/-- A segment that is not recovered yet changes. -/
theorem Recovered.congr (h : Recovered cfg content index done c loc s) (hl : s'.links = s.links)
    (hf : s'.flash = s.flash) (hs : ∀ y ∈ done, s'.seg y = s.seg y) :
    Recovered cfg content index done c loc s' := by
  refine ⟨hf ▸ h.legible, h.indexed, ?_, hl ▸ h.located, ?_, h.unplaced, ?_⟩
  · intro y hy
    rw [hs y hy, hf]
    exact h.shows y hy
  · intro y hy
    rw [place_congr (hs y hy)]
    exact h.placed y hy
  · intro hb y hy
    rw [place_congr (hs y hy)]
    exact h.clean hb y hy

/-! ## Scanning a segment -/

omit [DecidableEq Sid] in
/-- Pages that are not live leave the block table alone. -/
theorem Found.succ_of_not_live {blocks : ℕ → Option (Sid × ℕ)}
    (h : Found index (fun y p => y ∈ done ∨ y = x ∧ p < page) blocks)
    (hi : Indexed c index content none) (hcell : ∀ k d, c x page ≠ .live k d) :
    Found index (fun y p => y ∈ done ∨ y = x ∧ p < page + 1) blocks := by
  intro block y p
  rw [h]
  refine and_congr_right fun hidx => or_congr_right (and_congr_right ?_)
  rintro rfl
  have hne : p ≠ page := by
    rintro rfl
    obtain ⟨d, hd⟩ := hi.mapped block y p hidx (by simp)
    exact hcell block d hd
  omega

omit [DecidableEq Sid] in
theorem Found.succ_of_live {blocks : ℕ → Option (Sid × ℕ)} {block : ℕ} {buffer : Page}
    (h : Found index (fun y p => y ∈ done ∨ y = x ∧ p < page) blocks)
    (hi : Indexed c index content none) (hcell : c x page = .live block buffer) :
    Found index (fun y p => y ∈ done ∨ y = x ∧ p < page + 1)
      (update blocks block (some (x, page))) := by
  have hidx := (hi.live x page block buffer hcell).1
  intro k y p
  by_cases hk : k = block
  · subst hk
    rw [update_self, hidx, Option.some.injEq, Prod.mk.injEq]
    constructor
    · rintro ⟨rfl, rfl⟩
      exact ⟨⟨rfl, rfl⟩, Or.inr ⟨rfl, Nat.lt_succ_self _⟩⟩
    · exact And.left
  · rw [update_of_ne hk, h]
    refine and_congr_right fun hidx' => or_congr_right (and_congr_right ?_)
    rintro rfl
    have hne : p ≠ page := by
      rintro rfl
      obtain ⟨d, hd⟩ := hi.mapped k y p hidx' (by simp)
      rw [hcell] at hd
      cases hd
      exact hk rfl
    omega

theorem recoverPage_scanning (hc : Reliable cfg) (hx : x ∉ done) (hp : page < cfg.pages x)
    (h : Scanning cfg content index done c loc x page s) :
    Ensures ok (recoverPage cfg x page) s fun _ => Scanning cfg content index done c loc x (page + 1) := by
  have hcell := h.recovered.legible.cell x page hp
  have hlt := cfg.pages_lt x
  have hlive := tally_le Cell.isLive (c x) page
  have hstale := tally_le Cell.isStale (c x) page
  have hother : ∀ g : SegmentCtl → SegmentCtl, ∀ y ∈ done, (s.updSeg x g).seg y = s.seg y := by
    intro g y hy
    have hne : y ≠ x := by
      rintro rfl
      exact hx hy
    exact update_of_ne hne _ _
  simp only [recoverPage, ensures_bind, ensures_get, h.descs]
  cases hpage : c x page with
  | erased =>
    rw [hpage] at hcell
    rw [if_pos (pageDescErased_iff.mpr hcell.1)]
    simp only [ensures_bind, segBlankCheckPage]
    refine segTest_reliable hc fun s₁ hs₁ => ?_
    simp only [hcell.2.2, decide_true, if_true, ensures_modify]
    have hfound := h.found.succ_of_not_live h.recovered.indexed (by simp [hpage])
    refine ⟨h.recovered.congr hs₁.links hs₁.flash fun y _ => congrFun hs₁.seg y, ?_, ?_, ?_, ?_, ?_, ?_⟩
    · show Found _ _ s₁.blocks
      rw [hs₁.blocks]
      exact hfound
    · show (s₁.seg x).pageDescriptors = (s₁.flash x).descs
      rw [hs₁.seg, hs₁.flash]
      exact h.descs
    · show (s₁.seg x).pagesActive = _
      rw [hs₁.seg, tally_succ, hpage, h.active]
      rfl
    · show (s₁.seg x).pagesUsed = _
      rw [hs₁.seg, tally_succ, hpage, h.used]
      rfl
    · show (s₁.seg x).pagesBad = 0
      rw [hs₁.seg, h.bad]
    · show (s₁.seg x).failed = false
      rw [hs₁.seg, h.sound]
  | stale =>
    rw [hpage] at hcell
    have hused := hcell.2.resolve_left id
    rw [if_neg (fun hb => flagsSet_used_ne_blank hused (pageDescErased_iff.mp hb)), if_pos hused,
      ensures_modify]
    refine ⟨h.recovered.congr rfl rfl (hother _),
      h.found.succ_of_not_live h.recovered.indexed (by simp [hpage]), ?_, ?_, ?_, ?_, ?_⟩
    · simpa [Disk.updSeg] using h.descs
    · simpa [Disk.updSeg, tally_succ, hpage, Cell.isLive] using h.active
    · simp only [Disk.updSeg, update_self, tally_succ, hpage, Cell.isStale, if_true]
      rw [h.used, inc32_of_lt (by omega)]
    · simpa [Disk.updSeg] using h.bad
    · simpa [Disk.updSeg] using h.sound
  | live block buffer =>
    rw [hpage] at hcell
    have hidx := (h.recovered.indexed.live x page block buffer hpage).1
    have hnone : s.blocks block = none := by
      cases hb : s.blocks block with
      | none => rfl
      | some e =>
        obtain ⟨hi, hseen⟩ := (h.found block e.1 e.2).mp hb
        rw [hidx] at hi
        cases hi
        rcases hseen with hd | ⟨-, hlt⟩
        · exact absurd hd hx
        · exact absurd hlt (lt_irrefl _)
    have hrange : ¬ cfg.blockCount ≤ block := not_le.mpr hcell.2.2.2
    rw [hcell.1, if_neg (fun hb => activeDesc_ne_blank (pageDescErased_iff.mp hb)), if_neg (by simp),
      if_pos (by simp), if_neg (by simp [activeDesc, hnone, hrange]), ensures_modify]
    refine ⟨h.recovered.congr rfl rfl (hother fun g => { g with pagesActive := inc32 g.pagesActive }),
      h.found.succ_of_live h.recovered.indexed hpage, ?_, ?_, ?_, ?_, ?_⟩
    · simpa [Disk.foundBlock, Disk.updSeg] using h.descs
    · simp only [Disk.foundBlock, Disk.updSeg, update_self, tally_succ, hpage, Cell.isLive, if_true]
      rw [h.active, inc32_of_lt (by omega)]
    · simpa [Disk.foundBlock, Disk.updSeg, tally_succ, hpage, Cell.isStale] using h.used
    · simpa [Disk.foundBlock, Disk.updSeg] using h.bad
    · simpa [Disk.foundBlock, Disk.updSeg] using h.sound

theorem recoverPages_scanning (hc : Reliable cfg) (hx : x ∉ done) (n : ℕ)
    (hn : page + n = cfg.pages x) (h : Scanning cfg content index done c loc x page s) :
    Ensures ok (recoverPages cfg x (List.range' page n)) s fun _ =>
      Scanning cfg content index done c loc x (cfg.pages x) := by
  induction n generalizing page s with
  | zero =>
    simp only [List.range'_zero, recoverPages, ensures_pure]
    exact hn ▸ h
  | succ n ih =>
    simp only [List.range'_succ, recoverPages, ensures_bind]
    exact (recoverPage_scanning hc hx (by omega) h).mono fun _ s₁ hs₁ => ih (by omega) hs₁

/-! ## Recovering the segments -/

/-- The segments of `done` are recovered with their part of the block table; nothing was erased if
nothing was left to be erased. -/
def RecoveredFrom (cfg : Config Sid) (content : ℕ → Option Page) (index : ℕ → Option (Sid × ℕ))
    (done : List Sid) (c₀ : Store Sid ℕ Page) (s : Disk Sid) : Prop :=
  ∃ c loc, Recovered cfg content index done c loc s ∧ Found index (fun y _ => y ∈ done) s.blocks ∧
    (Tidy cfg c₀ → c = c₀)

omit [DecidableEq Sid] in
/-- A scanned segment shows its cells. -/
theorem Scanning.showsSegment (h : Scanning cfg content index done c loc x (cfg.pages x) s) :
    ShowsSegment cfg x (c x) 0 (s.seg x) (s.flash x) := by
  refine ⟨?_, h.recovered.legible.inside x, h.active, h.used, h.bad, h.sound⟩
  intro page hp
  rw [h.descs, eq_false (Nat.not_lt_zero page)]
  exact h.recovered.legible.cell x page hp

omit [DecidableEq Sid] in
theorem Scanning.foundAll (h : Scanning cfg content index done c loc x (cfg.pages x) s) :
    Found index (fun y _ => y ∈ done ++ [x]) s.blocks := by
  intro block y p
  rw [h.found]
  simp only [List.mem_append, List.mem_singleton]
  refine and_congr_right fun hidx => or_congr_right (and_iff_left_of_imp ?_)
  rintro rfl
  obtain ⟨d, hd⟩ := h.recovered.indexed.mapped block y p hidx (by simp)
  exact h.recovered.legible.inside y p block d hd

/-- The scanned segment joins the recovered ones. -/
theorem Recovered.snoc {q : QueueName} {c' : Store Sid ℕ Page}
    (h : Recovered cfg content index done c loc s) (hx : x ∉ done) (hleg : Legible cfg c' s'.flash)
    (hi : Indexed c' index content none)
    (hcx : ShowsSegment cfg x (c' x) 0 (s'.seg x) (s'.flash x)) (hcy : ∀ y ∈ done, c' y = c y)
    (hs : ∀ y ∈ done, s'.seg y = s.seg y) (hf : ∀ y ∈ done, s'.flash y = s.flash y)
    (hl : Located cfg.segments s'.links (update loc x (some q))) (hq : place cfg s' x = q)
    (hclean : cfg.backgroundErase = false → q ≠ .erase) :
    Recovered cfg content index (done ++ [x]) c' (update loc x (some q)) s' := by
  have hne : ∀ y ∈ done, y ≠ x := by
    rintro y hy rfl
    exact hx hy
  refine ⟨hleg, hi, ?_, hl, ?_, ?_, ?_⟩
  · intro y hy
    rcases List.mem_append.mp hy with hy | hy
    · rw [hcy y hy, hs y hy, hf y hy]
      exact h.shows y hy
    · rw [List.mem_singleton.mp hy]
      exact hcx
  · intro y hy
    rcases List.mem_append.mp hy with hy | hy
    · rw [update_of_ne (hne y hy), place_congr (hs y hy)]
      exact h.placed y hy
    · rw [List.mem_singleton.mp hy, update_self, hq]
  · intro y hy
    rw [List.mem_append, List.mem_singleton, not_or] at hy
    rw [update_of_ne hy.2]
    exact h.unplaced y hy.1
  · intro hb y hy
    rcases List.mem_append.mp hy with hy | hy
    · rw [place_congr (hs y hy)]
      exact h.clean hb y hy
    · rw [List.mem_singleton.mp hy, hq]
      exact hclean hb

theorem Scanning.queueSegment (hc : Reliable cfg) (hx : x ∉ done)
    (h : Scanning cfg content index done c loc x (cfg.pages x) s) :
    Ensures ok (queueSegment cfg x) s fun _ => RecoveredFrom cfg content index (done ++ [x]) c := by
  have hr := h.recovered
  have hnone := hr.unplaced x hx
  have hshows := h.showsSegment
  refine queueSegment_ensures hr.located (by simp [hnone]) (by simp [hnone]) (by simp [hnone]) ?_ ?_
  · intro hbg l hl _
    refine ⟨c, update loc x (some (place cfg s x)), ?_, h.foundAll, fun _ => rfl⟩
    refine hr.snoc hx hr.legible hr.indexed hshows (fun _ _ => rfl) (fun _ _ => rfl) (fun _ _ => rfl)
      hl (place_congr rfl) ?_
    intro hb hpl
    rw [hbg hpl] at hb
    cases hb
  · intro hpl hbg l hl _
    have hwaste := hshows.place_eq_erase.mp hpl
    have hlive : ∀ p k d, c x p ≠ .live k d := by
      intro p k d hcell
      have hp := tally_eq_zero.mp hwaste.2 p (hr.legible.inside x p k d hcell)
      simp [hcell, Cell.isLive] at hp
    refine eraseSegment_ensures hl (update_self _ _ _) ?_ ?_
    · intro _ l' hl' _
      rw [update_idem] at hl'
      generalize hs' : Disk.erased cfg { s with links := l } x l' = s'
      have hseg : s'.seg = update s.seg x ⟨fun _ => PageDesc.blank, 0, 0, 0, false⟩ := by
        rw [← hs']
        rfl
      have hflash : s'.flash = update s.flash x cfg.blankSegment := by
        simp [← hs', Disk.erased, hc.address]
      have hcx : ShowsSegment cfg x (c.reclaim x x) 0 (s'.seg x) (s'.flash x) := by
        rw [hseg, hflash, update_self, update_self, Store.reclaim_self]
        exact ShowsSegment.blank
      have hne : ∀ y ∈ done, y ≠ x := by
        rintro y hy rfl
        exact hx hy
      have hlegible : Legible cfg (c.reclaim x) s'.flash := by
        refine ⟨?_, ?_⟩
        · intro y p hp
          by_cases hy : y = x
          · subst hy
            rw [hflash, update_self, Store.reclaim_self]
            exact ⟨rfl, rfl, rfl⟩
          · rw [hflash, update_of_ne hy, Store.reclaim_of_ne hy]
            exact hr.legible.cell y p hp
        · intro y p k d hcell
          by_cases hy : y = x
          · subst hy
            simp at hcell
          · rw [Store.reclaim_of_ne hy] at hcell
            exact hr.legible.inside y p k d hcell
      refine ⟨c.reclaim x, update loc x (some .available), ?_, ?_, ?_⟩
      · refine hr.snoc hx hlegible (hr.indexed.reclaim hlive) hcx ?_ ?_ ?_ (hs' ▸ hl') ?_ (by simp)
        · exact fun y hy => Store.reclaim_of_ne (hne y hy)
        · exact fun y hy => by rw [hseg, update_of_ne (hne y hy)]
        · exact fun y hy => by rw [hflash, update_of_ne (hne y hy)]
        · rw [hcx.place_eq_available, Store.reclaim_self, tally_erased]
          exact (cfg.pages_pos x).ne'
      · rw [← hs']
        exact h.foundAll
      · intro htidy
        exact absurd hwaste (htidy hbg x)
    · intro e he
      rw [hc.fault] at he
      cases he

/-- The segment when its descriptors have been read. -/
theorem Recovered.scanning {s₁ : Disk Sid} (h : Recovered cfg content index done c loc s)
    (hx : x ∉ done) (hfound : Found index (fun y _ => y ∈ done) s.blocks)
    (hs₁ : Reflash (s.beginScan cfg x) s₁ s.flash) :
    Scanning cfg content index done c loc x 0
      (s₁.updSeg x fun g => { g with pageDescriptors := (s.flash x).descs }) := by
  generalize hs₂ : s₁.updSeg x _ = s₂
  have hseg : s₂.seg = update s.seg x ⟨(s.flash x).descs, 0, 0, 0, false⟩ := by
    simp [← hs₂, Disk.updSeg, hs₁.seg, Disk.beginScan]
  have hflash : s₂.flash = s.flash := by
    simp [← hs₂, Disk.updSeg, hs₁.flash]
  have hblocks : s₂.blocks = s.blocks := by
    simp [← hs₂, Disk.updSeg, hs₁.blocks, Disk.beginScan]
  have hlinks : s₂.links = s.links := by
    simp [← hs₂, Disk.updSeg, hs₁.links, Disk.beginScan]
  refine ⟨h.congr hlinks hflash ?_, ?_, by simp [hseg, hflash], ?_, ?_, by simp [hseg],
    by simp [hseg]⟩
  · intro y hy
    have hne : y ≠ x := by
      rintro rfl
      exact hx hy
    rw [hseg, update_of_ne hne]
  · rw [hblocks]
    simpa using hfound
  · simp [hseg, tally]
  · simp [hseg, tally]

theorem recoverSegment_recovered (hc : Reliable cfg) (hx : x ∉ done)
    (h : RecoveredFrom cfg content index done c s) :
    Ensures ok (recoverSegment cfg x) s fun ret s' =>
      ret = 0 ∧ RecoveredFrom cfg content index (done ++ [x]) c s' := by
  obtain ⟨c₁, loc, hr, hfound, htidy⟩ := h
  simp only [recoverSegment, ensures_bind, ensures_modify]
  refine segRead_reliable hc fun s₁ hs₁ => ?_
  simp only [ensures_bind, ensures_modify, ensures_pure]
  rw [List.range_eq_range']
  have hscan := hr.scanning hx hfound hs₁
  refine (recoverPages_scanning hc hx _ (Nat.zero_add _) hscan).mono fun _ s₃ hs₃ => ?_
  refine (hs₃.queueSegment hc hx).mono ?_
  rintro _ s₄ ⟨c₂, loc₂, hr₂, hfound₂, htidy₂⟩
  refine ⟨trivial, c₂, loc₂, hr₂, hfound₂, fun ht => ?_⟩
  rw [htidy ht] at htidy₂
  exact htidy₂ ht

theorem recoverSegments_recovered (hc : Reliable cfg) (rest : List Sid)
    (hnodup : (done ++ rest).Nodup) (h : RecoveredFrom cfg content index done c s) :
    Ensures ok (recoverSegments cfg rest) s fun ret s' =>
      ret = 0 ∧ RecoveredFrom cfg content index (done ++ rest) c s' := by
  induction rest generalizing done s with
  | nil =>
    simp only [recoverSegments, ensures_pure, List.append_nil]
    exact ⟨trivial, h⟩
  | cons x rest ih =>
    have hx : x ∉ done := by
      intro hx
      exact List.disjoint_of_nodup_append hnodup hx (by simp)
    simp only [recoverSegments, ensures_bind]
    refine (recoverSegment_recovered hc hx h).mono ?_
    rintro _ s₁ ⟨rfl, hs₁⟩
    rw [List.append_cons] at hnodup ⊢
    rw [if_neg (by simp)]
    exact ih hnodup hs₁

omit [DecidableEq Sid] in
/-- Nothing is recovered when the tables have been cleared. -/
theorem recoveredFrom_start (hleg : Legible cfg c s.flash) (hi : Indexed c index content none) :
    RecoveredFrom cfg content index [] c
      { s with
        links := ⟨s.links.next, fun _ => ⟨none, none, 0⟩⟩
        blocks := fun _ => none
        erasedBlocks := 0
        starvationThreshold := 0 } := by
  refine ⟨c, fun _ => none, ⟨hleg, hi, by simp, ⟨⟨_, Rep.empty _, by simp⟩, cfg.segments_complete⟩,
    by simp, by simp, by simp⟩, ?_, fun _ => rfl⟩
  intro block y p
  simp

/-- Recovery from a flash that shows a store. -/
theorem recoverBlockMappings_stored (hc : Reliable cfg) (hleg : Legible cfg c s.flash)
    (hi : Indexed c index content none) :
    Ensures ok (recoverBlockMappings cfg) s fun ret s' => ret = 0 ∧ s'.blocks = index ∧
      ∃ c' loc, Stored cfg content none (fun _ => 0) c' loc s' ∧ (Tidy cfg c → c' = c) := by
  simp only [recoverBlockMappings, ensures_bind, ensures_modify]
  refine (recoverSegments_recovered hc _ (by simpa using cfg.segments_nodup)
    (recoveredFrom_start hleg hi)).mono ?_
  rintro ret s' ⟨hret, c', loc, hr, hfound, htidy⟩
  rw [List.nil_append] at hr hfound
  have hall := cfg.segments_complete
  have hblocks : s'.blocks = index := by
    funext block
    refine Option.ext fun e => ?_
    rw [hfound block e.1 e.2]
    exact and_iff_left (hall e.1)
  refine ⟨hret, hblocks, c', loc, ⟨fun x => hr.shows x (hall x), ?_, ⟨hr.located, ?_⟩, ?_⟩, htidy⟩
  · rw [hblocks]
    exact hr.indexed
  · exact fun x => Or.inl (hr.placed x (hall x))
  · exact fun hb x _ => hr.clean hb x (hall x)

/-! ## The recovery returns -/

omit [DecidableEq Sid] in
theorem driverCall_returns : Returns (driverCall cfg) s := by simp [driverCall]

omit [DecidableEq Sid] in
theorem segTest_returns {f : FlashSegment → Bool} : Returns (segTest cfg x f) s := by
  refine driverCall_returns.bind fun fault s₁ => returns_get.bind fun _ s₂ => ?_
  cases fault <;> exact returns_pure

omit [DecidableEq Sid] in
theorem segRead_returns {α : Type} {f : FlashSegment → α} : Returns (segRead cfg x f) s := by
  refine driverCall_returns.bind fun fault s₁ => returns_get.bind fun _ s₂ => ?_
  cases fault <;> exact returns_pure

theorem segWrite_returns {part : Part} {f : FlashSegment → FlashSegment} :
    Returns (segWrite cfg x part page f) s := by
  refine returns_get.bind fun t s₁ => returns_report.bind fun _ s₂ => ?_
  refine driverCall_returns.bind fun fault s₃ => ?_
  cases fault with
  | none => simp [setFlash]
  | some e => simp [setFlash, setFailed]

theorem segWritePageDesc_returns {pd : PageDesc} : Returns (segWritePageDesc cfg x page pd) s := by
  unfold segWritePageDesc blankCheckFirst
  split
  · refine segTest_returns.bind fun ret s₁ => ?_
    split
    · exact segWrite_returns
    · exact returns_pure
  · exact segWrite_returns

theorem recoverPage_returns : Returns (recoverPage cfg x page) s := by
  refine returns_get.bind fun t s₁ => ?_
  simp only
  split
  · refine segTest_returns.bind fun ret s₂ => ?_
    split
    · exact returns_modify
    · refine returns_modify.bind fun _ s₃ => segWritePageDesc_returns.bind fun _ s₄ => ?_
      exact returns_modify
  · split
    · exact returns_modify
    · split
      · split
        · exact returns_modify
        · exact returns_modify
      · exact returns_modify

theorem recoverPages_returns (pages : List ℕ) : Returns (recoverPages cfg x pages) s := by
  induction pages generalizing s with
  | nil => exact returns_pure
  | cons page rest ih => exact recoverPage_returns.bind fun _ _ => ih

theorem eraseSegment_returns (h : Located cfg.segments s.links loc) :
    Returns (eraseSegment cfg x) s := by
  simp only [eraseSegment, driverCall, returns_bind, ensures_bind, returns_get, ensures_get,
    returns_modify, ensures_modify, returns_pure, ensures_pure, true_and]
  cases cfg.fault s.calls with
  | none => simp [setFlash, pushTail]
  | some e =>
    simp only [setFlash, setFailed, present, returns_bind, ensures_bind, returns_get, ensures_get,
      returns_modify, ensures_modify, returns_report, ensures_report, returns_lift, ensures_lift,
      true_and, true_imp_iff]
    refine ⟨⟨_, h.present⟩, fun onFailed _ => ?_⟩
    cases onFailed <;> simp [pushTail]

theorem insertSorted_returns {q : QueueName} {before : Disk Sid → Sid → Bool}
    (h : Located cfg.segments s.links loc) (hx : loc x = none) :
    Returns (insertSorted cfg q x before) s := by
  simp only [insertSorted, returns_bind, returns_get, ensures_get, returns_lift, ensures_lift, true_and]
  obtain ⟨o, ho, hmem⟩ := h.findFrom (q := q) (p := before s)
  refine ⟨⟨o, ho⟩, fun o' ho' => ?_⟩
  rw [ho] at ho'
  cases ho'
  cases o with
  | none => simp [pushTail]
  | some item =>
    simp only [insertBefore, returns_bind, returns_get, ensures_get, returns_lift, ensures_lift,
      returns_modify, implies_true, and_true, true_and]
    obtain ⟨l, hl, -⟩ := h.insertBefore hx (hmem item rfl)
    exact ⟨l, hl⟩

theorem remove_returns {q : QueueName} (h : Located cfg.segments s.links loc) :
    Returns (remove cfg q x) s := by
  simp only [remove, returns_bind, returns_get, ensures_get, returns_lift, ensures_lift,
    returns_modify, implies_true, and_true, true_and]
  obtain ⟨l, hl, -⟩ := h.remove (q := q) (x := x)
  exact ⟨l, hl⟩

/-- Queueing a segment that is on no queue. -/
theorem queueSegment_returns (h : Located cfg.segments s.links loc) (hx : loc x = none) :
    Returns (queueSegment cfg x) s := by
  simp only [queueSegment, returns_bind, returns_get, ensures_get, returns_report, ensures_report,
    true_and, true_imp_iff]
  split
  · refine Returns.bind ?_ fun onFailed s₁ => ?_
    · simp only [present, returns_bind, returns_get, ensures_get, returns_lift, true_and]
      exact ⟨_, h.present⟩
    · split
      · exact returns_modify
      · exact returns_pure
  · simp only [returns_bind]
    refine ⟨remove_returns h, remove_ensures h fun l₁ hl₁ _ => ?_⟩
    rw [if_neg (by simp [hx])] at hl₁
    refine ⟨remove_returns hl₁, remove_ensures hl₁ fun l₂ hl₂ _ => ?_⟩
    rw [if_neg (by simp [hx])] at hl₂
    simp only [placeSegment, returns_bind, returns_get, ensures_get, true_and]
    split
    · split
      · exact insertSorted_returns hl₂ hx
      · split
        · exact returns_modify
        · exact (eraseSegment_returns hl₂).bind fun _ _ => returns_pure
    · exact insertSorted_returns hl₂ hx

theorem recoverSegment_returns (hc : Reliable cfg) (hx : x ∉ done)
    (h : RecoveredFrom cfg content index done c s) : Returns (recoverSegment cfg x) s := by
  obtain ⟨c₁, loc, hr, hfound, -⟩ := h
  simp only [recoverSegment, returns_bind, returns_modify, ensures_modify, true_and]
  refine ⟨segRead_returns, segRead_reliable hc fun s₁ hs₁ => ?_⟩
  simp only [returns_bind, returns_modify, ensures_modify, true_and]
  refine ⟨recoverPages_returns _, ?_⟩
  have hscan := hr.scanning hx hfound hs₁
  rw [List.range_eq_range']
  refine (recoverPages_scanning hc hx _ (Nat.zero_add _) hscan).mono fun _ s₃ hs₃ => ?_
  have hloc := hs₃.recovered
  exact ⟨queueSegment_returns hloc.located (hloc.unplaced x hx), fun _ _ _ _ _ => returns_pure⟩

theorem recoverSegments_returns (hc : Reliable cfg) (rest : List Sid)
    (hnodup : (done ++ rest).Nodup) (h : RecoveredFrom cfg content index done c s) :
    Returns (recoverSegments cfg rest) s := by
  induction rest generalizing done s with
  | nil => exact returns_pure
  | cons x rest ih =>
    have hx : x ∉ done := by
      intro hx
      exact List.disjoint_of_nodup_append hnodup hx (by simp)
    rw [List.append_cons] at hnodup
    rw [recoverSegments, returns_bind]
    refine ⟨recoverSegment_returns hc hx h, (recoverSegment_recovered hc hx h).mono ?_⟩
    rintro ret s₁ ⟨rfl, hs₁⟩
    rw [if_neg (by simp)]
    exact ih hnodup hs₁

theorem recoverBlockMappings_returns (hc : Reliable cfg) (hleg : Legible cfg c s.flash)
    (hi : Indexed c index content none) : Returns (recoverBlockMappings cfg) s := by
  rw [recoverBlockMappings, returns_bind, ensures_modify]
  exact ⟨returns_modify, recoverSegments_returns hc _ (by simpa using cfg.segments_nodup)
    (recoveredFrom_start hleg hi)⟩

end Rtems.FlashDisk
