import Rtems.FlashDisk.Pages

/-!
# What memory claims about the flash

Whether a page is erased is decided from its descriptor in memory.  With a driver that never fails the
descriptors in memory are those in flash, and a page with an erased descriptor is erased: this holds of
every flash image, whatever its descriptors say.  As long as no exit loses count, the count of erased
blocks is the number of the erased descriptors, and what a segment has available is the number of its
own.
-/

namespace Rtems.FlashDisk

open Function Rtems.LinkedQueue Rtems.Traced Rtems.LogStore

variable {Sid : Type} [DecidableEq Sid] {cfg : Config Sid} {ok : Event Sid → Prop}
  {s s' : Disk Sid} {x y : Sid} {page passed : ℕ} {counting : Prop} {xs : List Sid}

/-! ## Writes to the driver -/

/-- What a write may program: a page or a descriptor where it is erased, and flags that are still
set. -/
def Programs (cfg : Config Sid) (page : ℕ) (before after : FlashSegment) : Part → Prop
  | .page => before.data page = cfg.blankPage ∧
      ∃ buffer, after = { before with data := update before.data page buffer }
  | .desc => before.descs page = PageDesc.blank ∧
      ∃ pd, after = { before with descs := update before.descs page pd }
  | .flags => ∃ flags, (before.descs page).flags &&& flags = flags ∧
      after = { before with
        descs := update before.descs page { before.descs page with flags := flags } }

/-- Bits only change from one to zero.  A block number is programmed as a whole while all its bits are
set. -/
structure ClearsBits (before after : FlashSegment) : Prop where
  data : ∀ (page i : ℕ) (b a : BitVec 8), (before.data page)[i]? = some b → (after.data page)[i]? = some a →
    b &&& a = a
  crc : ∀ page, (before.descs page).crc &&& (after.descs page).crc = (after.descs page).crc
  flags : ∀ page,
    (before.descs page).flags &&& (after.descs page).flags = (after.descs page).flags
  block : ∀ page, (before.descs page).block = 0xffffffff ∨
    (after.descs page).block = (before.descs page).block

/-- The event is no write, or one that programs what may be programmed. -/
def Event.Disciplined (cfg : Config Sid) : Event Sid → Prop
  | .write _ part page before after => Programs cfg page before after part
  | _ => True

theorem ones_and {n : ℕ} (a : BitVec n) : BitVec.allOnes n &&& a = a := by simp

omit [DecidableEq Sid] in
theorem Programs.clearsBits {before after : FlashSegment} {part : Part}
    (h : Programs cfg page before after part) : ClearsBits before after := by
  have hsame : ∀ (q i : ℕ) (b a : BitVec 8), (before.data q)[i]? = some b →
      (before.data q)[i]? = some a → b &&& a = a := by
    intro q i b a hb ha
    rw [hb] at ha
    cases ha
    simp
  cases part with
  | page =>
    obtain ⟨hblank, buffer, rfl⟩ := h
    refine ⟨fun q i b a hb ha => ?_, by simp, by simp, fun q => Or.inr rfl⟩
    by_cases hq : q = page
    · subst hq
      rw [hblank, Config.blankPage, List.getElem?_replicate] at hb
      split at hb
      · cases hb
        exact ones_and a
      · cases hb
    · simp only [update_of_ne hq] at ha
      exact hsame q i b a hb ha
  | desc =>
    obtain ⟨hblank, pd, rfl⟩ := h
    have hdesc : ∀ (q : ℕ), q = page ∧ before.descs q = PageDesc.blank ∨
        update before.descs page pd q = before.descs q := by
      intro q
      by_cases hq : q = page
      · exact Or.inl ⟨hq, hq ▸ hblank⟩
      · exact Or.inr (update_of_ne hq _ _)
    refine ⟨hsame, fun q => ?_, fun q => ?_, fun q => ?_⟩
    · rcases hdesc q with ⟨-, hq⟩ | hq
      · rw [hq]
        exact ones_and _
      · simp [hq]
    · rcases hdesc q with ⟨-, hq⟩ | hq
      · rw [hq]
        exact ones_and _
      · simp [hq]
    · rcases hdesc q with ⟨-, hq⟩ | hq
      · rw [hq]
        exact Or.inl rfl
      · exact Or.inr (congrArg PageDesc.block hq)
  | flags =>
    obtain ⟨flags, hclear, rfl⟩ := h
    refine ⟨hsame, fun q => ?_, fun q => ?_, fun q => ?_⟩
    · by_cases hq : q = page
      · subst hq
        simp
      · simp [hq]
    · by_cases hq : q = page
      · subst hq
        simpa using hclear
      · simp [hq]
    · by_cases hq : q = page
      · subst hq
        simp
      · simp [hq]

/-! ## Erased descriptors -/

/-- The pages of a segment with an erased descriptor in memory. -/
def erasedDescs (cfg : Config Sid) (s : Disk Sid) (x : Sid) : ℕ := erasedBefore s x (cfg.pages x)

/-- What memory holds of the segments `xs` is what the flash holds. -/
structure Faithful (cfg : Config Sid) (xs : List Sid) (s : Disk Sid) : Prop where
  descs : ∀ x ∈ xs, (s.seg x).pageDescriptors = (s.flash x).descs
  blank : ∀ x ∈ xs, ∀ page, page < cfg.pages x → (s.flash x).descs page = PageDesc.blank →
    (s.flash x).data page = cfg.blankPage

/-- The counts of the segments `xs` are right, but for `passed` erased blocks that a recycling has
taken off already. -/
structure Counted (cfg : Config Sid) (xs : List Sid) (passed : ℕ) (s : Disk Sid) : Prop where
  nodup : xs.Nodup
  active_lt : ∀ x ∈ xs, (s.seg x).pagesActive < 4294967296
  used_lt : ∀ x ∈ xs, (s.seg x).pagesUsed < 4294967296
  available : ∀ x ∈ xs, segPagesAvailable cfg s x = erasedDescs cfg s x
  total : s.erasedBlocks + passed = (xs.map (erasedDescs cfg s)).sum

/-- The disk is faithful, and counted if no exit loses count. -/
structure Sound (cfg : Config Sid) (counting : Prop) (xs : List Sid) (passed : ℕ)
    (s : Disk Sid) : Prop where
  faithful : Faithful cfg xs s
  counted : counting → Counted cfg xs passed s

section

omit [DecidableEq Sid]

theorem erasedDescs_congr (h : s'.seg x = s.seg x) : erasedDescs cfg s' x = erasedDescs cfg s x := by
  unfold erasedDescs erasedBefore
  rw [h]

theorem segPagesAvailable_congr (h : s'.seg x = s.seg x) :
    segPagesAvailable cfg s' x = segPagesAvailable cfg s x := by
  unfold segPagesAvailable
  rw [h]

theorem erasedDescs_le : erasedDescs cfg s x ≤ cfg.pages x := tally_le _ _ _

theorem Faithful.congr (h : Faithful cfg xs s)
    (hs : ∀ y, (s'.seg y).pageDescriptors = (s.seg y).pageDescriptors) (hf : s'.flash = s.flash) :
    Faithful cfg xs s' := by
  refine ⟨fun y hy => ?_, hf ▸ h.blank⟩
  rw [hs y, hf]
  exact h.descs y hy

/-- One segment changes. -/
theorem Faithful.modify (h : Faithful cfg xs s)
    (hs : ∀ y, y ≠ x → (s'.seg y).pageDescriptors = (s.seg y).pageDescriptors)
    (hf : ∀ y, y ≠ x → s'.flash y = s.flash y)
    (hdescs : (s'.seg x).pageDescriptors = (s'.flash x).descs)
    (hblank : ∀ page, page < cfg.pages x → (s'.flash x).descs page = PageDesc.blank →
      (s'.flash x).data page = cfg.blankPage) : Faithful cfg xs s' := by
  refine ⟨fun y hy => ?_, fun y hy => ?_⟩
  · by_cases hyx : y = x
    · subst hyx
      exact hdescs
    · rw [hs y hyx, hf y hyx]
      exact h.descs y hy
  · by_cases hyx : y = x
    · subst hyx
      exact hblank
    · rw [hf y hyx]
      exact h.blank y hy

/-- One segment changes, and the count of erased blocks with it. -/
theorem Counted.modify {passed' : ℕ} (h : Counted cfg xs passed s) (hx : x ∈ xs)
    (hs : ∀ y, y ≠ x → s'.seg y = s.seg y) (hactive : (s'.seg x).pagesActive < 4294967296)
    (hused : (s'.seg x).pagesUsed < 4294967296)
    (havail : segPagesAvailable cfg s' x = erasedDescs cfg s' x)
    (htotal : s'.erasedBlocks + passed' + erasedDescs cfg s x =
      s.erasedBlocks + passed + erasedDescs cfg s' x) : Counted cfg xs passed' s' := by
  refine ⟨h.nodup, fun y hy => ?_, fun y hy => ?_, fun y hy => ?_, ?_⟩
  · by_cases hyx : y = x
    · exact hyx ▸ hactive
    · rw [hs y hyx]
      exact h.active_lt y hy
  · by_cases hyx : y = x
    · exact hyx ▸ hused
    · rw [hs y hyx]
      exact h.used_lt y hy
  · by_cases hyx : y = x
    · exact hyx ▸ havail
    · rw [segPagesAvailable_congr (hs y hyx), erasedDescs_congr (hs y hyx)]
      exact h.available y hy
  · have hsum : (xs.map (erasedDescs cfg s')).sum + erasedDescs cfg s x =
        (xs.map (erasedDescs cfg s)).sum + erasedDescs cfg s' x :=
      sum_map_change h.nodup hx fun y _ hyx => erasedDescs_congr (hs y hyx)
    have := h.total
    omega

theorem Counted.congr (h : Counted cfg xs passed s) (hs : s'.seg = s.seg)
    (he : s'.erasedBlocks = s.erasedBlocks) : Counted cfg xs passed s' := by
  refine ⟨h.nodup, hs ▸ h.active_lt, hs ▸ h.used_lt, fun y hy => ?_, ?_⟩
  · rw [segPagesAvailable_congr (congrFun hs y), erasedDescs_congr (congrFun hs y)]
    exact h.available y hy
  · have hmap : xs.map (erasedDescs cfg s') = xs.map (erasedDescs cfg s) :=
      List.map_congr_left fun y _ => erasedDescs_congr (congrFun hs y)
    rw [hmap, he, h.total]

theorem Sound.congr (h : Sound cfg counting xs passed s) (hs : s'.seg = s.seg)
    (hf : s'.flash = s.flash) (he : s'.erasedBlocks = s.erasedBlocks) :
    Sound cfg counting xs passed s' :=
  ⟨h.faithful.congr (fun y => by rw [hs]) hf, fun hcount => (h.counted hcount).congr hs he⟩

/-- The erased pages of a segment are among the erased blocks. -/
theorem Counted.erasedDescs_le (h : Counted cfg xs passed s) (hx : x ∈ xs) :
    erasedDescs cfg s x ≤ s.erasedBlocks + passed := by
  rw [h.total]
  exact List.single_le_sum (by simp) _ (List.mem_map_of_mem hx)

/-- The first available page has an erased descriptor. -/
theorem segNextAvailablePage_erased (h : segNextAvailablePage cfg s x < cfg.pages x) :
    pageDescErased ((s.seg x).pageDescriptors (segNextAvailablePage cfg s x)) = true := by
  unfold segNextAvailablePage at h ⊢
  cases hfind : (List.range (cfg.pages x)).find? fun page =>
      pageDescErased ((s.seg x).pageDescriptors page) with
  | none =>
    rw [hfind, Option.getD_none] at h
    exact absurd h (lt_irrefl _)
  | some page => simpa using List.find?_some hfind

/-- A page with an erased descriptor in memory is erased in flash. -/
theorem Faithful.erased (h : Faithful cfg xs s) (hx : x ∈ xs) (hp : page < cfg.pages x)
    (hblank : pageDescErased ((s.seg x).pageDescriptors page) = true) :
    (s.flash x).descs page = PageDesc.blank ∧ (s.flash x).data page = cfg.blankPage := by
  rw [pageDescErased_iff, h.descs x hx] at hblank
  exact ⟨hblank, h.blank x hx page hp hblank⟩

end

/-! ## Driver calls -/

section

variable {good : Event Sid → Prop}

omit [DecidableEq Sid] in
theorem segRead_eq {α : Type} {f : FlashSegment → α} (hc : Reliable cfg) :
    segRead cfg x f s = some (.ok (f (s.flash x)), { s with calls := s.calls + 1 }, []) := by
  simp [segRead, driverCall, bind, pure, Prog.get, Prog.modify, hc.fault, hc.address]

omit [DecidableEq Sid] in
theorem segTest_eq {f : FlashSegment → Bool} (hc : Reliable cfg) :
    segTest cfg x f s =
      some (if f (s.flash x) then 0 else eio, { s with calls := s.calls + 1 }, []) := by
  simp [segTest, driverCall, bind, pure, Prog.get, Prog.modify, hc.fault, hc.address]

omit [DecidableEq Sid] in
/-- Whatever a test answers. -/
theorem segTest_guarantees {f : FlashSegment → Bool} {Q : ℕ → Disk Sid → Prop} (hc : Reliable cfg)
    (hQ : ∀ ret n, Q ret { s with calls := n }) :
    Guarantees ok good (segTest cfg x f) s Q := by
  intro ret s' es hr _
  rw [segTest_eq hc] at hr
  cases hr
  exact ⟨by simp, hQ _ _⟩

theorem segWrite_guarantees {part : Part} {f : FlashSegment → FlashSegment}
    {Q : ℕ → Disk Sid → Prop} (hc : Reliable cfg)
    (hprog : Programs cfg page (s.flash x) (f (s.flash x)) part)
    (hQ : ∀ n, Q 0 { s with flash := update s.flash x (f (s.flash x)), calls := n }) :
    Guarantees ok (Event.Disciplined cfg) (segWrite cfg x part page f) s Q := by
  rw [segWrite, guarantees_get_bind, hc.address]
  refine guarantees_report_bind fun _ => ⟨hprog, ?_⟩
  have hcall : driverCall cfg s = some (none, { s with calls := s.calls + 1 }, []) := by
    simp [driverCall, bind, pure, Prog.get, Prog.modify, hc.fault]
  rw [guarantees_silent_bind hcall]
  simp only [setFlash, hc.address, guarantees_modify_bind, guarantees_pure]
  exact hQ _

omit [DecidableEq Sid] in
theorem blankCheckFirst_guarantees {f : FlashSegment → Bool} {write : Fdisk Sid ℕ}
    {Q : ℕ → Disk Sid → Prop} (hc : Reliable cfg) (hblank : f (s.flash x) = true)
    (hQ : ∀ n, Guarantees ok good write { s with calls := n } Q) :
    Guarantees ok good (blankCheckFirst cfg (segTest cfg x f) write) s Q := by
  unfold blankCheckFirst
  split
  · rw [guarantees_silent_bind (segTest_eq hc), if_pos hblank, if_pos rfl]
    exact hQ _
  · exact hQ s.calls

theorem segWritePage_guarantees {buffer : Page} {Q : ℕ → Disk Sid → Prop} (hc : Reliable cfg)
    (hblank : (s.flash x).data page = cfg.blankPage)
    (hQ : ∀ n, Q 0 { s with
      erasedBlocks := dec32 s.erasedBlocks
      flash := update s.flash x { s.flash x with data := update (s.flash x).data page buffer }
      calls := n }) :
    Guarantees ok (Event.Disciplined cfg) (segWritePage cfg x page buffer) s Q := by
  refine blankCheckFirst_guarantees hc (by simpa using hblank) fun n => ?_
  rw [guarantees_modify_bind]
  exact segWrite_guarantees hc ⟨hblank, buffer, rfl⟩ hQ

theorem segWritePageDesc_guarantees {pd : PageDesc} {Q : ℕ → Disk Sid → Prop} (hc : Reliable cfg)
    (hblank : (s.flash x).descs page = PageDesc.blank)
    (hQ : ∀ n, Q 0 { s with
      flash := update s.flash x { s.flash x with descs := update (s.flash x).descs page pd }
      calls := n }) :
    Guarantees ok (Event.Disciplined cfg) (segWritePageDesc cfg x page pd) s Q := by
  refine blankCheckFirst_guarantees hc (by simpa using hblank) fun n => ?_
  exact segWrite_guarantees hc ⟨hblank, pd, rfl⟩ hQ

theorem segCopyPage_guarantees {spage : ℕ} {Q : ℕ → Disk Sid → Prop} (hc : Reliable cfg)
    (hblank : (s.flash x).data page = cfg.blankPage)
    (hQ : ∀ n, Q 0 { s with
      erasedBlocks := dec32 s.erasedBlocks
      flash := update s.flash x
        { s.flash x with data := update (s.flash x).data page ((s.flash y).data spage) }
      calls := n }) :
    Guarantees ok (Event.Disciplined cfg) (segCopyPage cfg y spage x page) s Q := by
  rw [segCopyPage, segReadPage, guarantees_silent_bind (segRead_eq hc)]
  exact segWritePage_guarantees hc hblank hQ

theorem segWritePageDescFlags_guarantees {pd : PageDesc} {Q : ℕ → Disk Sid → Prop}
    (hc : Reliable cfg) (hflags : ((s.flash x).descs page).flags &&& pd.flags = pd.flags)
    (hQ : ∀ n, Q 0 { s with
      flash := update s.flash x
        { s.flash x with
          descs := update (s.flash x).descs page
            { (s.flash x).descs page with flags := pd.flags } }
      calls := n }) :
    Guarantees ok (Event.Disciplined cfg) (segWritePageDescFlags cfg x page pd) s Q := by
  unfold segWritePageDescFlags
  split
  · rw [guarantees_silent_bind (segRead_eq hc)]
    simp only [if_pos hflags]
    exact segWrite_guarantees hc ⟨pd.flags, hflags, rfl⟩ hQ
  · exact segWrite_guarantees hc ⟨pd.flags, hflags, rfl⟩ hQ

end

end Rtems.FlashDisk
