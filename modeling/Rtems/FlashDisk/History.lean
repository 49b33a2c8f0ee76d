import Rtems.FlashDisk.Recovery

/-!
# Runs of the flash disk over a reliable driver

The run theorems: what was written is read as long as no recycling stops half way, and what a recovery
finds in the flash is what memory says as long as, besides, no write of a mapped block runs out of room.
-/

namespace Rtems.FlashDisk

open Function Rtems.LinkedQueue Rtems.Traced Rtems.LogStore

variable {Sid : Type} [DecidableEq Sid] {cfg : Config Sid} {ok : Event Sid → Prop}
  {content : ℕ → Option Page} {c : Store Sid ℕ Page} {index : ℕ → Option (Sid × ℕ)}
  {flash : Sid → FlashSegment} {s s' : Disk Sid} {x : Sid} {block turns : ℕ}

/-- The event is not a recycling that has pages left and no destination. -/
def Event.FindsDst : Event Sid → Prop
  | .noDst _ => False
  | _ => True

/-! ## One request -/

/-- The contents after a successful request. -/
def Call.store : Call → (ℕ → Option Page) → ℕ → Option Page
  | .write block buffer, content => update content block (some buffer)
  | .read _, content => content
  | .compact, content => content
  | .eraseUsed, content => content

def Call.isWrite : Call → Bool
  | .write _ _ => true
  | .read _ => false
  | .compact => false
  | .eraseUsed => false

theorem exec_stores (hc : Reliable cfg) (hok : ∀ x, ¬ ok (.noDst x)) (call : Call)
    (h : Stores cfg content none s) :
    Ensures ok (exec cfg turns call) s fun ret s' =>
      Stores cfg (if call.isWrite = true → ret = 0 then call.store content else content) none s' ∨
        ret ≠ 0 ∧ call.isWrite = true ∧ ∃ block, ok (.noSpace block true) := by
  cases call with
  | write block buffer =>
    refine (writeBlock_stores hc hok h).mono fun ret s₁ hs₁ => ?_
    simp only [Call.isWrite, true_imp_iff, Call.store]
    by_cases hret : ret = 0
    · rw [if_pos hret] at hs₁ ⊢
      exact Or.inl hs₁
    · rw [if_neg hret] at hs₁ ⊢
      exact hs₁.imp_right fun hspace => ⟨hret, trivial, block, hspace⟩
  | read block =>
    simp only [exec, ensures_bind, ensures_pure, Call.isWrite, Bool.false_eq_true, false_imp_iff,
      if_true, Call.store]
    intro data s₁ es hr _
    left
    obtain ⟨c, loc, hst⟩ := h
    by_cases hrange : block < cfg.blockCount - cfg.unavailBlocks
    · obtain ⟨s₂, hr', hsame⟩ := readBlock_eq hc ⟨c, loc, hst⟩ hrange
      rw [hr] at hr'
      cases hr'
      exact ⟨c, loc, hst.congr hsame⟩
    · have hout : readBlock cfg block s = some (none, s, []) := by
        simp [readBlock, bind, pure, Prog.get, not_lt.mp hrange]
      rw [hr] at hout
      cases hout
      exact ⟨c, loc, hst⟩
  | compact =>
    simp only [Call.isWrite, Bool.false_eq_true, false_imp_iff, if_true, Call.store]
    exact (compact_stores hc hok h).mono fun _ _ hs => Or.inl hs
  | eraseUsed =>
    simp only [Call.isWrite, Bool.false_eq_true, false_imp_iff, if_true, Call.store]
    exact (eraseUsedLoop_stores hc turns 0 h).mono fun _ _ hs => Or.inl hs

theorem startDisk_stores (hc : Reliable cfg) (hok : ∀ x, ¬ ok (.noDst x))
    (hleg : Legible cfg c flash) (hi : Indexed c index content none) :
    Ensures ok (startDisk cfg turns) (Disk.allocated flash) fun _ => Stores cfg content none := by
  simp only [startDisk, ensures_bind]
  refine (recoverBlockMappings_stored hc hleg hi).mono ?_
  rintro ret s₁ ⟨rfl, -, c', loc, hs₁, -⟩
  exact compact_stores hc hok ⟨c', loc, hs₁⟩

/-! ## What was written is read -/

omit [DecidableEq Sid] in
theorem legible_blank : Legible cfg (fun _ _ => .erased) fun _ => cfg.blankSegment :=
  ⟨fun _ _ _ => ⟨rfl, rfl, rfl⟩, by simp⟩

omit [DecidableEq Sid] in
theorem indexed_blank : Indexed (fun (_ : Sid) _ => (.erased : Cell ℕ Page)) (fun _ => none)
    (fun _ => none) none :=
  ⟨by simp, by simp, by simp⟩

/-- The runs that start from an erased flash and in which every write returns 0, with the data last
written to each block. -/
inductive Written (cfg : Config Sid) :
    (ℕ → Option Page) → Disk Sid → List (Event Sid) → Prop
  | start {turns ret : ℕ} {s : Disk Sid} {es : List (Event Sid)} :
      startDisk cfg turns (Disk.allocated fun _ => cfg.blankSegment) = some (ret, s, es) →
      Written cfg (fun _ => none) s es
  | step {content : ℕ → Option Page} {turns ret : ℕ} {call : Call} {s s' : Disk Sid}
      {es es' : List (Event Sid)} :
      Written cfg content s es → exec cfg turns call s = some (ret, s', es') →
      (call.isWrite = true → ret = 0) → Written cfg (call.store content) s' (es ++ es')

theorem Written.stores {es : List (Event Sid)} (hc : Reliable cfg) (h : Written cfg content s es)
    (hes : ∀ e ∈ es, e.FindsDst) : Stores cfg content none s := by
  have hok : ∀ x : Sid, ¬ (Event.noDst x).FindsDst := fun _ hx => hx
  induction h with
  | @start turns ret s es hs =>
    have hpost : Ensures Event.FindsDst (startDisk cfg turns) _ _ :=
      startDisk_stores hc hok legible_blank indexed_blank
    exact hpost _ _ _ hs hes
  | @step content turns ret call s s' es es' _ hexec hret ih =>
    have hst := ih fun e he => hes e (List.mem_append_left _ he)
    have hpost : Ensures Event.FindsDst (exec cfg turns call) _ _ := exec_stores hc hok call hst
    rcases hpost _ _ _ hexec fun e he => hes e (List.mem_append_right _ he) with hstores | hbad
    · rwa [if_pos hret] at hstores
    · exact absurd (hret hbad.2.1) hbad.1

theorem Written.of_runCalls {turns : ℕ} {calls : List Call} {es es' : List (Event Sid)}
    {rets : List ℕ} (h : Written cfg content s es)
    (hr : runCalls cfg turns calls s = some (rets, s', es'))
    (hrets : ∀ e ∈ calls.zip rets, e.1.isWrite = true → e.2 = 0) :
    Written cfg (calls.foldl (fun content call => call.store content) content) s' (es ++ es') := by
  induction calls generalizing content s es rets es' with
  | nil =>
    cases hr
    simpa using h
  | cons call calls ih =>
    simp only [runCalls] at hr
    obtain ⟨ret, s₁, es₁, es₂, hc, hcs, rfl⟩ := bind_eq_some_iff.mp hr
    obtain ⟨rets', s₂, es₃, es₄, hrest, hp, rfl⟩ := bind_eq_some_iff.mp hcs
    cases hp
    rw [← List.append_assoc, List.append_nil]
    refine ih (h.step hc (hrets (call, ret) (by simp))) hrest fun e he => hrets e ?_
    rw [List.zip_cons_cons]
    exact List.mem_cons_of_mem _ he

/-- A session from an erased flash in which every write returns 0. -/
theorem Written.of_session {turns : ℕ} {calls : List Call} {es : List (Event Sid)}
    {r : ℕ × List ℕ}
    (h : session cfg turns calls (Disk.allocated fun _ => cfg.blankSegment) = some (r, s, es))
    (hrets : ∀ e ∈ calls.zip r.2, e.1.isWrite = true → e.2 = 0) :
    Written cfg (calls.foldl (fun content call => call.store content) fun _ => none) s es := by
  simp only [session] at h
  obtain ⟨ret, s₁, es₁, es₂, hs, hr, rfl⟩ := bind_eq_some_iff.mp h
  obtain ⟨rets', s₂, es₃, es₄, hrest, hp, rfl⟩ := bind_eq_some_iff.mp hr
  cases hp
  rw [List.append_nil]
  exact (Written.start hs).of_runCalls hrest hrets

/-- With one segment descriptor per device and a driver that never fails, a block in range reads as
it was last written, or as erased, in every run without a recycling that finds no destination. -/
theorem reads_last_write (cfg : Config Sid) (hc : Reliable cfg) (content : ℕ → Option Page)
    (s : Disk Sid) (es : List (Event Sid)) (h : Written cfg content s es)
    (hes : ∀ e ∈ es, e.FindsDst) (block : ℕ) (hb : block < cfg.blockCount - cfg.unavailBlocks) :
    ∃ s', readBlock cfg block s = some (some ((content block).getD cfg.blankPage), s', []) := by
  obtain ⟨s', hs', -⟩ := readBlock_eq hc (h.stores hc hes) hb
  exact ⟨s', hs'⟩

local instance neZeroTwoUneven : NeZero 2 := ⟨by decide⟩

/-- A disk of a segment with five pages and one with a single page. -/
def unevenDisk : Config (Fin 2) where
  segments := [0, 1]
  segments_nodup := twoSegments_nodup
  segments_complete := twoSegments_complete
  pages x := if x = 0 then 5 else 1
  pages_pos := by decide
  blocks_lt := by decide
  address := id
  blockSize := 16
  unavailBlocks := 2
  unavail_le := by decide
  compactSegs := 6
  availCompactSegs := 2
  backgroundErase := false
  backgroundCompact := true
  blankCheckBeforeWrite := false
  fault _ := none

theorem unevenDisk_reliable : Reliable unevenDisk := ⟨fun _ => rfl, fun _ => rfl⟩

instance : DecidablePred fun e : Event Sid => e.FindsDst
  | .noDst _ => inferInstanceAs (Decidable False)
  | .queueSeg .. | .failed .. | .recycle .. | .giveBack .. | .starvation .. | .stopped ..
  | .noSpace .. | .write .. | .eraseEarly .. | .keep .. | .flag .. | .eraseQueued .. =>
    inferInstanceAs (Decidable True)

/-- Two blocks, one of them written twice. -/
theorem reads_last_write_twice :
    ∃ s es s', Written unevenDisk (update (update (update (fun _ => none) 1 (some (pageOf 0#8))) 0
        (some (pageOf 1#8))) 1 (some (pageOf 2#8))) s es ∧ (∀ e ∈ es, e.FindsDst) ∧
      readBlock unevenDisk 1 s = some (some (pageOf 2#8), s', []) := by
  have hrun : ((session unevenDisk 10 [Call.write 1 (pageOf 0#8), Call.write 0 (pageOf 1#8),
      Call.write 1 (pageOf 2#8)] (Disk.allocated fun _ => unevenDisk.blankSegment)).map fun r =>
        (r.1, decide (∀ e ∈ r.2.2, e.FindsDst))) = some ((0, [0, 0, 0]), true) := by
    decide_cbv
  obtain ⟨⟨r, s, es⟩, hr, heq⟩ := Option.map_eq_some_iff.mp hrun
  simp only [Prod.mk.injEq, decide_eq_true_eq] at heq
  obtain ⟨rfl, hes⟩ := heq
  have hw := Written.of_session hr (by simp)
  obtain ⟨s', hs'⟩ := reads_last_write _ unevenDisk_reliable _ s es hw hes 1 (by decide)
  exact ⟨s, es, s', hw, hes, hs'⟩

/-- The compaction that resolves a starvation moves one page to the small segment, finds no other
destination and drops the large segment; the next write of that page's block keeps the copy. -/
theorem reads_last_write_lost :
    ¬ ∀ (cfg : Config (Fin 2)) content s es, Reliable cfg → Written cfg content s es →
      ∀ block, block < cfg.blockCount - cfg.unavailBlocks →
        ∃ s', readBlock cfg block s = some (some ((content block).getD cfg.blankPage), s', []) := by
  intro hall
  have hrun : ((session unevenDisk 10 [.write 1 (pageOf 0#8), .write 0 (pageOf 1#8), .compact,
      .write 1 (pageOf 9#8), .write 0 (pageOf 10#8)]
      (Disk.allocated fun _ => unevenDisk.blankSegment)).map fun r =>
        (r.1, (readBlock unevenDisk 0 r.2.1).map Prod.fst)) =
      some ((0, [0, 0, 5, 0, 0]), some (some (pageOf 1#8))) := by
    decide_cbv
  obtain ⟨⟨r, s, es⟩, hr, heq⟩ := Option.map_eq_some_iff.mp hrun
  simp only [Prod.mk.injEq] at heq
  obtain ⟨rfl, hread⟩ := heq
  have hw := Written.of_session hr (by simp [Call.isWrite])
  obtain ⟨s', hs'⟩ := hall _ _ s es unevenDisk_reliable hw 0 (by decide)
  rw [hs'] at hread
  have hsame : pageOf 10#8 = pageOf 1#8 := by simpa [Call.store] using hread
  exact absurd hsame (by decide)

/-! ## What the recovery finds -/

/-- Moreover, the event is not a write that has flagged the old page of its block and finds no room. -/
def Event.KeepsBlocks : Event Sid → Prop
  | .noDst _ => False
  | .noSpace _ mapped => mapped = false
  | _ => True

instance : DecidablePred fun e : Event Sid => e.KeepsBlocks
  | .noDst _ => inferInstanceAs (Decidable False)
  | .noSpace _ mapped => inferInstanceAs (Decidable (mapped = false))
  | .queueSeg .. | .failed .. | .recycle .. | .giveBack .. | .starvation .. | .stopped ..
  | .write .. | .eraseEarly .. | .keep .. | .flag .. | .eraseQueued .. =>
    inferInstanceAs (Decidable True)

theorem Reached.stores {es : List (Event Sid)} (hc : Reliable cfg) (hf : Formatted cfg flash)
    (h : Reached cfg flash s es) (hes : ∀ e ∈ es, e.KeepsBlocks) :
    ∃ content, Stores cfg content none s := by
  have hok : ∀ x : Sid, ¬ (Event.noDst x).KeepsBlocks := fun _ hx => hx
  induction h with
  | @start turns s es _ hs =>
    obtain ⟨c, index, content, hleg, hi⟩ := hf.legible
    have hpost : Ensures Event.KeepsBlocks (startDisk cfg turns) _ _ := startDisk_stores hc hok hleg hi
    exact ⟨content, hpost _ _ _ hs hes⟩
  | @step turns ret call s s' es es' _ hexec ih =>
    obtain ⟨content, hst⟩ := ih fun e he => hes e (List.mem_append_left _ he)
    have hpost : Ensures Event.KeepsBlocks (exec cfg turns call) _ _ := exec_stores hc hok call hst
    rcases hpost _ _ _ hexec fun e he => hes e (List.mem_append_right _ he) with hstores | hbad
    · exact ⟨_, hstores⟩
    · obtain ⟨-, -, block, hspace⟩ := hbad
      cases hspace

/-- Two disks map the same blocks, read the same data, and count the same pages, none of them bad. -/
structure Agree (cfg : Config Sid) (s s' : Disk Sid) : Prop where
  mapped : ∀ block, (s'.blocks block).isSome = (s.blocks block).isSome
  reads : ∀ block, block < cfg.blockCount - cfg.unavailBlocks → ∃ data t t',
    readBlock cfg block s = some (some data, t, []) ∧
      readBlock cfg block s' = some (some data, t', [])
  active : ∀ x, (s'.seg x).pagesActive = (s.seg x).pagesActive
  used : ∀ x, (s'.seg x).pagesUsed = (s.seg x).pagesUsed
  erased : ∀ x, segPagesAvailable cfg s' x = segPagesAvailable cfg s x
  bad : ∀ x, (s'.seg x).pagesBad = 0

theorem Stores.recovery {m : Disk Sid} (hc : Reliable cfg) (h : Stores cfg content none s)
    (hm : m.flash = s.flash) :
    ∃ s' es, recoverBlockMappings cfg m = some (0, s', es) ∧ Agree cfg s s' := by
  obtain ⟨c, loc, hst⟩ := h
  have hleg : Legible cfg c m.flash := hm ▸ hst.shows.legible
  obtain ⟨ret, s', es, hrun, rfl, hblocks, c', loc', hst', hsame⟩ :=
    (recoverBlockMappings_stored hc hleg hst.indexed).result
      (recoverBlockMappings_returns hc hleg hst.indexed)
  have hcells := hsame hst.tidy
  subst hcells
  refine ⟨s', es, hrun, ?_, ?_, ?_, ?_, ?_, fun x => (hst'.shows x).bad⟩
  · intro block
    rw [hblocks]
  · intro block hb
    obtain ⟨t, ht, -⟩ := readBlock_eq hc ⟨c', loc, hst⟩ hb
    obtain ⟨t', ht', -⟩ := readBlock_eq hc ⟨c', loc', hst'⟩ hb
    exact ⟨_, t, t', ht, ht'⟩
  · intro x
    rw [(hst'.shows x).active, (hst.shows x).active]
  · intro x
    rw [(hst'.shows x).used, (hst.shows x).used]
  · intro x
    rw [hst'.shows.segPagesAvailable, hst.shows.segPagesAvailable]

/-- With one segment descriptor per device and a driver that never fails, a recovery from the flash of
a state between requests returns 0 and agrees with that state, in every run without a recycling that
finds no destination and without a write of a mapped block that finds no room. -/
theorem recovery_agrees (cfg : Config Sid) (hc : Reliable cfg) (flash : Sid → FlashSegment)
    (hf : Formatted cfg flash) (s : Disk Sid) (es : List (Event Sid)) (h : Reached cfg flash s es)
    (hes : ∀ e ∈ es, e.KeepsBlocks) (m : Disk Sid) (hm : m.flash = s.flash) :
    ∃ s' es', recoverBlockMappings cfg m = some (0, s', es') ∧ Agree cfg s s' := by
  obtain ⟨content, hst⟩ := h.stores hc hf hes
  exact hst.recovery hc hm

/-- A recovery after two writes of one block. -/
theorem recovery_agrees_rewritten :
    ∃ s es s' es', Reached unevenDisk (fun _ => unevenDisk.blankSegment) s es ∧
      (∀ e ∈ es, e.KeepsBlocks) ∧ recoverBlockMappings unevenDisk s = some (0, s', es') ∧
      Agree unevenDisk s s' := by
  have hrun : ((session unevenDisk 10 [.write 1 (pageOf 0#8), .write 1 (pageOf 2#8)]
      (Disk.allocated fun _ => unevenDisk.blankSegment)).map fun r =>
        (r.1, decide (∀ e ∈ r.2.2, e.KeepsBlocks))) = some ((0, [0, 0]), true) := by
    decide_cbv
  obtain ⟨⟨r, s, es⟩, hr, heq⟩ := Option.map_eq_some_iff.mp hrun
  simp only [Prod.mk.injEq, decide_eq_true_eq] at heq
  obtain ⟨rfl, hes⟩ := heq
  have hreach := Reached.of_session hr
  obtain ⟨s', es', hrec, hagree⟩ :=
    recovery_agrees _ unevenDisk_reliable _ formatted_blank s es hreach hes s rfl
  exact ⟨s, es, s', es', hreach, hes, hrec, hagree⟩

/-- The compaction that drops the large segment has moved a page which the flash still shows as active:
the recovery takes it for the page of its block, and the copy for a duplicate. -/
theorem recovery_agrees_duplicate :
    ¬ ∀ (cfg : Config (Fin 2)) flash s es, Reliable cfg → Formatted cfg flash →
      Reached cfg flash s es → ∃ s' es', recoverBlockMappings cfg s = some (0, s', es') ∧
        Agree cfg s s' := by
  intro hall
  have hrun : ((session unevenDisk 10 [.write 1 (pageOf 0#8), .write 0 (pageOf 1#8), .compact]
      (Disk.allocated fun _ => unevenDisk.blankSegment)).map fun r =>
        (r.1, (r.2.1.seg 0).pagesActive,
          (recoverBlockMappings unevenDisk r.2.1).map fun q => (q.2.1.seg 0).pagesActive)) =
      some ((0, [0, 0, 5]), 1, some 2) := by
    decide_cbv
  obtain ⟨⟨r, s, es⟩, hr, heq⟩ := Option.map_eq_some_iff.mp hrun
  simp only [Prod.mk.injEq] at heq
  obtain ⟨rfl, hmemory, hflash⟩ := heq
  obtain ⟨s', es', hrec, hagree⟩ :=
    hall _ _ s es unevenDisk_reliable formatted_blank (Reached.of_session hr)
  rw [hrec] at hflash
  simp [hagree.active 0, hmemory] at hflash

end Rtems.FlashDisk

/-!
## Writes that fail

A write that returns an error has stored nothing.  What was stored before stays readable, and whatever
is done to other blocks afterwards changes nothing about it, unless the write found no room after it had
flagged the old page of its block.
-/

namespace Rtems.FlashDisk

open Function Rtems.LinkedQueue Rtems.Traced Rtems.LogStore

variable {Sid : Type} [DecidableEq Sid] {cfg : Config Sid} {content : ℕ → Option Page}
  {s s' : Disk Sid} {calls : List Call} {es : List (Event Sid)} {block turns ret : ℕ} {buffer : Page}

/-- Requests one after the other, each with turns of its own. -/
inductive Serves (cfg : Config Sid) : Disk Sid → List Call → Disk Sid → List (Event Sid) → Prop
  | nil {s : Disk Sid} : Serves cfg s [] s []
  | cons {turns ret : ℕ} {call : Call} {calls : List Call} {s s₁ s₂ : Disk Sid}
      {es es' : List (Event Sid)} :
      exec cfg turns call s = some (ret, s₁, es) → Serves cfg s₁ calls s₂ es' →
      Serves cfg s (call :: calls) s₂ (es ++ es')

/-- The block a request writes. -/
def Call.target : Call → Option ℕ
  | .write block _ => some block
  | .read _ => none
  | .compact => none
  | .eraseUsed => none

theorem Call.store_of_ne {call : Call} (h : call.target ≠ some block) :
    call.store content block = content block := by
  cases call with
  | write target buffer =>
    have hne : block ≠ target := fun heq => h (congrArg some heq.symm)
    exact update_of_ne hne _ _
  | read _ => rfl
  | compact => rfl
  | eraseUsed => rfl

/-- Requests that write other blocks keep the contents of a block. -/
theorem Serves.stores (hc : Reliable cfg) (h : Serves cfg s calls s' es)
    (hes : ∀ e ∈ es, e.KeepsBlocks) (hst : Stores cfg content none s) :
    ∃ content', Stores cfg content' none s' ∧
      ∀ block, (∀ call ∈ calls, call.target ≠ some block) → content' block = content block := by
  have hok : ∀ x : Sid, ¬ (Event.noDst x).KeepsBlocks := fun _ hx => hx
  induction h generalizing content with
  | nil => exact ⟨content, hst, fun _ _ => rfl⟩
  | @cons turns ret call calls s s₁ s₂ es es' hexec _ ih =>
    have hpost : Ensures Event.KeepsBlocks (exec cfg turns call) _ _ := exec_stores hc hok call hst
    rcases hpost _ _ _ hexec fun e he => hes e (List.mem_append_left _ he) with hstores | hbad
    · obtain ⟨content', hst', hkept⟩ :=
        ih (fun e he => hes e (List.mem_append_right _ he)) hstores
      refine ⟨content', hst', fun block hblock => ?_⟩
      rw [hkept block fun call' hcall' => hblock call' (List.mem_cons_of_mem _ hcall')]
      split
      · exact Call.store_of_ne (hblock call List.mem_cons_self)
      · rfl
    · obtain ⟨-, -, block, hspace⟩ := hbad
      cases hspace

/-- A write that returns an error leaves the contents as they were. -/
theorem failed_write_stores (hc : Reliable cfg) (hst : Stores cfg content none s)
    (hw : exec cfg turns (.write block buffer) s = some (ret, s', es)) (hret : ret ≠ 0)
    (hes : ∀ e ∈ es, e.KeepsBlocks) : Stores cfg content none s' := by
  have hok : ∀ x : Sid, ¬ (Event.noDst x).KeepsBlocks := fun _ hx => hx
  have hpost : Ensures Event.KeepsBlocks (exec cfg turns (.write block buffer)) _ _ :=
    exec_stores hc hok _ hst
  rcases hpost _ _ _ hw hes with hstores | hbad
  · rwa [if_neg fun hzero => hret (hzero rfl)] at hstores
  · obtain ⟨-, -, block, hspace⟩ := hbad
    cases hspace

/-- A block reads the same data in two states. -/
def ReadsAlike (cfg : Config Sid) (block : ℕ) (s s' : Disk Sid) : Prop :=
  ∃ data t t', readBlock cfg block s = some (some data, t, []) ∧
    readBlock cfg block s' = some (some data, t', [])

/-- **A failed write loses nothing**: every block that is not written afterwards reads what it read
before, in every run over one segment descriptor per device and a driver that never fails, without a
recycling that finds no destination and without a write of a mapped block that finds no room. -/
theorem failed_write_keeps (cfg : Config Sid) (hc : Reliable cfg) (flash : Sid → FlashSegment)
    (hf : Formatted cfg flash) (s s₁ s₂ : Disk Sid) (es es₁ es₂ : List (Event Sid))
    (h : Reached cfg flash s es)
    (hw : exec cfg turns (.write block buffer) s = some (ret, s₁, es₁)) (hret : ret ≠ 0)
    (hs : Serves cfg s₁ calls s₂ es₂) (hes : ∀ e ∈ es ++ es₁ ++ es₂, e.KeepsBlocks) (b : ℕ)
    (hb : b < cfg.blockCount - cfg.unavailBlocks) (hother : ∀ call ∈ calls, call.target ≠ some b) :
    ReadsAlike cfg b s s₂ := by
  have hbefore : ∀ e ∈ es, e.KeepsBlocks := fun e he =>
    hes e (List.mem_append_left _ (List.mem_append_left _ he))
  have hduring : ∀ e ∈ es₁, e.KeepsBlocks := fun e he =>
    hes e (List.mem_append_left _ (List.mem_append_right _ he))
  have hafter : ∀ e ∈ es₂, e.KeepsBlocks := fun e he => hes e (List.mem_append_right _ he)
  obtain ⟨content, hst⟩ := h.stores hc hf hbefore
  have hst₁ := failed_write_stores hc hst hw hret hduring
  obtain ⟨content₂, hst₂, hkept⟩ := hs.stores hc hafter hst₁
  obtain ⟨t, ht, -⟩ := readBlock_eq hc hst hb
  obtain ⟨t', ht', -⟩ := readBlock_eq hc hst₂ hb
  rw [hkept b hother] at ht'
  exact ⟨_, t, t', ht, ht'⟩

/-- A disk of one segment with two pages. -/
def singleDisk : Config (Fin 1) where
  segments := [0]
  segments_nodup := by decide
  segments_complete := by decide
  pages _ := 2
  pages_pos := by decide
  blocks_lt := by decide
  address := id
  blockSize := 16
  unavailBlocks := 0
  unavail_le := by decide
  compactSegs := 2
  availCompactSegs := 1
  backgroundErase := false
  backgroundCompact := true
  blankCheckBeforeWrite := false
  fault _ := none

theorem singleDisk_reliable : Reliable singleDisk := ⟨fun _ => rfl, fun _ => rfl⟩

/-- A block that was never written finds no room. -/
theorem failed_write_keeps_first :
    ∃ s s₂ t t', ReadsAlike singleDisk 0 s s₂ ∧
      readBlock singleDisk 0 s = some (some (pageOf 1#8), t, []) ∧
      readBlock singleDisk 0 s₂ = some (some (pageOf 1#8), t', []) := by
  have hrun : ((session singleDisk 10 [.write 0 (pageOf 1#8)]
      (Disk.allocated fun _ => singleDisk.blankSegment)).bind fun r =>
        (exec singleDisk 10 (.write 1 (pageOf 2#8)) r.2.1).bind fun r₁ =>
          (exec singleDisk 10 .compact r₁.2.1).map fun r₂ =>
            decide (r.1 = (0, [0]) ∧ r₁.1 = enospc ∧
              (∀ e ∈ r.2.2 ++ r₁.2.2 ++ r₂.2.2, e.KeepsBlocks) ∧
              (readBlock singleDisk 0 r.2.1).map Prod.fst = some (some (pageOf 1#8)))) = some true := by
    decide_cbv
  obtain ⟨⟨r, s, es⟩, hr, hrun⟩ := Option.bind_eq_some_iff.mp hrun
  obtain ⟨⟨ret, s₁, es₁⟩, hw, hrun⟩ := Option.bind_eq_some_iff.mp hrun
  obtain ⟨⟨ret₂, s₂, es₂⟩, hcompact, heq⟩ := Option.map_eq_some_iff.mp hrun
  simp only [decide_eq_true_eq] at heq
  obtain ⟨rfl, rfl, hes, hread⟩ := heq
  have hs : Serves singleDisk s₁ [.compact] s₂ (es₂ ++ []) := .cons hcompact .nil
  rw [List.append_nil] at hs
  have halike := failed_write_keeps singleDisk singleDisk_reliable _ formatted_blank s s₁ s₂ es es₁
    es₂ (Reached.of_session hr) hw (by decide) hs hes 0 (by decide) (by simp [Call.target])
  obtain ⟨data, t, t', ht, ht'⟩ := id halike
  rw [ht] at hread
  obtain rfl := Option.some.inj (Option.some.inj hread)
  exact ⟨s, s₂, t, t', halike, ht, ht'⟩

/-- A block that was written before finds no room, and its page has been flagged used. -/
theorem failed_write_keeps_mapped :
    ¬ ∀ (cfg : Config (Fin 1)) flash s s₁ es es₁ turns block buffer ret, Reliable cfg →
      Formatted cfg flash → Reached cfg flash s es →
      block < cfg.blockCount - cfg.unavailBlocks →
      exec cfg turns (.write block buffer) s = some (ret, s₁, es₁) → ret ≠ 0 →
      ∀ b, b < cfg.blockCount - cfg.unavailBlocks → ReadsAlike cfg b s s₁ := by
  intro hall
  have hrun : ((session singleDisk 10 [.write 0 (pageOf 1#8)]
      (Disk.allocated fun _ => singleDisk.blankSegment)).bind fun r =>
        (exec singleDisk 10 (.write 0 (pageOf 3#8)) r.2.1).map fun r₁ =>
          (r.1, r₁.1, (readBlock singleDisk 0 r₁.2.1).map Prod.fst)) =
      some ((0, [0]), enospc, some none) := by
    decide_cbv
  obtain ⟨⟨r, s, es⟩, hr, hrun⟩ := Option.bind_eq_some_iff.mp hrun
  obtain ⟨⟨ret, s₁, es₁⟩, hw, heq⟩ := Option.map_eq_some_iff.mp hrun
  simp only [Prod.mk.injEq] at heq
  obtain ⟨rfl, rfl, hread⟩ := heq
  obtain ⟨data, t, t', -, ht'⟩ := hall _ _ s s₁ es es₁ 10 0 _ _ singleDisk_reliable formatted_blank
    (Reached.of_session hr) (by decide) hw (by decide) 0 (by decide)
  rw [ht'] at hread
  cases hread

end Rtems.FlashDisk
