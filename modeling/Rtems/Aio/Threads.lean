import Rtems.Aio.Linked

/-!
# The counts of the workers

A worker that gives its chain back and finds no chain on the idle list is counted
as idle, and as active again when it takes a chain.  A worker that finds a chain on
the idle list at once goes the same way without having been counted as idle.
-/

namespace Rtems.Aio

variable {Cid Wid : Type} [DecidableEq Cid] [DecidableEq Wid]
variable {s s' : State Cid Wid} {w : Wid} {c : Cid} {req : Request}

/-- A worker has a chain of the work list. -/
def State.active (s : State Cid Wid) (w : Wid) : Bool :=
  match (s.pc w).chain with
  | some c => c ∈ s.workReq
  | none => false

/-- A worker waits for a new chain. -/
def State.idle (s : State Cid Wid) (w : Wid) : Bool := s.pc w = .waitNew

/-- The counts are those of the workers. -/
structure ThreadsCounted (s : State Cid Wid) : Prop where
  active : s.activeThreads = s.workers.countP s.active
  idle : s.idleThreads = s.workers.countP s.idle
  activeNonneg : 0 ≤ s.activeThreads
  idleNonneg : 0 ≤ s.idleThreads
  total : s.activeThreads + s.idleThreads ≤ aioMaxThreads

/-- Requests come and workers run, and no request is canceled. -/
def Op.EnqueueOrWorker : Op Cid Wid → Prop
  | .cancel .. => False
  | _ => True

/-- A worker whose wait for its chain times out finds no chain on the idle list, and a worker that
is woken for a new chain finds one. -/
def Op.Counting (s : State Cid Wid) : Op Cid Wid → Prop
  | .wakeChain _ _ timedOut => timedOut = true → s.idleReq = []
  | .wakeNew _ timedOut => timedOut = false → s.idleReq ≠ []
  | _ => True

/-! ## The invariant -/

/-- A worker has a chain. -/
def State.busy (s : State Cid Wid) (w : Wid) : Bool := (s.pc w).chain.isSome

/-- The chains of the workers are on the work list, and the counts are right. -/
structure Counted (s : State Cid Wid) : Prop extends Linked s where
  onWork : ∀ w c, s.Holds w c → c ∈ s.workReq
  busy : s.activeThreads = s.workers.countP s.busy
  idle : s.idleThreads = s.workers.countP s.idle
  total : s.activeThreads + s.idleThreads ≤ aioMaxThreads

section

omit [DecidableEq Wid]

theorem SameShape.counted (h : SameShape s s') (hc : Counted s) : Counted s' where
  toLinked := h.linked hc.toLinked
  onWork := by
    intro w c hw
    rw [h.workReq]
    exact hc.onWork w c (h.holds.mp hw)
  busy := by
    have hsame : s'.busy = s.busy := by
      funext w
      unfold State.busy
      rw [h.chain]
    rw [h.activeThreads, h.workers, hsame]
    exact hc.busy
  idle := by
    have hsame : s'.idle = s.idle := by
      funext w
      exact decide_eq_decide.mpr (h.waitNew w)
    rw [h.idleThreads, h.workers, hsame]
    exact hc.idle
  total := by
    rw [h.activeThreads, h.idleThreads]
    exact hc.total

end

section

omit [DecidableEq Cid]

theorem busy_update (s s' : State Cid Wid) {p : Pc Cid} (hpc : s'.pc = Function.update s.pc w p) :
    s'.busy w = p.chain.isSome ∧ ∀ v, v ≠ w → s'.busy v = s.busy v := by
  unfold State.busy
  rw [hpc, Function.update_self]
  exact ⟨rfl, fun v hne => by rw [Function.update_of_ne hne]⟩

end

theorem idle_update (s s' : State Cid Wid) {p : Pc Cid} (hpc : s'.pc = Function.update s.pc w p) :
    s'.idle w = decide (p = .waitNew) ∧ ∀ v, v ≠ w → s'.idle v = s.idle v := by
  unfold State.idle
  rw [hpc, Function.update_self]
  exact ⟨rfl, fun v hne => by rw [Function.update_of_ne hne]⟩

/-- The counts of the workers when one of them gets to another place. -/
theorem counts_update (s s' : State Cid Wid) {p : Pc Cid} (hl : s.workers.Nodup) (hw : w ∈ s.workers)
    (hworkers : s'.workers = s.workers) (hpc : s'.pc = Function.update s.pc w p) :
    s'.workers.countP s'.busy + (if s.busy w then 1 else 0) =
        s.workers.countP s.busy + (if p.chain.isSome then 1 else 0) ∧
      s'.workers.countP s'.idle + (if s.idle w then 1 else 0) =
        s.workers.countP s.idle + (if p = .waitNew then 1 else 0) := by
  obtain ⟨hbusy, hbusy'⟩ := busy_update s s' hpc
  obtain ⟨hidle, hidle'⟩ := idle_update s s' hpc
  have hb := Lib.countP_changed hbusy' hl hw
  have hi := Lib.countP_changed hidle' hl hw
  rw [hbusy] at hb
  rw [hidle] at hi
  rw [hworkers]
  refine ⟨hb, ?_⟩
  simpa only [decide_eq_true_eq] using hi

/-! ## New chains and workers -/

section

omit [DecidableEq Wid]

/-- A new chain has no worker yet. -/
theorem Counted.linkNew (h : Counted s) (hc : s.allocated c = false) (req : Request) :
    Counted ((s.newChain c req).linkWork c) ∧ Counted ((s.newChain c req).linkIdle c) := by
  obtain ⟨hlists, hfree⟩ := h.fresh hc
  have ha : (s.newChain c req).allocated c = true := Function.update_self ..
  have hnew : Linked (s.newChain c req) := h.toLinked.newChain c req
  refine ⟨⟨hnew.linkWork hlists ha, ?_, h.busy, h.idle, h.total⟩,
    ⟨hnew.linkIdle hlists ha hfree, h.onWork, h.busy, h.idle, h.total⟩⟩
  intro w d hw
  exact (linkWork_perm _ c).mem_iff.mpr (List.mem_cons_of_mem _ (h.onWork w d hw))

end

theorem Counted.createWorker (h : Counted s) (hl : Linked (s.createWorker w c))
    (hw : w ∉ s.workers) (hc : c ∈ s.workReq) (hidle : s.idleThreads = 0)
    (hactive : s.activeThreads < aioMaxThreads) : Counted (s.createWorker w c) where
  toLinked := hl
  onWork := by
    intro v d hv
    rcases (holds_createWorker hw).mp hv with ⟨-, rfl⟩ | hold
    · exact hc
    · exact h.onWork v d hold
  busy := by
    obtain ⟨hself, hother⟩ := busy_update s (s.createWorker w c) (w := w) rfl
    have hcount : (s.createWorker w c).workers.countP (s.createWorker w c).busy =
        s.workers.countP s.busy + 1 := by
      refine List.countP_cons.trans ?_
      rw [Lib.countP_unchanged hother hw, hself]
      rfl
    have hbusy := h.busy
    rw [hcount]
    show s.activeThreads + 1 = _
    omega
  idle := by
    obtain ⟨hself, hother⟩ := idle_update s (s.createWorker w c) (w := w) rfl
    have hcount : (s.createWorker w c).workers.countP (s.createWorker w c).idle =
        s.workers.countP s.idle := by
      refine List.countP_cons.trans ?_
      rw [Lib.countP_unchanged hother hw, hself]
      rfl
    rw [hcount]
    exact h.idle
  total := by
    show s.activeThreads + 1 + s.idleThreads ≤ aioMaxThreads
    omega

theorem Counted.enqueue (h : Counted s) (hc : s.allocated c = false) {thread : Option Wid}
    (hw : ∀ w, thread = some w → w ∉ s.workers) : Counted (s.enqueue req c thread).1 := by
  have hlinked : Linked (s.enqueue req c thread).1 := h.toLinked.enqueue hc hw
  have hissue : Counted (s.issue req) := (SameShape.issue s req).counted h
  obtain ⟨hwork, hidle⟩ := hissue.linkNew hc req
  rcases enqueue_cases s req c thread with
    ⟨d, -, -, heq⟩ | ⟨-, ⟨-, heq⟩ | ⟨w, hthread, hzero, hmax, heq⟩ | heq⟩
  · rw [heq]
    exact (SameShape.accept _ _).counted ((SameShape.insertPrio _ _ _).counted hissue)
  · rw [heq]
    exact hwork
  · rw [heq] at hlinked ⊢
    have hmem : c ∈ (((s.issue req).newChain c req).linkWork c).workReq :=
      (linkWork_perm _ c).mem_iff.mpr List.mem_cons_self
    have hcreated : Linked ((((s.issue req).newChain c req).linkWork c).createWorker w c) :=
      { hlinked with }
    exact (SameShape.accept _ _).counted
      (hwork.createWorker hcreated (hw w hthread) hmem hzero hmax)
  · rw [heq]
    exact (SameShape.accept _ _).counted hidle

/-! ## Waits that end -/

/-- The worker gives its chain back and is counted as idle. -/
theorem Counted.wakeChain (h : Counted s) (hw : w ∈ s.workers) (hpc : s.pc w = .waitChain c)
    {timedOut : Bool} (hi : timedOut = true → s.idleReq = []) :
    Counted (s.wakeChain w c timedOut) := by
  have hholds : s.Holds w c := ⟨hw, by rw [hpc]; rfl⟩
  have ha : s.allocated c = true := (h.held w c hholds).1
  have hwork := h.onWork w c hholds
  cases timedOut with
  | false => exact (SameShape.wakeChain ha hpc).counted h
  | true =>
    have hlinked := (h.toLinked.wakeChain hw hpc fun _ => hwork : Linked (s.wakeChain w c true))
    rw [wakeChain_timedOut ha hwork, if_pos (hi rfl)] at hlinked ⊢
    obtain ⟨hbusy, hidle⟩ := counts_update s (s.release w c) (p := .waitNew)
      h.workers hw rfl rfl
    have hwasBusy : s.busy w = true := by
      unfold State.busy
      rw [hpc]
      rfl
    have hwasIdle : s.idle w = false := by
      unfold State.idle
      rw [hpc]
      rfl
    rw [hwasBusy] at hbusy
    rw [hwasIdle] at hidle
    have hbusy : (s.release w c).workers.countP (s.release w c).busy + 1 =
      s.workers.countP s.busy := hbusy
    have hidle : (s.release w c).workers.countP (s.release w c).idle =
      s.workers.countP s.idle + 1 := hidle
    have hsBusy := h.busy
    have hsIdle := h.idle
    have hsTotal := h.total
    constructor
    case toLinked => exact hlinked
    case onWork =>
      intro v d hv
      obtain ⟨hne, hold⟩ := (holds_release (s := s) (c := c)).mp hv
      refine (List.mem_erase_of_ne ?_).mpr (h.onWork v d hold)
      rintro rfl
      exact hne (h.single v w d hold hholds)
    case busy =>
      show s.activeThreads - 1 = (s.release w c).workers.countP (s.release w c).busy
      omega
    case idle =>
      show s.idleThreads + 1 = (s.release w c).workers.countP (s.release w c).idle
      omega
    case total =>
      show s.activeThreads - 1 + (s.idleThreads + 1) ≤ aioMaxThreads
      omega

theorem Counted.wakeNew (h : Counted s) (hw : w ∈ s.workers) (hpc : s.pc w = .waitNew)
    {timedOut : Bool} (hi : timedOut = false → s.idleReq ≠ []) :
    Counted (s.wakeNew w timedOut) := by
  have hlinked := h.toLinked.wakeNew hw hpc hi
  have hwasBusy : s.busy w = false := by
    unfold State.busy
    rw [hpc]
    rfl
  have hwasIdle : s.idle w = true := by
    unfold State.idle
    rw [hpc]
    exact decide_eq_true rfl
  have hsBusy := h.busy
  have hsIdle := h.idle
  have hsTotal := h.total
  cases timedOut with
  | false =>
    obtain ⟨c, rest, hi⟩ := List.exists_cons_of_ne_nil (hi rfl)
    have hnone : (s.pc w).chain = none := by rw [hpc]; rfl
    have hstep := workOnIdle_cons (s := s) (w := w) hi
    obtain ⟨hbusy, hidle⟩ := counts_update s (s.workOnIdle w) (p := .lock c) h.workers hw
      (by rw [hstep]) (by rw [hstep])
    rw [hwasBusy] at hbusy
    rw [hwasIdle] at hidle
    have hbusy : (s.workOnIdle w).workers.countP (s.workOnIdle w).busy =
      s.workers.countP s.busy + 1 := hbusy
    have hidle : (s.workOnIdle w).workers.countP (s.workOnIdle w).idle + 1 =
      s.workers.countP s.idle := hidle
    have hactive : (s.workOnIdle w).activeThreads = s.activeThreads + 1 := by rw [hstep]
    have hthreads : (s.workOnIdle w).idleThreads = s.idleThreads - 1 := by rw [hstep]
    have hwork : (s.workOnIdle w).workReq.Perm (c :: s.workReq) := by
      rw [hstep]
      exact List.perm_orderedInsert ..
    show Counted (s.workOnIdle w)
    constructor
    case toLinked => exact hlinked
    case onWork =>
      intro v d hv
      rcases (holds_workOnIdle hi hw hnone).mp hv with ⟨-, rfl⟩ | hold
      · exact hwork.mem_iff.mpr List.mem_cons_self
      · exact hwork.mem_iff.mpr (List.mem_cons_of_mem _ (h.onWork v d hold))
    case busy => omega
    case idle => omega
    case total => omega
  | true =>
    obtain ⟨hbusy, hidle⟩ := counts_update s (s.wakeNew w true) (p := .finished) h.workers hw
      rfl rfl
    rw [hwasBusy] at hbusy
    rw [hwasIdle] at hidle
    have hbusy : (s.wakeNew w true).workers.countP (s.wakeNew w true).busy =
      s.workers.countP s.busy := hbusy
    have hidle : (s.wakeNew w true).workers.countP (s.wakeNew w true).idle + 1 =
      s.workers.countP s.idle := hidle
    constructor
    case toLinked => exact hlinked
    case onWork =>
      intro v d hv
      have hv := (holds_update (s := s) (w := w) (p := .finished) rfl).mp hv
      split at hv
      next => exact absurd hv.2 nofun
      next => exact h.onWork v d hv
    case busy =>
      show s.activeThreads = (s.wakeNew w true).workers.countP (s.wakeNew w true).busy
      omega
    case idle =>
      show s.idleThreads - 1 = (s.wakeNew w true).workers.countP (s.wakeNew w true).idle
      omega
    case total =>
      show s.activeThreads + (s.idleThreads - 1) ≤ aioMaxThreads
      omega

/-! ## Runs -/

theorem Counted.run (h : Counted s) {op : Op Cid Wid} (he : op.Enabled s)
    (hop : op.EnqueueOrWorker) (hc : op.Counting s) : Counted (op.run s) := by
  cases op with
  | enqueue req c thread => exact h.enqueue he.2.2.1 he.2.2.2
  | cancel fildes aiocbp valid => exact absurd hop id
  | take w c =>
    obtain ⟨-, hw, hpc⟩ := he
    have hholds : s.Holds w c := ⟨hw, by rw [hpc]; rfl⟩
    exact (SameShape.take (h.held w c hholds).1 hpc).counted h
  | finish w c req result errno => exact (SameShape.finish he.2.2 result errno).counted h
  | recheck w c =>
    obtain ⟨-, hw, hpc⟩ := he
    have hholds : s.Holds w c := ⟨hw, by rw [hpc]; rfl⟩
    exact (SameShape.recheck (h.held w c hholds).1 hpc).counted h
  | wakeChain w c timedOut => exact h.wakeChain he.2.1 he.2.2 hc
  | wakeNew w timedOut => exact h.wakeNew he.2.1 he.2.2 hc

section

omit [DecidableEq Wid]

theorem Counted.threads (h : Counted s) : ThreadsCounted s := by
  have hsame : s.workers.countP s.active = s.workers.countP s.busy := by
    refine List.countP_congr fun w hw => ?_
    unfold State.active State.busy
    cases hc : (s.pc w).chain with
    | none => exact .rfl
    | some c => simp [h.onWork w c ⟨hw, hc⟩]
  have hbusy := h.busy
  have hidle := h.idle
  constructor
  case active => rw [hsame, hbusy]
  case idle => exact hidle
  case activeNonneg => omega
  case idleNonneg => omega
  case total => exact h.total

theorem counted_initial (chains : Cid → RequestChain) (pc : Wid → Pc Cid)
    (outcome : Request → Outcome) : Counted (initial chains pc outcome) where
  toLinked := linked_initial chains pc outcome
  onWork := fun _ _ h => nomatch h.1
  busy := rfl
  idle := rfl
  total := by
    show (0 : Int) + 0 ≤ aioMaxThreads
    decide

end

/-- When a worker whose wait for its chain times out finds no chain on the idle list, and one that is
woken for a new chain finds one, the counts are those of the workers. -/
theorem threads_counted (chains : Cid → RequestChain) (pc : Wid → Pc Cid)
    (outcome : Request → Outcome)
    (hr : Reachable (fun s op => op.EnqueueOrWorker ∧ op.Counting s)
      (initial chains pc outcome) s) : ThreadsCounted s := by
  refine (Reach.invariant hr (counted_initial chains pc outcome) ?_ : Counted s).threads
  rintro s s' h ⟨op, he, ⟨hop, hc⟩, rfl⟩
  exact h.run he hop hc

/-- A worker executes a request, waits for its chain in vain and becomes idle. -/
def becomesIdle : List (Op Nat Nat) :=
  [.enqueue (requestFor 0 3) 0 (some 0), .take 0 0, .finish 0 0 (requestFor 0 3) 0 0, .take 0 0,
    .recheck 0 0, .wakeChain 0 0 true]

theorem threads_counted_idle : ThreadsCounted (becomesIdle.foldl Op.run blank) := by
  refine threads_counted (fun _ => ⟨[], 0⟩) (fun _ => .finished) (fun _ => ⟨.EINPROGRESS, 0⟩)
    (Legal.reachable ?_)
  have hmem : 0 ∈ [0] := List.mem_cons_self
  exact ⟨⟨rfl, nofun, rfl, fun _ _ => nofun⟩, ⟨trivial, trivial⟩,
    ⟨rfl, hmem, rfl⟩, ⟨trivial, trivial⟩, ⟨rfl, hmem, rfl⟩, ⟨trivial, trivial⟩,
    ⟨rfl, hmem, rfl⟩, ⟨trivial, trivial⟩, ⟨rfl, hmem, rfl⟩, ⟨trivial, trivial⟩,
    ⟨rfl, hmem, rfl⟩, ⟨trivial, fun _ => rfl⟩, trivial⟩

/-- There are as many workers as there can be, and a request for one more descriptor waits when the
first worker gives its chain back. -/
def takesAtOnce : List (Op Nat Nat) :=
  [.enqueue (requestFor 0 3) 0 (some 0), .enqueue (requestFor 1 4) 1 (some 1),
    .enqueue (requestFor 2 5) 2 (some 2), .enqueue (requestFor 3 6) 3 (some 3),
    .enqueue (requestFor 4 7) 4 (some 4), .enqueue (requestFor 5 8) 5 none,
    .take 0 0, .finish 0 0 (requestFor 0 3) 0 0, .take 0 0, .recheck 0 0, .wakeChain 0 0 true]

/-- The worker is counted as active twice, and there is one idle worker less than none. -/
theorem threads_counted_atOnce : ¬ ∀ s : State Nat Nat,
    Reachable (fun _ op => op.EnqueueOrWorker) blank s → ThreadsCounted s := by
  intro h
  have hlegal : Legal (fun _ op => op.EnqueueOrWorker) blank takesAtOnce := by
    refine ⟨⟨rfl, by decide, rfl, ?_⟩, trivial, ⟨rfl, by decide, rfl, ?_⟩, trivial,
      ⟨rfl, by decide, rfl, ?_⟩, trivial, ⟨rfl, by decide, rfl, ?_⟩, trivial,
      ⟨rfl, by decide, rfl, ?_⟩, trivial, ⟨rfl, by decide, rfl, nofun⟩, trivial,
      ⟨rfl, by decide, rfl⟩, trivial, ⟨rfl, by decide, rfl⟩, trivial, ⟨rfl, by decide, rfl⟩, trivial,
      ⟨rfl, by decide, rfl⟩, trivial, ⟨rfl, by decide, rfl⟩, trivial, trivial⟩ <;>
    · intro w hw
      cases hw
      decide
  have hidle := (h _ hlegal.reachable).idleNonneg
  exact absurd hidle (by decide)

end Rtems.Aio
