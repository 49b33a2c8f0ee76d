import Rtems.Mqueue.Opening
import Rtems.Mqueue.Closing

/-!
# Runs of `mq_open`, `mq_close` and `mq_unlink`

The invariant holds after every run, and says what the calls can be relied on for.
-/

namespace Rtems.Mqueue

variable {c : Limits} {s s' s₀ : State} {a : Answers} {d q i : Nat} {name : Name} {oflag : Oflag}
  {attr : Option MqAttr} {o : Option Name} {e : Errno}

theorem Inv.run (h : Inv c s) {op : Op} (he : op.Enabled c s) : Inv c (op.run c s) := by
  cases op with
  | mqOpen name oflag attr a =>
    rcases h.mqOpen_cases he with ⟨e, -, hsame⟩ | ⟨d, q, -, hopen⟩
    · exact h.same hsame
    · exact h.opened hopen.opened hopen.free
  | mqClose d => exact h.mqClose d
  | mqUnlink name => exact h.mqUnlink name

/-- Every call gives the allocator lock back as often as it took it. -/
theorem Inv.lock (h : Inv c s) {op : Op} (he : op.Enabled c s) : (op.run c s).lock = s.lock := by
  cases op with
  | mqOpen name oflag attr a =>
    rcases h.mqOpen_cases he with ⟨e, -, hsame⟩ | ⟨d, q, -, hopen⟩
    · exact hsame.lock
    · exact hopen.opened.lock
  | mqClose d =>
    show (Mqueue.mqClose s d).2.lock = s.lock
    cases hd : s.fds.localTable d with
    | false => rw [mqClose_free hd]
    | true => rw [mqClose_open hd, delete_lock]
  | mqUnlink name =>
    show (Mqueue.mqUnlink c s name).2.lock = s.lock
    cases hid : nameToId c s name with
    | error e => rw [mqUnlink_error hid]
    | ok q =>
      obtain ⟨name, rfl, hq⟩ := nameToId_ok hid
      obtain ⟨hin, n, hn, -⟩ := nameToIdString_some h.blocks hq
      have hname : (s.queue q).name.isSome = true := by
        rw [hn]
        rfl
      rw [mqUnlink_ok hid hname, delete_lock]

theorem inv_initial (c : Limits) (lock : Nat) (queue : Nat → Queue) (fd : Nat → Fd) :
    Inv c (initial lock queue fd) := by
  refine ⟨?_, nofun⟩
  constructor
  case fdNodup => exact List.nodup_nil
  case fdOpen => exact fun _ => ⟨nofun, nofun⟩
  case queueNodup => exact List.nodup_nil
  case queueOpen => exact fun _ => ⟨nofun, nofun⟩
  case range => exact nofun
  case refers => exact nofun
  case count => exact nofun
  case linked => exact nofun
  case names => rfl
  case distinct => exact nofun
  case serial => exact nofun
  case serialInj => exact nofun
  case unlinked => exact nofun
  case fresh => exact nofun

/-- A linked queue is what is found under its name. -/
theorem Inv.found (h : Inv c s) (hq : q ∈ s.queues.allocated) {n : Name}
    (hn : (s.queue q).name = some n) : nameToIdString c s n = some q := by
  cases hs : nameToIdString c s n with
  | none =>
    have hfalse := nameToIdString_none h.blocks hs hq hn
    exact absurd (hfalse.symm.trans (strncmpEq_iff.mpr rfl)) nofun
  | some i =>
    obtain ⟨hi, n', hn', hmatch⟩ := nameToIdString_some h.blocks hs
    rw [h.blocks.distinct q hq i hi n n' hn hn' hmatch]

/-- Queues, descriptors and names between two calls. -/
structure Lifetime (c : Limits) (s : State) : Prop where
  /-- A queue is not inactive if and only if a name or a descriptor leads to it. -/
  live : ∀ q, q ∈ s.queues.allocated ↔ (∃ name, nameToIdString c s name = some q) ∨
    ∃ d, s.fds.localTable d = true ∧ (s.fd d).queue = q
  used : ∀ q ∈ s.queues.allocated, (s.queue q).linked = true ∨ 0 < (s.queue q).openCount
  /-- The flag and the counter say what leads to a queue. -/
  linked : ∀ q ∈ s.queues.allocated,
    (s.queue q).linked = true ↔ ∃ name, nameToIdString c s name = some q
  openCount : ∀ q ∈ s.queues.allocated, (s.queue q).openCount = openFds s q
  fds : ∀ d, d ∈ s.fds.allocated ↔ s.fds.localTable d = true
  /-- The queue of a descriptor is the one it was opened for. -/
  opened : ∀ d, s.fds.localTable d = true →
    (s.queue (s.fd d).queue).serial = (s.fd d).opened
  distinct : ∀ q ∈ s.queues.allocated, ∀ q' ∈ s.queues.allocated, ∀ name,
    (s.queue q).name = some name → (s.queue q').name = some name → q = q'
  names : s.names = s.queues.allocated.countP fun q => (s.queue q).linked

theorem Inv.lifetime (h : Inv c s) : Lifetime c s where
  live := by
    have hb := h.blocks
    intro q
    constructor
    · intro hq
      rcases h.used q hq with hl | hc
      · rw [hb.linked q hq] at hl
        obtain ⟨n, hn⟩ := Option.isSome_iff_exists.mp hl
        exact .inl ⟨n, h.found hq hn⟩
      · rw [hb.count q hq] at hc
        obtain ⟨d, hd, he⟩ := List.countP_pos_iff.mp hc
        exact .inr ⟨d, (hb.fdOpen d).mpr hd, of_decide_eq_true he⟩
    · rintro (⟨name, hs⟩ | ⟨d, hd, rfl⟩)
      · exact (nameToIdString_some hb hs).1
      · exact (hb.refers d ((hb.fdOpen d).mp hd)).1
  used := h.used
  linked := by
    intro q hq
    rw [h.blocks.linked q hq]
    constructor
    · intro hs
      obtain ⟨n, hn⟩ := Option.isSome_iff_exists.mp hs
      exact ⟨n, h.found hq hn⟩
    · rintro ⟨name, hs⟩
      obtain ⟨-, n, hn, -⟩ := nameToIdString_some h.blocks hs
      rw [hn]
      rfl
  openCount := h.blocks.count
  fds := fun d => (h.blocks.fdOpen d).symm
  opened := fun d hd => (h.blocks.refers d ((h.blocks.fdOpen d).mp hd)).2.symm
  distinct := by
    intro q hq q' hq' name hn hn'
    exact h.blocks.distinct q hq q' hq' name name hn hn' (strncmpEq_iff.mpr rfl)
  names := by
    rw [h.blocks.names]
    refine List.countP_congr ?_
    intro q hq
    rw [h.blocks.linked q hq]

/-- What a call has to do with the queues there are. -/
structure Calls (c : Limits) (s : State) : Prop where
  lock : ∀ op : Op, op.Enabled c s → (op.run c s).lock = s.lock
  openFailed : ∀ name oflag attr a e, (Op.mqOpen name oflag attr a).Enabled c s →
    (mqOpen c s name oflag attr a).1 = .error e → Same s (mqOpen c s name oflag attr a).2
  /-- A queue that has been unlinked is never opened again. -/
  openLinked : ∀ name oflag attr a d, (Op.mqOpen name oflag attr a).Enabled c s →
    (mqOpen c s name oflag attr a).1 = .ok d → d ∉ s.fds.allocated ∧
      ((mqOpen c s name oflag attr a).2.fd d).opened ∉ s.unlinked
  /-- An unlinking is followed by a queue that has not been there before. -/
  openCreated : ∀ name oflag attr a d, (mqUnlink c s name).1 = .ok () →
    (Op.mqOpen name oflag attr a).Enabled c (mqUnlink c s name).2 →
    (mqOpen c (mqUnlink c s name).2 name oflag attr a).1 = .ok d →
      oflag.creat = true ∧ ∀ q ∈ s.queues.allocated,
        ((mqOpen c (mqUnlink c s name).2 name oflag attr a).2.fd d).opened ≠ (s.queue q).serial

theorem serial_delete (s : State) (q : Nat) : (delete s q).serial = s.serial := by
  unfold delete State.namespaceRemove
  split
  next =>
    dsimp only
    cases (s.queue q).name with
    | none => rfl
    | some _ => rfl
  next => rfl

theorem Inv.calls (h : Inv c s) : Calls c s where
  lock := fun _ he => h.lock he
  openFailed := by
    intro name oflag attr a e he hfail
    rcases h.mqOpen_cases he with ⟨-, -, hsame⟩ | ⟨d, q, hok, -⟩
    · exact hsame
    · exact absurd (hok.symm.trans hfail) nofun
  openLinked := by
    intro name oflag attr a d he hok
    rcases h.mqOpen_cases he with ⟨e, hfail, -⟩ | ⟨d', q, hok', hopen⟩
    · exact absurd (hfail.symm.trans hok) nofun
    · obtain rfl := Except.ok.inj (hok'.symm.trans hok)
      rw [hopen.opened.fd.2]
      exact ⟨hopen.free, hopen.opened.fresh⟩
  openCreated := by
    intro name oflag attr a d hunlink he hok
    have hnone := h.not_found hunlink
    have hserial : (Mqueue.mqUnlink c s name).2.serial = s.serial := by
      cases hid : nameToId c s name with
      | error e => rw [mqUnlink_error hid]
      | ok q =>
        obtain ⟨name, rfl, hq⟩ := nameToId_ok hid
        obtain ⟨hin, n, hn, -⟩ := nameToIdString_some h.blocks hq
        have hname : (s.queue q).name.isSome = true := by
          rw [hn]
          rfl
        rw [mqUnlink_ok hid hname, serial_delete]
    rcases (h.mqUnlink name).mqOpen_cases he with ⟨e, hfail, -⟩ | ⟨d', q, hok', hopen⟩
    · exact absurd (hfail.symm.trans hok) nofun
    · obtain rfl := Except.ok.inj (hok'.symm.trans hok)
      rcases hopen.queue with ⟨hfound, -⟩ | ⟨hcreat, -, -, hnew⟩
      · exact absurd (hnone.symm.trans hfound) nofun
      · refine ⟨hcreat, ?_⟩
        intro i hi he
        rw [hopen.opened.fd.2, hnew, hserial] at he
        exact Nat.lt_irrefl _ (he ▸ h.blocks.serial i hi)

/-- Queues, descriptors and names agree after every run of calls, a failing `mq_open` changes none of
them, and after an unlinking the name stands for another queue. -/
theorem queue_lifetime {lock : Nat} {queue : Nat → Queue} {fd : Nat → Fd}
    (hr : Reachable c (initial lock queue fd) s) : Lifetime c s ∧ Calls c s := by
  have hinv : Inv c s := by
    refine Reach.invariant hr (inv_initial c lock queue fd) ?_
    rintro s s' h ⟨op, he, rfl⟩
    exact h.run he
  exact ⟨hinv.lifetime, hinv.calls⟩

/-- Limits with three queues. -/
def three : Limits := ⟨255, 255, 3⟩

/-- Nothing is open. -/
def idle : State := initial 0 (fun _ => ⟨none, false, 0, ⟨0, 0⟩, 0⟩) fun _ => ⟨⟨false, false⟩, 0, 0⟩

/-- A queue is created under the name `q`, with this index of the queue and of the descriptor. -/
def creation (i : Nat) : Op := .mqOpen (some ['q']) ⟨true, false⟩ none ⟨some i, some i, true, true⟩

theorem creation_enabled {i : Nat} (hfd : i ∉ s.fds.allocated) (hqueue : i ∉ s.queues.allocated)
    (hpos : 0 < i) (hle : i ≤ c.maximum) : (creation i).Enabled c s := by
  refine ⟨fun d hd => ?_, fun q hq => ?_⟩
  · obtain rfl : i = d := Option.some.inj hd
    exact hfd
  · obtain rfl : i = q := Option.some.inj hq
    exact ⟨hqueue, hpos, hle⟩

/-- The name is taken from a queue that is open, and another queue is created under it. -/
theorem queue_lifetime_created :
    let s := [creation 1, .mqUnlink (some ['q']), creation 2].foldl (Op.run three) idle
    s.names = 1 ∧ s.queues.allocated = [2, 1] ∧ Lifetime three s ∧ Calls three s := by
  have h₁ : Reachable three idle ((creation 1).run three idle) :=
    .single ⟨creation 1, creation_enabled (by decide) (by decide) (by decide) (by decide), rfl⟩
  have h₂ := h₁.tail ⟨.mqUnlink (some ['q']), trivial, rfl⟩
  have h₃ := h₂.tail ⟨creation 2, creation_enabled (by decide) (by decide) (by decide) (by decide), rfl⟩
  exact ⟨rfl, rfl, queue_lifetime h₃⟩

end Rtems.Mqueue
