import Rtems.Mqueue.Calls

/-!
# What `mq_open` does

It fails and puts back what it took, or it opens a descriptor for a queue that was found or created.
-/

namespace Rtems.Mqueue

variable {c : Limits} {s s' s₀ : State} {a : Answers} {d q i : Nat} {name : Name} {oflag : Oflag}
  {attr : Option MqAttr} {o : Option Name} {e : Errno}

/-- A descriptor that was taken is put back. -/
theorem same_freeFd (hd : d ∉ s.fds.allocated) {x : Fd}
    (h : Same ((s.allocateFd (some d)).setFd d x) s') : Same s ((s'.freeFd d).allocatorUnlock) := by
  constructor
  case lock => exact congrArg (· - 1) h.lock
  case queues => exact h.queues
  case fds =>
    show s'.fds.free d = s.fds
    rw [h.fds]
    show (⟨(d :: s.fds.allocated).erase d, s.fds.localTable⟩ : Class) = s.fds
    rw [List.erase_cons_head]
  case names => exact h.names
  case serial => exact h.serial
  case unlinked => exact h.unlinked
  case queue => exact h.queue
  case fd =>
    intro i hi
    have hne : i ≠ d := fun he => hd (he ▸ hi)
    exact (h.fd i (List.mem_cons_of_mem d hi)).trans (Function.update_of_ne hne ..)

theorem Same.refl (s : State) : Same s s :=
  ⟨rfl, rfl, rfl, rfl, rfl, rfl, fun _ _ => rfl, fun _ _ => rfl⟩

/-- What `_POSIX_Message_queue_Create_support` does: nothing, or it creates a queue. -/
theorem createSupport_cases (s : State) (name : Name) (attr : Option MqAttr) (a : Answers)
    (hq : ∀ q, a.queue = some q → q ∉ s.queues.allocated) :
    (∃ e s₁, createSupport s name attr a = (.error e, s₁) ∧ Same s s₁) ∨
    ∃ q x, a.queue = some q ∧ createSupport s name attr a = (.ok q, { s with
        queues := ⟨q :: s.queues.allocated, Function.update s.queues.localTable q true⟩
        queue := Function.update s.queue q ⟨some name, true, 1, x, s.serial⟩
        names := s.names + 1
        serial := s.serial + 1 }) := by
  unfold createSupport
  cases chosenAttr attr with
  | error e => exact .inl ⟨_, _, rfl, .refl s⟩
  | ok x =>
    cases hqueue : a.queue with
    | none => exact .inl ⟨_, _, rfl, .refl s⟩
    | some q =>
      have hnot := hq q hqueue
      have hfree : (s.queues.allocate (some q)).free q = s.queues := by
        show (⟨(q :: s.queues.allocated).erase q, s.queues.localTable⟩ : Class) = s.queues
        rw [List.erase_cons_head]
      cases a.name with
      | false =>
        refine .inl ⟨_, _, rfl, ⟨rfl, hfree, rfl, rfl, rfl, rfl, ?_, ?_⟩⟩
        · exact fun _ _ => rfl
        · exact fun _ _ => rfl
      | true =>
        cases a.core with
        | false =>
          refine .inl ⟨_, _, rfl, ⟨rfl, hfree, rfl, rfl, rfl, rfl, ?_, ?_⟩⟩
          · intro i hi
            have hne : i ≠ q := fun he => hnot (he ▸ hi)
            exact Function.update_of_ne hne ..
          · exact fun _ _ => rfl
        | true =>
          refine .inr ⟨q, x, rfl, ?_⟩
          simp [State.allocateQueue, State.allocatorLock, State.allocatorUnlock,
            State.setQueue, Class.allocate, Class.setLocal]

/-- A call of `mq_open` opened the descriptor `d` for the queue `q`. -/
structure OpenResult (c : Limits) (s : State) (o : Option Name) (oflag : Oflag) (d q : Nat)
    (s' : State) : Prop where
  free : d ∉ s.fds.allocated
  opened : Opened c s s' d q
  /-- The queue was found under the name, or it is new. -/
  queue : nameToId c s o = .ok q ∧ (s'.queue q).serial = (s.queue q).serial ∨
    oflag.creat = true ∧ nameToId c s o = .error .ENOENT ∧ q ∉ s.queues.allocated ∧
      (s'.queue q).serial = s.serial

/-- A queue that exists is opened once more. -/
theorem Inv.opened_found (h : Inv c s) {name : Name}
    (hq : nameToIdString c s name = some q) {x : Fd} (hx : x.queue = q)
    (hserial : x.opened = (s.queue q).serial) :
    Opened c s { s with
      fds := ⟨d :: s.fds.allocated, Function.update s.fds.localTable d true⟩
      fd := Function.update s.fd d x
      queue := Function.update s.queue q
        { s.queue q with openCount := (s.queue q).openCount + 1 } } d q := by
  have hb := h.blocks
  obtain ⟨hin, n, hn, -⟩ := nameToIdString_some hb hq
  have hself : Function.update s.queue q
      { s.queue q with openCount := (s.queue q).openCount + 1 } q =
      { s.queue q with openCount := (s.queue q).openCount + 1 } := Function.update_self ..
  have hlinked : (s.queue q).linked = true := by
    rw [hb.linked q hin, hn]
    rfl
  have hlt := hb.serial q hin
  constructor
  case lock => rfl
  case fds => rfl
  case fd =>
    dsimp only
    rw [Function.update_self, hself]
    exact ⟨hx, hserial⟩
  case otherFd => exact fun i hi => Function.update_of_ne hi ..
  case queueNodup => exact hb.queueNodup
  case queueOpen => exact hb.queueOpen
  case mem =>
    intro i
    constructor
    · exact .inr
    · rintro (rfl | hi)
      · exact hin
      · exact hi
  case range => exact hb.range q hin
  case other => exact fun i hi => Function.update_of_ne hi ..
  case keeps =>
    intro _
    dsimp only
    rw [hself]
  case count =>
    dsimp only
    rw [hself]
    exact congrArg (· + 1) (hb.count q hin)
  case linked =>
    dsimp only
    rw [hself]
    exact hlinked
  case name =>
    dsimp only
    rw [hself]
    refine ⟨n, hn, ?_⟩
    intro i hi hne n' hn' he
    exact hne (hb.distinct q hin i hi n n' hn hn' (strncmpEq_iff.mpr he)).symm
  case names =>
    refine hb.names.trans (List.countP_congr ?_)
    intro i _
    rcases eq_or_ne i q with rfl | hne
    · dsimp only
      rw [hself]
    · dsimp only
      rw [Function.update_of_ne hne]
  case serial =>
    dsimp only
    rw [hself]
    exact ⟨Nat.le_refl _, hlt⟩
  case serialNe =>
    dsimp only
    rw [hself]
    exact fun i hi hne he => hne (hb.serialInj i hi q hin he)
  case unlinked => rfl
  case fresh =>
    dsimp only
    rw [hself]
    exact hb.fresh q hin hlinked

/-- A queue is created and opened. -/
theorem Inv.opened_created (h : Inv c s) {name : Name}
    (hnone : nameToIdString c s name = none) (hq : q ∉ s.queues.allocated)
    (hrange : 0 < q ∧ q ≤ c.maximum) {y : MqAttr} {x : Fd} (hx : x.queue = q)
    (hserial : x.opened = s.serial) :
    Opened c s { s with
      fds := ⟨d :: s.fds.allocated, Function.update s.fds.localTable d true⟩
      fd := Function.update s.fd d x
      queues := ⟨q :: s.queues.allocated, Function.update s.queues.localTable q true⟩
      queue := Function.update s.queue q ⟨some name, true, 1, y, s.serial⟩
      names := s.names + 1
      serial := s.serial + 1 } d q := by
  have hb := h.blocks
  have hself : Function.update s.queue q ⟨some name, true, 1, y, s.serial⟩ q =
      ⟨some name, true, 1, y, s.serial⟩ := Function.update_self ..
  constructor
  case lock => rfl
  case fds => rfl
  case fd =>
    dsimp only
    rw [Function.update_self, hself]
    exact ⟨hx, hserial⟩
  case otherFd => exact fun i hi => Function.update_of_ne hi ..
  case queueNodup => exact List.nodup_cons.mpr ⟨hq, hb.queueNodup⟩
  case queueOpen =>
    intro i
    rcases eq_or_ne i q with rfl | hne
    · simp
    · simp [hne, hb.queueOpen i]
  case mem => exact fun i => List.mem_cons
  case range => exact hrange
  case other => exact fun i hi => Function.update_of_ne hi ..
  case keeps => exact fun hin => absurd hin hq
  case count =>
    have hzero : openFds s q = 0 := by
      refine List.countP_eq_zero.mpr ?_
      intro i hi he
      have hrefers := (hb.refers i hi).1
      rw [of_decide_eq_true he] at hrefers
      exact hq hrefers
    dsimp only
    rw [hself, hzero]
  case linked =>
    dsimp only
    rw [hself]
  case name =>
    dsimp only
    rw [hself]
    refine ⟨name, rfl, ?_⟩
    intro i hi _ n' hn' he
    have hfalse := nameToIdString_none hb hnone hi hn'
    exact absurd (hfalse.symm.trans (strncmpEq_iff.mpr he)) nofun
  case names =>
    have hsame : s.queues.allocated.countP (fun i => (s.queue i).name.isSome) =
        s.queues.allocated.countP fun i => (Function.update s.queue q
          ⟨some name, true, 1, y, s.serial⟩ i).name.isSome := by
      refine List.countP_congr ?_
      intro i hi
      have hne : i ≠ q := fun he => hq (he ▸ hi)
      rw [Function.update_of_ne hne]
    refine (congrArg (· + 1) (hb.names.trans hsame)).trans (Eq.symm ?_)
    refine List.countP_cons_of_pos ?_
    dsimp only
    rw [hself]
    rfl
  case serial =>
    dsimp only
    rw [hself]
    exact ⟨Nat.le_succ _, Nat.lt_succ_self _⟩
  case serialNe =>
    intro i hi _
    dsimp only
    rw [hself]
    exact Nat.ne_of_lt (hb.serial i hi)
  case unlinked => rfl
  case fresh =>
    dsimp only
    rw [hself]
    exact fun hin => Nat.lt_irrefl _ (hb.unlinked _ hin)

theorem openFd_setFd (s : State) (d q : Nat) (x : Fd) :
    (openFd (s.setFd d x) d q).allocatorUnlock =
      { s with
        lock := s.lock - 1
        fd := Function.update s.fd d ⟨x.oflag, q, (s.queue q).serial⟩
        fds := s.fds.setLocal d } := by
  simp [openFd, State.setFd, State.allocatorUnlock, Function.update_idem]

/-- What `mq_open` does: it fails and changes nothing, or it opens a descriptor. -/
theorem Inv.mqOpen_cases (h : Inv c s) (he : (Op.mqOpen o oflag attr a).Enabled c s) :
    (∃ e, (mqOpen c s o oflag attr a).1 = .error e ∧ Same s (mqOpen c s o oflag attr a).2) ∨
    ∃ d q, (mqOpen c s o oflag attr a).1 = .ok d ∧
      OpenResult c s o oflag d q (mqOpen c s o oflag attr a).2 := by
  obtain ⟨hfd, hqueue⟩ := he
  unfold mqOpen
  cases hd : a.fd with
  | none => exact .inl ⟨_, rfl, .refl s⟩
  | some d =>
    have hnot := hfd d hd
    obtain ⟨x, hx⟩ : ∃ x : Fd, x = { s.fd d with oflag := oflag } := ⟨_, rfl⟩
    obtain ⟨s₁, hs₁⟩ : ∃ s₁ : State, s₁ = (s.allocateFd (some d)).setFd d x := ⟨_, rfl⟩
    have hname : nameToId c s₁ o = nameToId c s o := by
      rw [hs₁]
      exact nameToId_congr rfl rfl
    have hfail : ∀ s₂, Same s₁ s₂ → Same s ((s₂.freeFd d).allocatorUnlock) := by
      intro s₂ hsame
      rw [hs₁] at hsame
      exact same_freeFd hnot hsame
    have hstart : (s.allocateFd (some d)).setFd d
        { (s.allocateFd (some d)).fd d with oflag := oflag } = s₁ := by
      rw [hs₁, hx]
      rfl
    dsimp only
    rw [hstart, hname]
    cases hid : nameToId c s o with
    | ok q =>
      dsimp only
      split
      next => exact .inl ⟨_, rfl, hfail _ (.refl _)⟩
      next =>
        obtain ⟨name, ho, hq⟩ := nameToId_ok hid
        refine .inr ⟨d, q, rfl, ?_⟩
        have hstate : s₁.setQueue q { s₁.queue q with openCount := (s₁.queue q).openCount + 1 } =
            (((s.allocateFd (some d)).setQueue q
              { s.queue q with openCount := (s.queue q).openCount + 1 }).setFd d x) := by
          rw [hs₁]
          rfl
        have hself : (Function.update s.queue q
            { s.queue q with openCount := (s.queue q).openCount + 1 } q).serial =
            (s.queue q).serial := by
          rw [Function.update_self]
        rw [hstate, openFd_setFd]
        exact ⟨hnot, h.opened_found hq rfl hself, .inl ⟨hid, hself⟩⟩
    | error e =>
      cases e with
      | ENOENT =>
        obtain ⟨name, rfl, hnone⟩ := nameToId_enoent hid
        dsimp only
        cases hcreat : oflag.creat with
        | false => exact .inl ⟨_, rfl, hfail _ (.refl _)⟩
        | true =>
          have hq₁ : ∀ q, a.queue = some q → q ∉ s₁.queues.allocated := by
            rw [hs₁]
            exact fun q hq => (hqueue q hq).1
          rcases createSupport_cases s₁ name attr a hq₁ with
            ⟨e, s₂, hc, hsame⟩ | ⟨q, y, hq, hc⟩
          · refine .inl ⟨e, ?_, ?_⟩
            · simp [hc]
            · simpa [hc] using hfail _ hsame
          · refine .inr ⟨d, q, ?_, ?_⟩
            · simp [hc]
            · have hself : (Function.update s.queue q
                  ⟨some name, true, 1, y, s.serial⟩ q).serial = s.serial := by
                rw [Function.update_self]
              have hstate : { s₁ with
                  queues := ⟨q :: s₁.queues.allocated,
                    Function.update s₁.queues.localTable q true⟩
                  queue := Function.update s₁.queue q ⟨some name, true, 1, y, s₁.serial⟩
                  names := s₁.names + 1
                  serial := s₁.serial + 1 } =
                  State.setFd { s.allocateFd (some d) with
                    queues := ⟨q :: s.queues.allocated,
                      Function.update s.queues.localTable q true⟩
                    queue := Function.update s.queue q ⟨some name, true, 1, y, s.serial⟩
                    names := s.names + 1
                    serial := s.serial + 1 } d x := by
                rw [hs₁]
                rfl
              obtain ⟨hnew, hrange⟩ := hqueue q hq
              have hopened := h.opened_created (d := d) (y := y) hnone hnew hrange
                (x := ⟨x.oflag, q, (Function.update s.queue q
                  ⟨some name, true, 1, y, s.serial⟩ q).serial⟩) rfl hself
              rw [hstate] at hc
              simp only [if_true, Bool.not_true, Bool.false_eq_true, if_false, hc]
              rw [openFd_setFd]
              exact ⟨hnot, hopened, .inr ⟨hcreat, hid, hnew, hself⟩⟩
      | EINVAL => exact .inl ⟨_, rfl, hfail _ (.refl _)⟩
      | ENFILE => exact .inl ⟨_, rfl, hfail _ (.refl _)⟩
      | ENOMEM => exact .inl ⟨_, rfl, hfail _ (.refl _)⟩
      | ENOSPC => exact .inl ⟨_, rfl, hfail _ (.refl _)⟩
      | ENAMETOOLONG => exact .inl ⟨_, rfl, hfail _ (.refl _)⟩
      | EEXIST => exact .inl ⟨_, rfl, hfail _ (.refl _)⟩
      | EBADF => exact .inl ⟨_, rfl, hfail _ (.refl _)⟩

end Rtems.Mqueue
