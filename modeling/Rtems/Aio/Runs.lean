import Rtems.Aio.Requests

/-!
# No request is lost

A worker frees its chain when its wait times out, whatever has come to the chain
and whatever has become of the chain in the meantime.  As long as the chain is
empty and on the work list then, no chain is taken off the idle list that is not
there, and no second worker gets a descriptor, every request is kept.
-/

namespace Rtems.Aio

variable {Cid Wid : Type} [DecidableEq Cid] [DecidableEq Wid]
variable {s s' : State Cid Wid} {w : Wid} {c : Cid} {req : Request}

/-- No request is lost or duplicated, one worker at a time processes a descriptor, and no chain is
unlinked or used after it was released. -/
structure RequestsKept (s : State Cid Wid) : Prop where
  once : ∀ r ∈ s.accepted,
    s.inProgress.count r + s.executed.count r + s.canceled.count r + s.queued.count r = 1
  canceled : ∀ r ∈ s.canceled, s.outcome r = ⟨.ECANCELED, -1⟩
  exclusive : ∀ w ∈ s.workers, ∀ w' ∈ s.workers, ∀ c r c' r', s.pc w = .processing c r →
    s.pc w' = .processing c' r' → r.aiocbp.fildes = r'.aiocbp.fildes → w = w'
  noFault : s.fault = false
  linked : ∀ c ∈ s.workReq ++ s.idleReq, s.allocated c = true
  held : ∀ w c, s.Holds w c → s.allocated c = true

/-- No other worker has a chain of the descriptor. -/
def State.FreeFor (s : State Cid Wid) (w : Wid) (fildes : Int) : Prop :=
  ∀ v c, v ≠ w → s.Holds v c → (s.chains c).fildes ≠ fildes

/-- A new worker is not made for the descriptor of an unlinked chain that another worker still has.
A wait for a chain times out with the chain empty and on the work list.  A worker that looks for a
chain on the idle list finds one, whose descriptor no other worker has. -/
def Op.Careful (s : State Cid Wid) : Op Cid Wid → Prop
  | .enqueue req _ thread =>
    thread ≠ none → s.idleThreads = 0 → s.activeThreads < aioMaxThreads →
      ∀ w c, s.Holds w c → c ∉ s.workReq → (s.chains c).fildes ≠ req.aiocbp.fildes
  | .wakeChain w c timedOut => timedOut = true →
      (s.chains c).perfd = [] ∧ c ∈ s.workReq ∧
        ∀ d, s.idleReq.head? = some d → s.FreeFor w (s.chains d).fildes
  | .wakeNew w timedOut => timedOut = false →
      s.idleReq ≠ [] ∧ ∀ d, s.idleReq.head? = some d → s.FreeFor w (s.chains d).fildes
  | _ => True

/-- The invariant. -/
structure Kept (s : State Cid Wid) : Prop extends Linked s, Apart s, Filed s, Ledger s

/-! ## Requests that come -/

section

omit [DecidableEq Wid]

theorem Filed.insertPrio (h : Filed s) (hl : Linked s) (hc : c ∈ s.workReq ++ s.idleReq)
    (hfd : (s.chains c).fildes = req.aiocbp.fildes) : Filed (s.insertPrio c req) := by
  have hfiled : Filed (s.setPerfd c ((s.chains c).perfd.orderedInsert
      (fun a b => a.aiocbp.reqprio ≤ b.aiocbp.reqprio) req)) := by
    refine h.setPerfd ?_ ?_
    · intro ha r hr
      rcases (List.mem_orderedInsert _).mp hr with rfl | hr
      · exact hfd.symm
      · exact h.fds c ha r hr
    · intro w hw hnot
      exact absurd ((List.mem_append.mp hc).resolve_left hnot) (hl.held w c hw).2
  rw [insertPrio_eq]
  exact { hfiled with }

end

section

omit [DecidableEq Cid] [DecidableEq Wid]

theorem mem_accept {r : Request} (hr : r ∈ (s.accept req).accepted) : r ∈ s.accepted ∨ r = req := by
  rcases List.mem_append.mp hr with hr | hr
  · exact .inl hr
  · exact .inr (List.mem_singleton.mp hr)

end

section

omit [DecidableEq Wid]

/-- Workers whose chains are on the work list do not have the descriptor that the search did not
find there. -/
theorem Apart.unserved (h : Apart s) {fildes : Int} (hnone : s.searchFd s.workReq fildes = none)
    (hoff : ∀ w c, s.Holds w c → c ∉ s.workReq → (s.chains c).fildes ≠ fildes) :
    s.Unserved fildes := by
  intro w d hw
  by_cases hd : d ∈ s.workReq
  · exact searchFd_none h.inOrder hnone d hd
  · exact hoff w d hw hd

end

theorem Kept.enqueue (h : Kept s) (hreq : req ∉ s.issued) (hc : s.allocated c = false)
    {thread : Option Wid} (hw : ∀ w, thread = some w → w ∉ s.workers)
    (hcareful : Op.Careful s (.enqueue req c thread)) : Kept (s.enqueue req c thread).1 := by
  have hlinked : Linked (s.enqueue req c thread).1 := h.toLinked.enqueue hc hw
  have hissueL : Linked (s.issue req) := (SameShape.issue s req).linked h.toLinked
  have hissueA : Apart (s.issue req) := (SameShape.issue s req).apart h.toApart
  have hissueF : Filed (s.issue req) := { h.toFiled with }
  obtain ⟨hlists, hfree⟩ := hissueL.fresh hc
  have hnewA : Apart ((s.issue req).newChain c req) := hissueA.newChain hissueL hc req
  have hnewF : Filed ((s.issue req).newChain c req) := hissueF.newChain hissueL hc req
  obtain ⟨hwork, hidle⟩ := queued_linkNew (s := s.issue req) hlists req
  rcases enqueue_cases s req c thread with
    ⟨d, hd, hfd, heq⟩ | ⟨hnone, ⟨-, heq⟩ | ⟨w, hthread, hzero, hmax, heq⟩ | heq⟩
  · have hfiled : Filed ((s.issue req).insertPrio d req) := hissueF.insertPrio hissueL hd hfd
    rw [heq] at hlinked ⊢
    constructor
    case toLinked => exact hlinked
    case toApart =>
      exact (SameShape.accept _ _).apart ((SameShape.insertPrio _ _ _).apart hissueA)
    case toFiled => exact { hfiled with }
    case toLedger =>
      exact h.toLedger.come hreq rfl rfl rfl (queued_insertPrio hissueL hd req) rfl
        (fun _ hr => mem_accept hr) rfl
  · have hfiled := hnewF.linkWork c
    rw [heq] at hlinked ⊢
    constructor
    case toLinked => exact hlinked
    case toApart => exact hnewA.linkWork c
    case toFiled => exact hfiled
    case toLedger => exact h.toLedger.come hreq rfl rfl rfl hwork rfl (fun _ hr => .inl hr) rfl
  · have hmem : c ∈ (((s.issue req).newChain c req).linkWork c).workReq :=
      (linkWork_perm _ c).mem_iff.mpr List.mem_cons_self
    have hfiled := (hnewF.linkWork c).createWorker (hw w hthread) hmem
    have hunserved : s.Unserved req.aiocbp.fildes := by
      refine h.toApart.unserved hnone (hcareful ?_ hzero hmax)
      rw [hthread]
      nofun
    rw [heq] at hlinked ⊢
    constructor
    case toLinked => exact hlinked
    case toApart =>
      refine (SameShape.accept _ _).apart ((hnewA.linkWork c).createWorker (hw w hthread) ?_)
      intro v d hv
      have hne : d ≠ c := by
        rintro rfl
        exact hfree v hv
      show (((s.issue req).newChain c req).chains d).fildes ≠
        (((s.issue req).newChain c req).chains c).fildes
      rw [chains_newChain, Function.update_self, Function.update_of_ne hne]
      exact hunserved v d hv
    case toFiled => exact { hfiled with }
    case toLedger =>
      exact h.toLedger.come hreq (inProgress_createWorker (hw w hthread)) rfl rfl hwork rfl
        (fun _ hr => mem_accept hr) rfl
  · have hfiled := hnewF.linkIdle c
    rw [heq] at hlinked ⊢
    constructor
    case toLinked => exact hlinked
    case toApart => exact (SameShape.accept _ _).apart (hnewA.linkIdle c)
    case toFiled => exact { hfiled with }
    case toLedger =>
      exact h.toLedger.come hreq rfl rfl rfl hidle rfl (fun _ hr => mem_accept hr) rfl

/-! ## Requests that are canceled -/

section

omit [DecidableEq Wid]

/-- A chain is taken off its list and its requests are canceled. -/
theorem Ledger.removeFd (h : Ledger s) (hl : Linked s) (hc : c ∈ s.workReq ++ s.idleReq)
    (hlists : s'.workReq ++ s'.idleReq = (s.workReq ++ s.idleReq).erase c)
    (hchains : s'.chains = s.chains) (hprogress : s'.inProgress = s.inProgress)
    (hexecuted : s'.executed = s.executed) (hcanceled : s'.canceled = s.canceled)
    (houtcome : s'.outcome = s.outcome) (hissued : s'.issued = s.issued)
    (haccepted : s'.accepted = s.accepted) : Ledger (s'.removeFd c) := by
  obtain ⟨hnot, hqueued⟩ := queued_erase hl hc hlists hchains
  rw [← queued_unlinked hnot [], ← hchains] at hqueued
  show Ledger ((s'.setPerfd c []).cancelRequests (s'.chains c).perfd)
  exact h.cancelRequests hprogress hexecuted hcanceled houtcome hissued haccepted hqueued

/-- One request is taken off its chain and canceled. -/
theorem Kept.removeReq (h : Kept s) (hc : c ∈ s.workReq ++ s.idleReq) (aiocbp : Aiocb) :
    Kept (s.removeReq c aiocbp).1 := by
  have hlinked := (SameShape.removeReq s c aiocbp).linked h.toLinked
  have hapart := (SameShape.removeReq s c aiocbp).apart h.toApart
  unfold State.removeReq at hlinked hapart ⊢
  split
  next => exact h
  next hne =>
    rw [if_neg hne] at hlinked hapart
    split
    next => exact h
    next r hr =>
      have hmem : r ∈ (s.chains c).perfd := List.mem_of_find?_eq_some hr
      have hfiled : Filed (s.setPerfd c ((s.chains c).perfd.erase r)) := by
        refine h.toFiled.setPerfd ?_ ?_
        · exact fun ha q hq => h.fds c ha q (List.mem_of_mem_erase hq)
        · intro w hw hnot
          exact absurd ((List.mem_append.mp hc).resolve_left hnot) (h.held w c hw).2
      have hqueued : s.queued.Perm
          ([r] ++ (s.setPerfd c ((s.chains c).perfd.erase r)).queued) := by
        have hset := queued_setPerfd h.toLinked hc ((s.chains c).perfd.erase r)
        rw [List.perm_iff_count] at hset ⊢
        intro q
        have hcount := hset q
        have herase := (List.perm_cons_erase hmem).count_eq q
        simp only [List.count_append, List.count_cons, List.count_nil] at hcount herase ⊢
        omega
      rw [hr] at hlinked hapart
      constructor
      case toLinked => exact hlinked
      case toApart => exact hapart
      case toFiled => exact { hfiled with }
      case toLedger => exact h.toLedger.cancelRequests rfl rfl rfl rfl rfl rfl hqueued

theorem Kept.cancel (h : Kept s) (fildes : Int) (aiocbp : Option Aiocb) (valid : Bool) :
    Kept (s.cancel fildes aiocbp valid).1 := by
  have hlinked := h.toLinked.cancel fildes aiocbp valid
  rcases cancel_cases s fildes aiocbp valid with
    heq | ⟨c, hc, -, heq⟩ | ⟨c, hc, -, heq⟩ | ⟨c, hc, -, block, heq⟩
  · rw [heq]
    exact h
  · rw [heq] at hlinked ⊢
    constructor
    case toLinked => exact hlinked
    case toApart => exact (SameShape.removeFd _ _).apart (h.toApart.extractWork hc)
    case toFiled => exact h.toFiled.cancelWork hc
    case toLedger =>
      rw [extractFd_work hc]
      exact h.toLedger.removeFd h.toLinked (List.mem_append_left _ hc)
        (List.erase_append_left _ hc).symm rfl rfl rfl rfl rfl rfl rfl
  · have hnot := h.toLinked.notWork hc
    have hmem := List.mem_append_right s.workReq hc
    have ha := h.allocated c hmem
    rw [heq] at hlinked ⊢
    constructor
    case toLinked => exact hlinked
    case toApart => exact (SameShape.removeFd _ _).apart (h.toApart.freeIdle hnot hc ha)
    case toFiled => exact h.toFiled.cancelIdle h.toLinked hc
    case toLedger =>
      rw [freeChain_idle hnot hc ha]
      exact h.toLedger.removeFd h.toLinked hmem
        (List.erase_append_right _ hnot).symm rfl rfl rfl rfl rfl rfl rfl
  · rw [heq]
    exact h.removeReq hc block

end

/-! ## The worker and its requests -/

section

omit [DecidableEq Cid]

/-- The worker goes on with its chain and has no request in its hands. -/
theorem Kept.setPc (h : Kept s) (hw : w ∈ s.workers) {p : Pc Cid} (hchain : (s.pc w).chain = some c)
    (hrequest : (s.pc w).request = []) (hp : p.chain = some c) (hp' : p.request = []) :
    Kept (s.setPc w p) where
  toLinked := (SameShape.setPc hp hchain).linked h.toLinked
  toApart := (SameShape.setPc hp hchain).apart h.toApart
  toFiled := by
    refine h.toFiled.setPc ?_ ?_
    · rintro d r rfl
      cases hp'
    · intro hw d hd
      exact ⟨hw, hchain.trans (hp.symm.trans hd)⟩
  toLedger := by
    have hprogress := inProgress_same h.workers hw hrequest hp'
    exact h.toLedger.move (ledger_perm rfl rfl (hprogress.append_right _)) rfl rfl h.canceled

end

theorem Kept.take (h : Kept s) (hw : w ∈ s.workers) (hpc : s.pc w = .lock c) :
    Kept (s.take w c) := by
  have hchain : (s.pc w).chain = some c := by rw [hpc]; rfl
  have hrequest : (s.pc w).request = [] := by rw [hpc]; rfl
  have ha : s.allocated c = true := (h.held w c ⟨hw, hchain⟩).1
  have hshape := SameShape.take ha hpc
  unfold State.take State.touch at hshape ⊢
  rw [if_pos ha] at hshape ⊢
  cases hperfd : (s.chains c).perfd with
  | nil => exact h.setPc hw hchain hrequest rfl rfl
  | cons req rest =>
    rw [hperfd] at hshape
    have hwork : c ∈ s.workReq := by
      by_contra hnot
      have hempty := h.unlinked w c ⟨hw, hchain⟩ hnot
      rw [hperfd] at hempty
      cases hempty
    have hfiled : Filed (s.setPerfd c rest) := by
      refine h.toFiled.setPerfd ?_ fun _ _ hnot => absurd hwork hnot
      intro _ r hr
      refine h.fds c ha r ?_
      rw [hperfd]
      exact List.mem_cons_of_mem _ hr
    constructor
    case toLinked => exact hshape.linked h.toLinked
    case toApart => exact hshape.apart h.toApart
    case toFiled =>
      refine hfiled.setPc ?_ ?_
      · rintro d r ⟨⟩
        rw [(SameShape.setPerfd s c rest).fildes]
        refine h.fds c ha req ?_
        rw [hperfd]
        exact List.mem_cons_self
      · rintro hw d ⟨⟩
        exact ⟨hw, hchain⟩
    case toLedger =>
      have hprogress := inProgress_setPc (s := s.setPerfd c rest) h.workers hw
        (.processing c req)
      have hqueued := queued_setPerfd h.toLinked (List.mem_append_left s.idleReq hwork) rest
      rw [show (s.setPerfd c rest).pc w = .lock c from hpc] at hprogress
      rw [hperfd] at hqueued
      refine h.toLedger.move (ledger_perm rfl rfl ?_) rfl rfl h.canceled
      rw [List.perm_iff_count] at hprogress hqueued ⊢
      intro r
      have hp := hprogress r
      have hq := hqueued r
      simp only [Pc.request, List.count_append, List.count_cons, List.count_nil] at hp hq ⊢
      show _ + (s.setPerfd c rest).queued.count r = s.inProgress.count r + _
      have hsame : (s.setPerfd c rest).inProgress = s.inProgress := rfl
      rw [hsame] at hp
      omega

section

omit [DecidableEq Cid]

theorem Kept.finish (h : Kept s) (hw : w ∈ s.workers) (hpc : s.pc w = .processing c req)
    (result : Int) (errno : Nat) : Kept (s.finish w c req result errno) := by
  have hchain : (s.pc w).chain = some c := by rw [hpc]; rfl
  have hshape := SameShape.finish hpc result errno
  have hfiled : Filed (s.setPc w (.lock c)) := by
    refine h.toFiled.setPc ?_ ?_
    · rintro d r ⟨⟩
    · rintro hw d ⟨⟩
      exact ⟨hw, hchain⟩
  have hprogress := inProgress_setPc h.workers hw (.lock c)
  rw [hpc] at hprogress
  constructor
  case toLinked => exact hshape.linked h.toLinked
  case toApart => exact hshape.apart h.toApart
  case toFiled => exact { hfiled with }
  case toLedger =>
    refine h.toLedger.move ?_ rfl rfl ?_
    · show ((s.setPc w (.lock c)).inProgress ++ (s.executed ++ [req]) ++ s.canceled ++
        s.queued).Perm s.ledger
      unfold State.ledger
      rw [List.perm_iff_count] at hprogress ⊢
      intro r
      have hp := hprogress r
      simp only [Pc.request, List.count_append, List.count_nil] at hp ⊢
      omega
    · -- The request was in the hands of the worker, so it is not one of the canceled ones.
      intro r hr
      have hne : r ≠ req := by
        rintro rfl
        have hnodup : s.ledger.Nodup := h.ledger.nodup_iff.mpr h.issued
        have hone := List.nodup_iff_count_le_one.mp hnodup r
        have hcanceled : 0 < s.canceled.count r := List.count_pos_iff.mpr hr
        have hp := hprogress.count_eq r
        unfold State.ledger at hone
        simp only [Pc.request, List.count_append, List.count_cons_self, List.count_nil] at hone hp
        omega
      show Function.update s.outcome req _ r = _
      rw [Function.update_of_ne hne]
      exact h.canceled r hr

theorem Kept.recheck (h : Kept s) (hw : w ∈ s.workers) (hpc : s.pc w = .lockQueue c) :
    Kept (s.recheck w c) := by
  have hchain : (s.pc w).chain = some c := by rw [hpc]; rfl
  have hrequest : (s.pc w).request = [] := by rw [hpc]; rfl
  unfold State.recheck State.touch
  rw [if_pos (h.held w c ⟨hw, hchain⟩).1]
  split
  next => exact h.setPc hw hchain hrequest rfl rfl
  next => exact h.setPc hw hchain hrequest rfl rfl

end

/-! ## Waits that end -/

/-- An empty chain on the work list is given back. -/
theorem Kept.release (h : Kept s) (hw : s.Holds w c) (hrequest : (s.pc w).request = [])
    (hc : c ∈ s.workReq) (hempty : (s.chains c).perfd = []) : Kept (s.release w c) where
  toLinked := h.toLinked.release hw
  toApart := h.toApart.release w c
  toFiled := h.toFiled.release h.toLinked hw
  toLedger := by
    have hprogress := inProgress_same (p := .waitNew) h.workers hw.1 hrequest rfl
    have hlists := (List.erase_append_left s.idleReq hc).symm
    obtain ⟨-, hqueued⟩ : c ∉ (s.release w c).workReq ++ (s.release w c).idleReq ∧
        s.queued.Perm ((s.chains c).perfd ++ (s.release w c).queued) :=
      queued_erase h.toLinked (List.mem_append_left _ hc) hlists rfl
    rw [hempty] at hqueued
    exact h.toLedger.move (ledger_perm rfl rfl (hprogress.append hqueued.symm)) rfl rfl h.canceled

section

omit [DecidableEq Cid]

/-- The worker takes the first chain of the idle list. -/
theorem Kept.workOnIdle (h : Kept s) (hi : s.idleReq ≠ []) (hw : w ∈ s.workers)
    (hpc : s.pc w = .waitNew)
    (hfree : ∀ d, s.idleReq.head? = some d → s.FreeFor w (s.chains d).fildes) :
    Kept (s.workOnIdle w) := by
  have hchain : (s.pc w).chain = none := by rw [hpc]; rfl
  have hlinked := h.toLinked.workOnIdle hi hw hchain
  obtain ⟨d, rest, hcons⟩ := List.exists_cons_of_ne_nil hi
  have hunserved : s.Unserved (s.chains d).fildes := by
    intro v e hv
    refine hfree d (by rw [hcons]; rfl) v e ?_ hv
    rintro rfl
    exact absurd (hchain.symm.trans hv.2) nofun
  have hapart := h.toApart.workOnIdle hcons hw hchain hunserved
  have hfiled := h.toFiled.workOnIdle hcons hw hchain
  have hqueued := queued_workOnIdle hi w
  have hprogress := inProgress_same (p := .lock d) h.workers hw (by rw [hpc]; rfl) rfl
  have hstep := workOnIdle_cons (s := s) (w := w) hcons
  rw [hstep] at hlinked hapart hfiled hqueued ⊢
  constructor
  case toLinked => exact hlinked
  case toApart => exact hapart
  case toFiled => exact hfiled
  case toLedger =>
    exact h.toLedger.move (ledger_perm rfl rfl (hprogress.append hqueued)) rfl rfl h.canceled

end

theorem Kept.wakeChain (h : Kept s) (hw : w ∈ s.workers) (hpc : s.pc w = .waitChain c)
    {timedOut : Bool} (hcareful : Op.Careful s (.wakeChain w c timedOut)) :
    Kept (s.wakeChain w c timedOut) := by
  have hchain : (s.pc w).chain = some c := by rw [hpc]; rfl
  have hrequest : (s.pc w).request = [] := by rw [hpc]; rfl
  have hholds : s.Holds w c := ⟨hw, hchain⟩
  have ha : s.allocated c = true := (h.held w c hholds).1
  cases timedOut with
  | false =>
    unfold State.wakeChain State.touch
    rw [if_pos ha, if_neg Bool.false_ne_true]
    exact h.setPc hw hchain hrequest rfl rfl
  | true =>
    obtain ⟨hempty, hwork, hfree⟩ := hcareful rfl
    have hrelease := h.release hholds hrequest hwork hempty
    rw [wakeChain_timedOut ha hwork]
    split
    next =>
      exact ⟨{ hrelease.toLinked with }, { hrelease.toApart with }, { hrelease.toFiled with },
        { hrelease.toLedger with }⟩
    next hi =>
      refine hrelease.workOnIdle hi hw (Function.update_self ..) ?_
      intro d hd v e hne hv
      exact hfree d hd v e hne (holds_release.mp hv).2

section

omit [DecidableEq Cid]

theorem Kept.wakeNew (h : Kept s) (hw : w ∈ s.workers) (hpc : s.pc w = .waitNew)
    {timedOut : Bool} (hcareful : Op.Careful s (.wakeNew w timedOut)) :
    Kept (s.wakeNew w timedOut) := by
  cases timedOut with
  | false =>
    obtain ⟨hi, hfree⟩ := hcareful rfl
    exact h.workOnIdle hi hw hpc hfree
  | true =>
    have hfiled : Filed (s.setPc w .finished) := h.toFiled.setPc nofun nofun
    have hprogress := inProgress_same (p := .finished) h.workers hw (by rw [hpc]; rfl) rfl
    constructor
    case toLinked => exact h.toLinked.wakeNew hw hpc nofun
    case toApart => exact h.toApart.wakeNew w
    case toFiled => exact { hfiled with }
    case toLedger =>
      exact h.toLedger.move (ledger_perm rfl rfl (hprogress.append_right _)) rfl rfl h.canceled

end

/-! ## Runs -/

theorem Kept.run (h : Kept s) {op : Op Cid Wid} (he : op.Enabled s) (hc : op.Careful s) :
    Kept (op.run s) := by
  cases op with
  | enqueue req c thread => exact h.enqueue he.2.1 he.2.2.1 he.2.2.2 hc
  | cancel fildes aiocbp valid => exact h.cancel fildes aiocbp valid
  | take w c => exact h.take he.2.1 he.2.2
  | finish w c req result errno => exact h.finish he.2.1 he.2.2 result errno
  | recheck w c => exact h.recheck he.2.1 he.2.2
  | wakeChain w c timedOut => exact h.wakeChain he.2.1 he.2.2 hc
  | wakeNew w timedOut => exact h.wakeNew he.2.1 he.2.2 hc

section

omit [DecidableEq Cid] [DecidableEq Wid]

theorem Kept.requests (h : Kept s) : RequestsKept s where
  once := by
    intro r hr
    have hissued : s.issued.count r = 1 := List.count_eq_one_of_mem h.issued (h.accepted r hr)
    have hledger := h.ledger.count_eq r
    unfold State.ledger at hledger
    simp only [List.count_append] at hledger
    omega
  canceled := h.canceled
  exclusive := by
    intro w hw w' hw' c r c' r' hpc hpc' heq
    have hholds : s.Holds w c := ⟨hw, by rw [hpc]; rfl⟩
    have hholds' : s.Holds w' c' := ⟨hw', by rw [hpc']; rfl⟩
    refine h.apart w w' c c' hholds hholds' ?_
    rw [← h.hands w hw c r hpc, ← h.hands w' hw' c' r' hpc', heq]
  noFault := h.fault
  linked := h.allocated
  held := fun w c hw => (h.held w c hw).1

theorem kept_initial (chains : Cid → RequestChain) (pc : Wid → Pc Cid)
    (outcome : Request → Outcome) : Kept (initial chains pc outcome) where
  toLinked := linked_initial chains pc outcome
  toApart := ⟨List.Pairwise.nil, fun _ _ _ _ h => nomatch h.1⟩
  toFiled := ⟨nofun, nofun, fun _ _ h => nomatch h.1⟩
  toLedger := ⟨.refl _, List.nodup_nil, nofun, nofun⟩

end

/-- In a run of careful steps no request is lost or duplicated. -/
theorem requests_kept (chains : Cid → RequestChain) (pc : Wid → Pc Cid)
    (outcome : Request → Outcome) (hr : Reachable Op.Careful (initial chains pc outcome) s) :
    RequestsKept s := by
  refine (Reach.invariant hr (kept_initial chains pc outcome) ?_ : Kept s).requests
  rintro s s' h ⟨op, he, hc, rfl⟩
  exact h.run he hc

/-- One request is executed and one canceled, the worker becomes idle, and a third request comes for
another descriptor. -/
def threeRequests : List (Op Nat Nat) :=
  [.enqueue (requestFor 0 3) 0 (some 0), .take 0 0, .enqueue (requestFor 1 3) 1 none,
    .cancel 3 (some (requestFor 1 3).aiocbp) true, .finish 0 0 (requestFor 0 3) 0 0, .take 0 0,
    .recheck 0 0, .wakeChain 0 0 true, .enqueue (requestFor 2 4) 1 none, .wakeNew 0 false]

theorem requests_kept_three : RequestsKept (threeRequests.foldl Op.run blank) := by
  refine requests_kept (fun _ => ⟨[], 0⟩) (fun _ => .finished) (fun _ => ⟨.EINPROGRESS, 0⟩)
    (Legal.reachable ?_)
  have hmem : 0 ∈ [0] := List.mem_cons_self
  have hone : ∀ v, v ∈ [0] → v = 0 := fun v hv => List.mem_singleton.mp hv
  exact ⟨⟨rfl, nofun, rfl, fun _ _ => nofun⟩, fun _ _ _ _ _ hw => (nomatch hw.1),
    ⟨rfl, hmem, rfl⟩, trivial, ⟨rfl, by decide, rfl, nofun⟩, fun hnone => absurd rfl hnone,
    ⟨rfl, trivial⟩, trivial, ⟨rfl, hmem, rfl⟩, trivial, ⟨rfl, hmem, rfl⟩, trivial,
    ⟨rfl, hmem, rfl⟩, trivial, ⟨rfl, hmem, rfl⟩, fun _ => ⟨rfl, hmem, nofun⟩,
    ⟨rfl, by decide, rfl, nofun⟩, fun hnone => absurd rfl hnone, ⟨rfl, hmem, rfl⟩,
    fun _ => ⟨nofun, fun _ _ v _ hne hv => absurd (hone v hv.1) hne⟩, trivial⟩

/-- The wait of the worker times out, and before it has the mutex a request comes. -/
def comesLate : List (Op Nat Nat) :=
  [.enqueue (requestFor 0 3) 0 (some 0), .take 0 0, .finish 0 0 (requestFor 0 3) 0 0, .take 0 0,
    .recheck 0 0, .enqueue (requestFor 1 3) 1 none, .wakeChain 0 0 true]

/-- The chain is freed with the request on it. -/
theorem requests_kept_late : ¬ ∀ s : State Nat Nat,
    Reachable (fun _ _ => True) blank s → RequestsKept s := by
  intro h
  have hlegal : Legal (fun _ _ => True) blank comesLate := by
    have hmem : 0 ∈ [0] := List.mem_cons_self
    exact ⟨⟨rfl, nofun, rfl, fun _ _ => nofun⟩, trivial, ⟨rfl, hmem, rfl⟩, trivial,
      ⟨rfl, hmem, rfl⟩, trivial, ⟨rfl, hmem, rfl⟩, trivial, ⟨rfl, hmem, rfl⟩, trivial,
      ⟨rfl, by decide, rfl, nofun⟩, trivial, ⟨rfl, hmem, rfl⟩, trivial, trivial⟩
  have honce := (h _ hlegal.reachable).once (requestFor 1 3) (by decide)
  exact absurd honce (by decide)

end Rtems.Aio
