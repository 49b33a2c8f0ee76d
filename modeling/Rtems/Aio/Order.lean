import Rtems.Aio.Runs
import Rtems.Lib.StableInsert

/-!
# The order of the requests for a descriptor

While the worker of a descriptor is busy, each request that comes goes in front
of the first one on the chain whose `aio_reqprio` is not less than its own.  So
the worker takes the requests in the order of their priorities, but of two with
one priority it takes the one that came last.  A request that is above all of
those on the chain makes the insertion read the end of the chain as a request.
-/

namespace Rtems.Aio

variable {Cid Wid : Type} [DecidableEq Cid] [DecidableEq Wid]
variable {s s' : State Cid Wid} {w w' : Wid} {c d : Cid} {req r : Request} {fildes : Int}
  {op : Op Cid Wid}

/-- The requests that a step brings. -/
def Op.issues : Op Cid Wid → List Request
  | .enqueue req _ _ => [req]
  | _ => []

/-- The request that is done with the step. -/
def Op.finishes : Op Cid Wid → List Request
  | .finish _ _ req _ _ => [req]
  | _ => []

/-- The worker that takes the step. -/
def Op.worker : Op Cid Wid → Option Wid
  | .enqueue .. | .cancel .. => none
  | .take w _ | .finish w .. | .recheck w _ | .wakeChain w .. | .wakeNew w _ => some w

/-- The step is a call of `aio_cancel` for the descriptor. -/
def Op.Cancels (fildes : Int) : Op Cid Wid → Prop
  | .cancel fd .. => fd = fildes
  | _ => False

/-- The requests for a descriptor that come in a run. -/
def submitted (fildes : Int) (ops : List (Op Cid Wid)) : List Request :=
  (ops.flatMap Op.issues).filter fun r => decide (r.aiocbp.fildes = fildes)

/-- The worker has the chain that the requests for the descriptor go to. -/
structure State.Serves (s : State Cid Wid) (w : Wid) (c : Cid) (fildes : Int) : Prop where
  holds : s.Holds w c
  found : s.searchFd s.workReq fildes = some c

section

omit [DecidableEq Cid] [DecidableEq Wid]

theorem State.Serves.work (h : s.Serves w c fildes) : c ∈ s.workReq := (searchFd_some h.found).1

theorem State.Serves.descriptor (h : s.Serves w c fildes) : (s.chains c).fildes = fildes :=
  (searchFd_some h.found).2

/-- No other worker has a chain of the descriptor. -/
theorem State.Serves.only (h : s.Serves w c fildes) (ha : Apart s) (hw : s.Holds w' d)
    (hfd : (s.chains d).fildes = fildes) : w' = w :=
  ha.apart w' w d c hw h.holds (hfd.trans h.descriptor.symm)

/-! ## The chain that a search finds -/

/-- The chains of a descriptor on the work list. -/
def State.workOf (s : State Cid Wid) (fildes : Int) : List Cid :=
  s.workReq.filter fun c => decide ((s.chains c).fildes = fildes)

/-- On a list in order the search finds the first chain of the descriptor. -/
theorem searchFd_eq (h : s.InOrder) (fildes : Int) :
    s.searchFd s.workReq fildes = (s.workOf fildes).head? := by
  unfold State.InOrder at h
  unfold State.workOf State.searchFd
  generalize s.workReq = l at h ⊢
  induction l with
  | nil => rfl
  | cons b l ih =>
    cases h with
    | cons hb hl =>
      rcases lt_trichotomy (s.chains b).fildes fildes with hlt | heq | hgt
      · rw [List.find?_cons_of_neg (by simpa using hlt),
          List.filter_cons_of_neg (by simpa using hlt.ne)]
        exact ih hl
      · rw [List.find?_cons_of_pos (by simpa using heq.ge),
          List.filter_cons_of_pos (by simpa using heq)]
        exact if_pos heq
      · have hall : ∀ d ∈ b :: l, ¬ decide ((s.chains d).fildes = fildes) = true := by
          intro d hd
          have hle : (s.chains b).fildes ≤ (s.chains d).fildes := by
            rcases List.mem_cons.mp hd with rfl | hd
            · exact le_rfl
            · exact hb d hd
          simpa using (hgt.trans_le hle).ne'
        rw [List.find?_cons_of_pos (by simpa using hgt.le), List.filter_eq_nil_iff.mpr hall]
        exact if_neg hgt.ne'

/-- The search finds the same as long as the chains of the descriptor are the same. -/
theorem State.Serves.congr (h : s.Serves w c fildes) (ho : s.InOrder) (ho' : s'.InOrder)
    (hholds : s'.Holds w c) (hwork : s'.workOf fildes = s.workOf fildes) :
    s'.Serves w c fildes where
  holds := hholds
  found := by
    rw [searchFd_eq ho', hwork, ← searchFd_eq ho]
    exact h.found

theorem SameShape.workOf (h : SameShape s s') (fildes : Int) :
    s'.workOf fildes = s.workOf fildes := by
  unfold State.workOf
  rw [h.workReq]
  exact List.filter_congr fun c _ => by rw [h.fildes c]

theorem SameShape.serves (h : SameShape s s') (hs : s.Serves w c fildes) (ho : s.InOrder)
    (ho' : s'.InOrder) : s'.Serves w c fildes :=
  hs.congr ho ho' (h.holds.mpr hs.holds) (h.workOf fildes)

/-- A chain of another descriptor comes to the work list. -/
theorem workOf_linkWork (s : State Cid Wid) (hd : (s.chains d).fildes ≠ fildes) :
    (s.linkWork d).workOf fildes = s.workOf fildes :=
  (Lib.filter_key_orderedInsert (fun c => (s.chains c).fildes) fildes d s.workReq).trans
    (if_neg hd)

end

section

omit [DecidableEq Wid]

/-- A chain of another descriptor goes. -/
theorem workOf_erase (s : State Cid Wid) (hd : (s.chains d).fildes ≠ fildes) :
    (s.workReq.erase d).filter (fun c => decide ((s.chains c).fildes = fildes)) =
      s.workOf fildes := by
  rw [← List.erase_filter]
  refine List.erase_of_not_mem fun hmem => hd ?_
  exact of_decide_eq_true (List.mem_filter.mp hmem).2

theorem workOf_newChain (hd : d ∉ s.workReq) (req : Request) :
    (s.newChain d req).workOf fildes = s.workOf fildes := by
  refine List.filter_congr fun e he => ?_
  rw [fildes_newChain s req]
  rintro rfl
  exact hd he

end

/-! ## Steps of the others -/

/-- What the step of another than the worker leaves as it is, and the requests that it puts on the
chain of the worker. -/
structure Frame (w : Wid) (c : Cid) (fildes : Int) (new : List Request) (s s' : State Cid Wid) :
    Prop where
  pc : s'.pc w = s.pc w
  serves : s'.Serves w c fildes
  perfd : (s'.chains c).perfd =
    Lib.insertInFront (fun r => r.aiocbp.reqprio) (s.chains c).perfd new

section

omit [DecidableEq Cid] [DecidableEq Wid]

/-- Only what other workers and other chains are at differs. -/
theorem Frame.same (hs : s.Serves w c fildes) (ho : s.InOrder) (ho' : s'.InOrder)
    (hworkers : w ∈ s'.workers) (hpc : s'.pc w = s.pc w)
    (hperfd : (s'.chains c).perfd = (s.chains c).perfd)
    (hwork : s'.workOf fildes = s.workOf fildes) : Frame w c fildes [] s s' where
  pc := hpc
  serves := by
    refine hs.congr ho ho' ⟨hworkers, ?_⟩ hwork
    rw [hpc]
    exact hs.holds.2
  perfd := hperfd

end

/-- A request for the descriptor goes to the chain of the worker. -/
theorem State.Serves.enqueue (hs : s.Serves w c fildes) (hreq : req.aiocbp.fildes = fildes)
    (e : Cid) (thread : Option Wid) :
    (s.enqueue req e thread).1 = ((s.issue req).insertPrio c req).accept req := by
  have hfound : (s.issue req).searchFd (s.issue req).workReq req.aiocbp.fildes = some c := by
    rw [hreq]
    exact hs.found
  unfold State.enqueue
  dsimp only
  rw [hfound]
  split
  next => rfl
  next => rfl

theorem Frame.come (h : Kept s) (hs : s.Serves w c fildes) (hreq : req.aiocbp.fildes = fildes)
    (e : Cid) (thread : Option Wid) : Frame w c fildes [req] s (s.enqueue req e thread).1 := by
  have hshape : SameShape s (((s.issue req).insertPrio c req).accept req) :=
    ((SameShape.issue s req).trans (SameShape.insertPrio _ c req)).trans (SameShape.accept _ req)
  rw [hs.enqueue hreq]
  constructor
  case pc => rfl
  case serves => exact hshape.serves hs h.inOrder (hshape.apart h.toApart).inOrder
  case perfd =>
    rw [insertPrio_eq]
    exact perfd_self _ c _

/-- A request for another descriptor does not. -/
theorem Frame.enqueue (h : Kept s) (hs : s.Serves w c fildes)
    (hreq : req.aiocbp.fildes ≠ fildes) {e : Cid} {thread : Option Wid}
    (he : s.allocated e = false) (hw : ∀ w, thread = some w → w ∉ s.workers)
    (h' : Kept (s.enqueue req e thread).1) : Frame w c fildes [] s (s.enqueue req e thread).1 := by
  have hlists := (h.toLinked.fresh he).1
  have hwork : e ∉ s.workReq := fun hmem => hlists (List.mem_append_left _ hmem)
  have hne : c ≠ e := by
    rintro rfl
    exact hwork hs.work
  have hnewPerfd : (((s.issue req).newChain e req).chains c).perfd = (s.chains c).perfd := by
    rw [chains_newChain, Function.update_of_ne hne]
    rfl
  have hfd : (((s.issue req).newChain e req).chains e).fildes ≠ fildes := by
    rw [chains_newChain, Function.update_self]
    exact hreq
  have hnewWork : ((s.issue req).newChain e req).workOf fildes = s.workOf fildes :=
    workOf_newChain (s := s.issue req) hwork req
  have ho := h.inOrder
  have ho' := h'.inOrder
  rcases enqueue_cases s req e thread with
    ⟨d, -, hd, heq⟩ | ⟨-, ⟨-, heq⟩ | ⟨v, hthread, -, -, heq⟩ | heq⟩
  · have hne : c ≠ d := by
      rintro rfl
      exact hreq (hd.symm.trans hs.descriptor)
    have hperfd : (((s.issue req).insertPrio d req).chains c).perfd = (s.chains c).perfd := by
      rw [insertPrio_eq]
      exact congrArg RequestChain.perfd (perfd_other _ _ hne)
    have hsame := ((SameShape.issue s req).trans (SameShape.insertPrio _ d req)).workOf fildes
    rw [heq] at ho' ⊢
    exact Frame.same hs ho ho' hs.holds.1 rfl hperfd hsame
  · rw [heq] at ho' ⊢
    exact Frame.same hs ho ho' hs.holds.1 rfl hnewPerfd ((workOf_linkWork _ hfd).trans hnewWork)
  · have hvw : w ≠ v := by
      rintro rfl
      exact hw w hthread hs.holds.1
    rw [heq] at ho' ⊢
    exact Frame.same hs ho ho' (List.mem_cons_of_mem _ hs.holds.1) (Function.update_of_ne hvw ..)
      hnewPerfd ((workOf_linkWork _ hfd).trans hnewWork)
  · rw [heq] at ho' ⊢
    exact Frame.same hs ho ho' hs.holds.1 rfl hnewPerfd hnewWork

section

omit [DecidableEq Wid]

/-- Requests for another descriptor are canceled. -/
theorem Frame.cancel (h : Kept s) (hs : s.Serves w c fildes) {fd : Int} (hfd : fd ≠ fildes)
    (aiocbp : Option Aiocb) (valid : Bool) :
    Frame w c fildes [] s (s.cancel fd aiocbp valid).1 := by
  have ho := h.inOrder
  have ho' := (h.cancel fd aiocbp valid).inOrder
  have hother : ∀ {d}, (s.chains d).fildes = fd → c ≠ d := by
    rintro d hd rfl
    exact hfd (hd.symm.trans hs.descriptor)
  rcases cancel_cases s fd aiocbp valid with
    heq | ⟨d, hd, hdfd, heq⟩ | ⟨d, hd, hdfd, heq⟩ | ⟨d, hd, hdfd, block, heq⟩
  · rw [heq]
    exact Frame.same hs ho ho hs.holds.1 rfl rfl rfl
  · rw [heq, extractFd_work hd] at ho' ⊢
    refine Frame.same hs ho ho' hs.holds.1 rfl ?_ ?_
    · exact congrArg RequestChain.perfd (perfd_other _ _ (hother hdfd))
    · rw [(SameShape.removeFd _ d).workOf fildes]
      exact workOf_erase s (hdfd.trans_ne hfd)
  · have hnot := h.toLinked.notWork hd
    have ha := h.allocated d (List.mem_append_right _ hd)
    rw [heq, freeChain_idle hnot hd ha] at ho' ⊢
    refine Frame.same hs ho ho' hs.holds.1 rfl ?_ ?_
    · exact congrArg RequestChain.perfd (perfd_other _ _ (hother hdfd))
    · exact (SameShape.removeFd _ d).workOf fildes
  · have hshape := SameShape.removeReq s d block
    have hpc : (s.removeReq d block).1.pc w = s.pc w := by
      unfold State.removeReq
      split
      next => rfl
      next => split <;> rfl
    have hperfd : ((s.removeReq d block).1.chains c).perfd = (s.chains c).perfd := by
      unfold State.removeReq
      split
      next => rfl
      next =>
        split
        next => rfl
        next => exact congrArg RequestChain.perfd (perfd_other _ _ (hother hdfd))
    rw [heq] at ho' ⊢
    refine Frame.same hs ho ho' ?_ hpc hperfd (hshape.workOf fildes)
    rw [hshape.workers]
    exact hs.holds.1

end

section

omit [DecidableEq Cid]

/-- A worker that takes a chain off the idle list takes one of another descriptor. -/
theorem workOf_workOnIdle (hi : s.idleReq ≠ []) (w : Wid)
    (hfd : ∀ d, s.idleReq.head? = some d → (s.chains d).fildes ≠ fildes) :
    (s.workOnIdle w).workOf fildes = s.workOf fildes := by
  obtain ⟨d, rest, hcons⟩ := List.exists_cons_of_ne_nil hi
  rw [workOnIdle_cons hcons]
  exact workOf_linkWork s (hfd d (by rw [hcons]; rfl))

theorem chains_workOnIdle (hi : s.idleReq ≠ []) (w : Wid) :
    (s.workOnIdle w).chains = s.chains ∧ (s.workOnIdle w).workers = s.workers ∧
      ∀ v, v ≠ w → (s.workOnIdle w).pc v = s.pc v := by
  obtain ⟨d, rest, hcons⟩ := List.exists_cons_of_ne_nil hi
  rw [workOnIdle_cons hcons]
  exact ⟨rfl, rfl, fun v hv => Function.update_of_ne hv ..⟩

end

/-- The end of another worker's wait for a request. -/
theorem Frame.wakeChain (h : Kept s) (hs : s.Serves w c fildes) (hne : w ≠ w')
    (hw : w' ∈ s.workers) (hpc : s.pc w' = .waitChain d) {timedOut : Bool}
    (hcareful : Op.Careful s (.wakeChain w' d timedOut)) :
    Frame w c fildes [] s (s.wakeChain w' d timedOut) := by
  have hholds : s.Holds w' d := ⟨hw, by rw [hpc]; rfl⟩
  have ha : s.allocated d = true := (h.held w' d hholds).1
  have hfd : (s.chains d).fildes ≠ fildes := fun heq => hne (hs.only h.toApart hholds heq).symm
  have ho := h.inOrder
  have ho' := (h.wakeChain hw hpc hcareful).inOrder
  cases timedOut with
  | false =>
    unfold State.wakeChain State.touch at ho' ⊢
    rw [if_pos ha, if_neg Bool.false_ne_true] at ho' ⊢
    exact Frame.same hs ho ho' hs.holds.1 (Function.update_of_ne hne ..) rfl rfl
  | true =>
    obtain ⟨-, hwork, hfree⟩ := hcareful rfl
    rw [wakeChain_timedOut ha hwork] at ho' ⊢
    have hrelease : (s.release w' d).workOf fildes = s.workOf fildes := workOf_erase s hfd
    have hrpc : (s.release w' d).pc w = s.pc w := Function.update_of_ne hne ..
    split at ho' <;> rename_i hi
    · rw [if_pos hi]
      exact Frame.same hs ho ho' hs.holds.1 hrpc rfl hrelease
    · rw [if_neg hi]
      obtain ⟨hchains, hworkers, hothers⟩ := chains_workOnIdle (s := s.release w' d) hi w'
      refine Frame.same hs ho ho' ?_ ((hothers w hne).trans hrpc) ?_ ?_
      · rw [hworkers]
        exact hs.holds.1
      · rw [hchains]
        rfl
      · refine (workOf_workOnIdle (s := s.release w' d) hi w' ?_).trans hrelease
        intro e he heq
        exact hfree e he w c hne hs.holds (hs.descriptor.trans heq.symm)

section

omit [DecidableEq Cid]

/-- The end of another worker's wait for a chain. -/
theorem Frame.wakeNew (h : Kept s) (hs : s.Serves w c fildes) (hne : w ≠ w')
    (hw : w' ∈ s.workers) (hpc : s.pc w' = .waitNew) {timedOut : Bool}
    (hcareful : Op.Careful s (.wakeNew w' timedOut)) :
    Frame w c fildes [] s (s.wakeNew w' timedOut) := by
  have ho := h.inOrder
  have ho' := (h.wakeNew hw hpc hcareful).inOrder
  cases timedOut with
  | true => exact Frame.same hs ho ho' hs.holds.1 (Function.update_of_ne hne ..) rfl rfl
  | false =>
    obtain ⟨hi, hfree⟩ := hcareful rfl
    obtain ⟨hchains, hworkers, hothers⟩ := chains_workOnIdle hi w'
    refine Frame.same hs ho ho' ?_ (hothers w hne) ?_ (workOf_workOnIdle hi w' ?_)
    · show w ∈ (s.workOnIdle w').workers
      rw [hworkers]
      exact hs.holds.1
    · exact congrArg RequestChain.perfd (congrFun hchains c)
    · intro e he heq
      exact hfree e he w c hne hs.holds (hs.descriptor.trans heq.symm)

end

/-- The requests of a step that are for the descriptor. -/
def Op.issuesFor (fildes : Int) (op : Op Cid Wid) : List Request :=
  op.issues.filter fun r => decide (r.aiocbp.fildes = fildes)

/-- A step of another than the worker. -/
theorem Kept.frame (h : Kept s) (hs : s.Serves w c fildes) (he : op.Enabled s)
    (hcareful : op.Careful s) (hother : op.worker ≠ some w) (hcancel : ¬ op.Cancels fildes) :
    Frame w c fildes (op.issuesFor fildes) s (op.run s) := by
  have h' := h.run he hcareful
  have ho := h.inOrder
  have ho' := h'.inOrder
  cases op with
  | enqueue req e thread =>
    by_cases hreq : req.aiocbp.fildes = fildes
    · rw [show Op.issuesFor fildes (.enqueue req e thread) = [req] by
        simp [Op.issuesFor, Op.issues, hreq]]
      exact Frame.come h hs hreq e thread
    · rw [show Op.issuesFor fildes (.enqueue req e thread) = [] by
        simp [Op.issuesFor, Op.issues, hreq]]
      exact Frame.enqueue h hs hreq he.2.2.1 he.2.2.2 h'
  | cancel fd aiocbp valid => exact Frame.cancel h hs hcancel aiocbp valid
  | take w' d =>
    have hne : w ≠ w' := fun heq => hother (congrArg some heq.symm)
    have hholds : s.Holds w' d := ⟨he.2.1, by rw [he.2.2]; rfl⟩
    have hshape := SameShape.take (h.held w' d hholds).1 he.2.2
    have hcd : c ≠ d := by
      rintro rfl
      exact hne (hs.only h.toApart hholds hs.descriptor).symm
    refine Frame.same hs ho ho' (hshape.workers ▸ hs.holds.1) ?_ ?_ (hshape.workOf fildes)
    · show (s.take w' d).pc w = s.pc w
      unfold State.take State.touch
      rw [if_pos (h.held w' d hholds).1]
      split
      next => exact Function.update_of_ne hne ..
      next => exact Function.update_of_ne hne ..
    · show ((s.take w' d).chains c).perfd = _
      unfold State.take State.touch
      rw [if_pos (h.held w' d hholds).1]
      split
      next => rfl
      next => exact congrArg RequestChain.perfd (perfd_other _ _ hcd)
  | finish w' d req result errno =>
    have hne : w ≠ w' := fun heq => hother (congrArg some heq.symm)
    exact Frame.same hs ho ho' hs.holds.1 (Function.update_of_ne hne ..) rfl rfl
  | recheck w' d =>
    have hne : w ≠ w' := fun heq => hother (congrArg some heq.symm)
    have hholds : s.Holds w' d := ⟨he.2.1, by rw [he.2.2]; rfl⟩
    have hshape := SameShape.recheck (h.held w' d hholds).1 he.2.2
    refine Frame.same hs ho ho' (hshape.workers ▸ hs.holds.1) ?_ ?_ (hshape.workOf fildes)
    · show (s.recheck w' d).pc w = s.pc w
      unfold State.recheck State.touch
      rw [if_pos (h.held w' d hholds).1]
      split
      next => exact Function.update_of_ne hne ..
      next => exact Function.update_of_ne hne ..
    · show ((s.recheck w' d).chains c).perfd = _
      unfold State.recheck State.touch
      rw [if_pos (h.held w' d hholds).1]
      split
      next => rfl
      next => rfl
  | wakeChain w' d timedOut =>
    have hne : w ≠ w' := fun heq => hother (congrArg some heq.symm)
    exact Frame.wakeChain h hs hne he.2.1 he.2.2 hcareful
  | wakeNew w' timedOut =>
    have hne : w ≠ w' := fun heq => hother (congrArg some heq.symm)
    exact Frame.wakeNew h hs hne he.2.1 he.2.2 hcareful

/-! ## What comes and what is done -/

section

omit [DecidableEq Cid]

theorem records_workOnIdle (s : State Cid Wid) (w : Wid) :
    (s.workOnIdle w).issued = s.issued ∧ (s.workOnIdle w).executed = s.executed ∧
      (s.workOnIdle w).misread = s.misread := by
  unfold State.workOnIdle
  dsimp only
  split
  next => exact ⟨rfl, rfl, rfl⟩
  next => exact ⟨rfl, rfl, rfl⟩

end

section

omit [DecidableEq Wid]

theorem records_release (s : State Cid Wid) (c : Cid) :
    ((s.extractFd c).freeChain c).issued = s.issued ∧
      ((s.extractFd c).freeChain c).executed = s.executed ∧
      ((s.extractFd c).freeChain c).misread = s.misread := by
  have hextract : (s.extractFd c).issued = s.issued ∧ (s.extractFd c).executed = s.executed ∧
      (s.extractFd c).misread = s.misread := by
    unfold State.extractFd
    split
    next => exact ⟨rfl, rfl, rfl⟩
    next => split <;> exact ⟨rfl, rfl, rfl⟩
  unfold State.freeChain
  split
  next => exact hextract
  next => exact hextract

end

/-- The requests that came, those that are done and those that read the end of a chain. -/
theorem records_run (s : State Cid Wid) (op : Op Cid Wid) :
    (op.run s).issued = s.issued ++ op.issues ∧
      (op.run s).executed = s.executed ++ op.finishes ∧
      ((op.run s).misread = s.misread ∨
        ∃ req, op.issues = [req] ∧ (op.run s).misread = s.misread ++ [req]) := by
  cases op with
  | enqueue req c thread =>
    rw [show (Op.enqueue req c thread).finishes = [] from rfl, List.append_nil]
    simp only [Op.run]
    rcases enqueue_cases s req c thread with
      ⟨d, -, -, heq⟩ | ⟨-, ⟨-, heq⟩ | ⟨v, -, -, -, heq⟩ | heq⟩
    · rw [heq]
      refine ⟨rfl, rfl, ?_⟩
      rcases insertPrio_misread (s.issue req) d req with hsame | hmore
      · exact .inl hsame
      · exact .inr ⟨req, rfl, hmore⟩
    · rw [heq]
      exact ⟨rfl, rfl, .inl rfl⟩
    · rw [heq]
      exact ⟨rfl, rfl, .inl rfl⟩
    · rw [heq]
      exact ⟨rfl, rfl, .inl rfl⟩
  | cancel fd aiocbp valid =>
    simp only [Op.issues, Op.finishes, List.append_nil, Op.run]
    rcases cancel_cases s fd aiocbp valid with
      heq | ⟨c, hc, -, heq⟩ | ⟨c, hc, -, heq⟩ | ⟨c, -, -, block, heq⟩
    · rw [heq]
      exact ⟨rfl, rfl, .inl rfl⟩
    · rw [heq, extractFd_work hc]
      exact ⟨rfl, rfl, .inl rfl⟩
    · rw [heq]
      obtain ⟨hissued, hexecuted, hmisread⟩ := records_release s c
      exact ⟨hissued, hexecuted, .inl hmisread⟩
    · rw [heq]
      unfold State.removeReq
      split
      next => exact ⟨rfl, rfl, .inl rfl⟩
      next => split <;> exact ⟨rfl, rfl, .inl rfl⟩
  | take w c =>
    simp only [Op.issues, Op.finishes, List.append_nil, Op.run, State.take, State.touch]
    split
    next => split <;> exact ⟨rfl, rfl, .inl rfl⟩
    next => exact ⟨rfl, rfl, .inl rfl⟩
  | finish w c req result errno => exact ⟨(List.append_nil _).symm, rfl, .inl rfl⟩
  | recheck w c =>
    simp only [Op.issues, Op.finishes, List.append_nil, Op.run, State.recheck, State.touch]
    split
    next => split <;> exact ⟨rfl, rfl, .inl rfl⟩
    next => exact ⟨rfl, rfl, .inl rfl⟩
  | wakeChain w c timedOut =>
    simp only [Op.issues, Op.finishes, List.append_nil, Op.run, State.wakeChain, State.touch]
    obtain ⟨hissued, hexecuted, hmisread⟩ := records_release s c
    split
    next =>
      split
      next =>
        split
        next => exact ⟨hissued, hexecuted, .inl hmisread⟩
        next =>
          obtain ⟨hissued', hexecuted', hmisread'⟩ :=
            records_workOnIdle ((s.extractFd c).freeChain c) w
          exact ⟨hissued'.trans hissued, hexecuted'.trans hexecuted,
            .inl (hmisread'.trans hmisread)⟩
      next => exact ⟨rfl, rfl, .inl rfl⟩
    next => exact ⟨rfl, rfl, .inl rfl⟩
  | wakeNew w timedOut =>
    simp only [Op.issues, Op.finishes, List.append_nil, Op.run, State.wakeNew]
    split
    next => exact ⟨rfl, rfl, .inl rfl⟩
    next =>
      obtain ⟨hissued, hexecuted, hmisread⟩ := records_workOnIdle s w
      exact ⟨hissued, hexecuted, .inl hmisread⟩

theorem issued_foldl (s : State Cid Wid) (ops : List (Op Cid Wid)) :
    (ops.foldl Op.run s).issued = s.issued ++ ops.flatMap Op.issues := by
  induction ops generalizing s with
  | nil => exact (List.append_nil _).symm
  | cons op ops ih =>
    rw [List.foldl_cons, ih, (records_run s op).1, List.flatMap_cons, List.append_assoc]

theorem Kept.legal {condition : State Cid Wid → Op Cid Wid → Prop}
    (hcareful : ∀ s op, condition s op → op.Careful s) (h : Kept s) {ops : List (Op Cid Wid)}
    (hlegal : Legal condition s ops) : Kept (ops.foldl Op.run s) := by
  induction ops generalizing s with
  | nil => exact h
  | cons op ops ih => exact ih (h.run hlegal.1 (hcareful s op hlegal.2.1)) hlegal.2.2

/-! ## While the worker is busy -/

/-- The steps while the worker is busy with a request: it takes none of them, and no request for its
descriptor is canceled. -/
def Op.WhileBusy (w : Wid) (fildes : Int) (s : State Cid Wid) (op : Op Cid Wid) : Prop :=
  op.Careful s ∧ op.worker ≠ some w ∧ ¬ op.Cancels fildes

section

omit [DecidableEq Cid] [DecidableEq Wid]

/-- What is done by another worker is not for the descriptor. -/
theorem Kept.finishes_other (h : Kept s) (hs : s.Serves w c fildes) (he : op.Enabled s)
    (hother : op.worker ≠ some w) : ∀ r ∈ op.finishes, r.aiocbp.fildes ≠ fildes := by
  intro r hr heq
  cases op with
  | finish w' d req result errno =>
    obtain rfl := List.mem_singleton.mp hr
    have hholds : s.Holds w' d := ⟨he.2.1, by rw [he.2.2]; rfl⟩
    have hfd := h.hands w' he.2.1 d r he.2.2
    exact hother (congrArg some (hs.only h.toApart hholds (hfd.symm.trans heq)))
  | _ => cases hr

theorem submitted_cons (fildes : Int) (op : Op Cid Wid) (ops : List (Op Cid Wid)) :
    submitted fildes (op :: ops) = op.issuesFor fildes ++ submitted fildes ops := by
  unfold submitted Op.issuesFor
  rw [List.flatMap_cons, List.filter_append]

end

/-- The requests that come while the worker is busy wait on its chain. -/
theorem Kept.busy (h : Kept s) (hs : s.Serves w c fildes) {ops : List (Op Cid Wid)}
    (hlegal : Legal (Op.WhileBusy w fildes) s ops) :
    Frame w c fildes (submitted fildes ops) s (ops.foldl Op.run s) ∧
      ∀ r ∈ (ops.foldl Op.run s).executed, r ∈ s.executed ∨ r.aiocbp.fildes ≠ fildes := by
  induction ops generalizing s with
  | nil => exact ⟨⟨rfl, hs, rfl⟩, fun r hr => .inl hr⟩
  | cons op ops ih =>
    obtain ⟨he, ⟨hcareful, hother, hcancel⟩, hrest⟩ := hlegal
    have hframe := h.frame hs he hcareful hother hcancel
    obtain ⟨hrestFrame, hrestExecuted⟩ := ih (h.run he hcareful) hframe.serves hrest
    constructor
    · constructor
      case pc => exact hrestFrame.pc.trans hframe.pc
      case serves => exact hrestFrame.serves
      case perfd =>
        rw [submitted_cons, List.foldl_cons, hrestFrame.perfd, hframe.perfd]
        exact List.foldl_append.symm
    · intro r hr
      rcases hrestExecuted r hr with hr | hr
      · rw [(records_run s op).2.1] at hr
        rcases List.mem_append.mp hr with hr | hr
        · exact .inl hr
        · exact .inr (h.finishes_other hs he hother r hr)
      · exact .inr hr

/-! ## The requests that read the end of the chain -/

/-- No one of the requests, when they come one after the other, is above all that are queued. -/
def NoneAbove (queued : List Request) : List Request → Prop
  | [] => True
  | req :: rest => ¬ req.AboveAll queued ∧ NoneAbove (req :: queued) rest

/-- The order of the chain does not matter. -/
theorem NoneAbove.congr {queued queued' reqs : List Request} (hperm : queued.Perm queued') :
    NoneAbove queued reqs ↔ NoneAbove queued' reqs := by
  induction reqs generalizing queued queued' with
  | nil => exact Iff.rfl
  | cons req rest ih =>
    have hempty : queued ≠ [] ↔ queued' ≠ [] := not_congr (by rw [← List.length_eq_zero_iff,
      ← List.length_eq_zero_iff, hperm.length_eq])
    have habove : req.AboveAll queued ↔ req.AboveAll queued' :=
      and_congr hempty (forall_congr' fun q => by rw [hperm.mem_iff])
    exact and_congr (not_congr habove) (ih (hperm.cons req))

/-- A request that came before does not read the end of a chain any more. -/
theorem misread_foldl {condition : State Cid Wid → Op Cid Wid → Prop} {ops : List (Op Cid Wid)}
    (hlegal : Legal condition s ops) (hr : r ∈ s.issued) :
    r ∈ (ops.foldl Op.run s).misread ↔ r ∈ s.misread := by
  induction ops generalizing s with
  | nil => exact Iff.rfl
  | cons op ops ih =>
    obtain ⟨hissued, -, hmisread⟩ := records_run s op
    have hstep : r ∈ (op.run s).misread ↔ r ∈ s.misread := by
      rcases hmisread with hsame | ⟨req, hreq, hmore⟩
      · rw [hsame]
      · cases op with
        | enqueue req' c thread =>
          obtain rfl := List.singleton_inj.mp hreq
          have hne : r ≠ req' := by
            rintro rfl
            exact hlegal.1.2.1 hr
          rw [hmore, List.mem_append, List.mem_singleton, or_iff_left hne]
        | _ => cases hreq
    refine (ih hlegal.2.2 ?_).trans hstep
    rw [hissued]
    exact List.mem_append_left _ hr

/-- Only requests that came have read the end of a chain. -/
theorem misread_issued (h : ∀ r ∈ s.misread, r ∈ s.issued) (op : Op Cid Wid) :
    ∀ r ∈ (op.run s).misread, r ∈ (op.run s).issued := by
  intro r hr
  obtain ⟨hissued, -, hsame | ⟨req, hreq, hmore⟩⟩ := records_run s op
  · rw [hsame] at hr
    rw [hissued]
    exact List.mem_append_left _ (h r hr)
  · rw [hmore] at hr
    rw [hissued, hreq]
    rcases List.mem_append.mp hr with hr | hr
    · exact List.mem_append_left _ (h r hr)
    · exact List.mem_append_right _ hr

section

omit [DecidableEq Wid]

theorem misread_insertPrio (hreq : req ∉ s.misread) :
    req ∉ (((s.issue req).insertPrio c req).accept req).misread ↔
      ¬ req.AboveAll (s.chains c).perfd := by
  show req ∉ ((s.issue req).insertPrio c req).misread ↔ _
  by_cases habove : req.AboveAll (s.chains c).perfd
  · rw [insertPrio_above (s.issue req) c habove]
    exact iff_of_false (fun h => h (List.mem_append_right _ List.mem_cons_self))
      (not_not_intro habove)
  · rw [insertPrio_notAbove (s.issue req) c habove]
    exact iff_of_true hreq habove

end

section

omit [DecidableEq Cid] [DecidableEq Wid]

/-- A step brings one request for the descriptor or none. -/
theorem issuesFor_cons {rest : List Request} (h : op.issuesFor fildes = req :: rest) :
    ∃ e thread, op = .enqueue req e thread ∧ rest = [] ∧ req.aiocbp.fildes = fildes := by
  have hmem : req ∈ op.issuesFor fildes := by
    rw [h]
    exact List.mem_cons_self
  cases op with
  | enqueue req' e thread =>
    obtain ⟨hreq, hfd⟩ := List.mem_filter.mp hmem
    obtain rfl := List.mem_singleton.mp hreq
    have hone : Op.issuesFor fildes (.enqueue req e thread) = [req] :=
      List.filter_cons_of_pos hfd
    rw [hone] at h
    exact ⟨e, thread, rfl, (List.cons.inj h).2.symm, of_decide_eq_true hfd⟩
  | _ => cases (List.mem_filter.mp hmem).1

end

/-- The requests that come while the worker is busy do not read the end of its chain as long as
none is above all that are queued. -/
theorem Kept.noneAbove (h : Kept s) (hs : s.Serves w c fildes) {ops : List (Op Cid Wid)}
    (hlegal : Legal (Op.WhileBusy w fildes) s ops) (hmisread : ∀ r ∈ s.misread, r ∈ s.issued) :
    (∀ r ∈ submitted fildes ops, r ∉ (ops.foldl Op.run s).misread) ↔
      NoneAbove (s.chains c).perfd (submitted fildes ops) := by
  induction ops generalizing s with
  | nil => exact iff_of_true (List.forall_mem_nil _) trivial
  | cons op ops ih =>
    obtain ⟨he, ⟨hcareful, hother, hcancel⟩, hrest⟩ := hlegal
    have hframe := h.frame hs he hcareful hother hcancel
    have hih := ih (h.run he hcareful) hframe.serves hrest (misread_issued hmisread op)
    rw [submitted_cons, List.foldl_cons]
    rw [hframe.perfd] at hih
    cases hissues : op.issuesFor fildes with
    | nil =>
      rw [hissues] at hih
      exact hih
    | cons req rest =>
      obtain ⟨e, thread, rfl, rfl, hfd⟩ := issuesFor_cons hissues
      rw [hissues] at hih
      have hissued : req ∈ ((Op.enqueue req e thread).run s).issued := by
        rw [(records_run s _).1]
        exact List.mem_append_right _ List.mem_cons_self
      have hfirst : req ∉ (ops.foldl Op.run ((Op.enqueue req e thread).run s)).misread ↔
          ¬ req.AboveAll (s.chains c).perfd := by
        rw [misread_foldl hrest hissued]
        show req ∉ (s.enqueue req e thread).1.misread ↔ _
        rw [hs.enqueue hfd]
        exact misread_insertPrio fun hmem => he.2.1 (hmisread req hmem)
      have hperm := Lib.insertInFront_perm (fun r => r.aiocbp.reqprio) (s.chains c).perfd [req]
      rw [List.singleton_append, List.forall_mem_cons, hfirst, hih, NoneAbove.congr hperm]
      rfl

/-! ## When the worker goes on -/

/-- The requests of the worker that are done or to be done, in order. -/
def State.sequence (s : State Cid Wid) (w : Wid) (c : Cid) : List Request :=
  s.executed ++ ((s.pc w).request ++ (s.chains c).perfd)

/-- Some requests are executed in an order: the worker of the descriptor is at them, or they are
done. -/
inductive Serving (w : Wid) (c : Cid) (fildes : Int) (reqs order : List Request)
    (s : State Cid Wid) : Prop
  | working (serves : s.Serves w c fildes)
      (sequence : (s.sequence w c).filter (fun r => decide (r ∈ reqs)) = order)
  | done (executed : s.executed.filter (fun r => decide (r ∈ reqs)) = order)

section

omit [DecidableEq Cid] [DecidableEq Wid]

/-- A request that a worker has taken off its chain is not executed yet. -/
theorem Kept.finishes_fresh (h : Kept s) (he : op.Enabled s) :
    ∀ r ∈ op.finishes, r ∉ s.executed := by
  intro r hr hexecuted
  cases op with
  | finish w d req result errno =>
    obtain rfl := List.mem_singleton.mp hr
    have hprogress : r ∈ s.inProgress := by
      refine List.mem_flatMap.mpr ⟨w, he.2.1, ?_⟩
      rw [he.2.2]
      exact List.mem_singleton_self r
    have hnodup : s.ledger.Nodup := h.ledger.nodup_iff.mpr h.issued
    unfold State.ledger at hnodup
    rw [List.append_assoc, List.append_assoc] at hnodup
    have hdisjoint := (List.nodup_append.mp hnodup).2.2
    exact hdisjoint r hprogress r (List.mem_append_left _ hexecuted) rfl
  | _ => cases hr

end

/-- The requests that are done stay in their order. -/
theorem Kept.done {reqs order : List Request} (h : Kept s) (he : op.Enabled s)
    (hall : ∀ r ∈ reqs, r ∈ order)
    (hdone : s.executed.filter (fun r => decide (r ∈ reqs)) = order) :
    (op.run s).executed.filter (fun r => decide (r ∈ reqs)) = order := by
  have hnone : op.finishes.filter (fun r => decide (r ∈ reqs)) = [] := by
    refine List.filter_eq_nil_iff.mpr fun r hr hmem => h.finishes_fresh he r hr ?_
    have horder := hall r (of_decide_eq_true hmem)
    rw [← hdone] at horder
    exact (List.mem_filter.mp horder).1
  rw [(records_run s op).2.1, List.filter_append, hnone, List.append_nil]
  exact hdone

/-- A step of the worker itself. -/
theorem Kept.working {reqs order : List Request} (h : Kept s) (hs : s.Serves w c fildes)
    (he : op.Enabled s) (hcareful : op.Careful s) (hown : op.worker = some w)
    (hsequence : (s.sequence w c).filter (fun r => decide (r ∈ reqs)) = order) :
    Serving w c fildes reqs order (op.run s) := by
  have h' := h.run he hcareful
  have ha : s.allocated c = true := (h.held w c hs.holds).1
  cases op with
  | enqueue req e thread => cases hown
  | cancel fd aiocbp valid => cases hown
  | take v d =>
    obtain rfl := Option.some.inj hown
    obtain rfl : d = c := by
      have hchain := hs.holds.2
      rw [he.2.2] at hchain
      exact Option.some.inj hchain
    refine .working ((SameShape.take ha he.2.2).serves hs h.inOrder h'.inOrder) ?_
    rw [← hsequence]
    show ((s.take v d).sequence v d).filter _ = _
    unfold State.take State.touch State.sequence
    rw [if_pos ha, he.2.2]
    cases hperfd : (s.chains d).perfd with
    | nil =>
      show (s.executed ++ ((Function.update s.pc v (.lockQueue d) v).request ++
        (s.chains d).perfd)).filter _ = _
      rw [Function.update_self, hperfd]
      rfl
    | cons req rest =>
      show (s.executed ++ ((Function.update s.pc v (.processing d req) v).request ++
        ((s.setPerfd d rest).chains d).perfd)).filter _ = _
      rw [Function.update_self, perfd_self]
      rfl
  | finish v d req result errno =>
    obtain rfl := Option.some.inj hown
    have hserves := (SameShape.finish he.2.2 result errno).serves hs h.inOrder h'.inOrder
    refine .working hserves ?_
    rw [← hsequence]
    unfold State.sequence
    show (s.executed ++ [req] ++ ((Function.update s.pc v (.lock d) v).request ++
      (s.chains c).perfd)).filter _ = _
    rw [Function.update_self, he.2.2, List.append_assoc]
    rfl
  | recheck v d =>
    obtain rfl := Option.some.inj hown
    obtain rfl : d = c := by
      have hchain := hs.holds.2
      rw [he.2.2] at hchain
      exact Option.some.inj hchain
    refine .working ((SameShape.recheck ha he.2.2).serves hs h.inOrder h'.inOrder) ?_
    rw [← hsequence]
    show ((s.recheck v d).sequence v d).filter _ = _
    unfold State.recheck State.touch State.sequence
    rw [if_pos ha, he.2.2]
    split
    next =>
      show (s.executed ++ ((Function.update s.pc v (.waitChain d) v).request ++
        (s.chains d).perfd)).filter _ = _
      rw [Function.update_self]
      rfl
    next =>
      show (s.executed ++ ((Function.update s.pc v (.lock d) v).request ++
        (s.chains d).perfd)).filter _ = _
      rw [Function.update_self]
      rfl
  | wakeChain v d timedOut =>
    obtain rfl := Option.some.inj hown
    obtain rfl : d = c := by
      have hchain := hs.holds.2
      rw [he.2.2] at hchain
      exact Option.some.inj hchain
    cases timedOut with
    | true =>
      -- The chain is empty, so nothing of the sequence is left.
      have hempty := (hcareful rfl).1
      refine .done ?_
      rw [(records_run s _).2.1, ← hsequence]
      unfold State.sequence
      rw [he.2.2, hempty]
      rfl
    | false =>
      refine .working ((SameShape.wakeChain ha he.2.2).serves hs h.inOrder h'.inOrder) ?_
      rw [← hsequence]
      show ((s.wakeChain v d false).sequence v d).filter _ = _
      unfold State.wakeChain State.touch State.sequence
      rw [if_pos ha, he.2.2, if_neg Bool.false_ne_true]
      show (s.executed ++ ((Function.update s.pc v (.lock d) v).request ++
        (s.chains d).perfd)).filter _ = _
      rw [Function.update_self]
      rfl
  | wakeNew v timedOut =>
    obtain rfl := Option.some.inj hown
    have hchain := hs.holds.2
    rw [he.2.2] at hchain
    cases hchain

theorem Kept.serving {reqs order : List Request} (h : Kept s) (he : op.Enabled s)
    (hcareful : op.Careful s) (hcancel : ¬ op.Cancels fildes)
    (hissued : ∀ r ∈ reqs, r ∈ s.issued) (hfd : ∀ r ∈ reqs, r.aiocbp.fildes = fildes)
    (hall : ∀ r ∈ reqs, r ∈ order) (hserving : Serving w c fildes reqs order s) :
    Serving w c fildes reqs order (op.run s) := by
  cases hserving with
  | done hdone => exact .done (h.done he hall hdone)
  | working hs hsequence =>
    by_cases hown : op.worker = some w
    · exact h.working hs he hcareful hown hsequence
    · have hframe := h.frame hs he hcareful hown hcancel
      have hfinishes : op.finishes.filter (fun r => decide (r ∈ reqs)) = [] := by
        refine List.filter_eq_nil_iff.mpr fun r hr hmem => ?_
        exact h.finishes_other hs he hown r hr (hfd r (of_decide_eq_true hmem))
      have hnew : ∀ r ∈ op.issuesFor fildes, decide (r ∈ reqs) = false := by
        intro r hr
        have hr := (List.mem_filter.mp hr).1
        refine decide_eq_false fun hmem => ?_
        cases op with
        | enqueue req e thread =>
          obtain rfl := List.mem_singleton.mp hr
          exact he.2.1 (hissued r hmem)
        | _ => cases hr
      refine .working hframe.serves ?_
      rw [← hsequence]
      unfold State.sequence
      rw [(records_run s op).2.1, hframe.pc, hframe.perfd, List.append_assoc]
      simp only [List.filter_append, hfinishes, List.nil_append,
        Lib.filter_insertInFront_neg _ hnew]

theorem Kept.serving_foldl {reqs order : List Request} (h : Kept s)
    {ops : List (Op Cid Wid)}
    (hlegal : Legal (fun s op => op.Careful s ∧ ¬ op.Cancels fildes) s ops)
    (hissued : ∀ r ∈ reqs, r ∈ s.issued) (hfd : ∀ r ∈ reqs, r.aiocbp.fildes = fildes)
    (hall : ∀ r ∈ reqs, r ∈ order) (hserving : Serving w c fildes reqs order s) :
    Kept (ops.foldl Op.run s) ∧ Serving w c fildes reqs order (ops.foldl Op.run s) := by
  induction ops generalizing s with
  | nil => exact ⟨h, hserving⟩
  | cons op ops ih =>
    obtain ⟨he, ⟨hcareful, hcancel⟩, hrest⟩ := hlegal
    refine ih (h.run he hcareful) hrest ?_
      (h.serving he hcareful hcancel hissued hfd hall hserving)
    intro r hr
    rw [(records_run s op).1]
    exact List.mem_append_left _ (hissued r hr)

/-! ## The order -/

section

omit [DecidableEq Cid] [DecidableEq Wid]

theorem Kept.executed_issued (h : Kept s) (hr : r ∈ s.executed) : r ∈ s.issued := by
  refine h.ledger.mem_iff.mp ?_
  unfold State.ledger
  simp [hr]

theorem Kept.request_issued (h : Kept s) (hw : w ∈ s.workers) (hr : r ∈ (s.pc w).request) :
    r ∈ s.issued := by
  have hprogress : r ∈ s.inProgress := List.mem_flatMap.mpr ⟨w, hw, hr⟩
  refine h.ledger.mem_iff.mp ?_
  unfold State.ledger
  simp [hprogress]

theorem Kept.perfd_issued (h : Kept s) (hc : c ∈ s.workReq) (hr : r ∈ (s.chains c).perfd) :
    r ∈ s.issued := by
  have hqueued : r ∈ s.queued := List.mem_flatMap.mpr ⟨c, List.mem_append_left _ hc, hr⟩
  refine h.ledger.mem_iff.mp ?_
  unfold State.ledger
  simp [hqueued]

end

/-- Requests that come are new and come once. -/
theorem Kept.submitted_new {ops : List (Op Cid Wid)} (h' : Kept (ops.foldl Op.run s)) :
    (submitted fildes ops).Nodup ∧ ∀ r ∈ submitted fildes ops, r ∉ s.issued := by
  have hnodup := h'.issued
  rw [issued_foldl, List.nodup_append] at hnodup
  obtain ⟨-, hissues, hdisjoint⟩ := hnodup
  refine ⟨hissues.filter _, ?_⟩
  intro r hr hissued
  exact hdisjoint r hissued r (List.mem_filter.mp hr).1 rfl

/-- When they are all executed, the order is the one that they had on the chain. -/
theorem executed_order (h : Kept s) (hs : s.Serves w c fildes) {ops₁ ops₂ : List (Op Cid Wid)}
    (h₁ : Legal (Op.WhileBusy w fildes) s ops₁)
    (h₂ : Legal (fun s op => op.Careful s ∧ ¬ op.Cancels fildes) (ops₁.foldl Op.run s) ops₂)
    (hall : ∀ r ∈ submitted fildes ops₁, r ∈ ((ops₁ ++ ops₂).foldl Op.run s).executed) :
    ((ops₁ ++ ops₂).foldl Op.run s).executed.filter
        (fun r => decide (r ∈ submitted fildes ops₁)) =
      (Lib.insertInFront (fun r => r.aiocbp.reqprio) (s.chains c).perfd
        (submitted fildes ops₁)).filter (fun r => decide (r ∈ submitted fildes ops₁)) := by
  have hmiddle := h.legal (fun _ _ hop => hop.1) h₁
  obtain ⟨hframe, hexecuted⟩ := h.busy hs h₁
  have hsubmitted : (submitted fildes ops₁).Nodup ∧ ∀ r ∈ submitted fildes ops₁, r ∉ s.issued :=
    hmiddle.submitted_new
  obtain ⟨hnodup, hnew⟩ := hsubmitted
  generalize hsub : submitted fildes ops₁ = reqs at *
  have hfd : ∀ r ∈ reqs, r.aiocbp.fildes = fildes := by
    rintro r hr
    rw [← hsub] at hr
    exact of_decide_eq_true (List.mem_filter.mp hr).2
  have hissued : ∀ r ∈ reqs, r ∈ (ops₁.foldl Op.run s).issued := by
    intro r hr
    rw [← hsub] at hr
    rw [issued_foldl]
    exact List.mem_append_right _ (List.mem_filter.mp hr).1
  have hperm := Lib.insertInFront_perm (fun r => r.aiocbp.reqprio) (s.chains c).perfd reqs
  have horder : ∀ r ∈ reqs, r ∈ (Lib.insertInFront (fun r => r.aiocbp.reqprio)
      (s.chains c).perfd reqs).filter (fun r => decide (r ∈ reqs)) := by
    intro r hr
    refine List.mem_filter.mpr ⟨hperm.mem_iff.mpr (List.mem_append_left _ hr), ?_⟩
    exact decide_eq_true hr
  have hserving : Serving w c fildes reqs
      ((Lib.insertInFront (fun r => r.aiocbp.reqprio) (s.chains c).perfd reqs).filter
        fun r => decide (r ∈ reqs)) (ops₁.foldl Op.run s) := by
    refine .working hframe.serves ?_
    have hdone : (ops₁.foldl Op.run s).executed.filter (fun r => decide (r ∈ reqs)) = [] := by
      refine List.filter_eq_nil_iff.mpr fun r hr hmem => ?_
      have hmem := of_decide_eq_true hmem
      rcases hexecuted r hr with hr | hr
      · exact hnew r hmem (h.executed_issued hr)
      · exact hr (hfd r hmem)
    have hrequest : (s.pc w).request.filter (fun r => decide (r ∈ reqs)) = [] := by
      refine List.filter_eq_nil_iff.mpr fun r hr hmem => ?_
      exact hnew r (of_decide_eq_true hmem) (h.request_issued hs.holds.1 hr)
    unfold State.sequence
    rw [List.filter_append, List.filter_append, hframe.pc, hframe.perfd, hdone, hrequest]
    rfl
  obtain ⟨hkept, hserving⟩ := hmiddle.serving_foldl h₂ hissued hfd horder hserving
  rw [List.foldl_append] at hall ⊢
  cases hserving with
  | done hdone => exact hdone
  | working _ hsequence =>
    -- All of them are executed, so the worker has none of them left.
    unfold State.sequence at hsequence
    rw [List.filter_append] at hsequence
    have hnodupOrder : ((Lib.insertInFront (fun r => r.aiocbp.reqprio)
        (s.chains c).perfd reqs).filter fun r => decide (r ∈ reqs)).Nodup := by
      refine (hperm.filter _).nodup_iff.mpr ?_
      have hold : (s.chains c).perfd.filter (fun r => decide (r ∈ reqs)) = [] := by
        refine List.filter_eq_nil_iff.mpr fun r hr hmem => ?_
        exact hnew r (of_decide_eq_true hmem) (h.perfd_issued hs.work hr)
      rw [List.filter_append, hold, List.append_nil]
      exact hnodup.filter _
    rw [← hsequence, List.nodup_append] at hnodupOrder
    rw [← hsequence]
    refine List.self_eq_append_right.mpr ?_
    refine List.eq_nil_iff_forall_not_mem.mpr fun r hr => ?_
    have hmem := (List.mem_filter.mp hr).2
    refine hnodupOrder.2.2 r (List.mem_filter.mpr ⟨?_, hmem⟩) r hr rfl
    exact hall r (of_decide_eq_true hmem)

/-- The requests that come for a descriptor while its worker is busy are executed in the order of
their `aio_reqprio`, and in the order in which they came where it is the same, and their insertion
reads no more than the requests on the chain, just when no two of them have the same and none is
above all that are queued when it comes. -/
theorem executed_in_order_iff (chains : Cid → RequestChain) (pc : Wid → Pc Cid)
    (outcome : Request → Outcome) (hr : Reachable Op.Careful (initial chains pc outcome) s)
    (hs : s.Serves w c fildes) {ops₁ ops₂ : List (Op Cid Wid)}
    (h₁ : Legal (Op.WhileBusy w fildes) s ops₁)
    (h₂ : Legal (fun s op => op.Careful s ∧ ¬ op.Cancels fildes) (ops₁.foldl Op.run s) ops₂)
    (hall : ∀ r ∈ submitted fildes ops₁, r ∈ ((ops₁ ++ ops₂).foldl Op.run s).executed) :
    (Lib.Stable (fun r => r.aiocbp.reqprio) (submitted fildes ops₁)
        (((ops₁ ++ ops₂).foldl Op.run s).executed.filter
          fun r => decide (r ∈ submitted fildes ops₁)) ∧
        ∀ r ∈ submitted fildes ops₁, r ∉ ((ops₁ ++ ops₂).foldl Op.run s).misread) ↔
      ((submitted fildes ops₁).Pairwise fun a b => a.aiocbp.reqprio ≠ b.aiocbp.reqprio) ∧
        NoneAbove (s.chains c).perfd (submitted fildes ops₁) := by
  have hreach : Kept s ∧ ∀ r ∈ s.misread, r ∈ s.issued := by
    refine Reach.invariant (p := fun s => Kept s ∧ ∀ r ∈ s.misread, r ∈ s.issued) hr
      ⟨kept_initial chains pc outcome, List.forall_mem_nil _⟩ ?_
    rintro s s' ⟨h, hmisread⟩ ⟨op, he, hc, rfl⟩
    exact ⟨h.run he hc, misread_issued hmisread op⟩
  obtain ⟨h, hmisread⟩ := hreach
  have hmiddle := h.legal (fun _ _ hop => hop.1) h₁
  have hsubmitted : (submitted fildes ops₁).Nodup ∧ ∀ r ∈ submitted fildes ops₁, r ∉ s.issued :=
    hmiddle.submitted_new
  obtain ⟨hnodup, hnew⟩ := hsubmitted
  refine and_congr ?_ ?_
  · rw [executed_order h hs h₁ h₂ hall]
    refine Lib.stable_insertInFront_iff hnodup fun r hr hperfd => hnew r hr ?_
    exact h.perfd_issued hs.work hperfd
  · rw [← h.noneAbove hs h₁ hmisread]
    refine forall₂_congr fun r hr => not_congr ?_
    rw [List.foldl_append]
    refine misread_foldl h₂ ?_
    rw [issued_foldl]
    exact List.mem_append_right _ (List.mem_filter.mp hr).1

/-- A request for the third descriptor. -/
def withPrio (serial : Nat) (reqprio : Int) : Request := ⟨serial, ⟨serial, 3, reqprio⟩⟩

/-- The worker is busy with a request. -/
def oneBusy : List (Op Nat Nat) := [.enqueue (requestFor 0 3) 0 (some 0), .take 0 0]

/-- Two requests come in the meantime. -/
def twoCome (a b : Request) : List (Op Nat Nat) := [.enqueue a 1 none, .enqueue b 1 none]

/-- The worker is done with its request and executes the second one before the first. -/
def secondFirst (a b : Request) : List (Op Nat Nat) :=
  [.finish 0 0 (requestFor 0 3) 0 0, .take 0 0, .finish 0 0 b 0 0, .take 0 0, .finish 0 0 a 0 0]

theorem oneBusy_reachable : Reachable Op.Careful blank (oneBusy.foldl Op.run blank) := by
  have hlegal : Legal Op.Careful blank oneBusy :=
    ⟨⟨rfl, nofun, rfl, fun _ _ => nofun⟩, fun _ _ _ _ _ hw => (nomatch hw.1),
      ⟨rfl, List.mem_cons_self, rfl⟩, trivial, trivial⟩
  exact hlegal.reachable

theorem oneBusy_serves : (oneBusy.foldl Op.run blank).Serves 0 0 3 :=
  ⟨⟨List.mem_cons_self, rfl⟩, rfl⟩

theorem twoCome_legal {reqprio : Int} :
    Legal (Op.WhileBusy 0 3) (oneBusy.foldl Op.run blank)
      (twoCome (withPrio 1 reqprio) (withPrio 2 0)) := by
  have hnone : ∀ {s : State Nat Nat} {req : Request}, Op.Careful s (.enqueue req 1 none) :=
    fun hthread => absurd rfl hthread
  refine ⟨⟨rfl, ?_, rfl, nofun⟩, ⟨hnone, nofun, nofun⟩, ⟨rfl, ?_, rfl, nofun⟩,
    ⟨hnone, nofun, nofun⟩, trivial⟩
  · show withPrio 1 reqprio ∉ [requestFor 0 3]
    simp [withPrio, requestFor]
  · show withPrio 2 0 ∉ [requestFor 0 3, withPrio 1 reqprio]
    simp [withPrio, requestFor]

theorem executed_in_order_iff_lower :
    (Lib.Stable (fun r => r.aiocbp.reqprio) (submitted 3 (twoCome (withPrio 1 7) (withPrio 2 0)))
        (((twoCome (withPrio 1 7) (withPrio 2 0) ++
            secondFirst (withPrio 1 7) (withPrio 2 0)).foldl Op.run
          (oneBusy.foldl Op.run blank)).executed.filter
            fun r => decide (r ∈ submitted 3 (twoCome (withPrio 1 7) (withPrio 2 0)))) ∧
        ∀ r ∈ submitted 3 (twoCome (withPrio 1 7) (withPrio 2 0)),
          r ∉ ((twoCome (withPrio 1 7) (withPrio 2 0) ++
              secondFirst (withPrio 1 7) (withPrio 2 0)).foldl Op.run
            (oneBusy.foldl Op.run blank)).misread) ↔
      ((submitted 3 (twoCome (withPrio 1 7) (withPrio 2 0))).Pairwise
        fun a b => a.aiocbp.reqprio ≠ b.aiocbp.reqprio) ∧
        NoneAbove [] (submitted 3 (twoCome (withPrio 1 7) (withPrio 2 0))) := by
  have hmem : 0 ∈ [0] := List.mem_cons_self
  refine executed_in_order_iff (fun _ => ⟨[], 0⟩) (fun _ => .finished)
    (fun _ => ⟨.EINPROGRESS, 0⟩) oneBusy_reachable oneBusy_serves twoCome_legal ?_ (by decide)
  exact ⟨⟨rfl, hmem, rfl⟩, ⟨trivial, nofun⟩, ⟨rfl, hmem, rfl⟩, ⟨trivial, nofun⟩,
    ⟨rfl, hmem, rfl⟩, ⟨trivial, nofun⟩, ⟨rfl, hmem, rfl⟩, ⟨trivial, nofun⟩, ⟨rfl, hmem, rfl⟩,
    ⟨trivial, nofun⟩, trivial⟩

/-- Of two requests with one `aio_reqprio` the second is executed first. -/
theorem second_first : ¬ ∀ (s : State Nat Nat) (w c : Nat) (fildes : Int)
    (ops₁ ops₂ : List (Op Nat Nat)), Reachable Op.Careful blank s → s.Serves w c fildes →
    Legal (Op.WhileBusy w fildes) s ops₁ →
    Legal (fun s op => op.Careful s ∧ ¬ op.Cancels fildes) (ops₁.foldl Op.run s) ops₂ →
    (∀ r ∈ submitted fildes ops₁, r ∈ ((ops₁ ++ ops₂).foldl Op.run s).executed) →
    Lib.Stable (fun r => r.aiocbp.reqprio) (submitted fildes ops₁)
      (((ops₁ ++ ops₂).foldl Op.run s).executed.filter
        fun r => decide (r ∈ submitted fildes ops₁)) := by
  intro h
  have hmem : 0 ∈ [0] := List.mem_cons_self
  have hlegal : Legal (fun s op => op.Careful s ∧ ¬ op.Cancels 3)
      ((twoCome (withPrio 1 0) (withPrio 2 0)).foldl Op.run (oneBusy.foldl Op.run blank))
      (secondFirst (withPrio 1 0) (withPrio 2 0)) :=
    ⟨⟨rfl, hmem, rfl⟩, ⟨trivial, nofun⟩, ⟨rfl, hmem, rfl⟩, ⟨trivial, nofun⟩,
      ⟨rfl, hmem, rfl⟩, ⟨trivial, nofun⟩, ⟨rfl, hmem, rfl⟩, ⟨trivial, nofun⟩, ⟨rfl, hmem, rfl⟩,
      ⟨trivial, nofun⟩, trivial⟩
  have hstable := (h _ 0 0 3 _ _ oneBusy_reachable oneBusy_serves twoCome_legal hlegal
    (by decide)).2 0
  exact absurd hstable (by decide)

end Rtems.Aio
