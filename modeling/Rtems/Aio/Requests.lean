import Rtems.Aio.Linked

/-!
# Where the requests are

A request that came is in the hands of a worker, executed, canceled or on a chain
of one of the lists, and in one of these places once.
-/

namespace Rtems.Aio

variable {Cid Wid : Type} [DecidableEq Cid] [DecidableEq Wid]
variable {s s' : State Cid Wid} {w : Wid} {c : Cid} {req : Request}

/-! ## The requests on the chains -/

section

omit [DecidableEq Wid]

theorem perfd_other (s : State Cid Wid) (perfd : List Request) {d : Cid} (hd : d ≠ c) :
    (s.setPerfd c perfd).chains d = s.chains d :=
  Function.update_of_ne hd ..

theorem perfd_self (s : State Cid Wid) (c : Cid) (perfd : List Request) :
    ((s.setPerfd c perfd).chains c).perfd = perfd := by
  show (Function.update s.chains c _ c).perfd = perfd
  rw [Function.update_self]

theorem queued_setPerfd (hl : Linked s) (hc : c ∈ s.workReq ++ s.idleReq) (perfd : List Request) :
    ((s.chains c).perfd ++ (s.setPerfd c perfd).queued).Perm (perfd ++ s.queued) := by
  have hother : ∀ d, d ≠ c → ((s.setPerfd c perfd).chains d).perfd = (s.chains d).perfd :=
    fun d hd => by rw [perfd_other s perfd hd]
  have h := Lib.flatMap_changed (f := fun d => (s.chains d).perfd)
    (g := fun d => ((s.setPerfd c perfd).chains d).perfd) hother hl.nodup hc
  rwa [perfd_self] at h

/-- A chain on neither list does not count. -/
theorem queued_unlinked (hc : c ∉ s.workReq ++ s.idleReq) (perfd : List Request) :
    (s.setPerfd c perfd).queued = s.queued :=
  Lib.flatMap_unchanged (fun d hd => by rw [perfd_other s perfd hd]) hc

theorem queued_newChain (hc : c ∉ s.workReq ++ s.idleReq) (req : Request) :
    (s.newChain c req).queued = s.queued := by
  refine Lib.flatMap_unchanged (fun d hd => ?_) hc
  rw [chains_newChain, Function.update_of_ne hd]

end

section

omit [DecidableEq Cid] [DecidableEq Wid]

theorem queued_linkWork (s : State Cid Wid) (c : Cid) :
    (s.linkWork c).queued.Perm ((s.chains c).perfd ++ s.queued) := by
  have h := (lists_linkWork s c).flatMap_right fun d => (s.chains d).perfd
  rwa [List.flatMap_cons] at h

theorem queued_linkIdle (s : State Cid Wid) (c : Cid) :
    (s.linkIdle c).queued.Perm ((s.chains c).perfd ++ s.queued) := by
  have h := (lists_linkIdle s c).flatMap_right fun d => (s.chains d).perfd
  rwa [List.flatMap_cons] at h

end

section

omit [DecidableEq Wid]

/-- A new chain comes with its request. -/
theorem queued_linkNew (hc : c ∉ s.workReq ++ s.idleReq) (req : Request) :
    ((s.newChain c req).linkWork c).queued.Perm (req :: s.queued) ∧
      ((s.newChain c req).linkIdle c).queued.Perm (req :: s.queued) := by
  have hwork := queued_linkWork (s.newChain c req) c
  have hidle := queued_linkIdle (s.newChain c req) c
  rw [queued_newChain hc, chains_newChain, Function.update_self] at hwork hidle
  exact ⟨hwork, hidle⟩

theorem insertLoop_perfd (req : Request) (l : List Request) : (insertLoop req l).1 =
    l.orderedInsert (fun a b => a.aiocbp.reqprio ≤ b.aiocbp.reqprio) req := by
  induction l with
  | nil => rfl
  | cons node rest ih =>
    unfold insertLoop
    rw [List.orderedInsert_cons, ← ih]
    split
    next hgt => rw [if_neg (not_le.mpr hgt)]
    next hle => rw [if_pos (not_lt.mp hle)]

/-- The tail is read when all the nodes are below the request. -/
theorem insertLoop_tail (req : Request) (l : List Request) :
    (insertLoop req l).2 = true ↔ ∀ node ∈ l, node.aiocbp.reqprio < req.aiocbp.reqprio := by
  induction l with
  | nil => simp [insertLoop]
  | cons node rest ih =>
    unfold insertLoop
    split
    next hgt => simp [ih, hgt]
    next hle => simp [hle]

/-- What the insertion does to the chain. -/
theorem insertPrio_eq (s : State Cid Wid) (c : Cid) (req : Request) :
    s.insertPrio c req =
      { s.setPerfd c ((s.chains c).perfd.orderedInsert
          (fun a b => a.aiocbp.reqprio ≤ b.aiocbp.reqprio) req) with
        misread := (s.insertPrio c req).misread } := by
  unfold State.insertPrio
  dsimp only
  split
  next hempty =>
    rw [hempty]
    rfl
  next => rw [insertLoop_perfd]

/-- The request reads the end of the chain when there are others on it and it is above them all. -/
def Request.AboveAll (req : Request) (perfd : List Request) : Prop :=
  perfd ≠ [] ∧ ∀ node ∈ perfd, node.aiocbp.reqprio < req.aiocbp.reqprio

theorem insertPrio_above (s : State Cid Wid) (c : Cid)
    (h : req.AboveAll (s.chains c).perfd) :
    (s.insertPrio c req).misread = s.misread ++ [req] := by
  unfold State.insertPrio
  dsimp only
  rw [if_neg h.1, if_pos ((insertLoop_tail req _).mpr h.2)]

theorem insertPrio_notAbove (s : State Cid Wid) (c : Cid)
    (h : ¬ req.AboveAll (s.chains c).perfd) : (s.insertPrio c req).misread = s.misread := by
  unfold State.insertPrio
  dsimp only
  split
  next => rfl
  next hne => rw [if_neg fun htail => h ⟨hne, (insertLoop_tail req _).mp htail⟩]

theorem insertPrio_misread (s : State Cid Wid) (c : Cid) (req : Request) :
    (s.insertPrio c req).misread = s.misread ∨
      (s.insertPrio c req).misread = s.misread ++ [req] := by
  by_cases h : req.AboveAll (s.chains c).perfd
  · exact .inr (insertPrio_above s c h)
  · exact .inl (insertPrio_notAbove s c h)

theorem queued_insertPrio (hl : Linked s) (hc : c ∈ s.workReq ++ s.idleReq) (req : Request) :
    (s.insertPrio c req).queued.Perm (req :: s.queued) := by
  rw [insertPrio_eq]
  have h := queued_setPerfd hl hc
    ((s.chains c).perfd.orderedInsert (fun a b => a.aiocbp.reqprio ≤ b.aiocbp.reqprio) req)
  have hinsert := List.perm_orderedInsert
    (fun a b : Request => a.aiocbp.reqprio ≤ b.aiocbp.reqprio) req (s.chains c).perfd
  have hperm := h.trans (hinsert.append_right s.queued)
  exact (List.perm_append_left_iff _).mp (hperm.trans List.perm_middle.symm)

/-- A chain is taken off its list. -/
theorem queued_erase (hl : Linked s) (hc : c ∈ s.workReq ++ s.idleReq)
    (hlists : s'.workReq ++ s'.idleReq = (s.workReq ++ s.idleReq).erase c)
    (hchains : s'.chains = s.chains) :
    c ∉ s'.workReq ++ s'.idleReq ∧ s.queued.Perm ((s.chains c).perfd ++ s'.queued) := by
  unfold State.queued
  rw [hlists, hchains]
  exact ⟨hl.nodup.not_mem_erase, Lib.flatMap_erase (fun d => (s.chains d).perfd) hc⟩

end

section

omit [DecidableEq Cid]

theorem queued_workOnIdle (hi : s.idleReq ≠ []) (w : Wid) :
    (s.workOnIdle w).queued.Perm s.queued := by
  obtain ⟨c, rest, hi⟩ := List.exists_cons_of_ne_nil hi
  have hchains : (s.workOnIdle w).chains = s.chains := by rw [workOnIdle_cons hi]
  unfold State.queued
  rw [hchains]
  exact (lists_workOnIdle hi).flatMap_right _

/-! ## The requests in the hands of workers -/

theorem inProgress_setPc (hl : s.workers.Nodup) (hw : w ∈ s.workers) (p : Pc Cid) :
    ((s.pc w).request ++ (s.setPc w p).inProgress).Perm (p.request ++ s.inProgress) := by
  have hother : ∀ v, v ≠ w → ((s.setPc w p).pc v).request = (s.pc v).request :=
    fun v hv => congrArg Pc.request (Function.update_of_ne hv ..)
  have h := Lib.flatMap_changed (f := fun v => (s.pc v).request)
    (g := fun v => ((s.setPc w p).pc v).request) hother hl hw
  rwa [show (s.setPc w p).pc w = p from Function.update_self ..] at h

/-- A step between places without a request. -/
theorem inProgress_same (hl : s.workers.Nodup) (hw : w ∈ s.workers) {p : Pc Cid}
    (hpc : (s.pc w).request = []) (hp : p.request = []) :
    (s.setPc w p).inProgress.Perm s.inProgress := by
  have h := inProgress_setPc hl hw p
  rwa [hpc, hp] at h

theorem inProgress_createWorker (hw : w ∉ s.workers) :
    (s.createWorker w c).inProgress = s.inProgress := by
  refine List.flatMap_cons.trans ?_
  rw [show (s.createWorker w c).pc w = .lock c from Function.update_self ..]
  refine Lib.flatMap_unchanged (fun v hv => ?_) hw
  exact congrArg Pc.request (Function.update_of_ne hv ..)

end

/-! ## The ledger -/

/-- The places of the requests that came. -/
def State.ledger (s : State Cid Wid) : List Request :=
  s.inProgress ++ s.executed ++ s.canceled ++ s.queued

/-- Every request that came is in one place. -/
structure Ledger (s : State Cid Wid) : Prop where
  ledger : s.ledger.Perm s.issued
  issued : s.issued.Nodup
  accepted : ∀ r ∈ s.accepted, r ∈ s.issued
  canceled : ∀ r ∈ s.canceled, s.outcome r = ⟨.ECANCELED, -1⟩

section

omit [DecidableEq Cid] [DecidableEq Wid]

/-- No request comes, and the requests change places. -/
theorem Ledger.move (h : Ledger s) (hledger : s'.ledger.Perm s.ledger)
    (hissued : s'.issued = s.issued) (haccepted : s'.accepted = s.accepted)
    (hcanceled : ∀ r ∈ s'.canceled, s'.outcome r = ⟨.ECANCELED, -1⟩) : Ledger s' where
  ledger := by
    rw [hissued]
    exact hledger.trans h.ledger
  issued := by
    rw [hissued]
    exact h.issued
  accepted := by
    rw [haccepted, hissued]
    exact h.accepted
  canceled := hcanceled

/-- A request comes to a chain of the lists. -/
theorem Ledger.come (h : Ledger s) (hreq : req ∉ s.issued)
    (hprogress : s'.inProgress = s.inProgress) (hexecuted : s'.executed = s.executed)
    (hcanceled : s'.canceled = s.canceled) (hqueued : s'.queued.Perm (req :: s.queued))
    (hissued : s'.issued = s.issued ++ [req])
    (haccepted : ∀ r ∈ s'.accepted, r ∈ s.accepted ∨ r = req)
    (houtcome : s'.outcome = Function.update s.outcome req ⟨.EINPROGRESS, 0⟩) : Ledger s' where
  ledger := by
    have hledger : s'.ledger.Perm (req :: s.ledger) := by
      unfold State.ledger
      rw [hprogress, hexecuted, hcanceled]
      exact (hqueued.append_left _).trans List.perm_middle
    rw [hissued]
    exact (hledger.trans (h.ledger.cons req)).trans (List.perm_append_singleton ..).symm
  issued := by
    rw [hissued, (List.perm_append_singleton ..).nodup_iff]
    exact List.nodup_cons.mpr ⟨hreq, h.issued⟩
  accepted := by
    intro r hr
    rw [hissued]
    rcases haccepted r hr with hold | rfl
    · exact List.mem_append_left _ (h.accepted r hold)
    · exact List.mem_append_right _ List.mem_cons_self
  canceled := by
    intro r hr
    rw [hcanceled] at hr
    have hmem : r ∈ s.ledger := by
      unfold State.ledger
      simp [hr]
    have hne : r ≠ req := by
      rintro rfl
      exact hreq (h.ledger.mem_iff.mp hmem)
    rw [houtcome, Function.update_of_ne hne]
    exact h.canceled r hr

/-- The requests of a chain are canceled. -/
theorem Ledger.cancelRequests (h : Ledger s) {reqs : List Request}
    (hprogress : s'.inProgress = s.inProgress) (hexecuted : s'.executed = s.executed)
    (hcanceled : s'.canceled = s.canceled) (houtcome : s'.outcome = s.outcome)
    (hissued : s'.issued = s.issued) (haccepted : s'.accepted = s.accepted)
    (hqueued : s.queued.Perm (reqs ++ s'.queued)) : Ledger (s'.cancelRequests reqs) := by
  refine h.move ?_ hissued haccepted ?_
  · have hledger : (s'.cancelRequests reqs).ledger =
        s.inProgress ++ s.executed ++ (s.canceled ++ reqs) ++ s'.queued := by
      rw [← hprogress, ← hexecuted, ← hcanceled]
      rfl
    rw [hledger]
    unfold State.ledger
    rw [List.append_assoc _ (s.canceled ++ reqs), List.append_assoc _ s.canceled s.queued,
      List.append_assoc s.canceled]
    exact ((hqueued.append_left _).append_left _).symm
  · intro r hr
    show (if r ∈ reqs then _ else s'.outcome r) = _
    split
    next => rfl
    next hne =>
      have hr : r ∈ s'.canceled ++ reqs := hr
      rw [hcanceled] at hr
      rcases List.mem_append.mp hr with hr | hr
      · rw [houtcome]
        exact h.canceled r hr
      · exact absurd hr hne

/-- A request goes from the hands of a worker or from a chain to another. -/
theorem ledger_perm (hexecuted : s'.executed = s.executed) (hcanceled : s'.canceled = s.canceled)
    (h : (s'.inProgress ++ s'.queued).Perm (s.inProgress ++ s.queued)) :
    s'.ledger.Perm s.ledger := by
  unfold State.ledger
  rw [hexecuted, hcanceled, List.perm_iff_count]
  intro r
  have hcount := h.count_eq r
  simp only [List.count_append] at hcount ⊢
  omega

end

/-! ## The requests and the descriptors -/

/-- A request is for the descriptor of its chain, and a chain that is on no list has none. -/
structure Filed (s : State Cid Wid) : Prop where
  fds : ∀ c, s.allocated c = true → ∀ r ∈ (s.chains c).perfd,
    r.aiocbp.fildes = (s.chains c).fildes
  hands : ∀ w ∈ s.workers, ∀ c r, s.pc w = .processing c r →
    r.aiocbp.fildes = (s.chains c).fildes
  unlinked : ∀ w c, s.Holds w c → c ∉ s.workReq → (s.chains c).perfd = []

section

omit [DecidableEq Wid]

theorem Filed.setPerfd (h : Filed s) {perfd : List Request}
    (hfds : s.allocated c = true → ∀ r ∈ perfd, r.aiocbp.fildes = (s.chains c).fildes)
    (hempty : ∀ w, s.Holds w c → c ∉ s.workReq → perfd = []) : Filed (s.setPerfd c perfd) where
  fds := by
    intro d hd r hr
    rw [(SameShape.setPerfd s c perfd).fildes]
    rcases eq_or_ne d c with rfl | hne
    · rw [perfd_self] at hr
      exact hfds hd r hr
    · rw [perfd_other s perfd hne] at hr
      exact h.fds d hd r hr
  hands := by
    intro w hw d r hpc
    rw [(SameShape.setPerfd s c perfd).fildes]
    exact h.hands w hw d r hpc
  unlinked := by
    intro w d hw hd
    rcases eq_or_ne d c with rfl | hne
    · rw [perfd_self]
      exact hempty w hw hd
    · rw [perfd_other s perfd hne]
      exact h.unlinked w d hw hd

end

section

omit [DecidableEq Cid]

/-- What the other workers have in their hands when one gets to a place without a request. -/
theorem Filed.hands_update (h : Filed s) {p : Pc Cid} {v : Wid} {r : Request} (hp : p.request = [])
    (hv : v ≠ w → v ∈ s.workers) (hpc : Function.update s.pc w p v = .processing c r) :
    r.aiocbp.fildes = (s.chains c).fildes := by
  rcases eq_or_ne v w with rfl | hne
  · rw [Function.update_self] at hpc
    subst hpc
    cases hp
  · rw [Function.update_of_ne hne] at hpc
    exact h.hands v (hv hne) c r hpc

/-- A worker gets to another place with the same chain, or without a chain. -/
theorem Filed.setPc (h : Filed s) {p : Pc Cid}
    (hhands : ∀ c r, p = .processing c r → r.aiocbp.fildes = (s.chains c).fildes)
    (hheld : w ∈ s.workers → ∀ c, p.chain = some c → s.Holds w c) : Filed (s.setPc w p) where
  fds := h.fds
  hands := by
    intro v hv c r hpc
    have hpc : Function.update s.pc w p v = .processing c r := hpc
    rcases eq_or_ne v w with rfl | hne
    · rw [Function.update_self] at hpc
      exact hhands c r hpc
    · rw [Function.update_of_ne hne] at hpc
      exact h.hands v hv c r hpc
  unlinked := by
    intro v c hv hc
    obtain ⟨hmem, hchain⟩ := (holds_update (s := s) (w := w) (p := p) rfl).mp hv
    split at hchain
    next heq =>
      subst heq
      exact h.unlinked v c (hheld hmem c hchain) hc
    next => exact h.unlinked v c ⟨hmem, hchain⟩ hc

end

section

omit [DecidableEq Wid]

theorem Filed.newChain (h : Filed s) (hl : Linked s) (hc : s.allocated c = false)
    (req : Request) : Filed (s.newChain c req) := by
  obtain ⟨-, hfree⟩ := hl.fresh hc
  have hother : ∀ d, d ≠ c → (s.newChain c req).chains d = s.chains d := by
    intro d hd
    rw [chains_newChain, Function.update_of_ne hd]
  constructor
  case fds =>
    intro d hd r hr
    rcases eq_or_ne d c with rfl | hne
    · rw [chains_newChain, Function.update_self] at hr ⊢
      rw [List.mem_singleton.mp hr]
    · rw [hother d hne] at hr ⊢
      exact h.fds d ((Function.update_of_ne hne ..).symm.trans hd) r hr
  case hands =>
    intro w hw d r hpc
    have hholds : s.Holds w d := ⟨hw, by rw [show s.pc w = _ from hpc]; rfl⟩
    have hne : d ≠ c := by
      rintro rfl
      exact hfree w hholds
    rw [hother d hne]
    exact h.hands w hw d r hpc
  case unlinked =>
    intro w d hw hd
    have hne : d ≠ c := by
      rintro rfl
      exact hfree w hw
    rw [hother d hne]
    exact h.unlinked w d hw hd

end

section

omit [DecidableEq Cid] [DecidableEq Wid]

theorem Filed.linkWork (h : Filed s) (c : Cid) : Filed (s.linkWork c) where
  fds := h.fds
  hands := h.hands
  unlinked := by
    intro w d hw hd
    refine h.unlinked w d hw fun hold => hd ?_
    exact (linkWork_perm s c).mem_iff.mpr (List.mem_cons_of_mem _ hold)

theorem Filed.linkIdle (h : Filed s) (c : Cid) : Filed (s.linkIdle c) := { h with }

end

section

omit [DecidableEq Cid]

theorem Filed.createWorker (h : Filed s) (hw : w ∉ s.workers) (hc : c ∈ s.workReq) :
    Filed (s.createWorker w c) where
  fds := h.fds
  hands := by
    intro v hv d r hpc
    exact h.hands_update (p := .lock c) rfl (List.mem_cons.mp hv).resolve_left hpc
  unlinked := by
    intro v d hv hd
    rcases (holds_createWorker hw).mp hv with ⟨-, rfl⟩ | hold
    · exact absurd hc hd
    · exact h.unlinked v d hold hd

end

section

omit [DecidableEq Wid]

/-- The requests are canceled and the chain is unlinked, with its worker or without. -/
theorem Filed.cancelWork (h : Filed s) (hc : c ∈ s.workReq) :
    Filed ((s.extractFd c).removeFd c) := by
  rw [extractFd_work hc]
  have hempty : Filed (s.setPerfd c []) := h.setPerfd (fun _ => nofun) fun _ _ _ => rfl
  constructor
  case fds => exact hempty.fds
  case hands => exact hempty.hands
  case unlinked =>
    intro w d hw hd
    rcases eq_or_ne d c with rfl | hne
    · exact perfd_self s d []
    · refine hempty.unlinked w d hw fun hold => hd ?_
      exact (List.mem_erase_of_ne hne).mpr hold

theorem Filed.cancelIdle (h : Filed s) (hl : Linked s) (hc : c ∈ s.idleReq) :
    Filed (((s.extractFd c).freeChain c).removeFd c) := by
  rw [freeChain_idle (hl.notWork hc) hc (hl.allocated c (List.mem_append_right _ hc))]
  have hempty : Filed (s.setPerfd c []) := h.setPerfd (fun _ => nofun) fun _ _ _ => rfl
  constructor
  case fds =>
    intro d hd
    refine hempty.fds d ?_
    rcases eq_or_ne d c with rfl | hne
    · exact absurd ((Function.update_self ..).symm.trans hd) Bool.false_ne_true
    · exact (Function.update_of_ne hne ..).symm.trans hd
  case hands => exact hempty.hands
  case unlinked => exact hempty.unlinked

end

theorem Filed.release (h : Filed s) (hl : Linked s) (hw : s.Holds w c) :
    Filed (s.release w c) where
  fds := by
    intro d hd
    refine h.fds d ?_
    rcases eq_or_ne d c with rfl | hne
    · exact absurd ((Function.update_self ..).symm.trans hd) Bool.false_ne_true
    · exact (Function.update_of_ne hne ..).symm.trans hd
  hands := by
    intro v hv d r hpc
    exact h.hands_update (p := .waitNew) rfl (fun _ => hv) hpc
  unlinked := by
    intro v d hv hd
    obtain ⟨hne, hold⟩ := holds_release.mp hv
    refine h.unlinked v d hold fun hmem => hd ?_
    refine (List.mem_erase_of_ne ?_).mpr hmem
    rintro rfl
    exact hne (hl.single v w d hold hw)

omit [DecidableEq Cid]

theorem Filed.workOnIdle (h : Filed s) {rest : List Cid} (hi : s.idleReq = c :: rest)
    (hw : w ∈ s.workers) (hpc : (s.pc w).chain = none) : Filed (s.workOnIdle w) := by
  have hstep := workOnIdle_cons (s := s) (w := w) hi
  have hwork : (s.workOnIdle w).workReq.Perm (c :: s.workReq) := by
    rw [hstep]
    exact List.perm_orderedInsert ..
  have hchains : (State.workOnIdle s w).chains = s.chains := by rw [hstep]
  constructor
  case fds =>
    rw [hstep]
    exact h.fds
  case hands =>
    rw [hstep]
    intro v hv d r hpc
    exact h.hands_update (p := .lock c) rfl (fun _ => hv) hpc
  case unlinked =>
    intro v d hv hd
    rw [hchains]
    rcases (holds_workOnIdle hi hw hpc).mp hv with ⟨-, rfl⟩ | hold
    · exact absurd (hwork.mem_iff.mpr List.mem_cons_self) hd
    · exact h.unlinked v d hold fun hmem => hd (hwork.mem_iff.mpr (List.mem_cons_of_mem _ hmem))

end Rtems.Aio
