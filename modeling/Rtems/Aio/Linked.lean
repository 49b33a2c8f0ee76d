import Rtems.Aio.Model
import Rtems.Lib.PointUpdate

/-!
# The lists of chains and the workers

What the parts of a step do to the two lists, the heap and the chains that the
workers hold, apart from the requests.
-/

namespace Rtems.Aio

variable {Cid Wid : Type} [DecidableEq Cid] [DecidableEq Wid]
variable {s s' s'' : State Cid Wid} {w w' : Wid} {c c' : Cid} {req : Request}

/-- A worker has a chain. -/
def State.Holds (s : State Cid Wid) (w : Wid) (c : Cid) : Prop :=
  w ∈ s.workers ∧ (s.pc w).chain = some c

/-- The lists, the heap and the workers fit together. -/
structure Linked (s : State Cid Wid) : Prop where
  nodup : (s.workReq ++ s.idleReq).Nodup
  allocated : ∀ c ∈ s.workReq ++ s.idleReq, s.allocated c = true
  workers : s.workers.Nodup
  held : ∀ w c, s.Holds w c → s.allocated c = true ∧ c ∉ s.idleReq
  single : ∀ w w' c, s.Holds w c → s.Holds w' c → w = w'
  fault : s.fault = false

section

omit [DecidableEq Cid] [DecidableEq Wid]

theorem Linked.notWork (h : Linked s) (hc : c ∈ s.idleReq) : c ∉ s.workReq :=
  fun hw => (List.nodup_append.mp h.nodup).2.2 c hw c hc rfl

end

/-! ## Steps that leave the shape alone -/

/-- Nothing but the requests differs, and how far the workers are with their chains. -/
structure SameShape (s s' : State Cid Wid) : Prop where
  workReq : s'.workReq = s.workReq
  idleReq : s'.idleReq = s.idleReq
  activeThreads : s'.activeThreads = s.activeThreads
  idleThreads : s'.idleThreads = s.idleThreads
  fildes : ∀ c, (s'.chains c).fildes = (s.chains c).fildes
  allocated : s'.allocated = s.allocated
  workers : s'.workers = s.workers
  chain : ∀ w, (s'.pc w).chain = (s.pc w).chain
  waitNew : ∀ w, s'.pc w = .waitNew ↔ s.pc w = .waitNew
  fault : s'.fault = s.fault

namespace SameShape

section

omit [DecidableEq Cid] [DecidableEq Wid]

theorem refl (s : State Cid Wid) : SameShape s s :=
  ⟨rfl, rfl, rfl, rfl, fun _ => rfl, rfl, rfl, fun _ => rfl, fun _ => .rfl, rfl⟩

theorem trans (h : SameShape s s') (h' : SameShape s' s'') : SameShape s s'' where
  workReq := h'.workReq.trans h.workReq
  idleReq := h'.idleReq.trans h.idleReq
  activeThreads := h'.activeThreads.trans h.activeThreads
  idleThreads := h'.idleThreads.trans h.idleThreads
  fildes := fun c => (h'.fildes c).trans (h.fildes c)
  allocated := h'.allocated.trans h.allocated
  workers := h'.workers.trans h.workers
  chain := fun w => (h'.chain w).trans (h.chain w)
  waitNew := fun w => (h'.waitNew w).trans (h.waitNew w)
  fault := h'.fault.trans h.fault

theorem holds (h : SameShape s s') : s'.Holds w c ↔ s.Holds w c := by
  unfold State.Holds
  rw [h.workers, h.chain]

theorem linked (h : SameShape s s') (hl : Linked s) : Linked s' where
  nodup := by
    rw [h.workReq, h.idleReq]
    exact hl.nodup
  allocated := by
    rw [h.workReq, h.idleReq, h.allocated]
    exact hl.allocated
  workers := by
    rw [h.workers]
    exact hl.workers
  held := by
    intro w c hw
    rw [h.allocated, h.idleReq]
    exact hl.held w c (h.holds.mp hw)
  single := fun w w' c hw hw' => hl.single w w' c (h.holds.mp hw) (h.holds.mp hw')
  fault := h.fault.trans hl.fault

theorem issue (s : State Cid Wid) (req : Request) : SameShape s (s.issue req) := { refl s with }

theorem accept (s : State Cid Wid) (req : Request) : SameShape s (s.accept req) := { refl s with }

theorem cancelRequests (s : State Cid Wid) (reqs : List Request) :
    SameShape s (s.cancelRequests reqs) := { refl s with }

end

section

omit [DecidableEq Wid]

theorem setPerfd (s : State Cid Wid) (c : Cid) (perfd : List Request) :
    SameShape s (s.setPerfd c perfd) where
  __ := refl s
  fildes := by
    intro d
    show (Function.update s.chains c _ d).fildes = _
    rcases eq_or_ne d c with rfl | hne
    · rw [Function.update_self]
    · rw [Function.update_of_ne hne]

theorem insertPrio (s : State Cid Wid) (c : Cid) (req : Request) :
    SameShape s (s.insertPrio c req) :=
  { setPerfd s c _ with }

theorem removeFd (s : State Cid Wid) (c : Cid) : SameShape s (s.removeFd c) :=
  (setPerfd s c _).trans (cancelRequests _ _)

theorem removeReq (s : State Cid Wid) (c : Cid) (aiocbp : Aiocb) :
    SameShape s (s.removeReq c aiocbp).1 := by
  unfold State.removeReq
  split
  next => exact refl s
  next =>
    split
    next => exact refl s
    next => exact (setPerfd s c _).trans (cancelRequests _ _)

end

section

omit [DecidableEq Cid]

/-- The worker keeps its chain. -/
theorem setPc {p : Pc Cid} (hp : p.chain = some c) (hw : (s.pc w).chain = some c) :
    SameShape s (s.setPc w p) where
  __ := refl s
  chain := by
    intro v
    show (Function.update s.pc w p v).chain = _
    rcases eq_or_ne v w with rfl | hne
    · rw [Function.update_self, hp, hw]
    · rw [Function.update_of_ne hne]
  waitNew := by
    intro v
    show Function.update s.pc w p v = _ ↔ _
    rcases eq_or_ne v w with rfl | hne
    · rw [Function.update_self]
      constructor
      · rintro rfl
        cases hp
      · intro hv
        rw [hv] at hw
        cases hw
    · rw [Function.update_of_ne hne]

end

theorem take (ha : s.allocated c = true) (hpc : s.pc w = .lock c) : SameShape s (s.take w c) := by
  have hw : (s.pc w).chain = some c := by rw [hpc]; rfl
  unfold State.take State.touch
  rw [if_pos ha]
  split
  next => exact setPc rfl hw
  next => exact (setPerfd s c _).trans (setPc rfl hw)

section

omit [DecidableEq Cid]

theorem finish (hpc : s.pc w = .processing c req) (result : Int) (errno : Nat) :
    SameShape s (s.finish w c req result errno) := by
  have hw : (s.pc w).chain = some c := by rw [hpc]; rfl
  have h : SameShape s (s.setPc w (.lock c)) := setPc rfl hw
  exact { h with }

theorem recheck (ha : s.allocated c = true) (hpc : s.pc w = .lockQueue c) :
    SameShape s (s.recheck w c) := by
  have hw : (s.pc w).chain = some c := by rw [hpc]; rfl
  unfold State.recheck State.touch
  rw [if_pos ha]
  split
  next => exact setPc rfl hw
  next => exact setPc rfl hw

end

theorem wakeChain (ha : s.allocated c = true) (hpc : s.pc w = .waitChain c) :
    SameShape s (s.wakeChain w c false) := by
  unfold State.wakeChain State.touch
  rw [if_pos ha, if_neg Bool.false_ne_true]
  exact setPc rfl (by rw [hpc]; rfl)

end SameShape

/-! ## The search -/

section

omit [DecidableEq Cid] [DecidableEq Wid]

theorem searchFd_some {chain : List Cid} {fildes : Int} (h : s.searchFd chain fildes = some c) :
    c ∈ chain ∧ (s.chains c).fildes = fildes := by
  unfold State.searchFd at h
  split at h
  next d hd =>
    split at h
    next heq =>
      cases h
      exact ⟨List.mem_of_find?_eq_some hd, heq⟩
    next => cases h
  next => cases h

/-- On a list in order the search finds the descriptor. -/
theorem searchFd_none {chain : List Cid} {fildes : Int}
    (hs : chain.Pairwise fun a b => (s.chains a).fildes ≤ (s.chains b).fildes)
    (h : s.searchFd chain fildes = none) : ∀ c ∈ chain, (s.chains c).fildes ≠ fildes := by
  induction chain with
  | nil => nofun
  | cons d rest ih =>
    obtain ⟨hd, hrest⟩ := List.pairwise_cons.mp hs
    unfold State.searchFd at h
    rw [List.find?_cons] at h
    rcases lt_trichotomy (s.chains d).fildes fildes with hlt | heq | hgt
    · intro e he
      rcases List.mem_cons.mp he with rfl | he
      · exact hlt.ne
      · refine ih hrest ?_ e he
        unfold State.searchFd
        simpa [hlt] using h
    · simp [heq] at h
    · intro e he
      rcases List.mem_cons.mp he with rfl | he
      · exact hgt.ne'
      · exact (lt_of_lt_of_le hgt (hd e he)).ne'

end

/-! ## New chains and workers -/

section

omit [DecidableEq Wid]

theorem chains_newChain (s : State Cid Wid) (c : Cid) (req : Request) :
    (s.newChain c req).chains = Function.update s.chains c ⟨[req], req.aiocbp.fildes⟩ := by
  show Function.update (Function.update s.chains c _) c
    { Function.update s.chains c _ c with perfd := _ } = _
  rw [Function.update_idem, Function.update_self]

end

section

omit [DecidableEq Cid] [DecidableEq Wid]

theorem linkWork_perm (s : State Cid Wid) (c : Cid) :
    (s.linkWork c).workReq.Perm (c :: s.workReq) :=
  List.perm_orderedInsert ..

theorem linkIdle_perm (s : State Cid Wid) (c : Cid) :
    (s.linkIdle c).idleReq.Perm (c :: s.idleReq) :=
  List.perm_orderedInsert ..

theorem lists_linkWork (s : State Cid Wid) (c : Cid) :
    ((s.linkWork c).workReq ++ (s.linkWork c).idleReq).Perm (c :: (s.workReq ++ s.idleReq)) :=
  (linkWork_perm s c).append_right _

theorem lists_linkIdle (s : State Cid Wid) (c : Cid) :
    ((s.linkIdle c).workReq ++ (s.linkIdle c).idleReq).Perm (c :: (s.workReq ++ s.idleReq)) :=
  ((linkIdle_perm s c).append_left _).trans List.perm_middle

/-- A chain that the heap gives is not in use. -/
theorem Linked.fresh (h : Linked s) (hc : s.allocated c = false) :
    c ∉ s.workReq ++ s.idleReq ∧ ∀ w, ¬ s.Holds w c := by
  constructor
  · intro hmem
    exact absurd (hc.symm.trans (h.allocated c hmem)) Bool.false_ne_true
  · intro w hw
    exact absurd (hc.symm.trans (h.held w c hw).1) Bool.false_ne_true

end

section

omit [DecidableEq Wid]

theorem Linked.newChain (h : Linked s) (c : Cid) (req : Request) : Linked (s.newChain c req) where
  nodup := h.nodup
  allocated := by
    intro d hd
    show Function.update s.allocated c true d = true
    rcases eq_or_ne d c with rfl | hne
    · exact Function.update_self ..
    · exact (Function.update_of_ne hne ..).trans (h.allocated d hd)
  workers := h.workers
  held := by
    intro w d hw
    refine ⟨?_, (h.held w d hw).2⟩
    show Function.update s.allocated c true d = true
    rcases eq_or_ne d c with rfl | hne
    · exact Function.update_self ..
    · exact (Function.update_of_ne hne ..).trans (h.held w d hw).1
  single := h.single
  fault := h.fault

end

section

omit [DecidableEq Cid] [DecidableEq Wid]

theorem Linked.linkWork (h : Linked s) (hc : c ∉ s.workReq ++ s.idleReq)
    (ha : s.allocated c = true) : Linked (s.linkWork c) where
  nodup := (lists_linkWork s c).nodup_iff.mpr (List.nodup_cons.mpr ⟨hc, h.nodup⟩)
  allocated := by
    intro d hd
    rcases List.mem_cons.mp ((lists_linkWork s c).mem_iff.mp hd) with rfl | hd
    · exact ha
    · exact h.allocated d hd
  workers := h.workers
  held := h.held
  single := h.single
  fault := h.fault

theorem Linked.linkIdle (h : Linked s) (hc : c ∉ s.workReq ++ s.idleReq)
    (ha : s.allocated c = true) (hw : ∀ w, ¬ s.Holds w c) : Linked (s.linkIdle c) where
  nodup := (lists_linkIdle s c).nodup_iff.mpr (List.nodup_cons.mpr ⟨hc, h.nodup⟩)
  allocated := by
    intro d hd
    rcases List.mem_cons.mp ((lists_linkIdle s c).mem_iff.mp hd) with rfl | hd
    · exact ha
    · exact h.allocated d hd
  workers := h.workers
  held := by
    intro v d hv
    refine ⟨(h.held v d hv).1, fun hd => ?_⟩
    rcases List.mem_cons.mp ((linkIdle_perm s c).mem_iff.mp hd) with rfl | hd
    · exact hw v hv
    · exact (h.held v d hv).2 hd
  single := h.single
  fault := h.fault

end

section

omit [DecidableEq Cid]

/-- Who has a chain when one worker gets to another place. -/
theorem holds_update {p : Pc Cid} (hpc : s'.pc = Function.update s.pc w p) {v : Wid} :
    s'.Holds v c ↔
      v ∈ s'.workers ∧ if v = w then p.chain = some c else (s.pc v).chain = some c := by
  unfold State.Holds
  rw [hpc]
  rcases eq_or_ne v w with rfl | hne
  · rw [Function.update_self, if_pos rfl]
  · rw [Function.update_of_ne hne, if_neg hne]

/-- The chains that the workers have with a new one. -/
theorem holds_createWorker (hw : w ∉ s.workers) {v : Wid} {d : Cid} :
    (s.createWorker w c).Holds v d ↔ v = w ∧ d = c ∨ s.Holds v d := by
  have hmem : v ∈ (s.createWorker w c).workers ↔ v = w ∨ v ∈ s.workers := List.mem_cons
  rw [holds_update (s := s) (w := w) (p := .lock c) rfl, hmem]
  split
  next heq =>
    subst heq
    constructor
    · rintro ⟨-, hd⟩
      exact .inl ⟨rfl, (Option.some.inj hd).symm⟩
    · rintro (⟨-, rfl⟩ | hold)
      · exact ⟨.inl rfl, rfl⟩
      · exact absurd hold.1 hw
  next hne =>
    constructor
    · rintro ⟨rfl | hmem, hd⟩
      · exact absurd rfl hne
      · exact .inr ⟨hmem, hd⟩
    · rintro (⟨rfl, -⟩ | hold)
      · exact absurd rfl hne
      · exact ⟨.inr hold.1, hold.2⟩

theorem Linked.createWorker (h : Linked s) (hw : w ∉ s.workers) (ha : s.allocated c = true)
    (hc : c ∉ s.idleReq) (hfree : ∀ v, ¬ s.Holds v c) : Linked (s.createWorker w c) where
  nodup := h.nodup
  allocated := h.allocated
  workers := List.nodup_cons.mpr ⟨hw, h.workers⟩
  held := by
    intro v d hv
    rcases (holds_createWorker hw).mp hv with ⟨-, rfl⟩ | hv
    · exact ⟨ha, hc⟩
    · exact h.held v d hv
  single := by
    intro v v' d hv hv'
    rcases (holds_createWorker hw).mp hv with ⟨rfl, rfl⟩ | hold
    · rcases (holds_createWorker hw).mp hv' with ⟨rfl, -⟩ | hold'
      · rfl
      · exact absurd hold' (hfree v')
    · rcases (holds_createWorker hw).mp hv' with ⟨-, rfl⟩ | hold'
      · exact absurd hold (hfree v)
      · exact h.single v v' d hold hold'
  fault := h.fault

end

/-! ## Chains that go -/

section

omit [DecidableEq Wid]

theorem extractFd_work (hc : c ∈ s.workReq) :
    s.extractFd c = { s with workReq := s.workReq.erase c } :=
  if_pos hc

theorem extractFd_idle (hw : c ∉ s.workReq) (hc : c ∈ s.idleReq) :
    s.extractFd c = { s with idleReq := s.idleReq.erase c } :=
  (if_neg hw).trans (if_pos hc)

theorem freeChain_work (hc : c ∈ s.workReq) (ha : s.allocated c = true) :
    (s.extractFd c).freeChain c =
      { s with
        workReq := s.workReq.erase c
        allocated := Function.update s.allocated c false } := by
  rw [extractFd_work hc]
  exact if_pos ha

theorem freeChain_idle (hw : c ∉ s.workReq) (hc : c ∈ s.idleReq) (ha : s.allocated c = true) :
    (s.extractFd c).freeChain c =
      { s with
        idleReq := s.idleReq.erase c
        allocated := Function.update s.allocated c false } := by
  rw [extractFd_idle hw hc]
  exact if_pos ha

theorem Linked.extractWork (h : Linked s) (hc : c ∈ s.workReq) : Linked (s.extractFd c) := by
  rw [extractFd_work hc]
  have hsub : (s.workReq.erase c ++ s.idleReq).Sublist (s.workReq ++ s.idleReq) :=
    List.erase_sublist.append_right _
  exact { h with
    nodup := h.nodup.sublist hsub
    allocated := fun d hd => h.allocated d (hsub.subset hd) }

/-- A chain of the idle list is no worker's, so it can be freed. -/
theorem Linked.freeIdle (h : Linked s) (hc : c ∈ s.idleReq) :
    Linked ((s.extractFd c).freeChain c) := by
  have ha : s.allocated c = true := h.allocated c (List.mem_append_right _ hc)
  rw [freeChain_idle (h.notWork hc) hc ha]
  have hidle : s.idleReq.Nodup := h.nodup.sublist (List.sublist_append_right ..)
  have hsub : (s.workReq ++ s.idleReq.erase c).Sublist (s.workReq ++ s.idleReq) :=
    List.erase_sublist.append_left _
  constructor
  case nodup => exact h.nodup.sublist hsub
  case allocated =>
    intro d hd
    have hne : d ≠ c := by
      rintro rfl
      rcases List.mem_append.mp hd with hd | hd
      · exact h.notWork hc hd
      · exact hidle.not_mem_erase hd
    exact (Function.update_of_ne hne ..).trans (h.allocated d (hsub.subset hd))
  case workers => exact h.workers
  case held =>
    intro w d hw
    obtain ⟨hd, hnot⟩ := h.held w d hw
    have hne : d ≠ c := by
      rintro rfl
      exact hnot hc
    exact ⟨(Function.update_of_ne hne ..).trans hd, fun hd => hnot (List.mem_of_mem_erase hd)⟩
  case single => exact h.single
  case fault => exact h.fault

end

/-- The worker gives its chain back to the heap. -/
def State.release (s : State Cid Wid) (w : Wid) (c : Cid) : State Cid Wid :=
  { s with
    workReq := s.workReq.erase c
    allocated := Function.update s.allocated c false
    pc := Function.update s.pc w .waitNew }

section

omit [DecidableEq Cid]

theorem workOnIdle_cons {rest : List Cid} (hi : s.idleReq = c :: rest) :
    s.workOnIdle w =
      { s with
        idleThreads := s.idleThreads - 1
        activeThreads := s.activeThreads + 1
        idleReq := rest
        workReq := s.insertFd c s.workReq
        pc := Function.update s.pc w (.lock c) } := by
  unfold State.workOnIdle
  dsimp only
  rw [hi]
  rfl

/-- Where the worker was does not matter. -/
theorem workOnIdle_setPc (hi : s.idleReq ≠ []) (w : Wid) (p : Pc Cid) :
    (s.setPc w p).workOnIdle w = s.workOnIdle w := by
  obtain ⟨c, rest, hi⟩ := List.exists_cons_of_ne_nil hi
  rw [workOnIdle_cons hi, workOnIdle_cons (s := s.setPc w p) hi]
  unfold State.setPc
  simp only [Function.update_idem]
  rfl

end

theorem wakeChain_timedOut (ha : s.allocated c = true) (hc : c ∈ s.workReq) :
    s.wakeChain w c true =
      if s.idleReq = [] then
        { s.release w c with
          idleThreads := s.idleThreads + 1
          activeThreads := s.activeThreads - 1 }
      else (s.release w c).workOnIdle w := by
  unfold State.wakeChain State.touch
  rw [if_pos ha, if_pos rfl, freeChain_work hc ha]
  dsimp only
  split
  next => rfl
  next hne =>
    refine (workOnIdle_setPc ?_ w .waitNew).symm
    exact hne

theorem holds_release {v : Wid} {d : Cid} :
    (s.release w c).Holds v d ↔ v ≠ w ∧ s.Holds v d := by
  rw [holds_update (s := s) (w := w) (p := .waitNew) rfl]
  split
  next heq => exact ⟨nofun, fun h => absurd heq h.1⟩
  next hne => exact ⟨fun h => ⟨hne, h⟩, fun h => h.2⟩

theorem Linked.release (h : Linked s) (hw : s.Holds w c) : Linked (s.release w c) where
  nodup := h.nodup.sublist (List.erase_sublist.append_right _)
  allocated := by
    intro d hd
    have hwork : s.workReq.Nodup := h.nodup.sublist (List.sublist_append_left ..)
    have hne : d ≠ c := by
      rintro rfl
      rcases List.mem_append.mp hd with hd | hd
      · exact hwork.not_mem_erase hd
      · exact (h.held w d hw).2 hd
    have hold : d ∈ s.workReq ++ s.idleReq :=
      (List.erase_sublist.append_right _).subset hd
    exact (Function.update_of_ne hne ..).trans (h.allocated d hold)
  workers := h.workers
  held := by
    intro v d hv
    obtain ⟨hvw, hold⟩ := holds_release.mp hv
    have hne : d ≠ c := by
      rintro rfl
      exact hvw (h.single v w d hold hw)
    exact ⟨(Function.update_of_ne hne ..).trans (h.held v d hold).1, (h.held v d hold).2⟩
  single := by
    intro v v' d hv hv'
    exact h.single v v' d (holds_release.mp hv).2 (holds_release.mp hv').2
  fault := h.fault

section

omit [DecidableEq Cid]

theorem holds_workOnIdle {rest : List Cid} (hi : s.idleReq = c :: rest) (hw : w ∈ s.workers)
    (hpc : (s.pc w).chain = none) {v : Wid} {d : Cid} :
    (s.workOnIdle w).Holds v d ↔ v = w ∧ d = c ∨ s.Holds v d := by
  rw [workOnIdle_cons hi, holds_update (s := s) (w := w) (p := .lock c) rfl]
  split
  next heq =>
    subst heq
    constructor
    · rintro ⟨-, hd⟩
      exact .inl ⟨rfl, (Option.some.inj hd).symm⟩
    · rintro (⟨-, rfl⟩ | hold)
      · exact ⟨hw, rfl⟩
      · exact absurd (hpc.symm.trans hold.2) nofun
  next hne =>
    constructor
    · exact .inr
    · rintro (⟨rfl, -⟩ | hold)
      · exact absurd rfl hne
      · exact hold

/-- The first chain of the idle list goes to the work list. -/
theorem lists_workOnIdle {rest : List Cid} (hi : s.idleReq = c :: rest) :
    ((s.workOnIdle w).workReq ++ (s.workOnIdle w).idleReq).Perm (s.workReq ++ s.idleReq) := by
  rw [workOnIdle_cons hi, hi]
  exact ((List.perm_orderedInsert ..).append_right rest).trans List.perm_middle.symm

theorem Linked.workOnIdle (h : Linked s) (hi : s.idleReq ≠ []) (hw : w ∈ s.workers)
    (hpc : (s.pc w).chain = none) : Linked (s.workOnIdle w) := by
  obtain ⟨c, rest, hi⟩ := List.exists_cons_of_ne_nil hi
  have hlists := lists_workOnIdle (s := s) (w := w) hi
  have hc : c ∈ s.idleReq := by
    rw [hi]
    exact List.mem_cons_self
  have hstep := workOnIdle_cons (s := s) (w := w) hi
  have hnodup : (s.idleReq).Nodup := h.nodup.sublist (List.sublist_append_right ..)
  have hrest : (State.workOnIdle s w).idleReq = rest := by rw [hstep]
  have halloc : (State.workOnIdle s w).allocated = s.allocated := by rw [hstep]
  rw [hi] at hnodup
  constructor
  case nodup => exact hlists.nodup_iff.mpr h.nodup
  case allocated =>
    intro d hd
    rw [halloc]
    exact h.allocated d (hlists.mem_iff.mp hd)
  case workers =>
    rw [hstep]
    exact h.workers
  case held =>
    intro v d hv
    rw [hrest, halloc]
    rcases (holds_workOnIdle hi hw hpc).mp hv with ⟨-, rfl⟩ | hold
    · exact ⟨h.allocated d (List.mem_append_right _ hc), (List.nodup_cons.mp hnodup).1⟩
    · refine ⟨(h.held v d hold).1, fun hd => (h.held v d hold).2 ?_⟩
      rw [hi]
      exact List.mem_cons_of_mem _ hd
  case single =>
    intro v v' d hv hv'
    rcases (holds_workOnIdle hi hw hpc).mp hv with ⟨rfl, rfl⟩ | hold
    · rcases (holds_workOnIdle hi hw hpc).mp hv' with ⟨rfl, -⟩ | hold'
      · rfl
      · exact absurd hc (h.held v' d hold').2
    · rcases (holds_workOnIdle hi hw hpc).mp hv' with ⟨-, rfl⟩ | hold'
      · exact absurd hc (h.held v d hold).2
      · exact h.single v v' d hold hold'
  case fault =>
    rw [hstep]
    exact h.fault

end

/-! ## Calls and workers -/

/-- What `rtems_aio_enqueue` does: the request goes to a chain that there is, or to a new chain of
one of the lists. -/
theorem enqueue_cases (s : State Cid Wid) (req : Request) (c : Cid) (thread : Option Wid) :
    (∃ d ∈ s.workReq ++ s.idleReq, (s.chains d).fildes = req.aiocbp.fildes ∧
      (s.enqueue req c thread).1 = ((s.issue req).insertPrio d req).accept req) ∨
    s.searchFd s.workReq req.aiocbp.fildes = none ∧
      ((thread = none ∧
          (s.enqueue req c thread).1 = ((s.issue req).newChain c req).linkWork c) ∨
        (∃ w, thread = some w ∧ s.idleThreads = 0 ∧ s.activeThreads < aioMaxThreads ∧
          (s.enqueue req c thread).1 =
            ((((s.issue req).newChain c req).linkWork c).createWorker w c).accept req) ∨
        (s.enqueue req c thread).1 =
          (((s.issue req).newChain c req).linkIdle c).accept req) := by
  have hsearch : ∀ chain fildes,
      (s.issue req).searchFd chain fildes = s.searchFd chain fildes := fun _ _ => rfl
  unfold State.enqueue
  dsimp only
  rw [hsearch, hsearch]
  split
  next hthreads =>
    split
    next hnone =>
      refine .inr ⟨hnone, ?_⟩
      cases thread with
      | none => exact .inl ⟨rfl, rfl⟩
      | some w => exact .inr (.inl ⟨w, rfl, hthreads.1, hthreads.2, rfl⟩)
    next d hd =>
      obtain ⟨hmem, hfd⟩ := searchFd_some hd
      exact .inl ⟨d, List.mem_append_left _ hmem, hfd, rfl⟩
  next =>
    split
    next d hd =>
      obtain ⟨hmem, hfd⟩ := searchFd_some hd
      exact .inl ⟨d, List.mem_append_left _ hmem, hfd, rfl⟩
    next hnone =>
      split
      next => exact .inr ⟨hnone, .inr (.inr rfl)⟩
      next d hd =>
        obtain ⟨hmem, hfd⟩ := searchFd_some hd
        exact .inl ⟨d, List.mem_append_right _ hmem, hfd, rfl⟩

section

omit [DecidableEq Wid]

theorem freeChain_removeFd (s : State Cid Wid) (c : Cid) :
    (s.removeFd c).freeChain c = (s.freeChain c).removeFd c := by
  unfold State.freeChain
  rw [show (s.removeFd c).allocated = s.allocated from rfl]
  split
  next => rfl
  next => rfl

/-- What `aio_cancel` does: nothing, a chain goes, or a request goes. -/
theorem cancel_cases (s : State Cid Wid) (fildes : Int) (aiocbp : Option Aiocb) (valid : Bool) :
    (s.cancel fildes aiocbp valid).1 = s ∨
    (∃ c ∈ s.workReq, (s.chains c).fildes = fildes ∧
      (s.cancel fildes aiocbp valid).1 = (s.extractFd c).removeFd c) ∨
    (∃ c ∈ s.idleReq, (s.chains c).fildes = fildes ∧
      (s.cancel fildes aiocbp valid).1 = ((s.extractFd c).freeChain c).removeFd c) ∨
    ∃ c ∈ s.workReq ++ s.idleReq, (s.chains c).fildes = fildes ∧ ∃ block,
      (s.cancel fildes aiocbp valid).1 = (s.removeReq c block).1 := by
  unfold State.cancel
  split
  next => exact .inl rfl
  next =>
    cases aiocbp with
    | none =>
      dsimp only
      split
      next =>
        split
        next =>
          split
          next => exact .inl rfl
          next c hc =>
            obtain ⟨hmem, hfd⟩ := searchFd_some hc
            exact .inr (.inr (.inl ⟨c, hmem, hfd, freeChain_removeFd ..⟩))
        next => exact .inl rfl
      next c hc =>
        obtain ⟨hmem, hfd⟩ := searchFd_some hc
        exact .inr (.inl ⟨c, hmem, hfd, rfl⟩)
    | some block =>
      dsimp only
      split
      next => exact .inl rfl
      next =>
        split
        next =>
          split
          next =>
            split
            next => exact .inl rfl
            next c hc =>
              obtain ⟨hmem, hfd⟩ := searchFd_some hc
              have hmem := List.mem_append_right s.workReq hmem
              exact .inr (.inr (.inr ⟨c, hmem, hfd, block, rfl⟩))
          next => exact .inl rfl
        next c hc =>
          obtain ⟨hmem, hfd⟩ := searchFd_some hc
          have hmem := List.mem_append_left s.idleReq hmem
          exact .inr (.inr (.inr ⟨c, hmem, hfd, block, rfl⟩))

end

theorem Linked.enqueue (h : Linked s) (hc : s.allocated c = false) {thread : Option Wid}
    (hw : ∀ w, thread = some w → w ∉ s.workers) : Linked (s.enqueue req c thread).1 := by
  have hissue : Linked (s.issue req) := (SameShape.issue s req).linked h
  obtain ⟨hlists, hfree⟩ := hissue.fresh hc
  have hnew : Linked ((s.issue req).newChain c req) := hissue.newChain c req
  have ha : ((s.issue req).newChain c req).allocated c = true := Function.update_self ..
  rcases enqueue_cases s req c thread with
    ⟨d, -, -, heq⟩ | ⟨-, ⟨-, heq⟩ | ⟨w, hthread, -, -, heq⟩ | heq⟩
  · rw [heq]
    exact (SameShape.accept _ _).linked ((SameShape.insertPrio _ _ _).linked hissue)
  · rw [heq]
    exact hnew.linkWork hlists ha
  · rw [heq]
    refine (SameShape.accept _ _).linked ((hnew.linkWork hlists ha).createWorker ?_ ha ?_ hfree)
    · exact hw w hthread
    · exact fun hd => hlists (List.mem_append_right _ hd)
  · rw [heq]
    exact (SameShape.accept _ _).linked (hnew.linkIdle hlists ha hfree)

section

omit [DecidableEq Wid]

theorem Linked.cancel (h : Linked s) (fildes : Int) (aiocbp : Option Aiocb) (valid : Bool) :
    Linked (s.cancel fildes aiocbp valid).1 := by
  rcases cancel_cases s fildes aiocbp valid with
    heq | ⟨c, hc, -, heq⟩ | ⟨c, hc, -, heq⟩ | ⟨c, hc, -, block, heq⟩
  · rw [heq]
    exact h
  · rw [heq]
    exact (SameShape.removeFd _ _).linked (h.extractWork hc)
  · rw [heq]
    exact (SameShape.removeFd _ _).linked (h.freeIdle hc)
  · rw [heq]
    exact (SameShape.removeReq _ _ _).linked h

end

/-- The end of a wait for a request, in a state where the worker has its chain. -/
theorem Linked.wakeChain (h : Linked s) (hw : w ∈ s.workers) (hpc : s.pc w = .waitChain c)
    {timedOut : Bool} (hc : timedOut = true → c ∈ s.workReq) :
    Linked (s.wakeChain w c timedOut) := by
  have hholds : s.Holds w c := ⟨hw, by rw [hpc]; rfl⟩
  have ha : s.allocated c = true := (h.held w c hholds).1
  cases timedOut with
  | false => exact (SameShape.wakeChain ha hpc).linked h
  | true =>
    rw [wakeChain_timedOut ha (hc rfl)]
    split
    next =>
      have hrelease := h.release hholds
      exact { hrelease with }
    next hi =>
      refine (h.release hholds).workOnIdle hi hw ?_
      show (Function.update s.pc w .waitNew w).chain = none
      rw [Function.update_self]
      rfl

section

omit [DecidableEq Cid]

theorem Linked.wakeNew (h : Linked s) (hw : w ∈ s.workers) (hpc : s.pc w = .waitNew)
    {timedOut : Bool} (hi : timedOut = false → s.idleReq ≠ []) :
    Linked (s.wakeNew w timedOut) := by
  cases timedOut with
  | false =>
    refine h.workOnIdle (hi rfl) hw ?_
    rw [hpc]
    rfl
  | true =>
    have hholds : ∀ v d, (s.wakeNew w true).Holds v d → s.Holds v d := by
      intro v d hv
      have hv := (holds_update (s := s) (w := w) (p := .finished) rfl).mp hv
      split at hv
      next => exact absurd hv.2 nofun
      next => exact hv
    exact { h with
      held := fun v d hv => h.held v d (hholds v d hv)
      single := fun v v' d hv hv' => h.single v v' d (hholds v d hv) (hholds v' d hv') }

end

omit [DecidableEq Cid] [DecidableEq Wid]

theorem linked_initial (chains : Cid → RequestChain) (pc : Wid → Pc Cid)
    (outcome : Request → Outcome) : Linked (initial chains pc outcome) where
  nodup := List.nodup_nil
  allocated := nofun
  workers := List.nodup_nil
  held := fun _ _ h => nomatch h.1
  single := fun _ _ _ h => nomatch h.1
  fault := rfl

end Rtems.Aio

/-!
## One worker for a descriptor

The work list is in the order of the descriptors, so a search finds a chain that
is on it, and two workers have chains of two descriptors.
-/

namespace Rtems.Aio

variable {Cid Wid : Type} [DecidableEq Cid] [DecidableEq Wid]
variable {s s' : State Cid Wid} {w : Wid} {c : Cid} {req : Request}

/-- The work list is in order. -/
def State.InOrder (s : State Cid Wid) : Prop :=
  s.workReq.Pairwise fun a b => (s.chains a).fildes ≤ (s.chains b).fildes

/-- No two workers have chains of one descriptor. -/
structure Apart (s : State Cid Wid) : Prop where
  inOrder : s.InOrder
  apart : ∀ w w' c c', s.Holds w c → s.Holds w' c' →
    (s.chains c).fildes = (s.chains c').fildes → w = w'

/-- No worker has a chain of the descriptor. -/
def State.Unserved (s : State Cid Wid) (fildes : Int) : Prop :=
  ∀ w c, s.Holds w c → (s.chains c).fildes ≠ fildes

section

omit [DecidableEq Cid] [DecidableEq Wid]

/-- What a search needs to know is the descriptors of the chains on the list. -/
theorem State.InOrder.congr (h : s.InOrder) (hwork : s'.workReq.Sublist s.workReq)
    (hfd : ∀ c ∈ s.workReq, (s'.chains c).fildes = (s.chains c).fildes) : s'.InOrder := by
  have hold := h.sublist hwork
  refine hold.imp_of_mem ?_
  intro a b ha hb hab
  rw [hfd a (hwork.subset ha), hfd b (hwork.subset hb)]
  exact hab

theorem State.InOrder.linkWork (h : s.InOrder) (c : Cid) : (s.linkWork c).InOrder := by
  have htotal : Std.Total fun a b => (s.chains a).fildes ≤ (s.chains b).fildes :=
    ⟨fun _ _ => le_total ..⟩
  have htrans : IsTrans Cid fun a b => (s.chains a).fildes ≤ (s.chains b).fildes :=
    ⟨fun _ _ _ => le_trans⟩
  exact List.Pairwise.orderedInsert c _ h

/-- The workers have no more chains than before, and the descriptors are the same. -/
theorem Apart.congr (h : Apart s) (horder : s'.InOrder) (hholds : ∀ w c, s'.Holds w c → s.Holds w c)
    (hfd : ∀ w c, s'.Holds w c → (s'.chains c).fildes = (s.chains c).fildes) : Apart s' where
  inOrder := horder
  apart := by
    intro w w' c c' hw hw' heq
    rw [hfd w c hw, hfd w' c' hw'] at heq
    exact h.apart w w' c c' (hholds w c hw) (hholds w' c' hw') heq

/-- One worker gets a chain of a descriptor that is not served. -/
theorem Apart.serve (h : Apart s) (horder : s'.InOrder)
    (hholds : ∀ v d, s'.Holds v d → v = w ∧ d = c ∨ s.Holds v d)
    (hfd : ∀ d, (s'.chains d).fildes = (s.chains d).fildes)
    (hc : s.Unserved (s.chains c).fildes) : Apart s' where
  inOrder := horder
  apart := by
    intro v v' d d' hv hv' heq
    rw [hfd, hfd] at heq
    rcases hholds v d hv with ⟨rfl, rfl⟩ | hold
    · rcases hholds v' d' hv' with ⟨rfl, -⟩ | hold'
      · rfl
      · exact absurd heq.symm (hc v' d' hold')
    · rcases hholds v' d' hv' with ⟨-, rfl⟩ | hold'
      · exact absurd heq (hc v d hold)
      · exact h.apart v v' d d' hold hold' heq

theorem SameShape.apart (h : SameShape s s') (ha : Apart s) : Apart s' := by
  refine ha.congr (ha.inOrder.congr ?_ fun c _ => h.fildes c) ?_ fun _ c _ => h.fildes c
  · rw [h.workReq]
  · exact fun w c hw => h.holds.mp hw

end

/-! ## The parts of a step -/

section

omit [DecidableEq Wid]

theorem fildes_newChain (s : State Cid Wid) (req : Request) {d : Cid} (hd : d ≠ c) :
    ((s.newChain c req).chains d).fildes = (s.chains d).fildes := by
  rw [chains_newChain, Function.update_of_ne hd]

theorem Apart.newChain (h : Apart s) (hl : Linked s) (hc : s.allocated c = false) (req : Request) :
    Apart (s.newChain c req) := by
  obtain ⟨hlists, hfree⟩ := hl.fresh hc
  refine h.congr (h.inOrder.congr (List.Sublist.refl _) ?_) (fun _ _ hw => hw) ?_
  · intro d hd
    refine fildes_newChain s req ?_
    rintro rfl
    exact hlists (List.mem_append_left _ hd)
  · intro w d hw
    refine fildes_newChain s req ?_
    rintro rfl
    exact hfree w hw

end

section

omit [DecidableEq Cid] [DecidableEq Wid]

theorem Apart.linkWork (h : Apart s) (c : Cid) : Apart (s.linkWork c) :=
  ⟨h.inOrder.linkWork c, h.apart⟩

theorem Apart.linkIdle (h : Apart s) (c : Cid) : Apart (s.linkIdle c) := ⟨h.inOrder, h.apart⟩

end

section

omit [DecidableEq Cid]

theorem Apart.createWorker (h : Apart s) (hw : w ∉ s.workers)
    (hc : s.Unserved (s.chains c).fildes) : Apart (s.createWorker w c) :=
  h.serve h.inOrder (fun _ _ hv => (holds_createWorker hw).mp hv) (fun _ => rfl) hc

end

section

omit [DecidableEq Wid]

theorem Apart.extractWork (h : Apart s) (hc : c ∈ s.workReq) : Apart (s.extractFd c) := by
  rw [extractFd_work hc]
  exact ⟨h.inOrder.congr List.erase_sublist fun _ _ => rfl, h.apart⟩

theorem Apart.freeIdle (h : Apart s) (hw : c ∉ s.workReq) (hc : c ∈ s.idleReq)
    (ha : s.allocated c = true) : Apart ((s.extractFd c).freeChain c) := by
  rw [freeChain_idle hw hc ha]
  exact ⟨h.inOrder, h.apart⟩

end

theorem Apart.release (h : Apart s) (w : Wid) (c : Cid) : Apart (s.release w c) :=
  h.congr (h.inOrder.congr List.erase_sublist fun _ _ => rfl)
    (fun _ _ hv => (holds_release.mp hv).2) fun _ _ _ => rfl

omit [DecidableEq Cid]

theorem Apart.workOnIdle (h : Apart s) {rest : List Cid} (hi : s.idleReq = c :: rest)
    (hw : w ∈ s.workers) (hpc : (s.pc w).chain = none)
    (hc : s.Unserved (s.chains c).fildes) : Apart (s.workOnIdle w) := by
  have hstep := workOnIdle_cons (s := s) (w := w) hi
  have horder : (s.workOnIdle w).InOrder := by
    rw [hstep]
    exact h.inOrder.linkWork c
  have hfd : ∀ d, ((State.workOnIdle s w).chains d).fildes = (s.chains d).fildes := by
    rw [hstep]
    exact fun _ => rfl
  exact h.serve horder (fun v d hv => (holds_workOnIdle hi hw hpc).mp hv) hfd hc

/-- The worker has ended. -/
theorem Apart.wakeNew (h : Apart s) (w : Wid) : Apart (s.wakeNew w true) := by
  refine h.congr h.inOrder ?_ fun _ _ _ => rfl
  intro v d hv
  have hv := (holds_update (s := s) (w := w) (p := .finished) rfl).mp hv
  split at hv
  next => exact absurd hv.2 nofun
  next => exact hv

end Rtems.Aio
