import Rtems.Mqueue.Calls

/-!
# What `mq_close` and `mq_unlink` do

A descriptor or a name goes, and with the last of them the queue.
-/

namespace Rtems.Mqueue

variable {c : Limits} {s s' s₀ : State} {a : Answers} {d q i : Nat} {name : Name} {oflag : Oflag}
  {attr : Option MqAttr} {o : Option Name} {e : Errno}

/-! ## Closing -/

/-- The deletion of a queue does not look at the descriptors. -/
theorem delete_fds (s : State) (q n : Nat) (x : Class) :
    { delete s q with lock := n, fds := x } = delete { s with lock := n, fds := x } q := by
  unfold delete
  dsimp only
  split
  next =>
    unfold State.namespaceRemove
    dsimp only
    cases (s.queue q).name with
    | none => rfl
    | some _ => rfl
  next => rfl

@[simp] theorem delete_lock (s : State) (q : Nat) : (delete s q).lock = s.lock := by
  unfold delete State.namespaceRemove
  split
  next =>
    dsimp only
    cases (s.queue q).name with
    | none => rfl
    | some _ => rfl
  next => rfl

@[simp] theorem fds_delete (s : State) (q : Nat) : (delete s q).fds = s.fds := by
  unfold delete State.namespaceRemove
  split
  next =>
    dsimp only
    cases (s.queue q).name with
    | none => rfl
    | some _ => rfl
  next => rfl

theorem delete_unlock (s : State) (q : Nat) :
    (delete s q).allocatorUnlock = delete s.allocatorUnlock q := by
  have h := delete_fds s q (s.lock - 1) s.fds
  have hlock := delete_lock s q
  have hfds := fds_delete s q
  rw [← hlock, ← hfds] at h
  refine Eq.trans ?_ (h.trans ?_)
  · rfl
  · rw [hlock, hfds]
    rfl

/-- A descriptor goes, and its queue has one less. -/
theorem Blocks.closeFd (h : Blocks c s) (hd : d ∈ s.fds.allocated) :
    Blocks c { s with
      fds := ⟨s.fds.allocated.erase d, Function.update s.fds.localTable d false⟩
      queue := Function.update s.queue (s.fd d).queue { s.queue (s.fd d).queue with
        openCount := (s.queue (s.fd d).queue).openCount - 1 } } := by
  obtain ⟨q, hq⟩ : ∃ q, (s.fd d).queue = q := ⟨_, rfl⟩
  rw [hq]
  have hmem : ∀ i, i ∈ s.fds.allocated.erase d ↔ i ≠ d ∧ i ∈ s.fds.allocated :=
    fun i => h.fdNodup.mem_erase_iff
  -- all but the count of the descriptors stays as it was
  have hname : ∀ i, (Function.update s.queue q { s.queue q with
      openCount := (s.queue q).openCount - 1 } i).name = (s.queue i).name := by
    intro i
    rcases eq_or_ne i q with rfl | hne
    · rw [Function.update_self]
    · rw [Function.update_of_ne hne]
  have hlinked : ∀ i, (Function.update s.queue q { s.queue q with
      openCount := (s.queue q).openCount - 1 } i).linked = (s.queue i).linked := by
    intro i
    rcases eq_or_ne i q with rfl | hne
    · rw [Function.update_self]
    · rw [Function.update_of_ne hne]
  have hserial : ∀ i, (Function.update s.queue q { s.queue q with
      openCount := (s.queue q).openCount - 1 } i).serial = (s.queue i).serial := by
    intro i
    rcases eq_or_ne i q with rfl | hne
    · rw [Function.update_self]
    · rw [Function.update_of_ne hne]
  constructor
  case fdNodup => exact h.fdNodup.erase d
  case fdOpen =>
    intro i
    show Function.update s.fds.localTable d false i = true ↔ i ∈ s.fds.allocated.erase d
    rw [hmem]
    rcases eq_or_ne i d with rfl | hne
    · simp
    · simp [hne, h.fdOpen i]
  case queueNodup => exact h.queueNodup
  case queueOpen => exact h.queueOpen
  case range => exact h.range
  case refers =>
    intro i hi
    obtain ⟨h1, h2⟩ := h.refers i ((hmem i).mp hi).2
    exact ⟨h1, h2.trans (hserial _).symm⟩
  case count =>
    intro i hi
    show (Function.update s.queue q _ i).openCount = (s.fds.allocated.erase d).countP _
    rw [List.countP_erase]
    have hcount := h.count i hi
    rcases eq_or_ne i q with rfl | hne
    · rw [Function.update_self, if_pos ⟨hd, decide_eq_true hq⟩]
      exact congrArg (· - 1) hcount
    · have hnot : ¬ (d ∈ s.fds.allocated ∧ decide ((s.fd d).queue = i) = true) := by
        rw [hq]
        simp [hne.symm]
      rw [Function.update_of_ne hne, if_neg hnot]
      exact hcount
  case linked =>
    intro i hi
    dsimp only
    rw [hlinked, hname]
    exact h.linked i hi
  case names =>
    refine h.names.trans (List.countP_congr ?_)
    intro i _
    dsimp only
    rw [hname]
  case distinct =>
    intro i hi j hj n n' h1 h2
    exact h.distinct i hi j hj n n' ((hname i).symm.trans h1) ((hname j).symm.trans h2)
  case serial => exact fun i hi => (hserial i).symm ▸ h.serial i hi
  case serialInj =>
    intro i hi j hj he
    exact h.serialInj i hi j hj ((hserial i).symm.trans (he.trans (hserial j)))
  case unlinked => exact h.unlinked
  case fresh =>
    intro i hi hl
    dsimp only at hl ⊢
    rw [hlinked] at hl
    rw [hserial]
    exact h.fresh i hi hl

/-- The descriptor is freed after the deletion of its queue, but it might as well be before. -/
theorem mqClose_open (hd : s.fds.localTable d = true) :
    mqClose s d = (.ok (), delete { s with
      fds := ⟨s.fds.allocated.erase d, Function.update s.fds.localTable d false⟩
      queue := Function.update s.queue (s.fd d).queue { s.queue (s.fd d).queue with
        openCount := (s.queue (s.fd d).queue).openCount - 1 } } (s.fd d).queue) := by
  obtain ⟨s₁, hs₁⟩ : ∃ s₁ : State, s₁ = s.allocatorLock.setQueue (s.fd d).queue
      { s.queue (s.fd d).queue with openCount := (s.queue (s.fd d).queue).openCount - 1 } :=
    ⟨_, rfl⟩
  have hclose : mqClose s d = (.ok (), { delete s₁ (s.fd d).queue with
      lock := (delete s₁ (s.fd d).queue).lock - 1
      fds := ((delete s₁ (s.fd d).queue).fds.invalidateId d).free d }) := by
    rw [hs₁]
    exact if_pos hd
  rw [hclose, delete_lock, fds_delete, delete_fds, hs₁]
  rfl

theorem mqClose_free (hd : s.fds.localTable d = false) : mqClose s d = (.error .EBADF, s) := by
  unfold mqClose
  have hif : s.allocatorLock.fds.localTable d = false := hd
  simp only [hif]
  rfl

/-- What `mq_close` leaves behind. -/
theorem Inv.mqClose (h : Inv c s) (d : Nat) : Inv c (mqClose s d).2 := by
  have hb := h.blocks
  cases hd : s.fds.localTable d with
  | false =>
    rw [mqClose_free hd]
    exact h
  | true =>
    have hin := (hb.fdOpen d).mp hd
    rw [mqClose_open hd]
    refine (hb.closeFd hin).delete (hb.refers d hin).1 ?_
    intro i hi hne
    have hold := h.used i hi
    unfold Used at hold ⊢
    dsimp only
    rw [Function.update_of_ne hne]
    exact hold

/-! ## Unlinking -/

/-- The name of a queue goes. -/
theorem Blocks.unlinkQueue (h : Blocks c s) (hq : q ∈ s.queues.allocated)
    (hname : (s.queue q).name.isSome = true) :
    Blocks c { s with
      unlinked := (s.queue q).serial :: s.unlinked
      queue := Function.update s.queue q { s.queue q with linked := false, name := none }
      names := s.names - 1 } := by
  have hself : Function.update s.queue q { s.queue q with linked := false, name := none } q =
      { s.queue q with linked := false, name := none } := Function.update_self ..
  have hother : ∀ i, i ≠ q →
      Function.update s.queue q { s.queue q with linked := false, name := none } i = s.queue i :=
    fun i hi => Function.update_of_ne hi ..
  have hserial : ∀ i, (Function.update s.queue q
      { s.queue q with linked := false, name := none } i).serial = (s.queue i).serial := by
    intro i
    rcases eq_or_ne i q with rfl | hne
    · rw [hself]
    · rw [hother i hne]
  have hcount : ∀ i, (Function.update s.queue q
      { s.queue q with linked := false, name := none } i).openCount = (s.queue i).openCount := by
    intro i
    rcases eq_or_ne i q with rfl | hne
    · rw [hself]
    · rw [hother i hne]
  constructor
  case fdNodup => exact h.fdNodup
  case fdOpen => exact h.fdOpen
  case queueNodup => exact h.queueNodup
  case queueOpen => exact h.queueOpen
  case range => exact h.range
  case refers =>
    intro i hi
    obtain ⟨h1, h2⟩ := h.refers i hi
    exact ⟨h1, h2.trans (hserial _).symm⟩
  case count => exact fun i hi => (hcount i).trans (h.count i hi)
  case linked =>
    intro i hi
    dsimp only
    rcases eq_or_ne i q with rfl | hne
    · rw [hself]
      rfl
    · rw [hother i hne]
      exact h.linked i hi
  case names =>
    obtain ⟨l, r, hl⟩ := List.append_of_mem hq
    have hnodup := h.queueNodup
    rw [hl] at hnodup
    obtain ⟨-, hqr, hcross⟩ := List.nodup_append.mp hnodup
    have hlq : ∀ i ∈ l, i ≠ q := fun i hi => hcross i hi q List.mem_cons_self
    have hrq : ∀ i ∈ r, i ≠ q := by
      rintro i hi rfl
      exact (List.nodup_cons.mp hqr).1 hi
    have hpart : ∀ m : List Nat, (∀ i ∈ m, i ≠ q) →
        (m.countP fun i => (Function.update s.queue q
          { s.queue q with linked := false, name := none } i).name.isSome) =
        m.countP fun i => (s.queue i).name.isSome := by
      intro m hm
      refine List.countP_congr ?_
      intro i hi
      rw [hother i (hm i hi)]
    have hnone : ¬ (Function.update s.queue q
        { s.queue q with linked := false, name := none } q).name.isSome = true := by
      rw [hself]
      exact nofun
    show s.names - 1 = s.queues.allocated.countP _
    rw [h.names, hl, List.countP_append, List.countP_append, hpart l hlq,
      List.countP_cons_of_pos (p := fun i => (s.queue i).name.isSome) hname,
      List.countP_cons_of_neg (p := fun i => (Function.update s.queue q
        { s.queue q with linked := false, name := none } i).name.isSome) hnone, hpart r hrq]
    rfl
  case distinct =>
    intro i hi j hj n n' h1 h2 he
    have hne : ∀ k m, (Function.update s.queue q
        { s.queue q with linked := false, name := none } k).name = some m → k ≠ q := by
      rintro k m hm rfl
      rw [hself] at hm
      cases hm
    have hiq := hne i n h1
    have hjq := hne j n' h2
    dsimp only at h1 h2
    rw [hother i hiq] at h1
    rw [hother j hjq] at h2
    exact h.distinct i hi j hj n n' h1 h2 he
  case serial => exact fun i hi => (hserial i).symm ▸ h.serial i hi
  case serialInj =>
    intro i hi j hj he
    exact h.serialInj i hi j hj ((hserial i).symm.trans (he.trans (hserial j)))
  case unlinked =>
    intro n hn
    rcases List.mem_cons.mp hn with rfl | hn
    · exact h.serial q hq
    · exact h.unlinked n hn
  case fresh =>
    intro i hi hl
    rcases eq_or_ne i q with rfl | hne
    · dsimp only at hl
      rw [hself] at hl
      cases hl
    · dsimp only at hl ⊢
      rw [hother i hne] at hl ⊢
      intro hin
      rcases List.mem_cons.mp hin with he | hin
      · exact hne (h.serialInj i hi q hq he)
      · exact h.fresh i hi hl hin

theorem mqUnlink_error (he : nameToId c s o = .error e) : mqUnlink c s o = (.error e, s) := by
  unfold mqUnlink
  have hname : nameToId c s.allocatorLock o = .error e := (nameToId_congr rfl rfl).trans he
  simp only [hname]
  rfl

theorem mqUnlink_ok (hq : nameToId c s o = .ok q) (hname : (s.queue q).name.isSome = true) :
    mqUnlink c s o = (.ok (), delete { s with
      unlinked := (s.queue q).serial :: s.unlinked
      queue := Function.update s.queue q { s.queue q with linked := false, name := none }
      names := s.names - 1 } q) := by
  have hid : nameToId c s.allocatorLock o = .ok q := (nameToId_congr rfl rfl).trans hq
  obtain ⟨n, hn⟩ := Option.isSome_iff_exists.mp hname
  have hstate : ∀ s₁ : State, s₁ = { s.allocatorLock with
      unlinked := (s.queue q).serial :: s.unlinked } →
      ((s₁.setQueue q { s₁.queue q with linked := false }).namespaceRemove q).allocatorUnlock =
      { s with
        unlinked := (s.queue q).serial :: s.unlinked
        queue := Function.update s.queue q { s.queue q with linked := false, name := none }
        names := s.names - 1 } := by
    rintro s₁ rfl
    simp [State.namespaceRemove, State.setQueue, State.allocatorLock, State.allocatorUnlock, hn,
      Function.update_idem]
  unfold mqUnlink
  simp only [hid]
  rw [delete_unlock]
  exact congrArg (fun x => ((.ok () : Except Errno Unit), delete x q)) (hstate _ rfl)

theorem Inv.mqUnlink (h : Inv c s) (o : Option Name) : Inv c (mqUnlink c s o).2 := by
  cases hid : nameToId c s o with
  | error e =>
    rw [mqUnlink_error hid]
    exact h
  | ok q =>
    obtain ⟨name, rfl, hq⟩ := nameToId_ok hid
    obtain ⟨hin, n, hn, -⟩ := nameToIdString_some h.blocks hq
    have hname : (s.queue q).name.isSome = true := by
      rw [hn]
      rfl
    rw [mqUnlink_ok hid hname]
    refine (h.blocks.unlinkQueue hin hname).delete hin ?_
    intro i hi hne
    have hold := h.used i hi
    unfold Used at hold ⊢
    dsimp only
    rw [Function.update_of_ne hne]
    exact hold

/-- A deletion leaves the other queues alone. -/
theorem delete_other (s : State) (q : Nat) :
    (∀ i, i ∈ (delete s q).queues.allocated → i ∈ s.queues.allocated) ∧
    (∀ i, i ≠ q → (delete s q).queue i = s.queue i) ∧
    ((s.queue q).name = none → ((delete s q).queue q).name = none) := by
  unfold delete
  split
  next =>
    have hqueue : ∀ x : State, (x.namespaceRemove q).queues = x.queues ∧
        (x.namespaceRemove q).queue = Function.update x.queue q { x.queue q with name := none } := by
      intro x
      unfold State.namespaceRemove
      dsimp only
      cases (x.queue q).name with
      | none => exact ⟨rfl, rfl⟩
      | some _ => exact ⟨rfl, rfl⟩
    refine ⟨?_, ?_, ?_⟩
    · intro i hi
      simp only [State.freeQueue, (hqueue _).1] at hi
      exact List.mem_of_mem_erase hi
    · intro i hne
      simp only [State.freeQueue, (hqueue _).2]
      exact Function.update_of_ne hne ..
    · intro _
      simp only [State.freeQueue, (hqueue _).2, Function.update_self]
  next => exact ⟨fun _ hi => hi, fun _ _ => rfl, fun hn => hn⟩

/-- Nothing is found under a name that has been unlinked. -/
theorem Inv.not_found (h : Inv c s) (hok : (Mqueue.mqUnlink c s o).1 = .ok ()) :
    nameToId c (Mqueue.mqUnlink c s o).2 o = .error .ENOENT := by
  cases hid : nameToId c s o with
  | error e =>
    rw [mqUnlink_error hid] at hok
    cases hok
  | ok q =>
    have hinv := h.mqUnlink o
    obtain ⟨name, rfl, hq⟩ := nameToId_ok hid
    obtain ⟨hin, n, hn, hmatch⟩ := nameToIdString_some h.blocks hq
    have hname : (s.queue q).name.isSome = true := by
      rw [hn]
      rfl
    have hnone : nameToIdString c (Mqueue.mqUnlink c s (some name)).2 name = none := by
      cases hsome : nameToIdString c (Mqueue.mqUnlink c s (some name)).2 name with
      | none => rfl
      | some i =>
        obtain ⟨hi, n', hn', hmatch'⟩ := nameToIdString_some hinv.blocks hsome
        rw [mqUnlink_ok hid hname] at hi hn'
        obtain ⟨hsub, hother, hgone⟩ := delete_other { s with
          unlinked := (s.queue q).serial :: s.unlinked
          queue := Function.update s.queue q { s.queue q with linked := false, name := none }
          names := s.names - 1 } q
        rcases eq_or_ne i q with rfl | hne
        · have hnone := hgone (by simp)
          exact absurd (hnone.symm.trans hn') nofun
        · have hold := hother i hne
          dsimp only at hold
          rw [Function.update_of_ne hne] at hold
          dsimp only at hn'
          rw [hold] at hn'
          rw [strncmpEq_iff] at hmatch hmatch'
          exact absurd (h.blocks.distinct i (hsub i hi) q hin n' n hn' hn
            (strncmpEq_iff.mpr (hmatch'.symm.trans hmatch))) hne
    unfold nameToId at hid ⊢
    dsimp only at hid ⊢
    split
    next he =>
      rw [if_pos he] at hid
      cases hid
    next he =>
      rw [if_neg he] at hid
      split
      next hlen => rw [hnone]
      next hlen =>
        rw [if_neg hlen] at hid
        cases hid

end Rtems.Mqueue
