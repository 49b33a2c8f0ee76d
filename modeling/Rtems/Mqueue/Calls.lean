import Rtems.Mqueue.Model

/-!
# The lifetime of a message queue

`Inv` says what a queue, its descriptors and its name have to do with each other between two calls.
Each call is a few steps on the control blocks, and each of these has one lemma.
-/

namespace Rtems.Mqueue

variable {c : Limits} {s s' : State} {a : Answers} {d q i : Nat} {name : Name} {oflag : Oflag}
  {attr : MqAttr} {o : Option Name} {e : Errno}

/-! ## The invariant -/

/-- The number of open descriptors of a queue. -/
def openFds (s : State) (q : Nat) : Nat := s.fds.allocated.countP fun d => (s.fd d).queue = q

/-- What holds of the control blocks also while a queue waits for its deletion. -/
structure Blocks (c : Limits) (s : State) : Prop where
  fdNodup : s.fds.allocated.Nodup
  fdOpen : ∀ d, s.fds.localTable d = true ↔ d ∈ s.fds.allocated
  queueNodup : s.queues.allocated.Nodup
  queueOpen : ∀ q, s.queues.localTable q = true ↔ q ∈ s.queues.allocated
  range : ∀ q ∈ s.queues.allocated, 0 < q ∧ q ≤ c.maximum
  refers : ∀ d ∈ s.fds.allocated, (s.fd d).queue ∈ s.queues.allocated ∧
    (s.fd d).opened = (s.queue (s.fd d).queue).serial
  count : ∀ q ∈ s.queues.allocated, (s.queue q).openCount = openFds s q
  linked : ∀ q ∈ s.queues.allocated, (s.queue q).linked = (s.queue q).name.isSome
  names : s.names = s.queues.allocated.countP fun q => (s.queue q).name.isSome
  distinct : ∀ q ∈ s.queues.allocated, ∀ q' ∈ s.queues.allocated, ∀ n n',
    (s.queue q).name = some n → (s.queue q').name = some n' → strncmpEq c.nameLength n n' = true →
      q = q'
  serial : ∀ q ∈ s.queues.allocated, (s.queue q).serial < s.serial
  serialInj : ∀ q ∈ s.queues.allocated, ∀ q' ∈ s.queues.allocated,
    (s.queue q).serial = (s.queue q').serial → q = q'
  unlinked : ∀ n ∈ s.unlinked, n < s.serial
  fresh : ∀ q ∈ s.queues.allocated, (s.queue q).linked = true → (s.queue q).serial ∉ s.unlinked

/-- The queue has a reason to live. -/
def Used (s : State) (q : Nat) : Prop := (s.queue q).linked = true ∨ 0 < (s.queue q).openCount

/-- What holds between two calls. -/
structure Inv (c : Limits) (s : State) : Prop where
  blocks : Blocks c s
  used : ∀ q ∈ s.queues.allocated, Used s q

/-! ## Names -/

theorem strncmpEq_iff {n : Nat} {a b : Name} : strncmpEq n a b = true ↔ a.take n = b.take n :=
  decide_eq_true_iff

theorem named_iff (h : Blocks c s) : named c s name q = true ↔
    q ∈ s.queues.allocated ∧ ∃ n, (s.queue q).name = some n ∧ strncmpEq c.nameLength name n = true := by
  unfold named
  rw [Bool.and_eq_true, h.queueOpen q]
  cases hn : (s.queue q).name with
  | none => simp
  | some n => simp

/-- A name that is found belongs to an allocated queue. -/
theorem nameToIdString_some (h : Blocks c s) (hq : nameToIdString c s name = some q) :
    q ∈ s.queues.allocated ∧
      ∃ n, (s.queue q).name = some n ∧ strncmpEq c.nameLength name n = true :=
  (named_iff h).mp (List.find?_some hq)

/-- A name that is not found belongs to none. -/
theorem nameToIdString_none (h : Blocks c s) (hq : nameToIdString c s name = none)
    (hi : i ∈ s.queues.allocated) {n : Name} (hn : (s.queue i).name = some n) :
    strncmpEq c.nameLength name n = false := by
  have hrange := h.range i hi
  have hin : i ∈ List.range' 1 c.maximum := List.mem_range'_1.mpr (by omega)
  have hnot := List.find?_eq_none.mp hq i hin
  cases he : strncmpEq c.nameLength name n with
  | false => rfl
  | true => exact absurd ((named_iff h).mpr ⟨hi, n, hn, he⟩) hnot

theorem nameToId_ok (hq : nameToId c s o = .ok q) :
    ∃ name, o = some name ∧ nameToIdString c s name = some q := by
  cases o with
  | none => cases hq
  | some name =>
    unfold nameToId at hq
    dsimp only at hq
    split at hq
    next => cases hq
    next =>
      split at hq
      next =>
        cases hs : nameToIdString c s name with
        | none => simp [hs] at hq
        | some q' =>
          rw [hs] at hq
          cases hq
          exact ⟨name, rfl, hs⟩
      next => cases hq

theorem nameToId_enoent (hq : nameToId c s o = .error .ENOENT) :
    ∃ name, o = some name ∧ nameToIdString c s name = none := by
  cases o with
  | none => cases hq
  | some name =>
    unfold nameToId at hq
    dsimp only at hq
    split at hq
    next => cases hq
    next =>
      split at hq
      next =>
        cases hs : nameToIdString c s name with
        | some q' => simp [hs] at hq
        | none => exact ⟨name, rfl, hs⟩
      next => cases hq

/-- Only the tables and the names of the allocated queues matter for a lookup. -/
theorem nameToId_congr (hq : s'.queues.localTable = s.queues.localTable)
    (hn : s'.queue = s.queue) : nameToId c s' o = nameToId c s o := by
  unfold nameToId nameToIdString
  have hnamed : ∀ name, named c s' name = named c s name := by
    intro name
    funext q
    unfold named
    rw [hq, hn]
  simp only [hnamed]

/-! ## A call that fails -/

/-- The two states have the same queues, descriptors and names. -/
structure Same (s s' : State) : Prop where
  lock : s'.lock = s.lock
  queues : s'.queues = s.queues
  fds : s'.fds = s.fds
  names : s'.names = s.names
  serial : s'.serial = s.serial
  unlinked : s'.unlinked = s.unlinked
  queue : ∀ q ∈ s.queues.allocated, s'.queue q = s.queue q
  fd : ∀ d ∈ s.fds.allocated, s'.fd d = s.fd d

theorem Same.openFds (h : Same s s') (q : Nat) : openFds s' q = openFds s q := by
  unfold Mqueue.openFds
  rw [h.fds]
  refine List.countP_congr ?_
  intro d hd
  rw [h.fd d hd]

theorem Blocks.same (hb : Blocks c s) (h : Same s s') : Blocks c s' where
  fdNodup := by
    rw [h.fds]
    exact hb.fdNodup
  fdOpen := by
    rw [h.fds]
    exact hb.fdOpen
  queueNodup := by
    rw [h.queues]
    exact hb.queueNodup
  queueOpen := by
    rw [h.queues]
    exact hb.queueOpen
  range := by
    rw [h.queues]
    exact hb.range
  refers := by
    intro d hd
    rw [h.fds] at hd
    obtain ⟨h1, h2⟩ := hb.refers d hd
    rw [h.queues, h.fd d hd, h.queue _ h1]
    exact ⟨h1, h2⟩
  count := by
    intro q hq
    rw [h.queues] at hq
    rw [h.queue q hq, h.openFds q]
    exact hb.count q hq
  linked := by
    intro q hq
    rw [h.queues] at hq
    rw [h.queue q hq]
    exact hb.linked q hq
  names := by
    rw [h.names, h.queues, hb.names]
    refine List.countP_congr ?_
    intro q hq
    rw [h.queue q hq]
  distinct := by
    intro q hq q' hq' n n' hn hn'
    rw [h.queues] at hq hq'
    rw [h.queue q hq] at hn
    rw [h.queue q' hq'] at hn'
    exact hb.distinct q hq q' hq' n n' hn hn'
  serial := by
    intro q hq
    rw [h.queues] at hq
    rw [h.queue q hq, h.serial]
    exact hb.serial q hq
  serialInj := by
    intro q hq q' hq' he
    rw [h.queues] at hq hq'
    rw [h.queue q hq, h.queue q' hq'] at he
    exact hb.serialInj q hq q' hq' he
  unlinked := by
    rw [h.unlinked, h.serial]
    exact hb.unlinked
  fresh := by
    intro q hq hl
    rw [h.queues] at hq
    rw [h.queue q hq] at hl
    rw [h.queue q hq, h.unlinked]
    exact hb.fresh q hq hl

theorem Inv.same (hi : Inv c s) (h : Same s s') : Inv c s' := by
  refine ⟨hi.blocks.same h, ?_⟩
  intro q hq
  rw [h.queues] at hq
  unfold Used
  rw [h.queue q hq]
  exact hi.used q hq

end Rtems.Mqueue

/-!
## What the calls do to queues and descriptors

An opening refers to a queue with a descriptor that was free.  A closing and an unlinking take a
reason away from a queue, and a queue that has no reason left is deleted.
-/

namespace Rtems.Mqueue

variable {c : Limits} {s s' : State} {a : Answers} {d q i : Nat} {name : Name} {oflag : Oflag}
  {attr : Option MqAttr} {o : Option Name} {e : Errno}

/-! ## Opening -/

/-- A descriptor was opened for a queue, which existed before or is new. -/
structure Opened (c : Limits) (s s' : State) (d q : Nat) : Prop where
  lock : s'.lock = s.lock
  fds : s'.fds = ⟨d :: s.fds.allocated, Function.update s.fds.localTable d true⟩
  fd : (s'.fd d).queue = q ∧ (s'.fd d).opened = (s'.queue q).serial
  otherFd : ∀ i, i ≠ d → s'.fd i = s.fd i
  queueNodup : s'.queues.allocated.Nodup
  queueOpen : ∀ i, s'.queues.localTable i = true ↔ i ∈ s'.queues.allocated
  mem : ∀ i, i ∈ s'.queues.allocated ↔ i = q ∨ i ∈ s.queues.allocated
  range : 0 < q ∧ q ≤ c.maximum
  other : ∀ i, i ≠ q → s'.queue i = s.queue i
  keeps : q ∈ s.queues.allocated → (s'.queue q).serial = (s.queue q).serial
  count : (s'.queue q).openCount = openFds s q + 1
  linked : (s'.queue q).linked = true
  name : ∃ n, (s'.queue q).name = some n ∧ ∀ i ∈ s.queues.allocated, i ≠ q →
    ∀ n', (s.queue i).name = some n' → n.take c.nameLength ≠ n'.take c.nameLength
  names : s'.names = s'.queues.allocated.countP fun i => (s'.queue i).name.isSome
  serial : s.serial ≤ s'.serial ∧ (s'.queue q).serial < s'.serial
  serialNe : ∀ i ∈ s.queues.allocated, i ≠ q → (s.queue i).serial ≠ (s'.queue q).serial
  unlinked : s'.unlinked = s.unlinked
  fresh : (s'.queue q).serial ∉ s.unlinked

theorem Opened.openFds (h : Opened c s s' d q) (hd : d ∉ s.fds.allocated) (i : Nat) :
    openFds s' i = openFds s i + if i = q then 1 else 0 := by
  unfold Mqueue.openFds
  rw [h.fds, List.countP_cons]
  congr 1
  · refine List.countP_congr ?_
    intro x hx
    have hxd : x ≠ d := fun he => hd (he ▸ hx)
    rw [h.otherFd x hxd]
  · rw [h.fd.1]
    rcases eq_or_ne i q with rfl | hne
    · simp
    · simp [hne, hne.symm]

theorem Inv.opened (hi : Inv c s) (h : Opened c s s' d q) (hd : d ∉ s.fds.allocated) : Inv c s' := by
  have hb := hi.blocks
  obtain ⟨n, hn, hother⟩ := h.name
  have hold : ∀ i, i ∈ s'.queues.allocated → i ≠ q → i ∈ s.queues.allocated :=
    fun i hm hne => ((h.mem i).mp hm).resolve_left hne
  constructor
  · constructor
    case fdNodup =>
      rw [h.fds]
      exact List.nodup_cons.mpr ⟨hd, hb.fdNodup⟩
    case fdOpen =>
      intro i
      rw [h.fds]
      rcases eq_or_ne i d with rfl | hne
      · simp
      · simp [hne, hb.fdOpen i]
    case queueNodup => exact h.queueNodup
    case queueOpen => exact h.queueOpen
    case range =>
      intro i hm
      rcases (h.mem i).mp hm with rfl | hm
      · exact h.range
      · exact hb.range i hm
    case refers =>
      intro i hm
      rw [h.fds] at hm
      rcases List.mem_cons.mp hm with rfl | hm
      · rw [h.fd.1]
        exact ⟨(h.mem q).mpr (.inl rfl), h.fd.2⟩
      · have hid : i ≠ d := fun he => hd (he ▸ hm)
        obtain ⟨h1, h2⟩ := hb.refers i hm
        rw [h.otherFd i hid]
        refine ⟨(h.mem _).mpr (.inr h1), h2.trans ?_⟩
        rcases eq_or_ne (s.fd i).queue q with he | hne
        · rw [he] at h1 ⊢
          exact (h.keeps h1).symm
        · rw [h.other _ hne]
    case count =>
      intro i hm
      rw [h.openFds hd]
      rcases eq_or_ne i q with rfl | hne
      · rw [if_pos rfl]
        exact h.count
      · rw [if_neg hne, h.other i hne]
        exact hb.count i (hold i hm hne)
    case linked =>
      intro i hm
      rcases eq_or_ne i q with rfl | hne
      · rw [h.linked, hn]
        rfl
      · rw [h.other i hne]
        exact hb.linked i (hold i hm hne)
    case names => exact h.names
    case distinct =>
      intro i hm j hm' n₁ n₂ h1 h2 he
      rw [strncmpEq_iff] at he
      rcases eq_or_ne i q with rfl | hne
      · rcases eq_or_ne j i with rfl | hne'
        · rfl
        · rw [h.other j hne'] at h2
          cases hn.symm.trans h1
          exact absurd he (hother j (hold j hm' hne') hne' n₂ h2)
      · rw [h.other i hne] at h1
        rcases eq_or_ne j q with rfl | hne'
        · cases hn.symm.trans h2
          exact absurd he.symm (hother i (hold i hm hne) hne n₁ h1)
        · rw [h.other j hne'] at h2
          exact hb.distinct i (hold i hm hne) j (hold j hm' hne') n₁ n₂ h1 h2
            (strncmpEq_iff.mpr he)
    case serial =>
      intro i hm
      rcases eq_or_ne i q with rfl | hne
      · exact h.serial.2
      · rw [h.other i hne]
        exact Nat.lt_of_lt_of_le (hb.serial i (hold i hm hne)) h.serial.1
    case serialInj =>
      intro i hm j hm' he
      rcases eq_or_ne i q with rfl | hne
      · rcases eq_or_ne j i with rfl | hne'
        · rfl
        · rw [h.other j hne'] at he
          exact absurd he.symm (h.serialNe j (hold j hm' hne') hne')
      · rw [h.other i hne] at he
        rcases eq_or_ne j q with rfl | hne'
        · exact absurd he (h.serialNe i (hold i hm hne) hne)
        · rw [h.other j hne'] at he
          exact hb.serialInj i (hold i hm hne) j (hold j hm' hne') he
    case unlinked =>
      intro m hm
      rw [h.unlinked] at hm
      exact Nat.lt_of_lt_of_le (hb.unlinked m hm) h.serial.1
    case fresh =>
      intro i hm hl
      rw [h.unlinked]
      rcases eq_or_ne i q with rfl | hne
      · exact h.fresh
      · rw [h.other i hne] at hl ⊢
        exact hb.fresh i (hold i hm hne) hl
  · intro i hm
    rcases eq_or_ne i q with rfl | hne
    · exact .inl h.linked
    · unfold Used
      rw [h.other i hne]
      exact hi.used i (hold i hm hne)

/-! ## Deletion -/

/-- A queue that no descriptor refers to and that has no name goes. -/
theorem Blocks.freeQueue (h : Blocks c s) (hname : (s.queue q).name = none)
    (hnofd : ∀ d ∈ s.fds.allocated, (s.fd d).queue ≠ q) :
    Blocks c { s with
      queues := (s.queues.invalidateId q).free q
      queue := Function.update s.queue q { s.queue q with name := none } } := by
  have hmem : ∀ i, i ∈ s.queues.allocated.erase q ↔ i ≠ q ∧ i ∈ s.queues.allocated :=
    fun i => h.queueNodup.mem_erase_iff
  have hother : ∀ i, i ≠ q →
      Function.update s.queue q { s.queue q with name := none } i = s.queue i :=
    fun i hi => Function.update_of_ne hi ..
  constructor
  case fdNodup => exact h.fdNodup
  case fdOpen => exact h.fdOpen
  case queueNodup => exact h.queueNodup.erase q
  case queueOpen =>
    intro i
    show Function.update s.queues.localTable q false i = true ↔ i ∈ s.queues.allocated.erase q
    rw [hmem]
    rcases eq_or_ne i q with rfl | hne
    · simp
    · simp [hne, h.queueOpen i]
  case range => exact fun i hm => h.range i ((hmem i).mp hm).2
  case refers =>
    intro d hd
    obtain ⟨h1, h2⟩ := h.refers d hd
    have hne := hnofd d hd
    refine ⟨(hmem _).mpr ⟨hne, h1⟩, ?_⟩
    show (s.fd d).opened = (Function.update s.queue q _ (s.fd d).queue).serial
    rw [hother _ hne]
    exact h2
  case count =>
    intro i hm
    obtain ⟨hne, hm⟩ := (hmem i).mp hm
    show (Function.update s.queue q _ i).openCount = openFds s i
    rw [hother i hne]
    exact h.count i hm
  case linked =>
    intro i hm
    obtain ⟨hne, hm⟩ := (hmem i).mp hm
    dsimp only
    rw [hother i hne]
    exact h.linked i hm
  case names =>
    show s.names = (s.queues.allocated.erase q).countP _
    rw [h.names, List.countP_erase, if_neg (by simp)]
    refine List.countP_congr ?_
    intro i hm
    rcases eq_or_ne i q with rfl | hne
    · simp [hname]
    · dsimp only
      rw [hother i hne]
  case distinct =>
    intro i hm j hm' n n' h1 h2 he
    obtain ⟨hne, hm⟩ := (hmem i).mp hm
    obtain ⟨hne', hm'⟩ := (hmem j).mp hm'
    dsimp only at h1 h2
    rw [hother i hne] at h1
    rw [hother j hne'] at h2
    exact h.distinct i hm j hm' n n' h1 h2 he
  case serial =>
    intro i hm
    obtain ⟨hne, hm⟩ := (hmem i).mp hm
    dsimp only
    rw [hother i hne]
    exact h.serial i hm
  case serialInj =>
    intro i hm j hm' he
    obtain ⟨hne, hm⟩ := (hmem i).mp hm
    obtain ⟨hne', hm'⟩ := (hmem j).mp hm'
    dsimp only at he
    rw [hother i hne, hother j hne'] at he
    exact h.serialInj i hm j hm' he
  case unlinked => exact h.unlinked
  case fresh =>
    intro i hm hl
    obtain ⟨hne, hm⟩ := (hmem i).mp hm
    dsimp only at hl ⊢
    rw [hother i hne] at hl ⊢
    exact h.fresh i hm hl

/-- A queue whose last reason may have gone is deleted, or it has one. -/
theorem Blocks.delete (h : Blocks c s) (hq : q ∈ s.queues.allocated)
    (hused : ∀ i ∈ s.queues.allocated, i ≠ q → Used s i) : Inv c (delete s q) := by
  unfold Mqueue.delete
  split
  next hgone =>
    obtain ⟨hl, hc⟩ : (s.queue q).linked = false ∧ (s.queue q).openCount = 0 := by
      simpa using hgone
    have hname : (s.queue q).name = none := by
      have hlinked := h.linked q hq
      rw [hl] at hlinked
      exact Option.not_isSome_iff_eq_none.mp (by rw [← hlinked]; exact nofun)
    have hnofd : ∀ d ∈ s.fds.allocated, (s.fd d).queue ≠ q := by
      intro d hd he
      have hcount := h.count q hq
      rw [hc] at hcount
      have hzero := List.countP_eq_zero.mp hcount.symm d hd
      exact hzero (decide_eq_true he)
    have hstate : State.freeQueue (State.namespaceRemove
        { s with queues := s.queues.invalidateId q } q) q =
        { s with
          queues := (s.queues.invalidateId q).free q
          queue := Function.update s.queue q { s.queue q with name := none } } := by
      unfold State.namespaceRemove
      simp only [hname]
      rfl
    dsimp only
    rw [hstate]
    refine ⟨h.freeQueue hname hnofd, ?_⟩
    intro i hm
    obtain ⟨hne, hm⟩ := h.queueNodup.mem_erase_iff.mp hm
    unfold Used
    dsimp only
    rw [Function.update_of_ne hne]
    exact hused i hm hne
  next hkept =>
    refine ⟨h, ?_⟩
    intro i hm
    rcases eq_or_ne i q with rfl | hne
    · cases hl : (s.queue i).linked with
      | true => exact .inl hl
      | false =>
        refine .inr (Nat.pos_of_ne_zero ?_)
        intro hc
        simp [hl, hc] at hkept
    · exact hused i hm hne

end Rtems.Mqueue
