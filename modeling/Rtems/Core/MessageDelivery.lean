import Rtems.Core.MessageQueue

/-!
# Delivery of messages

What holds of every run of a message queue.  The messages that the queue has
accepted are, each one once, those that receivers have returned with, those on
their way to a receiver, and those pending; the pending ones stand in the order
in which they are received; and the threads that wait are all receivers, while
nothing is pending, or all senders, while no buffer is free.
-/

namespace Rtems.CoreMessageQueue

open ThreadQueue Lib

/-! ## The order of the pending messages -/

/-- `x` is received before `y`: by priority, and among equals in the order of
their acceptance, urgent ones last in first out. -/
def Before (x y : Message) : Prop :=
  x.priority.val < y.priority.val ∨
    x.priority = y.priority ∧
      if x.priority = .urgentRequest then y.serial < x.serial else x.serial < y.serial

theorem Before.priority_le {x y : Message} (h : Before x y) :
    x.priority.val ≤ y.priority.val := by
  rcases h with hlt | ⟨heq, -⟩
  · exact Int.le_of_lt hlt
  · exact Int.le_of_eq (congrArg Subtype.val heq)

theorem SubmitType.lt_or_eq {p q : SubmitType} (h : p.val ≤ q.val) : p.val < q.val ∨ p = q := by
  rcases Int.lt_or_eq_of_le h with hlt | heq
  · exact .inl hlt
  · exact .inr (Subtype.ext heq)

theorem SubmitType.le_sendRequest (p : SubmitType) : p.val ≤ SubmitType.sendRequest.val := by
  have h := p.property.2
  show p.val ≤ 2 ^ 31 - 1
  omega

theorem SubmitType.urgentRequest_le (p : SubmitType) : SubmitType.urgentRequest.val ≤ p.val :=
  p.property.1

theorem place_perm (message : Message) (pending : List Message) :
    (place message pending).Perm (message :: pending) := by
  unfold place
  split
  next => exact List.perm_append_singleton _ _
  next =>
    split
    next => exact stableInsert_perm _ _ _
    next => exact List.Perm.refl _

/-- A message that is accepted after all the others goes to its place. -/
theorem place_ordered {message : Message} {pending : List Message} (h : pending.Pairwise Before)
    (hlast : ∀ m ∈ pending, m.serial < message.serial) :
    (place message pending).Pairwise Before := by
  have hbefore : message.priority ≠ .urgentRequest → ∀ m ∈ pending,
      m.priority.val ≤ message.priority.val → Before m message := by
    intro hurgent m hm hle
    rcases SubmitType.lt_or_eq hle with hlt | heq
    · exact .inl hlt
    · refine .inr ⟨heq, ?_⟩
      rw [if_neg (heq ▸ hurgent)]
      exact hlast m hm
  unfold place
  split
  next hsend =>
    have hurgent : message.priority ≠ .urgentRequest := by
      rw [hsend]
      decide
    rw [List.pairwise_append]
    refine ⟨h, List.pairwise_singleton _ _, ?_⟩
    intro m hm m' hm'
    rw [List.mem_singleton.mp hm']
    refine hbefore hurgent m hm ?_
    rw [hsend]
    exact SubmitType.le_sendRequest _
  next =>
    split
    next hurgent =>
      exact pairwise_stableInsert h (fun _ _ hxy => hxy.priority_le) (fun _ _ hlt => .inl hlt)
        (hbefore hurgent)
    next hurgent =>
      have hurgent : message.priority = .urgentRequest := Decidable.not_not.mp hurgent
      refine .cons ?_ h
      intro m hm
      have hle : message.priority.val ≤ m.priority.val := by
        rw [hurgent]
        exact SubmitType.urgentRequest_le _
      rcases SubmitType.lt_or_eq hle with hlt | heq
      · exact .inl hlt
      · refine .inr ⟨heq, ?_⟩
        rw [if_pos hurgent]
        exact hlast m hm

/-! ## Messages on their way -/

variable {Tid : Type}

/-- The thread is a receiver that was given a message. -/
def given (role : Tid → Role) (w : Waiters Tid Status) (t : Tid) : Bool :=
  decide (role t = .receiver) && decide (w.returnCode t = .successful)

/-- The messages of the receivers that have not returned yet. -/
def underway (role : Tid → Role) (slot : Tid → Message) (w : Waiters Tid Status) : List Message :=
  (w.released.filter (given role w)).map slot

section

variable {role role' : Tid → Role} {slot slot' : Tid → Message} {v w : Waiters Tid Status} {t : Tid}
  {d : Discipline}

theorem given_iff : given role w t = true ↔ role t = .receiver ∧ w.returnCode t = .successful := by
  simp [given]

/-- Threads that are not released carry nothing. -/
theorem underway_congr (hr : v.released = w.released)
    (h : ∀ u ∈ w.released,
      role' u = role u ∧ slot' u = slot u ∧ v.returnCode u = w.returnCode u) :
    underway role' slot' v = underway role slot w := by
  have hgiven : w.released.filter (given role' v) = w.released.filter (given role w) := by
    refine List.filter_congr ?_
    intro u hu
    obtain ⟨hrole, -, hcode⟩ := h u hu
    unfold given
    rw [hrole, hcode]
  unfold underway
  rw [hr, hgiven]
  refine List.map_congr_left ?_
  intro u hu
  exact (h u (List.mem_of_mem_filter hu)).2.1

variable [DecidableEq Tid]

theorem underway_extractCritical_given (h : given role w t = true) :
    underway role slot (w.extractCritical d t) = slot t :: underway role slot w := by
  have hf : (t :: w.released).filter (given role w) = t :: w.released.filter (given role w) :=
    List.filter_cons_of_pos h
  exact congrArg (List.map slot) hf

theorem underway_extractCritical_other (h : given role w t = false) :
    underway role slot (w.extractCritical d t) = underway role slot w := by
  have hf : (t :: w.released).filter (given role w) = w.released.filter (given role w) :=
    List.filter_cons_of_neg (Bool.eq_false_iff.mp h)
  exact congrArg (List.map slot) hf

theorem underway_resume_given (ht : t ∈ w.released) (h : given role w t = true) :
    (underway role slot w).Perm (slot t :: underway role slot (w.resume t)) := by
  have hp := (List.perm_cons_erase ht).filter (given role w)
  rw [List.filter_cons_of_pos h] at hp
  exact hp.map slot

theorem underway_resume_other (ht : t ∈ w.released) (h : given role w t = false) :
    (underway role slot w).Perm (underway role slot (w.resume t)) := by
  have hp := (List.perm_cons_erase ht).filter (given role w)
  rw [List.filter_cons_of_neg (Bool.eq_false_iff.mp h)] at hp
  exact hp.map slot

end

/-! ## The ledger -/

/-- A message that joins the pending ones. -/
theorem ledger_place (message : Message) (received underway pending : List Message) :
    (received ++ (underway ++ place message pending)).Perm
      (message :: (received ++ (underway ++ pending))) := by
  have hinner : (underway ++ place message pending).Perm (message :: (underway ++ pending)) :=
    ((place_perm message pending).append_left underway).trans List.perm_middle
  exact (hinner.append_left received).trans List.perm_middle

/-- A pending message is received. -/
theorem ledger_take (message : Message) (received underway pending : List Message) :
    (received ++ (underway ++ message :: pending)).Perm
      (message :: (received ++ (underway ++ pending))) := by
  have hinner : (underway ++ message :: pending).Perm (message :: (underway ++ pending)) :=
    List.perm_middle
  exact (hinner.append_left received).trans List.perm_middle

/-! ## The invariant -/

/-- The invariant of the runs. -/
structure Inv (cfg : Config Tid) (s : State Tid) : Prop where
  waiters : s.waitQueue.Inv cfg.discipline cfg.prio
  count : s.numberOfPendingMessages = s.pendingMessages.length
  buffers : s.pendingMessages.length + s.inactiveMessages = cfg.maximumPendingMessages
  receivers : ∀ t ∈ s.waitQueue.queue, s.role t = .receiver →
    s.pendingMessages = [] ∧ s.waitQueue.returnCode t = .successful
  senders : ∀ t ∈ s.waitQueue.queue, s.role t = .sender → s.inactiveMessages = 0
  timeoutCode : ∀ t ∈ s.waitQueue.queue, s.waitQueue.timeoutCode t ≠ some .successful
  fresh : ∀ m ∈ s.accepted, m.serial < s.serial
  distinct : (s.accepted.map Message.serial).Nodup
  ledger : s.accepted.Perm
    (s.received.map Prod.snd ++ (underway s.role s.slot s.waitQueue ++ s.pendingMessages))
  ordered : s.pendingMessages.Pairwise Before

variable [DecidableEq Tid] {cfg : Config Tid} {s s' : State Tid} {t : Tid}

omit [DecidableEq Tid] in
theorem Inv.start : Inv cfg (start cfg) where
  waiters := .start _
  count := rfl
  buffers := Nat.zero_add _
  receivers := fun _ ht => absurd ht List.not_mem_nil
  senders := fun _ ht => absurd ht List.not_mem_nil
  timeoutCode := fun _ ht => absurd ht List.not_mem_nil
  fresh := fun _ hm => absurd hm List.not_mem_nil
  distinct := List.nodup_nil
  ledger := List.Perm.refl _
  ordered := List.Pairwise.nil

omit [DecidableEq Tid] in
/-- While a message is pending only senders wait. -/
theorem Inv.sender_of_pending (h : Inv cfg s) (hp : s.pendingMessages ≠ [])
    (ht : t ∈ s.waitQueue.queue) : s.role t = .sender := by
  cases hr : s.role t with
  | sender => rfl
  | receiver => exact absurd (h.receivers t ht hr).1 hp

omit [DecidableEq Tid] in
/-- While nothing is pending only receivers wait. -/
theorem Inv.receiver_of_empty (h : Inv cfg s) (hp : s.pendingMessages = [])
    (ht : t ∈ s.waitQueue.queue) : s.role t = .receiver := by
  cases hr : s.role t with
  | receiver => rfl
  | sender =>
    have hb := h.buffers
    have hpos := cfg.pos
    rw [hp, h.senders t ht hr] at hb
    rw [← hb] at hpos
    exact absurd hpos (Nat.lt_irrefl 0)

omit [DecidableEq Tid] in
theorem Inv.pending_fresh (h : Inv cfg s) : ∀ m ∈ s.pendingMessages, m.serial < s.serial := by
  intro m hm
  refine h.fresh m (h.ledger.mem_iff.mpr ?_)
  exact List.mem_append_right _ (List.mem_append_right _ hm)

omit [DecidableEq Tid] in
/-- An accepted message is new. -/
theorem Inv.accept_fresh (h : Inv cfg s) (data : Data) (submitType : SubmitType) :
    (∀ m ∈ (accept s data submitType).2.accepted, m.serial < s.serial + 1) ∧
      ((accept s data submitType).2.accepted.map Message.serial).Nodup := by
  constructor
  · intro m hm
    rcases List.mem_cons.mp hm with rfl | hm
    · exact Nat.lt_succ_self _
    · exact Nat.lt_succ_of_lt (h.fresh m hm)
  · refine List.nodup_cons.mpr ⟨?_, h.distinct⟩
    intro hm
    obtain ⟨m, hm, he⟩ := List.mem_map.mp hm
    exact absurd (h.fresh m hm) (by rw [he]; exact Nat.lt_irrefl _)

/-! ## Sending -/

/-- A message is handed to the first thread of the queue, if nothing is
pending. -/
theorem dequeueReceiver_cases (cfg : Config Tid) (s : State Tid) (data : Data)
    (submitType : SubmitType) :
    (dequeueReceiver cfg s data submitType = none ∧
        (s.numberOfPendingMessages ≠ 0 ∨ s.waitQueue.queue = [])) ∨
      ∃ t q, s.numberOfPendingMessages = 0 ∧ s.waitQueue.queue = t :: q ∧
        dequeueReceiver cfg s data submitType = some (t,
          { s with
            serial := s.serial + 1
            accepted := ⟨data, submitType, s.serial⟩ :: s.accepted
            slot := Function.update s.slot t ⟨data, submitType, s.serial⟩
            waitQueue := s.waitQueue.extractCritical cfg.discipline t }) := by
  unfold dequeueReceiver
  split
  next hne => exact .inl ⟨rfl, .inl hne⟩
  next heq =>
    cases hf : s.waitQueue.firstLocked with
    | none => exact .inl ⟨rfl, .inr (Waiters.firstLocked_eq_none.mp hf)⟩
    | some t =>
      obtain ⟨q, hq⟩ := Waiters.firstLocked_eq_some.mp hf
      exact .inr ⟨t, q, Decidable.not_not.mp heq, hq, rfl⟩

theorem Inv.handOff {q : List Tid} (h : Inv cfg s) (hzero : s.numberOfPendingMessages = 0)
    (hq : s.waitQueue.queue = t :: q) (data : Data) (submitType : SubmitType) :
    Inv cfg
      { s with
        serial := s.serial + 1
        accepted := ⟨data, submitType, s.serial⟩ :: s.accepted
        slot := Function.update s.slot t ⟨data, submitType, s.serial⟩
        waitQueue := s.waitQueue.extractCritical cfg.discipline t } := by
  have hempty : s.pendingMessages = [] := List.length_eq_zero_iff.mp (h.count.symm.trans hzero)
  have ht : t ∈ s.waitQueue.queue := by
    rw [hq]
    exact List.mem_cons_self
  have hrole := h.receiver_of_empty hempty ht
  have hgiven : given s.role s.waitQueue t = true :=
    given_iff.mpr ⟨hrole, (h.receivers t ht hrole).2⟩
  have hmem : ∀ u ∈ (s.waitQueue.extractCritical cfg.discipline t).queue, u ∈ s.waitQueue.queue := by
    intro u hu
    rw [Waiters.extractCritical_queue] at hu
    exact List.mem_of_mem_erase hu
  have hnew := h.accept_fresh data submitType
  constructor
  case waiters => exact h.waiters.extractCritical ht
  case count => exact h.count
  case buffers => exact h.buffers
  case receivers => exact fun u hu => h.receivers u (hmem u hu)
  case senders => exact fun u hu => h.senders u (hmem u hu)
  case timeoutCode => exact fun u hu => h.timeoutCode u (hmem u hu)
  case fresh => exact hnew.1
  case distinct => exact hnew.2
  case ledger =>
    have hcongr : underway s.role (Function.update s.slot t ⟨data, submitType, s.serial⟩)
        s.waitQueue = underway s.role s.slot s.waitQueue := by
      refine underway_congr rfl ?_
      intro u hu
      have hne : u ≠ t := by
        rintro rfl
        exact h.waiters.not_mem_released ht hu
      exact ⟨rfl, Function.update_of_ne hne _ _, rfl⟩
    show (_ :: s.accepted).Perm (_ ++ (underway s.role (Function.update s.slot t _) _ ++ _))
    rw [underway_extractCritical_given hgiven, Function.update_self, hcongr, List.cons_append]
    exact (h.ledger.cons _).trans List.perm_middle.symm
  case ordered => exact h.ordered

omit [DecidableEq Tid] in
/-- A message joins the pending ones. -/
theorem Inv.insert (h : Inv cfg s) (hq : s.waitQueue.queue = []) (hfree : s.inactiveMessages ≠ 0)
    (data : Data) (submitType : SubmitType) :
    Inv cfg
      (insertMessage
        { (accept s data submitType).2 with inactiveMessages := s.inactiveMessages - 1 }
        (accept s data submitType).1) := by
  have hnew := h.accept_fresh data submitType
  have hperm := place_perm (CoreMessageQueue.accept s data submitType).1 s.pendingMessages
  have hnone : ∀ t, t ∉ s.waitQueue.queue := by
    intro t
    rw [hq]
    exact List.not_mem_nil
  constructor
  case waiters => exact h.waiters
  case count =>
    show s.numberOfPendingMessages + 1 = (place _ s.pendingMessages).length
    rw [hperm.length_eq, h.count]
    rfl
  case buffers =>
    have hb := h.buffers
    show (place _ s.pendingMessages).length + (s.inactiveMessages - 1) = _
    rw [hperm.length_eq, List.length_cons]
    omega
  case receivers => exact fun u hu => absurd hu (hnone u)
  case senders => exact fun u hu => absurd hu (hnone u)
  case timeoutCode => exact fun u hu => absurd hu (hnone u)
  case fresh => exact hnew.1
  case distinct => exact hnew.2
  case ledger => exact (h.ledger.cons _).trans (ledger_place _ _ _ _).symm
  case ordered => exact place_ordered h.ordered h.pending_fresh

/-- A sender blocks. -/
theorem Inv.blockSender (h : Inv cfg s) (hidle : s.waitQueue.Idle t)
    (hfull : s.inactiveMessages = 0) (message : Message) {timeoutCode : Option Status}
    (hcode : timeoutCode ≠ some .successful) :
    Inv cfg
      { s with
        slot := Function.update s.slot t message
        role := Function.update s.role t .sender
        waitQueue := s.waitQueue.enqueueCritical cfg.discipline cfg.prio t timeoutCode } := by
  constructor
  case waiters => exact h.waiters.enqueueCritical hidle _
  case count => exact h.count
  case buffers => exact h.buffers
  case receivers =>
    intro u hu hrole
    rcases eq_or_ne u t with rfl | hne
    · simp only [Function.update_self] at hrole
      cases hrole
    · simp only [Function.update_of_ne hne] at hrole
      exact h.receivers u ((Waiters.mem_enqueueCritical.mp hu).resolve_left hne) hrole
  case senders => exact fun _ _ _ => hfull
  case timeoutCode =>
    intro u hu
    rcases eq_or_ne u t with rfl | hne
    · simpa [Waiters.enqueueCritical] using hcode
    · have hu := (Waiters.mem_enqueueCritical.mp hu).resolve_left hne
      simpa [Waiters.enqueueCritical, hne] using h.timeoutCode u hu
  case fresh => exact h.fresh
  case distinct => exact h.distinct
  case ledger =>
    have hcongr : underway (Function.update s.role t .sender) (Function.update s.slot t message)
        (s.waitQueue.enqueueCritical cfg.discipline cfg.prio t timeoutCode) =
        underway s.role s.slot s.waitQueue := by
      refine underway_congr rfl ?_
      intro u hu
      have hne : u ≠ t := fun e => hidle.2 (e ▸ hu)
      exact ⟨Function.update_of_ne hne _ _, Function.update_of_ne hne _ _, rfl⟩
    show s.accepted.Perm (_ ++ (underway (Function.update s.role t _) _ _ ++ _))
    rw [hcongr]
    exact h.ledger
  case ordered => exact h.ordered

theorem Inv.submit (h : Inv cfg s) (data : Data) (submitType : SubmitType) (wait : Bool)
    (timeout : Nat) {isr : Bool} (hidle : isr = false → s.waitQueue.Idle t) :
    Inv cfg (submit cfg s t data submitType wait timeout isr).2 := by
  unfold CoreMessageQueue.submit
  split
  next => exact h
  next =>
    rcases dequeueReceiver_cases cfg s data submitType with
      ⟨e, hnone⟩ | ⟨u, q, hzero, hq, e⟩
    · rw [e]
      simp only
      split
      next hfree =>
        refine h.insert ?_ hfree data submitType
        -- a free buffer excludes senders, and a receiver would have been served
        rcases hnone with hne | hq
        · refine List.eq_nil_iff_forall_not_mem.mpr ?_
          intro u hu
          have hp : s.pendingMessages ≠ [] := by
            intro hnil
            rw [h.count, hnil] at hne
            exact hne rfl
          exact hfree (h.senders u hu (h.sender_of_pending hp hu))
        · exact hq
      next hfull =>
        have hfull : s.inactiveMessages = 0 := Decidable.not_not.mp hfull
        split
        next => exact h
        next =>
          split
          next => exact h
          next hisr =>
            refine h.blockSender (hidle (Bool.eq_false_iff.mpr hisr)) hfull _ ?_
            split <;> decide
    · rw [e]
      exact h.handOff hzero hq data submitType

theorem Inv.broadcastTurn (h : Inv cfg s) (data : Data) : Inv cfg (broadcastTurn cfg s data) := by
  unfold CoreMessageQueue.broadcastTurn
  rcases dequeueReceiver_cases cfg s data .zero with ⟨e, -⟩ | ⟨u, q, hzero, hq, e⟩
  · rw [e]
    exact h
  · rw [e]
    exact h.handOff hzero hq data .zero

/-! ## Receiving -/

/-- What a receive does when a message is pending. -/
theorem seize_pending {m : Message} {rest : List Message} (hp : s.pendingMessages = m :: rest)
    (hidle : s.waitQueue.Idle t) (wait : Bool) (timeout : Nat) :
    (s.waitQueue.queue = [] ∧ seize cfg s t wait timeout =
      { s with
        waitQueue := s.waitQueue.setReturnCode t .successful
        pendingMessages := rest
        numberOfPendingMessages := s.numberOfPendingMessages - 1
        slot := Function.update s.slot t m
        received := (t, m) :: s.received
        inactiveMessages := s.inactiveMessages + 1 }) ∨
    ∃ u q, s.waitQueue.queue = u :: q ∧ u ≠ t ∧ seize cfg s t wait timeout =
      { s with
        waitQueue := (s.waitQueue.setReturnCode t .successful).extractCritical cfg.discipline u
        pendingMessages := place ⟨(s.slot u).data, (s.slot u).priority, s.serial⟩ rest
        numberOfPendingMessages := s.numberOfPendingMessages - 1 + 1
        slot := Function.update s.slot t m
        received := (t, m) :: s.received
        serial := s.serial + 1
        accepted := ⟨(s.slot u).data, (s.slot u).priority, s.serial⟩ :: s.accepted } := by
  unfold seize
  simp only [hp]
  cases hq : s.waitQueue.queue with
  | nil =>
    rw [show (s.waitQueue.setReturnCode t .successful).firstLocked = none from
      Waiters.firstLocked_eq_none.mpr hq]
    exact .inl ⟨rfl, rfl⟩
  | cons u q =>
    have hne : u ≠ t := by
      rintro rfl
      refine hidle.1 ?_
      rw [hq]
      exact List.mem_cons_self
    rw [show (s.waitQueue.setReturnCode t .successful).firstLocked = some u from
      Waiters.firstLocked_eq_some.mpr ⟨q, hq⟩]
    refine .inr ⟨u, q, rfl, hne, ?_⟩
    simp only [accept, insertMessage, Function.update_of_ne hne]

/-- A thread that is in no call does not count among those on their way. -/
theorem underway_idle {slot : Tid → Message} {role : Tid → Role} (hidle : s.waitQueue.Idle t)
    (hslot : ∀ u, u ≠ t → slot u = s.slot u) (hrole : ∀ u, u ≠ t → role u = s.role u)
    (code : Status) :
    underway role slot (s.waitQueue.setReturnCode t code) =
      underway s.role s.slot s.waitQueue := by
  refine underway_congr rfl ?_
  intro u hu
  have hne : u ≠ t := fun e => hidle.2 (e ▸ hu)
  exact ⟨hrole u hne, hslot u hne, Waiters.setReturnCode_of_ne _ hne _⟩

theorem Inv.seize_pending (h : Inv cfg s) {m : Message} {rest : List Message}
    (hp : s.pendingMessages = m :: rest) (hidle : s.waitQueue.Idle t) (wait : Bool)
    (timeout : Nat) : Inv cfg (seize cfg s t wait timeout) := by
  have hlen : s.pendingMessages.length = rest.length + 1 := by
    rw [hp]
    rfl
  have hcount := h.count
  have hbuffers := h.buffers
  have hw := h.waiters.setReturnCode t .successful
  have hunder := underway_idle hidle (fun u hne => Function.update_of_ne hne m s.slot)
    (fun _ _ => rfl) .successful
  have hordered : rest.Pairwise Before := by
    have ho := h.ordered
    rw [hp] at ho
    exact (List.pairwise_cons.mp ho).2
  have hledger : s.accepted.Perm
      (m :: (s.received.map Prod.snd ++ (underway s.role s.slot s.waitQueue ++ rest))) := by
    have hl := h.ledger
    rw [hp] at hl
    exact hl.trans (ledger_take _ _ _ _)
  rcases CoreMessageQueue.seize_pending hp hidle wait timeout with ⟨hq, e⟩ | ⟨u, q, hq, hne, e⟩
  · have hnone : ∀ u, u ∉ s.waitQueue.queue := by
      intro u
      rw [hq]
      exact List.not_mem_nil
    rw [e]
    constructor
    case waiters => exact hw
    case count =>
      show s.numberOfPendingMessages - 1 = rest.length
      omega
    case buffers =>
      show rest.length + (s.inactiveMessages + 1) = _
      omega
    case receivers => exact fun u hu => absurd hu (hnone u)
    case senders => exact fun u hu => absurd hu (hnone u)
    case timeoutCode => exact fun u hu => absurd hu (hnone u)
    case fresh => exact h.fresh
    case distinct => exact h.distinct
    case ledger =>
      show s.accepted.Perm (_ :: _ ++ (underway s.role (Function.update s.slot t m) _ ++ rest))
      rw [hunder]
      exact hledger
    case ordered => exact hordered
  · have hu : u ∈ s.waitQueue.queue := by
      rw [hq]
      exact List.mem_cons_self
    have hpne : s.pendingMessages ≠ [] := by
      rw [hp]
      exact List.cons_ne_nil _ _
    have hmem : ∀ v ∈ ((s.waitQueue.setReturnCode t .successful).extractCritical
        cfg.discipline u).queue, v ∈ s.waitQueue.queue := by
      intro v hv
      rw [Waiters.extractCritical_queue] at hv
      exact List.mem_of_mem_erase hv
    have hnew := h.accept_fresh (s.slot u).data (s.slot u).priority
    have hlast : ∀ m' ∈ rest, m'.serial < s.serial := by
      intro m' hm'
      refine h.pending_fresh m' ?_
      rw [hp]
      exact List.mem_cons_of_mem _ hm'
    have hplace := place_perm ⟨(s.slot u).data, (s.slot u).priority, s.serial⟩ rest
    rw [e]
    constructor
    case waiters => exact hw.extractCritical hu
    case count =>
      show s.numberOfPendingMessages - 1 + 1 = (place _ rest).length
      rw [hplace.length_eq, List.length_cons]
      omega
    case buffers =>
      show (place _ rest).length + s.inactiveMessages = _
      rw [hplace.length_eq, List.length_cons]
      omega
    case receivers =>
      intro v hv hrole
      exact absurd ((h.sender_of_pending hpne (hmem v hv)).symm.trans hrole) nofun
    case senders => exact fun v hv => h.senders v (hmem v hv)
    case timeoutCode => exact fun v hv => h.timeoutCode v (hmem v hv)
    case fresh => exact hnew.1
    case distinct => exact hnew.2
    case ledger =>
      have hother : given s.role (s.waitQueue.setReturnCode t .successful) u = false := by
        unfold given
        rw [h.sender_of_pending hpne hu]
        rfl
      show (_ :: s.accepted).Perm
        (_ :: _ ++ (underway s.role (Function.update s.slot t m) _ ++ place _ rest))
      rw [underway_extractCritical_other hother, hunder]
      refine (hledger.cons _).trans ?_
      exact (List.Perm.swap _ _ _).trans ((ledger_place _ _ _ _).symm.cons _)
    case ordered => exact place_ordered hordered hlast

/-- A receiver blocks, or is told that nothing is pending. -/
theorem Inv.seize_empty (h : Inv cfg s) (hp : s.pendingMessages = []) (hidle : s.waitQueue.Idle t)
    (wait : Bool) (timeout : Nat) : Inv cfg (seize cfg s t wait timeout) := by
  have hkeep : ∀ u ∈ s.waitQueue.queue, u ≠ t := fun u hu e => hidle.1 (e ▸ hu)
  unfold CoreMessageQueue.seize
  simp only [hp]
  split
  next =>
    have hset : (s.waitQueue.setReturnCode t .successful).setReturnCode t .unsatisfiedNowait =
        s.waitQueue.setReturnCode t .unsatisfiedNowait := by
      simp [Waiters.setReturnCode]
    rw [hset]
    constructor
    case waiters => exact h.waiters.setReturnCode t _
    case count => exact h.count.trans (congrArg List.length hp)
    case buffers =>
      have hb := h.buffers
      rw [hp] at hb
      exact hb
    case receivers =>
      intro u hu hrole
      refine ⟨rfl, ?_⟩
      rw [Waiters.setReturnCode_of_ne _ (hkeep u hu)]
      exact (h.receivers u hu hrole).2
    case senders => exact h.senders
    case timeoutCode => exact h.timeoutCode
    case fresh => exact h.fresh
    case distinct => exact h.distinct
    case ledger =>
      have hl := h.ledger
      rw [hp] at hl
      show s.accepted.Perm (_ ++ (underway s.role s.slot _ ++ _))
      rw [underway_idle hidle (fun _ _ => rfl) (fun _ _ => rfl)]
      exact hl
    case ordered => exact List.Pairwise.nil
  next =>
    constructor
    case waiters => exact (h.waiters.setReturnCode t _).enqueueCritical hidle _
    case count => exact h.count.trans (congrArg List.length hp)
    case buffers =>
      have hb := h.buffers
      rw [hp] at hb
      exact hb
    case receivers =>
      intro u hu hrole
      refine ⟨rfl, ?_⟩
      show (s.waitQueue.setReturnCode t .successful).returnCode u = _
      rcases eq_or_ne u t with rfl | hne
      · exact Waiters.setReturnCode_self ..
      · have hu : u ∈ s.waitQueue.queue := (Waiters.mem_enqueueCritical.mp hu).resolve_left hne
        rw [Waiters.setReturnCode_of_ne _ hne]
        exact (h.receivers u hu (h.receiver_of_empty hp hu)).2
    case senders =>
      intro u hu hrole
      rcases eq_or_ne u t with rfl | hne
      · simp only [Function.update_self] at hrole
        cases hrole
      · simp only [Function.update_of_ne hne] at hrole
        exact h.senders u ((Waiters.mem_enqueueCritical.mp hu).resolve_left hne) hrole
    case timeoutCode =>
      intro u hu
      rcases eq_or_ne u t with rfl | hne
      · simp only [Waiters.enqueueCritical, Function.update_self]
        split <;> decide
      · have hu : u ∈ s.waitQueue.queue := (Waiters.mem_enqueueCritical.mp hu).resolve_left hne
        simpa [Waiters.enqueueCritical, Waiters.setReturnCode, hne] using h.timeoutCode u hu
    case fresh => exact h.fresh
    case distinct => exact h.distinct
    case ledger =>
      have hl := h.ledger
      rw [hp] at hl
      have hunder := underway_idle hidle (fun _ _ => rfl)
        (fun u hne => Function.update_of_ne hne Role.receiver s.role) .successful
      show s.accepted.Perm (_ ++ (underway (Function.update s.role t .receiver) s.slot
        (s.waitQueue.setReturnCode t .successful) ++ _))
      rw [hunder]
      exact hl
    case ordered => exact List.Pairwise.nil

theorem Inv.seize (h : Inv cfg s) (hidle : s.waitQueue.Idle t) (wait : Bool) (timeout : Nat) :
    Inv cfg (seize cfg s t wait timeout) := by
  cases hp : s.pendingMessages with
  | nil => exact h.seize_empty hp hidle wait timeout
  | cons m rest => exact h.seize_pending hp hidle wait timeout

/-! ## Timeouts and returns -/

/-- A thread that times out takes its message, or its empty buffer, with it. -/
theorem Inv.threadTimeout (h : Inv cfg s) (t : Tid) : Inv cfg (threadTimeout cfg s t) := by
  unfold CoreMessageQueue.threadTimeout
  rcases Waiters.timeout_cases cfg.discipline s.waitQueue t with e | ⟨code, ht, hcode, e⟩
  · rw [e]
    exact h
  · have hne : code ≠ .successful := by
      rintro rfl
      exact h.timeoutCode t ht hcode
    have hmem : ∀ u ∈ ((s.waitQueue.setReturnCode t code).extractCritical cfg.discipline t).queue,
        u ≠ t ∧ u ∈ s.waitQueue.queue := by
      intro u hu
      rw [Waiters.extractCritical_queue] at hu
      exact h.waiters.queue_nodup.mem_erase_iff.mp hu
    rw [e]
    constructor
    case waiters => exact (h.waiters.setReturnCode t code).extractCritical ht
    case count => exact h.count
    case buffers => exact h.buffers
    case receivers =>
      intro u hu hrole
      obtain ⟨hut, hu⟩ := hmem u hu
      refine ⟨(h.receivers u hu hrole).1, ?_⟩
      rw [Waiters.extractCritical_returnCode, Waiters.setReturnCode_of_ne _ hut]
      exact (h.receivers u hu hrole).2
    case senders => exact fun u hu => h.senders u (hmem u hu).2
    case timeoutCode => exact fun u hu => h.timeoutCode u (hmem u hu).2
    case fresh => exact h.fresh
    case distinct => exact h.distinct
    case ledger =>
      have hother : given s.role (s.waitQueue.setReturnCode t code) t = false := by
        unfold given
        rw [Waiters.setReturnCode_self, decide_eq_false hne, Bool.and_false]
      have hcongr : underway s.role s.slot (s.waitQueue.setReturnCode t code) =
          underway s.role s.slot s.waitQueue := by
        refine underway_congr rfl ?_
        intro u hu
        have hut : u ≠ t := by
          rintro rfl
          exact h.waiters.not_mem_released ht hu
        exact ⟨rfl, rfl, Waiters.setReturnCode_of_ne _ hut _⟩
      show s.accepted.Perm (_ ++ (underway s.role s.slot _ ++ _))
      rw [underway_extractCritical_other hother, hcongr]
      exact h.ledger
    case ordered => exact h.ordered

theorem Inv.complete (h : Inv cfg s) (ht : t ∈ s.waitQueue.released) :
    Inv cfg (complete s t) := by
  refine ⟨h.waiters.resume t, h.count, h.buffers, h.receivers, h.senders, h.timeoutCode, h.fresh,
    h.distinct, ?_, h.ordered⟩
  have hl := h.ledger
  unfold CoreMessageQueue.complete
  simp only
  cases hg : given s.role s.waitQueue t with
  | true =>
    rw [if_pos (given_iff.mp hg)]
    have hu := (underway_resume_given ht hg : (underway s.role s.slot s.waitQueue).Perm _)
    refine hl.trans ?_
    refine ((hu.append_right _).append_left _).trans ?_
    exact List.perm_middle
  | false =>
    have hnot : ¬ (s.role t = .receiver ∧ s.waitQueue.returnCode t = .successful) := by
      intro hc
      rw [given_iff.mpr hc] at hg
      cases hg
    rw [if_neg hnot]
    have hu := (underway_resume_other ht hg : (underway s.role s.slot s.waitQueue).Perm _)
    exact hl.trans ((hu.append_right _).append_left _)

/-! ## Runs -/

theorem Inv.step (h : Inv cfg s) (hstep : Step cfg s s') : Inv cfg s' := by
  cases hstep with
  | submit t data submitType wait timeout isr hidle =>
    exact h.submit data submitType wait timeout hidle
  | seize t wait timeout hidle => exact h.seize hidle wait timeout
  | broadcastTurn data hsize => exact h.broadcastTurn data
  | threadTimeout t => exact h.threadTimeout t
  | complete t ht => exact h.complete ht

theorem Reachable.inv (h : Reachable cfg s) : Inv cfg s :=
  Reach.invariant h .start fun _ _ hi hs => hi.step hs

/-- A submit reports success exactly when the queue accepts the message, with
its contents and its priority. -/
theorem submit_accepted (cfg : Config Tid) (s : State Tid) (t : Tid) (data : Data)
    (submitType : SubmitType) (wait : Bool) (timeout : Nat) (isr : Bool) :
    (submit cfg s t data submitType wait timeout isr).2.accepted =
      if (submit cfg s t data submitType wait timeout isr).1 = .successful then
        ⟨data, submitType, s.serial⟩ :: s.accepted
      else s.accepted := by
  unfold submit
  split
  next => rfl
  next =>
    rcases dequeueReceiver_cases cfg s data submitType with ⟨e, -⟩ | ⟨u, q, -, -, e⟩
    · rw [e]
      simp only
      split
      next => rfl
      next =>
        split
        next => rfl
        next =>
          split
          next => rfl
          next => rfl
    · rw [e]
      rfl

/-- In every state of every run the counter counts the pending messages and no
buffer is lost; receivers wait only while nothing is pending, senders only
while the queue is full; the accepted messages, all different, are those that
receivers returned with, those that receivers are about to return with, and the
pending ones; and the pending messages stand in the order of their priorities,
those of equal priority in the order of their acceptance and urgent ones before
all others.  A submit that reports success has its message accepted, one that
does not leaves the messages as they are.  A receive takes the first pending
message and has the message of the first blocked sender accepted in its
place. -/
theorem message_delivery (h : Reachable cfg s) :
    s.numberOfPendingMessages = s.pendingMessages.length ∧
      s.pendingMessages.length + s.inactiveMessages = cfg.maximumPendingMessages ∧
      (∀ t ∈ s.waitQueue.queue, s.role t = .receiver → s.pendingMessages = []) ∧
      (∀ t ∈ s.waitQueue.queue, s.role t = .sender →
        s.pendingMessages.length = cfg.maximumPendingMessages) ∧
      (s.accepted.map Message.serial).Nodup ∧
      s.accepted.Perm (s.received.map Prod.snd ++
        (underway s.role s.slot s.waitQueue ++ s.pendingMessages)) ∧
      s.pendingMessages.Pairwise Before ∧
      (∀ t data submitType wait timeout isr,
        (submit cfg s t data submitType wait timeout isr).2.accepted =
          if (submit cfg s t data submitType wait timeout isr).1 = .successful then
            ⟨data, submitType, s.serial⟩ :: s.accepted
          else s.accepted) ∧
      (∀ t m rest wait timeout, s.waitQueue.Idle t → s.pendingMessages = m :: rest →
        (seize cfg s t wait timeout).received = (t, m) :: s.received ∧
          (s.waitQueue.queue = [] → (seize cfg s t wait timeout).accepted = s.accepted) ∧
          ∀ u q, s.waitQueue.queue = u :: q →
            (∀ v ∈ q, cfg.discipline.Before cfg.prio s.waitQueue u v) ∧
              (seize cfg s t wait timeout).accepted =
                ⟨(s.slot u).data, (s.slot u).priority, s.serial⟩ :: s.accepted ∧
              (seize cfg s t wait timeout).waitQueue.queue = q) := by
  have hinv := h.inv
  refine ⟨hinv.count, hinv.buffers, fun t ht hr => (hinv.receivers t ht hr).1, ?_, hinv.distinct,
    hinv.ledger, hinv.ordered, fun t data st wait timeout isr =>
      submit_accepted cfg s t data st wait timeout isr, ?_⟩
  · intro t ht hr
    have hb := hinv.buffers
    rw [hinv.senders t ht hr] at hb
    exact hb
  · intro t m rest wait timeout hidle hp
    rcases seize_pending hp hidle wait timeout with ⟨hq, e⟩ | ⟨u, q, hq, -, e⟩
    · refine ⟨by rw [e], fun _ => by rw [e], ?_⟩
      intro u q hq'
      rw [hq] at hq'
      cases hq'
    · refine ⟨by rw [e], fun hnil => ?_, ?_⟩
      · rw [hq] at hnil
        cases hnil
      · intro u' q' hq'
        obtain ⟨rfl, rfl⟩ := List.cons.inj (hq.symm.trans hq')
        refine ⟨hinv.waiters.before_first hq, by rw [e], ?_⟩
        rw [e]
        show ((s.waitQueue.setReturnCode t _).extractCritical _ u).queue = q
        rw [Waiters.extractCritical_queue, Waiters.setReturnCode_queue, hq, List.erase_cons_head]

/-- A queue for one message of at most four bytes. -/
def single : Config Nat where
  maximumPendingMessages := 1
  maximumMessageSize := 4
  discipline := .fifo
  prio := fun _ => 0
  pos := by decide

/-- Thread 1 sends, thread 2 blocks with an urgent message, thread 3 receives
what thread 1 sent, and the urgent message takes its place. -/
def relay : State Nat :=
  let sent := (submit single (start single) 1 [7#8] .sendRequest true 0 false).2
  let blocked := (submit single sent 2 [8#8, 9#8] .urgentRequest true 0 false).2
  seize single blocked 3 true 0

theorem message_delivery_relay :
    relay.received = [(3, ⟨[7#8], .sendRequest, 0⟩)] ∧ relay.waitQueue.released = [2] ∧
      relay.pendingMessages = [⟨[8#8, 9#8], .urgentRequest, 1⟩] ∧
      relay.accepted.Perm (relay.received.map Prod.snd ++
        (underway relay.role relay.slot relay.waitQueue ++ relay.pendingMessages)) := by
  refine ⟨by decide, by decide, by decide, ?_⟩
  refine (message_delivery (.tail (.tail (.tail .refl (.submit _ 1 [7#8] .sendRequest true 0 false ?_))
    (.submit _ 2 [8#8, 9#8] .urgentRequest true 0 false ?_)) (.seize _ 3 true 0 ?_))).2.2.2.2.2.1
  all_goals decide

end Rtems.CoreMessageQueue
