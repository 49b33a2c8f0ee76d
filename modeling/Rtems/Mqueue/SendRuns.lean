import Rtems.Mqueue.Sending
import Rtems.Core.MessageDelivery

/-!
# What blocked senders return

Along the runs whose steps are careful, a waiting sender holds the code of success and its message is
not accepted, and from the moment it leaves the queue its code says whether the message was accepted.
`Buffers` is the bookkeeping that tells senders from receivers, `Ledger` the one about the sends.
-/

namespace Rtems.BlockingSend

open ThreadQueue
open CoreMessageQueue (Status SubmitType Data Role Message place place_perm)

variable {Tid : Type} [DecidableEq Tid] {cfg : Config Tid} {s s' : State Tid} {t u : Tid}
  {message : Message}

/-! ## The invariants -/

/-- The waiting threads are all receivers, while nothing is pending, or all senders, while no buffer
is free. -/
structure Buffers (cfg : Config Tid) (s : State Tid) : Prop where
  waiters : s.waitQueue.Inv cfg.discipline cfg.prio
  count : s.numberOfPendingMessages = s.pendingMessages.length
  buffers : s.pendingMessages.length + s.inactiveMessages = cfg.maximumPendingMessages
  receivers : ∀ t ∈ s.waitQueue.queue, s.role t = .receiver → s.pendingMessages = []
  senders : ∀ t ∈ s.waitQueue.queue, s.role t = .sender → s.inactiveMessages = 0

/-- A thread that waits to send. -/
structure Waiting (s : State Tid) (t : Tid) : Prop where
  fresh : (s.slot t).serial < s.sends
  unaccepted : (s.slot t).serial ∉ s.accepted
  returnCode : s.waitQueue.returnCode t = code .successful
  timeoutCode : ∀ c, s.waitQueue.timeoutCode t = some c → c = code .timeout

/-- A sender that is on its way back. -/
structure Settled (s : State Tid) (t : Tid) : Prop where
  fresh : (s.slot t).serial < s.sends
  outcome : s.waitQueue.returnCode t = code .successful ∧ (s.slot t).serial ∈ s.accepted ∨
    s.waitQueue.returnCode t = code .timeout ∧ (s.slot t).serial ∉ s.accepted

/-- The sends and their messages. -/
structure Ledger (s : State Tid) : Prop where
  waiting : ∀ t ∈ s.waitQueue.queue, s.role t = .sender → Waiting s t
  released : ∀ t ∈ s.waitQueue.released, s.role t = .sender → Settled s t
  distinct : ∀ t ∈ s.waitQueue.queue, ∀ u, u ∈ s.waitQueue.queue ∨ u ∈ s.waitQueue.released →
    s.role t = .sender → s.role u = .sender → (s.slot t).serial = (s.slot u).serial → t = u
  returned : ∀ r ∈ s.returns, r.send < s.sends ∧
    ∀ t ∈ s.waitQueue.queue, s.role t = .sender → (s.slot t).serial ≠ r.send
  reported : ∀ r ∈ s.returns, r.result = .ok () ∧ r.send ∈ s.accepted ∨
    r.result = .error .ETIMEDOUT ∧ r.send ∉ s.accepted
  fresh : ∀ n ∈ s.accepted, n < s.sends
  pending : ∀ m ∈ s.pendingMessages, m.serial ∈ s.accepted
  delivered : ∀ n ∈ s.delivered, n ∈ s.accepted

section

omit [DecidableEq Tid]

theorem Buffers.start (returnCode : Tid → ReturnCode) : Buffers cfg (start cfg returnCode) where
  waiters := ⟨List.nodup_nil, List.Pairwise.nil, nofun⟩
  count := rfl
  buffers := Nat.zero_add _
  receivers := nofun
  senders := nofun

theorem Ledger.start (returnCode : Tid → ReturnCode) : Ledger (start cfg returnCode) where
  waiting := fun _ h => absurd h List.not_mem_nil
  released := fun _ h => absurd h List.not_mem_nil
  distinct := fun _ h => absurd h List.not_mem_nil
  returned := fun _ h => absurd h List.not_mem_nil
  reported := fun _ h => absurd h List.not_mem_nil
  fresh := fun _ h => absurd h List.not_mem_nil
  pending := fun _ h => absurd h List.not_mem_nil
  delivered := fun _ h => absurd h List.not_mem_nil

/-! ## Senders and receivers -/

/-- While nothing is pending only receivers wait. -/
theorem Buffers.receiver_of_empty (h : Buffers cfg s) (hp : s.pendingMessages = [])
    (ht : t ∈ s.waitQueue.queue) : s.role t = .receiver := by
  cases hr : s.role t with
  | receiver => rfl
  | sender =>
    have hb := h.buffers
    rw [hp, h.senders t ht hr] at hb
    exact absurd cfg.pos (by rw [← hb]; exact Nat.lt_irrefl 0)

/-- While something is pending only senders wait. -/
theorem Buffers.sender_of_pending (h : Buffers cfg s) (hp : s.pendingMessages ≠ [])
    (ht : t ∈ s.waitQueue.queue) : s.role t = .sender := by
  cases hr : s.role t with
  | sender => rfl
  | receiver => exact absurd (h.receivers t ht hr) hp

end

/-- A thread leaves the queue. -/
theorem Buffers.release (h : Buffers cfg s) (ht : t ∈ s.waitQueue.queue) (c : ReturnCode) :
    Buffers cfg { s with
      waitQueue := (s.waitQueue.setReturnCode t c).extractCritical cfg.discipline t } := by
  have hmem : ∀ u ∈ ((s.waitQueue.setReturnCode t c).extractCritical cfg.discipline t).queue,
      u ∈ s.waitQueue.queue := by
    intro u hu
    rw [Waiters.extractCritical_queue] at hu
    exact List.mem_of_mem_erase hu
  exact {
    waiters := (h.waiters.setReturnCode t c).extractCritical ht
    count := h.count
    buffers := h.buffers
    receivers := fun u hu => h.receivers u (hmem u hu)
    senders := fun u hu => h.senders u (hmem u hu) }

/-! ## Steps of the ledger -/

section

omit [DecidableEq Tid]

/-- Nothing changes for the senders that wait or return. -/
theorem Ledger.congr (h : Ledger s) (hqueue : s'.waitQueue.queue = s.waitQueue.queue)
    (hreleased : s'.waitQueue.released = s.waitQueue.released)
    (hsame : ∀ t, t ∈ s.waitQueue.queue ∨ t ∈ s.waitQueue.released → s'.role t = s.role t ∧
      (s.role t = .sender → s'.slot t = s.slot t ∧
        s'.waitQueue.returnCode t = s.waitQueue.returnCode t ∧
        s'.waitQueue.timeoutCode t = s.waitQueue.timeoutCode t))
    (haccepted : s'.accepted = s.accepted) (hreturns : s'.returns = s.returns)
    (hsends : s.sends ≤ s'.sends) (hpending : ∀ m ∈ s'.pendingMessages, m.serial ∈ s.accepted)
    (hdelivered : ∀ n ∈ s'.delivered, n ∈ s.accepted) : Ledger s' where
  waiting := by
    intro t ht hrole
    rw [hqueue] at ht
    obtain ⟨h1, hsend⟩ := hsame t (.inl ht)
    obtain ⟨h2, h3, h4⟩ := hsend (h1.symm.trans hrole)
    have hw := h.waiting t ht (h1.symm.trans hrole)
    refine ⟨?_, ?_, h3.trans hw.returnCode, ?_⟩
    · rw [h2]
      exact Nat.lt_of_lt_of_le hw.fresh hsends
    · rw [h2, haccepted]
      exact hw.unaccepted
    · rw [h4]
      exact hw.timeoutCode
  released := by
    intro t ht hrole
    rw [hreleased] at ht
    obtain ⟨h1, hsend⟩ := hsame t (.inr ht)
    obtain ⟨h2, h3, -⟩ := hsend (h1.symm.trans hrole)
    have hs := h.released t ht (h1.symm.trans hrole)
    constructor
    · rw [h2]
      exact Nat.lt_of_lt_of_le hs.fresh hsends
    · rw [h2, h3, haccepted]
      exact hs.outcome
  distinct := by
    intro t ht u hu hrt hru he
    rw [hqueue] at ht
    rw [hqueue, hreleased] at hu
    obtain ⟨h1, hsend⟩ := hsame t (.inl ht)
    obtain ⟨h1', hsend'⟩ := hsame u hu
    have hrt := h1.symm.trans hrt
    have hru := h1'.symm.trans hru
    rw [(hsend hrt).1, (hsend' hru).1] at he
    exact h.distinct t ht u hu hrt hru he
  returned := by
    intro r hr
    rw [hreturns] at hr
    obtain ⟨hlt, hne⟩ := h.returned r hr
    refine ⟨Nat.lt_of_lt_of_le hlt hsends, ?_⟩
    intro t ht hrole
    rw [hqueue] at ht
    obtain ⟨h1, hsend⟩ := hsame t (.inl ht)
    have hrole := h1.symm.trans hrole
    rw [(hsend hrole).1]
    exact hne t ht hrole
  reported := by
    rw [hreturns, haccepted]
    exact h.reported
  fresh := by
    rw [haccepted]
    exact fun n hn => Nat.lt_of_lt_of_le (h.fresh n hn) hsends
  pending := by
    rw [haccepted]
    exact hpending
  delivered := by
    rw [haccepted]
    exact hdelivered

/-- A message that no blocked send has is accepted. -/
theorem Ledger.accept (h : Ledger s) {n : Nat} (hlt : n < s.sends)
    (hqueue : ∀ t, t ∈ s.waitQueue.queue ∨ t ∈ s.waitQueue.released → s.role t = .sender →
      (s.slot t).serial ≠ n)
    (hreturns : ∀ r ∈ s.returns, r.send ≠ n) : Ledger { s with accepted := n :: s.accepted } where
  waiting := by
    intro t ht hrole
    have hw := h.waiting t ht hrole
    refine ⟨hw.fresh, ?_, hw.returnCode, hw.timeoutCode⟩
    exact List.not_mem_cons_of_ne_of_not_mem (hqueue t (.inl ht) hrole) hw.unaccepted
  released := by
    intro t ht hrole
    have hs := h.released t ht hrole
    refine ⟨hs.fresh, ?_⟩
    rcases hs.outcome with ⟨hc, hm⟩ | ⟨hc, hm⟩
    · exact .inl ⟨hc, List.mem_cons_of_mem n hm⟩
    · exact .inr ⟨hc, List.not_mem_cons_of_ne_of_not_mem (hqueue t (.inr ht) hrole) hm⟩
  distinct := h.distinct
  returned := h.returned
  reported := by
    intro r hr
    rcases h.reported r hr with ⟨hc, hm⟩ | ⟨hc, hm⟩
    · exact .inl ⟨hc, List.mem_cons_of_mem n hm⟩
    · exact .inr ⟨hc, List.not_mem_cons_of_ne_of_not_mem (hreturns r hr) hm⟩
  fresh := List.forall_mem_cons.mpr ⟨hlt, h.fresh⟩
  pending := fun m hm => List.mem_cons_of_mem n (h.pending m hm)
  delivered := fun m hm => List.mem_cons_of_mem n (h.delivered m hm)

end

/-- A thread leaves the queue with a code of its own.  A sender leaves it by a timeout. -/
theorem Ledger.release (h : Ledger s) (hi : s.waitQueue.Inv cfg.discipline cfg.prio)
    (ht : t ∈ s.waitQueue.queue) {c : ReturnCode}
    (hsender : s.role t = .sender → c = code .timeout) :
    Ledger { s with
      waitQueue := (s.waitQueue.setReturnCode t c).extractCritical cfg.discipline t } := by
  have hmem : ∀ u ∈ s.waitQueue.queue.erase t, u ≠ t ∧ u ∈ s.waitQueue.queue :=
    fun u hu => hi.queue_nodup.mem_erase_iff.mp hu
  have hcode : ∀ u, u ≠ t → (s.waitQueue.setReturnCode t c).returnCode u =
      s.waitQueue.returnCode u := fun u hne => Waiters.setReturnCode_of_ne _ hne c
  constructor
  case waiting =>
    intro u hu hrole
    rw [Waiters.extractCritical_queue] at hu
    obtain ⟨hne, hu⟩ := hmem u hu
    have hw := h.waiting u hu hrole
    exact ⟨hw.fresh, hw.unaccepted, (hcode u hne).trans hw.returnCode, hw.timeoutCode⟩
  case released =>
    intro u hu hrole
    rcases List.mem_cons.mp hu with rfl | hu
    · have hw := h.waiting u ht hrole
      refine ⟨hw.fresh, .inr ⟨?_, hw.unaccepted⟩⟩
      exact (Waiters.setReturnCode_self ..).trans (hsender hrole)
    · have hne : u ≠ t := fun e => hi.not_mem_released ht (e ▸ hu)
      have hs := h.released u hu hrole
      refine ⟨hs.fresh, ?_⟩
      show (s.waitQueue.setReturnCode t c).returnCode u = _ ∧ _ ∨
        (s.waitQueue.setReturnCode t c).returnCode u = _ ∧ _
      rw [hcode u hne]
      exact hs.outcome
  case distinct =>
    intro u hu v hv
    rw [Waiters.extractCritical_queue] at hu hv
    refine h.distinct u (hmem u hu).2 v ?_
    rcases hv with hv | hv
    · exact .inl (hmem v hv).2
    · rcases List.mem_cons.mp hv with rfl | hv
      · exact .inl ht
      · exact .inr hv
  case returned =>
    intro r hr
    obtain ⟨hlt, hne⟩ := h.returned r hr
    refine ⟨hlt, ?_⟩
    intro u hu
    rw [Waiters.extractCritical_queue] at hu
    exact hne u (hmem u hu).2
  case reported => exact h.reported
  case fresh => exact h.fresh
  case pending => exact h.pending
  case delivered => exact h.delivered

theorem setReturnCode_eq_self (w : Waiters Tid ReturnCode) (t : Tid) :
    w.setReturnCode t (w.returnCode t) = w := by
  unfold Waiters.setReturnCode
  rw [Function.update_eq_self]

/-- A thread leaves the queue with the code that it has. -/
theorem Buffers.leave (h : Buffers cfg s) (ht : t ∈ s.waitQueue.queue) :
    Buffers cfg { s with waitQueue := s.waitQueue.extractCritical cfg.discipline t } := by
  have hb := h.release ht (s.waitQueue.returnCode t)
  rw [setReturnCode_eq_self] at hb
  exact hb

/-- A receiver leaves the queue with the code that it has. -/
theorem Ledger.leave (h : Ledger s) (hi : s.waitQueue.Inv cfg.discipline cfg.prio)
    (ht : t ∈ s.waitQueue.queue) (hrole : s.role t = .receiver) :
    Ledger { s with waitQueue := s.waitQueue.extractCritical cfg.discipline t } := by
  have hl := h.release hi ht (c := s.waitQueue.returnCode t) fun hsender =>
    absurd (hrole.symm.trans hsender) nofun
  rw [setReturnCode_eq_self] at hl
  exact hl

/-- A waiting sender leaves the queue, and its message is accepted. -/
theorem Ledger.queue (h : Ledger s) (hi : s.waitQueue.Inv cfg.discipline cfg.prio)
    (ht : t ∈ s.waitQueue.queue) (hsender : s.role t = .sender) :
    Ledger { s with
      accepted := (s.slot t).serial :: s.accepted
      waitQueue := s.waitQueue.extractCritical cfg.discipline t } := by
  have hmem : ∀ u ∈ s.waitQueue.queue.erase t, u ≠ t ∧ u ∈ s.waitQueue.queue :=
    fun u hu => hi.queue_nodup.mem_erase_iff.mp hu
  have hne : ∀ u, u ∈ s.waitQueue.queue ∨ u ∈ s.waitQueue.released → u ≠ t → s.role u = .sender →
      (s.slot u).serial ≠ (s.slot t).serial :=
    fun u hu hut hrole he => hut (h.distinct t ht u hu hsender hrole he.symm).symm
  have hw := h.waiting t ht hsender
  constructor
  case waiting =>
    intro u hu hrole
    rw [Waiters.extractCritical_queue] at hu
    obtain ⟨hut, hu⟩ := hmem u hu
    have hw := h.waiting u hu hrole
    refine ⟨hw.fresh, ?_, hw.returnCode, hw.timeoutCode⟩
    exact List.not_mem_cons_of_ne_of_not_mem (hne u (.inl hu) hut hrole) hw.unaccepted
  case released =>
    intro u hu hrole
    rcases List.mem_cons.mp hu with rfl | hu
    · exact ⟨hw.fresh, .inl ⟨hw.returnCode, List.mem_cons_self⟩⟩
    · have hut : u ≠ t := fun e => hi.not_mem_released ht (e ▸ hu)
      have hs := h.released u hu hrole
      refine ⟨hs.fresh, ?_⟩
      rcases hs.outcome with ⟨hc, hm⟩ | ⟨hc, hm⟩
      · exact .inl ⟨hc, List.mem_cons_of_mem _ hm⟩
      · exact .inr ⟨hc, List.not_mem_cons_of_ne_of_not_mem (hne u (.inr hu) hut hrole) hm⟩
  case distinct =>
    intro u hu v hv
    rw [Waiters.extractCritical_queue] at hu hv
    refine h.distinct u (hmem u hu).2 v ?_
    rcases hv with hv | hv
    · exact .inl (hmem v hv).2
    · rcases List.mem_cons.mp hv with rfl | hv
      · exact .inl ht
      · exact .inr hv
  case returned =>
    intro r hr
    obtain ⟨hlt, hne⟩ := h.returned r hr
    refine ⟨hlt, ?_⟩
    intro u hu
    rw [Waiters.extractCritical_queue] at hu
    exact hne u (hmem u hu).2
  case reported =>
    intro r hr
    rcases h.reported r hr with ⟨hc, hm⟩ | ⟨hc, hm⟩
    · exact .inl ⟨hc, List.mem_cons_of_mem _ hm⟩
    · refine .inr ⟨hc, List.not_mem_cons_of_ne_of_not_mem ?_ hm⟩
      exact ((h.returned r hr).2 t ht hsender).symm
  case fresh => exact List.forall_mem_cons.mpr ⟨hw.fresh, h.fresh⟩
  case pending => exact fun m hm => List.mem_cons_of_mem _ (h.pending m hm)
  case delivered => exact fun m hm => List.mem_cons_of_mem _ (h.delivered m hm)

/-- A thread joins the queue.  A sender brings a new message and the code of success. -/
theorem Ledger.enqueue (h : Ledger s) (cfg : Config Tid) (hidle : s.waitQueue.Idle t) (role : Role)
    (message : Message) (timeoutCode : Option ReturnCode)
    (hsender : role = .sender → message.serial < s.sends ∧ message.serial ∉ s.accepted ∧
      s.waitQueue.returnCode t = code .successful ∧
      (∀ c, timeoutCode = some c → c = code .timeout) ∧
      (∀ u, u ∈ s.waitQueue.queue ∨ u ∈ s.waitQueue.released → s.role u = .sender →
        (s.slot u).serial ≠ message.serial) ∧
      ∀ r ∈ s.returns, r.send ≠ message.serial) :
    Ledger { s with
      slot := Function.update s.slot t message
      role := Function.update s.role t role
      waitQueue := s.waitQueue.enqueueCritical cfg.discipline cfg.prio t timeoutCode } := by
  have hne : ∀ u, u ∈ s.waitQueue.queue ∨ u ∈ s.waitQueue.released → u ≠ t := by
    rintro u (hu | hu) rfl
    · exact hidle.1 hu
    · exact hidle.2 hu
  have hslot : ∀ u, u ≠ t → Function.update s.slot t message u = s.slot u :=
    fun u hu => Function.update_of_ne hu ..
  have hrole : ∀ u, u ≠ t → Function.update s.role t role u = s.role u :=
    fun u hu => Function.update_of_ne hu ..
  have hqueue : ∀ u, u ∈ (s.waitQueue.enqueueCritical cfg.discipline cfg.prio t timeoutCode).queue ↔
      u = t ∨ u ∈ s.waitQueue.queue := fun u => Waiters.mem_enqueueCritical
  constructor
  case waiting =>
    intro u hu hr
    rcases eq_or_ne u t with rfl | hut
    · simp only [Function.update_self] at hr
      obtain ⟨hlt, hna, hcode, htc, -⟩ := hsender hr
      refine ⟨?_, ?_, hcode, ?_⟩
      · simpa only [Function.update_self] using hlt
      · simpa only [Function.update_self] using hna
      · simpa [Waiters.enqueueCritical] using htc
    · have hw := h.waiting u (((hqueue u).mp hu).resolve_left hut) ((hrole u hut).symm.trans hr)
      refine ⟨?_, ?_, hw.returnCode, ?_⟩
      · simpa only [hslot u hut] using hw.fresh
      · simpa only [hslot u hut] using hw.unaccepted
      · simpa [Waiters.enqueueCritical, hut] using hw.timeoutCode
  case released =>
    intro u hu hr
    have hut := hne u (.inr hu)
    have hs := h.released u hu ((hrole u hut).symm.trans hr)
    constructor
    · simpa only [hslot u hut] using hs.fresh
    · simpa only [hslot u hut, Waiters.enqueueCritical_returnCode] using hs.outcome
  case distinct =>
    intro u hu v hv hru hrv he
    dsimp only at hru hrv he
    have hactive : ∀ w, w ∈ (s.waitQueue.enqueueCritical cfg.discipline cfg.prio t
        timeoutCode).queue ∨ w ∈ s.waitQueue.released → w ≠ t →
        w ∈ s.waitQueue.queue ∨ w ∈ s.waitQueue.released :=
      fun w hw hwt => hw.imp_left fun hw => ((hqueue w).mp hw).resolve_left hwt
    rcases eq_or_ne u t with rfl | hut
    · rcases eq_or_ne v u with rfl | hvt
      · rfl
      · rw [Function.update_self] at hru
        rw [hrole v hvt] at hrv
        rw [Function.update_self, hslot v hvt] at he
        exact absurd he.symm ((hsender hru).2.2.2.2.1 v (hactive v hv hvt) hrv)
    · rw [hrole u hut] at hru
      rw [hslot u hut] at he
      rcases eq_or_ne v t with rfl | hvt
      · rw [Function.update_self] at hrv he
        exact absurd he ((hsender hrv).2.2.2.2.1 u (hactive u (.inl hu) hut) hru)
      · rw [hrole v hvt] at hrv
        rw [hslot v hvt] at he
        exact h.distinct u (((hqueue u).mp hu).resolve_left hut) v (hactive v hv hvt) hru hrv he
  case returned =>
    intro r hr
    obtain ⟨hlt, hnew⟩ := h.returned r hr
    refine ⟨hlt, ?_⟩
    intro u hu hru
    dsimp only at hru ⊢
    rcases eq_or_ne u t with rfl | hut
    · rw [Function.update_self] at hru ⊢
      exact ((hsender hru).2.2.2.2.2 r hr).symm
    · rw [hrole u hut] at hru
      rw [hslot u hut]
      exact hnew u (((hqueue u).mp hu).resolve_left hut) hru
  case reported => exact h.reported
  case fresh => exact h.fresh
  case pending => exact h.pending
  case delivered => exact h.delivered

section

omit [DecidableEq Tid]

theorem resultOf_successful : resultOf cfg (code .successful) = .ok () := rfl

theorem resultOf_timeout : resultOf cfg (code .timeout) = .error .ETIMEDOUT := rfl

end

/-- A released thread returns. -/
theorem Ledger.complete (h : Ledger s) (hi : s.waitQueue.Inv cfg.discipline cfg.prio)
    (ht : t ∈ s.waitQueue.released) : Ledger (complete cfg s t) := by
  have hmem : ∀ u ∈ s.waitQueue.released.erase t, u ∈ s.waitQueue.released :=
    fun u hu => List.mem_of_mem_erase hu
  have hnew : ∀ r ∈ (BlockingSend.complete cfg s t).returns, r ∈ s.returns ∨
      s.role t = .sender ∧ r.send = (s.slot t).serial ∧
        r.result = resultOf cfg (s.waitQueue.returnCode t) := by
    intro r hr
    unfold BlockingSend.complete at hr
    dsimp only at hr
    split at hr
    next hrole =>
      rcases List.mem_cons.mp hr with rfl | hr
      · exact .inr ⟨hrole, rfl, rfl⟩
      · exact .inl hr
    next => exact .inl hr
  constructor
  case waiting => exact fun u hu hrole =>
    have hw := h.waiting u hu hrole
    ⟨hw.fresh, hw.unaccepted, hw.returnCode, hw.timeoutCode⟩
  case released => exact fun u hu hrole =>
    have hs := h.released u (hmem u hu) hrole
    ⟨hs.fresh, hs.outcome⟩
  case distinct => exact fun u hu v hv => h.distinct u hu v (hv.imp_right (hmem v))
  case returned =>
    intro r hr
    rcases hnew r hr with hr | ⟨hrole, he, -⟩
    · exact h.returned r hr
    · rw [he]
      refine ⟨(h.released t ht hrole).fresh, ?_⟩
      intro u hu hru heq
      obtain rfl : u = t := h.distinct u hu t (.inr ht) hru hrole heq
      exact hi.not_mem_released hu ht
  case reported =>
    intro r hr
    rcases hnew r hr with hr | ⟨hrole, he, hresult⟩
    · exact h.reported r hr
    · rw [he, hresult]
      rcases (h.released t ht hrole).outcome with ⟨hc, hm⟩ | ⟨hc, hm⟩
      · exact .inl ⟨by rw [hc, resultOf_successful], hm⟩
      · exact .inr ⟨by rw [hc, resultOf_timeout], hm⟩
  case fresh => exact h.fresh
  case pending => exact h.pending
  case delivered => exact h.delivered

/-! ## Steps of the buffers -/

/-- A waiting thread whose messages and code do not concern the buffers. -/
theorem Buffers.enqueue (h : Buffers cfg s) (hidle : s.waitQueue.Idle t) (role : Role)
    (message : Message) (timeoutCode : Option ReturnCode)
    (hreceiver : role = .receiver → s.pendingMessages = [])
    (hsender : role = .sender → s.inactiveMessages = 0) :
    Buffers cfg { s with
      slot := Function.update s.slot t message
      role := Function.update s.role t role
      waitQueue := s.waitQueue.enqueueCritical cfg.discipline cfg.prio t timeoutCode } where
  waiters := h.waiters.enqueueCritical hidle _
  count := h.count
  buffers := h.buffers
  receivers := by
    intro u hu hr
    dsimp only at hr
    rcases eq_or_ne u t with rfl | hut
    · rw [Function.update_self] at hr
      exact hreceiver hr
    · rw [Function.update_of_ne hut] at hr
      exact h.receivers u ((Waiters.mem_enqueueCritical.mp hu).resolve_left hut) hr
  senders := by
    intro u hu hr
    dsimp only at hr
    rcases eq_or_ne u t with rfl | hut
    · rw [Function.update_self] at hr
      exact hsender hr
    · rw [Function.update_of_ne hut] at hr
      exact h.senders u ((Waiters.mem_enqueueCritical.mp hu).resolve_left hut) hr

/-- The code of a thread in no call. -/
theorem Buffers.setReturnCode (h : Buffers cfg s) (t : Tid) (c : ReturnCode) :
    Buffers cfg { s with waitQueue := s.waitQueue.setReturnCode t c } where
  waiters := h.waiters.setReturnCode t c
  count := h.count
  buffers := h.buffers
  receivers := h.receivers
  senders := h.senders

theorem Ledger.setReturnCode (h : Ledger s) (hidle : s.waitQueue.Idle t) (c : ReturnCode) :
    Ledger { s with waitQueue := s.waitQueue.setReturnCode t c } := by
  refine h.congr rfl rfl ?_ rfl rfl (Nat.le_refl _) h.pending h.delivered
  rintro u hu
  have hut : u ≠ t := by
    rintro rfl
    exact hu.elim hidle.1 hidle.2
  exact ⟨rfl, fun _ => ⟨rfl, Waiters.setReturnCode_of_ne _ hut c, rfl⟩⟩

/-! ## Sending -/

/-- The invariant of the careful runs. -/
structure Inv (cfg : Config Tid) (s : State Tid) : Prop where
  buffers : Buffers cfg s
  ledger : Ledger s

section

omit [DecidableEq Tid]

/-- A send takes its number. -/
theorem Inv.number (h : Inv cfg s) : Inv cfg { s with sends := s.sends + 1 } where
  buffers := ⟨h.buffers.waiters, h.buffers.count, h.buffers.buffers, h.buffers.receivers,
    h.buffers.senders⟩
  ledger := h.ledger.congr rfl rfl (fun _ _ => ⟨rfl, fun _ => ⟨rfl, rfl, rfl⟩⟩) rfl rfl (Nat.le_succ _)
    h.ledger.pending h.ledger.delivered

/-- The number of the next send is not in use. -/
theorem Ledger.unused (h : Ledger s) :
    s.sends ∉ s.accepted ∧
      (∀ t, t ∈ s.waitQueue.queue ∨ t ∈ s.waitQueue.released → s.role t = .sender →
        (s.slot t).serial ≠ s.sends) ∧
      ∀ r ∈ s.returns, r.send ≠ s.sends := by
  refine ⟨fun hm => Nat.lt_irrefl _ (h.fresh _ hm), ?_, ?_⟩
  · rintro t (ht | ht) hrole
    · exact Nat.ne_of_lt (h.waiting t ht hrole).fresh
    · exact Nat.ne_of_lt (h.released t ht hrole).fresh
  · exact fun r hr => Nat.ne_of_lt (h.returned r hr).1

/-- The new message is accepted in one way or the other. -/
theorem Ledger.acceptNew (h : Ledger s) :
    Ledger { s with sends := s.sends + 1, accepted := s.sends :: s.accepted } := by
  obtain ⟨-, hactive, hreturns⟩ := h.unused
  have hnumber : Ledger { s with sends := s.sends + 1 } :=
    h.congr rfl rfl (fun _ _ => ⟨rfl, fun _ => ⟨rfl, rfl, rfl⟩⟩) rfl rfl (Nat.le_succ _) h.pending h.delivered
  exact hnumber.accept (Nat.lt_succ_self _) hactive hreturns

end

/-- A message is handed to a waiting receiver. -/
theorem Inv.dequeueReceiver (h : Inv cfg s) {data : Data} {submitType : SubmitType}
    (hs : dequeueReceiver cfg { s with sends := s.sends + 1 } ⟨data, submitType, s.sends⟩ =
      some s') : Inv cfg s' := by
  unfold BlockingSend.dequeueReceiver at hs
  split at hs
  next => cases hs
  next hzero =>
    split at hs
    next => cases hs
    next t hfirst =>
      obtain ⟨q, hq⟩ := Waiters.firstLocked_eq_some.mp hfirst
      have hempty : s.pendingMessages = [] :=
        List.length_eq_zero_iff.mp (h.buffers.count.symm.trans (Decidable.not_not.mp hzero))
      have ht : t ∈ s.waitQueue.queue := by
        rw [show s.waitQueue.queue = t :: q from hq]
        exact List.mem_cons_self
      have hrole := h.buffers.receiver_of_empty hempty ht
      cases hs
      have hb := h.buffers.leave ht
      have hl := h.ledger.acceptNew.leave h.buffers.waiters ht hrole
      refine ⟨⟨hb.waiters, hb.count, hb.buffers, hb.receivers, hb.senders⟩, ?_⟩
      refine hl.congr rfl rfl ?_ rfl rfl (Nat.le_refl _) hl.pending ?_
      · rintro u -
        refine ⟨rfl, fun hsender => ⟨?_, rfl, rfl⟩⟩
        have hut : u ≠ t := by
          rintro rfl
          exact absurd (hrole.symm.trans hsender) nofun
        exact Function.update_of_ne hut ..
      · exact List.forall_mem_cons.mpr ⟨List.mem_cons_self, hl.delivered⟩

section

omit [DecidableEq Tid]

/-- A message is pending now. -/
theorem Ledger.insert (h : Ledger s) (message : Message) (n : Nat) (hn : message.serial ∈ s.accepted) :
    Ledger { s with
      numberOfPendingMessages := n
      pendingMessages := place message s.pendingMessages } := by
  refine h.congr rfl rfl (fun _ _ => ⟨rfl, fun _ => ⟨rfl, rfl, rfl⟩⟩) rfl rfl (Nat.le_refl _) ?_
    h.delivered
  intro m hm
  rcases List.mem_cons.mp ((place_perm message s.pendingMessages).mem_iff.mp hm) with rfl | hm
  · exact hn
  · exact h.pending m hm

/-- A message is given to a free buffer. -/
theorem Inv.insertNew (h : Inv cfg s) (hq : s.waitQueue.queue = []) (hfree : s.inactiveMessages ≠ 0)
    (data : Data) (submitType : SubmitType) :
    Inv cfg (insertMessage
      { s with sends := s.sends + 1, inactiveMessages := s.inactiveMessages - 1 }
      ⟨data, submitType, s.sends⟩) := by
  have hnone : ∀ t, t ∉ s.waitQueue.queue := fun t ht => by
    rw [hq] at ht
    exact List.not_mem_nil ht
  constructor
  · constructor
    case waiters => exact h.buffers.waiters
    case count =>
      show s.numberOfPendingMessages + 1 = (place _ s.pendingMessages).length
      rw [(place_perm _ _).length_eq, h.buffers.count]
      rfl
    case buffers =>
      have hb := h.buffers.buffers
      show (place _ s.pendingMessages).length + (s.inactiveMessages - 1) = _
      rw [(place_perm _ _).length_eq, List.length_cons]
      omega
    case receivers => exact fun u hu => absurd hu (hnone u)
    case senders => exact fun u hu => absurd hu (hnone u)
  · have hl := h.ledger.acceptNew.insert ⟨data, submitType, s.sends⟩
      (s.numberOfPendingMessages + 1) List.mem_cons_self
    exact hl.congr rfl rfl (fun _ _ => ⟨rfl, fun _ => ⟨rfl, rfl, rfl⟩⟩) rfl rfl (Nat.le_refl _)
      hl.pending hl.delivered

/-- Without a receiver and with a free buffer nobody waits. -/
theorem Inv.nobody_waits (h : Inv cfg s) (hfree : s.inactiveMessages ≠ 0)
    (hnone : s.numberOfPendingMessages ≠ 0 ∨ s.waitQueue.queue = []) : s.waitQueue.queue = [] := by
  rcases hnone with hne | hq
  · refine List.eq_nil_iff_forall_not_mem.mpr ?_
    intro t ht
    have hp : s.pendingMessages ≠ [] := by
      rintro hnil
      rw [h.buffers.count, hnil] at hne
      exact hne rfl
    exact hfree (h.buffers.senders t ht (h.buffers.sender_of_pending hp ht))
  · exact hq

end

theorem dequeueReceiver_eq_none (h : dequeueReceiver cfg s message = none) :
    s.numberOfPendingMessages ≠ 0 ∨ s.waitQueue.queue = [] := by
  unfold dequeueReceiver at h
  split at h
  next hne => exact .inl hne
  next =>
    split at h
    next hfirst => exact .inr (Waiters.firstLocked_eq_none.mp hfirst)
    next => cases h

/-- A send that waits needs the code of success to begin with. -/
theorem Inv.submit (h : Inv cfg s) {data : Data} (submitType : SubmitType) (wait : Bool)
    {isr : Bool} (timeout : Nat) (hidle : isr = false → s.waitQueue.Idle t)
    (hcode : data.length ≤ cfg.maximumMessageSize → wait = true → isr = false →
      s.inactiveMessages = 0 → (s.numberOfPendingMessages ≠ 0 ∨ s.waitQueue.queue = []) →
      s.waitQueue.returnCode t = code .successful) :
    Inv cfg (submit cfg s t data submitType wait timeout isr).2 := by
  unfold BlockingSend.submit
  dsimp only
  split
  next => exact h.number
  next hsize =>
    cases hd : BlockingSend.dequeueReceiver cfg { s with sends := s.sends + 1 }
        ⟨data, submitType, s.sends⟩ with
    | some s' => exact h.dequeueReceiver hd
    | none =>
      have hnone := dequeueReceiver_eq_none hd
      dsimp only
      split
      next hfree => exact h.insertNew (h.nobody_waits hfree hnone) hfree data submitType
      next hfull =>
        have hfull : s.inactiveMessages = 0 := Decidable.not_not.mp hfull
        cases wait with
        | false => exact h.number
        | true =>
          cases isr with
          | true => exact h.number
          | false =>
            have hidle := hidle rfl
            have hok := hcode (Nat.le_of_not_gt hsize) rfl rfl hfull hnone
            have hn := h.number
            obtain ⟨hna, hactive, hreturns⟩ := h.ledger.unused
            refine ⟨hn.buffers.enqueue hidle _ _ _ nofun fun _ => hfull, ?_⟩
            refine hn.ledger.enqueue cfg hidle .sender ⟨data, submitType, s.sends⟩ _ ?_
            intro _
            refine ⟨Nat.lt_succ_self _, hna, hok, ?_, hactive, hreturns⟩
            intro c hc
            split at hc
            next => exact (Option.some.inj hc).symm
            next => cases hc

theorem Inv.sendSupport (h : Inv cfg s) {fd : Option Oflag} {data : Data} {msgPrio timeout : Nat}
    {wait isr : Bool} (hidle : isr = false → s.waitQueue.Idle t)
    (hcode : MustWait cfg s fd data msgPrio wait isr →
      s.waitQueue.returnCode t = code .successful) :
    Inv cfg (sendSupport cfg s t fd data msgPrio wait timeout isr).2 := by
  unfold BlockingSend.sendSupport
  split
  next hprio =>
    cases fd with
    | none => exact h
    | some oflag =>
      obtain ⟨rdonly, nonblock⟩ := oflag
      cases rdonly with
      | true => exact h
      | false =>
        have hsubmit := h.submit (priorityToCore cfg msgPrio hprio)
          (if wait then !nonblock else wait) timeout hidle
          (fun hsize hwait hisr hfull hnone => by
            cases wait with
            | false => cases hwait
            | true =>
              cases nonblock with
              | true => cases hwait
              | false => exact hcode ⟨hprio, rfl, hsize, rfl, hisr, hfull, hnone⟩)
        dsimp only
        rw [if_neg Bool.false_ne_true]
        split
        next he =>
          rw [he] at hsubmit
          exact hsubmit
        next he =>
          rw [he] at hsubmit
          exact hsubmit
  next => exact h

/-! ## Receiving -/

theorem Inv.setReturnCode (h : Inv cfg s) (hidle : s.waitQueue.Idle t) (c : ReturnCode) :
    Inv cfg { s with waitQueue := s.waitQueue.setReturnCode t c } :=
  ⟨h.buffers.setReturnCode t c, h.ledger.setReturnCode hidle c⟩

/-- A thread in no call takes a pending message, and its buffer is free. -/
theorem Inv.take (h : Inv cfg s) (hidle : s.waitQueue.Idle t) {rest : List Message}
    (hp : s.pendingMessages = message :: rest) (hq : s.waitQueue.queue = []) :
    Inv cfg { s with
      pendingMessages := rest
      numberOfPendingMessages := s.numberOfPendingMessages - 1
      slot := Function.update s.slot t message
      delivered := message.serial :: s.delivered
      inactiveMessages := s.inactiveMessages + 1 } := by
  have hnone : ∀ u, u ∉ s.waitQueue.queue := fun u hu => by
    rw [hq] at hu
    exact List.not_mem_nil hu
  have hpending : ∀ m ∈ message :: rest, m.serial ∈ s.accepted := hp ▸ h.ledger.pending
  constructor
  · constructor
    case waiters => exact h.buffers.waiters
    case count =>
      show s.numberOfPendingMessages - 1 = rest.length
      rw [h.buffers.count, hp]
      rfl
    case buffers =>
      have hb := h.buffers.buffers
      rw [hp, List.length_cons] at hb
      show rest.length + (s.inactiveMessages + 1) = _
      omega
    case receivers => exact fun u hu => absurd hu (hnone u)
    case senders => exact fun u hu => absurd hu (hnone u)
  · refine h.ledger.congr rfl rfl ?_ rfl rfl (Nat.le_refl _) ?_ ?_
    · intro u hu
      have hut : u ≠ t := by
        rintro rfl
        exact hu.elim hidle.1 hidle.2
      exact ⟨rfl, fun _ => ⟨Function.update_of_ne hut .., rfl, rfl⟩⟩
    · exact fun m hm => hpending m (List.mem_cons_of_mem _ hm)
    · exact List.forall_mem_cons.mpr ⟨hpending message List.mem_cons_self, h.ledger.delivered⟩

/-- A thread in no call takes a pending message, and a waiting sender gets its buffer. -/
theorem Inv.takeAndAdmit (h : Inv cfg s) (hidle : s.waitQueue.Idle t) {rest : List Message}
    (hp : s.pendingMessages = message :: rest) (hu : u ∈ s.waitQueue.queue) :
    Inv cfg { insertMessage { s with
        pendingMessages := rest
        numberOfPendingMessages := s.numberOfPendingMessages - 1
        slot := Function.update s.slot t message
        delivered := message.serial :: s.delivered } (s.slot u) with
      waitQueue := s.waitQueue.extractCritical cfg.discipline u } := by
  have hne : s.pendingMessages ≠ [] := by
    rw [hp]
    exact List.cons_ne_nil _ _
  have hrole := h.buffers.sender_of_pending hne hu
  have hpending : ∀ m ∈ message :: rest, m.serial ∈ s.accepted := hp ▸ h.ledger.pending
  have hleave := h.buffers.leave hu
  have hmem : ∀ v ∈ (s.waitQueue.extractCritical cfg.discipline u).queue, v ∈ s.waitQueue.queue := by
    intro v hv
    rw [Waiters.extractCritical_queue] at hv
    exact List.mem_of_mem_erase hv
  constructor
  · constructor
    case waiters => exact hleave.waiters
    case count =>
      show s.numberOfPendingMessages - 1 + 1 = (place _ rest).length
      rw [(place_perm _ _).length_eq, h.buffers.count, hp]
      rfl
    case buffers =>
      have hb := h.buffers.buffers
      rw [hp, List.length_cons] at hb
      show (place _ rest).length + s.inactiveMessages = _
      rw [(place_perm _ _).length_eq, List.length_cons]
      exact hb
    case receivers =>
      intro v hv hr
      exact absurd ((h.buffers.sender_of_pending hne (hmem v hv)).symm.trans hr) nofun
    case senders => exact fun v hv => h.buffers.senders v (hmem v hv)
  · have hl := h.ledger.queue h.buffers.waiters hu hrole
    refine hl.congr rfl rfl ?_ rfl rfl (Nat.le_refl _) ?_ ?_
    · intro v hv
      have hvt : v ≠ t := by
        rintro rfl
        rcases hv with hv | hv
        · exact hidle.1 (hmem v hv)
        · rcases List.mem_cons.mp hv with rfl | hv
          · exact hidle.1 hu
          · exact hidle.2 hv
      exact ⟨rfl, fun _ => ⟨Function.update_of_ne hvt .., rfl, rfl⟩⟩
    · intro m hm
      rcases List.mem_cons.mp ((place_perm (s.slot u) rest).mem_iff.mp hm) with rfl | hm
      · exact List.mem_cons_self
      · exact List.mem_cons_of_mem _ (hpending m (List.mem_cons_of_mem _ hm))
    · intro n hn
      rcases List.mem_cons.mp hn with rfl | hn
      · exact List.mem_cons_of_mem _ (hpending message List.mem_cons_self)
      · exact List.mem_cons_of_mem _ (h.ledger.delivered n hn)

theorem Inv.seize (h : Inv cfg s) (hidle : s.waitQueue.Idle t) (wait : Bool) (timeout : Nat) :
    Inv cfg (seize cfg s t wait timeout) := by
  have hset := h.setReturnCode hidle (code .successful)
  have hidle' : (s.waitQueue.setReturnCode t (code .successful)).Idle t := hidle
  unfold BlockingSend.seize
  dsimp only
  split
  next message rest hp =>
    split
    next hfirst => exact hset.take hidle' hp (Waiters.firstLocked_eq_none.mp hfirst)
    next u hfirst =>
      obtain ⟨q, hq⟩ := Waiters.firstLocked_eq_some.mp hfirst
      have hu : u ∈ s.waitQueue.queue := by
        rw [show s.waitQueue.queue = u :: q from hq]
        exact List.mem_cons_self
      have hut : u ≠ t := fun e => hidle.1 (e ▸ hu)
      have hadmit := hset.takeAndAdmit hidle' hp hu
      rw [Function.update_of_ne hut]
      exact hadmit
  next hp =>
    split
    next => exact hset.setReturnCode hidle' _
    next =>
      have hb := hset.buffers.enqueue hidle' .receiver (s.slot t)
        (if timeout ≠ 0 then some (code .timeout) else none) (fun _ => hp) nofun
      have hl := hset.ledger.enqueue cfg hidle' .receiver (s.slot t)
        (if timeout ≠ 0 then some (code .timeout) else none) nofun
      dsimp only at hb hl
      rw [Function.update_eq_self] at hb hl
      exact ⟨hb, hl⟩

/-! ## The other ways out of the queue -/

theorem Inv.threadTimeout (h : Inv cfg s) (t : Tid) : Inv cfg (threadTimeout cfg s t) := by
  unfold BlockingSend.threadTimeout
  rcases Waiters.timeout_cases cfg.discipline s.waitQueue t with e | ⟨c, ht, hc, e⟩
  · rw [e]
    exact h
  · rw [e]
    refine ⟨h.buffers.release ht c, h.ledger.release h.buffers.waiters ht ?_⟩
    exact fun hrole => (h.ledger.waiting t ht hrole).timeoutCode c hc

theorem Inv.closeTurn (h : Inv cfg s) (hreceivers : ∀ t ∈ s.waitQueue.queue, s.role t = .receiver) :
    Inv cfg (closeTurn cfg s) := by
  unfold BlockingSend.closeTurn
  rcases Waiters.flushTurn_cases cfg.discipline s.waitQueue (code .wasDeleted) with e | ⟨t, ht, e⟩
  · rw [e]
    exact h
  · rw [e]
    refine ⟨h.buffers.release ht _, h.ledger.release h.buffers.waiters ht ?_⟩
    exact fun hrole => absurd ((hreceivers t ht).symm.trans hrole) nofun

section

omit [DecidableEq Tid]

theorem Inv.flush (h : Inv cfg s) (hq : s.waitQueue.queue = []) : Inv cfg (flush s) := by
  have hnone : ∀ t, t ∉ s.waitQueue.queue := fun t ht => by
    rw [hq] at ht
    exact List.not_mem_nil ht
  unfold BlockingSend.flush
  split
  next =>
    constructor
    · constructor
      case waiters => exact h.buffers.waiters
      case count => rfl
      case buffers =>
        have hb := h.buffers.buffers
        show 0 + (s.inactiveMessages + s.pendingMessages.length) = _
        omega
      case receivers => exact fun u hu => absurd hu (hnone u)
      case senders => exact fun u hu => absurd hu (hnone u)
    · exact h.ledger.congr rfl rfl (fun _ _ => ⟨rfl, fun _ => ⟨rfl, rfl, rfl⟩⟩) rfl rfl
        (Nat.le_refl _) (fun m hm => absurd hm List.not_mem_nil) h.ledger.delivered
  next => exact h

end

theorem Inv.complete (h : Inv cfg s) (ht : t ∈ s.waitQueue.released) :
    Inv cfg (complete cfg s t) where
  buffers := ⟨h.buffers.waiters.resume t, h.buffers.count, h.buffers.buffers, h.buffers.receivers,
    h.buffers.senders⟩
  ledger := h.ledger.complete h.buffers.waiters ht

/-! ## Runs -/

theorem Inv.run (h : Inv cfg s) {op : Op Tid} (henabled : op.Enabled s) (hc : op.Careful cfg s) :
    Inv cfg (op.run cfg s) := by
  cases op with
  | sendSupport executing fd data msgPrio wait timeout isr => exact h.sendSupport henabled hc
  | seize executing wait timeout => exact h.seize henabled wait timeout
  | otherWait t returnCode => exact h.setReturnCode henabled returnCode
  | threadTimeout t => exact h.threadTimeout t
  | closeTurn => exact h.closeTurn hc
  | flush => exact h.flush henabled
  | complete t => exact h.complete henabled

theorem inv_of_carefullyReachable {returnCode : Tid → ReturnCode}
    (h : CarefullyReachable cfg returnCode s) : Inv cfg s := by
  refine Reach.invariant h ⟨.start returnCode, .start returnCode⟩ ?_
  rintro a b hi ⟨op, henabled, hcareful, rfl⟩
  exact hi.run henabled hcareful

/-- Where nobody waits with an old return code, every blocked send reports what happened to its
message. -/
theorem sends_reported (cfg : Config Tid) (returnCode : Tid → ReturnCode)
    (h : CarefullyReachable cfg returnCode s) : ∀ r ∈ s.returns, Reported s r := by
  intro r hr
  have hl := (inv_of_carefullyReachable h).ledger
  rcases hl.reported r hr with ⟨hres, hm⟩ | ⟨hres, hm⟩
  · refine ⟨by simp [hres, hm], by simp [hres, hm], ?_⟩
    rw [hres]
    exact nofun
  · exact ⟨by simp [hres, hm], by simp [hres, hm], fun _ hd => hm (hl.delivered _ hd)⟩

/-- A queue for one message. -/
def smallQueue : Config Nat where
  maximumPendingMessages := 1
  maximumMessageSize := 4
  discipline := .fifo
  prio := fun _ => 1
  pos := Nat.one_pos
  mqPrioMax := 32
  mqPrioMax_lt := by decide
  beyond := fun _ => .EINVAL

/-- An `mq_send` of an empty message, or an `mq_timedsend`. -/
def sendOf (t : Nat) (timeout : Nat) : Op Nat := .sendSupport t (some ⟨false, false⟩) [] 0 true timeout false

/-- The queue after some steps. -/
def after (ops : List (Op Nat)) : State Nat :=
  ops.foldl (fun s op => op.run smallQueue s) (start smallQueue fun _ => 0#32)

/-- Thread 0 fills the queue and waits, and thread 1 receives. -/
theorem sends_reported_one : Reported (after [sendOf 0 0, sendOf 0 0, .seize 1 true 0, .complete 0])
    ⟨0, 1, .ok ()⟩ := by
  have h : CarefullyReachable smallQueue (fun _ => 0#32)
      (after [sendOf 0 0, sendOf 0 0, .seize 1 true 0, .complete 0]) := by
    have hstart : CarefullyReachable smallQueue (fun _ => 0#32) (after []) := .refl
    have hfull := hstart.tail ⟨sendOf 0 0, fun _ => by decide, fun _ => rfl, rfl⟩
    have hwaits := hfull.tail ⟨sendOf 0 0, fun _ => by decide, fun _ => rfl, rfl⟩
    have hserved := hwaits.tail ⟨.seize 1 true 0, (by decide : Waiters.Idle _ _), trivial, rfl⟩
    exact hserved.tail ⟨.complete 0, (by decide : 0 ∈ Waiters.released _), trivial, rfl⟩
  exact sends_reported smallQueue _ h _ List.mem_cons_self

/-- A send of thread 0 times out, and its next one returns the old code with its message in the
queue. -/
theorem sends_unreported : ¬ ∀ s, Reachable smallQueue (fun _ => 0#32) s →
    ∀ r ∈ s.returns, Reported s r := by
  intro hall
  have h : Reachable smallQueue (fun _ => 0#32) (after [sendOf 0 0, sendOf 0 5, .threadTimeout 0,
      .complete 0, sendOf 0 0, .seize 1 true 0, .complete 0]) := by
    have hstart : Reachable smallQueue (fun _ => 0#32) (after []) := .refl
    have hfull := hstart.tail ⟨sendOf 0 0, fun _ => by decide, rfl⟩
    have hwaits := hfull.tail ⟨sendOf 0 5, fun _ => by decide, rfl⟩
    have htimeout := hwaits.tail ⟨.threadTimeout 0, trivial, rfl⟩
    have hback := htimeout.tail ⟨.complete 0, (by decide : 0 ∈ Waiters.released _), rfl⟩
    have hagain := hback.tail ⟨sendOf 0 0, fun _ => by decide, rfl⟩
    have hserved := hagain.tail ⟨.seize 1 true 0, (by decide : Waiters.Idle _ _), rfl⟩
    exact hserved.tail ⟨.complete 0, (by decide : 0 ∈ Waiters.released _), rfl⟩
  have hreport := hall _ h ⟨0, 2, .error .ETIMEDOUT⟩ List.mem_cons_self
  exact hreport.timeout.mp rfl (by decide)

end Rtems.BlockingSend
