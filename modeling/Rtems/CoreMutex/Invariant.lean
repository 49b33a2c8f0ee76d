import Rtems.CoreMutex.Frame

/-!
# The mutex invariant

The invariant has four parts.  `Queues`: a thread is in the queue of the mutex
it waits for, once, and a queue of the priority disciplines is in the order of
the priorities.  `Holds`: a mutex without a holder is not nested, and every
resource count is right.  `Served`: a mutex with waiting
threads is held.  `Ceiled`: the holder of a ceiling mutex has at least its
ceiling.  The last two fail in the middle of a surrender and of a seize, so
they are stated for one mutex at a time.
-/

namespace Rtems.CoreMutex

open Lib
open ThreadQueue (Operations mem_enqueue nodup_enqueue extract_eq_erase)

variable {Tid Mid : Type} [DecidableEq Tid] [DecidableEq Mid]
variable {s s' : State Tid Mid} {t u : Tid} {m n : Mid}

structure Queues (s : State Tid Mid) : Prop where
  mem : ∀ m t, t ∈ (s.mutexes m).waitQueue ↔ (s.threads t).waitQueue = some m
  nodup : ∀ m, (s.mutexes m).waitQueue.Nodup
  ordered : ∀ m, (s.mutexes m).attributes.discipline ≠ .fifo →
    Ordered s.prio (s.mutexes m).waitQueue

structure Holds [Fintype Mid] (s : State Tid Mid) : Prop where
  free : ∀ m, (s.mutexes m).holder = none → (s.mutexes m).nestCount = 0
  count : ∀ t, (s.threads t).resourceCount = heldCount s t

def Served (s : State Tid Mid) (m : Mid) : Prop :=
  (s.mutexes m).waitQueue ≠ [] → (s.mutexes m).holder ≠ none

def Ceiled (s : State Tid Mid) (m : Mid) : Prop :=
  (s.mutexes m).attributes.discipline = .priorityCeiling →
    ∀ t, (s.mutexes m).holder = some t → s.prio t ≤ (s.mutexes m).attributes.priorityCeiling

/-- The invariant, with what it says of single mutexes only for those that
are `ok`. -/
structure InvFor [Fintype Mid] (ok : Mid → Prop) (s : State Tid Mid) : Prop where
  queues : Queues s
  holds : Holds s
  served : ∀ m, ok m → Served s m
  ceiled : ∀ m, ok m → Ceiled s m

/-- The invariant between operations. -/
def Inv [Fintype Mid] (s : State Tid Mid) : Prop := InvFor (fun _ => True) s

/-! ## The queues -/

section

omit [DecidableEq Mid] [DecidableEq Tid]

theorem Queues.congr (h : Queues s)
    (hq : ∀ m, (s'.mutexes m).waitQueue = (s.mutexes m).waitQueue)
    (ha : ∀ m, (s'.mutexes m).attributes = (s.mutexes m).attributes)
    (hw : ∀ t, (s'.threads t).waitQueue = (s.threads t).waitQueue)
    (hp : ∀ t, s'.prio t = s.prio t) : Queues s' where
  mem m t := by rw [hq, hw]; exact h.mem m t
  nodup m := by rw [hq]; exact h.nodup m
  ordered m hm := by
    rw [hq]
    rw [ha] at hm
    exact (h.ordered m hm).congr fun t _ => hp t

end

section

omit [DecidableEq Mid]

/-- The reordered queue has the same threads, in the order of the new
priorities. -/
theorem Queues.priorityChange (h : Queues s) {p : Tid → Priority}
    (hw : (s.threads t).waitQueue = some m)
    (hp : ∀ u, u ≠ t → p u = s.prio u) {q : List Tid}
    (hq : q = (s.mutexes m).attributes.operations.priorityChange p (s.mutexes m).waitQueue t) :
    q.Perm (s.mutexes m).waitQueue ∧
      ((s.mutexes m).attributes.discipline ≠ .fifo → Ordered p q) := by
  have ht : t ∈ (s.mutexes m).waitQueue := (h.mem m t).mpr hw
  by_cases hf : (s.mutexes m).attributes.discipline = .fifo
  · rw [hq, Attributes.operations, if_pos hf]
    exact ⟨.refl _, fun hn => absurd hf hn⟩
  · rw [hq, operations_of_ne_fifo hf]
    refine ⟨(stableInsert_perm _ _ _).trans (List.perm_cons_erase ht).symm, fun _ => ?_⟩
    refine Ordered.stableInsert ?_ t
    refine ((h.ordered m hf).erase t).congr fun u hu => hp u ?_
    rintro rfl
    exact (h.nodup m).not_mem_erase hu

end

theorem Queues.reprice_queue (h : Queues s) (hr : Repriced t s s') (m : Mid) :
    (s'.mutexes m).waitQueue.Perm (s.mutexes m).waitQueue ∧
      ((s.mutexes m).attributes.discipline ≠ .fifo →
        Ordered s'.prio (s'.mutexes m).waitQueue) := by
  obtain ⟨q, hq, rfl | ⟨hw, hc⟩⟩ := hr.mutex m
  · rw [hq]
    refine ⟨.refl _, fun hf => ?_⟩
    by_cases hp : s'.prio t = s.prio t
    · refine (h.ordered m hf).congr fun u _ => ?_
      by_cases hu : u = t
      · rw [hu, hp]
      · exact hr.prio_other hu
    · by_cases hw : (s.threads t).waitQueue = some m
      · have := hr.follows m hw hp
        rw [hq] at this
        exact (h.priorityChange hw (fun u hu => hr.prio_other hu) this).2 hf
      · refine (h.ordered m hf).congr fun u hu => hr.prio_other ?_
        rintro rfl
        exact hw ((h.mem m u).mp hu)
  · rw [hq]
    exact h.priorityChange hw (fun u hu => hr.prio_other hu) hc

/-- A priority change keeps the queues. -/
theorem Queues.reprice (h : Queues s) (hr : Repriced t s s') : Queues s' where
  mem m u := by
    rw [(h.reprice_queue hr m).1.mem_iff, hr.waitQueue_eq]
    exact h.mem m u
  nodup m := (h.reprice_queue hr m).1.nodup_iff.mpr (h.nodup m)
  ordered m hf := (h.reprice_queue hr m).2 (hr.attributes m ▸ hf)

theorem Queues.enqueue (h : Queues s) (hw : (s.threads t).waitQueue = none) (ticks : Nat) :
    Queues (enqueue s t m ticks) := by
  have hnot : ∀ n, t ∉ (s.mutexes n).waitQueue := fun n hn => by
    have := (h.mem n t).mp hn
    rw [hw] at this
    cases this
  have hq : ∀ n, ((CoreMutex.enqueue s t m ticks).mutexes n).waitQueue =
      if n = m then (s.mutexes m).attributes.operations.enqueue
        (CoreMutex.enqueue s t m ticks).prio (s.mutexes m).waitQueue t
      else (s.mutexes n).waitQueue := by
    intro n
    rw [CoreMutex.enqueue, onMutex_mutexes]
    split <;> rfl
  refine
    { mem := fun n u => ?_
      nodup := fun n => ?_
      ordered := fun n hf => ?_ }
  · rw [hq, enqueue_waits]
    by_cases hn : n = m
    · subst hn
      rw [if_pos rfl, mem_enqueue (operations_ne_default _)]
      by_cases hu : u = t
      · simp [hu]
      · simp [hu, h.mem n u]
    · rw [if_neg hn]
      by_cases hu : u = t
      · simp [hu, hnot n, Ne.symm hn]
      · simp [hu, h.mem n u]
  · rw [hq]
    split
    · exact nodup_enqueue (h.nodup m) (hnot m)
    · exact h.nodup n
  · have ha : ((CoreMutex.enqueue s t m ticks).mutexes n).attributes = (s.mutexes n).attributes := by
      obtain ⟨q, e⟩ := enqueue_mutex (s := s) (t := t) (m := m) ticks n
      rw [e]
    rw [ha] at hf
    rw [hq]
    split
    next hn =>
      subst hn
      rw [operations_of_ne_fifo hf]
      exact Ordered.stableInsert ((h.ordered n hf).congr fun u _ => enqueue_prio ticks u) t
    next => exact (h.ordered n hf).congr fun u _ => enqueue_prio ticks u

theorem Queues.extract (h : Queues s) (hw : (s.threads t).waitQueue = some m) :
    Queues (extract s t m) := by
  refine
    { mem := fun n u => ?_
      nodup := fun n => ?_
      ordered := fun n hf => ?_ }
  all_goals simp only [extract_mutex] at *
  · rw [extract_waits]
    by_cases hn : n = m
    · subst hn
      rw [if_pos rfl, (h.nodup n).mem_erase_iff]
      by_cases hu : u = t
      · simp [hu]
      · simp [hu, h.mem n u]
    · rw [if_neg hn]
      by_cases hu : u = t
      · simp [hu, h.mem n t, hw, Ne.symm hn]
      · simp [hu, h.mem n u]
  · split
    · exact (h.nodup n).erase t
    · exact h.nodup n
  · split
    · exact ((h.ordered n hf).erase t).congr fun u _ => extract_prio u
    · exact (h.ordered n hf).congr fun u _ => extract_prio u

/-! ## The holders -/

section Holds

variable [Fintype Mid]

section

omit [DecidableEq Mid]

/-- What the holders depend on did not change. -/
theorem Holds.congr (h : Holds s)
    (hm : ∀ m, ∃ q, s'.mutexes m = { s.mutexes m with waitQueue := q })
    (hr : ∀ t, (s'.threads t).resourceCount = (s.threads t).resourceCount) : Holds s' := by
  have ha : ∀ m, (s'.mutexes m).attributes = (s.mutexes m).attributes ∧
      (s'.mutexes m).holder = (s.mutexes m).holder ∧
      (s'.mutexes m).nestCount = (s.mutexes m).nestCount := by
    intro m
    obtain ⟨q, e⟩ := hm m
    rw [e]
    exact ⟨rfl, rfl, rfl⟩
  refine { free := fun m => ?_, count := fun t => ?_ }
  · rw [(ha m).2.1, (ha m).2.2]
    exact h.free m
  · rw [hr, h.count t, heldCount_eq_sum, heldCount_eq_sum]
    refine Finset.sum_congr rfl fun m _ => ?_
    rw [heldOne, heldOne, (ha m).1, (ha m).2.1]

end

/-- One mutex changes hands, and the resource counts follow. -/
theorem Holds.rehold (h : Holds s) (hm : ∀ n, n ≠ m → s'.mutexes n = s.mutexes n)
    (hn : (s'.mutexes m).holder = none → (s'.mutexes m).nestCount = 0)
    (hr : ∀ t, (s'.threads t).resourceCount + heldOne (s.mutexes m) t =
      (s.threads t).resourceCount + heldOne (s'.mutexes m) t) : Holds s' := by
  refine { free := fun n => ?_, count := fun t => ?_ }
  · by_cases e : n = m
    · rw [e]
      exact hn
    · rw [hm n e]
      exact h.free n
  · have h1 := hr t
    have h2 := h.count t
    have h3 : heldCount s' t + heldOne (s.mutexes m) t =
        heldCount s t + heldOne (s'.mutexes m) t :=
      heldCount_change fun n e => by rw [hm n e]
    omega

omit [DecidableEq Mid]

theorem Holds.reprice (h : Holds s) (hr : Repriced t s s') : Holds s' :=
  h.congr (fun m => by obtain ⟨q, e, _⟩ := hr.mutex m; exact ⟨q, e⟩) hr.resourceCount_eq

/-- A thread without resources holds no mutex that counts as one. -/
theorem Holds.owns (h : Holds s) (hc : (s.mutexes m).attributes.counted = true)
    (hh : (s.mutexes m).holder = some t) : (s.threads t).resourceCount ≠ 0 := by
  rw [h.count t]
  exact heldCount_pos hc hh

end Holds

/-! ## The pieces of the operations -/

section Pieces

variable [Fintype Mid] {ok : Mid → Prop}

section

omit [DecidableEq Mid]

theorem Inv.openAt (h : Inv s) (m : Mid) : InvFor (· ≠ m) s where
  queues := h.queues
  holds := h.holds
  served n _ := h.served n trivial
  ceiled n _ := h.ceiled n trivial

end

theorem InvFor.close (h : InvFor (· ≠ m) s) (hs : Served s m) (hc : Ceiled s m) : Inv s where
  queues := h.queues
  holds := h.holds
  served n _ := by
    by_cases e : n = m
    · rw [e]
      exact hs
    · exact h.served n e
  ceiled n _ := by
    by_cases e : n = m
    · rw [e]
      exact hc
    · exact h.ceiled n e

section

omit [DecidableEq Mid]

/-- The invariant does not read the return codes and timers. -/
theorem InvFor.congr (h : InvFor ok s) (hm : s'.mutexes = s.mutexes)
    (hp : ∀ t, s'.prio t = s.prio t)
    (hr : ∀ t, (s'.threads t).resourceCount = (s.threads t).resourceCount)
    (hw : ∀ t, (s'.threads t).waitQueue = (s.threads t).waitQueue) : InvFor ok s' where
  queues := h.queues.congr (fun m => by rw [hm]) (fun m => by rw [hm]) hw hp
  holds := h.holds.congr (fun m => ⟨_, by rw [hm]⟩) hr
  served m hk := by
    unfold Served
    rw [hm]
    exact h.served m hk
  ceiled m hk := by
    intro hd u hu
    rw [hm] at hd hu ⊢
    rw [hp]
    exact h.ceiled m hk hd u hu

theorem InvFor.setReturnCode (h : InvFor ok s) (code : Status) :
    InvFor ok (setReturnCode s t code) :=
  h.congr rfl (onThread_field (·.currentPriority) rfl) (onThread_field (·.resourceCount) rfl)
    (onThread_field (·.waitQueue) rfl)

end

/-- A priority change keeps the invariant if owners of resources get no less
important. -/
theorem InvFor.reprice (h : InvFor ok s) (hr : Repriced t s s')
    (hle : (s.threads t).resourceCount ≠ 0 → s'.prio t ≤ s.prio t) : InvFor ok s' where
  queues := h.queues.reprice hr
  holds := h.holds.reprice hr
  served m hk := by
    intro hq
    rw [hr.holder]
    refine h.served m hk fun hn => hq ?_
    have := (h.queues.reprice_queue hr m).1
    rw [hn] at this
    exact this.eq_nil
  ceiled m hk := by
    intro hd u hu
    rw [hr.attributes] at hd ⊢
    rw [hr.holder] at hu
    refine Nat.le_trans ?_ (h.ceiled m hk hd u hu)
    by_cases e : u = t
    · subst e
      exact hle (h.holds.owns (by simp [Attributes.counted, hd]) hu)
    · exact Nat.le_of_eq (hr.prio_other e)

theorem InvFor.raisePriority (h : InvFor ok s) (p : Priority) :
    InvFor ok (raisePriority s t p) := by
  refine h.reprice (repriced_changePriority s t p .raise) fun _ => ?_
  exact Nat.le_trans (Nat.le_of_eq (raisePriority_prio p)) (Nat.min_le_left _ _)

theorem InvFor.enqueue (h : InvFor ok s) (hw : (s.threads t).waitQueue = none) (ticks : Nat)
    (hh : (s.mutexes m).holder ≠ none) : InvFor ok (enqueue s t m ticks) where
  queues := h.queues.enqueue hw ticks
  holds := h.holds.congr (enqueue_mutex ticks) (enqueue_resourceCount ticks)
  served n hk := by
    intro hq
    by_cases e : n = m
    · obtain ⟨q, hm⟩ := enqueue_mutex (s := s) (t := t) (m := m) ticks n
      rw [hm, e]
      exact hh
    · have hm : (CoreMutex.enqueue s t m ticks).mutexes n = s.mutexes n := by
        rw [CoreMutex.enqueue, onMutex_mutexes, if_neg e]
        rfl
      rw [hm] at hq ⊢
      exact h.served n hk hq
  ceiled n hk := by
    intro hd u hu
    obtain ⟨q, hm⟩ := enqueue_mutex (s := s) (t := t) (m := m) ticks n
    rw [hm] at hd hu ⊢
    rw [enqueue_prio]
    exact h.ceiled n hk hd u hu

theorem InvFor.extract (h : InvFor ok s) (hw : (s.threads t).waitQueue = some m) :
    InvFor ok (extract s t m) where
  queues := h.queues.extract hw
  holds := h.holds.congr (fun n => ⟨_, extract_mutex n⟩) extract_resourceCount
  served n hk := by
    intro hq
    rw [extract_mutex] at hq ⊢
    refine h.served n hk fun hn => hq ?_
    simp [hn]
  ceiled n hk := by
    intro hd u hu
    rw [extract_mutex] at hd hu ⊢
    rw [extract_prio]
    exact h.ceiled n hk hd u hu

section

omit [Fintype Mid]

theorem lock_prio (u : Tid) : (lock s t m).prio u = s.prio u := by
  rw [State.prio, lock_thread, State.prio]

theorem release_prio (u : Tid) : (release s t m).prio u = s.prio u := by
  rw [State.prio, release_thread, State.prio]

end

theorem InvFor.lock (h : InvFor (· ≠ m) s) (hh : (s.mutexes m).holder = none) :
    InvFor (· ≠ m) (lock s t m) where
  queues := h.queues.congr
    (fun n => by rw [lock_mutex]; split <;> simp [*])
    (fun n => by rw [lock_mutex]; split <;> simp [*])
    (fun u => by rw [lock_thread]) lock_prio
  holds := by
    refine h.holds.rehold (m := m) (fun n e => by rw [lock_mutex, if_neg e]) ?_ fun u => ?_
    · rw [lock_mutex, if_pos rfl]
      simp
    · rw [lock_thread, lock_mutex, if_pos rfl, heldOne, heldOne, hh]
      by_cases e : u = t
      · simp [e]
      · simp [e, Ne.symm e]
  served n e := by
    unfold Served
    rw [lock_mutex, if_neg e]
    exact h.served n e
  ceiled n e := by
    intro hd u hu
    rw [lock_mutex, if_neg e] at hd hu ⊢
    rw [lock_prio]
    exact h.ceiled n e hd u hu

theorem InvFor.release (h : InvFor (· ≠ m) s) (hh : (s.mutexes m).holder = some t) :
    InvFor (· ≠ m) (release s t m) where
  queues := h.queues.congr
    (fun n => by rw [release_mutex]; split <;> simp [*])
    (fun n => by rw [release_mutex]; split <;> simp [*])
    (fun u => by rw [release_thread]) release_prio
  holds := by
    refine h.holds.rehold (m := m) (fun n e => by rw [release_mutex, if_neg e]) ?_ fun u => ?_
    · rw [release_mutex, if_pos rfl]
      simp
    · rw [release_thread, release_mutex, if_pos rfl, heldOne, heldOne, hh]
      by_cases e : u = t
      · subst e
        cases hc : (s.mutexes m).attributes.counted with
        | false => simp
        | true =>
          have := h.holds.owns hc hh
          simp
          omega
      · simp [e, Ne.symm e]
  served n e := by
    unfold Served
    rw [release_mutex, if_neg e]
    exact h.served n e
  ceiled n e := by
    intro hd u hu
    rw [release_mutex, if_neg e] at hd hu ⊢
    rw [release_prio]
    exact h.ceiled n e hd u hu

end Pieces

/-! ## The operations -/

section Operations

variable [Fintype Mid]

section

omit [DecidableEq Mid]

theorem Inv.nestCount_zero (h : Inv s) (hh : (s.mutexes m).holder = none) :
    (s.mutexes m).nestCount = 0 :=
  h.holds.free m hh

end

/-- A seize that takes a free ceiling mutex raises the thread or is undone. -/
theorem Inv.applyCeiling (h : Inv s) (hd : (s.mutexes m).attributes.discipline = .priorityCeiling)
    (hh : (s.mutexes m).holder = none) : Inv (applyCeiling (lock s t m) t m) := by
  have hl := (h.openAt m).lock (t := t) hh
  have hm : (lock s t m).mutexes m = { s.mutexes m with holder := some t, nestCount := 1 } := by
    rw [lock_mutex, if_pos rfl]
  have hserved : Served (lock s t m) m := fun _ => by simp [hm]
  have hp : ((lock s t m).threads t).currentPriority = s.prio t := lock_prio t
  rcases Nat.lt_trichotomy (s.prio t) (s.mutexes m).attributes.priorityCeiling with hlt | heq | hgt
  · rw [applyCeiling_violated hd hh (h.nestCount_zero hh) hlt]
    exact h.setReturnCode _
  · unfold CoreMutex.applyCeiling
    simp only [hp, hm]
    rw [if_pos heq]
    refine hl.close hserved fun _ u hu => ?_
    rw [hm] at hu ⊢
    obtain rfl : t = u := Option.some.inj hu
    rw [lock_prio]
    exact Nat.le_of_eq heq
  · have hr := repriced_changePriority (lock s t m) t
      (s.mutexes m).attributes.priorityCeiling .raise
    unfold CoreMutex.applyCeiling
    simp only [hp, hm]
    rw [if_neg (Nat.ne_of_gt hgt), if_pos hgt]
    refine (hl.raisePriority _).close (fun _ => ?_) fun _ u hu => ?_
    · rw [CoreMutex.raisePriority, hr.holder, hm]
      simp
    · rw [CoreMutex.raisePriority, hr.holder, hm] at hu
      obtain rfl : t = u := Option.some.inj hu
      rw [raisePriority_prio, CoreMutex.raisePriority, hr.attributes, hm]
      exact Nat.min_le_right _ _

theorem Inv.nest (h : Inv s) (hh : (s.mutexes m).holder = some t) (k : Nat) :
    Inv (s.onMutex m fun x => { x with nestCount := k }) where
  queues := h.queues.congr (onMutex_field (·.waitQueue) rfl) (onMutex_field (·.attributes) rfl)
    (fun _ => rfl) (fun _ => rfl)
  holds := by
    refine h.holds.rehold (m := m) (fun n e => by rw [onMutex_mutexes, if_neg e]) ?_ fun u => ?_
    · rw [onMutex_self]
      simp [hh]
    · rw [onMutex_self]
      rfl
  served n _ := by
    unfold Served
    rw [onMutex_field (·.waitQueue) rfl n, onMutex_field (·.holder) rfl n]
    exact h.served n trivial
  ceiled n _ := by
    unfold Ceiled
    rw [onMutex_field (·.attributes) rfl n, onMutex_field (·.holder) rfl n]
    exact h.ceiled n trivial

theorem Inv.trylock (h : Inv s) (t : Tid) (m : Mid) : Inv (trylock s t m).1 := by
  have h1 : Inv (setReturnCode s t .successful) := h.setReturnCode _
  unfold CoreMutex.trylock
  simp only
  split
  next hh =>
    split
    next hd =>
      refine (h1.openAt m).lock hh |>.close (fun _ => ?_) fun hd' => absurd hd' hd
      rw [lock_mutex, if_pos rfl]
      simp
    next hd =>
      refine h1.applyCeiling ?_ hh
      rw [lock_mutex, if_pos rfl] at hd
      exact not_not.mp hd
  next holder hh =>
    split
    next e =>
      subst e
      split
      next => exact h1.nest hh _
      next => exact h1.setReturnCode _
      next => exact h1
    next => exact h1

section

omit [Fintype Mid]

/-- What a seize that has to block finds. -/
theorem trylock_block (hb : (trylock s t m).2 = true) :
    (trylock s t m).1 = setReturnCode s t .successful ∧ (s.mutexes m).holder ≠ none := by
  unfold trylock at hb ⊢
  simp only at hb ⊢
  split at hb
  next =>
    split at hb <;> cases hb
  next holder hh =>
    refine ⟨?_, by rw [show (s.mutexes m).holder = some holder from hh]; simp⟩
    split at hb
    next e =>
      rw [if_pos e]
      split at hb
      next => cases hb
      next => cases hb
      next => rfl
    next e => rw [if_neg e]

end

theorem Inv.seizeBlocking (h : Inv s) (hw : (s.threads t).waitQueue = none)
    (hh : (s.mutexes m).holder ≠ none) (ticks : Nat) : Inv (seizeBlocking s t m ticks) := by
  unfold CoreMutex.seizeBlocking
  simp only
  split
  next holder _ _ =>
    have hr := repriced_changePriority s holder (s.threads t).currentPriority .raise
    refine (h.raisePriority _).enqueue ?_ ticks ?_
    · exact (hr.waitQueue_eq t).trans hw
    · exact fun e => hh ((hr.holder m).symm.trans e)
  next => exact h.enqueue hw ticks hh

theorem Inv.seize (h : Inv s) (hw : (s.threads t).waitQueue = none) (wait : Bool)
    (ticks : Nat) : Inv (seize s t m wait ticks) := by
  have htry := h.trylock t m
  unfold CoreMutex.seize
  split
  next s1 e =>
    rw [e] at htry
    exact htry
  next s1 e =>
    obtain ⟨h1, hh⟩ := trylock_block (s := s) (t := t) (m := m) (by rw [e])
    rw [e] at htry h1
    obtain rfl : s1 = CoreMutex.setReturnCode s t .successful := h1
    split
    · refine htry.seizeBlocking ?_ hh ticks
      rw [CoreMutex.setReturnCode, onThread_self]
      exact hw
    · exact htry.setReturnCode _

/-- Handing over settles a mutex that was just released. -/
theorem InvFor.handOver (h : InvFor (· ≠ m) s) (hh : (s.mutexes m).holder = none) :
    Inv (handOver s m) := by
  unfold CoreMutex.handOver
  split
  next hq =>
    refine h.close (fun hn => absurd hq hn) fun _ u hu => ?_
    rw [hh] at hu
    cases hu
  next t q hq =>
    have hw : (s.threads t).waitQueue = some m := (h.queues.mem m t).mp (by rw [hq]; simp)
    have hl := (h.extract hw).lock (t := t) (by rw [extract_mutex]; exact hh)
    have hm : ((CoreMutex.lock (CoreMutex.extract s t m) t m).mutexes m).holder = some t := by
      rw [lock_mutex, if_pos rfl]
    simp only
    split
    next hd =>
      have hr := repriced_changePriority (CoreMutex.lock (CoreMutex.extract s t m) t m) t
        ((CoreMutex.lock (CoreMutex.extract s t m) t m).mutexes m).attributes.priorityCeiling .raise
      refine (hl.raisePriority _).close (fun _ => ?_) fun _ u hu => ?_
      · rw [CoreMutex.raisePriority, hr.holder, hm]
        simp
      · rw [CoreMutex.raisePriority, hr.holder, hm] at hu
        obtain rfl : t = u := Option.some.inj hu
        rw [raisePriority_prio, CoreMutex.raisePriority, hr.attributes]
        exact Nat.min_le_right _ _
    next hd => exact hl.close (fun _ => by rw [hm]; simp) fun hd' => absurd hd' hd

theorem Inv.restoreIfIdle (h : Inv s) (t : Tid) : Inv (restoreIfIdle s t) := by
  unfold CoreMutex.restoreIfIdle
  split
  next hi =>
    refine h.reprice (repriced_changePriority s t 0 .restore) fun hc => ?_
    simp [ThreadControl.ownsResources, hc] at hi
  next => exact h

theorem Inv.surrender (h : Inv s) (t : Tid) (m : Mid) : Inv (surrender s t m).1 := by
  unfold CoreMutex.surrender
  simp only
  split
  next => exact h
  split
  next => exact h
  split
  next h0 h1 =>
    cases hh : (s.mutexes m).holder with
    | none => exact absurd (h.nestCount_zero hh) h0
    | some holder => exact h.nest hh _
  next h0 h1 =>
    split
    next hh => exact absurd (h.nestCount_zero hh) h0
    next holder hh =>
      refine (InvFor.handOver ((h.openAt m).release hh) ?_).restoreIfIdle holder
      rw [release_mutex, if_pos rfl]

theorem Inv.threadTimeout (h : Inv s) (t : Tid) : Inv (threadTimeout s t) := by
  unfold CoreMutex.threadTimeout
  split
  next => exact h
  next m hw =>
    refine InvFor.extract (h.setReturnCode _) ?_
    rw [CoreMutex.setReturnCode, onThread_self]
    exact hw

theorem Inv.changePriority (h : Inv s) (t : Tid) (p : Priority) {f : Filter}
    (hf : f ≠ .restore) : Inv (changePriority s t p f) := by
  refine h.reprice (repriced_changePriority s t p f) fun hc => ?_
  rw [State.prio, changePriority_self]
  exact result_le_of_owns hf hc p

/-- **One operation keeps the invariant.** -/
theorem Inv.op (h : Inv s) (op : Op Tid Mid) (he : op.Enabled s) : Inv (op.run s) := by
  cases op with
  | seize executing m wait ticks => exact h.seize he wait ticks
  | surrender executing m => exact h.surrender executing m
  | timeout t => exact h.threadTimeout t
  | changePriority t p f => exact h.changePriority t p he.2

section

omit [DecidableEq Mid]

theorem Inv.of_start (h : Start s) : Inv s where
  queues :=
    { mem := fun m t => by simp [h.waitQueue, h.waits]
      nodup := fun m => by simp [h.waitQueue]
      ordered := fun m _ => by
        rw [h.waitQueue]
        exact .nil }
  holds :=
    { free := fun m _ => h.nestCount m
      count := fun t => by simp [h.resourceCount, heldCount, h.holder] }
  served m _ := fun hq => absurd (h.waitQueue m) hq
  ceiled m _ := fun _ t ht => absurd ht (by simp [h.holder])

end

/-- **The invariant holds along every run.** -/
theorem Inv.run {ok : State Tid Mid → Op Tid Mid → Prop} (h0 : Start s)
    (hrun : Relation.ReflTransGen (Step ok) s s') : Inv s' := by
  refine Reach.invariant hrun (.of_start h0) ?_
  rintro a _ ha ⟨op, he, _, rfl⟩
  exact ha.op op he

end Operations

/-! ## The nest counter -/

/-- A held mutex is nested. -/
def Nested (s : State Tid Mid) : Prop :=
  ∀ m, (s.mutexes m).holder ≠ none → 0 < (s.mutexes m).nestCount

/-- A nested seize stays below the limit of the counter. -/
def NestsInRange (s : State Tid Mid) : Op Tid Mid → Prop
  | .seize executing m _ _ => (s.mutexes m).holder = some executing →
      (s.mutexes m).attributes.lockNestingBehavior = .acquires →
      (s.mutexes m).nestCount + 1 < 2 ^ 32
  | _ => True

section

omit [DecidableEq Mid] [DecidableEq Tid]

theorem Nested.congr (h : Nested s)
    (hm : ∀ m, ∃ q, s'.mutexes m = { s.mutexes m with waitQueue := q }) : Nested s' := by
  intro m hh
  obtain ⟨q, e⟩ := hm m
  rw [e] at hh ⊢
  exact h m hh

end

theorem Nested.raisePriority (h : Nested s) (p : Priority) : Nested (raisePriority s t p) :=
  h.congr fun m => by
    obtain ⟨q, e, _⟩ := (repriced_changePriority s t p .raise).mutex m
    exact ⟨q, e⟩

section

omit [DecidableEq Tid]

/-- One mutex is written, and it is nested or free. -/
theorem Nested.onMutex (h : Nested s) {f : Control Tid → Control Tid}
    (hf : (f (s.mutexes m)).holder ≠ none → 0 < (f (s.mutexes m)).nestCount) :
    Nested (s.onMutex m f) := by
  intro n hh
  rw [onMutex_mutexes] at hh ⊢
  split at hh
  next e =>
    rw [if_pos e]
    exact hf hh
  next e =>
    rw [if_neg e]
    exact h n hh

end

theorem Nested.lock (h : Nested s) : Nested (lock s t m) := by
  intro n hh
  rw [lock_mutex] at hh ⊢
  split at hh
  next e =>
    rw [if_pos e]
    exact Nat.one_pos
  next e =>
    rw [if_neg e]
    exact h n hh

theorem Nested.applyCeiling (h : Nested s) : Nested (applyCeiling s t m) := by
  unfold CoreMutex.applyCeiling
  simp only
  split
  next => exact h
  split
  next => exact h.raisePriority _
  next =>
    have hv : Nested (setReturnCode s t .ceilingViolated) := h
    have hu : Nested ((setReturnCode s t .ceilingViolated).onMutex m
        fun x => { x with holder := none, nestCount := 0 }) :=
      hv.onMutex fun hn => absurd rfl hn
    exact hu

theorem Nested.trylock (h : Nested s)
    (hn : (s.mutexes m).holder = some t →
      (s.mutexes m).attributes.lockNestingBehavior = .acquires →
      (s.mutexes m).nestCount + 1 < 2 ^ 32) : Nested (trylock s t m).1 := by
  have h1 : Nested (setReturnCode s t .successful) := h
  unfold CoreMutex.trylock
  simp only
  split
  next =>
    split
    next => exact h1.lock
    next => exact h1.lock.applyCeiling
  next holder hh =>
    split
    next e =>
      subst e
      split
      next hb =>
        dsimp only
        refine h1.onMutex fun _ => ?_
        change 0 < ((s.mutexes m).nestCount + 1) % 2 ^ 32
        rw [Nat.mod_eq_of_lt (hn hh hb)]
        exact Nat.succ_pos _
      next => exact h
      next => exact h
    next => exact h

theorem Nested.seize (h : Nested s) {wait : Bool} {ticks : Nat}
    (hn : NestsInRange s (.seize t m wait ticks)) : Nested (seize s t m wait ticks) := by
  have htry := h.trylock hn
  unfold CoreMutex.seize
  split
  next s1 e =>
    rw [e] at htry
    exact htry
  next s1 e =>
    rw [e] at htry
    split
    next =>
      unfold seizeBlocking
      simp only
      refine Nested.congr ?_ (enqueue_mutex ticks)
      split
      next => exact htry.raisePriority _
      next => exact htry
    next => exact htry

theorem Nested.handOver (h : Nested s) : Nested (handOver s m) := by
  unfold CoreMutex.handOver
  split
  next => exact h
  next t q hq =>
    have hl : Nested (CoreMutex.lock (extract s t m) t m) :=
      (h.congr fun n => ⟨_, extract_mutex n⟩).lock
    simp only
    split
    next => exact hl.raisePriority _
    next => exact hl

theorem Nested.surrender (h : Nested s) : Nested (surrender s t m).1 := by
  unfold CoreMutex.surrender
  simp only
  split
  next => exact h
  split
  next => exact h
  split
  next h1 =>
    dsimp only
    exact h.onMutex fun _ => Nat.pos_of_ne_zero h1
  split
  next hh =>
    dsimp only
    exact h.onMutex fun hn => absurd hh hn
  next holder hh =>
    have hr : Nested (release s holder m) := by
      intro n hn
      rw [release_mutex] at hn ⊢
      split at hn
      next => exact absurd rfl hn
      next e =>
        rw [if_neg e]
        exact h n hn
    have hg : Nested (CoreMutex.handOver (release s holder m) m) := hr.handOver
    unfold restoreIfIdle
    split
    next =>
      refine hg.congr fun n => ?_
      obtain ⟨q, e, _⟩ := (repriced_changePriority (CoreMutex.handOver (release s holder m) m)
        holder 0 .restore).mutex n
      exact ⟨q, e⟩
    next => exact hg

theorem Nested.op (h : Nested s) (op : Op Tid Mid) (hn : NestsInRange s op) :
    Nested (op.run s) := by
  cases op with
  | seize executing m wait ticks => exact h.seize hn
  | surrender executing m => exact h.surrender
  | timeout t =>
    simp only [Op.run, threadTimeout]
    split
    next => exact h
    next m _ => exact Nested.congr (s := setReturnCode s t .timeout) h fun n => ⟨_, extract_mutex n⟩
  | changePriority t p f =>
    refine h.congr fun n => ?_
    obtain ⟨q, e, _⟩ := (repriced_changePriority s t p f).mutex n
    exact ⟨q, e⟩

theorem Nested.run (h0 : Start s) (hrun : Relation.ReflTransGen (Step NestsInRange) s s') :
    Nested s' := by
  refine Reach.invariant hrun (fun m hh => absurd (h0.holder m) hh) ?_
  rintro a _ ha ⟨op, _, hn, rfl⟩
  exact ha.op op hn

end Rtems.CoreMutex
