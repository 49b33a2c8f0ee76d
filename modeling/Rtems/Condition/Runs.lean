import Rtems.Condition.Model
import Rtems.Condition.Mutexes

/-!
# Runs of condition variables

A wait that has released its mutex is on the wait queue before another thread
runs, so a signal finds it.  What an invariant says of a thread depends on
where the thread stands.
-/

namespace Rtems.Condition

open ThreadQueue (Waiters)
open CoreMutex (Seen)

variable {Tid Mid : Type} [DecidableEq Tid] [DecidableEq Mid] [Fintype Mid]
variable {s s' : State Tid Mid} {t u : Tid} {m : Mid}

/-! ## The invariant -/

/-- The places where a thread has thread dispatching disabled. -/
def Pc.disabled : Pc Tid Mid → Bool
  | .unlocking _ _ _ | .unlocked _ _ | .signaling _ _ => true
  | _ => false

/-- A thread waits for a mutex, or it has it if it was told so. -/
def Relocks (mutexes : CoreMutex.State Tid Mid) (t : Tid) (m : Mid) : Prop :=
  ((mutexes.threads t).waitQueue = some m ∧ (mutexes.threads t).timer = .inactive ∧
    (mutexes.threads t).returnCode = .successful) ∨
  (mutexes.threads t).waitQueue = none ∧
    ((mutexes.threads t).returnCode = .successful → (mutexes.mutexes m).holder = some t)

/-- What holds of a thread where it stands. -/
def PcInv (mutexes : CoreMutex.State Tid Mid) (queue : List Tid) (t : Tid) : Pc Tid Mid → Prop
  | .running => True
  | .unlocking _ _ _ | .unlocked _ _ | .waiting _ | .locking _ _ =>
    (mutexes.threads t).waitQueue = none
  | .relocking m _ => Relocks mutexes t m
  | .returning m status => (mutexes.threads t).waitQueue = none ∧
      (status = .ok ∨ status = .ETIMEDOUT → (mutexes.mutexes m).holder = some t)
  | .signaling _ woken => (mutexes.threads t).waitQueue = none ∧ woken.Nodup ∧
      ∀ u ∈ woken, u ∉ queue

structure Inv (s : State Tid Mid) : Prop where
  core : CoreMutex.Inv s.mutexes
  owner : ∀ m, (s.mutexes.mutexes m).attributes.onlyOwnerRelease = true
  nodup : (s.waitQueue.queue ++ s.waitQueue.released).Nodup
  waiting : ∀ t, (t ∈ s.waitQueue.queue ∨ t ∈ s.waitQueue.released) ↔ ∃ m, s.pc t = .waiting m
  disabled : ∀ t, (s.pc t).disabled = true ↔ s.disabled = some t
  thread : ∀ t, PcInv s.mutexes s.waitQueue.queue t (s.pc t)

/-! ## Other threads -/

section

omit [DecidableEq Mid] [DecidableEq Tid] [Fintype Mid]

theorem Relocks.seen {mutexes mutexes' : CoreMutex.State Tid Mid} (h : Relocks mutexes t m)
    (hs : Seen t mutexes mutexes') : Relocks mutexes' t m := by
  rcases h with ⟨hw, hτ, hr⟩ | ⟨hw, hh⟩
  · rcases hs.waits with ⟨ew, eτ, er⟩ | ⟨n, hn, ew, -, hholder⟩
    · exact .inl ⟨ew.trans hw, eτ.trans hτ, er.trans hr⟩
    · obtain rfl : n = m := Option.some.inj (hn.symm.trans hw)
      exact .inr ⟨ew, fun _ => hholder⟩
  · rcases hs.waits with ⟨ew, -, er⟩ | ⟨n, hn, -, -, -⟩
    · refine .inr ⟨ew.trans hw, ?_⟩
      intro hr
      exact hs.holder m (hh (er.symm.trans hr))
    · exact absurd (hw.symm.trans hn) nofun

theorem waits_seen {mutexes mutexes' : CoreMutex.State Tid Mid}
    (h : (mutexes.threads t).waitQueue = none) (hs : Seen t mutexes mutexes') :
    (mutexes'.threads t).waitQueue = none := by
  rcases hs.waits with ⟨ew, -, -⟩ | ⟨n, hn, -, -, -⟩
  · exact ew.trans h
  · exact absurd (h.symm.trans hn) nofun

/-- What others do keeps what holds of a thread. -/
theorem PcInv.seen {mutexes mutexes' : CoreMutex.State Tid Mid} {queue queue' : List Tid}
    {pc : Pc Tid Mid} (h : PcInv mutexes queue t pc)
    (hs : pc ≠ .running → Seen t mutexes mutexes')
    (hq : pc.disabled = true → ∀ u ∈ queue', u ∈ queue) : PcInv mutexes' queue' t pc := by
  cases pc with
  | running => trivial
  | unlocking m timeout already => exact waits_seen h (hs nofun)
  | unlocked m timeout => exact waits_seen h (hs nofun)
  | waiting m => exact waits_seen h (hs nofun)
  | locking m status => exact waits_seen h (hs nofun)
  | relocking m status => exact Relocks.seen h (hs nofun)
  | returning m status =>
    refine ⟨waits_seen h.1 (hs nofun), ?_⟩
    intro hst
    exact (hs nofun).holder m (h.2 hst)
  | signaling b woken =>
    refine ⟨waits_seen h.1 (hs nofun), h.2.1, ?_⟩
    intro u hu hin
    exact h.2.2 u hu (hq rfl u hin)

end

section

omit [DecidableEq Mid]

/-- A step of one thread. -/
theorem Inv.of_step (h : Inv s) (t : Tid) (hpc : ∀ u, u ≠ t → s'.pc u = s.pc u)
    (hcore : CoreMutex.Inv s'.mutexes) (hattr : s.mutexes.SameAttributes s'.mutexes)
    (hseen : ∀ u, u ≠ t → s.pc u ≠ .running → Seen u s.mutexes s'.mutexes)
    (hqueue : ∀ u, u ≠ t → (s.pc u).disabled = true →
      ∀ v ∈ s'.waitQueue.queue, v ∈ s.waitQueue.queue)
    (hnodup : (s'.waitQueue.queue ++ s'.waitQueue.released).Nodup)
    (hwaiting : ∀ u, u ≠ t → ((u ∈ s'.waitQueue.queue ∨ u ∈ s'.waitQueue.released) ↔
      (u ∈ s.waitQueue.queue ∨ u ∈ s.waitQueue.released)))
    (hself : (t ∈ s'.waitQueue.queue ∨ t ∈ s'.waitQueue.released) ↔ ∃ m, s'.pc t = .waiting m)
    (hfrom : s.disabled = none ∨ s.disabled = some t)
    (hto : s'.disabled = if (s'.pc t).disabled then some t else none)
    (ht : PcInv s'.mutexes s'.waitQueue.queue t (s'.pc t)) : Inv s' where
  core := hcore
  owner := by
    intro m
    rw [hattr m]
    exact h.owner m
  nodup := hnodup
  waiting := by
    intro u
    rcases eq_or_ne u t with rfl | hne
    · exact hself
    · rw [hpc u hne, hwaiting u hne]
      exact h.waiting u
  disabled := by
    intro u
    rw [hto]
    rcases eq_or_ne u t with rfl | hne
    · split
      next hd => exact ⟨fun _ => rfl, fun _ => hd⟩
      next hd => exact ⟨fun hd' => absurd hd' hd, nofun⟩
    · rw [hpc u hne, h.disabled u]
      constructor
      · intro hu
        rcases hfrom with hf | hf
        · exact absurd (hf.symm.trans hu) nofun
        · exact absurd (Option.some.inj (hu.symm.trans hf)) hne
      · intro hu
        split at hu
        next => exact absurd (Option.some.inj hu).symm hne
        next => cases hu
  thread := by
    intro u
    rcases eq_or_ne u t with rfl | hne
    · exact ht
    · rw [hpc u hne]
      exact (h.thread u).seen (hseen u hne) (hqueue u hne)

end

/-! ## Mutexes and interrupts -/

theorem Inv.mutex (h : Inv s) {op : CoreMutex.Op Tid Mid} (he : (Op.mutex op).Enabled s) :
    Inv { s with mutexes := op.run s.mutexes } where
  core := h.core.op op he.1
  owner := by
    intro m
    show ((op.run s.mutexes).mutexes m).attributes.onlyOwnerRelease = true
    rw [op.sameAttributes m]
    exact h.owner m
  nodup := h.nodup
  waiting := h.waiting
  disabled := h.disabled
  thread := by
    intro t
    refine (h.thread t).seen ?_ (fun _ _ hu => hu)
    intro hrun
    cases op with
    | seize u m wait ticks =>
      have hne : u ≠ t := by
        rintro rfl
        exact hrun he.2.2
      exact CoreMutex.seen_seize hne wait ticks
    | surrender u m =>
      have hne : u ≠ t := by
        rintro rfl
        exact hrun he.2.2
      exact CoreMutex.seen_surrender h.core hne (h.owner m)
    | timeout u =>
      rcases eq_or_ne u t with rfl | hne
      · have hsame : (s.mutexes.threads u).waitQueue = none := by
          have hp := h.thread u
          cases hpc : s.pc u with
          | running => exact absurd hpc hrun
          | unlocking m timeout already => rw [hpc] at hp; exact hp
          | unlocked m timeout => rw [hpc] at hp; exact hp
          | waiting m => rw [hpc] at hp; exact hp
          | locking m status => rw [hpc] at hp; exact hp
          | relocking m status =>
            rw [hpc] at hp
            rcases hp with ⟨-, hτ, -⟩ | ⟨hw, -⟩
            · exact absurd (hτ.symm.trans he.1) nofun
            · exact hw
          | returning m status => rw [hpc] at hp; exact hp.1
          | signaling b woken => rw [hpc] at hp; exact hp.1
        show Seen u s.mutexes (CoreMutex.threadTimeout s.mutexes u)
        unfold CoreMutex.threadTimeout
        rw [hsame]
        exact .refl u s.mutexes
      · exact CoreMutex.seen_threadTimeout hne
    | changePriority u p f => exact CoreMutex.seen_changePriority t u p f

section

omit [DecidableEq Mid]

/-- A thread leaves the wait queue, or only its return code changes. -/
theorem Inv.onQueue (h : Inv s) {w : Waiters Tid Code}
    (hq : (w.queue = s.waitQueue.queue ∧ w.released = s.waitQueue.released) ∨
      ∃ t ∈ s.waitQueue.queue, w.queue = s.waitQueue.queue.erase t ∧
        w.released = t :: s.waitQueue.released) : Inv { s with waitQueue := w } := by
  have hperm : (w.queue ++ w.released).Perm (s.waitQueue.queue ++ s.waitQueue.released) := by
    rcases hq with ⟨e1, e2⟩ | ⟨t, ht, e1, e2⟩
    · rw [e1, e2]
    · rw [e1, e2]
      exact List.perm_middle.trans ((List.perm_cons_erase ht).symm.append_right _)
  have hsub : ∀ v ∈ w.queue, v ∈ s.waitQueue.queue := by
    intro v hv
    rcases hq with ⟨e1, -⟩ | ⟨t, ht, e1, -⟩
    · rw [e1] at hv
      exact hv
    · rw [e1] at hv
      exact List.mem_of_mem_erase hv
  refine ⟨h.core, h.owner, hperm.nodup_iff.mpr h.nodup, ?_, h.disabled, ?_⟩
  · intro t
    rw [← h.waiting t, ← List.mem_append, ← List.mem_append]
    exact hperm.mem_iff
  · intro t
    exact (h.thread t).seen (fun _ => .refl t s.mutexes) (fun _ => hsub)

theorem Inv.timeout (h : Inv s) (t : Tid) :
    Inv { s with waitQueue := s.waitQueue.timeout .fifo t } := by
  refine h.onQueue ?_
  rcases Waiters.timeout_cases .fifo s.waitQueue t with e | ⟨code, hin, -, e⟩
  · rw [e]
    exact .inl ⟨rfl, rfl⟩
  · rw [e]
    exact .inr ⟨t, hin, Waiters.extractCritical_queue _ _, rfl⟩

theorem Inv.unblockThread (h : Inv s) (t : Tid) : Inv (unblockThread s t) := by
  refine h.onQueue ?_
  unfold Waiters.extract
  split
  next hin => exact .inr ⟨t, hin, Waiters.extractCritical_queue _ _, rfl⟩
  next => exact .inl ⟨rfl, rfl⟩

end

/-! ## Steps of a thread -/

section

omit [DecidableEq Mid] [Fintype Mid]

theorem setPc_self (s : State Tid Mid) (t : Tid) (pc : Pc Tid Mid) : (s.setPc t pc).pc t = pc :=
  Function.update_self ..

theorem setPc_other (s : State Tid Mid) {t u : Tid} (pc : Pc Tid Mid) (h : u ≠ t) :
    (s.setPc t pc).pc u = s.pc u :=
  Function.update_of_ne h ..

end

section

omit [DecidableEq Mid]

/-- A step that moves a thread on and leaves the wait queue alone. -/
theorem Inv.move (h : Inv s) {pc : Pc Tid Mid} {mutexes : CoreMutex.State Tid Mid}
    {mutex : Option Mid} {disabled : Option Tid} (hold : ∀ m, s.pc t ≠ .waiting m)
    (hnew : ∀ m, pc ≠ .waiting m) (hfrom : s.disabled = none ∨ s.disabled = some t)
    (hto : disabled = if pc.disabled then some t else none)
    (hcore : CoreMutex.Inv mutexes) (hattr : s.mutexes.SameAttributes mutexes)
    (hseen : ∀ u, u ≠ t → Seen u s.mutexes mutexes) (ht : PcInv mutexes s.waitQueue.queue t pc) :
    Inv { s with
      mutexes := mutexes
      mutex := mutex
      pc := Function.update s.pc t pc
      disabled := disabled } := by
  have hself : Function.update s.pc t pc t = pc := Function.update_self ..
  refine h.of_step t (fun u hne => Function.update_of_ne hne ..) hcore hattr
    (fun u hne _ => hseen u hne) (fun _ _ _ _ hv => hv) h.nodup (fun _ _ => .rfl) ?_ hfrom ?_ ?_
  · constructor
    · intro hin
      obtain ⟨m, hm⟩ := (h.waiting t).mp hin
      exact absurd hm (hold m)
    · rintro ⟨m, hm⟩
      exact absurd (hself.symm.trans hm) (hnew m)
  · show disabled = if (Function.update s.pc t pc t).disabled then some t else none
    rw [hself]
    exact hto
  · show PcInv mutexes s.waitQueue.queue t (Function.update s.pc t pc t)
    rw [hself]
    exact ht

/-- A move without a change of a mutex. -/
theorem Inv.goto (h : Inv s) {pc : Pc Tid Mid} {mutex : Option Mid} {disabled : Option Tid}
    (hold : ∀ m, s.pc t ≠ .waiting m) (hnew : ∀ m, pc ≠ .waiting m)
    (hfrom : s.disabled = none ∨ s.disabled = some t)
    (hto : disabled = if pc.disabled then some t else none)
    (ht : PcInv s.mutexes s.waitQueue.queue t pc) :
    Inv { s with
      mutex := mutex
      pc := Function.update s.pc t pc
      disabled := disabled } :=
  h.move hold hnew hfrom hto h.core (fun _ => rfl) (fun u _ => .refl u s.mutexes) ht

/-- Who has dispatching disabled, seen from a thread that runs. -/
theorem Inv.disabled_eq (h : Inv s) (hfrom : s.disabled = none ∨ s.disabled = some t) {b : Bool}
    (hb : (s.pc t).disabled = b) : s.disabled = if b then some t else none := by
  cases b with
  | true => exact (h.disabled t).mp hb
  | false =>
    rcases hfrom with hn | hs
    · exact hn
    · exact absurd ((h.disabled t).mpr hs) (by rw [hb]; exact nofun)

end

theorem Inv.wait (h : Inv s) (hc : s.canRun t) (hpc : s.pc t = .running)
    (abstime : Option AbsoluteTimeout) : Inv (waitBegin s t m abstime) := by
  have hold : ∀ m, s.pc t ≠ .waiting m := by
    rw [hpc]
    exact fun _ => nofun
  have hfail : Inv (s.setPc t (.returning m .EINVAL)) := by
    refine h.goto hold (fun _ => nofun) hc.1 (h.disabled_eq hc.1 (by rw [hpc]; rfl)) ?_
    exact ⟨hc.2, fun hst => absurd hst (by simp)⟩
  unfold waitBegin
  split
  next status hst =>
    have hstatus : status = .EINVAL := by
      unfold timedwait at hst
      split at hst
      next => cases hst
      next => cases hst; rfl
      next => cases hst
      next => cases hst
      next => cases hst
    rw [hstatus]
    exact hfail
  next timeout already _ =>
    split
    next => exact hfail
    next => exact h.goto hold (fun _ => nofun) hc.1 rfl hc.2

section

omit [DecidableEq Mid]

theorem Inv.signal (h : Inv s) (hc : s.canRun t) (hpc : s.pc t = .running) (b : Bool) :
    Inv { s.setPc t (.signaling b []) with disabled := some t } := by
  have hold : ∀ m, s.pc t ≠ .waiting m := by
    rw [hpc]
    exact fun _ => nofun
  exact h.goto hold (fun _ => nofun) hc.1 rfl ⟨hc.2, List.nodup_nil, fun u hu => nomatch hu⟩

end

theorem Inv.waitUnlock (h : Inv s) (hc : s.canRun t) {timeout : Option Code} {already : Bool}
    (hpc : s.pc t = .unlocking m timeout already) : Inv (waitUnlock s t m timeout already) := by
  have hold : ∀ m, s.pc t ≠ .waiting m := by
    rw [hpc]
    exact fun _ => nofun
  have hcore := h.core.surrender t m
  have hattr : s.mutexes.SameAttributes (CoreMutex.surrender s.mutexes t m).1 :=
    CoreMutex.sameAttributes_surrender
  have hwaits := CoreMutex.surrender_waits (m := m) hc.2
  have hseen : ∀ u, u ≠ t → Seen u s.mutexes (CoreMutex.surrender s.mutexes t m).1 :=
    fun u hne => CoreMutex.seen_surrender h.core hne.symm (h.owner m)
  unfold Condition.waitUnlock
  split
  next mutexes e =>
    rw [e] at hcore hattr hwaits hseen
    dsimp only
    split
    next => exact h.move hold (fun _ => nofun) hc.1 rfl hcore hattr hseen hwaits
    next =>
      have hd : s.disabled = some t := (h.disabled t).mp (by rw [hpc]; rfl)
      exact h.move hold (fun _ => nofun) hc.1 hd hcore hattr hseen hwaits
  next mutexes status _ e =>
    rw [e] at hcore hattr hwaits hseen
    exact h.move hold (fun _ => nofun) hc.1 rfl hcore hattr hseen
      ⟨hwaits, fun hst => absurd hst (by simp)⟩

section

omit [DecidableEq Mid]

/-- The thread is put on the wait queue while no other thread can be in a signal. -/
theorem Inv.waitEnqueue (h : Inv s) (hc : s.canRun t) {timeout : Option Code}
    (hpc : s.pc t = .unlocked m timeout) : Inv (waitEnqueue s t m timeout) := by
  have hd : s.disabled = some t := (h.disabled t).mp (by rw [hpc]; rfl)
  have hidle : t ∉ s.waitQueue.queue ∧ t ∉ s.waitQueue.released := by
    refine not_or.mp ?_
    intro hin
    obtain ⟨n, hn⟩ := (h.waiting t).mp hin
    exact absurd (hpc.symm.trans hn) nofun
  have hqueue : (Condition.waitEnqueue s t m timeout).waitQueue.queue = s.waitQueue.queue ++ [t] := rfl
  have hreleased : (Condition.waitEnqueue s t m timeout).waitQueue.released = s.waitQueue.released := rfl
  have hself : (Condition.waitEnqueue s t m timeout).pc t = .waiting m := Function.update_self ..
  refine h.of_step t (fun u hne => Function.update_of_ne hne ..) h.core (fun _ => rfl)
    (fun u _ _ => .refl u s.mutexes) ?_ ?_ ?_ ?_ (.inr hd) ?_ ?_
  · intro u hne hu
    exact absurd (Option.some.inj (((h.disabled u).mp hu).symm.trans hd)) hne
  · rw [hqueue, hreleased, List.append_assoc]
    refine List.perm_middle.nodup_iff.mpr (List.nodup_cons.mpr ⟨?_, h.nodup⟩)
    intro hin
    rcases List.mem_append.mp hin with hin | hin
    · exact hidle.1 hin
    · exact hidle.2 hin
  · intro u hne
    rw [hqueue, hreleased]
    simp [hne]
  · rw [hqueue, hself]
    exact ⟨fun _ => ⟨m, rfl⟩, fun _ => .inl (by simp)⟩
  · rw [hself]
    rfl
  · rw [hself]
    exact hc.2

theorem Inv.waitResume (h : Inv s) (hc : s.canRun t) (hpc : s.pc t = .waiting m)
    (hr : t ∈ s.waitQueue.released) : Inv (waitResume s t m) := by
  have hn : s.disabled = none := h.disabled_eq (b := false) hc.1 (by rw [hpc]; rfl)
  have hself : (Condition.waitResume s t m).pc t =
      .locking m (statusOf (s.waitQueue.returnCode t)) := Function.update_self ..
  have hsub : (s.waitQueue.queue ++ s.waitQueue.released.erase t).Sublist
      (s.waitQueue.queue ++ s.waitQueue.released) := List.erase_sublist.append_left _
  have hnodup := List.nodup_append.mp h.nodup
  refine h.of_step t (fun u hne => Function.update_of_ne hne ..) h.core (fun _ => rfl)
    (fun u _ _ => .refl u s.mutexes) (fun _ _ _ _ hv => hv) (h.nodup.sublist hsub) ?_ ?_ hc.1 ?_ ?_
  · intro u hne
    show _ ∨ u ∈ s.waitQueue.released.erase t ↔ _
    rw [List.mem_erase_of_ne hne]
    exact .rfl
  · rw [hself]
    constructor
    · rintro (hin | hin)
      · exact absurd rfl (hnodup.2.2 t hin t hr)
      · exact absurd hin hnodup.2.1.not_mem_erase
    · rintro ⟨n, hn⟩
      cases hn
  · rw [hself]
    exact hn
  · rw [hself]
    exact hc.2

end

theorem Inv.waitLock (h : Inv s) (hc : s.canRun t) {status : Status}
    (hpc : s.pc t = .locking m status) : Inv (waitLock s t m status) := by
  have hold : ∀ m, s.pc t ≠ .waiting m := by
    rw [hpc]
    exact fun _ => nofun
  exact h.move hold (fun _ => nofun) hc.1 (h.disabled_eq hc.1 (by rw [hpc]; rfl))
    (h.core.seize hc.2 true 0) (CoreMutex.sameAttributes_seize true 0)
    (fun u hne => CoreMutex.seen_seize hne.symm true 0) (CoreMutex.seize_self hc.2)

section

omit [DecidableEq Mid]

/-- A wait returns `0` or `ETIMEDOUT` only after `pthread_mutex_lock` succeeded. -/
theorem Inv.waitLocked (h : Inv s) (hc : s.canRun t) {status : Status}
    (hpc : s.pc t = .relocking m status) : Inv (waitLocked s t m status) := by
  have hold : ∀ m, s.pc t ≠ .waiting m := by
    rw [hpc]
    exact fun _ => nofun
  have hgoto : ∀ st, (st = .ok ∨ st = .ETIMEDOUT → (s.mutexes.mutexes m).holder = some t) →
      Inv (s.setPc t (.returning m st)) := by
    intro st hst
    exact h.goto hold (fun _ => nofun) hc.1 (h.disabled_eq hc.1 (by rw [hpc]; rfl)) ⟨hc.2, hst⟩
  have hrelocks : Relocks s.mutexes t m := by
    have := h.thread t
    rw [hpc] at this
    exact this
  unfold Condition.waitLocked
  split
  next hcode =>
    refine hgoto status ?_
    intro _
    rcases hrelocks with ⟨hw, -, -⟩ | ⟨-, hh⟩
    · exact absurd (hc.2.symm.trans hw) nofun
    · exact hh hcode
  next => exact hgoto .EINVAL (fun hst => absurd hst (by simp))

theorem Inv.signalTurn (h : Inv s) (hc : s.canRun t) {b : Bool} {woken : List Tid}
    (hpc : s.pc t = .signaling b woken) : Inv (signalTurn s t b woken) := by
  have hold : ∀ m, s.pc t ≠ .waiting m := by
    rw [hpc]
    exact fun _ => nofun
  have hd : s.disabled = some t := (h.disabled t).mp (by rw [hpc]; rfl)
  have hp := h.thread t
  rw [hpc] at hp
  obtain ⟨hw, hwoken, hout⟩ := hp
  unfold Condition.signalTurn Waiters.dequeue
  cases hf : s.waitQueue.firstLocked with
  | none => exact h.goto hold (fun _ => nofun) hc.1 rfl trivial
  | some u =>
    obtain ⟨q, hq⟩ := Waiters.firstLocked_eq_some.mp hf
    have hin : u ∈ s.waitQueue.queue := by
      rw [hq]
      exact List.mem_cons_self
    have hqueue : (s.waitQueue.extractCritical .fifo u).queue = s.waitQueue.queue.erase u :=
      Waiters.extractCritical_queue _ _
    have h1 : Inv { s with waitQueue := s.waitQueue.extractCritical .fifo u } :=
      h.onQueue (.inr ⟨u, hin, hqueue, rfl⟩)
    dsimp only
    split
    next =>
      have hnext : PcInv s.mutexes (s.waitQueue.extractCritical .fifo u).queue t
          (.signaling true (woken ++ [u]) : Pc Tid Mid) := by
        have hnodup := (List.nodup_append.mp h.nodup).1
        refine ⟨hw, ?_, ?_⟩
        · refine List.nodup_append.mpr ⟨hwoken, List.nodup_singleton u, ?_⟩
          rintro a ha v hv rfl
          rw [List.mem_singleton.mp hv] at ha
          exact hout u ha hin
        · intro v hv
          rw [hqueue]
          rcases List.mem_append.mp hv with hv | hv
          · intro hv'
            exact hout v hv (List.mem_of_mem_erase hv')
          · rw [List.mem_singleton.mp hv]
            exact hnodup.not_mem_erase
      exact h1.goto hold (fun _ => nofun) hc.1 hd hnext
    next => exact h1.goto hold (fun _ => nofun) hc.1 rfl trivial

end

/-! ## Runs -/

theorem Inv.advance (h : Inv s) (he : (Op.advance t : Op Tid Mid).Enabled s) :
    Inv (advance s t) := by
  obtain ⟨hc, hr⟩ := he
  unfold Condition.advance
  cases hpc : s.pc t with
  | running => exact h
  | unlocking m timeout already => exact h.waitUnlock hc hpc
  | unlocked m timeout => exact h.waitEnqueue hc hpc
  | waiting m => exact h.waitResume hc hpc (hr m hpc)
  | locking m status => exact h.waitLock hc hpc
  | relocking m status => exact h.waitLocked hc hpc
  | signaling b woken => exact h.signalTurn hc hpc
  | returning m status =>
    have hold : ∀ m, s.pc t ≠ .waiting m := by
      rw [hpc]
      exact fun _ => nofun
    exact h.goto hold (fun _ => nofun) hc.1 (h.disabled_eq hc.1 (by rw [hpc]; rfl)) trivial

theorem Inv.run (h : Inv s) {op : Op Tid Mid} (he : op.Enabled s) : Inv (op.run s) := by
  cases op with
  | mutex op => exact h.mutex he
  | wait t m abstime => exact h.wait he.1 he.2 abstime
  | signal t b => exact h.signal he.1 he.2 b
  | advance t => exact h.advance he
  | timeout t => exact h.timeout t
  | unblockThread t => exact h.unblockThread t

section

omit [DecidableEq Mid]

theorem Inv.of_start (h : Start s) : Inv s where
  core := .of_start h.mutexes
  owner := h.onlyOwnerRelease
  nodup := by
    rw [h.waitQueue]
    exact List.nodup_nil
  waiting := by
    intro t
    rw [h.waitQueue, h.pc t]
    constructor
    · rintro (hin | hin)
      · cases hin
      · cases hin
    · rintro ⟨m, hm⟩
      cases hm
  disabled := by
    intro t
    rw [h.pc t, h.disabled]
    exact ⟨nofun, nofun⟩
  thread := by
    intro t
    rw [h.pc t]
    trivial

/-! ## Wakeups -/

/-- Signals find the threads that wait, and waits return with the mutex. -/
structure Wakeups (s : State Tid Mid) : Prop where
  /-- While some wait has released its mutex and nothing has woken it, a turn of a signal makes a
  thread ready, one that this signal has not woken before. -/
  turn : ∀ u b woken, s.pc u = .signaling b woken → (∃ t, Unwoken s t) →
    ∃ t, Unwoken s t ∧ t ∉ woken ∧
      (signalTurn s u b woken).waitQueue.released = t :: s.waitQueue.released ∧
      (signalTurn s u b woken).waitQueue.queue = s.waitQueue.queue.erase t ∧
      (signalTurn s u b woken).pc u = if b then .signaling true (woken ++ [t]) else .running
  /-- A broadcast ends when all threads have been woken. -/
  broadcast : ∀ u woken, s.pc u = .signaling true woken →
    (signalTurn s u true woken).pc u = .running → ∀ t, ¬ Unwoken (signalTurn s u true woken) t
  once : ∀ u b woken, s.pc u = .signaling b woken → woken.Nodup
  /-- A wait returns `0` or `ETIMEDOUT` to the owner of the mutex. -/
  owner : ∀ t m status, s.pc t = .returning m status → status = .ok ∨ status = .ETIMEDOUT →
    (s.mutexes.mutexes m).holder = some t

/-- While a thread signals, the threads to wake are on the wait queue. -/
theorem Inv.unwoken (h : Inv s) {b : Bool} {woken : List Tid} (hu : s.pc u = .signaling b woken) :
    Unwoken s t ↔ t ∈ s.waitQueue.queue := by
  have hd : s.disabled = some u := (h.disabled u).mp (by rw [hu]; rfl)
  have hnodup := List.nodup_append.mp h.nodup
  constructor
  · rintro (⟨m, timeout, ht⟩ | ⟨⟨m, ht⟩, hr⟩)
    · have hd' : s.disabled = some t := (h.disabled t).mp (by rw [ht]; rfl)
      obtain rfl : u = t := Option.some.inj (hd.symm.trans hd')
      exact absurd (hu.symm.trans ht) nofun
    · exact ((h.waiting t).mpr ⟨m, ht⟩).resolve_right hr
  · intro hin
    obtain ⟨m, hm⟩ := (h.waiting t).mp (.inl hin)
    exact .inr ⟨⟨m, hm⟩, fun hr => hnodup.2.2 t hin t hr rfl⟩

theorem Inv.wakeups (h : Inv s) : Wakeups s where
  turn := by
    rintro u b woken hu ⟨t, ht⟩
    have hin := (h.unwoken hu).mp ht
    have hout := h.thread u
    rw [hu] at hout
    unfold Condition.signalTurn Waiters.dequeue
    cases hf : s.waitQueue.firstLocked with
    | none =>
      rw [Waiters.firstLocked_eq_none.mp hf] at hin
      cases hin
    | some v =>
      obtain ⟨q, hq⟩ := Waiters.firstLocked_eq_some.mp hf
      have hv : v ∈ s.waitQueue.queue := by
        rw [hq]
        exact List.mem_cons_self
      have hqueue : (s.waitQueue.extractCritical .fifo v).queue = s.waitQueue.queue.erase v :=
        Waiters.extractCritical_queue _ _
      refine ⟨v, (h.unwoken hu).mpr hv, fun hw => hout.2.2 v hw hv, ?_⟩
      cases b with
      | true => exact ⟨rfl, hqueue, setPc_self s u _⟩
      | false => exact ⟨rfl, hqueue, setPc_self s u _⟩
  broadcast := by
    intro u woken hu hend t ht
    unfold Condition.signalTurn Waiters.dequeue at hend ht
    cases hf : s.waitQueue.firstLocked with
    | none =>
      rw [hf] at ht
      have hempty := Waiters.firstLocked_eq_none.mp hf
      have hne : t ≠ u := by
        rintro rfl
        rcases ht with ⟨m, timeout, ht⟩ | ⟨⟨m, ht⟩, -⟩
        · exact absurd ((setPc_self s t _).symm.trans ht) nofun
        · exact absurd ((setPc_self s t _).symm.trans ht) nofun
      have hbefore : Unwoken s t := by
        rcases ht with ⟨m, timeout, ht⟩ | ⟨⟨m, ht⟩, hr⟩
        · exact .inl ⟨m, timeout, (setPc_other s _ hne).symm.trans ht⟩
        · exact .inr ⟨⟨m, (setPc_other s _ hne).symm.trans ht⟩, hr⟩
      have hin := (h.unwoken hu).mp hbefore
      rw [hempty] at hin
      cases hin
    | some v =>
      rw [hf] at hend
      exact absurd ((setPc_self s u _).symm.trans hend) nofun
  once := by
    intro u b woken hu
    have := h.thread u
    rw [hu] at this
    exact this.2.1
  owner := by
    intro t m status ht hst
    have := h.thread t
    rw [ht] at this
    exact this.2 hst

end

/-- No signal is lost, in any run. -/
theorem no_wakeup_lost {s₀ : State Tid Mid} (h₀ : Start s₀) (hr : Reachable s₀ s) : Wakeups s := by
  have h : Inv s := by
    refine Reach.invariant hr (.of_start h₀) ?_
    rintro s s' h ⟨op, he, rfl⟩
    exact h.run he
  exact h.wakeups

/-- Two threads, and a mutex that no one holds. -/
def twoThreads : State Bool Unit where
  mutexes :=
    { threads := fun _ => ⟨10, 10, false, 0, none, .inactive, .successful⟩
      mutexes := fun _ => ⟨⟨.isError, true, .priority, 0⟩, none, 0, []⟩ }
  waitQueue := .start .successful
  mutex := none
  pc := fun _ => .running
  disabled := none

theorem twoThreads_start : Start twoThreads where
  mutexes := ⟨fun _ => rfl, fun _ => rfl, fun _ => rfl, fun _ => rfl, fun _ => rfl, fun _ => rfl⟩
  onlyOwnerRelease := fun _ => rfl
  waitQueue := rfl
  mutex := rfl
  pc := fun _ => rfl
  disabled := rfl

/-- A thread waits, and the other one signals. -/
def waitAndSignal : List (Op Bool Unit) :=
  [.mutex (.seize true () true 0), .wait true () none, .advance true, .advance true,
    .signal false false]

theorem no_wakeup_lost_signaled : Wakeups (waitAndSignal.foldl Op.run twoThreads) := by
  refine no_wakeup_lost twoThreads_start ?_
  refine .head ⟨.mutex (.seize true () true 0), ⟨rfl, ⟨.inl rfl, rfl⟩, rfl⟩, rfl⟩ ?_
  refine .head ⟨.wait true () none, ⟨⟨.inl rfl, rfl⟩, rfl⟩, rfl⟩ ?_
  refine .head ⟨.advance true, ⟨⟨.inr rfl, rfl⟩, fun _ => nofun⟩, rfl⟩ ?_
  refine .head ⟨.advance true, ⟨⟨.inr rfl, rfl⟩, fun _ => nofun⟩, rfl⟩ ?_
  exact .single ⟨.signal false false, ⟨⟨.inl rfl, rfl⟩, rfl⟩, rfl⟩

end Rtems.Condition
