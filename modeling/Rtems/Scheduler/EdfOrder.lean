import Rtems.Scheduler.Edf

/-!
# The EDF scheduler over whole runs

A run in which the deadlines keep their order keeps the tree sorted at every
tick, and the heir, if it is preemptible, before all the ready threads.  Once
the deadline of a ready thread has passed, the comparison puts it behind the
later ones, while the tree stays as it is.
-/

namespace Rtems.Scheduler.Edf

open Lib

variable {Tid : Type} [DecidableEq Tid] {s s' s'' : State Tid} {t u : Tid} {l : List Tid}
  {op : Op Tid}

/-! ## The result does not depend on the bound -/

theorem enqueue_extends (n : Nat) (s : State Tid) (t : Tid) :
    Extends (enqueue n s t) (enqueue (n + 1) s t) :=
  .bind (RBTree.insert_extends n _ _) fun _ => .refl _

theorem extract_extends (n : Nat) (s : State Tid) (t : Tid) :
    Extends (extract n s t) (extract (n + 1) s t) :=
  .bind (RBTree.extract_extends n _) fun _ => .refl _

theorem block_extends (n : Nat) (s : State Tid) (t : Tid) :
    Extends (block n s t) (block (n + 1) s t) :=
  .bind (extract_extends n s t) fun _ => .refl _

theorem unblock_extends (n : Nat) (s : State Tid) (t : Tid) :
    Extends (unblock n s t) (unblock (n + 1) s t) :=
  .bind (enqueue_extends n s t) fun _ => .refl _

theorem requeue_extends (n : Nat) (s : State Tid) (t : Tid) :
    Extends (requeue n s t) (requeue (n + 1) s t) :=
  .bind (RBTree.extract_extends n _) fun _ => .bind (RBTree.insert_extends n _ _) fun _ => .refl _

theorem changePriority_extends (n : Nat) (s : State Tid) (t : Tid) (filter : Filter) (due : Nat) :
    Extends (changePriority n s t filter due) (changePriority (n + 1) s t filter due) := by
  unfold changePriority
  dsimp only
  cases (filter (s.threads t)).2 with
  | none => exact .refl _
  | some p => exact .ite (requeue_extends n _ t) (.refl _)

theorem Op.run_extends (op : Op Tid) (n : Nat) : Extends (op.run n s) (op.run (n + 1) s) := by
  cases op with
  | setState t state => exact .ite (block_extends n _ t) (.refl _)
  | clearState t state => exact .ite (.ite (unblock_extends n _ t) (.refl _)) (.refl _)
  | changePriority t filter due => exact changePriority_extends n s t filter due
  | releaseJob t deadline =>
    exact changePriority_extends n s t (setPriorityFilter (releasePriority s t deadline))
      (s.now + deadline.toNat)
  | yield t => exact .ite (requeue_extends n s t) (.refl _)
  | dispatch => exact .refl _
  | tick => exact .refl _
  | resources t count => exact .refl _

theorem Op.Returns.unique (h : op.Returns s s') (h' : op.Returns s s'') : s' = s'' := by
  obtain ⟨m, hm⟩ := h
  obtain ⟨n, hn⟩ := h'
  have hm' := Extends.of_succ op.run_extends (Nat.le_max_left m n) _ hm
  have hn' := Extends.of_succ op.run_extends (Nat.le_max_right m n) _ hn
  exact Option.some.inj (hm'.symm.trans hn')

/-! ## The ready tree -/

theorem onThread_self (f : ThreadControl → ThreadControl) :
    (s.onThread t f).threads t = f (s.threads t) := Function.update_self ..

theorem onThread_other (f : ThreadControl → ThreadControl) (h : u ≠ t) :
    (s.onThread t f).threads u = s.threads u := Function.update_of_ne h ..

/-- The thread is initialized, and its initial priority is a background one. -/
structure Started (c : ThreadControl) : Prop where
  queueState : c.queueState ≠ .neverHasBeen
  background : ¬ IsDriven c.initialPriority

/-- The tree holds the ready threads of a set. -/
structure Queue (member : Tid → Prop) (s : State Tid) (l : List Tid) : Prop where
  lists : RBTree.Lists s.compare s.ready l
  mem : ∀ t, t ∈ l ↔ member t ∧ s.IsReady t
  stands : Stands s
  window : InWindow s.now (fun t => (member t ∧ s.IsReady t) ∧ s.Driven t) s.due
  started : ∀ t, Started (s.threads t)

section

omit [DecidableEq Tid]

theorem InWindow.mono {now : Nat} {member member' : Tid → Prop} {due due' : Tid → Nat}
    (h : InWindow now member due) (hm : ∀ u, member' u → member u)
    (hd : ∀ u, member' u → due' u = due u) : InWindow now member' due' := by
  intro u v hu hv hlt
  rw [hd u hu, hd v hv] at hlt ⊢
  exact h u v (hm u hu) (hm v hv) hlt

theorem Queue.ordered {member : Tid → Prop} (h : Queue member s l) : Ordered s.key l :=
  h.lists.ordered (compare_comparesBy s)

/-- The keys of the threads in the tree are in the order of their deadlines. -/
theorem Queue.key_le_iff {member : Tid → Prop} (h : Queue member s l) (ht : t ∈ l) (hu : u ∈ l) :
    s.key t ≤ s.key u ↔ Precedes s t u :=
  h.stands.key_le_iff h.window (fun hd => ⟨(h.mem t).mp ht, hd⟩) fun hd => ⟨(h.mem u).mp hu, hd⟩

theorem Queue.detach (h : Queue (fun _ => True) s l) (ht : ¬ s.IsReady t) :
    Queue (· ≠ t) s l where
  lists := h.lists
  mem u := by
    rw [h.mem]
    refine ⟨fun hu => ⟨?_, hu.2⟩, fun hu => ⟨trivial, hu.2⟩⟩
    rintro rfl
    exact ht hu.2
  stands := h.stands
  window := h.window.mono (fun u hu => ⟨⟨trivial, hu.1.2⟩, hu.2⟩) fun _ _ => rfl
  started := h.started

theorem Queue.leave (h : Queue (· ≠ t) s l) (ht : ¬ s.IsReady t) :
    Queue (fun _ => True) s l where
  lists := h.lists
  mem u := by
    rw [h.mem]
    refine ⟨fun hu => ⟨trivial, hu.2⟩, fun hu => ⟨?_, hu.2⟩⟩
    rintro rfl
    exact ht hu.2
  stands := h.stands
  window := h.window.mono (fun u hu => ⟨⟨fun e => ht (e ▸ hu.1.2), hu.1.2⟩, hu.2⟩) fun _ _ => rfl
  started := h.started

/-- A thread that is not in the tree is changed. -/
theorem Queue.change (h : Queue (· ≠ t) s l) (hready : s'.ready = s.ready) (hnow : s'.now = s.now)
    (hthreads : ∀ u ≠ t, s'.threads u = s.threads u) (hdue : ∀ u ≠ t, s'.due u = s.due u)
    (hstands : s'.Driven t → (s'.prio t).toNat = s'.due t % 2 ^ 31)
    (hstarted : Started (s'.threads t)) : Queue (· ≠ t) s' l where
  lists := by
    rw [hready]
    refine h.lists.congr (compare_comparesBy s') (h.ordered.congr fun u hu => ?_)
    change Edf.key s'.ticksSinceBoot (s'.prio u) = Edf.key s.ticksSinceBoot (s.prio u)
    rw [State.ticksSinceBoot, hnow, State.prio, hthreads u ((h.mem u).mp hu).1]
    rfl
  mem u := by
    rw [h.mem]
    refine and_congr_right fun hu => ?_
    rw [State.IsReady, State.IsReady, hthreads u hu]
  stands u := by
    rcases eq_or_ne u t with rfl | hu
    · exact hstands
    · rw [State.Driven, State.prio, hthreads u hu, hdue u hu]
      exact h.stands u
  window := by
    rw [hnow]
    refine h.window.mono (fun u hu => ?_) fun u hu => hdue u hu.1.1
    have hne := hu.1.1
    rw [State.IsReady, State.Driven, State.prio, hthreads u hne] at hu
    exact hu
  started u := by
    rcases eq_or_ne u t with rfl | hu
    · exact hstarted
    · rw [hthreads u hu]
      exact h.started u

end

theorem Queue.extract (h : Queue (fun _ => True) s l) (ht : s.IsReady t) :
    ∃ n ready, RBTree.extract n s.ready none (some t) = some ready ∧
      Queue (· ≠ t) (s.withReady ready) (l.erase t) := by
  obtain ⟨n, ready, hready, hlists⟩ := h.lists.extract ((h.mem t).mpr ⟨trivial, ht⟩)
  refine ⟨n, ready, hready, hlists, fun u => ?_, h.stands, ?_, h.started⟩
  · rw [h.lists.nodup.mem_erase_iff, h.mem, true_and]
    rfl
  · exact h.window.mono (fun u hu => ⟨⟨trivial, hu.1.2⟩, hu.2⟩) fun _ _ => rfl

theorem Queue.insert (h : Queue (· ≠ t) s l) (ht : s.IsReady t)
    (hwin : InWindow s.now (fun u => s.IsReady u ∧ s.Driven u) s.due) :
    ∃ n ready, RBTree.insert n s.ready none (some t) s.compare false = some (ready, none) ∧
      Queue (fun _ => True) (s.withReady ready) (stableInsert s.key t l) := by
  have hnot : t ∉ l := fun hm => ((h.mem t).mp hm).1 rfl
  obtain ⟨n, ready, hready, hlists⟩ := h.lists.insert (compare_comparesBy s) hnot
  refine ⟨n, ready, hready, hlists, fun u => ?_, h.stands, ?_, h.started⟩
  · rw [mem_stableInsert, h.mem]
    constructor
    · rintro (rfl | hu)
      · exact ⟨trivial, ht⟩
      · exact ⟨trivial, hu.2⟩
    · rintro ⟨-, hu⟩
      rcases eq_or_ne u t with rfl | hne
      · exact .inl rfl
      · exact .inr ⟨hne, hu⟩
  · exact hwin.mono (fun u hu => ⟨hu.1.2, hu.2⟩) fun _ _ => rfl

/-! ## The heir -/

/-- The heir is ready, and before all ready threads unless it is not preemptible. -/
structure HeirOk (s : State Tid) : Prop where
  ready : s.IsReady s.heir
  first : (s.threads s.heir).isPreemptible = true → ∀ u, s.IsReady u → s.key s.heir ≤ s.key u

structure Inv (s : State Tid) (l : List Tid) : Prop where
  queue : Queue (fun _ => True) s l
  heir : HeirOk s

theorem Queue.updateHeir {member : Tid → Prop} (h : Queue member s l) (u : Tid) (force : Bool) :
    Queue member (updateHeir s u force) l := by
  unfold Edf.updateHeir
  split
  · exact ⟨h.lists, h.mem, h.stands, h.window, h.started⟩
  · exact h

/-- The new heir, if it is not the old one that is kept. -/
theorem HeirOk.updateHeir {force : Bool}
    (hkeep : s.heir ≠ u → (s.threads s.heir).isPreemptible = false → force = false →
      s.IsReady s.heir)
    (hu : s.IsReady u)
    (hfirst : (s.threads u).isPreemptible = true →
      s.heir = u ∨ (s.threads s.heir).isPreemptible = true ∨ force = true →
        ∀ v, s.IsReady v → s.key u ≤ s.key v) :
    HeirOk (updateHeir s u force) := by
  unfold Edf.updateHeir
  split
  next hc =>
    rw [Bool.or_eq_true] at hc
    exact ⟨hu, fun hp => hfirst hp (.inr hc.2)⟩
  next hc =>
    rcases eq_or_ne s.heir u with he | hne
    · exact ⟨he ▸ hu, fun hp => he ▸ hfirst (he ▸ hp) (.inl he)⟩
    · rw [not_and, Bool.not_eq_true, Bool.or_eq_false_iff] at hc
      obtain ⟨hp, hforce⟩ := hc hne
      refine ⟨hkeep hne hp hforce, fun hp' => ?_⟩
      rw [hp] at hp'
      cases hp'

/-- A new scheduling decision. -/
theorem Queue.schedule (h : Queue (fun _ => True) s l) {force : Bool} (ht : s.IsReady t)
    (hkeep : force = false → s.IsReady s.heir) : Inv (scheduleBody s force) l := by
  have hmem : t ∈ l := (h.mem t).mpr ⟨trivial, ht⟩
  unfold scheduleBody
  rw [h.lists.first]
  cases l with
  | nil => exact absurd hmem List.not_mem_nil
  | cons a l =>
    have ha : s.IsReady a := ((h.mem a).mp List.mem_cons_self).2
    refine ⟨h.updateHeir a force, .updateHeir (fun _ _ => hkeep) ha fun _ _ v hv => ?_⟩
    exact h.ordered.head_le ((h.mem v).mpr ⟨trivial, hv⟩)

/-! ## Block -/

section

omit [DecidableEq Tid]

theorem key_congr (hnow : s'.now = s.now) (hprio : s'.prio u = s.prio u) :
    s'.key u = s.key u := by
  rw [State.key, State.key, State.ticksSinceBoot, State.ticksSinceBoot, hnow, hprio]

end

theorem prio_onThread {f : ThreadControl → ThreadControl}
    (hf : ∀ c, (f c).currentPriority = c.currentPriority) : (s.onThread t f).prio = s.prio := by
  funext u
  rcases eq_or_ne u t with rfl | hne
  · rw [State.prio, onThread_self, hf]
    rfl
  · rw [State.prio, onThread_other f hne]
    rfl

theorem isReady_onThread {f : ThreadControl → ThreadControl}
    (hf : ∀ c, (f c).currentState = c.currentState) :
    (s.onThread t f).IsReady u ↔ s.IsReady u := by
  rcases eq_or_ne u t with rfl | hne
  · rw [State.IsReady, onThread_self, hf]
    rfl
  · rw [State.IsReady, onThread_other f hne]
    rfl

/-- A thread that is in no tree is changed, but not its priority. -/
theorem Queue.onThread (h : Queue (· ≠ t) s l) {f : ThreadControl → ThreadControl}
    (hf : ∀ c, (f c).currentPriority = c.currentPriority)
    (hstarted : Started (f (s.threads t))) :
    Queue (· ≠ t) (s.onThread t f) l := by
  refine h.change rfl rfl (fun u hu => onThread_other f hu) (fun _ _ => rfl) ?_ ?_
  · rw [State.Driven, prio_onThread hf]
    exact h.stands t
  · rw [onThread_self]
    exact hstarted

theorem statesSet_ne_ready {a : BitVec 32} (b : BitVec 32) (ha : a ≠ 0#32) :
    statesSet a b ≠ statesReady := by
  intro he
  exact ha (BitVec.or_eq_zero_iff.mp he).2

theorem Inv.block (h : Inv s l) (ht : s.IsReady t) {f : ThreadControl → ThreadControl}
    (hf : ∀ c, (f c).currentPriority = c.currentPriority)
    (hstarted : Started (f (s.threads t)))
    (hnot : (f (s.threads t)).currentState ≠ statesReady) (hu : ∃ u, u ≠ t ∧ s.IsReady u) :
    ∃ n s' l', block n (s.onThread t f) t = some s' ∧ Inv s' l' := by
  obtain ⟨n, ready, hready, hq⟩ := h.queue.extract ht
  have hq' : Queue (fun _ => True) ((s.withReady ready).onThread t f)
      (l.erase t) := by
    refine (hq.onThread hf hstarted).leave ?_
    rw [State.IsReady, onThread_self]
    exact hnot
  have hblock : Edf.block n (s.onThread t f) t = some
      (if s.executing = t ∨ s.heir = t then
        scheduleBody ((s.withReady ready).onThread t f) true
      else ((s.withReady ready).onThread t f)) := by
    unfold Edf.block Edf.extract
    rw [show (s.onThread t f).ready = s.ready from rfl, hready]
    rfl
  refine ⟨n, _, l.erase t, hblock, ?_⟩
  have hother : ∀ v ≠ t, s.IsReady v →
      ((s.withReady ready).onThread t f).IsReady v := by
    intro v hv hr
    rw [State.IsReady, onThread_other f hv]
    exact hr
  split
  next =>
    obtain ⟨u, hne, hr⟩ := hu
    exact hq'.schedule (hother u hne hr) nofun
  next hc =>
    rw [not_or] at hc
    refine ⟨hq', hother _ hc.2 h.heir.ready, ?_⟩
    rw [show ((s.withReady ready).onThread t f).heir = s.heir from rfl, onThread_other f hc.2]
    intro hp v hv
    have hkey : ∀ w, ((s.withReady ready).onThread t f).key w = s.key w :=
      fun w => key_congr rfl (congrFun (prio_onThread hf) w)
    rw [hkey, hkey]
    refine h.heir.first hp v ?_
    have hvt : v ≠ t := by
      rintro rfl
      rw [State.IsReady, onThread_self] at hv
      exact hnot hv
    rw [State.IsReady, onThread_other f hvt] at hv
    exact hv

section

omit [DecidableEq Tid]

/-- A change of a thread that is not ready, neither before nor after. -/
theorem Inv.offQueue (h : Inv s l) (ht : ¬ s.IsReady t) {s' : State Tid}
    (hready : s'.ready = s.ready) (hnow : s'.now = s.now) (hheir : s'.heir = s.heir)
    (hthreads : ∀ u ≠ t, s'.threads u = s.threads u) (hdue : ∀ u ≠ t, s'.due u = s.due u)
    (hstands : s'.Driven t → (s'.prio t).toNat = s'.due t % 2 ^ 31)
    (hstarted : Started (s'.threads t)) (hnot : ¬ s'.IsReady t) : Inv s' l := by
  have hne : s.heir ≠ t := fun e => ht (e ▸ h.heir.ready)
  have hkey : ∀ u ≠ t, s'.key u = s.key u := fun u hu =>
    key_congr hnow (by rw [State.prio, hthreads u hu]; rfl)
  refine ⟨((h.queue.detach ht).change hready hnow hthreads hdue hstands hstarted).leave hnot, ?_, ?_⟩
  · rw [hheir, State.IsReady, hthreads _ hne]
    exact h.heir.ready
  · rw [hheir, hthreads _ hne]
    intro hp u hu
    have hut : u ≠ t := fun e => hnot (e ▸ hu)
    rw [hkey _ hne, hkey u hut]
    refine h.heir.first hp u ?_
    rw [State.IsReady, hthreads u hut] at hu
    exact hu

end

theorem Inv.setState (h : Inv s l) {state : BitVec 32} (hs : state ≠ 0#32)
    (hu : ∃ u, u ≠ t ∧ s.IsReady u) : ∃ n s' l', setState n s t state = some s' ∧ Inv s' l' := by
  have hnot := statesSet_ne_ready (s.threads t).currentState hs
  unfold Edf.setState
  dsimp only
  split
  next ht => exact h.block ht (fun _ => rfl) ⟨(h.queue.started t).queueState, (h.queue.started t).background⟩ hnot hu
  next ht =>
    refine ⟨0, _, l, rfl, h.offQueue ht rfl rfl rfl (fun u hu => onThread_other _ hu)
      (fun _ _ => rfl) ?_ ?_ ?_⟩
    · rw [State.Driven, prio_onThread
        (f := fun c => { c with currentState := statesSet state (s.threads t).currentState })
        fun _ => rfl]
      exact h.queue.stands t
    · rw [onThread_self]
      exact ⟨(h.queue.started t).queueState, (h.queue.started t).background⟩
    · rw [State.IsReady, onThread_self]
      exact hnot

/-! ## Unblock -/

/-- The thread is put into the tree. -/
theorem Queue.enqueue (h : Queue (· ≠ t) s l) (ht : s.IsReady t)
    (hwin : InWindow s.now (fun u => s.IsReady u ∧ s.Driven u) s.due) :
    ∃ n ready, enqueue n s t = some
        ((s.withReady ready).onThread t fun c => { c with queueState := .yes }) ∧
      Queue (fun _ => True)
        ((s.withReady ready).onThread t fun c => { c with queueState := .yes })
        (stableInsert s.key t l) := by
  let r := s.onThread t fun c => { c with queueState := .yes }
  have hprio : r.prio = s.prio := prio_onThread fun _ => rfl
  have hcompare : r.compare = s.compare := by
    unfold State.compare
    rw [hprio]
    rfl
  have hkey : r.key = s.key := funext fun u => key_congr rfl (congrFun hprio u)
  have hrdy : ∀ u, r.IsReady u ↔ s.IsReady u := fun u =>
    isReady_onThread (f := fun c => { c with queueState := .yes }) fun _ => rfl
  have hr : Queue (· ≠ t) r l := h.onThread (fun _ => rfl) ⟨nofun, (h.started t).background⟩
  have hwin' : InWindow r.now (fun u => r.IsReady u ∧ r.Driven u) r.due := by
    refine hwin.mono (fun u hu => ⟨(hrdy u).mp hu.1, ?_⟩) fun _ _ => rfl
    have hd := hu.2
    rw [State.Driven, hprio] at hd
    exact hd
  obtain ⟨n, ready, hready, hq⟩ := hr.insert ((hrdy t).mpr ht) hwin'
  rw [hcompare] at hready
  rw [hkey] at hq
  refine ⟨n, ready, ?_, hq⟩
  unfold Edf.enqueue
  rw [show s.ready = r.ready from rfl, hready]
  rfl

/-- Unblocking a thread that was put into the ready state. -/
theorem Queue.unblock (hq : Queue (· ≠ t) s l) (ht : s.IsReady t) (hne : s.heir ≠ t)
    (hheirReady : s.IsReady s.heir)
    (hfirst : (s.threads s.heir).isPreemptible = true →
      ∀ u ≠ t, s.IsReady u → s.key s.heir ≤ s.key u)
    (hwin : InWindow s.now (fun u => s.IsReady u ∧ s.Driven u) s.due) (ho : ¬ Overtakes s t) :
    ∃ n s' l', unblock n s t = some s' ∧ Inv s' l' := by
  obtain ⟨n, ready, henqueue, hqueue⟩ := hq.enqueue ht hwin
  generalize hr : ((s.withReady ready).onThread t fun c => { c with queueState := .yes }) = r at henqueue hqueue
  have hprio : r.prio = s.prio := by
    rw [← hr]
    exact prio_onThread fun _ => rfl
  have hready : ∀ u, r.IsReady u ↔ s.IsReady u := fun u => by
    rw [← hr]
    exact isReady_onThread (f := fun c => { c with queueState := .yes }) fun _ => rfl
  have hnow : r.now = s.now := by
    rw [← hr]
    rfl
  have hheir : r.heir = s.heir := by
    rw [← hr]
    rfl
  have hpre : ∀ u, (r.threads u).isPreemptible = (s.threads u).isPreemptible := fun u => by
    rw [← hr]
    rcases eq_or_ne u t with rfl | hu
    · rw [onThread_self]
      rfl
    · rw [onThread_other _ hu]
      rfl
  have hkey : ∀ u, r.key u = s.key u := fun u => key_congr hnow (congrFun hprio u)
  have hle : ∀ u v, s.IsReady u → s.IsReady v → (s.key u ≤ s.key v ↔ Precedes s u v) :=
    fun u v hu hv => hq.stands.key_le_iff hwin (fun hd => ⟨hu, hd⟩) fun hd => ⟨hv, hd⟩
  have hunblock : Edf.unblock n s t = some
      (if priorityCompare r.ticksSinceBoot (r.prio r.heir) (r.prio t) < 0 then
        Edf.updateHeir r t (r.prio t == BitVec.ofNat 32 priorityPseudoIsr)
      else r) := by
    unfold Edf.unblock
    rw [henqueue]
    rfl
  refine ⟨n, _, stableInsert s.key t l, hunblock, ?_⟩
  have hcompare : priorityCompare r.ticksSinceBoot (r.prio r.heir) (r.prio t) < 0 ↔
      s.key t < s.key s.heir := by
    rw [priorityCompare_neg, ← hkey, ← hkey, ← hheir]
    rfl
  split
  next hlt =>
    rw [hcompare] at hlt
    refine ⟨hqueue.updateHeir _ _, .updateHeir (fun _ _ _ => ?_) ((hready t).mpr ht) ?_⟩
    · rw [hheir, hready]
      exact hheirReady
    · rw [hheir, hpre, hpre]
      intro hp hcase u hu
      rw [hready] at hu
      rw [hkey, hkey]
      have hbefore : (s.threads s.heir).isPreemptible = true → s.key t ≤ s.key u := by
        intro hp'
        rcases eq_or_ne u t with rfl | hut
        · exact Nat.le_refl _
        · exact Nat.le_of_lt (Nat.lt_of_lt_of_le hlt (hfirst hp' u hut hu))
      rcases hcase with he | hp' | hforce
      · exact absurd he hne
      · exact hbefore hp'
      · by_contra hn
        rw [hprio] at hforce
        refine ho ⟨beq_iff_eq.mp hforce, hp, ?_, ?_, u, hu, ?_⟩
        · rw [← Bool.not_eq_true]
          exact fun hp' => hn (hbefore hp')
        · rw [← hle s.heir t hheirReady ht]
          exact Nat.not_le.mpr hlt
        · rw [← hle t u ht hu]
          exact hn
  next hge =>
    rw [hcompare, Nat.not_lt] at hge
    refine ⟨hqueue, ?_, ?_⟩
    · rw [hheir, hready]
      exact hheirReady
    · rw [hheir, hpre]
      intro hp u hu
      rw [hready] at hu
      rw [hkey, hkey]
      rcases eq_or_ne u t with rfl | hut
      · exact hge
      · exact hfirst hp u hut hu

theorem Inv.clearState (h : Inv s l) {state : BitVec 32}
    (hin : Readies s t state →
      InWindow s.now (fun u => (u = t ∨ s.IsReady u) ∧ s.Driven u) s.due ∧ ¬ Overtakes s t) :
    ∃ n s' l', clearState n s t state = some s' ∧ Inv s' l' := by
  unfold Edf.clearState
  dsimp only
  split
  next hand =>
    -- A thread with a state to clear is not ready.
    have ht : ¬ s.IsReady t := fun e => hand (by rw [e]; exact BitVec.zero_and)
    let f : ThreadControl → ThreadControl := fun c =>
      { c with currentState := statesClear state (s.threads t).currentState }
    have hprio : (s.onThread t f).prio = s.prio := prio_onThread fun _ => rfl
    split
    next hclear =>
      obtain ⟨hwin, ho⟩ := hin ⟨hand, hclear⟩
      have hne : s.heir ≠ t := fun e => ht (e ▸ h.heir.ready)
      have hself : (s.onThread t f).IsReady t := by
        rw [State.IsReady, onThread_self]
        exact hclear
      have hother : ∀ u ≠ t, (s.onThread t f).IsReady u → s.IsReady u := fun u hu hr => by
        rw [State.IsReady, onThread_other f hu] at hr
        exact hr
      have hq : Queue (· ≠ t) (s.onThread t f) l :=
        (h.queue.detach ht).onThread (fun _ => rfl)
          ⟨(h.queue.started t).queueState, (h.queue.started t).background⟩
      have hkey : ∀ u, (s.onThread t f).key u = s.key u := fun u =>
        key_congr rfl (congrFun hprio u)
      have hprecedes : ∀ u v, Precedes (s.onThread t f) u v ↔ Precedes s u v := fun u v =>
        precedes_congr (congrFun hprio u) (congrFun hprio v) rfl rfl
      apply hq.unblock hself hne
      case hheirReady =>
        rw [show (s.onThread t f).heir = s.heir from rfl, State.IsReady, onThread_other f hne]
        exact h.heir.ready
      case hfirst =>
        rw [show (s.onThread t f).heir = s.heir from rfl, onThread_other f hne]
        intro hp u hut hu
        rw [hkey, hkey]
        exact h.heir.first hp u (hother u hut hu)
      case hwin =>
        refine hwin.mono (fun u hu => ⟨?_, ?_⟩) fun _ _ => rfl
        · rcases eq_or_ne u t with rfl | hut
          · exact .inl rfl
          · exact .inr (hother u hut hu.1)
        · have hd := hu.2
          rw [State.Driven, hprio] at hd
          exact hd
      case ho =>
        rintro ⟨hzero, hp, hh, hpre, u, hu, hpu⟩
        rw [hprio] at hzero
        rw [onThread_self] at hp
        rw [show (s.onThread t f).heir = s.heir from rfl, onThread_other f hne] at hh
        rw [show (s.onThread t f).heir = s.heir from rfl, hprecedes] at hpre
        rw [hprecedes] at hpu
        have hut : u ≠ t := by
          rintro rfl
          exact hpu ⟨fun _ _ => Nat.le_refl _, fun hd => ⟨hd, Nat.le_refl _⟩⟩
        exact ho ⟨hzero, hp, hh, hpre, u, hother u hut hu, hpu⟩
    next hclear =>
      refine ⟨0, _, l, rfl, h.offQueue ht rfl rfl rfl (fun u hu => onThread_other f hu)
        (fun _ _ => rfl) ?_ ?_ ?_⟩
      · rw [State.Driven, hprio]
        exact h.queue.stands t
      · rw [onThread_self]
        exact ⟨(h.queue.started t).queueState, (h.queue.started t).background⟩
      · rw [State.IsReady, onThread_self]
        exact hclear
  next => exact ⟨0, s, l, rfl, h⟩

/-! ## Change priority and yield -/

/-- A ready thread is taken out of the tree, changed and put back. -/
theorem Queue.requeue (h : Queue (fun _ => True) s l) (ht : s.IsReady t)
    (hheir : s.IsReady s.heir) (hready : s'.ready = s.ready) (hnow : s'.now = s.now)
    (hthreads : ∀ u ≠ t, s'.threads u = s.threads u) (hdue : ∀ u ≠ t, s'.due u = s.due u)
    (hstate : s'.IsReady t) (hkeep : s'.heir = s.heir)
    (hstands : s'.Driven t → (s'.prio t).toNat = s'.due t % 2 ^ 31)
    (hstarted : Started (s'.threads t))
    (hwin : InWindow s'.now (fun u => s'.IsReady u ∧ s'.Driven u) s'.due) :
    ∃ n s'' l', requeue n s' t = some s'' ∧ Inv s'' l' := by
  obtain ⟨m, ready, hm, hq⟩ := h.extract ht
  have hq' : Queue (· ≠ t) (s'.withReady ready) (l.erase t) :=
    hq.change rfl hnow hthreads hdue hstands hstarted
  obtain ⟨n, ready', hn, hq''⟩ := hq'.insert hstate hwin
  have hm' : RBTree.extract (max m n) s.ready none (some t) = some ready :=
    Extends.of_succ (fun k => RBTree.extract_extends k (some t)) (Nat.le_max_left m n) _ hm
  have hn' : RBTree.insert (max m n) ready none (some t) s'.compare false = some (ready', none) :=
    Extends.of_succ (fun k => RBTree.insert_extends k (some t) false) (Nat.le_max_right m n) _ hn
  refine ⟨max m n, scheduleBody (s'.withReady ready') false, _, ?_, hq''.schedule hstate fun _ => ?_⟩
  · unfold Edf.requeue
    rw [hready, hm']
    change (RBTree.insert (max m n) ready none (some t) s'.compare false).bind _ = _
    rw [hn']
    rfl
  · change s'.IsReady s'.heir
    rw [hkeep]
    rcases eq_or_ne s.heir t with he | hne
    · rw [he]
      exact hstate
    · rw [State.IsReady, hthreads _ hne]
      exact hheir

theorem Inv.yield (h : Inv s l) (t : Tid) : ∃ n s' l', yield n s t = some s' ∧ Inv s' l' := by
  unfold Edf.yield
  split
  next ht =>
    refine h.queue.requeue ht h.heir.ready rfl rfl (fun _ _ => rfl) (fun _ _ => rfl) ht rfl
      (h.queue.stands t) (h.queue.started t) ?_
    exact h.queue.window.mono (fun u hu => ⟨⟨trivial, hu.1⟩, hu.2⟩) fun _ _ => rfl
  next => exact ⟨0, s, l, rfl, h⟩

/-- A thread with another real priority, or owning other resources. -/
theorem Inv.congr (h : Inv s l) {f : ThreadControl → ThreadControl}
    (hprio : ∀ c, (f c).currentPriority = c.currentPriority)
    (hstate : ∀ c, (f c).currentState = c.currentState)
    (hpre : ∀ c, (f c).isPreemptible = c.isPreemptible)
    (hstarted : ∀ c, Started c → Started (f c)) : Inv (s.onThread t f) l := by
  have hp : (s.onThread t f).prio = s.prio := prio_onThread hprio
  have hready : ∀ u, (s.onThread t f).IsReady u ↔ s.IsReady u := fun u => isReady_onThread hstate
  have hkey : ∀ u, (s.onThread t f).key u = s.key u := fun u => key_congr rfl (congrFun hp u)
  have hcompare : (s.onThread t f).compare = s.compare := by
    unfold State.compare
    rw [hp]
    rfl
  constructor
  case queue =>
    refine ⟨?_, fun u => ?_, fun u => ?_, ?_, fun u => ?_⟩
    · rw [hcompare]
      exact h.queue.lists
    · rw [hready]
      exact h.queue.mem u
    · rw [State.Driven, hp]
      exact h.queue.stands u
    · refine h.queue.window.mono (fun u hu => ?_) fun _ _ => rfl
      rw [hready, State.Driven, hp] at hu
      exact hu
    · rcases eq_or_ne u t with rfl | hu
      · rw [onThread_self]
        exact hstarted _ (h.queue.started u)
      · rw [onThread_other f hu]
        exact h.queue.started u
  case heir =>
    have hpre' : ((s.onThread t f).threads s.heir).isPreemptible =
        (s.threads s.heir).isPreemptible := by
      rcases eq_or_ne s.heir t with he | hne
      · rw [he, onThread_self, hpre]
      · rw [onThread_other f hne]
    refine ⟨(hready _).mpr h.heir.ready, ?_⟩
    rw [show (s.onThread t f).heir = s.heir from rfl, hpre']
    intro hpr u hu
    rw [hkey, hkey]
    exact h.heir.first hpr u ((hready u).mp hu)

theorem Inv.changePriority (h : Inv s l) {filter : Filter} {due : Nat}
    (hstands : ∀ p, (filter (s.threads t)).2 = some p → IsDriven p → p.toNat = due % 2 ^ 31)
    (hin : ChangeInTime s t filter due) :
    ∃ n s' l', changePriority n s t filter due = some s' ∧ Inv s' l' := by
  unfold Edf.changePriority
  dsimp only
  cases hp : (filter (s.threads t)).2 with
  | none =>
    exact ⟨0, _, l, rfl, h.congr (fun _ => rfl) (fun _ => rfl) (fun _ => rfl)
      fun _ hc => ⟨hc.queueState, hc.background⟩⟩
  | some p =>
    dsimp only
    generalize hr : ({ s.onThread t (fun c => { c with
      realPriority := (filter (s.threads t)).1, currentPriority := p }) with
        due := Function.update s.due t due } : State Tid) = r
    have hself : r.threads t = { s.threads t with
        realPriority := (filter (s.threads t)).1, currentPriority := p } := by
      rw [← hr]
      exact Function.update_self ..
    have hother : ∀ u ≠ t, r.threads u = s.threads u := fun u hu => by
      rw [← hr]
      exact Function.update_of_ne hu ..
    have hdue : ∀ u ≠ t, r.due u = s.due u := fun u hu => by
      rw [← hr]
      exact Function.update_of_ne hu ..
    have hselfDue : r.due t = due := by
      rw [← hr]
      exact Function.update_self ..
    have hdriven : r.Driven t → (r.prio t).toNat = r.due t % 2 ^ 31 := by
      rw [State.Driven, State.prio, hself, hselfDue]
      exact hstands p hp
    have hstarted : Started (r.threads t) := by
      rw [hself]
      exact ⟨(h.queue.started t).queueState, (h.queue.started t).background⟩
    have hready : ∀ u, r.IsReady u ↔ s.IsReady u := fun u => by
      rcases eq_or_ne u t with rfl | hu
      · rw [State.IsReady, hself]
        exact Iff.rfl
      · rw [State.IsReady, hother u hu]
        exact Iff.rfl
    unfold reprioritize
    split
    next ht =>
      have ht' := (hready t).mp ht
      refine h.queue.requeue ht' h.heir.ready ?_ ?_ hother hdue ht ?_ hdriven hstarted ?_
      · rw [← hr]
        rfl
      · rw [← hr]
        rfl
      · rw [← hr]
        rfl
      · have hnow : r.now = s.now := by
          rw [← hr]
          rfl
        have hdues : r.due = Function.update s.due t due := by
          rw [← hr]
        rw [hnow, hdues]
        refine (hin p hp ht').mono (fun u hu => ?_) fun _ _ => rfl
        split
        next he =>
          have hd := hu.2
          rw [State.Driven, State.prio, he, hself] at hd
          exact hd
        next hne =>
          rw [hready, State.Driven, State.prio, hother u hne] at hu
          exact hu
    next ht =>
      have hupdate : updatePriority (r.threads t) = r.threads t := by
        unfold updatePriority
        rw [if_neg hstarted.queueState]
      have hsame : r.onThread t updatePriority = r := by
        unfold State.onThread
        rw [hupdate, Function.update_eq_self]
      rw [hsame]
      refine ⟨0, r, l, rfl, h.offQueue ((hready t).not.mp ht) ?_ ?_ ?_ hother hdue hdriven
        hstarted ht⟩
      · rw [← hr]
        rfl
      · rw [← hr]
        rfl
      · rw [← hr]
        rfl

/-! ## Time -/

section

omit [DecidableEq Tid]

/-- A tick that keeps the order of the deadlines keeps the tree sorted. -/
theorem Inv.tick (h : Inv s l)
    (hwin : InWindow (s.now + 1) (fun u => s.IsReady u ∧ s.Driven u) s.due) : Inv (Edf.tick s) l := by
  have hstands : Stands (Edf.tick s) := h.queue.stands
  have hkey : ∀ a ∈ l, ∀ b ∈ l, s.key a ≤ s.key b → (Edf.tick s).key a ≤ (Edf.tick s).key b := by
    intro a ha b hb hab
    rw [h.queue.key_le_iff ha hb] at hab
    exact (hstands.key_le_iff hwin (fun hd => ⟨((h.queue.mem a).mp ha).2, hd⟩)
      fun hd => ⟨((h.queue.mem b).mp hb).2, hd⟩).mpr hab
  constructor
  case queue =>
    refine ⟨?_, h.queue.mem, hstands, ?_, h.queue.started⟩
    · refine h.queue.lists.congr (compare_comparesBy _) ?_
      exact h.queue.ordered.imp_of_mem fun {a b} ha hb hab => hkey a ha b hb hab
    · exact hwin.mono (fun u hu => ⟨hu.1.2, hu.2⟩) fun _ _ => rfl
  case heir =>
    refine ⟨h.heir.ready, fun hp u hu => ?_⟩
    exact hkey _ ((h.queue.mem _).mpr ⟨trivial, h.heir.ready⟩) u
      ((h.queue.mem u).mpr ⟨trivial, hu⟩) (h.heir.first hp u hu)

end

/-! ## Runs -/

/-- One operation returns and keeps the invariant. -/
theorem Inv.step (h : Inv s l) (he : op.Enabled s) (hin : InTime s op) :
    ∃ s' l', op.Returns s s' ∧ Inv s' l' := by
  cases op with
  | setState t state =>
    obtain ⟨n, s', l', hs, h'⟩ := h.setState he.1 he.2
    exact ⟨s', l', ⟨n, hs⟩, h'⟩
  | clearState t state =>
    obtain ⟨n, s', l', hs, h'⟩ := h.clearState hin
    exact ⟨s', l', ⟨n, hs⟩, h'⟩
  | changePriority t filter due =>
    obtain ⟨n, s', l', hs, h'⟩ := h.changePriority (fun p hp hd => he _ p hp hd) hin
    exact ⟨s', l', ⟨n, hs⟩, h'⟩
  | releaseJob t deadline =>
    have hstands : ∀ p, (setPriorityFilter (releasePriority s t deadline) (s.threads t)).2 =
        some p → IsDriven p → p.toNat = (s.now + deadline.toNat) % 2 ^ 31 := by
      intro p hp hd
      have hpe : releasePriority s t deadline = p := by
        unfold setPriorityFilter at hp
        dsimp only at hp
        split at hp
        next => exact Option.some.inj hp
        next => cases hp
      rcases eq_or_ne deadline 0#32 with rfl | hne
      · rw [releasePriority, if_neg fun hn => hn rfl] at hpe
        exact absurd (hpe ▸ hd) (h.queue.started t).background
      · rw [← hpe]
        exact releasePriority_due hne
    obtain ⟨n, s', l', hs, h'⟩ := h.changePriority hstands hin
    exact ⟨s', l', ⟨n, hs⟩, h'⟩
  | yield t =>
    obtain ⟨n, s', l', hs, h'⟩ := h.yield t
    exact ⟨s', l', ⟨n, hs⟩, h'⟩
  | dispatch =>
    refine ⟨Edf.dispatch s, l, ⟨0, rfl⟩, ⟨?_, h.heir.ready, h.heir.first⟩⟩
    exact ⟨h.queue.lists, h.queue.mem, h.queue.stands, h.queue.window, h.queue.started⟩
  | tick => exact ⟨Edf.tick s, l, ⟨0, rfl⟩, h.tick hin⟩
  | resources t count =>
    exact ⟨_, l, ⟨0, rfl⟩, h.congr (fun _ => rfl) (fun _ => rfl) (fun _ => rfl)
      fun _ hc => ⟨hc.queueState, hc.background⟩⟩

theorem Queue.schedulerInitialize (priority : Tid → BitVec 32) (isPreemptible : Tid → Bool)
    (idle : Tid) (memory : RBTree.State (Option Tid)) (now : Nat) :
    Queue (fun _ => True) (schedulerInitialize priority isPreemptible idle memory now) [] := by
  have hnot : ∀ t, ¬ (Edf.schedulerInitialize priority isPreemptible idle memory now).IsReady t := by
    intro t
    change statesDormant ≠ statesReady
    decide
  refine ⟨RBTree.lists_empty _, fun t => ?_, fun t hd => ?_, fun u _ hu => ?_, fun t => ?_⟩
  · exact ⟨fun hm => absurd hm List.not_mem_nil, fun hr => absurd hr.2 (hnot t)⟩
  · exact absurd hd not_isDriven_or_msb
  · exact absurd hu.1.2 (hnot u)
  · exact ⟨nofun, not_isDriven_or_msb⟩

/-- The idle thread is started first. -/
theorem Inv.of_start (priority : Tid → BitVec 32) (isPreemptible : Tid → Bool) (idle : Tid)
    (memory : RBTree.State (Option Tid)) (now : Nat) :
    ∃ s' l', (Op.clearState idle statesDormant).Returns
      (schedulerInitialize priority isPreemptible idle memory now) s' ∧ Inv s' l' := by
  have hq₀ := Queue.schedulerInitialize priority isPreemptible idle memory now
  generalize hs : Edf.schedulerInitialize priority isPreemptible idle memory now = s at hq₀ ⊢
  have hstate : (s.threads idle).currentState = statesDormant := by
    rw [← hs]
    rfl
  have hheir : s.heir = idle := by
    rw [← hs]
    rfl
  have hnot : ¬ s.IsReady idle := by
    rw [State.IsReady, hstate]
    decide
  let f : ThreadControl → ThreadControl := fun c =>
    { c with currentState := statesClear statesDormant (s.threads idle).currentState }
  have hready : (s.onThread idle f).IsReady idle := by
    rw [State.IsReady, onThread_self]
    change statesClear statesDormant (s.threads idle).currentState = statesReady
    rw [hstate]
    decide
  have hprio : (s.onThread idle f).prio = s.prio := prio_onThread fun _ => rfl
  have hq : Queue (· ≠ idle) (s.onThread idle f) [] := (hq₀.detach hnot).onThread (fun _ => rfl)
    ⟨(hq₀.started idle).queueState, (hq₀.started idle).background⟩
  have honly : ∀ u, (s.onThread idle f).IsReady u → u = idle := by
    intro u hu
    by_contra hne
    exact absurd ((hq.mem u).mpr ⟨hne, hu⟩) List.not_mem_nil
  obtain ⟨n, ready, henqueue, hqueue⟩ := hq.enqueue hready (by
    intro u v hu hv hlt
    rw [honly u hu.1, honly v hv.1] at hlt
    exact absurd hlt (Nat.lt_irrefl _))
  generalize hr : (((s.onThread idle f).withReady ready).onThread idle fun c =>
    { c with queueState := .yes }) = r at henqueue hqueue
  have hr' : r.heir = idle := by
    rw [← hr]
    exact hheir
  have hrdy : ∀ u, r.IsReady u ↔ (s.onThread idle f).IsReady u := fun u => by
    rw [← hr]
    exact isReady_onThread (f := fun c => { c with queueState := .yes }) fun _ => rfl
  refine ⟨r, _, ⟨n, ?_⟩, hqueue, ?_, ?_⟩
  · change Edf.clearState n s idle statesDormant = some r
    unfold Edf.clearState Edf.unblock
    dsimp only
    rw [if_pos (by rw [hstate]; decide), if_pos (by rw [hstate]; decide), henqueue]
    change some (if priorityCompare r.ticksSinceBoot (r.prio r.heir) (r.prio idle) < 0 then _
      else r) = some r
    rw [hr', if_neg]
    rw [priorityCompare_neg]
    exact Nat.lt_irrefl _
  · rw [hr', hrdy]
    exact hready
  · intro _ u hu
    rw [hr', honly u ((hrdy u).mp hu)]

theorem Inv.run {s₀ : State Tid} {ops : List (Op Tid)} (h : Inv s₀ l)
    (hrun : Runs InTime s₀ ops s) : ∃ l', Inv s l' := by
  induction hrun with
  | nil => exact ⟨l, h⟩
  | snoc _ he hin hret ih =>
    obtain ⟨l, h⟩ := ih
    obtain ⟨s', l', hret', h'⟩ := h.step he hin
    obtain rfl := hret'.unique hret
    exact ⟨l', h'⟩

/-- What the scheduler keeps. -/
structure Correct (s : State Tid) : Prop where
  /-- The ready tree is sorted by the comparison at the current tick, and by the
  deadlines, with the background threads last. -/
  sorted : ∃ l, RBTree.Lists s.compare s.ready l ∧ (∀ t, t ∈ l ↔ s.IsReady t) ∧
    l.Pairwise (Precedes s)
  heir_ready : s.IsReady s.heir
  /-- No ready thread has an earlier deadline than a preemptible heir. -/
  heir_first : (s.threads s.heir).isPreemptible = true → ∀ u, s.IsReady u → Precedes s s.heir u

section

omit [DecidableEq Tid]

theorem Inv.correct (h : Inv s l) : Correct s where
  sorted := by
    refine ⟨l, h.queue.lists, fun t => (h.queue.mem t).trans (and_iff_right trivial), ?_⟩
    exact h.queue.ordered.imp_of_mem fun {a b} ha hb hab => (h.queue.key_le_iff ha hb).mp hab
  heir_ready := h.heir.ready
  heir_first hp u hu :=
    (h.queue.key_le_iff ((h.queue.mem _).mpr ⟨trivial, h.heir.ready⟩)
      ((h.queue.mem u).mpr ⟨trivial, hu⟩)).mp (h.heir.first hp u hu)

end

/-- **The EDF scheduler is correct in every run** in which the deadlines of the
ready threads keep their order, counted from the current tick modulo `2^31`,
and no thread overtakes another. -/
theorem edf_correct {priority : Tid → BitVec 32} {isPreemptible : Tid → Bool} {idle : Tid}
    {memory : RBTree.State (Option Tid)} {now : Nat} {s₀ : State Tid} {ops : List (Op Tid)}
    (hstart : (Op.clearState idle statesDormant).Returns
      (schedulerInitialize priority isPreemptible idle memory now) s₀)
    (hrun : Runs InTime s₀ ops s) : Correct s := by
  obtain ⟨s', l, hret, h⟩ := Inv.of_start priority isPreemptible idle memory now
  obtain rfl := hret.unique hstart
  obtain ⟨l', h'⟩ := h.run hrun
  exact h'.correct

/-- A memory without nodes. -/
def emptyMemory : RBTree.State (Option (Fin 3)) :=
  ⟨fun _ => none, fun _ _ => none, fun _ => .red, none⟩

/-- The state after some operations, if they return soon. -/
def after (s : State (Fin 3)) (ops : List (Op (Fin 3))) : State (Fin 3) :=
  ops.foldl (fun s op => (op.run 5 s).getD s) s

theorem after_concat (s : State (Fin 3)) (ops : List (Op (Fin 3))) (op : Op (Fin 3)) :
    after s (ops ++ [op]) = (op.run 5 (after s ops)).getD (after s ops) := by
  simp only [after, List.foldl_append, List.foldl_cons, List.foldl_nil]

theorem returns_after {s : State (Fin 3)} (ops : List (Op (Fin 3))) {op : Op (Fin 3)}
    (h : (op.run 5 (after s ops)).isSome) : op.Returns (after s ops) (after s (ops ++ [op])) := by
  obtain ⟨s', hs⟩ := Option.isSome_iff_exists.mp h
  refine ⟨5, ?_⟩
  rw [after_concat, hs]
  rfl

/-- One more operation that returns soon. -/
theorem Runs.concat {ok : State (Fin 3) → Op (Fin 3) → Prop} {s : State (Fin 3)}
    {ops : List (Op (Fin 3))} (op : Op (Fin 3)) (h : Runs ok s ops (after s ops))
    (he : op.Enabled (after s ops)) (hok : ok (after s ops) op)
    (hret : (op.run 5 (after s ops)).isSome) : Runs ok s (ops ++ [op]) (after s (ops ++ [op])) :=
  h.snoc he hok (returns_after ops hret)

local instance neZeroThreeThreads : NeZero 3 := ⟨by decide⟩

/-- The idle thread is running, and two threads are dormant. -/
def idleStarted : State (Fin 3) :=
  after (schedulerInitialize (fun _ => 7#32) (fun _ => true) 0 emptyMemory 0)
    [.clearState 0 statesDormant]

theorem idleStarted_returns : (Op.clearState 0 statesDormant).Returns
    (schedulerInitialize (fun _ => 7#32) (fun _ => true) 0 emptyMemory 0) idleStarted :=
  returns_after [] (by decide)

/-- A thread gets a deadline in ten ticks, and a second one an earlier deadline. -/
theorem edf_correct_ten :
    let ops : List (Op (Fin 3)) := [.clearState 1 statesDormant, .clearState 2 statesDormant,
      .releaseJob 1 10#32, .releaseJob 2 4#32, .tick]
    (after idleStarted ops).due 1 = 10 ∧ (after idleStarted ops).due 2 = 4 ∧
      (after idleStarted ops).heir = 2 ∧ Correct (after idleStarted ops) := by
  intro ops
  have hne : statesDormant ≠ 0#32 := by decide
  have h₀ : Runs InTime idleStarted [] (after idleStarted []) := .nil
  have h₁ := h₀.concat (.clearState 1 statesDormant) hne
    (fun _ => ⟨by unfold InWindow; decide, by unfold Overtakes Precedes; decide⟩) (by decide)
  have h₂ := h₁.concat (.clearState 2 statesDormant) hne
    (fun _ => ⟨by unfold InWindow; decide, by unfold Overtakes Precedes; decide⟩) (by decide)
  have hin₁ : InTime (after idleStarted [.clearState 1 statesDormant,
      .clearState 2 statesDormant]) (.releaseJob 1 10#32) := by
    intro p hp _
    obtain rfl : 10#32 = p := Option.some.inj hp
    unfold InWindow
    decide
  have hin₂ : InTime (after idleStarted [.clearState 1 statesDormant,
      .clearState 2 statesDormant, .releaseJob 1 10#32]) (.releaseJob 2 4#32) := by
    intro p hp _
    obtain rfl : 4#32 = p := Option.some.inj hp
    unfold InWindow
    decide
  have h₃ := h₂.concat (.releaseJob 1 10#32) trivial hin₁ (by decide)
  have h₄ := h₃.concat (.releaseJob 2 4#32) trivial hin₂ (by decide)
  have h₅ := h₄.concat .tick trivial (by unfold InTime InWindow; decide) (by decide)
  exact ⟨by decide, by decide, by decide, edf_correct idleStarted_returns h₅⟩

/-- Threads 1 and 2 get deadlines in one tick and in ten.  After two ticks
thread 1 has missed its deadline, and the tree has it before thread 2, while
the comparison has it after. -/
theorem edf_correct_missed : ¬ ∀ (priority : Fin 3 → BitVec 32) (isPreemptible : Fin 3 → Bool)
    (idle : Fin 3) (memory : RBTree.State (Option (Fin 3))) (now : Nat) (s₀ s : State (Fin 3))
    (ops : List (Op (Fin 3))),
    (Op.clearState idle statesDormant).Returns
      (schedulerInitialize priority isPreemptible idle memory now) s₀ →
    Runs (fun _ _ => True) s₀ ops s → Correct s := by
  intro hall
  have hne : statesDormant ≠ 0#32 := by decide
  have h₀ : Runs (fun _ _ => True) idleStarted [] (after idleStarted []) := .nil
  have h₁ := h₀.concat (.clearState 1 statesDormant) hne trivial (by decide)
  have h₂ := h₁.concat (.clearState 2 statesDormant) hne trivial (by decide)
  have h₃ := h₂.concat (.releaseJob 1 1#32) trivial trivial (by decide)
  have h₄ := h₃.concat (.releaseJob 2 10#32) trivial trivial (by decide)
  have h₅ := h₄.concat .tick trivial trivial (by decide)
  have h₆ := h₅.concat .tick trivial trivial (by decide)
  obtain ⟨l, hl, hmem, -⟩ := (hall _ _ _ _ _ _ _ _ idleStarted_returns h₆).sorted
  have hfirst := hl.first
  cases l with
  | nil => exact absurd hfirst (by decide)
  | cons a l =>
    have ha : a = 1 := by
      rw [List.head?_cons] at hfirst
      have h := Option.some.inj (Option.some.inj hfirst)
      exact h.symm.trans (by decide)
    have h2 : (2 : Fin 3) ∈ a :: l := (hmem 2).mpr (by decide)
    have hle := (hl.ordered (compare_comparesBy _)).head_le h2
    rw [ha] at hle
    exact absurd hle (by decide)

end Rtems.Scheduler.Edf
