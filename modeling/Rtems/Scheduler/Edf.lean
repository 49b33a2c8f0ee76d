import Rtems.RBTree.Runs
import Rtems.Scheduler.Model

/-!
# The EDF scheduler

The model of `scheduleredf*.c` and `scheduleredfimpl.h`, of the thread
operations that call them, and of the clock tick.  The ready threads are in a
red-black tree.  Its comparison reads the clock, and no operation reorders the
tree when time passes.

`due` is a ghost: the absolute deadline that the priority of a deadline driven
thread stands for.  The priority word keeps 31 bits of it.
-/

namespace Rtems.Scheduler.Edf

variable {Tid : Type} [DecidableEq Tid]

/-! ## Priorities -/

/-- `SCHEDULER_EDF_PRIO_MSB`. -/
def prioMsb : BitVec 32 := 0x80000000#32

/-- The priority is that of a deadline driven thread, not of a background one. -/
def IsDriven (priority : BitVec 32) : Prop := priority &&& prioMsb = 0#32

instance (p : BitVec 32) : Decidable (IsDriven p) :=
  inferInstanceAs (Decidable (p &&& prioMsb = 0#32))

/-- A deadline counted from the current time, or a background priority. -/
def shifted (time priority : BitVec 32) : BitVec 32 :=
  if IsDriven priority then (priority - time) &&& ~~~prioMsb else priority

/-- `_Scheduler_EDF_Priority_compare` when the clock shows `time`. -/
def priorityCompare (time p1 p2 : BitVec 32) : Int :=
  let p1 := shifted time p1
  let p2 := shifted time p2
  (if p1 < p2 then 1 else 0) - (if p1 > p2 then 1 else 0)

/-! ## Threads -/

/-- `Scheduler_EDF_Queue_state`. -/
inductive QueueState where
  | notPresently
  | yes
  | neverHasBeen
deriving DecidableEq, Repr

/-- The fields of `Thread_Control` and `Scheduler_EDF_Node` in use here. -/
structure ThreadControl where
  currentPriority : BitVec 32
  realPriority : BitVec 32
  /-- `Start.initial_priority`. -/
  initialPriority : BitVec 32
  resourceCount : Nat
  currentState : BitVec 32
  isPreemptible : Bool
  queueState : QueueState

structure State (Tid : Type) where
  threads : Tid → ThreadControl
  /-- `Scheduler_EDF_Context.Ready`. -/
  ready : RBTree.State (Option Tid)
  /-- `_Thread_Heir`. -/
  heir : Tid
  /-- `_Thread_Executing`. -/
  executing : Tid
  /-- `_Thread_Dispatch_necessary`. -/
  dispatchNecessary : Bool
  /-- The ticks since boot.  The code keeps them modulo `2^32`. -/
  now : Nat
  due : Tid → Nat

def State.prio (s : State Tid) (t : Tid) : BitVec 32 := (s.threads t).currentPriority

/-- `_Watchdog_Ticks_since_boot`. -/
def State.ticksSinceBoot (s : State Tid) : BitVec 32 := BitVec.ofNat 32 s.now

/-- `_States_Is_ready` of the state of a thread. -/
def State.IsReady (s : State Tid) (t : Tid) : Prop := (s.threads t).currentState = statesReady

instance (s : State Tid) (t : Tid) : Decidable (s.IsReady t) :=
  inferInstanceAs (Decidable ((s.threads t).currentState = statesReady))

/-- The thread is deadline driven. -/
def State.Driven (s : State Tid) (t : Tid) : Prop := IsDriven (s.prio t)

instance (s : State Tid) (t : Tid) : Decidable (s.Driven t) :=
  inferInstanceAs (Decidable (IsDriven (s.prio t)))

/-- Change one thread. -/
def State.onThread (s : State Tid) (t : Tid) (f : ThreadControl → ThreadControl) : State Tid :=
  { s with threads := Function.update s.threads t (f (s.threads t)) }

/-- Replace the ready tree. -/
def State.withReady (s : State Tid) (ready : RBTree.State (Option Tid)) : State Tid :=
  { s with ready := ready }

/-- `_Scheduler_EDF_Compare`.  The node of a thread is at `some` of it. -/
def State.compare (s : State Tid) : RBTree.Compare (Option Tid) := fun n1 n2 =>
  -1 * priorityCompare s.ticksSinceBoot (n1.elim 0#32 s.prio) (n2.elim 0#32 s.prio)

/-! ## Scheduler operations -/

/-- `_Scheduler_EDF_Enqueue`. -/
def enqueue (fuel : Nat) (s : State Tid) (t : Tid) : Option (State Tid) := do
  let (ready, _) ← RBTree.insert fuel s.ready none (some t) s.compare false
  some ((s.withReady ready).onThread t fun c => { c with queueState := .yes })

/-- `_Scheduler_EDF_Extract`. -/
def extract (fuel : Nat) (s : State Tid) (t : Tid) : Option (State Tid) := do
  some (s.withReady (← RBTree.extract fuel s.ready none (some t)))

/-- `_Scheduler_Update_heir`. -/
def updateHeir (s : State Tid) (newHeir : Tid) (forceDispatch : Bool) : State Tid :=
  if s.heir ≠ newHeir ∧ ((s.threads s.heir).isPreemptible || forceDispatch) then
    { s with heir := newHeir, dispatchNecessary := true }
  else s

/-- `_Scheduler_EDF_Schedule_body`.  A thread is always ready. -/
def scheduleBody (s : State Tid) (forceDispatch : Bool) : State Tid :=
  match (RBTree.first s.ready none .left).join with
  | none => s
  | some heir => updateHeir s heir forceDispatch

/-- `_Scheduler_EDF_Block`. -/
def block (fuel : Nat) (s : State Tid) (t : Tid) : Option (State Tid) := do
  let s ← extract fuel s t
  some (if s.executing = t ∨ s.heir = t then scheduleBody s true else s)

/-- `_Scheduler_EDF_Unblock`. -/
def unblock (fuel : Nat) (s : State Tid) (t : Tid) : Option (State Tid) := do
  let s ← enqueue fuel s t
  some
    (if priorityCompare s.ticksSinceBoot (s.prio s.heir) (s.prio t) < 0 then
      updateHeir s t (s.prio t == BitVec.ofNat 32 priorityPseudoIsr)
    else s)

/-- `_Scheduler_EDF_Change_priority`, with the new priority set, and
`_Scheduler_EDF_Yield`. -/
def requeue (fuel : Nat) (s : State Tid) (t : Tid) : Option (State Tid) := do
  let ready ← RBTree.extract fuel s.ready none (some t)
  let (ready, _) ← RBTree.insert fuel ready none (some t) s.compare false
  some (scheduleBody (s.withReady ready) false)

/-- `_Scheduler_EDF_Update_priority`. -/
def updatePriority (c : ThreadControl) : ThreadControl :=
  if c.queueState = .neverHasBeen then
    -- Shifts the priority to the region of background tasks.
    { c with
      initialPriority := c.initialPriority ||| prioMsb
      realPriority := c.initialPriority ||| prioMsb
      currentPriority := c.initialPriority ||| prioMsb
      queueState := .notPresently }
  else c

/-! ## Thread operations -/

/-- `_Thread_Set_state`. -/
def setState (fuel : Nat) (s : State Tid) (t : Tid) (state : BitVec 32) : Option (State Tid) :=
  let previous := (s.threads t).currentState
  let s' := s.onThread t fun c => { c with currentState := statesSet state previous }
  if previous = statesReady then block fuel s' t else some s'

/-- `_Thread_Clear_state`. -/
def clearState (fuel : Nat) (s : State Tid) (t : Tid) (state : BitVec 32) : Option (State Tid) :=
  let previous := (s.threads t).currentState
  if previous &&& state ≠ 0#32 then
    let next := statesClear state previous
    let s := s.onThread t fun c => { c with currentState := next }
    if next = statesReady then unblock fuel s t else some s
  else some s

/-- A `Thread_Change_priority_filter`: the real priority it leaves, and the new
priority if there is one. -/
abbrev Filter := ThreadControl → BitVec 32 × Option (BitVec 32)

/-- `_Thread_Set_priority_filter`. -/
def setPriorityFilter (newPriority : BitVec 32) : Filter := fun c =>
  (newPriority,
    if c.currentPriority > newPriority ∨ c.resourceCount = 0 then some newPriority else none)

/-- A thread that is ready or not has a new priority. -/
def reprioritize (fuel : Nat) (s : State Tid) (t : Tid) : Option (State Tid) :=
  if s.IsReady t then requeue fuel s t else some (s.onThread t updatePriority)

/-- `_Thread_Change_priority`.  A new priority of a deadline driven thread
stands for the deadline `due`. -/
def changePriority (fuel : Nat) (s : State Tid) (t : Tid) (filter : Filter) (due : Nat) :
    Option (State Tid) :=
  let (realPriority, newPriority) := filter (s.threads t)
  match newPriority with
  | none => some (s.onThread t fun c => { c with realPriority := realPriority })
  | some newPriority =>
    reprioritize fuel
      { s.onThread t fun c =>
          { c with realPriority := realPriority, currentPriority := newPriority } with
        due := Function.update s.due t due } t

/-- The new priority in `_Scheduler_EDF_Release_job`. -/
def releasePriority (s : State Tid) (t : Tid) (deadline : BitVec 32) : BitVec 32 :=
  if deadline ≠ 0#32 then (s.ticksSinceBoot + deadline) &&& ~~~prioMsb
  else (s.threads t).initialPriority

/-- `_Scheduler_EDF_Release_job`. -/
def releaseJob (fuel : Nat) (s : State Tid) (t : Tid) (deadline : BitVec 32) :
    Option (State Tid) :=
  changePriority fuel s t (setPriorityFilter (releasePriority s t deadline))
    (s.now + deadline.toNat)

/-- `_Thread_Yield`. -/
def yield (fuel : Nat) (s : State Tid) (t : Tid) : Option (State Tid) :=
  if s.IsReady t then requeue fuel s t else some s

/-- `_Thread_Dispatch`, as far as it selects the executing thread. -/
def dispatch (s : State Tid) : State Tid :=
  { s with executing := s.heir, dispatchNecessary := false }

/-- A clock tick. -/
def tick (s : State Tid) : State Tid := { s with now := s.now + 1 }

/-! ## Runs -/

inductive Op (Tid : Type) where
  | setState (t : Tid) (state : BitVec 32)
  | clearState (t : Tid) (state : BitVec 32)
  | changePriority (t : Tid) (filter : Filter) (due : Nat)
  | releaseJob (t : Tid) (deadline : BitVec 32)
  | yield (t : Tid)
  | dispatch
  | tick
  /-- A thread comes to own a number of resources. -/
  | resources (t : Tid) (count : Nat)

/-- What the operations assert, and that a priority stands for its deadline. -/
def Op.Enabled (s : State Tid) : Op Tid → Prop
  | .setState t state => state ≠ 0#32 ∧ ∃ u, u ≠ t ∧ s.IsReady u
  | .clearState _ state => state ≠ 0#32
  | .changePriority _ filter due => ∀ c p, (filter c).2 = some p → IsDriven p →
      p.toNat = due % 2 ^ 31
  | _ => True

/-- An operation with a bound on the turns of its loops. -/
def Op.run (fuel : Nat) (s : State Tid) : Op Tid → Option (State Tid)
  | .setState t state => Edf.setState fuel s t state
  | .clearState t state => Edf.clearState fuel s t state
  | .changePriority t filter due => Edf.changePriority fuel s t filter due
  | .releaseJob t deadline => Edf.releaseJob fuel s t deadline
  | .yield t => Edf.yield fuel s t
  | .dispatch => some (Edf.dispatch s)
  | .tick => some (Edf.tick s)
  | .resources t count => some (s.onThread t fun c => { c with resourceCount := count })

/-- The operation comes to its end. -/
def Op.Returns (s : State Tid) (op : Op Tid) (s' : State Tid) : Prop :=
  ∃ fuel, op.run fuel s = some s'

/-- A run of operations, each of which meets the side condition `ok`. -/
inductive Runs (ok : State Tid → Op Tid → Prop) (s₀ : State Tid) :
    List (Op Tid) → State Tid → Prop where
  | nil : Runs ok s₀ [] s₀
  | snoc {ops : List (Op Tid)} {s s' : State Tid} {op : Op Tid} : Runs ok s₀ ops s →
      op.Enabled s → ok s op → op.Returns s s' → Runs ok s₀ (ops ++ [op]) s'

/-- A thread after `_Thread_Initialize`. -/
def initialThread (priority : BitVec 32) (isPreemptible : Bool) : ThreadControl :=
  updatePriority
    { currentPriority := priority, realPriority := priority, initialPriority := priority
      resourceCount := 0, currentState := statesDormant, isPreemptible := isPreemptible
      queueState := .neverHasBeen }

/-- The scheduler after its initialization, with every thread dormant and the
idle thread as the heir. -/
def schedulerInitialize (priority : Tid → BitVec 32) (isPreemptible : Tid → Bool) (idle : Tid)
    (memory : RBTree.State (Option Tid)) (now : Nat) : State Tid where
  threads t := initialThread (priority t) (isPreemptible t)
  ready := RBTree.initializeEmpty memory none
  heir := idle
  executing := idle
  dispatchNecessary := false
  now := now
  due := fun _ => 0

/-! ## Deadlines in time -/

/-- The ticks until the deadline, modulo `2^31`. -/
def residual (due now : Nat) : Nat := (((due : Int) - now) % 2 ^ 31).toNat

/-- Counted from now modulo `2^31`, the deadlines of these threads have the
order that they have. -/
def InWindow (now : Nat) (member : Tid → Prop) (due : Tid → Nat) : Prop :=
  ∀ u v, member u → member v → due u < due v → residual (due u) now < residual (due v) now

/-- The order of the threads: the deadline driven ones by their deadlines, and
the background ones last. -/
def Precedes (s : State Tid) (t u : Tid) : Prop :=
  (s.Driven t → s.Driven u → s.due t ≤ s.due u) ∧
    (¬ s.Driven t → ¬ s.Driven u ∧ (s.prio t).toNat ≤ (s.prio u).toNat)

/-- A thread becomes the heir by force while another one comes before it. -/
def Overtakes (s : State Tid) (t : Tid) : Prop :=
  s.prio t = BitVec.ofNat 32 priorityPseudoIsr ∧ (s.threads t).isPreemptible = true ∧
    (s.threads s.heir).isPreemptible = false ∧ ¬ Precedes s s.heir t ∧
      ∃ u, s.IsReady u ∧ ¬ Precedes s t u

/-- The deadlines are in time once a thread has a new priority. -/
def ChangeInTime (s : State Tid) (t : Tid) (filter : Filter) (due : Nat) : Prop :=
  ∀ p, (filter (s.threads t)).2 = some p → s.IsReady t →
    InWindow s.now (fun u => if u = t then IsDriven p else s.IsReady u ∧ s.Driven u)
      (Function.update s.due t due)

/-- The clearing makes the thread ready. -/
def Readies (s : State Tid) (t : Tid) (state : BitVec 32) : Prop :=
  (s.threads t).currentState &&& state ≠ 0#32 ∧
    statesClear state (s.threads t).currentState = statesReady

/-- The side condition of a run: deadlines keep their order when they are
counted from the current time, and no thread overtakes another. -/
def InTime (s : State Tid) : Op Tid → Prop
  | .tick => InWindow (s.now + 1) (fun u => s.IsReady u ∧ s.Driven u) s.due
  | .clearState t state => Readies s t state →
      InWindow s.now (fun u => (u = t ∨ s.IsReady u) ∧ s.Driven u) s.due ∧ ¬ Overtakes s t
  | .changePriority t filter due => ChangeInTime s t filter due
  | .releaseJob t deadline => ChangeInTime s t (setPriorityFilter (releasePriority s t deadline))
      (s.now + deadline.toNat)
  | _ => True

end Rtems.Scheduler.Edf

/-!
## Deadlines and priority words

The comparison of two priorities is a comparison of numbers, the keys.  The key
of a deadline driven thread is the time until its deadline modulo `2^31`.  As
long as the deadlines keep their order when they are counted so, the order of
the keys is that of the deadlines.
-/

namespace Rtems.Scheduler.Edf

variable {Tid : Type} [DecidableEq Tid] {s s' : State Tid} {t u : Tid} {p q : BitVec 32}

/-! ## Priority words -/

theorem isDriven_iff : IsDriven p ↔ p.toNat < 2 ^ 31 := by
  have hand : (p &&& prioMsb).toNat = (p.toNat.testBit 31).toNat * 2 ^ 31 := by
    rw [BitVec.toNat_and]
    exact Nat.and_two_pow p.toNat 31
  have hlt := p.isLt
  have hbit : p.toNat.testBit 31 = true ↔ 2 ^ 31 ≤ p.toNat := by
    rw [Nat.testBit_eq_decide_div_mod_eq, decide_eq_true_iff]
    omega
  unfold IsDriven
  rw [BitVec.toNat_eq, hand]
  cases hp : p.toNat.testBit 31 with
  | false =>
    have : ¬ 2 ^ 31 ≤ p.toNat := fun h => by
      rw [hbit.mpr h] at hp
      cases hp
    simp
    omega
  | true =>
    have := hbit.mp hp
    simp
    omega

theorem toNat_and_not_msb : (p &&& ~~~prioMsb).toNat = p.toNat % 2 ^ 31 := by
  rw [BitVec.toNat_and]
  exact Nat.and_two_pow_sub_one_eq_mod p.toNat 31

theorem not_isDriven_or_msb : ¬ IsDriven (p ||| prioMsb) := by
  rw [isDriven_iff, BitVec.toNat_or]
  have : 2 ^ 31 ≤ p.toNat ||| 2 ^ 31 := Nat.right_le_or
  exact Nat.not_lt.mpr this

/-- The key of a deadline driven thread. -/
theorem shifted_driven {due now : Nat} (hp : IsDriven p) (hdue : p.toNat = due % 2 ^ 31) :
    (shifted (BitVec.ofNat 32 now) p).toNat = residual due now := by
  rw [shifted, if_pos hp, toNat_and_not_msb, BitVec.toNat_sub, BitVec.toNat_ofNat, residual]
  omega

theorem shifted_background {time : BitVec 32} (hp : ¬ IsDriven p) : shifted time p = p :=
  if_neg hp

theorem residual_lt (due now : Nat) : residual due now < 2 ^ 31 := by
  unfold residual
  omega

omit [DecidableEq Tid]

/-- The new priority of a job stands for its deadline. -/
theorem releasePriority_due {deadline : BitVec 32} (hd : deadline ≠ 0#32) :
    (releasePriority s t deadline).toNat = (s.now + deadline.toNat) % 2 ^ 31 := by
  rw [releasePriority, if_pos hd, toNat_and_not_msb, BitVec.toNat_add, State.ticksSinceBoot,
    BitVec.toNat_ofNat]
  omega

/-! ## Keys -/

/-- What the comparison compares. -/
def key (time : BitVec 32) (p : BitVec 32) : Nat := (shifted time p).toNat

def State.key (s : State Tid) (t : Tid) : Nat := Edf.key s.ticksSinceBoot (s.prio t)

/-- The key of a node.  The control has none. -/
def State.nodeKey (s : State Tid) (x : Option Tid) : Nat :=
  Edf.key s.ticksSinceBoot (x.elim 0#32 s.prio)

theorem priorityCompare_eq (time p q : BitVec 32) : priorityCompare time p q =
    (if key time p < key time q then 1 else 0) - (if key time q < key time p then 1 else 0) := rfl

theorem priorityCompare_neg {time : BitVec 32} :
    priorityCompare time p q < 0 ↔ key time q < key time p := by
  rw [priorityCompare_eq]
  split <;> split <;> omega

theorem compare_comparesBy (s : State Tid) : RBTree.ComparesBy s.compare s.nodeKey where
  nonpos x y := by
    rw [State.compare, priorityCompare_eq]
    change _ ↔ Edf.key _ _ ≤ Edf.key _ _
    split <;> split <;> omega
  nonneg x y := by
    rw [State.compare, priorityCompare_eq]
    change _ ↔ Edf.key _ _ ≤ Edf.key _ _
    split <;> split <;> omega

/-! ## The order of the deadlines -/

/-- The priority of a deadline driven thread stands for its deadline. -/
def Stands (s : State Tid) : Prop := ∀ t, s.Driven t → (s.prio t).toNat = s.due t % 2 ^ 31

theorem Stands.key_driven (h : Stands s) (ht : s.Driven t) : s.key t = residual (s.due t) s.now :=
  shifted_driven ht (h t ht)

theorem key_background (ht : ¬ s.Driven t) : s.key t = (s.prio t).toNat :=
  congrArg BitVec.toNat (shifted_background ht)

/-- Within the window, the keys of two threads are in the order of the threads. -/
theorem Stands.key_le_iff (h : Stands s) {member : Tid → Prop}
    (hwin : InWindow s.now member s.due) (ht : s.Driven t → member t)
    (hu : s.Driven u → member u) : s.key t ≤ s.key u ↔ Precedes s t u := by
  rcases Classical.em (s.Driven t) with hdt | hdt
  · rw [h.key_driven hdt]
    have hlt := residual_lt (s.due t) s.now
    rcases Classical.em (s.Driven u) with hdu | hdu
    · rw [h.key_driven hdu]
      have htu := hwin t u (ht hdt) (hu hdu)
      have hut := hwin u t (hu hdu) (ht hdt)
      constructor
      · intro hle
        exact ⟨fun _ _ => by omega, fun hn => absurd hdt hn⟩
      · intro hle
        rcases Nat.lt_or_eq_of_le (hle.1 hdt hdu) with hlt' | heq
        · exact Nat.le_of_lt (htu hlt')
        · rw [heq]
    · rw [key_background hdu]
      have hge := isDriven_iff.not.mp hdu
      exact ⟨fun _ => ⟨fun _ hd => absurd hd hdu, fun hn => absurd hdt hn⟩, fun _ => by omega⟩
  · rw [key_background hdt]
    have hge := isDriven_iff.not.mp hdt
    unfold State.prio at hge
    rcases Classical.em (s.Driven u) with hdu | hdu
    · rw [h.key_driven hdu]
      have hlt := residual_lt (s.due u) s.now
      unfold State.prio
      exact ⟨fun hle => absurd hle (by omega), fun hp => absurd hdu (hp.2 hdt).1⟩
    · rw [key_background hdu]
      exact ⟨fun hle => ⟨fun hd => absurd hd hdt, fun _ => ⟨hdu, hle⟩⟩, fun hp => (hp.2 hdt).2⟩

/-- The order depends on the priorities and deadlines only. -/
theorem precedes_congr (ht : s'.prio t = s.prio t) (hu : s'.prio u = s.prio u)
    (hdt : s'.due t = s.due t) (hdu : s'.due u = s.due u) :
    Precedes s' t u ↔ Precedes s t u := by
  unfold Precedes State.Driven
  rw [ht, hu, hdt, hdu]

end Rtems.Scheduler.Edf
