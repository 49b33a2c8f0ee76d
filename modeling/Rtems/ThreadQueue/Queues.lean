import Rtems.RBTree.Runs
import Rtems.ThreadQueue.Operations

/-!
# Threads on thread queues

The model of `threadqops.c` in memory, of `threadqenqueue.c` as far as it moves
threads between queues, and of `_Thread_Change_priority` on a waiting thread.
A priority queue is a red-black tree of pointers, compared by a field that
changes while a node is in the tree.  In order, it holds the same threads as
the list of `Operations`.

A tree has its own memory of nodes.  The node of a thread is in at most one
tree, since a thread waits on at most one queue.

`clock`, `arrived` and `since` are ghosts: the time of the last enqueue or
priority change, the time of the enqueue of a thread, and the later of that and
of the last time its priority was set while it waits, be it to the same value.
-/

namespace Rtems.ThreadQueue.Queues

open Lib

variable {Tid Qid : Type} [DecidableEq Tid] [DecidableEq Qid]

/-! ## Queues in memory -/

/-- `Thread_queue_Control`.  The control of the tree is at the address `none`. -/
structure Control (Tid : Type) where
  operations : Operations
  /-- `Queues.Fifo`. -/
  fifo : List Tid
  /-- `Queues.Priority`. -/
  tree : RBTree.State (Option Tid)

/-- `Thread_queue_Disciplines`. -/
inductive Discipline where
  | fifo
  | priority
deriving DecidableEq, Repr

def Discipline.operations : Discipline → Operations
  | .fifo => .fifo
  | .priority => .priority

/-- `_Thread_queue_Initialize`, on whatever the memory holds. -/
def initialized (theDiscipline : Discipline) (memory : RBTree.State (Option Tid)) :
    Control Tid where
  operations := theDiscipline.operations
  fifo := []
  tree := RBTree.initializeEmpty memory none

/-- The priority of the thread of a node. -/
def nodePriority (prio : Tid → Priority) (node : Option Tid) : Nat := node.elim 0 prio

/-- `_Thread_queue_Compare_priority`. -/
def comparePriority (prio : Tid → Priority) : RBTree.Compare (Option Tid) := fun left right =>
  let leftPrio := nodePriority prio left
  let rightPrio := nodePriority prio right
  (if leftPrio > rightPrio then 1 else 0) - (if leftPrio < rightPrio then 1 else 0)

/-- The `enqueue` operations. -/
def enqueueNode (op : Operations) (fuel : Nat) (prio : Tid → Priority) (c : Control Tid)
    (t : Tid) : Option (Control Tid) :=
  match op with
  | .default => some c
  | .fifo => some { c with fifo := c.fifo ++ [t] }
  | .priority => do
      let (tree, _) ← RBTree.insert fuel c.tree none (some t) (comparePriority prio) false
      some { c with tree := tree }

/-- The `extract` operations. -/
def extractNode (op : Operations) (fuel : Nat) (c : Control Tid) (t : Tid) :
    Option (Control Tid) :=
  match op with
  | .default => some c
  | .fifo => some { c with fifo := c.fifo.erase t }
  | .priority => do some { c with tree := ← RBTree.extract fuel c.tree none (some t) }

/-- `_Thread_queue_Priority_priority_change`. -/
def priorityChangeNode (fuel : Nat) (prio : Tid → Priority) (c : Control Tid) (t : Tid) :
    Option (Control Tid) := do
  let tree ← RBTree.extract fuel c.tree none (some t)
  let (tree, _) ← RBTree.insert fuel tree none (some t) (comparePriority prio) false
  some { c with tree := tree }

/-- The `first` operations. -/
def firstNode (c : Control Tid) : Option Tid :=
  match c.operations with
  | .default => none
  | .fifo => c.fifo.head?
  | .priority => (RBTree.first c.tree none .left).join

/-! ## Threads -/

/-- The fields of `Thread_Control` in use here. -/
structure ThreadControl (Qid : Type) where
  currentPriority : Priority
  /-- `Wait.queue`. -/
  queue : Option Qid
  /-- `Wait.operations`. -/
  operations : Operations

structure State (Tid Qid : Type) where
  threads : Tid → ThreadControl Qid
  queues : Qid → Control Tid
  clock : Nat
  arrived : Tid → Nat
  since : Tid → Nat

def State.prio (s : State Tid Qid) (t : Tid) : Priority := (s.threads t).currentPriority

/-- Change one thread. -/
def State.onThread (s : State Tid Qid) (t : Tid) (f : ThreadControl Qid → ThreadControl Qid) :
    State Tid Qid :=
  { s with threads := Function.update s.threads t (f (s.threads t)) }

/-- Replace one queue. -/
def State.setQueue (s : State Tid Qid) (q : Qid) (c : Control Tid) : State Tid Qid :=
  { s with queues := Function.update s.queues q c }

/-- `_Thread_queue_Enqueue_critical`, up to the release of the queue lock. -/
def enqueue (fuel : Nat) (s : State Tid Qid) (q : Qid) (t : Tid) : Option (State Tid Qid) := do
  let operations := (s.queues q).operations
  let s := s.onThread t fun c => { c with queue := some q, operations := operations }
  let c ← enqueueNode operations fuel s.prio (s.queues q) t
  let s := s.setQueue q c
  some { s with
    clock := s.clock + 1
    arrived := Function.update s.arrived t (s.clock + 1)
    since := Function.update s.since t (s.clock + 1) }

/-- `_Thread_queue_Extract_locked`. -/
def extractLocked (fuel : Nat) (s : State Tid Qid) (q : Qid) (t : Tid) :
    Option (State Tid Qid) := do
  let c ← extractNode (s.queues q).operations fuel (s.queues q) t
  let s := s.setQueue q c
  some (s.onThread t fun c => { c with queue := none, operations := .default })

/-- `_Thread_queue_Extract`. -/
def extract (fuel : Nat) (s : State Tid Qid) (t : Tid) : Option (State Tid Qid) :=
  match (s.threads t).queue with
  | none => some s
  | some q => extractLocked fuel s q t

/-- `_Thread_queue_First_locked`. -/
def first (s : State Tid Qid) (q : Qid) : Option Tid := firstNode (s.queues q)

/-- `_Thread_queue_Dequeue`. -/
def dequeue (fuel : Nat) (s : State Tid Qid) (q : Qid) : Option (State Tid Qid × Option Tid) :=
  match first s q with
  | none => some (s, none)
  | some t => do some (← extractLocked fuel s q t, some t)

/-- A thread gets a new priority. -/
def setPriority (s : State Tid Qid) (t : Tid) (newPriority : Priority) : State Tid Qid :=
  { s.onThread t (fun c => { c with currentPriority := newPriority }) with
    clock := s.clock + 1
    since := Function.update s.since t (s.clock + 1) }

/-- The `priority_change` operation of a thread.  Only that of the priority
queues does something. -/
def priorityChange (fuel : Nat) (s : State Tid Qid) (t : Tid) : Option (State Tid Qid) :=
  match (s.threads t).operations with
  | .default => some s
  | .fifo => some s
  | .priority => do
      let q ← (s.threads t).queue
      let c ← priorityChangeNode fuel s.prio (s.queues q) t
      some (s.setQueue q c)

/-- `_Thread_Change_priority`, where the filter yields the new priority if there
is one. -/
def changePriority (fuel : Nat) (s : State Tid Qid) (t : Tid)
    (filter : ThreadControl Qid → Option Priority) : Option (State Tid Qid) :=
  match filter (s.threads t) with
  | none => some s
  | some newPriority => priorityChange fuel (setPriority s t newPriority) t

/-! ## Runs -/

inductive Op (Tid Qid : Type) where
  | enqueue (q : Qid) (t : Tid)
  | extract (t : Tid)
  | dequeue (q : Qid)
  | changePriority (t : Tid) (filter : ThreadControl Qid → Option Priority)

/-- A thread that waits cannot enqueue itself. -/
def Op.Valid (s : State Tid Qid) : Op Tid Qid → Prop
  | .enqueue _ t => (s.threads t).queue = none
  | _ => True

/-- An operation with a bound on the turns of its loops. -/
def Op.run (fuel : Nat) (s : State Tid Qid) : Op Tid Qid → Option (State Tid Qid)
  | .enqueue q t => Queues.enqueue fuel s q t
  | .extract t => Queues.extract fuel s t
  | .dequeue q => do
      let (s, _) ← Queues.dequeue fuel s q
      some s
  | .changePriority t filter => Queues.changePriority fuel s t filter

/-- The operation comes to its end. -/
def Op.Returns (s : State Tid Qid) (op : Op Tid Qid) (s' : State Tid Qid) : Prop :=
  ∃ fuel, op.run fuel s = some s'

/-- No thread waits, and the queues are initialized. -/
def start (priority : Tid → Priority) (discipline : Qid → Discipline)
    (memory : Qid → RBTree.State (Option Tid)) : State Tid Qid where
  threads t := { currentPriority := priority t, queue := none, operations := .default }
  queues q := initialized (discipline q) (memory q)
  clock := 0
  arrived := fun _ => 0
  since := fun _ => 0

/-- A run of operations, each of which returns. -/
inductive Runs (s₀ : State Tid Qid) : List (Op Tid Qid) → State Tid Qid → Prop where
  | nil : Runs s₀ [] s₀
  | snoc {ops : List (Op Tid Qid)} {s s' : State Tid Qid} {op : Op Tid Qid} :
      Runs s₀ ops s → op.Valid s → op.Returns s s' → Runs s₀ (ops ++ [op]) s'

/-! ## The result does not depend on the bound -/

section

variable {s s' s'' : State Tid Qid} {op : Op Tid Qid}

theorem enqueueNode_extends (op : Operations) (n : Nat) (prio : Tid → Priority)
    (c : Control Tid) (t : Tid) :
    Extends (enqueueNode op n prio c t) (enqueueNode op (n + 1) prio c t) := by
  cases op with
  | default => exact .refl _
  | fifo => exact .refl _
  | priority => exact .bind (RBTree.insert_extends n _ _) fun _ => .refl _

theorem extractNode_extends (op : Operations) (n : Nat) (c : Control Tid) (t : Tid) :
    Extends (extractNode op n c t) (extractNode op (n + 1) c t) := by
  cases op with
  | default => exact .refl _
  | fifo => exact .refl _
  | priority => exact .bind (RBTree.extract_extends n _) fun _ => .refl _

theorem priorityChangeNode_extends (n : Nat) (prio : Tid → Priority) (c : Control Tid) (t : Tid) :
    Extends (priorityChangeNode n prio c t) (priorityChangeNode (n + 1) prio c t) :=
  .bind (RBTree.extract_extends n _) fun _ => .bind (RBTree.insert_extends n _ _) fun _ => .refl _

theorem extractLocked_extends (n : Nat) (s : State Tid Qid) (q : Qid) (t : Tid) :
    Extends (extractLocked n s q t) (extractLocked (n + 1) s q t) :=
  .bind (extractNode_extends _ n _ t) fun _ => .refl _

theorem extract_extends (n : Nat) (s : State Tid Qid) (t : Tid) :
    Extends (extract n s t) (extract (n + 1) s t) := by
  unfold extract
  cases (s.threads t).queue with
  | none => exact .refl _
  | some q => exact extractLocked_extends n s q t

theorem dequeue_extends (n : Nat) (s : State Tid Qid) (q : Qid) :
    Extends (dequeue n s q) (dequeue (n + 1) s q) := by
  unfold dequeue
  cases first s q with
  | none => exact .refl _
  | some t => exact .bind (extractLocked_extends n s q t) fun _ => .refl _

theorem priorityChange_extends (n : Nat) (s : State Tid Qid) (t : Tid) :
    Extends (priorityChange n s t) (priorityChange (n + 1) s t) := by
  unfold priorityChange
  cases (s.threads t).operations with
  | default => exact .refl _
  | fifo => exact .refl _
  | priority =>
    exact .bind (.refl _) fun q => .bind (priorityChangeNode_extends n _ _ t) fun _ => .refl _

theorem changePriority_extends (n : Nat) (s : State Tid Qid) (t : Tid)
    (filter : ThreadControl Qid → Option Priority) :
    Extends (changePriority n s t filter) (changePriority (n + 1) s t filter) := by
  unfold changePriority
  cases filter (s.threads t) with
  | none => exact .refl _
  | some p => exact priorityChange_extends n _ t

theorem Op.run_extends (op : Op Tid Qid) (n : Nat) :
    Extends (op.run n s) (op.run (n + 1) s) := by
  cases op with
  | enqueue q t => exact .bind (enqueueNode_extends _ n _ _ t) fun _ => .refl _
  | extract t => exact extract_extends n s t
  | dequeue q => exact .bind (dequeue_extends n s q) fun _ => .refl _
  | changePriority t filter => exact changePriority_extends n s t filter

theorem Op.Returns.unique (h : op.Returns s s') (h' : op.Returns s s'') : s' = s'' := by
  obtain ⟨m, hm⟩ := h
  obtain ⟨n, hn⟩ := h'
  have hm' := Extends.of_succ op.run_extends (Nat.le_max_left m n) _ hm
  have hn' := Extends.of_succ op.run_extends (Nat.le_max_right m n) _ hn
  exact Option.some.inj (hm'.symm.trans hn')

end

/-! ## A queue holds threads in an order -/

/-- The queue holds these threads, the first one first. -/
def Holds (prio : Tid → Priority) (c : Control Tid) (l : List Tid) : Prop :=
  match c.operations with
  | .default => False
  | .fifo => c.fifo = l
  | .priority => RBTree.Lists (comparePriority prio) c.tree l

section

variable {prio prio' : Tid → Priority} {c : Control Tid} {l : List Tid} {t : Tid}

section

omit [DecidableEq Tid]

theorem comparePriority_comparesBy (prio : Tid → Priority) :
    RBTree.ComparesBy (comparePriority prio) (nodePriority prio) where
  nonpos a b := by
    unfold comparePriority
    dsimp only
    split <;> split <;> omega
  nonneg a b := by
    unfold comparePriority
    dsimp only
    split <;> split <;> omega

/-- A priority queue is in the order of the priorities. -/
theorem Holds.ordered (h : Holds prio c l) (hop : c.operations = .priority) : Ordered prio l := by
  unfold Holds at h
  rw [hop] at h
  exact RBTree.Lists.ordered h (comparePriority_comparesBy prio)

/-- Priorities of threads that do not wait do not matter. -/
theorem Holds.congr (h : Holds prio c l) (hp : ∀ u ∈ l, prio' u = prio u) : Holds prio' c l := by
  have hord := h.ordered
  unfold Holds at h ⊢
  split at h
  next => exact h
  next => exact h
  next hop =>
    exact RBTree.Lists.congr h (comparePriority_comparesBy prio') ((hord hop).congr hp)

theorem Holds.ne_default (h : Holds prio c l) : c.operations ≠ .default := by
  intro hop
  unfold Holds at h
  rw [hop] at h
  exact h

/-- The first thread of the queue is the first of the list. -/
theorem Holds.firstNode (h : Holds prio c l) : firstNode c = l.head? := by
  unfold Holds at h
  unfold Queues.firstNode
  split at h
  next => exact h.elim
  next => rw [h]
  next =>
    rw [RBTree.Lists.first h]
    cases l.head? with
    | none => rfl
    | some t => rfl

end

theorem Holds.enqueueNode (h : Holds prio c l) (ht : t ∉ l) :
    ∃ n c', enqueueNode c.operations n prio c t = some c' ∧ c'.operations = c.operations ∧
      Holds prio c' (c.operations.enqueue prio l t) := by
  unfold Holds at h
  cases hop : c.operations with
  | default =>
    rw [hop] at h
    exact h.elim
  | fifo =>
    rw [hop] at h
    refine ⟨0, { c with fifo := c.fifo ++ [t] }, rfl, hop, ?_⟩
    unfold Holds
    dsimp only
    rw [hop]
    exact congrArg (· ++ [t]) h
  | priority =>
    rw [hop] at h
    obtain ⟨n, tree, htree, hlists⟩ :=
      RBTree.Lists.insert h (comparePriority_comparesBy prio) ht
    refine ⟨n, { c with tree := tree }, ?_, hop, ?_⟩
    · unfold Queues.enqueueNode
      dsimp only
      rw [htree]
      rfl
    · unfold Holds
      dsimp only
      rw [hop]
      exact hlists

theorem Holds.extractNode (h : Holds prio c l) (ht : t ∈ l) :
    ∃ n c', extractNode c.operations n c t = some c' ∧ c'.operations = c.operations ∧
      Holds prio c' (l.erase t) := by
  unfold Holds at h
  cases hop : c.operations with
  | default =>
    rw [hop] at h
    exact h.elim
  | fifo =>
    rw [hop] at h
    refine ⟨0, { c with fifo := c.fifo.erase t }, rfl, hop, ?_⟩
    unfold Holds
    dsimp only
    rw [hop]
    exact congrArg (·.erase t) h
  | priority =>
    rw [hop] at h
    obtain ⟨n, tree, htree, hlists⟩ := RBTree.Lists.extract h ht
    refine ⟨n, { c with tree := tree }, ?_, hop, ?_⟩
    · unfold Queues.extractNode
      dsimp only
      rw [htree]
      rfl
    · unfold Holds
      dsimp only
      rw [hop]
      exact hlists

/-- The thread is taken out in the order of the old priorities, which the tree
has, and put back in the order of the new ones. -/
theorem Holds.priorityChangeNode (h : Holds prio c l) (hop : c.operations = .priority)
    (hl : l.Nodup) (ht : t ∈ l) (hp : ∀ u ≠ t, prio' u = prio u) :
    ∃ n c', priorityChangeNode n prio' c t = some c' ∧ c'.operations = c.operations ∧
      Holds prio' c' (c.operations.priorityChange prio' l t) := by
  obtain ⟨m, c₁, hc₁, hop₁, h₁⟩ := h.extractNode ht
  have hnot : t ∉ l.erase t := hl.not_mem_erase
  have h₁' : Holds prio' c₁ (l.erase t) := h₁.congr fun u hu => by
    refine hp u ?_
    rintro rfl
    exact hnot hu
  obtain ⟨n, c₂, hc₂, hop₂, h₂⟩ := h₁'.enqueueNode hnot
  rw [hop₁, hop] at hc₂ h₂
  rw [hop] at hc₁
  refine ⟨max m n, c₂, ?_, hop₂.trans hop₁, ?_⟩
  · have hm := Extends.of_succ (extractNode_extends .priority · c t) (Nat.le_max_left m n) _ hc₁
    have hn := Extends.of_succ (enqueueNode_extends .priority · prio' c₁ t)
      (Nat.le_max_right m n) _ hc₂
    unfold Queues.extractNode at hm
    unfold Queues.enqueueNode at hn
    unfold Queues.priorityChangeNode
    dsimp only at hm hn
    cases htree : RBTree.extract (max m n) c.tree none (some t) with
    | none =>
      rw [htree] at hm
      cases hm
    | some tree =>
      rw [htree] at hm
      cases hm
      exact hn
  · rw [hop]
    exact h₂

end

end Rtems.ThreadQueue.Queues
