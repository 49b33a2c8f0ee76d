import Rtems.Lib.StableInsert
import Rtems.Score.Types

/-!
# Thread queue operations

The model of `threadqops.c`.  The FIFO discipline keeps its threads on a chain
and the priority discipline keeps them in a red-black tree.  Here a queue is
the list of its threads, first one first: the chain, or the tree in order.
-/

namespace Rtems.ThreadQueue

open Lib

variable {Tid : Type}

/-- `Thread_queue_Operations`: the default operations and the two disciplines. -/
inductive Operations where
  | default
  | fifo
  | priority
deriving DecidableEq, Repr

/-- The `enqueue` operation. -/
def Operations.enqueue (op : Operations) (prio : Tid → Priority) (q : List Tid) (t : Tid) :
    List Tid :=
  match op with
  | .default => q
  | .fifo => q ++ [t]
  | .priority => stableInsert prio t q

/-- The `extract` operation.  The default one does nothing. -/
def Operations.extract [DecidableEq Tid] (op : Operations) (q : List Tid) (t : Tid) : List Tid :=
  match op with
  | .default => q
  | .fifo => q.erase t
  | .priority => q.erase t

/-- The `priority_change` operation on a thread of the queue. -/
def Operations.priorityChange [DecidableEq Tid] (op : Operations) (prio : Tid → Priority)
    (q : List Tid) (t : Tid) : List Tid :=
  match op with
  | .default => q
  | .fifo => q
  | .priority => stableInsert prio t (q.erase t)

/-! ## Membership -/

theorem mem_enqueue {op : Operations} (hop : op ≠ .default) {prio : Tid → Priority}
    {q : List Tid} {t u : Tid} : u ∈ op.enqueue prio q t ↔ u = t ∨ u ∈ q := by
  cases op with
  | default => exact absurd rfl hop
  | fifo => simp [Operations.enqueue, or_comm]
  | priority => exact mem_stableInsert

theorem nodup_enqueue {op : Operations} {prio : Tid → Priority}
    {q : List Tid} {t : Tid} (hq : q.Nodup) (ht : t ∉ q) : (op.enqueue prio q t).Nodup := by
  cases op with
  | default => exact hq
  | fifo =>
    simp only [Operations.enqueue, List.nodup_append, List.nodup_cons, List.not_mem_nil,
      List.mem_singleton]
    exact ⟨hq, ⟨not_false, List.nodup_nil⟩, fun a ha b hb e => ht (hb ▸ e ▸ ha)⟩
  | priority => exact nodup_stableInsert hq ht

theorem extract_eq_erase [DecidableEq Tid] {op : Operations} (hop : op ≠ .default) (q : List Tid) (t : Tid) :
    op.extract q t = q.erase t := by
  cases op with
  | default => exact absurd rfl hop
  | fifo => rfl
  | priority => rfl

end Rtems.ThreadQueue
