import Rtems.ThreadQueue.Queues

/-!
# The order of the waiting threads

Along every run the queues hold the threads that wait on them, each once.  A
FIFO queue is in the order in which its threads came, and a priority queue in
the order of the priorities, and of the times since which they are in force.
-/

namespace Rtems.ThreadQueue.Queues

open Lib

variable {Tid Qid : Type} [DecidableEq Tid] [DecidableEq Qid] {s s' : State Tid Qid}
  {order : Qid → List Tid} {q : Qid} {t u : Tid}

/-! ## The invariant -/

/-- The place of a thread: on the queue it waits on, with its operations. -/
def Placed (s : State Tid Qid) (t : Tid) : Prop :=
  (s.threads t).operations =
    match (s.threads t).queue with
    | none => .default
    | some q => (s.queues q).operations

/-- The queues hold the waiting threads in the order of their times. -/
structure Inv (s : State Tid Qid) (order : Qid → List Tid) : Prop where
  holds : ∀ q, Holds s.prio (s.queues q) (order q)
  mem : ∀ q t, t ∈ order q ↔ (s.threads t).queue = some q
  nodup : ∀ q, (order q).Nodup
  placed : ∀ t, Placed s t
  fifo : ∀ q, (s.queues q).operations = .fifo →
    (order q).Pairwise fun t u => s.arrived t < s.arrived u
  priority : ∀ q, (s.queues q).operations = .priority →
    (order q).Pairwise (Before s.prio s.since)
  clock : ∀ t, s.arrived t ≤ s.clock ∧ s.since t ≤ s.clock

section

omit [DecidableEq Qid] [DecidableEq Tid]

/-- A thread is on no other queue than its own. -/
theorem Inv.not_mem (h : Inv s order) {r : Qid} (ht : (s.threads t).queue = some q) (hr : r ≠ q) :
    t ∉ order r := by
  intro hmem
  rw [h.mem, ht] at hmem
  exact hr (Option.some.inj hmem).symm

theorem Inv.not_mem_of_none (h : Inv s order) (ht : (s.threads t).queue = none) (q : Qid) :
    t ∉ order q := by
  rw [h.mem, ht]
  exact nofun

end

/-! ## Changing a thread and a queue -/

section

omit [DecidableEq Qid]

theorem onThread_self (f : ThreadControl Qid → ThreadControl Qid) :
    (s.onThread t f).threads t = f (s.threads t) := Function.update_self ..

theorem onThread_other (f : ThreadControl Qid → ThreadControl Qid) (h : u ≠ t) :
    (s.onThread t f).threads u = s.threads u := Function.update_of_ne h ..

/-- The priority of a thread that is changed elsewhere. -/
theorem prio_onThread {f : ThreadControl Qid → ThreadControl Qid}
    (hf : ∀ c, (f c).currentPriority = c.currentPriority) : (s.onThread t f).prio = s.prio := by
  funext u
  rcases eq_or_ne u t with rfl | hne
  · rw [State.prio, onThread_self, hf]
    rfl
  · rw [State.prio, onThread_other f hne]
    rfl

end

/-- One thread is changed, and with it the queue that it enters, leaves or waits
on.  The other queues stay as they are. -/
theorem Inv.replace (h : Inv s order) {c : Control Tid} {l : List Tid}
    {f : ThreadControl Qid → ThreadControl Qid}
    (hthreads : s'.threads = (s.onThread t f).threads)
    (hqueues : s'.queues = Function.update s.queues q c)
    (hother : ∀ r ≠ q, t ∉ order r ∧ (f (s.threads t)).queue ≠ some r)
    (hop : c.operations = (s.queues q).operations)
    (hholds : Holds s'.prio c l)
    (hmem : ∀ u, u ∈ l ↔ (s'.threads u).queue = some q)
    (hnodup : l.Nodup)
    (hplaced : (f (s.threads t)).operations =
      match (f (s.threads t)).queue with
      | none => .default
      | some r => (s.queues r).operations)
    (hfifo : (s.queues q).operations = .fifo →
      l.Pairwise fun a b => s'.arrived a < s'.arrived b)
    (hpriority : (s.queues q).operations = .priority → l.Pairwise (Before s'.prio s'.since))
    (harrived : ∀ u ≠ t, s'.arrived u = s.arrived u) (hsince : ∀ u ≠ t, s'.since u = s.since u)
    (hclock : s.clock ≤ s'.clock) (htimes : s'.arrived t ≤ s'.clock ∧ s'.since t ≤ s'.clock) :
    Inv s' (Function.update order q l) := by
  have hthread : ∀ u ≠ t, s'.threads u = s.threads u := fun u hu => by
    rw [hthreads, onThread_other f hu]
  have hself : s'.threads t = f (s.threads t) := by
    rw [hthreads, onThread_self]
  have hprio : ∀ u ≠ t, s'.prio u = s.prio u := fun u hu => by
    rw [State.prio, hthread u hu]
    rfl
  have hne : ∀ r ≠ q, ∀ u ∈ order r, u ≠ t := fun r hr u hu e => (hother r hr).1 (e ▸ hu)
  have hops : ∀ r, (s'.queues r).operations = (s.queues r).operations := by
    intro r
    rw [hqueues]
    rcases eq_or_ne r q with rfl | hr
    · rw [Function.update_self, hop]
    · rw [Function.update_of_ne hr]
  constructor
  case holds =>
    intro r
    rw [hqueues]
    rcases eq_or_ne r q with rfl | hr
    · rw [Function.update_self, Function.update_self]
      exact hholds
    · rw [Function.update_of_ne hr, Function.update_of_ne hr]
      exact (h.holds r).congr fun u hu => hprio u (hne r hr u hu)
  case mem =>
    intro r u
    rcases eq_or_ne r q with rfl | hr
    · rw [Function.update_self]
      exact hmem u
    · rw [Function.update_of_ne hr, h.mem]
      rcases eq_or_ne u t with rfl | hu
      · rw [hself]
        refine ⟨fun hq => absurd ((h.mem r u).mpr hq) (hother r hr).1, ?_⟩
        exact fun hq => absurd hq (hother r hr).2
      · rw [hthread u hu]
  case nodup =>
    intro r
    rcases eq_or_ne r q with rfl | hr
    · rw [Function.update_self]
      exact hnodup
    · rw [Function.update_of_ne hr]
      exact h.nodup r
  case placed =>
    intro u
    have hu : Placed s u ∨ u = t := .inl (h.placed u)
    unfold Placed at hu ⊢
    rcases eq_or_ne u t with rfl | hne
    · rw [hself, hplaced]
      cases (f (s.threads u)).queue with
      | none => rfl
      | some r => exact (hops r).symm
    · rw [hthread u hne, hu.resolve_right hne]
      cases (s.threads u).queue with
      | none => rfl
      | some r => exact (hops r).symm
  case fifo =>
    intro r hr
    rw [hops] at hr
    rcases eq_or_ne r q with rfl | hrq
    · rw [Function.update_self]
      exact hfifo hr
    · rw [Function.update_of_ne hrq]
      refine (h.fifo r hr).imp_of_mem fun {a b} ha hb hab => ?_
      rw [harrived a (hne r hrq a ha), harrived b (hne r hrq b hb)]
      exact hab
  case priority =>
    intro r hr
    rw [hops] at hr
    rcases eq_or_ne r q with rfl | hrq
    · rw [Function.update_self]
      exact hpriority hr
    · rw [Function.update_of_ne hrq]
      refine (h.priority r hr).imp_of_mem fun {a b} ha hb hab => ?_
      unfold Before at hab ⊢
      rw [hprio a (hne r hrq a ha), hprio b (hne r hrq b hb), hsince a (hne r hrq a ha),
        hsince b (hne r hrq b hb)]
      exact hab
  case clock =>
    intro u
    rcases eq_or_ne u t with rfl | hu
    · exact htimes
    · rw [harrived u hu, hsince u hu]
      have := h.clock u
      omega

/-- Times of a thread that is not in the list do not matter. -/
theorem pairwise_arrived_update {arrived : Tid → Nat} {l : List Tid}
    (h : l.Pairwise fun a b => arrived a < arrived b) (ht : t ∉ l) (time : Nat) :
    l.Pairwise fun a b =>
      Function.update arrived t time a < Function.update arrived t time b := by
  refine h.imp_of_mem fun {a b} ha hb hab => ?_
  rw [Function.update_of_ne (ne_of_mem_of_not_mem ha ht),
    Function.update_of_ne (ne_of_mem_of_not_mem hb ht)]
  exact hab

theorem pairwise_before_update {prio prio' : Tid → Priority} {since : Tid → Nat} {l : List Tid}
    (h : l.Pairwise (Before prio since)) (ht : t ∉ l) (hp : ∀ u ≠ t, prio' u = prio u)
    (time : Nat) : l.Pairwise (Before prio' (Function.update since t time)) := by
  refine h.imp_of_mem fun {a b} ha hb hab => ?_
  have hat : a ≠ t := ne_of_mem_of_not_mem ha ht
  have hbt : b ≠ t := ne_of_mem_of_not_mem hb ht
  unfold Before at hab ⊢
  rw [hp a hat, hp b hbt, Function.update_of_ne hat, Function.update_of_ne hbt]
  exact hab

/-! ## Enqueue and extract -/

theorem Inv.enqueue (h : Inv s order) (ht : (s.threads t).queue = none) (q : Qid) :
    ∃ n s', enqueue n s q t = some s' ∧ Inv s' (Function.update order q
      ((s.queues q).operations.enqueue s.prio (order q) t)) := by
  have hnot := h.not_mem_of_none ht
  have hne := (h.holds q).ne_default
  obtain ⟨n, c, hc, hop, hholds⟩ := (h.holds q).enqueueNode (hnot q)
  let f : ThreadControl Qid → ThreadControl Qid := fun c =>
    { c with queue := some q, operations := (s.queues q).operations }
  have hprio : (s.onThread t f).prio = s.prio := prio_onThread fun _ => rfl
  refine ⟨n, { (s.onThread t f).setQueue q c with
      clock := s.clock + 1
      arrived := Function.update s.arrived t (s.clock + 1)
      since := Function.update s.since t (s.clock + 1) }, ?_, ?_⟩
  · unfold Queues.enqueue
    dsimp only
    rw [hprio]
    change (Queues.enqueueNode _ n s.prio (s.queues q) t).bind _ = _
    rw [hc]
    rfl
  apply h.replace (t := t) (f := f)
  case hthreads => rfl
  case hqueues => rfl
  case hother =>
    intro r hr
    exact ⟨hnot r, fun e => hr (Option.some.inj e).symm⟩
  case hop => exact hop
  case hholds =>
    change Holds (s.onThread t f).prio _ _
    rw [hprio]
    exact hholds
  case hmem =>
    intro u
    rw [mem_enqueue hne]
    change _ ↔ ((s.onThread t f).threads u).queue = some q
    rcases eq_or_ne u t with rfl | hu
    · rw [onThread_self]
      exact ⟨fun _ => rfl, fun _ => .inl rfl⟩
    · rw [onThread_other f hu, ← h.mem]
      exact ⟨fun hm => hm.resolve_left hu, .inr⟩
  case hnodup => exact nodup_enqueue (h.nodup q) (hnot q)
  case hplaced => rfl
  case hfifo =>
    intro hq
    rw [hq]
    have hold := pairwise_arrived_update (h.fifo q hq) (hnot q) (s.clock + 1)
    refine List.pairwise_append.mpr ⟨hold, List.pairwise_singleton .., fun a ha b hb => ?_⟩
    dsimp only
    rw [List.mem_singleton.mp hb, Function.update_self,
      Function.update_of_ne (ne_of_mem_of_not_mem ha (hnot q))]
    exact Nat.lt_succ_of_le (h.clock a).1
  case hpriority =>
    intro hq
    change List.Pairwise (Before (s.onThread t f).prio _) _
    rw [hprio, hq]
    have hold := pairwise_before_update (h.priority q hq) (hnot q) (fun _ _ => rfl) (s.clock + 1)
    refine pairwise_before_stableInsert hold fun b hb => ?_
    dsimp only
    rw [Function.update_self, Function.update_of_ne (ne_of_mem_of_not_mem hb (hnot q))]
    exact Nat.lt_succ_of_le (h.clock b).2
  case harrived => exact fun u hu => Function.update_of_ne hu ..
  case hsince => exact fun u hu => Function.update_of_ne hu ..
  case hclock => exact Nat.le_succ _
  case htimes =>
    dsimp only
    rw [Function.update_self, Function.update_self]
    exact ⟨Nat.le_refl _, Nat.le_refl _⟩

/-- Extracting a thread keeps the order of the others. -/
theorem Inv.extractLocked (h : Inv s order) (ht : (s.threads t).queue = some q) :
    ∃ n s', extractLocked n s q t = some s' ∧
      Inv s' (Function.update order q ((order q).erase t)) := by
  have hmem : t ∈ order q := (h.mem q t).mpr ht
  obtain ⟨n, c, hc, hop, hholds⟩ := (h.holds q).extractNode hmem
  let f : ThreadControl Qid → ThreadControl Qid := fun c =>
    { c with queue := none, operations := .default }
  have hprio : ((s.setQueue q c).onThread t f).prio = s.prio := prio_onThread fun _ => rfl
  refine ⟨n, (s.setQueue q c).onThread t f, ?_, ?_⟩
  · unfold Queues.extractLocked
    change (Queues.extractNode _ n (s.queues q) t).bind _ = _
    rw [hc]
    rfl
  apply h.replace (t := t) (f := f)
  case hthreads => rfl
  case hqueues => rfl
  case hother => exact fun r hr => ⟨h.not_mem ht hr, nofun⟩
  case hop => exact hop
  case hholds =>
    rw [hprio]
    exact hholds
  case hmem =>
    intro u
    rw [(h.nodup q).mem_erase_iff, h.mem]
    rcases eq_or_ne u t with rfl | hu
    · rw [onThread_self]
      exact ⟨fun e => absurd rfl e.1, nofun⟩
    · rw [onThread_other f hu]
      exact and_iff_right hu
  case hnodup => exact (h.nodup q).erase t
  case hplaced => rfl
  case hfifo => exact fun hq => (h.fifo q hq).sublist List.erase_sublist
  case hpriority =>
    intro hq
    rw [hprio]
    exact (h.priority q hq).sublist List.erase_sublist
  case harrived => exact fun _ _ => rfl
  case hsince => exact fun _ _ => rfl
  case hclock => exact Nat.le_refl _
  case htimes => exact h.clock t

section

omit [DecidableEq Qid] [DecidableEq Tid]

theorem Inv.first (h : Inv s order) (q : Qid) : first s q = (order q).head? := (h.holds q).firstNode

end

/-! ## Priority changes -/

section

omit [DecidableEq Qid]

theorem setPriority_other (p : Priority) (h : u ≠ t) :
    (setPriority s t p).threads u = s.threads u := Function.update_of_ne h ..

theorem setPriority_self (p : Priority) :
    (setPriority s t p).threads t = { s.threads t with currentPriority := p } :=
  Function.update_self ..

theorem prio_setPriority (p : Priority) :
    (setPriority s t p).prio = Function.update s.prio t p := by
  funext u
  rcases eq_or_ne u t with rfl | hu
  · rw [State.prio, setPriority_self, Function.update_self]
  · rw [State.prio, setPriority_other p hu, Function.update_of_ne hu]
    rfl

theorem queue_setPriority (p : Priority) :
    ((setPriority s t p).threads u).queue = (s.threads u).queue := by
  rcases eq_or_ne u t with rfl | hu
  · rw [setPriority_self]
  · rw [setPriority_other p hu]

theorem operations_setPriority (p : Priority) :
    ((setPriority s t p).threads u).operations = (s.threads u).operations := by
  rcases eq_or_ne u t with rfl | hu
  · rw [setPriority_self]
  · rw [setPriority_other p hu]

theorem Inv.clock_setPriority (h : Inv s order) (p : Priority) (u : Tid) :
    (setPriority s t p).arrived u ≤ (setPriority s t p).clock ∧
      (setPriority s t p).since u ≤ (setPriority s t p).clock := by
  have hu := h.clock u
  change s.arrived u ≤ s.clock + 1 ∧ Function.update s.since t (s.clock + 1) u ≤ s.clock + 1
  rcases eq_or_ne u t with rfl | hne
  · rw [Function.update_self]
    omega
  · rw [Function.update_of_ne hne]
    omega

/-- A thread that does not wait may change its priority freely. -/
theorem Inv.offQueue (h : Inv s order) (ht : (s.threads t).queue = none) (p : Priority) :
    Inv (setPriority s t p) order := by
  have hnot := h.not_mem_of_none ht
  have hprio : ∀ u ≠ t, (setPriority s t p).prio u = s.prio u := fun u hu => by
    rw [prio_setPriority, Function.update_of_ne hu]
  constructor
  case holds => exact fun q => (h.holds q).congr fun u hu => hprio u (ne_of_mem_of_not_mem hu (hnot q))
  case mem =>
    intro q u
    rw [h.mem, queue_setPriority]
  case nodup => exact h.nodup
  case placed =>
    intro u
    unfold Placed
    rw [queue_setPriority, operations_setPriority]
    exact h.placed u
  case fifo => exact h.fifo
  case priority => exact fun q hq => pairwise_before_update (h.priority q hq) (hnot q) hprio _
  case clock => exact h.clock_setPriority p

theorem Inv.mem_priorityChange (h : Inv s order) (ht : (s.threads t).queue = some q)
    {prio : Tid → Priority} :
    u ∈ (s.queues q).operations.priorityChange prio (order q) t ↔ u ∈ order q := by
  cases (s.queues q).operations with
  | default => rfl
  | fifo => rfl
  | priority =>
    rw [Operations.priorityChange, mem_stableInsert, (h.nodup q).mem_erase_iff]
    rcases eq_or_ne u t with rfl | hu
    · exact ⟨fun _ => (h.mem q u).mpr ht, fun _ => .inl rfl⟩
    · exact ⟨fun hm => (hm.resolve_left hu).2, fun hm => .inr ⟨hu, hm⟩⟩

end

/-- The order of a queue once a thread on it has a new priority. -/
theorem Inv.onQueue (h : Inv s order) (ht : (s.threads t).queue = some q) (p : Priority)
    {c : Control Tid} (hop : c.operations = (s.queues q).operations)
    (hholds : Holds (Function.update s.prio t p) c
      ((s.queues q).operations.priorityChange (Function.update s.prio t p) (order q) t)) :
    Inv ((setPriority s t p).setQueue q c) (Function.update order q
      ((s.queues q).operations.priorityChange (Function.update s.prio t p) (order q) t)) := by
  have hnot : t ∉ (order q).erase t := (h.nodup q).not_mem_erase
  have hprio : ((setPriority s t p).setQueue q c).prio = Function.update s.prio t p :=
    prio_setPriority p
  apply h.replace (t := t) (f := fun c => { c with currentPriority := p })
  case hthreads => rfl
  case hqueues => rfl
  case hother =>
    intro r hr
    exact ⟨h.not_mem ht hr, fun e => hr (Option.some.inj (ht.symm.trans e)).symm⟩
  case hop => exact hop
  case hholds =>
    rw [hprio]
    exact hholds
  case hmem =>
    intro u
    rw [h.mem_priorityChange ht, h.mem]
    change _ ↔ ((setPriority s t p).threads u).queue = some q
    rw [queue_setPriority]
  case hnodup =>
    cases (s.queues q).operations with
    | default => exact h.nodup q
    | fifo => exact h.nodup q
    | priority => exact nodup_stableInsert ((h.nodup q).erase t) hnot
  case hplaced => exact h.placed t
  case hfifo =>
    intro hq
    rw [hq]
    exact h.fifo q hq
  case hpriority =>
    intro hq
    rw [hprio, hq]
    have hold := pairwise_before_update ((h.priority q hq).sublist List.erase_sublist) hnot
      (fun u hu => Function.update_of_ne hu p s.prio) (s.clock + 1)
    refine pairwise_before_stableInsert hold fun b hb => ?_
    change Function.update s.since t (s.clock + 1) b < Function.update s.since t (s.clock + 1) t
    rw [Function.update_self, Function.update_of_ne (ne_of_mem_of_not_mem hb hnot)]
    exact Nat.lt_succ_of_le (h.clock b).2
  case harrived => exact fun _ _ => rfl
  case hsince => exact fun u hu => Function.update_of_ne hu ..
  case hclock => exact Nat.le_succ _
  case htimes => exact h.clock_setPriority p t

/-! ## Runs -/

/-- The order once a thread is extracted. -/
def extracted (s : State Tid Qid) (order : Qid → List Tid) (t : Tid) : Qid → List Tid :=
  match (s.threads t).queue with
  | none => order
  | some q => Function.update order q ((order q).erase t)

/-- The order once a thread has a new priority. -/
def reprioritized (s : State Tid Qid) (order : Qid → List Tid) (t : Tid) (p : Priority) :
    Qid → List Tid :=
  match (s.threads t).queue with
  | none => order
  | some q => Function.update order q ((s.queues q).operations.priorityChange
      (Function.update s.prio t p) (order q) t)

/-- The order of the threads on the queues after an operation. -/
def Op.reorder (s : State Tid Qid) (order : Qid → List Tid) : Op Tid Qid → Qid → List Tid
  | .enqueue q t =>
    Function.update order q ((s.queues q).operations.enqueue s.prio (order q) t)
  | .extract t => extracted s order t
  | .dequeue q => Function.update order q (order q).tail
  | .changePriority t filter =>
    match filter (s.threads t) with
    | none => order
    | some p => reprioritized s order t p

theorem Inv.changePriority (h : Inv s order) {p : Priority}
    {filter : ThreadControl Qid → Option Priority} (hp : filter (s.threads t) = some p) :
    ∃ n s', changePriority n s t filter = some s' ∧ Inv s' (reprioritized s order t p) := by
  have hplaced := h.placed t
  unfold Placed at hplaced
  unfold Queues.changePriority Queues.priorityChange reprioritized
  rw [hp]
  dsimp only
  rw [operations_setPriority, queue_setPriority, hplaced]
  cases hq : (s.threads t).queue with
  | none => exact ⟨0, _, rfl, h.offQueue hq p⟩
  | some q =>
    dsimp only
    cases hop : (s.queues q).operations with
    | default => exact absurd hop (h.holds q).ne_default
    | fifo =>
      refine ⟨0, _, rfl, ?_⟩
      have hholds := h.holds q
      have hinv := h.onQueue hq p (c := s.queues q) rfl (by
        unfold Holds at hholds ⊢
        rw [hop] at hholds ⊢
        exact hholds)
      rw [hop, State.setQueue, show (setPriority s t p).queues = s.queues from rfl,
        Function.update_eq_self] at hinv
      exact hinv
    | priority =>
      obtain ⟨n, c, hc, hop', hholds⟩ :=
        (h.holds q).priorityChangeNode hop (h.nodup q) ((h.mem q t).mpr hq)
          fun u hu => Function.update_of_ne hu p s.prio
      refine ⟨n, (setPriority s t p).setQueue q c, ?_, ?_⟩
      · change (Queues.priorityChangeNode n (setPriority s t p).prio (s.queues q) t).bind _ = _
        rw [prio_setPriority, hc]
        rfl
      · have hinv := h.onQueue hq p hop' hholds
        rw [hop] at hinv
        exact hinv

theorem Inv.extract (h : Inv s order) (t : Tid) :
    ∃ n s', extract n s t = some s' ∧ Inv s' (extracted s order t) := by
  unfold Queues.extract extracted
  cases hq : (s.threads t).queue with
  | none => exact ⟨0, s, rfl, h⟩
  | some q => exact h.extractLocked hq

theorem Inv.dequeue (h : Inv s order) (q : Qid) :
    ∃ n s', dequeue n s q = some (s', (order q).head?) ∧
      Inv s' (Function.update order q (order q).tail) := by
  unfold Queues.dequeue
  rw [h.first q]
  cases hl : order q with
  | nil =>
    refine ⟨0, s, rfl, ?_⟩
    rw [List.tail_nil, ← hl, Function.update_eq_self]
    exact h
  | cons t l =>
    have hq : (s.threads t).queue = some q := (h.mem q t).mp (hl ▸ List.mem_cons_self)
    obtain ⟨n, s', hs, h'⟩ := h.extractLocked hq
    rw [hl, List.erase_cons_head] at h'
    refine ⟨n, s', ?_, h'⟩
    change (Queues.extractLocked n s q t).bind _ = _
    rw [hs]
    rfl

/-- One operation returns and keeps the invariant. -/
theorem Inv.step (h : Inv s order) {op : Op Tid Qid} (hop : op.Valid s) :
    ∃ s', op.Returns s s' ∧ Inv s' (op.reorder s order) := by
  cases op with
  | enqueue q t =>
    obtain ⟨n, s', hs, h'⟩ := h.enqueue hop q
    exact ⟨s', ⟨n, hs⟩, h'⟩
  | extract t =>
    obtain ⟨n, s', hs, h'⟩ := h.extract t
    exact ⟨s', ⟨n, hs⟩, h'⟩
  | dequeue q =>
    obtain ⟨n, s', hs, h'⟩ := h.dequeue q
    refine ⟨s', ⟨n, ?_⟩, h'⟩
    change (Queues.dequeue n s q).bind _ = _
    rw [hs]
    rfl
  | changePriority t filter =>
    unfold Op.reorder
    dsimp only
    cases hp : filter (s.threads t) with
    | none =>
      refine ⟨s, ⟨0, ?_⟩, h⟩
      change Queues.changePriority 0 s t filter = some s
      unfold Queues.changePriority
      rw [hp]
    | some p =>
      obtain ⟨n, s', hs, h'⟩ := h.changePriority hp
      exact ⟨s', ⟨n, hs⟩, h'⟩

section

omit [DecidableEq Qid]

theorem Inv.start (priority : Tid → Priority) (discipline : Qid → Discipline)
    (memory : Qid → RBTree.State (Option Tid)) :
    Inv (start priority discipline memory) fun _ => [] where
  holds q := by
    unfold Holds Queues.start initialized
    dsimp only
    cases discipline q with
    | fifo => rfl
    | priority => exact RBTree.lists_empty _
  mem q t := ⟨fun hm => absurd hm List.not_mem_nil, nofun⟩
  nodup _ := List.nodup_nil
  placed _ := rfl
  fifo _ _ := .nil
  priority _ _ := .nil
  clock _ := ⟨Nat.le_refl 0, Nat.le_refl 0⟩

end

theorem Inv.run {s₀ : State Tid Qid} {ops : List (Op Tid Qid)} (h : Inv s₀ order)
    (hrun : Runs s₀ ops s) : ∃ order, Inv s order := by
  induction hrun with
  | nil => exact ⟨order, h⟩
  | snoc _ hop hret ih =>
    obtain ⟨order, h⟩ := ih
    obtain ⟨s', hret', h'⟩ := h.step hop
    obtain rfl := hret'.unique hret
    exact ⟨_, h'⟩

/-! ## The order -/

/-- What the queues keep. -/
structure Correct (s : State Tid Qid) (order : Qid → List Tid) : Prop where
  /-- A queue holds its threads in this order. -/
  holds : ∀ q, Holds s.prio (s.queues q) (order q)
  /-- A thread is once on the queue on which it waits, and on no other. -/
  count : ∀ q t, (order q).count t = if (s.threads t).queue = some q then 1 else 0
  /-- A FIFO queue is in the order in which the threads came. -/
  fifo : ∀ q, (s.queues q).operations = .fifo →
    (order q).Pairwise fun t u => s.arrived t < s.arrived u
  /-- A priority queue is in the order of the priorities, and then of the times. -/
  priority : ∀ q, (s.queues q).operations = .priority → (order q).Pairwise (Before s.prio s.since)
  /-- The first thread is the first one in this order. -/
  first : ∀ q, first s q = (order q).head?
  /-- The first thread of a FIFO queue waits longest. -/
  longest : ∀ q t u, (s.queues q).operations = .fifo → Queues.first s q = some t →
    (s.threads u).queue = some q → u = t ∨ s.arrived t < s.arrived u
  /-- No thread is more important than the first of a priority queue. -/
  important : ∀ q t u, (s.queues q).operations = .priority → Queues.first s q = some t →
    (s.threads u).queue = some q → u = t ∨ Before s.prio s.since t u

section

omit [DecidableEq Tid]

/-- The head of a list is related to all the others. -/
theorem head_before {r : Tid → Tid → Prop} {l : List Tid} (h : l.Pairwise r)
    (ht : l.head? = some t) (hu : u ∈ l) : u = t ∨ r t u := by
  obtain ⟨rest, rfl⟩ := List.head?_eq_some_iff.mp ht
  rcases List.mem_cons.mp hu with rfl | hu
  · exact .inl rfl
  · exact .inr ((List.pairwise_cons.mp h).1 u hu)

end

theorem Inv.correct (h : Inv s order) : Correct s order where
  holds := h.holds
  count q t := by
    split
    next hq => exact List.count_eq_one_of_mem (h.nodup q) ((h.mem q t).mpr hq)
    next hq => exact List.count_eq_zero_of_not_mem fun hm => hq ((h.mem q t).mp hm)
  fifo := h.fifo
  priority := h.priority
  first := h.first
  longest q t u hop ht hu :=
    head_before (h.fifo q hop) ((h.first q).symm.trans ht) ((h.mem q u).mpr hu)
  important q t u hop ht hu :=
    head_before (h.priority q hop) ((h.first q).symm.trans ht) ((h.mem q u).mpr hu)

/-- **The threads wait in order**: after every run, each waiting thread is once
on its queue, in the order of the discipline, and every further operation
returns and moves the threads as the discipline says. -/
theorem thread_queue_order {priority : Tid → Priority} {discipline : Qid → Discipline}
    {memory : Qid → RBTree.State (Option Tid)} {ops : List (Op Tid Qid)}
    (hrun : Runs (start priority discipline memory) ops s) :
    ∃ order, Correct s order ∧ ∀ op : Op Tid Qid, op.Valid s →
      (∃ s', op.Returns s s') ∧ ∀ s', op.Returns s s' → Correct s' (op.reorder s order) := by
  obtain ⟨order, h⟩ := (Inv.start priority discipline memory).run hrun
  refine ⟨order, h.correct, fun op hop => ?_⟩
  obtain ⟨s', hret, h'⟩ := h.step hop
  refine ⟨⟨s', hret⟩, fun s'' hret' => ?_⟩
  obtain rfl := hret.unique hret'
  exact h'.correct

/-- Thread 1 waits with priority 30, threads 2 and 3 come with priority 20, and
then thread 1 is raised to 20.  They leave in the order 2, 3, 1. -/
theorem thread_queue_order_raised :
    let s₀ : State Nat Unit := start (fun t => if t = 1 then 30 else 20) (fun _ => .priority)
      fun _ => ⟨fun _ => none, fun _ _ => none, fun _ => .red, none⟩
    ∃ s, Runs s₀ [.enqueue () 1, .enqueue () 2, .enqueue () 3,
        .changePriority 1 (fun _ => some 20)] s ∧ first s () = some 2 ∧
      ∃ order, Correct s order ∧ ∀ op : Op Nat Unit, op.Valid s →
        (∃ s', op.Returns s s') ∧ ∀ s', op.Returns s s' → Correct s' (op.reorder s order) := by
  intro s₀
  have hrun : Runs s₀ ([] ++ [.enqueue () 1] ++ [.enqueue () 2] ++ [.enqueue () 3] ++
      [.changePriority 1 (fun _ => some 20)]) _ :=
    .snoc (.snoc (.snoc (.snoc .nil rfl ⟨5, rfl⟩) rfl ⟨5, rfl⟩) rfl ⟨5, rfl⟩) trivial ⟨5, rfl⟩
  exact ⟨_, hrun, by decide, thread_queue_order hrun⟩

/-- Thread 1 comes before thread 2, and all priorities are 20 all the time.  Then the priority of
thread 1 is set to 20, and thread 2 is the first. -/
theorem thread_queue_order_same :
    let s₀ : State Nat Unit := start (fun _ => 20) (fun _ => .priority)
      fun _ => ⟨fun _ => none, fun _ _ => none, fun _ => .red, none⟩
    ∃ s, Runs s₀ [.enqueue () 1, .enqueue () 2, .changePriority 1 (fun _ => some 20)] s ∧
      s.arrived 1 < s.arrived 2 ∧ s.prio 1 = 20 ∧ s.prio 2 = 20 ∧ first s () = some 2 := by
  intro s₀
  have hrun : Runs s₀ ([] ++ [.enqueue () 1] ++ [.enqueue () 2] ++
      [.changePriority 1 (fun _ => some 20)]) _ :=
    .snoc (.snoc (.snoc .nil rfl ⟨5, rfl⟩) rfl ⟨5, rfl⟩) trivial ⟨5, rfl⟩
  exact ⟨_, hrun, by decide, by decide, by decide, by decide⟩

end Rtems.ThreadQueue.Queues
