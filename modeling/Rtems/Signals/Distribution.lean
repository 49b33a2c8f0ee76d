import Rtems.Signals.Model

/-!
# Distribution of process signals

The search of `killinfo.c` for a thread that takes the signal.  It tries the executing thread, then
the wait queue of `sigtimedwait`, and then all threads of the classic and of the POSIX API in one scan
over their tables.

The scan keeps the best thread so far and its priority.  `scan_eq_argmin` says that it finds the first
least element of the threads it considers, by priority and state.  It considers no thread whose
priority is above `PRIORITY_MAXIMUM`, since that is where the running priority starts.
-/

namespace Rtems.Signals

/-- `STATES_INTERRUPTIBLE_BY_SIGNAL`. -/
def statesInterruptibleBySignal : BitVec 32 := 0x10000000#32

/-- `_States_Is_ready`. -/
def statesIsReady (states : BitVec 32) : Bool := states = statesReady

/-- `_States_Is_interruptible_by_signal`. -/
def statesIsInterruptibleBySignal (states : BitVec 32) : Bool :=
  states &&& statesInterruptibleBySignal ≠ 0#32

/-- The threads, as far as `killinfo` reads them. -/
structure Threads (Tid : Type) where
  currentPriority : Tid → Priority
  currentState : Tid → BitVec 32
  /-- The chain of `_POSIX_signals_Wait_queue`. -/
  waitQueue : List Tid
  /-- The first classes of the classic and of the POSIX API, if they are there: the local tables
  from index 1 on, with null entries. -/
  informationTable : List (Option (List (Option Tid)))
  /-- `PRIORITY_MAXIMUM`. -/
  priorityMaximum : Priority

variable {Tid Nid : Type} [DecidableEq Tid] [DecidableEq Nid]

/-- `_POSIX_signals_Is_interested`. -/
def isInterested (s : State Tid Nid) (sig : Nat) (t : Tid) : Bool := ! s.signalsBlocked t sig

/-- `Wait.option` of a thread on the wait queue: the set that it waits for. -/
def waitOption (s : State Tid Nid) (t : Tid) : Nat → Bool :=
  match s.wait t with
  | .waiting set => set
  | _ => fun _ => false

/-- A thread on the wait queue takes the signal. -/
def takes (s : State Tid Nid) (sig : Nat) (t : Tid) : Bool :=
  waitOption s t sig || ! s.signalsBlocked t sig

/-! ## The search -/

/-- One thread of the scan.  `interested` is the best thread so far, `interestedPriority` its
priority. -/
def scanThread (th : Threads Tid) (s : State Tid Nid) (sig : Nat) :
    Option Tid × Priority → Tid → Option Tid × Priority
  | (interested, interestedPriority), theThread =>
    let found := (some theThread, th.currentPriority theThread)
    if th.currentPriority theThread > interestedPriority then (interested, interestedPriority)
    else if ! isInterested s sig theThread then (interested, interestedPriority)
    else if th.currentPriority theThread < interestedPriority then found
    else
      match interested with
      | none => (interested, interestedPriority)
      | some i =>
        if statesIsReady (th.currentState i) then (interested, interestedPriority)
        else if statesIsReady (th.currentState theThread) then found
        else if ! statesIsInterruptibleBySignal (th.currentState i) &&
            statesIsInterruptibleBySignal (th.currentState theThread) then found
        else (interested, interestedPriority)

/-- One entry of a local table. -/
def scanEntry (th : Threads Tid) (s : State Tid Nid) (sig : Nat) (best : Option Tid × Priority) :
    Option Tid → Option Tid × Priority
  | none => best
  | some theThread => scanThread th s sig best theThread

/-- One API. -/
def scanApi (th : Threads Tid) (s : State Tid Nid) (sig : Nat) (best : Option Tid × Priority) :
    Option (List (Option Tid)) → Option Tid × Priority
  | none => best
  | some localTable => localTable.foldl (scanEntry th s sig) best

/-- The scan over all threads. -/
def scan (th : Threads Tid) (s : State Tid Nid) (sig : Nat) : Option Tid × Priority :=
  th.informationTable.foldl (scanApi th s sig) (none, th.priorityMaximum + 1)

/-- The thread that `killinfo` directs the signal to. -/
def interestedThread (th : Threads Tid) (s : State Tid Nid) (executing : Tid) (sig : Nat) :
    Option Tid :=
  if isInterested s sig executing then some executing
  else
    match th.waitQueue.find? (takes s sig) with
    | some theThread => some theThread
    | none => (scan th s sig).1

/-- The thread for which `killinfo` calls `_POSIX_signals_Unblock_thread`, itself or by
`pthread_kill`. -/
def directedTo (th : Threads Tid) (s : State Tid Nid) (executing : Tid) (sig : Nat) : Option Tid :=
  if (s.vectors sig).handler = .ign then none
  else if sig = sigFpe ∨ sig = sigIll ∨ sig = sigSegv then some executing
  else interestedThread th s executing sig

/-! ## The threads in order -/

/-- All threads of both APIs. -/
def Threads.all (th : Threads Tid) : List Tid :=
  (th.informationTable.filterMap id).flatten.filterMap id

/-- Ready threads come first, then those that a signal can interrupt, then the other blocked ones. -/
def Threads.stateRank (th : Threads Tid) (t : Tid) : Nat :=
  if statesIsReady (th.currentState t) then 0
  else if statesIsInterruptibleBySignal (th.currentState t) then 1
  else 2

/-- Priority, and state among equal priorities.  Less is better. -/
def Threads.rank (th : Threads Tid) (t : Tid) : Nat ×ₗ Nat :=
  toLex (th.currentPriority t, th.stateRank t)

/-- The threads that the scan considers. -/
def considered (th : Threads Tid) (s : State Tid Nid) (sig : Nat) : List Tid :=
  th.all.filter fun t => isInterested s sig t && decide (th.currentPriority t ≤ th.priorityMaximum)

variable {th : Threads Tid} {s : State Tid Nid} {sig : Nat} {t u executing : Tid}

section

omit [DecidableEq Tid]

theorem Threads.rank_lt : th.rank u < th.rank t ↔ th.currentPriority u < th.currentPriority t ∨
    th.currentPriority u = th.currentPriority t ∧ th.stateRank u < th.stateRank t :=
  Prod.Lex.toLex_lt_toLex

end

section

omit [DecidableEq Nid] [DecidableEq Tid]

theorem mem_considered : t ∈ considered th s sig ↔ t ∈ th.all ∧ isInterested s sig t = true ∧
    th.currentPriority t ≤ th.priorityMaximum := by
  simp [considered]

/-! ## The scan -/

/-- The scan goes over one list. -/
theorem scan_eq_foldl :
    scan th s sig = th.all.foldl (scanThread th s sig) (none, th.priorityMaximum + 1) := by
  unfold scan Threads.all
  rw [List.foldl_filterMap, List.foldl_flatten, List.foldl_filterMap]
  congr 1
  funext best api
  cases api with
  | none => rfl
  | some localTable =>
    show localTable.foldl (scanEntry th s sig) best = _
    congr 1
    funext best entry
    cases entry with
    | none => rfl
    | some theThread => rfl

/-- The priority that goes with the best thread so far. -/
def runningPriority (th : Threads Tid) : Option Tid → Priority
  | none => th.priorityMaximum + 1
  | some i => th.currentPriority i

/-- A thread of the scan that is considered competes with the best one so far. -/
theorem scanThread_eq {o : Option Tid} (ho : ∀ i, o = some i →
      th.currentPriority i ≤ th.priorityMaximum) :
    scanThread th s sig (o, runningPriority th o) t =
      let o' :=
        if isInterested s sig t && decide (th.currentPriority t ≤ th.priorityMaximum) then
          List.argAux (fun u v => th.rank u < th.rank v) o t
        else o
      (o', runningPriority th o') := by
  cases hint : isInterested s sig t with
  | false => simp [scanThread, hint]
  | true =>
    cases o with
    | none =>
      by_cases hle : th.currentPriority t ≤ th.priorityMaximum
      · have hlt : th.currentPriority t < th.priorityMaximum + 1 := Nat.lt_succ_of_le hle
        simp [scanThread, hint, runningPriority, List.argAux, hle, hlt, Nat.not_lt_of_lt hlt]
      · have hlt : ¬ th.currentPriority t < th.priorityMaximum + 1 :=
          fun hlt => hle (Nat.le_of_lt_succ hlt)
        simp [scanThread, hint, runningPriority, hle, hlt]
    | some i =>
      have hi := ho i rfl
      rcases Nat.lt_trichotomy (th.currentPriority t) (th.currentPriority i) with hlt | heq | hgt
      · have hle : th.currentPriority t ≤ th.priorityMaximum := Nat.le_of_lt (Nat.lt_of_lt_of_le hlt hi)
        simp [scanThread, hint, runningPriority, List.argAux, Threads.rank_lt, hle, hlt,
          Nat.not_lt_of_lt hlt]
      · -- equal priorities: the states decide
        simp only [scanThread, hint, runningPriority, List.argAux, Threads.rank_lt,
          Threads.stateRank, heq, hi]
        cases hri : statesIsReady (th.currentState i) with
        | true => simp
        | false =>
          cases hrt : statesIsReady (th.currentState t) with
          | true => cases hii : statesIsInterruptibleBySignal (th.currentState i) <;> simp [heq]
          | false =>
            cases hii : statesIsInterruptibleBySignal (th.currentState i) <;>
              cases hit : statesIsInterruptibleBySignal (th.currentState t) <;> simp [heq]
      · have hno : ¬ (th.currentPriority t < th.currentPriority i ∨
            th.currentPriority t = th.currentPriority i ∧ th.stateRank t < th.stateRank i) := by
          rintro (hlt | ⟨heq, -⟩)
          · exact Nat.lt_asymm hlt hgt
          · exact Nat.ne_of_gt hgt heq
        simp [scanThread, runningPriority, List.argAux, Threads.rank_lt, hno, hgt]

/-- The scan finds the first least thread of those it considers. -/
theorem scan_eq_argmin : (scan th s sig).1 = (considered th s sig).argmin th.rank := by
  have hfold : ∀ (l : List Tid) (o : Option Tid),
      (∀ i, o = some i → th.currentPriority i ≤ th.priorityMaximum) →
      (l.foldl (scanThread th s sig) (o, runningPriority th o)).1 =
        (l.filter fun t => isInterested s sig t &&
          decide (th.currentPriority t ≤ th.priorityMaximum)).foldl
            (List.argAux fun u v => th.rank u < th.rank v) o := by
    intro l
    induction l with
    | nil => exact fun _ _ => rfl
    | cons t l ih =>
      intro o ho
      rw [List.foldl_cons, scanThread_eq ho, List.filter_cons]
      dsimp only
      split
      next hcons =>
        rw [List.foldl_cons]
        refine ih _ ?_
        intro i hi
        have hle : th.currentPriority t ≤ th.priorityMaximum := by
          simpa using (Bool.and_eq_true_iff.mp hcons).2
        cases o with
        | none =>
          cases hi
          exact hle
        | some j =>
          unfold List.argAux at hi
          dsimp only at hi
          split at hi
          next =>
            cases hi
            exact hle
          next => exact ho i hi
      next => exact ih o ho
  rw [scan_eq_foldl]
  exact hfold th.all none nofun

/-! ## Where a signal goes -/

/-- The distribution of a signal over the threads. -/
inductive Directs (th : Threads Tid) (s : State Tid Nid) (executing : Tid) (sig : Nat) :
    Option Tid → Prop where
  | executing (hexec : isInterested s sig executing = true) :
      Directs th s executing sig (some executing)
  /-- The first thread on the wait queue that waits for the signal or does not block it. -/
  | waiting (hexec : isInterested s sig executing = false) (before after : List Tid) (t : Tid)
      (hqueue : th.waitQueue = before ++ t :: after) (htakes : takes s sig t = true)
      (hbefore : ∀ u ∈ before, takes s sig u = false) : Directs th s executing sig (some t)
  /-- A thread that is maximal by priority and state among those that do not block the signal. -/
  | best (hexec : isInterested s sig executing = false)
      (hqueue : ∀ u ∈ th.waitQueue, takes s sig u = false) (t : Tid) (hmem : t ∈ th.all)
      (hint : isInterested s sig t = true)
      (hbest : ∀ u ∈ th.all, isInterested s sig u = true → th.rank t ≤ th.rank u) :
      Directs th s executing sig (some t)
  | nobody (hexec : isInterested s sig executing = false)
      (hqueue : ∀ u ∈ th.waitQueue, takes s sig u = false)
      (hall : ∀ u ∈ th.all, isInterested s sig u = false) : Directs th s executing sig none

/-- There is no thread for the signal. -/
structure Nobody (th : Threads Tid) (s : State Tid Nid) (executing : Tid) (sig : Nat) : Prop where
  executing : isInterested s sig executing = false
  waitQueue : ∀ u ∈ th.waitQueue, takes s sig u = false
  all : ∀ u ∈ th.all, isInterested s sig u = false

theorem Directs.none_iff {o : Option Tid} (h : Directs th s executing sig o) :
    o = none ↔ Nobody th s executing sig := by
  cases h with
  | executing hexec =>
    refine ⟨nofun, fun hno => ?_⟩
    exact absurd (hexec.symm.trans hno.executing) nofun
  | waiting hexec before after t hqueue htakes hbefore =>
    refine ⟨nofun, fun hno => ?_⟩
    have hmem : t ∈ th.waitQueue := hqueue ▸ List.mem_append_right _ List.mem_cons_self
    exact absurd (htakes.symm.trans (hno.waitQueue t hmem)) nofun
  | best hexec hqueue t hmem hint hbest =>
    refine ⟨nofun, fun hno => ?_⟩
    exact absurd (hint.symm.trans (hno.all t hmem)) nofun
  | nobody hexec hqueue hall => exact ⟨fun _ => ⟨hexec, hqueue, hall⟩, fun _ => rfl⟩

/-- Where no priority is above the maximum, the scan is fair to all threads. -/
theorem scan_directs (hprio : ∀ t ∈ th.all, th.currentPriority t ≤ th.priorityMaximum)
    (hexec : isInterested s sig executing = false)
    (hqueue : ∀ u ∈ th.waitQueue, takes s sig u = false) :
    Directs th s executing sig (scan th s sig).1 := by
  have hconsidered : ∀ u, u ∈ considered th s sig ↔ u ∈ th.all ∧ isInterested s sig u = true := by
    intro u
    rw [mem_considered]
    exact ⟨fun h => ⟨h.1, h.2.1⟩, fun h => ⟨h.1, h.2, hprio u h.1⟩⟩
  rw [scan_eq_argmin]
  cases hmin : (considered th s sig).argmin th.rank with
  | none =>
    have hempty := List.argmin_eq_none.mp hmin
    refine .nobody hexec hqueue ?_
    intro u hu
    cases hint : isInterested s sig u with
    | false => rfl
    | true =>
      have hmem := (hconsidered u).mpr ⟨hu, hint⟩
      rw [hempty] at hmem
      exact absurd hmem List.not_mem_nil
  | some t =>
    obtain ⟨hmem, hint⟩ := (hconsidered t).mp (List.argmin_mem hmin)
    refine .best hexec hqueue t hmem hint ?_
    intro u hu hu'
    exact List.le_of_mem_argmin ((hconsidered u).mpr ⟨hu, hu'⟩) hmin

theorem interestedThread_directs
    (hprio : ∀ t ∈ th.all, th.currentPriority t ≤ th.priorityMaximum) :
    Directs th s executing sig (interestedThread th s executing sig) := by
  unfold interestedThread
  cases hexec : isInterested s sig executing with
  | true => exact .executing hexec
  | false =>
    rw [if_neg Bool.false_ne_true]
    cases hfind : th.waitQueue.find? (takes s sig) with
    | some t =>
      obtain ⟨htakes, before, after, hqueue, hbefore⟩ := List.find?_eq_some_iff_append.mp hfind
      exact .waiting hexec before after t hqueue htakes fun u hu => by simpa using hbefore u hu
    | none => exact scan_directs hprio hexec fun u hu => by simpa using List.find?_eq_none.mp hfind u hu

end

/-- What becomes of a signal that is directed to a thread or to nobody. -/
inductive Handed (s : State Tid Nid) (sig : Nat) : Option Tid → State Tid Nid → Prop where
  /-- It is given to a thread that waits. -/
  | given (t : Tid) (set : Nat → Bool) (hwait : s.wait t = .waiting set) :
      Handed s sig (some t) { s with wait := Function.update s.wait t (.woken (some sig)) }
  /-- It is pending for the process, where the thread finds it. -/
  | posted (o : Option Tid) (s' : State Tid Nid) (hpending : s'.pending sig = true)
      (hwait : s'.wait = s.wait) : Handed s sig o s'

section

omit [DecidableEq Tid]

theorem postProcessSignal_pending (s : State Tid Nid) (sig value : Nat) :
    (postProcessSignal s sig value).2.pending sig = true ∧
      (postProcessSignal s sig value).2.wait = s.wait := by
  unfold postProcessSignal
  dsimp only
  split
  next =>
    split
    next => exact ⟨Function.update_self .., rfl⟩
    next => exact ⟨Function.update_self .., rfl⟩
  next => exact ⟨Function.update_self .., rfl⟩

end

section

omit [DecidableEq Nid]

/-- A thread that does not wait is not given the signal, and nothing else changes. -/
theorem unblockThread_handed (s : State Tid Nid) (t : Tid) (sig : Nat) :
    unblockThread s t sig = (false, s) ∨ ∃ set, s.wait t = .waiting set ∧
      unblockThread s t sig =
        (true, { s with wait := Function.update s.wait t (.woken (some sig)) }) := by
  unfold unblockThread
  split
  next set hwait =>
    split
    next => exact .inr ⟨set, hwait, rfl⟩
    next => exact .inl rfl
  next => exact .inl rfl

end

/-- An ordinary signal is handed to the thread that it is directed to. -/
theorem killinfo_handed {value : Option Nat} {o : Option Tid} (hvalid : isValidSigno sig = true)
    (hact : (s.vectors sig).handler ≠ .ign)
    (hfault : ¬ (sig = sigFpe ∨ sig = sigIll ∨ sig = sigSegv)) :
    Handed s sig o (killinfo s executing true sig value o).2 := by
  have hzero : sig ≠ 0 := by
    rintro rfl
    exact absurd hvalid (by decide)
  unfold killinfo
  simp only [Bool.not_true, Bool.false_eq_true, if_false, hzero, hvalid, hact, hfault]
  cases o with
  | none =>
    obtain ⟨hpending, hwait⟩ := postProcessSignal_pending s sig (value.getD 0)
    exact .posted _ _ hpending hwait
  | some t =>
    dsimp only
    rcases unblockThread_handed s t sig with he | ⟨set, hwait, he⟩
    · rw [he]
      obtain ⟨hpending, hwait⟩ := postProcessSignal_pending s sig (value.getD 0)
      exact .posted _ _ hpending hwait
    · rw [he]
      exact .given t set hwait

/-- An ignored signal does nothing, a fault goes to the executing thread, and every other signal is
distributed over the threads. -/
theorem killinfo_distributes (th : Threads Tid) (s : State Tid Nid) (executing : Tid) (sig : Nat)
    (value : Option Nat) (hvalid : isValidSigno sig = true)
    (hprio : ∀ t ∈ th.all, th.currentPriority t ≤ th.priorityMaximum) :
    let o := directedTo th s executing sig
    let s' := (killinfo s executing true sig value o).2
    if (s.vectors sig).handler = .ign then s' = s
    else if sig = sigFpe ∨ sig = sigIll ∨ sig = sigSegv then
      o = some executing ∧ s' = pthreadKill s executing sig
    else Directs th s executing sig o ∧ Handed s sig o s' ∧
      (o = none ↔ Nobody th s executing sig) := by
  intro o s'
  have hzero : sig ≠ 0 := by
    rintro rfl
    exact absurd hvalid (by decide)
  split
  next hign =>
    show (killinfo s executing true sig value o).2 = s
    simp [killinfo, hzero, hvalid, hign]
  next hact =>
    split
    next hfault =>
      refine ⟨?_, ?_⟩
      · show directedTo th s executing sig = some executing
        simp [directedTo, hact, hfault]
      · show (killinfo s executing true sig value o).2 = pthreadKill s executing sig
        simp [killinfo, hzero, hvalid, hact, hfault]
    next hfault =>
      have hdirects : Directs th s executing sig o := by
        show Directs th s executing sig (directedTo th s executing sig)
        unfold directedTo
        rw [if_neg hact, if_neg hfault]
        exact interestedThread_directs hprio
      exact ⟨hdirects, killinfo_handed hvalid hact hfault, hdirects.none_iff⟩

/-- The executing thread, which blocks everything, and another thread, which blocks nothing. -/
def twoThreads (priority : Priority) : Threads Nat where
  currentPriority := fun t => if t = 0 then 1 else priority
  currentState := fun _ => statesReady
  waitQueue := []
  informationTable := [none, some [some 0, none, some 1]]
  priorityMaximum := 255

/-- The signals of the two threads. -/
def twoMasks : State Nat Nat := initial [] (fun _ => 0) fun t _ => t == 0

theorem killinfo_distributes_two :
    Directs (twoThreads 255) twoMasks 0 1 (directedTo (twoThreads 255) twoMasks 0 1) := by
  have h := killinfo_distributes (twoThreads 255) twoMasks 0 1 none (by decide) (by decide)
  rw [if_neg (by decide), if_neg (by decide)] at h
  exact h.1

/-- A fault goes to a thread that blocks it, and a thread beyond the greatest priority is not found. -/
theorem not_directs_two :
    ¬ Directs (twoThreads 255) twoMasks 0 sigSegv (directedTo (twoThreads 255) twoMasks 0 sigSegv) ∧
      ¬ Directs (twoThreads 1000) twoMasks 0 1 (directedTo (twoThreads 1000) twoMasks 0 1) := by
  constructor
  · have hfault : directedTo (twoThreads 255) twoMasks 0 sigSegv = some 0 := by decide
    rw [hfault]
    intro h
    cases h with
    | executing hexec => exact absurd hexec (by decide)
    | waiting _ before after t hqueue => simp [twoThreads] at hqueue
    | best _ _ _ _ hint => exact absurd hint (by decide)
  · have hlate : directedTo (twoThreads 1000) twoMasks 0 1 = none := by decide
    rw [hlate]
    intro h
    cases h with
    | nobody _ _ hall => exact absurd (hall 1 (by decide)) (by decide)

end Rtems.Signals
