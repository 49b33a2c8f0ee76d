import Mathlib

/-!
# Joining a thread

The model of `pthreadjoin.c` and of the exit of a thread in `pthreadexit.c` and
`pthread.c`: one thread that joins another one, which is joined by no third.  Each
step is what one of them does while it has thread dispatching disabled, or a
signal that interrupts the caller.

All blocking operations leave their result in `Wait.return_code`.  The join reads
it to see whether its wait was interrupted, and nothing on its way writes it but
the interrupting signal.
-/

namespace Rtems.PosixThread

/-- The value of `Wait.return_code` by which a signal interrupts a wait. -/
def EINTR : Nat := 4

def EAGAIN : Nat := 11

/-- What `pthread_join` returns. -/
inductive Status where
  | ok
  | EINVAL
  | ESRCH
deriving DecidableEq, Repr

/-- Where the caller stands. -/
inductive Pc (Value : Type) where
  /-- In no call of `pthread_join`. -/
  | outside
  /-- At `on_EINTR`. -/
  | onEINTR
  /-- Behind `_Objects_Put`, or blocked on the join list before it. -/
  | afterPut
  | returned (status : Status) (value : Option Value)
deriving DecidableEq, Repr

/-- Where the thread to join stands. -/
inductive Target where
  | running
  /-- In `STATES_WAITING_FOR_JOIN_AT_EXIT`. -/
  | waitingForJoinAtExit
  /-- On its way from the join to its termination. -/
  | leaving
  /-- Behind `_POSIX_Threads_Terminate_extension`. -/
  | terminated
  /-- `_Thread_Get` does not find it. -/
  | zombie
deriving DecidableEq, Repr

/-- The caller and the thread to join.  Ghosts: the value the thread has exited with, the return code
that the caller came with, and whether a signal has interrupted its wait. -/
structure State (Value : Type) where
  pc : Pc Value
  /-- `Wait.return_code` of the caller. -/
  returnCode : Nat
  /-- `return_pointer`. -/
  returnPointer : Option Value
  /-- The caller is on `Join_List`. -/
  onJoinList : Bool
  target : Target
  /-- `detachstate` is not `PTHREAD_CREATE_DETACHED`. -/
  joinable : Bool
  /-- `Wait.return_argument` of the thread to join. -/
  returnArgument : Value
  exitValue : Option Value
  codeAtCall : Nat
  interrupted : Bool
deriving DecidableEq, Repr

variable {Value : Type}

/-- How a wait in `sigtimedwait` ends, if there is one. -/
inductive SignalWait where
  /-- The signal is pending already. -/
  | pending
  | caught
  | timedOut
deriving DecidableEq, Repr

/-- `Wait.return_code` after `sigtimedwait`. -/
def sigtimedwait (returnCode : Nat) : SignalWait → Nat
  | .pending => returnCode
  | .caught => EINTR
  | .timedOut => EAGAIN

/-- `pthread_join` from `on_EINTR` to `_Objects_Put`, for a thread that is not the caller. -/
def joinPass (s : State Value) : State Value :=
  if s.target = .zombie then { s with pc := .returned .ESRCH none }
  else if ! s.joinable then { s with pc := .returned .EINVAL none }
  else if s.target = .waitingForJoinAtExit then
    { s with
      pc := .afterPut
      returnPointer := some s.returnArgument
      target := .leaving }
  else { s with
    pc := .afterPut
    onJoinList := true }

/-- `pthread_join` from `_Objects_Put` on. -/
def joinCheck (s : State Value) : State Value :=
  if s.returnCode = EINTR then { s with pc := .onEINTR }
  else { s with pc := .returned .ok s.returnPointer }

/-- The caller is dequeued from `Join_List` and gets a value. -/
def serveJoiner (s : State Value) (value : Value) : State Value :=
  if s.onJoinList then { s with
    onJoinList := false
    returnPointer := some value }
  else s

/-- `_POSIX_Thread_Exit` up to where it enables dispatching. -/
def threadExit (s : State Value) (value : Value) : State Value :=
  let s := { s with
    returnArgument := value
    exitValue := some value }
  if ! s.joinable then { s with target := .leaving }
  else if s.onJoinList then { serveJoiner s value with target := .leaving }
  else { s with target := .waitingForJoinAtExit }

/-- `_POSIX_Threads_Terminate_extension`.  The cancellation handlers may have waited, and left
another `Wait.return_argument`. -/
def terminateExtension (s : State Value) (returnArgument : Value) : State Value :=
  { serveJoiner s returnArgument with
    returnArgument := returnArgument
    target := .terminated }

/-- `_POSIX_signals_Unblock_thread` for the caller in the join. -/
def unblockThread (s : State Value) : State Value :=
  { s with
    returnCode := EINTR
    onJoinList := false
    interrupted := true }

/-! ## Runs -/

inductive Op (Value : Type) where
  /-- An earlier blocking call of the caller, and what it leaves. -/
  | block (returnCode : Nat)
  | sigtimedwait (wait : SignalWait)
  | join
  | pass
  | check
  | unblockThread
  | exit (value : Value)
  | terminate (returnArgument : Value)
  /-- `_Thread_Make_zombie`. -/
  | close

def Op.Enabled (s : State Value) : Op Value → Prop
  | .block _ | .sigtimedwait _ => s.pc = .outside
  | .join => s.pc = .outside ∧ s.target ≠ .zombie
  | .pass => s.pc = .onEINTR
  | .check => s.pc = .afterPut ∧ s.onJoinList = false
  | .unblockThread => s.onJoinList = true
  | .exit _ => s.target = .running
  | .terminate _ => s.target = .leaving
  | .close => s.target = .terminated

def Op.run (s : State Value) : Op Value → State Value
  | .block returnCode => { s with returnCode := returnCode }
  | .sigtimedwait wait => { s with returnCode := PosixThread.sigtimedwait s.returnCode wait }
  | .join => { s with
      pc := .onEINTR
      codeAtCall := s.returnCode }
  | .pass => joinPass s
  | .check => joinCheck s
  | .unblockThread => PosixThread.unblockThread s
  | .exit value => threadExit s value
  | .terminate returnArgument => terminateExtension s returnArgument
  | .close => { s with target := .zombie }

def Reachable (s₀ : State Value) : State Value → Prop :=
  Relation.ReflTransGen (fun s s' => ∃ op : Op Value, op.Enabled s ∧ s' = op.run s) s₀

/-- The caller comes with any return code, and the thread to join is running. -/
structure Start (s : State Value) : Prop where
  pc : s.pc = .outside
  onJoinList : s.onJoinList = false
  target : s.target = .running
  joinable : s.joinable = true
  exitValue : s.exitValue = none
  interrupted : s.interrupted = false

/-- The caller came with another return code than `EINTR`, and no signal has interrupted it. -/
def State.Clean (s : State Value) : Prop := s.codeAtCall ≠ EINTR ∧ s.interrupted = false

/-- The join returns zero with the value that the thread exited with. -/
structure Joins (s : State Value) : Prop where
  /-- What it has returned. -/
  returned : ∀ status value, s.pc = .returned status value →
    status = .ok ∧ value = s.exitValue ∧ s.exitValue ≠ none
  /-- It is not left blocked by a thread that has exited, and it returns in its next step. -/
  returns : s.pc = .afterPut → s.exitValue ≠ none →
    s.onJoinList = false ∧ (joinCheck s).pc = .returned .ok s.exitValue

/-! ## The invariant -/

variable {s s' : State Value} {op : Op Value}

/-- What holds while the return code says nothing of an interruption. -/
def CleanAt (s : State Value) : Pc Value → Prop
  | .outside => False
  | .onEINTR => s.onJoinList = false ∧ (s.target = .running ∨ s.target = .waitingForJoinAtExit)
  | .afterPut => s.onJoinList = true ∧ s.target = .running ∨
      s.onJoinList = false ∧ s.returnPointer = s.exitValue ∧ s.exitValue ≠ none
  | .returned status value => s.onJoinList = false ∧ status = .ok ∧ value = s.exitValue ∧
      s.exitValue ≠ none

structure Inv (s : State Value) : Prop where
  joinable : s.joinable = true
  running : s.target = .running ↔ s.exitValue = none
  waiting : s.target = .waitingForJoinAtExit →
    s.onJoinList = false ∧ s.exitValue = some s.returnArgument
  outside : s.pc = .outside → s.interrupted = false ∧ s.onJoinList = false ∧
    (s.target = .running ∨ s.target = .waitingForJoinAtExit)
  /-- In the call only a signal writes the return code. -/
  code : s.pc ≠ .outside →
    s.returnCode = if s.interrupted then EINTR else s.codeAtCall
  clean : s.pc ≠ .outside → s.Clean → CleanAt s s.pc
  /-- With `EINTR` in the return code there is no way to return zero. -/
  stale : ∀ status value, s.pc = .returned status value → ¬ s.Clean → status ≠ .ok

theorem Start.inv (h : Start s) : Inv s where
  joinable := h.joinable
  running := by simp [h.target, h.exitValue]
  waiting := by simp [h.target]
  outside := fun _ => ⟨h.interrupted, h.onJoinList, .inl h.target⟩
  code := fun hne => absurd h.pc hne
  clean := fun hne => absurd h.pc hne
  stale := by simp [h.pc]

theorem Inv.returnCode_ne (h : Inv s) (hpc : s.pc ≠ .outside) :
    s.returnCode ≠ EINTR ↔ s.Clean := by
  rw [h.code hpc, State.Clean]
  cases s.interrupted <;> simp

theorem Inv.pass (h : Inv s) (hpc : s.pc = .onEINTR) : Inv (joinPass s) := by
  have hin : s.pc ≠ .outside := by
    rw [hpc]
    exact nofun
  have hcode := h.code hin
  have hclean : s.Clean → s.onJoinList = false ∧
      (s.target = .running ∨ s.target = .waitingForJoinAtExit) := by
    intro hc
    have hat := h.clean hin hc
    rwa [hpc] at hat
  unfold joinPass
  split
  next hzombie =>
    refine ⟨h.joinable, h.running, h.waiting, nofun, fun _ => hcode, ?_, ?_⟩
    · intro _ hc
      rcases (hclean hc).2 with hrun | hwait
      · exact absurd (hrun.symm.trans hzombie) nofun
      · exact absurd (hwait.symm.trans hzombie) nofun
    · rintro status value heq -
      cases heq
      exact nofun
  next =>
    rw [h.joinable]
    simp only [Bool.not_true, Bool.false_eq_true, if_false]
    split
    next hwait =>
      obtain ⟨hlist, hexit⟩ := h.waiting hwait
      refine ⟨rfl, ?_, nofun, nofun, fun _ => hcode, ?_, nofun⟩
      · simp [hexit]
      · intro _ _
        exact .inr ⟨hlist, hexit.symm, by rw [hexit]; exact nofun⟩
    next hwait =>
      refine ⟨rfl, h.running, fun heq => absurd heq hwait, nofun, fun _ => hcode, ?_, nofun⟩
      intro _ hc
      exact .inl ⟨rfl, (hclean hc).2.resolve_right hwait⟩

theorem Inv.check (h : Inv s) (hpc : s.pc = .afterPut) (hlist : s.onJoinList = false) :
    Inv (joinCheck s) := by
  have hin : s.pc ≠ .outside := by
    rw [hpc]
    exact nofun
  have hcode := h.code hin
  have hiff := h.returnCode_ne hin
  unfold joinCheck
  split
  next heintr =>
    refine ⟨h.joinable, h.running, h.waiting, nofun, fun _ => hcode, ?_, nofun⟩
    exact fun _ hc => absurd heintr (hiff.mpr hc)
  next hother =>
    have hc := hiff.mp hother
    refine ⟨h.joinable, h.running, h.waiting, nofun, fun _ => hcode, ?_, fun _ _ _ hn => absurd hc hn⟩
    intro _ _
    have hat := h.clean hin hc
    rw [hpc] at hat
    rcases hat with ⟨htrue, -⟩ | ⟨-, hpointer, hexit⟩
    · rw [hlist] at htrue
      cases htrue
    · exact ⟨hlist, rfl, hpointer, hexit⟩

/-- A signal leaves the return code that the join takes for its own. -/
theorem Inv.unblockThread (h : Inv s) (hlist : s.onJoinList = true) : Inv (unblockThread s) := by
  have hin : s.pc ≠ .outside := by
    intro hpc
    have hout := (h.outside hpc).2.1
    rw [hlist] at hout
    cases hout
  have hunclean : ¬ (PosixThread.unblockThread s).Clean := fun hc => absurd hc.2 nofun
  refine ⟨h.joinable, h.running, fun hw => ⟨rfl, (h.waiting hw).2⟩, fun hpc => absurd hpc hin,
    fun _ => rfl, fun _ hc => absurd hc hunclean, ?_⟩
  intro status value hret _
  refine h.stale status value hret ?_
  intro hc
  have hat := h.clean hin hc
  have hret' : s.pc = .returned status value := hret
  rw [hret'] at hat
  have hfalse := hat.1
  rw [hlist] at hfalse
  cases hfalse

theorem Inv.exit (h : Inv s) (hrun : s.target = .running) (value : Value) :
    Inv (threadExit s value) := by
  have hnone := h.running.mp hrun
  have hreturned : ∀ status v, s.pc = .returned status v → ¬ s.Clean := by
    intro status v hret hc
    have hat := h.clean (by rw [hret]; exact nofun) hc
    rw [hret] at hat
    exact hat.2.2.2 hnone
  unfold threadExit serveJoiner
  rw [h.joinable]
  simp only [Bool.not_true, Bool.false_eq_true, if_false]
  cases hlist : s.onJoinList with
  | true =>
    have hin : s.pc ≠ .outside := by
      intro hpc
      have hout := (h.outside hpc).2.1
      rw [hlist] at hout
      cases hout
    simp only [if_true]
    refine ⟨rfl, by simp, nofun, fun hpc => absurd hpc hin, h.code, ?_, h.stale⟩
    intro _ hc
    have hat := h.clean hin hc
    show CleanAt _ s.pc
    cases hpc : s.pc with
    | outside => exact absurd hpc hin
    | onEINTR =>
      rw [hpc] at hat
      have hfalse := hat.1
      rw [hlist] at hfalse
      cases hfalse
    | afterPut => exact .inr ⟨rfl, rfl, nofun⟩
    | returned status v => exact absurd hc (hreturned status v hpc)
  | false =>
    simp only [Bool.false_eq_true, if_false]
    refine ⟨rfl, by simp, fun _ => ⟨rfl, rfl⟩, ?_, h.code, ?_, h.stale⟩
    · intro hpc
      exact ⟨(h.outside hpc).1, rfl, .inr rfl⟩
    · intro hin hc
      have hat := h.clean hin hc
      show CleanAt _ s.pc
      cases hpc : s.pc with
      | outside => exact absurd hpc hin
      | onEINTR => exact ⟨rfl, .inr rfl⟩
      | returned status v => exact absurd hc (hreturned status v hpc)
      | afterPut =>
        rw [hpc] at hat
        rcases hat with ⟨htrue, -⟩ | ⟨-, -, hexit⟩
        · rw [hlist] at htrue
          cases htrue
        · exact absurd hnone hexit

/-- In a clean call the thread leaves only after the join. -/
theorem Inv.terminate (h : Inv s) (hleaving : s.target = .leaving) (returnArgument : Value) :
    Inv (terminateExtension s returnArgument) := by
  have hexit : s.exitValue ≠ none := by
    intro hnone
    exact absurd ((h.running.mpr hnone).symm.trans hleaving) nofun
  have hin : s.pc ≠ .outside := by
    intro hpc
    rcases (h.outside hpc).2.2 with hrun | hwait
    · exact absurd (hrun.symm.trans hleaving) nofun
    · exact absurd (hwait.symm.trans hleaving) nofun
  have hclean : s.Clean → s.onJoinList = false ∧ CleanAt { s with target := .terminated } s.pc := by
    intro hc
    have hat := h.clean hin hc
    cases hpc : s.pc with
    | outside => exact absurd hpc hin
    | onEINTR =>
      rw [hpc] at hat
      rcases hat.2 with hrun | hwait
      · exact absurd (hrun.symm.trans hleaving) nofun
      · exact absurd (hwait.symm.trans hleaving) nofun
    | afterPut =>
      rw [hpc] at hat
      rcases hat with ⟨-, hrun⟩ | hserved
      · exact absurd (hrun.symm.trans hleaving) nofun
      · exact ⟨hserved.1, .inr hserved⟩
    | returned status v =>
      rw [hpc] at hat
      exact ⟨hat.1, hat⟩
  have hrunning : (.terminated : Target) = .running ↔ s.exitValue = none := by
    simp [hexit]
  unfold terminateExtension serveJoiner
  cases hlist : s.onJoinList with
  | true =>
    have hunclean : ¬ s.Clean := by
      intro hc
      have hfalse := (hclean hc).1
      rw [hlist] at hfalse
      cases hfalse
    exact ⟨h.joinable, hrunning, nofun, fun hpc => absurd hpc hin, h.code,
      fun _ hc => absurd hc hunclean, h.stale⟩
  | false =>
    simp only [Bool.false_eq_true, if_false]
    refine ⟨h.joinable, hrunning, nofun, fun hpc => absurd hpc hin, h.code, ?_, h.stale⟩
    intro _ hc
    have hat := (hclean hc).2
    show CleanAt _ s.pc
    cases hpc : s.pc with
    | outside => exact absurd hpc hin
    | onEINTR =>
      rw [hpc] at hat
      rcases hat.2 with hrun | hwait
      · cases hrun
      · cases hwait
    | afterPut =>
      rw [hpc] at hat
      rcases hat with ⟨-, hrun⟩ | hserved
      · cases hrun
      · exact .inr hserved
    | returned status v =>
      rw [hpc] at hat
      exact hat

theorem Inv.run (h : Inv s) (he : op.Enabled s) : Inv (op.run s) := by
  cases op with
  | block code =>
    have hpc : s.pc = .outside := he
    exact ⟨h.joinable, h.running, h.waiting, h.outside, fun hne => absurd hpc hne,
      fun hne => absurd hpc hne, h.stale⟩
  | sigtimedwait wait =>
    have hpc : s.pc = .outside := he
    exact ⟨h.joinable, h.running, h.waiting, h.outside, fun hne => absurd hpc hne,
      fun hne => absurd hpc hne, h.stale⟩
  | join =>
    obtain ⟨hfresh, hlist, htarget⟩ := h.outside he.1
    refine ⟨h.joinable, h.running, h.waiting, nofun, ?_, fun _ _ => ⟨hlist, htarget⟩, nofun⟩
    intro _
    show s.returnCode = if s.interrupted then EINTR else s.returnCode
    rw [hfresh]
    rfl
  | pass => exact h.pass he
  | check => exact h.check he.1 he.2
  | unblockThread => exact h.unblockThread he
  | exit value => exact h.exit he value
  | terminate returnArgument => exact h.terminate he returnArgument
  | close =>
    have hterminated : s.target = .terminated := he
    have hexit : s.exitValue ≠ none := by
      intro hnone
      exact absurd ((h.running.mpr hnone).symm.trans hterminated) nofun
    have hnot : ¬ (s.target = .running ∨ s.target = .waitingForJoinAtExit) := by
      rw [hterminated]
      rintro (hrun | hwait)
      · cases hrun
      · cases hwait
    refine ⟨h.joinable, by simp [Op.run, hexit], nofun, fun hpc => absurd (h.outside hpc).2.2 hnot,
      h.code, ?_, h.stale⟩
    intro hin hc
    have hat := h.clean hin hc
    show CleanAt _ s.pc
    cases hpc : s.pc with
    | outside => exact absurd hpc hin
    | onEINTR =>
      rw [hpc] at hat
      exact absurd hat.2 hnot
    | afterPut =>
      rw [hpc] at hat
      rcases hat with ⟨-, hrun⟩ | hserved
      · exact absurd (.inl hrun) hnot
      · exact .inr hserved
    | returned status v =>
      rw [hpc] at hat
      exact hat

theorem Reachable.inv {s₀ : State Value} (h₀ : Start s₀) (hr : Reachable s₀ s) : Inv s := by
  induction hr with
  | refl => exact h₀.inv
  | tail _ hstep ih =>
    obtain ⟨op, he, rfl⟩ := hstep
    exact ih.run he

/-! ## The join -/

theorem Inv.joins (h : Inv s) (hin : s.pc ≠ .outside) (hc : s.Clean) : Joins s where
  returned := by
    intro status value hpc
    have hat := h.clean hin hc
    rw [hpc] at hat
    exact hat.2
  returns := by
    intro hpc hexit
    have hat := h.clean hin hc
    rw [hpc] at hat
    rcases hat with ⟨-, hrun⟩ | ⟨hlist, hpointer, -⟩
    · exact absurd (h.running.mp hrun) hexit
    · refine ⟨hlist, ?_⟩
      rw [joinCheck, if_neg ((h.returnCode_ne hin).mpr hc), hpointer]

/-- A join whose caller came with another return code than `EINTR`, and that no signal interrupts,
returns the value that the thread exits with.  Every other join never returns zero. -/
theorem join_delivers_iff {s₀ s : State Value} (h₀ : Start s₀) (hr : Reachable s₀ s)
    (hin : s.pc ≠ .outside) :
    (s.Clean → Joins s) ∧ ∀ status value, s.pc = .returned status value →
      (status = .ok ∧ value = s.exitValue ∧ s.exitValue ≠ none ↔ s.Clean) := by
  have h := hr.inv h₀
  refine ⟨h.joins hin, ?_⟩
  intro status value hpc
  constructor
  · rintro ⟨hok, -, -⟩
    by_contra hn
    exact h.stale status value hpc hn hok
  · exact fun hc => (h.joins hin hc).returned status value hpc

/-- The thread to join is running, and the caller has not blocked yet. -/
def bothRunning : State Nat where
  pc := .outside
  returnCode := 0
  returnPointer := none
  onJoinList := false
  target := .running
  joinable := true
  returnArgument := 0
  exitValue := none
  codeAtCall := 0
  interrupted := false

theorem bothRunning_start : Start bothRunning := ⟨rfl, rfl, rfl, rfl, rfl, rfl⟩

/-- The ops are taken one after the other. -/
def Legal : State Value → List (Op Value) → Prop
  | _, [] => True
  | s, op :: ops => op.Enabled s ∧ Legal (op.run s) ops

theorem Legal.reachable {ops : List (Op Value)} (h : Legal s ops) :
    Reachable s (ops.foldl Op.run s) := by
  induction ops generalizing s with
  | nil => exact .refl
  | cons op ops ih => exact .head ⟨op, h.1, rfl⟩ (ih h.2)

/-- The caller waits for the thread, which exits. -/
def waitForExit : List (Op Nat) := [.join, .pass, .exit 7, .check]

theorem join_delivers_iff_exit :
    ((waitForExit.foldl Op.run bothRunning).Clean → Joins (waitForExit.foldl Op.run bothRunning)) ∧
      ∀ status value, (waitForExit.foldl Op.run bothRunning).pc = .returned status value →
        (status = .ok ∧ value = (waitForExit.foldl Op.run bothRunning).exitValue ∧
          (waitForExit.foldl Op.run bothRunning).exitValue ≠ none ↔
            (waitForExit.foldl Op.run bothRunning).Clean) :=
  join_delivers_iff bothRunning_start (Legal.reachable ⟨⟨rfl, nofun⟩, rfl, rfl, ⟨rfl, rfl⟩, trivial⟩)
    nofun

/-- The caller has caught a signal in `sigtimedwait` before it joins, and takes the `EINTR` that this
wait has left for its own. -/
def joinAfterSignal : List (Op Nat) :=
  [.sigtimedwait .caught, .join, .pass, .exit 7, .terminate 7, .close, .check, .pass]

theorem join_after_signal : ¬ ∀ s₀ s : State Nat, Start s₀ → Reachable s₀ s → Joins s := by
  intro hall
  have hr : Reachable bothRunning (joinAfterSignal.foldl Op.run bothRunning) :=
    Legal.reachable ⟨rfl, ⟨rfl, nofun⟩, rfl, rfl, rfl, rfl, ⟨rfl, rfl⟩, rfl, trivial⟩
  obtain ⟨hok, -, -⟩ := (hall bothRunning _ bothRunning_start hr).returned .ESRCH none rfl
  cases hok

end Rtems.PosixThread
