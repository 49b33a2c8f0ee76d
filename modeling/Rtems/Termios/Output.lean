import Rtems.Lib.Runs
import Rtems.Termios.Input

/-!
# The output stream

The holder of the output semaphore puts characters into the output ring, waits
for it to drain, or changes the flow control with `termios_set_flowctrl`.  The
device sends characters and calls `rtems_termios_dequeue_characters`, and the
receive interrupt handler calls `rtems_termios_enqueue_raw_characters`.  The
handlers interrupt the task anywhere outside its critical sections.  An
assignment like `flow_ctrl &= mask` outside a critical section is two steps, a
load and a store.
-/

namespace Rtems.Termios

open Lib

/-! ## The line -/

/-- What `termios_set_flowctrl` reads of `c_iflag` and `c_cflag`. -/
structure Modes where
  ixon : Bool
  ixoff : Bool
  crtscts : Bool
deriving DecidableEq, Repr

/-- The points of `termios_set_flowctrl`. -/
inductive FlowPoint where
  | testXon
  | clearXon
  | testStop
  | restart
  | testXof
  | clearXof
  | clearSent
  | testRts
  | clearRts
  | startRts
  | clearRtsOff
  | setRts
  | setXof
  | setXon
deriving DecidableEq, Repr

/-- The assignment to `flow_ctrl` at a point. -/
def FlowPoint.update : FlowPoint → Option (FlowCtrl → FlowCtrl)
  | .clearXon => some fun f => { f with mdxon := false, orcvxof := false }
  | .clearXof => some fun f => { f with mdxof := false }
  | .clearSent => some fun f => { f with isntxof := false }
  | .clearRts => some fun f => { f with mdrts := false }
  | .clearRtsOff => some fun f => { f with irtsoff := false }
  | .setRts => some fun f => { f with mdrts := true }
  | .setXof => some fun f => { f with mdxof := true }
  | .setXon => some fun f => { f with mdxon := true }
  | _ => none

/-- The next one of the options that are switched on, if any is left. -/
def FlowPoint.switchOn (m : Modes) (rts xof : Bool) : Option FlowPoint :=
  if rts && m.crtscts then some .setRts
  else if xof && m.ixoff then some .setXof
  else if m.ixon then some .setXon
  else none

/-- The point that follows. -/
def FlowPoint.next (m : Modes) (f : FlowCtrl) : FlowPoint → Option FlowPoint
  | .testXon => some (if f.mdxon && !m.ixon then .clearXon else .testXof)
  | .clearXon => some .testStop
  | .testStop => some (if f.ostop then .restart else .testXof)
  | .restart => some .testXof
  | .testXof => some (if f.mdxof && !m.ixoff then .clearXof else .testRts)
  | .clearXof => some .clearSent
  | .clearSent => some .testRts
  | .testRts => if f.mdrts && !m.crtscts then some .clearRts else switchOn m true true
  | .clearRts => some .startRts
  | .startRts => some .clearRtsOff
  | .clearRtsOff => switchOn m true true
  | .setRts => switchOn m false true
  | .setXof => switchOn m false false
  | .setXon => none

/-- Where the holder of the output semaphore stands. -/
inductive Task where
  /-- Nobody holds the semaphore. -/
  | idle
  /-- In the loop of `rtems_termios_puts`, with the characters that are left. -/
  | puts (rest : List UInt8)
  /-- It waits there for the semaphore of the ring. -/
  | putsWait (rest : List UInt8)
  /-- In the loop of `drainOutput`. -/
  | drain
  | drainWait
  /-- In `termios_set_flowctrl`, with the value loaded from `flow_ctrl` if it is
  between the load and the store of an assignment. -/
  | setFlow (point : FlowPoint) (loaded : Option FlowCtrl) (modes : Modes)
deriving DecidableEq, Repr

/-- The task in front of a point of `termios_set_flowctrl`, or behind the last. -/
def Task.at (m : Modes) : Option FlowPoint → Task
  | some p => .setFlow p none m
  | none => .idle

/-- A line and its device. -/
structure OutLine where
  tty : Tty
  /-- The count of the simple binary semaphore of the output ring. -/
  semaphore : Bool
  task : Task
  /-- The writes of the device that it has not completed. -/
  outstanding : List (Nat × Nat)
  /-- The characters of all calls of `rtems_termios_puts`. -/
  given : List UInt8
  transmitted : List UInt8

/-- A line with nothing under way. -/
def OutLine.start (t : Tty) : OutLine where
  tty := t
  semaphore := false
  task := .idle
  outstanding := []
  given := []
  transmitted := []

/-- What happens to the line. -/
inductive OutEvent where
  | puts (buf : List UInt8)
  | drain
  | setAttributes (settings : Settings) (modes : Modes)
  /-- The task takes a step. -/
  | task
  /-- The device has sent the first `k` characters of a write. -/
  | sent (k : Nat)
  | received (buf : List UInt8)
deriving DecidableEq, Repr

/-- The write of a call, if it is one of characters of the ring. -/
def issued : DeviceCall → Option (Nat × Nat)
  | .write start count => if count = 0 then none else some (start, count)
  | _ => none

/-- The device gets the calls of a step. -/
def OutLine.serve (s : OutLine) (t : Tty) : OutLine :=
  { s with
    tty := { t with calls := [] }
    outstanding := s.outstanding ++ (t.calls.filterMap issued).reverse }

/-- A step of `termios_set_flowctrl`. -/
def OutLine.setFlow (s : OutLine) (p : FlowPoint) (loaded : Option FlowCtrl) (m : Modes) :
    OutLine :=
  let goto := fun (s : OutLine) => { s with task := Task.at m (p.next m s.tty.flow) }
  match p.update with
  | some f =>
    match loaded with
    | none => { s with task := .setFlow p (some s.tty.flow) m }
    | some v => goto { s with tty := { s.tty with flow := f v } }
  | none =>
    match p with
    | .restart => goto (s.serve (restartOutput s.tty))
    | .startRts =>
      if s.tty.flow.irtsoff && s.tty.startRemoteTx then
        goto (s.serve (s.tty.call .startRemoteTx))
      else goto s
    | _ => goto s

def OutLine.taskStep (s : OutLine) : OutLine :=
  match s.task with
  | .idle => s
  | .puts [] => { s with task := .idle }
  | .puts (c :: cs) =>
    if outFull s.tty then
      { s with tty := { s.tty with rawOutBufState := .wait }, task := .putsWait (c :: cs) }
    else
      let (t, nToCopy) := putsChunk s.tty (c :: cs)
      { s.serve t with task := .puts ((c :: cs).drop nToCopy) }
  | .putsWait rest => if s.semaphore then { s with semaphore := false, task := .puts rest } else s
  | .drain =>
    if s.tty.rawOutBuf.tail ≠ s.tty.rawOutBuf.head then
      { s with tty := { s.tty with rawOutBufState := .wait }, task := .drainWait }
    else { s with task := .idle }
  | .drainWait => if s.semaphore then { s with semaphore := false, task := .drain } else s
  | .setFlow p loaded m => s.setFlow p loaded m

/-- The device completes its first write. -/
def OutLine.sent (s : OutLine) (k : Nat) : OutLine :=
  match s.outstanding with
  | (start, n) :: rest =>
    if 0 < k ∧ k ≤ n then
      let (t, wakeUpWriterTask, _) := dequeueCharacters s.tty k
      let s' := ({ s with outstanding := rest } : OutLine).serve t
      { s' with
        semaphore := s.semaphore || wakeUpWriterTask
        transmitted := s.transmitted ++
          (List.range k).map fun i => s.tty.rawOutBuf.theBuf (start + i) }
    else s
  | [] => s

def OutLine.step (s : OutLine) : OutEvent → OutLine
  | .puts buf =>
    match s.task with
    | .idle => { s with task := .puts buf, given := s.given ++ buf }
    | _ => s
  | .drain =>
    match s.task with
    | .idle => { s with task := .drain }
    | _ => s
  | .setAttributes settings modes =>
    match s.task with
    | .idle =>
      { s with
        tty := { s.tty with settings := settings }
        task := .setFlow .testXon none modes }
    | _ => s
  | .task => s.taskStep
  | .sent k => s.sent k
  | .received buf => s.serve (enqueueRawCharacters s.tty buf).1

/-! ## What is to hold -/

/-- The characters that a writer has not copied into the ring. -/
def Task.rest : Task → List UInt8
  | .puts rest => rest
  | .putsWait rest => rest
  | _ => []

def Task.waits : Task → Bool
  | .putsWait _ => true
  | .drainWait => true
  | _ => false

/-- `termios_set_flowctrl` has cleared the received XOFF, and is about to make
the output go on. -/
def FlowPoint.restarts : FlowPoint → Bool
  | .testStop => true
  | .restart => true
  | _ => false

def Task.restarts : Task → Bool
  | .setFlow p _ _ => p.restarts
  | _ => false

/-- The characters go out in order, with none lost and none sent twice.  As long
as there are some in the ring the device sends them from the tail on, or the
output is stopped by a received XOFF.  The next completion wakes up a writer
that waits. -/
structure Streams (s : OutLine) : Prop where
  order : s.given = s.transmitted ++ s.tty.rawOutBuf.output ++ s.task.rest
  runs : s.tty.rawOutBuf.output ≠ [] →
    (∃ n, 0 < n ∧ s.outstanding = [(s.tty.rawOutBuf.tail, n)]) ∨
      s.tty.flow.ostop = true ∧ (s.tty.flow.orcvxof = true ∨ s.task.restarts = true)
  woken : s.task.waits = true → ∀ start n rest k, s.outstanding = (start, n) :: rest →
    0 < k → k ≤ n → (s.step (.sent k)).semaphore = true

/-- A received character changes what is known of XOFF. -/
def ChangesXoff (t : Tty) (c : UInt8) : Prop :=
  IsFlow t c ∧ (c = t.settings.vstop → c ≠ t.settings.vstart → t.flow.orcvxof = false) ∧
    (c = t.settings.vstart → c ≠ t.settings.vstop → t.flow.orcvxof = true)

/-- No interrupt changes `flow_ctrl` between the load and the store of an
assignment: no received character changes what is known of XOFF, and no
completion stops the output on account of a received XOFF. -/
def Undisturbed (s : OutLine) (e : OutEvent) : Prop :=
  ∀ p v m, s.task = .setFlow p (some v) m →
    (∀ buf, e = .received buf → ∀ c ∈ buf, ¬ ChangesXoff s.tty c) ∧
    ∀ k, e = .sent k → s.tty.flow.orcvxof = true → s.tty.rawOutBuf.output.length ≤ k

/-! ## What the device has to do -/

/-- The writes that the device has not completed, with those of the calls that
it has not got yet. -/
def Tty.pending (t : Tty) (outstanding : List (Nat × Nat)) : List (Nat × Nat) :=
  outstanding ++ (t.calls.filterMap issued).reverse

/-- How the pending writes fit the ring: nothing is to be sent, or the first
characters are being sent, or the output is stopped for a reason. -/
inductive Sending (r : Rawbuf) (ostop : Bool) (reason : Prop) (pending : List (Nat × Nat)) :
    Prop where
  | empty (hring : r.head = r.tail) (hstop : ostop = true → reason) (hnone : pending = [])
  | running (n : Nat) (hring : r.head ≠ r.tail) (hstop : ostop = false) (hpos : 0 < n)
      (hspan : n ≤ span r.size r.tail r.head) (hrow : r.tail + n ≤ r.size)
      (hone : pending = [(r.tail, n)])
  | stopped (hring : r.head ≠ r.tail) (hstop : ostop = true) (hreason : reason)
      (hnone : pending = [])

/-- The output side between two critical sections. -/
structure Flowing (t : Tty) (outstanding : List (Nat × Nat)) (off : Bool) : Prop where
  bounds : t.rawOutBuf.InBounds
  size : 2 ≤ t.rawOutBuf.size
  dqlen : t.dqlen = 0
  ireqxof : t.flow.ireqxof = false
  isntxof : t.flow.isntxof = false
  idle : t.rawOutBufState = .idle ↔ t.rawOutBuf.head = t.rawOutBuf.tail
  sending : Sending t.rawOutBuf t.flow.ostop (t.flow.orcvxof = true ∨ off = true)
    (t.pending outstanding)

variable {t : Tty} {out : List (Nat × Nat)} {off : Bool}

@[simp] theorem Tty.pending_call (t : Tty) (c : DeviceCall) (out : List (Nat × Nat)) :
    (t.call c).pending out = t.pending out ++ (issued c).toList := by
  unfold Tty.pending Tty.call
  cases h : issued c <;> simp [h]

theorem Tty.pending_write (t : Tty) {start n : Nat} (h : 0 < n) (out : List (Nat × Nat)) :
    (t.call (.write start n)).pending out = t.pending out ++ [(start, n)] := by
  rw [Tty.pending_call, issued, if_neg (by omega)]
  rfl

theorem Tty.pending_stop (t : Tty) (out : List (Nat × Nat)) :
    (t.call .stop).pending out = t.pending out := by
  rw [Tty.pending_call]
  exact List.append_nil _

/-- The device takes the calls. -/
theorem Flowing.serve (h : Flowing t out off) :
    Flowing { t with calls := [] } (t.pending out) off where
  bounds := h.bounds
  size := h.size
  dqlen := h.dqlen
  ireqxof := h.ireqxof
  isntxof := h.isntxof
  idle := h.idle
  sending := by
    have hsending := h.sending
    unfold Tty.pending at hsending ⊢
    rwa [List.filterMap_nil, List.reverse_nil, List.append_nil]

theorem span_pos {r : Rawbuf} (h : r.InBounds) (hring : r.head ≠ r.tail) :
    0 < span r.size r.tail r.head := by
  refine Nat.pos_of_ne_zero ?_
  intro hzero
  exact hring ((span_eq_zero h.tail h.head).mp hzero).symm

/-- `startXmit` sends the first characters, or notes that it does not. -/
theorem startXmit_spec (hbounds : t.rawOutBuf.InBounds) (hsize : 2 ≤ t.rawOutBuf.size)
    (hdqlen : t.dqlen = 0)
    (hireqxof : t.flow.ireqxof = false) (hisntxof : t.flow.isntxof = false)
    (hring : t.rawOutBuf.head ≠ t.rawOutBuf.tail)
    (hstop : t.flow.ostop = true → t.flow.orcvxof = true)
    (hnone : t.pending out = []) (off transmitting : Bool) :
    Flowing (startXmit t t.rawOutBuf.tail transmitting).1 out off ∧
      (startXmit t t.rawOutBuf.tail transmitting).1.rawOutBuf = t.rawOutBuf ∧
      (startXmit t t.rawOutBuf.tail transmitting).1.rawOutBufState = .busy ∧
      (startXmit t t.rawOutBuf.tail transmitting).1.flow.mdxon = t.flow.mdxon ∧
      (t.flow.orcvxof = false →
        (startXmit t t.rawOutBuf.tail transmitting).1.flow = t.flow) := by
  have hbusy : RobState.busy = .idle ↔ t.rawOutBuf.head = t.rawOutBuf.tail :=
    ⟨fun hidle => RobState.noConfusion hidle, fun heq => absurd heq hring⟩
  unfold startXmit
  simp only
  split
  next hxoff =>
    have hcall : ∀ t' : Tty, (if transmitting then t'.call .stop else t').pending out =
        t'.pending out := by
      intro t'
      cases transmitting with
      | true => exact t'.pending_stop out
      | false => rfl
    refine ⟨?_, ?_⟩
    · cases transmitting with
      | true =>
        refine ⟨hbounds, hsize, hdqlen, hireqxof, hisntxof, hbusy, ?_⟩
        exact .stopped hring rfl (.inl hxoff) ((hcall _).trans hnone)
      | false =>
        refine ⟨hbounds, hsize, hdqlen, hireqxof, hisntxof, hbusy, ?_⟩
        exact .stopped hring rfl (.inl hxoff) hnone
    · have hlater : t.flow.orcvxof = false → False := by
        intro hclear
        rw [hclear] at hxoff
        exact Bool.noConfusion hxoff
      cases transmitting with
      | true => exact ⟨rfl, rfl, rfl, fun hclear => (hlater hclear).elim⟩
      | false => exact ⟨rfl, rfl, rfl, fun hclear => (hlater hclear).elim⟩
  next hxon =>
    refine ⟨?_, rfl, rfl, rfl, fun _ => rfl⟩
    have hrun : t.flow.ostop = false := Bool.eq_false_of_not_eq_true fun hon => hxon (hstop hon)
    have hpos := span_pos hbounds hring
    have htail := hbounds.tail
    have hhead := hbounds.head
    have hspan : span t.rawOutBuf.size t.rawOutBuf.tail t.rawOutBuf.head =
        if t.rawOutBuf.head + t.rawOutBuf.size - t.rawOutBuf.tail < t.rawOutBuf.size then
          t.rawOutBuf.head + t.rawOutBuf.size - t.rawOutBuf.tail
        else t.rawOutBuf.head + t.rawOutBuf.size - t.rawOutBuf.tail - t.rawOutBuf.size :=
      mod_wrap (by omega)
    generalize hn : (if (t.flow.mdxon || t.flow.mdxof) = true then 1
      else if t.rawOutBuf.tail > t.rawOutBuf.head then t.rawOutBuf.size - t.rawOutBuf.tail
      else t.rawOutBuf.head - t.rawOutBuf.tail) = n
    have hbound : 0 < n ∧ n ≤ span t.rawOutBuf.size t.rawOutBuf.tail t.rawOutBuf.head ∧
        t.rawOutBuf.tail + n ≤ t.rawOutBuf.size := by
      rw [hspan] at hpos ⊢
      split at hn
      next => split at hpos <;> split <;> omega
      next => split at hn <;> split <;> omega
    refine ⟨hbounds, hsize, hdqlen, hireqxof, hisntxof, hbusy, ?_⟩
    refine .running n hring hrun hbound.1 hbound.2.1 hbound.2.2 ?_
    rw [Tty.pending_write _ hbound.1]
    show t.pending out ++ _ = _
    rw [hnone]
    rfl

/-- XOFF or XON is received. -/
theorem Flowing.xoff (h : Flowing t out off) {x : Bool} (hx : x = true ∨ t.flow.ostop = false) :
    Flowing { t with flow := { t.flow with orcvxof := x } } out off where
  bounds := h.bounds
  size := h.size
  dqlen := h.dqlen
  ireqxof := h.ireqxof
  isntxof := h.isntxof
  idle := h.idle
  sending := by
    cases h.sending with
    | empty hring hstop hnone =>
      refine .empty hring (fun hon => .inl ?_) hnone
      rcases hx with hx | hx
      · exact hx
      · rw [hx] at hon
        exact Bool.noConfusion hon
    | running n hring hstop hpos hspan hrow hone =>
      exact .running n hring hstop hpos hspan hrow hone
    | stopped hring hstop hreason hnone =>
      rcases hx with hx | hx
      · exact .stopped hring hstop (.inl hx) hnone
      · rw [hstop] at hx
        exact Bool.noConfusion hx

/-- A stopped output goes on. -/
theorem Flowing.restart (h : Flowing t out off) (hstop : t.flow.ostop = true) (x off' : Bool) :
    Flowing (restartOutput { t with flow := { t.flow with orcvxof := x } }) out off' ∧
      (restartOutput { t with flow := { t.flow with orcvxof := x } }).rawOutBuf = t.rawOutBuf ∧
      (restartOutput { t with flow := { t.flow with orcvxof := x } }).rawOutBufState =
        t.rawOutBufState := by
  cases h.sending with
  | empty hring hstop' hnone =>
    unfold restartOutput
    simp only
    rw [if_neg (not_not.mpr (h.idle.mpr hring))]
    refine ⟨⟨h.bounds, h.size, h.dqlen, h.ireqxof, h.isntxof, h.idle, ?_⟩, rfl, rfl⟩
    exact .empty hring (fun hon => Bool.noConfusion hon) hnone
  | running n hring hstop' hpos hspan hrow hone =>
    rw [hstop'] at hstop
    exact Bool.noConfusion hstop
  | stopped hring hstop' hreason hnone =>
    have hnot : t.rawOutBufState ≠ .idle := fun hidle => hring (h.idle.mp hidle)
    have hpos := span_pos h.bounds hring
    have htail := h.bounds.tail
    unfold restartOutput
    simp only
    rw [if_pos hnot]
    refine ⟨⟨h.bounds, h.size, h.dqlen, h.ireqxof, h.isntxof, h.idle, ?_⟩, rfl, rfl⟩
    refine .running 1 hring rfl Nat.one_pos hpos htail ?_
    rw [Tty.pending_write _ Nat.one_pos]
    show t.pending out ++ _ = _
    rw [hnone]
    rfl

/-! ## The ring -/

/-- Characters copied right behind a window extend it. -/
theorem window_copy {size first : Nat} (hfirst : first < size) (cs : List UInt8)
    (buf : Nat → UInt8) (start n : Nat) (hstart : cs ≠ [] → start = (first + n) % size)
    (hrow : start + cs.length ≤ size) (hroom : n + cs.length < size) :
    window (copy buf start cs) size first (n + cs.length) = window buf size first n ++ cs := by
  induction cs generalizing buf start n with
  | nil => exact (List.append_nil _).symm
  | cons c cs ih =>
    have hat : start = (first + n) % size := hstart (List.cons_ne_nil _ _)
    rw [List.length_cons] at hrow hroom ⊢
    have hnext : cs ≠ [] → start + 1 = (first + (n + 1)) % size := by
      intro hcs
      have hlen := List.length_pos_iff.mpr hcs
      rw [← Nat.add_assoc, Nat.add_mod, ← hat, Nat.add_mod_mod]
      exact (Nat.mod_eq_of_lt (by omega)).symm
    have hrest := ih (Function.update buf start c) (start + 1) (n + 1) hnext (by omega) (by omega)
    rw [copy, Nat.add_comm cs.length 1, ← Nat.add_assoc, hrest, hat,
      window_push hfirst (by omega), List.append_assoc]
    rfl

theorem outFull_false (h : t.rawOutBuf.InBounds) (hfull : outFull t = false) :
    (t.rawOutBuf.head + 1) % t.rawOutBuf.size ≠ t.rawOutBuf.tail := by
  have hhead := h.head
  unfold outFull at hfull
  simp only at hfull
  rw [mod_wrap (by omega)]
  intro heq
  rw [beq_eq_false_iff_ne] at hfull
  split at heq <;> split at hfull <;> omega

/-- The writer puts the first characters behind the others. -/
theorem putsChunk_spec (h : Flowing t out false) (hfull : outFull t = false) (c : UInt8)
    (cs : List UInt8) :
    Flowing (putsChunk t (c :: cs)).1 out false ∧
      (putsChunk t (c :: cs)).1.rawOutBuf.output =
        t.rawOutBuf.output ++ (c :: cs).take (putsChunk t (c :: cs)).2 := by
  have hhead := h.bounds.head
  have htail := h.bounds.tail
  have hnot := outFull_false h.bounds hfull
  have hspan : span t.rawOutBuf.size t.rawOutBuf.tail t.rawOutBuf.head =
      if t.rawOutBuf.head + t.rawOutBuf.size - t.rawOutBuf.tail < t.rawOutBuf.size then
        t.rawOutBuf.head + t.rawOutBuf.size - t.rawOutBuf.tail
      else t.rawOutBuf.head + t.rawOutBuf.size - t.rawOutBuf.tail - t.rawOutBuf.size :=
    mod_wrap (by omega)
  rw [mod_wrap (by omega)] at hnot
  unfold putsChunk
  simp only
  generalize hbuf : c :: cs = buf
  have hlen : 0 < buf.length := by
    rw [← hbuf]
    exact Nat.succ_pos _
  generalize havail : (if t.rawOutBuf.tail > t.rawOutBuf.head then
      t.rawOutBuf.tail - t.rawOutBuf.head - 1
    else if t.rawOutBuf.tail = 0 then t.rawOutBuf.size - t.rawOutBuf.head - 1
    else t.rawOutBuf.size - t.rawOutBuf.head) = nAvail
  generalize hcopy : (if buf.length > nAvail then nAvail else buf.length) = nToCopy
  have hbound : 0 < nToCopy ∧ nToCopy ≤ buf.length ∧ t.rawOutBuf.head + nToCopy ≤ t.rawOutBuf.size ∧
      span t.rawOutBuf.size t.rawOutBuf.tail t.rawOutBuf.head + nToCopy < t.rawOutBuf.size := by
    have havail' : 0 < nAvail ∧ t.rawOutBuf.head + nAvail ≤ t.rawOutBuf.size ∧
        span t.rawOutBuf.size t.rawOutBuf.tail t.rawOutBuf.head + nAvail < t.rawOutBuf.size := by
      rw [hspan]
      split at havail
      next => split at hnot <;> split <;> omega
      next => split at havail <;> split at hnot <;> split <;> omega
    split at hcopy <;> omega
  obtain ⟨hpos, hle, hrow, hroom⟩ := hbound
  have hwrap : (if t.rawOutBuf.head + nToCopy ≥ t.rawOutBuf.size then
      t.rawOutBuf.head + nToCopy - t.rawOutBuf.size
    else t.rawOutBuf.head + nToCopy) = (t.rawOutBuf.head + nToCopy) % t.rawOutBuf.size := by
    rw [mod_wrap (by omega)]
    split <;> split <;> omega
  rw [hwrap]
  generalize hring : ({ t.rawOutBuf with
      theBuf := copy t.rawOutBuf.theBuf t.rawOutBuf.head (buf.take nToCopy)
      head := (t.rawOutBuf.head + nToCopy) % t.rawOutBuf.size } : Rawbuf) = ring
  have htake : (buf.take nToCopy).length = nToCopy := by
    rw [List.length_take, Nat.min_eq_left hle]
  have hlast := span_succ_last htail hhead hroom
  have hbounds : ring.InBounds := by
    rw [← hring]
    exact ⟨Nat.mod_lt _ (by omega), htail⟩
  have hcontents : ring.output = t.rawOutBuf.output ++ buf.take nToCopy := by
    have hwindow := window_copy htail (buf.take nToCopy) t.rawOutBuf.theBuf t.rawOutBuf.head
      (span t.rawOutBuf.size t.rawOutBuf.tail t.rawOutBuf.head)
      (fun _ => (add_span htail hhead).symm) (by omega) (by omega)
    rw [← hring]
    unfold Rawbuf.output
    simp only
    rw [hlast]
    rwa [htake] at hwindow
  have htail' : ring.tail = t.rawOutBuf.tail := by rw [← hring]
  have hsize : ring.size = t.rawOutBuf.size := by rw [← hring]
  have hsize' : 2 ≤ ring.size := by
    rw [hsize]
    exact h.size
  have hspan' : span ring.size ring.tail ring.head =
      span t.rawOutBuf.size t.rawOutBuf.tail t.rawOutBuf.head + nToCopy := by
    rw [← hring]
    exact hlast
  have hne : ring.head ≠ ring.tail := by
    intro heq
    rw [heq, span_self] at hspan'
    omega
  split
  next hidle =>
    have heq := h.idle.mp hidle
    cases h.sending with
    | empty hempty hstop hnone =>
      have hspec := startXmit_spec (t := { t with rawOutBuf := ring }) hbounds hsize' h.dqlen
        h.ireqxof h.isntxof hne (fun hon => (hstop hon).resolve_right Bool.false_ne_true) hnone
        false false
      rw [htail'] at hspec
      refine ⟨hspec.1, ?_⟩
      rw [hspec.2.1]
      exact hcontents
    | running n hfilled hstop hpos hspan hrow hone => exact absurd heq hfilled
    | stopped hfilled hstop hreason hnone => exact absurd heq hfilled
  next hidle =>
    refine ⟨⟨hbounds, hsize', h.dqlen, h.ireqxof, h.isntxof, ?_, ?_⟩, hcontents⟩
    · exact ⟨fun heq => absurd heq hidle, fun heq => absurd heq hne⟩
    · cases h.sending with
      | empty hempty hstop hnone => exact absurd (h.idle.mpr hempty) hidle
      | running n hfilled hstop hpos hspan hrow hone =>
        refine .running n hne hstop hpos ?_ ?_ ?_
        · rw [hspan']
          omega
        · rw [htail', hsize]
          exact hrow
        · rw [htail']
          exact hone
      | stopped hfilled hstop hreason hnone => exact .stopped hne hstop hreason hnone

/-- A completion takes the characters that were sent from the ring. -/
theorem dequeueCharacters_spec (hbounds : t.rawOutBuf.InBounds) (hsize : 2 ≤ t.rawOutBuf.size)
    (hdqlen : t.dqlen = 0)
    (hireqxof : t.flow.ireqxof = false) (hisntxof : t.flow.isntxof = false)
    (hring : t.rawOutBuf.head ≠ t.rawOutBuf.tail) (hstop : t.flow.ostop = false)
    (hnone : t.pending out = []) (off : Bool) {k : Nat}
    (hk : k ≤ span t.rawOutBuf.size t.rawOutBuf.tail t.rawOutBuf.head)
    (hrow : t.rawOutBuf.tail + k ≤ t.rawOutBuf.size) :
    Flowing (dequeueCharacters t k).1 out off ∧
      t.rawOutBuf.output = ((List.range k).map fun i =>
        t.rawOutBuf.theBuf (t.rawOutBuf.tail + i)) ++ (dequeueCharacters t k).1.rawOutBuf.output ∧
      (dequeueCharacters t k).2.1 = decide (t.rawOutBufState = .wait) ∧
      (dequeueCharacters t k).1.flow.mdxon = t.flow.mdxon ∧
      (t.flow.orcvxof = false ∨ t.rawOutBuf.output.length ≤ k →
        (dequeueCharacters t k).1.flow = t.flow) := by
  have hhead := hbounds.head
  have htail := hbounds.tail
  have hfirst := span_succ_first htail hhead hk
  have hoff : (t.flow.mdxof && t.flow.ireqxof && !t.flow.isntxof) = false := by
    rw [hireqxof, Bool.and_false, Bool.false_and]
  have hon : (!t.flow.ireqxof && t.flow.isntxof) = false := by
    rw [hisntxof, Bool.and_false]
  unfold dequeueCharacters refillTransmitter
  simp only
  rw [hoff, hon, if_neg Bool.false_ne_true, if_neg Bool.false_ne_true, if_neg hring, hdqlen,
    Nat.zero_add]
  generalize hmove : ({ t.rawOutBuf with
    tail := (t.rawOutBuf.tail + k) % t.rawOutBuf.size } : Rawbuf) = ring
  have hbounds' : ring.InBounds := by
    rw [← hmove]
    exact ⟨hhead, Nat.mod_lt _ (by omega)⟩
  have hsize' : 2 ≤ ring.size := by
    rw [← hmove]
    exact hsize
  have hcontents : t.rawOutBuf.output = ((List.range k).map fun i =>
      t.rawOutBuf.theBuf (t.rawOutBuf.tail + i)) ++ ring.output := by
    rw [← hmove, ← window_row hrow]
    unfold Rawbuf.output
    simp only
    rw [hfirst, ← window_add, Nat.add_sub_cancel' hk]
  split
  next hdone =>
    have heq : ring.head = ring.tail := by
      rw [← hmove]
      exact hdone.symm
    refine ⟨⟨hbounds', hsize', rfl, hireqxof, hisntxof, ⟨fun _ => heq, fun _ => rfl⟩, ?_⟩,
      hcontents, rfl, rfl, fun _ => rfl⟩
    refine .empty heq (fun hon => Bool.noConfusion (hstop.symm.trans hon)) ?_
    rw [Tty.pending_stop]
    exact hnone
  next hmore =>
    have hne : ring.head ≠ ring.tail := by
      rw [← hmove]
      exact Ne.symm hmore
    have htail' : (t.rawOutBuf.tail + k) % t.rawOutBuf.size = ring.tail := by rw [← hmove]
    obtain ⟨hflowing, hsame, -, hmode, hflow⟩ :=
      startXmit_spec (t := { t with dqlen := 0, rawOutBuf := ring }) hbounds' hsize' rfl
        hireqxof hisntxof hne
        (fun hon => Bool.noConfusion (hstop.symm.trans hon)) hnone
        off true
    rw [htail']
    refine ⟨hflowing, ?_, rfl, hmode, ?_⟩
    · rw [hsame]
      exact hcontents
    · rintro (hclear | hshort)
      · exact hflow hclear
      · have hpos := span_pos hbounds' hne
        have hlength := congrArg List.length hcontents
        unfold Rawbuf.output at hshort hlength
        rw [List.length_append, List.length_map, List.length_range, length_window,
          length_window] at hlength
        rw [length_window] at hshort
        omega

/-! ## The receive interrupt handler -/

theorem checkHighwater_unrequested (h : t.flow.ireqxof = false) (newTail : Nat) :
    checkHighwater t newTail = t := by
  unfold checkHighwater
  simp only [h, Bool.false_and, Bool.false_eq_true, if_false]

/-- The loop with no flow control going on leaves the output side as it is. -/
theorem enqueueCharacter_ordinary (h : t.flow.ireqxof = false) {flowRcv : Bool} {c : UInt8}
    (hrcv : (receiveFlow t flowRcv c) = (t, flowRcv))
    (hstop : flowRcv = true → t.flow.ostop = true → t.flow.orcvxof = true) :
    ∃ r, (enqueueCharacter t flowRcv c).1 = { t with rawInBuf := r } := by
  unfold enqueueCharacter
  rw [hrcv]
  simp only
  split
  next hflow =>
    refine ⟨t.rawInBuf, ?_⟩
    rw [if_neg]
    intro hrestart
    rw [Bool.and_eq_true, Bool.not_eq_true'] at hrestart
    rw [hstop hflow hrestart.2] at hrestart
    exact Bool.noConfusion hrestart.1
  next =>
    rw [checkHighwater_unrequested h]
    split
    next => exact ⟨_, rfl⟩
    next => exact ⟨t.rawInBuf, rfl⟩

/-- A flow control character sets or clears what is known of XOFF. -/
theorem receiveFlow_xoff {c : UInt8} (h : IsFlow t c) (flowRcv : Bool) :
    ∃ x, receiveFlow t flowRcv c = ({ t with flow := { t.flow with orcvxof := x } }, true) ∧
      (¬ ChangesXoff t c → x = t.flow.orcvxof) := by
  obtain ⟨hmode, hc⟩ := id h
  unfold receiveFlow
  rw [if_pos hmode]
  split
  next hxoff =>
    split
    next hxon =>
      refine ⟨_, rfl, ?_⟩
      intro hnot
      exact absurd ⟨h, fun _ hne => absurd hxon hne, fun _ hne => absurd hxoff hne⟩ hnot
    next hxon =>
      refine ⟨true, rfl, ?_⟩
      intro hnot
      cases hcur : t.flow.orcvxof with
      | true => rfl
      | false => exact absurd ⟨h, fun _ _ => hcur, fun hon => absurd hon hxon⟩ hnot
  next hxoff =>
    have hxon : c = t.settings.vstart := hc.resolve_left hxoff
    rw [if_pos hxon]
    refine ⟨false, rfl, ?_⟩
    intro hnot
    cases hcur : t.flow.orcvxof with
    | false => rfl
    | true => exact absurd ⟨h, fun hoff => absurd hoff hxoff, fun _ _ => hcur⟩ hnot

/-- Characters that do not change what is known of XOFF change nothing. -/
theorem enqueueLoop_quiet (h : t.flow.ireqxof = false) {flowRcv : Bool}
    (hmode : flowRcv = true → t.flow.mdxon = true)
    (hstop : t.flow.mdxon = true → t.flow.ostop = true → t.flow.orcvxof = true)
    (dropped : Nat) {cs : List UInt8} (hcs : ∀ c ∈ cs, ¬ ChangesXoff t c) :
    ∃ r, (enqueueLoop t flowRcv dropped cs).1 = { t with rawInBuf := r } := by
  induction cs generalizing t flowRcv dropped with
  | nil => exact ⟨t.rawInBuf, rfl⟩
  | cons c cs ih =>
    have hc := hcs c List.mem_cons_self
    have hturn : ∃ r, (enqueueCharacter t flowRcv c).1 = { t with rawInBuf := r } := by
      by_cases hflow : IsFlow t c
      · obtain ⟨x, hreceive, hsame⟩ := receiveFlow_xoff hflow true
        have hagain :=
          (receiveFlow_flow hflow true).2.trans (receiveFlow_flow hflow flowRcv).2.symm
        rw [hsame hc] at hreceive
        have heq : enqueueCharacter t flowRcv c = enqueueCharacter t true c := by
          unfold enqueueCharacter
          rw [hagain]
        rw [heq]
        exact enqueueCharacter_ordinary h hreceive fun _ => hstop hflow.1
      · exact enqueueCharacter_ordinary h (receiveFlow_other hflow flowRcv)
          fun hrcv => hstop (hmode hrcv)
    obtain ⟨r, hr⟩ := hturn
    have hrcv := enqueueCharacter_flowRcv t flowRcv c
    have hmode' : (enqueueCharacter t flowRcv c).2.1 = true → t.flow.mdxon = true := by
      rw [hrcv, Bool.or_eq_true]
      rintro (hbefore | hflow)
      · exact hmode hbefore
      · exact (of_decide_eq_true hflow).1
    rw [enqueueLoop_cons, hr]
    exact ih (t := { t with rawInBuf := r }) h hmode' hstop _
      fun d hd => hcs d (List.mem_cons_of_mem _ hd)

/-- What a handler that receives characters keeps of the line. -/
structure Kept (t t' : Tty) : Prop where
  ring : t'.rawOutBuf = t.rawOutBuf
  state : t'.rawOutBufState = t.rawOutBufState
  mdxon : t'.flow.mdxon = t.flow.mdxon

theorem Kept.trans {t' t'' : Tty} (h : Kept t t') (h' : Kept t' t'') : Kept t t'' where
  ring := h'.ring.trans h.ring
  state := h'.state.trans h.state
  mdxon := h'.mdxon.trans h.mdxon

theorem Flowing.enqueueCharacter (h : Flowing t out false) (flowRcv : Bool) (c : UInt8) :
    Flowing (enqueueCharacter t flowRcv c).1 out false ∧
      Kept t (Termios.enqueueCharacter t flowRcv c).1 := by
  have hmode := (enqueueCharacter_frame t flowRcv c).2
  have hstop : t.flow.ostop = true → t.flow.orcvxof = true := by
    intro hstop
    cases h.sending with
    | empty hring hreason hnone => exact (hreason hstop).resolve_right Bool.false_ne_true
    | running n hring hrun hpos hspan hrow hone =>
      rw [hrun] at hstop
      exact Bool.noConfusion hstop
    | stopped hring hstopped hreason hnone =>
      exact hreason.resolve_right Bool.false_ne_true
  by_cases hflow : IsFlow t c
  · obtain ⟨x, hreceive, -⟩ := receiveFlow_xoff hflow flowRcv
    have hturn : (Termios.enqueueCharacter t flowRcv c).1 =
        if !x && t.flow.ostop then restartOutput { t with flow := { t.flow with orcvxof := x } }
        else { t with flow := { t.flow with orcvxof := x } } := by
      unfold Termios.enqueueCharacter
      rw [hreceive]
      rfl
    rw [hturn] at hmode ⊢
    split
    next hrestart =>
      rw [if_pos hrestart] at hmode
      rw [Bool.and_eq_true] at hrestart
      obtain ⟨hflowing, hring, hstate⟩ := h.restart hrestart.2 x false
      exact ⟨hflowing, hring, hstate, hmode⟩
    next hcontinue =>
      rw [if_neg hcontinue] at hmode
      rw [Bool.and_eq_true, Bool.not_eq_true', not_and_or] at hcontinue
      refine ⟨h.xoff (hcontinue.imp ?_ ?_), rfl, rfl, hmode⟩
      · exact fun hx => (Bool.not_eq_false x).mp hx
      · exact fun hrun => (Bool.not_eq_true _).mp hrun
  · obtain ⟨r, hr⟩ := enqueueCharacter_ordinary h.ireqxof (receiveFlow_other hflow flowRcv)
      fun _ => hstop
    rw [hr]
    exact ⟨⟨h.bounds, h.size, h.dqlen, h.ireqxof, h.isntxof, h.idle, h.sending⟩, rfl, rfl, rfl⟩

theorem Flowing.enqueueLoop (h : Flowing t out false) (flowRcv : Bool) (dropped : Nat)
    (cs : List UInt8) :
    Flowing (enqueueLoop t flowRcv dropped cs).1 out false ∧
      Kept t (Termios.enqueueLoop t flowRcv dropped cs).1 := by
  induction cs generalizing t flowRcv dropped with
  | nil => exact ⟨h, rfl, rfl, rfl⟩
  | cons c cs ih =>
    obtain ⟨hflowing, hkept⟩ := h.enqueueCharacter flowRcv c
    obtain ⟨hrest, hkept'⟩ := ih hflowing (Termios.enqueueCharacter t flowRcv c).2.1
      (dropped + (Termios.enqueueCharacter t flowRcv c).2.2)
    rw [enqueueLoop_cons]
    exact ⟨hrest, hkept.trans hkept'⟩

end Rtems.Termios
