import Rtems.Termios.OutputRuns

/-!
# Output that is flushed

RTEMS_IO_TCFLUSH empties the rings while it holds the output semaphore.
`flushOutput` sets the output ring to nothing and idle, but the device goes on
with the characters that it was given.  Its report is added to `t_dqlen` and not
used as long as the ring is empty, so it moves the tail over characters that come
later.
-/

namespace Rtems.Termios

open Lib

/-- `flushOutput`. -/
def flushOutput (t : Tty) : Tty :=
  { t with
    rawOutBuf := { t.rawOutBuf with tail := 0, head := 0 }
    rawOutBufState := .idle }

/-- `flushInput`. -/
def flushInput (t : Tty) : Tty := { t with rawInBuf := { t.rawInBuf with tail := 0, head := 0 } }

/-- A step of the line.  TCOFLUSH flushes the output and TCIFLUSH the input, and TCIOFLUSH does the
one and then the other. -/
inductive FlushEvent where
  | line (e : OutEvent)
  | flushOutput
  | flushInput
deriving DecidableEq, Repr

/-- What was given and not transmitted is given up. -/
def OutLine.forget (s : OutLine) : OutLine := { s with given := s.transmitted }

def OutLine.flushStep (s : OutLine) : FlushEvent → OutLine
  | .line e => s.step e
  | .flushOutput =>
    match s.task with
    | .idle => { s with tty := Termios.flushOutput s.tty }.forget
    | _ => s
  | .flushInput =>
    match s.task with
    | .idle => { s with tty := Termios.flushInput s.tty }
    | _ => s

/-- The output is flushed when the device owes no report, and no interrupt comes into an assignment
to `flow_ctrl`. -/
def Settled (s : OutLine) : FlushEvent → Prop
  | .line e => Undisturbed s e
  | .flushOutput => s.task = .idle → s.outstanding = []
  | .flushInput => True

variable {s : OutLine} {t : Tty} {out : List (Nat × Nat)}

theorem output_flushed (t : Tty) : (flushOutput t).rawOutBuf.output = [] := by
  show window _ _ 0 (span _ 0 0) = []
  rw [span_self]
  rfl

/-- With no report owed the line is as good as new. -/
theorem OutLine.Inv.flush (h : s.Inv) (htask : s.task = .idle) (hout : s.outstanding = []) :
    OutLine.Inv (OutLine.forget { s with tty := flushOutput s.tty }) := by
  have hflowing := h.flowing
  rw [htask] at hflowing
  have hpositive := Nat.lt_of_lt_of_le Nat.zero_lt_two hflowing.size
  have hnone : s.tty.pending s.outstanding = [] := by
    rw [h.pending]
    exact hout
  have hstopped : s.tty.flow.ostop = true → s.tty.flow.orcvxof = true :=
    fun hstop => (hflowing.reason hstop).resolve_right Bool.false_ne_true
  constructor
  case order =>
    show s.transmitted = s.transmitted ++ (flushOutput s.tty).rawOutBuf.output ++ s.task.rest
    rw [output_flushed, htask]
    exact (List.append_nil _).symm.trans (List.append_nil _).symm
  case calls => exact h.calls
  case flowing =>
    show Flowing (flushOutput s.tty) s.outstanding s.task.restarts
    rw [htask]
    constructor
    case bounds => exact ⟨hpositive, hpositive⟩
    case size => exact hflowing.size
    case dqlen => exact hflowing.dqlen
    case ireqxof => exact hflowing.ireqxof
    case isntxof => exact hflowing.isntxof
    case idle => exact ⟨fun _ => rfl, fun _ => rfl⟩
    case sending => exact .empty rfl (fun hstop => .inl (hstopped hstop)) hnone
  case waits =>
    intro hwaits
    have hwaits : s.task.waits = true := hwaits
    rw [htask] at hwaits
    exact Bool.noConfusion hwaits
  case off =>
    intro hoff
    have hoff : s.task.restarts = true := hoff
    rw [htask] at hoff
    exact Bool.noConfusion hoff
  case stop =>
    intro loaded m hset
    exact absurd (htask.symm.trans hset) (fun hfalse => by cases hfalse)
  case held =>
    intro p v m hset
    exact absurd (htask.symm.trans hset) (fun hfalse => by cases hfalse)

theorem OutLine.Inv.flushInput (h : s.Inv) :
    OutLine.Inv { s with tty := Termios.flushInput s.tty } where
  order := h.order
  calls := h.calls
  flowing := ⟨h.flowing.bounds, h.flowing.size, h.flowing.dqlen, h.flowing.ireqxof,
    h.flowing.isntxof, h.flowing.idle, h.flowing.sending⟩
  waits := h.waits
  off := h.off
  stop := h.stop
  held := h.held

theorem OutLine.Inv.flushStep (h : s.Inv) {e : FlushEvent} (hsettled : Settled s e) :
    (s.flushStep e).Inv := by
  cases e with
  | line e => exact h.step hsettled
  | flushOutput =>
    unfold OutLine.flushStep
    dsimp only
    split
    next htask => exact h.flush htask (hsettled htask)
    next => exact h
  | flushInput =>
    unfold OutLine.flushStep
    dsimp only
    split
    next => exact h.flushInput
    next => exact h

variable {rawInSize rawOutSize : Nat} {stopRemoteTx startRemoteTx : Bool}

/-- When the device owes no report at any flush, what is given after a flush streams. -/
theorem flushed_output_streams (hsize : 2 ≤ rawOutSize) (events : List FlushEvent)
    (hrun : Along OutLine.flushStep Settled
      (.start (openTty rawInSize rawOutSize stopRemoteTx startRemoteTx)) events) :
    ∀ s ∈ states OutLine.flushStep
      (.start (openTty rawInSize rawOutSize stopRemoteTx startRemoteTx)) events, Streams s := by
  intro s hs
  refine (forall_states ?_ (OutLine.Inv.start hsize) hrun s hs).streams
  intro s' e h hsettled
  exact h.flushStep hsettled

/-- A character is sent and reported, another one is flushed while the output is stopped, and a
third one is sent when it goes on. -/
def flushedOutput : List FlushEvent :=
  switchOnXon.map .line ++ [.line (.puts [97]), .line .task, .line .task, .line (.sent 1),
    .line (.received [19]), .line (.puts [98]), .line .task, .line .task, .flushOutput,
    .line (.puts [99]), .line .task, .line .task, .line (.received [17]), .line (.sent 1)]

theorem flushed_output_streams_stopped :
    (flushedOutput.foldl OutLine.flushStep (.start (openTty 8 4 false false))).transmitted =
      [97, 99] ∧
    ∀ s ∈ states OutLine.flushStep (.start (openTty 8 4 false false)) flushedOutput, Streams s := by
  refine ⟨by decide, flushed_output_streams (by decide) _ ?_⟩
  refine ⟨undisturbed_outside rfl _, ?_⟩
  iterate 5 refine ⟨undisturbed_task _, ?_⟩
  iterate 8 refine ⟨undisturbed_outside rfl _, ?_⟩
  refine ⟨fun _ => rfl, ?_⟩
  iterate 5 refine ⟨undisturbed_outside rfl _, ?_⟩
  exact trivial

/-! ## A report that is owed -/

/-- The report of characters that were flushed. -/
theorem dequeueCharacters_flushed (hflowing : Flowing t out false) (n : Nat) :
    (dequeueCharacters (flushOutput t) n).1 =
      { flushOutput t with dqlen := n, calls := .stop :: t.calls } := by
  unfold dequeueCharacters refillTransmitter flushOutput Tty.call
  simp [hflowing.ireqxof, hflowing.isntxof, hflowing.dqlen]

/-- A character that comes to a ring that was flushed. -/
theorem putsChunk_flushed (hsize : 2 ≤ t.rawOutBuf.size) (hxoff : t.flow.orcvxof = false)
    (dqlen : Nat) (c : UInt8) :
    let t' := { flushOutput t with dqlen := dqlen, calls := [] }
    outFull t' = false ∧ (putsChunk t' [c]).2 = 1 ∧
      (putsChunk t' [c]).1 =
        { t' with
          rawOutBuf := ⟨Function.update t.rawOutBuf.theBuf 0 c, 1, 0, t.rawOutBuf.size⟩
          rawOutBufState := .busy
          calls := [.write 0 1] } := by
  have hmore : ¬ t.rawOutBuf.size ≤ 1 := by omega
  have hroom : ¬ 1 > t.rawOutBuf.size - 1 := by omega
  refine ⟨?_, ?_, ?_⟩
  · simp [outFull, flushOutput, hmore]
  · simp [putsChunk, flushOutput, hroom]
  · simp [putsChunk, flushOutput, hroom, hmore, startXmit, hxoff, Tty.call, copy]

theorem startXmit_ring (t : Tty) (newTail : Nat) (transmitting : Bool) :
    (startXmit t newTail transmitting).1.rawOutBuf = t.rawOutBuf := by
  unfold startXmit
  simp only
  split
  next =>
    split
    next => rfl
    next => rfl
  next => rfl

/-- A report moves the tail by all the characters that are owed. -/
theorem dequeueCharacters_ring (hireqxof : t.flow.ireqxof = false)
    (hisntxof : t.flow.isntxof = false) (hring : t.rawOutBuf.head ≠ t.rawOutBuf.tail) (k : Nat) :
    (dequeueCharacters t k).1.rawOutBuf =
      { t.rawOutBuf with tail := (t.rawOutBuf.tail + (t.dqlen + k)) % t.rawOutBuf.size } := by
  unfold dequeueCharacters refillTransmitter
  simp only [hireqxof, hisntxof, Bool.and_false, Bool.false_and, Bool.false_eq_true, if_false,
    if_neg hring]
  split
  next => rfl
  next => exact startXmit_ring _ _ _

/-- A character that is put after the report of characters that were flushed does not go out just
once. -/
theorem OutLine.Inv.owed (h : s.Inv) (htask : s.task = .idle) (hout : s.outstanding ≠ [])
    (hxoff : s.tty.flow.orcvxof = false) (c : UInt8) : ∃ n,
    let late := (({ s with tty := flushOutput s.tty } : OutLine).sent n).forget
    late.outstanding = [] ∧
      ¬ Streams (([.puts [c], .task, .sent 1] : List OutEvent).foldl OutLine.step late) := by
  obtain ⟨⟨start, n⟩, rest, hcons⟩ := List.exists_cons_of_ne_nil hout
  obtain ⟨hring, hstop, hspan, hrow, -, rfl⟩ := h.outstanding hcons
  have hflowing := h.flowing
  rw [htask] at hflowing
  have hpos : 0 < n := by
    have hsending := hflowing.sending
    rw [h.pending, hcons] at hsending
    cases hsending with
    | empty hring hreason hnone => cases hnone
    | running n' hring hrun hpos hspan hrow hone =>
      cases hone
      exact hpos
    | stopped hring hstopped hreason hnone => cases hnone
  have hlt : n < s.tty.rawOutBuf.size := by
    have hless := Nat.lt_of_le_of_lt hspan (Nat.mod_lt _ (by have := hflowing.size; omega))
    exact hless
  obtain ⟨hfull, hcount, hchunk⟩ := putsChunk_flushed hflowing.size hxoff n c
  generalize ht : ({ flushOutput s.tty with dqlen := n, calls := [] } : Tty) = t at *
  have hlate : ∃ semaphore sent,
      (({ s with tty := flushOutput s.tty } : OutLine).sent n).forget =
        ⟨t, semaphore, .idle, [], sent, sent⟩ := by
    refine ⟨s.semaphore || (dequeueCharacters (flushOutput s.tty) n).2.1,
      s.transmitted ++ (List.range n).map fun i => s.tty.rawOutBuf.theBuf (start + i), ?_⟩
    rw [OutLine.sent_of { s with tty := flushOutput s.tty } hcons hpos le_rfl,
      dequeueCharacters_flushed hflowing, h.calls, ← ht, htask]
    rfl
  obtain ⟨semaphore, sent, hlate⟩ := hlate
  refine ⟨n, ?_⟩
  rw [hlate]
  refine ⟨rfl, ?_⟩
  -- The character goes to the start of the ring, and the device gets it.
  have hput : OutLine.taskStep ⟨t, semaphore, .puts [c], [], sent ++ [c], sent⟩ =
      ⟨{ t with
          rawOutBuf := ⟨Function.update s.tty.rawOutBuf.theBuf 0 c, 1, 0, s.tty.rawOutBuf.size⟩
          rawOutBufState := .busy
          calls := [] }, semaphore, .puts [], [(0, 1)], sent ++ [c], sent⟩ := by
    unfold OutLine.taskStep
    simp only
    rw [hfull, if_neg Bool.false_ne_true, hchunk, hcount]
    rfl
  show ¬ Streams (OutLine.sent (OutLine.taskStep ⟨t, semaphore, .puts [c], [], sent ++ [c], sent⟩) 1)
  rw [hput, OutLine.sent_of _ rfl Nat.one_pos le_rfl]
  intro hstreams
  have horder := congrArg List.length hstreams.order
  have hrun : t.flow.ireqxof = false ∧ t.flow.isntxof = false ∧ t.dqlen = n := by
    rw [← ht]
    exact ⟨hflowing.ireqxof, hflowing.isntxof, rfl⟩
  generalize ht' : ({ t with
    rawOutBuf := ⟨Function.update s.tty.rawOutBuf.theBuf 0 c, 1, 0, s.tty.rawOutBuf.size⟩
    rawOutBufState := .busy
    calls := [] } : Tty) = t' at *
  have hring' := dequeueCharacters_ring (t := t') (by rw [← ht']; exact hrun.1)
    (by rw [← ht']; exact hrun.2.1) (by rw [← ht']; exact Nat.one_ne_zero) 1
  have hempty : (dequeueCharacters t' 1).1.rawOutBuf.output.length = 0 := by
    have hlengths : (sent ++ [c]).length =
        (sent ++ (List.range 1).map (fun i => t'.rawOutBuf.theBuf (0 + i)) ++
          (dequeueCharacters t' 1).1.rawOutBuf.output ++ []).length := horder
    simp only [List.length_append, List.length_map, List.length_range, List.length_singleton,
      List.length_nil] at hlengths
    omega
  rw [hring', ← ht'] at hempty
  unfold Rawbuf.output at hempty
  simp only at hempty
  rw [length_window, hrun.2.2, Nat.zero_add] at hempty
  -- The tail is one behind the head at least, or at the start again.
  have htail : (n + 1) % s.tty.rawOutBuf.size = 1 :=
    (span_eq_zero (Nat.mod_lt _ (by omega)) (by omega)).mp hempty
  rcases Nat.lt_or_ge (n + 1) s.tty.rawOutBuf.size with hless | hmore
  · rw [Nat.mod_eq_of_lt hless] at htail
    omega
  · have heq : n + 1 = s.tty.rawOutBuf.size := by omega
    rw [heq, Nat.mod_self] at htail
    omega

/-- Two characters are given to the device, flushed and reported. -/
theorem flushed_output_owed : ¬ ∀ (events later : List OutEvent) (n : Nat) (s : OutLine),
    Along OutLine.step Undisturbed (.start (openTty 8 8 false false)) events →
    s = events.foldl OutLine.step (.start (openTty 8 8 false false)) → s.task = .idle →
    (({ s with tty := flushOutput s.tty } : OutLine).sent n).outstanding = [] →
    Along OutLine.step Undisturbed
      (({ s with tty := flushOutput s.tty } : OutLine).sent n).forget later →
    ∀ s' ∈ states OutLine.step (({ s with tty := flushOutput s.tty } : OutLine).sent n).forget later,
      Streams s' := by
  intro h
  have hstreams := h [.puts [97, 98], .task, .task] [.puts [99], .task, .sent 1] 2 _
    ⟨undisturbed_outside rfl _, undisturbed_task _, undisturbed_task _, trivial⟩ rfl rfl rfl
    ⟨undisturbed_outside rfl _, undisturbed_task _, undisturbed_outside rfl _, trivial⟩ _
    mem_states_foldl
  exact absurd hstreams.order (by decide)

end Rtems.Termios
