import Rtems.Lib.Ring

/-!
# Terminals

The model of `termios.c` with the built-in line discipline: the raw input and
output rings, the flow control flags, and the routines that interrupt handlers
and tasks run on them, cut where the device lock is taken and given back.  The
callbacks that tell a user about progress, the POSIX settings that these
routines do not read, and the echo of the input are left out.
-/

namespace Rtems.Termios

/-- The bits of `flow_ctrl`. -/
structure FlowCtrl where
  /-- The input queue requests a stop of incoming data. -/
  ireqxof : Bool
  /-- XOFF has been sent to the other side. -/
  isntxof : Bool
  /-- RTS has been turned off for the other side. -/
  irtsoff : Bool
  /-- XOFF has been received. -/
  orcvxof : Bool
  /-- Output has been stopped due to XOFF. -/
  ostop : Bool
  mdrts : Bool
  mdxon : Bool
  mdxof : Bool
deriving DecidableEq, Repr

/-- `struct termios`: the bits of `c_iflag` and `c_lflag` that the input uses,
and `c_cc`. -/
structure Settings where
  istrip : Bool
  iuclc : Bool
  igncr : Bool
  icrnl : Bool
  inlcr : Bool
  icanon : Bool
  verase : UInt8
  vkill : UInt8
  veof : UInt8
  veol : UInt8
  veol2 : UInt8
  vstart : UInt8
  vstop : UInt8
  vmin : UInt8
deriving DecidableEq, Repr

/-- `struct rtems_termios_rawbuf`. -/
structure Rawbuf where
  theBuf : Nat → UInt8
  head : Nat
  tail : Nat
  size : Nat

/-- The states of the raw output buffer. -/
inductive RobState where
  | idle
  | busy
  | wait
deriving DecidableEq, Repr

/-- A call of the device. -/
inductive DeviceCall where
  /-- `write` of `count` characters of the output ring. -/
  | write (start count : Nat)
  /-- `write` of nothing. -/
  | stop
  /-- `write` of `c_cc[VSTOP]`. -/
  | xoff
  /-- `write` of `c_cc[VSTART]`. -/
  | xon
  | stopRemoteTx
  | startRemoteTx
deriving DecidableEq, Repr

/-- `struct rtems_termios_tty`, and the calls of its device, the latest one
first. -/
structure Tty where
  settings : Settings
  flow : FlowCtrl
  rawInBuf : Rawbuf
  /-- The count of the simple binary semaphore of the input ring. -/
  rawInBufSemaphore : Bool
  rawInBufDropped : Nat
  rawOutBuf : Rawbuf
  rawOutBufState : RobState
  dqlen : Nat
  lowwater : Nat
  highwater : Nat
  /-- `flow.stop_remote_tx` and `flow.start_remote_tx` are not null. -/
  stopRemoteTx : Bool
  startRemoteTx : Bool
  calls : List DeviceCall

/-- The device is called. -/
def Tty.call (t : Tty) (c : DeviceCall) : Tty := { t with calls := c :: t.calls }

/-- The default parameters of `rtems_termios_open_tty`. -/
def defaultSettings : Settings where
  istrip := false
  iuclc := false
  igncr := false
  icrnl := true
  inlcr := false
  icanon := true
  verase := 127
  vkill := 21
  veof := 4
  veol := 0
  veol2 := 0
  vstart := 17
  vstop := 19
  vmin := 0

/-- No flow control. -/
def noFlowCtrl : FlowCtrl where
  ireqxof := false
  isntxof := false
  irtsoff := false
  orcvxof := false
  ostop := false
  mdrts := false
  mdxon := false
  mdxof := false

/-- The terminal that `rtems_termios_open_tty` sets up, for rings of these
sizes. -/
def openTty (rawInSize rawOutSize : Nat) (stopRemoteTx startRemoteTx : Bool) : Tty where
  settings := defaultSettings
  flow := noFlowCtrl
  rawInBuf := { theBuf := fun _ => 0, head := 0, tail := 0, size := rawInSize }
  rawInBufSemaphore := false
  rawInBufDropped := 0
  rawOutBuf := { theBuf := fun _ => 0, head := 0, tail := 0, size := rawOutSize }
  rawOutBufState := .idle
  dqlen := 0
  lowwater := rawInSize * 1 / 2
  highwater := rawInSize * 3 / 4
  stopRemoteTx := stopRemoteTx
  startRemoteTx := startRemoteTx
  calls := []

/-! ## Output -/

/-- `startXmit`, with the number of characters to send. -/
def startXmit (t : Tty) (newTail : Nat) (transmitting : Bool) : Tty × Nat :=
  let t := { t with rawOutBufState := .busy }
  if t.flow.orcvxof then
    let t := { t with flow := { t.flow with ostop := true } }
    (if transmitting then t.call .stop else t, 0)
  else
    let nToSend :=
      if t.flow.mdxon || t.flow.mdxof then 1
      else if newTail > t.rawOutBuf.head then t.rawOutBuf.size - newTail
      else t.rawOutBuf.head - newTail
    (t.call (.write newTail nToSend), nToSend)

/-- The loop condition of `rtems_termios_puts`: the ring is full. -/
def outFull (t : Tty) : Bool :=
  let newHead := t.rawOutBuf.head + 1
  let newHead := if newHead ≥ t.rawOutBuf.size then newHead - t.rawOutBuf.size else newHead
  newHead == t.rawOutBuf.tail

/-- `memcpy` into the ring, with no wrap around. -/
def copy (theBuf : Nat → UInt8) (start : Nat) : List UInt8 → Nat → UInt8
  | [] => theBuf
  | c :: cs => copy (Function.update theBuf start c) (start + 1) cs

/-- The part of the loop of `rtems_termios_puts` that follows the wait, with the
number of characters that it takes. -/
def putsChunk (t : Tty) (buf : List UInt8) : Tty × Nat :=
  let nAvail :=
    if t.rawOutBuf.tail > t.rawOutBuf.head then t.rawOutBuf.tail - t.rawOutBuf.head - 1
    else if t.rawOutBuf.tail = 0 then t.rawOutBuf.size - t.rawOutBuf.head - 1
    else t.rawOutBuf.size - t.rawOutBuf.head
  let nToCopy := if buf.length > nAvail then nAvail else buf.length
  let newHead := t.rawOutBuf.head + nToCopy
  let newHead := if newHead ≥ t.rawOutBuf.size then newHead - t.rawOutBuf.size else newHead
  let t := { t with
    rawOutBuf := { t.rawOutBuf with
      theBuf := copy t.rawOutBuf.theBuf t.rawOutBuf.head (buf.take nToCopy)
      head := newHead } }
  (if t.rawOutBufState = .idle then (startXmit t t.rawOutBuf.tail false).1 else t, nToCopy)

/-- `rtems_termios_refill_transmitter`, whether it wakes up a writer, and the
number of characters to send. -/
def refillTransmitter (t : Tty) : Tty × Bool × Nat :=
  if t.flow.mdxof && t.flow.ireqxof && !t.flow.isntxof then
    let t := t.call .xoff
    ({ t with dqlen := t.dqlen - 1, flow := { t.flow with isntxof := true } }, false, 1)
  else if !t.flow.ireqxof && t.flow.isntxof then
    let t := t.call .xon
    ({ t with dqlen := t.dqlen - 1, flow := { t.flow with isntxof := false } }, false, 1)
  else if t.rawOutBuf.head = t.rawOutBuf.tail then
    (t.call .stop, decide (t.rawOutBufState = .wait), 0)
  else
    let newTail := (t.rawOutBuf.tail + t.dqlen) % t.rawOutBuf.size
    let wakeUpWriterTask := decide (t.rawOutBufState = .wait)
    let t := { t with dqlen := 0, rawOutBuf := { t.rawOutBuf with tail := newTail } }
    if newTail = t.rawOutBuf.head then
      (({ t with rawOutBufState := .idle }).call .stop, wakeUpWriterTask, 0)
    else
      let (t, nToSend) := startXmit t newTail true
      (t, wakeUpWriterTask, nToSend)

/-- `rtems_termios_dequeue_characters` of an interrupt-driven device. -/
def dequeueCharacters (t : Tty) (len : Nat) : Tty × Bool × Nat :=
  refillTransmitter { t with dqlen := t.dqlen + len }

/-- The critical section that makes the output go on after a stop. -/
def restartOutput (t : Tty) : Tty :=
  let t := { t with flow := { t.flow with ostop := false } }
  if t.rawOutBufState ≠ .idle then t.call (.write t.rawOutBuf.tail 1) else t

/-! ## Input -/

/-- The first part of the loop of `rtems_termios_enqueue_raw_characters`, with
the value it leaves in `flow_rcv`. -/
def receiveFlow (t : Tty) (flowRcv : Bool) (c : UInt8) : Tty × Bool :=
  if t.flow.mdxon then
    if c = t.settings.vstop then
      if c = t.settings.vstart then
        ({ t with flow := { t.flow with orcvxof := !t.flow.orcvxof } }, true)
      else ({ t with flow := { t.flow with orcvxof := true } }, true)
    else if c = t.settings.vstart then
      ({ t with flow := { t.flow with orcvxof := false } }, true)
    else (t, flowRcv)
  else (t, flowRcv)

/-- The check of the high water mark. -/
def checkHighwater (t : Tty) (newTail : Nat) : Tty :=
  if t.flow.ireqxof &&
      decide ((newTail + t.rawInBuf.size - t.rawInBuf.head) % t.rawInBuf.size > t.highwater) then
    let t := { t with flow := { t.flow with ireqxof := true } }
    if t.flow.mdxof && !t.flow.isntxof then
      if t.flow.ostop || decide (t.rawOutBufState = .idle) then
        ({ t with flow := { t.flow with isntxof := true } }).call .xoff
      else t
    else if t.flow.mdrts && !t.flow.irtsoff then
      let t := { t with flow := { t.flow with irtsoff := true } }
      if t.stopRemoteTx then t.call .stopRemoteTx else t
    else t
  else t

/-- One turn of the loop of `rtems_termios_enqueue_raw_characters`, with the
value it leaves in `flow_rcv` and the number of characters it drops. -/
def enqueueCharacter (t : Tty) (flowRcv : Bool) (c : UInt8) : Tty × Bool × Nat :=
  let (t, flowRcv) := receiveFlow t flowRcv c
  if flowRcv then
    (if !t.flow.orcvxof && t.flow.ostop then restartOutput t else t, flowRcv, 0)
  else
    let newTail := (t.rawInBuf.tail + 1) % t.rawInBuf.size
    let t := checkHighwater t newTail
    if newTail ≠ t.rawInBuf.head then
      ({ t with
        rawInBuf := { t.rawInBuf with
          theBuf := Function.update t.rawInBuf.theBuf newTail c
          tail := newTail } }, flowRcv, 0)
    else (t, flowRcv, 1)

/-- The loop of `rtems_termios_enqueue_raw_characters`. -/
def enqueueLoop (t : Tty) (flowRcv : Bool) (dropped : Nat) : List UInt8 → Tty × Nat
  | [] => (t, dropped)
  | c :: cs =>
    let (t, flowRcv, d) := enqueueCharacter t flowRcv c
    enqueueLoop t flowRcv (dropped + d) cs

/-- What follows the loop. -/
def enqueueEnd (t : Tty) (dropped : Nat) : Tty :=
  { t with rawInBufDropped := t.rawInBufDropped + dropped, rawInBufSemaphore := true }

/-- `rtems_termios_enqueue_raw_characters`, with the number of characters
dropped. -/
def enqueueRawCharacters (t : Tty) (buf : List UInt8) : Tty × Nat :=
  let (t, dropped) := enqueueLoop t false 0 buf
  (enqueueEnd t dropped, dropped)

/-- The check of the low water mark. -/
def checkLowwater (t : Tty) (newHead : Nat) : Tty :=
  if (t.rawInBuf.tail + t.rawInBuf.size - newHead) % t.rawInBuf.size < t.lowwater then
    let t := { t with flow := { t.flow with ireqxof := false } }
    if t.flow.mdxon && t.flow.isntxof &&
        (decide (t.rawOutBufState = .idle) || t.flow.ostop) then
      t.call .xon
    else if t.flow.mdrts then
      let t := { t with flow := { t.flow with irtsoff := false } }
      if t.startRemoteTx then t.call .startRemoteTx else t
    else t
  else t

/-- The critical section of the loop of `fillBufferQueue`, which takes a
character from the ring if there is one. -/
def takeRaw (t : Tty) : Option (UInt8 × Tty) :=
  if t.rawInBuf.head ≠ t.rawInBuf.tail then
    let newHead := (t.rawInBuf.head + 1) % t.rawInBuf.size
    let t := { t with rawInBuf := { t.rawInBuf with head := newHead } }
    some (t.rawInBuf.theBuf newHead, checkLowwater t newHead)
  else none

/-! ## The rings as queues -/

/-- The positions of the ring are inside it. -/
structure Rawbuf.InBounds (r : Rawbuf) : Prop where
  head : r.head < r.size
  tail : r.tail < r.size

/-- The characters of an input ring, the first one that is to be read first. -/
def Rawbuf.input (r : Rawbuf) : List UInt8 :=
  Lib.window r.theBuf r.size ((r.head + 1) % r.size) (Lib.span r.size r.head r.tail)

/-- The characters of an output ring, the first one that is to be sent first. -/
def Rawbuf.output (r : Rawbuf) : List UInt8 :=
  Lib.window r.theBuf r.size r.tail (Lib.span r.size r.tail r.head)

open Lib

variable {r : Rawbuf}

theorem Rawbuf.InBounds.next (h : r.InBounds) (n : Nat) : n % r.size < r.size := by
  have hhead := h.head
  exact Nat.mod_lt _ (by omega)

/-- A character that is appended comes last. -/
theorem Rawbuf.input_append (h : r.InBounds) (hroom : (r.tail + 1) % r.size ≠ r.head) (c : UInt8) :
    Rawbuf.input { r with
      theBuf := Function.update r.theBuf ((r.tail + 1) % r.size) c
      tail := (r.tail + 1) % r.size } = r.input ++ [c] := by
  have hspan := span_succ_lt h.head h.tail hroom
  have hlead : ((r.head + 1) % r.size + span r.size r.head r.tail) % r.size =
      (r.tail + 1) % r.size := by
    rw [offset_offset, Nat.add_comm 1, ← offset_offset, add_span h.head h.tail]
  unfold Rawbuf.input
  simp only
  rw [span_succ_last h.head h.tail hspan, ← hlead]
  exact window_push (h.next _) (by omega) c

/-- The ring is full when there is no room for a character. -/
theorem Rawbuf.length_input_full (h : r.InBounds) (hfull : (r.tail + 1) % r.size = r.head) :
    r.input.length = r.size - 1 := by
  unfold Rawbuf.input
  rw [length_window, span_full h.head h.tail hfull]

/-- The character that is taken is the first one. -/
theorem Rawbuf.input_take (h : r.InBounds) (hne : r.head ≠ r.tail) :
    r.input = r.theBuf ((r.head + 1) % r.size) ::
      Rawbuf.input { r with head := (r.head + 1) % r.size } := by
  have hpos : span r.size r.head r.tail ≠ 0 := (span_eq_zero h.head h.tail).not.mpr hne
  have hspan : span r.size ((r.head + 1) % r.size) r.tail = span r.size r.head r.tail - 1 :=
    span_succ_first h.head h.tail (by omega)
  unfold Rawbuf.input
  simp only
  rw [hspan, ← window_cons (h.next _), Nat.sub_add_cancel (by omega)]

end Rtems.Termios
