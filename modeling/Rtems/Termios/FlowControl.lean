import Rtems.Termios.Input

/-!
# Stopping the other side

When the raw input ring fills up, the receive interrupt handler is to ask the
other side to stop, with XOFF or with the RTS line, and a reader that makes room
is to let it go on.  The handler looks at its request flag before it sets it, so
the request is never made.
-/

namespace Rtems.Termios

open Lib

/-! ## What the other side was told -/

def isXonXoff : DeviceCall → Bool
  | .xoff => true
  | .xon => true
  | _ => false

def isRemoteTx : DeviceCall → Bool
  | .stopRemoteTx => true
  | .startRemoteTx => true
  | _ => false

/-- XOFF was written after the last XON. -/
def XoffSent (t : Tty) : Prop := t.calls.find? isXonXoff = some .xoff

/-- The remote transmitter was stopped and not started again. -/
def RemoteStopped (t : Tty) : Prop := t.calls.find? isRemoteTx = some .stopRemoteTx

/-- The other side was asked to stop: the request is noted, under IXOFF the XOFF
was written or the next refill writes it, and under CRTSCTS alone the remote
transmitter was stopped. -/
structure StopAsked (t : Tty) : Prop where
  requested : t.flow.ireqxof = true
  xoff : t.flow.mdxof = true → XoffSent t ∨ t.flow.isntxof = false
  rts : t.flow.mdxof = false → t.flow.mdrts = true → t.stopRemoteTx = true → RemoteStopped t

/-- The other side is free to send: after an XOFF the next refill writes XON,
and the remote transmitter is not stopped. -/
structure Resumed (t : Tty) : Prop where
  xon : XoffSent t → t.flow.ireqxof = false ∧ t.flow.isntxof = true
  rts : ¬ RemoteStopped t

/-- XOFF and XON take turns, and XOFF comes first. -/
def Alternating (calls : List DeviceCall) : Prop :=
  (calls.filter isXonXoff).IsChain (· ≠ ·) ∧ (calls.filter isXonXoff).getLast? ≠ some .xon

/-! ## Runs of a line -/

/-- What happens to a line. -/
inductive LineEvent where
  /-- The receive interrupt handler gets these characters. -/
  | received (buf : List UInt8)
  /-- A reader takes a character from the ring. -/
  | read
  /-- The device has sent this many characters. -/
  | sent (len : Nat)
  /-- A writer puts characters into the output ring. -/
  | put (buf : List UInt8)
  /-- A writer finds the output ring full. -/
  | block
deriving DecidableEq, Repr

/-- A line, and what happened last. -/
structure Line where
  tty : Tty
  last : Option LineEvent

def Line.start (t : Tty) : Line where
  tty := t
  last := none

def lineStep (t : Tty) : LineEvent → Tty
  | .received buf => (enqueueRawCharacters t buf).1
  | .read =>
    match takeRaw t with
    | some (_, t) => t
    | none => t
  | .sent len => (dequeueCharacters t len).1
  | .put buf => if outFull t then t else (putsChunk t buf).1
  | .block => if outFull t then { t with rawOutBufState := .wait } else t

def Line.step (s : Line) (e : LineEvent) : Line where
  tty := lineStep s.tty e
  last := some e

/-- The property of a state, by what happened last. -/
structure Controlled (s : Line) : Prop where
  stop : ∀ buf, s.last = some (.received buf) →
    s.tty.highwater < s.tty.rawInBuf.input.length → StopAsked s.tty
  resume : s.last = some .read → s.tty.rawInBuf.input.length < s.tty.lowwater → Resumed s.tty
  alternating : Alternating s.tty.calls

/-- The number of characters that a call stores. -/
def stores (t : Tty) (buf : List UInt8) : Nat :=
  min (buf.takeWhile fun c => !decide (IsFlow t c)).length
    (t.rawInBuf.size - 1 - t.rawInBuf.input.length)

/-- A call does not take the ring above the high water mark. -/
def Below (s : Line) : LineEvent → Prop
  | .received buf => s.tty.rawInBuf.input.length + stores s.tty buf ≤ s.tty.highwater
  | _ => True

/-! ## How many characters a call stores -/

variable {t : Tty}

theorem length_input_lt (h : t.rawInBuf.InBounds) :
    t.rawInBuf.input.length + 1 ≤ t.rawInBuf.size := by
  have hsize := h.head
  unfold Rawbuf.input
  rw [length_window]
  exact span_lt (by omega)

theorem length_input_enqueueLoop (h : t.rawInBuf.InBounds) (dropped : Nat) (buf : List UInt8) :
    (enqueueLoop t false dropped buf).1.rawInBuf.input.length =
      t.rawInBuf.input.length + stores t buf := by
  induction buf generalizing t dropped with
  | nil => rfl
  | cons c cs ih =>
    have hlt := length_input_lt h
    obtain ⟨hbounds, hsize, -, -⟩ := length_enqueueCharacter h false c
    rw [enqueueLoop_cons, enqueueCharacter_flowRcv, Bool.false_or]
    unfold stores at ih ⊢
    rw [List.takeWhile_cons]
    by_cases hflow : IsFlow t c
    · have hring : (enqueueCharacter t false c).1.rawInBuf = t.rawInBuf := by
        cases fate t false c with
        | flow _ hring _ _ => exact hring
        | lost hnot _ _ _ => exact absurd hflow hnot
        | stored hnot _ _ _ _ _ => exact absurd hflow hnot
        | dropped hnot _ _ _ _ _ => exact absurd hflow hnot
      simp only [decide_eq_true hflow, enqueueLoop_lost, hring]
      simp
    · simp only [decide_eq_false hflow, Bool.not_false, if_true, List.length_cons]
      rw [ih hbounds, hsize]
      simp only [isFlow_enqueueCharacter]
      by_cases hroom : t.rawInBuf.input.length + 1 < t.rawInBuf.size
      · rw [length_enqueueCharacter_ordinary h hflow hroom]
        omega
      · have hfull : (enqueueCharacter t false c).1.rawInBuf.input.length =
            t.rawInBuf.input.length := by
          obtain ⟨hnext, hsize', hmore, -⟩ := length_enqueueCharacter h false c
          have hlt' := length_input_lt hnext
          omega
        rw [hfull]
        omega

/-! ## The request is never made -/

/-- The other side was told nothing but to go on. -/
structure Unasked (t : Tty) : Prop where
  bounds : t.rawInBuf.InBounds
  ireqxof : t.flow.ireqxof = false
  isntxof : t.flow.isntxof = false
  calls : ∀ c ∈ t.calls, isXonXoff c = false ∧ c ≠ .stopRemoteTx

theorem Unasked.call (h : Unasked t) {c : DeviceCall} (hc : isXonXoff c = false)
    (hc' : c ≠ .stopRemoteTx) : Unasked (t.call c) where
  bounds := h.bounds
  ireqxof := h.ireqxof
  isntxof := h.isntxof
  calls := by
    intro d hd
    rcases List.mem_cons.mp hd with rfl | hd
    · exact ⟨hc, hc'⟩
    · exact h.calls d hd

theorem Unasked.write (h : Unasked t) (start count : Nat) : Unasked (t.call (.write start count)) :=
  h.call rfl (by intro hc; cases hc)

theorem Unasked.stop (h : Unasked t) : Unasked (t.call .stop) :=
  h.call rfl (by intro hc; cases hc)

theorem Unasked.checkHighwater (h : Unasked t) (newTail : Nat) :
    checkHighwater t newTail = t := by
  unfold Termios.checkHighwater
  simp only [h.ireqxof, Bool.false_and, Bool.false_eq_true, if_false]

theorem Unasked.receiveFlow (h : Unasked t) (flowRcv : Bool) (c : UInt8) :
    Unasked (receiveFlow t flowRcv c).1 := by
  unfold Termios.receiveFlow
  split
  next =>
    split
    next => split <;> exact ⟨h.bounds, h.ireqxof, h.isntxof, h.calls⟩
    next =>
      split
      next => exact ⟨h.bounds, h.ireqxof, h.isntxof, h.calls⟩
      next => exact h
  next => exact h

theorem Unasked.restartOutput (h : Unasked t) : Unasked (restartOutput t) := by
  have hclear : Unasked { t with flow := { t.flow with ostop := false } } :=
    ⟨h.bounds, h.ireqxof, h.isntxof, h.calls⟩
  unfold Termios.restartOutput
  simp only
  split
  next => exact hclear.write _ _
  next => exact hclear

theorem Unasked.enqueueCharacter (h : Unasked t) (flowRcv : Bool) (c : UInt8) :
    Unasked (enqueueCharacter t flowRcv c).1 := by
  have hreceive := h.receiveFlow flowRcv c
  unfold Termios.enqueueCharacter
  simp only
  split
  next =>
    split
    next => exact hreceive.restartOutput
    next => exact hreceive
  next =>
    rw [hreceive.checkHighwater]
    split
    next =>
      refine ⟨⟨hreceive.bounds.head, hreceive.bounds.next _⟩, ?_, ?_, hreceive.calls⟩
      · exact hreceive.ireqxof
      · exact hreceive.isntxof
    next => exact hreceive

theorem Unasked.enqueueLoop (h : Unasked t) (flowRcv : Bool) (dropped : Nat) (cs : List UInt8) :
    Unasked (enqueueLoop t flowRcv dropped cs).1 := by
  induction cs generalizing t flowRcv dropped with
  | nil => exact h
  | cons c cs ih => exact ih (h.enqueueCharacter flowRcv c) _ _

theorem Unasked.checkLowwater (h : Unasked t) (newHead : Nat) :
    Unasked (checkLowwater t newHead) := by
  have hclear : ∀ irtsoff, Unasked { t with
      flow := { t.flow with ireqxof := false, irtsoff := irtsoff } } :=
    fun _ => ⟨h.bounds, rfl, h.isntxof, h.calls⟩
  unfold Termios.checkLowwater
  simp only
  split
  next =>
    split
    next hxon => simp [h.isntxof] at hxon
    next =>
      split
      next =>
        split
        next =>
          refine (hclear false).call rfl ?_
          intro hc
          cases hc
        next => exact hclear false
      next => exact hclear t.flow.irtsoff
  next => exact h

theorem Unasked.takeRaw (h : Unasked t) {c : UInt8} {t' : Tty}
    (htake : Termios.takeRaw t = some (c, t')) : Unasked t' := by
  unfold Termios.takeRaw at htake
  split at htake
  next =>
    obtain ⟨-, rfl⟩ := Prod.mk.inj (Option.some.inj htake)
    refine Unasked.checkLowwater ?_ _
    exact ⟨⟨h.bounds.next _, h.bounds.tail⟩, h.ireqxof, h.isntxof, h.calls⟩
  next => cases htake

theorem Unasked.startXmit (h : Unasked t) (newTail : Nat) (transmitting : Bool) :
    Unasked (startXmit t newTail transmitting).1 := by
  have hbusy : Unasked { t with rawOutBufState := .busy } :=
    ⟨h.bounds, h.ireqxof, h.isntxof, h.calls⟩
  unfold Termios.startXmit
  simp only
  split
  next =>
    have hstopped : Unasked { t with
        rawOutBufState := .busy, flow := { t.flow with ostop := true } } :=
      ⟨h.bounds, h.ireqxof, h.isntxof, h.calls⟩
    split
    next => exact hstopped.stop
    next => exact hstopped
  next => exact hbusy.write _ _

theorem Unasked.dequeueCharacters (h : Unasked t) (len : Nat) :
    Unasked (dequeueCharacters t len).1 := by
  unfold Termios.dequeueCharacters refillTransmitter
  simp only [h.ireqxof, h.isntxof, Bool.and_false, Bool.false_and, Bool.false_eq_true, if_false]
  have hlen : Unasked { t with dqlen := t.dqlen + len } :=
    ⟨h.bounds, h.ireqxof, h.isntxof, h.calls⟩
  split
  next => exact hlen.stop
  next =>
    split
    next =>
      refine Unasked.stop ?_
      exact ⟨h.bounds, h.ireqxof, h.isntxof, h.calls⟩
    next =>
      refine Unasked.startXmit ?_ _ _
      exact ⟨h.bounds, h.ireqxof, h.isntxof, h.calls⟩

theorem Unasked.putsChunk (h : Unasked t) (buf : List UInt8) : Unasked (putsChunk t buf).1 := by
  unfold Termios.putsChunk
  simp only
  split
  next =>
    refine Unasked.startXmit ?_ _ _
    exact ⟨h.bounds, h.ireqxof, h.isntxof, h.calls⟩
  next => exact ⟨h.bounds, h.ireqxof, h.isntxof, h.calls⟩

theorem Unasked.step (h : Unasked t) (e : LineEvent) : Unasked (lineStep t e) := by
  unfold lineStep
  cases e with
  | received buf =>
    have hloop := h.enqueueLoop false 0 buf
    exact ⟨hloop.bounds, hloop.ireqxof, hloop.isntxof, hloop.calls⟩
  | read =>
    cases htake : Termios.takeRaw t with
    | none => exact h
    | some taken => exact h.takeRaw htake
  | sent len => exact h.dequeueCharacters len
  | put buf =>
    simp only
    split
    next => exact h
    next => exact h.putsChunk buf
  | block =>
    simp only
    split
    next => exact ⟨h.bounds, h.ireqxof, h.isntxof, h.calls⟩
    next => exact h

/-! ## Runs -/

theorem Unasked.resumed (h : Unasked t) : Resumed t where
  xon := by
    intro hsent
    have hfound := List.find?_some hsent
    have hmem := List.mem_of_find?_eq_some hsent
    rw [(h.calls _ hmem).1] at hfound
    exact Bool.noConfusion hfound
  rts := fun hstopped => (h.calls _ (List.mem_of_find?_eq_some hstopped)).2 rfl

theorem Unasked.alternating (h : Unasked t) : Alternating t.calls := by
  have hnone : t.calls.filter isXonXoff = [] := by
    rw [List.filter_eq_nil_iff]
    intro c hc
    rw [(h.calls c hc).1]
    exact Bool.false_ne_true
  unfold Alternating
  rw [hnone]
  exact ⟨List.isChain_nil, Option.some_ne_none _ |>.symm⟩

theorem highwater_checkHighwater (t : Tty) (newTail : Nat) :
    (checkHighwater t newTail).highwater = t.highwater := by
  unfold checkHighwater
  simp only
  split_ifs <;> rfl

theorem highwater_enqueueCharacter (t : Tty) (flowRcv : Bool) (c : UInt8) :
    (enqueueCharacter t flowRcv c).1.highwater = t.highwater := by
  have hreceive : (receiveFlow t flowRcv c).1.highwater = t.highwater := by
    unfold receiveFlow
    split_ifs <;> rfl
  unfold enqueueCharacter restartOutput Tty.call
  simp only
  split_ifs <;> first
    | exact hreceive
    | exact (highwater_checkHighwater _ _).trans hreceive

theorem highwater_enqueueLoop (t : Tty) (flowRcv : Bool) (dropped : Nat) (cs : List UInt8) :
    (enqueueLoop t flowRcv dropped cs).1.highwater = t.highwater := by
  induction cs generalizing t flowRcv dropped with
  | nil => rfl
  | cons c cs ih => exact (ih _ _ _).trans (highwater_enqueueCharacter t flowRcv c)

/-- In all states of a run the other side is asked to stop and let go on as it
should be if and only if no call takes the ring above the high water mark, so
that there is nothing to ask for. -/
theorem input_controlled (h : Unasked t) (events : List LineEvent) :
    (∀ s ∈ states Line.step (.start t) events, Controlled s) ↔
      Along Line.step Below (.start t) events := by
  have hreach : ∀ s : Line, (Unasked s.tty ∧ ∀ buf, s.last = some (.received buf) →
      s.tty.rawInBuf.input.length ≤ s.tty.highwater) → Controlled s := by
    rintro s ⟨hs, hbelow⟩
    constructor
    case stop => exact fun buf hlast habove => absurd (hbelow buf hlast) (Nat.not_le.mpr habove)
    case resume => exact fun _ _ => hs.resumed
    case alternating => exact hs.alternating
  have hlength : ∀ (s : Line) (buf : List UInt8), Unasked s.tty →
      ((s.step (.received buf)).tty.rawInBuf.input.length ≤ (s.step (.received buf)).tty.highwater ↔
        Below s (.received buf)) := by
    intro s buf hs
    have hlen := length_input_enqueueLoop hs.bounds 0 buf
    have hmark := highwater_enqueueLoop s.tty false 0 buf
    show (enqueueLoop s.tty false 0 buf).1.rawInBuf.input.length ≤
      (enqueueLoop s.tty false 0 buf).1.highwater ↔ _
    rw [hlen, hmark]
    exact Iff.rfl
  refine forall_states_iff hreach ?_ ?_ ⟨h, fun buf hlast => absurd hlast.symm (Option.some_ne_none _)⟩
  · rintro s e ⟨hs, -⟩ hbelow
    refine ⟨hs.step e, ?_⟩
    intro buf hlast
    obtain rfl := Option.some.inj hlast
    exact (hlength s buf hs).mpr hbelow
  · rintro s e ⟨hs, -⟩ hgood
    cases e with
    | received buf =>
      by_contra hnot
      have habove := Nat.not_le.mp ((hlength s buf hs).not.mpr hnot)
      have hasked := (hgood.stop buf rfl habove).requested
      have hnever : (s.step (.received buf)).tty.flow.ireqxof = false :=
        (hs.step (.received buf)).ireqxof
      rw [hnever] at hasked
      exact Bool.noConfusion hasked
    | read => exact trivial
    | sent len => exact trivial
    | put buf => exact trivial
    | block => exact trivial

/-- A line under IXOFF whose ring takes seven characters and has its high water
mark at six. -/
def xofTty : Tty := { openTty 8 8 true true with flow := { noFlowCtrl with mdxof := true } }

theorem unasked_xofTty : Unasked xofTty where
  bounds := ⟨by decide, by decide⟩
  ireqxof := rfl
  isntxof := rfl
  calls := fun _ hc => absurd hc List.not_mem_nil

/-- Six characters are not too many. -/
theorem input_controlled_six :
    (enqueueRawCharacters xofTty [1, 2, 3, 4, 5, 6]).1.rawInBuf.input = [1, 2, 3, 4, 5, 6] ∧
    ∀ s ∈ states Line.step (.start xofTty) [.received [1, 2, 3, 4, 5, 6], .read], Controlled s := by
  refine ⟨by decide, (input_controlled unasked_xofTty _).mpr ⟨?_, trivial, trivial⟩⟩
  show 0 + stores xofTty [1, 2, 3, 4, 5, 6] ≤ 6
  decide

/-- Seven are, and the other side is not asked to stop. -/
theorem input_controlled_seven :
    let t := (enqueueRawCharacters xofTty [1, 2, 3, 4, 5, 6, 7]).1
    t.highwater < t.rawInBuf.input.length ∧ t.calls = [] ∧ ¬ StopAsked t := by
  refine ⟨by decide, by decide, ?_⟩
  intro h
  exact absurd h.requested (by decide)

end Rtems.Termios
