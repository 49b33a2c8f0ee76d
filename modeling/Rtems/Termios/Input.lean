import Rtems.Lib.Runs
import Rtems.Termios.Model

/-!
# What becomes of received characters

A call of `rtems_termios_enqueue_raw_characters` takes one character after the
other, and a reader may take characters from the ring in between.  The state
keeps account of the characters: those that are no flow control, those that went
into the ring, and those that a reader took out.
-/

namespace Rtems.Termios

open Lib

/-- The character is VSTART or VSTOP, and the line looks for them. -/
def IsFlow (t : Tty) (c : UInt8) : Prop :=
  t.flow.mdxon = true ∧ (c = t.settings.vstop ∨ c = t.settings.vstart)

instance (t : Tty) (c : UInt8) : Decidable (IsFlow t c) := inferInstanceAs (Decidable (_ ∧ _))

/-! ## One character -/

/-- The highwater check leaves the ring and the settings alone. -/
theorem checkHighwater_frame (t : Tty) (newTail : Nat) :
    (checkHighwater t newTail).rawInBuf = t.rawInBuf ∧
      (checkHighwater t newTail).settings = t.settings ∧
      (checkHighwater t newTail).flow.mdxon = t.flow.mdxon := by
  unfold checkHighwater
  simp only
  split
  next =>
    split
    next => split <;> exact ⟨rfl, rfl, rfl⟩
    next =>
      split
      next => split <;> exact ⟨rfl, rfl, rfl⟩
      next => exact ⟨rfl, rfl, rfl⟩
  next => exact ⟨rfl, rfl, rfl⟩

theorem checkLowwater_frame (t : Tty) (newHead : Nat) :
    (checkLowwater t newHead).rawInBuf = t.rawInBuf ∧
      (checkLowwater t newHead).settings = t.settings ∧
      (checkLowwater t newHead).flow.mdxon = t.flow.mdxon := by
  unfold checkLowwater
  simp only
  split
  next =>
    split
    next => exact ⟨rfl, rfl, rfl⟩
    next =>
      split
      next => split <;> exact ⟨rfl, rfl, rfl⟩
      next => exact ⟨rfl, rfl, rfl⟩
  next => exact ⟨rfl, rfl, rfl⟩

theorem restartOutput_frame (t : Tty) :
    (restartOutput t).rawInBuf = t.rawInBuf ∧ (restartOutput t).settings = t.settings ∧
      (restartOutput t).flow.mdxon = t.flow.mdxon := by
  unfold restartOutput
  simp only
  split <;> exact ⟨rfl, rfl, rfl⟩

/-- A flow control character is consumed, whatever came before it. -/
theorem receiveFlow_flow {t : Tty} {c : UInt8} (h : IsFlow t c) (flowRcv : Bool) :
    (receiveFlow t flowRcv c).2 = true ∧ receiveFlow t flowRcv c = receiveFlow t false c := by
  obtain ⟨hmode, hc⟩ := h
  unfold receiveFlow
  rw [if_pos hmode, if_pos hmode]
  by_cases hstop : c = t.settings.vstop
  · rw [if_pos hstop, if_pos hstop]
    split <;> exact ⟨rfl, rfl⟩
  · have hstart := hc.resolve_left hstop
    rw [if_neg hstop, if_neg hstop, if_pos hstart, if_pos hstart]
    exact ⟨rfl, rfl⟩

theorem receiveFlow_other {t : Tty} {c : UInt8} (h : ¬ IsFlow t c) (flowRcv : Bool) :
    receiveFlow t flowRcv c = (t, flowRcv) := by
  unfold receiveFlow
  by_cases hmode : t.flow.mdxon = true
  · rw [if_pos hmode, if_neg fun hc => h ⟨hmode, .inl hc⟩, if_neg fun hc => h ⟨hmode, .inr hc⟩]
  · rw [if_neg hmode]

theorem receiveFlow_frame (t : Tty) (flowRcv : Bool) (c : UInt8) :
    (receiveFlow t flowRcv c).1.rawInBuf = t.rawInBuf ∧
      (receiveFlow t flowRcv c).1.settings = t.settings ∧
      (receiveFlow t flowRcv c).1.flow.mdxon = t.flow.mdxon := by
  unfold receiveFlow
  split
  next =>
    split
    next => split <;> exact ⟨rfl, rfl, rfl⟩
    next => split <;> exact ⟨rfl, rfl, rfl⟩
  next => exact ⟨rfl, rfl, rfl⟩

/-- What becomes of a character. -/
inductive Fate (t : Tty) (flowRcv : Bool) (c : UInt8) : Prop where
  /-- It is consumed as flow control. -/
  | flow (hflow : IsFlow t c)
      (hring : (enqueueCharacter t flowRcv c).1.rawInBuf = t.rawInBuf)
      (hrcv : (enqueueCharacter t flowRcv c).2.1 = true)
      (hdropped : (enqueueCharacter t flowRcv c).2.2 = 0)
  /-- It is lost behind a flow control character. -/
  | lost (hflow : ¬ IsFlow t c) (hbefore : flowRcv = true)
      (hring : (enqueueCharacter t flowRcv c).1.rawInBuf = t.rawInBuf)
      (hdropped : (enqueueCharacter t flowRcv c).2.2 = 0)
  /-- It goes into the ring. -/
  | stored (hflow : ¬ IsFlow t c) (hbefore : flowRcv = false)
      (hroom : (t.rawInBuf.tail + 1) % t.rawInBuf.size ≠ t.rawInBuf.head)
      (hring : (enqueueCharacter t flowRcv c).1.rawInBuf =
        { t.rawInBuf with
          theBuf := Function.update t.rawInBuf.theBuf ((t.rawInBuf.tail + 1) % t.rawInBuf.size) c
          tail := (t.rawInBuf.tail + 1) % t.rawInBuf.size })
      (hrcv : (enqueueCharacter t flowRcv c).2.1 = false)
      (hdropped : (enqueueCharacter t flowRcv c).2.2 = 0)
  /-- It is dropped, for the ring is full. -/
  | dropped (hflow : ¬ IsFlow t c) (hbefore : flowRcv = false)
      (hfull : (t.rawInBuf.tail + 1) % t.rawInBuf.size = t.rawInBuf.head)
      (hring : (enqueueCharacter t flowRcv c).1.rawInBuf = t.rawInBuf)
      (hrcv : (enqueueCharacter t flowRcv c).2.1 = false)
      (hdropped : (enqueueCharacter t flowRcv c).2.2 = 1)

theorem fate (t : Tty) (flowRcv : Bool) (c : UInt8) : Fate t flowRcv c := by
  by_cases hflow : IsFlow t c
  · obtain ⟨hrcv, -⟩ := receiveFlow_flow hflow flowRcv
    have hring := (receiveFlow_frame t flowRcv c).1
    have hturn : enqueueCharacter t flowRcv c =
        (if !(receiveFlow t flowRcv c).1.flow.orcvxof && (receiveFlow t flowRcv c).1.flow.ostop then
          restartOutput (receiveFlow t flowRcv c).1 else (receiveFlow t flowRcv c).1, true, 0) := by
      unfold enqueueCharacter
      simp only [hrcv, if_true]
    refine .flow hflow ?_ ?_ ?_
    · rw [hturn]
      simp only
      split
      next => rw [(restartOutput_frame _).1, hring]
      next => exact hring
    · rw [hturn]
    · rw [hturn]
  · have hreceive := receiveFlow_other hflow flowRcv
    cases flowRcv with
    | true =>
      refine .lost hflow rfl ?_ ?_
      · unfold enqueueCharacter
        simp only [hreceive, if_true]
        split
        next => exact (restartOutput_frame _).1
        next => rfl
      · unfold enqueueCharacter
        simp only [hreceive, if_true]
    | false =>
      have hring := (checkHighwater_frame t ((t.rawInBuf.tail + 1) % t.rawInBuf.size)).1
      by_cases hfull : (t.rawInBuf.tail + 1) % t.rawInBuf.size = t.rawInBuf.head
      · have hturn : enqueueCharacter t false c =
            (checkHighwater t ((t.rawInBuf.tail + 1) % t.rawInBuf.size), false, 1) := by
          unfold enqueueCharacter
          simp only [hreceive, hring, Bool.false_eq_true, if_false]
          exact if_neg (not_not.mpr hfull)
        refine .dropped hflow rfl hfull ?_ ?_ ?_
        · rw [hturn]
          exact hring
        · rw [hturn]
        · rw [hturn]
      · have hturn : enqueueCharacter t false c =
            ({ checkHighwater t ((t.rawInBuf.tail + 1) % t.rawInBuf.size) with
              rawInBuf := { t.rawInBuf with
                theBuf := Function.update t.rawInBuf.theBuf
                  ((t.rawInBuf.tail + 1) % t.rawInBuf.size) c
                tail := (t.rawInBuf.tail + 1) % t.rawInBuf.size } }, false, 0) := by
          unfold enqueueCharacter
          simp only [hreceive, hring, Bool.false_eq_true, if_false]
          exact if_pos hfull
        refine .stored hflow rfl hfull ?_ ?_ ?_
        · rw [hturn]
        · rw [hturn]
        · rw [hturn]

/-- No character changes what the line looks for. -/
theorem enqueueCharacter_frame (t : Tty) (flowRcv : Bool) (c : UInt8) :
    (enqueueCharacter t flowRcv c).1.settings = t.settings ∧
      (enqueueCharacter t flowRcv c).1.flow.mdxon = t.flow.mdxon := by
  have hreceive := (receiveFlow_frame t flowRcv c).2
  unfold enqueueCharacter
  simp only
  split
  next =>
    split
    next =>
      have hrestart := (restartOutput_frame (receiveFlow t flowRcv c).1).2
      exact ⟨hrestart.1.trans hreceive.1, hrestart.2.trans hreceive.2⟩
    next => exact hreceive
  next =>
    have hcheck := (checkHighwater_frame (receiveFlow t flowRcv c).1
      (((receiveFlow t flowRcv c).1.rawInBuf.tail + 1) %
        (receiveFlow t flowRcv c).1.rawInBuf.size)).2
    split
    next => exact ⟨hcheck.1.trans hreceive.1, hcheck.2.trans hreceive.2⟩
    next => exact ⟨hcheck.1.trans hreceive.1, hcheck.2.trans hreceive.2⟩

/-- What a reader takes is the first character of the ring. -/
theorem takeRaw_some {t t' : Tty} {c : UInt8} (hring : t.rawInBuf.InBounds)
    (h : takeRaw t = some (c, t')) :
    t.rawInBuf.input = c :: t'.rawInBuf.input ∧ t'.rawInBuf.InBounds ∧
      t'.settings = t.settings ∧ t'.flow.mdxon = t.flow.mdxon := by
  unfold takeRaw at h
  split at h
  next hne =>
    obtain ⟨rfl, rfl⟩ := Prod.mk.inj (Option.some.inj h)
    obtain ⟨hin, hsettings, hmode⟩ := checkLowwater_frame
      { t with rawInBuf := { t.rawInBuf with head := (t.rawInBuf.head + 1) % t.rawInBuf.size } }
      ((t.rawInBuf.head + 1) % t.rawInBuf.size)
    refine ⟨?_, ?_, hsettings, hmode⟩
    · rw [hin]
      exact Rawbuf.input_take hring hne
    · rw [hin]
      exact ⟨hring.next _, hring.tail⟩
  next => cases h

/-! ## Calls and readers -/

/-- A call of the receive interrupt handler that is under way. -/
structure Call where
  /-- The characters that are to come. -/
  rest : List UInt8
  flowRcv : Bool
  dropped : Nat

/-- A line and the account of its characters. -/
structure Receiver where
  tty : Tty
  call : Option Call
  /-- The characters that were no flow control. -/
  ordinary : List UInt8
  /-- The characters that went into the ring. -/
  stored : List UInt8
  /-- The characters that readers took from the ring. -/
  taken : List UInt8
  /-- What the calls that have returned reported as dropped. -/
  reported : Nat
  /-- The characters that were dropped while the ring had room. -/
  early : Nat

/-- A line on which nothing is under way. -/
def Receiver.start (t : Tty) : Receiver where
  tty := t
  call := none
  ordinary := t.rawInBuf.input
  stored := t.rawInBuf.input
  taken := []
  reported := 0
  early := 0

/-- What happens to a line. -/
inductive Event where
  /-- The handler is called with these characters. -/
  | call (buf : List UInt8)
  /-- The handler takes the next character. -/
  | character
  /-- The handler returns. -/
  | back
  /-- A reader takes a character from the ring. -/
  | read
deriving DecidableEq, Repr

/-- The handler is not called again before it has returned. -/
def Receiver.step (s : Receiver) : Event → Receiver
  | .call buf =>
    match s.call with
    | none => { s with call := some { rest := buf, flowRcv := false, dropped := 0 } }
    | some _ => s
  | .character =>
    match s.call with
    | some { rest := c :: cs, flowRcv := flowRcv, dropped := dropped } =>
      let (t, rcv, d) := enqueueCharacter s.tty flowRcv c
      { s with
        tty := t
        call := some { rest := cs, flowRcv := rcv, dropped := dropped + d }
        ordinary := if IsFlow s.tty c then s.ordinary else s.ordinary ++ [c]
        stored := if t.rawInBuf.tail = s.tty.rawInBuf.tail then s.stored else s.stored ++ [c]
        early := if s.tty.rawInBuf.input.length + 1 < s.tty.rawInBuf.size then s.early + d
          else s.early }
    | _ => s
  | .back =>
    match s.call with
    | some { rest := [], flowRcv := _, dropped := dropped } =>
      { s with
        tty := enqueueEnd s.tty dropped
        call := none
        reported := s.reported + dropped }
    | _ => s
  | .read =>
    match takeRaw s.tty with
    | some (c, t) => { s with tty := t, taken := s.taken ++ [c] }
    | none => s

/-- The characters that were dropped so far. -/
def Receiver.dropped (s : Receiver) : Nat :=
  s.reported + (s.call.map Call.dropped).getD 0

/-- Every character that is no flow control went into the ring, in the order of
its arrival, or was counted as dropped.  The ring holds what went in and was not
taken, and it was full when a character was dropped. -/
structure Accounted (s : Receiver) : Prop where
  order : s.stored.Sublist s.ordinary
  count : s.ordinary.length = s.stored.length + s.dropped
  ring : s.stored = s.taken ++ s.tty.rawInBuf.input
  full : s.early = 0

/-- The handler has not consumed a flow control character in this call when it
takes an ordinary one. -/
def Clean (s : Receiver) (e : Event) : Prop :=
  e = .character → ∀ c cs flowRcv dropped,
    s.call = some { rest := c :: cs, flowRcv := flowRcv, dropped := dropped } →
      flowRcv = true → IsFlow s.tty c

/-! ## The account -/

/-- What a step of the line does. -/
inductive Receiver.Moves (s : Receiver) : Event → Receiver → Prop where
  /-- The event does not apply. -/
  | stays (e : Event) : Moves s e s
  | called (buf : List UInt8) (hcall : s.call = none) :
      Moves s (.call buf) { s with call := some { rest := buf, flowRcv := false, dropped := 0 } }
  | character (c : UInt8) (cs : List UInt8) (flowRcv : Bool) (dropped : Nat)
      (hcall : s.call = some { rest := c :: cs, flowRcv := flowRcv, dropped := dropped }) :
      Moves s .character { s with
        tty := (enqueueCharacter s.tty flowRcv c).1
        call := some {
          rest := cs
          flowRcv := (enqueueCharacter s.tty flowRcv c).2.1
          dropped := dropped + (enqueueCharacter s.tty flowRcv c).2.2 }
        ordinary := if IsFlow s.tty c then s.ordinary else s.ordinary ++ [c]
        stored := if (enqueueCharacter s.tty flowRcv c).1.rawInBuf.tail = s.tty.rawInBuf.tail then
          s.stored else s.stored ++ [c]
        early := if s.tty.rawInBuf.input.length + 1 < s.tty.rawInBuf.size then
          s.early + (enqueueCharacter s.tty flowRcv c).2.2 else s.early }
  | returned (flowRcv : Bool) (dropped : Nat)
      (hcall : s.call = some { rest := [], flowRcv := flowRcv, dropped := dropped }) :
      Moves s .back { s with
        tty := enqueueEnd s.tty dropped
        call := none
        reported := s.reported + dropped }
  | taken (c : UInt8) (t : Tty) (htake : takeRaw s.tty = some (c, t)) :
      Moves s .read { s with tty := t, taken := s.taken ++ [c] }

variable {s : Receiver}

theorem Receiver.moves (s : Receiver) (e : Event) : s.Moves e (s.step e) := by
  cases e with
  | call buf =>
    unfold Receiver.step
    cases hcall : s.call with
    | none => exact .called buf hcall
    | some call => exact .stays _
  | character =>
    unfold Receiver.step
    cases hcall : s.call with
    | none => exact .stays _
    | some call =>
      obtain ⟨rest, flowRcv, dropped⟩ := call
      cases rest with
      | nil => exact .stays _
      | cons c cs => exact .character c cs flowRcv dropped hcall
  | back =>
    unfold Receiver.step
    cases hcall : s.call with
    | none => exact .stays _
    | some call =>
      obtain ⟨rest, flowRcv, dropped⟩ := call
      cases rest with
      | nil => exact .returned flowRcv dropped hcall
      | cons c cs => exact .stays _
  | read =>
    unfold Receiver.step
    cases htake : takeRaw s.tty with
    | none => exact .stays _
    | some taken => exact .taken taken.1 taken.2 htake

/-- The ring holds what went in and was not taken. -/
structure Receiver.Held (s : Receiver) : Prop where
  bounds : s.tty.rawInBuf.InBounds
  ring : s.stored = s.taken ++ s.tty.rawInBuf.input

theorem next_ne {t : Tty} (h : t.rawInBuf.InBounds)
    (hroom : (t.rawInBuf.tail + 1) % t.rawInBuf.size ≠ t.rawInBuf.head) :
    (t.rawInBuf.tail + 1) % t.rawInBuf.size ≠ t.rawInBuf.tail := by
  intro heq
  have hlt := span_succ_lt h.head h.tail hroom
  have hone : t.rawInBuf.size ≠ 1 := by omega
  have hinj := offset_inj h.tail (i := 1) (j := 0) (by omega) (by omega)
    (by rw [heq, Nat.add_zero, Nat.mod_eq_of_lt h.tail])
  exact Nat.one_ne_zero hinj

theorem Receiver.Held.step (h : s.Held) (e : Event) : (s.step e).Held := by
  have hmoves := s.moves e
  revert hmoves
  generalize s.step e = s'
  intro hmoves
  cases hmoves with
  | stays => exact h
  | called buf hcall => exact ⟨h.bounds, h.ring⟩
  | character c cs flowRcv dropped hcall =>
    cases fate s.tty flowRcv c with
    | flow hflow hring hrcv hdropped =>
      simp only [hring, if_true]
      constructor
      · simp only [hring]
        exact h.bounds
      · simp only [hring]
        exact h.ring
    | lost hflow hbefore hring hdropped =>
      simp only [hring, if_true]
      constructor
      · simp only [hring]
        exact h.bounds
      · simp only [hring]
        exact h.ring
    | stored hflow hbefore hroom hring hrcv hdropped =>
      simp only [hring, next_ne h.bounds hroom, if_false]
      constructor
      · simp only [hring]
        exact ⟨h.bounds.head, h.bounds.next _⟩
      · simp only [hring]
        rw [Rawbuf.input_append h.bounds hroom, h.ring, List.append_assoc]
    | dropped hflow hbefore hfull hring hrcv hdropped =>
      simp only [hring, if_true]
      constructor
      · simp only [hring]
        exact h.bounds
      · simp only [hring]
        exact h.ring
  | returned flowRcv dropped hcall => exact ⟨h.bounds, h.ring⟩
  | taken c t htake =>
    obtain ⟨hinput, hnext, -, -⟩ := takeRaw_some h.bounds htake
    refine ⟨hnext, ?_⟩
    show s.stored = (s.taken ++ [c]) ++ t.rawInBuf.input
    rw [h.ring, hinput, List.append_assoc, List.singleton_append]

theorem Receiver.settings_step (h : s.Held) (e : Event) :
    (s.step e).tty.settings = s.tty.settings := by
  have hmoves := s.moves e
  revert hmoves
  generalize s.step e = s'
  intro hmoves
  cases hmoves with
  | stays => rfl
  | called buf hcall => rfl
  | character c cs flowRcv dropped hcall => exact (enqueueCharacter_frame s.tty flowRcv c).1
  | returned flowRcv dropped hcall => rfl
  | taken c t htake => exact (takeRaw_some h.bounds htake).2.2.1

/-- What holds along a clean run. -/
structure Receiver.Inv (s : Receiver) : Prop where
  held : s.Held
  accounted : Accounted s

theorem Receiver.Inv.start {t : Tty} (h : t.rawInBuf.InBounds) : (Receiver.start t).Inv where
  held := ⟨h, rfl⟩
  accounted := ⟨List.Sublist.refl _, rfl, rfl, rfl⟩

theorem Receiver.Inv.step (h : s.Inv) {e : Event} (hclean : Clean s e) : (s.step e).Inv := by
  have hheld := h.held.step e
  refine ⟨hheld, ?_⟩
  have hring := hheld.ring
  obtain ⟨horder, hcount, -, hfull⟩ := h.accounted
  unfold Receiver.dropped at hcount
  have hmoves := s.moves e
  revert hmoves hring
  generalize s.step e = s'
  intro hring' hmoves
  cases hmoves with
  | stays => exact h.accounted
  | called buf hcall =>
    rw [hcall] at hcount
    exact ⟨horder, hcount, hring', hfull⟩
  | character c cs flowRcv dropped hcall =>
    rw [hcall] at hcount
    cases fate s.tty flowRcv c with
    | flow hflow hring hrcv hdropped =>
      simp only [hring, hdropped, hflow, if_true, Nat.add_zero, ite_self] at hring' ⊢
      refine ⟨horder, hcount, ?_, hfull⟩
      simp only [hring]
      exact hring'
    | lost hflow hbefore hring hdropped =>
      exact absurd (hclean rfl c cs flowRcv dropped hcall hbefore) hflow
    | stored hflow hbefore hroom hring hrcv hdropped =>
      simp only [hring, hdropped, hflow, if_false, next_ne h.held.bounds hroom, Nat.add_zero,
        ite_self] at hring' ⊢
      refine ⟨horder.append_right [c], ?_, ?_, hfull⟩
      · show (s.ordinary ++ [c]).length = (s.stored ++ [c]).length + _
        rw [List.length_append, List.length_append, hcount]
        exact Nat.add_right_comm ..
      · simp only [hring]
        exact hring'
    | dropped hflow hbefore hfull' hring hrcv hdropped =>
      have hlen := Rawbuf.length_input_full h.held.bounds hfull'
      have hsize := h.held.bounds.head
      have hnot : ¬ s.tty.rawInBuf.input.length + 1 < s.tty.rawInBuf.size := by omega
      simp only [hring, hdropped, hflow, if_true, if_false, hnot] at hring' ⊢
      refine ⟨horder.trans (List.sublist_append_left _ _), ?_, ?_, hfull⟩
      · show (s.ordinary ++ [c]).length = s.stored.length + (s.reported + (dropped + 1))
        rw [List.length_append, hcount]
        exact Nat.add_assoc ..
      · simp only [hring]
        exact hring'
  | returned flowRcv dropped hcall =>
    rw [hcall] at hcount
    exact ⟨horder, hcount, hring', hfull⟩
  | taken c t htake => exact ⟨horder, hcount, hring', hfull⟩

/-- A character that is lost stays missing in the account. -/
theorem Receiver.Inv.clean_of_accounted (h : s.Inv) {e : Event} (hacc : Accounted (s.step e)) :
    Clean s e := by
  rintro rfl c cs flowRcv dropped hcall hbefore
  have hcount := h.accounted.count
  have hcount' := hacc.count
  unfold Receiver.dropped at hcount hcount'
  rw [hcall] at hcount
  unfold Receiver.step at hcount'
  simp only [hcall] at hcount'
  cases fate s.tty flowRcv c with
  | flow hflow hring hrcv hdropped => exact hflow
  | lost hflow _ hring hdropped =>
    simp only [hring, hdropped, hflow, if_true, if_false, List.length_append,
      List.length_singleton, Option.map_some, Option.getD_some] at hcount hcount'
    omega
  | stored hflow hfresh hroom hring hrcv hdropped =>
    rw [hbefore] at hfresh
    exact Bool.noConfusion hfresh
  | dropped hflow hfresh hfull hring hrcv hdropped =>
    rw [hbefore] at hfresh
    exact Bool.noConfusion hfresh

/-! ## One call or two -/

/-- Two calls, one after the other, with the number of characters dropped. -/
def enqueueTwice (t : Tty) (front back : List UInt8) : Tty × Nat :=
  let (t, dropped) := enqueueRawCharacters t front
  let (t, dropped') := enqueueRawCharacters t back
  (t, dropped + dropped')

/-- The first call has no flow control character, or the second one starts with
one. -/
def Joinable (t : Tty) (front back : List UInt8) : Prop :=
  (∀ c ∈ front, ¬ IsFlow t c) ∨ ∀ c, back.head? = some c → IsFlow t c

variable {t : Tty} {flowRcv : Bool} {c : UInt8}

theorem isFlow_enqueueCharacter {d : UInt8} :
    IsFlow (enqueueCharacter t flowRcv c).1 d ↔ IsFlow t d := by
  obtain ⟨hsettings, hmode⟩ := enqueueCharacter_frame t flowRcv c
  unfold IsFlow
  rw [hsettings, hmode]

/-- `flow_rcv` remembers the flow control characters of the call. -/
theorem enqueueCharacter_flowRcv (t : Tty) (flowRcv : Bool) (c : UInt8) :
    (enqueueCharacter t flowRcv c).2.1 = (flowRcv || decide (IsFlow t c)) := by
  have hrcv : (enqueueCharacter t flowRcv c).2.1 = (receiveFlow t flowRcv c).2 := by
    unfold enqueueCharacter
    simp only
    split
    next => rfl
    next => split <;> rfl
  rw [hrcv]
  by_cases hflow : IsFlow t c
  · rw [(receiveFlow_flow hflow flowRcv).1, decide_eq_true hflow, Bool.or_true]
  · rw [receiveFlow_other hflow, decide_eq_false hflow, Bool.or_false]

theorem enqueueLoop_cons (t : Tty) (flowRcv : Bool) (dropped : Nat) (c : UInt8) (cs : List UInt8) :
    enqueueLoop t flowRcv dropped (c :: cs) =
      enqueueLoop (enqueueCharacter t flowRcv c).1 (enqueueCharacter t flowRcv c).2.1
        (dropped + (enqueueCharacter t flowRcv c).2.2) cs := rfl

/-- The count goes on from where it starts. -/
theorem enqueueLoop_count (t : Tty) (flowRcv : Bool) (dropped : Nat) (cs : List UInt8) :
    enqueueLoop t flowRcv dropped cs =
      ((enqueueLoop t flowRcv 0 cs).1, dropped + (enqueueLoop t flowRcv 0 cs).2) := by
  induction cs generalizing t flowRcv dropped with
  | nil => rfl
  | cons c cs ih =>
    rw [enqueueLoop_cons, enqueueLoop_cons, ih, ih _ _ (0 + _)]
    simp only [Nat.zero_add, Nat.add_assoc]

/-- A loop that is cut in two. -/
theorem enqueueLoop_append (t : Tty) (flowRcv : Bool) (dropped : Nat) (front back : List UInt8) :
    enqueueLoop t flowRcv dropped (front ++ back) =
      enqueueLoop (enqueueLoop t flowRcv dropped front).1
        (flowRcv || front.any fun c => decide (IsFlow t c))
        (enqueueLoop t flowRcv dropped front).2 back := by
  induction front generalizing t flowRcv dropped with
  | nil => simp [enqueueLoop]
  | cons c cs ih =>
    rw [List.cons_append, enqueueLoop_cons, ih, ← enqueueLoop_cons, enqueueCharacter_flowRcv]
    simp only [isFlow_enqueueCharacter, List.any_cons, Bool.or_assoc]

theorem isFlow_enqueueLoop {dropped : Nat} {cs : List UInt8} {d : UInt8} :
    IsFlow (enqueueLoop t flowRcv dropped cs).1 d ↔ IsFlow t d := by
  induction cs generalizing t flowRcv dropped with
  | nil => exact Iff.rfl
  | cons c cs ih => exact ih.trans isFlow_enqueueCharacter

/-- What follows a call does not show in the next one. -/
theorem enqueueCharacter_enqueueEnd (t : Tty) (dropped : Nat) (flowRcv : Bool) (c : UInt8) :
    enqueueCharacter (enqueueEnd t dropped) flowRcv c =
      (enqueueEnd (enqueueCharacter t flowRcv c).1 dropped, (enqueueCharacter t flowRcv c).2) := by
  have hreceive : receiveFlow (enqueueEnd t dropped) flowRcv c =
      (enqueueEnd (receiveFlow t flowRcv c).1 dropped, (receiveFlow t flowRcv c).2) := by
    unfold receiveFlow enqueueEnd
    simp only
    split_ifs <;> rfl
  have hrestart : ∀ t, restartOutput (enqueueEnd t dropped) =
      enqueueEnd (restartOutput t) dropped := by
    intro t
    unfold restartOutput enqueueEnd Tty.call
    simp only
    split_ifs <;> rfl
  have hcheck : ∀ t newTail, checkHighwater (enqueueEnd t dropped) newTail =
      enqueueEnd (checkHighwater t newTail) dropped := by
    intro t newTail
    unfold checkHighwater enqueueEnd Tty.call
    simp only
    split_ifs <;> rfl
  unfold enqueueCharacter
  simp only [hreceive]
  split
  next =>
    rw [hrestart]
    unfold enqueueEnd
    split_ifs <;> rfl
  next =>
    have hring : (enqueueEnd (receiveFlow t flowRcv c).1 dropped).rawInBuf =
      (receiveFlow t flowRcv c).1.rawInBuf := rfl
    rw [hring, hcheck]
    unfold enqueueEnd
    split_ifs <;> rfl

theorem enqueueLoop_enqueueEnd (t : Tty) (n : Nat) (flowRcv : Bool) (dropped : Nat)
    (cs : List UInt8) :
    enqueueLoop (enqueueEnd t n) flowRcv dropped cs =
      (enqueueEnd (enqueueLoop t flowRcv dropped cs).1 n, (enqueueLoop t flowRcv dropped cs).2) := by
  induction cs generalizing t flowRcv dropped with
  | nil => rfl
  | cons c cs ih => rw [enqueueLoop_cons, enqueueLoop_cons, enqueueCharacter_enqueueEnd, ih]

theorem enqueueEnd_enqueueEnd (t : Tty) (m n : Nat) :
    enqueueEnd (enqueueEnd t m) n = enqueueEnd t (m + n) := by
  unfold enqueueEnd
  simp only [Nat.add_assoc]

/-- Two calls are like one that forgets in between what it received. -/
theorem enqueueRawCharacters_twice (t : Tty) (front back : List UInt8) :
    enqueueTwice t front back =
      let all := enqueueLoop (enqueueLoop t false 0 front).1 false
        (enqueueLoop t false 0 front).2 back
      (enqueueEnd all.1 all.2, all.2) := by
  unfold enqueueTwice enqueueRawCharacters
  simp only [enqueueLoop_enqueueEnd]
  rw [enqueueLoop_count _ _ (enqueueLoop t false 0 front).2]
  simp only [enqueueEnd_enqueueEnd]

/-- Behind a flow control character nothing goes into the ring. -/
theorem enqueueLoop_lost (t : Tty) (dropped : Nat) (cs : List UInt8) :
    (enqueueLoop t true dropped cs).1.rawInBuf = t.rawInBuf := by
  induction cs generalizing t dropped with
  | nil => rfl
  | cons c cs ih =>
    rw [enqueueLoop_cons, enqueueCharacter_flowRcv, Bool.true_or, ih]
    cases fate t true c with
    | flow hflow hring hrcv hdropped => exact hring
    | lost hflow hbefore hring hdropped => exact hring
    | stored hflow hbefore hroom hring hrcv hdropped => exact Bool.noConfusion hbefore
    | dropped hflow hbefore hfull hring hrcv hdropped => exact Bool.noConfusion hbefore

/-- No call takes characters from the ring, and each adds one at most. -/
theorem length_enqueueCharacter (h : t.rawInBuf.InBounds) (flowRcv : Bool) (c : UInt8) :
    (enqueueCharacter t flowRcv c).1.rawInBuf.InBounds ∧
      (enqueueCharacter t flowRcv c).1.rawInBuf.size = t.rawInBuf.size ∧
      t.rawInBuf.input.length ≤ (enqueueCharacter t flowRcv c).1.rawInBuf.input.length ∧
      (enqueueCharacter t flowRcv c).1.rawInBuf.input.length ≤ t.rawInBuf.input.length + 1 := by
  cases fate t flowRcv c with
  | flow hflow hring hrcv hdropped =>
    rw [hring]
    exact ⟨h, rfl, Nat.le_refl _, Nat.le_succ _⟩
  | lost hflow hbefore hring hdropped =>
    rw [hring]
    exact ⟨h, rfl, Nat.le_refl _, Nat.le_succ _⟩
  | stored hflow hbefore hroom hring hrcv hdropped =>
    rw [hring, Rawbuf.input_append h hroom, List.length_append]
    exact ⟨⟨h.head, h.next _⟩, rfl, Nat.le_succ _, Nat.le_refl _⟩
  | dropped hflow hbefore hfull hring hrcv hdropped =>
    rw [hring]
    exact ⟨h, rfl, Nat.le_refl _, Nat.le_succ _⟩

theorem length_enqueueLoop (h : t.rawInBuf.InBounds) (flowRcv : Bool) (dropped : Nat)
    (cs : List UInt8) :
    (enqueueLoop t flowRcv dropped cs).1.rawInBuf.InBounds ∧
      (enqueueLoop t flowRcv dropped cs).1.rawInBuf.size = t.rawInBuf.size ∧
      t.rawInBuf.input.length ≤ (enqueueLoop t flowRcv dropped cs).1.rawInBuf.input.length ∧
      (enqueueLoop t flowRcv dropped cs).1.rawInBuf.input.length ≤
        t.rawInBuf.input.length + cs.length := by
  induction cs generalizing t flowRcv dropped with
  | nil => exact ⟨h, rfl, Nat.le_refl _, Nat.le_refl _⟩
  | cons c cs ih =>
    obtain ⟨hbounds, hsize, hmore, hone⟩ := length_enqueueCharacter h flowRcv c
    obtain ⟨hbounds', hsize', hmore', hless'⟩ := ih hbounds
      (enqueueCharacter t flowRcv c).2.1 (dropped + (enqueueCharacter t flowRcv c).2.2)
    rw [enqueueLoop_cons]
    refine ⟨hbounds', hsize'.trans hsize, hmore.trans hmore', ?_⟩
    rw [List.length_cons]
    omega

/-- An ordinary character at the start of a call goes into a ring with room. -/
theorem length_enqueueCharacter_ordinary (h : t.rawInBuf.InBounds) (hflow : ¬ IsFlow t c)
    (hroom : t.rawInBuf.input.length + 1 < t.rawInBuf.size) :
    (enqueueCharacter t false c).1.rawInBuf.input.length = t.rawInBuf.input.length + 1 := by
  cases fate t false c with
  | flow hflow' hring hrcv hdropped => exact absurd hflow' hflow
  | lost hflow' hbefore hring hdropped => exact Bool.noConfusion hbefore
  | stored hflow' hbefore hroom' hring hrcv hdropped =>
    rw [hring, Rawbuf.input_append h hroom', List.length_append]
    rfl
  | dropped hflow' hbefore hfull hring hrcv hdropped =>
    rw [Rawbuf.length_input_full h hfull] at hroom
    have hsize := h.head
    omega

/-- One call or two make no difference exactly when they are joinable. -/
theorem enqueue_joined (h : t.rawInBuf.InBounds) {front back : List UInt8}
    (hroom : t.rawInBuf.input.length + (front ++ back).length < t.rawInBuf.size) :
    enqueueRawCharacters t (front ++ back) = enqueueTwice t front back ↔
      Joinable t front back := by
  rw [enqueueRawCharacters_twice]
  unfold enqueueRawCharacters
  rw [enqueueLoop_append, Bool.false_or]
  cases hany : front.any fun c => decide (IsFlow t c) with
  | false =>
    refine ⟨fun _ => .inl ?_, fun _ => rfl⟩
    intro c hc hflow
    rw [List.any_eq_false] at hany
    exact hany c hc (decide_eq_true hflow)
  | true =>
    obtain ⟨d, hd, hdflow⟩ := List.any_eq_true.mp hany
    have hfront : ¬ ∀ c ∈ front, ¬ IsFlow t c := fun hall => hall d hd (of_decide_eq_true hdflow)
    obtain ⟨hbounds, hsize, -, hless⟩ := length_enqueueLoop h false 0 front
    cases back with
    | nil => exact ⟨fun _ => .inr fun c hc => absurd hc.symm (Option.some_ne_none c), fun _ => rfl⟩
    | cons c cs =>
      have hsame : IsFlow (enqueueLoop t false 0 front).1 c ↔ IsFlow t c := isFlow_enqueueLoop
      constructor
      · intro heq
        right
        intro c' hc'
        obtain rfl := Option.some.inj hc'
        by_contra hflow
        -- the ring grows in the second call, and it does not in the one call
        have hring := congrArg (fun all : Tty × Nat => all.1.rawInBuf.input.length) heq
        have hlost := enqueueLoop_lost (enqueueLoop t false 0 front).1
          (enqueueLoop t false 0 front).2 (c :: cs)
        have hpushed := length_enqueueCharacter_ordinary hbounds (hsame.not.mpr hflow)
          (by rw [hsize]; rw [List.length_append, List.length_cons] at hroom; omega)
        obtain ⟨hbounds', -, -, -⟩ := length_enqueueCharacter hbounds false c
        obtain ⟨-, -, hmore, -⟩ := length_enqueueLoop hbounds'
          (enqueueCharacter (enqueueLoop t false 0 front).1 false c).2.1
          ((enqueueLoop t false 0 front).2 +
            (enqueueCharacter (enqueueLoop t false 0 front).1 false c).2.2) cs
        rw [← enqueueLoop_cons] at hmore
        simp only [enqueueEnd, hlost] at hring
        omega
      · intro hjoin
        have hflow := hsame.mpr (hjoin.resolve_left hfront c rfl)
        have hturn : enqueueCharacter (enqueueLoop t false 0 front).1 true c =
            enqueueCharacter (enqueueLoop t false 0 front).1 false c := by
          unfold enqueueCharacter
          rw [(receiveFlow_flow hflow true).2]
        rw [enqueueLoop_cons, enqueueLoop_cons, hturn]

/-- Every character is accounted for in all states of a run if and only if no
call takes an ordinary character after it has consumed VSTART or VSTOP.  With
room in the ring, one call has the effect of two if and only if the first of
the two has no such character or the second one starts with one. -/
theorem input_accounted (h : t.rawInBuf.InBounds) (events : List Event) :
    ((∀ s ∈ states Receiver.step (.start t) events, Accounted s) ↔
      Along Receiver.step Clean (.start t) events) ∧
    ∀ front back, t.rawInBuf.input.length + (front ++ back).length < t.rawInBuf.size →
      (enqueueRawCharacters t (front ++ back) = enqueueTwice t front back ↔
        Joinable t front back) := by
  refine ⟨?_, fun front back => enqueue_joined h⟩
  refine forall_states_iff ?_ ?_ ?_ (Receiver.Inv.start h)
  · exact fun _ hinv => hinv.accounted
  · exact fun _ _ hinv hclean => hinv.step hclean
  · exact fun _ _ hinv hacc => hinv.clean_of_accounted hacc

/-- A terminal that looks for VSTART and VSTOP. -/
def xonTty : Tty := { openTty 8 8 false false with flow := { noFlowCtrl with mdxon := true } }

/-- A call whose VSTOP comes last, and a reader. -/
theorem input_accounted_last :
    (∀ s ∈ states Receiver.step (.start xonTty) [.call [65, 19], .character, .read, .character, .back],
      Accounted s) ∧
    enqueueRawCharacters xonTty ([65] ++ [19]) = enqueueTwice xonTty [65] [19] := by
  have hbounds : xonTty.rawInBuf.InBounds := ⟨by decide, by decide⟩
  constructor
  · refine (input_accounted hbounds _).1.mpr ⟨?_, ?_, ?_, ?_, ?_, trivial⟩
    · intro h
      cases h
    · rintro - c cs flowRcv dropped hcall rfl
      cases hcall
    · intro h
      cases h
    · rintro - c cs flowRcv dropped hcall rfl
      cases hcall
    · intro h
      cases h
  · refine ((input_accounted hbounds []).2 [65] [19] (by decide)).mpr (.inl ?_)
    intro c hc
    rw [List.mem_singleton.mp hc]
    decide

/-- In one call the character behind VSTART is neither stored nor dropped.  In a
call of its own it is stored. -/
theorem input_accounted_lost :
    (let s := ([.call [17, 65], .character, .character, .back] : List Event).foldl Receiver.step
      (.start xonTty)
    s.ordinary = [65] ∧ s.stored = [] ∧ s.taken = [] ∧ s.dropped = 0) ∧
    (enqueueRawCharacters xonTty [17, 65]).1.rawInBuf.input = [] ∧
    (enqueueTwice xonTty [17] [65]).1.rawInBuf.input = [65] := by
  refine ⟨by decide, by decide, by decide⟩

end Rtems.Termios
