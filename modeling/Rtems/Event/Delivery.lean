import Rtems.Event.Model

/-!
# Delivery of events

What holds of every run of an event control.  Two things are followed.  Where
the receiver stands in its call says what its wait flags, its timer and the
stack of pieces can be (`Placed`); this is what keeps a timeout of one receive
out of the next.  And each event is accounted for: as often as it was posted
afresh it was returned, is taken for the receive under way, or is pending.
-/

namespace Rtems.Event

/-! ## The control of a receive -/

/-- Nobody on the stack is about to wake the receiver. -/
def NoWakeup (stack : List Piece) : Prop := ∀ piece ∈ stack, piece = .timeout

/-- The flags before the receiver tries to block: it still intends to, or
somebody was faster. -/
def Intends (c : WaitClass) (flags : WaitFlags) : Prop :=
  flags = ⟨c, some .intendToBlock⟩ ∨ flags = ⟨c, some .readyAgain⟩

/-- What the place of the receiver in its call says. -/
def Placed (c : WaitClass) (flags : WaitFlags) (timer : WatchdogState) (blocked : Bool)
    (stack : List Piece) : Pc → Prop
  | .outside =>
    stack = [] ∧ timer ≠ .active ∧ blocked = false ∧ isBlockingOnEvent c flags = false
  | .timerInsert _ => stack = [] ∧ timer ≠ .active ∧ blocked = false ∧ Intends c flags
  | .setState => NoWakeup stack ∧ blocked = false ∧ Intends c flags
  | .tryChange => NoWakeup stack ∧ blocked = true ∧ Intends c flags
  | .removeTimer => NoWakeup stack ∧ blocked = true ∧ flags = ⟨c, some .readyAgain⟩
  | .unblock =>
    stack = [] ∧ timer ≠ .active ∧ blocked = true ∧ flags = ⟨c, some .readyAgain⟩
  | .done =>
    NoWakeup stack ∧ blocked = true ∧ flags = ⟨c, some .blocked⟩ ∨
      (timer = .active → .removeTimer ∈ stack) ∧ (blocked = true → .unblock ∈ stack) ∧
        flags = ⟨c, some .readyAgain⟩

section

variable {c : WaitClass} {flags : WaitFlags} {timer : WatchdogState} {blocked : Bool}
  {stack : List Piece} {pc : Pc}

theorem NoWakeup.cons (h : NoWakeup stack) : NoWakeup (.timeout :: stack) := by
  intro piece hp
  rcases List.mem_cons.mp hp with rfl | hp
  · rfl
  · exact h piece hp

theorem NoWakeup.tail {piece : Piece} (h : NoWakeup (piece :: stack)) : NoWakeup stack :=
  fun p hp => h p (List.mem_cons_of_mem _ hp)

theorem NoWakeup.head {piece : Piece} (h : NoWakeup (piece :: stack)) : piece = .timeout :=
  h piece List.mem_cons_self

theorem isBlockingOnEvent_iff :
    isBlockingOnEvent c flags = true ↔
      flags.waitClass = c ∧ flags.waitState ≠ some .readyAgain := by
  simp [isBlockingOnEvent]

theorem isBlockingOnEvent_readyAgain : isBlockingOnEvent c ⟨c, some .readyAgain⟩ = false := by
  simp [isBlockingOnEvent]

/-- A thread that intends to block and is not ready again is not woken yet. -/
theorem Intends.eq_of_blocking (h : Intends c flags) (hb : isBlockingOnEvent c flags = true) :
    flags = ⟨c, some .intendToBlock⟩ := by
  rcases h with h | h
  · exact h
  · rw [h, isBlockingOnEvent_readyAgain] at hb
    cases hb

/-- During a receive the flags are those of its class. -/
theorem Placed.waitClass (h : Placed c flags timer blocked stack pc) (hpc : pc ≠ .outside) :
    flags.waitClass = c := by
  have hintends : Intends c flags → flags.waitClass = c := by
    rintro (rfl | rfl) <;> rfl
  cases pc with
  | outside => exact absurd rfl hpc
  | timerInsert ticks => exact hintends h.2.2.2
  | setState => exact hintends h.2.2
  | tryChange => exact hintends h.2.2
  | removeTimer => rw [h.2.2]
  | unblock => rw [h.2.2.2]
  | done => rcases h with ⟨-, -, rfl⟩ | ⟨-, -, rfl⟩ <;> rfl

theorem Placed.expire (h : Placed c flags .active blocked stack pc) :
    Placed c flags .inactive blocked (.timeout :: stack) pc := by
  cases pc with
  | outside => exact absurd rfl h.2.1
  | timerInsert ticks => exact absurd rfl h.2.1
  | setState => exact ⟨h.1.cons, h.2⟩
  | tryChange => exact ⟨h.1.cons, h.2⟩
  | removeTimer => exact ⟨h.1.cons, h.2⟩
  | unblock => exact absurd rfl h.2.1
  | done =>
    rcases h with ⟨hs, hrest⟩ | ⟨-, hb, hf⟩
    · exact .inl ⟨hs.cons, hrest⟩
    · exact .inr ⟨nofun, fun e => List.mem_cons_of_mem _ (hb e), hf⟩

/-- Somebody makes the receiver ready again. -/
theorem Placed.readyAgain {wakeup : List Piece} (h : Placed c flags timer blocked stack pc)
    (hb : isBlockingOnEvent c flags = true) (hun : .unblock ∈ wakeup)
    (hrem : timer = .active → .removeTimer ∈ wakeup) :
    Placed c ⟨c, some .readyAgain⟩ timer blocked
      (if flags.waitState = some .intendToBlock then stack else wakeup ++ stack) pc := by
  have hnot : flags ≠ ⟨c, some .readyAgain⟩ := by
    rintro rfl
    rw [isBlockingOnEvent_readyAgain] at hb
    cases hb
  cases pc with
  | outside => exact absurd (hb.symm.trans h.2.2.2) nofun
  | timerInsert ticks =>
    rw [h.2.2.2.eq_of_blocking hb, if_pos rfl]
    exact ⟨h.1, h.2.1, h.2.2.1, .inr rfl⟩
  | setState =>
    rw [h.2.2.eq_of_blocking hb, if_pos rfl]
    exact ⟨h.1, h.2.1, .inr rfl⟩
  | tryChange =>
    rw [h.2.2.eq_of_blocking hb, if_pos rfl]
    exact ⟨h.1, h.2.1, .inr rfl⟩
  | removeTimer => exact absurd h.2.2 hnot
  | unblock => exact absurd h.2.2.2 hnot
  | done =>
    rcases h with ⟨-, -, hf⟩ | ⟨-, -, hf⟩
    · rw [hf, if_neg nofun]
      refine .inr ⟨?_, ?_, rfl⟩
      · intro e
        exact List.mem_append_left _ (hrem e)
      · intro _
        exact List.mem_append_left _ hun
    · exact absurd hf hnot

/-- The timeout leaves the stack without doing anything. -/
theorem Placed.pop_timeout (h : Placed c flags timer blocked (.timeout :: stack) pc) :
    Placed c flags timer blocked stack pc := by
  cases pc with
  | outside => exact absurd h.1 (List.cons_ne_nil _ _)
  | timerInsert ticks => exact absurd h.1 (List.cons_ne_nil _ _)
  | setState => exact ⟨h.1.tail, h.2⟩
  | tryChange => exact ⟨h.1.tail, h.2⟩
  | removeTimer => exact ⟨h.1.tail, h.2⟩
  | unblock => exact absurd h.1 (List.cons_ne_nil _ _)
  | done =>
    rcases h with ⟨hs, hrest⟩ | ⟨hr, hb, hf⟩
    · exact .inl ⟨hs.tail, hrest⟩
    · refine .inr ⟨?_, ?_, hf⟩
      · intro e
        exact (List.mem_cons.mp (hr e)).resolve_left nofun
      · intro e
        exact (List.mem_cons.mp (hb e)).resolve_left nofun

/-- A wakeup runs only for a receiver that is ready again and has nothing left
to do but return. -/
theorem Placed.done_of_wakeup {piece : Piece}
    (h : Placed c flags timer blocked (piece :: stack) pc) (hp : piece ≠ .timeout) :
    pc = .done ∧ (timer = .active → .removeTimer ∈ piece :: stack) ∧
      (blocked = true → .unblock ∈ piece :: stack) ∧ flags = ⟨c, some .readyAgain⟩ := by
  cases pc with
  | outside => exact absurd h.1 (List.cons_ne_nil _ _)
  | timerInsert ticks => exact absurd h.1 (List.cons_ne_nil _ _)
  | setState => exact absurd h.1.head hp
  | tryChange => exact absurd h.1.head hp
  | removeTimer => exact absurd h.1.head hp
  | unblock => exact absurd h.1 (List.cons_ne_nil _ _)
  | done =>
    rcases h with ⟨hs, -⟩ | hready
    · exact absurd hs.head hp
    · exact ⟨rfl, hready⟩

theorem Placed.pop_removeTimer (h : Placed c flags timer blocked (.removeTimer :: stack) pc) :
    Placed c flags .inactive blocked stack pc := by
  obtain ⟨rfl, -, hb, hf⟩ := h.done_of_wakeup nofun
  refine .inr ⟨nofun, ?_, hf⟩
  intro e
  exact (List.mem_cons.mp (hb e)).resolve_left nofun

theorem Placed.pop_unblock (h : Placed c flags timer blocked (.unblock :: stack) pc) :
    Placed c flags timer false stack pc := by
  obtain ⟨rfl, hr, -, hf⟩ := h.done_of_wakeup nofun
  refine .inr ⟨?_, nofun, hf⟩
  intro e
  exact (List.mem_cons.mp (hr e)).resolve_left nofun

end

/-! ## The events -/

/-- The events answer the request. -/
structure Fits (events condition : EventSet) (option : Options) : Prop where
  ne_zero : events ≠ 0#32
  subset : events &&& condition = events
  all : option.any = false → events = condition

theorem fits_of_satisfied {pending condition : EventSet} {option : Options}
    (h : satisfied pending condition option = true) :
    Fits (pending &&& condition) condition option := by
  simp only [satisfied, Bool.and_eq_true, decide_eq_true_eq, Bool.or_eq_true] at h
  refine ⟨h.1, ?_, ?_⟩
  · rw [BitVec.and_assoc, BitVec.and_self]
  · intro hall
    rcases h.2 with heq | hany
    · exact heq
    · rw [hall] at hany
      cases hany

/-- One if the event is in the set. -/
def bit (events : EventSet) (b : Nat) : Nat := if events.getLsbD b then 1 else 0

@[simp] theorem bit_zero (b : Nat) : bit 0#32 b = 0 := by
  simp [bit]

/-- Seized events leave the pending set. -/
theorem bit_clear (pending condition : EventSet) (b : Nat) :
    bit (pending &&& condition) b + bit (pending &&& ~~~ (pending &&& condition)) b =
      bit pending b := by
  unfold bit
  cases hp : pending.getLsbD b with
  | false => simp [hp]
  | true =>
    have hb : b < 32 := BitVec.lt_of_getLsbD hp
    simp only [BitVec.getLsbD_and, BitVec.getLsbD_not, hp, hb]
    cases condition.getLsbD b <;> rfl

/-- What the receives that succeeded returned. -/
def returned (receipts : List Receipt) (b : Nat) : Nat :=
  receipts.countP fun r => decide (r.code = .successful) && r.eventOut.getLsbD b

/-- A receive that succeeded returned what it took, and that answers its
request; one that did not succeed took nothing. -/
structure Receipt.Sound (r : Receipt) : Prop where
  success : r.code = .successful → r.eventOut = r.taken ∧ Fits r.taken r.eventIn r.options
  failure : r.code ≠ .successful → r.taken = 0#32

theorem returned_cons {r : Receipt} (h : r.Sound) (receipts : List Receipt) (b : Nat) :
    returned (r :: receipts) b = returned receipts b + bit r.taken b := by
  unfold returned
  rw [List.countP_cons]
  congr 1
  unfold bit
  cases hcode : decide (r.code = .successful) with
  | true => rw [(h.success (of_decide_eq_true hcode)).1, Bool.true_and]
  | false =>
    rw [h.failure (of_decide_eq_false hcode)]
    simp

/-! ## The invariant -/

/-- What a receive under way has come to.  While the receiver is not woken its
condition is not satisfied.  Then it is bound to return the events taken for
it, or to report the timeout. -/
structure Outcome (c : WaitClass) (s : State) : Prop where
  outside : s.pc = .outside → s.taken = 0#32
  asleep : isBlockingOnEvent c s.flags = true →
    satisfied s.pendingEvents s.condition s.option = false ∧ s.returnCode = .successful ∧
      s.taken = 0#32
  awake : s.pc ≠ .outside → isBlockingOnEvent c s.flags = false →
    s.returnCode = .successful ∧ s.eventOut = s.taken ∧ Fits s.taken s.condition s.option ∨
      s.returnCode = .timeout ∧ s.taken = 0#32

/-- The invariant of the runs. -/
structure Inv (kind : Kind) (s : State) : Prop where
  placed : Placed kind.waitClass s.flags s.timer s.blocked s.stack s.pc
  expired : .timeout ∈ s.stack → s.timer = .inactive
  timeoutCode : s.timer = .active ∨ .timeout ∈ s.stack → s.timeoutCode = .timeout
  outcome : Outcome kind.waitClass s
  ledger : ∀ b, s.posted b = returned s.receipts b + bit s.taken b + bit s.pendingEvents b
  receipts : ∀ r ∈ s.receipts, r.Sound

variable {kind : Kind} {s s' : State}

theorem Inv.start : Inv kind start where
  placed := by
    refine ⟨rfl, nofun, rfl, ?_⟩
    cases kind <;> rfl
  expired := fun h => absurd h List.not_mem_nil
  timeoutCode := by
    rintro (h | h)
    · cases h
    · exact absurd h List.not_mem_nil
  outcome := by
    refine ⟨fun _ => rfl, ?_, fun h => absurd rfl h⟩
    intro h
    cases kind <;> cases h
  ledger := fun b => by
    show 0 = 0 + bit 0#32 b + bit 0#32 b
    rw [bit_zero]
  receipts := fun _ h => absurd h List.not_mem_nil

/-! ## Waking the receiver -/

theorem readyAgain_eq (s : State) (wakeup : List Piece) :
    readyAgain s wakeup =
      { s with
        flags := ⟨s.flags.waitClass, some .readyAgain⟩
        stack := if s.flags.waitState = some .intendToBlock then s.stack else wakeup ++ s.stack } := by
  unfold readyAgain
  simp only
  split
  next => rfl
  next => rfl

/-- A wakeup brings no timeout. -/
theorem timeout_mem_wakeup {wakeup stack : List Piece} {p : Prop} [Decidable p]
    (hw : .timeout ∉ wakeup) (h : Piece.timeout ∈ if p then stack else wakeup ++ stack) :
    Piece.timeout ∈ stack := by
  split at h
  · exact h
  · exact (List.mem_append.mp h).resolve_left hw

/-- The receiver is woken with an outcome. -/
theorem Inv.wake {wakeup : List Piece} (h : Inv kind s)
    (hb : isBlockingOnEvent kind.waitClass s.flags = true) (hun : .unblock ∈ wakeup)
    (hrem : s.timer = .active → .removeTimer ∈ wakeup) (hto : .timeout ∉ wakeup)
    (hflags : s'.flags = s.flags) (htimer : s'.timer = s.timer) (hblocked : s'.blocked = s.blocked)
    (hstack : s'.stack = s.stack) (hpc : s'.pc = s.pc) (htimeout : s'.timeoutCode = s.timeoutCode)
    (houtcome : s'.returnCode = .successful ∧ s'.eventOut = s'.taken ∧
        Fits s'.taken s'.condition s'.option ∨ s'.returnCode = .timeout ∧ s'.taken = 0#32)
    (hledger : ∀ b, s'.posted b = returned s'.receipts b + bit s'.taken b + bit s'.pendingEvents b)
    (hreceipts : s'.receipts = s.receipts) : Inv kind (readyAgain s' wakeup) := by
  have hclass := (isBlockingOnEvent_iff.mp hb).1
  have houtside : s.pc ≠ .outside := by
    intro e
    have hp := h.placed
    rw [e] at hp
    exact absurd (hb.symm.trans hp.2.2.2) nofun
  rw [readyAgain_eq, hflags, hstack, hclass]
  constructor
  case placed =>
    simp only [htimer, hblocked, hpc]
    exact h.placed.readyAgain hb hun hrem
  case expired =>
    intro hm
    exact htimer.trans (h.expired (timeout_mem_wakeup hto hm))
  case timeoutCode =>
    rintro (ht | hm)
    · exact htimeout.trans (h.timeoutCode (.inl (htimer.symm.trans ht)))
    · exact htimeout.trans (h.timeoutCode (.inr (timeout_mem_wakeup hto hm)))
  case outcome =>
    refine ⟨?_, ?_, fun _ _ => houtcome⟩
    · intro e
      exact absurd (hpc.symm.trans e) houtside
    · intro hc
      rw [isBlockingOnEvent_readyAgain] at hc
      cases hc
  case ledger => exact hledger
  case receipts =>
    intro r hr
    exact h.receipts r (hreceipts ▸ hr)

/-! ## Senders -/

/-- Posting counts the events that were not pending. -/
theorem Inv.post_ledger (h : Inv kind s) (eventIn : EventSet) (b : Nat) :
    (post s eventIn).posted b =
      returned s.receipts b + bit s.taken b + bit (post s eventIn).pendingEvents b := by
  have hl := h.ledger b
  show (if eventIn.getLsbD b && !s.pendingEvents.getLsbD b then s.posted b + 1 else s.posted b) =
    _ + bit (s.pendingEvents ||| eventIn) b
  unfold bit at *
  rw [BitVec.getLsbD_or, hl]
  cases s.pendingEvents.getLsbD b <;> cases eventIn.getLsbD b <;> rfl

theorem Inv.surrender (h : Inv kind s) (eventIn : EventSet) :
    Inv kind (surrender kind.waitClass s eventIn) := by
  unfold Event.surrender
  simp only
  split
  next hboth =>
    obtain ⟨hb, hsat⟩ := Bool.and_eq_true_iff.mp hboth
    have hb : isBlockingOnEvent kind.waitClass s.flags = true := hb
    obtain ⟨-, hcode, htaken⟩ := h.outcome.asleep hb
    refine h.wake hb (List.mem_cons_of_mem _ List.mem_cons_self) (fun _ => List.mem_cons_self)
      (by decide) rfl rfl rfl rfl rfl rfl ?_ ?_ rfl
    · exact .inl ⟨hcode, rfl, fits_of_satisfied hsat⟩
    · intro b
      have hl := h.post_ledger eventIn b
      rw [htaken, bit_zero, ← bit_clear _ s.condition b] at hl
      show (post s eventIn).posted b = returned s.receipts b +
        bit ((post s eventIn).pendingEvents &&& s.condition) b +
        bit ((post s eventIn).pendingEvents &&&
          ~~~ ((post s eventIn).pendingEvents &&& s.condition)) b
      omega
  next hboth =>
    constructor
    case placed => exact h.placed
    case expired => exact h.expired
    case timeoutCode => exact h.timeoutCode
    case outcome =>
      refine ⟨h.outcome.outside, ?_, h.outcome.awake⟩
      intro hb
      obtain ⟨-, hcode, htaken⟩ := h.outcome.asleep hb
      refine ⟨?_, hcode, htaken⟩
      rw [Bool.and_eq_true_iff, not_and] at hboth
      exact Bool.eq_false_iff.mpr (hboth hb)
    case ledger => exact h.post_ledger eventIn
    case receipts => exact h.receipts

/-! ## The timeout -/

theorem Inv.expire (h : Inv kind s) (htimer : s.timer = .active) : Inv kind (expire s) := by
  constructor
  case placed =>
    have hp := h.placed
    rw [htimer] at hp
    exact hp.expire
  case expired => exact fun _ => rfl
  case timeoutCode => exact fun _ => h.timeoutCode (.inl htimer)
  case outcome => exact ⟨h.outcome.outside, h.outcome.asleep, h.outcome.awake⟩
  case ledger => exact h.ledger
  case receipts => exact h.receipts

/-- A piece leaves the stack.  What it does to the timer and to the state of
the thread does not touch the events. -/
theorem Inv.pop {piece : Piece} {rest : List Piece} {timer : WatchdogState} {blocked : Bool}
    (h : Inv kind s) (hstack : s.stack = piece :: rest)
    (hplaced : Placed kind.waitClass s.flags timer blocked rest s.pc)
    (htimer : timer = s.timer ∨ timer = .inactive) :
    Inv kind { s with stack := rest, timer := timer, blocked := blocked } := by
  have hmem : .timeout ∈ rest → .timeout ∈ s.stack := by
    intro hm
    rw [hstack]
    exact List.mem_cons_of_mem _ hm
  constructor
  case placed => exact hplaced
  case expired =>
    intro hm
    rcases htimer with rfl | rfl
    · exact h.expired (hmem hm)
    · rfl
  case timeoutCode =>
    rintro (ht | hm)
    · rcases htimer with rfl | rfl
      · exact h.timeoutCode (.inl ht)
      · cases ht
    · exact h.timeoutCode (.inr (hmem hm))
  case outcome => exact ⟨h.outcome.outside, h.outcome.asleep, h.outcome.awake⟩
  case ledger => exact h.ledger
  case receipts => exact h.receipts

theorem Inv.runPiece {piece : Piece} {rest : List Piece} (h : Inv kind s)
    (hstack : s.stack = piece :: rest) : Inv kind (runPiece { s with stack := rest } piece) := by
  have hp := h.placed
  rw [hstack] at hp
  cases piece with
  | removeTimer => exact h.pop hstack hp.pop_removeTimer (.inr rfl)
  | unblock => exact h.pop hstack hp.pop_unblock (.inl rfl)
  | timeout =>
    have hpopped := h.pop hstack hp.pop_timeout (.inl rfl)
    unfold Event.runPiece timeout
    simp only
    split
    next => exact hpopped
    next hstate =>
      have hm : .timeout ∈ s.stack := by
        rw [hstack]
        exact List.mem_cons_self
      have hoff := h.expired hm
      have hpc : s.pc ≠ .outside := by
        intro e
        rw [e] at hp
        exact absurd hp.1 (List.cons_ne_nil _ _)
      have hb : isBlockingOnEvent kind.waitClass s.flags = true :=
        isBlockingOnEvent_iff.mpr ⟨hp.waitClass hpc, hstate⟩
      have htaken := (h.outcome.asleep hb).2.2
      refine hpopped.wake hb List.mem_cons_self ?_ (by decide) rfl rfl rfl rfl rfl rfl ?_
        h.ledger rfl
      · intro hactive
        exact absurd (hoff.symm.trans hactive) nofun
      · exact .inr ⟨h.timeoutCode (.inr hm), htaken⟩

/-! ## The receiver -/

/-- The receive is over. -/
theorem Inv.receipt {eventIn : EventSet} {options : Options} (hplaced :
      Placed kind.waitClass s.flags s.timer s.blocked s.stack .outside)
    (hsound : (⟨eventIn, options, s.returnCode, s.eventOut, s.taken⟩ : Receipt).Sound)
    (hledger : ∀ b, s.posted b = returned s.receipts b + bit s.taken b + bit s.pendingEvents b)
    (hreceipts : ∀ r ∈ s.receipts, r.Sound) : Inv kind (receipt s eventIn options) := by
  obtain ⟨hstack, htimer, hblocked, hflags⟩ := hplaced
  constructor
  case placed => exact ⟨hstack, htimer, hblocked, hflags⟩
  case expired =>
    intro hm
    rw [show (Event.receipt s eventIn options).stack = [] from hstack] at hm
    exact absurd hm List.not_mem_nil
  case timeoutCode =>
    rintro (ht | hm)
    · exact absurd ht htimer
    · rw [show (Event.receipt s eventIn options).stack = [] from hstack] at hm
      exact absurd hm List.not_mem_nil
  case outcome =>
    refine ⟨fun _ => rfl, ?_, fun hpc => absurd rfl hpc⟩
    intro hb
    exact absurd (hb.symm.trans hflags) nofun
  case ledger =>
    intro b
    show s.posted b = returned (_ :: s.receipts) b + bit 0#32 b + bit s.pendingEvents b
    rw [returned_cons hsound, hledger b, bit_zero]
    rfl
  case receipts =>
    intro r hr
    rcases List.mem_cons.mp hr with rfl | hr
    · exact hsound
    · exact hreceipts r hr

theorem Inv.seize (h : Inv kind s) (hpc : s.pc = .outside) (eventIn : EventSet)
    (options : Options) (ticks : Nat) :
    Inv kind (seize kind.waitClass s eventIn options ticks) := by
  have hp := h.placed
  rw [hpc] at hp
  have htaken := h.outcome.outside hpc
  unfold Event.seize
  simp only
  split
  next hsat =>
    refine .receipt hp ⟨fun _ => ⟨rfl, fits_of_satisfied hsat⟩, fun hc => absurd rfl hc⟩ ?_
      h.receipts
    intro b
    have hl := h.ledger b
    have hclear := bit_clear s.pendingEvents eventIn b
    rw [htaken, bit_zero] at hl
    show s.posted b = returned s.receipts b + bit (s.pendingEvents &&& eventIn) b +
      bit (s.pendingEvents &&& ~~~ (s.pendingEvents &&& eventIn)) b
    omega
  next hsat =>
    split
    next => exact .receipt hp ⟨nofun, fun _ => htaken⟩ h.ledger h.receipts
    next =>
      constructor
      case placed => exact ⟨hp.1, hp.2.1, hp.2.2.1, .inl rfl⟩
      case expired => exact h.expired
      case timeoutCode => exact h.timeoutCode
      case outcome =>
        refine ⟨nofun, ?_, ?_⟩
        · intro _
          exact ⟨Bool.eq_false_iff.mpr hsat, rfl, htaken⟩
        · intro _ hb
          have hb' : isBlockingOnEvent kind.waitClass ⟨kind.waitClass, some .intendToBlock⟩ = true :=
            isBlockingOnEvent_iff.mpr ⟨rfl, nofun⟩
          exact absurd (hb'.symm.trans hb) nofun
      case ledger => exact h.ledger
      case receipts => exact h.receipts

/-- The receiver moves on without touching the events. -/
theorem Inv.advance {flags : WaitFlags} {timer : WatchdogState} {blocked : Bool} {pc : Pc}
    {code : Status} (h : Inv kind s) (hstack : s.stack = []) (hpc : s.pc ≠ .outside)
    (hplaced : Placed kind.waitClass flags timer blocked s.stack pc) (hpc' : pc ≠ .outside)
    (hflags : isBlockingOnEvent kind.waitClass flags =
      isBlockingOnEvent kind.waitClass s.flags)
    (hcode : timer = .active → code = .timeout) :
    Inv kind
      { s with
        flags := flags
        timer := timer
        blocked := blocked
        pc := pc
        timeoutCode := code } := by
  have hnot : .timeout ∉ s.stack := by
    rw [hstack]
    exact List.not_mem_nil
  constructor
  case placed => exact hplaced
  case expired => exact fun hm => absurd hm hnot
  case timeoutCode => exact fun hm => hcode (hm.resolve_right hnot)
  case outcome =>
    refine ⟨fun e => absurd e hpc', ?_, ?_⟩
    · intro hb
      exact h.outcome.asleep (hflags.symm.trans hb)
    · intro _ hb
      exact h.outcome.awake hpc (hflags.symm.trans hb)
  case ledger => exact h.ledger
  case receipts => exact h.receipts

theorem Inv.seizeTurn (h : Inv kind s) (hstack : s.stack = []) :
    Inv kind (seizeTurn kind.waitClass s) := by
  have hp := h.placed
  have hkeep : s.timer = .active → s.timeoutCode = .timeout := fun ht => h.timeoutCode (.inl ht)
  have hnone : NoWakeup s.stack := by
    intro piece hm
    rw [hstack] at hm
    exact absurd hm List.not_mem_nil
  unfold Event.seizeTurn
  cases hpc : s.pc with
  | outside =>
    simp only
    exact h
  | timerInsert ticks =>
    rw [hpc] at hp
    have hne : s.pc ≠ .outside := by
      rw [hpc]
      exact nofun
    simp only
    split
    · exact h.advance hstack hne ⟨hnone, hp.2.2⟩ nofun rfl fun _ => rfl
    · exact h.advance hstack hne ⟨hnone, hp.2.2⟩ nofun rfl hkeep
  | setState =>
    rw [hpc] at hp
    have hne : s.pc ≠ .outside := by
      rw [hpc]
      exact nofun
    exact h.advance hstack hne ⟨hnone, rfl, hp.2.2⟩ nofun rfl hkeep
  | tryChange =>
    rw [hpc] at hp
    have hne : s.pc ≠ .outside := by
      rw [hpc]
      exact nofun
    simp only
    split
    next hflags =>
      refine h.advance hstack hne (.inl ⟨hnone, hp.2.1, rfl⟩) nofun ?_ hkeep
      rw [hflags]
      simp [isBlockingOnEvent]
    next hflags =>
      exact h.advance hstack hne ⟨hnone, hp.2.1, hp.2.2.resolve_left hflags⟩ nofun rfl hkeep
  | removeTimer =>
    rw [hpc] at hp
    have hne : s.pc ≠ .outside := by
      rw [hpc]
      exact nofun
    exact h.advance hstack hne ⟨hstack, nofun, hp.2⟩ nofun rfl nofun
  | unblock =>
    rw [hpc] at hp
    have hne : s.pc ≠ .outside := by
      rw [hpc]
      exact nofun
    refine h.advance hstack hne (.inr ⟨?_, nofun, hp.2.2.2⟩) nofun rfl hkeep
    intro ht
    exact absurd ht hp.2.1
  | done =>
    rw [hpc] at hp
    have hne : s.pc ≠ .outside := by
      rw [hpc]
      exact nofun
    simp only
    split
    next => exact h
    next hready =>
      have hready : s.blocked = false := Bool.eq_false_iff.mpr hready
      rcases hp with ⟨-, hb, -⟩ | ⟨hrem, -, hflags⟩
      · exact absurd (hb.symm.trans hready) nofun
      · have htimer : s.timer ≠ .active := by
          intro ht
          have hm := hrem ht
          rw [hstack] at hm
          exact absurd hm List.not_mem_nil
        have hawake : isBlockingOnEvent kind.waitClass s.flags = false := by
          rw [hflags]
          exact isBlockingOnEvent_readyAgain
        refine .receipt ⟨hstack, htimer, hready, hawake⟩ ?_ h.ledger h.receipts
        rcases h.outcome.awake hne hawake with ⟨hcode, hout, hfits⟩ | ⟨hcode, htaken⟩
        · exact ⟨fun _ => ⟨hout, hfits⟩, fun hc => absurd hcode hc⟩
        · exact ⟨fun hc => absurd (hcode.symm.trans hc) nofun, fun _ => htaken⟩

/-- Between two receives the thread may wait for something else. -/
theorem Inv.otherWait (h : Inv kind s) (hpc : s.pc = .outside) {flags : WaitFlags}
    (hclass : flags.waitClass ≠ kind.waitClass) (option : Options) (condition : EventSet)
    (code timeoutCode : Status) (eventOut : EventSet) :
    Inv kind
      { s with
        flags := flags
        option := option
        condition := condition
        returnCode := code
        timeoutCode := timeoutCode
        eventOut := eventOut } := by
  have hp := h.placed
  rw [hpc] at hp
  obtain ⟨hstack, htimer, hblocked, -⟩ := hp
  have hnot : .timeout ∉ s.stack := by
    rw [hstack]
    exact List.not_mem_nil
  have hflags : isBlockingOnEvent kind.waitClass flags = false := by
    refine Bool.eq_false_iff.mpr ?_
    intro hb
    exact hclass (isBlockingOnEvent_iff.mp hb).1
  constructor
  case placed =>
    show Placed _ flags s.timer s.blocked s.stack s.pc
    rw [hpc]
    exact ⟨hstack, htimer, hblocked, hflags⟩
  case expired => exact fun hm => absurd hm hnot
  case timeoutCode =>
    rintro (ht | hm)
    · exact absurd ht htimer
    · exact absurd hm hnot
  case outcome =>
    refine ⟨h.outcome.outside, ?_, fun hc => absurd hpc hc⟩
    intro hb
    exact absurd (hb.symm.trans hflags) nofun
  case ledger => exact h.ledger
  case receipts => exact h.receipts

/-! ## Runs -/

theorem Inv.step (h : Inv kind s) (hstep : Step kind s s') : Inv kind s' := by
  cases hstep with
  | seize eventIn options ticks hpc hstack => exact h.seize hpc eventIn options ticks
  | seizeTurn hstack => exact h.seizeTurn hstack
  | surrender eventIn => exact h.surrender eventIn
  | expire htimer => exact h.expire htimer
  | runPiece piece rest hstack => exact h.runPiece hstack
  | otherWait flags option condition code timeoutCode eventOut hpc hclass =>
    exact h.otherWait hpc hclass option condition code timeoutCode eventOut

theorem Reachable.inv (h : Reachable kind s) : Inv kind s :=
  Reach.invariant h .start fun _ _ hi hs => hi.step hs

/-- In every state of every run: an event was posted afresh as often as it was
returned by a receive that succeeded, taken for the one receive under way, or is
still pending, and the receive under way is bound to return what was taken for
it; a receive that succeeded returned exactly the events it took, not none,
within its request, and all of it when all was asked for; a receive that timed
out took nothing; and a receiver whose flags say that it waits, in particular
one that is blocked with nobody about to wake it, has a pending set that does not
satisfy its condition. -/
theorem event_delivery (h : Reachable kind s) :
    (∀ b, s.posted b = returned s.receipts b + bit s.taken b + bit s.pendingEvents b) ∧
      (s.taken ≠ 0#32 → s.pc ≠ .outside ∧ s.flags = ⟨kind.waitClass, some .readyAgain⟩ ∧
        s.returnCode = .successful ∧ s.eventOut = s.taken) ∧
      (∀ r ∈ s.receipts, r.code = .successful →
        r.eventOut = r.taken ∧ r.eventOut ≠ 0#32 ∧ r.eventOut &&& r.eventIn = r.eventOut ∧
          (r.options.any = false → r.eventOut = r.eventIn)) ∧
      (∀ r ∈ s.receipts, r.code = .timeout → r.taken = 0#32) ∧
      (s.pc ≠ .outside → s.flags.waitState ≠ some .readyAgain →
        satisfied s.pendingEvents s.condition s.option = false) ∧
      (s.pc = .done → s.blocked = true → s.stack = [] →
        satisfied s.pendingEvents s.condition s.option = false) := by
  have hinv := h.inv
  have hasleep : s.pc ≠ .outside → s.flags.waitState ≠ some .readyAgain →
      satisfied s.pendingEvents s.condition s.option = false := by
    intro hpc hstate
    exact (hinv.outcome.asleep (isBlockingOnEvent_iff.mpr ⟨hinv.placed.waitClass hpc, hstate⟩)).1
  refine ⟨hinv.ledger, ?_, ?_, ?_, hasleep, ?_⟩
  · intro htaken
    have hpc : s.pc ≠ .outside := fun e => htaken (hinv.outcome.outside e)
    have hclass := hinv.placed.waitClass hpc
    cases hb : isBlockingOnEvent kind.waitClass s.flags with
    | true => exact absurd (hinv.outcome.asleep hb).2.2 htaken
    | false =>
      rcases hinv.outcome.awake hpc hb with ⟨hcode, hout, -⟩ | ⟨-, hzero⟩
      · refine ⟨hpc, ?_, hcode, hout⟩
        have hstate : s.flags.waitState = some .readyAgain := by
          refine Decidable.not_not.mp ?_
          intro hne
          exact absurd (hb.symm.trans (isBlockingOnEvent_iff.mpr ⟨hclass, hne⟩)) nofun
        rw [← hclass, ← hstate]
      · exact absurd hzero htaken
  · intro r hr hcode
    obtain ⟨hout, hfits⟩ := (hinv.receipts r hr).success hcode
    rw [hout]
    exact ⟨rfl, hfits.ne_zero, hfits.subset, hfits.all⟩
  · intro r hr hcode
    refine (hinv.receipts r hr).failure ?_
    rw [hcode]
    exact nofun
  · intro hpc hblocked hstack
    have hp := hinv.placed
    rw [hpc] at hp
    rcases hp with ⟨-, -, hflags⟩ | ⟨-, hun, -⟩
    · refine hasleep ?_ ?_
      · rw [hpc]
        exact nofun
      · rw [hflags]
        exact nofun
    · have hm := hun hblocked
      rw [hstack] at hm
      exact absurd hm List.not_mem_nil

/-- A receive of two events with a timeout.  The first one comes in before the
timer is inserted, the second one while the thread has not blocked yet. -/
def receivesBoth : State :=
  let asked := surrender .event (seize .event start 3#32 ⟨false, false⟩ 5) 1#32
  let posted := surrender .event (seizeTurn .event asked) 2#32
  (seizeTurn .event)^[5] posted

theorem reachable_receivesBoth : Reachable .event receivesBoth := by
  have hturn : ∀ s, Reachable .event s → s.stack = [] → Reachable .event (seizeTurn .event s) :=
    fun s hs hstack => .tail hs (.seizeTurn s hstack)
  have hasked : Reachable .event (surrender .event (seize .event start 3#32 ⟨false, false⟩ 5) 1#32) :=
    .tail (.tail .refl (.seize _ 3#32 ⟨false, false⟩ 5 rfl rfl)) (.surrender _ 1#32)
  have hposted := Relation.ReflTransGen.tail (hturn _ hasked rfl) (.surrender _ 2#32)
  exact hturn _ (hturn _ (hturn _ (hturn _ (hturn _ hposted rfl) rfl) rfl) rfl) rfl

/-- It returns both. -/
theorem event_delivery_both :
    receivesBoth.receipts = [⟨3#32, ⟨false, false⟩, .successful, 3#32, 3#32⟩] ∧
      receivesBoth.posted 1 = returned receivesBoth.receipts 1 + bit receivesBoth.taken 1 +
        bit receivesBoth.pendingEvents 1 :=
  ⟨by decide, (event_delivery reachable_receivesBoth).1 1⟩

end Rtems.Event
