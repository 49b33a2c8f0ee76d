import Rtems.PosixTimer.Model

/-!
# Runs of POSIX timers

What holds of a timer depends on where the call that is about it stands.  A tick
can expire the timer at any of these places.
-/

namespace Rtems.PosixTimer

variable {Pid Tid : Type} [DecidableEq Pid] {us : Nat} {s s' : State Pid Tid} {t : Timer Tid}
  {last : Option Itimerspec} {normalize : Itimerspec} {p q : Pid}

/-! ## Timers at rest -/

/-- The timer runs with the interval of a setting. -/
structure Armed (us : Nat) (t : Timer Tid) (v : Itimerspec) : Prop where
  active : t.watchdog.state = .active
  interval : t.timerData.interval = v.interval
  ticks : t.ticks = v.interval.toTicks us
  /-- The watchdog was started for the first time, or for an interval. -/
  initial : t.watchdog.initial = v.value.toTicks us ∨ t.watchdog.initial = v.interval.toTicks us
  fits : v.Periodic → v.interval.Fits us

/-- A timer that no call is about. -/
structure Settled (us : Nat) (t : Timer Tid) (last : Option Itimerspec) : Prop where
  run : t.state = .createRun ↔ t.watchdog.state = .active
  inserted : t.watchdog.state ≠ .beingInserted
  armed : ∀ v, last = some v → v.Periodic → Armed us t v

/-- The service routine starts the watchdog again. -/
theorem tsr_periodic (h : t.periodic = true) : t.removeTicks.tsr =
    (true, { t with
      state := .createRun
      overrun := 0
      watchdog := ⟨.active, t.ticks, t.ticks⟩ }) := by
  have h' : ({ t.removeTicks with overrun := t.overrun + 1 } : Timer Tid).periodic = true := h
  unfold Timer.tsr
  dsimp only
  rw [show t.removeTicks.overrun = t.overrun from rfl, if_pos h']
  rfl

/-- The service routine leaves the watchdog off the chain. -/
theorem tsr_oneShot (h : t.periodic = false) : t.removeTicks.tsr =
    (true, { t.removeTicks with state := .createStop, overrun := 0 }) := by
  have h' : ¬ ({ t.removeTicks with overrun := t.overrun + 1 } : Timer Tid).periodic = true := by
    intro hp
    exact absurd (h.symm.trans hp) nofun
  unfold Timer.tsr
  dsimp only
  rw [show t.removeTicks.overrun = t.overrun from rfl, if_neg h']

theorem tsr_signals (t : Timer Tid) : t.removeTicks.tsr.1 = true := by
  cases h : t.periodic with
  | true => rw [tsr_periodic h]
  | false => rw [tsr_oneShot h]

/-- A timer with a periodic setting has an interval. -/
theorem Armed.periodic {v : Itimerspec} (h : Armed us t v) (hv : v.Periodic) :
    t.periodic = true := by
  unfold Timer.periodic
  rw [h.interval]
  rcases hv.2 with hsec | hnsec
  · simp [hsec]
  · simp [hnsec]

theorem Settled.tsr (h : Settled us t last) : Settled us t.removeTicks.tsr.2 last := by
  cases hp : t.periodic with
  | true =>
    rw [tsr_periodic hp]
    refine ⟨⟨fun _ => rfl, fun _ => rfl⟩, nofun, ?_⟩
    intro v hv hper
    have ha := h.armed v hv hper
    exact ⟨rfl, ha.interval, ha.ticks, .inr ha.ticks, ha.fits⟩
  | false =>
    rw [tsr_oneShot hp]
    refine ⟨⟨nofun, nofun⟩, nofun, ?_⟩
    intro v hv hper
    exact absurd ((h.armed v hv hper).periodic hper) (by simp [hp])

/-! ## Timers in a call -/

/-- What holds where a call of `timer_settime` stands. -/
def CallInv (us : Nat) (t : Timer Tid) (last : Option Itimerspec) (normalize : Itimerspec) :
    At → Prop
  | .stopRemove => Settled us t last ∧ ¬ normalize.Periodic
  | .stopOvalue | .stopData => t.watchdog.state = .inactive ∧ ¬ normalize.Periodic
  | .stopState =>
    t.watchdog.state = .inactive ∧ ¬ normalize.Periodic ∧ t.timerData = normalize
  | .ticks => Settled us t last
  | .remove => t.watchdog.state ≠ .beingInserted ∧ t.ticks = normalize.interval.toTicks us
  | .acquire => t.watchdog.state = .inactive ∧ t.ticks = normalize.interval.toTicks us
  | .inserting => t.watchdog.state = .beingInserted ∧ t.ticks = normalize.interval.toTicks us ∧
      t.watchdog.initial = normalize.value.toTicks us
  | .ovalue | .data => t.watchdog.state = .active ∧ t.ticks = normalize.interval.toTicks us ∧
      (t.watchdog.initial = normalize.value.toTicks us ∨
        t.watchdog.initial = normalize.interval.toTicks us)
  | .state => Armed us t normalize
  | .put => Settled us t (some normalize)

/-- Where the calls leave a timer. -/
inductive Phase where
  | closed
  | settled
  | deleting
  | setting (normalize : Itimerspec) (position : At)

def phase (s : State Pid Tid) (p : Pid) : Phase :=
  match s.call with
  | .settime q normalize position =>
    if q = p then .setting normalize position else if s.isOpen p then .settled else .closed
  | .delete q => if q = p then .deleting else if s.isOpen p then .settled else .closed
  | .none => if s.isOpen p then .settled else .closed

/-- What holds of a timer. -/
def PhaseInv (us : Nat) (t : Timer Tid) (last : Option Itimerspec) : Phase → Prop
  | .closed => t.watchdog.state = .inactive
  | .settled => Settled us t last
  | .deleting => t.watchdog.state ≠ .beingInserted
  | .setting normalize position => CallInv us t last normalize position

structure Inv (us : Nat) (s : State Pid Tid) : Prop where
  timer : ∀ p, PhaseInv us (s.timers p) (s.last p) (phase s p)
  /-- `timer_settime` is about an open timer, and its interval has a number of ticks. -/
  opened : ∀ p normalize position, s.call = .settime p normalize position →
    s.isOpen p = true ∧ (normalize.Periodic → normalize.interval.Fits us)
  deleted : ∀ p, s.call = .delete p → s.isOpen p = false
  kills : s.kills.map Prod.fst = s.expiries

/-! ## A tick -/

theorem PhaseInv.tsr {φ : Phase} (h : PhaseInv us t last φ) (ha : t.watchdog.state = .active)
    (hc : ∀ normalize position, φ = .setting normalize position →
      position = .ovalue ∨ position = .data ∨ position = .state → t.periodic = true) :
    PhaseInv us t.removeTicks.tsr.2 last φ := by
  have hinactive : t.watchdog.state ≠ .inactive := by
    rw [ha]
    exact nofun
  have hinserted : t.removeTicks.tsr.2.watchdog.state ≠ .beingInserted := by
    cases hp : t.periodic with
    | true => rw [tsr_periodic hp]; exact nofun
    | false => rw [tsr_oneShot hp]; exact nofun
  have hticks : t.removeTicks.tsr.2.ticks = t.ticks := by
    cases hp : t.periodic with
    | true => rw [tsr_periodic hp]
    | false => rw [tsr_oneShot hp]; rfl
  cases φ with
  | closed => exact absurd h hinactive
  | settled => exact Settled.tsr h
  | deleting => exact hinserted
  | setting normalize position =>
    cases position with
    | stopRemove => exact ⟨Settled.tsr h.1, h.2⟩
    | stopOvalue => exact absurd h.1 hinactive
    | stopData => exact absurd h.1 hinactive
    | stopState => exact absurd h.1 hinactive
    | ticks => exact Settled.tsr h
    | remove => exact ⟨hinserted, hticks.trans h.2⟩
    | acquire => exact absurd h.1 hinactive
    | inserting => exact absurd (ha.symm.trans h.1) nofun
    | ovalue =>
      rw [tsr_periodic (hc _ _ rfl (.inl rfl))]
      exact ⟨rfl, h.2.1, .inr h.2.1⟩
    | data =>
      rw [tsr_periodic (hc _ _ rfl (.inr (.inl rfl)))]
      exact ⟨rfl, h.2.1, .inr h.2.1⟩
    | state =>
      have h : Armed us t normalize := h
      rw [tsr_periodic (hc _ _ rfl (.inr (.inr rfl)))]
      exact ⟨rfl, h.interval, h.ticks, .inr h.ticks, h.fits⟩
    | put => exact Settled.tsr h

/-- The ticks that remain do not matter. -/
theorem PhaseInv.remaining {φ : Phase} {n : Nat} (h : PhaseInv us t last φ) :
    PhaseInv us { t with watchdog := { t.watchdog with remaining := n } } last φ := by
  have hsettled : ∀ {last}, Settled us t last →
      Settled us { t with watchdog := { t.watchdog with remaining := n } } last := by
    intro last h
    refine ⟨h.run, h.inserted, ?_⟩
    intro v hv hper
    have ha := h.armed v hv hper
    exact ⟨ha.active, ha.interval, ha.ticks, ha.initial, ha.fits⟩
  cases φ with
  | closed => exact h
  | settled => exact hsettled h
  | deleting => exact h
  | setting normalize position =>
    cases position with
    | stopRemove => exact ⟨hsettled h.1, h.2⟩
    | stopOvalue => exact h
    | stopData => exact h
    | stopState => exact h
    | ticks => exact hsettled h
    | remove => exact h
    | acquire => exact h
    | inserting => exact h
    | ovalue => exact h
    | data => exact h
    | state =>
      have h : Armed us t normalize := h
      exact ⟨h.active, h.interval, h.ticks, h.initial, h.fits⟩
    | put => exact hsettled h

theorem Inv.tickBegin (h : Inv us s) : Inv us (tickBegin s) where
  timer := by
    intro p
    have hp := h.timer p
    unfold PosixTimer.tickBegin
    dsimp only
    split
    next => exact hp
    next => exact hp.remaining
  opened := h.opened
  deleted := h.deleted
  kills := h.kills

theorem Inv.expire (h : Inv us s) (ha : (s.timers p).watchdog.state = .active)
    (hc : (Op.expire p).Careful us s) : Inv us (expire s p) := by
  unfold PosixTimer.expire
  dsimp only
  rw [if_pos (tsr_signals _)]
  refine ⟨?_, h.opened, h.deleted, ?_⟩
  · intro q
    rcases eq_or_ne q p with rfl | hne
    · show PhaseInv us (Function.update s.timers q _ q) (s.last q) (phase s q)
      rw [Function.update_self]
      refine (h.timer q).tsr ha ?_
      intro normalize position hφ
      refine hc.1 normalize position ?_
      unfold phase at hφ
      split at hφ
      next q' n pos hcall =>
        split at hφ
        next he =>
          cases hφ
          rw [hcall, he]
        next =>
          split at hφ
          next => cases hφ
          next => cases hφ
      next =>
        split at hφ
        next => cases hφ
        next =>
          split at hφ
          next => cases hφ
          next => cases hφ
      next =>
        split at hφ
        next => cases hφ
        next => cases hφ
    · show PhaseInv us (Function.update s.timers p _ q) (s.last q) (phase s q)
      rw [Function.update_of_ne hne]
      exact h.timer q
  · show (s.kills ++ [_]).map Prod.fst = s.expiries ++ [p]
    rw [List.map_append, h.kills]
    rfl

/-! ## Calls -/

/-- The phase of a timer that the call is not about. -/
def restPhase (s : State Pid Tid) (p : Pid) : Phase :=
  if s.isOpen p then .settled else .closed

/-- The call is about no other timer. -/
def Call.About (c : Call Pid) (p : Pid) : Prop :=
  match c with
  | .none => True
  | .settime q _ _ => q = p
  | .delete q => q = p

theorem phase_other (hc : s.call.About p) (hne : q ≠ p) : phase s q = restPhase s q := by
  unfold phase
  cases he : s.call with
  | none => rfl
  | settime q' n pos =>
    rw [he] at hc
    cases hc
    exact if_neg hne.symm
  | delete q' =>
    rw [he] at hc
    cases hc
    exact if_neg hne.symm

/-- A step of a call keeps the invariant, if it does for the timer that the call is about. -/
theorem Inv.onCall (h : Inv us s) (hs : s.call.About p) (hs' : s'.call.About p)
    (htimers : ∀ q, q ≠ p → s'.timers q = s.timers q ∧ s'.last q = s.last q ∧
      s'.isOpen q = s.isOpen q)
    (hkills : s'.kills = s.kills ∧ s'.expiries = s.expiries)
    (hp : PhaseInv us (s'.timers p) (s'.last p) (phase s' p))
    (hopen : ∀ normalize position, s'.call = .settime p normalize position →
      s'.isOpen p = true ∧ (normalize.Periodic → normalize.interval.Fits us))
    (hdeleted : s'.call = .delete p → s'.isOpen p = false) :
    Inv us s' where
  timer := by
    intro q
    rcases eq_or_ne q p with rfl | hne
    · exact hp
    · obtain ⟨e1, e2, e3⟩ := htimers q hne
      have hphase : phase s' q = phase s q := by
        rw [phase_other hs' hne, phase_other hs hne]
        unfold restPhase
        rw [e3]
      rw [e1, e2, hphase]
      exact h.timer q
  opened := by
    intro q n pos hq
    rw [hq] at hs'
    cases hs'
    exact hopen n pos hq
  deleted := by
    intro q hq
    rw [hq] at hs'
    cases hs'
    exact hdeleted hq
  kills := by
    rw [hkills.1, hkills.2]
    exact h.kills

theorem phase_setting {position : At} (hc : s.call = .settime p normalize position) :
    phase s p = .setting normalize position := by
  unfold phase
  rw [hc]
  exact if_pos rfl

theorem phase_none (hc : s.call = .none) : phase s p = restPhase s p := by
  unfold phase
  rw [hc]
  rfl

/-- A timer that is armed or disarmed. -/
theorem Settled.of_armed (h : Armed us t normalize) (hr : t.state = .createRun) :
    Settled us t (some normalize) := by
  refine ⟨⟨fun _ => h.active, fun _ => hr⟩, ?_, ?_⟩
  · rw [h.active]
    exact nofun
  · rintro v ⟨⟩ -
    exact h

theorem Settled.of_stopped (h : t.watchdog.state = .inactive) (hs : t.state = .createStop)
    (hper : ¬ normalize.Periodic) : Settled us t (some normalize) := by
  refine ⟨⟨?_, ?_⟩, ?_, ?_⟩
  · rw [hs]
    exact nofun
  · rw [h]
    exact nofun
  · rw [h]
    exact nofun
  · rintro v ⟨⟩ hv
    exact absurd hv hper

theorem Inv.settimeReturn (h : Inv us s) {position : At}
    (hc : s.call = .settime p normalize position)
    (hp : Settled us (s.timers p) (some normalize)) : Inv us (settimeReturn s p normalize) := by
  have hopen := (h.opened p _ _ hc).1
  refine h.onCall (p := p) (by rw [hc]; rfl) trivial ?_ ⟨rfl, rfl⟩ ?_ nofun nofun
  · intro q hne
    exact ⟨rfl, Function.update_of_ne hne .., rfl⟩
  · rw [phase_none rfl]
    unfold restPhase
    rw [show (PosixTimer.settimeReturn s p normalize).isOpen p = true from hopen, if_pos rfl]
    show Settled us (s.timers p) (Function.update s.last p (some normalize) p)
    rw [Function.update_self]
    exact hp

/-- A step that changes the timer and goes on to the next position. -/
theorem Inv.onTimer (h : Inv us s) {position next : At} {f : Timer Tid → Timer Tid}
    (hc : s.call = .settime p normalize position)
    (hp : CallInv us (f (s.timers p)) (s.last p) normalize next) :
    Inv us { s.onTimer p f with call := .settime p normalize next } := by
  refine h.onCall (p := p) (by rw [hc]; rfl) rfl ?_ ⟨rfl, rfl⟩ ?_ ?_ nofun
  · intro q hne
    exact ⟨Function.update_of_ne hne .., rfl, rfl⟩
  · rw [phase_setting rfl]
    show CallInv us (Function.update s.timers p _ p) (s.last p) normalize next
    rw [Function.update_self]
    exact hp
  · rintro _ _ ⟨⟩
    exact h.opened p _ _ hc

/-- A step that reads the old data. -/
theorem Inv.onOvalue (h : Inv us s) {position next : At}
    (hc : s.call = .settime p normalize position)
    (hp : CallInv us (s.timers p) (s.last p) normalize next) :
    Inv us { s with
      ovalue := some (s.timers p).timerData
      call := .settime p normalize next } := by
  refine h.onCall (p := p) (by rw [hc]; rfl) rfl (fun _ _ => ⟨rfl, rfl, rfl⟩) ⟨rfl, rfl⟩ ?_ ?_
    nofun
  · rw [phase_setting rfl]
    exact hp
  · rintro _ _ ⟨⟩
    exact h.opened p _ _ hc

theorem Inv.settimeStep (h : Inv us s) {position : At}
    (hc : s.call = .settime p normalize position) :
    Inv us (settimeStep us s p normalize position) := by
  have hp : CallInv us (s.timers p) (s.last p) normalize position := by
    have := h.timer p
    rw [phase_setting hc] at this
    exact this
  cases position with
  | stopRemove => exact h.onTimer hc ⟨rfl, hp.2⟩
  | stopOvalue => exact h.onOvalue hc hp
  | stopData => exact h.onTimer hc ⟨hp.1, hp.2, rfl⟩
  | stopState => exact h.onTimer hc (Settled.of_stopped hp.1 rfl hp.2.1)
  | ticks => exact h.onTimer hc ⟨hp.inserted, rfl⟩
  | remove => exact h.onTimer hc ⟨rfl, hp.2⟩
  | acquire =>
    unfold PosixTimer.settimeStep
    rw [if_neg (not_not.mpr hp.1)]
    exact h.onTimer hc ⟨rfl, hp.2, rfl⟩
  | inserting =>
    refine h.onTimer hc ?_
    unfold Timer.insertEnd
    rw [if_pos hp.1]
    exact ⟨rfl, hp.2.1, .inl hp.2.2⟩
  | ovalue => exact h.onOvalue hc hp
  | data => exact h.onTimer hc ⟨hp.1, rfl, hp.2.1, hp.2.2, (h.opened p _ _ hc).2⟩
  | state =>
    have hp : Armed us (s.timers p) normalize := hp
    exact h.onTimer hc (Settled.of_armed ⟨hp.active, hp.interval, hp.ticks, hp.initial, hp.fits⟩ rfl)
  | put => exact h.settimeReturn hc hp

theorem Inv.settime (h : Inv us s) (hn : s.call = .none) {flags : Option Bool}
    {value : Option Itimerspec} {now : Timespec}
    (hc : (Op.settime p flags value now : Op Pid Tid).Careful us s) :
    Inv us (settime s p flags value now).2 := by
  unfold PosixTimer.settime
  split
  next => exact h
  next normalize hcheck =>
    split
    next hopen =>
      have hp : Settled us (s.timers p) (s.last p) := by
        have := h.timer p
        rw [phase_none hn] at this
        unfold restPhase at this
        rw [if_pos hopen] at this
        exact this
      refine h.onCall (p := p) (by rw [hn]; trivial) rfl (fun _ _ => ⟨rfl, rfl, rfl⟩) ⟨rfl, rfl⟩
        ?_ ?_ nofun
      rotate_left
      · rintro _ _ ⟨⟩
        exact ⟨hopen, hc _ hcheck⟩
      rw [phase_setting rfl]
      split
      next hzero => exact ⟨hp, fun hper => hper.1 hzero⟩
      next => exact hp
    next => exact h

/-- The service routine sees the same watchdog whatever words have been copied. -/
theorem Inv.copyStep (h : Inv us s) (words : Words) : Inv us (copyStep s words) := by
  unfold PosixTimer.copyStep
  split
  next p normalize hc =>
    have hp := h.timer p
    rw [phase_setting hc] at hp
    have hnext : Inv us { s.onTimer p fun t =>
        { t with timerData := words.copy normalize t.timerData } with
          call := .settime p normalize .stopData } := h.onTimer hc hp
    rw [← hc] at hnext
    exact hnext
  next p normalize hc =>
    have hp := h.timer p
    rw [phase_setting hc] at hp
    have hnext : Inv us { s.onTimer p fun t =>
        { t with timerData := words.copy normalize t.timerData } with
          call := .settime p normalize .data } := h.onTimer hc hp
    rw [← hc] at hnext
    exact hnext
  next => exact h

theorem Inv.create (h : Inv us s) (hn : s.call = .none) (threadId : Tid) (sigevSigno : Nat) :
    Inv us (create s p threadId sigevSigno) := by
  refine h.onCall (p := p) (by rw [hn]; trivial) (by show s.call.About p; rw [hn]; trivial) ?_
    ⟨rfl, rfl⟩ ?_ ?_ ?_
  · intro q hne
    exact ⟨Function.update_of_ne hne .., Function.update_of_ne hne .., Function.update_of_ne hne ..⟩
  · have hn' : (PosixTimer.create s p threadId sigevSigno).call = .none := hn
    rw [phase_none hn']
    unfold restPhase
    have hopen : (PosixTimer.create s p threadId sigevSigno).isOpen p = true :=
      Function.update_self ..
    rw [if_pos hopen]
    show Settled us (Function.update s.timers p _ p) (Function.update s.last p none p)
    rw [Function.update_self, Function.update_self]
    exact ⟨⟨nofun, nofun⟩, nofun, nofun⟩
  · intro n pos hc
    exact absurd (hn.symm.trans hc) nofun
  · intro hc
    exact absurd (hn.symm.trans hc) nofun

theorem Inv.delete (h : Inv us s) (hn : s.call = .none) (hopen : s.isOpen p = true) :
    Inv us (delete s p) := by
  have hp : Settled us (s.timers p) (s.last p) := by
    have := h.timer p
    rw [phase_none hn] at this
    unfold restPhase at this
    rw [if_pos hopen] at this
    exact this
  refine h.onCall (p := p) (by rw [hn]; trivial) rfl ?_ ⟨rfl, rfl⟩ ?_ nofun ?_
  · intro q hne
    exact ⟨Function.update_of_ne hne .., rfl, Function.update_of_ne hne ..⟩
  · have hphase : phase (PosixTimer.delete s p) p = .deleting := if_pos rfl
    rw [hphase]
    show (Function.update s.timers p _ p).watchdog.state ≠ .beingInserted
    rw [Function.update_self]
    exact hp.inserted
  · intro _
    exact Function.update_self ..

theorem Inv.deleteStep (h : Inv us s) (hc : s.call = .delete p) : Inv us (deleteStep s p) := by
  refine h.onCall (p := p) (by rw [hc]; rfl) trivial ?_ ⟨rfl, rfl⟩ ?_ nofun nofun
  · intro q hne
    exact ⟨Function.update_of_ne hne .., rfl, rfl⟩
  · rw [phase_none rfl]
    unfold restPhase
    rw [show (PosixTimer.deleteStep s p).isOpen p = false from h.deleted p hc,
      if_neg Bool.false_ne_true]
    show (Function.update s.timers p _ p).watchdog.state = .inactive
    rw [Function.update_self]
    rfl

/-! ## Runs -/

theorem Inv.run (h : Inv us s) {op : Op Pid Tid} (he : op.Enabled s) (hc : op.Careful us s) :
    Inv us (op.run us s) := by
  cases op with
  | create p threadId sigevSigno => exact h.create he.2.1 threadId sigevSigno
  | delete p => exact h.delete he.2.1 he.2.2
  | settime p flags value now => exact h.settime he.2 hc
  | advance =>
    show Inv us (advance us s)
    unfold PosixTimer.advance
    split
    next => exact h
    next p normalize position hcall => exact h.settimeStep hcall
    next p hcall => exact h.deleteStep hcall
  | copy words => exact h.copyStep words
  | tick => exact h.tickBegin
  | expire p => exact h.expire he.2.1 hc
  | tickEnd => exact ⟨h.timer, h.opened, h.deleted, h.kills⟩

theorem Legal.reachable {condition : State Pid Tid → Op Pid Tid → Prop} {ops : List (Op Pid Tid)}
    (h : Legal us condition s ops) : Reachable us condition s (ops.foldl (Op.run us) s) := by
  induction ops generalizing s with
  | nil => exact .refl
  | cons op rest ih => exact .head ⟨op, h.1, h.2.1, rfl⟩ (ih h.2.2)

theorem inv_initial (timers : Pid → Timer Tid) : Inv us (initial timers) :=
  ⟨fun _ => rfl, nofun, nofun, rfl⟩

theorem Inv.settled (h : Inv us s) (hn : s.call = .none) (hopen : s.isOpen p = true) :
    Settled us (s.timers p) (s.last p) := by
  have hp := h.timer p
  rw [phase_none hn] at hp
  unfold restPhase at hp
  rw [if_pos hopen] at hp
  exact hp

/-- A timer that no one uses. -/
def unused : Unit → Timer Unit :=
  fun _ => ⟨.free, (), 0, ⟨.zero, .zero⟩, 0, 0, ⟨.inactive, 0, 0⟩⟩

end Rtems.PosixTimer
