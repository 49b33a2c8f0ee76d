import Rtems.Termios.Output

/-!
# Runs of the output stream

What the line keeps from step to step, whoever takes the step: the writes that
the device has to complete fit the characters in the ring.
-/

namespace Rtems.Termios

open Lib

variable {t : Tty} {out : List (Nat × Nat)} {off : Bool}

/-! ## The invariant -/

/-- What holds of the line at any time.  Each phase of `termios_set_flowctrl`
has its clause. -/
structure OutLine.Inv (s : OutLine) : Prop where
  order : s.given = s.transmitted ++ s.tty.rawOutBuf.output ++ s.task.rest
  calls : s.tty.calls = []
  flowing : Flowing s.tty s.outstanding s.task.restarts
  waits : s.task.waits = true → s.semaphore = true ∨ s.tty.rawOutBufState = .wait
  off : s.task.restarts = true → s.tty.flow.mdxon = false
  stop : ∀ loaded m, s.task = .setFlow .restart loaded m → s.tty.flow.ostop = true
  held : ∀ p v m, s.task = .setFlow p (some v) m → v = s.tty.flow

variable {s : OutLine} {m : Modes}

/-- The output is stopped for one of two reasons. -/
theorem Flowing.reason (h : Flowing t out off) (hstop : t.flow.ostop = true) :
    t.flow.orcvxof = true ∨ off = true := by
  cases h.sending with
  | empty hring hreason hnone => exact hreason hstop
  | running n hring hrun hpos hspan hrow hone =>
    rw [hrun] at hstop
    exact Bool.noConfusion hstop
  | stopped hring hstopped hreason hnone => exact hreason

/-- Nothing makes the output go on when it runs. -/
theorem Flowing.turnOff (h : Flowing t out off) (hstop : t.flow.ostop = false) (off' : Bool) :
    Flowing t out off' where
  bounds := h.bounds
  size := h.size
  dqlen := h.dqlen
  ireqxof := h.ireqxof
  isntxof := h.isntxof
  idle := h.idle
  sending := by
    cases h.sending with
    | empty hring hreason hnone =>
      refine .empty hring (fun hon => ?_) hnone
      rw [hstop] at hon
      exact Bool.noConfusion hon
    | running n hring hrun hpos hspan hrow hone => exact .running n hring hrun hpos hspan hrow hone
    | stopped hring hstopped hreason hnone =>
      rw [hstopped] at hstop
      exact Bool.noConfusion hstop

theorem OutLine.Inv.pending (h : s.Inv) : s.tty.pending s.outstanding = s.outstanding := by
  unfold Tty.pending
  rw [h.calls, List.filterMap_nil, List.reverse_nil, List.append_nil]

theorem OutLine.Inv.pending_nil (h : s.Inv) : s.tty.pending [] = [] := by
  unfold Tty.pending
  rw [h.calls]
  rfl

/-! ### Received characters -/

theorem OutLine.Inv.received (h : s.Inv) {buf : List UInt8}
    (hclean : ∀ p v m, s.task = .setFlow p (some v) m → ∀ c ∈ buf, ¬ ChangesXoff s.tty c) :
    (s.step (.received buf)).Inv := by
  have hquiet : (∀ c ∈ buf, ¬ ChangesXoff s.tty c) → (s.tty.flow.mdxon = true →
      s.tty.flow.ostop = true → s.tty.flow.orcvxof = true) →
      ∃ r, (enqueueLoop s.tty false 0 buf).1 = { s.tty with rawInBuf := r } :=
    fun hbuf hstop =>
      enqueueLoop_quiet h.flowing.ireqxof (fun hrcv => Bool.noConfusion hrcv) hstop 0 hbuf
  have hkeep : Flowing (enqueueLoop s.tty false 0 buf).1 s.outstanding s.task.restarts ∧
      Kept s.tty (enqueueLoop s.tty false 0 buf).1 ∧
      (s.task.restarts = true → (enqueueLoop s.tty false 0 buf).1.flow = s.tty.flow) := by
    cases hoff : s.task.restarts with
    | true =>
      have hmode := h.off hoff
      obtain ⟨r, hr⟩ := hquiet
        (fun c _ hchange => by
          have hon := hchange.1.1
          rw [hmode] at hon
          exact Bool.noConfusion hon)
        (fun hon => by
          rw [hmode] at hon
          exact Bool.noConfusion hon)
      have hflowing := h.flowing
      rw [hoff] at hflowing
      rw [hr]
      exact ⟨⟨hflowing.bounds, hflowing.size, hflowing.dqlen, hflowing.ireqxof,
        hflowing.isntxof, hflowing.idle, hflowing.sending⟩, ⟨rfl, rfl, rfl⟩, fun _ => rfl⟩
    | false =>
      have hflowing := h.flowing
      rw [hoff] at hflowing
      obtain ⟨hloop, hkept⟩ := hflowing.enqueueLoop false 0 buf
      exact ⟨hloop, hkept, fun hfalse => Bool.noConfusion hfalse⟩
  have hheld : ∀ p v m, s.task = .setFlow p (some v) m →
      (enqueueLoop s.tty false 0 buf).1.flow = s.tty.flow := by
    intro p v m htask
    cases hoff : s.task.restarts with
    | true => exact hkeep.2.2 hoff
    | false =>
      have hflowing := h.flowing
      rw [hoff] at hflowing
      obtain ⟨r, hr⟩ := hquiet (hclean p v m htask) fun _ hstop =>
        (hflowing.reason hstop).resolve_right Bool.false_ne_true
      rw [hr]
  obtain ⟨hflowing, ⟨hring, hstate, hmode⟩, hsame⟩ := hkeep
  unfold OutLine.step enqueueRawCharacters
  simp only
  refine
    { order := ?_
      calls := rfl
      flowing := ?_
      waits := ?_
      off := fun hoff => hmode.trans (h.off hoff)
      stop := ?_
      held := fun p v m htask => (h.held p v m htask).trans (hheld p v m htask).symm }
  · show s.given = s.transmitted ++ (enqueueLoop s.tty false 0 buf).1.rawOutBuf.output ++
      s.task.rest
    rw [hring]
    exact h.order
  · exact Flowing.serve (t := enqueueEnd (enqueueLoop s.tty false 0 buf).1 _)
      ⟨hflowing.bounds, hflowing.size, hflowing.dqlen, hflowing.ireqxof, hflowing.isntxof,
        hflowing.idle, hflowing.sending⟩
  · intro hwaits
    refine (h.waits hwaits).imp_right ?_
    exact fun hwait => hstate.trans hwait
  · intro loaded m htask
    have hoff : s.task.restarts = true := by
      have htask' : s.task = .setFlow .restart loaded m := htask
      rw [htask']
      rfl
    show (enqueueLoop s.tty false 0 buf).1.flow.ostop = true
    rw [hsame hoff]
    exact h.stop loaded m htask

/-! ### Completions -/

/-- A write that is outstanding is one of the first characters of the ring. -/
theorem OutLine.Inv.outstanding (h : s.Inv) {start n : Nat} {rest : List (Nat × Nat)}
    (hout : s.outstanding = (start, n) :: rest) :
    s.tty.rawOutBuf.head ≠ s.tty.rawOutBuf.tail ∧ s.tty.flow.ostop = false ∧
      n ≤ span s.tty.rawOutBuf.size s.tty.rawOutBuf.tail s.tty.rawOutBuf.head ∧
      s.tty.rawOutBuf.tail + n ≤ s.tty.rawOutBuf.size ∧ start = s.tty.rawOutBuf.tail ∧
      rest = [] := by
  have hsending := h.flowing.sending
  rw [h.pending, hout] at hsending
  cases hsending with
  | empty hring hrun hnone => exact absurd hnone (List.cons_ne_nil _ _)
  | running n' hring hrun hpos hspan hrow hone =>
    rw [List.cons.injEq, Prod.mk.injEq] at hone
    obtain ⟨⟨hstart, rfl⟩, hrest⟩ := hone
    exact ⟨hring, hrun, hspan, hrow, hstart, hrest⟩
  | stopped hring hstopped hreason hnone => exact absurd hnone (List.cons_ne_nil _ _)

theorem OutLine.sent_of (s : OutLine) {start n k : Nat} {rest : List (Nat × Nat)}
    (hout : s.outstanding = (start, n) :: rest) (hpos : 0 < k) (hk : k ≤ n) :
    s.sent k =
      { s with
        tty := { (dequeueCharacters s.tty k).1 with calls := [] }
        outstanding := (dequeueCharacters s.tty k).1.pending rest
        semaphore := s.semaphore || (dequeueCharacters s.tty k).2.1
        transmitted := s.transmitted ++
          (List.range k).map fun i => s.tty.rawOutBuf.theBuf (start + i) } := by
  unfold OutLine.sent
  rw [hout]
  simp only
  rw [if_pos ⟨hpos, hk⟩]
  rfl

/-- The completion wakes up a writer that waits. -/
theorem OutLine.Inv.woken (h : s.Inv) (hwaits : s.task.waits = true) {start n k : Nat}
    {rest : List (Nat × Nat)} (hout : s.outstanding = (start, n) :: rest) (hpos : 0 < k)
    (hk : k ≤ n) : (s.sent k).semaphore = true := by
  obtain ⟨hring, hrun, hspan, hrow, -⟩ := h.outstanding hout
  obtain ⟨-, -, hwake, -⟩ := dequeueCharacters_spec h.flowing.bounds h.flowing.size h.flowing.dqlen
    h.flowing.ireqxof h.flowing.isntxof hring hrun h.pending_nil false (hk.trans hspan) (by omega)
  rw [s.sent_of hout hpos hk]
  show (s.semaphore || (dequeueCharacters s.tty k).2.1) = true
  rw [hwake, Bool.or_eq_true]
  exact (h.waits hwaits).imp_right fun hwait => decide_eq_true hwait

theorem OutLine.Inv.sent (h : s.Inv) {k : Nat}
    (hclean : ∀ p v m, s.task = .setFlow p (some v) m → s.tty.flow.orcvxof = true →
      s.tty.rawOutBuf.output.length ≤ k) : (s.sent k).Inv := by
  cases hout : s.outstanding with
  | nil =>
    have hsame : s.sent k = s := by
      unfold OutLine.sent
      rw [hout]
    rw [hsame]
    exact h
  | cons write rest =>
    obtain ⟨start, n⟩ := write
    by_cases hk : 0 < k ∧ k ≤ n
    · obtain ⟨hring, hrun, hspan, hrow, rfl, rfl⟩ := h.outstanding hout
      obtain ⟨hflowing, houtput, hwake, hmode, hflow⟩ :=
        dequeueCharacters_spec h.flowing.bounds h.flowing.size h.flowing.dqlen h.flowing.ireqxof
          h.flowing.isntxof hring hrun h.pending_nil s.task.restarts (hk.2.trans hspan) (by omega)
      rw [s.sent_of hout hk.1 hk.2]
      refine
        { order := ?_
          calls := rfl
          flowing := hflowing.serve
          waits := ?_
          off := fun hoff => hmode.trans (h.off hoff)
          stop := ?_
          held := ?_ }
      · have horder := h.order
        rw [houtput, ← List.append_assoc] at horder
        exact horder
      · intro hwaits
        refine .inl ?_
        show (s.semaphore || (dequeueCharacters s.tty k).2.1) = true
        rw [hwake, Bool.or_eq_true]
        exact (h.waits hwaits).imp_right fun hwait => decide_eq_true hwait
      · intro loaded m htask
        have hstop := h.stop loaded m htask
        rw [hrun] at hstop
        exact Bool.noConfusion hstop
      · intro p v m htask
        refine (h.held p v m htask).trans (hflow ?_).symm
        cases hxoff : s.tty.flow.orcvxof with
        | false => exact .inl rfl
        | true => exact .inr (hclean p v m htask hxoff)
    · have hsame : s.sent k = s := by
        unfold OutLine.sent
        rw [hout]
        simp only
        rw [if_neg hk]
      rw [hsame]
      exact h

/-! ### The task -/

/-- The task is not in `termios_set_flowctrl`. -/
def Task.outside : Task → Bool
  | .setFlow _ _ _ => false
  | _ => true

theorem Task.ne_setFlow {task : Task} (h : task.outside = true) (p : FlowPoint)
    (loaded : Option FlowCtrl) (m : Modes) : task ≠ .setFlow p loaded m := by
  rintro rfl
  exact Bool.noConfusion h

theorem Task.restarts_outside {task : Task} (h : task.outside = true) : task.restarts = false := by
  cases task with
  | setFlow p loaded m => exact Bool.noConfusion h
  | _ => rfl

/-- The task goes on outside `termios_set_flowctrl`. -/
theorem OutLine.Inv.enter (h : s.Inv) {task : Task} (hrest : task.rest = s.task.rest)
    (hplain : task.outside = true) (hbefore : s.task.outside = true)
    (hwaits : task.waits = false) (semaphore : Bool) :
    OutLine.Inv { s with semaphore := semaphore, task := task } := by
  have hoff := Task.restarts_outside hbefore
  have hoff' := Task.restarts_outside hplain
  refine
    { order := ?_
      calls := h.calls
      flowing := ?_
      waits := fun hwaits' => Bool.noConfusion (hwaits.symm.trans hwaits')
      off := fun hrestarts => Bool.noConfusion (hoff'.symm.trans hrestarts)
      stop := fun loaded m htask => absurd htask (Task.ne_setFlow hplain _ loaded m)
      held := fun p v m htask => absurd htask (Task.ne_setFlow hplain p _ m) }
  · show s.given = s.transmitted ++ s.tty.rawOutBuf.output ++ task.rest
    rw [hrest]
    exact h.order
  · show Flowing s.tty s.outstanding task.restarts
    rw [hoff', ← hoff]
    exact h.flowing

/-- The task waits for room, or for the end of the output. -/
theorem OutLine.Inv.await (h : s.Inv) {task : Task} (hrest : task.rest = s.task.rest)
    (hplain : task.outside = true) (hbefore : s.task.outside = true)
    (hring : s.tty.rawOutBuf.head ≠ s.tty.rawOutBuf.tail) :
    OutLine.Inv { s with tty := { s.tty with rawOutBufState := .wait }, task := task } := by
  have hoff := Task.restarts_outside hbefore
  have hoff' := Task.restarts_outside hplain
  have hidle : RobState.wait = .idle ↔ s.tty.rawOutBuf.head = s.tty.rawOutBuf.tail :=
    ⟨fun heq => RobState.noConfusion heq, fun heq => absurd heq hring⟩
  refine
    { order := ?_
      calls := h.calls
      flowing := ?_
      waits := fun _ => .inr rfl
      off := fun hrestarts => Bool.noConfusion (hoff'.symm.trans hrestarts)
      stop := fun loaded m htask => absurd htask (Task.ne_setFlow hplain _ loaded m)
      held := fun p v m htask => absurd htask (Task.ne_setFlow hplain p _ m) }
  · show s.given = s.transmitted ++ s.tty.rawOutBuf.output ++ task.rest
    rw [hrest]
    exact h.order
  · have hflowing := h.flowing
    show Flowing { s.tty with rawOutBufState := .wait } s.outstanding task.restarts
    rw [hoff', ← hoff]
    exact ⟨hflowing.bounds, hflowing.size, hflowing.dqlen, hflowing.ireqxof, hflowing.isntxof,
      hidle, hflowing.sending⟩

theorem outFull_ne (h : t.rawOutBuf.InBounds) (hsize : 2 ≤ t.rawOutBuf.size)
    (hfull : outFull t = true) : t.rawOutBuf.head ≠ t.rawOutBuf.tail := by
  have hhead := h.head
  unfold outFull at hfull
  simp only [beq_iff_eq] at hfull
  split at hfull <;> omega

theorem OutLine.Inv.putsStep (h : s.Inv) {c : UInt8} {cs : List UInt8}
    (htask : s.task = .puts (c :: cs)) (hfull : outFull s.tty = false) :
    OutLine.Inv { s.serve (putsChunk s.tty (c :: cs)).1 with
      task := .puts ((c :: cs).drop (putsChunk s.tty (c :: cs)).2) } := by
  have hflowing := h.flowing
  have horder := h.order
  rw [htask] at hflowing horder
  obtain ⟨hflowing', houtput⟩ := putsChunk_spec hflowing hfull c cs
  refine
    { order := ?_
      calls := rfl
      flowing := hflowing'.serve
      waits := fun hwaits => Bool.noConfusion hwaits
      off := fun hoff => Bool.noConfusion hoff
      stop := fun _ _ htask => Task.noConfusion htask
      held := fun _ _ _ htask => Task.noConfusion htask }
  show s.given = s.transmitted ++ (putsChunk s.tty (c :: cs)).1.rawOutBuf.output ++
    (c :: cs).drop (putsChunk s.tty (c :: cs)).2
  rw [houtput, List.append_assoc, List.append_assoc, List.take_append_drop, ← List.append_assoc]
  exact horder

/-! ### `termios_set_flowctrl` -/

theorem FlowPoint.restarts_switchOn (rts xof : Bool) {p : FlowPoint}
    (h : FlowPoint.switchOn m rts xof = some p) : p.restarts = false := by
  unfold FlowPoint.switchOn at h
  split_ifs at h <;> cases h <;> rfl

theorem FlowPoint.restarts_update {p : FlowPoint} {f : FlowCtrl → FlowCtrl}
    (hf : p.update = some f) : p.restarts = false := by
  cases p <;> first | rfl | cases hf

/-- Of the assignments only that of `clearXon` comes before the restart. -/
theorem FlowPoint.restarts_next {p q : FlowPoint} {f : FlowCtrl → FlowCtrl} {v : FlowCtrl}
    (hf : p.update = some f) (hq : p.next m (f v) = some q) (hrestarts : q.restarts = true) :
    p = .clearXon := by
  have hnever : ∀ rts xof, FlowPoint.switchOn m rts xof ≠ some q := by
    intro rts xof hswitch
    rw [restarts_switchOn rts xof hswitch] at hrestarts
    exact Bool.noConfusion hrestarts
  cases p with
  | clearXon => rfl
  | clearXof =>
    cases hq
    exact Bool.noConfusion hrestarts
  | clearSent =>
    cases hq
    exact Bool.noConfusion hrestarts
  | clearRts =>
    cases hq
    exact Bool.noConfusion hrestarts
  | clearRtsOff => exact absurd hq (hnever _ _)
  | setRts => exact absurd hq (hnever _ _)
  | setXof => exact absurd hq (hnever _ _)
  | setXon => cases hq
  | _ => cases hf

/-- The restart is ahead of the task. -/
def FlowPoint.ahead (q : Option FlowPoint) : Bool := q.elim false FlowPoint.restarts

/-- An assignment keeps what the output depends on.  After that of `clearXon`
the output may be stopped for no received XOFF any more. -/
theorem Flowing.assign (h : Flowing t out false) {p : FlowPoint} {f : FlowCtrl → FlowCtrl}
    (hf : p.update = some f) :
    Flowing { t with flow := f t.flow } out (FlowPoint.ahead (p.next m (f t.flow))) := by
  by_cases hclear : p = .clearXon
  · subst hclear
    cases hf
    refine ⟨h.bounds, h.size, h.dqlen, h.ireqxof, h.isntxof, h.idle, ?_⟩
    cases h.sending with
    | empty hring hreason hnone => exact .empty hring (fun _ => .inr rfl) hnone
    | running n hring hrun hpos hspan hrow hone => exact .running n hring hrun hpos hspan hrow hone
    | stopped hring hstopped hreason hnone => exact .stopped hring hstopped (.inr rfl) hnone
  · have hahead : FlowPoint.ahead (p.next m (f t.flow)) = false := by
      cases hq : p.next m (f t.flow) with
      | none => rfl
      | some q =>
        cases hrestarts : q.restarts with
        | false => exact hrestarts
        | true => exact absurd (FlowPoint.restarts_next hf hq hrestarts) hclear
    have hkeep : (f t.flow).ireqxof = t.flow.ireqxof ∧ (f t.flow).ostop = t.flow.ostop ∧
        (f t.flow).orcvxof = t.flow.orcvxof ∧
        ((f t.flow).isntxof = t.flow.isntxof ∨ (f t.flow).isntxof = false) := by
      cases p with
      | clearXon => exact absurd rfl hclear
      | clearSent =>
        cases hf
        exact ⟨rfl, rfl, rfl, .inr rfl⟩
      | _ =>
        cases hf <;> exact ⟨rfl, rfl, rfl, .inl rfl⟩
    obtain ⟨hireqxof, hostop, horcvxof, hisntxof⟩ := hkeep
    rw [hahead]
    refine ⟨h.bounds, h.size, h.dqlen, hireqxof.trans h.ireqxof, ?_, h.idle, ?_⟩
    · rcases hisntxof with hsame | hfalse
      · exact hsame.trans h.isntxof
      · exact hfalse
    · show Sending t.rawOutBuf (f t.flow).ostop ((f t.flow).orcvxof = true ∨ _) (t.pending out)
      rw [hostop, horcvxof]
      exact h.sending

/-- The task goes on to the next point. -/
theorem OutLine.Inv.goto {q : Option FlowPoint}
    (horder : s.given = s.transmitted ++ s.tty.rawOutBuf.output) (hcalls : s.tty.calls = [])
    (hflowing : Flowing s.tty s.outstanding (FlowPoint.ahead q))
    (hoff : FlowPoint.ahead q = true → s.tty.flow.mdxon = false)
    (hstop : q = some .restart → s.tty.flow.ostop = true) :
    OutLine.Inv { s with task := Task.at m q } := by
  cases q with
  | none =>
    exact
      { order := horder.trans (List.append_nil _).symm
        calls := hcalls
        flowing := hflowing
        waits := fun hwaits => Bool.noConfusion hwaits
        off := fun hrestarts => Bool.noConfusion hrestarts
        stop := fun _ _ htask => Task.noConfusion htask
        held := fun _ _ _ htask => Task.noConfusion htask }
  | some p =>
    exact
      { order := horder.trans (List.append_nil _).symm
        calls := hcalls
        flowing := hflowing
        waits := fun hwaits => Bool.noConfusion hwaits
        off := hoff
        stop := by
          intro loaded m' htask
          cases htask
          exact hstop rfl
        held := by
          intro p' v m' htask
          cases htask }

theorem FlowPoint.ahead_switchOn (m : Modes) (rts xof : Bool) :
    FlowPoint.ahead (FlowPoint.switchOn m rts xof) = false := by
  cases hq : FlowPoint.switchOn m rts xof with
  | none => rfl
  | some q => exact FlowPoint.restarts_switchOn rts xof hq

/-- The task moves on, and the line stays as it is. -/
theorem OutLine.Inv.move (h : s.Inv) {p : FlowPoint} {loaded : Option FlowCtrl}
    (htask : s.task = .setFlow p loaded m) {q : Option FlowPoint} (hp : p.restarts = false)
    (hq : FlowPoint.ahead q = false) : OutLine.Inv { s with task := Task.at m q } := by
  have hflowing := h.flowing
  have horder := h.order
  rw [htask] at hflowing horder
  refine OutLine.Inv.goto (horder.trans (List.append_nil _)) h.calls ?_ ?_ ?_
  · rw [hq, ← hp]
    exact hflowing
  · rw [hq]
    exact fun hfalse => Bool.noConfusion hfalse
  · rintro rfl
    exact Bool.noConfusion hq

/-- An assignment to `flow_ctrl` takes two turns: the load and the store. -/
theorem OutLine.Inv.assignFlow (h : s.Inv) {p : FlowPoint} {loaded : Option FlowCtrl}
    {f : FlowCtrl → FlowCtrl} (htask : s.task = .setFlow p loaded m) (hf : p.update = some f) :
    (s.setFlow p loaded m).Inv := by
  have hflowing := h.flowing
  have horder := h.order
  have hoff := h.off
  rw [htask] at hflowing horder hoff
  replace horder : s.given = s.transmitted ++ s.tty.rawOutBuf.output :=
    horder.trans (List.append_nil _)
  have hp := FlowPoint.restarts_update hf
  have hflowing' : Flowing s.tty s.outstanding false := by
    rw [← hp]
    exact hflowing
  unfold OutLine.setFlow
  rw [hf]
  cases loaded with
  | none =>
    refine
      { order := horder.trans (List.append_nil _).symm
        calls := h.calls
        flowing := hflowing
        waits := fun hwaits => Bool.noConfusion hwaits
        off := hoff
        stop := ?_
        held := ?_ }
    · intro loaded m' htask'
      cases htask'
      exact Bool.noConfusion hp
    · intro p' v m' htask'
      cases htask'
      rfl
  | some v =>
    obtain rfl := h.held p v m htask
    have hclear : ∀ q, p.next m (f s.tty.flow) = some q → q.restarts = true →
        p = .clearXon := fun q hq hrestarts => FlowPoint.restarts_next hf hq hrestarts
    refine OutLine.Inv.goto (s := { s with tty := { s.tty with flow := f s.tty.flow } })
      horder h.calls (hflowing'.assign hf) ?_ ?_
    · intro hahead
      cases hq : p.next m (f s.tty.flow) with
      | none =>
        rw [hq] at hahead
        exact Bool.noConfusion hahead
      | some q =>
        rw [hq] at hahead
        cases hclear q hq hahead
        cases hf
        rfl
    · intro hq
      cases hclear .restart hq rfl
      cases hq

/-- The task goes on to restart the transmitter if it is stopped. -/
theorem OutLine.Inv.testStop (h : s.Inv) {loaded : Option FlowCtrl}
    (htask : s.task = .setFlow .testStop loaded m) : (s.setFlow .testStop loaded m).Inv := by
  have hflowing := h.flowing
  have horder := h.order
  have hoff := h.off
  rw [htask] at hflowing horder hoff
  replace horder : s.given = s.transmitted ++ s.tty.rawOutBuf.output :=
    horder.trans (List.append_nil _)
  show OutLine.Inv { s with task := Task.at m (FlowPoint.next m s.tty.flow .testStop) }
  have hmode := hoff rfl
  cases hstop : s.tty.flow.ostop with
  | true =>
    have hq : FlowPoint.next m s.tty.flow .testStop = some .restart :=
      congrArg some (if_pos hstop)
    rw [hq]
    exact OutLine.Inv.goto horder h.calls hflowing (fun _ => hmode) fun _ => hstop
  | false =>
    have hq : FlowPoint.next m s.tty.flow .testStop = some .testXof :=
      congrArg some (if_neg (by rw [hstop]; exact Bool.false_ne_true))
    rw [hq]
    refine OutLine.Inv.goto horder h.calls (hflowing.turnOff hstop _) ?_ ?_
    · exact fun hfalse => Bool.noConfusion hfalse
    · intro hfalse
      cases hfalse

/-- The transmitter is restarted. -/
theorem OutLine.Inv.restart (h : s.Inv) {loaded : Option FlowCtrl}
    (htask : s.task = .setFlow .restart loaded m) : (s.setFlow .restart loaded m).Inv := by
  have hflowing := h.flowing
  have horder := h.order
  rw [htask] at hflowing horder
  replace horder : s.given = s.transmitted ++ s.tty.rawOutBuf.output :=
    horder.trans (List.append_nil _)
  obtain ⟨hrestart, hring, -⟩ :=
    hflowing.restart (h.stop loaded m htask) s.tty.flow.orcvxof false
  refine OutLine.Inv.goto (s := s.serve (restartOutput s.tty)) ?_ rfl hrestart.serve ?_ ?_
  · show s.given = s.transmitted ++ (restartOutput s.tty).rawOutBuf.output
    rw [show (restartOutput s.tty).rawOutBuf = s.tty.rawOutBuf from hring]
    exact horder
  · exact fun hfalse => Bool.noConfusion hfalse
  · intro hfalse
    cases hfalse

/-- The remote device may transmit again, if it was stopped. -/
theorem OutLine.Inv.startRts (h : s.Inv) {loaded : Option FlowCtrl}
    (htask : s.task = .setFlow .startRts loaded m) : (s.setFlow .startRts loaded m).Inv := by
  have hflowing := h.flowing
  have horder := h.order
  rw [htask] at hflowing horder
  show OutLine.Inv (if _ then _ else _)
  split
  · refine OutLine.Inv.goto (s := s.serve (s.tty.call .startRemoteTx))
      (horder.trans (List.append_nil _)) rfl ?_ ?_ ?_
    · have hcall : Flowing (s.tty.call .startRemoteTx) s.outstanding false :=
        ⟨hflowing.bounds, hflowing.size, hflowing.dqlen, hflowing.ireqxof,
          hflowing.isntxof, hflowing.idle, hflowing.sending⟩
      exact hcall.serve
    · exact fun hfalse => Bool.noConfusion hfalse
    · intro hfalse
      cases hfalse
  · exact h.move htask rfl rfl

theorem OutLine.Inv.setFlow (h : s.Inv) {p : FlowPoint} {loaded : Option FlowCtrl}
    (htask : s.task = .setFlow p loaded m) : (s.setFlow p loaded m).Inv := by
  cases hf : p.update with
  | some f => exact h.assignFlow htask hf
  | none =>
    cases p with
    | testXon =>
      refine h.move htask rfl ?_
      show FlowPoint.ahead (some (if _ then _ else _)) = false
      split <;> rfl
    | testStop => exact h.testStop htask
    | restart => exact h.restart htask
    | testXof =>
      refine h.move htask rfl ?_
      show FlowPoint.ahead (some (if _ then _ else _)) = false
      split <;> rfl
    | testRts =>
      refine h.move htask rfl ?_
      show FlowPoint.ahead (if _ then _ else _) = false
      split
      · rfl
      · exact FlowPoint.ahead_switchOn m true true
    | startRts => exact h.startRts htask
    | _ => cases hf

theorem OutLine.Inv.taskStep (h : s.Inv) : s.taskStep.Inv := by
  unfold OutLine.taskStep
  cases htask : s.task with
  | idle => exact h
  | puts rest =>
    cases rest with
    | nil => exact h.enter (by rw [htask]; rfl) rfl (by rw [htask]; rfl) rfl s.semaphore
    | cons c cs =>
      simp only
      cases hfull : outFull s.tty with
      | true =>
        rw [if_pos rfl]
        exact h.await (by rw [htask]; rfl) rfl (by rw [htask]; rfl)
          (outFull_ne h.flowing.bounds h.flowing.size hfull)
      | false =>
        rw [if_neg Bool.false_ne_true]
        exact h.putsStep htask hfull
  | putsWait rest =>
    simp only
    split
    next => exact h.enter (by rw [htask]; rfl) rfl (by rw [htask]; rfl) rfl false
    next => exact h
  | drain =>
    simp only
    split
    next hring => exact h.await (by rw [htask]; rfl) rfl (by rw [htask]; rfl) (Ne.symm hring)
    next => exact h.enter (by rw [htask]; rfl) rfl (by rw [htask]; rfl) rfl s.semaphore
  | drainWait =>
    simp only
    split
    next => exact h.enter (by rw [htask]; rfl) rfl (by rw [htask]; rfl) rfl false
    next => exact h
  | setFlow p loaded m => exact h.setFlow htask

/-! ### Every event -/

/-- A call of `rtems_termios_puts` begins. -/
theorem OutLine.Inv.putsCall (h : s.Inv) (htask : s.task = .idle) (buf : List UInt8) :
    OutLine.Inv { s with task := .puts buf, given := s.given ++ buf } := by
  have hflowing := h.flowing
  have horder := h.order
  rw [htask] at hflowing horder
  refine
    { order := ?_
      calls := h.calls
      flowing := hflowing
      waits := fun hwaits => Bool.noConfusion hwaits
      off := fun hoff => Bool.noConfusion hoff
      stop := fun _ _ htask => Task.noConfusion htask
      held := fun _ _ _ htask => Task.noConfusion htask }
  replace horder : s.given = s.transmitted ++ s.tty.rawOutBuf.output :=
    horder.trans (List.append_nil _)
  exact congrArg (· ++ buf) horder

theorem OutLine.Inv.step (h : s.Inv) {e : OutEvent} (hclean : Undisturbed s e) :
    (s.step e).Inv := by
  cases e with
  | puts buf =>
    unfold OutLine.step
    cases htask : s.task with
    | idle => exact h.putsCall htask buf
    | _ => exact h
  | drain =>
    unfold OutLine.step
    cases htask : s.task with
    | idle => exact h.enter (by rw [htask]; rfl) rfl (by rw [htask]; rfl) rfl s.semaphore
    | _ => exact h
  | setAttributes settings modes =>
    unfold OutLine.step
    cases htask : s.task with
    | idle =>
      have hflowing := h.flowing
      have horder := h.order
      rw [htask] at hflowing horder
      refine OutLine.Inv.goto (s := { s with tty := { s.tty with settings := settings } })
        (q := some .testXon) (horder.trans (List.append_nil _)) h.calls ?_ ?_ ?_
      · exact ⟨hflowing.bounds, hflowing.size, hflowing.dqlen, hflowing.ireqxof,
          hflowing.isntxof, hflowing.idle, hflowing.sending⟩
      · exact fun hfalse => Bool.noConfusion hfalse
      · intro hfalse
        cases hfalse
    | _ => exact h
  | task => exact h.taskStep
  | sent k => exact h.sent fun p v m htask => (hclean p v m htask).2 k rfl
  | received buf => exact h.received fun p v m htask => (hclean p v m htask).1 buf rfl

theorem OutLine.Inv.streams (h : s.Inv) : Streams s where
  order := h.order
  runs := by
    intro hfilled
    have hsending := h.flowing.sending
    rw [h.pending] at hsending
    cases hsending with
    | empty hring hrun hnone =>
      refine absurd ?_ hfilled
      unfold Rawbuf.output
      rw [hring, span_self]
      rfl
    | running n hring hrun hpos hspan hrow hone => exact .inl ⟨n, hpos, hone⟩
    | stopped hring hstopped hreason hnone => exact .inr ⟨hstopped, hreason⟩
  woken := fun hwaits _ _ _ _ hout hpos hk => h.woken hwaits hout hpos hk

variable {rawInSize rawOutSize : Nat} {stopRemoteTx startRemoteTx : Bool}

theorem OutLine.Inv.start (hsize : 2 ≤ rawOutSize) :
    (OutLine.start (openTty rawInSize rawOutSize stopRemoteTx startRemoteTx)).Inv where
  order := by
    show [] = [] ++ window _ rawOutSize 0 (span rawOutSize 0 0) ++ []
    rw [span_self]
    rfl
  calls := rfl
  flowing :=
    { bounds := ⟨Nat.lt_of_lt_of_le Nat.zero_lt_two hsize, Nat.lt_of_lt_of_le Nat.zero_lt_two hsize⟩
      size := hsize
      dqlen := rfl
      ireqxof := rfl
      isntxof := rfl
      idle := ⟨fun _ => rfl, fun _ => rfl⟩
      sending := .empty rfl (fun hon => Bool.noConfusion hon) rfl }
  waits := fun hwaits => Bool.noConfusion hwaits
  off := fun hoff => Bool.noConfusion hoff
  stop := fun _ _ htask => Task.noConfusion htask
  held := fun _ _ _ htask => Task.noConfusion htask

/-- As long as no interrupt comes between the load and the store of an
assignment to `flow_ctrl`, the output of an opened line streams. -/
theorem output_streams (hsize : 2 ≤ rawOutSize) (events : List OutEvent)
    (hrun : Along OutLine.step Undisturbed
      (.start (openTty rawInSize rawOutSize stopRemoteTx startRemoteTx)) events) :
    ∀ s ∈ states OutLine.step
      (.start (openTty rawInSize rawOutSize stopRemoteTx startRemoteTx)) events, Streams s := by
  intro s hs
  refine (forall_states ?_ (OutLine.Inv.start hsize) hrun s hs).streams
  intro s' e h hclean
  exact h.step hclean

theorem undisturbed_task (s : OutLine) : Undisturbed s .task :=
  fun _ _ _ _ => ⟨fun _ hfalse => (by cases hfalse), fun _ hfalse => (by cases hfalse)⟩

theorem undisturbed_outside (h : s.task.outside = true) (e : OutEvent) : Undisturbed s e :=
  fun p v m htask => absurd htask (Task.ne_setFlow h p (some v) m)

/-- `c_iflag` has IXON or not, and nothing else. -/
def ixonModes (ixon : Bool) : Modes where
  ixon := ixon
  ixoff := false
  crtscts := false

/-- IXON is switched on. -/
def switchOnXon : List OutEvent :=
  [.setAttributes defaultSettings (ixonModes true), .task, .task, .task, .task, .task]

/-- XOFF stops two characters behind the first, and then IXON is switched off. -/
def stoppedOutput : List OutEvent :=
  switchOnXon ++ [.puts [97, 98, 99], .task, .task, .received [19], .sent 1,
    .setAttributes defaultSettings (ixonModes false), .task, .task, .task, .task, .task]

theorem output_streams_stopped :
    (stoppedOutput.foldl OutLine.step (.start (openTty 8 4 false false))).transmitted = [97] ∧
    ∀ s ∈ states OutLine.step (.start (openTty 8 4 false false)) stoppedOutput, Streams s := by
  refine ⟨by decide, output_streams (by decide) _ ?_⟩
  refine ⟨undisturbed_outside rfl _, ?_⟩
  iterate 5 refine ⟨undisturbed_task _, ?_⟩
  refine ⟨undisturbed_outside rfl _, undisturbed_task _, undisturbed_task _,
    undisturbed_outside rfl _, undisturbed_outside rfl _, undisturbed_outside rfl _, ?_⟩
  iterate 5 refine ⟨undisturbed_task _, ?_⟩
  exact trivial

/-- The completion stops the output between the load and the store that switch
IXON off: the store takes the stop back, and the second character stays in the
ring. -/
theorem output_streams_lost :
    let s := (switchOnXon ++ [.puts [97, 98], .task, .task, .received [19],
      .setAttributes defaultSettings (ixonModes false), .task, .task, .sent 1, .task, .task, .task,
      .task] : List OutEvent).foldl OutLine.step (.start (openTty 8 4 false false))
    s.given = [97, 98] ∧ s.transmitted = [97] ∧ s.tty.rawOutBuf.output = [98] ∧
      s.outstanding = [] ∧ s.tty.flow.ostop = false ∧ s.task = .idle ∧ ¬ Streams s := by
  refine ⟨by decide, by decide, by decide, by decide, by decide, by decide, ?_⟩
  intro h
  rcases h.runs (by decide) with ⟨n, -, hout⟩ | ⟨hstop, -⟩
  · cases hout
  · cases hstop

end Rtems.Termios
