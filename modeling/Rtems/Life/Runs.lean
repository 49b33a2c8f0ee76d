import Rtems.Life.Model

/-!
# Runs of deletions

A thread waits for a victim whose termination is pending or in progress.  Both
are kept until the victim is a zombie, and a thread that nobody waits for can
wait for another one without closing a cycle.
-/

namespace Rtems.Life

open Lib Relation

variable {Tid : Type} [DecidableEq Tid] {s s' : State Tid} {t u v d : Tid} {th : Thread Tid}

/-! ## The invariant -/

/-- The termination of the thread is pending or in progress. -/
def Thread.Ending (th : Thread Tid) : Prop := th.life.terminating = true ∨ th.InProgress

structure Inv (s : State Tid) : Prop where
  ending : ∀ d v, Waits s d v → (s.threads v).Ending
  victim : ∀ d, (s.threads d).waiting = true → ∃ v, Waits s d v
  waiting : ∀ d v, (s.threads v).terminator = some d → (s.threads v).existence = .started →
    (s.threads d).waiting = true
  /-- A thread that waits does not run and so waits for one victim. -/
  single : ∀ d v v', Waits s d v → Waits s d v' → s.disabled = some d ∨ v = v'
  dormant : ∀ t, (s.threads t).existence = .dormant → (s.threads t).terminator = none
  acyclic : Acyclic (Waits s)

/-! ## Steps without a new wait -/

/-- A step that adds no edge. -/
structure Thread.Fades (th th' : Thread Tid) : Prop where
  terminator : th'.terminator = th.terminator
  waiting : th'.waiting = true → th.waiting = true
  started : th'.existence = .started → th.existence = .started ∨ th.terminator = none
  dormant : th'.existence = .dormant → th.existence = .dormant

section

omit [DecidableEq Tid]

theorem Thread.Fades.refl (th : Thread Tid) : th.Fades th := ⟨rfl, id, .inl, id⟩

/-- Who still waits has a victim that is there, and the other way round. -/
theorem Inv.fade (h : Inv s) (hf : ∀ u, (s.threads u).Fades (s'.threads u))
    (hending : ∀ d v, Waits s' d v → (s.threads v).Ending → (s'.threads v).Ending)
    (hvictim : ∀ d v, (s'.threads d).waiting = true → Waits s d v →
      (s'.threads v).existence = .started)
    (hwaiting : ∀ d v, Waits s d v → (s'.threads v).existence = .started →
      (s'.threads d).waiting = true)
    (hd : ∀ d, s.disabled = some d → s'.disabled = some d) : Inv s' := by
  have hwaits : ∀ d v, Waits s' d v → Waits s d v := by
    rintro d v ⟨hw, ht, he⟩
    rw [(hf v).terminator] at ht
    refine ⟨(hf d).waiting hw, ht, ?_⟩
    rcases (hf v).started he with hold | hnone
    · exact hold
    · exact absurd (hnone.symm.trans ht) nofun
  constructor
  case ending =>
    intro d v hv
    exact hending d v hv (h.ending d v (hwaits d v hv))
  case victim =>
    intro d hd
    obtain ⟨v, hv⟩ := h.victim d ((hf d).waiting hd)
    exact ⟨v, hd, (hf v).terminator.trans hv.2.1, hvictim d v hd hv⟩
  case waiting =>
    intro d v ht he
    rw [(hf v).terminator] at ht
    rcases (hf v).started he with hold | hnone
    · exact hwaiting d v ⟨h.waiting d v ht hold, ht, hold⟩ he
    · exact absurd (hnone.symm.trans ht) nofun
  case single =>
    intro d v v' hv hv'
    rcases h.single d v v' (hwaits d v hv) (hwaits d v' hv') with hd' | e
    · exact .inl (hd d hd')
    · exact .inr e
  case dormant =>
    intro t ht
    rw [(hf t).terminator]
    exact h.dormant t ((hf t).dormant ht)
  case acyclic => exact h.acyclic.mono hwaits

/-- What a step keeps of a thread that others wait for. -/
structure Thread.Kept (th th' : Thread Tid) : Prop where
  existence : th'.existence = th.existence
  terminator : th'.terminator = th.terminator
  waiting : th'.waiting = th.waiting
  ending : th.Ending → th'.Ending

theorem Thread.Kept.refl (th : Thread Tid) : th.Kept th := ⟨rfl, rfl, rfl, id⟩

theorem Inv.keep (h : Inv s) (hk : ∀ u, (s.threads u).Kept (s'.threads u))
    (hd : ∀ d, s.disabled = some d → s'.disabled = some d) : Inv s' := by
  refine h.fade ?_ (fun _ v _ => (hk v).ending) ?_ ?_ hd
  · intro u
    refine ⟨(hk u).terminator, ?_, ?_, ?_⟩
    · rw [(hk u).waiting]
      exact id
    · rw [(hk u).existence]
      exact .inl
    · rw [(hk u).existence]
      exact id
  · intro d v _ hv
    rw [(hk v).existence]
    exact hv.2.2
  · intro d v hv _
    rw [(hk d).waiting]
    exact hv.1

end

theorem kept_onThread (f : Thread Tid → Thread Tid) (hf : (s.threads t).Kept (f (s.threads t)))
    (u : Tid) : (s.threads u).Kept ((s.onThread t f).threads u) := by
  show (s.threads u).Kept (Function.update s.threads t (f (s.threads t)) u)
  rcases eq_or_ne u t with rfl | hne
  · rw [Function.update_self]
    exact hf
  · rw [Function.update_of_ne hne]
    exact .refl _

/-- A change of one thread that keeps what others can see. -/
theorem Inv.onThread (h : Inv s) {f : Thread Tid → Thread Tid}
    (hf : (s.threads t).Kept (f (s.threads t))) : Inv (s.onThread t f) :=
  h.keep (kept_onThread f hf) fun _ hd => hd

section

omit [DecidableEq Tid]

theorem setLifeProtection_existence (th : Thread Tid) (b : Bool) :
    (th.setLifeProtection b).existence = th.existence ∧
      (th.setLifeProtection b).terminator = th.terminator ∧
      (th.setLifeProtection b).waiting = th.waiting ∧
      (th.setLifeProtection b).life.terminating = th.life.terminating := by
  unfold Thread.setLifeProtection
  dsimp only
  split
  next => exact ⟨rfl, rfl, rfl, rfl⟩
  next => exact ⟨rfl, rfl, rfl, rfl⟩

/-- The protection of the life and the other sections on the stack do not end a termination. -/
theorem kept_setLifeProtection (b : Bool) {stack : List (Frame Tid)}
    (hs : ∀ l, Frame.handler l ∈ th.stack → Frame.handler l ∈ stack) :
    th.Kept { th.setLifeProtection b with stack := stack } := by
  obtain ⟨he, ht, hw, hl⟩ := setLifeProtection_existence th b
  refine ⟨he, ht, hw, ?_⟩
  rintro (hterm | ⟨l, hin, hl'⟩)
  · exact .inl (hl.trans hterm)
  · exact .inr ⟨l, hs l hin, hl'⟩

theorem kept_stack {stack : List (Frame Tid)}
    (hs : ∀ l, Frame.handler l ∈ th.stack → Frame.handler l ∈ stack) :
    th.Kept { th with stack := stack } := by
  refine ⟨rfl, rfl, rfl, ?_⟩
  rintro (hterm | ⟨l, hin, hl⟩)
  · exact .inl hterm
  · exact .inr ⟨l, hs l hin, hl⟩

/-! ## Requests -/

theorem kept_union (additional : LifeState) (b : Bool) :
    th.Kept { th with life := th.life.union additional, action := b } := by
  refine ⟨rfl, rfl, rfl, ?_⟩
  rintro (hterm | hprogress)
  · left
    show (th.life.terminating || additional.terminating) = true
    rw [hterm]
    rfl
  · exact .inr hprogress

end

theorem requestLifeChange_eq (s : State Tid) (t executing : Tid) (additional : LifeState) :
    ∃ b, requestLifeChange s t executing additional = s.onThread t fun th =>
      { th with life := th.life.union additional, action := b } := by
  unfold requestLifeChange
  dsimp only
  split
  next => exact ⟨true, rfl⟩
  next =>
    have hcases : ∃ b, (if (s.threads t).life = .normal then true else (s.threads t).action) = b :=
      ⟨_, rfl⟩
    obtain ⟨b, hb⟩ := hcases
    refine ⟨b, ?_⟩
    unfold State.onThread
    dsimp only
    congr 2
    split at hb
    next hn =>
      rw [if_pos hn, hb]
    next hn =>
      rw [if_neg hn, ← hb]

theorem Inv.requestLifeChange (h : Inv s) (t executing : Tid) (additional : LifeState) :
    Inv (requestLifeChange s t executing additional) := by
  obtain ⟨b, e⟩ := requestLifeChange_eq s t executing additional
  rw [e]
  exact h.onThread (kept_union additional b)

/-- The termination of the victim is pending after the request. -/
theorem requestLifeChange_ending (s : State Tid) (t executing : Tid) :
    ((requestLifeChange s t executing ⟨false, false, true⟩).threads t).Ending := by
  obtain ⟨b, e⟩ := requestLifeChange_eq s t executing ⟨false, false, true⟩
  rw [e]
  left
  show (Function.update s.threads t _ t).life.terminating = true
  rw [Function.update_self]
  exact Bool.or_true _

/-! ## Close -/

/-- The executing thread starts to wait for a victim whose termination is requested. -/
def closeWait (s : State Tid) (t executing : Tid) : State Tid :=
  requestLifeChange
    ((s.onThread t fun th => { th with terminator := some executing }).onThread executing
      fun th => { th with waiting := true }) t executing ⟨false, false, true⟩

theorem closeWait_threads (s : State Tid) {t executing : Tid} (hne : t ≠ executing) :
    (∀ u, ((closeWait s t executing).threads u).existence = (s.threads u).existence) ∧
    (∀ u, ((closeWait s t executing).threads u).terminator =
      if u = t then some executing else (s.threads u).terminator) ∧
    (∀ u, ((closeWait s t executing).threads u).waiting =
      if u = executing then true else (s.threads u).waiting) ∧
    ∀ u, (s.threads u).Ending → ((closeWait s t executing).threads u).Ending := by
  unfold closeWait
  obtain ⟨b, e⟩ := requestLifeChange_eq
    ((s.onThread t fun th => { th with terminator := some executing }).onThread executing
      fun th => { th with waiting := true }) t executing ⟨false, false, true⟩
  rw [e]
  unfold State.onThread
  refine ⟨?_, ?_, ?_, ?_⟩
  · intro u
    rcases eq_or_ne u t with rfl | ht
    · simp [hne]
    · rcases eq_or_ne u executing with rfl | hex
      · simp [ht]
      · simp [ht, hex]
  · intro u
    rcases eq_or_ne u t with rfl | ht
    · simp [hne]
    · rcases eq_or_ne u executing with rfl | hex
      · simp [ht]
      · simp [ht, hex]
  · intro u
    rcases eq_or_ne u t with rfl | ht
    · simp [hne]
    · rcases eq_or_ne u executing with rfl | hex
      · simp [ht]
      · simp [ht, hex]
  · intro u hu
    rcases eq_or_ne u t with rfl | ht
    · left
      simp [LifeState.union]
    · rcases eq_or_ne u executing with rfl | hex
      · simp only [Function.update_of_ne ht, Function.update_self]
        exact hu
      · simpa [ht, hex] using hu

/-- A new edge from the executing thread to its victim, and no other. -/
theorem closeWait_waits (s : State Tid) {t executing : Tid} (hne : t ≠ executing)
    (hw : ∀ d v, (s.threads v).terminator = some d → (s.threads v).existence = .started →
      (s.threads d).waiting = true) (hd : Waits (closeWait s t executing) d v) :
    Waits s d v ∨ d = executing ∧ v = t := by
  obtain ⟨he, ht, -, -⟩ := closeWait_threads s hne
  obtain ⟨-, hterm, hex⟩ := hd
  rw [he] at hex
  rw [ht] at hterm
  split at hterm
  next e => exact .inr ⟨(Option.some.inj hterm).symm, e⟩
  next => exact .inl ⟨hw d v hterm hex, hterm, hex⟩

/-- What waited before still waits. -/
theorem waits_closeWait (s : State Tid) {t executing : Tid} (hne : t ≠ executing)
    (hone : ∀ d, (s.threads t).terminator = some d → d = executing) (hd : Waits s d v) :
    Waits (closeWait s t executing) d v := by
  obtain ⟨he, ht, hw, -⟩ := closeWait_threads s hne
  obtain ⟨hwait, hterm, hex⟩ := hd
  refine ⟨?_, ?_, (he v).trans hex⟩
  · rw [hw, hwait]
    exact ite_self true
  · rw [ht]
    split
    next e =>
      rw [e] at hterm
      rw [hone d hterm]
    next => exact hterm

theorem Inv.closeWait (h : Inv s) {t executing : Tid} (hrun : s.CanRun executing)
    (ht : (s.threads t).existence = .started) (hwait : mustWait s t executing = true)
    (hone : ∀ d, (s.threads t).terminator = some d → d = executing)
    (hcycle : (s.threads executing).InProgress → ¬ ReflTransGen (Waits s) t executing) :
    Inv (closeWait s t executing) := by
  obtain ⟨hne, hterm⟩ : t ≠ executing ∧ (s.threads executing).life.terminating = false := by
    simpa [mustWait] using hwait
  obtain ⟨he, htm, hw, hend⟩ := closeWait_threads s hne
  have hnew := fun d v => closeWait_waits (d := d) (v := v) s hne h.waiting
  have hself : Waits (Life.closeWait s t executing) executing t := by
    refine ⟨?_, ?_, (he t).trans ht⟩
    · rw [hw, if_pos rfl]
    · rw [htm, if_pos rfl]
  -- Nothing leads to a thread whose termination is neither pending nor in progress.
  have hfree : ¬ ReflTransGen (Waits s) t executing := by
    intro hpath
    rcases Relation.ReflTransGen.cases_tail hpath with e | ⟨x, -, hx⟩
    · exact hne e.symm
    · rcases h.ending x executing hx with hl | hp
      · exact absurd (hterm.symm.trans hl) nofun
      · exact hcycle hp hpath
  constructor
  case ending =>
    intro d v hd
    rcases hnew d v hd with hold | ⟨-, rfl⟩
    · exact hend v (h.ending d v hold)
    · exact requestLifeChange_ending _ v executing
  case victim =>
    intro d hd
    rcases eq_or_ne d executing with rfl | hde
    · exact ⟨t, hself⟩
    · rw [hw, if_neg hde] at hd
      obtain ⟨v, hv⟩ := h.victim d hd
      exact ⟨v, waits_closeWait s hne hone hv⟩
  case waiting =>
    intro d v hd hv
    rw [htm] at hd
    rw [he] at hv
    rw [hw]
    split
    next => rfl
    next hde =>
      split at hd
      next => exact absurd (Option.some.inj hd).symm hde
      next => exact h.waiting d v hd hv
  case single =>
    intro d v v' hv hv'
    rcases hnew d v hv with hold | ⟨rfl, rfl⟩
    · rcases hnew d v' hv' with hold' | ⟨rfl, -⟩
      · exact h.single d v v' hold hold'
      · left
        rcases hrun.2 with ⟨-, hn⟩ | hn
        · exact absurd (hn.symm.trans hold.1) nofun
        · exact hn
    · rcases hnew d v' hv' with hold' | ⟨-, e⟩
      · left
        rcases hrun.2 with ⟨-, hn⟩ | hn
        · exact absurd (hn.symm.trans hold'.1) nofun
        · exact hn
      · exact .inr e.symm
  case dormant =>
    intro u hu
    rw [he] at hu
    rw [htm]
    split
    next e =>
      rw [e, ht] at hu
      cases hu
    next => exact h.dormant u hu
  case acyclic => exact h.acyclic.add (fun d v => hnew d v) hfree

/-- A change of a thread that nobody waits for. -/
theorem Inv.unseen (h : Inv s) {f : Thread Tid → Thread Tid} (hn : ∀ d, ¬ Waits s d t)
    (hf : (s.threads t).Fades (f (s.threads t)))
    (hw : (f (s.threads t)).waiting = (s.threads t).waiting) : Inv (s.onThread t f) := by
  have hself : (s.onThread t f).threads t = f (s.threads t) := Function.update_self ..
  have hother : ∀ u, u ≠ t → (s.onThread t f).threads u = s.threads u :=
    fun u hne => Function.update_of_ne hne ..
  have hwait : ∀ d, ((s.onThread t f).threads d).waiting = (s.threads d).waiting := by
    intro d
    rcases eq_or_ne d t with rfl | hne
    · rw [hself]
      exact hw
    · rw [hother d hne]
  have hfade : ∀ u, (s.threads u).Fades ((s.onThread t f).threads u) := by
    intro u
    rcases eq_or_ne u t with rfl | hne
    · rw [hself]
      exact hf
    · rw [hother u hne]
      exact .refl _
  refine h.fade hfade ?_ ?_ ?_ (fun _ hd => hd)
  · rintro d v ⟨hd, hterm, he⟩ hend
    rcases eq_or_ne v t with rfl | hne
    · rw [(hfade v).terminator] at hterm
      rcases (hfade v).started he with hold | hnone
      · exact absurd ⟨(hwait d).symm.trans hd, hterm, hold⟩ (hn d)
      · exact absurd (hnone.symm.trans hterm) nofun
    · rw [hother v hne]
      exact hend
  · intro d v _ hv
    have hne : v ≠ t := by
      rintro rfl
      exact hn d hv
    rw [hother v hne]
    exact hv.2.2
  · intro d v hv _
    rw [hwait d]
    exact hv.1

/-- A thread that nobody waits for becomes a zombie. -/
theorem Inv.makeZombie (h : Inv s) (hn : ∀ d, ¬ Waits s d t) : Inv (makeZombie s t) :=
  h.unseen hn ⟨rfl, id, nofun, nofun⟩ rfl

/-! ## The end of a termination -/

/-- The thread that waits for a zombie is made ready. -/
theorem Inv.terminate (h : Inv s) (hrun : s.CanRun t) (ht : (s.threads t).terminator = some d) :
    Inv (clearState (Life.makeZombie s t) d) := by
  have hwait : Waits s d t := ⟨h.waiting d t ht hrun.1, ht, hrun.1⟩
  have hne : d ≠ t := by
    rintro rfl
    exact h.acyclic d (.single hwait)
  -- The zombie was the only victim of the thread.
  have honly : ∀ v, Waits s d v → v = t := by
    intro v hv
    rcases h.single d v t hv hwait with hd | e
    · rcases hrun.2 with ⟨hn, -⟩ | hn
      · exact absurd (hn.symm.trans hd) nofun
      · exact absurd (Option.some.inj (hd.symm.trans hn)) hne
    · exact e
  have hzombie : (clearState (Life.makeZombie s t) d).threads t =
      { s.threads t with existence := .zombie, stack := [] } := by
    unfold clearState Life.makeZombie State.onThread
    simp [hne.symm]
  have hready : (clearState (Life.makeZombie s t) d).threads d =
      { s.threads d with waiting := false } := by
    unfold clearState Life.makeZombie State.onThread
    simp [hne]
  have hother : ∀ u, u ≠ t → u ≠ d →
      (clearState (Life.makeZombie s t) d).threads u = s.threads u := by
    intro u hut hud
    unfold clearState Life.makeZombie State.onThread
    simp [hut, hud]
  refine h.fade ?_ ?_ ?_ ?_ (fun _ hd => hd)
  · intro u
    rcases eq_or_ne u t with rfl | hut
    · rw [hzombie]
      exact ⟨rfl, id, nofun, nofun⟩
    · rcases eq_or_ne u d with rfl | hud
      · rw [hready]
        exact ⟨rfl, nofun, .inl, id⟩
      · rw [hother u hut hud]
        exact .refl _
  · rintro a v ⟨-, -, he⟩ hend
    rcases eq_or_ne v t with rfl | hvt
    · rw [hzombie] at he
      cases he
    · rcases eq_or_ne v d with rfl | hvd
      · rw [hready]
        exact hend
      · rw [hother v hvt hvd]
        exact hend
  · intro a v ha hv
    have had : a ≠ d := by
      rintro rfl
      rw [hready] at ha
      cases ha
    have hvt : v ≠ t := by
      rintro rfl
      exact had (Option.some.inj (hv.2.1.symm.trans ht))
    rcases eq_or_ne v d with rfl | hvd
    · rw [hready]
      exact hv.2.2
    · rw [hother v hvt hvd]
      exact hv.2.2
  · intro a v hv he
    have hvt : v ≠ t := by
      rintro rfl
      rw [hzombie] at he
      cases he
    have had : a ≠ d := by
      rintro rfl
      exact hvt (honly v hv)
    rcases eq_or_ne a t with rfl | hat
    · rw [hzombie]
      exact hv.1
    · rw [hother a hat had]
      exact hv.1

theorem Inv.handlerEnd (h : Inv s) (hrun : s.CanRun t) {l : LifeState} {rest : List (Frame Tid)}
    (hc : l.terminating = false → (s.threads t).life.terminating = false →
      (∃ d, Waits s d t) → ¬ (s.threads t).InProgress) : Inv (handlerEnd s t l rest) := by
  unfold Life.handlerEnd
  split
  next hl =>
    have hterm : ((Life.makeZombie s t).threads t).terminator = (s.threads t).terminator := by
      unfold Life.makeZombie State.onThread
      simp
    dsimp only
    rw [hterm]
    cases ht : (s.threads t).terminator with
    | some d => exact h.terminate hrun ht
    | none =>
      refine h.makeZombie ?_
      intro d hd
      exact absurd (ht.symm.trans hd.2.1) nofun
  next hl =>
    have hl' : l.terminating = false := by simpa using hl
    split
    next hterm =>
      have hkept := kept_onThread (s := s) (t := t)
        (fun th => { th with action := true, stack := rest }) ⟨rfl, rfl, rfl, fun _ => .inl hterm⟩
      refine h.keep hkept ?_
      intro d hd
      rcases hrun.2 with ⟨hn, -⟩ | hn
      · exact absurd (hn.symm.trans hd) nofun
      · exact hn.symm.trans hd
    next hterm =>
      have hterm' : (s.threads t).life.terminating = false := by simpa using hterm
      have hfree : ∀ d, ¬ Waits s d t := by
        intro d hd
        rcases h.ending d t hd with hpending | hprogress
        · exact hterm hpending
        · exact hc hl' hterm' ⟨d, hd⟩ hprogress
      exact h.unseen hfree ⟨rfl, id, .inl, id⟩ rfl

/-! ## Runs -/

theorem Inv.close (h : Inv s) {executing : Tid} (hrun : s.CanRun executing)
    (hc : (s.threads t).existence = .started → mustWait s t executing = true →
      (∀ d, (s.threads t).terminator = some d → d = executing) ∧
        ((s.threads executing).InProgress → ¬ ReflTransGen (Waits s) t executing))
    (ht : (s.threads t).existence ≠ .zombie) : Inv (close s t executing) := by
  unfold Life.close
  cases he : (s.threads t).existence with
  | dormant =>
    rw [if_pos rfl]
    refine h.makeZombie ?_
    intro d hd
    exact absurd (he.symm.trans hd.2.2) nofun
  | zombie => exact absurd he ht
  | started =>
    rw [if_neg nofun]
    dsimp only
    split
    next hwait =>
      obtain ⟨hone, hcycle⟩ := hc he hwait
      exact h.closeWait hrun he hwait hone hcycle
    next => exact h.requestLifeChange t executing _

section

omit [DecidableEq Tid]

theorem mem_handler_of_head {f f' : Frame Tid} {rest : List (Frame Tid)}
    (hf : ∀ l, f ≠ .handler l) (l : LifeState) (h : Frame.handler l ∈ f :: rest) :
    Frame.handler l ∈ f' :: rest := by
  rcases List.mem_cons.mp h with e | h
  · exact absurd e.symm (hf l)
  · exact List.mem_cons_of_mem _ h

end

theorem Inv.deleteClose (h : Inv s) {executing : Tid} (hrun : s.CanRun executing) {b : Bool}
    {rest : List (Frame Tid)} (hs : (s.threads executing).stack = .delete b t :: rest)
    (hc : (s.threads t).existence = .started → mustWait s t executing = true →
      (∀ d, (s.threads t).terminator = some d → d = executing) ∧
        ((s.threads executing).InProgress → ¬ ReflTransGen (Waits s) t executing)) :
    Inv (deleteClose s executing t b rest) := by
  have hstack : (s.threads executing).Kept
      { s.threads executing with stack := .deleted b :: rest } := by
    refine kept_stack ?_
    intro l hl
    rw [hs] at hl
    exact mem_handler_of_head (f := .delete b t) (fun _ => nofun) l hl
  have hkept := kept_onThread (s := s) (t := executing)
    (fun th => { th with stack := .deleted b :: rest }) hstack
  have h1 : Inv (s.onThread executing fun th => { th with stack := .deleted b :: rest }) :=
    h.onThread hstack
  have hself : (s.onThread executing fun th => { th with stack := .deleted b :: rest }).threads
      executing = { s.threads executing with stack := .deleted b :: rest } :=
    Function.update_self ..
  have hrun' : (s.onThread executing fun th =>
      { th with stack := .deleted b :: rest }).CanRun executing := by
    unfold State.CanRun
    rw [hself]
    exact hrun
  unfold Life.deleteClose
  dsimp only
  split
  next => exact h1
  next hz =>
    refine h1.close hrun' ?_ hz
    intro he hw
    rw [(hkept t).existence] at he
    have hw' : mustWait s t executing = true := by
      unfold mustWait at hw ⊢
      rw [hself] at hw
      exact hw
    obtain ⟨hone, hcycle⟩ := hc he hw'
    refine ⟨?_, ?_⟩
    · intro d hd
      rw [(hkept t).terminator] at hd
      exact hone d hd
    · rw [hself]
      rintro ⟨l, hin, hl⟩ hpath
      have hin' : Frame.handler l ∈ (s.threads executing).stack := by
        rw [hs]
        exact mem_handler_of_head (f := .deleted b) (fun _ => nofun) l hin
      refine hcycle ⟨l, hin', hl⟩ (ReflTransGen.mono ?_ _ _ hpath)
      intro a c hac
      exact ⟨(hkept a).waiting.symm.trans hac.1, (hkept c).terminator.symm.trans hac.2.1,
        (hkept c).existence.symm.trans hac.2.2⟩

theorem Inv.advance (h : Inv s) (he : (Op.advance t).Enabled s) (hc : (Op.advance t).Careful s) :
    Inv (advance s t) := by
  have hrun : s.CanRun t := he
  have hsection : ∀ b f rest, (∀ l, f ≠ .handler l) → (s.threads t).stack = f :: rest →
      Inv (sectionEnd s t b rest) := by
    intro b f rest hf hs
    refine h.onThread (kept_setLifeProtection b ?_)
    intro l hl
    rw [hs] at hl
    rcases List.mem_cons.mp hl with e | hl
    · exact absurd e.symm (hf l)
    · exact hl
  unfold Op.Careful at hc
  dsimp only at hc
  unfold Life.advance
  cases hs : (s.threads t).stack with
  | nil => exact h
  | cons f rest =>
    rw [hs] at hc
    cases f with
    | guarded b => exact hsection b (.guarded b) rest (fun _ => nofun) hs
    | delete b victim => exact h.deleteClose hrun hs hc
    | deleted b => exact hsection b (.deleted b) rest (fun _ => nofun) hs
    | handler l => exact h.handlerEnd hrun hc

theorem Inv.handlerBegin (h : Inv s) : Inv (handlerBegin s t) := by
  refine h.onThread ⟨rfl, rfl, rfl, ?_⟩
  rintro (hterm | ⟨l, hin, hl⟩)
  · exact .inr ⟨_, List.mem_cons_self, hterm⟩
  · exact .inr ⟨l, List.mem_cons_of_mem _ hin, hl⟩

theorem Inv.protect (h : Inv s) (f : Thread Tid → Frame Tid) :
    Inv (s.onThread t fun th => { th.setLifeProtection true with stack := f th :: th.stack }) := by
  have hk : (s.threads t).Kept { (s.threads t).setLifeProtection true with
      stack := f (s.threads t) :: (s.threads t).stack } :=
    kept_setLifeProtection true fun l hl => List.mem_cons_of_mem _ hl
  exact h.onThread hk

theorem Inv.start (h : Inv s) (ht : (s.threads t).existence = .dormant) :
    Inv (s.onThread t fun th => { th with existence := .started }) := by
  refine h.unseen ?_ ⟨rfl, id, fun _ => .inr (h.dormant t ht), nofun⟩ rfl
  intro d hd
  exact absurd (ht.symm.trans hd.2.2) nofun

theorem Inv.run (h : Inv s) {op : Op Tid} (he : op.Enabled s) (hc : op.Careful s) :
    Inv (op.run s) := by
  cases op with
  | start t => exact h.start he.1
  | sectionBegin t => exact h.protect fun th => .guarded th.life.isProtected
  | delete executing t => exact h.protect fun th => .delete th.life.isProtected t
  | restart executing t =>
    show Inv (Life.restart s executing t)
    unfold Life.restart
    split
    next => exact h.requestLifeChange t executing _
    next => exact h
  | handler t => exact h.handlerBegin
  | advance t => exact h.advance he hc

section

omit [DecidableEq Tid]

theorem inv_initial : Inv (initial Tid) where
  ending := fun _ _ hw => nomatch hw.1
  victim := fun _ hw => nomatch hw
  waiting := fun _ _ ht => nomatch ht
  single := fun _ _ _ hw => nomatch hw.1
  dormant := fun _ _ => rfl
  acyclic := by
    intro t ht
    obtain ⟨u, hu, -⟩ := TransGen.head'_iff.mp ht
    exact nomatch hu.1

end

/-- No thread waits in vain. -/
structure Deleters (s : State Tid) : Prop where
  waiting : ∀ d, (s.threads d).waiting = true → ∃ v, Waits s d v ∧ (s.threads v).Ending
  acyclic : ∀ t, ¬ TransGen (Waits s) t t
  /-- The victim makes the thread ready when it becomes a zombie. -/
  ready : ∀ d v l rest, Waits s d v → (s.threads v).stack = .handler l :: rest →
    l.terminating = true → ((advance s v).threads d).waiting = false

theorem Inv.deleters (h : Inv s) : Deleters s where
  waiting := by
    intro d hd
    obtain ⟨v, hv⟩ := h.victim d hd
    exact ⟨v, hv, h.ending d v hv⟩
  acyclic := h.acyclic
  ready := by
    intro d v l rest hw hs hl
    have hterm : ((Life.makeZombie s v).threads v).terminator = some d := by
      unfold Life.makeZombie State.onThread
      simpa using hw.2.1
    unfold Life.advance
    rw [hs]
    show ((Life.handlerEnd s v l rest).threads d).waiting = false
    unfold Life.handlerEnd
    rw [if_pos hl]
    dsimp only
    rw [hterm]
    unfold clearState State.onThread
    simp

theorem Legal.reachable {condition : State Tid → Op Tid → Prop} {ops : List (Op Tid)}
    (h : Legal condition s ops) : Reachable condition s (ops.foldl Op.run s) := by
  induction ops generalizing s with
  | nil => exact .refl
  | cons op rest ih => exact .head ⟨op, h.1, h.2.1, rfl⟩ (ih h.2.2)

/-- In the runs of careful steps no deleter is stranded. -/
theorem no_deleter_stranded (hr : Reachable Op.Careful (initial Tid) s) : Deleters s := by
  have h : Inv s := by
    refine Reach.invariant hr inv_initial ?_
    rintro s s' h ⟨op, he, hc, rfl⟩
    exact h.run he hc
  exact h.deleters

/-- A thread deletes another one. -/
def oneDeleter : List (Op (Fin 3)) := [.start 0, .start 1, .start 2, .delete 0 2, .advance 0]

theorem no_deleter_stranded_one : Deleters (oneDeleter.foldl Op.run (initial (Fin 3))) := by
  have hlegal : Legal Op.Careful (initial (Fin 3)) oneDeleter := by
    refine ⟨⟨rfl, rfl⟩, trivial, ⟨rfl, rfl⟩, trivial, ⟨rfl, rfl⟩, trivial,
      ⟨⟨rfl, .inl ⟨rfl, rfl⟩⟩, rfl⟩, trivial, ⟨rfl, .inl ⟨rfl, rfl⟩⟩, ?_, trivial⟩
    intro _ _
    refine ⟨fun _ => nofun, ?_⟩
    rintro ⟨l, hin, -⟩
    cases hin with
    | tail _ hin => cases hin
  exact no_deleter_stranded hlegal.reachable

/-- Two threads delete the same one, which knows of the second one only. -/
theorem no_deleter_stranded_two : ¬ ∀ s : State (Fin 3),
    Reachable (fun _ _ => True) (initial (Fin 3)) s → Deleters s := by
  intro h
  have hlegal : Legal (fun _ _ => True) (initial (Fin 3)) (oneDeleter ++ [.delete 1 2, .advance 1]) :=
    ⟨⟨rfl, rfl⟩, trivial, ⟨rfl, rfl⟩, trivial, ⟨rfl, rfl⟩, trivial,
      ⟨⟨rfl, .inl ⟨rfl, rfl⟩⟩, rfl⟩, trivial, ⟨rfl, .inl ⟨rfl, rfl⟩⟩, trivial,
      ⟨⟨rfl, .inl ⟨rfl, rfl⟩⟩, rfl⟩, trivial, ⟨rfl, .inl ⟨rfl, rfl⟩⟩, trivial, trivial⟩
  obtain ⟨v, ⟨-, hterm, -⟩, -⟩ := (h _ hlegal.reachable).waiting 0 rfl
  revert v
  decide

end Rtems.Life
