import Rtems.Signals.Queued

/-!
# Runs of signals

Every careful step keeps the bookkeeping, and with it a delivery always has a value to take.
-/

namespace Rtems.Signals

variable {Tid Nid : Type} [DecidableEq Tid] [DecidableEq Nid] {s s' s₀ : State Tid Nid}
  {nodes : List Nid} {t : Tid} {n : Nid} {sig signo value : Nat} {info : Option Nat}

/-! ## Clearing a signal -/

section

omit [DecidableEq Nid]

/-- Clearing a signal of a thread leaves the queued values alone. -/
theorem clearSignals_thread (s : State Tid Nid) (t : Tid) (signo : Nat) (checkBlocked : Bool) :
    SameQueues s (clearSignals s t signo false checkBlocked).2 ∧
      ∀ info, (clearSignals s t signo false checkBlocked).1 = some info →
        info = none ∧ s.signalsPending t signo = true ∧
          (checkBlocked = true → s.signalsBlocked t signo = false) := by
  unfold clearSignals
  dsimp only
  rw [if_neg Bool.false_ne_true]
  split
  next hp =>
    obtain ⟨hpend, hunblocked⟩ := Bool.and_eq_true_iff.mp hp
    refine ⟨⟨rfl, rfl, rfl, rfl, rfl, rfl, rfl, rfl, rfl⟩, ?_⟩
    rintro info ⟨⟩
    refine ⟨rfl, hpend, ?_⟩
    rintro rfl
    simpa using hunblocked
  next => exact ⟨.refl s, nofun⟩

/-- The state after the first value of a signal has been taken off. -/
def taken (s : State Tid Nid) (signo : Nat) (n : Nid) (rest : List Nid) : State Tid Nid :=
  { s with
    siginfo := Function.update s.siginfo signo rest
    taken := Function.update s.taken signo (s.taken signo ++ [s.info n])
    inactive := s.inactive ++ [n]
    pending := Function.update s.pending signo (! rest.isEmpty) }

/-- Clearing a signal that has siginfo and values takes the first value off. -/
theorem clearSignals_queued {checkBlocked : Bool} {rest : List Nid}
    (hpend : s.pending signo = true)
    (hunblocked : (! checkBlocked || ! s.signalsBlocked t signo) = true)
    (hf : (s.vectors signo).siginfo = true) (hl : s.siginfo signo = n :: rest) :
    clearSignals s t signo true checkBlocked =
      (some (some (s.info n)), taken s signo n rest) := by
  unfold clearSignals
  dsimp only
  rw [if_pos rfl, if_pos (Bool.and_eq_true_iff.mpr ⟨hpend, hunblocked⟩), if_pos hf]
  simp [hl, clearProcessSignals_siginfo, hf, Signals.taken, hpend]

/-- Clearing a signal of the process takes a value off, or it clears the bit. -/
theorem Inv.clearSignals_cases (h : Inv nodes s) (t : Tid) (signo : Nat) (checkBlocked : Bool) :
    clearSignals s t signo true checkBlocked = (none, s) ∨
    s.pending signo = true ∧ (checkBlocked = true → s.signalsBlocked t signo = false) ∧
      ((s.vectors signo).siginfo = true ∧ (∃ n rest, s.siginfo signo = n :: rest ∧
          clearSignals s t signo true checkBlocked =
            (some (some (s.info n)), taken s signo n rest)) ∨
        (s.vectors signo).siginfo = false ∧ clearSignals s t signo true checkBlocked =
          (some none, Signals.clearProcessSignals s signo)) := by
  unfold clearSignals
  dsimp only
  rw [if_pos rfl]
  split
  next hp =>
    obtain ⟨hpend, hunblocked⟩ := Bool.and_eq_true_iff.mp hp
    refine .inr ⟨hpend, ?_, ?_⟩
    · rintro rfl
      simpa using hunblocked
    · cases hf : (s.vectors signo).siginfo with
      | false => exact .inr ⟨rfl, rfl⟩
      | true =>
        obtain ⟨n, rest, hl⟩ := List.exists_cons_of_ne_nil (h.pending signo hf hpend)
        have hclear := clearSignals_queued hpend hunblocked hf hl
        unfold clearSignals at hclear
        dsimp only at hclear
        rw [if_pos rfl, if_pos hp, if_pos hf] at hclear
        exact .inl ⟨rfl, n, rest, hl, hclear⟩
  next => exact .inl rfl

end

section

omit [DecidableEq Nid] [DecidableEq Tid]

theorem Inv.taken (h : Inv nodes s) {rest : List Nid} (hl : s.siginfo signo = n :: rest) :
    Inv nodes (taken s signo n rest) :=
  h.take hl

end

section

omit [DecidableEq Nid]

theorem Inv.clearSignals (h : Inv nodes s) {checkBlocked : Bool}
    (hc : s.pending signo = true → (checkBlocked = true → s.signalsBlocked t signo = false) →
      Clearable s signo) :
    Inv nodes (clearSignals s t signo true checkBlocked).2 := by
  rcases h.clearSignals_cases t signo checkBlocked with
    e | ⟨hp, hb, ⟨-, n, rest, hl, e⟩ | ⟨-, e⟩⟩
  · rw [e]
    exact h
  · rw [e]
    exact h.taken hl
  · rw [e]
    exact h.clearProcessSignals (hc hp hb)

/-! ## Steps that do not touch the values -/

theorem sameQueues_unblockThread (s : State Tid Nid) (t : Tid) (signo : Nat) :
    SameQueues s (unblockThread s t signo).2 := by
  unfold unblockThread
  split
  next =>
    split
    next => exact ⟨rfl, rfl, rfl, rfl, rfl, rfl, rfl, rfl, rfl⟩
    next => exact .refl s
  next => exact .refl s

theorem sameQueues_pthreadKill (s : State Tid Nid) (t : Tid) (sig : Nat) :
    SameQueues s (pthreadKill s t sig) := by
  unfold pthreadKill
  split
  next => exact .refl s
  next =>
    have h := sameQueues_unblockThread { s with
      signalsPending := Function.update s.signalsPending t
        (Function.update (s.signalsPending t) sig true) } t sig
    exact ⟨h.vectors, h.pending, h.inactive, h.siginfo, h.info, h.due, h.posted, h.taken, h.handled⟩

theorem sameQueues_sigtimedwaitReturn (s : State Tid Nid) (t : Tid) (cleared : Nat → Bool) :
    SameQueues s (sigtimedwaitReturn s t cleared) := by
  unfold sigtimedwaitReturn
  split
  next signo _ =>
    have h := (clearSignals_thread s t signo false).1
    exact ⟨h.vectors, h.pending, h.inactive, h.siginfo, h.info, h.due, h.posted, h.taken, h.handled⟩
  next => exact ⟨rfl, rfl, rfl, rfl, rfl, rfl, rfl, rfl, rfl⟩
  next => exact .refl s

theorem sameQueues_timeout (s : State Tid Nid) (t : Tid) : SameQueues s (timeout s t) := by
  unfold timeout
  split
  next => exact ⟨rfl, rfl, rfl, rfl, rfl, rfl, rfl, rfl, rfl⟩
  next => exact .refl s

end

/-! ## Steps -/

/-- A `killinfo` leaves the values alone, or it posts the signal. -/
theorem killinfo_cases (s : State Tid Nid) (t : Tid) (own : Bool) (sig : Nat)
    (value : Option Nat) (target : Option Tid) :
    (SameQueues s (killinfo s t own sig value target).2 ∧
      (killinfo s t own sig value target).1 ≠ .error .EAGAIN) ∨
    posts s own sig target = true ∧ ∃ s₁, SameQueues s s₁ ∧
      killinfo s t own sig value target = postProcessSignal s₁ sig (value.getD 0) := by
  unfold killinfo
  split
  next => exact .inl ⟨.refl s, nofun⟩
  next hown =>
    split
    next => exact .inl ⟨.refl s, nofun⟩
    next hsig =>
      split
      next => exact .inl ⟨.refl s, nofun⟩
      next hvalid =>
        split
        next => exact .inl ⟨.refl s, nofun⟩
        next hign =>
          split
          next => exact .inl ⟨sameQueues_pthreadKill s t sig, nofun⟩
          next hhard =>
            have hposts : ungiven s sig target = true → posts s own sig target = true := by
              intro hgiven
              unfold posts
              rw [hgiven]
              simp_all
            cases target with
            | none => exact .inr ⟨hposts rfl, s, .refl s, rfl⟩
            | some u =>
              have hsame := sameQueues_unblockThread s u sig
              dsimp only
              cases hu : unblockThread s u sig with
              | mk b s₁ =>
                rw [hu] at hsame
                cases b with
                | true => exact .inl ⟨hsame, nofun⟩
                | false =>
                  have hgiven : ungiven s sig (some u) = true := by
                    show (! (unblockThread s u sig).1) = true
                    rw [hu]
                    rfl
                  exact .inr ⟨hposts hgiven, s₁, hsame, rfl⟩

theorem Inv.killinfo (h : Inv nodes s) {own : Bool} {value : Option Nat} {target : Option Tid}
    (hc : (Op.killinfo t own sig value target).Careful s) :
    Inv nodes (killinfo s t own sig value target).2 := by
  rcases killinfo_cases s t own sig value target with ⟨hsame, -⟩ | ⟨hposts, s₁, hsame, e⟩
  · exact h.same hsame
  · rw [e]
    refine (h.same hsame).postProcessSignal ?_ _
    rw [hsame.vectors, hsame.pending, hsame.inactive]
    exact hc hposts

section

omit [DecidableEq Nid]

theorem Inv.sigaction (h : Inv nodes s) {act : Option Sigaction}
    (hc : (Op.sigaction sig act : Op Tid).Careful s) : Inv nodes (sigaction s sig act).2 := by
  unfold Signals.sigaction
  split
  next => exact h
  next =>
    split
    next => exact h
    next hvalid =>
      split
      next => exact h
      next =>
        cases act with
        | none => exact h
        | some a =>
          dsimp only
          split
          next =>
            have hdefault : (defaultVectors sig).siginfo = false := by
              unfold defaultVectors
              split
              next => rfl
              next => rfl
            have hvec : ∀ i, (Function.update s.vectors sig (defaultVectors sig) i).siginfo = true →
                (s.vectors i).siginfo = true := by
              intro i hi
              rcases eq_or_ne i sig with rfl | hne
              · rw [Function.update_self, hdefault] at hi
                cases hi
              · rw [Function.update_of_ne hne] at hi
                exact hi
            refine ⟨h.nodup, h.disjoint, h.unique, h.complete, h.queued, ?_, h.fifo, ?_, h.handled⟩
            · exact fun i hf hp => h.pending i (hvec i hf) hp
            · intro u i info hm
              obtain ⟨h1, h2⟩ := h.due u i info hm
              refine ⟨?_, h2⟩
              intro hnone
              cases hf : (Function.update s.vectors sig (defaultVectors sig) i).siginfo with
              | false => rfl
              | true => exact absurd ((h1 hnone).symm.trans (hvec i hf)) nofun
          next hdfl =>
            have hvalid' : isValidSigno sig = true := by simpa using hvalid
            obtain ⟨hclear, hdue⟩ := hc hvalid' a rfl hdfl
            have h1 := h.clearProcessSignals hclear
            have hpend : (Signals.clearProcessSignals s sig).pending sig = true →
                (Signals.clearProcessSignals s sig).siginfo sig ≠ [] := by
              intro hp
              cases hf : (s.vectors sig).siginfo with
              | true =>
                refine h1.pending sig ?_ hp
                rcases clearProcessSignals_cases hclear with e | ⟨-, e⟩
                · rw [e]
                  exact hf
                · rw [e]
                  exact hf
              | false =>
                have hcleared : (Signals.clearProcessSignals s sig).pending sig = false := by
                  unfold Signals.clearProcessSignals
                  rw [hf]
                  exact Function.update_self ..
                exact absurd (hcleared.symm.trans hp) nofun
            have hsame : (Signals.clearProcessSignals s sig).vectors = s.vectors ∧
                (Signals.clearProcessSignals s sig).due = s.due := by
              rcases clearProcessSignals_cases hclear with e | ⟨-, e⟩
              · rw [e]
                exact ⟨rfl, rfl⟩
              · rw [e]
                exact ⟨rfl, rfl⟩
            refine ⟨h1.nodup, h1.disjoint, h1.unique, h1.complete, h1.queued, ?_, h1.fifo, ?_,
              h1.handled⟩
            · intro i hf hp
              dsimp only at hf hp ⊢
              rcases eq_or_ne i sig with rfl | hne
              · exact hpend hp
              · rw [Function.update_of_ne hne] at hf
                exact h1.pending i hf hp
            · intro u i info hm
              obtain ⟨h2, h3⟩ := h1.due u i info hm
              refine ⟨?_, h3⟩
              intro hnone
              dsimp only
              rcases eq_or_ne i sig with rfl | hne
              · rw [Function.update_self]
                cases hf : a.siginfo with
                | false => rfl
                | true =>
                  dsimp only at hm
                  rw [hsame.2, hnone] at hm
                  exact absurd hm (hdue hf u)
              · rw [Function.update_of_ne hne]
                exact h2 hnone

theorem Inv.push (h : Inv nodes s) (hi : info = none → (s.vectors signo).siginfo = false)
    (hv : ∀ v, info = some v → v ∈ s.taken signo) :
    Inv nodes { s with due := Function.update s.due t ((signo, info) :: s.due t) } := by
  refine ⟨h.nodup, h.disjoint, h.unique, h.complete, h.queued, h.pending, h.fifo, ?_, h.handled⟩
  intro u i x hm
  dsimp only at hm
  rcases eq_or_ne u t with rfl | hne
  · rw [Function.update_self] at hm
    rcases List.mem_cons.mp hm with e | hm
    · cases e
      exact ⟨hi, hv⟩
    · exact h.due u i x hm
  · rw [Function.update_of_ne hne] at hm
    exact h.due u i x hm

theorem Inv.checkSignal (h : Inv nodes s) {isGlobal : Bool}
    (hc : (Op.checkSignal t signo isGlobal).Careful s) :
    Inv nodes (checkSignal s t signo isGlobal) := by
  unfold Signals.checkSignal
  cases isGlobal with
  | false =>
    obtain ⟨hsame, hinfo⟩ := clearSignals_thread s t signo true
    cases hr : Signals.clearSignals s t signo false true with
    | mk r s₁ =>
      rw [hr] at hsame hinfo
      cases r with
      | none => exact h.same hsame
      | some info =>
        obtain ⟨rfl, hp, hb⟩ := hinfo info rfl
        refine (h.same hsame).push ?_ nofun
        intro _
        rw [hsame.vectors]
        exact hc (hb rfl) hp
  | true =>
    rcases h.clearSignals_cases t signo true with
      e | ⟨hp, hb, ⟨-, n, rest, hl, e⟩ | ⟨hf, e⟩⟩
    · rw [e]
      exact h
    · rw [e]
      refine (h.taken hl).push nofun ?_
      rintro v ⟨⟩
      show s.info n ∈ Function.update s.taken signo (s.taken signo ++ [s.info n]) signo
      rw [Function.update_self]
      simp
    · rw [e]
      have hclear := hc (hb rfl) hp
      refine (h.clearProcessSignals hclear).push ?_ nofun
      intro _
      rcases clearProcessSignals_cases hclear with e | ⟨-, e⟩
      · rw [e]
        exact hf
      · rw [e]
        exact hf

theorem Inv.callHandler (h : Inv nodes s) (t : Tid) : Inv nodes (callHandler s t) := by
  unfold Signals.callHandler
  cases hd : s.due t with
  | nil => exact h
  | cons x rest =>
    obtain ⟨signo, info⟩ := x
    have hin : (signo, info) ∈ s.due t := by rw [hd]; exact List.mem_cons_self
    have hpop : Inv nodes { s with due := Function.update s.due t rest } := by
      refine ⟨h.nodup, h.disjoint, h.unique, h.complete, h.queued, h.pending, h.fifo, ?_, h.handled⟩
      intro u i y hm
      dsimp only at hm
      rcases eq_or_ne u t with rfl | hne
      · rw [Function.update_self] at hm
        exact h.due u i y (hd ▸ List.mem_cons_of_mem _ hm)
      · rw [Function.update_of_ne hne] at hm
        exact h.due u i y hm
    dsimp only
    split
    next => exact hpop
    next =>
      split
      next hf =>
        refine ⟨hpop.nodup, hpop.disjoint, hpop.unique, hpop.complete, hpop.queued, hpop.pending,
          hpop.fifo, hpop.due, ?_⟩
        intro i y hm
        rcases List.mem_append.mp hm with hm | hm
        · exact h.handled i y hm
        · cases List.mem_singleton.mp hm
          obtain ⟨h1, h2⟩ := h.due t signo info hin
          cases info with
          | none => exact absurd ((h1 rfl).symm.trans hf) nofun
          | some v => exact ⟨v, rfl, h2 v rfl⟩
      next => exact hpop

theorem Inv.sigtimedwait (h : Inv nodes s) {set : Nat → Bool}
    (hc : (Op.sigtimedwait t set).Careful s) : Inv nodes (sigtimedwait s t set) := by
  unfold Signals.sigtimedwait
  split
  next => exact h.same (clearSignals_thread s t _ false).1
  next hthread =>
    split
    next hprocess =>
      refine h.clearSignals ?_
      exact fun _ _ => hc (by simpa using hthread) hprocess
    next => exact h.same ⟨rfl, rfl, rfl, rfl, rfl, rfl, rfl, rfl, rfl⟩

end

theorem Inv.run (h : Inv nodes s) {op : Op Tid} (hc : op.Careful s) : Inv nodes (op.run s) := by
  cases op with
  | killinfo executing own sig value target => exact h.killinfo hc
  | pthreadKill t sig => exact h.same (sameQueues_pthreadKill s t sig)
  | sigaction sig act => exact h.sigaction hc
  | checkSignal t signo isGlobal => exact h.checkSignal hc
  | callHandler t => exact h.callHandler t
  | sigtimedwait t set => exact h.sigtimedwait hc
  | sigtimedwaitReturn t cleared => exact h.same (sameQueues_sigtimedwaitReturn s t cleared)
  | timeout t => exact h.same (sameQueues_timeout s t)
  | setBlocked t blocked => exact h.same ⟨rfl, rfl, rfl, rfl, rfl, rfl, rfl, rfl, rfl⟩

/-! ## Runs -/

section

omit [DecidableEq Nid] [DecidableEq Tid]

theorem inv_initial {nodes : List Nid} (hn : nodes.Nodup) (info : Nid → Nat)
    (blocked : Tid → Nat → Bool) : Inv nodes (initial nodes info blocked) where
  nodup := ⟨hn, fun _ => List.nodup_nil⟩
  disjoint := fun _ _ _ => nofun
  unique := nofun
  complete := by
    intro n
    constructor
    · exact .inl
    · rintro (hn | ⟨-, ⟨⟩⟩)
      exact hn
  queued := fun _ hne => absurd rfl hne
  pending := nofun
  fifo := fun _ => rfl
  due := nofun
  handled := nofun

end

section

omit [DecidableEq Nid] [DecidableEq Tid]

end

section

omit [DecidableEq Tid]

end

end Rtems.Signals
