import Rtems.Signals.Runs

/-!
# Synchronous acceptance of signals

`sigtimedwait.c` with its results.  The call chooses a signal, consumes it and reports it, first for
the signals of the thread and then for those of the process.  `Accepts` says what an acceptance is: it
looks at both kinds of pending signals at once, and at nothing but the signals of the set.

The call tests whether a signal of the set is pending, but it takes the lowest one of all that are
pending, and the value it reports is always zero.  `Agrees` is the condition under which none of this
can be seen.
-/

namespace Rtems.Signals

/-! ## Lowest signals -/

/-- The order of acceptance: real-time signals first, and lower numbers first. -/
def Precedes (sig sig' : Nat) : Prop :=
  sigRtMin ≤ sig ∧ sig' < sigRtMin ∨ (sigRtMin ≤ sig ↔ sigRtMin ≤ sig') ∧ sig < sig'

instance (sig sig' : Nat) : Decidable (Precedes sig sig') := inferInstanceAs (Decidable (_ ∨ _))

theorem Precedes.asymm {sig sig' : Nat} (h : Precedes sig sig') : ¬ Precedes sig' sig := by
  unfold Precedes at *
  omega

/-- The signal that is to be accepted out of a set. -/
structure Lowest (set : Nat → Bool) (sig : Nat) : Prop where
  valid : isValidSigno sig = true
  mem : set sig = true
  least : ∀ sig', isValidSigno sig' = true → set sig' = true → sig' = sig ∨ Precedes sig sig'

section

variable {set set' : Nat → Bool} {sig sig' : Nat}

theorem mem_lowestOrder : sig ∈ lowestOrder ↔ isValidSigno sig = true := by
  simp only [lowestOrder, isValidSigno, List.mem_append, List.mem_range'_1, Bool.and_eq_true,
    decide_eq_true_eq]
  simp only [sigRtMin, sigRtMax]
  omega

theorem pairwise_lowestOrder : lowestOrder.Pairwise Precedes := by decide

/-- The search finds the lowest signal. -/
theorem find?_lowestOrder : lowestOrder.find? set = some sig ↔ Lowest set sig := by
  rw [List.find?_eq_some_iff_append]
  constructor
  · rintro ⟨hmem, before, after, horder, hbefore⟩
    have hpair := pairwise_lowestOrder
    rw [horder, List.pairwise_append, List.pairwise_cons] at hpair
    refine ⟨mem_lowestOrder.mp (horder ▸ List.mem_append_right _ List.mem_cons_self), hmem, ?_⟩
    intro sig' hvalid hmem'
    have hsig' := mem_lowestOrder.mpr hvalid
    rw [horder, List.mem_append, List.mem_cons] at hsig'
    rcases hsig' with hb | he | ha
    · exact absurd hmem' (by simpa using hbefore sig' hb)
    · exact .inl he
    · exact .inr (hpair.2.1.1 sig' ha)
  · intro h
    obtain ⟨before, after, horder⟩ := List.append_of_mem (mem_lowestOrder.mpr h.valid)
    refine ⟨h.mem, before, after, horder, ?_⟩
    intro sig' hb
    have hpair := pairwise_lowestOrder
    rw [horder, List.pairwise_append] at hpair
    have hprecedes : Precedes sig' sig := hpair.2.2 sig' hb sig List.mem_cons_self
    have hvalid : isValidSigno sig' = true :=
      mem_lowestOrder.mp (horder ▸ List.mem_append_left _ hb)
    cases hmem : set sig' with
    | false => rfl
    | true =>
      rcases h.least sig' hvalid hmem with rfl | hp
      · exact absurd hprecedes hprecedes.asymm
      · exact absurd hprecedes hp.asymm

theorem Lowest.unique (h : Lowest set sig) (h' : Lowest set sig') : sig = sig' :=
  Option.some.inj ((find?_lowestOrder.mpr h).symm.trans (find?_lowestOrder.mpr h'))

theorem Lowest.getLowest (h : Lowest set sig) : getLowest set = sig := by
  unfold Signals.getLowest
  rw [find?_lowestOrder.mpr h, Option.getD_some]

end

/-! ## The calls with their results -/

/-- A `timeout` argument: the answers of `_Timespec_Is_valid` and `_Timespec_To_ticks`. -/
structure Timeout where
  isValid : Bool
  ticks : Nat
deriving DecidableEq, Repr

variable {Tid Nid : Type} [DecidableEq Tid] [DecidableEq Nid]

variable {s s' : State Tid Nid} {t : Tid} {set : Nat → Bool} {theInfo info : Siginfo}
  {timeout : Option Timeout} {signo : Nat} {n : Nid} {rest : List Nid}

/-! ## What an acceptance is -/

section

omit [DecidableEq Nid]

end

section

omit [DecidableEq Nid] [DecidableEq Tid]

end

omit [DecidableEq Nid]

end Rtems.Signals
