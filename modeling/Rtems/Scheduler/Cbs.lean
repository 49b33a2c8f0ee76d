import Rtems.Scheduler.EdfOrder

/-!
# The late unblock rule of the CBS scheduler

The model of `schedulercbsunblock.c`, `schedulercbsreleasejob.c` and `schedulercbscreateserver.c` over
the EDF scheduler.  A constant bandwidth server has a budget for each period, and its thread runs at
the deadline of the current period.  A thread that is unblocked late may keep this deadline only if
what is left of the budget fits into what is left of the period at the utilisation of the server.

The code names the remaining budget `deadline_left` and the remaining time `budget_left`.  Its test
multiplies the deadline by the remaining time and the budget by the remaining budget, which is the
other pairing.

`time_t` is `unsigned int`, so that the products wrap around at `2^32`.
-/

namespace Rtems.Scheduler.Edf

open Lib

/-! ## Servers -/

/-- `Scheduler_CBS_Parameters`. -/
structure Parameters where
  deadline : BitVec 32
  budget : BitVec 32
deriving DecidableEq, Repr

variable {Tid : Type} [DecidableEq Tid]

/-- The test of the late unblock rule.  All of its values are of the type `time_t`. -/
def isLate (params : Parameters) (cpuTimeBudget realPriority ticks : BitVec 32) : Bool :=
  let deadlineLeft := cpuTimeBudget
  let budgetLeft := realPriority - ticks
  params.deadline * budgetLeft > params.budget * deadlineLeft

/-- The new priority and the new budget in `_Scheduler_CBS_Release_job`. -/
def cbsRelease (s : State Tid) (t : Tid) (server : Option Parameters) (cpuTimeBudget : BitVec 32)
    (deadline : BitVec 32) : BitVec 32 × BitVec 32 :=
  match server with
  | none => (releasePriority s t deadline, cpuTimeBudget)
  | some params =>
    (if deadline ≠ 0#32 then (s.ticksSinceBoot + params.deadline) &&& ~~~prioMsb
      else (s.threads t).initialPriority,
      params.budget)

variable {s s' : State Tid} {t u : Tid} {fuel : Nat} {p : Parameters}
  {cpuTimeBudget : BitVec 32} {l : List Tid}

/-! ## What the operations leave alone -/

theorem isLate_iff {realPriority ticks : BitVec 32} :
    isLate p cpuTimeBudget realPriority ticks = true ↔
      p.budget.toNat * cpuTimeBudget.toNat % 2 ^ 32 <
        p.deadline.toNat * (realPriority - ticks).toNat % 2 ^ 32 := by
  simp only [isLate, decide_eq_true_eq, gt_iff_lt, BitVec.lt_def, BitVec.toNat_mul]

/-- The late unblock rule: with the remaining budget `q` and the absolute deadline `d`, the thread
keeps its priorities if the utilisation does not increase, and else it goes to the background. -/
def Follows (p : Parameters) (q d : Nat) (s s' : State Tid) (t : Tid) : Prop :=
  if q * p.deadline.toNat ≤ p.budget.toNat * ((d : Int) - s.now) then
    (s'.threads t).realPriority = (s.threads t).realPriority ∧
      (s'.threads t).currentPriority = (s.threads t).currentPriority
  else (s'.threads t).realPriority = (s.threads t).initialPriority ∧
    (s'.threads t).currentPriority = (s.threads t).initialPriority

/-- What the wrap-around takes off the difference of the products of the test. -/
def lost (p : Parameters) (q y : Nat) : Int :=
  2 ^ 32 * ((p.deadline.toNat * y / 2 ^ 32 : Nat) - (p.budget.toNat * q / 2 ^ 32 : Nat) : Int)

omit [DecidableEq Tid]

/-- A job that is unblocked at the tick of its release is late if the budget is less than the
deadline, and the square of the deadline does not wrap around. -/
theorem isLate_cbsRelease {deadline : BitVec 32} (hdeadline : deadline ≠ 0#32)
    (hnow : s.now + p.deadline.toNat < 2 ^ 31) (hfits : p.deadline.toNat * p.deadline.toNat < 2 ^ 32)
    (hlt : p.budget.toNat < p.deadline.toNat) :
    isLate p (cbsRelease s t (some p) cpuTimeBudget deadline).2
      (cbsRelease s t (some p) cpuTimeBudget deadline).1 s.ticksSinceBoot = true := by
  unfold cbsRelease
  simp only [hdeadline, ne_eq, not_false_eq_true, if_true]
  have hleft : (((s.ticksSinceBoot + p.deadline) &&& ~~~prioMsb) - s.ticksSinceBoot).toNat =
      p.deadline.toNat := by
    rw [BitVec.toNat_sub, toNat_and_not_msb, BitVec.toNat_add, State.ticksSinceBoot,
      BitVec.toNat_ofNat]
    omega
  have hless := Nat.mul_lt_mul'' hlt hlt
  rw [isLate_iff, hleft, Nat.mod_eq_of_lt hfits, Nat.mod_eq_of_lt (hless.trans hfits)]
  exact hless

end Rtems.Scheduler.Edf
