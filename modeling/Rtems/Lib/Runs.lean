import Mathlib

/-!
# Runs of a step function

A system takes a list of events, one after the other.  `states` are the states
that it goes through, and `Along` says that a condition on a state and the event
taken there holds all the way.
-/

namespace Rtems.Lib

variable {σ ε : Type*} (step : σ → ε → σ)

/-- The states of a run, the first and the last one included. -/
def states (s : σ) : List ε → List σ
  | [] => [s]
  | e :: es => s :: states (step s e) es

/-- Each event meets the condition in the state in which it is taken. -/
def Along (ok : σ → ε → Prop) (s : σ) : List ε → Prop
  | [] => True
  | e :: es => ok s e ∧ Along ok (step s e) es

variable {step} {ok : σ → ε → Prop} {inv good : σ → Prop} {s : σ} {es : List ε}

theorem mem_states_self : s ∈ states step s es := by
  cases es with
  | nil => exact List.mem_cons_self
  | cons e es => exact List.mem_cons_self

theorem mem_states_foldl : es.foldl step s ∈ states step s es := by
  induction es generalizing s with
  | nil => exact List.mem_cons_self
  | cons e es ih => exact List.mem_cons_of_mem _ ih

theorem Along.and {ok' : σ → ε → Prop} (h : Along step ok s es) (h' : Along step ok' s es) :
    Along step (fun s e => ok s e ∧ ok' s e) s es := by
  induction es generalizing s with
  | nil => exact trivial
  | cons e es ih => exact ⟨⟨h.1, h'.1⟩, ih h.2 h'.2⟩

/-- The start of a run. -/
theorem Along.take (h : Along step ok s es) (n : Nat) : Along step ok s (es.take n) := by
  induction es generalizing s n with
  | nil =>
    rw [List.take_nil]
    exact trivial
  | cons e es ih =>
    cases n with
    | zero => exact trivial
    | succ n => exact ⟨h.1, ih h.2 n⟩

theorem along_of_states {p : σ → Prop} (h : ∀ s' ∈ states step s es, p s') :
    Along step (fun s _ => p s) s es := by
  induction es generalizing s with
  | nil => exact trivial
  | cons e es ih =>
    exact ⟨h s mem_states_self, ih fun s' hs' => h s' (List.mem_cons_of_mem _ hs')⟩

/-- What each step keeps under the condition holds along a run. -/
theorem forall_states (hstep : ∀ s e, inv s → ok s e → inv (step s e)) (h : inv s)
    (hrun : Along step ok s es) : ∀ s' ∈ states step s es, inv s' := by
  induction es generalizing s with
  | nil =>
    intro s' hs'
    rw [List.mem_singleton.mp hs']
    exact h
  | cons e es ih =>
    intro s' hs'
    rcases List.mem_cons.mp hs' with rfl | hs'
    · exact h
    · exact ih (hstep s e h hrun.1) hrun.2 s' hs'

/-- When the invariant gives the property, and a step from it to the property
meets the condition, then the property holds in all states of a run if and only
if the condition holds along the run. -/
theorem forall_states_iff (hgood : ∀ s, inv s → good s)
    (hstep : ∀ s e, inv s → ok s e → inv (step s e))
    (hback : ∀ s e, inv s → good (step s e) → ok s e) (h : inv s) :
    (∀ s' ∈ states step s es, good s') ↔ Along step ok s es := by
  constructor
  · intro hall
    induction es generalizing s with
    | nil => exact trivial
    | cons e es ih =>
      have htail : ∀ s' ∈ states step (step s e) es, good s' :=
        fun s' hs' => hall s' (List.mem_cons_of_mem _ hs')
      have hok := hback s e h (htail _ mem_states_self)
      exact ⟨hok, ih (hstep s e h hok) htail⟩
  · intro hrun s' hs'
    exact hgood s' (forall_states hstep h hrun s' hs')

/-- The same for the runs whose events are all possible. -/
theorem Along.forall_states_iff {can : σ → ε → Prop} (hgood : ∀ s, inv s → good s)
    (hstep : ∀ s e, inv s → can s e → ok s e → inv (step s e))
    (hback : ∀ s e, inv s → can s e → good (step s e) → ok s e) (h : inv s)
    (hrun : Along step can s es) : (∀ s' ∈ states step s es, good s') ↔ Along step ok s es := by
  induction es generalizing s with
  | nil =>
    refine ⟨fun _ => trivial, ?_⟩
    intro _ s' hs'
    rw [List.mem_singleton.mp hs']
    exact hgood s h
  | cons e es ih =>
    constructor
    · intro hall
      have htail : ∀ s' ∈ states step (step s e) es, good s' :=
        fun s' hs' => hall s' (List.mem_cons_of_mem _ hs')
      have hok := hback s e h hrun.1 (htail _ mem_states_self)
      exact ⟨hok, (ih (hstep s e h hrun.1 hok) hrun.2).mp htail⟩
    · intro hok s' hs'
      rcases List.mem_cons.mp hs' with rfl | hs'
      · exact hgood s' h
      · exact (ih (hstep s e h hrun.1 hok.1) hrun.2).mpr hok.2 s' hs'

end Rtems.Lib

/-!
## More turns for a loop

A loop with a bound on its turns has a result or runs out of turns.  With a
larger bound it has the same result or a new one, and whatever is composed of
such loops behaves likewise.
-/

namespace Rtems.Lib

universe u

variable {α β : Type u} {o o' : Option α} {f g : α → Option β}

/-- The result is kept. -/
def Extends (o o' : Option α) : Prop := ∀ a, o = some a → o' = some a

theorem Extends.refl (o : Option α) : Extends o o := fun _ h => h

theorem Extends.none (o : Option α) : Extends .none o := nofun

theorem Extends.bind (h : Extends o o') (hf : ∀ a, Extends (f a) (g a)) :
    Extends (o >>= f) (o' >>= g) := by
  intro b hb
  cases o with
  | none => cases hb
  | some a =>
    rw [h a rfl]
    exact hf a b hb

theorem Extends.ite {p : Prop} [Decidable p] {u u' : Option α} (h : Extends o o')
    (hu : Extends u u') : Extends (if p then o else u) (if p then o' else u') := by
  split
  · exact h
  · exact hu

/-- A step that keeps the result keeps it for every larger bound. -/
theorem Extends.of_succ {o : Nat → Option α} (h : ∀ n, Extends (o n) (o (n + 1))) {m n : Nat}
    (hmn : m ≤ n) : Extends (o m) (o n) := by
  induction hmn with
  | refl => exact .refl _
  | step _ ih => exact fun a ha => h _ a (ih a ha)

end Rtems.Lib
