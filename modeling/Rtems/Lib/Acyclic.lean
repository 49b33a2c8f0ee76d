import Mathlib

/-!
# Relations without cycles

What keeps a relation free of cycles when an edge is added: nothing leads from
its end to its start.
-/

namespace Rtems.Lib

open Relation

variable {α : Type*} {r r' : α → α → Prop} {a b : α}

/-- No element leads to itself. -/
def Acyclic (r : α → α → Prop) : Prop := ∀ a, ¬ TransGen r a a

theorem Acyclic.mono (h : Acyclic r) (hr : ∀ a b, r' a b → r a b) : Acyclic r' := by
  intro a ha
  exact h a (TransGen.mono hr a a ha)

/-- A path with one more edge uses it or does not. -/
theorem transGen_cases (hr : ∀ x y, r' x y → r x y ∨ x = a ∧ y = b) {x y : α}
    (h : TransGen r' x y) : TransGen r x y ∨ ReflTransGen r x a ∧ ReflTransGen r b y := by
  induction h with
  | single hxy =>
    rcases hr _ _ hxy with hold | ⟨rfl, rfl⟩
    · exact .inl (.single hold)
    · exact .inr ⟨.refl, .refl⟩
  | tail _ hyz ih =>
    rcases hr _ _ hyz with hold | ⟨rfl, rfl⟩
    · rcases ih with hxy | ⟨hxa, hby⟩
      · exact .inl (hxy.tail hold)
      · exact .inr ⟨hxa, hby.tail hold⟩
    · rcases ih with hxy | ⟨hxa, -⟩
      · exact .inr ⟨hxy.to_reflTransGen, .refl⟩
      · exact .inr ⟨hxa, .refl⟩

/-- An edge closes a cycle only if its end leads to its start. -/
theorem Acyclic.add (h : Acyclic r) (hr : ∀ x y, r' x y → r x y ∨ x = a ∧ y = b)
    (hab : ¬ ReflTransGen r b a) : Acyclic r' := by
  intro x hx
  rcases transGen_cases hr hx with hold | ⟨hxa, hbx⟩
  · exact h x hold
  · exact hab (hbx.trans hxa)

end Rtems.Lib
