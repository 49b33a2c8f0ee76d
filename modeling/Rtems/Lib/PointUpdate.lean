import Mathlib

/-!
# Functions changed at one element

What a concatenation or a count over a list without duplicates becomes when the
function is changed at one of its elements, or when the element is taken away.
-/

namespace Rtems.Lib

variable {α β : Type*} [DecidableEq α] {l : List α} {a : α}

theorem flatMap_erase (f : α → List β) (ha : a ∈ l) :
    (l.flatMap f).Perm (f a ++ (l.erase a).flatMap f) := by
  have h : (l.flatMap f).Perm ((a :: l.erase a).flatMap f) :=
    (List.perm_cons_erase ha).flatMap_right f
  rwa [List.flatMap_cons] at h

section

omit [DecidableEq α]

theorem flatMap_unchanged {f g : α → List β} (hfg : ∀ x, x ≠ a → g x = f x) (ha : a ∉ l) :
    l.flatMap g = l.flatMap f := by
  refine List.flatMap_congr fun x hx => hfg x ?_
  rintro rfl
  exact ha hx

end

/-- The old part and the new concatenation are the new part and the old concatenation. -/
theorem flatMap_changed {f g : α → List β} (hfg : ∀ x, x ≠ a → g x = f x) (hl : l.Nodup)
    (ha : a ∈ l) : (f a ++ l.flatMap g).Perm (g a ++ l.flatMap f) := by
  have hrest : (l.erase a).flatMap g = (l.erase a).flatMap f :=
    flatMap_unchanged hfg hl.not_mem_erase
  have hg := flatMap_erase g ha
  have hf := flatMap_erase f ha
  rw [hrest] at hg
  calc
    List.Perm (f a ++ l.flatMap g) (f a ++ (g a ++ (l.erase a).flatMap f)) := hg.append_left _
    List.Perm _ (g a ++ (f a ++ (l.erase a).flatMap f)) := List.perm_append_comm_assoc ..
    List.Perm _ (g a ++ l.flatMap f) := (hf.append_left _).symm

section

omit [DecidableEq α]

theorem countP_unchanged {p q : α → Bool} (hpq : ∀ x, x ≠ a → q x = p x) (ha : a ∉ l) :
    l.countP q = l.countP p := by
  refine List.countP_congr fun x hx => ?_
  rw [hpq x]
  rintro rfl
  exact ha hx

end

theorem countP_changed {p q : α → Bool} (hpq : ∀ x, x ≠ a → q x = p x) (hl : l.Nodup)
    (ha : a ∈ l) :
    l.countP q + (if p a then 1 else 0) = l.countP p + (if q a then 1 else 0) := by
  have hrest : (l.erase a).countP q = (l.erase a).countP p :=
    countP_unchanged hpq hl.not_mem_erase
  have hq := (List.perm_cons_erase ha).countP_eq q
  have hp := (List.perm_cons_erase ha).countP_eq p
  rw [List.countP_cons] at hq hp
  omega

end Rtems.Lib
