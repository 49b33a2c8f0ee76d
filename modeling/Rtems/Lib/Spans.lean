import Mathlib

/-!
# Pieces of a stream

Pieces of a stream in the order of their places, without a place in two of them.
-/

namespace Rtems.Lib

variable {α : Type*} {place len : α → ℕ} {lo lo' hi mid k : ℕ} {a : α} {as bs : List α}

variable (place len) in
/-- The pieces lie between `lo` and `hi`, one behind the other. -/
def Spans (lo hi : ℕ) : List α → Prop
  | [] => lo ≤ hi
  | a :: as => lo ≤ place a ∧ Spans (place a + len a) hi as

variable (place len) in
def Covers (as : List α) (k : ℕ) : Prop := ∃ a ∈ as, place a ≤ k ∧ k < place a + len a

theorem Spans.lower (h : Spans place len lo hi as) (hle : lo' ≤ lo) : Spans place len lo' hi as := by
  cases as with
  | nil => exact hle.trans h
  | cons a as => exact ⟨hle.trans h.1, h.2⟩

theorem Spans.le (h : Spans place len lo hi as) : lo ≤ hi := by
  induction as generalizing lo with
  | nil => exact h
  | cons a as ih => exact (h.1.trans (Nat.le_add_right _ _)).trans (ih h.2)

theorem Spans.upper {hi' : ℕ} (h : Spans place len lo hi as) (hle : hi ≤ hi') :
    Spans place len lo hi' as := by
  induction as generalizing lo with
  | nil => exact le_trans h hle
  | cons a as ih => exact ⟨h.1, ih h.2⟩

theorem Spans.mem (h : Spans place len lo hi as) (ha : a ∈ as) :
    lo ≤ place a ∧ place a + len a ≤ hi := by
  induction as generalizing lo with
  | nil => cases ha
  | cons b as ih =>
    rcases List.mem_cons.mp ha with rfl | ha
    · exact ⟨h.1, h.2.le⟩
    · have hb := ih h.2 ha
      exact ⟨(h.1.trans (Nat.le_add_right _ _)).trans hb.1, hb.2⟩

theorem spans_append :
    Spans place len lo hi (as ++ bs) ↔ ∃ mid, Spans place len lo mid as ∧ Spans place len mid hi bs := by
  induction as generalizing lo with
  | nil => exact ⟨fun h => ⟨lo, Nat.le_refl lo, h⟩, fun ⟨_, hle, h⟩ => h.lower hle⟩
  | cons a as ih => simp [Spans, ih, and_assoc]

@[simp]
theorem covers_nil : ¬ Covers place len ([] : List α) k := by simp [Covers]

@[simp]
theorem covers_cons :
    Covers place len (a :: as) k ↔ place a ≤ k ∧ k < place a + len a ∨ Covers place len as k := by
  simp [Covers]

@[simp]
theorem covers_append :
    Covers place len (as ++ bs) k ↔ Covers place len as k ∨ Covers place len bs k := by
  simp [Covers, or_and_right, exists_or]

/-- Nothing in front of the first piece is covered. -/
theorem Spans.not_covers (h : Spans place len lo hi as) (hk : k < lo) : ¬ Covers place len as k := by
  rintro ⟨a, ha, hle, -⟩
  have hlo := (h.mem ha).1
  omega

end Rtems.Lib
