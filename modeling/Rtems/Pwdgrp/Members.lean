import Rtems.Pwdgrp.Fields

/-!
# The members of a group

The commas of the last string become null characters, and the array behind the
strings points to what they separate.
-/

namespace Rtems.Pwdgrp

/-- The members that a string lists. -/
def members (f : List UInt8) : List (List UInt8) := if f = [] then [] else f.splitOn 44

/-- The part of a string before its first null character. -/
def cut (f : List UInt8) : List UInt8 := f.takeWhile (fun c => decide (c ≠ 0))

/-- What the pointers to the members and the null pointer take, with 15 bytes to align them. -/
def pointerRoom (f : List UInt8) : Nat := ((members f).length + 1) * 4 + 15

theorem cut_eq_self {f : List UInt8} (h : 0 ∉ f) : cut f = f := by
  refine List.takeWhile_eq_self_iff.mpr ?_
  intro c hc
  exact decide_eq_true fun hzero => h (hzero ▸ hc)

theorem cut_cons_zero (f : List UInt8) : cut (0 :: f) = [] := List.takeWhile_cons_of_neg (by decide)

theorem cut_cons {c : UInt8} (hc : c ≠ 0) (f : List UInt8) : cut (c :: f) = c :: cut f :=
  List.takeWhile_cons_of_pos (decide_eq_true hc)

theorem splitOn_comma (f : List UInt8) : (44 :: f).splitOn 44 = [] :: f.splitOn 44 := by
  rw [List.splitOn_cons_eq_if_modifyHead, if_pos (beq_self_eq_true _)]

theorem splitOn_other {c : UInt8} (hc : c ≠ 44) (f : List UInt8) :
    (c :: f).splitOn 44 = (f.splitOn 44).modifyHead (c :: ·) := by
  rw [List.splitOn_cons_eq_if_modifyHead, if_neg (by simpa using hc)]

theorem length_splitOn (f : List UInt8) : (f.splitOn 44).length = f.count 44 + 1 := by
  induction f with
  | nil => rfl
  | cons c f ih =>
    by_cases hc : c = 44
    · subst hc
      rw [splitOn_comma, List.length_cons, ih, List.count_cons_self]
    · rw [splitOn_other hc, List.length_modifyHead, ih, List.count_cons_of_ne hc]

theorem Bytes.head {mem : Nat → UInt8} {p : Nat} {b : UInt8} {bs : List UInt8}
    (h : Bytes mem p (b :: bs)) : mem p = b :=
  h 0 (Nat.zero_lt_succ _)

theorem Bytes.tail {mem : Nat → UInt8} {p : Nat} {b : UInt8} {bs : List UInt8}
    (h : Bytes mem p (b :: bs)) : Bytes mem (p + 1) bs := by
  intro i hi
  have hbyte := h (i + 1) (Nat.succ_lt_succ hi)
  rw [Nat.add_assoc, Nat.add_comm 1 i]
  exact hbyte

theorem Bytes.cons {mem : Nat → UInt8} {p : Nat} {b : UInt8} {bs : List UInt8} (hb : mem p = b)
    (h : Bytes mem (p + 1) bs) : Bytes mem p (b :: bs) := by
  intro i hi
  cases i with
  | zero => exact hb
  | succ i =>
    have hbyte := h i (Nat.lt_of_succ_lt_succ hi)
    rw [Nat.add_assoc, Nat.add_comm 1 i] at hbyte
    exact hbyte

theorem Bytes.congr {mem mem' : Nat → UInt8} {p : Nat} {bs : List UInt8} (h : Bytes mem p bs)
    (hmem : ∀ a, p ≤ a → a < p + bs.length → mem' a = mem a) : Bytes mem' p bs := by
  intro i hi
  rw [hmem (p + i) (Nat.le_add_right p i) (Nat.add_lt_add_left hi p)]
  exact h i hi

/-! ## Counting -/

/-- The commas before the first null character are counted. -/
theorem countMembers_eq (f : List UInt8) {mem : Nat → UInt8} : ∀ {fuel p n : Nat},
    Bytes mem p (f ++ [0]) → f.length ≤ fuel → countMembers mem fuel p n = n + (cut f).count 44 := by
  induction f with
  | nil =>
    intro fuel p n hbytes hfuel
    cases fuel with
    | zero => rfl
    | succ fuel =>
      rw [countMembers, if_pos hbytes.head]
      rfl
  | cons c f ih =>
    intro fuel p n hbytes hfuel
    cases fuel with
    | zero => exact absurd hfuel (Nat.not_succ_le_zero _)
    | succ fuel =>
      by_cases hzero : c = 0
      · rw [countMembers, if_pos (hbytes.head.trans hzero), hzero, cut_cons_zero]
        rfl
      · rw [countMembers, if_neg (by rw [hbytes.head]; exact hzero),
          ih hbytes.tail (Nat.le_of_succ_le_succ hfuel), hbytes.head, cut_cons hzero]
        by_cases hcomma : c = 44
        · subst hcomma
          rw [if_pos rfl, List.count_cons_self]
          omega
        · rw [if_neg hcomma, List.count_cons_of_ne hcomma]

/-- The number of members is that of the string up to its first null character. -/
theorem memcount_eq {f : List UInt8} {mem : Nat → UInt8} {length p : Nat}
    (hbytes : Bytes mem p (f ++ [0])) (hlen : f.length ≤ length) :
    memcount mem length p = (members (cut f)).length := by
  unfold memcount
  cases f with
  | nil =>
    rw [if_pos hbytes.head]
    rfl
  | cons c f =>
    by_cases hzero : c = 0
    · rw [if_pos (hbytes.head.trans hzero), hzero, cut_cons_zero]
      rfl
    · rw [if_neg (by rw [hbytes.head]; exact hzero), countMembers_eq (c :: f) hbytes hlen, members,
        if_neg (by rw [cut_cons hzero]; exact List.cons_ne_nil _ _), length_splitOn, Nat.add_comm]

/-! ## Separating -/

/-- The addresses that a loop writes: commas of the string and cells of the array. -/
def WrittenBy (lo hi cell end_ : Nat) (s s' : Scan) : Prop :=
  ∀ a ∈ s'.written, a ∈ s.written ∨ lo ≤ a ∧ a < hi ∨ cell ≤ a ∧ a < end_

/-- The loop ends the member that `cp` is in and those behind it, and adds a pointer for each of
the latter. -/
theorem fillMembers_spec (grMem : Nat) (f : List UInt8) : ∀ {fuel cp : Nat} (s : Scan)
    (ms : List Nat), 0 ∉ f → Bytes s.mem cp (f ++ [0]) → f.length ≤ fuel →
    ∃ s' ps g gs, fillMembers grMem fuel cp s ms = (s', ms ++ ps) ∧ f.splitOn 44 = g :: gs ∧
      Bytes s'.mem cp (g ++ [0]) ∧ List.Forall₂ (fun p g => Bytes s'.mem p (g ++ [0])) ps gs ∧
      (∀ a, a < cp ∨ cp + f.length ≤ a → s'.mem a = s.mem a) ∧ s'.bufp = s.bufp ∧
      WrittenBy cp (cp + f.length) (grMem + 4 * ms.length) (grMem + 4 * (ms ++ ps).length) s s' := by
  induction f with
  | nil =>
    intro fuel cp s ms hnul hbytes hfuel
    refine ⟨s, [], [], [], ?_, rfl, hbytes, .nil, fun a ha => rfl, rfl, fun a ha => Or.inl ha⟩
    cases fuel with
    | zero => simp [fillMembers]
    | succ fuel => rw [fillMembers, if_pos hbytes.head, List.append_nil]
  | cons c f ih =>
    intro fuel cp s ms hnul hbytes hfuel
    cases fuel with
    | zero => exact absurd hfuel (Nat.not_succ_le_zero _)
    | succ fuel =>
      simp only [List.mem_cons, not_or] at hnul
      have hchar : s.mem cp = c := hbytes.head
      have hlen := Nat.le_of_succ_le_succ hfuel
      rw [fillMembers, hchar, if_neg (Ne.symm hnul.1)]
      by_cases hcomma : c = 44
      · rw [if_pos hcomma]
        generalize hs₁ : (s.store cp 0).storePointer (grMem + 4 * ms.length) = s₁
        have hmem₁ : s₁.mem = Function.update s.mem cp 0 := by
          rw [← hs₁]
          rfl
        have hbytes₁ : Bytes s₁.mem (cp + 1) (f ++ [0]) := by
          refine hbytes.tail.congr ?_
          intro a hle hlt
          rw [hmem₁, Function.update_of_ne (by omega)]
        obtain ⟨s', ps, g, gs, hfill, hsplit, hg, hgs, hframe, hbufp, hwritten⟩ :=
          ih s₁ (ms ++ [cp + 1]) hnul.2 hbytes₁ hlen
        refine ⟨s', (cp + 1) :: ps, [], g :: gs, ?_, ?_, ?_, .cons hg hgs, ?_, ?_, ?_⟩
        · rw [hfill, List.append_assoc, List.singleton_append]
        · rw [hcomma, splitOn_comma, hsplit]
        · refine Bytes.cons ?_ fun i hi => absurd hi (Nat.not_lt_zero i)
          rw [hframe cp (Or.inl (Nat.lt_succ_self cp)), hmem₁, Function.update_self]
        · intro a ha
          rw [List.length_cons] at ha
          rw [hframe a (by omega), hmem₁, Function.update_of_ne (by omega)]
        · rw [hbufp, ← hs₁]
          rfl
        · intro a ha
          have hlater := hwritten a ha
          rw [← hs₁] at hlater
          simp only [Scan.storePointer, Scan.store, List.mem_append, List.mem_cons, List.not_mem_nil,
            or_false, List.length_append, List.length_cons, List.length_nil] at hlater ⊢
          rcases hlater with ((hold | hcp) | hcell) | hother
          · exact Or.inl hold
          · exact Or.inr (by omega)
          · exact Or.inr (by omega)
          · exact Or.inr (by omega)
      · rw [if_neg hcomma]
        obtain ⟨s', ps, g, gs, hfill, hsplit, hg, hgs, hframe, hbufp, hwritten⟩ :=
          ih s ms hnul.2 hbytes.tail hlen
        refine ⟨s', ps, c :: g, gs, hfill, ?_, ?_, hgs, ?_, hbufp, ?_⟩
        · rw [splitOn_other hcomma, hsplit]
          rfl
        · refine Bytes.cons ?_ hg
          rw [hframe cp (Or.inl (Nat.lt_succ_self cp)), hchar]
        · intro a ha
          rw [List.length_cons] at ha
          exact hframe a (by omega)
        · intro a ha
          rw [List.length_cons]
          cases hwritten a ha with
          | inl hold => exact Or.inl hold
          | inr hnew => exact Or.inr (by omega)

/-- What was written stays written. -/
theorem fillMembers_written {grMem a : Nat} (fuel : Nat) : ∀ {cp : Nat} {s : Scan} {ms : List Nat},
    a ∈ s.written → a ∈ (fillMembers grMem fuel cp s ms).1.written := by
  induction fuel with
  | zero =>
    intro cp s ms ha
    exact ha
  | succ fuel ih =>
    intro cp s ms ha
    unfold fillMembers
    split
    · exact ha
    · split
      · exact ih (List.mem_append_left _ (List.mem_append_left _ ha))
      · exact ih ha

theorem mem_of_mem_splitOn {c : UInt8} (f : List UInt8) : ∀ {g : List UInt8}, g ∈ f.splitOn 44 →
    c ∈ g → c ∈ f := by
  induction f with
  | nil =>
    intro g hg hc
    rw [List.splitOn_nil, List.mem_singleton] at hg
    exact hg ▸ hc
  | cons b f ih =>
    intro g hg hc
    by_cases hcomma : b = 44
    · rw [hcomma, splitOn_comma, List.mem_cons] at hg
      cases hg with
      | inl hnil =>
        rw [hnil] at hc
        exact absurd hc List.not_mem_nil
      | inr hmem => exact List.mem_cons_of_mem b (ih hmem hc)
    · rw [splitOn_other hcomma] at hg
      obtain ⟨h, hs, hsplit⟩ := List.exists_cons_of_ne_nil (List.splitOn_ne_nil 44 f)
      rw [hsplit, List.modifyHead_cons, List.mem_cons] at hg
      rw [hsplit] at ih
      cases hg with
      | inl hhead =>
        rw [hhead, List.mem_cons] at hc
        cases hc with
        | inl heq => exact heq ▸ List.mem_cons_self
        | inr hmem => exact List.mem_cons_of_mem b (ih List.mem_cons_self hmem)
      | inr htail => exact List.mem_cons_of_mem b (ih (List.mem_cons_of_mem h htail) hc)

theorem mem_of_mem_members {c : UInt8} {f g : List UInt8} (hg : g ∈ members f) (hc : c ∈ g) :
    c ∈ f := by
  unfold members at hg
  split at hg
  · exact absurd hg List.not_mem_nil
  · exact mem_of_mem_splitOn f hg hc

/-! ## The array -/

section Array

variable {s : Scan} {length p : Nat} {f : List UInt8}

theorem groupMembers_none (hbytes : Bytes s.mem p (f ++ [0])) (hlen : f.length ≤ length)
    (hroom : s.nleft < pointerRoom (cut f) % 2 ^ 32) : groupMembers s length p = (s, none) := by
  unfold pointerRoom at hroom
  unfold groupMembers
  rw [memcount_eq hbytes hlen, if_pos hroom]

theorem groupMembers_some (hbytes : Bytes s.mem p (f ++ [0])) (hlen : f.length ≤ length)
    (hroom : pointerRoom (cut f) % 2 ^ 32 ≤ s.nleft) : (groupMembers s length p).2.isSome := by
  unfold pointerRoom at hroom
  unfold groupMembers
  rw [memcount_eq hbytes hlen, if_neg (Nat.not_lt.mpr hroom)]
  rfl

theorem groupMembers_written {a : Nat} (ha : a ∈ s.written) :
    a ∈ (groupMembers s length p).1.written := by
  unfold groupMembers
  split
  · exact ha
  · by_cases hend : s.mem p = 0
    · simp only [if_pos hend]
      exact List.mem_append_left _ ha
    · simp only [if_neg hend]
      exact List.mem_append_left _ (fillMembers_written length (List.mem_append_left _ ha))

/-- The pointers are those to the members, and what is written lies behind the other strings. -/
theorem groupMembers_spec (hnul : 0 ∉ f) (hbytes : Bytes s.mem p (f ++ [0]))
    (hlen : f.length ≤ length) (hbufp : p + f.length < s.bufp) (hword : pointerRoom f < 2 ^ 32)
    (hroom : pointerRoom f ≤ s.nleft) :
    ∃ s' grMem ms, groupMembers s length p = (s', some (grMem, ms)) ∧
      List.Forall₂ (fun q g => Bytes s'.mem q (g ++ [0])) ms (members f) ∧
      (∀ a < p, s'.mem a = s.mem a) ∧
      ∀ a ∈ s'.written, a ∈ s.written ∨ p ≤ a ∧ a < s.bufp + s.nleft := by
  have hcount := memcount_eq hbytes hlen
  rw [cut_eq_self hnul] at hcount
  have hcheck : ¬ s.nleft < ((memcount s.mem length p + 1) * 4 + 15) % 2 ^ 32 := by
    rw [hcount]
    show ¬ s.nleft < pointerRoom f % 2 ^ 32
    rw [Nat.mod_eq_of_lt hword]
    omega
  have halign : s.bufp ≤ (s.bufp + 15) / 16 * 16 ∧ (s.bufp + 15) / 16 * 16 ≤ s.bufp + 15 := by omega
  unfold groupMembers
  rw [if_neg hcheck]
  generalize (s.bufp + 15) / 16 * 16 = grMem at halign
  unfold pointerRoom at hroom
  cases f with
  | nil =>
    refine ⟨s.storePointer (grMem + 4 * 0), grMem, [], ?_, ?_, fun a ha => rfl, ?_⟩
    · simp only [if_pos hbytes.head, List.length_nil]
    · exact .nil
    · intro a ha
      simp only [members, if_true, List.length_nil] at hroom
      simp only [Scan.storePointer, List.mem_append, List.mem_cons, List.not_mem_nil, or_false] at ha
      cases ha with
      | inl hold => exact Or.inl hold
      | inr hnew => exact Or.inr (by omega)
  | cons c f =>
    have hzero : c ≠ 0 := fun h => hnul (h ▸ List.mem_cons_self)
    have hchar : s.mem p ≠ 0 := by
      rw [hbytes.head]
      exact hzero
    obtain ⟨s', ps, g, gs, hfill, hsplit, hg, hgs, hframe, -, hwritten⟩ :=
      fillMembers_spec grMem (c :: f) (s.storePointer grMem) [p] hnul hbytes hlen
    have hmembers : members (c :: f) = g :: gs := by
      rw [members, if_neg (List.cons_ne_nil c f), hsplit]
    have hpointers : ps.length = gs.length := hgs.length_eq
    rw [hmembers] at hroom ⊢
    refine ⟨s'.storePointer (grMem + 4 * ([p] ++ ps).length), grMem, [p] ++ ps, ?_, .cons hg hgs, ?_,
      ?_⟩
    · simp only [if_neg hchar, hfill]
    · intro a ha
      exact hframe a (Or.inl ha)
    · intro a ha
      simp only [Scan.storePointer, List.mem_append, List.mem_cons, List.not_mem_nil, or_false,
        List.length_append, List.length_cons, List.length_nil] at ha hroom
      cases ha with
      | inr hnull => exact Or.inr (by omega)
      | inl hbefore =>
        have hloop := hwritten a hbefore
        simp only [Scan.storePointer, List.mem_append, List.mem_cons, List.not_mem_nil, or_false,
          List.length_append, List.length_cons, List.length_nil] at hloop
        rcases hloop with (hold | hfirst) | hcommas | hcells
        · exact Or.inl hold
        · exact Or.inr (by omega)
        · exact Or.inr (by simp only [List.length_cons] at hbufp; omega)
        · exact Or.inr (by omega)

end Array

end Rtems.Pwdgrp
