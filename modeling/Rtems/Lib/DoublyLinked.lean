import Mathlib

/-!
# Circular doubly linked lists

The links of the nodes of a list that closes at its head.  `Ring l head xs` says
that one comes from the head through the nodes of `xs`, in this order, back to
the head, and the same way back.  Every operation changes the links between two
neighbors only; `Ring.change` says that nothing else has to be looked at.
-/

namespace Rtems.Lib

/-- The links at every address. -/
structure Links (α : Type*) where
  next : α → α
  prev : α → α

namespace Links

variable {α : Type*} [DecidableEq α] {l l' : Links α} {head x y : α} {as bs mid mid' : List α}

def setNext (l : Links α) (x y : α) : Links α :=
  { l with next := Function.update l.next x y }

def setPrev (l : Links α) (x y : α) : Links α :=
  { l with prev := Function.update l.prev x y }

def remove (l : Links α) (x : α) : Links α :=
  let next := l.next x
  let prev := l.prev x
  (l.setNext prev next).setPrev next prev

/-- Put a new node in the place of an old one. -/
def replace (l : Links α) (old new : α) : Links α :=
  let next := l.next old
  let prev := l.prev old
  let l := (l.setNext new next).setPrev new prev
  (l.setPrev next new).setNext prev new

def insertAfter (l : Links α) (before new : α) : Links α :=
  let next := l.next before
  let l := (l.setNext new next).setPrev new before
  (l.setNext before new).setPrev next new

def insertBefore (l : Links α) (behind new : α) : Links α :=
  let prev := l.prev behind
  let l := (l.setNext new behind).setPrev new prev
  (l.setNext prev new).setPrev behind new

/-- The links between two neighbors. -/
def Linked (l : Links α) (x y : α) : Prop := l.next x = y ∧ l.prev y = x

instance (l : Links α) : DecidableRel l.Linked :=
  fun _ _ => inferInstanceAs (Decidable (_ ∧ _))

/-- The last node of the list, and the head if there is none. -/
def lastOf (head : α) (as : List α) : α := as.getLast?.getD head

/-- The first node of the list, and the head if there is none. -/
def firstOf (head : α) (bs : List α) : α := bs.head?.getD head

section

omit [DecidableEq α]

@[simp]
theorem lastOf_nil : lastOf head [] = head := rfl

@[simp]
theorem lastOf_concat : lastOf head (as ++ [x]) = x := by
  simp [lastOf]

@[simp]
theorem firstOf_nil : firstOf head [] = head := rfl

@[simp]
theorem firstOf_cons : firstOf head (x :: bs) = x := rfl

theorem lastOf_mem (head : α) (as : List α) : lastOf head as ∈ head :: as := by
  cases as using List.reverseRecOn with
  | nil => simp
  | append_singleton as x => simp

theorem firstOf_mem (head : α) (bs : List α) : firstOf head bs ∈ head :: bs := by
  cases bs <;> simp

/-- A list of nodes that are linked one to the next. -/
theorem Linked.chain_congr {zs : List α} (h : zs.IsChain l.Linked)
    (hnext : ∀ a ∈ zs.dropLast, l'.next a = l.next a) (hprev : ∀ b ∈ zs.tail, l'.prev b = l.prev b) :
    zs.IsChain l'.Linked := by
  induction zs with
  | nil => exact .nil
  | cons a zs ih =>
    cases zs with
    | nil => exact .singleton a
    | cons b zs =>
      obtain ⟨⟨hab, hba⟩, hrest⟩ := List.isChain_cons_cons.mp h
      have hnexta := hnext a (by simp)
      have hprevb := hprev b (by simp)
      constructor
      · exact ⟨hnexta.trans hab, hprevb.trans hba⟩
      · apply ih hrest
        · intro c hc
          exact hnext c (by simp [hc])
        · intro c hc
          exact hprev c (by simp_all)

/-- The nodes form a list that is closed at the head. -/
structure Ring (l : Links α) (head : α) (xs : List α) : Prop where
  linked : (head :: (xs ++ [head])).IsChain l.Linked
  nodup : (head :: xs).Nodup

/-- What comes before a point of the list ends with the last node there. -/
theorem exists_front (head : α) (as : List α) : ∃ front, head :: as = front ++ [lastOf head as] := by
  cases as using List.reverseRecOn with
  | nil => exact ⟨[], rfl⟩
  | append_singleton as x => exact ⟨head :: as, by simp⟩

/-- What comes behind a point of the list begins with the first node there. -/
theorem exists_back (head : α) (bs : List α) : ∃ back, bs ++ [head] = firstOf head bs :: back := by
  cases bs with
  | nil => exact ⟨[], rfl⟩
  | cons x bs => exact ⟨bs ++ [head], rfl⟩

/-- Links are changed between the last node before a part of the list and the first one behind
it, and the part is exchanged. -/
theorem Ring.change (h : Ring l head (as ++ mid ++ bs))
    (hnext : ∀ a ∈ head :: (as ++ bs), a ≠ lastOf head as → l'.next a = l.next a)
    (hprev : ∀ b ∈ head :: (as ++ bs), b ≠ firstOf head bs → l'.prev b = l.prev b)
    (hmid : (lastOf head as :: (mid' ++ [firstOf head bs])).IsChain l'.Linked)
    (hnodup : (head :: (as ++ mid' ++ bs)).Nodup) : Ring l' head (as ++ mid' ++ bs) := by
  obtain ⟨front, hfront⟩ := exists_front head as
  obtain ⟨back, hback⟩ := exists_back head bs
  have hcut : ∀ zs : List α, head :: (as ++ zs ++ bs ++ [head]) =
      front ++ lastOf head as :: (zs ++ firstOf head bs :: back) := by
    intro zs
    have hsplit : head :: (as ++ zs ++ bs ++ [head]) = (head :: as) ++ zs ++ (bs ++ [head]) := by
      simp
    rw [hsplit, hfront, hback]
    simp
  have hmemFront : ∀ a ∈ head :: as, a ∈ head :: (as ++ bs) := by
    intro a ha
    simp only [List.mem_cons, List.mem_append] at ha ⊢
    tauto
  have hmemBack : ∀ b ∈ bs ++ [head], b ∈ head :: (as ++ bs) := by
    intro b hb
    simp only [List.mem_cons, List.mem_append, List.not_mem_nil, or_false] at hb ⊢
    tauto
  have hout : (head :: (as ++ bs)).Nodup := hnodup.sublist (by simp)
  have hlast : lastOf head as ∉ bs := by
    intro hmem
    rw [← List.cons_append] at hout
    exact (List.nodup_append.mp hout).2.2 _ (lastOf_mem head as) _ hmem rfl
  have hfirst : firstOf head bs ∉ as := by
    intro hmem
    have hcomm : (as ++ head :: bs).Nodup := List.nodup_middle.mpr hout
    exact (List.nodup_append.mp hcomm).2.2 _ hmem _ (firstOf_mem head bs) rfl
  have hlinked := h.linked
  rw [hcut, List.isChain_split] at hlinked
  have hsplit := hlinked.2
  rw [← List.cons_append, List.isChain_split] at hsplit
  -- the nodes before keep their links, except for the next node of the last one
  have hbefore : (front ++ [lastOf head as]).IsChain l'.Linked := by
    apply Linked.chain_congr hlinked.1
    · intro a ha
      rw [List.dropLast_concat] at ha
      have hnodupFront : (front ++ [lastOf head as]).Nodup := by
        rw [← hfront]
        exact hnodup.sublist (by simp)
      apply hnext a
      · apply hmemFront
        simp [hfront, ha]
      · rintro rfl
        exact (List.nodup_append.mp hnodupFront).2.2 _ ha _ List.mem_cons_self rfl
    · intro b hb
      rw [← hfront, List.tail_cons] at hb
      apply hprev b (hmemFront b (List.mem_cons_of_mem _ hb))
      rintro rfl
      exact hfirst hb
  -- and those behind, except for the previous node of the first one
  have hbehind : (firstOf head bs :: back).IsChain l'.Linked := by
    apply Linked.chain_congr hsplit.2
    · intro a ha
      rw [← hback, List.dropLast_concat] at ha
      apply hnext a (hmemBack a (List.mem_append_left _ ha))
      rintro rfl
      exact hlast ha
    · intro b hb
      have hnodupBack : (firstOf head bs :: back).Nodup := by
        rw [← hback, List.nodup_append_comm]
        exact hnodup.sublist (by simp)
      apply hprev b
      · apply hmemBack
        rw [hback]
        exact List.mem_cons_of_mem _ hb
      · rintro rfl
        exact (List.nodup_cons.mp hnodupBack).1 hb
  refine ⟨?_, hnodup⟩
  rw [hcut]
  refine List.isChain_split.mpr ⟨hbefore, ?_⟩
  rw [← List.cons_append]
  exact List.isChain_split.mpr ⟨hmid, hbehind⟩

theorem Ring.linked_cut (h : Ring l head (as ++ bs)) :
    l.Linked (lastOf head as) (firstOf head bs) := by
  obtain ⟨front, hfront⟩ := exists_front head as
  obtain ⟨back, hback⟩ := exists_back head bs
  have hlinked := h.linked
  have hsplit : head :: (as ++ bs ++ [head]) =
      front ++ lastOf head as :: firstOf head bs :: back := by
    have hcons : head :: (as ++ bs ++ [head]) = (head :: as) ++ (bs ++ [head]) := by simp
    rw [hcons, hfront, hback]
    simp
  rw [hsplit, List.isChain_append_cons_cons] at hlinked
  exact hlinked.2.1

theorem Ring.next_head (h : Ring l head bs) : l.next head = firstOf head bs := by
  have hcut : Ring l head ([] ++ bs) := h
  exact hcut.linked_cut.1

theorem Ring.next (h : Ring l head (as ++ x :: bs)) : l.next x = firstOf head bs := by
  have hcut : Ring l head (as ++ [x] ++ bs) := by simpa using h
  simpa using hcut.linked_cut.1

theorem Ring.prev (h : Ring l head (as ++ x :: bs)) : l.prev x = lastOf head as :=
  h.linked_cut.2

end

theorem Ring.remove (h : Ring l head (as ++ x :: bs)) : Ring (l.remove x) head (as ++ bs) := by
  have hold : Ring l head (as ++ [x] ++ bs) := by simpa using h
  have hnodup : (head :: (as ++ [] ++ bs)).Nodup := hold.nodup.sublist (by simp)
  have hchange : Ring (l.remove x) head (as ++ [] ++ bs) := hold.change ?_ ?_ ?_ hnodup
  · simpa using hchange
  · intro a ha hne
    simp [Links.remove, setNext, setPrev, h.prev, hne]
  · intro b hb hne
    simp [Links.remove, setNext, setPrev, h.next, hne]
  · simp [Linked, Links.remove, setNext, setPrev, h.next, h.prev]

section

omit [DecidableEq α]

theorem lastOf_ne (hy : y ∉ head :: (as ++ bs)) : lastOf head as ≠ y := by
  rintro rfl
  rw [← List.cons_append] at hy
  exact hy (List.mem_append_left _ (lastOf_mem head as))

theorem firstOf_ne (hy : y ∉ head :: (as ++ bs)) : firstOf head bs ≠ y := by
  rintro rfl
  refine hy (List.perm_middle.mem_iff.mp (List.mem_append_right as (firstOf_mem head bs)))

/-- A new node comes between two neighbors, in the place of what was there. -/
theorem Ring.place (h : Ring l head (as ++ mid ++ bs)) (hy : y ∉ head :: (as ++ bs))
    (hnext : ∀ a, a ≠ y → a ≠ lastOf head as → l'.next a = l.next a)
    (hprev : ∀ b, b ≠ y → b ≠ firstOf head bs → l'.prev b = l.prev b)
    (hlast : l'.Linked (lastOf head as) y) (hfirst : l'.Linked y (firstOf head bs)) :
    Ring l' head (as ++ y :: bs) := by
  have hnodup : (head :: (as ++ [y] ++ bs)).Nodup := by
    have hout : (head :: (as ++ bs)).Nodup := h.nodup.sublist (by simp)
    have hcons : (y :: head :: (as ++ bs)).Nodup := List.nodup_cons.mpr ⟨hy, hout⟩
    refine (List.Perm.nodup_iff ?_).mp hcons
    have hmid : (y :: (as ++ bs)).Perm (as ++ [y] ++ bs) := by simpa using List.perm_middle.symm
    exact (List.Perm.swap head y _).trans (hmid.cons head)
  have hchange : Ring l' head (as ++ [y] ++ bs) := h.change ?_ ?_ ?_ hnodup
  · simpa using hchange
  · intro a ha
    exact hnext a (ne_of_mem_of_not_mem ha hy)
  · intro b hb
    exact hprev b (ne_of_mem_of_not_mem hb hy)
  · simpa using ⟨hlast, hfirst⟩

end

theorem Ring.replace (h : Ring l head (as ++ x :: bs)) (hy : y ∉ head :: (as ++ bs)) :
    Ring (l.replace x y) head (as ++ y :: bs) := by
  have hold : Ring l head (as ++ [x] ++ bs) := by simpa using h
  have hlast := lastOf_ne hy
  have hfirst := firstOf_ne hy
  apply hold.place hy
  · intro a hay hne
    simp [Links.replace, setNext, setPrev, h.prev, hay, hne]
  · intro b hby hne
    simp [Links.replace, setNext, setPrev, h.next, hby, hne]
  · simp [Linked, Links.replace, setNext, setPrev, h.next, h.prev, hfirst.symm]
  · simp [Linked, Links.replace, setNext, setPrev, h.next, h.prev, hlast.symm]

theorem Ring.insertAfter (h : Ring l head (as ++ bs)) (hy : y ∉ head :: (as ++ bs)) :
    Ring (l.insertAfter (lastOf head as) y) head (as ++ y :: bs) := by
  have hold : Ring l head (as ++ [] ++ bs) := by simpa using h
  have hcut := h.linked_cut.1
  have hlast := lastOf_ne hy
  have hfirst := firstOf_ne hy
  apply hold.place hy
  · intro a hay hne
    simp [Links.insertAfter, setNext, setPrev, hcut, hay, hne]
  · intro b hby hne
    simp [Links.insertAfter, setNext, setPrev, hcut, hby, hne]
  · simp [Linked, Links.insertAfter, setNext, setPrev, hcut, hfirst.symm]
  · simp [Linked, Links.insertAfter, setNext, setPrev, hcut, hlast.symm]

theorem Ring.insertBefore (h : Ring l head (as ++ bs)) (hy : y ∉ head :: (as ++ bs)) :
    Ring (l.insertBefore (firstOf head bs) y) head (as ++ y :: bs) := by
  have hold : Ring l head (as ++ [] ++ bs) := by simpa using h
  have hcut := h.linked_cut.2
  have hlast := lastOf_ne hy
  have hfirst := firstOf_ne hy
  apply hold.place hy
  · intro a hay hne
    simp [Links.insertBefore, setNext, setPrev, hcut, hay, hne]
  · intro b hby hne
    simp [Links.insertBefore, setNext, setPrev, hcut, hby, hne]
  · simp [Linked, Links.insertBefore, setNext, setPrev, hcut, hfirst.symm]
  · simp [Linked, Links.insertBefore, setNext, setPrev, hcut, hlast.symm]

/-! ## Several lists -/

/-- The links of these nodes stay as they are. -/
def SameAt (l l' : Links α) (x : α) : Prop := l'.next x = l.next x ∧ l'.prev x = l.prev x

section

omit [DecidableEq α]

theorem Ring.congr (h : Ring l head bs) (hsame : ∀ x ∈ head :: bs, l.SameAt l' x) :
    Ring l' head bs := by
  refine ⟨?_, h.nodup⟩
  apply Linked.chain_congr h.linked
  · intro a ha
    rw [← List.cons_append, List.dropLast_concat] at ha
    exact (hsame a ha).1
  · intro b hb
    apply (hsame b _).2
    simpa [or_comm] using hb

end

theorem Ring.remove_same (h : Ring l head (as ++ x :: bs)) (hy : y ∉ head :: (as ++ x :: bs)) :
    l.SameAt (l.remove x) y := by
  have hout : y ∉ head :: (as ++ bs) := by
    simp only [List.mem_cons, List.mem_append] at hy ⊢
    tauto
  have hlast := lastOf_ne hout
  have hfirst := firstOf_ne hout
  constructor
  · simp [Links.remove, setNext, setPrev, h.prev, hlast.symm]
  · simp [Links.remove, setNext, setPrev, h.next, hfirst.symm]

theorem Ring.insertAfter_same (h : Ring l head (as ++ bs)) (hy : y ∉ head :: (as ++ x :: bs)) :
    l.SameAt (l.insertAfter (lastOf head as) x) y := by
  have hout : y ∉ head :: (as ++ bs) := by
    simp only [List.mem_cons, List.mem_append] at hy ⊢
    tauto
  have hyx : y ≠ x := by
    rintro rfl
    simp at hy
  have hlast := lastOf_ne hout
  have hfirst := firstOf_ne hout
  have hcut := h.linked_cut.1
  constructor
  · simp [Links.insertAfter, setNext, setPrev, hyx, hlast.symm]
  · simp [Links.insertAfter, setNext, setPrev, hcut, hyx, hfirst.symm]

theorem Ring.insertBefore_same (h : Ring l head (as ++ bs)) (hy : y ∉ head :: (as ++ x :: bs)) :
    l.SameAt (l.insertBefore (firstOf head bs) x) y := by
  have hout : y ∉ head :: (as ++ bs) := by
    simp only [List.mem_cons, List.mem_append] at hy ⊢
    tauto
  have hyx : y ≠ x := by
    rintro rfl
    simp at hy
  have hlast := lastOf_ne hout
  have hfirst := firstOf_ne hout
  have hcut := h.linked_cut.2
  constructor
  · simp [Links.insertBefore, setNext, setPrev, hcut, hyx, hlast.symm]
  · simp [Links.insertBefore, setNext, setPrev, hyx, hfirst.symm]

/-- Lists that have no node in common. -/
structure Rings {ι : Type*} (l : Links α) (head : ι → α) (lists : ι → List α) : Prop where
  ring : ∀ i, l.Ring (head i) (lists i)
  apart : ∀ i j, i ≠ j → ∀ x ∈ head i :: lists i, x ∉ head j :: lists j

section Rings

variable {ι : Type*} [DecidableEq ι] {heads : ι → α} {lists : ι → List α} {i : ι}

section

omit [DecidableEq α]

/-- One of the lists is changed, and takes no node of another one. -/
theorem Rings.change (h : Rings l heads lists) (hring : l'.Ring (heads i) as)
    (hapart : ∀ j, j ≠ i → ∀ x ∈ as, x ∉ heads j :: lists j)
    (hsame : ∀ y, (∀ j, j ≠ i → y ∈ heads j :: lists j → l.SameAt l' y)) :
    Rings l' heads (Function.update lists i as) := by
  have hhead : ∀ j, j ≠ i → ∀ x ∈ heads i :: as, x ∉ heads j :: lists j := by
    intro j hj x hx
    rcases List.mem_cons.mp hx with rfl | hx
    · exact h.apart i j hj.symm _ List.mem_cons_self
    · exact hapart j hj x hx
  constructor
  · intro j
    by_cases hj : j = i
    · subst hj
      rwa [Function.update_self]
    · rw [Function.update_of_ne hj]
      exact (h.ring j).congr fun y hy => hsame y j hj hy
  · intro j k hjk x hx
    by_cases hj : j = i
    · subst hj
      rw [Function.update_self] at hx
      rw [Function.update_of_ne hjk.symm]
      exact hhead k hjk.symm x hx
    · rw [Function.update_of_ne hj] at hx
      by_cases hk : k = i
      · subst hk
        rw [Function.update_self]
        exact fun hx' => hhead j hj x hx' hx
      · rw [Function.update_of_ne hk]
        exact h.apart j k hjk x hx

end

theorem Rings.remove (h : Rings l heads lists) (hlist : lists i = as ++ x :: bs) :
    Rings (l.remove x) heads (Function.update lists i (as ++ bs)) := by
  have hring := h.ring i
  rw [hlist] at hring
  apply h.change hring.remove
  · intro j hj y hy
    apply h.apart i j hj.symm y
    rw [hlist]
    simp only [List.mem_append] at hy
    simp only [List.mem_cons, List.mem_append]
    tauto
  · intro y j hj hy
    apply hring.remove_same
    rw [← hlist]
    exact h.apart j i hj y hy

theorem Rings.insertAfter (h : Rings l heads lists) (hlist : lists i = as ++ bs)
    (hx : ∀ j, x ∉ heads j :: lists j) :
    Rings (l.insertAfter (lastOf (heads i) as) x) heads
      (Function.update lists i (as ++ x :: bs)) := by
  have hring := h.ring i
  rw [hlist] at hring
  have hnew := hx i
  rw [hlist] at hnew
  have hmem : ∀ j, j ≠ i → ∀ y ∈ heads j :: lists j, y ∉ heads i :: (as ++ x :: bs) := by
    intro j hj y hy hmem
    have hout := h.apart j i hj y hy
    rw [hlist] at hout
    have hyx : y ≠ x := ne_of_mem_of_not_mem hy (hx j)
    simp only [List.mem_cons, List.mem_append] at hmem hout
    tauto
  apply h.change (hring.insertAfter hnew)
  · intro j hj y hy hyj
    exact hmem j hj y hyj (List.mem_cons_of_mem _ hy)
  · intro y j hj hy
    exact hring.insertAfter_same (hmem j hj y hy)

theorem Rings.insertBefore (h : Rings l heads lists) (hlist : lists i = as ++ bs)
    (hx : ∀ j, x ∉ heads j :: lists j) :
    Rings (l.insertBefore (firstOf (heads i) bs) x) heads
      (Function.update lists i (as ++ x :: bs)) := by
  have hring := h.ring i
  rw [hlist] at hring
  have hnew := hx i
  rw [hlist] at hnew
  have hmem : ∀ j, j ≠ i → ∀ y ∈ heads j :: lists j, y ∉ heads i :: (as ++ x :: bs) := by
    intro j hj y hy hmem
    have hout := h.apart j i hj y hy
    rw [hlist] at hout
    have hyx : y ≠ x := ne_of_mem_of_not_mem hy (hx j)
    simp only [List.mem_cons, List.mem_append] at hmem hout
    tauto
  apply h.change (hring.insertBefore hnew)
  · intro j hj y hy hyj
    exact hmem j hj y hyj (List.mem_cons_of_mem _ hy)
  · intro y j hj hy
    exact hring.insertBefore_same (hmem j hj y hy)

end Rings

end Links

end Rtems.Lib
