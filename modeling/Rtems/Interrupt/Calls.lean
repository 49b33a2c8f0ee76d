import Rtems.Interrupt.Lists

/-!
# What a call does to the handlers of its vector

An installation appends a handler or replaces one, and a removal takes one out.  A call that is
refused changes nothing, with two exceptions: the status of the board support package comes after
the first handler is in the table, and after the last one is out of it.
-/

namespace Rtems.Interrupt

open LinkedQueue

variable {H : Type} [DecidableEq H] {vectorMax vector i : Nat} {s s' : Table H}
  {cells : Nat → List Nat} {new : List Nat} {info : Option Nat} {options arg a b : Nat} {h : H}
  {handler : Option H} {inIsr : Bool} {enable disable status : Status} {memory : Option Nat}
  {l l' : List (Handler H × Nat)}

/-! ## Effects -/

/-- What an installation does to the handlers of its vector. -/
structure InstallEffect (options : Nat) (handler : Option H) (arg : Nat) (enable status : Status)
    (l l' : List (Handler H × Nat)) : Prop where
  appended : status = .successful → isReplace options = false →
    ∃ h, handler = some h ∧ (.routine h, arg) ∉ l ∧ l' = l ++ [(.routine h, arg)]
  replaced : status = .successful → isReplace options = true →
    ∃ h, handler = some h ∧ ∃ xs ys old, l = xs ++ (old, arg) :: ys ∧ (∀ x ∈ xs, x.2 ≠ arg) ∧
      l' = xs ++ (.routine h, arg) :: ys
  failed : status ≠ .successful → l' = l ∨
    status = enable ∧ l = [] ∧ ∃ h, handler = some h ∧ l' = [(.routine h, arg)]

/-- What a removal does to the handlers of its vector. -/
structure RemoveEffect (handler : Option H) (arg : Nat) (disable status : Status)
    (l l' : List (Handler H × Nat)) : Prop where
  removed : status = .successful →
    ∃ h, handler = some h ∧ (.routine h, arg) ∈ l ∧ l' = l.erase (.routine h, arg)
  failed : status ≠ .successful → l' = l ∨
    status = disable ∧ (∃ h, handler = some h ∧ l = [(.routine h, arg)]) ∧ l' = []

/-! ## Entries -/

section

omit [DecidableEq H]

theorem map_pair_update {entry : Ref → Entry H} {e : Entry H} {r : Ref} {xs ys : List Ref}
    (hn : (xs ++ r :: ys).Nodup) :
    (xs ++ r :: ys).map (pair (Function.update entry r e)) =
      xs.map (pair entry) ++ (e.handler, e.arg) :: ys.map (pair entry) := by
  obtain ⟨-, hr, hcross⟩ := List.nodup_append.mp hn
  have hother : ∀ x, x ≠ r → pair (Function.update entry r e) x = pair entry x := by
    intro x hx
    simp [pair, hx]
  rw [List.map_append, List.map_cons]
  congr 1
  · exact List.map_congr_left fun x hx => hother x (hcross x hx r List.mem_cons_self)
  · congr 1
    · simp [pair]
    · refine List.map_congr_left ?_
      rintro x hx
      refine hother x ?_
      rintro rfl
      exact (List.nodup_cons.mp hr).1 hx

end

theorem handlers_of_empty (he : s.isEmpty (.table i) = true) (cells : List Nat) :
    handlers s i cells = [] := if_pos he

theorem handlers_of_used (he : s.isEmpty (.table i) = false) (cells : List Nat) :
    handlers s i cells = (refs i cells).map (pair s.entry) := by
  unfold handlers
  rw [he]
  rfl

theorem refs_erase (i : Nat) (cells : List Nat) (b : Nat) :
    refs i (cells.erase b) = (refs i cells).erase (.heap b) := by
  unfold refs
  rw [List.erase_cons_tail (by simp), List.map_erase]
  intro x y hxy
  exact Ref.heap.inj hxy

/-- The options of a replacement do not ask for a unique handler. -/
theorem isUnique_of_replace (ho : options ∈ [0, 1, 2]) (hr : isReplace options = true) :
    isUnique options = false := by
  simp only [List.mem_cons, List.not_mem_nil, or_false] at ho
  rcases ho with rfl | rfl | rfl
  · cases hr
  · cases hr
  · rfl

/-! ## The first and the last handler -/

theorem Shape.installFirst (hs : Shape vectorMax s cells) (hi : i ≤ vectorMax)
    (he : s.isEmpty (.table i) = true) (info : Option Nat) (options : Nat) (h : H) (arg : Nat)
    (enable : Status) :
    Change s (installFirst s i info options h arg enable).2 i (cells i) [] ∧
      handlers (installFirst s i info options h arg enable).2 i [] = [(.routine h, arg)] := by
  have hcells := hs.empty i hi he
  have hentry : (Interrupt.installFirst s i info options h arg enable).2.entry (.table i) =
      { s.entry (.table i) with handler := .routine h, arg := arg, info := info } :=
    Function.update_self ..
  have hused : (Interrupt.installFirst s i info options h arg enable).2.isEmpty (.table i) =
      false := by
    simp [Table.isEmpty, hentry]
  have hpath := hs.path i hi
  rw [hcells] at hpath ⊢
  constructor
  · constructor
    case entry =>
      intro r hr _
      refine Function.update_of_ne ?_ ..
      rintro rfl
      exact hr List.mem_cons_self
    case path =>
      refine ⟨rfl, ?_⟩
      show link _ (.table i) = none
      unfold link
      rw [hentry]
      exact hpath.2
    case handler => exact fun a ha => absurd ha List.not_mem_nil
    case fresh => exact fun a ha => absurd ha List.not_mem_nil
    case nodup => exact hs.nodup
    case allocated =>
      intro a
      show a ∈ s.allocated ↔ _
      simp
    case empty => exact fun _ => rfl
    case unique => exact fun j hj => Function.update_of_ne hj ..
    case marked => exact fun _ => ⟨hused, rfl⟩
  · rw [handlers_of_used hused]
    simp [refs, pair, hentry]

theorem Shape.clear (hs : Shape vectorMax s cells) (hcells : cells i = []) :
    let s' := (s.setEntry (.table i) ⟨.empty, i, none, none⟩).setUnique i false
    Change s s' i (cells i) [] ∧ handlers s' i [] = [] := by
  intro s'
  have hentry : s'.entry (.table i) = ⟨.empty, i, none, none⟩ := Function.update_self ..
  have hempty : s'.isEmpty (.table i) = true := by
    simp [Table.isEmpty, hentry]
  refine ⟨?_, handlers_of_empty hempty []⟩
  rw [hcells]
  constructor
  case entry =>
    intro r hr _
    refine Function.update_of_ne ?_ ..
    rintro rfl
    exact hr List.mem_cons_self
  case path =>
    refine ⟨rfl, ?_⟩
    show (s'.entry (.table i)).next = none
    rw [hentry]
  case handler => exact fun a ha => absurd ha List.not_mem_nil
  case fresh => exact fun a ha => absurd ha List.not_mem_nil
  case nodup => exact hs.nodup
  case allocated =>
    intro a
    show a ∈ s.allocated ↔ _
    simp
  case empty => exact fun _ => rfl
  case unique => exact fun j hj => Function.update_of_ne hj ..
  case marked =>
    intro hu
    have hfalse : s'.unique i = false := Function.update_self ..
    exact Bool.noConfusion (hfalse.symm.trans hu)

/-! ## Replacement -/

theorem Shape.replace (hs : Shape vectorMax s cells) (hi : i ≤ vectorMax)
    (he : s.isEmpty (.table i) = false) {r : Ref} {xs ys : List Ref}
    (hrefs : refs i (cells i) = xs ++ r :: ys) (h : H) (info : Option Nat) :
    let s' := (s.setEntry r { s.entry r with handler := .routine h, info := info }).setUnique i false
    Change s s' i (cells i) (cells i) ∧ handlers s' i (cells i) =
      xs.map (pair s.entry) ++ (.routine h, (s.entry r).arg) :: ys.map (pair s.entry) := by
  intro s'
  have hr : r ∈ refs i (cells i) := by rw [hrefs]; simp
  have hself : s'.entry r = { s.entry r with handler := .routine h, info := info } :=
    Function.update_self ..
  have hother : ∀ x, x ≠ r → s'.entry x = s.entry x := fun x hx => Function.update_of_ne hx ..
  have hlink : ∀ x, link s'.entry x = link s.entry x := by
    intro x
    unfold link
    rcases eq_or_ne x r with rfl | hx
    · rw [hself]
    · rw [hother x hx]
  have hused : ∀ x, s.isEmpty x = false → s'.isEmpty x = false := by
    intro x hx
    rcases eq_or_ne x r with rfl | hne
    · simp [Table.isEmpty, hself]
    · simpa [Table.isEmpty, hother x hne] using hx
  have hfalse : s'.unique i = false := Function.update_self ..
  constructor
  · constructor
    case entry =>
      intro x hx _
      refine hother x ?_
      rintro rfl
      exact hx hr
    case path => exact (hs.path i hi).congr fun x _ => hlink x
    case handler => exact fun a ha => hused _ (hs.handler i hi a ha)
    case fresh => exact fun a ha => .inl ha
    case nodup => exact hs.nodup
    case allocated =>
      intro a
      show a ∈ s.allocated ↔ _
      have hin : a ∈ cells i → a ∈ s.allocated := fun ha => (hs.allocated a).mpr ⟨i, hi, ha⟩
      tauto
    case empty => exact fun hempty => Bool.noConfusion ((hused _ he).symm.trans hempty)
    case unique => exact fun j hj => Function.update_of_ne hj ..
    case marked => exact fun hu => Bool.noConfusion (hfalse.symm.trans hu)
  · have hn := (hs.path i hi).nodup
    rw [hrefs] at hn
    rw [handlers_of_used (hused _ he), hrefs]
    exact map_pair_update hn

/-! ## A new entry -/

theorem Shape.append (hs : Shape vectorMax s cells) (hi : i ≤ vectorMax)
    (he : s.isEmpty (.table i) = false) {t : Ref} {xs : List Ref}
    (hrefs : refs i (cells i) = xs ++ [t]) (ha : a ∉ s.allocated) (h : H) (info : Option Nat)
    (arg : Nat) :
    let s₁ := ({ s with allocated := a :: s.allocated }).setEntry (.heap a)
      ⟨.routine h, arg, info, none⟩
    let s' := (s₁.setEntry t { s₁.entry t with next := some (.heap a) }).setUnique i false
    Change s s' i (cells i) (cells i ++ [a]) ∧ handlers s' i (cells i ++ [a]) =
      handlers s i (cells i) ++ [(.routine h, arg)] := by
  intro s₁ s'
  have hnot : Ref.heap a ∉ refs i (cells i) := by
    intro hin
    exact ha ((hs.allocated a).mpr ⟨i, hi, mem_refs_heap.mp hin⟩)
  have ht : t ∈ refs i (cells i) := by rw [hrefs]; simp
  have hta : t ≠ .heap a := by
    rintro rfl
    exact hnot ht
  have hnew : s'.entry (.heap a) = ⟨.routine h, arg, info, none⟩ := by
    have h1 : s'.entry (.heap a) = s₁.entry (.heap a) := Function.update_of_ne hta.symm ..
    rw [h1]
    exact Function.update_self ..
  have hold : ∀ x, x ≠ .heap a → s₁.entry x = s.entry x :=
    fun x hx => Function.update_of_ne hx ..
  have htail : s'.entry t = { s.entry t with next := some (.heap a) } := by
    have h1 : s'.entry t = { s₁.entry t with next := some (.heap a) } := Function.update_self ..
    rw [h1, hold t hta]
  have hother : ∀ x, x ≠ t → x ≠ .heap a → s'.entry x = s.entry x := by
    intro x hxt hxa
    have h1 : s'.entry x = s₁.entry x := Function.update_of_ne hxt ..
    rw [h1, hold x hxa]
  have hpair : ∀ x ∈ refs i (cells i), pair s'.entry x = pair s.entry x := by
    intro x hx
    unfold pair
    rcases eq_or_ne x t with rfl | hxt
    · rw [htail]
    · rw [hother x hxt fun e => hnot (e ▸ hx)]
  have hempty : ∀ x ∈ refs i (cells i), s'.isEmpty x = s.isEmpty x := by
    intro x hx
    have hh := congrArg Prod.fst (hpair x hx)
    simp only [pair] at hh
    simp [Table.isEmpty, hh]
  have hused : s'.isEmpty (.table i) = false :=
    (hempty _ List.mem_cons_self).trans he
  have hfalse : s'.unique i = false := Function.update_self ..
  have hrefs' : refs i (cells i ++ [a]) = refs i (cells i) ++ [.heap a] := by
    simp [refs]
  constructor
  · constructor
    case entry =>
      intro x hx hxa
      refine hother x ?_ (hxa a (by simp))
      rintro rfl
      exact hx ht
    case path =>
      have hpath := hs.path i hi
      have hn := hpath.nodup
      rw [hrefs] at hpath hn
      obtain ⟨m, h1, hm, -⟩ := LinkedQueue.Path.append.mp hpath
      rw [hrefs', hrefs, List.append_assoc]
      refine LinkedQueue.Path.append.mpr ⟨m, h1.congr ?_, hm, ?_, ?_⟩
      · intro x hx
        have hxt : x ≠ t := by
          rintro rfl
          exact (List.nodup_append.mp hn).2.2 x hx x List.mem_cons_self rfl
        have hxa : x ≠ .heap a := by
          rintro rfl
          refine hnot ?_
          rw [hrefs]
          exact List.mem_append_left _ hx
        exact congrArg Entry.next (hother x hxt hxa)
      · show (s'.entry t).next = _
        rw [htail]
      · show (s'.entry (.heap a)).next = _
        rw [hnew]
    case handler =>
      intro b hb
      rcases List.mem_append.mp hb with hb | hb
      · rw [hempty _ (mem_refs_heap.mpr hb)]
        exact hs.handler i hi b hb
      · rw [List.mem_singleton.mp hb]
        simp [Table.isEmpty, hnew]
    case fresh =>
      intro b hb
      rcases List.mem_append.mp hb with hb | hb
      · exact .inl hb
      · exact .inr (List.mem_singleton.mp hb ▸ ha)
    case nodup => exact List.nodup_cons.mpr ⟨ha, hs.nodup⟩
    case allocated =>
      intro b
      show b ∈ a :: s.allocated ↔ _
      have hin : b ∈ cells i → b ∈ s.allocated := fun hb => (hs.allocated b).mpr ⟨i, hi, hb⟩
      simp only [List.mem_cons, List.mem_append, List.not_mem_nil, or_false]
      tauto
    case empty => exact fun hemp => Bool.noConfusion (hused.symm.trans hemp)
    case unique => exact fun j hj => Function.update_of_ne hj ..
    case marked => exact fun hm => Bool.noConfusion (hfalse.symm.trans hm)
  · rw [handlers_of_used hused, handlers_of_used he, hrefs', List.map_append,
      List.map_congr_left hpair]
    simp [pair, hnew]

/-! ## An entry less -/

/-- An entry from the heap leaves the list: the one before it is linked to the one after it, and
has the handler, the argument and the text `e`. -/
theorem Shape.unlink (hs : Shape vectorMax s cells) (hi : i ≤ vectorMax)
    (he : s.isEmpty (.table i) = false) {m : Ref} {e : Entry H} {xs ys : List Ref}
    (hrefs : refs i (cells i) = xs ++ m :: .heap b :: ys)
    (hnext : e.next = (s.entry (.heap b)).next) (hhandler : e.handler ≠ .empty) :
    let s' := freeHandlerEntry (s.setEntry m e) (.heap b)
    Change s s' i (cells i) ((cells i).erase b) ∧ handlers s' i ((cells i).erase b) =
      xs.map (pair s.entry) ++ (e.handler, e.arg) :: ys.map (pair s.entry) := by
  intro s'
  have hpath := hs.path i hi
  have hn := hpath.nodup
  rw [hrefs] at hpath hn
  have hb : b ∈ cells i := by
    refine (mem_refs_heap (i := i)).mp ?_
    rw [hrefs]
    simp
  have hm : m ∈ refs i (cells i) := by rw [hrefs]; simp
  have hself : s'.entry m = e := Function.update_self ..
  have hother : ∀ x, x ≠ m → s'.entry x = s.entry x := fun x hx => Function.update_of_ne hx ..
  have hused : ∀ x, s.isEmpty x = false → s'.isEmpty x = false := by
    intro x hx
    rcases eq_or_ne x m with rfl | hne
    · simpa [Table.isEmpty, hself] using hhandler
    · simpa [Table.isEmpty, hother x hne] using hx
  obtain ⟨-, hmys, hcross⟩ := List.nodup_append.mp hn
  obtain ⟨hmnot, hbys⟩ := List.nodup_cons.mp hmys
  have hmb : m ≠ .heap b := fun heq => hmnot (heq ▸ List.mem_cons_self)
  have hrefs' : refs i ((cells i).erase b) = xs ++ m :: ys := by
    have hbxs : Ref.heap b ∉ xs := by
      intro hin
      exact hcross _ hin (.heap b) (List.mem_cons_of_mem m List.mem_cons_self) rfl
    rw [refs_erase, hrefs, List.erase_append_right _ hbxs, List.erase_cons_tail (by simpa using hmb),
      List.erase_cons_head]
  have hmem : ∀ c, c ∈ (cells i).erase b ↔ c ≠ b ∧ c ∈ cells i :=
    fun c => (hs.cells_nodup hi).mem_erase_iff
  constructor
  · constructor
    case entry =>
      intro x hx _
      refine hother x ?_
      rintro rfl
      exact hx hm
    case path =>
      obtain ⟨o, h1, ho, hl, h2⟩ := LinkedQueue.Path.append.mp hpath
      rw [hrefs']
      have hxm : ∀ x ∈ xs, x ≠ m := fun x hx => hcross x hx m List.mem_cons_self
      have hym : ∀ y ∈ ys, y ≠ m := by
        rintro y hy rfl
        exact hmnot (List.mem_cons_of_mem _ hy)
      have hlm : link s'.entry m = link s.entry (.heap b) := by
        unfold link
        rw [hself, hnext]
      refine LinkedQueue.Path.append.mpr ⟨o, ?_, ho, ?_⟩
      · exact h1.congr fun x hx => congrArg Entry.next (hother x (hxm x hx))
      · rw [hlm]
        exact h2.congr fun y hy => congrArg Entry.next (hother y (hym y hy))
    case handler => exact fun c hc => hused _ (hs.handler i hi c ((hmem c).mp hc).2)
    case fresh => exact fun c hc => .inl ((hmem c).mp hc).2
    case nodup => exact hs.nodup.erase b
    case allocated =>
      intro c
      show c ∈ s.allocated.erase b ↔ _
      have hin : c ∈ cells i → c ∈ s.allocated := fun hc => (hs.allocated c).mpr ⟨i, hi, hc⟩
      rw [hs.nodup.mem_erase_iff, hmem c]
      constructor
      · rintro ⟨hcb, hc⟩
        tauto
      · rintro (⟨hcb, hc⟩ | ⟨hc, hnot⟩)
        · exact ⟨hcb, hin hc⟩
        · refine ⟨?_, hc⟩
          rintro rfl
          exact hnot hb
    case empty => exact fun hemp => Bool.noConfusion ((hused _ he).symm.trans hemp)
    case unique => exact fun _ _ => rfl
    case marked =>
      intro hu
      have hcells := (hs.unique i hi hu).2
      rw [hcells] at hb
      cases hb
  · have hn' : (xs ++ m :: ys).Nodup := by
      rw [← hrefs']
      exact List.nodup_cons.mpr ⟨by simp, (List.Nodup.map (fun _ _ => Ref.heap.inj)
        ((hs.cells_nodup hi).erase b))⟩
    rw [handlers_of_used (hused _ he), hrefs']
    exact map_pair_update hn'

end Rtems.Interrupt
