import Rtems.FlashDisk.Model

/-!
# The segment queues of the flash disk

What the queue operations, the queueing of a segment and its erasure do to the places of the segments,
for any driver and any set of allowed events.
-/

namespace Rtems.FlashDisk

open Function Rtems.LinkedQueue Rtems.Traced

variable {Sid : Type} [DecidableEq Sid] {cfg : Config Sid} {ok : Event Sid → Prop}
  {s : Disk Sid} {loc : Sid → Option QueueName} {x : Sid}

/-- The queue a segment belongs on by its state and its pages. -/
def place (cfg : Config Sid) (s : Disk Sid) (x : Sid) : QueueName :=
  if (s.seg x).failed then .failed
  else if segPagesAvailable cfg s x ≠ 0 then .available
  else if (s.seg x).pagesActive ≠ 0 then .used
  else .erase

omit [DecidableEq Sid] in
theorem place_eq_failed : place cfg s x = .failed ↔ (s.seg x).failed = true := by
  unfold place
  split
  next h => simp [h]
  next h => split <;> (try split) <;> simp [h]

omit [DecidableEq Sid] in
theorem place_eq_available :
    place cfg s x = .available ↔ (s.seg x).failed = false ∧ segPagesAvailable cfg s x ≠ 0 := by
  unfold place
  split
  next h => simp [h]
  next h => split <;> (try split) <;> simp_all

omit [DecidableEq Sid] in
theorem place_eq_used :
    place cfg s x = .used ↔ (s.seg x).failed = false ∧ segPagesAvailable cfg s x = 0 ∧
      (s.seg x).pagesActive ≠ 0 := by
  unfold place
  split
  next h => simp [h]
  next h => split <;> (try split) <;> simp_all

omit [DecidableEq Sid] in
theorem place_eq_erase :
    place cfg s x = .erase ↔ (s.seg x).failed = false ∧ segPagesAvailable cfg s x = 0 ∧
      (s.seg x).pagesActive = 0 := by
  unfold place
  split
  next h => simp [h]
  next h => split <;> (try split) <;> simp_all

omit [DecidableEq Sid] in
/-- The place depends on the control of the segment only. -/
theorem place_congr {s' : Disk Sid} (h : s'.seg x = s.seg x) : place cfg s' x = place cfg s x := by
  unfold place segPagesAvailable
  rw [h]

theorem queueStatus_eq (h : Located cfg.segments s.links loc) :
    queueStatus cfg s x =
      ⟨decide (loc x = some .available), decide (loc x = some .used), decide (loc x = some .erase),
        decide (loc x = some .failed)⟩ := by
  simp only [queueStatus, h.present, Option.getD_some]

/-! ## Queue operations -/

theorem pushHead_ensures {q : QueueName} {Q : Unit → Disk Sid → Prop}
    (h : Located cfg.segments s.links loc) (hx : loc x = none)
    (hQ : ∀ l, Located cfg.segments l (update loc x (some q)) →
      (∀ r, r ≠ q → SameList r s.links l) → Q () { s with links := l }) :
    Ensures ok (pushHead q x) s Q := by
  simp only [pushHead, ensures_modify]
  exact hQ _ (h.pushHead hx).1 (h.pushHead hx).2

theorem pushTail_ensures {q : QueueName} {Q : Unit → Disk Sid → Prop}
    (h : Located cfg.segments s.links loc) (hx : loc x = none)
    (hQ : ∀ l, Located cfg.segments l (update loc x (some q)) →
      (∀ r, r ≠ q → SameList r s.links l) → Q () { s with links := l }) :
    Ensures ok (pushTail q x) s Q := by
  simp only [pushTail, ensures_modify]
  exact hQ _ (h.pushTail hx).1 (h.pushTail hx).2

theorem popHead_ensures {q : QueueName} {Q : Option Sid → Disk Sid → Prop}
    (h : Located cfg.segments s.links loc)
    (hnone : (∀ y, loc y ≠ some q) → Q none s)
    (hsome : ∀ y l, loc y = some q → Located cfg.segments l (update loc y none) →
      (∀ r, r ≠ q → SameList r s.links l) →
      (∀ xs, LinkedQueue.Path s.links.next (s.links.queue q).head xs none →
        ∃ ys, xs = y :: ys ∧ LinkedQueue.Path l.next (l.queue q).head ys none) →
      Q (some y) { s with links := l }) :
    Ensures ok (popHead q) s Q := by
  simp only [popHead, ensures_bind, ensures_get, ensures_modify, ensures_pure]
  rcases h.popHead (q := q) with ⟨hp, hq⟩ | ⟨y, l, hp, hy, hl, hsame, hxs⟩
  · rw [hp]
    exact hnone hq
  · rw [hp]
    exact hsome y l hy hl hsame hxs

theorem remove_ensures {q : QueueName} {Q : Unit → Disk Sid → Prop}
    (h : Located cfg.segments s.links loc)
    (hQ : ∀ l, Located cfg.segments l (if loc x = some q then update loc x none else loc) →
      (∀ r, loc x ≠ some r ∨ r ≠ q → SameList r s.links l) → Q () { s with links := l }) :
    Ensures ok (remove cfg q x) s Q := by
  simp only [remove, ensures_bind, ensures_get, ensures_lift, ensures_modify]
  intro l hl
  obtain ⟨l', hl', hloc, hsame⟩ := h.remove (q := q) (x := x)
  rw [hl] at hl'
  cases hl'
  exact hQ l hloc hsame

theorem present_ensures {q : QueueName} {Q : Bool → Disk Sid → Prop}
    (h : Located cfg.segments s.links loc) (hQ : Q (decide (loc x = some q)) s) :
    Ensures ok (present cfg q x) s Q := by
  simp only [present, ensures_bind, ensures_get, ensures_lift, h.present]
  intro b hb
  cases hb
  exact hQ

theorem insertSorted_ensures {q : QueueName} {before : Disk Sid → Sid → Bool}
    {Q : Unit → Disk Sid → Prop} (h : Located cfg.segments s.links loc) (hx : loc x = none)
    (hQ : ∀ l, Located cfg.segments l (update loc x (some q)) →
      (∀ r, r ≠ q → SameList r s.links l) → Q () { s with links := l }) :
    Ensures ok (insertSorted cfg q x before) s Q := by
  simp only [insertSorted, ensures_bind, ensures_get, ensures_lift]
  intro o ho
  obtain ⟨o', ho', hmem⟩ := h.findFrom (q := q) (p := before s)
  rw [ho] at ho'
  cases ho'
  cases o with
  | none => exact pushTail_ensures h hx hQ
  | some item =>
    simp only [insertBefore, ensures_bind, ensures_get, ensures_lift, ensures_modify]
    intro l hl
    obtain ⟨l', hl', hloc, hsame⟩ := h.insertBefore hx (hmem item rfl)
    rw [hl] at hl'
    cases hl'
    exact hQ l hloc hsame

/-- A fold that keeps its value or takes the element it meets ends on one of them. -/
theorem foldl_choice_mem {α : Type} {f : α → α → α} (hf : ∀ b w, f b w = b ∨ f b w = w)
    (xs : List α) (b : α) : xs.foldl f b = b ∨ xs.foldl f b ∈ xs := by
  induction xs generalizing b with
  | nil => exact Or.inl rfl
  | cons x xs ih =>
    rw [List.foldl_cons]
    rcases ih (f b x) with h | h
    · rw [h]
      rcases hf b x with hb | hb
      · exact Or.inl hb
      · exact Or.inr (by simp [hb])
    · exact Or.inr (by simp [h])

omit [DecidableEq Sid] in
/-- The segment with the most available pages is on the queue. -/
theorem segMostAvailable_ensures {q : QueueName} {Q : Option Sid → Disk Sid → Prop}
    (h : Located cfg.segments s.links loc)
    (hnone : (∀ y, loc y ≠ some q) → Q none s)
    (hsome : ∀ y, loc y = some q → Q (some y) s) :
    Ensures ok (segMostAvailable cfg q) s Q := by
  simp only [segMostAvailable, ensures_bind, ensures_get, ensures_lift, ensures_pure]
  intro xs hxs
  obtain ⟨ys, hys, -, hmem, -⟩ := h.elements (q := q)
  rw [hxs] at hys
  cases hys
  cases xs with
  | nil => exact hnone fun y hy => by simpa using (hmem y).mpr hy
  | cons z zs =>
    refine hsome _ ((hmem _).mp ?_)
    have hchoice := foldl_choice_mem (f := fun b w =>
      if segPagesAvailable cfg s w > segPagesAvailable cfg s b then w else b)
      (fun b w => by by_cases hw : segPagesAvailable cfg s w > segPagesAvailable cfg s b <;> simp [hw])
      (z :: zs) z
    rcases hchoice with hz | hz
    · exact List.mem_cons.mpr (Or.inl hz)
    · exact hz

/-! ## Erasing and queueing a segment -/

/-- The disk after a segment was erased and put on the available queue. -/
def Disk.erased (cfg : Config Sid) (s : Disk Sid) (x : Sid) (l : Links QueueName Sid) : Disk Sid :=
  { s.updSeg x fun _ => ⟨fun _ => PageDesc.blank, 0, 0, 0, false⟩ with
    links := l
    erasedBlocks := (s.erasedBlocks + cfg.pages x) % 4294967296
    flash := update s.flash (cfg.address x) cfg.blankSegment
    calls := s.calls + 1 }

/-- The disk after a driver call on a segment failed. -/
def Disk.faulted (cfg : Config Sid) (s : Disk Sid) (x : Sid) (e : Fault) : Disk Sid :=
  { s.updSeg x fun g => { g with failed := true } with
    flash := update s.flash (cfg.address x) e.residue
    calls := s.calls + 1 }

theorem eraseSegment_ensures {Q : ℕ → Disk Sid → Prop}
    (h : Located cfg.segments s.links loc) (hx : loc x = none)
    (hdone : cfg.fault s.calls = none → ∀ l,
      Located cfg.segments l (update loc x (some .available)) →
      (∀ r, r ≠ .available → SameList r s.links l) → Q 0 (s.erased cfg x l))
    (hfault : ∀ e, cfg.fault s.calls = some e → ∀ l,
      Located cfg.segments l (update loc x (some .failed)) →
      Q e.errno { s.faulted cfg x e with links := l }) :
    Ensures ok (eraseSegment cfg x) s Q := by
  simp only [eraseSegment, driverCall, ensures_bind, ensures_get, ensures_modify, ensures_pure]
  cases hf : cfg.fault s.calls with
  | none =>
    simp only [setFlash, ensures_bind, ensures_modify, ensures_pure]
    exact pushTail_ensures h hx fun l hl hsame => hdone hf l hl hsame
  | some e =>
    simp only [setFlash, setFailed, ensures_bind, ensures_get, ensures_modify, ensures_report]
    intro _
    refine present_ensures h ?_
    simp only [hx, reduceCtorEq, decide_false, Bool.not_false, if_true, ensures_bind, ensures_pure]
    exact pushTail_ensures h hx fun l hl _ => hfault e hf l hl

theorem placeSegment_ensures {Q : Unit → Disk Sid → Prop}
    (h : Located cfg.segments s.links loc) (hx : loc x = none) (hlive : (s.seg x).failed = false)
    (hplace : (place cfg s x = .erase → cfg.backgroundErase = true) → ∀ l,
      Located cfg.segments l (update loc x (some (place cfg s x))) →
      (∀ r, r ≠ place cfg s x → SameList r s.links l) → Q () { s with links := l })
    (hgone : place cfg s x = .erase → cfg.backgroundErase = false →
      Ensures ok (eraseSegment cfg x) s fun _ => Q ()) :
    Ensures ok (placeSegment cfg x) s Q := by
  simp only [placeSegment, ensures_bind, ensures_get]
  split
  next havail =>
    split
    next hactive =>
      rw [place_eq_used.mpr ⟨hlive, havail, hactive⟩] at hplace
      exact insertSorted_ensures h hx (hplace (by simp))
    next hactive =>
      have hpl : place cfg s x = .erase := place_eq_erase.mpr ⟨hlive, havail, not_not.mp hactive⟩
      split
      next hbg =>
        rw [hpl] at hplace
        exact pushTail_ensures h hx (hplace fun _ => hbg)
      next hbg =>
        simp only [ensures_bind, ensures_pure]
        exact hgone hpl (by simpa using hbg)
  next havail =>
    rw [place_eq_available.mpr ⟨hlive, havail⟩] at hplace
    exact insertSorted_ensures h hx (hplace (by simp))

/-- A segment that is not on the erase queue goes to its place, or is erased. -/
theorem queueSegment_ensures {Q : Unit → Disk Sid → Prop}
    (h : Located cfg.segments s.links loc)
    (hfailed : (s.seg x).failed = true → loc x = none ∨ loc x = some .failed)
    (hlive : (s.seg x).failed = false → loc x ≠ some .failed)
    (herase : ok (.queueSeg x (queueStatus cfg s x)) → loc x ≠ some .erase)
    (hplace : (place cfg s x = .erase → cfg.backgroundErase = true) → ∀ l,
      Located cfg.segments l (update loc x (some (place cfg s x))) →
      (∀ r, loc x ≠ some r → r ≠ place cfg s x → SameList r s.links l) →
      Q () { s with links := l })
    (hgone : place cfg s x = .erase → cfg.backgroundErase = false → ∀ l,
      Located cfg.segments l (update loc x none) →
      (∀ r, loc x ≠ some r → SameList r s.links l) →
      Ensures ok (eraseSegment cfg x) { s with links := l } fun _ => Q ()) :
    Ensures ok (queueSegment cfg x) s Q := by
  simp only [queueSegment, ensures_bind, ensures_get, ensures_report]
  intro hok
  split
  next hf =>
    simp only [ensures_bind]
    refine present_ensures h ?_
    rw [place_eq_failed.mpr hf] at hplace
    have hplace := hplace (by simp)
    rcases hfailed hf with hx | hx
    · simp only [hx, reduceCtorEq, decide_false, Bool.not_false, if_true]
      exact pushTail_ensures h hx fun l hl hsame => hplace l hl fun r _ hr => hsame r hr
    · simp only [hx, decide_true, Bool.not_true, Bool.false_eq_true, if_false, ensures_pure]
      refine hplace s.links ?_ fun r _ _ => SameList.refl r _
      rw [← hx, update_eq_self]
      exact h
  next hf =>
    have hf : (s.seg x).failed = false := by simpa using hf
    simp only [ensures_bind]
    refine remove_ensures h fun l₁ hl₁ hsame₁ => remove_ensures hl₁ fun l₂ hl₂ hsame₂ => ?_
    -- wherever the segment was, it is now on no queue
    have hloc : Located cfg.segments l₂ (update loc x none) := by
      have hnot := hlive hf
      have hnot' := herase hok
      rcases hlx : loc x with _ | q
      · rw [← hlx, update_eq_self]
        simpa [hlx] using hl₂
      · cases q with
        | available => simpa [hlx] using hl₂
        | used => simpa [hlx] using hl₂
        | erase => exact absurd hlx hnot'
        | failed => exact absurd hlx hnot
    have hsame : ∀ r, loc x ≠ some r → SameList r s.links l₂ := by
      intro r hr
      refine (hsame₁ r (Or.inl hr)).trans (hsame₂ r ?_)
      split
      · exact Or.inl (by simp)
      · exact Or.inl hr
    refine placeSegment_ensures hloc (update_self _ _ _) hf ?_ ?_
    · intro hbg l hl hsame'
      rw [update_idem] at hl
      exact hplace hbg l hl fun r hr hrp => (hsame r hr).trans (hsame' r hrp)
    · intro hpl hbg
      exact hgone hpl hbg l₂ hloc hsame

end Rtems.FlashDisk
