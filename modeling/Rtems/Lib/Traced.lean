import Mathlib

/-!
# Programs with a state and a trace

A program changes a state, reports events on the way and may fail to return.  `Ensures` is its weakest
liberal precondition relative to a set of allowed events: every run that returns and reports allowed
events only ends in the postcondition.  The rules below are equivalences, so that a program written
with `do` is taken apart by rewriting, and the specification of a subprogram is used by `Ensures.mono`.
`Guarantees` moreover promises something of the events a run reports.
-/

namespace Rtems.Traced

/-- A program over states `σ` with events `ε`; `none` is a run that does not return. -/
def Prog (σ ε α : Type) : Type := σ → Option (α × σ × List ε)

variable {σ ε α β : Type}

instance : Monad (Prog σ ε) where
  pure a := fun s => some (a, s, [])
  bind m f := fun s =>
    match m s with
    | none => none
    | some (a, s₁, es₁) =>
      match f a s₁ with
      | none => none
      | some (b, s₂, es₂) => some (b, s₂, es₁ ++ es₂)

namespace Prog

/-- The current state. -/
def get : Prog σ ε σ := fun s => some (s, s, [])

def modify (f : σ → σ) : Prog σ ε Unit := fun s => some ((), f s, [])

def report (e : ε) : Prog σ ε Unit := fun s => some ((), s, [e])

/-- A computation that may not return. -/
def lift (o : Option α) : Prog σ ε α := fun s => o.map fun a => (a, s, [])

end Prog

/-! ## The weakest liberal precondition -/

section

variable {ok : ε → Prop}

/-- Every run of `m` from `s` that returns, with allowed events only, ends in `Q`. -/
def Ensures (ok : ε → Prop) (m : Prog σ ε α) (s : σ) (Q : α → σ → Prop) : Prop :=
  ∀ a s' es, m s = some (a, s', es) → (∀ e ∈ es, ok e) → Q a s'

theorem Ensures.mono {m : Prog σ ε α} {s : σ} {Q R : α → σ → Prop} (h : Ensures ok m s Q)
    (hQR : ∀ a s', Q a s' → R a s') : Ensures ok m s R :=
  fun a s' es hm hes => hQR a s' (h a s' es hm hes)

theorem Ensures.and {m : Prog σ ε α} {s : σ} {Q R : α → σ → Prop} (h : Ensures ok m s Q)
    (h' : Ensures ok m s R) : Ensures ok m s fun a s' => Q a s' ∧ R a s' :=
  fun a s' es hm hes => ⟨h a s' es hm hes, h' a s' es hm hes⟩

@[simp]
theorem ensures_pure {a : α} {s : σ} {Q : α → σ → Prop} :
    Ensures ok (pure a) s Q ↔ Q a s := by
  constructor
  · intro h
    exact h a s [] rfl (by simp)
  · intro h a' s' es hm _
    cases hm
    exact h

@[simp]
theorem ensures_bind {m : Prog σ ε α} {f : α → Prog σ ε β} {s : σ} {Q : β → σ → Prop} :
    Ensures ok (m >>= f) s Q ↔ Ensures ok m s fun a s' => Ensures ok (f a) s' Q := by
  constructor
  · intro h a s₁ es₁ hm hes₁ b s₂ es₂ hf hes₂
    refine h b s₂ (es₁ ++ es₂) ?_ ?_
    · simp only [bind, hm, hf]
    · intro e he
      rcases List.mem_append.mp he with he | he
      · exact hes₁ e he
      · exact hes₂ e he
  · intro h b s₂ es hm hes
    simp only [bind] at hm
    split at hm
    · cases hm
    next a s₁ es₁ hm₁ =>
      split at hm
      · cases hm
      next b' s₂' es₂ hf =>
        cases hm
        exact h a s₁ es₁ hm₁ (fun e he => hes e (List.mem_append_left _ he)) b s₂ es₂ hf
          (fun e he => hes e (List.mem_append_right _ he))

@[simp]
theorem ensures_get {s : σ} {Q : σ → σ → Prop} :
    Ensures ok Prog.get s Q ↔ Q s s := by
  constructor
  · intro h
    exact h s s [] rfl (by simp)
  · intro h a s' es hm _
    cases hm
    exact h

@[simp]
theorem ensures_modify {f : σ → σ} {s : σ} {Q : Unit → σ → Prop} :
    Ensures ok (Prog.modify f) s Q ↔ Q () (f s) := by
  constructor
  · intro h
    exact h () (f s) [] rfl (by simp)
  · intro h a s' es hm _
    cases hm
    exact h

@[simp]
theorem ensures_report {e : ε} {s : σ} {Q : Unit → σ → Prop} :
    Ensures ok (Prog.report e) s Q ↔ (ok e → Q () s) := by
  constructor
  · intro h he
    exact h () s [e] rfl (by simpa using he)
  · intro h a s' es hm hes
    cases hm
    exact h (hes e (by simp))

@[simp]
theorem ensures_lift {o : Option α} {s : σ} {Q : α → σ → Prop} :
    Ensures ok (Prog.lift o) s Q ↔ ∀ a, o = some a → Q a s := by
  constructor
  · intro h a ha
    exact h a s [] (by simp [Prog.lift, ha]) (by simp)
  · intro h a s' es hm _
    simp only [Prog.lift, Option.map_eq_some_iff, Prod.mk.injEq] at hm
    obtain ⟨b, hb, rfl, rfl, rfl⟩ := hm
    exact h b hb

end

/-! ## Sequencing runs -/

theorem bind_eq_some_iff {m : Prog σ ε α} {f : α → Prog σ ε β} {s t : σ} {b : β} {es : List ε} :
    (m >>= f) s = some (b, t, es) ↔
      ∃ a s₁ es₁ es₂, m s = some (a, s₁, es₁) ∧ f a s₁ = some (b, t, es₂) ∧ es = es₁ ++ es₂ := by
  constructor
  · intro h
    simp only [bind] at h
    split at h
    · cases h
    next a s₁ es₁ hm =>
      split at h
      · cases h
      next b' s₂ es₂ hf =>
        cases h
        exact ⟨a, s₁, es₁, es₂, hm, hf, rfl⟩
  · rintro ⟨a, s₁, es₁, es₂, hm, hf, rfl⟩
    simp only [bind, hm, hf]

/-! ## Assumed and guaranteed events -/

section

variable {ok good : ε → Prop}

/-- Every run of `m` from `s` that returns, with allowed events only, reports good events only and ends
in `Q`. -/
def Guarantees (ok good : ε → Prop) (m : Prog σ ε α) (s : σ) (Q : α → σ → Prop) : Prop :=
  ∀ a s' es, m s = some (a, s', es) → (∀ e ∈ es, ok e) → (∀ e ∈ es, good e) ∧ Q a s'

theorem Guarantees.mono {m : Prog σ ε α} {s : σ} {Q R : α → σ → Prop}
    (h : Guarantees ok good m s Q) (hQR : ∀ a s', Q a s' → R a s') : Guarantees ok good m s R :=
  fun a s' es hm hes => (h a s' es hm hes).imp_right (hQR a s')

theorem Guarantees.bind {m : Prog σ ε α} {f : α → Prog σ ε β} {s : σ} {Q : β → σ → Prop}
    (h : Guarantees ok good m s fun a s' => Guarantees ok good (f a) s' Q) :
    Guarantees ok good (m >>= f) s Q := by
  intro b s₂ es hb hes
  obtain ⟨a, s₁, es₁, es₂, hm, hf, rfl⟩ := bind_eq_some_iff.mp hb
  obtain ⟨hgood, hrest⟩ := h a s₁ es₁ hm fun e he => hes e (List.mem_append_left _ he)
  obtain ⟨hgood', hQ⟩ := hrest b s₂ es₂ hf fun e he => hes e (List.mem_append_right _ he)
  refine ⟨fun e he => ?_, hQ⟩
  rcases List.mem_append.mp he with he | he
  · exact hgood e he
  · exact hgood' e he

@[simp]
theorem guarantees_pure {a : α} {s : σ} {Q : α → σ → Prop} :
    Guarantees ok good (pure a) s Q ↔ Q a s := by
  constructor
  · intro h
    exact (h a s [] rfl (by simp)).2
  · intro h a' s' es hm _
    cases hm
    exact ⟨by simp, h⟩

@[simp]
theorem guarantees_modify {f : σ → σ} {s : σ} {Q : Unit → σ → Prop} :
    Guarantees ok good (Prog.modify f) s Q ↔ Q () (f s) := by
  constructor
  · intro h
    exact (h () (f s) [] rfl (by simp)).2
  · intro h a s' es hm _
    cases hm
    exact ⟨by simp, h⟩

/-- A program that reports nothing and returns goes before another one. -/
theorem guarantees_silent_bind {m : Prog σ ε α} {f : α → Prog σ ε β} {s s₁ : σ} {a : α}
    {Q : β → σ → Prop} (hm : m s = some (a, s₁, [])) :
    Guarantees ok good (m >>= f) s Q ↔ Guarantees ok good (f a) s₁ Q := by
  constructor
  · intro h b s₂ es hf hes
    exact h b s₂ es (bind_eq_some_iff.mpr ⟨a, s₁, [], es, hm, hf, rfl⟩) hes
  · intro h b s₂ es hb hes
    obtain ⟨a', s₁', es₁, es₂, hm', hf, rfl⟩ := bind_eq_some_iff.mp hb
    rw [hm] at hm'
    cases hm'
    exact h b s₂ es₂ hf hes

@[simp]
theorem guarantees_get_bind {f : σ → Prog σ ε β} {s : σ} {Q : β → σ → Prop} :
    Guarantees ok good (Prog.get >>= f) s Q ↔ Guarantees ok good (f s) s Q :=
  guarantees_silent_bind rfl

@[simp]
theorem guarantees_modify_bind {g : σ → σ} {f : Unit → Prog σ ε β} {s : σ} {Q : β → σ → Prop} :
    Guarantees ok good (Prog.modify g >>= f) s Q ↔ Guarantees ok good (f ()) (g s) Q :=
  guarantees_silent_bind rfl

theorem guarantees_report_bind {e : ε} {f : Unit → Prog σ ε β} {s : σ} {Q : β → σ → Prop}
    (h : ok e → good e ∧ Guarantees ok good (f ()) s Q) :
    Guarantees ok good (Prog.report e >>= f) s Q := by
  refine Guarantees.bind fun a s' es hm hes => ?_
  cases hm
  obtain ⟨hgood, hf⟩ := h (hes e (by simp))
  exact ⟨by simpa using hgood, hf⟩

theorem guarantees_lift_none {s : σ} {Q : α → σ → Prop} :
    Guarantees ok good (Prog.lift none) s Q := by
  intro a s' es hm _
  cases hm

end

/-! ## Runs that return -/

/-- The program returns. -/
def Returns (m : Prog σ ε α) (s : σ) : Prop := ∃ a s' es, m s = some (a, s', es)

/-- A program that returns ends in its postcondition. -/
theorem Ensures.result {m : Prog σ ε α} {s : σ} {Q : α → σ → Prop}
    (h : Ensures (fun _ => True) m s Q) (hr : Returns m s) :
    ∃ a s' es, m s = some (a, s', es) ∧ Q a s' := by
  obtain ⟨a, s', es, hm⟩ := hr
  exact ⟨a, s', es, hm, h a s' es hm fun _ _ => trivial⟩

@[simp]
theorem returns_pure {a : α} {s : σ} : Returns (pure a : Prog σ ε α) s := ⟨a, s, [], rfl⟩

@[simp]
theorem returns_get {s : σ} : Returns (Prog.get : Prog σ ε σ) s := ⟨s, s, [], rfl⟩

@[simp]
theorem returns_modify {f : σ → σ} {s : σ} : Returns (Prog.modify f : Prog σ ε Unit) s :=
  ⟨(), f s, [], rfl⟩

@[simp]
theorem returns_report {e : ε} {s : σ} : Returns (Prog.report e) s := ⟨(), s, [e], rfl⟩

@[simp]
theorem returns_lift {o : Option α} {s : σ} :
    Returns (Prog.lift o : Prog σ ε α) s ↔ ∃ a, o = some a := by
  constructor
  · rintro ⟨a, s', es, hm⟩
    simp only [Prog.lift, Option.map_eq_some_iff, Prod.mk.injEq] at hm
    obtain ⟨b, hb, -⟩ := hm
    exact ⟨b, hb⟩
  · rintro ⟨a, rfl⟩
    exact ⟨a, s, [], rfl⟩

@[simp]
theorem returns_bind {m : Prog σ ε α} {f : α → Prog σ ε β} {s : σ} :
    Returns (m >>= f) s ↔
      Returns m s ∧ Ensures (fun _ => True) m s fun a s' => Returns (f a) s' := by
  constructor
  · rintro ⟨b, s₂, es, hb⟩
    obtain ⟨a, s₁, es₁, es₂, hm, hf, -⟩ := bind_eq_some_iff.mp hb
    refine ⟨⟨a, s₁, es₁, hm⟩, ?_⟩
    intro a' s' es' hm' _
    rw [hm] at hm'
    cases hm'
    exact ⟨b, s₂, es₂, hf⟩
  · rintro ⟨hr, hf⟩
    obtain ⟨a, s₁, es₁, hm, b, s₂, es₂, hb⟩ := hf.result hr
    exact ⟨b, s₂, es₁ ++ es₂, bind_eq_some_iff.mpr ⟨a, s₁, es₁, es₂, hm, hb, rfl⟩⟩

/-- Both programs return from every state they can be run in. -/
theorem Returns.bind {m : Prog σ ε α} {f : α → Prog σ ε β} {s : σ} (hm : Returns m s)
    (hf : ∀ a s', Returns (f a) s') : Returns (m >>= f) s :=
  returns_bind.mpr ⟨hm, fun a s' _ _ _ => hf a s'⟩

end Rtems.Traced
