import Rtems.Signals.Model

/-!
# The bookkeeping of queued values

`Inv` ties the pending bit of a signal to its chain.  Only three steps touch either of them: clearing
the bit, taking a value off and posting one.
-/

namespace Rtems.Signals

variable {Tid Nid : Type} [DecidableEq Tid] [DecidableEq Nid] {s s' : State Tid Nid}
  {nodes : List Nid} {t : Tid} {n : Nid} {sig signo value : Nat} {info : Option Nat}

/-! ## The invariant -/

/-- The nodes, the pending bits, and the values on their way to the handlers. -/
structure Inv (nodes : List Nid) (s : State Tid Nid) : Prop where
  nodup : s.inactive.Nodup ∧ ∀ sig, (s.siginfo sig).Nodup
  disjoint : ∀ n ∈ s.inactive, ∀ sig, n ∉ s.siginfo sig
  unique : ∀ n sig sig', n ∈ s.siginfo sig → n ∈ s.siginfo sig' → sig = sig'
  complete : ∀ n, n ∈ nodes ↔ n ∈ s.inactive ∨ ∃ sig, n ∈ s.siginfo sig
  queued : ∀ sig, s.siginfo sig ≠ [] → s.pending sig = true
  pending : ∀ sig, (s.vectors sig).siginfo = true → s.pending sig = true → s.siginfo sig ≠ []
  fifo : ∀ sig, s.posted sig = s.taken sig ++ (s.siginfo sig).map s.info
  due : ∀ t sig info, (sig, info) ∈ s.due t →
    (info = none → (s.vectors sig).siginfo = false) ∧ ∀ v, info = some v → v ∈ s.taken sig
  handled : ∀ sig info, (sig, info) ∈ s.handled → ∃ v, info = some v ∧ v ∈ s.taken sig

/-- The two states have the same bits, chains and deliveries. -/
structure SameQueues (s s' : State Tid Nid) : Prop where
  vectors : s'.vectors = s.vectors
  pending : s'.pending = s.pending
  inactive : s'.inactive = s.inactive
  siginfo : s'.siginfo = s.siginfo
  info : s'.info = s.info
  due : s'.due = s.due
  posted : s'.posted = s.posted
  taken : s'.taken = s.taken
  handled : s'.handled = s.handled

section

omit [DecidableEq Nid] [DecidableEq Tid]

theorem SameQueues.refl (s : State Tid Nid) : SameQueues s s :=
  ⟨rfl, rfl, rfl, rfl, rfl, rfl, rfl, rfl, rfl⟩

theorem Inv.same (h : Inv nodes s) (hs : SameQueues s s') : Inv nodes s' where
  nodup := by
    rw [hs.inactive, hs.siginfo]
    exact h.nodup
  disjoint := by
    rw [hs.inactive, hs.siginfo]
    exact h.disjoint
  unique := by
    rw [hs.siginfo]
    exact h.unique
  complete := by
    rw [hs.inactive, hs.siginfo]
    exact h.complete
  queued := by
    rw [hs.siginfo, hs.pending]
    exact h.queued
  pending := by
    rw [hs.vectors, hs.siginfo, hs.pending]
    exact h.pending
  fifo := by
    rw [hs.posted, hs.taken, hs.siginfo, hs.info]
    exact h.fifo
  due := by
    rw [hs.due, hs.vectors, hs.taken]
    exact h.due
  handled := by
    rw [hs.handled, hs.taken]
    exact h.handled

/-! ## Clearing -/

/-- A signal that may be cleared has no values when its bit goes. -/
theorem clearProcessSignals_cases (hc : Clearable s sig) :
    clearProcessSignals s sig = s ∨ s.siginfo sig = [] ∧ clearProcessSignals s sig =
      { s with pending := Function.update s.pending sig false } := by
  unfold clearProcessSignals
  split
  next => exact .inl rfl
  next hno =>
    refine .inr ⟨?_, rfl⟩
    rcases hc with hf | he
    · simpa [hf] using hno
    · exact he

theorem Inv.clearProcessSignals (h : Inv nodes s) (hc : Clearable s sig) :
    Inv nodes (clearProcessSignals s sig) := by
  rcases clearProcessSignals_cases hc with e | ⟨hempty, e⟩
  · rw [e]
    exact h
  · rw [e]
    constructor
    case nodup => exact h.nodup
    case disjoint => exact h.disjoint
    case unique => exact h.unique
    case complete => exact h.complete
    case queued =>
      intro i hi
      have hne : i ≠ sig := by
        rintro rfl
        exact hi hempty
      exact (Function.update_of_ne hne ..).trans (h.queued i hi)
    case pending =>
      intro i hf hp
      have hne : i ≠ sig := by
        rintro rfl
        exact absurd ((Function.update_self ..).symm.trans hp) nofun
      exact h.pending i hf ((Function.update_of_ne hne ..).symm.trans hp)
    case fifo => exact h.fifo
    case due => exact h.due
    case handled => exact h.handled

/-- The bit of a signal with siginfo goes with its last value. -/
theorem clearProcessSignals_siginfo (hf : (s.vectors sig).siginfo = true) :
    clearProcessSignals s sig = { s with
      pending := Function.update s.pending sig (s.pending sig && ! (s.siginfo sig).isEmpty) } := by
  unfold clearProcessSignals
  rw [hf]
  cases (s.siginfo sig).isEmpty with
  | true => simp
  | false => simp

/-- The first value of a signal is taken off its chain. -/
theorem Inv.take (h : Inv nodes s) {rest : List Nid} (hl : s.siginfo sig = n :: rest) :
    Inv nodes { s with
      siginfo := Function.update s.siginfo sig rest
      taken := Function.update s.taken sig (s.taken sig ++ [s.info n])
      inactive := s.inactive ++ [n]
      pending := Function.update s.pending sig (! rest.isEmpty) } := by
  have hn : n ∈ s.siginfo sig := by rw [hl]; exact List.mem_cons_self
  have hnodup := h.nodup.2 sig
  rw [hl] at hnodup
  obtain ⟨hnot, hrest⟩ := List.nodup_cons.mp hnodup
  have hsub : ∀ m i, m ∈ Function.update s.siginfo sig rest i → m ∈ s.siginfo i := by
    intro m i hm
    rcases eq_or_ne i sig with rfl | hne
    · rw [Function.update_self] at hm
      rw [hl]
      exact List.mem_cons_of_mem n hm
    · rw [Function.update_of_ne hne] at hm
      exact hm
  have hgone : ∀ i, n ∉ Function.update s.siginfo sig rest i := by
    intro i hm
    have hi := h.unique n i sig (hsub n i hm) hn
    rw [hi, Function.update_self] at hm
    exact hnot hm
  have hpending := h.queued sig (by rw [hl]; exact nofun)
  have htaken : ∀ i v, v ∈ s.taken i →
      v ∈ Function.update s.taken sig (s.taken sig ++ [s.info n]) i := by
    intro i v hv
    rcases eq_or_ne i sig with rfl | hne
    · rw [Function.update_self]
      exact List.mem_append_left _ hv
    · rw [Function.update_of_ne hne]
      exact hv
  constructor
  case nodup =>
    constructor
    · refine List.nodup_append.mpr ⟨h.nodup.1, List.nodup_singleton n, ?_⟩
      intro m hm x hx hmx
      rw [List.mem_singleton.mp hx] at hmx
      exact h.disjoint m hm sig (hmx ▸ hn)
    · intro i
      dsimp only
      rcases eq_or_ne i sig with rfl | hne
      · rw [Function.update_self]
        exact hrest
      · rw [Function.update_of_ne hne]
        exact h.nodup.2 i
  case disjoint =>
    intro m hm i hin
    rcases List.mem_append.mp hm with hm | hm
    · exact h.disjoint m hm i (hsub m i hin)
    · rw [List.mem_singleton.mp hm] at hin
      exact hgone i hin
  case unique => exact fun m i j hi hj => h.unique m i j (hsub m i hi) (hsub m j hj)
  case complete =>
    intro m
    rw [h.complete m]
    constructor
    · rintro (hm | ⟨i, hm⟩)
      · exact .inl (List.mem_append_left _ hm)
      · rcases eq_or_ne i sig with rfl | hne
        · rw [hl] at hm
          rcases List.mem_cons.mp hm with rfl | hm
          · exact .inl (List.mem_append_right _ List.mem_cons_self)
          · exact .inr ⟨i, by dsimp only; rw [Function.update_self]; exact hm⟩
        · exact .inr ⟨i, by dsimp only; rw [Function.update_of_ne hne]; exact hm⟩
    · rintro (hm | ⟨i, hm⟩)
      · rcases List.mem_append.mp hm with hm | hm
        · exact .inl hm
        · exact .inr ⟨sig, List.mem_singleton.mp hm ▸ hn⟩
      · exact .inr ⟨i, hsub m i hm⟩
  case queued =>
    intro i hi
    dsimp only at hi ⊢
    rcases eq_or_ne i sig with rfl | hne
    · rw [Function.update_self] at hi ⊢
      simpa using hi
    · rw [Function.update_of_ne hne] at hi ⊢
      exact h.queued i hi
  case pending =>
    intro i hf hp
    dsimp only at hp ⊢
    rcases eq_or_ne i sig with rfl | hne
    · rw [Function.update_self] at hp ⊢
      simpa using hp
    · rw [Function.update_of_ne hne] at hp ⊢
      exact h.pending i hf hp
  case fifo =>
    intro i
    dsimp only
    rcases eq_or_ne i sig with rfl | hne
    · rw [Function.update_self, Function.update_self, h.fifo i, hl]
      simp
    · rw [Function.update_of_ne hne, Function.update_of_ne hne]
      exact h.fifo i
  case due =>
    intro u i info hm
    obtain ⟨h1, h2⟩ := h.due u i info hm
    exact ⟨h1, fun v hv => htaken i v (h2 v hv)⟩
  case handled =>
    intro i info hm
    obtain ⟨v, hv, hin⟩ := h.handled i info hm
    exact ⟨v, hv, htaken i v hin⟩

end

/-! ## Posting -/

section

omit [DecidableEq Tid]

/-- A value is queued. -/
theorem Inv.post (h : Inv nodes s) {rest : List Nid} (hl : s.inactive = n :: rest) (sig value : Nat) :
    Inv nodes { s with
      pending := Function.update s.pending sig true
      inactive := rest
      info := Function.update s.info n value
      siginfo := Function.update s.siginfo sig (s.siginfo sig ++ [n])
      posted := Function.update s.posted sig (s.posted sig ++ [value]) } := by
  have hn : n ∈ s.inactive := by rw [hl]; exact List.mem_cons_self
  have hnodup := h.nodup.1
  rw [hl] at hnodup
  obtain ⟨hnot, hrest⟩ := List.nodup_cons.mp hnodup
  have hfree : ∀ i, n ∉ s.siginfo i := h.disjoint n hn
  have hmem : ∀ m i, m ∈ Function.update s.siginfo sig (s.siginfo sig ++ [n]) i ↔
      m ∈ s.siginfo i ∨ i = sig ∧ m = n := by
    intro m i
    rcases eq_or_ne i sig with rfl | hne
    · rw [Function.update_self]
      simp
    · rw [Function.update_of_ne hne]
      simp [hne]
  have hold : ∀ i, (s.siginfo i).map (Function.update s.info n value) =
      (s.siginfo i).map s.info := by
    intro i
    refine List.map_congr_left ?_
    intro m hm
    have hne : m ≠ n := fun he => hfree i (he ▸ hm)
    exact Function.update_of_ne hne ..
  constructor
  case nodup =>
    refine ⟨hrest, ?_⟩
    intro i
    dsimp only
    rcases eq_or_ne i sig with rfl | hne
    · rw [Function.update_self]
      refine List.nodup_append.mpr ⟨h.nodup.2 i, List.nodup_singleton n, ?_⟩
      intro m hm x hx hmx
      rw [List.mem_singleton.mp hx] at hmx
      exact hfree i (hmx ▸ hm)
    · rw [Function.update_of_ne hne]
      exact h.nodup.2 i
  case disjoint =>
    intro m hm i hin
    rcases (hmem m i).mp hin with hin | ⟨-, rfl⟩
    · exact h.disjoint m (hl ▸ List.mem_cons_of_mem n hm) i hin
    · exact hnot hm
  case unique =>
    intro m i j hi hj
    rcases (hmem m i).mp hi with hi' | ⟨hsi, hmi⟩
    · rcases (hmem m j).mp hj with hj' | ⟨-, hmj⟩
      · exact h.unique m i j hi' hj'
      · exact absurd (hmj ▸ hi') (hfree i)
    · rcases (hmem m j).mp hj with hj' | ⟨hsj, -⟩
      · exact absurd (hmi ▸ hj') (hfree j)
      · exact hsi.trans hsj.symm
  case complete =>
    intro m
    rw [h.complete m, hl]
    constructor
    · rintro (hm | ⟨i, hm⟩)
      · rcases List.mem_cons.mp hm with rfl | hm
        · exact .inr ⟨sig, (hmem m sig).mpr (.inr ⟨rfl, rfl⟩)⟩
        · exact .inl hm
      · exact .inr ⟨i, (hmem m i).mpr (.inl hm)⟩
    · rintro (hm | ⟨i, hm⟩)
      · exact .inl (List.mem_cons_of_mem n hm)
      · rcases (hmem m i).mp hm with hm | ⟨-, rfl⟩
        · exact .inr ⟨i, hm⟩
        · exact .inl List.mem_cons_self
  case queued =>
    intro i hi
    dsimp only at hi ⊢
    rcases eq_or_ne i sig with rfl | hne
    · exact Function.update_self ..
    · rw [Function.update_of_ne hne] at hi ⊢
      exact h.queued i hi
  case pending =>
    intro i hf hp
    dsimp only at hp ⊢
    rcases eq_or_ne i sig with rfl | hne
    · rw [Function.update_self]
      simp
    · rw [Function.update_of_ne hne] at hp ⊢
      exact h.pending i hf hp
  case fifo =>
    intro i
    dsimp only
    rcases eq_or_ne i sig with rfl | hne
    · rw [Function.update_self, Function.update_self, h.fifo i, List.map_append, hold]
      simp
    · rw [Function.update_of_ne hne, Function.update_of_ne hne, hold]
      exact h.fifo i
  case due => exact h.due
  case handled => exact h.handled

end

section

omit [DecidableEq Nid] [DecidableEq Tid]

/-- A bit is set, and the values are not touched. -/
theorem Inv.setPending (h : Inv nodes s)
    (hp : (s.vectors sig).siginfo = true → s.pending sig = true) :
    Inv nodes { s with pending := Function.update s.pending sig true } := by
  constructor
  case nodup => exact h.nodup
  case disjoint => exact h.disjoint
  case unique => exact h.unique
  case complete => exact h.complete
  case queued =>
    intro i hi
    dsimp only
    rcases eq_or_ne i sig with rfl | hne
    · exact Function.update_self ..
    · rw [Function.update_of_ne hne]
      exact h.queued i hi
  case pending =>
    intro i hf hpi
    rcases eq_or_ne i sig with rfl | hne
    · exact h.pending i hf (hp hf)
    · exact h.pending i hf ((Function.update_of_ne hne ..).symm.trans hpi)
  case fifo => exact h.fifo
  case due => exact h.due
  case handled => exact h.handled

end

omit [DecidableEq Tid]

theorem Inv.postProcessSignal (h : Inv nodes s)
    (hc : (s.vectors sig).siginfo = true → s.pending sig = true ∨ s.inactive ≠ []) (value : Nat) :
    Inv nodes (postProcessSignal s sig value).2 := by
  unfold Signals.postProcessSignal
  cases hf : (s.vectors sig).siginfo with
  | false =>
    simp only [hf]
    exact h.setPending fun hf' => absurd (hf.symm.trans hf') nofun
  | true =>
    simp only [hf, if_true]
    split
    next hl => exact h.setPending fun _ => (hc hf).resolve_right fun hne => hne hl
    next n rest hl => exact h.post hl sig value

end Rtems.Signals
