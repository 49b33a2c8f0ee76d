import Rtems.Region.Segments

/-!
# Every segment reaches one call

The invariants of a region and its main theorem.  `Books` compares the counter of the region with
its heap, `Calls` follows each segment to the call it was allocated for, and `Codes` is about the
return codes of the threads that wait.  These hold in all runs.  That the first thread of the queue
cannot be served needs the runs whose events leave no such thread behind.
-/

namespace Rtems.Region

open ThreadQueue

variable {H Seg Tid : Type} [DecidableEq Seg] [DecidableEq Tid] {heap : Heap H Seg}
  {d : Discipline} {prio : Tid → Priority} {s s' : State Tid Seg H} {t : Tid} {p : Seg}

/-! ## The books of the region -/

/-- The blocks in use, the segments handed out and the areas of the heap are the same. -/
structure Books (heap : Heap H Seg) (s : State Tid Seg H) : Prop where
  used : s.numberOfUsedBlocks = s.outstanding.length
  nodup : s.outstanding.Nodup
  live : ∀ p, p ∈ s.outstanding ↔ p ∈ heap.live s.memory
  handed : ∀ p ∈ s.outstanding, ∃ n, (p, n) ∈ s.handouts

section

omit [DecidableEq Seg] [DecidableEq Tid]

theorem Books.start {memory : H} (h : heap.live memory = ∅) (length maximum : Nat) :
    Books heap (Region.start memory length maximum : State Tid Seg H) where
  used := rfl
  nodup := List.nodup_nil
  live := by simp [Region.start, h]
  handed := nofun

/-- Only the fields of the books matter. -/
theorem Books.congr (h : Books heap s) (hn : s'.numberOfUsedBlocks = s.numberOfUsedBlocks)
    (ho : s'.outstanding = s.outstanding) (hh : s'.handouts = s.handouts)
    (hm : heap.live s'.memory = heap.live s.memory) : Books heap s' where
  used := by rw [hn, ho, h.used]
  nodup := by rw [ho]; exact h.nodup
  live := by rw [ho, hm]; exact h.live
  handed := by rw [ho, hh]; exact h.handed

end

theorem Books.give (hl : heap.Lawful) (h : Books heap s) {n : Nat} {memory : H}
    (ha : heap.allocate s.memory n = some (p, memory)) : Books heap (s.give t p memory) := by
  obtain ⟨hnot, hlive⟩ := hl.allocate_live ha
  constructor
  case used => exact congrArg (· + 1) h.used
  case nodup =>
    refine List.nodup_cons.mpr ⟨?_, h.nodup⟩
    intro hp
    exact hnot ((h.live p).mp hp)
  case live =>
    intro q
    show q ∈ p :: s.outstanding ↔ q ∈ heap.live memory
    rw [hlive, List.mem_cons, Finset.mem_insert, h.live]
  case handed =>
    intro q hq
    rcases List.mem_cons.mp hq with rfl | hq
    · exact ⟨s.call t, List.mem_cons_self⟩
    · obtain ⟨n, hn⟩ := h.handed q hq
      exact ⟨n, List.mem_cons_of_mem _ hn⟩

section

omit [DecidableEq Tid]

theorem Books.returnSegment (hl : heap.Lawful) (h : Books heap s)
    (hp : p ∈ s.outstanding ∨ heap.free s.memory p = none) :
    Books heap (Region.returnSegment heap s p).2 := by
  unfold Region.returnSegment
  cases hf : heap.free s.memory p with
  | none => exact h
  | some memory =>
    rw [hf] at hp
    have hp := hp.resolve_right nofun
    have hlive := hl.free_live hf ((h.live p).mp hp)
    constructor
    case used =>
      show s.numberOfUsedBlocks - 1 = (s.outstanding.erase p).length
      rw [h.used, List.length_erase_of_mem hp]
    case nodup => exact h.nodup.erase p
    case live =>
      intro q
      show q ∈ s.outstanding.erase p ↔ q ∈ heap.live memory
      rw [hlive, Finset.mem_erase, h.nodup.mem_erase_iff, h.live]
    case handed => exact fun q hq => h.handed q (List.mem_of_mem_erase hq)

end

/-! ## The calls -/

/-- The calls of the threads of `A` are under way. -/
structure Calls (A : Tid → Prop) (s : State Tid Seg H) : Prop where
  lt : ∀ t, A t → s.call t < s.calls
  opened : ∀ t, A t → s.completed (s.call t) = none
  inj : ∀ t u, A t → A u → s.call t = s.call u → t = u
  completed_lt : ∀ n r, s.completed n = some r → n < s.calls
  handout_lt : ∀ x ∈ s.handouts, x.2 < s.calls
  nodup : (s.handouts.map Prod.snd).Nodup
  handed : ∀ x ∈ s.handouts, s.completed x.2 = some (.successful, some x.1) ∨
    ∃ t, A t ∧ s.call t = x.2 ∧ s.segment t = some x.1
  given : ∀ t p, A t → s.segment t = some p → (p, s.call t) ∈ s.handouts
  success : ∀ n status a, s.completed n = some (status, a) →
    (status = .successful ↔ a ≠ none) ∧ ∀ p, a = some p → (p, n) ∈ s.handouts

variable {A : Tid → Prop}

section

omit [DecidableEq Seg] [DecidableEq Tid]

theorem Calls.start (memory : H) (length maximum : Nat) (hA : ∀ t, ¬ A t) :
    Calls A (Region.start memory length maximum : State Tid Seg H) where
  lt := fun t ht => absurd ht (hA t)
  opened := fun _ _ => rfl
  inj := fun t _ ht => absurd ht (hA t)
  completed_lt := nofun
  handout_lt := nofun
  nodup := List.nodup_nil
  handed := nofun
  given := nofun
  success := nofun

theorem Calls.imp {B : Tid → Prop} (h : Calls A s) (hAB : ∀ t, A t ↔ B t) : Calls B s := by
  have e : A = B := funext fun t => propext (hAB t)
  exact e ▸ h

end

section

omit [DecidableEq Seg]

theorem Calls.enter (h : Calls A s) (ht : ¬ A t) : Calls (fun u => A u ∨ u = t) (s.enter t) := by
  have hcall : ∀ u, A u → (s.enter t).call u = s.call u := by
    intro u hu
    have hne : u ≠ t := fun e => ht (e ▸ hu)
    exact Function.update_of_ne hne ..
  have hseg : ∀ u, A u → (s.enter t).segment u = s.segment u := by
    intro u hu
    have hne : u ≠ t := fun e => ht (e ▸ hu)
    exact Function.update_of_ne hne ..
  have hself : (s.enter t).call t = s.calls := Function.update_self ..
  constructor
  case lt =>
    rintro u (hu | rfl)
    · rw [hcall u hu]
      exact Nat.lt_succ_of_lt (h.lt u hu)
    · rw [hself]
      exact Nat.lt_succ_self _
  case opened =>
    rintro u (hu | rfl)
    · rw [hcall u hu]
      exact h.opened u hu
    · rw [hself]
      show s.completed s.calls = none
      cases hc : s.completed s.calls with
      | none => rfl
      | some r => exact absurd (h.completed_lt _ r hc) (Nat.lt_irrefl _)
  case inj =>
    rintro u v (hu | rfl) (hv | rfl) he
    · rw [hcall u hu, hcall v hv] at he
      exact h.inj u v hu hv he
    · rw [hcall u hu, hself] at he
      have hlt := h.lt u hu
      omega
    · rw [hcall v hv, hself] at he
      have hlt := h.lt v hv
      omega
    · rfl
  case completed_lt => exact fun n r hc => Nat.lt_succ_of_lt (h.completed_lt n r hc)
  case handout_lt => exact fun x hx => Nat.lt_succ_of_lt (h.handout_lt x hx)
  case nodup => exact h.nodup
  case handed =>
    intro x hx
    rcases h.handed x hx with hc | ⟨u, hu, hcu, hsu⟩
    · exact .inl hc
    · refine .inr ⟨u, .inl hu, ?_, ?_⟩
      · rw [hcall u hu, hcu]
      · rw [hseg u hu, hsu]
  case given =>
    rintro u q (hu | rfl) hq
    · rw [hseg u hu] at hq
      rw [hcall u hu]
      exact h.given u q hu hq
    · have hnone : (s.enter u).segment u = none := Function.update_self ..
      rw [hnone] at hq
      cases hq
  case success => exact h.success

end

section

omit [DecidableEq Seg] [DecidableEq Tid]

/-- A call ends with success exactly if there is a segment. -/
theorem Calls.finish (h : Calls A s) (ht : A t) {status : Status}
    (hs : status = .successful ↔ s.segment t ≠ none) :
    Calls (fun u => A u ∧ u ≠ t) (s.finish t status) := by
  have hother : ∀ n, n ≠ s.call t → (s.finish t status).completed n = s.completed n :=
    fun n hn => Function.update_of_ne hn ..
  have hself : (s.finish t status).completed (s.call t) = some (status, s.segment t) :=
    Function.update_self ..
  constructor
  case lt => exact fun u hu => h.lt u hu.1
  case opened =>
    intro u hu
    have hne : s.call u ≠ s.call t := fun e => hu.2 (h.inj u t hu.1 ht e)
    exact (hother _ hne).trans (h.opened u hu.1)
  case inj => exact fun u v hu hv => h.inj u v hu.1 hv.1
  case completed_lt =>
    intro n r hc
    rcases eq_or_ne n (s.call t) with rfl | hn
    · exact h.lt t ht
    · rw [hother n hn] at hc
      exact h.completed_lt n r hc
  case handout_lt => exact h.handout_lt
  case nodup => exact h.nodup
  case handed =>
    intro x hx
    rcases h.handed x hx with hc | ⟨u, hu, hcu, hsu⟩
    · have hne : x.2 ≠ s.call t := by
        intro e
        rw [e, h.opened t ht] at hc
        cases hc
      exact .inl ((hother _ hne).trans hc)
    · rcases eq_or_ne u t with rfl | hne
      · left
        rw [← hcu, hself, hsu]
        rw [hs.mpr (by rw [hsu]; exact nofun)]
      · exact .inr ⟨u, ⟨hu, hne⟩, hcu, hsu⟩
  case given => exact fun u q hu => h.given u q hu.1
  case success =>
    intro n st a hc
    rcases eq_or_ne n (s.call t) with rfl | hn
    · rw [hself] at hc
      obtain ⟨rfl, rfl⟩ := Prod.mk.injEq .. ▸ Option.some.inj hc
      exact ⟨hs, fun q hq => h.given t q ht hq⟩
    · rw [hother n hn] at hc
      exact h.success n st a hc

end

section

omit [DecidableEq Seg]

theorem Calls.give (h : Calls A s) (ht : A t) (hnone : s.segment t = none) (p : Seg) (memory : H) :
    Calls A (s.give t p memory) := by
  have hother : ∀ u, u ≠ t → (s.give t p memory).segment u = s.segment u :=
    fun u hu => Function.update_of_ne hu ..
  have hself : (s.give t p memory).segment t = some p := Function.update_self ..
  have hnew : s.call t ∉ s.handouts.map Prod.snd := by
    intro hm
    obtain ⟨x, hx, hxt⟩ := List.mem_map.mp hm
    rcases h.handed x hx with hc | ⟨u, hu, hcu, hsu⟩
    · rw [hxt, h.opened t ht] at hc
      cases hc
    · rw [h.inj u t hu ht (hcu.trans hxt), hnone] at hsu
      cases hsu
  constructor
  case lt => exact h.lt
  case opened => exact h.opened
  case inj => exact h.inj
  case completed_lt => exact h.completed_lt
  case handout_lt =>
    intro x hx
    rcases List.mem_cons.mp hx with rfl | hx
    · exact h.lt t ht
    · exact h.handout_lt x hx
  case nodup => exact List.nodup_cons.mpr ⟨hnew, h.nodup⟩
  case handed =>
    intro x hx
    rcases List.mem_cons.mp hx with rfl | hx
    · exact .inr ⟨t, ht, rfl, hself⟩
    · rcases h.handed x hx with hc | ⟨u, hu, hcu, hsu⟩
      · exact .inl hc
      · have hne : u ≠ t := by
          rintro rfl
          rw [hnone] at hsu
          cases hsu
        exact .inr ⟨u, hu, hcu, (hother u hne).trans hsu⟩
  case given =>
    intro u q hu hq
    rcases eq_or_ne u t with rfl | hne
    · rw [hself] at hq
      rw [← Option.some.inj hq]
      exact List.mem_cons_self
    · rw [hother u hne] at hq
      exact List.mem_cons_of_mem _ (h.given u q hu hq)
  case success =>
    intro n status a hc
    refine ⟨(h.success n status a hc).1, ?_⟩
    intro q hq
    exact List.mem_cons_of_mem _ ((h.success n status a hc).2 q hq)

end

section

omit [DecidableEq Seg] [DecidableEq Tid]

/-- Nothing but the calls and what they got matters. -/
theorem Calls.congr (h : Calls A s) (hcall : s'.call = s.call) (hcalls : s'.calls = s.calls)
    (hcompleted : s'.completed = s.completed) (hhandouts : s'.handouts = s.handouts)
    (hsegment : s'.segment = s.segment) : Calls A s' := by
  constructor
  case lt => rw [hcall, hcalls]; exact h.lt
  case opened => rw [hcall, hcompleted]; exact h.opened
  case inj => rw [hcall]; exact h.inj
  case completed_lt => rw [hcompleted, hcalls]; exact h.completed_lt
  case handout_lt => rw [hhandouts, hcalls]; exact h.handout_lt
  case nodup => rw [hhandouts]; exact h.nodup
  case handed => rw [hhandouts, hcompleted, hcall, hsegment]; exact h.handed
  case given => rw [hsegment, hcall, hhandouts]; exact h.given
  case success => rw [hcompleted, hhandouts]; exact h.success

/-! ## The return codes -/

/-- `_Region_Process_queue` is serving the thread. -/
def Busy (s : State Tid Seg H) (t : Tid) : Prop :=
  s.process = some (.extract t) ∨ s.process = some (.code t)

/-- A thread that waits has nothing yet and can only time out, and a thread on its way back
carries success exactly if it has a segment. -/
structure Codes (s : State Tid Seg H) : Prop where
  empty : ∀ t ∈ s.waitQueue.queue, s.process ≠ some (.extract t) → s.segment t = none
  expires : ∀ t ∈ s.waitQueue.queue, ∀ c, s.waitQueue.timeoutCode t = some c → c = .timeout
  returning : ∀ t ∈ s.waitQueue.released, ¬ Busy s t →
    (s.waitQueue.returnCode t = .successful ↔ s.segment t ≠ none)
  busy : ∀ t, Busy s t → s.segment t ≠ none
  allocate : ∀ t, s.process = some (.allocate t) → ¬ s.waitQueue.Idle t ∧ s.segment t = none
  extract : ∀ t, s.process = some (.extract t) → ¬ s.waitQueue.Idle t
  code : ∀ t, s.process = some (.code t) → t ∈ s.waitQueue.released

theorem Codes.start (memory : H) (length maximum : Nat) :
    Codes (Region.start memory length maximum : State Tid Seg H) where
  empty := nofun
  expires := nofun
  returning := nofun
  busy := by
    rintro t (h | h)
    · cases h
    · cases h
  allocate := nofun
  extract := nofun
  code := nofun

/-- `_Region_Process_queue` has not picked a thread. -/
def Unpicked (s : State Tid Seg H) : Prop := s.process = none ∨ s.process = some .first

theorem Unpicked.not_busy (h : Unpicked s) (t : Tid) : ¬ Busy s t := by
  rintro (hb | hb)
  · rcases h with h | h <;> cases h.symm.trans hb
  · rcases h with h | h <;> cases h.symm.trans hb

theorem Unpicked.not_allocate (h : Unpicked s) (t : Tid) : s.process ≠ some (.allocate t) := by
  intro ha
  rcases h with h | h <;> cases h.symm.trans ha

/-- While no thread is being served, only the threads in a call matter. -/
theorem Codes.congr (h : Codes s) (hw : s'.waitQueue = s.waitQueue)
    (hs : ∀ t, ¬ s.waitQueue.Idle t → s'.segment t = s.segment t)
    (hu : Unpicked s) (hu' : Unpicked s') : Codes s' := by
  have hb := hu.not_busy
  have hb' := hu'.not_busy
  have hin : ∀ t, t ∈ s.waitQueue.queue → s'.segment t = s.segment t :=
    fun t ht => hs t fun hi => hi.1 ht
  constructor
  case empty =>
    intro t ht _
    rw [hw] at ht
    rw [hin t ht]
    exact h.empty t ht fun e => hb t (.inl e)
  case expires =>
    rw [hw]
    exact h.expires
  case returning =>
    intro t ht _
    rw [hw] at ht ⊢
    rw [hs t fun hi => hi.2 ht]
    exact h.returning t ht (hb t)
  case busy => exact fun t ht => absurd ht (hb' t)
  case allocate => exact fun t ht => absurd ht (hu'.not_allocate t)
  case extract => exact fun t ht => absurd (.inl ht) (hb' t)
  case code => exact fun t ht => absurd (.inr ht) (hb' t)

end

section

omit [DecidableEq Seg]

theorem Codes.enqueue (h : Codes s) (hp : s.process = none) (ht : s.segment t = none)
    (count : Tid → Nat) (timeout : Nat) :
    Codes { s with
      count := count
      waitQueue := s.waitQueue.enqueueCritical d prio t
        (if timeout ≠ 0 then some .timeout else none) } := by
  constructor
  case empty =>
    intro u hu hne
    rcases Waiters.mem_enqueueCritical.mp hu with rfl | hu
    · exact ht
    · exact h.empty u hu hne
  case expires =>
    intro u hu c hc
    rcases eq_or_ne u t with rfl | hne
    · simp only [Waiters.enqueueCritical, Function.update_self] at hc
      split at hc
      next => exact (Option.some.inj hc).symm
      next => cases hc
    · have hu := (Waiters.mem_enqueueCritical.mp hu).resolve_left hne
      simp only [Waiters.enqueueCritical, Function.update_of_ne hne] at hc
      exact h.expires u hu c hc
  case returning => exact h.returning
  case busy => exact h.busy
  case allocate => exact fun u hu => absurd hu (Unpicked.not_allocate (.inl hp) u)
  case extract =>
    intro u hu
    rw [show s.process = some (.extract u) from hu] at hp
    cases hp
  case code => exact h.code

end

section

omit [DecidableEq Seg] [DecidableEq Tid]

theorem Codes.processFirst (h : Codes s) (hp : s.process = some .first) :
    Codes (Region.processFirst s) := by
  have hb := Unpicked.not_busy (s := s) (.inr hp)
  unfold Region.processFirst
  cases hf : s.waitQueue.firstLocked with
  | none => exact h.congr rfl (fun _ _ => rfl) (.inr hp) (.inl rfl)
  | some t =>
    have ht : t ∈ s.waitQueue.queue := List.mem_of_mem_head? hf
    constructor
    case empty => exact fun u hu _ => h.empty u hu fun e => hb u (.inl e)
    case expires => exact h.expires
    case returning => exact fun u hu _ => h.returning u hu (hb u)
    case busy =>
      rintro u (hu | hu)
      · cases hu
      · cases hu
    case allocate =>
      intro u hu
      cases hu
      exact ⟨fun hi => hi.1 ht, h.empty t ht fun e => hb t (.inl e)⟩
    case extract => exact nofun
    case code => exact nofun

end

section

omit [DecidableEq Seg]

theorem Codes.processAllocate (h : Codes s) (hp : s.process = some (.allocate t)) :
    Codes (Region.processAllocate heap s t) := by
  have hb : ∀ u, ¬ Busy s u := by
    rintro u (hu | hu)
    · rw [hp] at hu
      cases hu
    · rw [hp] at hu
      cases hu
  obtain ⟨hcall, -⟩ := h.allocate t hp
  have hempty : ∀ u ∈ s.waitQueue.queue, s.segment u = none :=
    fun u hu => h.empty u hu fun e => hb u (.inl e)
  unfold Region.processAllocate
  cases ha : heap.allocate s.memory (s.count t) with
  | none =>
    constructor
    case empty => exact fun u hu _ => hempty u hu
    case expires => exact h.expires
    case returning => exact fun u hu _ => h.returning u hu (hb u)
    case busy => exact fun u hu => absurd hu (Unpicked.not_busy (.inl rfl) u)
    case allocate => exact nofun
    case extract => exact nofun
    case code => exact nofun
  | some r =>
    obtain ⟨p, memory⟩ := r
    have hself : (s.give t p memory).segment t = some p := Function.update_self ..
    have hother : ∀ u, u ≠ t → (s.give t p memory).segment u = s.segment u :=
      fun u hu => Function.update_of_ne hu ..
    constructor
    case empty =>
      intro u hu hne
      have hut : u ≠ t := fun e => hne (by rw [e])
      exact (hother u hut).trans (hempty u hu)
    case expires => exact h.expires
    case returning =>
      intro u hu hnb
      have hut : u ≠ t := fun e => hnb (.inl (by rw [e]))
      show s.waitQueue.returnCode u = .successful ↔ (s.give t p memory).segment u ≠ none
      rw [hother u hut]
      exact h.returning u hu (hb u)
    case busy =>
      rintro u (hu | hu)
      · cases hu
        show (s.give t p memory).segment t ≠ none
        rw [hself]
        exact nofun
      · cases hu
    case allocate => exact nofun
    case extract =>
      intro u hu
      cases hu
      exact hcall
    case code => exact nofun

theorem Codes.processExtract (h : Codes s) (hw : s.waitQueue.Inv d prio)
    (hp : s.process = some (.extract t)) : Codes (Region.processExtract d s t) := by
  have hbusy : ∀ u, Busy (Region.processExtract d s t) u → u = t := by
    rintro u (hu | hu)
    · cases hu
    · cases hu
      rfl
  have hrel : t ∈ (s.waitQueue.extract d t).released := by
    unfold Waiters.extract
    split
    next => exact List.mem_cons_self
    next hnot =>
      by_contra hr
      exact h.extract t hp ⟨hnot, hr⟩
  have hqueue : ∀ u ∈ (s.waitQueue.extract d t).queue, u ≠ t ∧ u ∈ s.waitQueue.queue := by
    intro u hu
    unfold Waiters.extract at hu
    split at hu
    next =>
      rw [Waiters.extractCritical_queue] at hu
      exact hw.queue_nodup.mem_erase_iff.mp hu
    next hnot => exact ⟨fun e => hnot (e ▸ hu), hu⟩
  have hreleased : ∀ u ∈ (s.waitQueue.extract d t).released, u = t ∨ u ∈ s.waitQueue.released := by
    intro u hu
    unfold Waiters.extract at hu
    split at hu
    next => exact List.mem_cons.mp hu
    next => exact .inr hu
  have hcode : (s.waitQueue.extract d t).returnCode = s.waitQueue.returnCode := by
    unfold Waiters.extract
    split <;> rfl
  have htimeout : (s.waitQueue.extract d t).timeoutCode = s.waitQueue.timeoutCode := by
    unfold Waiters.extract
    split <;> rfl
  constructor
  case empty =>
    intro u hu _
    obtain ⟨hne, hu⟩ := hqueue u hu
    refine h.empty u hu ?_
    rw [hp]
    intro e
    cases e
    exact hne rfl
  case expires =>
    intro u hu c hc
    change (s.waitQueue.extract d t).timeoutCode u = some c at hc
    rw [htimeout] at hc
    exact h.expires u (hqueue u hu).2 c hc
  case returning =>
    intro u hu hnb
    have hut : u ≠ t := fun e => hnb (.inr (by rw [e]; rfl))
    show (s.waitQueue.extract d t).returnCode u = .successful ↔ s.segment u ≠ none
    rw [hcode]
    refine h.returning u ((hreleased u hu).resolve_left hut) ?_
    rintro (hb | hb)
    · rw [hp] at hb
      cases hb
      exact hut rfl
    · rw [hp] at hb
      cases hb
  case busy =>
    intro u hu
    rw [hbusy u hu]
    exact h.busy t (.inl hp)
  case allocate => exact nofun
  case extract => exact nofun
  case code =>
    intro u hu
    rw [hbusy u (.inr hu)]
    exact hrel

theorem Codes.processCode (h : Codes s) (hp : s.process = some (.code t)) :
    Codes (Region.processCode s t) := by
  have hb := Unpicked.not_busy (s := Region.processCode s t) (.inr rfl)
  constructor
  case empty =>
    intro u hu _
    refine h.empty u hu ?_
    rw [hp]
    exact nofun
  case expires => exact h.expires
  case returning =>
    intro u hu _
    show (s.waitQueue.setReturnCode t .successful).returnCode u = .successful ↔ s.segment u ≠ none
    rcases eq_or_ne u t with rfl | hne
    · rw [Waiters.setReturnCode_self]
      exact ⟨fun _ => h.busy u (.inr hp), fun _ => rfl⟩
    · rw [Waiters.setReturnCode_of_ne _ hne]
      refine h.returning u hu ?_
      rintro (hb | hb)
      · rw [hp] at hb
        cases hb
      · rw [hp] at hb
        cases hb
        exact hne rfl
  case busy => exact fun u hu => absurd hu (hb u)
  case allocate => exact nofun
  case extract => exact nofun
  case code => exact nofun

/-- A thread that leaves the queue stays in its call. -/
theorem idle_extractCritical {w : Waiters Tid Status} (hw : w.Inv d prio) (ht : t ∈ w.queue)
    (u : Tid) : (w.extractCritical d t).Idle u ↔ w.Idle u := by
  simp only [Waiters.Idle, Waiters.extractCritical_queue, Waiters.extractCritical_released,
    List.mem_cons, hw.queue_nodup.mem_erase_iff]
  rcases eq_or_ne u t with rfl | hne
  · simp [ht]
  · simp [hne]

/-- A thread that times out takes the code for it along, unless it has been served. -/
theorem Codes.threadTimeout (h : Codes s) (hw : s.waitQueue.Inv d prio) (t : Tid) :
    Codes { s with waitQueue := s.waitQueue.timeout d t } := by
  rcases Waiters.timeout_cases d s.waitQueue t with e | ⟨c, ht, hc, e⟩
  · rw [e]
    exact h
  · obtain rfl := h.expires t ht c hc
    rw [e]
    have hqueue : ∀ u ∈ (s.waitQueue.queue.erase t), u ≠ t ∧ u ∈ s.waitQueue.queue :=
      fun u hu => hw.queue_nodup.mem_erase_iff.mp hu
    have hin : ∀ u, ¬ s.waitQueue.Idle u →
        ¬ ((s.waitQueue.setReturnCode t .timeout).extractCritical d t).Idle u :=
      fun u hu hi => hu ((idle_extractCritical (hw.setReturnCode t .timeout) ht u).mp hi)
    constructor
    case empty =>
      intro u hu hne
      rw [Waiters.extractCritical_queue] at hu
      exact h.empty u (hqueue u hu).2 hne
    case expires =>
      intro u hu
      rw [Waiters.extractCritical_queue] at hu
      exact h.expires u (hqueue u hu).2
    case returning =>
      intro u hu hnb
      show (s.waitQueue.setReturnCode t .timeout).returnCode u = .successful ↔ s.segment u ≠ none
      rcases eq_or_ne u t with rfl | hne
      · rw [Waiters.setReturnCode_self, h.empty u ht fun he => hnb (.inl he)]
        exact ⟨nofun, fun hn => absurd rfl hn⟩
      · rw [Waiters.setReturnCode_of_ne _ hne]
        exact h.returning u ((List.mem_cons.mp hu).resolve_left hne) hnb
    case busy => exact h.busy
    case allocate =>
      intro u hu
      exact ⟨hin u (h.allocate u hu).1, (h.allocate u hu).2⟩
    case extract => exact fun u hu => hin u (h.extract u hu)
    case code => exact fun u hu => List.mem_cons_of_mem _ (h.code u hu)

theorem Codes.resume (h : Codes s) (hp : s.process = none) (t : Tid) :
    Codes { s with waitQueue := s.waitQueue.resume t } := by
  have hb := Unpicked.not_busy (s := s) (.inl hp)
  constructor
  case empty => exact h.empty
  case expires => exact h.expires
  case returning => exact fun u hu _ => h.returning u (List.mem_of_mem_erase hu) (hb u)
  case busy => exact fun u hu => absurd hu (hb u)
  case allocate => exact fun u hu => absurd hu (Unpicked.not_allocate (.inl hp) u)
  case extract => exact fun u hu => absurd (.inl hu) (hb u)
  case code => exact fun u hu => absurd (.inr hu) (hb u)

end

/-! ## Runs -/

/-- What holds of a region in every run. -/
structure Inv (heap : Heap H Seg) (d : Discipline) (prio : Tid → Priority) (s : State Tid Seg H) :
    Prop where
  waiters : s.waitQueue.Inv d prio
  books : Books heap s
  calls : Calls (fun t => ¬ s.waitQueue.Idle t) s
  codes : Codes s

section

omit [DecidableEq Seg] [DecidableEq Tid]

theorem Inv.start {memory : H} (h : heap.live memory = ∅) (length maximum : Nat) :
    Inv heap d prio (Region.start memory length maximum : State Tid Seg H) where
  waiters := .start _
  books := .start h length maximum
  calls := .start memory length maximum fun _ ht => ht ⟨List.not_mem_nil, List.not_mem_nil⟩
  codes := .start memory length maximum

/-- The calls of the other threads, when an idle thread has called and is back. -/
theorem Calls.imp_idle (h : Calls (fun u => (¬ s.waitQueue.Idle u ∨ u = t) ∧ u ≠ t) s')
    (ht : s.waitQueue.Idle t) : Calls (fun u => ¬ s.waitQueue.Idle u) s' := by
  refine h.imp ?_
  intro u
  constructor
  · rintro ⟨hu, hne⟩
    exact hu.resolve_right hne
  · intro hu
    exact ⟨.inl hu, fun e => hu (e ▸ ht)⟩

end

section

omit [DecidableEq Seg]

/-- What a call of `rtems_region_get_segment` does: it fails, it gets a segment, or it waits. -/
theorem getSegment_cases (heap : Heap H Seg) (d : Discipline) (prio : Tid → Priority)
    (s : State Tid Seg H) (t : Tid) (segment : Bool) (size : Nat) (noWait : Bool) (timeout : Nat) :
    (∃ status, status ≠ .successful ∧
      getSegment heap d prio s t segment size noWait timeout = (s.enter t).finish t status) ∨
    (∃ p memory, heap.allocate s.memory size = some (p, memory) ∧
      getSegment heap d prio s t segment size noWait timeout =
        ((s.enter t).give t p memory).finish t .successful) ∨
    (heap.allocate s.memory size = none ∧
      getSegment heap d prio s t segment size noWait timeout =
        { s.enter t with
          count := Function.update s.count t size
          waitQueue := s.waitQueue.enqueueCritical d prio t
            (if timeout ≠ 0 then some .timeout else none) }) := by
  have hmemory : (s.enter t).memory = s.memory := rfl
  unfold getSegment
  dsimp only
  rw [hmemory]
  split
  next => exact .inl ⟨.invalidAddress, nofun, rfl⟩
  next =>
    split
    next => exact .inl ⟨.invalidSize, nofun, rfl⟩
    next =>
      split
      next => exact .inl ⟨.invalidSize, nofun, rfl⟩
      next =>
        cases ha : heap.allocate s.memory size with
        | some r => exact .inr (.inl ⟨r.1, r.2, rfl, rfl⟩)
        | none =>
          dsimp only
          split
          next => exact .inl ⟨.unsatisfied, nofun, rfl⟩
          next => exact .inr (.inr ⟨rfl, rfl⟩)

end

theorem Inv.getSegment (hl : heap.Lawful) (h : Inv heap d prio s) (hp : s.process = none)
    (ht : s.waitQueue.Idle t) (segment : Bool) (size : Nat) (noWait : Bool) (timeout : Nat) :
    Inv heap d prio (Region.getSegment heap d prio s t segment size noWait timeout) := by
  have hnot : ¬ ¬ s.waitQueue.Idle t := not_not_intro ht
  have henter := h.calls.enter hnot
  have hnone : (s.enter t).segment t = none := Function.update_self ..
  have hsegment : ∀ u, ¬ s.waitQueue.Idle u → (s.enter t).segment u = s.segment u := by
    intro u hu
    have hne : u ≠ t := fun e => hu (e ▸ ht)
    exact Function.update_of_ne hne ..
  rcases getSegment_cases heap d prio s t segment size noWait timeout with
    ⟨status, hs, e⟩ | ⟨p, memory, ha, e⟩ | ⟨ha, e⟩
  · rw [e]
    constructor
    case waiters => exact h.waiters
    case books => exact h.books.congr rfl rfl rfl rfl
    case calls =>
      refine (henter.finish (.inr rfl) ?_).imp_idle ht
      rw [hnone]
      exact ⟨fun hst => absurd hst hs, fun hn => absurd rfl hn⟩
    case codes => exact h.codes.congr rfl hsegment (.inl hp) (.inl hp)
  · rw [e]
    constructor
    case waiters => exact h.waiters
    case books =>
      have hbooks : Books heap (s.enter t) := h.books.congr rfl rfl rfl rfl
      exact (hbooks.give hl ha).congr rfl rfl rfl rfl
    case calls =>
      refine ((henter.give (.inr rfl) hnone p memory).finish (.inr rfl) ?_).imp_idle ht
      have hself : ((s.enter t).give t p memory).segment t = some p := Function.update_self ..
      rw [hself]
      exact ⟨fun _ => nofun, fun _ => rfl⟩
    case codes =>
      refine h.codes.congr rfl ?_ (.inl hp) (.inl hp)
      intro u hu
      have hne : u ≠ t := fun e => hu (e ▸ ht)
      exact (Function.update_of_ne hne ..).trans (hsegment u hu)
  · rw [e]
    constructor
    case waiters => exact h.waiters.enqueueCritical ht _
    case books => exact h.books.congr rfl rfl rfl rfl
    case calls =>
      refine (henter.imp ?_).congr rfl rfl rfl rfl rfl
      intro u
      have hmem : u ∈ (s.waitQueue.enqueueCritical d prio t
          (if timeout ≠ 0 then some .timeout else none)).queue ↔ u = t ∨ u ∈ s.waitQueue.queue :=
        Waiters.mem_enqueueCritical
      simp only [Waiters.Idle, hmem, Waiters.enqueueCritical_released]
      tauto
    case codes =>
      have hcodes : Codes (s.enter t) := h.codes.congr rfl hsegment (.inl hp) (.inl hp)
      exact hcodes.enqueue hp hnone _ timeout

section

omit [DecidableEq Seg] [DecidableEq Tid]

theorem Inv.processFirst (h : Inv heap d prio s) (hp : s.process = some .first) :
    Inv heap d prio (Region.processFirst s) := by
  have hcodes := h.codes.processFirst hp
  unfold Region.processFirst at hcodes ⊢
  split
  next hf =>
    rw [hf] at hcodes
    exact ⟨h.waiters, h.books.congr rfl rfl rfl rfl, h.calls.congr rfl rfl rfl rfl rfl, hcodes⟩
  next t hf =>
    rw [hf] at hcodes
    exact ⟨h.waiters, h.books.congr rfl rfl rfl rfl, h.calls.congr rfl rfl rfl rfl rfl, hcodes⟩

end

theorem Inv.processAllocate (hl : heap.Lawful) (h : Inv heap d prio s)
    (hp : s.process = some (.allocate t)) :
    Inv heap d prio (Region.processAllocate heap s t) := by
  have hcodes : Codes (Region.processAllocate heap s t) := h.codes.processAllocate hp
  unfold Region.processAllocate at hcodes ⊢
  cases ha : heap.allocate s.memory (s.count t) with
  | none =>
    rw [ha] at hcodes
    exact ⟨h.waiters, h.books.congr rfl rfl rfl rfl, h.calls.congr rfl rfl rfl rfl rfl, hcodes⟩
  | some r =>
    obtain ⟨p, memory⟩ := r
    rw [ha] at hcodes
    obtain ⟨hcall, hnone⟩ := h.codes.allocate t hp
    have hcalls := h.calls.give hcall hnone p memory
    exact ⟨h.waiters, (h.books.give hl ha).congr rfl rfl rfl rfl,
      hcalls.congr rfl rfl rfl rfl rfl, hcodes⟩

section

omit [DecidableEq Seg]

theorem Inv.processExtract (h : Inv heap d prio s) (hp : s.process = some (.extract t)) :
    Inv heap d prio (Region.processExtract d s t) := by
  have hcodes := h.codes.processExtract h.waiters hp
  have hidle : ∀ u, (s.waitQueue.extract d t).Idle u ↔ s.waitQueue.Idle u := by
    intro u
    unfold Waiters.extract
    split
    next ht => exact idle_extractCritical h.waiters ht u
    next => exact Iff.rfl
  constructor
  case waiters =>
    show (s.waitQueue.extract d t).Inv d prio
    unfold Waiters.extract
    split
    next ht => exact h.waiters.extractCritical ht
    next => exact h.waiters
  case books => exact h.books.congr rfl rfl rfl rfl
  case calls =>
    refine (h.calls.imp ?_).congr rfl rfl rfl rfl rfl
    intro u
    exact not_congr (hidle u).symm
  case codes => exact hcodes

theorem Inv.threadTimeout (h : Inv heap d prio s) (t : Tid) :
    Inv heap d prio { s with waitQueue := s.waitQueue.timeout d t } := by
  have hidle : ∀ u, (s.waitQueue.timeout d t).Idle u ↔ s.waitQueue.Idle u := by
    intro u
    rcases Waiters.timeout_cases d s.waitQueue t with e | ⟨c, ht, -, e⟩
    · rw [e]
    · rw [e]
      exact idle_extractCritical (h.waiters.setReturnCode t c) ht u
  constructor
  case waiters => exact h.waiters.timeout t
  case books => exact h.books.congr rfl rfl rfl rfl
  case calls =>
    refine (h.calls.imp ?_).congr rfl rfl rfl rfl rfl
    intro u
    exact not_congr (hidle u).symm
  case codes => exact h.codes.threadTimeout h.waiters t

theorem Inv.complete (h : Inv heap d prio s) (hp : s.process = none)
    (ht : t ∈ s.waitQueue.released) :
    Inv heap d prio ({ s with waitQueue := s.waitQueue.resume t }.finish t
      (s.waitQueue.returnCode t)) := by
  have hcodes := h.codes.resume hp t
  constructor
  case waiters => exact h.waiters.resume t
  case books => exact h.books.congr rfl rfl rfl rfl
  case calls =>
    have hcalls : Calls (fun u => ¬ s.waitQueue.Idle u)
        { s with waitQueue := s.waitQueue.resume t } := h.calls.congr rfl rfl rfl rfl rfl
    have hnot : ¬ s.waitQueue.Idle t := fun hi => hi.2 ht
    have hb : ¬ Busy s t := Unpicked.not_busy (.inl hp) t
    refine (hcalls.finish hnot (h.codes.returning t ht hb)).imp ?_
    intro u
    show ¬ s.waitQueue.Idle u ∧ u ≠ t ↔ ¬ (s.waitQueue.resume t).Idle u
    have hqueue : t ∉ s.waitQueue.queue := fun hq => h.waiters.not_mem_released hq ht
    simp only [Waiters.Idle, Waiters.resume, h.waiters.released_nodup.mem_erase_iff]
    rcases eq_or_ne u t with rfl | hne
    · simp [hqueue]
    · simp [hne]
  case codes => exact hcodes.congr rfl (fun _ _ => rfl) (.inl hp) (.inl hp)

end

theorem Inv.apply (hl : heap.Lawful) (h : Inv heap d prio s) {e : Event Tid Seg}
    (he : e.Enabled heap s) : Inv heap d prio (e.apply heap d prio s) := by
  cases e with
  | getSegment t segment size noWait timeout =>
    exact h.getSegment hl he.1 he.2 segment size noWait timeout
  | returnSegment p =>
    have hbooks := h.books.returnSegment hl he.2
    show Inv heap d prio (Region.returnSegment heap s p).2
    unfold Region.returnSegment at hbooks ⊢
    cases hf : heap.free s.memory p with
    | none => exact h
    | some memory =>
      rw [hf] at hbooks
      exact ⟨h.waiters, hbooks, h.calls.congr rfl rfl rfl rfl rfl,
        h.codes.congr rfl (fun _ _ => rfl) (.inl he.1) (.inr rfl)⟩
  | resizeSegment p size =>
    have hmem : heap.live (heap.resizeBlock s.memory p size).2 = heap.live s.memory := by
      rcases he.2 with hin | hfail
      · exact hl.resize_live ((h.books.live p).mp hin)
      · rw [hl.resize_failed hfail]
    show Inv heap d prio (Region.resizeSegment heap s p size).2
    unfold Region.resizeSegment
    split
    next memory hr =>
      rw [hr] at hmem
      exact ⟨h.waiters, h.books.congr rfl rfl rfl hmem, h.calls.congr rfl rfl rfl rfl rfl,
        h.codes.congr rfl (fun _ _ => rfl) (.inl he.1) (.inr rfl)⟩
    next memory hr =>
      rw [hr] at hmem
      exact ⟨h.waiters, h.books.congr rfl rfl rfl hmem, h.calls.congr rfl rfl rfl rfl rfl,
        h.codes.congr rfl (fun _ _ => rfl) (.inl he.1) (.inl he.1)⟩
    next memory hr =>
      rw [hr] at hmem
      exact ⟨h.waiters, h.books.congr rfl rfl rfl hmem, h.calls.congr rfl rfl rfl rfl rfl,
        h.codes.congr rfl (fun _ _ => rfl) (.inl he.1) (.inl he.1)⟩
  | extend startingAddress length =>
    show Inv heap d prio (Region.extend heap s startingAddress length).2
    unfold Region.extend
    split
    next => exact h
    next =>
      simp only
      split
      next =>
        exact ⟨h.waiters, h.books.congr rfl rfl rfl hl.extend_live,
          h.calls.congr rfl rfl rfl rfl rfl,
          h.codes.congr rfl (fun _ _ => rfl) (.inl he) (.inl he)⟩
      next =>
        exact ⟨h.waiters, h.books.congr rfl rfl rfl hl.extend_live,
          h.calls.congr rfl rfl rfl rfl rfl,
          h.codes.congr rfl (fun _ _ => rfl) (.inl he) (.inl he)⟩
  | processFirst => exact h.processFirst he
  | processAllocate t => exact h.processAllocate hl he
  | processExtract t => exact h.processExtract he
  | processCode t =>
    exact ⟨h.waiters.setReturnCode t _, h.books.congr rfl rfl rfl rfl,
      h.calls.congr rfl rfl rfl rfl rfl, h.codes.processCode he⟩
  | threadTimeout t => exact h.threadTimeout t
  | complete t => exact h.complete he.1 he.2

end Rtems.Region
