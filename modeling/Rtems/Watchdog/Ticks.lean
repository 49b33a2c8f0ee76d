import Rtems.Watchdog.Chain
import Rtems.Watchdog.Model

/-!
# The chain over whole runs

Between the operations the sums of the delta intervals are the ticks that
remain, and the history is timely.  Every operation keeps this, the loops of
`_Watchdog_Tickle` and `_Watchdog_Adjust_forward` with the service routines
included.
-/

namespace Rtems.Watchdog

variable {Wid : Type} [DecidableEq Wid] {s s' : State Wid} {w v : Wid} {pre post : List Wid}
  {base : Wid → Option Int}

/-! ## The times of a header -/

/-- The chain holds the active watchdogs, at the times that remain for them. -/
structure Header (base : Wid → Option Int) (s : State Wid) : Prop where
  nodup : s.watchdogs.Nodup
  active : ∀ w, w ∈ s.watchdogs ↔ (s.controls w).state = .active
  timed : Timed (remaining base s.history) s.delta 0 s.watchdogs
  bound : ∀ w ∈ s.watchdogs, ∀ k, remaining base s.history w = some k → k < 2 ^ 32

theorem Header.link {n : Nat} {k : Int} (h : Header base s) (hl : Linked s s' w n pre post)
    (hw : w ∉ s.watchdogs)
    (hr : ∀ x, x ≠ w → remaining base s'.history x = remaining base s.history x)
    (hk : remaining base s'.history w = some k) (hn : k.toNat = (pre.map s.delta).sum + n)
    (hlt : k < 2 ^ 32) : Header base s' := by
  have hmem : ∀ x, x ∈ s'.watchdogs ↔ x = w ∨ x ∈ s.watchdogs := by
    intro x
    rw [hl.chain, hl.chain', List.mem_append, List.mem_cons, List.mem_append]
    exact or_left_comm
  refine ⟨?_, fun x => ?_, hl.timed h.nodup hw h.timed hr hk hn, fun x hx j hj => ?_⟩
  · rw [hl.chain', List.nodup_middle, List.nodup_cons, ← hl.chain]
    exact ⟨hw, h.nodup⟩
  · rw [hmem]
    rcases eq_or_ne x w with rfl | hne
    · exact ⟨fun _ => hl.state_self, fun _ => .inl rfl⟩
    · rw [hl.state_other x hne, ← h.active x]
      exact ⟨fun hx => hx.resolve_left hne, .inr⟩
  · rcases eq_or_ne x w with rfl | hne
    · rw [hk] at hj
      exact Option.some.inj hj ▸ hlt
    · rw [hr x hne] at hj
      exact h.bound x (((hmem x).mp hx).resolve_left hne) j hj

theorem Header.unlink (h : Header base s) (hu : Unlinked s s' w pre post)
    (hr : ∀ x, x ≠ w → remaining base s'.history x = remaining base s.history x) :
    Header base s' := by
  have hnd := h.nodup
  rw [hu.chain, List.nodup_middle, List.nodup_cons] at hnd
  have hmem : ∀ x, x ∈ s'.watchdogs ↔ x ≠ w ∧ x ∈ s.watchdogs := by
    intro x
    rw [hu.chain, hu.chain', List.mem_append, List.mem_append, List.mem_cons]
    constructor
    · intro hx
      refine ⟨?_, hx.imp_right .inr⟩
      rintro rfl
      exact hnd.1 (List.mem_append.mpr hx)
    · rintro ⟨hne, hx⟩
      exact hx.imp_right fun hx => hx.resolve_left hne
  refine ⟨hu.chain' ▸ hnd.2, fun x => ?_, hu.timed h.nodup h.timed h.bound hr, fun x hx j hj => ?_⟩
  · rw [hmem]
    rcases eq_or_ne x w with rfl | hne
    · rw [hu.state_self]
      exact ⟨fun hx => absurd rfl hx.1, fun hx => by cases hx⟩
    · rw [hu.state_other x hne, ← h.active x]
      exact and_iff_right hne
  · rw [hr x ((hmem x).mp hx).1] at hj
    exact h.bound x ((hmem x).mp hx).2 j hj

/-- A change of the initial interval of a watchdog. -/
theorem Header.setInitial (h : Header base s) (n : Nat) :
    Header base (s.onControl w fun c => { c with initial := n }) := by
  have hctl : ∀ x, ((s.onControl w fun c => { c with initial := n }).controls x).state =
      (s.controls x).state ∧
      (s.onControl w fun c => { c with initial := n }).delta x = s.delta x := by
    intro x
    rw [State.delta, State.delta]
    rcases eq_or_ne x w with rfl | hne
    · rw [onControl_self]
      exact ⟨rfl, rfl⟩
    · rw [onControl_other _ hne]
      exact ⟨rfl, rfl⟩
  refine ⟨h.nodup, fun x => ?_, h.timed.congr (fun _ _ => rfl) fun x _ => (hctl x).2, h.bound⟩
  rw [(hctl x).1]
  exact h.active x

/-! ## Between the operations -/

/-- The header with no insertion under way, and a timely history. -/
structure Inv (s : State Wid) : Prop where
  header : Header (fun _ => none) s
  iterators : s.iterators = []
  settled : ∀ w, (s.controls w).state ≠ .beingInserted
  known : ∀ w k, left s.history w = some k → w ∈ s.watchdogs
  nonneg : ∀ w k, left s.history w = some k → 0 ≤ k
  order : s.watchdogs.Pairwise fun v w => left s.history v = left s.history w →
    insertedAt s.history v < insertedAt s.history w
  timely : Timely s.history

/-- No watchdog is due. -/
def NoneDue (s : State Wid) : Prop := ∀ w k, left s.history w = some k → 0 < k

theorem Inv.left_none (h : Inv s) (hw : w ∉ s.watchdogs) : left s.history w = none := by
  cases hl : left s.history w with
  | none => rfl
  | some k => exact absurd (h.known w k hl) hw

/-- The watchdogs behind one that is not due have more ticks left. -/
theorem Inv.left_post (h : Inv s) (hc : s.watchdogs = pre ++ post) {x : Wid}
    (hx : x ∈ post.head?) (hv : v ∈ post) : ∃ k, left s.history v = some k ∧
      ((pre.map s.delta).sum + s.delta x : Int) ≤ k := by
  have ht := h.header.timed
  rw [hc, timed_append] at ht
  cases post with
  | nil => cases hv
  | cons y ys =>
    obtain rfl := Option.some.inj hx
    obtain ⟨⟨j, hj, hb⟩, hys⟩ := ht.2
    have hnn := h.nonneg
    rcases List.mem_cons.mp hv with rfl | hv
    · exact ⟨j, hj, by have := hnn _ _ hj; omega⟩
    · obtain ⟨k, hk, hle⟩ := hys.mem hv
      exact ⟨k, hk, by have := hnn _ _ hk; omega⟩

/-! ## Insert and remove -/

theorem Inv.setInitial (h : Inv s) (n : Nat) :
    Inv (s.onControl w fun c => { c with initial := n }) where
  header := h.header.setInitial n
  iterators := h.iterators
  settled x := by
    rcases eq_or_ne x w with rfl | hne
    · rw [onControl_self]
      exact h.settled x
    · rw [onControl_other _ hne]
      exact h.settled x
  known := h.known
  nonneg := h.nonneg
  order := h.order
  timely := h.timely

theorem left_inserted (h : List (Event Wid)) (n : Nat) (x : Wid) :
    left (.inserted w n :: h) x = if w = x then some (n : Int) else left h x := rfl

theorem Inv.insert (h : Inv s) (hlt : (s.controls w).initial < 2 ^ 32)
    (hs : (s.controls w).state = .inactive) : Inv (insert s w) := by
  have hw : w ∉ s.watchdogs := by
    rw [h.header.active, hs]
    exact nofun
  have hnone : left s.history w = none := by
    cases hk : left s.history w with
    | none => rfl
    | some k => exact absurd (h.known w k hk) hw
  obtain ⟨δ, pre, post, hl, hsum, hh, hit⟩ := insert_spec h.header.nodup hw hs
  have hself : left (Watchdog.insert s w).history w = some ((s.controls w).initial : Int) := by
    rw [hh, left_inserted, if_pos rfl]
  have hother : ∀ x, x ≠ w → left (Watchdog.insert s w).history x = left s.history x := by
    intro x hx
    rw [hh, left_inserted, if_neg hx.symm]
  have hat : ∀ x, insertedAt (Watchdog.insert s w).history x =
      if w = x then s.history.length + 1 else insertedAt s.history x := by
    intro x
    rw [hh]
    rfl
  refine
    { header := h.header.link hl hw hother hself (by omega) (by omega)
      iterators := by rw [hit, h.iterators]; rfl
      settled := fun x => ?_
      known := fun x k hk => ?_
      nonneg := fun x k hk => ?_
      order := ?_
      timely := by rw [hh]; exact ⟨hnone, h.timely⟩ }
  · rcases eq_or_ne x w with rfl | hne
    · rw [hl.state_self]
      exact nofun
    · rw [hl.state_other x hne]
      exact h.settled x
  · rw [hl.chain', List.mem_append, List.mem_cons]
    rcases eq_or_ne x w with rfl | hne
    · exact .inr (.inl rfl)
    · rw [hother x hne] at hk
      have := h.known x k hk
      rw [hl.chain, List.mem_append] at this
      exact this.imp_right .inr
  · rcases eq_or_ne x w with rfl | hne
    · rw [hself] at hk
      have := Option.some.inj hk
      omega
    · rw [hother x hne] at hk
      exact h.nonneg x k hk
  · have ho := h.order
    rw [hl.chain] at hw ho
    rw [hl.chain']
    have hne : ∀ x ∈ pre ++ post, x ≠ w := fun x hx e => hw (e ▸ hx)
    have hkeep : (pre ++ post).Pairwise fun a b =>
        left (Watchdog.insert s w).history a = left (Watchdog.insert s w).history b →
        insertedAt (Watchdog.insert s w).history a <
          insertedAt (Watchdog.insert s w).history b := by
      refine ho.imp_of_mem fun {a b} ha hb hab => ?_
      rw [hother a (hne a ha), hother b (hne b hb), hat, hat, if_neg (hne a ha).symm,
        if_neg (hne b hb).symm]
      exact hab
    rw [List.pairwise_append] at hkeep ⊢
    refine ⟨hkeep.1, List.pairwise_cons.mpr ⟨fun b hb hab => ?_, hkeep.2.1⟩, fun a ha b hb => ?_⟩
    · -- The watchdogs behind the new one have more ticks left.
      obtain ⟨x, hx⟩ := Option.isSome_iff_exists.mp
        (List.isSome_head?.mpr (List.ne_nil_of_mem hb))
      obtain ⟨k, hk, hle⟩ := h.left_post hl.chain hx hb
      have hgt := hl.lt_next x hx
      rw [hself, hother b (hne b (List.mem_append_right pre hb)), hk] at hab
      have := Option.some.inj hab
      omega
    · rcases List.mem_cons.mp hb with rfl | hb
      · intro _
        have hna := hne a (List.mem_append_left post ha)
        rw [hat, hat, if_neg hna.symm, if_pos rfl]
        exact Nat.lt_succ_of_le (insertedAt_le _ _)
      · exact hkeep.2.2 a ha b hb

/-- A watchdog comes off the chain, which an event says. -/
theorem Inv.unlink (h : Inv s) (hc : s.watchdogs = pre ++ w :: post) {e : Event Wid}
    (hr : ∀ x, left (e :: s.history) x = if w = x then none else left s.history x)
    (hat : ∀ x, insertedAt (e :: s.history) x = insertedAt s.history x)
    (ht : Timely (e :: s.history)) : Inv ((removeIt s w).log e) := by
  obtain ⟨hu, hh, hit⟩ := removeIt_spec h.header.nodup hc
  have hlog : ((removeIt s w).log e).history = e :: s.history := congrArg (e :: ·) hh
  have hu' : Unlinked s ((removeIt s w).log e) w pre post :=
    ⟨hu.chain, hu.chain', hu.delta_next, hu.delta_other, hu.state_self, hu.state_other⟩
  refine
    { header := h.header.unlink hu' fun x hx => ?_
      iterators := by
        change (removeIt s w).iterators = []
        rw [hit, h.iterators]
        rfl
      settled := fun x => ?_
      known := fun x k hk => ?_
      nonneg := fun x k hk => ?_
      order := ?_
      timely := by rw [hlog]; exact ht }
  · rw [hlog]
    exact (hr x).trans (if_neg hx.symm)
  · change ((removeIt s w).controls x).state ≠ _
    rcases eq_or_ne x w with rfl | hne
    · rw [hu.state_self]
      exact nofun
    · rw [hu.state_other x hne]
      exact h.settled x
  · rw [hlog, hr] at hk
    split at hk
    next => cases hk
    next hne =>
      have := h.known x k hk
      rw [hc, List.mem_append, List.mem_cons] at this
      change x ∈ (removeIt s w).watchdogs
      rw [hu.chain', List.mem_append]
      exact this.imp_right fun hx => hx.resolve_left fun e => hne e.symm
  · rw [hlog, hr] at hk
    split at hk
    next => cases hk
    next => exact h.nonneg x k hk
  · have ho := h.order
    have hnd := h.header.nodup
    rw [hc] at ho
    rw [hc, List.nodup_middle, List.nodup_cons] at hnd
    change ((removeIt s w).watchdogs).Pairwise _
    rw [hu.chain', hlog]
    have hsub : (pre ++ post).Sublist (pre ++ w :: post) :=
      List.Sublist.append_left (List.sublist_cons_self w post) pre
    refine (ho.sublist hsub).imp_of_mem fun {a b} ha hb hab => ?_
    have hne : ∀ x ∈ pre ++ post, ¬ w = x := fun x hx e => hnd.1 (e ▸ hx)
    rw [hr, hr, if_neg (hne a ha), if_neg (hne b hb), hat, hat]
    exact hab

theorem Inv.remove (h : Inv s) (w : Wid) : Inv (remove s w).1 := by
  unfold Watchdog.remove
  split
  next => exact h
  next hs => exact absurd hs (h.settled w)
  next hs =>
    obtain ⟨pre, post, hc⟩ := List.append_of_mem ((h.header.active w).mpr hs)
    exact h.unlink hc (fun _ => rfl) (fun _ => rfl) h.timely

/-! ## Commands of service routines -/

/-- How many watchdogs are due. -/
def dueCount (s : State Wid) : Nat := s.watchdogs.countP fun w => left s.history w = some 0

theorem Inv.noneDue (h : Inv s) (hd : dueCount s = 0) : NoneDue s := by
  intro w k hk
  have hne : k ≠ 0 := by
    rintro rfl
    have := List.countP_eq_zero.mp hd w (h.known w 0 hk)
    exact this (decide_eq_true hk)
  have := h.nonneg w k hk
  omega

theorem NoneDue.dueCount (hd : NoneDue s) : dueCount s = 0 := by
  refine List.countP_eq_zero.mpr fun w _ hw => ?_
  have := hd w 0 (of_decide_eq_true hw)
  omega

theorem Inv.insertTicks (h : Inv s) {n : Nat} (hpos : 0 < n) (hlt : n < 2 ^ 32) :
    Inv (insertTicks s w n) ∧ dueCount (insertTicks s w n) ≤ dueCount s := by
  have h' := h.setInitial (w := w) n
  unfold Watchdog.insertTicks
  generalize hr : (s.onControl w fun c => { c with initial := n }) = r at h'
  have hinit : (r.controls w).initial = n := by rw [← hr, onControl_self]
  have hdue : dueCount r = dueCount s := by rw [← hr]; rfl
  rw [← hdue]
  by_cases hs : (r.controls w).state = .inactive
  · have hw : w ∉ r.watchdogs := by
      rw [h'.header.active, hs]
      exact nofun
    obtain ⟨δ, pre, post, hl, _, hh, _⟩ :=
      insert_spec h'.header.nodup hw hs
    refine ⟨h'.insert (hinit ▸ hlt) hs, ?_⟩
    unfold dueCount
    rw [hl.chain] at hw ⊢
    rw [hl.chain', hh, hinit, List.countP_append, List.countP_append, List.countP_cons_of_neg]
    · refine Nat.le_of_eq (congrArg₂ _ ?_ ?_) <;> refine List.countP_congr fun x hx => ?_
      · rw [left_inserted, if_neg fun e : w = x => hw (e ▸ List.mem_append_left post hx)]
      · rw [left_inserted, if_neg fun e : w = x => hw (e ▸ List.mem_append_right pre hx)]
    · rw [left_inserted, if_pos rfl, decide_eq_true_eq]
      intro e
      have := Option.some.inj e
      omega
  · have heq : Watchdog.insert r w = r := if_neg hs
    rw [heq]
    exact ⟨h', Nat.le_refl _⟩

/-- Taking a watchdog off the chain leaves no more of the others due. -/
theorem Inv.dueCount_unlink (h : Inv s) (hc : s.watchdogs = pre ++ w :: post) {e : Event Wid}
    (hr : ∀ x, left (e :: s.history) x = if w = x then none else left s.history x) :
    dueCount ((removeIt s w).log e) + (if left s.history w = some 0 then 1 else 0) =
      dueCount s := by
  obtain ⟨hu, hh, _⟩ := removeIt_spec h.header.nodup hc
  have hnd := h.header.nodup
  rw [hc, List.nodup_middle, List.nodup_cons] at hnd
  have hlog : ((removeIt s w).log e).history = e :: s.history := congrArg (e :: ·) hh
  unfold dueCount
  rw [hlog, hc]
  change (removeIt s w).watchdogs.countP _ + _ = _
  rw [hu.chain', List.countP_append, List.countP_append, List.countP_cons, ← Nat.add_assoc]
  simp only [decide_eq_true_eq]
  refine congrArg (· + _) (congrArg₂ _ ?_ ?_) <;> refine List.countP_congr fun x hx => ?_
  · rw [hr, if_neg fun e : w = x => hnd.1 (e ▸ List.mem_append_left post hx)]
  · rw [hr, if_neg fun e : w = x => hnd.1 (e ▸ List.mem_append_right pre hx)]

theorem Inv.dueCount_remove (h : Inv s) (w : Wid) : dueCount (Watchdog.remove s w).1 ≤ dueCount s := by
  unfold Watchdog.remove
  split
  next => exact Nat.le_refl _
  next hs => exact absurd hs (h.settled w)
  next hs =>
    obtain ⟨pre, post, hc⟩ := List.append_of_mem ((h.header.active w).mpr hs)
    have := h.dueCount_unlink hc (e := .removed w) fun _ => rfl
    dsimp only
    omega

theorem Inv.command {c : Command Wid} (h : Inv s) (hv : c.Valid) :
    Inv (c.run s) ∧ dueCount (c.run s) ≤ dueCount s := by
  cases c with
  | insert w n => exact h.insertTicks hv.1 hv.2
  | remove w => exact ⟨h.remove w, h.dueCount_remove w⟩

theorem Inv.commands {cs : List (Command Wid)} (h : Inv s) (hv : ∀ c ∈ cs, c.Valid) :
    Inv (cs.foldl Command.run s) ∧ dueCount (cs.foldl Command.run s) ≤ dueCount s := by
  induction cs generalizing s with
  | nil => exact ⟨h, Nat.le_refl _⟩
  | cons c cs ih =>
    obtain ⟨h1, hd1⟩ := h.command (hv c List.mem_cons_self)
    obtain ⟨h2, hd2⟩ := ih h1 fun c hc => hv c (List.mem_cons_of_mem _ hc)
    exact ⟨h2, Nat.le_trans hd2 hd1⟩

/-! ## Tickle -/

/-- The first watchdog of the chain is at the end of its delta interval. -/
theorem Inv.left_first {first : Wid} {rest : List Wid} (h : Inv s)
    (hc : s.watchdogs = first :: rest) : left s.history first = some (s.delta first : Int) := by
  have ht := h.header.timed
  rw [hc] at ht
  obtain ⟨⟨k, hk, hb⟩, _⟩ := ht
  have := h.nonneg first k hk
  rw [show left s.history first = some k from hk]
  exact congrArg some (by omega)

/-- The first watchdog expires: it is taken off the chain and called. -/
theorem Inv.expire {first : Wid} {rest : List Wid} (h : Inv s) (hc : s.watchdogs = first :: rest)
    (hz : s.delta first = 0) : Inv ((removeIt s first).log (.called first)) ∧
      dueCount ((removeIt s first).log (.called first)) + 1 = dueCount s := by
  have hc' : s.watchdogs = [] ++ first :: rest := hc
  have hleft : left s.history first = some 0 := by
    rw [h.left_first hc, hz]
    rfl
  constructor
  · refine h.unlink hc' (fun _ => rfl) (fun _ => rfl) ⟨⟨hleft, fun v hne hv => ?_⟩, h.timely⟩
    have hmem := h.known v 0 hv
    have ho := h.order
    rw [hc] at hmem ho
    refine (List.pairwise_cons.mp ho).1 v ((List.mem_cons.mp hmem).resolve_left hne) ?_
    rw [hv]
    exact hleft
  · have := h.dueCount_unlink hc' (e := .called first) fun _ => rfl
    rw [if_pos hleft] at this
    exact this

section Routines

variable {routine : Routine Wid} (hroutine : ∀ s w, ∀ c ∈ routine s w, c.Valid)
include hroutine

/-- The loop expires all the watchdogs that are due, and no other. -/
theorem Inv.tickleLoop {fuel : Nat} (h : Inv s) (hd : dueCount s ≤ fuel) :
    Inv (tickleLoop routine fuel s) ∧ NoneDue (tickleLoop routine fuel s) := by
  induction fuel generalizing s with
  | zero => exact ⟨h, h.noneDue (Nat.le_zero.mp hd)⟩
  | succ fuel ih =>
    simp only [Watchdog.tickleLoop]
    split
    next hc =>
      refine ⟨h, fun w k hk => ?_⟩
      have := h.known w k hk
      rw [hc] at this
      cases this
    next first rest hc =>
      split
      next hz =>
        have hact : (s.controls first).state = .active :=
          (h.header.active first).mp (hc ▸ List.mem_cons_self)
        obtain ⟨h1, hd1⟩ := h.expire hc hz
        obtain ⟨h2, hd2⟩ := h1.commands (hroutine _ first)
        rw [hact, if_pos (beq_self_eq_true _)]
        refine ih h2 (Nat.le_trans hd2 ?_)
        omega
      next hz =>
        refine ⟨h, fun w k hk => ?_⟩
        have hmem := h.known w k hk
        have hc' : s.watchdogs = [] ++ s.watchdogs := rfl
        obtain ⟨j, hj, hle⟩ := h.left_post hc' (x := first) (by rw [hc]; rfl) hmem
        rw [hk] at hj
        have := Option.some.inj hj
        rw [List.map_nil, List.sum_nil] at hle
        omega

end Routines

/-! ## The passing of time -/

section

omit [DecidableEq Wid]

theorem elapsed_replicate (u : Nat) : elapsed (List.replicate u (Event.tick : Event Wid)) = u := by
  induction u with
  | zero => rfl
  | succ u ih =>
    rw [List.replicate_succ, elapsed, ih]
    rfl

end

theorem left_replicate (u : Nat) (h : List (Event Wid)) (x : Wid) :
    left (List.replicate u .tick ++ h) x = (left h x).map (· - (u : Int)) := by
  have hs : Silent x (List.replicate u (Event.tick : Event Wid)) := by
    refine ⟨fun n hm => ?_, fun hm => ?_, fun hm => ?_⟩ <;> cases List.eq_of_mem_replicate hm
  rw [hs.left, elapsed_replicate]

theorem insertedAt_replicate (u : Nat) (h : List (Event Wid)) (x : Wid) :
    insertedAt (List.replicate u .tick ++ h) x = insertedAt h x := by
  induction u with
  | zero => rfl
  | succ u ih => exact ih

/-- Ticks are timely as long as none of them comes after a watchdog is due. -/
theorem Timely.ticks {h : List (Event Wid)} (ht : Timely h) {u : Nat}
    (hu : ∀ w k, left h w = some k → (u : Int) ≤ k) : Timely (List.replicate u .tick ++ h) := by
  induction u with
  | zero => exact ht
  | succ u ih =>
    refine ⟨fun v k hk => ?_, ih fun w k hk => ?_⟩
    · change left (List.replicate u .tick ++ h) v = some k at hk
      rw [left_replicate] at hk
      obtain ⟨j, hj, rfl⟩ := Option.map_eq_some_iff.mp hk
      have := hu v j hj
      omega
    · have := hu w k hk
      omega

theorem setDelta_state (δ : Nat) (x : Wid) :
    ((s.setDelta w δ).controls x).state = (s.controls x).state := by
  rw [State.setDelta]
  rcases eq_or_ne x w with rfl | hne
  · rw [onControl_self]
  · rw [onControl_other _ hne]

theorem setDelta_self (δ : Nat) : (s.setDelta w δ).delta w = δ := by
  rw [State.delta, State.setDelta, onControl_self]

theorem setDelta_other (δ : Nat) {x : Wid} (hx : x ≠ w) : (s.setDelta w δ).delta x = s.delta x := by
  rw [State.delta, State.setDelta, onControl_other _ hx]
  rfl

/-- Time passes in the delta interval of the first watchdog. -/
theorem Inv.pass {first : Wid} {rest : List Wid} {u : Nat} (h : Inv s)
    (hc : s.watchdogs = first :: rest) (hu : u ≤ s.delta first) :
    Inv (logTicks (s.setDelta first (s.delta first - u)) u) ∧
      (u < s.delta first → NoneDue (logTicks (s.setDelta first (s.delta first - u)) u)) := by
  have hge : ∀ w k, left s.history w = some k → (s.delta first : Int) ≤ k := by
    intro w k hk
    have hc' : s.watchdogs = [] ++ s.watchdogs := rfl
    obtain ⟨j, hj, hle⟩ := h.left_post hc' (x := first) (by rw [hc]; rfl) (h.known w k hk)
    rw [hk] at hj
    have := Option.some.inj hj
    rw [List.map_nil, List.sum_nil] at hle
    omega
  have hleft : ∀ x, left (List.replicate u .tick ++ s.history) x =
      (left s.history x).map (· - (u : Int)) := left_replicate u s.history
  have hnd := h.header.nodup
  rw [hc, List.nodup_cons] at hnd
  refine ⟨⟨⟨h.header.nodup, fun w => ?_, ?_, fun w hw k hk => ?_⟩, h.iterators, fun w => ?_,
    fun w k hk => ?_, fun w k hk => ?_, ?_, h.timely.ticks fun w k hk => ?_⟩, fun hlt w k hk => ?_⟩
  · change w ∈ s.watchdogs ↔ ((s.setDelta first _).controls w).state = .active
    rw [setDelta_state]
    exact h.header.active w
  · change Timed (left (List.replicate u .tick ++ s.history))
      (s.setDelta first (s.delta first - u)).delta 0 s.watchdogs
    have ht := h.header.timed
    rw [show left (List.replicate u .tick ++ s.history) =
      fun x => (left s.history x).map (· - (u : Int)) from funext hleft]
    rw [hc] at ht ⊢
    obtain ⟨⟨k, hk, hb⟩, hrest⟩ := ht
    refine ⟨⟨k - u, congrArg (Option.map (· - (u : Int))) hk, by rw [setDelta_self]; omega⟩, ?_⟩
    rw [setDelta_self]
    refine (Timed.pass (u := u) (b := 0 + (s.delta first - u)) ?_).congr (fun _ _ => rfl)
      fun x hx => setDelta_other _ fun e => hnd.1 (e ▸ hx)
    rw [show 0 + (s.delta first - u) + u = 0 + s.delta first by omega]
    exact hrest
  · change left (List.replicate u .tick ++ s.history) w = some k at hk
    rw [hleft] at hk
    obtain ⟨j, hj, rfl⟩ := Option.map_eq_some_iff.mp hk
    have := h.header.bound w hw j hj
    omega
  · change ((s.setDelta first _).controls w).state ≠ _
    rw [setDelta_state]
    exact h.settled w
  · change left (List.replicate u .tick ++ s.history) w = some k at hk
    rw [hleft] at hk
    obtain ⟨j, hj, rfl⟩ := Option.map_eq_some_iff.mp hk
    exact h.known w j hj
  · change left (List.replicate u .tick ++ s.history) w = some k at hk
    rw [hleft] at hk
    obtain ⟨j, hj, rfl⟩ := Option.map_eq_some_iff.mp hk
    have := hge w j hj
    omega
  · change s.watchdogs.Pairwise _
    refine h.order.imp_of_mem fun {a b} ha hb hab heq => ?_
    change left (List.replicate u .tick ++ s.history) a =
      left (List.replicate u .tick ++ s.history) b at heq
    change insertedAt (List.replicate u .tick ++ s.history) a <
      insertedAt (List.replicate u .tick ++ s.history) b
    rw [insertedAt_replicate, insertedAt_replicate]
    refine hab ?_
    rw [hleft, hleft] at heq
    exact Option.map_injective (fun i j hij => by simpa using hij) heq
  · have := hge w k hk
    omega
  · change left (List.replicate u .tick ++ s.history) w = some k at hk
    rw [hleft] at hk
    obtain ⟨j, hj, rfl⟩ := Option.map_eq_some_iff.mp hk
    have := hge w j hj
    omega

/-- Time passes without watchdogs. -/
theorem Inv.idle (h : Inv s) (hc : s.watchdogs = []) (u : Nat) :
    Inv (logTicks s u) ∧ NoneDue (logTicks s u) := by
  have hnone : ∀ x, left (List.replicate u .tick ++ s.history) x = none := by
    intro x
    rw [left_replicate, h.left_none (hc ▸ List.not_mem_nil)]
    rfl
  have hno : ∀ x k, left (logTicks s u).history x ≠ some k := by
    intro x k hk
    rw [show left (logTicks s u).history x = none from hnone x] at hk
    cases hk
  refine ⟨⟨⟨h.header.nodup, h.header.active, ?_, fun w _ k hk => absurd hk (hno w k)⟩, h.iterators,
    h.settled, fun w k hk => absurd hk (hno w k), fun w k hk => absurd hk (hno w k), ?_,
    h.timely.ticks fun w k hk => ?_⟩, fun w k hk => absurd hk (hno w k)⟩
  · change Timed _ _ 0 s.watchdogs
    rw [hc]
    trivial
  · change s.watchdogs.Pairwise _
    rw [hc]
    exact List.Pairwise.nil
  · rw [h.left_none (hc ▸ List.not_mem_nil)] at hk
    cases hk

end Rtems.Watchdog
