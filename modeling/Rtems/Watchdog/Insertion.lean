import Rtems.Watchdog.Interrupt

/-!
# The interrupted insertion as a whole

The loop of `_Watchdog_Insert_locked` with operations at its flash points: it
ends with the watchdog in the chain at the right time, and keeps the times of
all the others, as long as the operations fit.
-/

namespace Rtems.Watchdog

variable {Wid : Type} [DecidableEq Wid] {s s' : State Wid} {w v : Wid} {pre post : List Wid}
  {base : Wid → Option Int} {a n : Nat}

/-! ## The loop -/

/-- The insertion has come to its end. -/
structure Finished (base : Wid → Option Int) (w : Wid) (n : Nat) (s : State Wid) : Prop where
  header : Header base s
  active : (s.controls w).state = .active
  left : remaining base s.history w = some ((n : Int) - elapsed s.history)

/-- Where the insertion stands, it stands right. -/
def Outcome (base : Wid → Option Int) (w : Wid) (n a : Nat) : Progress Wid → Prop
  | .flash s => Walk base w n a s
  | .done s => Finished base w n s

section

omit [DecidableEq Wid]

theorem iterator_setIterator {i : Iterator Wid} (hi : s.iterator a = some i) (δ : Nat)
    (current : Option Wid) : (setIterator s a δ current).iterator a =
      some { i with deltaInterval := δ, current := current } := by
  have haddr : i.address = a := by
    have := List.find?_some (p := fun i : Iterator Wid => decide (i.address = a)) hi
    exact of_decide_eq_true this
  have hmap := find_map (l := s.iterators) (f := fun i => if i.address = a then
    { i with deltaInterval := δ, current := current } else i)
    (fun j => by split <;> rfl) hi
  rw [if_pos haddr] at hmap
  exact hmap

end

/-- The body of the loop at a place of the chain. -/
theorem insertBody_outcome (hn : n < 2 ^ 32) (hh : Header base s)
    (hs : (s.controls w).state = .beingInserted)
    (hl : remaining base s.history w = some ((n : Int) - elapsed s.history))
    (he : 0 ≤ elapsed s.history) {i : Iterator Wid} (hi : s.iterator a = some i)
    (hc : s.watchdogs = pre ++ post) {δ : Nat}
    (ht : (pre.map s.delta).sum + δ = ((n : Int) - elapsed s.history).toNat) :
    (∃ s', insertBody s w a δ pre.getLast? = .done s' ∧ Finished base w n s') ∨
    (∃ s' x xs i', insertBody s w a δ pre.getLast? = .flash s' ∧ Walk base w n a s' ∧
      post = x :: xs ∧
      Place s' a ((n : Int) - elapsed s'.history).toNat (pre ++ [x]) xs i') := by
  have hw : w ∉ s.watchdogs := by
    rw [hh.active, hs]
    exact nofun
  rcases insertBody_split a δ hh.nodup hw hc with ⟨s', hb, hlink, hhist, _⟩ | ⟨x, xs, rfl, hle, hb⟩
  · refine .inl ⟨s', hb, hh.link hlink hw (fun _ _ => by rw [hhist]) (hhist ▸ hl) ?_ ?_,
      hlink.state_self, hhist ▸ hl⟩
    · rw [hhist]
      exact ht.symm
    · rw [hhist]
      omega
  · have hplace : Place (setIterator s a (δ - s.delta x) (some x)) a
        ((n : Int) - elapsed s.history).toNat (pre ++ [x]) xs
        { i with deltaInterval := δ - s.delta x, current := some x } := by
      refine ⟨iterator_setIterator hi _ _, ?_, ?_, ?_⟩
      · rw [List.append_assoc]
        exact hc
      · rw [List.getLast?_concat]
      · change ((pre ++ [x]).map s.delta).sum + (δ - s.delta x) = _
        rw [List.map_append, List.sum_append, List.map_singleton, List.sum_singleton]
        omega
    refine .inr ⟨_, x, xs, _, hb, ⟨?_, hs, hl, he, _, _, _, hplace⟩, rfl, hplace⟩
    exact ⟨hh.nodup, hh.active, hh.timed, hh.bound⟩

/-- The insertion goes on where its iterator stands. -/
theorem Walk.resume {total : Nat} {i : Iterator Wid} (h : Walk base w n a s) (hn : n < 2 ^ 32)
    (hp : Place s a total pre post i) (ht : total = ((n : Int) - Watchdog.elapsed s.history).toNat) :
    (∃ s', insertResume s w a = .done s' ∧ Finished base w n s') ∨
    (∃ s' x xs i', insertResume s w a = .flash s' ∧ Walk base w n a s' ∧ post = x :: xs ∧
      Place s' a ((n : Int) - Watchdog.elapsed s'.history).toNat (pre ++ [x]) xs i') := by
  have heq : insertResume s w a = insertBody s w a i.deltaInterval pre.getLast? := by
    unfold insertResume
    rw [if_neg (not_not.mpr h.state)]
    have hfind : s.iterators.find? (fun i => i.address = a) = some i := hp.iterator
    rw [hfind, ← hp.current]
  rw [heq]
  exact insertBody_outcome hn h.header h.state h.left h.elapsed hp.iterator hp.chain
    (ht ▸ hp.time)

theorem Walk.resume_outcome (h : Walk base w n a s) (hn : n < 2 ^ 32) :
    Outcome base w n a (insertResume s w a) := by
  obtain ⟨pre, post, i, hp⟩ := h.place
  rcases h.resume hn hp rfl with ⟨s', hr, hf⟩ | ⟨s', _, _, _, hr, hw, _⟩
  · rw [hr]
    exact hf
  · rw [hr]
    exact hw

/-- The loop with the operations at its flash points. -/
theorem Outcome.loop (hn : n < 2 ^ 32) {routine : Routine Wid}
    {schedule : List (List (Nested Wid))} {p : Progress Wid} (h : Outcome base w n a p)
    (hf : Fits routine w a schedule p) :
    Outcome base w n a (insertLoop w a (schedule.map (interrupt routine)) p) := by
  induction schedule generalizing p with
  | nil =>
    cases p with
    | done s => exact h
    | flash s => exact h
  | cons ops rest ih =>
    cases p with
    | done s => exact h
    | flash s => exact ih ((Walk.interrupt hn h hf.1).resume_outcome hn) hf.2

/-- Without further operations the loop comes to its end. -/
theorem Walk.terminates (hn : n < 2 ^ 32) {post : List Wid} {pre : List Wid} {i : Iterator Wid}
    (h : Walk base w n a s)
    (hp : Place s a ((n : Int) - Watchdog.elapsed s.history).toNat pre post i) :
    ∃ k s', insertLoop w a (List.replicate k id) (.flash s) = .done s' := by
  induction post generalizing s pre i with
  | nil =>
    rcases h.resume hn hp rfl with ⟨s', hr, _⟩ | ⟨s', x, xs, i', _, _, hx, _⟩
    · refine ⟨1, s', ?_⟩
      rw [List.replicate_one, insertLoop, id, hr]
      rfl
    · cases hx
  | cons x xs ih =>
    rcases h.resume hn hp rfl with ⟨s', hr, _⟩ | ⟨s', y, ys, i', hr, hw, hy, hp'⟩
    · refine ⟨1, s', ?_⟩
      rw [List.replicate_one, insertLoop, id, hr]
      rfl
    · obtain ⟨_, rfl⟩ := List.cons.inj hy
      obtain ⟨k, s'', hk⟩ := ih hw hp'
      refine ⟨k + 1, s'', ?_⟩
      rw [List.replicate_succ, insertLoop, id, hr]
      exact hk

theorem insertLoop_done (l : List (State Wid → State Wid)) (s : State Wid) :
    insertLoop w a l (.done s) = .done s := by
  cases l <;> rfl

theorem insertLoop_append (l₁ l₂ : List (State Wid → State Wid)) (p : Progress Wid) :
    insertLoop w a (l₁ ++ l₂) p = insertLoop w a l₂ (insertLoop w a l₁ p) := by
  induction l₁ generalizing p with
  | nil => cases p <;> rfl
  | cons f l₁ ih =>
    cases p with
    | done s => rw [insertLoop_done, insertLoop_done, insertLoop_done]
    | flash s => exact ih _

/-! ## The start -/

/-- A header at the start of an insertion. -/
structure HeaderOk (s : State Wid) : Prop where
  nodup : s.watchdogs.Nodup
  active : ∀ w, w ∈ s.watchdogs ↔ (s.controls w).state = .active
  bound : ∀ w ∈ s.watchdogs, s.ticksTo w < 2 ^ 32
  /-- The history counts from here. -/
  history : s.history = []

/-- The ticks remaining for the watchdogs at the start. -/
def startTimes (s : State Wid) (w : Wid) : Option Int :=
  if w ∈ s.watchdogs then some (s.ticksTo w) else none

theorem HeaderOk.timed (h : HeaderOk s) :
    ∀ pre post, s.watchdogs = pre ++ post →
      Timed (startTimes s) s.delta (pre.map s.delta).sum post := by
  intro pre post
  induction post generalizing pre with
  | nil => intro _; trivial
  | cons x xs ih =>
    intro hc
    have hx : startTimes s x = some (s.ticksTo x : Int) :=
      if_pos (hc ▸ List.mem_append_right pre List.mem_cons_self)
    refine ⟨⟨_, hx, ?_⟩, ?_⟩
    · rw [ticksTo_split h.nodup hc, Int.toNat_natCast]
    · have := ih (pre ++ [x]) (by rw [hc, List.append_assoc]; rfl)
      rw [List.map_append, List.sum_append, List.map_singleton, List.sum_singleton] at this
      exact this

theorem HeaderOk.header (h : HeaderOk s) : Header (startTimes s) s := by
  refine ⟨h.nodup, h.active, ?_, fun w hw k hk => ?_⟩
  · rw [h.history]
    exact h.timed [] s.watchdogs rfl
  · rw [h.history] at hk
    have hb := h.bound w hw
    have := (if_pos hw).symm.trans hk
    have := Option.some.inj this
    omega

theorem HeaderOk.begin (h : HeaderOk s) (hs : (s.controls w).state = .inactive)
    (hlt : (s.controls w).initial < 2 ^ 32) (ha : ∀ i ∈ s.iterators, i.address ≠ a) :
    Outcome (startTimes s) w (s.controls w).initial a (insertBegin s w a) := by
  have hw : w ∉ s.watchdogs := by
    rw [h.active, hs]
    exact nofun
  have hbegin : insertBegin s w a =
      insertBody (walking s w ⟨a, 0, none⟩) w a (s.controls w).initial none := rfl
  have hhist : (walking s w ⟨a, 0, none⟩).history = [.inserted w (s.controls w).initial] := by
    change .inserted w (s.controls w).initial :: s.history = _
    rw [h.history]
  have hrem : ∀ x, x ≠ w → remaining (startTimes s) (walking s w ⟨a, 0, none⟩).history x =
      remaining (startTimes s) s.history x := by
    intro x hx
    rw [hhist, h.history]
    exact if_neg hx.symm
  have hmem : ∀ x ∈ s.watchdogs, x ≠ w := fun x hx e => hw (e ▸ hx)
  have hh := h.header
  have hheader : Header (startTimes s) (walking s w ⟨a, 0, none⟩) := by
    refine ⟨h.nodup, fun x => ?_, ?_, fun x hx k hk => ?_⟩
    · change x ∈ s.watchdogs ↔ _
      rw [h.active, walking_controls]
      rcases eq_or_ne x w with rfl | hne
      · rw [Function.update_self, hs]
        exact ⟨nofun, nofun⟩
      · rw [Function.update_of_ne hne]
    · rw [walking_delta]
      exact hh.timed.congr (fun x hx => hrem x (hmem x hx)) fun _ _ => rfl
    · rw [hrem x (hmem x hx)] at hk
      exact hh.bound x hx k hk
  have hiter : (walking s w ⟨a, 0, none⟩).iterator a = some ⟨a, 0, none⟩ := by
    rw [State.iterator, walking]
    dsimp only
    rw [List.find?_append, List.find?_eq_none.mpr fun i hi => by simpa using ha i hi]
    simp
  have helapsed : elapsed (walking s w ⟨a, 0, none⟩).history = 0 := by
    rw [hhist]
    rfl
  have hout := insertBody_outcome (δ := (s.controls w).initial) hlt hheader
    (by rw [walking_controls, Function.update_self])
    (by rw [helapsed, hhist]; exact (if_pos rfl).trans (congrArg some (by omega)))
    (by rw [helapsed]) hiter (show s.watchdogs = [] ++ s.watchdogs from rfl)
    (by rw [helapsed, List.map_nil, List.sum_nil]; omega)
  rcases hout with ⟨s', hb, hf⟩ | ⟨s', _, _, _, hb, hwalk, _⟩
  · rw [hbegin.trans hb]
    exact hf
  · rw [hbegin.trans hb]
    exact hwalk

/-! ## Interrupted insertion -/

/-- The chain has every active watchdog at the time that remains for it, or overdue. -/
def KeepsTimes (base : Wid → Option Int) (s : State Wid) : Prop :=
  ∀ v, (s.controls v).state = .active →
    ∃ k, remaining base s.history v = some k ∧ (s.ticksTo v : Int) = max k 0

theorem Header.keepsTimes (h : Header base s) : KeepsTimes base s := by
  intro v hv
  obtain ⟨k, hk, ht⟩ := h.timed.ticksTo ((h.active v).mpr hv)
  exact ⟨k, hk, by omega⟩

/-- What an interrupted insertion promises: all the others keep their times, and at its end the
watchdog has the time that is left of its interval; and the insertion does come to its end. -/
structure InsertsInTime (base : Wid → Option Int) (w : Wid) (a n : Nat)
    (schedule : List (State Wid → State Wid)) (p : Progress Wid) : Prop where
  keeps : KeepsTimes base (insertLoop w a schedule p).state
  inserted : ∀ s', insertLoop w a schedule p = .done s' → (s'.controls w).state = .active ∧
    (s'.ticksTo w : Int) = max (n - elapsed s'.history) 0
  terminates : ∃ k s', insertLoop w a (schedule ++ List.replicate k id) p = .done s'

/-- **An interrupted insertion keeps the timing** in every interleaving of operations that fit. -/
theorem insertion_timing {routine : Routine Wid} {schedule : List (List (Nested Wid))}
    (h : HeaderOk s) (hs : (s.controls w).state = .inactive)
    (hlt : (s.controls w).initial < 2 ^ 32) (ha : ∀ i ∈ s.iterators, i.address ≠ a)
    (hf : Fits routine w a schedule (insertBegin s w a)) :
    InsertsInTime (startTimes s) w a (s.controls w).initial (schedule.map (interrupt routine))
      (insertBegin s w a) := by
  have hout := (h.begin hs hlt ha).loop hlt hf
  refine ⟨?_, fun s' hs' => ?_, ?_⟩
  · cases hp : insertLoop w a (schedule.map (interrupt routine)) (insertBegin s w a) with
    | flash s' =>
      rw [hp] at hout
      exact Header.keepsTimes (Walk.header hout)
    | done s' =>
      rw [hp] at hout
      exact Header.keepsTimes (Finished.header hout)
  · rw [hs'] at hout
    have hfin : Finished (startTimes s) w (s.controls w).initial s' := hout
    obtain ⟨k, hk, ht⟩ := hfin.header.keepsTimes w hfin.active
    rw [hfin.left] at hk
    exact ⟨hfin.active, Option.some.inj hk ▸ ht⟩
  · cases hp : insertLoop w a (schedule.map (interrupt routine)) (insertBegin s w a) with
    | flash s' =>
      rw [hp] at hout
      have hwalk : Walk (startTimes s) w (s.controls w).initial a s' := hout
      obtain ⟨pre, post, i, hplace⟩ := hwalk.place
      obtain ⟨k, s'', hk⟩ := hwalk.terminates hlt hplace
      exact ⟨k, s'', by rw [insertLoop_append, hp, hk]⟩
    | done s' => exact ⟨0, s', by rw [insertLoop_append, hp]; rfl⟩

/-- One watchdog on the chain, due after 10 ticks, and one to be inserted for 15. -/
def exampleHeader : State Nat where
  controls w := if w = 1 then ⟨.active, 10, 10⟩ else ⟨.inactive, 15, 0⟩
  watchdogs := [1]
  iterators := []
  history := []

theorem exampleHeader_ok : HeaderOk exampleHeader := by
  refine ⟨by decide, fun w => ?_, by decide, rfl⟩
  change w ∈ [1] ↔ (if w = 1 then (⟨.active, 10, 10⟩ : Control) else ⟨.inactive, 15, 0⟩).state = _
  rw [List.mem_singleton]
  split
  next h => exact ⟨fun _ => rfl, fun _ => h⟩
  next h => exact ⟨fun h' => absurd h' h, nofun⟩

/-- A tick and an insertion behind the one interrupted. -/
theorem insertion_timing_tick :
    let schedule : List (List (Nested Nat)) := [[.tickle, .command (.insert 3 20)]]
    let p := insertLoop 2 1 (schedule.map (interrupt fun _ _ => [])) (insertBegin exampleHeader 2 1)
    p.state.watchdogs.map (fun v => (v, p.state.ticksTo v)) = [(1, 9), (2, 14), (3, 20)] ∧
      InsertsInTime (startTimes exampleHeader) 2 1 15 (schedule.map (interrupt fun _ _ => []))
        (insertBegin exampleHeader 2 1) := by
  refine ⟨by decide, insertion_timing exampleHeader_ok rfl (by decide) nofun ?_⟩
  refine ⟨⟨⟨.inl ⟨⟨1, rfl, by decide⟩, ?_⟩, ?_⟩, ⟨⟨by decide, by decide⟩, ?_⟩, trivial⟩, trivial⟩
  · rintro i ⟨⟩
    exact nofun
  · exact fun h => absurd h (by decide)
  · rintro - i ⟨⟩ -
    decide

/-- What may run while `w` is inserted. -/
def Command.Allowed (w : Wid) : Command Wid → Prop
  | .insert _ units => 0 < units ∧ units < 2 ^ 32
  | .remove y => y ≠ w

def Nested.Allowed (w : Wid) : Nested Wid → Prop
  | .command c => c.Allowed w
  | .tickle => True

/-- A watchdog inserted before the one that was passed last takes the iterator over, and the 7
ticks between them are lost: the chain has 8 ticks for a watchdog inserted for 15. -/
theorem insertion_timing_lost : ¬ ∀ (routine : Routine Nat) (s : State Nat) (w a : Nat)
    (schedule : List (List (Nested Nat))), HeaderOk s → (s.controls w).state = .inactive →
      0 < (s.controls w).initial → (s.controls w).initial < 2 ^ 32 →
      (∀ i ∈ s.iterators, i.address ≠ a) → (∀ s v, ∀ c ∈ routine s v, c.Allowed w) →
      (∀ ops ∈ schedule, ∀ op ∈ ops, op.Allowed w) →
      InsertsInTime (startTimes s) w a (s.controls w).initial (schedule.map (interrupt routine))
        (insertBegin s w a) := by
  intro hall
  have h := hall (fun _ _ => []) exampleHeader 2 1 [[.command (.insert 3 3)]] exampleHeader_ok rfl
    (by decide) (by decide) nofun (fun _ _ => nofun) (by
      intro ops hops op hop
      obtain rfl := List.mem_singleton.mp hops
      obtain rfl := List.mem_singleton.mp hop
      exact ⟨by decide, by decide⟩)
  exact absurd (h.inserted _ rfl).2 (by decide)

end Rtems.Watchdog
