import Rtems.Watchdog.Ticks

/-!
# Interrupted insertion

An insertion gives up the lock at every watchdog it passes.  What is left of it
is an iterator: the watchdog passed last, and the rest of the time from there.
The operations that run meanwhile have to keep the sum of both, and do so only
in part.  `Fits` says when one does:

* a nested insertion moves the iterator in front of its watchdog, but does not
  add the interval between them;
* a removal adds the interval of the watchdog removed to an iterator behind it,
  though the time there has not changed, and adds the interval of the wrong
  watchdog to an iterator that stood at the one removed;
* a tick does not reach an iterator at the head of the chain, and nothing else
  either if the first watchdog is overdue.
-/

namespace Rtems.Watchdog

variable {Wid : Type} [DecidableEq Wid] {s s' : State Wid} {w v y : Wid} {pre post : List Wid}
  {base : Wid → Option Int} {a n : Nat}

/-! ## Nested operations -/

/-- The iterator at an address. -/
def State.iterator (s : State Wid) (a : Nat) : Option (Iterator Wid) :=
  s.iterators.find? fun i => i.address = a

/-- The first watchdog that expires after `n` ticks. -/
def firstAfter (s : State Wid) (n : Nat) : Option Wid :=
  s.watchdogs.find? fun v => n < s.ticksTo v

/-- A nested insertion does not come directly before the watchdog of the iterator. -/
def InsertFits (s : State Wid) (a : Nat) (y : Wid) (n : Nat) : Prop :=
  (s.controls y).state = .inactive → ∀ i ∈ s.iterator a, i.current ≠ none →
    i.current ≠ firstAfter s n

/-- A removal before the iterator leaves no interval, and one at the iterator leaves the interval
that is added. -/
def RemoveFits (s : State Wid) (a : Nat) (y : Wid) : Prop :=
  (s.controls y).state = .active → ∀ i ∈ s.iterator a,
    (i.current ≠ none → i.current = chainNext s.watchdogs (some y) → s.delta y = 0) ∧
    (i.current = some y → s.delta y = ((chainPrevious s.watchdogs y).map s.delta).getD 0)

/-- A tick finds the first watchdog not overdue and the iterator behind it, or nothing that is
not overdue. -/
def TickFits (s : State Wid) (a : Nat) : Prop :=
  ((∃ first ∈ s.watchdogs.head?, 0 < s.delta first) ∧
    ∀ i ∈ s.iterator a, i.current = none → i.deltaInterval = 0) ∨
  ((∀ v ∈ s.watchdogs, s.delta v = 0) ∧ ∀ i ∈ s.iterator a, i.deltaInterval = 0)

/-- A command of a service routine fits, and is not the removal of the watchdog inserted. -/
def Command.Fits (w : Wid) (a : Nat) (s : State Wid) : Command Wid → Prop
  | .insert y n => (0 < n ∧ n < 2 ^ 32) ∧ InsertFits s a y n
  | .remove y => y ≠ w ∧ RemoveFits s a y

def CommandsFit (w : Wid) (a : Nat) : State Wid → List (Command Wid) → Prop
  | _, [] => True
  | s, c :: cs => c.Fits w a s ∧ CommandsFit w a (c.run s) cs

/-- What the service routines do in a tick fits. -/
def TickleLoopFits (routine : Routine Wid) (w : Wid) (a : Nat) : Nat → State Wid → Prop
  | 0, _ => True
  | fuel + 1, s =>
    match s.watchdogs with
    | [] => True
    | first :: _ =>
      s.delta first = 0 →
        let s := (removeIt s first).log (.called first)
        CommandsFit w a s (routine s first) ∧
          TickleLoopFits routine w a fuel ((routine s first).foldl Command.run s)

/-- An operation that runs while an insertion is interrupted. -/
inductive Nested (Wid : Type) where
  | command (c : Command Wid)
  | tickle

def Nested.run (routine : Routine Wid) (s : State Wid) : Nested Wid → State Wid
  | .command c => c.run s
  | .tickle => Watchdog.tickle routine s

def Nested.Fits (routine : Routine Wid) (w : Wid) (a : Nat) (s : State Wid) : Nested Wid → Prop
  | .command c => c.Fits w a s
  | .tickle => TickFits s a ∧
      let s := s.log .tick
      match s.watchdogs with
      | [] => True
      | first :: _ =>
        let s := if s.delta first > 0 then s.setDelta first (s.delta first - 1) else s
        TickleLoopFits routine w a s.watchdogs.length s

def NestedFit (routine : Routine Wid) (w : Wid) (a : Nat) : State Wid → List (Nested Wid) → Prop
  | _, [] => True
  | s, op :: ops => op.Fits routine w a s ∧ NestedFit routine w a (op.run routine s) ops

/-- What runs at a flash point. -/
def interrupt (routine : Routine Wid) (ops : List (Nested Wid)) (s : State Wid) : State Wid :=
  ops.foldl (Nested.run routine) s

/-- Everything that runs at the flash points of an insertion fits. -/
def Fits (routine : Routine Wid) (w : Wid) (a : Nat) :
    List (List (Nested Wid)) → Progress Wid → Prop
  | _, .done _ => True
  | [], .flash _ => True
  | ops :: rest, .flash s => NestedFit routine w a s ops ∧
      Fits routine w a rest (insertResume (interrupt routine ops s) w a)

/-! ## The insertion under way -/

/-- The iterator stands at a place of the chain, and the rest of the time from there makes up what
remains. -/
structure Place (s : State Wid) (a : Nat) (total : Nat) (pre post : List Wid) (i : Iterator Wid) :
    Prop where
  iterator : s.iterator a = some i
  chain : s.watchdogs = pre ++ post
  current : i.current = pre.getLast?
  time : (pre.map s.delta).sum + i.deltaInterval = total

/-- The insertion of `w` for `n` ticks is under way. -/
structure Walk (base : Wid → Option Int) (w : Wid) (n a : Nat) (s : State Wid) : Prop where
  header : Header base s
  state : (s.controls w).state = .beingInserted
  left : remaining base s.history w = some ((n : Int) - elapsed s.history)
  elapsed : 0 ≤ elapsed s.history
  place : ∃ pre post i, Place s a ((n : Int) - Watchdog.elapsed s.history).toNat pre post i

theorem Walk.notMem (h : Walk base w n a s) : w ∉ s.watchdogs := by
  rw [h.header.active, h.state]
  exact nofun

section

omit [DecidableEq Wid]

/-- The iterators are changed one by one, and stay where they are in memory. -/
theorem find_map {l : List (Iterator Wid)} {f : Iterator Wid → Iterator Wid}
    (hf : ∀ i, (f i).address = i.address) {i : Iterator Wid}
    (h : (l.find? fun i => i.address = a) = some i) :
    ((l.map f).find? fun i => i.address = a) = some (f i) := by
  rw [List.find?_map]
  have hp : ((fun i : Iterator Wid => decide (i.address = a)) ∘ f) = fun i => decide (i.address = a) := by
    funext j
    simp only [Function.comp_apply, hf]
  rw [hp, h]
  rfl

end

/-! ## A nested insertion -/

theorem ticksTo_split {xs : List Wid} {x : Wid} (hnd : s.watchdogs.Nodup)
    (hc : s.watchdogs = pre ++ x :: xs) : s.ticksTo x = (pre.map s.delta).sum + s.delta x := by
  rw [hc] at hnd
  rw [State.ticksTo, hc, takeWhile_ne]
  intro hx
  exact (List.nodup_append.mp hnd).2.2 x hx x List.mem_cons_self rfl

theorem ticksTo_le (hnd : s.watchdogs.Nodup) (hc : s.watchdogs = pre ++ post) (hv : v ∈ pre) :
    s.ticksTo v ≤ (pre.map s.delta).sum := by
  obtain ⟨p, q, rfl⟩ := List.append_of_mem hv
  rw [List.append_assoc] at hc
  rw [ticksTo_split hnd hc, List.map_append, List.sum_append, List.map_cons, List.sum_cons]
  omega

/-- The insertion looks for the first watchdog that expires after it. -/
theorem Linked.firstAfter {δ : Nat} (hl : Linked s s' y δ pre post) (hnd : s.watchdogs.Nodup)
    (hn : (pre.map s.delta).sum + δ = n) : firstAfter s n = post.head? := by
  unfold Watchdog.firstAfter
  rw [hl.chain, List.find?_append, List.find?_eq_none.mpr]
  · cases post with
    | nil => rfl
    | cons x xs =>
      have hlt := hl.lt_next x rfl
      have hx := ticksTo_split hnd hl.chain
      rw [List.find?_cons_of_pos]
      · rfl
      · exact decide_eq_true (by omega)
  · intro v hv
    have := ticksTo_le hnd hl.chain hv
    rw [decide_eq_true_eq]
    omega

theorem fixCurrent_of_ne {next : Option Wid} {i : Iterator Wid}
    (h : i.current ≠ none → i.current ≠ next) : fixCurrent next y i = i := by
  refine if_neg fun hx => ?_
  exact h (hx.2 ▸ hx.1) hx.2

theorem fixCurrent_address (next : Option Wid) (i : Iterator Wid) :
    (fixCurrent next y i).address = i.address := by
  unfold fixCurrent
  split <;> rfl

section

omit [DecidableEq Wid]

/-- The place stays if a watchdog is linked elsewhere. -/
theorem Place.link {total δ : Nat} {i : Iterator Wid} {pre' post' : List Wid}
    (h : Place s a total pre post i) (hl : Linked s s' y δ pre' post') (hnd : s.watchdogs.Nodup)
    (hy : y ∉ s.watchdogs) (hi : s'.iterator a = some i) :
    ∃ pre post, Place s' a total pre post i := by
  have heq : pre ++ post = pre' ++ post' := h.chain.symm.trans hl.chain
  have hnd' := hnd
  rw [hl.chain] at hnd' hy
  have hdisj := (List.nodup_append.mp hnd').2.2
  have hpre : ∀ x ∈ pre', s'.delta x = s.delta x := by
    intro x hx
    refine hl.delta_other x (fun e => hy (e ▸ List.mem_append_left post' hx)) fun hx' => ?_
    exact hdisj x hx x (List.mem_of_mem_head? hx') rfl
  rcases List.append_eq_append_iff.mp heq with ⟨m, hm, hm'⟩ | ⟨m, hm, hm'⟩
  · -- The watchdog is linked behind the place.
    refine ⟨pre, m ++ y :: post', hi, ?_, h.current, ?_⟩
    · rw [hl.chain', hm, List.append_assoc]
    · rw [← h.time, List.map_congr_left fun x hx => hpre x (hm ▸ List.mem_append_left m hx)]
  · cases m with
    | nil =>
      rw [List.append_nil] at hm
      refine ⟨pre', y :: post', hi, hl.chain', hm ▸ h.current, ?_⟩
      rw [← h.time, hm, List.map_congr_left hpre]
    | cons x m =>
      -- The watchdog is linked before the place, and `x` makes up for it.
      rw [hm', List.cons_append] at hl
      refine ⟨pre' ++ y :: x :: m, post, hi, ?_, ?_, ?_⟩
      · rw [hl.chain', List.append_assoc]
        rfl
      · rw [h.current, hm, List.getLast?_append_cons, List.getLast?_append_cons,
          List.getLast?_cons_cons]
      · have hx := hl.delta_next x rfl
        have hlt := hl.lt_next x rfl
        have hm_eq : ∀ z ∈ m, s'.delta z = s.delta z := by
          intro z hz
          have hz' : z ∈ pre' ++ post' := by
            rw [hm']
            exact List.mem_append_right _ (List.mem_append_left _ (List.mem_cons_of_mem x hz))
          refine hl.delta_other z (fun e => hy (e ▸ hz')) fun e => ?_
          rw [hm'] at hnd'
          have := (List.nodup_cons.mp (List.nodup_append.mp hnd').2.1).1
          exact this (Option.some.inj e ▸ List.mem_append_left post hz)
        have ht := h.time
        rw [hm, List.map_append, List.sum_append, List.map_cons, List.sum_cons] at ht
        rw [List.map_append, List.sum_append, List.map_cons, List.sum_cons, List.map_cons,
          List.sum_cons, List.map_congr_left hpre, List.map_congr_left hm_eq, hl.delta_self]
        omega

end

theorem setInitial_delta (m : Nat) :
    (s.onControl y fun c => { c with initial := m }).delta = s.delta := by
  funext x
  rw [State.delta, State.delta]
  rcases eq_or_ne x y with rfl | hne
  · rw [onControl_self]
  · rw [onControl_other _ hne]

theorem Place.setInitial {total m : Nat} {i : Iterator Wid} (h : Place s a total pre post i) :
    Place (s.onControl y fun c => { c with initial := m }) a total pre post i := by
  refine ⟨h.iterator, h.chain, h.current, ?_⟩
  rw [setInitial_delta]
  exact h.time

theorem Walk.insertTicks (h : Walk base w n a s) {m : Nat} (hm : m < 2 ^ 32)
    (hf : InsertFits s a y m) : Walk base w n a (insertTicks s y m) := by
  obtain ⟨pre, post, i, hp⟩ := h.place
  have hst : ∀ x, ((s.onControl y fun c => { c with initial := m }).controls x).state =
      (s.controls x).state := by
    intro x
    rcases eq_or_ne x y with rfl | hne
    · rw [onControl_self]
    · rw [onControl_other _ hne]
  have hheader := h.header.setInitial (w := y) m
  have hplace := hp.setInitial (y := y) (m := m)
  have hinit : ((s.onControl y fun c => { c with initial := m }).controls y).initial = m := by
    rw [onControl_self]
  have hticks : firstAfter (s.onControl y fun c => { c with initial := m }) m = firstAfter s m := by
    unfold firstAfter State.ticksTo
    rw [setInitial_delta]
    rfl
  unfold Watchdog.insertTicks
  generalize hr : (s.onControl y fun c => { c with initial := m }) = r at *
  have hhist : r.history = s.history := by rw [← hr]; rfl
  by_cases hs : (r.controls y).state = .inactive
  · have hne : y ≠ w := by
      rintro rfl
      rw [hst, h.state] at hs
      cases hs
    have hy : y ∉ r.watchdogs := by
      rw [hheader.active, hs]
      exact nofun
    obtain ⟨δ, pre', post', hl, hsum, hh, hit⟩ := insert_spec hheader.nodup hy hs
    rw [hinit] at hsum hh
    have hfirst := hl.firstAfter hheader.nodup hsum
    have hfix : fixCurrent post'.head? y i = i := by
      refine fixCurrent_of_ne fun hc => ?_
      rw [← hfirst, hticks]
      exact hf (hst y ▸ hs) i hp.iterator hc
    have hiter : (Watchdog.insert r y).iterator a = some i := by
      rw [State.iterator, hit, ← hfix]
      exact find_map (fixCurrent_address _) hplace.iterator
    have hwy : remaining base (Watchdog.insert r y).history w = remaining base s.history w := by
      rw [hh, hhist]
      exact if_neg hne
    have helapsed : Watchdog.elapsed (Watchdog.insert r y).history = Watchdog.elapsed s.history := by
      rw [hh, hhist]
      rfl
    refine ⟨?_, ?_, ?_, ?_, ?_⟩
    · refine hheader.link hl hy (fun x hx => ?_) (k := m) ?_ ?_ ?_
      · rw [hh]
        exact if_neg hx.symm
      · rw [hh]
        exact if_pos rfl
      · omega
      · omega
    · rw [hl.state_other w hne.symm, hst]
      exact h.state
    · rw [hwy, helapsed]
      exact h.left
    · rw [helapsed]
      exact h.elapsed
    · rw [helapsed]
      obtain ⟨p, q, hpq⟩ := hplace.link hl hheader.nodup hy hiter
      exact ⟨p, q, i, hpq⟩
  · rw [show Watchdog.insert r y = r from if_neg hs]
    exact ⟨hheader, (hst w).trans h.state, hhist ▸ h.left, hhist ▸ h.elapsed,
      pre, post, i, hhist ▸ hplace⟩

/-! ## A nested removal -/

theorem removeFixup_address (i : Iterator Wid) : (removeFixup s y i).address = i.address := by
  unfold removeFixup
  dsimp only
  split <;> split <;> try split
  all_goals rfl

/-- An iterator that stands neither at the watchdog removed nor at its successor. -/
theorem removeFixup_of_ne {i : Iterator Wid} (hy : i.current ≠ some y)
    (hn : i.current ≠ none → i.current = chainNext s.watchdogs (some y) → s.delta y = 0)
    (hlt : i.deltaInterval < 2 ^ 32) : removeFixup s y i = i := by
  have hfirst : (if i.current = chainNext s.watchdogs (some y) ∧
      chainNext s.watchdogs (some y) ≠ none then
      { i with deltaInterval := (i.deltaInterval + s.delta y) % 2 ^ 32 } else i) = i := by
    split
    next hc =>
      rw [hn (hc.1 ▸ hc.2) hc.1, Nat.add_zero, Nat.mod_eq_of_lt hlt]
    next => rfl
  unfold removeFixup
  dsimp only
  rw [hfirst, if_neg hy]

/-- An iterator that stands at the watchdog removed moves to the one before. -/
theorem removeFixup_self {i : Iterator Wid} (hy : i.current = some y)
    (hn : chainNext s.watchdogs (some y) ≠ some y) :
    removeFixup s y i = match chainPrevious s.watchdogs y with
      | none => { i with current := none }
      | some p =>
        { i with current := some p, deltaInterval := (i.deltaInterval + s.delta p) % 2 ^ 32 } := by
  have hfirst : (if i.current = chainNext s.watchdogs (some y) ∧
      chainNext s.watchdogs (some y) ≠ none then
      { i with deltaInterval := (i.deltaInterval + s.delta y) % 2 ^ 32 } else i) = i :=
    if_neg fun hc => hn (hc.1.symm.trans hy)
  unfold removeFixup
  dsimp only
  cases chainPrevious s.watchdogs y with
  | none => rw [hfirst, if_pos hy]
  | some p => rw [hfirst, if_pos hy]

/-- The place moves back if its watchdog is unlinked, and stays otherwise. -/
theorem Place.unlink {total : Nat} {i : Iterator Wid} {p q : List Wid}
    (h : Place s a total pre post i) (hu : Unlinked s s' y p q) (hnd : s.watchdogs.Nodup)
    (hb : ∀ x ∈ q.head?, s.delta x + s.delta y < 2 ^ 32) (ht : total < 2 ^ 32)
    (hf : (i.current ≠ none → i.current = chainNext s.watchdogs (some y) → s.delta y = 0) ∧
      (i.current = some y → s.delta y = ((chainPrevious s.watchdogs y).map s.delta).getD 0))
    (hi : s'.iterator a = some (removeFixup s y i)) :
    ∃ pre post i, Place s' a total pre post i := by
  have htime := h.time
  have heq : pre ++ post = p ++ y :: q := h.chain.symm.trans hu.chain
  have hnd' := hnd
  rw [hu.chain] at hnd'
  have hyp : y ∉ p := fun hy => (List.nodup_append.mp hnd').2.2 y hy y List.mem_cons_self rfl
  have hyq : y ∉ q := (List.nodup_cons.mp (List.nodup_append.mp hnd').2.1).1
  have hpq : ∀ x ∈ p, x ∉ q := fun x hx hx' =>
    (List.nodup_append.mp hnd').2.2 x hx x (List.mem_cons_of_mem y hx') rfl
  have hnext : chainNext s.watchdogs (some y) = q.head? := by rw [hu.chain, chainNext_mid hyp]
  have hprev : chainPrevious s.watchdogs y = p.getLast? := by
    rw [hu.chain, chainPrevious_mid hyp]
  have hp : ∀ x ∈ p, s'.delta x = s.delta x := fun x hx =>
    hu.delta_other x fun hx' => hpq x hx (List.mem_of_mem_head? hx')
  rw [hnext, hprev] at hf
  rcases List.append_eq_append_iff.mp heq with ⟨m, hm, hm'⟩ | ⟨m, hm, hm'⟩
  · -- The watchdog is behind the place.
    have hcur : i.current ≠ some y := fun hc =>
      hyp (hm ▸ List.mem_append_left m (List.mem_of_getLast? (h.current.symm.trans hc)))
    rw [removeFixup_of_ne hcur (hnext ▸ hf.1) (by omega)] at hi
    refine ⟨pre, m ++ q, i, hi, ?_, h.current, ?_⟩
    · rw [hu.chain', hm, List.append_assoc]
    · rw [← h.time, List.map_congr_left fun x hx => hp x (hm ▸ List.mem_append_left m hx)]
  · cases m with
    | nil =>
      -- The watchdog is the first one behind the place.
      rw [List.append_nil] at hm
      have hcur : i.current ≠ some y := fun hc =>
        hyp (hm ▸ List.mem_of_getLast? (h.current.symm.trans hc))
      rw [removeFixup_of_ne hcur (hnext ▸ hf.1) (by omega)] at hi
      refine ⟨p, q, i, hi, hu.chain', hm ▸ h.current, ?_⟩
      rw [← h.time, hm, List.map_congr_left hp]
    | cons x m =>
      obtain ⟨rfl, rfl⟩ := List.cons.inj hm'
      rw [hm, List.map_append, List.sum_append, List.map_cons, List.sum_cons] at htime
      cases m with
      | nil =>
        -- The place is at the watchdog.
        have hcur : i.current = some y := by rw [h.current, hm, List.getLast?_concat]
        have hself := removeFixup_self (s := s) hcur (by
          rw [hnext]
          exact fun hc => hyq (List.mem_of_mem_head? hc))
        rw [hself, hprev] at hi
        have hdy := hf.2 hcur
        rw [List.map_nil, List.sum_nil] at htime
        cases hlast : p.getLast? with
        | none =>
          rw [hlast] at hi hdy
          obtain rfl := List.getLast?_eq_none_iff.mp hlast
          refine ⟨[], post, _, hi, hu.chain', rfl, ?_⟩
          change 0 + i.deltaInterval = total
          have : s.delta y = 0 := hdy
          rw [List.map_nil, List.sum_nil] at htime
          omega
        | some z =>
          rw [hlast] at hi hdy
          have hz : s.delta y = s.delta z := hdy
          refine ⟨p, post, _, hi, hu.chain', hlast.symm, ?_⟩
          change (p.map s'.delta).sum + (i.deltaInterval + s.delta z) % 2 ^ 32 = total
          rw [List.map_congr_left hp, Nat.mod_eq_of_lt (by omega)]
          omega
      | cons x m =>
        -- The place is further on, and `x` takes over the interval.
        have hcur : i.current = (x :: m).getLast? := by
          rw [h.current, hm, List.getLast?_append_cons, List.getLast?_cons_cons]
        have hne : i.current ≠ some y := by
          intro hc
          have hmem : y ∈ x :: m := List.mem_of_getLast? (hcur.symm.trans hc)
          exact hyq (List.mem_append_left post hmem)
        rw [removeFixup_of_ne hne (hnext ▸ hf.1) (by omega)] at hi
        have hx : s'.delta x = s.delta x + s.delta y := by
          rw [hu.delta_next x rfl]
          exact Nat.mod_eq_of_lt (hb x rfl)
        have hm_eq : ∀ z ∈ m, s'.delta z = s.delta z := by
          intro z hz
          refine hu.delta_other z fun e => ?_
          have hnq := (List.nodup_cons.mp
            (List.nodup_cons.mp (List.nodup_append.mp hnd').2.1).2).1
          exact hnq (Option.some.inj e ▸ List.mem_append_left post hz)
        refine ⟨p ++ x :: m, post, i, hi, ?_, ?_, ?_⟩
        · rw [hu.chain', List.append_assoc]
          rfl
        · rw [hcur, List.getLast?_append_cons]
        · rw [List.map_cons, List.sum_cons] at htime
          rw [List.map_append, List.sum_append, List.map_cons, List.sum_cons,
            List.map_congr_left hp, List.map_congr_left hm_eq, hx]
          omega

/-- A nested operation takes a watchdog off the chain, which an event says. -/
theorem Walk.unlink (h : Walk base w n a s) (hn : n < 2 ^ 32) {p q : List Wid} (hne : y ≠ w)
    (hc : s.watchdogs = p ++ y :: q) (hf : RemoveFits s a y) {e : Event Wid}
    (hr : ∀ x, remaining base (e :: s.history) x =
      if y = x then none else remaining base s.history x)
    (he : Watchdog.elapsed (e :: s.history) = Watchdog.elapsed s.history) :
    Walk base w n a ((removeIt s y).log e) := by
  obtain ⟨pre, post, i, hp⟩ := h.place
  obtain ⟨hu, hh, hit⟩ := removeIt_spec h.header.nodup hc
  have hlog : ((removeIt s y).log e).history = e :: s.history := congrArg (e :: ·) hh
  have hu' : Unlinked s ((removeIt s y).log e) y p q :=
    ⟨hu.chain, hu.chain', hu.delta_next, hu.delta_other, hu.state_self, hu.state_other⟩
  have hactive : (s.controls y).state = .active :=
    (h.header.active y).mp (hc ▸ List.mem_append_right p List.mem_cons_self)
  have hiter : ((removeIt s y).log e).iterator a = some (removeFixup s y i) := by
    change (removeIt s y).iterators.find? _ = _
    rw [hit]
    exact find_map removeFixup_address hp.iterator
  have hbound : ∀ x ∈ q.head?, s.delta x + s.delta y < 2 ^ 32 := by
    intro x hx
    have ht := h.header.timed
    obtain ⟨q', rfl⟩ := List.head?_eq_some_iff.mp hx
    rw [hc, timed_append] at ht
    obtain ⟨_, ⟨k, hk, hb⟩, _⟩ := ht.2
    have hmem : x ∈ s.watchdogs := by
      rw [hc]
      exact List.mem_append_right p (List.mem_cons_of_mem y List.mem_cons_self)
    have := h.header.bound x hmem k hk
    omega
  have hel := h.elapsed
  refine ⟨h.header.unlink hu' fun x hx => ?_, ?_, ?_, ?_, ?_⟩
  · rw [hlog, hr, if_neg hx.symm]
  · exact (hu.state_other w hne.symm).trans h.state
  · rw [hlog, hr, if_neg hne, he]
    exact h.left
  · rw [hlog, he]
    exact hel
  · rw [hlog, he]
    exact hp.unlink hu' h.header.nodup hbound (by omega) (hf hactive i hp.iterator) hiter

/-- The insertion of another watchdog is aborted. -/
theorem Walk.abort (h : Walk base w n a s) (hne : y ≠ w)
    (hs : (s.controls y).state = .beingInserted) :
    Walk base w n a (s.onControl y fun c => { c with state := .inactive }) := by
  obtain ⟨pre, post, i, hp⟩ := h.place
  have hd : (s.onControl y fun c => { c with state := .inactive }).delta = s.delta := by
    funext x
    rw [State.delta, State.delta]
    rcases eq_or_ne x y with rfl | hx
    · rw [onControl_self]
    · rw [onControl_other _ hx]
  have hheader : Header base (s.onControl y fun c => { c with state := .inactive }) := by
    refine ⟨h.header.nodup, fun x => ?_, ?_, h.header.bound⟩
    · change x ∈ s.watchdogs ↔ _
      rw [h.header.active]
      rcases eq_or_ne x y with rfl | hx
      · rw [onControl_self, hs]
        constructor
        · intro hactive
          cases hactive
        · intro hactive
          cases hactive
      · rw [onControl_other _ hx]
    · rw [hd]
      exact h.header.timed
  refine ⟨hheader, ?_, h.left, h.elapsed, pre, post, i, hp.iterator, hp.chain, hp.current, ?_⟩
  · rw [onControl_other _ hne.symm]
    exact h.state
  · rw [hd]
    exact hp.time

theorem Walk.remove (h : Walk base w n a s) (hn : n < 2 ^ 32) (hne : y ≠ w)
    (hf : RemoveFits s a y) : Walk base w n a (Watchdog.remove s y).1 := by
  unfold Watchdog.remove
  split
  next => exact h
  next hs => exact h.abort hne hs
  next hs =>
    obtain ⟨p, q, hc⟩ := List.append_of_mem ((h.header.active y).mpr hs)
    exact h.unlink hn hne hc hf (fun _ => rfl) rfl

/-! ## A nested tick -/

theorem Walk.command (h : Walk base w n a s) (hn : n < 2 ^ 32) {c : Command Wid}
    (hf : c.Fits w a s) : Walk base w n a (c.run s) := by
  cases c with
  | insert y m => exact h.insertTicks hf.1.2 hf.2
  | remove y => exact h.remove hn hf.1 hf.2

theorem Walk.commands (hn : n < 2 ^ 32) {cs : List (Command Wid)} (h : Walk base w n a s)
    (hf : CommandsFit w a s cs) : Walk base w n a (cs.foldl Command.run s) := by
  induction cs generalizing s with
  | nil => exact h
  | cons c cs ih => exact ih (h.command hn hf.1) hf.2

theorem Walk.tickleLoop (hn : n < 2 ^ 32) {routine : Routine Wid} {fuel : Nat}
    (h : Walk base w n a s) (hf : TickleLoopFits routine w a fuel s) :
    Walk base w n a (tickleLoop routine fuel s) := by
  induction fuel generalizing s with
  | zero => exact h
  | succ fuel ih =>
    cases hc : s.watchdogs with
    | nil =>
      simp only [Watchdog.tickleLoop, hc]
      exact h
    | cons first rest =>
      simp only [Watchdog.tickleLoop, hc]
      simp only [TickleLoopFits, hc] at hf
      split
      next hz =>
        obtain ⟨hcmd, hloop⟩ := hf hz
        have hmem : first ∈ s.watchdogs := hc ▸ List.mem_cons_self
        have hne : first ≠ w := fun e => h.notMem (e ▸ hmem)
        have hactive := (h.header.active first).mp hmem
        have hc' : s.watchdogs = [] ++ first :: rest := hc
        have hfit : RemoveFits s a first := by
          intro _ i _
          refine ⟨fun _ _ => hz, fun _ => ?_⟩
          rw [hc', chainPrevious_mid List.not_mem_nil]
          exact hz
        rw [hactive, if_pos (beq_self_eq_true _)]
        have h' := h.unlink hn hne hc' hfit (e := .called first) (fun _ => rfl) rfl
        exact ih (h'.commands hn hcmd) hloop
      next => exact h

section

omit [DecidableEq Wid]

/-- Everything in the chain is overdue. -/
theorem Timed.overdue {r : Wid → Option Int} {d : Wid → Nat} {ws : List Wid} (h : Timed r d 0 ws)
    (hz : ∀ w ∈ ws, d w = 0) : Timed (fun w => (r w).map (· - 1)) d 0 ws := by
  induction ws with
  | nil => trivial
  | cons x xs ih =>
    obtain ⟨⟨k, hk, hb⟩, hxs⟩ := h
    have hx := hz x List.mem_cons_self
    rw [hx] at hb hxs
    refine ⟨⟨k - 1, congrArg (Option.map (· - 1)) hk, by omega⟩, ?_⟩
    rw [hx]
    exact ih hxs fun w hw => hz w (List.mem_cons_of_mem x hw)

end

theorem Walk.left_tick (h : Walk base w n a s) : remaining base (.tick :: s.history) w =
    some ((n : Int) - Watchdog.elapsed (.tick :: s.history)) := by
  rw [remaining, h.left, Watchdog.elapsed]
  refine congrArg some ?_
  dsimp only
  omega

/-- A tick when the first watchdog is not overdue. -/
theorem Walk.tick (h : Walk base w n a s) {first : Wid} {rest : List Wid}
    (hc : s.watchdogs = first :: rest) (hpos : 0 < s.delta first)
    (hf : ∀ i ∈ s.iterator a, i.current = none → i.deltaInterval = 0) :
    Walk base w n a ((s.log .tick).setDelta first (s.delta first - 1)) := by
  obtain ⟨pre, post, i, hp⟩ := h.place
  have hnd := h.header.nodup
  rw [hc, List.nodup_cons] at hnd
  have hel := h.elapsed
  have hother : ∀ x, x ≠ first →
      ((s.log .tick).setDelta first (s.delta first - 1)).delta x = s.delta x :=
    fun x hx => setDelta_other _ hx
  have hself : ((s.log .tick).setDelta first (s.delta first - 1)).delta first =
      s.delta first - 1 := setDelta_self _
  refine ⟨⟨h.header.nodup, fun x => ?_, ?_, fun x hx k hk => ?_⟩, ?_, h.left_tick, ?_, ?_⟩
  · rw [setDelta_state]
    exact h.header.active x
  · change Timed (fun x => (remaining base s.history x).map (· - 1)) _ 0 s.watchdogs
    have ht := h.header.timed
    rw [hc] at ht ⊢
    obtain ⟨⟨k, hk, hb⟩, hrest⟩ := ht
    refine ⟨⟨k - 1, congrArg (Option.map (· - 1)) hk, by rw [hself]; omega⟩, ?_⟩
    rw [hself]
    have hpass : Timed (fun x => (remaining base s.history x).map (· - ((1 : Nat) : Int))) s.delta
        (0 + (s.delta first - 1)) rest := by
      refine Timed.pass ?_
      rw [show 0 + (s.delta first - 1) + 1 = 0 + s.delta first by omega]
      exact hrest
    exact hpass.congr (fun _ _ => rfl) fun x hx => hother x fun e => hnd.1 (e ▸ hx)
  · obtain ⟨j, hj, rfl⟩ := Option.map_eq_some_iff.mp
      (show (remaining base s.history x).map (· - 1) = some k from hk)
    have := h.header.bound x hx j hj
    omega
  · rw [setDelta_state]
    exact h.state
  · change 0 ≤ Watchdog.elapsed s.history + 1
    omega
  · refine ⟨pre, post, i, hp.iterator, hp.chain, hp.current, ?_⟩
    have htime := hp.time
    change _ = ((n : Int) - (Watchdog.elapsed s.history + 1)).toNat
    have hchain := hp.chain
    rw [hc] at hchain
    cases pre with
    | nil =>
      have := hf i hp.iterator hp.current
      rw [List.map_nil, List.sum_nil] at htime ⊢
      omega
    | cons x xs =>
      obtain ⟨rfl, hxs⟩ := List.cons.inj hchain
      have hmap : xs.map ((s.log .tick).setDelta first (s.delta first - 1)).delta =
          xs.map s.delta :=
        List.map_congr_left fun z hz => hother z fun e =>
          hnd.1 (e ▸ hxs ▸ List.mem_append_left post hz)
      rw [List.map_cons, List.sum_cons] at htime ⊢
      rw [hmap, hself]
      omega

/-- A tick when everything is overdue. -/
theorem Walk.tick_overdue (h : Walk base w n a s) (hz : ∀ v ∈ s.watchdogs, s.delta v = 0)
    (hf : ∀ i ∈ s.iterator a, i.deltaInterval = 0) : Walk base w n a (s.log .tick) := by
  obtain ⟨pre, post, i, hp⟩ := h.place
  have hel := h.elapsed
  refine ⟨⟨h.header.nodup, h.header.active, h.header.timed.overdue hz, fun x hx k hk => ?_⟩,
    h.state, h.left_tick, ?_, pre, post, i, hp.iterator, hp.chain, hp.current, ?_⟩
  · obtain ⟨j, hj, rfl⟩ := Option.map_eq_some_iff.mp
      (show (remaining base s.history x).map (· - 1) = some k from hk)
    have := h.header.bound x hx j hj
    omega
  · change 0 ≤ Watchdog.elapsed s.history + 1
    omega
  · have htime := hp.time
    have hzero : (pre.map s.delta).sum = 0 := by
      rw [List.sum_eq_zero]
      intro k hk
      obtain ⟨x, hx, rfl⟩ := List.mem_map.mp hk
      exact hz x (hp.chain ▸ List.mem_append_left post hx)
    have hi := hf i hp.iterator
    change (pre.map s.delta).sum + _ = ((n : Int) - (Watchdog.elapsed s.history + 1)).toNat
    omega

theorem Walk.nested (h : Walk base w n a s) (hn : n < 2 ^ 32) {routine : Routine Wid}
    {op : Nested Wid} (hf : op.Fits routine w a s) : Walk base w n a (op.run routine s) := by
  cases op with
  | command c => exact h.command hn hf
  | tickle =>
    obtain ⟨htick, hloop⟩ := hf
    change Walk base w n a (Watchdog.tickle routine s)
    unfold Watchdog.tickle
    dsimp only at hloop ⊢
    change Walk base w n a (match s.watchdogs with | [] => _ | first :: _ => _)
    change (match s.watchdogs with | [] => _ | first :: _ => _) at hloop
    cases hc : s.watchdogs with
    | nil =>
      rcases htick with ⟨⟨first, hfirst, _⟩, _⟩ | ⟨hz, hi⟩
      · rw [hc] at hfirst
        cases hfirst
      · exact h.tick_overdue hz hi
    | cons first rest =>
      rw [hc] at hloop
      refine Walk.tickleLoop hn ?_ hloop
      rcases htick with ⟨⟨x, hx, hpos⟩, hi⟩ | ⟨hz, hi⟩
      · rw [hc] at hx
        obtain rfl := Option.some.inj hx
        have hif : (s.log .tick).delta first > 0 := hpos
        rw [if_pos hif]
        exact h.tick hc hpos hi
      · have hzero := hz first (hc ▸ List.mem_cons_self)
        have hif : ¬ (s.log .tick).delta first > 0 := Nat.not_lt.mpr (Nat.le_of_eq hzero)
        rw [if_neg hif]
        exact h.tick_overdue hz hi

theorem Walk.interrupt (hn : n < 2 ^ 32) {routine : Routine Wid} {ops : List (Nested Wid)}
    (h : Walk base w n a s) (hf : NestedFit routine w a s ops) :
    Walk base w n a (interrupt routine ops s) := by
  unfold Watchdog.interrupt
  induction ops generalizing s with
  | nil => exact h
  | cons op ops ih => exact ih (h.nested hn hf.1) hf.2

end Rtems.Watchdog
