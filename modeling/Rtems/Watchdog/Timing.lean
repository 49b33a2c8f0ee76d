import Rtems.Watchdog.Ticks

/-!
# The timing of watchdogs

Runs of whole operations on one header, with service routines that insert and
remove watchdogs.  An adjustment backward must leave every remaining time in
the range of the delta intervals; nothing else can overflow.
-/

namespace Rtems.Watchdog

variable {Wid : Type} [DecidableEq Wid] {s s' : State Wid} {w v : Wid}

/-! ## Tickle and adjust -/

section Routines

variable {routine : Routine Wid} (hroutine : ∀ s w, ∀ c ∈ routine s w, c.Valid)
include hroutine

theorem Inv.tickle (h : Inv s) (hd : NoneDue s) :
    Inv (tickle routine s) ∧ NoneDue (tickle routine s) := by
  cases hc : s.watchdogs with
  | nil =>
    have heq : Watchdog.tickle routine s = logTicks s 1 := by
      unfold Watchdog.tickle
      dsimp only
      rw [show (s.log .tick).watchdogs = s.watchdogs from rfl, hc]
      rfl
    rw [heq]
    exact h.idle hc 1
  | cons first rest =>
    have hpos : 0 < s.delta first := by
      have := hd first _ (h.left_first hc)
      omega
    have heq : Watchdog.tickle routine s = Watchdog.tickleLoop routine s.watchdogs.length
        (logTicks (s.setDelta first (s.delta first - 1)) 1) := by
      unfold Watchdog.tickle
      dsimp only
      rw [show (s.log .tick).watchdogs = s.watchdogs from rfl, hc]
      change Watchdog.tickleLoop routine
        (State.watchdogs (if s.delta first > 0 then _ else _)).length
          (if s.delta first > 0 then _ else _) = _
      rw [if_pos hpos]
      change Watchdog.tickleLoop routine s.watchdogs.length _ = _
      rw [hc]
      rfl
    rw [heq]
    refine (h.pass hc hpos).1.tickleLoop hroutine ?_
    exact List.countP_le_length

theorem Inv.adjustForwardLoop {fuel units : Nat} (h : Inv s) (hd : NoneDue s) (hu : units < fuel) :
    Inv (adjustForwardLoop routine fuel s units) ∧
      NoneDue (adjustForwardLoop routine fuel s units) := by
  induction fuel generalizing s units with
  | zero => cases hu
  | succ fuel ih =>
    simp only [Watchdog.adjustForwardLoop]
    split
    next hc => exact h.idle hc units
    next first rest hc =>
      have hpos : 0 < s.delta first := by
        have := hd first _ (h.left_first hc)
        omega
      split
      next => exact ⟨h, hd⟩
      next hne =>
        split
        next hlt => exact ⟨(h.pass hc (Nat.le_of_lt hlt)).1, (h.pass hc (Nat.le_of_lt hlt)).2 hlt⟩
        next hge =>
          have hpass := h.pass hc (u := s.delta first - 1) (Nat.sub_le _ _)
          rw [show s.delta first - (s.delta first - 1) = 1 by omega] at hpass
          obtain ⟨h', hd'⟩ := hpass.1.tickle hroutine (hpass.2 (by omega))
          exact ih h' hd' (by omega)

theorem Inv.adjustForward (h : Inv s) (hd : NoneDue s) (units : Nat) :
    Inv (adjustForward routine s units) ∧ NoneDue (adjustForward routine s units) :=
  h.adjustForwardLoop hroutine hd (Nat.lt_succ_self units)

end Routines

/-- The remaining times stay in range. -/
def InRange (s : State Wid) (units : Nat) : Prop :=
  ∀ w k, left s.history w = some k → k + units < 2 ^ 32

theorem left_delayed (u : Nat) (h : List (Event Wid)) (x : Wid) :
    left (.delayed u :: h) x = (left h x).map (· + (u : Int)) := rfl

theorem adjustBackward_frame (units : Nat) :
    (adjustBackward s units).watchdogs = s.watchdogs ∧
    (adjustBackward s units).iterators = s.iterators ∧
    (adjustBackward s units).history = .delayed units :: s.history ∧
    ∀ x, ((adjustBackward s units).controls x).state = (s.controls x).state := by
  unfold adjustBackward
  dsimp only
  split
  next => exact ⟨rfl, rfl, rfl, fun _ => rfl⟩
  next first rest _ => exact ⟨rfl, rfl, rfl, setDelta_state (s := s.log (.delayed units)) _⟩

theorem adjustBackward_delta {first : Wid} {rest : List Wid} (hc : s.watchdogs = first :: rest)
    (units : Nat) : (adjustBackward s units).delta first = (s.delta first + units) % 2 ^ 32 ∧
      ∀ x, x ≠ first → (adjustBackward s units).delta x = s.delta x := by
  have heq : adjustBackward s units =
      (s.log (.delayed units)).setDelta first ((s.delta first + units) % 2 ^ 32) := by
    unfold adjustBackward
    dsimp only
    rw [show (s.log (.delayed units)).watchdogs = s.watchdogs from rfl, hc]
    rfl
  rw [heq]
  exact ⟨setDelta_self _, fun x hx => setDelta_other _ hx⟩

theorem Inv.adjustBackward_timed {units : Nat} (h : Inv s) (hu : InRange s units) :
    Timed (left (.delayed units :: s.history)) (adjustBackward s units).delta 0 s.watchdogs := by
  cases hc : s.watchdogs with
  | nil => trivial
  | cons first rest =>
    obtain ⟨hself, hother⟩ := adjustBackward_delta hc units
    have ht := h.header.timed
    have hnd := h.header.nodup
    rw [hc] at ht
    rw [hc, List.nodup_cons] at hnd
    obtain ⟨⟨k, hk, hb⟩, hrest⟩ := ht
    have hlt := hu first k hk
    have hnn := h.nonneg first k hk
    rw [Nat.mod_eq_of_lt (by omega)] at hself
    refine ⟨⟨k + units, congrArg (Option.map (· + (units : Int))) hk, by omega⟩, ?_⟩
    have hdelay := hrest.delay (u := units) fun x _ j hj => h.nonneg x j hj
    rw [hself, ← Nat.add_assoc]
    exact hdelay.congr (fun _ _ => rfl) fun x hx => hother x fun e => hnd.1 (e ▸ hx)

theorem Inv.adjustBackward {units : Nat} (h : Inv s) (hd : NoneDue s) (hu : InRange s units) :
    Inv (adjustBackward s units) ∧ NoneDue (adjustBackward s units) := by
  obtain ⟨hw, hit, hh, hst⟩ := adjustBackward_frame (s := s) units
  have hsome : ∀ {x : Wid} {k : Int}, left (Watchdog.adjustBackward s units).history x = some k →
      ∃ j, left s.history x = some j ∧ j + units = k := by
    intro x k hk
    rw [hh, left_delayed] at hk
    exact Option.map_eq_some_iff.mp hk
  refine
    ⟨{ header := ⟨hw ▸ h.header.nodup, fun x => ?_, ?_, fun x _ k hk => ?_⟩
       iterators := hit.trans h.iterators
       settled := fun x => ?_
       known := fun x k hk => ?_
       nonneg := fun x k hk => ?_
       order := ?_
       timely := ?_ }, fun x k hk => ?_⟩
  · rw [hw, hst]
    exact h.header.active x
  · rw [hw, hh]
    exact h.adjustBackward_timed hu
  · obtain ⟨j, hj, rfl⟩ := hsome hk
    exact hu x j hj
  · rw [hst]
    exact h.settled x
  · obtain ⟨j, hj, _⟩ := hsome hk
    rw [hw]
    exact h.known x j hj
  · obtain ⟨j, hj, rfl⟩ := hsome hk
    have := h.nonneg x j hj
    omega
  · rw [hw, hh]
    refine h.order.imp fun {a b} hab heq => hab ?_
    rw [left_delayed, left_delayed] at heq
    exact Option.map_injective (fun i j hij => by simpa using hij) heq
  · rw [hh]
    exact h.timely
  · obtain ⟨j, hj, rfl⟩ := hsome hk
    have := hd x j hj
    omega

/-! ## Runs -/

inductive Op (Wid : Type) where
  | insert (w : Wid) (units : Nat)
  | remove (w : Wid)
  | tickle
  | adjustForward (units : Nat)
  | adjustBackward (units : Nat)

def Op.run (routine : Routine Wid) (s : State Wid) : Op Wid → State Wid
  | .insert w units => insertTicks s w units
  | .remove w => (Watchdog.remove s w).1
  | .tickle => Watchdog.tickle routine s
  | .adjustForward units => Watchdog.adjustForward routine s units
  | .adjustBackward units => Watchdog.adjustBackward s units

/-- Watchdogs are inserted for a positive time. -/
def Op.Enabled : Op Wid → Prop
  | .insert _ units => 0 < units ∧ units < 2 ^ 32
  | .adjustForward units | .adjustBackward units => units < 2 ^ 32
  | .remove _ | .tickle => True

/-- An adjustment backward leaves the remaining times in range. -/
def Op.InRange (s : State Wid) : Op Wid → Prop
  | .adjustBackward units => Watchdog.InRange s units
  | _ => True

/-- A run of operations, each of which meets the side condition `ok`. -/
inductive Runs (routine : Routine Wid) (ok : State Wid → Op Wid → Prop) :
    State Wid → List (Op Wid) → State Wid → Prop where
  | nil {s : State Wid} : Runs routine ok s [] s
  | cons {s s' : State Wid} {op : Op Wid} {ops : List (Op Wid)} : op.Enabled → ok s op →
      Runs routine ok (op.run routine s) ops s' → Runs routine ok s (op :: ops) s'

/-- An empty header and inactive watchdogs. -/
def start (controls : Wid → Control) : State Wid where
  controls w := { controls w with state := .inactive }
  watchdogs := []
  iterators := []
  history := []

theorem Inv.of_start (controls : Wid → Control) :
    Inv (start controls) ∧ NoneDue (start controls) := by
  refine ⟨⟨⟨List.nodup_nil, fun w => ?_, trivial, nofun⟩, rfl, fun w => ?_, fun w k hk => ?_,
    fun w k hk => ?_, List.Pairwise.nil, trivial⟩, fun w k hk => ?_⟩
  · exact ⟨fun hw => absurd hw List.not_mem_nil, fun hw => by cases hw⟩
  · exact nofun
  · cases hk
  · cases hk
  · cases hk

theorem Inv.step {routine : Routine Wid} (hroutine : ∀ s w, ∀ c ∈ routine s w, c.Valid)
    {op : Op Wid} (h : Inv s) (hd : NoneDue s) (he : op.Enabled) (hr : op.InRange s) :
    Inv (op.run routine s) ∧ NoneDue (op.run routine s) := by
  cases op with
  | insert w n =>
    obtain ⟨h', hdue⟩ := h.insertTicks (w := w) he.1 he.2
    exact ⟨h', h'.noneDue (Nat.le_zero.mp (hd.dueCount ▸ hdue))⟩
  | remove w =>
    have hdue := h.dueCount_remove w
    exact ⟨h.remove w, (h.remove w).noneDue (Nat.le_zero.mp (hd.dueCount ▸ hdue))⟩
  | tickle => exact h.tickle hroutine hd
  | adjustForward n => exact h.adjustForward hroutine hd n
  | adjustBackward n => exact h.adjustBackward hd hr

theorem Inv.run {routine : Routine Wid} (hroutine : ∀ s w, ∀ c ∈ routine s w, c.Valid)
    {ops : List (Op Wid)} (h : Inv s) (hd : NoneDue s)
    (hr : Runs routine (fun s op => op.InRange s) s ops s') : Inv s' ∧ NoneDue s' := by
  induction hr with
  | nil => exact ⟨h, hd⟩
  | cons he ho _ ih =>
    obtain ⟨h', hd'⟩ := h.step hroutine hd he ho
    exact ih h' hd'

/-! ## Timing -/

/-- What the times of a header promise. -/
structure Timing (s : State Wid) : Prop where
  /-- The sum of the intervals up to an active watchdog is the number of ticks remaining. -/
  ticksTo : ∀ w, (s.controls w).state = .active → left s.history w = some (s.ticksTo w : Int)
  head_pos : ∀ w ∈ s.watchdogs.head?, 0 < s.delta w
  /-- A watchdog inserted for `n` ticks and not removed is called exactly once, on the `n`-th
  tick. -/
  called_once : ∀ w (n : Nat) h₁ h₂, s.history = h₂ ++ .inserted w n :: h₁ →
    (∀ m, Event.inserted w m ∉ h₂) → Event.removed w ∉ h₂ →
    (Event.called w ∉ h₂ ∧ elapsed h₂ < n) ∨
    (∃ h₃ h₄, h₂ = h₄ ++ .called w :: h₃ ∧ Event.called w ∉ h₃ ∧ Event.called w ∉ h₄ ∧
      elapsed h₃ = n)
  /-- So is one that is inserted again, by its own routine or by anybody else, before that. -/
  called_again : ∀ w (n m : Nat) h₁ h₂ h₃,
    s.history = h₃ ++ .inserted w m :: (h₂ ++ .inserted w n :: h₁) →
    (∀ k, Event.inserted w k ∉ h₂) → Event.removed w ∉ h₂ →
    ∃ h₄ h₅, h₂ = h₅ ++ .called w :: h₄ ∧ Event.called w ∉ h₄ ∧ Event.called w ∉ h₅ ∧
      elapsed h₄ = n
  /-- A watchdog that was removed is not called before it is inserted again. -/
  not_called : ∀ w h₁ h₂, s.history = h₂ ++ .removed w :: h₁ →
    (∀ m, Event.inserted w m ∉ h₂) → Event.called w ∉ h₂
  /-- Of the watchdogs that are due, the one inserted first is called first. -/
  in_order : ∀ w v h₁ h₂, s.history = h₂ ++ .called w :: h₁ → v ≠ w → left h₁ v = some 0 →
    insertedAt h₁ w < insertedAt h₁ v
  /-- Inserting and removing a watchdog changes no other watchdog's time. -/
  insert_other : ∀ w n v, 0 < n → n < 2 ^ 32 → v ≠ w → (s.controls v).state = .active →
    (insertTicks s w n).ticksTo v = s.ticksTo v
  remove_other : ∀ w v, v ≠ w → (s.controls v).state = .active →
    (remove s w).1.ticksTo v = s.ticksTo v

theorem Inv.ticksTo (h : Inv s) (hw : w ∈ s.watchdogs) :
    left s.history w = some (s.ticksTo w : Int) := by
  obtain ⟨k, hk, hb⟩ := h.header.timed.ticksTo hw
  have := h.nonneg w k hk
  rw [show left s.history w = some k from hk]
  exact congrArg some (by omega)

/-- A watchdog keeps its time if the history keeps it. -/
theorem Inv.ticksTo_eq (h : Inv s) (h' : Inv s') (hw : w ∈ s.watchdogs)
    (hl : left s'.history w = left s.history w) : s'.ticksTo w = s.ticksTo w := by
  have h1 := h.ticksTo hw
  have h2 := h'.ticksTo (h'.known w _ (hl.trans h1))
  rw [hl, h1] at h2
  have := Option.some.inj h2
  omega

theorem Inv.left_insertTicks (h : Inv s) {n : Nat} (hne : v ≠ w) :
    left (Watchdog.insertTicks s w n).history v = left s.history v := by
  have h' := h.setInitial (w := w) n
  unfold Watchdog.insertTicks
  generalize hr : (s.onControl w fun c => { c with initial := n }) = r at h'
  have hh : r.history = s.history := by rw [← hr]; rfl
  by_cases hs : (r.controls w).state = .inactive
  · have hw : w ∉ r.watchdogs := by
      rw [h'.header.active, hs]
      exact nofun
    obtain ⟨_, _, _, _, _, hi, _⟩ := insert_spec h'.header.nodup hw hs
    rw [hi, left_inserted, if_neg hne.symm, hh]
  · rw [show Watchdog.insert r w = r from if_neg hs, hh]

theorem Inv.left_remove (h : Inv s) (hne : v ≠ w) :
    left (Watchdog.remove s w).1.history v = left s.history v := by
  unfold Watchdog.remove
  split
  next => rfl
  next => rfl
  next hs =>
    obtain ⟨pre, post, hc⟩ := List.append_of_mem ((h.header.active w).mpr hs)
    change left (.removed w :: (removeIt s w).history) v = _
    rw [(removeIt_spec h.header.nodup hc).2.1]
    exact if_neg hne.symm

theorem Inv.timing (h : Inv s) (hd : NoneDue s) : Timing s where
  ticksTo w hw := h.ticksTo ((h.header.active w).mpr hw)
  head_pos w hw := by
    cases hc : s.watchdogs with
    | nil =>
      rw [hc] at hw
      cases hw
    | cons first rest =>
      rw [hc] at hw
      obtain rfl := Option.some.inj hw
      have := hd _ _ (h.left_first hc)
      omega
  called_once w n h₁ h₂ hh hi hr :=
    Timely.called_once (hh ▸ h.timely) hi hr fun k hk => hd w k (hh ▸ hk)
  called_again w n m h₁ h₂ h₃ hh hi hr := by
    have ht := h.timely
    rw [hh] at ht
    exact ht.of_append.called_again hi hr
  not_called w h₁ h₂ hh hi := by
    have ht := h.timely
    rw [hh] at ht
    exact (ht.not_called (if_pos rfl) hi).1
  in_order w v h₁ h₂ hh hne hv := by
    have ht := h.timely
    rw [hh] at ht
    exact ht.of_append.1.2 v hne hv
  insert_other w n v hpos hlt hne hv :=
    h.ticksTo_eq (h.insertTicks hpos hlt).1 ((h.header.active v).mpr hv) (h.left_insertTicks hne)
  remove_other w v hne hv :=
    h.ticksTo_eq (h.remove w) ((h.header.active v).mpr hv) (h.left_remove hne)

/-- **The timing of watchdogs** in every run whose adjustments backward leave the remaining times
in range. -/
theorem watchdog_timing {routine : Routine Wid} (hroutine : ∀ s w, ∀ c ∈ routine s w, c.Valid)
    {controls : Wid → Control} {ops : List (Op Wid)}
    (hrun : Runs routine (fun s op => op.InRange s) (start controls) ops s) : Timing s := by
  obtain ⟨h, hd⟩ := Inv.of_start controls
  obtain ⟨h', hd'⟩ := h.run hroutine hd hrun
  exact h'.timing hd'

/-- The service routines of the watchdogs 1 and 3 insert watchdog 3. -/
def exampleRoutine : Routine Nat := fun _ w => if w = 1 ∨ w = 3 then [.insert 3 1] else []

theorem exampleRoutine_valid (s : State Nat) (w : Nat) : ∀ c ∈ exampleRoutine s w, c.Valid := by
  intro c hc
  unfold exampleRoutine at hc
  split at hc
  · rw [List.mem_singleton.mp hc]
    exact ⟨by decide, by decide⟩
  · cases hc

theorem watchdog_timing_two :
    let ops : List (Op Nat) := [.insert 1 2, .insert 2 2, .tickle, .tickle, .tickle]
    let s := ops.foldl (Op.run exampleRoutine) (start fun _ => ⟨.inactive, 0, 0⟩)
    s.history = [.inserted 3 1, .called 3, .tick, .called 2, .inserted 3 1, .called 1, .tick, .tick,
      .inserted 2 2, .inserted 1 2] ∧ Timing s := by
  intro ops s
  have hrun : Runs exampleRoutine (fun s op => op.InRange s) (start fun _ => ⟨.inactive, 0, 0⟩)
      ops s :=
    .cons ⟨by decide, by decide⟩ trivial <| .cons ⟨by decide, by decide⟩ trivial <|
      .cons trivial trivial <| .cons trivial trivial <| .cons trivial trivial .nil
  exact ⟨by decide, watchdog_timing exampleRoutine_valid hrun⟩

/-- An adjustment backward overflows the delta interval of the first watchdog: 4294967300 ticks
remain for it, and the chain says 4. -/
theorem watchdog_timing_overflow : ¬ ∀ (routine : Routine Nat) (controls : Nat → Control)
    (ops : List (Op Nat)) (s : State Nat), (∀ s w, ∀ c ∈ routine s w, c.Valid) →
      Runs routine (fun _ _ => True) (start controls) ops s → Timing s := by
  intro hall
  let ops : List (Op Nat) := [.insert 1 5, .adjustBackward 4294967295]
  have hrun : Runs exampleRoutine (fun _ _ => True) (start fun _ => ⟨.inactive, 0, 0⟩) ops
      (ops.foldl (Op.run exampleRoutine) (start fun _ => ⟨.inactive, 0, 0⟩)) :=
    .cons ⟨by decide, by decide⟩ trivial <| .cons (by change _ < _; decide) trivial .nil
  have hticks := (hall _ _ _ _ exampleRoutine_valid hrun).ticksTo 1 (by decide)
  exact absurd hticks (by decide)

end Rtems.Watchdog

/-!
## A bulk advance is that many ticks

`_Watchdog_Adjust_forward` takes whole delta intervals off its unit count and
forces the delta interval of the first watchdog to one before it tickles.  For
service routines that leave the chain alone this is the same as tickling once
for every unit: the same chain, the same delta intervals, and the same calls of
service routines in the same order.
-/

namespace Rtems.Watchdog

variable {Wid : Type} [DecidableEq Wid] {s : State Wid} {first : Wid} {rest : List Wid}

/-! ## Time that passes in front of the first watchdog -/

/-- The delta interval at the head of the chain is positive. -/
def HeadWaits (s : State Wid) : Prop :=
  ∀ first rest, s.watchdogs = first :: rest → 0 < s.delta first

/-- Some ticks pass, and the first watchdog is left with a delta interval. -/
def passed (s : State Wid) (first : Wid) (units : Nat) : State Wid :=
  logTicks (s.setDelta first (s.delta first - units)) units

theorem passed_watchdogs (units : Nat) : (passed s first units).watchdogs = s.watchdogs := rfl

theorem passed_delta (units : Nat) :
    (passed s first units).delta first = s.delta first - units :=
  setDelta_self _

theorem setDelta_setDelta (δ δ' : Nat) :
    (s.setDelta first δ).setDelta first δ' = s.setDelta first δ' := by
  simp [State.setDelta, State.onControl]

theorem setDelta_delta : s.setDelta first (s.delta first) = s := by
  simp [State.setDelta, State.onControl, State.delta]

theorem passed_zero : passed s first 0 = s := by
  rw [passed, Nat.sub_zero, setDelta_delta]
  rfl

theorem passed_passed (u v : Nat) : passed (passed s first u) first v = passed s first (u + v) := by
  rw [passed, passed_delta, Nat.sub_sub, passed, passed]
  change logTicks (logTicks ((s.setDelta first _).setDelta first _) u) v = _
  rw [setDelta_setDelta, logTicks, logTicks, logTicks, Nat.add_comm u v, List.replicate_add,
    List.append_assoc]

/-! ## One tick -/

variable {routine : Routine Wid}

theorem tickle_empty (hc : s.watchdogs = []) : tickle routine s = logTicks s 1 := by
  simp only [tickle]
  rw [show (s.log .tick).watchdogs = s.watchdogs from rfl, hc]
  rfl

theorem tickle_waiting (hc : s.watchdogs = first :: rest) (hpos : 0 < s.delta first) :
    tickle routine s = tickleLoop routine s.watchdogs.length (passed s first 1) := by
  simp only [tickle]
  rw [show (s.log .tick).watchdogs = s.watchdogs from rfl, hc]
  simp only [show (s.log .tick).delta first = s.delta first from rfl, gt_iff_lt, if_pos hpos]
  rw [show ((s.log .tick).setDelta first (s.delta first - 1)).watchdogs = s.watchdogs from rfl, hc]
  rfl

theorem tickleLoop_waiting (fuel : Nat) (hc : s.watchdogs = first :: rest)
    (hpos : 0 < s.delta first) : tickleLoop routine fuel s = s := by
  cases fuel with
  | zero => rfl
  | succ fuel => simp [tickleLoop, hc, Nat.pos_iff_ne_zero.mp hpos]

theorem tickle_passed (hc : s.watchdogs = first :: rest) (hlt : 1 < s.delta first) :
    tickle routine s = passed s first 1 := by
  rw [tickle_waiting hc (Nat.lt_trans Nat.zero_lt_one hlt)]
  have hwaits : 0 < (passed s first 1).delta first := by
    rw [passed_delta]
    exact Nat.sub_pos_of_lt hlt
  exact tickleLoop_waiting _ hc hwaits

/-- Ticks that do not exhaust the first delta interval. -/
theorem tickles_passed (hc : s.watchdogs = first :: rest) {units : Nat}
    (hlt : units < s.delta first) : (tickle routine)^[units] s = passed s first units := by
  induction units with
  | zero => exact passed_zero.symm
  | succ units ih =>
    have hwaits : 1 < (passed s first units).delta first := by
      rw [passed_delta]
      omega
    have hchain : (passed s first units).watchdogs = first :: rest := hc
    rw [Function.iterate_succ_apply', ih (Nat.lt_of_succ_lt hlt), tickle_passed hchain hwaits,
      passed_passed]

theorem tickles_empty (hc : s.watchdogs = []) (units : Nat) :
    (tickle routine)^[units] s = logTicks s units := by
  induction units with
  | zero => rfl
  | succ units ih =>
    rw [Function.iterate_succ_apply', ih, tickle_empty (s := logTicks s units) hc]
    simp [logTicks, List.replicate_succ]

/-! ## Service routines that leave the chain alone -/

/-- The service routines do not modify the chain. -/
def KeepsChain (routine : Routine Wid) : Prop :=
  ∀ s w, (callRoutine routine s w).watchdogs = s.watchdogs ∧
    ∀ v ∈ s.watchdogs, (callRoutine routine s w).delta v = s.delta v

/-- The loop of a tick ends with nothing due: every turn takes one watchdog off the chain. -/
theorem tickleLoop_headWaits (hkeeps : KeepsChain routine) {fuel : Nat}
    (hfuel : s.watchdogs.length ≤ fuel) : HeadWaits (tickleLoop routine fuel s) := by
  induction fuel generalizing s with
  | zero =>
    intro first rest hc
    simp only [tickleLoop] at hc
    simp [hc] at hfuel
  | succ fuel ih =>
    cases hs : s.watchdogs with
    | nil =>
      intro first rest hc
      simp [tickleLoop, hs] at hc
    | cons first rest =>
      rcases Nat.eq_zero_or_pos (s.delta first) with hz | hpos
      · have hremoved : (removeIt s first).watchdogs = rest := by
          simp [removeIt, hs]
        have hlen : rest.length ≤ fuel := by
          simpa [hs] using hfuel
        simp only [tickleLoop, hs, hz, if_true]
        apply ih
        split
        · rw [(hkeeps _ _).1, hremoved]
          exact hlen
        · rw [hremoved]
          exact hlen
      · rw [tickleLoop_waiting _ hs hpos]
        intro x xs hx
        rw [hs] at hx
        cases hx
        exact hpos

theorem tickle_headWaits (hkeeps : KeepsChain routine) (hhead : HeadWaits s) :
    HeadWaits (tickle routine s) := by
  cases hs : s.watchdogs with
  | nil =>
    rw [tickle_empty hs]
    intro first rest hc
    have : s.watchdogs = first :: rest := hc
    simp [hs] at this
  | cons first rest =>
    rw [tickle_waiting hs (hhead first rest hs)]
    exact tickleLoop_headWaits hkeeps (Nat.le_refl _)

/-! ## The bulk advance -/

/-- Each turn of the bulk advance that reaches the first watchdog is as many ticks as its delta
interval says. -/
theorem adjustForwardLoop_tickles (hkeeps : KeepsChain routine) {fuel units : Nat}
    (hhead : HeadWaits s) (hfuel : units < fuel) :
    adjustForwardLoop routine fuel s units = (tickle routine)^[units] s := by
  induction fuel generalizing s units with
  | zero => cases hfuel
  | succ fuel ih =>
    cases hs : s.watchdogs with
    | nil => simp [adjustForwardLoop, hs, tickles_empty hs]
    | cons first rest =>
      have hpos := hhead first rest hs
      simp only [adjustForwardLoop, hs]
      split
      next hzero =>
        subst hzero
        rfl
      next hne =>
        split
        next hlt => exact (tickles_passed hs hlt).symm
        next hge =>
          -- The delta interval of the first watchdog ends: its last tick is a real one.
          have hone : logTicks (s.setDelta first 1) (s.delta first - 1) =
              passed s first (s.delta first - 1) := by
            rw [passed, Nat.sub_sub_self hpos]
          have hlast : (tickle routine)^[s.delta first] s =
              tickle routine (passed s first (s.delta first - 1)) := by
            conv_lhs => rw [← Nat.sub_add_cancel hpos]
            rw [Function.iterate_succ_apply', tickles_passed hs (by omega)]
          have hwaits : HeadWaits (passed s first (s.delta first - 1)) := by
            intro x xs hx
            rw [passed_watchdogs, hs] at hx
            cases hx
            rw [passed_delta]
            omega
          rw [hone, ih (tickle_headWaits hkeeps hwaits) (by omega), ← hlast,
            ← Function.iterate_add_apply, Nat.sub_add_cancel (Nat.le_of_not_lt hge)]

/-- Advancing by some units is tickling as often: the chains, the delta intervals and the calls
of service routines agree. -/
theorem adjustForward_tickles (hkeeps : KeepsChain routine) (hhead : HeadWaits s) (units : Nat) :
    adjustForward routine s units = (tickle routine)^[units] s :=
  adjustForwardLoop_tickles hkeeps hhead (Nat.lt_succ_self units)

/-- Two groups of watchdogs expire together with the end of the unit count. -/
theorem adjustForward_tickles_groups :
    let quiet : Routine Nat := fun _ _ => []
    let s : State Nat :=
      ⟨fun w => ⟨.active, 0, if w = 1 then 2 else if w = 3 then 1 else 0⟩, [1, 2, 3, 4], [], []⟩
    adjustForward quiet s 3 = (tickle quiet)^[3] s ∧ (adjustForward quiet s 3).watchdogs = [] ∧
      (adjustForward quiet s 3).history =
        [.called 4, .called 3, .tick, .called 2, .called 1, .tick, .tick] := by
  intro quiet s
  have hhead : HeadWaits s := by
    intro first rest hc
    cases hc
    decide
  exact ⟨adjustForward_tickles (fun _ _ => ⟨rfl, fun _ _ => rfl⟩) hhead 3, by decide, by decide⟩

end Rtems.Watchdog
