import Rtems.Score.Types

/-!
# The watchdog chain

The model of `watchdoginsert.c`, `watchdogremove.c` and `watchdogadjust.c` for
one header.  The chain is the list of the watchdogs on it, and the head of the
chain as a place is `none`.  An insertion gives up the lock at each step of its
loop, and what runs there is a parameter of the loop.

Service routines are a parameter too: the list of insertions and removals that
a routine performs when it is called.  `history` is a ghost: what happened to
the watchdogs, the last event first.
-/

namespace Rtems.Watchdog

variable {Wid : Type} [DecidableEq Wid]

/-! ## The header -/

/-- The fields of `Watchdog_Control` in use here. -/
structure Control where
  state : WatchdogState
  initial : Nat
  deltaInterval : Nat
deriving DecidableEq, Repr

/-- `Watchdog_Iterator`, a local variable of an insertion. -/
structure Iterator (Wid : Type) where
  address : Nat
  deltaInterval : Nat
  current : Option Wid
deriving DecidableEq, Repr

inductive Event (Wid : Type) where
  | inserted (w : Wid) (interval : Nat)
  /-- A removal that returned `WATCHDOG_ACTIVE`. -/
  | removed (w : Wid)
  /-- A call of the service routine. -/
  | called (w : Wid)
  | tick
  /-- An adjustment backward. -/
  | delayed (units : Nat)
deriving DecidableEq, Repr

/-- `Watchdog_Header` and the watchdogs. -/
structure State (Wid : Type) where
  controls : Wid → Control
  watchdogs : List Wid
  iterators : List (Iterator Wid)
  history : List (Event Wid)

def State.delta (s : State Wid) (w : Wid) : Nat := (s.controls w).deltaInterval

/-- Change one watchdog. -/
def State.onControl (s : State Wid) (w : Wid) (f : Control → Control) : State Wid :=
  { s with controls := Function.update s.controls w (f (s.controls w)) }

def State.setDelta (s : State Wid) (w : Wid) (delta : Nat) : State Wid :=
  s.onControl w fun c => { c with deltaInterval := delta }

def State.log (s : State Wid) (e : Event Wid) : State Wid :=
  { s with history := e :: s.history }

/-! ## The chain -/

/-- `_Chain_Next`, where the tail is `none`. -/
def chainNext (chain : List Wid) : Option Wid → Option Wid
  | none => chain.head?
  | some w => (chain.dropWhile (· ≠ w)).tail.head?

/-- `_Chain_Previous`, where the head is `none`. -/
def chainPrevious (chain : List Wid) (w : Wid) : Option Wid :=
  (chain.takeWhile (· ≠ w)).getLast?

/-- `_Chain_Insert_unprotected`. -/
def chainInsert (chain : List Wid) (after : Option Wid) (w : Wid) : List Wid :=
  match after with
  | none => w :: chain
  | some v => chain.takeWhile (· ≠ v) ++ v :: w :: (chain.dropWhile (· ≠ v)).tail

/-! ## Insert -/

/-- `_Watchdog_Insert_fixup`. -/
def insertFixup (s : State Wid) (w : Wid) (delta : Nat) (next : Wid) (deltaNext : Nat) :
    State Wid :=
  { s.setDelta next (deltaNext - delta) with
    iterators := s.iterators.map fun i =>
      if i.current = some next then { i with current := some w } else i }

/-- Set the iterator of an insertion. -/
def setIterator (s : State Wid) (iterator : Nat) (delta : Nat) (current : Option Wid) :
    State Wid :=
  { s with
    iterators := s.iterators.map fun i =>
      if i.address = iterator then { i with deltaInterval := delta, current := current } else i }

/-- `_Chain_Extract_unprotected` of the iterator of an insertion. -/
def dropIterator (s : State Wid) (iterator : Nat) : State Wid :=
  { s with iterators := s.iterators.filter fun i => i.address ≠ iterator }

/-- The end of an insertion, after the loop. -/
def insertFinish (s : State Wid) (w : Wid) (iterator : Nat) (delta : Nat)
    (current : Option Wid) : State Wid :=
  dropIterator
    { s.onControl w (fun c => { c with deltaInterval := delta, state := .active }) with
      watchdogs := chainInsert s.watchdogs current w } iterator

/-- Where an insertion stands: at `_Watchdog_Flash`, or at its end. -/
inductive Progress (Wid : Type) where
  | flash (s : State Wid)
  | done (s : State Wid)

def Progress.state : Progress Wid → State Wid
  | .flash s | .done s => s

/-- The body of the loop of `_Watchdog_Insert_locked` up to `_Watchdog_Flash`, and what follows
the loop. -/
def insertBody (s : State Wid) (w : Wid) (iterator : Nat) (delta : Nat) (current : Option Wid) :
    Progress Wid :=
  match chainNext s.watchdogs current with
  | none => .done (insertFinish s w iterator delta current)
  | some next =>
    let deltaNext := s.delta next
    if delta < deltaNext then
      .done (insertFinish (insertFixup s w delta next deltaNext) w iterator delta current)
    else
      .flash (setIterator s iterator (delta - deltaNext) (some next))

/-- The start of `_Watchdog_Insert_locked`.  The fields of the iterator are set before anyone
reads them. -/
def insertBegin (s : State Wid) (w : Wid) (iterator : Nat) : Progress Wid :=
  let initial := (s.controls w).initial
  let s := s.onControl w fun c => { c with state := .beingInserted }
  let s : State Wid := { s with iterators := s.iterators ++ [⟨iterator, 0, none⟩] }
  insertBody (s.log (.inserted w initial)) w iterator initial none

/-- The body of the loop after `_Watchdog_Flash`. -/
def insertResume (s : State Wid) (w : Wid) (iterator : Nat) : Progress Wid :=
  if (s.controls w).state ≠ .beingInserted then .done (dropIterator s iterator)
  else
    match s.iterators.find? fun i => i.address = iterator with
    | none => .done s
    | some i => insertBody s w iterator i.deltaInterval i.current

/-- The loop, with what runs at the flash points. -/
def insertLoop (w : Wid) (iterator : Nat) :
    List (State Wid → State Wid) → Progress Wid → Progress Wid
  | _, .done s => .done s
  | [], .flash s => .flash s
  | interrupt :: rest, .flash s =>
    insertLoop w iterator rest (insertResume (interrupt s) w iterator)

/-- The address of a new iterator. -/
def freshAddress (s : State Wid) : Nat := (s.iterators.map (·.address)).sum + 1

/-- `_Watchdog_Insert` without interruption. -/
def insert (s : State Wid) (w : Wid) : State Wid :=
  if (s.controls w).state = .inactive then
    (insertLoop w (freshAddress s) (List.replicate s.watchdogs.length id)
      (insertBegin s w (freshAddress s))).state
  else s

/-- `_Watchdog_Insert_ticks`. -/
def insertTicks (s : State Wid) (w : Wid) (units : Nat) : State Wid :=
  insert (s.onControl w fun c => { c with initial := units }) w

/-! ## Remove -/

/-- The fix of an iterator when `w` is removed. -/
def removeFixup (s : State Wid) (w : Wid) (i : Iterator Wid) : Iterator Wid :=
  let next := chainNext s.watchdogs (some w)
  let previous := chainPrevious s.watchdogs w
  let i :=
    if i.current = next ∧ next ≠ none then
      { i with deltaInterval := (i.deltaInterval + s.delta w) % 2 ^ 32 }
    else i
  if i.current = some w then
    match previous with
    | none => { i with current := none }
    | some p =>
      { i with current := some p, deltaInterval := (i.deltaInterval + s.delta p) % 2 ^ 32 }
  else i

/-- `_Watchdog_Remove_it`. -/
def removeIt (s : State Wid) (w : Wid) : State Wid :=
  let s' := s.onControl w fun c => { c with state := .inactive }
  let s' :=
    match chainNext s.watchdogs (some w) with
    | none => s'
    | some next => s'.setDelta next ((s.delta next + s.delta w) % 2 ^ 32)
  { s' with
    watchdogs := s.watchdogs.erase w
    iterators := s.iterators.map (removeFixup s w) }

/-- `_Watchdog_Remove`, with the previous state. -/
def remove (s : State Wid) (w : Wid) : State Wid × WatchdogState :=
  match (s.controls w).state with
  | .inactive => (s, .inactive)
  | .beingInserted => (s.onControl w fun c => { c with state := .inactive }, .beingInserted)
  | .active => ((removeIt s w).log (.removed w), .active)

/-! ## Service routines -/

/-- What a service routine does to the chain. -/
inductive Command (Wid : Type) where
  | insert (w : Wid) (units : Nat)
  | remove (w : Wid)

def Command.run (s : State Wid) : Command Wid → State Wid
  | .insert w units => insertTicks s w units
  | .remove w => (Watchdog.remove s w).1

/-- A watchdog is inserted for a positive time. -/
def Command.Valid : Command Wid → Prop
  | .insert _ units => 0 < units ∧ units < 2 ^ 32
  | .remove _ => True

/-- The service routines. -/
abbrev Routine (Wid : Type) := State Wid → Wid → List (Command Wid)

/-- Call the service routine of a watchdog. -/
def callRoutine (routine : Routine Wid) (s : State Wid) (w : Wid) : State Wid :=
  let s := s.log (.called w)
  (routine s w).foldl Command.run s

/-! ## Tickle and adjust -/

/-- The loop of `_Watchdog_Tickle`.  Every turn takes a watchdog that is due off the chain. -/
def tickleLoop (routine : Routine Wid) : Nat → State Wid → State Wid
  | 0, s => s
  | fuel + 1, s =>
    match s.watchdogs with
    | [] => s
    | first :: _ =>
      if s.delta first = 0 then
        let run := (s.controls first).state == .active
        let s := removeIt s first
        tickleLoop routine fuel (if run then callRoutine routine s first else s)
      else s

/-- `_Watchdog_Tickle`. -/
def tickle (routine : Routine Wid) (s : State Wid) : State Wid :=
  let s := s.log .tick
  match s.watchdogs with
  | [] => s
  | first :: _ =>
    let s := if s.delta first > 0 then s.setDelta first (s.delta first - 1) else s
    tickleLoop routine s.watchdogs.length s

/-- `_Watchdog_Adjust_backward`. -/
def adjustBackward (s : State Wid) (units : Nat) : State Wid :=
  let s := s.log (.delayed units)
  match s.watchdogs with
  | [] => s
  | first :: _ => s.setDelta first ((s.delta first + units) % 2 ^ 32)

/-- Ticks that do not touch the chain. -/
def logTicks (s : State Wid) (units : Nat) : State Wid :=
  { s with history := List.replicate units .tick ++ s.history }

/-- The loop of `_Watchdog_Adjust_forward`. -/
def adjustForwardLoop (routine : Routine Wid) : Nat → State Wid → Nat → State Wid
  | 0, s, units => logTicks s units
  | fuel + 1, s, units =>
    match s.watchdogs with
    | [] => logTicks s units
    | first :: _ =>
      if units = 0 then s
      else if units < s.delta first then
        logTicks (s.setDelta first (s.delta first - units)) units
      else
        let rest := units - s.delta first
        let s := logTicks (s.setDelta first 1) (s.delta first - 1)
        adjustForwardLoop routine fuel (tickle routine s) rest

/-- `_Watchdog_Adjust_forward`. -/
def adjustForward (routine : Routine Wid) (s : State Wid) (units : Nat) : State Wid :=
  adjustForwardLoop routine (units + 1) s units

/-! ## What the history says -/

/-- The ticks remaining for a watchdog.  `base` says how many there were at the start. -/
def remaining (base : Wid → Option Int) : List (Event Wid) → Wid → Option Int
  | [], w => base w
  | .inserted v n :: h, w => if v = w then some n else remaining base h w
  | .removed v :: h, w => if v = w then none else remaining base h w
  | .called v :: h, w => if v = w then none else remaining base h w
  | .tick :: h, w => (remaining base h w).map (· - 1)
  | .delayed k :: h, w => (remaining base h w).map (· + k)

/-- The sum of the delta intervals from the head of the chain up to a watchdog. -/
def State.ticksTo (s : State Wid) (w : Wid) : Nat :=
  ((s.watchdogs.takeWhile (· ≠ w)).map s.delta).sum + s.delta w

end Rtems.Watchdog

/-!
## Timely histories

What a history of watchdogs should look like, in its own terms.  A watchdog is
called on the tick its time has run out, before the next tick, and in the order
of insertion.  `Timely.called_once` draws the conclusion: a watchdog inserted
for `n` ticks and not removed is called exactly once, on the `n`-th tick, and
`Timely.called_again` does so where it is inserted again afterwards.
-/

namespace Rtems.Watchdog

variable {Wid : Type} [DecidableEq Wid] {w v : Wid} {h : List (Event Wid)}

/-- When a watchdog was inserted last, counted in events. -/
def insertedAt : List (Event Wid) → Wid → Nat
  | [], _ => 0
  | .inserted v _ :: h, w => if v = w then h.length + 1 else insertedAt h w
  | _ :: h, w => insertedAt h w

/-- The ticks remaining for a watchdog where there was none at the start. -/
def left (h : List (Event Wid)) (w : Wid) : Option Int := remaining (fun _ => none) h w

/-- Every call is made when no tick remains, in the order of insertion, and before the next
tick, and no watchdog is inserted that is to be called. -/
def Timely : List (Event Wid) → Prop
  | [] => True
  | .inserted w _ :: h => left h w = none ∧ Timely h
  | .called w :: h => (left h w = some 0 ∧
      ∀ v, v ≠ w → left h v = some 0 → insertedAt h w < insertedAt h v) ∧ Timely h
  | .tick :: h => (∀ v k, left h v = some k → 0 < k) ∧ Timely h
  | _ :: h => Timely h

/-- The ticks of a history, less the delays. -/
def elapsed : List (Event Wid) → Int
  | [] => 0
  | .tick :: h => elapsed h + 1
  | .delayed k :: h => elapsed h - k
  | _ :: h => elapsed h

theorem insertedAt_le (h : List (Event Wid)) (w : Wid) : insertedAt h w ≤ h.length := by
  induction h with
  | nil => exact Nat.le_refl _
  | cons e h ih =>
    have hle : insertedAt h w ≤ (e :: h).length := Nat.le_succ_of_le ih
    cases e with
    | inserted v n =>
      simp only [insertedAt]
      split
      · exact Nat.le_refl _
      · exact hle
    | removed v => exact hle
    | called v => exact hle
    | tick => exact hle
    | delayed k => exact hle

theorem Timely.of_append {h₁ h₂ : List (Event Wid)} (ht : Timely (h₂ ++ h₁)) : Timely h₁ := by
  induction h₂ with
  | nil => exact ht
  | cons e h₂ ih =>
    refine ih ?_
    cases e with
    | inserted v n => exact ht.2
    | removed v => exact ht
    | called v => exact ht.2
    | tick => exact ht.2
    | delayed k => exact ht

/-- Events that say nothing about a watchdog but let the time pass. -/
def Silent (w : Wid) (h : List (Event Wid)) : Prop :=
  (∀ n, .inserted w n ∉ h) ∧ .removed w ∉ h ∧ .called w ∉ h

section

omit [DecidableEq Wid]

theorem Silent.of_cons {e : Event Wid} (hs : Silent w (e :: h)) : Silent w h :=
  ⟨fun n hn => hs.1 n (List.mem_cons_of_mem e hn), fun hn => hs.2.1 (List.mem_cons_of_mem e hn),
    fun hn => hs.2.2 (List.mem_cons_of_mem e hn)⟩

end

/-- The time that passes silently. -/
theorem Silent.left {h₁ h₂ : List (Event Wid)} (hs : Silent w h₂) :
    left (h₂ ++ h₁) w = (left h₁ w).map (· - elapsed h₂) := by
  induction h₂ with
  | nil => simp [elapsed]
  | cons e h₂ ih =>
    have ih := ih hs.of_cons
    unfold Watchdog.left at ih ⊢
    rw [List.cons_append]
    cases e with
    | inserted v n =>
      have hne : v ≠ w := fun e => hs.1 n (e ▸ List.mem_cons_self)
      simp only [remaining, if_neg hne, ih, elapsed]
    | removed v =>
      have hne : v ≠ w := fun e => hs.2.1 (e ▸ List.mem_cons_self)
      simp only [remaining, if_neg hne, ih, elapsed]
    | called v =>
      have hne : v ≠ w := fun e => hs.2.2 (e ▸ List.mem_cons_self)
      simp only [remaining, if_neg hne, ih, elapsed]
    | tick =>
      simp only [remaining, ih, elapsed, Option.map_map]
      congr 1
      funext k
      simp only [Function.comp_apply]
      omega
    | delayed k =>
      simp only [remaining, ih, elapsed, Option.map_map]
      congr 1
      funext j
      simp only [Function.comp_apply]
      omega

/-- A watchdog that is not active is not called before it is inserted. -/
theorem Timely.not_called {h₁ h₂ : List (Event Wid)} (ht : Timely (h₂ ++ h₁))
    (hn : left h₁ w = none) (hi : ∀ n, Event.inserted w n ∉ h₂) :
    Event.called w ∉ h₂ ∧ left (h₂ ++ h₁) w = none := by
  induction h₂ with
  | nil => exact ⟨List.not_mem_nil, hn⟩
  | cons e h₂ ih =>
    obtain ⟨hc, hl⟩ := ih (Timely.of_append (show Timely ([e] ++ (h₂ ++ h₁)) from ht))
      fun n hm => hi n (List.mem_cons_of_mem e hm)
    unfold left at hl ⊢
    rw [List.cons_append] at ht ⊢
    cases e with
    | inserted v n =>
      have hne : v ≠ w := fun e => hi n (e ▸ List.mem_cons_self)
      refine ⟨fun hm => (List.mem_cons.mp hm).elim nofun hc, ?_⟩
      simp only [remaining, if_neg hne, hl]
    | removed v =>
      refine ⟨fun hm => (List.mem_cons.mp hm).elim nofun hc, ?_⟩
      simp only [remaining, hl, ite_self]
    | called v =>
      refine ⟨fun hm => (List.mem_cons.mp hm).elim (fun e => ?_) hc, ?_⟩
      · obtain rfl := Event.called.inj e
        have := ht.1.1
        unfold left at this
        rw [hl] at this
        cases this
      · simp only [remaining, hl, ite_self]
    | tick =>
      refine ⟨fun hm => (List.mem_cons.mp hm).elim nofun hc, ?_⟩
      simp only [remaining, hl, Option.map_none]
    | delayed k =>
      refine ⟨fun hm => (List.mem_cons.mp hm).elim nofun hc, ?_⟩
      simp only [remaining, hl, Option.map_none]

/-- The last call of a watchdog in a history. -/
theorem exists_last_called (hc : Event.called w ∈ h) :
    ∃ h₁ h₂, h = h₂ ++ .called w :: h₁ ∧ Event.called w ∉ h₁ := by
  induction h with
  | nil => cases hc
  | cons e h ih =>
    by_cases hm : Event.called w ∈ h
    · obtain ⟨h₁, h₂, rfl, hn⟩ := ih hm
      exact ⟨h₁, e :: h₂, rfl, hn⟩
    · obtain rfl := (List.mem_cons.mp hc).resolve_right hm
      exact ⟨h, [], rfl, hm⟩

/-- **A watchdog inserted for `n` ticks and not removed is called exactly once, on the `n`-th
tick**, and not at all as long as fewer ticks have passed. -/
theorem Timely.called_once {n : Nat} {h₁ h₂ : List (Event Wid)}
    (ht : Timely (h₂ ++ .inserted w n :: h₁)) (hi : ∀ m, Event.inserted w m ∉ h₂)
    (hr : Event.removed w ∉ h₂)
    (hpos : ∀ k, left (h₂ ++ .inserted w n :: h₁) w = some k → 0 < k) :
    (Event.called w ∉ h₂ ∧ elapsed h₂ < n) ∨
    (∃ h₃ h₄, h₂ = h₄ ++ .called w :: h₃ ∧ Event.called w ∉ h₃ ∧ Event.called w ∉ h₄ ∧
      elapsed h₃ = n) := by
  have hins : left (.inserted w n :: h₁) w = some (n : Int) := if_pos rfl
  by_cases hc : Event.called w ∈ h₂
  · obtain ⟨h₃, h₄, rfl, hn⟩ := exists_last_called hc
    refine .inr ⟨h₃, h₄, rfl, hn, ?_, ?_⟩
    · rw [List.append_assoc] at ht
      refine (ht.not_called (if_pos rfl) fun m hm => hi m ?_).1
      exact List.mem_append_left _ hm
    · rw [List.append_assoc] at ht
      have hs : Silent w h₃ := by
        refine ⟨fun m hm => hi m ?_, fun hm => hr ?_, hn⟩
        · exact List.mem_append_right _ (List.mem_cons_of_mem _ hm)
        · exact List.mem_append_right _ (List.mem_cons_of_mem _ hm)
      have hz : left (h₃ ++ .inserted w n :: h₁) w = some 0 := ht.of_append.1.1
      rw [hs.left, hins] at hz
      have := Option.some.inj hz
      dsimp only at this
      omega
  · refine .inl ⟨hc, ?_⟩
    have hs : Silent w h₂ := ⟨hi, hr, hc⟩
    have hl : left (h₂ ++ .inserted w n :: h₁) w =
        (left (.inserted w n :: h₁) w).map (· - elapsed h₂) := hs.left
    rw [hins] at hl
    have := hpos _ hl
    dsimp only at this
    omega

/-- A watchdog that is inserted again, by its own routine or by anybody else, and was not removed
was called once in between, on the `n`-th tick. -/
theorem Timely.called_again {n m : Nat} {h₁ h₂ : List (Event Wid)}
    (ht : Timely (.inserted w m :: (h₂ ++ .inserted w n :: h₁)))
    (hi : ∀ k, Event.inserted w k ∉ h₂) (hr : Event.removed w ∉ h₂) :
    ∃ h₃ h₄, h₂ = h₄ ++ .called w :: h₃ ∧ Event.called w ∉ h₃ ∧ Event.called w ∉ h₄ ∧
      elapsed h₃ = n := by
  obtain ⟨hnone, ht⟩ := ht
  rcases ht.called_once hi hr fun k hk => absurd (hnone.symm.trans hk) nofun with ⟨hc, -⟩ | hcalled
  · have hs : Silent w h₂ := ⟨hi, hr, hc⟩
    have hins : left (.inserted w n :: h₁) w = some (n : Int) := if_pos rfl
    rw [hs.left, hins] at hnone
    cases hnone
  · exact hcalled

end Rtems.Watchdog
