import Rtems.Interrupt.Calls

/-!
# Runs of installations and removals

Every call ends within its bound on turns, and has the effect on the list of its vector that the
other lists do not see.
-/

namespace Rtems.Interrupt

open LinkedQueue

variable {H : Type} [DecidableEq H] {vectorMax vector i : Nat} {s s' s₀ : Table H}
  {cells : Nat → List Nat} {new : List Nat} {info : Option Nat} {options arg a b : Nat} {h : H}
  {handler : Option H} {inIsr : Bool} {enable disable status : Status} {memory : Option Nat}
  {l l' : List (Handler H × Nat)}

/-! ## The calls -/

/-- A call was refused, or it had an effect on the handlers of its vector. -/
def Called (vectorMax : Nat) (s : Table H) (cells : Nat → List Nat) (vector : Nat)
    (effect : Status → List (Handler H × Nat) → List (Handler H × Nat) → Prop) (status : Status)
    (s' : Table H) : Prop :=
  s' = s ∧ status ≠ .successful ∨
  vector ≤ vectorMax ∧ ∃ new, Change s s' vector (cells vector) new ∧
    effect status (handlers s vector (cells vector)) (handlers s' vector new)

theorem called_refused
    {effect : Status → List (Handler H × Nat) → List (Handler H × Nat) → Prop}
    (hstatus : status ≠ .successful) : Called vectorMax s cells vector effect status s :=
  .inl ⟨rfl, hstatus⟩

theorem Shape.installNext (hs : Shape vectorMax s cells) (hi : i ≤ vectorMax)
    (he : s.isEmpty (.table i) = false) (ho : options ∈ [0, 1, 2])
    (hu : isReplace options = false → isUnique options = false ∧ s.unique i = false)
    (hm : ∀ a, memory = some a → a ∉ s.allocated) (info : Option Nat) (h : H) (arg : Nat) :
    let p : Entry H → Bool :=
      fun e => (e.handler = .routine h || isReplace options) && e.arg = arg
    let c := installNext s i info options h arg memory
      ((refs i (cells i)).find? fun x => p (s.entry x))
      ((refs i (cells i)).getLast (List.cons_ne_nil _ _))
    Called vectorMax s cells i (InstallEffect options (some h) arg enable) c.1 c.2 := by
  intro p c
  have hl := handlers_of_used he (cells i)
  cases hr : isReplace options with
  | true =>
    cases hf : (refs i (cells i)).find? fun x => p (s.entry x) with
    | none =>
      have hc : c = (.unsatisfied, s) := by
        simp only [c, Interrupt.installNext, hr, hf, if_true]
      rw [hc]
      exact called_refused (show Status.unsatisfied ≠ .successful by decide)
    | some r =>
      obtain ⟨hpr, xs, ys, hrefs, hxs⟩ := List.find?_eq_some_iff_append.mp hf
      obtain ⟨hchange, hhandlers⟩ := hs.replace hi he hrefs h info
      have huniq := isUnique_of_replace ho hr
      have hc : c = (.successful, (s.setEntry r
          { s.entry r with handler := .routine h, info := info }).setUnique i false) := by
        simp only [c, Interrupt.installNext, hr, hf, if_true, huniq]
      rw [hc]
      have harg : (s.entry r).arg = arg := by simpa [p, hr] using hpr
      refine .inr ⟨hi, _, hchange, ⟨?_, ?_, ?_⟩⟩
      · exact fun _ hfalse => Bool.noConfusion (hfalse.symm.trans hr)
      · intro _ _
        refine ⟨h, rfl, xs.map (pair s.entry), ys.map (pair s.entry), (s.entry r).handler, ?_,
          ?_, ?_⟩
        · rw [hl, hrefs, List.map_append, List.map_cons, ← harg]
          rfl
        · intro x hx
          obtain ⟨y, hy, rfl⟩ := List.mem_map.mp hx
          have hpy := hxs y hy
          simpa [p, hr, pair] using hpy
        · rw [hhandlers, harg]
      · exact fun hne => absurd rfl hne
  | false =>
    obtain ⟨huo, hus⟩ := hu hr
    cases hf : (refs i (cells i)).find? fun x => p (s.entry x) with
    | some r =>
      have hc : c = (.tooMany, s) := by
        simp only [c, Interrupt.installNext, hr, hf]
        rfl
      rw [hc]
      exact called_refused (show Status.tooMany ≠ .successful by decide)
    | none =>
      cases hmem : memory with
      | none =>
        have hc : c = (.noMemory, s) := by
          simp only [c, Interrupt.installNext, hr, hf, hmem]
          rfl
        rw [hc]
        exact called_refused (show Status.noMemory ≠ .successful by decide)
      | some a =>
        have hsplit := (List.dropLast_append_getLast
          (List.cons_ne_nil (Ref.table i) ((cells i).map .heap))).symm
        obtain ⟨hchange, hhandlers⟩ := hs.append hi he hsplit (hm a hmem) h info arg
        have hc : c = (.successful, ((({ s with allocated := a :: s.allocated }).setEntry
            (.heap a) ⟨.routine h, arg, info, none⟩).setEntry
            ((refs i (cells i)).getLast (List.cons_ne_nil _ _))
            { (({ s with allocated := a :: s.allocated }).setEntry
              (.heap a) ⟨.routine h, arg, info, none⟩).entry
              ((refs i (cells i)).getLast (List.cons_ne_nil _ _)) with
              next := some (.heap a) }).setUnique i false) := by
          simp only [c, Interrupt.installNext, hr, hf, hmem, huo]
          rfl
        rw [hc]
        refine .inr ⟨hi, _, hchange, ⟨?_, ?_, ?_⟩⟩
        · intro _ _
          refine ⟨h, rfl, ?_, hhandlers⟩
          rw [hl]
          intro hin
          obtain ⟨r, hr', hpair⟩ := List.mem_map.mp hin
          have hp := List.find?_eq_none.mp hf r hr'
          have h1 := congrArg Prod.fst hpair
          have h2 := congrArg Prod.snd hpair
          simp only [pair] at h1 h2
          simp [p, h1, h2] at hp
        · exact fun _ htrue => Bool.noConfusion (htrue.symm.trans hr)
        · exact fun hne => absurd rfl hne

theorem Shape.install (hs : Shape vectorMax s cells) (ho : options ∈ [0, 1, 2])
    (hm : ∀ a, memory = some a → a ∉ s.allocated) :
    ∃ status s', install vectorMax s vector info options handler arg inIsr enable memory =
        some (status, s') ∧
      Called vectorMax s cells vector (InstallEffect options handler arg enable) status s' := by
  unfold Interrupt.install
  rw [hs.init]
  cases hv : isValidVector vectorMax vector with
  | false => exact ⟨_, _, rfl, called_refused (by decide)⟩
  | true =>
    have hi : vector ≤ vectorMax := by
      have hand := (Bool.and_eq_true_iff.mp hv).2
      exact of_decide_eq_true hand
    cases handler with
    | none => exact ⟨_, _, rfl, called_refused (by decide)⟩
    | some h =>
      cases inIsr with
      | true => exact ⟨_, _, rfl, called_refused (by decide)⟩
      | false =>
        have hindex : handlerIndex vector = vector := Nat.sub_zero vector
        simp only [hindex]
        cases he : s.isEmpty (.table vector) with
        | true =>
          cases hr : isReplace options with
          | true => exact ⟨_, _, rfl, called_refused (by decide)⟩
          | false =>
            obtain ⟨hchange, hhandlers⟩ :=
              hs.installFirst hi he info options h arg enable
            have hl := handlers_of_empty he (cells vector)
            refine ⟨_, _, rfl, .inr ⟨hi, _, hchange, ?_⟩⟩
            rw [hl]
            show InstallEffect options (some h) arg enable enable []
              (handlers (Interrupt.installFirst s vector info options h arg enable).2
                vector [])
            rw [hhandlers]
            refine ⟨?_, ?_, ?_⟩
            · exact fun _ _ => ⟨h, rfl, List.not_mem_nil, rfl⟩
            · exact fun _ htrue => Bool.noConfusion (htrue.symm.trans hr)
            · exact fun _ => .inr ⟨rfl, rfl, h, rfl, rfl⟩
        | false =>
          by_cases hbusy : (! isReplace options &&
              (isUnique options || s.unique vector)) = true
          · rw [if_pos hbusy]
            exact ⟨_, _, rfl, called_refused (by decide)⟩
          · have hsearch := searchTail_of_path (hs.path vector hi) (hs.turns hi)
              (p := fun e => (e.handler = .routine h || isReplace options) && e.arg = arg)
              (o := none)
            rw [if_neg hbusy, hsearch]
            have hu : isReplace options = false →
                isUnique options = false ∧ s.unique vector = false := by
              intro hr
              simpa [hr] using hbusy
            exact ⟨_, _, rfl, hs.installNext hi he ho hu hm info h arg⟩

/-! ## Removals -/

/-- A pair is installed, and the entry `m` is the first one that has it. -/
structure Installed (s : Table H) (cells : Nat → List Nat) (i : Nat) (h : H) (arg : Nat)
    (xs : List Ref) (m : Ref) (ys : List Ref) : Prop where
  refs : refs i (cells i) = xs ++ m :: ys
  pair : pair s.entry m = (.routine h, arg)
  first : ∀ x ∈ xs, Interrupt.pair s.entry x ≠ (.routine h, arg)

variable {m : Ref} {xs ys : List Ref}

theorem Installed.isUsed (hm : Installed s cells i h arg xs m ys)
    (hs : Shape vectorMax s cells) (hi : i ≤ vectorMax) : s.isEmpty (.table i) = false := by
  cases hempty : s.isEmpty (.table i) with
  | false => rfl
  | true =>
    have hcells := hs.empty i hi hempty
    have hin : m ∈ Interrupt.refs i (cells i) := by
      rw [hm.refs]
      simp
    rw [hcells] at hin
    have hmh : (s.entry m).handler = .routine h := congrArg Prod.fst hm.pair
    rw [List.mem_singleton.mp hin] at hmh
    simp [Table.isEmpty, hmh] at hempty

theorem Installed.handlers (hm : Installed s cells i h arg xs m ys)
    (he : s.isEmpty (.table i) = false) : handlers s i (cells i) =
      xs.map (Interrupt.pair s.entry) ++ (.routine h, arg) :: ys.map (Interrupt.pair s.entry) := by
  rw [handlers_of_used he, hm.refs, List.map_append, List.map_cons, hm.pair]

theorem Installed.mem_handlers (hm : Installed s cells i h arg xs m ys)
    (he : s.isEmpty (.table i) = false) :
    (Handler.routine h, arg) ∈ Interrupt.handlers s i (cells i) := by
  rw [hm.handlers he]
  simp

theorem Installed.erase (hm : Installed s cells i h arg xs m ys)
    (he : s.isEmpty (.table i) = false) :
    (Interrupt.handlers s i (cells i)).erase (.routine h, arg) =
      xs.map (Interrupt.pair s.entry) ++ ys.map (Interrupt.pair s.entry) := by
  have hnot : (Handler.routine h, arg) ∉ xs.map (Interrupt.pair s.entry) := by
    intro hin
    obtain ⟨x, hx, hpx⟩ := List.mem_map.mp hin
    exact hm.first x hx hpx
  rw [hm.handlers he, List.erase_append_right _ hnot, List.erase_cons_head]

/-- An entry that is not the first one of its vector is from the heap. -/
theorem exists_heap_of_mem {r : Ref} (hr : r ∈ refs i (cells i)) (hne : r ≠ .table i) :
    ∃ b, r = .heap b := by
  cases r with
  | table j => exact absurd (congrArg Ref.table (mem_refs_table.mp hr)) hne
  | heap b => exact ⟨b, rfl⟩

/-- Only the first entry of a list is in the table. -/
theorem Shape.ne_table (hs : Shape vectorMax s cells) (hi : i ≤ vectorMax) {x r : Ref}
    (hrefs : refs i (cells i) = x :: xs) (hr : r ∈ xs) : r ≠ .table i := by
  rintro rfl
  have hn := (hs.path i hi).nodup
  have hx : Ref.table i = x := (List.cons.inj hrefs).1
  rw [hrefs, ← hx] at hn
  exact (List.nodup_cons.mp hn).1 hr

theorem Shape.entry_used (hs : Shape vectorMax s cells) (hi : i ≤ vectorMax)
    (he : s.isEmpty (.table i) = false) {r : Ref} (hr : r ∈ refs i (cells i)) :
    (s.entry r).handler ≠ .empty := by
  cases r with
  | heap a =>
    have hused := hs.handler i hi a (mem_refs_heap.mp hr)
    simpa [Table.isEmpty] using hused
  | table j =>
    rw [mem_refs_table.mp hr]
    simpa [Table.isEmpty] using he

/-- An entry takes over the contents of the next one, which is freed. -/
theorem Shape.removeBefore (hs : Shape vectorMax s cells) (hi : i ≤ vectorMax) {r : Ref}
    (hm : Installed s cells i h arg xs m (r :: ys)) (previous : Option Ref) :
    let c := removeMatch s i i m previous disable
    Called vectorMax s cells i (RemoveEffect (some h) arg disable) c.1 c.2 := by
  intro c
  have he := hm.isUsed hs hi
  have hpath := hs.path i hi
  rw [hm.refs] at hpath
  obtain ⟨o, -, -, hnext⟩ := LinkedQueue.Path.append.mp hpath
  have hsome : (s.entry m).next = some r := hnext.1
  have hmem : r ∈ refs i (cells i) := by
    rw [hm.refs]
    simp
  have hr : r ≠ .table i := by
    have hrefs := hm.refs
    cases xs with
    | nil => exact hs.ne_table hi hrefs List.mem_cons_self
    | cons x xs => exact hs.ne_table hi hrefs (by simp)
  obtain ⟨b, rfl⟩ := exists_heap_of_mem hmem hr
  obtain ⟨hchange, hhandlers⟩ := hs.unlink hi he hm.refs rfl (hs.entry_used hi he hmem)
  have hc : c = (.successful, freeHandlerEntry (s.setEntry m (s.entry (.heap b))) (.heap b)) := by
    simp only [c, Interrupt.removeMatch, hsome]
  rw [hc]
  refine .inr ⟨hi, _, hchange,
    ⟨fun _ => ⟨h, rfl, hm.mem_handlers he, ?_⟩, fun hne => absurd rfl hne⟩⟩
  rw [hhandlers, hm.erase he]
  rfl

/-- The only entry of a vector becomes empty. -/
theorem Shape.removeOnly (hs : Shape vectorMax s cells) (hi : i ≤ vectorMax)
    (hm : Installed s cells i h arg xs (.table i) []) (hnone : (s.entry (.table i)).next = none)
    (previous : Option Ref) :
    let c := removeMatch s i i (.table i) previous disable
    Called vectorMax s cells i (RemoveEffect (some h) arg disable) c.1 c.2 := by
  intro c
  have he := hm.isUsed hs hi
  have hrefs := hm.refs
  obtain rfl : xs = [] := by
    cases xs with
    | nil => rfl
    | cons x xs => exact absurd rfl (hs.ne_table hi hrefs (by simp))
  have hcells : cells i = [] := List.map_eq_nil_iff.mp (List.cons.inj hrefs).2
  obtain ⟨hchange, hhandlers⟩ := hs.clear hcells
  have hc : c = (disable, (s.setEntry (.table i) ⟨.empty, i, none, none⟩).setUnique i false) := by
    simp only [c, Interrupt.removeMatch, hnone, if_true]
  rw [hc]
  refine .inr ⟨hi, _, hchange, ⟨fun _ => ⟨h, rfl, hm.mem_handlers he, ?_⟩,
    fun _ => .inr ⟨rfl, ⟨h, rfl, hm.handlers he⟩, hhandlers⟩⟩⟩
  rw [hhandlers, hm.erase he]
  rfl

/-- The last entry of a list is unlinked from the entry before it. -/
theorem Shape.removeLast (hs : Shape vectorMax s cells) (hi : i ≤ vectorMax) {q : Ref}
    (hm : Installed s cells i h arg (xs ++ [q]) m []) (hnone : (s.entry m).next = none) :
    let c := removeMatch s i i m (some q) disable
    Called vectorMax s cells i (RemoveEffect (some h) arg disable) c.1 c.2 := by
  intro c
  have he := hm.isUsed hs hi
  have hrefs : refs i (cells i) = xs ++ q :: [m] := by
    rw [hm.refs]
    simp
  have hmem : ∀ r ∈ [q, m], r ∈ refs i (cells i) := by
    intro r hr
    rw [hrefs]
    exact List.mem_append_right _ hr
  have hmi : m ≠ .table i := by
    have hsplit := hrefs
    cases xs with
    | nil => exact hs.ne_table hi hsplit List.mem_cons_self
    | cons x xs => exact hs.ne_table hi hsplit (by simp)
  obtain ⟨b, rfl⟩ := exists_heap_of_mem (hmem m (by simp)) hmi
  obtain ⟨hchange, hhandlers⟩ := hs.unlink hi he (e := { s.entry q with next := none }) hrefs
    hnone.symm (hs.entry_used hi he (hmem q (by simp)))
  have hc : c = (.successful,
      freeHandlerEntry (s.setEntry q { s.entry q with next := none }) (.heap b)) := by
    simp only [c, Interrupt.removeMatch, hnone, if_neg hmi]
  rw [hc]
  refine .inr ⟨hi, _, hchange,
    ⟨fun _ => ⟨h, rfl, hm.mem_handlers he, ?_⟩, fun hne => absurd rfl hne⟩⟩
  rw [hhandlers, hm.erase he]
  simp [pair]

theorem Shape.removeMatch (hs : Shape vectorMax s cells) (hi : i ≤ vectorMax)
    (hm : Installed s cells i h arg xs m ys) :
    let c := removeMatch s i i m xs.getLast? disable
    Called vectorMax s cells i (RemoveEffect (some h) arg disable) c.1 c.2 := by
  cases ys with
  | cons r ys => exact hs.removeBefore hi hm _
  | nil =>
    have hpath := hs.path i hi
    rw [hm.refs] at hpath
    obtain ⟨o, -, -, hnone⟩ := LinkedQueue.Path.append.mp hpath
    cases xs using List.reverseRecOn with
    | nil =>
      obtain rfl : Ref.table i = m := (List.cons.inj hm.refs).1
      exact hs.removeOnly hi hm hnone _
    | append_singleton xs q =>
      rw [List.getLast?_concat]
      exact hs.removeLast hi hm hnone

theorem Shape.remove (hs : Shape vectorMax s cells) :
    ∃ status s', remove vectorMax s vector handler arg inIsr disable = some (status, s') ∧
      Called vectorMax s cells vector (RemoveEffect handler arg disable) status s' := by
  unfold Interrupt.remove
  rw [hs.init]
  cases hv : isValidVector vectorMax vector with
  | false => exact ⟨_, _, rfl, called_refused (by decide)⟩
  | true =>
    have hi : vector ≤ vectorMax := by
      have hand := (Bool.and_eq_true_iff.mp hv).2
      exact of_decide_eq_true hand
    cases handler with
    | none => exact ⟨_, _, rfl, called_refused (by decide)⟩
    | some h =>
      cases inIsr with
      | true => exact ⟨_, _, rfl, called_refused (by decide)⟩
      | false =>
        have hindex : handlerIndex vector = vector := Nat.sub_zero vector
        simp only [hindex]
        have hlen : (refs vector (cells vector)).length ≤ s.turns := by
          have hturns := hs.turns hi
          unfold refs
          rw [List.length_cons]
          omega
        cases hf : (refs vector (cells vector)).find?
            fun x => (s.entry x).handler = .routine h && (s.entry x).arg = arg with
        | none =>
          have hall := List.find?_eq_none.mp hf
          have hsearch := searchMatch_none (o := none) (hs.path vector hi) (hs.turns hi)
            (p := fun e => e.handler = .routine h && e.arg = arg)
            (fun x hx => by simpa using hall x hx)
          exact ⟨_, _, congrArg (Option.map _) hsearch, called_refused (by decide)⟩
        | some m =>
          obtain ⟨hpm, xs, ys, hrefs, hxs⟩ := List.find?_eq_some_iff_append.mp hf
          have hpath := hs.path vector hi
          rw [hrefs] at hpath hlen
          have hsearch := searchMatch_some (o := none)
            (p := fun e => e.handler = .routine h && e.arg = arg) hpath hlen
            (fun x hx => (Bool.not_eq_true' _).mp (hxs x hx)) hpm
          have hm : pair s.entry m = (.routine h, arg) := by
            simp only [Bool.and_eq_true, decide_eq_true_eq] at hpm
            exact Prod.ext hpm.1 hpm.2
          have hother : ∀ x ∈ xs, pair s.entry x ≠ (.routine h, arg) := by
            intro x hx hpx
            have h1 := congrArg Prod.fst hpx
            have h2 := congrArg Prod.snd hpx
            simp only [pair] at h1 h2
            simpa [h1, h2] using hxs x hx
          rw [Option.or_none] at hsearch
          exact ⟨_, _, congrArg (Option.map _) hsearch, hs.removeMatch hi ⟨hrefs, hm, hother⟩⟩

/-! ## Runs -/

/-- Memory before `bsp_interrupt_initialize`: nothing is linked, marked or allocated. -/
structure Zeroed (s : Table H) : Prop where
  next : ∀ r, (s.entry r).next = none
  unique : ∀ i, s.unique i = false
  allocated : s.allocated = []

theorem Shape.start (hz : Zeroed s) (vectorMax : Nat) :
    Shape vectorMax (interruptInitialize vectorMax s) fun _ => [] := by
  have hentry : ∀ i ≤ vectorMax, (interruptInitialize vectorMax s).entry (.table i) =
      { s.entry (.table i) with handler := .empty, arg := i } := by
    intro i hi
    refine if_pos ?_
    unfold tableSize vectorMin
    omega
  constructor
  case init => exact Function.update_self ..
  case path =>
    intro i hi
    refine ⟨rfl, ?_⟩
    show ((interruptInitialize vectorMax s).entry (.table i)).next = none
    rw [hentry i hi]
    exact hz.next _
  case handler => exact nofun
  case owner => exact nofun
  case nodup =>
    show s.allocated.Nodup
    rw [hz.allocated]
    exact List.nodup_nil
  case allocated =>
    intro a
    show a ∈ s.allocated ↔ _
    rw [hz.allocated]
    simp
  case empty => exact fun _ _ _ => rfl
  case unique =>
    intro i hi hu
    have hne : i ≠ tableSize vectorMax := by
      unfold tableSize vectorMin
      omega
    have hfalse : (interruptInitialize vectorMax s).unique i = false :=
      (Function.update_of_ne hne ..).trans (hz.unique i)
    exact absurd (hfalse.symm.trans hu) nofun

/-- The vector of a call. -/
def Op.target : Op H → Nat
  | .install vector .. => vector
  | .remove vector .. => vector

/-- What a call does to the handlers of its own vector. -/
def Op.Effect : Op H → Status → List (Handler H × Nat) → List (Handler H × Nat) → Prop
  | .install _ _ options handler arg _ enable _ => InstallEffect options handler arg enable
  | .remove _ handler arg _ disable => RemoveEffect handler arg disable

theorem Op.effect_refused (op : Op H) (hstatus : status ≠ .successful)
    (l : List (Handler H × Nat)) : op.Effect status l l := by
  cases op with
  | install => exact ⟨fun he => absurd he hstatus, fun he => absurd he hstatus, fun _ => .inl rfl⟩
  | remove => exact ⟨fun he => absurd he hstatus, fun _ => .inl rfl⟩

theorem Shape.call (hs : Shape vectorMax s cells) {op : Op H} (he : op.Enabled s) :
    ∃ status s', op.call vectorMax s = some (status, s') ∧
      Called vectorMax s cells op.target op.Effect status s' := by
  cases op with
  | install => exact hs.install he.1 he.2
  | remove => exact hs.remove

/-- A call keeps the shape; what it does to the lists is its effect on one of them. -/
theorem Shape.called (hs : Shape vectorMax s cells) {op : Op H}
    (hc : Called vectorMax s cells op.target op.Effect status s') :
    ∃ cells', Shape vectorMax s' cells' ∧ ∀ i ≤ vectorMax,
      (i = op.target → op.Effect status (handlers s i (cells i)) (handlers s' i (cells' i))) ∧
      (i ≠ op.target → handlers s' i (cells' i) = handlers s i (cells i)) := by
  rcases hc with ⟨rfl, hstatus⟩ | ⟨hv, new, hchange, heffect⟩
  · exact ⟨cells, hs, fun i _ => ⟨fun _ => op.effect_refused hstatus _, fun _ => rfl⟩⟩
  · refine ⟨_, hs.change hv hchange, ?_⟩
    intro i hi
    refine ⟨?_, fun hne => hs.handlers_eq hv hchange hi hne⟩
    rintro rfl
    rw [Function.update_self]
    exact heffect

theorem Run.shape {p : Table H → Op H → Prop} (hz : Zeroed s₀)
    (hr : Run vectorMax p (interruptInitialize vectorMax s₀) s) :
    ∃ cells, Shape vectorMax s cells := by
  induction hr with
  | start => exact ⟨_, .start hz vectorMax⟩
  | step _ he _ hcall ih =>
    obtain ⟨cells, hs⟩ := ih
    obtain ⟨status, s', hcall', hc⟩ := hs.call he
    cases hcall.symm.trans hcall'
    obtain ⟨cells', hs', -⟩ := hs.called hc
    exact ⟨cells', hs'⟩

/-- A fresh call brings no pair into a list twice. -/
theorem Op.Effect.nodup {op : Op H} (heffect : op.Effect status l l') (hn : l.Nodup)
    (hl : iterate s op.target = some l) (hfresh : op.Fresh s) : l'.Nodup := by
  cases op with
  | remove vector handler arg inIsr disable =>
    by_cases hs : status = .successful
    · obtain ⟨k, -, -, rfl⟩ := RemoveEffect.removed heffect hs
      exact hn.erase _
    · rcases RemoveEffect.failed heffect hs with rfl | ⟨-, -, rfl⟩
      · exact hn
      · exact List.nodup_nil
  | install vector info options handler arg inIsr enable memory =>
    by_cases hs : status = .successful
    · cases hr : isReplace options with
      | false =>
        obtain ⟨k, -, hnot, rfl⟩ := InstallEffect.appended heffect hs hr
        exact List.nodup_append.mpr ⟨hn, List.nodup_singleton _, fun x hx y hy hxy =>
          hnot (List.mem_singleton.mp hy ▸ hxy ▸ hx)⟩
      | true =>
        obtain ⟨k, hk, xs, ys, old, rfl, hxs, rfl⟩ := InstallEffect.replaced heffect hs hr
        obtain ⟨hnx, hny, hcross⟩ := List.nodup_append.mp hn
        by_cases hin : (Handler.routine k, arg) ∈ xs ++ (old, arg) :: ys
        · have hfirst := hfresh hr k hk _ hl hin
          have hold : (xs ++ (old, arg) :: ys).find? (fun x => x.2 = arg) = some (old, arg) := by
            refine List.find?_eq_some_iff_append.mpr ⟨by simp, xs, ys, rfl, ?_⟩
            intro x hx
            simpa using hxs x hx
          rw [← Option.some.inj (hold.symm.trans hfirst)]
          exact hn
        · have hnotin : (Handler.routine k, arg) ∉ xs ∧ (Handler.routine k, arg) ∉ ys := by
            constructor
            · exact fun hx => hin (List.mem_append_left _ hx)
            · exact fun hy => hin (List.mem_append_right _ (List.mem_cons_of_mem _ hy))
          refine List.nodup_append.mpr ⟨hnx, List.nodup_cons.mpr
            ⟨hnotin.2, (List.nodup_cons.mp hny).2⟩, ?_⟩
          intro x hx y hy hxy
          rcases List.mem_cons.mp hy with rfl | hy
          · exact hnotin.1 (hxy ▸ hx)
          · exact hcross x hx y (List.mem_cons_of_mem _ hy) hxy
    · rcases InstallEffect.failed heffect hs with rfl | ⟨-, -, k, -, rfl⟩
      · exact hn
      · exact List.nodup_singleton _

theorem Run.nodup {p : Table H → Op H → Prop} (hz : Zeroed s₀)
    (hp : ∀ s op, p s op → op.Fresh s)
    (hr : Run vectorMax p (interruptInitialize vectorMax s₀) s) (hi : i ≤ vectorMax)
    (hl : iterate s i = some l) : l.Nodup := by
  induction hr generalizing i l with
  | start =>
    have hs := Shape.start hz vectorMax
    rw [hs.iterate hi] at hl
    have hempty : (interruptInitialize vectorMax s₀).isEmpty (.table i) = true := by
      have hlt : i < tableSize vectorMax := Nat.lt_succ_of_le hi
      simp [Table.isEmpty, interruptInitialize, Table.setUnique, hlt]
    rw [handlers_of_empty hempty] at hl
    rw [← Option.some.inj hl]
    exact List.nodup_nil
  | step hr he hps hcall ih =>
    obtain ⟨cells, hs⟩ := hr.shape hz
    obtain ⟨status, s', hcall', hc⟩ := hs.call he
    cases hcall.symm.trans hcall'
    obtain ⟨cells', hs', heffect⟩ := hs.called hc
    rw [hs'.iterate hi] at hl
    rw [← Option.some.inj hl]
    have hold := ih hi (hs.iterate hi)
    obtain ⟨hown, hother⟩ := heffect i hi
    rename_i op _
    by_cases hv : i = op.target
    · have hiter := hs.iterate hi
      exact (hown hv).nodup hold (hv ▸ hiter) (hp _ _ hps)
    · rw [hother hv]
      exact hold

/-- The table holds a list for each vector.  Every call ends, it changes the list of its own vector
as its status says, and the lists stay without duplicates as long as replacements are fresh. -/
theorem handlers_of_runs {p : Table H → Op H → Prop} (hz : Zeroed s₀)
    (hr : Run vectorMax p (interruptInitialize vectorMax s₀) s) :
    (∀ i ≤ vectorMax, ∃ l, iterate s i = some l ∧ (s.unique i = true → l.length = 1)) ∧
    (∀ op : Op H, op.Enabled s → ∃ status s', op.call vectorMax s = some (status, s') ∧
      ∀ i ≤ vectorMax, ∃ l l', iterate s i = some l ∧ iterate s' i = some l' ∧
        (i = op.target → op.Effect status l l') ∧ (i ≠ op.target → l' = l)) ∧
    ((∀ s op, p s op → op.Fresh s) → ∀ i ≤ vectorMax, ∀ l, iterate s i = some l → l.Nodup) := by
  obtain ⟨cells, hs⟩ := hr.shape hz
  refine ⟨?_, ?_, ?_⟩
  · intro i hi
    refine ⟨_, hs.iterate hi, ?_⟩
    intro hu
    obtain ⟨hused, hcells⟩ := hs.unique i hi hu
    rw [handlers_of_used hused, hcells]
    rfl
  · intro op he
    obtain ⟨status, s', hcall, hc⟩ := hs.call he
    obtain ⟨cells', hs', heffect⟩ := hs.called hc
    refine ⟨status, s', hcall, ?_⟩
    intro i hi
    exact ⟨_, _, hs.iterate hi, hs'.iterate hi, heffect i hi⟩
  · exact fun hp i hi l hl => hr.nodup hz hp hi hl

/-- Memory in which everything is zero. -/
def zero : Table Nat := ⟨fun _ => ⟨.empty, 0, none, none⟩, fun _ => false, []⟩

theorem zeroed_zero : Zeroed zero := ⟨fun _ => rfl, fun _ => rfl, rfl⟩

/-- The table after the first handler of vector `2` has been installed. -/
def installed : Table Nat :=
  (installFirst (interruptInitialize 3 zero) 2 none 0 7 40 .successful).2

theorem run_installed : Run 3 Op.Fresh (interruptInitialize 3 zero) installed := by
  have hcall : Op.call 3 (interruptInitialize 3 zero)
      (.install 2 none 0 (some 7) 40 false .successful none) = some (.successful, installed) := rfl
  have hfresh : Op.Fresh (interruptInitialize 3 zero)
      (.install 2 none 0 (some 7) 40 false .successful none) := nofun
  have henabled : Op.Enabled (interruptInitialize 3 zero)
      (.install 2 none 0 (some 7) 40 false .successful none) := ⟨by decide, nofun⟩
  exact .step .start henabled hfresh hcall

theorem handlers_of_runs_installed :
    (∀ i ≤ 3, ∃ l, iterate installed i = some l ∧ (installed.unique i = true → l.length = 1)) ∧
    ∀ i ≤ 3, ∀ l, iterate installed i = some l → l.Nodup := by
  obtain ⟨h1, -, h2⟩ := handlers_of_runs zeroed_zero run_installed
  exact ⟨h1, h2 fun _ _ h => h⟩

/-- A removal takes the last handler out of the table before it looks at the status of the vector's
disabling. -/
theorem remove_failed_changes :
    ¬ ∀ (s₀ s s' : Table Nat) (op : Op Nat) (status : Status), Zeroed s₀ →
      Run 3 Op.Fresh (interruptInitialize 3 s₀) s → op.Enabled s →
      op.call 3 s = some (status, s') → status ≠ .successful →
      ∀ i ≤ 3, iterate s' i = iterate s i := by
  intro h
  have hall := h zero installed _ (.remove 2 (some 7) 40 false .ioError) .ioError zeroed_zero
    run_installed trivial rfl nofun 2 (by decide)
  exact absurd hall (by decide)

end Rtems.Interrupt
