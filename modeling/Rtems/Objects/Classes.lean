import Rtems.Objects.Runs
import Rtems.Lib.Runs

/-!
# Object classes

`_Objects_Initialize_information` makes a class with auto-extend or one with a
fixed number of objects, which may be zero.  A limited class is extended once,
while it is initialized, and it keeps no counters: its tables are those of a
class with auto-extend for some values of the counters.
-/

namespace Rtems.Objects

open Rtems.Lib

variable {s : Information} {o : Obj}

/-! ## The model -/

/-- `Objects_Information` with its `auto_extend` flag. -/
structure Class where
  autoExtend : Bool
  information : Information

/-- `minimum_index` of `_Objects_Initialize_information`. -/
def Class.minimumIndex (c : Class) : Nat := if c.information.allocationSize = 0 then 0 else 1

def Class.minimumId (c : Class) : Nat := buildId c.information.high c.minimumIndex

/-- `_Objects_Initialize_information`, which does not return if an unlimited class has a maximum
of zero, or if the workspace has no memory for a limited one. -/
def Class.initializeInformation (high : Nat) (autoExtend : Bool) (maximumPerAllocation : Nat)
    (w : Workspace) : Option Class :=
  if maximumPerAllocation = 0 then
    if autoExtend then none else some ⟨false, emptyInformation high 0⟩
  else if autoExtend || (w.objectBlock.isSome && w.tables.isSome) then
    some ⟨autoExtend, Objects.initializeInformation high maximumPerAllocation w⟩
  else none

/-- `_Objects_Allocate_unprotected` of a limited class. -/
def allocateLimited (s : Information) : Information × Option Obj :=
  match s.inactiveChain with
  | [] => (s, none)
  | o :: rest =>
    ({ s with inactiveChain := rest, status := Function.update s.status o .allocated }, some o)

/-- `_Objects_Free` of a limited class. -/
def freeLimited (s : Information) (o : Obj) : Information :=
  { s with
    inactiveChain := s.inactiveChain ++ [o]
    status := Function.update s.status o .inactive }

def Class.run (c : Class) (op : Op) : Class :=
  if c.autoExtend then { c with information := op.run c.information }
  else
    match op with
    | .allocate _ => { c with information := (allocateLimited c.information).1 }
    | .openObject o => { c with information := Objects.openObject c.information o }
    | .closeObject o => { c with information := Objects.closeObject c.information o }
    | .free o => { c with information := freeLimited c.information o }

/-- A limited class asks the workspace for nothing. -/
def Class.Enabled (c : Class) : Op → Prop
  | .allocate w => c.autoExtend = true → (Op.allocate w).Enabled c.information
  | op => op.Enabled c.information

/-- What callers do, where no allocation grows the tables of a single object. -/
def Class.Allowed (c : Class) (op : Op) : Prop :=
  c.Enabled op ∧ (c.autoExtend = true → Grows c.information op)

/-! ## The objects in use -/

/-- An object that was handed out lies in a block that is allocated. -/
def Held (s : Information) : Prop := ∀ o, s.status o ≠ .inactive → s.Live o

/-- The status of a live object changes. -/
theorem Held.update (h : Held s) {s' : Information} {st : Status} (ho : st ≠ .inactive → s.Live o)
    (hlive : ∀ x, s.Live x → s'.Live x) (hst : s'.status = Function.update s.status o st) :
    Held s' := by
  intro x hx
  apply hlive
  rw [hst] at hx
  rcases eq_or_ne x o with rfl | hne
  · rw [Function.update_self] at hx
    exact ho hx
  · rw [Function.update_of_ne hne] at hx
    exact h x hx

theorem Held.take (hh : Held s) (h : Inv s) {rest : List Obj} (hc : s.inactiveChain = o :: rest) :
    Held (takeInactive s o rest) :=
  hh.update (fun _ => ((h.mem o).mp (hc ▸ List.mem_cons_self)).1) (fun _ hx => hx) rfl

theorem assignBlock_in_use {b base p : Nat}
    (ho : (assignBlock s b base p).status o ≠ .inactive) : s.status o ≠ .inactive := by
  simp only [assignBlock] at ho
  split at ho
  · exact absurd rfl ho
  · exact ho

/-- An extension hands nothing out. -/
theorem extend_in_use {w : Workspace} (ho : (extendInformation s w).status o ≠ .inactive) :
    s.status o ≠ .inactive := by
  rcases extendInformation_cases s w with e | ⟨b, p, _, _, _, e⟩ | ⟨t, p, _, _, _, e⟩
  · rw [e] at ho
    exact ho
  · rw [e] at ho
    exact assignBlock_in_use ho
  · rw [e] at ho
    exact assignBlock_in_use (s := growTables s t (1 + s.blockCount * s.allocationSize)
      (s.maximum + s.allocationSize)) ho

theorem Held.extend (hh : Held s) (h : Inv s) {w : Workspace}
    (hf : ∀ p, w.objectBlock = some p → Fresh s p) (hk : KeepsTables s w) :
    Held (extendInformation s w) :=
  fun x hx => (h.extend_live hf hk (hh x (extend_in_use hx))).1

theorem Held.shrink (hh : Held s) (h : Inv s) : Held (shrinkInformation s) := by
  rcases h.shrink_cases with e | ⟨b, hb, hf, e⟩
  · rw [e]
    exact hh
  · rw [e]
    intro x hx
    refine h.release_live.mpr ⟨hh x hx, fun hxb => ?_⟩
    exact hx (h.all_inactive hb hf (hh x hx) hxb)

theorem Held.free (hh : Held s) (h : Inv s) (ho : s.Live o) (hs : s.status o = .allocated) :
    Held (free s o) := by
  have hput : Held (putInactive s o) :=
    hh.update (o := o) (fun hne => absurd rfl hne) (fun _ hx => hx) rfl
  simp only [Objects.free]
  split
  · exact hput.shrink (h.putInactive ho hs)
  · exact hput

theorem Held.step {op : Op} (hh : Held s) (h : Inv s) (he : op.Enabled s) (hg : Grows s op) :
    Held (op.run s) := by
  cases op with
  | allocate w =>
    change Held (Objects.allocate s w).1
    rcases allocate_cases s w with ⟨hc, e⟩ | ⟨s', o, rest, rfl | ⟨hc, rfl⟩, hc', e⟩
    · rw [e]
      exact hh.extend h he (hg hc)
    · rw [e]
      exact hh.take h hc'
    · rw [e]
      exact (hh.extend h he (hg hc)).take (h.extend hc he (hg hc)) hc'
  | openObject o => exact hh.update (fun _ => he.1) (fun _ hx => hx) rfl
  | closeObject o => exact hh.update (fun _ => he.1) (fun _ hx => hx) rfl
  | free o => exact hh.free h he.1 he.2

theorem Held.of_start (high size : Nat) (w : Workspace) :
    Held (initializeInformation high size w) :=
  fun _ hx => absurd rfl (extend_in_use (s := emptyInformation high size) hx)

/-! ## The counters of a limited class -/

/-- Other values of the counters. -/
def Information.recount (s : Information) (perBlock : Nat → Nat) (inactive : Nat) : Information :=
  { s with inactivePerBlock := perBlock, inactive := inactive }

/-- The tables are sound but for the counters. -/
def Uncounted (s : Information) : Prop := ∃ perBlock inactive, Inv (s.recount perBlock inactive)

theorem Inv.uncounted (h : Inv s) : Uncounted s := ⟨s.inactivePerBlock, s.inactive, h⟩

theorem Uncounted.allocate (h : Uncounted s) : Uncounted (allocateLimited s).1 := by
  obtain ⟨perBlock, inactive, h⟩ := h
  unfold allocateLimited
  cases hc : s.inactiveChain with
  | nil => exact ⟨_, _, h⟩
  | cons o rest =>
    have htake : Inv (takeInactive (s.recount perBlock inactive) o rest) := h.take hc
    exact ⟨(takeInactive (s.recount perBlock inactive) o rest).inactivePerBlock,
      (takeInactive (s.recount perBlock inactive) o rest).inactive, htake⟩

theorem Held.allocateLimited (hh : Held s) (h : Uncounted s) : Held (allocateLimited s).1 := by
  obtain ⟨perBlock, inactive, h⟩ := h
  unfold Objects.allocateLimited
  cases hc : s.inactiveChain with
  | nil => exact hh
  | cons o rest =>
    have ho : o ∈ (s.recount perBlock inactive).inactiveChain := hc ▸ List.mem_cons_self
    exact hh.update (fun _ => ((h.mem o).mp ho).1) (fun _ hx => hx) rfl

theorem Uncounted.openObject (h : Uncounted s) (ho : s.Live o) (hs : s.status o = .allocated) :
    Uncounted (openObject s o) := by
  obtain ⟨perBlock, inactive, h⟩ := h
  have hopen : Inv (Objects.openObject (s.recount perBlock inactive) o) := h.openObject ho hs
  exact ⟨perBlock, inactive, hopen⟩

theorem Uncounted.closeObject (h : Uncounted s) (ho : s.Live o) (hs : s.status o = .active) :
    Uncounted (closeObject s o) := by
  obtain ⟨perBlock, inactive, h⟩ := h
  have hclose : Inv (Objects.closeObject (s.recount perBlock inactive) o) := h.closeObject ho hs
  exact ⟨perBlock, inactive, hclose⟩

theorem Uncounted.free (h : Uncounted s) (ho : s.Live o) (hs : s.status o = .allocated) :
    Uncounted (freeLimited s o) := by
  obtain ⟨perBlock, inactive, h⟩ := h
  have hput : Inv (putInactive (s.recount perBlock inactive) o) := h.putInactive ho hs
  exact ⟨(putInactive (s.recount perBlock inactive) o).inactivePerBlock,
    (putInactive (s.recount perBlock inactive) o).inactive, hput⟩

/-! ## The invariant of a class -/

/-- The tables of a class with auto-extend are sound, those of a limited class but for the
counters, and a class without objects stays as it was initialized. -/
inductive Class.Inv : Class → Prop where
  | extended {s : Information} : Objects.Inv s → Held s → Class.Inv ⟨true, s⟩
  | limited {s : Information} : Uncounted s → Held s → Class.Inv ⟨false, s⟩
  | empty (high : Nat) : Class.Inv ⟨false, emptyInformation high 0⟩

theorem emptyInformation_not_live (high size : Nat) : ¬ (emptyInformation high size).Live o := by
  rintro ⟨b, hb, _⟩
  exact absurd hb (Nat.not_lt_zero b)

theorem Class.Inv.of_start {c : Class} {high size : Nat} {autoExtend : Bool} {w : Workspace}
    (hc : Class.initializeInformation high autoExtend size w = some c) : c.Inv := by
  unfold Class.initializeInformation at hc
  split at hc
  next hzero =>
    split at hc
    next => cases hc
    next =>
      cases hc
      exact .empty high
  next hsize =>
    have h := Objects.Inv.of_start high (Nat.pos_of_ne_zero hsize) w
    have hh : Held (Objects.initializeInformation high size w) := Held.of_start high size w
    split at hc
    next =>
      cases hc
      cases autoExtend with
      | true => exact .extended h hh
      | false => exact .limited h.uncounted hh
    next => cases hc

theorem Class.Inv.step {c : Class} {op : Op} (h : c.Inv) (hop : c.Allowed op) : (c.run op).Inv := by
  obtain ⟨he, hg⟩ := hop
  cases h with
  | @extended s h hh =>
    have he' : op.Enabled s := by
      cases op with
      | allocate w => exact he rfl
      | openObject o => exact he
      | closeObject o => exact he
      | free o => exact he
    exact .extended (h.step he' (hg rfl)) (hh.step h he' (hg rfl))
  | limited h hh =>
    cases op with
    | allocate w => exact .limited h.allocate (hh.allocateLimited h)
    | openObject o =>
      exact .limited (h.openObject he.1 he.2) (hh.update (fun _ => he.1) (fun _ hx => hx) rfl)
    | closeObject o =>
      exact .limited (h.closeObject he.1 he.2) (hh.update (fun _ => he.1) (fun _ hx => hx) rfl)
    | free o =>
      exact .limited (h.free he.1 he.2)
        (hh.update (o := o) (fun hne => absurd rfl hne) (fun _ hx => hx) rfl)
  | empty high =>
    cases op with
    | allocate w => exact .empty high
    | openObject o => exact absurd he.1 (emptyInformation_not_live high 0)
    | closeObject o => exact absurd he.1 (emptyInformation_not_live high 0)
    | free o => exact absurd he.1 (emptyInformation_not_live high 0)

/-- Every state of a run is sound. -/
theorem Class.Inv.run {c c' : Class} {ops : List Op} (h : c.Inv)
    (hrun : Along Class.run Class.Allowed c ops) (hc' : c' ∈ states Class.run c ops) : c'.Inv :=
  forall_states (fun _ _ => Class.Inv.step) h hrun c' hc'

/-! ## What a lookup needs -/

/-- The table holds the open objects at their indices, and the ids are built from these. -/
structure Tabled (c : Class) : Prop where
  bound : c.information.maximum ≤ idFinalIndex
  table : ∀ i ≤ c.information.maximum, ∀ o, c.information.localTable i = some o ↔
    c.information.Live o ∧ c.information.status o = .active ∧ c.information.index o = i
  index : ∀ o, c.information.Live o →
    0 < c.information.index o ∧ c.information.index o ≤ c.information.maximum
  held : Held c.information
  ids : ∀ o, c.information.Live o →
    c.information.ids o = buildId c.information.high (c.information.index o)
  minimum : c.minimumIndex = 1 ∨ c.information.maximum = 0 ∧ c.minimumIndex = 0

theorem Inv.tabled {autoExtend : Bool} (h : Inv s) (hh : Held s) : Tabled ⟨autoExtend, s⟩ where
  bound := h.bound
  table := h.table
  index _ := h.index_pos_le
  held := hh
  ids o ho := by
    obtain ⟨hb, hp, hi⟩ := h.live_iff.mp ho
    rw [h.index_live ho]
    exact h.ids _ hb _ hp _ hi
  minimum := .inl (if_neg (Nat.pos_iff_ne_zero.mp h.size))

theorem Class.Inv.tabled {c : Class} (h : c.Inv) : Tabled c := by
  cases h with
  | extended h hh => exact h.tabled hh
  | limited h hh =>
    obtain ⟨perBlock, inactive, h⟩ := h
    have ht : Tabled ⟨false, Information.recount _ perBlock inactive⟩ := h.tabled hh
    exact ⟨ht.bound, ht.table, ht.index, hh, ht.ids, ht.minimum⟩
  | empty high =>
    refine ⟨Nat.zero_le _, fun i _ o => ?_, fun o ho => ?_, fun o ho => absurd rfl ho,
      fun o ho => ?_, .inr ⟨rfl, rfl⟩⟩
    · refine ⟨fun he => absurd he.symm (Option.some_ne_none o), fun ho => ?_⟩
      exact absurd ho.1 (emptyInformation_not_live high 0)
    · exact absurd ho (emptyInformation_not_live high 0)
    · exact absurd ho (emptyInformation_not_live high 0)

end Rtems.Objects
