import Rtems.Objects.Classes

/-!
# Finding objects by id and in turn

`_Objects_Get` decides whether an id names an object with one subtraction on the
packed id and a look into the table.  `_Objects_Get_next` counts the packed id
up and ends at an index above `maximum`; with the largest maximum there is no
such index.
-/

namespace Rtems.Objects

open Rtems.Lib

variable {c : Class} {o : Obj}

/-! ## Get -/

/-- `Objects_Locations` on a single node. -/
inductive Location where
  | objectsLocal
  | objectsError
deriving DecidableEq, Repr

/-- What a lookup returns, and the dispatch disable level after it. -/
structure Lookup where
  object : Option Obj
  location : Location
  disableLevel : Nat
deriving DecidableEq, Repr

/-- `_Objects_Get`, called with a dispatch disable level. -/
def Class.get (c : Class) (id disableLevel : Nat) : Lookup :=
  let index := (id + 2 ^ 32 - c.minimumId + 1) % 2 ^ 32
  if index ≤ c.information.maximum then
    let disabled := disableLevel + 1
    match c.information.localTable index with
    | some object => ⟨some object, .objectsLocal, disabled⟩
    | none => ⟨none, .objectsError, disabled - 1⟩
  else ⟨none, .objectsError, disableLevel⟩

/-- The two answers of a lookup. -/
def found (o : Obj) (disableLevel : Nat) : Lookup := ⟨some o, .objectsLocal, disableLevel + 1⟩

def notFound (disableLevel : Nat) : Lookup := ⟨none, .objectsError, disableLevel⟩

/-- The object was opened and not closed since, and it has the id. -/
def Opened (s : Information) (o : Obj) (id : Nat) : Prop := s.status o = .active ∧ s.ids o = id

theorem Tabled.live (h : Tabled c) {id : Nat} (ho : Opened c.information o id) :
    c.information.Live o := by
  apply h.held o
  rw [ho.1]
  exact fun e => Status.noConfusion e

/-- The id of an object that is open finds the object. -/
theorem Tabled.get_open (h : Tabled c) {id : Nat} (ho : Opened c.information o id) (level : Nat) :
    c.get id level = found o level := by
  have hl := h.live ho
  obtain ⟨hs, rfl⟩ := ho
  obtain ⟨hpos, hle⟩ := h.index o hl
  have hbound := h.bound
  rw [idFinalIndex] at hbound
  have hmin : c.minimumIndex = 1 := by
    rcases h.minimum with hm | ⟨hm, _⟩ <;> omega
  have hindex : (c.information.ids o + 2 ^ 32 - c.minimumId + 1) % 2 ^ 32 =
      c.information.index o := by
    rw [h.ids o hl, Class.minimumId, hmin, buildId, buildId]
    omega
  have htable := (h.table _ hle o).mpr ⟨hl, hs, rfl⟩
  simp only [Class.get, hindex, if_pos hle, htable, found]

/-- What a lookup finds is open under the id. -/
theorem Tabled.opened_of_table (h : Tabled c) (hhigh : c.information.high < 2 ^ 16) {id : Nat}
    (hid : id < 2 ^ 32)
    (hle : (id + 2 ^ 32 - c.minimumId + 1) % 2 ^ 32 ≤ c.information.maximum)
    (ho : c.information.localTable ((id + 2 ^ 32 - c.minimumId + 1) % 2 ^ 32) = some o) :
    Opened c.information o id := by
  obtain ⟨hl, hs, hidx⟩ := (h.table _ hle o).mp ho
  refine ⟨hs, ?_⟩
  obtain ⟨hpos, hmax⟩ := h.index o hl
  have hbound := h.bound
  rw [idFinalIndex] at hbound
  have hmin : c.minimumIndex = 1 := by
    rcases h.minimum with hm | ⟨hm, _⟩ <;> omega
  rw [h.ids o hl, hidx]
  rw [hidx] at hpos
  rw [Class.minimumId, hmin, buildId] at hpos hle ⊢
  rw [buildId]
  omega

/-- No other id is found, and the dispatch disable level is as before. -/
theorem Tabled.get_closed (h : Tabled c) (hhigh : c.information.high < 2 ^ 16) {id : Nat}
    (hid : id < 2 ^ 32) (hno : ∀ o, ¬ Opened c.information o id) (level : Nat) :
    c.get id level = notFound level := by
  simp only [Class.get, notFound]
  split
  next hle =>
    split
    next o ho => exact absurd (h.opened_of_table hhigh hid hle ho) (hno o)
    next => rfl
  next => rfl

/-! ## API, class and node stay -/

theorem extendInformation_high (s : Information) (w : Workspace) :
    (extendInformation s w).high = s.high := by
  rcases extendInformation_cases s w with e | ⟨_, _, _, _, _, e⟩ | ⟨_, _, _, _, _, e⟩
  · rw [e]
  · rw [e]
    rfl
  · rw [e]
    rfl

theorem allocate_high (s : Information) (w : Workspace) : (allocate s w).1.high = s.high := by
  rcases allocate_cases s w with ⟨_, e⟩ | ⟨s', _, _, rfl | ⟨_, rfl⟩, _, e⟩
  · rw [e, extendInformation_high]
  · rw [e]
    rfl
  · rw [e]
    exact extendInformation_high s w

theorem free_high (s : Information) (o : Obj) : (free s o).high = s.high := by
  simp only [free, shrinkInformation]
  split
  · split <;> rfl
  · rfl

theorem Class.run_high (c : Class) (op : Op) :
    (c.run op).information.high = c.information.high := by
  unfold Class.run
  cases c.autoExtend with
  | true =>
    cases op with
    | allocate w => exact allocate_high _ w
    | openObject o => rfl
    | closeObject o => rfl
    | free o => exact free_high _ o
  | false =>
    cases op with
    | allocate w =>
      simp only [allocateLimited, Bool.false_eq_true, if_false]
      split <;> rfl
    | openObject o => rfl
    | closeObject o => rfl
    | free o => rfl

theorem initializeInformation_high {high size : Nat} {autoExtend : Bool} {w : Workspace}
    (hc : Class.initializeInformation high autoExtend size w = some c) :
    c.information.high = high := by
  unfold Class.initializeInformation at hc
  split at hc
  · split at hc
    · cases hc
    · cases hc
      rfl
  · split at hc
    · cases hc
      exact extendInformation_high _ w
    · cases hc

/-- The states of the runs of a class: its tables are sound, and the packed ids fit. -/
theorem Class.tabled_of_run {high size : Nat} (hhigh : high < 2 ^ 16) {autoExtend : Bool}
    {w : Workspace} {c₀ : Class} {ops : List Op}
    (hc₀ : Class.initializeInformation high autoExtend size w = some c₀)
    (hrun : Along Class.run Class.Allowed c₀ ops) (hc : c ∈ states Class.run c₀ ops) :
    Tabled c ∧ c.information.high < 2 ^ 16 := by
  refine ⟨((Class.Inv.of_start hc₀).run hrun hc).tabled, ?_⟩
  have hstep : ∀ c op, c.information.high < 2 ^ 16 → Class.Allowed c op →
      (c.run op).information.high < 2 ^ 16 := by
    intro c op h _
    rw [Class.run_high]
    exact h
  refine forall_states hstep ?_ hrun c hc
  rw [initializeInformation_high hc₀]
  exact hhigh

/-! ## Lookups in every run -/

/-- The lookup of ids is right: an id of an object that is open gives the object with dispatching
disabled once more, and every other id gives nothing and leaves the level as it was. -/
structure Finds (c : Class) : Prop where
  found : ∀ id < 2 ^ 32, ∀ level o, Opened c.information o id → c.get id level = found o level
  notFound : ∀ id < 2 ^ 32, ∀ level, (∀ o, ¬ Opened c.information o id) →
    c.get id level = notFound level

theorem Tabled.finds (h : Tabled c) (hhigh : c.information.high < 2 ^ 16) : Finds c where
  found _ _ level _ ho := h.get_open ho level
  notFound _ hid level hno := h.get_closed hhigh hid hno level

/-- **Lookups by id are right in every run** of a class in which no allocation grows the tables of
a single object. -/
theorem lookup_by_id {high size : Nat} (hhigh : high < 2 ^ 16) {autoExtend : Bool} {w : Workspace}
    {c₀ : Class} {ops : List Op}
    (hc₀ : Class.initializeInformation high autoExtend size w = some c₀)
    (hrun : Along Class.run Class.Allowed c₀ ops) : ∀ c ∈ states Class.run c₀ ops, Finds c := by
  intro c hc
  obtain ⟨h, hlt⟩ := Class.tabled_of_run hhigh hc₀ hrun hc
  exact h.finds hlt

/-- A limited class of two objects, one of which is opened. -/
theorem lookup_by_id_limited :
    ∃ c₀ c, Class.initializeInformation 0x0a01 false 2 (clearedWorkspace 0) = some c₀ ∧
      c = (c₀.run (.allocate (clearedWorkspace 1))).run (.openObject ⟨0, 0⟩) ∧
      c.get 0x0a010001 3 = found ⟨0, 0⟩ 3 ∧ c.get 0x0a010002 3 = notFound 3 ∧
      c.get 0x0a010000 3 = notFound 3 ∧ c.get 0x0b010001 3 = notFound 3 ∧ Finds c := by
  refine ⟨_, _, rfl, rfl, by decide, by decide, by decide, by decide, ?_⟩
  refine @lookup_by_id 0x0a01 2 (by decide) false (clearedWorkspace 0) _
    [.allocate (clearedWorkspace 1), .openObject ⟨0, 0⟩] rfl ?_ _ ?_
  · refine ⟨⟨fun h => Bool.noConfusion h, fun h => Bool.noConfusion h⟩, ?_, trivial⟩
    exact ⟨⟨⟨0, by decide⟩, rfl⟩, fun h => Bool.noConfusion h⟩
  · exact @mem_states_foldl _ _ _ _ [Op.allocate (clearedWorkspace 1), .openObject ⟨0, 0⟩]

/-- One object per block: the second allocation grows the tables and drops the entry of the first
object, which is still open. -/
theorem lookup_by_id_lost : ¬ ∀ (high size : Nat) (autoExtend : Bool) (w : Workspace) (c₀ : Class)
    (ops : List Op), high < 2 ^ 16 →
      Class.initializeInformation high autoExtend size w = some c₀ →
      Along Class.run Class.Enabled c₀ ops → ∀ c ∈ states Class.run c₀ ops, Finds c := by
  intro hall
  let ops : List Op :=
    [.allocate (clearedWorkspace 1), .openObject ⟨0, 0⟩, .allocate (clearedWorkspace 1)]
  have hrun : Along Class.run Class.Enabled
      ⟨true, initializeInformation 0x0a01 1 (clearedWorkspace 0)⟩ ops :=
    ⟨fun _ => enabled_cleared (by decide), ⟨⟨0, by decide⟩, rfl⟩,
      fun _ => enabled_cleared (by decide), trivial⟩
  have hfound := (hall 0x0a01 1 true (clearedWorkspace 0) _ ops (by decide) rfl hrun _
    mem_states_foldl).found 0x0a010001 (by decide) 0 ⟨0, 0⟩ ⟨rfl, rfl⟩
  exact absurd hfound (by decide)

end Rtems.Objects
