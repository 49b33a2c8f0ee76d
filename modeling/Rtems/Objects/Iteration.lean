import Rtems.Objects.Lookup

/-!
# Walking through the objects of a class

`_Objects_Get_next` starts at an id, tries one id after the other, and ends at
the first index above `maximum`.  A caller hands the id it got back to the next
call.  Every call takes the first open object off the rest of the table, so the
walk lists the table; but if `maximum` is the largest index, no index is above
it, and the id runs on into the node number.
-/

namespace Rtems.Objects

open Rtems.Lib

variable {c : Class} {o : Obj}

/-! ## The model -/

/-- `OBJECTS_ID_FINAL`. -/
def idFinal : Nat := 2 ^ 32 - 1

/-- What `_Objects_Get_next` returns and stores. -/
structure Next where
  object : Option Obj
  location : Location
  nextId : Nat
  disableLevel : Nat
deriving DecidableEq, Repr

/-- The loop of `_Objects_Get_next`. -/
def Class.getNextLoop (c : Class) : (fuel nextId disableLevel : Nat) → Option Next
  | 0, _, _ => none
  | fuel + 1, nextId, disableLevel =>
    if getIndex nextId > c.information.maximum then
      some ⟨none, .objectsError, idFinal, disableLevel⟩
    else
      let r := c.get nextId disableLevel
      let nextId := (nextId + 1) % 2 ^ 32
      if r.location ≠ .objectsLocal then c.getNextLoop fuel nextId r.disableLevel
      else some ⟨r.object, r.location, nextId, r.disableLevel⟩

/-- `_Objects_Get_next`. -/
def Class.getNext (c : Class) (fuel id disableLevel : Nat) : Option Next :=
  c.getNextLoop fuel (if getIndex id = 0 then c.minimumId else id) disableLevel

/-- Call `_Objects_Get_next` with the id it returned until it returns no object, and enable
dispatching after each object: the objects, if the last id is `OBJECTS_ID_FINAL`. -/
def Class.walk (c : Class) (fuel : Nat) : (calls id disableLevel : Nat) → Option (List Obj)
  | 0, _, _ => none
  | calls + 1, id, disableLevel =>
    match c.getNext fuel id disableLevel with
    | none => none
    | some r =>
      match r.object with
      | none => if r.nextId = idFinal then some [] else none
      | some o => (c.walk fuel calls r.nextId (r.disableLevel - 1)).map (o :: ·)

/-! ## What is left of the table -/

/-- The objects in the table from an index on. -/
def Class.openFrom (c : Class) (i : Nat) : List Obj :=
  (List.range' i (c.information.maximum + 1 - i)).filterMap c.information.localTable

theorem openFrom_end {i : Nat} (hi : c.information.maximum < i) : c.openFrom i = [] := by
  have hz : c.information.maximum + 1 - i = 0 := by omega
  rw [Class.openFrom, hz]
  rfl

theorem openFrom_step {i : Nat} (hi : i ≤ c.information.maximum) :
    c.openFrom i = (c.information.localTable i).toList ++ c.openFrom (i + 1) := by
  have hn : c.information.maximum + 1 - i = c.information.maximum + 1 - (i + 1) + 1 := by omega
  rw [Class.openFrom, hn, List.range'_succ, List.filterMap_cons]
  cases c.information.localTable i <;> rfl

/-! ## One call -/

theorem get_location (id level : Nat) :
    (c.get id level).location = .objectsLocal ↔ (c.get id level).object ≠ none := by
  simp only [Class.get]
  split
  · split <;> simp
  · simp

/-- The lookup at an index is the entry of the table. -/
theorem get_index {i : Nat} (level : Nat) (hmin : c.minimumIndex = 1) (hpos : 0 < i)
    (hi : i ≤ c.information.maximum) (hmax : c.information.maximum ≤ idFinalIndex) :
    c.get (buildId c.information.high i) level =
      match c.information.localTable i with
      | some o => found o level
      | none => notFound level := by
  rw [idFinalIndex] at hmax
  have hindex : (buildId c.information.high i + 2 ^ 32 - c.minimumId + 1) % 2 ^ 32 = i := by
    rw [Class.minimumId, hmin, buildId, buildId]
    omega
  simp only [Class.get, hindex, if_pos hi]
  cases c.information.localTable i <;> rfl

/-! The turns of the loop: past the end, at an object, and at an empty entry. -/

theorem getNextLoop_end {fuel id level : Nat} (hend : c.information.maximum < getIndex id) :
    c.getNextLoop (fuel + 1) id level = some ⟨none, .objectsError, idFinal, level⟩ := by
  rw [Class.getNextLoop, if_pos hend]

theorem getNextLoop_turn {fuel id level : Nat} (hle : getIndex id ≤ c.information.maximum) :
    c.getNextLoop (fuel + 1) id level =
      if (c.get id level).location ≠ .objectsLocal then
        c.getNextLoop fuel ((id + 1) % 2 ^ 32) (c.get id level).disableLevel
      else
        some ⟨(c.get id level).object, (c.get id level).location, (id + 1) % 2 ^ 32,
          (c.get id level).disableLevel⟩ := by
  rw [Class.getNextLoop, if_neg (Nat.not_lt.mpr hle)]

theorem getNextLoop_found (fuel : Nat) {id level : Nat} (hle : getIndex id ≤ c.information.maximum)
    (hget : c.get id level = found o level) : c.getNextLoop (fuel + 1) id level =
      some ⟨some o, .objectsLocal, (id + 1) % 2 ^ 32, level + 1⟩ := by
  rw [getNextLoop_turn hle, hget, if_neg (fun hne => hne rfl)]
  rfl

theorem getNextLoop_notFound (fuel : Nat) {id level : Nat} (hle : getIndex id ≤ c.information.maximum)
    (hget : c.get id level = notFound level) :
    c.getNextLoop (fuel + 1) id level = c.getNextLoop fuel ((id + 1) % 2 ^ 32) level := by
  have hmore : (notFound level).location ≠ .objectsLocal := fun he => Location.noConfusion he
  rw [getNextLoop_turn hle, hget, if_pos hmore]
  rfl

/-- The table has an end that the index of an id can pass. -/
structure Ends (c : Class) : Prop where
  minimum : c.minimumIndex = 1
  high : c.information.high < 2 ^ 16
  maximum : c.information.maximum < idFinalIndex

theorem Ends.buildId_succ (h : Ends c) {i : Nat} (hi : i ≤ c.information.maximum) :
    (buildId c.information.high i + 1) % 2 ^ 32 = buildId c.information.high (i + 1) := by
  have hhigh := h.high
  have hmax := h.maximum
  rw [idFinalIndex] at hmax
  rw [buildId, buildId]
  omega

/-- A call takes the first object off what is left of the table, or ends. -/
theorem Ends.getNextLoop (h : Ends c) (fuel level : Nat) {i : Nat} (hpos : 0 < i)
    (hi : i ≤ c.information.maximum + 1) (hfuel : c.information.maximum + 1 - i < fuel) :
    (c.openFrom i = [] ∧ c.getNextLoop fuel (buildId c.information.high i) level =
      some ⟨none, .objectsError, idFinal, level⟩) ∨
    ∃ o j, i ≤ j ∧ j ≤ c.information.maximum ∧ c.openFrom i = o :: c.openFrom (j + 1) ∧
      c.getNextLoop fuel (buildId c.information.high i) level =
        some ⟨some o, .objectsLocal, buildId c.information.high (j + 1), level + 1⟩ := by
  have hmax := h.maximum
  rw [idFinalIndex] at hmax
  induction fuel generalizing i with
  | zero => cases hfuel
  | succ fuel ih =>
    have hindex : getIndex (buildId c.information.high i) = i := getIndex_buildId (by omega)
    rcases Nat.lt_or_ge c.information.maximum i with hgt | hle
    · have hpast : c.information.maximum < getIndex (buildId c.information.high i) := by
        rw [hindex]
        exact hgt
      exact .inl ⟨openFrom_end hgt, getNextLoop_end hpast⟩
    · have hbelow : getIndex (buildId c.information.high i) ≤ c.information.maximum := by
        rw [hindex]
        exact hle
      have hget := get_index level h.minimum hpos hle h.maximum.le
      rw [openFrom_step hle]
      cases htable : c.information.localTable i with
      | some o =>
        rw [htable] at hget
        have hnext := getNextLoop_found fuel hbelow hget
        rw [h.buildId_succ hle] at hnext
        exact .inr ⟨o, i, Nat.le_refl i, hle, rfl, hnext⟩
      | none =>
        rw [htable] at hget
        have hnext := getNextLoop_notFound fuel hbelow hget
        rw [h.buildId_succ hle] at hnext
        rw [hnext]
        rcases ih (i := i + 1) (Nat.succ_pos i) (by omega) (by omega) with
          ⟨hnil, hend⟩ | ⟨o, j, hij, hj, hcons, hmore⟩
        · exact .inl ⟨hnil, hend⟩
        · exact .inr ⟨o, j, by omega, hj, hcons, hmore⟩

/-! ## The walk -/

/-- The walk from an index lists what is left of the table. -/
theorem Ends.walk (h : Ends c) {fuel calls i level : Nat} (hpos : 0 < i)
    (hi : i ≤ c.information.maximum + 1) (hfuel : c.information.maximum < fuel)
    (hcalls : c.information.maximum + 1 - i < calls) :
    c.walk fuel calls (buildId c.information.high i) level = some (c.openFrom i) := by
  have hmax := h.maximum
  rw [idFinalIndex] at hmax
  induction calls generalizing i level with
  | zero => cases hcalls
  | succ calls ih =>
    have hindex : getIndex (buildId c.information.high i) = i := getIndex_buildId (by omega)
    have hstart : ¬ i = 0 := Nat.pos_iff_ne_zero.mp hpos
    simp only [Class.walk, Class.getNext, hindex, if_neg hstart]
    rcases h.getNextLoop fuel level hpos hi (by omega) with
      ⟨hnil, hend⟩ | ⟨o, j, hij, hj, hcons, hnext⟩
    · simp only [hend, hnil, if_true]
    · rw [hnext, hcons]
      simp only [ih (i := j + 1) (Nat.succ_pos j) (by omega) (by omega), Option.map_some]

/-- A walk from an id with index 0 is one from the minimum id. -/
theorem walk_initial (hmin : c.minimumIndex = 1) {fuel calls id level : Nat}
    (hid : getIndex id = 0) : c.walk fuel calls id level =
      c.walk fuel calls (buildId c.information.high 1) level := by
  cases calls with
  | zero => rfl
  | succ calls =>
    have hone : ¬ getIndex (buildId c.information.high 1) = 0 := by
      rw [getIndex_buildId (by decide)]
      exact Nat.one_ne_zero
    simp only [Class.walk, Class.getNext, if_pos hid, if_neg hone, Class.minimumId, hmin]

/-- The walk through a class without objects. -/
theorem walk_empty (hmin : c.minimumIndex = 0) (hmax : c.information.maximum = 0)
    (hhigh : c.information.high < 2 ^ 16) {fuel calls id level : Nat} (hid : getIndex id = 0) :
    c.walk (fuel + 2) (calls + 1) id level = some [] := by
  have hzero : getIndex (buildId c.information.high 0) ≤ c.information.maximum := by
    rw [getIndex_buildId (by decide)]
    exact Nat.zero_le _
  have hget : c.get (buildId c.information.high 0) level = notFound level := by
    have hone : (buildId c.information.high 0 + 2 ^ 32 - c.minimumId + 1) % 2 ^ 32 = 1 := by
      rw [Class.minimumId, hmin, buildId]
      omega
    simp only [Class.get, hone, hmax, notFound]
    rfl
  have hnext : (buildId c.information.high 0 + 1) % 2 ^ 32 = buildId c.information.high 1 := by
    rw [buildId, buildId]
    omega
  have hend : c.information.maximum < getIndex (buildId c.information.high 1) := by
    rw [getIndex_buildId (by decide), hmax]
    exact Nat.zero_lt_one
  simp only [Class.walk, Class.getNext, if_pos hid, Class.minimumId, hmin,
    getNextLoop_notFound (fuel + 1) hzero hget, hnext, getNextLoop_end hend, if_true]

/-! ## No end -/

/-- With the largest maximum no call comes back without an object. -/
theorem getNextLoop_endless (hmax : c.information.maximum = idFinalIndex) {fuel id level : Nat}
    {r : Next} (hr : c.getNextLoop fuel id level = some r) : r.object ≠ none := by
  induction fuel generalizing id level with
  | zero => cases hr
  | succ fuel ih =>
    have hindex : getIndex id < 2 ^ 16 := Nat.mod_lt id (by decide)
    have hfinal : idFinalIndex + 1 = 2 ^ 16 := by decide
    have hle : getIndex id ≤ c.information.maximum := by omega
    have hobject := get_location (c := c) id level
    rw [getNextLoop_turn hle] at hr
    generalize c.get id level = lookup at hr hobject
    split at hr
    next => exact ih hr
    next hloc =>
      obtain ⟨object, location, nextId, disableLevel⟩ := r
      obtain ⟨hfound, _⟩ := Next.mk.inj (Option.some.inj hr)
      have hsome := hobject.mp (not_not.mp hloc)
      rw [hfound] at hsome
      exact hsome

theorem walk_endless (hmax : c.information.maximum = idFinalIndex) (fuel calls id level : Nat) :
    c.walk fuel calls id level = none := by
  induction calls generalizing id level with
  | zero => rfl
  | succ calls ih =>
    rw [Class.walk, Class.getNext]
    split
    next => rfl
    next r hr =>
      have hobject := getNextLoop_endless hmax hr
      split
      next hnone => exact absurd hnone hobject
      next => rw [ih, Option.map_none]

/-! ## The walk lists the objects that are open -/

/-- The walk from an initial id ends, and it visits the objects that are open, each once and in
the order of their indices. -/
def Iterates (c : Class) : Prop :=
  ∀ id level, getIndex id = 0 → ∃ fuel calls objects, c.walk fuel calls id level = some objects ∧
    (∀ o, o ∈ objects ↔ c.information.status o = .active) ∧
    objects.Pairwise fun o o' => c.information.index o < c.information.index o'

theorem Tabled.mem_openFrom (h : Tabled c) :
    o ∈ c.openFrom 1 ↔ c.information.status o = .active := by
  simp only [Class.openFrom, List.mem_filterMap, List.mem_range'_1]
  constructor
  · rintro ⟨i, ⟨hpos, hi⟩, ho⟩
    exact ((h.table i (by omega) o).mp ho).2.1
  · intro ho
    have hl := h.held o (by rw [ho]; exact fun e => Status.noConfusion e)
    obtain ⟨hpos, hle⟩ := h.index o hl
    exact ⟨c.information.index o, ⟨hpos, by omega⟩, (h.table _ hle o).mpr ⟨hl, ho, rfl⟩⟩

theorem Tabled.openFrom_sorted (h : Tabled c) :
    (c.openFrom 1).Pairwise fun o o' => c.information.index o < c.information.index o' := by
  have hindex : ∀ i ∈ List.range' 1 (c.information.maximum + 1 - 1), ∀ o,
      c.information.localTable i = some o → c.information.index o = i := by
    intro i hi o ho
    rw [List.mem_range'_1] at hi
    exact ((h.table i (by omega) o).mp ho).2.2
  rw [Class.openFrom, List.pairwise_filterMap]
  refine List.Pairwise.imp_of_mem (fun {i j} hi hj hij o ho o' ho' => ?_)
    (List.pairwise_lt_range' (s := 1) (n := c.information.maximum + 1 - 1))
  rw [hindex i hi o ho, hindex j hj o' ho']
  exact hij

theorem Tabled.iterates_iff (h : Tabled c) (hhigh : c.information.high < 2 ^ 16) :
    Iterates c ↔ c.information.maximum < idFinalIndex := by
  constructor
  · intro hall
    by_contra hlt
    have hmax : c.information.maximum = idFinalIndex :=
      Nat.le_antisymm h.bound (Nat.not_lt.mp hlt)
    obtain ⟨fuel, calls, objects, hwalk, _⟩ := hall 0 0 rfl
    rw [walk_endless hmax] at hwalk
    cases hwalk
  · intro hlt id level hid
    rcases h.minimum with hmin | ⟨hmax, hmin⟩
    · have hends : Ends c := ⟨hmin, hhigh, hlt⟩
      refine ⟨c.information.maximum + 1, c.information.maximum + 1, c.openFrom 1, ?_,
        fun _ => h.mem_openFrom, h.openFrom_sorted⟩
      rw [walk_initial hmin hid]
      exact hends.walk Nat.zero_lt_one (by omega) (Nat.lt_succ_self _) (by omega)
    · have hnone : c.openFrom 1 = [] := openFrom_end (by omega)
      refine ⟨2, 1, [], walk_empty hmin hmax hhigh hid, fun o => ?_, List.Pairwise.nil⟩
      rw [← hnone]
      exact h.mem_openFrom

/-- **The walk is right exactly up to the largest maximum**, in every run of a class in which no
allocation grows the tables of a single object. -/
theorem iteration_iff {high size : Nat} (hhigh : high < 2 ^ 16) {autoExtend : Bool} {w : Workspace}
    {c₀ : Class} {ops : List Op}
    (hc₀ : Class.initializeInformation high autoExtend size w = some c₀)
    (hrun : Along Class.run Class.Allowed c₀ ops) : ∀ c ∈ states Class.run c₀ ops,
      (Iterates c ↔ c.information.maximum < idFinalIndex) := by
  intro c hc
  obtain ⟨h, hlt⟩ := Class.tabled_of_run hhigh hc₀ hrun hc
  exact h.iterates_iff hlt

/-- Three objects, of which the first and the last one are open. -/
theorem iteration_iff_three :
    ∃ c₀ c, Class.initializeInformation 0x0a01 true 3 (clearedWorkspace 0) = some c₀ ∧
      c = [Op.allocate (clearedWorkspace 1), .allocate (clearedWorkspace 1),
        .allocate (clearedWorkspace 1), .openObject ⟨0, 2⟩, .openObject ⟨0, 0⟩].foldl Class.run c₀ ∧
      c.walk 5 4 0x0a010000 0 = some [⟨0, 0⟩, ⟨0, 2⟩] ∧
      (Iterates c ↔ c.information.maximum < idFinalIndex) := by
  refine ⟨_, _, rfl, rfl, by decide, ?_⟩
  refine @iteration_iff 0x0a01 3 (by decide) true (clearedWorkspace 0) _ _ rfl ?_ _ mem_states_foldl
  have hgrant : ∀ s : Information, s.inactiveChain ≠ [] → Grows s (.allocate (clearedWorkspace 1)) :=
    fun s hne he => absurd he hne
  exact ⟨⟨fun _ => enabled_cleared (by decide), fun _ => hgrant _ (by decide)⟩,
    ⟨fun _ => enabled_cleared (by decide), fun _ => hgrant _ (by decide)⟩,
    ⟨fun _ => enabled_cleared (by decide), fun _ => hgrant _ (by decide)⟩,
    ⟨⟨⟨0, by decide⟩, rfl⟩, fun _ => trivial⟩, ⟨⟨⟨0, by decide⟩, rfl⟩, fun _ => trivial⟩, trivial⟩

/-- A limited class with the largest maximum: the walk does not end. -/
theorem iteration_endless : ¬ ∀ (high size : Nat) (autoExtend : Bool) (w : Workspace) (c₀ : Class)
    (ops : List Op), high < 2 ^ 16 →
      Class.initializeInformation high autoExtend size w = some c₀ →
      Along Class.run Class.Enabled c₀ ops → ∀ c ∈ states Class.run c₀ ops, Iterates c := by
  intro hall
  have hiter := hall 0x0a01 0xffff false (clearedWorkspace 0) _ [] (by decide) rfl trivial _
    List.mem_cons_self
  obtain ⟨fuel, calls, objects, hwalk, _⟩ := hiter 0x0a010000 0 rfl
  have hmax : (initializeInformation 0x0a01 0xffff (clearedWorkspace 0)).maximum = idFinalIndex := rfl
  rw [walk_endless hmax] at hwalk
  cases hwalk

end Rtems.Objects
