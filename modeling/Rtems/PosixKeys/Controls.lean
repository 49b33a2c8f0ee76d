import Rtems.PosixKeys.Model

/-!
# The key controls

`pthread_key_delete` frees the control of a key and leaves its entry in the local
table.  So the information of the keys has all that an information with clean
tables has, and entries of deleted keys besides.
-/

namespace Rtems.PosixKeys

open Objects (Information Workspace Obj)

variable {s g : Information} {autoExtend : Bool} {live : List Nat} {high key : Nat} {o : Obj}
  {w : Workspace}

/-- The information has the entries of a clean one, and counters if it needs
them. -/
def Tracks (s : Information) (autoExtend : Bool) (g : Information) : Prop :=
  ∃ table perBlock inactive,
    s = { g with localTable := table, inactivePerBlock := perBlock, inactive := inactive } ∧
    (autoExtend = true → perBlock = g.inactivePerBlock ∧ inactive = g.inactive) ∧
    ∀ i ≤ g.maximum, ∀ o, g.localTable i = some o → table i = some o

/-- There is an open control for each live key. -/
def Controls (s : Information) (autoExtend : Bool) (high : Nat) (live : List Nat) : Prop :=
  ∃ g, Tracks s autoExtend g ∧ Objects.Inv g ∧ g.high = high ∧
    ∀ key ∈ live, ∃ o, Objects.Open g o key

/-- The identifiers of the class of keys. -/
def InClass (high key : Nat) : Prop := ∃ i < 2 ^ 16, key = Objects.buildId high i

theorem Tracks.refl (g : Information) (autoExtend : Bool) : Tracks g autoExtend g :=
  ⟨g.localTable, g.inactivePerBlock, g.inactive, rfl, fun _ => ⟨rfl, rfl⟩, fun _ _ _ ho => ho⟩

theorem Tracks.get (ht : Tracks s autoExtend g) (hg : Objects.Inv g) (ho : Objects.Open g o key) :
    Objects.get s key = some o := by
  obtain ⟨table, perBlock, inactive, rfl, -, htable⟩ := ht
  have hget := hg.get_open ho
  unfold Objects.get at hget ⊢
  dsimp only at hget ⊢
  split at hget
  next hle => exact (if_pos hle).trans (htable _ hle o hget)
  next => cases hget

/-! ## Extension -/

variable {table : Nat → Option Obj}

theorem Tracks.grow (htable : ∀ i ≤ g.maximum, ∀ o, g.localTable i = some o → table i = some o)
    (t : Objects.Tables) (base maximum i : Nat)
    (h : (Objects.growTables g t base maximum).localTable i = some o) :
    (Objects.growTables { g with localTable := table } t base maximum).localTable i = some o := by
  simp only [Objects.growTables, Objects.getIndex_minimumId] at h ⊢
  split
  next hnew =>
    rw [if_pos hnew] at h
    cases h
  next hold =>
    rw [if_neg hold] at h
    split
    next hcopy =>
      rw [if_pos hcopy] at h
      exact htable i (by omega) o h
    next hcopy => rwa [if_neg hcopy] at h

/-- An extension makes the same of the tables with the additional entries. -/
theorem Tracks.extend
    (htable : ∀ i ≤ g.maximum, ∀ o, g.localTable i = some o → table i = some o) (w : Workspace) :
    ∃ table', Objects.extendInformation { g with localTable := table } w =
        { Objects.extendInformation g w with localTable := table' } ∧
      ∀ i ≤ (Objects.extendInformation g w).maximum, ∀ o,
        (Objects.extendInformation g w).localTable i = some o → table' i = some o := by
  have hsame : Objects.search (fun b =>
      decide (({ g with localTable := table } : Information).block b = none))
      ({ g with localTable := table } : Information).blockCount 0 =
        Objects.search (fun b => decide (g.block b = none)) g.blockCount 0 := rfl
  unfold Objects.extendInformation
  simp only [hsame]
  generalize Objects.search (fun b => decide (g.block b = none)) g.blockCount 0 = hole
  split
  next => exact ⟨table, rfl, htable⟩
  next =>
    cases w.objectBlock with
    | none => exact ⟨table, rfl, htable⟩
    | some newBlock =>
      cases hole with
      | some b => exact ⟨table, rfl, htable⟩
      | none =>
        cases w.tables with
        | none => exact ⟨table, rfl, htable⟩
        | some t => exact ⟨_, rfl, fun i _ _ => grow htable t _ _ i⟩

theorem extend_high (w : Workspace) : (Objects.extendInformation g w).high = g.high := by
  rcases Objects.extendInformation_cases g w with e | ⟨b, p, -, -, -, e⟩ | ⟨t, p, -, -, -, e⟩
  · rw [e]
  · rw [e]
    rfl
  · rw [e]
    rfl

/-! ## Create -/

/-- The first control of the chain is taken and opened. -/
theorem Tracks.take {rest : List Obj} {autoExtend : Bool} {perBlock : Nat → Nat} {inactive : Nat}
    (htable : ∀ i ≤ g.maximum, ∀ o, g.localTable i = some o → table i = some o)
    (hcounters : autoExtend = true → perBlock = (Objects.takeInactive g o rest).inactivePerBlock ∧
      inactive = (Objects.takeInactive g o rest).inactive) :
    Tracks
      (Objects.openObject
        { g with
          localTable := table
          inactivePerBlock := perBlock
          inactive := inactive
          inactiveChain := rest
          status := Function.update g.status o .allocated } o) autoExtend
      (Objects.openObject (Objects.takeInactive g o rest) o) := by
  refine ⟨_, perBlock, inactive, rfl, hcounters, ?_⟩
  intro i hi x hx
  simp only [Objects.openObject, Function.update_apply] at hx ⊢
  change (if i = g.index o then some o else g.localTable i) = some x at hx
  change (if i = g.index o then some o else table i) = some x
  split
  next heq =>
    rw [if_pos heq] at hx
    exact hx
  next hne =>
    rw [if_neg hne] at hx
    exact htable i hi x hx

/-- The first control of the chain is opened under a key that is no live one. -/
theorem Controls.opened (hg : Objects.Inv g) (hhigh : g.high = high)
    (hlive : ∀ key ∈ live, ∃ o, Objects.Open g o key)
    {rest : List Obj} (hchain : g.inactiveChain = o :: rest)
    (ht : Tracks s autoExtend (Objects.openObject (Objects.takeInactive g o rest) o)) :
    g.ids o ∉ live ∧ Controls s autoExtend high (g.ids o :: live) := by
  have htake := hg.take hchain
  obtain ⟨hlo, hst⟩ := (hg.mem o).mp (hchain ▸ List.mem_cons_self)
  have hallocated : (Objects.takeInactive g o rest).status o = .allocated := Function.update_self ..
  refine ⟨?_, _, ht, htake.openObject hlo hallocated, hhigh, ?_⟩
  · intro hmem
    obtain ⟨x, hlx, hactive, hid⟩ := hlive _ hmem
    have hindex : g.index x = g.index o := congrArg Objects.getIndex hid
    obtain rfl := hg.index_inj hlx hlo hindex
    rw [hst] at hactive
    exact Objects.Status.noConfusion hactive
  · intro key hkey
    rcases List.mem_cons.mp hkey with rfl | hkey
    · exact ⟨o, hlo, Function.update_self .., rfl⟩
    · obtain ⟨x, hx⟩ := hlive key hkey
      have hstep : Objects.Open
          (Objects.Op.run (Objects.takeInactive g o rest) (.openObject o)) x key := by
        refine (hx.take hg hchain).step htake ⟨hlo, hallocated⟩ trivial ?_
        intro hfalse
        cases hfalse
      exact ⟨x, hstep⟩

/-- `pthread_key_create`. -/
theorem Controls.create {k : Keys} (h : Controls k.information k.autoExtend high live)
    (hw : (Objects.Op.allocate w).Enabled k.information)
    (hgrows : k.autoExtend = true → k.information.inactiveChain = [] →
      Objects.KeepsTables k.information w) :
    ∃ information,
      (keyCreate k w = ({ k with information := information }, none) ∧
        Controls information k.autoExtend high live) ∨
      ∃ key, keyCreate k w = ({ k with information := information }, some key) ∧ key ∉ live ∧
        Controls information k.autoExtend high (key :: live) := by
  obtain ⟨g, ⟨table, perBlock, inactive, hinfo, hcounters, htable⟩, hg, hhigh, hlive⟩ := h
  have hchain : k.information.inactiveChain = g.inactiveChain := by rw [hinfo]
  unfold keyCreate allocate
  cases hauto : k.autoExtend with
  | false =>
    rw [if_neg Bool.false_ne_true]
    cases hfirst : g.inactiveChain with
    | nil =>
      rw [hchain, hfirst]
      refine ⟨k.information, .inl ⟨rfl, g, ?_, hg, hhigh, hlive⟩⟩
      exact ⟨table, perBlock, inactive, hinfo, fun hfalse => Bool.noConfusion hfalse, htable⟩
    | cons o rest =>
      rw [hchain, hfirst]
      have ht : Tracks (Objects.openObject
          { k.information with
            inactiveChain := rest
            status := Function.update k.information.status o .allocated } o) false
          (Objects.openObject (Objects.takeInactive g o rest) o) := by
        rw [hinfo]
        exact Tracks.take htable fun hfalse => Bool.noConfusion hfalse
      have hid : k.information.ids o = g.ids o := by rw [hinfo]
      obtain ⟨hnew, hcontrols⟩ := Controls.opened hg hhigh hlive hfirst ht
      rw [← hid] at hnew hcontrols
      exact ⟨_, .inr ⟨_, rfl, hnew, hcontrols⟩⟩
  | true =>
    rw [if_pos rfl]
    obtain ⟨rfl, rfl⟩ := hcounters hauto
    cases hfirst : g.inactiveChain with
    | cons o rest =>
      have halloc : Objects.allocate k.information w =
          (Objects.takeInactive k.information o rest, some o) := by
        unfold Objects.allocate
        rw [hchain, hfirst]
      have ht : Tracks (Objects.openObject (Objects.takeInactive k.information o rest) o) true
          (Objects.openObject (Objects.takeInactive g o rest) o) := by
        rw [hinfo]
        exact Tracks.take htable fun _ => ⟨rfl, rfl⟩
      have hid : k.information.ids o = g.ids o := by rw [hinfo]
      obtain ⟨hnew, hcontrols⟩ := Controls.opened hg hhigh hlive hfirst ht
      rw [← hid] at hnew hcontrols
      rw [halloc]
      exact ⟨_, .inr ⟨_, rfl, hnew, hcontrols⟩⟩
    | nil =>
      have hkeeps : Objects.KeepsTables g w := by
        have hk := hgrows hauto (hchain.trans hfirst)
        rwa [hinfo] at hk
      have hfresh : ∀ p, w.objectBlock = some p → Objects.Fresh g p := by
        rw [hinfo] at hw
        exact hw
      have hg' := hg.extend hfirst hfresh hkeeps
      have hhigh' : (Objects.extendInformation g w).high = high := (extend_high w).trans hhigh
      have hlive' : ∀ key ∈ live, ∃ o, Objects.Open (Objects.extendInformation g w) o key := by
        intro key hkey
        obtain ⟨o, ho⟩ := hlive key hkey
        exact ⟨o, ho.extend hg hfresh hkeeps⟩
      obtain ⟨table', hextend, htable'⟩ := Tracks.extend htable w
      have hextend' : Objects.extendInformation k.information w =
          { Objects.extendInformation g w with localTable := table' } := by
        rw [hinfo]
        exact hextend
      have hchain' : (Objects.extendInformation k.information w).inactiveChain =
          (Objects.extendInformation g w).inactiveChain := by rw [hextend']
      cases hnext : (Objects.extendInformation g w).inactiveChain with
      | nil =>
        have halloc : Objects.allocate k.information w =
            (Objects.extendInformation k.information w, none) := by
          unfold Objects.allocate
          rw [hchain, hfirst]
          simp only [hchain', hnext]
        rw [halloc]
        refine ⟨_, .inl ⟨rfl, _, ?_, hg', hhigh', hlive'⟩⟩
        exact ⟨table', _, _, hextend', fun _ => ⟨rfl, rfl⟩, htable'⟩
      | cons o rest =>
        have halloc : Objects.allocate k.information w =
            (Objects.takeInactive (Objects.extendInformation k.information w) o rest,
              some o) := by
          unfold Objects.allocate
          rw [hchain, hfirst]
          simp only [hchain', hnext]
        have ht : Tracks (Objects.openObject
            (Objects.takeInactive (Objects.extendInformation k.information w) o rest) o) true
            (Objects.openObject
              (Objects.takeInactive (Objects.extendInformation g w) o rest) o) := by
          rw [hextend']
          exact Tracks.take htable' fun _ => ⟨rfl, rfl⟩
        have hid : (Objects.extendInformation k.information w).ids o =
            (Objects.extendInformation g w).ids o := by rw [hextend']
        obtain ⟨hnew, hcontrols⟩ := Controls.opened hg' hhigh' hlive' hnext ht
        rw [← hid] at hnew hcontrols
        rw [halloc]
        exact ⟨_, .inr ⟨_, rfl, hnew, hcontrols⟩⟩

/-! ## Delete -/

theorem shrink_table : Objects.shrinkInformation { g with localTable := table } =
    { Objects.shrinkInformation g with localTable := table } := by
  unfold Objects.shrinkInformation
  simp only [Objects.getIndex_minimumId]
  cases Objects.search (fun b => decide (g.inactivePerBlock b = g.allocationSize))
    ((g.maximum - 1) / g.allocationSize) 0 with
  | none => rfl
  | some block => rfl

theorem shrink_frame (g : Information) : (Objects.shrinkInformation g).high = g.high ∧
    (Objects.shrinkInformation g).maximum = g.maximum ∧
    (Objects.shrinkInformation g).localTable = g.localTable := by
  unfold Objects.shrinkInformation
  simp only
  cases Objects.search (fun b => decide (g.inactivePerBlock b = g.allocationSize))
    ((g.maximum - Objects.getIndex g.minimumId) / g.allocationSize) 0 with
  | none => exact ⟨rfl, rfl, rfl⟩
  | some block => exact ⟨rfl, rfl, rfl⟩

/-- A control that is closed in the clean tables is freed. -/
theorem Tracks.free {k : Keys} (ht : Tracks k.information k.autoExtend g) (o : Obj) :
    ∃ g', Tracks (free k o) k.autoExtend g' ∧ g'.high = g.high ∧
      (g' = Objects.putInactive (Objects.closeObject g o) o ∨
        g' = Objects.free (Objects.closeObject g o) o) := by
  obtain ⟨table, perBlock, inactive, hinfo, hcounters, htable⟩ := ht
  have hclosed : ∀ i ≤ g.maximum, ∀ x, (Objects.closeObject g o).localTable i = some x →
      table i = some x := by
    intro i hi x hx
    simp only [Objects.closeObject, Function.update_apply] at hx
    split at hx
    next => cases hx
    next => exact htable i hi x hx
  have hstatus : Function.update (Function.update g.status o .allocated) o .inactive =
      Function.update g.status o .inactive := Function.update_idem ..
  cases hauto : k.autoExtend with
  | false =>
    refine ⟨Objects.putInactive (Objects.closeObject g o) o, ?_, rfl, .inl rfl⟩
    refine ⟨table, perBlock, inactive, ?_, fun hfalse => Bool.noConfusion hfalse, hclosed⟩
    unfold PosixKeys.free Objects.putInactive Objects.closeObject
    rw [hauto, if_neg Bool.false_ne_true, hinfo]
    simp only [hstatus]
  | true =>
    obtain ⟨rfl, rfl⟩ := hcounters hauto
    have hput : Objects.putInactive k.information o =
        { Objects.putInactive (Objects.closeObject g o) o with localTable := table } := by
      rw [hinfo]
      unfold Objects.putInactive Objects.closeObject
      simp only [hstatus]
      rfl
    unfold PosixKeys.free
    rw [hauto, if_pos rfl]
    unfold Objects.free
    simp only [hput]
    split
    next =>
      have hframe := shrink_frame (Objects.putInactive (Objects.closeObject g o) o)
      refine ⟨_, ⟨table, _, _, shrink_table, fun _ => ⟨rfl, rfl⟩, ?_⟩, hframe.1, .inr rfl⟩
      rw [hframe.2.1, hframe.2.2]
      exact hclosed
    next => exact ⟨_, ⟨table, _, _, rfl, fun _ => ⟨rfl, rfl⟩, hclosed⟩, rfl, .inr rfl⟩

/-- The control of a live key is found and freed. -/
theorem Controls.delete {k : Keys} (h : Controls k.information k.autoExtend high live)
    (hkey : key ∈ live) :
    ∃ o, Objects.get k.information key = some o ∧ k.information.ids o = key ∧
      Controls (free k o) k.autoExtend high (live.filter (· ≠ key)) := by
  obtain ⟨g, ht, hg, hhigh, hlive⟩ := h
  obtain ⟨o, ho⟩ := hlive key hkey
  have hids : k.information.ids o = key := by
    obtain ⟨table, perBlock, inactive, hinfo, -, -⟩ := ht
    rw [hinfo]
    exact ho.2.2
  refine ⟨o, ht.get hg ho, hids, ?_⟩
  have hclose := hg.closeObject ho.1 ho.2.1
  have hallocated : (Objects.closeObject g o).status o = .allocated := Function.update_self ..
  have hopen : ∀ x ∈ live.filter (· ≠ key), ∃ o', o' ≠ o ∧
      Objects.Open (Objects.closeObject g o) o' x := by
    intro x hx
    obtain ⟨hx, hne⟩ := List.mem_filter.mp hx
    obtain ⟨o', ho'⟩ := hlive x hx
    have hdiff : o' ≠ o := by
      rintro rfl
      exact of_decide_eq_true hne (ho'.2.2.symm.trans ho.2.2)
    have hstep : Objects.Open (Objects.Op.run g (.closeObject o)) o' x := by
      refine ho'.step hg ⟨ho.1, ho.2.1⟩ trivial ?_
      intro hsame
      cases hsame
      exact hdiff rfl
    exact ⟨o', hdiff, hstep⟩
  obtain ⟨g', ht', hhigh', hg' | hg'⟩ := ht.free o
  · refine ⟨g', ht', ?_, hhigh'.trans hhigh, ?_⟩
    · rw [hg']
      exact hclose.putInactive ho.1 hallocated
    · intro x hx
      obtain ⟨o', hdiff, ho'⟩ := hopen x hx
      rw [hg']
      refine ⟨o', ho'.1, ?_, ho'.2.2⟩
      exact (Function.update_of_ne hdiff ..).trans ho'.2.1
  · refine ⟨g', ht', ?_, hhigh'.trans hhigh, ?_⟩
    · rw [hg']
      exact hclose.free ho.1 hallocated
    · intro x hx
      obtain ⟨o', hdiff, ho'⟩ := hopen x hx
      have hstep : Objects.Open (Objects.Op.run (Objects.closeObject g o) (.free o)) o' x := by
        refine ho'.step hclose ⟨ho.1, hallocated⟩ trivial ?_
        intro hfalse
        cases hfalse
      rw [hg']
      exact ⟨o', hstep⟩

/-! ## Identifiers -/

theorem Controls.get (h : Controls s autoExtend high live) (hkey : key ∈ live) :
    Objects.get s key ≠ none := by
  obtain ⟨g, ht, hg, -, hlive⟩ := h
  obtain ⟨o, ho⟩ := hlive key hkey
  rw [ht.get hg ho]
  exact Option.some_ne_none o

/-- Every key that finds a control is in the class. -/
theorem inClass_of_get (hbound : g.maximum ≤ Objects.idFinalIndex) (hhigh : g.high = high)
    (hlt : high < 2 ^ 16) (hkey : key < 2 ^ 32) (hget : Objects.get g key ≠ none) :
    InClass high key := by
  subst hhigh
  unfold Objects.get at hget
  dsimp only at hget
  split at hget
  next hle =>
    rw [Objects.idFinalIndex] at hbound
    refine ⟨(key + 2 ^ 32 - g.minimumId + 1) % 2 ^ 32, ?_, ?_⟩
    · exact Nat.lt_of_le_of_lt hle (by omega)
    · replace hle : (key + 2 ^ 32 - g.minimumId + 1) % 2 ^ 32 ≤ g.maximum := hle
      rw [Objects.Information.minimumId, Objects.buildId] at hle ⊢
      rw [Objects.buildId]
      omega
  next => exact absurd rfl hget

/-- The same of the keys, also of one that is deleted. -/
theorem Controls.inClass (h : Controls s autoExtend high live) (hhigh : high < 2 ^ 16)
    (hkey : key < 2 ^ 32) (hget : Objects.get s key ≠ none) : InClass high key := by
  obtain ⟨g, ⟨table, perBlock, inactive, hinfo, -, -⟩, hg, hclass, -⟩ := h
  have hbound : s.maximum ≤ Objects.idFinalIndex := by
    rw [hinfo]
    exact hg.bound
  have hs : s.high = high := by
    rw [hinfo]
    exact hclass
  exact inClass_of_get hbound hs hhigh hkey hget

theorem Controls.class_of_live (h : Controls s autoExtend high live) (hkey : key ∈ live) :
    InClass high key := by
  obtain ⟨g, -, hg, rfl, hlive⟩ := h
  obtain ⟨o, hlo, -, rfl⟩ := hlive key hkey
  obtain ⟨b, hb, hp, hi⟩ := hlo
  have hoffset := Objects.offset_lt hb hi
  have hbound := hg.bound
  have hmax := hg.maximum
  rw [Objects.idFinalIndex] at hbound
  exact ⟨1 + b * g.allocationSize + o.slot, by omega, hg.ids b hb _ hp _ hi⟩

end Rtems.PosixKeys
