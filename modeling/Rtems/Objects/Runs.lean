import Rtems.Objects.Extend

/-!
# The object tables over whole runs

Every operation keeps the invariant, and the objects that are open stay where
they are.  Only an extension that grows the tables of a single object is
excluded.
-/

namespace Rtems.Objects

variable {s s' : Information} {o o' : Obj} {b i p : Nat} {w : Workspace}

/-! ## Allocate -/

theorem Inv.take (h : Inv s) {rest : List Obj} (hc : s.inactiveChain = o :: rest) :
    Inv (takeInactive s o rest) := by
  have hnd := h.nodup
  rw [hc, List.nodup_cons] at hnd
  have ho := (h.mem o).mp (hc ▸ List.mem_cons_self)
  refine
    { size := h.size
      maximum := h.maximum
      bound := h.bound
      ids := h.ids
      nodup := hnd.2
      mem := fun x => ?_
      perBlock := fun b hb => ?_
      inactive := ?_
      table := fun i hi x => ?_ }
  · change x ∈ rest ↔ s.Live x ∧ Function.update s.status o .allocated x = .inactive
    rcases eq_or_ne x o with rfl | hne
    · rw [Function.update_self]
      exact ⟨fun hx => absurd hx hnd.1, fun hx => Status.noConfusion hx.2⟩
    · rw [Function.update_of_ne hne, ← h.mem x, hc, List.mem_cons]
      exact ⟨.inr, fun hx => hx.resolve_left hne⟩
  · have hb' := h.perBlock b hb
    rw [hc, List.map_cons, List.count_cons] at hb'
    change Function.update s.inactivePerBlock (s.blockOf o) (s.inactivePerBlock (s.blockOf o) - 1) b
      = (rest.map s.blockOf).count b
    rcases eq_or_ne b (s.blockOf o) with rfl | hne
    · rw [Function.update_self, hb', if_pos (beq_self_eq_true _), Nat.add_sub_cancel]
    · rw [Function.update_of_ne hne, hb', if_neg (fun e => hne (eq_of_beq e).symm), Nat.add_zero]
  · change s.inactive - 1 = rest.length
    rw [h.inactive, hc, List.length_cons, Nat.add_sub_cancel]
  · change s.localTable i = some x ↔
      s.Live x ∧ Function.update s.status o .allocated x = .active ∧ s.index x = i
    rw [h.table i hi x]
    rcases eq_or_ne x o with rfl | hne
    · rw [Function.update_self, ho.2]
      exact ⟨fun hx => Status.noConfusion hx.2.1, fun hx => Status.noConfusion hx.2.1⟩
    · rw [Function.update_of_ne hne]

/-- An allocation takes the first inactive object, after an extension if there is none. -/
theorem allocate_cases (s : Information) (w : Workspace) :
    (s.inactiveChain = [] ∧ (allocate s w).1 = extendInformation s w) ∨
    (∃ s' o rest, (s' = s ∨ s.inactiveChain = [] ∧ s' = extendInformation s w) ∧
      s'.inactiveChain = o :: rest ∧ (allocate s w).1 = takeInactive s' o rest) := by
  unfold allocate
  split
  next o rest hc => exact .inr ⟨s, o, rest, .inl rfl, hc, rfl⟩
  next he =>
    dsimp only
    split
    next => exact .inl ⟨he, rfl⟩
    next o rest hc => exact .inr ⟨_, o, rest, .inr ⟨he, rfl⟩, hc, rfl⟩

/-! ## Open and close -/

/-- Opening and closing write one entry and the status of one object. -/
theorem Inv.write (h : Inv s) (ho : s.Live o) {entry : Option Obj} {st : Status}
    (hs : s.status o ≠ .inactive) (hst : st ≠ .inactive)
    (he : ∀ x, entry = some x ↔ x = o ∧ st = .active) :
    Inv { s with
      localTable := Function.update s.localTable (s.index o) entry
      status := Function.update s.status o st } where
  size := h.size
  maximum := h.maximum
  bound := h.bound
  ids := h.ids
  nodup := h.nodup
  mem x := by
    change x ∈ s.inactiveChain ↔ s.Live x ∧ Function.update s.status o st x = .inactive
    rw [h.mem x]
    rcases eq_or_ne x o with rfl | hne
    · rw [Function.update_self]
      exact ⟨fun hx => absurd hx.2 hs, fun hx => absurd hx.2 hst⟩
    · rw [Function.update_of_ne hne]
  perBlock := h.perBlock
  inactive := h.inactive
  table i hi x := by
    change Function.update s.localTable (s.index o) entry i = some x ↔
      s.Live x ∧ Function.update s.status o st x = .active ∧ s.index x = i
    rcases eq_or_ne i (s.index o) with rfl | hne
    · -- The entry written: no other live object has this index.
      rw [Function.update_self, he]
      constructor
      · rintro ⟨rfl, hx⟩
        rw [Function.update_self]
        exact ⟨ho, hx, rfl⟩
      · rintro ⟨hx, hxs, hxi⟩
        obtain rfl := h.index_inj hx ho hxi
        rw [Function.update_self] at hxs
        exact ⟨rfl, hxs⟩
    · rw [Function.update_of_ne hne, h.table i hi x]
      rcases eq_or_ne x o with rfl | hxo
      · exact ⟨fun hx => absurd hx.2.2.symm hne, fun hx => absurd hx.2.2.symm hne⟩
      · rw [Function.update_of_ne hxo]

theorem Inv.openObject (h : Inv s) (ho : s.Live o) (hs : s.status o = .allocated) :
    Inv (openObject s o) := by
  refine h.write ho ?_ (by simp) fun x => ?_
  · rw [hs]
    exact fun e => Status.noConfusion e
  · exact ⟨fun e => ⟨(Option.some.inj e).symm, rfl⟩, fun e => by rw [e.1]⟩

theorem Inv.closeObject (h : Inv s) (ho : s.Live o) (hs : s.status o = .active) :
    Inv (closeObject s o) := by
  refine h.write ho ?_ (by simp) fun x => ?_
  · rw [hs]
    exact fun e => Status.noConfusion e
  · exact ⟨fun e => absurd e.symm (Option.some_ne_none x), fun e => Status.noConfusion e.2⟩

/-! ## Free -/

theorem Inv.putInactive (h : Inv s) (ho : s.Live o) (hs : s.status o = .allocated) :
    Inv (putInactive s o) := by
  have hno : o ∉ s.inactiveChain := by
    intro hm
    have := ((h.mem o).mp hm).2
    rw [hs] at this
    cases this
  refine
    { size := h.size
      maximum := h.maximum
      bound := h.bound
      ids := h.ids
      nodup := ?_
      mem := fun x => ?_
      perBlock := fun b hb => ?_
      inactive := ?_
      table := fun i hi x => ?_ }
  · exact List.nodup_append_comm.mp (List.nodup_cons.mpr ⟨hno, h.nodup⟩)
  · change x ∈ s.inactiveChain ++ [o] ↔
      s.Live x ∧ Function.update s.status o .inactive x = .inactive
    rw [List.mem_append, List.mem_singleton, h.mem x]
    rcases eq_or_ne x o with rfl | hne
    · rw [Function.update_self]
      exact ⟨fun _ => ⟨ho, rfl⟩, fun _ => .inr rfl⟩
    · rw [Function.update_of_ne hne]
      exact ⟨fun hx => hx.resolve_right hne, .inl⟩
  · change Function.update s.inactivePerBlock (s.blockOf o) (s.inactivePerBlock (s.blockOf o) + 1) b
      = ((s.inactiveChain ++ [o]).map s.blockOf).count b
    rw [List.map_append, List.count_append, ← h.perBlock b hb, List.map_singleton,
      List.count_singleton]
    rcases eq_or_ne b (s.blockOf o) with rfl | hne
    · rw [Function.update_self, if_pos (beq_self_eq_true _)]
    · rw [Function.update_of_ne hne, if_neg (fun e => hne (eq_of_beq e).symm), Nat.add_zero]
  · change s.inactive + 1 = (s.inactiveChain ++ [o]).length
    rw [h.inactive, List.length_append, List.length_singleton]
  · change s.localTable i = some x ↔
      s.Live x ∧ Function.update s.status o .inactive x = .active ∧ s.index x = i
    rw [h.table i hi x]
    rcases eq_or_ne x o with rfl | hne
    · rw [Function.update_self, hs]
      exact ⟨fun hx => Status.noConfusion hx.2.1, fun hx => Status.noConfusion hx.2.1⟩
    · rw [Function.update_of_ne hne]

/-! ## Shrink -/

/-- Release a block. -/
def release (s : Information) (b : Nat) : Information :=
  { s with
    inactiveChain := s.inactiveChain.filter fun o =>
      !(decide (1 + b * s.allocationSize ≤ s.index o) &&
        decide (s.index o < 1 + b * s.allocationSize + s.allocationSize))
    objectBlocks := s.objectBlocks.map fun f => Function.update f b none
    inactivePerBlock := Function.update s.inactivePerBlock b 0
    inactive := s.inactive - s.allocationSize }

/-- A shrink releases a block all of whose objects are inactive. -/
theorem Inv.shrink_cases (h : Inv s) : shrinkInformation s = s ∨
    ∃ b < s.blockCount, s.inactivePerBlock b = s.allocationSize ∧
      shrinkInformation s = release s b := by
  simp only [shrinkInformation, getIndex_minimumId]
  split
  next => exact .inl rfl
  next b hs =>
    obtain ⟨_, hb, hf⟩ := search_some hs
    refine .inr ⟨b, ?_, of_decide_eq_true hf, rfl⟩
    rw [h.blockCount_eq]
    rw [Nat.zero_add] at hb
    exact hb.trans_le (Nat.div_le_div_right (Nat.sub_le _ _))

theorem release_blockCount : (release s b).blockCount = s.blockCount := by
  unfold Information.blockCount release
  cases s.objectBlocks <;> rfl

theorem release_block (c : Nat) : (release s b).block c = if c = b then none else s.block c := by
  unfold release Information.block
  cases s.objectBlocks with
  | none => simp
  | some f => simp [Function.update_apply]

theorem Inv.release_live (h : Inv s) : (release s b).Live o ↔ s.Live o ∧ s.blockOf o ≠ b := by
  unfold Information.Live
  rw [release_blockCount]
  constructor
  · rintro ⟨c, hc, hp, hi⟩
    rw [release_block] at hp
    split at hp
    next => cases hp
    next hne =>
      refine ⟨⟨c, hc, hp, hi⟩, ?_⟩
      rw [h.blockOf_eq hc hp hi]
      exact hne
  · rintro ⟨⟨c, hc, hp, hi⟩, hne⟩
    rw [h.blockOf_eq hc hp hi] at hne
    refine ⟨c, hc, ?_, hi⟩
    rw [release_block, if_neg hne]
    exact hp

theorem Inv.release_chain (h : Inv s) :
    (release s b).inactiveChain = s.inactiveChain.filter fun o => !decide (s.blockOf o = b) := by
  refine List.filter_congr fun o ho => ?_
  rw [← Bool.decide_and, decide_eq_decide.mpr (h.index_range ((h.mem o).mp ho).1)]

theorem Inv.release (h : Inv s) (hb : b < s.blockCount)
    (hf : s.inactivePerBlock b = s.allocationSize) : Inv (release s b) := by
  have hcount : (s.inactiveChain.map s.blockOf).count b = s.allocationSize := by
    rw [← h.perBlock b hb, hf]
  refine
    { size := h.size
      maximum := by rw [release_blockCount]; exact h.maximum
      bound := h.bound
      ids := fun c hc p hp => ?_
      nodup := h.nodup.filter _
      mem := fun o => ?_
      perBlock := fun c hc => ?_
      inactive := ?_
      table := fun i hi o => ?_ }
  · rw [release_blockCount] at hc
    rw [release_block] at hp
    split at hp
    next => cases hp
    next => exact h.ids c hc p hp
  · rw [h.release_chain, h.release_live, List.mem_filter, h.mem o]
    change _ ↔ _ ∧ s.status o = .inactive
    rw [Bool.not_eq_true', decide_eq_false_iff_not]
    exact and_right_comm
  · rw [release_blockCount] at hc
    rw [h.release_chain]
    change Function.update s.inactivePerBlock b 0 c = List.count c (List.map s.blockOf _)
    rw [List.count, List.countP_map, List.countP_filter]
    rcases eq_or_ne c b with rfl | hne
    · rw [Function.update_self, eq_comm, List.countP_eq_zero]
      intro o _
      simp
    · rw [Function.update_of_ne hne, h.perBlock c hc, List.count, List.countP_map]
      refine List.countP_congr fun o _ => ?_
      simp only [Function.comp_apply, beq_iff_eq, Bool.and_eq_true, Bool.not_eq_true',
        decide_eq_false_iff_not]
      exact ⟨fun e => ⟨e, fun e' => hne (e.symm.trans e')⟩, And.left⟩
  · rw [h.release_chain, ← List.countP_eq_length_filter]
    change s.inactive - s.allocationSize = _
    have hsplit := s.inactiveChain.length_eq_countP_add_countP fun o => decide (s.blockOf o = b)
    rw [List.count, List.countP_map] at hcount
    have heq : List.countP ((fun x => x == b) ∘ s.blockOf) s.inactiveChain =
        List.countP (fun o => decide (s.blockOf o = b)) s.inactiveChain := rfl
    have hneg : List.countP (fun o => decide ¬ (decide (s.blockOf o = b)) = true) s.inactiveChain =
        List.countP (fun o => !decide (s.blockOf o = b)) s.inactiveChain :=
      List.countP_congr fun o _ => by simp
    rw [h.inactive]
    omega
  · rw [h.release_live]
    change s.localTable i = some o ↔ _ ∧ s.status o = .active ∧ s.index o = i
    rw [h.table i hi o]
    refine ⟨fun ⟨ho, hs, hidx⟩ => ⟨⟨ho, fun e => ?_⟩, hs, hidx⟩, fun hx => ⟨hx.1.1, hx.2⟩⟩
    have := h.all_inactive hb hf ho e
    rw [hs] at this
    cases this

theorem Inv.shrink (h : Inv s) : Inv (shrinkInformation s) := by
  rcases h.shrink_cases with e | ⟨b, hb, hf, e⟩
  · rw [e]
    exact h
  · rw [e]
    exact h.release hb hf

theorem Inv.free (h : Inv s) (ho : s.Live o) (hs : s.status o = .allocated) :
    Inv (free s o) := by
  have hput := h.putInactive ho hs
  unfold Objects.free
  dsimp only
  split
  · exact hput.shrink
  · exact hput

/-! ## Runs -/

/-- The side condition of a run: no allocation grows the tables of a single object. -/
def Grows (s : Information) : Op → Prop
  | .allocate w => s.inactiveChain = [] → KeepsTables s w
  | _ => True

/-- One step keeps the invariant. -/
theorem Inv.step {op : Op} (h : Inv s) (he : op.Enabled s) (hg : Grows s op) : Inv (op.run s) := by
  cases op with
  | allocate w =>
    change Inv (Objects.allocate s w).1
    rcases allocate_cases s w with ⟨hc, e⟩ | ⟨s', o, rest, rfl | ⟨hc, rfl⟩, hc', e⟩
    · rw [e]
      exact h.extend hc he (hg hc)
    · rw [e]
      exact h.take hc'
    · rw [e]
      exact (h.extend hc he (hg hc)).take hc'
  | openObject o => exact h.openObject he.1 he.2
  | closeObject o => exact h.closeObject he.1 he.2
  | free o => exact h.free he.1 he.2

theorem Inv.run {ops : List Op} (h : Inv s) (hr : Runs Grows s ops s') : Inv s' := by
  induction hr with
  | nil => exact h
  | cons he hg _ ih => exact ih (h.step he hg)

/-- The object is open under its id. -/
def Open (s : Information) (o : Obj) (id : Nat) : Prop :=
  s.Live o ∧ s.status o = .active ∧ s.ids o = id

theorem Open.take {id : Nat} {rest : List Obj} (ho : Open s o id) (h : Inv s)
    (hc : s.inactiveChain = o' :: rest) : Open (takeInactive s o' rest) o id := by
  have ho' := (h.mem o').mp (hc ▸ List.mem_cons_self)
  have hne : o ≠ o' := by
    rintro rfl
    rw [ho.2.1] at ho'
    cases ho'.2
  refine ⟨ho.1, ?_, ho.2.2⟩
  change Function.update s.status o' .allocated o = .active
  rw [Function.update_of_ne hne]
  exact ho.2.1

theorem Open.extend {id : Nat} (ho : Open s o id) (h : Inv s)
    (hf : ∀ p, w.objectBlock = some p → Fresh s p) (hk : KeepsTables s w) :
    Open (extendInformation s w) o id := by
  obtain ⟨hl, hid, hst⟩ := h.extend_live hf hk ho.1
  exact ⟨hl, hst.trans ho.2.1, hid.trans ho.2.2⟩

theorem Open.shrink {id : Nat} (ho : Open s o id) (h : Inv s) :
    Open (shrinkInformation s) o id := by
  rcases h.shrink_cases with e | ⟨b, hb, hf, e⟩
  · rw [e]
    exact ho
  · rw [e]
    refine ⟨h.release_live.mpr ⟨ho.1, fun hbo => ?_⟩, ho.2⟩
    have := h.all_inactive hb hf ho.1 hbo
    rw [ho.2.1] at this
    cases this

/-- One step leaves an open object open, unless it closes it. -/
theorem Open.step {op : Op} {id : Nat} (ho : Open s o id) (h : Inv s) (he : op.Enabled s)
    (hg : Grows s op) (hop : op ≠ .closeObject o) : Open (op.run s) o id := by
  cases op with
  | allocate w =>
    change Open (Objects.allocate s w).1 o id
    rcases allocate_cases s w with ⟨hc, e⟩ | ⟨s', x, rest, rfl | ⟨hc, rfl⟩, hc', e⟩
    · rw [e]
      exact ho.extend h he (hg hc)
    · rw [e]
      exact ho.take h hc'
    · rw [e]
      exact (ho.extend h he (hg hc)).take (h.extend hc he (hg hc)) hc'
  | openObject x =>
    refine ⟨ho.1, ?_, ho.2.2⟩
    change Function.update s.status x .active o = .active
    rcases eq_or_ne o x with rfl | hne
    · exact Function.update_self ..
    · rw [Function.update_of_ne hne]
      exact ho.2.1
  | closeObject x =>
    refine ⟨ho.1, ?_, ho.2.2⟩
    have hne : o ≠ x := fun e => hop (e ▸ rfl)
    change Function.update s.status x .allocated o = .active
    rw [Function.update_of_ne hne]
    exact ho.2.1
  | free x =>
    have hne : o ≠ x := by
      rintro rfl
      have := he.2
      rw [ho.2.1] at this
      cases this
    have hput : Open (Objects.putInactive s x) o id := by
      refine ⟨ho.1, ?_, ho.2.2⟩
      change Function.update s.status x .inactive o = .active
      rw [Function.update_of_ne hne]
      exact ho.2.1
    change Open (Objects.free s x) o id
    unfold Objects.free
    dsimp only
    split
    · exact hput.shrink (h.putInactive he.1 he.2)
    · exact hput

theorem Open.run {ops : List Op} {id : Nat} (ho : Open s o id) (h : Inv s)
    (hr : Runs Grows s ops s') (hops : Op.closeObject o ∉ ops) : Open s' o id := by
  induction hr with
  | nil => exact ho
  | cons he hg _ ih =>
    rw [List.mem_cons, not_or] at hops
    exact ih (ho.step h he hg fun e => hops.1 e.symm) (h.step he hg) hops.2

/-- The id of an open object finds the object. -/
theorem Inv.get_open {id : Nat} (h : Inv s) (ho : Open s o id) : get s id = some o := by
  obtain ⟨hl, hs, rfl⟩ := ho
  obtain ⟨hb, hp, hi⟩ := h.live_iff.mp hl
  have hid := h.ids _ hb _ hp _ hi
  have hidx := h.index_live hl
  obtain ⟨hpos, hle⟩ := h.index_pos_le hl
  have hbound := h.bound
  rw [idFinalIndex] at hbound
  have hget : (s.ids o + 2 ^ 32 - s.minimumId + 1) % 2 ^ 32 = s.index o := by
    rw [hid, Information.minimumId, buildId, buildId, hidx]
    omega
  simp only [get, hget]
  rw [if_pos hle]
  exact (h.table _ hle o).mpr ⟨hl, hs, rfl⟩

/-! ## The tables -/

/-- The state of an object shows in the tables: it is in the local table if it is
open, on the chain if it is inactive, and in neither if it is only allocated. -/
structure Consistent (s : Information) (o : Obj) : Prop where
  table : s.localTable (s.index o) = some o ↔ s.status o = .active
  chain : o ∈ s.inactiveChain ↔ s.status o = .inactive
  once : s.inactiveChain.count o ≤ 1

theorem Inv.consistent (h : Inv s) (ho : s.Live o) : Consistent s o where
  table := by
    rw [h.table _ (h.index_pos_le ho).2 o]
    exact ⟨fun hx => hx.2.1, fun hs => ⟨ho, hs, rfl⟩⟩
  chain := by
    rw [h.mem o]
    exact ⟨And.right, fun hs => ⟨ho, hs⟩⟩
  once := List.nodup_iff_count_le_one.mp h.nodup o

/-- What the tables promise in a state, for the runs that meet `ok`. -/
structure Integrity (ok : Information → Op → Prop) (s : Information) : Prop where
  /-- An extension keeps the entries, blocks and counters there were. -/
  extends_tables : ∀ w, (Op.allocate w).Enabled s → ok s (.allocate w) → s.inactiveChain = [] →
    Extends s (extendInformation s w)
  /-- Every object of an allocated block is in exactly one state. -/
  consistent : ∀ o, s.Live o → Consistent s o
  chain_live : ∀ o ∈ s.inactiveChain, s.Live o
  inactive_length : s.inactive = s.inactiveChain.length
  inactive_sum : s.inactive = ∑ b ∈ Finset.range s.blockCount, s.inactivePerBlock b
  index_unique : ∀ o o', s.Live o → s.Live o' → s.index o = s.index o' → o = o'
  /-- An id finds its object as long as the object is not closed. -/
  get_stable : ∀ o, s.Live o → s.status o = .active → ∀ ops' s', Runs ok s ops' s' →
    Op.closeObject o ∉ ops' → get s' (s.ids o) = some o

/-- **The tables keep their integrity in every run** of a class with auto-extend
in which no allocation grows the tables of a single object. -/
theorem object_tables {high allocationSize : Nat} {w : Workspace} {ops : List Op}
    (hsize : 1 ≤ allocationSize)
    (hrun : Runs Grows (initializeInformation high allocationSize w) ops s) :
    Integrity Grows s := by
  have h := (Inv.of_start high hsize w).run hrun
  refine
    { extends_tables := fun w _ hg hc => h.extend_keeps (hg hc)
      consistent := fun o => h.consistent
      chain_live := fun o ho => ((h.mem o).mp ho).1
      inactive_length := h.inactive
      inactive_sum := h.inactive.trans h.sum_perBlock.symm
      index_unique := fun o o' => h.index_inj
      get_stable := fun o ho hs ops' s' hr hops => ?_ }
  exact (h.run hr).get_open (Open.run ⟨ho, hs, rfl⟩ h hr hops)

/-- A workspace that hands out cleared memory. -/
def clearedWorkspace (p : Nat) : Workspace where
  objectBlock := some p
  tables := some ⟨fun _ => none, fun _ => 0, fun _ => none⟩

theorem enabled_cleared (hf : ∀ b < s.blockCount, s.block b ≠ some p) :
    (Op.allocate (clearedWorkspace p)).Enabled s := by
  rintro q ⟨⟩
  exact hf

/-- Two objects per block: the third allocation grows the tables, and the first
object stays open. -/
theorem object_tables_two :
    let s₀ := initializeInformation 0x0a01 2 (clearedWorkspace 0)
    let s₁ := Op.run s₀ (.allocate (clearedWorkspace 1))
    let s₂ := Op.run s₁ (.openObject ⟨0, 0⟩)
    let s₃ := Op.run s₂ (.allocate (clearedWorkspace 1))
    let s₄ := Op.run s₃ (.allocate (clearedWorkspace 1))
    s₄.maximum = 4 ∧ get s₄ 0x0a010001 = some ⟨0, 0⟩ ∧ Integrity Grows s₄ := by
  intro s₀ s₁ s₂ s₃ s₄
  have hrun : Runs Grows s₀ [.allocate (clearedWorkspace 1), .openObject ⟨0, 0⟩,
      .allocate (clearedWorkspace 1), .allocate (clearedWorkspace 1)] s₄ := by
    refine .cons (enabled_cleared (by decide)) (fun hc => ?_) <|
      .cons ⟨⟨0, by decide⟩, rfl⟩ trivial <|
      .cons (enabled_cleared (by decide)) (fun hc => ?_) <|
      .cons (enabled_cleared (by decide)) (fun _ _ _ _ => by decide) .nil
    · exact absurd hc (by decide)
    · exact absurd hc (by decide)
  exact ⟨by decide, by decide, object_tables (by decide) hrun⟩

/-- One object per block: the second allocation grows tables with `maximum` equal
to `minimum_index`, which are taken for no tables at all. -/
theorem object_tables_lost : ¬ ∀ (high allocationSize : Nat) (w : Workspace) (ops : List Op)
    (s : Information), 1 ≤ allocationSize →
      Runs (fun _ _ => True) (initializeInformation high allocationSize w) ops s →
      Integrity (fun _ _ => True) s := by
  intro hall
  have hrun : Runs (fun _ _ => True) (initializeInformation 0x0a01 1 (clearedWorkspace 0))
      [.allocate (clearedWorkspace 1), .openObject ⟨0, 0⟩] _ :=
    .cons (enabled_cleared (by decide)) trivial <| .cons ⟨⟨0, by decide⟩, rfl⟩ trivial .nil
  have hget := (hall _ _ _ _ _ (by decide) hrun).get_stable ⟨0, 0⟩ ⟨0, by decide⟩ rfl
    [.allocate (clearedWorkspace 1)] _ (.cons (enabled_cleared (by decide)) trivial .nil)
    (by simp)
  exact absurd hget (by decide)

end Rtems.Objects
