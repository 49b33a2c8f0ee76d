import Rtems.Objects.Classes

/-!
# The number of active objects

`_Objects_Active_count` takes the length of the `Inactive` chain off `maximum`.
The objects of a class are those of its allocated blocks, and each of them is
inactive or in the hands of a caller.  A shrink takes the objects of a block off
the chain and leaves `maximum`, so a block that was released counts as active
until an extension fills it again.
-/

namespace Rtems.Objects

variable {s s' : Information} {o : Obj} {held : List Obj}

/-! ## The model -/

/-- `_Objects_Active_count`: a difference of `size_t`, cut to `Objects_Maximum`. -/
def activeCount (s : Information) : Nat :=
  (s.maximum + 2 ^ 16 - s.inactiveChain.length % 2 ^ 16) % 2 ^ 16

/-- What a call does to the list of the objects that were allocated and not freed. -/
def Op.hold (s : Information) (held : List Obj) : Op → List Obj
  | .allocate w =>
    match (Objects.allocate s w).2 with
    | some o => o :: held
    | none => held
  | .free o => held.erase o
  | .openObject _ | .closeObject _ => held

/-- The objects that a run allocated and did not free. -/
def outstanding : Information → List Obj → List Op → List Obj
  | _, held, [] => held
  | s, held, op :: ops => outstanding (op.run s) (op.hold s held) ops

/-! ## The objects of a class -/

/-- The objects of one block. -/
def blockObjects (s : Information) (b : Nat) : List Obj :=
  match s.block b with
  | some p => (List.range s.allocationSize).map fun i => ⟨p, i⟩
  | none => []

/-- The objects of the allocated blocks. -/
def liveObjects (s : Information) : List Obj := (List.range s.blockCount).flatMap (blockObjects s)

theorem mem_blockObjects {b : Nat} :
    o ∈ blockObjects s b ↔ s.block b = some o.block ∧ o.slot < s.allocationSize := by
  unfold blockObjects
  cases hb : s.block b with
  | none => simp
  | some p =>
    simp only [List.mem_map, List.mem_range, Option.some.injEq]
    constructor
    · rintro ⟨i, hi, rfl⟩
      exact ⟨rfl, hi⟩
    · rintro ⟨rfl, hi⟩
      exact ⟨o.slot, hi, rfl⟩

theorem mem_liveObjects : o ∈ liveObjects s ↔ s.Live o := by
  simp only [liveObjects, List.mem_flatMap, List.mem_range, mem_blockObjects, Information.Live]

theorem Inv.nodup_liveObjects (h : Inv s) : (liveObjects s).Nodup := by
  refine List.nodup_flatMap.mpr ⟨fun b _ => ?_, ?_⟩
  · unfold blockObjects
    cases s.block b with
    | none => exact List.nodup_nil
    | some p => exact List.nodup_range.map fun i j hij => (Obj.mk.inj hij).2
  · refine List.Pairwise.imp_of_mem (fun {b c} hb hc hne => ?_) (List.nodup_range (n := s.blockCount))
    intro x hx hx'
    obtain ⟨hp, hi⟩ := mem_blockObjects.mp hx
    obtain ⟨hp', _⟩ := mem_blockObjects.mp hx'
    -- The index of an object tells its block.
    have hbx := h.blockOf_eq (List.mem_range.mp hb) hp hi
    have hcx := h.blockOf_eq (List.mem_range.mp hc) hp' hi
    exact hne (hbx.symm.trans hcx)

/-- The blocks that are not allocated. -/
def holes (s : Information) : Nat := (List.range s.blockCount).countP fun b => s.block b = none

theorem length_flatMap_blocks (bs : List Nat) :
    (bs.flatMap (blockObjects s)).length + bs.countP (fun b => s.block b = none) * s.allocationSize =
      bs.length * s.allocationSize := by
  induction bs with
  | nil => simp
  | cons b bs ih =>
    rw [List.flatMap_cons, List.length_append, List.countP_cons, List.length_cons, Nat.succ_mul, ← ih]
    unfold blockObjects
    cases hb : s.block b with
    | none => simp [Nat.add_mul]; omega
    | some p => simp; omega

theorem Inv.length_liveObjects (h : Inv s) :
    (liveObjects s).length + holes s * s.allocationSize = s.maximum := by
  rw [liveObjects, holes, length_flatMap_blocks, List.length_range, h.maximum]

/-! ## The accounts -/

/-- The list of objects in the hands of callers is right. -/
structure Accounts (s : Information) (held : List Obj) : Prop where
  nodup : held.Nodup
  mem : ∀ o, o ∈ held ↔ s.status o ≠ .inactive

/-- Each object of the class is inactive or held. -/
theorem Accounts.split (ha : Accounts s held) (hh : Held s) (h : Inv s) :
    s.inactiveChain.length + held.length = (liveObjects s).length := by
  have hdisj : s.inactiveChain.Disjoint held := by
    intro x hx hx'
    exact (ha.mem x).mp hx' ((h.mem x).mp hx).2
  have hnodup : (s.inactiveChain ++ held).Nodup := h.nodup.append ha.nodup hdisj
  have hperm : (s.inactiveChain ++ held).Perm (liveObjects s) := by
    refine (List.perm_ext_iff_of_nodup hnodup h.nodup_liveObjects).mpr fun x => ?_
    rw [List.mem_append, h.mem x, ha.mem x, mem_liveObjects]
    constructor
    · rintro (hx | hx)
      · exact hx.1
      · exact hh x hx
    · intro hx
      by_cases hst : s.status x = .inactive
      · exact .inl ⟨hx, hst⟩
      · exact .inr hst
  rw [← List.length_append]
  exact hperm.length_eq

/-- The count is off by the objects of the blocks that are not allocated. -/
theorem Accounts.activeCount (ha : Accounts s held) (hh : Held s) (h : Inv s) :
    activeCount s = held.length + holes s * s.allocationSize := by
  have hsplit := ha.split hh h
  have hlive := h.length_liveObjects
  have hbound := h.bound
  rw [idFinalIndex] at hbound
  rw [Objects.activeCount]
  omega

/-! ## Each call keeps the accounts -/

theorem allocate_eq (s : Information) (w : Workspace) :
    (s.inactiveChain = [] ∧ allocate s w = (extendInformation s w, none)) ∨
    ∃ s' o rest, (s' = s ∨ s.inactiveChain = [] ∧ s' = extendInformation s w) ∧
      s'.inactiveChain = o :: rest ∧ allocate s w = (takeInactive s' o rest, some o) := by
  unfold allocate
  split
  next o rest hc => exact .inr ⟨s, o, rest, .inl rfl, hc, rfl⟩
  next he =>
    simp only
    split
    next => exact .inl ⟨he, rfl⟩
    next o rest hc => exact .inr ⟨_, o, rest, .inr ⟨he, rfl⟩, hc, rfl⟩

theorem Accounts.extend (ha : Accounts s held) (hh : Held s) (h : Inv s) {w : Workspace}
    (hf : ∀ p, w.objectBlock = some p → Fresh s p) (hk : KeepsTables s w) :
    Accounts (extendInformation s w) held where
  nodup := ha.nodup
  mem x := by
    rw [ha.mem x]
    refine ⟨fun hx => ?_, extend_in_use⟩
    rw [(h.extend_live hf hk (hh x hx)).2.2]
    exact hx

theorem Accounts.take (ha : Accounts s held) (h : Inv s) {rest : List Obj}
    (hc : s.inactiveChain = o :: rest) : Accounts (takeInactive s o rest) (o :: held) := by
  have ho := ((h.mem o).mp (hc ▸ List.mem_cons_self)).2
  have hnew : o ∉ held := fun hx => (ha.mem o).mp hx ho
  refine ⟨List.nodup_cons.mpr ⟨hnew, ha.nodup⟩, fun x => ?_⟩
  change x ∈ o :: held ↔ Function.update s.status o .allocated x ≠ .inactive
  rcases eq_or_ne x o with rfl | hne
  · simp
  · rw [Function.update_of_ne hne, List.mem_cons, ha.mem x]
    exact ⟨fun hx => hx.resolve_left hne, .inr⟩

/-- The status of an object in use changes. -/
theorem Accounts.update (ha : Accounts s held) {st : Status} (ho : s.status o ≠ .inactive)
    (hst : st ≠ .inactive) (hs' : s'.status = Function.update s.status o st) :
    Accounts s' held := by
  refine ⟨ha.nodup, fun x => ?_⟩
  rw [hs', ha.mem x]
  rcases eq_or_ne x o with rfl | hne
  · rw [Function.update_self]
    exact ⟨fun _ => hst, fun _ => ho⟩
  · rw [Function.update_of_ne hne]

theorem free_status (s : Information) (o : Obj) :
    (free s o).status = Function.update s.status o .inactive := by
  simp only [free, shrinkInformation]
  split
  · split <;> rfl
  · rfl

theorem Accounts.free (ha : Accounts s held) : Accounts (free s o) (held.erase o) := by
  refine ⟨ha.nodup.erase o, fun x => ?_⟩
  rw [free_status, ha.nodup.mem_erase_iff, ha.mem x]
  rcases eq_or_ne x o with rfl | hne
  · simp
  · rw [Function.update_of_ne hne]
    exact ⟨And.right, fun hx => ⟨hne, hx⟩⟩

theorem Accounts.step {op : Op} (ha : Accounts s held) (hh : Held s) (h : Inv s)
    (he : op.Enabled s) (hg : Grows s op) : Accounts (op.run s) (op.hold s held) := by
  cases op with
  | allocate w =>
    change Accounts (Objects.allocate s w).1 ((Op.allocate w).hold s held)
    rcases allocate_eq s w with ⟨hc, e⟩ | ⟨s', o, rest, rfl | ⟨hc, rfl⟩, hc', e⟩
    · simp only [Op.hold, e]
      exact ha.extend hh h he (hg hc)
    · simp only [Op.hold, e]
      exact ha.take h hc'
    · simp only [Op.hold, e]
      exact (ha.extend hh h he (hg hc)).take (h.extend hc he (hg hc)) hc'
  | openObject o =>
    exact ha.update (by rw [he.2]; exact fun e => Status.noConfusion e)
      (fun e => Status.noConfusion e) rfl
  | closeObject o =>
    exact ha.update (by rw [he.2]; exact fun e => Status.noConfusion e)
      (fun e => Status.noConfusion e) rfl
  | free o => exact ha.free

theorem Accounts.run {ops : List Op} (ha : Accounts s held) (hh : Held s) (h : Inv s)
    (hr : Runs Grows s ops s') :
    Accounts s' (outstanding s held ops) ∧ Held s' ∧ Inv s' := by
  induction hr generalizing held with
  | nil => exact ⟨ha, hh, h⟩
  | cons he hg _ ih => exact ih (ha.step hh h he hg) (hh.step h he hg) (h.step he hg)

theorem Accounts.of_start (high size : Nat) (w : Workspace) :
    Accounts (initializeInformation high size w) [] where
  nodup := List.nodup_nil
  mem x := by
    refine ⟨fun hx => absurd hx List.not_mem_nil, fun hx => ?_⟩
    exact absurd rfl (extend_in_use (s := emptyInformation high size) hx)

/-! ## The count in every run -/

theorem holes_eq_zero_iff : holes s = 0 ↔ ∀ b < s.blockCount, s.block b ≠ none := by
  rw [holes, List.countP_eq_zero]
  simp only [List.mem_range, decide_eq_true_eq, ne_eq]

/-- **The active count is exact as long as every block is allocated**, in every run in which no
allocation grows the tables of a single object. -/
theorem activeCount_iff {high allocationSize : Nat} {w : Workspace} {ops : List Op}
    (hsize : 1 ≤ allocationSize)
    (hrun : Runs Grows (initializeInformation high allocationSize w) ops s) :
    activeCount s =
        (outstanding (initializeInformation high allocationSize w) [] ops).length ↔
      ∀ b < s.blockCount, s.block b ≠ none := by
  have h := Inv.of_start high hsize w
  obtain ⟨ha, hh, h'⟩ :=
    (Accounts.of_start high allocationSize w).run (Held.of_start high allocationSize w) h hrun
  rw [ha.activeCount hh h', ← holes_eq_zero_iff]
  constructor
  · intro he
    have hz : holes s * s.allocationSize = 0 := by omega
    exact (Nat.mul_eq_zero.mp hz).resolve_right (Nat.pos_iff_ne_zero.mp h'.size)
  · intro hz
    rw [hz, Nat.zero_mul, Nat.add_zero]

/-- A run of the operations of a list. -/
theorem Runs.of_along {ok : Information → Op → Prop} {ops : List Op}
    (h : Lib.Along Op.run (fun s op => op.Enabled s ∧ ok s op) s ops) :
    Runs ok s ops (ops.foldl Op.run s) := by
  induction ops generalizing s with
  | nil => exact .nil
  | cons op ops ih => exact .cons h.1.1 h.1.2 (ih h.2)

/-- Two blocks of two objects, all allocated and then freed.  The last call releases a block. -/
def shrinkingOps : List Op :=
  [.allocate (clearedWorkspace 1), .allocate (clearedWorkspace 1), .allocate (clearedWorkspace 1),
    .allocate (clearedWorkspace 2), .free ⟨0, 0⟩, .free ⟨1, 0⟩, .free ⟨1, 1⟩, .free ⟨0, 1⟩]

theorem shrinkingOps_along : Lib.Along Op.run (fun s op => op.Enabled s ∧ Grows s op)
    (initializeInformation 0x0a01 2 (clearedWorkspace 0)) shrinkingOps :=
  ⟨⟨enabled_cleared (by decide), fun hc => absurd hc (by decide)⟩,
    ⟨enabled_cleared (by decide), fun hc => absurd hc (by decide)⟩,
    ⟨enabled_cleared (by decide), fun _ _ _ _ => by decide⟩,
    ⟨enabled_cleared (by decide), fun hc => absurd hc (by decide)⟩,
    ⟨⟨⟨0, by decide⟩, by decide_cbv⟩, trivial⟩, ⟨⟨⟨1, by decide⟩, by decide_cbv⟩, trivial⟩,
    ⟨⟨⟨1, by decide⟩, by decide_cbv⟩, trivial⟩, ⟨⟨⟨0, by decide_cbv⟩, by decide_cbv⟩, trivial⟩,
    trivial⟩

/-- Before the first call of `_Objects_Free` nothing was released. -/
theorem activeCount_iff_four :
    let s₀ := initializeInformation 0x0a01 2 (clearedWorkspace 0)
    let s := (shrinkingOps.take 4).foldl Op.run s₀
    activeCount s = 4 ∧ (outstanding s₀ [] (shrinkingOps.take 4)).length = 4 ∧
      (activeCount s = (outstanding s₀ [] (shrinkingOps.take 4)).length ↔
        ∀ b < s.blockCount, s.block b ≠ none) := by
  intro s₀ s
  have hrun : Runs Grows s₀ (shrinkingOps.take 4) s := Runs.of_along (shrinkingOps_along.take 4)
  exact ⟨by decide, by decide, activeCount_iff (by decide) hrun⟩

/-- No object is in use, and the count says two. -/
theorem activeCount_released : ¬ ∀ (high allocationSize : Nat) (w : Workspace) (ops : List Op)
    (s : Information), 1 ≤ allocationSize →
      Runs Grows (initializeInformation high allocationSize w) ops s →
      activeCount s = (outstanding (initializeInformation high allocationSize w) [] ops).length := by
  intro hall
  have hcount : activeCount (shrinkingOps.foldl Op.run
      (initializeInformation 0x0a01 2 (clearedWorkspace 0))) = 2 := by
    decide_cbv
  have hheld : outstanding (initializeInformation 0x0a01 2 (clearedWorkspace 0)) [] shrinkingOps =
      [] := by
    decide_cbv
  have heq := hall _ _ _ _ _ (by decide) (Runs.of_along shrinkingOps_along)
  rw [hcount, hheld] at heq
  cases heq

end Rtems.Objects
