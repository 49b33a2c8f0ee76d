import Rtems.Objects.Model

/-!
# Extending the object tables

`_Objects_Extend_information` keeps the invariant and everything the tables
held, with one exception: the old tables are copied only if
`maximum > minimum_index`, so the tables of a single object are lost.
-/

namespace Rtems.Objects

variable {s : Information} {o : Obj} {b i p : Nat} {w : Workspace}

/-! ## The search loop -/

theorem search_some {q : Nat → Bool} {n block r : Nat} (h : search q n block = some r) :
    block ≤ r ∧ r < block + n ∧ q r = true := by
  induction n generalizing block with
  | zero => cases h
  | succ n ih =>
    simp only [search] at h
    split at h
    next hq =>
      obtain rfl := Option.some.inj h
      exact ⟨Nat.le_refl _, Nat.lt_add_of_pos_right (Nat.succ_pos n), hq⟩
    next =>
      obtain ⟨h1, h2, h3⟩ := ih h
      exact ⟨by omega, by omega, h3⟩

/-! ## Extend -/

theorem growTables_blockCount (h : Inv s) (t : Tables) (base : Nat)
    (hb : s.maximum + s.allocationSize ≤ idFinalIndex) :
    (growTables s t base (s.maximum + s.allocationSize)).blockCount = s.blockCount + 1 := by
  have hm : (s.maximum + s.allocationSize) % 2 ^ 16 = s.maximum + s.allocationSize :=
    Nat.mod_eq_of_lt (by rw [idFinalIndex] at hb; omega)
  change (s.maximum + s.allocationSize) % 2 ^ 16 / s.allocationSize = _
  rw [hm, Nat.add_div_right _ h.size, ← h.blockCount_eq]

/-- The grown tables hold what the old ones held. -/
theorem growTables_block (hc : s.blockCount ≠ 0 → 1 < s.maximum) {t : Tables} {base max : Nat}
    (hb : b < s.blockCount) : (growTables s t base max).block b = s.block b ∧
      (growTables s t base max).inactivePerBlock b = s.inactivePerBlock b := by
  have hcopy : s.maximum > getIndex s.minimumId ∧ b < s.blockCount := by
    rw [getIndex_minimumId]
    exact ⟨hc (Nat.ne_of_gt (Nat.zero_lt_of_lt hb)), hb⟩
  simp only [growTables, Information.block, Option.bind_some]
  rw [if_neg (Nat.ne_of_lt hb), if_pos hcopy, if_neg (Nat.ne_of_lt hb), if_pos hcopy]
  exact ⟨rfl, rfl⟩

theorem growTables_block_last {t : Tables} {base max : Nat} :
    (growTables s t base max).block s.blockCount = none := by
  simp [growTables, Information.block]

theorem growTables_live (h : Inv s) (hc : s.blockCount ≠ 0 → 1 < s.maximum) {t : Tables}
    {base : Nat} (hb : s.maximum + s.allocationSize ≤ idFinalIndex) :
    (growTables s t base (s.maximum + s.allocationSize)).Live o ↔ s.Live o := by
  unfold Information.Live
  rw [growTables_blockCount h t base hb]
  constructor
  · rintro ⟨b, hlt, hp, hi⟩
    rcases Nat.lt_succ_iff_lt_or_eq.mp hlt with hlt | rfl
    · rw [(growTables_block hc hlt).1] at hp
      exact ⟨b, hlt, hp, hi⟩
    · rw [growTables_block_last] at hp
      cases hp
  · rintro ⟨b, hlt, hp, hi⟩
    exact ⟨b, Nat.lt_succ_of_lt hlt, (growTables_block hc hlt).1.trans hp, hi⟩

theorem Inv.localTable_none (h : Inv s) (hi : i ≤ s.maximum) (h0 : s.blockCount = 0) :
    s.localTable i = none := by
  rw [Option.eq_none_iff_forall_ne_some]
  intro o ho
  obtain ⟨⟨b, hlt, _⟩, _⟩ := (h.table i hi o).mp ho
  rw [h0] at hlt
  cases hlt

/-- The local table keeps the entries of the old one and has none besides. -/
theorem growTables_localTable (h : Inv s) (hc : s.blockCount ≠ 0 → 1 < s.maximum) {t : Tables}
    {max : Nat} (hi : i ≤ s.maximum) :
    (growTables s t (1 + s.blockCount * s.allocationSize) max).localTable i =
      s.localTable i := by
  have hmax := h.maximum
  simp only [growTables, getIndex_minimumId]
  rw [if_neg (by omega)]
  split
  next => rfl
  next h1 =>
    -- There was no table, and entry 0 of it is `NULL` as well.
    have h0 : s.blockCount = 0 := by
      by_contra h0
      exact h1 ⟨hc h0, by omega⟩
    rw [h0, Nat.zero_mul] at hmax
    rw [if_pos ⟨by omega, by omega⟩, h.localTable_none hi h0]

theorem Inv.grow (h : Inv s) (hc : s.blockCount ≠ 0 → 1 < s.maximum) (t : Tables)
    (hb : s.maximum + s.allocationSize ≤ idFinalIndex) (he : s.inactiveChain = []) :
    Inv (growTables s t (1 + s.blockCount * s.allocationSize)
      (s.maximum + s.allocationSize)) := by
  have hcount := growTables_blockCount h t (1 + s.blockCount * s.allocationSize) hb
  have hm : (s.maximum + s.allocationSize) % 2 ^ 16 = s.maximum + s.allocationSize :=
    Nat.mod_eq_of_lt (by rw [idFinalIndex] at hb; omega)
  have hmax := h.maximum
  refine
    { size := h.size
      maximum := ?_
      bound := ?_
      ids := fun b hlt p hp i hi => ?_
      nodup := h.nodup
      mem := fun o => ?_
      perBlock := fun b hlt => ?_
      inactive := h.inactive
      table := fun i hi o => ?_ }
  · rw [hcount]
    change (s.maximum + s.allocationSize) % 2 ^ 16 = (s.blockCount + 1) * s.allocationSize
    rw [hm, Nat.succ_mul, hmax]
  · change (s.maximum + s.allocationSize) % 2 ^ 16 ≤ idFinalIndex
    rw [hm]
    exact hb
  · rw [hcount] at hlt
    rcases Nat.lt_succ_iff_lt_or_eq.mp hlt with hlt | rfl
    · rw [(growTables_block hc hlt).1] at hp
      exact h.ids b hlt p hp i hi
    · rw [growTables_block_last] at hp
      cases hp
  · rw [growTables_live h hc hb]
    exact h.mem o
  · have hz : (s.inactiveChain.map s.blockOf).count b = 0 := by simp [he]
    change _ = (s.inactiveChain.map s.blockOf).count b
    rw [hcount] at hlt
    rcases Nat.lt_succ_iff_lt_or_eq.mp hlt with hlt | rfl
    · rw [(growTables_block hc hlt).2]
      exact h.perBlock b hlt
    · rw [hz]
      simp [growTables]
  · rw [growTables_live h hc hb]
    change _ ↔ s.Live o ∧ s.status o = .active ∧ s.index o = i
    have hi' : i ≤ s.maximum + s.allocationSize := hm ▸ hi
    rcases Nat.lt_or_ge s.maximum i with hgt | hle
    · -- A new entry: no object has such an index.
      have hnone : (growTables s t (1 + s.blockCount * s.allocationSize)
          (s.maximum + s.allocationSize)).localTable i = none := by
        simp only [growTables]
        rw [if_pos (by omega)]
      rw [hnone]
      refine ⟨fun hx => (Option.some_ne_none _ hx.symm).elim, fun hx => ?_⟩
      have := (h.index_pos_le hx.1).2
      omega
    · rw [growTables_localTable h hc hle]
      exact h.table i hle o

theorem assignBlock_block (hs : s.objectBlocks ≠ none) (base c : Nat) :
    (assignBlock s b base p).block c = if c = b then some p else s.block c := by
  obtain ⟨f, hf⟩ := Option.ne_none_iff_exists'.mp hs
  simp [assignBlock, Information.block, hf, Function.update_apply]

theorem assignBlock_blockCount (base : Nat) :
    (assignBlock s b base p).blockCount = s.blockCount := by
  unfold Information.blockCount assignBlock
  cases s.objectBlocks <;> rfl

theorem isSome_of_lt (hb : b < s.blockCount) : s.objectBlocks ≠ none := by
  intro h
  rw [Information.blockCount, h] at hb
  cases hb

theorem assignBlock_live (hb : b < s.blockCount) (hn : s.block b = none) (base : Nat) :
    (assignBlock s b base p).Live o ↔
      s.Live o ∨ (o.block = p ∧ o.slot < s.allocationSize) := by
  unfold Information.Live
  rw [assignBlock_blockCount]
  constructor
  · rintro ⟨c, hc, hp, hi⟩
    rw [assignBlock_block (isSome_of_lt hb)] at hp
    split at hp
    next => exact .inr ⟨(Option.some.inj hp).symm, hi⟩
    next => exact .inl ⟨c, hc, hp, hi⟩
  · rintro (⟨c, hc, hp, hi⟩ | ⟨rfl, hi⟩)
    · refine ⟨c, hc, ?_, hi⟩
      rw [assignBlock_block (isSome_of_lt hb), if_neg]
      · exact hp
      · rintro rfl
        rw [hn] at hp
        cases hp
    · exact ⟨b, hb, by rw [assignBlock_block (isSome_of_lt hb), if_pos rfl], hi⟩

/-- The workspace handed out a block that is not in use. -/
def Fresh (s : Information) (p : Nat) : Prop := ∀ b < s.blockCount, s.block b ≠ some p

theorem Fresh.not_live (hf : Fresh s p) (ho : s.Live o) : o.block ≠ p := by
  rintro rfl
  obtain ⟨b, hb, hp, _⟩ := ho
  exact hf b hb hp

theorem assignBlock_ids (base : Nat) (ho : o.block ≠ p) :
    (assignBlock s b base p).ids o = s.ids o := by
  simp [assignBlock, ho]

theorem assignBlock_status (base : Nat) (ho : o.block ≠ p) :
    (assignBlock s b base p).status o = s.status o := by
  simp [assignBlock, ho]

theorem Inv.assign (h : Inv s) (hb : b < s.blockCount) (hn : s.block b = none)
    (hf : Fresh s p) (he : s.inactiveChain = []) :
    Inv (assignBlock s b (1 + b * s.allocationSize) p) := by
  have hcount := assignBlock_blockCount (s := s) (b := b) (p := p) (1 + b * s.allocationSize)
  have hblock := assignBlock_block (b := b) (p := p) (isSome_of_lt hb) (1 + b * s.allocationSize)
  have hsize : s.allocationSize ≤ s.maximum := by
    rw [h.maximum]
    exact Nat.le_mul_of_pos_left _ (Nat.zero_lt_of_lt hb)
  have hbound := h.bound
  rw [idFinalIndex] at hbound
  have hids : ∀ c < s.blockCount, ∀ q, (assignBlock s b (1 + b * s.allocationSize) p).block c =
      some q → ∀ i < s.allocationSize, (assignBlock s b (1 + b * s.allocationSize) p).ids ⟨q, i⟩ =
        buildId s.high (1 + c * s.allocationSize + i) := by
    intro c hc q hq i hi
    rw [hblock] at hq
    split at hq
    next e =>
      obtain rfl := Option.some.inj hq
      rw [e]
      exact if_pos ⟨rfl, hi⟩
    next =>
      have hne : q ≠ p := fun e => hf c hc (e ▸ hq)
      rw [assignBlock_ids _ hne]
      exact h.ids c hc q hq i hi
  have hbase : ∀ i < s.allocationSize,
      (assignBlock s b (1 + b * s.allocationSize) p).blockOf ⟨p, i⟩ = b := by
    intro i hi
    have hlt := offset_lt hb hi
    have hmax := h.maximum
    have hidx : (assignBlock s b (1 + b * s.allocationSize) p).index ⟨p, i⟩ =
        1 + b * s.allocationSize + i := by
      rw [Information.index, hids b hb p (by rw [hblock, if_pos rfl]) i hi]
      exact getIndex_buildId (by omega)
    rw [Information.blockOf, hidx, getIndex_minimumId, Nat.add_assoc, Nat.add_sub_cancel_left]
    change (b * s.allocationSize + i) / s.allocationSize = b
    rw [Nat.mul_comm, Nat.mul_add_div h.size, Nat.div_eq_of_lt hi, Nat.add_zero]
  refine
    { size := h.size
      maximum := by rw [hcount]; exact h.maximum
      bound := h.bound
      ids := fun c hc => hids c (hcount ▸ hc)
      nodup := ?_
      mem := fun o => ?_
      perBlock := fun c hc => ?_
      inactive := ?_
      table := fun i hi o => ?_ }
  · simp only [assignBlock, he, List.nil_append]
    refine List.Nodup.map (fun i j hij => ?_) List.nodup_range
    exact (Obj.mk.inj hij).2
  · have hmem : o ∈ (assignBlock s b (1 + b * s.allocationSize) p).inactiveChain ↔
        o.block = p ∧ o.slot < s.allocationSize := by
      simp only [assignBlock, he, List.nil_append, List.mem_map, List.mem_range]
      constructor
      · rintro ⟨i, hi, rfl⟩
        exact ⟨rfl, hi⟩
      · rintro ⟨rfl, hi⟩
        exact ⟨o.slot, hi, rfl⟩
    rw [hmem, assignBlock_live hb hn]
    constructor
    · rintro ⟨rfl, hi⟩
      exact ⟨.inr ⟨rfl, hi⟩, by simp [assignBlock]⟩
    · rintro ⟨ho | ho, hst⟩
      · rw [assignBlock_status _ (hf.not_live ho)] at hst
        have := (h.mem o).mpr ⟨ho, hst⟩
        rw [he] at this
        cases this
      · exact ho
  · rw [hcount] at hc
    have hmap : (assignBlock s b (1 + b * s.allocationSize) p).inactiveChain.map
        (assignBlock s b (1 + b * s.allocationSize) p).blockOf =
        List.replicate s.allocationSize b := by
      rw [List.eq_replicate_iff]
      refine ⟨by simp [assignBlock, he], fun c hc => ?_⟩
      obtain ⟨o, ho, rfl⟩ := List.mem_map.mp hc
      simp only [assignBlock, he, List.nil_append, List.mem_map, List.mem_range] at ho
      obtain ⟨i, hi, rfl⟩ := ho
      exact hbase i hi
    rw [hmap]
    simp only [assignBlock]
    rcases eq_or_ne c b with rfl | hne
    · rw [Function.update_self, List.count_replicate_self]
    · rw [Function.update_of_ne hne, h.perBlock c hc, he, List.count_replicate]
      simp [Ne.symm hne]
  · have h0 := h.inactive
    rw [he] at h0
    simp only [assignBlock, he, List.nil_append, List.length_map, List.length_range, h0,
      List.length_nil, Nat.zero_add]
    exact Nat.mod_eq_of_lt (by omega)
  · change s.localTable i = some o ↔ _
    rw [h.table i hi o, assignBlock_live hb hn]
    by_cases hop : o.block = p
    · constructor
      · rintro ⟨ho, _⟩
        exact absurd hop (hf.not_live ho)
      · rintro ⟨_, hst, _⟩
        simp [assignBlock, hop] at hst
    · rw [Information.index, Information.index, assignBlock_ids _ hop, assignBlock_status _ hop]
      simp [hop]

/-! ## The extension as a whole -/

/-- The branches of an extension. -/
theorem extendInformation_cases (s : Information) (w : Workspace) :
    extendInformation s w = s ∨
    (∃ b p, b < s.blockCount ∧ s.block b = none ∧ w.objectBlock = some p ∧
      extendInformation s w = assignBlock s b (1 + b * s.allocationSize) p) ∨
    (∃ t p, s.maximum + s.allocationSize ≤ idFinalIndex ∧ w.objectBlock = some p ∧
      w.tables = some t ∧ extendInformation s w =
        assignBlock (growTables s t (1 + s.blockCount * s.allocationSize)
          (s.maximum + s.allocationSize)) s.blockCount (1 + s.blockCount * s.allocationSize) p) := by
  simp only [extendInformation, getIndex_minimumId]
  split
  next => exact .inl rfl
  next hle =>
    split
    next => exact .inl rfl
    next p b hw hs =>
      obtain ⟨_, hb, hn⟩ := search_some hs
      rw [hs]
      exact .inr (.inl ⟨b, p, by omega, of_decide_eq_true hn, hw, rfl⟩)
    next => exact .inl rfl
    next p t hw hs ht =>
      rw [hs]
      exact .inr (.inr ⟨t, p, by omega, hw, ht, rfl⟩)

theorem Fresh.grow (hf : Fresh s p) (h : Inv s) (hc : s.blockCount ≠ 0 → 1 < s.maximum)
    (t : Tables) (base : Nat) (hb : s.maximum + s.allocationSize ≤ idFinalIndex) :
    Fresh (growTables s t base (s.maximum + s.allocationSize)) p := by
  intro b hlt
  rw [growTables_blockCount h t base hb] at hlt
  rcases Nat.lt_succ_iff_lt_or_eq.mp hlt with hlt | rfl
  · rw [(growTables_block hc hlt).1]
    exact hf b hlt
  · rw [growTables_block_last]
    exact (Option.some_ne_none p).symm

/-- The extension does not have to grow tables that hold a single object. -/
def KeepsTables (s : Information) (w : Workspace) : Prop :=
  s.blockCount ≠ 0 → w.objectBlock ≠ none → w.tables ≠ none → 1 < s.maximum

theorem KeepsTables.copied {t : Tables} (hk : KeepsTables s w) (hp : w.objectBlock = some p)
    (ht : w.tables = some t) (hn : s.blockCount ≠ 0) : 1 < s.maximum :=
  hk hn (hp ▸ Option.some_ne_none p) (ht ▸ Option.some_ne_none t)

theorem Inv.extend (h : Inv s) (he : s.inactiveChain = [])
    (hf : ∀ p, w.objectBlock = some p → Fresh s p) (hk : KeepsTables s w) :
    Inv (extendInformation s w) := by
  rcases extendInformation_cases s w with e | ⟨b, p, hb, hn, hp, e⟩ | ⟨t, p, hle, hp, ht, e⟩
  · rw [e]
    exact h
  · rw [e]
    exact h.assign hb hn (hf p hp) he
  · rw [e]
    have hc := hk.copied hp ht
    refine (h.grow hc t hle he).assign ?_ growTables_block_last ((hf p hp).grow h hc t _ hle) he
    rw [growTables_blockCount h t _ hle]
    exact Nat.lt_succ_self _

/-- `s'` has all that the tables of `s` had. -/
structure Extends (s s' : Information) : Prop where
  blockCount : s.blockCount ≤ s'.blockCount
  localTable : ∀ i ≤ s.maximum, s'.localTable i = s.localTable i
  block : ∀ b < s.blockCount, s.block b ≠ none → s'.block b = s.block b
  perBlock : ∀ b < s.blockCount, s.block b ≠ none → s'.inactivePerBlock b = s.inactivePerBlock b

theorem Extends.assign (hb : b < s.blockCount) (hn : s.block b = none) (base : Nat) :
    Extends s (assignBlock s b base p) := by
  have hne : ∀ c, s.block c ≠ none → c ≠ b := by
    rintro c hc rfl
    exact hc hn
  refine ⟨(assignBlock_blockCount base).ge, fun _ _ => rfl, fun c _ hc => ?_, fun c _ hc => ?_⟩
  · rw [assignBlock_block (isSome_of_lt hb), if_neg (hne c hc)]
  · exact Function.update_of_ne (hne c hc) _ _

theorem Extends.grow (h : Inv s) (hc : s.blockCount ≠ 0 → 1 < s.maximum) (t : Tables)
    (hle : s.maximum + s.allocationSize ≤ idFinalIndex) :
    Extends s (growTables s t (1 + s.blockCount * s.allocationSize)
      (s.maximum + s.allocationSize)) where
  blockCount := by
    rw [growTables_blockCount h t _ hle]
    exact Nat.le_succ _
  localTable i hi := growTables_localTable h hc hi
  block b hb _ := (growTables_block hc hb).1
  perBlock b hb _ := (growTables_block hc hb).2

theorem Extends.trans {s₁ s₂ s₃ : Information} (hm : s₁.maximum ≤ s₂.maximum)
    (h₁ : Extends s₁ s₂) (h₂ : Extends s₂ s₃) : Extends s₁ s₃ where
  blockCount := h₁.blockCount.trans h₂.blockCount
  localTable i hi := (h₂.localTable i (hi.trans hm)).trans (h₁.localTable i hi)
  block b hb hn :=
    (h₂.block b (hb.trans_le h₁.blockCount) (h₁.block b hb hn ▸ hn)).trans (h₁.block b hb hn)
  perBlock b hb hn :=
    (h₂.perBlock b (hb.trans_le h₁.blockCount) (h₁.block b hb hn ▸ hn)).trans
      (h₁.perBlock b hb hn)

/-- **Extending keeps what the tables held.** -/
theorem Inv.extend_keeps (h : Inv s) (hk : KeepsTables s w) : Extends s (extendInformation s w) := by
  rcases extendInformation_cases s w with e | ⟨b, p, hb, hn, hp, e⟩ | ⟨t, p, hle, hp, ht, e⟩
  · rw [e]
    exact ⟨Nat.le_refl _, fun _ _ => rfl, fun _ _ _ => rfl, fun _ _ _ => rfl⟩
  · rw [e]
    exact .assign hb hn _
  · rw [e]
    have hc := hk.copied hp ht
    refine .trans ?_ (.grow h hc t hle) (.assign ?_ growTables_block_last _)
    · change s.maximum ≤ (s.maximum + s.allocationSize) % 2 ^ 16
      rw [Nat.mod_eq_of_lt (by rw [idFinalIndex] at hle; omega)]
      exact Nat.le_add_right _ _
    · rw [growTables_blockCount h t _ hle]
      exact Nat.lt_succ_self _

/-- The objects that were there stay, with their ids and what became of them. -/
theorem Inv.extend_live (h : Inv s) (hf : ∀ p, w.objectBlock = some p → Fresh s p)
    (hk : KeepsTables s w) (ho : s.Live o) : (extendInformation s w).Live o ∧
      (extendInformation s w).ids o = s.ids o ∧ (extendInformation s w).status o = s.status o := by
  rcases extendInformation_cases s w with e | ⟨b, p, hb, hn, hp, e⟩ | ⟨t, p, hle, hp, ht, e⟩
  · rw [e]
    exact ⟨ho, rfl, rfl⟩
  · rw [e, assignBlock_live hb hn, assignBlock_ids _ ((hf p hp).not_live ho),
      assignBlock_status _ ((hf p hp).not_live ho)]
    exact ⟨.inl ho, rfl, rfl⟩
  · rw [e]
    have hc := hk.copied hp ht
    have hlt : s.blockCount < (growTables s t (1 + s.blockCount * s.allocationSize)
        (s.maximum + s.allocationSize)).blockCount := by
      rw [growTables_blockCount h t _ hle]
      exact Nat.lt_succ_self _
    rw [assignBlock_live hlt growTables_block_last, growTables_live h hc hle,
      assignBlock_ids _ ((hf p hp).not_live ho), assignBlock_status _ ((hf p hp).not_live ho)]
    exact ⟨.inl ho, rfl, rfl⟩

theorem Inv.empty (high : Nat) {size : Nat} (hs : 0 < size) : Inv (emptyInformation high size) where
  size := hs
  maximum := (Nat.zero_mul size).symm
  bound := Nat.zero_le _
  ids b hb := absurd hb (Nat.not_lt_zero b)
  nodup := List.nodup_nil
  mem o := by
    refine ⟨fun ho => absurd ho List.not_mem_nil, ?_⟩
    rintro ⟨⟨b, hb, _⟩, _⟩
    exact absurd hb (Nat.not_lt_zero b)
  perBlock b hb := absurd hb (Nat.not_lt_zero b)
  inactive := rfl
  table i _ o := by
    refine ⟨fun ho => absurd ho.symm (Option.some_ne_none o), ?_⟩
    rintro ⟨⟨b, hb, _⟩, _⟩
    exact absurd hb (Nat.not_lt_zero b)

theorem Inv.of_start (high : Nat) {size : Nat} (hs : 0 < size) (w : Workspace) :
    Inv (initializeInformation high size w) := by
  refine (Inv.empty high hs).extend rfl (fun p _ b hb => absurd hb (Nat.not_lt_zero b)) ?_
  intro hn
  exact absurd rfl hn

end Rtems.Objects
