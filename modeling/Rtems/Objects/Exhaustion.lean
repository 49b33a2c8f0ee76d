import Rtems.Objects.AutoShrink

/-!
# When an extension fails

An extension needs memory and a range of indices that no object has.  Such a
range is a block that was released, or it lies above `maximum`.  The code tests
for room above `maximum` before it looks at what was released, so it fails
although a released block could be filled again.
-/

namespace Rtems.Objects

variable {s s' : Information} {o : Obj} {b p : Nat} {w : Workspace}

/-! ## What an extension should do -/

/-- The workspace grants what an extension asks for: a block of objects, and new tables if no block
was released. -/
def Granted (s : Information) (w : Workspace) : Prop :=
  w.objectBlock ≠ none ∧ ((∀ b < s.blockCount, s.block b ≠ none) → w.tables ≠ none)

/-- No object has an index in some range of the size of a block. -/
def UnusedRange (s : Information) : Prop :=
  ∃ base, 1 ≤ base ∧ base + s.allocationSize ≤ idFinalIndex + 1 ∧
    ∀ o, s.Live o → ¬ (base ≤ s.index o ∧ s.index o < base + s.allocationSize)

/-- The objects of a new block are available. -/
structure Gains (s s' : Information) (p : Nat) : Prop where
  chain : s'.inactiveChain =
    s.inactiveChain ++ (List.range s.allocationSize).map fun i => (⟨p, i⟩ : Obj)
  inactive : s'.inactive = s.inactive + s.allocationSize
  live : ∀ i < s.allocationSize, s'.Live ⟨p, i⟩ ∧ s'.status ⟨p, i⟩ = .inactive

/-- An extension makes new objects available if it has the memory and the indices, and when it
makes none available it changes nothing. -/
structure ExtendsRightly (s : Information) (w : Workspace) : Prop where
  extended : Granted s w → UnusedRange s → ∃ p, Gains s (extendInformation s w) p
  failed : (¬ ∃ p, Gains s (extendInformation s w) p) → extendInformation s w = s

/-- A block was released, and there is no room for another block above `maximum`. -/
def AtLimit (s : Information) : Prop :=
  (∃ b < s.blockCount, s.block b = none) ∧ idFinalIndex < s.maximum + s.allocationSize

/-! ## Ranges of indices -/

/-- Every index up to `maximum` belongs to an object if all blocks are allocated. -/
theorem Inv.exists_index (h : Inv s) (hall : ∀ b < s.blockCount, s.block b ≠ none) {i : Nat}
    (hpos : 1 ≤ i) (hi : i ≤ s.maximum) : ∃ o, s.Live o ∧ s.index o = i := by
  have hsize := h.size
  have hb : (i - 1) / s.allocationSize < s.blockCount := by
    rw [Nat.div_lt_iff_lt_mul hsize, ← h.maximum]
    omega
  obtain ⟨p, hp⟩ := Option.ne_none_iff_exists'.mp (hall _ hb)
  have hslot := Nat.mod_lt (i - 1) hsize
  refine ⟨⟨p, (i - 1) % s.allocationSize⟩, ⟨_, hb, hp, hslot⟩, ?_⟩
  rw [h.index_eq (o := ⟨p, (i - 1) % s.allocationSize⟩) hb hp hslot]
  have hdiv := Nat.div_add_mod (i - 1) s.allocationSize
  rw [Nat.mul_comm] at hdiv
  simp only
  omega

theorem Inv.unusedRange_iff (h : Inv s) : UnusedRange s ↔
    (∃ b < s.blockCount, s.block b = none) ∨ s.maximum + s.allocationSize ≤ idFinalIndex := by
  have hsize := h.size
  constructor
  · rintro ⟨base, hpos, hend, hfree⟩
    by_contra hno
    obtain ⟨hholes, hroom⟩ := not_or.mp hno
    have hall : ∀ b < s.blockCount, s.block b ≠ none := fun b hb hn => hholes ⟨b, hb, hn⟩
    -- The range starts below `maximum`, and the index there belongs to an object.
    obtain ⟨o, ho, hidx⟩ := h.exists_index hall hpos (by omega)
    exact hfree o ho ⟨by omega, by omega⟩
  · rintro (⟨b, hb, hn⟩ | hroom)
    · have hlt := offset_lt hb (Nat.sub_lt hsize Nat.one_pos)
      have hmax := h.maximum
      have hbound := h.bound
      refine ⟨1 + b * s.allocationSize, by omega, by omega, fun o ho hrange => ?_⟩
      have hbo := (h.index_range ho).mp hrange
      obtain ⟨_, hp, _⟩ := h.live_iff.mp ho
      rw [hbo, hn] at hp
      cases hp
    · refine ⟨s.maximum + 1, by omega, by omega, fun o ho hrange => ?_⟩
      have := (h.index_pos_le ho).2
      omega

/-! ## What an extension does -/

/-- The chain is as long as the objects of the allocated blocks allow. -/
theorem Inv.chain_le (h : Inv s) :
    s.inactiveChain.length + holes s * s.allocationSize ≤ s.maximum := by
  have hsub : s.inactiveChain ⊆ liveObjects s := fun o ho => mem_liveObjects.mpr ((h.mem o).mp ho).1
  have hle := (List.subperm_of_subset h.nodup hsub).length_le
  have hlen := h.length_liveObjects
  omega

theorem gains_assign (base p : Nat) (hb : b < s.blockCount) (hn : s.block b = none)
    (hfits : s.inactive + s.allocationSize < 2 ^ 16) : Gains s (assignBlock s b base p) p where
  chain := rfl
  inactive := Nat.mod_eq_of_lt hfits
  live i hi := by
    refine ⟨(assignBlock_live hb hn base).mpr (.inr ⟨rfl, hi⟩), ?_⟩
    simp [assignBlock]

/-- Fill a block that was released. -/
theorem Inv.gains_hole (h : Inv s) {base : Nat} (hb : b < s.blockCount) (hn : s.block b = none) :
    Gains s (assignBlock s b base p) p := by
  have hhole : 1 ≤ holes s :=
    List.countP_pos_iff.mpr ⟨b, List.mem_range.mpr hb, decide_eq_true hn⟩
  have hle := h.chain_le
  have hmul := Nat.mul_le_mul_right s.allocationSize hhole
  have hbound := h.bound
  rw [idFinalIndex] at hbound
  have hinactive := h.inactive
  exact gains_assign _ _ hb hn (by omega)

/-- Grow the tables by a block. -/
theorem Inv.gains_grow (h : Inv s) (t : Tables) {base : Nat}
    (hle : s.maximum + s.allocationSize ≤ idFinalIndex) :
    Gains s (assignBlock (growTables s t base (s.maximum + s.allocationSize)) s.blockCount base p)
      p := by
  have hchain := h.chain_le
  have hinactive := h.inactive
  have hb : s.blockCount < (growTables s t base (s.maximum + s.allocationSize)).blockCount := by
    rw [growTables_blockCount h t base hle]
    exact Nat.lt_succ_self _
  have hfits : s.inactive + s.allocationSize < 2 ^ 16 := by
    rw [idFinalIndex] at hle
    omega
  have hgains := gains_assign base p hb growTables_block_last hfits
  exact ⟨hgains.chain, hgains.inactive, hgains.live⟩

theorem not_gains_self (h : Inv s) : ¬ ∃ p, Gains s s p := by
  rintro ⟨p, hg⟩
  have := hg.inactive
  have := h.size
  omega

/-- Without room above `maximum` nothing happens. -/
theorem extendInformation_full (hfull : idFinalIndex < s.maximum + s.allocationSize) :
    extendInformation s w = s :=
  if_pos hfull

/-- With room above `maximum` an extension fails only for a lack of memory. -/
theorem Inv.extend_room (h : Inv s) (hroom : s.maximum + s.allocationSize ≤ idFinalIndex) :
    (∃ p, Gains s (extendInformation s w) p) ∨ (¬ Granted s w ∧ extendInformation s w = s) := by
  have hstep : extendInformation s w = _ := if_neg (Nat.not_lt.mpr hroom)
  rw [hstep]
  cases hp : w.objectBlock with
  | none => exact .inr ⟨fun hg => hg.1 hp, rfl⟩
  | some p =>
    cases hs : search (fun b => s.block b = none) s.blockCount 0 with
    | some b =>
      obtain ⟨_, hb, hn⟩ := search_some hs
      have hlt : b < s.blockCount := by omega
      exact .inl ⟨p, h.gains_hole hlt (of_decide_eq_true hn)⟩
    | none =>
      have hall : ∀ b < s.blockCount, s.block b ≠ none := fun b hb =>
        of_decide_eq_false (search_none hs b (Nat.zero_le b) (by omega))
      cases ht : w.tables with
      | none => exact .inr ⟨fun hg => hg.2 hall ht, rfl⟩
      | some t => exact .inl ⟨p, h.gains_grow t hroom⟩

theorem extendsRightly_iff (h : Inv s) :
    ExtendsRightly s w ↔ ¬ (w.objectBlock ≠ none ∧ AtLimit s) := by
  rcases Nat.lt_or_ge idFinalIndex (s.maximum + s.allocationSize) with hfull | hroom
  · have hkept : extendInformation s w = s := extendInformation_full hfull
    constructor
    · rintro hright ⟨hp, hhole, _⟩
      have hgranted : Granted s w := ⟨hp, fun hall => by
        obtain ⟨b, hb, hn⟩ := hhole
        exact absurd hn (hall b hb)⟩
      have hgains := hright.extended hgranted (h.unusedRange_iff.mpr (.inl hhole))
      rw [hkept] at hgains
      exact not_gains_self h hgains
    · intro hno
      refine ⟨fun hgranted hunused => absurd ⟨hgranted.1, ?_, hfull⟩ hno, fun _ => hkept⟩
      exact (h.unusedRange_iff.mp hunused).resolve_right (Nat.not_le.mpr hfull)
  · constructor
    · rintro _ ⟨_, _, hfull⟩
      omega
    · intro _
      rcases h.extend_room (w := w) hroom with hgains | ⟨hrefused, hkept⟩
      · exact ⟨fun _ _ => hgains, fun hno => absurd hgains hno⟩
      · exact ⟨fun hgranted _ => absurd hgranted hrefused, fun _ => hkept⟩

/-- **An extension fails for a lack of resources only, except at the limit of the indices**, in
every run in which no allocation grows the tables of a single object. -/
theorem extension_iff {high allocationSize : Nat} {w₀ : Workspace} {ops : List Op}
    (hsize : 1 ≤ allocationSize)
    (hrun : Runs Grows (initializeInformation high allocationSize w₀) ops s) (w : Workspace) :
    ExtendsRightly s w ↔ ¬ (w.objectBlock ≠ none ∧ AtLimit s) :=
  extendsRightly_iff ((Inv.of_start high hsize w₀).run hrun)

/-- Two blocks of two objects, of which one was released: the next extension fills it again. -/
theorem extension_iff_four :
    let s := shrinkingOps.foldl Op.run (initializeInformation 0x0a01 2 (clearedWorkspace 0))
    (ExtendsRightly s (clearedWorkspace 5) ↔
      ¬ ((clearedWorkspace 5).objectBlock ≠ none ∧ AtLimit s)) ∧
      (extendInformation s (clearedWorkspace 5)).block 0 = some 5 := by
  intro s
  refine ⟨extension_iff (by decide) (Runs.of_along shrinkingOps_along) _, ?_⟩
  change (extendInformation (shrinkingOps.foldl Op.run
    (initializeInformation 0x0a01 2 (clearedWorkspace 0))) (clearedWorkspace 5)).block 0 = some 5
  decide_cbv

/-! ## A class at the limit -/

theorem Runs.append {ok : Information → Op → Prop} {s₁ s₂ s₃ : Information} {ops ops' : List Op}
    (h : Runs ok s₁ ops s₂) (h' : Runs ok s₂ ops' s₃) : Runs ok s₁ (ops ++ ops') s₃ := by
  induction h with
  | nil => exact h'
  | cons he hg _ ih => exact .cons he hg (ih h')

/-- The blocks of two states are the same. -/
structure SameBlocks (s s' : Information) : Prop where
  allocationSize : s'.allocationSize = s.allocationSize
  maximum : s'.maximum = s.maximum
  objectBlocks : s'.objectBlocks = s.objectBlocks

theorem SameBlocks.block (h : SameBlocks s s') (b : Nat) : s'.block b = s.block b := by
  rw [Information.block, h.objectBlocks, Information.block]

theorem SameBlocks.blockCount (h : SameBlocks s s') : s'.blockCount = s.blockCount := by
  rw [Information.blockCount, h.objectBlocks, h.maximum, h.allocationSize, Information.blockCount]

theorem SameBlocks.live (h : SameBlocks s s') : s'.Live o ↔ s.Live o := by
  simp only [Information.Live, h.blockCount, h.block, h.allocationSize]

/-- A workspace without memory. -/
def noMemory : Workspace := ⟨none, none⟩

/-- Allocate the first objects of the chain. -/
theorem Inv.allocate_all (h : Inv s) {xs rest : List Obj} (hc : s.inactiveChain = xs ++ rest) :
    ∃ s', Runs Grows s (xs.map fun _ => .allocate noMemory) s' ∧ SameBlocks s s' ∧
      s'.inactiveChain = rest ∧ (∀ o ∈ xs, s'.status o = .allocated) ∧
      ∀ o ∉ xs, s'.status o = s.status o := by
  induction xs generalizing s with
  | nil => exact ⟨s, .nil, ⟨rfl, rfl, rfl⟩, hc, fun o ho => absurd ho List.not_mem_nil, fun _ _ => rfl⟩
  | cons x xs ih =>
    have htake : Inv (takeInactive s x (xs ++ rest)) := h.take hc
    have hstep : Op.run s (.allocate noMemory) = takeInactive s x (xs ++ rest) := by
      change (allocate s noMemory).1 = _
      unfold allocate
      rw [hc]
      rfl
    have henabled : (Op.allocate noMemory).Enabled s := by
      rintro p ⟨⟩
    have hgrows : Grows s (.allocate noMemory) := by
      intro hnil
      rw [hc] at hnil
      cases hnil
    obtain ⟨s', hrun, hsame, hrest, hin, hout⟩ := ih htake rfl
    rw [← hstep] at hrun
    refine ⟨s', .cons henabled hgrows hrun, ⟨hsame.allocationSize, hsame.maximum,
      hsame.objectBlocks⟩, hrest, fun o ho => ?_, fun o ho => ?_⟩
    · by_cases hmem : o ∈ xs
      · exact hin o hmem
      · obtain rfl := (List.mem_cons.mp ho).resolve_right hmem
        rw [hout o hmem]
        exact Function.update_self ..
    · obtain ⟨hne, hmem⟩ := not_or.mp (List.mem_cons.not.mp ho)
      rw [hout o hmem]
      exact Function.update_of_ne hne _ _

/-- Free objects while an object of each block before the last one stays in use. -/
theorem Inv.free_all (h : Inv s) {xs : List Obj} (hnd : xs.Nodup)
    (hxs : ∀ x ∈ xs, s.Live x ∧ s.status x = .allocated)
    (huse : ∀ b, b + 1 < s.blockCount → ∃ y ∉ xs, s.Live y ∧ s.blockOf y = b ∧
      s.status y ≠ .inactive) :
    ∃ s', Runs Grows s (xs.map .free) s' ∧ SameBlocks s s' ∧
      s'.inactiveChain = s.inactiveChain ++ xs ∧ ∀ o ∉ xs, s'.status o = s.status o := by
  induction xs generalizing s with
  | nil => exact ⟨s, .nil, ⟨rfl, rfl, rfl⟩, (List.append_nil _).symm, fun _ _ => rfl⟩
  | cons x xs ih =>
    obtain ⟨hx, hnd⟩ := List.nodup_cons.mp hnd
    obtain ⟨hlive, hst⟩ := hxs x List.mem_cons_self
    have hput := h.putInactive hlive hst
    have hother : ∀ y, y ≠ x → (Objects.putInactive s x).status y = s.status y := fun y hne =>
      Function.update_of_ne hne _ _
    have hstep : Op.run s (.free x) = Objects.putInactive s x := by
      change Objects.free s x = _
      simp only [Objects.free]
      split
      next =>
        rcases hput.shrink_spec with ⟨b, hb, hfull, _⟩ | ⟨_, hkept, _⟩
        · obtain ⟨y, hy, hly, hby, hsy⟩ := huse b hb
          have hyx : y ≠ x := fun e => hy (e ▸ List.mem_cons_self)
          exact absurd (hfull.inactive y hly hby) (by rw [hother y hyx]; exact hsy)
        · exact hkept
      next => rfl
    obtain ⟨s', hrun, hsame, hchain, hout⟩ := ih hput hnd
      (fun y hy => by
        have hyx : y ≠ x := fun e => hx (e ▸ hy)
        rw [hother y hyx]
        exact hxs y (List.mem_cons_of_mem _ hy))
      (fun b hb => by
        obtain ⟨y, hy, hly, hby, hsy⟩ := huse b hb
        have hyx : y ≠ x := fun e => hy (e ▸ List.mem_cons_self)
        refine ⟨y, fun hmem => hy (List.mem_cons_of_mem _ hmem), hly, hby, ?_⟩
        rw [hother y hyx]
        exact hsy)
    rw [← hstep] at hrun
    refine ⟨s', .cons ⟨hlive, hst⟩ trivial hrun, ⟨hsame.allocationSize, hsame.maximum,
      hsame.objectBlocks⟩, ?_, fun o ho => ?_⟩
    · rw [hchain]
      change (s.inactiveChain ++ [x]) ++ xs = _
      rw [List.append_assoc]
      rfl
    · obtain ⟨hne, hmem⟩ := not_or.mp (List.mem_cons.not.mp ho)
      exact (hout o hmem).trans (hother o hne)

/-- An extension of a class whose blocks are all allocated, in a workspace with memory. -/
theorem Inv.extend_grows (h : Inv s) (w : Workspace) (hroom : s.maximum + s.allocationSize ≤ idFinalIndex)
    (hall : ∀ b < s.blockCount, s.block b ≠ none) (hcopy : s.blockCount ≠ 0 → 1 < s.maximum)
    {t : Tables} (hp : w.objectBlock = some p) (ht : w.tables = some t) :
    (extendInformation s w).blockCount = s.blockCount + 1 ∧
      (extendInformation s w).maximum = s.maximum + s.allocationSize ∧
      (extendInformation s w).allocationSize = s.allocationSize ∧
      (∀ b < s.blockCount, (extendInformation s w).block b = s.block b) ∧
      (extendInformation s w).block s.blockCount = some p ∧
      (extendInformation s w).inactiveChain =
        s.inactiveChain ++ (List.range s.allocationSize).map fun i => (⟨p, i⟩ : Obj) := by
  have hgranted : Granted s w := by
    refine ⟨?_, fun _ => ?_⟩
    · rw [hp]
      exact Option.some_ne_none p
    · rw [ht]
      exact Option.some_ne_none t
  rcases extendInformation_cases s w with e | ⟨b, _, hb, hn, _⟩ | ⟨t', p', hle, hp', ht', e⟩
  · rcases h.extend_room (w := w) hroom with hgains | ⟨hrefused, _⟩
    · rw [e] at hgains
      exact absurd hgains (not_gains_self h)
    · exact absurd hgranted hrefused
  · exact absurd hn (hall b hb)
  · obtain rfl := Option.some.inj (hp.symm.trans hp')
    have hcount := growTables_blockCount h t' (1 + s.blockCount * s.allocationSize) hle
    have hlt : s.blockCount < (growTables s t' (1 + s.blockCount * s.allocationSize)
        (s.maximum + s.allocationSize)).blockCount := by
      rw [hcount]
      exact Nat.lt_succ_self _
    have hblock := assignBlock_block (p := p) (b := s.blockCount) (isSome_of_lt hlt)
      (1 + s.blockCount * s.allocationSize)
    rw [e]
    refine ⟨(assignBlock_blockCount _).trans hcount, ?_, rfl, fun b hb => ?_, ?_, rfl⟩
    · exact Nat.mod_eq_of_lt (by rw [idFinalIndex] at hle; omega)
    · rw [hblock, if_neg (Nat.ne_of_lt hb)]
      exact (growTables_block hcopy hb).1
    · rw [hblock, if_pos rfl]

/-- Two blocks, and all objects of the first one are allocated. -/
structure FirstInUse (s : Information) (a inactive : Nat) : Prop where
  blockCount : s.blockCount = 2
  maximum : s.maximum = 2 * a
  allocationSize : s.allocationSize = a
  block : s.block 0 = some 0
  allocated : ∀ i < a, s.status ⟨0, i⟩ = .allocated
  inactive : s.inactiveChain.length = inactive

theorem FirstInUse.live {a n : Nat} (hf : FirstInUse s a n) {i : Nat} (hi : i < a) :
    s.Live ⟨0, i⟩ :=
  ⟨0, by rw [hf.blockCount]; exact Nat.zero_lt_two, hf.block, hf.allocationSize.symm ▸ hi⟩

/-- The first block is allocated, and one object more. -/
theorem exists_firstInUse (high : Nat) {a : Nat} (ha : 2 ≤ a) (hfit : 2 * a ≤ idFinalIndex) : ∃ ops s,
    Runs Grows (initializeInformation high a (clearedWorkspace 0)) ops s ∧
      FirstInUse s a (a - 1) := by
  have hpos : 0 < a := by omega
  have h₀ := Inv.of_start high hpos (clearedWorkspace 0)
  have hroom₀ : (emptyInformation high a).maximum + a ≤ idFinalIndex := by
    change 0 + a ≤ idFinalIndex
    omega
  obtain ⟨hcount₀, hmax₀, hsize₀, -, hblock₀, hchain₀⟩ :=
    (Inv.empty high hpos).extend_grows (clearedWorkspace 0) hroom₀
      (fun b hb => absurd hb (Nat.not_lt_zero b)) (fun hne => absurd rfl hne) rfl rfl
  change (initializeInformation high a (clearedWorkspace 0)).blockCount = 1 at hcount₀
  change (initializeInformation high a (clearedWorkspace 0)).maximum = 0 + a at hmax₀
  change (initializeInformation high a (clearedWorkspace 0)).allocationSize = a at hsize₀
  change (initializeInformation high a (clearedWorkspace 0)).block 0 = some 0 at hblock₀
  change (initializeInformation high a (clearedWorkspace 0)).inactiveChain =
    [] ++ (List.range a).map fun i => (⟨0, i⟩ : Obj) at hchain₀
  generalize initializeInformation high a (clearedWorkspace 0) = s₀ at *
  rw [Nat.zero_add] at hmax₀
  rw [List.nil_append] at hchain₀
  -- All objects of the first block are allocated.
  obtain ⟨s₁, hrun₁, hsame, hchain₁, hin, -⟩ :=
    h₀.allocate_all (hchain₀.trans (List.append_nil _).symm)
  have h₁ := h₀.run hrun₁
  have hcount₁ : s₁.blockCount = 1 := hsame.blockCount.trans hcount₀
  have hblock₁ : s₁.block 0 = some 0 := (hsame.block 0).trans hblock₀
  have hsize₁ : s₁.allocationSize = a := hsame.allocationSize.trans hsize₀
  have hmax₁ : s₁.maximum = a := hsame.maximum.trans hmax₀
  have honly : ∀ b < s₁.blockCount, s₁.block b = some 0 := by
    intro b hb
    obtain rfl : b = 0 := by omega
    exact hblock₁
  -- The next allocation grows the tables.
  have henabled : (Op.allocate (clearedWorkspace 1)).Enabled s₁ :=
    enabled_cleared fun b hb => by rw [honly b hb]; decide
  have hgrows : Grows s₁ (.allocate (clearedWorkspace 1)) := by
    intro _ _ _ _
    omega
  obtain ⟨hcount₂, hmax₂, hsize₂, hkept, -, hchain₂⟩ :=
    h₁.extend_grows (clearedWorkspace 1) (by omega)
      (fun b hb => by rw [honly b hb]; exact Option.some_ne_none 0) (fun _ => by omega) rfl rfl
  have hfresh : ∀ p, (clearedWorkspace 1).objectBlock = some p → Fresh s₁ p := henabled
  have hlive := fun o => h₁.extend_live (o := o) hfresh (hgrows hchain₁)
  have hrange : List.range s₁.allocationSize = 0 :: (List.range (a - 1)).map Nat.succ := by
    rw [hsize₁, ← List.range_succ_eq_map, Nat.sub_add_cancel (by omega)]
  rw [hchain₁, List.nil_append, hrange, List.map_cons] at hchain₂
  have hstep : Op.run s₁ (.allocate (clearedWorkspace 1)) =
      takeInactive (extendInformation s₁ (clearedWorkspace 1)) ⟨1, 0⟩
        (((List.range (a - 1)).map Nat.succ).map fun i => (⟨1, i⟩ : Obj)) := by
    change (allocate s₁ (clearedWorkspace 1)).1 = _
    unfold allocate
    rw [hchain₁]
    simp only [hchain₂]
  refine ⟨_, _, hrun₁.append (.cons henabled hgrows .nil), ?_⟩
  rw [hstep]
  have hin₂ : ∀ i < a, (extendInformation s₁ (clearedWorkspace 1)).status ⟨0, i⟩ = .allocated := by
    intro i hi
    have hl : s₁.Live ⟨0, i⟩ := ⟨0, by omega, hblock₁, by rw [hsize₁]; exact hi⟩
    rw [(hlive _ hl).2.2]
    exact hin _ (List.mem_map.mpr ⟨i, List.mem_range.mpr hi, rfl⟩)
  refine ⟨?_, ?_, ?_, ?_, fun i hi => ?_, by simp [takeInactive]⟩
  · change (extendInformation s₁ (clearedWorkspace 1)).blockCount = 2
    rw [hcount₂, hcount₁]
  · change (extendInformation s₁ (clearedWorkspace 1)).maximum = 2 * a
    omega
  · exact hsize₂.trans hsize₁
  · change (extendInformation s₁ (clearedWorkspace 1)).block 0 = some 0
    rw [hkept 0 (by omega), hblock₁]
  · have hne : (⟨0, i⟩ : Obj) ≠ ⟨1, 0⟩ := fun e => by cases e
    simp only [takeInactive, Function.update_of_ne hne, hin₂ i hi]

/-- All objects of the first block but one are freed. -/
theorem FirstInUse.free {a : Nat} (h : Inv s) (hf : FirstInUse s a (a - 1)) (ha : 0 < a) :
    ∃ ops s', Runs Grows s ops s' ∧ SameBlocks s s' ∧ s'.status ⟨0, 0⟩ = .allocated ∧
      s'.inactiveChain.length = 2 * (a - 1) ∧ ∀ i < a, 0 < i → (⟨0, i⟩ : Obj) ∈ s'.inactiveChain := by
  let xs := (List.range' 1 (a - 1)).map fun i => (⟨0, i⟩ : Obj)
  have hmem : ∀ i, (⟨0, i⟩ : Obj) ∈ xs ↔ 0 < i ∧ i < a := by
    intro i
    simp only [xs, List.mem_map, List.mem_range'_1, Obj.mk.injEq, true_and, exists_eq_right]
    omega
  have hxs : ∀ x ∈ xs, s.Live x ∧ s.status x = .allocated := by
    intro x hx
    obtain ⟨i, hi, rfl⟩ := List.mem_map.mp hx
    have hlt := ((hmem i).mp hx).2
    exact ⟨hf.live hlt, hf.allocated i hlt⟩
  have hfirst : (⟨0, 0⟩ : Obj) ∉ xs := fun hx => Nat.lt_irrefl 0 ((hmem 0).mp hx).1
  have hcount := hf.blockCount
  have huse : ∀ b, b + 1 < s.blockCount → ∃ y ∉ xs, s.Live y ∧ s.blockOf y = b ∧
      s.status y ≠ .inactive := by
    intro b hb
    obtain rfl : b = 0 := by omega
    have hslot : (⟨0, 0⟩ : Obj).slot < s.allocationSize := hf.allocationSize.symm ▸ ha
    refine ⟨⟨0, 0⟩, hfirst, hf.live ha, h.blockOf_eq (by omega) hf.block hslot, ?_⟩
    rw [hf.allocated 0 ha]
    exact fun e => Status.noConfusion e
  have hnd : xs.Nodup :=
    (List.nodup_range' (s := 1)).map fun i j hij => (Obj.mk.inj hij).2
  obtain ⟨s', hrun, hsame, hchain, hout⟩ := h.free_all hnd hxs huse
  refine ⟨_, s', hrun, hsame, (hout _ hfirst).trans (hf.allocated 0 ha), ?_, fun i hi hpos => ?_⟩
  · rw [hchain, List.length_append, hf.inactive]
    simp [xs]
    omega
  · rw [hchain]
    exact List.mem_append_right _ ((hmem i).mpr ⟨hpos, hi⟩)

/-- The last object of the first block releases it. -/
theorem FirstInUse.release {a : Nat} (h : Inv s) (hf : FirstInUse s a (a - 1)) (ha : 3 ≤ a) :
    ∃ ops s', Runs Grows s ops s' ∧ s'.blockCount = 2 ∧ s'.block 0 = none ∧
      s'.maximum = 2 * a ∧ s'.allocationSize = a := by
  obtain ⟨ops, s₁, hrun, hsame, hst, hlen, hin⟩ := hf.free h (by omega)
  have h₁ := h.run hrun
  have hlive : s₁.Live ⟨0, 0⟩ := hsame.live.mpr (hf.live (by omega))
  have hput := h₁.putInactive hlive hst
  have hcount : s₁.blockCount = 2 := hsame.blockCount.trans hf.blockCount
  have hblock : s₁.block 0 = some 0 := (hsame.block 0).trans hf.block
  have hsize : s₁.allocationSize = a := hsame.allocationSize.trans hf.allocationSize
  have hinactive := h₁.inactive
  have hfull : Full (putInactive s₁ ⟨0, 0⟩) 0 := by
    refine ⟨?_, ?_, fun o ho hbo => ?_⟩
    · change 0 < s₁.blockCount
      omega
    · change s₁.block 0 ≠ none
      rw [hblock]
      exact Option.some_ne_none 0
    · obtain ⟨_, hp, hi⟩ := hput.live_iff.mp ho
      rw [hbo] at hp
      obtain ⟨p, i⟩ := o
      obtain rfl : 0 = p := Option.some.inj (hblock.symm.trans hp)
      rcases Nat.eq_zero_or_pos i with rfl | hpos
      · simp only [putInactive, Function.update_self]
      · have hlt : i < s₁.allocationSize := hi
        have hmem : (⟨0, i⟩ : Obj) ∈ (putInactive s₁ ⟨0, 0⟩).inactiveChain :=
          List.mem_append_left _ (hin i (hsize ▸ hlt) hpos)
        exact ((hput.mem _).mp hmem).2
  have hthreshold : (putInactive s₁ ⟨0, 0⟩).inactive >
      (putInactive s₁ ⟨0, 0⟩).allocationSize + (putInactive s₁ ⟨0, 0⟩).allocationSize / 2 := by
    change s₁.allocationSize + s₁.allocationSize / 2 < s₁.inactive + 1
    omega
  have hstep : Op.run s₁ (.free ⟨0, 0⟩) = shrinkInformation (putInactive s₁ ⟨0, 0⟩) :=
    if_pos hthreshold
  have hcount' : (putInactive s₁ ⟨0, 0⟩).blockCount = 2 := hcount
  have hlast : Runs Grows s₁ [.free ⟨0, 0⟩] (Op.run s₁ (.free ⟨0, 0⟩)) :=
    .cons ⟨hlive, hst⟩ trivial .nil
  refine ⟨_, _, hrun.append hlast, ?_⟩
  rw [hstep]
  rcases hput.shrink_spec with ⟨b, hb, _, _, hrelease, _⟩ | ⟨hno, _⟩
  · obtain rfl : b = 0 := by omega
    rw [hrelease]
    refine ⟨release_blockCount.trans hcount', ?_, ?_, ?_⟩
    · rw [release_block, if_pos rfl]
    · exact hsame.maximum.trans hf.maximum
    · exact hsize
  · exact absurd hfull (hno 0 (by omega))

/-- **A class reaches the limit with a block released.** -/
theorem exists_atLimit (high a : Nat) (ha : 3 ≤ a) (hfit : 2 * a ≤ idFinalIndex)
    (hfull : idFinalIndex < 3 * a) : ∃ ops s,
      Runs Grows (initializeInformation high a (clearedWorkspace 0)) ops s ∧ AtLimit s := by
  obtain ⟨ops, s, hrun, hf⟩ := exists_firstInUse high (by omega) hfit
  have hpos : 0 < a := by omega
  have h := (Inv.of_start high hpos (clearedWorkspace 0)).run hrun
  obtain ⟨ops', s', hrun', hcount, hnone, hmax, hsize⟩ := hf.release h ha
  refine ⟨_, s', hrun.append hrun', ⟨0, ?_, hnone⟩, ?_⟩
  · rw [hcount]
    exact Nat.zero_lt_two
  · rw [hmax, hsize]
    omega

/-- A block of 30000 objects was released and could be filled again, but 60000 and 30000 are more
than the indices. -/
theorem extension_limited : ¬ ∀ (high allocationSize : Nat) (w₀ w : Workspace) (ops : List Op)
    (s : Information), 1 ≤ allocationSize →
      Runs Grows (initializeInformation high allocationSize w₀) ops s → ExtendsRightly s w := by
  intro hall
  obtain ⟨ops, s, hrun, hlimit⟩ :=
    exists_atLimit 0x0a01 30000 (by decide) (by decide) (by decide)
  have hright := hall _ _ _ (clearedWorkspace 2) _ _ (by decide) hrun
  exact (extension_iff (by decide) hrun _).mp hright ⟨Option.some_ne_none 2, hlimit⟩

end Rtems.Objects
