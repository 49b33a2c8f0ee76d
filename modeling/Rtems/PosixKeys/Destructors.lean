import Rtems.PosixKeys.Runs

/-!
# The destructors of keys

The model of `_POSIX_Keys_Run_destructors`.  It goes through the key chain of a thread and has saved
the next pair of the chain when it calls a destructor.  The destructor may set values of the thread
and delete keys.  It may take the saved pair off the chain, or put a pair behind the last one.
-/

namespace Rtems.PosixKeys

open Lib Relation

variable {s s' s₁ : Keys} {high fuel key value n p : Nat} {l : List Nat} {t : Thread} {e : Errno}
  {memory : Option Nat} {theKey : Objects.Obj} {information : Objects.Information}

/-! ## The calls of a destructor -/

/-- What a destructor does: `pthread_setspecific` of the thread and `pthread_key_delete`, any number of
times. -/
inductive UserCalls (t : Thread) (s : Keys) : Keys → Prop
  | nil : UserCalls t s s
  | setspecific {s₁ s₂ : Keys} {key value : Nat} {memory : Option Nat} {e : Errno}
      (h : UserCalls t s s₁) (he : (Event.setspecific t key value memory).Enabled s₁)
      (hreturns : Returns (setspecific · s₁ t key value memory) (s₂, e)) : UserCalls t s s₂
  | delete {s₁ s₂ : Keys} {key : Nat} {e : Errno} (h : UserCalls t s s₁)
      (he : (Event.delete key).Enabled s₁) (hreturns : Returns (keyDelete · s₁ key) (s₂, e)) :
      UserCalls t s s₂

/-- The entries of the local table, also those of deleted keys, are controls of the class. -/
structure Keyed (information : Objects.Information) (high : Nat) : Prop where
  high_eq : information.high = high
  high_lt : high < 2 ^ 16
  bound : information.maximum ≤ Objects.idFinalIndex
  ids : ∀ i ≤ information.maximum, ∀ o, information.localTable i = some o →
    InClass high (information.ids o)
  empty : information.maximum = 0 → information.localTable 0 = none

theorem Keyed.inClass (h : Keyed information high) (hkey : key < 2 ^ 32)
    (hget : Objects.get information key ≠ none) : InClass high key :=
  inClass_of_get h.bound h.high_eq h.high_lt hkey hget

theorem Keyed.get (h : Keyed information high) (hget : Objects.get information key = some theKey) :
    InClass high (information.ids theKey) := by
  unfold Objects.get at hget
  dsimp only at hget
  split at hget
  next hle => exact h.ids _ hle theKey hget
  next => cases hget

/-- The pairs are in order, and there is a control for each of them. -/
structure Ready (s : Keys) (high : Nat) (l : List Nat) : Prop where
  pairs : Pairs s high l
  keyed : Keyed s.information high
  known : ∀ n ∈ l, Objects.get s.information (s.pair n).key ≠ none

/-- A control that is freed keeps its identifier and stays in the table. -/
theorem free_tables (s : Keys) (o : Objects.Obj) :
    (free s o).high = s.information.high ∧ (free s o).maximum = s.information.maximum ∧
      (free s o).localTable = s.information.localTable ∧ (free s o).ids = s.information.ids := by
  simp only [free]
  split
  · simp only [Objects.free]
    split
    · obtain ⟨hhigh, hmaximum, htable⟩ := shrink_frame (Objects.putInactive s.information o)
      refine ⟨hhigh, hmaximum, htable, ?_⟩
      simp only [Objects.shrinkInformation]
      split
      · rfl
      · rfl
    · exact ⟨rfl, rfl, rfl, rfl⟩
  · exact ⟨rfl, rfl, rfl, rfl⟩

theorem get_free (s : Keys) (o : Objects.Obj) (key : Nat) :
    Objects.get (free s o) key = Objects.get s.information key := by
  obtain ⟨hhigh, hmaximum, htable, -⟩ := free_tables s o
  have hminimum : (free s o).minimumId = s.information.minimumId :=
    congrArg (Objects.buildId · 1) hhigh
  unfold Objects.get
  rw [hminimum, htable]
  simp only [hmaximum]

theorem Keyed.free (h : Keyed s.information high) (o : Objects.Obj) :
    Keyed (PosixKeys.free s o) high := by
  obtain ⟨hhigh, hmaximum, htable, hids⟩ := free_tables s o
  refine ⟨hhigh.trans h.high_eq, h.high_lt, hmaximum ▸ h.bound, fun i hi x hx => ?_, ?_⟩
  · rw [hmaximum] at hi
    rw [htable] at hx
    rw [hids]
    exact h.ids i hi x hx
  · rw [hmaximum, htable]
    exact h.empty

/-- A pair that is known stays so. -/
theorem Ready.of_mem {l' : List Nat} (h : Ready s high l) (key : Nat) (hpairs : Pairs s' high l')
    (hinformation : s'.information = s.information)
    (hknown : ∀ n ∈ l', (s'.pair n).key = key ∧ Objects.get s.information key ≠ none ∨
      n ∈ l ∧ (s'.pair n).key = (s.pair n).key) : Ready s' high l' := by
  refine ⟨hpairs, hinformation ▸ h.keyed, fun n hn => ?_⟩
  rw [hinformation]
  rcases hknown n hn with ⟨hkey, hget⟩ | ⟨hmem, hkey⟩
  · rw [hkey]
    exact hget
  · rw [hkey]
    exact h.known n hmem

/-- `pthread_setspecific`, also of a key that is deleted. -/
theorem Ready.setspecific (h : Ready s high l)
    (he : (Event.setspecific t key value memory).Enabled s) :
    ∃ s' e l', setspecific l.length s t key value memory = some (s', e) ∧ Ready s' high l' ∧
      s'.information = s.information ∧ s'.autoExtend = s.autoExtend := by
  cases hget : Objects.get s.information key with
  | none => exact ⟨s, .einval, l, setspecific_none hget, h, rfl, rfl⟩
  | some o =>
    have hsome : Objects.get s.information key ≠ none := by simp [hget]
    have hclass := h.keyed.inClass he.1 hsome
    obtain ⟨r, hfind, hspec⟩ := h.pairs.find hclass t (Nat.le_refl l.length)
    rw [setspecific_some hget, hfind, Option.bind_some]
    by_cases hvalue : value ≠ 0
    · rw [if_pos hvalue]
      rcases hspec with ⟨rfl, hnone⟩ | ⟨n, hn, hkey, ht, rfl⟩
      · simp only [setValue]
        rcases h.pairs.allocate (h.pairs.memory he) with hfull | ⟨n, rest, hallocate, hn, hrest, hpairs⟩
        · rw [hfull]
          exact ⟨s, .enomem, l, rfl, h, rfl, rfl⟩
        · obtain ⟨lookupTree, l', hinsert, hmem, hpairs'⟩ :=
            hpairs.insert hn hrest hclass hnone value (Nat.le_refl l.length)
          rw [hallocate]
          simp only [hinsert]
          refine ⟨_, .success, l', rfl, h.of_mem key hpairs' rfl fun p hp => ?_, rfl, rfl⟩
          rcases (hmem p).mp hp with rfl | hpl
          · refine .inl ⟨?_, hsome⟩
            simp only [Function.update_self]
          · refine .inr ⟨hpl, ?_⟩
            have hne : p ≠ n := fun heq => hn (heq ▸ hpl)
            simp only [Function.update_of_ne hne]
      · refine ⟨_, .success, l, rfl, h.of_mem key (h.pairs.setValue hn value) rfl
          fun p hp => .inr ⟨hp, ?_⟩, rfl, rfl⟩
        by_cases heq : p = n
        · subst heq
          simp only [Function.update_self]
        · simp only [Function.update_of_ne heq]
    · rw [if_neg hvalue]
      rcases hspec with ⟨rfl, -⟩ | ⟨n, hn, -, -, rfl⟩
      · exact ⟨s, .success, l, rfl, h, rfl, rfl⟩
      · obtain ⟨lookupTree, hfree, hpairs⟩ := h.pairs.freePair hn (Nat.le_refl l.length)
        simp only [deleteValue, hfree]
        refine ⟨_, .success, l.erase n, rfl, h.of_mem key hpairs rfl fun p hp => .inr ⟨?_, rfl⟩,
          rfl, rfl⟩
        exact List.mem_of_mem_erase hp

/-- `pthread_key_delete`, also of a key that is deleted. -/
theorem Ready.keyDelete (h : Ready s high l) (key : Nat) :
    ∃ s' e l', keyDelete (l.length + 1) s key = some (s', e) ∧ Ready s' high l' ∧
      s'.autoExtend = s.autoExtend ∧
      ((Objects.get s.information key = none ∧ e = .einval ∧ s' = s) ∨
        ∃ o, Objects.get s.information key = some o ∧ e = .success ∧ s'.information = free s o) := by
  cases hget : Objects.get s.information key with
  | none => exact ⟨s, .einval, l, keyDelete_none hget, h, rfl, .inl ⟨rfl, rfl, rfl⟩⟩
  | some o =>
    obtain ⟨lookupTree, keypool, hfree, hpairs⟩ :=
      h.pairs.freeMemory (h.keyed.get hget) (Nat.lt_succ_self l.length)
    rw [keyDelete_some hget, hfree]
    refine ⟨_, .success, l.filter fun n => decide ((s.pair n).key ≠ s.information.ids o), rfl,
      ⟨?_, ?_, ?_⟩, rfl, .inr ⟨o, rfl, rfl, rfl⟩⟩
    · exact { hpairs with }
    · exact Keyed.free h.keyed o
    · intro n hn
      have hmem := List.mem_of_mem_filter hn
      change Objects.get (free _ o) (s.pair n).key ≠ none
      rw [get_free]
      exact h.known n hmem

theorem UserCalls.ready (hcalls : UserCalls t s s') (h : Ready s high l) : ∃ l', Ready s' high l' := by
  induction hcalls with
  | nil => exact ⟨l, h⟩
  | setspecific _ he hreturns ih =>
    obtain ⟨l₁, h₁⟩ := ih
    obtain ⟨s₂, e, l₂, hset, h₂, -⟩ := h₁.setspecific he
    cases hreturns.unique (fun n => setspecific_extends n _ _ _ _) ⟨_, hset⟩
    exact ⟨l₂, h₂⟩
  | delete _ _ hreturns ih =>
    obtain ⟨l₁, h₁⟩ := ih
    obtain ⟨s₂, e, l₂, hdelete, h₂, -⟩ := h₁.keyDelete _
    cases hreturns.unique (fun n => keyDelete_extends n _) ⟨_, hdelete⟩
    exact ⟨l₂, h₂⟩

/-! ## The tables of a run -/

open Objects (Workspace Tables Information)

variable {g : Information} {w : Workspace} {x : System} {events : List Event}

theorem Keyed.assign (h : Keyed g high) {block base newBlock : Nat}
    (hbase : ∀ i < g.allocationSize, base + i < 2 ^ 16) :
    Keyed (Objects.assignBlock g block base newBlock) high := by
  refine ⟨h.high_eq, h.high_lt, h.bound, fun i hi o ho => ?_, h.empty⟩
  simp only [Objects.assignBlock]
  split
  next hnew => exact ⟨base + o.slot, hbase _ hnew.2, by rw [h.high_eq]⟩
  next => exact h.ids i hi o ho

theorem Keyed.grow (h : Keyed g high) (hmaximum : g.maximum = g.blockCount * g.allocationSize)
    (hcopy : g.blockCount ≠ 0 → 1 < g.maximum) (t : Tables)
    (hroom : g.maximum + g.allocationSize ≤ Objects.idFinalIndex) :
    Keyed (Objects.growTables g t (1 + g.blockCount * g.allocationSize)
      (g.maximum + g.allocationSize)) high := by
  have hmod : (g.maximum + g.allocationSize) % 2 ^ 16 = g.maximum + g.allocationSize :=
    Nat.mod_eq_of_lt (by rw [Objects.idFinalIndex] at hroom; omega)
  refine ⟨h.high_eq, h.high_lt, ?_, fun i hi o ho => ?_, fun hzero => ?_⟩
  · simp only [Objects.growTables, hmod]
    exact hroom
  · simp only [Objects.growTables, hmod] at hi
    simp only [Objects.growTables, Objects.getIndex_minimumId, ← hmaximum] at ho ⊢
    split at ho
    next => cases ho
    next hnew =>
      split at ho
      next hold => exact h.ids i (by omega) o ho
      next hold =>
        split at ho
        next => cases ho
        next hlow =>
          -- There is no further entry.
          by_cases hblocks : g.blockCount = 0
          · rw [hblocks, Nat.zero_mul] at hmaximum
            omega
          · have hlarge := hcopy hblocks
            omega
  · simp only [Objects.growTables, hmod] at hzero
    simp only [Objects.growTables, Objects.getIndex_minimumId]
    rw [if_neg (by omega), if_neg (by omega), if_pos (by omega)]

theorem Keyed.extend (h : Keyed g high) (hmaximum : g.maximum = g.blockCount * g.allocationSize)
    (hkeeps : Objects.KeepsTables g w) : Keyed (Objects.extendInformation g w) high := by
  have hbound := h.bound
  rw [Objects.idFinalIndex] at hbound
  rcases Objects.extendInformation_cases g w with e | ⟨b, p, hb, -, -, e⟩ | ⟨t, p, hroom, hp, ht, e⟩
  · rw [e]
    exact h
  · rw [e]
    refine h.assign fun i hi => ?_
    have hoffset := Objects.offset_lt hb hi
    omega
  · rw [e]
    refine (h.grow hmaximum (hkeeps.copied hp ht) t hroom).assign fun i hi => ?_
    replace hi : i < g.allocationSize := hi
    rw [Objects.idFinalIndex] at hroom
    omega

/-- The tables go on to have the entries that they had. -/
structure Keeps (g g' : Information) : Prop where
  high : g'.high = g.high
  maximum : g.maximum ≤ g'.maximum
  table : ∀ i ≤ g.maximum, g.localTable i ≠ none → g'.localTable i ≠ none

theorem Keeps.get {g' : Information} (h : Keeps g g') (hget : Objects.get g key ≠ none) :
    Objects.get g' key ≠ none := by
  have hminimum : g'.minimumId = g.minimumId := congrArg (Objects.buildId · 1) h.high
  unfold Objects.get at hget ⊢
  dsimp only at hget ⊢
  rw [hminimum]
  split at hget
  next hle =>
    rw [if_pos (Nat.le_trans hle h.maximum)]
    exact h.table _ hle hget
  next => exact absurd rfl hget

theorem Keyed.keeps_extend (h : Keyed g high)
    (hmaximum : g.maximum = g.blockCount * g.allocationSize)
    (hkeeps : Objects.KeepsTables g w) : Keeps g (Objects.extendInformation g w) := by
  rcases Objects.extendInformation_cases g w with e | ⟨b, p, -, -, -, e⟩ | ⟨t, p, hroom, hp, ht, e⟩
  · rw [e]
    exact ⟨rfl, Nat.le_refl _, fun _ _ hne => hne⟩
  · rw [e]
    exact ⟨rfl, Nat.le_refl _, fun _ _ hne => hne⟩
  · rw [e]
    rw [Objects.idFinalIndex] at hroom
    refine ⟨rfl, ?_, fun i hi hne => ?_⟩
    · change g.maximum ≤ (g.maximum + g.allocationSize) % 2 ^ 16
      omega
    · simp only [Objects.assignBlock, Objects.growTables, Objects.getIndex_minimumId, ← hmaximum]
      by_cases hblocks : g.blockCount = 0
      · rw [hblocks, Nat.zero_mul] at hmaximum
        rw [hmaximum, Nat.le_zero] at hi
        rw [hi] at hne
        exact absurd (h.empty hmaximum) hne
      · have hlarge := hkeeps.copied hp ht hblocks
        rw [if_neg (by omega), if_pos (by omega)]
        exact hne

/-- The tables that a key is created with. -/
theorem Keyed.allocate (h : Keyed s.information high) {live : List Nat}
    (hc : Controls s.information s.autoExtend high live)
    (hgrows : s.autoExtend = true → s.information.inactiveChain = [] →
      Objects.KeepsTables s.information w) :
    Keyed (allocate s w).1 high ∧ Keeps s.information (allocate s w).1 := by
  obtain ⟨g, ⟨table, perBlock, inactive, hinfo, -, -⟩, hg, -, -⟩ := hc
  have hmaximum : s.information.maximum = s.information.blockCount * s.information.allocationSize := by
    rw [hinfo]
    exact hg.maximum
  have hrefl : Keeps s.information s.information := ⟨rfl, Nat.le_refl _, fun _ _ hne => hne⟩
  simp only [PosixKeys.allocate]
  cases hchain : s.information.inactiveChain with
  | cons o rest =>
    simp only [Objects.allocate, hchain]
    split
    · exact ⟨{ h with }, { hrefl with }⟩
    · exact ⟨{ h with }, { hrefl with }⟩
  | nil =>
    split
    next hauto =>
      have hextend := h.extend hmaximum (hgrows hauto hchain)
      have hkeeps := h.keeps_extend hmaximum (hgrows hauto hchain)
      simp only [Objects.allocate, hchain]
      split
      · exact ⟨hextend, hkeeps⟩
      · exact ⟨{ hextend with }, { hkeeps with }⟩
    next => exact ⟨h, hrefl⟩

theorem Controls.maximum_pos {live : List Nat} {autoExtend : Bool}
    (h : Controls g autoExtend high live) (hkey : key ∈ live) : 0 < g.maximum := by
  obtain ⟨g', ⟨table, perBlock, inactive, rfl, -, -⟩, hg, -, hlive⟩ := h
  obtain ⟨o, ⟨b, hb, -, -⟩, -⟩ := hlive key hkey
  change 0 < g'.maximum
  rw [hg.maximum]
  exact Nat.mul_pos (Nat.zero_lt_of_lt hb) hg.size

/-- The control of a new key is entered. -/
theorem Keyed.openObject (h : Keyed g high) (hkey : InClass high (g.ids theKey))
    (hpos : 0 < g.maximum) :
    Keyed (Objects.openObject g theKey) high ∧ Keeps g (Objects.openObject g theKey) := by
  constructor
  · refine ⟨h.high_eq, h.high_lt, h.bound, fun i hi p hp => ?_, fun hzero => ?_⟩
    · simp only [Objects.openObject, Function.update_apply] at hp
      split at hp
      next =>
        cases hp
        exact hkey
      next => exact h.ids i hi p hp
    · exact absurd hzero (Nat.ne_of_gt hpos)
  · refine ⟨rfl, Nat.le_refl _, fun i hi hne => ?_⟩
    simp only [Objects.openObject, Function.update_apply]
    split
    · exact Option.some_ne_none theKey
    · exact hne

theorem Keeps.trans {g₁ g₂ : Information} (h : Keeps g g₁) (h' : Keeps g₁ g₂) : Keeps g g₂ where
  high := h'.high.trans h.high
  maximum := Nat.le_trans h.maximum h'.maximum
  table i hi hne := h'.table i (Nat.le_trans hi h.maximum) (h.table i hi hne)

theorem Keyed.keyCreate (h : Keyed s.information high) {live : List Nat}
    (hc : Controls s.information s.autoExtend high live)
    (hw : (Objects.Op.allocate w).Enabled s.information)
    (hgrows : s.autoExtend = true → s.information.inactiveChain = [] →
      Objects.KeepsTables s.information w) :
    Keyed (keyCreate s w).1.information high ∧
      Keeps s.information (keyCreate s w).1.information := by
  have hallocate := h.allocate hc hgrows
  obtain ⟨information, ⟨hcreate, -⟩ | ⟨key, hcreate, -, hc'⟩⟩ := hc.create hw hgrows
  · simp only [PosixKeys.keyCreate] at hcreate ⊢
    revert hcreate hallocate
    rcases PosixKeys.allocate s w with ⟨information', _ | o⟩
    · intro hallocate _
      exact hallocate
    · intro _ hcreate
      cases congrArg Prod.snd hcreate
  · have hclass := hc'.class_of_live List.mem_cons_self
    have hpos := hc'.maximum_pos List.mem_cons_self
    simp only [PosixKeys.keyCreate] at hcreate ⊢
    revert hcreate hallocate
    rcases PosixKeys.allocate s w with ⟨information', _ | o⟩
    · intro _ hcreate
      cases congrArg Prod.snd hcreate
    · intro hallocate hcreate
      cases congrArg Prod.snd hcreate
      have hinformation : information = Objects.openObject information' o :=
        congrArg (fun k => k.1.information) hcreate.symm
      rw [hinformation] at hpos
      obtain ⟨hopen, hkeeps⟩ := hallocate.1.openObject hclass hpos
      exact ⟨hopen, hallocate.2.trans hkeeps⟩

/-! ## Runs before the destructors -/

/-- Nobody deletes a key that is deleted, and an extension of the key controls does not have to grow
tables that hold a single one.  Values of deleted keys may be set. -/
def DeletesLive (x : System) : Event → Prop
  | .create w => Proper x (.create w)
  | .delete key => Proper x (.delete key)
  | .setspecific _ _ _ _ => True
  | .getspecific _ _ => True

/-- There is a control for each live key, and the pairs are ready for the destructors. -/
def System.Prepared (x : System) (high : Nat) : Prop :=
  Controls x.keys.information x.keys.autoExtend high x.map.live ∧ ∃ l, Ready x.keys high l

theorem System.Prepared.step {e : Event} (h : x.Prepared high) (he : e.Enabled x.keys)
    (hok : DeletesLive x e) {keys : Keys} {r : Result} (hreturns : Returns (e.run · x.keys) (keys, r)) :
    System.Prepared { keys := keys, map := x.map.update e r } high := by
  obtain ⟨hc, l, hl⟩ := h
  obtain ⟨fuel, hreturns⟩ := hreturns
  cases e with
  | create w =>
    obtain ⟨hkeyed, hkeeps⟩ := hl.keyed.keyCreate hc he hok
    obtain ⟨information, hcreate⟩ := hc.create he hok
    have hready : Ready { x.keys with information := information } high l := by
      have heq : (PosixKeys.keyCreate x.keys w).1 = { x.keys with information := information } := by
        rcases hcreate with ⟨hcreate, -⟩ | ⟨key, hcreate, -, -⟩
        · rw [hcreate]
        · rw [hcreate]
      rw [heq] at hkeyed hkeeps
      exact ⟨{ hl.pairs with }, hkeyed, fun n hn => hkeeps.get (hl.known n hn)⟩
    simp only [Event.run] at hreturns
    rcases hcreate with ⟨hcreate, hc'⟩ | ⟨key, hcreate, -, hc'⟩
    · rw [hcreate] at hreturns
      cases hreturns
      exact ⟨hc', l, hready⟩
    · rw [hcreate] at hreturns
      cases hreturns
      exact ⟨hc', l, hready⟩
  | delete key =>
    obtain ⟨⟨keys', e⟩, hdelete, hreturns⟩ := Option.bind_eq_some_iff.mp hreturns
    cases hreturns
    obtain ⟨s', e', l', hdelete', hready, hauto, hresult⟩ := hl.keyDelete key
    cases Returns.unique (fun n => keyDelete_extends n _) ⟨_, hdelete⟩ ⟨_, hdelete'⟩
    rcases hresult with ⟨hget, rfl, rfl⟩ | ⟨o, hget, rfl, hinformation⟩
    · exact ⟨hc, l', hready⟩
    · obtain ⟨o', hget', -, hc'⟩ := hc.delete (hok (by simp [hget]))
      cases hget.symm.trans hget'
      rw [← hinformation, ← hauto] at hc'
      exact ⟨hc', l', hready⟩
  | setspecific t key value memory =>
    obtain ⟨⟨keys', e⟩, hset, hreturns⟩ := Option.bind_eq_some_iff.mp hreturns
    cases hreturns
    obtain ⟨s', e', l', hset', hready, hinformation, hauto⟩ := hl.setspecific he
    cases Returns.unique (fun n => setspecific_extends n _ _ _ _) ⟨_, hset⟩ ⟨_, hset'⟩
    rw [← hinformation, ← hauto] at hc
    refine ⟨?_, l', hready⟩
    cases e with
    | success => exact hc
    | eagain => exact hc
    | einval => exact hc
    | enomem => exact hc
  | getspecific t key =>
    obtain ⟨v, hget, hreturns⟩ := Option.bind_eq_some_iff.mp hreturns
    cases hreturns
    exact ⟨hc, l, hl⟩

theorem System.Prepared.run {x₀ : System} (h : x₀.Prepared high)
    (hrun : Runs DeletesLive x₀ events x) : x.Prepared high := by
  induction hrun with
  | nil => exact h
  | snoc _ he hok hreturns ih => exact ih.step he hok hreturns

/-! ## The destructors of a thread -/

/-- `_POSIX_Keys_Run_destructors` at the head of its loop. -/
structure Destruction where
  keys : Keys
  iter : Option Nat
  /-- The pairs whose destructors have been called, each with the keys it was found in. -/
  calls : List (Keys × Nat)

def Destruction.start (s : Keys) (t : Thread) : Destruction where
  keys := s
  iter := (s.chain t).head?
  calls := []

/-- `_Chain_Next` of a node that is on the chain. -/
def chainNext (chain : List Nat) (p : Nat) : Option Nat := (chain.dropWhile (· ≠ p)).tail.head?

/-- A turn of the loop.  A pair that is not on the chain may be followed by anything.  The calls of
a destructor meet `ok`. -/
inductive Turn (destructor : Objects.Obj → Bool) (ok : Keys → Keys → Prop) (t : Thread)
    (r : Destruction) : Destruction → Prop
  | quiet {p : Nat} {next : Option Nat} {theKey : Objects.Obj} {keys : Keys}
      (hiter : r.iter = some p)
      (hnext : p ∈ r.keys.chain t → next = chainNext (r.keys.chain t) p)
      (hget : Objects.get r.keys.information (r.keys.pair p).key = some theKey)
      (hfree : Returns (freeKeyValuePair · r.keys p) keys)
      (hquiet : destructor theKey = true → (r.keys.pair p).value = 0) :
      Turn destructor ok t r { r with keys := keys, iter := next }
  | call {p : Nat} {next : Option Nat} {theKey : Objects.Obj} {keys keys' : Keys}
      (hiter : r.iter = some p)
      (hnext : p ∈ r.keys.chain t → next = chainNext (r.keys.chain t) p)
      (hget : Objects.get r.keys.information (r.keys.pair p).key = some theKey)
      (hfree : Returns (freeKeyValuePair · r.keys p) keys)
      (hdestructor : destructor theKey = true) (hvalue : (r.keys.pair p).value ≠ 0)
      (hcalls : UserCalls t keys keys') (hok : ok keys keys') :
      Turn destructor ok t r { keys := keys', iter := next, calls := r.calls ++ [(r.keys, p)] }

/-- A destructor is called for a pair of the thread that is still there, and at the end there is none. -/
structure CleansUp (t : Thread) (r : Destruction) : Prop where
  calls : ∀ c ∈ r.calls, c.1.InTree c.2 ∧ (c.1.pair c.2).thread = some t
  chain : r.iter = none → r.keys.chain t = []
  tree : r.iter = none → ∀ p, r.keys.InTree p → (r.keys.pair p).thread ≠ some t

/-- A destructor returns with the same first pair on the chain as it was called with. -/
def KeepsFirst (t : Thread) (before after : Keys) : Prop :=
  (after.chain t).head? = (before.chain t).head?

/-- The loop goes on with the first pair of the chain. -/
def AtFirst (high : Nat) (t : Thread) (r : Destruction) : Prop :=
  (∃ l, Ready r.keys high l) ∧ (r.keys.chain t).head? = r.iter

variable {destructor : Objects.Obj → Bool} {r r' : Destruction}

/-- The first pair of the chain is taken off. -/
theorem AtFirst.free (h : AtFirst high t r) {next : Option Nat} {keys : Keys}
    (hiter : r.iter = some p)
    (hnext : p ∈ r.keys.chain t → next = chainNext (r.keys.chain t) p)
    (hfree : Returns (freeKeyValuePair · r.keys p) keys) :
    (r.keys.InTree p ∧ (r.keys.pair p).thread = some t) ∧ (∃ l, Ready keys high l) ∧
      (keys.chain t).head? = next := by
  obtain ⟨⟨l, hl⟩, hhead⟩ := h
  rw [hiter] at hhead
  obtain ⟨rest, hchain⟩ := List.head?_eq_some_iff.mp hhead
  have hmem : p ∈ r.keys.chain t := List.mem_of_mem_head? hhead
  obtain ⟨hp, ht⟩ := (hl.pairs.chains t p).mp hmem
  obtain ⟨lookupTree, hfree', hpairs⟩ := hl.pairs.freePair hp (Nat.le_refl l.length)
  cases hfree.unique (fun n => freeKeyValuePair_extends n _ _) ⟨_, hfree'⟩
  refine ⟨⟨(hl.pairs.inTree_iff p).mpr hp, ht⟩, ⟨l.erase p, hpairs, hl.keyed, fun n hn => ?_⟩, ?_⟩
  · exact hl.known n (List.mem_of_mem_erase hn)
  · rw [hnext hmem, chainNext]
    change ((r.keys.chain t).erase p).head? = _
    rw [hchain]
    simp

/-- A turn takes the first pair off the chain and goes on with the new first pair. -/
theorem AtFirst.turn (h : AtFirst high t r) (hturn : Turn destructor (KeepsFirst t) t r r') :
    AtFirst high t r' := by
  cases hturn with
  | quiet hiter hnext hget hfree hquiet => exact (h.free hiter hnext hfree).2
  | call hiter hnext hget hfree hdestructor hvalue hcalls hok =>
    obtain ⟨-, ⟨l, hl⟩, hhead⟩ := h.free hiter hnext hfree
    exact ⟨hcalls.ready hl, hok.trans hhead⟩

theorem AtFirst.calls (h : AtFirst high t r) (hturn : Turn destructor (KeepsFirst t) t r r')
    (hcalls : ∀ c ∈ r.calls, c.1.InTree c.2 ∧ (c.1.pair c.2).thread = some t) :
    ∀ c ∈ r'.calls, c.1.InTree c.2 ∧ (c.1.pair c.2).thread = some t := by
  cases hturn with
  | quiet => exact hcalls
  | call hiter hnext hget hfree hdestructor hvalue huser hok =>
    intro c hc
    rcases List.mem_append.mp hc with hc | hc
    · exact hcalls c hc
    · cases List.mem_singleton.mp hc
      exact (h.free hiter hnext hfree).1

theorem AtFirst.cleansUp (h : AtFirst high t r)
    (hcalls : ∀ c ∈ r.calls, c.1.InTree c.2 ∧ (c.1.pair c.2).thread = some t) : CleansUp t r := by
  obtain ⟨⟨l, hl⟩, hhead⟩ := h
  have hchain : r.iter = none → r.keys.chain t = [] := fun hiter =>
    List.head?_eq_none_iff.mp (hhead.trans hiter)
  refine ⟨hcalls, hchain, fun hiter p hp ht => ?_⟩
  have hmem := (hl.pairs.chains t p).mpr ⟨(hl.pairs.inTree_iff p).mp hp, ht⟩
  rw [hchain hiter] at hmem
  exact List.not_mem_nil hmem

theorem Ready.cleansUp (h : Ready s high l)
    (hturns : ReflTransGen (Turn destructor (KeepsFirst t) t) (.start s t) r) : CleansUp t r := by
  have hstart : AtFirst high t (.start s t) := ⟨⟨l, h⟩, rfl⟩
  suffices AtFirst high t r ∧ ∀ c ∈ r.calls, c.1.InTree c.2 ∧ (c.1.pair c.2).thread = some t from
    this.1.cleansUp this.2
  induction hturns with
  | refl => exact ⟨hstart, fun c hc => absurd hc List.not_mem_nil⟩
  | tail _ hturn ih => exact ⟨ih.1.turn hturn, ih.1.calls hturn ih.2⟩

theorem keyed_initialization {allocationSize : Nat} (hhigh : high < 2 ^ 16) (w : Workspace) :
    Keyed (Objects.initializeInformation high allocationSize w) high := by
  have hempty : Keyed (Objects.emptyInformation high allocationSize) high :=
    ⟨rfl, hhigh, Nat.zero_le _, fun i hi o ho => (nomatch ho), fun _ => rfl⟩
  exact hempty.extend (Nat.zero_mul _).symm fun hne => absurd rfl hne

theorem prepared_initialization {allocationSize : Nat} (hhigh : high < 2 ^ 16)
    (hsize : 0 < allocationSize) (w : Workspace) (autoExtend : Bool)
    (memory : RBTree.State (Option Nat)) (pair : Nat → Pair) (base poolSize bumpCount : Nat) :
    (keyManagerInitialization high allocationSize w autoExtend memory pair base poolSize
      bumpCount).Prepared high := by
  obtain ⟨hc, l, hl⟩ := @consistent_initialization high _ hsize w autoExtend memory pair base
    poolSize bumpCount
  exact ⟨hc, l, hl.pairs, keyed_initialization hhigh w, fun n hn => hc.get (hl.live n hn)⟩

/-- **The destructors of a thread clean up** as long as each of them returns with the same first pair
on the key chain of the thread as it was called with. -/
theorem destructors_clean_up {allocationSize : Nat} {autoExtend : Bool}
    {memory : RBTree.State (Option Nat)} {pair : Nat → Pair} {base poolSize bumpCount : Nat}
    (hhigh : high < 2 ^ 16) (hsize : 0 < allocationSize)
    (hrun : Runs DeletesLive (keyManagerInitialization high allocationSize w autoExtend memory pair base
      poolSize bumpCount) events x)
    (hturns : ReflTransGen (Turn destructor (KeepsFirst t) t) (.start x.keys t) r) :
    CleansUp t r := by
  obtain ⟨-, l, hready⟩ := (prepared_initialization hhigh hsize w autoExtend memory pair base poolSize
    bumpCount).run hrun
  exact hready.cleansUp hturns

/-- The thread whose control is at `0x1000` has the value 5. -/
def oneValue : System := perform 3 (perform 3 oneKey creation) setting

theorem oneValue_runs : Runs DeletesLive oneKey [creation, setting] oneValue :=
  (Runs.nil.perform (creation_enabled _) nofun _ (by decide +kernel)).perform (setting_enabled _)
    trivial _ (by decide +kernel)

theorem oneThread_pos : 0 < 0x1000 := by decide

theorem oneThread_even : 0x1000 % 2 = 0 := by decide

theorem oneThread_bound : 0x1000 < 2 ^ 32 := by decide

def oneThread : Thread := ⟨0x1000, oneThread_pos, oneThread_even, oneThread_bound⟩

/-- The keys while the destructor of the value runs. -/
def extracted : Keys := (freeKeyValuePair 3 oneValue.keys 0).get (by decide +kernel)

/-- The keys when the destructor has set another value, with the result of `pthread_setspecific`. -/
def setAgain : Keys × Errno := (setspecific 3 extracted oneThread 0x30010001 7 none).get
  (by decide +kernel)

theorem setspecific_again :
    setspecific 3 extracted oneThread 0x30010001 7 none = some setAgain :=
  (Option.some_get _).symm

theorem settingAgain_enabled (keys : Keys) :
    (Event.setspecific oneThread 0x30010001 7 none).Enabled keys :=
  ⟨Nat.le_of_ble_eq_true rfl, nofun⟩

/-- The only turn, with a destructor that leaves `keys`. -/
theorem oneValue_turn {ok : Keys → Keys → Prop} {keys : Keys}
    (hcalls : UserCalls oneThread extracted keys) (hok : ok extracted keys) :
    Turn (fun _ => true) ok oneThread (.start oneValue.keys oneThread)
      { keys := keys, iter := none, calls := [(oneValue.keys, 0)] } := by
  have hget : (Objects.get oneValue.keys.information (oneValue.keys.pair 0).key).isSome := by
    decide +kernel
  exact .call (by decide +kernel) (fun _ => by decide +kernel) (Option.some_get hget).symm
    ⟨3, (Option.some_get _).symm⟩ rfl (by decide +kernel) hcalls hok

/-- The keys when a pair is extracted. -/
def freed (keys : Keys) (p : Nat) : Keys := (freeKeyValuePair 3 keys p).getD keys

theorem returns_freed {keys : Keys} {p : Nat} (h : (freeKeyValuePair 3 keys p).isSome) :
    Returns (freeKeyValuePair · keys p) (freed keys p) := by
  obtain ⟨keys', heq⟩ := Option.isSome_iff_exists.mp h
  refine ⟨3, heq.trans ?_⟩
  rw [freed, heq, Option.getD_some]

/-- The thread sets a value of the second key. -/
def settingSecond (value : Nat) : Event := .setspecific oneThread 0x30010002 value none

theorem settingSecond_enabled (value : Nat) (keys : Keys) : (settingSecond value).Enabled keys :=
  ⟨Nat.le_of_ble_eq_true rfl, nofun⟩

/-- The thread has values of two keys. -/
def twoValues : System :=
  perform 3 (perform 3 (perform 3 (perform 3 twoKeys creation) creation) setting) (settingSecond 6)

theorem twoValues_runs :
    Runs DeletesLive twoKeys [creation, creation, setting, settingSecond 6] twoValues :=
  (((Runs.nil.perform (creation_enabled _) nofun _ (by decide +kernel)).perform
    (creation_enabled _) nofun _ (by decide +kernel)).perform
    (setting_enabled _) trivial _ (by decide +kernel)).perform
    (settingSecond_enabled _ _) trivial _ (by decide +kernel)

/-- The destructor of the first value has set the other value. -/
@[irreducible] def otherSet : Keys :=
  ((setspecific 3 (freed twoValues.keys 0) oneThread 0x30010002 8 none).map Prod.fst).getD
    twoValues.keys

theorem otherSet_calls : UserCalls oneThread (freed twoValues.keys 0) otherSet := by
  have hset : (setspecific 3 (freed twoValues.keys 0) oneThread 0x30010002 8 none).isSome := by
    decide +kernel
  obtain ⟨⟨keys, e⟩, heq⟩ := Option.isSome_iff_exists.mp hset
  have hkeys : otherSet = keys := by
    unfold otherSet
    exact congrArg (fun o => (o.map Prod.fst).getD twoValues.keys) heq
  rw [hkeys]
  exact .setspecific .nil (settingSecond_enabled 8 _) ⟨3, heq⟩

/-- The destructor of the first value sets the second one, and that of the second does nothing. -/
theorem destructors_clean_up_quiet :
    CleansUp oneThread { keys := freed otherSet 1, iter := none
                         calls := [(twoValues.keys, 0), (otherSet, 1)] } := by
  have hget₀ : (Objects.get twoValues.keys.information (twoValues.keys.pair 0).key).isSome := by
    decide +kernel
  have hget₁ : (Objects.get otherSet.information (otherSet.pair 1).key).isSome := by
    decide +kernel
  have hkeeps : KeepsFirst oneThread (freed twoValues.keys 0) otherSet := by
    unfold KeepsFirst
    decide +kernel
  have h₀ : Turn (fun _ => true) (KeepsFirst oneThread) oneThread (.start twoValues.keys oneThread)
      { keys := otherSet, iter := some 1, calls := [(twoValues.keys, 0)] } :=
    .call (by decide +kernel) (fun _ => by decide +kernel) (Option.some_get hget₀).symm
      (returns_freed (by decide +kernel)) rfl (by decide +kernel) otherSet_calls hkeeps
  have h₁ : Turn (fun _ => true) (KeepsFirst oneThread) oneThread
      { keys := otherSet, iter := some 1, calls := [(twoValues.keys, 0)] }
      { keys := freed otherSet 1, iter := none, calls := [(twoValues.keys, 0), (otherSet, 1)] } :=
    .call rfl (fun _ => by decide +kernel) (Option.some_get hget₁).symm
      (returns_freed (by decide +kernel)) rfl (by decide +kernel) .nil rfl
  exact destructors_clean_up (by decide) (by decide) twoValues_runs (.tail (.single h₀) h₁)

/-- A destructor that sets the value again, behind the end of the chain that the loop has reached. -/
theorem exists_not_cleansUp : ¬ ∀ (high allocationSize : Nat) (w : Workspace) (autoExtend : Bool)
    (memory : RBTree.State (Option Nat)) (pair : Nat → Pair) (base poolSize bumpCount : Nat)
    (events : List Event) (x : System) (destructor : Objects.Obj → Bool) (t : Thread)
    (r : Destruction), high < 2 ^ 16 → 0 < allocationSize →
      Runs DeletesLive (keyManagerInitialization high allocationSize w autoExtend memory pair base
        poolSize bumpCount) events x →
      ReflTransGen (Turn destructor (fun _ _ => True) t) (.start x.keys t) r → CleansUp t r := by
  intro hall
  have hagain : setAgain.1.chain oneThread ≠ [] := by decide +kernel
  rcases hkeys : setAgain with ⟨keys, e⟩
  rw [hkeys] at hagain
  have hset : Returns (setspecific · extracted oneThread 0x30010001 7 none) (keys, e) :=
    ⟨3, setspecific_again.trans (congrArg some hkeys)⟩
  have hcalls : UserCalls oneThread extracted keys :=
    .setspecific .nil (settingAgain_enabled extracted) hset
  have hclean := hall _ _ _ _ _ _ _ _ _ _ _ _ _ _ (by decide) (by decide) oneValue_runs
    (.single (oneValue_turn hcalls trivial))
  exact hagain (hclean.chain rfl)

end Rtems.PosixKeys
