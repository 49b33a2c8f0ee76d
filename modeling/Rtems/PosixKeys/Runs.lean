import Rtems.PosixKeys.Services

/-!
# Runs of the key services

The services of any number of threads in any order.  The loops come to their end
with a turn for each pair, and more turns make no difference.  The keys stand for
the map as long as nobody works with a key that is deleted: the service that
deletes a key frees its control, but leaves the control in the local table.
-/

namespace Rtems.PosixKeys

open Lib

variable {s : System} {keys : Keys} {events : List Event} {e : Event} {high : Nat} {l : List Nat}

/-! ## Loops with more turns -/

theorem find_extends (n : Nat) (key : Nat) (thread : Option Thread) :
    Extends (find n keys key thread) (find (n + 1) keys key thread) :=
  .bind (RBTree.find_extends n) fun _ => .refl _

theorem freeKeyValuePair_extends (n : Nat) (keys : Keys) (p : Nat) :
    Extends (freeKeyValuePair n keys p) (freeKeyValuePair (n + 1) keys p) :=
  .bind (RBTree.extract_extends n _) fun _ => .refl _

theorem smallest_extends (fuel n : Nat) (keyId iter : Nat) :
    Extends (smallest fuel keys keyId n iter) (smallest (fuel + 1) keys keyId (n + 1) iter) := by
  induction n generalizing iter with
  | zero => exact .none _
  | succ n ih =>
    unfold smallest
    refine .bind (RBTree.next_extends fuel _) fun next => ?_
    cases next.join with
    | none => exact .refl _
    | some next => exact .ite (ih next) (.refl _)

theorem deleteAll_extends (fuel n : Nat) (keyId : Nat) (keys : Keys) (iter : Option Nat) :
    Extends (deleteAll fuel keyId n keys iter) (deleteAll (fuel + 1) keyId (n + 1) keys iter) := by
  induction n generalizing keys iter with
  | zero =>
    cases iter with
    | none => exact .refl _
    | some iter => exact .none _
  | succ n ih =>
    cases iter with
    | none => exact .refl _
    | some iter =>
      unfold deleteAll
      refine .ite ?_ (.refl _)
      refine .bind (RBTree.next_extends fuel _) fun next => ?_
      exact .bind (freeKeyValuePair_extends fuel keys iter) fun keys => ih keys next.join

theorem freeMemory_extends (n : Nat) (keyId : Nat) :
    Extends (freeMemory n keys keyId) (freeMemory (n + 1) keys keyId) := by
  refine .bind (find_extends n keyId none) fun found => ?_
  cases found with
  | none => exact .refl _
  | some iter =>
    exact .bind (smallest_extends n n keyId iter) fun first =>
      deleteAll_extends n n keyId keys (some first)

theorem keyDelete_extends (n : Nat) (key : Nat) :
    Extends (keyDelete n keys key) (keyDelete (n + 1) keys key) := by
  cases hget : Objects.get keys.information key with
  | none =>
    rw [keyDelete_none hget, keyDelete_none hget]
    exact .refl _
  | some theKey =>
    rw [keyDelete_some hget, keyDelete_some hget]
    exact .bind (freeMemory_extends n _) fun _ => .refl _

theorem setValue_extends (n : Nat) (key value : Nat) (executing : Thread) (rbNode memory : Option Nat) :
    Extends (setValue n keys key value executing rbNode memory)
      (setValue (n + 1) keys key value executing rbNode memory) := by
  unfold setValue
  cases rbNode with
  | some p => exact .refl _
  | none =>
    simp only
    rcases keyValuePairAllocate keys memory with ⟨keys', _ | p⟩
    · exact .refl _
    · exact .bind (RBTree.insert_extends n _ _) fun _ => .refl _

theorem setspecific_extends (n : Nat) (executing : Thread) (key value : Nat) (memory : Option Nat) :
    Extends (setspecific n keys executing key value memory)
      (setspecific (n + 1) keys executing key value memory) := by
  cases hget : Objects.get keys.information key with
  | none =>
    rw [setspecific_none hget, setspecific_none hget]
    exact .refl _
  | some theKey =>
    rw [setspecific_some hget, setspecific_some hget]
    refine .bind (find_extends n key _) fun rbNode => .ite (setValue_extends n _ _ _ _ _) ?_
    cases rbNode with
    | none => exact .refl _
    | some p => exact .bind (freeKeyValuePair_extends n keys p) fun _ => .refl _

theorem getspecific_extends (n : Nat) (executing : Thread) (key : Nat) :
    Extends (getspecific n keys executing key) (getspecific (n + 1) keys executing key) := by
  cases hget : Objects.get keys.information key with
  | none =>
    rw [getspecific_none hget, getspecific_none hget]
    exact .refl _
  | some theKey =>
    rw [getspecific_some hget, getspecific_some hget]
    exact .bind (find_extends n key _) fun _ => .refl _

theorem Event.run_extends (e : Event) (n : Nat) :
    Extends (e.run n keys) (e.run (n + 1) keys) := by
  cases e with
  | create w => exact .refl _
  | delete key => exact .bind (keyDelete_extends n key) fun _ => .refl _
  | setspecific executing key value memory =>
    exact .bind (setspecific_extends n executing key value memory) fun _ => .refl _
  | getspecific executing key =>
    exact .bind (getspecific_extends n executing key) fun _ => .refl _

/-- The result does not depend on the bound. -/
theorem Returns.unique {α : Type} {f : Nat → Option α} {a b : α}
    (hf : ∀ n, Extends (f n) (f (n + 1))) (ha : Returns f a) (hb : Returns f b) : a = b := by
  obtain ⟨m, hm⟩ := ha
  obtain ⟨n, hn⟩ := hb
  have hm' := Extends.of_succ hf (Nat.le_max_left m n) _ hm
  have hn' := Extends.of_succ hf (Nat.le_max_right m n) _ hn
  exact Option.some.inj (hm'.symm.trans hn')

/-! ## The invariant -/

/-- There is a control for each live key, and a pair for each of its values. -/
def System.Consistent (s : System) (high : Nat) : Prop :=
  Controls s.keys.information s.keys.autoExtend high s.map.live ∧
    ∃ l, Stored s.keys high s.map l

theorem Pairs.inTree_iff (h : Pairs keys high l) (p : Nat) : keys.InTree p ↔ p ∈ l :=
  h.tree.inTree_iff

theorem Pairs.memory (h : Pairs keys high l) {t : Thread} {key value : Nat} {memory : Option Nat}
    (he : (Event.setspecific t key value memory).Enabled keys) :
    ∀ base, memory = some base → ∀ i < keys.bumpCount, base + i ∉ l := by
  intro base hbase i hi hmem
  exact he.2 base hbase i hi ((h.inTree_iff _).mpr hmem)

/-- Every service comes to its end, and the keys go on to stand for the map. -/
theorem System.Consistent.step (h : s.Consistent high) (hhigh : high < 2 ^ 16)
    (he : e.Enabled s.keys) (hp : Proper s e) :
    ∃ keys r, Returns (e.run · s.keys) (keys, r) ∧
      System.Consistent { keys := keys, map := s.map.update e r } high := by
  obtain ⟨hc, l, hl⟩ := h
  cases e with
  | create w =>
    obtain ⟨information, ⟨hcreate, hc'⟩ | ⟨key, hcreate, hkey, hc'⟩⟩ := hc.create he hp
    · refine ⟨{ s.keys with information := information }, .created none, ⟨0, ?_⟩, hc', l, ?_⟩
      · simp only [Event.run, hcreate]
      · exact { hl with
          pairs := { hl.pairs with } }
    · refine ⟨{ s.keys with information := information }, .created (some key), ⟨0, ?_⟩, hc', l, ?_⟩
      · simp only [Event.run, hcreate]
      · have hpairs : Pairs { s.keys with information := information } high l :=
          { hl.pairs with }
        exact hl.create hpairs rfl hkey w
  | delete key =>
    by_cases hget : Objects.get s.keys.information key = none
    · refine ⟨s.keys, .errno .einval, ⟨0, ?_⟩, hc, l, hl⟩
      simp only [Event.run, keyDelete_none hget]
      rfl
    · obtain ⟨keys, hdelete, hc', -, -, hl'⟩ :=
        hl.keyDelete hc (hp hget) (Nat.lt_succ_self l.length)
      refine ⟨keys, .errno .success, ⟨l.length + 1, ?_⟩, hc', _, hl'⟩
      simp only [Event.run, hdelete]
      rfl
  | setspecific t key value memory =>
    obtain ⟨keys, e, l', hset, hinformation, hauto, hl'⟩ :=
      hl.setspecific hc hhigh he.1 (hl.pairs.memory he) hp (Nat.le_refl l.length)
    refine ⟨keys, .errno e, ⟨l.length, ?_⟩, ?_, l', hl'⟩
    · simp only [Event.run, hset]
      rfl
    · change Controls keys.information keys.autoExtend high _
      rw [hinformation, hauto]
      cases e <;> exact hc
  | getspecific t key =>
    obtain ⟨v, hget, -⟩ := hl.getspecific hc hhigh he (Nat.le_refl l.length) (t := t)
    refine ⟨s.keys, .value v, ⟨l.length, ?_⟩, hc, l, hl⟩
    simp only [Event.run, hget]
    rfl

theorem System.Consistent.run {s₀ : System} (h : s₀.Consistent high) (hhigh : high < 2 ^ 16)
    (hrun : Runs Proper s₀ events s) : s.Consistent high := by
  induction hrun with
  | nil => exact h
  | snoc _ he hp hreturns ih =>
    obtain ⟨keys, r, hr, hs⟩ := ih.step hhigh he hp
    cases Returns.unique (Event.run_extends _) hreturns hr
    exact hs

theorem consistent_initialization {allocationSize : Nat} (hsize : 0 < allocationSize)
    (w : Objects.Workspace) (autoExtend : Bool) (memory : RBTree.State (Option Nat))
    (pair : Nat → Pair) (base poolSize bumpCount : Nat) :
    (keyManagerInitialization high allocationSize w autoExtend memory pair base poolSize
      bumpCount).Consistent high := by
  constructor
  · refine ⟨_, .refl _ _, Objects.Inv.of_start high hsize w, extend_high w, ?_⟩
    exact fun key hkey => absurd hkey List.not_mem_nil
  · refine ⟨[], ?_⟩
    refine
      { pairs :=
          { tree := RBTree.lists_empty memory
            chains := fun t n => ?_
            thread := fun n hn => absurd hn List.not_mem_nil
            nodup := fun _ => List.nodup_nil
            keys := fun n hn => absurd hn List.not_mem_nil
            once := fun n hn => absurd hn List.not_mem_nil
            pool := ?_
            outside := fun _ _ => List.not_mem_nil }
        live := fun n hn => absurd hn List.not_mem_nil
        value := fun n hn => absurd hn List.not_mem_nil
        null := fun key hkey => absurd hkey List.not_mem_nil }
    · exact ⟨fun hn => absurd hn List.not_mem_nil, fun hn => absurd hn.1 List.not_mem_nil⟩
    · refine List.Nodup.map ?_ List.nodup_range
      intro a b hab
      exact Nat.add_left_cancel hab

/-! ## The map -/

/-- An empty pool is left as it was. -/
theorem keyValuePairAllocate_none {memory : Option Nat} {keys' : Keys}
    (h : keyValuePairAllocate keys memory = (keys', none)) : keys' = keys := by
  unfold keyValuePairAllocate at h
  by_cases hempty : keys.keypool = [] ∧ keys.bumpCount > 0
  · simp only [if_pos hempty] at h
    cases hbase : memory with
    | none =>
      rw [hbase] at h
      have hsame : ({ keys with keypool := [] } : Keys) = keys := by rw [← hempty.1]
      exact (congrArg Prod.fst h).symm.trans hsame
    | some base =>
      rw [hbase] at h
      cases hlist : (List.range keys.bumpCount).map (base + ·) with
      | nil =>
        have hcount := congrArg List.length hlist
        rw [List.length_map, List.length_range] at hcount
        exact absurd hcount (Nat.ne_of_gt hempty.2)
      | cons n rest =>
        simp only [hlist] at h
        cases congrArg Prod.snd h
  · simp only [if_neg hempty] at h
    cases hpool : keys.keypool with
    | nil =>
      rw [hpool] at h
      exact (congrArg Prod.fst h).symm
    | cons n rest =>
      rw [hpool] at h
      cases congrArg Prod.snd h

/-- A service that fails changes nothing. -/
theorem setspecific_fails {fuel : Nat} {t : Thread} {key value : Nat} {memory : Option Nat}
    {keys' : Keys} {e : Errno} (h : setspecific fuel keys t key value memory = some (keys', e))
    (he : e ≠ .success) : keys' = keys := by
  cases hget : Objects.get keys.information key with
  | none =>
    rw [setspecific_none hget] at h
    cases h
    rfl
  | some theKey =>
    rw [setspecific_some hget] at h
    obtain ⟨rbNode, -, h⟩ := Option.bind_eq_some_iff.mp h
    split at h
    next =>
      cases rbNode with
      | some p =>
        cases h
        exact absurd rfl he
      | none =>
        unfold setValue at h
        rcases hallocate : keyValuePairAllocate keys memory with ⟨keys'', _ | p⟩
        · rw [hallocate] at h
          cases h
          exact keyValuePairAllocate_none hallocate
        · rw [hallocate] at h
          obtain ⟨_, -, h⟩ := Option.bind_eq_some_iff.mp h
          cases h
          exact absurd rfl he
    next =>
      cases rbNode with
      | none =>
        cases h
        exact absurd rfl he
      | some p =>
        obtain ⟨_, -, h⟩ := Option.bind_eq_some_iff.mp h
        cases h
        exact absurd rfl he

theorem System.Consistent.refines (h : s.Consistent high) (hhigh : high < 2 ^ 16) : Refines s := by
  obtain ⟨hc, l, hl⟩ := id h
  have hbound : ∀ key ∈ s.map.live, key < 2 ^ 32 := by
    intro key hkey
    obtain ⟨i, hi, rfl⟩ := hc.class_of_live hkey
    unfold Objects.buildId
    omega
  refine
    { total := ?_
      create := ?_
      get := ?_
      set := ?_
      delete := ?_
      chains := ?_
      thread := fun t p hp => ((hl.pairs.chains t p).mp hp).2
      nodup := hl.pairs.nodup
      once := ?_ }
  · intro e he hp
    obtain ⟨keys, r, hr, -⟩ := h.step hhigh he hp
    exact ⟨(keys, r), hr, fun r' hr' => Returns.unique (Event.run_extends e) hr' hr⟩
  · intro w key he hp hcreate
    obtain ⟨information, ⟨hnone, -⟩ | ⟨key', hsome, hkey, -⟩⟩ := hc.create he hp
    · rw [hnone] at hcreate
      cases hcreate
    · rw [hsome] at hcreate
      cases hcreate
      exact hkey
  · intro key hkey t
    obtain ⟨v, hget, hv⟩ := hl.getspecific hc hhigh (hbound key hkey) (Nat.le_refl l.length) (t := t)
    rw [← hv hkey]
    exact ⟨l.length, hget⟩
  · rintro t key value memory keys e ⟨fuel, hset⟩ he
    exact setspecific_fails hset he
  · intro key hkey
    obtain ⟨keys, hdelete, -, hpair, hchain, hl'⟩ :=
      hl.keyDelete hc hkey (Nat.lt_succ_self l.length)
    refine ⟨keys, ⟨l.length + 1, hdelete⟩, hpair, ?_, hchain⟩
    intro p
    rw [hl'.pairs.inTree_iff, hl.pairs.inTree_iff, List.mem_filter, decide_eq_true_iff]
  · intro p
    rw [hl.pairs.inTree_iff]
    constructor
    · intro hp
      obtain ⟨t, ht⟩ := Option.ne_none_iff_exists'.mp (hl.pairs.thread p hp)
      exact ⟨t, (hl.pairs.chains t p).mpr ⟨hp, ht⟩⟩
    · rintro ⟨t, ht⟩
      exact ((hl.pairs.chains t p).mp ht).1
  · intro p q hp hq
    exact hl.pairs.once p ((hl.pairs.inTree_iff p).mp hp) q ((hl.pairs.inTree_iff q).mp hq)

/-- **The keys stand for a finite map** in every run in which nobody deletes a key
that is deleted or sets a value of it, and no extension grows the tables of a
single control. -/
theorem keys_refine_map {allocationSize : Nat} {w : Objects.Workspace} {autoExtend : Bool}
    {memory : RBTree.State (Option Nat)} {pair : Nat → Pair} {base poolSize bumpCount : Nat}
    (hhigh : high < 2 ^ 16) (hsize : 0 < allocationSize)
    (hrun : Runs Proper (keyManagerInitialization high allocationSize w autoExtend memory pair base
      poolSize bumpCount) events s) : Refines s :=
  ((consistent_initialization hsize w autoExtend memory pair base poolSize bumpCount).run hhigh
    hrun).refines hhigh

/-- The system after a service, where the loops may make `fuel` turns. -/
def perform (fuel : Nat) (s : System) (e : Event) : System :=
  ((e.run fuel s.keys).map fun (keys, r) => { keys := keys, map := s.map.update e r }).getD s

theorem Runs.perform {ok : System → Event → Prop} {s₀ : System} (hrun : Runs ok s₀ events s)
    (he : e.Enabled s.keys) (hok : ok s e) (fuel : Nat) (hr : (e.run fuel s.keys).isSome) :
    Runs ok s₀ (events ++ [e]) (PosixKeys.perform fuel s e) := by
  obtain ⟨⟨keys, r⟩, hr⟩ := Option.isSome_iff_exists.mp hr
  have hs : PosixKeys.perform fuel s e = { keys := keys, map := s.map.update e r } := by
    unfold PosixKeys.perform
    rw [hr, Option.map_some, Option.getD_some]
  rw [hs]
  exact .snoc hrun he hok ⟨fuel, hr⟩

/-- A single key and a single pair, and no further memory. -/
def oneKey : System :=
  keyManagerInitialization 0x3001 1 (Objects.clearedWorkspace 0) false
    ⟨fun _ => none, fun _ _ => none, fun _ => .black, none⟩
    (fun _ => { key := 0, thread := none, value := 0 }) 0 1 0

def creation : Event := .create ⟨none, none⟩

/-- The thread whose control is at `0x1000` sets a value of the key. -/
def setting : Event := .setspecific ⟨0x1000, by decide, by decide, by decide⟩ 0x30010001 5 none

theorem creation_enabled (keys : Keys) : creation.Enabled keys := nofun

theorem setting_enabled (keys : Keys) : setting.Enabled keys := ⟨by decide, nofun⟩

theorem deletion_enabled (keys : Keys) : (Event.delete 0x30010001).Enabled keys :=
  show 0x30010001 < 2 ^ 32 by decide

/-- Two keys and two pairs, and no further memory. -/
def twoKeys : System :=
  keyManagerInitialization 0x3001 2 (Objects.clearedWorkspace 0) false
    ⟨fun _ => none, fun _ _ => none, fun _ => .black, none⟩
    (fun _ => { key := 0, thread := none, value := 0 }) 0 2 0

/-- A thread whose control is at `0x2000`. -/
def otherThread : Thread := ⟨0x2000, by decide, by decide, by decide⟩

/-- The other thread sets a value of a key. -/
def settingOther (key value : Nat) : Event := .setspecific otherThread key value none

theorem settingOther_enabled {key : Nat} (hkey : key < 2 ^ 32) (value : Nat) (keys : Keys) :
    (settingOther key value).Enabled keys := ⟨hkey, nofun⟩

/-- Two threads set values, each of its own key.  The first key is deleted and
created again, and the other thread sets a value of it. -/
theorem keys_refine_map_set :
    let s := [creation, creation, setting, settingOther 0x30010002 6, .delete 0x30010001, creation,
      settingOther 0x30010001 7].foldl (perform 3) twoKeys
    s.map.value 0x30010001 ⟨0x1000, by decide, by decide, by decide⟩ = 0 ∧
      s.map.value 0x30010001 otherThread = 7 ∧ s.map.value 0x30010002 otherThread = 6 ∧
        Refines s := by
  intro s
  let s₂ := perform 3 (perform 3 twoKeys creation) creation
  let s₄ := perform 3 (perform 3 s₂ setting) (settingOther 0x30010002 6)
  let s₆ := perform 3 (perform 3 s₄ (.delete 0x30010001)) creation
  have hlive₂ : s₂.map.live = [0x30010002, 0x30010001] := by decide +kernel
  have hlive₃ : (perform 3 s₂ setting).map.live = [0x30010002, 0x30010001] := by decide +kernel
  have hlive₄ : s₄.map.live = [0x30010002, 0x30010001] := by decide +kernel
  have hlive₆ : s₆.map.live = [0x30010001, 0x30010002] := by decide +kernel
  have hset₂ : Proper s₂ setting := fun _ _ => by simp [hlive₂]
  have hset₃ : Proper (perform 3 s₂ setting) (settingOther 0x30010002 6) :=
    fun _ _ => by simp [hlive₃]
  have hdelete : Proper s₄ (.delete 0x30010001) := fun _ => by simp [hlive₄]
  have hfixed : (perform 3 s₄ (.delete 0x30010001)).keys.autoExtend ≠ true := by decide +kernel
  have hset₆ : Proper s₆ (settingOther 0x30010001 7) := fun _ _ => by simp [hlive₆]
  have hrun₂ : Runs Proper twoKeys [creation, creation] s₂ :=
    (Runs.nil.perform (creation_enabled _) nofun _ (by decide +kernel)).perform
      (creation_enabled _) nofun _ (by decide +kernel)
  have hrun₄ : Runs Proper twoKeys [creation, creation, setting, settingOther 0x30010002 6] s₄ :=
    (hrun₂.perform (setting_enabled _) hset₂ _ (by decide +kernel)).perform
      (settingOther_enabled (by decide) _ _) hset₃ _ (by decide +kernel)
  have hrun₆ : Runs Proper twoKeys [creation, creation, setting, settingOther 0x30010002 6,
      .delete 0x30010001, creation] s₆ :=
    (hrun₄.perform (deletion_enabled _) hdelete _ (by decide +kernel)).perform
      (creation_enabled _) (fun hauto => absurd hauto hfixed) _ (by decide +kernel)
  have henabled : (settingOther 0x30010001 7).Enabled s₆.keys :=
    settingOther_enabled (by decide) 7 _
  have hrun := hrun₆.perform henabled hset₆ 3 (by decide +kernel)
  have hs : s = perform 3 s₆ (settingOther 0x30010001 7) := by
    simp only [s, s₂, s₄, s₆, List.foldl_cons, List.foldl_nil]
  have hrefines : Refines s := by
    rw [hs]
    exact keys_refine_map (by decide) (by decide) hrun
  exact ⟨by decide +kernel, by decide +kernel, by decide +kernel, hrefines⟩

/-- A value is set of a key that is deleted, and the key that is created next has
this value. -/
theorem keys_refine_map_deleted : ¬ ∀ (high allocationSize : Nat) (w : Objects.Workspace)
    (autoExtend : Bool) (memory : RBTree.State (Option Nat)) (pair : Nat → Pair)
    (base poolSize bumpCount : Nat) (events : List Event) (s : System), high < 2 ^ 16 →
      0 < allocationSize → Runs (fun _ _ => True) (keyManagerInitialization high allocationSize w
        autoExtend memory pair base poolSize bumpCount) events s →
      ∀ key ∈ s.map.live, ∀ t, Returns (getspecific · s.keys t key) (s.map.value key t) := by
  intro hall
  have hrun : Runs (fun _ _ => True) oneKey [creation, .delete 0x30010001, setting, creation] _ :=
    (((Runs.nil.perform (creation_enabled _) trivial 3 (by decide +kernel)).perform
      (deletion_enabled _) trivial 3 (by decide +kernel)).perform
      (setting_enabled _) trivial 3 (by decide +kernel)).perform
      (creation_enabled _) trivial 3 (by decide +kernel)
  have hget := hall _ _ _ _ _ _ _ _ _ _ _ (by decide) (by decide) hrun 0x30010001
    (by decide +kernel) ⟨0x1000, by decide, by decide, by decide⟩
  have hfive : Returns (getspecific · (perform 3 (perform 3 (perform 3 (perform 3 oneKey creation)
      (.delete 0x30010001)) setting) creation).keys ⟨0x1000, by decide, by decide, by decide⟩
      0x30010001) 5 := ⟨3, by decide +kernel⟩
  have heq := Returns.unique (fun n => getspecific_extends n _ _) hget hfive
  exact absurd heq (by decide +kernel)

end Rtems.PosixKeys
