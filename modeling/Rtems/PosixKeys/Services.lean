import Rtems.PosixKeys.Pairs

/-!
# The key services

What each service does to the pairs and to the map that they stand for, when its
loops have enough turns.
-/

namespace Rtems.PosixKeys

open Lib

variable {s s' : Keys} {m : KeyMap} {high key value n fuel : Nat} {t : Thread}
  {l l' : List Nat} {memory : Option Nat}

/-- The pairs hold the values of the map. -/
structure Stored (s : Keys) (high : Nat) (m : KeyMap) (l : List Nat) : Prop where
  pairs : Pairs s high l
  live : ∀ n ∈ l, (s.pair n).key ∈ m.live
  value : ∀ n ∈ l, ∀ t, (s.pair n).thread = some t → m.value (s.pair n).key t = (s.pair n).value
  null : ∀ key ∈ m.live, ∀ t, (∀ n ∈ l, ¬ ((s.pair n).key = key ∧ (s.pair n).thread = some t)) →
    m.value key t = 0

/-! ## Writing pairs -/

theorem rank_congr {a b : Pair} (hkey : a.key = b.key) (ht : a.thread = b.thread) :
    rank a = rank b := by
  unfold rank
  rw [hkey, ht]

/-- The tree does not change with the values of its pairs. -/
theorem lists_congr {pair pair' : Nat → Pair} {tree : RBTree.State (Option Nat)}
    (h : RBTree.Lists (order pair) tree l) (hsame : ∀ p ∈ l, rank (pair' p) = rank (pair p)) :
    RBTree.Lists (order pair') tree l := by
  refine h.congr (order_comparesBy pair') ?_
  refine (h.ordered (order_comparesBy pair)).imp_of_mem ?_
  intro a b ha hb hle
  change rank (pair' a) ≤ rank (pair' b)
  rw [hsame a ha, hsame b hb]
  exact hle

/-- The value of a pair changes. -/
theorem Pairs.setValue (h : Pairs s high l) (hn : n ∈ l) (value : Nat) :
    Pairs { s with pair := Function.update s.pair n { s.pair n with value := value } } high l := by
  have hkey : ∀ p, (Function.update s.pair n { s.pair n with value := value } p).key =
      (s.pair p).key := by
    intro p
    rcases eq_or_ne p n with rfl | hne
    · rw [Function.update_self]
    · rw [Function.update_of_ne hne]
  have hthread : ∀ p, (Function.update s.pair n { s.pair n with value := value } p).thread =
      (s.pair p).thread := by
    intro p
    rcases eq_or_ne p n with rfl | hne
    · rw [Function.update_self]
    · rw [Function.update_of_ne hne]
  exact
    { tree := lists_congr h.tree fun p _ => rank_congr (hkey p) (hthread p)
      chains := by simpa only [hthread] using h.chains
      thread := by simpa only [hthread] using h.thread
      nodup := h.nodup
      keys := by simpa only [hkey] using h.keys
      once := by simpa only [hkey, hthread] using h.once
      pool := h.pool
      outside := h.outside }

/-- The first pair of a pool is taken. -/
def takePair (s : Keys) : List Nat → Keys × Option Nat
  | [] => (s, none)
  | n :: rest => ({ s with keypool := rest }, some n)

/-- The pool has pairs that are not in the tree. -/
theorem Pairs.allocate (h : Pairs s high l)
    (hmemory : ∀ base, memory = some base → ∀ i < s.bumpCount, base + i ∉ l) :
    keyValuePairAllocate s memory = (s, none) ∨
      ∃ n rest, keyValuePairAllocate s memory = ({ s with keypool := rest }, some n) ∧ n ∉ l ∧
        n ∉ rest ∧ Pairs { s with keypool := rest } high l := by
  have hpool : ∃ pool : List Nat, keyValuePairAllocate s memory = takePair s pool ∧
      pool.Nodup ∧ ∀ n ∈ pool, n ∉ l := by
    unfold keyValuePairAllocate takePair
    by_cases hempty : s.keypool = [] ∧ s.bumpCount > 0
    · simp only [if_pos hempty]
      cases hbase : memory with
      | none =>
        refine ⟨[], ?_, List.nodup_nil, fun n hn => absurd hn List.not_mem_nil⟩
        have hsame : ({ s with keypool := [] } : Keys) = s := by rw [← hempty.1]
        simp only [hsame]
      | some base =>
        refine ⟨(List.range s.bumpCount).map (base + ·), ?_, ?_, ?_⟩
        · cases hlist : (List.range s.bumpCount).map (base + ·) with
          | nil =>
            have hcount := congrArg List.length hlist
            rw [List.length_map, List.length_range] at hcount
            exact absurd hcount (Nat.ne_of_gt hempty.2)
          | cons n rest => simp only [hlist]
        · refine List.Nodup.map ?_ List.nodup_range
          intro a b hab
          exact Nat.add_left_cancel hab
        · intro n hn
          obtain ⟨i, hi, rfl⟩ := List.mem_map.mp hn
          exact hmemory base hbase i (List.mem_range.mp hi)
    · simp only [if_neg hempty]
      refine ⟨s.keypool, ?_, h.pool, h.outside⟩
      cases s.keypool <;> rfl
  obtain ⟨pool, hallocate, hnodup, houtside⟩ := hpool
  cases pool with
  | nil => exact .inl hallocate
  | cons n rest =>
    obtain ⟨hnot, hrest⟩ := List.nodup_cons.mp hnodup
    refine .inr ⟨n, rest, hallocate, houtside n List.mem_cons_self, hnot, ?_⟩
    exact
      { tree := h.tree
        chains := h.chains
        thread := h.thread
        nodup := h.nodup
        keys := h.keys
        once := h.once
        pool := hrest
        outside := fun p hp => houtside p (List.mem_cons_of_mem _ hp) }

/-- A new pair is put into the tree. -/
theorem Pairs.insertTree (h : Pairs s high l) (hn : n ∉ l) (hkey : InClass high key)
    (hnone : ∀ p ∈ l, ¬ ((s.pair p).key = key ∧ (s.pair p).thread = some t)) (value : Nat)
    (hfuel : l.length ≤ fuel) :
    let pair := Function.update s.pair n { key := key, thread := some t, value := value }
    ∃ lookupTree, RBTree.insert fuel s.lookupTree none (some n) { s with pair := pair }.compare
        true = some (lookupTree, none) ∧
      RBTree.Lists (order pair) lookupTree (stableInsert (fun b => nodeRank pair (some b)) n l) := by
  intro pair
  have hself : pair n = { key := key, thread := some t, value := value } :=
    Function.update_self ..
  have hold : ∀ p ∈ l, pair p = s.pair p := by
    intro p hp
    refine Function.update_of_ne ?_ ..
    rintro rfl
    exact hn hp
  have htree : RBTree.Lists (order pair) s.lookupTree l :=
    lists_congr h.tree fun p hp => by rw [hold p hp]
  have hcompare : ∀ p ∈ l, (keyValueCompare (pair n) (pair p) < 0 ↔ rank (pair n) < rank (pair p)) ∧
      (keyValueCompare (pair n) (pair p) = 0 ↔ rank (pair n) = rank (pair p)) := by
    intro p hp
    obtain ⟨u, hu⟩ := Option.ne_none_iff_exists'.mp (h.thread p hp)
    rw [hself, hold p hp]
    obtain ⟨hlt, heq, -⟩ := keyValueCompare_rank
      (a := { key := key, thread := some t, value := value }) hkey (h.keys p hp) rfl hu
    exact ⟨hlt, heq⟩
  have hnew : ∀ p ∈ l, rank (pair n) ≠ rank (pair p) := by
    intro p hp hrank
    obtain ⟨u, hu⟩ := Option.ne_none_iff_exists'.mp (h.thread p hp)
    rw [hself, hold p hp] at hrank
    obtain ⟨hk, rfl⟩ :=
      rank_inj (a := { key := key, thread := some t, value := value }) rfl hu hrank
    exact hnone p hp ⟨hk.symm, hu⟩
  have hside : ∀ p ∈ l,
      RBTree.SameSide ({ s with pair := pair } : Keys).compare (order pair) (some n) (some p) := by
    intro p hp
    obtain ⟨hlt, heq⟩ := hcompare p hp
    unfold RBTree.SameSide
    change (keyValueCompare (pair n) (pair p) < 0 ↔
        (rank (pair n) : Int) - rank (pair p) < 0) ∧
      (keyValueCompare (pair n) (pair p) = 0 ↔ (rank (pair n) : Int) - rank (pair p) = 0)
    rw [hlt, heq]
    constructor <;> omega
  exact htree.insertUnique (order_comparesBy pair) hn hside hnew hfuel

/-- The pairs with a new one that is in the tree and on the chain of its thread. -/
theorem Pairs.added {lookupTree : RBTree.State (Option Nat)} {l' : List Nat} {value : Nat}
    (h : Pairs s high l) (hn : n ∉ l) (hpool : n ∉ s.keypool) (hkey : InClass high key)
    (hnone : ∀ p ∈ l, ¬ ((s.pair p).key = key ∧ (s.pair p).thread = some t))
    (htree : RBTree.Lists
      (order (Function.update s.pair n { key := key, thread := some t, value := value })) lookupTree l')
    (hmem : ∀ p, p ∈ l' ↔ p = n ∨ p ∈ l) :
    Pairs { s with
        pair := Function.update s.pair n { key := key, thread := some t, value := value }
        lookupTree := lookupTree
        chain := Function.update s.chain t (s.chain t ++ [n]) } high l' := by
  generalize hpair : Function.update s.pair n { key := key, thread := some t, value := value } = pair
    at htree
  have hself : pair n = { key := key, thread := some t, value := value } := by
    rw [← hpair]
    exact Function.update_self ..
  have hold : ∀ p ∈ l, pair p = s.pair p := by
    intro p hp
    rw [← hpair]
    refine Function.update_of_ne ?_ ..
    rintro rfl
    exact hn hp
  refine
    { tree := htree
      chains := ?_
      thread := ?_
      nodup := ?_
      keys := ?_
      once := ?_
      pool := h.pool
      outside := ?_ }
  · intro u p
    change p ∈ Function.update s.chain t (s.chain t ++ [n]) u ↔ _ ∧ (pair p).thread = some u
    have hchain : p ∈ Function.update s.chain t (s.chain t ++ [n]) u ↔
        p ∈ s.chain u ∨ p = n ∧ u = t := by
      rcases eq_or_ne u t with rfl | hne
      · rw [Function.update_self, List.mem_append, List.mem_singleton]
        simp only [and_true]
      · rw [Function.update_of_ne hne]
        simp only [hne, and_false, or_false]
    rw [hchain, hmem, h.chains u p]
    rcases eq_or_ne p n with rfl | hne
    · rw [hself]
      simp only [hn, false_and, false_or, true_and, true_or, Option.some.injEq]
      exact eq_comm
    · simp only [hne, false_and, or_false, false_or]
      refine and_congr_right fun hp => ?_
      rw [hold p hp]
  · intro p hp
    rcases (hmem p).mp hp with rfl | hp
    · change (pair p).thread ≠ none
      rw [hself]
      exact Option.some_ne_none t
    · change (pair p).thread ≠ none
      rw [hold p hp]
      exact h.thread p hp
  · intro u
    change (Function.update s.chain t (s.chain t ++ [n]) u).Nodup
    rcases eq_or_ne u t with rfl | hne
    · rw [Function.update_self]
      refine (h.nodup u).append (List.nodup_singleton n) ?_
      intro p hp hpn
      rw [List.mem_singleton.mp hpn] at hp
      exact hn ((h.chains u n).mp hp).1
    · rw [Function.update_of_ne hne]
      exact h.nodup u
  · intro p hp
    change InClass high (pair p).key
    rcases (hmem p).mp hp with rfl | hp
    · rw [hself]
      exact hkey
    · rw [hold p hp]
      exact h.keys p hp
  · intro p hp q hq
    change (pair p).key = (pair q).key → (pair p).thread = (pair q).thread → p = q
    rcases (hmem p).mp hp with rfl | hpl
    · rcases (hmem q).mp hq with rfl | hql
      · intro _ _
        rfl
      · rw [hself, hold q hql]
        intro hk hu
        exact absurd ⟨hk.symm, hu.symm⟩ (hnone q hql)
    · rw [hold p hpl]
      rcases (hmem q).mp hq with rfl | hql
      · rw [hself]
        intro hk hu
        exact absurd ⟨hk, hu⟩ (hnone p hpl)
      · rw [hold q hql]
        exact h.once p hpl q hql
  · intro p hp hpl
    rcases (hmem p).mp hpl with rfl | hpl
    · exact hpool hp
    · exact h.outside p hp hpl

/-- A new pair is put into the tree and on the chain of its thread. -/
theorem Pairs.insert (h : Pairs s high l) (hn : n ∉ l) (hpool : n ∉ s.keypool)
    (hkey : InClass high key)
    (hnone : ∀ p ∈ l, ¬ ((s.pair p).key = key ∧ (s.pair p).thread = some t)) (value : Nat)
    (hfuel : l.length ≤ fuel) :
    let pair := Function.update s.pair n { key := key, thread := some t, value := value }
    ∃ lookupTree l', RBTree.insert fuel s.lookupTree none (some n) { s with pair := pair }.compare
        true = some (lookupTree, none) ∧ (∀ p, p ∈ l' ↔ p = n ∨ p ∈ l) ∧
      Pairs { s with
          pair := pair
          lookupTree := lookupTree
          chain := Function.update s.chain t (s.chain t ++ [n]) } high l' := by
  intro pair
  obtain ⟨lookupTree, hinsert, htree⟩ := h.insertTree hn hkey hnone value hfuel
  have hmem : ∀ p, p ∈ stableInsert (fun b => nodeRank pair (some b)) n l ↔ p = n ∨ p ∈ l :=
    fun p => mem_stableInsert
  exact ⟨lookupTree, _, hinsert, hmem, h.added hn hpool hkey hnone htree hmem⟩

/-! ## The map -/

/-- The pair of a key and a thread is written. -/
theorem Stored.write (h : Stored s high m l) (hpairs : Pairs s' high l')
    (hmem : ∀ p, p ∈ l' ↔ p = n ∨ p ∈ l)
    (hnew : s'.pair n = { key := key, thread := some t, value := value })
    (hold : ∀ p ∈ l, p ≠ n → s'.pair p = s.pair p)
    (hother : ∀ p ∈ l, p ≠ n → ¬ ((s.pair p).key = key ∧ (s.pair p).thread = some t))
    (hgone : n ∈ l → (s.pair n).key = key ∧ (s.pair n).thread = some t) (hlive : key ∈ m.live) :
    Stored s' high (m.update (.setspecific t key value memory) (.errno .success)) l' := by
  have hcases : ∀ p ∈ l', p = n ∨ p ≠ n ∧ p ∈ l := by
    intro p hp
    rcases eq_or_ne p n with heq | hne
    · exact .inl heq
    · exact .inr ⟨hne, ((hmem p).mp hp).resolve_left hne⟩
  have hupdate : ∀ k u, ¬ (k = key ∧ u = t) →
      (m.update (.setspecific t key value memory) (.errno .success)).value k u = m.value k u := by
    intro k u hne
    change Function.update m.value key (Function.update (m.value key) t value) k u = _
    rcases eq_or_ne k key with rfl | hk
    · rw [Function.update_self, Function.update_of_ne fun hu => hne ⟨rfl, hu⟩]
    · rw [Function.update_of_ne hk]
  refine { pairs := hpairs, live := ?_, value := ?_, null := ?_ }
  · intro p hp
    rcases hcases p hp with rfl | ⟨hne, hpl⟩
    · rw [hnew]
      exact hlive
    · rw [hold p hpl hne]
      exact h.live p hpl
  · intro p hp u hu
    rcases hcases p hp with rfl | ⟨hne, hpl⟩
    · rw [hnew] at hu ⊢
      cases hu
      change Function.update m.value key (Function.update (m.value key) t value) key t = _
      rw [Function.update_self, Function.update_self]
    · rw [hold p hpl hne] at hu ⊢
      rw [hupdate]
      · exact h.value p hpl u hu
      · rintro ⟨hk, rfl⟩
        exact hother p hpl hne ⟨hk, hu⟩
  · intro k hk u hnone
    have hdiff : ¬ (k = key ∧ u = t) := by
      rintro ⟨rfl, rfl⟩
      refine hnone n ((hmem n).mpr (.inl rfl)) ?_
      rw [hnew]
      exact ⟨rfl, rfl⟩
    rw [hupdate k u hdiff]
    refine h.null k hk u ?_
    intro p hp hfound
    rcases eq_or_ne p n with rfl | hne
    · obtain ⟨hkey, ht⟩ := hgone hp
      exact hdiff ⟨hfound.1.symm.trans hkey, Option.some.inj (hfound.2.symm.trans ht)⟩
    · refine hnone p ((hmem p).mpr (.inr hp)) ?_
      rw [hold p hp hne]
      exact hfound

/-- The pair of a key and a thread is deleted. -/
theorem Stored.erase (h : Stored s high m l) (hpairs : Pairs s' high l')
    (hmem : ∀ p, p ∈ l' ↔ p ∈ l ∧ ¬ ((s.pair p).key = key ∧ (s.pair p).thread = some t))
    (hpair : s'.pair = s.pair) :
    Stored s' high (m.update (.setspecific t key 0 memory) (.errno .success)) l' := by
  have hupdate : ∀ k u, ¬ (k = key ∧ u = t) →
      (m.update (.setspecific t key 0 memory) (.errno .success)).value k u = m.value k u := by
    intro k u hne
    change Function.update m.value key (Function.update (m.value key) t 0) k u = _
    rcases eq_or_ne k key with rfl | hk
    · rw [Function.update_self, Function.update_of_ne fun hu => hne ⟨rfl, hu⟩]
    · rw [Function.update_of_ne hk]
  refine { pairs := hpairs, live := ?_, value := ?_, null := ?_ }
  · intro p hp
    rw [hpair]
    exact h.live p ((hmem p).mp hp).1
  · intro p hp u hu
    obtain ⟨hpl, hne⟩ := (hmem p).mp hp
    rw [hpair] at hu ⊢
    rw [hupdate]
    · exact h.value p hpl u hu
    · rintro ⟨hk, rfl⟩
      exact hne ⟨hk, hu⟩
  · intro k hk u hnone
    by_cases hsame : k = key ∧ u = t
    · obtain ⟨rfl, rfl⟩ := hsame
      change Function.update m.value k (Function.update (m.value k) u 0) k u = 0
      rw [Function.update_self, Function.update_self]
    · rw [hupdate k u hsame]
      refine h.null k hk u ?_
      intro p hp hfound
      refine hnone p ((hmem p).mpr ⟨hp, ?_⟩) ?_
      · rintro ⟨hkey, ht⟩
        exact hsame ⟨hfound.1.symm.trans hkey, Option.some.inj (hfound.2.symm.trans ht)⟩
      · rw [hpair]
        exact hfound

/-- A new key has no pairs. -/
theorem Stored.create (h : Stored s high m l) (hpairs : Pairs s' high l) (hpair : s'.pair = s.pair)
    (hkey : key ∉ m.live) (w : Objects.Workspace) :
    Stored s' high (m.update (.create w) (.created (some key))) l := by
  have hupdate : ∀ k, k ≠ key → ∀ u,
      (m.update (.create w) (.created (some key))).value k u = m.value k u := by
    intro k hne u
    exact congrFun (Function.update_of_ne hne ..) u
  refine { pairs := hpairs, live := ?_, value := ?_, null := ?_ }
  · intro p hp
    rw [hpair]
    exact List.mem_cons_of_mem _ (h.live p hp)
  · intro p hp u hu
    rw [hpair] at hu ⊢
    rw [hupdate _ fun heq => hkey (heq ▸ h.live p hp)]
    exact h.value p hp u hu
  · intro k hk u hnone
    rw [hpair] at hnone
    rcases eq_or_ne k key with rfl | hne
    · change Function.update m.value k (fun _ => 0) k u = 0
      rw [Function.update_self]
    · rw [hupdate k hne]
      exact h.null k ((List.mem_cons.mp hk).resolve_left hne) u hnone

/-- The pairs of a key are deleted with it. -/
theorem Stored.delete (h : Stored s high m l)
    (hpairs : Pairs s' high (l.filter fun n => decide ((s.pair n).key ≠ key)))
    (hpair : s'.pair = s.pair) :
    Stored s' high (m.update (.delete key) (.errno .success))
      (l.filter fun n => decide ((s.pair n).key ≠ key)) := by
  refine { pairs := hpairs, live := ?_, value := ?_, null := ?_ }
  · intro p hp
    obtain ⟨hpl, hne⟩ := List.mem_filter.mp hp
    rw [hpair]
    exact List.mem_filter.mpr ⟨h.live p hpl, hne⟩
  · intro p hp u hu
    rw [hpair] at hu ⊢
    exact h.value p (List.mem_filter.mp hp).1 u hu
  · intro k hk u hnone
    obtain ⟨hlive, hne⟩ := List.mem_filter.mp hk
    refine h.null k hlive u ?_
    rintro p hp ⟨rfl, hu⟩
    refine hnone p (List.mem_filter.mpr ⟨hp, hne⟩) ?_
    rw [hpair]
    exact ⟨rfl, hu⟩

/-! ## The services -/

/-- `pthread_setspecific` of a value. -/
theorem Stored.setValue (h : Stored s high m l) (value : Nat) (hclass : InClass high key)
    (hlive : key ∈ m.live)
    (hmemory : ∀ base, memory = some base → ∀ i < s.bumpCount, base + i ∉ l)
    {rbNode : Option Nat} (hfound : find fuel s key (some t) = some rbNode)
    (hfuel : l.length ≤ fuel) :
    ∃ s' e l', setValue fuel s key value t rbNode memory = some (s', e) ∧
      s'.information = s.information ∧ s'.autoExtend = s.autoExtend ∧
      Stored s' high (m.update (.setspecific t key value memory) (.errno e)) l' := by
  obtain ⟨r, hfind, hspec⟩ := h.pairs.find hclass t hfuel
  obtain rfl := Option.some.inj (hfound.symm.trans hfind)
  rcases hspec with ⟨rfl, hnone⟩ | ⟨n, hn, hkey, ht, rfl⟩
  · unfold PosixKeys.setValue
    rcases h.pairs.allocate hmemory with hfull | ⟨n, rest, hallocate, hn, hrest, hpairs⟩
    · rw [hfull]
      exact ⟨s, .enomem, l, rfl, rfl, rfl, h⟩
    · obtain ⟨lookupTree, l', hinsert, hmem, hpairs'⟩ :=
        hpairs.insert hn hrest hclass hnone value hfuel
      rw [hallocate]
      simp only [hinsert]
      refine ⟨_, .success, l', rfl, rfl, rfl, ?_⟩
      refine h.write hpairs' hmem (Function.update_self ..) ?_ ?_ ?_ hlive
      · intro p _ hne
        exact Function.update_of_ne hne ..
      · exact fun p hp _ => hnone p hp
      · exact fun hnl => absurd hnl hn
  · refine ⟨_, .success, l, rfl, rfl, rfl, ?_⟩
    refine h.write (n := n) (h.pairs.setValue hn value) ?_ ?_ ?_ ?_ ?_ hlive
    · intro p
      constructor
      · exact .inr
      · rintro (rfl | hp)
        · exact hn
        · exact hp
    · change Function.update s.pair n { s.pair n with value := value } n = _
      rw [Function.update_self, ← hkey, ← ht]
    · intro p _ hne
      exact Function.update_of_ne hne ..
    · rintro p hp hne ⟨hk, hu⟩
      exact hne (h.pairs.once p hp n hn (hk.trans hkey.symm) (hu.trans ht.symm))
    · exact fun _ => ⟨hkey, ht⟩

/-- `pthread_setspecific` of `NULL`. -/
theorem Stored.deleteValue (h : Stored s high m l) (memory : Option Nat) (hclass : InClass high key)
    {rbNode : Option Nat} (hfound : find fuel s key (some t) = some rbNode)
    (hfuel : l.length ≤ fuel) :
    ∃ s' l', deleteValue fuel s rbNode = some (s', .success) ∧
      s'.information = s.information ∧ s'.autoExtend = s.autoExtend ∧
      Stored s' high (m.update (.setspecific t key 0 memory) (.errno .success)) l' := by
  obtain ⟨r, hfind, hspec⟩ := h.pairs.find hclass t hfuel
  obtain rfl := Option.some.inj (hfound.symm.trans hfind)
  rcases hspec with ⟨rfl, hnone⟩ | ⟨n, hn, hkey, ht, rfl⟩
  · refine ⟨s, l, rfl, rfl, rfl, h.erase h.pairs ?_ rfl⟩
    exact fun p => ⟨fun hp => ⟨hp, hnone p hp⟩, And.left⟩
  · obtain ⟨lookupTree, hfree, hpairs⟩ := h.pairs.freePair hn hfuel
    unfold PosixKeys.deleteValue
    simp only [hfree]
    refine ⟨_, l.erase n, rfl, rfl, rfl, h.erase hpairs ?_ rfl⟩
    intro p
    rw [h.pairs.tree.nodup.mem_erase_iff, and_comm]
    refine and_congr_right fun hp => not_congr ?_
    constructor
    · rintro rfl
      exact ⟨hkey, ht⟩
    · rintro ⟨hk, hu⟩
      exact h.pairs.once p hp n hn (hk.trans hkey.symm) (hu.trans ht.symm)

/-- `pthread_setspecific`. -/
theorem Stored.setspecific (h : Stored s high m l)
    (hc : Controls s.information s.autoExtend high m.live) (hhigh : high < 2 ^ 16)
    (hkey : key < 2 ^ 32)
    (hmemory : ∀ base, memory = some base → ∀ i < s.bumpCount, base + i ∉ l)
    (hproper : value ≠ 0 → Objects.get s.information key ≠ none → key ∈ m.live)
    (hfuel : l.length ≤ fuel) :
    ∃ s' e l', setspecific fuel s t key value memory = some (s', e) ∧
      s'.information = s.information ∧ s'.autoExtend = s.autoExtend ∧
      Stored s' high (m.update (.setspecific t key value memory) (.errno e)) l' := by
  cases hget : Objects.get s.information key with
  | none => exact ⟨s, .einval, l, setspecific_none hget, rfl, rfl, h⟩
  | some o =>
    have hsome : Objects.get s.information key ≠ none := by
      rw [hget]
      exact Option.some_ne_none o
    have hclass := hc.inClass hhigh hkey hsome
    obtain ⟨r, hfind, -⟩ := h.pairs.find hclass t hfuel
    rw [setspecific_some hget, hfind, Option.bind_some]
    by_cases hvalue : value ≠ 0
    · obtain ⟨s', e, l', hset, hrest⟩ :=
        h.setValue value hclass (hproper hvalue hsome) hmemory hfind hfuel
      refine ⟨s', e, l', ?_, hrest⟩
      rw [if_pos hvalue, hset]
    · obtain ⟨s', l', hdelete, hrest⟩ := h.deleteValue memory hclass hfind hfuel
      rw [ne_eq, not_not] at hvalue
      subst hvalue
      refine ⟨s', .success, l', ?_, hrest⟩
      rw [if_neg (not_not_intro rfl), hdelete]

/-- `pthread_getspecific`. -/
theorem Stored.getspecific (h : Stored s high m l)
    (hc : Controls s.information s.autoExtend high m.live) (hhigh : high < 2 ^ 16)
    (hkey : key < 2 ^ 32) (hfuel : l.length ≤ fuel) :
    ∃ v, getspecific fuel s t key = some v ∧ (key ∈ m.live → v = m.value key t) := by
  cases hget : Objects.get s.information key with
  | none => exact ⟨0, getspecific_none hget, fun hlive => absurd hget (hc.get hlive)⟩
  | some o =>
    have hsome : Objects.get s.information key ≠ none := by
      rw [hget]
      exact Option.some_ne_none o
    obtain ⟨r, hfind, hspec⟩ := h.pairs.find (hc.inClass hhigh hkey hsome) t hfuel
    rw [getspecific_some hget, hfind]
    rcases hspec with ⟨rfl, hnone⟩ | ⟨n, hn, rfl, ht, rfl⟩
    · exact ⟨0, rfl, fun hlive => (h.null key hlive t hnone).symm⟩
    · exact ⟨_, rfl, fun _ => (h.value n hn t ht).symm⟩

/-- `pthread_key_delete` of a live key. -/
theorem Stored.keyDelete (h : Stored s high m l)
    (hc : Controls s.information s.autoExtend high m.live) (hkey : key ∈ m.live)
    (hfuel : l.length < fuel) :
    ∃ s', keyDelete fuel s key = some (s', .success) ∧
      Controls s'.information s'.autoExtend high (m.live.filter (· ≠ key)) ∧ s'.pair = s.pair ∧
      (∀ t, s'.chain t = (s.chain t).filter fun p => decide ((s.pair p).key ≠ key)) ∧
      Stored s' high (m.update (.delete key) (.errno .success))
        (l.filter fun n => decide ((s.pair n).key ≠ key)) := by
  obtain ⟨o, hget, hid, hcontrols⟩ := hc.delete hkey
  obtain ⟨lookupTree, keypool, hfree, hpairs⟩ :=
    h.pairs.freeMemory (hc.class_of_live hkey) hfuel
  rw [keyDelete_some hget, hid, hfree]
  refine ⟨_, rfl, hcontrols, rfl, fun _ => rfl, h.delete ?_ rfl⟩
  exact
    { tree := hpairs.tree
      chains := hpairs.chains
      thread := hpairs.thread
      nodup := hpairs.nodup
      keys := hpairs.keys
      once := hpairs.once
      pool := hpairs.pool
      outside := hpairs.outside }

end Rtems.PosixKeys
