import Rtems.PosixKeys.Controls

/-!
# The pairs

The lookup tree lists the pairs by key and thread, and each pair is on the chain of
its thread.  The searches find what they look for in this order, and the walks over
equal keys go over a row of it.
-/

namespace Rtems.PosixKeys

variable {s : Keys} {pair : Nat → Pair} {high key k n p q fuel : Nat} {t u : Thread}
  {l as bs cs : List Nat}

/-! ## The comparison -/

/-- The position of a pair in the tree. -/
@[irreducible] def rank (p : Pair) : Nat := p.key * 2 ^ 31 + (p.thread.map fun t => t.addr / 2).getD 0

def nodeRank (pair : Nat → Pair) (x : Option Nat) : Nat := (x.map fun n => rank (pair n)).getD 0

def order (pair : Nat → Pair) : RBTree.Compare (Option Nat) :=
  fun x y => (nodeRank pair x : Int) - nodeRank pair y

theorem order_comparesBy (pair : Nat → Pair) : RBTree.ComparesBy (order pair) (nodeRank pair) where
  nonpos x y := by
    unfold order
    omega
  nonneg x y := by
    unfold order
    omega

theorem toResult_eq {x : Int} (hlow : -2 ^ 31 ≤ x) (hhigh : x < 2 ^ 31) : toResult x = x :=
  Int.bmod_eq_of_le_mul_two (by omega) (by omega)

theorem toResult_class {key' : Nat} (h : InClass high key) (h' : InClass high key') :
    toResult ((key : Int) - key') = (key : Int) - key' := by
  obtain ⟨i, hi, rfl⟩ := h
  obtain ⟨j, hj, rfl⟩ := h'
  unfold Objects.buildId
  exact toResult_eq (by omega) (by omega)

theorem Thread.half_lt (t : Thread) : t.addr / 2 < 2 ^ 31 := by
  have hbound := t.bound
  omega

theorem Thread.half_inj (h : t.addr / 2 = u.addr / 2) : t = u := by
  have ht := t.even
  have hu := u.even
  cases t
  cases u
  simp only at h ht hu
  have haddr := h
  congr 1
  omega

/-- Pairs of threads are compared by their ranks. -/
theorem keyValueCompare_rank {a b : Pair} (hclass : InClass high a.key)
    (hclass' : InClass high b.key) (ht : a.thread = some t) (hu : b.thread = some u) :
    (keyValueCompare a b < 0 ↔ rank a < rank b) ∧ (keyValueCompare a b = 0 ↔ rank a = rank b) ∧
      (0 < keyValueCompare a b ↔ rank b < rank a) := by
  have hhalf := t.half_lt
  have hhalf' := u.half_lt
  have hthread : toResult (((t.addr >>> 1 : Nat) : Int) - (u.addr >>> 1 : Nat)) =
      ((t.addr / 2 : Nat) : Int) - (u.addr / 2 : Nat) := by
    rw [Nat.shiftRight_one, Nat.shiftRight_one]
    exact toResult_eq (by omega) (by omega)
  unfold keyValueCompare rank
  rw [toResult_class hclass hclass', ht, hu]
  simp only [hthread, Option.map_some, Option.getD_some]
  split
  next hne => omega
  next heq => omega

/-- A search for a key alone compares the keys. -/
theorem keyValueCompare_key {a b : Pair} (hclass : InClass high a.key)
    (hclass' : InClass high b.key) (ht : a.thread = none) :
    keyValueCompare a b = (a.key : Int) - b.key := by
  unfold keyValueCompare
  rw [toResult_class hclass hclass', ht]
  simp only
  split
  next hne => rfl
  next heq => omega

/-- Pairs with the same rank have the same key and thread. -/
theorem rank_inj {a b : Pair} (ht : a.thread = some t) (hu : b.thread = some u)
    (h : rank a = rank b) : a.key = b.key ∧ t = u := by
  have hhalf := t.half_lt
  have hhalf' := u.half_lt
  unfold rank at h
  rw [ht, hu] at h
  simp only [Option.map_some, Option.getD_some] at h
  exact ⟨by omega, Thread.half_inj (by omega)⟩

/-! ## The pairs of a state -/

/-- The pairs in the order of the lookup tree. -/
structure Pairs (s : Keys) (high : Nat) (l : List Nat) : Prop where
  tree : RBTree.Lists (order s.pair) s.lookupTree l
  chains : ∀ t n, n ∈ s.chain t ↔ n ∈ l ∧ (s.pair n).thread = some t
  thread : ∀ n ∈ l, (s.pair n).thread ≠ none
  nodup : ∀ t, (s.chain t).Nodup
  keys : ∀ n ∈ l, InClass high (s.pair n).key
  once : ∀ p ∈ l, ∀ q ∈ l, (s.pair p).key = (s.pair q).key →
    (s.pair p).thread = (s.pair q).thread → p = q
  pool : s.keypool.Nodup
  outside : ∀ n ∈ s.keypool, n ∉ l

theorem Pairs.ordered (h : Pairs s high l) :
    l.Pairwise fun a b => rank (s.pair a) ≤ rank (s.pair b) :=
  h.tree.ordered (order_comparesBy s.pair)

theorem Pairs.orderedKeys (h : Pairs s high l) :
    l.Pairwise fun a b => (s.pair a).key ≤ (s.pair b).key := by
  refine h.ordered.imp_of_mem ?_
  intro a b ha hb hle
  obtain ⟨t, ht⟩ := Option.ne_none_iff_exists'.mp (h.thread a ha)
  obtain ⟨u, hu⟩ := Option.ne_none_iff_exists'.mp (h.thread b hb)
  have hhalf := t.half_lt
  have hhalf' := u.half_lt
  unfold rank at hle
  rw [ht, hu] at hle
  simp only [Option.map_some, Option.getD_some] at hle
  omega

/-! ## Searches -/

/-- The search for a key and a thread. -/
theorem Pairs.find (h : Pairs s high l) (hkey : InClass high key) (t : Thread)
    (hfuel : l.length ≤ fuel) :
    ∃ r, find fuel s key (some t) = some r ∧
      ((r = none ∧ ∀ n ∈ l, ¬ ((s.pair n).key = key ∧ (s.pair n).thread = some t)) ∨
        ∃ n ∈ l, (s.pair n).key = key ∧ (s.pair n).thread = some t ∧ r = some n) := by
  generalize hnode : ({ key := key, thread := some t, value := 0 } : Pair) = node
  have hnodeKey : node.key = key := by rw [← hnode]
  have hnodeThread : node.thread = some t := by rw [← hnode]
  have hcompare : ∀ n ∈ l, (keyValueCompare node (s.pair n) < 0 ↔ rank node < rank (s.pair n)) ∧
      (keyValueCompare node (s.pair n) = 0 ↔ rank node = rank (s.pair n)) ∧
      (0 < keyValueCompare node (s.pair n) ↔ rank (s.pair n) < rank node) := by
    intro n hn
    obtain ⟨u, hu⟩ := Option.ne_none_iff_exists'.mp (h.thread n hn)
    exact keyValueCompare_rank (hnodeKey ▸ hkey) (h.keys n hn) hnodeThread hu
  have hdirects : l.Pairwise fun a b =>
      (keyValueCompare node (s.pair a) < 0 → keyValueCompare node (s.pair b) < 0) ∧
      (0 < keyValueCompare node (s.pair b) → 0 < keyValueCompare node (s.pair a)) := by
    refine h.ordered.imp_of_mem ?_
    intro a b ha hb hle
    rw [(hcompare a ha).1, (hcompare b hb).1, (hcompare a ha).2.2, (hcompare b hb).2.2]
    omega
  obtain ⟨r, hr, hspec⟩ := h.tree.find
    (fun n => (n.map fun n => keyValueCompare node (s.pair n)).getD 0) hdirects hfuel
  refine ⟨r.join, ?_, ?_⟩
  · unfold PosixKeys.find
    simp only [hnode]
    rw [hr]
    rfl
  · rcases hspec with ⟨rfl, hall⟩ | ⟨n, hn, hzero, rfl⟩
    · refine .inl ⟨rfl, ?_⟩
      rintro n hn ⟨hk, ht⟩
      refine hall n hn ((hcompare n hn).2.1.mpr ?_)
      unfold rank
      rw [hnodeKey, hnodeThread, hk, ht]
    · obtain ⟨u, hu⟩ := Option.ne_none_iff_exists'.mp (h.thread n hn)
      obtain ⟨hk, rfl⟩ := rank_inj hnodeThread hu ((hcompare n hn).2.1.mp hzero)
      exact .inr ⟨n, hn, hk.symm.trans hnodeKey, hu, rfl⟩

/-- The search for a key alone finds any of its pairs. -/
theorem Pairs.findKey (h : Pairs s high l) (hkey : InClass high key) (hfuel : l.length ≤ fuel) :
    ∃ r, PosixKeys.find fuel s key none = some r ∧
      ((r = none ∧ ∀ n ∈ l, (s.pair n).key ≠ key) ∨
        ∃ n ∈ l, (s.pair n).key = key ∧ r = some n) := by
  generalize hnode : ({ key := key, thread := none, value := 0 } : Pair) = node
  have hnodeKey : node.key = key := by rw [← hnode]
  have hnodeThread : node.thread = none := by rw [← hnode]
  have hcompare : ∀ n ∈ l, keyValueCompare node (s.pair n) = (key : Int) - (s.pair n).key := by
    intro n hn
    rw [← hnodeKey]
    exact keyValueCompare_key (hnodeKey ▸ hkey) (h.keys n hn) hnodeThread
  have hdirects : l.Pairwise fun a b =>
      (keyValueCompare node (s.pair a) < 0 → keyValueCompare node (s.pair b) < 0) ∧
      (0 < keyValueCompare node (s.pair b) → 0 < keyValueCompare node (s.pair a)) := by
    refine h.orderedKeys.imp_of_mem ?_
    intro a b ha hb hle
    rw [hcompare a ha, hcompare b hb]
    omega
  obtain ⟨r, hr, hspec⟩ := h.tree.find
    (fun n => (n.map fun n => keyValueCompare node (s.pair n)).getD 0) hdirects hfuel
  refine ⟨r.join, ?_, ?_⟩
  · unfold PosixKeys.find
    simp only [hnode]
    rw [hr]
    rfl
  · rcases hspec with ⟨rfl, hall⟩ | ⟨n, hn, hzero, rfl⟩
    · refine .inl ⟨rfl, ?_⟩
      intro n hn hk
      refine hall n hn ((hcompare n hn).trans ?_)
      omega
    · refine .inr ⟨n, hn, ?_, rfl⟩
      have hk := (hcompare n hn).symm.trans hzero
      omega

/-! ## Deleting pairs -/

/-- A pair is taken out of the tree and of its chain. -/
theorem Pairs.freePair (h : Pairs s high l) (hn : n ∈ l) (hfuel : l.length ≤ fuel) :
    ∃ lookupTree, freeKeyValuePair fuel s n =
        some { s with
          lookupTree := lookupTree
          chain := fun t => (s.chain t).erase n
          keypool := n :: s.keypool } ∧
      Pairs { s with
          lookupTree := lookupTree
          chain := fun t => (s.chain t).erase n
          keypool := n :: s.keypool } high (l.erase n) := by
  have hnodup := h.tree.nodup
  obtain ⟨lookupTree, hextract, htree⟩ := h.tree.extractOf hn hfuel
  have hmem : ∀ m, m ∈ l.erase n ↔ m ≠ n ∧ m ∈ l := fun m => hnodup.mem_erase_iff
  refine ⟨lookupTree, ?_, ?_⟩
  · unfold freeKeyValuePair
    rw [hextract]
    rfl
  · refine
      { tree := htree
        chains := ?_
        thread := fun m hm => h.thread m ((hmem m).mp hm).2
        nodup := fun t => (h.nodup t).erase n
        keys := fun m hm => h.keys m ((hmem m).mp hm).2
        once := fun p hp q hq => h.once p ((hmem p).mp hp).2 q ((hmem q).mp hq).2
        pool := ?_
        outside := ?_ }
    · intro t m
      show m ∈ (s.chain t).erase n ↔ m ∈ l.erase n ∧ (s.pair m).thread = some t
      rw [(h.nodup t).mem_erase_iff, hmem, h.chains t m, and_assoc]
    · exact List.nodup_cons.mpr ⟨fun hpool => h.outside n hpool hn, h.pool⟩
    · intro m hm hml
      rcases List.mem_cons.mp hm with rfl | hm
      · exact ((hmem m).mp hml).1 rfl
      · exact h.outside m hm ((hmem m).mp hml).2

/-- The walk to the left ends at the first pair of the row. -/
theorem Pairs.smallest (h : Pairs s high l) (hl : l = as ++ bs ++ n :: cs)
    (hbs : ∀ b ∈ bs, (s.pair b).key = key) (has : ∀ a, as.getLast? = some a → (s.pair a).key ≠ key)
    (hk : bs.length < k) (hfuel : l.length ≤ fuel) :
    smallest fuel s key k n = (bs ++ [n]).head? := by
  induction bs using List.reverseRecOn generalizing n cs k with
  | nil =>
    cases k with
    | zero => cases hk
    | succ k =>
      rw [List.append_nil] at hl
      have hleft := (RBTree.Lists.next (hl ▸ h.tree) (hl ▸ hfuel)).2
      unfold PosixKeys.smallest
      rw [hleft]
      cases hlast : as.getLast? with
      | none => rfl
      | some a => exact if_neg (has a hlast)
  | append_singleton bs b ih =>
    cases k with
    | zero => cases hk
    | succ k =>
      have hleft := (RBTree.Lists.next (hl ▸ h.tree) (hl ▸ hfuel)).2
      have hlast : (as ++ (bs ++ [b])).getLast? = some b := by
        rw [← List.append_assoc, List.getLast?_concat]
      have hb : (s.pair b).key = key := hbs b (List.mem_append_right _ List.mem_cons_self)
      have hl' : l = as ++ bs ++ b :: (n :: cs) := by
        rw [hl]
        simp only [List.append_assoc, List.singleton_append]
      have hlen : bs.length < k := by
        rw [List.length_append, List.length_singleton] at hk
        omega
      have hrec := ih hl' (fun c hc => hbs c (List.mem_append_left _ hc)) hlen
      unfold PosixKeys.smallest
      rw [hleft, hlast]
      refine (if_pos hb).trans (hrec.trans ?_)
      cases bs with
      | nil => rfl
      | cons c bs => rfl

/-- The walk to the right deletes the row. -/
theorem Pairs.deleteAll (h : Pairs s high (as ++ bs ++ cs)) (hbs : ∀ b ∈ bs, (s.pair b).key = key)
    (hcs : ∀ c, cs.head? = some c → (s.pair c).key ≠ key) (hk : bs.length < k)
    (hfuel : (as ++ bs ++ cs).length ≤ fuel) :
    ∃ lookupTree keypool, deleteAll fuel key k s (bs ++ cs).head? =
        some { s with
          lookupTree := lookupTree
          chain := fun t => (s.chain t).filter fun n => decide (n ∉ bs)
          keypool := keypool } ∧
      Pairs { s with
          lookupTree := lookupTree
          chain := fun t => (s.chain t).filter fun n => decide (n ∉ bs)
          keypool := keypool } high (as ++ cs) := by
  induction bs generalizing s k with
  | nil =>
    have hchain : (fun t => (s.chain t).filter fun n => decide (n ∉ ([] : List Nat))) =
        s.chain := by
      funext t
      exact List.filter_eq_self.mpr fun n _ => decide_eq_true List.not_mem_nil
    have hend : PosixKeys.deleteAll fuel key k s cs.head? = some s := by
      cases k with
      | zero => cases hk
      | succ k =>
        cases hhead : cs.head? with
        | none => rfl
        | some c => exact if_neg (hcs c hhead)
    rw [List.append_nil] at h
    refine ⟨s.lookupTree, s.keypool, ?_, ?_⟩
    · rw [List.nil_append, hend, hchain]
    · rw [hchain]
      exact h
  | cons b bs ih =>
    cases k with
    | zero => cases hk
    | succ k =>
      have hl : as ++ (b :: bs) ++ cs = as ++ b :: (bs ++ cs) := by
        rw [List.append_assoc, List.cons_append]
      rw [hl] at h hfuel
      have hnodup := h.tree.nodup
      have hright := (RBTree.Lists.next h.tree hfuel).1
      have hmem : b ∈ as ++ b :: (bs ++ cs) := List.mem_append_right _ List.mem_cons_self
      obtain ⟨tree', hfree, h'⟩ := h.freePair hmem hfuel
      have herase : (as ++ b :: (bs ++ cs)).erase b = as ++ bs ++ cs := by
        have hnot : b ∉ as := by
          intro hb
          exact (List.nodup_append.mp hnodup).2.2 b hb b List.mem_cons_self rfl
        rw [List.erase_append_right _ hnot, List.erase_cons_head, List.append_assoc]
      rw [herase] at h'
      have hlen : (as ++ bs ++ cs).length ≤ fuel := by
        simp only [List.length_append, List.length_cons] at hfuel ⊢
        omega
      obtain ⟨tree'', pool, hrest, hpairs⟩ := ih h'
        (fun c hc => hbs c (List.mem_cons_of_mem _ hc)) hcs (Nat.lt_of_succ_lt_succ hk) hlen
      have hchain : (fun t => ((s.chain t).erase b).filter fun n => decide (n ∉ bs)) =
          fun t => (s.chain t).filter fun n => decide (n ∉ b :: bs) := by
        funext t
        rw [(h.nodup t).erase_eq_filter, List.filter_filter]
        refine List.filter_congr ?_
        intro n _
        rw [Bool.eq_iff_iff]
        simp [and_comm]
      simp only [hchain] at hrest hpairs
      refine ⟨tree'', pool, ?_, hpairs⟩
      have hb : (s.pair b).key = key := hbs b List.mem_cons_self
      have hjoin : ((bs ++ cs).head?.map some).join = (bs ++ cs).head? := by
        cases (bs ++ cs).head? <;> rfl
      refine Eq.trans (b := PosixKeys.deleteAll fuel key k _ (bs ++ cs).head?) ?_ hrest
      show PosixKeys.deleteAll fuel key (k + 1) s (some b) = _
      rw [PosixKeys.deleteAll, if_pos hb, hright, hfree]
      simp only [Option.bind_eq_bind, Option.bind_some, hjoin]

/-- In the order of the keys those of one key are in a row. -/
theorem ordered_split {f : Nat → Nat} (h : l.Pairwise fun a b => f a ≤ f b) (k : Nat) :
    l = l.filter (f · < k) ++ l.filter (f · = k) ++ l.filter (k < f ·) := by
  induction l with
  | nil => rfl
  | cons a l ih =>
    obtain ⟨ha, hl⟩ := List.pairwise_cons.mp h
    have hrest := ih hl
    rcases Nat.lt_trichotomy (f a) k with hlt | heq | hgt
    · have hne : f a ≠ k := by omega
      have hle : ¬ k < f a := by omega
      simp only [List.filter_cons, hlt, hne, hle, decide_true, decide_false, if_true,
        Bool.false_eq_true, if_false, List.cons_append]
      exact congrArg _ hrest
    · have hbelow : l.filter (f · < k) = [] := by
        refine List.filter_eq_nil_iff.mpr ?_
        intro b hb
        have hle := ha b hb
        simp only [decide_eq_true_eq]
        omega
      rw [hbelow, List.nil_append] at hrest
      simp only [List.filter_cons, heq, hbelow, decide_true, decide_false, if_true,
        Bool.false_eq_true, if_false, List.cons_append, List.nil_append, lt_irrefl]
      exact congrArg _ hrest
    · have hbelow : l.filter (f · < k) = [] := by
        refine List.filter_eq_nil_iff.mpr ?_
        intro b hb
        have hle := ha b hb
        simp only [decide_eq_true_eq]
        omega
      have hrow : l.filter (f · = k) = [] := by
        refine List.filter_eq_nil_iff.mpr ?_
        intro b hb
        have hle := ha b hb
        simp only [decide_eq_true_eq]
        omega
      have hlt : ¬ f a < k := by omega
      have hne : f a ≠ k := by omega
      rw [hbelow, hrow, List.nil_append, List.nil_append] at hrest
      simp only [List.filter_cons, hlt, hne, hgt, hbelow, hrow, decide_true, decide_false,
        if_true, Bool.false_eq_true, if_false, List.nil_append]
      exact congrArg _ hrest

/-- `_POSIX_Keys_Free_memory` deletes the pairs of the key. -/
theorem Pairs.freeMemory (h : Pairs s high l) (hkey : InClass high key) (hfuel : l.length < fuel) :
    ∃ lookupTree keypool, freeMemory fuel s key =
        some { s with
          lookupTree := lookupTree
          chain := fun t => (s.chain t).filter fun n => decide ((s.pair n).key ≠ key)
          keypool := keypool } ∧
      Pairs { s with
          lookupTree := lookupTree
          chain := fun t => (s.chain t).filter fun n => decide ((s.pair n).key ≠ key)
          keypool := keypool } high (l.filter fun n => decide ((s.pair n).key ≠ key)) := by
  have hmem : ∀ t, ∀ n ∈ s.chain t, n ∈ l := fun t n hn => ((h.chains t n).mp hn).1
  obtain ⟨r, hfind, hspec⟩ := h.findKey hkey (Nat.le_of_lt hfuel)
  unfold PosixKeys.freeMemory
  rw [hfind]
  rcases hspec with ⟨rfl, hall⟩ | ⟨n, hn, hnkey, rfl⟩
  · have hkeep : ∀ m : List Nat, (∀ n ∈ m, n ∈ l) →
        m.filter (fun n => decide ((s.pair n).key ≠ key)) = m := by
      intro m hm
      exact List.filter_eq_self.mpr fun n hn => decide_eq_true (hall n (hm n hn))
    have hchain : (fun t => (s.chain t).filter fun n => decide ((s.pair n).key ≠ key)) =
        s.chain := by
      funext t
      exact hkeep _ (hmem t)
    refine ⟨s.lookupTree, s.keypool, ?_, ?_⟩
    · rw [hchain]
      rfl
    · rw [hchain, hkeep l fun n hn => hn]
      exact h
  · generalize has : l.filter (fun m => decide ((s.pair m).key < key)) = as
    generalize hrow : l.filter (fun m => decide ((s.pair m).key = key)) = row
    generalize hcs : l.filter (fun m => decide (key < (s.pair m).key)) = cs
    have hsplit : l = as ++ row ++ cs := by
      rw [← has, ← hrow, ← hcs]
      exact ordered_split h.orderedKeys key
    have hrowKey : ∀ b, b ∈ row ↔ b ∈ l ∧ (s.pair b).key = key := by
      intro b
      rw [← hrow, List.mem_filter, decide_eq_true_iff]
    have hbefore : ∀ a ∈ as, (s.pair a).key ≠ key := by
      intro a ha
      rw [← has, List.mem_filter, decide_eq_true_iff] at ha
      omega
    have hafter : ∀ c ∈ cs, (s.pair c).key ≠ key := by
      intro c hc
      rw [← hcs, List.mem_filter, decide_eq_true_iff] at hc
      omega
    obtain ⟨bs, ds, hds⟩ := List.append_of_mem ((hrowKey n).mpr ⟨hn, hnkey⟩)
    have hlen : row.length < fuel := by
      have hle : row.length ≤ l.length := hrow ▸ List.length_filter_le _ _
      omega
    have hfirst : PosixKeys.smallest fuel s key fuel n = (row ++ cs).head? := by
      have hl : l = as ++ bs ++ n :: (ds ++ cs) := by
        rw [hsplit, hds]
        simp only [List.append_assoc, List.cons_append]
      have hbs : ∀ b ∈ bs, (s.pair b).key = key := by
        intro b hb
        refine ((hrowKey b).mp ?_).2
        rw [hds]
        exact List.mem_append_left _ hb
      have hshort : bs.length < fuel := by
        rw [hds, List.length_append] at hlen
        omega
      rw [h.smallest hl hbs (fun a ha => hbefore a (List.mem_of_mem_getLast? ha)) hshort
        (Nat.le_of_lt hfuel), hds]
      cases bs with
      | nil => rfl
      | cons b bs => rfl
    have hpairs : Pairs s high (as ++ row ++ cs) := hsplit ▸ h
    obtain ⟨tree', pool, hdelete, hresult⟩ := hpairs.deleteAll (fun b hb => ((hrowKey b).mp hb).2)
      (fun c hc => hafter c (List.mem_of_mem_head? hc)) hlen (hsplit ▸ Nat.le_of_lt hfuel)
    have hchain : (fun t => (s.chain t).filter fun m => decide (m ∉ row)) =
        fun t => (s.chain t).filter fun m => decide ((s.pair m).key ≠ key) := by
      funext t
      refine List.filter_congr ?_
      intro m hm
      have hml := hmem t m hm
      rw [decide_eq_decide, hrowKey m]
      exact ⟨fun hnot hk => hnot ⟨hml, hk⟩, fun hne hk => hne hk.2⟩
    have hgone : row.filter (fun m => decide ((s.pair m).key ≠ key)) = [] := by
      refine List.filter_eq_nil_iff.mpr ?_
      intro b hb hne
      exact of_decide_eq_true hne ((hrowKey b).mp hb).2
    have hkept : as ++ cs = l.filter fun m => decide ((s.pair m).key ≠ key) := by
      rw [hsplit, List.filter_append, List.filter_append, hgone, List.append_nil,
        List.filter_eq_self.mpr fun a ha => decide_eq_true (hbefore a ha),
        List.filter_eq_self.mpr fun c hc => decide_eq_true (hafter c hc)]
    rw [hchain] at hdelete hresult
    rw [hkept] at hresult
    refine ⟨tree', pool, ?_, hresult⟩
    cases hhead : (row ++ cs).head? with
    | none =>
      rw [hds] at hhead
      cases bs <;> cases hhead
    | some first =>
      rw [hhead] at hfirst hdelete
      simp only [Option.bind_eq_bind, Option.bind_some, hfirst]
      exact hdelete

end Rtems.PosixKeys
