import Rtems.Lib.Spans
import Rtems.Tcp.Model

/-!
# The reassembly queue

The segments of the queue are pieces of one stream, in order and without a byte in two
of them.  All of them lie close to the next byte that is expected, and so sequence
numbers compare like places in the stream.
-/

namespace Rtems.Tcp

open Lib

variable {base : BitVec 32} {stream : List UInt8} {strict : Prop} {tp : Tcpcb} {ti q : Seg}
  {segs front back : List Seg} {mp : Chain} {a b e i k n lo hi : Nat} {flags : Bool}

/-! ## Trimming -/

theorem flatten_trimHead : (trimHead mp n).flatten = mp.flatten.drop n := by
  induction mp generalizing n with
  | nil => simp [trimHead]
  | cons m ms ih =>
    simp only [trimHead]
    split
    next hn => simp [hn]
    next =>
      split
      next hle => simp [ih, List.drop_append, List.drop_eq_nil_of_le hle]
      next hgt =>
        have hzero : n - m.length = 0 := by omega
        simp [List.drop_append, hzero]

theorem flatten_keepHead : (keepHead mp n).flatten = mp.flatten.take n := by
  induction mp generalizing n with
  | nil => simp [keepHead]
  | cons m ms ih =>
    simp only [keepHead]
    split
    next hle =>
      have hzero : n - m.length = 0 := by omega
      simp [List.take_append, hzero]
    next hgt => simp [ih, List.take_append, List.take_of_length_le (Nat.le_of_not_le hgt)]

@[simp]
theorem flatten_mAdj (n : Nat) : (mAdj mp n).flatten = mp.flatten.drop n := by
  simp [mAdj, flatten_trimHead]

theorem flatten_mAdj_neg (hn : 0 < n) :
    (mAdj mp (-(n : Int))).flatten = mp.flatten.take (mp.flatten.length - n) := by
  have hneg : ¬ (0 : Int) ≤ -(n : Int) := by omega
  simp only [mAdj, hneg, if_false, Int.neg_neg, Int.toNat_natCast]
  split
  next hnone => simp [List.getLast?_eq_none_iff.mp hnone]
  next m hlast =>
    split
    next hle =>
      obtain ⟨ms, rfl⟩ := List.getLast?_eq_some_iff.mp hlast
      have hsum : ms.flatten.length + m.length - n - ms.flatten.length = m.length - n := by omega
      have hge : ms.flatten.length ≤ ms.flatten.length + m.length - n := by omega
      simp only [List.dropLast_concat, List.flatten_append, List.flatten_singleton, List.length_append,
        List.take_append, List.take_of_length_le hge, hsum]
    next => exact flatten_keepHead

/-! ## Sequence numbers -/

/-- The sequence number of a place in the stream. -/
def seqAt (base : BitVec 32) (place : Nat) : BitVec 32 := base + BitVec.ofNat 32 place

theorem seqAt_add : seqAt base a + BitVec.ofNat 32 b = seqAt base (a + b) := by
  rw [seqAt, seqAt, BitVec.add_assoc, BitVec.ofNat_add]

/-- Sequence numbers of places that are close to each other. -/
theorem toInt_sub_seqAt (h : a < b + 2 ^ 31) (h' : b ≤ a + 2 ^ 31) :
    (seqAt base a - seqAt base b).toInt = (a : Int) - b := by
  have hcancel : seqAt base a - seqAt base b = BitVec.ofNat 32 a - BitVec.ofNat 32 b := by
    simp only [seqAt]
    bv_omega
  rw [hcancel, BitVec.toInt_sub, BitVec.toInt_ofNat', BitVec.toInt_ofNat', Int.bmod_sub_bmod,
    Int.sub_bmod_bmod]
  exact Int.bmod_eq_of_le (by omega) (by omega)

theorem place_eq (h : seqAt base a = seqAt base b) (hab : a < b + 2 ^ 31) (hba : b ≤ a + 2 ^ 31) :
    a = b := by
  have hdiff : (seqAt base a - seqAt base b).toInt = a - b := toInt_sub_seqAt hab hba
  rw [h, BitVec.sub_self] at hdiff
  have hzero : (0 : Int) = a - b := hdiff
  omega

/-- The segment has the bytes of its place, and when it is `strict`, a FIN behind the last one. -/
structure Piece (base : BitVec 32) (stream : List UInt8) (strict : Prop) (q : Seg) : Prop where
  seq : q.seq = seqAt base q.place
  bytes : q.mbufs.flatten = (stream.drop q.place).take q.len
  le : q.place + q.len ≤ stream.length
  fin : strict → q.fin = true → q.place + q.len = stream.length

theorem Piece.next (h : Piece base stream strict q) : q.next = seqAt base (q.place + q.len) := by
  rw [Seg.next, h.seq, seqAt_add]

theorem Piece.advance (h : Piece base stream strict q) (hi : i ≤ q.len) :
    Piece base stream strict (q.advance i) := by
  have hsum : q.place + i + (q.len - i) = q.place + q.len := by omega
  refine ⟨?_, ?_, hsum.trans_le h.le, fun hs hf => hsum.trans (h.fin hs hf)⟩
  · simp only [Seg.advance, h.seq, seqAt_add]
  · simp only [Seg.advance, flatten_mAdj, h.bytes, List.drop_take, List.drop_drop]

/-! ## Insertion -/

/-- Succeeding segments keep what lies behind the new one. -/
theorem trimBack_spec (h : Spans Seg.place Seg.len lo hi back)
    (hp : ∀ q ∈ back, Piece base stream strict q) (hlo : lo ≤ e) (he : e ≤ hi) (hhi : hi < lo + 2 ^ 31) :
    Spans Seg.place Seg.len e hi (trimBack (seqAt base e) back) ∧
      (∀ q ∈ trimBack (seqAt base e) back, Piece base stream strict q) ∧
      ∀ k, e ≤ k → Covers Seg.place Seg.len back k →
        Covers Seg.place Seg.len (trimBack (seqAt base e) back) k := by
  induction back generalizing lo with
  | nil => exact ⟨he, hp, fun _ _ hk => hk⟩
  | cons q back ih =>
    have hq := hp q List.mem_cons_self
    have hback := fun r hr => hp r (List.mem_cons_of_mem q hr)
    have hend := h.2.le
    have hlow := h.1
    have hdiff : (seqAt base e - q.seq).toInt = (e : Int) - q.place := by
      rw [hq.seq]
      exact toInt_sub_seqAt (by omega) (by omega)
    simp only [trimBack, hdiff]
    split
    next hle => exact ⟨⟨by omega, h.2⟩, hp, fun _ _ hk => hk⟩
    next hgt =>
      split
      next hlt =>
        have hnat : ((e : Int) - q.place).toNat = e - q.place := by omega
        have hplace : (q.advance (e - q.place)).place = e := by
          simp only [Seg.advance]
          omega
        have hlen : e + (q.advance (e - q.place)).len = q.place + q.len := by
          simp only [Seg.advance]
          omega
        rw [hnat]
        refine ⟨⟨hplace.ge, ?_⟩, ?_, ?_⟩
        · rw [hplace, hlen]
          exact h.2
        · exact List.forall_mem_cons.mpr ⟨hq.advance (by omega), hback⟩
        · intro k hk hcovers
          rw [covers_cons] at hcovers ⊢
          rw [hplace, hlen]
          exact hcovers.imp_left fun hin => ⟨hk, hin.2⟩
      next hge =>
        have hrest : Spans Seg.place Seg.len lo hi back := h.2.lower (by omega)
        obtain ⟨hspans, hpieces, hkeeps⟩ := ih hrest hback hlo hhi
        refine ⟨hspans, hpieces, fun k hk hcovers => hkeeps k hk ?_⟩
        rw [covers_cons] at hcovers
        exact hcovers.resolve_left fun hin => by omega

/-- The new segment keeps what lies behind the preceding one. -/
theorem trimFront_spec (h : Spans Seg.place Seg.len lo hi front)
    (hp : ∀ q ∈ front, Piece base stream strict q) (hbefore : ∀ q ∈ front, q.place ≤ ti.place)
    (hti : Piece base stream strict ti) (hlo : lo ≤ ti.place) (hend : ti.place + ti.len < lo + 2 ^ 31)
    (hhi : hi < lo + 2 ^ 31) :
    trimFront front ti = none ∧
        (∀ k, ti.place ≤ k → k < ti.place + ti.len → Covers Seg.place Seg.len front k) ∨
      ∃ t, trimFront front ti = some t ∧ Piece base stream strict t ∧ ti.place ≤ t.place ∧
        t.place + t.len = ti.place + ti.len ∧ Spans Seg.place Seg.len lo t.place front ∧
        (t.place ≤ ti.place ∨ t.place ≤ hi) ∧
        ∀ k, ti.place ≤ k → k < t.place → Covers Seg.place Seg.len front k := by
  simp only [trimFront]
  cases hlast : front.getLast? with
  | none =>
    obtain rfl := List.getLast?_eq_none_iff.mp hlast
    exact .inr ⟨ti, rfl, hti, Nat.le_refl _, rfl, hlo, .inl (Nat.le_refl _), fun k _ _ => by omega⟩
  | some q =>
    obtain ⟨qs, rfl⟩ := List.getLast?_eq_some_iff.mp hlast
    obtain ⟨mid, hqs, hmid, hqhi⟩ := spans_append.mp h
    have hqend : q.place + q.len ≤ hi := hqhi
    have hmem : q ∈ qs ++ [q] := by simp
    have hplace := hbefore q hmem
    have hle := hqs.le
    have hdiff : (q.next - ti.seq).toInt = ((q.place + q.len : Nat) : Int) - ti.place := by
      rw [(hp q hmem).next, hti.seq]
      exact toInt_sub_seqAt (by omega) (by omega)
    have hfront : ∀ p, q.place + q.len ≤ p → Spans Seg.place Seg.len lo p (qs ++ [q]) :=
      fun p hqp => spans_append.mpr ⟨mid, hqs, hmid, hqp⟩
    have hcovers : ∀ k, q.place ≤ k → k < q.place + q.len →
        Covers Seg.place Seg.len (qs ++ [q]) k := fun k hk hk' => ⟨q, hmem, hk, hk'⟩
    simp only [hdiff]
    split
    next hapart =>
      exact .inr ⟨ti, rfl, hti, Nat.le_refl _, rfl, hfront _ (by omega), .inl (Nat.le_refl _),
        fun k _ _ => by omega⟩
    next =>
      split
      next => exact .inl ⟨rfl, fun k hk hk' => hcovers k (by omega) (by omega)⟩
      next =>
        have hnat : (((q.place + q.len : Nat) : Int) - ti.place).toNat = q.place + q.len - ti.place := by
          omega
        rw [hnat]
        refine .inr ⟨_, rfl, hti.advance (by omega), ?_, ?_, hfront _ ?_, .inr ?_, fun k hk hk' => ?_⟩
        · exact Nat.le_add_right _ _
        · simp only [Seg.advance]
          omega
        · simp only [Seg.advance]
          omega
        · simp only [Seg.advance]
          omega
        · simp only [Seg.advance] at hk'
          exact hcovers k (by omega) (by omega)

/-- The insertion loses no byte. -/
theorem enqueue_spec (h : Spans Seg.place Seg.len lo hi segs)
    (hp : ∀ q ∈ segs, Piece base stream strict q) (hti : Piece base stream strict ti)
    (hlo : lo ≤ ti.place) (hend : ti.place + ti.len ≤ hi) (hhi : hi < lo + 2 ^ 31) :
    Spans Seg.place Seg.len lo hi (enqueue segs ti) ∧
      (∀ q ∈ enqueue segs ti, Piece base stream strict q) ∧
      ∀ k, ti.place ≤ k ∧ k < ti.place + ti.len ∨ Covers Seg.place Seg.len segs k →
        Covers Seg.place Seg.len (enqueue segs ti) k := by
  have hgt : ∀ q ∈ segs, seqGt q.seq ti.seq = decide (ti.place < q.place) := by
    intro q hq
    have hin := h.mem hq
    rw [seqGt, (hp q hq).seq, hti.seq, toInt_sub_seqAt (by omega) (by omega)]
    exact decide_eq_decide.mpr (by omega)
  simp only [enqueue]
  have happend := List.takeWhile_append_dropWhile (p := (! seqGt ·.seq ti.seq)) (l := segs)
  have hbefore : ∀ q ∈ segs.takeWhile (! seqGt ·.seq ti.seq), q.place ≤ ti.place := by
    intro q hq
    have hcond := List.mem_takeWhile_imp hq
    rw [hgt q ((List.takeWhile_prefix _).subset hq)] at hcond
    simpa using hcond
  have hbehind : ∀ q ∈ (segs.dropWhile (! seqGt ·.seq ti.seq)).head?, ti.place < q.place := by
    intro q hq
    have hmem := (List.dropWhile_suffix _).subset (List.mem_of_mem_head? hq)
    have hcond := List.head?_dropWhile_not (! seqGt ·.seq ti.seq) segs
    rw [hq] at hcond
    simpa [hgt q hmem] using hcond
  generalize segs.takeWhile (! seqGt ·.seq ti.seq) = front at *
  generalize segs.dropWhile (! seqGt ·.seq ti.seq) = back at *
  subst happend
  obtain ⟨mid, hfront, hback⟩ := spans_append.mp h
  obtain ⟨hpfront, hpback⟩ := List.forall_mem_append.mp hp
  have hmid := hfront.le
  have hle := hback.le
  rcases trimFront_spec hfront hpfront hbefore hti hlo (by omega) (by omega) with
    ⟨heq, hdup⟩ | ⟨t, heq, ht, hfrom, hsum, hspans, hat, hcovered⟩
  · rw [heq]
    refine ⟨h, hp, fun k hk => hk.elim (fun hin => ?_) id⟩
    exact covers_append.mpr (.inl (hdup k hin.1 hin.2))
  · rw [heq]
    -- What follows lies behind the new segment's begin.
    have hback' : Spans Seg.place Seg.len t.place hi back := by
      cases back with
      | nil => exact (Nat.le_add_right _ t.len).trans (hsum.trans_le hend)
      | cons r back =>
        have hr := hbehind r rfl
        have hlow := hback.1
        exact ⟨by omega, hback.2⟩
    have hlo' := hspans.le
    obtain ⟨htrim, hptrim, hkeeps⟩ := trimBack_spec (e := t.place + t.len) hback' hpback
      (Nat.le_add_right _ _) (by omega) (by omega)
    rw [← ht.next] at htrim hptrim hkeeps
    refine ⟨spans_append.mpr ⟨_, hspans, Nat.le_refl _, htrim⟩,
      List.forall_mem_append.mpr ⟨hpfront, List.forall_mem_cons.mpr ⟨ht, hptrim⟩⟩, fun k hk => ?_⟩
    rw [covers_append, covers_cons]
    rcases hk with hin | hin
    · rcases Nat.lt_or_ge k t.place with hlt | hge
      · exact .inl (hcovered k hin.1 hlt)
      · exact .inr (.inl ⟨hge, by omega⟩)
    · rcases covers_append.mp hin with hin | hin
      · exact .inl hin
      · rcases Nat.lt_or_ge k (t.place + t.len) with hlt | hge
        · refine .inr (.inl ⟨?_, hlt⟩)
          exact Nat.le_of_not_lt fun hk => hback'.not_covers hk hin
        · exact .inr (.inr (hkeeps k hge hin))

end Rtems.Tcp
