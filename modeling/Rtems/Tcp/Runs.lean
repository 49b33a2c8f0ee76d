import Rtems.Lib.Runs
import Rtems.Tcp.Reassembly

/-!
# The stream that is received

Segments of one stream arrive in any order, cut in any way, and more than once.
The receive buffer gets the stream from its begin.
-/

namespace Rtems.Tcp

open Lib

variable {base : BitVec 32} {stream : List UInt8} {strict : Prop} {tp c : Tcpcb} {ti : Seg}
  {segs : List Seg} {hi k n rcvWnd : Nat} {flags ack predicted : Bool} {e : Event} {es : List Event}

/-- The byte is in the receive buffer or in the queue. -/
def Held (tp : Tcpcb) (k : Nat) : Prop :=
  k < tp.received.length ∨ Covers Seg.place Seg.len tp.segs k

/-- The receive buffer has the begin of the stream, and the queue pieces behind it. -/
structure Receiving (base : BitVec 32) (stream : List UInt8) (strict : Prop) (hi : Nat)
    (tp : Tcpcb) : Prop where
  more : tp.cantRcvMore = false
  nxt : tp.rcvNxt = seqAt base tp.received.length
  text : tp.received <+: stream
  spans : Spans Seg.place Seg.len tp.received.length hi tp.segs
  pieces : ∀ q ∈ tp.segs, Piece base stream strict q

/-- The bytes of the next piece. -/
theorem Piece.append (h : Piece base stream strict ti) (hplace : ti.place = n) {r : List UInt8}
    (hr : r <+: stream) (hn : n = r.length) :
    r ++ ti.mbufs.flatten <+: stream ∧ (r ++ ti.mbufs.flatten).length = n + ti.len := by
  have hle := h.le
  have hlen : ti.mbufs.flatten.length = ti.len := by
    rw [h.bytes, List.length_take, List.length_drop]
    omega
  refine ⟨?_, by rw [List.length_append, hlen, hn]⟩
  obtain ⟨rest, rfl⟩ := hr
  rw [h.bytes, hplace, hn, List.drop_left]
  exact (List.prefix_append_right_inj r).mpr (List.take_prefix _ _)

/-- The piece at the begin of the queue is presented. -/
theorem Receiving.deliver (h : Receiving base stream strict hi { tp with segs := ti :: segs })
    (hplace : ti.place = tp.received.length) :
    Receiving base stream strict hi { tp.deliver ti with segs := segs } ∧
      (tp.deliver ti).received.length = tp.received.length + ti.len := by
  have hmore : tp.cantRcvMore = false := h.more
  obtain ⟨htext, hlength⟩ := (h.pieces ti List.mem_cons_self).append hplace h.text rfl
  have hreceived : (tp.deliver ti).received = tp.received ++ ti.mbufs.flatten := by
    simp [Tcpcb.deliver, hmore]
  have hspans : Spans Seg.place Seg.len (ti.place + ti.len) hi segs := h.spans.2
  rw [← hreceived] at hlength htext
  refine ⟨⟨hmore, ?_, htext, ?_, fun q hq => h.pieces q (List.mem_cons_of_mem _ hq)⟩, hlength⟩
  · have hnxt : tp.rcvNxt = seqAt base tp.received.length := h.nxt
    simp only [hlength]
    rw [← seqAt_add, ← hnxt]
    rfl
  · simp only [hlength, ← hplace]
    exact hspans

/-- What is presented leaves the queue, up to the first byte that is missing. -/
theorem Receiving.presentLoop (h : Receiving base stream strict hi { tp with segs := segs })
    (hhi : hi < tp.received.length + 2 ^ 31)
    (hfin : strict → flags = true → tp.received = stream) :
    let r := Tcp.presentLoop tp flags segs
    Receiving base stream strict hi r.1 ∧ (strict → r.2 = true → r.1.received = stream) ∧
      (∀ k, Held { tp with segs := segs } k → Held r.1 k) ∧
      ¬ Covers Seg.place Seg.len r.1.segs r.1.received.length ∧
      tp.received.length ≤ r.1.received.length := by
  induction segs generalizing tp flags with
  | nil => exact ⟨h, hfin, fun _ hk => hk, covers_nil, Nat.le_refl _⟩
  | cons ti segs ih =>
    have hpiece := h.pieces ti List.mem_cons_self
    have hlow := h.spans.1
    have hend := h.spans.2.le
    have hnxt : tp.rcvNxt = seqAt base tp.received.length := h.nxt
    simp only [Tcp.presentLoop]
    simp only at hlow
    split
    next hseq =>
      rw [hpiece.seq, hnxt] at hseq
      have hplace := place_eq hseq (by omega) (by omega)
      obtain ⟨hnext, hlength⟩ := h.deliver hplace
      have hall : strict → ti.fin = true → (tp.deliver ti).received = stream := by
        intro hs hf
        have hlen := hpiece.fin hs hf
        exact hnext.text.eq_of_length (by rw [← hlen, hplace]; exact hlength)
      obtain ⟨hr, hf, hkeeps, hmissing, hle⟩ := ih hnext (by omega) hall
      refine ⟨hr, hf, fun k hk => hkeeps k ?_, hmissing, by omega⟩
      simp only [Held, covers_cons] at hk ⊢
      rw [hlength]
      rcases hk with hk | hk | hk
      · exact .inl (by omega)
      · exact .inl (by omega)
      · exact .inr hk
    next hseq =>
      refine ⟨h, hfin, fun _ hk => hk, ?_, Nat.le_refl _⟩
      have hne : tp.received.length ≠ ti.place := by
        intro heq
        exact hseq (by rw [hpiece.seq, hnxt, heq])
      have hspans : Spans Seg.place Seg.len ti.place hi (ti :: segs) := ⟨Nat.le_refl _, h.spans.2⟩
      exact hspans.not_covers (by simp only; omega)

/-- The states before the FIN of the stream. -/
def Live (tp : Tcpcb) : Prop :=
  tp.state = .synReceived ∨ tp.state = .established ∨ tp.state = .finWait1 ∨ tp.state = .finWait2

/-- The connection before the end of the stream, with the queue inside the largest window. -/
structure Open (base : BitVec 32) (stream : List UInt8) (strict : Prop) (tp : Tcpcb) : Prop where
  receiving : Receiving base stream strict (tp.received.length + 2 ^ 30) tp
  live : Live tp
  missing : tp.state.haveEstablished → ¬ Covers Seg.place Seg.len tp.segs tp.received.length

/-- The connection behind the end. -/
structure Closed (stream : List UInt8) (strict : Prop) (tp : Tcpcb) : Prop where
  noMore : tp.cantRcvMore = true
  text : tp.received <+: stream
  all : strict → tp.received = stream
  state : tp.state ≠ .synReceived ∧ tp.state ≠ .established

/-- What a step makes of an open connection. -/
def Follows (base : BitVec 32) (stream : List UInt8) (strict : Prop) (arrived : Nat → Prop)
    (tp tp' : Tcpcb) : Prop :=
  Open base stream strict tp' ∧ (∀ k, arrived k ∨ Held tp k → Held tp' k) ∨ Closed stream strict tp'

theorem presentLoop_same (tp : Tcpcb) (flags : Bool) (segs : List Seg) :
    let r := (presentLoop tp flags segs).1
    r.state = tp.state ∧ r.cantRcvMore = tp.cantRcvMore ∧
      (tp.cantRcvMore = true → r.received = tp.received) := by
  induction segs generalizing tp flags with
  | nil => exact ⟨rfl, rfl, fun _ => rfl⟩
  | cons ti segs ih =>
    simp only [presentLoop]
    split
    next =>
      obtain ⟨hstate, hmore, hreceived⟩ := ih (tp.deliver ti) ti.fin
      refine ⟨hstate, hmore, fun hno => (hreceived hno).trans ?_⟩
      simp [Tcpcb.deliver, hno]
    next => exact ⟨rfl, rfl, fun _ => rfl⟩

theorem present_same (tp : Tcpcb) :
    (present tp).1.state = tp.state ∧ (present tp).1.cantRcvMore = tp.cantRcvMore ∧
      (tp.cantRcvMore = true → (present tp).1.received = tp.received) := by
  simp only [present]
  split
  next => exact presentLoop_same tp false tp.segs
  next => exact ⟨rfl, rfl, fun _ => rfl⟩

/-- The queue is presented, or kept until the connection is established. -/
theorem Receiving.present (h : Receiving base stream strict (n + 2 ^ 30) tp)
    (hn : tp.received.length = n) (hlive : Live tp) :
    Open base stream strict (Tcp.present tp).1 ∧ (∀ k, Held tp k → Held (Tcp.present tp).1 k) ∧
      ((Tcp.present tp).2 = true → (Tcp.present tp).1.state ≠ .synReceived ∧
        (strict → (Tcp.present tp).1.received = stream)) := by
  have hstate := (present_same tp).1
  cases hest : tp.state.haveEstablished with
  | false =>
    have heq : Tcp.present tp = (tp, false) := by simp [Tcp.present, hest]
    rw [heq]
    refine ⟨⟨hn ▸ h, hlive, fun hyes => ?_⟩, fun _ hk => hk, nofun⟩
    rw [hest] at hyes
    cases hyes
  | true =>
    have heq : Tcp.present tp = Tcp.presentLoop tp false tp.segs := by simp [Tcp.present, hest]
    obtain ⟨hr, hfin, hkeeps, hmissing, hle⟩ :=
      @Receiving.presentLoop base stream strict tp tp.segs (n + 2 ^ 30) false h (by omega) nofun
    rw [← heq] at hr hfin hkeeps hmissing hle
    have hlive' : Live (Tcp.present tp).1 := by
      rw [Live, hstate]
      exact hlive
    refine ⟨⟨{ hr with spans := hr.spans.upper (by omega) }, hlive', fun _ => hmissing⟩,
      hkeeps, fun hf => ⟨?_, fun hs => hfin hs hf⟩⟩
    intro hsyn
    rw [← hstate, hsyn] at hest
    cases hest

/-- A segment in the window is received or queued. -/
theorem Receiving.reassemble (h : Receiving base stream strict (n + 2 ^ 30) tp)
    (hn : tp.received.length = n) (hlive : Live tp) (hti : Piece base stream strict ti)
    (hlo : n ≤ ti.place) (hend : ti.place + ti.len ≤ n + 2 ^ 30) :
    let r := Tcp.reassemble tp ti
    Open base stream strict r.1 ∧
      (∀ k, ti.place ≤ k ∧ k < ti.place + ti.len ∨ Held tp k → Held r.1 k) ∧
      (r.2 = true → r.1.state ≠ .synReceived ∧ (strict → r.1.received = stream)) := by
  simp only [Tcp.reassemble]
  split
  next hfast =>
    obtain ⟨hseq, hnil, hest⟩ := hfast
    have hmore : tp.cantRcvMore = false := h.more
    have hone : Receiving base stream strict (n + 2 ^ 30) { tp with segs := [ti] } :=
      ⟨hmore, h.nxt, h.text, ⟨hn.trans_le hlo, hend⟩, List.forall_mem_singleton.mpr hti⟩
    -- The segment goes the way of one that is alone in the queue.
    have heq : Tcp.present { tp with segs := [ti] } = (tp.append ti, ti.fin) := by
      simp [Tcp.present, Tcp.presentLoop, Tcpcb.append, Tcpcb.deliver, Seg.next,
        TcpState.haveEstablished, hseq, hnil, hest, hmore]
    obtain ⟨hopen, hheld, hfin⟩ := hone.present hn hlive
    rw [heq] at hopen hheld hfin
    refine ⟨hopen, fun k hk => hheld k ?_, hfin⟩
    simp only [Held, hnil, covers_cons, covers_nil, or_false] at hk ⊢
    exact hk.symm
  next =>
    obtain ⟨hspans, hpieces, hkeeps⟩ :=
      enqueue_spec (hn ▸ h.spans) h.pieces hti hlo hend (by omega)
    have hqueued : Receiving base stream strict (n + 2 ^ 30) { tp with segs := enqueue tp.segs ti } :=
      ⟨h.more, h.nxt, h.text, hn ▸ hspans, hpieces⟩
    obtain ⟨hopen, hheld, hfin⟩ := hqueued.present hn hlive
    refine ⟨hopen, fun k hk => hheld k ?_, hfin⟩
    rcases hk with hin | hlt | hin
    · exact .inr (hkeeps k (.inl hin))
    · exact .inl hlt
    · exact .inr (hkeeps k (.inr hin))

theorem closed_finReceived (htext : tp.received <+: stream) (hall : strict → tp.received = stream)
    (hsyn : tp.state ≠ .synReceived) (hwait : tp.state = .timeWait → tp.cantRcvMore = true) :
    Closed stream strict (finReceived tp) := by
  have hreceived : (finReceived tp).received = tp.received := by
    simp only [finReceived]
    split <;> rfl
  refine ⟨?_, hreceived ▸ htext, fun hs => hreceived.trans (hall hs), ?_⟩
  · simp only [finReceived]
    split
    next hw => exact hwait (of_decide_eq_true hw)
    next => rfl
  · cases hs : tp.state <;> simp_all [finReceived, TcpState.haveRcvdFin]

theorem Receiving.dodata (h : Receiving base stream strict (n + 2 ^ 30) tp)
    (hn : tp.received.length = n) (hlive : Live tp) (hti : Piece base stream strict ti)
    (hlo : ti.len ≠ 0 ∨ flags = true → n ≤ ti.place) (hend : ti.place + ti.len ≤ n + 2 ^ 30)
    (hopen : ti.len = 0 ∧ flags = false → Open base stream strict tp) :
    Follows base stream strict (fun k => ti.place ≤ k ∧ k < ti.place + ti.len) tp
      (Tcp.dodata tp ti flags) := by
  have hnot : tp.state.haveRcvdFin = false := by
    rcases hlive with hs | hs | hs | hs
    all_goals simp [hs, TcpState.haveRcvdFin]
  simp only [Tcp.dodata, hnot, and_true]
  split
  next htext =>
    obtain ⟨hr, hheld, hfin⟩ := h.reassemble hn hlive hti (hlo htext) hend
    split
    next hf =>
      refine .inr (closed_finReceived hr.receiving.text (hfin hf).2 (hfin hf).1 fun hw => ?_)
      have hlive := hr.live
      simp [Live, hw] at hlive
    next => exact .inl ⟨hr, hheld⟩
  next hnone =>
    have hempty : ti.len = 0 ∧ flags = false := by simpa using hnone
    exact .inl ⟨hopen hempty, fun k hk => hk.resolve_left fun hin => by omega⟩

/-! ## The window -/

theorem trimLeft_spec (h : Receiving base stream strict hi tp) (hti : Piece base stream True ti)
    (hnear : ti.place < tp.received.length + 2 ^ 30 ∧ tp.received.length < ti.place + 2 ^ 30) :
    ∃ t f, trimLeft tp ti = (t, f) ∧ Piece base stream True t ∧ t.fin = ti.fin ∧
      t.place + t.len = ti.place + ti.len ∧ (t.place = ti.place ∨ t.place ≤ tp.received.length) ∧
      ti.place ≤ t.place ∧ (t.len ≠ 0 ∨ f = true → tp.received.length ≤ t.place) := by
  have hdiff : (tp.rcvNxt - ti.seq).toInt = (tp.received.length : Int) - ti.place := by
    rw [h.nxt, hti.seq]
    exact toInt_sub_seqAt (by omega) (by omega)
  simp only [trimLeft, hdiff]
  split
  next => exact ⟨ti, ti.fin, rfl, hti, rfl, rfl, .inl rfl, Nat.le_refl _, fun _ => by omega⟩
  next =>
    split
    next =>
      refine ⟨_, _, rfl, hti.advance (Nat.le_refl _), rfl, ?_, ?_, ?_, ?_⟩
      all_goals simp only [Seg.advance]
      · omega
      · omega
      · omega
      · simp
    next =>
      refine ⟨_, _, rfl, hti.advance (by omega), rfl, ?_, ?_, ?_, ?_⟩
      all_goals simp only [Seg.advance]
      · omega
      · omega
      · omega
      · omega

/-- What `trimRight` leaves ends in the window.  A FIN that it should drop stays. -/
theorem trimRight_spec (rcvWnd : Nat) (flags : Bool) (h : Receiving base stream strict hi tp)
    (hti : Piece base stream True ti)
    (hnear : ti.place < tp.received.length + 2 ^ 30 ∧ tp.received.length < ti.place + ti.len + 2 ^ 30)
    (hlen : ti.len < 2 ^ 16) (hwnd : rcvWnd ≤ 2 ^ 30)
    (hfin : strict → ti.fin = true → ti.place + ti.len ≤ tp.received.length + rcvWnd) :
    trimRight tp rcvWnd ti flags = none ∧ tp.received.length + rcvWnd ≤ ti.place ∨
      ∃ t f, trimRight tp rcvWnd ti flags = some (t, f) ∧ Piece base stream strict t ∧
        t.place = ti.place ∧ t.len ≤ ti.len ∧ (f = true → flags = true) ∧
        t.place + t.len ≤ tp.received.length + 2 ^ 30 ∧
        (t.len = ti.len ∨ tp.received.length + rcvWnd ≤ t.place + t.len) := by
  have hdiff : (ti.next - (tp.rcvNxt + BitVec.ofNat 32 rcvWnd)).toInt =
      ((ti.place + ti.len : Nat) : Int) - (tp.received.length + rcvWnd : Nat) := by
    rw [hti.next, h.nxt, seqAt_add]
    exact toInt_sub_seqAt (by omega) (by omega)
  have hle := hti.le
  simp only [trimRight, hdiff]
  split
  next => exact .inr ⟨ti, flags, rfl, { hti with fin := fun _ => hti.fin trivial }, rfl,
      Nat.le_refl _, id, by omega, .inl rfl⟩
  next hover =>
    split
    next hall => exact .inl ⟨rfl, by omega⟩
    next =>
      generalize htodrop : ti.place + ti.len - (tp.received.length + rcvWnd) = todrop
      have hnat : ((ti.place + ti.len : Nat) : Int) - (tp.received.length + rcvWnd : Nat) = todrop := by
        omega
      have htext : ti.mbufs.flatten.length = ti.len := by
        rw [hti.bytes, List.length_take, List.length_drop]
        omega
      rw [hnat, Int.toNat_natCast]
      refine .inr ⟨_, false, rfl, ⟨hti.seq, ?_, ?_, fun hs hf => ?_⟩, rfl, Nat.sub_le _ _, nofun, ?_, ?_⟩
      · rw [flatten_mAdj_neg (by omega), htext, hti.bytes, List.take_take,
          Nat.min_eq_left (Nat.sub_le _ _)]
      · simp only
        omega
      · have hfits := hfin hs hf
        omega
      · simp only
        omega
      · simp only
        omega

/-- What a segment brings inside the window. -/
def Brings (tp : Tcpcb) : Event → Nat → Prop
  | .segment ti rcvWnd ack _, k =>
    ack = true ∧ ti.place ≤ k ∧ k < ti.place + ti.len ∧ k < tp.received.length + rcvWnd
  | _, _ => False

/-- While the stream is received, only segments of it arrive, and none from far away.  When the run is
`strict`, a FIN lies in the window. -/
def Arrives (base : BitVec 32) (stream : List UInt8) (strict : Prop) (tp : Tcpcb) : Event → Prop
  | .segment ti rcvWnd _ _ => tp.cantRcvMore = false →
    Piece base stream True ti ∧ ti.len < 2 ^ 16 ∧ rcvWnd ≤ 2 ^ 30 ∧
      (ti.place < tp.received.length + 2 ^ 30 ∧ tp.received.length < ti.place + 2 ^ 30) ∧
      (strict → ti.fin = true → ti.place + ti.len ≤ tp.received.length + rcvWnd)
  | _ => True

theorem Open.segment (h : Open base stream strict tp)
    (he : Arrives base stream strict tp (.segment ti rcvWnd ack predicted)) :
    Follows base stream strict (Brings tp (.segment ti rcvWnd ack predicted)) tp
      (tcpInput tp ti rcvWnd ack predicted) := by
  obtain ⟨hti, hlen, hwnd, hnear, hfin⟩ := he h.receiving.more
  have hpiece : Piece base stream strict ti := { hti with fin := fun _ => hti.fin trivial }
  simp only [tcpInput]
  split
  next hpred =>
    obtain ⟨-, -, hest, hno, hseq, hnil⟩ := hpred
    rw [hti.seq, h.receiving.nxt] at hseq
    have hplace := place_eq hseq (by omega) (by omega)
    obtain ⟨hopen, hheld, -⟩ := h.receiving.reassemble rfl h.live hpiece hplace.ge (by omega)
    have heq : Tcp.reassemble tp ti = (tp.append ti, ti.fin) := by
      rw [Tcp.reassemble, if_pos ⟨by rw [hti.seq, h.receiving.nxt, hplace], hnil, hest⟩]
    rw [heq] at hopen hheld
    exact .inl ⟨hopen, fun k hk => hheld k (hk.imp_left fun hin => ⟨hin.2.1, hin.2.2.1⟩)⟩
  next =>
    obtain ⟨u, f, hleft, hu, hufin, huend, huplace, hufrom, hunext⟩ := trimLeft_spec h.receiving hti hnear
    rw [hleft]
    simp only
    rcases trimRight_spec rcvWnd f h.receiving hu (by omega) (by omega) hwnd
        (by rw [hufin, huend]; exact hfin) with ⟨hnone, hbehind⟩ | ⟨t, g, hsome, ht, hplace, hle, hg, hend, hcut⟩
    · rw [hnone]
      refine .inl ⟨h, fun k hk => hk.elim (fun hin => ?_) id⟩
      have hin' := hin.2
      change Held tp k
      exact .inl (by omega)
    · rw [hsome]
      simp only
      have hlo : t.len ≠ 0 ∨ g = true → tp.received.length ≤ t.place := by
        intro htext
        rw [hplace]
        exact hunext (htext.imp (fun hne => by omega) hg)
      -- A byte that the segment brings was received before, or is in what is left.
      have hbrings : ∀ k, Brings tp (.segment ti rcvWnd ack predicted) k →
          k < tp.received.length ∨ t.place ≤ k ∧ k < t.place + t.len := by
        intro k hk
        have hin := hk.2
        omega
      have hdone : ∀ tp₁ {tp'}, (∀ k, Held tp k → Held tp₁ k) →
          Follows base stream strict (fun k => t.place ≤ k ∧ k < t.place + t.len) tp₁ tp' →
          Follows base stream strict (Brings tp (.segment ti rcvWnd ack predicted)) tp tp' := by
        intro tp₁ tp' hsame hfollows
        refine hfollows.imp_left fun ⟨hopen, hheld⟩ => ⟨hopen, fun k hk => hheld k ?_⟩
        rcases hk with hk | hk
        · exact (hbrings k hk).elim (fun hlt => .inr (hsame k (.inl hlt))) .inl
        · exact .inr (hsame k hk)
      cases ack with
      | false =>
        have hstay : Follows base stream strict (Brings tp (.segment ti rcvWnd false predicted)) tp tp :=
          .inl ⟨h, fun k hk => hk.elim (fun hin => nomatch hin.1) id⟩
        split
        next => exact hdone tp (fun _ hk => hk) (h.receiving.dodata rfl h.live ht hlo hend fun _ => h)
        next => exact hstay
      | true =>
        simp only [if_true]
        split
        next =>
          have hlive : ∀ tp' : Tcpcb, tp'.state = (if tp.needFin then .finWait1 else .established) →
              Live tp' := by
            intro tp' hstate
            cases hneed : tp.needFin <;> simp [Live, hstate, hneed]
          have hstart : Receiving base stream strict (tp.received.length + 2 ^ 30)
              { tp with
                state := if tp.needFin then .finWait1 else .established
                needFin := false } := { h.receiving with }
          simp only [establish]
          split
          next hempty =>
            obtain ⟨hopen, hheld, -⟩ := hstart.present rfl (hlive _ rfl)
            refine hdone (tcpReass _ none).1 hheld ?_
            simp only [dodata, hempty, ne_eq, not_true, Bool.false_eq_true, or_self, false_and, if_false]
            exact .inl ⟨hopen, fun k hk => hk.resolve_left fun hin => by omega⟩
          next hne =>
            exact hdone { tp with state := _, needFin := false } (fun _ hk => hk)
              (hstart.dodata rfl (hlive _ rfl) ht hlo hend fun hempty => absurd hempty hne)
        next => exact hdone tp (fun _ hk => hk) (h.receiving.dodata rfl h.live ht hlo hend fun _ => h)

/-! ## Runs -/

theorem Open.setState (h : Open base stream strict tp) {state : TcpState} {needFin : Bool}
    (hlive : Live { tp with state := state, needFin := needFin })
    (hest : state.haveEstablished = true → tp.state.haveEstablished = true) :
    Follows base stream strict (fun _ => False) tp { tp with state := state, needFin := needFin } :=
  .inl ⟨⟨{ h.receiving with }, hlive, fun hs => h.missing (hest hs)⟩, fun _ hk => hk.resolve_left nofun⟩

theorem Open.step (h : Open base stream strict tp) (he : Arrives base stream strict tp e) :
    Follows base stream strict (Brings tp e) tp (Tcp.step tp e) := by
  have hstay : Follows base stream strict (fun _ => False) tp tp :=
    .inl ⟨h, fun _ hk => hk.resolve_left nofun⟩
  have hlive := h.live
  cases e with
  | segment => exact h.segment he
  | usrClosed =>
    simp only [Tcp.step, Tcp.usrClosed]
    split
    next hs => exact h.setState (.inl hs) fun hest => hest
    next hs => exact h.setState (.inr (.inr (.inl rfl))) fun _ => by rw [hs]; rfl
    next hs => simp [Live, hs] at hlive
    next => exact hstay
  | ourFinAcked =>
    simp only [Tcp.step, Tcp.ourFinAcked]
    split
    next hs => exact h.setState (.inr (.inr (.inr rfl))) fun _ => by rw [hs]; rfl
    next hs => simp [Live, hs] at hlive
    next => exact hstay

theorem Closed.of_same {tp' : Tcpcb} (h : Closed stream strict tp) (hstate : tp'.state = tp.state)
    (hmore : tp'.cantRcvMore = tp.cantRcvMore) (hreceived : tp'.received = tp.received) :
    Closed stream strict tp' :=
  ⟨hmore.trans h.noMore, hreceived ▸ h.text, fun hs => hreceived.trans (h.all hs), hstate ▸ h.state⟩

/-- Text that arrives behind the end is not received. -/
theorem Closed.dodata (h : Closed stream strict tp) : Closed stream strict (Tcp.dodata tp ti flags) := by
  have hslow : Tcp.reassemble tp ti = tcpReass tp (some ti) := by
    rw [Tcp.reassemble, if_neg fun hfast => h.state.2 hfast.2.2]
  simp only [Tcp.dodata, hslow]
  split
  next =>
    obtain ⟨hstate, hmore, hreceived⟩ := present_same { tp with segs := enqueue tp.segs ti }
    have hpresented := h.of_same hstate hmore (hreceived h.noMore)
    split
    next =>
      exact closed_finReceived hpresented.text hpresented.all hpresented.state.1
        fun _ => hpresented.noMore
    next => exact hpresented
  next => exact h

theorem Closed.step (h : Closed stream strict tp) (e : Event) :
    Closed stream strict (Tcp.step tp e) := by
  have hsyn := h.state.1
  have hest := h.state.2
  cases e with
  | segment ti rcvWnd ack predicted =>
    simp only [Tcp.step, tcpInput, hest, hsyn, false_and, and_false, if_false]
    split
    next => exact h
    next =>
      split
      next => exact h.dodata
      next => exact h
  | usrClosed =>
    simp only [Tcp.step, Tcp.usrClosed]
    split
    next hs => exact absurd hs hsyn
    next hs => exact absurd hs hest
    next => exact { h with state := ⟨nofun, nofun⟩ }
    next => exact h
  | ourFinAcked =>
    simp only [Tcp.step, Tcp.ourFinAcked]
    split
    next => exact { h with state := ⟨nofun, nofun⟩ }
    next => exact { h with state := ⟨nofun, nofun⟩ }
    next => exact h

/-- The connection when the SYN has been received. -/
def opened (irs : BitVec 32) (established : Bool) : Tcpcb where
  state := if established then .established else .synReceived
  needFin := false
  rcvNxt := irs + 1
  segs := []
  cantRcvMore := false
  received := []

theorem opened_open (irs : BitVec 32) (established : Bool) (stream : List UInt8) (strict : Prop) :
    Open (irs + 1) stream strict (opened irs established) := by
  refine ⟨⟨rfl, ?_, List.nil_prefix, Nat.zero_le _, nofun⟩, ?_, fun _ => covers_nil⟩
  · simp [opened, seqAt]
  · cases established <;> simp [Live, opened]

theorem inv_step (h : Open base stream strict tp ∨ Closed stream strict tp)
    (he : Arrives base stream strict tp e) :
    Open base stream strict (step tp e) ∨ Closed stream strict (step tp e) :=
  h.elim (fun hopen => (hopen.step he).imp_left And.left) fun hclosed => .inr (hclosed.step e)

/-- In every run the receive buffer gets the bytes of the stream in order, none of them left out and
none twice. -/
theorem received_prefix (irs : BitVec 32) (established : Bool) (stream : List UInt8) (es : List Event)
    (hrun : Along step (Arrives (irs + 1) stream False) (opened irs established) es) :
    ∀ c ∈ states step (opened irs established) es, c.received <+: stream := by
  intro c hc
  rcases forall_states (fun _ _ => inv_step) (.inl (opened_open irs established stream False)) hrun c hc
    with hopen | hclosed
  · exact hopen.receiving.text
  · exact hclosed.text

/-- The end of a stream of three bytes arrives before its begin. -/
def outOfOrder : List Event :=
  [.segment ⟨2, 2, true, [[2], [3]], 1⟩ 100 true false, .segment ⟨1, 1, false, [[1]], 0⟩ 100 true false]

theorem outOfOrder_arrives (strict : Prop) :
    Along step (Arrives (0 + 1) [1, 2, 3] strict) (opened 0 true) outOfOrder :=
  ⟨fun _ => ⟨⟨rfl, rfl, by decide, fun _ _ => rfl⟩, by decide, by decide, by decide, fun _ _ => by decide⟩,
    fun _ => ⟨⟨rfl, rfl, by decide, nofun⟩, by decide, by decide, by decide, nofun⟩, trivial⟩

theorem received_prefix_three : (outOfOrder.foldl step (opened 0 true)).received <+: [1, 2, 3] :=
  received_prefix 0 true _ _ (outOfOrder_arrives False) _ mem_states_foldl

/-- A FIN that the window cuts off ends the stream too early. -/
example : let c := step (opened 0 true) (.segment ⟨1, 3, true, [[1, 2, 3]], 0⟩ 2 true false)
    c.cantRcvMore = true ∧ c.received = [1, 2] := by decide

end Rtems.Tcp
