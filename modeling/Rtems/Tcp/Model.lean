import Mathlib

/-!
# TCP input

The model of `tcp_reass` and of what `tcp_input` does with the text of a segment:
the trimming to the window, the sequencing and the end of the stream.  The mbufs of
a chain are the lists of their bytes.  Segments with SYN, RST or URG are left out,
and so are timers and acknowledgements.
-/

namespace Rtems.Tcp

/-! ## Mbufs -/

abbrev Chain := List (List UInt8)

/-- The loop of `m_adj` that trims from the head. -/
def trimHead : Chain → Nat → Chain
  | [], _ => []
  | m :: ms, len =>
    if len = 0 then m :: ms
    else if m.length ≤ len then [] :: trimHead ms (len - m.length)
    else m.drop len :: ms

/-- The loops of `m_adj` that find the mbuf with the last byte and empty those behind it. -/
def keepHead : Chain → Nat → Chain
  | [], _ => []
  | m :: ms, count =>
    if count ≤ m.length then m.take count :: ms.map fun _ => []
    else m :: keepHead ms (count - m.length)

/-- `m_adj`. -/
def mAdj (mp : Chain) (reqLen : Int) : Chain :=
  if 0 ≤ reqLen then trimHead mp reqLen.toNat
  else
    let len := (-reqLen).toNat
    match mp.getLast? with
    | none => mp
    | some m =>
      if len ≤ m.length then mp.dropLast ++ [m.take (m.length - len)]
      else keepHead mp (mp.flatten.length - len)

/-! ## Segments -/

/-- `SEQ_GT`. -/
def seqGt (a b : BitVec 32) : Bool := 0 < (a - b).toInt

/-- A segment of text: `ti_seq`, `ti_len`, TH_FIN of `ti_flags`, and its mbufs.  Ghost: the place
of its first byte in the stream. -/
structure Seg where
  seq : BitVec 32
  len : Nat
  fin : Bool
  mbufs : Chain
  place : Nat
deriving DecidableEq, Repr

/-- The first `i` bytes are dropped. -/
def Seg.advance (ti : Seg) (i : Nat) : Seg :=
  { ti with
    seq := ti.seq + BitVec.ofNat 32 i
    len := ti.len - i
    mbufs := mAdj ti.mbufs i
    place := ti.place + i }

/-- The sequence number behind the segment. -/
def Seg.next (ti : Seg) : BitVec 32 := ti.seq + BitVec.ofNat 32 ti.len

/-- `t_state`. -/
inductive TcpState where
  | closed | listen | synSent | synReceived | established | closeWait
  | finWait1 | closing | lastAck | finWait2 | timeWait
deriving DecidableEq, Repr

/-- `TCPS_HAVEESTABLISHED`. -/
def TcpState.haveEstablished : TcpState → Bool
  | .closed | .listen | .synSent | .synReceived => false
  | _ => true

/-- `TCPS_HAVERCVDFIN`. -/
def TcpState.haveRcvdFin (state : TcpState) : Bool := state = .timeWait

/-- The control block, TF_NEEDFIN of its flags, SS_CANTRCVMORE of the socket, and all the bytes
that `sbappend` has put into its receive buffer. -/
structure Tcpcb where
  state : TcpState
  needFin : Bool
  rcvNxt : BitVec 32
  segs : List Seg
  cantRcvMore : Bool
  received : List UInt8
deriving DecidableEq, Repr

/-! ## `tcp_reass` -/

/-- The preceding segment may provide some of the data. -/
def trimFront (front : List Seg) (ti : Seg) : Option Seg :=
  match front.getLast? with
  | none => some ti
  | some q =>
    let i := (q.next - ti.seq).toInt
    if i ≤ 0 then some ti
    else if ti.len ≤ i then none
    else some (ti.advance i.toNat)

/-- Succeeding segments are trimmed, or dequeued when they are covered. -/
def trimBack (next : BitVec 32) : List Seg → List Seg
  | [] => []
  | q :: segs =>
    let i := (next - q.seq).toInt
    if i ≤ 0 then q :: segs
    else if i < q.len then q.advance i.toNat :: segs
    else trimBack next segs

/-- The insertion into the queue. -/
def enqueue (segs : List Seg) (ti : Seg) : List Seg :=
  let front := segs.takeWhile (! seqGt ·.seq ti.seq)
  let back := segs.dropWhile (! seqGt ·.seq ti.seq)
  match trimFront front ti with
  | none => segs
  | some ti => front ++ ti :: trimBack ti.next back

/-- A segment is presented to the user. -/
def Tcpcb.deliver (tp : Tcpcb) (ti : Seg) : Tcpcb :=
  { tp with
    rcvNxt := tp.rcvNxt + BitVec.ofNat 32 ti.len
    received := if tp.cantRcvMore then tp.received else tp.received ++ ti.mbufs.flatten }

def presentLoop (tp : Tcpcb) (flags : Bool) : List Seg → Tcpcb × Bool
  | [] => ({ tp with segs := [] }, flags)
  | ti :: segs =>
    if ti.seq = tp.rcvNxt then presentLoop (tp.deliver ti) ti.fin segs
    else ({ tp with segs := ti :: segs }, flags)

def present (tp : Tcpcb) : Tcpcb × Bool :=
  if tp.state.haveEstablished then presentLoop tp false tp.segs else (tp, false)

/-- `tcp_reass`.  It returns TH_FIN. -/
def tcpReass (tp : Tcpcb) : Option Seg → Tcpcb × Bool
  | none => present tp
  | some ti => present { tp with segs := enqueue tp.segs ti }

/-- The segment is next and goes to the receive buffer. -/
def Tcpcb.append (tp : Tcpcb) (ti : Seg) : Tcpcb :=
  { tp with rcvNxt := ti.next, received := tp.received ++ ti.mbufs.flatten }

/-- `TCP_REASS`. -/
def reassemble (tp : Tcpcb) (ti : Seg) : Tcpcb × Bool :=
  if ti.seq = tp.rcvNxt ∧ tp.segs = [] ∧ tp.state = .established then (tp.append ti, ti.fin)
  else tcpReass tp (some ti)

/-! ## `tcp_input` -/

/-- What begins before the window is dropped.  TH_FIN is cleared in `tiflags`. -/
def trimLeft (tp : Tcpcb) (ti : Seg) : Seg × Bool :=
  let todrop := (tp.rcvNxt - ti.seq).toInt
  if todrop ≤ 0 then (ti, ti.fin)
  else if ti.len < todrop ∨ todrop = ti.len ∧ ti.fin = false then (ti.advance ti.len, false)
  else (ti.advance todrop.toNat, ti.fin)

/-- What ends behind the window is dropped.  TH_FIN is cleared in `tiflags`, but stays in
`ti_flags`. -/
def trimRight (tp : Tcpcb) (rcvWnd : Nat) (ti : Seg) (tiflags : Bool) : Option (Seg × Bool) :=
  let todrop := (ti.next - (tp.rcvNxt + BitVec.ofNat 32 rcvWnd)).toInt
  if todrop ≤ 0 then some (ti, tiflags)
  else if ti.len ≤ todrop ∧ ¬ (rcvWnd = 0 ∧ ti.seq = tp.rcvNxt) then none
  else some ({ ti with len := ti.len - todrop.toNat, mbufs := mAdj ti.mbufs (-todrop) }, false)

/-- The acknowledgement of the own SYN. -/
def establish (tp : Tcpcb) (ti : Seg) (tiflags : Bool) : Tcpcb :=
  let tp := { tp with
    state := if tp.needFin then .finWait1 else .established
    needFin := false }
  if ti.len = 0 ∧ tiflags = false then (tcpReass tp none).1 else tp

/-- The end of the stream. -/
def finReceived (tp : Tcpcb) : Tcpcb :=
  let tp :=
    if tp.state.haveRcvdFin then tp
    else { tp with cantRcvMore := true, rcvNxt := tp.rcvNxt + 1 }
  { tp with
    state := match tp.state with
      | .synReceived | .established => .closeWait
      | .finWait1 => .closing
      | .finWait2 => .timeWait
      | state => state }

/-- The text of a segment. -/
def dodata (tp : Tcpcb) (ti : Seg) (tiflags : Bool) : Tcpcb :=
  if (ti.len ≠ 0 ∨ tiflags) ∧ tp.state.haveRcvdFin = false then
    let (tp, flags) := reassemble tp ti
    if flags then finReceived tp else tp
  else tp

/-- `tcp_input` of a segment that has TH_ACK or not.  `predicted`: the acknowledgement and the
windows are as header prediction wants them, and there is room in the receive buffer. -/
def tcpInput (tp : Tcpcb) (ti : Seg) (rcvWnd : Nat) (ack predicted : Bool) : Tcpcb :=
  if predicted ∧ ack ∧ tp.state = .established ∧ ti.fin = false ∧ ti.seq = tp.rcvNxt ∧ tp.segs = [] then
    tp.append ti
  else
    let (ti, tiflags) := trimLeft tp ti
    match trimRight tp rcvWnd ti tiflags with
    | none => tp
    | some (ti, tiflags) =>
      if tp.state = .synReceived then
        dodata (if ack then establish tp ti tiflags else tp) ti tiflags
      else if ack then dodata tp ti tiflags
      else tp

/-- `tcp_usrclosed`. -/
def usrClosed (tp : Tcpcb) : Tcpcb :=
  match tp.state with
  | .synReceived => { tp with needFin := true }
  | .established => { tp with state := .finWait1 }
  | .closeWait => { tp with state := .lastAck }
  | _ => tp

/-- The own FIN is acknowledged. -/
def ourFinAcked (tp : Tcpcb) : Tcpcb :=
  match tp.state with
  | .finWait1 => { tp with state := .finWait2 }
  | .closing => { tp with state := .timeWait }
  | _ => tp

inductive Event where
  | segment (ti : Seg) (rcvWnd : Nat) (ack predicted : Bool)
  | usrClosed
  | ourFinAcked
deriving DecidableEq, Repr

def step (tp : Tcpcb) : Event → Tcpcb
  | .segment ti rcvWnd ack predicted => tcpInput tp ti rcvWnd ack predicted
  | .usrClosed => Tcp.usrClosed tp
  | .ourFinAcked => Tcp.ourFinAcked tp

end Rtems.Tcp
