import Rtems.Termios.Input

/-!
# Cooked lines

In canonical mode `iproc` edits the line in the cooked buffer, and a fill of the
buffer is to stop at the end of the line.  `fillBufferPoll` takes the characters
from the device and `fillBufferQueue` from the raw input ring.  The first one
returns as soon as `iproc` has met the end of a line.  The second one goes on
with what is left in the ring.  What `iproc` echoes is left out.
-/

namespace Rtems.Termios

open Lib

/-! ## The editor -/

/-- `tolower`. -/
def toLower (c : UInt8) : UInt8 := if 65 ≤ c ∧ c ≤ 90 then c + 32 else c

/-- The character that `iproc` works with, if it does not ignore it. -/
def mapInput (t : Settings) (c : UInt8) : Option UInt8 :=
  let c := if t.istrip then c &&& 127 else c
  let c := if t.iuclc then toLower c else c
  if c = 13 then
    if t.igncr then none
    else if t.icrnl then some 10
    else some c
  else if c = 10 ∧ t.inlcr then some 13
  else some c

/-- `erase`. -/
def erase (lineFlag : Bool) (cbuf : List UInt8) : List UInt8 :=
  if cbuf.length = 0 then cbuf
  else if lineFlag then []
  else cbuf.dropLast

/-- `iproc`, with its value, on a cooked buffer of this size. -/
def iproc (cbufsize : Nat) (t : Settings) (c : UInt8) (cbuf : List UInt8) : Bool × List UInt8 :=
  match mapInput t c with
  | none => (false, cbuf)
  | some c =>
    let store := if cbuf.length < cbufsize - 1 then (false, cbuf ++ [c]) else (false, cbuf)
    if c ≠ 0 ∧ t.icanon then
      if c = t.verase then (false, erase false cbuf)
      else if c = t.vkill then (false, erase true cbuf)
      else if c = t.veof then (true, cbuf)
      else if c = 10 then (true, cbuf ++ [c])
      else if c = t.veol ∨ c = t.veol2 then (true, cbuf ++ [c])
      else store
    else store

/-- The character ends a line. -/
def endsLine (t : Settings) (c : UInt8) : Bool :=
  match mapInput t c with
  | none => false
  | some c =>
    decide (c ≠ 0) && t.icanon && decide (c ≠ t.verase) && decide (c ≠ t.vkill) &&
      (decide (c = t.veof) || decide (c = 10) || decide (c = t.veol) || decide (c = t.veol2))

/-- The editor does nothing with the character: a carriage return under IGNCR,
or an erase or kill character when there is nothing to erase. -/
def Ignored (t : Settings) (cbuf : List UInt8) (c : UInt8) : Prop :=
  mapInput t c = none ∨
    cbuf = [] ∧ t.icanon = true ∧ ∃ d, mapInput t c = some d ∧ d ≠ 0 ∧ (d = t.verase ∨ d = t.vkill)

/-! ## Filling the buffer -/

/-- `fillBufferPoll` in canonical mode on the characters that the device
delivers, with those that are left.  Without the end of a line it goes on
polling. -/
def fillBufferPoll (cbufsize : Nat) (t : Settings) (cbuf : List UInt8) :
    List UInt8 → Option (List UInt8 × List UInt8)
  | [] => none
  | c :: cs =>
    match iproc cbufsize t c cbuf with
    | (true, cbuf) => some (cbuf, cs)
    | (false, cbuf) => fillBufferPoll cbufsize t cbuf cs

/-- The lines of `fills` fills of an empty buffer, one after the other. -/
def polledFills (cbufsize : Nat) (t : Settings) : Nat → List UInt8 → List (List UInt8)
  | 0, _ => []
  | fills + 1, input =>
    match fillBufferPoll cbufsize t [] input with
    | some (line, rest) => line :: polledFills cbufsize t fills rest
    | none => []

/-- All the lines that polling gets from these characters. -/
def polledLines (cbufsize : Nat) (t : Settings) (input : List UInt8) : List (List UInt8) :=
  polledFills cbufsize t input.length input

/-- Where a reader of the queue stands. -/
inductive Phase where
  /-- No fill is under way. -/
  | idle
  /-- In the loops of `fillBufferQueue`, with the value of `wait`. -/
  | filling (wait : Bool)
  /-- It waits for the semaphore of the ring. -/
  | blocked
deriving DecidableEq, Repr

/-- A line with a reader. -/
structure Cooker where
  receiver : Receiver
  phase : Phase
  cbuf : List UInt8
  /-- The buffers that the fills have left, the first one first. -/
  lines : List (List UInt8)

def Cooker.start (t : Tty) : Cooker where
  receiver := .start t
  phase := .idle
  cbuf := []
  lines := []

/-- What happens to a line with a reader. -/
inductive CookEvent where
  /-- The receive interrupt handler is called, takes a character or returns. -/
  | receive (e : Event)
  /-- `rtems_termios_read` finds the cooked buffer used up, and fills it. -/
  | begin
  /-- The reader takes a turn of the loops of `fillBufferQueue`. -/
  | turn
  /-- It obtains the semaphore. -/
  | wake
deriving DecidableEq, Repr

/-- The fill ends. -/
def Cooker.finish (s : Cooker) : Cooker := { s with phase := .idle, lines := s.lines ++ [s.cbuf] }

/-- One turn of the loops of `fillBufferQueue`. -/
def Cooker.turn (cbufsize : Nat) (s : Cooker) (wait : Bool) : Cooker :=
  if s.cbuf.length < cbufsize - 1 then
    match takeRaw s.receiver.tty with
    | some (c, _) =>
      let (ended, cbuf) := iproc cbufsize s.receiver.tty.settings c s.cbuf
      let done :=
        if s.receiver.tty.settings.icanon then ended
        else decide (s.receiver.tty.settings.vmin.toNat ≤ cbuf.length)
      { s with
        receiver := s.receiver.step .read
        cbuf := cbuf
        phase := .filling (wait && !done) }
    | none => if wait then { s with phase := .blocked } else s.finish
  else s.finish

def Cooker.step (cbufsize : Nat) (s : Cooker) : CookEvent → Cooker
  | .receive .read => s
  | .receive e => { s with receiver := s.receiver.step e }
  | .begin =>
    match s.phase with
    | .idle => { s with phase := .filling true, cbuf := [] }
    | _ => s
  | .turn =>
    match s.phase with
    | .filling wait => s.turn cbufsize wait
    | _ => s
  | .wake =>
    match s.phase with
    | .blocked =>
      if s.receiver.tty.rawInBufSemaphore then
        { s with
          receiver := { s.receiver with
            tty := { s.receiver.tty with rawInBufSemaphore := false } }
          phase := .filling true }
      else s
    | _ => s

/-- The lines whose ends the reader has met. -/
def Cooker.ended (s : Cooker) : List (List UInt8) :=
  match s.phase with
  | .filling false => s.lines ++ [s.cbuf]
  | _ => s.lines

/-- Among these characters there are never so many without the end of a line
that they fill the cooked buffer. -/
def ShortLines (cbufsize : Nat) (t : Settings) (input : List UInt8) : Prop :=
  ∀ pre mid post, input = pre ++ mid ++ post → (∀ c ∈ mid, endsLine t c = false) →
    mid.length < cbufsize - 1

/-- When a fill has met the end of a line and takes another character, it is one
that the editor ignores. -/
def Fresh (s : Cooker) (e : CookEvent) : Prop :=
  e = .turn → s.phase = .filling false →
    ∀ c t, takeRaw s.receiver.tty = some (c, t) → Ignored s.receiver.tty.settings s.cbuf c

/-! ## What the editor does -/

variable {n : Nat} {t : Settings} {c : UInt8} {b : List UInt8}

theorem iproc_ends (n : Nat) (t : Settings) (c : UInt8) (b : List UInt8) :
    (iproc n t c b).1 = endsLine t c := by
  unfold iproc endsLine
  cases hmap : mapInput t c with
  | none => rfl
  | some d =>
    simp only
    by_cases hcanon : d ≠ 0 ∧ t.icanon = true
    · rw [if_pos hcanon]
      by_cases herase : d = t.verase
      · simp [herase]
      · by_cases hkill : d = t.vkill
        · simp [hkill]
          split <;> rfl
        · rw [if_neg herase, if_neg hkill]
          split_ifs <;> simp_all
    · rw [if_neg hcanon]
      have hstore : (if b.length < n - 1 then (false, b ++ [d]) else (false, b)).1 = false := by
        split <;> rfl
      rw [hstore]
      by_cases hzero : d = 0
      · simp [hzero]
      · have hnot : t.icanon = false := by
          by_contra hyes
          exact hcanon ⟨hzero, eq_true_of_ne_false hyes⟩
        simp [hnot]

/-- A character makes the line one longer at most. -/
theorem length_iproc (n : Nat) (t : Settings) (c : UInt8) (b : List UInt8) :
    (iproc n t c b).2.length ≤ b.length + 1 := by
  have herase : ∀ lineFlag, (erase lineFlag b).length ≤ b.length + 1 := by
    intro lineFlag
    unfold erase
    split
    next => exact Nat.le_succ _
    next =>
      split
      next => exact Nat.zero_le _
      next =>
        rw [List.length_dropLast]
        omega
  unfold iproc
  cases mapInput t c with
  | none => exact Nat.le_succ _
  | some d =>
    simp only
    split_ifs
    all_goals first
      | exact herase _
      | exact Nat.le_succ _
      | exact (List.length_append ..).le

theorem Ignored.iproc_eq (h : Ignored t b c) (n : Nat) : iproc n t c b = (false, b) := by
  unfold iproc
  rcases h with hnone | ⟨rfl, hcanon, d, hmap, hzero, hcase⟩
  · rw [hnone]
  · rw [hmap]
    simp only
    rw [if_pos ⟨hzero, hcanon⟩]
    by_cases herase : d = t.verase
    · rw [if_pos herase]
      rfl
    · rw [if_neg herase, if_pos (hcase.resolve_left herase)]
      rfl

/-- What is ignored in a line is ignored in an empty one. -/
theorem Ignored.nil (h : Ignored t b c) : Ignored t [] c := by
  rcases h with hnone | ⟨-, h⟩
  · exact .inl hnone
  · exact .inr ⟨rfl, h⟩

/-! ## Polling, one character after the other -/

/-- The finished lines and the line under way. -/
structure Edit where
  lines : List (List UInt8)
  cbuf : List UInt8

/-- A polling reader gets a character. -/
def Edit.put (n : Nat) (t : Settings) (e : Edit) (c : UInt8) : Edit :=
  if endsLine t c then ⟨e.lines ++ [(iproc n t c e.cbuf).2], []⟩
  else ⟨e.lines, (iproc n t c e.cbuf).2⟩

def edit (n : Nat) (t : Settings) (input : List UInt8) : Edit :=
  input.foldl (Edit.put n t) ⟨[], []⟩

theorem edit_append (input : List UInt8) (c : UInt8) :
    edit n t (input ++ [c]) = (edit n t input).put n t c := by
  unfold edit
  rw [List.foldl_append]
  rfl

/-- A fill takes the characters up to the end of a line, and leaves the line in
the buffer. -/
theorem fillBufferPoll_spec (lines : List (List UInt8)) (b input : List UInt8) :
    match fillBufferPoll n t b input with
    | some (line, rest) => rest.length < input.length ∧
        input.foldl (Edit.put n t) ⟨lines, b⟩ = rest.foldl (Edit.put n t) ⟨lines ++ [line], []⟩
    | none => (input.foldl (Edit.put n t) ⟨lines, b⟩).lines = lines := by
  induction input generalizing b with
  | nil => rfl
  | cons c cs ih =>
    have hends := iproc_ends n t c b
    unfold fillBufferPoll
    cases hproc : iproc n t c b with
    | mk ended b' =>
      rw [hproc] at hends
      rw [List.foldl_cons]
      unfold Edit.put
      rw [hproc, ← hends]
      cases ended with
      | true => exact ⟨Nat.lt_succ_self _, rfl⟩
      | false =>
        have htail := ih b'
        simp only [Bool.false_eq_true, if_false]
        revert htail
        cases fillBufferPoll n t b' cs with
        | none => exact id
        | some left => exact fun htail => ⟨Nat.lt_succ_of_lt htail.1, htail.2⟩

/-- The lines of the fills are those of the characters. -/
theorem polledFills_eq (fills : Nat) (lines : List (List UInt8)) (input : List UInt8)
    (h : input.length ≤ fills) :
    lines ++ polledFills n t fills input = (input.foldl (Edit.put n t) ⟨lines, []⟩).lines := by
  induction fills generalizing lines input with
  | zero =>
    rw [List.eq_nil_of_length_eq_zero (Nat.le_zero.mp h)]
    exact List.append_nil _
  | succ fills ih =>
    have hspec := fillBufferPoll_spec (n := n) (t := t) lines [] input
    unfold polledFills
    revert hspec
    cases fillBufferPoll n t [] input with
    | none =>
      intro hspec
      simp only at hspec
      rw [hspec]
      exact List.append_nil _
    | some left =>
      rintro ⟨hless, hfold⟩
      rw [hfold, ← ih _ _ (by omega)]
      exact (List.append_assoc lines [left.1] _).symm

theorem polledLines_eq (input : List UInt8) :
    polledLines n t input = (edit n t input).lines := by
  have h := polledFills_eq (n := n) (t := t) input.length [] input (Nat.le_refl _)
  rwa [List.nil_append] at h

/-- The line under way is no longer than the characters since the last end of a
line. -/
theorem length_edit_cbuf (input : List UInt8) : ∃ pre mid, input = pre ++ mid ∧
    (∀ c ∈ mid, endsLine t c = false) ∧ (edit n t input).cbuf.length ≤ mid.length := by
  induction input using List.reverseRecOn with
  | nil => exact ⟨[], [], rfl, fun c hc => absurd hc List.not_mem_nil, Nat.le_refl _⟩
  | append_singleton input c ih =>
    obtain ⟨pre, mid, rfl, hmid, hlen⟩ := ih
    rw [edit_append]
    unfold Edit.put
    cases hends : endsLine t c with
    | true =>
      refine ⟨pre ++ mid ++ [c], [], (List.append_nil _).symm, ?_, Nat.le_refl _⟩
      exact fun d hd => absurd hd List.not_mem_nil
    | false =>
      refine ⟨pre, mid ++ [c], List.append_assoc .., ?_, ?_⟩
      · intro d hd
        rcases List.mem_append.mp hd with hd | hd
        · exact hmid d hd
        · rw [List.mem_singleton.mp hd]
          exact hends
      · have hone := length_iproc n t c (edit n t (pre ++ mid)).cbuf
        rw [List.length_append]
        exact hone.trans (Nat.succ_le_succ hlen)

theorem ShortLines.cbuf_lt {input rest : List UInt8} (h : ShortLines n t (input ++ rest)) :
    (edit n t input).cbuf.length < n - 1 := by
  obtain ⟨pre, mid, rfl, hmid, hlen⟩ := length_edit_cbuf (n := n) (t := t) input
  exact Nat.lt_of_le_of_lt hlen (h pre mid rest rfl hmid)

/-- More characters only add lines. -/
theorem edit_prefix (input rest : List UInt8) :
    (edit n t input).lines <+: (edit n t (input ++ rest)).lines := by
  induction rest using List.reverseRecOn with
  | nil => rw [List.append_nil]
  | append_singleton rest c ih =>
    refine ih.trans ?_
    rw [← List.append_assoc, edit_append]
    unfold Edit.put
    split
    next => exact List.prefix_append _ _
    next => exact List.prefix_refl _

/-! ## The reader of the queue -/

/-- What a polling reader would have, at each point of a fill. -/
def Cooker.asEdit (s : Cooker) : Edit :=
  match s.phase with
  | .idle => ⟨s.lines, []⟩
  | .filling true => ⟨s.lines, s.cbuf⟩
  | .filling false => ⟨s.lines ++ [s.cbuf], []⟩
  | .blocked => ⟨s.lines, s.cbuf⟩

/-- What holds along a fresh run. -/
structure Cooker.Inv (n : Nat) (t : Settings) (s : Cooker) : Prop where
  held : s.receiver.Held
  settings : s.receiver.tty.settings = t
  edited : edit n t s.receiver.taken = s.asEdit
  room : s.cbuf.length ≤ n - 1

variable {s : Cooker}

theorem Receiver.taken_step {r : Receiver} {e : Event} (h : e ≠ .read) :
    (r.step e).taken = r.taken := by
  have hmoves := r.moves e
  revert hmoves
  generalize r.step e = r'
  intro hmoves
  cases hmoves with
  | stays => rfl
  | called buf hcall => rfl
  | character c cs flowRcv dropped hcall => rfl
  | returned flowRcv dropped hcall => rfl
  | taken c t htake => exact absurd rfl h

theorem Cooker.Inv.receive (h : s.Inv n t) {e : Event} (he : e ≠ .read) :
    Cooker.Inv n t { s with receiver := s.receiver.step e } where
  held := h.held.step e
  settings := (Receiver.settings_step h.held e).trans h.settings
  edited := by
    rw [Receiver.taken_step he]
    exact h.edited
  room := h.room

/-- A character goes from the ring to the editor. -/
theorem Cooker.Inv.take (h : s.Inv n t) {wait : Bool}
    (hphase : s.phase = .filling wait) (hroom : s.cbuf.length < n - 1) {t' : Tty}
    (htake : takeRaw s.receiver.tty = some (c, t'))
    (hignored : wait = false → Ignored t s.cbuf c) :
    Cooker.Inv n t { s with
      receiver := s.receiver.step .read
      cbuf := (iproc n t c s.cbuf).2
      phase := .filling (wait && !(iproc n t c s.cbuf).1) } := by
  have hedited := h.edited
  have htaken : (s.receiver.step .read).taken = s.receiver.taken ++ [c] := by
    unfold Receiver.step
    simp only [htake]
  constructor
  case held => exact h.held.step .read
  case settings => exact (Receiver.settings_step h.held .read).trans h.settings
  case room =>
    have hone := length_iproc n t c s.cbuf
    show (iproc n t c s.cbuf).2.length ≤ n - 1
    omega
  case edited =>
    rw [htaken, edit_append, hedited, iproc_ends]
    unfold Cooker.asEdit Edit.put
    rw [hphase]
    cases wait with
    | true =>
      cases hends : endsLine t c with
      | true => rfl
      | false => rfl
    | false =>
      have hsame := (hignored rfl).iproc_eq n
      have hends := iproc_ends n t c s.cbuf
      rw [hsame] at hends
      rw [← hends, hsame, (hignored rfl).nil.iproc_eq n]
      rfl

theorem Cooker.Inv.finish (h : s.Inv n t) (hphase : s.phase = .filling false) :
    s.finish.Inv n t where
  held := h.held
  settings := h.settings
  edited := by
    have hedited := h.edited
    unfold Cooker.asEdit at hedited
    rw [hphase] at hedited
    exact hedited
  room := h.room

theorem Cooker.Inv.turn (h : s.Inv n t) (hcanon : t.icanon = true)
    (hshort : ShortLines n t s.receiver.stored) {wait : Bool} (hphase : s.phase = .filling wait)
    (hfresh : Fresh s .turn) : (s.turn n wait).Inv n t := by
  have hedited := h.edited
  unfold Cooker.turn
  split
  next hroom =>
    cases htake : takeRaw s.receiver.tty with
    | some taken =>
      simp only [h.settings, hcanon, if_true]
      refine h.take hphase hroom htake ?_
      rintro rfl
      rw [← h.settings]
      exact hfresh rfl hphase taken.1 taken.2 htake
    | none =>
      cases wait with
      | true =>
        refine ⟨h.held, h.settings, ?_, h.room⟩
        unfold Cooker.asEdit at hedited
        rw [hphase] at hedited
        exact hedited
      | false => exact h.finish hphase
  next hfull =>
    cases wait with
    | true =>
      rw [h.held.ring] at hshort
      have hlt := hshort.cbuf_lt
      unfold Cooker.asEdit at hedited
      rw [hedited, hphase] at hlt
      exact absurd hlt hfull
    | false => exact h.finish hphase

theorem Cooker.Inv.step (h : s.Inv n t) (hcanon : t.icanon = true)
    (hshort : ShortLines n t s.receiver.stored) {e : CookEvent} (hfresh : Fresh s e) :
    (s.step n e).Inv n t := by
  have hedited := h.edited
  cases e with
  | receive e =>
    cases e with
    | read => exact h
    | call buf => exact h.receive fun he => by cases he
    | character => exact h.receive fun he => by cases he
    | back => exact h.receive fun he => by cases he
  | begin =>
    unfold Cooker.step
    cases hphase : s.phase with
    | idle =>
      refine ⟨h.held, h.settings, ?_, Nat.zero_le _⟩
      unfold Cooker.asEdit at hedited
      rw [hphase] at hedited
      exact hedited
    | filling wait => exact h
    | blocked => exact h
  | turn =>
    unfold Cooker.step
    cases hphase : s.phase with
    | idle => exact h
    | filling wait => exact h.turn hcanon hshort hphase hfresh
    | blocked => exact h
  | wake =>
    unfold Cooker.step
    cases hphase : s.phase with
    | idle => exact h
    | filling wait => exact h
    | blocked =>
      simp only
      split
      next =>
        refine ⟨⟨h.held.bounds, h.held.ring⟩, h.settings, ?_, h.room⟩
        unfold Cooker.asEdit at hedited
        rw [hphase] at hedited
        exact hedited
      next => exact h

/-- In every state of a fresh run the lines whose ends the reader of the queue
has met are the lines that polling gets from the characters that it has taken.
They are the first ones that polling gets from all the characters of the ring,
and the cooked buffer has room for the line. -/
theorem lines_agree {tty : Tty} (hbounds : tty.rawInBuf.InBounds)
    (hcanon : tty.settings.icanon = true) (events : List CookEvent)
    (hshort : ∀ s ∈ states (Cooker.step n) (.start tty) events,
      ShortLines n tty.settings s.receiver.stored)
    (hfresh : Along (Cooker.step n) Fresh (.start tty) events) :
    ∀ s ∈ states (Cooker.step n) (.start tty) events,
      s.ended = polledLines n tty.settings s.receiver.taken ∧
        s.ended <+: polledLines n tty.settings s.receiver.stored ∧ s.cbuf.length ≤ n - 1 := by
  have hstart : (Cooker.start tty).Inv n tty.settings := ⟨⟨hbounds, rfl⟩, rfl, rfl, Nat.zero_le _⟩
  intro s hs
  have hinv : s.Inv n tty.settings := by
    refine forall_states ?_ hstart (hfresh.and (along_of_states hshort)) s hs
    exact fun _ _ h hok => h.step hcanon hok.2 hok.1
  have hended : s.ended = polledLines n tty.settings s.receiver.taken := by
    rw [polledLines_eq, hinv.edited]
    unfold Cooker.ended Cooker.asEdit
    cases s.phase with
    | idle => rfl
    | filling wait => cases wait <;> rfl
    | blocked => rfl
  refine ⟨hended, ?_, hinv.room⟩
  rw [hended, polledLines_eq, polledLines_eq, hinv.held.ring]
  exact edit_prefix _ _

theorem ShortLines.of_length {input : List UInt8} (h : input.length < n - 1) :
    ShortLines n t input := by
  rintro pre mid post rfl -
  simp only [List.length_append] at h
  omega

theorem Fresh.of_quiet {s : Cooker} {e : CookEvent}
    (h : e ≠ .turn ∨ s.phase ≠ .filling false ∨ takeRaw s.receiver.tty = none) : Fresh s e := by
  intro he hphase c t htake
  rcases h with hne | hne | hnone
  · exact absurd he hne
  · exact absurd hphase hne
  · exact absurd (hnone.symm.trans htake) (Option.some_ne_none _).symm

/-- A line of two characters is received, and a reader fills its buffer. -/
def readLine (c : UInt8) : List CookEvent :=
  [.receive (.call [c, 10]), .receive .character, .receive .character, .receive .back, .begin,
    .turn, .turn, .turn]

/-- A second line is received when the first one has been filled in. -/
theorem lines_agree_one :
    ((readLine 97 ++ readLine 98).foldl (Cooker.step 8) (.start (openTty 8 8 false false))).lines =
      [[97, 10], [98, 10]] ∧
    ∀ s ∈ states (Cooker.step 8) (.start (openTty 8 8 false false)) (readLine 97 ++ readLine 98),
      s.ended = polledLines 8 defaultSettings s.receiver.taken ∧
        s.ended <+: polledLines 8 defaultSettings s.receiver.stored ∧ s.cbuf.length ≤ 8 - 1 := by
  have hshort : ∀ s ∈ states (Cooker.step 8) (.start (openTty 8 8 false false))
      (readLine 97 ++ readLine 98), s.receiver.stored.length < 8 - 1 := by decide
  have hfresh : Along (Cooker.step 8) Fresh (.start (openTty 8 8 false false))
      (readLine 97 ++ readLine 98) := by
    refine ⟨?_, ?_, ?_, ?_, ?_, ?_, ?_, ?_, ?_, ?_, ?_, ?_, ?_, ?_, ?_, ?_, trivial⟩ <;>
      exact .of_quiet (by decide)
  exact ⟨by decide, lines_agree ⟨by decide, by decide⟩ rfl _ (fun s hs => .of_length (hshort s hs))
    hfresh⟩

/-- A line and the first character of the next one are in the ring when the fill
begins.  It leaves both of them as one line, and polling does not. -/
theorem lines_agree_next :
    let s := ([.receive (.call [97, 10, 98]), .receive .character, .receive .character,
      .receive .character, .receive .back, .begin, .turn, .turn, .turn, .turn] :
        List CookEvent).foldl (Cooker.step 8) (.start (openTty 8 8 false false))
    s.phase = .idle ∧ s.lines = [[97, 10, 98]] ∧
      polledLines 8 defaultSettings s.receiver.stored = [[97, 10]] := by
  decide

end Rtems.Termios
