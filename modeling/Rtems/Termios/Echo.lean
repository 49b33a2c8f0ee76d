import Rtems.Termios.Canonical

/-!
# Echo and erasure

In canonical mode `iproc` echoes a character that it accepts, and `erase` takes
the last one off the cooked buffer and backs up over what `echo` has sent.  For
most characters that is a fixed number of columns.  For a tab the columns of all
the characters before it are added up again.

What is sent goes to a terminal of unlimited width.  `echo` lets a newline
through to `oproc`, but `erase` takes it for a control character that was shown
in two columns.
-/

namespace Rtems.Termios

/-! ## The terminal and its line -/

/-- The bits of `c_oflag` and `c_lflag` that `oproc`, `echo` and `erase` read. -/
structure EchoFlags where
  opost : Bool
  olcuc : Bool
  onlcr : Bool
  ocrnl : Bool
  onocr : Bool
  onlret : Bool
  /-- TABDLY is XTABS. -/
  xtabs : Bool
  echo : Bool
  echoe : Bool
  echok : Bool
  echonl : Bool
  echoctl : Bool
deriving DecidableEq, Repr

/-- `struct rtems_termios_tty`, as far as the line is concerned, and the characters that
`rtems_termios_puts` was given, the first one first. -/
structure EditLine where
  settings : Settings
  flags : EchoFlags
  column : Nat
  readStartColumn : Nat
  cbuf : List UInt8
  output : List UInt8

/-- `iscntrl`, in the C locale. -/
def isCntrl (c : UInt8) : Bool := decide (c < 32) || c == 127

/-- `toupper`, in the C locale. -/
def toUpper (c : UInt8) : UInt8 := if 97 ≤ c ∧ c ≤ 122 then c - 32 else c

/-- Where the cursor of a terminal is after a character.  With ONLRET a newline does what a carriage
return does. -/
def cursorAfter (onlret : Bool) (cursor : Nat) (c : UInt8) : Nat :=
  if c = 8 then cursor - 1
  else if c = 9 then cursor + (8 - cursor % 8)
  else if c = 10 then if onlret then 0 else cursor
  else if c = 13 then 0
  else if isCntrl c then cursor
  else cursor + 1

namespace EditLine

/-- The column of the cursor. -/
def cursor (t : EditLine) : Nat := t.output.foldl (cursorAfter t.flags.onlret) 0

/-- `rtems_termios_puts`. -/
def puts (t : EditLine) (buf : List UInt8) : EditLine := { t with output := t.output ++ buf }

/-- `oproc`. -/
def oproc (t : EditLine) (c : UInt8) : EditLine :=
  if t.flags.opost then
    if c = 10 then
      let t := if t.flags.onlret then { t with column := 0 } else t
      let t := if t.flags.onlcr then { t.puts [13] with column := 0 } else t
      t.puts [c]
    else if c = 13 then
      if t.flags.onocr ∧ t.column = 0 then t
      else if t.flags.ocrnl then
        let t := if t.flags.onlret then { t with column := 0 } else t
        t.puts [10]
      else { t with column := 0 }.puts [c]
    else if c = 9 then
      let i := 8 - (t.column &&& 7)
      if t.flags.xtabs then { t with column := t.column + i }.puts (List.replicate i 32)
      else { t with column := t.column + i }.puts [c]
    else if c = 8 then { t with column := t.column - 1 }.puts [c]
    else
      let c := if t.flags.olcuc then toUpper c else c
      let t := if isCntrl c then t else { t with column := t.column + 1 }
      t.puts [c]
  else t.puts [c]

/-- `echo`. -/
def echo (t : EditLine) (c : UInt8) : EditLine :=
  if t.flags.echoctl && isCntrl c && c != 9 && c != 10 then
    { t.puts [94, c ^^^ 64] with column := t.column + 2 }
  else t.oproc c

/-- The loop of `erase` that finds the column of a tab. -/
def tabColumn (echoctl : Bool) (readStartColumn : Nat) (cbuf : List UInt8) : Nat :=
  cbuf.foldl (fun col c =>
    if c = 9 then (col ||| 7) + 1
    else if isCntrl c then if echoctl then col + 2 else col
    else col + 1) readStartColumn

/-- Back up over one column. -/
def rubOut (t : EditLine) : EditLine := { t.puts [8, 32, 8] with column := t.column - 1 }

/-- One turn of the loop of `erase`. -/
def eraseTurn (lineFlag : Bool) (t : EditLine) : EditLine :=
  match t.cbuf.getLast? with
  | none => t
  | some c =>
    let t := { t with cbuf := t.cbuf.dropLast }
    if t.flags.echo then
      if !lineFlag && !t.flags.echoe then t.echo t.settings.verase
      else if c = 9 then
        let col := tabColumn t.flags.echoctl t.readStartColumn t.cbuf
        { t.puts (List.replicate (t.column - col) 8) with column := t.column - (t.column - col) }
      else
        let t := if isCntrl c && t.flags.echoctl then t.rubOut else t
        if !isCntrl c || t.flags.echoctl then t.rubOut else t
    else t

/-- `erase`. -/
def erase (lineFlag : Bool) (t : EditLine) : EditLine :=
  if t.cbuf = [] then t
  else if lineFlag && !t.flags.echo then { t with cbuf := [] }
  else if lineFlag && !t.flags.echoe then
    let t := { t with cbuf := [] }.echo t.settings.vkill
    if t.flags.echok then t.echo 10 else t
  else if lineFlag then (eraseTurn true)^[t.cbuf.length] t
  else eraseTurn false t

/-- The character is stored. -/
def store (t : EditLine) (c : UInt8) : EditLine := { t with cbuf := t.cbuf ++ [c] }

/-- `iproc`, with its value. -/
def iproc (cbufsize : Nat) (t : EditLine) (c : UInt8) : Bool × EditLine :=
  match mapInput t.settings c with
  | none => (false, t)
  | some c =>
    let accept := if t.flags.echo then (t.echo c).store c else t.store c
    let keep := if t.cbuf.length < cbufsize - 1 then (false, accept) else (false, t)
    if c ≠ 0 ∧ t.settings.icanon then
      if c = t.settings.verase then (false, t.erase false)
      else if c = t.settings.vkill then (false, t.erase true)
      else if c = t.settings.veof then (true, t)
      else if c = 10 then
        (true, if t.flags.echo || t.flags.echonl then (t.echo c).store c else t.store c)
      else if c = t.settings.veol ∨ c = t.settings.veol2 then (true, accept)
      else keep
    else keep

end EditLine

/-! ## Columns -/

/-- The column behind a tab, as `oproc` has it. -/
theorem and_seven (n : Nat) : n &&& 7 = n % 8 := Nat.and_two_pow_sub_one_eq_mod n 3

/-- The column behind a tab, as `erase` has it. -/
theorem or_seven (n : Nat) : (n ||| 7) + 1 = n + (8 - n % 8) := by
  have hmod : (n ||| 7) % 2 ^ 3 = n % 2 ^ 3 ||| 7 % 2 ^ 3 := Nat.or_mod_two_pow
  have hdiv : (n ||| 7) / 2 ^ 3 = n / 2 ^ 3 ||| 7 / 2 ^ 3 := Nat.or_div_two_pow
  have hseven : ∀ r : Fin 8, r.val ||| 7 = 7 := by decide
  have hlast := hseven ⟨n % 8, Nat.mod_lt n (by omega)⟩
  simp at hmod hdiv hlast
  omega

/-- The column after the echo of a character. -/
def advance (t : EchoFlags) (col : Nat) (c : UInt8) : Nat :=
  if c = 10 then if t.onlret || t.onlcr then 0 else col
  else if c = 9 then col + (8 - col % 8)
  else if isCntrl c then col + 2
  else col + 1

/-- The column after the erasure of a character behind others. -/
def retreat (start : Nat) (before : List UInt8) (c : UInt8) (col : Nat) : Nat :=
  if c = 9 then min col (EditLine.tabColumn true start before)
  else if isCntrl c then col - 2
  else col - 1

/-- A line with output processing that echoes, erases and shows controls. -/
structure EchoFlags.Erases (t : EchoFlags) : Prop where
  opost : t.opost = true
  echo : t.echo = true
  echoe : t.echoe = true
  echoctl : t.echoctl = true

/-- The cursor is where the line says. -/
structure EditLine.Ready (t : EditLine) : Prop where
  flags : t.flags.Erases
  cursor : t.cursor = t.column

theorem cursor_puts (t : EditLine) (buf : List UInt8) :
    (t.puts buf).cursor = buf.foldl (cursorAfter t.flags.onlret) t.cursor :=
  List.foldl_append

theorem byte_cases {P : UInt8 → Prop} (h : ∀ n : Fin 256, P (UInt8.ofFin n)) (c : UInt8) : P c :=
  h c.toFin

/-- A control character is shown as two characters that are none. -/
theorem shown_cntrl (c : UInt8) : isCntrl c = true → isCntrl (c ^^^ 64) = false := by
  revert c
  refine byte_cases ?_
  decide +kernel

theorem upper_plain (c : UInt8) : isCntrl c = false → isCntrl (toUpper c) = false := by
  revert c
  refine byte_cases ?_
  decide +kernel

theorem cursorAfter_plain {onlret : Bool} {col : Nat} {c : UInt8} (hc : isCntrl c = false) :
    cursorAfter onlret col c = col + 1 := by
  have hne : c ≠ 8 ∧ c ≠ 9 ∧ c ≠ 10 ∧ c ≠ 13 := by
    refine ⟨?_, ?_, ?_, ?_⟩ <;>
      · rintro rfl
        cases hc
  simp [cursorAfter, hne, hc]

theorem foldl_spaces (onlret : Bool) (n col : Nat) :
    (List.replicate n 32).foldl (cursorAfter onlret) col = col + n := by
  induction n generalizing col with
  | zero => rfl
  | succ n ih =>
    rw [List.replicate_succ, List.foldl_cons, ih, cursorAfter_plain (by decide)]
    omega

theorem foldl_backspaces (onlret : Bool) (n col : Nat) :
    (List.replicate n 8).foldl (cursorAfter onlret) col = col - n := by
  induction n generalizing col with
  | zero => rfl
  | succ n ih =>
    rw [List.replicate_succ, List.foldl_cons, ih]
    show col - 1 - n = _
    omega

/-- The line and its cursor have got to a column. -/
structure EditLine.At (t t' : EditLine) (col : Nat) : Prop where
  settings : t'.settings = t.settings
  flags : t'.flags = t.flags
  readStartColumn : t'.readStartColumn = t.readStartColumn
  cbuf : t'.cbuf = t.cbuf
  column : t'.column = col
  cursor : t'.cursor = col

/-- Characters are sent and the column is set to where they leave the cursor. -/
theorem EditLine.At.puts (t : EditLine) {buf : List UInt8} {col : Nat}
    (hbuf : buf.foldl (cursorAfter t.flags.onlret) t.cursor = col) :
    t.At { t.puts buf with column := col } col :=
  ⟨rfl, rfl, rfl, rfl, rfl, (cursor_puts t buf).trans hbuf⟩

variable {t t' : EditLine} {c : UInt8} {col : Nat}

theorem EditLine.Ready.newline (h : t.Ready) :
    t.At (t.oproc 10) (if t.flags.onlret || t.flags.onlcr then 0 else t.column) := by
  have heq : t.oproc 10 =
      { t.puts (if t.flags.onlcr then [13, 10] else [10]) with
        column := if t.flags.onlret || t.flags.onlcr then 0 else t.column } := by
    unfold EditLine.oproc
    rw [if_pos h.flags.opost, if_pos rfl]
    cases hret : t.flags.onlret <;> cases hcr : t.flags.onlcr <;> simp [EditLine.puts, hcr]
  rw [heq]
  refine EditLine.At.puts t ?_
  cases hret : t.flags.onlret <;> cases hcr : t.flags.onlcr <;> simp [cursorAfter, h.cursor]

theorem EditLine.Ready.tab (h : t.Ready) : t.At (t.oproc 9) (t.column + (8 - t.column % 8)) := by
  unfold EditLine.oproc
  rw [if_pos h.flags.opost, if_neg (by decide), if_neg (by decide), if_pos rfl]
  dsimp only
  rw [and_seven]
  split
  next =>
    refine EditLine.At.puts t ?_
    rw [foldl_spaces, h.cursor]
  next =>
    refine EditLine.At.puts t ?_
    simp [cursorAfter, h.cursor]

theorem EditLine.Ready.printed (h : t.Ready) (hc : isCntrl c = false) :
    t.At (t.oproc c) (t.column + 1) := by
  have hne : c ≠ 8 ∧ c ≠ 9 ∧ c ≠ 10 ∧ c ≠ 13 := by
    refine ⟨?_, ?_, ?_, ?_⟩ <;>
      · rintro rfl
        cases hc
  have hsent : isCntrl (if t.flags.olcuc then toUpper c else c) = false := by
    split
    next => exact upper_plain c hc
    next => exact hc
  unfold EditLine.oproc
  rw [if_pos h.flags.opost, if_neg hne.2.2.1, if_neg hne.2.2.2, if_neg hne.2.1, if_neg hne.1]
  dsimp only
  rw [hsent, if_neg Bool.false_ne_true]
  refine EditLine.At.puts t ?_
  rw [← h.cursor]
  exact cursorAfter_plain hsent

theorem EditLine.Ready.shown (h : t.Ready) (hc : isCntrl c = true) :
    t.At { t.puts [94, c ^^^ 64] with column := t.column + 2 } (t.column + 2) := by
  refine EditLine.At.puts t ?_
  rw [h.cursor]
  show cursorAfter _ (cursorAfter _ t.column 94) (c ^^^ 64) = _
  rw [cursorAfter_plain (shown_cntrl c hc), cursorAfter_plain (by decide)]

/-- What `echo` does. -/
theorem EditLine.Ready.echo (h : t.Ready) (c : UInt8) :
    t.At (t.echo c) (advance t.flags t.column c) := by
  unfold EditLine.echo advance
  rw [h.flags.echoctl, Bool.true_and]
  rcases eq_or_ne c 10 with rfl | h10
  · exact h.newline
  rcases eq_or_ne c 9 with rfl | h9
  · exact h.tab
  have hte : (c != 9 && c != 10) = true := by simp [h9, h10]
  rw [Bool.and_assoc, hte, Bool.and_true, if_neg h10, if_neg h9]
  split
  next hc => exact h.shown hc
  next hc => exact h.printed (Bool.eq_false_of_not_eq_true hc)

/-- What one turn of `erase` does. -/
theorem EditLine.Ready.eraseTurn (h : t.Ready) {p : List UInt8} (hcbuf : t.cbuf = p ++ [c])
    (lineFlag : Bool) :
    { t with cbuf := p }.At (t.eraseTurn lineFlag)
      (retreat t.readStartColumn p c t.column) := by
  have hlast : t.cbuf.getLast? = some c := by
    rw [hcbuf]
    exact List.getLast?_concat
  have hinit : t.cbuf.dropLast = p := by
    rw [hcbuf]
    exact List.dropLast_concat
  unfold EditLine.eraseTurn retreat
  rw [hlast]
  dsimp only
  rw [hinit, if_pos h.flags.echo, h.flags.echoe, Bool.not_true, Bool.and_false,
    if_neg Bool.false_ne_true, h.flags.echoctl, Bool.and_true]
  split
  next =>
    have hmin : t.column - (t.column - EditLine.tabColumn true t.readStartColumn p) =
        min t.column (EditLine.tabColumn true t.readStartColumn p) := by omega
    rw [← hmin]
    refine EditLine.At.puts { t with cbuf := p } ?_
    rw [foldl_backspaces]
    exact congrArg (· - _) h.cursor
  next =>
    have hback : ∀ u : EditLine, u.cursor = u.column → u.At u.rubOut (u.column - 1) := by
      intro u hu
      refine EditLine.At.puts u ?_
      rw [hu]
      show cursorAfter u.flags.onlret (cursorAfter u.flags.onlret (u.column - 1) 32) 8 = _
      have hspace : cursorAfter u.flags.onlret (u.column - 1) 32 = u.column - 1 + 1 :=
        cursorAfter_plain (by decide)
      rw [hspace]
      rfl
    have hfirst := hback { t with cbuf := p } h.cursor
    cases hc : isCntrl c with
    | false =>
      simp only [Bool.not_false, Bool.true_or, Bool.false_eq_true, if_true, if_false]
      exact hfirst
    | true =>
      -- The bit is still set when it is read the second time.
      have hset : (EditLine.rubOut { t with cbuf := p }).flags.echoctl = true := h.flags.echoctl
      have hsecond := hback _ (hfirst.cursor.trans hfirst.column.symm)
      simp only [if_true, hset, Bool.or_true]
      exact ⟨rfl, rfl, rfl, rfl, rfl, hsecond.cursor⟩

/-! ## The cooked buffer -/

theorem cbuf_oproc (t : EditLine) (c : UInt8) : (t.oproc c).cbuf = t.cbuf := by
  unfold EditLine.oproc
  split
  next =>
    split
    next =>
      dsimp only
      split <;> split <;> rfl
    next =>
      split
      next =>
        split
        next => rfl
        next =>
          split
          next =>
            dsimp only
            split <;> rfl
          next => rfl
      next =>
        split
        next =>
          dsimp only
          split <;> rfl
        next =>
          split
          next => rfl
          next =>
            dsimp only
            split <;> split <;> rfl
  next => rfl

theorem cbuf_echo (t : EditLine) (c : UInt8) : (t.echo c).cbuf = t.cbuf := by
  unfold EditLine.echo
  split
  next => rfl
  next => exact cbuf_oproc t c

theorem cbuf_eraseTurn (lineFlag : Bool) (t : EditLine) :
    (t.eraseTurn lineFlag).cbuf = t.cbuf.dropLast := by
  unfold EditLine.eraseTurn
  split
  next hnone =>
    rw [List.getLast?_eq_none_iff] at hnone
    rw [hnone]
    rfl
  next c _ =>
    dsimp only
    split
    next =>
      split
      next => exact cbuf_echo _ _
      next =>
        split
        next => rfl
        next => split <;> split <;> rfl
    next => rfl

theorem cbuf_eraseTurns (lineFlag : Bool) (n : Nat) (t : EditLine) :
    ((EditLine.eraseTurn lineFlag)^[n] t).cbuf = t.cbuf.take (t.cbuf.length - n) := by
  induction n generalizing t with
  | zero => simp
  | succ n ih =>
    rw [Function.iterate_succ_apply, ih, cbuf_eraseTurn, List.dropLast_eq_take, List.take_take,
      List.length_take]
    congr 1
    omega

/-- The cooked buffer is the one of the editor without echo. -/
theorem cbuf_erase (lineFlag : Bool) (t : EditLine) :
    (t.erase lineFlag).cbuf = Termios.erase lineFlag t.cbuf := by
  unfold EditLine.erase Termios.erase
  simp only [List.length_eq_zero_iff]
  split
  next => rfl
  next =>
    cases lineFlag with
    | false => exact cbuf_eraseTurn false t
    | true =>
      simp only [Bool.true_and, if_true]
      split
      next => rfl
      next =>
        split
        next =>
          split
          next => rw [cbuf_echo, cbuf_echo]
          next => rw [cbuf_echo]
        next =>
          rw [cbuf_eraseTurns, Nat.sub_self]
          rfl

theorem iproc_cooked (cbufsize : Nat) (t : EditLine) (c : UInt8) :
    ((t.iproc cbufsize c).1, (t.iproc cbufsize c).2.cbuf) =
      Termios.iproc cbufsize t.settings c t.cbuf := by
  unfold EditLine.iproc Termios.iproc
  cases mapInput t.settings c with
  | none => rfl
  | some d =>
    have hstore : ∀ b : Bool,
        (if b then (t.echo d).store d else t.store d).cbuf = t.cbuf ++ [d] := by
      intro b
      cases b
      · rfl
      · exact congrArg (· ++ [d]) (cbuf_echo t d)
    have hkeep : ((if t.cbuf.length < cbufsize - 1 then
          (false, if t.flags.echo then (t.echo d).store d else t.store d)
        else (false, t)).1,
        (if t.cbuf.length < cbufsize - 1 then
          (false, if t.flags.echo then (t.echo d).store d else t.store d)
        else (false, t)).2.cbuf) =
        if t.cbuf.length < cbufsize - 1 then (false, t.cbuf ++ [d]) else (false, t.cbuf) := by
      split
      next => exact congrArg (Prod.mk false) (hstore _)
      next => rfl
    dsimp only
    split
    next =>
      split
      next => exact congrArg (Prod.mk false) (cbuf_erase false t)
      next =>
        split
        next => exact congrArg (Prod.mk false) (cbuf_erase true t)
        next =>
          split
          next => rfl
          next =>
            split
            next => exact congrArg (Prod.mk true) (hstore _)
            next =>
              split
              next => exact congrArg (Prod.mk true) (hstore _)
              next => exact hkeep
    next => exact hkeep

/-- With ECHO a character is left out, erases others, or is echoed and stored. -/
theorem iproc_cases (h : t.flags.Erases) (cbufsize : Nat) (c : UInt8) :
    (t.iproc cbufsize c).2 = t ∨ (∃ lineFlag, (t.iproc cbufsize c).2 = t.erase lineFlag) ∨
      ∃ d, mapInput t.settings c = some d ∧ (t.iproc cbufsize c).2 = (t.echo d).store d := by
  unfold EditLine.iproc
  cases mapInput t.settings c with
  | none => exact .inl rfl
  | some d =>
    simp only [h.echo, Bool.true_or, if_true]
    have hstored : ∃ e, some d = some e ∧ (t.echo d).store d = (t.echo e).store e := ⟨d, rfl, rfl⟩
    split
    next =>
      split
      next => exact .inr (.inl ⟨false, rfl⟩)
      next =>
        split
        next => exact .inr (.inl ⟨true, rfl⟩)
        next =>
          split
          next => exact .inl rfl
          next =>
            split
            next => exact .inr (.inr hstored)
            next =>
              split
              next => exact .inr (.inr hstored)
              next =>
                split
                next => exact .inr (.inr hstored)
                next => exact .inl rfl
    next =>
      split
      next => exact .inr (.inr hstored)
      next => exact .inl rfl

/-- A character that is stored was echoed before. -/
theorem iproc_accepts (h : t.flags.Erases) {cbufsize : Nat} {d : UInt8}
    (hd : (t.iproc cbufsize c).2.cbuf = t.cbuf ++ [d]) :
    mapInput t.settings c = some d ∧ (t.iproc cbufsize c).2 = (t.echo d).store d := by
  rcases iproc_cases h cbufsize c with heq | ⟨lineFlag, heq⟩ | ⟨e, hmap, heq⟩
  · rw [heq] at hd
    simp at hd
  · have hlength := congrArg List.length hd
    rw [heq, cbuf_erase, List.length_append, List.length_singleton] at hlength
    unfold Termios.erase at hlength
    split at hlength
    next => omega
    next =>
      split at hlength
      next => simp at hlength
      next =>
        rw [List.length_dropLast] at hlength
        omega
  · rw [heq] at hd
    have hcbuf : t.cbuf ++ [e] = t.cbuf ++ [d] :=
      (congrArg (· ++ [e]) (cbuf_echo t e)).symm.trans hd
    obtain rfl : e = d := by simpa using hcbuf
    exact ⟨hmap, heq⟩

/-! ## A line that is typed and erased -/

/-- The characters are stored one after the other. -/
def Accepted (cbufsize : Nat) : EditLine → List UInt8 → Prop
  | _, [] => True
  | t, c :: cs =>
    (∃ d, (t.iproc cbufsize c).2.cbuf = t.cbuf ++ [d]) ∧
      Accepted cbufsize (t.iproc cbufsize c).2 cs

/-- The line after the characters. -/
def typed (cbufsize : Nat) (t : EditLine) (cs : List UInt8) : EditLine :=
  cs.foldl (fun t c => (t.iproc cbufsize c).2) t

/-- Characters are echoed and stored. -/
def echoed (t : EditLine) (ds : List UInt8) : EditLine := ds.foldl (fun t d => (t.echo d).store d) t

theorem settings_echo (h : t.Ready) (c : UInt8) : ((t.echo c).store c).settings = t.settings :=
  (h.echo c).settings

theorem EditLine.At.ready (h : t.At t' col) (ht : t.Ready) : t'.Ready where
  flags := by
    rw [h.flags]
    exact ht.flags
  cursor := h.cursor.trans h.column.symm

theorem EditLine.Ready.store (h : t.Ready) (c : UInt8) : (t.store c).Ready := ⟨h.flags, h.cursor⟩

/-- What is typed and accepted is echoed and stored. -/
theorem typed_eq (h : t.Ready) {cbufsize : Nat} {cs : List UInt8} (hcs : Accepted cbufsize t cs) :
    typed cbufsize t cs = echoed t (cs.filterMap (mapInput t.settings)) ∧
      (cs.filterMap (mapInput t.settings)).length = cs.length := by
  induction cs generalizing t with
  | nil => exact ⟨rfl, rfl⟩
  | cons c cs ih =>
    obtain ⟨⟨d, hd⟩, hrest⟩ := hcs
    obtain ⟨hmap, heq⟩ := iproc_accepts h.flags hd
    rw [heq] at hrest
    obtain ⟨htyped, hlength⟩ := ih (((h.echo d).ready h).store d) hrest
    rw [settings_echo h] at htyped hlength
    rw [List.filterMap_cons_some hmap]
    refine ⟨?_, congrArg (· + 1) hlength⟩
    unfold typed echoed at htyped ⊢
    rw [List.foldl_cons, heq]
    exact htyped

/-- The column behind some characters. -/
def columnAfter (f : EchoFlags) (start : Nat) (ds : List UInt8) : Nat := ds.foldl (advance f) start

/-- The line holds the characters, and its column is the one that their echo leads to. -/
structure Back (f : EchoFlags) (start : Nat) (ds : List UInt8) (t : EditLine) : Prop where
  flags : t.flags = f
  readStartColumn : t.readStartColumn = start
  cbuf : t.cbuf = ds
  column : t.column = columnAfter f start ds
  cursor : t.cursor = columnAfter f start ds

/-- The erasure of the character undoes its echo. -/
def Undoes (f : EchoFlags) (start : Nat) (p : List UInt8) (c : UInt8) : Prop :=
  retreat start p c (advance f (columnAfter f start p) c) = columnAfter f start p

variable {f : EchoFlags} {start : Nat} {p q ds : List UInt8}

theorem columnAfter_concat (f : EchoFlags) (start : Nat) (p : List UInt8) (c : UInt8) :
    columnAfter f start (p ++ [c]) = advance f (columnAfter f start p) c := by
  simp [columnAfter]

theorem Back.ready (h : Back f start ds t) (hf : f.Erases) : t.Ready where
  flags := by
    rw [h.flags]
    exact hf
  cursor := h.cursor.trans h.column.symm

theorem Back.echo (h : Back f start p t) (hf : f.Erases) (c : UInt8) :
    Back f start (p ++ [c]) ((t.echo c).store c) := by
  have hat := (h.ready hf).echo c
  have hcolumn : advance t.flags t.column c = columnAfter f start (p ++ [c]) := by
    rw [columnAfter_concat, h.flags, h.column]
  constructor
  case flags => exact hat.flags.trans h.flags
  case readStartColumn => exact hat.readStartColumn.trans h.readStartColumn
  case cbuf =>
    show (t.echo c).cbuf ++ [c] = _
    rw [hat.cbuf, h.cbuf]
  case column => exact hat.column.trans hcolumn
  case cursor => exact hat.cursor.trans hcolumn

theorem Back.echoed (h : Back f start p t) (hf : f.Erases) (ds : List UInt8) :
    Back f start (p ++ ds) (echoed t ds) := by
  induction ds generalizing p t with
  | nil =>
    rw [List.append_nil]
    exact h
  | cons d ds ih =>
    rw [List.append_cons]
    exact ih (h.echo hf d)

/-- One turn of the loop takes the line back by a character if it undoes its echo. -/
theorem Back.eraseTurn_iff (h : Back f start (p ++ [c]) t) (hf : f.Erases) (lineFlag : Bool) :
    ((t.eraseTurn lineFlag).column = columnAfter f start p ↔ Undoes f start p c) ∧
      (Undoes f start p c → Back f start p (t.eraseTurn lineFlag)) := by
  have hat := (h.ready hf).eraseTurn h.cbuf lineFlag
  have hcolumn : retreat t.readStartColumn p c t.column =
      retreat start p c (advance f (columnAfter f start p) c) := by
    rw [h.readStartColumn, h.column, columnAfter_concat]
  rw [hcolumn] at hat
  constructor
  · rw [hat.column]
    rfl
  · intro hundoes
    constructor
    case flags => exact hat.flags.trans h.flags
    case readStartColumn => exact hat.readStartColumn.trans h.readStartColumn
    case cbuf => exact hat.cbuf
    case column => exact hat.column.trans hundoes
    case cursor => exact hat.cursor.trans hundoes

/-- The loop takes the line back to each of its characters if each erasure undoes an echo. -/
theorem Back.eraseTurns (h : Back f start ds t) (hf : f.Erases) (lineFlag : Bool)
    (hundoes : ∀ p c q, ds = p ++ c :: q → Undoes f start p c) (heq : ds = p ++ q) :
    Back f start p ((EditLine.eraseTurn lineFlag)^[q.length] t) := by
  induction q generalizing p with
  | nil =>
    rw [heq, List.append_nil] at h
    exact h
  | cons c q ih =>
    have hbefore := ih (p := p ++ [c]) (by simp [heq])
    rw [List.length_cons, Function.iterate_succ_apply']
    exact (hbefore.eraseTurn_iff hf lineFlag).2 (hundoes p c q heq)

/-- Columns that come back one after the other come back because each erasure undoes an echo. -/
theorem Back.undoes (h : Back f start ds t) (hf : f.Erases) (lineFlag : Bool)
    (hcolumns : ∀ p q, ds = p ++ q →
      ((EditLine.eraseTurn lineFlag)^[q.length] t).column = columnAfter f start p)
    (heq : ds = p ++ q) :
    Back f start p ((EditLine.eraseTurn lineFlag)^[q.length] t) ∧
      ∀ c ∈ q.head?, Undoes f start p c := by
  induction q generalizing p with
  | nil =>
    rw [heq, List.append_nil] at h
    exact ⟨h, nofun⟩
  | cons c q ih =>
    have hbefore := (ih (p := p ++ [c]) (by simp [heq])).1
    have hcolumn := hcolumns p (c :: q) heq
    rw [List.length_cons, Function.iterate_succ_apply'] at hcolumn ⊢
    obtain ⟨hiff, hback⟩ := hbefore.eraseTurn_iff hf lineFlag
    refine ⟨hback (hiff.mp hcolumn), fun d hd => ?_⟩
    obtain rfl := Option.some.inj hd
    exact hiff.mp hcolumn

/-! ## Which characters are undone -/

/-- A newline takes no columns, and two are erased for it. -/
theorem undoes_newline_iff : Undoes f start p 10 ↔ columnAfter f start p = 0 := by
  have hretreat : ∀ col, retreat start p 10 col = col - 2 := fun _ => rfl
  unfold Undoes
  rw [hretreat]
  show (if f.onlret || f.onlcr then 0 else columnAfter f start p) - 2 = _ ↔ _
  split
  next => omega
  next => omega

theorem undoes_tab_iff :
    Undoes f start p 9 ↔ EditLine.tabColumn true start p = columnAfter f start p := by
  show min (columnAfter f start p + (8 - columnAfter f start p % 8)) _ = _ ↔ _
  have hmod := Nat.mod_lt (columnAfter f start p) (show 0 < 8 by decide)
  omega

theorem undoes_other (h9 : c ≠ 9) (h10 : c ≠ 10) : Undoes f start p c := by
  unfold Undoes retreat advance
  rw [if_neg h9, if_neg h10, if_neg h9]
  split
  next => omega
  next => omega

/-- `erase` adds up the columns as `echo` does, newlines apart. -/
theorem tabColumn_eq (h : 10 ∉ p) : EditLine.tabColumn true start p = columnAfter f start p := by
  unfold EditLine.tabColumn columnAfter
  induction p generalizing start with
  | nil => rfl
  | cons c p ih =>
    have hc : c ≠ 10 := by
      rintro rfl
      exact h List.mem_cons_self
    rw [List.foldl_cons, List.foldl_cons, ih fun hmem => h (List.mem_cons_of_mem _ hmem)]
    congr 1
    unfold advance
    rw [if_neg hc, or_seven, if_pos rfl]

theorem le_columnAfter (h : 10 ∉ p) : start + p.length ≤ columnAfter f start p := by
  unfold columnAfter
  induction p generalizing start with
  | nil => exact le_rfl
  | cons c p ih =>
    have hc : c ≠ 10 := by
      rintro rfl
      exact h List.mem_cons_self
    have hstep : start + 1 ≤ advance f start c := by
      unfold advance
      rw [if_neg hc]
      have hmod := Nat.mod_lt start (show 0 < 8 by decide)
      split
      next => omega
      next => split <;> omega
    have hrest : advance f start c + p.length ≤ p.foldl (advance f) (advance f start c) :=
      ih fun hmem => h (List.mem_cons_of_mem _ hmem)
    rw [List.foldl_cons, List.length_cons]
    omega

theorem columnAfter_add (h9 : 9 ∉ p) (h10 : 10 ∉ p) (n : Nat) :
    columnAfter f (start + n) p = columnAfter f start p + n := by
  unfold columnAfter
  induction p generalizing start with
  | nil => rfl
  | cons c p ih =>
    have hc9 : c ≠ 9 := by
      rintro rfl
      exact h9 List.mem_cons_self
    have hc10 : c ≠ 10 := by
      rintro rfl
      exact h10 List.mem_cons_self
    have hstep : advance f (start + n) c = advance f start c + n := by
      unfold advance
      rw [if_neg hc10, if_neg hc9, if_neg hc10, if_neg hc9]
      split
      next => omega
      next => omega
    rw [List.foldl_cons, List.foldl_cons, hstep]
    exact ih (fun hmem => h9 (List.mem_cons_of_mem _ hmem))
      fun hmem => h10 (List.mem_cons_of_mem _ hmem)

theorem columnAfter_append (f : EchoFlags) (start : Nat) (p q : List UInt8) :
    columnAfter f start (p ++ q) = columnAfter f (columnAfter f start p) q :=
  List.foldl_append

theorem columnAfter_newlines (f : EchoFlags) (n : Nat) :
    columnAfter f 0 (List.replicate n 10) = 0 := by
  unfold columnAfter
  induction n with
  | zero => rfl
  | succ n ih =>
    have hstep : advance f 0 10 = 0 := by simp [advance]
    rw [List.replicate_succ, List.foldl_cons, hstep]
    exact ih

theorem tabColumn_newlines (start n : Nat) :
    EditLine.tabColumn true start (List.replicate n 10) = start + 2 * n := by
  unfold EditLine.tabColumn
  induction n generalizing start with
  | zero => rfl
  | succ n ih =>
    rw [List.replicate_succ, List.foldl_cons, ih]
    show start + 2 + 2 * n = _
    omega

/-- There is no newline, or the line starts in column zero with all of its newlines and has no
tab. -/
def NewlinesFirst (start : Nat) (ds : List UInt8) : Prop :=
  10 ∉ ds ∨ start = 0 ∧ 9 ∉ ds ∧ ∃ n rest, ds = List.replicate n 10 ++ rest ∧ 10 ∉ rest

theorem undoes_of_newlinesFirst (h : NewlinesFirst start ds) (heq : ds = p ++ c :: q) :
    Undoes f start p c := by
  have hc : c ∈ ds := by simp [heq]
  rcases h with hnone | ⟨rfl, htab, n, rest, hds, hrest⟩
  · have h10 : c ≠ 10 := by
      rintro rfl
      exact hnone hc
    rcases eq_or_ne c 9 with rfl | h9
    · refine undoes_tab_iff.mpr (tabColumn_eq fun hmem => hnone ?_)
      rw [heq]
      exact List.mem_append_left _ hmem
    · exact undoes_other h9 h10
  · have h9 : c ≠ 9 := by
      rintro rfl
      exact htab hc
    rcases eq_or_ne c 10 with rfl | h10
    · -- The newline is one of the first, so only newlines are before it.
      have hp : p = List.replicate p.length 10 := by
        rw [List.eq_replicate_iff]
        refine ⟨rfl, fun d hd => ?_⟩
        rcases List.append_eq_append_iff.mp (heq.symm.trans hds) with ⟨x, hx, -⟩ | ⟨x, -, hx⟩
        · refine List.eq_of_mem_replicate (n := n) ?_
          rw [hx]
          exact List.mem_append_left _ hd
        · refine absurd ?_ hrest
          rw [hx]
          simp
      rw [undoes_newline_iff, hp]
      exact columnAfter_newlines f _
    · exact undoes_other h9 h10

/-- The newlines that a line starts with. -/
theorem exists_newlines (ds : List UInt8) :
    ∃ n rest, ds = List.replicate n 10 ++ rest ∧ rest.head? ≠ some 10 := by
  induction ds with
  | nil => exact ⟨0, [], rfl, nofun⟩
  | cons c ds ih =>
    rcases eq_or_ne c 10 with rfl | hc
    · obtain ⟨n, rest, heq, hrest⟩ := ih
      exact ⟨n + 1, rest, congrArg (10 :: ·) heq, hrest⟩
    · exact ⟨0, c :: ds, rfl, fun heq => hc (Option.some.inj heq)⟩

theorem newlinesFirst_of_undoes (h : ∀ p c q, ds = p ++ c :: q → Undoes f start p c) :
    NewlinesFirst start ds := by
  by_cases h10 : 10 ∈ ds
  case neg => exact .inl h10
  case pos =>
    obtain ⟨p, q, heq, hp⟩ := List.eq_append_cons_of_mem h10
    have hstart : start = 0 := by
      have hzero := undoes_newline_iff.mp (h p 10 q heq)
      have hle : start + p.length ≤ columnAfter f start p := le_columnAfter hp
      omega
    subst hstart
    obtain ⟨n, rest, hds, hhead⟩ := exists_newlines ds
    have hrest : 10 ∉ rest := by
      intro hmem
      obtain ⟨p, q, hsplit, hp⟩ := List.eq_append_cons_of_mem hmem
      have hzero := undoes_newline_iff.mp
        (h (List.replicate n 10 ++ p) 10 q (by rw [hds, hsplit, List.append_assoc]))
      rw [columnAfter_append, columnAfter_newlines] at hzero
      have hle : 0 + p.length ≤ columnAfter f 0 p := le_columnAfter hp
      have hnil : p = [] := List.length_eq_zero_iff.mp (by omega)
      rw [hsplit, hnil] at hhead
      exact hhead rfl
    refine .inr ⟨rfl, fun hmem => ?_, n, rest, hds, hrest⟩
    have hn : n ≠ 0 := by
      rintro rfl
      rw [hds] at h10
      exact hrest h10
    -- The columns that `erase` counts for the newlines are left over at the first tab.
    have hmem : 9 ∈ rest := by
      rw [hds] at hmem
      refine (List.mem_append.mp hmem).resolve_left fun hten => ?_
      exact absurd (List.eq_of_mem_replicate hten) (by decide)
    obtain ⟨p, q, hsplit, hp⟩ := List.eq_append_cons_of_mem hmem
    have hp10 : 10 ∉ p := by
      intro hten
      rw [hsplit] at hrest
      exact hrest (List.mem_append_left _ hten)
    have htab := undoes_tab_iff.mp
      (h (List.replicate n 10 ++ p) 9 q (by rw [hds, hsplit, List.append_assoc]))
    have htabColumn : EditLine.tabColumn true 0 (List.replicate n 10 ++ p) =
        EditLine.tabColumn true (EditLine.tabColumn true 0 (List.replicate n 10)) p :=
      List.foldl_append
    rw [htabColumn, tabColumn_newlines, tabColumn_eq (f := f) hp10, columnAfter_append,
      columnAfter_newlines, columnAfter_add hp hp10] at htab
    omega

/-! ## Erasure undoes echo -/

/-- What is typed can be erased: one by one, with the line and the cursor back at each column that
they were at, and all at once. -/
structure Erasable (cbufsize : Nat) (t : EditLine) (cs : List UInt8) : Prop where
  each : ∀ before after, cs = before ++ after →
    ((EditLine.erase false)^[after.length] (typed cbufsize t cs)).cbuf =
        (typed cbufsize t before).cbuf ∧
      ((EditLine.erase false)^[after.length] (typed cbufsize t cs)).column =
        (typed cbufsize t before).column ∧
      ((EditLine.erase false)^[after.length] (typed cbufsize t cs)).cursor =
        (typed cbufsize t before).column
  all : ((typed cbufsize t cs).erase true).cbuf = [] ∧
    ((typed cbufsize t cs).erase true).column = t.readStartColumn ∧
    ((typed cbufsize t cs).erase true).cursor = t.readStartColumn

theorem erase_false (t : EditLine) : t.erase false = t.eraseTurn false := by
  unfold EditLine.erase
  split
  next hempty =>
    unfold EditLine.eraseTurn
    rw [hempty]
    rfl
  next => rfl

theorem erase_true (h : t.flags.Erases) :
    t.erase true = (EditLine.eraseTurn true)^[t.cbuf.length] t := by
  unfold EditLine.erase
  rw [h.echo, h.echoe]
  split
  next hempty =>
    rw [hempty]
    rfl
  next => rfl

theorem Accepted.before {cbufsize : Nat} {cs cs' : List UInt8}
    (h : Accepted cbufsize t (cs ++ cs')) : Accepted cbufsize t cs := by
  induction cs generalizing t with
  | nil => trivial
  | cons c cs ih => exact ⟨h.1, ih h.2⟩

/-- Each character that is accepted is stored as one. -/
theorem Accepted.length_after (ht : t.Ready) {cbufsize : Nat} {cs cs' : List UInt8}
    (h : Accepted cbufsize t (cs ++ cs')) :
    (cs.filterMap (mapInput t.settings)).length = cs.length ∧
      (cs'.filterMap (mapInput t.settings)).length = cs'.length := by
  have hbefore := (typed_eq ht h.before).2
  have hall := (typed_eq ht h).2
  rw [List.filterMap_append, List.length_append, List.length_append] at hall
  exact ⟨hbefore, by omega⟩

/-- Erasure undoes the echo of what `iproc` accepts just when there is no newline in it, or all of
its newlines come first, in column zero, and there is no tab. -/
theorem erasable_iff (cbufsize : Nat) (hflags : t.flags.Erases) (hempty : t.cbuf = [])
    (hcolumn : t.column = t.readStartColumn) (hcursor : t.cursor = t.readStartColumn)
    {cs : List UInt8} (haccepted : Accepted cbufsize t cs) :
    Erasable cbufsize t cs ↔
      NewlinesFirst t.readStartColumn (cs.filterMap (mapInput t.settings)) := by
  have hready : t.Ready := ⟨hflags, hcursor.trans hcolumn.symm⟩
  have hstart : Back t.flags t.readStartColumn [] t := ⟨rfl, rfl, hempty, hcolumn, hcursor⟩
  have hback : ∀ before, Accepted cbufsize t before →
      Back t.flags t.readStartColumn (before.filterMap (mapInput t.settings))
        (typed cbufsize t before) := by
    intro before hbefore
    rw [(typed_eq hready hbefore).1]
    exact hstart.echoed hflags _
  have hfull := hback cs haccepted
  have hturn : EditLine.erase false = EditLine.eraseTurn false := funext erase_false
  constructor
  · intro herasable
    refine newlinesFirst_of_undoes (f := t.flags) fun p c q heq => ?_
    refine (hfull.undoes hflags false ?_ heq).2 c rfl
    intro p q heq
    have hsplit : cs = cs.take p.length ++ cs.drop p.length := (List.take_append_drop ..).symm
    have hlength := haccepted
    rw [hsplit] at hlength
    obtain ⟨hbefore, hafter⟩ := hlength.length_after hready
    have hle : p.length ≤ cs.length := by
      rw [← (typed_eq hready haccepted).2, heq, List.length_append]
      omega
    have hmapped := heq
    rw [hsplit, List.filterMap_append] at hmapped
    obtain ⟨hp, hq⟩ := List.append_inj hmapped (hbefore.trans (List.length_take_of_le hle))
    have hcolumns := (herasable.each _ _ hsplit).2.1
    rw [← hafter, hq, hturn, (hback _ hlength.before).column, hp] at hcolumns
    exact hcolumns
  · intro hfirst
    have hundoes : ∀ p c q, cs.filterMap (mapInput t.settings) = p ++ c :: q →
        Undoes t.flags t.readStartColumn p c := fun p c q => undoes_of_newlinesFirst hfirst
    constructor
    case each =>
      intro before after heq
      have hsplit := haccepted
      rw [heq] at hsplit
      have hbefore := hback before hsplit.before
      have herased := hfull.eraseTurns hflags false hundoes
        (by rw [heq, List.filterMap_append] : cs.filterMap (mapInput t.settings) =
          before.filterMap (mapInput t.settings) ++ after.filterMap (mapInput t.settings))
      rw [(hsplit.length_after hready).2] at herased
      rw [hturn, hbefore.cbuf, hbefore.column]
      exact ⟨herased.cbuf, herased.column, herased.cursor⟩
    case all =>
      have hflags' : (typed cbufsize t cs).flags.Erases := by
        rw [hfull.flags]
        exact hflags
      have hnil := hfull.eraseTurns (p := []) hflags true hundoes rfl
      rw [erase_true hflags', hfull.cbuf]
      exact ⟨hnil.cbuf, hnil.column, hnil.cursor⟩

/-- The flags that `rtems_termios_open_tty` sets. -/
def defaultFlags : EchoFlags where
  opost := true
  olcuc := false
  onlcr := true
  ocrnl := false
  onocr := false
  onlret := false
  xtabs := true
  echo := true
  echoe := true
  echok := true
  echonl := false
  echoctl := true

/-- A line that starts behind a prompt of two characters. -/
def prompted : EditLine where
  settings := defaultSettings
  flags := defaultFlags
  column := 2
  readStartColumn := 2
  cbuf := []
  output := [36, 32]

theorem erasable_iff_tab : Erasable 256 prompted [97, 9, 98] ↔
    NewlinesFirst prompted.readStartColumn ([97, 9, 98].filterMap (mapInput prompted.settings)) :=
  erasable_iff 256 ⟨rfl, rfl, rfl, rfl⟩ rfl rfl rfl ⟨⟨97, rfl⟩, ⟨9, rfl⟩, ⟨98, rfl⟩, trivial⟩

/-- A newline behind the prompt is not undone. -/
theorem newline_stays : ¬ ∀ (t : EditLine) (cs : List UInt8), t.flags.Erases → t.cbuf = [] →
    t.column = t.readStartColumn → t.cursor = t.readStartColumn → Accepted 256 t cs →
    Erasable 256 t cs := by
  intro h
  have herasable := h prompted [10] ⟨rfl, rfl, rfl, rfl⟩ rfl rfl rfl ⟨⟨10, rfl⟩, trivial⟩
  exact absurd herasable.all.2.1 (by decide)

end Rtems.Termios
