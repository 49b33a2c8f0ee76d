import Mathlib

/-!
# Printing numbers

The model of `printNum` in `vprintk.c`.  The digits go into a buffer, the lowest one first, and are
printed from its end.  The buffer has room for the longest number in base 8.
-/

namespace Rtems.Printk

variable {base fuel maxwidth u : ℕ} {num : BitVec 64} {sign : Bool} {lead : Char} {ds ts : List ℕ}

/-- `"0123456789ABCDEF"`. -/
def digitCharacters : List Char :=
  ['0', '1', '2', '3', '4', '5', '6', '7', '8', '9', 'A', 'B', 'C', 'D', 'E', 'F']

/-- The size of `toPrint`: the digits of `UINT64_MAX_IN_OCTAL_FORMAT` and the end of that string. -/
def toPrintSize : ℕ := 23

/-- The loop that divides.  What it has written into `toPrint` is the list. -/
def toPrintLoop (base : ℕ) : ℕ → ℕ → List ℕ → Option (List ℕ)
  | 0, _, _ => none
  | fuel + 1, unsignedNum, toPrint =>
    let n := unsignedNum / base
    if n > 0 then toPrintLoop base fuel n (toPrint ++ [unsignedNum - n * base])
    else some (toPrint ++ [unsignedNum])

/-- What `printNum` leaves: `toPrint` and what was printed. -/
structure Printed where
  toPrint : List ℕ
  output : List Char
deriving DecidableEq, Repr

/-- `printNum`. -/
def printNum (fuel : ℕ) (num : BitVec 64) (base : ℕ) (sign : Bool) (maxwidth : ℕ) (lead : Char) :
    Option Printed :=
  let negative : Bool := sign && decide (num.toInt < 0)
  let unsignedNum := if negative then (-num).toNat else num.toNat
  let maxwidth := if negative && decide (maxwidth ≠ 0) then maxwidth - 1 else maxwidth
  (toPrintLoop base fuel unsignedNum []).map fun toPrint =>
    { toPrint := toPrint
      output := (if negative then ['-'] else []) ++
        List.replicate (maxwidth - toPrint.length) lead ++
        toPrint.reverse.map fun digit => digitCharacters.getD digit '0' }

/-! ## The digits -/

/-- The digits of a number in a base, the lowest one first.  There is at least one. -/
def digitsOf (base n : ℕ) : List ℕ := if n = 0 then [0] else base.digits n

theorem digitsOf_of_lt (hlt : u < base) : digitsOf base u = [u] := by
  by_cases hzero : u = 0
  · rw [digitsOf, if_pos hzero, hzero]
  · rw [digitsOf, if_neg hzero, Nat.digits_of_lt base u hzero hlt]

theorem digitsOf_of_le (hbase : 2 ≤ base) (hle : base ≤ u) :
    digitsOf base u = u % base :: digitsOf base (u / base) := by
  have hpos : 0 < u / base := Nat.div_pos hle (by omega)
  rw [digitsOf, if_neg (by omega), Nat.digits_def' (by omega) (by omega), digitsOf,
    if_neg (by omega)]

theorem ofDigits_digitsOf (base u : ℕ) : Nat.ofDigits base (digitsOf base u) = u := by
  rw [digitsOf]
  split
  next hzero => rw [hzero, Nat.ofDigits_singleton]
  next => exact Nat.ofDigits_digits base u

theorem lt_of_mem_digitsOf (hbase : 2 ≤ base) {d : ℕ} (hd : d ∈ digitsOf base u) : d < base := by
  rw [digitsOf] at hd
  split at hd
  next =>
    rw [List.mem_singleton] at hd
    omega
  next => exact Nat.digits_lt_base (by omega) hd

theorem length_digitsOf_le (hbase : 2 ≤ base) {k : ℕ} (hk : 0 < k) (hu : u < base ^ k) :
    (digitsOf base u).length ≤ k := by
  rw [digitsOf]
  split
  next => exact hk
  next => exact (Nat.digits_length_le_iff (by omega) u).mpr hu

/-- The loop writes the digits behind what is in the buffer. -/
theorem toPrintLoop_eq (hbase : 2 ≤ base) :
    ∀ fuel u ts, u < 2 ^ fuel → toPrintLoop base (fuel + 1) u ts = some (ts ++ digitsOf base u) := by
  intro fuel
  induction fuel with
  | zero =>
    intro u ts hu
    have hzero : u = 0 := by omega
    simp [toPrintLoop, hzero, digitsOf]
  | succ fuel ih =>
    intro u ts hu
    rw [toPrintLoop]
    by_cases hle : base ≤ u
    · have hpos : u / base > 0 := Nat.div_pos hle (by omega)
      have hhalf : u / base < 2 ^ fuel := by
        rw [Nat.div_lt_iff_lt_mul (by omega)]
        calc
          u < 2 ^ fuel * 2 := by rw [← Nat.pow_succ]; exact hu
          _ ≤ 2 ^ fuel * base := Nat.mul_le_mul_left _ hbase
      have hsplit := Nat.div_add_mod' u base
      have hdigit : u - u / base * base = u % base := by omega
      rw [if_pos hpos, ih _ _ hhalf, hdigit, digitsOf_of_le hbase hle, List.append_assoc,
        List.singleton_append]
    · have hlt := Nat.lt_of_not_le hle
      have hzero : u / base = 0 := Nat.div_eq_of_lt hlt
      rw [hzero, if_neg (Nat.lt_irrefl 0), digitsOf_of_lt hlt]

/-! ## The number -/

/-- The number that is printed, for a signed or an unsigned conversion. -/
def numberOf (num : BitVec 64) (sign : Bool) : ℤ := if sign then num.toInt else num.toNat

/-- What is expected of `printNum`: what it writes into the buffer fits, and what it prints are a sign,
lead characters and the digits of the number. -/
structure PrintsNumber (num : BitVec 64) (base : ℕ) (sign : Bool) (maxwidth : ℕ) (lead : Char)
    (printed : Printed) : Prop where
  fits : printed.toPrint.length ≤ toPrintSize
  value : Nat.ofDigits base printed.toPrint = (numberOf num sign).natAbs
  digit : ∀ d ∈ printed.toPrint, d < base
  output : printed.output = (if numberOf num sign < 0 then ['-'] else []) ++
    List.replicate (maxwidth - ((if numberOf num sign < 0 then 1 else 0) + printed.toPrint.length))
      lead ++ printed.toPrint.reverse.map fun digit => digitCharacters.getD digit '0'
  length : printed.output.length = max maxwidth
    ((if numberOf num sign < 0 then 1 else 0) +
      (digitsOf base (numberOf num sign).natAbs).length)

/-- The magnitude of a number, and whether it is negative. -/
theorem magnitude_eq (num : BitVec 64) (sign : Bool) :
    (sign && decide (num.toInt < 0)) = decide (numberOf num sign < 0) ∧
      (if sign && decide (num.toInt < 0) then (-num).toNat else num.toNat) =
        (numberOf num sign).natAbs := by
  have hlt := num.isLt
  cases sign with
  | false => simp [numberOf]
  | true =>
    simp only [Bool.true_and, numberOf, if_true, decide_eq_true_eq, true_and]
    rw [BitVec.toInt_eq_toNat_cond]
    split
    next hsmall =>
      rw [if_neg (by omega)]
      omega
    next hlarge =>
      rw [if_pos (by omega), BitVec.toNat_neg]
      omega

/-- The digits of all numbers of 64 bits fit into the buffer. -/
theorem length_digitsOf_magnitude (num : BitVec 64) (sign : Bool) (hbase : 8 ≤ base) :
    (digitsOf base (numberOf num sign).natAbs).length ≤ 22 := by
  refine length_digitsOf_le (by omega) (by decide) ?_
  have hlt := num.isLt
  have hmagnitude : (numberOf num sign).natAbs < 2 ^ 64 := by
    rw [← (magnitude_eq num sign).2]
    split
    · exact (-num).isLt
    · exact hlt
  calc
    (numberOf num sign).natAbs < 2 ^ 64 := hmagnitude
    _ ≤ 8 ^ 22 := by norm_num
    _ ≤ base ^ 22 := Nat.pow_le_pow_left hbase 22

theorem printNum_spec (num : BitVec 64) (sign : Bool) (maxwidth : ℕ) (lead : Char)
    (hbase : base = 8 ∨ base = 10 ∨ base = 16) (hfuel : 65 ≤ fuel) :
    ∃ printed, printNum fuel num base sign maxwidth lead = some printed ∧
      PrintsNumber num base sign maxwidth lead printed := by
  have htwo : 2 ≤ base := by omega
  obtain ⟨hnegative, hmagnitude⟩ := magnitude_eq num sign
  have hlength := length_digitsOf_magnitude num sign (by omega : 8 ≤ base)
  have hbound : (numberOf num sign).natAbs < 2 ^ (fuel - 1) := by
    have hlt : (numberOf num sign).natAbs < 2 ^ 64 := by
      rw [← hmagnitude]
      split
      · exact (-num).isLt
      · exact num.isLt
    exact Nat.lt_of_lt_of_le hlt (Nat.pow_le_pow_right (by decide) (by omega))
  obtain ⟨turns, rfl⟩ : ∃ turns, fuel = turns + 1 := ⟨fuel - 1, by omega⟩
  have hloop := toPrintLoop_eq htwo turns (numberOf num sign).natAbs [] hbound
  simp only [printNum, hmagnitude, hloop, List.nil_append, Option.map_some]
  refine ⟨_, rfl, ?_⟩
  rw [hnegative]
  by_cases hneg : numberOf num sign < 0
  · simp only [hneg, decide_true, Bool.true_and, if_true]
    have hwidth : (if decide (maxwidth ≠ 0) = true then maxwidth - 1 else maxwidth) = maxwidth - 1 := by
      split
      · rfl
      next hzero => simp only [decide_eq_true_eq, not_not] at hzero; omega
    rw [hwidth]
    constructor
    · exact hlength.trans (by decide)
    · exact ofDigits_digitsOf _ _
    · intro d hd
      exact lt_of_mem_digitsOf htwo hd
    · simp only [hneg, if_true]
      congr 3
      omega
    · simp only [hneg, if_true, List.length_append, List.length_replicate, List.length_map,
        List.length_reverse, List.length_singleton]
      omega
  · simp only [hneg, decide_false, Bool.false_and, Bool.false_eq_true, if_false, List.nil_append]
    constructor
    · exact hlength.trans (by decide)
    · exact ofDigits_digitsOf _ _
    · intro d hd
      exact lt_of_mem_digitsOf htwo hd
    · simp only [hneg, if_false, List.nil_append, Nat.zero_add]
    · simp only [hneg, if_false, List.length_append, List.length_replicate, List.length_map,
        List.length_reverse]
      omega

end Rtems.Printk

/-!
## Reading formats

The model of `vprintk`.  A format is a string in memory, with something behind its end.  The offsets
that are read are kept: the format pointer only moves forward, and each move reads where it arrives.
-/

namespace Rtems.Printk

/-- The character that ends a string. -/
def nul : Char := Char.ofNat 0

/-- A format in memory, and the characters behind the end of it. -/
structure Format where
  text : List Char
  beyond : ℕ → Char
  nonzero : ∀ c ∈ text, c ≠ nul

namespace Format

/-- What `fmt[ offset ]` is. -/
def charAt (f : Format) (offset : ℕ) : Char :=
  if offset < f.text.length then f.text.getD offset nul
  else if offset = f.text.length then nul else f.beyond offset

end Format

/-- An argument, as each type that `va_arg` may be asked for. -/
structure Argument where
  int : BitVec 32
  longLong : BitVec 64
  /-- Null, or the characters of the string. -/
  string : Option (List Char)

/-- The state of `vprintk`: the offset of `fmt`, the arguments taken and the output.  Ghost: the offsets
that were read, last one first. -/
structure State where
  fmt : ℕ
  taken : ℕ
  output : List Char
  reads : List ℕ

namespace State

/-- `++fmt; c = *fmt;`. -/
def advance (s : State) : State := { s with fmt := s.fmt + 1, reads := (s.fmt + 1) :: s.reads }

/-- `rtems_putc`. -/
def putc (s : State) (c : Char) : State := { s with output := s.output ++ [c] }

def puts (s : State) (cs : List Char) : State := { s with output := s.output ++ cs }

/-- `va_arg`. -/
def take (s : State) : State := { s with taken := s.taken + 1 }

end State

/-- Steps over a character if it is there. -/
def skip (f : Format) (c : Char) (s : State) : State :=
  if f.charAt s.fmt = c then s.advance else s

/-- The loop that reads the width. -/
def widthLoop (f : Format) : ℕ → ℕ → State → Option (ℕ × State)
  | 0, _, _ => none
  | fuel + 1, width, s =>
    let c := f.charAt s.fmt
    if '0' ≤ c ∧ c ≤ '9' then
      widthLoop f fuel ((width * 10 + (c.toNat - '0'.toNat)) % 2 ^ 32) s.advance
    else some (width, s)

/-- `lflag`. -/
inductive LengthFlag where
  | int
  | long
  | longLong
deriving DecidableEq, Repr

/-- The length modifier. -/
def lengthModifier (f : Format) (s : State) : LengthFlag × State :=
  if f.charAt s.fmt = 'l' then
    let s := s.advance
    if f.charAt s.fmt = 'l' then (.longLong, s.advance) else (.long, s)
  else (.int, s)

/-- The base, the signedness and the length of a numeric conversion. -/
def numeric (c : Char) (lflag : LengthFlag) : Option (ℕ × Bool × LengthFlag) :=
  if c = 'o' ∨ c = 'O' then some (8, false, lflag)
  else if c = 'i' ∨ c = 'I' ∨ c = 'd' ∨ c = 'D' then some (10, true, lflag)
  else if c = 'u' ∨ c = 'U' then some (10, false, lflag)
  else if c = 'x' ∨ c = 'X' then some (16, false, lflag)
  else if c = 'p' then some (16, false, .long)
  else none

/-- The number of an argument.  An `int` and a `long` have 32 bits. -/
def numberArgument (argument : Argument) (sign : Bool) : LengthFlag → BitVec 64
  | .longLong => argument.longLong
  | .int | .long => if sign then argument.int.signExtend 64 else argument.int.setWidth 64

/-- What the conversion of a string prints. -/
def stringOutput (argument : Option (List Char)) (minus : Bool) (width : ℕ) : List Char :=
  let str := argument.getD []
  let pad := List.replicate (width - str.length) ' '
  -- the width never cuts the string off: the loop does not count
  if minus then str ++ pad else pad ++ str

/-- The conversion at the character that `fmt` has arrived at. -/
def convert (f : Format) (ap : ℕ → Argument) (fuel : ℕ) (minus : Bool) (lead : Char) (width : ℕ)
    (lflag : LengthFlag) (s : State) : Option State :=
  let c := f.charAt s.fmt
  let argument := ap s.taken
  if c = 'c' then some (s.take.putc (Char.ofNat (argument.int.toNat % 256)))
  else if c = 's' then some (s.take.puts (stringOutput argument.string minus width))
  else
    match numeric c lflag with
    | none => some (s.putc c)
    | some (base, sign, lflag) =>
      (printNum fuel (numberArgument argument sign lflag) base sign width lead).map
        fun printed => s.take.puts printed.output

/-- The body of the loop of `vprintk`. -/
def turn (f : Format) (ap : ℕ → Argument) (fuel : ℕ) (s : State) : Option State :=
  if f.charAt s.fmt ≠ '%' then some (s.putc (f.charAt s.fmt))
  else do
    let s := s.advance
    let lead := if f.charAt s.fmt = '0' then '0' else ' '
    let s := skip f '0' s
    let minus := decide (f.charAt s.fmt = '-')
    let s := skip f '-' s
    let (width, s) ← widthLoop f fuel 0 s
    let (lflag, s) := lengthModifier f s
    convert f ap fuel minus lead width lflag s

/-- `vprintk`, from the test of its loop on. -/
def vprintkLoop (f : Format) (ap : ℕ → Argument) (inner : ℕ) : ℕ → State → Option State
  | 0, _ => none
  | fuel + 1, s =>
    if f.charAt s.fmt = nul then some s
    else (turn f ap inner s).bind fun s => vprintkLoop f ap inner fuel s.advance

/-- `vprintk`. -/
def vprintk (f : Format) (ap : ℕ → Argument) (fuel : ℕ) : Option State :=
  vprintkLoop f ap fuel fuel ⟨0, 0, [], [0]⟩

/-! ## Complete formats -/

/-- What is left behind a character that may be there. -/
def strip (c : Char) : List Char → List Char
  | [] => []
  | d :: cs => if d = c then cs else d :: cs

def isDigit (c : Char) : Bool := decide ('0' ≤ c ∧ c ≤ '9')

/-- What is left behind the flags, the width and the length modifier of a conversion. -/
def specRest (cs : List Char) : List Char :=
  strip 'l' (strip 'l' ((strip '-' (strip '0' cs)).dropWhile isDigit))

/-- Each conversion of the format has its character. -/
inductive Complete : List Char → Prop
  | nil : Complete []
  | text {c : Char} {cs : List Char} (hc : c ≠ '%') (h : Complete cs) : Complete (c :: cs)
  | conversion {c : Char} {cs rest : List Char} (hrest : specRest cs = c :: rest)
      (h : Complete rest) : Complete ('%' :: cs)

/-- With enough turns for its loops, `vprintk` comes to its end and reads no character behind the one
that ends the format. -/
def StaysInside (f : Format) (ap : ℕ → Argument) : Prop :=
  ∃ turns, ∀ fuel, turns ≤ fuel →
    ∃ s, vprintk f ap fuel = some s ∧ ∀ offset ∈ s.reads, offset ≤ f.text.length

theorem length_strip_le (c : Char) (cs : List Char) : (strip c cs).length ≤ cs.length := by
  cases cs with
  | nil => exact Nat.le_refl _
  | cons d cs =>
    rw [strip]
    split
    · exact Nat.le_succ _
    · exact Nat.le_refl _

theorem length_specRest_le (cs : List Char) : (specRest cs).length ≤ cs.length := by
  calc
    (specRest cs).length ≤ ((strip '-' (strip '0' cs)).dropWhile isDigit).length :=
      (length_strip_le _ _).trans (length_strip_le _ _)
    _ ≤ (strip '-' (strip '0' cs)).length := (List.dropWhile_sublist _).length_le
    _ ≤ cs.length := (length_strip_le _ _).trans (length_strip_le _ _)

variable {f : Format} {ap : ℕ → Argument} {fuel inner width : ℕ} {s s' : State} {c : Char}
  {cs rest : List Char} {minus : Bool} {lead : Char} {lflag : LengthFlag}

/-- The format pointer is at the rest `cs` of the format, and has never been behind the end. -/
structure At (f : Format) (s : State) (cs : List Char) : Prop where
  text : f.text.drop s.fmt = cs
  le : s.fmt ≤ f.text.length
  reads : ∀ offset ∈ s.reads, offset ≤ f.text.length

theorem At.lt (h : At f s (c :: cs)) : s.fmt < f.text.length := by
  by_contra hge
  have hnil := List.drop_eq_nil_of_le (Nat.le_of_not_lt hge)
  rw [h.text] at hnil
  cases hnil

theorem At.eq_length (h : At f s []) : s.fmt = f.text.length := by
  have hle := List.drop_eq_nil_iff.mp h.text
  have hfmt := h.le
  omega

theorem At.charAt_cons (h : At f s (c :: cs)) : f.charAt s.fmt = c := by
  have hlt := h.lt
  have hdrop := List.drop_eq_getElem_cons hlt
  rw [h.text] at hdrop
  rw [Format.charAt, if_pos hlt, List.getD_eq_getElem _ _ hlt]
  exact (List.cons.inj hdrop).1.symm

theorem At.charAt_nil (h : At f s []) : f.charAt s.fmt = nul := by
  rw [Format.charAt, h.eq_length, if_neg (Nat.lt_irrefl _), if_pos rfl]

theorem At.charAt_ne_nul (h : At f s (c :: cs)) : f.charAt s.fmt ≠ nul := by
  rw [h.charAt_cons]
  apply f.nonzero
  have hmem : c ∈ f.text.drop s.fmt := by
    rw [h.text]
    exact List.mem_cons_self
  exact List.mem_of_mem_drop hmem

theorem At.advance (h : At f s (c :: cs)) : At f s.advance cs := by
  have hlt := h.lt
  refine ⟨?_, hlt, ?_⟩
  · have hdrop := List.drop_eq_getElem_cons hlt
    rw [h.text] at hdrop
    exact (List.cons.inj hdrop).2.symm
  · intro offset hoffset
    cases List.mem_cons.mp hoffset with
    | inl heq => omega
    | inr hmem => exact h.reads offset hmem

theorem At.length_le (h : At f s cs) : cs.length ≤ f.text.length := by
  rw [← h.text, List.length_drop]
  exact Nat.sub_le _ _

/-- What does not move the pointer. -/
theorem At.congr (h : At f s cs) (hfmt : s'.fmt = s.fmt) (hreads : s'.reads = s.reads) :
    At f s' cs := by
  obtain ⟨htext, hle, hall⟩ := h
  rw [← hfmt] at htext hle
  rw [← hreads] at hall
  exact ⟨htext, hle, hall⟩

theorem At.skip (h : At f s cs) (hc : c ≠ nul) : At f (skip f c s) (strip c cs) := by
  cases cs with
  | nil =>
    rw [Printk.skip, h.charAt_nil, if_neg (Ne.symm hc)]
    exact h
  | cons d cs =>
    rw [Printk.skip, h.charAt_cons, strip]
    split
    · exact h.advance
    · exact h

theorem At.widthLoop (h : At f s cs) (hfuel : cs.length < fuel) (width : ℕ) :
    ∃ w s', widthLoop f fuel width s = some (w, s') ∧ At f s' (cs.dropWhile isDigit) := by
  induction cs generalizing s fuel width with
  | nil =>
    obtain ⟨turns, rfl⟩ : ∃ turns, fuel = turns + 1 := ⟨fuel - 1, by omega⟩
    have hdigit : ¬ ('0' ≤ nul ∧ nul ≤ '9') := by decide
    refine ⟨width, s, ?_, h⟩
    rw [Printk.widthLoop, h.charAt_nil]
    exact if_neg hdigit
  | cons d cs ih =>
    obtain ⟨turns, rfl⟩ : ∃ turns, fuel = turns + 1 := ⟨fuel - 1, by simp at hfuel; omega⟩
    rw [Printk.widthLoop, h.charAt_cons]
    by_cases hdigit : '0' ≤ d ∧ d ≤ '9'
    · have htrue : isDigit d = true := decide_eq_true hdigit
      rw [List.dropWhile_cons_of_pos htrue]
      simp only [if_pos hdigit]
      exact ih h.advance (by simpa using hfuel) _
    · have hfalse : ¬ isDigit d = true := mt of_decide_eq_true hdigit
      rw [List.dropWhile_cons_of_neg hfalse]
      exact ⟨width, s, if_neg hdigit, h⟩

theorem At.lengthModifier (h : At f s cs) :
    At f (lengthModifier f s).2 (strip 'l' (strip 'l' cs)) := by
  have hl : 'l' ≠ nul := by decide
  cases cs with
  | nil =>
    rw [Printk.lengthModifier, h.charAt_nil, if_neg (Ne.symm hl)]
    exact h
  | cons d cs =>
    rw [Printk.lengthModifier, h.charAt_cons, strip]
    by_cases hd : d = 'l'
    · rw [if_pos hd, if_pos hd]
      have hsecond := h.advance.skip hl
      rw [Printk.skip] at hsecond
      change At f (if f.charAt s.advance.fmt = 'l' then (LengthFlag.longLong, s.advance.advance)
        else (LengthFlag.long, s.advance)).2 (strip 'l' cs)
      split
      next heq =>
        rw [if_pos heq] at hsecond
        exact hsecond
      next hne =>
        rw [if_neg hne] at hsecond
        exact hsecond
    · rw [if_neg hd, if_neg hd, strip, if_neg hd]
      exact h

/-- A conversion does not move the pointer. -/
theorem convert_eq (f : Format) (ap : ℕ → Argument) (hinner : 65 ≤ inner) (minus : Bool) (lead : Char)
    (width : ℕ) (lflag : LengthFlag) (s : State) :
    ∃ s', convert f ap inner minus lead width lflag s = some s' ∧ s'.fmt = s.fmt ∧
      s'.reads = s.reads := by
  simp only [convert]
  split
  next => exact ⟨_, rfl, rfl, rfl⟩
  next =>
    split
    next => exact ⟨_, rfl, rfl, rfl⟩
    next =>
      split
      next => exact ⟨_, rfl, rfl, rfl⟩
      next base sign length hnumeric =>
        have hbase : base = 8 ∨ base = 10 ∨ base = 16 := by
          simp only [numeric] at hnumeric
          split_ifs at hnumeric <;> simp_all
        obtain ⟨printed, hprinted, -⟩ := printNum_spec
          (numberArgument (ap s.taken) sign length) sign width lead hbase hinner
        rw [hprinted]
        exact ⟨_, rfl, rfl, rfl⟩

/-- The body of the loop at a character that is printed as it is. -/
theorem At.turn_text (ap : ℕ → Argument) (inner : ℕ) (h : At f s (c :: cs)) (hc : c ≠ '%') :
    ∃ s', turn f ap inner s = some s' ∧ At f s' (c :: cs) := by
  rw [turn, h.charAt_cons, if_pos hc]
  exact ⟨_, rfl, h.congr rfl rfl⟩

/-- The body of the loop at a conversion goes on to its character, or to the end of the format. -/
theorem At.turn_conversion (ap : ℕ → Argument) (h : At f s ('%' :: cs)) (hinner : 65 ≤ inner)
    (hlength : cs.length < inner) : ∃ s', turn f ap inner s = some s' ∧ At f s' (specRest cs) := by
  have hflags := (h.advance.skip (by decide : '0' ≠ nul)).skip (by decide : '-' ≠ nul)
  have hfuel : (strip '-' (strip '0' cs)).length < inner :=
    Nat.lt_of_le_of_lt ((length_strip_le _ _).trans (length_strip_le _ _)) hlength
  obtain ⟨w, s₁, hwidth, hat⟩ := hflags.widthLoop hfuel 0
  obtain ⟨s', hconvert, hfmt, hreads⟩ := convert_eq f ap hinner
    (decide (f.charAt (Printk.skip f '0' s.advance).fmt = '-'))
    (if f.charAt s.advance.fmt = '0' then '0' else ' ') w (Printk.lengthModifier f s₁).1
    (Printk.lengthModifier f s₁).2
  refine ⟨s', ?_, hat.lengthModifier.congr hfmt hreads⟩
  rw [turn, h.charAt_cons, if_neg (by simp)]
  simp only [hwidth, Option.bind_eq_bind, Option.bind_some]
  exact hconvert

/-- A complete format is read to its end. -/
theorem Complete.vprintkLoop (ap : ℕ → Argument) (hcomplete : Complete cs)
    (hlength : f.text.length < inner) (hinner : 65 ≤ inner) :
    ∀ {fuel : ℕ} {s : State}, At f s cs → cs.length < fuel →
      ∃ s', vprintkLoop f ap inner fuel s = some s' ∧
        ∀ offset ∈ s'.reads, offset ≤ f.text.length := by
  induction hcomplete with
  | nil =>
    intro fuel s h hfuel
    obtain ⟨turns, rfl⟩ : ∃ turns, fuel = turns + 1 := ⟨fuel - 1, by omega⟩
    rw [Printk.vprintkLoop, if_pos h.charAt_nil]
    exact ⟨s, rfl, h.reads⟩
  | @text c cs hc _ ih =>
    intro fuel s h hfuel
    rw [List.length_cons] at hfuel
    obtain ⟨turns, rfl⟩ : ∃ turns, fuel = turns + 1 := ⟨fuel - 1, by omega⟩
    obtain ⟨s', hturn, hat⟩ := h.turn_text ap inner hc
    rw [Printk.vprintkLoop, if_neg h.charAt_ne_nul, hturn, Option.bind_some]
    exact ih hat.advance (by omega)
  | @conversion c cs rest hrest _ ih =>
    intro fuel s h hfuel
    rw [List.length_cons] at hfuel
    obtain ⟨turns, rfl⟩ : ∃ turns, fuel = turns + 1 := ⟨fuel - 1, by omega⟩
    have hle := h.length_le
    rw [List.length_cons] at hle
    obtain ⟨s', hturn, hat⟩ := h.turn_conversion ap hinner (by omega)
    have hshort := length_specRest_le cs
    rw [hrest] at hat hshort
    rw [List.length_cons] at hshort
    rw [Printk.vprintkLoop, if_neg h.charAt_ne_nul, hturn, Option.bind_some]
    exact ih hat.advance (by omega)

/-! ## Incomplete formats -/

theorem reads_skip (f : Format) (c : Char) (s : State) : s.reads ⊆ (skip f c s).reads := by
  rw [skip]
  split
  · exact List.subset_cons_self _ _
  · exact List.Subset.refl _

theorem reads_widthLoop {w : ℕ} (heq : widthLoop f fuel width s = some (w, s')) :
    s.reads ⊆ s'.reads := by
  induction fuel generalizing width s with
  | zero => cases heq
  | succ fuel ih =>
    rw [widthLoop] at heq
    split at heq
    · exact List.Subset.trans (List.subset_cons_self _ _) (ih heq)
    · cases heq
      exact List.Subset.refl _

theorem reads_lengthModifier (f : Format) (s : State) :
    s.reads ⊆ (lengthModifier f s).2.reads := by
  rw [lengthModifier]
  split
  · change s.reads ⊆ (if f.charAt s.advance.fmt = 'l' then (LengthFlag.longLong, s.advance.advance)
      else (LengthFlag.long, s.advance)).2.reads
    split
    · exact List.Subset.trans (List.subset_cons_self _ _) (List.subset_cons_self _ _)
    · exact List.subset_cons_self _ _
  · exact List.Subset.refl _

theorem reads_convert (heq : convert f ap inner minus lead width lflag s = some s') :
    s'.reads = s.reads := by
  simp only [convert] at heq
  split at heq
  next => cases heq; rfl
  next =>
    split at heq
    next => cases heq; rfl
    next =>
      split at heq
      next => cases heq; rfl
      next =>
        obtain ⟨printed, -, rfl⟩ := Option.map_eq_some_iff.mp heq
        rfl

/-- What has been read stays read. -/
theorem reads_turn (heq : turn f ap inner s = some s') : s.reads ⊆ s'.reads := by
  rw [turn] at heq
  split at heq
  next =>
    cases heq
    exact List.Subset.refl _
  next =>
    simp only [Option.bind_eq_bind] at heq
    obtain ⟨⟨w, s₁⟩, hwidth, hconvert⟩ := Option.bind_eq_some_iff.mp heq
    rw [reads_convert hconvert]
    calc
      s.reads ⊆ s.advance.reads := List.subset_cons_self _ _
      _ ⊆ (skip f '0' s.advance).reads := reads_skip _ _ _
      _ ⊆ (skip f '-' (skip f '0' s.advance)).reads := reads_skip _ _ _
      _ ⊆ s₁.reads := reads_widthLoop hwidth
      _ ⊆ (lengthModifier f s₁).2.reads := reads_lengthModifier f s₁

theorem reads_vprintkLoop (heq : vprintkLoop f ap inner fuel s = some s') : s.reads ⊆ s'.reads := by
  induction fuel generalizing s with
  | zero => cases heq
  | succ fuel ih =>
    rw [vprintkLoop] at heq
    split at heq
    next =>
      cases heq
      exact List.Subset.refl _
    next =>
      obtain ⟨s₁, hturn, hloop⟩ := Option.bind_eq_some_iff.mp heq
      exact List.Subset.trans (reads_turn hturn) (List.Subset.trans (List.subset_cons_self _ _) (ih hloop))

/-- A conversion without its character takes the pointer over the end of the format. -/
theorem At.reads_end (h : At f s cs) (hincomplete : ¬ Complete cs) (hlength : f.text.length < inner)
    (hinner : 65 ≤ inner) (heq : Printk.vprintkLoop f ap inner fuel s = some s') :
    f.text.length + 1 ∈ s'.reads := by
  induction fuel generalizing s cs with
  | zero => cases heq
  | succ fuel ih =>
    cases cs with
    | nil => exact absurd .nil hincomplete
    | cons c cs =>
      rw [Printk.vprintkLoop, if_neg h.charAt_ne_nul] at heq
      obtain ⟨s₁, hturn, hloop⟩ := Option.bind_eq_some_iff.mp heq
      by_cases hc : c = '%'
      · subst hc
        have hle := h.length_le
        rw [List.length_cons] at hle
        obtain ⟨s₂, hturn₂, hat⟩ := h.turn_conversion ap hinner (by omega)
        rw [hturn] at hturn₂
        cases hturn₂
        cases hrest : specRest cs with
        | nil =>
          rw [hrest] at hat
          have hread : f.text.length + 1 ∈ s₁.advance.reads := by
            rw [← hat.eq_length]
            exact List.mem_cons_self
          exact reads_vprintkLoop hloop hread
        | cons d rest =>
          rw [hrest] at hat
          exact ih hat.advance (fun hcomplete => hincomplete (.conversion hrest hcomplete)) hloop
      · obtain ⟨s₂, hturn₂, hat⟩ := h.turn_text ap inner hc
        rw [hturn] at hturn₂
        cases hturn₂
        exact ih hat.advance (fun hcomplete => hincomplete (.text hc hcomplete)) hloop

theorem At.start (f : Format) : At f ⟨0, 0, [], [0]⟩ f.text :=
  ⟨rfl, Nat.zero_le _, by simp⟩

/-- A format is read up to its end and no further if and only if it does not stop inside of a
conversion. -/
theorem staysInside_iff (f : Format) (ap : ℕ → Argument) : StaysInside f ap ↔ Complete f.text := by
  constructor
  · intro ⟨turns, hinside⟩
    by_contra hincomplete
    obtain ⟨s, heq, hreads⟩ := hinside (turns + f.text.length + 65) (by omega)
    have hend := (At.start f).reads_end hincomplete (by omega) (by omega) heq
    have hle := hreads _ hend
    omega
  · intro hcomplete
    refine ⟨f.text.length + 65, fun fuel hfuel => ?_⟩
    have hlength : f.text.length < fuel := by omega
    have hinner : 65 ≤ fuel := by omega
    exact hcomplete.vprintkLoop ap hlength hinner (At.start f) hlength

/-- What kernel print does with formats and with numbers. -/
theorem printk_iff (f : Format) (ap : ℕ → Argument) :
    (StaysInside f ap ↔ Complete f.text) ∧
      ∀ (num : BitVec 64) (base : ℕ) (sign : Bool) (maxwidth : ℕ) (lead : Char),
        base = 8 ∨ base = 10 ∨ base = 16 →
        ∃ printed, printNum 65 num base sign maxwidth lead = some printed ∧
          PrintsNumber num base sign maxwidth lead printed :=
  ⟨staysInside_iff f ap, fun num _ sign maxwidth lead hbase =>
    printNum_spec num sign maxwidth lead hbase (Nat.le_refl _)⟩

/-- A percent sign, and nothing in the memory behind it. -/
def percent : Format where
  text := ['%']
  beyond := fun _ => nul
  nonzero := by
    intro c hc
    rw [List.mem_singleton.mp hc]
    decide

/-- The character behind the percent sign is the end of the format.  It is printed, and the next one is
read. -/
theorem exists_not_staysInside :
    (vprintk percent (fun _ => ⟨0, 0, none⟩) 2).map (fun s => (s.output, s.reads)) =
        some ([nul], [2, 1, 0]) ∧
      ¬ ∀ (f : Format) (ap : ℕ → Argument), StaysInside f ap := by
  refine ⟨by decide, fun hall => ?_⟩
  have hcomplete := (staysInside_iff _ _).mp (hall percent fun _ => ⟨0, 0, none⟩)
  cases hcomplete with
  | text hc _ => exact hc rfl
  | conversion hrest _ => cases hrest

end Rtems.Printk
