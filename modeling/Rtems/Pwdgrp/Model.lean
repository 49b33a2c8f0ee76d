import Mathlib

/-!
# User database records

The model of the functions of `pwdgrp.c` that read a record of `/etc/passwd` or
`/etc/group`.  A string goes to the buffer of the caller, and a string field of
the record becomes its address there.  The array of pointers of a group is kept
as a list beside the memory, and the addresses of its cells count as written.
-/

namespace Rtems.Pwdgrp

/-- What the functions work on: the characters of the file from the next one on, `*bufp`, `*nleft`,
the memory, and the addresses that were written. -/
structure Scan where
  input : List UInt8
  bufp : Nat
  nleft : Nat
  mem : Nat → UInt8
  written : List Nat

namespace Scan

/-- A character is stored at an address. -/
def store (s : Scan) (a : Nat) (c : UInt8) : Scan :=
  { s with mem := Function.update s.mem a c, written := s.written ++ [a] }

/-- A character is stored at `*bufp`, which is moved on. -/
def put (s : Scan) (c : UInt8) : Scan :=
  { s.store s.bufp c with bufp := s.bufp + 1, nleft := (s.nleft + 2 ^ 32 - 1) % 2 ^ 32 }

/-- The four bytes of a pointer are stored. -/
def storePointer (s : Scan) (a : Nat) : Scan :=
  { s with written := s.written ++ [a, a + 1, a + 2, a + 3] }

end Scan

/-! ## Fields -/

/-- The loop of `scanString`, and what follows it. -/
def scanStringLoop (nlFlag : Bool) : List UInt8 → Scan → Scan × Bool
  | [], s => ({ s with input := [] }, false)
  | c :: cs, s =>
    if c = 58 then
      if nlFlag then ({ s with input := cs }, false) else ({ s with input := cs }.put 0, true)
    else if c = 10 then
      if !nlFlag then ({ s with input := cs }, false) else ({ s with input := cs }.put 0, true)
    else if s.nleft < 2 then ({ s with input := cs }, false)
    else scanStringLoop nlFlag cs (s.put c)

/-- `scanString`, with the address of the string. -/
def scanString (nlFlag : Bool) (s : Scan) : Scan × Option Nat :=
  ((scanStringLoop nlFlag s.input s).1,
    if (scanStringLoop nlFlag s.input s).2 then some s.bufp else none)

/-- `isdigit`. -/
def isDigit (c : UInt8) : Bool := decide (48 ≤ c) && decide (c ≤ 57)

/-- The loop of `scanInt`, with the characters that are left. -/
def scanIntLoop : List UInt8 → Nat → Nat → Int → List UInt8 × Option Int
  | [], _, _, _ => ([], none)
  | c :: cs, i, limit, sign =>
    if c = 58 then (cs, if sign = 0 then none else some (i * sign))
    else if sign = 0 ∧ c = 45 then scanIntLoop cs i (limit + 1) (-1)
    else
      let sign := if sign = 0 then 1 else sign
      if !isDigit c then (cs, none)
      else
        let d := c.toNat - 48
        if i > limit / 10 ∨ i = limit / 10 ∧ d > limit % 10 then (cs, none)
        else scanIntLoop cs (i * 10 + d) limit sign

/-- `scanInt`.  `INT_MAX` is 2147483647. -/
def scanInt (s : Scan) : Scan × Option Int :=
  ({ s with input := (scanIntLoop s.input 0 2147483647 0).1 },
    (scanIntLoop s.input 0 2147483647 0).2)

/-- A field of a record. -/
inductive Field where
  | string (nlFlag : Bool)
  | int
deriving DecidableEq, Repr

/-- What a field is read as. -/
inductive Value where
  | string (address : Nat)
  | int (val : Int)
deriving DecidableEq, Repr

def scanField : Field → Scan → Scan × Option Value
  | .string nlFlag, s => ((scanString nlFlag s).1, (scanString nlFlag s).2.map .string)
  | .int, s => ((scanInt s).1, (scanInt s).2.map .int)

/-- The fields are read up to the first that fails. -/
def scanFields : List Field → Scan → Scan × Option (List Value)
  | [], s => (s, some [])
  | k :: ks, s =>
    match scanField k s with
    | (s, none) => (s, none)
    | (s, some v) =>
      match scanFields ks s with
      | (s, none) => (s, none)
      | (s, some vs) => (s, some (v :: vs))

/-! ## Records -/

/-- `struct passwd`. -/
structure Passwd where
  pwName : Nat
  pwPasswd : Nat
  pwUid : Int
  pwGid : Int
  pwComment : Nat
  pwGecos : Nat
  pwDir : Nat
  pwShell : Nat
deriving DecidableEq, Repr

/-- The calls in `_libcsupport_scanpw`. -/
def passwdFields : List Field :=
  [.string false, .string false, .int, .int, .string false, .string false, .string false,
    .string true]

/-- `_libcsupport_scanpw`. -/
def scanpw (s : Scan) : Scan × Option Passwd :=
  match scanFields passwdFields s with
  | (s, some [.string name, .string passwd, .int uid, .int gid, .string comment, .string gecos,
      .string dir, .string shell]) => (s, some ⟨name, passwd, uid, gid, comment, gecos, dir, shell⟩)
  | (s, _) => (s, none)

/-- `struct group`, with the pointers in the array `gr_mem` before the null pointer. -/
structure Group where
  grName : Nat
  grPasswd : Nat
  grGid : Int
  grMem : Nat
  members : List Nat
deriving DecidableEq, Repr

/-- The calls in `_libcsupport_scangr`. -/
def groupFields : List Field := [.string false, .string false, .int, .string true]

/-- The loop that counts the members. -/
def countMembers (mem : Nat → UInt8) : Nat → Nat → Nat → Nat
  | 0, _, memcount => memcount
  | fuel + 1, cp, memcount =>
    if mem cp = 0 then memcount
    else countMembers mem fuel (cp + 1) (if mem cp = 44 then memcount + 1 else memcount)

/-- The loop that fills in the array of pointers. -/
def fillMembers (grMem : Nat) : Nat → Nat → Scan → List Nat → Scan × List Nat
  | 0, _, s, members => (s, members)
  | fuel + 1, cp, s, members =>
    if s.mem cp = 0 then (s, members)
    else if s.mem cp = 44 then
      fillMembers grMem fuel (cp + 1) ((s.store cp 0).storePointer (grMem + 4 * members.length))
        (members ++ [cp + 1])
    else fillMembers grMem fuel (cp + 1) s members

/-- The number of members. -/
def memcount (mem : Nat → UInt8) (length grmem : Nat) : Nat :=
  if mem grmem = 0 then 0 else countMembers mem length grmem 1

/-- The array of pointers is set up behind the strings, with its address and the pointers. -/
def groupMembers (s : Scan) (length grmem : Nat) : Scan × Option (Nat × List Nat) :=
  if s.nleft < ((memcount s.mem length grmem + 1) * 4 + 15) % 2 ^ 32 then (s, none)
  else
    let grMem := (s.bufp + 15) / 16 * 16
    let (s, members) :=
      if s.mem grmem = 0 then (s, [])
      else fillMembers grMem length grmem (s.storePointer grMem) [grmem]
    (s.storePointer (grMem + 4 * members.length), some (grMem, members))

/-- `_libcsupport_scangr`.  The string of the members comes from the input, so that a loop over it
ends within as many turns as the input has characters. -/
def scangr (s : Scan) : Scan × Option Group :=
  match scanFields groupFields s with
  | (s', some [.string name, .string passwd, .int gid, .string grmem]) =>
    match groupMembers s' s.input.length grmem with
    | (s'', some (grMem, members)) => (s'', some ⟨name, passwd, gid, grMem, members⟩)
    | (s'', none) => (s'', none)
  | (s', _) => (s', none)

end Rtems.Pwdgrp

/-!
## The grammar of the records

A record is a line of fields, each ended by its terminator.  A string is text
without a terminator and without a null character, an id is a decimal number
that fits an `int`.  The functions accept a little more than this: `Scanned` is
what they take as a field.
-/

namespace Rtems.Pwdgrp

/-! ## Fields of a line -/

/-- The character that ends a field: the newline for the last string, a colon for the others. -/
def Field.terminator : Field → UInt8
  | .string true => 10
  | .string false => 58
  | .int => 58

/-- The bytes of the buffer that a field takes. -/
def Field.size : Field → List UInt8 → Nat
  | .string _, f => f.length + 1
  | .int, _ => 0

/-- A string between colons. -/
def IsText (f : List UInt8) : Prop := 58 ∉ f ∧ 10 ∉ f

def IsDigits (ds : List UInt8) : Prop := ∀ c ∈ ds, isDigit c = true

/-- The number that digits continue. -/
def decimal (i : Nat) (ds : List UInt8) : Nat := ds.foldl (fun i c => i * 10 + (c.toNat - 48)) i

/-- An id with its value: at least one digit, an optional minus sign, and in the range of `int`. -/
inductive IsId : List UInt8 → Int → Prop where
  | pos {ds : List UInt8} : ds ≠ [] → IsDigits ds → decimal 0 ds ≤ 2147483647 → IsId ds (decimal 0 ds)
  | neg {ds : List UInt8} : ds ≠ [] → IsDigits ds → decimal 0 ds ≤ 2147483648 →
      IsId (45 :: ds) (-decimal 0 ds)

/-- A field of the grammar. -/
def Field.Grammar : Field → List UInt8 → Prop
  | .string _, f => IsText f ∧ 0 ∉ f
  | .int, f => ∃ v, IsId f v

/-- What `scanInt` takes: an id, or a minus sign alone. -/
def ScannedId (f : List UInt8) (v : Int) : Prop := IsId f v ∨ f = [45] ∧ v = 0

/-- What the functions take as a field. -/
def Field.Scanned : Field → List UInt8 → Prop
  | .string _, f => IsText f
  | .int, f => ∃ v, ScannedId f v

theorem Field.Grammar.scanned {k : Field} {f : List UInt8} (h : k.Grammar f) : k.Scanned f := by
  cases k with
  | string nlFlag => exact h.1
  | int =>
    obtain ⟨v, hv⟩ := h
    exact ⟨v, Or.inl hv⟩

/-- The text of a line. -/
def line : List Field → List (List UInt8) → List UInt8
  | k :: ks, f :: fs => f ++ k.terminator :: line ks fs
  | _, _ => []

/-- The bytes that the strings of a line take with their terminators. -/
def room : List Field → List (List UInt8) → Nat
  | k :: ks, f :: fs => k.size f + room ks fs
  | _, _ => 0

/-- An empty string is reached when the strings before it have filled the buffer. -/
def Overruns (ks : List Field) (bufsize : Nat) (input : List UInt8) : Prop :=
  ∃ before nlFlag behind fs rest, ks = before ++ .string nlFlag :: behind ∧
    List.Forall₂ Field.Scanned before fs ∧ room before fs = bufsize ∧
    input = line before fs ++ Field.terminator (.string nlFlag) :: rest

theorem not_overruns_nil {bufsize : Nat} {input : List UInt8} : ¬ Overruns [] bufsize input := by
  intro h
  obtain ⟨before, nlFlag, behind, fs, rest, hks, -⟩ := h
  simp at hks

theorem overruns_head {nlFlag : Bool} {ks : List Field} {rest : List UInt8} :
    Overruns (.string nlFlag :: ks) 0 (Field.terminator (.string nlFlag) :: rest) :=
  ⟨[], nlFlag, ks, [], rest, rfl, .nil, rfl, rfl⟩

theorem overruns_cons {k : Field} {ks : List Field} {f rest : List UInt8} {left : Nat}
    (hf : k.Scanned f) (h : Overruns ks left rest) :
    Overruns (k :: ks) (k.size f + left) (f ++ k.terminator :: rest) := by
  obtain ⟨before, nlFlag, behind, fs, rest', rfl, hfs, rfl, rfl⟩ := h
  exact ⟨k :: before, nlFlag, behind, f :: fs, rest', rfl, .cons hf hfs, rfl, by simp [line]⟩

/-- A line that overruns the buffer does so at its first field or behind it. -/
theorem overruns_cases {k : Field} {ks : List Field} {bufsize : Nat} {input : List UInt8}
    (h : Overruns (k :: ks) bufsize input) :
    (∃ nlFlag rest, k = .string nlFlag ∧ bufsize = 0 ∧
      input = Field.terminator (.string nlFlag) :: rest) ∨
    ∃ f rest left, k.Scanned f ∧ input = f ++ k.terminator :: rest ∧ bufsize = k.size f + left ∧
      Overruns ks left rest := by
  obtain ⟨before, nlFlag, behind, fs, rest, hks, hfs, hroom, hinput⟩ := h
  cases hfs with
  | nil =>
    simp only [List.nil_append, List.cons.injEq] at hks
    exact Or.inl ⟨nlFlag, rest, hks.1, hroom.symm, hinput⟩
  | @cons k' f before fs hf hfs =>
    simp only [List.cons_append, List.cons.injEq] at hks
    obtain ⟨rfl, rfl⟩ := hks
    refine Or.inr ⟨f, line before fs ++ Field.terminator (.string nlFlag) :: rest, room before fs, hf,
      ?_, hroom.symm, ⟨before, nlFlag, behind, fs, rest, rfl, hfs, rfl, rfl⟩⟩
    simpa [line] using hinput

/-! ## A line is read in one way -/

theorem terminator_of_digits {ds : List UInt8} (h : IsDigits ds) : 58 ∉ ds := by
  intro hmem
  exact absurd (h 58 hmem) (by decide)

theorem Field.Scanned.terminator {k : Field} {f : List UInt8} (h : k.Scanned f) :
    k.terminator ∉ f := by
  cases k with
  | string nlFlag =>
    cases nlFlag with
    | false => exact h.1
    | true => exact h.2
  | int =>
    obtain ⟨v, hid | ⟨rfl, -⟩⟩ := h
    · cases hid with
      | pos hne hds hle => exact terminator_of_digits hds
      | neg hne hds hle =>
        simp only [List.mem_cons, not_or]
        exact ⟨by decide, terminator_of_digits hds⟩
    · decide

/-- A text is split at the first of a character in one way. -/
theorem split_first {a : UInt8} {f : List UInt8} : ∀ {f' rest rest' : List UInt8}, a ∉ f → a ∉ f' →
    f ++ a :: rest = f' ++ a :: rest' → f = f' ∧ rest = rest' := by
  induction f with
  | nil =>
    intro f' rest rest' hf hf' h
    cases f' with
    | nil => exact ⟨rfl, List.tail_eq_of_cons_eq h⟩
    | cons c f' => exact absurd (List.head_eq_of_cons_eq h) fun ha => hf' (ha ▸ List.mem_cons_self)
  | cons c f ih =>
    intro f' rest rest' hf hf' h
    cases f' with
    | nil =>
      exact absurd (List.head_eq_of_cons_eq h) fun hc => hf (hc ▸ List.mem_cons_self)
    | cons c' f' =>
      simp only [List.cons_append, List.cons.injEq] at h
      obtain ⟨rfl, h⟩ := h
      obtain ⟨rfl, hrest⟩ := ih (fun hmem => hf (List.mem_cons_of_mem c hmem))
        (fun hmem => hf' (List.mem_cons_of_mem c hmem)) h
      exact ⟨rfl, hrest⟩

/-- Two fields with the same text before what follows are one. -/
theorem scanned_unique {k : Field} {f f' rest rest' : List UInt8} (hf : k.Scanned f)
    (hf' : k.Scanned f') (h : f ++ k.terminator :: rest = f' ++ k.terminator :: rest') :
    f = f' ∧ rest = rest' :=
  split_first hf.terminator hf'.terminator h

theorem line_unique {ks : List Field} {fs fs' : List (List UInt8)} {rest rest' : List UInt8}
    (hfs : List.Forall₂ Field.Scanned ks fs) (hfs' : List.Forall₂ Field.Scanned ks fs')
    (h : line ks fs ++ rest = line ks fs' ++ rest') : fs = fs' := by
  induction hfs generalizing fs' with
  | nil =>
    cases hfs'
    rfl
  | cons hf hfs ih =>
    cases hfs' with
    | cons hf' hfs' =>
      simp only [line, List.append_assoc, List.cons_append] at h
      obtain ⟨rfl, hrest⟩ := scanned_unique hf hf' h
      rw [ih hfs' hrest]

/-! ## Digits -/

theorem decimal_cons (i : Nat) (c : UInt8) (ds : List UInt8) :
    decimal i (c :: ds) = decimal (i * 10 + (c.toNat - 48)) ds := by
  unfold decimal
  rw [List.foldl_cons]

theorem le_decimal (ds : List UInt8) : ∀ i, i ≤ decimal i ds := by
  induction ds with
  | nil =>
    intro i
    exact le_rfl
  | cons c ds ih =>
    intro i
    rw [decimal_cons]
    exact le_trans (by omega) (ih _)

/-- A minus sign alone is no id. -/
theorem not_isId_minus {v : Int} : ¬ IsId [45] v := by
  generalize hf : ([45] : List UInt8) = f
  intro h
  cases h with
  | pos hne hds hle =>
    subst hf
    exact absurd (hds 45 List.mem_cons_self) (by decide)
  | neg hne hds hle =>
    simp only [List.cons.injEq, true_and] at hf
    exact hne hf.symm

theorem ScannedId.isId {f : List UInt8} {v : Int} (h : ScannedId f v)
    (hf : Field.Grammar .int f) : IsId f v := by
  cases h with
  | inl hid => exact hid
  | inr hminus =>
    obtain ⟨v', hv'⟩ := hf
    rw [hminus.1] at hv'
    exact absurd hv' not_isId_minus

end Rtems.Pwdgrp
