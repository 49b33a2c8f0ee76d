import Rtems.Pwdgrp.Scan

/-!
# The fields of a line are read in turn

`ReadsField` says what it is to have read a field: its text and its terminator
are gone from the input, its bytes follow each other at the old `*bufp`, and
nothing before them is touched.  `Reads` chains this over a line.  The fields of
a line that fits are read, and unless an empty string comes with the buffer full,
nothing else is accepted and nothing is written outside.
-/

namespace Rtems.Pwdgrp

/-- The bytes of a string with its null character, or the number of an id. -/
def Value.Stored (mem : Nat → UInt8) : Value → List UInt8 → Prop
  | .string p, f => Bytes mem p (f ++ [0])
  | .int v, f => ScannedId f v

/-- A string is read as its address, an id as a number. -/
inductive Field.Yields : Field → Nat → Value → Prop where
  | string (nlFlag : Bool) (p : Nat) : Yields (.string nlFlag) p (.string p)
  | int (p : Nat) (v : Int) : Yields .int p (.int v)

/-- A field was read. -/
structure ReadsField (k : Field) (f : List UInt8) (v : Value) (s s' : Scan) : Prop where
  scanned : k.Scanned f
  input : s.input = f ++ k.terminator :: s'.input
  nleft : s.nleft = k.size f + s'.nleft
  bufp : s'.bufp = s.bufp + k.size f
  frame : ∀ a < s.bufp, s'.mem a = s.mem a
  written : s'.written = s.written ++ List.range' s.bufp (k.size f)
  yields : k.Yields s.bufp v
  stored : ∀ mem : Nat → UInt8, (∀ a < s'.bufp, mem a = s'.mem a) → v.Stored mem f

/-- The fields of a line were read. -/
inductive Reads : List Field → List (List UInt8) → List Value → Scan → Scan → Prop where
  | nil (s : Scan) : Reads [] [] [] s s
  | cons {k : Field} {f : List UInt8} {v : Value} {ks : List Field} {fs : List (List UInt8)}
      {vs : List Value} {s s' s'' : Scan} : ReadsField k f v s s' → Reads ks fs vs s' s'' →
      Reads (k :: ks) (f :: fs) (v :: vs) s s''

namespace Reads

variable {ks : List Field} {fs : List (List UInt8)} {vs : List Value} {s s' : Scan}

theorem input (h : Reads ks fs vs s s') : s.input = line ks fs ++ s'.input := by
  induction h with
  | nil s => rfl
  | cons hf _ ih =>
    rw [hf.input, ih]
    simp [line]

theorem nleft (h : Reads ks fs vs s s') : s.nleft = room ks fs + s'.nleft := by
  induction h with
  | nil s => exact (Nat.zero_add _).symm
  | cons hf _ ih =>
    rw [hf.nleft, ih, room]
    omega

theorem bufp (h : Reads ks fs vs s s') : s'.bufp = s.bufp + room ks fs := by
  induction h with
  | nil s => rfl
  | cons hf _ ih =>
    rw [ih, hf.bufp, room]
    omega

theorem frame (h : Reads ks fs vs s s') : ∀ a < s.bufp, s'.mem a = s.mem a := by
  induction h with
  | nil s =>
    intro a ha
    rfl
  | @cons k f v ks fs vs s s' s'' hf hfs ih =>
    intro a ha
    have hle := hf.bufp
    rw [ih a (by omega), hf.frame a ha]

theorem written (h : Reads ks fs vs s s') :
    s'.written = s.written ++ List.range' s.bufp (room ks fs) := by
  induction h with
  | nil s => simp [room]
  | cons hf hfs ih =>
    rw [ih, hf.written, hf.bufp, List.append_assoc, List.range'_append_1, room]

end Reads

/-! ## One field -/

/-- A field that comes next and has room is read. -/
theorem scanField_reads {k : Field} {f rest : List UInt8} {s : Scan} (hleft : s.nleft < 2 ^ 32)
    (hf : k.Scanned f) (hinput : s.input = f ++ k.terminator :: rest) (hroom : k.size f ≤ s.nleft) :
    ∃ v s', scanField k s = (s', some v) ∧ ReadsField k f v s s' := by
  cases k with
  | string nlFlag =>
    have hlen : (f ++ [0]).length = Field.size (.string nlFlag) f := List.length_append
    have hloop : scanStringLoop nlFlag s.input s =
        ({ s.puts (f ++ [0]) with input := rest }, true) := by
      rw [hinput]
      exact scanStringLoop_string hf hleft hroom
    refine ⟨.string s.bufp, { s.puts (f ++ [0]) with input := rest }, ?_, ?_⟩
    · simp only [scanField, scanString, hloop]
      rfl
    · have hnleft := Scan.puts_nleft (f ++ [0]) hleft (by omega)
      have hbufp := Scan.puts_bufp (f ++ [0]) s
      have hwritten := Scan.puts_written (f ++ [0]) s
      rw [hlen] at hnleft hbufp hwritten
      refine ⟨hf, hinput, hnleft, hbufp, fun a ha => Scan.puts_frame (f ++ [0]) ha, hwritten,
        .string nlFlag s.bufp, ?_⟩
      intro mem hmem i hi
      rw [hlen] at hi
      rw [hmem (s.bufp + i) (by show s.bufp + i < (s.puts (f ++ [0])).bufp; omega)]
      exact Scan.puts_bytes (f ++ [0]) s i (by omega)
  | int =>
    obtain ⟨v, hv⟩ := hf
    refine ⟨.int v, { s with input := rest }, ?_, ?_⟩
    · simp only [scanField, scanInt_id hv hinput]
      rfl
    · exact ⟨⟨v, hv⟩, hinput, (Nat.zero_add _).symm, rfl, fun a ha => rfl,
        (List.append_nil _).symm, .int s.bufp v, fun mem hmem => hv⟩

/-- Every address that was written anew lies in the buffer. -/
def Inside (s s' : Scan) : Prop :=
  ∀ a ∈ s'.written, a ∈ s.written ∨ s.bufp ≤ a ∧ a < s.bufp + s.nleft

/-- A field with room comes next, or the function fails inside of the buffer. -/
theorem scanField_cases {k : Field} {s : Scan} (hleft : s.nleft < 2 ^ 32)
    (hhead : ∀ nlFlag rest, k = .string nlFlag → s.nleft = 0 →
      s.input ≠ Field.terminator (.string nlFlag) :: rest) :
    (∃ f rest, k.Scanned f ∧ s.input = f ++ k.terminator :: rest ∧ k.size f ≤ s.nleft) ∨
    (scanField k s).2 = none ∧ Inside s (scanField k s).1 := by
  cases k with
  | string nlFlag =>
    have hfull : s.nleft = 0 → s.input.head? ≠ some (Field.terminator (.string nlFlag)) := by
      intro hzero hterm
      obtain ⟨rest, hrest⟩ := List.head?_eq_some_iff.mp hterm
      exact hhead nlFlag rest rfl hzero hrest
    cases scanStringLoop_cases s.input hleft hfull with
    | inl hstring =>
      obtain ⟨f, rest, htext, hinput, hlen⟩ := hstring
      exact Or.inl ⟨f, rest, htext, hinput, hlen⟩
    | inr hfail =>
      obtain ⟨bs, rest, hloop, hlen⟩ := hfail
      right
      simp only [scanField, scanString, hloop]
      refine ⟨rfl, ?_⟩
      intro a ha
      have hmem : a ∈ (s.puts bs).written := ha
      rw [Scan.puts_written, List.mem_append, List.mem_range'_1] at hmem
      cases hmem with
      | inl hold => exact Or.inl hold
      | inr hnew => exact Or.inr ⟨hnew.1, by omega⟩
  | int =>
    cases hscan : (scanInt s).2 with
    | some v =>
      obtain ⟨f, v', rest, hid, hinput⟩ := id_of_scanInt hscan
      exact Or.inl ⟨f, rest, ⟨v', hid⟩, hinput, Nat.zero_le _⟩
    | none =>
      right
      simp only [scanField, hscan]
      exact ⟨rfl, fun a ha => Or.inl ha⟩

theorem scanField_written {k : Field} {s : Scan} {a : Nat} (ha : a ∈ s.written) :
    a ∈ (scanField k s).1.written := by
  cases k with
  | string nlFlag => exact scanStringLoop_written s.input ha
  | int => exact ha

/-- An empty string is stored behind a buffer that is full. -/
theorem scanField_full {nlFlag : Bool} {rest : List UInt8} {s : Scan}
    (hinput : s.input = Field.terminator (.string nlFlag) :: rest) :
    s.bufp ∈ (scanField (.string nlFlag) s).1.written := by
  have hloop : scanStringLoop nlFlag s.input s = ({ s with input := rest }.put 0, true) := by
    rw [hinput]
    cases nlFlag <;> rfl
  simp only [scanField, scanString, hloop]
  exact List.mem_append_right _ (List.mem_singleton_self _)

/-! ## A line -/

theorem scanFields_cons_none {k : Field} {ks : List Field} {s : Scan} (h : (scanField k s).2 = none) :
    scanFields (k :: ks) s = ((scanField k s).1, none) := by
  generalize hscan : scanField k s = r at h
  obtain ⟨s', v⟩ := r
  subst h
  rw [scanFields, hscan]

theorem scanFields_cons_some {k : Field} {ks : List Field} {s s' : Scan} {v : Value}
    (h : scanField k s = (s', some v)) :
    scanFields (k :: ks) s = ((scanFields ks s').1, (scanFields ks s').2.map (v :: ·)) := by
  rw [scanFields, h]
  simp only
  generalize scanFields ks s' = r
  obtain ⟨s'', vs⟩ := r
  cases vs <;> rfl

/-- The fields of a line that fits are read. -/
theorem scanFields_reads {ks : List Field} {fs : List (List UInt8)}
    (hfs : List.Forall₂ Field.Scanned ks fs) : ∀ {s : Scan} {rest : List UInt8}, s.nleft < 2 ^ 32 →
    s.input = line ks fs ++ rest → room ks fs ≤ s.nleft →
    ∃ vs s', scanFields ks s = (s', some vs) ∧ Reads ks fs vs s s' ∧ s'.input = rest := by
  induction hfs with
  | nil =>
    intro s rest hleft hinput hroom
    exact ⟨[], s, rfl, .nil s, hinput⟩
  | @cons k f ks fs hf hfs ih =>
    intro s rest hleft hinput hroom
    have hnext : s.input = f ++ k.terminator :: (line ks fs ++ rest) := by
      rw [hinput]
      simp [line]
    rw [room] at hroom
    obtain ⟨v, s', hscan, hreads⟩ := scanField_reads hleft hf hnext (by omega)
    have hs' : s'.input = line ks fs ++ rest := by
      have hsame := hreads.input.symm.trans hnext
      exact (List.cons.inj (List.append_cancel_left hsame)).2
    have hnleft := hreads.nleft
    obtain ⟨vs, s'', hscans, hreadss, hrest⟩ := ih (s := s') (by omega) hs' (by omega)
    refine ⟨v :: vs, s'', ?_, .cons hreads hreadss, hrest⟩
    rw [scanFields_cons_some hscan, hscans]
    rfl

/-- A line comes next that fits, or the functions fail inside of the buffer. -/
theorem scanFields_cases (ks : List Field) : ∀ {s : Scan}, s.nleft < 2 ^ 32 →
    ¬ Overruns ks s.nleft s.input →
    (∃ fs rest, List.Forall₂ Field.Scanned ks fs ∧ s.input = line ks fs ++ rest ∧
      room ks fs ≤ s.nleft) ∨
    (scanFields ks s).2 = none ∧ Inside s (scanFields ks s).1 := by
  induction ks with
  | nil =>
    intro s hleft hover
    exact Or.inl ⟨[], s.input, .nil, rfl, Nat.zero_le _⟩
  | cons k ks ih =>
    intro s hleft hover
    have hhead : ∀ nlFlag rest, k = .string nlFlag → s.nleft = 0 →
        s.input ≠ Field.terminator (.string nlFlag) :: rest := by
      intro nlFlag rest hk hzero hinput
      rw [hzero, hinput, hk] at hover
      exact hover overruns_head
    cases scanField_cases hleft hhead with
    | inr hfail =>
      rw [scanFields_cons_none hfail.1]
      exact Or.inr ⟨rfl, hfail.2⟩
    | inl hfield =>
      obtain ⟨f, rest, hf, hinput, hroom⟩ := hfield
      obtain ⟨v, s', hscan, hreads⟩ := scanField_reads hleft hf hinput hroom
      have hnleft := hreads.nleft
      have hbufp := hreads.bufp
      have hrest : ¬ Overruns ks s'.nleft s'.input := by
        intro h
        have hcons := overruns_cons hf h
        rw [← hnleft, ← hreads.input] at hcons
        exact hover hcons
      cases ih (s := s') (by omega) hrest with
      | inl hline =>
        obtain ⟨fs, rest, hfs, hinput', hroom'⟩ := hline
        refine Or.inl ⟨f :: fs, rest, .cons hf hfs, ?_, ?_⟩
        · rw [hreads.input, hinput']
          simp [line]
        · rw [room]
          omega
      | inr hfail =>
        rw [scanFields_cons_some hscan]
        refine Or.inr ⟨by rw [hfail.1]; rfl, ?_⟩
        intro a ha
        cases hfail.2 a ha with
        | inr hnew => exact Or.inr (by omega)
        | inl hold =>
          rw [hreads.written, List.mem_append, List.mem_range'_1] at hold
          cases hold with
          | inl hwritten => exact Or.inl hwritten
          | inr hfield => exact Or.inr (by omega)

theorem scanFields_written (ks : List Field) {a : Nat} : ∀ {s : Scan}, a ∈ s.written →
    a ∈ (scanFields ks s).1.written := by
  induction ks with
  | nil =>
    intro s ha
    exact ha
  | cons k ks ih =>
    intro s ha
    have hfield := scanField_written (k := k) ha
    generalize hscan : scanField k s = r at hfield
    obtain ⟨s', v⟩ := r
    cases v with
    | none =>
      rw [scanFields_cons_none (by rw [hscan]), hscan]
      exact hfield
    | some v =>
      rw [scanFields_cons_some hscan]
      exact ih hfield

/-- A line that overruns the buffer is written to the byte behind it. -/
theorem scanFields_overruns (ks : List Field) : ∀ {s : Scan}, s.nleft < 2 ^ 32 →
    Overruns ks s.nleft s.input → s.bufp + s.nleft ∈ (scanFields ks s).1.written := by
  induction ks with
  | nil =>
    intro s hleft hover
    exact absurd hover not_overruns_nil
  | cons k ks ih =>
    intro s hleft hover
    cases overruns_cases hover with
    | inl hhead =>
      obtain ⟨nlFlag, rest, rfl, hzero, hinput⟩ := hhead
      have hfield := scanField_full hinput
      rw [hzero, Nat.add_zero]
      generalize hscan : scanField (.string nlFlag) s = r at hfield
      obtain ⟨s', v⟩ := r
      cases v with
      | none =>
        rw [scanFields_cons_none (by rw [hscan]), hscan]
        exact hfield
      | some v =>
        rw [scanFields_cons_some hscan]
        exact scanFields_written ks hfield
    | inr htail =>
      obtain ⟨f, rest, left, hf, hinput, hnleft, hrest⟩ := htail
      obtain ⟨v, s', hscan, hreads⟩ := scanField_reads hleft hf hinput (by omega)
      have hleft' := hreads.nleft
      have hbufp := hreads.bufp
      have hinput' : s'.input = rest :=
        (List.cons.inj (List.append_cancel_left (hreads.input.symm.trans hinput))).2
      have heq : left = s'.nleft := by omega
      rw [heq, ← hinput'] at hrest
      have hwritten := ih (s := s') (by omega) hrest
      rw [scanFields_cons_some hscan]
      rw [show s.bufp + s.nleft = s'.bufp + s'.nleft by omega]
      exact hwritten

end Rtems.Pwdgrp
