import Rtems.Pwdgrp.Model

/-!
# Strings and ids are scanned

`scanString` either stores the string that comes next or fails with what it
stored inside of the buffer, except that an empty string gets its null character
without a look at `*nleft`.  `scanInt` reads the ids and a minus sign alone.
-/

namespace Rtems.Pwdgrp

namespace Scan

/-! ## Characters in a row -/

/-- Characters are stored one behind the other. -/
def puts (s : Scan) (bs : List UInt8) : Scan := bs.foldl put s

@[simp] theorem puts_nil (s : Scan) : s.puts [] = s := rfl

@[simp] theorem puts_cons (s : Scan) (b : UInt8) (bs : List UInt8) :
    s.puts (b :: bs) = (s.put b).puts bs := rfl

@[simp] theorem put_input (s : Scan) (b : UInt8) : (s.put b).input = s.input := rfl

@[simp] theorem put_bufp (s : Scan) (b : UInt8) : (s.put b).bufp = s.bufp + 1 := rfl

@[simp] theorem put_written (s : Scan) (b : UInt8) : (s.put b).written = s.written ++ [s.bufp] := rfl

@[simp] theorem put_mem (s : Scan) (b : UInt8) :
    (s.put b).mem = Function.update s.mem s.bufp b := rfl

theorem put_nleft {s : Scan} (hleft : s.nleft < 2 ^ 32) (hpos : 0 < s.nleft) (b : UInt8) :
    (s.put b).nleft + 1 = s.nleft := by
  show (s.nleft + 2 ^ 32 - 1) % 2 ^ 32 + 1 = s.nleft
  omega

theorem puts_bufp (bs : List UInt8) : ∀ s : Scan, (s.puts bs).bufp = s.bufp + bs.length := by
  induction bs with
  | nil =>
    intro s
    rfl
  | cons b bs ih =>
    intro s
    rw [puts_cons, ih, put_bufp, List.length_cons]
    omega

theorem puts_written (bs : List UInt8) : ∀ s : Scan,
    (s.puts bs).written = s.written ++ List.range' s.bufp bs.length := by
  induction bs with
  | nil =>
    intro s
    simp
  | cons b bs ih =>
    intro s
    rw [puts_cons, ih, put_written, put_bufp, List.length_cons, List.range'_succ, List.append_assoc,
      List.singleton_append]

theorem puts_nleft (bs : List UInt8) : ∀ {s : Scan}, s.nleft < 2 ^ 32 → bs.length ≤ s.nleft →
    s.nleft = bs.length + (s.puts bs).nleft := by
  induction bs with
  | nil =>
    intro s hleft hlen
    simp
  | cons b bs ih =>
    intro s hleft hlen
    rw [List.length_cons] at hlen
    have hput := put_nleft hleft (by omega) b
    rw [puts_cons, List.length_cons]
    have := ih (s := s.put b) (by omega) (by omega)
    omega

/-- The memory before the first character is left alone. -/
theorem puts_frame (bs : List UInt8) : ∀ {s : Scan} {a : Nat}, a < s.bufp →
    (s.puts bs).mem a = s.mem a := by
  induction bs with
  | nil =>
    intro s a ha
    rfl
  | cons b bs ih =>
    intro s a ha
    rw [puts_cons, ih (s := s.put b) (Nat.lt_succ_of_lt ha), put_mem,
      Function.update_of_ne (Nat.ne_of_lt ha)]

end Scan

/-- Bytes lie one behind the other. -/
def Bytes (mem : Nat → UInt8) (p : Nat) (bs : List UInt8) : Prop :=
  ∀ i, (h : i < bs.length) → mem (p + i) = bs[i]

theorem Scan.puts_bytes (bs : List UInt8) : ∀ s : Scan, Bytes (s.puts bs).mem s.bufp bs := by
  induction bs with
  | nil =>
    intro s i hi
    exact absurd hi (Nat.not_lt_zero i)
  | cons b bs ih =>
    intro s i hi
    cases i with
    | zero =>
      rw [Scan.puts_cons, Nat.add_zero, Scan.puts_frame bs (Nat.lt_succ_self s.bufp), Scan.put_mem,
        Function.update_self]
      rfl
    | succ i =>
      have hbyte := ih (s.put b) i (by simpa using hi)
      rw [Scan.put_bufp, Nat.add_assoc, Nat.add_comm 1 i] at hbyte
      simpa using hbyte

/-! ## Strings -/

/-- A string with room for its terminator is stored with a null character behind. -/
theorem scanStringLoop_string {nlFlag : Bool} {rest f : List UInt8} : ∀ {s : Scan}, IsText f →
    s.nleft < 2 ^ 32 → f.length + 1 ≤ s.nleft →
    scanStringLoop nlFlag (f ++ Field.terminator (.string nlFlag) :: rest) s =
      ({ s.puts (f ++ [0]) with input := rest }, true) := by
  induction f with
  | nil =>
    intro s htext hleft hlen
    cases nlFlag <;> rfl
  | cons c f ih =>
    intro s htext hleft hlen
    rw [List.length_cons] at hlen
    simp only [IsText, List.mem_cons, not_or] at htext
    have hput := Scan.put_nleft hleft (by omega) c
    rw [List.cons_append, scanStringLoop, if_neg (Ne.symm htext.1.1), if_neg (Ne.symm htext.2.1),
      if_neg (by omega), ih ⟨htext.1.2, htext.2.2⟩ (by omega) (by omega)]
    rfl

/-- A string comes next, or the loop fails with what it stored inside of the buffer. -/
theorem scanStringLoop_cases {nlFlag : Bool} (cs : List UInt8) : ∀ {s : Scan}, s.nleft < 2 ^ 32 →
    (s.nleft = 0 → cs.head? ≠ some (Field.terminator (.string nlFlag))) →
    (∃ f rest, IsText f ∧ cs = f ++ Field.terminator (.string nlFlag) :: rest ∧
      f.length + 1 ≤ s.nleft) ∨
    ∃ bs rest, scanStringLoop nlFlag cs s = ({ s.puts bs with input := rest }, false) ∧
      bs.length ≤ s.nleft := by
  induction cs with
  | nil =>
    intro s hleft hhead
    exact Or.inr ⟨[], [], rfl, Nat.zero_le _⟩
  | cons c cs ih =>
    intro s hleft hhead
    -- The first character is the terminator and there is room, since the string is empty.
    have hend : c = Field.terminator (.string nlFlag) →
        ∃ f rest, IsText f ∧ c :: cs = f ++ Field.terminator (.string nlFlag) :: rest ∧
          f.length + 1 ≤ s.nleft := by
      intro hc
      refine ⟨[], cs, by simp [IsText], by rw [hc, List.nil_append], ?_⟩
      exact Nat.pos_of_ne_zero fun hzero => hhead hzero (by rw [hc, List.head?_cons])
    by_cases hcolon : c = 58
    · cases nlFlag with
      | false => exact Or.inl (hend hcolon)
      | true => exact Or.inr ⟨[], cs, by rw [scanStringLoop, if_pos hcolon]; rfl, Nat.zero_le _⟩
    · by_cases hnewline : c = 10
      · cases nlFlag with
        | false =>
          exact Or.inr ⟨[], cs, by rw [scanStringLoop, if_neg hcolon, if_pos hnewline]; rfl,
            Nat.zero_le _⟩
        | true => exact Or.inl (hend hnewline)
      · by_cases hroom : s.nleft < 2
        · exact Or.inr ⟨[], cs, by
            rw [scanStringLoop, if_neg hcolon, if_neg hnewline, if_pos hroom]; rfl, Nat.zero_le _⟩
        · have hput := Scan.put_nleft hleft (by omega) c
          have hstep : scanStringLoop nlFlag (c :: cs) s = scanStringLoop nlFlag cs (s.put c) := by
            rw [scanStringLoop, if_neg hcolon, if_neg hnewline, if_neg hroom]
          cases ih (s := s.put c) (by omega) (by omega) with
          | inl hstring =>
            obtain ⟨f, rest, htext, hcs, hlen⟩ := hstring
            refine Or.inl ⟨c :: f, rest, ?_, by rw [hcs, List.cons_append], ?_⟩
            · simp only [IsText, List.mem_cons, not_or]
              exact ⟨⟨Ne.symm hcolon, htext.1⟩, Ne.symm hnewline, htext.2⟩
            · rw [List.length_cons]
              omega
          | inr hfail =>
            obtain ⟨bs, rest, hloop, hlen⟩ := hfail
            refine Or.inr ⟨c :: bs, rest, by rw [hstep, hloop, Scan.puts_cons], ?_⟩
            rw [List.length_cons]
            omega

/-- What was written stays written. -/
theorem scanStringLoop_written {nlFlag : Bool} {a : Nat} (cs : List UInt8) : ∀ {s : Scan},
    a ∈ s.written → a ∈ (scanStringLoop nlFlag cs s).1.written := by
  induction cs with
  | nil =>
    intro s ha
    exact ha
  | cons c cs ih =>
    intro s ha
    have hput : ∀ b, a ∈ (s.put b).written := fun b => List.mem_append_left _ ha
    unfold scanStringLoop
    split
    · split
      · exact ha
      · exact hput 0
    · split
      · split
        · exact ha
        · exact hput 0
      · split
        · exact ha
        · exact ih (hput c)

/-! ## Ids -/

theorem digit_le {c : UInt8} (h : isDigit c = true) : c.toNat - 48 ≤ 9 := by
  simp only [isDigit, Bool.and_eq_true, decide_eq_true_eq] at h
  have hle : c.toNat ≤ 57 := UInt8.le_iff_toNat_le.mp h.2
  omega

theorem digit_ne_colon {c : UInt8} (h : isDigit c = true) : c ≠ 58 := by
  intro hc
  subst hc
  exact absurd h (by decide)

theorem digit_ne_minus {c : UInt8} (h : isDigit c = true) : c ≠ 45 := by
  intro hc
  subst hc
  exact absurd h (by decide)

section Digits

variable {limit : Nat} {sign : Int}

/-- The loop at a digit, once the sign is known. -/
theorem scanIntLoop_digit {c : UInt8} {cs : List UInt8} {i : Nat} (hsign : sign ≠ 0)
    (hc : isDigit c = true) :
    scanIntLoop (c :: cs) i limit sign =
      if limit < i * 10 + (c.toNat - 48) then (cs, none)
      else scanIntLoop cs (i * 10 + (c.toNat - 48)) limit sign := by
  have hdigit := digit_le hc
  have hlimit : (i > limit / 10 ∨ i = limit / 10 ∧ c.toNat - 48 > limit % 10) ↔
      limit < i * 10 + (c.toNat - 48) := by omega
  rw [scanIntLoop, if_neg (digit_ne_colon hc), if_neg (fun h => hsign h.1)]
  simp only [if_neg hsign, hc, Bool.not_true, Bool.false_eq_true, if_false, hlimit]

/-- Digits up to the limit are read as their number. -/
theorem scanIntLoop_digits {rest ds : List UInt8} (hsign : sign ≠ 0) : ∀ {i : Nat}, IsDigits ds →
    decimal i ds ≤ limit →
    scanIntLoop (ds ++ 58 :: rest) i limit sign = (rest, some (decimal i ds * sign)) := by
  induction ds with
  | nil =>
    intro i hds hle
    rw [List.nil_append, scanIntLoop, if_pos rfl, if_neg hsign]
    rfl
  | cons c ds ih =>
    intro i hds hle
    rw [decimal_cons] at hle
    have hc := hds c List.mem_cons_self
    have hstep := le_decimal ds (i * 10 + (c.toNat - 48))
    rw [List.cons_append, scanIntLoop_digit hsign hc, if_neg (by omega),
      ih (fun d hd => hds d (List.mem_cons_of_mem c hd)) hle, decimal_cons]

/-- What the loop reads is a number of digits up to the limit. -/
theorem digits_of_scanIntLoop (hsign : sign ≠ 0) (cs : List UInt8) : ∀ {i : Nat} {v : Int},
    i ≤ limit → (scanIntLoop cs i limit sign).2 = some v →
    ∃ ds rest, cs = ds ++ 58 :: rest ∧ IsDigits ds ∧ decimal i ds ≤ limit := by
  induction cs with
  | nil =>
    intro i v hi h
    cases h
  | cons c cs ih =>
    intro i v hi h
    by_cases hcolon : c = 58
    · subst hcolon
      exact ⟨[], cs, rfl, fun c hc => (List.not_mem_nil hc).elim, hi⟩
    · cases hc : isDigit c with
      | false =>
        rw [scanIntLoop, if_neg hcolon, if_neg (fun h => hsign h.1)] at h
        simp [hc] at h
      | true =>
        rw [scanIntLoop_digit hsign hc] at h
        split at h
        · cases h
        · rename_i hle
          obtain ⟨ds, rest, hcs, hds, hdec⟩ := ih (Nat.not_lt.mp hle) h
          refine ⟨c :: ds, rest, by rw [hcs, List.cons_append], ?_, ?_⟩
          · intro d hd
            cases List.mem_cons.mp hd with
            | inl heq => exact heq ▸ hc
            | inr hmem => exact hds d hmem
          · rw [decimal_cons]
            exact hdec

end Digits

theorem scanIntLoop_minus {cs : List UInt8} :
    scanIntLoop (45 :: cs) 0 2147483647 0 = scanIntLoop cs 0 2147483648 (-1) := by
  rw [scanIntLoop, if_neg (by decide), if_pos ⟨rfl, rfl⟩]

theorem scanIntLoop_plus {c : UInt8} {cs : List UInt8} {i limit : Nat} (hcolon : c ≠ 58)
    (hminus : c ≠ 45) : scanIntLoop (c :: cs) i limit 0 = scanIntLoop (c :: cs) i limit 1 := by
  rw [scanIntLoop, if_neg hcolon, if_neg (fun h => hminus h.2)]
  conv_rhs => rw [scanIntLoop, if_neg hcolon, if_neg (fun h => hminus h.2)]
  rfl

/-- An id is read as its value, and so is a minus sign alone. -/
theorem scanInt_id {f rest : List UInt8} {v : Int} {s : Scan} (h : ScannedId f v)
    (hinput : s.input = f ++ 58 :: rest) : scanInt s = ({ s with input := rest }, some v) := by
  have hloop : scanIntLoop s.input 0 2147483647 0 = (rest, some v) := by
    rw [hinput]
    cases h with
    | inl hid =>
      cases hid with
      | pos hne hds hle =>
        obtain ⟨c, ds, rfl⟩ := List.exists_cons_of_ne_nil hne
        have hc := hds c List.mem_cons_self
        rw [List.cons_append, scanIntLoop_plus (digit_ne_colon hc) (digit_ne_minus hc),
          ← List.cons_append, scanIntLoop_digits Int.one_ne_zero hds hle, Int.mul_one]
      | neg hne hds hle =>
        rw [List.cons_append, scanIntLoop_minus, scanIntLoop_digits (by decide) hds hle,
          Int.mul_neg_one]
    | inr hminus =>
      rw [hminus.1, hminus.2]
      rfl
  unfold scanInt
  rw [hloop]

theorem id_of_scanInt {s : Scan} {v : Int} (h : (scanInt s).2 = some v) :
    ∃ f v' rest, ScannedId f v' ∧ s.input = f ++ 58 :: rest := by
  have hloop : (scanIntLoop s.input 0 2147483647 0).2 = some v := h
  cases hinput : s.input with
  | nil =>
    rw [hinput] at hloop
    cases hloop
  | cons c cs =>
    rw [hinput] at hloop
    by_cases hcolon : c = 58
    · rw [scanIntLoop, if_pos hcolon] at hloop
      cases hloop
    · by_cases hminus : c = 45
      · subst hminus
        rw [scanIntLoop_minus] at hloop
        obtain ⟨ds, rest, rfl, hds, hle⟩ := digits_of_scanIntLoop (by decide) cs (Nat.zero_le _) hloop
        cases hempty : ds with
        | nil => exact ⟨[45], 0, rest, Or.inr ⟨rfl, rfl⟩, rfl⟩
        | cons d ds' =>
          rw [← hempty]
          exact ⟨45 :: ds, _, rest, Or.inl (.neg (by rw [hempty]; simp) hds hle), rfl⟩
      · rw [scanIntLoop_plus hcolon hminus] at hloop
        obtain ⟨ds, rest, hcs, hds, hle⟩ :=
          digits_of_scanIntLoop Int.one_ne_zero (c :: cs) (Nat.zero_le _) hloop
        refine ⟨ds, _, rest, Or.inl (.pos ?_ hds hle), hcs⟩
        intro hnil
        rw [hnil] at hcs
        exact hcolon (List.head_eq_of_cons_eq hcs)

end Rtems.Pwdgrp
