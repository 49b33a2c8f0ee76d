import Rtems.Pwdgrp.Members

/-!
# Records are read exactly and inside of the buffer

This holds of a call as long as no empty string is reached with the buffer full,
and what it accepts is a line of the grammar: no id is a minus sign alone, no
string holds a null character, and the size of the array of pointers is not too
large for its type.
-/

namespace Rtems.Pwdgrp

/-- A call with a buffer. -/
def Scan.start (input : List UInt8) (buffer bufsize : Nat) (mem : Nat → UInt8) : Scan :=
  ⟨input, buffer, bufsize, mem, []⟩

/-- A line of such fields comes next, and its strings fit with their terminators. -/
def Next (R : Field → List UInt8 → Prop) (ks : List Field) (input : List UInt8) (bufsize : Nat)
    (fs : List (List UInt8)) : Prop :=
  List.Forall₂ R ks fs ∧ (∃ rest, input = line ks fs ++ rest) ∧ room ks fs ≤ bufsize

/-- What is returned is a field: a string up to its null character, or the value of an id. -/
def Value.Is (mem : Nat → UInt8) : Value → List UInt8 → Prop
  | .string p, f => 0 ∉ f ∧ Bytes mem p (f ++ [0])
  | .int v, f => IsId f v

/-- The fields of the record in the order of the line. -/
def Passwd.values (pwd : Passwd) : List Value :=
  [.string pwd.pwName, .string pwd.pwPasswd, .int pwd.pwUid, .int pwd.pwGid, .string pwd.pwComment,
    .string pwd.pwGecos, .string pwd.pwDir, .string pwd.pwShell]

/-- A call of `_libcsupport_scanpw` writes inside of the buffer, accepts the lines of the grammar
that fit, and returns the fields of the line. -/
structure PasswdExact (input : List UInt8) (buffer bufsize : Nat) (mem : Nat → UInt8) : Prop where
  inside : ∀ a ∈ (scanpw (.start input buffer bufsize mem)).1.written,
    buffer ≤ a ∧ a < buffer + bufsize
  accepts : (scanpw (.start input buffer bufsize mem)).2.isSome ↔
    ∃ fs, Next Field.Grammar passwdFields input bufsize fs
  fields : ∀ pwd fs, (scanpw (.start input buffer bufsize mem)).2 = some pwd →
    Next Field.Grammar passwdFields input bufsize fs →
    List.Forall₂ (Value.Is (scanpw (.start input buffer bufsize mem)).1.mem) pwd.values fs

/-- The strings before the members, in the order of the line. -/
def Group.values (grp : Group) : List Value :=
  [.string grp.grName, .string grp.grPasswd, .int grp.grGid]

/-- The same of `_libcsupport_scangr`, where the pointers to the members have to fit as well. -/
structure GroupExact (input : List UInt8) (buffer bufsize : Nat) (mem : Nat → UInt8) : Prop where
  inside : ∀ a ∈ (scangr (.start input buffer bufsize mem)).1.written,
    buffer ≤ a ∧ a < buffer + bufsize
  accepts : (scangr (.start input buffer bufsize mem)).2.isSome ↔
    ∃ fs, Next Field.Grammar groupFields input bufsize fs ∧
      room groupFields fs + pointerRoom (fs.getLastD []) ≤ bufsize
  fields : ∀ grp fs, (scangr (.start input buffer bufsize mem)).2 = some grp →
    Next Field.Grammar groupFields input bufsize fs →
    List.Forall₂ (Value.Is (scangr (.start input buffer bufsize mem)).1.mem) grp.values
      fs.dropLast ∧
    List.Forall₂ (fun p => Value.Is (scangr (.start input buffer bufsize mem)).1.mem (.string p))
      grp.members (members (fs.getLastD []))

/-! ## Lines -/

theorem Next.scanned {ks : List Field} {input : List UInt8} {bufsize : Nat}
    {fs : List (List UInt8)} (h : Next Field.Grammar ks input bufsize fs) :
    Next Field.Scanned ks input bufsize fs :=
  ⟨h.1.imp fun _ _ hf => hf.scanned, h.2⟩

theorem Next.unique {ks : List Field} {input : List UInt8} {bufsize : Nat}
    {fs fs' : List (List UInt8)} (h : Next Field.Scanned ks input bufsize fs)
    (h' : Next Field.Scanned ks input bufsize fs') : fs = fs' := by
  obtain ⟨hfs, ⟨rest, hinput⟩, -⟩ := h
  obtain ⟨hfs', ⟨rest', hinput'⟩, -⟩ := h'
  exact line_unique hfs hfs' (hinput.symm.trans hinput')

/-- The values that are stored for a line of the grammar are its fields. -/
theorem Reads.is {ks : List Field} {fs : List (List UInt8)} {vs : List Value} {s s' : Scan}
    (h : Reads ks fs vs s s') (hfs : List.Forall₂ Field.Grammar ks fs) {mem : Nat → UInt8}
    (hmem : ∀ a < s'.bufp, mem a = s'.mem a) : List.Forall₂ (Value.Is mem) vs fs := by
  induction h with
  | nil s => exact .nil
  | @cons k f v ks fs vs s s' s'' hf hrest ih =>
    cases hfs with
    | cons hgrammar hfs =>
      refine .cons ?_ (ih hfs hmem)
      have hbufp := hrest.bufp
      have hstored := hf.stored mem fun a ha => by
        rw [hmem a (by omega), hrest.frame a ha]
      cases hf.yields with
      | string nlFlag p => exact ⟨hgrammar.2, hstored⟩
      | int p v => exact hstored.isId hgrammar

/-- A line comes next that is read, or the functions fail inside of the buffer. -/
theorem scanFields_start {ks : List Field} {input : List UInt8} {bufsize : Nat} (buffer : Nat)
    (mem : Nat → UInt8) (hsize : bufsize < 2 ^ 32) (hover : ¬ Overruns ks bufsize input) :
    (∃ fs vs s', Next Field.Scanned ks input bufsize fs ∧
      scanFields ks (.start input buffer bufsize mem) = (s', some vs) ∧
      Reads ks fs vs (.start input buffer bufsize mem) s') ∨
    (scanFields ks (.start input buffer bufsize mem)).2 = none ∧
      (∀ fs, ¬ Next Field.Scanned ks input bufsize fs) ∧
      ∀ a ∈ (scanFields ks (.start input buffer bufsize mem)).1.written,
        buffer ≤ a ∧ a < buffer + bufsize := by
  generalize hs : Scan.start input buffer bufsize mem = s
  have hinput : s.input = input := by rw [← hs]; rfl
  have hnleft : s.nleft = bufsize := by rw [← hs]; rfl
  have hbufp : s.bufp = buffer := by rw [← hs]; rfl
  have hreads : ∀ fs, Next Field.Scanned ks input bufsize fs →
      ∃ vs s', scanFields ks s = (s', some vs) ∧ Reads ks fs vs s s' := by
    intro fs hnext
    obtain ⟨hfs, ⟨rest, hline⟩, hroom⟩ := hnext
    obtain ⟨vs, s', hscan, hread, -⟩ :=
      scanFields_reads hfs (by omega) (hinput.trans hline) (hnleft ▸ hroom)
    exact ⟨vs, s', hscan, hread⟩
  cases scanFields_cases ks (s := s) (by omega) (by rw [hnleft, hinput]; exact hover) with
  | inl hline =>
    obtain ⟨fs, rest, hfs, hline, hroom⟩ := hline
    have hnext : Next Field.Scanned ks input bufsize fs :=
      ⟨hfs, ⟨rest, hinput.symm.trans hline⟩, hnleft ▸ hroom⟩
    obtain ⟨vs, s', hscan, hread⟩ := hreads fs hnext
    exact Or.inl ⟨fs, vs, s', hnext, hscan, hread⟩
  | inr hfail =>
    refine Or.inr ⟨hfail.1, ?_, ?_⟩
    · intro fs hnext
      obtain ⟨vs, s', hscan, -⟩ := hreads fs hnext
      rw [hscan] at hfail
      cases hfail.1
    · intro a ha
      have hinside := hfail.2 a ha
      rw [hbufp, hnleft] at hinside
      cases hinside with
      | inl hold =>
        rw [← hs] at hold
        exact absurd hold List.not_mem_nil
      | inr hnew => exact hnew

/-- Reading a line that fits stays in the buffer. -/
theorem Reads.inside {ks : List Field} {fs : List (List UInt8)} {vs : List Value}
    {input : List UInt8} {buffer bufsize : Nat} {mem : Nat → UInt8} {s' : Scan}
    (h : Reads ks fs vs (.start input buffer bufsize mem) s') :
    ∀ a ∈ s'.written, buffer ≤ a ∧ a < s'.bufp := by
  intro a ha
  rw [h.written] at ha
  have hmem : a ∈ List.range' buffer (room ks fs) := ha
  rw [List.mem_range'_1] at hmem
  have hbufp : s'.bufp = buffer + room ks fs := h.bufp
  omega

/-! ## Password records -/

theorem scanpw_some {s s' : Scan} {vs : List Value} {fs : List (List UInt8)}
    (hscan : scanFields passwdFields s = (s', some vs)) (h : Reads passwdFields fs vs s s') :
    ∃ pwd, scanpw s = (s', some pwd) ∧ vs = pwd.values := by
  obtain _ | ⟨h₁, h⟩ := h
  obtain _ | ⟨h₂, h⟩ := h
  obtain _ | ⟨h₃, h⟩ := h
  obtain _ | ⟨h₄, h⟩ := h
  obtain _ | ⟨h₅, h⟩ := h
  obtain _ | ⟨h₆, h⟩ := h
  obtain _ | ⟨h₇, h⟩ := h
  obtain _ | ⟨h₈, h⟩ := h
  cases h
  cases h₁.yields
  cases h₂.yields
  cases h₃.yields
  cases h₄.yields
  cases h₅.yields
  cases h₆.yields
  cases h₇.yields
  cases h₈.yields
  unfold scanpw
  rw [hscan]
  exact ⟨_, rfl, rfl⟩

theorem scanpw_none {s : Scan} (h : (scanFields passwdFields s).2 = none) :
    scanpw s = ((scanFields passwdFields s).1, none) := by
  unfold scanpw
  generalize scanFields passwdFields s = r at h
  obtain ⟨s', vs⟩ := r
  subst h
  rfl

theorem scanpw_state (s : Scan) : (scanpw s).1 = (scanFields passwdFields s).1 := by
  unfold scanpw
  split <;> simp_all

/-- A call is exact if and only if no empty string comes with the buffer full and the line that is
accepted is one of the grammar. -/
theorem passwdExact_iff {bufsize : Nat} (hsize : bufsize < 2 ^ 32) (input : List UInt8)
    (buffer : Nat) (mem : Nat → UInt8) :
    PasswdExact input buffer bufsize mem ↔
      ¬ Overruns passwdFields bufsize input ∧
      ∀ fs, Next Field.Scanned passwdFields input bufsize fs →
        List.Forall₂ Field.Grammar passwdFields fs := by
  constructor
  · intro h
    have hover : ¬ Overruns passwdFields bufsize input := by
      intro hover
      have hwritten := scanFields_overruns passwdFields (s := .start input buffer bufsize mem) hsize hover
      rw [← scanpw_state] at hwritten
      exact absurd (h.inside _ hwritten).2 (Nat.lt_irrefl _)
    refine ⟨hover, ?_⟩
    intro fs hnext
    cases scanFields_start buffer mem hsize hover with
    | inr hfail => exact absurd hnext (hfail.2.1 fs)
    | inl hline =>
      obtain ⟨fs', vs, s', hnext', hscan, hread⟩ := hline
      obtain ⟨pwd, hpwd, -⟩ := scanpw_some hscan hread
      obtain ⟨fs'', hgrammar⟩ := h.accepts.mp (by rw [hpwd]; rfl)
      rw [hnext.unique hgrammar.scanned]
      exact hgrammar.1
  · intro h
    cases scanFields_start buffer mem hsize h.1 with
    | inl hline =>
      obtain ⟨fs, vs, s', hnext, hscan, hread⟩ := hline
      obtain ⟨pwd, hpwd, rfl⟩ := scanpw_some hscan hread
      have hgrammar := h.2 fs hnext
      have hbufp : s'.bufp = buffer + room passwdFields fs := hread.bufp
      have hroom := hnext.2.2
      refine ⟨?_, ?_, ?_⟩
      · intro a ha
        rw [hpwd] at ha
        have hinside := hread.inside a ha
        omega
      · rw [hpwd]
        exact ⟨fun _ => ⟨fs, hgrammar, hnext.2⟩, fun _ => rfl⟩
      · intro pwd' fs' hpwd' hnext'
        rw [hpwd] at hpwd' ⊢
        rw [← Option.some.inj hpwd', ← hnext.unique hnext'.scanned]
        exact hread.is hgrammar fun a ha => rfl
    | inr hfail =>
      obtain ⟨hnone, hno, hinside⟩ := hfail
      refine ⟨?_, ?_, ?_⟩
      · rw [scanpw_none hnone]
        exact hinside
      · rw [scanpw_none hnone]
        exact ⟨fun hsome => Bool.noConfusion hsome, fun ⟨fs, hnext⟩ => absurd hnext.scanned (hno fs)⟩
      · intro pwd fs hpwd hnext
        exact absurd hnext.scanned (hno fs)

/-! ## Group records -/

theorem scangr_none {s : Scan} (h : (scanFields groupFields s).2 = none) :
    scangr s = ((scanFields groupFields s).1, none) := by
  unfold scangr
  generalize scanFields groupFields s = r at h
  obtain ⟨s', vs⟩ := r
  subst h
  rfl

/-- The string of the members lies behind the others, and the array is set up in what the fields
leave of the buffer. -/
theorem scangr_some {s s' : Scan} {vs : List Value} {fs : List (List UInt8)}
    (hscan : scanFields groupFields s = (s', some vs)) (h : Reads groupFields fs vs s s') :
    ∃ name passwd gid fs₃ f s₃, fs = fs₃ ++ [f] ∧
      Reads [.string false, .string false, .int] fs₃
        [.string name, .string passwd, .int gid] s s₃ ∧
      ReadsField (.string true) f (.string s₃.bufp) s₃ s' ∧
      (List.Forall₂ Field.Grammar groupFields fs →
        List.Forall₂ Field.Grammar [.string false, .string false, .int] fs₃ ∧ 0 ∉ f) ∧
      scangr s = ((groupMembers s' s.input.length s₃.bufp).1,
        (groupMembers s' s.input.length s₃.bufp).2.map
          fun array => ⟨name, passwd, gid, array.1, array.2⟩) := by
  obtain _ | ⟨h₁, h⟩ := h
  obtain _ | ⟨h₂, h⟩ := h
  obtain _ | ⟨h₃, h⟩ := h
  obtain _ | ⟨h₄, h⟩ := h
  cases h
  have hy₁ := h₁.yields
  have hy₂ := h₂.yields
  have hy₃ := h₃.yields
  have hy₄ := h₄.yields
  cases hy₁
  cases hy₂
  cases hy₃
  cases hy₄
  refine ⟨_, _, _, _, _, _, rfl, .cons h₁ (.cons h₂ (.cons h₃ (.nil _))), h₄, ?_, ?_⟩
  · intro hfs
    obtain _ | ⟨g₁, hfs⟩ := hfs
    obtain _ | ⟨g₂, hfs⟩ := hfs
    obtain _ | ⟨g₃, hfs⟩ := hfs
    obtain _ | ⟨g₄, hfs⟩ := hfs
    exact ⟨.cons g₁ (.cons g₂ (.cons g₃ .nil)), g₄.2⟩
  · unfold scangr
    rw [hscan]
    simp only
    generalize groupMembers s' s.input.length _ = r
    obtain ⟨s'', array⟩ := r
    cases array <;> rfl

theorem scangr_written {s : Scan} {a : Nat} (ha : a ∈ (scanFields groupFields s).1.written) :
    a ∈ (scangr s).1.written := by
  unfold scangr
  split
  · rename_i s' name passwd gid grmem heq
    rw [heq] at ha
    have hgroup : a ∈ (groupMembers s' s.input.length grmem).1.written := groupMembers_written ha
    split
    · rename_i hsome
      rw [hsome] at hgroup
      exact hgroup
    · rename_i hnone
      rw [hnone] at hgroup
      exact hgroup
  · rename_i heq
    rw [heq] at ha
    exact ha

/-- The string of the members is no longer than the input. -/
theorem Reads.length_le {ks : List Field} {fs : List (List UInt8)} {vs : List Value} {k : Field}
    {f : List UInt8} {v : Value} {s s' s'' : Scan} (h : Reads ks fs vs s s')
    (hf : ReadsField k f v s' s'') : f.length ≤ s.input.length := by
  have hbefore := congrArg List.length h.input
  have hfield := congrArg List.length hf.input
  simp only [List.length_append, List.length_cons] at hbefore hfield
  omega

theorem isString_members {mem : Nat → UInt8} {ms : List Nat} {gs : List (List UInt8)}
    (h : List.Forall₂ (fun p g => Bytes mem p (g ++ [0])) ms gs) (hnul : ∀ g ∈ gs, 0 ∉ g) :
    List.Forall₂ (fun p => Value.Is mem (.string p)) ms gs := by
  induction h with
  | nil => exact .nil
  | cons hg hgs ih =>
    exact .cons ⟨hnul _ List.mem_cons_self, hg⟩ (ih fun g hmem => hnul g (List.mem_cons_of_mem _ hmem))

/-- A call is exact if and only if no empty string comes with the buffer full, and the line that is
accepted is one of the grammar with an array whose size is not cut off. -/
theorem groupExact_iff {bufsize : Nat} (hsize : bufsize < 2 ^ 32) (input : List UInt8)
    (buffer : Nat) (mem : Nat → UInt8) :
    GroupExact input buffer bufsize mem ↔
      ¬ Overruns groupFields bufsize input ∧
      ∀ fs, Next Field.Scanned groupFields input bufsize fs →
        room groupFields fs + pointerRoom (cut (fs.getLastD [])) % 2 ^ 32 ≤ bufsize →
        List.Forall₂ Field.Grammar groupFields fs ∧ pointerRoom (fs.getLastD []) < 2 ^ 32 := by
  constructor
  · intro h
    have hover : ¬ Overruns groupFields bufsize input := by
      intro hover
      have hwritten := scangr_written
        (scanFields_overruns groupFields (s := .start input buffer bufsize mem) hsize hover)
      exact absurd (h.inside _ hwritten).2 (Nat.lt_irrefl _)
    refine ⟨hover, ?_⟩
    intro fs hnext hroom
    cases scanFields_start buffer mem hsize hover with
    | inr hfail => exact absurd hnext (hfail.2.1 fs)
    | inl hline =>
      obtain ⟨fs', vs, s', hnext', hscan, hread⟩ := hline
      obtain rfl := hnext.unique hnext'
      obtain ⟨name, passwd, gid, fs₃, f, s₃, rfl, hread₃, hf, -, hscangr⟩ := scangr_some hscan hread
      have hnleft : bufsize = room groupFields (fs₃ ++ [f]) + s'.nleft := hread.nleft
      have hsome : (scangr (.start input buffer bufsize mem)).2.isSome := by
        rw [hscangr, Option.isSome_map]
        refine groupMembers_some (hf.stored s'.mem fun a ha => rfl) (hread₃.length_le hf) ?_
        rw [List.getLastD_concat] at hroom
        omega
      obtain ⟨fs'', hgrammar, hfit⟩ := h.accepts.mp hsome
      obtain rfl := hnext.unique hgrammar.scanned
      exact ⟨hgrammar.1, by omega⟩
  · intro h
    cases scanFields_start buffer mem hsize h.1 with
    | inr hfail =>
      obtain ⟨hnone, hno, hinside⟩ := hfail
      refine ⟨?_, ?_, ?_⟩
      · rw [scangr_none hnone]
        exact hinside
      · rw [scangr_none hnone]
        exact ⟨fun hsome => Bool.noConfusion hsome,
          fun ⟨fs, hnext, _⟩ => absurd hnext.scanned (hno fs)⟩
      · intro grp fs hgrp hnext
        exact absurd hnext.scanned (hno fs)
    | inl hline =>
      obtain ⟨fs, vs, s', hnext, hscan, hread⟩ := hline
      obtain ⟨name, passwd, gid, fs₃, f, s₃, rfl, hread₃, hf, hlast, hscangr⟩ :=
        scangr_some hscan hread
      have hnleft : bufsize = room groupFields (fs₃ ++ [f]) + s'.nleft := hread.nleft
      have hbufp : s'.bufp = buffer + room groupFields (fs₃ ++ [f]) := hread.bufp
      have hbufp₃ : s₃.bufp = buffer + room _ fs₃ := hread₃.bufp
      have hbufp₄ : s'.bufp = s₃.bufp + (f.length + 1) := hf.bufp
      have hbytes : Bytes s'.mem s₃.bufp (f ++ [0]) := hf.stored s'.mem fun a ha => rfl
      have haccept := h.2 (fs₃ ++ [f]) hnext
      rw [List.getLastD_concat] at haccept
      by_cases hroom : room groupFields (fs₃ ++ [f]) + pointerRoom (cut f) % 2 ^ 32 ≤ bufsize
      · obtain ⟨hgrammar, hword⟩ := haccept hroom
        obtain ⟨hgrammar₃, hnul⟩ := hlast hgrammar
        rw [cut_eq_self hnul, Nat.mod_eq_of_lt hword] at hroom
        obtain ⟨s'', grMem, ms, hgroup, hmembers, hframe, hwritten⟩ :=
          groupMembers_spec hnul hbytes (hread₃.length_le hf) (by omega) hword (by omega)
        rw [hgroup] at hscangr
        refine ⟨?_, ?_, ?_⟩
        · intro a ha
          rw [hscangr] at ha
          cases hwritten a ha with
          | inl hold =>
            have hinside := hread.inside a hold
            omega
          | inr hnew => omega
        · rw [hscangr]
          refine ⟨fun _ => ⟨_, ⟨hgrammar, hnext.2⟩, ?_⟩, fun _ => rfl⟩
          rw [List.getLastD_concat]
          exact hroom
        · intro grp fs' hgrp hnext'
          rw [hscangr] at hgrp ⊢
          rw [← Option.some.inj hgrp, ← hnext.unique hnext'.scanned, List.dropLast_concat,
            List.getLastD_concat]
          refine ⟨hread₃.is hgrammar₃ ?_, ?_⟩
          · intro a ha
            rw [hframe a ha, hf.frame a ha]
          · exact isString_members hmembers fun g hg hzero => hnul (mem_of_mem_members hg hzero)
      · have hgroup := groupMembers_none hbytes (hread₃.length_le hf) (by omega)
        rw [hgroup] at hscangr
        refine ⟨?_, ?_, ?_⟩
        · intro a ha
          rw [hscangr] at ha
          have hinside := hread.inside a ha
          omega
        · rw [hscangr]
          refine ⟨fun hsome => Bool.noConfusion hsome, ?_⟩
          intro hfit
          obtain ⟨fs', hnext', hfit⟩ := hfit
          obtain rfl := hnext.unique hnext'.scanned
          rw [List.getLastD_concat] at hfit
          rw [cut_eq_self (hlast hnext'.1).2, Nat.mod_eq_of_lt (by omega)] at hroom
          exact absurd hfit hroom
        · intro grp fs' hgrp hnext'
          rw [hscangr] at hgrp
          cases hgrp

/-! ## Both databases -/

/-- Calls of both functions are exact under their conditions and only then. -/
theorem records_exact_iff {bufsize : Nat} (hsize : bufsize < 2 ^ 32) (input : List UInt8)
    (buffer : Nat) (mem : Nat → UInt8) :
    (PasswdExact input buffer bufsize mem ↔
      ¬ Overruns passwdFields bufsize input ∧
      ∀ fs, Next Field.Scanned passwdFields input bufsize fs →
        List.Forall₂ Field.Grammar passwdFields fs) ∧
    (GroupExact input buffer bufsize mem ↔
      ¬ Overruns groupFields bufsize input ∧
      ∀ fs, Next Field.Scanned groupFields input bufsize fs →
        room groupFields fs + pointerRoom (cut (fs.getLastD [])) % 2 ^ 32 ≤ bufsize →
        List.Forall₂ Field.Grammar groupFields fs ∧ pointerRoom (fs.getLastD []) < 2 ^ 32) :=
  ⟨passwdExact_iff hsize input buffer mem, groupExact_iff hsize input buffer mem⟩

/-- The line of the dummy `/etc/passwd`: `root::0:0::::`. -/
def rootLine : List UInt8 := [114, 111, 111, 116, 58, 58, 48, 58, 48, 58, 58, 58, 58, 10]

theorem isId_zero : IsId [48] 0 := by
  have hvalue : decimal 0 [48] = 0 := by decide
  have hid : IsId [48] (decimal 0 [48]) := by
    refine .pos (List.cons_ne_nil _ _) ?_ (by rw [hvalue]; exact Nat.zero_le _)
    intro c hc
    rw [List.mem_singleton.mp hc]
    rfl
  rw [hvalue] at hid
  exact hid

theorem grammar_empty (nlFlag : Bool) : Field.Grammar (.string nlFlag) [] := by
  simp [Field.Grammar, IsText]

theorem grammar_zero : Field.Grammar .int [48] := ⟨0, isId_zero⟩

theorem rootLine_next :
    Next Field.Grammar passwdFields rootLine 64 [[114, 111, 111, 116], [], [48], [48], [], [], [], []] := by
  have hroot : Field.Grammar (.string false) [114, 111, 111, 116] := by
    unfold Field.Grammar IsText
    decide
  exact ⟨.cons hroot (.cons (grammar_empty false) (.cons grammar_zero (.cons grammar_zero
    (.cons (grammar_empty false) (.cons (grammar_empty false) (.cons (grammar_empty false)
    (.cons (grammar_empty true) .nil))))))), ⟨[], by decide⟩, by decide⟩

/-- A line of `/etc/group` with two members: `wheel::0:root,adm`. -/
def wheelLine : List UInt8 :=
  [119, 104, 101, 101, 108, 58, 58, 48, 58, 114, 111, 111, 116, 44, 97, 100, 109, 10]

theorem wheelLine_next :
    Next Field.Grammar groupFields wheelLine 64 [[119, 104, 101, 101, 108], [], [48],
      [114, 111, 111, 116, 44, 97, 100, 109]] := by
  have hwheel : Field.Grammar (.string false) [119, 104, 101, 101, 108] := by
    unfold Field.Grammar IsText
    decide
  have hmembers : Field.Grammar (.string true) [114, 111, 111, 116, 44, 97, 100, 109] := by
    unfold Field.Grammar IsText
    decide
  exact ⟨.cons hwheel (.cons (grammar_empty false) (.cons grammar_zero (.cons hmembers .nil))),
    ⟨[], by decide⟩, by decide⟩

/-- The line of the dummy database and a line with two members are read exactly with buffers of 64
bytes. -/
theorem records_exact_iff_root : PasswdExact rootLine 4096 64 (fun _ => 0) ∧
    GroupExact wheelLine 4096 64 (fun _ => 0) := by
  constructor
  · refine ((records_exact_iff (by decide) rootLine 4096 (fun _ => 0)).1).mpr ⟨?_, ?_⟩
    · intro hover
      have hwritten := scanFields_overruns passwdFields
        (s := .start rootLine 4096 64 (fun _ => 0)) (by decide) hover
      exact absurd hwritten (by decide)
    · intro fs hnext
      rw [hnext.unique rootLine_next.scanned]
      exact rootLine_next.1
  · refine ((records_exact_iff (by decide) wheelLine 4096 (fun _ => 0)).2).mpr ⟨?_, ?_⟩
    · intro hover
      have hwritten := scanFields_overruns groupFields
        (s := .start wheelLine 4096 64 (fun _ => 0)) (by decide) hover
      exact absurd hwritten (by decide)
    · intro fs hnext _
      rw [hnext.unique wheelLine_next.scanned]
      exact ⟨wheelLine_next.1, by decide⟩

/-- With a buffer of five bytes the string behind the name is stored outside of it. -/
theorem root_overruns : ¬ ∀ (input : List UInt8) (buffer bufsize : Nat) (mem : Nat → UInt8),
    bufsize < 2 ^ 32 →
    PasswdExact input buffer bufsize mem ∧ GroupExact input buffer bufsize mem := by
  intro h
  have hinside := (h rootLine 4096 5 (fun _ => 0) (by decide)).1.inside (4096 + 5) (by decide)
  exact absurd hinside.2 (Nat.lt_irrefl _)

end Rtems.Pwdgrp
