import Mathlib

/-!
# Singly linked queues over shared links

A family of queues, indexed by `ι`, of elements that carry one `next` link each: a queue has its first
and its last element and a 32 bit count.  The operations are those of an intrusive list in C, on the
links; `Rep` says which lists the queues hold, and every operation is a list operation under it.

Walks along the links take a bound on their steps: over `n` elements a walk ends within `n` steps or
never does.
-/

namespace Rtems.LinkedQueue

open Function

/-- Head, tail and count of a queue. -/
structure Queue (α : Type) where
  head : Option α
  tail : Option α
  count : ℕ
deriving DecidableEq, Repr

/-- The links of the elements and the queues threaded through them. -/
structure Links (ι α : Type) where
  next : α → Option α
  queue : ι → Queue α

variable {ι α : Type} [DecidableEq ι] [DecidableEq α]

/-- Addition of one in 32 bits. -/
def inc32 (n : ℕ) : ℕ := if n = 4294967295 then 0 else n + 1

/-- Subtraction of one in 32 bits. -/
def dec32 (n : ℕ) : ℕ := if n = 0 then 4294967295 else n - 1

theorem inc32_of_lt {n : ℕ} (h : n + 1 < 4294967296) : inc32 n = n + 1 := if_neg (by omega)

theorem dec32_of_pos {n : ℕ} (h : 0 < n) : dec32 n = n - 1 := if_neg (by omega)

theorem inc32_mod (n : ℕ) : inc32 (n % 4294967296) = (n + 1) % 4294967296 := by
  unfold inc32
  split <;> omega

theorem dec32_mod (n : ℕ) : dec32 ((n + 1) % 4294967296) = n % 4294967296 := by
  unfold dec32
  split <;> omega

namespace Links

/-! ## Operations -/

def clear (l : Links ι α) (q : ι) : Links ι α :=
  { l with queue := update l.queue q ⟨none, none, 0⟩ }

def pushHead (l : Links ι α) (q : ι) (x : α) : Links ι α where
  next := update l.next x (l.queue q).head
  queue := update l.queue q
    { head := some x
      tail := if (l.queue q).tail = none then some x else (l.queue q).tail
      count := inc32 (l.queue q).count }

def popHead (l : Links ι α) (q : ι) : Option α × Links ι α :=
  match (l.queue q).head with
  | none => (none, l)
  | some x =>
    (some x,
      { next := update l.next x none
        queue := update l.queue q
          { head := l.next x
            tail := if l.next x = none then none else (l.queue q).tail
            count := dec32 (l.queue q).count } })

def pushTail (l : Links ι α) (q : ι) (x : α) : Links ι α :=
  match (l.queue q).head with
  | none =>
    { next := update l.next x none
      queue := update l.queue q ⟨some x, some x, inc32 (l.queue q).count⟩ }
  | some y =>
    { next :=
        match (l.queue q).tail with
        | none => update l.next x none
        | some t => update (update l.next x none) t (some x)
      queue := update l.queue q ⟨some y, some x, inc32 (l.queue q).count⟩ }

/-- Take `x` out behind `prev`. -/
def unlink (l : Links ι α) (q : ι) (x : α) : Option α → Links ι α
  | none =>
    { next := update l.next x none
      queue := update l.queue q
        { head := l.next x
          tail := if l.next x = none then none else (l.queue q).tail
          count := dec32 (l.queue q).count } }
  | some prev =>
    { next := update (update l.next prev (l.next x)) x none
      queue := update l.queue q
        { head := (l.queue q).head
          tail := if (l.queue q).tail = some x then some prev else (l.queue q).tail
          count := dec32 (l.queue q).count } }

/-- Put `x` between `prev` and `item`. -/
def linkBefore (l : Links ι α) (q : ι) (item x : α) : Option α → Links ι α
  | none =>
    { next := update l.next x (some item)
      queue := update l.queue q
        { head := some x
          tail := (l.queue q).tail
          count := inc32 (l.queue q).count } }
  | some prev =>
    { next := update (update l.next x (some item)) prev (some x)
      queue := update l.queue q
        { head := (l.queue q).head
          tail := (l.queue q).tail
          count := inc32 (l.queue q).count } }

/-- Walk to `x`, remembering the element before: the outcome is that element, or that `x` was not met. -/
def seek (next : α → Option α) (x : α) : ℕ → Option α → Option α → Option (Option (Option α))
  | _, _, none => some none
  | 0, _, some _ => none
  | n + 1, prev, some it =>
    if x = it then some (some prev) else seek next x n (some it) (next it)

def remove (n : ℕ) (l : Links ι α) (q : ι) (x : α) : Option (Links ι α) :=
  (seek l.next x n none (l.queue q).head).map fun
    | none => l
    | some prev => l.unlink q x prev

def insertBefore (n : ℕ) (l : Links ι α) (q : ι) (item x : α) : Option (Links ι α) :=
  (seek l.next item n none (l.queue q).head).map fun
    | none => l.pushTail q x
    | some prev => l.linkBefore q item x prev

/-- Walk to the first element with a property. -/
def findFrom (next : α → Option α) (p : α → Bool) : ℕ → Option α → Option (Option α)
  | _, none => some none
  | 0, some _ => none
  | n + 1, some it => if p it then some (some it) else findFrom next p n (next it)

/-- The elements met on a walk from `it` to the end. -/
def walk (next : α → Option α) : ℕ → Option α → Option (List α)
  | _, none => some []
  | 0, some _ => none
  | n + 1, some it => (walk next n (next it)).map (it :: ·)

def present (n : ℕ) (l : Links ι α) (q : ι) (x : α) : Option Bool :=
  (seek l.next x n none (l.queue q).head).map Option.isSome

/-- The elements of a queue in order. -/
def elements (n : ℕ) (l : Links ι α) (q : ι) : Option (List α) :=
  walk l.next n (l.queue q).head

end Links

/-! ## Paths -/

/-- The links lead from `h` through the elements of a list to `t`. -/
def Path (next : α → Option α) : Option α → List α → Option α → Prop
  | h, [], t => h = t
  | h, x :: xs, t => h = some x ∧ Path next (next x) xs t

omit [DecidableEq α] in
theorem Path.append {next : α → Option α} {h t : Option α} {xs ys : List α} :
    Path next h (xs ++ ys) t ↔ ∃ m, Path next h xs m ∧ Path next m ys t := by
  induction xs generalizing h with
  | nil => simp [Path]
  | cons x xs ih =>
    simp only [List.cons_append, Path, ih]
    constructor
    · rintro ⟨rfl, m, h1, h2⟩
      exact ⟨m, ⟨rfl, h1⟩, h2⟩
    · rintro ⟨m, ⟨rfl, h1⟩, h2⟩
      exact ⟨rfl, m, h1, h2⟩

omit [DecidableEq α] in
/-- Links of other elements do not matter. -/
theorem Path.congr {next next' : α → Option α} {h t : Option α} {xs : List α}
    (hp : Path next h xs t) (hn : ∀ x ∈ xs, next' x = next x) : Path next' h xs t := by
  induction xs generalizing h with
  | nil => exact hp
  | cons x xs ih =>
    obtain ⟨rfl, hp⟩ := hp
    refine ⟨rfl, ?_⟩
    rw [hn x (by simp)]
    exact ih hp fun y hy => hn y (by simp [hy])

omit [DecidableEq α] in
theorem Path.head {next : α → Option α} {h : Option α} {xs : List α}
    (hp : Path next h xs none) : h = xs.head? := by
  cases xs with
  | nil => exact hp
  | cons x xs => exact hp.1

omit [DecidableEq α] in
theorem Path.unique {next : α → Option α} {h : Option α} {xs ys : List α}
    (hx : Path next h xs none) (hy : Path next h ys none) : xs = ys := by
  induction xs generalizing h ys with
  | nil =>
    cases hx
    cases ys with
    | nil => rfl
    | cons y ys => cases hy.1
  | cons x xs ih =>
    obtain ⟨rfl, hx⟩ := hx
    cases ys with
    | nil => cases hy
    | cons y ys =>
      obtain ⟨hxy, hy⟩ := hy
      cases hxy
      rw [ih hx hy]

omit [DecidableEq α] in
/-- A path that ends does not pass an element twice. -/
theorem Path.nodup {next : α → Option α} {h : Option α} {xs : List α}
    (hp : Path next h xs none) : xs.Nodup := by
  induction xs generalizing h with
  | nil => exact List.nodup_nil
  | cons x xs ih =>
    refine List.nodup_cons.mpr ⟨?_, ih hp.2⟩
    intro hx
    obtain ⟨ys, zs, rfl⟩ := List.append_of_mem hx
    obtain ⟨m, _, rfl, hz⟩ := Path.append.mp hp.2
    have hlen := congrArg List.length (Path.unique hp.2 hz)
    simp at hlen
    omega

theorem seek_of_path {next : α → Option α} {x : α} {n : ℕ} {prev h : Option α} {xs : List α}
    (hp : Path next h xs none) (hn : xs.length ≤ n) (hx : x ∉ xs) :
    Links.seek next x n prev h = some none := by
  induction xs generalizing h n prev with
  | nil =>
    cases hp
    cases n <;> rfl
  | cons y ys ih =>
    obtain ⟨rfl, hp⟩ := hp
    cases n with
    | zero => simp at hn
    | succ n =>
      simp only [List.mem_cons, not_or] at hx
      simp only [List.length_cons, Nat.add_le_add_iff_right] at hn
      simp only [Links.seek, if_neg hx.1]
      exact ih hp hn hx.2

theorem seek_of_path_mem {next : α → Option α} {x : α} {n : ℕ} {prev h t : Option α}
    {xs ys : List α} (hp : Path next h (xs ++ x :: ys) t) (hn : xs.length < n) (hx : x ∉ xs) :
    Links.seek next x n prev h = some (some (xs.getLast?.or prev)) := by
  induction xs generalizing h n prev with
  | nil =>
    obtain ⟨rfl, hp⟩ := hp
    cases n with
    | zero => simp at hn
    | succ n => simp [Links.seek]
  | cons y zs ih =>
    obtain ⟨rfl, hp⟩ := hp
    cases n with
    | zero => simp at hn
    | succ n =>
      simp only [List.mem_cons, not_or] at hx
      simp only [List.length_cons, Nat.add_lt_add_iff_right] at hn
      simp only [Links.seek, if_neg hx.1]
      rw [ih hp hn hx.2]
      rw [List.getLast?_cons]
      cases zs.getLast? <;> rfl

omit [DecidableEq α] in
theorem findFrom_of_path {next : α → Option α} {p : α → Bool} {n : ℕ} {h : Option α} {xs : List α}
    (hp : Path next h xs none) (hn : xs.length ≤ n) :
    Links.findFrom next p n h = some (xs.find? p) := by
  induction xs generalizing h n with
  | nil =>
    cases hp
    cases n <;> rfl
  | cons y ys ih =>
    obtain ⟨rfl, hp⟩ := hp
    cases n with
    | zero => simp at hn
    | succ n =>
      simp only [List.length_cons, Nat.add_le_add_iff_right] at hn
      simp only [Links.findFrom, ih hp hn, List.find?_cons]
      cases p y <;> rfl

omit [DecidableEq α] in
theorem walk_of_path {next : α → Option α} {n : ℕ} {h : Option α} {xs : List α}
    (hp : Path next h xs none) (hn : xs.length ≤ n) : Links.walk next n h = some xs := by
  induction xs generalizing h n with
  | nil =>
    cases hp
    cases n <;> rfl
  | cons y ys ih =>
    obtain ⟨rfl, hp⟩ := hp
    cases n with
    | zero => simp at hn
    | succ n =>
      simp only [List.length_cons, Nat.add_le_add_iff_right] at hn
      simp only [Links.walk, ih hp hn, Option.map_some]

/-! ## The lists the queues hold -/

/-- Every queue holds its list, counted and with the right tail; no element is on two queues. -/
structure Rep (l : Links ι α) (a : ι → List α) : Prop where
  path : ∀ q, Path l.next (l.queue q).head (a q) none
  tail : ∀ q, (l.queue q).tail = (a q).getLast?
  count : ∀ q, (l.queue q).count = (a q).length % 4294967296
  disjoint : ∀ p q x, x ∈ a p → x ∈ a q → p = q

namespace Rep

variable {l : Links ι α} {a : ι → List α} {q : ι} {x : α}

omit [DecidableEq ι] [DecidableEq α] in
theorem nodup (h : Rep l a) (q : ι) : (a q).Nodup := (h.path q).nodup

omit [DecidableEq ι] [DecidableEq α] in
theorem head (h : Rep l a) (q : ι) : (l.queue q).head = (a q).head? := (h.path q).head

omit [DecidableEq α] in
/-- A queue and the links of its elements are replaced, the new list being made of elements of the
old one and of `x`. -/
theorem update_queue {next : α → Option α} {w : Queue α} {xs : List α} (h : Rep l a)
    (hx : ∀ p, p ≠ q → x ∉ a p) (hsub : ∀ y ∈ xs, y = x ∨ y ∈ a q)
    (hnext : ∀ y, y ≠ x → y ∉ a q → next y = l.next y)
    (hpath : Path next w.head xs none) (htail : w.tail = xs.getLast?)
    (hcount : w.count = xs.length % 4294967296) :
    Rep ⟨next, update l.queue q w⟩ (update a q xs) := by
  have hne : ∀ p, p ≠ q → ∀ y ∈ a p, y ≠ x ∧ y ∉ a q := by
    intro p hp y hy
    refine ⟨?_, fun hyq => hp (h.disjoint p q y hy hyq)⟩
    rintro rfl
    exact hx p hp hy
  constructor
  · intro p
    by_cases hp : p = q
    · subst hp
      simpa using hpath
    · simp only [update_of_ne hp]
      exact (h.path p).congr fun y hy => hnext y (hne p hp y hy).1 (hne p hp y hy).2
  · intro p
    by_cases hp : p = q
    · subst hp
      simpa using htail
    · simp only [update_of_ne hp]
      exact h.tail p
  · intro p
    by_cases hp : p = q
    · subst hp
      simpa using hcount
    · simp only [update_of_ne hp]
      exact h.count p
  · intro p p' y hy hy'
    by_cases hp : p = q <;> by_cases hp' : p' = q
    · rw [hp, hp']
    · subst hp
      simp only [update_self, update_of_ne hp'] at hy hy'
      have hn := hne p' hp' y hy'
      rcases hsub y hy with hyx | hyq
      · exact absurd hyx hn.1
      · exact absurd hyq hn.2
    · subst hp'
      simp only [update_self, update_of_ne hp] at hy hy'
      have hn := hne p hp y hy
      rcases hsub y hy' with hyx | hyq
      · exact absurd hyx hn.1
      · exact absurd hyq hn.2
    · simp only [update_of_ne hp, update_of_ne hp'] at hy hy'
      exact h.disjoint p p' y hy hy'

omit [DecidableEq ι] [DecidableEq α] in
theorem empty (next : α → Option α) :
    Rep (ι := ι) ⟨next, fun _ => ⟨none, none, 0⟩⟩ fun _ => [] := by
  constructor <;> simp [Path]

theorem pushHead (h : Rep l a) (hx : ∀ p, x ∉ a p) :
    Rep (l.pushHead q x) (update a q (x :: a q)) := by
  refine h.update_queue (x := x) (fun p _ => hx p) (fun y hy => by simpa using hy) ?_ ?_ ?_ ?_
  · intro y hy _
    exact update_of_ne hy _ _
  · refine ⟨rfl, ?_⟩
    rw [update_self]
    refine (h.path q).congr fun y hy => update_of_ne ?_ _ _
    rintro rfl
    exact hx q hy
  · simp only [h.tail q, List.getLast?_cons]
    cases (a q).getLast? <;> simp
  · simp only [h.count q, inc32_mod, List.length_cons]

theorem popHead_nil (h : Rep l a) (hq : a q = []) : l.popHead q = (none, l) := by
  have hh : (l.queue q).head = none := by simp [h.head q, hq]
  simp only [Links.popHead, hh]

theorem popHead_cons {xs : List α} (h : Rep l a) (hq : a q = x :: xs) :
    ∃ l', l.popHead q = (some x, l') ∧ Rep l' (update a q xs) := by
  have hh : (l.queue q).head = some x := by simp [h.head q, hq]
  have hp := h.path q
  have hnd := h.nodup q
  rw [hq] at hp hnd
  simp only [Links.popHead, hh]
  refine ⟨_, rfl, h.update_queue (x := x) ?_ ?_ ?_ ?_ ?_ ?_⟩
  · intro p hp hx
    exact hp (h.disjoint p q x hx (by simp [hq]))
  · intro y hy
    exact Or.inr (by simp [hq, hy])
  · intro y hy _
    exact update_of_ne hy _ _
  · refine hp.2.congr fun y hy => update_of_ne ?_ _ _
    rintro rfl
    exact (List.nodup_cons.mp hnd).1 hy
  · simp only [h.tail q, hq, hp.2.head, List.getLast?_cons]
    cases xs <;> simp [List.getLast?_cons]
  · simp only [h.count q, hq, dec32_mod, List.length_cons]

theorem pushTail (h : Rep l a) (hx : ∀ p, x ∉ a p) :
    Rep (l.pushTail q x) (update a q (a q ++ [x])) := by
  have hp := h.path q
  unfold Links.pushTail
  rcases List.eq_nil_or_concat' (a q) with hq | ⟨ys, t, hq⟩
  · have hh : (l.queue q).head = none := by simp [h.head q, hq]
    simp only [hh]
    refine h.update_queue (x := x) (fun p _ => hx p) ?_ ?_ ?_ ?_ ?_
    · intro y hy
      simpa [hq] using hy
    · intro y hy _
      exact update_of_ne hy _ _
    · simp [hq, Path]
    · simp [hq]
    · simp [hq, h.count q, inc32]
  · have ht : (l.queue q).tail = some t := by simp [h.tail q, hq]
    have hxq : x ∉ ys ++ [t] := hq ▸ hx q
    have hnd : (ys ++ [t]).Nodup := hq ▸ h.nodup q
    rw [hq] at hp
    obtain ⟨m, hys, rfl, -⟩ := Path.append.mp hp
    obtain ⟨y, hy⟩ : ∃ y, (l.queue q).head = some y := by
      rw [h.head q, hq]
      cases ys <;> simp
    simp only [hy, ht]
    refine h.update_queue (x := x) (fun p _ => hx p) ?_ ?_ ?_ ?_ ?_
    · intro z hz
      simpa [or_comm] using hz
    · intro z hz hzq
      rw [update_of_ne, update_of_ne hz]
      rintro rfl
      exact hzq (by simp [hq])
    · rw [hq, List.append_assoc]
      refine Path.append.mpr ⟨some t, ?_, ?_⟩
      · rw [← hy]
        refine hys.congr fun z hz => ?_
        rw [update_of_ne, update_of_ne]
        · rintro rfl
          exact hxq (by simp [hz])
        · rintro rfl
          exact absurd rfl (List.nodup_append.mp hnd |>.2.2 z hz z (by simp))
      · refine ⟨rfl, ?_⟩
        have hxt : x ≠ t := by
          rintro rfl
          exact hxq (by simp)
        simp [Path, update_of_ne hxt]
    · simp
    · simp only [h.count q, inc32_mod, List.length_append, List.length_singleton]

theorem unlink {xs ys : List α} (h : Rep l a) (hq : a q = xs ++ x :: ys) :
    Rep (l.unlink q x xs.getLast?) (update a q (xs ++ ys)) := by
  have hp := h.path q
  have hnd : (xs ++ x :: ys).Nodup := hq ▸ h.nodup q
  have hout : ∀ p, p ≠ q → x ∉ a p := fun p hpq hxp =>
    hpq (h.disjoint p q x hxp (by simp [hq]))
  have hxy : x ∉ ys := (List.nodup_cons.mp (List.nodup_append.mp hnd).2.1).1
  have hsub : ∀ y ∈ xs ++ ys, y = x ∨ y ∈ a q := by
    intro y hy
    rw [hq]
    simp only [List.mem_append, List.mem_cons] at hy ⊢
    tauto
  have hcount : dec32 (l.queue q).count = (xs ++ ys).length % 4294967296 := by
    simp only [h.count q, hq, List.length_append, List.length_cons, ← Nat.add_assoc, dec32_mod]
  rw [hq] at hp
  obtain ⟨m, hxs, rfl, hys⟩ := Path.append.mp hp
  rcases List.eq_nil_or_concat' xs with rfl | ⟨zs, t, rfl⟩
  · refine h.update_queue (x := x) hout hsub ?_ ?_ ?_ hcount
    · intro y hy _
      exact update_of_ne hy _ _
    · refine hys.congr fun y hy => update_of_ne ?_ _ _
      rintro rfl
      exact hxy hy
    · simp only [h.tail q, hq, hys.head, List.nil_append, List.getLast?_cons]
      cases ys <;> simp [List.getLast?_cons]
  · have hxz : x ∉ zs ++ [t] := fun hmem =>
      absurd rfl ((List.nodup_append.mp hnd).2.2 x hmem x (by simp))
    have hty : t ∉ ys := fun hmem =>
      absurd rfl ((List.nodup_append.mp hnd).2.2 t (by simp) t (by simp [hmem]))
    have htz : t ∉ zs := fun hmem =>
      absurd rfl ((List.nodup_append.mp (List.nodup_append.mp hnd).1).2.2 t hmem t (by simp))
    have hlast : (zs ++ [t]).getLast? = some t := by simp
    rw [hlast]
    refine h.update_queue (x := x) hout hsub ?_ ?_ ?_ hcount
    · intro y hy hyq
      rw [update_of_ne hy, update_of_ne]
      rintro rfl
      exact hyq (by simp [hq])
    · obtain ⟨m, hzs, rfl, -⟩ := Path.append.mp hxs
      rw [List.append_assoc]
      refine Path.append.mpr ⟨some t, ?_, rfl, ?_⟩
      · refine hzs.congr fun y hy => ?_
        rw [update_of_ne, update_of_ne]
        · rintro rfl
          exact htz hy
        · rintro rfl
          exact hxz (by simp [hy])
      · have htx : t ≠ x := by
          rintro rfl
          exact hxz (by simp)
        rw [update_of_ne htx, update_self]
        refine hys.congr fun y hy => ?_
        rw [update_of_ne, update_of_ne]
        · rintro rfl
          exact hty hy
        · rintro rfl
          exact hxy hy
    · simp only [h.tail q, hq]
      rcases List.eq_nil_or_concat' ys with rfl | ⟨ws, w, rfl⟩
      · simp
      · have hwx : w ≠ x := by
          rintro rfl
          exact hxy (by simp)
        simp [List.getLast?_append, List.getLast?_cons, hwx]

theorem linkBefore {item : α} {xs ys : List α} (h : Rep l a) (hx : ∀ p, x ∉ a p)
    (hq : a q = xs ++ item :: ys) :
    Rep (l.linkBefore q item x xs.getLast?) (update a q (xs ++ x :: item :: ys)) := by
  have hp := h.path q
  have hnd : (xs ++ item :: ys).Nodup := hq ▸ h.nodup q
  have hxq : x ∉ xs ++ item :: ys := hq ▸ hx q
  have hsub : ∀ y ∈ xs ++ x :: item :: ys, y = x ∨ y ∈ a q := by
    intro y hy
    rw [hq]
    simp only [List.mem_append, List.mem_cons] at hy ⊢
    tauto
  have hcount : inc32 (l.queue q).count = (xs ++ x :: item :: ys).length % 4294967296 := by
    simp only [h.count q, hq, inc32_mod, List.length_append, List.length_cons, Nat.add_assoc]
  have htail : (l.queue q).tail = (xs ++ x :: item :: ys).getLast? := by
    rw [h.tail q, hq]
    simp [List.getLast?_append, List.getLast?_cons]
  rw [hq] at hp
  obtain ⟨m, hxs, rfl, hys⟩ := Path.append.mp hp
  simp only [List.mem_append, List.mem_cons, not_or] at hxq
  rcases List.eq_nil_or_concat' xs with rfl | ⟨zs, t, rfl⟩
  · refine h.update_queue (x := x) (fun p _ => hx p) hsub ?_ ?_ htail hcount
    · intro y hy _
      exact update_of_ne hy _ _
    · refine ⟨rfl, ?_⟩
      rw [update_self]
      refine ⟨rfl, ?_⟩
      rw [update_of_ne (Ne.symm hxq.2.1)]
      refine hys.congr fun y hy => update_of_ne ?_ _ _
      rintro rfl
      exact hxq.2.2 hy
  · have hlast : (zs ++ [t]).getLast? = some t := by simp
    have htz : t ∉ zs := fun hmem =>
      absurd rfl ((List.nodup_append.mp (List.nodup_append.mp hnd).1).2.2 t hmem t (by simp))
    have hout : ∀ y ∈ item :: ys, y ≠ t := by
      rintro y hy rfl
      exact absurd rfl ((List.nodup_append.mp hnd).2.2 y (by simp) y hy)
    have hxt : x ≠ t := fun e => hxq.1 (by simp [e])
    rw [hlast]
    refine h.update_queue (x := x) (fun p _ => hx p) hsub ?_ ?_ htail hcount
    · intro y hy hyq
      rw [update_of_ne, update_of_ne hy]
      rintro rfl
      exact hyq (by simp [hq])
    · obtain ⟨m, hzs, rfl, -⟩ := Path.append.mp hxs
      rw [List.append_assoc]
      refine Path.append.mpr ⟨some t, ?_, rfl, ?_⟩
      · refine hzs.congr fun y hy => ?_
        rw [update_of_ne, update_of_ne]
        · rintro rfl
          exact hxq.1 (by simp [hy])
        · rintro rfl
          exact htz hy
      · rw [update_self]
        refine ⟨rfl, ?_⟩
        rw [update_of_ne hxt, update_self]
        refine ⟨rfl, ?_⟩
        rw [update_of_ne (hout item (by simp)), update_of_ne (Ne.symm hxq.2.1)]
        refine hys.congr fun y hy => ?_
        rw [update_of_ne (hout y (by simp [hy])), update_of_ne]
        rintro rfl
        exact hxq.2.2 hy

theorem remove {n : ℕ} (h : Rep l a) (hn : (a q).length ≤ n) :
    ∃ l', l.remove n q x = some l' ∧ Rep l' (update a q ((a q).erase x)) := by
  by_cases hx : x ∈ a q
  · obtain ⟨xs, ys, hq⟩ := List.append_of_mem hx
    have hxs : x ∉ xs := by
      have hnd : (xs ++ x :: ys).Nodup := hq ▸ h.nodup q
      exact fun hmem => absurd rfl ((List.nodup_append.mp hnd).2.2 x hmem x (by simp))
    have hp := h.path q
    rw [hq] at hp hn
    rw [List.length_append, List.length_cons] at hn
    refine ⟨l.unlink q x xs.getLast?, ?_, ?_⟩
    · rw [Links.remove, seek_of_path_mem hp (by omega) hxs]
      simp
    · rw [hq, List.erase_append_right _ hxs, List.erase_cons_head]
      exact h.unlink hq
  · refine ⟨l, ?_, ?_⟩
    · rw [Links.remove, seek_of_path (h.path q) hn hx]
      rfl
    · rw [List.erase_of_not_mem hx, update_eq_self]
      exact h

theorem insertBefore {n : ℕ} {item : α} (h : Rep l a) (hn : (a q).length ≤ n) (hx : ∀ p, x ∉ a p)
    (hitem : item ∈ a q) :
    ∃ l' xs ys, l.insertBefore n q item x = some l' ∧ a q = xs ++ ys ∧
      Rep l' (update a q (xs ++ x :: ys)) := by
  obtain ⟨xs, ys, hq⟩ := List.append_of_mem hitem
  have hxs : item ∉ xs := by
    have hnd : (xs ++ item :: ys).Nodup := hq ▸ h.nodup q
    exact fun hmem => absurd rfl ((List.nodup_append.mp hnd).2.2 item hmem item (by simp))
  have hp := h.path q
  rw [hq] at hp hn
  rw [List.length_append, List.length_cons] at hn
  refine ⟨l.linkBefore q item x xs.getLast?, xs, item :: ys, ?_, hq, h.linkBefore hx hq⟩
  rw [Links.insertBefore, seek_of_path_mem hp (by omega) hxs]
  simp

omit [DecidableEq ι] in
theorem present {n : ℕ} (h : Rep l a) (hn : (a q).length ≤ n) :
    l.present n q x = some (decide (x ∈ a q)) := by
  by_cases hx : x ∈ a q
  · obtain ⟨xs, ys, hq⟩ := List.append_of_mem hx
    have hxs : x ∉ xs := by
      have hnd : (xs ++ x :: ys).Nodup := hq ▸ h.nodup q
      exact fun hmem => absurd rfl ((List.nodup_append.mp hnd).2.2 x hmem x (by simp))
    have hp := h.path q
    rw [hq] at hp hn
    rw [List.length_append, List.length_cons] at hn
    rw [Links.present, seek_of_path_mem hp (by omega) hxs]
    simp [hx]
  · rw [Links.present, seek_of_path (h.path q) hn hx]
    simp [hx]

omit [DecidableEq ι] [DecidableEq α] in
theorem elements {n : ℕ} (h : Rep l a) (hn : (a q).length ≤ n) :
    l.elements n q = some (a q) :=
  walk_of_path (h.path q) hn

omit [DecidableEq ι] [DecidableEq α] in
theorem findFrom {n : ℕ} {p : α → Bool} (h : Rep l a) (hn : (a q).length ≤ n) :
    Links.findFrom l.next p n (l.queue q).head = some ((a q).find? p) :=
  findFrom_of_path (h.path q) hn

end Rep

/-! ## Where the elements are -/

/-- A queue holds the list it held. -/
def SameList (q : ι) (l l' : Links ι α) : Prop :=
  ∀ xs, Path l.next (l.queue q).head xs none → Path l'.next (l'.queue q).head xs none

omit [DecidableEq ι] [DecidableEq α] in
theorem SameList.refl (q : ι) (l : Links ι α) : SameList q l l := fun _ h => h

omit [DecidableEq ι] [DecidableEq α] in
theorem SameList.trans {q : ι} {l l' l'' : Links ι α} (h : SameList q l l')
    (h' : SameList q l' l'') : SameList q l l'' := fun xs hxs => h' xs (h xs hxs)

omit [DecidableEq α] in
theorem Rep.sameList {l l' : Links ι α} {a : ι → List α} {xs : List α} {q r : ι} (h : Rep l a)
    (h' : Rep l' (update a q xs)) (hr : r ≠ q) : SameList r l l' := by
  intro ys hys
  have hpath := h'.path r
  rw [update_of_ne hr, ← Path.unique hys (h.path r)] at hpath
  exact hpath

/-- The queues hold each element where `loc` says, in some order; `univ` lists all the elements. -/
structure Located (univ : List α) (l : Links ι α) (loc : α → Option ι) : Prop where
  rep : ∃ a, Rep l a ∧ ∀ q x, x ∈ a q ↔ loc x = some q
  complete : ∀ x, x ∈ univ

namespace Located

variable {univ : List α} {l : Links ι α} {loc : α → Option ι} {q : ι} {x : α}

omit [DecidableEq ι] [DecidableEq α] in
theorem length_le {xs : List α} (h : Located univ l loc) (hxs : xs.Nodup) :
    xs.length ≤ univ.length :=
  hxs.length_le_of_subset fun x _ => h.complete x

/-- Lists that follow a point update of the places. -/
theorem of_update {l' : Links ι α} {a : ι → List α} {xs : List α} {o : Option ι}
    (h : Located univ l loc) (ha : ∀ q x, x ∈ a q ↔ loc x = some q)
    (hr : Rep l' (update a q xs)) (hx : ∀ p, p ≠ q → (x ∈ a p ↔ o = some p))
    (hmem : ∀ y, y ∈ xs ↔ if y = x then o = some q else y ∈ a q) :
    Located univ l' (update loc x o) := by
  refine ⟨⟨_, hr, ?_⟩, h.complete⟩
  intro p y
  by_cases hp : p = q
  · subst hp
    rw [update_self, hmem]
    by_cases hy : y = x
    · subst hy
      simp
    · simp [hy, ha]
  · rw [update_of_ne hp]
    by_cases hy : y = x
    · subst hy
      simp [hx p hp]
    · simp [hy, ha]

theorem pushHead (h : Located univ l loc) (hx : loc x = none) :
    Located univ (l.pushHead q x) (update loc x (some q)) ∧
      ∀ r, r ≠ q → SameList r l (l.pushHead q x) := by
  obtain ⟨a, hr, ha⟩ := h.rep
  have hxa : ∀ p, x ∉ a p := fun p hp => by simp [ha, hx] at hp
  have hr' := hr.pushHead (q := q) hxa
  refine ⟨h.of_update ha hr' ?_ ?_, fun r hq => hr.sameList hr' hq⟩
  · intro p hp
    simp [hxa, Ne.symm hp]
  · intro y
    by_cases hy : y = x <;> simp [hy]

theorem pushTail (h : Located univ l loc) (hx : loc x = none) :
    Located univ (l.pushTail q x) (update loc x (some q)) ∧
      ∀ r, r ≠ q → SameList r l (l.pushTail q x) := by
  obtain ⟨a, hr, ha⟩ := h.rep
  have hxa : ∀ p, x ∉ a p := fun p hp => by simp [ha, hx] at hp
  have hr' := hr.pushTail (q := q) hxa
  refine ⟨h.of_update ha hr' ?_ ?_, fun r hq => hr.sameList hr' hq⟩
  · intro p hp
    simp [hxa, Ne.symm hp]
  · intro y
    by_cases hy : y = x <;> simp [hy]

/-- A queue is empty, or gives its head. -/
theorem popHead (h : Located univ l loc) :
    (l.popHead q = (none, l) ∧ ∀ x, loc x ≠ some q) ∨
      ∃ x l', l.popHead q = (some x, l') ∧ loc x = some q ∧
        Located univ l' (update loc x none) ∧ (∀ r, r ≠ q → SameList r l l') ∧
        ∀ xs, Path l.next (l.queue q).head xs none →
          ∃ ys, xs = x :: ys ∧ Path l'.next (l'.queue q).head ys none := by
  obtain ⟨a, hr, ha⟩ := h.rep
  cases hq : a q with
  | nil =>
    left
    refine ⟨hr.popHead_nil hq, fun x hx => ?_⟩
    rw [← ha, hq] at hx
    cases hx
  | cons x xs =>
    right
    obtain ⟨l', hl', hr'⟩ := hr.popHead_cons hq
    have hxq : loc x = some q := (ha q x).mp (by simp [hq])
    have hnd := hr.nodup q
    rw [hq] at hnd
    refine ⟨x, l', hl', hxq, h.of_update ha hr' ?_ ?_, fun r hq => hr.sameList hr' hq, ?_⟩
    · intro p hp
      simp [ha, hxq, Ne.symm hp]
    · intro y
      by_cases hy : y = x
      · subst hy
        simp [(List.nodup_cons.mp hnd).1]
      · simp [hy, hq]
    · intro ys hys
      have hpath := hr'.path q
      rw [update_self] at hpath
      exact ⟨xs, (Path.unique hys (hr.path q)).trans hq, hpath⟩

theorem remove (h : Located univ l loc) :
    ∃ l', l.remove univ.length q x = some l' ∧
      Located univ l' (if loc x = some q then update loc x none else loc) ∧
      ∀ r, loc x ≠ some r ∨ r ≠ q → SameList r l l' := by
  obtain ⟨a, hr, ha⟩ := h.rep
  obtain ⟨l', hl', hr'⟩ := hr.remove (q := q) (x := x) (h.length_le (hr.nodup q))
  refine ⟨l', hl', ?_⟩
  split
  next hx =>
    refine ⟨h.of_update ha hr' ?_ ?_, ?_⟩
    · intro p hp
      simp [ha, hx, Ne.symm hp]
    · intro y
      by_cases hy : y = x
      · subst hy
        simp [(hr.nodup q).not_mem_erase]
      · simp [hy, List.mem_erase_of_ne hy]
    · rintro r (hrx | hrq)
      · exact hr.sameList hr' fun e => hrx (e ▸ hx)
      · exact hr.sameList hr' hrq
  next hx =>
    have hxa : x ∉ a q := fun hmem => hx ((ha q x).mp hmem)
    rw [List.erase_of_not_mem hxa] at hr'
    refine ⟨⟨⟨a, by simpa using hr', ha⟩, h.complete⟩, fun r _ ys hys => ?_⟩
    rw [update_eq_self] at hr'
    rw [Path.unique hys (hr.path r)]
    exact hr'.path r

theorem insertBefore {item : α} (h : Located univ l loc) (hx : loc x = none)
    (hitem : loc item = some q) :
    ∃ l', l.insertBefore univ.length q item x = some l' ∧
      Located univ l' (update loc x (some q)) ∧ ∀ r, r ≠ q → SameList r l l' := by
  obtain ⟨a, hr, ha⟩ := h.rep
  have hxa : ∀ p, x ∉ a p := fun p hp => by simp [ha, hx] at hp
  obtain ⟨l', xs, ys, hl', hq, hr'⟩ :=
    hr.insertBefore (h.length_le (hr.nodup q)) hxa ((ha q item).mpr hitem)
  refine ⟨l', hl', h.of_update ha hr' ?_ ?_, fun r hq => hr.sameList hr' hq⟩
  · intro p hp
    simp [hxa, Ne.symm hp]
  · intro y
    by_cases hy : y = x
    · simp [hy]
    · simp [hy, hq]

theorem present (h : Located univ l loc) :
    l.present univ.length q x = some (decide (loc x = some q)) := by
  obtain ⟨a, hr, ha⟩ := h.rep
  rw [hr.present (h.length_le (hr.nodup q))]
  simp only [ha]

omit [DecidableEq ι] [DecidableEq α] in
theorem elements (h : Located univ l loc) :
    ∃ xs, l.elements univ.length q = some xs ∧ xs.Nodup ∧ (∀ x, x ∈ xs ↔ loc x = some q) ∧
      Path l.next (l.queue q).head xs none := by
  obtain ⟨a, hr, ha⟩ := h.rep
  exact ⟨a q, hr.elements (h.length_le (hr.nodup q)), hr.nodup q, ha q, hr.path q⟩

omit [DecidableEq ι] [DecidableEq α] in
theorem mem_path {xs : List α} (h : Located univ l loc)
    (hp : Path l.next (l.queue q).head xs none) (x : α) : x ∈ xs ↔ loc x = some q := by
  obtain ⟨ys, -, -, hmem, hys⟩ := h.elements (q := q)
  rw [hp.unique hys]
  exact hmem x

omit [DecidableEq ι] [DecidableEq α] in
theorem findFrom {p : α → Bool} (h : Located univ l loc) :
    ∃ o, Links.findFrom l.next p univ.length (l.queue q).head = some o ∧
      ∀ x, o = some x → loc x = some q := by
  obtain ⟨a, hr, ha⟩ := h.rep
  refine ⟨_, hr.findFrom (h.length_le (hr.nodup q)), fun x hx => ?_⟩
  exact (ha q x).mp (List.mem_of_find?_eq_some hx)

end Located

end Rtems.LinkedQueue
