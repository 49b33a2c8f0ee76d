import Rtems.Malloc.Model
import Rtems.Heap.Runs

/-!
# Deferred frees

Every area that is freed is given back to the heap once, or waits on the chain.
The loop of `malloc` that empties the chain calls `free`, and where dispatching is
disabled `free` puts each area back to the end of the chain.
-/

namespace Rtems.Malloc

open Heap (Held)

variable {extendHandler : ExtendHandler} {ctx : Context} {s s' : State} {live : List Nat}
  {fuel size p ptr : Nat}

/-- The extend handler returns, leaves the chain alone, and the heap still holds what it held. -/
structure ExtendHandler.Keeps (extendHandler : ExtendHandler) : Prop where
  returns : ∀ s live size, Held s.heap live → ∃ s' p, extendHandler s size = some (s', p)
  keeps : ∀ s live size s' p, Held s.heap live → extendHandler s size = some (s', p) →
    s'.gcList = s.gcList ∧ s'.freed = s.freed ∧ Held s'.heap (if p = 0 then live else p :: live)

theorem keeps_heapNullExtend : heapNullExtend.Keeps where
  returns := fun s _ _ _ => ⟨s, 0, rfl⟩
  keeps := by
    intro s live size s' p hheld heq
    obtain ⟨rfl, rfl⟩ := Prod.mk.inj (Option.some.inj heq)
    exact ⟨rfl, rfl, hheld⟩

/-! ## The two contexts -/

theorem free_normal (hctx : isSystemStateOk ctx = true) (hptr : ptr ≠ 0) :
    free ctx s ptr = { s with
      heap := (Heap.free s.heap ptr).1
      freed := s.freed ++ [ptr] } := by
  simp [free, hctx, hptr]

theorem free_critical (hctx : isSystemStateOk ctx = false) (hptr : ptr ≠ 0) :
    free ctx s ptr = { s with gcList := s.gcList ++ [ptr] } := by
  simp [free, hctx, hptr, deferredFree]

/-- A turn of the loop in a normal context. -/
theorem deferredFreesProcess_cons (hctx : isSystemStateOk ctx = true) {q : Nat} {rest : List Nat}
    (hlist : s.gcList = q :: rest) (h : Held s.heap (live ++ s.gcList)) :
    ∃ heap, Held heap (live ++ rest) ∧ ∀ fuel, deferredFreesProcess ctx (fuel + 1) s =
      deferredFreesProcess ctx fuel ⟨heap, rest, s.freed ++ [q]⟩ := by
  rw [hlist] at h
  have hq : q ∈ live ++ q :: rest := by simp
  obtain ⟨heap, heq, -, hheld⟩ := h.free hq
  refine ⟨heap, ?_, ?_⟩
  · have herase : ((live ++ q :: rest).erase q).Perm (live ++ rest) := by
      have hperm := (@List.perm_middle _ q live rest).erase q
      rwa [List.erase_cons_head] at hperm
    exact hheld.perm herase
  · intro fuel
    rw [deferredFreesProcess, hlist]
    dsimp only
    rw [free_normal hctx (h.ne_zero hq), heq]

/-- In a normal context the loop empties the chain. -/
theorem deferredFreesProcess_normal (hctx : isSystemStateOk ctx = true)
    (h : Held s.heap (live ++ s.gcList)) (heq : deferredFreesProcess ctx fuel s = some s') :
    s'.gcList = [] ∧ s'.freed = s.freed ++ s.gcList ∧ Held s'.heap live := by
  induction fuel generalizing s with
  | zero => cases heq
  | succ fuel ih =>
    cases hlist : s.gcList with
    | nil =>
      rw [deferredFreesProcess, hlist] at heq
      obtain rfl := Option.some.inj heq
      rw [hlist, List.append_nil] at h
      exact ⟨hlist, by simp, h⟩
    | cons q rest =>
      obtain ⟨heap, hheld, hstep⟩ := deferredFreesProcess_cons hctx hlist h
      rw [hstep fuel] at heq
      obtain ⟨hempty, hfreed, hdone⟩ := ih hheld heq
      exact ⟨hempty, by simpa using hfreed, hdone⟩

theorem deferredFreesProcess_isSome (hctx : isSystemStateOk ctx = true)
    (h : Held s.heap (live ++ s.gcList)) (hfuel : s.gcList.length < fuel) :
    ∃ s', deferredFreesProcess ctx fuel s = some s' := by
  induction fuel generalizing s with
  | zero => cases hfuel
  | succ fuel ih =>
    cases hlist : s.gcList with
    | nil => exact ⟨s, by rw [deferredFreesProcess, hlist]⟩
    | cons q rest =>
      obtain ⟨heap, hheld, hstep⟩ := deferredFreesProcess_cons hctx hlist h
      rw [hlist] at hfuel
      obtain ⟨s', hrun⟩ := ih (s := ⟨heap, rest, s.freed ++ [q]⟩) hheld (Nat.lt_of_succ_lt_succ hfuel)
      exact ⟨s', (hstep fuel).trans hrun⟩

/-- In a critical context the loop goes round and round. -/
theorem deferredFreesProcess_critical (hctx : isSystemStateOk ctx = false) (hne : s.gcList ≠ [])
    (hzero : 0 ∉ s.gcList) (fuel : Nat) : deferredFreesProcess ctx fuel s = none := by
  induction fuel generalizing s with
  | zero => rfl
  | succ fuel ih =>
    rw [deferredFreesProcess]
    cases hlist : s.gcList with
    | nil => exact absurd hlist hne
    | cons q rest =>
      rw [hlist, List.mem_cons, not_or] at hzero
      dsimp only
      rw [free_critical hctx (Ne.symm hzero.1)]
      refine ih (by simp) ?_
      simp only [List.mem_append, List.mem_singleton, not_or]
      exact ⟨hzero.2, hzero.1⟩

/-! ## Calls of malloc -/

theorem malloc_normal (hkeeps : extendHandler.Keeps) (hctx : isSystemStateOk ctx = true)
    (h : Held s.heap (live ++ s.gcList))
    (heq : malloc extendHandler fuel ctx s size = some (s', p)) :
    s'.gcList = [] ∧ s'.freed = s.freed ++ s.gcList ∧
      Held s'.heap (if p = 0 then live else p :: live) := by
  obtain ⟨s₁, hprocess, heq⟩ := Option.bind_eq_some_iff.mp heq
  obtain ⟨hempty, hfreed, hheld⟩ := deferredFreesProcess_normal hctx h hprocess
  split at heq
  next =>
    obtain ⟨rfl, rfl⟩ := Prod.mk.inj (Option.some.inj heq)
    exact ⟨hempty, hfreed, hheld⟩
  next =>
    simp only [hctx, Bool.not_true, Bool.false_eq_true, if_false] at heq
    obtain ⟨⟨heap, q⟩, hallocate, heq⟩ := Option.bind_eq_some_iff.mp heq
    have hheld₁ := hheld.allocate hallocate
    dsimp only at heq
    split at heq
    next hq =>
      rw [if_pos hq] at hheld₁
      obtain ⟨hsame, hsameFreed, hheld₂⟩ := hkeeps.keeps _ live size s' p hheld₁ heq
      exact ⟨hsame.trans hempty, hsameFreed.trans hfreed, hheld₂⟩
    next hq =>
      obtain ⟨rfl, rfl⟩ := Prod.mk.inj (Option.some.inj heq)
      exact ⟨hempty, hfreed, hheld₁⟩

theorem malloc_isSome (hkeeps : extendHandler.Keeps) (hctx : isSystemStateOk ctx = true)
    (h : Held s.heap (live ++ s.gcList)) (size : Nat) :
    ∃ fuel result, malloc extendHandler fuel ctx s size = some result := by
  have hfuel : s.gcList.length < s.gcList.length + 2 ^ 32 := by omega
  obtain ⟨s₁, hprocess⟩ := deferredFreesProcess_isSome hctx h hfuel
  obtain ⟨-, -, hheld⟩ := deferredFreesProcess_normal hctx h hprocess
  refine ⟨s.gcList.length + 2 ^ 32, ?_⟩
  rw [malloc, hprocess]
  simp only [Option.bind_eq_bind, Option.bind_some, hctx, Bool.not_true, Bool.false_eq_true, if_false]
  split
  next => exact ⟨_, rfl⟩
  next =>
    obtain ⟨⟨heap, q⟩, hallocate⟩ :=
      hheld.allocate_isSome (Nat.le_add_left (2 ^ 32) s.gcList.length) size 0 0
    have hheld₁ := hheld.allocate hallocate
    rw [Heap.allocate, hallocate, Option.bind_some]
    dsimp only
    split
    next hq =>
      rw [if_pos hq] at hheld₁
      obtain ⟨s', p, heq⟩ := hkeeps.returns { s₁ with heap := heap } live size hheld₁
      exact ⟨_, heq⟩
    next => exact ⟨_, rfl⟩

/-- With nothing on the chain a call in a critical context has no effect. -/
theorem malloc_critical (hctx : isSystemStateOk ctx = false) (hempty : s.gcList = []) :
    malloc extendHandler (fuel + 1) ctx s size = some (s, 0) := by
  have hprocess : deferredFreesProcess ctx (fuel + 1) s = some s := by
    rw [deferredFreesProcess, hempty]
  rw [malloc, hprocess]
  simp [hctx]

theorem malloc_hangs (hctx : isSystemStateOk ctx = false) (hne : s.gcList ≠ [])
    (hzero : 0 ∉ s.gcList) : malloc extendHandler fuel ctx s size = none := by
  rw [malloc, deferredFreesProcess_critical hctx hne hzero]
  rfl

/-! ## Runs -/

/-- The C program heap, the areas that the program has, and all that it has freed. -/
structure System where
  state : State
  live : List Nat
  released : List Nat

inductive Call where
  | malloc (size : Nat)
  | free (ptr : Nat)
deriving DecidableEq, Repr

/-- A call that returns.  A program frees the null pointer and areas that it has. -/
inductive Step (extendHandler : ExtendHandler) (ctx : Context) (c : System) : Call → System → Prop where
  | malloc {fuel size p : Nat} {s' : State}
      (returns : malloc extendHandler fuel ctx c.state size = some (s', p)) :
      Step extendHandler ctx c (.malloc size) ⟨s', if p = 0 then c.live else p :: c.live, c.released⟩
  | free {ptr : Nat} (has : ptr ∈ c.live) :
      Step extendHandler ctx c (.free ptr)
        ⟨Malloc.free ctx c.state ptr, c.live.erase ptr, c.released ++ [ptr]⟩
  | freeNull : Step extendHandler ctx c (.free 0) c

/-- The runs with the system up, each call from its own context. -/
def Reachable (extendHandler : ExtendHandler) (c₀ : System) : System → Prop :=
  Relation.ReflTransGen
    (fun c c' => ∃ ctx call, ctx.systemStateIsUp = true ∧ Step extendHandler ctx c call c') c₀

/-- A heap that holds the areas of the program, and nothing freed yet. -/
structure Start (c : System) : Prop where
  held : Held c.state.heap c.live
  gcList : c.state.gcList = []
  freed : c.state.freed = []
  released : c.released = []

/-- What is freed is given back to the heap once or waits on the chain. -/
structure Inv (c : System) : Prop where
  held : Held c.state.heap (c.live ++ c.state.gcList)
  once : c.released.Perm (c.state.freed ++ c.state.gcList)

theorem Start.inv {c : System} (h : Start c) : Inv c where
  held := by
    rw [h.gcList, List.append_nil]
    exact h.held
  once := by
    rw [h.gcList, h.freed, h.released]
    exact List.Perm.nil

theorem Inv.zero_notMem {c : System} (h : Inv c) : 0 ∉ c.state.gcList :=
  fun hzero => h.held.ne_zero (List.mem_append_right _ hzero) rfl

/-- A call in a critical context returns only if the chain is empty, and then it has no effect. -/
theorem Inv.malloc_critical_eq {c : System} (h : Inv c) (hctx : isSystemStateOk ctx = false)
    (heq : malloc extendHandler fuel ctx c.state size = some (s', p)) :
    c.state.gcList = [] ∧ s' = c.state ∧ p = 0 := by
  have hempty : c.state.gcList = [] := by
    by_contra hne
    rw [malloc_hangs hctx hne h.zero_notMem] at heq
    cases heq
  cases fuel with
  | zero => cases heq
  | succ fuel =>
    rw [malloc_critical hctx hempty] at heq
    obtain ⟨rfl, rfl⟩ := Prod.mk.inj (Option.some.inj heq)
    exact ⟨hempty, rfl, rfl⟩

theorem Inv.step {c c' : System} {call : Call} (hkeeps : extendHandler.Keeps) (h : Inv c)
    (hstep : Step extendHandler ctx c call c') : Inv c' := by
  cases hstep with
  | freeNull => exact h
  | malloc heq =>
    cases hctx : isSystemStateOk ctx with
    | true =>
      obtain ⟨hempty, hfreed, hheld⟩ := malloc_normal hkeeps hctx h.held heq
      refine ⟨?_, ?_⟩
      · rw [hempty, List.append_nil]
        exact hheld
      · rw [hempty, hfreed, List.append_nil]
        exact h.once
    | false =>
      obtain ⟨-, rfl, rfl⟩ := h.malloc_critical_eq hctx heq
      exact h
  | @free ptr hptr =>
    have hmem : ptr ∈ c.live ++ c.state.gcList := List.mem_append_left _ hptr
    have hne := h.held.ne_zero hmem
    cases hctx : isSystemStateOk ctx with
    | true =>
      obtain ⟨heap, heq, -, hheld⟩ := h.held.free hmem
      rw [free_normal hctx hne, heq]
      refine ⟨?_, ?_⟩
      · rw [List.erase_append_left _ hptr] at hheld
        exact hheld
      · show (c.released ++ [ptr]).Perm (c.state.freed ++ [ptr] ++ c.state.gcList)
        rw [List.append_assoc]
        exact (List.perm_append_singleton _ _).trans
          ((h.once.cons ptr).trans List.perm_middle.symm)
    | false =>
      rw [free_critical hctx hne]
      refine ⟨h.held.perm ?_, ?_⟩
      · show (c.live ++ c.state.gcList).Perm (c.live.erase ptr ++ (c.state.gcList ++ [ptr]))
        rw [← List.append_assoc]
        exact ((List.perm_cons_erase hptr).append_right _).trans
          (List.perm_append_singleton _ _).symm
      · show (c.released ++ [ptr]).Perm (c.state.freed ++ (c.state.gcList ++ [ptr]))
        rw [← List.append_assoc]
        exact h.once.append_right _

theorem Reachable.inv {c₀ c : System} (hkeeps : extendHandler.Keeps) (h₀ : Start c₀)
    (hr : Reachable extendHandler c₀ c) : Inv c := by
  induction hr with
  | refl => exact h₀.inv
  | tail _ hstep ih =>
    obtain ⟨ctx, call, -, hstep⟩ := hstep
    exact ih.step hkeeps hstep

/-! ## Calls -/

/-- Where dispatching is enabled, `malloc` returns with all deferred areas given back to the heap, in
order, and `free` gives its area back.  Elsewhere `malloc` returns the null pointer and changes
nothing, and `free` puts its area on the chain. -/
def CallCorrect (extendHandler : ExtendHandler) (ctx : Context) (s : State) : Call → Prop
  | .malloc size =>
    (∃ fuel result, malloc extendHandler fuel ctx s size = some result) ∧
      ∀ fuel s' p, malloc extendHandler fuel ctx s size = some (s', p) →
        if ctx.dispatchIsEnabled then s'.gcList = [] ∧ s'.freed = s.freed ++ s.gcList
        else p = 0 ∧ s' = s
  | .free ptr => ptr ≠ 0 →
    if ctx.dispatchIsEnabled then
      (Heap.free s.heap ptr).2 = true ∧ (Malloc.free ctx s ptr).gcList = s.gcList ∧
        (Malloc.free ctx s ptr).freed = s.freed ++ [ptr]
    else Malloc.free ctx s ptr = { s with gcList := s.gcList ++ [ptr] }

/-- The call is not one of `malloc` in a critical context that finds areas on the chain. -/
def FindsNothing (ctx : Context) (s : State) : Call → Prop
  | .malloc _ => ctx.dispatchIsEnabled = true ∨ s.gcList = []
  | .free _ => True

/-- The program frees only areas that it has. -/
def Call.Allowed (live : List Nat) : Call → Prop
  | .malloc _ => True
  | .free ptr => ptr = 0 ∨ ptr ∈ live

theorem Inv.callCorrect_iff {c : System} (hkeeps : extendHandler.Keeps) (h : Inv c)
    (hup : ctx.systemStateIsUp = true) {call : Call} (hallowed : call.Allowed c.live) :
    CallCorrect extendHandler ctx c.state call ↔ FindsNothing ctx c.state call := by
  have hctx : isSystemStateOk ctx = ctx.dispatchIsEnabled := by simp [isSystemStateOk, hup]
  cases call with
  | malloc size =>
    simp only [CallCorrect, FindsNothing]
    cases henabled : ctx.dispatchIsEnabled with
    | true =>
      rw [henabled] at hctx
      refine ⟨fun _ => .inl rfl, fun _ => ⟨malloc_isSome hkeeps hctx h.held size, ?_⟩⟩
      intro fuel s' p heq
      obtain ⟨hempty, hfreed, -⟩ := malloc_normal hkeeps hctx h.held heq
      exact ⟨hempty, hfreed⟩
    | false =>
      rw [henabled] at hctx
      constructor
      · rintro ⟨⟨fuel, ⟨s', p⟩, heq⟩, -⟩
        exact .inr (h.malloc_critical_eq hctx heq).1
      · rintro (hfalse | hempty)
        · cases hfalse
        · refine ⟨⟨1, _, malloc_critical hctx hempty⟩, ?_⟩
          intro fuel s' p heq
          obtain ⟨-, rfl, rfl⟩ := h.malloc_critical_eq hctx heq
          exact ⟨rfl, rfl⟩
  | free ptr =>
    simp only [CallCorrect, FindsNothing, iff_true]
    intro hne
    have hptr : ptr ∈ c.live := hallowed.resolve_left hne
    cases henabled : ctx.dispatchIsEnabled with
    | true =>
      rw [henabled] at hctx
      obtain ⟨heap, heq, -, -⟩ := h.held.free (List.mem_append_left _ hptr)
      rw [free_normal hctx hne, heq]
      exact ⟨rfl, rfl, rfl⟩
    | false =>
      rw [henabled] at hctx
      exact free_critical hctx hne

/-- What was freed has been given back to the heap once or is still on the chain, and a call does what
it is to do if and only if it is no `malloc` in a critical context that finds areas on the chain. -/
theorem deferred_frees_iff {extendHandler : ExtendHandler} (hkeeps : extendHandler.Keeps)
    {c₀ c : System} (h₀ : Start c₀) (hr : Reachable extendHandler c₀ c) :
    c.released.Perm (c.state.freed ++ c.state.gcList) ∧
      ∀ ctx call, ctx.systemStateIsUp = true → call.Allowed c.live →
        (CallCorrect extendHandler ctx c.state call ↔ FindsNothing ctx c.state call) := by
  have h := hr.inv hkeeps h₀
  exact ⟨h.once, fun ctx call hup hallowed => h.callCorrect_iff hkeeps hup hallowed⟩

/-- A small heap, of which the program has nothing yet. -/
def fresh : System := ⟨⟨Heap.small, [], []⟩, [], []⟩

theorem fresh_start : Start fresh where
  held := by
    obtain ⟨all, hexact⟩ := Heap.small_started.sound
    exact hexact.areas
  gcList := rfl
  freed := rfl
  released := rfl

def normal : Context := ⟨true, true⟩

def critical : Context := ⟨true, false⟩

/-- An area is freed in a critical context, and the next `malloc` in a normal one gives it back to
the heap and returns it again. -/
theorem deferred_frees_iff_once : ∃ c, Reachable heapNullExtend fresh c ∧ c.released = [1008] ∧
    c.state.freed = [1008] ∧ c.state.gcList = [] ∧ c.live = [1008] ∧
      c.released.Perm (c.state.freed ++ c.state.gcList) ∧
        ∀ ctx call, ctx.systemStateIsUp = true → call.Allowed c.live →
          (CallCorrect heapNullExtend ctx c.state call ↔ FindsNothing ctx c.state call) := by
  have hfirst : ∃ s, malloc heapNullExtend 2 normal fresh.state 20 = some (s, 1008) ∧
      ∃ s', malloc heapNullExtend 2 normal (free critical s 1008) 8 = some (s', 1008) ∧
        s'.freed = [1008] ∧ s'.gcList = [] := ⟨_, rfl, _, rfl, rfl, rfl⟩
  obtain ⟨s, heq, s', heq', hfreed, hempty⟩ := hfirst
  have hmalloc : Step heapNullExtend normal fresh (.malloc 20) ⟨s, [1008], []⟩ := .malloc heq
  have hfree : Step heapNullExtend critical ⟨s, [1008], []⟩ (.free 1008)
      ⟨free critical s 1008, [], [1008]⟩ := .free List.mem_cons_self
  have hagain : Step heapNullExtend normal ⟨free critical s 1008, [], [1008]⟩ (.malloc 8)
      ⟨s', [1008], [1008]⟩ := .malloc (c := ⟨free critical s 1008, [], [1008]⟩) heq'
  have hr : Reachable heapNullExtend fresh ⟨s', [1008], [1008]⟩ :=
    ((Relation.ReflTransGen.single ⟨normal, _, rfl, hmalloc⟩).tail ⟨critical, _, rfl, hfree⟩).tail
      ⟨normal, _, rfl, hagain⟩
  exact ⟨_, hr, rfl, hfreed, hempty, rfl, deferred_frees_iff keeps_heapNullExtend fresh_start hr⟩

/-- An area is freed in a critical context, and the next `malloc` there never returns. -/
theorem malloc_hangs_critical : ¬ ∀ c₀ c : System, Start c₀ → Reachable heapNullExtend c₀ c →
    ∀ ctx call, ctx.systemStateIsUp = true → call.Allowed c.live →
      CallCorrect heapNullExtend ctx c.state call := by
  intro hall
  have hallocated : ∃ s', malloc heapNullExtend 2 normal fresh.state 20 = some (s', 1008) := ⟨_, rfl⟩
  obtain ⟨s', heq⟩ := hallocated
  have hmalloc : Step heapNullExtend normal fresh (.malloc 20) ⟨s', [1008], []⟩ := .malloc heq
  have hfree : Step heapNullExtend critical ⟨s', [1008], []⟩ (.free 1008)
      ⟨free critical s' 1008, [], [1008]⟩ := .free List.mem_cons_self
  have hr : Reachable heapNullExtend fresh ⟨free critical s' 1008, [], [1008]⟩ :=
    (Relation.ReflTransGen.single ⟨normal, _, rfl, hmalloc⟩).tail ⟨critical, _, rfl, hfree⟩
  have hne : (free critical s' 1008).gcList ≠ [] := by
    rw [free_critical rfl (by decide)]
    simp
  obtain ⟨⟨fuel, result, hreturns⟩, -⟩ := hall fresh _ fresh_start hr critical (.malloc 8) rfl trivial
  rw [malloc_hangs rfl hne (hr.inv keeps_heapNullExtend fresh_start).zero_notMem] at hreturns
  cases hreturns

end Rtems.Malloc
