import Rtems.Objects.Runs
import Rtems.RBTree.Find

/-!
# POSIX keys

The model of `key.c`, `keycreate.c`, `keydelete.c`, `keyfreememory.c`,
`keysetspecific.c` and `keygetspecific.c`, and of the freechain that the pairs
come from.  A pair of a key and a thread has a node in the lookup tree and a node
on the key chain of the thread, and stands for both.  The destructors, which run
when a thread exits, are a model of their own over this one.
-/

namespace Rtems.PosixKeys

/-- The address of a thread control, which is aligned to at least two. -/
structure Thread where
  addr : Nat
  pos : 0 < addr
  even : addr % 2 = 0
  bound : addr < 2 ^ 32
deriving DecidableEq

/-- `POSIX_Keys_Key_value_pair`.  The value `0` is `NULL`. -/
structure Pair where
  key : Nat
  thread : Option Thread
  value : Nat
deriving DecidableEq

/-- The conversion to `RBTree_Compare_result`. -/
def toResult (x : Int) : Int := Int.bmod x (2 ^ 32)

/-- `_POSIX_Keys_Key_value_compare`. -/
def keyValueCompare (n1 n2 : Pair) : Int :=
  let diff := toResult ((n1.key : Int) - n2.key)
  if diff ≠ 0 then diff
  else
    match n1.thread, n2.thread with
    | some thread1, some thread2 =>
      toResult (((thread1.addr >>> 1 : Nat) : Int) - (thread2.addr >>> 1 : Nat))
    | _, _ => 0

/-- The keys, their pairs and the memory of the pairs. -/
structure Keys where
  /-- `_POSIX_Keys_Information`, whose objects are the key controls. -/
  information : Objects.Information
  /-- `auto_extend` of the information. -/
  autoExtend : Bool
  /-- `_POSIX_Keys_Key_value_lookup_tree`, with its control at `none`. -/
  lookupTree : RBTree.State (Option Nat)
  pair : Nat → Pair
  /-- `Key_Chain` of each thread. -/
  chain : Thread → List Nat
  /-- `_POSIX_Keys_Keypool`. -/
  keypool : List Nat
  /-- `_POSIX_Keys_Get_keypool_bump_count`. -/
  bumpCount : Nat

inductive Errno where
  | success
  | eagain
  | einval
  | enomem
deriving DecidableEq, Repr

/-! ## Pairs -/

/-- The comparison of the nodes of the lookup tree. -/
def Keys.compare (s : Keys) : RBTree.Compare (Option Nat)
  | some n1, some n2 => keyValueCompare (s.pair n1) (s.pair n2)
  | _, _ => 0

/-- `_POSIX_Keys_Find`. -/
def find (fuel : Nat) (s : Keys) (key : Nat) (thread : Option Thread) : Option (Option Nat) := do
  let searchNode : Pair := { key := key, thread := thread, value := 0 }
  let node ← RBTree.find fuel s.lookupTree none
    (fun n => (n.map fun n => keyValueCompare searchNode (s.pair n)).getD 0) true
  some node.join

/-- `_POSIX_Keys_Key_value_pair_allocate`: the first pair of the pool, which is
filled again if it is empty and there is `memory` for `bumpCount` pairs. -/
def keyValuePairAllocate (s : Keys) (memory : Option Nat) : Keys × Option Nat :=
  let s :=
    if s.keypool = [] ∧ s.bumpCount > 0 then
      { s with
        keypool := match memory with
          | some base => (List.range s.bumpCount).map (base + ·)
          | none => [] }
    else s
  match s.keypool with
  | [] => (s, none)
  | p :: rest => ({ s with keypool := rest }, some p)

/-- `_POSIX_Keys_Free_key_value_pair`. -/
def freeKeyValuePair (fuel : Nat) (s : Keys) (p : Nat) : Option Keys := do
  let lookupTree ← RBTree.extract fuel s.lookupTree none (some p)
  some
    { s with
      lookupTree := lookupTree
      chain := fun t => (s.chain t).erase p
      keypool := p :: s.keypool }

/-- The loop of `_POSIX_Keys_Free_memory` that looks for the smallest node of a
key. -/
def smallest (fuel : Nat) (s : Keys) (keyId : Nat) : Nat → Nat → Option Nat
  | 0, _ => none
  | n + 1, iter => do
      match (← RBTree.next fuel s.lookupTree (some iter) .left).join with
      | none => some iter
      | some next => if (s.pair next).key = keyId then smallest fuel s keyId n next else some iter

/-- The loop of `_POSIX_Keys_Free_memory` that deletes the nodes of a key. -/
def deleteAll (fuel : Nat) (keyId : Nat) : Nat → Keys → Option Nat → Option Keys
  | _, s, none => some s
  | 0, _, some _ => none
  | n + 1, s, some iter =>
    if (s.pair iter).key = keyId then do
      let next ← RBTree.next fuel s.lookupTree (some iter) .right
      let s ← freeKeyValuePair fuel s iter
      deleteAll fuel keyId n s next.join
    else some s

/-- `_POSIX_Keys_Free_memory`. -/
def freeMemory (fuel : Nat) (s : Keys) (keyId : Nat) : Option Keys := do
  match ← find fuel s keyId none with
  | none => some s
  | some iter => deleteAll fuel keyId fuel s (some (← smallest fuel s keyId fuel iter))

/-! ## Key controls -/

/-- `_POSIX_Keys_Allocate`. -/
def allocate (s : Keys) (w : Objects.Workspace) : Objects.Information × Option Objects.Obj :=
  if s.autoExtend then Objects.allocate s.information w
  else
    match s.information.inactiveChain with
    | [] => (s.information, none)
    | o :: rest =>
      ({ s.information with
          inactiveChain := rest
          status := Function.update s.information.status o .allocated }, some o)

/-- `_POSIX_Keys_Free`. -/
def free (s : Keys) (o : Objects.Obj) : Objects.Information :=
  if s.autoExtend then Objects.free s.information o
  else
    { s.information with
      inactiveChain := s.information.inactiveChain ++ [o]
      status := Function.update s.information.status o .inactive }

/-! ## The services -/

/-- `pthread_key_create`, with the key if there is one. -/
def keyCreate (s : Keys) (w : Objects.Workspace) : Keys × Option Nat :=
  match allocate s w with
  | (information, none) => ({ s with information := information }, none)
  | (information, some theKey) =>
    ({ s with information := Objects.openObject information theKey },
      some (information.ids theKey))

/-- `pthread_key_delete`. -/
def keyDelete (fuel : Nat) (s : Keys) (key : Nat) : Option (Keys × Errno) :=
  match Objects.get s.information key with
  | none => some (s, .einval)
  | some theKey => do
      let s ← freeMemory fuel s (s.information.ids theKey)
      some ({ s with information := free s theKey }, .success)

/-- `_POSIX_Keys_Set_value`. -/
def setValue (fuel : Nat) (s : Keys) (key value : Nat) (executing : Thread) (rbNode : Option Nat)
    (memory : Option Nat) : Option (Keys × Errno) :=
  match rbNode with
  | some p =>
    some ({ s with pair := Function.update s.pair p { s.pair p with value := value } }, .success)
  | none =>
    match keyValuePairAllocate s memory with
    | (s, none) => some (s, .enomem)
    | (s, some p) => do
        let s := { s with
          pair := Function.update s.pair p { key := key, thread := some executing, value := value } }
        let (lookupTree, _) ← RBTree.insert fuel s.lookupTree none (some p) s.compare true
        some
          ({ s with
              lookupTree := lookupTree
              chain := Function.update s.chain executing (s.chain executing ++ [p]) }, .success)

/-- `_POSIX_Keys_Delete_value`. -/
def deleteValue (fuel : Nat) (s : Keys) (rbNode : Option Nat) : Option (Keys × Errno) :=
  match rbNode with
  | some p => do some (← freeKeyValuePair fuel s p, .success)
  | none => some (s, .success)

/-- `pthread_setspecific`. -/
def setspecific (fuel : Nat) (s : Keys) (executing : Thread) (key value : Nat)
    (memory : Option Nat) : Option (Keys × Errno) :=
  match Objects.get s.information key with
  | none => some (s, .einval)
  | some _ => do
      let rbNode ← find fuel s key (some executing)
      if value ≠ 0 then setValue fuel s key value executing rbNode memory
      else deleteValue fuel s rbNode

/-- `pthread_getspecific`. -/
def getspecific (fuel : Nat) (s : Keys) (executing : Thread) (key : Nat) : Option Nat :=
  match Objects.get s.information key with
  | none => some 0
  | some _ => do
      match ← find fuel s key (some executing) with
      | some p => some (s.pair p).value
      | none => some 0

section

variable {s : Keys} {fuel key value : Nat} {executing : Thread} {memory : Option Nat}
  {theKey : Objects.Obj}

-- These three are equations of functions: between results, the kernel evaluates the match on
-- `Objects.get`.
theorem keyDelete_def : keyDelete = fun fuel s key =>
    (match Objects.get s.information key with
    | none => some (s, .einval)
    | some theKey => do
        let s ← freeMemory fuel s (s.information.ids theKey)
        some ({ s with information := free s theKey }, .success)) :=
  rfl

theorem setspecific_def : setspecific = fun fuel s executing key value memory =>
    (match Objects.get s.information key with
    | none => some (s, .einval)
    | some _ => do
        let rbNode ← find fuel s key (some executing)
        if value ≠ 0 then setValue fuel s key value executing rbNode memory
        else deleteValue fuel s rbNode) :=
  rfl

theorem getspecific_def : getspecific = fun fuel s executing key =>
    (match Objects.get s.information key with
    | none => some 0
    | some _ => do
        match ← find fuel s key (some executing) with
        | some p => some (s.pair p).value
        | none => some 0) :=
  rfl

theorem keyDelete_none (h : Objects.get s.information key = none) :
    keyDelete fuel s key = some (s, .einval) := by
  rw [keyDelete_def]
  beta_reduce
  rw [h]

theorem keyDelete_some (h : Objects.get s.information key = some theKey) :
    keyDelete fuel s key = (freeMemory fuel s (s.information.ids theKey)).bind fun s =>
      some ({ s with information := free s theKey }, .success) := by
  rw [keyDelete_def]
  beta_reduce
  rw [h]
  rfl

theorem setspecific_none (h : Objects.get s.information key = none) :
    setspecific fuel s executing key value memory = some (s, .einval) := by
  rw [setspecific_def]
  beta_reduce
  rw [h]

theorem setspecific_some (h : Objects.get s.information key = some theKey) :
    setspecific fuel s executing key value memory =
      (find fuel s key (some executing)).bind fun rbNode =>
        if value ≠ 0 then setValue fuel s key value executing rbNode memory
        else deleteValue fuel s rbNode := by
  rw [setspecific_def]
  beta_reduce
  rw [h]
  rfl

theorem getspecific_none (h : Objects.get s.information key = none) :
    getspecific fuel s executing key = some 0 := by
  rw [getspecific_def]
  beta_reduce
  rw [h]

theorem getspecific_some (h : Objects.get s.information key = some theKey) :
    getspecific fuel s executing key = (find fuel s key (some executing)).bind fun found =>
      match found with
      | some p => some (s.pair p).value
      | none => some 0 := by
  rw [getspecific_def]
  beta_reduce
  rw [h]
  rfl

end

/-! ## The finite map -/

/-- The live keys, and the values that the threads have set last. -/
structure KeyMap where
  live : List Nat
  value : Nat → Thread → Nat

inductive Event where
  | create (w : Objects.Workspace)
  | delete (key : Nat)
  | setspecific (executing : Thread) (key value : Nat) (memory : Option Nat)
  | getspecific (executing : Thread) (key : Nat)

inductive Result where
  | created (key : Option Nat)
  | errno (e : Errno)
  | value (value : Nat)
deriving DecidableEq, Repr

/-- What an event that had this result does to the map. -/
def KeyMap.update (m : KeyMap) : Event → Result → KeyMap
  | .create _, .created (some key) =>
    { live := key :: m.live, value := Function.update m.value key fun _ => 0 }
  | .delete key, .errno .success => { m with live := m.live.filter (· ≠ key) }
  | .setspecific executing key value _, .errno .success =>
    { m with
      value := Function.update m.value key (Function.update (m.value key) executing value) }
  | _, _ => m

/-! ## Runs -/

def Event.run (fuel : Nat) (s : Keys) : Event → Option (Keys × Result)
  | .create w => some ((keyCreate s w).1, .created (keyCreate s w).2)
  | .delete key => do
      let (s, e) ← keyDelete fuel s key
      some (s, .errno e)
  | .setspecific executing key value memory => do
      let (s, e) ← PosixKeys.setspecific fuel s executing key value memory
      some (s, .errno e)
  | .getspecific executing key => do
      some (s, .value (← PosixKeys.getspecific fuel s executing key))

/-- A computation with a bound on the turns of its loops comes to its end. -/
def Returns {α : Type} (f : Nat → Option α) (a : α) : Prop := ∃ fuel, f fuel = some a

/-- The keys, and the map that they stand for. -/
structure System where
  keys : Keys
  map : KeyMap

/-- The workspace hands out memory that is not in use, and keys are numbers of
32 bits. -/
def Event.Enabled (s : Keys) : Event → Prop
  | .create w => (Objects.Op.allocate w).Enabled s.information
  | .delete key => key < 2 ^ 32
  | .setspecific _ key _ memory => key < 2 ^ 32 ∧
      ∀ base, memory = some base → ∀ i < s.bumpCount, ¬ RBTree.InTree s.lookupTree none (some (base + i))
  | .getspecific _ key => key < 2 ^ 32

/-- Nobody deletes a key that is deleted, or sets a value of it, and an extension
of the key controls does not have to grow tables that hold a single one. -/
def Proper (s : System) : Event → Prop
  | .create w => s.keys.autoExtend = true → s.keys.information.inactiveChain = [] →
      Objects.KeepsTables s.keys.information w
  | .delete key => Objects.get s.keys.information key ≠ none → key ∈ s.map.live
  | .setspecific _ key value _ => value ≠ 0 → Objects.get s.keys.information key ≠ none →
      key ∈ s.map.live
  | .getspecific _ _ => True

/-- A run of events, each of which meets the side condition `ok`. -/
inductive Runs (ok : System → Event → Prop) (s₀ : System) : List Event → System → Prop where
  | nil : Runs ok s₀ [] s₀
  | snoc {events : List Event} {s : System} {e : Event} {keys : Keys} {r : Result} :
      Runs ok s₀ events s → e.Enabled s.keys → ok s e →
        Returns (e.run · s.keys) (keys, r) →
          Runs ok s₀ (events ++ [e]) { keys := keys, map := s.map.update e r }

/-- `_POSIX_Key_Manager_initialization`, with the memory that it finds and that it
gets.  A system without keys is one whose first extension gets no memory. -/
def keyManagerInitialization (high allocationSize : Nat) (w : Objects.Workspace) (autoExtend : Bool)
    (memory : RBTree.State (Option Nat)) (pair : Nat → Pair) (base poolSize bumpCount : Nat) :
    System where
  keys :=
    { information := Objects.initializeInformation high allocationSize w
      autoExtend := autoExtend
      lookupTree := RBTree.initializeEmpty memory none
      pair := pair
      chain := fun _ => []
      keypool := (List.range poolSize).map (base + ·)
      bumpCount := bumpCount }
  map := { live := [], value := fun _ _ => 0 }

/-- The pair is in the lookup tree. -/
def Keys.InTree (s : Keys) (p : Nat) : Prop := RBTree.InTree s.lookupTree none (some p)

/-- The keys stand for the map. -/
structure Refines (s : System) : Prop where
  /-- Every service comes to its end, and has one result. -/
  total : ∀ e : Event, e.Enabled s.keys → Proper s e → ∃ r, Returns (e.run · s.keys) r ∧
    ∀ r', Returns (e.run · s.keys) r' → r' = r
  /-- A new key is no live one. -/
  create : ∀ w key, (Event.create w).Enabled s.keys → Proper s (.create w) →
    (keyCreate s.keys w).2 = some key → key ∉ s.map.live
  get : ∀ key ∈ s.map.live, ∀ t, Returns (getspecific · s.keys t key) (s.map.value key t)
  set : ∀ t key value memory keys e, Returns (setspecific · s.keys t key value memory) (keys, e) →
    e ≠ .success → keys = s.keys
  delete : ∀ key ∈ s.map.live, ∃ keys, Returns (keyDelete · s.keys key) (keys, .success) ∧
    keys.pair = s.keys.pair ∧
    (∀ p, keys.InTree p ↔ s.keys.InTree p ∧ (s.keys.pair p).key ≠ key) ∧
    ∀ t, keys.chain t = (s.keys.chain t).filter fun p => (s.keys.pair p).key ≠ key
  /-- The tree and the chains have the same pairs. -/
  chains : ∀ p, s.keys.InTree p ↔ ∃ t, p ∈ s.keys.chain t
  thread : ∀ t, ∀ p ∈ s.keys.chain t, (s.keys.pair p).thread = some t
  nodup : ∀ t, (s.keys.chain t).Nodup
  once : ∀ p q, s.keys.InTree p → s.keys.InTree q → (s.keys.pair p).key = (s.keys.pair q).key →
    (s.keys.pair p).thread = (s.keys.pair q).thread → p = q

end Rtems.PosixKeys
