import Rtems.Bdbuf.Selection

/-!
# The requests of a swapout

The buffers of a transfer go to the device in batches.  A batch that has come to its end leaves its
buffers on the list of least recently used buffers, or to the tasks that wait for them, and does
not touch the buffers that are still to be written.
-/

namespace Rtems.Bdbuf

open Lib

variable {Bd Dev : Type} [DecidableEq Bd] [LinearOrder Dev] {s s' : Cache Bd Dev}
  {lists : ChainName → List Bd} {bd : Bd} {bds t : List Bd} {turns : ℕ} {sc : StatusCode}

/-! ## The tree -/

/-- The tree has these buffers, and is low enough for its functions. -/
def Filed (s : Cache Bd Dev) (bds : List Bd) : Prop :=
  ∃ t, Holds s.tree t ∧ t.toList.length < Avl.Tree.minSize (avlMaxHeight + 1) ∧ ∀ bd ∈ bds, bd ∈ t.toList

section

omit [DecidableEq Bd]

theorem Filed.congr (h : Filed s bds) (htree : s'.tree = s.tree) : Filed s' bds := by
  rw [Filed, htree]
  exact h

theorem Filed.mono {bds' : List Bd} (h : Filed s bds) (hsub : ∀ bd ∈ bds', bd ∈ bds) :
    Filed s bds' := by
  obtain ⟨t, ht, hsize, hmem⟩ := h
  exact ⟨t, ht, hsize, fun bd hbd => hmem bd (hsub bd hbd)⟩

theorem height_le_of_size {tree : Avl.Tree Bd} (h : tree.Balanced)
    (hsize : tree.toList.length < Avl.Tree.minSize (avlMaxHeight + 1)) : tree.height ≤ avlMaxHeight := by
  by_contra hhigh
  have hmono : Avl.Tree.minSize (avlMaxHeight + 1) ≤ Avl.Tree.minSize tree.height :=
    Avl.Tree.minSize_mono (Nat.lt_of_not_le hhigh)
  have hle := Avl.Tree.minSize_height_le h
  omega

/-- Two buffers of the tree have different keys. -/
theorem Holds.key_inj {nodes : Nodes Bd Dev} {tree : Avl.Tree Bd} (h : Holds nodes tree) {x y : Bd}
    (hx : x ∈ tree.toList) (hy : y ∈ tree.toList) (hkey : keyOf nodes x = keyOf nodes y) : x = y := by
  have hkeys : (tree.toList.map (keyOf nodes)).Nodup := by
    rw [List.Nodup, List.pairwise_map]
    exact h.sorted.imp ne_of_lt
  exact List.inj_on_of_nodup_map hkeys hx hy hkey

end

/-- A buffer of the tree can be removed, and the others stay. -/
theorem Filed.removeFromTree (h : Filed s (bd :: bds)) (hbd : bd ∉ bds)
    (hturns : avlMaxHeight ≤ turns) :
    ∃ tree, Bdbuf.removeFromTree turns s bd = some { s with tree := tree } ∧
      tree.dd = s.tree.dd ∧ tree.block = s.tree.block ∧ Filed { s with tree := tree } bds := by
  obtain ⟨t, ht, hsize, hmem⟩ := h
  have hheight := height_le_of_size ht.balanced hsize
  have hbdt := hmem bd List.mem_cons_self
  rcases ht.remove (hheight.trans hturns) hheight bd with ⟨hnone, -⟩ | ⟨u, hu, tree, heq, hholds, hwithin⟩
  · exact absurd rfl ((Avl.remove_eq_none ht.sorted).mp hnone bd hbdt)
  · obtain ⟨xs, x, ys, hkey, hxs, hus⟩ := Avl.toList_remove hu
    have hx : x = bd := ht.key_inj (by simp [hxs]) hbdt hkey
    subst hx
    refine ⟨tree, by simp [Bdbuf.removeFromTree, heq], hwithin.dd, hwithin.block, u, hholds, ?_, ?_⟩
    · rw [hxs] at hsize
      rw [hus]
      simp only [List.length_append, List.length_cons] at hsize ⊢
      omega
    · intro z hz
      have hzt := hmem z (List.mem_cons_of_mem _ hz)
      have hne : z ≠ x := ne_of_mem_of_not_mem hz hbd
      rw [hxs] at hzt
      rw [hus]
      simpa [hne] using hzt

/-! ## The completion of a transfer -/

/-- What a completed transfer does not change. -/
structure SameBlocks (s s' : Cache Bd Dev) : Prop where
  dd : s'.tree.dd = s.tree.dd
  block : s'.tree.block = s.tree.block
  buffer : s'.buffer = s.buffer

section

omit [DecidableEq Bd] [LinearOrder Dev]

theorem SameBlocks.refl (s : Cache Bd Dev) : SameBlocks s s := ⟨rfl, rfl, rfl⟩

theorem SameBlocks.trans {s'' : Cache Bd Dev} (h : SameBlocks s s') (h' : SameBlocks s' s'') :
    SameBlocks s s'' := ⟨h'.dd.trans h.dd, h'.block.trans h.block, h'.buffer.trans h.buffer⟩

end

/-- A buffer has left the transfer: it is on the list of least recently used buffers, or nowhere. -/
structure Left (s s' : Cache Bd Dev) (lists : ChainName → List Bd) (bds rest : List Bd) : Prop where
  same : SameBlocks s s'
  actions : s'.actions = s.actions
  filed : Filed s' rest
  chained : ∃ lru, Chained s' (Function.update lists .lru lru) ∧
    ∀ x ∈ lru, x ∈ bds ∨ x ∈ lists .lru

theorem finishBuffer_spec (sc : StatusCode) (h : Chained s lists) (hout : ∀ c, bd ∉ lists c)
    (hfiled : Filed s (bd :: bds)) (hbd : bd ∉ bds) (hturns : avlMaxHeight ≤ turns) :
    ∃ s', finishBuffer turns sc s bd = some s' ∧ Left s s' lists [bd] bds := by
  have hrest := hfiled.mono fun x hx => List.mem_cons_of_mem bd hx
  rw [finishBuffer]
  split
  next =>
    have happend := Chained.append (s := (s.groupRelease bd).setState bd .cached) (h.congr rfl) .lru hout
    refine ⟨_, rfl, ⟨rfl, rfl, rfl⟩, rfl, hrest.congr rfl, _, happend, ?_⟩
    intro x hx
    rcases List.mem_append.mp hx with hold | hnew
    · exact .inr hold
    · exact .inl hnew
  next =>
    rw [discardBuffer]
    split
    next =>
      have hfiled' : Filed ((s.groupRelease bd).setState bd .empty) (bd :: bds) := hfiled.congr rfl
      obtain ⟨tree, heq, hdd, hblock, hremoved⟩ := hfiled'.removeFromTree hbd hturns
      rw [heq]
      have hprepend := Chained.prepend (s := { (s.groupRelease bd).setState bd .empty with
        tree := tree }.setState bd .free) (h.congr rfl) .lru hout
      refine ⟨_, rfl, ⟨hdd, hblock, rfl⟩, rfl, hremoved.congr rfl, _, hprepend, ?_⟩
      intro x hx
      rcases List.mem_cons.mp hx with rfl | hold
      · exact .inl (List.mem_singleton_self x)
      · exact .inr hold
    next =>
      have hsame : Function.update lists .lru (lists .lru) = lists := Function.update_eq_self _ _
      refine ⟨_, rfl, ⟨rfl, rfl, rfl⟩, rfl, hrest.congr rfl, lists .lru, ?_, fun x hx => .inr hx⟩
      rw [hsame]
      exact h.congr rfl

theorem finishBuffers_spec (sc : StatusCode) (bds rest : List Bd) (h : Chained s lists)
    (hout : ∀ bd ∈ bds, ∀ c, bd ∉ lists c) (hfiled : Filed s (bds ++ rest))
    (hnodup : (bds ++ rest).Nodup) (hturns : avlMaxHeight ≤ turns) :
    ∃ s', finishBuffers turns sc s bds = some s' ∧ Left s s' lists bds rest := by
  induction bds generalizing s lists with
  | nil =>
    have hsame : Function.update lists .lru (lists .lru) = lists := Function.update_eq_self _ _
    refine ⟨s, rfl, .refl s, rfl, hfiled, lists .lru, ?_, fun x hx => .inr hx⟩
    rw [hsame]
    exact h
  | cons bd bds ih =>
    obtain ⟨hbd, hnodup⟩ := List.nodup_cons.mp hnodup
    obtain ⟨s₁, heq, hsame, hactions, hfiled₁, lru, hchained, hlru⟩ :=
      finishBuffer_spec sc h (hout bd List.mem_cons_self) hfiled hbd hturns
    have hout₁ : ∀ x ∈ bds, ∀ c, x ∉ Function.update lists .lru lru c := by
      intro x hx c
      have hxbd : x ≠ bd := by
        rintro rfl
        exact hbd (List.mem_append_left _ hx)
      by_cases hc : c = .lru
      · rw [hc, Function.update_self]
        intro hmem
        rcases hlru x hmem with hnew | hold
        · exact hxbd (List.mem_singleton.mp hnew)
        · exact hout x (List.mem_cons_of_mem _ hx) .lru hold
      · rw [Function.update_of_ne hc]
        exact hout x (List.mem_cons_of_mem _ hx) c
    obtain ⟨s', heq', hsame', hactions', hfiled', lru', hchained', hlru'⟩ :=
      ih hchained hout₁ hfiled₁ hnodup
    rw [Function.update_idem] at hchained'
    refine ⟨s', by simp [finishBuffers, heq, heq'], hsame.trans hsame', hactions'.trans hactions,
      hfiled', lru', hchained', ?_⟩
    intro x hx
    rcases hlru' x hx with hmem | hmem
    · exact .inl (List.mem_cons_of_mem _ hmem)
    · rw [Function.update_self] at hmem
      rcases hlru x hmem with hnew | hold
      · exact .inl (List.mem_cons.mpr (.inl (List.mem_singleton.mp hnew)))
      · exact .inr hold

/-- The requests among the actions. -/
def requests (actions : List (Action Bd Dev)) : List (Dev × Request Bd) :=
  actions.filterMap fun
    | .request dd req => some (dd, req)
    | _ => none

section

omit [DecidableEq Bd] [LinearOrder Dev]

@[simp]
theorem requests_append (actions actions' : List (Action Bd Dev)) :
    requests (actions ++ actions') = requests actions ++ requests actions' := by
  simp [requests]

end

variable {cfg : Setup Bd Dev} {dd : Dev} {req : Request Bd}

section

omit [DecidableEq Bd] [LinearOrder Dev]

/-- Waking tasks changes neither the buffers nor the requests. -/
theorem wakeWaiters_same (s : Cache Bd Dev) (wakeTransfer wakeBuffer : Bool) :
    (wakeWaiters s wakeTransfer wakeBuffer).links = s.links ∧
      (wakeWaiters s wakeTransfer wakeBuffer).tree = s.tree ∧
      (wakeWaiters s wakeTransfer wakeBuffer).buffer = s.buffer ∧
      requests (wakeWaiters s wakeTransfer wakeBuffer).actions = requests s.actions := by
  by_cases htransfer : 0 < s.transferWaiters
  · by_cases hbuffer : 0 < s.bufferWaiters <;> cases wakeTransfer <;> cases wakeBuffer <;>
      simp [wakeWaiters, Cache.wake, Cache.act, requests, htransfer, hbuffer]
  · by_cases hbuffer : 0 < s.bufferWaiters <;> cases wakeTransfer <;> cases wakeBuffer <;>
      simp [wakeWaiters, Cache.wake, Cache.act, requests, htransfer, hbuffer]

end

theorem executeTransferRequest_spec (cfg : Setup Bd Dev) (dd : Dev) (req : Request Bd)
    (rest : List Bd) (h : Chained s lists)
    (hout : ∀ bd ∈ req.bufs.map SgBuffer.user, ∀ c, bd ∉ lists c)
    (hfiled : Filed s (req.bufs.map SgBuffer.user ++ rest))
    (hnodup : (req.bufs.map SgBuffer.user ++ rest).Nodup) (hturns : avlMaxHeight ≤ turns) :
    ∃ s' sc, executeTransferRequest cfg turns s dd req = some (s', sc) ∧ SameBlocks s s' ∧
      requests s'.actions = requests s.actions ++ [(dd, req)] ∧ Filed s' rest ∧
      ∃ lru, Chained s' (Function.update lists .lru lru) ∧
        ∀ x ∈ lru, x ∈ req.bufs.map SgBuffer.user ∨ x ∈ lists .lru := by
  have hchained : Chained ((s.act (.request dd req)).countTransfer dd req
      (cfg.answer s.actions dd req)) lists := h.congr rfl
  obtain ⟨s₁, heq, hsame, hactions, hfiled₁, lru, hchained₁, hlru⟩ :=
    finishBuffers_spec (cfg.answer s.actions dd req) (req.bufs.map SgBuffer.user) rest hchained hout
      (hfiled.congr rfl) hnodup hturns
  simp only [executeTransferRequest, heq, Option.bind_eq_bind, Option.bind_some]
  generalize (req.bufs.map SgBuffer.user).any _ = wakeTransfer
  generalize (req.bufs.map SgBuffer.user).any _ = wakeBuffer
  obtain ⟨hlinks, htree, hbuffer, hrequests⟩ := wakeWaiters_same s₁ wakeTransfer wakeBuffer
  refine ⟨_, _, rfl, ⟨?_, ?_, ?_⟩, ?_, hfiled₁.congr htree, lru, hchained₁.congr hlinks, hlru⟩
  · rw [htree]
    exact hsame.dd
  · rw [htree]
    exact hsame.block
  · rw [hbuffer]
    exact hsame.buffer
  · rw [hrequests, hactions]
    simp [Cache.countTransfer, Cache.act, requests]

/-! ## The loop over the chain of the transfer -/

/-- A block follows another one as the device wants it. -/
def Follows (cfg : Setup Bd Dev) (dd : Dev) (a b : SgBuffer Bd) : Prop :=
  b.block = add32 a.block (cfg.disk dd).mediaBlocksPerBlock

/-- A request as the device may get it. -/
structure Batch (cfg : Setup Bd Dev) (dd : Dev) (req : Request Bd) : Prop where
  write : req.req = .write
  nonempty : req.bufs ≠ []
  length_le : req.bufs.length ≤ cfg.maxWriteBlocks
  row : (cfg.disk dd).multisectorCont = true → req.bufs.IsChain (Follows cfg dd)

variable {lastBlock fuel : ℕ} {bufs : List (SgBuffer Bd)}

/-- Some buffers are in the request under way, and others wait for a request. -/
structure Writing (cfg : Setup Bd Dev) (dd : Dev) (s : Cache Bd Dev) (lists : ChainName → List Bd)
    (lastBlock : ℕ) (bufs : List (SgBuffer Bd)) (t : List Bd) : Prop where
  chained : Chained s lists
  waiting : lists .transfer = t
  nodup : (bufs.map SgBuffer.user ++ t).Nodup
  out : ∀ bd ∈ bufs.map SgBuffer.user, ∀ c, bd ∉ lists c
  filed : Filed s (bufs.map SgBuffer.user ++ t)
  last : ∀ b ∈ bufs.getLast?, b.block = lastBlock
  row : (cfg.disk dd).multisectorCont = true → bufs.IsChain (Follows cfg dd)

theorem Writing.getTransfer (h : Writing cfg dd s lists lastBlock bufs (bd :: t)) :
    Bdbuf.getTransfer s = some (bd, s.extract bd) := by
  simp only [Bdbuf.getTransfer, h.chained.next_control, h.waiting, firstNode_cons]

theorem Writing.getTransfer_nil (h : Writing cfg dd s lists lastBlock bufs []) :
    Bdbuf.getTransfer s = none := by
  simp only [Bdbuf.getTransfer, h.chained.next_control, h.waiting, firstNode_nil]

/-- The next buffer does not follow the last one of the request. -/
def Breaks (cfg : Setup Bd Dev) (dd : Dev) (s : Cache Bd Dev) (lastBlock : ℕ)
    (bufs : List (SgBuffer Bd)) (bd : Bd) : Prop :=
  (cfg.disk dd).multisectorCont = true ∧ bufs ≠ [] ∧
    s.tree.block bd ≠ add32 lastBlock (cfg.disk dd).mediaBlocksPerBlock

instance : Decidable (Breaks cfg dd s lastBlock bufs bd) := inferInstanceAs (Decidable (_ ∧ _ ∧ _))

/-- The next buffer goes into the request. -/
theorem Writing.take (h : Writing cfg dd s lists lastBlock bufs (bd :: t))
    (hrow : ¬ Breaks cfg dd s lastBlock bufs bd) :
    Writing cfg dd (s.extract bd) (Function.update lists .transfer t) (s.tree.block bd)
      (bufs ++ [sgBuffer cfg s dd bd]) t := by
  have hlist : lists .transfer = [] ++ bd :: t := h.waiting
  have hextract := h.chained.extract hlist
  have husers : (bufs ++ [sgBuffer cfg s dd bd]).map SgBuffer.user ++ t =
      bufs.map SgBuffer.user ++ bd :: t := by
    simp [sgBuffer]
  refine ⟨hextract, Function.update_self _ _ _, ?_, ?_, ?_, by simp [sgBuffer], ?_⟩
  · rw [husers]
    exact h.nodup
  · intro x hx c hmem
    simp only [List.map_append, List.mem_append, List.map_cons, List.map_nil, List.mem_singleton]
      at hx
    by_cases hc : c = .transfer
    · rw [hc, Function.update_self] at hmem
      have hxt : x ∈ lists .transfer := by
        rw [h.waiting]
        exact List.mem_cons_of_mem _ hmem
      rcases hx with hold | rfl
      · exact h.out x hold .transfer hxt
      · have hnodup := h.chained.nodup .transfer
        rw [h.waiting] at hnodup
        exact (List.nodup_cons.mp hnodup).1 hmem
    · rw [Function.update_of_ne hc] at hmem
      rcases hx with hold | hbd
      · exact h.out x hold c hmem
      · have hwait : x ∈ lists .transfer := by
          rw [h.waiting, hbd]
          exact List.mem_cons_self
        exact h.chained.apart (Ne.symm hc) hwait hmem
  · rw [husers]
    exact h.filed.congr rfl
  · intro hcont
    rw [List.isChain_append]
    refine ⟨h.row hcont, .singleton _, ?_⟩
    intro a ha b hb
    obtain rfl : sgBuffer cfg s dd bd = b := by simpa using hb
    have hne : bufs ≠ [] := by
      rintro rfl
      cases ha
    have hblock : s.tree.block bd = add32 lastBlock (cfg.disk dd).mediaBlocksPerBlock := by
      by_contra hbreak
      exact hrow ⟨hcont, hne, hbreak⟩
    rw [Follows, h.last a ha]
    exact hblock

/-- The next buffer is put back. -/
theorem Writing.putBack (h : Writing cfg dd s lists lastBlock bufs (bd :: t)) :
    Writing cfg dd ((s.extract bd).prepend .transfer bd) lists lastBlock bufs (bd :: t) := by
  have hlist : lists .transfer = [] ++ bd :: t := h.waiting
  have hextract := h.chained.extract hlist
  have hnodup := h.chained.nodup .transfer
  rw [h.waiting] at hnodup
  have hgone : ∀ c, bd ∉ Function.update lists .transfer ([] ++ t) c := by
    intro c
    by_cases hc : c = .transfer
    · rw [hc, Function.update_self]
      exact (List.nodup_cons.mp hnodup).1
    · rw [Function.update_of_ne hc]
      have hbd : bd ∈ lists .transfer := by simp [h.waiting]
      exact h.chained.apart (Ne.symm hc) hbd
  have hprepend := hextract.prepend .transfer hgone
  have hsame : Function.update (Function.update lists .transfer ([] ++ t)) .transfer
      (bd :: Function.update lists .transfer ([] ++ t) .transfer) = lists := by
    rw [Function.update_self, Function.update_idem, List.nil_append, ← h.waiting,
      Function.update_eq_self]
  rw [hsame] at hprepend
  exact ⟨hprepend, h.waiting, h.nodup, h.out, h.filed.congr rfl, h.last, h.row⟩

/-- The request goes to the device. -/
theorem Writing.send (h : Writing cfg dd s lists lastBlock bufs t) (hfuel : avlMaxHeight ≤ fuel) :
    ∃ s' sc lru, executeTransferRequest cfg fuel s dd ⟨.write, bufs⟩ = some (s', sc) ∧
      SameBlocks s s' ∧ requests s'.actions = requests s.actions ++ [(dd, ⟨.write, bufs⟩)] ∧
      Writing cfg dd s' (Function.update lists .lru lru) lastBlock [] t := by
  obtain ⟨s', sc, heq, hsame, hrequests, hfiled, lru, hchained, -⟩ :=
    executeTransferRequest_spec cfg dd ⟨.write, bufs⟩ t h.chained h.out h.filed h.nodup hfuel
  refine ⟨s', sc, lru, heq, hsame, hrequests, hchained, ?_, ?_, by simp, hfiled, by simp, fun _ => .nil⟩
  · rw [Function.update_of_ne (by simp)]
    exact h.waiting
  · exact (List.nodup_append.mp h.nodup).2.1

/-- A turn of the loop that takes the next buffer. -/
theorem writeLoop_take {turns : ℕ} (h : Writing cfg dd s lists lastBlock bufs (bd :: t))
    (hrow : ¬ Breaks cfg dd s lastBlock bufs bd) :
    writeLoop cfg fuel dd (turns + 1) s lastBlock bufs =
      if t = [] ∨ cfg.maxWriteBlocks ≤ bufs.length + 1 then
        (executeTransferRequest cfg fuel (s.extract bd) dd ⟨.write, bufs ++ [sgBuffer cfg s dd bd]⟩).bind
          fun r => writeLoop cfg fuel dd turns r.1 (s.tree.block bd) []
      else writeLoop cfg fuel dd turns (s.extract bd) (s.tree.block bd)
        (bufs ++ [sgBuffer cfg s dd bd]) := by
  have hempty : (s.extract bd).isEmpty .transfer = t.isEmpty := by
    rw [(h.take hrow).chained.isEmpty, Function.update_self]
  have hsg : sgBuffer cfg (s.extract bd) dd bd = sgBuffer cfg s dd bd := rfl
  rw [Breaks] at hrow
  rw [writeLoop, h.getTransfer]
  simp only [Cache.tree_extract, hrow, if_false, false_or, hempty, List.isEmpty_iff, hsg,
    List.length_append, List.length_singleton, ge_iff_le]
  rfl

/-- A turn of the loop that puts the next buffer back. -/
theorem writeLoop_putBack {turns : ℕ} (h : Writing cfg dd s lists lastBlock bufs (bd :: t))
    (hrow : Breaks cfg dd s lastBlock bufs bd) :
    writeLoop cfg fuel dd (turns + 1) s lastBlock bufs =
      (executeTransferRequest cfg fuel ((s.extract bd).prepend .transfer bd) dd ⟨.write, bufs⟩).bind
        fun r => writeLoop cfg fuel dd turns r.1 lastBlock [] := by
  have hbreaks := eq_true hrow
  rw [Breaks] at hbreaks
  rw [writeLoop, h.getTransfer]
  simp only [Cache.tree_extract]
  simp only [hbreaks, if_true, true_or]
  rfl

/-- What the loop over the chain of the transfer does: the requests have the buffers of the request
under way and then all others, in their order. -/
structure Wrote (cfg : Setup Bd Dev) (dd : Dev) (s s' : Cache Bd Dev) (lists : ChainName → List Bd)
    (bufs : List (SgBuffer Bd)) (t : List Bd) : Prop where
  same : SameBlocks s s'
  batches : ∃ reqs : List (Request Bd),
    requests s'.actions = requests s.actions ++ reqs.map (dd, ·) ∧ (∀ req ∈ reqs, Batch cfg dd req) ∧
      reqs.flatMap Request.bufs = bufs ++ t.map (sgBuffer cfg s dd)
  chained : ∃ lru, Chained s' (Function.update (Function.update lists .transfer []) .lru lru)

section

omit [DecidableEq Bd] [LinearOrder Dev]

theorem sgBuffer_congr (h : SameBlocks s s') (bd : Bd) : sgBuffer cfg s' dd bd = sgBuffer cfg s dd bd := by
  rw [sgBuffer, sgBuffer, h.block, h.buffer]

end

section

omit [DecidableEq Bd]

theorem Wrote.nil (h : Writing cfg dd s lists lastBlock [] []) : Wrote cfg dd s s lists [] [] := by
  have hlists : Function.update (Function.update lists .transfer []) .lru (lists .lru) = lists := by
    rw [Function.update_comm (by simp), Function.update_eq_self, ← h.waiting, Function.update_eq_self]
  refine ⟨.refl s, ⟨[], by simp, by simp, rfl⟩, lists .lru, ?_⟩
  rw [hlists]
  exact h.chained

/-- A request goes to the device before the rest. -/
theorem Wrote.of_send {s₁ : Cache Bd Dev} {lru : List Bd} (hne : bufs ≠ [])
    (hlength : bufs.length ≤ cfg.maxWriteBlocks) (h : Writing cfg dd s lists lastBlock bufs t)
    (hsame : SameBlocks s s₁)
    (hrequests : requests s₁.actions = requests s.actions ++ [(dd, ⟨.write, bufs⟩)])
    (hrest : Wrote cfg dd s₁ s' (Function.update lists .lru lru) [] t) :
    Wrote cfg dd s s' lists bufs t := by
  obtain ⟨hsame', ⟨reqs, hreqs, hbatch, hall⟩, lru', hchained⟩ := hrest
  refine ⟨hsame.trans hsame', ⟨⟨.write, bufs⟩ :: reqs, ?_, ?_, ?_⟩, lru', ?_⟩
  · rw [hreqs, hrequests]
    simp
  · intro req hreq
    rcases List.mem_cons.mp hreq with rfl | hreq
    · exact ⟨rfl, hne, hlength, h.row⟩
    · exact hbatch req hreq
  · rw [List.flatMap_cons, hall]
    simp [sgBuffer_congr hsame]
  · have hlists : Function.update (Function.update (Function.update lists .lru lru) .transfer [])
        .lru lru' = Function.update (Function.update lists .transfer []) .lru lru' := by
      have hne : ChainName.transfer ≠ .lru := by simp
      rw [Function.update_comm hne, Function.update_idem, Function.update_comm hne]
    rw [← hlists]
    exact hchained

end

section

omit [LinearOrder Dev]

/-- The next buffer goes into the request before the rest. -/
theorem Wrote.of_take (h : Wrote cfg dd (s.extract bd) s' (Function.update lists .transfer t)
    (bufs ++ [sgBuffer cfg s dd bd]) t) : Wrote cfg dd s s' lists bufs (bd :: t) := by
  obtain ⟨hsame, ⟨reqs, hreqs, hbatch, hall⟩, lru, hchained⟩ := h
  have hextract : SameBlocks s (s.extract bd) := ⟨rfl, rfl, rfl⟩
  refine ⟨hextract.trans hsame, ⟨reqs, hreqs, hbatch, ?_⟩, lru, ?_⟩
  · rw [hall]
    simp [sgBuffer_congr hextract]
  · rw [Function.update_idem] at hchained
    exact hchained

end

/-- The loop makes at most two turns for each buffer, and all buffers are written. -/
theorem writeLoop_spec (hmax : 1 ≤ cfg.maxWriteBlocks) (hfuel : avlMaxHeight ≤ fuel) {turns : ℕ}
    (h : Writing cfg dd s lists lastBlock bufs t) (hbufs : bufs.length < cfg.maxWriteBlocks)
    (hrest : t = [] → bufs = []) (hturns : 2 * t.length ≤ turns) :
    ∃ s', writeLoop cfg fuel dd turns s lastBlock bufs = some s' ∧ Wrote cfg dd s s' lists bufs t := by
  induction t generalizing s lists lastBlock bufs turns with
  | nil =>
    obtain rfl := hrest rfl
    refine ⟨s, ?_, .nil h⟩
    rw [writeLoop, h.getTransfer_nil]
  | cons bd t ih =>
    have htake : ∀ {s lists lastBlock bufs} turns, Writing cfg dd s lists lastBlock bufs (bd :: t) →
        bufs.length < cfg.maxWriteBlocks → ¬ Breaks cfg dd s lastBlock bufs bd →
        2 * t.length ≤ turns → ∃ s', writeLoop cfg fuel dd (turns + 1) s lastBlock bufs = some s' ∧
          Wrote cfg dd s s' lists bufs (bd :: t) := by
      intro s lists lastBlock bufs turns h hbufs hrow hturns
      have hnext := h.take hrow
      rw [writeLoop_take h hrow]
      split
      next =>
        obtain ⟨s₁, sc, lru, heq, hsame, hrequests, hsent⟩ := hnext.send hfuel
        obtain ⟨s', hloop, hwrote⟩ := ih hsent hmax (fun _ => rfl) hturns
        refine ⟨s', by rw [heq]; exact hloop, Wrote.of_take ?_⟩
        exact hwrote.of_send (by simp) (by simpa using hbufs) hnext hsame hrequests
      next hmore =>
        obtain ⟨hne, hlt⟩ := not_or.mp hmore
        have hlength : (bufs ++ [sgBuffer cfg s dd bd]).length < cfg.maxWriteBlocks := by
          simpa using Nat.lt_of_not_le hlt
        obtain ⟨s', hloop, hwrote⟩ := ih hnext hlength (fun hnil => absurd hnil hne) hturns
        exact ⟨s', hloop, hwrote.of_take⟩
    rw [List.length_cons] at hturns
    obtain ⟨turns, rfl⟩ : ∃ n, turns = n + 2 := ⟨turns - 2, by omega⟩
    by_cases hrow : Breaks cfg dd s lastBlock bufs bd
    · -- The buffer is put back, and the first one of the next request.
      obtain ⟨s₁, sc, lru, heq, hsame, hrequests, hsent⟩ := h.putBack.send hfuel
      obtain ⟨s', hloop, hwrote⟩ := htake turns hsent hmax (fun hb => hb.2.1 rfl) (by omega)
      refine ⟨s', ?_, ?_⟩
      · rw [writeLoop_putBack h hrow, heq]
        exact hloop
      · have hback : SameBlocks s ((s.extract bd).prepend .transfer bd) := ⟨rfl, rfl, rfl⟩
        exact hwrote.of_send hrow.2.1 hbufs.le h (hback.trans hsame) hrequests
    · exact htake (turns + 1) h hbufs hrow (by omega)

end Rtems.Bdbuf
