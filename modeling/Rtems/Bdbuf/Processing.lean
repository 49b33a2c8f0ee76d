import Rtems.Bdbuf.Batches

/-!
# Every selected buffer is written once

One call of `rtems_bdbuf_swapout_processing`: the buffers that are due, and belong to the device of
the transfer, are in its requests, once and in the order of their blocks.  The other buffers stay on
their chains as they were.
-/

namespace Rtems.Bdbuf

open Lib

variable {Bd Dev : Type} [DecidableEq Bd] [LinearOrder Dev] {cfg : Setup Bd Dev}
  {s s' : Cache Bd Dev} {lists : ChainName → List Bd} {t l l' : List Bd} {turns timerDelta : ℕ}
  {dd : Option Dev} {updateTimers : Bool} {w : Sweep}

/-! ## What is selected -/

/-- The device that a sync is limited to. -/
def startDevice (s : Cache Bd Dev) : Option Dev := if s.syncActive then s.syncDevice else none

/-- The call for the chain of the buffers that are synced. -/
def syncSweep (timerDelta : ℕ) : Sweep := ⟨.sync, true, false, timerDelta⟩

/-- The call for the chain of the modified buffers. -/
def modifiedSweep (s : Cache Bd Dev) (timerDelta : ℕ) (updateTimers : Bool) : Sweep :=
  ⟨.modified, s.syncActive, updateTimers, timerDelta⟩

/-- The device behind the first call. -/
def syncedDevice (s : Cache Bd Dev) (lists : ChainName → List Bd) (timerDelta : ℕ) : Option Dev :=
  chosenDevice s.tree (Due (syncSweep timerDelta) s (startDevice s)) (startDevice s) (lists .sync)

/-- The device of the transfer: the device of the sync, or that of the first buffer that is due. -/
def transferDevice (s : Cache Bd Dev) (lists : ChainName → List Bd) (timerDelta : ℕ)
    (updateTimers : Bool) : Option Dev :=
  chosenDevice s.tree
    (Due (modifiedSweep s timerDelta updateTimers) s (syncedDevice s lists timerDelta))
    (syncedDevice s lists timerDelta) (lists .modified)

/-- A buffer of the first chain is due and belongs to the device. -/
def SyncSelected (s : Cache Bd Dev) (timerDelta : ℕ) (dd : Option Dev) (bd : Bd) : Prop :=
  Selects s.tree (Due (syncSweep timerDelta) s (startDevice s)) dd bd

/-- A buffer of the second chain is due and belongs to the device. -/
def ModifiedSelected (s : Cache Bd Dev) (lists : ChainName → List Bd) (timerDelta : ℕ)
    (updateTimers : Bool) (dd : Option Dev) (bd : Bd) : Prop :=
  Selects s.tree
    (Due (modifiedSweep s timerDelta updateTimers) s (syncedDevice s lists timerDelta)) dd bd

instance : DecidablePred (SyncSelected s timerDelta dd) :=
  inferInstanceAs (DecidablePred (Selects _ _ _))

instance : DecidablePred (ModifiedSelected s lists timerDelta updateTimers dd) :=
  inferInstanceAs (DecidablePred (Selects _ _ _))

/-- The buffers that have to be written. -/
def selected (s : Cache Bd Dev) (lists : ChainName → List Bd) (timerDelta : ℕ) (updateTimers : Bool) :
    List Bd :=
  let dd := transferDevice s lists timerDelta updateTimers
  (lists .sync).filter (SyncSelected s timerDelta dd ·) ++
    (lists .modified).filter (ModifiedSelected s lists timerDelta updateTimers dd ·)

/-- The chains without these buffers. -/
def remaining (s : Cache Bd Dev) (lists : ChainName → List Bd) (timerDelta : ℕ) (updateTimers : Bool) :
    ChainName → List Bd :=
  let dd := transferDevice s lists timerDelta updateTimers
  Function.update (Function.update (Function.update lists
    .sync ((lists .sync).filter (! SyncSelected s timerDelta dd ·)))
    .modified ((lists .modified).filter (! ModifiedSelected s lists timerDelta updateTimers dd ·)))
    .transfer []

section

variable {tree : Nodes Bd Dev} {E E' : Bd → Prop} [DecidablePred E] [DecidablePred E']

omit [DecidableEq Bd] [LinearOrder Dev]

/-- A device that was chosen stays, and without one nothing was due. -/
theorem selects_chosenDevice {bd : Bd} (hbd : bd ∈ l) :
    Selects tree E (chosenDevice tree E' (chosenDevice tree E dd l) l') bd ↔
      Selects tree E (chosenDevice tree E dd l) bd := by
  cases hdd : chosenDevice tree E dd l with
  | some d => rfl
  | none =>
    obtain ⟨-, hfind⟩ := Option.or_eq_none_iff.mp hdd
    have hnone := List.find?_eq_none.mp (Option.map_eq_none_iff.mp hfind) bd hbd
    have hout : ¬ E bd := by simpa using hnone
    exact ⟨fun h => absurd h.1 hout, fun h => absurd h.1 hout⟩

end

section

omit [DecidableEq Bd] [LinearOrder Dev]

/-- Whether a buffer is due depends on its timer, and on nothing else that a call changes. -/
theorem due_congr {bd : Bd} (h : Swept s s') (htimer : s'.holdTimer bd = s.holdTimer bd) :
    Due w s' dd bd ↔ Due w s dd bd := by
  obtain ⟨links, state, holdTimer, rfl⟩ := h
  rw [Due, Due, htimer]

end

/-! ## The two calls -/

/-- The first call puts the selected buffers of its chain on the chain of the transfer. -/
theorem syncSweep_spec (updateTimers : Bool) (h : Chained s lists) (hempty : lists .transfer = [])
    (hturns : (lists .sync).length ≤ turns) :
    let dd := transferDevice s lists timerDelta updateTimers
    ∃ s' t, swapoutModifiedProcessing turns (syncSweep timerDelta) s (startDevice s) =
        some (s', syncedDevice s lists timerDelta) ∧ Swept s s' ∧
      (∀ x, x ∉ lists .sync → s'.holdTimer x = s.holdTimer x) ∧ Ascends s.tree t ∧
      t.Perm ((lists .sync).filter (SyncSelected s timerDelta dd ·)) ∧
      Chained s' (Function.update (Function.update lists
        .sync ((lists .sync).filter (! SyncSelected s timerDelta dd ·))) .transfer t) := by
  intro dd
  have hlength : (lists .sync).length + (lists .transfer).length ≤ turns := by
    rw [hempty]
    exact hturns
  have hsorted : Ascends s.tree (lists .transfer) := by
    rw [hempty]
    exact .nil
  obtain ⟨s', t, heq, hswept, htimer, hascends, hperm, hchained⟩ :=
    swapoutModifiedProcessing_spec (syncSweep timerDelta) (startDevice s)
      (Due (syncSweep timerDelta) s (startDevice s)) (by simp [syncSweep]) h (fun _ _ => Iff.rfl)
      hlength hsorted
  have hselected : ∀ bd ∈ lists .sync, decide (SyncSelected s timerDelta dd bd) = decide (Selects s.tree
      (Due (syncSweep timerDelta) s (startDevice s)) (syncedDevice s lists timerDelta) bd) :=
    fun bd hbd => decide_eq_decide.mpr (selects_chosenDevice hbd)
  refine ⟨s', t, heq, hswept, htimer, hascends, ?_, ?_⟩
  · rw [hempty, List.append_nil] at hperm
    rw [List.filter_congr hselected]
    exact hperm
  · rw [List.filter_congr fun bd hbd => congrArg not (hselected bd hbd)]
    exact hchained

/-- The second call puts the selected buffers of its chain on the chain of the transfer. -/
theorem modifiedSweep_spec (timerDelta : ℕ) (updateTimers : Bool) {lists' : ChainName → List Bd}
    (h : Chained s' lists') (hswept : Swept s s') (hlist : lists' .modified = lists .modified)
    (htimer : ∀ bd ∈ lists .modified, s'.holdTimer bd = s.holdTimer bd)
    (hturns : (lists .modified).length + (lists' .transfer).length ≤ turns)
    (hsorted : Ascends s.tree (lists' .transfer)) :
    let dd := transferDevice s lists timerDelta updateTimers
    ∃ s'' t, swapoutModifiedProcessing turns (modifiedSweep s timerDelta updateTimers) s'
        (syncedDevice s lists timerDelta) = some (s'', dd) ∧ Swept s' s'' ∧ Ascends s.tree t ∧
      t.Perm ((lists .modified).filter (ModifiedSelected s lists timerDelta updateTimers dd ·) ++
        lists' .transfer) ∧
      Chained s'' (Function.update (Function.update lists' .modified
        ((lists .modified).filter (! ModifiedSelected s lists timerDelta updateTimers dd ·)))
        .transfer t) := by
  have hdue : ∀ bd ∈ lists' .modified, (Due (modifiedSweep s timerDelta updateTimers) s'
      (syncedDevice s lists timerDelta) bd ↔
        Due (modifiedSweep s timerDelta updateTimers) s (syncedDevice s lists timerDelta) bd) := by
    intro bd hbd
    rw [hlist] at hbd
    exact due_congr hswept (htimer bd hbd)
  have hlength : (lists' .modified).length + (lists' .transfer).length ≤ turns := by
    rw [hlist]
    exact hturns
  obtain ⟨s'', t, heq, hswept', -, hascends, hperm, hchained⟩ :=
    swapoutModifiedProcessing_spec (modifiedSweep s timerDelta updateTimers)
      (syncedDevice s lists timerDelta)
      (Due (modifiedSweep s timerDelta updateTimers) s (syncedDevice s lists timerDelta))
      (by simp [modifiedSweep]) h hdue hlength (by rw [hswept.tree]; exact hsorted)
  have hmodified : lists' (modifiedSweep s timerDelta updateTimers).chain = lists .modified := hlist
  rw [hswept.tree, hmodified] at heq hperm hchained
  rw [hswept.tree] at hascends
  exact ⟨s'', t, heq, hswept', hascends, hperm, hchained⟩

/-- Both calls end, and have put the selected buffers on the chain of the transfer. -/
theorem sweeps_spec (timerDelta : ℕ) (updateTimers : Bool) (h : Chained s lists)
    (hempty : lists .transfer = [])
    (hturns : (lists .sync).length + (lists .modified).length ≤ turns) :
    ∃ s₁ s₂ t, swapoutModifiedProcessing turns (syncSweep timerDelta) s (startDevice s) =
        some (s₁, syncedDevice s lists timerDelta) ∧
      swapoutModifiedProcessing turns (modifiedSweep s timerDelta updateTimers) s₁
        (syncedDevice s lists timerDelta) =
          some (s₂, transferDevice s lists timerDelta updateTimers) ∧
      Swept s s₂ ∧ Ascends s.tree t ∧ t.Perm (selected s lists timerDelta updateTimers) ∧
      Chained s₂ (Function.update (remaining s lists timerDelta updateTimers) .transfer t) := by
  have hsync : (lists .sync).length ≤ turns := by omega
  obtain ⟨s₁, t₁, heq₁, hswept₁, htimer₁, hascends₁, hperm₁, hchained₁⟩ :=
    syncSweep_spec updateTimers h hempty hsync
  have hlength₁ : t₁.length ≤ (lists .sync).length := by
    rw [hperm₁.length_eq]
    exact List.length_filter_le _ _
  have hlength : (lists .modified).length + t₁.length ≤ turns := by omega
  have htimer : ∀ bd ∈ lists .modified, s₁.holdTimer bd = s.holdTimer bd :=
    fun bd hbd => htimer₁ bd (h.apart (by simp) hbd)
  obtain ⟨s₂, t₂, heq₂, hswept₂, hascends₂, hperm₂, hchained₂⟩ :=
    modifiedSweep_spec timerDelta updateTimers hchained₁ hswept₁ (by simp) htimer
      hlength hascends₁
  rw [Function.update_self] at hperm₂
  refine ⟨s₁, s₂, t₂, heq₁, heq₂, hswept₁.trans hswept₂, hascends₂, ?_, ?_⟩
  · have hall := (hperm₁.append_left ((lists .modified).filter (ModifiedSelected s lists timerDelta
      updateTimers (transferDevice s lists timerDelta updateTimers) ·))).trans List.perm_append_comm
    exact hperm₂.trans hall
  · rw [remaining, Function.update_idem]
    have hne : ChainName.transfer ≠ .modified := by simp
    rw [Function.update_comm hne, Function.update_idem] at hchained₂
    exact hchained₂

/-! ## The requests -/

/-- The requests write these buffers: each of them once, with its contents, in the order of the
blocks, and in batches as the device may get them. -/
structure Writes (cfg : Setup Bd Dev) (s : Cache Bd Dev) (dd : Option Dev) (bds : List Bd)
    (reqs : List (Dev × Request Bd)) : Prop where
  once : (reqs.flatMap fun r => r.2.bufs.map SgBuffer.user).Perm bds
  ascending : (reqs.flatMap fun r => r.2.bufs).Pairwise fun a b => a.block < b.block
  entries : ∀ r ∈ reqs, ∀ b ∈ r.2.bufs, b = sgBuffer cfg s r.1 b.user
  device : ∀ r ∈ reqs, dd = some r.1
  write : ∀ r ∈ reqs, r.2.req = .write ∧ r.2.bufs ≠ []
  length_le : ∀ r ∈ reqs, r.2.bufs.length ≤ cfg.maxWriteBlocks
  row : ∀ r ∈ reqs, (cfg.disk r.1).multisectorCont = true →
    r.2.bufs.IsChain fun a b => b.block = a.block + (cfg.disk r.1).mediaBlocksPerBlock

/-- A sum of block numbers that comes behind the first one has not wrapped. -/
theorem add_of_add32 {a b m : ℕ} (ha : a < 2 ^ 32) (hm : m < 2 ^ 32) (hlt : a < b)
    (heq : b = add32 a m) : b = a + m := by
  rw [add32] at heq
  omega

section

omit [DecidableEq Bd] [LinearOrder Dev]

theorem consecutive_of_follows {dd : Dev} {bufs : List (SgBuffer Bd)}
    (hrow : bufs.IsChain (Follows cfg dd)) (hascending : bufs.Pairwise fun a b => a.block < b.block)
    (hblock : ∀ b ∈ bufs, b.block < 2 ^ 32) (hmedia : (cfg.disk dd).mediaBlocksPerBlock < 2 ^ 32) :
    bufs.IsChain fun a b => b.block = a.block + (cfg.disk dd).mediaBlocksPerBlock := by
  induction bufs with
  | nil => exact .nil
  | cons a bufs ih =>
    cases bufs with
    | nil => exact .singleton a
    | cons b bufs =>
      obtain ⟨hfollows, hrow⟩ := List.isChain_cons_cons.mp hrow
      obtain ⟨hbehind, hascending⟩ := List.pairwise_cons.mp hascending
      have hlt := hbehind b List.mem_cons_self
      have ha := hblock a List.mem_cons_self
      exact List.isChain_cons_cons.mpr ⟨add_of_add32 ha hmedia hlt hfollows,
        ih hrow hascending fun c hc => hblock c (List.mem_cons_of_mem _ hc)⟩

end

section

omit [DecidableEq Bd]

/-- The buffers of one device that are in the tree have different blocks. -/
theorem Ascends.strict {d : Dev} (h : Ascends s.tree t) (hnodup : t.Nodup) (hfiled : Filed s t)
    (hdevice : ∀ bd ∈ t, s.tree.dd bd = d) : t.Pairwise fun a b => s.tree.block a < s.tree.block b := by
  obtain ⟨tree, htree, -, hmem⟩ := hfiled
  refine (h.and hnodup).imp_of_mem ?_
  rintro a b ha hb ⟨hle, hne⟩
  refine lt_of_le_of_ne hle fun hblock => hne (htree.key_inj (hmem a ha) (hmem b hb) ?_)
  rw [keyOf, keyOf, hblock, hdevice a ha, hdevice b hb]

end

section

omit [DecidableEq Bd] [LinearOrder Dev]

theorem SgBuffer.block_eq {dd : Dev} {b : SgBuffer Bd} (h : b = sgBuffer cfg s dd b.user) :
    b.block = s.tree.block b.user := by
  rw [h]
  rfl

/-- The requests of the loop are as the device may get them. -/
theorem Wrote.writes {d : Dev} (h : Wrote cfg d s s' lists [] t)
    (hstrict : t.Pairwise fun a b => s.tree.block a < s.tree.block b)
    (hblock : ∀ bd ∈ t, s.tree.block bd < 2 ^ 32)
    (hmedia : (cfg.disk d).mediaBlocksPerBlock < 2 ^ 32) :
    ∃ reqs, requests s'.actions = requests s.actions ++ reqs ∧ Writes cfg s (some d) t reqs := by
  obtain ⟨-, ⟨reqs, hreqs, hbatch, hall⟩, -⟩ := h
  rw [List.nil_append] at hall
  have hentries : ∀ req ∈ reqs, ∀ b ∈ req.bufs, b.user ∈ t ∧ b = sgBuffer cfg s d b.user := by
    intro req hreq b hb
    have hmem : b ∈ reqs.flatMap Request.bufs := List.mem_flatMap_of_mem hreq hb
    rw [hall] at hmem
    obtain ⟨bd, hbd, rfl⟩ := List.mem_map.mp hmem
    exact ⟨hbd, rfl⟩
  have hascending : (reqs.flatMap Request.bufs).Pairwise fun a b => a.block < b.block := by
    rw [hall, List.pairwise_map]
    exact hstrict
  refine ⟨reqs.map (d, ·), hreqs, ?_⟩
  constructor
  case once =>
    have husers : (reqs.flatMap Request.bufs).map SgBuffer.user = t := by
      rw [hall, List.map_map]
      exact List.map_id t
    rw [List.flatMap_map, ← husers, List.map_flatMap]
  case ascending =>
    rw [List.flatMap_map]
    exact hascending
  case entries =>
    simp only [List.forall_mem_map]
    exact fun req hreq b hb => (hentries req hreq b hb).2
  case device =>
    simp
  case write =>
    simp only [List.forall_mem_map]
    exact fun req hreq => ⟨(hbatch req hreq).write, (hbatch req hreq).nonempty⟩
  case length_le =>
    simp only [List.forall_mem_map]
    exact fun req hreq => (hbatch req hreq).length_le
  case row =>
    simp only [List.forall_mem_map]
    intro req hreq hcont
    have hsub : req.bufs.Sublist (reqs.flatMap Request.bufs) :=
      List.sublist_flatten_of_mem (List.mem_map_of_mem hreq)
    refine consecutive_of_follows ((hbatch req hreq).row hcont) (hascending.sublist hsub) ?_ hmedia
    intro b hb
    obtain ⟨huser, hentry⟩ := hentries req hreq b hb
    rw [SgBuffer.block_eq hentry]
    exact hblock b.user huser

end

/-- The chain of the transfer is written, and the other chains stay. -/
theorem swapoutWrite_spec (h : Chained s lists) (hwaiting : lists .transfer = t)
    (hfiled : Filed s t) (hascends : Ascends s.tree t)
    (hdevice : ∀ bd ∈ t, dd = some (s.tree.dd bd)) (hblock : ∀ bd, s.tree.block bd < 2 ^ 32)
    (hmedia : ∀ d, (cfg.disk d).mediaBlocksPerBlock < 2 ^ 32) (hmax : 1 ≤ cfg.maxWriteBlocks)
    (hfuel : avlMaxHeight ≤ turns) (hturns : 2 * t.length ≤ turns) (syncing : Bool) :
    ∃ s' reqs, swapoutWrite cfg turns s dd syncing = some s' ∧
      requests s'.actions = requests s.actions ++ reqs ∧ Writes cfg s dd t reqs ∧
      ∃ lru, Chained s' (Function.update (Function.update lists .transfer []) .lru lru) := by
  have hnodup : t.Nodup := hwaiting ▸ h.nodup .transfer
  have hempty := h.isEmpty .transfer
  rw [hwaiting] at hempty
  rw [swapoutWrite, hempty]
  cases t with
  | nil =>
    have hlists : Function.update (Function.update lists .transfer []) .lru (lists .lru) = lists := by
      rw [← hwaiting, Function.update_eq_self, Function.update_eq_self]
    refine ⟨s, [], rfl, (List.append_nil _).symm, ?_, lists .lru, ?_⟩
    · constructor <;> simp
    · rw [hlists]
      exact h
  | cons bd t =>
    have hdd := hdevice bd List.mem_cons_self
    have hsame : ∀ x ∈ bd :: t, s.tree.dd x = s.tree.dd bd := by
      intro x hx
      exact Option.some.inj ((hdevice x hx).symm.trans hdd)
    have hwriting : Writing cfg (s.tree.dd bd) s lists 0 [] (bd :: t) :=
      ⟨h, hwaiting, hnodup, by simp, hfiled, by simp, fun _ => .nil⟩
    obtain ⟨s', heq, hwrote⟩ := writeLoop_spec hmax hfuel hwriting hmax (fun _ => rfl) hturns
    obtain ⟨reqs, hreqs, hwrites⟩ := hwrote.writes (hascends.strict hnodup hfiled hsame)
      (fun x _ => hblock x) (hmedia _)
    obtain ⟨lru, hchained⟩ := hwrote.chained
    simp only [hdd, heq, Option.bind_eq_bind, Option.bind_some]
    refine ⟨_, reqs, rfl, ?_, hwrites, lru, ?_⟩
    · split
      next => simpa [Cache.act, requests] using hreqs
      next => exact hreqs
    · split
      next => exact hchained.congr rfl
      next => exact hchained

section

omit [DecidableEq Bd] [LinearOrder Dev]

/-- The contents of a request do not depend on the links, the states and the hold timers. -/
theorem Writes.swept {bds : List Bd} {reqs : List (Dev × Request Bd)} (h : Writes cfg s' dd t reqs)
    (hswept : Swept s s') (hperm : t.Perm bds) : Writes cfg s dd bds reqs := by
  obtain ⟨links, state, holdTimer, rfl⟩ := hswept
  exact ⟨h.once.trans hperm, h.ascending, h.entries, h.device, h.write, h.length_le, h.row⟩

end

/-- What the swapout finds: the chains go through their buffers, whatever the chain of the transfer
was, the buffers are in the tree, and the numbers have 32 bits. -/
structure Ready (cfg : Setup Bd Dev) (s : Cache Bd Dev) (lists : ChainName → List Bd) : Prop where
  chained : Chained (s.initializeEmpty .transfer) lists
  filed : Filed s (lists .sync ++ lists .modified)
  block : ∀ bd, s.tree.block bd < 2 ^ 32
  media : ∀ dd, (cfg.disk dd).mediaBlocksPerBlock < 2 ^ 32

theorem Ready.transfer_nil (h : Ready cfg s lists) : lists .transfer = [] := by
  have hnext := h.chained.next_control .transfer
  have hcontrol : (s.initializeEmpty .transfer).links.next (.control .transfer) = .control .transfer := by
    simp [Cache.initializeEmpty, Links.setNext, Links.setPrev]
  rw [hcontrol] at hnext
  cases hlist : lists .transfer with
  | nil => rfl
  | cons bd bds =>
    rw [hlist, firstNode_cons] at hnext
    cases hnext

section

omit [DecidableEq Bd]

theorem mem_selected {bd : Bd} (hbd : bd ∈ selected s lists timerDelta updateTimers) :
    bd ∈ lists .sync ++ lists .modified ∧
      transferDevice s lists timerDelta updateTimers = some (s.tree.dd bd) := by
  rw [selected] at hbd
  rcases List.mem_append.mp hbd with hin | hin
  · obtain ⟨hmem, hsel⟩ := List.mem_filter.mp hin
    exact ⟨List.mem_append_left _ hmem, (of_decide_eq_true hsel).2⟩
  · obtain ⟨hmem, hsel⟩ := List.mem_filter.mp hin
    exact ⟨List.mem_append_right _ hmem, (of_decide_eq_true hsel).2⟩

theorem length_selected (s : Cache Bd Dev) (lists : ChainName → List Bd) (timerDelta : ℕ)
    (updateTimers : Bool) : (selected s lists timerDelta updateTimers).length ≤
      (lists .sync).length + (lists .modified).length := by
  rw [selected, List.length_append]
  exact Nat.add_le_add (List.length_filter_le _ _) (List.length_filter_le _ _)

end

/-- Nothing that selects the buffers depends on the links. -/
theorem Ready.sweeps (h : Ready cfg s lists) (timerDelta : ℕ) (updateTimers : Bool)
    (hturns : (lists .sync).length + (lists .modified).length ≤ turns) :
    ∃ s₁ s₂ t, swapoutModifiedProcessing turns (syncSweep timerDelta) (s.initializeEmpty .transfer)
        (startDevice s) = some (s₁, syncedDevice s lists timerDelta) ∧
      swapoutModifiedProcessing turns (modifiedSweep s timerDelta updateTimers) s₁
        (syncedDevice s lists timerDelta) =
          some (s₂, transferDevice s lists timerDelta updateTimers) ∧
      Swept s s₂ ∧ Ascends s.tree t ∧ t.Perm (selected s lists timerDelta updateTimers) ∧
      Chained s₂ (Function.update (remaining s lists timerDelta updateTimers) .transfer t) := by
  obtain ⟨s₁, s₂, t, heq₁, heq₂, hswept, hrest⟩ :=
    sweeps_spec timerDelta updateTimers h.chained h.transfer_nil hturns
  have hempty : Swept s (s.initializeEmpty .transfer) := ⟨_, _, _, rfl⟩
  exact ⟨s₁, s₂, t, heq₁, heq₂, hempty.trans hswept, hrest⟩

/-- A swapout whose calls end ends, and what it does behind them touches neither the chains nor the
devices. -/
theorem swapoutProcessing_of {s₁ s₂ s₃ : Cache Bd Dev} {dd₁ dd₂ : Option Dev}
    (heq₁ : swapoutModifiedProcessing turns (syncSweep timerDelta) (s.initializeEmpty .transfer)
      (startDevice s) = some (s₁, dd₁))
    (heq₂ : swapoutModifiedProcessing turns (modifiedSweep s timerDelta updateTimers) s₁ dd₁ =
      some (s₂, dd₂))
    (heq₃ : swapoutWrite cfg turns s₂ dd₂ s.syncActive = some s₃) :
    ∃ s', swapoutProcessing cfg turns timerDelta updateTimers s = some (s', ! s₂.isEmpty .transfer) ∧
      s'.links = s₃.links ∧ requests s'.actions = requests s₃.actions := by
  rw [swapoutProcessing]
  change ∃ s', (swapoutModifiedProcessing turns (syncSweep timerDelta) (s.initializeEmpty .transfer)
    (startDevice s)).bind _ = _ ∧ _
  rw [heq₁, Option.bind_some]
  change ∃ s', (swapoutModifiedProcessing turns (modifiedSweep s timerDelta updateTimers) s₁ dd₁).bind _
    = _ ∧ _
  rw [heq₂, Option.bind_some]
  change ∃ s', (swapoutWrite cfg turns s₂ dd₂ s.syncActive).bind _ = _ ∧ _
  rw [heq₃, Option.bind_some]
  dsimp only
  split
  next =>
    refine ⟨_, rfl, ?_⟩
    split
    next => exact ⟨rfl, by simp [Cache.act, requests]⟩
    next => exact ⟨rfl, rfl⟩
  next => exact ⟨s₃, rfl, rfl, rfl⟩

/-- All loops end.  The selected buffers have left their chains, and the list of the least recently
used buffers may have got them. -/
theorem Ready.processing (h : Ready cfg s lists) (hmax : 1 ≤ cfg.maxWriteBlocks) (timerDelta : ℕ)
    (updateTimers : Bool)
    (hturns : 2 * ((lists .sync).length + (lists .modified).length) + avlMaxHeight ≤ turns) :
    ∃ s' reqs lru, swapoutProcessing cfg turns timerDelta updateTimers s =
        some (s', ! (selected s lists timerDelta updateTimers).isEmpty) ∧
      requests s'.actions = requests s.actions ++ reqs ∧
      Writes cfg s (transferDevice s lists timerDelta updateTimers)
        (selected s lists timerDelta updateTimers) reqs ∧
      Chained s' (Function.update (remaining s lists timerDelta updateTimers) .lru lru) := by
  have hlength : (lists .sync).length + (lists .modified).length ≤ turns := by omega
  obtain ⟨s₁, s₂, t, heq₁, heq₂, hswept, hascends, hperm, hchained⟩ :=
    h.sweeps timerDelta updateTimers hlength
  have hshort : t.length ≤ (lists .sync).length + (lists .modified).length :=
    hperm.length_eq.le.trans (length_selected s lists timerDelta updateTimers)
  have hmem : ∀ bd ∈ t, bd ∈ lists .sync ++ lists .modified ∧
      transferDevice s lists timerDelta updateTimers = some (s.tree.dd bd) :=
    fun bd hbd => mem_selected (hperm.mem_iff.mp hbd)
  have htree := hswept.tree
  have hfiled : Filed s₂ t := (h.filed.mono fun bd hbd => (hmem bd hbd).1).congr htree
  obtain ⟨s₃, reqs, heq₃, hreqs, hwrites, lru, hchained₃⟩ :=
    swapoutWrite_spec hchained (Function.update_self _ _ _) hfiled (htree ▸ hascends)
      (fun bd hbd => htree ▸ (hmem bd hbd).2) (htree ▸ h.block) h.media hmax
      (show avlMaxHeight ≤ turns by omega) (by omega) s.syncActive
  have hempty : s₂.isEmpty .transfer = (selected s lists timerDelta updateTimers).isEmpty := by
    rw [hchained.isEmpty, Function.update_self]
    exact hperm.isEmpty_eq
  have hlists : Function.update (Function.update (remaining s lists timerDelta updateTimers)
      .transfer t) .transfer [] = remaining s lists timerDelta updateTimers := by
    rw [Function.update_idem, remaining, Function.update_idem]
  rw [hlists] at hchained₃
  rw [hswept.actions] at hreqs
  obtain ⟨s', heq, hlinks, hactions⟩ := swapoutProcessing_of heq₁ heq₂ heq₃
  rw [hempty] at heq
  exact ⟨s', reqs, lru, heq, hactions.trans hreqs, hwrites.swept hswept hperm, hchained₃.congr hlinks⟩

/-- **The requests of a swapout have each selected buffer once**, in the order of the blocks, in
batches that are not too long and, for a device that wants that, without gaps.  The other buffers
stay on their chains in their order, and all loops end. -/
theorem swapout_batches (h : Ready cfg s lists) (hmax : 1 ≤ cfg.maxWriteBlocks) (timerDelta : ℕ)
    (updateTimers : Bool)
    (hturns : 2 * ((lists .sync).length + (lists .modified).length) + avlMaxHeight ≤ turns) :
    ∃ s' reqs lists', swapoutProcessing cfg turns timerDelta updateTimers s =
        some (s', ! (selected s lists timerDelta updateTimers).isEmpty) ∧
      requests s'.actions = requests s.actions ++ reqs ∧
      Writes cfg s (transferDevice s lists timerDelta updateTimers)
        (selected s lists timerDelta updateTimers) reqs ∧
      Chained s' lists' ∧
      ∀ c ≠ .lru, lists' c = remaining s lists timerDelta updateTimers c := by
  obtain ⟨s', reqs, lru, heq, hreqs, hwrites, hchained⟩ := h.processing hmax timerDelta updateTimers hturns
  exact ⟨s', reqs, _, heq, hreqs, hwrites, hchained, fun c hc => Function.update_of_ne hc _ _⟩

/-! ## An example -/

/-- The buffers 11, 12 and 14 of device 1 and the buffer 21 of device 2, in a tree. -/
def dirtyNodes : Nodes ℕ ℕ where
  dd x := x / 10
  block x := x % 10
  child
    | 12, .left => some 11
    | 12, .right => some 14
    | 14, .right => some 21
    | _, _ => none
  cache _ := 0
  bal x := if x = 12 ∨ x = 14 then 1 else 0
  root := some 12

def noChains : Cache ℕ ℕ where
  links := ⟨id, id⟩
  tree := dirtyNodes
  state _ := .modified
  holdTimer x := if x = 11 then 3 else 0
  waiters _ := 0
  buffer x := 512 * x
  group _ := 0
  users _ := 1
  stats _ := ⟨0, 0, 0, 0, 0⟩
  transferWaiters := 0
  bufferWaiters := 0
  syncActive := false
  syncDevice := none
  syncRequester := false
  actions := []

/-- All buffers are modified, and the time of the last one has not come. -/
def dirtyCache : Cache ℕ ℕ :=
  (((noChains.append .modified 14).append .modified 21).append .modified 12).append .modified 11

def dirtyLists : ChainName → List ℕ
  | .modified => [14, 21, 12, 11]
  | _ => []

/-- Two buffers for each request, of blocks that follow one another. -/
def rowSetup : Setup ℕ ℕ where
  maxWriteBlocks := 2
  disk _ := ⟨1, 512, true, false⟩
  answer _ _ _ := .successful

theorem dirty_ready : Ready rowSetup dirtyCache dirtyLists where
  chained := by
    constructor
    · intro c
      cases c <;> exact ⟨by decide, by decide⟩
    · intro c c' hne
      cases c <;> cases c' <;> first | exact absurd rfl hne | decide
  filed := by
    refine ⟨.node (some .right) (.node none .leaf 11 .leaf) 12 (.node (some .right) .leaf 14
      (.node none .leaf 21 .leaf)), ⟨?_, by decide, ?_, ?_⟩, by decide, by decide⟩
    · exact ⟨rfl, rfl, ⟨rfl, rfl, rfl, rfl⟩, rfl, rfl, rfl, rfl, rfl, rfl, rfl⟩
    · simp [Avl.Tree.Balanced, Avl.Tree.Leans, Avl.Tree.height]
    · change List.Pairwise (fun x y => keyOf dirtyNodes x < keyOf dirtyNodes y) [11, 12, 14, 21]
      simp [keyOf, dirtyNodes, Prod.Lex.toLex_lt_toLex]
  block bd := (Nat.mod_lt bd (by decide)).trans (by decide)
  media _ := show 1 < 2 ^ 32 by decide

example : (swapoutProcessing rowSetup 40 0 false dirtyCache).map (fun r => requests r.1.actions) =
    some [(1, ⟨.write, [⟨2, 512, 6144, 12⟩]⟩), (1, ⟨.write, [⟨4, 512, 7168, 14⟩]⟩)] := by
  decide

theorem swapout_batches_two : selected dirtyCache dirtyLists 0 false = [14, 12] ∧
    remaining dirtyCache dirtyLists 0 false .modified = [21, 11] ∧
    ∃ s' reqs lists', swapoutProcessing rowSetup 40 0 false dirtyCache = some (s', true) ∧
      requests s'.actions = reqs ∧ Writes rowSetup dirtyCache (some 1) [14, 12] reqs ∧
      Chained s' lists' ∧ ∀ c ≠ .lru, lists' c = remaining dirtyCache dirtyLists 0 false c :=
  ⟨by decide, by decide, swapout_batches dirty_ready (by decide) 0 false (by decide)⟩

end Rtems.Bdbuf

/-!
## Writes that fail

A write that fails is to leave its buffers on the chain of the modified buffers.  The completion of
a transfer does not know about writes: it discards the buffers of every transfer that fails.
-/

namespace Rtems.Bdbuf

variable {Bd Dev : Type} [DecidableEq Bd] [LinearOrder Dev] {cfg : Setup Bd Dev}
  {s s' : Cache Bd Dev} {lists lists' : ChainName → List Bd} {bd : Bd} {turns timerDelta : ℕ}
  {sc : StatusCode} {updateTimers : Bool}

/-! ## The buffers of the transfer -/

/-- The completion changes the state of no other buffer. -/
theorem finishBuffer_state (h : finishBuffer turns sc s bd = some s') {x : Bd} (hx : x ≠ bd) :
    s'.state x = s.state x := by
  rw [finishBuffer] at h
  split at h
  next =>
    cases h
    exact Function.update_of_ne hx ..
  next =>
    rw [discardBuffer] at h
    split at h
    next =>
      obtain ⟨s₁, hremove, rfl⟩ := Option.map_eq_some_iff.mp h
      rw [removeFromTree] at hremove
      split at hremove
      next =>
        cases hremove
        simp [makeFreeAndAddToLruList, Cache.setState, Cache.prepend, Cache.insert, Cache.groupRelease, hx]
      next => cases hremove
    next =>
      cases h
      exact Function.update_of_ne hx ..

/-- Without success the buffer is free, or empty for those who wait for it. -/
theorem finishBuffer_failed (h : finishBuffer turns sc s bd = some s') (hsc : sc ≠ .successful) :
    s'.state bd = if s.waiters bd = 0 then .free else .empty := by
  rw [finishBuffer, if_neg (fun hok => hsc hok.1), discardBuffer] at h
  change (if s.waiters bd = 0 then _ else _) = _ at h
  split at h
  next hw =>
    obtain ⟨s₁, hremove, rfl⟩ := Option.map_eq_some_iff.mp h
    rw [if_pos hw]
    exact Function.update_self ..
  next hw =>
    cases h
    rw [if_neg hw]
    exact Function.update_self ..

theorem finishBuffers_failed {bds : List Bd} (h : finishBuffers turns sc s bds = some s')
    (hsc : sc ≠ .successful) (hnodup : bds.Nodup) :
    (∀ x ∉ bds, s'.state x = s.state x) ∧ ∀ x ∈ bds, s'.state x = .free ∨ s'.state x = .empty := by
  induction bds generalizing s with
  | nil =>
    cases h
    exact ⟨fun _ _ => rfl, fun _ hx => absurd hx List.not_mem_nil⟩
  | cons bd bds ih =>
    obtain ⟨s₁, hfirst, hrest⟩ := Option.bind_eq_some_iff.mp h
    obtain ⟨hbd, hnodup⟩ := List.nodup_cons.mp hnodup
    obtain ⟨hother, hlost⟩ := ih hrest hnodup
    refine ⟨?_, ?_⟩
    · intro x hx
      rw [hother x (List.not_mem_of_not_mem_cons hx)]
      exact finishBuffer_state hfirst (List.ne_of_not_mem_cons hx)
    · intro x hx
      rcases List.mem_cons.mp hx with rfl | hx
      · rw [hother x hbd, finishBuffer_failed hfirst hsc]
        split
        next => exact .inl rfl
        next => exact .inr rfl
      · exact hlost x hx

section

omit [DecidableEq Bd] [LinearOrder Dev]

theorem wake_state (count : ℕ) (action : Action Bd Dev) : (s.wake count action).state = s.state := by
  rw [Cache.wake]
  split <;> rfl

theorem wakeWaiters_state (wakeTransfer wakeBuffer : Bool) :
    (wakeWaiters s wakeTransfer wakeBuffer).state = s.state := by
  cases wakeTransfer <;> cases wakeBuffer <;> simp [wakeWaiters, wake_state]

end

/-- **A transfer that fails loses its buffers**, also those that were to be written. -/
theorem executeTransferRequest_failed {dd : Dev} {req : Request Bd}
    (h : executeTransferRequest cfg turns s dd req = some (s', sc))
    (hfail : cfg.answer s.actions dd req ≠ .successful) (hnodup : (req.bufs.map SgBuffer.user).Nodup) :
    ∀ b ∈ req.bufs, s'.state b.user = .free ∨ s'.state b.user = .empty := by
  obtain ⟨s₁, hfinish, heq⟩ := Option.bind_eq_some_iff.mp h
  have hlost := (finishBuffers_failed hfinish hfail hnodup).2
  intro b hb
  have hs' := congrArg (fun r => r.1.state b.user) (Option.some.inj heq)
  rw [← hs', wakeWaiters_state]
  exact hlost b.user (List.mem_map_of_mem hb)

/-! ## The swapout -/

/-- The request was made on the way, and the device did not write it. -/
def WriteFailed (cfg : Setup Bd Dev) (s s' : Cache Bd Dev) (dd : Dev) (req : Request Bd) : Prop :=
  ∃ before behind, s'.actions = s.actions ++ (before ++ .request dd req :: behind) ∧
    cfg.answer (s.actions ++ before) dd req ≠ .successful

/-- The buffers of the writes that failed are modified buffers again. -/
def PutsBack (cfg : Setup Bd Dev) (s s' : Cache Bd Dev) (lists' : ChainName → List Bd) : Prop :=
  ∀ dd req, WriteFailed cfg s s' dd req → ∀ b ∈ req.bufs, b.user ∈ lists' .modified

section

omit [DecidableEq Bd] [LinearOrder Dev]

theorem WriteFailed.mem {dd : Dev} {req : Request Bd} {reqs : List (Dev × Request Bd)}
    (h : WriteFailed cfg s s' dd req) (hreqs : requests s'.actions = requests s.actions ++ reqs) :
    (dd, req) ∈ reqs := by
  obtain ⟨before, behind, hactions, -⟩ := h
  rw [hactions, requests_append] at hreqs
  have hrest := List.append_cancel_left hreqs
  rw [← hrest, requests_append]
  exact List.mem_append_right _ List.mem_cons_self

end

/-- No selected buffer is on the chain of the modified buffers behind the swapout. -/
theorem not_mem_remaining (h : Ready cfg s lists) (hbd : bd ∈ selected s lists timerDelta updateTimers) :
    bd ∉ remaining s lists timerDelta updateTimers .modified := by
  intro hmem
  simp only [remaining, ne_eq, reduceCtorEq, not_false_eq_true, Function.update_of_ne,
    Function.update_self] at hmem
  obtain ⟨hmodified, hstays⟩ := List.mem_filter.mp hmem
  rcases List.mem_append.mp hbd with hin | hin
  · exact h.chained.apart (by simp) (List.mem_filter.mp hin).1 hmodified
  · simp [(List.mem_filter.mp hin).2] at hstays

/-- **The buffers of failed writes are not put back.**  The swapout keeps its buffers only if no
write fails. -/
theorem swapout_putsBack_iff (h : Ready cfg s lists) (hmax : 1 ≤ cfg.maxWriteBlocks) (timerDelta : ℕ)
    (updateTimers : Bool)
    (hturns : 2 * ((lists .sync).length + (lists .modified).length) + avlMaxHeight ≤ turns) :
    ∃ s' transfered lists', swapoutProcessing cfg turns timerDelta updateTimers s = some (s', transfered) ∧
      Chained s' lists' ∧
      (PutsBack cfg s s' lists' ↔ ∀ dd req, ¬ WriteFailed cfg s s' dd req) := by
  obtain ⟨s', reqs, lru, heq, hreqs, hwrites, hchained⟩ := h.processing hmax timerDelta updateTimers hturns
  refine ⟨s', _, _, heq, hchained, ?_, fun hnone dd req hfailed => absurd hfailed (hnone dd req)⟩
  intro hback dd req hfailed
  have hreq := hfailed.mem hreqs
  obtain ⟨b, hb⟩ := List.exists_mem_of_ne_nil _ (hwrites.write _ hreq).2
  have hselected : b.user ∈ selected s lists timerDelta updateTimers :=
    hwrites.once.mem_iff.mp (List.mem_flatMap_of_mem hreq (List.mem_map_of_mem hb))
  have hmodified := hback dd req hfailed b hb
  rw [Function.update_of_ne (by simp)] at hmodified
  exact not_mem_remaining h hselected hmodified

/-- A device that writes once and then fails. -/
def failingSetup : Setup ℕ ℕ :=
  { rowSetup with answer := fun actions _ _ => if actions.isEmpty then .successful else .ioError }

theorem failing_ready : Ready failingSetup dirtyCache dirtyLists where
  chained := dirty_ready.chained
  filed := dirty_ready.filed
  block := dirty_ready.block
  media := dirty_ready.media

/-- The first write succeeds, and the second one fails. -/
theorem swapout_putsBack_iff_dirty :
    ((swapoutProcessing failingSetup 40 0 false dirtyCache).map
      fun r => (requests r.1.actions).length) = some 2 ∧
      ∃ s' transfered lists',
        swapoutProcessing failingSetup 40 0 false dirtyCache = some (s', transfered) ∧
        Chained s' lists' ∧ (PutsBack failingSetup dirtyCache s' lists' ↔
          ∀ dd req, ¬ WriteFailed failingSetup dirtyCache s' dd req) :=
  ⟨by decide, swapout_putsBack_iff failing_ready (by decide) 0 false (by decide)⟩

/-- Only the buffer 14 is modified. -/
def oneDirty : Cache ℕ ℕ := noChains.append .modified 14

def oneList : ChainName → List ℕ
  | .modified => [14]
  | _ => []

/-- A device that cannot write. -/
def brokenSetup : Setup ℕ ℕ := { rowSetup with answer := fun _ _ _ => .ioError }

theorem oneDirty_ready : Ready brokenSetup oneDirty oneList where
  chained := by
    constructor
    · intro c
      cases c <;> exact ⟨by decide, by decide⟩
    · intro c c' hne
      cases c <;> cases c' <;> first | exact absurd rfl hne | decide
  filed := dirty_ready.filed.mono (by decide)
  block := dirty_ready.block
  media := dirty_ready.media

/-- The write of the only buffer fails, and no buffer is modified any more. -/
theorem failed_write_lost : ¬ ∀ (cfg : Setup ℕ ℕ) (s s' : Cache ℕ ℕ) (lists lists' : ChainName → List ℕ)
    (turns timerDelta : ℕ) (updateTimers transfered : Bool), Ready cfg s lists →
      1 ≤ cfg.maxWriteBlocks →
      2 * ((lists .sync).length + (lists .modified).length) + avlMaxHeight ≤ turns →
      swapoutProcessing cfg turns timerDelta updateTimers s = some (s', transfered) →
      Chained s' lists' → PutsBack cfg s s' lists' := by
  intro hall
  have hturns : 2 * ((oneList .sync).length + (oneList .modified).length) + avlMaxHeight ≤ 34 := by decide
  obtain ⟨s', reqs, lru, heq, -, -, hchained⟩ := oneDirty_ready.processing (by decide) 0 false hturns
  have hback := hall _ _ _ _ _ _ _ _ _ oneDirty_ready (by decide) hturns heq hchained
  have hrun : (swapoutProcessing brokenSetup 34 0 false oneDirty).map
      (fun r => (r.1.isEmpty .modified, r.1.actions)) =
        some (true, [.request 1 ⟨.write, [⟨4, 512, 7168, 14⟩]⟩]) := by
    decide
  rw [heq] at hrun
  obtain ⟨hempty, hactions⟩ := Prod.mk.inj (Option.some.inj hrun)
  have hfailed : WriteFailed brokenSetup oneDirty s' 1 ⟨.write, [⟨4, 512, 7168, 14⟩]⟩ :=
    ⟨[], [], hactions, by decide⟩
  have hmem := hback _ _ hfailed _ List.mem_cons_self
  rw [hchained.isEmpty, List.isEmpty_iff] at hempty
  rw [hempty] at hmem
  cases hmem

end Rtems.Bdbuf
