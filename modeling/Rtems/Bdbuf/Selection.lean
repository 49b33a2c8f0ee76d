import Rtems.Bdbuf.Swapout

/-!
# The buffers that are written

What `rtems_bdbuf_swapout_modified_processing` takes off a chain, and the order in which it puts
it on the chain of the transfer.
-/

namespace Rtems.Bdbuf

open Lib

variable {Bd Dev : Type} [DecidableEq Bd] {s s' : Cache Bd Dev} {lists : ChainName → List Bd}
  {chain : ChainName} {as bs fs l : List Bd} {bd x : Bd} {after : Node Bd} {dd : Option Dev}

/-! ## The chains -/

/-- The chains of the cache go through these buffers. -/
def Chained (s : Cache Bd Dev) (lists : ChainName → List Bd) : Prop :=
  s.links.Rings Node.control (List.map Node.link ∘ lists)

/-- The node of the last buffer, or the control. -/
def lastNode (chain : ChainName) (as : List Bd) : Node Bd :=
  Links.lastOf (.control chain) (as.map .link)

/-- The node of the first buffer, or the control. -/
def firstNode (chain : ChainName) (bs : List Bd) : Node Bd :=
  Links.firstOf (.control chain) (bs.map .link)

section

omit [DecidableEq Bd]

@[simp]
theorem lastNode_nil : lastNode chain ([] : List Bd) = .control chain := rfl

@[simp]
theorem lastNode_concat : lastNode chain (as ++ [bd]) = .link bd := by
  simp [lastNode]

@[simp]
theorem firstNode_nil : firstNode chain ([] : List Bd) = .control chain := rfl

@[simp]
theorem firstNode_cons : firstNode chain (bd :: bs) = .link bd := rfl

theorem Chained.ring (h : Chained s lists) (chain : ChainName) :
    s.links.Ring (.control chain) ((lists chain).map .link) := Links.Rings.ring h chain

theorem Chained.congr (h : Chained s lists) (hlinks : s'.links = s.links) : Chained s' lists := by
  rw [Chained, hlinks]
  exact h

theorem Chained.next_control (h : Chained s lists) (chain : ChainName) :
    s.links.next (.control chain) = firstNode chain (lists chain) := (h.ring chain).next_head

theorem Chained.prev_control (h : Chained s lists) (chain : ChainName) :
    s.links.prev (.control chain) = lastNode chain (lists chain) := by
  have hring : s.links.Ring (.control chain) ((lists chain).map .link ++ []) := by
    simpa using h.ring chain
  exact hring.linked_cut.2

theorem Chained.next (h : Chained s lists) (hlist : lists chain = as ++ bd :: bs) :
    s.links.next (.link bd) = firstNode chain bs := by
  have hring := h.ring chain
  rw [hlist, List.map_append, List.map_cons] at hring
  exact hring.next

theorem Chained.prev (h : Chained s lists) (hlist : lists chain = as ++ bd :: bs) :
    s.links.prev (.link bd) = lastNode chain as := by
  have hring := h.ring chain
  rw [hlist, List.map_append, List.map_cons] at hring
  exact hring.prev

end

theorem Chained.isEmpty (h : Chained s lists) (chain : ChainName) :
    s.isEmpty chain = (lists chain).isEmpty := by
  rw [Cache.isEmpty, h.next_control]
  cases lists chain with
  | nil => simp
  | cons bd bs => simp

section

omit [DecidableEq Bd]

theorem Chained.nodup (h : Chained s lists) (chain : ChainName) : (lists chain).Nodup :=
  List.Nodup.of_map _ (List.nodup_cons.mp (h.ring chain).nodup).2

theorem Chained.apart (h : Chained s lists) {chain' : ChainName} (hne : chain ≠ chain')
    (hbd : bd ∈ lists chain) : bd ∉ lists chain' := by
  have hout := Links.Rings.apart h chain chain' hne (.link bd)
    (List.mem_cons_of_mem _ (List.mem_map_of_mem hbd))
  intro hmem
  exact hout (List.mem_cons_of_mem _ (List.mem_map_of_mem hmem))

end

theorem Chained.extract (h : Chained s lists) (hlist : lists chain = as ++ bd :: bs) :
    Chained (s.extract bd) (Function.update lists chain (as ++ bs)) := by
  have hnodes : (List.map Node.link ∘ lists) chain = as.map .link ++ .link bd :: bs.map .link := by
    simp [hlist]
  have hremove := Links.Rings.remove h hnodes
  rw [← List.map_append] at hremove
  rw [Chained, Function.comp_update]
  exact hremove

section

omit [DecidableEq Bd]

theorem notMem_nodes (hbd : ∀ c, bd ∉ lists c) (chain : ChainName) :
    Node.link bd ∉ Node.control chain :: (List.map Node.link ∘ lists) chain := by
  have hout := hbd chain
  simp [hout]

end

theorem Chained.insert (h : Chained s lists) (hlist : lists chain = as ++ bs)
    (hbd : ∀ c, bd ∉ lists c) :
    Chained (s.insert (lastNode chain as) bd) (Function.update lists chain (as ++ bd :: bs)) := by
  have hnodes : (List.map Node.link ∘ lists) chain = as.map .link ++ bs.map .link := by
    simp [hlist]
  have hinsert := Links.Rings.insertAfter h hnodes (notMem_nodes hbd)
  rw [← List.map_cons, ← List.map_append] at hinsert
  rw [Chained, Function.comp_update]
  exact hinsert

theorem Chained.prepend (h : Chained s lists) (chain : ChainName) (hbd : ∀ c, bd ∉ lists c) :
    Chained (s.prepend chain bd) (Function.update lists chain (bd :: lists chain)) := by
  have hlist : lists chain = [] ++ lists chain := rfl
  exact h.insert hlist hbd

theorem Chained.append (h : Chained s lists) (chain : ChainName) (hbd : ∀ c, bd ∉ lists c) :
    Chained (s.append chain bd) (Function.update lists chain (lists chain ++ [bd])) := by
  have hnodes : (List.map Node.link ∘ lists) chain = (lists chain).map .link ++ [] := by simp
  have hinsert := Links.Rings.insertBefore h hnodes (notMem_nodes hbd)
  rw [Chained, Function.comp_update, List.map_append]
  exact hinsert

/-! ## The place on the chain of the transfer -/

/-- The buffers are in the order of their blocks. -/
def Ascends (tree : Nodes Bd Dev) (bds : List Bd) : Prop :=
  bds.Pairwise fun a b => tree.block a ≤ tree.block b

section

omit [DecidableEq Bd]

/-- The buffer comes behind all buffers with lower blocks and before the others. -/
theorem Ascends.place {tree : Nodes Bd Dev} (h : Ascends tree (as ++ bs))
    (hlast : ∀ a ∈ as.getLast?, tree.block a < tree.block bd)
    (hbehind : ∀ b ∈ bs, tree.block bd ≤ tree.block b) : Ascends tree (as ++ bd :: bs) := by
  obtain ⟨has, hbs, hacross⟩ := List.pairwise_append.mp h
  refine List.pairwise_append.mpr ⟨has, List.pairwise_cons.mpr ⟨hbehind, hbs⟩, ?_⟩
  intro a ha b hb
  rcases List.mem_cons.mp hb with rfl | hb
  · cases as using List.reverseRecOn with
    | nil => cases ha
    | append_singleton as z =>
      have hz : tree.block z < tree.block b := hlast z (by simp)
      rcases List.mem_append.mp ha with hin | hin
      · have hle := (List.pairwise_append.mp has).2.2 a hin z (by simp)
        exact hle.trans hz.le
      · rw [List.mem_singleton.mp hin]
        exact hz.le
  · exact hacross a ha b hb

end

/-- The links are changed, and nothing else. -/
def Relinked (s s' : Cache Bd Dev) : Prop := ∃ links, s' = { s with links := links }

theorem insertLoop_spec {turns : ℕ} (h : Chained s lists) (hlist : lists .transfer = fs ++ bs)
    (hbd : ∀ c, bd ∉ lists c) (hbehind : ∀ b ∈ bs, s.tree.block bd ≤ s.tree.block b)
    (hturns : fs.length ≤ turns) :
    ∃ s' as' bs', insertLoop s bd turns (lastNode .transfer fs) = some s' ∧
      as' ++ bs' = fs ++ bs ∧ (∀ a ∈ as'.getLast?, s.tree.block a < s.tree.block bd) ∧
      (∀ b ∈ bs', s.tree.block bd ≤ s.tree.block b) ∧ Relinked s s' ∧
      Chained s' (Function.update lists .transfer (as' ++ bd :: bs')) := by
  induction fs using List.reverseRecOn generalizing bs turns with
  | nil =>
    refine ⟨s.prepend .transfer bd, [], bs, ?_, rfl, by simp, hbehind, ⟨_, rfl⟩, ?_⟩
    · cases turns <;> rfl
    · have hbs : lists .transfer = bs := hlist
      have hprepend := h.prepend .transfer hbd
      rwa [hbs] at hprepend
  | append_singleton fs tbd ih =>
    cases turns with
    | zero => simp at hturns
    | succ turns =>
      have hlength : fs.length ≤ turns := by simpa using hturns
      have hcut : lists .transfer = fs ++ tbd :: bs := by simpa using hlist
      rw [lastNode_concat, insertLoop]
      split
      next hlt =>
        refine ⟨s.insert (.link tbd) bd, fs ++ [tbd], bs, rfl, rfl, ?_, hbehind, ⟨_, rfl⟩, ?_⟩
        · intro a ha
          obtain rfl : tbd = a := by simpa using ha
          exact hlt
        · have hinsert := h.insert hlist hbd
          rwa [lastNode_concat] at hinsert
      next hle =>
        rw [h.prev hcut]
        have hbehind' : ∀ b ∈ tbd :: bs, s.tree.block bd ≤ s.tree.block b := by
          intro b hb
          rcases List.mem_cons.mp hb with rfl | hb
          · exact Nat.le_of_not_lt hle
          · exact hbehind b hb
        obtain ⟨s', as', bs', heq, hall, hrest⟩ := ih hcut hbehind' hlength
        exact ⟨s', as', bs', heq, by simpa using hall, hrest⟩

/-! ## The sweep -/

variable [LinearOrder Dev] {w : Sweep} {E : Bd → Prop} [DecidablePred E]

/-- The device of the sweep, or that of the first buffer that has to be written. -/
def chosenDevice (tree : Nodes Bd Dev) (E : Bd → Prop) [DecidablePred E] (dd : Option Dev) (l : List Bd) :
    Option Dev :=
  dd.or ((l.find? (E ·)).map tree.dd)

/-- The buffer has to be written, and to the device. -/
def Selects (tree : Nodes Bd Dev) (E : Bd → Prop) (dd : Option Dev) (bd : Bd) : Prop :=
  E bd ∧ dd = some (tree.dd bd)

instance {tree : Nodes Bd Dev} : DecidablePred (Selects tree E dd) :=
  fun _ => inferInstanceAs (Decidable (_ ∧ _))

/-- The links, the states and the hold timers are changed, and nothing else. -/
def Swept (s s' : Cache Bd Dev) : Prop :=
  ∃ links state holdTimer, s' = { s with links := links, state := state, holdTimer := holdTimer }

section

omit [DecidableEq Bd] [LinearOrder Dev]

theorem Swept.trans {s'' : Cache Bd Dev} (h : Swept s s') (h' : Swept s' s'') : Swept s s'' := by
  obtain ⟨links, state, holdTimer, rfl⟩ := h
  obtain ⟨links', state', holdTimer', rfl⟩ := h'
  exact ⟨links', state', holdTimer', rfl⟩

theorem Swept.tree (h : Swept s s') : s'.tree = s.tree := by
  obtain ⟨links, state, holdTimer, rfl⟩ := h
  rfl

theorem Swept.actions (h : Swept s s') : s'.actions = s.actions := by
  obtain ⟨links, state, holdTimer, rfl⟩ := h
  rfl

end

section

omit [LinearOrder Dev]

/-- A buffer goes from its chain to its place on the chain of the transfer. -/
theorem Chained.select {fuel : ℕ} (h : Chained s lists) (hchain : chain ≠ .transfer)
    (hlist : lists chain = as ++ bd :: bs) (hfuel : (lists .transfer).length ≤ fuel)
    (hsorted : Ascends s.tree (lists .transfer)) :
    ∃ s' t, insertLoop (s.extract bd) bd fuel ((s.extract bd).links.prev (.control .transfer)) =
        some s' ∧ Relinked s s' ∧ Ascends s.tree t ∧ t.Perm (bd :: lists .transfer) ∧
      Chained s' (Function.update (Function.update lists chain (as ++ bs)) .transfer t) := by
  have hextract := h.extract hlist
  have hnodup := h.nodup chain
  rw [hlist] at hnodup
  have hgone : ∀ c, bd ∉ Function.update lists chain (as ++ bs) c := by
    intro c
    by_cases hc : c = chain
    · rw [hc, Function.update_self]
      exact (List.nodup_cons.mp (List.nodup_middle.mp hnodup)).1
    · rw [Function.update_of_ne hc]
      have hmem : bd ∈ lists chain := by simp [hlist]
      exact h.apart (Ne.symm hc) hmem
  have htransfer : Function.update lists chain (as ++ bs) .transfer = lists .transfer ++ [] := by
    rw [Function.update_of_ne hchain.symm, List.append_nil]
  have hprev := hextract.prev_control .transfer
  rw [htransfer, List.append_nil] at hprev
  obtain ⟨s', fs, gs, heq, hall, hlast, hbehind, ⟨links, rfl⟩, hchained⟩ :=
    insertLoop_spec hextract htransfer hgone (by simp) hfuel
  rw [List.append_nil] at hall
  refine ⟨_, fs ++ bd :: gs, by rw [hprev]; exact heq, ⟨links, rfl⟩, ?_, ?_, hchained⟩
  · rw [← hall] at hsorted
    exact hsorted.place hlast hbehind
  · rw [← hall]
    exact List.perm_middle

end

section

omit [DecidableEq Bd]

theorem passTimer_congr {syncAll : Bool} (htree : s'.tree = s.tree)
    (hwaiters : s'.bufferWaiters = s.bufferWaiters) (htimer : s'.holdTimer bd = s.holdTimer bd) :
    passTimer w s' syncAll dd bd = passTimer w s syncAll dd bd := by
  simp only [passTimer, htree, hwaiters, htimer]

end

section

omit [DecidableEq Bd] [LinearOrder Dev]

theorem chosenDevice_skip (h : ¬ E bd) : chosenDevice s.tree E dd (bd :: l) = chosenDevice s.tree E dd l := by
  simp [chosenDevice, h]

theorem chosenDevice_take (h : E bd) :
    chosenDevice s.tree E dd (bd :: l) = some (dd.getD (s.tree.dd bd)) := by
  cases dd <;> simp [chosenDevice, h]

end

section

variable {syncAll : Bool} {fuel turns : ℕ}

/-- A buffer whose time has not come stays. -/
theorem sweepLoop_held (ht : passTimer w s syncAll dd bd ≠ 0) :
    sweepLoop w syncAll fuel (turns + 1) s dd (.link bd) =
      sweepLoop w syncAll fuel turns (s.setHoldTimer bd (passTimer w s syncAll dd bd)) dd
        (s.links.next (.link bd)) := by
  simp [sweepLoop, ht]

/-- A buffer of another device stays. -/
theorem sweepLoop_other (ht : passTimer w s syncAll dd bd = 0)
    (hdev : s.tree.dd bd ≠ dd.getD (s.tree.dd bd)) :
    sweepLoop w syncAll fuel (turns + 1) s dd (.link bd) =
      sweepLoop w syncAll fuel turns (s.setHoldTimer bd 0) (some (dd.getD (s.tree.dd bd)))
        (s.links.next (.link bd)) := by
  simp [sweepLoop, ht, hdev]

theorem sweepLoop_selected (ht : passTimer w s syncAll dd bd = 0)
    (hdev : s.tree.dd bd = dd.getD (s.tree.dd bd))
    (hloop : insertLoop (((s.setHoldTimer bd 0).setState bd .transfer).extract bd) bd fuel
      ((((s.setHoldTimer bd 0).setState bd .transfer).extract bd).links.prev (.control .transfer)) =
        some s') :
    sweepLoop w syncAll fuel (turns + 1) s dd (.link bd) =
      sweepLoop w syncAll fuel turns s' (some (s.tree.dd bd)) (s.links.next (.link bd)) := by
  simp [sweepLoop, ht, ← hdev, hloop]

end

/-- The time of the buffers comes, whatever device has been chosen on the way. -/
def Expiring (w : Sweep) (s : Cache Bd Dev) (syncAll : Bool) (E : Bd → Prop) (dd : Option Dev)
    (l : List Bd) : Prop :=
  ∀ bd ∈ l, ∀ dd', dd = none ∨ dd' = dd → (passTimer w s syncAll dd' bd = 0 ↔ E bd)

section

omit [DecidableEq Bd] [DecidablePred E]

/-- What is known about the rest of the chain when a buffer has been looked at. -/
theorem Expiring.tail {syncAll : Bool} {dd₁ : Option Dev} (h : Expiring w s syncAll E dd (bd :: l))
    (hbd : bd ∉ l) (hdd₁ : dd = none ∨ dd₁ = dd) (htree : s'.tree = s.tree)
    (hwaiters : s'.bufferWaiters = s.bufferWaiters)
    (htimer : ∀ x, x ≠ bd → s'.holdTimer x = s.holdTimer x) : Expiring w s' syncAll E dd₁ l := by
  intro x hx dd' hdd'
  have hxbd : x ≠ bd := ne_of_mem_of_not_mem hx hbd
  rw [passTimer_congr htree hwaiters (htimer x hxbd)]
  apply h x (List.mem_cons_of_mem _ hx)
  rcases hdd₁ with hnone | rfl
  · exact .inl hnone
  · exact hdd'

end

theorem sweepLoop_spec {syncAll : Bool} {fuel : ℕ} (hchain : w.chain ≠ .transfer) :
    ∀ (l front : List Bd) (s : Cache Bd Dev) (lists : ChainName → List Bd) (dd : Option Dev)
      (turns : ℕ), Chained s lists → lists w.chain = front ++ l → Expiring w s syncAll E dd l →
      l.length ≤ turns → l.length + (lists .transfer).length ≤ fuel →
      Ascends s.tree (lists .transfer) →
      let dd' := chosenDevice s.tree E dd l
      ∃ s' t, sweepLoop w syncAll fuel turns s dd (firstNode w.chain l) = some (s', dd') ∧
        Swept s s' ∧ (∀ x, x ∉ l → s'.holdTimer x = s.holdTimer x) ∧ Ascends s.tree t ∧
        t.Perm (l.filter (Selects s.tree E dd' ·) ++ lists .transfer) ∧
        Chained s' (Function.update
          (Function.update lists w.chain (front ++ l.filter (! Selects s.tree E dd' ·)))
          .transfer t) := by
  intro l
  induction l with
  | nil =>
    intro front s lists dd turns h hlist hE hturns hfuel hsorted
    have hdd : chosenDevice s.tree E dd [] = dd := Option.or_none
    refine ⟨s, lists .transfer, ?_, ⟨_, _, _, rfl⟩, fun _ _ => rfl, hsorted, .refl _, ?_⟩
    · cases turns <;> simp [sweepLoop, hdd]
    · have hsame : Function.update (Function.update lists w.chain
          (front ++ ([] : List Bd).filter (! Selects s.tree E (chosenDevice s.tree E dd []) ·)))
          .transfer (lists .transfer) = lists := by
        simp [← hlist]
      rw [hsame]
      exact h
  | cons bd l ih =>
    intro front s lists dd turns h hlist hE hturns hfuel hsorted
    cases turns with
    | zero => simp at hturns
    | succ turns =>
      have hnodup : (front ++ bd :: l).Nodup := hlist ▸ h.nodup w.chain
      have hbdl : bd ∉ l := (List.nodup_cons.mp (List.nodup_append.mp hnodup).2.1).1
      have hlength : l.length ≤ turns := by simpa using hturns
      simp only [List.length_cons] at hfuel
      have hzero := hE bd List.mem_cons_self dd (.inr rfl)
      have hheld : lists w.chain = front ++ [bd] ++ l := by simpa using hlist
      have htimers : ∀ timer x, x ≠ bd → (s.setHoldTimer bd timer).holdTimer x = s.holdTimer x := by
        intro timer x hx
        simp [hx]
      by_cases hbd : E bd
      · have hdd₁ : dd = none ∨ some (dd.getD (s.tree.dd bd)) = dd := by
          cases dd <;> simp
        rw [chosenDevice_take hbd]
        by_cases hdev : s.tree.dd bd = dd.getD (s.tree.dd bd)
        · have hchained : Chained ((s.setHoldTimer bd 0).setState bd .transfer) lists := h.congr rfl
          obtain ⟨s₂, t₁, hloop, ⟨links, rfl⟩, hsorted₁, hperm₁, hchained₁⟩ :=
            hchained.select hchain hlist (show (lists .transfer).length ≤ fuel by omega) hsorted
          have hlist₁ : Function.update (Function.update lists w.chain (front ++ l)) .transfer t₁
              w.chain = front ++ l := by simp [hchain]
          have htransfer₁ : Function.update (Function.update lists w.chain (front ++ l)) .transfer t₁
              .transfer = t₁ := by simp
          have hlength₁ : t₁.length = (lists .transfer).length + 1 := by
            rw [hperm₁.length_eq, List.length_cons]
          rw [← hdev] at hdd₁ ⊢
          obtain ⟨s', t, heq, hswept, hkept, hsorted', hperm, hchained'⟩ := ih front _ _
            (some (s.tree.dd bd)) turns hchained₁ hlist₁
            (hE.tail hbdl hdd₁ rfl rfl (htimers 0)) hlength (by rw [htransfer₁]; omega)
            (by rw [htransfer₁]; exact hsorted₁)
          have hin : Selects s.tree E (some (s.tree.dd bd)) bd := ⟨hbd, rfl⟩
          refine ⟨s', t, ?_, Swept.trans ⟨_, _, _, rfl⟩ hswept, ?_, hsorted', ?_, ?_⟩
          · rw [firstNode_cons, sweepLoop_selected (hzero.mpr hbd) hdev hloop, h.next hlist]
            exact heq
          · intro x hx
            rw [hkept x (List.not_mem_of_not_mem_cons hx)]
            exact htimers 0 x (List.ne_of_not_mem_cons hx)
          · rw [htransfer₁] at hperm
            rw [List.filter_cons_of_pos (by simpa using hin), List.cons_append]
            exact (hperm.trans (hperm₁.append_left _)).trans List.perm_middle
          · rw [List.filter_cons_of_neg (by simpa using hin)]
            have hlists : Function.update (Function.update (Function.update (Function.update lists
                w.chain (front ++ l)) .transfer t₁) w.chain
                (front ++ l.filter (! Selects s.tree E (some (s.tree.dd bd)) ·))) .transfer t =
                Function.update (Function.update lists w.chain
                (front ++ l.filter (! Selects s.tree E (some (s.tree.dd bd)) ·))) .transfer t := by
              rw [Function.update_comm hchain.symm, Function.update_idem, Function.update_idem]
            rw [← hlists]
            exact hchained'
        · obtain ⟨s', t, heq, hswept, hkept, hrest⟩ := ih (front ++ [bd])
            (s.setHoldTimer bd 0) lists (some (dd.getD (s.tree.dd bd))) turns (h.congr rfl) hheld
            (hE.tail hbdl hdd₁ rfl rfl (htimers 0)) hlength (by omega) hsorted
          refine ⟨s', t, ?_, Swept.trans ⟨_, _, _, rfl⟩ hswept, ?_, ?_⟩
          · rw [firstNode_cons, sweepLoop_other (hzero.mpr hbd) hdev, h.next hlist]
            exact heq
          · intro x hx
            rw [hkept x (List.not_mem_of_not_mem_cons hx)]
            exact htimers 0 x (List.ne_of_not_mem_cons hx)
          · have hout : ¬ Selects s.tree E (some (dd.getD (s.tree.dd bd))) bd :=
              fun hsel => hdev (Option.some.inj hsel.2).symm
            obtain ⟨hsorted', hperm, hchained'⟩ := hrest
            rw [List.filter_cons_of_neg (by simpa using hout),
              List.filter_cons_of_pos (by simpa using hout), List.append_cons]
            exact ⟨hsorted', hperm, hchained'⟩
      · have hne : passTimer w s syncAll dd bd ≠ 0 := fun heq => hbd (hzero.mp heq)
        obtain ⟨s', t, heq, hswept, hkept, hrest⟩ := ih (front ++ [bd])
          (s.setHoldTimer bd (passTimer w s syncAll dd bd)) lists dd turns (h.congr rfl) hheld
          (hE.tail hbdl (.inr rfl) rfl rfl (htimers _)) hlength (by omega) hsorted
        rw [chosenDevice_skip hbd]
        refine ⟨s', t, ?_, Swept.trans ⟨_, _, _, rfl⟩ hswept, ?_, ?_⟩
        · rw [firstNode_cons, sweepLoop_held hne, h.next hlist]
          exact heq
        · intro x hx
          rw [hkept x (List.not_mem_of_not_mem_cons hx)]
          exact htimers _ x (List.ne_of_not_mem_cons hx)
        · have hout : ¬ Selects s.tree E (chosenDevice s.tree E dd l) bd := fun hsel => hbd hsel.1
          obtain ⟨hsorted', hperm, hchained'⟩ := hrest
          rw [List.filter_cons_of_neg (by simpa using hout),
            List.filter_cons_of_pos (by simpa using hout), List.append_cons]
          exact ⟨hsorted', hperm, hchained'⟩

/-- The hold timer of the buffer does not hold it: it is set to zero, or it has run out. -/
def Due (w : Sweep) (s : Cache Bd Dev) (dd : Option Dev) (bd : Bd) : Prop :=
  (w.syncActive = true ∧ (dd = none ∨ dd = some (s.tree.dd bd))) ∨ s.bufferWaiters ≠ 0 ∨
    s.holdTimer bd ≤ if w.updateTimers = true then w.timerDelta else 0

instance : DecidablePred (Due w s dd) := fun _ => inferInstanceAs (Decidable (_ ∨ _))

section

omit [DecidableEq Bd]

theorem expiring_due (w : Sweep) (s : Cache Bd Dev) (dd : Option Dev) (l : List Bd) :
    Expiring w s (decide (w.syncActive = true ∧ dd = none)) (Due w s dd) dd l := by
  intro bd _ dd' hdd'
  have hforced : (decide (w.syncActive = true ∧ dd = none) = true ∨
      w.syncActive = true ∧ dd' = some (s.tree.dd bd) ∨ s.bufferWaiters ≠ 0) ↔
      (w.syncActive = true ∧ (dd = none ∨ dd = some (s.tree.dd bd))) ∨ s.bufferWaiters ≠ 0 := by
    rw [decide_eq_true_eq]
    rcases hdd' with rfl | rfl <;> simp <;> tauto
  simp only [passTimer, hforced]
  rw [Due, ← or_assoc]
  by_cases hzero : w.syncActive = true ∧ (dd = none ∨ dd = some (s.tree.dd bd)) ∨ s.bufferWaiters ≠ 0
  · simp only [hzero, if_true, true_or, ne_eq, not_true_eq_false, false_and, if_false]
  · simp only [hzero, if_false, false_or]
    cases w.updateTimers with
    | false => simp
    | true =>
      simp only [and_true, if_true]
      split
      next => split <;> omega
      next => omega

end

/-- What the function does to the chains: the buffers that are due and belong to the device go to the
chain of the transfer, and the others stay. -/
theorem swapoutModifiedProcessing_spec (w : Sweep) (dd : Option Dev) (E : Bd → Prop) [DecidablePred E]
    {turns : ℕ} (hchain : w.chain ≠ .transfer) (h : Chained s lists)
    (hE : ∀ bd ∈ lists w.chain, (Due w s dd bd ↔ E bd))
    (hturns : (lists w.chain).length + (lists .transfer).length ≤ turns)
    (hsorted : Ascends s.tree (lists .transfer)) :
    let dd' := chosenDevice s.tree E dd (lists w.chain)
    ∃ s' t, swapoutModifiedProcessing turns w s dd = some (s', dd') ∧ Swept s s' ∧
      (∀ x, x ∉ lists w.chain → s'.holdTimer x = s.holdTimer x) ∧ Ascends s.tree t ∧
      t.Perm ((lists w.chain).filter (Selects s.tree E dd' ·) ++ lists .transfer) ∧
      Chained s' (Function.update (Function.update lists w.chain
        ((lists w.chain).filter (! Selects s.tree E dd' ·))) .transfer t) := by
  have hexpiring : Expiring w s (decide (w.syncActive = true ∧ dd = none)) E dd (lists w.chain) := by
    intro bd hbd dd' hdd'
    rw [← hE bd hbd]
    exact expiring_due w s dd (lists w.chain) bd hbd dd' hdd'
  rw [swapoutModifiedProcessing, h.next_control]
  exact sweepLoop_spec hchain (lists w.chain) [] s lists dd turns h rfl hexpiring (by omega) hturns
    hsorted

end Rtems.Bdbuf
