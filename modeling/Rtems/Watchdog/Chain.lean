import Rtems.Watchdog.Model

/-!
# The chain as a list of delta intervals

A place in the chain splits it in two, and the sum of the intervals before the
place is the time at which the place is reached.  `Timed` says that the sums
are the ticks that remain for the watchdogs.  Linking and unlinking a watchdog
repairs its successor, so that the sums of all the others stay.
-/

namespace Rtems.Watchdog

variable {Wid : Type} [DecidableEq Wid] {s s' : State Wid} {w v : Wid} {pre post : List Wid}

/-! ## Places in the chain -/

theorem takeWhile_ne (h : w ∉ pre) : (pre ++ w :: post).takeWhile (· ≠ w) = pre := by
  rw [List.takeWhile_append_of_pos]
  · simp
  · intro x hx
    exact decide_eq_true fun e => h (e ▸ hx)

theorem dropWhile_ne (h : w ∉ pre) : (pre ++ w :: post).dropWhile (· ≠ w) = w :: post := by
  rw [List.dropWhile_append_of_pos]
  · simp
  · intro x hx
    exact decide_eq_true fun e => h (e ▸ hx)

theorem chainNext_mid (h : w ∉ pre) : chainNext (pre ++ w :: post) (some w) = post.head? := by
  simp only [chainNext]
  rw [dropWhile_ne h, List.tail_cons]

theorem chainPrevious_mid (h : w ∉ pre) : chainPrevious (pre ++ w :: post) w = pre.getLast? := by
  rw [chainPrevious, takeWhile_ne h]

/-- The place after the last watchdog of a part of the chain. -/
theorem chainNext_split (h : (pre ++ post).Nodup) :
    chainNext (pre ++ post) pre.getLast? = post.head? := by
  rcases List.eq_nil_or_concat pre with rfl | ⟨xs, v, rfl⟩
  · rfl
  · rw [List.concat_eq_append] at h ⊢
    rw [List.getLast?_concat, List.append_assoc]
    refine chainNext_mid fun hv => ?_
    rw [List.append_assoc] at h
    exact (List.nodup_append.mp h).2.2 v hv v List.mem_cons_self rfl

theorem chainInsert_split (h : (pre ++ post).Nodup) :
    chainInsert (pre ++ post) pre.getLast? w = pre ++ w :: post := by
  rcases List.eq_nil_or_concat pre with rfl | ⟨xs, v, rfl⟩
  · rfl
  · rw [List.concat_eq_append] at h ⊢
    have hv : v ∉ xs := fun hv => by
      rw [List.append_assoc] at h
      exact (List.nodup_append.mp h).2.2 v hv v List.mem_cons_self rfl
    rw [List.getLast?_concat, List.append_assoc]
    simp only [chainInsert]
    rw [List.singleton_append, takeWhile_ne hv, dropWhile_ne hv, List.tail_cons,
      List.append_assoc]
    rfl

/-! ## Times -/

/-- The watchdogs of the chain expire at the times that remain for them, or at once. -/
def Timed (r : Wid → Option Int) (d : Wid → Nat) : Nat → List Wid → Prop
  | _, [] => True
  | b, w :: ws => (∃ k, r w = some k ∧ k.toNat = b + d w) ∧ Timed r d (b + d w) ws

variable {r r' : Wid → Option Int} {d d' : Wid → Nat} {b : Nat}

section

omit [DecidableEq Wid]

theorem timed_append : Timed r d b (pre ++ post) ↔
    Timed r d b pre ∧ Timed r d (b + (pre.map d).sum) post := by
  induction pre generalizing b with
  | nil => simp [Timed]
  | cons x xs ih =>
    rw [List.cons_append, Timed, Timed, ih, List.map_cons, List.sum_cons, and_assoc,
      Nat.add_assoc]

theorem Timed.congr {ws : List Wid} (h : Timed r d b ws) (hr : ∀ w ∈ ws, r' w = r w)
    (hd : ∀ w ∈ ws, d' w = d w) : Timed r' d' b ws := by
  induction ws generalizing b with
  | nil => trivial
  | cons x xs ih =>
    obtain ⟨hx, hxs⟩ := h
    rw [Timed, hr x List.mem_cons_self, hd x List.mem_cons_self]
    exact ⟨hx, ih hxs (fun w hw => hr w (List.mem_cons_of_mem x hw))
      fun w hw => hd w (List.mem_cons_of_mem x hw)⟩

/-- The time passes for every watchdog. -/
theorem Timed.pass {ws : List Wid} {u : Nat} (h : Timed r d (b + u) ws) :
    Timed (fun w => (r w).map (· - (u : Int))) d b ws := by
  induction ws generalizing b with
  | nil => trivial
  | cons x xs ih =>
    obtain ⟨⟨k, hk, hb⟩, hxs⟩ := h
    refine ⟨⟨k - u, congrArg (Option.map (· - (u : Int))) hk, by omega⟩, ih ?_⟩
    rw [Nat.add_right_comm]
    exact hxs

/-- A delay for every watchdog. -/
theorem Timed.delay {ws : List Wid} {u : Nat} (h : Timed r d b ws)
    (hn : ∀ w ∈ ws, ∀ k, r w = some k → 0 ≤ k) :
    Timed (fun w => (r w).map (· + (u : Int))) d (b + u) ws := by
  induction ws generalizing b with
  | nil => trivial
  | cons x xs ih =>
    obtain ⟨⟨k, hk, hb⟩, hxs⟩ := h
    have hpos := hn x List.mem_cons_self k hk
    refine ⟨⟨k + u, congrArg (Option.map (· + (u : Int))) hk, by omega⟩, ?_⟩
    rw [Nat.add_right_comm]
    exact ih hxs fun w hw => hn w (List.mem_cons_of_mem x hw)

theorem Timed.mem {ws : List Wid} (h : Timed r d b ws) (hw : w ∈ ws) :
    ∃ k, r w = some k ∧ b ≤ k.toNat := by
  induction ws generalizing b with
  | nil => cases hw
  | cons x xs ih =>
    obtain ⟨⟨k, hk, hb⟩, hxs⟩ := h
    rcases List.mem_cons.mp hw with rfl | hw
    · exact ⟨k, hk, by omega⟩
    · obtain ⟨k, hk, hb⟩ := ih hxs hw
      exact ⟨k, hk, by omega⟩

end

/-- The sum up to a watchdog of the chain is what remains for it. -/
theorem Timed.ticksTo (h : Timed r s.delta 0 s.watchdogs) (hw : w ∈ s.watchdogs) :
    ∃ k, r w = some k ∧ k.toNat = s.ticksTo w := by
  obtain ⟨pre, post, hc, hpre⟩ := List.eq_append_cons_of_mem hw
  rw [State.ticksTo]
  rw [hc] at h ⊢
  rw [takeWhile_ne hpre]
  obtain ⟨k, hk, hb⟩ := (timed_append.mp h).2.1
  exact ⟨k, hk, by omega⟩

/-! ## Linking a watchdog -/

/-- The chain of `s'` is that of `s` with `w` linked at a place, `δ` after the watchdogs before
it. -/
structure Linked (s s' : State Wid) (w : Wid) (δ : Nat) (pre post : List Wid) : Prop where
  chain : s.watchdogs = pre ++ post
  chain' : s'.watchdogs = pre ++ w :: post
  lt_next : ∀ x ∈ post.head?, δ < s.delta x
  delta_self : s'.delta w = δ
  delta_next : ∀ x ∈ post.head?, s'.delta x = s.delta x - δ
  delta_other : ∀ x, x ≠ w → x ∉ post.head? → s'.delta x = s.delta x
  state_self : (s'.controls w).state = .active
  state_other : ∀ x, x ≠ w → (s'.controls x).state = (s.controls x).state

section

omit [DecidableEq Wid]

/-- The times of the others stay, and the time of the new watchdog is that of its place. -/
theorem Linked.timed (h : Linked s s' w n pre post) (hnd : s.watchdogs.Nodup)
    (hw : w ∉ s.watchdogs) (ht : Timed r s.delta 0 s.watchdogs)
    (hr : ∀ x, x ≠ w → r' x = r x) {k : Int} (hk : r' w = some k)
    (hn : k.toNat = (pre.map s.delta).sum + n) : Timed r' s'.delta 0 s'.watchdogs := by
  rw [h.chain] at hnd hw ht
  rw [h.chain']
  rw [List.mem_append, not_or] at hw
  rw [timed_append] at ht ⊢
  have hdisj := (List.nodup_append.mp hnd).2.2
  have hpre : ∀ x ∈ pre, s'.delta x = s.delta x := by
    intro x hx
    refine h.delta_other x (fun e => hw.1 (e ▸ hx)) fun hx' => ?_
    exact hdisj x hx x (List.mem_of_mem_head? hx') rfl
  have hsum : (pre.map s'.delta).sum = (pre.map s.delta).sum := by
    rw [List.map_congr_left hpre]
  refine ⟨ht.1.congr (fun x hx => hr x fun e => hw.1 (e ▸ hx)) hpre, ?_⟩
  rw [hsum]
  refine ⟨⟨k, hk, by rw [h.delta_self]; omega⟩, ?_⟩
  cases post with
  | nil => trivial
  | cons x xs =>
    have hx : s'.delta x = s.delta x - n := h.delta_next x rfl
    have hlt : n < s.delta x := h.lt_next x rfl
    obtain ⟨⟨j, hj, hb⟩, hxs⟩ := ht.2
    have hxw : x ≠ w := fun e => hw.2 (e ▸ List.mem_cons_self)
    have heq : 0 + (pre.map s.delta).sum + s'.delta w + s'.delta x =
        0 + (pre.map s.delta).sum + s.delta x := by
      rw [h.delta_self, hx]
      omega
    refine ⟨⟨j, (hr x hxw).trans hj, by omega⟩, ?_⟩
    rw [heq]
    have hnd' := (List.nodup_cons.mp (List.nodup_append.mp hnd).2.1).1
    refine hxs.congr (fun y hy => hr y fun e => ?_) fun y hy => ?_
    · exact hw.2 (e ▸ List.mem_cons_of_mem x hy)
    · refine h.delta_other y (fun e => hw.2 (e ▸ List.mem_cons_of_mem x hy)) fun e => ?_
      exact hnd' (Option.some.inj e ▸ hy)

end

/-- A nested insertion moves an iterator from the successor to the new watchdog. -/
def fixCurrent (next : Option Wid) (w : Wid) (i : Iterator Wid) : Iterator Wid :=
  if next ≠ none ∧ i.current = next then { i with current := some w } else i

theorem onControl_self (f : Control → Control) :
    (s.onControl w f).controls w = f (s.controls w) := Function.update_self ..

theorem onControl_other (f : Control → Control) (h : v ≠ w) :
    (s.onControl w f).controls v = s.controls v := Function.update_of_ne h ..

theorem insertFinish_controls {a δ : Nat} {current : Option Wid} :
    (insertFinish s w a δ current).controls = Function.update s.controls w
      { s.controls w with deltaInterval := δ, state := .active } := rfl

/-- The body of the loop at a place of the chain: the watchdog is linked there, or the insertion
goes one watchdog further. -/
theorem insertBody_split (a δ : Nat) (hnd : s.watchdogs.Nodup) (hw : w ∉ s.watchdogs)
    (hc : s.watchdogs = pre ++ post) :
    (∃ s', insertBody s w a δ pre.getLast? = .done s' ∧ Linked s s' w δ pre post ∧
      s'.history = s.history ∧
      s'.iterators = (s.iterators.map (fixCurrent post.head? w)).filter fun i => i.address ≠ a) ∨
    (∃ x xs, post = x :: xs ∧ s.delta x ≤ δ ∧
      insertBody s w a δ pre.getLast? = .flash (setIterator s a (δ - s.delta x) (some x))) := by
  rw [hc] at hnd hw
  have hnext := chainNext_split hnd
  unfold insertBody
  rw [hc, hnext]
  cases post with
  | nil =>
    refine .inl ⟨_, rfl, ⟨hc, ?_, ?_, ?_, ?_, ?_, ?_, ?_⟩, rfl, ?_⟩
    · exact (congrArg (chainInsert · _ w) hc).trans (chainInsert_split hnd)
    · rintro x ⟨⟩
    · rw [State.delta, insertFinish_controls, Function.update_self]
    · rintro x ⟨⟩
    · intro x hx _
      rw [State.delta, insertFinish_controls, Function.update_of_ne hx]
      rfl
    · rw [insertFinish_controls, Function.update_self]
    · intro x hx
      rw [insertFinish_controls, Function.update_of_ne hx]
    · change s.iterators.filter _ = _
      rw [List.map_congr_left (g := id), List.map_id]
      intro i _
      exact if_neg fun h => h.1 rfl
  | cons x xs =>
    dsimp only [List.head?_cons]
    have hxw : x ≠ w := fun e => hw (e ▸ List.mem_append_right pre List.mem_cons_self)
    split
    next hlt =>
      refine .inl ⟨_, rfl, ⟨hc, ?_, ?_, ?_, ?_, ?_, ?_, ?_⟩, rfl, ?_⟩
      · exact (congrArg (chainInsert · _ w) hc).trans (chainInsert_split hnd)
      · rintro y ⟨⟩
        exact hlt
      · rw [State.delta, insertFinish_controls, Function.update_self]
      · rintro y ⟨⟩
        rw [State.delta, insertFinish_controls, Function.update_of_ne hxw]
        change ((s.setDelta x _).controls x).deltaInterval = _
        rw [State.setDelta, onControl_self]
      · intro y hy hyx
        have hne : y ≠ x := fun e => hyx (e ▸ rfl)
        rw [State.delta, insertFinish_controls, Function.update_of_ne hy]
        change ((s.setDelta x _).controls y).deltaInterval = _
        rw [State.setDelta, onControl_other _ hne]
        rfl
      · rw [insertFinish_controls, Function.update_self]
      · intro y hy
        rw [insertFinish_controls, Function.update_of_ne hy]
        change ((s.setDelta x _).controls y).state = _
        rcases eq_or_ne y x with rfl | hne
        · rw [State.setDelta, onControl_self]
        · rw [State.setDelta, onControl_other _ hne]
      · change (s.iterators.map _).filter _ = _
        congr 2
        funext i
        simp [fixCurrent]
    next hge => exact .inr ⟨x, xs, rfl, Nat.le_of_not_lt hge, rfl⟩

/-! ## Insertion without interruption -/

/-- The state in which the insertion of `w` is under way. -/
def walking (s : State Wid) (w : Wid) (i : Iterator Wid) : State Wid :=
  { s.onControl w (fun c => { c with state := .beingInserted }) with
    iterators := s.iterators ++ [i]
    history := .inserted w (s.controls w).initial :: s.history }

theorem walking_controls (i : Iterator Wid) : (walking s w i).controls =
    Function.update s.controls w { s.controls w with state := .beingInserted } := rfl

theorem walking_delta (i : Iterator Wid) : (walking s w i).delta = s.delta := by
  funext x
  rw [State.delta, walking_controls]
  rcases eq_or_ne x w with rfl | hne
  · rw [Function.update_self]
    rfl
  · rw [Function.update_of_ne hne]
    rfl

theorem setIterator_walking {a : Nat} (ho : ∀ i ∈ s.iterators, i.address ≠ a) {i : Iterator Wid}
    (hi : i.address = a) (δ : Nat) (current : Option Wid) :
    setIterator (walking s w i) a δ current = walking s w ⟨a, δ, current⟩ := by
  have hmap : (s.iterators ++ [i]).map (fun j => if j.address = a then
      { j with deltaInterval := δ, current := current } else j) =
      s.iterators ++ [⟨a, δ, current⟩] := by
    rw [List.map_append, List.map_singleton, if_pos hi, hi]
    congr 1
    rw [List.map_congr_left (g := id), List.map_id]
    intro j hj
    exact if_neg (ho j hj)
  unfold setIterator walking
  dsimp only
  rw [hmap]

theorem insertResume_walking {a : Nat} (ho : ∀ i ∈ s.iterators, i.address ≠ a) (δ : Nat)
    (current : Option Wid) : insertResume (walking s w ⟨a, δ, current⟩) w a =
      insertBody (walking s w ⟨a, δ, current⟩) w a δ current := by
  have hstate : ((walking s w ⟨a, δ, current⟩).controls w).state = .beingInserted := by
    rw [walking_controls, Function.update_self]
  have hfind : (walking s w ⟨a, δ, current⟩).iterators.find? (fun i => i.address = a) =
      some ⟨a, δ, current⟩ := by
    rw [walking]
    dsimp only
    rw [List.find?_append, List.find?_eq_none.mpr]
    · simp
    · intro i hi
      simpa using ho i hi
  unfold insertResume
  rw [hstate, hfind]
  rfl

/-- Of the iterators, that of the insertion itself is dropped at its end. -/
theorem filter_walking {a : Nat} (ho : ∀ i ∈ s.iterators, i.address ≠ a) {i : Iterator Wid}
    (hi : i.address = a) (next : Option Wid) :
    ((s.iterators ++ [i]).map (fixCurrent next w)).filter (fun j => j.address ≠ a) =
      s.iterators.map (fixCurrent next w) := by
  have hown : ∀ j : Iterator Wid, (fixCurrent next w j).address = j.address := by
    intro j
    unfold fixCurrent
    split <;> rfl
  rw [List.map_append, List.filter_append, List.filter_eq_self.mpr, List.filter_eq_nil_iff.mpr,
    List.append_nil]
  · intro j hj
    rw [List.map_singleton, List.mem_singleton] at hj
    rw [hj, hown, hi]
    simp
  · intro j hj
    obtain ⟨k, hk, rfl⟩ := List.mem_map.mp hj
    rw [hown]
    exact decide_eq_true (ho k hk)

theorem Linked.of_walking {i : Iterator Wid} {δ : Nat}
    (h : Linked (walking s w i) s' w δ pre post) : Linked s s' w δ pre post where
  chain := h.chain
  chain' := h.chain'
  lt_next x hx := walking_delta (s := s) i ▸ h.lt_next x hx
  delta_self := h.delta_self
  delta_next x hx := (h.delta_next x hx).trans (by rw [walking_delta])
  delta_other x hx hx' := (h.delta_other x hx hx').trans (by rw [walking_delta])
  state_self := h.state_self
  state_other x hx := by
    rw [h.state_other x hx, walking_controls, Function.update_of_ne hx]

/-- The loop links the watchdog at the place where its time is reached. -/
theorem insertLoop_walking {a : Nat} (ho : ∀ i ∈ s.iterators, i.address ≠ a) (hnd : s.watchdogs.Nodup)
    (hw : w ∉ s.watchdogs) {post : List Wid} : ∀ (pre : List Wid) (δ fuel : Nat) (i : Iterator Wid),
      s.watchdogs = pre ++ post → post.length ≤ fuel → i.address = a →
      ∃ s' δ' pre' post',
        insertLoop w a (List.replicate fuel id) (insertBody (walking s w i) w a δ pre.getLast?) =
          .done s' ∧ Linked s s' w δ' pre' post' ∧
        (pre'.map s.delta).sum + δ' = (pre.map s.delta).sum + δ ∧
        s'.history = .inserted w (s.controls w).initial :: s.history ∧
        s'.iterators = s.iterators.map (fixCurrent post'.head? w) := by
  induction post with
  | nil =>
    intro pre δ fuel i hc _ hi
    rcases insertBody_split (s := walking s w i) a δ hnd hw hc with
      ⟨s', hb, hl, hh, hit⟩ | ⟨x, xs, hx, _⟩
    · rw [hb]
      refine ⟨s', δ, pre, [], by cases fuel <;> rfl, hl.of_walking, rfl, hh, ?_⟩
      exact hit.trans (filter_walking ho hi none)
    · cases hx
  | cons x xs ih =>
    intro pre δ fuel i hc hfuel hi
    rcases insertBody_split (s := walking s w i) a δ hnd hw hc with
      ⟨s', hb, hl, hh, hit⟩ | ⟨y, ys, hy, hle, hb⟩
    · rw [hb]
      refine ⟨s', δ, pre, x :: xs, by cases fuel <;> rfl, hl.of_walking, rfl, hh, ?_⟩
      exact hit.trans (filter_walking ho hi _)
    · obtain ⟨rfl, rfl⟩ := List.cons.inj hy
      cases fuel with
      | zero => cases hfuel
      | succ fuel =>
        rw [walking_delta] at hle hb
        rw [hb, setIterator_walking ho hi, List.replicate_succ, insertLoop, id,
          insertResume_walking ho]
        obtain ⟨s', δ', pre', post', h1, h2, h3, h4⟩ :=
          ih (pre ++ [x]) (δ - s.delta x) fuel ⟨a, δ - s.delta x, some x⟩
            (by rw [hc, List.append_assoc]; rfl) (Nat.le_of_succ_le_succ hfuel) rfl
        rw [List.getLast?_concat] at h1
        refine ⟨s', δ', pre', post', h1, h2, ?_, h4⟩
        rw [h3, List.map_append, List.sum_append, List.map_singleton, List.sum_singleton]
        omega

section

omit [DecidableEq Wid]

theorem freshAddress_ne (s : State Wid) : ∀ i ∈ s.iterators, i.address ≠ freshAddress s := by
  intro i hi
  have hle : i.address ≤ (s.iterators.map (·.address)).sum :=
    List.le_sum_of_mem (List.mem_map_of_mem hi)
  exact Nat.ne_of_lt (Nat.lt_succ_of_le hle)

end

/-- **Insertion without interruption.** -/
theorem insert_spec (hnd : s.watchdogs.Nodup)
    (hw : w ∉ s.watchdogs) (hs : (s.controls w).state = .inactive) :
    ∃ δ pre post, Linked s (insert s w) w δ pre post ∧
      (pre.map s.delta).sum + δ = (s.controls w).initial ∧
      (insert s w).history = .inserted w (s.controls w).initial :: s.history ∧
      (insert s w).iterators = s.iterators.map (fixCurrent post.head? w) := by
  obtain ⟨s', δ, pre, post, h1, h2, h3, h4⟩ := insertLoop_walking (freshAddress_ne s) hnd hw []
    (s.controls w).initial s.watchdogs.length ⟨freshAddress s, 0, none⟩ rfl (Nat.le_refl _) rfl
  have heq : insert s w = s' := by
    unfold insert
    rw [if_pos hs]
    exact congrArg Progress.state h1
  rw [heq]
  refine ⟨δ, pre, post, h2, ?_, h4⟩
  rw [h3, List.map_nil, List.sum_nil, Nat.zero_add]

/-! ## Unlinking a watchdog -/

/-- The chain of `s'` is that of `s` without `w`. -/
structure Unlinked (s s' : State Wid) (w : Wid) (pre post : List Wid) : Prop where
  chain : s.watchdogs = pre ++ w :: post
  chain' : s'.watchdogs = pre ++ post
  delta_next : ∀ x ∈ post.head?, s'.delta x = (s.delta x + s.delta w) % 2 ^ 32
  delta_other : ∀ x, x ∉ post.head? → s'.delta x = s.delta x
  state_self : (s'.controls w).state = .inactive
  state_other : ∀ x, x ≠ w → (s'.controls x).state = (s.controls x).state

theorem removeIt_spec (hnd : s.watchdogs.Nodup) (hc : s.watchdogs = pre ++ w :: post) :
    Unlinked s (removeIt s w) w pre post ∧ (removeIt s w).history = s.history ∧
      (removeIt s w).iterators = s.iterators.map (removeFixup s w) := by
  rw [hc] at hnd
  have hpre : w ∉ pre := fun h =>
    (List.nodup_append.mp hnd).2.2 w h w List.mem_cons_self rfl
  have hpost : w ∉ post := (List.nodup_cons.mp (List.nodup_append.mp hnd).2.1).1
  have hnext : chainNext s.watchdogs (some w) = post.head? := by rw [hc, chainNext_mid hpre]
  have herase : s.watchdogs.erase w = pre ++ post := by
    rw [hc, List.erase_append_right _ hpre, List.erase_cons_head]
  unfold removeIt
  rw [hnext, herase]
  cases post with
  | nil =>
    refine ⟨⟨hc, rfl, ?_, fun x _ => ?_, ?_, fun x hx => ?_⟩, rfl, rfl⟩
    · rintro x ⟨⟩
    · change ((s.onControl w fun c => { c with state := .inactive }).controls x).deltaInterval = _
      rcases eq_or_ne x w with rfl | hne
      · rw [onControl_self]
        rfl
      · rw [onControl_other _ hne]
        rfl
    · change ((s.onControl w fun c => { c with state := .inactive }).controls w).state = _
      rw [onControl_self]
    · change ((s.onControl w fun c => { c with state := .inactive }).controls x).state = _
      rw [onControl_other _ hx]
  | cons y ys =>
    have hyw : y ≠ w := fun e => hpost (e ▸ List.mem_cons_self)
    have hctl : ∀ x, ((s.onControl w fun c => { c with state := .inactive }).setDelta y
        ((s.delta y + s.delta w) % 2 ^ 32)).controls x =
        if x = y then { s.controls y with deltaInterval := (s.delta y + s.delta w) % 2 ^ 32 }
        else if x = w then { s.controls w with state := .inactive } else s.controls x := by
      intro x
      rcases eq_or_ne x y with rfl | hxy
      · rw [State.setDelta, onControl_self, onControl_other _ hyw, if_pos rfl]
      · rw [State.setDelta, onControl_other _ hxy, if_neg hxy]
        rcases eq_or_ne x w with rfl | hxw
        · rw [onControl_self, if_pos rfl]
        · rw [onControl_other _ hxw, if_neg hxw]
    refine ⟨⟨hc, rfl, ?_, fun x hx => ?_, ?_, fun x hx => ?_⟩, rfl, rfl⟩
    · rintro x ⟨⟩
      exact congrArg Control.deltaInterval ((hctl y).trans (if_pos rfl))
    · have hxy : x ≠ y := fun e => hx (e ▸ rfl)
      refine (congrArg Control.deltaInterval ((hctl x).trans (if_neg hxy))).trans ?_
      split
      next e =>
        rw [e]
        rfl
      next => rfl
    · exact congrArg Control.state ((hctl w).trans ((if_neg hyw.symm).trans (if_pos rfl)))
    · refine (congrArg Control.state (hctl x)).trans ?_
      rw [if_neg hx]
      split
      next e => rw [e]
      next => rfl

omit [DecidableEq Wid]

/-- The times of the others stay, if what is added to the next one is in range. -/
theorem Unlinked.timed_of_lt (h : Unlinked s s' w pre post) (hnd : s.watchdogs.Nodup)
    (ht : Timed r s.delta 0 s.watchdogs) (hb : ∀ x ∈ post.head?, s.delta x + s.delta w < 2 ^ 32)
    (hr : ∀ x, x ≠ w → r' x = r x) : Timed r' s'.delta 0 s'.watchdogs := by
  rw [h.chain] at hnd ht
  rw [h.chain']
  rw [timed_append] at ht ⊢
  have hdisj := (List.nodup_append.mp hnd).2.2
  have hw := (List.nodup_cons.mp (List.nodup_append.mp hnd).2.1).1
  have hpre : ∀ x ∈ pre, s'.delta x = s.delta x := by
    intro x hx
    refine h.delta_other x fun hx' => ?_
    exact hdisj x hx x (List.mem_cons_of_mem w (List.mem_of_mem_head? hx')) rfl
  refine ⟨ht.1.congr (fun x hx => hr x fun e => ?_) hpre, ?_⟩
  · exact hdisj x hx x (e ▸ List.mem_cons_self) rfl
  rw [List.map_congr_left hpre]
  cases post with
  | nil => trivial
  | cons x xs =>
    obtain ⟨_, ⟨j, hj, hjb⟩, hxs⟩ := ht.2
    have hxw : x ≠ w := fun e => hw (e ▸ List.mem_cons_self)
    have hx : s'.delta x = s.delta x + s.delta w := by
      rw [h.delta_next x rfl]
      exact Nat.mod_eq_of_lt (hb x rfl)
    have heq : 0 + (pre.map s.delta).sum + s'.delta x =
        0 + (pre.map s.delta).sum + s.delta w + s.delta x := by
      rw [hx]
      omega
    refine ⟨⟨j, (hr x hxw).trans hj, by omega⟩, ?_⟩
    rw [heq]
    have hnd' := (List.nodup_cons.mp (List.nodup_cons.mp (List.nodup_append.mp hnd).2.1).2).1
    refine hxs.congr (fun y hy => hr y fun e => ?_) fun y hy => ?_
    · exact hw (e ▸ List.mem_cons_of_mem x hy)
    · exact h.delta_other y fun e => hnd' (Option.some.inj e ▸ hy)

theorem Unlinked.timed (h : Unlinked s s' w pre post) (hnd : s.watchdogs.Nodup)
    (ht : Timed r s.delta 0 s.watchdogs)
    (hb : ∀ x ∈ s.watchdogs, ∀ k, r x = some k → k < 2 ^ 32)
    (hr : ∀ x, x ≠ w → r' x = r x) : Timed r' s'.delta 0 s'.watchdogs := by
  refine h.timed_of_lt hnd ht (fun x hx => ?_) hr
  rw [h.chain] at ht hb
  cases post with
  | nil => cases hx
  | cons y ys =>
    cases hx
    obtain ⟨-, ⟨k, hk, hkb⟩, -⟩ := (timed_append.mp ht).2
    have := hb x (List.mem_append_right pre (List.mem_cons_of_mem w List.mem_cons_self)) k hk
    omega

end Rtems.Watchdog
