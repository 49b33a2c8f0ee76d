import Mathlib.Data.Nat.ModEq
import Mathlib.Tactic.Ring

/-!
# The block size of a disk

The model of `rtems_bdbuf_set_block_size`, of the block to media block mapping and of the division
of a buffer group in `bdbuf.c`.  Loops take a number of turns.  A quotient by zero is a value of
which nothing is known, and the function goes on with it.  The synchronization and the purge of the
device are left out: they do not touch the fields that are set here.
-/

namespace Rtems.Bdbuf

/-- The sizes of the cache.  `rtems_bdbuf_init` refuses others. -/
structure CacheConfig where
  bufferMin : ℕ
  bufferMax : ℕ
  bufferMin_pos : 0 < bufferMin
  bufferMin_dvd : bufferMin ∣ bufferMax

/-- `max_bds_per_group`. -/
def CacheConfig.maxBdsPerGroup (cfg : CacheConfig) : ℕ := cfg.bufferMax / cfg.bufferMin

/-- `rtems_disk_device`. -/
structure DiskDevice where
  start : ℕ
  size : ℕ
  mediaBlockSize : ℕ
  blockSize : ℕ
  blockCount : ℕ
  mediaBlocksPerBlock : ℕ
  blockToMediaBlockShift : ℤ
  bdsPerGroup : ℕ
  size_lt : size < 2 ^ 32
  mediaBlockSize_lt : mediaBlockSize < 2 ^ 32

inductive Status where
  | successful
  | invalidNumber
deriving DecidableEq, Repr

/-- `rtems_bdbuf_media_block`. -/
def mediaBlock (dd : DiskDevice) (block : ℕ) : ℕ :=
  if 0 ≤ dd.blockToMediaBlockShift then
    block * 2 ^ dd.blockToMediaBlockShift.toNat % 2 ^ 32
  else block * dd.blockSize % 2 ^ 64 / dd.mediaBlockSize % 2 ^ 32

/-- The loop of `rtems_bdbuf_bds_per_group`. -/
def bdsPerSizeLoop (bufsPerSize : ℕ) : ℕ → ℕ → Option ℕ
  | 0, _ => none
  | turns + 1, bdsPerSize =>
    if bdsPerSize < bufsPerSize then bdsPerSizeLoop bufsPerSize turns (bdsPerSize * 2 % 2 ^ 32)
    else some bdsPerSize

/-- `rtems_bdbuf_bds_per_group`. -/
def bdsPerGroup (cfg : CacheConfig) (turns size : ℕ) : Option ℕ :=
  if cfg.bufferMax < size then some 0
  else do
    let bdsPerSize ← bdsPerSizeLoop ((size - 1) / cfg.bufferMin + 1) turns 1
    some (cfg.maxBdsPerGroup / bdsPerSize)

/-- The buffers of minimum size in a buffer, as `rtems_bdbuf_group_realloc` divides a group. -/
def bufsPerBd (cfg : CacheConfig) (bdsPerGroup : ℕ) : ℕ := cfg.maxBdsPerGroup / bdsPerGroup

/-- The loop of `rtems_bdbuf_set_block_size` over the shifts. -/
def shiftLoop (mediaBlocksPerBlock : ℕ) : ℕ → ℕ → Option ℕ
  | 0, _ => none
  | turns + 1, shift =>
    if 2 ^ shift % 2 ^ 32 < mediaBlocksPerBlock then
      shiftLoop mediaBlocksPerBlock turns (shift + 1)
    else some shift

/-- A division, and if it is one by zero. -/
def quotient (unknown a b : ℕ) : ℕ × Bool := if b = 0 then (unknown, true) else (a / b, false)

/-- What `rtems_bdbuf_set_block_size` leaves. -/
structure SetResult where
  status : Status
  dd : DiskDevice
  dividedByZero : Bool

/-- `rtems_bdbuf_set_block_size`. -/
def setBlockSize (cfg : CacheConfig) (unknown turns : ℕ) (dd : DiskDevice) (blockSize : ℕ) :
    Option SetResult :=
  if blockSize > 0 then do
    let bdsPerGroup ← bdsPerGroup cfg turns blockSize
    if bdsPerGroup ≠ 0 then do
      let (mediaBlocksPerBlock, zero) := quotient unknown blockSize dd.mediaBlockSize
      let shift ← shiftLoop mediaBlocksPerBlock turns 0
      let blockToMediaBlockShift : ℤ :=
        if dd.mediaBlockSize * 2 ^ shift % 2 ^ 32 ≠ blockSize then -1 else shift
      let (blockCount, zero') := quotient unknown dd.size mediaBlocksPerBlock
      some
        { status := .successful
          dd := { dd with
            blockSize := blockSize
            blockCount := blockCount
            mediaBlocksPerBlock := mediaBlocksPerBlock
            blockToMediaBlockShift := blockToMediaBlockShift
            bdsPerGroup := bdsPerGroup }
          dividedByZero := zero || zero' }
    else some ⟨.invalidNumber, dd, false⟩
  else some ⟨.invalidNumber, dd, false⟩

/-- The media blocks of a block. -/
def DiskDevice.span (dd : DiskDevice) : ℕ :=
  (dd.blockSize + dd.mediaBlockSize - 1) / dd.mediaBlockSize

/-- The blocks of a disk lie inside it and apart, and a buffer holds a block. -/
structure BlocksInside (cfg : CacheConfig) (dd : DiskDevice) : Prop where
  inside : ∀ b < dd.blockCount, mediaBlock dd b + dd.span ≤ dd.size
  disjoint : ∀ b < dd.blockCount, ∀ b' < dd.blockCount, b ≠ b' →
    mediaBlock dd b + dd.span ≤ mediaBlock dd b' ∨ mediaBlock dd b' + dd.span ≤ mediaBlock dd b
  holds : dd.blockSize ≤ bufsPerBd cfg dd.bdsPerGroup * cfg.bufferMin

/-! ## The loops -/

section

variable {cfg : CacheConfig} {n turns x y size bds : ℕ}

theorem bdsPerSizeLoop_le (h : bdsPerSizeLoop n turns x = some y) : n ≤ y := by
  induction turns generalizing x with
  | zero => cases h
  | succ turns ih =>
    unfold bdsPerSizeLoop at h
    split at h
    next => exact ih h
    next hle =>
      obtain rfl := Option.some.inj h
      exact Nat.le_of_not_lt hle

/-- A buffer of a divided group holds what the group was divided for. -/
theorem bdsPerGroup_holds (hsize : 0 < size) (h : bdsPerGroup cfg turns size = some bds)
    (hbds : bds ≠ 0) : size ≤ bufsPerBd cfg bds * cfg.bufferMin := by
  unfold bdsPerGroup at h
  split at h
  next => exact absurd (Option.some.inj h).symm hbds
  next =>
    obtain ⟨bdsPerSize, hloop, hdiv⟩ := Option.bind_eq_some_iff.mp h
    obtain rfl := Option.some.inj hdiv
    have hbufs := bdsPerSizeLoop_le hloop
    have hbd : bdsPerSize ≤ bufsPerBd cfg (cfg.maxBdsPerGroup / bdsPerSize) := by
      unfold bufsPerBd
      rw [Nat.le_div_iff_mul_le (Nat.pos_of_ne_zero hbds), Nat.mul_comm]
      exact Nat.div_mul_le_self _ _
    have hlast := Nat.lt_div_mul_add (a := size - 1) cfg.bufferMin_pos
    calc size ≤ ((size - 1) / cfg.bufferMin + 1) * cfg.bufferMin := by
          rw [Nat.add_mul, Nat.one_mul]
          omega
      _ ≤ bufsPerBd cfg (cfg.maxBdsPerGroup / bdsPerSize) * cfg.bufferMin :=
          Nat.mul_le_mul_right _ (Nat.le_trans hbufs hbd)

/-- The shift is the first that reaches the media blocks of a block. -/
theorem shiftLoop_spec (h : shiftLoop n turns x = some y) :
    n ≤ 2 ^ y % 2 ^ 32 ∧ x ≤ y ∧ ∀ s, x ≤ s → s < y → 2 ^ s % 2 ^ 32 < n := by
  induction turns generalizing x with
  | zero => cases h
  | succ turns ih =>
    unfold shiftLoop at h
    split at h
    next hlt =>
      obtain ⟨hle, hxy, hbefore⟩ := ih h
      refine ⟨hle, Nat.le_of_succ_le hxy, fun s hxs hsy => ?_⟩
      rcases Nat.eq_or_lt_of_le hxs with rfl | hlt'
      · exact hlt
      · exact hbefore s hlt' hsy
    next hge =>
      obtain rfl := Option.some.inj h
      exact ⟨Nat.le_of_not_lt hge, Nat.le_refl x, fun s hxs hsx => absurd hxs (Nat.not_le_of_gt hsx)⟩

/-- The shift before the one that is found falls short. -/
theorem two_pow_lt_of_shiftLoop (h : shiftLoop n turns 0 = some y) (hn : 0 < n) : 2 ^ y < 2 * n := by
  obtain ⟨hle, -, hbefore⟩ := shiftLoop_spec h
  cases y with
  | zero => omega
  | succ y =>
    have hlt := hbefore y (Nat.zero_le y) (Nat.lt_succ_self y)
    have hy : y < 32 := by
      by_contra hge
      have hdvd : (2 ^ 32 : ℕ) ∣ 2 ^ (y + 1) := Nat.pow_dvd_pow 2 (by omega)
      rw [Nat.mod_eq_zero_of_dvd hdvd] at hle
      exact absurd hn (Nat.not_lt_of_le hle)
    rw [Nat.mod_eq_of_lt (Nat.pow_lt_pow_right Nat.one_lt_two hy)] at hlt
    rw [Nat.pow_succ]
    omega

/-- A shift that is taken over is exact: the product does not wrap. -/
theorem shift_exact {m bs s : ℕ} (hm : m < 2 ^ 32) (hbs : bs < 2 ^ 32) (hk : 0 < bs / m)
    (hloop : shiftLoop (bs / m) turns 0 = some s) (heq : m * 2 ^ s % 2 ^ 32 = bs) :
    m * 2 ^ s = bs := by
  rcases Nat.eq_zero_or_pos s with rfl | hs
  · rw [Nat.pow_zero, Nat.mul_one, Nat.mod_eq_of_lt hm] at heq
    rw [Nat.pow_zero, Nat.mul_one, heq]
  · have hpow := two_pow_lt_of_shiftLoop hloop hk
    have hprod : m * 2 ^ s < m * (2 * (bs / m)) := by
      refine Nat.mul_lt_mul_of_pos_left hpow ?_
      by_contra hzero
      rw [Nat.eq_zero_of_not_pos hzero, Nat.div_zero] at hk
      exact Nat.lt_irrefl 0 hk
    have hle : m * (bs / m) ≤ bs := Nat.mul_div_le bs m
    have htwice : m * (2 * (bs / m)) = 2 * (m * (bs / m)) := by ring
    omega

end

/-! ## The change -/

section

variable {cfg : CacheConfig} {unknown turns bs : ℕ} {dd : DiskDevice} {r : SetResult}

/-- What a successful change has done, with the shift its loop has found. -/
structure Changed (cfg : CacheConfig) (unknown turns : ℕ) (dd : DiskDevice) (bs shift : ℕ)
    (r : SetResult) : Prop where
  pos : 0 < bs
  shiftLoop : shiftLoop (quotient unknown bs dd.mediaBlockSize).1 turns 0 = some shift
  size : r.dd.size = dd.size
  mediaBlockSize : r.dd.mediaBlockSize = dd.mediaBlockSize
  blockSize : r.dd.blockSize = bs
  blockCount : r.dd.blockCount =
    (quotient unknown dd.size (quotient unknown bs dd.mediaBlockSize).1).1
  blockToMediaBlockShift : r.dd.blockToMediaBlockShift =
    if dd.mediaBlockSize * 2 ^ shift % 2 ^ 32 ≠ bs then -1 else (shift : ℤ)
  holds : r.dd.blockSize ≤ bufsPerBd cfg r.dd.bdsPerGroup * cfg.bufferMin
  dividedByZero : r.dividedByZero = ((quotient unknown bs dd.mediaBlockSize).2 ||
    (quotient unknown dd.size (quotient unknown bs dd.mediaBlockSize).1).2)

theorem setBlockSize_changed (h : setBlockSize cfg unknown turns dd bs = some r)
    (hs : r.status = .successful) : ∃ shift, Changed cfg unknown turns dd bs shift r := by
  unfold setBlockSize at h
  split at h
  next hpos =>
    obtain ⟨bds, hbds, h⟩ := Option.bind_eq_some_iff.mp h
    split at h
    next hne =>
      obtain ⟨shift, hshift, h⟩ := Option.bind_eq_some_iff.mp h
      obtain rfl := Option.some.inj h
      exact ⟨shift, hpos, hshift, rfl, rfl, rfl, rfl, rfl, bdsPerGroup_holds hpos hbds hne, rfl⟩
    next =>
      obtain rfl := Option.some.inj h
      cases hs
  next =>
    obtain rfl := Option.some.inj h
    cases hs

theorem quotient_zero (unknown a : ℕ) : quotient unknown a 0 = (unknown, true) := if_pos rfl

theorem quotient_pos {b : ℕ} (hb : 0 < b) (a : ℕ) : quotient unknown a b = (a / b, false) :=
  if_neg (Nat.ne_of_gt hb)

/-- The mapping multiplies and divides, where the shift is exact. -/
theorem mediaBlock_eq {b : ℕ} (hm : 0 < dd.mediaBlockSize) (hb : b < 2 ^ 32)
    (hbs : dd.blockSize < 2 ^ 32) (hlt : b * dd.blockSize / dd.mediaBlockSize < 2 ^ 32)
    (hshift : 0 ≤ dd.blockToMediaBlockShift →
      dd.mediaBlockSize * 2 ^ dd.blockToMediaBlockShift.toNat = dd.blockSize) :
    mediaBlock dd b = b * dd.blockSize / dd.mediaBlockSize := by
  unfold mediaBlock
  split
  next hnonneg =>
    rw [← hshift hnonneg, Nat.mul_left_comm, Nat.mul_div_cancel_left _ hm] at hlt ⊢
    exact Nat.mod_eq_of_lt hlt
  next =>
    have hprod : b * dd.blockSize < 2 ^ 64 := by
      calc b * dd.blockSize < 2 ^ 32 * 2 ^ 32 := Nat.mul_lt_mul'' hb hbs
        _ = 2 ^ 64 := by norm_num
    rw [Nat.mod_eq_of_lt hprod, Nat.mod_eq_of_lt hlt]

/-- The media blocks of a block of `k` whole media blocks. -/
theorem ceil_mul {m k : ℕ} (hm : 0 < m) : (m * k + m - 1) / m = k := by
  rw [Nat.add_sub_assoc hm, Nat.mul_add_div hm, Nat.div_eq_of_lt (by omega), Nat.add_zero]

/-- A block that is not a number of whole media blocks needs one more. -/
theorem ceil_of_not_dvd {m n : ℕ} (hm : 0 < m) (h : ¬ m ∣ n) : (n + m - 1) / m = n / m + 1 := by
  have hmod : 0 < n % m := Nat.pos_of_ne_zero fun hzero => h (Nat.dvd_of_mod_eq_zero hzero)
  have hlt := Nat.mod_lt n hm
  have hsplit := Nat.div_add_mod n m
  have hrest : n + m - 1 = m * (n / m + 1) + (n % m - 1) := by
    have hsucc : m * (n / m + 1) = m * (n / m) + m := Nat.mul_succ m (n / m)
    omega
  have hsmall : n % m - 1 < m := by omega
  rw [hrest, Nat.mul_add_div hm, Nat.div_eq_of_lt hsmall, Nat.add_zero]

/-- Blocks of whole media blocks follow each other on the disk. -/
theorem BlocksInside.of_mul {k : ℕ} (hblock : ∀ b < dd.blockCount, mediaBlock dd b = b * k)
    (hspan : dd.span = k) (hcount : dd.blockCount * k ≤ dd.size)
    (hholds : dd.blockSize ≤ bufsPerBd cfg dd.bdsPerGroup * cfg.bufferMin) :
    BlocksInside cfg dd := by
  have hnext : ∀ b b', b < b' → b * k + k ≤ b' * k := by
    intro b b' hlt
    have hle := Nat.mul_le_mul_right k hlt
    rwa [Nat.succ_mul] at hle
  refine ⟨fun b hb => ?_, fun b hb b' hb' hne => ?_, hholds⟩
  · rw [hblock b hb, hspan]
    exact Nat.le_trans (hnext b _ hb) hcount
  · rw [hblock b hb, hblock b' hb', hspan]
    rcases Nat.lt_or_gt_of_ne hne with hlt | hgt
    · exact .inl (hnext b b' hlt)
    · exact .inr (hnext b' b hgt)

/-- **A change of the block size keeps blocks inside the disk** and divides by no zero, if a block is
a number of whole media blocks.  It does so for other blocks of at least one media block if the disk
has no room for one, or room for exactly one and its last media block. -/
theorem block_size_change (hbs : bs < 2 ^ 32) (h : setBlockSize cfg unknown turns dd bs = some r)
    (hs : r.status = .successful) :
    (r.dividedByZero = false ∧ BlocksInside cfg r.dd) ↔
      0 < dd.mediaBlockSize ∧ dd.mediaBlockSize ≤ bs ∧
      (dd.mediaBlockSize ∣ bs ∨ dd.size < bs / dd.mediaBlockSize ∨
        (bs / dd.mediaBlockSize < dd.size ∧ dd.size < 2 * (bs / dd.mediaBlockSize))) := by
  obtain ⟨shift, hr⟩ := setBlockSize_changed h hs
  have hloop := hr.shiftLoop
  have hcount := hr.blockCount
  have hdivided := hr.dividedByZero
  rcases Nat.eq_zero_or_pos dd.mediaBlockSize with hm | hm
  · have hzero : r.dividedByZero = true := by
      rw [hdivided, hm, quotient_zero]
      rfl
    refine iff_of_false (fun hand => ?_) fun hand => Nat.ne_of_gt hand.1 hm
    exact Bool.noConfusion (hzero.symm.trans hand.1)
  rw [quotient_pos hm] at hloop hcount hdivided
  rcases Nat.lt_or_ge bs dd.mediaBlockSize with hsmall | hlarge
  · have hzero : r.dividedByZero = true := by
      rw [hdivided, Nat.div_eq_of_lt hsmall, quotient_zero]
      rfl
    refine iff_of_false (fun hand => ?_) fun hand => Nat.not_le_of_lt hsmall hand.2.1
    exact Bool.noConfusion (hzero.symm.trans hand.1)
  have hk : 0 < bs / dd.mediaBlockSize := Nat.div_pos hlarge hm
  rw [quotient_pos hk] at hcount hdivided
  have hzero : r.dividedByZero = false := hdivided
  have hsize := hr.size
  have hshift : 0 ≤ r.dd.blockToMediaBlockShift →
      r.dd.mediaBlockSize * 2 ^ r.dd.blockToMediaBlockShift.toNat = r.dd.blockSize := by
    rw [hr.blockToMediaBlockShift, hr.mediaBlockSize, hr.blockSize]
    split
    next => exact fun hnonneg => absurd hnonneg (by decide)
    next heq =>
      intro _
      rw [Int.toNat_natCast]
      exact shift_exact dd.mediaBlockSize_lt hbs hk hloop (not_not.mp heq)
  have hspan : r.dd.span = (bs + dd.mediaBlockSize - 1) / dd.mediaBlockSize := by
    unfold DiskDevice.span
    rw [hr.blockSize, hr.mediaBlockSize]
  have hmap : ∀ b < 2 ^ 32, b * bs / dd.mediaBlockSize < 2 ^ 32 →
      mediaBlock r.dd b = b * bs / dd.mediaBlockSize := by
    intro b hb hlt
    rw [← hr.blockSize, ← hr.mediaBlockSize] at hlt ⊢
    exact mediaBlock_eq (hr.mediaBlockSize ▸ hm) hb (hr.blockSize ▸ hbs) hlt hshift
  generalize hkdef : bs / dd.mediaBlockSize = k at hk hcount
  have hsizelt := dd.size_lt
  by_cases hdvd : dd.mediaBlockSize ∣ bs
  · refine iff_of_true ⟨hzero, ?_⟩ ⟨hm, hlarge, .inl hdvd⟩
    have hbsk : bs = dd.mediaBlockSize * k := by
      rw [← hkdef, Nat.mul_div_cancel' hdvd]
    have hfits : dd.size / k * k ≤ dd.size := Nat.div_mul_le_self _ _
    refine BlocksInside.of_mul (k := k) (fun b hb => ?_) ?_ ?_ hr.holds
    · rw [hcount] at hb
      have hbk : b * k < dd.size / k * k := Nat.mul_lt_mul_of_pos_right hb hk
      have hble : b ≤ b * k := Nat.le_mul_of_pos_right b hk
      have hquot : b * bs / dd.mediaBlockSize = b * k := by
        rw [hbsk, Nat.mul_left_comm, Nat.mul_div_cancel_left _ hm]
      rw [hmap b (by omega) (by omega), hquot]
    · rw [hspan, hbsk, ceil_mul hm]
    · rw [hcount, hsize]
      exact hfits
  · have hceil : r.dd.span = k + 1 := by rw [hspan, ceil_of_not_dvd hm hdvd, hkdef]
    have hklt : k < 2 ^ 32 := by
      rw [← hkdef]
      exact Nat.lt_of_le_of_lt (Nat.div_le_self _ _) hbs
    have hfirst : mediaBlock r.dd 0 = 0 := by
      rw [hmap 0 (by omega) (by rw [Nat.zero_mul, Nat.zero_div]; omega), Nat.zero_mul, Nat.zero_div]
    have hsecond : mediaBlock r.dd 1 = k := by
      rw [hmap 1 (by omega) (by rw [Nat.one_mul, hkdef]; exact hklt), Nat.one_mul, hkdef]
    constructor
    · rintro ⟨-, hinside⟩
      refine ⟨hm, hlarge, .inr ?_⟩
      rw [or_iff_not_imp_left]
      intro hroom
      have hone : 1 ≤ dd.size / k := Nat.div_pos (Nat.le_of_not_lt hroom) hk
      have hlast := hinside.inside 0 (by omega)
      rw [hfirst, hceil, hsize] at hlast
      refine ⟨by omega, ?_⟩
      by_contra htwo
      have htwo' : 2 ≤ dd.size / k := (Nat.le_div_iff_mul_le hk).mpr (Nat.le_of_not_lt htwo)
      have hapart := hinside.disjoint 0 (by omega) 1 (by omega) (by omega)
      rw [hfirst, hsecond, hceil] at hapart
      omega
    · rintro ⟨-, -, hcond⟩
      have hfew : dd.size / k = 0 ∨ (dd.size / k = 1 ∧ k < dd.size) := by
        rcases hcond with hdvd' | hroom | ⟨hlow, hhigh⟩
        · exact absurd hdvd' hdvd
        · exact .inl (Nat.div_eq_of_lt hroom)
        · refine .inr ⟨?_, hlow⟩
          rw [Nat.div_eq_iff hk]
          omega
      refine ⟨hzero, fun b hb => ?_, fun b hb b' hb' hne => ?_, hr.holds⟩
      · rcases hfew with hnone | ⟨hone, hlow⟩
        · omega
        · obtain rfl : b = 0 := by omega
          rw [hfirst, hceil, hsize]
          omega
      · omega

end

/-- A cache with buffers from 512 to 4096 bytes. -/
def smallCache : CacheConfig := ⟨512, 4096, by decide, by decide⟩

/-- A disk of eight media blocks of 512 bytes. -/
def smallDisk : DiskDevice := ⟨0, 8, 512, 512, 8, 1, 0, 8, by decide, by decide⟩

/-- Blocks of three media blocks. -/
theorem block_size_change_three : ∃ r, setBlockSize smallCache 0 8 smallDisk 1536 = some r ∧
    r.dd.blockCount = 2 ∧ r.dividedByZero = false ∧ BlocksInside smallCache r.dd := by
  obtain ⟨r, hr⟩ : ∃ r, setBlockSize smallCache 0 8 smallDisk 1536 = some r := ⟨_, rfl⟩
  have hstatus : (setBlockSize smallCache 0 8 smallDisk 1536).map SetResult.status =
      some .successful := by decide +kernel
  have hcount : (setBlockSize smallCache 0 8 smallDisk 1536).map (fun r => r.dd.blockCount) =
      some 2 := by decide +kernel
  rw [hr] at hstatus hcount
  exact ⟨r, hr, Option.some.inj hcount, (block_size_change (by decide) hr
    (Option.some.inj hstatus)).mpr ⟨by decide, by decide, .inl (by decide)⟩⟩

/-- A block smaller than a media block: the number of media blocks of a block is zero. -/
theorem block_size_change_small : ¬ ∀ (cfg : CacheConfig) (unknown turns : ℕ) (dd : DiskDevice)
    (bs : ℕ) (r : SetResult), bs < 2 ^ 32 → setBlockSize cfg unknown turns dd bs = some r →
      r.status = .successful → r.dividedByZero = false ∧ BlocksInside cfg r.dd := by
  intro hall
  obtain ⟨r, hr⟩ : ∃ r, setBlockSize smallCache 0 8 smallDisk 256 = some r := ⟨_, rfl⟩
  have hstatus : (setBlockSize smallCache 0 8 smallDisk 256).map SetResult.status =
      some .successful := by decide +kernel
  have hzero : (setBlockSize smallCache 0 8 smallDisk 256).map SetResult.dividedByZero =
      some true := by decide +kernel
  rw [hr] at hstatus hzero
  have hnone := (hall _ _ _ _ _ _ (by decide) hr (Option.some.inj hstatus)).1
  exact Bool.noConfusion (hnone.symm.trans (Option.some.inj hzero))

end Rtems.Bdbuf
