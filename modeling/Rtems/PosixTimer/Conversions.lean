import Rtems.PosixTimer.Model

/-!
# Ticks and percentages of a time

The model of `timespecfromticks.c` and `timespecdivide.c`, and what they and `_Timespec_To_ticks`
compute.  Seconds and nanoseconds are converted each for itself, through the whole ticks of a second.
What a second is longer than these is lost with every second.
-/

namespace Rtems.PosixTimer

/-- The configured length of a tick.  `nanoseconds_per_tick` is a field of 32 bits with a thousand times
as much. -/
structure Configuration where
  microsecondsPerTick : ℕ
  pos : 0 < microsecondsPerTick
  fits : microsecondsPerTick * 1000 < 2 ^ 32

namespace Configuration

variable (config : Configuration)

/-- `rtems_configuration_get_nanoseconds_per_tick`. -/
def nanosecondsPerTick : ℕ := config.microsecondsPerTick * 1000

theorem nanosecondsPerTick_pos : 0 < config.nanosecondsPerTick := by
  have hpos := config.pos
  rw [nanosecondsPerTick]
  omega

end Configuration

namespace Timespec

/-- `_Timespec_From_ticks`. -/
def fromTicks (microsecondsPerTick ticks : ℕ) : Timespec :=
  let usecs := ticks * microsecondsPerTick % 2 ^ 32
  ⟨(usecs / 1000000 : ℕ), (usecs % 1000000 * 1000 : ℕ)⟩

/-- `_Timespec_Divide`. -/
def divide (lhs rhs : Timespec) : ℕ × ℕ :=
  let left := ((lhs.sec * nanosecondsPerSecond + lhs.nsec) % 2 ^ 64).toNat
  let right := ((rhs.sec * nanosecondsPerSecond + rhs.nsec) % 2 ^ 64).toNat
  if right = 0 then (0, 0)
  else
    let answer := left * 100000 % 2 ^ 64 / right
    (answer / 1000 % 2 ^ 32, answer % 1000)

/-- The time as a number of nanoseconds. -/
def nanoseconds (time : Timespec) : ℤ := time.sec * nanosecondsPerSecond + time.nsec

variable {config : Configuration} {time lhs rhs : Timespec} {m s n ticks : ℕ}

theorem isValid_iff : time.isValid = true ↔
    0 ≤ time.sec ∧ 0 ≤ time.nsec ∧ time.nsec < 1000000000 := by
  simp [isValid, nanosecondsPerSecond, and_assoc]

/-- A valid time in natural numbers. -/
theorem exists_nat (h : time.isValid = true) : ∃ s n : ℕ, n < 1000000000 ∧ time = ⟨s, n⟩ := by
  obtain ⟨hsec, hnsec, hlt⟩ := isValid_iff.mp h
  refine ⟨time.sec.toNat, time.nsec.toNat, by omega, ?_⟩
  rw [Int.toNat_of_nonneg hsec, Int.toNat_of_nonneg hnsec]

theorem nanoseconds_natCast (s n : ℕ) :
    nanoseconds ⟨s, n⟩ = ((s * 1000000000 + n : ℕ) : ℤ) := by
  rw [nanoseconds, nanosecondsPerSecond]
  push_cast
  rfl

/-! ## From a time to ticks -/

theorem ceilDiv_eq (n k : ℕ) (hk : 0 < k) : n ⌈/⌉ k = n / k + if n % k ≠ 0 then 1 else 0 := by
  refine le_antisymm ?_ ?_
  · rw [ceilDiv_le_iff_le_mul hk]
    have hsplit := Nat.div_add_mod n k
    have hlt := Nat.mod_lt n hk
    split
    · rw [Nat.mul_add]
      omega
    · rw [Nat.add_zero]
      omega
  · have hle := le_smul_ceilDiv hk (b := n)
    rw [smul_eq_mul] at hle
    split
    next hmod =>
      rw [Nat.succ_le_iff, Nat.div_lt_iff_lt_mul hk, Nat.mul_comm]
      refine Nat.lt_of_le_of_ne hle ?_
      intro heq
      exact hmod (by rw [heq, Nat.mul_mod_right])
    next =>
      exact Nat.div_le_of_le_mul hle

/-- What `_Timespec_To_ticks` adds up. -/
theorem toTicks_natCast (m s n : ℕ) (hm : 0 < m) :
    toTicks m ⟨s, n⟩ = (s * (1000000 / m) + n ⌈/⌉ (m * 1000)) % 2 ^ 32 := by
  have hk : 0 < m * 1000 := by omega
  simp only [toTicks]
  by_cases hzero : (s : ℤ) = 0 ∧ (n : ℤ) = 0
  · rw [if_pos hzero]
    obtain ⟨hs, hn⟩ := hzero
    rw [Int.natCast_eq_zero] at hs hn
    simp [hs, hn]
  · rw [if_neg hzero, ceilDiv_eq n _ hk]
    rw [← Int.natCast_div, ← Int.natCast_mod, ← Int.natCast_mul, ← Int.natCast_add]
    by_cases hmod : n % (m * 1000) = 0
    · rw [hmod, if_neg (by simp), if_neg (by simp), Nat.add_zero]
      omega
    · rw [if_pos (by exact_mod_cast hmod), if_pos hmod]
      omega

/-- The ticks that are enough for a time. -/
def Enough (config : Configuration) (time : Timespec) : Set ℕ :=
  {n | time.nanoseconds ≤ n * config.nanosecondsPerTick}

/-- What `_Timespec_To_ticks` is expected to return. -/
structure RoundsUp (config : Configuration) (time : Timespec) : Prop where
  least : IsLeast (Enough config time) (toTicks config.microsecondsPerTick time)
  zero : toTicks config.microsecondsPerTick time = 0 → time = ⟨0, 0⟩

theorem mem_enough (config : Configuration) (s n k : ℕ) :
    k ∈ Enough config ⟨s, n⟩ ↔ s * 1000000000 + n ≤ k * config.nanosecondsPerTick := by
  rw [Enough, Set.mem_ofPred_eq, nanoseconds_natCast, ← Int.natCast_mul, Int.ofNat_le]

/-- A second in ticks. -/
theorem second_eq (config : Configuration) :
    1000000000 = 1000000 / config.microsecondsPerTick * config.nanosecondsPerTick +
      1000000000 % config.nanosecondsPerTick := by
  have hdiv : 1000000 / config.microsecondsPerTick = 1000000000 / config.nanosecondsPerTick :=
    (Nat.mul_div_mul_right 1000000 config.microsecondsPerTick (by decide : 0 < 1000)).symm
  rw [hdiv, Nat.div_add_mod']

/-- A time as it is converted. -/
theorem nanoseconds_split (config : Configuration) (s n : ℕ) :
    s * 1000000000 + n =
      s * (1000000 / config.microsecondsPerTick) * config.nanosecondsPerTick +
        (s * (1000000000 % config.nanosecondsPerTick) + n) := by
  calc
    s * 1000000000 + n = s * (1000000 / config.microsecondsPerTick * config.nanosecondsPerTick +
        1000000000 % config.nanosecondsPerTick) + n := by rw [← second_eq config]
    _ = _ := by ring

/-- No tick can be spared. -/
theorem le_of_mem_enough {k : ℕ} (h : k ∈ Enough config ⟨s, n⟩) :
    s * (1000000 / config.microsecondsPerTick) + n ⌈/⌉ config.nanosecondsPerTick ≤ k := by
  rw [mem_enough, nanoseconds_split config] at h
  have hpos := config.nanosecondsPerTick_pos
  have hsec : s * (1000000 / config.microsecondsPerTick) ≤ k :=
    Nat.le_of_mul_le_mul_right (by omega) hpos
  obtain ⟨d, rfl⟩ := Nat.exists_eq_add_of_le hsec
  have hrest : n ⌈/⌉ config.nanosecondsPerTick ≤ d := by
    rw [ceilDiv_le_iff_le_mul hpos, Nat.mul_comm]
    rw [Nat.add_mul] at h
    omega
  omega

/-- The ticks are enough when the nanoseconds are rounded up by at least what the seconds lose. -/
theorem mem_enough_iff (config : Configuration) (s n : ℕ) :
    s * (1000000 / config.microsecondsPerTick) + n ⌈/⌉ config.nanosecondsPerTick ∈
        Enough config ⟨s, n⟩ ↔
      s * (1000000000 % config.nanosecondsPerTick) + n ≤
        n ⌈/⌉ config.nanosecondsPerTick * config.nanosecondsPerTick := by
  rw [mem_enough, nanoseconds_split config, Nat.add_mul]
  omega

/-- The ticks of a time are the least number that is enough for it if and only if the seconds lose no
more than the nanoseconds are rounded up by. -/
theorem roundsUp_iff (hvalid : time.isValid = true)
    (hfits : 2 ^ 32 - 1 ∈ Enough config time) :
    RoundsUp config time ↔
      time.sec * (1000000000 % config.nanosecondsPerTick : ℕ) + time.nsec ≤
        (time.nsec.toNat ⌈/⌉ config.nanosecondsPerTick * config.nanosecondsPerTick : ℕ) := by
  obtain ⟨s, n, hn, rfl⟩ := exists_nat hvalid
  have hticks : toTicks config.microsecondsPerTick ⟨s, n⟩ =
      s * (1000000 / config.microsecondsPerTick) + n ⌈/⌉ config.nanosecondsPerTick := by
    rw [toTicks_natCast _ _ _ config.pos]
    have hle := le_of_mem_enough hfits
    exact Nat.mod_eq_of_lt (by
      rw [Configuration.nanosecondsPerTick] at hle
      omega)
  have hcast : ((s : ℤ) * (1000000000 % config.nanosecondsPerTick : ℕ) + (n : ℤ) ≤
      ((n : ℤ).toNat ⌈/⌉ config.nanosecondsPerTick * config.nanosecondsPerTick : ℕ)) ↔
      s * (1000000000 % config.nanosecondsPerTick) + n ≤
        n ⌈/⌉ config.nanosecondsPerTick * config.nanosecondsPerTick := by
    rw [Int.toNat_natCast]
    exact_mod_cast Iff.rfl
  rw [hcast, ← mem_enough_iff]
  constructor
  · intro h
    rw [← hticks]
    exact h.least.1
  · intro h
    have hleast : IsLeast (Enough config ⟨s, n⟩) (toTicks config.microsecondsPerTick ⟨s, n⟩) := by
      rw [hticks]
      exact ⟨h, fun k hk => le_of_mem_enough hk⟩
    refine ⟨hleast, fun hzero => ?_⟩
    have hmem := hleast.1
    rw [hzero, mem_enough] at hmem
    have hs : s = 0 := by omega
    have hn : n = 0 := by omega
    rw [hs, hn]
    rfl

/-- A clock of sixty ticks a second, and one second and a half. -/
def sixtyHertz : Configuration := ⟨16667, by decide, by decide⟩

theorem roundsUp_iff_sixtyHertz :
    isValid ⟨1, 500000000⟩ = true ∧ 2 ^ 32 - 1 ∈ Enough sixtyHertz ⟨1, 500000000⟩ ∧
      ¬ RoundsUp sixtyHertz ⟨1, 500000000⟩ := by
  have hvalid : isValid ⟨1, 500000000⟩ = true := by decide
  have hfits : 2 ^ 32 - 1 ∈ Enough sixtyHertz ⟨1, 500000000⟩ := by
    rw [show (⟨1, 500000000⟩ : Timespec) = ⟨(1 : ℕ), (500000000 : ℕ)⟩ from rfl, mem_enough]
    decide
  refine ⟨hvalid, hfits, ?_⟩
  rw [roundsUp_iff hvalid hfits]
  decide

/-- A second is 59 ticks then, which are over after 983 milliseconds. -/
theorem exists_not_roundsUp :
    toTicks sixtyHertz.microsecondsPerTick ⟨1, 0⟩ = 59 ∧
      ¬ ∀ (config : Configuration) (time : Timespec), time.isValid = true →
        2 ^ 32 - 1 ∈ Enough config time → RoundsUp config time := by
  have hticks : toTicks sixtyHertz.microsecondsPerTick ⟨1, 0⟩ = 59 := by decide
  refine ⟨hticks, fun h => ?_⟩
  have hsecond : ∀ k, k ∈ Enough sixtyHertz ⟨1, 0⟩ ↔
      1 * 1000000000 + 0 ≤ k * sixtyHertz.nanosecondsPerTick := mem_enough sixtyHertz 1 0
  have hleast := (h sixtyHertz ⟨1, 0⟩ (by decide) ((hsecond _).mpr (by decide))).least
  rw [hticks] at hleast
  have hmem := (hsecond 59).mp hleast.1
  revert hmem
  decide

/-! ## From ticks to a time -/

/-- What is expected of `_Timespec_From_ticks`, and of `_Timespec_To_ticks` after it. -/
structure ConvertsBack (config : Configuration) (ticks : ℕ) : Prop where
  isValid : (fromTicks config.microsecondsPerTick ticks).isValid = true
  exact : (fromTicks config.microsecondsPerTick ticks).nanoseconds =
    ticks * config.nanosecondsPerTick
  back : toTicks config.microsecondsPerTick (fromTicks config.microsecondsPerTick ticks) = ticks

theorem isValid_fromTicks (m ticks : ℕ) : (fromTicks m ticks).isValid = true := by
  rw [isValid_iff]
  have hlt : ticks * m % 2 ^ 32 % 1000000 < 1000000 := Nat.mod_lt _ (by decide)
  simp only [fromTicks]
  omega

theorem nanoseconds_fromTicks (m ticks : ℕ) :
    (fromTicks m ticks).nanoseconds = (ticks * m % 2 ^ 32 * 1000 : ℕ) := by
  simp only [fromTicks]
  rw [nanoseconds_natCast, Int.natCast_inj]
  omega

/-- The product keeps 32 bits. -/
theorem exact_fromTicks_iff (config : Configuration) (ticks : ℕ) :
    (fromTicks config.microsecondsPerTick ticks).nanoseconds = ticks * config.nanosecondsPerTick ↔
      ticks * config.microsecondsPerTick < 2 ^ 32 := by
  rw [nanoseconds_fromTicks, Configuration.nanosecondsPerTick, ← Int.natCast_mul, Int.natCast_inj,
    ← Nat.mul_assoc]
  generalize ticks * config.microsecondsPerTick = usecs
  omega

/-- The way back gives the same number as long as the seconds do not lose a whole tick. -/
theorem back_fromTicks_iff (config : Configuration) {ticks : ℕ} (hticks : ticks < 2 ^ 32)
    (h : ticks * config.microsecondsPerTick < 2 ^ 32) :
    toTicks config.microsecondsPerTick (fromTicks config.microsecondsPerTick ticks) = ticks ↔
      ticks * config.microsecondsPerTick / 1000000 * (1000000000 % config.nanosecondsPerTick) <
        config.nanosecondsPerTick := by
  have hpos := config.nanosecondsPerTick_pos
  have hexact := (exact_fromTicks_iff config ticks).mpr h
  simp only [fromTicks, Nat.mod_eq_of_lt h] at hexact ⊢
  generalize ticks * config.microsecondsPerTick / 1000000 = s at hexact ⊢
  generalize ticks * config.microsecondsPerTick % 1000000 * 1000 = n at hexact ⊢
  have hmem : ticks ∈ Enough config ⟨s, n⟩ := le_of_eq hexact
  have hle := le_of_mem_enough hmem
  rw [nanoseconds_natCast, ← Int.natCast_mul, Int.natCast_inj, nanoseconds_split config] at hexact
  have hsum : toTicks config.microsecondsPerTick ⟨s, n⟩ =
      s * (1000000 / config.microsecondsPerTick) + n ⌈/⌉ config.nanosecondsPerTick := by
    rw [toTicks_natCast _ _ _ config.pos]
    exact Nat.mod_eq_of_lt (Nat.lt_of_le_of_lt hle hticks)
  obtain ⟨d, rfl⟩ := Nat.exists_eq_add_of_le (Nat.le_of_add_right_le hle)
  have hrest : s * (1000000000 % config.nanosecondsPerTick) + n = d * config.nanosecondsPerTick := by
    rw [Nat.add_mul] at hexact
    omega
  have hceil : ∀ k, n ⌈/⌉ config.nanosecondsPerTick ≤ k ↔ n ≤ k * config.nanosecondsPerTick := by
    intro k
    rw [ceilDiv_le_iff_le_mul hpos, Nat.mul_comm]
  rw [hsum]
  cases d with
  | zero =>
    have hzero := (hceil 0).mpr (by omega)
    omega
  | succ d =>
    have hbelow := hceil d
    rw [Nat.succ_mul] at hrest
    omega

theorem convertsBack_iff (config : Configuration) (hticks : ticks < 2 ^ 32) :
    ConvertsBack config ticks ↔
      ticks * config.microsecondsPerTick < 2 ^ 32 ∧
        ticks * config.microsecondsPerTick / 1000000 *
          (1000000000 % config.nanosecondsPerTick) < config.nanosecondsPerTick := by
  constructor
  · intro h
    have hfits := (exact_fromTicks_iff config ticks).mp h.exact
    exact ⟨hfits, (back_fromTicks_iff config hticks hfits).mp h.back⟩
  · intro ⟨hfits, hloss⟩
    exact ⟨isValid_fromTicks _ _, (exact_fromTicks_iff config ticks).mpr hfits,
      (back_fromTicks_iff config hticks hfits).mpr hloss⟩

/-- A clock of a hundred ticks a second, and five days. -/
def hundredHertz : Configuration := ⟨10000, by decide, by decide⟩

theorem convertsBack_iff_hundredHertz : ¬ ConvertsBack hundredHertz 43200000 := by
  rw [convertsBack_iff hundredHertz (by decide)]
  decide

/-- Five days become less than an hour. -/
theorem exists_not_convertsBack :
    fromTicks hundredHertz.microsecondsPerTick 43200000 = ⟨2503, 270400000⟩ ∧
      ¬ ∀ (config : Configuration) (ticks : ℕ), ticks < 2 ^ 32 → ConvertsBack config ticks := by
  have hvalue : fromTicks hundredHertz.microsecondsPerTick 43200000 = ⟨2503, 270400000⟩ := by decide
  refine ⟨hvalue, fun h => ?_⟩
  have hexact := (h hundredHertz 43200000 (by decide)).exact
  rw [exact_fromTicks_iff] at hexact
  revert hexact
  decide

/-! ## Percentages -/

/-- A time of the type: `time_t` is an `unsigned int`. -/
structure Proper (time : Timespec) : Prop where
  isValid : time.isValid = true
  sec_lt : time.sec < 2 ^ 32

/-- A hundred thousand times the quotient of two times, rounded down. -/
def percentage (lhs rhs : Timespec) : ℤ := 100000 * lhs.nanoseconds / rhs.nanoseconds

/-- What is expected of `_Timespec_Divide`. -/
structure DividesExactly (lhs rhs : Timespec) : Prop where
  quotient : rhs.nanoseconds ≠ 0 → percentage lhs rhs / 1000 < 2 ^ 32 →
    (((divide lhs rhs).1 * 1000 + (divide lhs rhs).2 : ℕ) : ℤ) = percentage lhs rhs
  fval_lt : (divide lhs rhs).2 < 1000
  zero : rhs.nanoseconds = 0 → divide lhs rhs = (0, 0)

theorem Proper.exists_nat (h : Proper time) :
    ∃ k : ℕ, time.nanoseconds = k ∧ k < 2 ^ 62 ∧
      ((time.sec * nanosecondsPerSecond + time.nsec) % 2 ^ 64).toNat = k := by
  obtain ⟨hsec, hnsec, hlt⟩ := isValid_iff.mp h.isValid
  have hbound := h.sec_lt
  refine ⟨time.nanoseconds.toNat, ?_, ?_, ?_⟩
  · rw [nanoseconds, nanosecondsPerSecond]
    omega
  · rw [nanoseconds, nanosecondsPerSecond]
    omega
  · rw [nanoseconds, nanosecondsPerSecond]
    omega

theorem divide_eq {l r : ℕ}
    (hl : ((lhs.sec * nanosecondsPerSecond + lhs.nsec) % 2 ^ 64).toNat = l)
    (hr : ((rhs.sec * nanosecondsPerSecond + rhs.nsec) % 2 ^ 64).toNat = r) :
    divide lhs rhs = if r = 0 then (0, 0)
      else (l * 100000 % 2 ^ 64 / r / 1000 % 2 ^ 32, l * 100000 % 2 ^ 64 / r % 1000) := by
  simp only [divide, hl, hr]

/-- A product that wraps changes the quotient. -/
theorem mod_div_lt {a r : ℕ} (hr : 0 < r) (hlt : r < 2 ^ 64) (h : 2 ^ 64 ≤ a) :
    a % 2 ^ 64 / r < a / r := by
  have hle : a % 2 ^ 64 + r ≤ a := by omega
  calc
    a % 2 ^ 64 / r < a % 2 ^ 64 / r + 1 := Nat.lt_succ_self _
    _ = (a % 2 ^ 64 + r) / r := (Nat.add_div_right _ hr).symm
    _ ≤ a / r := Nat.div_le_div_right hle

theorem dividesExactly_iff (hlhs : Proper lhs) (hrhs : Proper rhs) :
    DividesExactly lhs rhs ↔
      (rhs.nanoseconds ≠ 0 → percentage lhs rhs / 1000 < 2 ^ 32 →
        100000 * lhs.nanoseconds < 2 ^ 64) := by
  obtain ⟨l, hl, hllt, hlvalue⟩ := hlhs.exists_nat
  obtain ⟨r, hr, hrlt, hrvalue⟩ := hrhs.exists_nat
  have hvalue := divide_eq hlvalue hrvalue
  have hpercentage : percentage lhs rhs = ((l * 100000 / r : ℕ) : ℤ) := by
    rw [percentage, hl, hr, Int.natCast_div, Nat.mul_comm]
    rfl
  rw [hpercentage, hl, hr]
  constructor
  · intro h hne hfits
    have hquotient := h.quotient (by rw [hr]; exact hne) (by rw [hpercentage]; exact hfits)
    have hrne : r ≠ 0 := by omega
    rw [hpercentage, hvalue, if_neg hrne, Int.natCast_inj] at hquotient
    by_contra hwraps
    have hlt := mod_div_lt (a := l * 100000) (Nat.pos_of_ne_zero hrne) (by omega) (by omega)
    generalize l * 100000 % 2 ^ 64 / r = wrapped at hquotient hlt
    generalize l * 100000 / r = exact at hquotient hlt hfits
    omega
  · intro h
    refine ⟨?_, ?_, ?_⟩
    · rw [hr, hpercentage]
      intro hne hfits
      have hlt := h hne hfits
      rw [hvalue, if_neg (by omega), Nat.mod_eq_of_lt (by omega : l * 100000 < 2 ^ 64)]
      generalize l * 100000 / r = exact at hfits
      omega
    · rw [hvalue]
      split
      · decide
      · exact Nat.mod_lt _ (by decide)
    · rw [hr]
      intro hzero
      rw [hvalue, if_pos (by omega)]

/-- One minute out of two. -/
theorem dividesExactly_iff_minutes :
    Proper ⟨60, 0⟩ ∧ Proper ⟨120, 0⟩ ∧ DividesExactly ⟨60, 0⟩ ⟨120, 0⟩ := by
  have hlhs : Proper ⟨60, 0⟩ := ⟨by decide, by decide⟩
  have hrhs : Proper ⟨120, 0⟩ := ⟨by decide, by decide⟩
  refine ⟨hlhs, hrhs, ?_⟩
  rw [dividesExactly_iff hlhs hrhs]
  decide

/-- Three days out of four come out as less than 22 percent. -/
theorem exists_not_dividesExactly :
    divide ⟨259200, 0⟩ ⟨345600, 0⟩ = (21, 624) ∧
      ¬ ∀ lhs rhs : Timespec, Proper lhs → Proper rhs → DividesExactly lhs rhs := by
  have hvalue : divide ⟨259200, 0⟩ ⟨345600, 0⟩ = (21, 624) := by decide
  refine ⟨hvalue, fun h => ?_⟩
  have hquotient := (h ⟨259200, 0⟩ ⟨345600, 0⟩ ⟨by decide, by decide⟩
    ⟨by decide, by decide⟩).quotient (by decide) (by decide)
  rw [hvalue] at hquotient
  revert hquotient
  decide

end Timespec

end Rtems.PosixTimer
