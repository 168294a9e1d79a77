import Mathlib.Algebra.Order.Floor.Ring
import Mathlib.Data.Rat.Floor
import Mathlib.Tactic.Linarith

/-! `vp::TimeSpan`: nanoseconds and ticks, with signed integers of 64 bits that must not overflow. -/

namespace Awn.TimeSpan

def cMaxTime : ℤ := 2 ^ 63 - 1
def cMinTime : ℤ := -2 ^ 63

/-- A result of signed arithmetic, which has no value where it overflows. -/
def s64 (x : ℤ) : Option ℤ := if cMinTime ≤ x ∧ x ≤ cMaxTime then some x else none

def GetMaxTickToTimeSpan (frequency : ℤ) : ℤ :=
  ((cMaxTime - cMaxTime.tmod frequency).tdiv (10 ^ 9)) * frequency

def FromTick (frequency tick : ℤ) : Option ℤ :=
  let max_tick_to_timespan := GetMaxTickToTimeSpan frequency
  if max_tick_to_timespan < tick then some cMaxTime
  else if tick < -max_tick_to_timespan then some cMinTime
  else do
    let residual ← s64 (tick.tmod frequency * 10 ^ 9)
    let residual ← s64 (residual.tdiv frequency)
    let quotient ← s64 (tick.tdiv frequency * 10 ^ 9)
    s64 (residual + quotient)

/-- The sign is put back by the sign of the result, which has none. -/
def GetTick (frequency m_time_ns : ℤ) : Option ℤ :=
  if m_time_ns = cMinTime then some cMinTime
  else do
    let r_coeff ← s64 (if -1 ≥ m_time_ns then -m_time_ns.tmod (10 ^ 9) else m_time_ns.tmod (10 ^ 9))
    let p_coeff ← s64 (if -1 ≥ m_time_ns then -m_time_ns.tdiv (10 ^ 9) else m_time_ns.tdiv (10 ^ 9))
    let scaled ← s64 (r_coeff * frequency)
    let rounded ← s64 (scaled + 999999999)
    let residual ← s64 (rounded.tdiv (10 ^ 9))
    let product ← s64 (p_coeff * frequency)
    let result ← s64 (residual + product)
    if -1 ≥ result then s64 (-result) else some result

theorem s64_eq {x : ℤ} (hlo : -2 ^ 63 ≤ x) (hhi : x < 2 ^ 63) : s64 x = some x := by
  unfold s64 cMinTime cMaxTime
  rw [if_pos ⟨hlo, by omega⟩]

variable {f t n : ℤ}

theorem ticks_of_parts {r p : ℤ} (hf : 1 ≤ f) (hmax : f ≤ 10 ^ 9) (hr : 0 ≤ r) (hr' : r < 10 ^ 9)
    (hp : 0 ≤ p) (ht : r + p * 10 ^ 9 < 2 ^ 63) :
    ∃ n, (do
      let scaled ← s64 (r * f)
      let rounded ← s64 (scaled + 999999999)
      let residual ← s64 (rounded.tdiv (10 ^ 9))
      let product ← s64 (p * f)
      let result ← s64 (residual + product)
      if -1 ≥ result then s64 (-result) else some result) = some n ∧
      0 ≤ n ∧ (n - 1) * 10 ^ 9 < (r + p * 10 ^ 9) * f ∧ (r + p * 10 ^ 9) * f ≤ n * 10 ^ 9 := by
  have hrf : 0 ≤ r * f := Int.mul_nonneg hr (by omega)
  have hrf' : r * f ≤ r * 10 ^ 9 := Int.mul_le_mul_of_nonneg_left hmax hr
  have hpf : 0 ≤ p * f := Int.mul_nonneg hp (by omega)
  have hpf' : p * f ≤ p * 10 ^ 9 := Int.mul_le_mul_of_nonneg_left hmax hp
  have hsum : (r + p * 10 ^ 9) * f = r * f + p * f * 10 ^ 9 := by ring
  rw [hsum]
  generalize r * f = a at hrf hrf'
  generalize p * f = b at hpf hpf'
  have hdiv : (a + 999999999).tdiv (10 ^ 9) = (a + 999999999) / 10 ^ 9 :=
    Int.tdiv_eq_ediv_of_nonneg (by omega)
  refine ⟨(a + 999999999) / 10 ^ 9 + b, ?_, by omega, by omega, by omega⟩
  rw [s64_eq (by omega) (by omega)]
  dsimp only [bind, Option.bind]
  rw [s64_eq (by omega) (by omega)]
  dsimp only
  rw [hdiv, s64_eq (by omega) (by omega)]
  dsimp only
  rw [s64_eq (by omega) (by omega)]
  dsimp only
  rw [s64_eq (by omega) (by omega)]
  exact if_neg (by omega)

theorem getTick_spec (hf : 1 ≤ f) (hmax : f ≤ 10 ^ 9) (ht : -2 ^ 63 < t) (ht' : t < 2 ^ 63) :
    ∃ n, GetTick f t = some n ∧ 0 ≤ n ∧ (n - 1) * 10 ^ 9 < |t| * f ∧ |t| * f ≤ n * 10 ^ 9 := by
  have hne : t ≠ cMinTime := by
    unfold cMinTime
    omega
  rcases lt_or_ge t 0 with hneg | hpos
  · have hr : -t.tmod (10 ^ 9) = (-t) % 10 ^ 9 := by
      rw [← Int.neg_tmod, Int.tmod_eq_emod_of_nonneg (by omega)]
    have hp : -t.tdiv (10 ^ 9) = (-t) / 10 ^ 9 := by
      rw [← Int.neg_tdiv, Int.tdiv_eq_ediv_of_nonneg (by omega)]
    have hparts := ticks_of_parts (r := (-t) % 10 ^ 9) (p := (-t) / 10 ^ 9) hf hmax (by omega)
      (by omega) (by omega) (by omega)
    have hwhole : (-t) % 10 ^ 9 + (-t) / 10 ^ 9 * 10 ^ 9 = |t| := by
      rw [abs_of_neg hneg]
      omega
    rw [hwhole] at hparts
    obtain ⟨n, heq, hn⟩ := hparts
    refine ⟨n, ?_, hn⟩
    unfold GetTick
    rw [if_neg hne, if_pos (by omega), if_pos (by omega), hr, hp, s64_eq (by omega) (by omega)]
    dsimp only [bind, Option.bind]
    rw [s64_eq (by omega) (by omega)]
    exact heq
  · have hr : t.tmod (10 ^ 9) = t % 10 ^ 9 := Int.tmod_eq_emod_of_nonneg hpos
    have hp : t.tdiv (10 ^ 9) = t / 10 ^ 9 := Int.tdiv_eq_ediv_of_nonneg hpos
    have hparts := ticks_of_parts (r := t % 10 ^ 9) (p := t / 10 ^ 9) hf hmax (by omega)
      (by omega) (by omega) (by omega)
    have hwhole : t % 10 ^ 9 + t / 10 ^ 9 * 10 ^ 9 = |t| := by
      rw [abs_of_nonneg hpos]
      omega
    rw [hwhole] at hparts
    obtain ⟨n, heq, hn⟩ := hparts
    refine ⟨n, ?_, hn⟩
    unfold GetTick
    rw [if_neg hne, if_neg (by omega), if_neg (by omega), hr, hp, s64_eq (by omega) (by omega)]
    dsimp only [bind, Option.bind]
    rw [s64_eq (by omega) (by omega)]
    exact heq

theorem fromTick_spec (hf : 1 ≤ f) (hmax : f ≤ 10 ^ 9) (hn : 0 ≤ n)
    (hlimit : n ≤ GetMaxTickToTimeSpan f) :
    ∃ m, FromTick f n = some m ∧ m * f ≤ n * 10 ^ 9 ∧ n * 10 ^ 9 < (m + 1) * f := by
  have hnot : ¬GetMaxTickToTimeSpan f < n := not_lt.mpr hlimit
  have hnot' : ¬n < -GetMaxTickToTimeSpan f := by omega
  unfold FromTick
  dsimp only
  rw [if_neg hnot, if_neg hnot', Int.tmod_eq_emod_of_nonneg hn, Int.tdiv_eq_ediv_of_nonneg hn]
  -- whole seconds of ticks up to the limit, and a rest only below it
  obtain ⟨limit, hlimit_eq, hlimit_le⟩ : ∃ limit, GetMaxTickToTimeSpan f = limit * f ∧
      limit * 10 ^ 9 < 2 ^ 63 := by
    refine ⟨_, rfl, ?_⟩
    have hrest := Int.emod_nonneg cMaxTime (by omega : f ≠ 0)
    have hmod : cMaxTime.tmod f = cMaxTime % f := Int.tmod_eq_emod_of_nonneg (by decide)
    have hle : cMaxTime % f ≤ cMaxTime := by
      have hquot := Int.mul_ediv_add_emod cMaxTime f
      have hpos : 0 ≤ f * (cMaxTime / f) :=
        Int.mul_nonneg (by omega) (Int.ediv_nonneg (by decide) (by omega))
      omega
    rw [hmod, Int.tdiv_eq_ediv_of_nonneg (by omega)]
    unfold cMaxTime at *
    omega
  have hq : 0 ≤ n / f := Int.ediv_nonneg hn (by omega)
  have hr : 0 ≤ n % f := Int.emod_nonneg n (by omega)
  have hr' : n % f < f := Int.emod_lt_of_pos n (by omega)
  have hwhole : n % f + f * (n / f) = n := Int.emod_add_mul_ediv n f
  generalize n / f = q at hq hwhole
  generalize n % f = r at hr hr' hwhole
  rw [hlimit_eq] at hlimit
  have hq' : q ≤ limit := by
    by_contra hlt
    have hmul : (limit + 1) * f ≤ q * f := Int.mul_le_mul_of_nonneg_right (by omega) (by omega)
    linarith
  have hd : 0 ≤ r * 10 ^ 9 / f := Int.ediv_nonneg (by omega) (by omega)
  have hlow : f * (r * 10 ^ 9 / f) ≤ r * 10 ^ 9 := Int.mul_ediv_self_le (by omega)
  have hhigh : r * 10 ^ 9 < f * (r * 10 ^ 9 / f) + f := by
    have hlt := Int.lt_mul_ediv_self_add (x := r * 10 ^ 9) (by omega : 0 < f)
    exact hlt
  have htd : (r * 10 ^ 9).tdiv f = r * 10 ^ 9 / f := Int.tdiv_eq_ediv_of_nonneg (by omega)
  generalize r * 10 ^ 9 / f = d at hd hlow hhigh htd
  have hd' : d < 10 ^ 9 := by
    by_contra hge
    have hmul : f * 10 ^ 9 ≤ f * d := Int.mul_le_mul_of_nonneg_left (by omega) (by omega)
    linarith
  have hsum : d + q * 10 ^ 9 < 2 ^ 63 := by
    rcases lt_or_eq_of_le hq' with hlt | heq
    · omega
    · have hzero : r = 0 := by
        rw [heq] at hwhole
        linarith
      have hd0 : f * d ≤ 0 := by
        rw [hzero] at hlow
        exact hlow
      have hdle : d ≤ 0 := by
        by_contra hpos
        have hmul : f * 1 ≤ f * d := Int.mul_le_mul_of_nonneg_left (by omega) (by omega)
        omega
      omega
  refine ⟨d + q * 10 ^ 9, ?_, ?_, ?_⟩
  · rw [s64_eq (by omega) (by omega)]
    dsimp only [bind, Option.bind]
    rw [htd, s64_eq (by omega) (by omega)]
    dsimp only
    rw [s64_eq (by omega) (by omega)]
    exact s64_eq (by omega) hsum
  · linarith
  · linarith

structure TickRight (f t : ℤ) : Prop where
  returns : ∃ n, GetTick f t = some n
  ceiling : 0 ≤ t → GetTick f t = some ⌈(t * f : ℚ) / 10 ^ 9⌉
  negation : t < 0 → GetTick f t = (GetTick f (-t)).map (-·)
  monotone : ∀ t', t ≤ t' → t' < 2 ^ 63 → ∀ n n', GetTick f t = some n → GetTick f t' = some n' →
    n ≤ n'
  inverse : 0 ≤ t → ∀ n, GetTick f t = some n → n ≤ GetMaxTickToTimeSpan f →
    (∃ m, FromTick f n = some m ∧ t ≤ m) ∧ (0 < t → ∃ m, FromTick f (n - 1) = some m ∧ m < t)

theorem eq_ceil (hlow : (n - 1) * 10 ^ 9 < t * f) (hhigh : t * f ≤ n * 10 ^ 9) :
    ⌈(t * f : ℚ) / 10 ^ 9⌉ = n := by
  have hlow' : ((n : ℚ) - 1) * 10 ^ 9 < t * f := by exact_mod_cast hlow
  have hhigh' : (t * f : ℚ) ≤ n * 10 ^ 9 := by exact_mod_cast hhigh
  rw [Int.ceil_eq_iff]
  constructor
  · rw [lt_div_iff₀ (by norm_num)]
    exact hlow'
  · rw [div_le_iff₀ (by norm_num)]
    exact hhigh'

/-- From every frequency up to a tick in a nanosecond the ticks are right exactly for times that are
not negative. -/
theorem tickRight_iff (f t : ℤ) (hf : 1 ≤ f) (hmax : f ≤ 10 ^ 9) (ht : -2 ^ 63 < t)
    (ht' : t < 2 ^ 63) : TickRight f t ↔ 0 ≤ t := by
  obtain ⟨n, heq, hn, hlow, hhigh⟩ := getTick_spec hf hmax ht ht'
  constructor
  · intro h
    by_contra hneg
    have hmap := h.negation (by omega)
    obtain ⟨k, heq', hk, hlow', hhigh'⟩ := getTick_spec hf hmax (t := -t) (by omega) (by omega)
    rw [heq, heq', Option.map_some, Option.some.injEq] at hmap
    have hpos : 0 < |t| * f := Int.mul_pos (abs_pos.mpr (by omega)) (by omega)
    omega
  · intro hpos
    rw [abs_of_nonneg hpos] at hlow hhigh
    refine ⟨⟨n, heq⟩, fun _ => ?_, fun hneg => absurd hpos (not_le.mpr hneg), ?_, ?_⟩
    · rw [heq, eq_ceil hlow hhigh]
    · intro t' hle hlt k k' hk hk'
      obtain ⟨n', heq', -, -, hhigh'⟩ := getTick_spec hf hmax (t := t') (by omega) hlt
      rw [hk] at heq
      rw [hk'] at heq'
      obtain rfl := Option.some.inj heq
      obtain rfl := Option.some.inj heq'
      rw [abs_of_nonneg (by omega)] at hhigh'
      have hmul : t * f ≤ t' * f := Int.mul_le_mul_of_nonneg_right hle (by omega)
      omega
    · intro _ k hk hlimit
      rw [hk] at heq
      obtain rfl := Option.some.inj heq
      constructor
      · obtain ⟨m, hm, -, hm'⟩ := fromTick_spec hf hmax hn hlimit
        refine ⟨m, hm, ?_⟩
        by_contra hlt
        have hmul : (m + 1) * f ≤ t * f := Int.mul_le_mul_of_nonneg_right (by omega) (by omega)
        omega
      · intro ht0
        have hmul0 : 0 < t * f := Int.mul_pos ht0 (by omega)
        obtain ⟨m, hm, hm', -⟩ := fromTick_spec hf hmax (n := k - 1) (by omega) (by omega)
        refine ⟨m, hm, ?_⟩
        by_contra hge
        have hmul : t * f ≤ m * f := Int.mul_le_mul_of_nonneg_right (by omega) (by omega)
        omega

theorem tickRight_iff_microseconds : TickRight 10000000 1500 ↔ (0 : ℤ) ≤ 1500 :=
  tickRight_iff 10000000 1500 (by decide) (by decide) (by decide) (by decide)

theorem negativeTime_not_tickRight : ¬TickRight 10000000 (-100) := by
  intro h
  have hneg := h.negation (by decide)
  revert hneg
  decide

end Awn.TimeSpan
