import Awn.TimeSpan.Tick
import Mathlib.Data.Int.Bitwise

/-! Absolute timeouts of `vp::TimeSpan`: the ticks of a timeout are added to a current tick. -/

namespace Awn.TimeSpan

/-- The code is built with `-fwrapv`. -/
def wrap (x : ℤ) : ℤ := x.bmod (2 ^ 64)

def GetTimeLeftOnTarget (frequency now tick : ℤ) : Option ℤ :=
  if tick = 0 then some 0
  else
    let tick_left := wrap (tick - now)
    if tick_left ≤ 0 then some 0 else FromTick frequency tick_left

def GetAbsoluteTimeToWakeup (frequency now timeout_ns : ℤ) : Option ℤ := do
  let timeout_tick ← GetTick frequency timeout_ns
  if 0 ≥ timeout_tick then some cMaxTime
  else
    let absolute_time := wrap (timeout_tick + now)
    if wrap (absolute_time + 1) ≤ 1 then some cMaxTime else some (wrap (absolute_time + 2))

def ticks (frequency time_ns : ℤ) : ℤ := ⌈((|time_ns| : ℤ) * frequency : ℚ) / 10 ^ 9⌉

variable {f now t : ℤ}

theorem wrap_eq {x : ℤ} (hlo : -2 ^ 63 ≤ x) (hhi : x < 2 ^ 63) : wrap x = x := by
  apply Int.bmod_eq_of_le <;> omega

theorem wrap_over {x : ℤ} (hlo : 2 ^ 63 ≤ x) (hhi : x < 2 ^ 64 + 2 ^ 63) :
    wrap x = x - 2 ^ 64 := by
  have hsub : wrap (x - 2 ^ 64) = wrap x := Int.sub_bmod_right x (2 ^ 64)
  rw [← hsub]
  exact wrap_eq (by omega) (by omega)

theorem maxTick_nonneg (hf : 1 ≤ f) : 0 ≤ GetMaxTickToTimeSpan f := by
  have hrest : cMaxTime.tmod f ≤ cMaxTime := by
    have hquot := Int.mul_tdiv_add_tmod cMaxTime f
    have hpos : 0 ≤ f * cMaxTime.tdiv f :=
      Int.mul_nonneg (by omega) (Int.tdiv_nonneg (by decide) (by omega))
    omega
  have hquot : 0 ≤ (cMaxTime - cMaxTime.tmod f).tdiv (10 ^ 9) :=
    Int.tdiv_nonneg (by omega) (by decide)
  exact Int.mul_nonneg hquot (by omega)

theorem getTick_ticks (hf : 1 ≤ f) (hmax : f ≤ 10 ^ 9) (ht : -2 ^ 63 < t) (ht' : t < 2 ^ 63) :
    GetTick f t = some (ticks f t) ∧ 0 ≤ ticks f t ∧ (ticks f t - 1) * 10 ^ 9 < |t| * f ∧
      |t| * f ≤ ticks f t * 10 ^ 9 := by
  obtain ⟨n, heq, hn, hlow, hhigh⟩ := getTick_spec hf hmax ht ht'
  have hceil : ticks f t = n := by
    exact eq_ceil hlow hhigh
  rw [hceil]
  exact ⟨heq, hn, hlow, hhigh⟩

theorem ticks_lt (hf : 1 ≤ f) (hmax : f ≤ 10 ^ 9) (ht : -2 ^ 63 < t) (ht' : t < 2 ^ 63) :
    ticks f t < 2 ^ 63 := by
  obtain ⟨-, -, hlow, -⟩ := getTick_ticks hf hmax ht ht'
  have habs : |t| < 2 ^ 63 := abs_lt.mpr ⟨ht, ht'⟩
  have hmul : |t| * f ≤ |t| * 10 ^ 9 := Int.mul_le_mul_of_nonneg_left hmax (abs_nonneg t)
  omega

theorem ticks_pos (hf : 1 ≤ f) (hmax : f ≤ 10 ^ 9) (ht : -2 ^ 63 < t) (ht' : t < 2 ^ 63)
    (hne : t ≠ 0) : 1 ≤ ticks f t := by
  obtain ⟨-, -, -, hhigh⟩ := getTick_ticks hf hmax ht ht'
  have hmul : 0 < |t| * f := Int.mul_pos (abs_pos.mpr hne) (by omega)
  omega

theorem ticks_mono (hf : 1 ≤ f) (hmax : f ≤ 10 ^ 9) {t' : ℤ} (hpos : 0 < t') (hle : t' ≤ t)
    (ht' : t < 2 ^ 63) : ticks f t' ≤ ticks f t := by
  obtain ⟨-, -, hlow, -⟩ := getTick_ticks hf hmax (t := t') (by omega) (by omega)
  obtain ⟨-, -, -, hhigh⟩ := getTick_ticks hf hmax (t := t) (by omega) ht'
  rw [abs_of_pos hpos] at hlow
  rw [abs_of_pos (by omega : 0 < t)] at hhigh
  have hmul : t' * f ≤ t * f := Int.mul_le_mul_of_nonneg_right hle (by omega)
  omega

theorem wakeup_eq (hf : 1 ≤ f) (hmax : f ≤ 10 ^ 9) (hnow : 0 ≤ now) (hnow' : now < 2 ^ 63)
    (ht : -2 ^ 63 < t) (ht' : t < 2 ^ 63) (hne : t ≠ 0) :
    GetAbsoluteTimeToWakeup f now t =
      if 2 ^ 63 - 1 ≤ now + ticks f t then some cMaxTime
      else if now + ticks f t = 2 ^ 63 - 2 then some (-2 ^ 63)
      else some (now + ticks f t + 2) := by
  have hpos := ticks_pos hf hmax ht ht' hne
  have hlt := ticks_lt hf hmax ht ht'
  unfold GetAbsoluteTimeToWakeup
  rw [(getTick_ticks hf hmax ht ht').1, Option.bind_eq_bind, Option.bind_some, if_neg (by omega)]
  dsimp only
  rw [Int.add_comm now]
  generalize ticks f t = n at hpos hlt
  by_cases hover : 2 ^ 63 ≤ n + now
  · rw [wrap_over hover (by omega), wrap_eq (by omega) (by omega), if_pos (by omega),
      if_pos (by omega)]
  · rw [wrap_eq (x := n + now) (by omega) (by omega)]
    by_cases hlast : n + now = 2 ^ 63 - 1
    · rw [hlast, wrap_over (by omega) (by omega), if_pos (by omega), if_pos (by omega)]
    · rw [wrap_eq (x := n + now + 1) (by omega) (by omega), if_neg (by omega), if_neg (by omega)]
      by_cases hedge : n + now = 2 ^ 63 - 2
      · rw [if_pos hedge, hedge, wrap_over (by omega) (by omega)]
        rfl
      · rw [if_neg hedge, wrap_eq (by omega) (by omega)]

theorem timeLeft_spec (hf : 1 ≤ f) (hmax : f ≤ 10 ^ 9) (ht : 0 < t) (ht' : t < 2 ^ 63) {n : ℤ}
    (hnow : 0 ≤ now) (hnow' : now < 2 ^ 63) (hn : 0 < n) (hn' : n < 2 ^ 63) :
    ∃ left, GetTimeLeftOnTarget f now n = some left ∧ 0 ≤ left ∧
      (t ≤ left ↔ GetMaxTickToTimeSpan f < n - now ∨ ticks f t ≤ n - now) := by
  obtain ⟨-, -, hlow, hhigh⟩ := getTick_ticks hf hmax (t := t) (by omega) ht'
  have hpos := ticks_pos hf hmax (t := t) (by omega) ht' (by omega)
  rw [abs_of_pos ht] at hlow hhigh
  unfold GetTimeLeftOnTarget
  rw [if_neg (by omega), wrap_eq (by omega) (by omega)]
  dsimp only
  generalize n - now = d
  by_cases hd : d ≤ 0
  · have hlimit : 0 ≤ GetMaxTickToTimeSpan f := maxTick_nonneg hf
    refine ⟨0, if_pos hd, le_refl 0, ?_⟩
    omega
  rw [if_neg hd]
  by_cases hlimit : GetMaxTickToTimeSpan f < d
  · refine ⟨cMaxTime, if_pos hlimit, by decide, ?_⟩
    unfold cMaxTime
    omega
  · obtain ⟨m, hm, hm', hm''⟩ := fromTick_spec hf hmax (n := d) (by omega) (by omega)
    refine ⟨m, hm, ?_, ?_⟩
    · by_contra hneg
      have hmul : (m + 1) * f ≤ 0 * f := Int.mul_le_mul_of_nonneg_right (by omega) (by omega)
      omega
    constructor
    · intro hle
      have hmul : t * f ≤ m * f := Int.mul_le_mul_of_nonneg_right hle (by omega)
      omega
    · intro hticks
      by_contra hlt
      have hmul : (m + 1) * f ≤ t * f := Int.mul_le_mul_of_nonneg_right (by omega) (by omega)
      omega

structure WakeupRight (f now t : ℤ) : Prop where
  infinite : t ≤ 0 → GetAbsoluteTimeToWakeup f now t = some cMaxTime
  later : 0 < t → ∃ n, GetAbsoluteTimeToWakeup f now t = some n ∧
    (n = cMaxTime ∨ ∃ timeout_tick, GetTick f t = some timeout_tick ∧ now + timeout_tick ≤ n)
  nonneg : ∃ n, GetAbsoluteTimeToWakeup f now t = some n ∧ 0 ≤ n
  monotone : ∀ t', 0 < t' → t' ≤ t → ∀ n n', GetAbsoluteTimeToWakeup f now t = some n →
    GetAbsoluteTimeToWakeup f now t' = some n' → n' ≤ n
  left : ∀ n, GetAbsoluteTimeToWakeup f now t = some n →
    ∃ left, GetTimeLeftOnTarget f now n = some left ∧ t ≤ left

def SumInRange (f now t : ℤ) : Prop :=
  let absolute_time := now + ticks f t
  if 0 < t then
    absolute_time ≤ 2 ^ 63 - 3 ∨ absolute_time = 2 ^ 63 - 1 ∨
      2 ^ 63 ≤ absolute_time ∧ GetMaxTickToTimeSpan f < 2 ^ 63 - 1 - now
  else t = 0 ∨ t = -2 ^ 63 ∨ absolute_time = 2 ^ 63 - 3 ∨ 2 ^ 63 - 1 ≤ absolute_time

theorem wakeupRight_of_nonpos (hf : 1 ≤ f) (hmax : f ≤ 10 ^ 9) (hnow : 0 ≤ now)
    (hnow' : now < 2 ^ 63) (ht : t ≤ 0) :
    WakeupRight f now t ↔ GetAbsoluteTimeToWakeup f now t = some cMaxTime := by
  constructor
  · intro h
    exact h.infinite ht
  · intro h
    refine ⟨fun _ => h, fun hpos => ?_, ⟨cMaxTime, h, by decide⟩, fun t' hpos hle => ?_, ?_⟩
    · omega
    · omega
    · intro n hn
      rw [h, Option.some.injEq] at hn
      obtain ⟨left, hleft, hle, -⟩ := timeLeft_spec (t := 1) (n := n) hf hmax (by omega) (by omega)
        hnow hnow' (by rw [← hn]; decide) (by rw [← hn]; decide)
      exact ⟨left, hleft, by omega⟩

theorem infinite_iff (hf : 1 ≤ f) (hmax : f ≤ 10 ^ 9) (hnow : 0 ≤ now) (hnow' : now < 2 ^ 63)
    (ht : -2 ^ 63 ≤ t) (ht' : t ≤ 0) :
    GetAbsoluteTimeToWakeup f now t = some cMaxTime ↔ SumInRange f now t := by
  unfold SumInRange
  dsimp only
  rw [if_neg (not_lt.mpr ht')]
  by_cases hmin : t = -2 ^ 63
  · rw [hmin]
    exact iff_of_true rfl (Or.inr (Or.inl rfl))
  by_cases hzero : t = 0
  · obtain ⟨heq, -⟩ := getTick_ticks (t := t) hf hmax (by omega) (by omega)
    have hnone : ticks f 0 = 0 := by simp [ticks]
    refine iff_of_true ?_ (Or.inl hzero)
    rw [hzero, hnone] at heq
    rw [hzero, GetAbsoluteTimeToWakeup, heq]
    rfl
  rw [wakeup_eq hf hmax hnow hnow' (by omega) (by omega) hzero]
  generalize now + ticks f t = sum
  unfold cMaxTime
  split_ifs with hover hedge
  · exact iff_of_true rfl (Or.inr (Or.inr (Or.inr hover)))
  · simp only [Option.some.injEq]
    omega
  · simp only [Option.some.injEq]
    omega

/-- At every tick and for every timeout the result is right exactly where the sum does not step
over the maximum, or the infinite time is returned after all. -/
theorem wakeupRight_iff (f now t : ℤ) (hf : 1 ≤ f) (hmax : f ≤ 10 ^ 9) (hnow : 0 ≤ now)
    (hnow' : now < 2 ^ 63) (ht : -2 ^ 63 ≤ t) (ht' : t < 2 ^ 63) :
    WakeupRight f now t ↔ SumInRange f now t := by
  rcases le_or_gt t 0 with hneg | hpos
  · rw [wakeupRight_of_nonpos hf hmax hnow hnow' hneg, infinite_iff hf hmax hnow hnow' ht hneg]
  have heq := wakeup_eq hf hmax hnow hnow' (t := t) (by omega) ht' (by omega)
  have hticks := ticks_pos hf hmax (t := t) (by omega) ht' (by omega)
  unfold SumInRange
  dsimp only
  rw [if_pos hpos]
  by_cases hedge : now + ticks f t = 2 ^ 63 - 2
  · rw [if_neg (by omega), if_pos hedge] at heq
    refine iff_of_false (fun h => ?_) (by omega)
    obtain ⟨n, hn, hn'⟩ := h.nonneg
    rw [heq, Option.some.injEq] at hn
    omega
  obtain ⟨n, heq, hn⟩ : ∃ n, GetAbsoluteTimeToWakeup f now t = some n ∧
      (2 ^ 63 - 1 ≤ now + ticks f t ∧ n = cMaxTime ∨
        now + ticks f t < 2 ^ 63 - 2 ∧ n = now + ticks f t + 2) := by
    rw [if_neg hedge] at heq
    by_cases hover : 2 ^ 63 - 1 ≤ now + ticks f t
    · rw [if_pos hover] at heq
      exact ⟨cMaxTime, heq, Or.inl ⟨hover, rfl⟩⟩
    · rw [if_neg hover] at heq
      exact ⟨_, heq, Or.inr ⟨by omega, rfl⟩⟩
  have hcMax : cMaxTime = 2 ^ 63 - 1 := rfl
  obtain ⟨left, hleft, -, hcovers⟩ := timeLeft_spec (n := n) hf hmax hpos ht' hnow hnow'
    (by omega) (by omega)
  have hright : WakeupRight f now t ↔ t ≤ left := by
    constructor
    · intro h
      obtain ⟨left', hleft', hle⟩ := h.left n heq
      rw [hleft, Option.some.injEq] at hleft'
      omega
    · intro hle
      refine ⟨fun hneg => ?_, fun _ => ⟨n, heq, ?_⟩, ⟨n, heq, by omega⟩, ?_, fun n' hn' => ?_⟩
      · omega
      · obtain ⟨htick, -⟩ := getTick_ticks (t := t) hf hmax (by omega) ht'
        rcases hn with hn | hn
        · exact Or.inl hn.2
        · exact Or.inr ⟨ticks f t, htick, by omega⟩
      · intro t' hpos' hle' m m' hm hm'
        have hmono := ticks_mono hf hmax hpos' hle' ht'
        rw [heq, Option.some.injEq] at hm
        rw [wakeup_eq hf hmax hnow hnow' (by omega) (by omega) (by omega)] at hm'
        split_ifs at hm' <;> rw [Option.some.injEq] at hm' <;> omega
      · rw [heq, Option.some.injEq] at hn'
        rw [← hn']
        exact ⟨left, hleft, hle⟩
  rw [hright, hcovers]
  omega

theorem wakeupRight_iff_second :
    WakeupRight 10000000 10000000 1500 ↔ SumInRange 10000000 10000000 1500 :=
  wakeupRight_iff 10000000 10000000 1500 (by decide) (by decide) (by decide) (by decide) (by decide)
    (by decide)

theorem negativeTimeout_not_wakeupRight : ¬WakeupRight 10000000 10000000 (-100) := by
  intro h
  have hinfinite := h.infinite (by decide)
  revert hinfinite
  decide

end Awn.TimeSpan
