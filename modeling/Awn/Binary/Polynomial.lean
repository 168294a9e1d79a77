import Mathlib.Algebra.Field.ZMod
import Mathlib.Algebra.Polynomial.Div
import Mathlib.Data.Nat.Notation
import Mathlib.RingTheory.Coprime.Lemmas
import Mathlib.Tactic.LinearCombination

namespace Awn.Binary

def shiftOne {w : Nat} (feedback s : BitVec w) : BitVec w :=
  if s.getLsbD 0 then (s >>> 1) ^^^ feedback else s >>> 1

def shiftMany {w : Nat} (feedback : BitVec w) : Nat → BitVec w → BitVec w
  | 0, s => s
  | n + 1, s => shiftMany feedback n (shiftOne feedback s)

theorem shiftMany_add {w : Nat} (feedback : BitVec w) (m n : Nat) (s : BitVec w) :
    shiftMany feedback (m + n) s = shiftMany feedback n (shiftMany feedback m s) := by
  induction m generalizing s with
  | zero => rw [Nat.zero_add, shiftMany]
  | succ m ih => rw [Nat.succ_add, shiftMany, ih, shiftMany]

theorem xor_xor_xor_comm {w : Nat} (a b c d : BitVec w) :
    (a ^^^ b) ^^^ (c ^^^ d) = (a ^^^ c) ^^^ (b ^^^ d) := by
  rw [BitVec.xor_assoc, BitVec.xor_assoc, ← BitVec.xor_assoc b, ← BitVec.xor_assoc c,
    BitVec.xor_comm b c]

theorem shiftOne_xor {w : Nat} (feedback s t : BitVec w) :
    shiftOne feedback (s ^^^ t) = shiftOne feedback s ^^^ shiftOne feedback t := by
  simp only [shiftOne, BitVec.getLsbD_xor, BitVec.ushiftRight_xor_distrib]
  cases s.getLsbD 0 <;> cases t.getLsbD 0
  · rfl
  · exact BitVec.xor_assoc (s >>> 1) (t >>> 1) feedback
  · show s >>> 1 ^^^ t >>> 1 ^^^ feedback = s >>> 1 ^^^ feedback ^^^ t >>> 1
    rw [BitVec.xor_assoc, BitVec.xor_comm (t >>> 1), ← BitVec.xor_assoc]
  · show s >>> 1 ^^^ t >>> 1 = s >>> 1 ^^^ feedback ^^^ (t >>> 1 ^^^ feedback)
    rw [xor_xor_xor_comm, BitVec.xor_self, BitVec.xor_zero]

theorem shiftMany_xor {w : Nat} (feedback : BitVec w) (n : Nat) (s t : BitVec w) :
    shiftMany feedback n (s ^^^ t) = shiftMany feedback n s ^^^ shiftMany feedback n t := by
  induction n generalizing s t with
  | zero => rfl
  | succ n ih => rw [shiftMany, shiftOne_xor, ih, shiftMany, shiftMany]

theorem shiftMany_eq_ushiftRight {w : Nat} (feedback : BitVec w) (n : Nat) (s : BitVec w)
    (hs : ∀ i, i < n → s.getLsbD i = false) : shiftMany feedback n s = s >>> n := by
  induction n generalizing s with
  | zero => exact (BitVec.ushiftRight_zero s).symm
  | succ n ih =>
    have hone : shiftOne feedback s = s >>> 1 := by
      rw [shiftOne, hs 0 (Nat.succ_pos n)]
      rfl
    rw [shiftMany, hone, ih, ← BitVec.shiftRight_add, Nat.add_comm]
    intro i hi
    rw [BitVec.getLsbD_ushiftRight, hs (1 + i) (by omega)]

theorem shiftOne_setWidth {v w : Nat} (hw : w ≤ v) (feedback s : BitVec w) :
    shiftOne (feedback.setWidth v) (s.setWidth v) = (shiftOne feedback s).setWidth v := by
  have hbit : (s.setWidth v).getLsbD 0 = s.getLsbD 0 := by
    rw [BitVec.getLsbD_setWidth]
    cases hs : s.getLsbD 0 with
    | false => rw [Bool.and_false]
    | true => simp [Nat.lt_of_lt_of_le (BitVec.lt_of_getLsbD hs) hw]
  have hshift : s.setWidth v >>> 1 = (s >>> 1).setWidth v := by
    apply BitVec.eq_of_getLsbD_eq
    intro i hi
    simp only [BitVec.getLsbD_ushiftRight, BitVec.getLsbD_setWidth, hi, decide_true, Bool.true_and]
    by_cases hnext : 1 + i < v
    · simp [hnext]
    · simp [hnext, BitVec.getLsbD_of_ge s (1 + i) (by omega)]
  rw [shiftOne, shiftOne, hbit, hshift]
  split
  · rw [BitVec.setWidth_xor]
  · rfl

theorem shiftMany_setWidth {v w : Nat} (hw : w ≤ v) (feedback : BitVec w) (n : Nat)
    (s : BitVec w) :
    shiftMany (feedback.setWidth v) n (s.setWidth v) = (shiftMany feedback n s).setWidth v := by
  induction n generalizing s with
  | zero => rfl
  | succ n ih => rw [shiftMany, shiftOne_setWidth hw, ih, shiftMany]

open Polynomial

noncomputable def toPoly {w : Nat} (x : BitVec w) : (ZMod 2)[X] :=
  ∑ i ∈ Finset.range w, if x.getLsbD i then X ^ i else 0

@[simp]
theorem coeff_toPoly {w : Nat} (x : BitVec w) (n : Nat) :
    (toPoly x).coeff n = if x.getLsbD n then 1 else 0 := by
  have hterm (i : Nat) : ((if x.getLsbD i then X ^ i else 0 : (ZMod 2)[X])).coeff n =
      if n = i then if x.getLsbD n then 1 else 0 else 0 := by
    by_cases hn : n = i
    · subst hn
      cases x.getLsbD n <;> simp
    · cases x.getLsbD i <;> simp [coeff_X_pow, hn]
  rw [toPoly, finsetSum_coeff, Finset.sum_congr rfl (fun i _ => hterm i), Finset.sum_ite_eq]
  split
  · rfl
  · case isFalse hn =>
    rw [BitVec.getLsbD_of_ge x n (by simpa using hn)]
    rfl

theorem eq_of_toPoly {w : Nat} {x y : BitVec w} (h : toPoly x = toPoly y) : x = y := by
  apply BitVec.eq_of_getLsbD_eq
  intro i _
  have hcoeff : (toPoly x).coeff i = (toPoly y).coeff i := by rw [h]
  rw [coeff_toPoly, coeff_toPoly] at hcoeff
  cases hx : x.getLsbD i <;> cases hy : y.getLsbD i <;> simp [hx, hy] at hcoeff ⊢

@[simp]
theorem toPoly_zero (w : Nat) : toPoly (0#w) = 0 := by
  ext n
  simp

theorem toPoly_xor {w : Nat} (x y : BitVec w) : toPoly (x ^^^ y) = toPoly x + toPoly y := by
  ext n
  simp only [coeff_toPoly, coeff_add, BitVec.getLsbD_xor]
  cases x.getLsbD n <;> cases y.getLsbD n <;> decide

theorem add_self (p : (ZMod 2)[X]) : p + p = 0 := CharTwo.add_self_eq_zero p

theorem toPoly_append {v w : Nat} (hi : BitVec v) (lo : BitVec w) :
    toPoly (hi ++ lo) = toPoly lo + X ^ w * toPoly hi := by
  ext n
  rw [coeff_add, coeff_X_pow_mul']
  simp only [coeff_toPoly, BitVec.getLsbD_append]
  by_cases hn : n < w
  · simp [hn, Nat.not_le_of_lt hn]
  · simp [hn, Nat.le_of_not_lt hn]

def clmulBits {w : Nat} (a b : BitVec w) : Nat → BitVec (w + w)
  | 0 => 0
  | n + 1 => clmulBits a b n ^^^ if a.getLsbD n then b.setWidth (w + w) <<< n else 0

def clmul {w : Nat} (a b : BitVec w) : BitVec (w + w) :=
  clmulBits a b w

theorem toPoly_shiftLeft {w : Nat} (b : BitVec w) (n : Nat) (hn : n ≤ w) :
    toPoly (b.setWidth (w + w) <<< n) = X ^ n * toPoly b := by
  ext m
  rw [coeff_X_pow_mul']
  simp only [coeff_toPoly, BitVec.getLsbD_shiftLeft, BitVec.getLsbD_setWidth]
  by_cases hm : m < n
  · simp [hm, Nat.not_le_of_lt hm]
  · by_cases hbound : m < w + w
    · simp [hm, hbound, Nat.le_of_not_lt hm, Nat.lt_of_le_of_lt (Nat.sub_le m n) hbound]
    · simp [hm, hbound, Nat.le_of_not_lt hm, BitVec.getLsbD_of_ge b (m - n) (by omega)]

theorem toPoly_clmulBits {w : Nat} (a b : BitVec w) (n : Nat) (hn : n ≤ w) :
    toPoly (clmulBits a b n) =
      (∑ i ∈ Finset.range n, if a.getLsbD i then X ^ i else 0) * toPoly b := by
  induction n with
  | zero => simp [clmulBits]
  | succ n ih =>
    rw [clmulBits, toPoly_xor, ih (Nat.le_of_succ_le hn), Finset.sum_range_succ, add_mul]
    congr 1
    split
    · exact toPoly_shiftLeft b n (Nat.le_of_succ_le hn)
    · simp

theorem toPoly_clmul {w : Nat} (a b : BitVec w) :
    toPoly (clmul a b) = toPoly a * toPoly b :=
  toPoly_clmulBits a b w (Nat.le_refl w)

def low {w : Nat} (x : BitVec (w + w)) : BitVec w := x.extractLsb' 0 w

def high {w : Nat} (x : BitVec (w + w)) : BitVec w := x.extractLsb' w w

theorem high_append_low {w : Nat} (x : BitVec (w + w)) : high x ++ low x = x := by
  apply BitVec.eq_of_getLsbD_eq
  intro i hi
  simp only [high, low, BitVec.getLsbD_append, BitVec.getLsbD_extractLsb']
  by_cases hlow : i < w
  · simp [hlow]
  · simp [hlow, show i - w < w by omega, show w + (i - w) = i by omega]

theorem toPoly_halves {w : Nat} (x : BitVec (w + w)) :
    toPoly x = toPoly (low x) + X ^ w * toPoly (high x) := by
  rw [← toPoly_append, high_append_low]

theorem toPoly_ushiftRight {w : Nat} (s : BitVec w) :
    X * toPoly (s >>> 1) + (if s.getLsbD 0 then 1 else 0) = toPoly s := by
  ext n
  rw [coeff_add]
  cases n with
  | zero => cases hs : s.getLsbD 0 <;> simp [hs, mul_coeff_zero]
  | succ n =>
    rw [coeff_X_mul]
    have hone : (if s.getLsbD 0 then 1 else 0 : (ZMod 2)[X]).coeff (n + 1) = 0 := by
      split <;> simp [coeff_one]
    rw [hone, coeff_toPoly, coeff_toPoly, BitVec.getLsbD_ushiftRight, Nat.add_comm 1 n, add_zero]

theorem toPoly_shiftOne {w : Nat} (feedback s : BitVec w) :
    X * toPoly (shiftOne feedback s) =
      toPoly s + (if s.getLsbD 0 then 1 else 0) * (1 + X * toPoly feedback) := by
  have hshift := toPoly_ushiftRight s
  cases hs : s.getLsbD 0 with
  | false =>
    simp only [hs, shiftOne, Bool.false_eq_true, if_false, zero_mul, add_zero] at hshift ⊢
    exact hshift
  | true =>
    simp only [hs, shiftOne, if_true, toPoly_xor, one_mul] at hshift ⊢
    linear_combination hshift - add_self (1 : (ZMod 2)[X])

noncomputable def quotient {w : Nat} (feedback : BitVec w) : Nat → BitVec w → (ZMod 2)[X]
  | 0, _ => 0
  | n + 1, s => (if s.getLsbD 0 then 1 else 0) + X * quotient feedback n (shiftOne feedback s)

theorem toPoly_shiftMany {w : Nat} (feedback : BitVec w) (n : Nat) (s : BitVec w) :
    X ^ n * toPoly (shiftMany feedback n s) =
      toPoly s + quotient feedback n s * (1 + X * toPoly feedback) := by
  induction n generalizing s with
  | zero => simp [shiftMany, quotient]
  | succ n ih =>
    calc X ^ (n + 1) * toPoly (shiftMany feedback (n + 1) s)
        = X * (X ^ n * toPoly (shiftMany feedback n (shiftOne feedback s))) := by
          rw [shiftMany]
          ring
      _ = X * toPoly (shiftOne feedback s) +
            X * (quotient feedback n (shiftOne feedback s) * (1 + X * toPoly feedback)) := by
          rw [ih, mul_add]
      _ = toPoly s + quotient feedback (n + 1) s * (1 + X * toPoly feedback) := by
          rw [toPoly_shiftOne, quotient]
          ring

theorem coeff_quotient {w : Nat} (feedback : BitVec w) (n : Nat) (s : BitVec w) (m : Nat)
    (hm : n ≤ m) : (quotient feedback n s).coeff m = 0 := by
  induction n generalizing s m with
  | zero => rfl
  | succ n ih =>
    obtain ⟨m, rfl⟩ := Nat.exists_eq_add_of_le' hm
    rw [quotient, coeff_add, ← Nat.add_assoc, coeff_X_mul, ih _ _ (Nat.le_add_left n m), add_zero]
    split <;> simp [coeff_one]

theorem eq_zero_of_X_pow_dvd {p : (ZMod 2)[X]} {w : Nat} (hdvd : X ^ w ∣ p)
    (hdegree : ∀ m, w ≤ m → p.coeff m = 0) : p = 0 := by
  ext m
  by_cases hm : m < w
  · rw [X_pow_dvd_iff.mp hdvd m hm, coeff_zero]
  · rw [hdegree m (Nat.le_of_not_lt hm), coeff_zero]

theorem isCoprime_X_pow (p : (ZMod 2)[X]) (w : Nat) : IsCoprime (X ^ w) (1 + X * p) := by
  apply IsCoprime.pow_left
  exact ⟨-p, 1, by ring⟩

theorem high_clmul_eq_shiftMany {w : Nat} (feedback modulus inverse x : BitVec w)
    (hmodulus : toPoly modulus = 1 + X * toPoly feedback)
    (hinverse : toPoly (low (clmul inverse modulus)) = 1) :
    high (clmul (low (clmul x inverse)) modulus) = shiftMany feedback w x := by
  have hx := toPoly_halves (clmul x inverse)
  have hone := toPoly_halves (clmul inverse modulus)
  have hproduct := toPoly_halves (clmul (low (clmul x inverse)) modulus)
  have hshift := toPoly_shiftMany feedback w x
  rw [toPoly_clmul] at hx hone hproduct
  rw [hinverse] at hone
  rw [← hmodulus] at hshift
  -- The low half of `x * inverse` is the quotient that the shifts find bit by bit.
  have hquotient : toPoly (low (clmul x inverse)) = quotient feedback w x := by
    have hzero : toPoly (low (clmul x inverse)) + quotient feedback w x = 0 := by
      apply eq_zero_of_X_pow_dvd
      · apply (isCoprime_X_pow (toPoly feedback) w).dvd_of_dvd_mul_right
        rw [← hmodulus]
        refine ⟨toPoly x * toPoly (high (clmul inverse modulus)) -
          toPoly (high (clmul x inverse)) * toPoly modulus +
          toPoly (shiftMany feedback w x), ?_⟩
        linear_combination -(toPoly modulus) * hx + toPoly x * hone - hshift
      · intro m hm
        rw [coeff_add, coeff_toPoly, BitVec.getLsbD_of_ge _ m hm, coeff_quotient _ _ _ _ hm]
        simp
    exact CharTwo.add_eq_zero.mp hzero
  rw [hquotient] at hproduct
  have hsum : toPoly (low (clmul (low (clmul x inverse)) modulus)) + toPoly x =
      X ^ w * (toPoly (shiftMany feedback w x) -
        toPoly (high (clmul (low (clmul x inverse)) modulus))) := by
    linear_combination -hproduct - hshift
  have hlow : toPoly (low (clmul (low (clmul x inverse)) modulus)) + toPoly x = 0 := by
    apply eq_zero_of_X_pow_dvd ⟨_, hsum⟩
    intro m hm
    rw [← toPoly_xor, coeff_toPoly, BitVec.getLsbD_of_ge _ m hm]
    rfl
  rw [hlow] at hsum
  apply eq_of_toPoly
  apply mul_left_cancel₀ (pow_ne_zero w X_ne_zero)
  linear_combination hsum

end Awn.Binary
