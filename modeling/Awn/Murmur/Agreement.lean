import Awn.Murmur.Hash
import Mathlib.Algebra.Group.Nat.Defs

/-! Where the hashes are what they are meant to be. -/

namespace Awn.Murmur

open Memory
open Murmur3 (word groups hash hashWith step state mix body fmix32 rotl32)

variable {memory : ℕ → BitVec 8} {string : ℕ} {text : List (BitVec 8)}

theorem rotated_eq (k : BitVec 32) :
    (k * cMurmur32PreShift ||| (k * cMurmur32Constant1) >>> 17) * cMurmur32Constant2 = mix k := by
  have hshift : k * cMurmur32PreShift = (k * cMurmur32Constant1) <<< 15 := by
    rw [BitVec.shiftLeft_eq_mul_twoPow, BitVec.mul_assoc]
    congr 1
  rw [hshift]
  rfl

theorem finishCheck_eq (k seed : BitVec 32) : finishCheck k seed = seed ^^^ mix k := by
  rw [BitVec.xor_comm, ← rotated_eq]
  rfl

theorem ofNat_add_sub (n k : ℕ) : BitVec.ofNat 32 (n + k) - BitVec.ofNat 32 k = BitVec.ofNat 32 n := by
  rw [BitVec.ofNat_add, BitVec.add_sub_cancel]

theorem signExtend_ne_zero {b : BitVec 8} (hb : b ≠ 0) : b.signExtend 32 ≠ 0 := by
  revert hb
  revert b
  decide

theorem char32_eq {n : ℕ} (hn : n < 2 ^ 32) :
    char32 memory string (BitVec.ofNat 32 n) = (memory (string + n)).signExtend 32 := by
  rw [char32, BitVec.toNat_ofNat, Nat.mod_eq_of_lt hn]

theorem state_tail (assemble : List (BitVec 8) → BitVec 32) (seed : BitVec 32)
    {tail : List (BitVec 8)} (hne : tail ≠ []) (hlt : tail.length < 4) :
    state assemble tail seed = seed ^^^ mix (assemble tail) := by
  rw [state, Murmur3.groups_tail tail hne hlt, List.foldl_cons, List.foldl_nil, step,
    if_neg (by omega)]

theorem murmur3Loop_eq {fuel n : ℕ} (hfuel : text.length < fuel) (hlen : n + text.length < 2 ^ 32)
    (hholds : HoldsText memory (string + n) text) (htext : ∀ c ∈ text, c ≠ 0) (seed : BitVec 32) :
    murmur3Loop memory string fuel (char32 memory string (BitVec.ofNat 32 n)) seed
        (BitVec.ofNat 32 n) =
      some (state signedWord text seed, BitVec.ofNat 32 (n + text.length)) := by
  induction fuel generalizing text n seed with
  | zero => exact absurd hfuel (Nat.not_lt_zero _)
  | succ fuel ih =>
    have hplace : ∀ k ≤ text.length, (BitVec.ofNat 32 (n + k)).toNat = n + k := by
      intro k hk
      rw [BitVec.toNat_ofNat]
      omega
    have hone : BitVec.ofNat 32 n + 1 = BitVec.ofNat 32 (n + 1) := (BitVec.ofNat_add n 1).symm
    have htwo : BitVec.ofNat 32 (n + 1) + 1 = BitVec.ofNat 32 (n + 2) :=
      (BitVec.ofNat_add (n + 1) 1).symm
    have hthree : BitVec.ofNat 32 (n + 2) + 1 = BitVec.ofNat 32 (n + 3) :=
      (BitVec.ofNat_add (n + 2) 1).symm
    have hfour : BitVec.ofNat 32 (n + 3) + 1 = BitVec.ofNat 32 (n + 4) :=
      (BitVec.ofNat_add (n + 3) 1).symm
    have hget : ∀ k, (hk : k < text.length) → memory (string + (n + k)) = text[k] := by
      intro k hk
      rw [← Nat.add_assoc]
      exact hholds.get k hk
    have hnul : memory (string + (n + text.length)) = 0 := by
      rw [← Nat.add_assoc]
      exact hholds.nul
    have hchar : ∀ k, (hk : k < text.length) →
        char32 memory string (BitVec.ofNat 32 (n + k)) = text[k].signExtend 32 := by
      intro k hk
      rw [char32_eq (by omega), hget k hk]
    rw [murmur3Loop]
    rcases text with _ | ⟨b0, text⟩
    · have hzero : char32 memory string (BitVec.ofNat 32 n) = 0 := by
        have hnul' : memory (string + n) = 0 := hnul
        rw [char32_eq (by omega), hnul']
        rfl
      rw [if_neg (not_not.mpr hzero)]
      rfl
    have h0 : char32 memory string (BitVec.ofNat 32 n) = b0.signExtend 32 :=
      hchar 0 (Nat.succ_pos _)
    have hne0 : b0.signExtend 32 ≠ 0 := signExtend_ne_zero (htext b0 List.mem_cons_self)
    rw [h0, if_pos hne0]
    dsimp only
    rw [hone, hplace 1 (by simp)]
    rcases text with _ | ⟨b1, text⟩
    · have hend : memory (string + (n + 1)) = 0 := hnul
      rw [if_pos hend, finishCheck_eq, state_tail _ _ (by simp) (by simp)]
      simp [signedWord]
    have hget1 : memory (string + (n + 1)) = b1 := hget 1 (by simp)
    have hchar1 : char32 memory string (BitVec.ofNat 32 (n + 1)) = b1.signExtend 32 :=
      hchar 1 (by simp)
    have hne1 : b1 ≠ 0 := htext b1 (by simp)
    rw [hget1, if_neg hne1, htwo, hplace 2 (by simp)]
    rcases text with _ | ⟨b2, text⟩
    · have hend : memory (string + (n + 2)) = 0 := hnul
      have hback : BitVec.ofNat 32 (n + 2) - 1 = BitVec.ofNat 32 (n + 1) := ofNat_add_sub (n + 1) 1
      rw [if_pos hend, finishCheck_eq, state_tail _ _ (by simp) (by simp), hback, hchar1]
      simp [signedWord]
    have hget2 : memory (string + (n + 2)) = b2 := hget 2 (by simp)
    have hchar2 : char32 memory string (BitVec.ofNat 32 (n + 2)) = b2.signExtend 32 :=
      hchar 2 (by simp)
    have hne2 : b2 ≠ 0 := htext b2 (by simp)
    rw [hget2, if_neg hne2, hthree, hplace 3 (by simp)]
    rcases text with _ | ⟨b3, rest⟩
    · have hend : memory (string + (n + 3)) = 0 := hnul
      have hback1 : BitVec.ofNat 32 (n + 3) - 1 = BitVec.ofNat 32 (n + 2) := ofNat_add_sub (n + 2) 1
      have hback2 : BitVec.ofNat 32 (n + 3) - 2 = BitVec.ofNat 32 (n + 1) := ofNat_add_sub (n + 1) 2
      rw [if_pos hend, finishCheck_eq, state_tail _ _ (by simp) (by simp), hback1, hback2, hchar1,
        hchar2]
      simp [signedWord, BitVec.shiftLeft_or_distrib, BitVec.or_assoc]
    have hget3 : memory (string + (n + 3)) = b3 := hget 3 (by simp)
    have hchar3 : char32 memory string (BitVec.ofNat 32 (n + 3)) = b3.signExtend 32 :=
      hchar 3 (by simp)
    have hne3 : b3 ≠ 0 := htext b3 (by simp)
    have hback1 : BitVec.ofNat 32 (n + 4) - 1 = BitVec.ofNat 32 (n + 3) := ofNat_add_sub (n + 3) 1
    have hback2 : BitVec.ofNat 32 (n + 4) - 2 = BitVec.ofNat 32 (n + 2) := ofNat_add_sub (n + 2) 2
    have hback3 : BitVec.ofNat 32 (n + 4) - 3 = BitVec.ofNat 32 (n + 1) := ofNat_add_sub (n + 1) 3
    have hword : b0.signExtend 32 ||| b1.signExtend 32 <<< 8 ||| b2.signExtend 32 <<< 16 |||
        b3.signExtend 32 <<< 24 = signedWord [b0, b1, b2, b3] := by
      simp [signedWord, BitVec.shiftLeft_or_distrib, BitVec.or_assoc]
    have hbody : ∀ k, (((k * cMurmur32PreShift ||| (k * cMurmur32Constant1) >>> 17) *
        cMurmur32Constant2 ^^^ seed) >>> 19 ||| ((k * cMurmur32PreShift |||
          (k * cMurmur32Constant1) >>> 17) * cMurmur32Constant2 ^^^ seed) <<< 13) * 5 + cMurmur32M =
        body seed k := by
      intro k
      rw [rotated_eq, body, rotl32, BitVec.or_comm, BitVec.xor_comm]
      rfl
    rw [hget3, if_neg hne3, hfour, hback1, hback2, hback3, hchar1, hchar2, hchar3, hword, hbody,
      @ih rest (n + 4)]
    · have hend : n + 4 + rest.length = n + (b0 :: b1 :: b2 :: b3 :: rest).length := by
        simp only [List.length_cons]
        omega
      rw [hend]
      simp [state, groups, step]
    · simp only [List.length_cons] at hfuel
      omega
    · simp only [List.length_cons] at hlen
      omega
    · exact hholds.tail.tail.tail.tail
    · exact fun c hc => htext c (by simp [hc])

theorem hashMurmur3WithSeed_eq {fuel : ℕ} (hfuel : text.length < fuel)
    (hlen : text.length < 2 ^ 32) (hholds : HoldsText memory string text)
    (htext : ∀ c ∈ text, c ≠ 0) (seed : BitVec 32) :
    hashMurmur3WithSeed memory string fuel seed = some (hashWith signedWord text seed) := by
  have hloop := murmur3Loop_eq (n := 0) hfuel (by omega) hholds htext seed
  rw [Nat.zero_add] at hloop
  have hmap := congrArg (Option.map fun r : BitVec 32 × BitVec 32 => fmix32 (r.2 ^^^ r.1)) hloop
  exact hmap

theorem length_groups {α : Type*} (xs : List α) : ∀ g ∈ groups xs, g.length ≤ 4 := by
  fun_induction groups xs with
  | case1 a b c d rest ih =>
    rw [List.forall_mem_cons]
    exact ⟨Nat.le_refl 4, ih⟩
  | case2 => exact fun g hg => absurd hg List.not_mem_nil
  | case3 tail hne hlong =>
    intro g hg
    rw [List.mem_singleton.mp hg]
    match tail with
    | [] => simp
    | [_] => simp
    | [_, _] => simp
    | [_, _, _] => simp
    | a :: b :: c :: d :: rest => exact absurd rfl (hne a b c d rest)

def counted (first : BitVec 8) (k : ℕ) : BitVec 8 :=
  if first.msb then if k = 0 then first else 0xff else first + BitVec.ofNat 8 k

def CountsUp (text : List (BitVec 8)) : Prop :=
  ∀ i < text.length / 8, ∀ k < 8, text[8 * i + k]? = text[8 * i]?.map (counted · k)

theorem word64_ones : ∀ b : BitVec 8, b.msb = true →
    (or8 fun i => (b.signExtend 32 + BitVec.ofNat 32 i).signExtend 64) =
      or8 fun i => (if i = 0 then b else 0xff).setWidth 64 := by
  decide +kernel

theorem word64_counted : ∀ b : BitVec 8, b.msb = false → ∀ i < 8,
    (b.signExtend 32 + BitVec.ofNat 32 i).signExtend 64 = (b + BitVec.ofNat 8 i).setWidth 64 := by
  decide +kernel

theorem or8_congr {f g : ℕ → BitVec 64} (h : ∀ i < 8, f i = g i) : or8 f = or8 g := by
  simp only [or8, h 0 (by decide), h 1 (by decide), h 2 (by decide), h 3 (by decide),
    h 4 (by decide), h 5 (by decide), h 6 (by decide), h 7 (by decide)]

theorem word64_eq (h : ∀ k < 8, memory (string + k) = counted (memory string) k) :
    word64 memory true string = word64 memory false string := by
  have hread : (or8 fun i => (memory (string + i)).setWidth 64) =
      or8 fun i => (counted (memory string) i).setWidth 64 := by
    apply or8_congr
    intro i hi
    rw [h i hi]
  rw [word64, word64, if_neg (by decide), if_pos rfl, hread]
  cases hmsb : (memory string).msb with
  | true =>
    rw [word64_ones _ hmsb]
    simp only [counted, hmsb, if_true]
  | false =>
    apply or8_congr
    intro i hi
    rw [word64_counted _ hmsb i hi]
    simp only [counted, hmsb, Bool.false_eq_true, if_false]

theorem murmur64Loop_eq {words : ℕ} (h : ∀ i < words,
    word64 memory true (string + 8 * i) = word64 memory false (string + 8 * i)) (state : BitVec 64) :
    murmur64Loop memory true words state string = murmur64Loop memory false words state string := by
  induction words generalizing string state with
  | zero => rfl
  | succ words ih =>
    have hfirst : word64 memory true string = word64 memory false string := h 0 (Nat.succ_pos words)
    rw [murmur64Loop, murmur64Loop, hfirst]
    apply ih
    intro i hi
    have hnext : string + 8 + 8 * i = string + 8 * (i + 1) := by omega
    rw [hnext]
    exact h (i + 1) (Nat.succ_lt_succ hi)

theorem hashMurmur64_eq {fuel : ℕ} (hfuel : text.length < fuel)
    (hholds : HoldsText memory string text) (htext : ∀ c ∈ text, c ≠ 0) (hcounts : CountsUp text) :
    ∃ state, hashMurmur64 memory string true fuel = some state ∧
      hashMurmur64 memory string false fuel = some state := by
  have hget : ∀ i < text.length, text[i]? = some (memory (string + i)) := by
    intro i hi
    rw [hholds.get i hi, List.getElem?_eq_getElem hi]
  have hloop : ∀ state, murmur64Loop memory true
      ((string + 8 * (text.length / 8) - string) / 8) state string =
      murmur64Loop memory false ((string + 8 * (text.length / 8) - string) / 8) state string := by
    intro state
    rw [Nat.add_sub_cancel_left, Nat.mul_div_cancel_left _ (by decide)]
    apply murmur64Loop_eq
    intro i hi
    apply word64_eq
    intro k hk
    have hcount := hcounts i hi k hk
    rw [hget _ (by omega), hget _ (by omega), Option.map_some, ← Nat.add_assoc] at hcount
    exact Option.some.inj hcount
  unfold hashMurmur64
  rw [strlen_eq (hholds.isString htext) hfuel, Option.map_some, Option.map_some]
  dsimp only
  rw [hloop]
  exact ⟨_, rfl, rfl⟩

structure HashesRight (text : List (BitVec 8)) : Prop where
  murmur3 : ∀ memory string fuel seed, HoldsText memory string text → text.length < fuel →
    hashMurmur3WithSeed memory string fuel seed = some (hash text seed)
  murmur64 : ∀ memory string fuel, HoldsText memory string text → text.length < fuel →
    ∃ state, hashMurmur64 memory string true fuel = some state ∧
      hashMurmur64 memory string false fuel = some state

end Awn.Murmur
