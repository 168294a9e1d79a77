import Awn.Crc32.Pclmul

namespace Awn.Crc32

open Awn.Binary

def constant : V2ull := ⟨0xB4E5B025F7011641#64, 0x00000001DB710641#64⟩

def crc32b_32 (value accumulate : BitVec 32) : BitVec 32 :=
  let state : V2ull := ⟨(value ^^^ accumulate).setWidth 64 <<< 32, 0#64⟩
  let state := pclmulqdq state constant (pclmulSelectionMask false false)
  let state := pclmulqdq state constant (pclmulSelectionMask false true)
  state.e1.setWidth 32

def crc32b_64 (value : BitVec 64) (accumulate : BitVec 32) : BitVec 32 :=
  let state : V2ull := ⟨value ^^^ accumulate.setWidth 64, 0#64⟩
  let state := pclmulqdq state constant (pclmulSelectionMask false false)
  let state := pclmulqdq state constant (pclmulSelectionMask false true)
  state.e1.setWidth 32

def load (memory : Nat → BitVec 8) (data : Nat) : (n : Nat) → BitVec (8 * n)
  | 0 => 0#0
  | n + 1 => load memory (data + 1) n ++ memory data

def hashWords (memory : Nat → BitVec 8) : Nat → BitVec 32 → Nat → BitVec 32
  | 0, seed, _ => seed
  | words + 1, seed, data_iter =>
    let val : BitVec 64 := load memory data_iter 8
    hashWords memory words (crc32b_64 val seed) (data_iter + 8)

def hashRest (memory : Nat → BitVec 8) (count : BitVec 32) (seed : BitVec 32)
    (leftover_iter : Nat) : BitVec 32 :=
  let seed := if 0#32 < count then hashByte seed (memory leftover_iter) else seed
  let seed := if 1#32 < count then hashByte seed (memory (leftover_iter + 1)) else seed
  if 2#32 < count then hashByte seed (memory (leftover_iter + 2)) else seed

def hashDataCrc32bWithContext (memory : Nat → BitVec 8) (context : BitVec 32) (data : Nat)
    (data_size : BitVec 64) : BitVec 32 :=
  let aligned_size := data_size &&& ~~~7#64
  let data_leftover := data + aligned_size.toNat
  let seed :=
    if aligned_size ≠ 0 then hashWords memory ((data_leftover - data) / 8) context data else context
  let count := (data_size &&& 3#64).setWidth 32
  let seed :=
    if data_size &&& 4#64 ≠ 0 then
      let val : BitVec 32 := load memory data_leftover 4
      hashRest memory count (crc32b_32 val seed) (data_leftover + 4)
    else
      hashRest memory count seed data_leftover
  ~~~seed

def feedback : BitVec 64 := cCrc32bSeed.setWidth 64

theorem toPoly_modulus : toPoly constant.e1 = 1 + Polynomial.X * toPoly feedback := by
  have hshift := toPoly_ushiftRight constant.e1
  rw [show constant.e1 >>> 1 = feedback by decide, show constant.e1.getLsbD 0 = true by decide,
    if_pos rfl] at hshift
  rw [← hshift, add_comm]

theorem toPoly_inverse : toPoly (low (clmul constant.e0 constant.e1)) = 1 := by
  have hone : low (clmul constant.e0 constant.e1) = 1#64 := by decide +kernel
  rw [hone, toPoly, Finset.sum_eq_single 0]
  · rfl
  · intro i _ hi
    rw [BitVec.getLsbD_one]
    simp [hi]
  · simp

theorem reduce_eq (x : BitVec 64) :
    (pclmulqdq (pclmulqdq ⟨x, 0#64⟩ constant (pclmulSelectionMask false false)) constant
      (pclmulSelectionMask false true)).e1 = shiftMany feedback 64 x :=
  high_clmul_eq_shiftMany feedback constant.e1 constant.e0 x toPoly_modulus toPoly_inverse

theorem setWidth_append {n : Nat} (hi : BitVec (8 * n)) (lo : BitVec 8) :
    (hi ++ lo).setWidth 64 = (hi.setWidth 64 <<< 8) ^^^ lo.setWidth 64 := by
  apply BitVec.eq_of_getLsbD_eq
  intro i hi'
  simp only [BitVec.getLsbD_setWidth, BitVec.getLsbD_append, BitVec.getLsbD_xor,
    BitVec.getLsbD_shiftLeft]
  by_cases hlow : i < 8
  · simp [hi', hlow]
  · simp [hi', hlow, BitVec.getLsbD_of_ge lo i (Nat.le_of_not_lt hlow), show i - 8 < 64 by omega]

theorem shiftMany_shiftLeft {n : Nat} (x : BitVec n) (k : Nat) (hk : n + k ≤ 64) :
    shiftMany feedback k (x.setWidth 64 <<< k) = x.setWidth 64 := by
  rw [shiftMany_eq_ushiftRight]
  · apply BitVec.eq_of_getLsbD_eq
    intro i hi
    rw [BitVec.getLsbD_ushiftRight, BitVec.getLsbD_shiftLeft, BitVec.getLsbD_setWidth,
      BitVec.getLsbD_setWidth]
    by_cases hlast : k + i < 64
    · simp [hi, hlast]
    · simp [hlast, BitVec.getLsbD_of_ge x i (by omega)]
  · intro i hlow
    rw [BitVec.getLsbD_shiftLeft, decide_eq_true hlow]
    simp

theorem shiftMany_byte {n : Nat} (hi : BitVec (8 * n)) (value : BitVec 8) (seed : BitVec 32)
    (hn : 8 * n + 8 ≤ 64) :
    shiftMany feedback 8 ((hi ++ value).setWidth 64 ^^^ seed.setWidth 64) =
      hi.setWidth 64 ^^^ (hashByte seed value).setWidth 64 := by
  have hbyte : value.setWidth 64 = (value.setWidth 32).setWidth 64 := by
    apply BitVec.eq_of_getLsbD_eq
    intro i hi'
    rw [BitVec.getLsbD_setWidth, BitVec.getLsbD_setWidth, BitVec.getLsbD_setWidth]
    by_cases hlow : i < 32
    · simp [hlow]
    · simp [BitVec.getLsbD_of_ge value i (by omega)]
  rw [setWidth_append hi value, BitVec.xor_assoc, shiftMany_xor,
    shiftMany_shiftLeft hi 8 hn, hbyte,
    ← BitVec.setWidth_xor, feedback, shiftMany_setWidth (by decide), hashByte_eq]

theorem shiftMany_load (memory : Nat → BitVec 8) (n : Nat) (hn : 8 * n ≤ 64) (seed : BitVec 32)
    (data : Nat) :
    shiftMany feedback (8 * n) ((load memory data n).setWidth 64 ^^^ seed.setWidth 64) =
      (tHashLoop memory n seed data).setWidth 64 := by
  induction n generalizing seed data with
  | zero =>
    show 0#64 ^^^ seed.setWidth 64 = seed.setWidth 64
    exact BitVec.zero_xor
  | succ n ih =>
    have hbyte := shiftMany_byte (load memory (data + 1) n) (memory data) seed (by omega)
    generalize hz : (load memory data (n + 1)).setWidth 64 ^^^ seed.setWidth 64 = z
    rw [show 8 * (n + 1) = 8 + 8 * n by omega, shiftMany_add, ← hz, load, hbyte, ih (by omega),
      tHashLoop]

theorem crc32b_64_load (memory : Nat → BitVec 8) (seed : BitVec 32) (data : Nat) :
    crc32b_64 (load memory data 8) seed = tHashLoop memory 8 seed data := by
  have hload := shiftMany_load memory 8 (by decide) seed data
  rw [BitVec.setWidth_eq] at hload
  simp only [crc32b_64, reduce_eq]
  rw [hload]
  exact BitVec.setWidth_setWidth_of_le (tHashLoop memory 8 seed data) (by decide)

theorem crc32b_32_load (memory : Nat → BitVec 8) (seed : BitVec 32) (data : Nat) :
    crc32b_32 (load memory data 4) seed = tHashLoop memory 4 seed data := by
  have hload := shiftMany_load memory 4 (by decide) seed data
  simp only [crc32b_32, reduce_eq]
  have hsplit (x : BitVec 64) :
      shiftMany feedback 64 x = shiftMany feedback (8 * 4) (shiftMany feedback 32 x) :=
    shiftMany_add feedback 32 32 x
  rw [hsplit, shiftMany_shiftLeft _ 32 (Nat.le_refl 64), BitVec.setWidth_xor, hload]
  exact BitVec.setWidth_setWidth_of_le (tHashLoop memory 4 seed data) (by decide)

theorem hashWords_eq (memory : Nat → BitVec 8) (words : Nat) (seed : BitVec 32) (data : Nat) :
    hashWords memory words seed data = tHashLoop memory (8 * words) seed data := by
  induction words generalizing seed data with
  | zero => rfl
  | succ words ih =>
    rw [hashWords, crc32b_64_load, ih, show 8 * (words + 1) = 8 + 8 * words by omega,
      tHashLoop_add]

theorem hashRest_eq (memory : Nat → BitVec 8) (count : BitVec 32) (hcount : count.toNat < 4)
    (seed : BitVec 32) (data : Nat) :
    hashRest memory count seed data = tHashLoop memory count.toNat seed data := by
  have hcases : count = 0#32 ∨ count = 1#32 ∨ count = 2#32 ∨ count = 3#32 := by
    have hofNat : BitVec.ofNat 32 count.toNat = count := by
      rw [BitVec.ofNat_toNat, BitVec.setWidth_eq]
    generalize count.toNat = n at hcount hofNat
    subst hofNat
    have hn : n = 0 ∨ n = 1 ∨ n = 2 ∨ n = 3 := by omega
    rcases hn with rfl | rfl | rfl | rfl <;> simp
  rcases hcases with rfl | rfl | rfl | rfl <;> rfl

theorem and_not_seven (x : BitVec 64) : (x &&& ~~~7#64).toNat = 8 * (x.toNat / 8) := by
  have hshift : x &&& ~~~7#64 = x >>> 3 <<< 3 := by
    apply BitVec.eq_of_getLsbD_eq
    intro i hi
    have hseven : (7#64).getLsbD i = decide (i < 3) := by
      rw [BitVec.getLsbD_ofNat, show 7 = 2 ^ 3 - 1 from rfl, Nat.testBit_two_pow_sub_one,
        decide_eq_true hi, Bool.true_and]
    rw [BitVec.getLsbD_and, BitVec.getLsbD_not, hseven, BitVec.getLsbD_shiftLeft,
      BitVec.getLsbD_ushiftRight]
    by_cases hlow : i < 3
    · simp [hlow]
    · simp [hi, hlow, show 3 + (i - 3) = i by omega]
  have hlt := x.isLt
  rw [hshift, BitVec.toNat_shiftLeft, BitVec.toNat_ushiftRight, Nat.shiftLeft_eq,
    Nat.shiftRight_eq_div_pow, Nat.mod_eq_of_lt (by omega), Nat.mul_comm]

theorem and_four (x : BitVec 64) : x &&& 4#64 ≠ 0 ↔ x.toNat / 4 % 2 = 1 := by
  have htwoPow : x &&& 4#64 = if x.getLsbD 2 then 4#64 else 0#64 := BitVec.and_twoPow x 2
  have hbit : x.getLsbD 2 = decide (x.toNat / 4 % 2 = 1) := Nat.testBit_eq_decide_div_mod_eq
  rw [htwoPow, hbit]
  by_cases hfour : x.toNat / 4 % 2 = 1
  · simp [hfour]
  · simp [hfour]

theorem and_three (x : BitVec 64) : ((x &&& 3#64).setWidth 32).toNat = x.toNat % 4 := by
  rw [BitVec.toNat_setWidth, BitVec.toNat_and]
  show (x.toNat &&& (2 ^ 2 - 1)) % 2 ^ 32 = x.toNat % 4
  rw [Nat.and_two_pow_sub_one_eq_mod]
  omega

theorem hashData_eq_tHashData (memory : Nat → BitVec 8) (context : BitVec 32) (data : Nat)
    (data_size : BitVec 64) :
    hashDataCrc32bWithContext memory context data data_size =
      tHashDataCrc32bWithContext memory context data data_size := by
  have haligned := and_not_seven data_size
  have hcount := and_three data_size
  have hwords : (if data_size &&& ~~~7#64 ≠ 0 then
      hashWords memory ((data + (data_size &&& ~~~7#64).toNat - data) / 8) context data
      else context) = tHashLoop memory (data_size &&& ~~~7#64).toNat context data := by
    split
    · rw [hashWords_eq, Nat.add_sub_cancel_left, haligned, Nat.mul_div_cancel_left _ (by decide)]
    · case isFalse hzero =>
      rw [not_not.mp hzero]
      rfl
  simp only [hashDataCrc32bWithContext, tHashDataCrc32bWithContext, hwords, and_four,
    crc32b_32_load, hashRest_eq _ _ (hcount ▸ Nat.mod_lt _ (by decide)), hcount]
  congr 1
  split
  · case isTrue hfour =>
    have hsize : data_size.toNat =
        (data_size &&& ~~~7#64).toNat + (4 + data_size.toNat % 4) := by omega
    rw [hsize, tHashLoop_add, tHashLoop_add, ← hsize]
  · case isFalse hfour =>
    have hsize : data_size.toNat = (data_size &&& ~~~7#64).toNat + data_size.toNat % 4 := by omega
    rw [hsize, tHashLoop_add, ← hsize]

/-- The nine digits of the usual check value. -/
example : hashDataCrc32bWithContext (fun i => BitVec.ofNat 8 (0x31 + i)) 0xffffffff 0 9 =
    0xcbf43926 := by
  decide +kernel

theorem tHashData_append (memory : Nat → BitVec 8) (context : BitVec 32) (data : Nat)
    (a_size b_size : BitVec 64) (hsize : a_size.toNat + b_size.toNat < 2 ^ 64) :
    tHashDataCrc32bWithContext memory context data (a_size + b_size) =
      tHashDataCrc32bWithContext memory
        (~~~tHashDataCrc32bWithContext memory context data a_size) (data + a_size.toNat) b_size := by
  rw [tHashDataCrc32bWithContext, tHashDataCrc32bWithContext, tHashDataCrc32bWithContext,
    BitVec.not_not, BitVec.toNat_add, Nat.mod_eq_of_lt hsize, tHashLoop_add]

/-- The fast path gives the table's value from every context for every buffer, so the hash of a
concatenation goes on from the complement of the first part's. -/
theorem fastPath_eq_table (memory : Nat → BitVec 8) (context : BitVec 32) (data : Nat) :
    (∀ data_size, hashDataCrc32bWithContext memory context data data_size =
      tHashDataCrc32bWithContext memory context data data_size) ∧
    ∀ a_size b_size : BitVec 64, a_size.toNat + b_size.toNat < 2 ^ 64 →
      hashDataCrc32bWithContext memory context data (a_size + b_size) =
        hashDataCrc32bWithContext memory
          (~~~hashDataCrc32bWithContext memory context data a_size) (data + a_size.toNat) b_size := by
  refine ⟨hashData_eq_tHashData memory context data, ?_⟩
  intro a_size b_size hsize
  rw [hashData_eq_tHashData, hashData_eq_tHashData, hashData_eq_tHashData]
  exact tHashData_append memory context data a_size b_size hsize

theorem fastPath_eq_table_sixteen :
    hashDataCrc32bWithContext (BitVec.ofNat 8) 0xffffffff 3 16 =
      hashDataCrc32bWithContext (BitVec.ofNat 8)
        (~~~hashDataCrc32bWithContext (BitVec.ofNat 8) 0xffffffff 3 9) 12 7 :=
  (fastPath_eq_table (BitVec.ofNat 8) 0xffffffff 3).2 9 7 (by decide)

section Burst

theorem shiftOne_ne_zero {w : Nat} {feedback s : BitVec w} (hw : 0 < w)
    (htop : feedback.getLsbD (w - 1) = true) (hs : s ≠ 0) : shiftOne feedback s ≠ 0 := by
  intro h
  cases hbit : s.getLsbD 0 with
  | true =>
    have hlast := congrArg (fun x => x.getLsbD (w - 1)) h
    rw [shiftOne, if_pos hbit, BitVec.getLsbD_xor, BitVec.getLsbD_ushiftRight, htop,
      BitVec.getLsbD_of_ge s _ (by omega)] at hlast
    simp at hlast
  | false =>
    apply hs
    apply BitVec.eq_of_getLsbD_eq
    intro i hi
    cases i with
    | zero => rw [hbit, BitVec.ofNat_eq_ofNat, BitVec.getLsbD_zero]
    | succ i =>
      have hnext := congrArg (fun x => x.getLsbD i) h
      rw [shiftOne, hbit, if_neg Bool.false_ne_true, BitVec.getLsbD_ushiftRight] at hnext
      rw [Nat.add_comm, hnext]
      simp

theorem shiftMany_ne_zero {w : Nat} {feedback s : BitVec w} (n : Nat) (hw : 0 < w)
    (htop : feedback.getLsbD (w - 1) = true) (hs : s ≠ 0) : shiftMany feedback n s ≠ 0 := by
  induction n generalizing s with
  | zero => exact hs
  | succ n ih => exact ih (shiftOne_ne_zero hw htop hs)

theorem seed_ne_zero {s : BitVec 32} (n : Nat) (hs : s ≠ 0) : shiftMany cCrc32bSeed n s ≠ 0 :=
  shiftMany_ne_zero n (by decide) (by decide) hs

variable {memory : Nat → BitVec 8} {data : Nat}

theorem tHashLoop_xor (memory memory' : Nat → BitVec 8) (n : Nat) (seed seed' : BitVec 32)
    (data : Nat) :
    tHashLoop (fun a => memory a ^^^ memory' a) n (seed ^^^ seed') data =
      tHashLoop memory n seed data ^^^ tHashLoop memory' n seed' data := by
  induction n generalizing seed seed' data with
  | zero => rfl
  | succ n ih =>
    have hbyte : hashByte (seed ^^^ seed') (memory data ^^^ memory' data) =
        hashByte seed (memory data) ^^^ hashByte seed' (memory' data) := by
      rw [hashByte_eq, hashByte_eq, hashByte_eq, ← shiftMany_xor, BitVec.setWidth_xor,
        xor_xor_xor_comm]
    rw [tHashLoop, hbyte, ih, tHashLoop, tHashLoop]

theorem tHashLoop_zero {n : Nat} (h : ∀ i < n, memory (data + i) = 0) :
    tHashLoop memory n 0 data = 0 := by
  induction n generalizing data with
  | zero => rfl
  | succ n ih =>
    have hbyte : hashByte 0 0 = 0 := by rw [hashByte_eq]; decide
    rw [tHashLoop, show memory data = 0 from h 0 (Nat.succ_pos n), hbyte]
    apply ih
    intro i hi
    rw [Nat.add_assoc, Nat.add_comm 1]
    exact h (i + 1) (Nat.succ_lt_succ hi)

theorem tHashLoop_ne_zero {n : Nat} {seed : BitVec 32} (h : ∀ i < n, memory (data + i) = 0)
    (hseed : seed ≠ 0) : tHashLoop memory n seed data ≠ 0 := by
  induction n generalizing seed data with
  | zero => exact hseed
  | succ n ih =>
    have hbyte : hashByte seed 0 ≠ 0 := by
      rw [hashByte_eq, show (0 : BitVec 8).setWidth 32 = 0 from rfl, BitVec.ofNat_eq_ofNat,
        BitVec.zero_xor]
      exact seed_ne_zero 8 hseed
    rw [tHashLoop, show memory data = 0 from h 0 (Nat.succ_pos n)]
    apply ih _ hbyte
    intro i hi
    rw [Nat.add_assoc, Nat.add_comm 1]
    exact h (i + 1) (Nat.succ_lt_succ hi)

def bitAt (memory : Nat → BitVec 8) (data i : Nat) : Bool :=
  (memory (data + i / 8)).getLsbD (i % 8)

theorem getLsbD_load {n i : Nat} (hi : i < 8 * n) :
    (load memory data n).getLsbD i = bitAt memory data i := by
  induction n generalizing data i with
  | zero => exact absurd hi (Nat.not_lt_zero i)
  | succ n ih =>
    rw [load, BitVec.getLsbD_append, bitAt]
    by_cases hlow : i < 8
    · rw [if_pos hlow, Nat.div_eq_of_lt hlow, Nat.mod_eq_of_lt hlow, Nat.add_zero]
    · rw [if_neg hlow, ih (by omega), bitAt, show (i - 8) % 8 = i % 8 by omega,
        show data + 1 + (i - 8) / 8 = data + i / 8 by omega]

theorem shiftLeft_window {x : BitVec 64} {k : Nat}
    (h : ∀ i < 64, x.getLsbD i = true → k ≤ i ∧ i < k + 32) :
    ((x >>> k).setWidth 32).setWidth 64 <<< k = x := by
  apply BitVec.eq_of_getLsbD_eq
  intro i hi
  rw [BitVec.getLsbD_shiftLeft, BitVec.getLsbD_setWidth, BitVec.getLsbD_setWidth,
    BitVec.getLsbD_ushiftRight, decide_eq_true hi]
  cases hx : x.getLsbD i with
  | true =>
    obtain ⟨hlow, hhigh⟩ := h i hi hx
    rw [Nat.add_sub_cancel' hlow, hx]
    simp only [Bool.true_and, Bool.and_true, Bool.and_eq_true, Bool.not_eq_true',
      decide_eq_true_eq, decide_eq_false_iff_not]
    omega
  | false =>
    by_cases hlow : i < k
    · simp [hlow]
    · rw [Nat.add_sub_cancel' (Nat.le_of_not_lt hlow), hx]
      simp

theorem tHashLoop_burst {n k i : Nat} (hn : n ≤ 5) (hk : k < 8) (hi : i < 8 * n)
    (hset : bitAt memory data i = true)
    (h : ∀ j < 8 * n, bitAt memory data j = true → k ≤ j ∧ j < k + 32) :
    tHashLoop memory n 0 data ≠ 0 := by
  have hbit (j : Nat) (hj : j < 64) : ((load memory data n).setWidth 64).getLsbD j = true →
      j < 8 * n ∧ bitAt memory data j = true := by
    intro hx
    rw [BitVec.getLsbD_setWidth, decide_eq_true hj, Bool.true_and] at hx
    have hlt := BitVec.lt_of_getLsbD hx
    exact ⟨hlt, getLsbD_load hlt ▸ hx⟩
  have hwindow : ((((load memory data n).setWidth 64 >>> k).setWidth 32).setWidth 64 <<< k) =
      (load memory data n).setWidth 64 :=
    shiftLeft_window fun j hj hx => h j (hbit j hj hx).1 (hbit j hj hx).2
  generalize he : ((load memory data n).setWidth 64 >>> k).setWidth 32 = e at hwindow
  have hne : e ≠ 0 := by
    rintro rfl
    have hzero := congrArg (fun x => x.getLsbD i) hwindow
    rw [BitVec.getLsbD_setWidth 64 (load memory data n), getLsbD_load hi, hset,
      decide_eq_true (show i < 64 by omega)] at hzero
    simp at hzero
  have hload := shiftMany_load memory n (by omega) 0 data
  rw [show (0 : BitVec 32).setWidth 64 = 0 from rfl, BitVec.ofNat_eq_ofNat, BitVec.xor_zero,
    ← hwindow, show 8 * n = k + (8 * n - k) by omega, shiftMany_add,
    shiftMany_shiftLeft e k (by omega), feedback, shiftMany_setWidth (by decide)] at hload
  intro hzero
  rw [hzero] at hload
  apply seed_ne_zero (8 * n - k) hne
  have hback := congrArg (BitVec.setWidth 32) hload
  rw [BitVec.setWidth_setWidth_of_le _ (by decide)] at hback
  exact hback

end Burst

/-- Two buffers of one size that differ in no more than 32 bits that follow each other have
different hashes. -/
theorem hashData_detects_burst (memory memory' : Nat → BitVec 8) (context : BitVec 32)
    (data first : Nat) (data_size : BitVec 64)
    (hdiffer : ∃ i < 8 * data_size.toNat, bitAt memory data i ≠ bitAt memory' data i)
    (hburst : ∀ i < 8 * data_size.toNat, bitAt memory data i ≠ bitAt memory' data i →
      first ≤ i ∧ i < first + 32) :
    hashDataCrc32bWithContext memory context data data_size ≠
      hashDataCrc32bWithContext memory' context data data_size := by
  obtain ⟨i, hi, hne⟩ := hdiffer
  obtain ⟨hlow, hhigh⟩ := hburst i hi hne
  have hbit (p j : Nat) : bitAt (fun a => memory a ^^^ memory' a) (data + p) j = true ↔
      bitAt memory data (8 * p + j) ≠ bitAt memory' data (8 * p + j) := by
    rw [bitAt, bitAt, bitAt, BitVec.getLsbD_xor, bne_iff_ne, Nat.mul_add_div (by decide),
      Nat.mul_add_mod, Nat.add_assoc]
  have hbyte (p : Nat) (hp : p < data_size.toNat) (hout : 8 * p + 8 ≤ first ∨ first + 32 ≤ 8 * p) :
      memory (data + p) ^^^ memory' (data + p) = 0 := by
    apply BitVec.eq_of_getLsbD_eq
    intro j hj
    by_contra hset
    rw [BitVec.ofNat_eq_ofNat, BitVec.getLsbD_zero, Bool.not_eq_false] at hset
    have hset : bitAt (fun a => memory a ^^^ memory' a) (data + p) j = true := by
      rw [bitAt, Nat.div_eq_of_lt hj, Nat.mod_eq_of_lt hj]
      exact hset
    have hin := hburst (8 * p + j) (by omega) ((hbit p j).mp hset)
    omega
  obtain ⟨n, hn⟩ : ∃ n, n = min 5 (data_size.toNat - first / 8) := ⟨_, rfl⟩
  have hmiddle : tHashLoop (fun a => memory a ^^^ memory' a) n 0 (data + first / 8) ≠ 0 := by
    apply tHashLoop_burst (k := first % 8) (i := i - 8 * (first / 8)) (by omega) (by omega)
      (by omega)
    · rw [hbit, Nat.add_sub_cancel' (by omega)]
      exact hne
    · intro j hj hset
      have hin := hburst (8 * (first / 8) + j) (by omega) ((hbit _ j).mp hset)
      omega
  rw [hashData_eq_tHashData, hashData_eq_tHashData, tHashDataCrc32bWithContext,
    tHashDataCrc32bWithContext]
  intro hsame
  have hxor : tHashLoop (fun a => memory a ^^^ memory' a) data_size.toNat 0 data = 0 := by
    have hboth := tHashLoop_xor memory memory' data_size.toNat context context data
    rw [BitVec.not_inj.mp hsame, BitVec.xor_self, BitVec.xor_self] at hboth
    exact hboth
  rw [show data_size.toNat = first / 8 + (n + (data_size.toNat - first / 8 - n)) by omega,
    tHashLoop_add, tHashLoop_add,
    tHashLoop_zero fun p hp => hbyte p (by omega) (by omega)] at hxor
  refine tHashLoop_ne_zero (fun p hp => ?_) hmiddle hxor
  rw [Nat.add_assoc, Nat.add_assoc]
  exact hbyte (first / 8 + (n + p)) (by omega) (by omega)

theorem hashData_detects_burst_six :
    hashDataCrc32bWithContext (fun _ => 0) 0xffffffff 0 6 ≠
      hashDataCrc32bWithContext (fun a => if a = 1 then 0x80 else if a = 5 then 0x40 else 0)
        0xffffffff 0 6 :=
  hashData_detects_burst _ _ 0xffffffff 0 15 6 ⟨15, by decide, by decide⟩ (by decide)

end Awn.Crc32
