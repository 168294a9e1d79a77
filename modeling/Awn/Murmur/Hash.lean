import Awn.Memory.Strlen
import Mathlib.Data.Nat.Notation

/-!
MurmurHash3 for x86 with 32 bits: the bytes in groups of four, each taken for a word. What makes a
word of a group is a parameter.
-/

namespace Awn.Murmur3

def rotl32 (x : BitVec 32) (r : ℕ) : BitVec 32 := x <<< r ||| x >>> (32 - r)

def mix (k : BitVec 32) : BitVec 32 := rotl32 (k * 0xcc9e2d51) 15 * 0x1b873593

def body (h k : BitVec 32) : BitVec 32 := rotl32 (h ^^^ mix k) 13 * 5 + 0xe6546b64

def fmix32 (h : BitVec 32) : BitVec 32 :=
  let h := h ^^^ h >>> 16
  let h := h * 0x85ebca6b
  let h := h ^^^ h >>> 13
  let h := h * 0xc2b2ae35
  h ^^^ h >>> 16

def groups {α : Type*} : List α → List (List α)
  | a :: b :: c :: d :: rest => [a, b, c, d] :: groups rest
  | [] => []
  | tail => [tail]

def word : List (BitVec 8) → BitVec 32
  | [] => 0
  | b :: bs => b.setWidth 32 ||| word bs <<< 8

section Hash

variable (assemble : List (BitVec 8) → BitVec 32)

def step (h : BitVec 32) (group : List (BitVec 8)) : BitVec 32 :=
  if group.length = 4 then body h (assemble group) else h ^^^ mix (assemble group)

def state (bytes : List (BitVec 8)) (seed : BitVec 32) : BitVec 32 :=
  (groups bytes).foldl (step assemble) seed

def hashWith (bytes : List (BitVec 8)) (seed : BitVec 32) : BitVec 32 :=
  fmix32 (BitVec.ofNat 32 bytes.length ^^^ state assemble bytes seed)

end Hash

def hash (bytes : List (BitVec 8)) (seed : BitVec 32) : BitVec 32 := hashWith word bytes seed

/-- The usual check value of `test`. -/
example : hash [0x74, 0x65, 0x73, 0x74] 0 = 0xba6bd213 := by decide

theorem groups_tail {α : Type*} (tail : List α) (hne : tail ≠ []) (hlt : tail.length < 4) :
    groups tail = [tail] := by
  match tail with
  | [_] => rfl
  | [_, _] => rfl
  | [_, _, _] => rfl
  | _ :: _ :: _ :: _ :: _ => simp at hlt; omega

theorem rotl32_injective {r : ℕ} (hr : r < 32) {x y : BitVec 32} (h : rotl32 x r = rotl32 y r) :
    x = y := by
  apply BitVec.eq_of_getLsbD_eq
  intro i hi
  unfold rotl32 at h
  by_cases hlow : i + r < 32
  · have hbit := congrArg (fun z => z.getLsbD (i + r)) h
    have hout : ∀ z : BitVec 32, (z >>> (32 - r)).getLsbD (i + r) = false := by
      intro z
      rw [BitVec.getLsbD_ushiftRight, BitVec.getLsbD_of_ge _ _ (by omega)]
    simp only [BitVec.getLsbD_or, hout, Bool.or_false, BitVec.getLsbD_shiftLeft] at hbit
    have hlt : ¬i + r < r := by omega
    simpa [hlow, hlt] using hbit
  · have hbit := congrArg (fun z => z.getLsbD (i + r - 32)) h
    have hlt : i + r - 32 < r := by omega
    have hsum : 32 - r + (i + r - 32) = i := by omega
    simpa [BitVec.getLsbD_or, hlt, hsum] using hbit

theorem mul_right_injective {c i : BitVec 32} (hc : c * i = 1#32) {x y : BitVec 32}
    (h : x * c = y * c) : x = y := by
  have hmul : x * c * i = y * c * i := congrArg (· * i) h
  rw [BitVec.mul_assoc, BitVec.mul_assoc, hc, BitVec.mul_one, BitVec.mul_one] at hmul
  exact hmul

theorem xorShift_injective {n : ℕ} (hn : 0 < n) {x y : BitVec 32}
    (h : x ^^^ x >>> n = y ^^^ y >>> n) : x = y := by
  -- from the highest bit down, each is determined by the ones above
  have hbits : ∀ k i, 32 ≤ i + k → x.getLsbD i = y.getLsbD i := by
    intro k
    induction k with
    | zero =>
      intro i hi
      rw [BitVec.getLsbD_of_ge x i hi, BitVec.getLsbD_of_ge y i hi]
    | succ k ih =>
      intro i hi
      have hbit := congrArg (fun z => z.getLsbD i) h
      simp only [BitVec.getLsbD_xor, BitVec.getLsbD_ushiftRight] at hbit
      rw [ih (n + i) (by omega)] at hbit
      exact Bool.xor_right_inj.mp (by rwa [Bool.xor_comm, Bool.xor_comm (y.getLsbD i)] at hbit)
  apply BitVec.eq_of_getLsbD_eq
  intro i hi
  exact hbits 32 i (by omega)

theorem xor_right_injective {x y z : BitVec 32} (h : x ^^^ z = y ^^^ z) : x = y := by
  have hxor := congrArg (· ^^^ z) h
  simpa [BitVec.xor_assoc] using hxor

theorem mix_injective {k k' : BitVec 32} (h : mix k = mix k') : k = k' := by
  apply mul_right_injective (c := 0xcc9e2d51) (i := 0xdee13bb1) (by decide)
  apply rotl32_injective (r := 15) (by decide)
  exact mul_right_injective (i := 0x56ed309b) (by decide) h

theorem rotated_injective {x y : BitVec 32}
    (h : rotl32 x 13 * 5 + 0xe6546b64 = rotl32 y 13 * 5 + 0xe6546b64) : x = y := by
  apply rotl32_injective (r := 13) (by decide)
  apply mul_right_injective (c := 5) (i := 0xcccccccd) (by decide)
  exact (BitVec.add_left_inj _).mp h

theorem fmix32_injective {x y : BitVec 32} (h : fmix32 x = fmix32 y) : x = y := by
  unfold fmix32 at h
  apply xorShift_injective (n := 16) (by decide)
  apply mul_right_injective (c := 0x85ebca6b) (i := 0xa5cb9243) (by decide)
  apply xorShift_injective (n := 13) (by decide)
  apply mul_right_injective (c := 0xc2b2ae35) (i := 0x7ed1b41d) (by decide)
  exact xorShift_injective (by decide) h

variable {assemble assemble' : List (BitVec 8) → BitVec 32} {h h' : BitVec 32}
  {group : List (BitVec 8)}

theorem step_injective (heq : step assemble h group = step assemble h' group) : h = h' := by
  unfold step at heq
  split at heq
  · exact xor_right_injective (rotated_injective heq)
  · exact xor_right_injective heq

theorem foldl_step_injective (gs : List (List (BitVec 8)))
    (heq : gs.foldl (step assemble) h = gs.foldl (step assemble) h') : h = h' := by
  induction gs generalizing h h' with
  | nil => exact heq
  | cons g gs ih => exact step_injective (ih heq)

theorem step_ne (hne : assemble group ≠ assemble' group) :
    step assemble h group ≠ step assemble' h group := by
  intro heq
  apply hne
  apply mix_injective
  unfold step at heq
  split at heq
  · have hxor := rotated_injective heq
    rw [BitVec.xor_comm, BitVec.xor_comm h] at hxor
    exact xor_right_injective hxor
  · rw [BitVec.xor_comm, BitVec.xor_comm h] at heq
    exact xor_right_injective heq

theorem foldl_step_congr {gs : List (List (BitVec 8))}
    (hsame : ∀ g ∈ gs, assemble g = assemble' g) :
    gs.foldl (step assemble) h = gs.foldl (step assemble') h := by
  induction gs generalizing h with
  | nil => rw [List.foldl_nil, List.foldl_nil]
  | cons g gs ih =>
    have hfirst : step assemble h g = step assemble' h g := by
      simp only [step, hsame g List.mem_cons_self]
    rw [List.foldl_cons, List.foldl_cons, hfirst]
    exact ih fun g hg => hsame g (List.mem_cons_of_mem _ hg)

theorem hashWith_congr {bytes : List (BitVec 8)} (seed : BitVec 32)
    (hsame : ∀ g ∈ groups bytes, assemble g = assemble' g) :
    hashWith assemble bytes seed = hashWith assemble' bytes seed := by
  rw [hashWith, hashWith, state, state, foldl_step_congr hsame]

theorem hashWith_ne {bytes : List (BitVec 8)} (seed : BitVec 32) {before after : List (List (BitVec 8))}
    (hgroups : groups bytes = before ++ group :: after)
    (hbefore : ∀ g ∈ before, assemble g = assemble' g) (hne : assemble group ≠ assemble' group)
    (hafter : ∀ g ∈ after, assemble g = assemble' g) :
    hashWith assemble bytes seed ≠ hashWith assemble' bytes seed := by
  intro heq
  have hstate := fmix32_injective heq
  rw [BitVec.xor_comm, BitVec.xor_comm (BitVec.ofNat 32 bytes.length)] at hstate
  have hfold := xor_right_injective hstate
  rw [state, state, hgroups, List.foldl_append, List.foldl_append, List.foldl_cons, List.foldl_cons,
    foldl_step_congr hafter, foldl_step_congr hbefore] at hfold
  exact step_ne hne (foldl_step_injective after hfold)

end Awn.Murmur3

/-! `HashMurmur3WithSeed` and `HashMurmur64`, which read a string by characters with a sign. -/

namespace Awn.Murmur

open Memory

def cMurmur64Constant : BitVec 64 := 0xc6a4a7935bd1e995
def cMurmur64Seed : BitVec 64 := 0xa9f63e6017234875

def cMurmur32Constant1 : BitVec 32 := 0xcc9e2d51
def cMurmur32Constant2 : BitVec 32 := 0x1b873593
def cMurmur32PreShift : BitVec 32 := 0x16a88000
def cMurmur32M : BitVec 32 := 0xe6546b64
def cMurmur32Finish1 : BitVec 32 := 0x85ebca6b
def cMurmur32Finish2 : BitVec 32 := 0xc2b2ae35

section Hash

variable (memory : ℕ → BitVec 8) (string : ℕ)

def char32 (iter : BitVec 32) : BitVec 32 := (memory (string + iter.toNat)).signExtend 32

def finishCheck (state seed : BitVec 32) : BitVec 32 :=
  let intermediate := state * cMurmur32Constant1
  let state := state * cMurmur32PreShift
  (state ||| intermediate >>> 17) * cMurmur32Constant2 ^^^ seed

def murmur3Loop : ℕ → BitVec 32 → BitVec 32 → BitVec 32 → Option (BitVec 32 × BitVec 32)
  | 0, _, _, _ => none
  | fuel + 1, state, seed, iter =>
    if state ≠ 0 then
      let iter := iter + 1
      if memory (string + iter.toNat) = 0 then some (finishCheck state seed, iter)
      else
        let iter := iter + 1
        if memory (string + iter.toNat) = 0 then
          let state := state ||| char32 memory string (iter - 1) <<< 8
          some (finishCheck state seed, iter)
        else
          let iter := iter + 1
          if memory (string + iter.toNat) = 0 then
            let state := state ||| char32 memory string (iter - 2) <<< 8 |||
              char32 memory string (iter - 1) <<< 16
            some (finishCheck state seed, iter)
          else
            let iter := iter + 1
            let state := state ||| char32 memory string (iter - 3) <<< 8 |||
              char32 memory string (iter - 2) <<< 16 ||| char32 memory string (iter - 1) <<< 24
            let state := state * cMurmur32PreShift ||| (state * cMurmur32Constant1) >>> 17
            let state := state * cMurmur32Constant2 ^^^ seed
            let state := state >>> 19 ||| state <<< 13
            murmur3Loop fuel (char32 memory string iter) (state * 5 + cMurmur32M) iter
    else some (seed, iter)

def hashMurmur3WithSeed (fuel : ℕ) (seed : BitVec 32) : Option (BitVec 32) :=
  (murmur3Loop memory string fuel (char32 memory string 0) seed 0).map fun (seed, iter) =>
    let state := (iter ^^^ seed) ^^^ (iter ^^^ seed) >>> 16
    let state := state * cMurmur32Finish1
    let state := state ^^^ state >>> 13
    let state := state * cMurmur32Finish2
    state ^^^ state >>> 16

def char64 (iter : ℕ) : BitVec 64 := (memory (string + iter)).signExtend 64

def or8 (byte : ℕ → BitVec 64) : BitVec 64 :=
  byte 0 ||| byte 1 <<< 0x8 ||| byte 2 <<< 0x10 ||| byte 3 <<< 0x18 ||| byte 4 <<< 0x20 |||
    byte 5 <<< 0x28 ||| byte 6 <<< 0x30 ||| byte 7 <<< 0x38

def word64 (is_constant_evaluated : Bool) (string : ℕ) : BitVec 64 :=
  if is_constant_evaluated = false then or8 fun i => (memory (string + i)).setWidth 64
  else or8 fun i => ((memory string).signExtend 32 + BitVec.ofNat 32 i).signExtend 64

def murmur64Loop (is_constant_evaluated : Bool) : ℕ → BitVec 64 → ℕ → BitVec 64
  | 0, state, _ => state
  | words + 1, state, string =>
    let val := word64 memory is_constant_evaluated string
    let state := (((val * cMurmur64Constant) ^^^
      ((val * cMurmur64Constant) >>> 47) * cMurmur64Constant) ^^^ state) * cMurmur64Constant
    murmur64Loop is_constant_evaluated words state (string + 8)

def finish64 (size : ℕ) (state : BitVec 64) (string_leftover : ℕ) : BitVec 64 :=
  let char := char64 memory string_leftover
  let state := if 7 ≤ size % 8 then state ^^^ char 6 <<< 48 else state
  let state := if 6 ≤ size % 8 then state ^^^ char 5 <<< 40 else state
  let state := if 5 ≤ size % 8 then state ^^^ char 4 <<< 32 else state
  let state := if 4 ≤ size % 8 then state ^^^ char 3 <<< 24 else state
  let state := if 3 ≤ size % 8 then state ^^^ char 2 <<< 16 else state
  let state := if 2 ≤ size % 8 then state ^^^ char 1 <<< 8 else state
  let state := if 1 ≤ size % 8 then (state ^^^ char 0) * cMurmur64Constant else state
  (state ^^^ state >>> 47) * cMurmur64Constant

def hashMurmur64 (is_constant_evaluated : Bool) (fuel : ℕ) : Option (BitVec 64) :=
  (strlen memory fuel string).map fun size =>
    let state := (BitVec.ofNat 64 size * cMurmur64Constant) ^^^ cMurmur64Seed
    let aligned_size := 8 * (size / 8)
    let string_leftover := string + aligned_size
    let state := murmur64Loop memory is_constant_evaluated ((string_leftover - string) / 8) state
      string
    let state := finish64 memory size state string_leftover
    state ^^^ state >>> 47

end Hash

def signedWord : List (BitVec 8) → BitVec 32
  | [] => 0
  | b :: bs => b.signExtend 32 ||| signedWord bs <<< 8

def SignLost : ℕ → List (BitVec 8) → Prop
  | n + 1, b :: bs => (b.msb = true → bs.length = n ∧ ∀ c ∈ bs, c = 0xff) ∧ SignLost n bs
  | _, _ => True

open Murmur3 (word groups hash hashWith step state mix body fmix32)

theorem getLsbD_signedWord (b : BitVec 8) (bs : List (BitVec 8)) {i : ℕ} (hi : i < 24) :
    (signedWord (b :: bs)).getLsbD (i + 8) = (b.msb || (signedWord bs).getLsbD i) := by
  have hlt : i + 8 < 32 := by omega
  have hlow : ¬i + 8 < 8 := by omega
  simp only [signedWord, BitVec.getLsbD_or, BitVec.getLsbD_signExtend, BitVec.getLsbD_shiftLeft,
    hlt, hlow, decide_true, decide_false, if_false, Bool.true_and, Bool.not_false,
    Nat.add_sub_cancel]

theorem getLsbD_word (b : BitVec 8) (bs : List (BitVec 8)) {i : ℕ} (hi : i < 24) :
    (word (b :: bs)).getLsbD (i + 8) = (word bs).getLsbD i := by
  have hlt : i + 8 < 32 := by omega
  have hlow : ¬i + 8 < 8 := by omega
  simp only [word, BitVec.getLsbD_or, BitVec.getLsbD_setWidth, BitVec.getLsbD_shiftLeft, hlt, hlow,
    BitVec.getLsbD_of_ge b (i + 8) (by omega), decide_true, decide_false, Bool.true_and,
    Bool.not_false, Bool.false_or, Nat.add_sub_cancel]

theorem getLsbD_signedWord_low (b : BitVec 8) (bs : List (BitVec 8)) {i : ℕ} (hi : i < 8) :
    (signedWord (b :: bs)).getLsbD i = b.getLsbD i := by
  have hlt : i < 32 := by omega
  simp only [signedWord, BitVec.getLsbD_or, BitVec.getLsbD_signExtend, BitVec.getLsbD_shiftLeft,
    hlt, hi, decide_true, if_true, Bool.true_and, Bool.not_true, Bool.false_and, Bool.or_false]

theorem getLsbD_word_low (b : BitVec 8) (bs : List (BitVec 8)) {i : ℕ} (hi : i < 8) :
    (word (b :: bs)).getLsbD i = b.getLsbD i := by
  have hlt : i < 32 := by omega
  simp only [word, BitVec.getLsbD_or, BitVec.getLsbD_setWidth, BitVec.getLsbD_shiftLeft, hlt, hi,
    decide_true, Bool.true_and, Bool.not_true, Bool.false_and, Bool.or_false]

theorem eq_ones_iff (b : BitVec 8) : (∀ i < 8, b.getLsbD i = true) ↔ b = 0xff := by
  constructor
  · intro h
    apply BitVec.eq_of_getLsbD_eq
    intro i hi
    rw [h i hi]
    revert i
    decide
  · rintro rfl
    decide

theorem word_ones_iff {n : ℕ} (hn : n ≤ 4) (bs : List (BitVec 8)) (hlen : bs.length ≤ n) :
    (∀ i < 8 * n, (word bs).getLsbD i = true) ↔ bs.length = n ∧ ∀ c ∈ bs, c = 0xff := by
  induction bs generalizing n with
  | nil =>
    constructor
    · intro h
      refine ⟨?_, fun c hc => absurd hc List.not_mem_nil⟩
      by_contra hne
      have hbit := h 0 (by rw [List.length_nil] at hne; omega)
      rw [word] at hbit
      exact absurd hbit (by decide)
    · rintro ⟨rfl, -⟩ i hi
      exact absurd hi (Nat.not_lt_zero i)
  | cons b bs ih =>
    obtain ⟨n, rfl⟩ := Nat.exists_eq_succ_of_ne_zero (by rw [List.length_cons] at hlen; omega : n ≠ 0)
    rw [List.length_cons] at hlen
    have ih' := ih (n := n) (by omega) (by omega)
    rw [List.forall_mem_cons, ← eq_ones_iff, List.length_cons, Nat.succ_inj, and_left_comm, ← ih']
    constructor
    · intro h
      constructor
      · intro i hi
        rw [← getLsbD_word_low b bs hi]
        exact h i (by omega)
      · intro i hi
        rw [← getLsbD_word b bs (by omega)]
        exact h (i + 8) (by omega)
    · rintro ⟨hlow, hhigh⟩ i hi
      by_cases hbyte : i < 8
      · rw [getLsbD_word_low b bs hbyte]
        exact hlow i hbyte
      · obtain ⟨j, rfl⟩ := Nat.exists_eq_add_of_le' (Nat.le_of_not_lt hbyte)
        rw [getLsbD_word b bs (by omega)]
        exact hhigh j (by omega)

theorem signLost_ones {n : ℕ} {bs : List (BitVec 8)} (hlen : bs.length = n)
    (hones : ∀ c ∈ bs, c = 0xff) : SignLost n bs := by
  induction bs generalizing n with
  | nil => cases n <;> exact trivial
  | cons b bs ih =>
    subst hlen
    rw [List.forall_mem_cons] at hones
    exact ⟨fun _ => ⟨rfl, hones.2⟩, ih rfl hones.2⟩

theorem signedWord_agrees_iff {n : ℕ} (hn : n ≤ 4) (bs : List (BitVec 8)) (hlen : bs.length ≤ n) :
    (∀ i < 8 * n, (signedWord bs).getLsbD i = (word bs).getLsbD i) ↔ SignLost n bs := by
  induction bs generalizing n with
  | nil =>
    constructor
    · intro _
      cases n <;> exact trivial
    · intro _ i _
      rfl
  | cons b bs ih =>
    obtain ⟨n, rfl⟩ := Nat.exists_eq_succ_of_ne_zero (by rw [List.length_cons] at hlen; omega : n ≠ 0)
    rw [List.length_cons] at hlen
    have ih' := ih (n := n) (by omega) (by omega)
    have hones := word_ones_iff (n := n) (by omega) bs (by omega)
    have hsplit : (∀ i < 8 * (n + 1), (signedWord (b :: bs)).getLsbD i = (word (b :: bs)).getLsbD i) ↔
        ∀ i < 8 * n, (b.msb || (signedWord bs).getLsbD i) = (word bs).getLsbD i := by
      constructor
      · intro h i hi
        rw [← getLsbD_signedWord b bs (by omega), ← getLsbD_word b bs (by omega)]
        exact h (i + 8) (by omega)
      · intro h i hi
        by_cases hbyte : i < 8
        · rw [getLsbD_signedWord_low b bs hbyte, getLsbD_word_low b bs hbyte]
        · obtain ⟨j, rfl⟩ := Nat.exists_eq_add_of_le' (Nat.le_of_not_lt hbyte)
          rw [getLsbD_signedWord b bs (by omega), getLsbD_word b bs (by omega)]
          exact h j (by omega)
    rw [hsplit, SignLost]
    cases hmsb : b.msb with
    | false =>
      simp only [Bool.false_or, Bool.false_eq_true, false_imp_iff, true_and]
      exact ih'
    | true =>
      simp only [Bool.true_or, true_imp_iff]
      constructor
      · intro h
        have hall := hones.mp fun i hi => (h i hi).symm
        exact ⟨hall, signLost_ones hall.1 hall.2⟩
      · rintro ⟨hall, -⟩ i hi
        exact (hones.mpr hall i hi).symm

theorem signedWord_eq_iff (group : List (BitVec 8)) (hlen : group.length ≤ 4) :
    signedWord group = word group ↔ SignLost 4 group := by
  rw [← signedWord_agrees_iff (Nat.le_refl 4) group hlen]
  constructor
  · intro h i _
    rw [h]
  · intro h
    apply BitVec.eq_of_getLsbD_eq
    exact h

end Awn.Murmur
