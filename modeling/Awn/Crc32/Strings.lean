import Awn.Crc32.Hash
import Awn.Memory.Strlen

/-! `HashCrc32b` of a string that ends in a NUL. -/

namespace Awn.Crc32

open Awn.Binary
open Awn.Memory (strlen IsString HoldsText strlen_eq)

variable (memory : Nat → BitVec 8)

def tHashStringLoop : Nat → BitVec 32 → Nat → Option (BitVec 32)
  | 0, _, _ => none
  | fuel + 1, seed, string =>
    if memory string ≠ 0 then tHashStringLoop fuel (hashByte seed (memory string)) (string + 1)
    else some seed

def hashStringRest (seed : BitVec 32) (string_leftover : Nat) : BitVec 32 :=
  let seed := if memory string_leftover ≠ 0 then hashByte seed (memory string_leftover) else seed
  let seed :=
    if memory (string_leftover + 1) ≠ 0 then hashByte seed (memory (string_leftover + 1)) else seed
  if memory (string_leftover + 2) ≠ 0 then hashByte seed (memory (string_leftover + 2)) else seed

def hashString (context : BitVec 32) (string : Nat) (size : BitVec 64) : BitVec 32 :=
  let aligned_size := size &&& ~~~7#64
  let string_leftover := string + aligned_size.toNat
  let seed :=
    if aligned_size ≠ 0 then hashWords memory ((string_leftover - string) / 8) context string
    else context
  let seed :=
    if size &&& 4#64 ≠ 0 then
      let val : BitVec 32 := load memory string_leftover 4
      hashStringRest memory (crc32b_32 val seed) (string_leftover + 4)
    else
      hashStringRest memory seed string_leftover
  ~~~seed

def hashCrc32bWithContext (is_constant_evaluated : Bool) (fuel : Nat) (context : BitVec 32)
    (string : Nat) : Option (BitVec 32) :=
  if is_constant_evaluated then (tHashStringLoop memory fuel context string).map (~~~·)
  else (strlen memory fuel string).map fun size =>
    hashString memory context string (BitVec.ofNat 64 size)

def hashCrc32b (is_constant_evaluated : Bool) (fuel string : Nat) : Option (BitVec 32) :=
  hashCrc32bWithContext memory is_constant_evaluated fuel 0xffffffff string

def hashDataCrc32b (data : Nat) (data_size : BitVec 64) : BitVec 32 :=
  hashDataCrc32bWithContext memory 0xffffffff data data_size

variable {memory} {string size fuel : Nat} {seed : BitVec 32}

theorem tHashStringLoop_eq (h : IsString memory string size) (hfuel : size < fuel) :
    tHashStringLoop memory fuel seed string = some (tHashLoop memory size seed string) := by
  induction size generalizing string fuel seed with
  | zero =>
    obtain ⟨fuel, rfl⟩ := Nat.exists_eq_succ_of_ne_zero (Nat.ne_of_gt hfuel)
    rw [tHashStringLoop, if_neg (not_not.mpr h.nul)]
    rfl
  | succ size ih =>
    obtain ⟨fuel, rfl⟩ := Nat.exists_eq_succ_of_ne_zero (Nat.ne_of_gt (Nat.zero_lt_of_lt hfuel))
    rw [tHashStringLoop, if_pos h.first, ih h.tail (by omega), tHashLoop]

theorem hashString_eq (context : BitVec 32) (string : Nat) {size : Nat} (hsize : size < 2 ^ 64) :
    hashString memory context string (BitVec.ofNat 64 size) =
      ~~~hashStringRest memory (tHashLoop memory (4 * (size / 4)) context string)
        (string + 4 * (size / 4)) := by
  have htoNat : (BitVec.ofNat 64 size).toNat = size := by
    rw [BitVec.toNat_ofNat]
    exact Nat.mod_eq_of_lt hsize
  have haligned := and_not_seven (BitVec.ofNat 64 size)
  rw [htoNat] at haligned
  have hwords : (if BitVec.ofNat 64 size &&& ~~~7#64 ≠ 0 then
      hashWords memory ((string + 8 * (size / 8) - string) / 8) context string else context) =
      tHashLoop memory (8 * (size / 8)) context string := by
    split
    · rw [hashWords_eq, Nat.add_sub_cancel_left, Nat.mul_div_cancel_left _ (by decide)]
    · case isFalse hzero =>
      rw [not_not.mp hzero] at haligned
      rw [← haligned]
      rfl
  simp only [hashString, haligned, and_four, htoNat, crc32b_32_load, hwords]
  congr 1
  split
  · case isTrue hfour =>
    have hsplit : 4 * (size / 4) = 8 * (size / 8) + 4 := by omega
    rw [hsplit, tHashLoop_add, Nat.add_assoc]
  · case isFalse hfour =>
    have hsplit : 4 * (size / 4) = 8 * (size / 8) := by omega
    rw [hsplit]

theorem hashStringRest_two (h : IsString memory string 2) :
    hashStringRest memory seed string = tHashLoop memory 2 seed string := by
  rw [hashStringRest, if_pos h.first, if_pos h.tail.first, if_neg (not_not.mpr h.tail.tail.nul)]
  rfl

theorem hashStringRest_three (h : IsString memory string 3) :
    hashStringRest memory seed string = tHashLoop memory 3 seed string := by
  rw [hashStringRest, if_pos h.first, if_pos h.tail.first, if_pos h.tail.tail.first]
  rfl

theorem hashStringRest_one (h : IsString memory string 1) :
    hashStringRest memory seed string =
      if memory (string + 2) ≠ 0 then
        hashByte (tHashLoop memory 1 seed string) (memory (string + 2))
      else tHashLoop memory 1 seed string := by
  rw [hashStringRest, if_pos h.first, if_neg (not_not.mpr h.tail.nul)]
  rfl

theorem hashStringRest_zero (h : IsString memory string 0) (hnext : memory (string + 2) = 0) :
    hashStringRest memory seed string =
      if memory (string + 1) ≠ 0 then hashByte seed (memory (string + 1)) else seed := by
  rw [hashStringRest, if_neg (not_not.mpr h.nul), if_neg (not_not.mpr hnext)]

theorem hashByte_moves (seed : BitVec 32) : hashByte seed 1 ≠ seed ∨ hashByte seed 2 ≠ seed := by
  by_contra h
  rw [not_or, not_not, not_not] at h
  have hsame := h.1.trans h.2.symm
  rw [hashByte_eq, hashByte_eq] at hsame
  have hzero : shiftMany cCrc32bSeed 8 (((1#8).setWidth 32 ^^^ seed) ^^^
      ((2#8).setWidth 32 ^^^ seed)) = 0 := by
    rw [shiftMany_xor]
    exact BitVec.xor_eq_zero_iff.mpr hsame
  have hdrop : ((1#8).setWidth 32 ^^^ seed) ^^^ ((2#8).setWidth 32 ^^^ seed) = 3#32 := by
    rw [BitVec.xor_comm (BitVec.setWidth 32 2#8), BitVec.xor_assoc, ← BitVec.xor_assoc seed,
      BitVec.xor_self, BitVec.zero_xor]
    rfl
  rw [hdrop] at hzero
  revert hzero
  decide

def HashesAgree (memory : Nat → BitVec 8) (string size : Nat) : Prop :=
  ∀ fuel, size < fuel →
    hashCrc32b memory false fuel string = some (hashDataCrc32b memory string (BitVec.ofNat 64 size)) ∧
    hashCrc32b memory true fuel string = some (hashDataCrc32b memory string (BitVec.ofNat 64 size))

def hashText (text : List (BitVec 8)) : BitVec 32 := ~~~text.foldl hashByte 0xffffffff

theorem tHashLoop_eq_foldl {text : List (BitVec 8)} (h : HoldsText memory string text) :
    tHashLoop memory text.length seed string = text.foldl hashByte seed := by
  induction text generalizing string seed with
  | nil => rfl
  | cons c text ih => rw [List.length_cons, tHashLoop, h.head, ih h.tail, List.foldl_cons]

theorem hashData_eq_hashText {text : List (BitVec 8)} (h : HoldsText memory string text)
    (hsize : text.length < 2 ^ 64) :
    hashDataCrc32b memory string (BitVec.ofNat 64 text.length) = hashText text := by
  have htoNat : (BitVec.ofNat 64 text.length).toNat = text.length := by
    rw [BitVec.toNat_ofNat]
    exact Nat.mod_eq_of_lt hsize
  rw [hashDataCrc32b, hashData_eq_tHashData, tHashDataCrc32bWithContext, htoNat,
    tHashLoop_eq_foldl h, hashText]

theorem hashesAgree_iff (h : IsString memory string size) (hsize : size < 2 ^ 64) :
    HashesAgree memory string size ↔
      hashStringRest memory (tHashLoop memory (4 * (size / 4)) 0xffffffff string)
        (string + 4 * (size / 4)) = tHashLoop memory size 0xffffffff string := by
  have htoNat : (BitVec.ofNat 64 size).toNat = size := by
    rw [BitVec.toNat_ofNat]
    exact Nat.mod_eq_of_lt hsize
  have hdata : hashDataCrc32b memory string (BitVec.ofNat 64 size) =
      ~~~tHashLoop memory size 0xffffffff string := by
    rw [hashDataCrc32b, hashData_eq_tHashData, tHashDataCrc32bWithContext, htoNat]
  have hrun : ∀ fuel, size < fuel → hashCrc32b memory false fuel string =
      some (~~~hashStringRest memory (tHashLoop memory (4 * (size / 4)) 0xffffffff string)
        (string + 4 * (size / 4))) := by
    intro fuel hfuel
    rw [hashCrc32b, hashCrc32bWithContext, if_neg Bool.false_ne_true, strlen_eq h hfuel,
      Option.map_some, hashString_eq _ _ hsize]
  constructor
  · intro hagree
    obtain ⟨heq, -⟩ := hagree (size + 1) (Nat.lt_succ_self size)
    rw [hrun _ (Nat.lt_succ_self size), hdata] at heq
    exact BitVec.not_inj.mp (Option.some.inj heq)
  · intro heq fuel hfuel
    constructor
    · rw [hrun fuel hfuel, heq, hdata]
    · rw [hashCrc32b, hashCrc32bWithContext, if_pos rfl, tHashStringLoop_eq h hfuel, hdata]
      rfl

theorem hashesAgree_of_mod (h : IsString memory string size) (hsize : size < 2 ^ 64)
    (hmod : 2 ≤ size % 4) : HashesAgree memory string size := by
  have hrest := h.drop (n := 4 * (size / 4)) (by omega)
  rw [hashesAgree_iff h hsize]
  have hcases : size % 4 = 2 ∨ size % 4 = 3 := by omega
  rcases hcases with htwo | hthree
  · have hleft : size - 4 * (size / 4) = 2 := by omega
    have hsplit : size = 4 * (size / 4) + 2 := by omega
    rw [hleft] at hrest
    rw [hashStringRest_two hrest, ← tHashLoop_add, ← hsplit]
  · have hleft : size - 4 * (size / 4) = 3 := by omega
    have hsplit : size = 4 * (size / 4) + 3 := by omega
    rw [hleft] at hrest
    rw [hashStringRest_three hrest, ← tHashLoop_add, ← hsplit]

def followed (text : List (BitVec 8)) (next : BitVec 8) (i : Nat) : BitVec 8 :=
  if i = text.length + 1 then next else text[i]?.getD 0

theorem followed_load {text : List (BitVec 8)} {i : Nat} (hi : i < text.length) (next : BitVec 8) :
    followed text next i = text[i] := by
  rw [followed, if_neg (by omega), List.getElem?_eq_getElem hi]
  rfl

theorem followed_holds (text : List (BitVec 8)) (next : BitVec 8) :
    HoldsText (followed text next) 0 text where
  get i hi := by
    rw [Nat.zero_add]
    exact followed_load hi next
  nul := by
    rw [Nat.zero_add, followed, if_neg (by omega), List.getElem?_eq_none (Nat.le_refl _)]
    rfl

theorem tHashLoop_congr {memory' : Nat → BitVec 8} {n : Nat}
    (h : ∀ i < n, memory (string + i) = memory' (string + i)) :
    tHashLoop memory n seed string = tHashLoop memory' n seed string := by
  induction n generalizing seed string with
  | zero => rfl
  | succ n ih =>
    have hfirst : memory string = memory' string := h 0 (Nat.succ_pos n)
    rw [tHashLoop, tHashLoop, hfirst]
    apply ih
    intro i hi
    rw [Nat.add_right_comm]
    exact h (i + 1) (by omega)

theorem not_agree_followed {text : List (BitVec 8)} (htext : ∀ c ∈ text, c ≠ 0)
    (hsize : text.length < 2 ^ 64) (hmod : text.length % 4 < 2) :
    ∃ next, ¬HashesAgree (followed text next) 0 text.length := by
  obtain ⟨seed, hseed⟩ : ∃ seed, tHashLoop (followed text 0) text.length 0xffffffff 0 = seed :=
    ⟨_, rfl⟩
  have hsame : ∀ next, tHashLoop (followed text next) text.length 0xffffffff 0 = seed := by
    intro next
    rw [← hseed]
    apply tHashLoop_congr
    intro i hi
    rw [Nat.zero_add, followed_load hi, followed_load hi]
  -- whatever follows is hashed after the string
  have hhashed : ∀ next, next ≠ 0 → hashByte seed next ≠ seed →
      ¬HashesAgree (followed text next) 0 text.length := by
    intro next hne hmoves hagree
    have hstring := (followed_holds text next).isString htext
    have hrest := hstring.drop (n := 4 * (text.length / 4)) (by omega)
    have hnext : followed text next (text.length + 1) = next := if_pos rfl
    rw [hashesAgree_iff hstring hsize, hsame] at hagree
    have hcases : text.length % 4 = 0 ∨ text.length % 4 = 1 := by omega
    rcases hcases with hzero | hone
    · have hleft : text.length - 4 * (text.length / 4) = 0 := by omega
      have hwhole : 4 * (text.length / 4) = text.length := by omega
      have hlast : followed text next (0 + text.length + 2) = 0 := by
        rw [followed, if_neg (by omega), List.getElem?_eq_none (by omega)]
        rfl
      rw [hleft, hwhole] at hrest
      rw [hwhole, hsame, hashStringRest_zero hrest hlast, Nat.zero_add, hnext, if_pos hne] at hagree
      exact hmoves hagree
    · have hleft : text.length - 4 * (text.length / 4) = 1 := by omega
      have hsplit : 4 * (text.length / 4) + 1 = text.length := by omega
      have hbehind : 0 + 4 * (text.length / 4) + 2 = text.length + 1 := by omega
      rw [hleft] at hrest
      rw [hashStringRest_one hrest, ← tHashLoop_add, hsplit, hsame, hbehind, hnext, if_pos hne]
        at hagree
      exact hmoves hagree
  rcases hashByte_moves seed with hone | htwo
  · exact ⟨1, hhashed 1 (by decide) hone⟩
  · exact ⟨2, hhashed 2 (by decide) htwo⟩

/-- Whatever follows a string, its hashes agree exactly when its length leaves two or three bytes
over a multiple of four. -/
theorem hashCrc32b_agrees_iff (text : List (BitVec 8)) (htext : ∀ c ∈ text, c ≠ 0)
    (hsize : text.length < 2 ^ 64) :
    (∀ memory string, HoldsText memory string text → HashesAgree memory string text.length) ↔
      2 ≤ text.length % 4 := by
  constructor
  · intro hagree
    by_contra hmod
    obtain ⟨next, hnot⟩ := not_agree_followed htext hsize (by omega)
    exact hnot (hagree _ 0 (followed_holds text next))
  · intro hmod memory string hholds
    exact hashesAgree_of_mod (hholds.isString htext) hsize hmod

theorem hashCrc32b_agrees_iff_ab :
    (∀ memory string, HoldsText memory string [0x61, 0x62] → HashesAgree memory string 2) ↔
      2 ≤ 2 % 4 :=
  hashCrc32b_agrees_iff [0x61, 0x62] (by decide) (by decide)

theorem emptyString_not_agree : ¬HashesAgree (followed [] 0x61) 0 0 := by
  intro hagree
  obtain ⟨hrun, -⟩ := hagree 1 Nat.one_pos
  revert hrun
  decide +kernel

end Awn.Crc32
