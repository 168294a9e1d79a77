import Awn.Binary.Polynomial

namespace Awn.Crc32

open Awn.Binary

def cCrc32bSeed : BitVec 32 := 0xedb88320

def generateOne (seed : BitVec 32) : BitVec 32 :=
  if seed &&& 1#32 ≠ 0 then (seed >>> 1) ^^^ cCrc32bSeed else seed >>> 1

def generateLoop : Nat → BitVec 32 → BitVec 32
  | 0, seed => seed
  | u + 1, seed => generateLoop u (generateOne seed)

def generateEntry (i : BitVec 32) : BitVec 32 :=
  let seed := (i >>> 1) &&& 0x7fffffff#32
  let seed := if i &&& 1#32 ≠ 0 then seed ^^^ cCrc32bSeed else seed
  generateLoop 7 seed

def generatecCrc32bTable : Vector (BitVec 32) 0x100 :=
  Vector.ofFn fun i => generateEntry (BitVec.ofNat 32 i)

def cCrc32bTable : Vector (BitVec 32) 0x100 := generatecCrc32bTable

theorem and_255_lt (x : BitVec 32) : (x &&& 0xff#32).toNat < 0x100 := by
  rw [BitVec.toNat_and]
  exact Nat.lt_of_le_of_lt Nat.and_le_right (by decide)

def tableAt (index : BitVec 32) : BitVec 32 :=
  have hindex := and_255_lt index
  cCrc32bTable[(index &&& 0xff#32).toNat]

def hashByte (seed : BitVec 32) (value : BitVec 8) : BitVec 32 :=
  tableAt (value.setWidth 32 ^^^ seed) ^^^ (seed >>> 8)

def tHashLoop (memory : Nat → BitVec 8) : Nat → BitVec 32 → Nat → BitVec 32
  | 0, seed, _ => seed
  | data_size + 1, seed, data => tHashLoop memory data_size (hashByte seed (memory data)) (data + 1)

def tHashDataCrc32bWithContext (memory : Nat → BitVec 8) (context : BitVec 32) (data : Nat)
    (data_size : BitVec 64) : BitVec 32 :=
  let seed := tHashLoop memory data_size.toNat context data
  ~~~seed

theorem tHashLoop_add (memory : Nat → BitVec 8) (m n : Nat) (seed : BitVec 32) (data : Nat) :
    tHashLoop memory (m + n) seed data = tHashLoop memory n (tHashLoop memory m seed data) (data + m) := by
  induction m generalizing seed data with
  | zero => rw [Nat.zero_add, tHashLoop, Nat.add_zero]
  | succ m ih => rw [Nat.succ_add, tHashLoop, ih, tHashLoop, Nat.add_assoc, Nat.add_comm 1]

theorem and_one_ne_zero (x : BitVec 32) : x &&& 1#32 ≠ 0 ↔ x.getLsbD 0 = true := by
  have hone : x &&& 1#32 = BitVec.setWidth 32 (BitVec.ofBool (x.getLsbD 0)) :=
    BitVec.and_one_eq_setWidth_ofBool_getLsbD
  rw [hone]
  cases x.getLsbD 0 <;> decide

theorem generateOne_eq (seed : BitVec 32) : generateOne seed = shiftOne cCrc32bSeed seed := by
  rw [generateOne, shiftOne]
  simp only [and_one_ne_zero]

theorem generateLoop_eq (u : Nat) (seed : BitVec 32) :
    generateLoop u seed = shiftMany cCrc32bSeed u seed := by
  induction u generalizing seed with
  | zero => rfl
  | succ u ih => rw [generateLoop, ih, generateOne_eq, shiftMany]

theorem getLsbD_255 (i : Nat) : (0xff#32).getLsbD i = decide (i < 8) := by
  rw [BitVec.getLsbD_ofNat, show (0xff : Nat) = 2 ^ 8 - 1 from rfl, Nat.testBit_two_pow_sub_one]
  by_cases hi : i < 8
  · simp [hi, show i < 32 by omega]
  · simp [hi]

theorem generateEntry_eq (i : BitVec 32) : generateEntry i = shiftMany cCrc32bSeed 8 i := by
  have hmask : (i >>> 1) &&& 0x7fffffff#32 = i >>> 1 := by
    apply BitVec.eq_of_getLsbD_eq
    intro j hj
    rw [BitVec.getLsbD_and, BitVec.getLsbD_ofNat, show (0x7fffffff : Nat) = 2 ^ 31 - 1 from rfl,
      Nat.testBit_two_pow_sub_one, BitVec.getLsbD_ushiftRight]
    by_cases hlast : j < 31
    · simp [hj, hlast]
    · simp [BitVec.getLsbD_of_ge i (1 + j) (by omega)]
  simp only [generateEntry, hmask, generateLoop_eq, and_one_ne_zero]
  rfl

theorem tableAt_eq (index : BitVec 32) :
    tableAt index = shiftMany cCrc32bSeed 8 (index &&& 0xff#32) := by
  simp only [tableAt, cCrc32bTable, generatecCrc32bTable, Vector.getElem_ofFn]
  rw [BitVec.ofNat_toNat, BitVec.setWidth_eq, generateEntry_eq]

theorem and_255_xor_and_not (x : BitVec 32) : (x &&& 0xff#32) ^^^ (x &&& ~~~0xff#32) = x := by
  apply BitVec.eq_of_getLsbD_eq
  intro i hi
  simp only [BitVec.getLsbD_xor, BitVec.getLsbD_and, BitVec.getLsbD_not, hi, decide_true,
    Bool.true_and]
  cases x.getLsbD i <;> cases (0xff#32).getLsbD i <;> rfl

theorem shiftMany_eight (x : BitVec 32) :
    shiftMany cCrc32bSeed 8 x = tableAt x ^^^ (x >>> 8) := by
  have hclear (i : Nat) (hi : i < 8) : (x &&& ~~~0xff#32).getLsbD i = false := by
    rw [BitVec.getLsbD_and, BitVec.getLsbD_not, getLsbD_255, decide_eq_true hi]
    simp
  have hmoved : (x &&& ~~~0xff#32) >>> 8 = x >>> 8 := by
    apply BitVec.eq_of_getLsbD_eq
    intro i _
    rw [BitVec.getLsbD_ushiftRight, BitVec.getLsbD_ushiftRight, BitVec.getLsbD_and,
      BitVec.getLsbD_not, getLsbD_255]
    by_cases hi : 8 + i < 32
    · simp [hi]
    · simp [BitVec.getLsbD_of_ge x (8 + i) (by omega)]
  calc shiftMany cCrc32bSeed 8 x
      = shiftMany cCrc32bSeed 8 ((x &&& 0xff#32) ^^^ (x &&& ~~~0xff#32)) := by
        rw [and_255_xor_and_not]
    _ = shiftMany cCrc32bSeed 8 (x &&& 0xff#32) ^^^ (x >>> 8) := by
        rw [shiftMany_xor, shiftMany_eq_ushiftRight _ _ _ hclear, hmoved]
    _ = tableAt x ^^^ (x >>> 8) := by rw [tableAt_eq]

theorem hashByte_eq (seed : BitVec 32) (value : BitVec 8) :
    hashByte seed value = shiftMany cCrc32bSeed 8 (value.setWidth 32 ^^^ seed) := by
  have hvalue : value.setWidth 32 >>> 8 = 0#32 := by
    apply BitVec.eq_of_getLsbD_eq
    intro i _
    rw [BitVec.getLsbD_ushiftRight, BitVec.getLsbD_setWidth,
      BitVec.getLsbD_of_ge value (8 + i) (Nat.le_add_right 8 i), Bool.and_false]
    exact BitVec.getLsbD_zero.symm
  rw [shiftMany_eight, hashByte, BitVec.ushiftRight_xor_distrib, hvalue, BitVec.zero_xor]

structure V2ull where
  e0 : BitVec 64
  e1 : BitVec 64
deriving DecidableEq, Repr

def pclmulSelectionMask (a b : Bool) : Nat :=
  (b.toNat <<< 4) ||| a.toNat

def select1 (a : V2ull) (selection_mask : Nat) : BitVec 64 :=
  if selection_mask &&& 1 = 0 then a.e0 else a.e1

def select2 (b : V2ull) (selection_mask : Nat) : BitVec 64 :=
  if (selection_mask >>> 4) &&& 1 = 0 then b.e0 else b.e1

def pclmulqdq (a b : V2ull) (selection_mask : Nat) : V2ull :=
  let product := clmul (select1 a selection_mask) (select2 b selection_mask)
  ⟨low product, high product⟩

def addBit (t1 t2 : BitVec 64) (i : Nat) (temp : Bool) (j : Nat) : Bool :=
  temp ^^ (t1.getLsbD j && t2.getLsbD (i - j))

def tempLow (t1 t2 : BitVec 64) (i : Nat) : Bool :=
  (List.range' 1 i).foldl (addBit t1 t2 i) (t1.getLsbD 0 && t2.getLsbD i)

def tempHigh (t1 t2 : BitVec 64) (i : Nat) : Bool :=
  (List.range' (i - 63) (64 - (i - 63))).foldl (addBit t1 t2 i) false

def gather (temp : Nat → Bool) (start count : Nat) : BitVec 64 :=
  (List.range count).foldl
    (fun out i => out ||| ((BitVec.ofBool (temp (start + i))).setWidth 64 <<< i)) 0#64

def pclmulqdqConstantEvaluated (a b : V2ull) (selection_mask : Nat) : V2ull :=
  let sel1 := select1 a selection_mask
  let sel2 := select2 b selection_mask
  let out1 := gather (tempLow sel1 sel2) 0 64
  let out2 := gather (tempHigh sel1 sel2) 64 64
  ⟨out1, out2 &&& ~~~(1#64 <<< 63)⟩

theorem getLsbD_gather (temp : Nat → Bool) (start count i : Nat) (hcount : count ≤ 64) :
    (gather temp start count).getLsbD i = (decide (i < count) && temp (start + i)) := by
  induction count with
  | zero => simp [gather]
  | succ count ih =>
    have hstep : gather temp start (count + 1) =
        gather temp start count |||
          ((BitVec.ofBool (temp (start + count))).setWidth 64 <<< count) := by
      rw [gather, List.range_succ, List.foldl_append]
      rfl
    rw [hstep, BitVec.getLsbD_or, ih (Nat.le_of_succ_le hcount), BitVec.getLsbD_shiftLeft,
      BitVec.getLsbD_setWidth, BitVec.getLsbD_ofBool]
    rcases Nat.lt_trichotomy i count with hi | rfl | hi
    · simp [hi, Nat.lt_succ_of_lt hi]
    · simp [show i < 64 by omega]
    · simp [show ¬ i < count by omega, show ¬ i < count + 1 by omega, show i - count ≠ 0 by omega]

theorem getLsbD_clmulBits (a b : BitVec 64) (n i : Nat) (hi : i < 128) :
    (clmulBits a b n).getLsbD i =
      (List.range n).foldl
        (fun temp j => temp ^^ (a.getLsbD j && (decide (j ≤ i) && b.getLsbD (i - j)))) false := by
  induction n with
  | zero => simp [clmulBits]
  | succ n ih =>
    rw [clmulBits, BitVec.getLsbD_xor, ih, List.range_succ, List.foldl_append, List.foldl_cons,
      List.foldl_nil]
    congr 1
    cases ha : a.getLsbD n with
    | false => simp
    | true =>
      simp only [if_true, BitVec.getLsbD_shiftLeft, BitVec.getLsbD_setWidth, Bool.true_and]
      by_cases hn : n ≤ i
      · simp [hn, Nat.not_lt_of_le hn, show i < 64 + 64 from hi, show i - n < 64 + 64 by omega]
      · simp [hn, Nat.lt_of_not_le hn]

theorem foldl_unchanged {β : Type} (f : Bool → β → Bool) (l : List β) (init : Bool)
    (hf : ∀ temp j, j ∈ l → f temp j = temp) : l.foldl f init = init := by
  induction l with
  | nil => rfl
  | cons j l ih =>
    rw [List.foldl_cons, hf init j List.mem_cons_self]
    exact ih fun temp k hk => hf temp k (List.mem_cons_of_mem j hk)

theorem foldl_agree {β : Type} (f g : Bool → β → Bool) (l : List β) (init : Bool)
    (hfg : ∀ temp j, j ∈ l → f temp j = g temp j) : l.foldl f init = l.foldl g init := by
  induction l generalizing init with
  | nil => rfl
  | cons j l ih =>
    rw [List.foldl_cons, List.foldl_cons, hfg init j List.mem_cons_self]
    exact ih (g init j) fun temp k hk => hfg temp k (List.mem_cons_of_mem j hk)

theorem range_split (m n : Nat) (hmn : m ≤ n) :
    List.range n = List.range m ++ List.range' m (n - m) := by
  have happend := @List.range'_append_1 0 m (n - m)
  rw [Nat.zero_add, Nat.add_sub_cancel' hmn] at happend
  rw [List.range_eq_range', List.range_eq_range', happend]

theorem getLsbD_clmul_low (a b : BitVec 64) (i : Nat) (hi : i < 64) :
    (clmul a b).getLsbD i = tempLow a b i := by
  rw [clmul, getLsbD_clmulBits a b 64 i (by omega), range_split (i + 1) 64 (by omega),
    List.foldl_append, foldl_unchanged _ (List.range' (i + 1) _)]
  · rw [List.range_eq_range', List.range'_succ, List.foldl_cons, tempLow]
    simp only [Nat.zero_le, decide_true, Bool.true_and, Nat.sub_zero, Bool.false_xor, Nat.zero_add]
    apply foldl_agree
    intro temp j hj
    rw [List.mem_range'_1] at hj
    rw [addBit, decide_eq_true (show j ≤ i by omega), Bool.true_and]
  · intro temp j hj
    rw [List.mem_range'_1] at hj
    rw [decide_eq_false (show ¬ j ≤ i by omega), Bool.false_and, Bool.and_false, Bool.xor_false]

theorem getLsbD_clmul_high (a b : BitVec 64) (i : Nat) (hlow : 64 ≤ i) (hi : i < 128) :
    (clmul a b).getLsbD i = tempHigh a b i := by
  rw [clmul, getLsbD_clmulBits a b 64 i hi, range_split (i - 63) 64 (by omega),
    List.foldl_append, foldl_unchanged _ (List.range (i - 63)), tempHigh]
  · apply foldl_agree
    intro temp j hj
    rw [List.mem_range'_1] at hj
    rw [addBit, decide_eq_true (show j ≤ i by omega), Bool.true_and]
  · intro temp j hj
    rw [List.mem_range] at hj
    rw [BitVec.getLsbD_of_ge b (i - j) (by omega), Bool.and_false, Bool.and_false, Bool.xor_false]

theorem pclmulqdqConstantEvaluated_eq (a b : V2ull) (selection_mask : Nat) :
    pclmulqdqConstantEvaluated a b selection_mask = pclmulqdq a b selection_mask := by
  rw [pclmulqdqConstantEvaluated, pclmulqdq]
  congr 1
  · apply BitVec.eq_of_getLsbD_eq
    intro i hi
    rw [getLsbD_gather _ _ _ _ (Nat.le_refl 64), decide_eq_true hi, low,
      BitVec.getLsbD_extractLsb', decide_eq_true hi, Nat.zero_add, getLsbD_clmul_low _ _ i hi]
  · apply BitVec.eq_of_getLsbD_eq
    intro i hi
    rw [BitVec.getLsbD_and, getLsbD_gather _ _ _ _ (Nat.le_refl 64), decide_eq_true hi, high,
      BitVec.getLsbD_extractLsb', decide_eq_true hi,
      getLsbD_clmul_high _ _ (64 + i) (Nat.le_add_right 64 i) (by omega)]
    by_cases htop : i = 63
    · subst htop
      simp [tempHigh]
    · rw [BitVec.getLsbD_not, BitVec.getLsbD_shiftLeft, decide_eq_true (show i < 63 by omega)]
      simp [hi]

end Awn.Crc32
