import Mathlib.Data.Option.Basic
import Awn.Cipher.Aes

namespace Awn.Aes128Cbc

open Awn.Cipher

def aesimc (round_key : Block) : Block := invMixColumns round_key

def aesdec (a round_key : Block) : Block :=
  invMixColumns (invShiftRows (invSubBytes a)) ^^^ round_key

def aesdeclast (a round_key : Block) : Block := invShiftRows (invSubBytes a) ^^^ round_key

def aesenc (a round_key : Block) : Block := mixColumns (shiftRows (subBytes a)) ^^^ round_key

def aesenclast (a round_key : Block) : Block := shiftRows (subBytes a) ^^^ round_key

structure Aes128Context where
  words : Vector Word 44
deriving DecidableEq

namespace Aes128Context

def word (context : Aes128Context) (i : Nat) : Word := context.words[i]?.getD 0

def setWord (context : Aes128Context) (i : Nat) (w : Word) : Aes128Context :=
  ⟨context.words.setIfInBounds i w⟩

def block (context : Aes128Context) (i : Nat) : Block :=
  ⟨context.word (4 * i), context.word (4 * i + 1), context.word (4 * i + 2),
    context.word (4 * i + 3)⟩

def setBlock (context : Aes128Context) (i : Nat) (b : Block) : Aes128Context :=
  (((context.setWord (4 * i) b.w0).setWord (4 * i + 1) b.w1).setWord (4 * i + 2) b.w2).setWord
    (4 * i + 3) b.w3

def key (context : Aes128Context) : Block := context.block 0

def round_key (context : Aes128Context) (i : Nat) : Block := context.block (i + 1)

def zero : Aes128Context := ⟨Vector.replicate 44 0⟩

end Aes128Context

set_option maxRecDepth 4000 in
def cKeyGenArray : List Byte := [
  0x63, 0x7c, 0x77, 0x7b, 0xf2, 0x6b, 0x6f, 0xc5, 0x30, 0x01, 0x67, 0x2b, 0xfe, 0xd7, 0xab, 0x76,
  0xca, 0x82, 0xc9, 0x7d, 0xfa, 0x59, 0x47, 0xf0, 0xad, 0xd4, 0xa2, 0xaf, 0x9c, 0xa4, 0x72, 0xc0,
  0xb7, 0xfd, 0x93, 0x26, 0x36, 0x3f, 0xf7, 0xcc, 0x34, 0xa5, 0xe5, 0xf1, 0x71, 0xd8, 0x31, 0x15,
  0x04, 0xc7, 0x23, 0xc3, 0x18, 0x96, 0x05, 0x9a, 0x07, 0x12, 0x80, 0xe2, 0xeb, 0x27, 0xb2, 0x75,
  0x09, 0x83, 0x2c, 0x1a, 0x1b, 0x6e, 0x5a, 0xa0, 0x52, 0x3b, 0xd6, 0xb3, 0x29, 0xe3, 0x2f, 0x84,
  0x53, 0xd1, 0x00, 0xed, 0x20, 0xfc, 0xb1, 0x5b, 0x6a, 0xcb, 0xbe, 0x39, 0x4a, 0x4c, 0x58, 0xcf,
  0xd0, 0xef, 0xaa, 0xfb, 0x43, 0x4d, 0x33, 0x85, 0x45, 0xf9, 0x02, 0x7f, 0x50, 0x3c, 0x9f, 0xa8,
  0x51, 0xa3, 0x40, 0x8f, 0x92, 0x9d, 0x38, 0xf5, 0xbc, 0xb6, 0xda, 0x21, 0x10, 0xff, 0xf3, 0xd2,
  0xcd, 0x0c, 0x13, 0xec, 0x5f, 0x97, 0x44, 0x17, 0xc4, 0xa7, 0x7e, 0x3d, 0x64, 0x5d, 0x19, 0x73,
  0x60, 0x81, 0x4f, 0xdc, 0x22, 0x2a, 0x90, 0x88, 0x46, 0xee, 0xb8, 0x14, 0xde, 0x5e, 0x0b, 0xdb,
  0xe0, 0x32, 0x3a, 0x0a, 0x49, 0x06, 0x24, 0x5c, 0xc2, 0xd3, 0xac, 0x62, 0x91, 0x95, 0xe4, 0x79,
  0xe7, 0xc8, 0x37, 0x6d, 0x8d, 0xd5, 0x4e, 0xa9, 0x6c, 0x56, 0xf4, 0xea, 0x65, 0x7a, 0xae, 0x08,
  0xba, 0x78, 0x25, 0x2e, 0x1c, 0xa6, 0xb4, 0xc6, 0xe8, 0xdd, 0x74, 0x1f, 0x4b, 0xbd, 0x8b, 0x8a,
  0x70, 0x3e, 0xb5, 0x66, 0x48, 0x03, 0xf6, 0x0e, 0x61, 0x35, 0x57, 0xb9, 0x86, 0xc1, 0x1d, 0x9e,
  0xe1, 0xf8, 0x98, 0x11, 0x69, 0xd9, 0x8e, 0x94, 0x9b, 0x1e, 0x87, 0xe9, 0xce, 0x55, 0x28, 0xdf,
  0x8c, 0xa1, 0x89, 0x0d, 0xbf, 0xe6, 0x42, 0x68, 0x41, 0x99, 0x2d, 0x0f, 0xb0, 0x54, 0xbb, 0x16]

def cRoundConstantArray : List Byte := [
  0x6c, 0x01, 0x02, 0x04, 0x08, 0x10, 0x20, 0x40, 0x80, 0x1b, 0x36, 0x6c, 0xd8, 0xab, 0x4d, 0x9a,
  0x2f, 0x5e, 0xbc, 0x63, 0xc6, 0x97, 0x35, 0x6a, 0xd4, 0xb3, 0x7d, 0xfa, 0xef, 0xc5, 0x91]

def copyKey (context : Aes128Context) (key : List Byte) : Aes128Context :=
  ⟨Vector.ofFn fun i : Fin 44 =>
    ofBytes (key.getD (4 * i) (byte (context.word i) 0))
      (key.getD (4 * i + 1) (byte (context.word i) 1))
      (key.getD (4 * i + 2) (byte (context.word i) 2))
      (key.getD (4 * i + 3) (byte (context.word i) 3))⟩

def keyGen (key_gen_iter : Word) (shift : Nat) : Word :=
  (cKeyGenArray.getD ((key_gen_iter >>> shift) &&& 0xff#32).toNat 0).setWidth 32

def keyGenAdjust (round_key_count key_index : Nat) (key_gen_iter : Word) : Word :=
  let base_index := round_key_count + key_index
  let round_constant_i := if round_key_count ≠ 0 then base_index / round_key_count else 0
  if base_index = round_constant_i * round_key_count then
    let gen0 := keyGen key_gen_iter 0x8
    let gen1 := keyGen key_gen_iter 0x10
    let gen2 := keyGen key_gen_iter 0x18
    let gen3 := keyGen key_gen_iter 0x0
    let round_constant : Word := (cRoundConstantArray.getD round_constant_i 0).setWidth 32
    (gen0 ||| (gen1 <<< 0x8) ||| (gen2 <<< 0x10) ||| (gen3 <<< 0x18)) ^^^ round_constant
  else key_gen_iter

def keyGenLoop (round_key_count : Nat) : Nat → Nat → Nat → Word → Aes128Context → Aes128Context
  | 0, _, _, _, context => context
  | count + 1, i, key_index, key_gen_iter, context =>
    let key_gen_iter := keyGenAdjust round_key_count key_index key_gen_iter
    let next_key_gen := context.word key_index ^^^ key_gen_iter
    keyGenLoop round_key_count count (i + 1) (key_index + 1) next_key_gen
      (context.setWord i next_key_gen)

def inverseMix : Nat → Aes128Context → Aes128Context
  | 0, context => context
  | count + 1, context =>
    let context := inverseMix count context
    context.setBlock (count + 1) (aesimc (context.round_key count))

/-- `Initialize`, which stops the program where an assertion fails. -/
def initializeContext (context : Aes128Context) (key : List Byte) (is_inverse_mix : Bool) :
    Option Aes128Context := do
  let key_size := key.length
  guard (key_size ≤ 176 ∧ 16 ≤ key_size)
  let context := copyKey context key
  let round_key_count := key_size >>> 2
  let context ←
    if key_size < 176 then do
      guard (round_key_count < 7)
      let key_gen_iter := context.word (round_key_count - 1)
      pure (keyGenLoop round_key_count (0x2c - round_key_count) round_key_count 0 key_gen_iter
        context)
    else pure context
  pure (if is_inverse_mix then inverseMix 9 context else context)

namespace Aes128Context

theorem word_setWord (context : Aes128Context) (i j : Nat) (w : Word) (hi : i < 44) :
    (context.setWord i w).word j = if i = j then w else context.word j := by
  rw [word, setWord, word, Vector.getElem?_setIfInBounds]
  split
  · rfl
  · rfl

theorem block_setBlock (context : Aes128Context) (i j : Nat) (b : Block) (hi : i < 11) :
    (context.setBlock i b).block j = if i = j then b else context.block j := by
  have hword (k : Nat) : (context.setBlock i b).word k =
      if 4 * i + 3 = k then b.w3 else if 4 * i + 2 = k then b.w2
      else if 4 * i + 1 = k then b.w1 else if 4 * i = k then b.w0 else context.word k := by
    rw [setBlock, word_setWord _ _ _ _ (by omega), word_setWord _ _ _ _ (by omega),
      word_setWord _ _ _ _ (by omega), word_setWord _ _ _ _ (by omega)]
  by_cases hij : i = j
  · subst hij
    simp [block, hword]
  · have hother (k : Nat) (hk : k < 4 * i ∨ 4 * i + 3 < k) :
        (context.setBlock i b).word k = context.word k := by
      rw [hword, if_neg (by omega), if_neg (by omega), if_neg (by omega), if_neg (by omega)]
    rw [if_neg hij, block, hother _ (by omega), hother _ (by omega), hother _ (by omega),
      hother _ (by omega), block]

end Aes128Context

theorem cKeyGenArray_eq :
    cKeyGenArray = (List.range 256).map fun i => sbox (BitVec.ofNat 8 i) := by
  decide +kernel

theorem cRoundConstantArray_getD (i : Nat) (hone : 1 ≤ i) (hi : i < 31) :
    cRoundConstantArray.getD i 0 = rcon i := by
  have hall : ∀ j : Fin 31, 1 ≤ j.val → cRoundConstantArray.getD j 0 = rcon j := by decide +kernel
  exact hall ⟨i, hi⟩ hone

theorem shift_and_255 (w : Word) (i : Nat) :
    (w >>> (8 * i)) &&& 0xff#32 = (byte w i).setWidth 32 := by
  apply BitVec.eq_of_getLsbD_eq
  intro j hj
  have hmask : (0xff#32).getLsbD j = decide (j < 8) := by
    rw [BitVec.getLsbD_ofNat, show (0xff : Nat) = 2 ^ 8 - 1 from rfl, Nat.testBit_two_pow_sub_one,
      decide_eq_true hj, Bool.true_and]
  rw [BitVec.getLsbD_and, BitVec.getLsbD_ushiftRight, hmask, BitVec.getLsbD_setWidth,
    decide_eq_true hj, Bool.true_and]
  by_cases hlow : j < 8
  · rw [getLsbD_byte w i j hlow, decide_eq_true hlow, Bool.and_true]
  · rw [decide_eq_false hlow, Bool.and_false, BitVec.getLsbD_of_ge _ j (Nat.le_of_not_lt hlow)]

theorem keyGen_eq (w : Word) (i : Nat) : keyGen w (8 * i) = (sbox (byte w i)).setWidth 32 := by
  have hlt : (byte w i).toNat < 256 := (byte w i).isLt
  rw [keyGen, shift_and_255, BitVec.toNat_setWidth, Nat.mod_eq_of_lt (by omega), cKeyGenArray_eq,
    List.getD_eq_getElem?_getD, List.getElem?_map, List.getElem?_range hlt, Option.map_some,
    Option.getD_some, BitVec.ofNat_toNat, BitVec.setWidth_eq]

theorem gather_eq (b0 b1 b2 b3 : Byte) :
    b0.setWidth 32 ||| (b1.setWidth 32 <<< 0x8) ||| (b2.setWidth 32 <<< 0x10) |||
      (b3.setWidth 32 <<< 0x18) = ofBytes b0 b1 b2 b3 := by
  apply BitVec.eq_of_getLsbD_eq
  intro i hi
  rw [getLsbD_ofBytes _ _ _ _ _ hi]
  simp only [BitVec.getLsbD_or, BitVec.getLsbD_shiftLeft, BitVec.getLsbD_setWidth, hi,
    decide_true, Bool.true_and]
  have hshort (b : Byte) (k : Nat) (hk : 8 ≤ k) : b.getLsbD k = false := BitVec.getLsbD_of_ge b k hk
  split
  · simp [show i < 16 by omega, show i < 24 by omega, *]
  · split
    · simp [show i < 24 by omega, show i - 8 < 32 by omega, hshort b0 i (by omega), *]
    · split
      · simp [show i - 8 < 32 by omega, show i - 16 < 32 by omega, hshort b0 i (by omega),
          hshort b1 (i - 8) (by omega), *]
      · simp [show i - 8 < 32 by omega, show i - 16 < 32 by omega, show i - 24 < 32 by omega,
          hshort b0 i (by omega), hshort b1 (i - 8) (by omega), hshort b2 (i - 16) (by omega), *]

theorem keyGenAdjust_eq (nk key_index : Nat) (w : Word) (hnk : 0 < nk)
    (hbound : (nk + key_index) / nk < 31) :
    keyGenAdjust nk key_index w =
      if (nk + key_index) % nk = 0 then
        subWord (rotWord w) ^^^ ofBytes (rcon ((nk + key_index) / nk)) 0 0 0
      else w := by
  have hone : 1 ≤ (nk + key_index) / nk := by
    rw [Nat.add_div_left key_index hnk]
    exact Nat.le_add_left 1 _
  have hmultiple : nk + key_index = (nk + key_index) / nk * nk ↔ (nk + key_index) % nk = 0 := by
    rw [Nat.mul_comm]
    have hdiv := Nat.div_add_mod (nk + key_index) nk
    omega
  have hbyte : ofBytes (rcon ((nk + key_index) / nk)) 0 0 0 =
      (rcon ((nk + key_index) / nk)).setWidth 32 := by
    rw [← gather_eq]
    simp
  have hsub : keyGen w 0x8 ||| (keyGen w 0x10 <<< 0x8) ||| (keyGen w 0x18 <<< 0x10) |||
      (keyGen w 0x0 <<< 0x18) = subWord (rotWord w) := by
    show keyGen w (8 * 1) ||| (keyGen w (8 * 2) <<< 0x8) ||| (keyGen w (8 * 3) <<< 0x10) |||
      (keyGen w (8 * 0) <<< 0x18) = subWord (rotWord w)
    simp only [keyGen_eq, gather_eq, subWord, rotWord, mapBytes, byte_ofBytes_zero,
      byte_ofBytes_one, byte_ofBytes_two, byte_ofBytes_three]
  simp only [keyGenAdjust, if_pos (Nat.pos_iff_ne_zero.mp hnk), hmultiple, hsub, hbyte,
    cRoundConstantArray_getD _ hone hbound]

def keyWords (key : List Byte) (i : Nat) : Word :=
  ofBytes (key.getD (4 * i) 0) (key.getD (4 * i + 1) 0) (key.getD (4 * i + 2) 0)
    (key.getD (4 * i + 3) 0)

theorem word_copyKey (context : Aes128Context) (key : List Byte) (i : Nat)
    (hi : 4 * i + 3 < key.length) (hbound : i < 44) :
    (copyKey context key).word i = keyWords key i := by
  have hgetD (k : Nat) (hk : k < key.length) (d d' : Byte) : key.getD k d = key.getD k d' := by
    rw [List.getD_eq_getElem?_getD, List.getD_eq_getElem?_getD, List.getElem?_eq_getElem hk,
      Option.getD_some, Option.getD_some]
  rw [Aes128Context.word, copyKey, Vector.getElem?_eq_getElem hbound, Vector.getElem_ofFn,
    Option.getD_some, keyWords, hgetD (4 * i) (by omega) _ 0, hgetD (4 * i + 1) (by omega) _ 0,
    hgetD (4 * i + 2) (by omega) _ 0, hgetD (4 * i + 3) (by omega) _ 0]

def Scheduled (key : Nat → Word) (nk i : Nat) (context : Aes128Context) : Prop :=
  ∀ j, j < i → context.word j = keyWord key nk j

theorem keyGenLoop_scheduled (key : Nat → Word) (nk count i key_index : Nat) (key_gen_iter : Word)
    (context : Aes128Context) (hnk : 2 ≤ nk) (hi : i = nk + key_index) (hcount : i + count = 44)
    (hiter : key_gen_iter = keyWord key nk (i - 1)) (hwords : Scheduled key nk i context) :
    Scheduled key nk 44 (keyGenLoop nk count i key_index key_gen_iter context) := by
  induction count generalizing i key_index key_gen_iter context with
  | zero =>
    rw [← hcount]
    exact hwords
  | succ count ih =>
    have hbound : (nk + key_index) / nk < 31 := by
      apply Nat.lt_of_le_of_lt (Nat.div_le_div_left hnk (by decide))
      omega
    have hnext : context.word key_index ^^^ keyGenAdjust nk key_index key_gen_iter =
        keyWord key nk i := by
      rw [keyWord_of_le key nk i (by omega) (by omega), keyGenAdjust_eq _ _ _ (by omega) hbound,
        hwords key_index (by omega), hiter, ← hi, show i - nk = key_index by omega]
    rw [keyGenLoop]
    apply ih
    · omega
    · omega
    · exact hnext
    · intro j hj
      rw [Aes128Context.word_setWord _ _ _ _ (by omega)]
      split
      · case isTrue hij => rw [← hij, hnext]
      · case isFalse hij => exact hwords j (by omega)

theorem block_of_scheduled {key : Nat → Word} {nk : Nat} {context : Aes128Context}
    (hwords : Scheduled key nk 44 context) (i : Nat) (hi : i < 11) :
    context.block i = roundKey key nk i := by
  rw [Aes128Context.block, roundKey, hwords _ (by omega), hwords _ (by omega),
    hwords _ (by omega), hwords _ (by omega)]

theorem block_inverseMix (count : Nat) (hcount : count ≤ 10) (context : Aes128Context) (i : Nat) :
    (inverseMix count context).block i = mixKeys context.block count i := by
  induction count generalizing i with
  | zero => exact (if_neg (by omega)).symm
  | succ count ih =>
    have hkey : (inverseMix count context).round_key count = context.block (count + 1) := by
      rw [Aes128Context.round_key, ih (by omega), mixKeys, if_neg (by omega)]
    rw [inverseMix, Aes128Context.block_setBlock _ _ _ _ (by omega), hkey, mixKeys]
    split
    · case isTrue hi =>
      rw [if_pos (by omega), ← hi]
      rfl
    · case isFalse hi =>
      rw [ih (by omega), mixKeys]
      by_cases hmixed : 1 ≤ i ∧ i ≤ count
      · rw [if_pos hmixed, if_pos (by omega)]
      · rw [if_neg hmixed, if_neg (by omega)]

theorem mixKeys_congr {key key' : Nat → Block} {n i : Nat} (h : key i = key' i) :
    mixKeys key n i = mixKeys key' n i := by
  rw [mixKeys, mixKeys, h]

theorem initializeContext_block (context : Aes128Context) (key : List Byte)
    (hkey : key.length = 16) (is_inverse_mix : Bool) :
    ∃ context', initializeContext context key is_inverse_mix = some context' ∧
      ∀ i, i < 11 → context'.block i =
        if is_inverse_mix then mixKeys (roundKey (keyWords key) 4) 9 i
        else roundKey (keyWords key) 4 i := by
  have hcopied : Scheduled (keyWords key) 4 4 (copyKey context key) := by
    intro j hj
    rw [word_copyKey context key j (by omega) (by omega), keyWord_of_lt _ _ _ hj]
  have hwords := keyGenLoop_scheduled (keyWords key) 4 40 4 0
    ((copyKey context key).word 3) (copyKey context key) (by decide) rfl rfl
    (hcopied 3 (by decide)) hcopied
  generalize hcontext : keyGenLoop 4 40 4 0 ((copyKey context key).word 3)
    (copyKey context key) = context' at hwords
  refine ⟨if is_inverse_mix then inverseMix 9 context' else context', ?_, ?_⟩
  · rw [← hcontext]
    simp only [initializeContext, hkey]
    rfl
  · intro i hi
    cases is_inverse_mix with
    | false => exact block_of_scheduled hwords i hi
    | true =>
      show (inverseMix 9 context').block i = mixKeys (roundKey (keyWords key) 4) 9 i
      rw [block_inverseMix 9 (by decide)]
      exact mixKeys_congr (block_of_scheduled hwords i hi)

structure Memory where
  cell : Nat → Block
  reads : List Nat

namespace Memory

def read (memory : Memory) (p : Nat) : Memory :=
  ⟨memory.cell, p :: memory.reads⟩

def write (memory : Memory) (p : Nat) (b : Block) : Memory :=
  ⟨fun q => if q = p then b else memory.cell q, memory.reads⟩

end Memory

def decryptBlock (context : Aes128Context) (iv_iter input_i : Block) : Block :=
  let round_iter := input_i ^^^ context.round_key 9
  let round_iter := aesdec round_iter (context.round_key 8)
  let round_iter := aesdec round_iter (context.round_key 7)
  let round_iter := aesdec round_iter (context.round_key 6)
  let round_iter := aesdec round_iter (context.round_key 5)
  let round_iter := aesdec round_iter (context.round_key 4)
  let round_iter := aesdec round_iter (context.round_key 3)
  let round_iter := aesdec round_iter (context.round_key 2)
  let round_iter := aesdec round_iter (context.round_key 1)
  let round_iter := aesdec round_iter (context.round_key 0)
  iv_iter ^^^ aesdeclast round_iter context.key

def decryptLoop (context : Aes128Context) :
    Nat → Nat → Nat → Block → Memory → Block × Memory
  | 0, _, _, iv_iter, memory => (iv_iter, memory)
  | i + 1, output, input, iv_iter, memory =>
    let input_i := memory.cell input
    let memory := (memory.read input).write output (decryptBlock context iv_iter input_i)
    decryptLoop context i (output + 1) (input + 1) input_i memory

def decryptBlocksAes128CbcImpl (context : Aes128Context) (output : Nat) (init_vector : Block)
    (input block_count : Nat) (memory : Memory) : Block × Memory :=
  decryptLoop context block_count output input init_vector memory

def encryptBlock (context : Aes128Context) (iv_iter input_i : Block) : Block :=
  let round_iter := input_i ^^^ context.key ^^^ iv_iter
  let round_iter := aesenc round_iter (context.round_key 0)
  let round_iter := aesenc round_iter (context.round_key 1)
  let round_iter := aesenc round_iter (context.round_key 2)
  let round_iter := aesenc round_iter (context.round_key 3)
  let round_iter := aesenc round_iter (context.round_key 4)
  let round_iter := aesenc round_iter (context.round_key 5)
  let round_iter := aesenc round_iter (context.round_key 6)
  let round_iter := aesenc round_iter (context.round_key 7)
  let round_iter := aesenc round_iter (context.round_key 8)
  aesenclast round_iter (context.round_key 9)

def encryptLoop (context : Aes128Context) (iv_iter : Block) :
    Nat → Nat → Nat → Memory → Nat × Memory
  | 0, output, _, memory => (output, memory)
  | i + 1, output, input, memory =>
    let input_i := memory.cell input
    let memory := (memory.read input).write output (encryptBlock context iv_iter input_i)
    encryptLoop context iv_iter i (output + 1) (input + 1) memory

def encryptBlocksAes128CbcImpl (context : Aes128Context) (output : Nat) (init_vector : Block)
    (input block_count : Nat) (memory : Memory) : Block × Memory :=
  let (output, memory) := encryptLoop context init_vector block_count output input memory
  (memory.cell output, memory.read output)

def ivArray (init_vector : Option Block) : Block :=
  init_vector.getD ⟨0, 0, 0, 0⟩

def decryptAes128Cbc (memory : Memory) (output : Nat) (key : List Byte)
    (init_vector : Option Block) (input input_size : Nat) : Option Memory := do
  let context ← initializeContext Aes128Context.zero key true
  pure (decryptBlocksAes128CbcImpl context output (ivArray init_vector) input (input_size / 16)
    memory).2

def encryptAes128Cbc (memory : Memory) (output : Nat) (key : List Byte)
    (init_vector : Option Block) (input input_size : Nat) : Option Memory := do
  let context ← initializeContext Aes128Context.zero key false
  pure (encryptBlocksAes128CbcImpl context output (ivArray init_vector) input (input_size / 16)
    memory).2

theorem decryptBlock_eq (context : Aes128Context) (iv_iter input_i : Block) :
    decryptBlock context iv_iter input_i = iv_iter ^^^ eqInvCipher context.block 9 input_i := by
  simp only [decryptBlock, aesdec, aesdeclast, eqInvCipher, eqInvRounds, Aes128Context.key,
    Aes128Context.round_key]

theorem xor_right_comm (a b c : Block) : a ^^^ b ^^^ c = a ^^^ c ^^^ b := by
  simp only [block_xor, Block.mk.injEq]
  refine ⟨?_, ?_, ?_, ?_⟩ <;> ac_rfl

theorem encryptBlock_eq (context : Aes128Context) (iv_iter input_i : Block) :
    encryptBlock context iv_iter input_i = cipher context.block 9 (input_i ^^^ iv_iter) := by
  rw [cipher, xor_right_comm]
  simp only [encryptBlock, aesenc, aesenclast, rounds, Aes128Context.key, Aes128Context.round_key]

def blocksAt (cell : Nat → Block) : Nat → Nat → List Block
  | _, 0 => []
  | p, n + 1 => cell p :: blocksAt cell (p + 1) n

theorem blocksAt_congr {cell cell' : Nat → Block} (p n : Nat)
    (h : ∀ q, p ≤ q → q < p + n → cell q = cell' q) : blocksAt cell p n = blocksAt cell' p n := by
  induction n generalizing p with
  | zero => rfl
  | succ n ih =>
    rw [blocksAt, blocksAt, h p (Nat.le_refl p) (by omega), ih]
    intro q hp hq
    exact h q (Nat.le_of_succ_le hp) (by omega)

def KeepsInput (output input n : Nat) : Prop :=
  ∀ i j, i < j → j < n → output + i ≠ input + j

theorem keepsInput_one (output input : Nat) : KeepsInput output input 1 := by
  intro i j hij hj
  omega

theorem KeepsInput.tail {output input n : Nat} (h : KeepsInput output input (n + 1)) :
    KeepsInput (output + 1) (input + 1) n := by
  intro i j hij hj heq
  apply h (i + 1) (j + 1) (by omega) (by omega)
  omega

theorem KeepsInput.blocksAt_write {output input n : Nat} (h : KeepsInput output input (n + 1))
    (memory : Memory) (b : Block) :
    blocksAt ((memory.read input).write output b).cell (input + 1) n =
      blocksAt memory.cell (input + 1) n := by
  apply blocksAt_congr
  intro q hlow hhigh
  apply if_neg
  intro heq
  apply h 0 (q - input) (by omega) (by omega)
  omega

theorem decryptLoop_frame (context : Aes128Context) (n output input : Nat) (iv_iter : Block)
    (memory : Memory) (q : Nat) (hq : q < output ∨ output + n ≤ q) :
    (decryptLoop context n output input iv_iter memory).2.cell q = memory.cell q := by
  induction n generalizing output input iv_iter memory with
  | zero => rfl
  | succ n ih =>
    rw [decryptLoop, ih _ _ _ _ (by omega)]
    exact if_neg (by omega)

theorem decryptLoop_blocks (context : Aes128Context) (n output input : Nat) (iv_iter : Block)
    (memory : Memory) (hkeeps : KeepsInput output input n) :
    blocksAt (decryptLoop context n output input iv_iter memory).2.cell output n =
      cbcDecrypt (eqInvCipher context.block 9) iv_iter (blocksAt memory.cell input n) := by
  induction n generalizing output input iv_iter memory with
  | zero => rfl
  | succ n ih =>
    rw [decryptLoop, blocksAt, blocksAt, cbcDecrypt, ih _ _ _ _ hkeeps.tail,
      hkeeps.blocksAt_write, decryptLoop_frame _ _ _ _ _ _ _ (Or.inl (Nat.lt_succ_self output)),
      ← decryptBlock_eq]
    congr 1
    exact if_pos rfl

theorem encryptLoop_output (context : Aes128Context) (iv_iter : Block) (n output input : Nat)
    (memory : Memory) :
    (encryptLoop context iv_iter n output input memory).1 = output + n := by
  induction n generalizing output input memory with
  | zero => rfl
  | succ n ih =>
    rw [encryptLoop, ih]
    omega

theorem encryptLoop_frame (context : Aes128Context) (iv_iter : Block) (n output input : Nat)
    (memory : Memory) (q : Nat) (hq : q < output ∨ output + n ≤ q) :
    (encryptLoop context iv_iter n output input memory).2.cell q = memory.cell q := by
  induction n generalizing output input memory with
  | zero => rfl
  | succ n ih =>
    rw [encryptLoop, ih _ _ _ (by omega)]
    exact if_neg (by omega)

theorem encryptLoop_blocks (context : Aes128Context) (iv_iter : Block) (n output input : Nat)
    (memory : Memory) (hkeeps : KeepsInput output input n) :
    blocksAt (encryptLoop context iv_iter n output input memory).2.cell output n =
      constantEncrypt (cipher context.block 9) iv_iter (blocksAt memory.cell input n) := by
  induction n generalizing output input memory with
  | zero => rfl
  | succ n ih =>
    rw [encryptLoop, blocksAt, blocksAt, constantEncrypt, List.map_cons, ← constantEncrypt,
      ih _ _ _ hkeeps.tail, hkeeps.blocksAt_write,
      encryptLoop_frame _ _ _ _ _ _ _ (Or.inl (Nat.lt_succ_self output)), ← encryptBlock_eq]
    congr 1
    exact if_pos rfl

end Awn.Aes128Cbc
