import Awn.Aes128Cbc.Context
import Mathlib.Algebra.GroupWithZero.Nat

namespace Awn.Aes128Cbc

open Awn.Cipher

def decryptParts (context : Aes128Context) :
    List Nat → Nat → Nat → Block → Memory → Block × Memory
  | [], _, _, init_vector, memory => (init_vector, memory)
  | n :: parts, output, input, init_vector, memory =>
    let part := decryptBlocksAes128CbcImpl context output init_vector input n memory
    decryptParts context parts (output + n) (input + n) part.1 part.2

def encryptParts (context : Aes128Context) :
    List Nat → Nat → Nat → Block → Memory → Block × Memory
  | [], _, _, init_vector, memory => (init_vector, memory)
  | n :: parts, output, input, init_vector, memory =>
    let part := encryptBlocksAes128CbcImpl context output init_vector input n memory
    encryptParts context parts (output + n) (input + n) part.1 part.2

theorem decryptLoop_add (context : Aes128Context) (m n output input : Nat) (iv_iter : Block)
    (memory : Memory) :
    decryptLoop context (m + n) output input iv_iter memory =
      decryptLoop context n (output + m) (input + m)
        (decryptLoop context m output input iv_iter memory).1
        (decryptLoop context m output input iv_iter memory).2 := by
  induction m generalizing output input iv_iter memory with
  | zero => rw [Nat.zero_add, decryptLoop, Nat.add_zero, Nat.add_zero]
  | succ m ih =>
    rw [Nat.succ_add, decryptLoop, ih, decryptLoop, Nat.add_right_comm output 1 m,
      Nat.add_right_comm input 1 m, Nat.add_assoc output, Nat.add_assoc input]

theorem decryptParts_eq (context : Aes128Context) (parts : List Nat) (output input : Nat)
    (init_vector : Block) (memory : Memory) :
    decryptParts context parts output input init_vector memory =
      decryptBlocksAes128CbcImpl context output init_vector input parts.sum memory := by
  induction parts generalizing output input init_vector memory with
  | nil => rfl
  | cons n parts ih =>
    rw [decryptParts, ih, List.sum_cons]
    exact (decryptLoop_add context n parts.sum output input init_vector memory).symm

theorem encryptLoop_add (context : Aes128Context) (iv_iter : Block) (m n output input : Nat)
    (memory : Memory) :
    encryptLoop context iv_iter (m + n) output input memory =
      encryptLoop context iv_iter n (output + m) (input + m)
        (encryptLoop context iv_iter m output input memory).2 := by
  induction m generalizing output input memory with
  | zero => rw [Nat.zero_add, encryptLoop, Nat.add_zero, Nat.add_zero]
  | succ m ih =>
    rw [Nat.succ_add, encryptLoop, ih, encryptLoop, Nat.add_right_comm output 1 m,
      Nat.add_right_comm input 1 m, Nat.add_assoc output, Nat.add_assoc input]

theorem decryptLoop_reads (context : Aes128Context) (n output input : Nat) (iv_iter : Block)
    (memory : Memory) (p : Nat) :
    p ∈ (decryptLoop context n output input iv_iter memory).2.reads ↔
      (input ≤ p ∧ p < input + n) ∨ p ∈ memory.reads := by
  induction n generalizing output input iv_iter memory with
  | zero =>
    rw [decryptLoop]
    constructor
    · exact Or.inr
    · rintro (hp | hp)
      · omega
      · exact hp
  | succ n ih =>
    rw [decryptLoop, ih]
    show _ ∨ p ∈ input :: memory.reads ↔ _
    rw [List.mem_cons, ← or_assoc]
    apply or_congr_left
    omega

theorem encryptLoop_reads (context : Aes128Context) (iv_iter : Block) (n output input : Nat)
    (memory : Memory) (p : Nat) :
    p ∈ (encryptLoop context iv_iter n output input memory).2.reads ↔
      (input ≤ p ∧ p < input + n) ∨ p ∈ memory.reads := by
  induction n generalizing output input memory with
  | zero =>
    rw [encryptLoop]
    constructor
    · exact Or.inr
    · rintro (hp | hp)
      · omega
      · exact hp
  | succ n ih =>
    rw [encryptLoop, ih]
    show _ ∨ p ∈ input :: memory.reads ↔ _
    rw [List.mem_cons, ← or_assoc]
    apply or_congr_left
    omega

theorem encryptBlocks_vector (context : Aes128Context) (output : Nat) (init_vector : Block)
    (input n : Nat) (memory : Memory) :
    (encryptBlocksAes128CbcImpl context output init_vector input n memory).1 =
      memory.cell (output + n) := by
  show (encryptLoop context init_vector n output input memory).2.cell
    (encryptLoop context init_vector n output input memory).1 = memory.cell (output + n)
  rw [encryptLoop_output, encryptLoop_frame _ _ _ _ _ _ _ (Or.inr (Nat.le_refl _))]

theorem encryptBlocks_cell (context : Aes128Context) (output : Nat) (init_vector : Block)
    (input n : Nat) (memory : Memory) :
    (encryptBlocksAes128CbcImpl context output init_vector input n memory).2.cell =
      (encryptLoop context init_vector n output input memory).2.cell := rfl

theorem encryptBlocks_reads (context : Aes128Context) (output : Nat) (init_vector : Block)
    (input n : Nat) (memory : Memory) (p : Nat) :
    p ∈ (encryptBlocksAes128CbcImpl context output init_vector input n memory).2.reads ↔
      p = output + n ∨ (input ≤ p ∧ p < input + n) ∨ p ∈ memory.reads := by
  show p ∈ (encryptLoop context init_vector n output input memory).1 ::
    (encryptLoop context init_vector n output input memory).2.reads ↔ _
  rw [List.mem_cons, encryptLoop_output, encryptLoop_reads]

theorem encryptParts_frame (context : Aes128Context) (parts : List Nat) (output input : Nat)
    (init_vector : Block) (memory : Memory) (q : Nat)
    (hq : q < output ∨ output + parts.sum ≤ q) :
    (encryptParts context parts output input init_vector memory).2.cell q = memory.cell q := by
  induction parts generalizing output input init_vector memory with
  | nil => rfl
  | cons n parts ih =>
    rw [List.sum_cons] at hq
    rw [encryptParts, ih _ _ _ _ (by omega), encryptBlocks_cell]
    exact encryptLoop_frame _ _ _ _ _ _ _ (by omega)

theorem encryptParts_first (context : Aes128Context) (parts : List Nat) (output input : Nat)
    (init_vector : Block) (memory : Memory) (hvector : init_vector = memory.cell output)
    (hsum : 0 < parts.sum) :
    (encryptParts context parts output input init_vector memory).2.cell output =
      encryptBlock context init_vector (memory.cell input) := by
  induction parts generalizing init_vector memory with
  | nil => exact absurd hsum (Nat.lt_irrefl 0)
  | cons n parts ih =>
    cases n with
    | zero =>
      rw [List.sum_cons, Nat.zero_add] at hsum
      rw [encryptParts, hvector]
      exact ih _ _ rfl hsum
    | succ n =>
      rw [encryptParts, encryptParts_frame _ _ _ _ _ _ _ (by omega), encryptBlocks_cell,
        encryptLoop, encryptLoop_frame _ _ _ _ _ _ _ (Or.inl (Nat.lt_succ_self output))]
      exact if_pos rfl

theorem encryptLoop_first (context : Aes128Context) (iv_iter : Block) (n output input : Nat)
    (memory : Memory) (hn : 0 < n) :
    (encryptLoop context iv_iter n output input memory).2.cell output =
      encryptBlock context iv_iter (memory.cell input) := by
  obtain ⟨n, rfl⟩ := Nat.exists_eq_add_of_le' hn
  rw [encryptLoop, encryptLoop_frame _ _ _ _ _ _ _ (Or.inl (Nat.lt_succ_self output))]
  exact if_pos rfl

theorem encryptBlock_injective (context : Aes128Context) (input_i : Block) {a b : Block}
    (h : encryptBlock context a input_i = encryptBlock context b input_i) : a = b := by
  rw [encryptBlock_eq, encryptBlock_eq] at h
  exact xor_left_injective (cipher_injective context.block 9 h)

def VectorsBehind (cell : Nat → Block) (output : Nat) (init_vector : Block) (parts : List Nat) :
    Prop :=
  ∀ front back, parts = front ++ back → front ≠ [] → 0 < back.sum →
    cell (output + front.sum) = init_vector

theorem vectorsBehind_cons (cell : Nat → Block) (output : Nat) (init_vector : Block) (n : Nat)
    (parts : List Nat) :
    VectorsBehind cell output init_vector (n :: parts) ↔
      (0 < parts.sum → cell (output + n) = init_vector) ∧
        VectorsBehind cell (output + n) init_vector parts := by
  constructor
  · intro h
    constructor
    · intro hsum
      exact h [n] parts rfl (List.cons_ne_nil n []) hsum
    · intro front back hparts hfront hback
      have hcell := h (n :: front) back (by rw [hparts]; rfl) (List.cons_ne_nil n front) hback
      rw [List.sum_cons, ← Nat.add_assoc] at hcell
      exact hcell
  · rintro ⟨hfirst, hrest⟩ front back hparts hfront hback
    cases front with
    | nil => exact absurd rfl hfront
    | cons m front =>
      obtain ⟨rfl, hrest'⟩ := List.cons.inj hparts
      rw [List.sum_cons, ← Nat.add_assoc]
      by_cases hempty : front = []
      · subst hempty
        exact hfirst (hrest' ▸ hback)
      · exact hrest front back hrest' hempty hback

theorem vectorsBehind_congr {cell cell' : Nat → Block} {output : Nat} (init_vector : Block)
    (parts : List Nat) (h : ∀ q, output ≤ q → cell q = cell' q) :
    VectorsBehind cell output init_vector parts ↔ VectorsBehind cell' output init_vector parts := by
  simp only [VectorsBehind, h _ (Nat.le_add_right output _)]

theorem encryptLoop_cell_congr (context : Aes128Context) (iv_iter : Block) (n output input : Nat)
    (memory memory' : Memory) (h : memory.cell = memory'.cell) :
    (encryptLoop context iv_iter n output input memory).2.cell =
      (encryptLoop context iv_iter n output input memory').2.cell := by
  induction n generalizing output input memory memory' with
  | zero => exact h
  | succ n ih =>
    rw [encryptLoop, encryptLoop]
    apply ih
    funext q
    show (if q = output then _ else memory.cell q) = if q = output then _ else memory'.cell q
    rw [h]

theorem encryptParts_cell_iff (context : Aes128Context) (parts : List Nat) (output input : Nat)
    (init_vector : Block) (memory : Memory) :
    (encryptParts context parts output input init_vector memory).2.cell =
        (encryptLoop context init_vector parts.sum output input memory).2.cell ↔
      VectorsBehind memory.cell output init_vector parts := by
  induction parts generalizing output input init_vector memory with
  | nil =>
    apply iff_of_true rfl
    intro front back hparts hfront
    exact absurd (List.append_eq_nil_iff.mp hparts.symm).1 hfront
  | cons n parts ih =>
    let part := encryptBlocksAes128CbcImpl context output init_vector input n memory
    have hvector : part.1 = memory.cell (output + n) := encryptBlocks_vector _ _ _ _ _ _
    have hkept (q : Nat) (hq : output + n ≤ q) : part.2.cell q = memory.cell q :=
      encryptLoop_frame _ _ _ _ _ _ _ (Or.inr hq)
    have hwhole : (encryptLoop context init_vector (n :: parts).sum output input memory).2.cell =
        (encryptLoop context init_vector parts.sum (output + n) (input + n) part.2).2.cell := by
      rw [List.sum_cons, encryptLoop_add]
      exact encryptLoop_cell_congr _ _ _ _ _ _ _ rfl
    rw [hwhole, vectorsBehind_cons, ← vectorsBehind_congr init_vector parts hkept]
    show (encryptParts context parts (output + n) (input + n) part.1 part.2).2.cell = _ ↔ _
    by_cases hsum : 0 < parts.sum
    · constructor
      · intro hsame
        have hblock := congrFun hsame (output + n)
        rw [encryptParts_first _ _ _ _ _ _ (hvector.trans (hkept _ (Nat.le_refl _)).symm) hsum,
          encryptLoop_first _ _ _ _ _ _ hsum] at hblock
        have hback : part.1 = init_vector := encryptBlock_injective context _ hblock
        rw [hback] at hsame
        exact ⟨fun _ => hvector.symm.trans hback, (ih _ _ _ _).mp hsame⟩
      · rintro ⟨hback, hrest⟩
        rw [hvector, hback hsum]
        exact (ih _ _ _ _).mpr hrest
    · have hzero : parts.sum = 0 := Nat.eq_zero_of_not_pos hsum
      apply iff_of_true
      · funext q
        rw [hzero, encryptParts_frame _ _ _ _ _ _ _ (by omega), encryptLoop]
      · refine ⟨fun h => absurd h hsum, ?_⟩
        intro front back hparts _ hback
        rw [hparts, List.sum_append] at hzero
        omega

theorem encryptParts_reads (context : Aes128Context) (parts : List Nat) (output input : Nat)
    (init_vector : Block) (memory : Memory) (p : Nat) :
    p ∈ (encryptParts context parts output input init_vector memory).2.reads ↔
      (∃ front back, parts = front ++ back ∧ front ≠ [] ∧ p = output + front.sum) ∨
        (input ≤ p ∧ p < input + parts.sum) ∨ p ∈ memory.reads := by
  induction parts generalizing output input init_vector memory with
  | nil =>
    constructor
    · intro hp
      exact Or.inr (Or.inr hp)
    · rintro (⟨front, back, hparts, hfront, -⟩ | hp | hp)
      · exact absurd (List.append_eq_nil_iff.mp hparts.symm).1 hfront
      · rw [List.sum_nil] at hp
        omega
      · exact hp
  | cons n parts ih =>
    rw [encryptParts, ih, encryptBlocks_reads, List.sum_cons]
    constructor
    · rintro (⟨front, back, rfl, -, rfl⟩ | hp | rfl | hp | hp)
      · left
        refine ⟨n :: front, back, rfl, List.cons_ne_nil n front, ?_⟩
        rw [List.sum_cons, Nat.add_assoc]
      · right
        left
        omega
      · left
        refine ⟨[n], parts, rfl, List.cons_ne_nil n [], ?_⟩
        rw [List.sum_cons, List.sum_nil, Nat.add_zero]
      · right
        left
        omega
      · exact Or.inr (Or.inr hp)
    · rintro (⟨front, back, hparts, hfront, rfl⟩ | hp | hp)
      · cases front with
        | nil => exact absurd rfl hfront
        | cons m front =>
          obtain ⟨rfl, hrest⟩ := List.cons.inj hparts
          rw [List.sum_cons, ← Nat.add_assoc]
          by_cases hempty : front = []
          · subst hempty
            exact Or.inr (Or.inr (Or.inl rfl))
          · exact Or.inl ⟨front, back, hrest, hempty, rfl⟩
      · by_cases hlow : p < input + n
        · exact Or.inr (Or.inr (Or.inr (Or.inl (by omega))))
        · exact Or.inr (Or.inl (by omega))
      · exact Or.inr (Or.inr (Or.inr (Or.inr hp)))

def aes128 (key : List Byte) : Block → Block :=
  cipher (roundKey (keyWords key) 4) 9

def invAes128 (key : List Byte) : Block → Block :=
  eqInvCipher (mixKeys (roundKey (keyWords key) 4) 9) 9

theorem invAes128_aes128 (key : List Byte) (b : Block) : invAes128 key (aes128 key b) = b :=
  eqInvCipher_cipher _ 9 b

theorem aes128_injective (key : List Byte) (a b : Block) (h : aes128 key a = aes128 key b) :
    a = b :=
  cipher_injective _ 9 h

theorem encryptContext {key : List Byte} (hkey : key.length = 16) :
    ∃ context, initializeContext Aes128Context.zero key false = some context ∧
      cipher context.block 9 = aes128 key := by
  obtain ⟨context, hcontext, hblocks⟩ :=
    initializeContext_block Aes128Context.zero key hkey false
  exact ⟨context, hcontext, cipher_congr 9 fun i hi => hblocks i (Nat.lt_succ_of_le hi)⟩

theorem decryptContext {key : List Byte} (hkey : key.length = 16) :
    ∃ context, initializeContext Aes128Context.zero key true = some context ∧
      eqInvCipher context.block 9 = invAes128 key := by
  obtain ⟨context, hcontext, hblocks⟩ :=
    initializeContext_block Aes128Context.zero key hkey true
  exact ⟨context, hcontext, eqInvCipher_congr 9 fun i hi => hblocks i (Nat.lt_succ_of_le hi)⟩

def Given (output input n p : Nat) : Prop :=
  (input ≤ p ∧ p < input + n) ∨ (output ≤ p ∧ p < output + n)

structure Contract (cell : Nat → Block) (key : List Byte) (init_vector : Option Block)
    (output input result : Nat) (parts : List Nat) : Prop where
  roundTrip : ∃ encrypted decrypted,
    encryptAes128Cbc ⟨cell, []⟩ output key init_vector input (16 * parts.sum) = some encrypted ∧
    decryptAes128Cbc encrypted result key init_vector output (16 * parts.sum) = some decrypted ∧
    blocksAt decrypted.cell result parts.sum = blocksAt cell input parts.sum
  standard : ∃ encrypted,
    encryptAes128Cbc ⟨cell, []⟩ output key init_vector input (16 * parts.sum) = some encrypted ∧
    blocksAt encrypted.cell output parts.sum =
      cbcEncrypt (aes128 key) (ivArray init_vector) (blocksAt cell input parts.sum)
  encryptInParts : ∀ context, initializeContext Aes128Context.zero key false = some context →
    (encryptParts context parts output input (ivArray init_vector) ⟨cell, []⟩).2.cell =
      (encryptBlocksAes128CbcImpl context output (ivArray init_vector) input parts.sum
        ⟨cell, []⟩).2.cell
  decryptInParts : ∀ context, initializeContext Aes128Context.zero key true = some context →
    (decryptParts context parts output input (ivArray init_vector) ⟨cell, []⟩).2.cell =
      (decryptBlocksAes128CbcImpl context output (ivArray init_vector) input parts.sum
        ⟨cell, []⟩).2.cell
  encryptReads : ∀ context, initializeContext Aes128Context.zero key false = some context →
    ∀ p ∈ (encryptParts context parts output input (ivArray init_vector) ⟨cell, []⟩).2.reads,
      Given output input parts.sum p
  decryptReads : ∀ context, initializeContext Aes128Context.zero key true = some context →
    ∀ p ∈ (decryptParts context parts output input (ivArray init_vector) ⟨cell, []⟩).2.reads,
      Given output input parts.sum p

section

variable (cell : Nat → Block) {key : List Byte} (hkey : key.length = 16)
  (init_vector : Option Block) (output input : Nat)
include hkey

theorem encryptAes128Cbc_blocks (n : Nat) (hinput : KeepsInput output input n) :
    ∃ encrypted,
      encryptAes128Cbc ⟨cell, []⟩ output key init_vector input (16 * n) = some encrypted ∧
      blocksAt encrypted.cell output n =
        constantEncrypt (aes128 key) (ivArray init_vector) (blocksAt cell input n) := by
  obtain ⟨context, hcontext, hcipher⟩ := encryptContext hkey
  refine ⟨(encryptBlocksAes128CbcImpl context output (ivArray init_vector) input n ⟨cell, []⟩).2,
    ?_, ?_⟩
  · rw [encryptAes128Cbc, hcontext, Nat.mul_div_cancel_left n (by decide)]
    rfl
  · rw [encryptBlocks_cell, encryptLoop_blocks _ _ _ _ _ _ hinput, hcipher]

theorem decryptAes128Cbc_blocks (memory : Memory) (n : Nat) (hinput : KeepsInput output input n) :
    ∃ decrypted,
      decryptAes128Cbc memory output key init_vector input (16 * n) = some decrypted ∧
      blocksAt decrypted.cell output n =
        cbcDecrypt (invAes128 key) (ivArray init_vector) (blocksAt memory.cell input n) := by
  obtain ⟨context, hcontext, hcipher⟩ := decryptContext hkey
  refine ⟨(decryptBlocksAes128CbcImpl context output (ivArray init_vector) input n memory).2,
    ?_, ?_⟩
  · rw [decryptAes128Cbc, hcontext, Nat.mul_div_cancel_left n (by decide)]
    rfl
  · rw [decryptBlocksAes128CbcImpl, decryptLoop_blocks _ _ _ _ _ _ hinput, hcipher]

theorem standard_iff (n : Nat) (hinput : KeepsInput output input n) :
    (∃ encrypted,
      encryptAes128Cbc ⟨cell, []⟩ output key init_vector input (16 * n) = some encrypted ∧
      blocksAt encrypted.cell output n =
        cbcEncrypt (aes128 key) (ivArray init_vector) (blocksAt cell input n)) ↔
      Returns (aes128 key) (ivArray init_vector) (blocksAt cell input n) := by
  obtain ⟨encrypted, hencrypted, hblocks⟩ :=
    encryptAes128Cbc_blocks cell hkey init_vector output input n hinput
  rw [← constantEncrypt_eq_cbcEncrypt _ _ _ (aes128_injective key), ← hblocks]
  constructor
  · rintro ⟨encrypted', hencrypted', hstandard⟩
    obtain rfl := Option.some.inj (hencrypted.symm.trans hencrypted')
    exact hstandard
  · intro hstandard
    exact ⟨encrypted, hencrypted, hstandard⟩

theorem roundTrip_iff (result n : Nat) (hinput : KeepsInput output input n)
    (houtput : KeepsInput result output n) :
    (∃ encrypted decrypted,
      encryptAes128Cbc ⟨cell, []⟩ output key init_vector input (16 * n) = some encrypted ∧
      decryptAes128Cbc encrypted result key init_vector output (16 * n) = some decrypted ∧
      blocksAt decrypted.cell result n = blocksAt cell input n) ↔
      Returns (aes128 key) (ivArray init_vector) (blocksAt cell input n) := by
  obtain ⟨encrypted, hencrypted, hblocks⟩ :=
    encryptAes128Cbc_blocks cell hkey init_vector output input n hinput
  obtain ⟨decrypted, hdecrypted, hplain⟩ :=
    decryptAes128Cbc_blocks hkey init_vector result output encrypted n houtput
  rw [hblocks] at hplain
  rw [← cbcDecrypt_constantEncrypt _ _ _ _ (invAes128_aes128 key), ← hplain]
  constructor
  · rintro ⟨encrypted', decrypted', hencrypted', hdecrypted', hsame⟩
    obtain rfl := Option.some.inj (hencrypted.symm.trans hencrypted')
    obtain rfl := Option.some.inj (hdecrypted.symm.trans hdecrypted')
    exact hsame
  · intro hsame
    exact ⟨encrypted, decrypted, hencrypted, hdecrypted, hsame⟩

theorem encryptInParts_iff (parts : List Nat) :
    (∀ context, initializeContext Aes128Context.zero key false = some context →
      (encryptParts context parts output input (ivArray init_vector) ⟨cell, []⟩).2.cell =
        (encryptBlocksAes128CbcImpl context output (ivArray init_vector) input parts.sum
          ⟨cell, []⟩).2.cell) ↔
      VectorsBehind cell output (ivArray init_vector) parts := by
  obtain ⟨context, hcontext, -⟩ := encryptContext hkey
  constructor
  · intro h
    exact (encryptParts_cell_iff _ _ _ _ _ _).mp (h context hcontext)
  · intro h context' _
    exact (encryptParts_cell_iff _ _ _ _ _ _).mpr h

theorem encryptReads_iff (parts : List Nat) (hparts : 0 < parts.sum) :
    (∀ context, initializeContext Aes128Context.zero key false = some context →
      ∀ p ∈ (encryptParts context parts output input (ivArray init_vector) ⟨cell, []⟩).2.reads,
        Given output input parts.sum p) ↔
      Given output input parts.sum (output + parts.sum) := by
  obtain ⟨context, hcontext, -⟩ := encryptContext hkey
  constructor
  · intro h
    apply h context hcontext
    rw [encryptParts_reads]
    refine Or.inl ⟨parts, [], (List.append_nil parts).symm, ?_, rfl⟩
    rintro rfl
    exact Nat.lt_irrefl 0 hparts
  · intro h context' _ p hp
    rw [encryptParts_reads] at hp
    rcases hp with ⟨front, back, hsplit, -, rfl⟩ | hp | hp
    · by_cases hlast : back.sum = 0
      · have hsum : front.sum = parts.sum := by
          rw [hsplit, List.sum_append, hlast, Nat.add_zero]
        rw [hsum]
        exact h
      · right
        rw [hsplit, List.sum_append]
        omega
    · exact Or.inl hp
    · cases hp

end

/-- The first block of the usual example of the cipher. -/
example : (encryptAes128Cbc
      ⟨fun _ => ⟨0x33221100, 0x77665544, 0xbbaa9988, 0xffeeddcc⟩, []⟩ 1
      ((List.range 16).map (BitVec.ofNat 8)) none 0 16).map (fun memory => memory.cell 1) =
    some ⟨0xd8e0c469, 0x30047b6a, 0x80b7cdd8, 0x5ac5b470⟩ := by
  decide +kernel

end Awn.Aes128Cbc
