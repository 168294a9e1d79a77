import Mathlib.Data.Nat.Notation
import Mathlib.Logic.Function.Basic

namespace Awn.Cipher

/-- Adding a block twice changes nothing, in either order. -/
class LawfulXor (B : Type) [XorOp B] : Prop where
  xor_comm : ∀ a b : B, a ^^^ b = b ^^^ a
  xor_xor_cancel : ∀ a b : B, a ^^^ b ^^^ b = a

variable {B : Type} [XorOp B]

theorem xor_right_injective [LawfulXor B] {a b c : B} (h : a ^^^ c = b ^^^ c) : a = b := by
  rw [← LawfulXor.xor_xor_cancel a c, h, LawfulXor.xor_xor_cancel]

theorem xor_left_injective [LawfulXor B] {a b c : B} (h : c ^^^ a = c ^^^ b) : a = b := by
  rw [LawfulXor.xor_comm c a, LawfulXor.xor_comm c b] at h
  exact xor_right_injective h

theorem xor_xor_self [LawfulXor B] (a b : B) : a ^^^ (b ^^^ a) = b := by
  rw [LawfulXor.xor_comm, LawfulXor.xor_xor_cancel]

def cbcEncrypt (encrypt : B → B) (init_vector : B) : List B → List B
  | [] => []
  | p :: ps => encrypt (p ^^^ init_vector) :: cbcEncrypt encrypt (encrypt (p ^^^ init_vector)) ps

def cbcDecrypt (decrypt : B → B) (init_vector : B) : List B → List B
  | [] => []
  | c :: cs => (init_vector ^^^ decrypt c) :: cbcDecrypt decrypt c cs

def constantEncrypt (encrypt : B → B) (init_vector : B) (ps : List B) : List B :=
  ps.map fun p => encrypt (p ^^^ init_vector)

def Returns (encrypt : B → B) (init_vector : B) (ps : List B) : Prop :=
  ∀ p ∈ ps.dropLast, encrypt (p ^^^ init_vector) = init_vector

theorem returns_short (encrypt : B → B) (init_vector : B) (ps : List B) (hps : ps.length ≤ 1) :
    Returns encrypt init_vector ps := by
  intro p hp
  have hlength := List.length_pos_of_mem hp
  rw [List.length_dropLast] at hlength
  omega

theorem returns_cons_cons (encrypt : B → B) (init_vector p q : B) (ps : List B) :
    Returns encrypt init_vector (p :: q :: ps) ↔
      encrypt (p ^^^ init_vector) = init_vector ∧ Returns encrypt init_vector (q :: ps) := by
  rw [Returns, List.dropLast_cons_cons, List.forall_mem_cons]
  rfl

theorem constantEncrypt_eq_cbcEncrypt [LawfulXor B] (encrypt : B → B) (init_vector : B)
    (ps : List B) (hencrypt : ∀ a b, encrypt a = encrypt b → a = b) :
    constantEncrypt encrypt init_vector ps = cbcEncrypt encrypt init_vector ps ↔
      Returns encrypt init_vector ps := by
  induction ps with
  | nil => exact iff_of_true rfl (returns_short encrypt init_vector [] (Nat.zero_le 1))
  | cons p ps ih =>
    cases ps with
    | nil => exact iff_of_true rfl (returns_short encrypt init_vector [p] (Nat.le_refl 1))
    | cons q ps =>
      rw [returns_cons_cons, ← ih]
      constructor
      · intro heq
        have htail : constantEncrypt encrypt init_vector (q :: ps) =
            cbcEncrypt encrypt (encrypt (p ^^^ init_vector)) (q :: ps) := (List.cons.inj heq).2
        have hback : init_vector = encrypt (p ^^^ init_vector) :=
          xor_left_injective (hencrypt _ _ (List.cons.inj htail).1)
        rw [← hback] at htail
        exact ⟨hback.symm, htail⟩
      · rintro ⟨hback, htail⟩
        rw [cbcEncrypt, hback, ← htail, constantEncrypt, List.map_cons, hback, constantEncrypt]

theorem cbcDecrypt_constantEncrypt [LawfulXor B] (encrypt decrypt : B → B) (init_vector : B)
    (ps : List B) (hdecrypt : ∀ b, decrypt (encrypt b) = b) :
    cbcDecrypt decrypt init_vector (constantEncrypt encrypt init_vector ps) = ps ↔
      Returns encrypt init_vector ps := by
  have hcons (prev p : B) (ps : List B) :
      cbcDecrypt decrypt prev (constantEncrypt encrypt init_vector (p :: ps)) =
        (prev ^^^ (p ^^^ init_vector)) :: cbcDecrypt decrypt (encrypt (p ^^^ init_vector))
          (constantEncrypt encrypt init_vector ps) := by
    rw [constantEncrypt, List.map_cons, cbcDecrypt, hdecrypt, constantEncrypt]
  induction ps with
  | nil => exact iff_of_true rfl (returns_short encrypt init_vector [] (Nat.zero_le 1))
  | cons p ps ih =>
    rw [hcons, xor_xor_self]
    cases ps with
    | nil => exact iff_of_true rfl (returns_short encrypt init_vector [p] (Nat.le_refl 1))
    | cons q ps =>
      rw [returns_cons_cons, List.cons.injEq]
      constructor
      · rintro ⟨-, htail⟩
        have hfirst : encrypt (p ^^^ init_vector) ^^^ (q ^^^ init_vector) = q := by
          rw [hcons] at htail
          exact (List.cons.inj htail).1
        have hback : encrypt (p ^^^ init_vector) = init_vector := by
          apply xor_right_injective (c := q ^^^ init_vector)
          rw [hfirst, xor_xor_self]
        rw [hback] at htail
        exact ⟨hback, ih.mp htail⟩
      · rintro ⟨hback, hrest⟩
        rw [hback]
        exact ⟨rfl, ih.mpr hrest⟩

end Awn.Cipher

namespace Awn.Cipher

abbrev Byte := BitVec 8

abbrev Word := BitVec 32

def byte (w : Word) (i : Nat) : Byte := w.extractLsb' (8 * i) 8

def ofBytes (b0 b1 b2 b3 : Byte) : Word := b3 ++ b2 ++ b1 ++ b0

theorem getLsbD_ofBytes (b0 b1 b2 b3 : Byte) (i : Nat) (hi : i < 32) :
    (ofBytes b0 b1 b2 b3).getLsbD i =
      if i < 8 then b0.getLsbD i else if i < 16 then b1.getLsbD (i - 8)
      else if i < 24 then b2.getLsbD (i - 16) else b3.getLsbD (i - 24) := by
  simp only [ofBytes, BitVec.getLsbD_append]
  by_cases h0 : i < 8
  · simp [h0]
  · by_cases h1 : i < 16
    · simp [h0, h1, show i - 8 < 8 by omega]
    · by_cases h2 : i < 24
      · simp [h0, h1, h2, show ¬ i - 8 < 8 by omega, show i - 8 - 8 = i - 16 by omega,
          show i - 16 < 8 by omega]
      · simp [h0, h1, h2, show ¬ i - 8 < 8 by omega, show ¬ i - 8 - 8 < 8 by omega,
          show i - 8 - 8 - 8 = i - 24 by omega]

theorem getLsbD_byte (w : Word) (i j : Nat) (hj : j < 8) :
    (byte w i).getLsbD j = w.getLsbD (8 * i + j) := by
  rw [byte, BitVec.getLsbD_extractLsb', decide_eq_true hj, Bool.true_and]

@[simp]
theorem byte_ofBytes_zero (b0 b1 b2 b3 : Byte) : byte (ofBytes b0 b1 b2 b3) 0 = b0 := by
  apply BitVec.eq_of_getLsbD_eq
  intro i hi
  rw [getLsbD_byte _ _ _ hi, getLsbD_ofBytes _ _ _ _ _ (by omega), if_pos (by omega)]
  exact congrArg b0.getLsbD (by omega)

@[simp]
theorem byte_ofBytes_one (b0 b1 b2 b3 : Byte) : byte (ofBytes b0 b1 b2 b3) 1 = b1 := by
  apply BitVec.eq_of_getLsbD_eq
  intro i hi
  rw [getLsbD_byte _ _ _ hi, getLsbD_ofBytes _ _ _ _ _ (by omega), if_neg (by omega),
    if_pos (by omega)]
  exact congrArg b1.getLsbD (by omega)

@[simp]
theorem byte_ofBytes_two (b0 b1 b2 b3 : Byte) : byte (ofBytes b0 b1 b2 b3) 2 = b2 := by
  apply BitVec.eq_of_getLsbD_eq
  intro i hi
  rw [getLsbD_byte _ _ _ hi, getLsbD_ofBytes _ _ _ _ _ (by omega), if_neg (by omega),
    if_neg (by omega), if_pos (by omega)]
  exact congrArg b2.getLsbD (by omega)

@[simp]
theorem byte_ofBytes_three (b0 b1 b2 b3 : Byte) : byte (ofBytes b0 b1 b2 b3) 3 = b3 := by
  apply BitVec.eq_of_getLsbD_eq
  intro i hi
  rw [getLsbD_byte _ _ _ hi, getLsbD_ofBytes _ _ _ _ _ (by omega), if_neg (by omega),
    if_neg (by omega), if_neg (by omega)]
  exact congrArg b3.getLsbD (by omega)

@[simp]
theorem ofBytes_byte (w : Word) : ofBytes (byte w 0) (byte w 1) (byte w 2) (byte w 3) = w := by
  apply BitVec.eq_of_getLsbD_eq
  intro i hi
  rw [getLsbD_ofBytes _ _ _ _ _ hi]
  split
  · rw [getLsbD_byte _ _ _ (by omega)]
    exact congrArg w.getLsbD (by omega)
  · split
    · rw [getLsbD_byte _ _ _ (by omega)]
      exact congrArg w.getLsbD (by omega)
    · split
      · rw [getLsbD_byte _ _ _ (by omega)]
        exact congrArg w.getLsbD (by omega)
      · rw [getLsbD_byte _ _ _ (by omega)]
        exact congrArg w.getLsbD (by omega)

theorem byte_xor (v w : Word) (i : Nat) : byte (v ^^^ w) i = byte v i ^^^ byte w i := by
  apply BitVec.eq_of_getLsbD_eq
  intro j hj
  rw [getLsbD_byte _ _ _ hj, BitVec.getLsbD_xor, BitVec.getLsbD_xor, getLsbD_byte _ _ _ hj,
    getLsbD_byte _ _ _ hj]

theorem ofBytes_xor (a0 a1 a2 a3 b0 b1 b2 b3 : Byte) :
    ofBytes (a0 ^^^ b0) (a1 ^^^ b1) (a2 ^^^ b2) (a3 ^^^ b3) =
      ofBytes a0 a1 a2 a3 ^^^ ofBytes b0 b1 b2 b3 := by
  rw [← ofBytes_byte (ofBytes a0 a1 a2 a3 ^^^ ofBytes b0 b1 b2 b3)]
  simp only [byte_xor, byte_ofBytes_zero, byte_ofBytes_one, byte_ofBytes_two, byte_ofBytes_three]

theorem forall_byte {p : Byte → Prop} (h : ∀ b : Fin 256, p (BitVec.ofFin b)) (b : Byte) : p b :=
  h b.toFin

def xtime (b : Byte) : Byte :=
  if b.getLsbD 7 then (b <<< 1) ^^^ 0x1b#8 else b <<< 1

def mulBits : Nat → Byte → Byte → Byte
  | 0, _, _ => 0#8
  | n + 1, c, b => (if c.getLsbD 0 then b else 0#8) ^^^ mulBits n (c >>> 1) (xtime b)

def mul (c b : Byte) : Byte := mulBits 8 c b

theorem xor_xor_comm (a b c d : Byte) : (a ^^^ b) ^^^ (c ^^^ d) = (a ^^^ c) ^^^ (b ^^^ d) := by
  rw [BitVec.xor_assoc, BitVec.xor_assoc, ← BitVec.xor_assoc b, ← BitVec.xor_assoc c,
    BitVec.xor_comm b c]

theorem xtime_xor (a b : Byte) : xtime (a ^^^ b) = xtime a ^^^ xtime b := by
  simp only [xtime, BitVec.getLsbD_xor, BitVec.shiftLeft_xor_distrib]
  cases a.getLsbD 7 <;> cases b.getLsbD 7
  · rfl
  · exact BitVec.xor_assoc (a <<< 1) (b <<< 1) 0x1b#8
  · show a <<< 1 ^^^ b <<< 1 ^^^ 0x1b#8 = a <<< 1 ^^^ 0x1b#8 ^^^ b <<< 1
    rw [BitVec.xor_assoc, BitVec.xor_comm (b <<< 1), ← BitVec.xor_assoc]
  · show a <<< 1 ^^^ b <<< 1 = a <<< 1 ^^^ 0x1b#8 ^^^ (b <<< 1 ^^^ 0x1b#8)
    rw [xor_xor_comm, BitVec.xor_self, BitVec.xor_zero]

theorem mulBits_xor (n : Nat) (c a b : Byte) :
    mulBits n c (a ^^^ b) = mulBits n c a ^^^ mulBits n c b := by
  induction n generalizing c a b with
  | zero => exact BitVec.xor_zero.symm
  | succ n ih =>
    rw [mulBits, mulBits, mulBits, xtime_xor, ih, xor_xor_comm]
    split
    · rfl
    · rw [BitVec.xor_self]

theorem mul_xor (c a b : Byte) : mul c (a ^^^ b) = mul c a ^^^ mul c b :=
  mulBits_xor 8 c a b

def inverses : Vector (Vector Byte 16) 16 := #v[
  #v[0x00, 0x01, 0x8d, 0xf6, 0xcb, 0x52, 0x7b, 0xd1, 0xe8, 0x4f, 0x29, 0xc0, 0xb0, 0xe1, 0xe5, 0xc7],
  #v[0x74, 0xb4, 0xaa, 0x4b, 0x99, 0x2b, 0x60, 0x5f, 0x58, 0x3f, 0xfd, 0xcc, 0xff, 0x40, 0xee, 0xb2],
  #v[0x3a, 0x6e, 0x5a, 0xf1, 0x55, 0x4d, 0xa8, 0xc9, 0xc1, 0x0a, 0x98, 0x15, 0x30, 0x44, 0xa2, 0xc2],
  #v[0x2c, 0x45, 0x92, 0x6c, 0xf3, 0x39, 0x66, 0x42, 0xf2, 0x35, 0x20, 0x6f, 0x77, 0xbb, 0x59, 0x19],
  #v[0x1d, 0xfe, 0x37, 0x67, 0x2d, 0x31, 0xf5, 0x69, 0xa7, 0x64, 0xab, 0x13, 0x54, 0x25, 0xe9, 0x09],
  #v[0xed, 0x5c, 0x05, 0xca, 0x4c, 0x24, 0x87, 0xbf, 0x18, 0x3e, 0x22, 0xf0, 0x51, 0xec, 0x61, 0x17],
  #v[0x16, 0x5e, 0xaf, 0xd3, 0x49, 0xa6, 0x36, 0x43, 0xf4, 0x47, 0x91, 0xdf, 0x33, 0x93, 0x21, 0x3b],
  #v[0x79, 0xb7, 0x97, 0x85, 0x10, 0xb5, 0xba, 0x3c, 0xb6, 0x70, 0xd0, 0x06, 0xa1, 0xfa, 0x81, 0x82],
  #v[0x83, 0x7e, 0x7f, 0x80, 0x96, 0x73, 0xbe, 0x56, 0x9b, 0x9e, 0x95, 0xd9, 0xf7, 0x02, 0xb9, 0xa4],
  #v[0xde, 0x6a, 0x32, 0x6d, 0xd8, 0x8a, 0x84, 0x72, 0x2a, 0x14, 0x9f, 0x88, 0xf9, 0xdc, 0x89, 0x9a],
  #v[0xfb, 0x7c, 0x2e, 0xc3, 0x8f, 0xb8, 0x65, 0x48, 0x26, 0xc8, 0x12, 0x4a, 0xce, 0xe7, 0xd2, 0x62],
  #v[0x0c, 0xe0, 0x1f, 0xef, 0x11, 0x75, 0x78, 0x71, 0xa5, 0x8e, 0x76, 0x3d, 0xbd, 0xbc, 0x86, 0x57],
  #v[0x0b, 0x28, 0x2f, 0xa3, 0xda, 0xd4, 0xe4, 0x0f, 0xa9, 0x27, 0x53, 0x04, 0x1b, 0xfc, 0xac, 0xe6],
  #v[0x7a, 0x07, 0xae, 0x63, 0xc5, 0xdb, 0xe2, 0xea, 0x94, 0x8b, 0xc4, 0xd5, 0x9d, 0xf8, 0x90, 0x6b],
  #v[0xb1, 0x0d, 0xd6, 0xeb, 0xc6, 0x0e, 0xcf, 0xad, 0x08, 0x4e, 0xd7, 0xe3, 0x5d, 0x50, 0x1e, 0xb3],
  #v[0x5b, 0x23, 0x38, 0x34, 0x68, 0x46, 0x03, 0x8c, 0xdd, 0x9c, 0x7d, 0xa0, 0xcd, 0x1a, 0x41, 0x1c]]

def inverse (b : Byte) : Byte :=
  (inverses.get ((b >>> 4).setWidth 4).toFin).get (b.setWidth 4).toFin

theorem inverse_inverse (b : Byte) : inverse (inverse b) = b := by
  revert b
  apply forall_byte
  decide +kernel

def affine (b : Byte) : Byte :=
  b ^^^ b.rotateLeft 1 ^^^ b.rotateLeft 2 ^^^ b.rotateLeft 3 ^^^ b.rotateLeft 4 ^^^ 0x63#8

def invAffine (b : Byte) : Byte :=
  b.rotateLeft 1 ^^^ b.rotateLeft 3 ^^^ b.rotateLeft 6 ^^^ 0x05#8

theorem invAffine_affine (b : Byte) : invAffine (affine b) = b := by
  revert b
  apply forall_byte
  decide +kernel

def sbox (b : Byte) : Byte := affine (inverse b)

def invSbox (b : Byte) : Byte := inverse (invAffine b)

theorem invSbox_sbox (b : Byte) : invSbox (sbox b) = b := by
  rw [invSbox, sbox, invAffine_affine, inverse_inverse]

structure Block where
  w0 : Word
  w1 : Word
  w2 : Word
  w3 : Word
deriving DecidableEq, Repr

instance : XorOp Block :=
  ⟨fun a b => ⟨a.w0 ^^^ b.w0, a.w1 ^^^ b.w1, a.w2 ^^^ b.w2, a.w3 ^^^ b.w3⟩⟩

theorem block_xor (a b : Block) :
    a ^^^ b = ⟨a.w0 ^^^ b.w0, a.w1 ^^^ b.w1, a.w2 ^^^ b.w2, a.w3 ^^^ b.w3⟩ := rfl

instance : LawfulXor Block where
  xor_comm a b := by simp only [block_xor, BitVec.xor_comm]
  xor_xor_cancel a b := by
    simp only [block_xor, BitVec.xor_assoc, BitVec.xor_self, BitVec.xor_zero]

def mapWords (f : Word → Word) (s : Block) : Block :=
  ⟨f s.w0, f s.w1, f s.w2, f s.w3⟩

def mapBytes (f : Byte → Byte) (w : Word) : Word :=
  ofBytes (f (byte w 0)) (f (byte w 1)) (f (byte w 2)) (f (byte w 3))

def subBytes (s : Block) : Block := mapWords (mapBytes sbox) s

def invSubBytes (s : Block) : Block := mapWords (mapBytes invSbox) s

def shiftRows (s : Block) : Block :=
  ⟨ofBytes (byte s.w0 0) (byte s.w1 1) (byte s.w2 2) (byte s.w3 3),
    ofBytes (byte s.w1 0) (byte s.w2 1) (byte s.w3 2) (byte s.w0 3),
    ofBytes (byte s.w2 0) (byte s.w3 1) (byte s.w0 2) (byte s.w1 3),
    ofBytes (byte s.w3 0) (byte s.w0 1) (byte s.w1 2) (byte s.w2 3)⟩

def invShiftRows (s : Block) : Block :=
  ⟨ofBytes (byte s.w0 0) (byte s.w3 1) (byte s.w2 2) (byte s.w1 3),
    ofBytes (byte s.w1 0) (byte s.w0 1) (byte s.w3 2) (byte s.w2 3),
    ofBytes (byte s.w2 0) (byte s.w1 1) (byte s.w0 2) (byte s.w3 3),
    ofBytes (byte s.w3 0) (byte s.w2 1) (byte s.w1 2) (byte s.w0 3)⟩

def mixRow (a b c d : Byte) : Byte := mul 2 a ^^^ mul 3 b ^^^ c ^^^ d

def invMixRow (a b c d : Byte) : Byte := mul 0xe a ^^^ mul 0xb b ^^^ mul 0xd c ^^^ mul 9 d

def mixWith (row : Byte → Byte → Byte → Byte → Byte) (w : Word) : Word :=
  ofBytes (row (byte w 0) (byte w 1) (byte w 2) (byte w 3))
    (row (byte w 1) (byte w 2) (byte w 3) (byte w 0))
    (row (byte w 2) (byte w 3) (byte w 0) (byte w 1))
    (row (byte w 3) (byte w 0) (byte w 1) (byte w 2))

def mixColumns (s : Block) : Block := mapWords (mixWith mixRow) s

def invMixColumns (s : Block) : Block := mapWords (mixWith invMixRow) s

theorem invSubBytes_invShiftRows (s : Block) :
    invSubBytes (invShiftRows (shiftRows (subBytes s))) = s := by
  simp only [invSubBytes, invShiftRows, shiftRows, subBytes, mapWords, mapBytes,
    byte_ofBytes_zero, byte_ofBytes_one, byte_ofBytes_two, byte_ofBytes_three, invSbox_sbox,
    ofBytes_byte]

theorem invShiftRows_invSubBytes (s : Block) :
    invShiftRows (invSubBytes (shiftRows (subBytes s))) = s := by
  have hcomm (t : Block) : invShiftRows (invSubBytes t) = invSubBytes (invShiftRows t) := by
    simp only [invSubBytes, invShiftRows, mapWords, mapBytes, byte_ofBytes_zero,
      byte_ofBytes_one, byte_ofBytes_two, byte_ofBytes_three]
  rw [hcomm, invSubBytes_invShiftRows]

theorem coefficient_first (b : Byte) :
    mul 0xe (mul 2 b) ^^^ mul 0xb b ^^^ mul 0xd b ^^^ mul 9 (mul 3 b) = b := by
  revert b
  apply forall_byte
  decide +kernel

theorem coefficient_second (b : Byte) :
    mul 0xe (mul 3 b) ^^^ mul 0xb (mul 2 b) ^^^ mul 0xd b ^^^ mul 9 b = 0#8 := by
  revert b
  apply forall_byte
  decide +kernel

theorem coefficient_third (b : Byte) :
    mul 0xe b ^^^ mul 0xb (mul 3 b) ^^^ mul 0xd (mul 2 b) ^^^ mul 9 b = 0#8 := by
  revert b
  apply forall_byte
  decide +kernel

theorem coefficient_fourth (b : Byte) :
    mul 0xe b ^^^ mul 0xb b ^^^ mul 0xd (mul 3 b) ^^^ mul 9 (mul 2 b) = 0#8 := by
  revert b
  apply forall_byte
  decide +kernel

theorem invMixRow_xor (a b c d a' b' c' d' : Byte) :
    invMixRow (a ^^^ a') (b ^^^ b') (c ^^^ c') (d ^^^ d') =
      invMixRow a b c d ^^^ invMixRow a' b' c' d' := by
  simp only [invMixRow, mul_xor]
  rw [xor_xor_comm (mul 0xe a), xor_xor_comm (mul 0xe a ^^^ mul 0xb b),
    xor_xor_comm (mul 0xe a ^^^ mul 0xb b ^^^ mul 0xd c)]

theorem invMixRow_mixRow (a b c d : Byte) :
    invMixRow (mixRow a b c d) (mixRow b c d a) (mixRow c d a b) (mixRow d a b c) = a := by
  have hturn : mixRow b c d a = a ^^^ mul 2 b ^^^ mul 3 c ^^^ d ∧
      mixRow c d a b = a ^^^ b ^^^ mul 2 c ^^^ mul 3 d ∧
      mixRow d a b c = mul 3 a ^^^ b ^^^ c ^^^ mul 2 d := by
    refine ⟨?_, ?_, ?_⟩ <;> simp only [mixRow] <;> ac_rfl
  rw [hturn.1, hturn.2.1, hturn.2.2, mixRow]
  simp only [invMixRow_xor]
  simp only [invMixRow, coefficient_first, coefficient_second, coefficient_third,
    coefficient_fourth, BitVec.xor_zero]

theorem mixWith_xor (row : Byte → Byte → Byte → Byte → Byte)
    (hrow : ∀ a b c d a' b' c' d', row (a ^^^ a') (b ^^^ b') (c ^^^ c') (d ^^^ d') =
      row a b c d ^^^ row a' b' c' d') (v w : Word) :
    mixWith row (v ^^^ w) = mixWith row v ^^^ mixWith row w := by
  simp only [mixWith, byte_xor, hrow, ofBytes_xor]

theorem invMixColumns_xor (s t : Block) :
    invMixColumns (s ^^^ t) = invMixColumns s ^^^ invMixColumns t := by
  simp only [invMixColumns, mapWords, block_xor, mixWith_xor _ invMixRow_xor]

theorem invMixColumns_mixColumns (s : Block) : invMixColumns (mixColumns s) = s := by
  simp only [invMixColumns, mixColumns, mapWords, mixWith, byte_ofBytes_zero, byte_ofBytes_one,
    byte_ofBytes_two, byte_ofBytes_three, invMixRow_mixRow, ofBytes_byte]

attribute [irreducible] subBytes invSubBytes shiftRows invShiftRows mixColumns invMixColumns

def rounds (key : Nat → Block) : Nat → Block → Block
  | 0, s => s
  | n + 1, s => mixColumns (shiftRows (subBytes (rounds key n s))) ^^^ key (n + 1)

def cipher (key : Nat → Block) (n : Nat) (s : Block) : Block :=
  shiftRows (subBytes (rounds key n (s ^^^ key 0))) ^^^ key (n + 1)

def eqInvRounds (key : Nat → Block) : Nat → Block → Block
  | 0, s => s
  | n + 1, s =>
    eqInvRounds key n (invMixColumns (invShiftRows (invSubBytes s)) ^^^ key (n + 1))

def eqInvCipher (key : Nat → Block) (n : Nat) (s : Block) : Block :=
  invShiftRows (invSubBytes (eqInvRounds key n (s ^^^ key (n + 1)))) ^^^ key 0

def mixKeys (key : Nat → Block) (n : Nat) (i : Nat) : Block :=
  if 1 ≤ i ∧ i ≤ n then invMixColumns (key i) else key i

theorem eqInvRounds_rounds (key mixed : Nat → Block) (n : Nat) (s : Block)
    (hmixed : ∀ i, 1 ≤ i → i ≤ n → mixed i = invMixColumns (key i)) :
    eqInvRounds mixed n (shiftRows (subBytes (rounds key n s))) = shiftRows (subBytes s) := by
  induction n with
  | zero => rfl
  | succ n ih =>
    have hundone : invMixColumns (invShiftRows (invSubBytes
        (shiftRows (subBytes (rounds key (n + 1) s))))) ^^^ mixed (n + 1) =
          shiftRows (subBytes (rounds key n s)) := by
      rw [invShiftRows_invSubBytes, rounds, invMixColumns_xor, invMixColumns_mixColumns,
        hmixed (n + 1) (Nat.le_add_left 1 n) (Nat.le_refl (n + 1)), LawfulXor.xor_xor_cancel]
    rw [eqInvRounds, hundone]
    apply ih
    intro i hone hi
    exact hmixed i hone (Nat.le_succ_of_le hi)

theorem eqInvCipher_cipher (key : Nat → Block) (n : Nat) (s : Block) :
    eqInvCipher (mixKeys key n) n (cipher key n s) = s := by
  have hlast : mixKeys key n (n + 1) = key (n + 1) := if_neg (by omega)
  have hfirst : mixKeys key n 0 = key 0 := if_neg (by omega)
  rw [eqInvCipher, cipher, hlast, hfirst, LawfulXor.xor_xor_cancel, eqInvRounds_rounds key,
    invShiftRows_invSubBytes, LawfulXor.xor_xor_cancel]
  intro i hone hi
  exact if_pos ⟨hone, hi⟩

theorem cipher_injective (key : Nat → Block) (n : Nat) : Function.Injective (cipher key n) :=
  Function.LeftInverse.injective (eqInvCipher_cipher key n)

theorem rounds_congr {key key' : Nat → Block} (n : Nat) (s : Block)
    (h : ∀ i, i ≤ n → key i = key' i) : rounds key n s = rounds key' n s := by
  induction n with
  | zero => rfl
  | succ n ih =>
    rw [rounds, rounds, h (n + 1) (Nat.le_refl _), ih fun i hi => h i (Nat.le_succ_of_le hi)]

theorem cipher_congr {key key' : Nat → Block} (n : Nat) (h : ∀ i, i ≤ n + 1 → key i = key' i) :
    cipher key n = cipher key' n := by
  funext s
  rw [cipher, cipher, h 0 (Nat.zero_le _), h (n + 1) (Nat.le_refl _),
    rounds_congr n _ fun i hi => h i (Nat.le_succ_of_le hi)]

theorem eqInvRounds_congr {key key' : Nat → Block} (n : Nat) (s : Block)
    (h : ∀ i, i ≤ n → key i = key' i) : eqInvRounds key n s = eqInvRounds key' n s := by
  induction n generalizing s with
  | zero => rfl
  | succ n ih =>
    rw [eqInvRounds, eqInvRounds, h (n + 1) (Nat.le_refl _), ih]
    intro i hi
    exact h i (Nat.le_succ_of_le hi)

theorem eqInvCipher_congr {key key' : Nat → Block} (n : Nat)
    (h : ∀ i, i ≤ n + 1 → key i = key' i) : eqInvCipher key n = eqInvCipher key' n := by
  funext s
  rw [eqInvCipher, eqInvCipher, h 0 (Nat.zero_le _), h (n + 1) (Nat.le_refl _),
    eqInvRounds_congr n _ fun i hi => h i (Nat.le_succ_of_le hi)]

def subWord (w : Word) : Word := mapBytes sbox w

def rotWord (w : Word) : Word := ofBytes (byte w 1) (byte w 2) (byte w 3) (byte w 0)

def powerOfX : Nat → Byte
  | 0 => 1#8
  | n + 1 => xtime (powerOfX n)

def rcon (i : Nat) : Byte := powerOfX (i - 1)

def keyWord (key : Nat → Word) (nk : Nat) (i : Nat) : Word :=
  if _h : i < nk ∨ nk = 0 then key i
  else
    let temp := keyWord key nk (i - 1)
    keyWord key nk (i - nk) ^^^
      if i % nk = 0 then subWord (rotWord temp) ^^^ ofBytes (rcon (i / nk)) 0 0 0 else temp
termination_by i
decreasing_by all_goals omega

theorem keyWord_of_lt (key : Nat → Word) (nk i : Nat) (hi : i < nk) : keyWord key nk i = key i := by
  rw [keyWord, dif_pos (Or.inl hi)]

theorem keyWord_of_le (key : Nat → Word) (nk i : Nat) (hnk : 0 < nk) (hi : nk ≤ i) :
    keyWord key nk i = keyWord key nk (i - nk) ^^^
      if i % nk = 0 then
        subWord (rotWord (keyWord key nk (i - 1))) ^^^ ofBytes (rcon (i / nk)) 0 0 0
      else keyWord key nk (i - 1) := by
  rw [keyWord, dif_neg (by omega)]

def roundKey (key : Nat → Word) (nk : Nat) (i : Nat) : Block :=
  ⟨keyWord key nk (4 * i), keyWord key nk (4 * i + 1), keyWord key nk (4 * i + 2),
    keyWord key nk (4 * i + 3)⟩

end Awn.Cipher
