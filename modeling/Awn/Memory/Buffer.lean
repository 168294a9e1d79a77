import Mathlib.Algebra.Order.Ring.Nat
import Mathlib.Data.Nat.Bitwise
import Mathlib.Data.Nat.Notation
import Mathlib.Logic.Function.Basic
import Mathlib.Order.Basic
import Mathlib.Tactic.Ring

/-!
Byte-addressed memory and little-endian values of any width in it.
-/

namespace Awn.Memory

abbrev Bytes := ℕ → BitVec 8

def load (m : Bytes) (a : ℕ) : ℕ → ℕ
  | 0 => 0
  | n + 1 => (m a).toNat + 256 * load m (a + 1) n

def store (m : Bytes) (a : ℕ) : ℕ → ℕ → Bytes
  | 0, _ => m
  | n + 1, v => store (Function.update m a (BitVec.ofNat 8 v)) (a + 1) n (v / 256)

theorem load_lt (m : Bytes) (a n : ℕ) : load m a n < 256 ^ n := by
  induction n generalizing a with
  | zero => simp [load]
  | succ n ih =>
    have hb := (m a).isLt
    have ht := ih (a + 1)
    rw [load, pow_succ]
    omega

theorem load_congr {m m' : Bytes} {a n : ℕ} (h : ∀ b, a ≤ b → b < a + n → m' b = m b) :
    load m' a n = load m a n := by
  induction n generalizing a with
  | zero => rfl
  | succ n ih =>
    have htail := ih (a := a + 1) (fun b hb hn => h b (by omega) (by omega))
    rw [load, load, h a (by omega) (by omega), htail]

theorem store_apply_of_ne (m : Bytes) (a n v b : ℕ) (h : b < a ∨ a + n ≤ b) : store m a n v b = m b := by
  induction n generalizing m a v with
  | zero => rfl
  | succ n ih =>
    have hne : b ≠ a := by omega
    rw [store, ih _ _ _ (by omega), Function.update_of_ne hne]

theorem load_store_of_disjoint (m : Bytes) (a n v b k : ℕ) (h : b + k ≤ a ∨ a + n ≤ b) :
    load (store m a n v) b k = load m b k := by
  apply load_congr
  intro c hb hk
  apply store_apply_of_ne
  omega

theorem load_store (m : Bytes) (a n v : ℕ) : load (store m a n v) a n = v % 256 ^ n := by
  induction n generalizing m a v with
  | zero => simp [load, Nat.mod_one]
  | succ n ih =>
    have hhead : (BitVec.ofNat 8 v).toNat = v % 256 := by simp
    rw [store, load, ih, store_apply_of_ne _ _ _ _ _ (by omega), Function.update_self, hhead,
      pow_succ', Nat.mod_mul]

theorem load_eq_iff (m m' : Bytes) (a n : ℕ) :
    load m' a n = load m a n ↔ ∀ b, a ≤ b → b < a + n → m' b = m b := by
  refine ⟨fun h => ?_, load_congr⟩
  induction n generalizing a with
  | zero =>
    intro b hb hn
    omega
  | succ n ih =>
    have hb := (m a).isLt
    have hb' := (m' a).isLt
    rw [load, load] at h
    have htail : load m' (a + 1) n = load m (a + 1) n := by omega
    intro b hab hbn
    by_cases hba : b = a
    · subst hba
      apply BitVec.eq_of_toNat_eq
      omega
    · exact ih (a + 1) htail b (by omega) (by omega)

/-! Sums and products of words of 32 bits that are taken in 64 bits. -/

theorem widen_toNat (a : BitVec 32) : (a.setWidth 64).toNat = a.toNat := by
  have ha := a.isLt
  rw [BitVec.toNat_setWidth]
  exact Nat.mod_eq_of_lt (by omega)

theorem widen_inj {a b : BitVec 32} : a.setWidth 64 = b.setWidth 64 ↔ a = b := by
  constructor
  · intro h
    have hnat := congrArg BitVec.toNat h
    rw [widen_toNat, widen_toNat] at hnat
    exact BitVec.eq_of_toNat_eq hnat
  · intro h
    rw [h]

theorem widen_narrow (a : BitVec 32) : (a.setWidth 64).setWidth 32 = a := by
  apply BitVec.eq_of_toNat_eq
  rw [BitVec.toNat_setWidth, widen_toNat, Nat.mod_eq_of_lt a.isLt]

theorem widen_add {a b : BitVec 32} (h : a.toNat + b.toNat < 2 ^ 32) :
    (a + b).setWidth 64 = a.setWidth 64 + b.setWidth 64 := by
  apply BitVec.eq_of_toNat_eq
  rw [widen_toNat, BitVec.toNat_add, BitVec.toNat_add, widen_toNat, widen_toNat,
    Nat.mod_eq_of_lt h, Nat.mod_eq_of_lt (Nat.lt_trans h (by decide))]

theorem widen_mul {a b : BitVec 32} (h : a.toNat * b.toNat < 2 ^ 32) :
    (a * b).setWidth 64 = a.setWidth 64 * b.setWidth 64 := by
  apply BitVec.eq_of_toNat_eq
  rw [widen_toNat, BitVec.toNat_mul, BitVec.toNat_mul, widen_toNat, widen_toNat,
    Nat.mod_eq_of_lt h, Nat.mod_eq_of_lt (Nat.lt_trans h (by decide))]

theorem widen_lt {a b : BitVec 32} (h : a < b) : a.setWidth 64 < b.setWidth 64 := by
  rw [BitVec.lt_def] at h ⊢
  rw [widen_toNat, widen_toNat]
  exact h

theorem narrow_widen {a : BitVec 64} (h : a.toNat < 2 ^ 32) : (a.setWidth 32).setWidth 64 = a := by
  apply BitVec.eq_of_toNat_eq
  rw [widen_toNat, BitVec.toNat_setWidth, Nat.mod_eq_of_lt h]

/-!
Writes that must stay inside a buffer, the fields of a structure, and strings that end in a zero.
-/

structure Buffer where
  start : BitVec 64
  size : BitVec 64

structure Field where
  offset : ℕ
  width : ℕ
  value : ℕ

def copy (m : Bytes) (a : ℕ) : List (BitVec 8) → Bytes
  | [] => m
  | b :: bytes => copy (Function.update m a b) (a + 1) bytes

def alignUp (value align : BitVec 64) : BitVec 64 := value + (align - 1) &&& ~~~(align - 1)

def stringAt (m : Bytes) (a : ℕ) : List (BitVec 8) → Bool
  | [] => m a == 0
  | c :: string => m a == c && stringAt m (a + 1) string

def bytesAt (m : Bytes) (a : ℕ) : ℕ → List (BitVec 8)
  | 0 => []
  | n + 1 => m a :: bytesAt m (a + 1) n

namespace Buffer

def Holds (buf : Buffer) (a n : ℕ) : Prop :=
  buf.start.toNat ≤ a ∧ a + n ≤ buf.start.toNat + buf.size.toNat

instance (buf : Buffer) (a n : ℕ) : Decidable (buf.Holds a n) :=
  inferInstanceAs (Decidable (_ ∧ _))

def write (buf : Buffer) (m : Bytes) (a : BitVec 64) (n v : ℕ) : Option Bytes :=
  if buf.Holds a.toNat n then some (store m a.toNat n v) else none

def writeFields (buf : Buffer) (m : Bytes) (base : BitVec 64) : List Field → Option Bytes
  | [] => some m
  | f :: fields =>
    match buf.write m (base + BitVec.ofNat 64 f.offset) f.width f.value with
    | none => none
    | some m => writeFields buf m base fields

def writeBytes (buf : Buffer) (m : Bytes) (a : BitVec 64) (bytes : List (BitVec 8)) :
    Option Bytes :=
  if bytes = [] ∨ buf.Holds a.toNat bytes.length then some (copy m a.toNat bytes) else none

end Buffer

theorem copy_apply_of_lt (m : Bytes) (a : ℕ) (bytes : List (BitVec 8)) (b : ℕ) (h : b < a) :
    copy m a bytes b = m b := by
  induction bytes generalizing m a with
  | nil => rfl
  | cons c bytes ih =>
    rw [copy, ih _ _ (by omega), Function.update_of_ne (by omega)]

theorem copy_apply_of_ge (m : Bytes) (a : ℕ) (bytes : List (BitVec 8)) (b : ℕ)
    (h : a + bytes.length ≤ b) : copy m a bytes b = m b := by
  induction bytes generalizing m a with
  | nil => rfl
  | cons c bytes ih =>
    rw [List.length_cons] at h
    rw [copy, ih _ _ (by omega), Function.update_of_ne (by omega)]

theorem bytesAt_length (m : Bytes) (a n : ℕ) : (bytesAt m a n).length = n := by
  induction n generalizing a with
  | zero => rfl
  | succ n ih => rw [bytesAt, List.length_cons, ih]

theorem bytesAt_add (m : Bytes) (a n k : ℕ) :
    bytesAt m a (n + k) = bytesAt m a n ++ bytesAt m (a + n) k := by
  induction n generalizing a with
  | zero => rw [Nat.zero_add, Nat.add_zero, bytesAt, List.nil_append]
  | succ n ih =>
    have hstart : a + 1 + n = a + (n + 1) := by omega
    rw [Nat.succ_add, bytesAt, bytesAt, ih, hstart, List.cons_append]

theorem bytesAt_congr {m m' : Bytes} {a n : ℕ} (h : ∀ b, a ≤ b → b < a + n → m' b = m b) :
    bytesAt m' a n = bytesAt m a n := by
  induction n generalizing a with
  | zero => rfl
  | succ n ih =>
    have htail := ih (a := a + 1) (fun b hb hn => h b (by omega) (by omega))
    rw [bytesAt, bytesAt, h a (by omega) (by omega), htail]

theorem bytesAt_copy (m : Bytes) (a : ℕ) (bytes : List (BitVec 8)) :
    bytesAt (copy m a bytes) a bytes.length = bytes := by
  induction bytes generalizing m a with
  | nil => rfl
  | cons b bytes ih =>
    rw [List.length_cons, bytesAt, copy, ih, copy_apply_of_lt _ _ _ _ (by omega),
      Function.update_self]

theorem bytesAt_copy_append (m : Bytes) (a n : ℕ) (bytes : List (BitVec 8)) :
    bytesAt (copy m (a + n) bytes) a (n + bytes.length) = bytesAt m a n ++ bytes := by
  have hfront : bytesAt (copy m (a + n) bytes) a n = bytesAt m a n := by
    apply bytesAt_congr
    intro b _ hb
    exact copy_apply_of_lt _ _ _ _ (by omega)
  rw [bytesAt_add, hfront, bytesAt_copy]

theorem and_not_toNat (y : BitVec 64) {k : ℕ} (hk : k < 64) :
    (y &&& ~~~(BitVec.ofNat 64 (2 ^ k) - 1)).toNat = y.toNat / 2 ^ k * 2 ^ k := by
  have hpow : 2 ^ k < 2 ^ 64 := Nat.pow_lt_pow_right (by omega) hk
  have hmask : BitVec.ofNat 64 (2 ^ k) - 1 = BitVec.ofNat 64 (2 ^ k - 1) := by
    have hpos : 0 < 2 ^ k := Nat.two_pow_pos k
    have hone : (1 : BitVec 64).toNat = 1 := by decide
    apply BitVec.eq_of_toNat_eq
    rw [BitVec.toNat_sub, BitVec.toNat_ofNat, BitVec.toNat_ofNat, hone]
    omega
  have hle : y.toNat / 2 ^ k * 2 ^ k ≤ y.toNat := Nat.div_mul_le_self _ _
  have hlt := y.isLt
  rw [hmask]
  apply Nat.eq_of_testBit_eq
  intro i
  rw [BitVec.testBit_toNat, BitVec.getLsbD_and, BitVec.getLsbD_not, BitVec.getLsbD_ofNat,
    Nat.testBit_two_pow_sub_one, Nat.testBit_mul_two_pow, Nat.testBit_div_two_pow,
    BitVec.testBit_toNat]
  by_cases hi : i < 64
  · by_cases hik : k ≤ i
    · have hnlt : ¬i < k := by omega
      simp only [hi, hik, hnlt, decide_true, decide_false, Bool.true_and, Bool.not_false,
        Bool.and_true, Nat.sub_add_cancel hik]
    · have hlt' : i < k := by omega
      simp only [hi, hik, hlt', decide_true, decide_false, Bool.and_true, Bool.not_true,
        Bool.and_false, Bool.false_and]
  · have hge : y.getLsbD i = false := BitVec.getLsbD_of_ge y i (by omega)
    by_cases hik : k ≤ i
    · simp only [hge, Bool.false_and, Nat.sub_add_cancel hik, Bool.and_false]
    · omega

theorem alignUp_toNat (x : BitVec 64) {k : ℕ} (hk : k < 64) :
    (alignUp x (BitVec.ofNat 64 (2 ^ k))).toNat =
      (x.toNat + (2 ^ k - 1)) % 2 ^ 64 / 2 ^ k * 2 ^ k := by
  have hpow : 2 ^ k < 2 ^ 64 := Nat.pow_lt_pow_right (by omega) hk
  have hpos : 0 < 2 ^ k := Nat.two_pow_pos k
  have hone : (1 : BitVec 64).toNat = 1 := by decide
  have hsum : (x + (BitVec.ofNat 64 (2 ^ k) - 1)).toNat = (x.toNat + (2 ^ k - 1)) % 2 ^ 64 := by
    rw [BitVec.toNat_add, BitVec.toNat_sub, BitVec.toNat_ofNat, hone]
    omega
  rw [alignUp, and_not_toNat _ hk, hsum]

theorem alignUp_bounds (x : BitVec 64) {k : ℕ} (hk : k < 64) (hx : x.toNat + 2 ^ k ≤ 2 ^ 64) :
    x.toNat ≤ (alignUp x (BitVec.ofNat 64 (2 ^ k))).toNat ∧
      (alignUp x (BitVec.ofNat 64 (2 ^ k))).toNat < x.toNat + 2 ^ k := by
  have hpos : 0 < 2 ^ k := Nat.two_pow_pos k
  rw [alignUp_toNat x hk, Nat.mod_eq_of_lt (by omega)]
  have hdiv := Nat.div_add_mod (x.toNat + (2 ^ k - 1)) (2 ^ k)
  have hmod := Nat.mod_lt (x.toNat + (2 ^ k - 1)) hpos
  rw [Nat.mul_comm] at hdiv
  omega

theorem alignUp_ge (x : BitVec 64) {k : ℕ} (hk : k < 64) :
    x.toNat ≤ (alignUp x (BitVec.ofNat 64 (2 ^ k))).toNat ∨
      alignUp x (BitVec.ofNat 64 (2 ^ k)) = 0 := by
  have hpow : 2 ^ k < 2 ^ 64 := Nat.pow_lt_pow_right (by omega) hk
  have hx := x.isLt
  by_cases hwrap : x.toNat + 2 ^ k ≤ 2 ^ 64
  · exact Or.inl (alignUp_bounds x hk hwrap).1
  · right
    apply BitVec.eq_of_toNat_eq
    rw [alignUp_toNat x hk, Nat.div_eq_of_lt (by omega), Nat.zero_mul]
    rfl

theorem alignUp_dvd (x : BitVec 64) {k : ℕ} (hk : k < 64) :
    2 ^ k ∣ (alignUp x (BitVec.ofNat 64 (2 ^ k))).toNat := by
  rw [alignUp_toNat x hk]
  exact Nat.dvd_mul_left _ _

theorem alignUp_zero {k : ℕ} (hk : k < 64) : alignUp 0 (BitVec.ofNat 64 (2 ^ k)) = 0 := by
  have hpow : 2 ^ k < 2 ^ 64 := Nat.pow_lt_pow_right (by omega) hk
  have hpos : 0 < 2 ^ k := Nat.two_pow_pos k
  have hzero : (0 : BitVec 64).toNat = 0 := by decide
  apply BitVec.eq_of_toNat_eq
  rw [alignUp_toNat 0 hk, hzero, Nat.div_eq_of_lt (by omega), Nat.zero_mul]

theorem signExtend_pow {k : ℕ} (hk : k < 31) :
    (BitVec.ofNat 32 (2 ^ k)).signExtend 64 = BitVec.ofNat 64 (2 ^ k) := by
  have hpow : 2 ^ k < 2 ^ 31 := Nat.pow_lt_pow_right (by omega) hk
  generalize 2 ^ k = n at *
  have hmsb : (BitVec.ofNat 32 n).msb = false := by
    rw [BitVec.msb_eq_false_iff_two_mul_lt, BitVec.toNat_ofNat]
    omega
  rw [BitVec.signExtend_eq_setWidth_of_msb_false hmsb]
  apply BitVec.eq_of_toNat_eq
  rw [BitVec.toNat_setWidth, BitVec.toNat_ofNat, BitVec.toNat_ofNat]
  omega

section Frame

variable {buf : Buffer} {m m' : Bytes} {base : BitVec 64}

theorem Buffer.write_eq {a : BitVec 64} {n v : ℕ} (h : buf.write m a n v = some m') :
    buf.Holds a.toNat n ∧ m' = store m a.toNat n v := by
  rw [Buffer.write] at h
  split at h
  · exact ⟨‹_›, (Option.some_inj.mp h).symm⟩
  · cases h

theorem Buffer.writeFields_cons {f : Field} {fields : List Field}
    (h : buf.writeFields m base (f :: fields) = some m') :
    buf.Holds (base + BitVec.ofNat 64 f.offset).toNat f.width ∧
      buf.writeFields (store m (base + BitVec.ofNat 64 f.offset).toNat f.width f.value) base fields =
        some m' := by
  rw [Buffer.writeFields] at h
  cases hw : buf.write m (base + BitVec.ofNat 64 f.offset) f.width f.value with
  | none =>
    rw [hw] at h
    cases h
  | some m₁ =>
    obtain ⟨hholds, rfl⟩ := Buffer.write_eq hw
    rw [hw] at h
    exact ⟨hholds, h⟩

theorem Buffer.writeFields_other {fields : List Field} (h : buf.writeFields m base fields = some m')
    {n : ℕ} (hsize : ∀ f ∈ fields, f.offset + f.width ≤ n) (hbase : base.toNat + n < 2 ^ 64)
    {b : ℕ} (hb : b < base.toNat ∨ base.toNat + n ≤ b) : m' b = m b := by
  induction fields generalizing m with
  | nil =>
    rw [Buffer.writeFields, Option.some_inj] at h
    rw [h]
  | cons f fields ih =>
    obtain ⟨-, hrest⟩ := Buffer.writeFields_cons h
    have hf := hsize f List.mem_cons_self
    have hadd : (base + BitVec.ofNat 64 f.offset).toNat = base.toNat + f.offset := by
      rw [BitVec.toNat_add, BitVec.toNat_ofNat]
      omega
    rw [ih hrest (fun g hg => hsize g (List.mem_cons_of_mem _ hg)),
      store_apply_of_ne _ _ _ _ _ (by omega)]

theorem Buffer.load_writeFields_of_disjoint {fields : List Field}
    (h : buf.writeFields m base fields = some m') {a n : ℕ}
    (hapart : ∀ f ∈ fields, base.toNat + f.offset < 2 ^ 64 ∧
      (a + n ≤ base.toNat + f.offset ∨ base.toNat + f.offset + f.width ≤ a)) :
    load m' a n = load m a n := by
  induction fields generalizing m with
  | nil =>
    rw [Buffer.writeFields, Option.some_inj] at h
    rw [h]
  | cons f fields ih =>
    obtain ⟨-, hrest⟩ := Buffer.writeFields_cons h
    obtain ⟨hlt, hf⟩ := hapart f List.mem_cons_self
    have hadd : (base + BitVec.ofNat 64 f.offset).toNat = base.toNat + f.offset := by
      rw [BitVec.toNat_add, BitVec.toNat_ofNat]
      omega
    rw [ih hrest (fun g hg => hapart g (List.mem_cons_of_mem _ hg)),
      load_store_of_disjoint _ _ _ _ _ _ (by omega)]

theorem Buffer.load_writeFields {fields : List Field} (h : buf.writeFields m base fields = some m')
    (hlt : ∀ f ∈ fields, base.toNat + f.offset < 2 ^ 64)
    (hapart : fields.Pairwise fun f g => f.offset + f.width ≤ g.offset ∨ g.offset + g.width ≤ f.offset)
    {f : Field} (hf : f ∈ fields) :
    load m' (base.toNat + f.offset) f.width = f.value % 256 ^ f.width := by
  induction fields generalizing m with
  | nil => cases hf
  | cons g fields ih =>
    obtain ⟨-, hrest⟩ := Buffer.writeFields_cons h
    rw [List.pairwise_cons] at hapart
    rcases List.mem_cons.mp hf with rfl | hf
    · have hadd : (base + BitVec.ofNat 64 f.offset).toNat = base.toNat + f.offset := by
        have := hlt f List.mem_cons_self
        rw [BitVec.toNat_add, BitVec.toNat_ofNat]
        omega
      rw [Buffer.load_writeFields_of_disjoint hrest, hadd, load_store]
      intro g hg
      have := hapart.1 g hg
      exact ⟨hlt g (List.mem_cons_of_mem _ hg), by omega⟩
    · exact ih hrest (fun g hg => hlt g (List.mem_cons_of_mem _ hg)) hapart.2 hf

theorem Buffer.exists_writeFields {fields : List Field}
    (h : ∀ f ∈ fields, buf.Holds (base + BitVec.ofNat 64 f.offset).toNat f.width) :
    ∃ m', buf.writeFields m base fields = some m' := by
  induction fields generalizing m with
  | nil => exact ⟨m, rfl⟩
  | cons f fields ih =>
    rw [Buffer.writeFields, Buffer.write, if_pos (h f List.mem_cons_self)]
    exact ih (fun g hg => h g (List.mem_cons_of_mem _ hg))

theorem Buffer.writeBytes_holds {a : BitVec 64} {bytes : List (BitVec 8)}
    (h : buf.writeBytes m a bytes = some m') : bytes = [] ∨ buf.Holds a.toNat bytes.length := by
  rw [Buffer.writeBytes] at h
  split at h
  · assumption
  · cases h

theorem Buffer.writeBytes_other {a : BitVec 64} {bytes : List (BitVec 8)}
    (h : buf.writeBytes m a bytes = some m') {b : ℕ} (hb : b < a.toNat ∨ bytes = []) :
    m' b = m b := by
  rw [Buffer.writeBytes] at h
  split at h
  · rw [← Option.some_inj.mp h]
    rcases hb with hb | rfl
    · exact copy_apply_of_lt m _ bytes b hb
    · rfl
  · cases h

end Frame

end Awn.Memory
