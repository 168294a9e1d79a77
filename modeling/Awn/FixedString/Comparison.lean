import Awn.FixedString.Run
import Awn.Memory.Strcmp

/-! The comparisons of `vp::util::FixedString`. -/

namespace Awn

def memcmp : ℕ → List (BitVec 8) → List (BitVec 8) → ℤ
  | n + 1, a :: as, b :: bs => if a = b then memcmp n as bs else (a.toNat : ℤ) - b.toNat
  | _, _, _ => 0

def strncmp : ℕ → List (BitVec 8) → List (BitVec 8) → ℤ
  | n + 1, a :: as, b :: bs => if a = b then strncmp n as bs else (a.toNat : ℤ) - b.toNat
  | _ + 1, a :: _, [] => a.toNat
  | _ + 1, [], b :: _ => -b.toNat
  | _, _, _ => 0

def TStringCompare : List (BitVec 8) → List (BitVec 8) → ℕ → Bool
  | l :: lhs, r :: rhs, max_size + 1 =>
    if l = r then if l = 0 then true else TStringCompare lhs rhs max_size else false
  | _, _, _ => true

namespace FixedString

variable {Size : ℕ} (is_constant_evaluated : Bool) (s rhs : FixedString Size)

def eq : Bool :=
  if is_constant_evaluated then
    TStringCompare s.m_string_array rhs.m_string_array (TStringLength rhs.getString (Size - 1))
  else if s.m_length ≠ rhs.m_length then false
  else memcmp s.m_length.toNat s.m_string_array rhs.m_string_array = 0

def ne : Bool :=
  if is_constant_evaluated then
    TStringCompare s.m_string_array rhs.m_string_array (TStringLength rhs.getString (Size - 1))
  else decide (s.m_length ≠ rhs.m_length) ||
    decide (memcmp s.m_length.toNat s.m_string_array rhs.m_string_array = 0)

def gt : Bool :=
  if s.m_length ≠ rhs.m_length then false
  else memcmp s.m_length.toNat s.m_string_array rhs.m_string_array < 0

def lt : Bool :=
  if s.m_length ≠ rhs.m_length then false
  else memcmp s.m_length.toNat s.m_string_array rhs.m_string_array > 0

def isSame (string : CString) : Bool := strncmp s.m_length.toNat s.getString string.1 = 0

structure ComparesRight (a b c : FixedString Size) (xs ys : List (BitVec 8)) (string : CString) :
    Prop where
  eq : a.eq false b = true ↔ xs = ys
  ne : a.ne false b = !a.eq false b
  trichotomy : (a.lt b && !a.eq false b && !a.gt b || !a.lt b && a.eq false b && !a.gt b ||
    !a.lt b && !a.eq false b && a.gt b) = true
  trans : a.lt b = true → b.lt c = true → a.lt c = true
  lex : a.lt b = true ↔ xs.map BitVec.toNat < ys.map BitVec.toNat
  agree_eq : a.eq true b = a.eq false b
  agree_ne : a.ne true b = a.ne false b
  isSame : a.isSame string = true ↔ string.1 = xs

/-- Of strings of one length `!=` says what `==` says, and of strings of different lengths none of
`<`, `==` and `>` holds. -/
theorem not_comparesRight (a b c : FixedString Size) (xs ys : List (BitVec 8)) (string : CString) :
    ¬ComparesRight a b c xs ys string := by
  intro h
  by_cases hlen : a.m_length = b.m_length
  · have hne := h.ne
    unfold FixedString.ne FixedString.eq at hne
    rw [if_neg Bool.false_ne_true, if_neg Bool.false_ne_true, if_neg (not_not.mpr hlen),
      decide_eq_false (not_not.mpr hlen), Bool.false_or] at hne
    simp at hne
  · have hone := h.trichotomy
    unfold FixedString.lt FixedString.eq FixedString.gt at hone
    rw [if_pos hlen, if_neg Bool.false_ne_true, if_pos hlen, if_pos hlen] at hone
    exact Bool.false_ne_true hone

theorem equal_not_comparesRight :
    ¬ComparesRight (FixedString.mk [0x61, 0] 1 : FixedString 2) ⟨[0x61, 0], 1⟩ ⟨[0x61, 0], 1⟩
      [0x61] [0x61] ⟨[0x61], by decide⟩ := by
  intro h
  have hne := h.ne
  revert hne
  decide

section Parts

variable {s rhs} {xs ys : List (BitVec 8)}

theorem memcmp_zero_iff {xs ys : List (BitVec 8)} (h : xs.length = ys.length)
    (rest rest' : List (BitVec 8)) :
    memcmp xs.length (xs ++ rest) (ys ++ rest') = 0 ↔ xs = ys := by
  induction xs generalizing ys with
  | nil =>
    cases ys with
    | nil => simp [memcmp]
    | cons y ys => cases h
  | cons x xs ih =>
    cases ys with
    | nil => cases h
    | cons y ys =>
      rw [List.length_cons, List.cons_append, List.cons_append, memcmp]
      split
      · rename_i heq
        rw [ih (Nat.succ.inj h), heq, List.cons_inj_right]
      · rename_i hne
        have hval : x.toNat ≠ y.toNat := fun heq => hne (BitVec.eq_of_toNat_eq heq)
        constructor
        · intro hzero
          omega
        · intro heq
          exact absurd (List.cons.inj heq).1 hne

theorem memcmp_pos_iff {xs ys : List (BitVec 8)} (h : xs.length = ys.length)
    (rest rest' : List (BitVec 8)) :
    0 < memcmp xs.length (xs ++ rest) (ys ++ rest') ↔
      ys.map BitVec.toNat < xs.map BitVec.toNat := by
  induction xs generalizing ys with
  | nil =>
    cases ys with
    | nil => simp [memcmp]
    | cons y ys => cases h
  | cons x xs ih =>
    cases ys with
    | nil => cases h
    | cons y ys =>
      rw [List.length_cons, List.cons_append, List.cons_append, memcmp, List.map_cons,
        List.map_cons, List.cons_lt_cons_iff]
      split
      · rename_i heq
        rw [ih (Nat.succ.inj h), heq]
        simp
      · rename_i hne
        have hval : x.toNat ≠ y.toNat := fun heq => hne (BitVec.eq_of_toNat_eq heq)
        omega

theorem Represents.split (h : s.Represents xs) : ∃ rest, s.m_string_array = xs ++ rest := by
  refine ⟨s.m_string_array.drop xs.length, ?_⟩
  have hsize := h.size
  have hfits := h.fits
  apply List.ext_getElem?
  intro i
  by_cases hi : i < xs.length
  · rw [List.getElem?_append_left hi, h.get i hi]
  · rw [List.getElem?_append_right (by omega), List.getElem?_drop]
    congr 1
    omega

theorem Represents.length_ne_iff (hs : s.Represents xs) (hrhs : rhs.Represents ys) :
    s.m_length ≠ rhs.m_length ↔ xs.length ≠ ys.length := by
  rw [← hs.length, ← hrhs.length, not_iff_not]
  exact BitVec.toNat_inj.symm

theorem Represents.eq_iff (hs : s.Represents xs) (hrhs : rhs.Represents ys) :
    s.eq false rhs = true ↔ xs = ys := by
  have hlength := hs.length_ne_iff hrhs
  obtain ⟨rest, hsplit⟩ := hs.split
  obtain ⟨rest', hsplit'⟩ := hrhs.split
  unfold FixedString.eq
  rw [if_neg Bool.false_ne_true]
  by_cases hlen : xs.length = ys.length
  · rw [if_neg (fun hne => hlength.mp hne hlen), decide_eq_true_iff, hs.length, hsplit, hsplit',
      memcmp_zero_iff hlen]
  · rw [if_pos (hlength.mpr hlen)]
    constructor
    · intro h
      cases h
    · intro h
      exact absurd (congrArg List.length h) hlen

theorem Represents.lt_iff (hs : s.Represents xs) (hrhs : rhs.Represents ys) :
    s.lt rhs = true ↔ xs.length = ys.length ∧ ys.map BitVec.toNat < xs.map BitVec.toNat := by
  have hlength := hs.length_ne_iff hrhs
  obtain ⟨rest, hsplit⟩ := hs.split
  obtain ⟨rest', hsplit'⟩ := hrhs.split
  unfold FixedString.lt
  by_cases hlen : xs.length = ys.length
  · rw [if_neg (fun hne => hlength.mp hne hlen), decide_eq_true_iff, hs.length, hsplit, hsplit',
      gt_iff_lt, memcmp_pos_iff hlen, and_iff_right hlen]
  · rw [if_pos (hlength.mpr hlen)]
    constructor
    · intro h
      cases h
    · intro h
      exact absurd h.1 hlen

theorem strncmp_zero_iff (xs string : List (BitVec 8)) (hstring : ∀ c ∈ xs, c ≠ 0) :
    strncmp xs.length xs string = 0 ↔ xs <+: string := by
  induction xs generalizing string with
  | nil => simp [strncmp]
  | cons x xs ih =>
    rw [List.forall_mem_cons] at hstring
    cases string with
    | nil =>
      have hpos : x.toNat ≠ 0 := fun hzero => hstring.1 (BitVec.eq_of_toNat_eq hzero)
      rw [List.length_cons, strncmp]
      simp [hpos]
    | cons c string =>
      rw [List.length_cons, strncmp, List.cons_prefix_cons]
      split
      · rename_i heq
        rw [ih string hstring.2, and_iff_right heq]
      · rename_i hne
        have hval : x.toNat ≠ c.toNat := fun heq => hne (BitVec.eq_of_toNat_eq heq)
        simp only [hne, false_and, iff_false]
        omega

theorem Represents.isSame_iff (h : s.Represents xs) (string : CString) :
    s.isSame string = true ↔ xs <+: string.1 := by
  rw [isSame, decide_eq_true_iff, h.length, h.getString, strncmp_zero_iff _ _ h.nonzero]

/-- `==` is equality of the characters; `!=` differs from it only for strings of two lengths; `<`
is the reverse of the order of the characters, and holds for strings of one length only; and
`IsSame` holds of every string that goes on behind the characters. -/
theorem Represents.compares_iff (hs : s.Represents xs) (hrhs : rhs.Represents ys) (string : CString) :
    (s.eq false rhs = true ↔ xs = ys) ∧
      (s.ne false rhs = true ↔ (xs.length = ys.length → xs = ys)) ∧
      (s.lt rhs = true ↔ xs.length = ys.length ∧ ys.map BitVec.toNat < xs.map BitVec.toNat) ∧
      (s.isSame string = true ↔ xs <+: string.1) := by
  refine ⟨hs.eq_iff hrhs, ?_, hs.lt_iff hrhs, hs.isSame_iff string⟩
  have heq := hs.eq_iff hrhs
  have hlength := hs.length_ne_iff hrhs
  unfold FixedString.eq at heq
  unfold FixedString.ne
  rw [if_neg Bool.false_ne_true] at heq ⊢
  by_cases hlen : xs.length = ys.length
  · have hsame : ¬s.m_length ≠ rhs.m_length := fun hne => hlength.mp hne hlen
    rw [if_neg hsame] at heq
    rw [decide_eq_false hsame, Bool.false_or, heq]
    exact ⟨fun h _ => h, fun h => h hlen⟩
  · rw [decide_eq_true (hlength.mpr hlen), Bool.true_or]
    exact iff_of_true rfl fun h => absurd h hlen

def letter (c : BitVec 8) : FixedString 2 := ⟨[c, 0], 1⟩

theorem letter_represents {c : BitVec 8} (hc : c ≠ 0) : (letter c).Represents [c] where
  size := rfl
  length := rfl
  fits := Nat.lt_succ_self 1
  get i hi := by
    obtain rfl : i = 0 := Nat.lt_one_iff.mp hi
    rfl
  nul := rfl
  nonzero := List.forall_mem_singleton.mpr hc

theorem Represents.compares_iff_letters :
    ((letter 0x62).ne false (letter 0x61) = true ↔ (1 = 1 → [0x62#8] = [0x61])) ∧
      ((letter 0x62).lt (letter 0x61) = true ↔ 1 = 1 ∧ [0x61] < [0x62]) ∧
      ((letter 0x62).isSame ⟨[0x62, 0x63], by decide⟩ = true ↔ [0x62#8] <+: [0x62, 0x63]) :=
  ((letter_represents (by decide)).compares_iff (letter_represents (by decide)) _).2

end Parts

end FixedString

end Awn
