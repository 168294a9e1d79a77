import Mathlib.Data.List.Lex
import Mathlib.Data.List.TakeWhile

/-! `vp::util::FixedString`: a string in an array of its own. -/

namespace Awn

abbrev CString := { bytes : List (BitVec 8) // ∀ c ∈ bytes, c ≠ 0 }

structure FixedString (Size : ℕ) where
  m_string_array : List (BitVec 8)
  m_length : BitVec 32

namespace FixedString

variable {Size : ℕ}

def create (Size : ℕ) : FixedString Size := ⟨List.replicate Size 0, 0⟩

/-- `operator=(const char *)`, or `none` where `memcpy` writes behind the array. The terminator
goes one place too far; in the last place it is `AssureTermination` that sets it. -/
def assign (s : FixedString Size) (rhs : Option CString) : Option (FixedString Size) :=
  match rhs with
  | none => some ⟨s.m_string_array.set 0 0, 0⟩
  | some string =>
    let len := string.1.length
    if Size ≤ len then none
    else
      let array := (string.1 ++ s.m_string_array.drop len).set (len + 1) 0
      some ⟨array.set (Size - 1) 0, BitVec.ofNat 32 len⟩

def clear (s : FixedString Size) : FixedString Size := ⟨s.m_string_array.set 0 0, 0⟩

def getString (s : FixedString Size) : List (BitVec 8) := s.m_string_array.takeWhile (· ≠ 0)

def Ends (s : FixedString Size) : Option CString → Prop
  | none => True
  | some string => string.1.length < Size ∧ s.m_string_array[string.1.length]? = some 0

theorem takeWhile_ne_zero (string rest : List (BitVec 8)) (h : ∀ c ∈ string, c ≠ 0) :
    (string ++ 0 :: rest).takeWhile (· ≠ 0) = string := by
  rw [List.takeWhile_append_of_pos (by simpa using h)]
  simp

theorem getString_assign {s : FixedString Size} {rhs : Option CString} (h : s.Ends rhs) :
    ∃ s', s.assign rhs = some s' ∧ s'.getString = (rhs.map Subtype.val).getD [] := by
  cases rhs with
  | none =>
    refine ⟨_, rfl, ?_⟩
    cases s.m_string_array with
    | nil => rfl
    | cons c rest => simp [getString]
  | some string =>
    obtain ⟨hlt, hzero⟩ := h
    refine ⟨_, by rw [assign]; exact if_neg (by omega), ?_⟩
    obtain ⟨hbound, hget⟩ := List.getElem?_eq_some_iff.mp hzero
    have hdrop : s.m_string_array.drop string.1.length =
        0 :: s.m_string_array.drop (string.1.length + 1) := by
      rw [List.drop_eq_getElem_cons hbound, hget]
    have hset : ∃ rest, ((string.1 ++ s.m_string_array.drop string.1.length).set
        (string.1.length + 1) 0).set (Size - 1) 0 = string.1 ++ 0 :: rest := by
      rw [hdrop, List.set_append_right _ _ (by omega), List.set_append_right _ _ (by omega)]
      rcases Nat.eq_zero_or_pos (Size - 1 - string.1.length) with hlast | hlast
      · rw [hlast]
        exact ⟨_, by simp; rfl⟩
      · obtain ⟨n, hn⟩ := Nat.exists_eq_succ_of_ne_zero (Nat.pos_iff_ne_zero.mp hlast)
        rw [hn]
        exact ⟨_, by simp; rfl⟩
    obtain ⟨rest, hrest⟩ := hset
    rw [getString]
    simp only [hrest]
    exact takeWhile_ne_zero _ _ string.2

/-- A shorter string takes over a byte of the one before it. -/
example : (((create 260).assign (some ⟨[0x61, 0x62], by decide⟩)).bind fun s =>
    (s.assign (some ⟨[0x63], by decide⟩)).map getString) = some [0x63, 0x62] := by
  decide

end FixedString

/-! `strcmp`, of whose result only the sign is promised. -/

def CString.codes (s : CString) : List ℕ := s.1.map BitVec.toNat

theorem CString.codes_injective : Function.Injective CString.codes := by
  intro a b h
  apply Subtype.ext
  exact List.map_injective_iff.mpr (fun _ _ => BitVec.eq_of_toNat_eq) h

structure Conforming (strcmp : CString → CString → BitVec 32) : Prop where
  zero : ∀ a b, strcmp a b = 0 ↔ a = b
  negative : ∀ a b, (strcmp a b).toInt < 0 ↔ a.codes < b.codes

namespace Conforming

variable {strcmp : CString → CString → BitVec 32} (h : Conforming strcmp) {a b : CString}
include h

theorem ne_zero_of_lt (hlt : a.codes < b.codes) : strcmp a b ≠ 0 := by
  intro hz
  rw [(h.zero a b).mp hz] at hlt
  exact lt_irrefl _ hlt

theorem positive (hlt : b.codes < a.codes) : 0 < (strcmp a b).toInt := by
  have hneg := (h.negative a b).not.mpr (lt_asymm hlt)
  have hzero : (strcmp a b).toInt ≠ 0 := by
    intro hz
    have hnull : strcmp a b = 0 := BitVec.eq_of_toInt_eq hz
    rw [(h.zero a b).mp hnull] at hlt
    exact lt_irrefl _ hlt
  omega

end Conforming

def byteDifference : List (BitVec 8) → List (BitVec 8) → BitVec 32
  | [], [] => 0
  | [], b :: _ => 0 - b.setWidth 32
  | a :: _, [] => a.setWidth 32
  | a :: as, b :: bs => if a = b then byteDifference as bs else a.setWidth 32 - b.setWidth 32

theorem sub_toInt (a b : BitVec 8) :
    (a.setWidth 32 - b.setWidth 32 : BitVec 32).toInt = (a.toNat : ℤ) - b.toNat := by
  have ha := a.isLt
  have hb := b.isLt
  rw [BitVec.toInt_sub, BitVec.toInt_setWidth, BitVec.toInt_setWidth]
  simp only [Int.bmod]
  omega

theorem byteDifference_spec (a b : List (BitVec 8)) (ha : ∀ c ∈ a, c ≠ 0) (hb : ∀ c ∈ b, c ≠ 0) :
    ((byteDifference a b).toInt = 0 ↔ a = b) ∧
      ((byteDifference a b).toInt < 0 ↔ a.map BitVec.toNat < b.map BitVec.toNat) := by
  have hpos : ∀ {c : BitVec 8}, c ≠ 0 → 0 < c.toNat := by
    intro c hc
    exact Nat.pos_of_ne_zero fun hz => hc (BitVec.eq_of_toNat_eq hz)
  fun_induction byteDifference a b with
  | case1 => exact ⟨by decide, by simp⟩
  | case2 b bs =>
    have hsub := sub_toInt 0 b
    have := hpos (hb b List.mem_cons_self)
    have hzero : (0 : BitVec 8).setWidth 32 = (0 : BitVec 32) := rfl
    rw [hzero] at hsub
    rw [hsub]
    simp
    omega
  | case3 a as =>
    have hsub := sub_toInt a 0
    have := hpos (ha a List.mem_cons_self)
    have hzero : a.setWidth 32 - (0 : BitVec 8).setWidth 32 = a.setWidth 32 := BitVec.sub_zero _
    rw [hzero] at hsub
    rw [hsub]
    simp
    omega
  | case4 as b bs ih =>
    have ih := ih (fun c hc => ha c (List.mem_cons_of_mem _ hc))
      (fun c hc => hb c (List.mem_cons_of_mem _ hc))
    rw [List.map_cons, List.map_cons, List.cons_lt_cons_iff]
    simpa using ih
  | case5 a as b bs hne =>
    have hne' : a.toNat ≠ b.toNat := fun h => hne (BitVec.eq_of_toNat_eq h)
    rw [sub_toInt, List.map_cons, List.map_cons, List.cons_lt_cons_iff]
    constructor
    · have hsub : (a.toNat : ℤ) - b.toNat ≠ 0 := by omega
      exact iff_of_false hsub fun h => hne (List.cons.inj h).1
    · rw [or_iff_left fun h => hne' h.1]
      omega

theorem byteDifference_conforming : Conforming fun a b => byteDifference a.1 b.1 where
  zero a b := by
    rw [Subtype.ext_iff, ← (byteDifference_spec a.1 b.1 a.2 b.2).1]
    exact ⟨fun h => congrArg BitVec.toInt h, fun h => BitVec.eq_of_toInt_eq h⟩
  negative a b := (byteDifference_spec a.1 b.1 a.2 b.2).2

end Awn
