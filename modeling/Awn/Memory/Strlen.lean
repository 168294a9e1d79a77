import Mathlib.Data.Nat.Notation
import Mathlib.Order.Basic

/-! Strings in memory up to their terminator. -/

namespace Awn.Memory

def strlen (memory : ℕ → BitVec 8) : ℕ → ℕ → Option ℕ
  | 0, _ => none
  | fuel + 1, string =>
    if memory string ≠ 0 then (strlen memory fuel (string + 1)).map (· + 1) else some 0

def IsString (memory : ℕ → BitVec 8) (string size : ℕ) : Prop :=
  (∀ i < size, memory (string + i) ≠ 0) ∧ memory (string + size) = 0

structure HoldsText (memory : ℕ → BitVec 8) (string : ℕ) (text : List (BitVec 8)) : Prop where
  get : ∀ i, (hi : i < text.length) → memory (string + i) = text[i]
  nul : memory (string + text.length) = 0

variable {memory : ℕ → BitVec 8} {string size fuel : ℕ} {text : List (BitVec 8)}

theorem HoldsText.isString (h : HoldsText memory string text) (htext : ∀ c ∈ text, c ≠ 0) :
    IsString memory string text.length := by
  refine ⟨?_, h.nul⟩
  intro i hi
  rw [h.get i hi]
  exact htext _ (List.getElem_mem hi)

theorem HoldsText.head {c : BitVec 8} (h : HoldsText memory string (c :: text)) :
    memory string = c :=
  h.get 0 (Nat.succ_pos _)

theorem HoldsText.tail {c : BitVec 8} (h : HoldsText memory string (c :: text)) :
    HoldsText memory (string + 1) text where
  get i hi := by
    rw [Nat.add_right_comm]
    exact h.get (i + 1) (Nat.succ_lt_succ hi)
  nul := by
    rw [Nat.add_right_comm]
    exact h.nul

theorem IsString.nul (h : IsString memory string 0) : memory string = 0 := h.2

theorem IsString.first (h : IsString memory string (size + 1)) : memory string ≠ 0 :=
  h.1 0 (Nat.succ_pos size)

theorem IsString.drop (h : IsString memory string size) {n : ℕ} (hn : n ≤ size) :
    IsString memory (string + n) (size - n) := by
  obtain ⟨hne, hend⟩ := h
  constructor
  · intro i hi
    rw [Nat.add_assoc]
    exact hne (n + i) (by omega)
  · rw [Nat.add_assoc, Nat.add_sub_cancel' hn]
    exact hend

theorem IsString.tail (h : IsString memory string (size + 1)) : IsString memory (string + 1) size :=
  h.drop (n := 1) (by omega)

theorem strlen_eq (h : IsString memory string size) (hfuel : size < fuel) :
    strlen memory fuel string = some size := by
  induction size generalizing string fuel with
  | zero =>
    obtain ⟨fuel, rfl⟩ := Nat.exists_eq_succ_of_ne_zero (Nat.ne_of_gt hfuel)
    rw [strlen, if_neg (not_not.mpr h.nul)]
  | succ size ih =>
    obtain ⟨fuel, rfl⟩ := Nat.exists_eq_succ_of_ne_zero (Nat.ne_of_gt (Nat.zero_lt_of_lt hfuel))
    rw [strlen, if_pos h.first, ih h.tail (by omega)]
    rfl

end Awn.Memory
