import Mathlib.Data.List.TakeWhile

/-! A search that goes around an array once, from a place in it. -/

namespace Awn.Circular

def next (size i : ℕ) : ℕ := if i + 1 < size then i + 1 else 0

/-- The outer `none` is out of fuel, the inner one stands for a search that has come around. -/
def search (p : ℕ → Bool) (size base : ℕ) : ℕ → ℕ → Option (Option ℕ)
  | 0, _ => none
  | fuel + 1, i =>
    if p i then some (some i)
    else if next size i = base then some none
    else search p size base fuel (next size i)

def order (size base : ℕ) : List ℕ := List.range' base (size - base) ++ List.range base

variable {p q : ℕ → Bool} {size base fuel i : ℕ}

theorem mem_order (hbase : base < size) : i ∈ order size base ↔ i < size := by
  rw [order, List.mem_append, List.mem_range'_1, List.mem_range]
  omega

theorem search_before (hbase : base < size) (hi : i < base) (hfuel : base - i ≤ fuel) :
    search p size base fuel i = some ((List.range' i (base - i)).find? p) := by
  induction fuel generalizing i with
  | zero => omega
  | succ fuel ih =>
    obtain ⟨k, hk⟩ : ∃ k, base - i = k + 1 := ⟨base - i - 1, by omega⟩
    have hnext : next size i = i + 1 := if_pos (by omega)
    rw [search, hk, List.range'_succ, List.find?_cons, hnext]
    cases hp : p i with
    | true => rfl
    | false =>
      simp only [Bool.false_eq_true, if_false]
      by_cases hend : i + 1 = base
      · rw [if_pos hend, show k = 0 by omega]
        rfl
      · rw [if_neg hend, ih (by omega) (by omega), show base - (i + 1) = k by omega]

theorem search_from (hbase : base < size) (hi : base ≤ i) (hlt : i < size)
    (hfuel : size - i + base ≤ fuel) :
    search p size base fuel i =
      some ((List.range' i (size - i) ++ List.range base).find? p) := by
  induction fuel generalizing i with
  | zero => omega
  | succ fuel ih =>
    obtain ⟨k, hk⟩ : ∃ k, size - i = k + 1 := ⟨size - i - 1, by omega⟩
    rw [search, hk, List.range'_succ, List.cons_append, List.find?_cons]
    cases hp : p i with
    | true => rfl
    | false =>
      simp only [Bool.false_eq_true, if_false]
      by_cases hmore : i + 1 < size
      · have hnext : next size i = i + 1 := if_pos hmore
        rw [hnext, if_neg (by omega), ih (by omega) hmore (by omega),
          show size - (i + 1) = k by omega]
      · have hnext : next size i = 0 := if_neg hmore
        rw [hnext, show k = 0 by omega, List.range'_zero, List.nil_append, List.range_eq_range']
        by_cases hzero : 0 = base
        · subst hzero
          rfl
        · rw [if_neg hzero, search_before hbase (by omega) (by omega), Nat.sub_zero]

theorem search_eq (hbase : base < size) (hfuel : size ≤ fuel) :
    search p size base fuel base = some ((order size base).find? p) :=
  search_from hbase (le_refl base) hbase (by omega)

theorem exists_split {xs : List ℕ} (h : xs.find? p = some i) :
    ∃ as bs, xs = as ++ i :: bs ∧ p i = true ∧ ∀ j ∈ as, p j = false := by
  obtain ⟨hi, as, bs, hxs, has⟩ := List.find?_eq_some_iff_append.mp h
  refine ⟨as, bs, hxs, hi, ?_⟩
  intro j hj
  rw [← Bool.not_eq_true']
  exact has j hj

theorem mem_takeWhile_of_imp {xs : List ℕ} (himp : ∀ j, p j = true → q j = true)
    (hi : i ∈ xs.takeWhile p) : i ∈ xs.takeWhile q := by
  induction xs with
  | nil => exact hi
  | cons x xs ih =>
    rw [List.takeWhile_cons] at hi ⊢
    cases hx : p x with
    | false =>
      rw [hx] at hi
      cases hi
    | true =>
      rw [hx] at hi
      rw [himp x hx]
      rcases List.mem_cons.mp hi with rfl | hi
      · exact List.mem_cons_self
      · exact List.mem_cons_of_mem x (ih hi)

theorem takeWhile_split {as bs : List ℕ} (has : ∀ j ∈ as, p j = true) (hi : p i = false) :
    (as ++ i :: bs).takeWhile p = as := by
  rw [List.takeWhile_append_of_pos has, List.takeWhile_cons, hi]
  exact List.append_nil as

end Awn.Circular
