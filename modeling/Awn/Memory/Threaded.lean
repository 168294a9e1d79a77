import Mathlib.Data.List.Basic
import Mathlib.Data.Nat.Notation
import Mathlib.Logic.Function.Basic

/-! Lists that are threaded through memory, by a word at the address of each of their elements. -/

namespace Awn.Memory

variable {A : Type*}

def Threaded (memory : A → A) : A → List A → A → Prop
  | start, [], stop => start = stop
  | start, a :: rest, stop => start = a ∧ Threaded memory (memory a) rest stop

variable {memory memory' : A → A} {start stop a : A} {xs ys : List A}

theorem Threaded.congr (h : Threaded memory start xs stop)
    (heq : ∀ x ∈ xs, memory' x = memory x) : Threaded memory' start xs stop := by
  induction xs generalizing start with
  | nil => exact h
  | cons x xs ih =>
    obtain ⟨hstart, hrest⟩ := h
    refine ⟨hstart, ?_⟩
    rw [heq x List.mem_cons_self]
    exact ih hrest fun y hy => heq y (List.mem_cons_of_mem x hy)

variable [DecidableEq A]

theorem Threaded.update (h : Threaded memory start xs stop) (ha : a ∉ xs) (value : A) :
    Threaded (Function.update memory a value) start xs stop := by
  apply h.congr
  intro x hx
  have hne : x ≠ a := by
    rintro rfl
    exact ha hx
  exact Function.update_of_ne hne _ _

theorem Threaded.cons (h : Threaded memory start xs stop) (ha : a ∉ xs) :
    Threaded (Function.update memory a start) a (a :: xs) stop := by
  refine ⟨rfl, ?_⟩
  rw [Function.update_self]
  exact h.update ha start

def linkArray (element : ℕ → A) (memory : A → A) : ℕ → A → A
  | 0 => memory
  | i + 1 => Function.update (linkArray element memory i) (element i) (element (i + 1))

section LinkArray

variable (memory : A → A) {element : ℕ → A} {n : ℕ}
  (hinj : ∀ i < n, ∀ j < n, element i = element j → i = j)

include hinj

theorem linkArray_of_lt {i m : ℕ} (hm : m ≤ n) (hi : i < m) :
    linkArray element memory m (element i) = element (i + 1) := by
  induction m with
  | zero => omega
  | succ m ih =>
    rw [linkArray]
    by_cases him : i = m
    · rw [him, Function.update_self]
    · rw [Function.update_of_ne, ih (by omega) (by omega)]
      intro heq
      exact him (hinj i (by omega) m (by omega) heq)

theorem linkArray_of_ge {i m : ℕ} (hi : i < n) (hmi : m ≤ i) :
    linkArray element memory m (element i) = memory (element i) := by
  induction m with
  | zero => rfl
  | succ m ih =>
    rw [linkArray, Function.update_of_ne, ih (by omega)]
    intro heq
    have hsame := hinj i hi m (by omega) heq
    omega

theorem threaded_linkArray_from {i m : ℕ} (him : i + (m + 1) = n) :
    Threaded (linkArray element memory (n - 1)) (element i)
      ((List.range' i (m + 1)).map element) (memory (element (n - 1))) := by
  induction m generalizing i with
  | zero =>
    refine ⟨rfl, ?_⟩
    rw [show n - 1 = i by omega]
    exact linkArray_of_ge memory hinj (by omega) (Nat.le_refl i)
  | succ m ih =>
    rw [List.range'_succ, List.map_cons]
    refine ⟨rfl, ?_⟩
    rw [linkArray_of_lt memory hinj (by omega) (by omega)]
    exact ih (by omega)

theorem threaded_linkArray (hn : 0 < n) :
    Threaded (linkArray element memory (n - 1)) (element 0) ((List.range n).map element)
      (memory (element (n - 1))) := by
  obtain ⟨m, rfl⟩ := Nat.exists_eq_succ_of_ne_zero (Nat.pos_iff_ne_zero.mp hn)
  rw [List.range_eq_range']
  exact threaded_linkArray_from memory hinj (Nat.zero_add (m + 1))

end LinkArray

end Awn.Memory
