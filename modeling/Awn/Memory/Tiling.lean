import Mathlib.Data.List.Count
import Mathlib.Data.List.Pairwise

/-! Ranges of numbers that meet every number of a whole range once. -/

namespace Awn.Memory

structure Span where
  first : ℕ
  last : ℕ

def Span.Has (s : Span) (x : ℕ) : Prop := s.first ≤ x ∧ x < s.last

instance (s : Span) (x : ℕ) : Decidable (s.Has x) := inferInstanceAs (Decidable (_ ∧ _))

def Span.Apart (s t : Span) : Prop := s.last ≤ t.first ∨ t.last ≤ s.first

def Tiles (whole : Span) (parts : List Span) : Prop :=
  ∀ x, parts.countP (fun s => s.Has x) = if whole.Has x then 1 else 0

variable {whole s t : Span} {parts parts' rest : List Span}

theorem Tiles.perm (h : Tiles whole parts) (hperm : parts.Perm parts') : Tiles whole parts' := by
  intro x
  rw [← hperm.countP_eq]
  exact h x

theorem tiles_single : Tiles whole [whole] := by
  intro x
  simp [List.countP_cons]

theorem tiles_two {first middle last : ℕ} (hfirst : first ≤ middle) (hlast : middle ≤ last) :
    Tiles ⟨first, last⟩ [⟨first, middle⟩, ⟨middle, last⟩] := by
  intro x
  have hleft : Span.Has ⟨first, middle⟩ x ↔ first ≤ x ∧ x < middle := Iff.rfl
  have hright : Span.Has ⟨middle, last⟩ x ↔ middle ≤ x ∧ x < last := Iff.rfl
  have hwhole : Span.Has ⟨first, last⟩ x ↔ first ≤ x ∧ x < last := Iff.rfl
  simp only [List.countP_cons, List.countP_nil, decide_eq_true_eq]
  split_ifs <;> simp only [hleft, hright, hwhole] at * <;> omega

theorem tiles_nil {n : ℕ} : Tiles ⟨n, n⟩ [] := by
  intro x
  have hempty : ¬Span.Has ⟨n, n⟩ x := fun hx => Nat.not_lt_of_le hx.1 hx.2
  rw [if_neg hempty, List.countP_nil]

theorem tiles_around {a b c d : ℕ} (hab : a ≤ b) (hbc : b ≤ c) (hcd : c ≤ d)
    (hfront : Tiles ⟨a, b⟩ parts) (hback : Tiles ⟨c, d⟩ parts') :
    Tiles ⟨a, d⟩ (parts ++ parts' ++ [⟨b, c⟩]) := by
  intro x
  have hleft := tiles_two hab (Nat.le_trans hbc hcd) x
  have hright := tiles_two hbc hcd x
  simp only [List.countP_append, List.countP_cons, List.countP_nil, hfront x, hback x,
    decide_eq_true_eq] at hleft hright ⊢
  omega

theorem Tiles.replace (hs : Tiles s parts) :
    Tiles whole (parts ++ rest) ↔ Tiles whole (s :: rest) := by
  have hcount (x : ℕ) : (parts ++ rest).countP (fun s => s.Has x) =
      (s :: rest).countP fun s => s.Has x := by
    rw [List.countP_append, List.countP_cons, hs x, Nat.add_comm]
    simp only [decide_eq_true_eq]
  simp only [Tiles, hcount]

theorem Tiles.cut (h : Tiles whole (s :: rest)) (hs : Tiles s parts) :
    Tiles whole (parts ++ rest) :=
  hs.replace.mpr h

theorem Tiles.join (h : Tiles whole (parts ++ rest)) (hs : Tiles s parts) :
    Tiles whole (s :: rest) :=
  hs.replace.mp h

theorem Tiles.drop {first middle last : ℕ} (hfirst : first ≤ middle) (hlast : middle ≤ last)
    (h : Tiles ⟨first, last⟩ (⟨middle, last⟩ :: rest)) : Tiles ⟨first, middle⟩ rest := by
  intro x
  have hx := h x
  have htwo := tiles_two hfirst hlast x
  simp only [List.countP_cons, List.countP_nil] at hx htwo
  rw [← hx] at htwo
  simp only [decide_eq_true_eq] at htwo
  omega

theorem Tiles.has_of_mem (h : Tiles whole parts) (hs : s ∈ parts) {x : ℕ} (hx : s.Has x) :
    whole.Has x := by
  by_contra hnot
  have hzero := h x
  rw [if_neg hnot, List.countP_eq_zero] at hzero
  exact hzero s hs (decide_eq_true hx)

theorem Tiles.within (h : Tiles whole parts) (hs : s ∈ parts) (hne : s.first < s.last) :
    whole.first ≤ s.first ∧ s.last ≤ whole.last := by
  have hfirst := h.has_of_mem hs (x := s.first) ⟨Nat.le_refl _, hne⟩
  have hlast := h.has_of_mem hs (x := s.last - 1) ⟨by omega, by omega⟩
  rw [Span.Has] at hfirst hlast
  omega

theorem Tiles.exists_has (h : Tiles whole parts) {x : ℕ} (hx : whole.Has x) :
    ∃ s ∈ parts, s.Has x := by
  have hone := h x
  rw [if_pos hx] at hone
  obtain ⟨s, hs, hhas⟩ := List.countP_pos_iff.mp (show 0 < _ by rw [hone]; exact Nat.one_pos)
  exact ⟨s, hs, of_decide_eq_true hhas⟩

theorem Tiles.apart_cons (h : Tiles whole (s :: rest)) (hs : s.first < s.last) (ht : t ∈ rest)
    (hne : t.first < t.last) : s.Apart t := by
  by_contra hnot
  rw [Span.Apart] at hnot
  obtain ⟨x, hsx, htx⟩ : ∃ x, s.Has x ∧ t.Has x :=
    ⟨max s.first t.first, ⟨by omega, by omega⟩, by omega, by omega⟩
  have hpos : 0 < rest.countP fun s => s.Has x :=
    List.countP_pos_iff.mpr ⟨t, ht, decide_eq_true htx⟩
  have hcount := h x
  rw [List.countP_cons, if_pos (decide_eq_true hsx)] at hcount
  split at hcount <;> omega

theorem Tiles.eq_single (h : Tiles whole parts) (hwhole : whole.first < whole.last)
    (hsorted : parts.Pairwise fun s t => s.last < t.first) (hne : ∀ s ∈ parts, s.first < s.last) :
    parts = [whole] := by
  cases parts with
  | nil =>
    obtain ⟨s, hs, -⟩ := h.exists_has (x := whole.first) ⟨Nat.le_refl _, hwhole⟩
    cases hs
  | cons s rest =>
    have hwithin := h.within List.mem_cons_self (hne s List.mem_cons_self)
    have hs := hne s List.mem_cons_self
    rw [List.pairwise_cons] at hsorted
    have hfirst : s.first = whole.first := by
      by_contra hlt
      obtain ⟨t, ht, hhas⟩ := h.exists_has (x := whole.first) ⟨Nat.le_refl _, hwhole⟩
      rw [Span.Has] at hhas
      rcases List.mem_cons.mp ht with rfl | ht
      · omega
      · have := hsorted.1 t ht
        omega
    have hlast : s.last = whole.last := by
      by_contra hlt
      obtain ⟨t, ht, hhas⟩ := h.exists_has (x := s.last) ⟨by omega, by omega⟩
      rw [Span.Has] at hhas
      rcases List.mem_cons.mp ht with rfl | ht
      · omega
      · have := hsorted.1 t ht
        omega
    have hrest : rest = [] := by
      cases rest with
      | nil => rfl
      | cons t rest =>
        have hgap := hsorted.1 t List.mem_cons_self
        have ht := hne t (List.mem_cons_of_mem _ List.mem_cons_self)
        have hin := h.within (List.mem_cons_of_mem _ List.mem_cons_self) ht
        omega
    rw [hrest]
    obtain ⟨first, last⟩ := s
    obtain ⟨first', last'⟩ := whole
    simp only at hfirst hlast
    rw [hfirst, hlast]

end Awn.Memory
