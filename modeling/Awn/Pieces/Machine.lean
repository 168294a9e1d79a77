import Mathlib.Data.List.Basic

/-!
Machines that take their input in pieces of sizes they choose themselves, and what is left over of
an input that ends inside a piece.
-/

namespace Awn.Pieces

variable {A β : Type*}

structure Machine (A β : Type*) where
  next : A → ℕ
  step : A → List β → A × Bool

inductive Outcome (A β : Type*)
  | waiting (a : A) (rest : List β)
  | finished (a : A) (rest : List β)
  | failed (a : A)

def Outcome.Holds (I : A → List β → Prop) (input : List β) : Outcome A β → Prop
  | .waiting a rest => ∃ fed, fed ++ rest = input ∧ I a fed
  | .finished a rest => ∃ fed, fed ++ rest = input ∧ I a fed
  | .failed a => ∃ fed, fed <+: input ∧ I a fed

namespace Machine

variable (m : Machine A β)

def consume (a : A) (input : List β) : Outcome A β :=
  if input = [] then .waiting a []
  else if m.next a = 0 then .finished a input
  else if input.length < m.next a then .waiting a input
  else match m.step a (input.take (m.next a)) with
    | (a', true) => consume a' (input.drop (m.next a))
    | (a', false) => .failed a'
termination_by input.length
decreasing_by
  simp only [List.length_drop]
  omega

def proceed (r : A × Bool) (input : List β) : Outcome A β :=
  match r with
  | (a, true) => m.consume a input
  | (a, false) => .failed a

def resume (o : Outcome A β) (more : List β) : Outcome A β :=
  match o with
  | .waiting a rest => m.consume a (rest ++ more)
  | .finished a rest => .finished a (rest ++ more)
  | .failed a => .failed a

variable {m} {a a' : A} {input : List β}

theorem consume_nil : m.consume a [] = .waiting a [] := by
  rw [consume, if_pos rfl]

theorem consume_zero (hinput : input ≠ []) (hnext : m.next a = 0) :
    m.consume a input = .finished a input := by
  rw [consume, if_neg hinput, if_pos hnext]

theorem consume_lt (hinput : input ≠ []) (hlt : input.length < m.next a) :
    m.consume a input = .waiting a input := by
  rw [consume, if_neg hinput, if_neg (by omega), if_pos hlt]

theorem consume_step {piece : List β} (hnext : m.next a ≠ 0) (hpiece : piece.length = m.next a) :
    m.consume a (piece ++ input) = m.proceed (m.step a piece) input := by
  have hne : piece ++ input ≠ [] := by
    intro h
    have hlen := congrArg List.length h
    simp only [List.length_append, List.length_nil] at hlen
    omega
  rw [consume, if_neg hne, if_neg hnext, if_neg (by simp only [List.length_append]; omega),
    ← hpiece, List.take_left', List.drop_left']
  · rfl
  · rfl
  · rfl

theorem cut_append {n : ℕ} {xs : List β} (ys : List β) (hle : ¬xs.length < n) :
    xs ++ ys = xs.take n ++ (xs.drop n ++ ys) ∧ (xs.take n).length = n := by
  constructor
  · rw [← List.append_assoc, List.take_append_drop]
  · rw [List.length_take]
    omega

theorem consume_append (a : A) (xs ys : List β) :
    m.consume a (xs ++ ys) = m.resume (m.consume a xs) ys := by
  induction a, xs using consume.induct m with
  | case1 a =>
    rw [consume_nil]
    rfl
  | case2 a xs hxs hnext =>
    rw [consume_zero hxs hnext, consume_zero (by simp [hxs]) hnext]
    rfl
  | case3 a xs hxs hnext hlt =>
    rw [consume_lt hxs hlt]
    rfl
  | case4 a xs hxs hnext hlt a' hstep ih =>
    obtain ⟨hcut, hpiece⟩ := cut_append ys hlt
    rw [hcut, consume_step hnext hpiece, consume, if_neg hxs, if_neg hnext, if_neg hlt, hstep]
    exact ih
  | case5 a xs hxs hnext hlt a' hstep =>
    obtain ⟨hcut, hpiece⟩ := cut_append ys hlt
    rw [hcut, consume_step hnext hpiece, consume, if_neg hxs, if_neg hnext, if_neg hlt, hstep]
    rfl

theorem consume_of_short (h : input = [] ∨ input.length < m.next a) :
    m.consume a input = .waiting a input := by
  by_cases hinput : input = []
  · rw [hinput, consume_nil]
  · exact consume_lt hinput (h.resolve_left hinput)

inductive Visits (m : Machine A β) : A → List β → A → Prop
  | here (a : A) (input : List β) : Visits m a input a
  | step {a a' b : A} {piece input : List β} (hnext : m.next a ≠ 0)
      (hpiece : piece.length = m.next a) (haccept : m.step a piece = (a', true))
      (h : Visits m a' input b) : Visits m a (piece ++ input) b

theorem Visits.of_consume {xs rest ys : List β} {b : A} (hconsume : m.consume a xs = .waiting a' rest)
    (h : Visits m a' (rest ++ ys) b) : Visits m a (xs ++ ys) b := by
  induction a, xs using consume.induct m with
  | case1 a =>
    rw [consume_nil] at hconsume
    cases hconsume
    exact h
  | case2 a xs hxs hnext =>
    rw [consume_zero hxs hnext] at hconsume
    cases hconsume
  | case3 a xs hxs hnext hlt =>
    rw [consume_lt hxs hlt] at hconsume
    cases hconsume
    exact h
  | case4 a xs hxs hnext hlt a₁ haccept ih =>
    obtain ⟨hcut, hpiece⟩ := cut_append ys hlt
    rw [consume, if_neg hxs, if_neg hnext, if_neg hlt, haccept] at hconsume
    rw [hcut]
    exact .step hnext hpiece haccept (ih hconsume)
  | case5 a xs hxs hnext hlt a₁ hreject =>
    rw [consume, if_neg hxs, if_neg hnext, if_neg hlt, hreject] at hconsume
    cases hconsume

theorem consume_holds {I : A → List β → Prop}
    (hstep : ∀ a fed piece, I a fed → piece.length = m.next a → I (m.step a piece).1 (fed ++ piece))
    {fed : List β} (h : I a fed) : Outcome.Holds I (fed ++ input) (m.consume a input) := by
  induction a, input using consume.induct m generalizing fed with
  | case1 a =>
    rw [consume_nil]
    exact ⟨fed, rfl, h⟩
  | case2 a input hinput hnext =>
    rw [consume_zero hinput hnext]
    exact ⟨fed, rfl, h⟩
  | case3 a input hinput hnext hlt =>
    rw [consume_lt hinput hlt]
    exact ⟨fed, rfl, h⟩
  | case4 a input hinput hnext hlt a' haccept ih =>
    have hkept := hstep a fed _ h (cut_append [] hlt).2
    rw [haccept] at hkept
    have hrest := ih hkept
    rw [List.append_assoc, List.take_append_drop] at hrest
    rw [consume, if_neg hinput, if_neg hnext, if_neg hlt, haccept]
    exact hrest
  | case5 a input hinput hnext hlt a' hreject =>
    have hkept := hstep a fed _ h (cut_append [] hlt).2
    rw [hreject] at hkept
    rw [consume, if_neg hinput, if_neg hnext, if_neg hlt, hreject]
    exact ⟨_, List.prefix_append_right_inj _ |>.mpr (List.take_prefix _ _), hkept⟩

end Machine

end Awn.Pieces
