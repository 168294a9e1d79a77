import Mathlib.Algebra.Order.Ring.Nat
import Mathlib.Data.List.Basic
import Mathlib.Data.List.Nodup
import Mathlib.Data.Nat.Log
import Mathlib.Tactic.Linarith
import Mathlib.Tactic.Ring

/-!
Coloured binary trees over arbitrary payloads, their zipper contexts, and the
balance conditions read at a hole. A direction `d` names the child a step
goes to, so that every statement about one side is also its mirror image.
-/

namespace Awn.RedBlack

variable {α : Type}

inductive Color
  | red
  | black
deriving DecidableEq, Repr

def Color.weight : Color → ℕ
  | .red => 0
  | .black => 1

@[simp] theorem Color.weight_red : Color.red.weight = 0 := rfl
@[simp] theorem Color.weight_black : Color.black.weight = 1 := rfl

theorem Color.eq_black {c : Color} (h : c ≠ .red) : c = .black := by
  cases c
  · exact absurd rfl h
  · rfl

inductive ColoredTree (α : Type)
  | nil
  | node (c : Color) (l : ColoredTree α) (a : α) (r : ColoredTree α)
deriving Repr

namespace ColoredTree

def color : ColoredTree α → Color
  | nil => .black
  | node c _ _ _ => c

def root? : ColoredTree α → Option α
  | nil => none
  | node _ _ a _ => some a

def toList : ColoredTree α → List α
  | nil => []
  | node _ l a r => l.toList ++ a :: r.toList

def height : ColoredTree α → ℕ
  | nil => 0
  | node _ l _ r => max l.height r.height + 1

def paint (c : Color) : ColoredTree α → ColoredTree α
  | nil => nil
  | node _ l a r => node c l a r

def branch (d : Bool) (c : Color) (x : ColoredTree α) (a : α) (y : ColoredTree α) : ColoredTree α :=
  if d then node c y a x else node c x a y

def NoRedRed : ColoredTree α → Prop
  | nil => True
  | node c l _ r => (c = .red → l.color = .black ∧ r.color = .black) ∧ l.NoRedRed ∧ r.NoRedRed

def BlackHeight : ColoredTree α → ℕ → Prop
  | nil, n => n = 0
  | node c l _ r, n => ∃ m, n = m + c.weight ∧ l.BlackHeight m ∧ r.BlackHeight m

def Balanced (t : ColoredTree α) (n : ℕ) : Prop := t.NoRedRed ∧ t.BlackHeight n

@[simp] theorem color_nil : (nil : ColoredTree α).color = .black := rfl
@[simp] theorem color_node (c : Color) (l r : ColoredTree α) (a : α) : (node c l a r).color = c := rfl
@[simp] theorem root?_nil : (nil : ColoredTree α).root? = none := rfl
@[simp] theorem root?_node (c : Color) (l r : ColoredTree α) (a : α) : (node c l a r).root? = some a := rfl
@[simp] theorem toList_nil : (nil : ColoredTree α).toList = [] := rfl
@[simp] theorem toList_node (c : Color) (l r : ColoredTree α) (a : α) :
    (node c l a r).toList = l.toList ++ a :: r.toList := rfl

@[simp] theorem color_branch (d : Bool) (c : Color) (x y : ColoredTree α) (a : α) :
    (branch d c x a y).color = c := by cases d <;> rfl

@[simp] theorem root?_branch (d : Bool) (c : Color) (x y : ColoredTree α) (a : α) :
    (branch d c x a y).root? = some a := by cases d <;> rfl

theorem branch_not (d : Bool) (c : Color) (x y : ColoredTree α) (a : α) :
    branch (!d) c x a y = branch d c y a x := by cases d <;> rfl

theorem node_eq_branch (d : Bool) (c : Color) (l r : ColoredTree α) (a : α) :
    node c l a r = branch d c (if d then r else l) a (if d then l else r) := by cases d <;> rfl

theorem exists_branch (d : Bool) {t : ColoredTree α} (h : t ≠ nil) :
    ∃ c x a y, t = branch d c x a y := by
  cases t with
  | nil => exact absurd rfl h
  | node c l a r => exact ⟨c, _, a, _, node_eq_branch d c l r a⟩

theorem ne_nil_of_red {t : ColoredTree α} (h : t.color = .red) : t ≠ nil := by
  rintro rfl
  cases h

theorem exists_red_branch (d : Bool) {t : ColoredTree α} (h : t.color = .red) :
    ∃ x a y, t = branch d .red x a y := by
  obtain ⟨c, x, a, y, rfl⟩ := exists_branch d (ne_nil_of_red h)
  rw [color_branch] at h
  exact ⟨x, a, y, by rw [h]⟩

@[simp] theorem mem_toList_branch (d : Bool) (c : Color) (x y : ColoredTree α) (a b : α) :
    b ∈ (branch d c x a y).toList ↔ b = a ∨ b ∈ x.toList ∨ b ∈ y.toList := by
  cases d <;> simp only [branch, Bool.false_eq_true, ↓reduceIte, toList_node, List.mem_append,
    List.mem_cons] <;> tauto

@[simp] theorem nodup_toList_branch (d : Bool) (c : Color) (x y : ColoredTree α) (a : α) :
    (branch d c x a y).toList.Nodup ↔
      x.toList.Nodup ∧ y.toList.Nodup ∧ a ∉ x.toList ∧ a ∉ y.toList ∧ x.toList.Disjoint y.toList := by
  cases d <;> simp only [branch, Bool.false_eq_true, ↓reduceIte, toList_node, List.nodup_append',
    List.nodup_cons, List.disjoint_cons_right]
  · tauto
  · rw [List.disjoint_comm]
    tauto

theorem mem_of_root? {t : ColoredTree α} {a : α} (h : t.root? = some a) : a ∈ t.toList := by
  cases t with
  | nil => cases h
  | node c l b r => simp_all

@[simp] theorem noRedRed_nil : (nil : ColoredTree α).NoRedRed := trivial

@[simp] theorem blackHeight_nil (n : ℕ) : (nil : ColoredTree α).BlackHeight n ↔ n = 0 := Iff.rfl

@[simp] theorem noRedRed_branch (d : Bool) (c : Color) (x y : ColoredTree α) (a : α) :
    (branch d c x a y).NoRedRed ↔
      (c = .red → x.color = .black ∧ y.color = .black) ∧ x.NoRedRed ∧ y.NoRedRed := by
  cases d <;> simp only [branch, Bool.false_eq_true, ↓reduceIte, NoRedRed]
  tauto

@[simp] theorem blackHeight_branch (d : Bool) (c : Color) (x y : ColoredTree α) (a : α) (n : ℕ) :
    (branch d c x a y).BlackHeight n ↔
      ∃ m, n = m + c.weight ∧ x.BlackHeight m ∧ y.BlackHeight m := by
  cases d <;> simp only [branch, Bool.false_eq_true, ↓reduceIte, BlackHeight]
  simp only [and_comm (a := y.BlackHeight _)]

theorem balanced_nil : (nil : ColoredTree α).Balanced 0 := ⟨trivial, rfl⟩

theorem balanced_black (d : Bool) (x y : ColoredTree α) (a : α) (n : ℕ) :
    (branch d .black x a y).Balanced (n + 1) ↔ x.Balanced n ∧ y.Balanced n := by
  simp only [Balanced, noRedRed_branch, blackHeight_branch, reduceCtorEq, false_imp_iff, true_and,
    Color.weight_black, Nat.add_right_cancel_iff, exists_eq_left']
  tauto

theorem balanced_red (d : Bool) (x y : ColoredTree α) (a : α) (n : ℕ) :
    (branch d .red x a y).Balanced n ↔
      (x.Balanced n ∧ x.color = .black) ∧ y.Balanced n ∧ y.color = .black := by
  simp only [Balanced, noRedRed_branch, blackHeight_branch, true_imp_iff, Color.weight_red,
    Nat.add_zero, exists_eq_left']
  tauto

theorem Balanced.branch_black {d : Bool} {x y : ColoredTree α} {a : α} {n : ℕ}
    (hx : x.Balanced n) (hy : y.Balanced n) : (branch d .black x a y).Balanced (n + 1) :=
  (balanced_black d x y a n).mpr ⟨hx, hy⟩

theorem Balanced.branch_red {d : Bool} {x y : ColoredTree α} {a : α} {n : ℕ}
    (hx : x.Balanced n) (hxc : x.color = .black) (hy : y.Balanced n) (hyc : y.color = .black) :
    (branch d .red x a y).Balanced n :=
  (balanced_red d x y a n).mpr ⟨⟨hx, hxc⟩, hy, hyc⟩

theorem Balanced.ne_nil {t : ColoredTree α} {n : ℕ} (h : t.Balanced (n + 1)) : t ≠ nil := by
  rintro rfl
  simpa using h.2

theorem Balanced.exists_black (d : Bool) {t : ColoredTree α} {n : ℕ} (h : t.Balanced (n + 1))
    (hc : t.color = .black) : ∃ x a y, t = branch d .black x a y ∧ x.Balanced n ∧ y.Balanced n := by
  obtain ⟨c, x, a, y, rfl⟩ := exists_branch d h.ne_nil
  rw [color_branch] at hc
  subst hc
  exact ⟨x, a, y, rfl, (balanced_black d x y a n).mp h⟩

theorem Balanced.exists_red (d : Bool) {t : ColoredTree α} {n : ℕ} (h : t.Balanced n)
    (hc : t.color = .red) : ∃ x a y, t = branch d .red x a y ∧
      (x.Balanced n ∧ x.color = .black) ∧ y.Balanced n ∧ y.color = .black := by
  obtain ⟨x, a, y, rfl⟩ := exists_red_branch d hc
  exact ⟨x, a, y, rfl, (balanced_red d x y a n).mp h⟩

@[simp] theorem toList_paint (c : Color) (t : ColoredTree α) : (t.paint c).toList = t.toList := by
  cases t <;> rfl

@[simp] theorem paint_branch (d : Bool) (c e : Color) (x y : ColoredTree α) (a : α) :
    (branch d e x a y).paint c = branch d c x a y := by cases d <;> rfl

theorem toList_branch_color (d : Bool) (c e : Color) (x y : ColoredTree α) (a : α) :
    (branch d c x a y).toList = (branch d e x a y).toList := by cases d <;> rfl

theorem toList_rotate (d : Bool) (c e c' e' : Color) (x y z : ColoredTree α) (a b : α) :
    (branch d c' x b (branch d e' y a z)).toList =
      (branch d c (branch d e x b y) a z).toList := by
  cases d <;> simp [branch]

end ColoredTree

structure Frame (α : Type) where
  side : Bool
  color : Color
  value : α
  sibling : ColoredTree α

namespace Frame

def fill (f : Frame α) (t : ColoredTree α) : ColoredTree α := ColoredTree.branch f.side f.color t f.value f.sibling

end Frame

open ColoredTree

def plug : List (Frame α) → ColoredTree α → ColoredTree α
  | [], t => t
  | f :: fs, t => plug fs (f.fill t)

def hole? (fs : List (Frame α)) : Option α := fs.head?.map Frame.value

def holeColor : List (Frame α) → Color
  | [] => .black
  | f :: _ => f.color

@[simp] theorem plug_nil (t : ColoredTree α) : plug [] t = t := rfl
@[simp] theorem plug_cons (f : Frame α) (fs : List (Frame α)) (t : ColoredTree α) :
    plug (f :: fs) t = plug fs (f.fill t) := rfl
@[simp] theorem hole?_nil : hole? ([] : List (Frame α)) = none := rfl
@[simp] theorem hole?_cons (f : Frame α) (fs : List (Frame α)) : hole? (f :: fs) = some f.value := rfl
@[simp] theorem holeColor_nil : holeColor ([] : List (Frame α)) = .black := rfl
@[simp] theorem holeColor_cons (f : Frame α) (fs : List (Frame α)) : holeColor (f :: fs) = f.color := rfl

theorem plug_append (fs gs : List (Frame α)) (t : ColoredTree α) :
    plug (fs ++ gs) t = plug gs (plug fs t) := by
  induction fs generalizing t with
  | nil => rfl
  | cons f fs ih => exact ih (f.fill t)

theorem toList_fill_congr (f : Frame α) {t u : ColoredTree α} (h : t.toList = u.toList) :
    (f.fill t).toList = (f.fill u).toList := by
  unfold Frame.fill branch
  split_ifs <;> simp [h]

theorem toList_plug_congr (fs : List (Frame α)) {t u : ColoredTree α} (h : t.toList = u.toList) :
    (plug fs t).toList = (plug fs u).toList := by
  induction fs generalizing t u with
  | nil => exact h
  | cons f fs ih => exact ih (toList_fill_congr f h)

def before : List (Frame α) → List α
  | [] => []
  | f :: fs => before fs ++ if f.side then f.sibling.toList ++ [f.value] else []

def after : List (Frame α) → List α
  | [] => []
  | f :: fs => (if f.side then [] else f.value :: f.sibling.toList) ++ after fs

theorem toList_plug (fs : List (Frame α)) (t : ColoredTree α) :
    (plug fs t).toList = before fs ++ t.toList ++ after fs := by
  induction fs generalizing t with
  | nil => simp [before, after]
  | cons f fs ih =>
    rw [plug_cons, ih]
    rcases f with ⟨side, c, a, u⟩
    cases side <;> simp [Frame.fill, branch, before, after]

def Hole : List (Frame α) → ℕ → Prop
  | [], _ => True
  | f :: fs, n => f.sibling.Balanced n ∧
      (f.color = .red → f.sibling.color = .black ∧ fs ≠ [] ∧ holeColor fs = .black) ∧
      Hole fs (n + f.color.weight)

theorem plug_balanced (fs : List (Frame α)) {t : ColoredTree α} {n : ℕ} (hh : Hole fs n)
    (ht : t.Balanced n) (hc : t.color = .red → holeColor fs = .black) :
    ∃ m, (plug fs t).Balanced m := by
  induction fs generalizing t n with
  | nil => exact ⟨n, ht⟩
  | cons f fs ih =>
    obtain ⟨hs, hr, hh⟩ := hh
    rcases f with ⟨side, c, a, u⟩
    cases c with
    | red =>
      obtain ⟨hu, -, hp⟩ := hr rfl
      have htb : t.color = .black := Color.eq_black (fun h => by simpa using hc h)
      exact ih hh (Balanced.branch_red ht htb hs hu) (fun _ => hp)
    | black => exact ih hh (Balanced.branch_black ht hs) (fun h => by simp [Frame.fill] at h)

theorem exists_hole (fs : List (Frame α)) {t : ColoredTree α} {k : ℕ} (h : (plug fs t).Balanced k)
    (hb : (plug fs t).color = .black) :
    ∃ m, Hole fs m ∧ t.Balanced m ∧ (t.color = .red → fs ≠ [] ∧ holeColor fs = .black) := by
  induction fs generalizing t with
  | nil =>
    refine ⟨k, trivial, h, fun hr => ?_⟩
    rw [plug_nil, hr] at hb
    cases hb
  | cons f fs ih =>
    obtain ⟨m, hm, ht, hf⟩ := ih h hb
    rw [Frame.fill] at ht hf
    rw [color_branch] at hf
    rcases f with ⟨side, c, a, u⟩
    cases c with
    | red =>
      obtain ⟨⟨htm, htc⟩, hum, huc⟩ := (balanced_red side t u a m).mp ht
      refine ⟨m, ⟨hum, fun _ => ⟨huc, hf rfl⟩, hm⟩, htm, fun hr => ?_⟩
      rw [htc] at hr
      cases hr
    | black =>
      obtain ⟨n, rfl, -, -⟩ := (blackHeight_branch side _ t u a m).mp ht.2
      obtain ⟨htn, hun⟩ := (balanced_black side t u a n).mp ht
      exact ⟨n, ⟨hun, by simp, hm⟩, htn, by simp⟩

def CutAt (fs : List (Frame α)) (c : Color) (x : ColoredTree α) : Prop :=
  ∃ m, Hole fs m ∧ (c = .red → x.Balanced m ∧ x.color = .black) ∧
    (c = .black → ∃ j, m = j + 1 ∧ x.Balanced j)

theorem cutAt_of_balanced {fs : List (Frame α)} {e : Bool} {c : Color} {x : ColoredTree α} {n : α}
    {k : ℕ} (h : (plug fs (branch e c x n nil)).Balanced k)
    (hb : (plug fs (branch e c x n nil)).color = .black) : CutAt fs c x := by
  obtain ⟨m, hh, ht, -⟩ := exists_hole _ h hb
  refine ⟨m, hh, ?_, ?_⟩
  · rintro rfl
    exact ((balanced_red e x nil n m).mp ht).1
  · rintro rfl
    obtain ⟨j, rfl, hxj, -⟩ := (blackHeight_branch e _ x nil n m).mp ht.2
    exact ⟨j, rfl, ((noRedRed_branch e _ x nil n).mp ht.1).2.1, hxj⟩

theorem Hole.rename {gs fs : List (Frame α)} {d : Bool} {c : Color} {a : α} {u : ColoredTree α}
    {n : ℕ} (h : Hole (gs ++ ⟨d, c, a, u⟩ :: fs) n) (b : α) : Hole (gs ++ ⟨d, c, b, u⟩ :: fs) n := by
  induction gs generalizing n with
  | nil => exact h
  | cons g gs ih =>
    obtain ⟨hs, hr, hh⟩ := h
    refine ⟨hs, fun hc => ⟨(hr hc).1, by simp, ?_⟩, ih hh⟩
    have hcolor := (hr hc).2.2
    cases gs <;> exact hcolor

theorem CutAt.rename (gs : List (Frame α)) {fs : List (Frame α)} {d : Bool} {c f : Color} {a : α} {u x : ColoredTree α}
    (h : CutAt (gs ++ ⟨d, f, a, u⟩ :: fs) c x) (b : α) : CutAt (gs ++ ⟨d, f, b, u⟩ :: fs) c x := by
  obtain ⟨m, hh, hx⟩ := h
  exact ⟨m, hh.rename b, hx⟩

end Awn.RedBlack

namespace Awn.RedBlack

open ColoredTree

variable {α : Type}

def blackSteps : List (Frame α) → ℕ
  | [] => 0
  | f :: fs => blackSteps fs + f.color.weight

def redSteps : List (Frame α) → ℕ
  | [] => 0
  | f :: fs => redSteps fs + (1 - f.color.weight)

theorem steps_length (fs : List (Frame α)) : blackSteps fs + redSteps fs = fs.length := by
  induction fs with
  | nil => rfl
  | cons f fs ih =>
    cases hc : f.color <;> simp [blackSteps, redSteps, hc] <;> omega

theorem balanced_size {t : ColoredTree α} {n : ℕ} (h : t.Balanced n) : 2 ^ n ≤ t.toList.length + 1 := by
  induction t generalizing n with
  | nil => simp [(blackHeight_nil n).mp h.2]
  | node c l a r ihl ihr =>
    obtain ⟨⟨-, hln, hrn⟩, m, rfl, hl, hr⟩ := h
    have hl' := ihl ⟨hln, hl⟩
    have hr' := ihr ⟨hrn, hr⟩
    simp only [toList_node, List.length_append, List.length_cons]
    cases c
    · simp only [Color.weight_red, Nat.add_zero]
      omega
    · simp only [Color.weight_black, pow_succ]
      omega

theorem balanced_height {t : ColoredTree α} {n : ℕ} (h : t.Balanced n) :
    t.height ≤ 2 * n + 1 ∧ (t.color = .black → t.height ≤ 2 * n) := by
  induction t generalizing n with
  | nil => exact ⟨Nat.zero_le _, fun _ => Nat.zero_le _⟩
  | node c l a r ihl ihr =>
    obtain ⟨⟨hred, hln, hrn⟩, m, rfl, hl, hr⟩ := h
    obtain ⟨hl', hlblack⟩ := ihl ⟨hln, hl⟩
    obtain ⟨hr', hrblack⟩ := ihr ⟨hrn, hr⟩
    rw [height]
    cases c with
    | red =>
      have hlblack := hlblack (hred rfl).1
      have hrblack := hrblack (hred rfl).2
      refine ⟨?_, nofun⟩
      rw [Color.weight_red]
      omega
    | black =>
      rw [Color.weight_black]
      exact ⟨by omega, fun _ => by omega⟩

theorem balanced_height_log {t : ColoredTree α} {n : ℕ} (h : t.Balanced n)
    (hblack : t.color = .black) : t.height ≤ 2 * Nat.log 2 (t.toList.length + 1) := by
  have hn : n ≤ Nat.log 2 (t.toList.length + 1) :=
    Nat.le_log_of_pow_le Nat.one_lt_two (balanced_size h)
  have hheight := (balanced_height h).2 hblack
  omega

theorem fill_size (f : Frame α) (t : ColoredTree α) :
    (f.fill t).toList.length = t.toList.length + f.sibling.toList.length + 1 := by
  unfold Frame.fill branch
  split_ifs <;> simp <;> omega

theorem red_le_black (fs : List (Frame α)) (n : ℕ) (h : Hole fs n) :
    redSteps fs ≤ blackSteps fs ∧
      (fs ≠ [] → holeColor fs = .black → redSteps fs + 1 ≤ blackSteps fs) := by
  induction fs generalizing n with
  | nil => simp [redSteps]
  | cons f fs ih =>
    obtain ⟨-, hr, hh⟩ := h
    obtain ⟨hle, hlt⟩ := ih _ hh
    cases hc : f.color with
    | red =>
      obtain ⟨-, hne, hb⟩ := hr hc
      have hlt' := hlt hne hb
      simp only [redSteps, blackSteps, hc, Color.weight_red, holeColor_cons, reduceCtorEq,
        false_imp_iff, implies_true, and_true]
      omega
    | black =>
      simp only [redSteps, blackSteps, hc, Color.weight_black, holeColor_cons]
      omega

theorem plug_size (fs : List (Frame α)) (n : ℕ) (t : ColoredTree α) (h : Hole fs n) :
    t.toList.length + 2 ^ n * 2 ^ blackSteps fs + 2 ^ n * 2 ^ redSteps fs ≤
        (plug fs t).toList.length + 2 * 2 ^ n ∧
      (holeColor fs = .black →
        t.toList.length + 2 ^ n * 2 ^ blackSteps fs + 2 * 2 ^ n * 2 ^ redSteps fs ≤
          (plug fs t).toList.length + 3 * 2 ^ n) := by
  induction fs generalizing n t with
  | nil => simp [blackSteps, redSteps]; omega
  | cons f fs ih =>
    obtain ⟨hs, hr, hh⟩ := h
    have hsib := balanced_size hs
    have hfill := fill_size f t
    rw [plug_cons]
    cases hc : f.color with
    | red =>
      obtain ⟨-, -, hb⟩ := hr hc
      rw [hc, Color.weight_red, Nat.add_zero] at hh
      have hstrong := (ih n (f.fill t) hh).2 hb
      simp only [blackSteps, redSteps, hc, Color.weight_red, holeColor_cons, reduceCtorEq,
        false_imp_iff, and_true, Nat.add_zero, Nat.sub_zero, pow_succ]
      nlinarith
    | black =>
      rw [hc, Color.weight_black] at hh
      have hweak := (ih (n + 1) (f.fill t) hh).1
      have hpos : 2 ^ n ≤ 2 ^ n * 2 ^ redSteps fs := Nat.le_mul_of_pos_right _ (by positivity)
      simp only [blackSteps, redSteps, hc, Color.weight_black, holeColor_cons, Nat.sub_self,
        Nat.add_zero, pow_succ, forall_const] at hweak ⊢
      constructor <;> nlinarith

theorem path_length_le (fs : List (Frame α)) (n : ℕ) (t : ColoredTree α) (h : Hole fs n)
    (hsize : (plug fs t).toList.length ≤ 2 ^ 32) : fs.length ≤ 62 := by
  have hsum := steps_length fs
  obtain ⟨hle, -⟩ := red_le_black fs n h
  have hplug := (plug_size fs n t h).1
  have hscale : 2 ^ blackSteps fs + 2 ^ redSteps fs ≤ 2 ^ 32 + 2 := by
    have hn : 1 ≤ 2 ^ n := Nat.one_le_two_pow
    have hb : 1 ≤ 2 ^ blackSteps fs := Nat.one_le_two_pow
    have hr : 1 ≤ 2 ^ redSteps fs := Nat.one_le_two_pow
    nlinarith
  have hred : 1 ≤ 2 ^ redSteps fs := Nat.one_le_two_pow
  have hblack : blackSteps fs < 33 := by
    by_contra hge
    have := Nat.pow_le_pow_right (n := 2) (by omega) (show 33 ≤ blackSteps fs by omega)
    omega
  rcases Nat.lt_or_ge (blackSteps fs) 32 with hlt | hge
  · omega
  · have he : blackSteps fs = 32 := by omega
    rw [he] at hscale
    have hfew : redSteps fs < 2 := by
      by_contra hge
      have := Nat.pow_le_pow_right (n := 2) (by omega) (show 2 ≤ redSteps fs by omega)
      omega
    omega

end Awn.RedBlack
