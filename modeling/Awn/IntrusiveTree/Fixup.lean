import Awn.IntrusiveTree.Rotation

namespace Awn.IntrusiveTree

open RedBlack RedBlack.ColoredTree

variable {K : Type}

def TraceMatches (trace : BitVec 64) (fs : List (Frame Addr)) : Prop :=
  ∀ i f, fs[i]? = some f → trace.getLsbD i = f.side

theorem TraceMatches.head {trace : BitVec 64} {f : Frame Addr} {fs : List (Frame Addr)}
    (h : TraceMatches trace (f :: fs)) : sideBit trace = f.side := by
  rw [sideBit_eq]
  exact h 0 f rfl

theorem TraceMatches.tail {trace : BitVec 64} {f : Frame Addr} {fs : List (Frame Addr)}
    (h : TraceMatches trace (f :: fs)) : TraceMatches (trace >>> 1) fs := by
  intro i g hg
  rw [BitVec.getLsbD_ushiftRight, Nat.add_comm]
  exact h (i + 1) g hg

theorem TraceMatches.of_sides {trace : BitVec 64} {fs gs : List (Frame Addr)} (h : TraceMatches trace fs)
    (hs : fs.map Frame.side = gs.map Frame.side) : TraceMatches trace gs := by
  intro i g hg
  have hi : (fs.map Frame.side)[i]? = some g.side := by
    rw [hs, List.getElem?_map, hg]
    rfl
  rw [List.getElem?_map, Option.map_eq_some_iff] at hi
  obtain ⟨f, hf, hside⟩ := hi
  rw [h i f hf, hside]

theorem insertFixupRotate_spec {s : IntrusiveRedBlackTree K} {fs : List (Frame Addr)} {d e : Bool}
    {p q : Addr} {t w u : ColoredTree Addr} {m : ℕ} {sideIter nextSideIter : BitVec 64}
    (hs : Represents s (plug (⟨d, .red, p, w⟩ :: ⟨e, .black, q, u⟩ :: fs) t))
    (hd : sideBit sideIter = d) (he : sideBit nextSideIter = e)
    (ht : t.Balanced m) (hred : t.color = .red) (hw : w.Balanced m) (hwc : w.color = .black) :
    ∃ s' a x y, insertFixupRotate s sideIter nextSideIter p q = .ok (s', a) ∧
      Rebuilt s s' (plug (⟨d, .red, p, w⟩ :: ⟨e, .black, q, u⟩ :: fs) t)
        (plug fs (branch e .red x a (branch e .black y q u))) ∧
      x.Balanced m ∧ y.Balanced m ∧ y.color = .black := by
  by_cases hde : e = d
  · -- both steps go the same way: one rotation at the grandparent
    subst hde
    obtain ⟨s', hrun, hs'⟩ := rotate_spec e hs
    refine ⟨s', p, t, w, ?_, hs', ht, hw, hwc⟩
    rw [insertFixupRotate, if_pos (by rw [hd, he])]
    cases e
    · rw [if_pos hd, rotateRight, hrun]
    · rw [if_neg (by simp [hd]), rotateLeft, hrun]
  · -- the steps turn: the red node is first rotated over its parent
    obtain ⟨x, a, y, rfl, ⟨hx, hxc⟩, hy, hyc⟩ := ht.exists_red d hred
    have hs₀ : Represents s
        (plug (⟨e, .black, q, u⟩ :: fs) (branch d .red (branch d .red x a y) p w)) := hs
    obtain ⟨s₁, hrun₁, hs₁⟩ := rotate_spec d hs₀
    have hed : d = !e := by
      cases d <;> cases e <;> simp_all
    subst hed
    have hs₁' : Rebuilt s s₁ (plug (⟨!e, .red, p, w⟩ :: ⟨e, .black, q, u⟩ :: fs)
          (branch (!e) .red x a y))
        (plug fs (branch e .black (branch e .red (branch (!e) .red y p w) a x) q u)) := by
      rw [← branch_not e .red x]
      exact hs₁
    obtain ⟨s₂, hrun₂, hs₂⟩ := rotate_spec e hs₁'.represents
    refine ⟨s₂, a, branch (!e) .red y p w, x, ?_, hs₁'.trans hs₂,
      Balanced.branch_red hy hyc hw hwc, hx, hxc⟩
    rw [insertFixupRotate, if_neg (by rw [hd, he]; exact hde)]
    cases e
    · rw [if_neg (by simp [hd]), rotateLeft, show rotate true s p = _ from hrun₁]
      simp only [bind, Except.bind, rotateRight, hrun₂, pure, Except.pure]
    · rw [if_pos (by simpa using hd), rotateRight, show rotate false s p = _ from hrun₁]
      simp only [bind, Except.bind, rotateLeft, hrun₂, pure, Except.pure]

theorem repaint_spec {s : IntrusiveRedBlackTree K} {fs : List (Frame Addr)} {d e : Bool}
    {p q r : Addr} {t w x y : ColoredTree Addr}
    (hs : Represents s (plug fs (branch e .black (branch d .red t p w) q (branch e .red x r y)))) :
    Rebuilt s (((s.setColor p .black).setColor r .black).setColor q .red)
      (plug fs (branch e .black (branch d .red t p w) q (branch e .red x r y)))
      (plug fs (branch e .red (branch d .black t p w) q (branch e .black x r y))) := by
  have hp := setColor_child hs .black
  have hr := setColor_other hp.represents .black
  have hq := setColor_spec hr.represents .red
  exact hp.trans (hr.trans hq)

theorem insertFixupLoop_spec (fs : List (Frame Addr)) (s : IntrusiveRedBlackTree K)
    (t : ColoredTree Addr) (trace : BitVec 64) (m : ℕ)
    (htrace : TraceMatches trace fs) (hs : Represents s (plug fs t)) (hole : Hole fs m)
    (ht : t.Balanced m) (hred : t.color = .red) :
    ∃ s' u, insertFixupLoop fs.length s trace (hole? fs) = .ok s' ∧ Rebuilt s s' (plug fs t) u ∧
      ∃ k, (u.paint .black).Balanced k := by
  have hdone : holeColor fs = .black → ∃ k, ((plug fs t).paint .black).Balanced k := by
    intro hc
    obtain ⟨k, hk⟩ := plug_balanced fs hole ht (fun _ => hc)
    exact balanced_paint_black hk
  match fs with
  | [] => exact ⟨s, t, by simp [insertFixupLoop, pure, Except.pure], Rebuilt.refl hs, hdone rfl⟩
  | [f] =>
    have hf : f.color = .black := Color.eq_black (fun h => (hole.2.1 h).2.1 rfl)
    exact ⟨s, plug [f] t, by simp [insertFixupLoop, pure, Except.pure], Rebuilt.refl hs, hdone hf⟩
  | f :: g :: fs =>
    obtain ⟨-, -, hfp, hfcol, -⟩ := hs.head_color
    by_cases hcol : f.color = .red
    swap
    · refine ⟨s, plug (f :: g :: fs) t, ?_, Rebuilt.refl hs, hdone (Color.eq_black hcol)⟩
      simp [insertFixupLoop, hfcol, hcol, pure, Except.pure]
    obtain ⟨hsib, hfr, hsibg, -, hrest⟩ := hole
    obtain ⟨hsibblack, -, hg⟩ := hfr hcol
    have hsg : Represents s (plug (g :: fs) (f.fill t)) := hs
    obtain ⟨-, hgs, -, -, hgred⟩ := hsg.head_color
    have hfside := htrace.head
    have hgside := htrace.tail.head
    rcases f with ⟨d, c, p, w⟩
    rcases g with ⟨e, c', q, u⟩
    simp only at hcol hfside hgside hsib hsibblack hsibg hfp hfcol hgs hgred hrest
    obtain rfl : c = .red := hcol
    obtain rfl : c' = .black := hg
    simp only [Color.weight_red, Color.weight_black, Nat.add_zero] at hsibg hrest
    rw [List.length_cons, List.length_cons, hole?_cons, insertFixupLoop, if_pos hfcol, hfp,
      hole?_cons]
    simp only [deref_some, bind, Except.bind, hgside, hgs, hgred]
    by_cases hu : u.color = .red
    · -- a red uncle: repaint, and go on from the grandparent
      obtain ⟨x, r, y, rfl, ⟨hx, hxc⟩, hy, hyc⟩ := hsibg.exists_red e hu
      have h' := repaint_spec hs
      have hpar := h'.represents.branch.2.2.1
      obtain ⟨s', v, hrun, hv, hk⟩ := insertFixupLoop_spec fs _ _ (trace >>> 1 >>> 1) (m + 1)
        htrace.tail.tail h'.represents hrest
        (Balanced.branch_red (Balanced.branch_black ht hsib) (by simp)
          (Balanced.branch_black hx hy) (by simp)) (by simp)
      refine ⟨s', v, ?_, h'.trans hv, hk⟩
      simp only [hu, beq_self_eq_true, ↓reduceIte, root?_branch, deref_some, hpar]
      exact hrun
    · -- a black uncle: rotate and finish
      have huc := Color.eq_black hu
      obtain ⟨s₁, a, x, y, hrun, hs₁, hx, hy, hyc⟩ :=
        insertFixupRotate_spec hs hfside hgside ht hred hsib hsibblack
      have hs₂ := setColor_spec hs₁.represents .black
      have hs₃ := setColor_other hs₂.represents .red
      refine ⟨_, _, ?_, hs₁.trans (hs₂.trans hs₃), ?_⟩
      · simp only [hu, beq_iff_eq, ↓reduceIte, hrun, pure, Except.pure]
      · have hbal := plug_balanced fs hrest
          (Balanced.branch_black (d := e) (a := a) hx
            (Balanced.branch_red (d := e) (a := q) hy hyc hsibg huc)) (by simp)
        obtain ⟨k, hk⟩ := hbal
        exact balanced_paint_black hk

variable {K : Type} {s : IntrusiveRedBlackTree K} {fs : List (Frame Addr)} {d : Bool} {p r : Addr}

theorem removeFixupRotate_spec {x far near : ColoredTree Addr} {q : Addr}
    (hs : Represents s (plug (⟨d, .black, p, branch (!d) .red far r near⟩ :: fs) x))
    (hq : near.root? = some q) :
    ∃ s', removeFixupRotate d s p r = .ok (s', q) ∧
      Rebuilt s s' (plug (⟨d, .black, p, branch (!d) .red far r near⟩ :: fs) x)
        (plug (⟨d, .red, p, near⟩ :: ⟨d, .black, r, far⟩ :: fs) x) := by
  have hstart : plug (⟨d, .black, p, branch (!d) .red far r near⟩ :: fs) x =
      plug fs (branch (!d) .black (branch (!d) .red far r near) p x) := by
    rw [branch_not d .black]
    rfl
  have hshape : plug (⟨d, .red, p, near⟩ :: ⟨d, .black, r, far⟩ :: fs) x =
      plug fs (branch (!d) .black far r (branch (!d) .red near p x)) := by
    simp only [plug_cons, Frame.fill]
    rw [branch_not, branch_not]
  rw [hstart] at hs ⊢
  have hs₁ := setColor_spec hs .red
  have hs₂ := setColor_child hs₁.represents .black
  obtain ⟨s', hrun, hs₃⟩ := rotate_spec (!d) hs₂.represents
  rw [← hshape] at hs₃
  refine ⟨s', ?_, hs₁.trans (hs₂.trans hs₃)⟩
  have hchild : (s'.node p).child (!d) = some q := by
    rw [hs₃.represents.head_color.2.1, hq]
  cases d
  · simp only [Bool.not_false] at hrun hchild
    simp only [removeFixupRotate, ↓reduceIte, rotateLeft, hrun, bind, Except.bind, Bool.not_false,
      hchild, deref_some, pure, Except.pure]
  · simp only [Bool.not_true] at hrun hchild
    simp only [removeFixupRotate, reduceCtorEq, ↓reduceIte, rotateRight, hrun, bind, Except.bind,
      Bool.not_true, hchild, deref_some, pure, Except.pure]

theorem removeFixupSide_near {c : Color} {q : Addr} {x u v far : ColoredTree Addr} {m : ℕ}
    (hs : Represents s (plug fs (branch d c x p (branch d .black (branch d .red u q v) r far))))
    (hx : x.Balanced m) (hu : u.Balanced m) (hv : v.Balanced m) (hfar : far.Balanced m) :
    ∃ s' t, removeFixupSide d s p r = .ok (s', true) ∧
      Rebuilt s s' (plug fs (branch d c x p (branch d .black (branch d .red u q v) r far)))
        (plug fs t) ∧ t.Balanced (m + 1 + c.weight) ∧ t.color = c := by
  have hp : Represents s (plug fs (branch (!d) c (branch d .black (branch d .red u q v) r far) p x)) := by
    rw [branch_not]
    exact hs
  have hr : Represents s (plug (⟨!d, c, p, x⟩ :: fs) (branch d .black (branch d .red u q v) r far)) := hp
  obtain ⟨hchild, -, -, -, hred, -⟩ := hr.branch
  have hcolor : (s.node p).color = c := hp.branch.2.2.2.1
  obtain ⟨s₁, hrun₁, hs₁⟩ := rotate_spec d hr
  have hs₁' : Rebuilt s s₁ (plug fs (branch d c x p (branch d .black (branch d .red u q v) r far)))
      (plug fs (branch (!d) c (branch (!d) .red (branch d .black v r far) q u) p x)) := by
    rw [← branch_not d c, branch_not d .red]
    exact hs₁
  obtain ⟨s₂, hrun₂, hs₂⟩ := rotate_spec (!d) hs₁'.represents
  have hs₃ := setColor_spec hs₂.represents c
  have hs₄ := setColor_other hs₃.represents .black
  have hs₅ := setColor_child hs₄.represents .black
  refine ⟨_, _, ?_, hs₁'.trans (hs₂.trans (hs₃.trans (hs₄.trans hs₅))), ?_, color_branch _ _ _ _ _⟩
  · have hred' : s.isRed ((s.node r).child d) = true := by
      rw [hchild, hred]
      simp
    rw [removeFixupSide, if_pos hred', hcolor]
    cases d
    · simp only [↓reduceIte, rotateRight, rotateLeft, hrun₁, bind, Except.bind, Bool.not_false] at hrun₂ ⊢
      simp only [hrun₂, pure, Except.pure]
    · simp only [reduceCtorEq, ↓reduceIte, rotateRight, rotateLeft, hrun₁, bind, Except.bind,
        Bool.not_true] at hrun₂ ⊢
      simp only [hrun₂, pure, Except.pure]
  · have hl := Balanced.branch_black (d := d) (a := r) hv hfar
    have hrr := Balanced.branch_black (d := !d) (a := p) hu hx
    cases c
    · exact Balanced.branch_red hl (by simp) hrr (by simp)
    · exact Balanced.branch_black hl hrr

theorem removeFixupSide_far {c : Color} {q : Addr} {x u v near : ColoredTree Addr} {m : ℕ}
    (hs : Represents s (plug fs (branch d c x p (branch d .black near r (branch d .red u q v)))))
    (hx : x.Balanced m) (hu : u.Balanced m) (hv : v.Balanced m) (hnear : near.Balanced m)
    (hblack : near.color = .black) :
    ∃ s' t, removeFixupSide d s p r = .ok (s', true) ∧
      Rebuilt s s' (plug fs (branch d c x p (branch d .black near r (branch d .red u q v))))
        (plug fs t) ∧ t.Balanced (m + 1 + c.weight) ∧ t.color = c := by
  have hp : Represents s (plug fs (branch (!d) c (branch (!d) .black (branch d .red u q v) r near) p x)) := by
    rw [branch_not, branch_not]
    exact hs
  have hr : Represents s
      (plug (⟨!d, c, p, x⟩ :: fs) (branch (!d) .black (branch d .red u q v) r near)) := hp
  obtain ⟨hfar, hchild, -, -, hred, hnred⟩ := hr.branch
  rw [Bool.not_not] at hchild
  have hcolor : (s.node p).color = c := hp.branch.2.2.2.1
  obtain ⟨s₁, hrun₁, hs₁⟩ := rotate_spec (!d) hp
  have hs₁' : Rebuilt s s₁ (plug fs (branch d c x p (branch d .black near r (branch d .red u q v))))
      (plug fs (branch (!d) .black (branch d .red u q v) r (branch (!d) c near p x))) := by
    rw [← branch_not d c, ← branch_not d .black _ near]
    exact hs₁
  have hs₂ := setColor_spec hs₁'.represents c
  have hs₃ := setColor_other hs₂.represents .black
  have hs₄ := setColor_child hs₃.represents .black
  refine ⟨_, _, ?_, hs₁'.trans (hs₂.trans (hs₃.trans hs₄)), ?_, color_branch _ _ _ _ _⟩
  · have hnred' : ¬s.isRed ((s.node r).child d) = true := by
      rw [hchild, hnred, hblack]
      simp
    have hred' : s.isRed ((s.node r).child (!d)) = true := by
      rw [hfar, hred]
      simp
    rw [removeFixupSide, if_neg hnred', if_pos hred', hcolor, hfar, root?_branch]
    cases d
    · simp only [Bool.not_false] at hrun₁
      simp only [deref_some, ↓reduceIte, rotateLeft, hrun₁, bind, Except.bind, pure, Except.pure]
    · simp only [Bool.not_true] at hrun₁
      simp only [deref_some, reduceCtorEq, ↓reduceIte, rotateRight, hrun₁, bind, Except.bind, pure,
        Except.pure]
  · have hl := Balanced.branch_black (d := d) (a := q) hu hv
    have hrr := Balanced.branch_black (d := !d) (a := p) hnear hx
    cases c
    · exact Balanced.branch_red hl (by simp) hrr (by simp)
    · exact Balanced.branch_black hl hrr

theorem removeFixupSide_black {c : Color} {x near far : ColoredTree Addr} {m : ℕ}
    (hs : Represents s (plug fs (branch d c x p (branch d .black near r far))))
    (hx : x.Balanced m) (hnear : near.Balanced m)
    (hnc : near.color = .black) (hfar : far.Balanced m) (hfc : far.color = .black) :
    ∃ s' t, removeFixupSide d s p r = .ok (s', c == .red) ∧
      Rebuilt s s' (plug fs (branch d c x p (branch d .black near r far))) (plug fs t) ∧
      t.Balanced (m + 1) ∧ t.root? = some p ∧ t.color = .black := by
  have hp := hs.branch
  have hr : Represents s (plug (⟨!d, c, p, x⟩ :: fs) (branch d .black near r far)) := by
    rw [plug_cons, Frame.fill, branch_not]
    exact hs
  obtain ⟨hnchild, hfchild, -, -, hnred, hfred⟩ := hr.branch
  have hs₁ := setColor_other hs .red
  have hcolor : ((s.setColor r .red).node p).color = c := hs₁.represents.branch.2.2.2.1
  have hred : branch d .red near r far |>.Balanced m := Balanced.branch_red hnear hnc hfar hfc
  have hrun : removeFixupSide d s p r =
      if c = .red then .ok ((s.setColor r .red).setColor p .black, true)
      else .ok (s.setColor r .red, false) := by
    rw [removeFixupSide, if_neg (by rw [hnchild, hnred, hnc]; simp),
      if_neg (by rw [hfchild, hfred, hfc]; simp)]
    simp only [hcolor, pure, Except.pure]
  cases c with
  | red =>
    have hs₂ := setColor_spec hs₁.represents .black
    exact ⟨_, _, by rw [hrun, if_pos rfl]; rfl, hs₁.trans hs₂, Balanced.branch_black hx hred,
      by simp, by simp⟩
  | black =>
    exact ⟨_, _, by rw [hrun, if_neg (by simp)]; rfl, hs₁, Balanced.branch_black hx hred,
      by simp, by simp⟩

theorem removeFixupSide_spec {c : Color} {x sib : ColoredTree Addr} {m : ℕ}
    (hs : Represents s (plug fs (branch d c x p sib))) (hr : sib.root? = some r)
    (hx : x.Balanced m) (hsib : sib.Balanced (m + 1)) (hblack : sib.color = .black) :
    ∃ s' complete t, removeFixupSide d s p r = .ok (s', complete) ∧
      Rebuilt s s' (plug fs (branch d c x p sib)) (plug fs t) ∧
      (complete = true → t.Balanced (m + 1 + c.weight) ∧ (t.color = .red → c = .red)) ∧
      (complete = false → c = .black ∧ t.Balanced (m + 1) ∧ t.root? = some p ∧ t.color = .black) := by
  obtain ⟨near, a, far, rfl, hnear, hfar⟩ := hsib.exists_black d hblack
  obtain rfl : a = r := by simpa using hr
  by_cases hnc : near.color = .red
  · obtain ⟨u, q, v, rfl, ⟨hu, -⟩, hv, -⟩ := hnear.exists_red d hnc
    obtain ⟨s', t, hrun, hs', ht, htc⟩ := removeFixupSide_near hs hx hu hv hfar
    exact ⟨s', true, t, hrun, hs', fun _ => ⟨ht, fun h => htc ▸ h⟩, by simp⟩
  have hnb := Color.eq_black hnc
  by_cases hfc : far.color = .red
  · obtain ⟨u, q, v, rfl, ⟨hu, -⟩, hv, -⟩ := hfar.exists_red d hfc
    obtain ⟨s', t, hrun, hs', ht, htc⟩ := removeFixupSide_far hs hx hu hv hnear hnb
    exact ⟨s', true, t, hrun, hs', fun _ => ⟨ht, fun h => htc ▸ h⟩, by simp⟩
  have hfb := Color.eq_black hfc
  obtain ⟨s', t, hrun, hs', ht, hroot, htc⟩ := removeFixupSide_black hs hx hnear hnb hfar hfb
  refine ⟨s', c == .red, t, hrun, hs', ?_, ?_⟩
  · intro hc
    obtain rfl : c = .red := by simpa using hc
    exact ⟨ht, fun _ => rfl⟩
  · intro hc
    exact ⟨Color.eq_black (by simpa using hc), ht, hroot, htc⟩

theorem removeFixupLoop_spec (fs : List (Frame Addr)) (fuel : ℕ) (f : Frame Addr)
    (s : IntrusiveRedBlackTree K) (x : ColoredTree Addr) (trace : BitVec 64) (m : ℕ)
    (htrace : TraceMatches trace (f :: fs)) (hs : Represents s (plug (f :: fs) x))
    (hole : Hole (f :: fs) (m + 1)) (hx : x.Balanced m) (hfuel : fs.length < fuel) :
    ∃ s' u, removeFixupLoop fuel s f.value trace (fs.length + 1) = .ok s' ∧
      Rebuilt s s' (plug (f :: fs) x) u ∧ ∃ k, (u.paint .black).Balanced k := by
  obtain ⟨fuel, rfl⟩ : ∃ n, fuel = n + 1 := ⟨fuel - 1, by omega⟩
  obtain ⟨hsib, hred, hrest⟩ := hole
  have hside := htrace.head
  have hother := hs.head_color.2.1
  rcases f with ⟨d, c, p, sib⟩
  simp only at hsib hred hrest hside hother
  obtain ⟨r, hr⟩ : ∃ r, sib.root? = some r := by
    obtain ⟨e, u, a, v, rfl⟩ := exists_branch d hsib.ne_nil
    exact ⟨a, by simp⟩
  have hfinish : ∀ t : ColoredTree Addr, t.Balanced (m + 1 + c.weight) →
      (t.color = .red → c = .red) → ∃ k, ((plug fs t).paint .black).Balanced k := by
    intro t ht htc
    obtain ⟨k, hk⟩ := plug_balanced fs hrest ht (fun h => (hred (htc h)).2.2)
    exact balanced_paint_black hk
  by_cases hsc : sib.color = .red
  · -- a red sibling: after the rotation the parent is red, so the round completes
    obtain rfl : c = .black := Color.eq_black (fun h => by rw [(hred h).1] at hsc; cases hsc)
    obtain ⟨far, a, near, rfl, ⟨hfar, hfc⟩, hnear, hnc⟩ := hsib.exists_red (!d) hsc
    obtain rfl : a = r := by simpa using hr
    obtain ⟨q, hq⟩ : ∃ q, near.root? = some q := by
      obtain ⟨e, u, b, v, rfl⟩ := exists_branch d hnear.ne_nil
      exact ⟨b, by simp⟩
    obtain ⟨s₁, hrun₁, hs₁⟩ := removeFixupRotate_spec hs hq
    have hs₁' : Represents s₁ (plug (⟨d, .black, a, far⟩ :: fs) (branch d .red x p near)) :=
      hs₁.represents
    obtain ⟨s₂, complete, t, hrun₂, hs₂, hdone, hgo⟩ := removeFixupSide_spec hs₁' hq hx hnear hnc
    have hcomplete : complete = true := by
      cases complete
      · exact absurd (hgo rfl).1 (by simp)
      · rfl
    subst hcomplete
    obtain ⟨ht, -⟩ := hdone rfl
    refine ⟨s₂, _, ?_, hs₁.trans hs₂, ?_⟩
    · have hcol : (s.node a).color = .red := (holds_of_root?
        ((holds_plug _ _ _).mp hs.holds).1.2.2.2.2.1 (root?_branch _ _ _ _ _)).2.trans
        (color_branch _ _ _ _ _)
      simp only [removeFixupLoop, hside, hother, root?_branch, deref_some, bind, Except.bind, hcol,
        ↓reduceIte, hrun₁, hrun₂, pure, Except.pure]
    · exact hfinish ((⟨d, .black, a, far⟩ : Frame Addr).fill t) (Balanced.branch_black ht hfar)
        (by simp [Frame.fill])
  · -- a black sibling
    have hsb := Color.eq_black hsc
    have hs₀ : Represents s (plug fs (branch d c x p sib)) := hs
    obtain ⟨s₁, complete, t, hrun₁, hs₁, hdone, hgo⟩ := removeFixupSide_spec hs₀ hr hx hsib hsb
    have hcol : ¬(s.node r).color = .red := by
      rw [(holds_of_root? ((holds_plug _ _ _).mp hs.holds).1.2.2.2.2.1 hr).2]
      exact hsc
    have hrun : removeFixupLoop (fuel + 1) s p trace (fs.length + 1) =
        if complete then .ok s₁ else if fs.length < 1 then .ok s₁ else (do
          let parentIter ← deref (s₁.node p).parent
          removeFixupLoop fuel s₁ parentIter (trace >>> 1) fs.length) := by
      simp only [removeFixupLoop, hside, hother, hr, deref_some, bind, Except.bind, hcol, ↓reduceIte,
        hrun₁, pure, Except.pure, Nat.add_sub_cancel]
    cases complete with
    | true =>
      obtain ⟨ht, htc⟩ := hdone rfl
      exact ⟨s₁, _, by rw [hrun, if_pos rfl], hs₁, hfinish t ht htc⟩
    | false =>
      obtain ⟨rfl, ht, hroot, htb⟩ := hgo rfl
      cases fs with
      | nil =>
        refine ⟨s₁, _, ?_, hs₁, balanced_paint_black ht⟩
        rw [hrun, if_neg (by simp), if_pos (by simp)]
      | cons g gs =>
        have hparent : (s₁.node p).parent = some g.value :=
          (holds_of_root? ((holds_plug _ _ _).mp hs₁.represents.holds).2 hroot).1
        obtain ⟨s₂, u, hrun₂, hs₂, hk⟩ := removeFixupLoop_spec gs fuel g s₁ t (trace >>> 1) (m + 1)
          htrace.tail hs₁.represents hrest ht (by simp only [List.length_cons] at hfuel; omega)
        refine ⟨s₂, u, ?_, hs₁.trans hs₂, hk⟩
        rw [hrun, if_neg (by simp), if_neg (by simp)]
        simp only [hparent, deref_some, bind, Except.bind]
        exact hrun₂

theorem removeFixup_red (fuel : ℕ) (s : IntrusiveRedBlackTree K) (parentIter : Option Addr)
    (trace : TreeNodeTrace) : removeFixup fuel s parentIter trace .red = .ok s := by
  simp [removeFixup, pure, Except.pure]

theorem removeFixup_spec {fuel : ℕ} {x : ColoredTree Addr} {trace : BitVec 64} {m : ℕ}
    (htrace : TraceMatches trace fs) (hs : Represents s (plug fs x)) (hole : Hole fs (m + 1))
    (hx : x.Balanced m) (hfuel : fs.length ≤ fuel) :
    ∃ s' u, removeFixup fuel s (hole? fs) ⟨trace, fs.length⟩ .black = .ok s' ∧
      Rebuilt s s' (plug fs x) u ∧ ∃ k, (u.paint .black).Balanced k := by
  cases fs with
  | nil =>
    refine ⟨s, x, ?_, Rebuilt.refl hs, balanced_paint_black hx⟩
    simp [removeFixup, pure, Except.pure]
  | cons f fs =>
    have hred : s.isRed ((s.node f.value).child (sideBit trace)) = (x.color == .red) := by
      rw [htrace.head, hs.head_color.1, hs.tree_color]
    by_cases hxc : x.color = .red
    · -- the moved child was red: painting it makes up for the black node
      obtain ⟨u, a, v, rfl, ⟨hu, -⟩, hv, -⟩ := hx.exists_red false hxc
      have hs' := setColor_spec hs .black
      obtain ⟨k, hk⟩ := plug_balanced (f :: fs) hole
        (Balanced.branch_black (d := false) (a := a) hu hv) (by simp)
      refine ⟨_, _, ?_, hs', balanced_paint_black hk⟩
      have hchild : (s.node f.value).child (sideBit trace) = some a := by
        rw [htrace.head, hs.head_color.1, root?_branch]
      have hpaint : s.isRed (some a) = true := by
        rw [← hchild, hred, hxc]
        rfl
      simp [removeFixup, hchild, hpaint, bind, Except.bind, pure, Except.pure]
    · obtain ⟨s', u, hrun, hs', hk⟩ := removeFixupLoop_spec fs fuel f s x trace m htrace hs hole hx
        (by simp only [List.length_cons] at hfuel; omega)
      refine ⟨s', u, ?_, hs', hk⟩
      rw [← hrun]
      simp [removeFixup, hred, hxc, bind, Except.bind]

end Awn.IntrusiveTree
