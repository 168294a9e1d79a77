import Awn.IntrusiveTree.Fixup
import Awn.IntrusiveTree.RemoveSwap

namespace Awn.IntrusiveTree

open RedBlack RedBlack.ColoredTree

variable {K : Type} {s : IntrusiveRedBlackTree K} {fs : List (Frame Addr)}

theorem before_append (gs fs : List (Frame Addr)) : before (gs ++ fs) = before fs ++ before gs := by
  induction gs with
  | nil => simp [before]
  | cons g gs ih => simp [before, ih]

theorem after_append (gs fs : List (Frame Addr)) : after (gs ++ fs) = after gs ++ after fs := by
  induction gs with
  | nil => rfl
  | cons g gs ih => simp [after, ih]

theorem mem_pathList_append (gs fs : List (Frame Addr)) (a : Addr) :
    a ∈ pathList (gs ++ fs) ↔ a ∈ pathList gs ∨ a ∈ pathList fs := by
  simp only [pathList, before_append, after_append, List.mem_append]
  tauto

theorem before_left {gs : List (Frame Addr)} (h : ∀ g ∈ gs, g.side = false) : before gs = [] := by
  induction gs with
  | nil => rfl
  | cons g gs ih =>
    rw [before, ih (fun f hf => h f (List.mem_cons_of_mem g hf)), h g List.mem_cons_self]
    rfl

theorem erase_successor (gs : List (Frame Addr)) {c c' : Color} {l y : ColoredTree Addr} {a n : Addr}
    (hg : ∀ g ∈ gs, g.side = false)
    (hn : (plug (gs ++ ⟨true, c, a, l⟩ :: fs) (branch true c' y n .nil)).toList.Nodup) :
    (plug (gs ++ ⟨true, c, n, l⟩ :: fs) y).toList =
      (plug (gs ++ ⟨true, c, a, l⟩ :: fs) (branch true c' y n .nil)).toList.erase a := by
  simp only [toList_plug, before_append, after_append, before_left hg, before, after, branch,
    ↓reduceIte, toList_node, toList_nil, List.append_nil, List.nil_append, List.append_assoc,
    List.cons_append] at hn ⊢
  rw [← List.append_assoc (before fs) l.toList (a :: _)] at hn ⊢
  rw [erase_middle hn, List.append_assoc]

theorem length_le_plug (fs : List (Frame Addr)) (t : ColoredTree Addr) :
    fs.length + t.toList.length ≤ (plug fs t).toList.length := by
  induction fs generalizing t with
  | nil => simp
  | cons f fs ih =>
    have hfill := fill_size f t
    have hrest := ih (f.fill t)
    rw [plug_cons, List.length_cons]
    omega

theorem represents_ne {f : Frame Addr} {t : ColoredTree Addr} {a : Addr}
    (hs : Represents s (plug (f :: fs) t)) (ha : a ∈ t.toList) : f.value ≠ a := by
  rintro rfl
  exact ((nodup_plug _ _).mp hs.nodup).2.2 ha ((mem_pathList_cons _ _ _).mpr (Or.inl rfl))

theorem parent_ne_self {f : Frame Addr} {t : ColoredTree Addr}
    (hs : Represents s (plug (f :: fs) t)) : hole? fs ≠ some f.value := by
  intro h
  exact ((nodup_pathList_cons f fs).mp ((nodup_plug _ _).mp hs.nodup).2.1).2.1 (hole?_mem h)

theorem removeSwap_adjacent {c c' : Color} {l y : ColoredTree Addr} {a n p : Addr} {fuel k : ℕ}
    (hs : Represents s (plug (⟨true, c, a, l⟩ :: fs) (branch true c' y n .nil)))
    (hbal : (plug (⟨true, c, a, l⟩ :: fs) (branch true c' y n .nil)).Balanced k)
    (hblack : (plug (⟨true, c, a, l⟩ :: fs) (branch true c' y n .nil)).color = .black)
    (hl : l.root? = some p) (hnext : nextNodeLoop s fuel n = .ok n)
    (hlen : fs.length < 62) (hfuel : fs.length < fuel) :
    ∃ s' result, removeSwap fuel s a = .ok (s', result) ∧
      Swapped s s' a (plug (⟨true, c, a, l⟩ :: fs) (branch true c' y n .nil)) result
        (⟨true, c, n, l⟩ :: fs) y := by
  obtain ⟨trace, htrace, hmatch⟩ :=
    traceParentIfAny_spec hs (root?_branch _ _ _ _ _) hlen hfuel
  obtain ⟨hright, hleft, hparent, hcolor, -⟩ := hs.head_color
  simp only [root?_branch, IntrusiveRedBlackTreeNode.child, ↓reduceIte, Bool.not_true,
    Bool.false_eq_true, hl] at hright hleft hparent hcolor
  obtain ⟨-, -, hnparent, hncolor, -⟩ := hs.branch
  have hne : a ≠ n := represents_ne hs (mem_of_root? (root?_branch _ _ _ _ _))
  have hself : hole? fs ≠ some a := parent_ne_self hs
  have hs₁ := setColor_spec hs c
  have ha₁ : (s.setColor n c).node a = s.node a := s.node_modify_of_ne hne _
  obtain ⟨hrep, hout, -⟩ := swapAdjacent_spec hs₁.represents hl
  rw [hole?_cons, List.length_cons] at htrace
  refine ⟨swapAdjacent (s.setColor n c) a n p, ⟨some n, c', ⟨trace, fs.length + 1⟩⟩, ?_, hrep,
    hs₁.outside.trans (hout.mono (hs₁.toList ▸ List.Subset.refl _)), 
    erase_successor [] (by simp) hs.nodup, rfl, rfl,
    hmatch.of_sides rfl, (cutAt_of_balanced hbal hblack).rename [] n⟩
  have hkeep : (transplant (s.setColor n c) a (some n)).node a = s.node a := by
    rw [node_transplant_of_ne _ (by rwa [ha₁, hparent]), ha₁]
  have hkeep₁ : ((transplant (s.setColor n c) a (some n)).setParent n (hole? fs)).node a = s.node a := by
    rw [IntrusiveRedBlackTree.setParent, IntrusiveRedBlackTree.node_modify_of_ne _ hne, hkeep]
  simp only [removeSwap, hright, hleft, hnext, hnparent, htrace, hncolor, hcolor, ha₁, hparent, hkeep₁,
    IntrusiveRedBlackTree.node_setChild_of_ne _ hne, hole?_cons, deref_some, bind, Except.bind, pure,
    Except.pure, ↓reduceIte, swapAdjacent]

theorem removeSwap_distant {c c' : Color} {l y : ColoredTree Addr} {a n p q : Addr} {fuel k : ℕ}
    {g : Frame Addr} {gs : List (Frame Addr)} (hg : ∀ f ∈ g :: gs, f.side = false)
    (hs : Represents s (plug (g :: gs ++ ⟨true, c, a, l⟩ :: fs) (branch true c' y n .nil)))
    (hbal : (plug (g :: gs ++ ⟨true, c, a, l⟩ :: fs) (branch true c' y n .nil)).Balanced k)
    (hblack : (plug (g :: gs ++ ⟨true, c, a, l⟩ :: fs) (branch true c' y n .nil)).color = .black)
    (hl : l.root? = some p) (hq : (plug (g :: gs) (branch true c' y n .nil)).root? = some q)
    (hnext : nextNodeLoop s fuel q = .ok n)
    (hlen : (g :: gs ++ ⟨true, c, a, l⟩ :: fs).length < 62)
    (hfuel : (g :: gs ++ ⟨true, c, a, l⟩ :: fs).length < fuel) :
    ∃ s' result, removeSwap fuel s a = .ok (s', result) ∧
      Swapped s s' a (plug (g :: gs ++ ⟨true, c, a, l⟩ :: fs) (branch true c' y n .nil)) result
        (g :: gs ++ ⟨true, c, n, l⟩ :: fs) y := by
  obtain ⟨trace, htrace, hmatch⟩ :=
    traceParentIfAny_spec hs (root?_branch _ _ _ _ _) hlen.le hfuel.le
  rw [List.cons_append, hole?_cons] at htrace
  have hupper : Represents s (plug (⟨true, c, a, l⟩ :: fs) (plug (g :: gs) (branch true c' y n .nil))) := by
    rw [← plug_append]
    exact hs
  obtain ⟨hright, hleft, hparent, hcolor, -⟩ := hupper.head_color
  simp only [IntrusiveRedBlackTreeNode.child, ↓reduceIte, Bool.not_true, Bool.false_eq_true, hl, hq]
    at hright hleft hparent hcolor
  obtain ⟨-, -, hnparent, hncolor, -⟩ := hs.branch
  have hn : n ∈ (plug (g :: gs) (branch true c' y n .nil)).toList :=
    (mem_plug _ _ _).mpr (Or.inl (mem_of_root? (root?_branch _ _ _ _ _)))
  have hne : a ≠ n := represents_ne hupper hn
  have hnodup := (nodup_plug _ _).mp hs.nodup
  have hnpath : n ∉ pathList (g :: gs ++ ⟨true, c, a, l⟩ :: fs) :=
    fun hm => hnodup.2.2 (mem_of_root? (root?_branch true c' y .nil n)) hm
  have hny : n ∉ y.toList := ((nodup_toList_branch _ _ _ _ _).mp hnodup.1).2.2.1
  have hrightn : (s.node a).right ≠ some n := by
    rw [hright, ← hq, root?_plug_cons g gs _ .nil]
    intro hr
    apply hnpath
    rcases (mem_plug (g :: gs) .nil n).mp (mem_of_root? hr) with hm | hm
    · simp at hm
    · exact (mem_pathList_append _ _ _).mpr (Or.inl hm)
  have hs₁ := setColor_spec hs c
  have ha₁ : (s.setColor n c).node a = s.node a := s.node_modify_of_ne hne _
  obtain ⟨hn₁, -, hnparent₁, -⟩ := hs₁.represents.branch
  obtain ⟨hcut, hcutout⟩ := cut_spec hs₁.represents
  have hg₁ : ((s.setColor n c).node g.value).left = some n := by
    have hgs := hs₁.represents.head_color.1
    rw [hg g List.mem_cons_self, root?_branch] at hgs
    exact hgs
  have habsent : n ∉ (plug (g :: gs ++ ⟨true, c, a, l⟩ :: fs) y).toList := by
    rw [mem_plug]
    exact fun h => h.elim hny hnpath
  have hshape : ∀ b, plug (g :: gs ++ ⟨true, c, b, l⟩ :: fs) y =
      plug fs (branch true c (plug (g :: gs) y) b l) := by
    intro b
    rw [plug_append]
    rfl
  rw [hshape] at hcut hcutout habsent
  obtain ⟨hrep, hout⟩ := takeOver_spec hcut habsent
  rw [← hshape] at hrep
  have hlist := erase_successor (g :: gs) hg hs.nodup
  have hraise : raiseRightNext (s.setColor n c) n g.value = cut (s.setColor n c) n true := by
    have hchild : ((s.setColor n c).node n).child true = ((s.setColor n c).node n).right := rfl
    rw [raiseRightNext, cut, hchild, hnparent₁]
    cases ((s.setColor n c).node n).right with
    | none => simp [transplant, hnparent₁, hg₁, IntrusiveRedBlackTree.setParentIfAny]
    | some q => simp [transplant, hnparent₁, hg₁, IntrusiveRedBlackTree.setParentIfAny]
  have hsub : n :: (plug fs (branch true c (plug (g :: gs) y) a l)).toList ⊆
      (plug (g :: gs ++ ⟨true, c, a, l⟩ :: fs) (branch true c' y n .nil)).toList := by
    rw [← hshape]
    intro b hb
    rcases List.mem_cons.mp hb with rfl | hb
    · exact (mem_plug _ _ _).mpr (Or.inl (mem_of_root? (root?_branch _ _ _ _ _)))
    · rcases (mem_plug _ _ _).mp hb with hy | hp
      · exact (mem_plug _ _ _).mpr (Or.inl ((mem_toList_branch _ _ _ _ _ _).mpr (Or.inr (Or.inl hy))))
      · exact (mem_plug _ _ _).mpr (Or.inr hp)
  refine ⟨takeOver (cut (s.setColor n c) n true) a n,
    ⟨some g.value, c', ⟨trace, (g :: gs ++ ⟨true, c, a, l⟩ :: fs).length⟩⟩, ?_, hrep, ?_, hlist, rfl,
    by simp, hmatch.of_sides (by simp), (cutAt_of_balanced hbal hblack).rename (g :: gs) n⟩
  · have hrightn₁ : ¬((s.setColor n c).node a).right = some n := by rwa [ha₁]
    simp only [removeSwap, hright, hleft, hnext, hnparent, List.cons_append, hole?_cons, htrace, hncolor,
      hcolor, hrightn₁, deref_some, bind, Except.bind, pure, Except.pure, ↓reduceIte]
    rw [hraise]
  · exact hs₁.outside.trans ((hcutout.mono (List.subset_of_cons_subset hsub)).trans (hout.mono hsub) |>.mono
      (hs₁.toList ▸ List.Subset.refl _))

theorem plug_length_le {t : ColoredTree Addr} {k : ℕ} (h : (plug fs t).Balanced k)
    (hb : (plug fs t).color = .black) (hsize : (plug fs t).toList.length ≤ 2 ^ 32) :
    fs.length ≤ 62 := by
  obtain ⟨m, hole, -, -⟩ := exists_hole fs h hb
  exact path_length_le fs m t hole hsize

theorem removeSwap_spec {c : Color} {l r : ColoredTree Addr} {a : Addr} {fuel k : ℕ}
    (hs : Represents s (plug fs (.node c l a r))) (hbal : (plug fs (.node c l a r)).Balanced k)
    (hblack : (plug fs (.node c l a r)).color = .black)
    (hsize : (plug fs (.node c l a r)).toList.length ≤ 2 ^ 32)
    (hfuel : (plug fs (.node c l a r)).toList.length ≤ fuel) :
    ∃ s' result gs x, removeSwap fuel s a = .ok (s', result) ∧
      Swapped s s' a (plug fs (.node c l a r)) result gs x := by
  have hlen := plug_length_le hbal hblack hsize
  have hlen' := length_le_plug fs (.node c l a r)
  simp only [toList_node, List.length_append, List.length_cons] at hlen'
  obtain ⟨hleft, hright, -, -, hhl, hhr⟩ := ((holds_plug _ _ _).mp hs.holds).2
  cases hr : r.root? with
  | none =>
    obtain rfl : r = .nil := by cases r <;> simp_all
    obtain ⟨s', result, hrun, hswap⟩ :=
      removeSwapSingle_spec false fuel hs hbal hblack hlen (by omega)
    refine ⟨s', result, fs, l, ?_, hswap⟩
    simp only [removeSwap, hright, hr, hrun]
  | some q =>
    cases hl : l.root? with
    | none =>
      obtain rfl : l = .nil := by cases l <;> simp_all
      obtain ⟨s', result, hrun, hswap⟩ :=
        removeSwapSingle_spec true fuel hs hbal hblack hlen (by omega)
      refine ⟨s', result, fs, r, ?_, hswap⟩
      simp only [removeSwap, hright, hr, hleft, hl, hrun]
    | some p =>
      obtain ⟨gs, c', n, y, rfl, hg, hnext⟩ := nextNodeLoop_spec fuel hhr hr (by omega)
      have hshape : plug fs (.node c l a (plug gs (branch true c' y n .nil))) =
          plug (gs ++ ⟨true, c, a, l⟩ :: fs) (branch true c' y n .nil) := by
        rw [plug_append]
        rfl
      rw [hshape] at hs hbal hblack hsize hfuel ⊢
      have hpath : (⟨true, c', n, .nil⟩ :: (gs ++ ⟨true, c, a, l⟩ :: fs) : List (Frame Addr)).length ≤ 62 :=
        plug_length_le (t := y) hbal hblack hsize
      have hsteps := length_le_plug (gs ++ ⟨true, c, a, l⟩ :: fs) (branch true c' y n .nil)
      have hone : 0 < (branch true c' y n .nil).toList.length :=
        List.length_pos_of_mem (mem_of_root? (root?_branch true c' y .nil n))
      rw [List.length_cons] at hpath
      cases gs with
      | nil =>
        obtain rfl : n = q := by simpa using hr
        rw [List.nil_append] at hpath hsteps hfuel
        rw [List.length_cons] at hpath hsteps
        obtain ⟨s', result, hrun, hswap⟩ :=
          removeSwap_adjacent hs hbal hblack hl hnext (by omega) (by omega)
        exact ⟨s', result, _, y, hrun, hswap⟩
      | cons g gs =>
        obtain ⟨s', result, hrun, hswap⟩ :=
          removeSwap_distant hg hs hbal hblack hl hr hnext (by omega) (by omega)
        exact ⟨s', result, _, y, hrun, hswap⟩

theorem clear_spec {t : ColoredTree Addr} {a : Addr} (hs : Represents s t) (ha : a ∉ t.toList) :
    Represents ((s.setChild a false none).setChild a true none) t ∧
      (((s.setChild a false none).setChild a true none).node a).left = none ∧
      (((s.setChild a false none).setChild a true none).node a).right = none ∧
      SameOutside s ((s.setChild a false none).setChild a true none) [a] := by
  have hother : ∀ b, b ≠ a → ((s.setChild a false none).setChild a true none).node b = s.node b := by
    intro b hb
    rw [IntrusiveRedBlackTree.node_setChild_of_ne _ hb, IntrusiveRedBlackTree.node_setChild_of_ne _ hb]
  refine ⟨⟨hs.root, ?_, hs.nodup⟩, ?_, ?_, ?_, ?_⟩
  · apply hs.holds.congr
    intro b hb
    apply hother b
    rintro rfl
    exact ha hb
  · simp [IntrusiveRedBlackTree.setChild, IntrusiveRedBlackTreeNode.withChild]
  · simp [IntrusiveRedBlackTree.setChild, IntrusiveRedBlackTreeNode.withChild]
  · intro b
    simp
  · intro b hb
    exact hother b (by simpa using hb)

section Compare

variable [LinearOrder K]

theorem Sorted.mem_side {c : Color} {x y : ColoredTree Addr} {a b : Addr}
    (hs : Sorted s (branch (decide ((s.node b).key < (s.node a).key)) c x b y).toList)
    (ha : a ∈ (branch (decide ((s.node b).key < (s.node a).key)) c x b y).toList) (hne : a ≠ b) :
    a ∈ x.toList ∧ (s.node b).key ≠ (s.node a).key := by
  rw [mem_toList_branch] at ha
  by_cases hlt : (s.node b).key < (s.node a).key
  · simp only [hlt, decide_true, branch, ↓reduceIte, toList_node, Sorted] at hs
    refine ⟨(ha.resolve_left hne).resolve_right ?_, hlt.ne⟩
    intro hy
    exact lt_asymm hlt ((List.pairwise_append.mp hs).2.2 a hy b (by simp))
  · simp only [hlt, decide_false, branch, Bool.false_eq_true, ↓reduceIte, toList_node, Sorted] at hs
    have hx : a ∈ x.toList := by
      refine (ha.resolve_left hne).resolve_right ?_
      intro hy
      exact hlt ((List.pairwise_cons.mp (List.pairwise_append.mp hs).2.1).1 a hy)
    exact ⟨hx, ((List.pairwise_append.mp hs).2.2 a hx b (by simp)).ne'⟩

theorem removeSearch_spec (fs : List (Frame Addr)) {t : ColoredTree Addr} {a b : Addr} {fuel : ℕ}
    (hs : Represents s (plug fs t)) (hsorted : Sorted s t.toList) (hroot : t.root? = some b)
    (ha : a ∈ t.toList) (hfuel : t.toList.length ≤ fuel) :
    removeSearch s (s.node a).key fuel b = .ok a ∧
      ∃ gs c l r, plug fs t = plug gs (.node c l a r) := by
  induction fuel generalizing t fs b with
  | zero =>
    have hnil : t.toList = [] := List.length_eq_zero_iff.mp (by omega)
    simp [hnil] at ha
  | succ fuel ih =>
    obtain ⟨c, x, b', y, rfl⟩ := exists_branch (decide ((s.node b).key < (s.node a).key))
      (t := t) (by rintro rfl; cases hroot)
    obtain rfl : b' = b := by simpa using hroot
    by_cases hab : a = b'
    · subst hab
      exact ⟨by simp [removeSearch, pure, Except.pure], fs, c, x, y, by simp [branch]⟩
    · obtain ⟨hax, hkey⟩ := hsorted.mem_side ha hab
      obtain ⟨b, hb⟩ : ∃ b, x.root? = some b := by
        obtain ⟨e, u, b, v, rfl⟩ := exists_branch false (t := x) (by rintro rfl; cases hax)
        exact ⟨b, by simp⟩
      have hlen := fill_size ⟨decide ((s.node b').key < (s.node a).key), c, b', y⟩ x
      simp only [Frame.fill] at hlen
      have hx : Sorted s x.toList :=
        Sorted.plug [⟨decide ((s.node b').key < (s.node a).key), c, b', y⟩] hsorted
      obtain ⟨hrun, hshape⟩ :=
        ih (⟨decide ((s.node b').key < (s.node a).key), c, b', y⟩ :: fs) hs hx hb hax (by omega)
      refine ⟨?_, hshape⟩
      rw [← hrun]
      simp only [removeSearch, hkey, ↓reduceIte, hs.branch.1, hb]

theorem removeImpl_spec {t : ColoredTree Addr} {a : Addr} {fuel : ℕ} (hs : IsRedBlack s t)
    (ha : a ∈ t.toList) (hsize : t.toList.length ≤ 2 ^ 32) (hfuel : t.toList.length ≤ fuel) :
    ∃ s' u, removeImpl fuel s (s.node a).key = .ok s' ∧ Represents s' u ∧
      SameOutside s s' t.toList ∧ u.toList = t.toList.erase a ∧
      (∃ k, (u.paint .black).Balanced k) ∧ (s'.node a).left = none ∧ (s'.node a).right = none := by
  obtain ⟨b, hb⟩ : ∃ b, t.root? = some b := by
    obtain ⟨c, x, b, y, rfl⟩ := exists_branch false (t := t) (by rintro rfl; cases ha)
    exact ⟨b, by simp⟩
  have hroot : s.root = some b := by rw [hs.represents.root, hb]
  obtain ⟨hsearch, fs, c, l, r, hshape⟩ :=
    removeSearch_spec [] hs.represents hs.sorted hb ha hfuel
  rw [plug_nil] at hshape
  obtain ⟨k, hk⟩ := hs.blackHeight
  have hbal : t.Balanced k := ⟨hs.noRedRed, hk⟩
  have hrep := hs.represents
  have hblack := hs.black
  rw [hshape] at hrep hbal hblack hsize hfuel
  obtain ⟨s₁, ⟨out, color, trace, count⟩, gs, x, hrun, hswap⟩ :=
    removeSwap_spec (s := s) (a := a) hrep hbal hblack hsize hfuel
  rw [← hshape] at hswap hfuel
  obtain ⟨hrep₁, hout₁, hlist₁, rfl, hcount, hmatch, m, hole, hred, hblk⟩ := hswap
  simp only at hcount hmatch hred hblk
  subst hcount
  have hsub : (plug gs x).toList ⊆ t.toList := by
    rw [hlist₁]
    exact List.erase_subset
  have hlen : gs.length ≤ fuel := by
    have hsteps := length_le_plug gs x
    have herase : (t.toList.erase a).length ≤ t.toList.length := List.length_erase_le
    rw [hlist₁] at hsteps
    omega
  obtain ⟨s₂, u, hfix, hu, hbal₂⟩ : ∃ s₂ u,
      removeFixup fuel s₁ (hole? gs) ⟨trace, gs.length⟩ color = .ok s₂ ∧
        Rebuilt s₁ s₂ (plug gs x) u ∧ ∃ k, (u.paint .black).Balanced k := by
    cases color with
    | red =>
      obtain ⟨hx, hxc⟩ := hred rfl
      obtain ⟨k, hk⟩ := plug_balanced gs hole hx (fun h => by rw [hxc] at h; cases h)
      exact ⟨s₁, _, removeFixup_red _ _ _ _, Rebuilt.refl hrep₁, balanced_paint_black hk⟩
    | black =>
      obtain ⟨j, rfl, hx⟩ := hblk rfl
      exact removeFixup_spec hmatch hrep₁ hole hx hlen
  have hu' : u.toList = t.toList.erase a := hu.toList.trans hlist₁
  have hau : a ∉ u.toList := by
    rw [hu']
    exact hs.represents.nodup.not_mem_erase
  obtain ⟨hclear, hleft, hright, hout₃⟩ := clear_spec hu.represents hau
  refine ⟨_, u, ?_, hclear, ?_, hu', hbal₂, hleft, hright⟩
  · simp only [removeImpl, hroot, hsearch, hrun, hfix, bind, Except.bind, pure, Except.pure]
  · exact hout₁.trans ((hu.outside.mono hsub).trans
      (hout₃.mono (List.cons_subset.mpr ⟨ha, List.nil_subset _⟩)))

theorem remove_spec {t : ColoredTree Addr} {a : Addr} {fuel : ℕ} (hs : IsRedBlack s t)
    (ha : a ∈ t.toList) (hsize : t.toList.length ≤ 2 ^ 32) (hfuel : t.toList.length ≤ fuel) :
    ∃ s' u, remove fuel s a = .ok s' ∧ IsRedBlack s' u ∧ SameOutside s s' t.toList ∧
      u.toList = t.toList.erase a := by
  obtain ⟨s₁, u, hrun, hu, hout, hlist, ⟨k, hk⟩, hleft, hright⟩ := removeImpl_spec hs ha hsize hfuel
  have hsorted : Sorted s₁ u.toList := by
    have hpart : Sorted s (t.toList.erase a) := List.Pairwise.sublist List.erase_sublist hs.sorted
    rw [hlist]
    exact hpart.congr hout.key
  obtain ⟨s₂, hfinish, hpaint⟩ : ∃ s₂, remove fuel s a = .ok s₂ ∧ Rebuilt s₁ s₂ u (u.paint .black) := by
    cases hr : s₁.root with
    | none =>
      have hnil : u = .nil := by
        have hroot := hu.root
        rw [hr] at hroot
        cases u with
        | nil => rfl
        | node => cases hroot
      subst hnil
      exact ⟨s₁, by simp [remove, removeKey, hrun, hr, bind, Except.bind, pure, Except.pure],
        Rebuilt.refl hu⟩
    | some root =>
      exact ⟨_, by simp [remove, removeKey, hrun, hr, bind, Except.bind, pure, Except.pure],
        paintRoot_spec hu hr⟩
  have hsub : u.toList ⊆ t.toList := by
    rw [hlist]
    exact List.erase_subset
  have hout₂ := hout.trans (hpaint.outside.mono hsub)
  refine ⟨s₂, u.paint .black, hfinish, ⟨hpaint.represents, ?_, ?_, hk.1, ⟨k, hk.2⟩, ?_⟩, hout₂, ?_⟩
  · rw [toList_paint]
    exact hsorted.congr hpaint.outside.key
  · cases u <;> rfl
  · intro b hb
    rw [toList_paint, hlist, hs.represents.nodup.mem_erase_iff] at hb
    by_cases hba : b = a
    · subst hba
      rw [hpaint.outside.node b (by rw [hlist]; exact hs.represents.nodup.not_mem_erase)]
      exact ⟨hleft, hright⟩
    · have hbt : b ∉ t.toList := fun h => hb ⟨hba, h⟩
      rw [hout₂.node b hbt]
      exact hs.detached b hbt
  · rw [toList_paint, hlist]

end Compare

end Awn.IntrusiveTree
