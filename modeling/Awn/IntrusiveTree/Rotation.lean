import Awn.IntrusiveTree.Node
import Awn.IntrusiveTree.Operations

namespace Awn.IntrusiveTree

open RedBlack RedBlack.ColoredTree

variable {K : Type}

structure Rotated (d : Bool) (s s' : IntrusiveRedBlackTree K) (a b : Addr) (inner parent : Option Addr) :
    Prop where
  root : s'.root = if parent = none then some b else s.root
  low : s'.node a = { (s.node a).withChild d inner with parent := some b }
  high : s'.node b = { (s.node b).withChild (!d) (some a) with parent := parent }
  innerRoot : ∀ r, inner = some r → s'.node r = { s.node r with parent := some a }
  above : ∀ p, parent = some p →
    s'.node p = (s.node p).withChild ((s.node p).left != some a) (some b)
  other : ∀ r, r ≠ a → r ≠ b → inner ≠ some r → parent ≠ some r → s'.node r = s.node r

theorem rotate_nodes (d : Bool) (s : IntrusiveRedBlackTree K) (a b : Addr) (inner parent : Option Addr)
    (hchild : (s.node a).child d = some b) (hparent : (s.node a).parent = parent)
    (hinner : (s.node b).child (!d) = inner) (hab : a ≠ b) (hia : inner ≠ some a)
    (hib : inner ≠ some b) (hpa : parent ≠ some a) (hpb : parent ≠ some b)
    (hip : ∀ r, inner = some r → parent ≠ some r) :
    ∃ s', rotate d s a = .ok (s', b) ∧ Rotated d s s' a b inner parent := by
  have hba : b ≠ a := hab.symm
  cases inner with
  | none =>
    cases parent with
    | none =>
      simp only [rotate, hchild, hparent, hinner, deref_some, bind, Except.bind, pure, Except.pure,
        Except.ok.injEq, Prod.mk.injEq, and_true, exists_eq_left']
      constructor <;> simp_all [IntrusiveRedBlackTree.setParentIfAny, IntrusiveRedBlackTree.setChild,
        IntrusiveRedBlackTree.setParent, IntrusiveRedBlackTree.setRoot, IntrusiveRedBlackTree.modify]
    | some p =>
      have hap : a ≠ p := fun h => hpa (by rw [h])
      have hbp : b ≠ p := fun h => hpb (by rw [h])
      have hpa' : p ≠ a := hap.symm
      have hpb' : p ≠ b := hbp.symm
      simp only [rotate, hchild, hparent, hinner, deref_some, bind, Except.bind, pure, Except.pure,
        Except.ok.injEq, Prod.mk.injEq, and_true, exists_eq_left']
      constructor <;> simp_all [IntrusiveRedBlackTree.setParentIfAny, IntrusiveRedBlackTree.setChild,
        IntrusiveRedBlackTree.setParent, IntrusiveRedBlackTree.modify, Function.update_apply]
      intro r _ _ h
      exact fun he => absurd he.symm h
  | some i =>
    have hai : a ≠ i := fun h => hia (by rw [h])
    have hbi : b ≠ i := fun h => hib (by rw [h])
    have hia' : i ≠ a := hai.symm
    have hib' : i ≠ b := hbi.symm
    cases parent with
    | none =>
      simp only [rotate, hchild, hparent, hinner, deref_some, bind, Except.bind, pure, Except.pure,
        Except.ok.injEq, Prod.mk.injEq, and_true, exists_eq_left']
      constructor <;> simp_all [IntrusiveRedBlackTree.setParentIfAny, IntrusiveRedBlackTree.setChild,
        IntrusiveRedBlackTree.setParent, IntrusiveRedBlackTree.setRoot, IntrusiveRedBlackTree.modify,
        Function.update_apply]
      intro r _ _ h
      exact fun he => absurd he.symm h
    | some p =>
      have hap : a ≠ p := fun h => hpa (by rw [h])
      have hbp : b ≠ p := fun h => hpb (by rw [h])
      have hpa' : p ≠ a := hap.symm
      have hpb' : p ≠ b := hbp.symm
      have hpi : p ≠ i := fun h => hip i rfl (by rw [h])
      have hip' : i ≠ p := hpi.symm
      simp only [rotate, hchild, hparent, hinner, deref_some, bind, Except.bind, pure, Except.pure,
        Except.ok.injEq, Prod.mk.injEq, and_true, exists_eq_left']
      constructor <;> simp_all [IntrusiveRedBlackTree.setParentIfAny, IntrusiveRedBlackTree.setChild,
        IntrusiveRedBlackTree.setParent, IntrusiveRedBlackTree.modify, Function.update_apply]
      intro r _ _ h h'
      simp [Ne.symm h, Ne.symm h']

theorem Rotated.key {d : Bool} {s s' : IntrusiveRedBlackTree K} {a b : Addr} {inner parent : Option Addr}
    (h : Rotated d s s' a b inner parent) (r : Addr) : (s'.node r).key = (s.node r).key := by
  by_cases ha : r = a
  · subst ha
    simp [h.low]
  by_cases hb : r = b
  · subst hb
    simp [h.high]
  by_cases hi : inner = some r
  · simp [h.innerRoot r hi]
  by_cases hp : parent = some r
  · simp [h.above r hp]
  · rw [h.other r ha hb hi hp]

theorem Holds.reparent {node node' : Addr → IntrusiveRedBlackTreeNode K} {p q : Option Addr}
    {t : ColoredTree Addr} (h : Holds node p t) (hn : t.toList.Nodup)
    (hr : ∀ r, t.root? = some r → node' r = { node r with parent := q })
    (ho : ∀ a ∈ t.toList, t.root? ≠ some a → node' a = node a) : Holds node' q t := by
  cases t with
  | nil => trivial
  | node c l a r =>
    obtain ⟨hl, hrr, hp, hc, hhl, hhr⟩ := h
    have ha := hr a rfl
    rw [node_eq_branch false, nodup_toList_branch] at hn
    obtain ⟨-, -, hal, har, -⟩ := hn
    have hleft : ∀ b ∈ l.toList, node' b = node b := by
      intro b hb
      apply ho b (by simp [hb])
      rintro ⟨⟩
      exact hal hb
    have hright : ∀ b ∈ r.toList, node' b = node b := by
      intro b hb
      apply ho b (by simp [hb])
      rintro ⟨⟩
      exact har hb
    exact ⟨by rw [ha, ← hl], by rw [ha, ← hrr], by rw [ha], by rw [ha, ← hc], hhl.congr hleft,
      hhr.congr hright⟩

theorem root?_plug_cons (f : Frame Addr) (fs : List (Frame Addr)) (t u : ColoredTree Addr) :
    (plug (f :: fs) t).root? = (plug (f :: fs) u).root? := by
  induction fs generalizing f t u with
  | nil => simp [Frame.fill]
  | cons g fs ih => exact ih g (f.fill t) (f.fill u)

theorem hole?_mem {fs : List (Frame Addr)} {p : Addr} (h : hole? fs = some p) : p ∈ pathList fs := by
  cases fs with
  | nil => cases h
  | cons f fs =>
    obtain rfl : f.value = p := by simpa using h
    exact (mem_pathList_cons f fs _).mpr (Or.inl rfl)

theorem HoldsPath.fill {node node' : Addr → IntrusiveRedBlackTreeNode K} {f : Frame Addr}
    {fs : List (Frame Addr)} {p q : Option Addr} (h : HoldsPath node (f :: fs) p)
    (hn : (pathList (f :: fs)).Nodup) (hv : node' f.value = (node f.value).withChild f.side q)
    (ho : ∀ r ∈ pathList (f :: fs), r ≠ f.value → node' r = node r) :
    HoldsPath node' (f :: fs) q := by
  obtain ⟨hd, hnd, hpar, hc, hs, hh⟩ := h
  obtain ⟨hfs, hff, -, -, -⟩ := (nodup_pathList_cons f fs).mp hn
  refine ⟨by rw [hv]; simp, by rw [hv]; simpa using hnd, by rw [hv]; simpa using hpar,
    by rw [hv]; simpa using hc, ?_, ?_⟩
  · apply hs.congr
    intro r hr
    apply ho r ((mem_pathList_cons f fs r).mpr (Or.inr (Or.inl hr)))
    rintro rfl
    exact hfs hr
  · apply hh.congr_list
    intro r hr
    apply ho r ((mem_pathList_cons f fs r).mpr (Or.inr (Or.inr hr)))
    rintro rfl
    exact hff hr

theorem HoldsPath.left_ne {node : Addr → IntrusiveRedBlackTreeNode K} {f : Frame Addr}
    {fs : List (Frame Addr)} {a : Addr} (h : HoldsPath node (f :: fs) (some a))
    (ha : a ∉ pathList (f :: fs)) : ((node f.value).left != some a) = f.side := by
  obtain ⟨hd, hnd, -⟩ := h
  cases hf : f.side with
  | false =>
    rw [hf] at hd
    simpa [IntrusiveRedBlackTreeNode.child] using hd
  | true =>
    rw [hf] at hnd
    have hl : (node f.value).left = f.sibling.root? := hnd
    have hne : (node f.value).left ≠ some a := by
      rw [hl]
      intro hr
      exact ha ((mem_pathList_cons f fs a).mpr (Or.inr (Or.inl (mem_of_root? hr))))
    simpa using hne

theorem HoldsPath.redirect {node node' : Addr → IntrusiveRedBlackTreeNode K} {fs : List (Frame Addr)}
    {a : Addr} {q : Option Addr} (h : HoldsPath node fs (some a)) (ha : a ∉ pathList fs)
    (hn : (pathList fs).Nodup)
    (hp : ∀ p, hole? fs = some p →
      node' p = (node p).withChild ((node p).left != some a) q)
    (ho : ∀ r ∈ pathList fs, hole? fs ≠ some r → node' r = node r) : HoldsPath node' fs q := by
  cases fs with
  | nil => trivial
  | cons f fs =>
    have hv := hp f.value rfl
    rw [h.left_ne ha] at hv
    apply h.fill hn hv
    intro r hr hne
    apply ho r hr
    rintro ⟨⟩
    exact hne rfl

theorem rotate_spec (d : Bool) {s : IntrusiveRedBlackTree K} {fs : List (Frame Addr)} {c e : Color}
    {x y z : ColoredTree Addr} {a b : Addr}
    (h : Represents s (plug fs (branch d c (branch d e x b y) a z))) :
    ∃ s', rotate d s a = .ok (s', b) ∧
      Rebuilt s s' (plug fs (branch d c (branch d e x b y) a z))
        (plug fs (branch d e x b (branch d c y a z))) := by
  obtain ⟨hroot, hholds, hnodup⟩ := h
  obtain ⟨hpath, htree⟩ := (holds_plug _ _ _).mp hholds
  rw [holds_branch, holds_branch, root?_branch] at htree
  obtain ⟨had, haz, hap, hac, ⟨hbx, hby, hbp, hbc, hx, hy⟩, hz⟩ := htree
  rw [root?_branch] at hpath
  obtain ⟨hnt, hnp, hdis⟩ := (nodup_plug _ _).mp hnodup
  simp only [nodup_toList_branch, mem_toList_branch, not_or, List.Disjoint] at hnt hdis
  obtain ⟨⟨hnx, hny, hbnx, hbny, hxy⟩, hnz, ⟨hab, hanx, hany⟩, hanz, hbz⟩ := hnt
  have hapath : a ∉ pathList fs := fun hm => hdis (Or.inl rfl) hm
  have hbpath : b ∉ pathList fs := fun hm => hdis (Or.inr (Or.inl (Or.inl rfl))) hm
  have hypath : ∀ r ∈ y.toList, r ∉ pathList fs :=
    fun r hr hm => hdis (Or.inr (Or.inl (Or.inr (Or.inr hr)))) hm
  obtain ⟨s', hrun, hrot⟩ := rotate_nodes d s a b y.root? (hole? fs) had hap hby hab
    (fun hr => hany (mem_of_root? hr)) (fun hr => hbny (mem_of_root? hr))
    (fun hr => hapath (hole?_mem hr)) (fun hr => hbpath (hole?_mem hr))
    (fun r hr hr' => hypath r (mem_of_root? hr) (hole?_mem hr'))
  have hkeep : ∀ r, r ≠ a → r ≠ b → r ∉ y.toList → r ∉ pathList fs → s'.node r = s.node r := by
    intro r hra hrb hry hrp
    exact hrot.other r hra hrb (fun hr => hry (mem_of_root? hr)) (fun hr => hrp (hole?_mem hr))
  have hlist := toList_plug_congr fs (toList_rotate d c e e c x y z a b)
  refine ⟨s', hrun, ⟨?_, ?_, by rw [hlist]; exact hnodup⟩, ⟨hrot.key, ?_⟩, hlist⟩
  · rw [hrot.root]
    cases fs with
    | nil => simp
    | cons f fs =>
      rw [if_neg (by simp), hroot]
      exact root?_plug_cons f fs _ _
  · rw [holds_plug, root?_branch, holds_branch, holds_branch, root?_branch]
    refine ⟨?_, ⟨?_, ?_, ?_, ?_, ?_, ?_, ?_, ?_, ?_, ?_, ?_⟩⟩
    · apply hpath.redirect hapath hnp hrot.above
      intro r hr hne
      exact hrot.other r (fun he => hapath (he ▸ hr)) (fun he => hbpath (he ▸ hr))
        (fun hi => hypath r (mem_of_root? hi) hr) hne
    · rw [hrot.high]
      cases d <;> simpa [IntrusiveRedBlackTreeNode.child, IntrusiveRedBlackTreeNode.withChild] using hbx
    · rw [hrot.high]
      cases d <;> simp [IntrusiveRedBlackTreeNode.child, IntrusiveRedBlackTreeNode.withChild]
    · rw [hrot.high]
    · rw [hrot.high]
      simpa using hbc
    · apply hx.congr
      intro r hr
      apply hkeep r
      · rintro rfl
        exact hanx hr
      · rintro rfl
        exact hbnx hr
      · exact fun hm => hxy hr hm
      · exact fun hm => hdis (Or.inr (Or.inl (Or.inr (Or.inl hr)))) hm
    · rw [hrot.low]
      cases d <;> simp [IntrusiveRedBlackTreeNode.child, IntrusiveRedBlackTreeNode.withChild]
    · rw [hrot.low]
      cases d <;> simpa [IntrusiveRedBlackTreeNode.child, IntrusiveRedBlackTreeNode.withChild] using haz
    · rw [hrot.low]
    · rw [hrot.low]
      simpa using hac
    · apply hy.reparent hny hrot.innerRoot
      intro r hr hne
      apply hrot.other r _ _ hne
      · exact fun hm => hypath r hr (hole?_mem hm)
      · rintro rfl
        exact hany hr
      · rintro rfl
        exact hbny hr
    · apply hz.congr
      intro r hr
      apply hkeep r
      · rintro rfl
        exact hanz hr
      · rintro rfl
        exact hbz (Or.inl rfl) hr
      · exact fun hm => hbz (Or.inr (Or.inr hm)) hr
      · exact fun hm => hdis (Or.inr (Or.inr hr)) hm
  · intro r hr
    rw [mem_plug] at hr
    simp only [mem_toList_branch, not_or] at hr
    exact hkeep r hr.1.1 hr.1.2.1.1 hr.1.2.1.2.2 hr.2

variable {K : Type} {s : IntrusiveRedBlackTree K} {fs : List (Frame Addr)}

theorem setColor_spec {d : Bool} {c : Color} {x y : ColoredTree Addr} {a : Addr}
    (h : Represents s (plug fs (branch d c x a y))) (e : Color) :
    Rebuilt s (s.setColor a e) (plug fs (branch d c x a y)) (plug fs (branch d e x a y)) := by
  obtain ⟨hroot, hholds, hnodup⟩ := h
  obtain ⟨hpath, htree⟩ := (holds_plug _ _ _).mp hholds
  rw [holds_branch] at htree
  obtain ⟨hx, hy, hp, hc, hhx, hhy⟩ := htree
  obtain ⟨hnt, hnp, hdis⟩ := (nodup_plug _ _).mp hnodup
  simp only [nodup_toList_branch, mem_toList_branch, List.Disjoint] at hnt hdis
  obtain ⟨-, -, hax, hay, -⟩ := hnt
  have hkeep : ∀ r, r ≠ a → (s.setColor a e).node r = s.node r :=
    fun r hr => s.node_modify_of_ne hr _
  have ha : (s.setColor a e).node a = { s.node a with color := e } := s.node_modify a _
  have hlist := toList_plug_congr fs (toList_branch_color d e c x y a)
  refine ⟨⟨?_, ?_, by rw [hlist]; exact hnodup⟩, ⟨?_, ?_⟩, hlist⟩
  · cases fs with
    | nil => simpa [IntrusiveRedBlackTree.setColor] using hroot
    | cons f fs =>
      rw [root?_plug_cons f fs _ (branch d c x a y)]
      exact hroot
  · rw [holds_plug, holds_branch, ha, root?_branch]
    rw [root?_branch] at hpath
    refine ⟨hpath.congr_list ?_, hx, hy, hp, rfl, hhx.congr ?_, hhy.congr ?_⟩
    · intro r hr
      apply hkeep r
      rintro rfl
      exact hdis (Or.inl rfl) hr
    · intro r hr
      apply hkeep r
      rintro rfl
      exact hax hr
    · intro r hr
      apply hkeep r
      rintro rfl
      exact hay hr
  · intro r
    by_cases hr : r = a
    · subst hr
      rw [ha]
    · rw [hkeep r hr]
  · intro r hr
    apply hkeep r
    rintro rfl
    exact hr ((mem_plug _ _ _).mpr (Or.inl (by simp)))

theorem setColor_child {d e : Bool} {c c' : Color} {x y z : ColoredTree Addr} {a b : Addr}
    (h : Represents s (plug fs (branch d c (branch e c' x a y) b z))) (c'' : Color) :
    Rebuilt s (s.setColor a c'') (plug fs (branch d c (branch e c' x a y) b z))
      (plug fs (branch d c (branch e c'' x a y) b z)) := by
  have h' : Represents s (plug (⟨d, c, b, z⟩ :: fs) (branch e c' x a y)) := h
  exact setColor_spec h' c''

theorem setColor_other {d e : Bool} {c c' : Color} {x y z : ColoredTree Addr} {a b : Addr}
    (h : Represents s (plug fs (branch d c z b (branch e c' x a y)))) (c'' : Color) :
    Rebuilt s (s.setColor a c'') (plug fs (branch d c z b (branch e c' x a y)))
      (plug fs (branch d c z b (branch e c'' x a y))) := by
  rw [← branch_not d c (branch e c' x a y)] at h ⊢
  rw [← branch_not d c (branch e c'' x a y)]
  exact setColor_child h c''

theorem Represents.head_color {f : Frame Addr} {t : ColoredTree Addr}
    (h : Represents s (plug (f :: fs) t)) :
    (s.node f.value).child f.side = t.root? ∧ (s.node f.value).child (!f.side) = f.sibling.root? ∧
      (s.node f.value).parent = hole? fs ∧ (s.node f.value).color = f.color ∧
      s.isRed f.sibling.root? = (f.sibling.color == .red) := by
  obtain ⟨⟨hc, hn, hp, hcol, hs, -⟩, -⟩ := (holds_plug _ _ _).mp h.holds
  exact ⟨hc, hn, hp, hcol, isRed_root? hs⟩

theorem Represents.tree_color {t : ColoredTree Addr} (h : Represents s (plug fs t)) :
    s.isRed t.root? = (t.color == .red) :=
  isRed_root? ((holds_plug _ _ _).mp h.holds).2

theorem Represents.branch {d : Bool} {c : Color} {x y : ColoredTree Addr} {a : Addr}
    (h : Represents s (plug fs (branch d c x a y))) :
    (s.node a).child d = x.root? ∧ (s.node a).child (!d) = y.root? ∧ (s.node a).parent = hole? fs ∧
      (s.node a).color = c ∧ s.isRed x.root? = (x.color == .red) ∧
      s.isRed y.root? = (y.color == .red) := by
  obtain ⟨hx, hy, hp, hc, hhx, hhy⟩ :=
    (holds_branch _ _ _ _ _ _ _).mp ((holds_plug _ _ _).mp h.holds).2
  exact ⟨hx, hy, hp, hc, isRed_root? hhx, isRed_root? hhy⟩

theorem balanced_paint_black {t : ColoredTree Addr} {n : ℕ} (h : t.Balanced n) :
    ∃ m, (t.paint .black).Balanced m := by
  cases t with
  | nil => exact ⟨n, h⟩
  | node c l a r =>
    rw [node_eq_branch false, paint_branch]
    rw [node_eq_branch false] at h
    cases c with
    | red =>
      obtain ⟨⟨hl, -⟩, hr, -⟩ := (balanced_red false _ _ a n).mp h
      exact ⟨n + 1, hl.branch_black hr⟩
    | black => exact ⟨n, h⟩

end Awn.IntrusiveTree
