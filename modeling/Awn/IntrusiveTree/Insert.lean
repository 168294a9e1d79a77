import Awn.IntrusiveTree.Fixup
import Awn.RedBlack.Tree

namespace Awn.IntrusiveTree

open RedBlack RedBlack.ColoredTree

variable {K : Type}

def TraceAgrees (trace : BitVec 64) (fs : List (Frame Addr)) : Prop :=
  ∀ i f, i < 64 → fs[i]? = some f → trace.getLsbD i = f.side

theorem TraceAgrees.matches {trace : BitVec 64} {fs : List (Frame Addr)} (h : TraceAgrees trace fs)
    (hlen : fs.length ≤ 64) : TraceMatches trace fs := by
  intro i f hf
  have hi : i < fs.length := (List.getElem?_eq_some_iff.mp hf).1
  exact h i f (by omega) hf

theorem TraceAgrees.push {trace : BitVec 64} {fs : List (Frame Addr)} (h : TraceAgrees trace fs)
    (f : Frame Addr) : TraceAgrees ((trace <<< 1) ||| (if f.side then 1 else 0)) (f :: fs) := by
  intro i g hi hg
  cases i with
  | zero =>
    obtain rfl : f = g := by simpa using hg
    cases f.side <;> simp
  | succ i =>
    have hb : (if f.side then (1 : BitVec 64) else 0).getLsbD (i + 1) = false := by
      cases f.side <;> simp
    rw [BitVec.getLsbD_or, BitVec.getLsbD_shiftLeft, hb, ← h i g (by omega) (by simpa using hg)]
    simp [hi]

section Compare

variable [LinearOrder K]

def Sorted (s : IntrusiveRedBlackTree K) (l : List Addr) : Prop :=
  l.Pairwise (fun a b => (s.node a).key < (s.node b).key)

theorem Sorted.congr {s s' : IntrusiveRedBlackTree K} {l : List Addr} (h : Sorted s l)
    (hk : ∀ a, (s'.node a).key = (s.node a).key) : Sorted s' l := by
  simpa only [Sorted, hk] using h

def Between (s : IntrusiveRedBlackTree K) (key : K) (fs : List (Frame Addr)) : Prop :=
  (∀ b ∈ before fs, (s.node b).key < key) ∧ ∀ b ∈ after fs, key < (s.node b).key

theorem Between.push {s : IntrusiveRedBlackTree K} {key : K} {fs : List (Frame Addr)}
    (h : Between s key fs) {c : Color} {a : Addr} {x y : ColoredTree Addr}
    (hs : Sorted s (branch (decide ((s.node a).key < key)) c x a y).toList)
    (hne : (s.node a).key ≠ key) :
    Between s key (⟨decide ((s.node a).key < key), c, a, y⟩ :: fs) := by
  obtain ⟨hb, ha⟩ := h
  by_cases hlt : (s.node a).key < key
  · simp only [hlt, decide_true, branch, ↓reduceIte, toList_node, Sorted] at hs
    have hy : ∀ b ∈ y.toList, (s.node b).key < (s.node a).key :=
      fun b hb => (List.pairwise_append.mp hs).2.2 b hb a (by simp)
    refine ⟨?_, by simpa [after, hlt] using ha⟩
    simp only [before, hlt, decide_true, ↓reduceIte, List.mem_append, List.mem_singleton]
    rintro b (hm | hm | rfl)
    · exact hb b hm
    · exact (hy b hm).trans hlt
    · exact hlt
  · have hgt : key < (s.node a).key := lt_of_le_of_ne (not_lt.mp hlt) (Ne.symm hne)
    simp only [hlt, decide_false, branch, Bool.false_eq_true, ↓reduceIte, toList_node, Sorted] at hs
    have hy : ∀ b ∈ y.toList, (s.node a).key < (s.node b).key :=
      (List.pairwise_cons.mp (List.pairwise_append.mp hs).2.1).1
    refine ⟨by simpa [before, hlt] using hb, ?_⟩
    simp only [after, hlt, decide_false, Bool.false_eq_true, ↓reduceIte, List.mem_append,
      List.mem_cons]
    rintro b ((rfl | hm) | hm)
    · exact hgt
    · exact hgt.trans (hy b hm)
    · exact ha b hm

theorem Sorted.plug {s : IntrusiveRedBlackTree K} (fs : List (Frame Addr)) {t : ColoredTree Addr}
    (h : Sorted s (plug fs t).toList) : Sorted s t.toList := by
  rw [toList_plug] at h
  exact (List.pairwise_append.mp (List.pairwise_append.mp h).1).2.1

theorem insertSearch_spec {s : IntrusiveRedBlackTree K} (key : K) (t : ColoredTree Addr)
    (fs : List (Frame Addr)) (fuel : ℕ) (a : Addr) (trace : BitVec 64)
    (hs : Represents s (plug fs t)) (hroot : t.root? = some a)
    (hsorted : Sorted s (plug fs t).toList) (hnew : ∀ b ∈ (plug fs t).toList, (s.node b).key ≠ key)
    (htrace : TraceAgrees trace fs) (hbetween : Between s key fs) (hfuel : t.toList.length ≤ fuel) :
    ∃ f gs trace', insertSearch s key fuel a trace fs.length =
        .ok (f.value, f.side, trace', gs.length + 1) ∧
      plug (f :: gs) .nil = plug fs t ∧ TraceAgrees trace' (f :: gs) ∧ Between s key (f :: gs) := by
  induction fuel generalizing t fs a trace with
  | zero =>
    have : t.toList = [] := List.length_eq_zero_iff.mp (by omega)
    have hm := mem_of_root? hroot
    simp [this] at hm
  | succ fuel ih =>
    have hka : (s.node a).key ≠ key := hnew a ((mem_plug _ _ _).mpr (Or.inl (mem_of_root? hroot)))
    obtain ⟨c, x, b, y, rfl⟩ := exists_branch (decide ((s.node a).key < key))
      (t := t) (by rintro rfl; cases hroot)
    obtain rfl : b = a := by simpa using hroot
    have hside := hs.branch.1
    have htrace' := htrace.push ⟨decide ((s.node b).key < key), c, b, y⟩
    have hbetween' := hbetween.push (hsorted.plug fs) hka
    cases x with
    | nil =>
      refine ⟨⟨decide ((s.node b).key < key), c, b, y⟩, fs, _, ?_, rfl, htrace', hbetween'⟩
      simp only [insertSearch, hka, ↓reduceIte, hside, root?_nil, pure, Except.pure]
    | node c' l n r =>
      have hlen : (node c' l n r).toList.length ≤ fuel := by
        have := fill_size ⟨decide ((s.node b).key < key), c, b, y⟩ (node c' l n r)
        simp only [Frame.fill] at this
        omega
      obtain ⟨f, gs, trace', hrun, hplug, ht, hb⟩ := ih (node c' l n r)
        (⟨decide ((s.node b).key < key), c, b, y⟩ :: fs) n _ hs rfl hsorted hnew htrace' hbetween' hlen
      refine ⟨f, gs, trace', ?_, hplug, ht, hb⟩
      rw [← hrun]
      simp only [insertSearch, hka, ↓reduceIte, hside, root?_node, List.length_cons]

end Compare

def link (s : IntrusiveRedBlackTree K) (insert nodeIter : Addr) (side : Bool) : IntrusiveRedBlackTree K :=
  ((((s.setChild nodeIter side (some insert)).setChild insert false none).setChild insert true
    none).setParent insert (some nodeIter)).setColor insert .red

theorem link_spec {s : IntrusiveRedBlackTree K} {f : Frame Addr} {fs : List (Frame Addr)} {a : Addr}
    (hs : Represents s (plug (f :: fs) .nil)) (ha : a ∉ (plug (f :: fs) .nil).toList) :
    Represents (link s a f.value f.side) (plug (f :: fs) (.node .red .nil a .nil)) ∧
      SameOutside s (link s a f.value f.side) (a :: (plug (f :: fs) .nil).toList) := by
  obtain ⟨hroot, hholds, hnodup⟩ := hs
  obtain ⟨hpath, -⟩ := (holds_plug _ _ _).mp hholds
  obtain ⟨-, hnp, -⟩ := (nodup_plug _ _).mp hnodup
  have hap : a ∉ pathList (f :: fs) := fun h => ha ((mem_plug _ _ _).mpr (Or.inr h))
  have hfp : f.value ∈ pathList (f :: fs) := (mem_pathList_cons _ _ _).mpr (Or.inl rfl)
  have hne : f.value ≠ a := by
    rintro rfl
    exact hap hfp
  have hnode : (link s a f.value f.side).node a =
      ⟨none, none, some f.value, .red, (s.node a).key⟩ := by
    simp [link, IntrusiveRedBlackTree.setChild, IntrusiveRedBlackTree.setParent,
      IntrusiveRedBlackTree.setColor, IntrusiveRedBlackTree.modify,
      IntrusiveRedBlackTreeNode.withChild, hne.symm]
  have hvalue : (link s a f.value f.side).node f.value =
      (s.node f.value).withChild f.side (some a) := by
    simp [link, IntrusiveRedBlackTree.setChild, IntrusiveRedBlackTree.setParent,
      IntrusiveRedBlackTree.setColor, IntrusiveRedBlackTree.modify, hne]
  have hother : ∀ r, r ≠ a → r ≠ f.value → (link s a f.value f.side).node r = s.node r := by
    intro r hra hrf
    simp [link, IntrusiveRedBlackTree.setChild, IntrusiveRedBlackTree.setParent,
      IntrusiveRedBlackTree.setColor, IntrusiveRedBlackTree.modify, hra, hrf]
  refine ⟨⟨?_, ?_, ?_⟩, ?_, ?_⟩
  · rw [root?_plug_cons f fs _ .nil, ← hroot]
    rfl
  · rw [holds_plug]
    refine ⟨hpath.fill hnp hvalue ?_, by simp [Holds, hnode]⟩
    intro r hr hrf
    apply hother r _ hrf
    rintro rfl
    exact hap hr
  · rw [nodup_plug]
    refine ⟨by simp, hnp, ?_⟩
    simpa using hap
  · intro r
    by_cases hra : r = a
    · subst hra
      rw [hnode]
    by_cases hrf : r = f.value
    · subst hrf
      simp [hvalue]
    · rw [hother r hra hrf]
  · intro r hr
    apply hother r (fun h => hr (h ▸ List.mem_cons_self))
    rintro rfl
    exact hr (List.mem_cons_of_mem _ ((mem_plug _ _ _).mpr (Or.inr hfp)))

theorem paintRoot_spec {s : IntrusiveRedBlackTree K} {t : ColoredTree Addr} {root : Addr}
    (hs : Represents s t) (hr : s.root = some root) :
    Rebuilt s (paintRoot s root) t (t.paint .black) := by
  have ht : t.root? = some root := by rw [← hs.root, hr]
  obtain ⟨c, x, a, y, rfl⟩ := exists_branch false (t := t) (by rintro rfl; cases ht)
  obtain rfl : a = root := by simpa using ht
  have hparent : s.setParent a none = s := by
    have hp : (s.node a).parent = none := (holds_of_root? hs.holds ht).1
    have hsame : { s.node a with parent := none } = s.node a := by rw [← hp]
    rw [IntrusiveRedBlackTree.setParent, IntrusiveRedBlackTree.modify, hsame,
      Function.update_eq_self]
  have hfocus : Represents s (RedBlack.plug [] (branch false c x a y)) := hs
  have hpaint := setColor_spec hfocus .black
  rw [paintRoot, hparent, paint_branch]
  exact hpaint

section Compare

variable [LinearOrder K]

structure IsRedBlack (s : IntrusiveRedBlackTree K) (t : ColoredTree Addr) : Prop where
  represents : Represents s t
  sorted : Sorted s t.toList
  black : t.color = .black
  noRedRed : t.NoRedRed
  blackHeight : ∃ n, t.BlackHeight n
  detached : ∀ a, a ∉ t.toList → (s.node a).left = none ∧ (s.node a).right = none

theorem sorted_insert {s : IntrusiveRedBlackTree K} {fs : List (Frame Addr)} {a : Addr}
    (h : Sorted s (plug fs .nil).toList) (hb : Between s (s.node a).key fs) :
    Sorted s (plug fs (.node .red .nil a .nil)).toList := by
  obtain ⟨hlow, hhigh⟩ := hb
  simp only [toList_plug, toList_nil, toList_node, List.append_nil, List.nil_append,
    List.append_assoc, List.singleton_append, Sorted] at h ⊢
  obtain ⟨hbefore, hafter, hcross⟩ := List.pairwise_append.mp h
  refine List.pairwise_append.mpr ⟨hbefore, List.pairwise_cons.mpr ⟨hhigh, hafter⟩, ?_⟩
  intro b hb c hc
  rcases List.mem_cons.mp hc with rfl | hc
  · exact hlow b hb
  · exact hcross b hb c hc

theorem insertImpl_spec {s : IntrusiveRedBlackTree K} {t : ColoredTree Addr} {a : Addr} {fuel : ℕ}
    (hs : IsRedBlack s t) (ha : a ∉ t.toList) (hnew : ∀ b ∈ t.toList, (s.node b).key ≠ (s.node a).key)
    (hsize : t.toList.length ≤ 2 ^ 32) (hfuel : t.toList.length ≤ fuel) (hne : t ≠ .nil) :
    ∃ s' u, insertImpl fuel s a = .ok s' ∧ Represents s' u ∧ SameOutside s s' (a :: t.toList) ∧
      Sorted s' u.toList ∧ (∃ k, (u.paint .black).Balanced k) ∧
      u.toList.Perm (a :: t.toList) := by
  obtain ⟨r, hr⟩ : ∃ r, t.root? = some r := by
    obtain ⟨c, x, b, y, rfl⟩ := exists_branch false hne
    exact ⟨b, by simp⟩
  obtain ⟨k, hk⟩ := hs.blackHeight
  obtain ⟨f, gs, trace, hrun, hplug, htrace, hbetween⟩ := insertSearch_spec
    (s.node a).key t [] fuel r 0 hs.represents hr hs.sorted hnew
    (by intro i f _ h; simp at h) ⟨by simp [before], by simp [after]⟩ hfuel
  rw [plug_nil] at hplug
  obtain ⟨m, hhole, hnil, -⟩ := exists_hole (f :: gs) (t := .nil) (k := k)
    (by rw [hplug]; exact ⟨hs.noRedRed, hk⟩) (by rw [hplug]; exact hs.black)
  have hlen := path_length_le (f :: gs) m .nil hhole (by rw [hplug]; exact hsize)
  obtain rfl : m = 0 := (blackHeight_nil m).mp hnil.2
  have hrep : Represents s (plug (f :: gs) .nil) := by
    rw [hplug]
    exact hs.represents
  obtain ⟨hlink, hout⟩ := link_spec hrep (by rw [hplug]; exact ha)
  have hred : (ColoredTree.node .red .nil a .nil).Balanced 0 :=
    Balanced.branch_red (d := false) balanced_nil rfl balanced_nil rfl
  obtain ⟨s', u, hfix, hu, hbal⟩ := insertFixupLoop_spec (f :: gs) _ _ trace 0
    (htrace.matches (by omega)) hlink hhole hred rfl
  have hlist : (plug (f :: gs) (.node .red .nil a .nil)).toList.Perm (a :: t.toList) := by
    rw [← hplug]
    simpa using (perm_plug (f :: gs) (.node .red .nil a .nil)).trans
      ((perm_plug (f :: gs) .nil).symm.cons a)
  have hout' : SameOutside (link s a f.value f.side) s' (a :: t.toList) :=
    ⟨hu.outside.key, fun b hb => hu.outside.node b (fun h => hb (hlist.mem_iff.mp h))⟩
  rw [hplug] at hout
  refine ⟨s', u, ?_, hu.represents, hout.trans hout', ?_, hbal, by rw [hu.toList]; exact hlist⟩
  · have hparent : ((link s a f.value f.side).node a).parent = some f.value :=
      (holds_of_root? ((holds_plug _ _ _).mp hlink.holds).2 rfl).1
    have hroot : s.root = some r := by rw [hs.represents.root, hr]
    have hcount : gs.length + 1 < 0x40 := by simpa using Nat.lt_of_le_of_lt hlen (by decide)
    simp only [List.length_nil] at hrun
    simp only [insertImpl, hroot, hrun, bind, Except.bind, check, hcount, decide_true, ↓reduceIte]
    rw [← hfix, insertFixup, show ((((s.setChild f.value f.side (some a)).setChild a false none).setChild
      a true none).setParent a (some f.value)).setColor a .red = link s a f.value f.side from rfl,
      hparent]
    rfl
  · rw [hu.toList]
    have hsorted := sorted_insert (by rw [hplug]; exact hs.sorted) hbetween
    exact hsorted.congr (fun b => (hu.outside.key b).trans (hout.key b))

theorem insert_empty {s : IntrusiveRedBlackTree K} {a : Addr} {fuel : ℕ} (hs : IsRedBlack s .nil) :
    ∃ s' u, insert fuel s a = .ok s' ∧ IsRedBlack s' u ∧ SameOutside s s' [a] ∧
      u.toList.Perm [a] := by
  obtain ⟨hleft, hright⟩ := hs.detached a (by simp)
  have hroot : s.root = none := hs.represents.root
  have hnode : (paintRoot (s.setRoot (some a)) a).node a =
      ⟨none, none, none, .black, (s.node a).key⟩ := by
    simp [paintRoot, IntrusiveRedBlackTree.setParent, IntrusiveRedBlackTree.setColor,
      IntrusiveRedBlackTree.modify, hleft, hright]
  have hother : ∀ b, b ≠ a → (paintRoot (s.setRoot (some a)) a).node b = s.node b := by
    intro b hb
    simp [paintRoot, IntrusiveRedBlackTree.setParent, IntrusiveRedBlackTree.setColor,
      IntrusiveRedBlackTree.modify, hb]
  refine ⟨paintRoot (s.setRoot (some a)) a, .node .black .nil a .nil, ?_,
    ⟨⟨rfl, ?_, by simp⟩, by simp [Sorted], rfl, ?_, ⟨1, ?_⟩, ?_⟩, ⟨?_, ?_⟩, by simp⟩
  · simp only [insert, insertImpl, hroot, bind, Except.bind, pure, Except.pure,
      IntrusiveRedBlackTree.root_setRoot, deref_some]
  · simp [Holds, hnode]
  · simp [NoRedRed]
  · simp [BlackHeight]
  · intro b hb
    rw [hother b (by simpa using hb)]
    exact hs.detached b (by simp)
  · intro b
    by_cases hb : b = a
    · rw [hb, hnode]
    · rw [hother b hb]
  · intro b hb
    exact hother b (by simpa using hb)

theorem insert_spec {s : IntrusiveRedBlackTree K} {t : ColoredTree Addr} {a : Addr} {fuel : ℕ}
    (hs : IsRedBlack s t) (ha : a ∉ t.toList) (hnew : ∀ b ∈ t.toList, (s.node b).key ≠ (s.node a).key)
    (hsize : t.toList.length ≤ 2 ^ 32) (hfuel : t.toList.length ≤ fuel) :
    ∃ s' u, insert fuel s a = .ok s' ∧ IsRedBlack s' u ∧ SameOutside s s' (a :: t.toList) ∧
      u.toList.Perm (a :: t.toList) := by
  by_cases hne : t = .nil
  · subst hne
    exact insert_empty hs
  obtain ⟨s₁, u, hrun, hu, hout, hsorted, ⟨k, hk⟩, hperm⟩ :=
    insertImpl_spec hs ha hnew hsize hfuel hne
  obtain ⟨r, hr⟩ : ∃ r, s₁.root = some r := by
    have hmem : a ∈ u.toList := hperm.mem_iff.mpr List.mem_cons_self
    obtain ⟨c, x, b, y, rfl⟩ := exists_branch false (t := u) (by rintro rfl; cases hmem)
    exact ⟨b, by rw [hu.root]; simp⟩
  have hpaint := paintRoot_spec hu hr
  have hlist : (u.paint .black).toList = u.toList := toList_paint _ _
  have hout' : SameOutside s₁ (paintRoot s₁ r) (a :: t.toList) :=
    ⟨hpaint.outside.key, fun b hb => hpaint.outside.node b (fun h => hb (hperm.mem_iff.mp h))⟩
  refine ⟨paintRoot s₁ r, u.paint .black, ?_, ⟨hpaint.represents, ?_, ?_, hk.1, ⟨k, hk.2⟩, ?_⟩,
    hout.trans hout', by rw [hlist]; exact hperm⟩
  · simp only [insert, hrun, hr, bind, Except.bind, deref_some, pure, Except.pure]
  · rw [hlist]
    exact hsorted.congr hpaint.outside.key
  · cases u <;> rfl
  · intro b hb
    rw [hlist, hperm.mem_iff] at hb
    rw [(hout.trans hout').node b hb]
    exact hs.detached b (fun h => hb (List.mem_cons_of_mem _ h))

end Compare

end Awn.IntrusiveTree
