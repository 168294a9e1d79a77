import Awn.IntrusiveTree.Insert

namespace Awn.IntrusiveTree

open RedBlack RedBlack.ColoredTree

variable {K : Type} {s : IntrusiveRedBlackTree K} {fs : List (Frame Addr)}

theorem getLsbD_side (b : Bool) (i j : ℕ) (hi : i < 64) :
    ((if b then (1 : BitVec 64) else 0) <<< i).getLsbD j = (b && decide (j = i)) := by
  rw [BitVec.getLsbD_shiftLeft]
  cases b
  · simp
  · have hone : (1 : BitVec 64).getLsbD (j - i) = decide (j - i = 0) := by
      cases j - i <;> simp
    simp only [↓reduceIte, Bool.true_and, hone]
    by_cases hj : j = i
    · subst hj
      simp [hi]
    · by_cases hlt : j < i
      · simp [hlt, hj]
      · have hsub : j - i ≠ 0 := by omega
        simp [hsub, hj]

theorem traceParentLoop_step {f : Frame Addr} {t : ColoredTree Addr} {a : Addr} {mask : BitVec 64}
    {i : ℕ} (hs : Represents s (plug (f :: fs) t)) (ha : t.root? = some a) (hi : i < 64)
    (hmask : ∀ j, i ≤ j → mask.getLsbD j = false) :
    ∃ mask', (∀ fuel, traceParentLoop s (fuel + 1) f.value a mask i =
        match hole? fs with
        | none => .ok ⟨mask', i + 1⟩
        | some next => traceParentLoop s fuel next f.value mask' (i + 1)) ∧
      (∀ j, j < i → mask'.getLsbD j = mask.getLsbD j) ∧ mask'.getLsbD i = f.side ∧
      ∀ j, i + 1 ≤ j → mask'.getLsbD j = false := by
  obtain ⟨hpath, -⟩ := (holds_plug _ _ _).mp hs.holds
  have hout : a ∉ pathList (f :: fs) :=
    fun hm => ((nodup_plug _ _).mp hs.nodup).2.2 (mem_of_root? ha) hm
  rw [ha] at hpath
  refine ⟨mask ||| ((if f.side then (1 : BitVec 64) else 0) <<< i), ?_, ?_, ?_, ?_⟩
  · intro fuel
    simp only [traceParentLoop, hpath.left_ne hout, hs.head_color.2.2.1, Nat.mod_eq_of_lt hi]
    cases hole? fs <;> rfl
  · intro j hj
    have hne : j ≠ i := by omega
    rw [BitVec.getLsbD_or, getLsbD_side _ _ _ hi]
    simp [hne]
  · rw [BitVec.getLsbD_or, getLsbD_side _ _ _ hi, hmask i (le_refl i)]
    simp
  · intro j hj
    have hne : j ≠ i := by omega
    rw [BitVec.getLsbD_or, getLsbD_side _ _ _ hi, hmask j (by omega)]
    simp [hne]

theorem traceParentLoop_spec (fs : List (Frame Addr)) (f : Frame Addr) (t : ColoredTree Addr)
    (a : Addr) (fuel i : ℕ) (mask : BitVec 64) (hs : Represents s (plug (f :: fs) t))
    (ha : t.root? = some a) (hlen : i + fs.length < 64) (hfuel : fs.length < fuel)
    (hmask : ∀ j, i ≤ j → mask.getLsbD j = false) :
    ∃ mask', traceParentLoop s fuel f.value a mask i = .ok ⟨mask', i + (fs.length + 1)⟩ ∧
      (∀ j, j < i → mask'.getLsbD j = mask.getLsbD j) ∧
      ∀ j g, (f :: fs)[j]? = some g → mask'.getLsbD (i + j) = g.side := by
  induction fs generalizing f t a fuel i mask with
  | nil =>
    obtain ⟨fuel, rfl⟩ : ∃ n, fuel = n + 1 := ⟨fuel - 1, by omega⟩
    obtain ⟨mask', hrun, hlow, hat, -⟩ := traceParentLoop_step hs ha (by omega) hmask
    refine ⟨mask', hrun fuel, hlow, ?_⟩
    intro j g hg
    cases j with
    | zero =>
      obtain rfl : f = g := by simpa using hg
      exact hat
    | succ j => simp at hg
  | cons g gs ih =>
    obtain ⟨fuel, rfl⟩ : ∃ n, fuel = n + 1 := ⟨fuel - 1, by omega⟩
    simp only [List.length_cons] at hlen hfuel
    obtain ⟨mask₁, hrun₁, hlow₁, hat₁, hhigh₁⟩ := traceParentLoop_step hs ha (by omega) hmask
    obtain ⟨mask', hrun, hlow, hbits⟩ := ih g (f.fill t) f.value fuel (i + 1) mask₁ hs
      (root?_branch _ _ _ _ _) (by omega) (by omega) hhigh₁
    refine ⟨mask', ?_, ?_, ?_⟩
    · rw [hrun₁, hole?_cons]
      simp only [hrun, List.length_cons]
      congr 2
      omega
    · intro j hj
      rw [hlow j (by omega), hlow₁ j hj]
    · intro j h hj
      cases j with
      | zero =>
        obtain rfl : f = h := by simpa using hj
        rw [Nat.add_zero, hlow i (by omega), hat₁]
      | succ j =>
        rw [← hbits j h (by simpa using hj)]
        congr 1
        omega

theorem traceParent_spec {f : Frame Addr} {t : ColoredTree Addr} {a : Addr} {fuel : ℕ}
    (hs : Represents s (plug (f :: fs) t)) (ha : t.root? = some a) (hlen : (f :: fs).length ≤ 64)
    (hfuel : fs.length < fuel) :
    ∃ mask, traceParent fuel s f.value a = .ok ⟨mask, (f :: fs).length⟩ ∧
      TraceMatches mask (f :: fs) := by
  obtain ⟨mask, hrun, -, hbits⟩ := traceParentLoop_spec fs f t a fuel 0 0 hs ha
    (by simp only [List.length_cons] at hlen; omega) hfuel (by simp)
  refine ⟨mask, by rw [traceParent, hrun, Nat.zero_add, List.length_cons], ?_⟩
  intro j g hg
  simpa using hbits j g hg

theorem root_transplant (a : Addr) (q : Option Addr) :
    (transplant s a q).root = if (s.node a).parent = none then q else s.root := by
  cases hp : (s.node a).parent with
  | none => simp [transplant, hp]
  | some p =>
    by_cases hl : (s.node p).left = some a <;> simp [transplant, hp, hl]

theorem node_transplant_of_ne {a r : Addr} (q : Option Addr) (h : (s.node a).parent ≠ some r) :
    (transplant s a q).node r = s.node r := by
  cases hp : (s.node a).parent with
  | none => simp [transplant, hp]
  | some p =>
    have hne : r ≠ p := by
      rintro rfl
      exact h hp
    by_cases hl : (s.node p).left = some a <;>
      simp [transplant, hp, hl, s.node_setChild_of_ne hne]

theorem node_transplant {a p : Addr} (q : Option Addr) (h : (s.node a).parent = some p) :
    (transplant s a q).node p = (s.node p).withChild ((s.node p).left != some a) q := by
  by_cases hl : (s.node p).left = some a
  · simp [transplant, h, hl, IntrusiveRedBlackTree.setChild]
  · have hb : ((s.node p).left != some a) = true := by simpa using hl
    simp [transplant, h, hl, hb, IntrusiveRedBlackTree.setChild]

@[simp] theorem key_transplant (a b : Addr) (q : Option Addr) :
    ((transplant s a q).node b).key = (s.node b).key := by
  cases hp : (s.node a).parent with
  | none => simp [transplant, hp]
  | some p => by_cases hl : (s.node p).left = some a <;> simp [transplant, hp, hl]

def cut (s : IntrusiveRedBlackTree K) (a : Addr) (side : Bool) : IntrusiveRedBlackTree K :=
  (transplant s a ((s.node a).child side)).setParentIfAny ((s.node a).child side) (s.node a).parent

theorem cut_spec {side : Bool} {c : Color} {x : ColoredTree Addr} {a : Addr}
    (hs : Represents s (plug fs (branch side c x a .nil))) :
    Represents (cut s a side) (plug fs x) ∧ SameOutside s (cut s a side) (plug fs x).toList := by
  obtain ⟨hroot, hholds, hnodup⟩ := hs
  obtain ⟨hpath, htree⟩ := (holds_plug _ _ _).mp hholds
  rw [holds_branch] at htree
  obtain ⟨hchild, -, hparent, -, hx, -⟩ := htree
  rw [root?_branch] at hpath
  obtain ⟨hnt, hnp, hdis⟩ := (nodup_plug _ _).mp hnodup
  simp only [nodup_toList_branch, mem_toList_branch, List.Disjoint] at hnt hdis
  have hap : a ∉ pathList fs := fun hm => hdis (Or.inl rfl) hm
  have hxp : ∀ r ∈ x.toList, r ∉ pathList fs := fun r hr hm => hdis (Or.inr (Or.inl hr)) hm
  have hcut : cut s a side = (transplant s a x.root?).setParentIfAny x.root? (hole? fs) := by
    rw [cut, hchild, hparent]
  have hother : ∀ r, hole? fs ≠ some r → x.root? ≠ some r → (cut s a side).node r = s.node r := by
    intro r hf hr
    rw [hcut, IntrusiveRedBlackTree.node_setParentIfAny_of_ne _ hr,
      node_transplant_of_ne _ (by rwa [hparent])]
  have hhole : ∀ p, hole? fs = some p → (cut s a side).node p =
      (s.node p).withChild ((s.node p).left != some a) x.root? := by
    intro p hp
    rw [hcut, IntrusiveRedBlackTree.node_setParentIfAny_of_ne _
      (fun h => hxp p (mem_of_root? h) (hole?_mem hp)), node_transplant _ (by rw [hparent, hp])]
  have hmoved : ∀ r, x.root? = some r → (cut s a side).node r =
      { s.node r with parent := hole? fs } := by
    intro r hr
    have hne : (s.node a).parent ≠ some r := by
      rw [hparent]
      exact fun h => hxp r (mem_of_root? hr) (hole?_mem h)
    have hnode : ((transplant s a (some r)).setParent r (hole? fs)).node r =
        { (transplant s a (some r)).node r with parent := hole? fs } :=
      IntrusiveRedBlackTree.node_modify _ _ _
    rw [hcut, hr, IntrusiveRedBlackTree.setParentIfAny, hnode, node_transplant_of_ne _ hne]
  refine ⟨⟨?_, ?_, ?_⟩, ?_, ?_⟩
  · rw [hcut, IntrusiveRedBlackTree.root_setParentIfAny, root_transplant, hparent]
    cases fs with
    | nil => simp
    | cons f fs =>
      rw [if_neg (by simp), hroot]
      exact root?_plug_cons f fs _ _
  · rw [holds_plug]
    refine ⟨hpath.redirect hap hnp hhole ?_, hx.reparent hnt.1 hmoved ?_⟩
    · intro r hr hne
      exact hother r hne (fun h => hxp r (mem_of_root? h) hr)
    · intro r hr hne
      exact hother r (fun h => hxp r hr (hole?_mem h)) hne
  · rw [nodup_plug]
    exact ⟨hnt.1, hnp, fun r hr hm => hxp r hr hm⟩
  · intro r
    by_cases hf : hole? fs = some r
    · simp [hhole r hf]
    by_cases hr : x.root? = some r
    · simp [hmoved r hr]
    · rw [hother r hf hr]
  · intro r hr
    rw [mem_plug] at hr
    exact hother r (fun h => hr (Or.inr (hole?_mem h))) (fun h => hr (Or.inl (mem_of_root? h)))

structure Replaced (s s' : IntrusiveRedBlackTree K) (a n : Addr) : Prop where
  root : s'.root = if (s.node a).parent = none then some n else s.root
  taken : s'.node n = { s.node a with key := (s.node n).key }
  above : ∀ p, (s.node a).parent = some p →
    s'.node p = (s.node p).withChild ((s.node p).left != some a) (some n)
  below : ∀ r, (s.node a).left = some r ∨ (s.node a).right = some r →
    s'.node r = { s.node r with parent := some n }
  other : ∀ r, r ≠ a → r ≠ n → (s.node a).parent ≠ some r → (s.node a).left ≠ some r →
    (s.node a).right ≠ some r → s'.node r = s.node r
  key : ∀ r, (s'.node r).key = (s.node r).key

theorem Replaced.represents {s' : IntrusiveRedBlackTree K} {d : Bool} {c : Color}
    {x y : ColoredTree Addr} {a n : Addr} (h : Replaced s s' a n)
    (hs : Represents s (plug fs (branch d c x a y))) (hn : n ∉ (plug fs (branch d c x a y)).toList) :
    Represents s' (plug fs (branch d c x n y)) := by
  obtain ⟨hroot, hholds, hnodup⟩ := hs
  obtain ⟨hpath, htree⟩ := (holds_plug _ _ _).mp hholds
  rw [holds_branch] at htree
  obtain ⟨hcx, hcy, hparent, hcolor, hx, hy⟩ := htree
  rw [root?_branch] at hpath
  obtain ⟨hnt, hnp, hdis⟩ := (nodup_plug _ _).mp hnodup
  rw [mem_plug] at hn
  simp only [nodup_toList_branch, mem_toList_branch, List.Disjoint, not_or] at hnt hdis hn
  obtain ⟨hndx, hndy, hax, hay, hxy⟩ := hnt
  obtain ⟨⟨hna, hnx, hny⟩, hnpath⟩ := hn
  have hap : a ∉ pathList fs := fun hm => hdis (Or.inl rfl) hm
  have hxp : ∀ r ∈ x.toList, r ∉ pathList fs := fun r hr hm => hdis (Or.inr (Or.inl hr)) hm
  have hyp : ∀ r ∈ y.toList, r ∉ pathList fs := fun r hr hm => hdis (Or.inr (Or.inr hr)) hm
  have hends : ∀ r, ((s.node a).left = some r ∨ (s.node a).right = some r) ↔
      x.root? = some r ∨ y.root? = some r := by
    intro r
    rw [← hcx, ← hcy]
    cases d <;> simp [IntrusiveRedBlackTreeNode.child, or_comm]
  have hkeep : ∀ r, r ≠ a → r ≠ n → hole? fs ≠ some r → x.root? ≠ some r → y.root? ≠ some r →
      s'.node r = s.node r := by
    intro r hra hrn hf hrx hry
    have hno := mt (hends r).mp (by simp [hrx, hry])
    rw [not_or] at hno
    exact h.other r hra hrn (by rwa [hparent]) hno.1 hno.2
  have htaken : ∀ e, (s'.node n).child e = (s.node a).child e := by
    intro e
    rw [h.taken]
    rfl
  refine ⟨?_, ?_, ?_⟩
  · rw [h.root, hparent]
    cases fs with
    | nil => simp
    | cons f fs =>
      rw [if_neg (by simp), hroot]
      exact root?_plug_cons f fs _ _
  · rw [holds_plug, holds_branch, root?_branch, htaken, htaken]
    refine ⟨hpath.redirect hap hnp ?_ ?_, hcx, hcy, by rw [h.taken, ← hparent],
      by rw [h.taken, ← hcolor], ?_, ?_⟩
    · intro p hp
      exact h.above p (by rw [hparent, hp])
    · intro r hr hne
      exact hkeep r (fun e => hap (e ▸ hr)) (fun e => hnpath (e ▸ hr)) hne
        (fun e => hxp r (mem_of_root? e) hr) (fun e => hyp r (mem_of_root? e) hr)
    · apply hx.reparent hndx
      · intro r hr
        exact h.below r ((hends r).mpr (Or.inl hr))
      · intro r hr hne
        exact hkeep r (fun e => hax (e ▸ hr)) (fun e => hnx (e ▸ hr))
          (fun e => hxp r hr (hole?_mem e)) hne (fun e => hxy hr (mem_of_root? e))
    · apply hy.reparent hndy
      · intro r hr
        exact h.below r ((hends r).mpr (Or.inr hr))
      · intro r hr hne
        exact hkeep r (fun e => hay (e ▸ hr)) (fun e => hny (e ▸ hr))
          (fun e => hyp r hr (hole?_mem e)) (fun e => hxy (mem_of_root? e) hr) hne
  · rw [nodup_plug]
    simp only [nodup_toList_branch, mem_toList_branch, List.Disjoint]
    refine ⟨⟨hndx, hndy, hnx, hny, hxy⟩, hnp, ?_⟩
    rintro r (rfl | hr | hr)
    · exact hnpath
    · exact hxp r hr
    · exact hyp r hr

theorem takeOver_replaced {a n : Addr} (hna : n ≠ a) (hpn : (s.node a).parent ≠ some n)
    (hln : (s.node a).left ≠ some n) (hrn : (s.node a).right ≠ some n)
    (hends : ∀ r, (s.node a).left = some r ∨ (s.node a).right = some r → (s.node a).parent ≠ some r)
    (hlr : ∀ r, (s.node a).left = some r → (s.node a).right ≠ some r) :
    Replaced s (takeOver s a n) a n := by
  let s₁ := (((s.setChild n true (s.node a).right).setChild n false (s.node a).left).setParent n
    (s.node a).parent).setColor n (s.node a).color
  have hn₁ : s₁.node n = { s.node a with key := (s.node n).key } := by
    simp [s₁, IntrusiveRedBlackTree.setChild, IntrusiveRedBlackTree.setParent,
      IntrusiveRedBlackTree.setColor, IntrusiveRedBlackTree.modify,
      IntrusiveRedBlackTreeNode.withChild]
  have ho₁ : ∀ r, r ≠ n → s₁.node r = s.node r := by
    intro r hr
    simp [s₁, IntrusiveRedBlackTree.setChild, IntrusiveRedBlackTree.setParent,
      IntrusiveRedBlackTree.setColor, IntrusiveRedBlackTree.modify, hr]
  have ha₁ : s₁.node a = s.node a := ho₁ a hna.symm
  have hn₂ : (transplant s₁ a (some n)).node n = s₁.node n :=
    node_transplant_of_ne _ (by rwa [ha₁])
  have hrun : takeOver s a n = ((transplant s₁ a (some n)).setParentIfAny (s.node a).left
      (some n)).setParentIfAny (s.node a).right (some n) := by
    have hstart : takeOver s a n = ((transplant s₁ a (some n)).setParentIfAny
        ((transplant s₁ a (some n)).node n).left (some n)).setParentIfAny
        (((transplant s₁ a (some n)).setParentIfAny
          ((transplant s₁ a (some n)).node n).left (some n)).node n).right (some n) := by
      simp only [takeOver, IntrusiveRedBlackTree.setChild,
        IntrusiveRedBlackTree.node_modify_of_ne _ hna.symm, s₁]
    rw [hstart, hn₂, hn₁, IntrusiveRedBlackTree.node_setParentIfAny_of_ne _ hln, hn₂, hn₁]
  have hmid : ∀ r, (s.node a).left ≠ some r → (s.node a).right ≠ some r →
      (takeOver s a n).node r = (transplant s₁ a (some n)).node r := by
    intro r hl hr
    rw [hrun, IntrusiveRedBlackTree.node_setParentIfAny_of_ne _ hr,
      IntrusiveRedBlackTree.node_setParentIfAny_of_ne _ hl]
  have hchild : ∀ r, (s.node a).left = some r ∨ (s.node a).right = some r →
      (transplant s₁ a (some n)).node r = s.node r := by
    intro r hr
    rw [node_transplant_of_ne _ (by rw [ha₁]; exact hends r hr)]
    apply ho₁ r
    rintro rfl
    exact hr.elim hln hrn
  refine ⟨?_, ?_, ?_, ?_, ?_, ?_⟩
  · rw [hrun, IntrusiveRedBlackTree.root_setParentIfAny, IntrusiveRedBlackTree.root_setParentIfAny,
      root_transplant, ha₁]
    rfl
  · rw [hmid n hln hrn, hn₂, hn₁]
  · intro p hp
    have hpn' : p ≠ n := by
      rintro rfl
      exact hpn hp
    rw [hmid p (fun h => hends p (Or.inl h) hp) (fun h => hends p (Or.inr h) hp),
      node_transplant _ (by rw [ha₁, hp]), ho₁ p hpn']
  · rintro r hr
    by_cases hl : (s.node a).left = some r
    · rw [hrun, IntrusiveRedBlackTree.node_setParentIfAny_of_ne _ (hlr r hl), hl,
        IntrusiveRedBlackTree.node_setParentIfAny_some, hchild r hr]
    · have hrr := hr.resolve_left hl
      rw [hrun, hrr, IntrusiveRedBlackTree.node_setParentIfAny_some,
        IntrusiveRedBlackTree.node_setParentIfAny_of_ne _ hl, hchild r hr]
  · intro r hra hrn' hp hl hr
    rw [hmid r hl hr, node_transplant_of_ne _ (by rwa [ha₁]), ho₁ r hrn']
  · intro r
    rw [hrun, IntrusiveRedBlackTree.key_setParentIfAny, IntrusiveRedBlackTree.key_setParentIfAny,
      key_transplant]
    simp [s₁]

variable {K : Type} {s : IntrusiveRedBlackTree K} {fs : List (Frame Addr)}

def swapAdjacent (s : IntrusiveRedBlackTree K) (a n left : Addr) : IntrusiveRedBlackTree K :=
  (((transplant s a (some n)).setParent n (s.node a).parent).setChild n false (some left)).setParent
    left (some n)

theorem swapAdjacent_nodes {a n q : Addr} (hnq : n ≠ q)
    (hpn : (s.node a).parent ≠ some n) (hpq : (s.node a).parent ≠ some q) :
    (swapAdjacent s a n q).root = (if (s.node a).parent = none then some n else s.root) ∧
      (swapAdjacent s a n q).node n =
        { s.node n with left := some q, parent := (s.node a).parent } ∧
      (swapAdjacent s a n q).node q = { s.node q with parent := some n } ∧
      (∀ p, (s.node a).parent = some p → (swapAdjacent s a n q).node p =
        (s.node p).withChild ((s.node p).left != some a) (some n)) ∧
      (∀ r, r ≠ n → r ≠ q → (s.node a).parent ≠ some r → (swapAdjacent s a n q).node r = s.node r) ∧
      ∀ r, ((swapAdjacent s a n q).node r).key = (s.node r).key := by
  have hother : ∀ r, r ≠ n → r ≠ q →
      (swapAdjacent s a n q).node r = (transplant s a (some n)).node r := by
    intro r hrn hrq
    simp [swapAdjacent, IntrusiveRedBlackTree.setChild, IntrusiveRedBlackTree.setParent,
      IntrusiveRedBlackTree.modify, hrn, hrq]
  refine ⟨?_, ?_, ?_, ?_, ?_, ?_⟩
  · rw [← root_transplant]
    rfl
  · simp [swapAdjacent, IntrusiveRedBlackTree.setChild, IntrusiveRedBlackTree.setParent,
      IntrusiveRedBlackTree.modify, hnq, node_transplant_of_ne _ hpn,
      IntrusiveRedBlackTreeNode.withChild]
  · simp [swapAdjacent, IntrusiveRedBlackTree.setChild, IntrusiveRedBlackTree.setParent,
      IntrusiveRedBlackTree.modify, hnq.symm, node_transplant_of_ne _ hpq]
  · intro p hp
    rw [hother p (fun h => hpn (h ▸ hp)) (fun h => hpq (h ▸ hp)), node_transplant _ hp]
  · intro r hrn hrq hr
    rw [hother r hrn hrq, node_transplant_of_ne _ hr]
  · intro r
    simp [swapAdjacent]

theorem swapAdjacent_spec {c : Color} {l y : ColoredTree Addr} {a n q : Addr}
    (hs : Represents s (plug (⟨true, c, a, l⟩ :: fs) (branch true c y n .nil)))
    (hl : l.root? = some q) :
    Represents (swapAdjacent s a n q) (plug (⟨true, c, n, l⟩ :: fs) y) ∧
      SameOutside s (swapAdjacent s a n q)
        (plug (⟨true, c, a, l⟩ :: fs) (branch true c y n .nil)).toList ∧
      a ∉ (plug (⟨true, c, n, l⟩ :: fs) y).toList := by
  obtain ⟨hroot, hholds, hnodup⟩ := hs
  rw [plug_cons, Frame.fill] at hroot hholds hnodup
  obtain ⟨hpath, htree⟩ := (holds_plug _ _ _).mp hholds
  rw [holds_branch, holds_branch, root?_branch] at htree
  obtain ⟨har, hal, hap, hac, ⟨hnr, hnl, hnp, hnc, hy, -⟩, hhl⟩ := htree
  rw [root?_branch] at hpath
  obtain ⟨hnt, hnpath, hdis⟩ := (nodup_plug _ _).mp hnodup
  simp only [nodup_toList_branch, mem_toList_branch, List.Disjoint, not_or, toList_nil,
    List.not_mem_nil, or_false] at hnt hdis
  obtain ⟨⟨hndy, -, hny, -, -⟩, hndl, ⟨han, hay⟩, hal', hdl⟩ := hnt
  have hql : q ∈ l.toList := mem_of_root? hl
  have hapath : a ∉ pathList fs := fun hm => hdis (Or.inl rfl) hm
  have hnfs : n ∉ pathList fs := fun hm => hdis (Or.inr (Or.inl (Or.inl rfl))) hm
  have hyfs : ∀ r ∈ y.toList, r ∉ pathList fs := fun r hr hm => hdis (Or.inr (Or.inl (Or.inr hr))) hm
  have hlfs : ∀ r ∈ l.toList, r ∉ pathList fs := fun r hr hm => hdis (Or.inr (Or.inr hr)) hm
  have hnl' : n ∉ l.toList := fun hm => hdl (Or.inl rfl) hm
  have hyl : ∀ r ∈ y.toList, r ∉ l.toList := fun r hr hm => hdl (Or.inr hr) hm
  have hnq : n ≠ q := fun h => hnl' (h ▸ hql)
  obtain ⟨hsroot, hsn, hsq, hsp, hso, hskey⟩ := swapAdjacent_nodes (s := s) hnq
    (by rw [hap]; exact fun h => hnfs (hole?_mem h))
    (by rw [hap]; exact fun h => hlfs q hql (hole?_mem h))
  rw [hap] at hsroot hsn
  simp only [hap] at hsp hso
  have hkeep : ∀ r, r ≠ n → r ≠ q → r ∉ pathList fs → (swapAdjacent s a n q).node r = s.node r :=
    fun r hrn hrq hrp => hso r hrn hrq (fun h => hrp (hole?_mem h))
  refine ⟨⟨?_, ?_, ?_⟩, ⟨hskey, ?_⟩, ?_⟩
  · rw [hsroot]
    cases fs with
    | nil => simp [Frame.fill]
    | cons f fs =>
      rw [if_neg (by simp), hroot]
      exact root?_plug_cons f fs _ _
  · rw [plug_cons, Frame.fill, holds_plug, holds_branch, root?_branch, hsn]
    refine ⟨hpath.redirect hapath hnpath hsp ?_, hnr, hl.symm, rfl, hnc, ?_, ?_⟩
    · intro r hr hne
      exact hso r (fun h => hnfs (h ▸ hr)) (fun h => hlfs q hql (h ▸ hr)) hne
    · apply hy.congr
      intro r hr
      exact hkeep r (fun h => hny (h ▸ hr)) (fun h => hyl r hr (h ▸ hql)) (hyfs r hr)
    · apply hhl.reparent hndl
      · intro r hr
        obtain rfl : q = r := by simpa [hl] using hr
        exact hsq
      · intro r hr hne
        exact hkeep r (fun h => hnl' (h ▸ hr)) (fun h => hne (h ▸ hl)) (hlfs r hr)
  · rw [plug_cons, Frame.fill, nodup_plug, nodup_toList_branch]
    simp only [mem_toList_branch, List.Disjoint]
    refine ⟨⟨hndy, hndl, hny, hnl', fun r hr hm => hyl r hr hm⟩, hnpath, ?_⟩
    rintro r (rfl | hr | hr)
    · exact hnfs
    · exact hyfs r hr
    · exact hlfs r hr
  · intro r hr
    rw [plug_cons, Frame.fill, mem_plug] at hr
    simp only [mem_toList_branch, not_or] at hr
    exact hkeep r hr.1.2.1.1 (fun h => hr.1.2.2 (h ▸ hql)) hr.2
  · rw [plug_cons, Frame.fill, mem_plug, mem_toList_branch]
    simp only [not_or]
    exact ⟨⟨han, hay, hal'⟩, hapath⟩

theorem takeOver_spec {d : Bool} {c : Color} {x y : ColoredTree Addr} {a n : Addr}
    (hs : Represents s (plug fs (branch d c x a y))) (hn : n ∉ (plug fs (branch d c x a y)).toList) :
    Represents (takeOver s a n) (plug fs (branch d c x n y)) ∧
      SameOutside s (takeOver s a n) (n :: (plug fs (branch d c x a y)).toList) := by
  have hbranch := hs.branch
  obtain ⟨hnt, -, hdis⟩ := (nodup_plug _ _).mp hs.nodup
  have hn' := hn
  rw [mem_plug] at hn'
  simp only [nodup_toList_branch, mem_toList_branch, List.Disjoint, not_or] at hnt hdis hn'
  have hends : ∀ r, ((s.node a).left = some r ∨ (s.node a).right = some r) ↔
      x.root? = some r ∨ y.root? = some r := by
    intro r
    rw [← hbranch.1, ← hbranch.2.1]
    cases d <;> simp [IntrusiveRedBlackTreeNode.child, or_comm]
  have hnends : ¬((s.node a).left = some n ∨ (s.node a).right = some n) := by
    rw [hends]
    rintro (h | h)
    · exact hn'.1.2.1 (mem_of_root? h)
    · exact hn'.1.2.2 (mem_of_root? h)
  rw [not_or] at hnends
  have hxy : ∀ r, x.root? = some r → y.root? ≠ some r :=
    fun r hx hy => hnt.2.2.2.2 (mem_of_root? hx) (mem_of_root? hy)
  have hrep : Replaced s (takeOver s a n) a n := by
    apply takeOver_replaced hn'.1.1 _ hnends.1 hnends.2
    · intro r hr hp
      rw [hbranch.2.2.1] at hp
      rcases (hends r).mp hr with h | h
      · exact hdis (Or.inr (Or.inl (mem_of_root? h))) (hole?_mem hp)
      · exact hdis (Or.inr (Or.inr (mem_of_root? h))) (hole?_mem hp)
    · intro r hl hr
      have hx := hbranch.1
      have hy := hbranch.2.1
      cases d
      · exact hxy r (hx ▸ hl) (hy ▸ hr)
      · exact hxy r (hx ▸ hr) (hy ▸ hl)
    · rw [hbranch.2.2.1]
      exact fun h => hn'.2 (hole?_mem h)
  refine ⟨hrep.represents hs hn, hrep.key, ?_⟩
  intro r hr
  simp only [List.mem_cons, mem_plug, mem_toList_branch, not_or] at hr
  obtain ⟨hrn, ⟨hra, hrx, hry⟩, hrp⟩ := hr
  have hno : ¬((s.node a).left = some r ∨ (s.node a).right = some r) := by
    rw [hends]
    rintro (h | h)
    · exact hrx (mem_of_root? h)
    · exact hry (mem_of_root? h)
  rw [not_or] at hno
  apply hrep.other r hra hrn _ hno.1 hno.2
  rw [hbranch.2.2.1]
  exact fun h => hrp (hole?_mem h)

theorem nextNodeLoop_spec (fuel : ℕ) {p : Option Addr} {r : ColoredTree Addr} {q : Addr}
    (hr : Holds s.node p r) (hq : r.root? = some q) (hfuel : r.toList.length ≤ fuel) :
    ∃ gs c n y, r = plug gs (branch true c y n .nil) ∧ (∀ g ∈ gs, g.side = false) ∧
      nextNodeLoop s fuel q = .ok n := by
  induction r generalizing p q fuel with
  | nil => cases hq
  | node c l a r ihl _ =>
    obtain rfl : a = q := by simpa using hq
    obtain ⟨hleft, -, -, -, hl, -⟩ := hr
    simp only [toList_node, List.length_append, List.length_cons] at hfuel
    obtain ⟨fuel, rfl⟩ : ∃ n, fuel = n + 1 := ⟨fuel - 1, by omega⟩
    cases l with
    | nil => exact ⟨[], c, a, r, rfl, by simp, by simp [nextNodeLoop, hleft, pure, Except.pure]⟩
    | node c' l' b r' =>
      obtain ⟨gs, c'', n, y, he, hside, hrun⟩ := ihl fuel hl rfl (by omega)
      refine ⟨gs ++ [⟨false, c, a, r⟩], c'', n, y, ?_, ?_, ?_⟩
      · rw [plug_append, ← he]
        rfl
      · intro g hg
        rcases List.mem_append.mp hg with hg | hg
        · exact hside g hg
        · obtain rfl := List.mem_singleton.mp hg
          rfl
      · rw [← hrun]
        simp [nextNodeLoop, hleft]

structure Swapped (s s' : IntrusiveRedBlackTree K) (a : Addr) (t : ColoredTree Addr)
    (result : RemoveSwapResult) (gs : List (Frame Addr)) (x : ColoredTree Addr) : Prop where
  represents : Represents s' (plug gs x)
  outside : SameOutside s s' t.toList
  toList : (plug gs x).toList = t.toList.erase a
  outRemove : result.outRemove = hole? gs
  count : result.trace.traversalCount = gs.length
  trace : TraceMatches result.trace.trace gs
  cut : CutAt gs result.fixupColor x

theorem erase_middle {l r : List Addr} {a : Addr} (h : (l ++ a :: r).Nodup) :
    (l ++ a :: r).erase a = l ++ r := by
  have hl : a ∉ l := fun hm => (List.nodup_append'.mp h).2.2 hm List.mem_cons_self
  rw [List.erase_append_right _ hl, List.erase_cons_head]

theorem traceMatches_nil (trace : BitVec 64) : TraceMatches trace [] := by
  intro i f h
  simp at h

theorem traceParentIfAny_spec {t : ColoredTree Addr} {a : Addr} {fuel : ℕ}
    (hs : Represents s (plug fs t)) (ha : t.root? = some a) (hlen : fs.length ≤ 62)
    (hfuel : fs.length ≤ fuel) :
    ∃ trace, traceParentIfAny fuel s (hole? fs) a = .ok ⟨trace, fs.length⟩ ∧ TraceMatches trace fs := by
  cases fs with
  | nil => exact ⟨0, rfl, traceMatches_nil 0⟩
  | cons f fs => exact traceParent_spec hs ha (by omega) hfuel

theorem removeSwapSingle_spec (side : Bool) (fuel : ℕ) {c : Color} {x : ColoredTree Addr} {a : Addr} {k : ℕ}
    (hs : Represents s (plug fs (branch side c x a .nil)))
    (hbal : (plug fs (branch side c x a .nil)).Balanced k)
    (hblack : (plug fs (branch side c x a .nil)).color = .black)
    (hlen : fs.length ≤ 62) (hfuel : fs.length ≤ fuel) :
    ∃ s' result, removeSwapSingle fuel side s a = .ok (s', result) ∧
      Swapped s s' a (plug fs (branch side c x a .nil)) result fs x := by
  obtain ⟨hchild, -, hparent, hcolor, -⟩ := hs.branch
  obtain ⟨hcut, hout⟩ := cut_spec hs
  have hnodup := hs.nodup
  have hlist : (plug fs (branch side c x a .nil)).toList.erase a = (plug fs x).toList := by
    rw [toList_plug] at hnodup
    rw [toList_plug, toList_plug]
    cases side
    · simp only [branch, Bool.false_eq_true, ↓reduceIte, toList_node, toList_nil,
        List.append_assoc, List.cons_append, List.nil_append] at hnodup ⊢
      rw [← List.append_assoc, erase_middle (by rw [List.append_assoc]; exact hnodup),
        List.append_assoc]
    · simp only [branch, ↓reduceIte, toList_node, toList_nil, List.nil_append,
        List.append_assoc, List.cons_append] at hnodup ⊢
      rw [erase_middle hnodup]
  have hsame : SameOutside s (cut s a side) (plug fs (branch side c x a .nil)).toList := by
    refine ⟨hout.key, fun b hb => hout.node b (fun h => hb ?_)⟩
    rw [← hlist] at h
    exact List.mem_of_mem_erase h
  obtain ⟨trace, htrace, hmatch⟩ :=
    traceParentIfAny_spec hs (root?_branch _ _ _ _ _) hlen hfuel
  refine ⟨cut s a side, ⟨hole? fs, c, ⟨trace, fs.length⟩⟩, ?_, hcut, hsame, hlist.symm, rfl, rfl,
    hmatch, cutAt_of_balanced hbal hblack⟩
  simp only [removeSwapSingle, hparent, htrace, hcolor, bind, Except.bind, pure, Except.pure]
  rw [cut, hparent]

end Awn.IntrusiveTree
