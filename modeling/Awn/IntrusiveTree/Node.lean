import Awn.RedBlack.Tree
import Mathlib.Logic.Function.Basic
import Mathlib.Order.Defs.LinearOrder

/-!
The memory of an intrusive red-black tree. A pointer is an address or null,
and dereferencing null is a fault of its own, apart from a failed assertion.
-/

namespace Awn.IntrusiveTree

open RedBlack

abbrev Addr := ℕ

inductive Fault
  | nullDereference
  | assertion
  | collision
  | outOfFuel
deriving DecidableEq, Repr

structure IntrusiveRedBlackTreeNode (K : Type) where
  left : Option Addr
  right : Option Addr
  parent : Option Addr
  color : Color
  key : K

structure IntrusiveRedBlackTree (K : Type) where
  root : Option Addr
  node : Addr → IntrusiveRedBlackTreeNode K

structure TreeNodeTrace where
  trace : BitVec 64
  traversalCount : ℕ

def deref : Option Addr → Except Fault Addr
  | some a => .ok a
  | none => .error .nullDereference

def check (b : Bool) (f : Fault) : Except Fault Unit := if b then .ok () else .error f

@[simp] theorem deref_some (a : Addr) : deref (some a) = .ok a := rfl

def sideBit (trace : BitVec 64) : Bool := (trace &&& 1) != 0

theorem sideBit_eq (trace : BitVec 64) : sideBit trace = trace.getLsbD 0 := by
  have h : trace &&& 1 = if trace.getLsbD 0 then 1 else 0 := by
    apply BitVec.eq_of_getLsbD_eq
    intro i hi
    have hone : (1 : BitVec 64).getLsbD i = decide (i = 0) := by
      cases i <;> simp
    rw [BitVec.getLsbD_and, hone]
    by_cases hz : i = 0
    · subst hz
      cases trace.getLsbD 0 <;> simp
    · cases trace.getLsbD 0 <;> simp [hz]
  rw [sideBit, h]
  cases trace.getLsbD 0 <;> rfl

namespace IntrusiveRedBlackTreeNode

variable {K : Type}

def child (n : IntrusiveRedBlackTreeNode K) (side : Bool) : Option Addr :=
  if side then n.right else n.left

def withChild (n : IntrusiveRedBlackTreeNode K) (side : Bool) (p : Option Addr) :
    IntrusiveRedBlackTreeNode K :=
  if side then { n with right := p } else { n with left := p }

@[simp] theorem child_withChild (n : IntrusiveRedBlackTreeNode K) (side : Bool) (p : Option Addr) :
    (n.withChild side p).child side = p := by cases side <;> rfl

@[simp] theorem child_withChild_not (n : IntrusiveRedBlackTreeNode K) (side : Bool)
    (p : Option Addr) : (n.withChild side p).child (!side) = n.child (!side) := by
  cases side <;> rfl

@[simp] theorem child_not_withChild (n : IntrusiveRedBlackTreeNode K) (side : Bool)
    (p : Option Addr) : (n.withChild (!side) p).child side = n.child side := by
  cases side <;> rfl

@[simp] theorem parent_withChild (n : IntrusiveRedBlackTreeNode K) (side : Bool) (p : Option Addr) :
    (n.withChild side p).parent = n.parent := by cases side <;> rfl

@[simp] theorem color_withChild (n : IntrusiveRedBlackTreeNode K) (side : Bool) (p : Option Addr) :
    (n.withChild side p).color = n.color := by cases side <;> rfl

@[simp] theorem key_withChild (n : IntrusiveRedBlackTreeNode K) (side : Bool) (p : Option Addr) :
    (n.withChild side p).key = n.key := by cases side <;> rfl

@[simp] theorem child_mk (l r p : Option Addr) (c : Color) (k : K) (side : Bool) :
    (IntrusiveRedBlackTreeNode.mk l r p c k).child side = if side then r else l := rfl

end IntrusiveRedBlackTreeNode

namespace IntrusiveRedBlackTree

variable {K : Type} (s : IntrusiveRedBlackTree K)

def modify (a : Addr) (f : IntrusiveRedBlackTreeNode K → IntrusiveRedBlackTreeNode K) :
    IntrusiveRedBlackTree K :=
  { s with node := Function.update s.node a (f (s.node a)) }

def setChild (a : Addr) (side : Bool) (p : Option Addr) : IntrusiveRedBlackTree K :=
  s.modify a (fun n => n.withChild side p)

def setParent (a : Addr) (p : Option Addr) : IntrusiveRedBlackTree K :=
  s.modify a (fun n => { n with parent := p })

/-- `if (p != nullptr) { p->m_parent_color.SetPointer(q); }`. -/
def setParentIfAny (p : Option Addr) (q : Option Addr) : IntrusiveRedBlackTree K :=
  match p with
  | some a => s.setParent a q
  | none => s

def setColor (a : Addr) (c : Color) : IntrusiveRedBlackTree K :=
  s.modify a (fun n => { n with color := c })

def setKey (a : Addr) (k : K) : IntrusiveRedBlackTree K :=
  s.modify a (fun n => { n with key := k })

def setRoot (p : Option Addr) : IntrusiveRedBlackTree K := { s with root := p }

/-- `p != nullptr && p->m_parent_color.GetBit(0) == Red`. -/
def isRed : Option Addr → Bool
  | some a => (s.node a).color == .red
  | none => false

@[simp] theorem node_modify (a : Addr) (f : IntrusiveRedBlackTreeNode K → IntrusiveRedBlackTreeNode K) :
    (s.modify a f).node a = f (s.node a) := by
  simp [modify]

theorem node_modify_of_ne {a b : Addr} (h : b ≠ a)
    (f : IntrusiveRedBlackTreeNode K → IntrusiveRedBlackTreeNode K) :
    (s.modify a f).node b = s.node b := by
  simp [modify, h]

@[simp] theorem root_modify (a : Addr) (f : IntrusiveRedBlackTreeNode K → IntrusiveRedBlackTreeNode K) :
    (s.modify a f).root = s.root := rfl

theorem node_setChild_of_ne {a b : Addr} (h : b ≠ a) (side : Bool) (p : Option Addr) :
    (s.setChild a side p).node b = s.node b := s.node_modify_of_ne h _

theorem node_setParentIfAny_of_ne {p : Option Addr} {b : Addr} (h : p ≠ some b) (q : Option Addr) :
    (s.setParentIfAny p q).node b = s.node b := by
  cases p with
  | none => rfl
  | some a =>
    have hne : b ≠ a := by
      rintro rfl
      exact h rfl
    rw [setParentIfAny]
    exact s.node_modify_of_ne hne _

@[simp] theorem node_setParentIfAny_some (a : Addr) (q : Option Addr) :
    (s.setParentIfAny (some a) q).node a = { s.node a with parent := q } := by
  rw [setParentIfAny, setParent, node_modify]

theorem key_modify {a b : Addr} {f : IntrusiveRedBlackTreeNode K → IntrusiveRedBlackTreeNode K}
    (hf : ∀ n, (f n).key = n.key) : ((s.modify a f).node b).key = (s.node b).key := by
  by_cases h : b = a
  · rw [h, node_modify, hf]
  · rw [node_modify_of_ne s h]

@[simp] theorem key_setChild (a b : Addr) (side : Bool) (p : Option Addr) :
    ((s.setChild a side p).node b).key = (s.node b).key :=
  s.key_modify (fun n => n.key_withChild side p)

@[simp] theorem key_setParent (a b : Addr) (p : Option Addr) :
    ((s.setParent a p).node b).key = (s.node b).key := s.key_modify (fun _ => rfl)

@[simp] theorem key_setColor (a b : Addr) (c : Color) :
    ((s.setColor a c).node b).key = (s.node b).key := s.key_modify (fun _ => rfl)

@[simp] theorem key_setParentIfAny (p q : Option Addr) (b : Addr) :
    ((s.setParentIfAny p q).node b).key = (s.node b).key := by
  cases p with
  | none => rfl
  | some a => exact s.key_setParent a b q

@[simp] theorem root_setChild (a : Addr) (side : Bool) (p : Option Addr) :
    (s.setChild a side p).root = s.root := rfl

@[simp] theorem root_setParentIfAny (p q : Option Addr) : (s.setParentIfAny p q).root = s.root := by
  cases p <;> rfl

@[simp] theorem root_setRoot (p : Option Addr) : (s.setRoot p).root = p := rfl
@[simp] theorem node_setRoot (p : Option Addr) : (s.setRoot p).node = s.node := rfl

end IntrusiveRedBlackTree

open RedBlack RedBlack.ColoredTree

variable {K : Type}

def Holds (node : Addr → IntrusiveRedBlackTreeNode K) : Option Addr → ColoredTree Addr → Prop
  | _, .nil => True
  | p, .node c l a r => (node a).left = l.root? ∧ (node a).right = r.root? ∧ (node a).parent = p ∧
      (node a).color = c ∧ Holds node (some a) l ∧ Holds node (some a) r

def HoldsPath (node : Addr → IntrusiveRedBlackTreeNode K) :
    List (Frame Addr) → Option Addr → Prop
  | [], _ => True
  | f :: fs, p => (node f.value).child f.side = p ∧
      (node f.value).child (!f.side) = f.sibling.root? ∧ (node f.value).parent = hole? fs ∧
      (node f.value).color = f.color ∧ Holds node (some f.value) f.sibling ∧
      HoldsPath node fs (some f.value)

theorem holds_branch (node : Addr → IntrusiveRedBlackTreeNode K) (p : Option Addr) (d : Bool)
    (c : Color) (x y : ColoredTree Addr) (a : Addr) :
    Holds node p (branch d c x a y) ↔ (node a).child d = x.root? ∧ (node a).child (!d) = y.root? ∧
      (node a).parent = p ∧ (node a).color = c ∧ Holds node (some a) x ∧ Holds node (some a) y := by
  cases d <;> simp only [branch, Bool.false_eq_true, ↓reduceIte, Holds,
    IntrusiveRedBlackTreeNode.child, Bool.not_false, Bool.not_true]
  tauto

theorem holds_plug (node : Addr → IntrusiveRedBlackTreeNode K) (fs : List (Frame Addr))
    (t : ColoredTree Addr) :
    Holds node none (plug fs t) ↔ HoldsPath node fs t.root? ∧ Holds node (hole? fs) t := by
  induction fs generalizing t with
  | nil => simp [HoldsPath]
  | cons f fs ih =>
    rw [plug_cons, ih, Frame.fill, root?_branch, holds_branch, hole?_cons, HoldsPath]
    tauto

theorem Holds.congr {node node' : Addr → IntrusiveRedBlackTreeNode K} {p : Option Addr}
    {t : ColoredTree Addr} (h : Holds node p t) (he : ∀ a ∈ t.toList, node' a = node a) :
    Holds node' p t := by
  induction t generalizing p with
  | nil => trivial
  | node c l a r ihl ihr =>
    obtain ⟨hl, hr, hp, hc, hhl, hhr⟩ := h
    have ha : node' a = node a := he a (by simp)
    refine ⟨by rw [ha, hl], by rw [ha, hr], by rw [ha, hp], by rw [ha, hc], ihl hhl ?_, ihr hhr ?_⟩
    · intro b hb
      exact he b (by simp [hb])
    · intro b hb
      exact he b (by simp [hb])

theorem HoldsPath.congr {node node' : Addr → IntrusiveRedBlackTreeNode K} {p : Option Addr}
    {fs : List (Frame Addr)} (h : HoldsPath node fs p)
    (he : ∀ f ∈ fs, node' f.value = node f.value ∧ ∀ a ∈ f.sibling.toList, node' a = node a) :
    HoldsPath node' fs p := by
  induction fs generalizing p with
  | nil => trivial
  | cons f fs ih =>
    obtain ⟨hd, hn, hp, hc, hs, hh⟩ := h
    obtain ⟨ha, hb⟩ := he f (by simp)
    refine ⟨by rw [ha, hd], by rw [ha, hn], by rw [ha, hp], by rw [ha, hc], hs.congr hb, ih hh ?_⟩
    intro g hg
    exact he g (by simp [hg])

def pathList (fs : List (Frame Addr)) : List Addr := before fs ++ after fs

theorem mem_pathList_cons (f : Frame Addr) (fs : List (Frame Addr)) (a : Addr) :
    a ∈ pathList (f :: fs) ↔ a = f.value ∨ a ∈ f.sibling.toList ∨ a ∈ pathList fs := by
  rcases f with ⟨side, c, b, u⟩
  cases side <;> simp [pathList, before, after] <;> tauto

theorem mem_pathList_of_mem {f : Frame Addr} {fs : List (Frame Addr)} (hf : f ∈ fs) :
    f.value ∈ pathList fs ∧ ∀ a ∈ f.sibling.toList, a ∈ pathList fs := by
  induction fs with
  | nil => cases hf
  | cons g fs ih =>
    rcases List.mem_cons.mp hf with rfl | hf
    · exact ⟨(mem_pathList_cons _ _ _).mpr (Or.inl rfl),
        fun a ha => (mem_pathList_cons _ _ _).mpr (Or.inr (Or.inl ha))⟩
    · obtain ⟨hv, hs⟩ := ih hf
      exact ⟨(mem_pathList_cons _ _ _).mpr (Or.inr (Or.inr hv)),
        fun a ha => (mem_pathList_cons _ _ _).mpr (Or.inr (Or.inr (hs a ha)))⟩

theorem HoldsPath.congr_list {node node' : Addr → IntrusiveRedBlackTreeNode K} {p : Option Addr}
    {fs : List (Frame Addr)} (h : HoldsPath node fs p)
    (he : ∀ a ∈ pathList fs, node' a = node a) : HoldsPath node' fs p := by
  apply h.congr
  intro f hf
  obtain ⟨hv, hs⟩ := mem_pathList_of_mem hf
  exact ⟨he _ hv, fun a ha => he a (hs a ha)⟩

theorem perm_plug (fs : List (Frame Addr)) (t : ColoredTree Addr) :
    (plug fs t).toList.Perm (t.toList ++ pathList fs) := by
  rw [toList_plug, pathList, ← List.append_assoc]
  exact List.Perm.append_right _ List.perm_append_comm

theorem nodup_plug (fs : List (Frame Addr)) (t : ColoredTree Addr) :
    (plug fs t).toList.Nodup ↔
      t.toList.Nodup ∧ (pathList fs).Nodup ∧ t.toList.Disjoint (pathList fs) := by
  rw [(perm_plug fs t).nodup_iff, List.nodup_append']

theorem mem_plug (fs : List (Frame Addr)) (t : ColoredTree Addr) (a : Addr) :
    a ∈ (plug fs t).toList ↔ a ∈ t.toList ∨ a ∈ pathList fs := by
  rw [(perm_plug fs t).mem_iff, List.mem_append]

theorem nodup_pathList_cons (f : Frame Addr) (fs : List (Frame Addr)) :
    (pathList (f :: fs)).Nodup ↔ f.value ∉ f.sibling.toList ∧ f.value ∉ pathList fs ∧
      f.sibling.toList.Nodup ∧ (pathList fs).Nodup ∧ f.sibling.toList.Disjoint (pathList fs) := by
  have h := nodup_plug (f :: fs) .nil
  rw [plug_cons, nodup_plug, Frame.fill, nodup_toList_branch] at h
  simp only [toList_nil, List.nodup_nil, true_and, List.not_mem_nil, not_false_eq_true,
    List.disjoint_nil_left, and_true] at h
  rw [← h]
  have hd : (branch f.side f.color nil f.value f.sibling).toList.Disjoint (pathList fs) ↔
      f.value ∉ pathList fs ∧ f.sibling.toList.Disjoint (pathList fs) := by
    simp only [List.Disjoint, mem_toList_branch, toList_nil, List.not_mem_nil, false_or]
    constructor
    · intro hd
      exact ⟨fun hm => hd (Or.inl rfl) hm, fun a ha hm => hd (Or.inr ha) hm⟩
    · rintro ⟨hv, hd⟩ a (rfl | ha) hm
      · exact hv hm
      · exact hd ha hm
  rw [hd]
  tauto

theorem holds_of_root? {node : Addr → IntrusiveRedBlackTreeNode K} {p : Option Addr}
    {t : ColoredTree Addr} {a : Addr} (h : Holds node p t) (ht : t.root? = some a) :
    (node a).parent = p ∧ (node a).color = t.color := by
  cases t with
  | nil => cases ht
  | node c l b r =>
    obtain rfl : b = a := by simpa using ht
    exact ⟨h.2.2.1, h.2.2.2.1⟩

theorem isRed_root? {s : IntrusiveRedBlackTree K} {p : Option Addr} {t : ColoredTree Addr}
    (h : Holds s.node p t) : s.isRed t.root? = (t.color == .red) := by
  cases t with
  | nil => rfl
  | node c l a r => simp [IntrusiveRedBlackTree.isRed, h.2.2.2.1]

structure Represents (s : IntrusiveRedBlackTree K) (t : ColoredTree Addr) : Prop where
  root : s.root = t.root?
  holds : Holds s.node none t
  nodup : t.toList.Nodup

structure SameOutside (s s' : IntrusiveRedBlackTree K) (t : List Addr) : Prop where
  key : ∀ a, (s'.node a).key = (s.node a).key
  node : ∀ a, a ∉ t → s'.node a = s.node a

theorem SameOutside.refl (s : IntrusiveRedBlackTree K) (t : List Addr) : SameOutside s s t :=
  ⟨fun _ => rfl, fun _ _ => rfl⟩

theorem SameOutside.trans {s s' s'' : IntrusiveRedBlackTree K} {t : List Addr}
    (h : SameOutside s s' t) (h' : SameOutside s' s'' t) : SameOutside s s'' t :=
  ⟨fun a => (h'.key a).trans (h.key a), fun a ha => (h'.node a ha).trans (h.node a ha)⟩

theorem SameOutside.mono {s s' : IntrusiveRedBlackTree K} {t u : List Addr} (h : SameOutside s s' t)
    (hs : t ⊆ u) : SameOutside s s' u := ⟨h.key, fun a ha => h.node a (fun hm => ha (hs hm))⟩

structure Rebuilt (s s' : IntrusiveRedBlackTree K) (t u : ColoredTree Addr) : Prop where
  represents : Represents s' u
  outside : SameOutside s s' t.toList
  toList : u.toList = t.toList

theorem Rebuilt.refl {s : IntrusiveRedBlackTree K} {t : ColoredTree Addr} (h : Represents s t) :
    Rebuilt s s t t := ⟨h, SameOutside.refl s _, rfl⟩

theorem Rebuilt.trans {s s' s'' : IntrusiveRedBlackTree K} {t u v : ColoredTree Addr}
    (h : Rebuilt s s' t u) (h' : Rebuilt s' s'' u v) : Rebuilt s s'' t v := by
  refine ⟨h'.represents, h.outside.trans ?_, h'.toList.trans h.toList⟩
  rw [← h.toList]
  exact h'.outside

end Awn.IntrusiveTree
