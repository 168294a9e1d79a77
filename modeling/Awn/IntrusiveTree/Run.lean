import Awn.IntrusiveTree.Remove
import Mathlib.Data.Fintype.Card

/-!
Runs of the tree: nodes are keyed and inserted while unlinked, and removed while
linked. Every such run keeps the red-black tree and meets no fault.
-/

namespace Awn.IntrusiveTree

open RedBlack RedBlack.ColoredTree

variable {K : Type}

inductive TreeOp (K : Type)
  | insert (node : Addr) (key : K)
  | remove (node : Addr)

def linkedAfter : List Addr → List (TreeOp K) → List Addr
  | linked, [] => linked
  | linked, .insert a _ :: ops => linkedAfter (a :: linked) ops
  | linked, .remove a :: ops => linkedAfter (linked.erase a) ops

theorem linkedAfter_length_le (ops : List (TreeOp K)) (linked : List Addr) :
    (linkedAfter linked ops).length ≤ linked.length + ops.length := by
  induction ops generalizing linked with
  | nil => exact Nat.le_refl _
  | cons op ops ih =>
    rw [List.length_cons]
    cases op with
    | insert a k =>
      have := ih (a :: linked)
      rw [List.length_cons] at this
      rw [linkedAfter]
      omega
    | remove a =>
      have := ih (linked.erase a)
      have := List.length_erase_le (a := a) (l := linked)
      rw [linkedAfter]
      omega

def Legal : List Addr → (Addr → K) → List (TreeOp K) → Prop
  | _, _, [] => True
  | linked, key, .insert a k :: ops => a ∉ linked ∧ (∀ b ∈ linked, key b ≠ k) ∧
      Legal (a :: linked) (Function.update key a k) ops
  | linked, key, .remove a :: ops => a ∈ linked ∧ Legal (linked.erase a) key ops

def TreeOp.keys : TreeOp K → (Addr → K) → Addr → K
  | .insert a k, key => Function.update key a k
  | .remove _, key => key

def Room (linked : List Addr) (ops : List (TreeOp K)) : Prop :=
  (∃ f : K → Fin (2 ^ 32), Function.Injective f) ∨
    ∀ pre, pre <+: ops → (linkedAfter linked pre).length ≤ 2 ^ 32

theorem Room.tail {linked linked' : List Addr} {op : TreeOp K} {ops : List (TreeOp K)}
    (h : Room linked (op :: ops))
    (hstep : ∀ pre, linkedAfter linked (op :: pre) = linkedAfter linked' pre) : Room linked' ops := by
  rcases h with h | h
  · exact Or.inl h
  · refine Or.inr (fun pre hpre => ?_)
    rw [← hstep]
    exact h (op :: pre) ((List.cons_prefix_cons).mpr ⟨rfl, hpre⟩)

theorem setKey_key (s : IntrusiveRedBlackTree K) (a b : Addr) (k : K) :
    ((s.setKey a k).node b).key = Function.update (fun b => (s.node b).key) a k b := by
  by_cases hb : b = a
  · subst hb
    simp [IntrusiveRedBlackTree.setKey]
  · rw [IntrusiveRedBlackTree.setKey, IntrusiveRedBlackTree.node_modify_of_ne _ hb]
    simp [hb]

variable [LinearOrder K]

def step (fuel : ℕ) (s : IntrusiveRedBlackTree K) : TreeOp K → Except Fault (IntrusiveRedBlackTree K)
  | .insert a key => insert fuel (s.setKey a key) a
  | .remove a => remove fuel s a

def run (fuel : ℕ) : IntrusiveRedBlackTree K → List (TreeOp K) → Except Fault (IntrusiveRedBlackTree K)
  | s, [] => return s
  | s, op :: ops => do
    let s ← step fuel s op
    run fuel s ops

theorem Room.length_le {s : IntrusiveRedBlackTree K} {t : ColoredTree Addr} {linked : List Addr}
    {ops : List (TreeOp K)} (h : Room linked ops) (hs : IsRedBlack s t)
    (hlinked : t.toList.Perm linked) : t.toList.length ≤ 2 ^ 32 := by
  rcases h with ⟨f, hf⟩ | h
  · have hnodup : (t.toList.map (fun a => f (s.node a).key)).Nodup := by
      rw [List.Nodup, List.pairwise_map]
      exact hs.sorted.imp (fun hlt he => hlt.ne (hf he))
    simpa using hnodup.length_le_card
  · rw [hlinked.length_eq]
    exact h [] List.nil_prefix

theorem modify_isRedBlack {s : IntrusiveRedBlackTree K} {t : ColoredTree Addr} {a : Addr}
    {f : IntrusiveRedBlackTreeNode K → IntrusiveRedBlackTreeNode K} (hs : IsRedBlack s t)
    (ha : a ∉ t.toList) (hf : (f (s.node a)).left = none ∧ (f (s.node a)).right = none) :
    IsRedBlack (s.modify a f) t := by
  have hin : ∀ b ∈ t.toList, (s.modify a f).node b = s.node b := by
    intro b hb
    apply s.node_modify_of_ne
    rintro rfl
    exact ha hb
  refine ⟨⟨hs.represents.root, hs.represents.holds.congr hin, hs.represents.nodup⟩, ?_, hs.black,
    hs.noRedRed, hs.blackHeight, ?_⟩
  · apply List.Pairwise.imp_of_mem _ hs.sorted
    intro b c hb hc hlt
    rwa [hin b hb, hin c hc]
  · intro b hb
    by_cases hba : b = a
    · rwa [hba, s.node_modify]
    · rw [s.node_modify_of_ne hba]
      exact hs.detached b hb

theorem setKey_isRedBlack {s : IntrusiveRedBlackTree K} {t : ColoredTree Addr} {a : Addr} (k : K)
    (hs : IsRedBlack s t) (ha : a ∉ t.toList) : IsRedBlack (s.setKey a k) t :=
  modify_isRedBlack hs ha (hs.detached a ha)

theorem step_spec {s : IntrusiveRedBlackTree K} {t : ColoredTree Addr} {linked : List Addr}
    {op : TreeOp K} {ops : List (TreeOp K)} (fuel : ℕ) (hs : IsRedBlack s t)
    (hlinked : t.toList.Perm linked) (hlegal : Legal linked (fun a => (s.node a).key) (op :: ops))
    (hsize : t.toList.length ≤ 2 ^ 32) (hfuel : t.toList.length ≤ fuel) :
    ∃ s' u linked', step fuel s op = .ok s' ∧ IsRedBlack s' u ∧ u.toList.Perm linked' ∧
      linked'.length ≤ linked.length + 1 ∧
      (fun b => (s'.node b).key) = op.keys (fun b => (s.node b).key) ∧
      Legal linked' (fun a => (s'.node a).key) ops ∧
      ∀ pre, linkedAfter linked (op :: pre) = linkedAfter linked' pre := by
  cases op with
  | insert a k =>
    obtain ⟨ha, hnew, hrest⟩ := hlegal
    have ha' : a ∉ t.toList := fun h => ha (hlinked.mem_iff.mp h)
    have hs₁ := setKey_isRedBlack k hs ha'
    have hkeys : ∀ b ∈ t.toList, ((s.setKey a k).node b).key ≠ ((s.setKey a k).node a).key := by
      intro b hb
      have hba : b ≠ a := by
        rintro rfl
        exact ha' hb
      rw [setKey_key, setKey_key, Function.update_of_ne hba, Function.update_self]
      exact hnew b (hlinked.mem_iff.mp hb)
    obtain ⟨s', u, hrun, hu, hout, hperm⟩ := insert_spec hs₁ ha' hkeys hsize hfuel
    have hkey : (fun b => (s'.node b).key) = Function.update (fun b => (s.node b).key) a k := by
      funext b
      rw [hout.key, setKey_key]
    refine ⟨s', u, a :: linked, hrun, hu, hperm.trans (hlinked.cons a), by simp, hkey, ?_,
      fun _ => rfl⟩
    rw [hkey]
    exact hrest
  | remove a =>
    obtain ⟨ha, hrest⟩ := hlegal
    obtain ⟨s', u, hrun, hu, hout, hlist⟩ := remove_spec hs (hlinked.mem_iff.mpr ha) hsize hfuel
    have hkey : (fun b => (s'.node b).key) = fun b => (s.node b).key := by
      funext b
      rw [hout.key]
    refine ⟨s', u, linked.erase a, hrun, hu, ?_, ?_, hkey, ?_, fun _ => rfl⟩
    · rw [hlist]
      exact hlinked.erase a
    · have := List.length_erase_le (a := a) (l := linked)
      omega
    · rw [hkey]
      exact hrest

theorem run_spec (ops : List (TreeOp K)) (s : IntrusiveRedBlackTree K) (t : ColoredTree Addr)
    (linked : List Addr) (fuel : ℕ) (hs : IsRedBlack s t) (hlinked : t.toList.Perm linked)
    (hlegal : Legal linked (fun a => (s.node a).key) ops) (hroom : Room linked ops)
    (hfuel : linked.length + ops.length ≤ fuel) :
    ∃ s' u, run fuel s ops = .ok s' ∧ IsRedBlack s' u ∧ u.toList.Perm (linkedAfter linked ops) := by
  induction ops generalizing s t linked with
  | nil => exact ⟨s, t, rfl, hs, hlinked⟩
  | cons op ops ih =>
    rw [List.length_cons] at hfuel
    have hlen := hlinked.length_eq
    obtain ⟨s₁, u, linked', hstep, hu, hlinked', hle, -, hlegal', hafter⟩ :=
      step_spec fuel hs hlinked hlegal (hroom.length_le hs hlinked) (by omega)
    obtain ⟨s₂, v, hrun, hv, hperm⟩ :=
      ih s₁ u linked' hu hlinked' hlegal' (hroom.tail hafter) (by omega)
    refine ⟨s₂, v, ?_, hv, ?_⟩
    · simp only [run, hstep, bind, Except.bind, hrun]
    · rw [hafter]
      exact hperm

def Fresh (s : IntrusiveRedBlackTree K) : Prop :=
  s.root = none ∧ ∀ a, (s.node a).left = none ∧ (s.node a).right = none

theorem fresh_isRedBlack {s : IntrusiveRedBlackTree K} (h : Fresh s) : IsRedBlack s .nil :=
  ⟨⟨h.1, trivial, List.nodup_nil⟩, List.Pairwise.nil, rfl, trivial, ⟨0, rfl⟩, fun a _ => h.2 a⟩

theorem run_fresh {s : IntrusiveRedBlackTree K} (hfresh : Fresh s) {ops : List (TreeOp K)}
    (hlegal : Legal [] (fun a => (s.node a).key) ops) (hroom : Room [] ops) {fuel : ℕ}
    (hfuel : ops.length < fuel) :
    ∃ s' t, run fuel s ops = .ok s' ∧ IsRedBlack s' t ∧ t.toList.Perm (linkedAfter [] ops) ∧
      t.toList.length < fuel := by
  obtain ⟨s', t, hrun, ht, hperm⟩ := run_spec ops s .nil [] fuel (fresh_isRedBlack hfresh)
    (List.Perm.refl _) hlegal hroom (by rw [List.length_nil]; omega)
  have hlength := linkedAfter_length_le ops []
  rw [List.length_nil] at hlength
  exact ⟨s', t, hrun, ht, hperm, by rw [hperm.length_eq]; omega⟩

/-- Every legal run from the empty tree ends without a fault in a red-black search tree of
exactly the linked nodes. -/
theorem run_isRedBlack (s : IntrusiveRedBlackTree K) (hfresh : Fresh s) (ops : List (TreeOp K))
    (hlegal : Legal [] (fun a => (s.node a).key) ops) (hroom : Room [] ops) (fuel : ℕ)
    (hfuel : ops.length ≤ fuel) :
    ∃ s' t, run fuel s ops = .ok s' ∧ Represents s' t ∧ t.toList.Perm (linkedAfter [] ops) ∧
      Sorted s' t.toList ∧ t.color = .black ∧ t.NoRedRed ∧ ∃ n, t.BlackHeight n := by
  obtain ⟨s', t, hrun, ht, hperm⟩ := run_spec ops s .nil [] fuel (fresh_isRedBlack hfresh)
    (List.Perm.refl _) hlegal hroom (by simpa using hfuel)
  exact ⟨s', t, hrun, ht.represents, hperm, ht.sorted, ht.black, ht.noRedRed, ht.blackHeight⟩

def emptyTree : IntrusiveRedBlackTree (Fin (2 ^ 32)) := ⟨none, fun _ => ⟨none, none, none, .red, 0⟩⟩

theorem run_isRedBlack_four :
    Fresh emptyTree ∧ ∃ s' t, run 4 emptyTree [.insert 1 10, .insert 2 20, .insert 3 30, .remove 2] =
      .ok s' ∧ Represents s' t ∧ t.toList.Perm [3, 1] ∧ Sorted s' t.toList ∧ t.color = .black ∧
      t.NoRedRed ∧ ∃ n, t.BlackHeight n := by
  have hfresh : Fresh emptyTree := ⟨rfl, fun _ => ⟨rfl, rfl⟩⟩
  refine ⟨hfresh, run_isRedBlack emptyTree hfresh _ ?_ (Or.inl ⟨id, Function.injective_id⟩) 4 (by decide)⟩
  simp [Legal, Function.update]

end Awn.IntrusiveTree
