import Mathlib.Data.List.Nodup
import Mathlib.Logic.Function.Basic

/-!
First-in first-out queues, one for each level, and how one list holds them all: each queue is a run
of it.
-/

namespace Awn.LevelQueue

variable {I K : Type*} [DecidableEq I]

def push (levels : I → List K) (i : I) (k : K) : I → List K :=
  Function.update levels i (levels i ++ [k])

def clear (levels : I → List K) (i : I) : I → List K := Function.update levels i []

def remove [DecidableEq K] (levels : I → List K) (k : K) : I → List K :=
  fun i => (levels i).erase k

open Classical in
noncomputable def move [DecidableEq K] (levels : I → List K) (i : I) (k : K) : I → List K :=
  if k ∈ levels i ∨ ∀ j, k ∉ levels j then levels else push (remove levels k) i k

structure Layout (list : List K) (levels : I → List K) : Prop where
  nodup : list.Nodup
  mem : ∀ k, k ∈ list ↔ ∃ i, k ∈ levels i
  disjoint : ∀ i j k, k ∈ levels i → k ∈ levels j → i = j
  run : ∀ i, levels i <:+: list

theorem isInfix_of_notMem {zs xs ys : List K} {a : K} (h : zs <:+: xs ++ a :: ys) (ha : a ∉ zs) :
    zs <:+: xs ∨ zs <:+: ys := by
  obtain h | h | ⟨l₁, l₂, rfl, h₁, h₂⟩ := List.infix_append_iff.mp h
  · exact Or.inl h
  · obtain h | h := List.infix_cons_iff.mp h
    · obtain rfl | ⟨t, rfl, -⟩ := List.prefix_cons_iff.mp h
      · exact Or.inl List.nil_infix
      · exact absurd List.mem_cons_self ha
    · exact Or.inr h
  · obtain rfl | ⟨t, rfl, -⟩ := List.prefix_cons_iff.mp h₂
    · rw [List.append_nil]
      exact Or.inl h₁.isInfix
    · exact absurd (List.mem_append_right _ List.mem_cons_self) ha

theorem mem_push {levels : I → List K} {i j : I} {k m : K} :
    m ∈ push levels i k j ↔ m ∈ levels j ∨ (j = i ∧ m = k) := by
  unfold push
  by_cases hj : j = i
  · subst hj
    rw [Function.update_self, List.mem_append, List.mem_singleton]
    tauto
  · rw [Function.update_of_ne hj]
    tauto

omit [DecidableEq I] in
theorem layout_empty : Layout ([] : List K) (fun _ : I => []) where
  nodup := List.nodup_nil
  mem k := by
    constructor
    · intro hk
      cases hk
    · rintro ⟨i, hk⟩
      cases hk
  disjoint _ _ _ hk := absurd hk List.not_mem_nil
  run _ := List.infix_rfl

namespace Layout

variable {list xs ys : List K} {levels : I → List K} {i j : I} {k a : K}

omit [DecidableEq I] in
theorem mem_list (h : Layout list levels) (hk : k ∈ levels i) : k ∈ list :=
  (h.mem k).mpr ⟨i, hk⟩

omit [DecidableEq I] in
theorem notMem (h : Layout list levels) (hk : k ∉ list) (i : I) : k ∉ levels i :=
  fun hi => hk (h.mem_list hi)

theorem push (h : Layout list levels) (hk : k ∉ list) {list' : List K}
    (hperm : list'.Perm (k :: list)) (hrun : ∀ j, LevelQueue.push levels i k j <:+: list') :
    Layout list' (LevelQueue.push levels i k) where
  nodup := hperm.nodup_iff.mpr (List.nodup_cons.mpr ⟨hk, h.nodup⟩)
  mem m := by
    rw [hperm.mem_iff, List.mem_cons, h.mem]
    constructor
    · rintro (rfl | ⟨j, hj⟩)
      · exact ⟨i, mem_push.mpr (Or.inr ⟨rfl, rfl⟩)⟩
      · exact ⟨j, mem_push.mpr (Or.inl hj)⟩
    · rintro ⟨j, hj⟩
      obtain hj | ⟨-, hj⟩ := mem_push.mp hj
      · exact Or.inr ⟨j, hj⟩
      · exact Or.inl hj
  disjoint j₁ j₂ m h₁ h₂ := by
    obtain hm₁ | ⟨hj₁, hm₁⟩ := mem_push.mp h₁
    · obtain hm₂ | ⟨-, hm₂⟩ := mem_push.mp h₂
      · exact h.disjoint j₁ j₂ m hm₁ hm₂
      · exact absurd (h.mem_list hm₁) (hm₂ ▸ hk)
    · obtain hm₂ | ⟨hj₂, -⟩ := mem_push.mp h₂
      · exact absurd (h.mem_list hm₂) (hm₁ ▸ hk)
      · exact hj₁.trans hj₂.symm
  run := hrun

theorem pushBack (h : Layout list levels) (hk : k ∉ list) (hi : levels i <:+ list) :
    Layout (list ++ [k]) (LevelQueue.push levels i k) := by
  apply h.push hk (List.perm_append_singleton k list)
  intro j
  unfold LevelQueue.push
  by_cases hj : j = i
  · subst hj
    rw [Function.update_self]
    obtain ⟨t, rfl⟩ := hi
    exact ⟨t, [], by rw [List.append_nil, List.append_assoc]⟩
  · rw [Function.update_of_ne hj]
    exact (h.run j).trans List.infix_append_left

theorem insertNext (h : Layout (xs ++ a :: ys) levels) (hk : k ∉ xs ++ a :: ys)
    (hj : levels j = [a]) (hi : levels i = []) :
    Layout (xs ++ a :: k :: ys) (LevelQueue.push levels i k) := by
  have hsplit : xs ++ a :: k :: ys = (xs ++ [a]) ++ k :: ys := by
    rw [List.append_assoc]
    rfl
  have hold : xs ++ a :: ys = (xs ++ [a]) ++ ys := by
    rw [List.append_assoc]
    rfl
  apply h.push hk
  · rw [hsplit, hold]
    exact List.perm_middle
  intro m
  unfold LevelQueue.push
  by_cases hm : m = i
  · subst hm
    rw [Function.update_self, hi, hsplit]
    exact ⟨xs ++ [a], ys, by rw [List.nil_append, List.append_assoc (xs ++ [a])]; rfl⟩
  · rw [Function.update_of_ne hm]
    by_cases hmj : m = j
    · subst hmj
      rw [hj]
      exact ⟨xs, k :: ys, by rw [List.append_assoc]; rfl⟩
    · have ha : a ∉ levels m := by
        intro ha
        apply hmj
        apply h.disjoint m j a ha
        rw [hj]
        exact List.mem_singleton_self a
      obtain hxs | hys := isInfix_of_notMem (h.run m) ha
      · exact hxs.trans List.infix_append_left
      · apply hys.trans
        rw [hsplit]
        exact ⟨xs ++ [a] ++ [k], [], by rw [List.append_nil, List.append_assoc (xs ++ [a])]; rfl⟩

theorem clear (h : Layout (xs ++ levels i) levels) : Layout xs (LevelQueue.clear levels i) := by
  obtain ⟨hxs, -, hdisjoint⟩ := List.nodup_append.mp h.nodup
  have hmem : ∀ j m, m ∈ LevelQueue.clear levels i j ↔ j ≠ i ∧ m ∈ levels j := by
    intro j m
    unfold LevelQueue.clear
    by_cases hj : j = i
    · subst hj
      rw [Function.update_self]
      exact ⟨fun hm => absurd hm List.not_mem_nil, fun hm => absurd rfl hm.1⟩
    · rw [Function.update_of_ne hj]
      exact ⟨fun hm => ⟨hj, hm⟩, fun hm => hm.2⟩
  have hnot : ∀ j m, j ≠ i → m ∈ levels j → m ∉ levels i := fun j m hj hm hi =>
    hj (h.disjoint j i m hm hi)
  constructor
  · exact hxs
  · intro m
    constructor
    · intro hm
      obtain ⟨j, hj⟩ := (h.mem m).mp (List.mem_append_left _ hm)
      refine ⟨j, (hmem j m).mpr ⟨?_, hj⟩⟩
      rintro rfl
      exact hdisjoint m hm m hj rfl
    · rintro ⟨j, hj⟩
      obtain ⟨hne, hj⟩ := (hmem j m).mp hj
      obtain hm | hm := List.mem_append.mp (h.mem_list hj)
      · exact hm
      · exact absurd hm (hnot j m hne hj)
  · intro j₁ j₂ m h₁ h₂
    exact h.disjoint j₁ j₂ m ((hmem j₁ m).mp h₁).2 ((hmem j₂ m).mp h₂).2
  · intro j
    unfold LevelQueue.clear
    by_cases hj : j = i
    · subst hj
      rw [Function.update_self]
      exact List.nil_infix
    · rw [Function.update_of_ne hj]
      have hempty : ∀ zs : List K, zs <:+: levels i → zs ⊆ levels j → zs = [] := by
        intro zs hzs hsub
        apply List.eq_nil_iff_forall_not_mem.mpr
        exact fun m hm => hnot j m hj (hsub hm) (hzs.subset hm)
      obtain hrun | hrun | ⟨l₁, l₂, heq, h₁, h₂⟩ := List.infix_append_iff.mp (h.run j)
      · exact hrun
      · rw [hempty _ hrun (List.Subset.refl _)]
        exact List.nil_infix
      · have hsub : l₂ ⊆ levels j := by
          rw [heq]
          exact List.subset_append_right _ _
        rw [heq, hempty l₂ h₂.isInfix hsub, List.append_nil]
        exact h₁.isInfix

variable [DecidableEq K]

omit [DecidableEq I] in
theorem remove (h : Layout list levels) (k : K) :
    Layout (list.erase k) (LevelQueue.remove levels k) := by
  have hnodup : ∀ i, (levels i).Nodup := fun i => h.nodup.sublist (h.run i).sublist
  have hmem : ∀ i m, m ∈ LevelQueue.remove levels k i ↔ m ≠ k ∧ m ∈ levels i := fun i m =>
    (hnodup i).mem_erase_iff
  constructor
  · exact h.nodup.erase k
  · intro m
    rw [h.nodup.mem_erase_iff, h.mem]
    constructor
    · rintro ⟨hne, i, hi⟩
      exact ⟨i, (hmem i m).mpr ⟨hne, hi⟩⟩
    · rintro ⟨i, hi⟩
      exact ⟨((hmem i m).mp hi).1, i, ((hmem i m).mp hi).2⟩
  · intro i j m hi hj
    exact h.disjoint i j m ((hmem i m).mp hi).2 ((hmem j m).mp hj).2
  · intro i
    unfold LevelQueue.remove
    by_cases hk : k ∈ levels i
    · obtain ⟨pre, post, hlist⟩ := h.run i
      obtain ⟨as, bs, hlevel⟩ := List.append_of_mem hk
      have has : k ∉ as := by
        intro hk
        have hn := hnodup i
        rw [hlevel] at hn
        exact (List.nodup_append.mp hn).2.2 k hk k List.mem_cons_self rfl
      have hpre : k ∉ pre := by
        intro hk'
        have hn := h.nodup
        rw [← hlist, List.append_assoc] at hn
        exact (List.nodup_append.mp hn).2.2 k hk' k (List.mem_append_left post hk) rfl
      have hleft : (levels i).erase k = as ++ bs := by
        rw [hlevel, List.erase_append_right _ has, List.erase_cons_head]
      have hright : list.erase k = pre ++ (as ++ bs) ++ post := by
        rw [← hlist, List.append_assoc, List.erase_append_right _ hpre,
          List.erase_append_left _ hk, hleft, ← List.append_assoc]
      rw [hleft, hright]
      exact ⟨pre, post, rfl⟩
    · rw [List.erase_of_not_mem hk]
      by_cases hkl : k ∈ list
      · obtain ⟨xs, ys, rfl⟩ := List.append_of_mem hkl
        have hxs : k ∉ xs := by
          intro hk
          exact (List.nodup_append.mp h.nodup).2.2 k hk k List.mem_cons_self rfl
        rw [List.erase_append_right _ hxs, List.erase_cons_head]
        obtain hrun | hrun := isInfix_of_notMem (h.run i) hk
        · exact hrun.trans List.infix_append_left
        · exact hrun.trans List.infix_append_right
      · rw [List.erase_of_not_mem hkl]
        exact h.run i

omit [DecidableEq I] in
theorem remove_of_ne (h : Layout list levels) (hk : k ∈ levels i) (hj : j ≠ i) :
    LevelQueue.remove levels k j = levels j := by
  apply List.erase_of_not_mem
  exact fun hk' => hj (h.disjoint j i k hk' hk)

omit [DecidableEq I] in
theorem remove_of_notMem (h : Layout list levels) (hk : k ∉ list) :
    LevelQueue.remove levels k = levels := by
  funext i
  exact List.erase_of_not_mem (h.notMem hk i)

end Layout

end Awn.LevelQueue
