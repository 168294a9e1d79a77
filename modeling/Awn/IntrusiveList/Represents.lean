import Awn.IntrusiveList.Links
import Mathlib.Data.Sum.Basic

/-!
Several lists over one set of elements: the heads are `S`, the elements `E`, and every element is
in at most one list.
-/

namespace Awn.Links

variable {S E : Type*}

def nodes (xs : List E) : List (S ⊕ E) := xs.map Sum.inr

structure Represents (l : Links (S ⊕ E)) (contents : S → List E) : Prop where
  ring : ∀ s, l.Ring (.inl s) (nodes (contents s))
  nodup : ∀ s, (contents s).Nodup
  disjoint : ∀ s t e, e ∈ contents s → e ∈ contents t → s = t
  unlinked : ∀ e, (∀ s, e ∉ contents s) → l.Ring (.inr e) []

theorem represents_alone : (alone : Links (S ⊕ E)).Represents (fun _ => []) where
  ring _ := ⟨rfl, rfl⟩
  nodup _ := List.nodup_nil
  disjoint _ _ _ hs := absurd hs List.not_mem_nil
  unlinked _ _ := ⟨rfl, rfl⟩

theorem mem_nodes {e : E} {xs : List E} : (Sum.inr e : S ⊕ E) ∈ nodes xs ↔ e ∈ xs := by
  unfold nodes
  simp only [List.mem_map, Sum.inr.injEq, exists_eq_right]

theorem head_notMem_nodes (s : S) (xs : List E) : (Sum.inl s : S ⊕ E) ∉ nodes xs := by
  unfold nodes
  simp only [List.mem_map, reduceCtorEq, and_false, exists_false, not_false_eq_true]

theorem nodes_append (xs ys : List E) : (nodes (xs ++ ys) : List (S ⊕ E)) = nodes xs ++ nodes ys :=
  List.map_append

namespace Represents

variable {l : Links (S ⊕ E)} {c : S → List E}

theorem nodup_ring (h : l.Represents c) (s : S) : (Sum.inl s :: nodes (c s)).Nodup := by
  apply List.nodup_cons.mpr
  refine ⟨head_notMem_nodes s (c s), ?_⟩
  exact (h.nodup s).map Sum.inr_injective

theorem disjoint_ring (h : l.Represents c) {s t : S} (hst : t ≠ s) :
    ∀ n ∈ Sum.inl t :: nodes (c t), n ∉ Sum.inl s :: nodes (c s) := by
  intro n hn hm
  cases n with
  | inl u =>
    have ht : u = t := by
      rcases List.mem_cons.mp hn with hn | hn
      · exact Sum.inl.inj hn
      · exact absurd hn (head_notMem_nodes u _)
    have hs : u = s := by
      rcases List.mem_cons.mp hm with hm | hm
      · exact Sum.inl.inj hm
      · exact absurd hm (head_notMem_nodes u _)
    exact hst (ht.symm.trans hs)
  | inr e =>
    have ht : e ∈ c t := by
      rcases List.mem_cons.mp hn with hn | hn
      · cases hn
      · exact mem_nodes.mp hn
    have hs : e ∈ c s := by
      rcases List.mem_cons.mp hm with hm | hm
      · cases hm
      · exact mem_nodes.mp hm
    exact hst (h.disjoint t s e ht hs)

theorem eq_of_ring (h : l.Represents c) {s : S} {xs : List E}
    (hr : l.Ring (.inl s) (nodes xs)) : c s = xs := by
  have hnodes := segment_unique (h.ring s) hr (head_notMem_nodes s _) (head_notMem_nodes s _)
  exact List.map_injective_iff.mpr Sum.inr_injective hnodes

theorem next_head (h : l.Represents c) (s : S) :
    l.next (.inl s) = ((c s).head?.map Sum.inr).getD (.inl s) := by
  have hr := h.ring s
  cases hc : c s with
  | nil =>
    rw [hc] at hr
    exact hr.1
  | cons e es =>
    rw [hc] at hr
    exact hr.1

theorem next_elem (h : l.Represents c) {s : S} {e : E} {xs ys : List E}
    (hc : c s = xs ++ e :: ys) : l.next (.inr e) = (ys.head?.map Sum.inr).getD (.inl s) := by
  have hr := h.ring s
  rw [hc, nodes_append] at hr
  have hsplit := (segment_append l _ _ (Sum.inr e) (nodes xs) (nodes ys)).mp hr
  cases ys with
  | nil => exact hsplit.2.1
  | cons y ys => exact hsplit.2.1

theorem next_unlinked (h : l.Represents c) {e : E} (he : ∀ s, e ∉ c s) :
    l.next (.inr e) = .inr e :=
  (h.unlinked e he).1

variable [DecidableEq S] [DecidableEq E]

theorem isLinked_head (h : l.Represents c) (s : S) :
    l.isLinked (.inl s) = true ↔ c s ≠ [] := by
  unfold isLinked
  rw [h.next_head s]
  cases c s with
  | nil => simp only [List.head?_nil, Option.map_none, Option.getD_none, ne_eq, not_true_eq_false,
      decide_false, Bool.false_eq_true]
  | cons e es => simp only [List.head?_cons, Option.map_some, Option.getD_some, ne_eq,
      reduceCtorEq, not_false_eq_true, decide_true]

theorem isLinked_elem (h : l.Represents c) (e : E) :
    l.isLinked (.inr e) = true ↔ ∃ s, e ∈ c s := by
  unfold isLinked
  by_cases he : ∃ s, e ∈ c s
  · obtain ⟨s, hs⟩ := he
    obtain ⟨xs, ys, hc⟩ := List.append_of_mem hs
    have hnext := h.next_elem hc
    have hne : (Sum.inr e : S ⊕ E) ≠ l.next (.inr e) := by
      rw [hnext]
      cases ys with
      | nil => exact Sum.inr_ne_inl
      | cons y ys =>
        have hnodup := h.nodup s
        rw [hc] at hnodup
        have hey := (List.nodup_cons.mp (List.nodup_append.mp hnodup).2.1).1
        intro heq
        have hy : e = y := Sum.inr.inj heq
        rw [hy] at hey
        exact hey List.mem_cons_self
    simp only [hne, ne_eq, not_false_eq_true, decide_true, true_iff]
    exact ⟨s, hs⟩
  · have hnext := h.next_unlinked (fun s hs => he ⟨s, hs⟩)
    simp only [hnext, ne_eq, not_true_eq_false, decide_false, Bool.false_eq_true, false_iff]
    exact he

theorem unlink (h : l.Represents c) (e : E) :
    (l.unlink (.inr e)).Represents (fun s => (c s).erase e) := by
  by_cases he : ∃ s, e ∈ c s
  · obtain ⟨s, hs⟩ := he
    obtain ⟨xs, ys, hc⟩ := List.append_of_mem hs
    have hnot : ∀ t, t ≠ s → e ∉ c t := fun t hts ht => hts (h.disjoint t s e ht hs)
    have hring := h.ring s
    have hnodup := h.nodup_ring s
    rw [hc, nodes_append] at hring hnodup
    have herase : (c s).erase e = xs ++ ys := by
      rw [hc, List.erase_append_right, List.erase_cons_head]
      have hn := h.nodup s
      rw [hc] at hn
      intro hx
      exact (List.nodup_append.mp hn).2.2 e hx e List.mem_cons_self rfl
    constructor
    · intro t
      by_cases hts : t = s
      · rw [hts, herase, nodes_append]
        exact ring_unlink hring hnodup
      · rw [List.erase_of_not_mem (hnot t hts)]
        apply ring_unlink_other hring hnodup (h.ring t)
        have hd := h.disjoint_ring hts
        rw [hc, nodes_append] at hd
        exact hd
    · intro t
      exact (h.nodup t).erase e
    · intro t u f ht hu
      exact h.disjoint t u f (List.mem_of_mem_erase ht) (List.mem_of_mem_erase hu)
    · intro f hf
      by_cases hfe : f = e
      · rw [hfe]
        exact unlink_ring_self l _
      · have hfc : ∀ t, f ∉ c t := fun t ht => hf t ((List.mem_erase_of_ne hfe).mpr ht)
        apply ring_unlink_other hring hnodup (h.unlinked f hfc)
        intro n hn hm
        have hm : (Sum.inr f : S ⊕ E) ∈ Sum.inl s :: nodes (c s) := by
          rw [hc, nodes_append, ← List.mem_singleton.mp hn]
          exact hm
        rcases List.mem_cons.mp hm with hm | hm
        · cases hm
        · exact hfc s (mem_nodes.mp hm)
  · have hnot : ∀ t, e ∉ c t := fun t ht => he ⟨t, ht⟩
    rw [unlink_alone (h.unlinked e hnot)]
    have herase : (fun s => (c s).erase e) = c := by
      funext t
      exact List.erase_of_not_mem (hnot t)
    rw [herase]
    exact h

omit [DecidableEq S] [DecidableEq E] in
theorem notMem_ring {e : E} {c : S → List E} (he : ∀ s, e ∉ c s) (t : S) :
    (Sum.inr e : S ⊕ E) ∉ Sum.inl t :: nodes (c t) := by
  intro hm
  obtain hm | hm := List.mem_cons.mp hm
  · cases hm
  · exact he t (mem_nodes.mp hm)

omit [DecidableEq E] in
theorem insert (h : l.Represents c) {l' : Links (S ⊕ E)} {e : E} {s : S} {zs : List E}
    (he : ∀ s, e ∉ c s) (hring : l'.Ring (.inl s) (nodes zs)) (hperm : zs.Perm (e :: c s))
    (hother : ∀ (b : S ⊕ E) (ws : List (S ⊕ E)), l.Ring b ws →
      (∀ n ∈ b :: ws, n ∉ Sum.inl s :: nodes (c s)) → Sum.inr e ∉ b :: ws → l'.Ring b ws) :
    l'.Represents (Function.update c s zs) := by
  have hmem : ∀ f, f ∈ zs ↔ f = e ∨ f ∈ c s := fun f => hperm.mem_iff.trans List.mem_cons
  have hcases : ∀ t f, f ∈ Function.update c s zs t → f ∈ c t ∨ (f = e ∧ t = s) := by
    intro t f hf
    by_cases hts : t = s
    · subst hts
      rw [Function.update_self] at hf
      obtain hfe | hf := (hmem f).mp hf
      · exact Or.inr ⟨hfe, rfl⟩
      · exact Or.inl hf
    · rw [Function.update_of_ne hts] at hf
      exact Or.inl hf
  constructor
  · intro t
    by_cases hts : t = s
    · rw [hts, Function.update_self]
      exact hring
    · rw [Function.update_of_ne hts]
      exact hother _ _ (h.ring t) (h.disjoint_ring hts) (notMem_ring he t)
  · intro t
    by_cases hts : t = s
    · rw [hts, Function.update_self]
      exact hperm.nodup_iff.mpr (List.nodup_cons.mpr ⟨he s, h.nodup s⟩)
    · rw [Function.update_of_ne hts]
      exact h.nodup t
  · intro t u f ht hu
    obtain ht | ht := hcases t f ht
    · obtain hu | hu := hcases u f hu
      · exact h.disjoint t u f ht hu
      · exact absurd ht (hu.1 ▸ he t)
    · obtain hu | hu := hcases u f hu
      · exact absurd hu (ht.1 ▸ he u)
      · exact ht.2.trans hu.2.symm
  · intro f hf
    have hself : f ∈ Function.update c s zs s ↔ f = e ∨ f ∈ c s := by
      rw [Function.update_self]
      exact hmem f
    have hfe : f ≠ e := fun heq => hf s (hself.mpr (Or.inl heq))
    have hfc : ∀ t, f ∉ c t := by
      intro t ht
      by_cases hts : t = s
      · subst hts
        exact hf t (hself.mpr (Or.inr ht))
      · apply hf t
        rw [Function.update_of_ne hts]
        exact ht
    apply hother _ _ (h.unlinked f hfc)
    · intro n hn hm
      rw [List.mem_singleton.mp hn] at hm
      exact notMem_ring hfc s hm
    · intro hm
      exact hfe (Sum.inr.inj (List.mem_singleton.mp hm)).symm

theorem pushBack (h : l.Represents c) {e : E} (he : ∀ s, e ∉ c s) (s : S) :
    (l.linkPrev (.inl s) (.inr e)).Represents (Function.update c s (c s ++ [e])) := by
  have halone := h.unlinked e he
  have hmem := notMem_ring he s
  apply h.insert he
  · rw [nodes_append]
    exact ring_linkPrev (h.ring s) (h.nodup_ring s) halone hmem
  · exact List.perm_append_singleton e (c s)
  · exact fun b ws hb hdisjoint heb => ring_linkPrev_other (h.ring s) halone hmem hb hdisjoint heb

end Represents

end Awn.Links
