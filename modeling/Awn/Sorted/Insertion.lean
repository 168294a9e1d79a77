import Mathlib.Data.List.Basic
import Mathlib.Data.Nat.Notation
import Mathlib.Order.Basic
import Mathlib.Order.Lattice

/-!
Insertion into a list by a test of its elements from the front: past an element, in front of it, or
not at all.
-/

namespace Awn.Sorted

inductive Turn
  | isPresent | goOn | link
  deriving DecidableEq

variable {E K : Type*}

/-- The list with the new element, or `none` where an element is met that is the same. -/
def insertNode (turn : E → Turn) (new : E) : List E → Option (List E)
  | [] => some [new]
  | e :: es =>
    match turn e with
    | .isPresent => none
    | .goOn => (insertNode turn new es).map (e :: ·)
    | .link => some (new :: e :: es)

variable {turn : E → Turn} {new e : E} {es es' : List E}

theorem insertNode_isPresent (h : turn e = .isPresent) : insertNode turn new (e :: es) = none := by
  simp only [insertNode, h]

theorem insertNode_goOn (h : turn e = .goOn) :
    insertNode turn new (e :: es) = (insertNode turn new es).map (e :: ·) := by
  simp only [insertNode, h]

theorem insertNode_link (h : turn e = .link) :
    insertNode turn new (e :: es) = some (new :: e :: es) := by
  simp only [insertNode, h]

theorem insertNode_perm (h : insertNode turn new es = some es') : es'.Perm (new :: es) := by
  induction es generalizing es' with
  | nil =>
    obtain rfl := Option.some.inj h
    exact List.Perm.refl _
  | cons e es ih =>
    cases ht : turn e with
    | isPresent =>
      rw [insertNode_isPresent ht] at h
      cases h
    | goOn =>
      rw [insertNode_goOn ht] at h
      obtain ⟨rest, hrest, rfl⟩ := Option.map_eq_some_iff.mp h
      exact ((ih hrest).cons e).trans (List.Perm.swap new e es)
    | link =>
      rw [insertNode_link ht] at h
      obtain rfl := Option.some.inj h
      exact List.Perm.refl _

theorem exists_isPresent (h : insertNode turn new es = none) : ∃ e ∈ es, turn e = .isPresent := by
  induction es with
  | nil => cases h
  | cons e es ih =>
    cases ht : turn e with
    | isPresent => exact ⟨e, List.mem_cons_self, ht⟩
    | goOn =>
      rw [insertNode_goOn ht, Option.map_eq_none_iff] at h
      obtain ⟨f, hf, hfp⟩ := ih h
      exact ⟨f, List.mem_cons_of_mem e hf, hfp⟩
    | link =>
      rw [insertNode_link ht] at h
      cases h

section Order

variable [LinearOrder K] {key : E → K} {k : K}

structure Tells (turn : E → Turn) (key : E → K) (k : K) (e : E) : Prop where
  less : key e < k → turn e = .goOn
  greater : k < key e → turn e = .link

theorem Tells.not_lt (h : Tells turn key k e) (ht : turn e ≠ .goOn) : k ≤ key e := by
  by_contra hlt
  exact ht (h.less (not_le.mp hlt))

theorem Tells.not_gt (h : Tells turn key k e) (ht : turn e ≠ .link) : key e ≤ k := by
  by_contra hlt
  exact ht (h.greater (not_le.mp hlt))

theorem insertNode_sorted (htells : ∀ e ∈ es, Tells turn key (key new) e)
    (hsorted : es.Pairwise fun a b => key a ≤ key b) (h : insertNode turn new es = some es') :
    es'.Pairwise fun a b => key a ≤ key b := by
  induction es generalizing es' with
  | nil =>
    obtain rfl := Option.some.inj h
    exact List.pairwise_singleton _ _
  | cons e es ih =>
    have he := htells e List.mem_cons_self
    rw [List.pairwise_cons] at hsorted
    cases ht : turn e with
    | isPresent =>
      rw [insertNode_isPresent ht] at h
      cases h
    | goOn =>
      rw [insertNode_goOn ht] at h
      obtain ⟨rest, hrest, rfl⟩ := Option.map_eq_some_iff.mp h
      apply List.pairwise_cons.mpr
      constructor
      · intro f hf
        obtain rfl | hf := List.mem_cons.mp ((insertNode_perm hrest).mem_iff.mp hf)
        · exact he.not_gt (by rw [ht]; exact Turn.noConfusion)
        · exact hsorted.1 f hf
      · exact ih (fun f hf => htells f (List.mem_cons_of_mem e hf)) hsorted.2 hrest
    | link =>
      rw [insertNode_link ht] at h
      obtain rfl := Option.some.inj h
      have hle := he.not_lt (by rw [ht]; exact Turn.noConfusion)
      apply List.pairwise_cons.mpr
      constructor
      · intro f hf
        obtain rfl | hf := List.mem_cons.mp hf
        · exact hle
        · exact hle.trans (hsorted.1 f hf)
      · exact List.pairwise_cons.mpr hsorted

structure Decides (turn : E → Turn) (key : E → K) (k : K) (e : E) : Prop
    extends Tells turn key k e where
  same : key e = k → turn e = .isPresent

theorem Decides.key_eq (h : Decides turn key k e) (ht : turn e = .isPresent) : key e = k := by
  apply le_antisymm
  · exact h.not_gt (by rw [ht]; exact Turn.noConfusion)
  · exact h.not_lt (by rw [ht]; exact Turn.noConfusion)

theorem insertNode_eq_none_iff (hdecides : ∀ e ∈ es, Decides turn key (key new) e)
    (hsorted : es.Pairwise fun a b => key a < key b) :
    insertNode turn new es = none ↔ ∃ e ∈ es, key e = key new := by
  constructor
  · intro h
    obtain ⟨e, he, ht⟩ := exists_isPresent h
    exact ⟨e, he, (hdecides e he).key_eq ht⟩
  · rintro ⟨e, he, hkey⟩
    induction es with
    | nil => cases he
    | cons f es ih =>
      rw [List.pairwise_cons] at hsorted
      have hf := hdecides f List.mem_cons_self
      obtain rfl | hmem := List.mem_cons.mp he
      · exact insertNode_isPresent (hf.same hkey)
      · have hless : key f < key new := hkey ▸ hsorted.1 e hmem
        rw [insertNode_goOn (hf.less hless), Option.map_eq_none_iff]
        exact ih (fun g hg => hdecides g (List.mem_cons_of_mem f hg)) hsorted.2 hmem

theorem insertNode_strictSorted (hdecides : ∀ e ∈ es, Decides turn key (key new) e)
    (hsorted : es.Pairwise fun a b => key a < key b) (h : insertNode turn new es = some es') :
    es'.Pairwise fun a b => key a < key b := by
  have hle := insertNode_sorted (fun e he => (hdecides e he).toTells)
    (hsorted.imp fun hlt => le_of_lt hlt) h
  have hnew : ¬∃ e ∈ es, key e = key new := by
    rw [← insertNode_eq_none_iff hdecides hsorted, h]
    exact Option.some_ne_none es'
  have hne : es'.Pairwise fun a b => key a ≠ key b := by
    apply ((insertNode_perm h).pairwise_iff (fun hab => Ne.symm hab)).mpr
    apply List.pairwise_cons.mpr
    constructor
    · intro e he hkey
      exact hnew ⟨e, he, hkey.symm⟩
    · exact hsorted.imp fun hlt => ne_of_lt hlt
  exact hle.and hne |>.imp fun hab => lt_of_le_of_ne hab.1 hab.2

theorem insertNode_not_sorted (hsorted : es.Pairwise fun a b => key a < key b)
    (hnot : ∀ e ∈ es, key e < key new → turn e ≠ .isPresent)
    (he : e ∈ es) (hless : key e < key new) (hstop : turn e ≠ .goOn) :
    ∃ es', insertNode turn new es = some es' ∧ ¬es'.Pairwise fun a b => key a < key b := by
  induction es with
  | nil => cases he
  | cons f es ih =>
    rw [List.pairwise_cons] at hsorted
    have hfirst : key f < key new := by
      obtain rfl | hmem := List.mem_cons.mp he
      · exact hless
      · exact (hsorted.1 e hmem).trans hless
    cases ht : turn f with
    | isPresent => exact absurd ht (hnot f List.mem_cons_self hfirst)
    | link =>
      refine ⟨new :: f :: es, insertNode_link ht, ?_⟩
      intro h
      exact lt_asymm hfirst ((List.pairwise_cons.mp h).1 f List.mem_cons_self)
    | goOn =>
      obtain rfl | hmem := List.mem_cons.mp he
      · exact absurd ht hstop
      · obtain ⟨rest, hrest, hbad⟩ := ih hsorted.2
          (fun g hg => hnot g (List.mem_cons_of_mem f hg)) hmem
        refine ⟨f :: rest, by rw [insertNode_goOn ht, hrest, Option.map_some], ?_⟩
        intro h
        exact hbad (List.pairwise_cons.mp h).2

end Order

end Awn.Sorted
