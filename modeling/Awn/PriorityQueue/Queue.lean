import Mathlib.Data.Int.Order.Basic
import Mathlib.Data.List.Basic
import Mathlib.Data.List.Perm.Basic
import Mathlib.Data.Nat.Notation
import Mathlib.Order.Lattice

/-!
`vp::util::PriorityQueue` and `FixedPriorityQueue`: a binary heap in the first `m_count` entries of
an array, the largest key first. The list is those entries.
-/

namespace Awn.PriorityQueue

variable {T K : Type*} [LinearOrder K] (key : T → K)

def siftUp (pivot_node : T) : ℕ → List T → ℕ → List T × ℕ
  | 0, queue, low => (queue.set low pivot_node, low)
  | fuel + 1, queue, low =>
    if low = 0 then (queue.set low pivot_node, low)
    else
      let high := (low + 1) / 2 - 1
      match queue[high]? with
      | none => (queue.set low pivot_node, low)
      | some high_node =>
        if key high_node < key pivot_node then siftUp pivot_node fuel (queue.set low high_node) high
        else (queue.set low pivot_node, low)

def insertFixup (queue : List T) (pivot : ℕ) : List T × ℕ :=
  match queue[pivot]? with
  | none => (queue, pivot)
  | some pivot_node => siftUp key pivot_node pivot queue pivot

def largerChild (queue : List T) (pivot_node : T) (iter : ℕ) : Option (ℕ × T) :=
  match queue[2 * iter + 1]?, queue[2 * iter + 2]? with
  | none, _ => none
  | some low, none => if key pivot_node < key low then some (2 * iter + 1, low) else none
  | some low, some high =>
    if key pivot_node < key low ∨ key pivot_node < key high then
      if key high ≤ key low then some (2 * iter + 1, low) else some (2 * iter + 2, high)
    else none

def siftDown (pivot_node : T) : ℕ → List T → ℕ → List T
  | 0, queue, iter => queue.set iter pivot_node
  | fuel + 1, queue, iter =>
    match largerChild key queue pivot_node iter with
    | none => queue.set iter pivot_node
    | some (child, node) => siftDown pivot_node fuel (queue.set iter node) child

def removeFixup (queue : List T) (iter : ℕ) : List T :=
  match queue[iter]? with
  | none => queue
  | some pivot_node => siftDown key pivot_node queue.length queue iter

def insert (queue : List T) (new_node : T) : List T :=
  (insertFixup key (queue ++ [new_node]) queue.length).1

/-- `RemoveFront` asserts that the queue is not empty. -/
def removeFront : List T → Option (T × List T)
  | [] => none
  | out_node :: rest =>
    match rest.getLast? with
    | none => some (out_node, [])
    | some last => some (out_node, removeFixup key (last :: rest.dropLast) 0)

def remove (queue : List T) (iter : ℕ) : List T :=
  match queue.getLast? with
  | none => queue
  | some last =>
    if iter + 1 = queue.length then queue.dropLast
    else
      let fixed := insertFixup key (queue.dropLast.set iter last) iter
      if fixed.2 = iter then removeFixup key (queue.dropLast.set iter last) iter else fixed.1

theorem siftUp_perm (pivot_node : T) (fuel : ℕ) (queue : List T) (low : ℕ)
    (hlow : low < queue.length) :
    (siftUp key pivot_node fuel queue low).1.Perm (queue.set low pivot_node) := by
  induction fuel generalizing queue low with
  | zero => exact List.Perm.refl _
  | succ fuel ih =>
    unfold siftUp
    by_cases hzero : low = 0
    · rw [if_pos hzero]
    · rw [if_neg hzero]
      have hlt : (low + 1) / 2 - 1 < queue.length := by omega
      have hne : low ≠ (low + 1) / 2 - 1 := by omega
      simp only [List.getElem?_eq_getElem hlt]
      split
      · apply (ih _ _ (by rw [List.length_set]; exact hlt)).trans
        have hlow' : low < (queue.set low pivot_node).length := by
          rw [List.length_set]
          exact hlow
        have hlt' : (low + 1) / 2 - 1 < (queue.set low pivot_node).length := by
          rw [List.length_set]
          exact hlt
        have hswap := List.set_set_perm hlow' hlt'
        rw [List.getElem_set_self, List.getElem_set_ne hne, List.set_set] at hswap
        exact hswap
      · exact List.Perm.refl _

theorem insertFixup_perm (queue : List T) (pivot : ℕ) :
    (insertFixup key queue pivot).1.Perm queue := by
  unfold insertFixup
  cases h : queue[pivot]? with
  | none => exact List.Perm.refl _
  | some pivot_node =>
    obtain ⟨hlt, heq⟩ := List.getElem?_eq_some_iff.mp h
    have hperm := siftUp_perm key pivot_node pivot queue pivot hlt
    rw [← heq, List.set_getElem_self] at hperm
    rw [← heq]
    exact hperm

theorem insert_perm (queue : List T) (new_node : T) :
    (insert key queue new_node).Perm (new_node :: queue) := by
  apply (insertFixup_perm key _ _).trans
  exact List.perm_append_singleton new_node queue

theorem largerChild_spec {queue : List T} {pivot_node node : T} {iter child : ℕ}
    (h : largerChild key queue pivot_node iter = some (child, node)) :
    iter < child ∧ queue[child]? = some node := by
  unfold largerChild at h
  split at h
  · cases h
  · rename_i hlow hhigh
    split at h
    · cases h
      exact ⟨by omega, hlow⟩
    · cases h
  · rename_i hlow hhigh
    split at h
    · split at h
      · cases h
        exact ⟨by omega, hlow⟩
      · cases h
        exact ⟨by omega, hhigh⟩
    · cases h

theorem siftDown_perm (pivot_node : T) (fuel : ℕ) (queue : List T) (iter : ℕ)
    (hiter : iter < queue.length) :
    (siftDown key pivot_node fuel queue iter).Perm (queue.set iter pivot_node) := by
  induction fuel generalizing queue iter with
  | zero => exact List.Perm.refl _
  | succ fuel ih =>
    unfold siftDown
    cases h : largerChild key queue pivot_node iter with
    | none => exact List.Perm.refl _
    | some found =>
      obtain ⟨child, node⟩ := found
      obtain ⟨hlt, hnode⟩ := largerChild_spec key h
      obtain ⟨hchild, hnode⟩ := List.getElem?_eq_some_iff.mp hnode
      apply (ih _ _ (by rw [List.length_set]; exact hchild)).trans
      have hiter' : iter < (queue.set iter pivot_node).length := by
        rw [List.length_set]
        exact hiter
      have hchild' : child < (queue.set iter pivot_node).length := by
        rw [List.length_set]
        exact hchild
      have hswap := List.set_set_perm hiter' hchild'
      rw [List.getElem_set_self, List.getElem_set_ne (Nat.ne_of_lt hlt), List.set_set, hnode]
        at hswap
      exact hswap

theorem removeFixup_perm (queue : List T) (iter : ℕ) : (removeFixup key queue iter).Perm queue := by
  unfold removeFixup
  cases h : queue[iter]? with
  | none => exact List.Perm.refl _
  | some pivot_node =>
    obtain ⟨hlt, heq⟩ := List.getElem?_eq_some_iff.mp h
    have hperm := siftDown_perm key pivot_node queue.length queue iter hlt
    rw [← heq, List.set_getElem_self] at hperm
    rw [← heq]
    exact hperm

theorem removeFront_cons (out_node : T) (entries : List T) :
    ∃ rest, removeFront key (out_node :: entries) = some (out_node, rest) ∧ rest.Perm entries := by
  unfold removeFront
  dsimp only
  split
  · rename_i hlast
    have hnil := List.getLast?_eq_none_iff.mp hlast
    exact ⟨[], rfl, hnil ▸ List.Perm.refl _⟩
  · rename_i last hlast
    obtain ⟨ys, hys⟩ := List.getLast?_eq_some_iff.mp hlast
    refine ⟨_, rfl, ?_⟩
    apply (removeFixup_perm key _ _).trans
    rw [hys, List.dropLast_concat]
    exact (List.perm_append_singleton last ys).symm

theorem removeFront_perm {queue rest : List T} {out_node : T}
    (h : removeFront key queue = some (out_node, rest)) : queue.Perm (out_node :: rest) := by
  cases queue with
  | nil => cases h
  | cons first entries =>
    obtain ⟨others, hothers, hperm⟩ := removeFront_cons key first entries
    rw [hothers] at h
    cases h
    exact hperm.symm.cons out_node

theorem remove_perm {queue : List T} {iter : ℕ} (hiter : iter < queue.length) :
    queue.Perm (queue[iter] :: remove key queue iter) := by
  unfold remove
  split
  · rename_i hlast
    rw [List.getLast?_eq_none_iff.mp hlast] at hiter
    cases hiter
  · rename_i last hlast
    obtain ⟨ys, rfl⟩ := List.getLast?_eq_some_iff.mp hlast
    rw [List.length_append, List.length_singleton] at hiter ⊢
    rw [List.dropLast_concat]
    by_cases hend : iter + 1 = ys.length + 1
    · have heq : iter = ys.length := Nat.succ.inj hend
      subst heq
      rw [if_pos rfl, List.getElem_concat_length rfl]
      exact List.perm_append_singleton last ys
    · have hlt : iter < ys.length := by omega
      rw [if_neg hend, List.getElem_append_left hlt]
      have hset : (ys ++ [last]).Perm (ys[iter] :: ys.set iter last) := by
        apply (List.perm_append_singleton last ys).trans
        have hfirst : 0 < (last :: ys).length := Nat.succ_pos _
        have hnext : iter + 1 < (last :: ys).length := Nat.succ_lt_succ hlt
        have hcons := List.set_set_perm hfirst hnext
        exact hcons.symm
      apply hset.trans
      apply List.Perm.cons
      dsimp only
      split
      · exact (removeFixup_perm key _ _).symm
      · exact (insertFixup_perm key _ _).symm

end Awn.PriorityQueue
