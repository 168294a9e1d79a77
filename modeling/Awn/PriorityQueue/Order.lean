import Awn.PriorityQueue.Queue

/-!
The order of the heap. While an entry looks for its place there is a hole in the list, and every
pair of a parent and a child that does not touch the hole is in order.
-/

namespace Awn.PriorityQueue

variable {T K : Type*} [LinearOrder K] (key : T → K)

def parent (i : ℕ) : ℕ := (i + 1) / 2 - 1

def HeapOrder (queue : List T) : Prop :=
  ∀ i x y, 0 < i → queue[i]? = some x → queue[parent i]? = some y → key x ≤ key y

structure Except (queue : List T) (hole : ℕ) : Prop where
  pairs : ∀ i x y, 0 < i → i ≠ hole → parent i ≠ hole → queue[i]? = some x →
    queue[parent i]? = some y → key x ≤ key y
  around : ∀ i x y, 0 < i → parent i = hole → 0 < hole → queue[i]? = some x →
    queue[parent hole]? = some y → key x ≤ key y

def Below (queue : List T) (hole : ℕ) (e : T) : Prop :=
  ∀ i x, 0 < i → parent i = hole → queue[i]? = some x → key x ≤ key e

def Above (queue : List T) (hole : ℕ) (e : T) : Prop :=
  ∀ y, 0 < hole → queue[parent hole]? = some y → key e ≤ key y

theorem parent_lt {i : ℕ} (hi : 0 < i) : parent i < i := by
  unfold parent
  omega

theorem parent_eq_iff {i p : ℕ} (hi : 0 < i) : parent i = p ↔ i = 2 * p + 1 ∨ i = 2 * p + 2 := by
  unfold parent
  omega

variable {key} {queue : List T} {hole : ℕ} {e : T}

theorem HeapOrder.except (h : HeapOrder key queue) (hole : ℕ) : Except key queue hole where
  pairs i x y hi _ _ hx hy := h i x y hi hx hy
  around i x y hi hparent hpos hx hy := by
    have hlt : hole < i := hparent ▸ parent_lt hi
    have hlen : i < queue.length := (List.getElem?_eq_some_iff.mp hx).1
    have hhole : queue[hole]? = some queue[hole] := List.getElem?_eq_getElem (by omega)
    have hup := h i x queue[hole] hi hx (by rw [hparent]; exact hhole)
    exact le_trans hup (h hole queue[hole] y hpos hhole hy)

theorem Except.fill (h : Except key queue hole) (hbelow : Below key queue hole e)
    (habove : Above key queue hole e) : HeapOrder key (queue.set hole e) := by
  intro i x y hi hx hy
  have hlt := parent_lt hi
  rw [List.getElem?_set] at hx hy
  by_cases hih : hole = i
  · subst hih
    rw [if_neg (by omega)] at hy
    rw [if_pos rfl] at hx
    split at hx
    · cases hx
      exact habove y hi hy
    · cases hx
  · rw [if_neg hih] at hx
    by_cases hph : hole = parent i
    · rw [if_pos hph] at hy
      split at hy
      · cases hy
        exact hbelow i x hi hph.symm hx
      · cases hy
    · rw [if_neg hph] at hy
      exact h.pairs i x y hi (Ne.symm hih) (Ne.symm hph) hx hy

theorem Except.moveUp (h : Except key queue hole) (hpos : 0 < hole)
    {node : T} (hnode : queue[parent hole]? = some node) (hlt : key node < key e) :
    Except key (queue.set hole node) (parent hole) ∧
      Below key (queue.set hole node) (parent hole) e := by
  have hparent := parent_lt hpos
  refine ⟨⟨?_, ?_⟩, ?_⟩
  · intro i x y hi hne hpne hx hy
    rw [List.getElem?_set] at hx hy
    by_cases hih : hole = i
    · exact absurd (hih ▸ rfl) hpne
    · rw [if_neg hih] at hx
      by_cases hph : hole = parent i
      · rw [if_pos hph] at hy
        split at hy
        · cases hy
          exact h.around i x node hi hph.symm hpos hx hnode
        · cases hy
      · rw [if_neg hph] at hy
        exact h.pairs i x y hi (Ne.symm hih) (Ne.symm hph) hx hy
  · intro i x y hi hpi hpos' hx hy
    have hparent' := parent_lt hpos'
    rw [List.getElem?_set, if_neg (by omega)] at hy
    have hup : key node ≤ key y := h.pairs (parent hole) node y hpos' (by omega) (by omega) hnode hy
    rw [List.getElem?_set] at hx
    by_cases hih : hole = i
    · rw [if_pos hih] at hx
      split at hx
      · cases hx
        exact hup
      · cases hx
    · rw [if_neg hih] at hx
      have hsame := h.pairs i x node hi (Ne.symm hih) (by omega) hx (by rw [hpi]; exact hnode)
      exact le_trans hsame hup
  · intro i x hi hpi hx
    rw [List.getElem?_set] at hx
    by_cases hih : hole = i
    · rw [if_pos hih] at hx
      split at hx
      · cases hx
        exact le_of_lt hlt
      · cases hx
    · rw [if_neg hih] at hx
      have hsame := h.pairs i x node hi (Ne.symm hih) (by omega) hx (by rw [hpi]; exact hnode)
      exact le_trans hsame (le_of_lt hlt)

theorem siftUp_heapOrder {fuel : ℕ} (h : Except key queue hole) (hbelow : Below key queue hole e)
    (hfuel : hole ≤ fuel) : HeapOrder key (siftUp key e fuel queue hole).1 := by
  induction fuel generalizing queue hole with
  | zero =>
    obtain rfl : hole = 0 := Nat.le_zero.mp hfuel
    apply h.fill hbelow
    intro y hpos _
    exact absurd hpos (Nat.lt_irrefl 0)
  | succ fuel ih =>
    unfold siftUp
    by_cases hzero : hole = 0
    · rw [if_pos hzero]
      apply h.fill hbelow
      intro y hpos _
      exact absurd hzero (Nat.pos_iff_ne_zero.mp hpos)
    · rw [if_neg hzero]
      dsimp only
      split
      · rename_i hnone
        apply h.fill hbelow
        intro y _ hy
        rw [parent, hnone] at hy
        cases hy
      · rename_i node hnode
        split
        · rename_i hlt
          obtain ⟨hexcept, hbelow'⟩ := h.moveUp (by omega) hnode hlt
          have hparent := parent_lt (i := hole) (by omega)
          exact ih hexcept hbelow' (by unfold parent at hparent; omega)
        · rename_i hle
          apply h.fill hbelow
          intro y _ hy
          rw [parent, hnode] at hy
          cases hy
          exact not_lt.mp hle

theorem siftUp_eq_of_above {fuel : ℕ} (h : Above key queue hole e) :
    siftUp key e fuel queue hole = (queue.set hole e, hole) := by
  cases fuel with
  | zero => rfl
  | succ fuel =>
    unfold siftUp
    by_cases hzero : hole = 0
    · rw [if_pos hzero]
    · rw [if_neg hzero]
      dsimp only
      split
      · rfl
      · rename_i node hnode
        rw [if_neg (not_lt.mpr (h node (by omega) hnode))]

theorem siftUp_snd_le (key : T → K) (e : T) (fuel : ℕ) (queue : List T) (hole : ℕ) :
    (siftUp key e fuel queue hole).2 ≤ hole := by
  induction fuel generalizing queue hole with
  | zero => exact Nat.le_refl hole
  | succ fuel ih =>
    unfold siftUp
    by_cases hzero : hole = 0
    · simp only [if_pos hzero, Nat.le_refl]
    · rw [if_neg hzero]
      dsimp only
      split
      · exact Nat.le_refl hole
      · split
        · rename_i node _ _
          have hle := ih (queue.set hole node) ((hole + 1) / 2 - 1)
          omega
        · exact Nat.le_refl hole

theorem above_of_siftUp_snd {fuel : ℕ} (hfuel : hole ≤ fuel)
    (h : (siftUp key e fuel queue hole).2 = hole) : Above key queue hole e := by
  intro node hpos hnode
  cases fuel with
  | zero => omega
  | succ fuel =>
    unfold siftUp at h
    rw [if_neg (by omega)] at h
    unfold parent at hnode
    dsimp only at h
    rw [hnode] at h
    dsimp only at h
    by_contra hlt
    rw [if_pos (not_le.mp hlt)] at h
    have hle := siftUp_snd_le key e fuel (queue.set hole node) ((hole + 1) / 2 - 1)
    omega

theorem insertFixup_stay {pivot : ℕ} (h : (insertFixup key queue pivot).2 = pivot) :
    (insertFixup key queue pivot).1 = queue := by
  unfold insertFixup at h ⊢
  cases hget : queue[pivot]? with
  | none => rfl
  | some e =>
    rw [hget] at h
    obtain ⟨hlen, rfl⟩ := List.getElem?_eq_some_iff.mp hget
    have habove := above_of_siftUp_snd (Nat.le_refl pivot) h
    dsimp only
    rw [siftUp_eq_of_above habove]
    exact List.set_getElem_self hlen

theorem Except.moveDown (h : Except key queue hole) {child : ℕ} {node : T}
    (hlen : hole < queue.length) (hparent : parent child = hole) (hpos : 0 < child)
    (hnode : queue[child]? = some node) (hlt : key e < key node)
    (hlargest : ∀ i x, 0 < i → parent i = hole → queue[i]? = some x → key x ≤ key node) :
    Except key (queue.set hole node) child ∧ Above key (queue.set hole node) child e := by
  have hchild := parent_lt hpos
  refine ⟨⟨?_, ?_⟩, ?_⟩
  · intro i x y hi hne hpne hx hy
    rw [List.getElem?_set] at hx hy
    by_cases hih : hole = i
    · subst hih
      have hup := parent_lt hi
      rw [if_pos rfl, if_pos hlen] at hx
      rw [if_neg (by omega)] at hy
      cases hx
      exact h.around child node y hpos hparent hi hnode hy
    · rw [if_neg hih] at hx
      by_cases hph : hole = parent i
      · rw [if_pos hph, if_pos hlen] at hy
        cases hy
        exact hlargest i x hi hph.symm hx
      · rw [if_neg hph] at hy
        exact h.pairs i x y hi (Ne.symm hih) (Ne.symm hph) hx hy
  · intro i x y hi hpi _ hx hy
    have hdown := parent_lt hi
    rw [List.getElem?_set, if_neg (by omega)] at hx
    rw [hparent, List.getElem?_set, if_pos rfl, if_pos hlen] at hy
    cases hy
    exact h.pairs i x node hi (by omega) (by omega) hx (by rw [hpi]; exact hnode)
  · intro y _ hy
    rw [hparent, List.getElem?_set, if_pos rfl, if_pos hlen] at hy
    cases hy
    exact le_of_lt hlt

theorem child_cases {i : ℕ} {x : T} (hi : 0 < i) (hparent : parent i = hole)
    (hx : queue[i]? = some x) :
    queue[2 * hole + 1]? = some x ∨ queue[2 * hole + 2]? = some x := by
  obtain rfl | rfl := (parent_eq_iff hi).mp hparent
  · exact Or.inl hx
  · exact Or.inr hx

theorem largerChild_none (h : largerChild key queue e hole = none) : Below key queue hole e := by
  intro i x hi hparent hx
  have hx := child_cases hi hparent hx
  unfold largerChild at h
  split at h
  · rename_i hlow
    have hlen := List.getElem?_eq_none_iff.mp hlow
    rw [hlow, List.getElem?_eq_none (by omega)] at hx
    obtain hx | hx := hx
    · cases hx
    · cases hx
  · rename_i low hlow hhigh
    split at h
    · cases h
    · rename_i hle
      rw [hlow, hhigh] at hx
      obtain hx | hx := hx
      · cases hx
        exact not_lt.mp hle
      · cases hx
  · rename_i low high hlow hhigh
    split at h
    · split at h
      · cases h
      · cases h
    · rename_i hle
      rw [hlow, hhigh] at hx
      obtain hx | hx := hx
      · cases hx
        exact not_lt.mp fun hlt => hle (Or.inl hlt)
      · cases hx
        exact not_lt.mp fun hlt => hle (Or.inr hlt)

theorem largerChild_some {child : ℕ} {node : T}
    (h : largerChild key queue e hole = some (child, node)) :
    0 < child ∧ parent child = hole ∧ queue[child]? = some node ∧ key e < key node ∧
      ∀ i x, 0 < i → parent i = hole → queue[i]? = some x → key x ≤ key node := by
  unfold largerChild at h
  have hone : parent (2 * hole + 1) = hole := (parent_eq_iff (by omega)).mpr (Or.inl rfl)
  have htwo : parent (2 * hole + 2) = hole := (parent_eq_iff (by omega)).mpr (Or.inr rfl)
  split at h
  · cases h
  · rename_i low hlow hhigh
    split at h
    · rename_i hlt
      cases h
      refine ⟨by omega, hone, hlow, hlt, ?_⟩
      intro i x hi hparent hx
      obtain hx | hx := child_cases hi hparent hx
      · rw [hlow] at hx
        cases hx
        exact le_refl _
      · rw [hhigh] at hx
        cases hx
    · cases h
  · rename_i low high hlow hhigh
    split at h
    · rename_i hlt
      split at h
      · rename_i hle
        cases h
        refine ⟨by omega, hone, hlow, hlt.elim id fun h => lt_of_lt_of_le h hle, ?_⟩
        intro i x hi hparent hx
        obtain hx | hx := child_cases hi hparent hx
        · rw [hlow] at hx
          cases hx
          exact le_refl _
        · rw [hhigh] at hx
          cases hx
          exact hle
      · rename_i hle
        have hle := le_of_lt (not_le.mp hle)
        cases h
        refine ⟨by omega, htwo, hhigh, hlt.elim (fun h => lt_of_lt_of_le h hle) id, ?_⟩
        intro i x hi hparent hx
        obtain hx | hx := child_cases hi hparent hx
        · rw [hlow] at hx
          cases hx
          exact hle
        · rw [hhigh] at hx
          cases hx
          exact le_refl _
    · cases h

theorem siftDown_heapOrder {fuel : ℕ} (h : Except key queue hole) (habove : Above key queue hole e)
    (hlen : hole < queue.length) (hfuel : queue.length ≤ hole + fuel) :
    HeapOrder key (siftDown key e fuel queue hole) := by
  induction fuel generalizing queue hole with
  | zero => omega
  | succ fuel ih =>
    unfold siftDown
    cases hchild : largerChild key queue e hole with
    | none => exact h.fill (largerChild_none hchild) habove
    | some found =>
      obtain ⟨child, node⟩ := found
      obtain ⟨hpos, hparent, hnode, hlt, hlargest⟩ := largerChild_some hchild
      obtain ⟨hexcept, habove'⟩ := h.moveDown hlen hparent hpos hnode hlt hlargest
      have hdown := parent_lt hpos
      have hin := (List.getElem?_eq_some_iff.mp hnode).1
      apply ih hexcept habove'
      · rw [List.length_set]
        exact hin
      · rw [List.length_set]
        omega

theorem insert_heapOrder (h : HeapOrder key queue) (new_node : T) :
    HeapOrder key (insert key queue new_node) := by
  have hlast : (queue ++ [new_node])[queue.length]? = some new_node :=
    List.getElem?_concat_length
  unfold insert insertFixup
  rw [hlast]
  have hget : ∀ (i : ℕ) (x : T), i ≠ queue.length → (queue ++ [new_node])[i]? = some x →
      queue[i]? = some x := by
    intro i x hne hx
    have hlen := (List.getElem?_eq_some_iff.mp hx).1
    rw [List.length_append, List.length_singleton] at hlen
    rw [List.getElem?_append_left (by omega)] at hx
    exact hx
  have hno_child : ∀ (i : ℕ) (x : T), 0 < i → parent i = queue.length →
      (queue ++ [new_node])[i]? ≠ some x := by
    intro i x hi hparent hx
    have hup := parent_lt hi
    have hlen := (List.getElem?_eq_some_iff.mp hx).1
    rw [List.length_append, List.length_singleton] at hlen
    omega
  apply siftUp_heapOrder
  · constructor
    · intro i x y hi hne hpne hx hy
      exact h i x y hi (hget i x hne hx) (hget _ y hpne hy)
    · intro i x y hi hparent _ hx _
      exact absurd hx (hno_child i x hi hparent)
  · intro i x hi hparent hx
    exact absurd hx (hno_child i x hi hparent)
  · exact Nat.le_refl _

theorem HeapOrder.dropLast (h : HeapOrder key queue) : HeapOrder key queue.dropLast := by
  have hget : ∀ (i : ℕ) (x : T), queue.dropLast[i]? = some x → queue[i]? = some x := by
    intro i x hx
    have hlen := (List.getElem?_eq_some_iff.mp hx).1
    rw [List.length_dropLast] at hlen
    rw [List.getElem?_dropLast, if_pos hlen] at hx
    exact hx
  intro i x y hi hx hy
  exact h i x y hi (hget i x hx) (hget _ y hy)

theorem Except.set (h : Except key queue hole) (e : T) : Except key (queue.set hole e) hole where
  pairs i x y hi hne hpne hx hy := by
    rw [List.getElem?_set_ne (Ne.symm hne)] at hx
    rw [List.getElem?_set_ne (Ne.symm hpne)] at hy
    exact h.pairs i x y hi hne hpne hx hy
  around i x y hi hparent hpos hx hy := by
    have hup := parent_lt hi
    have hup' := parent_lt hpos
    rw [List.getElem?_set_ne (by omega)] at hx hy
    exact h.around i x y hi hparent hpos hx hy

theorem Except.below_of_not_above (h : Except key queue hole) (habove : ¬Above key queue hole e) :
    Below key queue hole e := by
  unfold Above at habove
  push Not at habove
  obtain ⟨y, hpos, hy, hlt⟩ := habove
  intro i x hi hparent hx
  exact le_trans (h.around i x y hi hparent hpos hx hy) (le_of_lt hlt)

theorem removeFront_heapOrder {out_node : T} {rest : List T} (h : HeapOrder key queue)
    (hfront : removeFront key queue = some (out_node, rest)) : HeapOrder key rest := by
  unfold removeFront at hfront
  split at hfront
  · cases hfront
  · rename_i first entries
    split at hfront
    · cases hfront
      intro i x y _ hx
      cases hx
    · rename_i last hlast
      cases hfront
      have hset : last :: entries.dropLast = (out_node :: entries).dropLast.set 0 last := by
        obtain ⟨ys, rfl⟩ := List.getLast?_eq_some_iff.mp hlast
        rw [List.dropLast_concat, ← List.cons_append, List.dropLast_concat, List.set_cons_zero]
      unfold removeFixup
      rw [List.getElem?_cons_zero]
      dsimp only
      apply siftDown_heapOrder
      · rw [hset]
        exact (h.dropLast.except 0).set last
      · intro y hpos _
        exact absurd hpos (Nat.lt_irrefl 0)
      · exact Nat.succ_pos _
      · omega

theorem remove_heapOrder (h : HeapOrder key queue) {iter : ℕ} (hiter : iter < queue.length) :
    HeapOrder key (remove key queue iter) := by
  unfold remove
  split
  · exact h
  · rename_i last hlast
    by_cases hend : iter + 1 = queue.length
    · rw [if_pos hend]
      exact h.dropLast
    · rw [if_neg hend]
      have hlen : iter < queue.dropLast.length := by
        rw [List.length_dropLast]
        omega
      have hget : (queue.dropLast.set iter last)[iter]? = some last :=
        List.getElem?_set_self hlen
      have hlen' : iter < (queue.dropLast.set iter last).length := by
        rw [List.length_set]
        exact hlen
      have hexcept := (h.dropLast.except iter).set last
      unfold insertFixup removeFixup
      rw [hget]
      dsimp only
      by_cases hstay : (siftUp key last iter (queue.dropLast.set iter last) iter).2 = iter
      · rw [if_pos hstay]
        exact siftDown_heapOrder hexcept (above_of_siftUp_snd (Nat.le_refl _) hstay) hlen'
          (Nat.le_add_left _ _)
      · rw [if_neg hstay]
        have habove : ¬Above key (queue.dropLast.set iter last) iter last := by
          intro habove
          rw [siftUp_eq_of_above habove] at hstay
          exact hstay rfl
        exact siftUp_heapOrder hexcept (hexcept.below_of_not_above habove) (Nat.le_refl _)

theorem HeapOrder.le_front (h : HeapOrder key queue) {front : T} (hfront : queue[0]? = some front)
    {i : ℕ} {x : T} (hx : queue[i]? = some x) : key x ≤ key front := by
  induction i using Nat.strongRecOn generalizing x with
  | ind i ih =>
    by_cases hzero : i = 0
    · rw [hzero, hfront] at hx
      cases hx
      exact le_refl _
    · have hlt := parent_lt (Nat.pos_of_ne_zero hzero)
      have hlen := (List.getElem?_eq_some_iff.mp hx).1
      have hup : queue[parent i]? = some queue[parent i] := List.getElem?_eq_getElem (by omega)
      exact le_trans (h i x _ (Nat.pos_of_ne_zero hzero) hx hup) (ih (parent i) hlt hup)

theorem removeFront_largest {out_node : T} {rest : List T} (h : HeapOrder key queue)
    (hfront : removeFront key queue = some (out_node, rest)) : ∀ x ∈ queue, key x ≤ key out_node := by
  unfold removeFront at hfront
  have hfirst : queue[0]? = some out_node := by
    split at hfront
    · cases hfront
    · split at hfront
      · cases hfront
        rfl
      · cases hfront
        rfl
  intro x hx
  obtain ⟨i, hi⟩ := List.mem_iff_getElem?.mp hx
  exact h.le_front hfirst hi

end Awn.PriorityQueue
