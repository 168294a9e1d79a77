import Awn.PriorityQueue.Order
import Mathlib.Algebra.Group.Nat.Defs

/-!
`vp::util::PriorityQueue` and `FixedPriorityQueue` as the code keeps them: an array of pointers and
a count of 32 bits, with indices of 32 bits.
-/

namespace Awn.PriorityQueue

structure Queue (T : Type*) where
  m_queue : ℕ → T
  m_count : BitVec 32

namespace Queue

variable {T K : Type*} [LinearOrder K] (key : T → K)

def insertLoop (pivot_node : T) : ℕ → (ℕ → T) → ℕ → ℕ → BitVec 32 → Option ((ℕ → T) × ℕ)
  | 0, _, _, _, _ => none
  | fuel + 1, m_queue, low_pair, high_pair, i =>
    if key (m_queue high_pair) < key pivot_node then
      let m_queue := Function.update m_queue low_pair (m_queue high_pair)
      let next_low := ((i + 1) >>> 1) - 1
      if next_low = 0 then some (Function.update m_queue next_low.toNat pivot_node, next_low.toNat)
      else
        let next_high := ((i + 1) >>> 2) - 1
        insertLoop pivot_node fuel m_queue next_low.toNat next_high.toNat next_low
    else some (Function.update m_queue low_pair pivot_node, low_pair)

/-- Given by the index of `pivot`. It asserts that the index is in the queue. -/
def InsertFixup (q : Queue T) (fuel pivot : ℕ) : Option (Queue T × ℕ) :=
  let p_count := BitVec.ofNat 32 pivot
  if ¬p_count < q.m_count then none
  else if p_count = 0 then some (q, pivot)
  else (insertLoop key (q.m_queue pivot) fuel q.m_queue pivot
    (((p_count + 1) >>> 1).toNat - 1) p_count).map fun r => ({ q with m_queue := r.1 }, r.2)

/-- The loop of `RemoveFixup`. `high_pair` is `none` for a null pointer. -/
def removeLoop (m_count : BitVec 32) (pivot_node : T) :
    ℕ → (ℕ → T) → ℕ → T → Option ℕ → BitVec 32 → BitVec 32 → Option (ℕ → T)
  | 0, _, _, _, _, _, _ => none
  | fuel + 1, m_queue, iter, low_pair, high_pair, l_i, h_i =>
    if key pivot_node < key low_pair ∨ ∃ high ∈ high_pair, key pivot_node < key (m_queue high) then
      let low := ∀ high ∈ high_pair, key (m_queue high) ≤ key low_pair
      let m_queue := Function.update m_queue iter
        (if low then low_pair else high_pair.elim low_pair m_queue)
      let h_i := if low then l_i else h_i
      let iter := h_i.toNat
      let l_i := (h_i <<< 1) ||| 1
      let h_i := (h_i <<< 1) + 2
      if m_count ≤ l_i then some (Function.update m_queue iter pivot_node)
      else removeLoop m_count pivot_node fuel m_queue iter (m_queue l_i.toNat)
        (if h_i < m_count then some h_i.toNat else none) l_i h_i
    else some (Function.update m_queue iter pivot_node)

def RemoveFixup (q : Queue T) (fuel iter : ℕ) : Option (Queue T) :=
  let p_count := BitVec.ofNat 32 iter
  let start := BitVec.ofNat 32 ((8 * iter) >>> 2)
  let start_l := start ||| 1
  let start_h := (start + 2) &&& 0xfffffffe
  if ¬p_count < q.m_count then none
  else if q.m_count ≤ start_l then some q
  else (removeLoop key q.m_count (q.m_queue iter) fuel q.m_queue iter (q.m_queue start_l.toNat)
    (if start_h < q.m_count then some start_h.toNat else none) start_l start_h).map
      fun m_queue => { q with m_queue }

/-- `Insert`, which asserts that there is room: `max` is `m_max`, or `Size`. -/
def Insert (q : Queue T) (max fuel : ℕ) (new_node : T) : Option (Queue T) :=
  if q.m_count.toNat < max then
    let last_count := q.m_count
    let q := { m_queue := Function.update q.m_queue last_count.toNat new_node
               m_count := q.m_count + 1 : Queue T }
    (q.InsertFixup key fuel last_count.toNat).map Prod.fst
  else none

def RemoveFront (q : Queue T) (fuel : ℕ) : Option (T × Queue T) :=
  if 0 < q.m_count then
    let m_count := q.m_count - 1
    let out_node := q.m_queue 0
    if m_count ≠ 0 then
      let q := { m_queue := Function.update q.m_queue 0 (q.m_queue m_count.toNat)
                 m_count : Queue T }
      (q.RemoveFixup key fuel 0).map fun q => (out_node, q)
    else some (out_node, { q with m_count })
  else none

def Remove (q : Queue T) (fuel iter : ℕ) : Option (Queue T) :=
  if iter < q.m_count.toNat then
    let m_count := q.m_count - 1
    if m_count = 0 ∨ m_count.toNat = iter then some { q with m_count }
    else
      let q := { m_queue := Function.update q.m_queue iter (q.m_queue m_count.toNat)
                 m_count : Queue T }
      (q.InsertFixup key fuel iter).bind fun r =>
        if r.2 ≠ iter then some r.1 else r.1.RemoveFixup key fuel iter
  else none

def contents (q : Queue T) : List T := (List.range q.m_count.toNat).map q.m_queue

end Queue

/-!
The array runs as the list does, as long as no index of 32 bits wraps.
-/

variable {T K : Type*} [LinearOrder K] {key : T → K}

def entries (m_queue : ℕ → T) (n : ℕ) : List T := (List.range n).map m_queue

theorem length_entries (m_queue : ℕ → T) (n : ℕ) : (entries m_queue n).length = n := by
  rw [entries, List.length_map, List.length_range]

theorem getElem?_entries (m_queue : ℕ → T) {n i : ℕ} (hi : i < n) :
    (entries m_queue n)[i]? = some (m_queue i) := by
  rw [entries, List.getElem?_map, List.getElem?_range hi, Option.map_some]

theorem getElem?_entries_none (m_queue : ℕ → T) {n i : ℕ} (hi : n ≤ i) :
    (entries m_queue n)[i]? = none := by
  rw [List.getElem?_eq_none_iff, length_entries]
  exact hi

theorem entries_update (m_queue : ℕ → T) (n i : ℕ) (node : T) :
    entries (Function.update m_queue i node) n = (entries m_queue n).set i node := by
  apply List.ext_getElem?
  intro j
  by_cases hj : j < n
  · rw [getElem?_entries _ hj, List.getElem?_set, length_entries]
    by_cases hij : i = j
    · subst hij
      rw [Function.update_self, if_pos rfl, if_pos hj]
    · rw [Function.update_of_ne (Ne.symm hij), if_neg hij, getElem?_entries _ hj]
  · rw [getElem?_entries_none _ (by omega), List.getElem?_eq_none]
    rw [List.length_set, length_entries]
    omega

theorem entries_succ (m_queue : ℕ → T) (n : ℕ) :
    entries m_queue (n + 1) = entries m_queue n ++ [m_queue n] := by
  rw [entries, entries, List.range_succ, List.map_append, List.map_singleton]

theorem shiftLeft_or_one {x : BitVec 32} (hx : x.toNat < 2 ^ 31) :
    ((x <<< 1) ||| 1).toNat = 2 * x.toNat + 1 := by
  have hshift : (x <<< 1).toNat = x.toNat <<< 1 := by
    rw [BitVec.toNat_shiftLeft, Nat.shiftLeft_eq]
    omega
  have hone : (1 : BitVec 32).toNat = 1 := rfl
  rw [BitVec.toNat_or, hshift, hone, ← Nat.shiftLeft_add_eq_or_of_lt (by omega), Nat.shiftLeft_eq]
  omega

theorem shiftLeft_add_two {x : BitVec 32} (hx : x.toNat + 1 < 2 ^ 31) :
    ((x <<< 1) + 2).toNat = 2 * x.toNat + 2 := by
  have htwo : (2 : BitVec 32).toNat = 2 := rfl
  rw [BitVec.toNat_add, BitVec.toNat_shiftLeft, Nat.shiftLeft_eq, htwo]
  omega

theorem siftDown_leaf (pivot_node : T) (fuel : ℕ) (queue : List T) (iter : ℕ)
    (h : queue.length ≤ 2 * iter + 1) :
    siftDown key pivot_node fuel queue iter = queue.set iter pivot_node := by
  cases fuel with
  | zero => rfl
  | succ fuel =>
    unfold siftDown largerChild
    rw [List.getElem?_eq_none h]

theorem half_toNat {i : BitVec 32} (hi : i.toNat + 1 < 2 ^ 32) (hpos : 0 < i.toNat) :
    (((i + 1) >>> 1) - 1).toNat = (i.toNat + 1) / 2 - 1 := by
  have hone : (1 : BitVec 32).toNat = 1 := rfl
  rw [BitVec.toNat_sub, BitVec.toNat_ushiftRight, BitVec.toNat_add, hone, Nat.shiftRight_eq_div_pow]
  omega

theorem quarter_toNat {i : BitVec 32} (hi : i.toNat + 1 < 2 ^ 32) (hpos : 2 < i.toNat) :
    (((i + 1) >>> 2) - 1).toNat = ((i.toNat + 1) / 2 - 1 + 1) / 2 - 1 := by
  have hone : (1 : BitVec 32).toNat = 1 := rfl
  rw [BitVec.toNat_sub, BitVec.toNat_ushiftRight, BitVec.toNat_add, hone, Nat.shiftRight_eq_div_pow]
  omega

namespace Queue

section InsertLoop

variable {pivot_node : T} {fuel n low high : ℕ} {m_queue : ℕ → T} {i : BitVec 32}

theorem insertLoop_eq {r : (ℕ → T) × ℕ} (hi : i.toNat = low) (hpos : 0 < low)
    (hhigh : high = (low + 1) / 2 - 1) (hn : low < n) (hbound : n < 2 ^ 32)
    (h : insertLoop key pivot_node fuel m_queue low high i = some r) {list_fuel : ℕ}
    (hfuel : low ≤ list_fuel) :
    siftUp key pivot_node list_fuel (entries m_queue n) low = (entries r.1 n, r.2) := by
  induction fuel generalizing m_queue low high i list_fuel with
  | zero => cases h
  | succ fuel ih =>
    obtain ⟨list_fuel, rfl⟩ : ∃ k, list_fuel = k + 1 := ⟨list_fuel - 1, by omega⟩
    have hup : (entries m_queue n)[(low + 1) / 2 - 1]? = some (m_queue high) := by
      rw [hhigh]
      exact getElem?_entries m_queue (by omega)
    have hnext := half_toNat (i := i) (by omega) (by omega)
    unfold insertLoop at h
    unfold siftUp
    rw [if_neg (by omega)]
    dsimp only
    rw [hup]
    dsimp only
    split at h
    · rename_i hlt
      rw [if_pos hlt, ← entries_update]
      dsimp only at h
      split at h
      · rename_i hzero
        have hzero' : (low + 1) / 2 - 1 = 0 := by
          rw [← hi, ← hnext, hzero]
          rfl
        have htop : Above key (entries (Function.update m_queue low (m_queue high)) n) 0 pivot_node :=
          fun _ hpos _ => absurd hpos (Nat.lt_irrefl 0)
        rw [hzero] at h
        cases h
        rw [hzero', siftUp_eq_of_above htop]
        change _ = (entries (Function.update _ 0 pivot_node) n, 0)
        rw [entries_update _ n 0]
      · rename_i hne
        have hnext_pos : 0 < (low + 1) / 2 - 1 := by
          rw [← hi, ← hnext]
          exact Nat.pos_of_ne_zero fun hzero => hne (BitVec.eq_of_toNat_eq hzero)
        rw [hnext, hi, quarter_toNat (by omega) (by omega), hi] at h
        exact ih (by rw [hnext, hi]) hnext_pos rfl (by omega) h (by omega)
    · rename_i hle
      cases h
      rw [if_neg hle, entries_update]

theorem insertLoop_returns (hi : i.toNat = low) (hpos : 0 < low) (hbound : low + 1 < 2 ^ 32)
    (hfuel : low ≤ fuel) :
    ∃ r, insertLoop key pivot_node fuel m_queue low high i = some r := by
  induction fuel generalizing m_queue low high i with
  | zero => omega
  | succ fuel ih =>
    have hnext := half_toNat (i := i) (by omega) (by omega)
    unfold insertLoop
    split
    · dsimp only
      split
      · exact ⟨_, rfl⟩
      · rename_i hne
        have hnext_pos : 0 < (low + 1) / 2 - 1 := by
          rw [← hi, ← hnext]
          exact Nat.pos_of_ne_zero fun hzero => hne (BitVec.eq_of_toNat_eq hzero)
        rw [hnext, hi]
        exact ih (by rw [hnext, hi]) hnext_pos (by omega) (by omega)
    · exact ⟨_, rfl⟩

end InsertLoop

section RemoveLoop

variable {pivot_node low_pair : T} {fuel iter : ℕ} {m_queue : ℕ → T} {high_pair : Option ℕ}
  {m_count l_i h_i : BitVec 32}

theorem largerChild_eq (hlow : low_pair = m_queue (2 * iter + 1))
    (hhigh : high_pair = if 2 * iter + 2 < m_count.toNat then some (2 * iter + 2) else none)
    (hin : 2 * iter + 1 < m_count.toNat) :
    largerChild key (entries m_queue m_count.toNat) pivot_node iter =
      if key pivot_node < key low_pair ∨
          ∃ high ∈ high_pair, key pivot_node < key (m_queue high) then
        if ∀ high ∈ high_pair, key (m_queue high) ≤ key low_pair then some (2 * iter + 1, low_pair)
        else some (2 * iter + 2, m_queue (2 * iter + 2))
      else none := by
  unfold largerChild
  rw [getElem?_entries _ hin, ← hlow]
  by_cases hlast : 2 * iter + 2 < m_count.toNat
  · rw [if_pos hlast] at hhigh
    subst hhigh
    rw [getElem?_entries _ hlast]
    simp only [Option.mem_some_iff, exists_eq_left', forall_eq']
  · rw [if_neg hlast] at hhigh
    subst hhigh
    rw [getElem?_entries_none _ (by omega)]
    simp

theorem removeLoop_eq {m_queue' : ℕ → T} (hl : l_i.toNat = 2 * iter + 1)
    (hh : h_i.toNat = 2 * iter + 2) (hlow : low_pair = m_queue (2 * iter + 1))
    (hhigh : high_pair = if 2 * iter + 2 < m_count.toNat then some (2 * iter + 2) else none)
    (hin : 2 * iter + 1 < m_count.toNat) (hbound : m_count.toNat ≤ 2 ^ 31)
    (h : removeLoop key m_count pivot_node fuel m_queue iter low_pair high_pair l_i h_i =
      some m_queue') {list_fuel : ℕ} (hfuel : m_count.toNat ≤ iter + list_fuel) :
    siftDown key pivot_node list_fuel (entries m_queue m_count.toNat) iter =
      entries m_queue' m_count.toNat := by
  induction fuel generalizing m_queue iter low_pair high_pair l_i h_i list_fuel with
  | zero => cases h
  | succ fuel ih =>
    obtain ⟨list_fuel, rfl⟩ : ∃ k, list_fuel = k + 1 := ⟨list_fuel - 1, by omega⟩
    unfold removeLoop at h
    unfold siftDown
    rw [largerChild_eq hlow hhigh hin]
    split at h
    · rename_i hlt
      rw [if_pos hlt]
      have hround : ∀ (c : BitVec 32) (node : T), 2 * iter < c.toNat → c.toNat < m_count.toNat →
          (if m_count ≤ c <<< 1 ||| 1 then
            some (Function.update (Function.update m_queue iter node) c.toNat pivot_node)
          else removeLoop key m_count pivot_node fuel (Function.update m_queue iter node) c.toNat
            (Function.update m_queue iter node (c <<< 1 ||| 1).toNat)
            (if c <<< 1 + 2 < m_count then some (c <<< 1 + 2).toNat else none) (c <<< 1 ||| 1)
            (c <<< 1 + 2)) = some m_queue' →
          siftDown key pivot_node list_fuel ((entries m_queue m_count.toNat).set iter node) c.toNat =
            entries m_queue' m_count.toNat := by
        intro c node hdown hc hnext
        have hleft := shiftLeft_or_one (x := c) (by omega)
        rw [← entries_update]
        by_cases hend : m_count ≤ c <<< 1 ||| 1
        · rw [if_pos hend] at hnext
          rw [BitVec.le_def, hleft] at hend
          cases hnext
          rw [siftDown_leaf _ _ _ _ (by rw [length_entries]; exact hend), entries_update _ _ c.toNat]
        · rw [if_neg hend] at hnext
          rw [BitVec.le_def, hleft] at hend
          have hright := shiftLeft_add_two (x := c) (by omega)
          apply ih hleft hright _ _ (by omega) hnext (by omega)
          · rw [hleft]
          · simp only [BitVec.lt_def, hright]
      dsimp only at h
      by_cases hchoice : ∀ high ∈ high_pair, key (m_queue high) ≤ key low_pair
      · simp only [if_pos hchoice] at h ⊢
        rw [← hl]
        exact hround l_i low_pair (by omega) (by omega) h
      · simp only [if_neg hchoice] at h ⊢
        have hlast : 2 * iter + 2 < m_count.toNat := by
          by_contra hlast
          rw [if_neg hlast] at hhigh
          subst hhigh
          exact hchoice fun high hmem => absurd hmem (Option.not_mem_none high)
        rw [if_pos hlast] at hhigh
        subst hhigh
        rw [← hh]
        rw [← hh] at h hlast
        exact hround h_i (m_queue h_i.toNat) (by omega) hlast h
    · rename_i hle
      rw [if_neg hle]
      cases h
      exact (entries_update _ _ _ _).symm

theorem removeLoop_returns (hl : l_i.toNat = 2 * iter + 1) (hh : h_i.toNat = 2 * iter + 2)
    (hhigh : high_pair = if 2 * iter + 2 < m_count.toNat then some (2 * iter + 2) else none)
    (hin : 2 * iter + 1 < m_count.toNat) (hbound : m_count.toNat ≤ 2 ^ 31)
    (hfuel : m_count.toNat ≤ iter + fuel) :
    ∃ m_queue', removeLoop key m_count pivot_node fuel m_queue iter low_pair high_pair l_i h_i =
      some m_queue' := by
  induction fuel generalizing m_queue iter low_pair high_pair l_i h_i with
  | zero => omega
  | succ fuel ih =>
    unfold removeLoop
    split
    · have hround : ∀ (c : BitVec 32) (m_queue : ℕ → T), 2 * iter < c.toNat →
          c.toNat < m_count.toNat → ∃ m_queue', (if m_count ≤ c <<< 1 ||| 1 then
            some (Function.update m_queue c.toNat pivot_node)
          else removeLoop key m_count pivot_node fuel m_queue c.toNat
            (m_queue (c <<< 1 ||| 1).toNat)
            (if c <<< 1 + 2 < m_count then some (c <<< 1 + 2).toNat else none) (c <<< 1 ||| 1)
            (c <<< 1 + 2)) = some m_queue' := by
        intro c m_queue hdown hc
        have hleft := shiftLeft_or_one (x := c) (by omega)
        by_cases hend : m_count ≤ c <<< 1 ||| 1
        · rw [if_pos hend]
          exact ⟨_, rfl⟩
        · rw [if_neg hend]
          rw [BitVec.le_def, hleft] at hend
          have hright := shiftLeft_add_two (x := c) (by omega)
          apply ih hleft hright _ (by omega) (by omega)
          simp only [BitVec.lt_def, hright]
      dsimp only
      by_cases hchoice : ∀ high ∈ high_pair, key (m_queue high) ≤ key low_pair
      · simp only [if_pos hchoice]
        exact hround l_i _ (by omega) (by omega)
      · simp only [if_neg hchoice]
        have hlast : 2 * iter + 2 < m_count.toNat := by
          by_contra hlast
          rw [if_neg hlast] at hhigh
          subst hhigh
          exact hchoice fun high hmem => absurd hmem (Option.not_mem_none high)
        exact hround h_i _ (by omega) (by omega)
    · exact ⟨_, rfl⟩

end RemoveLoop

theorem contents_eq (q : Queue T) : q.contents = entries q.m_queue q.m_count.toNat := rfl

theorem ofNat_toNat {q : Queue T} {i : ℕ} (hi : i < q.m_count.toNat) :
    (BitVec.ofNat 32 i).toNat = i := by
  have hlt := q.m_count.isLt
  rw [BitVec.toNat_ofNat]
  omega

section Fixups

variable {q q' : Queue T} {fuel pivot iter : ℕ}

theorem insertFixup_eq {location : ℕ} (hpivot : pivot < q.m_count.toNat)
    (h : q.InsertFixup key fuel pivot = some (q', location)) :
    q'.m_count = q.m_count ∧ insertFixup key q.contents pivot = (q'.contents, location) := by
  have hbound := q.m_count.isLt
  have hcount := ofNat_toNat hpivot
  unfold InsertFixup at h
  dsimp only at h
  rw [if_neg (by rw [BitVec.lt_def, hcount]; omega)] at h
  unfold insertFixup
  rw [contents_eq, getElem?_entries _ hpivot]
  dsimp only
  split at h
  · rename_i hzero
    have hzero : pivot = 0 := by
      rw [← hcount, hzero]
      rfl
    cases h
    subst hzero
    refine ⟨rfl, ?_⟩
    have htop : Above key (entries q.m_queue q.m_count.toNat) 0 (q.m_queue 0) :=
      fun _ hpos _ => absurd hpos (Nat.lt_irrefl 0)
    rw [siftUp_eq_of_above htop, ← entries_update, Function.update_eq_self]
    rfl
  · rename_i hne
    have hpos : 0 < pivot := by
      apply Nat.pos_of_ne_zero
      intro hzero
      exact hne (by rw [hzero]; rfl)
    have hhigh : ((BitVec.ofNat 32 pivot + 1) >>> 1).toNat - 1 = (pivot + 1) / 2 - 1 := by
      have hone : (1 : BitVec 32).toNat = 1 := rfl
      rw [BitVec.toNat_ushiftRight, BitVec.toNat_add, hcount, hone, Nat.shiftRight_eq_div_pow]
      omega
    obtain ⟨r, hloop, hr⟩ := Option.map_eq_some_iff.mp h
    cases hr
    exact ⟨rfl, insertLoop_eq hcount hpos hhigh hpivot hbound hloop (Nat.le_refl _)⟩

theorem insertFixup_returns (hpivot : pivot < q.m_count.toNat) (hfuel : pivot ≤ fuel) :
    ∃ r, q.InsertFixup key fuel pivot = some r := by
  have hbound := q.m_count.isLt
  have hcount := ofNat_toNat hpivot
  unfold InsertFixup
  dsimp only
  rw [if_neg (by rw [BitVec.lt_def, hcount]; omega)]
  split
  · exact ⟨_, rfl⟩
  · rename_i hne
    have hpos : 0 < pivot := by
      apply Nat.pos_of_ne_zero
      intro hzero
      exact hne (by rw [hzero]; rfl)
    have hloop : ∃ r, insertLoop key (q.m_queue pivot) fuel q.m_queue pivot
        (((BitVec.ofNat 32 pivot + 1) >>> 1).toNat - 1) (BitVec.ofNat 32 pivot) = some r :=
      insertLoop_returns hcount hpos (by omega) hfuel
    obtain ⟨r, hloop⟩ := hloop
    rw [hloop]
    exact ⟨_, rfl⟩

theorem start_toNat (hiter : iter < 2 ^ 31) :
    (BitVec.ofNat 32 ((8 * iter) >>> 2) ||| 1).toNat = 2 * iter + 1 ∧
      (iter + 1 < 2 ^ 31 →
        ((BitVec.ofNat 32 ((8 * iter) >>> 2) + 2) &&& 0xfffffffe).toNat = 2 * iter + 2) := by
  have hstart : BitVec.ofNat 32 ((8 * iter) >>> 2) = BitVec.ofNat 32 iter <<< 1 := by
    apply BitVec.eq_of_toNat_eq
    rw [BitVec.toNat_ofNat, BitVec.toNat_shiftLeft, BitVec.toNat_ofNat, Nat.shiftRight_eq_div_pow,
      Nat.shiftLeft_eq]
    omega
  have hiter' : (BitVec.ofNat 32 iter).toNat = iter := by
    rw [BitVec.toNat_ofNat]
    omega
  rw [hstart]
  constructor
  · rw [shiftLeft_or_one (by omega), hiter']
  · intro hlt
    have hnext : (BitVec.ofNat 32 iter + 1).toNat = iter + 1 := by
      have hone : (1 : BitVec 32).toNat = 1 := rfl
      rw [BitVec.toNat_add, hiter', hone]
      omega
    have heven : BitVec.ofNat 32 iter <<< 1 + (2 : BitVec 32) = (BitVec.ofNat 32 iter + 1) <<< 1 := by
      apply BitVec.eq_of_toNat_eq
      rw [shiftLeft_add_two (by omega), BitVec.toNat_shiftLeft, hnext, hiter', Nat.shiftLeft_eq]
      omega
    have hmask : (BitVec.ofNat 32 iter + 1) <<< 1 &&& (0xfffffffe : BitVec 32) =
        (BitVec.ofNat 32 iter + 1) <<< 1 := by
      apply BitVec.eq_of_getLsbD_eq
      intro i hi
      have hbit : (0xfffffffe : BitVec 32).getLsbD i = decide (i ≠ 0) :=
        (show ∀ i : Fin 32, (0xfffffffe : BitVec 32).getLsbD i = decide (i.val ≠ 0) by decide) ⟨i, hi⟩
      rw [BitVec.getLsbD_and, hbit]
      by_cases hzero : i = 0
      · subst hzero
        rw [BitVec.getLsbD_shiftLeft]
        rfl
      · rw [decide_eq_true hzero, Bool.and_true]
    rw [heven, hmask, ← heven, shiftLeft_add_two (by omega), hiter']

theorem removeFixup_eq (hiter : iter < q.m_count.toNat) (hbound : q.m_count.toNat ≤ 2 ^ 31)
    (h : q.RemoveFixup key fuel iter = some q') :
    q'.m_count = q.m_count ∧ removeFixup key q.contents iter = q'.contents := by
  have hcount := ofNat_toNat hiter
  have hsmall : iter < 2 ^ 31 := by omega
  obtain ⟨hl, hh⟩ := start_toNat hsmall
  unfold RemoveFixup at h
  dsimp only at h
  rw [if_neg (by rw [BitVec.lt_def, hcount]; omega)] at h
  unfold removeFixup
  rw [contents_eq, getElem?_entries _ hiter]
  dsimp only
  split at h
  · rename_i hend
    rw [BitVec.le_def, hl] at hend
    cases h
    refine ⟨rfl, ?_⟩
    rw [siftDown_leaf _ _ _ _ (by rw [length_entries]; exact hend), ← entries_update,
      Function.update_eq_self]
    rfl
  · rename_i hend
    rw [BitVec.le_def, hl] at hend
    have hh := hh (by omega)
    obtain ⟨m_queue', hloop, rfl⟩ := Option.map_eq_some_iff.mp h
    refine ⟨rfl, ?_⟩
    rw [length_entries]
    apply removeLoop_eq hl hh _ _ (by omega) hbound hloop (Nat.le_add_left _ _)
    · rw [hl]
    · simp only [BitVec.lt_def, hh]

theorem removeFixup_returns (hiter : iter < q.m_count.toNat) (hbound : q.m_count.toNat ≤ 2 ^ 31)
    (hfuel : q.m_count.toNat ≤ iter + fuel) : ∃ q', q.RemoveFixup key fuel iter = some q' := by
  have hcount := ofNat_toNat hiter
  have hsmall : iter < 2 ^ 31 := by omega
  obtain ⟨hl, hh⟩ := start_toNat hsmall
  unfold RemoveFixup
  dsimp only
  rw [if_neg (by rw [BitVec.lt_def, hcount]; omega)]
  split
  · exact ⟨_, rfl⟩
  · rename_i hend
    rw [BitVec.le_def, hl] at hend
    have hh := hh (by omega)
    have hhigh : (if (BitVec.ofNat 32 ((8 * iter) >>> 2) + 2 &&& 0xfffffffe) < q.m_count then
        some (BitVec.ofNat 32 ((8 * iter) >>> 2) + 2 &&& 0xfffffffe).toNat else none) =
          if 2 * iter + 2 < q.m_count.toNat then some (2 * iter + 2) else none := by
      simp only [BitVec.lt_def, hh]
    have hloop : ∃ m_queue', removeLoop key q.m_count (q.m_queue iter) fuel q.m_queue iter
        (q.m_queue (BitVec.ofNat 32 ((8 * iter) >>> 2) ||| 1).toNat) _ _ _ = some m_queue' :=
      removeLoop_returns hl hh hhigh (by omega) hbound hfuel
    obtain ⟨m_queue', hloop⟩ := hloop
    exact ⟨_, congrArg (Option.map _) hloop⟩

end Fixups

end Queue

end Awn.PriorityQueue
