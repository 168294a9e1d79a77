import Mathlib.Data.List.Basic
import Mathlib.Data.List.Perm.Basic
import Mathlib.Data.Nat.Notation

/-!
`vp::util::FixedRingBuffer`: `m_count` entries of an array of `size` pointers, the oldest at
`m_offset`.
-/

namespace Awn

structure RingBuffer (T : Type*) where
  m_offset : ℕ
  m_count : ℕ
  m_array : ℕ → Option T

namespace RingBuffer

variable {T : Type*} (size : ℕ) (ring : RingBuffer T)

def empty : RingBuffer T where
  m_offset := 0
  m_count := 0
  m_array := fun _ => none

/-- `Insert` asserts that there is room. -/
def insert (pointer : T) : Option (RingBuffer T) :=
  if ring.m_count < size then
    let offset := ring.m_offset + ring.m_count
    let size_offset := if size ≤ offset then size else 0
    some { ring with
      m_count := ring.m_count + 1
      m_array := Function.update ring.m_array (offset - size_offset) (some pointer) }
  else none

/-- `RemoveFront`, which gives a null pointer if the buffer is empty. -/
def removeFront : Option T × RingBuffer T :=
  if ring.m_count = 0 then (none, ring)
  else
    let size_offset := if size ≤ ring.m_offset then size else 0
    (ring.m_array (ring.m_offset - size_offset),
      { ring with
        m_offset := if ring.m_offset + 1 < size then ring.m_offset + 1 else 0
        m_count := ring.m_count - 1 })

def moveDown (array : ℕ → Option T) (start count : ℕ) : ℕ → Option T :=
  fun i => if start ≤ i ∧ i < start + count then array (i + 1) else array i

variable [DecidableEq T]

def findIndex (iter : T) : ℕ → ℕ → Option ℕ
  | 0, _ => none
  | fuel + 1, i =>
    if size < i + ring.m_offset then none
    else if ring.m_array i = some iter then some i
    else findIndex iter fuel (i + 1)

/-- `Remove` asserts that it finds the pointer. -/
def remove (iter : T) : Option (RingBuffer T) :=
  (ring.findIndex size iter ring.m_count 0).map fun adjust =>
    let is_wrap := size < ring.m_count + ring.m_offset ∧ ring.m_offset < adjust
    let adj_count := if is_wrap then size - adjust - 1 else ring.m_count - adjust - 1
    let array := moveDown ring.m_array adjust adj_count
    let array :=
      if is_wrap then
        moveDown (Function.update array (size - 1) (array 0)) 0
          (ring.m_offset + ring.m_count - size - 1)
      else array
    { ring with m_count := ring.m_count - 1, m_array := array }

omit [DecidableEq T]

def contents : List T :=
  (List.range ring.m_count).filterMap fun i => ring.m_array ((ring.m_offset + i) % size)

structure Holds (xs : List T) : Prop where
  offset : ring.m_offset < size
  length : xs.length = ring.m_count
  count : ring.m_count ≤ size
  get : ∀ i < xs.length, ring.m_array ((ring.m_offset + i) % size) = xs[i]?

variable {size ring} {xs : List T}

theorem filterMap_range (xs : List T) : (List.range xs.length).filterMap (xs[·]?) = xs := by
  induction xs with
  | nil => rfl
  | cons x xs ih =>
    rw [List.length_cons, List.range_succ_eq_map, List.filterMap_cons, List.filterMap_map]
    dsimp only [List.getElem?_cons_zero]
    congr 1

theorem Holds.contents_eq (h : ring.Holds size xs) : ring.contents size = xs := by
  unfold contents
  rw [← h.length]
  have hget : ∀ i ∈ List.range xs.length,
      ring.m_array ((ring.m_offset + i) % size) = xs[i]? := fun i hi =>
    h.get i (List.mem_range.mp hi)
  rw [List.filterMap_congr hget, filterMap_range]

theorem empty_holds (hsize : 0 < size) : (empty : RingBuffer T).Holds size [] where
  offset := hsize
  length := rfl
  count := Nat.zero_le _
  get i hi := absurd hi (Nat.not_lt_zero i)

theorem mod_eq {n : ℕ} (h : n < 2 * size) : n % size = if size ≤ n then n - size else n := by
  split
  · rw [Nat.mod_eq_sub_mod (by assumption), Nat.mod_eq_of_lt (by omega)]
  · rw [Nat.mod_eq_of_lt (by omega)]

theorem Holds.insert (h : ring.Holds size xs) {pointer : T} {ring' : RingBuffer T}
    (hring : ring.insert size pointer = some ring') : ring'.Holds size (xs ++ [pointer]) := by
  have hoffset := h.offset
  have hlength := h.length
  unfold RingBuffer.insert at hring
  split at hring
  · rename_i hroom
    have hindex : ring.m_offset + ring.m_count - (if size ≤ ring.m_offset + ring.m_count then size
        else 0) = (ring.m_offset + ring.m_count) % size := by
      rw [mod_eq (by omega)]
      split
      · rfl
      · rfl
    dsimp only at hring
    rw [hindex] at hring
    obtain rfl := Option.some.inj hring
    constructor
    · exact hoffset
    · rw [List.length_append, List.length_singleton, hlength]
    · exact hroom
    · intro i hi
      rw [List.length_append, List.length_singleton] at hi
      dsimp only
      by_cases hlast : i = ring.m_count
      · rw [hlast, Function.update_self, ← hlength, List.getElem?_concat_length]
      · have hlt : i < xs.length := by omega
        have hne : (ring.m_offset + i) % size ≠ (ring.m_offset + ring.m_count) % size := by
          rw [mod_eq (by omega), mod_eq (by omega)]
          split <;> split <;> omega
        rw [Function.update_of_ne hne, h.get i hlt, List.getElem?_append_left hlt]
  · cases hring

theorem Holds.cons (h : ring.Holds size xs) (pointer : T) {first : ℕ} (hfirst : first < size)
    (hnext : (first + 1) % size = ring.m_offset) (hroom : ring.m_count < size) :
    (RingBuffer.mk first (ring.m_count + 1)
      (Function.update ring.m_array first (some pointer))).Holds size (pointer :: xs) := by
  have hlength := h.length
  constructor
  · exact hfirst
  · rw [List.length_cons, hlength]
  · exact hroom
  · intro i hi
    dsimp only
    rw [List.length_cons] at hi
    cases i with
    | zero =>
      rw [Nat.add_zero, Nat.mod_eq_of_lt hfirst, Function.update_self]
      rfl
    | succ i =>
      have hslot : (first + (i + 1)) % size = (ring.m_offset + i) % size := by
        rw [← hnext, Nat.mod_add_mod]
        congr 1
        omega
      have hne : (ring.m_offset + i) % size ≠ first := by
        rw [← hslot]
        have hsize : first + (i + 1) < 2 * size := by omega
        rw [mod_eq hsize]
        split <;> omega
      rw [hslot, Function.update_of_ne hne, h.get i (by omega), List.getElem?_cons_succ]

theorem Holds.removeFront_cons {x : T} (h : ring.Holds size (x :: xs)) :
    ∃ ring', ring.removeFront size = (some x, ring') ∧ ring'.Holds size xs := by
  have hoffset := h.offset
  have hlength := h.length
  have hcount := h.count
  rw [List.length_cons] at hlength
  have hfirst : ring.m_array ring.m_offset = some x := by
    have hget := h.get 0 (Nat.succ_pos _)
    rw [Nat.add_zero, Nat.mod_eq_of_lt hoffset] at hget
    exact hget
  refine ⟨⟨if ring.m_offset + 1 < size then ring.m_offset + 1 else 0, ring.m_count - 1,
    ring.m_array⟩, ?_, ?_⟩
  · unfold removeFront
    rw [if_neg (by omega), if_neg (by omega)]
    dsimp only
    rw [Nat.sub_zero, hfirst]
  · constructor
    · dsimp only
      split
      · assumption
      · omega
    · dsimp only
      omega
    · dsimp only
      omega
    · intro i hi
      have hget := h.get (i + 1) (Nat.succ_lt_succ hi)
      rw [List.getElem?_cons_succ] at hget
      rw [← hget]
      dsimp only
      congr 1
      split
      · congr 1
        omega
      · have hend : ring.m_offset + (i + 1) = i + size := by omega
        rw [hend, Nat.add_mod_right, Nat.zero_add]

theorem Holds.eraseIdx (h : ring.Holds size xs) {k : ℕ} (hk : k < xs.length)
    (array : ℕ → Option T)
    (hbelow : ∀ i < k, array ((ring.m_offset + i) % size) =
      ring.m_array ((ring.m_offset + i) % size))
    (habove : ∀ i, k ≤ i → i + 1 < ring.m_count → array ((ring.m_offset + i) % size) =
      ring.m_array ((ring.m_offset + i + 1) % size)) :
    (RingBuffer.mk ring.m_offset (ring.m_count - 1) array).Holds size (xs.eraseIdx k) := by
  have hcount := h.count
  have hlength := h.length
  have hlen : (xs.eraseIdx k).length = ring.m_count - 1 := by
    rw [List.length_eraseIdx_of_lt hk, hlength]
  constructor
  · exact h.offset
  · exact hlen
  · dsimp only
    omega
  · intro i hi
    rw [hlen] at hi
    dsimp only
    rw [List.getElem?_eraseIdx]
    by_cases hik : i < k
    · rw [if_pos hik, hbelow i hik, h.get i (by omega)]
    · rw [if_neg hik, habove i (by omega) (by omega)]
      exact h.get (i + 1) (by omega)

def MovesFrom (size : ℕ) (ring : RingBuffer T) (slot : ℕ) : Prop :=
  ring.m_offset = 0 ∨
    size < ring.m_offset + ring.m_count ∧
      (ring.m_offset < slot ∨
        slot + size < ring.m_offset + ring.m_count ∧ ring.m_count ≤ ring.m_offset + 1)

variable [DecidableEq T] {iter : T} {ring' : RingBuffer T}

theorem Holds.findIndex (h : ring.Holds size xs) (hoffset : ring.m_offset = 0) {fuel i j : ℕ}
    (hi : i + fuel = xs.length) (hfind : ring.findIndex size iter fuel i = some j) :
    j = i + (xs.drop i).idxOf iter ∧ j < xs.length := by
  have hcount := h.count
  have hlength := h.length
  induction fuel generalizing i with
  | zero => cases hfind
  | succ fuel ih =>
    have hlt : i < xs.length := by omega
    have hget := h.get i hlt
    rw [hoffset, Nat.zero_add, Nat.mod_eq_of_lt (by omega), List.getElem?_eq_getElem hlt] at hget
    unfold RingBuffer.findIndex at hfind
    rw [if_neg (by omega), hget] at hfind
    rw [List.drop_eq_getElem_cons hlt]
    split at hfind
    · rename_i heq
      rw [← Option.some.inj heq, List.idxOf_cons_self]
      obtain rfl := Option.some.inj hfind
      exact ⟨rfl, hlt⟩
    · rename_i hne
      obtain ⟨hj, hjlt⟩ := ih (by omega) hfind
      rw [List.idxOf_cons_ne _ fun heq => hne (congrArg some heq)]
      exact ⟨by omega, hjlt⟩

theorem Holds.remove (h : ring.Holds size xs) (hoffset : ring.m_offset = 0)
    (hring : ring.remove size iter = some ring') : ring'.Holds size (xs.erase iter) := by
  have hcount := h.count
  have hlength := h.length
  obtain ⟨j, hfind, rfl⟩ := Option.map_eq_some_iff.mp hring
  obtain ⟨hj, hlt⟩ := h.findIndex hoffset (by omega) hfind
  rw [List.drop_zero, Nat.zero_add] at hj
  rw [← List.eraseIdx_idxOf_eq_erase, ← hj]
  dsimp only
  rw [if_neg (by omega), if_neg (by omega)]
  apply h.eraseIdx hlt _
  · intro i hi
    rw [hoffset, Nat.zero_add, Nat.mod_eq_of_lt (by omega), moveDown, if_neg (by omega)]
  · intro i hi hnext
    rw [hoffset, Nat.zero_add, Nat.mod_eq_of_lt (by omega), Nat.mod_eq_of_lt (by omega), moveDown,
      if_pos (by omega)]

theorem findIndex_eq {fuel i slot : ℕ} (hfind : ring.findIndex size iter fuel i = some slot) :
    slot < i + fuel ∧ slot + ring.m_offset ≤ size ∧ ring.m_array slot = some iter := by
  induction fuel generalizing i with
  | zero => cases hfind
  | succ fuel ih =>
    unfold findIndex at hfind
    split at hfind
    · cases hfind
    · split at hfind
      · rename_i hslot
        obtain rfl := Option.some.inj hfind
        exact ⟨by omega, by omega, hslot⟩
      · obtain ⟨hlt, hrest⟩ := ih hfind
        exact ⟨by omega, hrest⟩

theorem Holds.take (h : ring.Holds size xs)
    (hmoves : ∀ slot, ring.findIndex size iter ring.m_count 0 = some slot → ring.MovesFrom size slot)
    (hring : ring.remove size iter = some ring') :
    ∃ ys, ring'.Holds size ys ∧ xs.Perm (iter :: ys) := by
  have hoffset := h.offset
  have hcount := h.count
  have hlength := h.length
  obtain ⟨slot, hfind, rfl⟩ := Option.map_eq_some_iff.mp hring
  obtain ⟨hlt, hend, hiter⟩ := findIndex_eq hfind
  -- all cases are about the new array alone
  have hholds : ∀ (k : ℕ) (array : ℕ → Option T), k < ring.m_count →
      (ring.m_offset + k) % size = slot →
      (∀ i < k, array ((ring.m_offset + i) % size) = ring.m_array ((ring.m_offset + i) % size)) →
      (∀ i, k ≤ i → i + 1 < ring.m_count →
        array ((ring.m_offset + i) % size) = ring.m_array ((ring.m_offset + i + 1) % size)) →
      ∃ ys, (RingBuffer.mk ring.m_offset (ring.m_count - 1) array).Holds size ys ∧
        xs.Perm (iter :: ys) := by
    intro k array hk hslot hbelow habove
    have hk' : k < xs.length := by omega
    refine ⟨xs.eraseIdx k, h.eraseIdx hk' array hbelow habove, ?_⟩
    have hget := h.get k hk'
    rw [hslot, hiter, List.getElem?_eq_getElem hk'] at hget
    rw [Option.some.inj hget]
    exact (List.getElem_cons_eraseIdx_perm hk').symm
  dsimp only
  rcases hmoves slot hfind with hzero | ⟨hwrap, hbehind | ⟨hlow, hfew⟩⟩
  · have hno : ¬(size < ring.m_count + ring.m_offset ∧ ring.m_offset < slot) := by omega
    rw [if_neg hno, if_neg hno]
    apply hholds slot _ (by omega)
    · rw [hzero, Nat.zero_add, Nat.mod_eq_of_lt (by omega)]
    · intro i hi
      rw [hzero, Nat.zero_add, Nat.mod_eq_of_lt (by omega), moveDown, if_neg (by omega)]
    · intro i hi hnext
      rw [hzero, Nat.zero_add, Nat.mod_eq_of_lt (by omega), Nat.mod_eq_of_lt (by omega), moveDown,
        if_pos (by omega)]
  · have hyes : size < ring.m_count + ring.m_offset ∧ ring.m_offset < slot := by omega
    rw [if_pos hyes, if_pos hyes]
    apply hholds (slot - ring.m_offset) _ (by omega)
    · rw [Nat.mod_eq_of_lt (by omega)]
      omega
    · intro i hi
      rw [Nat.mod_eq_of_lt (by omega), moveDown, if_neg (by omega),
        Function.update_of_ne (by omega), moveDown, if_neg (by omega)]
    · intro i hi hnext
      by_cases hlast : ring.m_offset + i + 1 < size
      · rw [Nat.mod_eq_of_lt (by omega), Nat.mod_eq_of_lt hlast, moveDown, if_neg (by omega),
          Function.update_of_ne (by omega), moveDown, if_pos (by omega)]
      · by_cases hedge : ring.m_offset + i + 1 = size
        · rw [hedge, Nat.mod_self, Nat.mod_eq_of_lt (by omega), moveDown, if_neg (by omega),
            show ring.m_offset + i = size - 1 by omega, Function.update_self, moveDown,
            if_neg (by omega)]
        · rw [mod_eq (by omega), if_pos (by omega), mod_eq (by omega), if_pos (by omega), moveDown,
            if_pos (by omega), Function.update_of_ne (by omega), moveDown, if_neg (by omega)]
          congr 1
          omega
  · have hno : ¬(size < ring.m_count + ring.m_offset ∧ ring.m_offset < slot) := by omega
    rw [if_neg hno, if_neg hno]
    apply hholds (size - ring.m_offset + slot) _ (by omega)
    · rw [mod_eq (by omega), if_pos (by omega)]
      omega
    · intro i hi
      rw [moveDown, if_neg]
      by_cases hwrapped : size ≤ ring.m_offset + i
      · rw [mod_eq (by omega), if_pos hwrapped]
        omega
      · rw [mod_eq (by omega), if_neg hwrapped]
        omega
    · intro i hi hnext
      rw [mod_eq (by omega), if_pos (by omega), mod_eq (by omega), if_pos (by omega), moveDown,
        if_pos (by omega)]
      congr 1
      omega

end RingBuffer

end Awn
