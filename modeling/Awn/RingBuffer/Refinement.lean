import Awn.RingBuffer.Ring
import Mathlib.Algebra.Group.Nat.Defs
import Mathlib.Algebra.Order.Monoid.Unbundled.Basic

/-!
`vp::util::FixedRingBuffer` and `RingBuffer` as the code keeps them, with an offset, a count and
indices of 32 bits. `size` is `Size`, or `m_max_count`.
-/

namespace Awn

structure FixedRingBuffer (T : Type*) where
  m_offset : BitVec 32
  m_count : BitVec 32
  m_array : ℕ → T

namespace FixedRingBuffer

variable {T : Type*} (size : ℕ) (ring : FixedRingBuffer T)

def load (index : BitVec 32) : Option T :=
  if index.toNat < size then some (ring.m_array index.toNat) else none

def Index (index : BitVec 32) : Option T :=
  let base_offset := ring.m_offset + index
  let adj_index :=
    if size < base_offset.toNat then base_offset - BitVec.ofNat 32 size else base_offset
  ring.load size adj_index

def iterate : ℕ → BitVec 32 → Option (List T)
  | 0, _ => some []
  | steps + 1, m_index =>
    (ring.Index size m_index).bind fun x => (iterate steps (m_index + 1)).map (x :: ·)

def Iterate : Option (List T) :=
  ring.iterate size (BitVec.ofNat 32 size - ring.m_offset).toNat ring.m_offset

/-- `Insert` asserts that there is room. -/
def Insert (pointer : T) : Option (FixedRingBuffer T) :=
  if ring.m_count.toNat < size then
    let offset := ring.m_offset + ring.m_count
    let size_offset := if size ≤ offset.toNat then BitVec.ofNat 32 size else 0
    let index := offset - size_offset
    if index.toNat < size then
      some { ring with
        m_count := ring.m_count + 1
        m_array := Function.update ring.m_array index.toNat pointer }
    else none
  else none

def RemoveFront [Zero T] : Option (T × FixedRingBuffer T) :=
  if ring.m_count = 0 then some (0, ring)
  else
    let size_offset := if size ≤ ring.m_offset.toNat then BitVec.ofNat 32 size else 0
    (ring.load size (ring.m_offset - size_offset)).map fun ret =>
      (ret, { ring with
        m_offset := if (ring.m_offset + 1).toNat < size then ring.m_offset + 1 else 0
        m_count := ring.m_count - 1 })

def adjust (i : BitVec 32) : BitVec 32 :=
  let base := i + ring.m_offset
  if size < base.toNat then i - BitVec.ofNat 32 size else i

variable [DecidableEq T]

def findSlot (iter : T) : ℕ → BitVec 32 → Option (BitVec 32)
  | 0, _ => none
  | steps + 1, i =>
    (ring.load size (ring.adjust size i)).bind fun x =>
      if iter ≠ x then findSlot iter steps (i + 1) else some (ring.adjust size i)

omit [DecidableEq T] in
def memmove (array : ℕ → T) (start count : BitVec 32) : Option (ℕ → T) :=
  if count = 0 ∨ start.toNat + count.toNat < size then
    some fun i =>
      if start.toNat ≤ i ∧ i < start.toNat + count.toNat then array (i + 1) else array i
  else none

/-- `Remove` returns its argument, and asserts that it finds it. -/
def Remove (iter : T) : Option (FixedRingBuffer T) :=
  (ring.findSlot size iter ring.m_count.toNat 0).bind fun adjust =>
    let is_wrap := size < (ring.m_count + ring.m_offset).toNat ∧ ring.m_offset < adjust
    let adj_count :=
      if is_wrap then BitVec.ofNat 32 size - adjust - 1 else ring.m_count - adjust - 1
    (memmove size ring.m_array adjust adj_count).bind fun array =>
      let final_count := ring.m_offset + ring.m_count - BitVec.ofNat 32 size - 1
      let array :=
        if is_wrap then memmove size (Function.update array (size - 1) (array 0)) 0 final_count
        else some array
      array.map fun m_array => { ring with m_count := ring.m_count - 1, m_array }

end FixedRingBuffer

end Awn

/-!
What each call does to the list of the entries, as long as no index of 32 bits goes wrong.
-/

namespace Awn.FixedRingBuffer

variable {T : Type*}

def capacity (size : ℕ) : ℕ := max 1 (min size (2 ^ 32))

def toRing (ring : FixedRingBuffer T) : RingBuffer T where
  m_offset := ring.m_offset.toNat
  m_count := ring.m_count.toNat
  m_array i := some (ring.m_array i)

def contents (size : ℕ) (ring : FixedRingBuffer T) : List T := ring.toRing.contents (capacity size)

structure Holds (size : ℕ) (ring : FixedRingBuffer T) (xs : List T) : Prop where
  entries : ring.toRing.Holds (capacity size) xs
  count : ring.m_count.toNat ≤ size

variable {size : ℕ} {ring ring' : FixedRingBuffer T} {xs : List T}

theorem capacity_eq (hsize : size < 2 ^ 32) (hpos : 0 < size) : capacity size = size := by
  unfold capacity
  omega

theorem capacity_eq_of_le (hsize : 2 ^ 32 ≤ size) : capacity size = 2 ^ 32 := by
  unfold capacity
  omega

theorem capacity_le (hpos : 0 < size) : capacity size ≤ size := by
  unfold capacity
  omega

namespace Holds

theorem offset_lt (h : ring.Holds size xs) : ring.m_offset.toNat < capacity size := h.entries.offset

theorem length_eq (h : ring.Holds size xs) : xs.length = ring.m_count.toNat := h.entries.length

theorem count_le (h : ring.Holds size xs) : ring.m_count.toNat ≤ capacity size := h.entries.count

theorem contents_eq (h : ring.Holds size xs) : ring.contents size = xs := h.entries.contents_eq

theorem get (h : ring.Holds size xs) {i : ℕ} (hi : i < xs.length) :
    xs[i]? = some (ring.m_array ((ring.m_offset.toNat + i) % capacity size)) :=
  (h.entries.get i hi).symm

theorem ext (h : ring.Holds size xs) {ys : List T} (hlength : ys.length = ring.m_count.toNat)
    (hget : ∀ i < ring.m_count.toNat,
      ys[i]? = some (ring.m_array ((ring.m_offset.toNat + i) % capacity size))) : ys = xs := by
  have hxs := h.length_eq
  apply List.ext_getElem?
  intro i
  by_cases hi : i < ring.m_count.toNat
  · rw [hget i hi, h.get (by omega)]
  · rw [List.getElem?_eq_none (by omega), List.getElem?_eq_none (by omega)]

end Holds

theorem start_holds (size : ℕ) (array : ℕ → T) : (FixedRingBuffer.mk 0 0 array).Holds size [] where
  entries :=
    { offset := by
        change 0 < max 1 _
        omega
      length := rfl
      count := Nat.zero_le _
      get := fun i hi => absurd hi (Nat.not_lt_zero i) }
  count := Nat.zero_le _

theorem Holds.index (h : ring.Holds size xs) {i : BitVec 32} (hi : i.toNat < ring.m_count.toNat)
    (hmet : 2 ^ 32 ≤ size ∨
      ring.m_offset.toNat + i.toNat ≠ size ∧ ring.m_offset.toNat + i.toNat < 2 ^ 32) :
    ring.Index size i = xs[i.toNat]? := by
  have hoffset := h.offset_lt
  have hcount := h.count_le
  have hsize := h.count
  have hlt := i.isLt
  have hadj : (if size < (ring.m_offset + i).toNat then
        ring.m_offset + i - BitVec.ofNat 32 size else ring.m_offset + i).toNat =
      (ring.m_offset.toNat + i.toNat) % capacity size := by
    rw [RingBuffer.mod_eq (by omega)]
    by_cases hlarge : 2 ^ 32 ≤ size
    · rw [capacity_eq_of_le hlarge] at hoffset ⊢
      have hin := (ring.m_offset + i).isLt
      rw [if_neg (by omega), BitVec.toNat_add]
      split
      · omega
      · omega
    · rw [capacity_eq (by omega) (by omega)] at hoffset ⊢
      have hsum : (ring.m_offset + i).toNat = ring.m_offset.toNat + i.toNat := by
        rw [BitVec.toNat_add]
        omega
      by_cases hwrap : size < ring.m_offset.toNat + i.toNat
      · rw [if_pos (by omega), if_pos (by omega), BitVec.toNat_sub, BitVec.toNat_ofNat, hsum]
        omega
      · rw [if_neg (by omega), if_neg (by omega), hsum]
  have hslot : (ring.m_offset.toNat + i.toNat) % capacity size < capacity size :=
    Nat.mod_lt _ (by omega)
  have hcapacity : capacity size ≤ size := capacity_le (by omega)
  have hxs := h.length_eq
  rw [h.get (by omega)]
  unfold Index load
  dsimp only
  rw [hadj, if_pos (by omega)]

theorem Holds.insert (h : ring.Holds size xs) (pointer : T) (hroom : ring.m_count.toNat < size)
    (hcount : ring.m_count.toNat + 1 < 2 ^ 32)
    (hmet : 2 ^ 32 ≤ size ∨ ring.m_offset.toNat + ring.m_count.toNat < 2 ^ 32) :
    ∃ ring', ring.Insert size pointer = some ring' ∧ ring'.Holds size (xs ++ [pointer]) := by
  have hoffset := h.offset_lt
  have hcapacity : capacity size ≤ size := capacity_le (by omega)
  have hroom' : ring.m_count.toNat < capacity size := by
    unfold capacity
    omega
  have hindex : (ring.m_offset + ring.m_count -
        (if size ≤ (ring.m_offset + ring.m_count).toNat then BitVec.ofNat 32 size else 0)).toNat =
      ring.m_offset.toNat + ring.m_count.toNat -
        (if capacity size ≤ ring.m_offset.toNat + ring.m_count.toNat then capacity size else 0) := by
    have hzero : (0 : BitVec 32).toNat = 0 := rfl
    by_cases hlarge : 2 ^ 32 ≤ size
    · rw [capacity_eq_of_le hlarge] at hoffset hroom' ⊢
      have hin := (ring.m_offset + ring.m_count).isLt
      rw [if_neg (by omega), BitVec.toNat_sub, hzero, BitVec.toNat_add]
      split
      · omega
      · omega
    · rw [capacity_eq (by omega) (by omega)] at hoffset ⊢
      have hsum : (ring.m_offset + ring.m_count).toNat =
          ring.m_offset.toNat + ring.m_count.toNat := by
        rw [BitVec.toNat_add]
        omega
      rw [hsum]
      by_cases hwrap : size ≤ ring.m_offset.toNat + ring.m_count.toNat
      · rw [if_pos hwrap, if_pos hwrap, BitVec.toNat_sub, BitVec.toNat_ofNat, hsum]
        omega
      · rw [if_neg hwrap, if_neg hwrap, BitVec.toNat_sub, hzero, hsum]
        omega
  have hone : (1 : BitVec 32).toNat = 1 := rfl
  have hnext : (ring.m_count + 1).toNat = ring.m_count.toNat + 1 := by
    rw [BitVec.toNat_add, hone]
    omega
  obtain ⟨slot, hslot⟩ : ∃ slot, slot = ring.m_offset.toNat + ring.m_count.toNat -
      (if capacity size ≤ ring.m_offset.toNat + ring.m_count.toNat then capacity size else 0) :=
    ⟨_, rfl⟩
  have hin : slot < size := by
    rw [hslot]
    split
    · omega
    · omega
  have hinsert : ring.Insert size pointer = some (FixedRingBuffer.mk ring.m_offset
      (ring.m_count + 1) (Function.update ring.m_array slot pointer)) := by
    unfold Insert
    dsimp only
    rw [if_pos hroom, hindex, ← hslot, if_pos hin]
  refine ⟨_, hinsert, ?_, ?_⟩
  · apply h.entries.insert
    unfold RingBuffer.insert
    rw [if_pos (by exact hroom')]
    unfold toRing
    dsimp only
    rw [hnext, ← hslot]
    congr 2
    funext i
    rw [Function.update_apply, Function.update_apply]
    split
    · rfl
    · rfl
  · dsimp only
    omega

variable [Zero T]

theorem Holds.removeFront (h : ring.Holds size xs) :
    ∃ ring', ring.RemoveFront size = some (xs.headD 0, ring') ∧ ring'.Holds size xs.tail := by
  have hlength := h.length_eq
  unfold RemoveFront
  cases xs with
  | nil =>
    have hcount : ring.m_count = 0 := BitVec.eq_of_toNat_eq hlength.symm
    rw [if_pos hcount]
    exact ⟨ring, rfl, h⟩
  | cons x xs =>
    rw [List.length_cons] at hlength
    have hoffset := h.offset_lt
    have hcount := h.count
    have hcapacity : capacity size ≤ size := capacity_le (by omega)
    have hone : (1 : BitVec 32).toNat = 1 := rfl
    have hzero : (0 : BitVec 32).toNat = 0 := rfl
    have hne : ring.m_count ≠ 0 := by
      intro heq
      rw [heq, hzero] at hlength
      omega
    have hpred : (ring.m_count - 1).toNat = ring.m_count.toNat - 1 := by
      rw [BitVec.toNat_sub, hone]
      omega
    have hnext : (if (ring.m_offset + 1).toNat < size then ring.m_offset + 1 else 0).toNat =
        if ring.m_offset.toNat + 1 < capacity size then ring.m_offset.toNat + 1 else 0 := by
      have hlt := ring.m_offset.isLt
      by_cases hlarge : 2 ^ 32 ≤ size
      · rw [capacity_eq_of_le hlarge, if_pos, BitVec.toNat_add, hone]
        · split
          · omega
          · omega
        · rw [BitVec.toNat_add]
          omega
      · rw [capacity_eq (by omega) (by omega)] at hoffset ⊢
        rw [BitVec.toNat_add, hone, Nat.mod_eq_of_lt (by omega)]
        split
        · rw [BitVec.toNat_add, hone, Nat.mod_eq_of_lt (by omega)]
        · exact hzero
    obtain ⟨ring', hremove, hring'⟩ := h.entries.removeFront_cons
    unfold RingBuffer.removeFront at hremove
    rw [if_neg (by change ring.m_count.toNat ≠ 0; omega)] at hremove
    obtain ⟨hfirst, rfl⟩ := Prod.mk.inj hremove
    have hfirst' := h.entries.get 0 (Nat.succ_pos _)
    rw [Nat.add_zero, Nat.mod_eq_of_lt h.entries.offset] at hfirst'
    have hload : ring.load size (ring.m_offset -
        (if size ≤ ring.m_offset.toNat then BitVec.ofNat 32 size else 0)) = some x := by
      have hsame : ring.m_offset - 0 = ring.m_offset := BitVec.sub_zero _
      rw [if_neg (by omega), hsame, load, if_pos (by omega)]
      exact hfirst'
    rw [if_neg hne]
    dsimp only
    rw [hload]
    refine ⟨_, rfl, ?_, ?_⟩
    · unfold toRing
      dsimp only
      rw [hnext, hpred]
      exact hring'
    · dsimp only
      omega

end Awn.FixedRingBuffer
