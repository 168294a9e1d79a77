import Awn.RingBuffer.Ring
import Mathlib.Algebra.Group.Nat.Defs
import Mathlib.Tactic.Common

/-!
The circular buffer under both message queues: signed indices of 32 bits that step back from the
front for a message that is jammed and forward for one that is received.
-/

namespace Awn

inductive Deque (V : Type*)
  | pushBack (x : V)
  | pushFront (x : V)
  | popFront
  | front

namespace Deque

variable {V : Type*}

def apply (capacity : ℕ) (xs : List V) : Deque V → Option (Option V) × List V
  | pushBack x => if xs.length < capacity then (some none, xs ++ [x]) else (none, xs)
  | pushFront x => if xs.length < capacity then (some none, x :: xs) else (none, xs)
  | popFront => (xs.head?.map some, xs.tail)
  | front => (xs.head?.map some, xs)

end Deque

structure Slots where
  buffer : BitVec 32 → BitVec 64
  max : BitVec 32
  count : BitVec 32
  offset : BitVec 32

namespace Slots

variable (s : Slots)

def backIndex : BitVec 32 :=
  let offset := s.count + s.offset
  if s.max.sle offset then offset - s.max else offset

def frontIndex : BitVec 32 :=
  let adjust := if s.offset.slt 1 then s.max else 0
  s.offset + adjust - 1

def insertBack (message : BitVec 64) : Slots :=
  { s with buffer := Function.update s.buffer s.backIndex message, count := s.count + 1 }

def insertFront (message : BitVec 64) : Slots :=
  { s with buffer := Function.update s.buffer s.frontIndex message,
           count := s.count + 1, offset := s.frontIndex }

def removeFront : Slots :=
  let next_offset := s.offset + 1
  let adjust := if s.max.sle next_offset then s.max else 0
  { s with count := s.count - 1, offset := next_offset - adjust }

def toRing : RingBuffer (BitVec 64) where
  m_offset := s.offset.toNat
  m_count := s.count.toNat
  m_array i := if i < 2 ^ 32 then some (s.buffer (BitVec.ofNat 32 i)) else none

def size : ℕ := Max.max 1 s.max.toNat

def contents : List (BitVec 64) := s.toRing.contents s.size

structure Holds (xs : List (BitVec 64)) : Prop where
  entries : s.toRing.Holds s.size xs
  count : s.count.toNat ≤ s.max.toNat
  max : s.max.toNat < 2 ^ 31

variable {s} {xs : List (BitVec 64)}

theorem sle_iff {a b : BitVec 32} (ha : a.toNat < 2 ^ 31) :
    a.sle b = true ↔ a.toNat ≤ b.toNat ∧ b.toNat < 2 ^ 31 := by
  rw [BitVec.sle_iff_toInt_le, BitVec.toInt_eq_toNat_cond, BitVec.toInt_eq_toNat_cond,
    if_pos (by omega)]
  have hlt := b.isLt
  split <;> omega

theorem slt_one_iff {a : BitVec 32} (ha : a.toNat < 2 ^ 31) : a.slt 1 = true ↔ a.toNat = 0 := by
  have hone : (1 : BitVec 32).toInt = 1 := rfl
  rw [BitVec.slt_iff_toInt_lt, BitVec.toInt_eq_toNat_cond, if_pos (by omega), hone]
  omega

theorem toNat_succ {a : BitVec 32} (h : a.toNat + 1 < 2 ^ 32) : (a + 1).toNat = a.toNat + 1 := by
  have hone : (1 : BitVec 32).toNat = 1 := rfl
  rw [BitVec.toNat_add, hone]
  omega

theorem update_array (buffer : BitVec 32 → BitVec 64) (slot : BitVec 32) (message : BitVec 64) :
    (fun i => if i < 2 ^ 32 then some (Function.update buffer slot message (BitVec.ofNat 32 i))
      else none) =
      Function.update (fun i => if i < 2 ^ 32 then some (buffer (BitVec.ofNat 32 i)) else none)
        slot.toNat (some message) := by
  funext i
  by_cases hi : i = slot.toNat
  · rw [hi, Function.update_self, if_pos slot.isLt, BitVec.ofNat_toNat, BitVec.setWidth_eq,
      Function.update_self]
  · rw [Function.update_of_ne hi]
    by_cases hlt : i < 2 ^ 32
    · have hne : BitVec.ofNat 32 i ≠ slot := by
        rintro rfl
        rw [BitVec.toNat_ofNat] at hi
        omega
      rw [if_pos hlt, if_pos hlt, Function.update_of_ne hne]
    · rw [if_neg hlt, if_neg hlt]

namespace Holds

theorem contents_eq (h : s.Holds xs) : s.contents = xs := h.entries.contents_eq

theorem length_eq (h : s.Holds xs) : xs.length = s.count.toNat := h.entries.length

theorem offset_lt (h : s.Holds xs) : s.offset.toNat < s.size := h.entries.offset

theorem backIndex_eq (h : s.Holds xs) (hroom : s.count.toNat < s.max.toNat)
    (hsum : s.count.toNat + s.offset.toNat < 2 ^ 31) :
    s.backIndex.toNat = (s.offset.toNat + s.count.toNat) % s.max.toNat := by
  have hmax := h.max
  have hoffset := h.offset_lt
  have hadd : (s.count + s.offset).toNat = s.count.toNat + s.offset.toNat := by
    rw [BitVec.toNat_add]
    omega
  unfold size at hoffset
  unfold backIndex
  dsimp only
  rw [RingBuffer.mod_eq (by omega)]
  by_cases hwrap : s.max.toNat ≤ s.count.toNat + s.offset.toNat
  · rw [if_pos ((sle_iff hmax).mpr (by omega)), if_pos (by omega), BitVec.toNat_sub, hadd]
    omega
  · rw [if_neg fun hle => hwrap (by rw [sle_iff hmax] at hle; omega), if_neg (by omega), hadd]
    omega

theorem backIndex_outside (h : s.Holds xs) (hroom : s.count.toNat < s.max.toNat)
    (hsum : 2 ^ 31 ≤ s.count.toNat + s.offset.toNat) : s.max.toNat ≤ s.backIndex.toNat := by
  have hmax := h.max
  have hoffset := h.offset_lt
  have hadd : (s.count + s.offset).toNat = s.count.toNat + s.offset.toNat := by
    unfold size at hoffset
    rw [BitVec.toNat_add]
    omega
  unfold backIndex
  dsimp only
  rw [if_neg fun hle => Nat.not_lt.mpr hsum (by rw [sle_iff hmax] at hle; omega), hadd]
  omega

theorem frontIndex_eq (h : s.Holds xs) (hroom : s.count.toNat < s.max.toNat) :
    s.frontIndex.toNat < s.max.toNat ∧
      (s.frontIndex.toNat + 1) % s.max.toNat = s.offset.toNat := by
  have hmax := h.max
  have hoffset := h.offset_lt
  have hone : (1 : BitVec 32).toNat = 1 := rfl
  have hzero : (0 : BitVec 32).toNat = 0 := rfl
  unfold size at hoffset
  unfold frontIndex
  dsimp only
  have hslt : s.offset.slt 1 = true ↔ s.offset.toNat = 0 := slt_one_iff (by omega)
  by_cases hfirst : s.offset.toNat = 0
  · have hindex : (s.offset + s.max - 1).toNat = s.max.toNat - 1 := by
      rw [BitVec.toNat_sub, BitVec.toNat_add, hone]
      omega
    rw [if_pos (hslt.mpr hfirst), hindex, hfirst, Nat.sub_add_cancel (by omega), Nat.mod_self]
    omega
  · have hindex : (s.offset + 0 - 1).toNat = s.offset.toNat - 1 := by
      rw [BitVec.toNat_sub, BitVec.toNat_add, hone, hzero]
      omega
    rw [if_neg fun heq => hfirst (hslt.mp heq), hindex, Nat.sub_add_cancel (by omega), Nat.mod_eq_of_lt (by omega)]
    omega

theorem insertBack (h : s.Holds xs) (hroom : s.count.toNat < s.max.toNat)
    (hsum : s.count.toNat + s.offset.toNat < 2 ^ 31) (message : BitVec 64) :
    s.backIndex.toNat < s.max.toNat ∧ (s.insertBack message).Holds (xs ++ [message]) := by
  have hindex := h.backIndex_eq hroom hsum
  have hlt : s.backIndex.toNat < s.max.toNat := by
    rw [hindex]
    exact Nat.mod_lt _ (by omega)
  have hsize : s.size = s.max.toNat := by
    unfold size
    omega
  have hnext := toNat_succ (by omega : s.count.toNat + 1 < 2 ^ 32)
  refine ⟨hlt, ?_, ?_, h.max⟩
  · apply h.entries.insert
    unfold RingBuffer.insert
    rw [if_pos (by rw [hsize]; exact hroom)]
    unfold Slots.insertBack toRing
    dsimp only
    rw [update_array, hnext, hindex, hsize, RingBuffer.mod_eq (by have := h.offset_lt; omega)]
    congr 3
    split <;> rfl
  · change (s.count + 1).toNat ≤ _
    rw [hnext]
    exact hroom

theorem insertFront (h : s.Holds xs) (hroom : s.count.toNat < s.max.toNat)
    (message : BitVec 64) :
    s.frontIndex.toNat < s.max.toNat ∧ (s.insertFront message).Holds (message :: xs) := by
  obtain ⟨hlt, hprev⟩ := h.frontIndex_eq hroom
  have hmax := h.max
  have hsize : s.size = s.max.toNat := by
    unfold size
    omega
  have hnext := toNat_succ (by omega : s.count.toNat + 1 < 2 ^ 32)
  refine ⟨hlt, ?_, ?_, h.max⟩
  · have hentries := h.entries.cons message (by rw [hsize]; exact hlt) (by rw [hsize]; exact hprev)
      (by rw [hsize]; exact hroom)
    unfold Slots.insertFront toRing size
    dsimp only
    rw [update_array, hnext]
    exact hentries
  · change (s.count + 1).toNat ≤ _
    rw [hnext]
    exact hroom

theorem removeFront {x : BitVec 64} (h : s.Holds (x :: xs)) :
    s.offset.toNat < s.max.toNat ∧ s.buffer s.offset = x ∧ s.removeFront.Holds xs := by
  have hmax := h.max
  have hcount := h.count
  have hlength := h.length_eq
  rw [List.length_cons] at hlength
  have hsize : s.size = s.max.toNat := by
    unfold size
    omega
  have hoffset := h.offset_lt
  rw [hsize] at hoffset
  obtain ⟨ring', heq, hring'⟩ := h.entries.removeFront_cons
  unfold RingBuffer.removeFront at heq
  rw [if_neg (by change s.count.toNat ≠ 0; omega)] at heq
  obtain ⟨hfirst, rfl⟩ := Prod.mk.inj heq
  have hbuffer : s.buffer s.offset = x := by
    have hget := h.entries.get 0 (Nat.succ_pos _)
    unfold toRing at hget
    dsimp only at hget
    rw [Nat.add_zero, hsize, Nat.mod_eq_of_lt hoffset, if_pos s.offset.isLt, BitVec.ofNat_toNat,
      BitVec.setWidth_eq] at hget
    exact Option.some.inj hget
  have hone : (1 : BitVec 32).toNat = 1 := rfl
  have hzero : (0 : BitVec 32).toNat = 0 := rfl
  have hpred : (s.count - 1).toNat = s.count.toNat - 1 := by
    rw [BitVec.toNat_sub, hone]
    omega
  have hnext := toNat_succ (by omega : s.offset.toNat + 1 < 2 ^ 32)
  have hindex : (s.offset + 1 - if s.max.sle (s.offset + 1) then s.max else 0).toNat =
      if s.offset.toNat + 1 < s.max.toNat then s.offset.toNat + 1 else 0 := by
    by_cases hend : s.offset.toNat + 1 < s.max.toNat
    · rw [if_neg fun hle => Nat.not_le.mpr hend (by rw [sle_iff hmax] at hle; omega), if_pos hend,
        BitVec.toNat_sub, hzero]
      omega
    · rw [if_pos ((sle_iff hmax).mpr (by omega)), if_neg hend, BitVec.toNat_sub]
      omega
  refine ⟨hoffset, hbuffer, ?_, ?_, h.max⟩
  · unfold Slots.removeFront toRing size
    dsimp only
    rw [hindex, hpred]
    rw [hsize] at hring'
    have hsize' : Max.max 1 s.max.toNat = s.max.toNat := hsize
    rw [hsize']
    exact hring'
  · change (s.count - 1).toNat ≤ s.max.toNat
    omega

end Holds

structure Performs (s : Slots) (call : Deque (BitVec 64)) (index : Option (BitVec 32)) (done : Bool)
    (out_message : Option (BitVec 64)) (after : Slots) : Prop where
  answers : (if done then some out_message else none, after.contents) =
    call.apply s.max.toNat s.contents
  inside : ∀ i ∈ index, i.toNat < s.max.toNat
  refused : done = false → after = s
  max : after.max = s.max
  holds : ∃ xs, after.Holds xs

namespace Holds

variable {message : BitVec 64}

theorem pushBack_performs (h : s.Holds xs) (hroom : s.count.toNat < s.max.toNat)
    (hsum : s.count.toNat + s.offset.toNat < 2 ^ 31) :
    s.Performs (.pushBack message) (some s.backIndex) true none (s.insertBack message) := by
  obtain ⟨hlt, hafter⟩ := h.insertBack hroom hsum message
  refine ⟨?_, ?_, ?_, rfl, _, hafter⟩
  · have hroom' : xs.length < s.max.toNat := by
      rw [h.length_eq]
      exact hroom
    rw [hafter.contents_eq, h.contents_eq, Deque.apply, if_pos rfl, if_pos hroom']
  · intro i hi
    rw [← Option.some.inj hi]
    exact hlt
  · intro hdone
    cases hdone

theorem pushFront_performs (h : s.Holds xs) (hroom : s.count.toNat < s.max.toNat) :
    s.Performs (.pushFront message) (some s.frontIndex) true none (s.insertFront message) := by
  obtain ⟨hlt, hafter⟩ := h.insertFront hroom message
  refine ⟨?_, ?_, ?_, rfl, _, hafter⟩
  · have hroom' : xs.length < s.max.toNat := by
      rw [h.length_eq]
      exact hroom
    rw [hafter.contents_eq, h.contents_eq, Deque.apply, if_pos rfl, if_pos hroom']
  · intro i hi
    rw [← Option.some.inj hi]
    exact hlt
  · intro hdone
    cases hdone

theorem refuses (h : s.Holds xs) {call : Deque (BitVec 64)}
    (hnone : call.apply s.max.toNat xs = (none, xs)) : s.Performs call none false none s := by
  refine ⟨?_, ?_, ?_, rfl, xs, h⟩
  · rw [h.contents_eq, hnone]
    rfl
  · intro i hi
    cases hi
  · exact fun _ => rfl

theorem full_refuses (h : s.Holds xs) (hfull : ¬s.count.toNat < s.max.toNat) :
    s.Performs (.pushBack message) none false none s ∧
      s.Performs (.pushFront message) none false none s := by
  have hlength : ¬xs.length < s.max.toNat := by
    rw [h.length_eq]
    exact hfull
  exact ⟨h.refuses (if_neg hlength), h.refuses (if_neg hlength)⟩

theorem eq_nil (h : s.Holds xs) (hempty : s.count = 0) : xs = [] := by
  apply List.eq_nil_of_length_eq_zero
  rw [h.length_eq, hempty]
  rfl

theorem exists_cons (h : s.Holds xs) (hne : s.count ≠ 0) : ∃ x ys, xs = x :: ys := by
  apply List.exists_cons_of_ne_nil
  intro hnil
  have hlength := h.length_eq
  rw [hnil] at hlength
  exact hne (BitVec.eq_of_toNat_eq hlength.symm)

theorem empty_refuses (h : s.Holds xs) (hempty : s.count = 0) :
    s.Performs .popFront none false none s ∧ s.Performs .front none false none s := by
  have hxs := h.eq_nil hempty
  constructor
  · apply h.refuses
    rw [hxs]
    rfl
  · apply h.refuses
    rw [hxs]
    rfl

theorem popFront_performs (h : s.Holds xs) (hne : s.count ≠ 0) :
    s.Performs .popFront (some s.offset) true (some (s.buffer s.offset)) s.removeFront := by
  obtain ⟨x, ys, rfl⟩ := h.exists_cons hne
  obtain ⟨hlt, hbuffer, hafter⟩ := h.removeFront
  refine ⟨?_, ?_, ?_, rfl, _, hafter⟩
  · rw [hafter.contents_eq, h.contents_eq, hbuffer]
    rfl
  · intro i hi
    rw [← Option.some.inj hi]
    exact hlt
  · intro hdone
    cases hdone

theorem front_performs (h : s.Holds xs) (hne : s.count ≠ 0) :
    s.Performs .front (some s.offset) true (some (s.buffer s.offset)) s := by
  obtain ⟨x, ys, rfl⟩ := h.exists_cons hne
  obtain ⟨hlt, hbuffer, -⟩ := h.removeFront
  refine ⟨?_, ?_, ?_, rfl, _, h⟩
  · rw [h.contents_eq, hbuffer]
    rfl
  · intro i hi
    rw [← Option.some.inj hi]
    exact hlt
  · intro hdone
    cases hdone

end Holds

theorem holds_create {buffer : BitVec 32 → BitVec 64} {max : BitVec 32} (hmax : max.toNat < 2 ^ 31) :
    (Slots.mk buffer max 0 0).Holds [] where
  entries :=
    { offset := by
        change 0 < Max.max 1 max.toNat
        omega
      length := rfl
      count := Nat.zero_le _
      get := fun i hi => absurd hi (Nat.not_lt_zero i) }
  count := Nat.zero_le _
  max := hmax

end Slots

end Awn
