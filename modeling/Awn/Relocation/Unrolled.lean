import Awn.Relocation.RoundTrip
import Mathlib.Data.List.Basic

/-!
The unrolled loop over the slots of an entry and the double loop it stands for.
-/

namespace Awn.Relocation

open Memory ResNintendoWareRelocationTable

def slotAddress (base : Ptr) (offsetCount arrayStride : BitVec 8) (i j : ℕ) : Ptr :=
  base + BitVec.ofNat 64 (8 * (i * (offsetCount.toNat + arrayStride.toNat) + j))

def doubleLoop (slot : Bytes → Ptr → Bytes) (base : Ptr) (offsetCount arrayStride : BitVec 8)
    (arrayCount : ℕ) (m : Bytes) : Bytes :=
  (List.range arrayCount).foldl (fun m i => (List.range offsetCount.toNat).foldl
    (fun m j => slot m (slotAddress base offsetCount arrayStride i j)) m) m

def slotAddresses (base : Ptr) (offsetCount arrayStride : BitVec 8) (arrayCount : ℕ) : List Ptr :=
  (List.range arrayCount).flatMap fun i =>
    (List.range offsetCount.toNat).map (slotAddress base offsetCount arrayStride i)

def relocated (fileBase : Ptr) (value : BitVec 64) : BitVec 64 :=
  if value = 0 then 0 else fileBase + value

theorem ofNat_add_add (p : Ptr) (a b : ℕ) :
    p + BitVec.ofNat 64 a + BitVec.ofNat 64 b = p + BitVec.ofNat 64 (a + b) := by
  rw [BitVec.add_assoc, BitVec.ofNat_add]

theorem slotRun_eq (n : ℕ) (p : Ptr) :
    slotRun n p = (List.range n).map fun j => p + BitVec.ofNat 64 (8 * j) := by
  induction n generalizing p with
  | zero => rfl
  | succ n ih =>
    rw [slotRun, ih, List.range_succ_eq_map, List.map_cons, List.map_map]
    congr 1
    · rw [Nat.mul_zero, BitVec.add_zero]
    · apply List.map_congr_left
      intro j _
      change p + BitVec.ofNat 64 8 + BitVec.ofNat 64 (8 * j) = p + BitVec.ofNat 64 (8 * (j + 1))
      rw [ofNat_add_add]
      congr 2
      ring

theorem stride_eq (offsetCount arrayStride : BitVec 8) (p : Ptr) :
    p + offsetCount.setWidth 64 * 8 + arrayStride.setWidth 64 * 8 =
      p + BitVec.ofNat 64 (8 * (offsetCount.toNat + arrayStride.toNat)) := by
  have hcount := offsetCount.isLt
  have hstride := arrayStride.isLt
  apply BitVec.eq_of_toNat_eq
  simp only [BitVec.toNat_add, BitVec.toNat_mul, BitVec.toNat_setWidth, BitVec.ofNat_eq_ofNat,
    BitVec.toNat_ofNat]
  omega

theorem arraySlots_eq (offsetCount arrayStride : BitVec 8) (n : ℕ) (p : Ptr) :
    arraySlots offsetCount arrayStride n p = slotAddresses p offsetCount arrayStride n := by
  induction n generalizing p with
  | zero => rfl
  | succ n ih =>
    rw [arraySlots, ih, slotRun_eq, stride_eq, slotAddresses, slotAddresses,
      List.range_succ_eq_map, List.flatMap_cons, List.flatMap_map]
    congr 1
    · apply List.map_congr_left
      intro j _
      rw [slotAddress, Nat.zero_mul, Nat.zero_add]
    · apply List.flatMap_congr
      intro i _
      apply List.map_congr_left
      intro j _
      rw [slotAddress, slotAddress, ofNat_add_add, Nat.succ_eq_add_one]
      congr 2
      ring

theorem foldl_slotAddresses (slot : Bytes → Ptr → Bytes) (base : Ptr)
    (offsetCount arrayStride : BitVec 8) (n : ℕ) (m : Bytes) :
    (slotAddresses base offsetCount arrayStride n).foldl slot m =
      doubleLoop slot base offsetCount arrayStride n m := by
  rw [slotAddresses, doubleLoop, List.foldl_flatMap]
  congr 1
  funext m i
  rw [List.foldl_map]

section Extent

variable {base : Ptr} {offsetCount : BitVec 8} (arrayStride : BitVec 8) {n i j i' j' : ℕ}

theorem slot_lt (hn : n < 2 ^ 16) (hi : i < n) (hj : j < offsetCount.toNat) :
    8 * (i * (offsetCount.toNat + arrayStride.toNat) + j) < 2 ^ 29 := by
  have hcount := offsetCount.isLt
  have hstride := arrayStride.isLt
  have hmul : i * (offsetCount.toNat + arrayStride.toNat) ≤ 2 ^ 16 * 510 :=
    Nat.mul_le_mul (by omega) (by omega)
  omega

theorem slot_ne (hj : j < offsetCount.toNat) (hj' : j' < offsetCount.toNat)
    (hne : ¬(i = i' ∧ j = j')) : i * (offsetCount.toNat + arrayStride.toNat) + j ≠
      i' * (offsetCount.toNat + arrayStride.toNat) + j' := by
  intro heq
  have hdiv := congrArg (· / (offsetCount.toNat + arrayStride.toNat)) heq
  rw [Nat.mul_comm i, Nat.mul_comm i', Nat.mul_add_div (by omega), Nat.mul_add_div (by omega),
    Nat.div_eq_of_lt (by omega), Nat.div_eq_of_lt (by omega)] at hdiv
  obtain rfl : i = i' := by omega
  exact hne ⟨rfl, by omega⟩

theorem slotAddress_apart (hn : n < 2 ^ 16) (hi : i < n) (hi' : i' < n)
    (hj : j < offsetCount.toNat) (hj' : j' < offsetCount.toNat) (hne : ¬(i = i' ∧ j = j')) :
    (slotAddress base offsetCount arrayStride i j).toNat + 8 ≤
        (slotAddress base offsetCount arrayStride i' j').toNat ∨
      (slotAddress base offsetCount arrayStride i' j').toNat + 8 ≤
        (slotAddress base offsetCount arrayStride i j).toNat := by
  have hlt := slot_lt arrayStride hn hi hj
  have hlt' := slot_lt arrayStride hn hi' hj'
  have hslot := slot_ne arrayStride hj hj' hne
  have hbase := base.isLt
  unfold slotAddress
  generalize i * (offsetCount.toNat + arrayStride.toNat) + j = a at *
  generalize i' * (offsetCount.toNat + arrayStride.toNat) + j' = b at *
  rw [BitVec.toNat_add, BitVec.toNat_add, BitVec.toNat_ofNat, BitVec.toNat_ofNat]
  omega

end Extent

theorem slotAddresses_pairwise (base : Ptr) (offsetCount arrayStride : BitVec 8) {n : ℕ}
    (hn : n < 2 ^ 16) : (slotAddresses base offsetCount arrayStride n).Pairwise
      fun p q => p.toNat + 8 ≤ q.toNat ∨ q.toNat + 8 ≤ p.toNat := by
  apply List.pairwise_flatMap.mpr
  constructor
  · intro i hi
    apply List.pairwise_map.mpr
    apply List.pairwise_lt_range.imp_of_mem
    intro j j' hj hj' hlt
    exact slotAddress_apart _ hn (List.mem_range.mp hi) (List.mem_range.mp hi) (List.mem_range.mp hj)
      (List.mem_range.mp hj') (by omega)
  · apply List.pairwise_lt_range.imp_of_mem
    intro i i' hi hi' hlt p hp q hq
    obtain ⟨j, hj, rfl⟩ := List.mem_map.mp hp
    obtain ⟨j', hj', rfl⟩ := List.mem_map.mp hq
    exact slotAddress_apart _ hn (List.mem_range.mp hi) (List.mem_range.mp hi') (List.mem_range.mp hj)
      (List.mem_range.mp hj') (by omega)

theorem mem_slotAddresses {base p : Ptr} {offsetCount arrayStride : BitVec 8} {n : ℕ} :
    p ∈ slotAddresses base offsetCount arrayStride n ↔
      ∃ i < n, ∃ j < offsetCount.toNat, slotAddress base offsetCount arrayStride i j = p := by
  simp [slotAddresses]

theorem read64_congr {m m' : Bytes} {p : Ptr} (h : ∀ b, p.toNat ≤ b → b < p.toNat + 8 → m' b = m b) :
    read64 m' p = read64 m p := by
  rw [read64, read64, load_congr h]

theorem read64_relocateSlot (fileBase : Ptr) (m : Bytes) (p : Ptr) :
    read64 (relocateSlot fileBase m p) p = relocated fileBase (read64 m p) := by
  have hvalue : (if read64 m p ≠ 0 then fileBase + read64 m p else 0) =
      relocated fileBase (read64 m p) := by
    unfold relocated
    rw [ite_not]
  apply BitVec.eq_of_toNat_eq
  rw [relocateSlot, hvalue, write64, read64, load_store, BitVec.toNat_ofNat]
  have hlt := (relocated fileBase (read64 m p)).isLt
  omega

section Slots

variable (fileBase : Ptr) (ps : List Ptr)

theorem foldl_relocateSlot_other (m : Bytes) (b : ℕ)
    (h : ∀ p ∈ ps, b < p.toNat ∨ p.toNat + 8 ≤ b) : ps.foldl (relocateSlot fileBase) m b = m b := by
  induction ps generalizing m with
  | nil => rfl
  | cons p ps ih =>
    rw [List.foldl_cons, ih _ fun q hq => h q (List.mem_cons_of_mem p hq)]
    exact relocateSlot_local fileBase m p b (h p List.mem_cons_self)

theorem foldl_relocateSlot (m : Bytes)
    (hapart : ps.Pairwise fun p q => p.toNat + 8 ≤ q.toNat ∨ q.toNat + 8 ≤ p.toNat) (p : Ptr)
    (hp : p ∈ ps) :
    read64 (ps.foldl (relocateSlot fileBase) m) p = relocated fileBase (read64 m p) := by
  induction ps generalizing m with
  | nil => cases hp
  | cons q ps ih =>
    obtain ⟨hq, hps⟩ := List.pairwise_cons.mp hapart
    rw [List.foldl_cons]
    rcases List.mem_cons.mp hp with rfl | hmem
    · rw [read64_congr, read64_relocateSlot]
      intro b hlo hhi
      apply foldl_relocateSlot_other
      intro r hr
      have hr := hq r hr
      omega
    · rw [ih _ hps hmem, read64_congr]
      intro b hlo hhi
      have hqp := hq p hmem
      exact relocateSlot_local fileBase m q b (by omega)

end Slots

end Awn.Relocation
