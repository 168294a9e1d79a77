import Awn.Calls.Throughout
import Awn.ExpHeap.Adjust
import Awn.ExpHeap.Resize

/-! Sequences of calls to a heap. -/

namespace Awn

open Memory

namespace ExpHeap

structure Allocation where
  address : BitVec 64
  size : BitVec 64
  alignment : ℕ
  deriving DecidableEq

structure State (P : Type*) where
  h : ExpHeap
  is_root : Bool
  m_parent_heap : Option P
  live : List Allocation

inductive Call
  | SetAllocationMode (mode : AllocationMode)
  | TryAllocate (size : BitVec 64) (k : ℕ)
  | Free (address : BitVec 64)
  | AdjustAllocation (address new_size : BitVec 64)
  | AdjustHeap
  | ResizeHeapBack (new_size : BitVec 64)

variable {P : Type*} (parents : ParentHeap P)

def State.call (s : State P) : Call → State P
  | .SetAllocationMode mode => { s with h := { s.h with m_allocation_mode := mode } }
  | .TryAllocate size k =>
    let r := s.h.TryAllocate size (BitVec.ofNat 32 (2 ^ k))
    { s with
      h := r.2
      live := if r.1 = 0 then s.live else s.live ++ [⟨r.1, size, 2 ^ k⟩] }
  | .Free address =>
    { s with h := s.h.Free address, live := s.live.filter fun a => a.address ≠ address }
  | .AdjustAllocation address new_size =>
    match s.h.AdjustAllocation address new_size with
    | none => s
    | some (size, h) =>
      { s with
        h
        live := s.live.map fun a => if a.address = address then { a with size } else a }
  | .AdjustHeap =>
    let r := s.h.AdjustHeap parents s.m_parent_heap
    { s with h := r.2.1, m_parent_heap := r.2.2 }
  | .ResizeHeapBack new_size =>
    let r := s.h.ResizeHeapBack parents s.m_parent_heap s.is_root new_size
    { s with h := r.2.1, m_parent_heap := r.2.2 }

structure Admissible (address size : BitVec 64) (m_parent_heap : Option P) : Prop where
  address_pos : 0 < address.toNat
  size_le : 0xc4 ≤ size.toNat
  end_le : address.toNat + size.toNat + 2 ^ 30 ≤ 2 ^ 64
  parent : ∀ p ∈ m_parent_heap, size.toNat ≤ (parents.allocated p).toNat

def create (address size : BitVec 64) (is_root : Bool) (m_parent_heap : Option P) : State P :=
  ⟨TryCreate address size, is_root, m_parent_heap, []⟩

def Keeps (s : State P) : Call → Prop
  | .SetAllocationMode _ => True
  | .TryAllocate _ k => k < 31
  | .Free address => ∃ x, Used s.h x address
  | .AdjustAllocation address new_size =>
    ∃ x, Used s.h x address ∧ AdjustMet s.h x address (alignUp new_size 4)
  | .AdjustHeap => s.h.AdjustHeapKeeps parents s.m_parent_heap
  | .ResizeHeapBack new_size =>
    ResizeMet parents s.h s.is_root s.m_parent_heap (alignUp new_size 4) (2 ^ 30)

structure State.Inv (s : State P) : Prop where
  valid : s.h.Valid
  covers : s.h.Covers parents s.m_parent_heap

section Step

variable {parents} {s : State P} {h : ExpHeap} {address size : BitVec 64}

theorem range_tryCreate (address : BitVec 64) (hend : address.toNat + size.toNat < 2 ^ 64) (hsize : 0xc4 ≤ size.toNat) :
    (TryCreate address size).m_start_address.toNat = address.toNat + 0xa0 ∧
      (TryCreate address size).m_end_address.toNat = address.toNat + size.toNat ∧
        (size - 0xc0).toNat = size.toNat - 0xc0 := by
  have hminus {n : ℕ} (hn : n ≤ size.toNat) (hlt : n < 2 ^ 64) :
      (size - BitVec.ofNat 64 n).toNat = size.toNat - n := by
    rw [BitVec.toNat_sub_of_le, BitVec.toNat_ofNat, Nat.mod_eq_of_lt hlt]
    rw [BitVec.le_def, BitVec.toNat_ofNat, Nat.mod_eq_of_lt hlt]
    exact hn
  have hstart : (address + 0xa0).toNat = address.toNat + 0xa0 := by
    rw [BitVec.toNat_add, show (0xa0 : BitVec 64).toNat = 0xa0 from rfl]
    omega
  refine ⟨hstart, ?_, hminus (n := 0xc0) (by omega) (by decide)⟩
  show (address + 0xa0 + (size - BitVec.ofNat 64 0xa0)).toNat = _
  rw [BitVec.toNat_add, hstart, hminus (by omega) (by decide)]
  omega

theorem valid_tryCreate (hpos : 0 < address.toNat) (hsize : 0xc4 ≤ size.toNat)
    (hend : address.toNat + size.toNat + 2 ^ 30 ≤ 2 ^ 64) : (TryCreate address size).Valid := by
  obtain ⟨hstart, hstop, hblock⟩ := range_tryCreate address (by omega) hsize
  have hlast : (ExpHeapMemoryBlock.free (address + 0xa0) (size - 0xc0)).last =
      (TryCreate address size).m_end_address.toNat := by
    rw [hstop]
    show (TryCreate address size).m_start_address.toNat + 0x20 + (size - 0xc0).toNat = _
    rw [hstart, hblock]
    omega
  refine ⟨by omega, by omega, by omega, List.pairwise_singleton _ _, ?_, List.forall_mem_nil _, ?_⟩
  · intro x hx
    rw [List.mem_singleton.mp hx]
    exact ⟨rfl, rfl⟩
  · show Tiles _ [ExpHeapMemoryBlock.freeSpan _]
    rw [ExpHeapMemoryBlock.freeSpan, hlast]
    exact tiles_single

theorem Valid.addUsedBlock_of_fits (hvalid : h.Valid) {k : ℕ} (hk : k < 31)
    {x : ExpHeapMemoryBlock} (hx : x ∈ h.m_free_block_list) {n : BitVec 64}
    (hfits : Fits n (alignmentOf k) x) :
    (h.AddUsedBlock x (alignUp x.start (alignmentOf k)) n).Valid ∧
      ∃ used_block,
        (h.AddUsedBlock x (alignUp x.start (alignmentOf k)) n).m_allocated_block_list =
          h.m_allocated_block_list ++ [used_block] ∧
        used_block.address = alignUp x.start (alignmentOf k) - 0x20 ∧
          n.toNat ≤ used_block.block_size.toNat :=
  hvalid.addUsedBlock hx (hvalid.alignUp_bounds hk hx).1 hfits

theorem Valid.tryAllocate (hvalid : h.Valid) {k : ℕ} (hk : k < 31) (size : BitVec 64) :
    (h.TryAllocate size (BitVec.ofNat 32 (2 ^ k))).2.Valid := by
  have htried := hvalid.tried hk size
  generalize h.TryAllocate size (BitVec.ofNat 32 (2 ^ k)) = r at htried
  cases htried with
  | refused hnone => exact hvalid
  | accepted x hx hfits hleast => exact (hvalid.addUsedBlock_of_fits hk hx hfits).1

theorem range_tryAllocate (size : BitVec 64) (alignment : BitVec 32) :
    (h.TryAllocate size alignment).2.m_start_address = h.m_start_address ∧
      (h.TryAllocate size alignment).2.m_end_address = h.m_end_address := by
  rw [TryAllocate]
  split
  · exact ⟨rfl, rfl⟩
  · dsimp only
    split <;> exact ⟨rfl, rfl⟩

theorem Valid.usedBlock_of_used (hvalid : h.Valid) {x : ExpHeapMemoryBlock}
    (hused : Used h x address) : h.usedBlock address = some x := by
  obtain ⟨before, after, hsplit⟩ := List.append_of_mem hused.mem
  exact hvalid.usedBlock_eq hsplit hused.address_eq

theorem Valid.adjustAllocation_eq (hvalid : h.Valid) {x : ExpHeapMemoryBlock}
    (hused : Used h x address) (new_size : BitVec 64) :
    h.AdjustAllocation address new_size = some (h.adjustBlock x address (alignUp new_size 4)) := by
  rw [AdjustAllocation, hvalid.usedBlock_of_used hused, Option.map_some]

theorem State.Inv.call (hs : s.Inv parents) {c : Call} (hc : Keeps parents s c) :
    (s.call parents c).Inv parents := by
  obtain ⟨hvalid, hcovers⟩ := hs
  cases c with
  | SetAllocationMode mode =>
    exact ⟨⟨hvalid.start_pos, hvalid.start_le, hvalid.end_le, hvalid.sorted, hvalid.free_kind,
      hvalid.used_kind, hvalid.tiles⟩, hcovers⟩
  | TryAllocate size k =>
    refine ⟨hvalid.tryAllocate hc size, ?_⟩
    have hrange := range_tryAllocate (h := s.h) size (BitVec.ofNat 32 (2 ^ k))
    intro p hp
    show 0xa0 + ((s.h.TryAllocate size (BitVec.ofNat 32 (2 ^ k))).2.m_end_address.toNat -
      (s.h.TryAllocate size (BitVec.ofNat 32 (2 ^ k))).2.m_start_address.toNat) ≤ _
    rw [hrange.1, hrange.2]
    exact hcovers p hp
  | Free address =>
    obtain ⟨x, hused⟩ := hc
    have hfreed := hvalid.free hused.mem hused.address_eq
    refine ⟨hfreed.valid, ?_⟩
    intro p hp
    show 0xa0 + ((s.h.Free address).m_end_address.toNat -
      (s.h.Free address).m_start_address.toNat) ≤ _
    rw [hfreed.range.1, hfreed.range.2]
    exact hcovers p hp
  | AdjustAllocation address new_size =>
    obtain ⟨x, hused, hmet⟩ := hc
    obtain ⟨hadjusted, hvalid'⟩ := hvalid.adjusted hused hmet
    rw [State.call, hvalid.adjustAllocation_eq hused]
    refine ⟨hvalid', ?_⟩
    intro p hp
    show 0xa0 + ((s.h.adjustBlock x address (alignUp new_size 4)).2.m_end_address.toNat -
      (s.h.adjustBlock x address (alignUp new_size 4)).2.m_start_address.toNat) ≤ _
    rw [hadjusted.range.1, hadjusted.range.2]
    exact hcovers p hp
  | AdjustHeap => exact ⟨hvalid.adjustHeap parents, hvalid.adjustHeap_covers parents hcovers hc⟩
  | ResizeHeapBack new_size =>
    have houtcome : Outcome parents s.h s.is_root s.m_parent_heap (alignUp new_size 4)
        (s.h.ResizeHeapBack parents s.m_parent_heap s.is_root new_size) := hvalid.outcome parents
    exact ⟨houtcome.valid parents hvalid hc,
      houtcome.covers parents hcovers (hc.mono parents (Nat.two_pow_pos 30))⟩

theorem inv_create {is_root : Bool} {m_parent_heap : Option P}
    (hadmissible : Admissible parents address size m_parent_heap) :
    (create address size is_root m_parent_heap).Inv parents := by
  obtain ⟨hpos, hsize, hend, hparent⟩ := hadmissible
  obtain ⟨hstart, hstop, -⟩ := range_tryCreate address (by omega) hsize
  refine ⟨valid_tryCreate hpos hsize hend, ?_⟩
  intro p hp
  have := hparent p hp
  show 0xa0 + ((TryCreate address size).m_end_address.toNat -
    (TryCreate address size).m_start_address.toNat) ≤ _
  rw [hstart, hstop]
  omega

theorem inv_last {is_root : Bool} {m_parent_heap : Option P} {cs : List Call}
    (hadmissible : Admissible parents address size m_parent_heap)
    (hcs : Calls.EachIn (State.call parents) (Keeps parents)
      (create address size is_root m_parent_heap) cs) :
    (cs.foldl (State.call parents) (create address size is_root m_parent_heap)).Inv parents :=
  hcs.last (fun _ _ hs hc => hs.call hc) (inv_create hadmissible)

end Step

end ExpHeap

end Awn
