import Awn.Memory.Buffer
import Awn.VirtualMemory

/-!
`awn::mem::VirtualAddressHeap`, over the address space of its process. A failed assertion ends the
program.
-/

namespace Awn

open Memory

namespace VirtualAddressHeap

def CountRightZeroBits32 (value : BitVec 32) : ℕ :=
  ((List.range 32).find? fun i => value.getLsbD i).getD 32

def CountRightOneBits32 (value : BitVec 32) : ℕ := CountRightZeroBits32 (~~~value)

def lowBits (count : ℕ) : BitVec 32 := ~~~((-1#32) <<< count)

abbrev PageMask := BitVec 16

structure VirtualHeapSmallMemoryBlock where
  page_mask : PageMask
  allocation_size_array : ℕ → BitVec 8

def cSmallMemoryBlockSize : ℕ := 0x20

def cLargeMemoryBlockSize : ℕ := 0x28

def cSmallMemoryRegionSize : ℕ := c64KB

def cSmallMemoryPageMaskBitCount : ℕ := cSmallMemoryRegionSize >>> 12

def cMaxPageMask : PageMask := 0xffff

def cMinimumSize : BitVec 64 := 8

def cMinimumAlignment : BitVec 64 := 8

namespace VirtualHeapSmallMemoryBlock

variable (block : VirtualHeapSmallMemoryBlock)

def size (address : ℕ) : ℕ :=
  ((block.allocation_size_array (((address >>> 12) >>> 1) &&& 7) >>>
    ((address >>> 10) &&& 4)) &&& 0xf).toNat

def setSize (page count : ℕ) : VirtualHeapSmallMemoryBlock :=
  let last_alloc_size := block.allocation_size_array (page >>> 1)
  { block with
    allocation_size_array := Function.update block.allocation_size_array (page >>> 1)
      (if page &&& 1 = 0 then last_alloc_size &&& 0xf0 ||| BitVec.ofNat 8 count
      else last_alloc_size &&& 0xf ||| BitVec.ofNat 8 (count <<< 4)) }

def usePages (mask : BitVec 32) : VirtualHeapSmallMemoryBlock :=
  { block with page_mask := block.page_mask ||| mask.setWidth 16 }

def clearPages (mask : BitVec 32) : VirtualHeapSmallMemoryBlock :=
  { block with page_mask := block.page_mask &&& (~~~mask).setWidth 16 }

end VirtualHeapSmallMemoryBlock

structure Request where
  size : BitVec 64
  alignment : BitVec 64

namespace Request

def of (size alignment : BitVec 64) : Request where
  size := (if size < cMinimumSize then cMinimumSize else size) + 0xfff
  alignment := if alignment < cMinimumAlignment then cMinimumAlignment else alignment

variable (r : Request)

def address_base_offset : ℕ := (alignUp (BitVec.ofNat 64 cSmallMemoryBlockSize) r.alignment).toNat

def small_page_count : ℕ := (r.size >>> 12).toNat

def small_page_count_first : ℕ :=
  ((r.size + 0xfff + BitVec.ofNat 64 r.address_base_offset) >>> 12).toNat

def Large : Prop := cSmallMemoryPageMaskBitCount ≤ r.small_page_count ∨ 0x1000 < r.alignment

instance : Decidable r.Large := inferInstanceAs (Decidable (_ ∨ _))

def final_size : ℕ := (alignUp (r.size + BitVec.ofNat 64 cLargeMemoryBlockSize) 0x1000).toNat

def takeFront (block : VirtualHeapSmallMemoryBlock) : VirtualHeapSmallMemoryBlock :=
  if r.address_base_offset < c4KB then
    (block.usePages (lowBits r.small_page_count_first)).setSize 0 r.small_page_count_first
  else
    (block.usePages (lowBits (r.small_page_count_first - 1) <<< 1)).setSize 1
      (r.small_page_count_first - 1)

end Request

end VirtualAddressHeap

open VirtualAddressHeap in
structure VirtualAddressHeap where
  m_start_address : ℕ
  m_end_address : ℕ
  m_free_small_memory_list : List ℕ
  m_filled_small_memory_list : List ℕ
  m_large_memory_map : ℕ → Option ℕ
  block : ℕ → VirtualHeapSmallMemoryBlock

namespace VirtualAddressHeap

variable {V : Type} (M : VirtualMemory V) (h : VirtualAddressHeap)

def setBlock (base : ℕ) (block : VirtualHeapSmallMemoryBlock) : VirtualAddressHeap :=
  { h with block := Function.update h.block base block }

def pushFree (base : ℕ) : VirtualAddressHeap :=
  { h with m_free_small_memory_list := h.m_free_small_memory_list ++ [base] }

def removeFree (base : ℕ) : VirtualAddressHeap :=
  { h with m_free_small_memory_list := h.m_free_small_memory_list.erase base }

def pushFilled (base : ℕ) : VirtualAddressHeap :=
  { h with m_filled_small_memory_list := h.m_filled_small_memory_list ++ [base] }

def removeFilled (base : ℕ) : VirtualAddressHeap :=
  { h with m_filled_small_memory_list := h.m_filled_small_memory_list.erase base }

def swapFilled (base : ℕ) : VirtualAddressHeap :=
  if (h.block base).page_mask = cMaxPageMask then (h.removeFree base).pushFilled base else h

def swapFree (base : ℕ) (last_page_mask : PageMask) : VirtualAddressHeap :=
  if last_page_mask = cMaxPageMask then (h.removeFilled base).pushFree base else h

def adjustBounds (start stop : ℕ) : VirtualAddressHeap :=
  { h with m_start_address := min h.m_start_address start
           m_end_address := max h.m_end_address stop }

def setLarge (address : ℕ) (memory_size : Option ℕ) : VirtualAddressHeap :=
  { h with m_large_memory_map := Function.update h.m_large_memory_map address memory_size }

def Create (v : V) (ullAvailPhys : ℕ) : Option (ℕ × VirtualAddressHeap × V) := do
  guard (cSmallMemoryRegionSize ≤ ullAvailPhys)
  let (reserve, v) ← M.MEM_RESERVE v cSmallMemoryRegionSize
  let v ← M.MEM_COMMIT v reserve c4KB
  some (reserve, ⟨reserve, reserve + ullAvailPhys, [reserve], [], fun _ => none,
    fun _ => ⟨1, fun _ => 0⟩⟩, v)

structure Allocation where
  address : ℕ
  stop : ℕ

def Allocation.pages (a : Allocation) : Set ℕ := pagesOf a.address (a.stop - a.address)

def allocateLarge (v : V) (r : Request) : Option (Allocation × VirtualAddressHeap × V) := do
  let (new_address, v) ← M.MEM_RESERVE v r.final_size
  let v ← M.MEM_COMMIT v new_address r.final_size
  some (⟨new_address, new_address + r.final_size⟩,
    (h.setLarge new_address (some r.final_size)).adjustBounds new_address
      (new_address + r.final_size), v)

def search (page_mask : PageMask) (small_page_count : ℕ) : ℕ → ℕ → ℕ
  | 0, i => i
  | fuel + 1, i =>
    if i < cSmallMemoryPageMaskBitCount - 1 then
      let mask_offset := page_mask.setWidth 32 >>> i
      if mask_offset.getLsbD 0 then
        search page_mask small_page_count fuel (i + CountRightOneBits32 mask_offset)
      else
        let max_blocks := cSmallMemoryPageMaskBitCount - 1 - i
        let free_page_count := min max_blocks (CountRightZeroBits32 mask_offset)
        if small_page_count ≤ free_page_count then i
        else search page_mask small_page_count fuel (i + free_page_count)
    else i

def walk (r : Request) : List ℕ → Option (ℕ × Option ℕ)
  | [] => none
  | base :: bases =>
    let page_mask := (h.block base).page_mask
    let free_page_count := CountRightZeroBits32 (page_mask.setWidth 32) &&& 0xf
    if page_mask = 0 ∨ r.small_page_count_first ≤ free_page_count then some (base, none)
    else
      let i :=
        search page_mask r.small_page_count cSmallMemoryPageMaskBitCount (free_page_count + 1)
      if i = cSmallMemoryPageMaskBitCount - 1 then walk r bases else some (base, some i)

def allocateFront (v : V) (r : Request) (base : ℕ) :
    Option (Allocation × VirtualAddressHeap × V) := do
  let v ← if 1 < r.small_page_count_first then
      M.MEM_COMMIT v (base ||| c4KB) ((r.small_page_count_first - 1) <<< 12)
    else some v
  some (⟨base + r.address_base_offset, base + r.small_page_count_first * c4KB⟩,
    (h.setBlock base (r.takeFront (h.block base))).swapFilled base, v)

def allocateBehind (v : V) (r : Request) (base i : ℕ) :
    Option (Allocation × VirtualAddressHeap × V) := do
  let allocation_address := base + i <<< 12
  let v ← M.MEM_COMMIT v allocation_address (r.small_page_count <<< 12)
  let block := ((h.block base).usePages (lowBits r.small_page_count <<< i)).setSize i
    r.small_page_count
  some (⟨allocation_address, allocation_address + r.small_page_count * c4KB⟩,
    (h.setBlock base block).swapFilled base, v)

def allocateRegion (v : V) (r : Request) : Option (Allocation × VirtualAddressHeap × V) := do
  let (reserve, v) ← M.MEM_RESERVE v cSmallMemoryRegionSize
  let v ← M.MEM_COMMIT v reserve (r.small_page_count_first <<< 12)
  let h := h.setBlock reserve (r.takeFront ⟨0, fun _ => 0⟩)
  let h := if (h.block reserve).page_mask = cMaxPageMask then h.pushFilled reserve
    else h.pushFree reserve
  some (⟨reserve + r.address_base_offset, reserve + r.small_page_count_first * c4KB⟩,
    h.adjustBounds reserve (reserve + r.small_page_count_first <<< 12), v)

def TryAllocate (v : V) (size alignment : BitVec 64) :
    Option (Allocation × VirtualAddressHeap × V) :=
  let r := Request.of size alignment
  if r.Large then h.allocateLarge M v r
  else match h.walk r h.m_free_small_memory_list with
    | some (base, none) => h.allocateFront M v r base
    | some (base, some i) => h.allocateBehind M v r base i
    | none => h.allocateRegion M v r

def Free (v : V) (address : ℕ) : Option (VirtualAddressHeap × V) := do
  if address &&& (cSmallMemoryRegionSize - 1) = 0 then
    let v ← M.MEM_RELEASE v address
    some (h.setLarge address none, v)
  else
    let base_address := address / cSmallMemoryRegionSize * cSmallMemoryRegionSize
    let base_offset := (address >>> 12) &&& 0xf
    let alloc_size := (h.block base_address).size address
    if alloc_size = 0 ∨ 0x10 < base_offset + alloc_size then none
    else
      let last_page_mask := (h.block base_address).page_mask
      let h := h.setBlock base_address
        ((h.block base_address).clearPages (lowBits alloc_size <<< base_offset))
      if (h.block base_address).page_mask = 0 then
        let v ← M.MEM_RELEASE v base_address
        some (if last_page_mask = cMaxPageMask then h.removeFilled base_address
          else h.removeFree base_address, v)
      else
        let h := h.swapFree base_address last_page_mask
        if base_offset = 0 then
          if alloc_size < 2 then some (h, v)
          else
            let v ← M.MEM_DECOMMIT v (base_address ||| c4KB) ((alloc_size - 1) <<< 12)
            some (h, v)
        else
          let v ← M.MEM_DECOMMIT v (base_address ||| base_offset <<< 12) (alloc_size <<< 12)
          some (h, v)

def GetSizeOfAllocation (address : ℕ) : Option ℕ :=
  if address &&& 0xffff = 0 then h.m_large_memory_map address
  else
    let base_address := address / cSmallMemoryRegionSize * cSmallMemoryRegionSize
    let base_offset := (address >>> 12) &&& 0xf
    let alloc_count := (h.block base_address).size address
    some (if alloc_count = 0 ∨ 0x10 < alloc_count + base_offset then 0 else alloc_count <<< 12)

structure Adjusted (V : Type) where
  size : ℕ
  stop : Option ℕ
  heap : VirtualAddressHeap
  memory : V

def aligned_new_size (new_size : BitVec 64) : ℕ :=
  (alignUp (new_size + BitVec.ofNat 64 cLargeMemoryBlockSize) 0x1000).toNat

def new_block_count (new_size : BitVec 64) : ℕ := (alignUp new_size 0x1000 >>> 12).toNat % 2 ^ 32

def adjustLarge (v : V) (address : ℕ) (new_size : BitVec 64) : Option (Adjusted V) := do
  let old_size ← h.m_large_memory_map address
  let aligned_new_size := aligned_new_size new_size
  if old_size ≤ aligned_new_size ∧ old_size ≠ aligned_new_size then
    some ⟨old_size, none, h, v⟩
  else
    let v ← M.MEM_DECOMMIT v (address + aligned_new_size) (old_size - aligned_new_size)
    some ⟨new_size.toNat, some (address + aligned_new_size),
      (h.setLarge address none).setLarge address (some aligned_new_size), v⟩

def adjustSmall (v : V) (address : ℕ) (new_size : BitVec 64) : Option (Adjusted V) :=
  let base_address := address / cSmallMemoryRegionSize * cSmallMemoryRegionSize
  let base_offset := (address >>> 12) &&& 0xf
  let alloc_size := (h.block base_address).size address
  if alloc_size = 0 ∨ 0x10 < base_offset + alloc_size then some ⟨alloc_size <<< 12, none, h, v⟩
  else
    let new_block_count := new_block_count new_size
    if new_block_count = 0 then some ⟨0, none, h, v⟩
    else
      let free_count := alloc_size - new_block_count
      if free_count = 0 ∨ alloc_size < new_block_count then
        some ⟨alloc_size <<< 12, none, h, v⟩
      else do
        let v ← M.MEM_DECOMMIT v (address + (base_offset + new_block_count) <<< 12)
          (free_count <<< 12)
        let last_page_mask := (h.block base_address).page_mask
        let block := ((h.block base_address).setSize base_offset new_block_count).clearPages
          (lowBits (free_count &&& 0x1f) <<< ((base_offset + new_block_count) &&& 0x1f))
        some ⟨new_size.toNat, some (base_address + (base_offset + new_block_count) * c4KB),
          (h.setBlock base_address block).swapFree base_address last_page_mask, v⟩

def AdjustAllocation (v : V) (address : ℕ) (new_size : BitVec 64) : Option (Adjusted V) :=
  if address &&& (cSmallMemoryRegionSize - 1) = 0 then h.adjustLarge M v address new_size
  else h.adjustSmall M v address new_size

structure State (V : Type) where
  heap : VirtualAddressHeap
  home : ℕ
  memory : V
  live : List Allocation
  freed : Set ℕ

inductive Call
  | TryAllocate (size : BitVec 64) (k : ℕ)
  | Free (address : ℕ)
  | AdjustAllocation (address : ℕ) (new_size : BitVec 64)
  | GetSizeOfAllocation (address : ℕ)

def Call.Allowed (s : State V) : Call → Prop
  | .TryAllocate _ k => k < 31
  | .Free address => ∃ a ∈ s.live, a.address = address
  | .AdjustAllocation address _ => ∃ a ∈ s.live, a.address = address
  | .GetSizeOfAllocation address => ∃ a ∈ s.live, a.address = address

def State.next (s : State V) (heap : VirtualAddressHeap) (v : V) (live : List Allocation) :
    State V :=
  ⟨heap, s.home, v, live, M.committed s.memory \ M.committed v⟩

def cut (address : ℕ) (stop : Option ℕ) (a : Allocation) : Allocation :=
  if a.address = address then { a with stop := stop.getD a.stop } else a

def State.step (s : State V) : Call → Option (State V)
  | .TryAllocate size k => do
    let (a, heap, v) ← s.heap.TryAllocate M s.memory size (BitVec.ofNat 64 (2 ^ k))
    some (s.next M heap v (a :: s.live))
  | .Free address => do
    let (heap, v) ← s.heap.Free M s.memory address
    some (s.next M heap v (s.live.filter (·.address ≠ address)))
  | .AdjustAllocation address new_size => do
    let r ← s.heap.AdjustAllocation M s.memory address new_size
    some (s.next M r.heap r.memory (s.live.map (cut address r.stop)))
  | .GetSizeOfAllocation address => do
    let _ ← s.heap.GetSizeOfAllocation address
    some (s.next M s.heap s.memory s.live)

inductive Reaches (P : State V → Call → Prop) : State V → Prop
  | create {v v' : V} {ullAvailPhys home : ℕ} {heap : VirtualAddressHeap}
      (h : Create M v ullAvailPhys = some (home, heap, v')) : Reaches P ⟨heap, home, v', [], ∅⟩
  | step {s s' : State V} {c : Call} (h : Reaches P s) (hallowed : c.Allowed s) (hmeets : P s c)
      (hstep : s.step M c = some s') : Reaches P s'

end VirtualAddressHeap

end Awn
