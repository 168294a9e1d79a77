import Awn.Memory.Buffer

/-!
`awn::mem::ExpHeap`. A block is given by its header and where that is, and the two lists by their
blocks in order. The calls hold the lock of the heap.
-/

namespace Awn

open Memory

structure ExpHeapMemoryBlock where
  address : BitVec 64
  alloc_magic : BitVec 16
  alignment : BitVec 8
  block_size : BitVec 64
  deriving DecidableEq

inductive AllocationMode
  | FirstFit
  | BestFit

structure ExpHeap where
  m_start_address : BitVec 64
  m_end_address : BitVec 64
  m_free_block_list : List ExpHeapMemoryBlock
  m_allocated_block_list : List ExpHeapMemoryBlock
  m_allocation_mode : AllocationMode

namespace ExpHeapMemoryBlock

def cFreeMagic : BitVec 16 := 0x5246
def cAllocMagic : BitVec 16 := 0x4455

variable (block : ExpHeapMemoryBlock)

def start : BitVec 64 := block.address + 0x20

def stop : BitVec 64 := block.address + block.block_size + 0x20

def free (address block_size : BitVec 64) : ExpHeapMemoryBlock :=
  ⟨address, cFreeMagic, 0, block_size⟩

end ExpHeapMemoryBlock

namespace ExpHeap

variable (h : ExpHeap)

def coalesceBack (new_end : BitVec 64) :
    List ExpHeapMemoryBlock → BitVec 64 × List ExpHeapMemoryBlock
  | [] => (new_end, [])
  | next_block :: after =>
    if new_end = next_block.address then (next_block.stop, after)
    else (new_end, next_block :: after)

def coalesceFront (new_start : BitVec 64) (before : List ExpHeapMemoryBlock) :
    BitVec 64 × List ExpHeapMemoryBlock :=
  match before.getLast? with
  | none => (new_start, before)
  | some prev_block =>
    if new_start = prev_block.stop then (prev_block.address, before.dropLast)
    else (new_start, before)

def AddFreeBlock (new_start new_end : BitVec 64) : Bool × ExpHeap :=
  let before := h.m_free_block_list.takeWhile fun block => block.address < new_start
  let after := h.m_free_block_list.dropWhile fun block => block.address < new_start
  let front := coalesceFront new_start before
  match before.getLast?.filter fun block => after.isEmpty && new_end = block.address with
  | some block => (0x20 ≤ block.stop - front.1, { h with m_free_block_list := before.dropLast })
  | none =>
    let back := coalesceBack new_end after
    let new_size := back.1 - front.1
    if new_size < 0x20 then (false, { h with m_free_block_list := front.2 ++ back.2 })
    else
      (true, { h with m_free_block_list := front.2 ++ .free front.1 (new_size - 0x20) :: back.2 })

def replaceFree (free_block : ExpHeapMemoryBlock) (new_blocks : List ExpHeapMemoryBlock) :
    ExpHeap :=
  { h with
    m_free_block_list := h.m_free_block_list.flatMap fun block =>
      if block.address = free_block.address then new_blocks else [block] }

def AddUsedBlock (free_block : ExpHeapMemoryBlock) (allocation_address size : BitVec 64) :
    ExpHeap :=
  let new_free_address := allocation_address + size
  let new_free_total_size := free_block.stop - new_free_address
  let used_start_address := allocation_address - 0x20
  let used_alignment := used_start_address - free_block.address
  let front := 0x24 ≤ used_alignment
  let back := 0x24 ≤ new_free_total_size
  let new_blocks :=
    (if front then [.free free_block.address (used_alignment - 0x20)] else []) ++
      if back then [.free new_free_address (new_free_total_size - 0x20)] else []
  let used_block :=
    { address := used_start_address
      alloc_magic := ExpHeapMemoryBlock.cAllocMagic
      alignment := if front then 0 else used_alignment.setWidth 8
      block_size := size + if back then 0 else new_free_total_size }
  { h.replaceFree free_block new_blocks with
    m_allocated_block_list := h.m_allocated_block_list ++ [used_block] }

def TryCreate (address size : BitVec 64) : ExpHeap where
  m_start_address := address + 0xa0
  m_end_address := address + 0xa0 + (size - 0xa0)
  m_free_block_list := [.free (address + 0xa0) (size - 0xc0)]
  m_allocated_block_list := []
  m_allocation_mode := .BestFit

def GetTotalSize : BitVec 64 := h.m_end_address - h.m_start_address

def enforceAlignment (alignment : BitVec 32) : BitVec 64 :=
  if alignment.slt 4 then 4 else alignment.signExtend 64

def GetMaximumAllocatableSizeUnsafe (alignment : BitVec 64) : BitVec 64 :=
  h.m_free_block_list.foldl (fun max_free_size block =>
    let block_end := block.start + block.block_size
    let align_start := alignUp block.start alignment
    let size := block_end - align_start
    if align_start ≤ block_end ∧ max_free_size < size then size else max_free_size) 0

def GetMaximumAllocatableSize (alignment : BitVec 32) : BitVec 64 :=
  h.GetMaximumAllocatableSizeUnsafe (enforceAlignment alignment)

def alignedAllocationSize (aligned_size alignment : BitVec 64) (block : ExpHeapMemoryBlock) :
    BitVec 64 :=
  aligned_size - 0x20 - block.address + alignUp block.start alignment

def firstFit (aligned_size alignment : BitVec 64) :
    List ExpHeapMemoryBlock → Option (ExpHeapMemoryBlock × BitVec 64)
  | [] => none
  | block :: blocks =>
    let allocation_address := alignUp block.start alignment
    if alignedAllocationSize aligned_size alignment block ≤ block.block_size then
      some (block, allocation_address)
    else firstFit aligned_size alignment blocks

def bestFit (aligned_size alignment : BitVec 64) :
    List ExpHeapMemoryBlock → BitVec 64 → Option ExpHeapMemoryBlock → BitVec 64 → BitVec 64 →
      Option (ExpHeapMemoryBlock × BitVec 64)
  | [], _, smaller_block, _, allocation_address =>
    smaller_block.map fun block => (block, allocation_address)
  | block :: blocks, smaller_size, smaller_block, smaller_address, _ =>
    let allocation_address := alignUp block.start alignment
    if block.block_size < smaller_size ∧
        alignedAllocationSize aligned_size alignment block ≤ block.block_size then
      if block.block_size = aligned_size then some (block, allocation_address)
      else
        bestFit aligned_size alignment blocks block.block_size (some block) allocation_address
          allocation_address
    else
      bestFit aligned_size alignment blocks smaller_size smaller_block smaller_address
        smaller_address

def findBlock (aligned_size alignment : BitVec 64) : Option (ExpHeapMemoryBlock × BitVec 64) :=
  match h.m_allocation_mode with
  | .FirstFit => firstFit aligned_size alignment h.m_free_block_list
  | .BestFit => bestFit aligned_size alignment h.m_free_block_list 0xffffffffffffffff none 0 0

def alignedSize (size alignment : BitVec 64) : BitVec 64 :=
  if size ≠ 0 then alignUp size alignment else h.GetMaximumAllocatableSizeUnsafe alignment

/-- The callback of a heap that is out of memory gives up. The address `0` is `nullptr`. -/
def TryAllocate (size : BitVec 64) (alignment : BitVec 32) : BitVec 64 × ExpHeap :=
  if h.m_free_block_list.isEmpty then (0, h)
  else
    let alignment := enforceAlignment alignment
    let aligned_size := h.alignedSize size alignment
    match h.findBlock aligned_size alignment with
    | none => (0, h)
    | some (free_block, allocation_address) =>
      (allocation_address, h.AddUsedBlock free_block allocation_address aligned_size)

def usedBlock (address : BitVec 64) : Option ExpHeapMemoryBlock :=
  h.m_allocated_block_list.find? fun block => block.address = address - 0x20

def IsAddressAllocation (address : BitVec 64) : Bool := (h.usedBlock address).isSome

def Free (address : BitVec 64) : ExpHeap :=
  match h.usedBlock address with
  | none => h
  | some block =>
    let unlinked :=
      { h with
        m_allocated_block_list :=
          h.m_allocated_block_list.filter fun used_block => used_block.address ≠ block.address }
    (unlinked.AddFreeBlock (block.address - block.alignment.setWidth 64)
      (address + block.block_size)).2

def setBlockSize (block : ExpHeapMemoryBlock) (block_size : BitVec 64) : ExpHeap :=
  { h with
    m_allocated_block_list := h.m_allocated_block_list.map fun used_block =>
      if used_block.address = block.address then { used_block with block_size } else used_block }

def adjustBlock (block : ExpHeapMemoryBlock) (address new_size : BitVec 64) :
    BitVec 64 × ExpHeap :=
  if block.block_size = new_size then (new_size, h)
  else if new_size < block.block_size then
    (new_size,
      (h.AddFreeBlock (address + new_size) (address + block.block_size)).2.setBlockSize block
        new_size)
  else
    let end_address := address + block.block_size
    match h.m_free_block_list.find? fun free_block => free_block.address = end_address with
    | none => (block.block_size, h)
    | some block_after =>
      let after_size := block_after.block_size + 0x20
      if new_size < after_size + block.block_size then (block.block_size, h)
      else
        let new_end_address := block_after.address + after_size
        let new_free := address + new_size + 0x20
        let new_free_size := new_end_address - new_free
        let new_free := if 0x20 ≤ new_free_size then new_free - new_free_size else new_free
        let new_blocks : List ExpHeapMemoryBlock :=
          if 0x20 ≤ new_free_size then [.free new_free new_free_size] else []
        (new_size, (h.replaceFree block_after new_blocks).setBlockSize block (new_free - address))

def AdjustAllocation (address new_size : BitVec 64) : Option (BitVec 64 × ExpHeap) :=
  (h.usedBlock address).map fun block => h.adjustBlock block address (alignUp new_size 4)

structure ParentHeap (P : Type*) where
  allocated : P → BitVec 64
  IsAddressAllocation : P → Bool
  AdjustAllocation : P → BitVec 64 → BitVec 64 × P

variable {P : Type*} (parents : ParentHeap P) (m_parent_heap : Option P)

structure MemoryRange where
  address : BitVec 64
  size : BitVec 64

def AdjustHeap : MemoryRange × ExpHeap × Option P :=
  let heap_size := h.GetTotalSize + 0xa0
  match h.m_free_block_list.getLast? with
  | none => (⟨h.m_end_address, 0⟩, h, m_parent_heap)
  | some last_block =>
    let trimed_size := 0x20 + last_block.block_size
    if last_block.address + trimed_size ≠ h.m_end_address then
      (⟨h.m_end_address, 0⟩, h, m_parent_heap)
    else
      (⟨h.m_end_address - trimed_size, trimed_size⟩,
        { h with
          m_free_block_list := h.m_free_block_list.dropLast
          m_end_address := h.m_end_address - trimed_size },
        m_parent_heap.map fun p => (parents.AdjustAllocation p (heap_size - trimed_size)).2)

def endBlock : ExpHeapMemoryBlock where
  address := h.m_start_address - 0x28
  alloc_magic := 0
  alignment := 0
  block_size :=
    match h.m_free_block_list with
    | [] => h.m_start_address - 0x28
    | block :: _ => block.address + 0x10

def resizeParent (is_root : Bool) (new_size : BitVec 64) : Bool × Option P :=
  if is_root then (true, m_parent_heap)
  else
    match m_parent_heap with
    | none => (false, none)
    | some p =>
      if parents.IsAddressAllocation p then
        let r := parents.AdjustAllocation p (0xa0 + new_size)
        (r.1 = new_size, some r.2)
      else (false, some p)

def ResizeHeapBack (is_root : Bool) (new_size : BitVec 64) : BitVec 64 × ExpHeap × Option P :=
  let new_size := alignUp new_size 4
  let heap_size := h.GetTotalSize
  let last_free_block := h.m_allocated_block_list.getLast?.getD h.endBlock
  let last_free_end := last_free_block.address + last_free_block.block_size
  if new_size = heap_size then (heap_size, h, m_parent_heap)
  else if new_size < heap_size then
    let free_size := last_free_block.block_size + 0x20
    let delta_space := heap_size - new_size
    if last_free_end ≠ h.m_end_address ∨ free_size < delta_space then (heap_size, h, m_parent_heap)
    else if delta_space = free_size then
      (new_size,
        { h with
          m_allocated_block_list := h.m_allocated_block_list.dropLast
          m_end_address := last_free_block.address },
        m_parent_heap)
    else
      let last_free_end := last_free_end - delta_space
      (new_size,
        { (h.AddFreeBlock last_free_block.address last_free_end).2 with
          m_end_address := last_free_end },
        m_parent_heap)
  else
    let last_free_start :=
      if last_free_end = h.m_end_address then last_free_block.address else h.m_end_address
    let new_end := h.m_start_address + new_size
    let r := resizeParent parents m_parent_heap is_root new_size
    if r.1 then
      (new_size, { (h.AddFreeBlock last_free_start new_end).2 with m_end_address := new_end }, r.2)
    else (heap_size, h, r.2)

end ExpHeap

end Awn
