import Awn.IntrusiveList.Insert
import Awn.Memory.Buffer

namespace Awn

/-- Management blocks are given by their addresses, and `none` is the node of the used list itself.
The first word of a block is its `block_offset` while it is used and its `next` while it is free. -/
structure SeparateHeap where
  m_start_address : BitVec 64
  m_end_address : BitVec 64
  m_used_block_list : Links (Option (BitVec 64))
  m_management_free_list_start : BitVec 64
  m_total_management_block_count : BitVec 32
  m_management_area_start : BitVec 64
  word : BitVec 64 → BitVec 64
  block_size : BitVec 64 → BitVec 64

namespace SeparateHeap

open Memory

def blockAddress (management_start : BitVec 64) (i : ℕ) : BitVec 64 :=
  management_start + 0x20 * BitVec.ofNat 64 i

def linkBlocks (management_start : BitVec 64) (memory : BitVec 64 → BitVec 64) :
    ℕ → BitVec 64 → BitVec 64
  | 0 => memory
  | i + 1 => Function.update (linkBlocks management_start memory i)
      (blockAddress management_start i) (blockAddress management_start (i + 1))

def create (heap_start heap_size management_start management_size : BitVec 64)
    (memory : BitVec 64 → BitVec 64) : SeparateHeap :=
  let count := (management_size / 0x20).setWidth 32
  { m_start_address := heap_start
    m_end_address := heap_start + heap_size
    m_used_block_list := .alone
    m_management_free_list_start := management_start
    m_total_management_block_count := count
    m_management_area_start := management_start
    word := linkBlocks management_start memory (count - 1).toNat
    block_size := memory }

def findOffset (h : SeparateHeap) (size alignment : BitVec 64) :
    ℕ → Option (BitVec 64) → Option (BitVec 64) → BitVec 64 →
      Option (Option (BitVec 64) × BitVec 64)
  | 0, _, _, _ => none
  | _ + 1, none, prev_block, new_offset => some (prev_block, new_offset)
  | fuel + 1, some block, prev_block, new_offset =>
    if size ≤ h.word block - new_offset then some (some block, new_offset)
    else findOffset h size alignment fuel (h.m_used_block_list.next (some block)) prev_block
      (alignUp (h.block_size block + h.word block) alignment)

def insertBlock (h : SeparateHeap) (prev_block : Option (BitVec 64)) (new_offset size : BitVec 64) :
    SeparateHeap :=
  let new_block := h.m_management_free_list_start
  let word := Function.update h.word new_block 0
  let links := (h.m_used_block_list.setPrev (some new_block) (some new_block)).setNext
    (some new_block) (some new_block)
  { h with
    m_management_free_list_start := word new_block
    m_used_block_list := links.linkNext prev_block (some new_block)
    word := Function.update word new_block new_offset
    block_size := Function.update h.block_size new_block size }

/-- The result is the returned pointer, `none` being `nullptr`; the whole is `none` where the
assertion fails. -/
def TryAllocate (h : SeparateHeap) (fuel : ℕ) (size : BitVec 64) (alignment : BitVec 32) :
    Option (Option (BitVec 64) × SeparateHeap) :=
  if h.m_management_free_list_start = 0 then none
  else
    let alignment := alignment.signExtend 64
    (h.findOffset size alignment fuel (h.m_used_block_list.next none)
      (h.m_used_block_list.prev none) (alignUp h.m_start_address alignment)).map fun found =>
        if h.m_end_address < found.2 then (none, h)
        else (some found.2, h.insertBlock found.1 found.2 size)

def findBlock (h : SeparateHeap) (address : BitVec 64) :
    ℕ → Option (BitVec 64) → Option (Option (BitVec 64))
  | 0, _ => none
  | _ + 1, none => some none
  | fuel + 1, some block =>
    if h.word block = address then some (some block)
    else findBlock h address fuel (h.m_used_block_list.next (some block))

def Free (h : SeparateHeap) (fuel : ℕ) (address : BitVec 64) : Option SeparateHeap :=
  (h.findBlock address fuel (h.m_used_block_list.next none)).map fun
    | none => h
    | some block =>
      { h with
        m_used_block_list := h.m_used_block_list.unlink (some block)
        word := Function.update h.word block h.m_management_free_list_start
        m_management_free_list_start := block }

structure Allocation where
  offset : BitVec 64
  size : BitVec 64
  alignment : ℕ

structure State where
  heap : SeparateHeap
  live : List Allocation

inductive Call
  | TryAllocate (size : BitVec 64) (alignment : BitVec 32)
  | Free (address : BitVec 64)

inductive Step : State → Call → State → Prop
  | allocate {s : State} {size : BitVec 64} {k fuel : ℕ} {r : Option (BitVec 64) × SeparateHeap} :
      size ≠ 0 → k < 31 →
      s.heap.TryAllocate fuel size (BitVec.ofNat 32 (2 ^ k)) = some r →
      Step s (.TryAllocate size (BitVec.ofNat 32 (2 ^ k)))
        ⟨r.2, r.1.elim s.live fun o => ⟨o, size, 2 ^ k⟩ :: s.live⟩
  | free {s : State} {a : Allocation} {live : List Allocation} {fuel : ℕ} {h : SeparateHeap} :
      s.live.Perm (a :: live) → s.heap.Free fuel a.offset = some h → Step s (.Free a.offset) ⟨h, live⟩

def blocks (h : SeparateHeap) : List (BitVec 64) :=
  (List.range h.m_total_management_block_count.toNat).map (blockAddress h.m_management_area_start)

def FreeList (word : BitVec 64 → BitVec 64) : BitVec 64 → List (BitVec 64) → Prop
  | start, [] => start = 0
  | start, block :: rest => start = block ∧ block ≠ 0 ∧ FreeList word (word block) rest

def Apart (o size o' size' : BitVec 64) : Prop :=
  o.toNat + size.toNat ≤ o'.toNat ∨ o'.toNat + size'.toNat ≤ o.toNat

structure Shape (s : State) (used free : List (BitVec 64)) : Prop where
  ring : s.heap.m_used_block_list.Ring none (used.map some)
  freeList : FreeList s.heap.word s.heap.m_management_free_list_start free
  all : (used ++ free).Perm s.heap.blocks
  live : (used.map fun block => (s.heap.word block, s.heap.block_size block)).Perm
    (s.live.map fun a => (a.offset, a.size))
  ascending : used.Pairwise fun block block' => s.heap.word block < s.heap.word block'
  inside : ∀ a ∈ s.live, s.heap.m_start_address ≤ a.offset ∧
    a.offset.toNat + a.size.toNat ≤ s.heap.m_end_address.toNat
  aligned : ∀ a ∈ s.live, a.alignment ∣ a.offset.toNat
  apart : s.live.Pairwise fun a a' => Apart a.offset a.size a'.offset a'.size

def Gap (s : State) (o size : BitVec 64) (alignment : ℕ) : Prop :=
  s.heap.m_start_address ≤ o ∧ o.toNat + size.toNat ≤ s.heap.m_end_address.toNat ∧
    alignment ∣ o.toNat ∧ ∀ a ∈ s.live, Apart o size a.offset a.size

/-- `TryAllocate` returns, and returns `nullptr` where nothing fits. -/
def Answers (s : State) (size : BitVec 64) (k : ℕ) : Prop :=
  ∃ fuel r, s.heap.TryAllocate fuel size (BitVec.ofNat 32 (2 ^ k)) = some r ∧
    ((∀ o, ¬Gap s o size (2 ^ k)) → r = (none, s.heap))

inductive Run (initial : SeparateHeap → Prop) (allowed : State → Call → Prop) : State → Prop
  | start {heap_start heap_size management_start management_size : BitVec 64}
      {memory : BitVec 64 → BitVec 64} : management_start ≠ 0 →
      management_start.toNat + management_size.toNat ≤ 2 ^ 64 →
      initial (create heap_start heap_size management_start management_size memory) →
      Run initial allowed
        ⟨create heap_start heap_size management_start management_size memory, []⟩
  | step {s s' : State} {c : Call} : Run initial allowed s → allowed s c → Step s c s' →
      Run initial allowed s'

end SeparateHeap

end Awn
