import Awn.Crc32.Hash
import Awn.IndexAllocator.Plain
import Awn.IntrusiveTree.Run
import Awn.SeparateHeap.Heap

namespace Awn

open IntrusiveTree

inductive TextureMemory
  | heap (offset : BitVec 64)
  | gpu (gpu_texture_memory : BitVec 64)

structure TextureViewInfo (V : Type) where
  texture : Option ℕ
  settings : V

/-- An object is `none` before it is initialized and once it is finalized. -/
structure TextureNode (I V : Type) where
  reference_count : BitVec 32
  separate_memory : BitVec 64
  texture : Option (TextureMemory × I)
  texture_view : Option (TextureViewInfo V)

abbrev SamplerInfo := Fin 0x20 → BitVec 8

structure SamplerNode where
  reference_count : BitVec 32
  handle : BitVec 32
  sampler : Option SamplerInfo

structure TextureSamplerManager (I V : Type) where
  m_separate_heap : SeparateHeap
  m_texture_handle_table : FixedAtomicIndexAllocator 16
  m_texture_array : ℕ → TextureNode I V
  m_sampler_map : IntrusiveRedBlackTree (Fin (2 ^ 32))
  m_sampler_handle_table : FixedAtomicIndexAllocator 16
  m_sampler_array : ℕ → SamplerNode

namespace TextureSamplerManager

def cTargetMaxTextureDescriptorCount : ℕ := 0x2000

def cTargetMaxSamplerDescriptorCount : ℕ := 0xfa0

def cInvalidMemoryOffset : BitVec 64 := BitVec.allOnes 64

def cOffsetBase : BitVec 64 := 0x10000

def HashSampler (sampler_info : SamplerInfo) : Fin (2 ^ 32) :=
  (Crc32.hashDataCrc32bWithContext (fun i => sampler_info (Fin.ofNat 0x20 i)) 0xffffffff 0
    0x20).toFin

variable {I V : Type}

local instance hashes_ne : NeZero (2 ^ 32) := ⟨by decide⟩

def create (heap : SeparateHeap) : TextureSamplerManager I V where
  m_separate_heap := heap
  m_texture_handle_table := .cleared cTargetMaxTextureDescriptorCount
  m_texture_array := fun _ => ⟨0, cInvalidMemoryOffset, none, none⟩
  m_sampler_map := ⟨none, fun _ => ⟨none, none, none, .black, 0⟩⟩
  m_sampler_handle_table := .cleared cTargetMaxSamplerDescriptorCount
  m_sampler_array := fun _ => ⟨0, 0, none⟩

def setTexture (m : TextureSamplerManager I V) (slot : ℕ) (node : TextureNode I V) :
    TextureSamplerManager I V :=
  { m with m_texture_array := Function.update m.m_texture_array slot node }

def setSampler (m : TextureSamplerManager I V) (slot : ℕ) (node : SamplerNode) :
    TextureSamplerManager I V :=
  { m with m_sampler_array := Function.update m.m_sampler_array slot node }

def registerTexture (m : TextureSamplerManager I V) (separate_memory : Option (BitVec 64))
    (memory : TextureMemory) (texture_info : I) (texture_view_info : Option (TextureViewInfo V)) :
    Option (BitVec 64 × TextureSamplerManager I V) :=
  let (texture_handle, table) := m.m_texture_handle_table.Allocate
  if texture_handle = FixedAtomicIndexAllocator.cInvalidHandle 16 then none
  else
    let slot := texture_handle.toNat
    let node := m.m_texture_array slot
    let m := { m with m_texture_handle_table := table }
    some (texture_handle.setWidth 64, m.setTexture slot
      { reference_count := 1
        separate_memory := separate_memory.getD node.separate_memory
        texture := some (memory, texture_info)
        texture_view := match texture_view_info with
          | none => node.texture_view
          | some view => some { view with texture := some slot } })

def viewUnset (texture_view_info : Option (TextureViewInfo V)) : Bool :=
  match texture_view_info with
  | none => true
  | some view => view.texture.isNone

/-- The first overload, `none` where an assertion fails. -/
def RegisterTextureView (m : TextureSamplerManager I V) (GetMemoryRequirements : I → BitVec 64 × BitVec 64)
    (fuel : ℕ) (texture_info : I) (texture_view_info : Option (TextureViewInfo V)) :
    Option (BitVec 64 × TextureSamplerManager I V) :=
  if viewUnset texture_view_info then
    let requirements := GetMemoryRequirements texture_info
    match m.m_separate_heap.TryAllocate fuel requirements.1 (requirements.2.setWidth 32) with
    | some (some separate_address, heap) =>
      let offset := separate_address - cOffsetBase
      { m with m_separate_heap := heap }.registerTexture (some offset) (.heap offset) texture_info
        texture_view_info
    | _ => none
  else none

def RegisterTextureViewIn (m : TextureSamplerManager I V) (gpu_texture_memory : BitVec 64)
    (texture_info : I) (texture_view_info : Option (TextureViewInfo V)) :
    Option (BitVec 64 × TextureSamplerManager I V) :=
  if viewUnset texture_view_info then
    m.registerTexture none (.gpu gpu_texture_memory) texture_info texture_view_info
  else none

def ReferenceTextureView (m : TextureSamplerManager I V) (texture_slot : BitVec 64) :
    Option (BitVec 64 × TextureSamplerManager I V) :=
  let node := m.m_texture_array texture_slot.toNat
  let last_value := node.reference_count + 1
  if last_value = 0 then none
  else some (texture_slot, m.setTexture texture_slot.toNat { node with reference_count := last_value })

def UnregisterTextureView (m : TextureSamplerManager I V) (fuel : ℕ) (texture_slot : BitVec 64) :
    Option (TextureSamplerManager I V) :=
  let node := m.m_texture_array texture_slot.toNat
  let last_value := node.reference_count - 1
  let node := { node with reference_count := last_value }
  if last_value ≠ 1 then some (m.setTexture texture_slot.toNat node)
  else
    let heap := if node.separate_memory ≠ cInvalidMemoryOffset then
      m.m_separate_heap.Free fuel (node.separate_memory + cOffsetBase)
      else some m.m_separate_heap
    heap.map fun heap =>
      { m.setTexture texture_slot.toNat { node with texture := none, texture_view := none } with
        m_separate_heap := heap
        m_texture_handle_table := m.m_texture_handle_table.Free (texture_slot.setWidth 16) }

/-- Settings that are not in the map are never registered: the handle is to be the invalid one, and
it is then written through a null pointer. -/
def RegisterSampler (m : TextureSamplerManager I V) (fuel : ℕ) (sampler_info : SamplerInfo) :
    Option (BitVec 64 × TextureSamplerManager I V) :=
  match find fuel m.m_sampler_map (HashSampler sampler_info) with
  | .ok (some slot) =>
    let node := m.m_sampler_array slot
    some (node.handle.setWidth 64,
      m.setSampler slot { node with reference_count := node.reference_count + 1 })
  | _ => none

def ReferenceSampler (m : TextureSamplerManager I V) (sampler_slot : BitVec 64) :
    Option (BitVec 64 × TextureSamplerManager I V) :=
  let node := m.m_sampler_array sampler_slot.toNat
  let last_value := node.reference_count + 1
  if last_value = 0 then none
  else some (sampler_slot, m.setSampler sampler_slot.toNat { node with reference_count := last_value })

def UnregisterSampler (m : TextureSamplerManager I V) (fuel : ℕ) (sampler_slot : BitVec 64) :
    Option (TextureSamplerManager I V) :=
  let node := m.m_sampler_array sampler_slot.toNat
  let last_value := node.reference_count - 1
  let node := { node with reference_count := last_value }
  if last_value ≠ 1 then some (m.setSampler sampler_slot.toNat node)
  else
    match remove fuel m.m_sampler_map sampler_slot.toNat with
    | .ok map => some
      { m.setSampler sampler_slot.toNat { node with sampler := none } with
        m_sampler_map := map
        m_sampler_handle_table := m.m_sampler_handle_table.Free (sampler_slot.setWidth 16) }
    | .error _ => none

end TextureSamplerManager

end Awn
