import Awn.IntrusiveTree.Refinement
import Awn.ResourceSizeTable.Table

/-!
`vp::resbui::ResourceSizeTableBuilder`. An address of a `ResourceSizeNode` stands for both of the
tree nodes in it, and the memory of the nodes is apart from that of strings and files.
-/

namespace Awn.ResourceSizeTable

open IntrusiveTree Memory
open Sarc (read16 read32 clear)

structure ResourceSizeTableBuilder where
  m_crc32_entry_list : IntrusiveRedBlackTree (Fin (2 ^ 32))
  m_collision_entry_list : IntrusiveRedBlackTree ℕ
  size : Addr → BitVec 32

def hashPath (m : Bytes) (fuel path : ℕ) : Except Fault (Fin (2 ^ 32)) :=
  match Crc32.hashCrc32b m false fuel path with
  | none => .error .outOfFuel
  | some hash => .ok hash.toFin

def IsLinked {K : Type} (list : IntrusiveRedBlackTree K) (node : Addr) : Bool :=
  (list.node node).parent = none && (list.node node).left = none && (list.node node).right = none

def nodes {K : Type} (fuel : ℕ) (list : IntrusiveRedBlackTree K) : Except Fault (List Addr) :=
  (begin fuel list).bind (walk fuel list fuel)

def strncpy (m : Bytes) (destination source : ℕ) : ℕ → Bytes
  | 0 => m
  | n + 1 =>
    if m source = 0 then clear m destination (n + 1)
    else strncpy (Function.update m destination (m source)) (destination + 1) (source + 1) n

namespace ResourceSizeTableBuilder

local instance hashes_ne : NeZero (2 ^ 32) := ⟨by decide⟩

def constructed : ResourceSizeTableBuilder where
  m_crc32_entry_list := ⟨none, fun _ => ⟨none, none, none, .red, 0⟩⟩
  m_collision_entry_list := ⟨none, fun _ => ⟨none, none, none, .red, 0⟩⟩
  size _ := 0

variable (s : ResourceSizeTableBuilder) (m : Bytes) (fuel : ℕ)

def withNode (node : Addr) (path_crc32 : Fin (2 ^ 32)) (file_path : ℕ) (resource_size : BitVec 32) :
    ResourceSizeTableBuilder where
  m_crc32_entry_list := s.m_crc32_entry_list.modify node fun _ =>
    ⟨none, none, none, .red, path_crc32⟩
  m_collision_entry_list := s.m_collision_entry_list.modify node fun _ =>
    ⟨none, none, none, .red, file_path⟩
  size := Function.update s.size node resource_size

def construct (node : Addr) (file_path : ℕ) (resource_size : BitVec 32) :
    Except Fault ResourceSizeTableBuilder := do
  check (file_path ≠ 0 && m file_path ≠ 0) .assertion
  let path_crc32 ← hashPath m fuel file_path
  return s.withNode node path_crc32 file_path resource_size

def SearchEntry (path : ℕ) : Except Fault (Option Addr) := do
  let path_crc32 ← hashPath m fuel path
  match ← find fuel s.m_crc32_entry_list path_crc32 with
  | some node => return some node
  | none => find fuel s.m_collision_entry_list path

def AddEntry (new_entry : Addr) : Except Fault (ResourceSizeTableBuilder × Bool) := do
  match ← find fuel s.m_crc32_entry_list (s.m_crc32_entry_list.node new_entry).key with
  | none =>
    let list ← insert fuel s.m_crc32_entry_list new_entry
    return ({ s with m_crc32_entry_list := list }, true)
  | some collision_node =>
    let new_path := (s.m_collision_entry_list.node new_entry).key
    if new_path = 0 ∨ m new_path = 0 then return (s, false)
    else
      match ← find fuel s.m_collision_entry_list new_path with
      | none => return (s, false)
      | some _ =>
        let collide_path := (s.m_collision_entry_list.node new_entry).key
        if collide_path = 0 ∨ m collide_path = 0 then return (s, false)
        else
          let crc32_list ← remove fuel s.m_crc32_entry_list collision_node
          let collision_list ← insert fuel s.m_collision_entry_list collision_node
          let collision_list ← insert fuel collision_list new_entry
          return ({ s with
            m_crc32_entry_list := crc32_list
            m_collision_entry_list := collision_list }, true)

def addNew (node : Addr) (file_path : ℕ) (resource_size : BitVec 32) :
    Except Fault (ResourceSizeTableBuilder × Bool) := do
  let s ← s.construct m fuel node file_path resource_size
  s.AddEntry m fuel node

/-- The loop of `RemoveEntry`: the only node with the hash, or `none` where it finds two. -/
def noLongerColliding (hash : Fin (2 ^ 32)) : List Addr → Option Addr → Option (Option Addr)
  | [], no_longer_colliding_node => some no_longer_colliding_node
  | node_iter :: rest, no_longer_colliding_node =>
    if (s.m_crc32_entry_list.node node_iter).key ≠ hash then
      noLongerColliding hash rest no_longer_colliding_node
    else if no_longer_colliding_node ≠ none then none
    else noLongerColliding hash rest (some node_iter)

def readd (entry : Addr) : Except Fault ResourceSizeTableBuilder := do
  let hash := (s.m_crc32_entry_list.node entry).key
  let colliding ← nodes fuel s.m_collision_entry_list
  match s.noLongerColliding hash colliding none with
  | some (some node) =>
    let collision_list ← remove fuel s.m_collision_entry_list node
    let crc32_list ← insert fuel s.m_crc32_entry_list node
    return { s with m_crc32_entry_list := crc32_list, m_collision_entry_list := collision_list }
  | _ => return s

def RemoveEntry (path : ℕ) : Except Fault (ResourceSizeTableBuilder × Option Addr) := do
  match ← s.SearchEntry m fuel path with
  | none => return (s, none)
  | some entry =>
    let crc32_list ←
      if IsLinked s.m_crc32_entry_list entry = true then remove fuel s.m_crc32_entry_list entry
      else pure s.m_crc32_entry_list
    let s := { s with m_crc32_entry_list := crc32_list }
    if IsLinked s.m_collision_entry_list entry = true then
      let collision_list ← remove fuel s.m_collision_entry_list entry
      let s ← { s with m_collision_entry_list := collision_list }.readd fuel entry
      return (s, some entry)
    else return (s, some entry)

def UpdateSize (path : ℕ) (new_size : BitVec 32) :
    Except Fault (ResourceSizeTableBuilder × Bool) := do
  match ← s.SearchEntry m fuel path with
  | none => return (s, false)
  | some entry => return ({ s with size := Function.update s.size entry new_size }, true)

def CalculateSerializedSize (max_path_length : BitVec 32) : Except Fault (BitVec 64) := do
  let crc32_count ← getCount fuel s.m_crc32_entry_list
  let collision_count ← getCount fuel s.m_collision_entry_list
  return 0x16 + 0x8 * BitVec.ofNat 64 crc32_count +
    (0x4 + max_path_length.setWidth 64) * BitVec.ofNat 64 collision_count

def streamCrc32 (array : BitVec 64) : List Addr → BitVec 32 → Bytes → Bytes × BitVec 32
  | [], crc32_count, m => (m, crc32_count)
  | node :: rest, crc32_count, m =>
    let entry := array + 0x8 * crc32_count.setWidth 64
    let m := store m entry.toNat 4 (s.m_crc32_entry_list.node node).key.val
    let m := store m (entry + 0x4).toNat 4 (s.size node).toNat
    streamCrc32 array rest (crc32_count + 1) m

def streamCollision (collision_array : BitVec 64) (max_path_length : BitVec 32) :
    List Addr → BitVec 32 → Bytes → Bytes × BitVec 32
  | [], collision_count, m => (m, collision_count)
  | node :: rest, collision_count, m =>
    let output_string := collision_array +
      (0x4 + max_path_length.setWidth 64) * collision_count.setWidth 64
    let m := strncpy m output_string.toNat (s.m_collision_entry_list.node node).key
      max_path_length.toNat
    let m := store m (output_string + max_path_length.setWidth 64).toNat 4 (s.size node).toNat
    streamCollision collision_array max_path_length rest (collision_count + 1) m

def writeHeader (file : BitVec 64) (max_path_length : BitVec 32) : Bytes :=
  let m := store m file.toNat 4 cMagic0.toNat
  let m := store m (file + 0x4).toNat 2 cMagic1.toNat
  let m := store m (file + 0x6).toNat 4 cTargetVersion.toNat
  store m (file + 0xa).toNat 4 max_path_length.toNat

def Serialize (file file_size : BitVec 64) (max_path_length : BitVec 32) : Except Fault Bytes := do
  let serialized_size ← s.CalculateSerializedSize fuel max_path_length
  check (file ≠ 0 && serialized_size ≤ file_size) .assertion
  let m := writeHeader (clear m file.toNat file_size.toNat) file max_path_length
  let crc32_entries ← nodes fuel s.m_crc32_entry_list
  let (m, crc32_count) := s.streamCrc32 (file + 0x16) crc32_entries 0 m
  let m := store m (file + 0xe).toNat 4 crc32_count.toNat
  let collision_array := file + 0x16 + crc32_count.setWidth 64 * 0x8
  let collision_entries ← nodes fuel s.m_collision_entry_list
  let (m, collision_count) :=
    s.streamCollision collision_array max_path_length collision_entries 0 m
  return store m (file + 0x12).toNat 4 collision_count.toNat

end ResourceSizeTableBuilder

end Awn.ResourceSizeTable
