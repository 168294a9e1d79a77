import Awn.Byaml.Containers
import Awn.Byaml.StringPool
import Awn.Sarc.Extractor

/-!
`vp::resbui::ByamlBuilder`: the tree of a document, the walk that measures it and the walk that
writes it. Nodes are known by their addresses, those of big data by `D`, so that one of these can
stand in several places of the tree.
-/

namespace Awn.Byaml

open Memory
open Sarc (BufferLocation)

inductive ByamlArrayDataTypeMode
  | Auto
  | MonoTyped
  | MultiTyped
  deriving DecidableEq

inductive ByamlScalar
  | Null
  | U32 (m_value : BitVec 32)
  | S32 (m_value : BitVec 32)
  | Float (m_value : BitVec 32)
  | Bool (m_value : Bool)
  | String (m_index : BitVec 32)

namespace ByamlScalar

def GetByamlDataType : ByamlScalar → ByamlDataType
  | Null => .Null
  | U32 _ => .U32
  | S32 _ => .S32
  | Float _ => .F32
  | Bool _ => .Bool
  | String _ => .StringIndex

def bytes : ByamlScalar → List (BitVec 8)
  | Null => wordBytes 4 0
  | U32 m_value => wordBytes 4 m_value.toNat
  | S32 m_value => wordBytes 4 m_value.toNat
  | Float m_value => wordBytes 4 m_value.toNat
  | Bool m_value => [if m_value then 1 else 0]
  | String m_index => wordBytes 4 m_index.toNat

end ByamlScalar

inductive ByamlWide
  | U64 (m_value : BitVec 64)
  | S64 (m_value : BitVec 64)
  | Double (m_value : BitVec 64)

namespace ByamlWide

def GetByamlDataType : ByamlWide → ByamlDataType
  | U64 _ => .U64
  | S64 _ => .S64
  | Double _ => .F64

def m_value : ByamlWide → BitVec 64
  | U64 m_value => m_value
  | S64 m_value => m_value
  | Double m_value => m_value

end ByamlWide

structure ByamlBinary where
  m_data : Option (ℕ → BitVec 8) := none
  m_data_size : BitVec 32 := 0
  m_data_alignment : BitVec 32 := 0xffffffff

namespace ByamlBinary

def cInvalidAlignment : BitVec 32 := 0xffffffff

variable (binary : ByamlBinary)

def GetByamlDataType : ByamlDataType :=
  if binary.m_data_alignment = cInvalidAlignment then .BinaryData else .BinaryDataWithAlignment

def isEmpty : Bool := binary.m_data.isNone || binary.m_data_size == 0

def bytes : List (BitVec 8) :=
  (List.range binary.m_data_size.toNat).map (binary.m_data.getD fun _ => 0)

end ByamlBinary

inductive ByamlContainer
  | Array (m_data_type_mode : ByamlArrayDataTypeMode)
  | Dictionary (m_is_index_remap : Bool)
  | HashArray (m_is_index_remap : Bool) (m_key_size : BitVec 32)

universe u

mutual

inductive ByamlNode (N D : Type u)
  | Scalar (n : N) (scalar : ByamlScalar)
  | BigData (n : N) (m_big_data_node : ByamlBigDataNode N D)

inductive ByamlBigDataNode (N D : Type u)
  | Container (d : D) (container : ByamlContainer) (m_node_list : List (ByamlNode N D))
  | Wide (d : D) (wide : ByamlWide)
  | Binary (d : D) (binary : ByamlBinary)

end

namespace ByamlContainer

variable (types : List ByamlDataType)

def CheckMonoTyped (m_data_type_mode : ByamlArrayDataTypeMode) : Bool :=
  if m_data_type_mode ≠ .Auto then m_data_type_mode == .MonoTyped
  else types.all fun data_type => data_type == types.headD .Null

def GetByamlDataType : ByamlContainer → ByamlDataType
  | Array m_data_type_mode =>
    if CheckMonoTyped types m_data_type_mode = true then .MonoTypedArray else .Array
  | Dictionary m_is_index_remap =>
    if m_is_index_remap = true then .DictionaryWithRemap else .Dictionary
  | HashArray m_is_index_remap m_key_size =>
    let sub_type := m_key_size / 4 - 1
    if m_is_index_remap = true then ByamlDataType.HashArrayWithRemapU32_1 ||| sub_type.setWidth 8
    else ByamlDataType.HashArrayU32_1 ||| sub_type.setWidth 8

def m_node_count : BitVec 32 := BitVec.ofNat 32 types.length

def CalculateRemapSize (m_is_index_remap : Bool) : BitVec 32 :=
  if m_is_index_remap = false then 0
  else if m_node_count types < 0x100 then m_node_count types
  else if m_node_count types < 0x10000 then 2 * m_node_count types
  else 4 * m_node_count types

def dataTypeSize (m_data_type_mode : ByamlArrayDataTypeMode) : BitVec 32 :=
  if CheckMonoTyped types m_data_type_mode = false then
    (alignUp ((m_node_count types).setWidth 64) 4).setWidth 32
  else (alignUp 1 4).setWidth 32

def size : ByamlContainer → BitVec 64
  | Array m_data_type_mode =>
    0x4 + (dataTypeSize types m_data_type_mode).setWidth 64 + 4 * (m_node_count types).setWidth 64
  | Dictionary m_is_index_remap =>
    0x4 + (CalculateRemapSize types m_is_index_remap).setWidth 64 +
      8 * (m_node_count types).setWidth 64
  | HashArray m_is_index_remap m_key_size =>
    0x4 + (CalculateRemapSize types m_is_index_remap).setWidth 64 +
      (m_key_size.setWidth 64 + 4) * (m_node_count types).setWidth 64 +
      (m_node_count types).setWidth 64

end ByamlContainer

structure ByamlEntry where
  i : BitVec 32
  data_type : ByamlDataType
  key_index : BitVec 32
  hash : BitVec 64
  index : BitVec 32
  value : List (BitVec 8)

namespace ByamlContainer

variable (types : List ByamlDataType) (container : BitVec 64)

def writeHeader (kind : ByamlContainer) : List Write :=
  let header : Write := ⟨container, wordBytes 4
    ((kind.GetByamlDataType types).toNat + 0x100 * ((m_node_count types).toNat % 2 ^ 24))⟩
  match kind with
  | Array m_data_type_mode =>
    if CheckMonoTyped types m_data_type_mode = true then
      header :: (types.head?.toList.map fun data_type => ⟨container + 0x4, [data_type]⟩)
    else [header]
  | _ => [header]

def writeIndex (m_is_index_remap : Bool) (remap_array : BitVec 64) (entry : ByamlEntry) :
    List Write :=
  if m_is_index_remap = false then []
  else if m_node_count types < 0x100 then
    [⟨remap_array + entry.i.setWidth 64, wordBytes 1 entry.index.toNat⟩]
  else if m_node_count types < 0x10000 then
    [⟨remap_array + 2 * entry.i.setWidth 64, wordBytes 2 entry.index.toNat⟩]
  else [⟨remap_array + 4 * entry.i.setWidth 64, wordBytes 4 entry.index.toNat⟩]

def writeType (i : BitVec 32) (data_type : ByamlDataType) : ByamlContainer → List Write
  | Array m_data_type_mode =>
    if CheckMonoTyped types m_data_type_mode = true then []
    else [⟨container + 0x4 + i.setWidth 64, [data_type]⟩]
  | _ => []

def writeEntry (entry : ByamlEntry) : ByamlContainer → List Write
  | Array m_data_type_mode =>
    [⟨container + 0x4 + (dataTypeSize types m_data_type_mode).setWidth 64 + entry.i.setWidth 64,
      entry.value⟩]
  | Dictionary m_is_index_remap =>
    let pair := container + 0x4 + 8 * entry.i.setWidth 64
    let remap_array := container + 0x4 + 8 * (m_node_count types).setWidth 64
    [⟨pair, wordBytes 4 (entry.key_index.toNat % 2 ^ 24 + 2 ^ 24 * entry.data_type.toNat)⟩,
      ⟨pair + 0x4, entry.value⟩] ++ writeIndex types m_is_index_remap remap_array entry
  | HashArray m_is_index_remap m_key_size =>
    let key := container + 0x4 + (m_key_size.setWidth 64 + 4) * entry.i.setWidth 64
    let data_type_array := container + 0x4 +
      (m_key_size.setWidth 64 + 4) * (m_node_count types).setWidth 64
    let remap_array := data_type_array + (m_node_count types).setWidth 64
    [⟨key, (wordBytes 8 entry.hash.toNat).take m_key_size.toNat⟩,
      ⟨key + m_key_size.setWidth 64, entry.value⟩,
      ⟨data_type_array + entry.i.setWidth 64, [entry.data_type]⟩] ++
        writeIndex types m_is_index_remap remap_array entry

end ByamlContainer

structure ByamlOffsets where
  big_data_offset : BitVec 64
  container_offset : BitVec 64

structure ByamlProgress (D : Type*) extends ByamlOffsets where
  m_offset : D → BitVec 32

inductive ByamlRegion
  | output
  | header
  | keyTable
  | stringPool
  | bigData
  | container
  deriving DecidableEq

abbrev RegionWrite := ByamlRegion × Write

def cInvalidOffset : BitVec 32 := 0xffffffff

section Walks

variable {N D : Type u}

def ByamlNode.self : ByamlNode N D → N
  | .Scalar n _ => n
  | .BigData n _ => n

def ByamlBigDataNode.self : ByamlBigDataNode N D → D
  | .Container d _ _ => d
  | .Wide d _ => d
  | .Binary d _ => d

mutual

def ByamlNode.GetByamlDataType : ByamlNode N D → ByamlDataType
  | .Scalar _ scalar => scalar.GetByamlDataType
  | .BigData _ m_big_data_node => m_big_data_node.GetByamlDataType

def ByamlBigDataNode.GetByamlDataType : ByamlBigDataNode N D → ByamlDataType
  | .Container _ container m_node_list => container.GetByamlDataType (dataTypes m_node_list)
  | .Wide _ wide => wide.GetByamlDataType
  | .Binary _ binary => binary.GetByamlDataType

def dataTypes : List (ByamlNode N D) → List ByamlDataType
  | [] => []
  | node :: nodes => node.GetByamlDataType :: dataTypes nodes

end

def pushKey (base : N → ByamlNodeBase) (n : N) : List N :=
  if (base n).m_key.1 = [] then [] else [n]

mutual

def ByamlNode.PushKeys (base : N → ByamlNodeBase) : ByamlNode N D → List N
  | .Scalar n _ => pushKey base n
  | .BigData n m_big_data_node => pushKey base n ++ m_big_data_node.PushKeys base

def ByamlBigDataNode.PushKeys (base : N → ByamlNodeBase) : ByamlBigDataNode N D → List N
  | .Container _ _ m_node_list => pushKeys base m_node_list
  | .Wide _ _ => []
  | .Binary _ _ => []

def pushKeys (base : N → ByamlNodeBase) : List (ByamlNode N D) → List N
  | [] => []
  | node :: nodes => node.PushKeys base ++ pushKeys base nodes

end

mutual

def ByamlNode.PushStrings : ByamlNode N D → List N
  | .Scalar _ _ => []
  | .BigData _ m_big_data_node => m_big_data_node.PushStrings

def ByamlBigDataNode.PushStrings : ByamlBigDataNode N D → List N
  | .Container _ _ m_node_list => pushStrings m_node_list
  | .Wide _ _ => []
  | .Binary _ _ => []

def pushStrings : List (ByamlNode N D) → List N
  | [] => []
  | node :: nodes => node.PushStrings ++ pushStrings nodes

end

def ByamlBinary.endOffset (binary : ByamlBinary) (big_data_offset : BitVec 64) : BitVec 64 :=
  if binary.isEmpty = true then big_data_offset
  else if binary.m_data_alignment ≠ ByamlBinary.cInvalidAlignment then
    alignUp (big_data_offset + 8) (binary.m_data_alignment.setWidth 64) +
      binary.m_data_size.setWidth 64
  else big_data_offset + 4 + binary.m_data_size.setWidth 64

mutual

def ByamlNode.CalculateBigDataEndOffsets : ByamlNode N D → ByamlOffsets → ByamlOffsets
  | .Scalar _ _, iters => iters
  | .BigData _ m_big_data_node, iters => m_big_data_node.CalculateEndOffset iters

def ByamlBigDataNode.CalculateEndOffset : ByamlBigDataNode N D → ByamlOffsets → ByamlOffsets
  | .Container _ container m_node_list, iters =>
    endOffsets m_node_list { iters with
      container_offset := alignUp (iters.container_offset + container.size (dataTypes m_node_list)) 4 }
  | .Wide _ _, iters => { iters with big_data_offset := iters.big_data_offset + 8 }
  | .Binary _ binary, iters =>
    { iters with big_data_offset := binary.endOffset iters.big_data_offset }

def endOffsets : List (ByamlNode N D) → ByamlOffsets → ByamlOffsets
  | [], iters => iters
  | node :: nodes, iters => endOffsets nodes (node.CalculateBigDataEndOffsets iters)

end

def ByamlNode.bytes (m_offset : D → BitVec 32) : ByamlNode N D → List (BitVec 8)
  | .Scalar _ scalar => scalar.bytes
  | .BigData _ m_big_data_node => wordBytes 4 (m_offset m_big_data_node.self).toNat

variable [DecidableEq D]

def ByamlBinary.Serialize (binary : ByamlBinary) (d : D) (head : BitVec 64) (s : ByamlProgress D) :
    List RegionWrite × ByamlProgress D :=
  if binary.isEmpty = true then ([], s)
  else
    let is_aligned := binary.m_data_alignment ≠ ByamlBinary.cInvalidAlignment
    let data_array := if is_aligned then
        alignUp (s.big_data_offset + 8) (binary.m_data_alignment.setWidth 64) - 8
      else s.big_data_offset
    let data_base := if is_aligned then data_array + 8 else s.big_data_offset + 4
    let alignment : List RegionWrite := if is_aligned then
        [(.bigData, ⟨data_array + 4, wordBytes 4 binary.m_data_alignment.toNat⟩)]
      else []
    (alignment ++ [(.bigData, ⟨data_array, wordBytes 4 binary.m_data_size.toNat⟩),
        (.bigData, ⟨data_base, binary.bytes⟩)],
      { s with
        big_data_offset := data_base + binary.m_data_size.setWidth 64
        m_offset := Function.update s.m_offset d ((data_array - head).setWidth 32) })

def ByamlWide.Serialize (wide : ByamlWide) (d : D) (head : BitVec 64) (s : ByamlProgress D) :
    List RegionWrite × ByamlProgress D :=
  ([(.bigData, ⟨s.big_data_offset, wordBytes 8 wide.m_value.toNat⟩)],
    { s with
      big_data_offset := s.big_data_offset + 8
      m_offset := Function.update s.m_offset d ((s.big_data_offset - head).setWidth 32) })

def inContainer (writes : List Write) : List RegionWrite := writes.map (.container, ·)

variable (base : N → ByamlNodeBase) (key_index : N → BitVec 32) (head : BitVec 64)

mutual

def ByamlNode.SerializeForBigData : ByamlNode N D → ByamlProgress D →
    List RegionWrite × ByamlProgress D
  | .Scalar _ _, s => ([], s)
  | .BigData _ m_big_data_node, s =>
    if s.m_offset m_big_data_node.self ≠ cInvalidOffset then ([], s)
    else m_big_data_node.Serialize s

def ByamlBigDataNode.Serialize : ByamlBigDataNode N D → ByamlProgress D →
    List RegionWrite × ByamlProgress D
  | .Container d container m_node_list, s =>
    let types := dataTypes m_node_list
    let next_container_offset := (container.size types).setWidth 32
    let entries := serializeNodes m_node_list container types s.container_offset 0 { s with
      container_offset := s.container_offset + next_container_offset.setWidth 64
      m_offset := Function.update s.m_offset d ((s.container_offset - head).setWidth 32) }
    (inContainer (container.writeHeader types s.container_offset) ++ entries.1, entries.2)
  | .Wide d wide, s => wide.Serialize d head s
  | .Binary d binary, s => binary.Serialize d head s

def serializeNodes : List (ByamlNode N D) → ByamlContainer → List ByamlDataType → BitVec 64 →
    BitVec 32 → ByamlProgress D → List RegionWrite × ByamlProgress D
  | [], _, _, _, _, s => ([], s)
  | node :: nodes, container, types, container_offset, i, s =>
    let data_type := node.GetByamlDataType
    let big := node.SerializeForBigData s
    let entry : ByamlEntry :=
      { i, data_type
        key_index := key_index node.self
        hash := (base node.self).m_hash
        index := (base node.self).m_index
        value := node.bytes big.2.m_offset }
    let rest := serializeNodes nodes container types container_offset (i + 1) big.2
    (inContainer (container.writeType types container_offset i data_type) ++ big.1 ++
      inContainer (container.writeEntry types container_offset entry) ++ rest.1, rest.2)

end

end Walks

structure ByamlBuilderMemoryInfo where
  total_size : BitVec 64
  max_alignment : BitVec 64
  location_header : BufferLocation
  location_key_table : BufferLocation
  location_string_pool : BufferLocation
  location_big_data : BufferLocation
  location_container : BufferLocation

namespace ByamlBuilder

variable {N D : Type u} [DecidableEq N] [DecidableEq D]
variable (strcmp : CString → CString → BitVec 32) (base : N → ByamlNodeBase) (fuel : ℕ)

def poolInfo (is_sorted : Bool) (strings : List N) : Option ByamlStringPoolBuilderMemoryInfo :=
  let text n := (base n).m_key
  match ByamlStringPoolBuilder.addStrings strcmp text fuel { m_is_sorted := is_sorted } strings with
  | none => none
  | some builder =>
    (ByamlStringPoolBuilder.CalculateMemoryInfo strcmp text fuel builder ⟨0, 0, 0⟩).map Prod.snd

def serializePool (is_sorted : Bool) (strings : List N) (output_buffer : BitVec 64) :
    Option (List Write × (N → BitVec 32)) :=
  let text n := (base n).m_key
  match ByamlStringPoolBuilder.addStrings strcmp text fuel { m_is_sorted := is_sorted } strings with
  | none => none
  | some builder =>
    match ByamlStringPoolBuilder.CalculateMemoryInfo strcmp text fuel builder ⟨0, 0, 0⟩ with
    | none => none
    | some (builder, memory_info) =>
      (ByamlStringPoolBuilder.Serialize text fuel builder output_buffer memory_info).map fun r =>
        (r.1, r.2.m_index)

def CalculateMemoryInfo (m_root_node : Option (ByamlNode N D))
    (out_memory_info : ByamlBuilderMemoryInfo) : Option ByamlBuilderMemoryInfo :=
  match m_root_node with
  | none =>
    some { out_memory_info with
      location_header := ⟨0, 0x10, 4⟩
      total_size := 0x10
      max_alignment := 4 }
  | some root =>
    match poolInfo strcmp base fuel true (root.PushKeys base),
      poolInfo strcmp base fuel false root.PushStrings with
    | some keys, some strings =>
      let key_table : BufferLocation := ⟨0x10, keys.total_size, keys.max_alignment.setWidth 32⟩
      let string_pool : BufferLocation := ⟨key_table.offset + key_table.size, strings.total_size,
        strings.max_alignment.setWidth 32⟩
      let big_data_base := string_pool.offset + string_pool.size
      let first := root.CalculateBigDataEndOffsets ⟨big_data_base, big_data_base⟩
      let ends := root.CalculateBigDataEndOffsets ⟨big_data_base, first.big_data_offset⟩
      let size := ends.container_offset - ends.big_data_offset
      let container : BufferLocation := ⟨ends.big_data_offset, if size = 0 then 8 else size, 4⟩
      some {
        total_size := container.offset + container.size
        max_alignment := 4
        location_header := ⟨0, 0x10, 4⟩
        location_key_table := key_table
        location_string_pool := string_pool
        location_big_data := match root with
          | .Scalar _ _ => out_memory_info.location_big_data
          | .BigData _ _ => ⟨big_data_base, ends.big_data_offset - big_data_base, 4⟩
        location_container := container }
    | _, _ => none

def isSingle (root : ByamlNode N D) : Bool :=
  IsContainerType root.GetByamlDataType = false ∧ root.GetByamlDataType ≠ .Null

def serializeRoot (root : ByamlNode N D) (head container_base : BitVec 64) (m_offset : D → BitVec 32) :
    List RegionWrite :=
  (.header, ⟨head + 0xc, wordBytes 4 ((container_base - head).setWidth 32).toNat⟩) ::
    if isSingle root = true then
      [(.container, ⟨container_base, [root.GetByamlDataType]⟩),
        (.container, ⟨container_base + 4, root.bytes m_offset⟩)]
    else [(.container, ⟨container_base, root.bytes m_offset⟩)]

def Serialize (m_root_node : Option (ByamlNode N D)) (output output_size : BitVec 64)
    (memory_info : ByamlBuilderMemoryInfo) (m_offset : D → BitVec 32) :
    Option (List RegionWrite × (D → BitVec 32)) :=
  let head := output + memory_info.location_header.offset
  let key_table := output + memory_info.location_key_table.offset
  let string_pool := output + memory_info.location_string_pool.offset
  let start : List RegionWrite := [(.output, ⟨output, List.replicate output_size.toNat 0⟩),
    (.header, ⟨head, wordBytes 2 0x4259⟩), (.header, ⟨head + 2, wordBytes 2 10⟩)]
  match m_root_node with
  | none => some (start, m_offset)
  | some root =>
    let keys := if memory_info.location_key_table.size = 0 then some ([], fun _ => 0xffffffff)
      else (serializePool strcmp base fuel true (root.PushKeys base) key_table).map fun pool =>
        (pool.1.map (ByamlRegion.keyTable, ·) ++
          [(.header, ⟨head + 4, wordBytes 4 ((key_table - head).setWidth 32).toNat⟩)], pool.2)
    let strings := if memory_info.location_string_pool.size = 0 then some []
      else (serializePool strcmp base fuel false root.PushStrings string_pool).map fun pool =>
        pool.1.map (ByamlRegion.stringPool, ·) ++
          [(.header, ⟨head + 8, wordBytes 4 ((string_pool - head).setWidth 32).toNat⟩)]
    match keys, strings with
    | some keys, some strings =>
      if memory_info.location_container.size = 0 then some (start ++ keys.1 ++ strings, m_offset)
      else
        let container_base := output + memory_info.location_container.offset
        let big := root.SerializeForBigData base keys.2 head {
          big_data_offset := output + memory_info.location_big_data.offset
          container_offset := container_base
          m_offset }
        some (start ++ keys.1 ++ strings ++ big.1 ++
          serializeRoot root head container_base big.2.m_offset, big.2.m_offset)
    | _, _ => none

end ByamlBuilder

end Awn.Byaml
