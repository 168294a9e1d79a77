import Awn.Memory.Buffer

/-!
`vp::resbui::SarcBuilder`: the files sorted by the hash of their path, and the archive they are
written to, a header, a table of entries, a table of paths and the files.
-/

namespace Awn.Sarc

open Memory

def CalculateSarcHash (hash_seed : BitVec 32) (path : List (BitVec 8)) : BitVec 32 :=
  path.foldl (fun hash c => hash * hash_seed + c.signExtend 32) 0

structure SarcFileNode where
  m_file_path : List (BitVec 8)
  m_file : List (BitVec 8)
  m_file_alignment : BitVec 32

def SarcFileNode.m_file_size (node : SarcFileNode) : BitVec 32 := BitVec.ofNat 32 node.m_file.length

def cDefaultHashSeed : BitVec 32 := 0x65

structure SarcBuilder where
  m_file_list : List SarcFileNode := []
  m_hash_seed : BitVec 32 := cDefaultHashSeed

inductive AddFileError
  | ResultInvalidPath
  | ResultDuplicatePath
  deriving DecidableEq

def insertSorted (hash_seed : BitVec 32) (file_node : SarcFileNode) :
    List SarcFileNode → Except AddFileError (List SarcFileNode)
  | [] => .ok [file_node]
  | node :: nodes =>
    if file_node.m_file_path = node.m_file_path then
      .error .ResultDuplicatePath
    else if CalculateSarcHash hash_seed file_node.m_file_path >
        CalculateSarcHash hash_seed node.m_file_path then
      (insertSorted hash_seed file_node nodes).map (node :: ·)
    else
      .ok (file_node :: node :: nodes)

def AddFile (builder : SarcBuilder) (file_node : SarcFileNode) : Except AddFileError SarcBuilder :=
  if file_node.m_file_path = [] then
    .error .ResultInvalidPath
  else
    (insertSorted builder.m_hash_seed file_node builder.m_file_list).map
      ({ builder with m_file_list := · })

def addFiles (builder : SarcBuilder) : List SarcFileNode → Except AddFileError SarcBuilder
  | [] => .ok builder
  | node :: nodes =>
    match AddFile builder node with
    | .error e => .error e
    | .ok builder => addFiles builder nodes

structure BufferLocation where
  offset : BitVec 64
  size : BitVec 64
  alignment : BitVec 32

structure SarcBuilderMemoryInfo where
  total_file_size : BitVec 64
  max_alignment : BitVec 64
  location_header : BufferLocation
  location_sfat : BufferLocation
  location_sfnt : BufferLocation
  location_file_region : BufferLocation

structure MemorySizes where
  file_count : BitVec 32
  sfnt_size : BitVec 32
  file_region_size : BitVec 32
  max_align : BitVec 64

def addSize (sizes : MemorySizes) (node : SarcFileNode) : MemorySizes where
  file_count := sizes.file_count + 1
  sfnt_size := (alignUp (sizes.sfnt_size.setWidth 64 + BitVec.ofNat 64 node.m_file_path.length + 1)
    4).setWidth 32
  file_region_size :=
    (if sizes.file_region_size ≠ 0 then
      (alignUp (sizes.file_region_size.setWidth 64) (node.m_file_alignment.setWidth 64)).setWidth 32
    else sizes.file_region_size) + node.m_file_size
  max_align :=
    if sizes.max_align < node.m_file_alignment.setWidth 64 then node.m_file_alignment.setWidth 64
    else sizes.max_align

/-- `behind` is what `Front().m_file_alignment` reads behind the builder when no file is added.
The size of the file region has its own offset subtracted, so `total_file_size` is the size of the
files only. -/
def CalculateMemoryInfo (behind : BitVec 32) (builder : SarcBuilder) : SarcBuilderMemoryInfo :=
  let sizes := builder.m_file_list.foldl addSize
    { file_count := 0, sfnt_size := 0x8, file_region_size := 0, max_align := 4 }
  let sfat_size := 0xc + 0x10 * sizes.file_count.setWidth 64
  let sfnt_offset := 0x14 + sfat_size
  let front_alignment := (builder.m_file_list.head?.map (·.m_file_alignment)).getD behind
  let region_offset := alignUp (sfnt_offset + sizes.sfnt_size.setWidth 64)
    (front_alignment.setWidth 64)
  let region_size := sizes.file_region_size.setWidth 64 - region_offset
  { total_file_size := region_offset + region_size
    max_alignment := sizes.max_align
    location_header := ⟨0, 0x14, 4⟩
    location_sfat := ⟨0x14, sfat_size, 4⟩
    location_sfnt := ⟨sfnt_offset, sizes.sfnt_size.setWidth 64, 4⟩
    location_file_region := ⟨region_offset, region_size, 4⟩ }

structure SerializeState where
  memory : Bytes
  file_count : BitVec 32
  last_hash : BitVec 32
  collision_count : BitVec 32
  sfnt_iter : BitVec 64
  file_iter : BitVec 64

def countCollision (s : SerializeState) (hash : BitVec 32) : SerializeState :=
  if 0 < s.file_count ∧ hash = s.last_hash then { s with collision_count := s.collision_count + 1 }
  else { s with last_hash := hash, collision_count := 1 }

def nameData (name_offset : BitVec 64) (collision_count : BitVec 32) : ℕ :=
  name_offset.toNat % 2 ^ 24 + 2 ^ 24 * (collision_count.toNat % 2 ^ 8)

def writeFile (buf : Buffer) (hash_seed : BitVec 32) (sfat sfnt_start file_region : BitVec 64)
    (node : SarcFileNode) (s : SerializeState) : Option SerializeState := do
  let hash := CalculateSarcHash hash_seed node.m_file_path
  let s := countCollision s hash
  -- VP_ASSERT(collision_count < 0x100), which the branch for a new hash also passes
  if ¬s.collision_count < 0x100 then none else
  let entry := sfat + 0xc + 0x10 * s.file_count.setWidth 64
  let m ← buf.writeFields s.memory entry [⟨0x0, 4, hash.toNat⟩,
    ⟨0x4, 4, nameData ((s.sfnt_iter - sfnt_start) >>> 2) s.collision_count⟩]
  let string_size := BitVec.ofNat 32 node.m_file_path.length + 1
  let m ← buf.writeBytes m s.sfnt_iter ((node.m_file_path ++ [0]).take string_size.toNat)
  let file_iter := alignUp s.file_iter (node.m_file_alignment.setWidth 64)
  let m ← buf.writeFields m entry [⟨0x8, 4, (file_iter - file_region).toNat⟩]
  let m ← buf.writeBytes m file_iter (node.m_file.take node.m_file_size.toNat)
  let file_end := file_iter + node.m_file_size.setWidth 64
  let m ← buf.writeFields m entry [⟨0xc, 4, (file_end - file_region).toNat⟩]
  some { s with
    memory := m
    file_count := s.file_count + 1
    sfnt_iter := alignUp (s.sfnt_iter + string_size.setWidth 64) 4
    file_iter := file_end }

def writeFiles (buf : Buffer) (hash_seed : BitVec 32) (sfat sfnt_start file_region : BitVec 64) :
    List SarcFileNode → SerializeState → Option SerializeState
  | [], s => some s
  | node :: nodes, s =>
    match writeFile buf hash_seed sfat sfnt_start file_region node s with
    | none => none
    | some s => writeFiles buf hash_seed sfat sfnt_start file_region nodes s

def sarcMagic : ℕ := 0x43524153
def sfatMagic : ℕ := 0x54414653
def sfntMagic : ℕ := 0x544e4653

def clear (m : Bytes) (start size : ℕ) : Bytes :=
  fun b => if start ≤ b ∧ b < start + size then 0 else m b

def sarcFields (info : SarcBuilderMemoryInfo) : List Field :=
  [⟨0x0, 4, sarcMagic⟩, ⟨0x4, 2, 0x14⟩, ⟨0x6, 2, 0xfeff⟩, ⟨0x8, 4, info.total_file_size.toNat⟩,
    ⟨0xc, 4, info.location_file_region.offset.toNat⟩, ⟨0x10, 2, 0x100⟩, ⟨0x12, 2, 0⟩]

def sfatFields (hash_seed : BitVec 32) : List Field :=
  [⟨0x0, 4, sfatMagic⟩, ⟨0x4, 2, 0xc⟩, ⟨0x8, 4, hash_seed.toNat⟩]

def sfntFields : List Field := [⟨0x0, 4, sfntMagic⟩, ⟨0x4, 2, 0x8⟩]

def Serialize (m : Bytes) (buf : Buffer) (builder : SarcBuilder) (info : SarcBuilderMemoryInfo) :
    Option Bytes := do
  if buf.start = 0 then none else
  if ¬info.total_file_size ≤ buf.size then none else
  let sarc := buf.start + info.location_header.offset
  let sfat := buf.start + info.location_sfat.offset
  let sfnt := buf.start + info.location_sfnt.offset
  let file_region := buf.start + info.location_file_region.offset
  let m ← buf.writeFields (clear m buf.start.toNat info.total_file_size.toNat) sarc
    (sarcFields info)
  let m ← buf.writeFields m sfat (sfatFields builder.m_hash_seed)
  let m ← buf.writeFields m sfnt sfntFields
  let s ← writeFiles buf builder.m_hash_seed sfat (sfnt + 0x8) file_region builder.m_file_list
    { memory := m, file_count := 0, last_hash := 0, collision_count := 1, sfnt_iter := sfnt + 0x8,
      file_iter := file_region }
  buf.writeFields s.memory sfat [⟨0x6, 2, s.file_count.toNat⟩]

/-! `vp::res::SarcExtractor`: the lookup of paths and files in an archive in memory. -/

def read16 (m : Bytes) (a : BitVec 64) : BitVec 16 := BitVec.ofNat 16 (load m a.toNat 2)

def read32 (m : Bytes) (a : BitVec 64) : BitVec 32 := BitVec.ofNat 32 (load m a.toNat 4)

def swapEndian16 (value : BitVec 16) : BitVec 16 :=
  let value : BitVec 32 := value.setWidth 32
  ((value &&& 0xff00) >>> 0x8 ||| (value &&& 0x00ff) <<< 0x8).setWidth 16

def swapEndian32 (value : BitVec 32) : BitVec 32 :=
  let swap0 := (value &&& 0xff00ff00) >>> 0x8 ||| (value &&& 0x00ff00ff) <<< 0x8
  swap0 >>> 0x10 ||| swap0 <<< 0x10

def native16 (is_reverse_endian : Bool) (value : BitVec 16) : BitVec 16 :=
  if is_reverse_endian = false then value else swapEndian16 value

def native32 (is_reverse_endian : Bool) (value : BitVec 32) : BitVec 32 :=
  if is_reverse_endian = false then value else swapEndian32 value

def IsReverseEndian (m : Bytes) (sarc : BitVec 64) : Bool := read16 m (sarc + 0x6) == 0xfffe

def sarcIsValid (m : Bytes) (sarc : BitVec 64) : Bool :=
  let is_reverse_endian := IsReverseEndian m sarc
  native32 is_reverse_endian (read32 m sarc) == BitVec.ofNat 32 sarcMagic &&
    native16 is_reverse_endian (read16 m (sarc + 0x4)) == 0x14 &&
      native16 is_reverse_endian (read16 m (sarc + 0x10)) == 0x100

def sfatIsValid (m : Bytes) (sfat : BitVec 64) (is_reverse_endian : Bool) : Bool :=
  native32 is_reverse_endian (read32 m sfat) == BitVec.ofNat 32 sfatMagic &&
    native16 is_reverse_endian (read16 m (sfat + 0x4)) == 0xc &&
      native16 is_reverse_endian (read16 m (sfat + 0x6)) >>> 14 == 0

def sfntIsValid (m : Bytes) (sfnt : BitVec 64) (is_reverse_endian : Bool) : Bool :=
  native32 is_reverse_endian (read32 m sfnt) == BitVec.ofNat 32 sfntMagic &&
    native16 is_reverse_endian (read16 m (sfnt + 0x4)) == 0x8

structure SarcExtractor where
  m_sarc : BitVec 64
  m_sfat : BitVec 64
  m_file_region : BitVec 64
  m_path_table : BitVec 64

def cInvalidEntryIndex : BitVec 32 := 0xffffffff

/-- The extractor, or `none` where `Initialize` returns `false`. -/
def Initialize (m : Bytes) (sarc_file : BitVec 64) : Option SarcExtractor :=
  let is_reverse_endian := IsReverseEndian m sarc_file
  let sfat := sarc_file + 0x14
  let file_count := (native16 is_reverse_endian (read16 m (sfat + 0x6))).setWidth 64
  let sfnt := sarc_file + 0x14 + 0xc + 0x10 * file_count
  if sarc_file = 0 then none
  else if sarcIsValid m sarc_file = false then none
  else if sfatIsValid m sfat is_reverse_endian = false then none
  else if sfntIsValid m sfnt is_reverse_endian = false then none
  else
    let sfnt_header_size := native16 is_reverse_endian (read16 m (sfnt + 0x4))
    let file_array_offset := native32 is_reverse_endian (read32 m (sarc_file + 0xc))
    some {
      m_sarc := sarc_file
      m_sfat := sfat
      m_file_region := sarc_file + file_array_offset.setWidth 64
      m_path_table := sfnt + sfnt_header_size.setWidth 64 }

namespace SarcExtractor

variable (m : Bytes) (e : SarcExtractor)

def isReverseEndian : Bool := IsReverseEndian m e.m_sarc

def fileCount : BitVec 32 := (native16 (e.isReverseEndian m) (read16 m (e.m_sfat + 0x6))).setWidth 32

def hashSeed : BitVec 32 := native32 (e.isReverseEndian m) (read32 m (e.m_sfat + 0x8))

def entry (entry_index : BitVec 64) : BitVec 64 := e.m_sfat + 0xc + 0x10 * entry_index

def fileNameHash (entry_index : BitVec 64) : BitVec 32 :=
  native32 (e.isReverseEndian m) (read32 m (e.entry entry_index))

def entryNameData (entry_index : BitVec 64) : BitVec 32 :=
  native32 (e.isReverseEndian m) (read32 m (e.entry entry_index + 0x4))

def path (entry_index : BitVec 64) : BitVec 64 :=
  e.m_path_table + ((e.entryNameData m entry_index &&& 0xffffff) <<< 2).setWidth 64

def TryGetPathByEntryIndex (entry_index : BitVec 32) : Option (BitVec 64) :=
  if e.fileCount m ≤ entry_index then none
  else if e.m_file_region < e.path m (entry_index.setWidth 64) then none
  else some (e.path m (entry_index.setWidth 64))

/-- The binary search by hash. The outer `none` is out of fuel, the inner one no such hash. -/
def searchHash (hash : BitVec 32) : ℕ → BitVec 64 → BitVec 32 → BitVec 32 →
    Option (Option (BitVec 64))
  | 0, _, _, _ => none
  | fuel + 1, entry_index, high_iter, low_iter =>
    let current_hash := e.fileNameHash m entry_index
    if hash = current_hash then
      some (some entry_index)
    else
      let result := if hash < current_hash then low_iter else entry_index.setWidth 32
      let i := if hash < current_hash then high_iter else low_iter
      let high_iter := if hash < current_hash then entry_index.setWidth 32 else high_iter
      if i.setWidth 64 = entry_index then some none
      else searchHash hash fuel ((high_iter + result).setWidth 64 / 2) high_iter result

def searchCollisions (path : List (BitVec 8)) (hash : BitVec 32) : ℕ → BitVec 64 →
    Option (BitVec 32)
  | 0, _ => none
  | fuel + 1, entry_index =>
    if entry_index < (e.fileCount m).setWidth 64 then
      if e.fileNameHash m entry_index ≠ hash then some cInvalidEntryIndex
      else if e.m_file_region < e.path m entry_index then some cInvalidEntryIndex
      else if stringAt m (e.path m entry_index).toNat path then some (entry_index.setWidth 32)
      else searchCollisions path hash fuel (entry_index + 1)
    else
      some (entry_index.setWidth 32)

def checkCollisions (fuel : ℕ) (path : List (BitVec 8)) (hash : BitVec 32)
    (entry_index : BitVec 64) : Option (BitVec 32) :=
  let root_collision_index := e.entryNameData m entry_index >>> 0x18
  if root_collision_index ≠ 1 then
    e.searchCollisions m path hash fuel (entry_index - root_collision_index.setWidth 64 + 1)
  else
    some (entry_index.setWidth 32)

def TryGetEntryIndexByPath (fuel : ℕ) (path : List (BitVec 8)) : Option (BitVec 32) :=
  let file_count := e.fileCount m
  if file_count = 0 then
    some cInvalidEntryIndex
  else
    let hash := CalculateSarcHash (e.hashSeed m) path
    match e.searchHash m hash fuel ((file_count / 2).setWidth 64) file_count 0 with
    | none => none
    | some none => some cInvalidEntryIndex
    -- `path` has been moved to its end by the loop that computes the hash
    | some (some entry_index) => e.checkCollisions m fuel [] hash entry_index

def TryGetFileByIndex (entry_index : BitVec 32) : Option (BitVec 64 × BitVec 32) :=
  let entry := e.entry (entry_index.setWidth 64)
  if e.fileCount m < entry_index then none
  else
    let start_offset := native32 (e.isReverseEndian m) (read32 m (entry + 0x8))
    let file_array_end_offset := native32 (e.isReverseEndian m) (read32 m (entry + 0xc))
    some (e.m_file_region + start_offset.setWidth 64, file_array_end_offset - start_offset)

end SarcExtractor

end Awn.Sarc
