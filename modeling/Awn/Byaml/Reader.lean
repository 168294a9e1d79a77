import Awn.Memory.Strcmp
import Awn.Memory.Buffer
import Awn.Sarc.Extractor
import Awn.Sorted.Bisect

/-!
`vp::res::ResByaml` and its iterators: what is read of a document in memory. A pointer is an
address, and an iterator over a null pointer reads what stands at address zero.
-/

namespace Awn.Byaml

open Memory
open Sarc (read16 read32 native16 native32)

abbrev ByamlDataType := BitVec 8

namespace ByamlDataType

def HashArrayU32_1 : ByamlDataType := 0x20
def HashArrayU32_2 : ByamlDataType := 0x21
def HashArrayWithRemapU32_1 : ByamlDataType := 0x30
def HashArrayWithRemapU32_2 : ByamlDataType := 0x31
def StringIndex : ByamlDataType := 0xa0
def BinaryData : ByamlDataType := 0xa1
def BinaryDataWithAlignment : ByamlDataType := 0xa2
def Array : ByamlDataType := 0xc0
def Dictionary : ByamlDataType := 0xc1
def KeyTable : ByamlDataType := 0xc2
def DictionaryWithRemap : ByamlDataType := 0xc4
def RelocatedKeyTable : ByamlDataType := 0xc5
def MonoTypedArray : ByamlDataType := 0xc8
def Bool : ByamlDataType := 0xd0
def S32 : ByamlDataType := 0xd1
def F32 : ByamlDataType := 0xd2
def U32 : ByamlDataType := 0xd3
def S64 : ByamlDataType := 0xd4
def U64 : ByamlDataType := 0xd5
def F64 : ByamlDataType := 0xd6
def Null : ByamlDataType := 0xff

end ByamlDataType

def IsContainerType (data_type : ByamlDataType) : Bool :=
  let value := data_type &&& 0xf0
  value == 0xc0 || value == 0x20

section Bytes

variable (m : Bytes)

def read8 (a : BitVec 64) : BitVec 8 := m a.toNat

def read64 (a : BitVec 64) : BitVec 64 := BitVec.ofNat 64 (load m a.toNat 8)

def swapEndian24 (value : BitVec 32) : BitVec 32 :=
  (value &&& 0xff0000) >>> 0x10 ||| (value &&& 0x0000ff) <<< 0x10 ||| (value &&& 0x00ff00)

def swapEndian64 (value : BitVec 64) : BitVec 64 :=
  let swap0 := (value &&& 0xff00ff00ff00ff00) >>> 0x8 ||| (value &&& 0x00ff00ff00ff00ff) <<< 0x8
  let swap1 := (swap0 &&& 0xffff0000ffff0000) >>> 0x10 ||| (swap0 &&& 0x0000ffff0000ffff) <<< 0x10
  swap1 >>> 0x20 ||| swap1 <<< 0x20

def native24 (is_reverse_endian : Bool) (value : BitVec 32) : BitVec 32 :=
  if is_reverse_endian = false then value else swapEndian24 value

def native64 (is_reverse_endian : Bool) (value : BitVec 64) : BitVec 64 :=
  if is_reverse_endian = false then value else swapEndian64 value

def stringFrom : ℕ → ℕ → List (BitVec 8)
  | 0, _ => []
  | fuel + 1, a => if m a = 0 then [] else m a :: stringFrom fuel (a + 1)

theorem stringFrom_ne_zero (fuel a : ℕ) : ∀ c ∈ stringFrom m fuel a, c ≠ 0 := by
  induction fuel generalizing a with
  | zero =>
    intro c hc
    cases hc
  | succ fuel ih =>
    intro c hc
    rw [stringFrom] at hc
    split at hc
    · cases hc
    · rename_i hne
      obtain rfl | hc := List.mem_cons.mp hc
      · exact hne
      · exact ih _ c hc

def cstring (a : BitVec 64) : CString :=
  ⟨stringFrom m (2 ^ 64 - a.toNat) a.toNat, stringFrom_ne_zero m _ _⟩

end Bytes

section Containers

variable (m : Bytes) (is_reverse_endian : Bool)

def containerDataType (container : BitVec 64) : ByamlDataType := (read32 m container).setWidth 8

def GetCount (container : BitVec 64) : BitVec 32 :=
  native24 is_reverse_endian (read32 m container >>> 8)

structure ByamlData where
  key_index : BitVec 24
  data_type : ByamlDataType
  u32_value : BitVec 32
  deriving DecidableEq

namespace ByamlData

def cInvalidKeyIndex : BitVec 24 := 0xffffff

def cleared : ByamlData := ⟨cInvalidKeyIndex, 0, 0⟩

end ByamlData

def SetPair (pair : BitVec 64) : ByamlData where
  key_index := (native24 is_reverse_endian (read32 m pair &&& 0xffffff)).setWidth 24
  data_type := (read32 m pair >>> 24).setWidth 8
  u32_value := native32 is_reverse_endian (read32 m (pair + 0x4))

def side (result : BitVec 32) : Ordering :=
  if result = 0 then .eq else if 0 < result.toInt then .gt else .lt

def keyPoolOffset (key_container : BitVec 64) : BitVec 64 :=
  if containerDataType m key_container = .RelocatedKeyTable then
    let offset_offset := native32 is_reverse_endian (read32 m (key_container + 0x4))
    native64 is_reverse_endian (read64 m (key_container + offset_offset.setWidth 64))
  else 0

def GetStringByIndex (container : BitVec 64) (index : BitVec 32) (offset : BitVec 64) : BitVec 64 :=
  let string_offset :=
    native32 is_reverse_endian (read32 m (container + 0x4 + 0x4 * index.setWidth 64))
  container + offset + string_offset.setWidth 64

def cInvalidKeyIndex : BitVec 32 := 0xffffffff

/-- `ByamlStringTableIterator::TryFindKeyIndexByKey`; `none` is out of fuel. -/
def TryFindKeyIndexByKey (strcmp : CString → CString → BitVec 32) (container : BitVec 64)
    (fuel : ℕ) (key : CString) : Option (BitVec 32) :=
  let key_pool_offset := keyPoolOffset m is_reverse_endian container
  let compare index :=
    side (strcmp key (cstring m (GetStringByIndex m is_reverse_endian container index
      key_pool_offset)))
  (Sorted.bisect compare fuel 0 (GetCount m is_reverse_endian container)).map
    (·.getD cInvalidKeyIndex)

def RemapIndex (remap_table : BitVec 64) (data_count index : BitVec 32) : BitVec 32 :=
  if data_count < 0x100 then (read8 m (remap_table + index.setWidth 64)).setWidth 32
  else if data_count < 0x10000 then
    (native16 is_reverse_endian (read16 m (remap_table + 0x2 * index.setWidth 64))).setWidth 32
  else native32 is_reverse_endian (read32 m (remap_table + 0x4 * index.setWidth 64))

section Dictionary

variable (container : BitVec 64)

def dictionaryPair (index : BitVec 32) : BitVec 64 := container + 0x4 + 0x8 * index.setWidth 64

def GetDictionaryPairByIndex (index : BitVec 32) : BitVec 64 :=
  if container = 0 ∨ GetCount m is_reverse_endian container ≤ index then 0
  else dictionaryPair container index

def dictionaryRemap (data_count index : BitVec 32) : BitVec 32 :=
  if containerDataType m container = .DictionaryWithRemap then
    let remap_table_offset := data_count * 0x8 + 0x4
    RemapIndex m is_reverse_endian (container + remap_table_offset.setWidth 64) data_count index
  else index

def TryRemapIndex (index : BitVec 32) : BitVec 32 :=
  let data_count := GetCount m is_reverse_endian container
  if container = 0 ∨ data_count ≤ index then 0
  else dictionaryRemap m is_reverse_endian container data_count index

def dictionaryDataByIndex (index : BitVec 32) : Option ByamlData :=
  let data_count := GetCount m is_reverse_endian container
  if container = 0 ∨ data_count ≤ index then none
  else some (SetPair m is_reverse_endian
    (dictionaryPair container (dictionaryRemap m is_reverse_endian container data_count index)))

end Dictionary

def arrayDataByIndex (container : BitVec 64) (index : BitVec 32) : Option ByamlData :=
  let data_count := GetCount m is_reverse_endian container
  if container = 0 ∨ data_count ≤ index then none
  else
    let is_mono_typed := containerDataType m container = .MonoTypedArray
    let data_type_index := if is_mono_typed then 0 else index
    let value_array_offset :=
      if is_mono_typed then 0x4 else (alignUp (data_count.setWidth 64) 4).setWidth 32
    let data_type_offset := 0x4 + data_type_index
    let value_offset := 0x4 + value_array_offset + 0x4 * index
    some {
      key_index := ByamlData.cInvalidKeyIndex
      data_type := read8 m (container + data_type_offset.setWidth 64)
      u32_value := native32 is_reverse_endian (read32 m (container + value_offset.setWidth 64)) }

section HashArray

variable (container : BitVec 64) (stride : BitVec 32)

def hashAddress (index : BitVec 32) : BitVec 64 :=
  container + (stride.setWidth 64 + 0x4) * index.setWidth 64 + 0x4

def GetHash (index : BitVec 32) : BitVec 64 :=
  let hash_array := hashAddress container stride index
  if stride = 0x8 then native64 is_reverse_endian (read64 m hash_array)
  else if stride = 0x4 then (native32 is_reverse_endian (read32 m hash_array)).setWidth 64
  else 0

def GetValue (index : BitVec 32) : BitVec 32 :=
  native32 is_reverse_endian (read32 m (hashAddress container stride index + stride.setWidth 64))

def dataTypeOffset (data_count : BitVec 32) : BitVec 32 := (stride + 0x4) * data_count

def hashArrayDataByIndex (index : BitVec 32) : Option ByamlData :=
  let data_count := GetCount m is_reverse_endian container
  if container = 0 ∨ data_count ≤ index then none
  else
    let remap_table_offset :=
      (alignUp ((stride.setWidth 64 + 0x4 + 0x1) * data_count.setWidth 64) 4).setWidth 32
    let index :=
      if containerDataType m container &&& 0xf0 = .HashArrayWithRemapU32_1 then
        RemapIndex m is_reverse_endian (container + remap_table_offset.setWidth 64) data_count index
      else index
    let data_type_offset := dataTypeOffset stride data_count + index
    let value_offset := (stride + 0x4) * index + stride + 0x4
    some {
      key_index := index.setWidth 24
      data_type := read8 m (container + data_type_offset.setWidth 64)
      u32_value := native32 is_reverse_endian (read32 m (container + value_offset.setWidth 64)) }

end HashArray

end Containers

/-! `vp::res::ResByaml::IsValid` and `vp::res::ByamlIterator`. -/

open Sarc (read16 read32 native16 native32)

section File

variable (m : Bytes) (strcmp : CString → CString → BitVec 32)

def cMagic : BitVec 16 := 0x4259
def cTargetVersion : BitVec 16 := 10

def IsReverseEndian (byaml : BitVec 64) : Bool := read16 m byaml == Sarc.swapEndian16 cMagic

def headerField (byaml offset : BitVec 64) : BitVec 32 :=
  native32 (IsReverseEndian m byaml) (read32 m (byaml + offset))

def keyTableOffset (byaml : BitVec 64) : BitVec 32 := headerField m byaml 0x4
def stringTableOffset (byaml : BitVec 64) : BitVec 32 := headerField m byaml 0x8
def dataOffset (byaml : BitVec 64) : BitVec 32 := headerField m byaml 0xc

def stringOffset (is_reverse_endian : Bool) (table : BitVec 64) (index : BitVec 32) : BitVec 32 :=
  native32 is_reverse_endian (read32 m (table + 0x4 + 0x4 * index.setWidth 64))

def verifyStrings (is_reverse_endian : Bool) (table : BitVec 64) (string_count : BitVec 32) :
    ℕ → BitVec 32 → Bool
  | 0, _ => true
  | turns + 1, i =>
    let offset_start := stringOffset m is_reverse_endian table i
    let offset_end := native32 is_reverse_endian
      (read32 m (table + 0x4 + 0x4 * i.setWidth 64 + 0x4))
    if read8 m (table + offset_end.setWidth 64 - 1) ≠ 0 then false
    else if offset_start > offset_end then false
    else if i = string_count - 1 then true
    else
      let first_string := cstring m (table + offset_start.setWidth 64)
      let second_string := cstring m (table + offset_end.setWidth 64)
      let sort_result : BitVec 32 := strcmp first_string second_string
      if sort_result < 1 then false
      else verifyStrings is_reverse_endian table string_count turns (i + 1)

def VerifyStringTable (table : BitVec 64) (is_reverse_endian : Bool) : Bool :=
  let string_count := GetCount m is_reverse_endian table
  if containerDataType m table ≠ .KeyTable then false
  else if string_count = 0 then false
  else verifyStrings m strcmp is_reverse_endian table string_count string_count.toNat 0

def finalOffset (is_reverse_endian : Bool) (table : BitVec 64) : BitVec 32 :=
  native32 is_reverse_endian
    (read32 m (table + 0x4 * (GetCount m is_reverse_endian table + 1).setWidth 64))

def IsValid (byaml : BitVec 64) : Bool :=
  let is_reverse_endian := IsReverseEndian m byaml
  let r_magic := native16 is_reverse_endian (read16 m byaml)
  let r_version := native16 is_reverse_endian (read16 m (byaml + 0x2))
  let r_key_table_offset := keyTableOffset m byaml
  let r_string_table_offset := stringTableOffset m byaml
  let data_offset := read32 m (byaml + 0xc)
  let string_table := byaml + r_string_table_offset.setWidth 64
  let key_table := byaml + r_key_table_offset.setWidth 64
  let r_final_string_offset :=
    if r_string_table_offset ≠ 0 then finalOffset m is_reverse_endian string_table else 0
  let r_final_key_offset :=
    if r_key_table_offset ≠ 0 then finalOffset m is_reverse_endian key_table else 0
  if r_magic ≠ cMagic ∨ cTargetVersion < r_version then false
  else if r_key_table_offset ≠ 0 ∧ VerifyStringTable m strcmp key_table is_reverse_endian = false then
    false
  else if r_string_table_offset ≠ 0 ∧
      VerifyStringTable m strcmp string_table is_reverse_endian = false then false
  else if (r_string_table_offset ||| r_key_table_offset) ≠ 0 ∧ data_offset = 0 then false
  else if r_key_table_offset ≠ 0 ∧ r_string_table_offset ≠ 0 ∧
      r_string_table_offset < r_final_key_offset then false
  else if r_key_table_offset ≠ 0 ∧ data_offset ≠ 0 ∧ data_offset < r_final_key_offset then false
  else r_final_string_offset ≤ data_offset || r_string_table_offset = 0 || data_offset = 0

end File

structure ByamlIterator where
  m_byaml : BitVec 64
  m_container_data : ByamlData
  deriving DecidableEq

def noData : ByamlData := ⟨0, 0, 0⟩

section Constructors

variable (m : Bytes) (strcmp : CString → CString → BitVec 32) (byaml_file : BitVec 64)

def rootType : ByamlDataType := containerDataType m (byaml_file + (dataOffset m byaml_file).setWidth 64)

def rootWord : BitVec 32 :=
  native32 (IsReverseEndian m byaml_file)
    (read32 m (byaml_file + (dataOffset m byaml_file).setWidth 64 + 0x4))

def isSingleData : Bool := IsContainerType (rootType m byaml_file) = false ∧ rootType m byaml_file ≠ .Null

def construct (value : BitVec 32) : ByamlIterator :=
  if IsValid m strcmp byaml_file = false then ⟨0, noData⟩
  else if read32 m (byaml_file + 0xc) = 0 then ⟨byaml_file, noData⟩
  else ⟨byaml_file, { noData with u32_value := value, data_type := rootType m byaml_file }⟩

def ofBytes : ByamlIterator :=
  construct m strcmp byaml_file
    (if isSingleData m byaml_file = true then dataOffset m byaml_file else rootWord m byaml_file)

def ofVoid : ByamlIterator :=
  construct m strcmp byaml_file
    (if isSingleData m byaml_file = false then dataOffset m byaml_file else rootWord m byaml_file)

end Constructors

namespace ByamlIterator

variable (m : Bytes) (strcmp : CString → CString → BitVec 32) (it : ByamlIterator)

def container : BitVec 64 := it.m_byaml + it.m_container_data.u32_value.setWidth 64

def keyContainer : BitVec 64 := it.m_byaml + (keyTableOffset m it.m_byaml).setWidth 64

def rev : Bool := IsReverseEndian m it.m_byaml

def pairKey (pair : BitVec 64) : CString :=
  cstring m (GetStringByIndex m (it.rev m) (it.keyContainer m)
    (native24 (it.rev m) (read32 m pair &&& 0xffffff)) (keyPoolOffset m (it.rev m) (it.keyContainer m)))

def isDictionary : Bool :=
  it.m_container_data.data_type == .Dictionary || it.m_container_data.data_type == .DictionaryWithRemap

def hasDictionary : Bool :=
  !(it.m_byaml == 0 || read32 m (it.m_byaml + 0x4) == 0 || !it.isDictionary)

def compareKey (key : CString) (index : BitVec 32) : Ordering :=
  side (strcmp key (it.pairKey m (GetDictionaryPairByIndex m (it.rev m) it.container index)))

def findKey (fuel : ℕ) (key : CString) : Option (Option (BitVec 32)) :=
  Sorted.bisect (it.compareKey m strcmp key) fuel 0 (GetCount m (it.rev m) it.container)

/-- The result and what is left in `out_byaml_data`; `none` is out of fuel. -/
def TryGetByamlDataByKey (fuel : ℕ) (out_byaml_data : ByamlData) (key : CString) :
    Option (Bool × ByamlData) :=
  if it.hasDictionary m = false then some (false, out_byaml_data)
  else
    match it.findKey m strcmp fuel key with
    | none => none
    | some none => some (false, .cleared)
    | some (some index) =>
      some (true, SetPair m (it.rev m) (GetDictionaryPairByIndex m (it.rev m) it.container index))

def TryRemapIndexByKey (fuel : ℕ) (out_container_index : BitVec 32) (key : CString) :
    Option (Bool × BitVec 32) :=
  if it.hasDictionary m = false then some (false, out_container_index)
  else
    match it.findKey m strcmp fuel key with
    | none => none
    | some none => some (false, out_container_index)
    | some (some index) => some (true, TryRemapIndex m (it.rev m) it.container index)

def TryGetKeyIndexByKey (fuel : ℕ) (out_key_index : BitVec 32) (key : CString) :
    Option (Bool × BitVec 32) :=
  (TryFindKeyIndexByKey m (it.rev m) strcmp (it.keyContainer m) fuel key).map fun index =>
    if index = Byaml.cInvalidKeyIndex then (false, out_key_index) else (true, index)

def hasHashArray : Bool :=
  !(it.m_byaml == 0 || read32 m (it.m_byaml + 0x4) == 0 ||
    it.m_container_data.data_type &&& 0xe0 != .HashArrayU32_1)

def stride : BitVec 32 := (it.m_container_data.data_type &&& 0xf).setWidth 32 * 0x4 + 0x4

def dataByHash (compare : BitVec 64 → Ordering) (fuel : ℕ) (out_byaml_data : ByamlData) :
    Option (Bool × ByamlData) :=
  if it.hasHashArray m = false then some (false, out_byaml_data)
  else
    let size := GetCount m (it.rev m) it.container
    let data_type_array := it.container + (dataTypeOffset it.stride size).setWidth 64
    let search := Sorted.bisect
      (fun index => compare (GetHash m (it.rev m) it.container it.stride index)) fuel 0 size
    match search with
    | none => none
    | some none => some (false, .cleared)
    | some (some index) =>
      some (true, {
        data_type := read8 m (data_type_array + index.setWidth 64)
        key_index := index.setWidth 24
        u32_value := GetValue m (it.rev m) it.container it.stride index })

def TryGetByamlDataByHash32 (fuel : ℕ) (out_byaml_data : ByamlData) (hash : BitVec 32) :
    Option (Bool × ByamlData) :=
  it.dataByHash m (fun cur_hash =>
    if hash = cur_hash.setWidth 32 then .eq
    else if cur_hash.setWidth 32 < hash then .gt else .lt) fuel out_byaml_data

def TryGetByamlDataByHash64 (fuel : ℕ) (out_byaml_data : ByamlData) (hash : BitVec 64) :
    Option (Bool × ByamlData) :=
  it.dataByHash m (fun cur_hash =>
    if hash = cur_hash then .eq else if cur_hash < hash then .gt else .lt) fuel out_byaml_data

def TryGetByamlDataByIndex (out_byaml_data : ByamlData) (index : BitVec 32) : Bool × ByamlData :=
  let found (data : Option ByamlData) :=
    match data with
    | none => (false, out_byaml_data)
    | some data => (true, data)
  let data_type := it.m_container_data.data_type
  if data_type = .Dictionary ∨ data_type = .DictionaryWithRemap then
    found (dictionaryDataByIndex m (it.rev m) it.container index)
  else if data_type = .Array ∨ data_type = .MonoTypedArray then
    found (arrayDataByIndex m (it.rev m) it.container index)
  else if data_type &&& 0xe0 = .HashArrayU32_1 then
    let stride := (containerDataType m it.container &&& 0xf).setWidth 32 * 0x4 + 0x4
    found (hashArrayDataByIndex m (it.rev m) it.container stride index)
  else (false, .cleared)

end ByamlIterator

inductive Value
  | bits32 (value : BitVec 32)
  | bits64 (value : BitVec 64)
  | pointer (address : BitVec 64)
  | binary (address : BitVec 64) (size alignment : BitVec 32)

namespace ByamlIterator

variable (m : Bytes) (it : ByamlIterator)

def TryGetValueByDataImpl (target_data_type : ByamlDataType) (data : ByamlData) : Option Value :=
  if data.data_type ≠ target_data_type then none else some (.bits32 data.u32_value)

def bigValue (data : ByamlData) : BitVec 64 :=
  native64 (it.rev m) (read64 m (it.m_byaml + data.u32_value.setWidth 64))

def TryGetS64ByData (data : ByamlData) : Option Value :=
  if data.data_type = .S32 then some (.bits64 (data.u32_value.signExtend 64))
  else if data.data_type ≠ .S64 then none
  else some (.bits64 (it.bigValue m data))

def TryGetU64ByData (data : ByamlData) : Option Value :=
  if data.data_type = .U32 then some (.bits64 (data.u32_value.setWidth 64))
  else if data.data_type ≠ .U64 then none
  else some (.bits64 (it.bigValue m data))

def TryGetF64ByData (widen : BitVec 32 → BitVec 64) (data : ByamlData) : Option Value :=
  if data.data_type = .F32 then some (.bits64 (widen data.u32_value))
  else if data.data_type ≠ .F64 then none
  else some (.bits64 (it.bigValue m data))

def TryGetBinaryDataByData (data : ByamlData) : Option Value :=
  let size_data := it.m_byaml + data.u32_value.setWidth 64
  if data.data_type = .BinaryData then
    some (.binary (size_data + 0x4) (native32 (it.rev m) (read32 m size_data)) 0)
  else if data.data_type = .BinaryDataWithAlignment then
    some (.binary (size_data + 0x8) (native32 (it.rev m) (read32 m size_data))
      (native32 (it.rev m) (read32 m (size_data + 0x4))))
  else none

def TryGetStringByData (data : ByamlData) : Option Value :=
  if data.data_type ≠ .StringIndex then none
  else
    let string_table := it.m_byaml + (stringTableOffset m it.m_byaml).setWidth 64
    some (.pointer (GetStringByIndex m (it.rev m) string_table data.u32_value
      (keyPoolOffset m (it.rev m) string_table)))

end ByamlIterator

end Awn.Byaml
