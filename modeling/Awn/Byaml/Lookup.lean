import Awn.Byaml.Reader

/-! The lookups by key in a dictionary, against a look at every pair in turn. -/

namespace Awn.Byaml

open Memory
open Sarc (read32)

theorem swapEndian24_lt (value : BitVec 32) : (swapEndian24 value).toNat < 2 ^ 24 := by
  have hhigh : ((value &&& 0xff0000) >>> 0x10).toNat < 2 ^ 24 := by
    rw [BitVec.toNat_ushiftRight, BitVec.toNat_and, Nat.shiftRight_eq_div_pow]
    have := Nat.and_le_right (n := value.toNat) (m := (0xff0000 : BitVec 32).toNat)
    have hmask : (0xff0000 : BitVec 32).toNat = 0xff0000 := rfl
    omega
  have hlow : ((value &&& 0x0000ff) <<< 0x10).toNat < 2 ^ 24 := by
    rw [BitVec.toNat_shiftLeft, BitVec.toNat_and, Nat.shiftLeft_eq]
    have := Nat.and_le_right (n := value.toNat) (m := (0x0000ff : BitVec 32).toNat)
    have hmask : (0x0000ff : BitVec 32).toNat = 0xff := rfl
    omega
  have hmiddle : (value &&& 0x00ff00).toNat < 2 ^ 24 := by
    rw [BitVec.toNat_and]
    have := Nat.and_le_right (n := value.toNat) (m := (0x00ff00 : BitVec 32).toNat)
    have hmask : (0x00ff00 : BitVec 32).toNat = 0xff00 := rfl
    omega
  rw [swapEndian24, BitVec.toNat_or, BitVec.toNat_or]
  exact Nat.or_lt_two_pow (Nat.or_lt_two_pow hhigh hlow) hmiddle

theorem GetCount_lt (m : Bytes) (is_reverse_endian : Bool) (container : BitVec 64) :
    (GetCount m is_reverse_endian container).toNat < 2 ^ 24 := by
  rw [GetCount, native24]
  split
  · rw [BitVec.toNat_ushiftRight, Nat.shiftRight_eq_div_pow]
    have := (read32 m container).isLt
    omega
  · exact swapEndian24_lt _

theorem side_strcmp {strcmp : CString → CString → BitVec 32} (hc : Conforming strcmp)
    (a b : CString) : side (strcmp a b) = Sorted.standing a.codes b.codes := by
  rw [side]
  rcases lt_trichotomy a.codes b.codes with hlt | heq | hgt
  · have hneg := (hc.negative a b).mpr hlt
    rw [if_neg (hc.ne_zero_of_lt hlt), if_neg (by omega), Sorted.standing_lt hlt]
  · rw [if_pos ((hc.zero a b).mpr (CString.codes_injective heq)),
      Sorted.standing_eq_iff.mpr heq]
  · have hpos := hc.positive hgt
    have hzero : strcmp a b ≠ 0 := fun hz => by
      rw [hz] at hpos
      exact absurd hpos (by decide)
    rw [if_neg hzero, if_pos hpos, Sorted.standing_gt hgt]

namespace ByamlIterator

variable (m : Bytes) (it : ByamlIterator)

def count : BitVec 32 := GetCount m (it.rev m) it.container

def keyAt (index : BitVec 32) : CString := it.pairKey m (dictionaryPair it.container index)

structure OnDictionary : Prop where
  valid : it.hasDictionary m = true
  container_ne : it.container ≠ 0
  ascending : ∀ i j : BitVec 32, i < j → j < it.count m → (it.keyAt m i).codes < (it.keyAt m j).codes

def linearIndex (key : CString) : Option (BitVec 32) :=
  ((List.range (it.count m).toNat).map (BitVec.ofNat 32)).find? fun i => it.keyAt m i = key

def pairsRead (strcmp : CString → CString → BitVec 32) (fuel : ℕ) (key : CString) :
    List (BitVec 32) :=
  Sorted.bisectReads (it.compareKey m strcmp key) fuel 0 (it.count m) ++
    match it.findKey m strcmp fuel key with
    | some (some index) => [index]
    | _ => []

variable {m it} {strcmp : CString → CString → BitVec 32} {key : CString} {fuel : ℕ}

theorem pair_eq (h : it.OnDictionary m) {i : BitVec 32} (hi : i.toNat < (it.count m).toNat) :
    GetDictionaryPairByIndex m (it.rev m) it.container i = dictionaryPair it.container i := by
  rw [GetDictionaryPairByIndex, if_neg]
  rintro (hz | hle)
  · exact h.container_ne hz
  · rw [BitVec.le_def] at hle
    exact absurd hi (Nat.not_lt.mpr hle)

section Conforming

variable (hc : Conforming strcmp) (h : it.OnDictionary m)
include hc h

theorem compareKey_eq {i : BitVec 32} (hi : i.toNat < (it.count m).toNat) :
    it.compareKey m strcmp key i = Sorted.standing key.codes (it.keyAt m i).codes := by
  rw [compareKey, pair_eq h hi, side_strcmp hc, keyAt]

theorem compareKey_ascends : Sorted.Ascends (it.compareKey m strcmp key) (it.count m).toNat := by
  refine Sorted.ascends_standing key.codes (fun i hi => compareKey_eq hc h hi) ?_
  · exact fun i j hij hj => h.ascending i j hij (BitVec.lt_def.mpr hj)

theorem linearSearch_eq :
    Sorted.linearSearch (it.compareKey m strcmp key) (it.count m).toNat = it.linearIndex m key := by
  apply Sorted.linearSearch_congr
  · intro i hi
    rw [compareKey_eq hc h hi, Sorted.standing_eq_iff, decide_eq_true_eq]
    exact ⟨fun heq => (CString.codes_injective heq).symm, fun heq => by rw [heq]⟩
  · exact Nat.le_of_lt (it.count m).isLt

theorem findKey_eq (hfuel : (it.count m).toNat < fuel) :
    it.findKey m strcmp fuel key = some (it.linearIndex m key) := by
  have hlt := GetCount_lt m (it.rev m) it.container
  rw [findKey, ← linearSearch_eq hc h]
  exact Sorted.bisect_eq_linearSearch (compareKey_ascends hc h)
    (by change (it.count m).toNat < 2 ^ 31; rw [count]; omega) hfuel

end Conforming

theorem linearIndex_lt {i : BitVec 32} (hi : it.linearIndex m key = some i) :
    i.toNat < (it.count m).toNat := by
  obtain ⟨k, hk, rfl⟩ := List.mem_map.mp (List.mem_of_find?_eq_some hi)
  rw [List.mem_range] at hk
  have hlt := (it.count m).isLt
  rw [BitVec.toNat_ofNat]
  omega

theorem pairsRead_lt : ∀ i ∈ it.pairsRead m strcmp fuel key, i < it.count m := by
  have hlt := GetCount_lt m (it.rev m) it.container
  have hsize : (it.count m).toNat < 2 ^ 31 := by
    rw [count]
    omega
  intro i hi
  obtain hi | hi := List.mem_append.mp hi
  · exact Sorted.bisectReads_lt hsize i hi
  · split at hi
    · rename_i j hj
      obtain rfl := List.mem_singleton.mp hi
      exact (Sorted.bisect_found hsize hj).1
    · cases hi

/-- In every dictionary that ascends, in either order of bytes, the lookups by key end, read no pair
behind the last, and answer as a look at every pair in turn would. -/
theorem lookups_eq_linear (hc : Conforming strcmp) (h : it.OnDictionary m) (key : CString) :
    (∀ fuel, ∀ i ∈ it.pairsRead m strcmp fuel key, i < it.count m) ∧
      ∃ enough, ∀ fuel ≥ enough, ∀ out out_index,
        it.TryGetByamlDataByKey m strcmp fuel out key =
            some (match it.linearIndex m key with
              | none => (false, ByamlData.cleared)
              | some i => (true, SetPair m (it.rev m) (dictionaryPair it.container i))) ∧
          it.TryRemapIndexByKey m strcmp fuel out_index key =
            some (match it.linearIndex m key with
              | none => (false, out_index)
              | some i => (true, dictionaryRemap m (it.rev m) it.container (it.count m) i)) := by
  refine ⟨fun fuel => pairsRead_lt, (it.count m).toNat + 1, ?_⟩
  intro fuel hfuel out out_index
  have hvalid : ¬it.hasDictionary m = false := by
    rw [h.valid]
    exact Bool.noConfusion
  rw [TryGetByamlDataByKey, TryRemapIndexByKey, if_neg hvalid, if_neg hvalid,
    findKey_eq hc h hfuel]
  cases hi : it.linearIndex m key with
  | none => exact ⟨rfl, rfl⟩
  | some i =>
    have hlt := linearIndex_lt hi
    have hremap : TryRemapIndex m (it.rev m) it.container i =
        dictionaryRemap m (it.rev m) it.container (it.count m) i := by
      rw [TryRemapIndex]
      apply if_neg
      rintro (hz | hle)
      · exact h.container_ne hz
      · rw [BitVec.le_def] at hle
        exact absurd hlt (Nat.not_lt.mpr hle)
    constructor
    · simp only [pair_eq h hlt]
    · simp only [hremap]

end ByamlIterator

def twoKeys : List (BitVec 8) :=
  [0x59, 0x42, 0x02, 0x00, 0x10, 0x00, 0x00, 0x00, 0x00, 0x00, 0x00, 0x00, 0x24, 0x00, 0x00, 0x00,
    0xc2, 0x02, 0x00, 0x00, 0x10, 0x00, 0x00, 0x00, 0x12, 0x00, 0x00, 0x00, 0x14, 0x00, 0x00, 0x00,
    0x61, 0x00, 0x62, 0x00, 0xc1, 0x02, 0x00, 0x00, 0x00, 0x00, 0x00, 0xd3, 0x07, 0x00, 0x00, 0x00,
    0x01, 0x00, 0x00, 0xd3, 0x08, 0x00, 0x00, 0x00]

def documentMemory (bytes : List (BitVec 8)) : Bytes :=
  fun b => if b < 0x1000 then 0 else bytes.getD (b - 0x1000) 0

def twoKeysRoot : ByamlIterator := ⟨0x1000, ⟨0, .Dictionary, 0x24⟩⟩

theorem twoKeysRoot_onDictionary : twoKeysRoot.OnDictionary (documentMemory twoKeys) where
  valid := by decide +kernel
  container_ne := by decide +kernel
  ascending i j hij hj := by
    have hcount : twoKeysRoot.count (documentMemory twoKeys) = 2 := by decide +kernel
    have htwo : (2 : BitVec 32).toNat = 2 := rfl
    rw [hcount, BitVec.lt_def, htwo] at hj
    rw [BitVec.lt_def] at hij
    have hi : i = 0 := BitVec.eq_of_toNat_eq (show i.toNat = 0 by omega)
    have hj : j = 1 := BitVec.eq_of_toNat_eq (show j.toNat = 1 by omega)
    subst hi hj
    have ha : (twoKeysRoot.keyAt (documentMemory twoKeys) 0).codes = [0x61] := by decide +kernel
    have hb : (twoKeysRoot.keyAt (documentMemory twoKeys) 1).codes = [0x62] := by decide +kernel
    rw [ha, hb]
    exact List.cons_lt_cons_iff.mpr (Or.inl (by decide))

theorem lookups_eq_linear_twoKeys : ∃ enough, ∀ fuel ≥ enough,
    twoKeysRoot.TryGetByamlDataByKey (documentMemory twoKeys) (fun a b => byteDifference a.1 b.1)
      fuel noData ⟨[0x62], by decide⟩ = some (true, ⟨1, .U32, 8⟩) := by
  obtain ⟨-, enough, h⟩ := ByamlIterator.lookups_eq_linear byteDifference_conforming
    twoKeysRoot_onDictionary ⟨[0x62], by decide⟩
  have hindex : twoKeysRoot.linearIndex (documentMemory twoKeys) ⟨[0x62], by decide⟩ = some 1 := by
    decide +kernel
  refine ⟨enough, fun fuel hfuel => ?_⟩
  rw [(h fuel hfuel noData 0).1, hindex]
  decide +kernel

/-! The two constructors of `ByamlIterator`, and where they stand on the root of a document. -/

open Sarc (read32)

section Roots

variable (m : Bytes) (strcmp : CString → CString → BitVec 32) (byaml_file : BitVec 64)

structure SameLookups (a b : ByamlIterator) : Prop where
  byaml : a.m_byaml = b.m_byaml
  key_index : ∀ fuel out key,
    a.TryGetKeyIndexByKey m strcmp fuel out key = b.TryGetKeyIndexByKey m strcmp fuel out key
  remap : ∀ fuel out key,
    a.TryRemapIndexByKey m strcmp fuel out key = b.TryRemapIndexByKey m strcmp fuel out key
  by_key : ∀ fuel out key,
    a.TryGetByamlDataByKey m strcmp fuel out key = b.TryGetByamlDataByKey m strcmp fuel out key
  by_hash32 : ∀ fuel out hash,
    a.TryGetByamlDataByHash32 m fuel out hash = b.TryGetByamlDataByHash32 m fuel out hash
  by_hash64 : ∀ fuel out hash,
    a.TryGetByamlDataByHash64 m fuel out hash = b.TryGetByamlDataByHash64 m fuel out hash
  by_index : ∀ out index, a.TryGetByamlDataByIndex m out index = b.TryGetByamlDataByIndex m out index
  value32 : ∀ target ∈ [ByamlDataType.Bool, .S32, .F32, .U32],
    ByamlIterator.TryGetValueByDataImpl target a.m_container_data =
      ByamlIterator.TryGetValueByDataImpl target b.m_container_data
  value_s64 : a.TryGetS64ByData m a.m_container_data = b.TryGetS64ByData m b.m_container_data
  value_u64 : a.TryGetU64ByData m a.m_container_data = b.TryGetU64ByData m b.m_container_data
  value_f64 : ∀ widen,
    a.TryGetF64ByData m widen a.m_container_data = b.TryGetF64ByData m widen b.m_container_data
  value_binary :
    a.TryGetBinaryDataByData m a.m_container_data = b.TryGetBinaryDataByData m b.m_container_data
  value_string :
    a.TryGetStringByData m a.m_container_data = b.TryGetStringByData m b.m_container_data

def IsContainerRoot (data_type : ByamlDataType) : Prop :=
  IsContainerType data_type = true ∨ data_type &&& 0xe0 = .HashArrayU32_1

def hasRoot : Prop := read32 m (byaml_file + 0xc) ≠ 0

structure Positioned (it : ByamlIterator) : Prop where
  data_type : hasRoot m byaml_file → it.m_container_data.data_type = rootType m byaml_file
  container : hasRoot m byaml_file → IsContainerRoot (rootType m byaml_file) →
    it.m_container_data.u32_value = dataOffset m byaml_file
  scalar : hasRoot m byaml_file → ¬IsContainerRoot (rootType m byaml_file) →
    rootType m byaml_file ≠ .Null → it.m_container_data.u32_value = rootWord m byaml_file

def Agree : Prop :=
  SameLookups m strcmp (ofBytes m strcmp byaml_file) (ofVoid m strcmp byaml_file) ∧
    Positioned m byaml_file (ofBytes m strcmp byaml_file) ∧
      Positioned m byaml_file (ofVoid m strcmp byaml_file)

variable {m strcmp byaml_file}

theorem SameLookups.refl (it : ByamlIterator) : SameLookups m strcmp it it := by
  constructor <;> intros <;> rfl

theorem sameLookups_null (byaml : BitVec 64) (key_index : BitVec 24) (v w : BitVec 32) :
    SameLookups m strcmp ⟨byaml, ⟨key_index, .Null, v⟩⟩ ⟨byaml, ⟨key_index, .Null, w⟩⟩ := by
  have hdictionary : ∀ x, (⟨byaml, ⟨key_index, .Null, x⟩⟩ : ByamlIterator).hasDictionary m = false := by
    intro x
    have hno : (⟨byaml, ⟨key_index, .Null, x⟩⟩ : ByamlIterator).isDictionary = false := rfl
    rw [ByamlIterator.hasDictionary, hno, Bool.not_false, Bool.or_true, Bool.not_true]
  have hhash : ∀ x, (⟨byaml, ⟨key_index, .Null, x⟩⟩ : ByamlIterator).hasHashArray m = false := by
    intro x
    have hno : (ByamlDataType.Null &&& 0xe0 != ByamlDataType.HashArrayU32_1) = true := by decide
    rw [ByamlIterator.hasHashArray]
    dsimp only
    rw [hno, Bool.or_true, Bool.not_true]
  have hindex : ∀ x out index,
      (⟨byaml, ⟨key_index, .Null, x⟩⟩ : ByamlIterator).TryGetByamlDataByIndex m out index =
        (false, .cleared) := by
    intro x out index
    rw [ByamlIterator.TryGetByamlDataByIndex]
    dsimp only
    rw [if_neg (by decide), if_neg (by decide), if_neg (by decide)]
  constructor
  · rfl
  · exact fun _ _ _ => rfl
  · intro fuel out key
    rw [ByamlIterator.TryRemapIndexByKey, ByamlIterator.TryRemapIndexByKey, if_pos (hdictionary v),
      if_pos (hdictionary w)]
  · intro fuel out key
    rw [ByamlIterator.TryGetByamlDataByKey, ByamlIterator.TryGetByamlDataByKey,
      if_pos (hdictionary v), if_pos (hdictionary w)]
  · intro fuel out hash
    rw [ByamlIterator.TryGetByamlDataByHash32, ByamlIterator.TryGetByamlDataByHash32,
      ByamlIterator.dataByHash, ByamlIterator.dataByHash, if_pos (hhash v), if_pos (hhash w)]
  · intro fuel out hash
    rw [ByamlIterator.TryGetByamlDataByHash64, ByamlIterator.TryGetByamlDataByHash64,
      ByamlIterator.dataByHash, ByamlIterator.dataByHash, if_pos (hhash v), if_pos (hhash w)]
  · intro out index
    rw [hindex, hindex]
  · intro target htarget
    have hne : ByamlDataType.Null ≠ target := by
      rintro rfl
      revert htarget
      decide
    rw [ByamlIterator.TryGetValueByDataImpl, ByamlIterator.TryGetValueByDataImpl, if_pos hne,
      if_pos hne]
  · rw [ByamlIterator.TryGetS64ByData, ByamlIterator.TryGetS64ByData]
    dsimp only
    rw [if_neg (by decide), if_pos (by decide), if_neg (by decide), if_pos (by decide)]
  · rw [ByamlIterator.TryGetU64ByData, ByamlIterator.TryGetU64ByData]
    dsimp only
    rw [if_neg (by decide), if_pos (by decide), if_neg (by decide), if_pos (by decide)]
  · intro widen
    rw [ByamlIterator.TryGetF64ByData, ByamlIterator.TryGetF64ByData]
    dsimp only
    rw [if_neg (by decide), if_pos (by decide), if_neg (by decide), if_pos (by decide)]
  · rw [ByamlIterator.TryGetBinaryDataByData, ByamlIterator.TryGetBinaryDataByData]
    dsimp only
    rw [if_neg (by decide), if_neg (by decide), if_neg (by decide), if_neg (by decide)]
  · rw [ByamlIterator.TryGetStringByData, ByamlIterator.TryGetStringByData]
    dsimp only
    rw [if_pos (by decide), if_pos (by decide)]

theorem construct_noRoot (hvalid : IsValid m strcmp byaml_file = true)
    (hroot : ¬hasRoot m byaml_file) (value : BitVec 32) :
    construct m strcmp byaml_file value = ⟨byaml_file, noData⟩ := by
  rw [construct, if_neg (by rw [hvalid]; exact Bool.noConfusion), if_pos (not_not.mp hroot)]

theorem construct_root (hvalid : IsValid m strcmp byaml_file = true) (hroot : hasRoot m byaml_file)
    (value : BitVec 32) : construct m strcmp byaml_file value =
      ⟨byaml_file, ⟨0, rootType m byaml_file, value⟩⟩ := by
  rw [construct, if_neg (by rw [hvalid]; exact Bool.noConfusion), if_neg hroot]
  rfl

theorem values_swapped (hvalid : IsValid m strcmp byaml_file = true) (hroot : hasRoot m byaml_file) :
    ((ofBytes m strcmp byaml_file).m_container_data.u32_value = dataOffset m byaml_file ∧
        (ofVoid m strcmp byaml_file).m_container_data.u32_value = rootWord m byaml_file) ∨
      ((ofBytes m strcmp byaml_file).m_container_data.u32_value = rootWord m byaml_file ∧
        (ofVoid m strcmp byaml_file).m_container_data.u32_value = dataOffset m byaml_file) := by
  rw [ofBytes, ofVoid, construct_root hvalid hroot, construct_root hvalid hroot]
  cases isSingleData m byaml_file with
  | true => exact Or.inl ⟨rfl, rfl⟩
  | false => exact Or.inr ⟨rfl, rfl⟩

/-- On every file that is accepted, the constructors agree if and only if there is no root to stand
on or the word behind the type of the root happens to be its offset. -/
theorem agree_iff (hvalid : IsValid m strcmp byaml_file = true) :
    Agree m strcmp byaml_file ↔
      ¬hasRoot m byaml_file ∨ rootType m byaml_file = .Null ∨
        rootWord m byaml_file = dataOffset m byaml_file := by
  constructor
  · rintro ⟨-, hbytes, hvoid⟩
    by_cases hroot : hasRoot m byaml_file
    · right
      by_cases hnull : rootType m byaml_file = .Null
      · exact Or.inl hnull
      · right
        have hvalues := values_swapped hvalid hroot
        by_cases hcontainer : IsContainerRoot (rootType m byaml_file)
        · rw [hbytes.container hroot hcontainer, hvoid.container hroot hcontainer] at hvalues
          obtain ⟨-, h⟩ | ⟨h, -⟩ := hvalues
          · exact h.symm
          · exact h.symm
        · rw [hbytes.scalar hroot hcontainer hnull, hvoid.scalar hroot hcontainer hnull] at hvalues
          obtain ⟨h, -⟩ | ⟨-, h⟩ := hvalues
          · exact h
          · exact h
    · exact Or.inl hroot
  · intro h
    by_cases hroot : hasRoot m byaml_file
    · obtain h | hnull | hword := h
      · exact absurd hroot h
      · have hnot : ¬IsContainerRoot (rootType m byaml_file) := by
          rw [hnull]
          unfold IsContainerRoot
          decide
        rw [Agree, ofBytes, ofVoid, construct_root hvalid hroot, construct_root hvalid hroot]
        refine ⟨?_, ⟨fun _ => rfl, ?_, ?_⟩, ⟨fun _ => rfl, ?_, ?_⟩⟩
        · rw [hnull]
          exact sameLookups_null _ _ _ _
        · exact fun _ hc => absurd hc hnot
        · exact fun _ _ hn => absurd hnull hn
        · exact fun _ hc => absurd hc hnot
        · exact fun _ _ hn => absurd hnull hn
      · rw [Agree, ofBytes, ofVoid, hword, ite_self, ite_self, construct_root hvalid hroot]
        have hpositioned : Positioned m byaml_file
            ⟨byaml_file, ⟨0, rootType m byaml_file, dataOffset m byaml_file⟩⟩ :=
          ⟨fun _ => rfl, fun _ _ => rfl, fun _ _ _ => hword.symm⟩
        exact ⟨SameLookups.refl _, hpositioned, hpositioned⟩
    · have hnone : ∀ it, Positioned m byaml_file it :=
        fun it => ⟨fun h => absurd h hroot, fun h => absurd h hroot, fun h => absurd h hroot⟩
      rw [Agree, ofBytes, ofVoid, construct_noRoot hvalid hroot, construct_noRoot hvalid hroot]
      exact ⟨SameLookups.refl _, hnone _, hnone _⟩

end Roots

theorem twoKeys_isValid :
    IsValid (documentMemory twoKeys) (fun a b => byteDifference a.1 b.1) 0x1000 = true := by
  decide +kernel

theorem agree_iff_twoKeys :
    Agree (documentMemory twoKeys) (fun a b => byteDifference a.1 b.1) 0x1000 ↔
      ¬hasRoot (documentMemory twoKeys) 0x1000 ∨ rootType (documentMemory twoKeys) 0x1000 = .Null ∨
        rootWord (documentMemory twoKeys) 0x1000 = dataOffset (documentMemory twoKeys) 0x1000 :=
  agree_iff twoKeys_isValid

theorem twoKeys_not_agree : ¬∀ m (strcmp : CString → CString → BitVec 32) byaml_file,
    Conforming strcmp → IsValid m strcmp byaml_file = true → Agree m strcmp byaml_file := by
  intro h
  obtain ⟨-, hbytes, -⟩ := h _ _ 0x1000 byteDifference_conforming twoKeys_isValid
  have hcontainer : IsContainerRoot (rootType (documentMemory twoKeys) 0x1000) := by
    left
    decide +kernel
  have hvalue := hbytes.container (by unfold hasRoot; decide +kernel) hcontainer
  revert hvalue
  decide +kernel

end Awn.Byaml
