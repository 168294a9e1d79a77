import Awn.Byaml.Lookup

/-!
Hash arrays of hashes of 32 or 64 bits: the header of four bytes, the hashes each with its value, a
byte for the type of each, and at the next multiple of four the numbers of the entries by index.
-/

namespace Awn.Byaml

open Memory
open Sarc (read32 native32)

namespace ByamlIterator

variable (m : Bytes) (it : ByamlIterator)

def entryAddress (i : BitVec 32) : BitVec 64 :=
  it.container + 0x4 + (it.stride.setWidth 64 + 0x4) * i.setWidth 64

def hashAt (i : BitVec 32) : BitVec 64 :=
  if it.stride = 0x8 then native64 (it.rev m) (read64 m (it.entryAddress i))
  else (native32 (it.rev m) (read32 m (it.entryAddress i))).setWidth 64

def valueAt (i : BitVec 32) : BitVec 32 :=
  native32 (it.rev m) (read32 m (it.entryAddress i + it.stride.setWidth 64))

def typesAddress : BitVec 64 := it.entryAddress (it.count m)

def typeAt (i : BitVec 32) : ByamlDataType := read8 m (it.typesAddress m + i.setWidth 64)

def remapAddress : BitVec 64 := it.typesAddress m + alignUp ((it.count m).setWidth 64) 4

def hasRemap : Prop := it.m_container_data.data_type &&& 0xf0 = .HashArrayWithRemapU32_1

instance : Decidable it.hasRemap := inferInstanceAs (Decidable (_ = _))

def entryOf (index : BitVec 32) : BitVec 32 :=
  if it.hasRemap then RemapIndex m (it.rev m) (it.remapAddress m) (it.count m) index else index

structure OnHashArray : Prop where
  byaml_ne : it.m_byaml ≠ 0
  container_ne : it.container ≠ 0
  data_type : it.m_container_data.data_type ∈ [ByamlDataType.HashArrayU32_1, .HashArrayU32_2,
    .HashArrayWithRemapU32_1, .HashArrayWithRemapU32_2]
  header : containerDataType m it.container = it.m_container_data.data_type
  ascending : ∀ i j : BitVec 32, i < j → j < it.count m → (it.hashAt m i).toNat < (it.hashAt m j).toNat
  entry_lt : ∀ index < it.count m, it.entryOf m index < it.count m

def FindsByHash {w : ℕ} (lookup : ℕ → ByamlData → BitVec w → Option (Bool × ByamlData)) : Prop :=
  ∃ enough, ∀ fuel ≥ enough, ∀ out_byaml_data hash,
    (∀ i < it.count m, it.hashAt m i = hash.setWidth 64 →
      lookup fuel out_byaml_data hash = some (true, ⟨i.setWidth 24, it.typeAt m i, it.valueAt m i⟩)) ∧
    ((∀ i < it.count m, it.hashAt m i ≠ hash.setWidth 64) →
      ∃ left, lookup fuel out_byaml_data hash = some (false, left))

def FindsByIndex : Prop :=
  ∀ out_byaml_data index,
    (index < it.count m → ∃ data, it.TryGetByamlDataByIndex m out_byaml_data index = (true, data) ∧
      data.data_type = it.typeAt m (it.entryOf m index) ∧
        data.u32_value = it.valueAt m (it.entryOf m index)) ∧
    (it.count m ≤ index → (it.TryGetByamlDataByIndex m out_byaml_data index).1 = false)

def typeRead (entry : BitVec 32) : ByamlDataType :=
  read8 m (it.container + (dataTypeOffset it.stride (it.count m) + entry).setWidth 64)

def valueRead (entry : BitVec 32) : BitVec 32 :=
  native32 (it.rev m) (read32 m (it.container +
    ((it.stride + 0x4) * entry + it.stride + 0x4).setWidth 64))

def entryRead (index : BitVec 32) : BitVec 32 :=
  RemapIndex m (it.rev m) (it.remapAddress m - 4) (it.count m) index

def Shifted : Prop :=
  it.count m = 0 ∨
    read32 m (it.m_byaml + 0x4) ≠ 0 ∧
      (∀ i < it.count m, it.typeRead m i = it.typeAt m i) ∧
        (it.hasRemap → ∀ index < it.count m,
          it.typeRead m (it.entryRead m index) = it.typeAt m (it.entryOf m index) ∧
            it.valueRead m (it.entryRead m index) = it.valueAt m (it.entryOf m index))

def lowHash (i : BitVec 32) : BitVec 32 := (it.hashAt m i).setWidth 32

def LowHalvesLead : Prop :=
  ∀ i < it.count m, (it.hashAt m i).toNat < 2 ^ 32 ↔
    Sorted.Leads (fun a => Sorted.standing (it.lowHash m i).toNat (it.lowHash m a).toNat) i
      (Sorted.above i (it.count m).toNat.succ 0 (it.count m))

variable {m it}

theorem count_lt : (it.count m).toNat < 2 ^ 24 := GetCount_lt _ _ _

section Reads

theorem hashAddress_eq (i : BitVec 32) : hashAddress it.container it.stride i = it.entryAddress i := by
  rw [hashAddress, entryAddress, BitVec.add_assoc, BitVec.add_assoc,
    BitVec.add_comm (0x4 : BitVec 64)]

theorem GetValue_eq (i : BitVec 32) : GetValue m (it.rev m) it.container it.stride i = it.valueAt m i := by
  rw [GetValue, hashAddress_eq, valueAt]

variable (h : it.OnHashArray m)
include h

theorem stride_cases : it.stride = 0x4 ∨ it.stride = 0x8 := by
  have htype := h.data_type
  simp only [List.mem_cons, List.not_mem_nil, or_false] at htype
  rw [stride]
  obtain htype | htype | htype | htype := htype <;> rw [htype] <;> decide

theorem GetHash_eq (i : BitVec 32) : GetHash m (it.rev m) it.container it.stride i = it.hashAt m i := by
  rw [GetHash, hashAddress_eq, hashAt]
  obtain hstride | hstride := stride_cases h
  · rw [hstride]
    rfl
  · rw [hstride]
    rfl

theorem stride_add_le : (it.stride + 0x4).toNat ≤ 12 := by
  obtain hstride | hstride := stride_cases h
  · rw [hstride]
    decide
  · rw [hstride]
    decide

theorem scaled_le {i : BitVec 32} (hi : i.toNat < 2 ^ 24) :
    (it.stride + 0x4).toNat * i.toNat ≤ 12 * 2 ^ 24 :=
  Nat.mul_le_mul (stride_add_le h) (Nat.le_of_lt hi)

theorem scaled_toNat_le {i : BitVec 32} (hi : i.toNat < 2 ^ 24) :
    ((it.stride + 0x4) * i).toNat ≤ 12 * 2 ^ 24 := by
  rw [BitVec.toNat_mul]
  exact Nat.le_trans (Nat.mod_le _ _) (scaled_le h hi)

theorem scaled_widen {i : BitVec 32} (hi : i.toNat < 2 ^ 24) :
    ((it.stride + 0x4) * i).setWidth 64 = (it.stride.setWidth 64 + 0x4) * i.setWidth 64 := by
  have hscaled := scaled_le h hi
  rw [widen_mul (by omega), widen_add]
  · rfl
  · have hfour : (0x4 : BitVec 32).toNat = 4 := rfl
    obtain hstride | hstride := stride_cases h <;> rw [hstride] <;> decide

theorem dataTypeOffset_add {i : BitVec 32} (hi : i < it.count m) :
    (dataTypeOffset it.stride (it.count m) + i).setWidth 64 =
      (dataTypeOffset it.stride (it.count m)).setWidth 64 + i.setWidth 64 := by
  have hcount : (it.count m).toNat < 2 ^ 24 := count_lt
  have hscaled := scaled_toNat_le h hcount
  rw [BitVec.lt_def] at hi
  apply widen_add
  rw [dataTypeOffset]
  omega

theorem valueRead_eq {i : BitVec 32} (hi : i < it.count m) : it.valueRead m i = it.valueAt m i := by
  have hcount : (it.count m).toNat < 2 ^ 24 := count_lt
  rw [BitVec.lt_def] at hi
  have hscaled := scaled_toNat_le h (i := i) (by omega)
  have hstride : it.stride.toNat ≤ 8 := by
    obtain hstride | hstride := stride_cases h <;> rw [hstride] <;> decide
  have hfour : (0x4 : BitVec 32).toNat = 4 := rfl
  have hoffset : ((it.stride + 0x4) * i + it.stride + 0x4).setWidth 64 =
      (it.stride.setWidth 64 + 0x4) * i.setWidth 64 + it.stride.setWidth 64 + 0x4 := by
    rw [widen_add, widen_add (by omega), scaled_widen h (by omega)]
    · rfl
    · rw [BitVec.toNat_add, hfour]
      omega
  rw [valueRead, valueAt, entryAddress, hoffset, BitVec.add_comm _ (0x4 : BitVec 64),
    ← BitVec.add_assoc, ← BitVec.add_assoc]

theorem remapAddress_eq : it.container + ((alignUp ((it.stride.setWidth 64 + 0x4 + 0x1) *
    (it.count m).setWidth 64) 4).setWidth 32).setWidth 64 = it.remapAddress m - 4 := by
  have hcount : (it.count m).toNat < 2 ^ 24 := count_lt
  have hwide := widen_toNat (it.count m)
  have hup : ∀ x : BitVec 64, (alignUp x 4).toNat = (x.toNat + 3) % 2 ^ 64 / 4 * 4 :=
    fun x => alignUp_toNat x (k := 2) (by decide)
  -- the entries have a multiple of four bytes, so that only the types are padded
  have haligned : alignUp ((it.stride.setWidth 64 + 0x4 + 0x1) * (it.count m).setWidth 64) 4 =
      (it.stride.setWidth 64 + 0x4) * (it.count m).setWidth 64 +
        alignUp ((it.count m).setWidth 64) 4 := by
    apply BitVec.eq_of_toNat_eq
    rw [hup, BitVec.toNat_add, hup, BitVec.toNat_mul, BitVec.toNat_mul, hwide]
    obtain hstride | hstride := stride_cases h
    · rw [hstride]
      change (9 * (it.count m).toNat % 2 ^ 64 + 3) % 2 ^ 64 / 4 * 4 =
        (8 * (it.count m).toNat % 2 ^ 64 + ((it.count m).toNat + 3) % 2 ^ 64 / 4 * 4) % 2 ^ 64
      simp (disch := omega) only [Nat.mod_eq_of_lt]
      omega
    · rw [hstride]
      change (13 * (it.count m).toNat % 2 ^ 64 + 3) % 2 ^ 64 / 4 * 4 =
        (12 * (it.count m).toNat % 2 ^ 64 + ((it.count m).toNat + 3) % 2 ^ 64 / 4 * 4) % 2 ^ 64
      simp (disch := omega) only [Nat.mod_eq_of_lt]
      omega
  have hsmall : ((it.stride.setWidth 64 + 0x4) * (it.count m).setWidth 64 +
      alignUp ((it.count m).setWidth 64) 4).toNat < 2 ^ 32 := by
    have hscaled := scaled_toNat_le h hcount
    rw [BitVec.toNat_add, hup, hwide, ← scaled_widen h hcount, widen_toNat]
    omega
  rw [haligned, narrow_widen hsmall, remapAddress, typesAddress, entryAddress]
  have hheader : it.container + 0x4 + (it.stride.setWidth 64 + 0x4) * (it.count m).setWidth 64 +
      alignUp ((it.count m).setWidth 64) 4 =
        it.container + ((it.stride.setWidth 64 + 0x4) * (it.count m).setWidth 64 +
          alignUp ((it.count m).setWidth 64) 4) + 0x4 := by
    ac_rfl
  rw [hheader, BitVec.add_sub_cancel]

end Reads

section ByHash

def outcome (m : Bytes) (it : ByamlIterator) : Option (BitVec 32) → Bool × ByamlData
  | none => (false, .cleared)
  | some i => (true, ⟨i.setWidth 24, it.typeRead m i, it.valueAt m i⟩)

theorem standing_toNat {w : ℕ} (a b : BitVec w) :
    (if a = b then Ordering.eq else if b < a then .gt else .lt) = Sorted.standing a.toNat b.toNat := by
  rw [Sorted.standing]
  simp only [BitVec.lt_def, ← BitVec.toNat_inj]

theorem findsByHash_empty {w : ℕ} {lookup : ℕ → ByamlData → BitVec w → Option (Bool × ByamlData)}
    (hcount : it.count m = 0)
    (hlookup : ∀ fuel out hash, 0 < fuel → ∃ left, lookup fuel out hash = some (false, left)) :
    it.FindsByHash m lookup := by
  refine ⟨1, fun fuel hfuel out hash => ⟨?_, fun _ => hlookup fuel out hash hfuel⟩⟩
  intro i hi
  rw [hcount, BitVec.lt_def] at hi
  exact absurd hi (Nat.not_lt_zero _)

theorem search32_iff {i : BitVec 32} {fuel : ℕ} (hi : i < it.count m) (hfuel : (it.count m).toNat < fuel)
    (hash : BitVec 32) :
    Sorted.bisect (fun a => Sorted.standing hash.toNat (it.lowHash m a).toNat) fuel 0 (it.count m) =
        some (some i) ↔
      hash = it.lowHash m i ∧
        Sorted.Leads (fun a => Sorted.standing (it.lowHash m i).toNat (it.lowHash m a).toNat) i
          (Sorted.above i (it.count m).toNat.succ 0 (it.count m)) := by
  have hcount : (it.count m).toNat < 2 ^ 24 := count_lt
  have hnull : (0 : BitVec 32).toNat = 0 := rfl
  rw [Sorted.bisect_eq_some_iff (k := (it.count m).toNat.succ) (by omega) (BitVec.le_def.mpr (by omega))
    hi (by omega) (by omega), Sorted.standing_eq_iff, BitVec.toNat_inj]
  constructor
  · rintro ⟨rfl, hleads⟩
    exact ⟨rfl, hleads⟩
  · rintro ⟨rfl, hleads⟩
    exact ⟨rfl, hleads⟩

theorem lowHash_wide {i : BitVec 32} (hi : (it.hashAt m i).toNat < 2 ^ 32) :
    (it.lowHash m i).setWidth 64 = it.hashAt m i := narrow_widen hi

theorem outcome_inj {i j : BitVec 32} (hi : i < it.count m) (hj : j < it.count m)
    {data_type : ByamlDataType} {value : BitVec 32}
    (heq : it.outcome m (some i) = (true, ⟨j.setWidth 24, data_type, value⟩)) : i = j := by
  have hcount : (it.count m).toNat < 2 ^ 24 := count_lt
  rw [BitVec.lt_def] at hi hj
  have hkey : i.setWidth 24 = j.setWidth 24 := congrArg (fun r => r.2.key_index) heq
  have hnat := congrArg BitVec.toNat hkey
  rw [BitVec.toNat_setWidth, BitVec.toNat_setWidth, Nat.mod_eq_of_lt (by omega),
    Nat.mod_eq_of_lt (by omega)] at hnat
  exact BitVec.eq_of_toNat_eq hnat

variable (h : it.OnHashArray m) {fuel : ℕ}
include h

theorem hasHashArray_eq_false_iff : it.hasHashArray m = false ↔ read32 m (it.m_byaml + 0x4) = 0 := by
  have hmask : it.m_container_data.data_type &&& 0xe0 = ByamlDataType.HashArrayU32_1 := by
    have htype := h.data_type
    simp only [List.mem_cons, List.not_mem_nil, or_false] at htype
    obtain htype | htype | htype | htype := htype <;> rw [htype] <;> decide
  have hbyaml : (it.m_byaml == 0) = false := beq_false_of_ne h.byaml_ne
  rw [hasHashArray, hmask, hbyaml, bne_self_eq_false, Bool.false_or, Bool.or_false,
    Bool.not_eq_false', beq_iff_eq]

theorem dataByHash_eq (hkeys : read32 m (it.m_byaml + 0x4) ≠ 0) (compare : BitVec 64 → Ordering)
    (out_byaml_data : ByamlData) :
    it.dataByHash m compare fuel out_byaml_data =
      (Sorted.bisect (fun i => compare (it.hashAt m i)) fuel 0 (it.count m)).map (it.outcome m) := by
  have hcount : (it.count m).toNat < 2 ^ 24 := count_lt
  have hhash : (fun i => compare (GetHash m (it.rev m) it.container it.stride i)) =
      fun i => compare (it.hashAt m i) := by
    funext i
    rw [GetHash_eq h]
  rw [dataByHash, if_neg ((hasHashArray_eq_false_iff h).not.mpr hkeys)]
  dsimp only
  rw [hhash, ← count]
  cases hsearch : Sorted.bisect (fun i => compare (it.hashAt m i)) fuel 0 (it.count m) with
  | none => rfl
  | some found =>
    cases found with
    | none => rfl
    | some i =>
      have hi := (Sorted.bisect_found (by omega) hsearch).1
      simp only [Option.map_some, outcome, GetValue_eq, typeRead]
      rw [dataTypeOffset_add h hi, BitVec.add_assoc]

theorem lookup64_eq (hkeys : read32 m (it.m_byaml + 0x4) ≠ 0) (out_byaml_data : ByamlData)
    (hash : BitVec 64) : it.TryGetByamlDataByHash64 m fuel out_byaml_data hash =
      (Sorted.bisect (fun i => Sorted.standing hash.toNat (it.hashAt m i).toNat) fuel 0
        (it.count m)).map (it.outcome m) := by
  rw [TryGetByamlDataByHash64, dataByHash_eq h hkeys]
  simp only [standing_toNat]

theorem lookup32_eq (hkeys : read32 m (it.m_byaml + 0x4) ≠ 0) (out_byaml_data : ByamlData)
    (hash : BitVec 32) : it.TryGetByamlDataByHash32 m fuel out_byaml_data hash =
      (Sorted.bisect (fun i => Sorted.standing hash.toNat (it.lowHash m i).toNat) fuel 0
        (it.count m)).map (it.outcome m) := by
  rw [TryGetByamlDataByHash32, dataByHash_eq h hkeys]
  simp only [standing_toNat, lowHash]

theorem hashes_ascend (hash : BitVec 64) :
    Sorted.Ascends (fun i => Sorted.standing hash.toNat (it.hashAt m i).toNat) (it.count m).toNat :=
  Sorted.ascends_standing hash.toNat (fun _ _ => rfl)
    fun i j hij hj => h.ascending i j hij (BitVec.lt_def.mpr hj)

theorem lookup64_present (hkeys : read32 m (it.m_byaml + 0x4) ≠ 0)
    (hfuel : (it.count m).toNat < fuel) (out_byaml_data : ByamlData) {i : BitVec 32}
    (hi : i < it.count m) : it.TryGetByamlDataByHash64 m fuel out_byaml_data (it.hashAt m i) =
      some (it.outcome m (some i)) := by
  have hcount : (it.count m).toNat < 2 ^ 24 := count_lt
  rw [lookup64_eq h hkeys, Sorted.bisect_eq_linearSearch (hashes_ascend h _) (by omega) hfuel,
    Sorted.linearSearch_eq_some (hashes_ascend h _) (by omega) (BitVec.lt_def.mp hi)
      (Sorted.standing_eq_iff.mpr rfl)]
  rfl

theorem lookup64_absent (hkeys : read32 m (it.m_byaml + 0x4) ≠ 0)
    (hfuel : (it.count m).toNat < fuel) (out_byaml_data : ByamlData) {hash : BitVec 64}
    (habsent : ∀ i < it.count m, it.hashAt m i ≠ hash) :
    it.TryGetByamlDataByHash64 m fuel out_byaml_data hash = some (false, .cleared) := by
  have hcount : (it.count m).toNat < 2 ^ 24 := count_lt
  rw [lookup64_eq h hkeys, Sorted.bisect_eq_linearSearch (hashes_ascend h _) (by omega) hfuel,
    Sorted.linearSearch_eq_none]
  · rfl
  · intro i hi heq
    rw [Sorted.standing_eq_iff] at heq
    exact habsent i (BitVec.lt_def.mpr hi) (BitVec.eq_of_toNat_eq heq).symm
  · omega

theorem findsByHash64_iff : it.FindsByHash m (it.TryGetByamlDataByHash64 m) ↔
    it.count m = 0 ∨ read32 m (it.m_byaml + 0x4) ≠ 0 ∧
      ∀ i < it.count m, it.typeRead m i = it.typeAt m i := by
  have hcount : (it.count m).toNat < 2 ^ 24 := count_lt
  constructor
  · rintro ⟨enough, hfinds⟩
    by_cases hempty : it.count m = 0
    · exact Or.inl hempty
    · right
      let fuel := max enough (2 ^ 24)
      have hpresent : ∀ i < it.count m, it.TryGetByamlDataByHash64 m fuel noData (it.hashAt m i) =
          some (true, ⟨i.setWidth 24, it.typeAt m i, it.valueAt m i⟩) := by
        intro i hi
        exact (hfinds fuel (Nat.le_max_left _ _) noData (it.hashAt m i)).1 i hi
          (BitVec.setWidth_eq _).symm
      have hkeys : read32 m (it.m_byaml + 0x4) ≠ 0 := by
        intro hz
        have hzero : (0 : BitVec 32) < it.count m := by
          have hpos : (it.count m).toNat ≠ 0 := fun hz => hempty (BitVec.eq_of_toNat_eq hz)
          exact BitVec.lt_def.mpr (Nat.pos_of_ne_zero hpos)
        have hfound := hpresent 0 hzero
        rw [TryGetByamlDataByHash64, dataByHash, if_pos ((hasHashArray_eq_false_iff h).mpr hz)] at hfound
        cases hfound
      refine ⟨hkeys, fun i hi => ?_⟩
      have hfound := hpresent i hi
      rw [lookup64_present h hkeys (Nat.lt_of_lt_of_le hcount (Nat.le_max_right _ _)) noData hi,
        outcome] at hfound
      simpa using hfound
  · rintro (hempty | ⟨hkeys, htypes⟩)
    · apply findsByHash_empty hempty
      intro fuel out hash hfuel
      by_cases hkeys : read32 m (it.m_byaml + 0x4) = 0
      · refine ⟨out, ?_⟩
        rw [TryGetByamlDataByHash64, dataByHash, if_pos ((hasHashArray_eq_false_iff h).mpr hkeys)]
      · refine ⟨.cleared, lookup64_absent h hkeys ?_ out ?_⟩
        · rw [hempty]
          exact hfuel
        · intro i hi
          rw [hempty, BitVec.lt_def] at hi
          exact absurd hi (Nat.not_lt_zero _)
    · refine ⟨2 ^ 24, fun fuel hfuel out hash => ⟨?_, ?_⟩⟩
      · intro i hi hhash
        rw [BitVec.setWidth_eq] at hhash
        rw [← hhash, lookup64_present h hkeys (Nat.lt_of_lt_of_le hcount hfuel) out hi, outcome,
          htypes i hi]
      · intro habsent
        rw [BitVec.setWidth_eq] at habsent
        exact ⟨.cleared, lookup64_absent h hkeys (Nat.lt_of_lt_of_le hcount hfuel) out habsent⟩

theorem lookup32_empty (hempty : it.count m = 0) :
    it.FindsByHash m (it.TryGetByamlDataByHash32 m) := by
  apply findsByHash_empty hempty
  intro fuel out hash hfuel
  by_cases hkeys : read32 m (it.m_byaml + 0x4) = 0
  · refine ⟨out, ?_⟩
    rw [TryGetByamlDataByHash32, dataByHash, if_pos ((hasHashArray_eq_false_iff h).mpr hkeys)]
  · refine ⟨.cleared, ?_⟩
    obtain ⟨fuel, rfl⟩ := Nat.exists_eq_add_one_of_ne_zero (Nat.ne_of_gt hfuel)
    rw [lookup32_eq h hkeys, hempty]
    rfl

theorem findsByHash32_iff (hkeys : read32 m (it.m_byaml + 0x4) ≠ 0)
    (htypes : ∀ i < it.count m, it.typeRead m i = it.typeAt m i) :
    it.FindsByHash m (it.TryGetByamlDataByHash32 m) ↔ it.LowHalvesLead m := by
  have hcount : (it.count m).toNat < 2 ^ 24 := count_lt
  constructor
  · rintro ⟨enough, hfinds⟩ i hi
    let fuel := max enough (2 ^ 24)
    have hfuel : (it.count m).toNat < fuel := Nat.lt_of_lt_of_le hcount (Nat.le_max_right _ _)
    obtain ⟨hpresent, habsent⟩ := hfinds fuel (Nat.le_max_left _ _) noData (it.lowHash m i)
    rw [lookup32_eq h hkeys] at hpresent habsent
    constructor
    · intro hsmall
      have hfound := hpresent i hi (lowHash_wide hsmall).symm
      obtain ⟨r, hr, houtcome⟩ := Option.map_eq_some_iff.mp hfound
      cases r with
      | none => cases houtcome
      | some j =>
        have hj := (Sorted.bisect_found (by omega) hr).1
        obtain rfl := outcome_inj hj hi houtcome
        exact ((search32_iff hi hfuel _).mp hr).2
    · intro hleads
      have hsearch := (search32_iff hi hfuel (it.lowHash m i)).mpr ⟨rfl, hleads⟩
      rw [hsearch] at hpresent habsent
      by_contra hwide
      by_cases hmem : ∃ k < it.count m, it.hashAt m k = (it.lowHash m i).setWidth 64
      · obtain ⟨k, hk, hhash⟩ := hmem
        have hfound := Option.some.inj (hpresent k hk hhash)
        obtain rfl := outcome_inj hi hk hfound
        rw [hhash, widen_toNat] at hwide
        exact hwide (it.lowHash m i).isLt
      · obtain ⟨left, hleft⟩ := habsent fun k hk hhash => hmem ⟨k, hk, hhash⟩
        cases hleft
  · intro hlead
    refine ⟨2 ^ 24, fun fuel hfuel out hash => ?_⟩
    have hfuel : (it.count m).toNat < fuel := Nat.lt_of_lt_of_le hcount hfuel
    rw [lookup32_eq h hkeys]
    constructor
    · intro i hi hhash
      have hlow : hash = it.lowHash m i := by
        rw [lowHash, hhash, widen_narrow]
      have hsmall : (it.hashAt m i).toNat < 2 ^ 32 := by
        rw [hhash, widen_toNat]
        exact hash.isLt
      rw [(search32_iff hi hfuel hash).mpr ⟨hlow, (hlead i hi).mp hsmall⟩, Option.map_some, outcome,
        htypes i hi]
    · intro habsent
      have hnull : (0 : BitVec 32).toNat = 0 := rfl
      have hends : (Sorted.bisect (fun a => Sorted.standing hash.toNat (it.lowHash m a).toNat) fuel 0
          (it.count m)).isSome := Sorted.bisect_isSome (by omega) (by omega)
      obtain ⟨r, hr⟩ := Option.isSome_iff_exists.mp hends
      cases r with
      | none =>
        rw [hr]
        exact ⟨.cleared, rfl⟩
      | some i =>
        have hi := (Sorted.bisect_found (by omega) hr).1
        obtain ⟨rfl, hleads⟩ := (search32_iff hi hfuel hash).mp hr
        exact absurd (lowHash_wide ((hlead i hi).mpr hleads)).symm (habsent i hi)

theorem lowHalvesLead_narrow (hstride : it.stride = 0x4) : it.LowHalvesLead m := by
  have hcount : (it.count m).toNat < 2 ^ 24 := count_lt
  have hnarrow : ∀ i, (it.hashAt m i).toNat < 2 ^ 32 := by
    intro i
    rw [hashAt, if_neg (by rw [hstride]; decide), widen_toNat]
    exact (native32 (it.rev m) (read32 m (it.entryAddress i))).isLt
  have hlow : ∀ i, (it.lowHash m i).toNat = (it.hashAt m i).toNat := by
    intro i
    rw [lowHash, BitVec.toNat_setWidth, Nat.mod_eq_of_lt (hnarrow i)]
  intro i hi
  refine iff_of_true (hnarrow i) ?_
  have hascends := hashes_ascend h (it.hashAt m i)
  have hsearch : Sorted.bisect (fun a => Sorted.standing (it.lowHash m i).toNat (it.lowHash m a).toNat)
      ((it.count m).toNat + 1) 0 (it.count m) = some (some i) := by
    simp only [hlow]
    rw [Sorted.bisect_eq_linearSearch hascends (by omega) (Nat.lt_succ_self _),
      Sorted.linearSearch_eq_some hascends (by omega) (BitVec.lt_def.mp hi)
        (Sorted.standing_eq_iff.mpr rfl)]
  exact ((search32_iff hi (Nat.lt_succ_self _) _).mp hsearch).2

end ByHash

section ByIndex

variable (h : it.OnHashArray m)
include h

def indexRead (m : Bytes) (it : ByamlIterator) (index : BitVec 32) : BitVec 32 :=
  if it.hasRemap then it.entryRead m index else index

theorem lookupByIndex_eq (out_byaml_data : ByamlData) (index : BitVec 32) :
    it.TryGetByamlDataByIndex m out_byaml_data index =
      if it.count m ≤ index then (false, out_byaml_data)
      else (true, ⟨(it.indexRead m index).setWidth 24, it.typeRead m (it.indexRead m index),
        it.valueRead m (it.indexRead m index)⟩) := by
  have htype := h.data_type
  simp only [List.mem_cons, List.not_mem_nil, or_false] at htype
  have hstride : (containerDataType m it.container &&& 0xf).setWidth 32 * 0x4 + 0x4 = it.stride := by
    rw [h.header]
    rfl
  have hdictionary : ¬(it.m_container_data.data_type = .Dictionary ∨
      it.m_container_data.data_type = .DictionaryWithRemap) := by
    obtain htype | htype | htype | htype := htype <;> rw [htype] <;> decide
  have harray : ¬(it.m_container_data.data_type = .Array ∨
      it.m_container_data.data_type = .MonoTypedArray) := by
    obtain htype | htype | htype | htype := htype <;> rw [htype] <;> decide
  have hmask : it.m_container_data.data_type &&& 0xe0 = .HashArrayU32_1 := by
    obtain htype | htype | htype | htype := htype <;> rw [htype] <;> decide
  rw [TryGetByamlDataByIndex]
  dsimp only
  rw [if_neg hdictionary, if_neg harray, if_pos hmask, hstride, hashArrayDataByIndex]
  by_cases hindex : it.count m ≤ index
  · have houtside : it.container = 0 ∨ GetCount m (it.rev m) it.container ≤ index := Or.inr hindex
    rw [if_pos hindex, if_pos houtside]
  · have hinside : ¬(it.container = 0 ∨ GetCount m (it.rev m) it.container ≤ index) := by
      rintro (hz | hle)
      · exact h.container_ne hz
      · exact hindex hle
    have hnumber : (if containerDataType m it.container &&& 0xf0 = .HashArrayWithRemapU32_1 then
        RemapIndex m (it.rev m) (it.container + ((alignUp ((it.stride.setWidth 64 + 0x4 + 0x1) *
          (GetCount m (it.rev m) it.container).setWidth 64) 4).setWidth 32).setWidth 64)
          (GetCount m (it.rev m) it.container) index else index) = it.indexRead m index := by
      rw [indexRead, entryRead, ← remapAddress_eq h, h.header]
      rfl
    rw [if_neg hindex, if_neg hinside]
    dsimp only
    rw [hnumber]
    rfl

theorem findsByIndex_iff (htypes : ∀ i < it.count m, it.typeRead m i = it.typeAt m i) :
    it.FindsByIndex m ↔ (it.hasRemap → ∀ index < it.count m,
      it.typeRead m (it.entryRead m index) = it.typeAt m (it.entryOf m index) ∧
        it.valueRead m (it.entryRead m index) = it.valueAt m (it.entryOf m index)) := by
  constructor
  · intro hfinds hremap index hindex
    obtain ⟨data, hdata, htype, hvalue⟩ := (hfinds noData index).1 hindex
    rw [lookupByIndex_eq h, if_neg (BitVec.not_le.mpr hindex), indexRead, if_pos hremap] at hdata
    cases hdata
    exact ⟨htype, hvalue⟩
  · intro hsame out index
    rw [lookupByIndex_eq h]
    constructor
    · intro hindex
      refine ⟨_, if_neg (BitVec.not_le.mpr hindex), ?_⟩
      by_cases hremap : it.hasRemap
      · rw [indexRead, if_pos hremap]
        exact hsame hremap index hindex
      · rw [indexRead, if_neg hremap, entryOf, if_neg hremap]
        exact ⟨htypes index hindex, valueRead_eq h hindex⟩
    · intro hindex
      rw [if_pos hindex]

end ByIndex

/-- In every hash array of hashes of 32 or 64 bits the lookups by hash and by index find what is
stored just if the bytes are the same where they are read; the lookup of a hash of 32 bits asks for
more where the hashes have 64. -/
theorem findsHash_iff (h : it.OnHashArray m) :
    (it.FindsByHash m (it.TryGetByamlDataByHash64 m) ∧ it.FindsByIndex m ↔ it.Shifted m) ∧
    (it.FindsByHash m (it.TryGetByamlDataByHash64 m) ∧ it.FindsByIndex m ∧
      it.FindsByHash m (it.TryGetByamlDataByHash32 m) ↔ it.Shifted m ∧ it.LowHalvesLead m) ∧
    (it.stride = 0x4 → it.LowHalvesLead m) := by
  have hwide : it.FindsByHash m (it.TryGetByamlDataByHash64 m) ∧ it.FindsByIndex m ↔ it.Shifted m := by
    rw [findsByHash64_iff h, Shifted]
    constructor
    · rintro ⟨hempty | ⟨hkeys, htypes⟩, hindex⟩
      · exact Or.inl hempty
      · exact Or.inr ⟨hkeys, htypes, (findsByIndex_iff h htypes).mp hindex⟩
    · rintro (hempty | ⟨hkeys, htypes, hremap⟩)
      · have hnone : ∀ index : BitVec 32, ¬index < it.count m := by
          intro index hlt
          rw [hempty, BitVec.lt_def] at hlt
          exact Nat.not_lt_zero _ hlt
        exact ⟨Or.inl hempty, (findsByIndex_iff h fun i hi => absurd hi (hnone i)).mpr
          fun _ index hindex => absurd hindex (hnone index)⟩
      · exact ⟨Or.inr ⟨hkeys, htypes⟩, (findsByIndex_iff h htypes).mpr hremap⟩
  refine ⟨hwide, ?_, lowHalvesLead_narrow h⟩
  rw [← and_assoc, hwide]
  apply and_congr_right
  rintro (hempty | ⟨hkeys, htypes, -⟩)
  · refine iff_of_true (lookup32_empty h hempty) ?_
    intro i hi
    rw [hempty, BitVec.lt_def] at hi
    exact absurd hi (Nat.not_lt_zero _)
  · exact findsByHash32_iff h hkeys htypes

end ByamlIterator

def oneHash : List (BitVec 8) :=
  twoKeys.take 0x24 ++
    [0x20, 0x01, 0x00, 0x00, 0x05, 0x00, 0x00, 0x00, 0x07, 0x00, 0x00, 0x00, 0xd3]

def oneHashRoot : ByamlIterator := ⟨0x1000, ⟨0, .HashArrayU32_1, 0x24⟩⟩

theorem oneHashRoot_onHashArray : oneHashRoot.OnHashArray (documentMemory oneHash) where
  byaml_ne := by decide
  container_ne := by decide
  data_type := by decide
  header := by decide +kernel
  ascending i j hij hj := by
    have hcount : (oneHashRoot.count (documentMemory oneHash)).toNat = 1 := by decide +kernel
    rw [BitVec.lt_def] at hij hj
    omega
  entry_lt index hindex := by
    have hremap : ¬oneHashRoot.hasRemap := by decide
    rw [ByamlIterator.entryOf, if_neg hremap]
    exact hindex

theorem findsHash_iff_oneHash :
    oneHashRoot.FindsByHash (documentMemory oneHash)
        (oneHashRoot.TryGetByamlDataByHash64 (documentMemory oneHash)) ∧
      oneHashRoot.FindsByIndex (documentMemory oneHash) ↔ oneHashRoot.Shifted (documentMemory oneHash) :=
  (ByamlIterator.findsHash_iff oneHashRoot_onHashArray).1

theorem oneHash_misread : ¬∀ m (it : ByamlIterator), it.OnHashArray m →
    it.FindsByHash m (it.TryGetByamlDataByHash64 m) ∧ it.FindsByHash m (it.TryGetByamlDataByHash32 m) ∧
      it.FindsByIndex m := by
  intro h
  obtain ⟨-, -, hindex⟩ := h _ _ oneHashRoot_onHashArray
  obtain ⟨data, hdata, htype, -⟩ := (hindex noData 0).1 (by decide +kernel)
  have hread : oneHashRoot.TryGetByamlDataByIndex (documentMemory oneHash) noData 0 =
      (true, ⟨0, 7, 7⟩) := by decide +kernel
  rw [hread] at hdata
  cases hdata
  revert htype
  decide +kernel

end Awn.Byaml
