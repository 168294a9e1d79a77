import Awn.Byaml.Document

/-! Everything that is written of a container and its entries lies in the size of the container. -/

namespace Awn.Byaml.ByamlContainer

open Memory

def m_is_index_remap : ByamlContainer → Bool
  | Array _ => false
  | Dictionary m_is_index_remap => m_is_index_remap
  | HashArray m_is_index_remap _ => m_is_index_remap

def m_key_size : ByamlContainer → BitVec 32
  | HashArray _ m_key_size => m_key_size
  | _ => 0

structure Counted (container : ByamlContainer) (n : ℕ) : Prop where
  count : n < 2 ^ 32
  remap : container.m_is_index_remap = true → n < 2 ^ 30
  key : container.m_key_size.toNat ≤ 8

section Sizes

variable {types : List ByamlDataType} (hcount : types.length < 2 ^ 32)
include hcount

theorem m_node_count_toNat : (m_node_count types).toNat = types.length := by
  rw [m_node_count, BitVec.toNat_ofNat, Nat.mod_eq_of_lt hcount]

theorem count_toNat : ((m_node_count types).setWidth 64).toNat = types.length := by
  rw [widen_toNat, m_node_count_toNat hcount]

theorem stride_toNat {s : BitVec 64} {k : ℕ} (hs : s.toNat = k) (hk : k ≤ 12) :
    (s * (m_node_count types).setWidth 64).toNat = k * types.length := by
  have hle : k * types.length ≤ 12 * types.length := Nat.mul_le_mul_right _ hk
  rw [BitVec.toNat_mul, count_toNat hcount, hs, Nat.mod_eq_of_lt (by omega)]

theorem CalculateRemapSize_le (m_is_index_remap : Bool) :
    (CalculateRemapSize types m_is_index_remap).toNat ≤ 4 * types.length := by
  have hn := m_node_count_toNat hcount
  have htwo : (2 : BitVec 32).toNat = 2 := rfl
  have hfour : (4 : BitVec 32).toNat = 4 := rfl
  rw [CalculateRemapSize]
  split
  · exact Nat.zero_le _
  · split
    · omega
    · split
      · rw [BitVec.toNat_mul, hn, htwo]
        exact Nat.le_trans (Nat.mod_le _ _) (by omega)
      · rw [BitVec.toNat_mul, hn, hfour]
        exact Nat.mod_le _ _

theorem size_array (m_data_type_mode : ByamlArrayDataTypeMode) :
    (size types (Array m_data_type_mode)).toNat =
      4 + (dataTypeSize types m_data_type_mode).toNat + 4 * types.length := by
  have hfour : (4 : BitVec 64).toNat = 4 := rfl
  have hmul := stride_toNat hcount hfour (by decide)
  have ht := (dataTypeSize types m_data_type_mode).isLt
  rw [size, BitVec.toNat_add, BitVec.toNat_add, widen_toNat, hmul, hfour]
  omega

theorem size_dictionary (m_is_index_remap : Bool) :
    (size types (Dictionary m_is_index_remap)).toNat =
      4 + (CalculateRemapSize types m_is_index_remap).toNat + 8 * types.length := by
  have hfour : (4 : BitVec 64).toNat = 4 := rfl
  have height : (8 : BitVec 64).toNat = 8 := rfl
  have hmul := stride_toNat hcount height (by decide)
  have ht := (CalculateRemapSize types m_is_index_remap).isLt
  rw [size, BitVec.toNat_add, BitVec.toNat_add, widen_toNat, hmul, hfour]
  omega

omit hcount in
theorem key_stride {m_key_size : BitVec 32} (hkey : m_key_size.toNat ≤ 8) :
    (m_key_size.setWidth 64 + 4).toNat = m_key_size.toNat + 4 := by
  have hfour : (4 : BitVec 64).toNat = 4 := rfl
  rw [BitVec.toNat_add, widen_toNat, hfour]
  omega

theorem size_hashArray (m_is_index_remap : Bool) {m_key_size : BitVec 32}
    (hkey : m_key_size.toNat ≤ 8) :
    (size types (HashArray m_is_index_remap m_key_size)).toNat =
      4 + (CalculateRemapSize types m_is_index_remap).toNat +
        (m_key_size.toNat + 4) * types.length + types.length := by
  have hfour : (4 : BitVec 64).toNat = 4 := rfl
  have hkeys := key_stride hkey
  have hmul := stride_toNat hcount hkeys (by omega)
  have hle : (m_key_size.toNat + 4) * types.length ≤ 12 * types.length :=
    Nat.mul_le_mul_right _ (by omega)
  have ht := (CalculateRemapSize types m_is_index_remap).isLt
  rw [size, BitVec.toNat_add, BitVec.toNat_add, BitVec.toNat_add, widen_toNat, hmul,
    count_toNat hcount, hfour]
  omega

end Sizes

variable {types : List ByamlDataType} {container : BitVec 64} {kind : ByamlContainer}

theorem size_lt (h : kind.Counted types.length) : (kind.size types).toNat < 2 ^ 40 := by
  have hremap := CalculateRemapSize_le h.count kind.m_is_index_remap
  have hcount := h.count
  cases kind with
  | Array m_data_type_mode =>
    have ht := (dataTypeSize types m_data_type_mode).isLt
    rw [size_array hcount]
    omega
  | Dictionary m_is_index_remap =>
    rw [size_dictionary hcount]
    change (CalculateRemapSize types m_is_index_remap).toNat ≤ _ at hremap
    omega
  | HashArray m_is_index_remap m_key_size =>
    have hkey : m_key_size.toNat ≤ 8 := h.key
    have hle : (m_key_size.toNat + 4) * types.length ≤ 12 * types.length :=
      Nat.mul_le_mul_right _ (by omega)
    rw [size_hashArray hcount _ hkey]
    change (CalculateRemapSize types m_is_index_remap).toNat ≤ _ at hremap
    omega

theorem four_le_size (h : kind.Counted types.length) : 4 ≤ (kind.size types).toNat := by
  cases kind with
  | Array m_data_type_mode =>
    rw [size_array h.count]
    omega
  | Dictionary m_is_index_remap =>
    rw [size_dictionary h.count]
    omega
  | HashArray m_is_index_remap m_key_size =>
    rw [size_hashArray h.count _ (show m_key_size.toNat ≤ 8 from h.key)]
    omega

theorem eight_le_size (h : kind.Counted types.length) (hne : types ≠ []) :
    8 ≤ (kind.size types).toNat := by
  have hpos := List.length_pos_of_ne_nil hne
  cases kind with
  | Array m_data_type_mode =>
    rw [size_array h.count]
    omega
  | Dictionary m_is_index_remap =>
    rw [size_dictionary h.count]
    omega
  | HashArray m_is_index_remap m_key_size =>
    rw [size_hashArray h.count _ (show m_key_size.toNat ≤ 8 from h.key)]
    have hle : 4 * types.length ≤ (m_key_size.toNat + 4) * types.length :=
      Nat.mul_le_mul_right _ (by omega)
    omega

theorem writeHeader_within (h : kind.Counted types.length)
    (hfit : container.toNat + (kind.size types).toNat ≤ 2 ^ 63) :
    ∀ w ∈ kind.writeHeader types container,
      w.Within container.toNat (container.toNat + (kind.size types).toNat) := by
  have hsize := four_le_size h
  have hheader : (⟨container, wordBytes 4 ((kind.GetByamlDataType types).toNat +
      0x100 * ((m_node_count types).toNat % 2 ^ 24))⟩ : Write).Within container.toNat
      (container.toNat + (kind.size types).toNat) := by
    refine ⟨Nat.le_refl _, ?_⟩
    rw [length_wordBytes]
    exact Nat.add_le_add_left hsize _
  cases kind with
  | Array m_data_type_mode =>
    rw [writeHeader]
    split
    · rename_i hmono
      refine List.forall_mem_cons.mpr ⟨hheader, ?_⟩
      have hnot : ¬CheckMonoTyped types m_data_type_mode = false := by simp [hmono]
      have hone : (dataTypeSize types m_data_type_mode).toNat = 4 := by
        rw [dataTypeSize, if_neg hnot]
        rfl
      have hfour : (0x4 : BitVec 64).toNat = 4 := rfl
      rw [size_array h.count] at hfit ⊢
      intro w hw
      obtain ⟨data_type, -, rfl⟩ := List.mem_map.mp hw
      rw [Write.Within, BitVec.toNat_add, hfour, List.length_singleton]
      omega
    · exact List.forall_mem_cons.mpr ⟨hheader, fun w hw => by cases hw⟩
  | Dictionary m_is_index_remap => exact List.forall_mem_cons.mpr ⟨hheader, fun w hw => by cases hw⟩
  | HashArray m_is_index_remap m_key_size =>
    exact List.forall_mem_cons.mpr ⟨hheader, fun w hw => by cases hw⟩

theorem writeType_within {i : BitVec 32} {data_type : ByamlDataType} (h : kind.Counted types.length)
    (hi : i.toNat < types.length) (hfit : container.toNat + (kind.size types).toNat ≤ 2 ^ 63) :
    ∀ w ∈ kind.writeType types container i data_type,
      w.Within container.toNat (container.toNat + (kind.size types).toNat) := by
  cases kind with
  | Array m_data_type_mode =>
    rw [writeType]
    split
    · exact fun w hw => by cases hw
    · have hfour : (0x4 : BitVec 64).toNat = 4 := rfl
      rw [size_array h.count] at hfit ⊢
      intro w hw
      obtain rfl := List.mem_singleton.mp hw
      rw [Write.Within, BitVec.toNat_add, BitVec.toNat_add, hfour, widen_toNat,
        List.length_singleton]
      omega
  | Dictionary m_is_index_remap => exact fun w hw => by cases hw
  | HashArray m_is_index_remap m_key_size => exact fun w hw => by cases hw

variable {entry : ByamlEntry}

theorem writeIndex_within {m_is_index_remap : Bool} {remap_array : BitVec 64}
    (hcount : types.length < 2 ^ 32) (hremap : m_is_index_remap = true → types.length < 2 ^ 30)
    (hi : entry.i.toNat < types.length)
    (hfit : remap_array.toNat + (CalculateRemapSize types m_is_index_remap).toNat ≤ 2 ^ 63) :
    ∀ w ∈ writeIndex types m_is_index_remap remap_array entry, w.Within remap_array.toNat
      (remap_array.toNat + (CalculateRemapSize types m_is_index_remap).toNat) := by
  have hn := m_node_count_toNat hcount
  have htwo : (2 : BitVec 64).toNat = 2 := rfl
  have hfour : (4 : BitVec 64).toNat = 4 := rfl
  have htwo' : (2 : BitVec 32).toNat = 2 := rfl
  have hfour' : (4 : BitVec 32).toNat = 4 := rfl
  rw [writeIndex]
  split
  · exact fun w hw => by cases hw
  · rename_i hindexed
    have hsmall : types.length < 2 ^ 30 := hremap (by simpa using hindexed)
    by_cases hbyte : m_node_count types < 0x100
    · have hsize : (CalculateRemapSize types m_is_index_remap).toNat = types.length := by
        rw [CalculateRemapSize, if_neg hindexed, if_pos hbyte, hn]
      rw [hsize] at hfit ⊢
      rw [if_pos hbyte]
      intro w hw
      obtain rfl := List.mem_singleton.mp hw
      rw [Write.Within, BitVec.toNat_add, widen_toNat, length_wordBytes]
      omega
    · rw [if_neg hbyte]
      by_cases hshort : m_node_count types < 0x10000
      · have hsize : (CalculateRemapSize types m_is_index_remap).toNat = 2 * types.length := by
          rw [CalculateRemapSize, if_neg hindexed, if_neg hbyte, if_pos hshort, BitVec.toNat_mul, hn,
            htwo']
          omega
        rw [hsize] at hfit ⊢
        rw [if_pos hshort]
        intro w hw
        obtain rfl := List.mem_singleton.mp hw
        obtain ⟨hat, hle⟩ := element_toNat (a := remap_array) htwo hi (by omega)
        rw [Write.Within, hat, length_wordBytes]
        omega
      · have hsize : (CalculateRemapSize types m_is_index_remap).toNat = 4 * types.length := by
          rw [CalculateRemapSize, if_neg hindexed, if_neg hbyte, if_neg hshort, BitVec.toNat_mul, hn,
            hfour']
          omega
        rw [hsize] at hfit ⊢
        rw [if_neg hshort]
        intro w hw
        obtain rfl := List.mem_singleton.mp hw
        obtain ⟨hat, hle⟩ := element_toNat (a := remap_array) hfour hi (by omega)
        rw [Write.Within, hat, length_wordBytes]
        omega

theorem writeEntry_within (h : kind.Counted types.length) (hi : entry.i.toNat < types.length)
    (hvalue : entry.value.length ≤ 4)
    (hfit : container.toNat + (kind.size types).toNat ≤ 2 ^ 63) :
    ∀ w ∈ kind.writeEntry types container entry,
      w.Within container.toNat (container.toNat + (kind.size types).toNat) := by
  have hcount := h.count
  have hfour : (0x4 : BitVec 64).toNat = 4 := rfl
  cases kind with
  | Array m_data_type_mode =>
    rw [size_array hcount] at hfit ⊢
    intro w hw
    obtain rfl := List.mem_singleton.mp hw
    rw [Write.Within, BitVec.toNat_add, BitVec.toNat_add, BitVec.toNat_add, hfour, widen_toNat,
      widen_toNat]
    dsimp only
    omega
  | Dictionary m_is_index_remap =>
    have height : (8 : BitVec 64).toNat = 8 := rfl
    have hmul := stride_toNat hcount height (by decide)
    have hbase : (container + 0x4).toNat = container.toNat + 4 := by
      rw [size_dictionary hcount] at hfit
      rw [BitVec.toNat_add, hfour]
      omega
    rw [size_dictionary hcount] at hfit ⊢
    obtain ⟨hat, hle⟩ := element_toNat (a := container + 0x4) height hi (by omega)
    have hremap : (container + 0x4 + 8 * (m_node_count types).setWidth 64).toNat =
        container.toNat + 4 + 8 * types.length := by
      rw [BitVec.toNat_add, hmul, hbase]
      omega
    refine List.forall_mem_append.mpr ⟨?_, ?_⟩
    · refine List.forall_mem_cons.mpr ⟨?_, List.forall_mem_singleton.mpr ?_⟩
      · rw [Write.Within, hat, length_wordBytes]
        omega
      · rw [Write.Within, BitVec.toNat_add, hat, hfour]
        dsimp only
        omega
    · intro w hw
      have hin := writeIndex_within hcount h.remap hi (by
        change _ + (CalculateRemapSize types m_is_index_remap).toNat ≤ _
        omega) w hw
      exact hin.mono (by omega) (by
        change _ + (CalculateRemapSize types m_is_index_remap).toNat ≤ _
        omega)
  | HashArray m_is_index_remap m_key_size =>
    have hkey : m_key_size.toNat ≤ 8 := h.key
    have hkeys := key_stride hkey
    have hmul := stride_toNat hcount hkeys (by omega)
    rw [size_hashArray hcount _ hkey] at hfit ⊢
    have hbase : (container + 0x4).toNat = container.toNat + 4 := by
      rw [BitVec.toNat_add, hfour]
      omega
    obtain ⟨hat, hle⟩ := element_toNat (a := container + 0x4) hkeys hi (by omega)
    have htypes : (container + 0x4 + (m_key_size.setWidth 64 + 4) *
        (m_node_count types).setWidth 64).toNat =
        container.toNat + 4 + (m_key_size.toNat + 4) * types.length := by
      rw [BitVec.toNat_add, hmul, hbase]
      exact Nat.mod_eq_of_lt (by omega)
    have hremap : (container + 0x4 + (m_key_size.setWidth 64 + 4) *
        (m_node_count types).setWidth 64 + (m_node_count types).setWidth 64).toNat =
        container.toNat + 4 + (m_key_size.toNat + 4) * types.length + types.length := by
      rw [BitVec.toNat_add, htypes, count_toNat hcount]
      exact Nat.mod_eq_of_lt (by omega)
    refine List.forall_mem_append.mpr ⟨?_, ?_⟩
    · refine List.forall_mem_cons.mpr ⟨?_, List.forall_mem_cons.mpr
        ⟨?_, List.forall_mem_singleton.mpr ?_⟩⟩
      · have hlen : ((wordBytes 8 entry.hash.toNat).take m_key_size.toNat).length ≤
            m_key_size.toNat := List.length_take_le _ _
        rw [Write.Within, hat]
        dsimp only
        omega
      · rw [Write.Within, BitVec.toNat_add, hat, widen_toNat]
        dsimp only
        omega
      · rw [Write.Within, BitVec.toNat_add, htypes, widen_toNat, List.length_singleton]
        omega
    · intro w hw
      have hin := writeIndex_within hcount h.remap hi (by
        change _ + (CalculateRemapSize types m_is_index_remap).toNat ≤ _
        omega) w hw
      exact hin.mono (by omega) (by
        change _ + (CalculateRemapSize types m_is_index_remap).toNat ≤ _
        omega)

end Awn.Byaml.ByamlContainer
