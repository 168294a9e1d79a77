import Awn.Byaml.Reader
import Mathlib.Data.List.Nodup
import Mathlib.Data.List.Perm.Subperm

/-!
`vp::res::ResByaml::SwapByamlEndian`. A piece of data that a document refers to from several
places, or from inside itself, is swapped at the first of them: `ByamlBigDataCache` keeps the
offsets that have been swapped. The list stands for its tree.
-/

namespace Awn.Byaml

open Memory
open Sarc (read32 swapEndian32)

structure SwapState where
  m : Bytes
  map : List (BitVec 32)

namespace SwapState

/-- The node of the map comes from the caller's heap, which is asserted to have it. -/
def Cache (s : SwapState) (data : BitVec 32) : Bool × SwapState :=
  if data ∈ s.map then (false, s) else (true, { s with map := data :: s.map })

def swap16 (a : BitVec 64) (s : SwapState) : SwapState :=
  { s with m := store s.m a.toNat 2 (Sarc.swapEndian16 (Sarc.read16 s.m a)).toNat }

def swap24 (a : BitVec 64) (s : SwapState) : SwapState :=
  { s with m := store s.m a.toNat 3 (swapEndian24 (read32 s.m a &&& 0xffffff)).toNat }

def swap32 (a : BitVec 64) (s : SwapState) : SwapState :=
  { s with m := store s.m a.toNat 4 (swapEndian32 (read32 s.m a)).toNat }

def swap64 (a : BitVec 64) (s : SwapState) : SwapState :=
  { s with m := store s.m a.toNat 8 (swapEndian64 (read64 s.m a)).toNat }

def swapHash (hash_size : BitVec 32) (a : BitVec 64) (s : SwapState) : SwapState :=
  if hash_size = 4 then s.swap32 a else if hash_size = 8 then s.swap64 a else s

end SwapState

def IsHashArray (data_type : ByamlDataType) : Bool := data_type &&& 0xe0 == 0x20

def IsSwappedContainer (data_type : ByamlDataType) : Bool :=
  IsHashArray data_type || data_type ∈
    [ByamlDataType.Dictionary, .DictionaryWithRemap, .Array, .MonoTypedArray]

def IsInline (data_type : ByamlDataType) : Bool :=
  data_type ∈ [ByamlDataType.Bool, .S32, .F32, .U32, .StringIndex]

def IsSwappedBigData (data_type : ByamlDataType) : Bool :=
  IsSwappedContainer data_type || data_type ∈
    [ByamlDataType.BinaryDataWithAlignment, .BinaryData, .S64, .F64, .U64]

def alignUp4 (size : BitVec 32) : BitVec 64 := (size.setWidth 64 + 0x3) &&& ~~~0x3

section Containers

variable (byaml : BitVec 64)
  (SwapEndianData : ByamlDataType → BitVec 32 → SwapState → Option (BitVec 32 × SwapState))

def swapDataAt (data_type : ByamlDataType) (a : BitVec 64) (s : SwapState) : Option SwapState :=
  (SwapEndianData data_type (read32 s.m a) s).map fun (data, s) =>
    { s with m := store s.m a.toNat 4 data.toNat }

def swapCount (container : BitVec 64) (s : SwapState) : BitVec 32 :=
  GetCount s.m (IsReverseEndian s.m byaml) container

def swapEach (r_count : BitVec 32) (body : BitVec 64 → SwapState → Option SwapState)
    (s : SwapState) : Option SwapState :=
  (List.range r_count.toNat).foldlM (fun s i => body (BitVec.ofNat 64 i) s) s

def SwapEndianHashArray (container : BitVec 64) (s : SwapState) : Option SwapState :=
  let container_type := containerDataType s.m container
  if ByamlDataType.HashArrayU32_2 < container_type &&& 0x2f then some s
  else
    let r_count := swapCount byaml container s
    let hash_size : BitVec 32 := 4 * ((container_type &&& 0xf).setWidth 32 + 1)
    let stride := hash_size + 4
    let data_type_array := container + 0x4 + (stride * r_count).setWidth 64
    let remap_array := data_type_array + alignUp4 r_count
    swapEach r_count (fun i s =>
      let hash_offset := container + 0x4 + stride.setWidth 64 * i
      let s := s.swapHash hash_size hash_offset
      (swapDataAt SwapEndianData (read8 s.m (data_type_array + i))
        (hash_offset + hash_size.setWidth 64) s).map fun s =>
          if container_type &&& 0x10 ≠ 0 then s.swap32 (remap_array + 4 * i) else s) s

def SwapEndianDictionary (container : BitVec 64) (s : SwapState) : Option SwapState :=
  let r_count := swapCount byaml container s
  let container_type := containerDataType s.m container
  let pair_array := container + 0x4
  let remap_array := container + 0x4 + 0x8 * r_count.setWidth 64
  swapEach r_count (fun i s =>
    let pair := pair_array + 0x8 * i
    let s := s.swap24 pair
    (swapDataAt SwapEndianData (read8 s.m (pair + 0x3)) (pair + 0x4) s).map fun s =>
      if container_type = .DictionaryWithRemap then s.swap32 (remap_array + 4 * i) else s) s

def SwapEndianArray (container : BitVec 64) (s : SwapState) : Option SwapState :=
  let r_count := swapCount byaml container s
  let container_type := containerDataType s.m container
  let data_type_array := container + 0x4
  let data_array :=
    if container_type = .Array then container + 0x4 + alignUp4 r_count else container + 0x4 + 0x4
  swapEach r_count (fun i s =>
    let data_type :=
      if container_type = .Array then read8 s.m (data_type_array + i)
      else read8 s.m data_type_array
    swapDataAt SwapEndianData data_type (data_array + 4 * i) s) s

def SwapEndianDataContainer (container : BitVec 64) (s : SwapState) : Option SwapState :=
  let s := s.swap24 (container + 0x1)
  let data_type := containerDataType s.m container
  if IsHashArray data_type then SwapEndianHashArray byaml SwapEndianData container s
  else if data_type = .Dictionary ∨ data_type = .DictionaryWithRemap then
    SwapEndianDictionary byaml SwapEndianData container s
  else if data_type = .Array ∨ data_type = .MonoTypedArray then
    SwapEndianArray byaml SwapEndianData container s
  else some s

def SwapEndianForBigData (data_type : ByamlDataType) (data : BitVec 32) (s : SwapState) :
    Option SwapState :=
  let r_offset := Sarc.native32 (IsReverseEndian s.m byaml) data
  let big_data := byaml + r_offset.setWidth 64
  if IsSwappedContainer data_type then
    SwapEndianDataContainer byaml SwapEndianData big_data s
  else if data_type = .BinaryDataWithAlignment then
    some ((s.swap32 (big_data + 0x4)).swap32 big_data)
  else if data_type = .BinaryData then some (s.swap32 big_data)
  else some (s.swap64 big_data)

end Containers

section File

variable (byaml : BitVec 64)

/-- `none` is out of fuel: a call inside a container takes one of it. -/
def SwapEndianData : ℕ → ByamlDataType → BitVec 32 → SwapState → Option (BitVec 32 × SwapState)
  | 0, _, _, _ => none
  | fuel + 1, data_type, data, s =>
    let swapped_data := swapEndian32 data
    if IsInline data_type then some (swapped_data, s)
    else if IsSwappedBigData data_type then
      let (is_big_data_swapped, s) := s.Cache swapped_data
      if is_big_data_swapped = true then
        (SwapEndianForBigData byaml (SwapEndianData fuel) data_type swapped_data s).map fun s =>
          (swapped_data, s)
      else some (swapped_data, s)
    else some (0, s)

def SwapRootContainerEndian (fuel : ℕ) (table_offset : BitVec 32) (s : SwapState) :
    Option SwapState :=
  if table_offset = 0 then some s
  else
    let (is_already_swapped, s) := s.Cache table_offset
    if is_already_swapped = false then some s
    else
      let root_dic := byaml + table_offset.setWidth 64
      if IsContainerType (containerDataType s.m root_dic) = false then some s
      else SwapEndianDataContainer byaml (SwapEndianData byaml fuel) root_dic s

def SwapStringTableEndian (table_offset : BitVec 32) (s : SwapState) : SwapState :=
  if table_offset = 0 then s
  else
    let (is_already_swapped, s) := s.Cache table_offset
    if is_already_swapped = false then s
    else
      let string_table := byaml + table_offset.setWidth 64
      if containerDataType s.m string_table ≠ .KeyTable then s
      else
        let s := s.swap24 (string_table + 0x1)
        let index_count := swapCount byaml string_table s + 1
        (List.range index_count.toNat).foldl (fun s i =>
          s.swap32 (string_table + 0x4 + 4 * BitVec.ofNat 64 i)) s

def SwapKeyTableEndian (table_offset : BitVec 32) (s : SwapState) : SwapState :=
  SwapStringTableEndian byaml table_offset s

def swapHeader (s : SwapState) : SwapState :=
  let s := ((s.swap16 byaml).swap16 (byaml + 0x2)).swap32 (byaml + 0x4)
  (s.swap32 (byaml + 0x8)).swap32 (byaml + 0xc)

def swapTables (s : SwapState) : SwapState :=
  let s := SwapKeyTableEndian byaml (keyTableOffset s.m byaml) s
  SwapStringTableEndian byaml (stringTableOffset s.m byaml) s

def SwapByamlEndian (fuel : ℕ) (m : Bytes) : Option SwapState :=
  let s := swapTables byaml (swapHeader byaml ⟨m, []⟩)
  SwapRootContainerEndian byaml fuel (dataOffset s.m byaml) s

end File

section Ends

def Room (n : ℕ) (s : SwapState) : Prop := s.map.Nodup ∧ 2 ^ 32 ≤ s.map.length + n

def Ends (s : SwapState) (run run' : Option SwapState) : Prop :=
  ∃ s', run = some s' ∧ run' = some s' ∧ s'.map.Nodup ∧ s.map.length ≤ s'.map.length

def Swaps (n : ℕ) (f f' : ByamlDataType → BitVec 32 → SwapState → Option (BitVec 32 × SwapState)) :
    Prop :=
  ∀ data_type data s, Room n s → ∃ r s', f data_type data s = some (r, s') ∧
    f' data_type data s = some (r, s') ∧ s'.map.Nodup ∧ s.map.length ≤ s'.map.length

variable {n : ℕ} {s s₁ : SwapState} {run run' : Option SwapState}

theorem swapHash_map (hash_size : BitVec 32) (a : BitVec 64) (s : SwapState) :
    (s.swapHash hash_size a).map = s.map := by
  unfold SwapState.swapHash
  split_ifs
  · rfl
  · rfl
  · rfl

theorem Room.of_map (h : Room n s) (hmap : s₁.map = s.map) : Room n s₁ := by
  rw [Room, hmap]
  exact h

theorem Room.cons {data : BitVec 32} (h : Room n s) (hnew : data ∉ s.map) :
    Room n { s with map := data :: s.map } :=
  ⟨List.nodup_cons.mpr ⟨hnew, h.1⟩, Nat.le_trans h.2 (Nat.add_le_add_right (Nat.le_succ _) n)⟩

theorem Room.ends (h : Room n s) (hmap : s₁.map = s.map) : Ends s (some s₁) (some s₁) :=
  ⟨s₁, rfl, rfl, hmap ▸ h.1, hmap ▸ Nat.le_refl _⟩

theorem Ends.of_map (h : Ends s₁ run run') (hmap : s₁.map = s.map) : Ends s run run' := by
  rw [Ends, ← hmap]
  exact h

theorem Ends.of_le (h : Ends s₁ run run') (hle : s.map.length ≤ s₁.map.length) :
    Ends s run run' := by
  obtain ⟨s', hrun, hrun', hnodup, hle'⟩ := h
  exact ⟨s', hrun, hrun', hnodup, Nat.le_trans hle hle'⟩

theorem Ends.map (h : Ends s run run') {g : SwapState → SwapState} (hg : ∀ s, (g s).map = s.map) :
    Ends s (run.map g) (run'.map g) := by
  obtain ⟨s', rfl, rfl, hnodup, hle⟩ := h
  exact ⟨g s', rfl, rfl, (hg s').symm ▸ hnodup, (hg s').symm ▸ hle⟩

theorem swapEach_ends {r_count : BitVec 32} {body body' : BitVec 64 → SwapState → Option SwapState}
    (hbody : ∀ i s, Room n s → Ends s (body i s) (body' i s)) (hs : Room n s) :
    Ends s (swapEach r_count body s) (swapEach r_count body' s) := by
  rw [swapEach, swapEach]
  induction List.range r_count.toNat generalizing s with
  | nil => exact hs.ends rfl
  | cons i rest ih =>
    obtain ⟨s₁, hrun, hrun', hnodup, hle⟩ := hbody (BitVec.ofNat 64 i) s hs
    have hs₁ : Room n s₁ := ⟨hnodup, Nat.le_trans hs.2 (Nat.add_le_add_right hle n)⟩
    obtain ⟨s₂, hrest, hrest', hnodup₂, hle₂⟩ := ih hs₁
    refine ⟨s₂, ?_, ?_, hnodup₂, Nat.le_trans hle hle₂⟩
    · rw [List.foldlM_cons, hrun]
      exact hrest
    · rw [List.foldlM_cons, hrun']
      exact hrest'

theorem mem_of_full {map : List (BitVec 32)} (hnodup : map.Nodup) (hfull : 2 ^ 32 ≤ map.length)
    (data : BitVec 32) : data ∈ map := by
  by_contra hnew
  have hmore : ((data :: map).map BitVec.toNat).Nodup :=
    List.Nodup.map (fun _ _ => BitVec.eq_of_toNat_eq) (List.nodup_cons.mpr ⟨hnew, hnodup⟩)
  have hsubset : (data :: map).map BitVec.toNat ⊆ List.range (2 ^ 32) := by
    intro v hv
    obtain ⟨x, -, rfl⟩ := List.mem_map.mp hv
    exact List.mem_range.mpr x.isLt
  have hlength := (hmore.subperm hsubset).length_le
  rw [List.length_map, List.length_cons, List.length_range] at hlength
  omega

section Containers

variable {f f' : ByamlDataType → BitVec 32 → SwapState → Option (BitVec 32 × SwapState)}
  {byaml container : BitVec 64}

theorem swapDataAt_ends (hf : Swaps n f f') (data_type : ByamlDataType) (a : BitVec 64)
    (hs : Room n s) : Ends s (swapDataAt f data_type a s) (swapDataAt f' data_type a s) := by
  obtain ⟨r, s', hrun, hrun', hnodup, hle⟩ := hf data_type (read32 s.m a) s hs
  rw [swapDataAt, swapDataAt, hrun, hrun']
  exact ⟨{ s' with m := store s'.m a.toNat 4 r.toNat }, rfl, rfl, hnodup, hle⟩

theorem swapEndianHashArray_ends (hf : Swaps n f f') (hs : Room n s) :
    Ends s (SwapEndianHashArray byaml f container s) (SwapEndianHashArray byaml f' container s) := by
  unfold SwapEndianHashArray
  dsimp only
  by_cases hwide : ByamlDataType.HashArrayU32_2 < containerDataType s.m container &&& 0x2f
  · rw [if_pos hwide, if_pos hwide]
    exact hs.ends rfl
  · rw [if_neg hwide, if_neg hwide]
    apply swapEach_ends _ hs
    intro i s hs
    refine ((swapDataAt_ends hf _ _ (hs.of_map (swapHash_map _ _ s))).of_map
      (swapHash_map _ _ s)).map fun s => ?_
    split_ifs
    · rfl
    · rfl

theorem swapEndianDictionary_ends (hf : Swaps n f f') (hs : Room n s) :
    Ends s (SwapEndianDictionary byaml f container s)
      (SwapEndianDictionary byaml f' container s) := by
  unfold SwapEndianDictionary
  apply swapEach_ends _ hs
  intro i s hs
  have hpair : Room n (s.swap24 (container + 0x4 + 0x8 * i)) := hs.of_map rfl
  refine ((swapDataAt_ends hf _ _ hpair).of_map rfl).map fun s => ?_
  split_ifs
  · rfl
  · rfl

theorem swapEndianArray_ends (hf : Swaps n f f') (hs : Room n s) :
    Ends s (SwapEndianArray byaml f container s) (SwapEndianArray byaml f' container s) := by
  unfold SwapEndianArray
  apply swapEach_ends _ hs
  intro i s hs
  exact swapDataAt_ends hf _ _ hs

theorem swapEndianDataContainer_ends (hf : Swaps n f f') (hs : Room n s) :
    Ends s (SwapEndianDataContainer byaml f container s)
      (SwapEndianDataContainer byaml f' container s) := by
  have hheader : Room n (s.swap24 (container + 0x1)) := hs.of_map rfl
  unfold SwapEndianDataContainer
  dsimp only
  split_ifs
  · exact (swapEndianHashArray_ends hf hheader).of_map rfl
  · exact (swapEndianDictionary_ends hf hheader).of_map rfl
  · exact (swapEndianArray_ends hf hheader).of_map rfl
  · exact hs.ends rfl

theorem swapEndianForBigData_ends (hf : Swaps n f f') (data_type : ByamlDataType)
    (data : BitVec 32) (hs : Room n s) :
    Ends s (SwapEndianForBigData byaml f data_type data s)
      (SwapEndianForBigData byaml f' data_type data s) := by
  unfold SwapEndianForBigData
  dsimp only
  split_ifs
  · exact swapEndianDataContainer_ends hf hs
  · exact hs.ends rfl
  · exact hs.ends rfl
  · exact hs.ends rfl

end Containers

variable (byaml : BitVec 64)

theorem swapEndianData_swaps {fuel fuel' : ℕ} (hfuel : n < fuel) (hfuel' : n < fuel') :
    Swaps n (SwapEndianData byaml fuel) (SwapEndianData byaml fuel') := by
  induction n using Nat.strong_induction_on generalizing fuel fuel' with
  | _ n ih =>
    obtain ⟨fuel, rfl⟩ := Nat.exists_eq_succ_of_ne_zero (Nat.ne_zero_of_lt hfuel)
    obtain ⟨fuel', rfl⟩ := Nat.exists_eq_succ_of_ne_zero (Nat.ne_zero_of_lt hfuel')
    intro data_type data s hs
    rw [SwapEndianData, SwapEndianData]
    dsimp only
    by_cases hinline : IsInline data_type
    · rw [if_pos hinline, if_pos hinline]
      exact ⟨_, s, rfl, rfl, hs.1, Nat.le_refl _⟩
    rw [if_neg hinline, if_neg hinline]
    by_cases hbig : IsSwappedBigData data_type
    swap
    · rw [if_neg hbig, if_neg hbig]
      exact ⟨_, s, rfl, rfl, hs.1, Nat.le_refl _⟩
    rw [if_pos hbig, if_pos hbig, SwapState.Cache]
    by_cases hmem : swapEndian32 data ∈ s.map
    · rw [if_pos hmem]
      exact ⟨_, s, rfl, rfl, hs.1, Nat.le_refl _⟩
    rw [if_neg hmem]
    dsimp only
    rw [if_pos rfl, if_pos rfl]
    obtain ⟨hnodup, hroom⟩ := hs
    have hpos : n ≠ 0 := by
      rintro rfl
      exact hmem (mem_of_full hnodup hroom _)
    obtain ⟨k, rfl⟩ := Nat.exists_eq_succ_of_ne_zero hpos
    have hs₁ : Room k { s with map := swapEndian32 data :: s.map } :=
      ⟨List.nodup_cons.mpr ⟨hmem, hnodup⟩, by rw [List.length_cons]; omega⟩
    have hswaps : Swaps k (SwapEndianData byaml fuel) (SwapEndianData byaml fuel') :=
      ih k (Nat.lt_succ_self k) (by omega) (by omega)
    obtain ⟨s', hrun, hrun', hnodup', hle⟩ :=
      swapEndianForBigData_ends hswaps data_type (swapEndian32 data) hs₁
    rw [hrun, hrun']
    exact ⟨_, s', rfl, rfl, hnodup', Nat.le_of_succ_le hle⟩

theorem swapStringTableEndian_room (table_offset : BitVec 32) (hs : Room n s) :
    Room n (SwapStringTableEndian byaml table_offset s) := by
  have hfold (table : BitVec 64) (indices : List ℕ) (s : SwapState) :
      (indices.foldl (fun s i => s.swap32 (table + 0x4 + 4 * BitVec.ofNat 64 i)) s).map =
        s.map := by
    induction indices generalizing s with
    | nil => rfl
    | cons i rest ih => exact ih _
  unfold SwapStringTableEndian SwapState.Cache
  by_cases hzero : table_offset = 0
  · rw [if_pos hzero]
    exact hs
  rw [if_neg hzero]
  by_cases hmem : table_offset ∈ s.map
  · rw [if_pos hmem]
    exact hs
  rw [if_neg hmem]
  dsimp only
  rw [if_neg Bool.true_eq_false.mp]
  have hs₁ : Room n { s with map := table_offset :: s.map } := hs.cons hmem
  split_ifs
  · exact hs₁
  · exact hs₁.of_map (hfold _ _ _)

theorem swapRootContainerEndian_ends {fuel fuel' : ℕ} (hfuel : n < fuel) (hfuel' : n < fuel')
    (table_offset : BitVec 32) (hs : Room n s) :
    Ends s (SwapRootContainerEndian byaml fuel table_offset s)
      (SwapRootContainerEndian byaml fuel' table_offset s) := by
  unfold SwapRootContainerEndian SwapState.Cache
  by_cases hzero : table_offset = 0
  · rw [if_pos hzero, if_pos hzero]
    exact hs.ends rfl
  rw [if_neg hzero, if_neg hzero]
  by_cases hmem : table_offset ∈ s.map
  · rw [if_pos hmem]
    exact hs.ends rfl
  rw [if_neg hmem]
  dsimp only
  have hs₁ : Room n { s with map := table_offset :: s.map } := hs.cons hmem
  rw [if_neg (show ¬true = false from nofun), if_neg (show ¬true = false from nofun)]
  split_ifs
  · exact (hs₁.ends rfl).of_le (Nat.le_succ _)
  · exact (swapEndianDataContainer_ends (swapEndianData_swaps byaml hfuel hfuel') hs₁).of_le
      (Nat.le_succ _)

theorem swapTables_room (hs : Room n s) : Room n (swapTables byaml s) :=
  swapStringTableEndian_room byaml _ (swapStringTableEndian_room byaml _ hs)

theorem swapByamlEndian_swaps {fuel fuel' : ℕ} (hfuel : 2 ^ 32 < fuel) (hfuel' : 2 ^ 32 < fuel')
    (m : Bytes) : ∃ s, SwapByamlEndian byaml fuel m = some s ∧
      SwapByamlEndian byaml fuel' m = some s ∧ s.map.Nodup := by
  have hstart : Room (2 ^ 32) ⟨m, []⟩ := ⟨List.nodup_nil, Nat.le_add_left _ _⟩
  have hheader : Room (2 ^ 32) (swapHeader byaml ⟨m, []⟩) := hstart.of_map rfl
  obtain ⟨s, hrun, hrun', hnodup, -⟩ :=
    swapRootContainerEndian_ends byaml hfuel hfuel' _ (swapTables_room byaml hheader)
  exact ⟨s, hrun, hrun', hnodup⟩

/-- A swap ends, whatever the memory holds, and the offsets that it has gone into are distinct. -/
theorem swapByamlEndian_ends (m : Bytes) : ∃ s, s.map.Nodup ∧
    ∀ fuel, 2 ^ 32 < fuel → SwapByamlEndian byaml fuel m = some s := by
  obtain ⟨most, hmost⟩ : ∃ most, 2 ^ 32 < most := ⟨_, Nat.lt_succ_self _⟩
  obtain ⟨s, hs, -, hnodup⟩ := swapByamlEndian_swaps byaml hmost hmost m
  refine ⟨s, hnodup, fun fuel hfuel => ?_⟩
  obtain ⟨s', hrun, hmost', -⟩ := swapByamlEndian_swaps byaml hfuel hmost m
  rw [hrun, ← hmost', hs]

end Ends

end Awn.Byaml
