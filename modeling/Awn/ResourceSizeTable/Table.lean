import Awn.Crc32.Strings
import Awn.FixedString.Comparison
import Awn.Sarc.Search

/-! `vp::res::ResourceSizeTableExtractor`: the search for a size by the CRC32 of a path. -/

namespace Awn.ResourceSizeTable

open Memory
open Sarc (read32)

structure ResourceSizeTableExtractor where
  m_resource_size_crc32_array : BitVec 64
  m_resource_size_crc32_count : BitVec 32

def cInvalidSize : BitVec 32 := 0xffffffff

namespace ResourceSizeTableExtractor

variable (m : Bytes) (e : ResourceSizeTableExtractor)

def entry (entry_id : BitVec 32) : BitVec 64 :=
  e.m_resource_size_crc32_array + 0x8 * entry_id.setWidth 64

def pathCrc32 (entry_id : BitVec 32) : BitVec 32 := read32 m (e.entry entry_id)

def resourceSize (entry_id : BitVec 32) : BitVec 32 := read32 m (e.entry entry_id + 0x4)

/-- The loop is that of the archive, with all counters of 32 bits. `none` is out of fuel. -/
def TryGetResourceSizeByCrc32 (fuel : ℕ) (hash_crc32 : BitVec 32) : Option (BitVec 32) :=
  if e.m_resource_size_crc32_array = 0 ∨ e.m_resource_size_crc32_count = 0 then
    some cInvalidSize
  else
    match Sorted.search (e.pathCrc32 m) hash_crc32 fuel (e.m_resource_size_crc32_count / 2)
        e.m_resource_size_crc32_count 0 with
    | none => none
    | some none => some cInvalidSize
    | some (some entry_id) => some (e.resourceSize m entry_id)

/-- The entries `TryGetResourceSizeByCrc32` reads. -/
def entriesRead (fuel : ℕ) (hash_crc32 : BitVec 32) : List (BitVec 32) :=
  if e.m_resource_size_crc32_array = 0 ∨ e.m_resource_size_crc32_count = 0 then []
  else
    Sorted.searchReads (e.pathCrc32 m) hash_crc32 fuel (e.m_resource_size_crc32_count / 2)
        e.m_resource_size_crc32_count 0 ++
      match Sorted.search (e.pathCrc32 m) hash_crc32 fuel (e.m_resource_size_crc32_count / 2)
          e.m_resource_size_crc32_count 0 with
      | some (some entry_id) => [entry_id]
      | _ => []

def Has (entry_id : BitVec 32) : Prop :=
  e.m_resource_size_crc32_array ≠ 0 ∧ entry_id < e.m_resource_size_crc32_count

def SortedByHash : Prop :=
  ∀ i j : BitVec 32, i ≤ j → j < e.m_resource_size_crc32_count → e.pathCrc32 m i ≤ e.pathCrc32 m j

structure Searches (hash_crc32 : BitVec 32) : Prop where
  ends : ∃ enough, ∀ fuel ≥ enough, (e.TryGetResourceSizeByCrc32 m fuel hash_crc32).isSome
  inside : ∀ fuel, ∀ i ∈ e.entriesRead m fuel hash_crc32, e.Has i
  present : e.SortedByHash m → (∃ i, e.Has i ∧ e.pathCrc32 m i = hash_crc32) →
    ∃ i, e.Has i ∧ e.pathCrc32 m i = hash_crc32 ∧
      ∃ enough, ∀ fuel ≥ enough,
        e.TryGetResourceSizeByCrc32 m fuel hash_crc32 = some (e.resourceSize m i)
  absent : (¬∃ i, e.Has i ∧ e.pathCrc32 m i = hash_crc32) →
    ∃ enough, ∀ fuel ≥ enough, e.TryGetResourceSizeByCrc32 m fuel hash_crc32 = some cInvalidSize

variable {m e} {hash_crc32 : BitVec 32}

theorem searches_null (h : e.m_resource_size_crc32_array = 0 ∨ e.m_resource_size_crc32_count = 0) :
    e.Searches m hash_crc32 := by
  have hnone : ∀ i, ¬e.Has i := by
    rintro i ⟨harray, hi⟩
    obtain h | h := h
    · exact harray h
    · rw [h, BitVec.lt_def] at hi
      exact absurd hi (Nat.not_lt_zero _)
  have hget : ∀ fuel, e.TryGetResourceSizeByCrc32 m fuel hash_crc32 = some cInvalidSize := by
    intro fuel
    rw [TryGetResourceSizeByCrc32, if_pos h]
  constructor
  · exact ⟨0, fun fuel _ => by rw [hget]; rfl⟩
  · intro fuel i hi
    rw [entriesRead, if_pos h] at hi
    cases hi
  · rintro - ⟨i, hi, -⟩
    exact absurd hi (hnone i)
  · exact fun _ => ⟨0, fun fuel _ => hget fuel⟩

theorem searches_of_le (hcount : e.m_resource_size_crc32_count.toNat ≤ 2 ^ 31) :
    e.Searches m hash_crc32 := by
  by_cases hnull : e.m_resource_size_crc32_array = 0 ∨ e.m_resource_size_crc32_count = 0
  · exact searches_null hnull
  · have harray : e.m_resource_size_crc32_array ≠ 0 := fun h => hnull (Or.inl h)
    have hpos : 0 < e.m_resource_size_crc32_count.toNat :=
      Nat.pos_of_ne_zero fun h => hnull (Or.inr (BitVec.eq_of_toNat_eq h))
    have hget : ∀ {fuel r}, Sorted.search (e.pathCrc32 m) hash_crc32 fuel
        (e.m_resource_size_crc32_count / 2) e.m_resource_size_crc32_count 0 = some r →
          e.TryGetResourceSizeByCrc32 m fuel hash_crc32 =
            some ((r.map (e.resourceSize m)).getD cInvalidSize) := by
      intro fuel r hr
      rw [TryGetResourceSizeByCrc32, if_neg hnull, hr]
      cases r with
      | none => rfl
      | some i => rfl
    have hsome : (Sorted.search (e.pathCrc32 m) hash_crc32
        (e.m_resource_size_crc32_count.toNat + 1) (e.m_resource_size_crc32_count / 2)
        e.m_resource_size_crc32_count 0).isSome :=
      Sorted.search_isSome hpos hcount (Nat.lt_succ_self _)
    obtain ⟨r, hr⟩ := Option.isSome_iff_exists.mp hsome
    have hends : ∀ fuel ≥ e.m_resource_size_crc32_count.toNat + 1,
        e.TryGetResourceSizeByCrc32 m fuel hash_crc32 =
          some ((r.map (e.resourceSize m)).getD cInvalidSize) :=
      fun fuel hfuel => hget (Sorted.search_mono hfuel hr)
    constructor
    · exact ⟨_, fun fuel hfuel => by rw [hends fuel hfuel]; rfl⟩
    · intro fuel i hi
      rw [entriesRead, if_neg hnull] at hi
      obtain hi | hi := List.mem_append.mp hi
      · exact ⟨harray, Sorted.searchReads_lt hpos hcount i hi⟩
      · split at hi
        · rename_i j hj
          obtain rfl := List.mem_singleton.mp hi
          exact ⟨harray, (Sorted.search_found hpos hcount hj).1⟩
        · cases hi
    · rintro hsorted ⟨i, ⟨-, hi⟩, hhash⟩
      cases r with
      | none => exact absurd hhash (Sorted.search_none hpos hcount hsorted hr i hi)
      | some j =>
        obtain ⟨hj, hjhash⟩ := Sorted.search_found hpos hcount hr
        exact ⟨j, ⟨harray, hj⟩, hjhash, _, hends⟩
    · intro habsent
      cases r with
      | none => exact ⟨_, hends⟩
      | some j =>
        obtain ⟨hj, hjhash⟩ := Sorted.search_found hpos hcount hr
        exact absurd ⟨j, ⟨harray, hj⟩, hjhash⟩ habsent

theorem not_searches {count : BitVec 32} (hcount : 2 ^ 31 < count.toNat) :
    ¬(⟨0x1000, count⟩ : ResourceSizeTableExtractor).Searches (fun _ => 0) 1 := by
  intro h
  obtain ⟨enough, hends⟩ := h.ends
  have hsome := hends enough (Nat.le_refl _)
  have hcrc : ∀ i, (⟨0x1000, count⟩ : ResourceSizeTableExtractor).pathCrc32 (fun _ => 0) i < 1 := by
    intro i
    simp only [pathCrc32, read32, load]
    decide
  have hlow : (count + 0) / 2 = count / 2 := by rw [BitVec.ofNat_eq_ofNat, BitVec.add_zero]
  have hzero : (0 : BitVec 32).toNat = 0 := rfl
  have hloop := Sorted.search_overflow hcount hcrc
    (show (0 : BitVec 32).toNat + 2 ≤ count.toNat by omega) enough
  have hnull : ¬((0x1000 : BitVec 64) = 0 ∨ count = 0) := by
    rintro (h | h)
    · exact absurd h (by decide)
    · rw [h] at hcount
      exact absurd hcount (by decide)
  rw [hlow] at hloop
  rw [TryGetResourceSizeByCrc32, if_neg hnull] at hsome
  simp only [hloop] at hsome
  cases hsome

end ResourceSizeTableExtractor

/-- Every search in an archive is right, and every search in a table of sizes of some length if and
only if the sum of two counters of that length does not overflow. -/
theorem searches_iff (count : BitVec 32) :
    ((∀ m (e : Sarc.SarcExtractor) path, e.Searches m path) ∧
      ∀ m (e : ResourceSizeTableExtractor) hash_crc32, e.m_resource_size_crc32_count = count →
        e.Searches m hash_crc32) ↔ count.toNat ≤ 2 ^ 31 := by
  constructor
  · rintro ⟨-, h⟩
    apply Nat.le_of_not_lt
    intro hcount
    exact ResourceSizeTableExtractor.not_searches hcount (h _ _ 1 rfl)
  · intro hcount
    refine ⟨Sarc.SarcExtractor.searches, ?_⟩
    rintro m e hash_crc32 rfl
    exact ResourceSizeTableExtractor.searches_of_le hcount

theorem searches_not_forall :
    ¬∀ m (e : ResourceSizeTableExtractor) hash_crc32, e.Searches m hash_crc32 :=
  fun h => ResourceSizeTableExtractor.not_searches
    (show 2 ^ 31 < (0xffffffff : BitVec 32).toNat by decide) (h _ _ 1)

/-! The rest of `ResourceSizeTableExtractor`: the headers of a table and the paths that collide. -/

open Sarc (read16)

structure Extractor extends ResourceSizeTableExtractor where
  m_resource_size_collision_array : BitVec 64
  m_resource_size_collision_count : BitVec 32
  m_max_path : BitVec 32
  m_head : BitVec 64

def cDefaultMaxLength : BitVec 32 := 0x80

def cMagic0 : BitVec 32 := 0x54534552

def cMagic1 : BitVec 16 := 0x4c42

def cTargetVersion : BitVec 32 := 1

def cMagic : BitVec 32 := 0x42545352

def GetCollisionArray (table header_size : BitVec 64)
    (resource_size_crc32_count resource_size_collision_count : BitVec 32) : BitVec 64 :=
  if resource_size_collision_count ≠ 0 then
    table + header_size + resource_size_crc32_count.setWidth 64 * 0x8
  else 0

def textAt (m : Bytes) (string n : ℕ) : List (BitVec 8) := (bytesAt m string n).takeWhile (· ≠ 0)

namespace Extractor

def Initialize (e : Extractor) (m : Bytes) (file : BitVec 64)
    (file_size max_path_length : BitVec 32) : Extractor × Bool :=
  if file = 0 ∨ file_size < 0x8 then (e, false)
  else
    let max_path :=
      if max_path_length ≠ 0xffffffff then max_path_length else cDefaultMaxLength
    let magic := read32 m file
    if magic = cMagic0 ∧ read16 m (file + 0x4) = cMagic1 then
      let crc32_count := read32 m (file + 0xe)
      let collision_count := read32 m (file + 0x12)
      ({ m_resource_size_crc32_array := file + 0x16
         m_resource_size_collision_array := GetCollisionArray file 0x16 crc32_count collision_count
         m_resource_size_crc32_count := crc32_count
         m_resource_size_collision_count := collision_count
         m_max_path := read32 m (file + 0xa)
         m_head := file }, true)
    else if magic = cMagic then
      let crc32_count := read32 m (file + 0x4)
      let collision_count := read32 m (file + 0x8)
      ({ m_resource_size_crc32_array := file + 0xc
         m_resource_size_collision_array := GetCollisionArray file 0xc crc32_count collision_count
         m_resource_size_crc32_count := crc32_count
         m_resource_size_collision_count := collision_count
         m_max_path := max_path
         m_head := file }, true)
    else
      ({ e with
         m_resource_size_crc32_array := file
         m_resource_size_crc32_count := file_size / 0x8
         m_max_path := max_path
         m_head := file }, true)

variable (e : Extractor) (m : Bytes)

def collisionPath (index : BitVec 32) : BitVec 64 :=
  e.m_resource_size_collision_array + (0x4 + e.m_max_path.setWidth 64) * index.setWidth 64

/-- The loop of `TryGetResourceSizeByPathCollision`. -/
def searchCollision (path : ℕ) : ℕ → BitVec 32 → BitVec 32 → Option (BitVec 32)
  | 0, _, _ => none
  | fuel + 1, i, size =>
    if i < size then
      let index := (i + size) >>> 1
      let collision_path := e.collisionPath index
      let n := e.m_max_path.toNat
      let result := strncmp n (textAt m path n) (textAt m collision_path.toNat n)
      if result = 0 then some (read32 m (collision_path + e.m_max_path.setWidth 64))
      else if 0 < result then searchCollision path fuel (index + 1) size
      else searchCollision path fuel i index
    else some cInvalidSize

def TryGetResourceSizeByPathCollision (fuel path : ℕ) : Option (BitVec 32) :=
  if e.m_resource_size_collision_array = 0 ∨ e.m_resource_size_collision_count = 0 then
    some cInvalidSize
  else e.searchCollision m path fuel 0 e.m_resource_size_collision_count

def TryGetResourceSize (fuel path : ℕ) : Option (BitVec 32) :=
  match Crc32.hashCrc32b m false fuel path with
  | none => none
  | some hash =>
    match e.TryGetResourceSizeByCrc32 m fuel hash with
    | none => none
    | some size =>
      if size ≠ cInvalidSize then some size else e.TryGetResourceSizeByPathCollision m fuel path

variable {e m} {fuel path : ℕ} {hash : BitVec 32}

theorem tryGetResourceSize_eq (hcount : e.m_resource_size_collision_count = 0)
    (hhash : Crc32.hashCrc32b m false fuel path = some hash) :
    e.TryGetResourceSize m fuel path = e.TryGetResourceSizeByCrc32 m fuel hash := by
  rw [TryGetResourceSize, hhash]
  dsimp only
  cases e.TryGetResourceSizeByCrc32 m fuel hash with
  | none => rfl
  | some size =>
    by_cases hsize : size = cInvalidSize
    · dsimp only
      rw [if_neg (not_not.mpr hsize), TryGetResourceSizeByPathCollision, if_pos (Or.inr hcount),
        hsize]
    · exact if_pos hsize

end Extractor

end Awn.ResourceSizeTable
