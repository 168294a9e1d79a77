import Awn.Memory.Buffer
import Awn.Sarc.Extractor
import Awn.Sorted.Halving

/-! What the lookup of a path reads of the table of entries, and what it finds there. -/

namespace Awn.Sarc.SarcExtractor

open Memory

variable (m : Bytes) (e : SarcExtractor)

def searchReads (hash : BitVec 32) : ℕ → BitVec 64 → BitVec 32 → BitVec 32 → List (BitVec 64)
  | 0, _, _, _ => []
  | fuel + 1, entry_index, high_iter, low_iter =>
    let current_hash := e.fileNameHash m entry_index
    entry_index ::
      if hash = current_hash then []
      else
        let result := if hash < current_hash then low_iter else entry_index.setWidth 32
        let i := if hash < current_hash then high_iter else low_iter
        let high_iter := if hash < current_hash then entry_index.setWidth 32 else high_iter
        if i.setWidth 64 = entry_index then []
        else searchReads hash fuel ((high_iter + result).setWidth 64 / 2) high_iter result

def collisionReads (path : List (BitVec 8)) (hash : BitVec 32) : ℕ → BitVec 64 → List (BitVec 64)
  | 0, _ => []
  | fuel + 1, entry_index =>
    if entry_index < (e.fileCount m).setWidth 64 then
      entry_index ::
        if e.fileNameHash m entry_index ≠ hash then []
        else if e.m_file_region < e.path m entry_index then []
        else if stringAt m (e.path m entry_index).toNat path then []
        else collisionReads path hash fuel (entry_index + 1)
    else []

def entriesRead (fuel : ℕ) (path : List (BitVec 8)) : List (BitVec 64) :=
  let file_count := e.fileCount m
  if file_count = 0 then []
  else
    let hash := CalculateSarcHash (e.hashSeed m) path
    e.searchReads m hash fuel ((file_count / 2).setWidth 64) file_count 0 ++
      match e.searchHash m hash fuel ((file_count / 2).setWidth 64) file_count 0 with
      | some (some entry_index) =>
        let root_collision_index := e.entryNameData m entry_index >>> 0x18
        entry_index ::
          if root_collision_index ≠ 1 then
            e.collisionReads m [] hash fuel (entry_index - root_collision_index.setWidth 64 + 1)
          else []
      | _ => []

def HasHash (hash : BitVec 32) : Prop :=
  ∃ i : BitVec 32, i < e.fileCount m ∧ e.fileNameHash m (i.setWidth 64) = hash

def SortedByHash : Prop :=
  ∀ i j : BitVec 32, i ≤ j → j < e.fileCount m →
    e.fileNameHash m (i.setWidth 64) ≤ e.fileNameHash m (j.setWidth 64)

/-- The lookup ends, stays inside the table and, if it is sorted, comes by the halving to an entry
with the hash of the path where there is one. What it answers then is for the comparison of the
paths of that hash. -/
structure Searches (path : List (BitVec 8)) : Prop where
  ends : ∃ enough, ∀ fuel ≥ enough, (e.TryGetEntryIndexByPath m fuel path).isSome
  inside : ∀ fuel, ∀ i ∈ e.entriesRead m fuel path, i < (e.fileCount m).setWidth 64
  present : e.SortedByHash m → e.HasHash m (CalculateSarcHash (e.hashSeed m) path) →
    ∃ i : BitVec 32, i < e.fileCount m ∧
      e.fileNameHash m (i.setWidth 64) = CalculateSarcHash (e.hashSeed m) path ∧
      ∃ enough, ∀ fuel ≥ enough, e.TryGetEntryIndexByPath m fuel path =
        e.checkCollisions m fuel [] (CalculateSarcHash (e.hashSeed m) path) (i.setWidth 64)
  absent : ¬e.HasHash m (CalculateSarcHash (e.hashSeed m) path) →
    ∃ enough, ∀ fuel ≥ enough, e.TryGetEntryIndexByPath m fuel path = some cInvalidEntryIndex

variable {m e} {hash : BitVec 32} {fuel : ℕ}

theorem setWidth_half (a : BitVec 32) : a.setWidth 64 / 2 = (a / 2).setWidth 64 := by
  have htwo : (2 : BitVec 64).toNat = 2 := rfl
  have htwo' : (2 : BitVec 32).toNat = 2 := rfl
  apply BitVec.eq_of_toNat_eq
  rw [BitVec.toNat_udiv, BitVec.toNat_setWidth, BitVec.toNat_setWidth, BitVec.toNat_udiv, htwo,
    htwo']
  have ha := a.isLt
  omega

theorem searchHash_eq (entry high_iter low_iter : BitVec 32) :
    e.searchHash m hash fuel (entry.setWidth 64) high_iter low_iter =
        (Sorted.search (fun i => e.fileNameHash m (i.setWidth 64)) hash fuel entry high_iter
          low_iter).map (·.map (·.setWidth 64)) ∧
      e.searchReads m hash fuel (entry.setWidth 64) high_iter low_iter =
        (Sorted.searchReads (fun i => e.fileNameHash m (i.setWidth 64)) hash fuel entry high_iter
          low_iter).map (·.setWidth 64) := by
  induction fuel generalizing entry high_iter low_iter with
  | zero => exact ⟨rfl, rfl⟩
  | succ fuel ih =>
    rw [searchHash, searchReads, Sorted.search, Sorted.searchReads]
    by_cases heq : hash = e.fileNameHash m (entry.setWidth 64)
    · simp only [if_pos heq]
      exact ⟨rfl, rfl⟩
    · simp only [if_neg heq, widen_narrow, widen_inj, setWidth_half]
      generalize (if hash < e.fileNameHash m (entry.setWidth 64) then low_iter else entry) = result
      generalize (if hash < e.fileNameHash m (entry.setWidth 64) then entry else high_iter) = high
      generalize (if hash < e.fileNameHash m (entry.setWidth 64) then high_iter else low_iter) = i
      by_cases hend : i = entry
      · simp only [if_pos hend]
        exact ⟨rfl, rfl⟩
      · simp only [if_neg hend]
        obtain ⟨hsearch, hreads⟩ := ih ((high + result) / 2) high result
        exact ⟨hsearch, by rw [List.map_cons, hreads]⟩

theorem searchCollisions_isSome {path : List (BitVec 8)} {entry_index : BitVec 64}
    (hfuel : (e.fileCount m).toNat - entry_index.toNat < fuel) :
    (e.searchCollisions m path hash fuel entry_index).isSome := by
  induction fuel generalizing entry_index with
  | zero => omega
  | succ fuel ih =>
    rw [searchCollisions]
    split
    · rename_i hlt
      rw [BitVec.lt_def, BitVec.toNat_setWidth] at hlt
      have hcount := (e.fileCount m).isLt
      have hone : (1 : BitVec 64).toNat = 1 := rfl
      split
      · rfl
      · split
        · rfl
        · split
          · rfl
          · apply ih
            rw [BitVec.toNat_add, hone]
            omega
    · rfl

theorem checkCollisions_isSome {path : List (BitVec 8)} {entry_index : BitVec 64}
    (hfuel : (e.fileCount m).toNat < fuel) :
    (e.checkCollisions m fuel path hash entry_index).isSome := by
  rw [checkCollisions]
  split
  · exact searchCollisions_isSome (by omega)
  · rfl

theorem collisionReads_lt {path : List (BitVec 8)} {entry_index : BitVec 64} :
    ∀ i ∈ e.collisionReads m path hash fuel entry_index, i < (e.fileCount m).setWidth 64 := by
  induction fuel generalizing entry_index with
  | zero =>
    intro i hi
    cases hi
  | succ fuel ih =>
    intro i hi
    rw [collisionReads] at hi
    split at hi
    · rename_i hlt
      obtain rfl | hi := List.mem_cons.mp hi
      · exact hlt
      · split at hi
        · cases hi
        · split at hi
          · cases hi
          · split at hi
            · cases hi
            · exact ih i hi
    · cases hi

theorem fileCount_lt : (e.fileCount m).toNat < 2 ^ 16 := by
  rw [fileCount, BitVec.toNat_setWidth]
  have hlt := (native16 (e.isReverseEndian m) (read16 m (e.m_sfat + 0x6))).isLt
  omega

theorem searchHash_mono {fuel' : ℕ} {r : Option (BitVec 64)} (hle : fuel ≤ fuel')
    (h : e.searchHash m hash fuel ((e.fileCount m / 2).setWidth 64) (e.fileCount m) 0 = some r) :
    e.searchHash m hash fuel' ((e.fileCount m / 2).setWidth 64) (e.fileCount m) 0 = some r := by
  rw [(searchHash_eq _ _ _).1] at h ⊢
  obtain ⟨found, hfound, hr⟩ := Option.map_eq_some_iff.mp h
  rw [Sorted.search_mono hle hfound, Option.map_some, hr]

section Table

variable (hpos : 0 < (e.fileCount m).toNat)
include hpos

theorem searchReads_lt : ∀ i ∈ e.searchReads m hash fuel ((e.fileCount m / 2).setWidth 64)
    (e.fileCount m) 0, i < (e.fileCount m).setWidth 64 := by
  have hcount := fileCount_lt (m := m) (e := e)
  intro i hi
  rw [(searchHash_eq _ _ _).2] at hi
  obtain ⟨j, hj, rfl⟩ := List.mem_map.mp hi
  exact widen_lt (Sorted.searchReads_lt hpos (by omega) j hj)

theorem searchHash_cases (hash : BitVec 32) (hfuel : (e.fileCount m).toNat < fuel) :
    (∃ i : BitVec 32, i < e.fileCount m ∧ e.fileNameHash m (i.setWidth 64) = hash ∧
      e.searchHash m hash fuel ((e.fileCount m / 2).setWidth 64) (e.fileCount m) 0 =
        some (some (i.setWidth 64))) ∨
    (e.searchHash m hash fuel ((e.fileCount m / 2).setWidth 64) (e.fileCount m) 0 = some none ∧
      (e.SortedByHash m → ¬e.HasHash m hash)) := by
  have hcount := fileCount_lt (m := m) (e := e)
  have hsome : (Sorted.search (fun i => e.fileNameHash m (i.setWidth 64)) hash fuel
      (e.fileCount m / 2) (e.fileCount m) 0).isSome :=
    Sorted.search_isSome hpos (by omega) hfuel
  rw [(searchHash_eq _ _ _).1]
  obtain ⟨found, hfound⟩ := Option.isSome_iff_exists.mp hsome
  rw [hfound]
  cases found with
  | some i =>
    obtain ⟨hlt, hhash⟩ := Sorted.search_found hpos (by omega) hfound
    exact Or.inl ⟨i, hlt, hhash, rfl⟩
  | none =>
    refine Or.inr ⟨rfl, ?_⟩
    rintro hsorted ⟨i, hi, hhash⟩
    exact Sorted.search_none hpos (by omega) hsorted hfound i hi hhash

end Table

theorem fileCount_pos (h : e.fileCount m ≠ 0) : 0 < (e.fileCount m).toNat :=
  Nat.pos_of_ne_zero fun hz => h (BitVec.eq_of_toNat_eq hz)

theorem TryGetEntryIndexByPath_null (h : e.fileCount m = 0) (fuel : ℕ) (path : List (BitVec 8)) :
    e.TryGetEntryIndexByPath m fuel path = some cInvalidEntryIndex := by
  rw [TryGetEntryIndexByPath]
  simp only [if_pos h]

theorem TryGetEntryIndexByPath_found (h : e.fileCount m ≠ 0) {path : List (BitVec 8)}
    {entry_index : BitVec 64}
    (hfound : e.searchHash m (CalculateSarcHash (e.hashSeed m) path) fuel
      ((e.fileCount m / 2).setWidth 64) (e.fileCount m) 0 = some (some entry_index)) :
    e.TryGetEntryIndexByPath m fuel path =
      e.checkCollisions m fuel [] (CalculateSarcHash (e.hashSeed m) path) entry_index := by
  rw [TryGetEntryIndexByPath]
  simp only [if_neg h, hfound]

theorem TryGetEntryIndexByPath_none (h : e.fileCount m ≠ 0) {path : List (BitVec 8)}
    (hnone : e.searchHash m (CalculateSarcHash (e.hashSeed m) path) fuel
      ((e.fileCount m / 2).setWidth 64) (e.fileCount m) 0 = some none) :
    e.TryGetEntryIndexByPath m fuel path = some cInvalidEntryIndex := by
  rw [TryGetEntryIndexByPath]
  simp only [if_neg h, hnone]

theorem entriesRead_lt (fuel : ℕ) (path : List (BitVec 8)) :
    ∀ i ∈ e.entriesRead m fuel path, i < (e.fileCount m).setWidth 64 := by
  intro i hi
  rw [entriesRead] at hi
  by_cases hzero : e.fileCount m = 0
  · simp only [if_pos hzero] at hi
    cases hi
  · have hpos := fileCount_pos hzero
    simp only [if_neg hzero] at hi
    obtain hi | hi := List.mem_append.mp hi
    · exact searchReads_lt hpos i hi
    · rw [(searchHash_eq _ _ _).1] at hi
      cases hs : Sorted.search (fun i => e.fileNameHash m (i.setWidth 64))
          (CalculateSarcHash (e.hashSeed m) path) fuel (e.fileCount m / 2) (e.fileCount m) 0 with
      | none =>
        rw [hs] at hi
        cases hi
      | some found =>
        rw [hs] at hi
        cases found with
        | none => cases hi
        | some j =>
          have hcount := fileCount_lt (m := m) (e := e)
          obtain ⟨hlt, -⟩ := Sorted.search_found hpos (by omega) hs
          obtain rfl | hi := List.mem_cons.mp hi
          · exact widen_lt hlt
          · split at hi
            · exact collisionReads_lt i hi
            · cases hi

theorem searches (m : Bytes) (e : SarcExtractor) (path : List (BitVec 8)) : e.Searches m path := by
  by_cases hzero : e.fileCount m = 0
  · have hnull := fun fuel => TryGetEntryIndexByPath_null hzero fuel path
    refine ⟨⟨0, fun fuel _ => by rw [hnull]; rfl⟩, fun fuel => entriesRead_lt fuel path, ?_,
      fun _ => ⟨0, fun fuel _ => hnull fuel⟩⟩
    rintro - ⟨i, hi, -⟩
    rw [hzero, BitVec.lt_def] at hi
    exact absurd hi (Nat.not_lt_zero _)
  · have hpos := fileCount_pos hzero
    constructor
    · refine ⟨(e.fileCount m).toNat + 1, fun fuel hfuel => ?_⟩
      obtain ⟨i, -, -, hs⟩ | ⟨hs, -⟩ := searchHash_cases
        hpos (CalculateSarcHash (e.hashSeed m) path) hfuel
      · rw [TryGetEntryIndexByPath_found hzero hs]
        exact checkCollisions_isSome hfuel
      · rw [TryGetEntryIndexByPath_none hzero hs]
        rfl
    · exact (fun fuel => entriesRead_lt fuel path)
    · intro hsorted hhas
      obtain ⟨i, hi, hhash, hs⟩ | ⟨-, hnone⟩ := searchHash_cases
        hpos (CalculateSarcHash (e.hashSeed m) path) (Nat.lt_succ_self _)
      · refine ⟨i, hi, hhash, (e.fileCount m).toNat + 1, fun fuel hfuel => ?_⟩
        exact TryGetEntryIndexByPath_found hzero (searchHash_mono hfuel hs)
      · exact absurd hhas (hnone hsorted)
    · intro habsent
      refine ⟨(e.fileCount m).toNat + 1, fun fuel hfuel => ?_⟩
      obtain ⟨i, hi, hhash, -⟩ | ⟨hs, -⟩ := searchHash_cases
        hpos (CalculateSarcHash (e.hashSeed m) path) hfuel
      · exact absurd ⟨i, hi, hhash⟩ habsent
      · exact TryGetEntryIndexByPath_none hzero hs

end Awn.Sarc.SarcExtractor
