import Awn.Sarc.Extractor
import Awn.Sorted.Bisect

/-! `vp::res::ResBffntKerningTable`, in the memory that its font file is loaded to. -/

namespace Awn.Bffnt

open Memory
open Sarc (read16 read32)

namespace ResBffntKerningTable

variable (m : Bytes) (table : BitVec 64)

def kerning_offset_count : BitVec 16 := read16 m (table + 0x8)

def kerning_array (index : BitVec 32) : BitVec 64 := table + 0xc + 8 * index.setWidth 64

def character (index : BitVec 32) : BitVec 32 := read32 m (kerning_array table index)

/-- The loop, with the indices that it reads an entry at. The outer `none` is out of fuel. -/
def search (query : BitVec 32) : ℕ → BitVec 32 → BitVec 32 → Option (Option (BitVec 64))
  | 0, _, _ => none
  | fuel + 1, i, size =>
    if i < size then
      let index := (i + size) >>> 1
      if character m table index = query then some (some (kerning_array table index))
      else if query < character m table index then search query fuel (index + 1) size
      else search query fuel i index
    else some none

def searchReads (query : BitVec 32) : ℕ → BitVec 32 → BitVec 32 → List (BitVec 32)
  | 0, _, _ => []
  | fuel + 1, i, size =>
    if i < size then
      let index := (i + size) >>> 1
      index ::
        if character m table index = query then []
        else if query < character m table index then searchReads query fuel (index + 1) size
        else searchReads query fuel i index
    else []

def TryGetKerningByCharacter (fuel : ℕ) (query : BitVec 32) : Option (Option (BitVec 64)) :=
  search m table query fuel 0 ((kerning_offset_count m table).setWidth 32)

def side (query : BitVec 32) (index : BitVec 32) : Ordering :=
  if character m table index = query then .eq
  else if query < character m table index then .gt
  else .lt

def count : ℕ := (kerning_offset_count m table).toNat

def Ascending : Prop :=
  ∀ i j : BitVec 32, i < j → j.toNat < count m table → character m table i < character m table j

def Finds (query : BitVec 32) : Prop :=
  ∃ least, ∀ fuel, least ≤ fuel →
    (∀ index ∈ searchReads m table query fuel 0 ((kerning_offset_count m table).setWidth 32),
        index.toNat < count m table) ∧
      ∃ found, TryGetKerningByCharacter m table fuel query = some found ∧
        (∀ i : BitVec 32, i.toNat < count m table → character m table i = query →
          found = some (kerning_array table i)) ∧
        ((∀ i : BitVec 32, i.toNat < count m table → character m table i ≠ query) → found = none)

variable {m table} {query : BitVec 32}

theorem search_eq (fuel : ℕ) (i size : BitVec 32) :
    search m table query fuel i size =
      (Sorted.bisect (side m table query) fuel i size).map (·.map (kerning_array table)) := by
  induction fuel generalizing i size with
  | zero => rfl
  | succ fuel ih =>
    rw [search, Sorted.bisect]
    dsimp only
    unfold side
    split_ifs with hlt heq hless
    · rfl
    · exact ih _ _
    · exact ih _ _
    · rfl

theorem searchReads_eq (fuel : ℕ) (i size : BitVec 32) :
    searchReads m table query fuel i size =
      Sorted.bisectReads (side m table query) fuel i size := by
  induction fuel generalizing i size with
  | zero => rfl
  | succ fuel ih =>
    rw [searchReads, Sorted.bisectReads]
    dsimp only
    unfold side
    split_ifs with hlt heq hless
    · rfl
    · rw [ih]
      rfl
    · rw [ih]
      rfl
    · rfl

theorem side_eq_iff {index : BitVec 32} :
    side m table query index = .eq ↔ character m table index = query := by
  unfold side
  split_ifs with heq hless
  · exact iff_of_true rfl heq
  · exact iff_of_false (by decide) heq
  · exact iff_of_false (by decide) heq

theorem size_toNat (m : Bytes) (table : BitVec 64) :
    ((kerning_offset_count m table).setWidth 32).toNat = count m table := by
  rw [BitVec.toNat_setWidth]
  have hlt := (kerning_offset_count m table).isLt
  exact Nat.mod_eq_of_lt (by omega)

theorem count_lt (m : Bytes) (table : BitVec 64) : count m table < 2 ^ 16 :=
  (kerning_offset_count m table).isLt

theorem not_leads (h : Ascending m table) {i a : BitVec 32} (hi : i.toNat < count m table)
    (ha : a.toNat < count m table) (hne : a ≠ i) (hquery : character m table i = query) :
    side m table query a ≠ if a < i then .gt else .lt := by
  subst hquery
  unfold side
  obtain hlt | heq | hgt := lt_trichotomy a.toNat i.toNat
  · have hbelow := h a i (BitVec.lt_def.mpr hlt) hi
    rw [if_pos (BitVec.lt_def.mpr hlt), if_neg (BitVec.ne_of_lt hbelow),
      if_neg (by bv_omega)]
    exact Ordering.noConfusion
  · exact absurd (BitVec.eq_of_toNat_eq heq) hne
  · have habove := h i a (BitVec.lt_def.mpr hgt) ha
    have hnot : ¬ a < i := by
      rw [BitVec.lt_def]
      omega
    rw [if_neg hnot, if_neg (BitVec.ne_of_lt habove).symm, if_pos habove]
    exact Ordering.noConfusion

theorem bisect_iff (h : Ascending m table) {fuel : ℕ} (hfuel : count m table < fuel)
    {i : BitVec 32} (hi : i.toNat < count m table) (hquery : character m table i = query) :
    Sorted.bisect (side m table query) fuel 0 ((kerning_offset_count m table).setWidth 32) =
      some (some i) ↔ i.toNat = count m table / 2 := by
  have hcount := count_lt m table
  have hsize := size_toNat m table
  generalize (kerning_offset_count m table).setWidth 32 = size at hsize ⊢
  have hmiddle : ((0 + size) >>> 1).toNat = size.toNat / 2 := by
    have hzero : (0 : BitVec 32).toNat = 0 := rfl
    rw [Sorted.middle_toNat (by omega) (by omega), hzero, Nat.zero_add]
  rw [Sorted.bisect_eq_some_iff (k := count m table + 1) (by omega)
    (BitVec.le_def.mpr (Nat.zero_le _)) (BitVec.lt_def.mpr (by omega)) (by omega) (by omega),
    side_eq_iff, Sorted.above]
  generalize (0 + size) >>> 1 = index at hmiddle ⊢
  by_cases heq : i = index
  · subst heq
    rw [if_pos rfl]
    exact iff_of_true ⟨hquery, List.forall_mem_nil _⟩ (by omega)
  · rw [if_neg heq]
    refine iff_of_false ?_ fun hhalf => heq (BitVec.eq_of_toNat_eq (by omega))
    rintro ⟨-, hleads⟩
    apply not_leads h hi (a := index) (by omega) (Ne.symm heq) hquery
    apply hleads
    split_ifs <;> exact List.mem_cons_self

theorem search_absent (habsent : ∀ i : BitVec 32, i.toNat < count m table →
    character m table i ≠ query) {fuel : ℕ} (hfuel : count m table < fuel) :
    TryGetKerningByCharacter m table fuel query = some none := by
  have hcount := count_lt m table
  have hsize := size_toNat m table
  rw [TryGetKerningByCharacter, search_eq]
  generalize (kerning_offset_count m table).setWidth 32 = size at hsize ⊢
  have hsome : (Sorted.bisect (side m table query) fuel 0 size).isSome :=
    Sorted.bisect_isSome (by omega) (by omega)
  obtain ⟨found, hfound⟩ := Option.isSome_iff_exists.mp hsome
  rw [hfound]
  cases found with
  | none => rfl
  | some i =>
    obtain ⟨hi, heq⟩ := Sorted.bisect_found (by omega) hfound
    rw [BitVec.lt_def] at hi
    exact absurd (side_eq_iff.mp heq) (habsent i (by omega))

theorem kerning_array_inj {i j : BitVec 32} (h : kerning_array table i = kerning_array table j) :
    i = j := by
  unfold kerning_array at h
  bv_omega

end ResBffntKerningTable

open ResBffntKerningTable in
/-- The search goes to the wrong half, so it finds an entry only where it looks at it first. -/
theorem tryGetKerningByCharacter_iff {m : Bytes} {table : BitVec 64} (h : Ascending m table)
    (query : BitVec 32) :
    Finds m table query ↔
      ∀ i : BitVec 32, i.toNat < count m table → character m table i = query →
        i.toNat = count m table / 2 := by
  have hcount := count_lt m table
  have hsize := size_toNat m table
  have hreads : ∀ fuel, ∀ index ∈ searchReads m table query fuel 0
      ((kerning_offset_count m table).setWidth 32), index.toNat < count m table := by
    intro fuel index hindex
    rw [searchReads_eq] at hindex
    have hlt := Sorted.bisectReads_lt (by omega) index hindex
    rw [BitVec.lt_def] at hlt
    omega
  constructor
  · rintro ⟨least, hfinds⟩ i hi hquery
    obtain ⟨-, found, hfound, hpresent, -⟩ := hfinds (least + count m table + 1) (by omega)
    rw [hpresent i hi hquery, TryGetKerningByCharacter, search_eq] at hfound
    obtain ⟨place, hplace, hsome⟩ := Option.map_eq_some_iff.mp hfound
    obtain ⟨j, rfl, hj⟩ := Option.map_eq_some_iff.mp hsome
    rw [kerning_array_inj hj] at hplace
    exact (bisect_iff h (by omega) hi hquery).mp hplace
  · intro hmiddle
    refine ⟨count m table + 1, fun fuel hfuel => ⟨hreads fuel, ?_⟩⟩
    by_cases hpresent : ∃ i : BitVec 32, i.toNat < count m table ∧ character m table i = query
    · obtain ⟨i, hi, hquery⟩ := hpresent
      have hfound := (bisect_iff h hfuel hi hquery).mpr (hmiddle i hi hquery)
      refine ⟨some (kerning_array table i), ?_, ?_, ?_⟩
      · rw [TryGetKerningByCharacter, search_eq, hfound]
        rfl
      · intro j hj hj'
        have heq : i = j := by
          have hi' := hmiddle i hi hquery
          have hj'' := hmiddle j hj hj'
          exact BitVec.eq_of_toNat_eq (hi'.trans hj''.symm)
        rw [heq]
      · intro hnone
        exact absurd hquery (hnone i hi)
    · have habsent : ∀ i : BitVec 32, i.toNat < count m table → character m table i ≠ query :=
        fun i hi hquery => hpresent ⟨i, hi, hquery⟩
      refine ⟨none, search_absent habsent hfuel, fun i hi hquery => ?_, fun _ => rfl⟩
      exact absurd hquery (habsent i hi)

def threeCharacters : Bytes := fun a =>
  [0x4b, 0x52, 0x4e, 0x47, 0x24, 0, 0, 0, 3, 0, 0, 0, 0x41, 0, 0, 0, 0, 0, 0, 0,
    0x43, 0, 0, 0, 0, 0, 0, 0, 0x45, 0, 0, 0, 0, 0, 0, 0].getD a 0

open ResBffntKerningTable

theorem threeCharacters_ascending : Ascending threeCharacters 0 := by
  intro i j hij hj
  have hcount : count threeCharacters 0 = 3 := by decide
  rw [hcount] at hj
  rw [BitVec.lt_def] at hij
  obtain ⟨rfl, rfl⟩ | ⟨rfl, rfl⟩ | ⟨rfl, rfl⟩ :
      i = 0 ∧ j = 1 ∨ i = 0 ∧ j = 2 ∨ i = 1 ∧ j = 2 := by bv_omega
  all_goals decide

theorem tryGetKerningByCharacter_iff_middle : Finds threeCharacters 0 0x43 := by
  apply (tryGetKerningByCharacter_iff threeCharacters_ascending 0x43).mpr
  intro i hi hquery
  have hcount : count threeCharacters 0 = 3 := by decide
  rw [hcount] at hi ⊢
  obtain rfl | rfl | rfl : i = 0 ∨ i = 1 ∨ i = 2 := by bv_omega
  all_goals first | rfl | exact absurd hquery (by decide)

theorem threeCharacters_not_finds :
    Ascending threeCharacters 0 ∧ ¬ Finds threeCharacters 0 0x41 := by
  refine ⟨threeCharacters_ascending, ?_⟩
  rintro ⟨least, hfinds⟩
  obtain ⟨-, found, hfound, hpresent, -⟩ := hfinds (least + 4) (Nat.le_add_right least 4)
  have hnone : TryGetKerningByCharacter threeCharacters 0 (least + 4) 0x41 = some none := by
    rfl
  rw [hpresent 0 (by decide) (by decide), hnone] at hfound
  cases hfound

end Awn.Bffnt
