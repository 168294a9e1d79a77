import Mathlib.Algebra.Group.Nat.Defs
import Mathlib.Data.List.Basic
import Mathlib.Data.Nat.Notation
import Mathlib.Order.Basic
import Mathlib.Order.Lattice

/-!
A search by halves in a half-open interval, against a look at every entry in turn. A comparison
says where the query stands to an entry.
-/

namespace Awn.Sorted

section Loop

variable (compare : BitVec 32 → Ordering)

/-- The outer `none` is out of fuel, the inner one no such entry. -/
def bisect : ℕ → BitVec 32 → BitVec 32 → Option (Option (BitVec 32))
  | 0, _, _ => none
  | fuel + 1, i, size =>
    if i < size then
      let index := (i + size) >>> 1
      match compare index with
      | .eq => some (some index)
      | .gt => bisect fuel (index + 1) size
      | .lt => bisect fuel i index
    else some none

def bisectReads : ℕ → BitVec 32 → BitVec 32 → List (BitVec 32)
  | 0, _, _ => []
  | fuel + 1, i, size =>
    if i < size then
      let index := (i + size) >>> 1
      index ::
        match compare index with
        | .eq => []
        | .gt => bisectReads fuel (index + 1) size
        | .lt => bisectReads fuel i index
    else []

def linearSearch (count : ℕ) : Option (BitVec 32) :=
  ((List.range count).map (BitVec.ofNat 32)).find? fun i => compare i = .eq

end Loop

variable {compare : BitVec 32 → Ordering} {fuel count : ℕ} {i size : BitVec 32}

theorem middle_toNat (hsize : size.toNat < 2 ^ 31) (h : i.toNat < size.toNat) :
    ((i + size) >>> 1).toNat = (i.toNat + size.toNat) / 2 := by
  rw [BitVec.toNat_ushiftRight, BitVec.toNat_add, Nat.mod_eq_of_lt (by omega), Nat.shiftRight_succ,
    Nat.shiftRight_zero]

theorem succ_toNat {i : BitVec 32} (h : i.toNat < 2 ^ 31) :
    (i + 1).toNat = i.toNat + 1 := by
  have hone : (1 : BitVec 32).toNat = 1 := rfl
  rw [BitVec.toNat_add, hone]
  omega

theorem bisectReads_lt (hsize : size.toNat < 2 ^ 31) :
    ∀ j ∈ bisectReads compare fuel i size, j < size := by
  induction fuel generalizing i size with
  | zero =>
    intro j hj
    cases hj
  | succ fuel ih =>
    intro j hj
    rw [bisectReads] at hj
    split at hj
    · rename_i hlt
      rw [BitVec.lt_def] at hlt
      have hm := middle_toNat hsize hlt
      obtain rfl | hj := List.mem_cons.mp hj
      · rw [BitVec.lt_def]
        omega
      · split at hj
        · cases hj
        · exact ih hsize j hj
        · have hin := ih (by omega) j hj
          rw [BitVec.lt_def] at hin ⊢
          omega
    · cases hj

theorem bisect_isSome (hsize : size.toNat < 2 ^ 31) (hfuel : size.toNat - i.toNat < fuel) :
    (bisect compare fuel i size).isSome := by
  induction fuel generalizing i size with
  | zero => omega
  | succ fuel ih =>
    rw [bisect]
    split
    · rename_i hlt
      rw [BitVec.lt_def] at hlt
      have hm := middle_toNat hsize hlt
      dsimp only
      split
      · rfl
      · apply ih hsize
        rw [succ_toNat (by omega)]
        omega
      · exact ih (by omega) (by omega)
    · rfl

theorem bisect_found {j : BitVec 32} (hsize : size.toNat < 2 ^ 31)
    (h : bisect compare fuel i size = some (some j)) : j < size ∧ compare j = .eq := by
  induction fuel generalizing i size with
  | zero => cases h
  | succ fuel ih =>
    rw [bisect] at h
    split at h
    · rename_i hlt
      rw [BitVec.lt_def] at hlt
      have hm := middle_toNat hsize hlt
      dsimp only at h
      split at h
      · rename_i heq
        cases h
        refine ⟨?_, heq⟩
        rw [BitVec.lt_def]
        omega
      · exact ih hsize h
      · obtain ⟨hin, heq⟩ := ih (by omega) h
        refine ⟨?_, heq⟩
        rw [BitVec.lt_def] at hin ⊢
        omega
    · cases h

def Ascends (compare : BitVec 32 → Ordering) (count : ℕ) : Prop :=
  ∀ i j : BitVec 32, i < j → j.toNat < count → compare j ≠ .lt → compare i = .gt

theorem bisect_none (hsorted : Ascends compare count) (hsize : size.toNat < 2 ^ 31)
    (hle : size.toNat ≤ count)
    (hbelow : ∀ j : BitVec 32, j < i → compare j = .gt)
    (habove : ∀ j : BitVec 32, size ≤ j → j.toNat < count → compare j = .lt)
    (h : bisect compare fuel i size = some none) :
    ∀ j : BitVec 32, j.toNat < count → compare j ≠ .eq := by
  induction fuel generalizing i size with
  | zero => cases h
  | succ fuel ih =>
    rw [bisect] at h
    split at h
    · rename_i hlt
      rw [BitVec.lt_def] at hlt
      have hm := middle_toNat hsize hlt
      dsimp only at h
      split at h
      · cases h
      · rename_i hgt
        apply ih hsize hle _ habove h
        intro j hj
        rw [BitVec.lt_def, succ_toNat (by omega)] at hj
        rcases Nat.lt_or_eq_of_le (Nat.le_of_lt_succ hj) with hj | hj
        · exact hsorted j _ (BitVec.lt_def.mpr hj) (by omega) (by rw [hgt]; exact Ordering.noConfusion)
        · rw [BitVec.eq_of_toNat_eq hj]
          exact hgt
      · rename_i hless
        apply ih (by omega) (by omega) hbelow _ h
        intro j hj hcount
        rw [BitVec.le_def] at hj
        rcases Nat.lt_or_eq_of_le hj with hj | hj
        · by_contra hne
          have := hsorted _ j (BitVec.lt_def.mpr hj) hcount hne
          rw [hless] at this
          cases this
        · rw [← BitVec.eq_of_toNat_eq hj]
          exact hless
    · rename_i hend
      intro j hj heq
      by_cases hji : j < i
      · rw [hbelow j hji] at heq
        cases heq
      · have hsj : size ≤ j := by
          rw [BitVec.lt_def] at hend hji
          rw [BitVec.le_def]
          omega
        rw [habove j hsj hj] at heq
        cases heq

theorem linearSearch_eq_none (h : ∀ j : BitVec 32, j.toNat < count → compare j ≠ .eq)
    (hcount : count ≤ 2 ^ 31) : linearSearch compare count = none := by
  rw [linearSearch, List.find?_eq_none]
  intro j hj
  obtain ⟨k, hk, rfl⟩ := List.mem_map.mp hj
  rw [List.mem_range] at hk
  rw [decide_eq_true_eq]
  apply h
  rw [BitVec.toNat_ofNat]
  omega

theorem linearSearch_eq_some (hsorted : Ascends compare count) (hcount : count ≤ 2 ^ 31)
    {j : BitVec 32} (hj : j.toNat < count) (heq : compare j = .eq) :
    linearSearch compare count = some j := by
  cases hfind : linearSearch compare count with
  | none =>
    rw [linearSearch, List.find?_eq_none] at hfind
    have hmem : j ∈ (List.range count).map (BitVec.ofNat 32) :=
      List.mem_map.mpr ⟨j.toNat, List.mem_range.mpr hj, by rw [BitVec.ofNat_toNat, BitVec.setWidth_eq]⟩
    exact absurd (decide_eq_true heq) (hfind j hmem)
  | some k =>
    have hk := List.find?_some hfind
    rw [decide_eq_true_eq] at hk
    obtain ⟨n, hn, rfl⟩ := List.mem_map.mp (List.mem_of_find?_eq_some hfind)
    rw [List.mem_range] at hn
    have hkn : (BitVec.ofNat 32 n).toNat = n := by
      rw [BitVec.toNat_ofNat]
      omega
    rcases Nat.lt_trichotomy (BitVec.ofNat 32 n).toNat j.toNat with hlt | hsame | hgt
    · have := hsorted _ j (BitVec.lt_def.mpr hlt) hj (by rw [heq]; exact Ordering.noConfusion)
      rw [hk] at this
      cases this
    · rw [BitVec.eq_of_toNat_eq hsame]
    · have := hsorted j _ (BitVec.lt_def.mpr hgt) (by omega) (by rw [hk]; exact Ordering.noConfusion)
      rw [heq] at this
      cases this

theorem bisect_eq_linearSearch {n : BitVec 32} (hsorted : Ascends compare n.toNat)
    (hcount : n.toNat < 2 ^ 31) (hfuel : n.toNat < fuel) :
    bisect compare fuel 0 n = some (linearSearch compare n.toNat) := by
  have hzero : (0 : BitVec 32).toNat = 0 := rfl
  have hsome : (bisect compare fuel 0 n).isSome := bisect_isSome hcount (by omega)
  obtain ⟨r, hr⟩ := Option.isSome_iff_exists.mp hsome
  rw [hr]
  cases r with
  | none =>
    have hnone := bisect_none hsorted hcount (Nat.le_refl _)
      (fun j hj => absurd (BitVec.lt_def.mp hj) (Nat.not_lt_zero _))
      (fun j hj hn => by
        rw [BitVec.le_def] at hj
        omega) hr
    rw [linearSearch_eq_none hnone (by omega)]
  | some j =>
    obtain ⟨hj, heq⟩ := bisect_found hcount hr
    rw [linearSearch_eq_some hsorted (by omega) (BitVec.lt_def.mp hj) heq]

theorem bisect_ge {j : BitVec 32} (hsize : size.toNat < 2 ^ 31)
    (h : bisect compare fuel i size = some (some j)) : i ≤ j := by
  induction fuel generalizing i size with
  | zero => cases h
  | succ fuel ih =>
    rw [bisect] at h
    split at h
    · rename_i hlt
      rw [BitVec.lt_def] at hlt
      have hm := middle_toNat hsize hlt
      dsimp only at h
      split at h
      · cases h
        rw [BitVec.le_def]
        omega
      · have hin := ih hsize h
        rw [BitVec.le_def, succ_toNat (by omega)] at hin
        rw [BitVec.le_def]
        omega
      · exact ih (by omega) h
    · cases h

section Paths

def above (j : BitVec 32) : ℕ → BitVec 32 → BitVec 32 → List (BitVec 32)
  | 0, _, _ => []
  | fuel + 1, i, size =>
    let index := (i + size) >>> 1
    if j = index then []
    else if index < j then index :: above j fuel (index + 1) size
    else index :: above j fuel i index

def Leads (compare : BitVec 32 → Ordering) (j : BitVec 32) (entries : List (BitVec 32)) : Prop :=
  ∀ a ∈ entries, compare a = if a < j then .gt else .lt

theorem leads_cons {j a : BitVec 32} {entries : List (BitVec 32)} :
    Leads compare j (a :: entries) ↔
      (compare a = if a < j then .gt else .lt) ∧ Leads compare j entries :=
  List.forall_mem_cons

theorem bisect_eq_some_iff {j : BitVec 32} {k : ℕ} (hsize : size.toNat < 2 ^ 31) (hij : i ≤ j)
    (hj : j < size) (hfuel : size.toNat - i.toNat < fuel) (hsteps : size.toNat - i.toNat < k) :
    bisect compare fuel i size = some (some j) ↔
      compare j = .eq ∧ Leads compare j (above j k i size) := by
  induction fuel generalizing i size k with
  | zero => omega
  | succ fuel ih =>
    obtain ⟨k, rfl⟩ := Nat.exists_eq_add_one_of_ne_zero (Nat.ne_of_gt (Nat.zero_lt_of_lt hsteps))
    rw [BitVec.le_def] at hij
    rw [BitVec.lt_def] at hj
    have hlt : i < size := BitVec.lt_def.mpr (by omega)
    have hm := middle_toNat hsize (BitVec.lt_def.mp hlt)
    have hnext := succ_toNat (i := (i + size) >>> 1) (by omega)
    rw [bisect, above, if_pos hlt]
    dsimp only
    generalize (i + size) >>> 1 = index at hm hnext
    rcases Nat.lt_trichotomy index.toNat j.toNat with hright | hhere | hleft
    · have hne : j ≠ index := fun h => absurd hright (by rw [h]; exact Nat.lt_irrefl _)
      rw [if_neg hne, if_pos (BitVec.lt_def.mpr hright), leads_cons,
        if_pos (BitVec.lt_def.mpr hright)]
      cases hcompare : compare index with
      | eq => simp [Ne.symm hne]
      | gt =>
        rw [ih hsize (BitVec.le_def.mpr (by omega)) (BitVec.lt_def.mpr hj) (by omega)
          (k := k) (by omega)]
        simp
      | lt =>
        have hleft : bisect compare fuel i index ≠ some (some j) := by
          intro h
          have hin := (bisect_found (by omega) h).1
          rw [BitVec.lt_def] at hin
          omega
        simpa using hleft
    · obtain rfl := BitVec.eq_of_toNat_eq hhere
      rw [if_pos rfl]
      cases hcompare : compare index with
      | eq => simp [Leads]
      | gt =>
        have hnot : bisect compare fuel (index + 1) size ≠ some (some index) := by
          intro h
          have heq := (bisect_found hsize h).2
          rw [hcompare] at heq
          cases heq
        simpa using hnot
      | lt =>
        have hnot : bisect compare fuel i index ≠ some (some index) := by
          intro h
          have heq := (bisect_found (by omega) h).2
          rw [hcompare] at heq
          cases heq
        simpa using hnot
    · have hne : j ≠ index := fun h => absurd hleft (by rw [h]; exact Nat.lt_irrefl _)
      have hnot : ¬index < j := by
        rw [BitVec.lt_def]
        omega
      rw [if_neg hne, if_neg hnot, leads_cons, if_neg hnot]
      cases hcompare : compare index with
      | eq => simp [Ne.symm hne]
      | gt =>
        have hright : bisect compare fuel (index + 1) size ≠ some (some j) := by
          intro h
          have hin := bisect_ge hsize h
          rw [BitVec.le_def] at hin
          omega
        simpa using hright
      | lt =>
        rw [ih (by omega) (BitVec.le_def.mpr hij) (BitVec.lt_def.mpr hleft) (by omega)
          (k := k) (by omega)]
        simp

end Paths

section Keys

variable {K : Type*} [LinearOrder K]

def standing (query key : K) : Ordering :=
  if query = key then .eq else if key < query then .gt else .lt

theorem standing_eq_iff {query key : K} : standing query key = .eq ↔ query = key := by
  rw [standing]
  split
  · rename_i heq
    exact ⟨fun _ => heq, fun _ => rfl⟩
  · rename_i hne
    constructor
    · split <;> exact fun h => by cases h
    · exact fun heq => absurd heq hne

theorem standing_gt {query key : K} (h : key < query) : standing query key = .gt := by
  rw [standing, if_neg (ne_of_gt h), if_pos h]

theorem standing_lt {query key : K} (h : query < key) : standing query key = .lt := by
  rw [standing, if_neg (ne_of_lt h), if_neg (lt_asymm h)]

theorem ascends_standing {key : BitVec 32 → K} (query : K)
    (hcompare : ∀ i : BitVec 32, i.toNat < count → compare i = standing query (key i))
    (h : ∀ i j : BitVec 32, i < j → j.toNat < count → key i < key j) : Ascends compare count := by
  intro i j hij hj hne
  rw [hcompare j hj] at hne
  have hle : key j ≤ query := by
    by_contra hlt
    exact hne (standing_lt (not_le.mp hlt))
  rw [hcompare i (Nat.lt_trans (BitVec.lt_def.mp hij) hj)]
  exact standing_gt ((h i j hij hj).trans_le hle)

theorem linearSearch_congr {p : BitVec 32 → Bool}
    (h : ∀ i : BitVec 32, i.toNat < count → (compare i = .eq ↔ p i = true)) (hcount : count ≤ 2 ^ 32) :
    linearSearch compare count = ((List.range count).map (BitVec.ofNat 32)).find? p := by
  rw [linearSearch]
  have hmem : ∀ i ∈ (List.range count).map (BitVec.ofNat 32), i.toNat < count := by
    intro i hi
    obtain ⟨k, hk, rfl⟩ := List.mem_map.mp hi
    rw [List.mem_range] at hk
    rw [BitVec.toNat_ofNat]
    omega
  generalize (List.range count).map (BitVec.ofNat 32) = entries at hmem
  induction entries with
  | nil => rfl
  | cons e entries ih =>
    have he : decide (compare e = .eq) = p e := by
      rw [Bool.eq_iff_iff, decide_eq_true_eq]
      exact h e (hmem e List.mem_cons_self)
    rw [List.find?_cons, List.find?_cons, he, ih fun i hi => hmem i (List.mem_cons_of_mem e hi)]

end Keys

end Awn.Sorted
