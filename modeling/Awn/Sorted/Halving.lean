import Mathlib.Algebra.Group.Nat.Defs
import Mathlib.Data.Nat.Notation

/-!
A search by halves for a hash in a table, with the bounds of the interval next to the entry that is
looked at. The loop comes with the entries it reads, and runs on counters of 32 bits.
-/

namespace Awn.Sorted

section Unbounded

variable (hash : ℕ → ℕ) (query : ℕ)

/-- The outer `none` is out of fuel, the inner one no such hash. -/
def halve : ℕ → ℕ → ℕ → ℕ → Option (Option ℕ)
  | 0, _, _, _ => none
  | fuel + 1, entry, high, low =>
    if query = hash entry then some (some entry)
    else if query < hash entry then
      if high = entry then some none else halve fuel ((entry + low) / 2) entry low
    else
      if low = entry then some none else halve fuel ((high + entry) / 2) high entry

def halveReads : ℕ → ℕ → ℕ → ℕ → List ℕ
  | 0, _, _, _ => []
  | fuel + 1, entry, high, low =>
    entry ::
      if query = hash entry then []
      else if query < hash entry then
        if high = entry then [] else halveReads fuel ((entry + low) / 2) entry low
      else
        if low = entry then [] else halveReads fuel ((high + entry) / 2) high entry

structure Bracket (count entry high low : ℕ) : Prop where
  middle : entry = (high + low) / 2
  le : low ≤ high
  inside : entry < count
  high_le : high ≤ count
  below : low = 0 ∨ hash low < query
  above : high = count ∨ query < hash high

variable {hash query} {count entry high low fuel : ℕ}

theorem Bracket.start (h : 0 < count) : Bracket hash query count (count / 2) count 0 where
  middle := rfl
  le := Nat.zero_le count
  inside := Nat.div_lt_self h Nat.one_lt_two
  high_le := Nat.le_refl count
  below := Or.inl rfl
  above := Or.inl rfl

theorem Bracket.left (h : Bracket hash query count entry high low) (hlt : query < hash entry) :
    Bracket hash query count ((entry + low) / 2) entry low := by
  have hm := h.middle
  have hle := h.le
  have hin := h.inside
  exact ⟨rfl, by omega, by omega, by omega, h.below, Or.inr hlt⟩

theorem Bracket.right (h : Bracket hash query count entry high low) (hgt : hash entry < query) :
    Bracket hash query count ((high + entry) / 2) high entry := by
  have hm := h.middle
  have hle := h.le
  have hin := h.inside
  have hhigh := h.high_le
  exact ⟨rfl, by omega, by omega, by omega, Or.inr hgt, h.above⟩

theorem halve_isSome (h : Bracket hash query count entry high low) (hfuel : high - low < fuel) :
    (halve hash query fuel entry high low).isSome := by
  induction fuel generalizing entry high low with
  | zero => omega
  | succ fuel ih =>
    have hm := h.middle
    have hle := h.le
    rw [halve]
    split
    · rfl
    · rename_i hne
      split
      · rename_i hlt
        split
        · rfl
        · exact ih (h.left hlt) (by omega)
      · rename_i hnot
        split
        · rfl
        · exact ih (h.right (by omega)) (by omega)

theorem halveReads_lt (h : Bracket hash query count entry high low) :
    ∀ i ∈ halveReads hash query fuel entry high low, i < count := by
  induction fuel generalizing entry high low with
  | zero =>
    intro i hi
    cases hi
  | succ fuel ih =>
    intro i hi
    rw [halveReads] at hi
    obtain rfl | hi := List.mem_cons.mp hi
    · exact h.inside
    · split at hi
      · cases hi
      · split at hi
        · rename_i hlt
          split at hi
          · cases hi
          · exact ih (h.left hlt) i hi
        · split at hi
          · cases hi
          · exact ih (h.right (by omega)) i hi

theorem halve_found {i : ℕ} (h : Bracket hash query count entry high low)
    (hfound : halve hash query fuel entry high low = some (some i)) :
    i < count ∧ hash i = query := by
  induction fuel generalizing entry high low with
  | zero => cases hfound
  | succ fuel ih =>
    rw [halve] at hfound
    split at hfound
    · rename_i heq
      cases hfound
      exact ⟨h.inside, heq.symm⟩
    · split at hfound
      · rename_i hlt
        split at hfound
        · cases hfound
        · exact ih (h.left hlt) hfound
      · split at hfound
        · cases hfound
        · exact ih (h.right (by omega)) hfound

theorem halve_none (hsorted : ∀ i j, i ≤ j → j < count → hash i ≤ hash j)
    (h : Bracket hash query count entry high low)
    (hnone : halve hash query fuel entry high low = some none) :
    ∀ i < count, hash i ≠ query := by
  induction fuel generalizing entry high low with
  | zero => cases hnone
  | succ fuel ih =>
    have hm := h.middle
    have hle := h.le
    have hin := h.inside
    rw [halve] at hnone
    split at hnone
    · cases hnone
    · rename_i hne
      split at hnone
      · rename_i hlt
        split at hnone
        · rename_i hend
          -- the interval is empty, which only happens in front of the first entry
          intro i hi heq
          have hlow : low = entry := by omega
          obtain hzero | hbelow := h.below
          · have := hsorted entry i (by omega) hi
            omega
          · rw [hlow] at hbelow
            omega
        · exact ih (h.left hlt) hnone
      · split at hnone
        · rename_i hend
          intro i hi heq
          have hgt : entry < i := by
            apply Nat.lt_of_not_le
            intro hle'
            have := hsorted i entry (by omega) hin
            omega
          obtain hcount | habove := h.above
          · omega
          · have hhi : high ≤ i := by omega
            have := hsorted high i hhi hi
            omega
        · exact ih (h.right (by omega)) hnone

end Unbounded

section Counters

variable (hashAt : BitVec 32 → BitVec 32) (hash : BitVec 32)

def search : ℕ → BitVec 32 → BitVec 32 → BitVec 32 → Option (Option (BitVec 32))
  | 0, _, _, _ => none
  | fuel + 1, entry, high_iter, low_iter =>
    let current_hash := hashAt entry
    if hash = current_hash then
      some (some entry)
    else
      let result := if hash < current_hash then low_iter else entry
      let i := if hash < current_hash then high_iter else low_iter
      let high_iter := if hash < current_hash then entry else high_iter
      if i = entry then some none
      else search fuel ((high_iter + result) / 2) high_iter result

def searchReads : ℕ → BitVec 32 → BitVec 32 → BitVec 32 → List (BitVec 32)
  | 0, _, _, _ => []
  | fuel + 1, entry, high_iter, low_iter =>
    let current_hash := hashAt entry
    entry ::
      if hash = current_hash then []
      else
        let result := if hash < current_hash then low_iter else entry
        let i := if hash < current_hash then high_iter else low_iter
        let high_iter := if hash < current_hash then entry else high_iter
        if i = entry then []
        else searchReads fuel ((high_iter + result) / 2) high_iter result

def hashes (i : ℕ) : ℕ := (hashAt (BitVec.ofNat 32 i)).toNat

variable {hashAt hash} {count : ℕ} {entry high_iter low_iter : BitVec 32} {fuel : ℕ}

theorem half_sum {a b : BitVec 32} (h : a.toNat + b.toNat < 2 ^ 32) :
    ((a + b) / 2).toNat = (a.toNat + b.toNat) / 2 := by
  have htwo : (2 : BitVec 32).toNat = 2 := rfl
  rw [BitVec.toNat_udiv, BitVec.toNat_add, htwo, Nat.mod_eq_of_lt h]

theorem hashes_toNat (i : BitVec 32) : hashes hashAt i.toNat = (hashAt i).toNat := by
  rw [hashes, BitVec.ofNat_toNat, BitVec.setWidth_eq]

theorem search_eq (hcount : count ≤ 2 ^ 31)
    (h : Bracket (hashes hashAt) hash.toNat count entry.toNat high_iter.toNat low_iter.toNat) :
    (search hashAt hash fuel entry high_iter low_iter).map (·.map BitVec.toNat) =
        halve (hashes hashAt) hash.toNat fuel entry.toNat high_iter.toNat low_iter.toNat ∧
      (searchReads hashAt hash fuel entry high_iter low_iter).map BitVec.toNat =
        halveReads (hashes hashAt) hash.toNat fuel entry.toNat high_iter.toNat low_iter.toNat := by
  induction fuel generalizing entry high_iter low_iter with
  | zero => exact ⟨rfl, rfl⟩
  | succ fuel ih =>
    have hin := h.inside
    have hhigh := h.high_le
    have hle := h.le
    rw [search, searchReads, halve, halveReads, hashes_toNat]
    by_cases heq : hash = hashAt entry
    · have heq' : hash.toNat = (hashAt entry).toNat := congrArg BitVec.toNat heq
      rw [if_pos heq, if_pos heq, if_pos heq', if_pos heq']
      exact ⟨rfl, rfl⟩
    · have hne : ¬hash.toNat = (hashAt entry).toNat := fun h => heq (BitVec.eq_of_toNat_eq h)
      rw [if_neg heq, if_neg heq, if_neg hne, if_neg hne]
      by_cases hlt : hash.toNat < (hashAt entry).toNat
      · have hlt' : hash < hashAt entry := BitVec.lt_def.mpr hlt
        simp only [if_pos hlt, if_pos hlt']
        by_cases hend : high_iter = entry
        · have hend' : high_iter.toNat = entry.toNat := congrArg BitVec.toNat hend
          rw [if_pos hend, if_pos hend, if_pos hend', if_pos hend']
          exact ⟨rfl, rfl⟩
        · have hend' : ¬high_iter.toNat = entry.toNat := fun h => hend (BitVec.eq_of_toNat_eq h)
          rw [if_neg hend, if_neg hend, if_neg hend', if_neg hend']
          have hm := h.middle
          have hhalf : ((entry + low_iter) / 2).toNat = (entry.toNat + low_iter.toNat) / 2 :=
            half_sum (by omega)
          have hleft := h.left (by rw [hashes_toNat]; exact hlt)
          rw [← hhalf] at hleft ⊢
          obtain ⟨hsearch, hreads⟩ := ih hleft
          exact ⟨hsearch, by rw [List.map_cons, hreads]⟩
      · have hlt' : ¬hash < hashAt entry := fun h => hlt (BitVec.lt_def.mp h)
        simp only [if_neg hlt, if_neg hlt']
        by_cases hend : low_iter = entry
        · have hend' : low_iter.toNat = entry.toNat := congrArg BitVec.toNat hend
          rw [if_pos hend, if_pos hend, if_pos hend', if_pos hend']
          exact ⟨rfl, rfl⟩
        · have hend' : ¬low_iter.toNat = entry.toNat := fun h => hend (BitVec.eq_of_toNat_eq h)
          rw [if_neg hend, if_neg hend, if_neg hend', if_neg hend']
          have hhalf : ((high_iter + entry) / 2).toNat = (high_iter.toNat + entry.toNat) / 2 :=
            half_sum (by omega)
          have hright := h.right (by rw [hashes_toNat]; omega)
          rw [← hhalf] at hright ⊢
          obtain ⟨hsearch, hreads⟩ := ih hright
          exact ⟨hsearch, by rw [List.map_cons, hreads]⟩

theorem search_mono {fuel' : ℕ} {r : Option (BitVec 32)} (hle : fuel ≤ fuel')
    (h : search hashAt hash fuel entry high_iter low_iter = some r) :
    search hashAt hash fuel' entry high_iter low_iter = some r := by
  induction fuel generalizing fuel' entry high_iter low_iter with
  | zero => cases h
  | succ fuel ih =>
    obtain ⟨fuel', rfl⟩ := Nat.exists_eq_add_of_lt hle
    rw [search] at h ⊢
    by_cases heq : hash = hashAt entry
    · rw [if_pos heq] at h ⊢
      exact h
    · rw [if_neg heq] at h ⊢
      by_cases hlt : hash < hashAt entry
      · simp only [if_pos hlt] at h ⊢
        by_cases hend : high_iter = entry
        · rw [if_pos hend] at h ⊢
          exact h
        · rw [if_neg hend] at h ⊢
          exact ih (by omega) h
      · simp only [if_neg hlt] at h ⊢
        by_cases hend : low_iter = entry
        · rw [if_pos hend] at h ⊢
          exact h
        · rw [if_neg hend] at h ⊢
          exact ih (by omega) h

section Start

variable {count : BitVec 32} (hpos : 0 < count.toNat) (hcount : count.toNat ≤ 2 ^ 31)
include hpos

omit hcount in
theorem search_bracket : Bracket (hashes hashAt) hash.toNat count.toNat (count / 2).toNat
    count.toNat (0 : BitVec 32).toNat := by
  have htwo : (2 : BitVec 32).toNat = 2 := rfl
  rw [BitVec.toNat_udiv, htwo]
  exact Bracket.start hpos

include hcount

theorem search_isSome (hfuel : count.toNat < fuel) :
    (search hashAt hash fuel (count / 2) count 0).isSome := by
  have hsome : (halve (hashes hashAt) hash.toNat fuel (count / 2).toNat count.toNat
      (0 : BitVec 32).toNat).isSome :=
    halve_isSome (search_bracket hpos) (by omega)
  rw [← (search_eq hcount (search_bracket hpos)).1, Option.isSome_map] at hsome
  exact hsome

theorem searchReads_lt : ∀ i ∈ searchReads hashAt hash fuel (count / 2) count 0, i < count := by
  intro i hi
  have hmem := List.mem_map_of_mem (f := BitVec.toNat) hi
  rw [(search_eq hcount (search_bracket hpos)).2] at hmem
  exact BitVec.lt_def.mpr (halveReads_lt (search_bracket hpos) _ hmem)

theorem search_found {i : BitVec 32}
    (h : search hashAt hash fuel (count / 2) count 0 = some (some i)) :
    i < count ∧ hashAt i = hash := by
  have heq : (search hashAt hash fuel (count / 2) count 0).map (·.map BitVec.toNat) = _ :=
    (search_eq hcount (search_bracket hpos)).1
  rw [h] at heq
  obtain ⟨hlt, hhash⟩ := halve_found (search_bracket hpos) heq.symm
  rw [hashes_toNat] at hhash
  exact ⟨BitVec.lt_def.mpr hlt, BitVec.eq_of_toNat_eq hhash⟩

theorem search_none (hsorted : ∀ i j, i ≤ j → j < count → hashAt i ≤ hashAt j)
    (h : search hashAt hash fuel (count / 2) count 0 = some none) :
    ∀ i < count, hashAt i ≠ hash := by
  have heq : (search hashAt hash fuel (count / 2) count 0).map (·.map BitVec.toNat) = _ :=
    (search_eq hcount (search_bracket hpos)).1
  rw [h] at heq
  have hlt := count.isLt
  have hnat : ∀ i j, i ≤ j → j < count.toNat → hashes hashAt i ≤ hashes hashAt j := by
    intro i j hij hj
    apply BitVec.le_def.mp
    apply hsorted
    · rw [BitVec.le_def, BitVec.toNat_ofNat, BitVec.toNat_ofNat]
      omega
    · rw [BitVec.lt_def, BitVec.toNat_ofNat]
      omega
  intro i hi hhash
  apply halve_none hnat (search_bracket hpos) heq.symm i.toNat (BitVec.lt_def.mp hi)
  rw [hashes_toNat, hhash]

end Start

theorem search_overflow {count : BitVec 32} (hcount : 2 ^ 31 < count.toNat)
    (habove : ∀ i, hashAt i < hash) (hlow : low_iter.toNat + 2 ≤ count.toNat)
    (fuel : ℕ) : search hashAt hash fuel ((count + low_iter) / 2) count low_iter = none := by
  induction fuel generalizing low_iter with
  | zero => rfl
  | succ fuel ih =>
    have hlt := habove ((count + low_iter) / 2)
    have hne : hash ≠ hashAt ((count + low_iter) / 2) := fun he => by
      rw [← he] at hlt
      exact absurd hlt (BitVec.lt_irrefl _)
    have hnot : ¬hash < hashAt ((count + low_iter) / 2) := fun h =>
      absurd (BitVec.lt_def.mp h) (Nat.lt_asymm (BitVec.lt_def.mp hlt))
    have htwo : (2 : BitVec 32).toNat = 2 := rfl
    have hentry : ((count + low_iter) / 2).toNat = (count.toNat + low_iter.toNat) % 2 ^ 32 / 2 := by
      rw [BitVec.toNat_udiv, BitVec.toNat_add, htwo]
    have hend : low_iter ≠ (count + low_iter) / 2 := fun he => by
      have := congrArg BitVec.toNat he
      omega
    rw [search, if_neg hne]
    simp only [if_neg hnot, if_neg hend]
    exact ih (by omega)

end Counters

end Awn.Sorted
