import Awn.Byaml.Lookup

/-! `VerifyStringTable`, and the search in the tables that it accepts. -/

namespace Awn.Byaml

open Memory
open Sarc (read32 native32)

section Strings

variable {m : Bytes}

theorem stringFrom_length_le (fuel a k : ℕ) (h : m (a + k) = 0) :
    (stringFrom m fuel a).length ≤ k := by
  induction fuel generalizing a k with
  | zero => exact Nat.zero_le k
  | succ fuel ih =>
    rw [stringFrom]
    split
    · exact Nat.zero_le k
    · rename_i hne
      cases k with
      | zero => exact absurd h hne
      | succ k =>
        rw [List.length_cons]
        apply Nat.succ_le_succ
        apply ih
        rw [Nat.add_assoc, Nat.add_comm 1 k]
        exact h

theorem stringFrom_length_fuel (fuel a : ℕ) : (stringFrom m fuel a).length ≤ fuel := by
  induction fuel generalizing a with
  | zero => exact Nat.le_refl 0
  | succ fuel ih =>
    rw [stringFrom]
    split
    · exact Nat.zero_le _
    · exact Nat.succ_le_succ (ih _)

theorem cstring_length_lt {table : BitVec 64} {start stop : BitVec 32} (hlt : start < stop)
    (hzero : read8 m (table + stop.setWidth 64 - 1) = 0) :
    start.toNat + (cstring m (table + start.setWidth 64)).1.length + 1 ≤ stop.toNat := by
  have htable := table.isLt
  have hstart := start.isLt
  have hstop := stop.isLt
  have hone : (1 : BitVec 64).toNat = 1 := rfl
  rw [BitVec.lt_def] at hlt
  have ha : (table + start.setWidth 64).toNat = (table.toNat + start.toNat) % 2 ^ 64 := by
    rw [BitVec.toNat_add, BitVec.toNat_setWidth]
    omega
  have hb : (table + stop.setWidth 64 - 1).toNat = (table.toNat + stop.toNat - 1) % 2 ^ 64 := by
    rw [BitVec.toNat_sub, BitVec.toNat_add, BitVec.toNat_setWidth, hone]
    omega
  rw [read8, hb] at hzero
  have hlength : (cstring m (table + start.setWidth 64)).1.length ≤
      2 ^ 64 - (table.toNat + start.toNat) % 2 ^ 64 := by
    rw [cstring, ← ha]
    exact stringFrom_length_fuel _ _
  by_cases hwrap : table.toNat + start.toNat < 2 ^ 64 ∧ 2 ^ 64 ≤ table.toNat + stop.toNat - 1
  · -- the memory ends in front of the zero
    omega
  · have hdist : (table.toNat + start.toNat) % 2 ^ 64 + (stop.toNat - 1 - start.toNat) =
        (table.toNat + stop.toNat - 1) % 2 ^ 64 := by omega
    rw [← hdist, ← ha] at hzero
    have hle : (cstring m (table + start.setWidth 64)).1.length ≤ stop.toNat - 1 - start.toNat :=
      stringFrom_length_le _ _ _ hzero
    omega

end Strings

section Table

variable (m : Bytes) (strcmp : CString → CString → BitVec 32) (table : BitVec 64)
  (is_reverse_endian : Bool)

def stringCount : BitVec 32 := GetCount m is_reverse_endian table

def tableString (index : BitVec 32) : CString :=
  cstring m (table + (stringOffset m is_reverse_endian table index).setWidth 64)

structure Sound : Prop where
  ascending : ∀ i j : BitVec 32, i < j → j < stringCount m table is_reverse_endian →
    (tableString m table is_reverse_endian i).codes < (tableString m table is_reverse_endian j).codes
  inside : ∀ i < stringCount m table is_reverse_endian,
    (stringOffset m is_reverse_endian table i).toNat +
      (tableString m table is_reverse_endian i).1.length + 1 ≤
        (finalOffset m is_reverse_endian table).toNat

structure NoDescent : Prop where
  ordered : ∀ i, i + 1 < stringCount m table is_reverse_endian → i < i + 1 →
    ¬(tableString m table is_reverse_endian (i + 1)).codes <
      (tableString m table is_reverse_endian i).codes
  last : stringOffset m is_reverse_endian table (stringCount m table is_reverse_endian - 1) ≠
    finalOffset m is_reverse_endian table

structure Checked (i : BitVec 32) : Prop where
  terminated : read8 m (table + (stringOffset m is_reverse_endian table (i + 1)).setWidth 64 - 1) = 0
  le : stringOffset m is_reverse_endian table i ≤ stringOffset m is_reverse_endian table (i + 1)
  differs : i ≠ stringCount m table is_reverse_endian - 1 →
    strcmp (tableString m table is_reverse_endian i) (tableString m table is_reverse_endian (i + 1)) ≠ 0

variable {m strcmp table is_reverse_endian}

theorem widen_succ {i : BitVec 32} (hi : i.toNat + 1 < 2 ^ 32) :
    (i + 1).setWidth 64 = i.setWidth 64 + 1 := widen_add hi

theorem next_offset {i : BitVec 32} (hi : i.toNat + 1 < 2 ^ 32) :
    native32 is_reverse_endian (read32 m (table + 0x4 + 0x4 * i.setWidth 64 + 0x4)) =
      stringOffset m is_reverse_endian table (i + 1) := by
  have hmul : (0x4 : BitVec 64) * 1 = 0x4 := rfl
  rw [stringOffset, widen_succ hi, BitVec.mul_add, hmul,
    BitVec.add_assoc _ (0x4 * i.setWidth 64)]

theorem finalOffset_eq : finalOffset m is_reverse_endian table =
    stringOffset m is_reverse_endian table (stringCount m table is_reverse_endian) := by
  have hcount := GetCount_lt m is_reverse_endian table
  have hmul : (0x4 : BitVec 64) * 1 = 0x4 := rfl
  rw [finalOffset, stringOffset, stringCount, widen_succ (by omega), BitVec.mul_add, hmul,
    BitVec.add_assoc, BitVec.add_comm (0x4 : BitVec 64)]

theorem verifyStrings_checked {turns : ℕ} {i : BitVec 32}
    (hturns : i.toNat + turns = (stringCount m table is_reverse_endian).toNat)
    (h : verifyStrings m strcmp is_reverse_endian table (stringCount m table is_reverse_endian) turns i =
      true) :
    ∀ j : BitVec 32, i ≤ j → j < stringCount m table is_reverse_endian →
      Checked m strcmp table is_reverse_endian j := by
  have hcount := GetCount_lt m is_reverse_endian table
  have hone : (1 : BitVec 32).toNat = 1 := rfl
  induction turns generalizing i with
  | zero =>
    intro j hij hj
    rw [BitVec.le_def] at hij
    rw [BitVec.lt_def] at hj
    omega
  | succ turns ih =>
    have hsmall : i.toNat + 1 < 2 ^ 32 := by
      rw [stringCount] at hturns
      omega
    rw [verifyStrings, next_offset hsmall] at h
    dsimp only at h
    split at h
    · cases h
    · rename_i hterminated
      split at h
      · cases h
      · rename_i hle
        have hself : ∀ hdiffers, Checked m strcmp table is_reverse_endian i :=
          fun hdiffers => ⟨not_not.mp hterminated, BitVec.not_lt.mp hle, hdiffers⟩
        intro j hij hj
        have hnext : (i + 1).toNat = i.toNat + 1 := by
          rw [BitVec.toNat_add, hone]
          omega
        split at h
        · rename_i hlast
          have hji : j = i := by
            apply BitVec.eq_of_toNat_eq
            have := congrArg BitVec.toNat hlast
            rw [BitVec.toNat_sub, hone] at this
            rw [BitVec.le_def] at hij
            rw [BitVec.lt_def] at hj
            rw [stringCount] at *
            omega
          rw [hji]
          exact hself fun hne => absurd hlast hne
        · split at h
          · cases h
          · rename_i hsort
            by_cases hji : j = i
            · rw [hji]
              apply hself
              intro _ hz
              apply hsort
              change strcmp (tableString m table is_reverse_endian i)
                (tableString m table is_reverse_endian (i + 1)) < 1
              rw [hz]
              decide
            · apply ih _ h j _ hj
              · omega
              · rw [BitVec.le_def] at hij ⊢
                have hne : j.toNat ≠ i.toNat := fun he => hji (BitVec.eq_of_toNat_eq he)
                omega

theorem VerifyStringTable_checked (h : VerifyStringTable m strcmp table is_reverse_endian = true) :
    containerDataType m table = .KeyTable ∧ stringCount m table is_reverse_endian ≠ 0 ∧
      ∀ i < stringCount m table is_reverse_endian, Checked m strcmp table is_reverse_endian i := by
  rw [VerifyStringTable] at h
  split at h
  · cases h
  · rename_i htype
    split at h
    · cases h
    · rename_i hzero
      refine ⟨not_not.mp htype, hzero, fun i hi => ?_⟩
      have hnull : (0 : BitVec 32).toNat = 0 := rfl
      apply verifyStrings_checked (i := 0) _ h i _ hi
      · rw [hnull, Nat.zero_add]
        rfl
      · rw [BitVec.le_def, hnull]
        exact Nat.zero_le _

theorem count_pred (hcount : stringCount m table is_reverse_endian ≠ 0) :
    (stringCount m table is_reverse_endian - 1).toNat + 1 =
      (stringCount m table is_reverse_endian).toNat := by
  have hone : (1 : BitVec 32).toNat = 1 := rfl
  have hpos : (stringCount m table is_reverse_endian).toNat ≠ 0 :=
    fun hz => hcount (BitVec.eq_of_toNat_eq hz)
  have hlt := (stringCount m table is_reverse_endian).isLt
  rw [BitVec.toNat_sub, hone]
  omega

section Accepted

variable (hchecked : ∀ i < stringCount m table is_reverse_endian,
  Checked m strcmp table is_reverse_endian i)
include hchecked

theorem offset_le {i j : BitVec 32} (hij : i ≤ j) (hj : j ≤ stringCount m table is_reverse_endian) :
    stringOffset m is_reverse_endian table i ≤ stringOffset m is_reverse_endian table j := by
  have hcount : (stringCount m table is_reverse_endian).toNat < 2 ^ 24 := GetCount_lt _ _ _
  rw [BitVec.le_def] at hij hj
  obtain ⟨d, hd⟩ := Nat.exists_eq_add_of_le hij
  induction d generalizing i with
  | zero =>
    rw [BitVec.eq_of_toNat_eq hd]
    exact BitVec.le_refl _
  | succ d ih =>
    have hnext := Sorted.succ_toNat (i := i) (by omega)
    have hstep := (hchecked i (BitVec.lt_def.mpr (by omega))).le
    exact BitVec.le_trans hstep (ih (by omega) (by omega))

variable (hc : Conforming strcmp) (hordered : NoDescent m table is_reverse_endian)
include hc hordered

theorem ascends_next {i : BitVec 32} (hi : i.toNat + 1 < (stringCount m table is_reverse_endian).toNat) :
    (tableString m table is_reverse_endian i).codes <
      (tableString m table is_reverse_endian (i + 1)).codes := by
  have hcount : (stringCount m table is_reverse_endian).toNat < 2 ^ 24 := GetCount_lt _ _ _
  have hnext := Sorted.succ_toNat (i := i) (by omega)
  have hnot := hordered.ordered i (BitVec.lt_def.mpr (by omega)) (BitVec.lt_def.mpr (by omega))
  refine lt_of_le_of_ne (not_lt.mp hnot) ?_
  intro heq
  have hne : i ≠ stringCount m table is_reverse_endian - 1 := by
    rintro rfl
    have hsome : stringCount m table is_reverse_endian ≠ 0 := by
      rintro hz
      rw [hz] at hi
      exact absurd hi (Nat.not_lt_zero _)
    have hpred := count_pred hsome
    omega
  apply (hchecked i (BitVec.lt_def.mpr (by omega))).differs hne
  exact (hc.zero _ _).mpr (CString.codes_injective heq)

theorem ascends {i j : BitVec 32} (hij : i < j) (hj : j < stringCount m table is_reverse_endian) :
    (tableString m table is_reverse_endian i).codes <
      (tableString m table is_reverse_endian j).codes := by
  have hcount : (stringCount m table is_reverse_endian).toNat < 2 ^ 24 := GetCount_lt _ _ _
  rw [BitVec.lt_def] at hij hj
  obtain ⟨d, hd⟩ := Nat.exists_eq_add_of_lt hij
  induction d generalizing i with
  | zero =>
    have hnext := Sorted.succ_toNat (i := i) (by omega)
    have hj' : i + 1 = j := BitVec.eq_of_toNat_eq (by omega)
    rw [← hj']
    exact ascends_next hchecked hc hordered (by omega)
  | succ d ih =>
    have hnext := Sorted.succ_toNat (i := i) (by omega)
    exact lt_trans (ascends_next hchecked hc hordered (by omega)) (ih (by omega) (by omega))

theorem offset_lt {i : BitVec 32} (hi : i < stringCount m table is_reverse_endian) :
    stringOffset m is_reverse_endian table i < stringOffset m is_reverse_endian table (i + 1) := by
  have hcount : (stringCount m table is_reverse_endian).toNat < 2 ^ 24 := GetCount_lt _ _ _
  have hle := (hchecked i hi).le
  rw [BitVec.lt_def] at hi
  have hnext := Sorted.succ_toNat (i := i) (by omega)
  suffices hne : stringOffset m is_reverse_endian table i ≠
      stringOffset m is_reverse_endian table (i + 1) by
    rw [BitVec.le_def] at hle
    rw [BitVec.lt_def]
    have : (stringOffset m is_reverse_endian table i).toNat ≠
        (stringOffset m is_reverse_endian table (i + 1)).toNat :=
      fun heq => hne (BitVec.eq_of_toNat_eq heq)
    omega
  intro heq
  by_cases hlast : i.toNat + 1 = (stringCount m table is_reverse_endian).toNat
  · have hend : i + 1 = stringCount m table is_reverse_endian := BitVec.eq_of_toNat_eq (by omega)
    apply hordered.last
    rw [finalOffset_eq, ← hend, BitVec.add_sub_cancel]
    exact heq
  · have hlt := ascends_next hchecked hc hordered (i := i) (by omega)
    rw [tableString, tableString, heq] at hlt
    exact lt_irrefl _ hlt

theorem sound_of_noDescent : Sound m table is_reverse_endian where
  ascending _ _ := ascends hchecked hc hordered
  inside i hi := by
    have hcount : (stringCount m table is_reverse_endian).toNat < 2 ^ 24 := GetCount_lt _ _ _
    have hterminated := cstring_length_lt (offset_lt hchecked hc hordered hi)
      (hchecked i hi).terminated
    rw [BitVec.lt_def] at hi
    have hnext := Sorted.succ_toNat (i := i) (by omega)
    have hle := offset_le hchecked (i := i + 1) (j := stringCount m table is_reverse_endian)
      (BitVec.le_def.mpr (by omega)) (BitVec.le_refl _)
    rw [BitVec.le_def] at hle
    rw [finalOffset_eq]
    exact Nat.le_trans hterminated hle

end Accepted

theorem Sound.noDescent (hcount : stringCount m table is_reverse_endian ≠ 0)
    (h : Sound m table is_reverse_endian) : NoDescent m table is_reverse_endian where
  ordered i hi hlt := lt_asymm (h.ascending i (i + 1) hlt hi)
  last heq := by
    have hpred := count_pred hcount
    have hin := h.inside (stringCount m table is_reverse_endian - 1) (BitVec.lt_def.mpr (by omega))
    rw [heq] at hin
    omega

theorem sound_iff (hc : Conforming strcmp)
    (h : VerifyStringTable m strcmp table is_reverse_endian = true) :
    Sound m table is_reverse_endian ↔ NoDescent m table is_reverse_endian := by
  obtain ⟨-, hcount, hchecked⟩ := VerifyStringTable_checked h
  exact ⟨Sound.noDescent hcount, sound_of_noDescent hchecked hc⟩

end Table

section Search

variable (m : Bytes) (strcmp : CString → CString → BitVec 32)

def KeysFound (byaml : BitVec 64) : Prop :=
  ∃ enough, ∀ fuel ≥ enough, ∀ it : ByamlIterator, it.m_byaml = byaml → ∀ out_key_index key,
    (∀ i < stringCount m (it.keyContainer m) (it.rev m),
        tableString m (it.keyContainer m) (it.rev m) i = key →
          it.TryGetKeyIndexByKey m strcmp fuel out_key_index key = some (true, i)) ∧
      ((∀ i < stringCount m (it.keyContainer m) (it.rev m),
          tableString m (it.keyContainer m) (it.rev m) i ≠ key) →
        it.TryGetKeyIndexByKey m strcmp fuel out_key_index key = some (false, out_key_index))

variable {m strcmp}

theorem keysFound (hc : Conforming strcmp) {byaml : BitVec 64}
    (htype : containerDataType m (byaml + (keyTableOffset m byaml).setWidth 64) = .KeyTable)
    (hsound : Sound m (byaml + (keyTableOffset m byaml).setWidth 64) (IsReverseEndian m byaml)) :
    KeysFound m strcmp byaml := by
  refine ⟨2 ^ 24 + 1, ?_⟩
  intro fuel hfuel it hit out_key_index key
  subst hit
  have hcount : (stringCount m (it.keyContainer m) (it.rev m)).toNat < 2 ^ 24 := GetCount_lt _ _ _
  have hpool : keyPoolOffset m (it.rev m) (it.keyContainer m) = 0 := by
    rw [keyPoolOffset, if_neg]
    intro hrelocated
    change containerDataType m (it.keyContainer m) = .KeyTable at htype
    rw [htype] at hrelocated
    revert hrelocated
    decide
  let compare : BitVec 32 → Ordering := fun i =>
    side (strcmp key (cstring m (GetStringByIndex m (it.rev m) (it.keyContainer m) i 0)))
  have hcompare : ∀ i, compare i =
      Sorted.standing key.codes (tableString m (it.keyContainer m) (it.rev m) i).codes := by
    intro i
    change side _ = _
    have hzero : it.keyContainer m + 0 = it.keyContainer m := BitVec.add_zero _
    rw [side_strcmp hc, GetStringByIndex, hzero]
    rfl
  have hascends : Sorted.Ascends compare (stringCount m (it.keyContainer m) (it.rev m)).toNat :=
    Sorted.ascends_standing key.codes (fun i _ => hcompare i)
      fun i j hij hj => hsound.ascending i j hij (BitVec.lt_def.mpr hj)
  have hsearch : it.TryGetKeyIndexByKey m strcmp fuel out_key_index key =
      some ((Sorted.linearSearch compare
        (stringCount m (it.keyContainer m) (it.rev m)).toNat).elim (false, out_key_index)
          fun index => if index = cInvalidKeyIndex then (false, out_key_index)
            else (true, index)) := by
    rw [ByamlIterator.TryGetKeyIndexByKey, TryFindKeyIndexByKey, hpool]
    change Option.map _ (Option.map _ (Sorted.bisect compare fuel 0
      (stringCount m (it.keyContainer m) (it.rev m)))) = _
    rw [Sorted.bisect_eq_linearSearch hascends (by omega) (by omega)]
    cases Sorted.linearSearch compare (stringCount m (it.keyContainer m) (it.rev m)).toNat with
    | none => rfl
    | some index => rfl
  constructor
  · intro i hi hkey
    rw [BitVec.lt_def] at hi
    have heq : compare i = .eq := by
      rw [hcompare, Sorted.standing_eq_iff, hkey]
    rw [hsearch, Sorted.linearSearch_eq_some hascends (by omega) hi heq]
    have hne : i ≠ cInvalidKeyIndex := by
      rintro rfl
      have hinvalid : cInvalidKeyIndex.toNat = 0xffffffff := rfl
      omega
    rw [Option.elim_some, if_neg hne]
  · intro habsent
    rw [hsearch, Sorted.linearSearch_eq_none, Option.elim_none]
    · intro i hi heq
      rw [hcompare, Sorted.standing_eq_iff] at heq
      exact habsent i (BitVec.lt_def.mpr hi) (CString.codes_injective heq).symm
    · omega

end Search

theorem keyTable_verified {m : Bytes} {strcmp : CString → CString → BitVec 32} {byaml : BitVec 64}
    (h : IsValid m strcmp byaml = true) (hkeys : keyTableOffset m byaml ≠ 0) :
    VerifyStringTable m strcmp (byaml + (keyTableOffset m byaml).setWidth 64)
      (IsReverseEndian m byaml) = true := by
  by_contra hfalse
  rw [Bool.not_eq_true] at hfalse
  rw [IsValid] at h
  split at h
  · cases h
  · rw [if_pos ⟨hkeys, hfalse⟩] at h
    cases h

/-- A table that is accepted ascends and stays inside its bounds, and every key of a document that
is accepted is found in it, just if no string is greater than the one behind it and the last one is
not missing. -/
theorem accepted_iff {strcmp : CString → CString → BitVec 32} (hc : Conforming strcmp) (m : Bytes) :
    (∀ table is_reverse_endian, VerifyStringTable m strcmp table is_reverse_endian = true →
      (Sound m table is_reverse_endian ↔ NoDescent m table is_reverse_endian)) ∧
    ∀ byaml, IsValid m strcmp byaml = true → keyTableOffset m byaml ≠ 0 →
      (Sound m (byaml + (keyTableOffset m byaml).setWidth 64) (IsReverseEndian m byaml) ∧
          KeysFound m strcmp byaml ↔
        NoDescent m (byaml + (keyTableOffset m byaml).setWidth 64) (IsReverseEndian m byaml)) := by
  refine ⟨fun table is_reverse_endian h => sound_iff hc h, ?_⟩
  intro byaml hvalid hkeys
  have hverified := keyTable_verified hvalid hkeys
  rw [← sound_iff hc hverified]
  constructor
  · exact fun h => h.1
  · exact fun hsound => ⟨hsound, keysFound hc (VerifyStringTable_checked hverified).1 hsound⟩

theorem accepted_iff_twoKeys :
    Sound (documentMemory twoKeys) 0x1010 false ↔ NoDescent (documentMemory twoKeys) 0x1010 false :=
  (accepted_iff byteDifference_conforming (documentMemory twoKeys)).1 0x1010 false
    (by decide +kernel)

def descendingKeys : List (BitVec 8) := twoKeys.set 32 0x62 |>.set 34 0x61

theorem descendingKeys_accepted : ¬∀ (strcmp : CString → CString → BitVec 32), Conforming strcmp →
    ∀ m : Bytes,
      (∀ table is_reverse_endian, VerifyStringTable m strcmp table is_reverse_endian = true →
        Sound m table is_reverse_endian) ∧
      ∀ byaml, IsValid m strcmp byaml = true → keyTableOffset m byaml ≠ 0 →
        KeysFound m strcmp byaml := by
  intro h
  obtain ⟨hsound, -⟩ := h _ byteDifference_conforming (documentMemory descendingKeys)
  have hlt := (hsound 0x1010 false (by decide +kernel)).ascending 0 1 (by decide) (by decide +kernel)
  have hb : (tableString (documentMemory descendingKeys) 0x1010 false 0).codes = [0x62] := by
    decide +kernel
  have ha : (tableString (documentMemory descendingKeys) 0x1010 false 1).codes = [0x61] := by
    decide +kernel
  rw [ha, hb, List.cons_lt_cons_iff] at hlt
  revert hlt
  decide

end Awn.Byaml
