import Awn.Sarc.Extractor

/-!
`vp::res::ResBffntCodeMap` and the chain of the code maps of a font file, in the memory that the
file is loaded to.
-/

namespace Awn.Bffnt

open Memory
open Sarc (read16 read32)

namespace ResBffntCodeMap

variable (m : Bytes) (code_map : BitVec 64)

def code_range_begin : BitVec 32 := read32 m (code_map + 0x8)

def code_range_end : BitVec 32 := read32 m (code_map + 0xc)

def map_method : BitVec 16 := read16 m (code_map + 0x10)

def next_code_map_offset : BitVec 32 := read32 m (code_map + 0x14)

def code_map_array (index : BitVec 64) : BitVec 64 := code_map + 0x18 + 2 * index

def entry_half_count : BitVec 16 := read16 m (code_map_array code_map 0)

def scanned (address : BitVec 64) : Option (BitVec 16) :=
  if code_map_array code_map 2 ≤ address ∧
      address.toNat + 2 ≤
        (code_map_array code_map 2).toNat + 4 * (entry_half_count m code_map).toNat
  then some (read16 m address)
  else none

/-- The loop inside: the start and the pair that the key is not behind. The outer `none` is out of
fuel or a read outside of the array, the inner one no such pair. -/
def findPair (key_code : BitVec 32) (end_iter : BitVec 64) :
    ℕ → BitVec 64 → Option (Option (BitVec 64 × BitVec 64))
  | 0, _ => none
  | fuel + 1, start_iter =>
    let offset := ((end_iter - start_iter) / 8).setWidth 32
    let next_index := if offset = 0xffffffff then 0 else offset
    let pair := start_iter + 2 * (next_index * 2).setWidth 64
    (scanned m code_map pair).bind fun key =>
      if key_code ≤ key.setWidth 32 then some (some (start_iter, pair))
      else
        let start_iter := pair + 4
        if end_iter < start_iter then some none else findPair key_code end_iter fuel start_iter

def scan (key_code : BitVec 32) : ℕ → BitVec 64 → BitVec 64 → Option (BitVec 16)
  | 0, _, _ => none
  | fuel + 1, start_iter, end_iter =>
    if start_iter ≤ end_iter then
      (findPair m code_map key_code end_iter (fuel + 1) start_iter).bind fun found =>
        match found with
        | none => some 0xffff
        | some (start_iter, pair) =>
          (scanned m code_map pair).bind fun key =>
            if key.setWidth 32 < key_code ∨ key.setWidth 32 = key_code then
              scanned m code_map (pair + 2)
            else scan key_code fuel start_iter (pair - 4)
    else some 0xffff

def MapCharacter (fuel : ℕ) (key_code : BitVec 32) : Option (BitVec 16) :=
  let index := key_code - code_range_begin m code_map
  if map_method m code_map = 0 then
    some (((read16 m (code_map_array code_map 0)).setWidth 32 + index).setWidth 16)
  else if map_method m code_map = 1 then
    some (read16 m (code_map_array code_map (index.setWidth 64)))
  else if map_method m code_map ≠ 2 then some 0xffff
  else
    scan m code_map key_code fuel (code_map_array code_map 2)
      (code_map_array code_map ((entry_half_count m code_map).setWidth 64 * 2))

section Scan

def entry (i : ℕ) : BitVec 64 := code_map_array code_map 2 + 4 * BitVec.ofNat 64 i

def entryCount : ℕ := (entry_half_count m code_map).toNat

def key (i : ℕ) : BitVec 32 := (read16 m (entry code_map i)).setWidth 32

def code (i : ℕ) : BitVec 16 := read16 m (entry code_map i + 2)

structure Scans : Prop where
  method : map_method m code_map = 2
  fits : code_map.toNat + 0x1c + 4 * entryCount m code_map < 2 ^ 64
  ascending : ∀ i j, i < j → j < entryCount m code_map → key m code_map i < key m code_map j

structure Answers (key_code : BitVec 32) (index : BitVec 16) : Prop where
  present : ∀ i < entryCount m code_map, key m code_map i = key_code → index = code m code_map i
  absent : (∀ i < entryCount m code_map, key m code_map i ≠ key_code) → index = 0xffff

variable {m code_map}

theorem Scans.start_toNat (h : Scans m code_map) :
    (code_map_array code_map 2).toNat = code_map.toNat + 0x1c := by
  have hfits := h.fits
  unfold code_map_array
  bv_omega

theorem Scans.entry_toNat (h : Scans m code_map) {i : ℕ} (hi : i ≤ entryCount m code_map) :
    (entry code_map i).toNat = code_map.toNat + 0x1c + 4 * i := by
  have hfits := h.fits
  have hstart := h.start_toNat
  unfold entry
  have hfour : (4 * BitVec.ofNat 64 i).toNat = 4 * i := by
    rw [BitVec.toNat_mul, BitVec.toNat_ofNat]
    change 4 * (i % 2 ^ 64) % 2 ^ 64 = 4 * i
    omega
  rw [BitVec.toNat_add, hfour]
  omega

theorem Scans.scanned_entry (h : Scans m code_map) {i : ℕ} (hi : i < entryCount m code_map) :
    scanned m code_map (entry code_map i) = some (read16 m (entry code_map i)) := by
  have hentry := h.entry_toNat (Nat.le_of_lt hi)
  have hstart := h.start_toNat
  unfold scanned
  rw [if_pos]
  rw [BitVec.le_def]
  unfold entryCount at hi
  omega

theorem Scans.scanned_code (h : Scans m code_map) {i : ℕ} (hi : i < entryCount m code_map) :
    scanned m code_map (entry code_map i + 2) = some (code m code_map i) := by
  have hentry := h.entry_toNat (Nat.le_of_lt hi)
  have hstart := h.start_toNat
  have hfits := h.fits
  have hcode : (entry code_map i + 2).toNat = code_map.toNat + 0x1c + 4 * i + 2 := by
    bv_omega
  unfold scanned
  rw [if_pos, code]
  rw [BitVec.le_def]
  unfold entryCount at hi
  omega

theorem Scans.last_toNat (h : Scans m code_map) {size : ℕ} (hsize : size ≤ entryCount m code_map) :
    (entry code_map size - 4).toNat = code_map.toNat + 0x18 + 4 * size := by
  have hentry := h.entry_toNat hsize
  have hfits := h.fits
  bv_omega

theorem Scans.entry_succ (h : Scans m code_map) {i : ℕ} (hi : i < entryCount m code_map) :
    entry code_map i + 4 = entry code_map (i + 1) := by
  have hentry := h.entry_toNat (Nat.le_of_lt hi)
  have hnext := h.entry_toNat (i := i + 1) hi
  have hfits := h.fits
  bv_omega

theorem Scans.middle (h : Scans m code_map) {i size : ℕ} (hi : i < size)
    (hsize : size ≤ entryCount m code_map) :
    let offset := ((entry code_map size - 4 - entry code_map i) / 8).setWidth 32
    entry code_map i + 2 * ((if offset = 0xffffffff then 0 else offset) * 2).setWidth 64 =
      entry code_map (i + (size - 1 - i) / 2) := by
  have hlast := h.last_toNat hsize
  have hentry := h.entry_toNat (i := i) (by omega)
  have hmiddle := h.entry_toNat (i := i + (size - 1 - i) / 2) (by omega)
  have hfits := h.fits
  have hcount : entryCount m code_map < 2 ^ 16 := (entry_half_count m code_map).isLt
  have hdiff : ((entry code_map size - 4 - entry code_map i) / 8).toNat = (size - 1 - i) / 2 := by
    have height : (8 : BitVec 64).toNat = 8 := rfl
    rw [BitVec.toNat_udiv, height]
    have hsub : (entry code_map size - 4 - entry code_map i).toNat = 4 * (size - 1 - i) := by
      bv_omega
    omega
  intro offset
  have hoffset : offset.toNat = (size - 1 - i) / 2 := by
    rw [BitVec.toNat_setWidth, hdiff]
    omega
  have hne : offset ≠ 0xffffffff := by
    intro heq
    rw [heq] at hoffset
    change 0xffffffff = (size - 1 - i) / 2 at hoffset
    omega
  rw [if_neg hne]
  apply BitVec.eq_of_toNat_eq
  have hdouble : ((offset * 2).setWidth 64).toNat = 2 * ((size - 1 - i) / 2) := by
    rw [BitVec.toNat_setWidth, BitVec.toNat_mul, hoffset]
    change (size - 1 - i) / 2 * 2 % 2 ^ 32 % 2 ^ 64 = 2 * ((size - 1 - i) / 2)
    omega
  rw [hmiddle, BitVec.toNat_add, BitVec.toNat_mul, hdouble, hentry]
  change (_ + 2 * (2 * ((size - 1 - i) / 2)) % 2 ^ 64) % 2 ^ 64 = _
  omega

variable {key_code : BitVec 32}

theorem Scans.findPair_spec (h : Scans m code_map) (fuel : ℕ) {i size : ℕ} (hi : i < size)
    (hsize : size ≤ entryCount m code_map) (hfuel : size - i ≤ fuel)
    (hbelow : ∀ j < i, key m code_map j < key_code) :
    (findPair m code_map key_code (entry code_map size - 4) fuel (entry code_map i) = some none ∧
        ∀ j < size, key m code_map j < key_code) ∨
      ∃ start pair, findPair m code_map key_code (entry code_map size - 4) fuel
          (entry code_map i) = some (some (entry code_map start, entry code_map pair)) ∧
        i ≤ start ∧ start ≤ pair ∧ pair < size ∧ (∀ j < start, key m code_map j < key_code) ∧
        key_code ≤ key m code_map pair := by
  induction fuel generalizing i with
  | zero => omega
  | succ fuel ih =>
    have hpair : i + (size - 1 - i) / 2 < entryCount m code_map := by omega
    rw [findPair, h.middle hi hsize, h.scanned_entry hpair, Option.bind_some]
    dsimp only
    rw [h.entry_succ hpair]
    split_ifs with hle hend
    · exact .inr ⟨i, _, rfl, Nat.le_refl i, by omega, by omega, hbelow, hle⟩
    all_goals
      rw [BitVec.lt_def, h.last_toNat hsize, h.entry_toNat (by omega)] at hend
      have hbelow' : ∀ j < i + (size - 1 - i) / 2 + 1, key m code_map j < key_code := by
        intro j hj
        have hmiddle : key m code_map (i + (size - 1 - i) / 2) < key_code := BitVec.not_le.mp hle
        obtain hlt | rfl := Nat.lt_or_eq_of_le (Nat.le_of_lt_succ hj)
        · exact BitVec.lt_trans (h.ascending j _ hlt hpair) hmiddle
        · exact hmiddle
    · exact .inl ⟨rfl, fun j hj => hbelow' j (by omega)⟩
    · obtain hnone | ⟨start, pair, hfound, hstart, hrest⟩ :=
        ih (i := i + (size - 1 - i) / 2 + 1) (by omega) (by omega) hbelow'
      · exact .inl hnone
      · exact .inr ⟨start, pair, hfound, by omega, hrest⟩

theorem answers_absent (size : ℕ) (hbelow : ∀ j < size, key m code_map j < key_code)
    (habove : ∀ j, size ≤ j → j < entryCount m code_map → key_code < key m code_map j) :
    Answers m code_map key_code 0xffff := by
  have hne : ∀ j < entryCount m code_map, key m code_map j ≠ key_code := by
    intro j hj
    obtain hlt | hge := Nat.lt_or_ge j size
    · exact BitVec.ne_of_lt (hbelow j hlt)
    · exact (BitVec.ne_of_lt (habove j hge hj)).symm
  exact ⟨fun j hj heq => absurd heq (hne j hj), fun _ => rfl⟩

theorem Scans.scan_spec (h : Scans m code_map) {fuel i size : ℕ} (hi : i ≤ size)
    (hsize : size ≤ entryCount m code_map) (hfuel : size - i < fuel)
    (hbelow : ∀ j < i, key m code_map j < key_code)
    (habove : ∀ j, size ≤ j → j < entryCount m code_map → key_code < key m code_map j) :
    ∃ index, scan m code_map key_code fuel (entry code_map i) (entry code_map size - 4) =
      some index ∧ Answers m code_map key_code index := by
  induction fuel generalizing i size with
  | zero => omega
  | succ fuel ih =>
    have hiff : entry code_map i ≤ entry code_map size - 4 ↔ i < size := by
      rw [BitVec.le_def, h.last_toNat hsize, h.entry_toNat (by omega)]
      omega
    rw [scan]
    simp only [hiff]
    split_ifs with hlt
    · obtain ⟨hfind, hall⟩ | ⟨start, pair, hfind, hstart, hle, hpair, hbelow', hkey⟩ :=
        h.findPair_spec (fuel + 1) hlt hsize (by omega) hbelow
      · rw [hfind]
        exact ⟨0xffff, rfl, answers_absent size hall habove⟩
      · have hin : pair < entryCount m code_map := by omega
        rw [hfind, Option.bind_some]
        dsimp only
        rw [h.scanned_entry hin, Option.bind_some]
        split_ifs with hfound
        · have heq : key m code_map pair = key_code := by
            obtain hless | heq := hfound
            · exact absurd hkey (BitVec.not_le.mpr hless)
            · exact heq
          refine ⟨code m code_map pair, h.scanned_code hin, fun j hj hj' => ?_, fun hne => ?_⟩
          · obtain hlt' | rfl | hgt := Nat.lt_trichotomy j pair
            · exact absurd (hj'.trans heq.symm) (BitVec.ne_of_lt (h.ascending j pair hlt' hin))
            · rfl
            · exact absurd (heq.trans hj'.symm) (BitVec.ne_of_lt (h.ascending pair j hgt hj))
          · exact absurd heq (hne pair hin)
        · have hgt : key_code < key m code_map pair := by
            have hne : key_code ≠ key m code_map pair := fun heq => hfound (.inr heq.symm)
            bv_omega
          apply ih hle (by omega) (by omega) hbelow'
          intro j hj hj'
          obtain rfl | hlt' := Nat.eq_or_lt_of_le hj
          · exact hgt
          · exact BitVec.lt_trans hgt (h.ascending pair j hlt' hj')
    · refine ⟨0xffff, rfl, answers_absent size (fun j hj => hbelow j ?_) habove⟩
      omega

end Scan

end ResBffntCodeMap

open ResBffntCodeMap in
/-- The search ends, reads nothing but entries of the array, and finds what is stored. -/
theorem mapCharacter_answers {m : Bytes} {code_map : BitVec 64} (h : Scans m code_map)
    (key_code : BitVec 32) {fuel : ℕ} (hfuel : entryCount m code_map < fuel) :
    ∃ index, MapCharacter m code_map fuel key_code = some index ∧
      Answers m code_map key_code index := by
  have hzero : map_method m code_map ≠ 0 := by
    rw [h.method]
    decide
  have hone : map_method m code_map ≠ 1 := by
    rw [h.method]
    decide
  have hstart : code_map_array code_map 2 = entry code_map 0 := by
    simp [entry]
  have hend : code_map_array code_map ((entry_half_count m code_map).setWidth 64 * 2) =
      entry code_map (entryCount m code_map) - 4 := by
    have hlast := h.last_toNat (Nat.le_refl _)
    have hfits := h.fits
    have hcount : entryCount m code_map < 2 ^ 16 := (entry_half_count m code_map).isLt
    have hwide : ((entry_half_count m code_map).setWidth 64 * 2).toNat =
        2 * entryCount m code_map := by
      rw [BitVec.toNat_mul, BitVec.toNat_setWidth]
      change entryCount m code_map % 2 ^ 64 * 2 % 2 ^ 64 = 2 * entryCount m code_map
      omega
    unfold code_map_array
    bv_omega
  unfold MapCharacter
  dsimp only
  rw [if_neg hzero, if_neg hone, if_neg (by simp [h.method]), hstart, hend]
  apply h.scan_spec (Nat.zero_le _) (Nat.le_refl _) (by omega)
  · intro j hj
    exact absurd hj (Nat.not_lt_zero j)
  · intro j hj hj'
    exact absurd hj (Nat.not_le.mpr hj')

def pairMap : Bytes := fun a =>
  [0x43, 0x4d, 0x41, 0x50, 0x24, 0, 0, 0, 0x41, 0, 0, 0, 0x43, 0, 0, 0, 2, 0, 0, 0, 0, 0, 0, 0,
    2, 0, 0, 0, 0x41, 0, 3, 0, 0x43, 0, 5, 0].getD a 0

open ResBffntCodeMap in
theorem mapCharacter_answers_pair :
    ∃ index, MapCharacter pairMap 0 3 0x43 = some index ∧ Answers pairMap 0 0x43 index := by
  have hcount : entryCount pairMap 0 = 2 := by decide
  apply mapCharacter_answers ⟨by decide, by rw [hcount]; decide, ?_⟩ 0x43 (by decide)
  intro i j hij hj
  rw [hcount] at hj
  obtain rfl : j = 1 := by omega
  obtain rfl : i = 0 := by omega
  decide

end Awn.Bffnt
