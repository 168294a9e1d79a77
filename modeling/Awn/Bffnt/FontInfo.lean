import Awn.Bffnt.CodeMap

/-! `vp::res::ResBffntFontInfo`, as far as the search for a code map asks. -/

namespace Awn.Bffnt

open Memory
open Sarc (read32)

namespace ResBffntCodeMap

variable (m : Bytes) (code_map : BitVec 64) (key_code : BitVec 32)

def contains : Bool :=
  code_range_begin m code_map ≤ key_code ∧ key_code ≤ code_range_end m code_map

end ResBffntCodeMap

namespace ResBffntFontInfo

variable (m : Bytes) (file_base font_info : BitVec 64)

def code_map_section_offset : BitVec 32 := read32 m (font_info + 0x1c)

/-- The loop reads the code map at the offset of the section every time. The outer `none` is out of
fuel. -/
def walk (key_code : BitVec 32) : ℕ → BitVec 32 → Option (Option (BitVec 64))
  | 0, _ => none
  | fuel + 1, next_code_map_offset =>
    if next_code_map_offset ≠ 0 then
      let code_map := file_base + (code_map_section_offset m font_info).setWidth 64
      if ResBffntCodeMap.contains m code_map key_code = true then some (some code_map)
      else walk key_code fuel (ResBffntCodeMap.next_code_map_offset m code_map)
    else some none

def GetCodeMapByCharacter (fuel : ℕ) (key_code : BitVec 32) : Option (Option (BitVec 64)) :=
  walk m file_base font_info key_code fuel (code_map_section_offset m font_info - 0x8)

end ResBffntFontInfo

inductive Chain (m : Bytes) (file_base : BitVec 64) : BitVec 32 → List (BitVec 64) → Prop
  | done : Chain m file_base 0 []
  | link {offset : BitVec 32} {code_map : BitVec 64} {rest : List (BitVec 64)}
      (hoffset : offset ≠ 0) (hcode_map : code_map = file_base + offset.setWidth 64 - 0x8)
      (hrest : Chain m file_base (ResBffntCodeMap.next_code_map_offset m code_map) rest) :
      Chain m file_base offset (code_map :: rest)

structure FontFile (m : Bytes) (file_base font_info : BitVec 64) (code_maps : List (BitVec 64)) :
    Prop where
  chain : Chain m file_base (ResBffntFontInfo.code_map_section_offset m font_info) code_maps
  behind : ResBffntFontInfo.code_map_section_offset m font_info ≠ 0x8
  apart : code_maps.Pairwise fun a b => 0x18 ≤ (b - a).toNat

namespace ResBffntFontInfo

variable {m : Bytes} {file_base font_info : BitVec 64} {key_code : BitVec 32}

def looked (m : Bytes) (file_base font_info : BitVec 64) : BitVec 64 :=
  file_base + (code_map_section_offset m font_info).setWidth 64

def Finds (m : Bytes) (file_base font_info : BitVec 64) (code_maps : List (BitVec 64))
    (key_code : BitVec 32) : Prop :=
  ∃ least, ∀ fuel, least ≤ fuel → GetCodeMapByCharacter m file_base font_info fuel key_code =
    some (code_maps.find? fun code_map => ResBffntCodeMap.contains m code_map key_code)

theorem walk_contains
    (h : ResBffntCodeMap.contains m (looked m file_base font_info) key_code = true)
    {offset : BitVec 32} (hoffset : offset ≠ 0) (fuel : ℕ) :
    walk m file_base font_info key_code (fuel + 1) offset =
      some (some (looked m file_base font_info)) := by
  rw [walk, if_pos hoffset]
  exact if_pos h

theorem walk_ends (h : ResBffntCodeMap.contains m (looked m file_base font_info) key_code = false)
    (hnext : ResBffntCodeMap.next_code_map_offset m (looked m file_base font_info) = 0)
    (fuel : ℕ) (offset : BitVec 32) :
    walk m file_base font_info key_code (fuel + 2) offset = some none := by
  have hstop : walk m file_base font_info key_code (fuel + 1)
      (ResBffntCodeMap.next_code_map_offset m (looked m file_base font_info)) = some none := by
    rw [walk, if_neg (by simp [hnext])]
  rw [walk]
  dsimp only
  split_ifs with hoffset hcontains
  · exact absurd (h.symm.trans hcontains) Bool.false_ne_true
  · exact hstop
  · rfl

theorem walk_loops (h : ResBffntCodeMap.contains m (looked m file_base font_info) key_code = false)
    (hnext : ResBffntCodeMap.next_code_map_offset m (looked m file_base font_info) ≠ 0)
    (fuel : ℕ) {offset : BitVec 32} (hoffset : offset ≠ 0) :
    walk m file_base font_info key_code fuel offset = none := by
  induction fuel generalizing offset with
  | zero => rfl
  | succ fuel ih =>
    rw [walk, if_pos hoffset]
    dsimp only
    rw [if_neg (by simpa [looked] using h)]
    exact ih hnext

end ResBffntFontInfo

theorem FontFile.looked_notMem {m : Bytes} {file_base font_info : BitVec 64}
    {code_maps : List (BitVec 64)} (h : FontFile m file_base font_info code_maps) :
    ResBffntFontInfo.looked m file_base font_info ∉ code_maps := by
  obtain ⟨hchain, -, hapart⟩ := h
  unfold ResBffntFontInfo.looked
  generalize ResBffntFontInfo.code_map_section_offset m font_info = offset at hchain ⊢
  cases hchain with
  | done => exact List.not_mem_nil
  | link hoffset hcode_map hrest =>
    rename_i code_map rest
    intro hmem
    obtain heq | hmem := List.mem_cons.mp hmem
    · bv_omega
    · have hfar := List.rel_of_pairwise_cons hapart hmem
      bv_omega

/-- The search is right only where there is no map to be found, and what lies eight bytes behind
the first one reads as one that does not have the character and is the last. -/
theorem getCodeMapByCharacter_iff {m : Bytes} {file_base font_info : BitVec 64}
    {code_maps : List (BitVec 64)} (h : FontFile m file_base font_info code_maps)
    (key_code : BitVec 32) :
    ResBffntFontInfo.Finds m file_base font_info code_maps key_code ↔
      (∀ code_map ∈ code_maps, ResBffntCodeMap.contains m code_map key_code = false) ∧
        ResBffntCodeMap.contains m (ResBffntFontInfo.looked m file_base font_info) key_code =
          false ∧
        ResBffntCodeMap.next_code_map_offset m (ResBffntFontInfo.looked m file_base font_info) =
          0 := by
  have hstart : ResBffntFontInfo.code_map_section_offset m font_info - 0x8 ≠ 0 := by
    have hbehind := h.behind
    bv_omega
  constructor
  · rintro ⟨least, hfinds⟩
    have hfound := hfinds (least + 1) (Nat.le_add_right least 1)
    unfold ResBffntFontInfo.GetCodeMapByCharacter at hfound
    cases hcontains : ResBffntCodeMap.contains m
        (ResBffntFontInfo.looked m file_base font_info) key_code with
    | true =>
      rw [ResBffntFontInfo.walk_contains hcontains hstart] at hfound
      exact absurd (List.mem_of_find?_eq_some (Option.some.inj hfound).symm) h.looked_notMem
    | false =>
      by_cases hnext : ResBffntCodeMap.next_code_map_offset m
          (ResBffntFontInfo.looked m file_base font_info) = 0
      · have hends := hfinds (least + 2) (Nat.le_add_right least 2)
        unfold ResBffntFontInfo.GetCodeMapByCharacter at hends
        rw [ResBffntFontInfo.walk_ends hcontains hnext] at hends
        have hnone := List.find?_eq_none.mp (Option.some.inj hends).symm
        exact ⟨fun code_map hmem => eq_false_of_ne_true (hnone code_map hmem), rfl, hnext⟩
      · rw [ResBffntFontInfo.walk_loops hcontains hnext _ hstart] at hfound
        cases hfound
  · rintro ⟨hnone, hcontains, hnext⟩
    refine ⟨2, fun fuel hfuel => ?_⟩
    obtain ⟨fuel, rfl⟩ := Nat.exists_eq_add_of_le' hfuel
    have hfind : code_maps.find? (fun code_map =>
        ResBffntCodeMap.contains m code_map key_code) = none := by
      rw [List.find?_eq_none]
      intro code_map hmem
      rw [hnone code_map hmem]
      exact Bool.false_ne_true
    rw [ResBffntFontInfo.GetCodeMapByCharacter, ResBffntFontInfo.walk_ends hcontains hnext, hfind]

section Files

def codeMapBytes (code_range_begin code_range_end next_code_map_offset : BitVec 8) :
    List (BitVec 8) :=
  [0x43, 0x4d, 0x41, 0x50, 0x1c, 0, 0, 0, code_range_begin, 0, 0, 0, code_range_end, 0, 0, 0,
    0, 0, 0, 0, next_code_map_offset, 0, 0, 0, 0, 0, 0, 0]

def fontFile (code_maps : List (List (BitVec 8))) : Bytes := fun a =>
  (List.replicate 0x30 0 ++ [0x3c, 0, 0, 0] ++ code_maps.flatten).getD a 0

def capitals : Bytes := fontFile [codeMapBytes 0x41 0x5a 0]

def letters : Bytes := fontFile [codeMapBytes 0x41 0x5a 0x58, codeMapBytes 0x61 0x7a 0]

theorem capitals_fontFile : FontFile capitals 0 0x14 [0x34] where
  chain := by
    have hlast : ResBffntCodeMap.next_code_map_offset capitals 0x34 = 0 := by decide
    apply Chain.link (by decide) (by decide)
    rw [hlast]
    exact .done
  behind := by decide
  apart := by decide

theorem letters_fontFile : FontFile letters 0 0x14 [0x34, 0x50] where
  chain := by
    have hlast : ResBffntCodeMap.next_code_map_offset letters 0x50 = 0 := by decide
    apply Chain.link (by decide) (by decide)
    apply Chain.link (by decide) (by decide)
    rw [hlast]
    exact .done
  behind := by decide
  apart := by decide

theorem getCodeMapByCharacter_iff_capitals :
    ResBffntFontInfo.Finds capitals 0 0x14 [0x34] 0x61 := by
  apply (getCodeMapByCharacter_iff capitals_fontFile 0x61).mpr
  refine ⟨fun code_map hmem => ?_, by decide, by decide⟩
  obtain rfl := List.mem_singleton.mp hmem
  decide

theorem letters_not_finds :
    FontFile letters 0 0x14 [0x34, 0x50] ∧
      ¬ ResBffntFontInfo.Finds letters 0 0x14 [0x34, 0x50] 0x61 := by
  refine ⟨letters_fontFile, ?_⟩
  rintro ⟨least, hfinds⟩
  have hfound := hfinds least (Nat.le_refl least)
  rw [ResBffntFontInfo.GetCodeMapByCharacter,
    ResBffntFontInfo.walk_loops (by decide) (by decide) least (by decide)] at hfound
  cases hfound

end Files

end Awn.Bffnt
