import Awn.Relocation.Streamed
import Mathlib.Data.List.Basic

namespace Awn.Relocation

open Memory ResNintendoWareRelocationTable NintendoWareRelocationTableStream

structure Prepared (m₀ : Bytes) (out : Ptr) (max_sections : BitVec 32) (secs : List Section) :
    Prop where
  section_count : (sectionCount m₀ out).toNat = secs.length
  full : secs.length = max_sections.toNat
  entry_count : ∀ i < secs.length, i + 1 = secs.length ∨ 2 ^ 31 ≤ i →
    (ResSection.entryCount m₀ (getSection out (BitVec.ofNat 32 i))).toNat = entryLength secs i
  base_entry_index : ∀ i < secs.length, 2 ^ 31 ≤ i →
    (ResSection.baseEntryIndex m₀ (getSection out (BitVec.ofNat 32 i))).toNat = entryStart secs i

variable {out : Ptr} {max_sections max_entries : BitVec 32} {m₀ m : Bytes}
  {s : NintendoWareRelocationTableStream} {secs : List Section}

theorem read32_congr {p : Ptr} (h : ∀ b, p.toNat ≤ b → b < p.toNat + 4 → m b = m₀ b) :
    read32 m p = read32 m₀ p := by
  rw [read32, read32, load_congr h]

theorem read32_toNat {p : Ptr} : (read32 m p).toNat = load m p.toNat 4 := by
  have hlt := load_lt m p.toNat 4
  rw [read32, BitVec.toNat_ofNat]
  omega

section Fields

variable (hfit : out.toNat + CalculateRelocationTableSize max_sections max_entries ≤ 2 ^ 64)

include hfit in
theorem getSection_field {i k : ℕ} (hi : i < 2 ^ 31) (hmax : i < max_sections.toNat) (hk : k < 0x18) :
    (getSection out (BitVec.ofNat 32 i) + BitVec.ofNat 64 k).toNat = sectionAddress out i + k := by
  unfold CalculateRelocationTableSize at hfit
  have haddress : (getSection out (BitVec.ofNat 32 i)).toNat = out.toNat + (0x10 + 0x18 * i) :=
    getSection_toNat hi (by omega)
  unfold sectionAddress
  rw [BitVec.toNat_add, BitVec.toNat_ofNat, haddress]
  omega

include hfit in
theorem getSection_outside {i k : ℕ} (hi : 2 ^ 31 ≤ i) (hmax : i < max_sections.toNat)
    (hk : k ≤ 0x14) : (getSection out (BitVec.ofNat 32 i) + BitVec.ofNat 64 k).toNat + 4 ≤ out.toNat ∨
      entryAddress out max_sections max_entries.toNat ≤
        (getSection out (BitVec.ofNat 32 i) + BitVec.ofNat 64 k).toNat := by
  have hsections := max_sections.isLt
  have hentries := max_entries.isLt
  have hout := out.isLt
  have hmod : i % 2 ^ 32 = i := by omega
  have hmsb : (BitVec.ofNat 32 i).msb = true := by
    rw [BitVec.msb_eq_true_iff_two_mul_ge, BitVec.toNat_ofNat, hmod]
    omega
  have hextend : ((BitVec.ofNat 32 i).signExtend 64).toNat = i + (2 ^ 64 - 2 ^ 32) := by
    rw [BitVec.toNat_signExtend, if_pos hmsb, BitVec.toNat_setWidth, BitVec.toNat_ofNat]
    omega
  unfold CalculateRelocationTableSize at hfit
  unfold entryAddress
  have hstep : ((BitVec.ofNat 32 i).signExtend 64 * 0x18).toNat = 2 ^ 64 - 0x18 * (2 ^ 32 - i) := by
    rw [BitVec.toNat_mul, hextend]
    simp only [BitVec.ofNat_eq_ofNat, BitVec.toNat_ofNat]
    omega
  have hback : 0x30 ≤ 0x18 * (2 ^ 32 - i) ∧ 0x18 * (2 ^ 32 - i) ≤ 2 ^ 36 := by omega
  rw [getSection, BitVec.toNat_add, BitVec.toNat_add, BitVec.toNat_add, hstep]
  generalize 0x18 * (2 ^ 32 - i) = back at hback
  simp only [BitVec.ofNat_eq_ofNat, BitVec.toNat_ofNat]
  omega

include hfit in
theorem Wrote.sectionCount_eq (h : Wrote out max_sections max_entries m₀ s m secs) :
    sectionCount m out = sectionCount m₀ out := by
  unfold CalculateRelocationTableSize at hfit
  have haddress : (out + 0x8).toNat = out.toNat + 8 := by
    rw [BitVec.toNat_add]
    simp only [BitVec.ofNat_eq_ofNat, BitVec.toNat_ofNat]
    omega
  apply read32_congr
  intro b hlo hhi
  exact h.other b (by omega)

include hfit in
theorem Wrote.written (h : Wrote out max_sections max_entries m₀ s m secs) {i : ℕ}
    (hi : i < secs.length) (hsmall : i < 2 ^ 31) :
    (ResSection.baseEntryIndex m (getSection out (BitVec.ofNat 32 i))).toNat = entryStart secs i ∧
      (i + 1 ≠ secs.length → (ResSection.entryCount m (getSection out (BitVec.ofNat 32 i))).toNat =
        entryLength secs i) := by
  have hsections := h.sections
  constructor
  · rw [ResSection.baseEntryIndex, read32_toNat, ← h.base_entry_index i hi]
    congr 1
    exact getSection_field hfit (k := 0x10) hsmall (by omega) (by omega)
  · intro hne
    rw [ResSection.entryCount, read32_toNat, ← h.entry_count i (by omega)]
    congr 1
    exact getSection_field hfit (k := 0x14) hsmall (by omega) (by omega)

include hfit in
theorem Wrote.last (h : Wrote out max_sections max_entries m₀ s m secs) {i : ℕ}
    (hi : i + 1 = secs.length) (hsmall : i < 2 ^ 31) :
    ResSection.entryCount m (getSection out (BitVec.ofNat 32 i)) =
      ResSection.entryCount m₀ (getSection out (BitVec.ofNat 32 i)) := by
  have hsections := h.sections
  have haddress : (getSection out (BitVec.ofNat 32 i) + 0x14).toNat = sectionAddress out i + 0x14 :=
    getSection_field hfit (k := 0x14) hsmall (by omega) (by omega)
  apply read32_congr
  intro b hlo hhi
  apply h.other
  rw [haddress] at hlo hhi
  right
  left
  rw [← hi]
  unfold sectionAddress entryAddress at *
  omega

include hfit in
theorem Wrote.outside (h : Wrote out max_sections max_entries m₀ s m secs) {i : ℕ}
    (hi : i < secs.length) (hlarge : 2 ^ 31 ≤ i) :
    ResSection.baseEntryIndex m (getSection out (BitVec.ofNat 32 i)) =
        ResSection.baseEntryIndex m₀ (getSection out (BitVec.ofNat 32 i)) ∧
      ResSection.entryCount m (getSection out (BitVec.ofNat 32 i)) =
        ResSection.entryCount m₀ (getSection out (BitVec.ofNat 32 i)) := by
  have hmax : i < max_sections.toNat := Nat.lt_of_lt_of_le hi h.sections
  have hindex := getSection_outside hfit (k := 0x10) hlarge hmax (by omega)
  have hcount := getSection_outside hfit (k := 0x14) hlarge hmax (by omega)
  constructor
  · apply read32_congr
    intro b hlo hhi
    apply h.other
    change (getSection out (BitVec.ofNat 32 i) + BitVec.ofNat 64 0x10).toNat ≤ b at hlo
    change b < (getSection out (BitVec.ofNat 32 i) + BitVec.ofNat 64 0x10).toNat + 4 at hhi
    omega
  · apply read32_congr
    intro b hlo hhi
    apply h.other
    change (getSection out (BitVec.ofNat 32 i) + BitVec.ofNat 64 0x14).toNat ≤ b at hlo
    change b < (getSection out (BitVec.ofNat 32 i) + BitVec.ofNat 64 0x14).toNat + 4 at hhi
    omega

theorem EntryAt.readEntry_eq {p : Ptr} {entry : Entry} (h : EntryAt m p.toNat entry)
    (hp : p.toNat + 8 ≤ 2 ^ 64) : readEntry m p = entry := by
  obtain ⟨h0, h4, h6, h7⟩ := h
  have haddress : ∀ k < 8, (p + BitVec.ofNat 64 k).toNat = p.toNat + k := by
    intro k hk
    rw [BitVec.toNat_add, BitVec.toNat_ofNat]
    omega
  have hcount : (p + 0x4).toNat = p.toNat + 4 := haddress 4 (by omega)
  have hreloc : (p + 0x6).toNat = p.toNat + 6 := haddress 6 (by omega)
  have hstride : (p + 0x7).toNat = p.toNat + 7 := haddress 7 (by omega)
  cases entry
  rw [readEntry, Entry.mk.injEq]
  refine ⟨?_, ?_, ?_, ?_⟩
  · rw [ResEntry.regionOffset, read32, h0, BitVec.ofNat_toNat, BitVec.setWidth_eq]
  · rw [ResEntry.arrayCount, read16, hcount, h4, BitVec.ofNat_toNat, BitVec.setWidth_eq]
  · rw [ResEntry.relocationCount, read8, hreloc, h6, BitVec.ofNat_toNat, BitVec.setWidth_eq]
  · rw [ResEntry.arrayStride, read8, hstride, h7, BitVec.ofNat_toNat, BitVec.setWidth_eq]

include hfit in
theorem Wrote.visits_eq (h : Wrote out max_sections max_entries m₀ s m secs)
    (hcount : (sectionCount m out).toNat = secs.length) (hfull : secs.length = max_sections.toNat)
    (hbase : ∀ i < secs.length,
      (ResSection.baseEntryIndex m (getSection out (BitVec.ofNat 32 i))).toNat = entryStart secs i)
    (hlength : ∀ i < secs.length,
      (ResSection.entryCount m (getSection out (BitVec.ofNat 32 i))).toNat = entryLength secs i) :
    visits m out = added secs := by
  unfold CalculateRelocationTableSize at hfit
  have hentries := h.entries
  have hmax := max_entries.isLt
  rw [visits, added, hcount]
  apply List.flatMap_congr
  intro i hi
  rw [List.mem_range] at hi
  have hend : entryStart secs i + entryLength secs i ≤ (secs.flatMap Section.entries).length := by
    rw [entryStart_add secs hi, ← entryStart_length]
    exact entryStart_mono secs (by omega)
  have hindices : ResSection.entryIndices m (getSection out (BitVec.ofNat 32 i)) =
      List.range' (entryStart secs i) (entryLength secs i) := by
    rw [ResSection.entryIndices, BitVec.toNat_add, hbase i hi, hlength i hi]
    congr 1
    omega
  rw [hindices]
  apply List.ext_getElem?
  intro k
  rw [List.getElem?_map, List.getElem?_map]
  by_cases hk : k < entryLength secs i
  · have hget := entries_getElem? secs hi hk
    have hk' : k < (secs[i]?.elim [] Section.entries).length := hk
    rw [List.getElem?_eq_getElem hk'] at hget ⊢
    rw [List.getElem?_range' hk, Option.map_some, Option.map_some, Nat.one_mul]
    congr 2
    have haddress : (getEntry out (getEntryTableOffset m out) (entryStart secs i + k)).toNat =
        entryAddress out max_sections (entryStart secs i + k) := by
      rw [getEntry_toNat (by omega), hcount, hfull, entryAddress]
      omega
    apply EntryAt.readEntry_eq
    · rw [haddress]
      exact h.entry _ _ hget
    · rw [haddress, entryAddress]
      omega
  · have hk' : (secs[i]?.elim [] Section.entries).length ≤ k := Nat.le_of_not_lt hk
    rw [List.getElem?_eq_none hk', List.getElem?_eq_none]
    · rfl
    · rw [List.length_range']
      omega

theorem Wrote.entry_table_iff (h : Wrote out max_sections max_entries m₀ s m secs)
    (hcount : (sectionCount m out).toNat = secs.length) :
    out + getEntryTableOffset m out = s.m_entry_array ↔ secs.length = max_sections.toNat := by
  have hsections := h.sections
  have hmax := max_sections.isLt
  have harray : (0x10 + 0x18 * max_sections.setWidth 64 : Ptr).toNat =
      0x10 + 0x18 * max_sections.toNat := by
    simp only [BitVec.toNat_add, BitVec.toNat_mul, BitVec.toNat_setWidth, BitVec.ofNat_eq_ofNat,
      BitVec.toNat_ofNat]
    omega
  rw [h.entry_array, BitVec.add_assoc, BitVec.add_right_inj, ← BitVec.toNat_inj, harray,
    getEntryTableOffset_toNat, hcount]
  omega

include hfit in
theorem Wrote.tableOf_iff (h : Wrote out max_sections max_entries m₀ s m secs) :
    TableOf m out s.m_entry_array secs ↔ Prepared m₀ out max_sections secs := by
  have hheader := h.sectionCount_eq hfit
  constructor
  · intro ht
    have hcount := ht.section_count
    constructor
    · rw [← hheader]
      exact hcount
    · exact (h.entry_table_iff hcount).mp ht.entry_table
    · intro i hi hunwritten
      rw [← ht.entry_count i hi]
      by_cases hsmall : i < 2 ^ 31
      · rw [h.last hfit (by omega) hsmall]
      · rw [(h.outside hfit hi (by omega)).2]
    · intro i hi hlarge
      rw [← ht.base_entry_index i hi, (h.outside hfit hi hlarge).1]
  · intro hp
    have hcount : (sectionCount m out).toNat = secs.length := by
      rw [hheader]
      exact hp.section_count
    have hbase : ∀ i < secs.length, (ResSection.baseEntryIndex m
        (getSection out (BitVec.ofNat 32 i))).toNat = entryStart secs i := by
      intro i hi
      by_cases hsmall : i < 2 ^ 31
      · exact (h.written hfit hi hsmall).1
      · rw [(h.outside hfit hi (by omega)).1]
        exact hp.base_entry_index i hi (by omega)
    have hlength : ∀ i < secs.length, (ResSection.entryCount m
        (getSection out (BitVec.ofNat 32 i))).toNat = entryLength secs i := by
      intro i hi
      by_cases hsmall : i < 2 ^ 31
      · by_cases hlast : i + 1 = secs.length
        · rw [h.last hfit hlast hsmall]
          exact hp.entry_count i hi (Or.inl hlast)
        · exact (h.written hfit hi hsmall).2 hlast
      · rw [(h.outside hfit hi (by omega)).2]
        exact hp.entry_count i hi (Or.inr (by omega))
    constructor
    · exact hcount
    · exact (h.entry_table_iff hcount).mpr hp.full
    · exact hbase
    · exact hlength
    · exact h.visits_eq hfit hcount hp.full hbase hlength

end Fields

/-- The buffer holds a table of what was added exactly when it was prepared for it. -/
theorem addSections_tableOf_iff (m₀ : Bytes) (out : Ptr) (max_sections max_entries : BitVec 32)
    (secs : List Section)
    (hfit : out.toNat + CalculateRelocationTableSize max_sections max_entries ≤ 2 ^ 64)
    (hsections : secs.length ≤ max_sections.toNat)
    (hentries : (secs.flatMap Section.entries).length ≤ max_entries.toNat) :
    ∃ s m, (Initialize out max_sections max_entries).addSections m₀ secs = .ok (s, m) ∧
      (TableOf m out s.m_entry_array secs ↔ Prepared m₀ out max_sections secs) := by
  have hinit : Wrote out max_sections max_entries m₀ (Initialize out max_sections max_entries) m₀ [] :=
    wrote_initialize m₀
  rw [← Nat.zero_add secs.length] at hsections
  obtain ⟨s, m, heq, h⟩ := hinit.addSections hfit hsections hentries
  exact ⟨s, m, heq, h.tableOf_iff hfit⟩

def oneEntry : List Section := [⟨0, 0x10, [⟨0, 1, 1, 0⟩]⟩]

theorem addSections_tableOf_iff_oneEntry : ∃ s m,
    (Initialize 0x1000 1 1).addSections (fun _ => 0) oneEntry = .ok (s, m) ∧
      (TableOf m 0x1000 s.m_entry_array oneEntry ↔ Prepared (fun _ => 0) 0x1000 1 oneEntry) :=
  addSections_tableOf_iff (fun _ => 0) 0x1000 1 1 oneEntry (by decide) (by decide) (by decide)

theorem oneEntry_not_tableOf : ∃ s m,
    (Initialize 0x1000 1 1).addSections (fun _ => 0) oneEntry = .ok (s, m) ∧
      ¬TableOf m 0x1000 s.m_entry_array oneEntry := by
  refine ⟨_, _, rfl, ?_⟩
  intro h
  have hcount := h.section_count
  revert hcount
  decide +kernel

end Awn.Relocation
