import Awn.Relocation.Walk

/-!
`NintendoWareRelocationTableStream`, which writes a relocation table behind a header that it does
not write.
-/

namespace Awn.Relocation

open Memory ResNintendoWareRelocationTable

def write8 (m : Bytes) (p : Ptr) (v : BitVec 8) : Bytes := store m p.toNat 1 v.toNat
def write32 (m : Bytes) (p : Ptr) (v : BitVec 32) : Bytes := store m p.toNat 4 v.toNat

structure Entry where
  region_offset : BitVec 32
  array_count : BitVec 16
  relocation_count : BitVec 8
  array_stride : BitVec 8
deriving DecidableEq

structure Section where
  region_offset : BitVec 32
  region_size : BitVec 32
  entries : List Entry

inductive ResultError
  | SectionExhaustion
  | EntryExhaustion

structure NintendoWareRelocationTableStream where
  m_header : Ptr
  m_section_array : Ptr
  m_entry_array : Ptr
  m_section_count : BitVec 32
  m_section_max : BitVec 32
  m_entry_count : BitVec 32
  m_entry_max : BitVec 32

namespace NintendoWareRelocationTableStream

def Initialize (output_buffer : Ptr) (max_sections max_entries : BitVec 32) :
    NintendoWareRelocationTableStream where
  m_header := output_buffer
  m_section_array := output_buffer + 0x10
  m_entry_array := output_buffer + 0x10 + 0x18 * max_sections.setWidth 64
  m_section_count := 0
  m_section_max := max_sections
  m_entry_count := 0
  m_entry_max := max_entries

def section_array (s : NintendoWareRelocationTableStream) (i : BitVec 32) : Ptr :=
  s.m_section_array + 0x18 * i.setWidth 64

def entry_array (s : NintendoWareRelocationTableStream) (i : BitVec 32) : Ptr :=
  s.m_entry_array + 0x8 * i.setWidth 64

def StartSection (s : NintendoWareRelocationTableStream) (m : Bytes)
    (region_offset region_size : BitVec 32) :
    Except ResultError (NintendoWareRelocationTableStream × Bytes) :=
  if s.m_section_count = s.m_section_max then .error .SectionExhaustion
  else
    let i := s.m_section_count
    let last := s.section_array (i - 1)
    let m := if 0 < i then write32 m (last + 0x14)
      (s.m_entry_count - ResSection.baseEntryIndex m last) else m
    let m := write64 m (s.section_array i) 0
    let m := write32 m (s.section_array i + 0x8) region_offset
    let m := write32 m (s.section_array i + 0xc) region_size
    let m := write32 m (s.section_array i + 0x10) s.m_entry_count
    .ok ({ s with m_section_count := i + 1 }, m)

def AddEntry (s : NintendoWareRelocationTableStream) (m : Bytes) (entry : Entry) :
    Except ResultError (NintendoWareRelocationTableStream × Bytes) :=
  if s.m_entry_count = s.m_entry_max then .error .EntryExhaustion
  else
    let i := s.m_entry_count
    let m := write32 m (s.entry_array i) entry.region_offset
    let m := write16 m (s.entry_array i + 0x4) entry.array_count
    let m := write8 m (s.entry_array i + 0x6) entry.relocation_count
    let m := write8 m (s.entry_array i + 0x7) entry.array_stride
    .ok ({ s with m_entry_count := i + 1 }, m)

def CalculateRelocationTableSize (max_sections max_entries : BitVec 32) : ℕ :=
  0x10 + 0x18 * max_sections.toNat + 0x8 * max_entries.toNat

def addEntries (s : NintendoWareRelocationTableStream) (m : Bytes) :
    List Entry → Except ResultError (NintendoWareRelocationTableStream × Bytes)
  | [] => .ok (s, m)
  | entry :: entries => do
    let (s, m) ← s.AddEntry m entry
    addEntries s m entries

def addSections (s : NintendoWareRelocationTableStream) (m : Bytes) :
    List Section → Except ResultError (NintendoWareRelocationTableStream × Bytes)
  | [] => .ok (s, m)
  | sec :: secs => do
    let (s, m) ← s.StartSection m sec.region_offset sec.region_size
    let (s, m) ← s.addEntries m sec.entries
    addSections s m secs

end NintendoWareRelocationTableStream

def readEntry (m : Bytes) (e : Ptr) : Entry where
  region_offset := ResEntry.regionOffset m e
  array_count := ResEntry.arrayCount m e
  relocation_count := ResEntry.relocationCount m e
  array_stride := ResEntry.arrayStride m e

def visits (m : Bytes) (this : Ptr) : List (ℕ × Entry) :=
  (List.range (sectionCount m this).toNat).flatMap fun i =>
    (ResSection.entryIndices m (getSection this (BitVec.ofNat 32 i))).map fun e =>
      (i, readEntry m (getEntry this (getEntryTableOffset m this) e))

def Entry.slots (entry : Entry) (baseFile : Ptr) : List Ptr :=
  arraySlots entry.relocation_count entry.array_stride entry.array_count.toNat
    (baseFile + entry.region_offset.setWidth 64)

theorem slots_eq_visits (m : Bytes) (this : Ptr) :
    slots m this = (visits m this).flatMap fun v =>
      (v.2.slots (getFileHeader m this)).map fun a =>
        (ResSection.fileBase m (getSection this (BitVec.ofNat 32 v.1)) (getFileHeader m this), a) := by
  rw [slots, visits, List.flatMap_assoc]
  congr 1
  funext i
  rw [List.flatMap_map]
  rfl

def entryStart (secs : List Section) (i : ℕ) : ℕ := ((secs.take i).flatMap Section.entries).length

def entryLength (secs : List Section) (i : ℕ) : ℕ :=
  (secs[i]?.elim [] Section.entries).length

def added (secs : List Section) : List (ℕ × Entry) :=
  (List.range secs.length).flatMap fun i =>
    (secs[i]?.elim [] Section.entries).map fun entry => (i, entry)

structure TableOf (m : Bytes) (this entry_array : Ptr) (secs : List Section) : Prop where
  section_count : (sectionCount m this).toNat = secs.length
  entry_table : this + getEntryTableOffset m this = entry_array
  base_entry_index : ∀ i < secs.length,
    (ResSection.baseEntryIndex m (getSection this (BitVec.ofNat 32 i))).toNat = entryStart secs i
  entry_count : ∀ i < secs.length,
    (ResSection.entryCount m (getSection this (BitVec.ofNat 32 i))).toNat = entryLength secs i
  visits : visits m this = added secs

/-!
What the stream leaves in its buffer, and when that is a table of what was added.
-/

open Memory ResNintendoWareRelocationTable NintendoWareRelocationTableStream

section Lists

variable (secs : List Section) (sec : Section) {i : ℕ}

theorem entryStart_append (hi : i ≤ secs.length) :
    entryStart (secs ++ [sec]) i = entryStart secs i := by
  rw [entryStart, entryStart, List.take_append_of_le_length hi]

theorem entryLength_append (hi : i < secs.length) :
    entryLength (secs ++ [sec]) i = entryLength secs i := by
  rw [entryLength, entryLength, List.getElem?_append_left hi]

theorem entryStart_add (hi : i < secs.length) :
    entryStart secs i + entryLength secs i = entryStart secs (i + 1) := by
  rw [entryStart, entryStart, entryLength, List.take_add_one, List.flatMap_append,
    List.length_append, List.getElem?_eq_getElem hi]
  simp

theorem entryStart_length : entryStart secs secs.length = (secs.flatMap Section.entries).length := by
  rw [entryStart, List.take_length]

theorem entryStart_mono {j : ℕ} (h : i ≤ j) : entryStart secs i ≤ entryStart secs j := by
  rw [entryStart, entryStart, ← List.take_append_drop i (secs.take j), List.take_take,
    Nat.min_eq_left h, List.flatMap_append, List.length_append]
  exact Nat.le_add_right _ _

theorem entries_getElem? {k : ℕ} (hi : i < secs.length) (hk : k < entryLength secs i) :
    (secs.flatMap Section.entries)[entryStart secs i + k]? =
      (secs[i]?.elim [] Section.entries)[k]? := by
  have hsplit : secs.flatMap Section.entries = (secs.take i).flatMap Section.entries ++
      ((secs[i]?.elim [] Section.entries) ++ (secs.drop (i + 1)).flatMap Section.entries) := by
    conv_lhs => rw [← List.take_append_drop i secs, List.drop_eq_getElem_cons hi]
    rw [List.flatMap_append, List.flatMap_cons, List.getElem?_eq_getElem hi]
    rfl
  rw [hsplit, entryStart, List.getElem?_append_right (Nat.le_add_right _ _), Nat.add_sub_cancel_left,
    List.getElem?_append_left hk]

end Lists

def EntryAt (m : Bytes) (a : ℕ) (entry : Entry) : Prop :=
  load m a 4 = entry.region_offset.toNat ∧ load m (a + 4) 2 = entry.array_count.toNat ∧
    load m (a + 6) 1 = entry.relocation_count.toNat ∧ load m (a + 7) 1 = entry.array_stride.toNat

theorem EntryAt.congr {m m' : Bytes} {a : ℕ} {entry : Entry} (h : EntryAt m a entry)
    (hb : ∀ b, a ≤ b → b < a + 8 → m' b = m b) : EntryAt m' a entry := by
  obtain ⟨h₀, h₄, h₆, h₇⟩ := h
  refine ⟨?_, ?_, ?_, ?_⟩
  · rw [← h₀]
    exact load_congr fun b hlo hhi => hb b (by omega) (by omega)
  · rw [← h₄]
    exact load_congr fun b hlo hhi => hb b (by omega) (by omega)
  · rw [← h₆]
    exact load_congr fun b hlo hhi => hb b (by omega) (by omega)
  · rw [← h₇]
    exact load_congr fun b hlo hhi => hb b (by omega) (by omega)

theorem load_store_toNat {w : ℕ} (m : Bytes) (a n : ℕ) (v : BitVec w) (hw : w = 8 * n) :
    load (store m a n v.toNat) a n = v.toNat := by
  have hpow : 256 ^ n = 2 ^ w := by
    rw [hw, pow_mul]
    norm_num
  rw [load_store, hpow]
  exact Nat.mod_eq_of_lt v.isLt

variable {out : Ptr} {max_sections max_entries : BitVec 32}

def sectionAddress (out : Ptr) (i : ℕ) : ℕ := out.toNat + 0x10 + 0x18 * i

def entryAddress (out : Ptr) (max_sections : BitVec 32) (k : ℕ) : ℕ :=
  out.toNat + 0x10 + 0x18 * max_sections.toNat + 8 * k

structure Wrote (out : Ptr) (max_sections max_entries : BitVec 32) (m₀ : Bytes)
    (s : NintendoWareRelocationTableStream) (m : Bytes) (secs : List Section) : Prop where
  section_array : s.m_section_array = out + 0x10
  entry_array : s.m_entry_array = out + 0x10 + 0x18 * max_sections.setWidth 64
  section_max : s.m_section_max = max_sections
  entry_max : s.m_entry_max = max_entries
  section_count : s.m_section_count.toNat = secs.length
  total : s.m_entry_count.toNat = (secs.flatMap Section.entries).length
  sections : secs.length ≤ max_sections.toNat
  entries : (secs.flatMap Section.entries).length ≤ max_entries.toNat
  base_entry_index : ∀ i < secs.length, load m (sectionAddress out i + 0x10) 4 = entryStart secs i
  entry_count : ∀ i, i + 1 < secs.length →
    load m (sectionAddress out i + 0x14) 4 = entryLength secs i
  entry : ∀ k entry, (secs.flatMap Section.entries)[k]? = some entry →
    EntryAt m (entryAddress out max_sections k) entry
  other : ∀ b, b < out.toNat + 0x10 ∨ sectionAddress out secs.length ≤ b + 4 ∧
      b < entryAddress out max_sections 0 ∨ entryAddress out max_sections max_entries.toNat ≤ b →
    m b = m₀ b

section Steps

variable {m₀ m : Bytes} {s : NintendoWareRelocationTableStream} {secs : List Section}
  (hfit : out.toNat + CalculateRelocationTableSize max_sections max_entries ≤ 2 ^ 64)

include hfit in
theorem Wrote.section_array_toNat (h : Wrote out max_sections max_entries m₀ s m secs)
    {i : BitVec 32} (hi : i.toNat < max_sections.toNat) (k : ℕ) (hk : k < 0x18) :
    (s.section_array i + BitVec.ofNat 64 k).toNat = sectionAddress out i.toNat + k := by
  unfold CalculateRelocationTableSize at hfit
  rw [NintendoWareRelocationTableStream.section_array, h.section_array]
  simp only [sectionAddress, BitVec.toNat_add, BitVec.toNat_mul, BitVec.toNat_setWidth,
    BitVec.ofNat_eq_ofNat, BitVec.toNat_ofNat]
  omega

include hfit in
theorem Wrote.entry_array_toNat (h : Wrote out max_sections max_entries m₀ s m secs)
    {i : BitVec 32} (hi : i.toNat < max_entries.toNat) (k : ℕ) (hk : k < 8) :
    (s.entry_array i + BitVec.ofNat 64 k).toNat = entryAddress out max_sections i.toNat + k := by
  unfold CalculateRelocationTableSize at hfit
  have hmax := max_sections.isLt
  rw [NintendoWareRelocationTableStream.entry_array, h.entry_array]
  simp only [entryAddress, BitVec.toNat_add, BitVec.toNat_mul, BitVec.toNat_setWidth,
    BitVec.ofNat_eq_ofNat, BitVec.toNat_ofNat]
  omega

theorem wrote_initialize (m₀ : Bytes) :
    Wrote out max_sections max_entries m₀ (Initialize out max_sections max_entries) m₀ [] where
  section_array := rfl
  entry_array := rfl
  section_max := rfl
  entry_max := rfl
  section_count := rfl
  total := rfl
  sections := Nat.zero_le _
  entries := Nat.zero_le _
  base_entry_index i hi := absurd hi (Nat.not_lt_zero i)
  entry_count i hi := absurd hi (Nat.not_lt_zero _)
  entry k entry hk := by cases hk
  other _ _ := rfl

include hfit in
theorem Wrote.lastSection (h : Wrote out max_sections max_entries m₀ s m secs)
    (hroom : secs.length < max_sections.toNat) {m₁ : Bytes}
    (hm₁ : m₁ = if 0 < s.m_section_count then
      write32 m (s.section_array (s.m_section_count - 1) + 0x14) (s.m_entry_count -
        ResSection.baseEntryIndex m (s.section_array (s.m_section_count - 1))) else m) :
    (∀ b, b < out.toNat + 0x10 ∨ b + 4 < sectionAddress out secs.length ∨
        sectionAddress out secs.length ≤ b → m₁ b = m b) ∧
      ∀ i, i + 1 = secs.length → load m₁ (sectionAddress out i + 0x14) 4 = entryLength secs i := by
  have hcount := h.section_count
  have hzero : (0 : BitVec 32).toNat = 0 := rfl
  have hone : (1 : BitVec 32).toNat = 1 := rfl
  by_cases hpos : 0 < s.m_section_count
  · have hlt : 0 < secs.length := by
      rw [BitVec.lt_def, hzero, hcount] at hpos
      exact hpos
    have hprev : (s.m_section_count - 1).toNat = secs.length - 1 := by
      rw [BitVec.toNat_sub, hone, hcount]
      have := max_sections.isLt
      omega
    have hbase : (s.section_array (s.m_section_count - 1) + 0x10).toNat =
        sectionAddress out (secs.length - 1) + 0x10 := by
      rw [← hprev]
      exact h.section_array_toNat hfit (by omega) 0x10 (by omega)
    have haddress : (s.section_array (s.m_section_count - 1) + 0x14).toNat =
        sectionAddress out (secs.length - 1) + 0x14 := by
      rw [← hprev]
      exact h.section_array_toNat hfit (by omega) 0x14 (by omega)
    have hread : (ResSection.baseEntryIndex m (s.section_array (s.m_section_count - 1))).toNat =
        entryStart secs (secs.length - 1) := by
      rw [ResSection.baseEntryIndex, read32, hbase, BitVec.toNat_ofNat]
      have hload := load_lt m (sectionAddress out (secs.length - 1) + 0x10) 4
      rw [h.base_entry_index _ (by omega)] at hload ⊢
      omega
    have hadd := entryStart_add secs (i := secs.length - 1) (by omega)
    rw [Nat.sub_add_cancel hlt, entryStart_length, ← h.total] at hadd
    have hvalue : (s.m_entry_count -
        ResSection.baseEntryIndex m (s.section_array (s.m_section_count - 1))).toNat =
          entryLength secs (secs.length - 1) := by
      rw [BitVec.toNat_sub, hread]
      have := s.m_entry_count.isLt
      omega
    rw [if_pos hpos, write32, haddress] at hm₁
    subst hm₁
    constructor
    · intro b hb
      unfold sectionAddress at *
      exact store_apply_of_ne _ _ _ _ _ (by omega)
    · intro i hi
      obtain rfl : i = secs.length - 1 := by omega
      rw [← hvalue]
      exact load_store_toNat _ _ _ _ rfl
  · rw [if_neg hpos] at hm₁
    subst hm₁
    constructor
    · intro b _
      rfl
    · intro i hi
      rw [BitVec.lt_def, hzero, hcount] at hpos
      omega

include hfit in
theorem Wrote.startSection_eq (h : Wrote out max_sections max_entries m₀ s m secs)
    (hroom : secs.length < max_sections.toNat) (region_offset region_size : BitVec 32) :
    ∃ m', s.StartSection m region_offset region_size =
        .ok ({ s with m_section_count := s.m_section_count + 1 }, m') ∧
      (∀ b, b < out.toNat + 0x10 ∨ b + 4 < sectionAddress out secs.length ∨
        sectionAddress out secs.length + 0x14 ≤ b → m' b = m b) ∧
      load m' (sectionAddress out secs.length + 0x10) 4 = (secs.flatMap Section.entries).length ∧
      ∀ i, i + 1 = secs.length → load m' (sectionAddress out i + 0x14) 4 = entryLength secs i := by
  have hcount := h.section_count
  have haddress : ∀ k < 0x18, (s.section_array s.m_section_count + BitVec.ofNat 64 k).toNat =
      sectionAddress out secs.length + k := by
    intro k hk
    rw [h.section_array_toNat hfit (by omega) k hk, hcount]
  have h0 : (s.section_array s.m_section_count).toNat = sectionAddress out secs.length := by
    have h0 := haddress 0 (by omega)
    rw [BitVec.add_zero] at h0
    exact h0
  have h8 : (s.section_array s.m_section_count + 0x8).toNat =
      sectionAddress out secs.length + 0x8 := haddress 0x8 (by omega)
  have hc : (s.section_array s.m_section_count + 0xc).toNat =
      sectionAddress out secs.length + 0xc := haddress 0xc (by omega)
  have h10 : (s.section_array s.m_section_count + 0x10).toNat =
      sectionAddress out secs.length + 0x10 := haddress 0x10 (by omega)
  have hne : s.m_section_count ≠ s.m_section_max := by
    intro heq
    rw [h.section_max] at heq
    rw [heq] at hcount
    omega
  obtain ⟨hfront, hlast⟩ := h.lastSection hfit hroom rfl
  have hfirst : out.toNat + 0x10 ≤ sectionAddress out secs.length := Nat.le_add_right _ _
  unfold StartSection
  rw [if_neg hne]
  refine ⟨_, rfl, ?_, ?_, ?_⟩
  · intro b hb
    rw [write32, h10, store_apply_of_ne _ _ _ _ _ (by omega), write32, hc,
      store_apply_of_ne _ _ _ _ _ (by omega), write32, h8, store_apply_of_ne _ _ _ _ _ (by omega),
      write64, h0, store_apply_of_ne _ _ _ _ _ (by omega)]
    exact hfront b (by omega)
  · rw [write32, h10, load_store_toNat _ _ _ _ rfl, h.total]
  · intro i hi
    rw [← hlast i hi]
    apply load_congr
    intro b hlo hhi
    have hend : sectionAddress out i + 0x18 = sectionAddress out secs.length := by
      unfold sectionAddress
      omega
    rw [write32, h10, store_apply_of_ne _ _ _ _ _ (by omega), write32, hc,
      store_apply_of_ne _ _ _ _ _ (by omega), write32, h8, store_apply_of_ne _ _ _ _ _ (by omega),
      write64, h0, store_apply_of_ne _ _ _ _ _ (by omega)]

include hfit in
theorem Wrote.startSection (h : Wrote out max_sections max_entries m₀ s m secs)
    (hroom : secs.length < max_sections.toNat) (region_offset region_size : BitVec 32) :
    ∃ s' m', s.StartSection m region_offset region_size = .ok (s', m') ∧
      Wrote out max_sections max_entries m₀ s' m' (secs ++ [⟨region_offset, region_size, []⟩]) := by
  obtain ⟨m', heq, hframe, hbase, hlast⟩ := h.startSection_eq hfit hroom region_offset region_size
  refine ⟨_, m', heq, ?_⟩
  have hentries : (secs ++ [Section.mk region_offset region_size []]).flatMap Section.entries =
      secs.flatMap Section.entries := by
    rw [List.flatMap_append, List.flatMap_singleton, List.append_nil]
  have hsection : ∀ i < secs.length, sectionAddress out i + 0x18 ≤ sectionAddress out secs.length := by
    intro i hi
    unfold sectionAddress
    omega
  have hsections : sectionAddress out secs.length + 0x18 ≤ entryAddress out max_sections 0 := by
    unfold sectionAddress entryAddress
    omega
  constructor
  · exact h.section_array
  · exact h.entry_array
  · exact h.section_max
  · exact h.entry_max
  · have hone : (1 : BitVec 32).toNat = 1 := rfl
    have hcount := h.section_count
    have hmax := max_sections.isLt
    rw [BitVec.toNat_add, hone, hcount, List.length_append, List.length_singleton]
    omega
  · rw [hentries]
    exact h.total
  · rw [List.length_append, List.length_singleton]
    omega
  · rw [hentries]
    exact h.entries
  · intro i hi
    rw [List.length_append, List.length_singleton] at hi
    rw [entryStart_append _ _ (by omega)]
    by_cases hi' : i = secs.length
    · subst hi'
      rw [hbase, entryStart_length]
    · have hend := hsection i (by omega)
      rw [← h.base_entry_index i (by omega)]
      exact load_congr fun b hlo hhi => hframe b (by omega)
  · intro i hi
    rw [List.length_append, List.length_singleton] at hi
    rw [entryLength_append _ _ (by omega)]
    by_cases hi' : i + 1 = secs.length
    · exact hlast i hi'
    · have hend : sectionAddress out i + 0x30 ≤ sectionAddress out secs.length := by
        unfold sectionAddress
        omega
      rw [← h.entry_count i (by omega)]
      exact load_congr fun b hlo hhi => hframe b (by omega)
  · intro k entry hk
    rw [hentries] at hk
    have hstart : entryAddress out max_sections 0 ≤ entryAddress out max_sections k := by
      unfold entryAddress
      omega
    exact (h.entry k entry hk).congr fun b hlo hhi => hframe b (by omega)
  · intro b hb
    have hnext : sectionAddress out (secs.length + 1) = sectionAddress out secs.length + 0x18 := by
      unfold sectionAddress
      omega
    have hend : entryAddress out max_sections 0 ≤
        entryAddress out max_sections max_entries.toNat := by
      unfold entryAddress
      omega
    rw [List.length_append, List.length_singleton, hnext] at hb
    rw [hframe b (by omega), h.other b (by omega)]

include hfit in
theorem Wrote.addEntry_eq (h : Wrote out max_sections max_entries m₀ s m secs)
    (hroom : (secs.flatMap Section.entries).length < max_entries.toNat) (entry : Entry) :
    ∃ m', s.AddEntry m entry = .ok ({ s with m_entry_count := s.m_entry_count + 1 }, m') ∧
      (∀ b, b < entryAddress out max_sections (secs.flatMap Section.entries).length ∨
        entryAddress out max_sections (secs.flatMap Section.entries).length + 8 ≤ b → m' b = m b) ∧
      EntryAt m' (entryAddress out max_sections (secs.flatMap Section.entries).length) entry := by
  have htotal := h.total
  generalize hn : (secs.flatMap Section.entries).length = n at *
  have haddress : ∀ k < 8, (s.entry_array s.m_entry_count + BitVec.ofNat 64 k).toNat =
      entryAddress out max_sections n + k := by
    intro k hk
    rw [h.entry_array_toNat hfit (by omega) k hk, htotal]
  have h0 : (s.entry_array s.m_entry_count).toNat = entryAddress out max_sections n := by
    have h0 := haddress 0 (by omega)
    rw [BitVec.add_zero] at h0
    exact h0
  have h4 : (s.entry_array s.m_entry_count + 0x4).toNat = entryAddress out max_sections n + 4 :=
    haddress 4 (by omega)
  have h6 : (s.entry_array s.m_entry_count + 0x6).toNat = entryAddress out max_sections n + 6 :=
    haddress 6 (by omega)
  have h7 : (s.entry_array s.m_entry_count + 0x7).toNat = entryAddress out max_sections n + 7 :=
    haddress 7 (by omega)
  have hne : s.m_entry_count ≠ s.m_entry_max := by
    intro heq
    rw [h.entry_max] at heq
    rw [heq] at htotal
    omega
  unfold AddEntry
  rw [if_neg hne]
  refine ⟨_, rfl, ?_, ?_, ?_, ?_, ?_⟩
  · intro b hb
    rw [write8, h7, store_apply_of_ne _ _ _ _ _ (by omega), write8, h6,
      store_apply_of_ne _ _ _ _ _ (by omega), write16, h4, store_apply_of_ne _ _ _ _ _ (by omega),
      write32, h0, store_apply_of_ne _ _ _ _ _ (by omega)]
  · rw [write8, h7, load_store_of_disjoint _ _ _ _ _ _ (by omega), write8, h6,
      load_store_of_disjoint _ _ _ _ _ _ (by omega), write16, h4,
      load_store_of_disjoint _ _ _ _ _ _ (by omega), write32, h0]
    exact load_store_toNat _ _ _ _ rfl
  · rw [write8, h7, load_store_of_disjoint _ _ _ _ _ _ (by omega), write8, h6,
      load_store_of_disjoint _ _ _ _ _ _ (by omega), write16, h4]
    exact load_store_toNat _ _ _ _ rfl
  · rw [write8, h7, load_store_of_disjoint _ _ _ _ _ _ (by omega), write8, h6]
    exact load_store_toNat _ _ _ _ rfl
  · rw [write8, h7]
    exact load_store_toNat _ _ _ _ rfl

include hfit in
theorem Wrote.addEntry {sec : Section}
    (h : Wrote out max_sections max_entries m₀ s m (secs ++ [sec]))
    (hroom : ((secs ++ [sec]).flatMap Section.entries).length < max_entries.toNat) (entry : Entry) :
    ∃ s' m', s.AddEntry m entry = .ok (s', m') ∧ Wrote out max_sections max_entries m₀ s' m'
      (secs ++ [{ sec with entries := sec.entries ++ [entry] }]) := by
  obtain ⟨m', heq, hframe, hentry⟩ := h.addEntry_eq hfit hroom entry
  refine ⟨_, m', heq, ?_⟩
  have hentries : (secs ++ [{ sec with entries := sec.entries ++ [entry] }]).flatMap
      Section.entries = (secs ++ [sec]).flatMap Section.entries ++ [entry] := by
    rw [List.flatMap_append, List.flatMap_append, List.flatMap_singleton, List.flatMap_singleton,
      List.append_assoc]
  have hsections := h.sections
  have hlength : (secs ++ [{ sec with entries := sec.entries ++ [entry] }]).length =
      (secs ++ [sec]).length := by
    rw [List.length_append, List.length_append, List.length_singleton, List.length_singleton]
  have hlen : (secs ++ [sec]).length = secs.length + 1 := by
    rw [List.length_append, List.length_singleton]
  have hfront : ∀ i < secs.length + 1, sectionAddress out i + 0x18 ≤
      entryAddress out max_sections ((secs ++ [sec]).flatMap Section.entries).length := by
    intro i hi
    unfold sectionAddress entryAddress
    omega
  constructor
  · exact h.section_array
  · exact h.entry_array
  · exact h.section_max
  · exact h.entry_max
  · rw [hlength]
    exact h.section_count
  · have hone : (1 : BitVec 32).toNat = 1 := rfl
    have htotal := h.total
    have hmax := max_entries.isLt
    rw [hentries, BitVec.toNat_add, hone, htotal, List.length_append, List.length_singleton]
    omega
  · rw [hlength]
    exact hsections
  · rw [hentries, List.length_append, List.length_singleton]
    exact hroom
  · intro i hi
    rw [hlength] at hi
    have hend := hfront i (by omega)
    have hbase := h.base_entry_index i hi
    rw [entryStart_append _ _ (by omega)] at hbase ⊢
    rw [← hbase]
    exact load_congr fun b hlo hhi => hframe b (by omega)
  · intro i hi
    rw [hlength] at hi
    have hend := hfront i (by omega)
    have hcount := h.entry_count i hi
    rw [entryLength_append _ _ (by omega)] at hcount ⊢
    rw [← hcount]
    exact load_congr fun b hlo hhi => hframe b (by omega)
  · intro k e hk
    rw [hentries, List.getElem?_append] at hk
    split at hk
    · rename_i hlt
      have hend : entryAddress out max_sections k + 8 ≤
          entryAddress out max_sections ((secs ++ [sec]).flatMap Section.entries).length := by
        unfold entryAddress
        omega
      exact (h.entry k e hk).congr fun b hlo hhi => hframe b (by omega)
    · rename_i hge
      obtain ⟨hlt, he⟩ := List.getElem?_eq_some_iff.mp hk
      rw [List.length_singleton] at hlt
      rw [List.getElem_singleton] at he
      obtain rfl : k = ((secs ++ [sec]).flatMap Section.entries).length := by omega
      rw [← he]
      exact hentry
  · intro b hb
    rw [hlength] at hb
    have hstart : entryAddress out max_sections 0 ≤
        entryAddress out max_sections ((secs ++ [sec]).flatMap Section.entries).length := by
      unfold entryAddress
      omega
    have hend : entryAddress out max_sections ((secs ++ [sec]).flatMap Section.entries).length + 8 ≤
        entryAddress out max_sections max_entries.toNat := by
      unfold entryAddress
      omega
    have hfirst : out.toNat + 0x10 ≤ entryAddress out max_sections 0 := by
      unfold entryAddress
      omega
    rw [hframe b (by omega), h.other b hb]

include hfit in
theorem Wrote.addEntries {sec : Section} {entries : List Entry}
    (h : Wrote out max_sections max_entries m₀ s m (secs ++ [sec]))
    (hroom : ((secs ++ [sec]).flatMap Section.entries).length + entries.length ≤ max_entries.toNat) :
    ∃ s' m', s.addEntries m entries = .ok (s', m') ∧ Wrote out max_sections max_entries m₀ s' m'
      (secs ++ [{ sec with entries := sec.entries ++ entries }]) := by
  induction entries generalizing s m sec with
  | nil =>
    rw [List.append_nil]
    exact ⟨s, m, rfl, h⟩
  | cons entry entries ih =>
    rw [List.length_cons] at hroom
    obtain ⟨s₁, m₁, heq, h₁⟩ := h.addEntry hfit (by omega) entry
    have hlength : ((secs ++ [{ sec with entries := sec.entries ++ [entry] }]).flatMap
        Section.entries).length = ((secs ++ [sec]).flatMap Section.entries).length + 1 := by
      simp only [List.flatMap_append, List.flatMap_singleton, List.length_append,
        List.length_singleton]
      omega
    obtain ⟨s', m', heq', h'⟩ := ih h₁ (by omega)
    refine ⟨s', m', ?_, ?_⟩
    · rw [NintendoWareRelocationTableStream.addEntries, heq]
      exact heq'
    · rw [List.append_assoc] at h'
      exact h'

include hfit in
theorem Wrote.addSections {more : List Section}
    (h : Wrote out max_sections max_entries m₀ s m secs)
    (hsections : secs.length + more.length ≤ max_sections.toNat)
    (hentries : ((secs ++ more).flatMap Section.entries).length ≤ max_entries.toNat) :
    ∃ s' m', s.addSections m more = .ok (s', m') ∧
      Wrote out max_sections max_entries m₀ s' m' (secs ++ more) := by
  induction more generalizing s m secs with
  | nil =>
    rw [List.append_nil]
    exact ⟨s, m, rfl, h⟩
  | cons sec more ih =>
    rw [List.length_cons] at hsections
    obtain ⟨s₁, m₁, heq₁, h₁⟩ := h.startSection hfit (by omega) sec.region_offset sec.region_size
    have hsplit : secs ++ sec :: more = (secs ++ [sec]) ++ more := by
      rw [List.append_assoc, List.singleton_append]
    rw [hsplit] at hentries
    have hroom : ((secs ++ [Section.mk sec.region_offset sec.region_size []]).flatMap
        Section.entries).length + sec.entries.length ≤ max_entries.toNat := by
      simp only [List.flatMap_append, List.flatMap_singleton, List.length_append,
        List.length_nil] at hentries ⊢
      omega
    obtain ⟨s₂, m₂, heq₂, h₂⟩ := h₁.addEntries hfit hroom
    change Wrote out max_sections max_entries m₀ s₂ m₂ (secs ++ [sec]) at h₂
    have hlength : (secs ++ [sec]).length = secs.length + 1 := by
      rw [List.length_append, List.length_singleton]
    obtain ⟨s', m', heq, h'⟩ := ih h₂ (by omega) hentries
    refine ⟨s', m', ?_, ?_⟩
    · rw [NintendoWareRelocationTableStream.addSections, heq₁]
      change (s₁.addEntries m₁ sec.entries >>= fun r => r.1.addSections r.2 more) = _
      rw [heq₂]
      exact heq
    · rw [hsplit]
      exact h'

end Steps

end Awn.Relocation
