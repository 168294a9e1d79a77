import Awn.Relocation.Table

namespace Awn.Relocation

open Memory ResNintendoWareRelocationTable

theorem toNat_add_of_lt (p q : Ptr) (h : p.toNat + q.toNat < 2 ^ 64) : (p + q).toNat = p.toNat + q.toNat := by
  rw [BitVec.toNat_add, Nat.mod_eq_of_lt h]

theorem getSection_toNat {this : Ptr} {i : ℕ} (hi : i < 2 ^ 31)
    (h : this.toNat + (0x10 + 0x18 * i) < 2 ^ 64) :
    (getSection this (BitVec.ofNat 32 i)).toNat = this.toNat + (0x10 + 0x18 * i) := by
  have hmsb : (BitVec.ofNat 32 i).msb = false := by
    rw [BitVec.msb_eq_false_iff_two_mul_lt, BitVec.toNat_ofNat, Nat.mod_eq_of_lt (by omega)]
    omega
  have hmod : i % 2 ^ 32 % 2 ^ 64 = i := by omega
  rw [getSection, BitVec.signExtend_eq_setWidth_of_msb_false hmsb]
  simp only [BitVec.toNat_add, BitVec.toNat_mul, BitVec.toNat_setWidth, BitVec.ofNat_eq_ofNat,
    BitVec.toNat_ofNat, hmod]
  omega

theorem getEntryTableOffset_toNat (m : Bytes) (this : Ptr) :
    (getEntryTableOffset m this).toNat = 0x10 + 0x18 * (sectionCount m this).toNat := by
  have hlt := (sectionCount m this).isLt
  rw [getEntryTableOffset]
  simp only [BitVec.toNat_add, BitVec.toNat_mul, BitVec.toNat_setWidth, BitVec.ofNat_eq_ofNat,
    BitVec.toNat_ofNat]
  omega

theorem getEntry_toNat {m : Bytes} {this : Ptr} {e : ℕ}
    (h : this.toNat + (0x10 + 0x18 * (sectionCount m this).toNat + 8 * e) < 2 ^ 64) :
    (getEntry this (getEntryTableOffset m this) e).toNat =
      this.toNat + (0x10 + 0x18 * (sectionCount m this).toNat + 8 * e) := by
  have hoff := getEntryTableOffset_toNat m this
  rw [getEntry]
  simp only [BitVec.toNat_add, BitVec.toNat_mul, BitVec.ofNat_eq_ofNat, BitVec.toNat_ofNat, hoff]
  omega

section Reads

variable {m m' : Bytes} {this : Ptr} {size : ℕ}

theorem SameTable.read64 (h : SameTable m this size m') (p : Ptr) (ha : this.toNat ≤ p.toNat)
    (hn : p.toNat + 8 ≤ this.toNat + size) : read64 m' p = read64 m p := by
  rw [Relocation.read64, Relocation.read64, h.load _ _ ha hn]

theorem SameTable.read32 (h : SameTable m this size m') (p : Ptr) (ha : this.toNat ≤ p.toNat)
    (hn : p.toNat + 4 ≤ this.toNat + size) : read32 m' p = read32 m p := by
  rw [Relocation.read32, Relocation.read32, h.load _ _ ha hn]

theorem SameTable.read16 (h : SameTable m this size m') (p : Ptr) (ha : this.toNat ≤ p.toNat)
    (hn : p.toNat + 2 ≤ this.toNat + size) : read16 m' p = read16 m p := by
  rw [Relocation.read16, Relocation.read16, h.load _ _ ha hn]

theorem SameTable.read8 (h : SameTable m this size m') (p : Ptr) (ha : this.toNat ≤ p.toNat)
    (hn : p.toNat + 1 ≤ this.toNat + size) : read8 m' p = read8 m p := by
  rw [Relocation.read8, Relocation.read8, h.load _ _ ha hn]

theorem SameTable.header (h : SameTable m this size m') (hw : WellFormed m this size) :
    sectionCount m' this = sectionCount m this ∧ getFileHeader m' this = getFileHeader m this ∧
      getEntryTableOffset m' this = getEntryTableOffset m this := by
  have hsize := hw.sections
  have hin := hw.inside
  have h4 := toNat_add_of_lt this 0x4 (by simp; omega)
  have h8 := toNat_add_of_lt this 0x8 (by simp; omega)
  have hcount : sectionCount m' this = sectionCount m this := by
    apply h.read32
    · rw [h8]
      omega
    · rw [h8]
      simp only [BitVec.ofNat_eq_ofNat, BitVec.toNat_ofNat]
      omega
  have hoffset : offsetFromHeader m' this = offsetFromHeader m this := by
    apply h.read32
    · rw [h4]
      omega
    · rw [h4]
      simp only [BitVec.ofNat_eq_ofNat, BitVec.toNat_ofNat]
      omega
  exact ⟨hcount, by rw [getFileHeader, getFileHeader, hoffset],
    by rw [getEntryTableOffset, getEntryTableOffset, hcount]⟩

theorem SameTable.section (h : SameTable m this size m') (hw : WellFormed m this size) {i : ℕ}
    (hi : i < (sectionCount m this).toNat) (baseFile : Ptr) :
    ResSection.fileBase m' (getSection this (BitVec.ofNat 32 i)) baseFile =
        ResSection.fileBase m (getSection this (BitVec.ofNat 32 i)) baseFile ∧
      ResSection.entryIndices m' (getSection this (BitVec.ofNat 32 i)) =
        ResSection.entryIndices m (getSection this (BitVec.ofNat 32 i)) := by
  have hsize := hw.sections
  have hin := hw.inside
  have hsmall := hw.small
  have hs : (getSection this (BitVec.ofNat 32 i)).toNat = this.toNat + (0x10 + 0x18 * i) :=
    getSection_toNat (by omega) (by omega)
  have hfield : ∀ k : ℕ, k ≤ 0x14 → (getSection this (BitVec.ofNat 32 i) + BitVec.ofNat 64 k).toNat =
      this.toNat + (0x10 + 0x18 * i) + k := by
    intro k hk
    rw [toNat_add_of_lt _ _ (by rw [hs, BitVec.toNat_ofNat]; omega), hs, BitVec.toNat_ofNat]
    omega
  have hread : ∀ k : ℕ, k ≤ 0x14 → Relocation.read32 m'
      (getSection this (BitVec.ofNat 32 i) + BitVec.ofNat 64 k) =
        Relocation.read32 m (getSection this (BitVec.ofNat 32 i) + BitVec.ofNat 64 k) := by
    intro k hk
    apply h.read32
    · rw [hfield k hk]
      omega
    · rw [hfield k hk]
      omega
  have hbase : ResSection.basePointer m' (getSection this (BitVec.ofNat 32 i)) =
      ResSection.basePointer m (getSection this (BitVec.ofNat 32 i)) := by
    apply h.read64
    · omega
    · omega
  have hregion := hread 0x8 (by omega)
  have hindex := hread 0x10 (by omega)
  have hcount := hread 0x14 (by omega)
  constructor
  · rw [ResSection.fileBase, ResSection.fileBase, hbase, ResSection.regionOffset]
    rw [show Relocation.read32 m' (getSection this (BitVec.ofNat 32 i) + 0x8) = _ from hregion]
    rfl
  · rw [ResSection.entryIndices, ResSection.baseEntryIndex, ResSection.entryCount]
    rw [show Relocation.read32 m' (getSection this (BitVec.ofNat 32 i) + 0x10) = _ from hindex,
      show Relocation.read32 m' (getSection this (BitVec.ofNat 32 i) + 0x14) = _ from hcount]
    rfl

theorem SameTable.entry (h : SameTable m this size m') (hw : WellFormed m this size) {i e : ℕ}
    (hi : i < (sectionCount m this).toNat)
    (he : e ∈ ResSection.entryIndices m (getSection this (BitVec.ofNat 32 i))) (baseFile : Ptr) :
    entrySlots m' baseFile (getEntry this (getEntryTableOffset m this) e) =
      entrySlots m baseFile (getEntry this (getEntryTableOffset m this) e) := by
  have hsize := hw.entries i hi e he
  have hin := hw.inside
  have hp : (getEntry this (getEntryTableOffset m this) e).toNat =
      this.toNat + (0x10 + 0x18 * (sectionCount m this).toNat + 8 * e) := getEntry_toNat (by omega)
  have hfield : ∀ k : ℕ, k ≤ 0x7 →
      (getEntry this (getEntryTableOffset m this) e + BitVec.ofNat 64 k).toNat =
        this.toNat + (0x10 + 0x18 * (sectionCount m this).toNat + 8 * e) + k := by
    intro k hk
    rw [toNat_add_of_lt _ _ (by rw [hp, BitVec.toNat_ofNat]; omega), hp, BitVec.toNat_ofNat]
    omega
  have hregion : ResEntry.regionOffset m' (getEntry this (getEntryTableOffset m this) e) =
      ResEntry.regionOffset m (getEntry this (getEntryTableOffset m this) e) :=
    h.read32 _ (by omega) (by omega)
  have hcount : ResEntry.arrayCount m' (getEntry this (getEntryTableOffset m this) e) =
      ResEntry.arrayCount m (getEntry this (getEntryTableOffset m this) e) := by
    have h4 := hfield 0x4 (by omega)
    exact h.read16 (_ + BitVec.ofNat 64 0x4) (by rw [h4]; omega) (by rw [h4]; omega)
  have hreloc : ResEntry.relocationCount m' (getEntry this (getEntryTableOffset m this) e) =
      ResEntry.relocationCount m (getEntry this (getEntryTableOffset m this) e) := by
    have h6 := hfield 0x6 (by omega)
    exact h.read8 (_ + BitVec.ofNat 64 0x6) (by rw [h6]; omega) (by rw [h6]; omega)
  have hstride : ResEntry.arrayStride m' (getEntry this (getEntryTableOffset m this) e) =
      ResEntry.arrayStride m (getEntry this (getEntryTableOffset m this) e) := by
    have h7 := hfield 0x7 (by omega)
    exact h.read8 (_ + BitVec.ofNat 64 0x7) (by rw [h7]; omega) (by rw [h7]; omega)
  rw [entrySlots, entrySlots, hregion, hcount, hreloc, hstride]

end Reads

theorem foldl_flatMap_of_invariant {ι σ α : Type} (P : α → Prop) (l : List ι) (body : α → ι → α)
    (g : ι → List σ) (step : α → σ → α) (hbody : ∀ i ∈ l, ∀ a, P a → body a i = (g i).foldl step a)
    (hstep : ∀ i ∈ l, ∀ s ∈ g i, ∀ a, P a → P (step a s)) (a : α) (ha : P a) :
    l.foldl body a = (l.flatMap g).foldl step a ∧ P ((l.flatMap g).foldl step a) := by
  have hrun : ∀ (ss : List σ) (a : α), (∀ s ∈ ss, ∀ a, P a → P (step a s)) → P a → P (ss.foldl step a) := by
    intro ss
    induction ss with
    | nil => exact fun a _ ha => ha
    | cons s ss ih =>
      intro a hs ha
      exact ih (step a s) (fun t ht => hs t (List.mem_cons_of_mem s ht)) (hs s List.mem_cons_self a ha)
  induction l generalizing a with
  | nil => exact ⟨rfl, ha⟩
  | cons i l ih =>
    have hi := hbody i List.mem_cons_self a ha
    have hpi := hrun (g i) a (hstep i List.mem_cons_self) ha
    obtain ⟨hl, hp⟩ := ih (fun j hj => hbody j (List.mem_cons_of_mem i hj))
      (fun j hj => hstep j (List.mem_cons_of_mem i hj)) ((g i).foldl step a) hpi
    rw [List.foldl_cons, hi, hl, List.flatMap_cons, List.foldl_append]
    exact ⟨rfl, hp⟩

def Local (slot : Ptr → Bytes → Ptr → Bytes) : Prop :=
  ∀ base m p b, b < p.toNat ∨ p.toNat + 8 ≤ b → slot base m p b = m b

theorem relocateSlot_local : Local relocateSlot :=
  fun _ m _ _ h => store_apply_of_ne m _ _ _ _ h

theorem unrelocateSlot_local : Local unrelocateSlot :=
  fun _ m _ _ h => store_apply_of_ne m _ _ _ _ h

theorem Local.sameTable {slot : Ptr → Bytes → Ptr → Bytes} (hl : Local slot) {m m' : Bytes}
    {this : Ptr} {size : ℕ} (h : SameTable m this size m') (s : Ptr × Ptr)
    (hs : s.2.toNat + 8 ≤ this.toNat ∨ this.toNat + size ≤ s.2.toNat) :
    SameTable m this size (slot s.1 m' s.2) := by
  intro b hb hn
  rw [hl s.1 m' s.2 b (by omega), h b hb hn]

theorem walk_eq {slot : Ptr → Bytes → Ptr → Bytes} (hl : Local slot) {m m' : Bytes} {this : Ptr}
    {size : ℕ} (hw : WellFormed m this size) (h : SameTable m this size m') :
    walk slot m' this = (slots m this).foldl (fun m s => slot s.1 m s.2) m' ∧
      SameTable m this size ((slots m this).foldl (fun m s => slot s.1 m s.2) m') := by
  obtain ⟨hcount, hheader, htable⟩ := h.header hw
  have hslots : ∀ i < (sectionCount m this).toNat, ∀ s ∈ sectionSlots m this (getFileHeader m this)
      (getEntryTableOffset m this) i, s ∈ slots m this := by
    intro i hi s hs
    exact List.mem_flatMap.mpr ⟨i, List.mem_range.mpr hi, hs⟩
  have hsection : ∀ i < (sectionCount m this).toNat, ∀ a, SameTable m this size a →
      walkSection slot this (getFileHeader m this) (getEntryTableOffset m this) a i =
        (sectionSlots m this (getFileHeader m this) (getEntryTableOffset m this) i).foldl
          (fun m s => slot s.1 m s.2) a := by
    intro i hi a ha
    obtain ⟨hbase, hindices⟩ := ha.section hw hi (getFileHeader m this)
    rw [walkSection, hbase, hindices]
    apply (foldl_flatMap_of_invariant (SameTable m this size) _ _ _ _ _ _ a ha).1
    · intro e he a ha
      rw [walkEntry_eq, ha.entry hw hi he, List.foldl_map]
    · intro e he s hs a ha
      exact hl.sameTable ha s (hw.apart s (hslots i hi s (List.mem_flatMap.mpr ⟨e, he, hs⟩)))
  rw [walk, hcount, hheader, htable]
  apply foldl_flatMap_of_invariant (SameTable m this size) _ _ _ _ _ _ m' h
  · intro i hi a ha
    exact hsection i (List.mem_range.mp hi) a ha
  · intro i hi s hs a ha
    exact hl.sameTable ha s (hw.apart s (hslots i (List.mem_range.mp hi) s hs))

end Awn.Relocation
