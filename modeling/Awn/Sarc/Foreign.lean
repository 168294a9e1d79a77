import Awn.Sarc.SwapEndian

namespace Awn.Sarc

open Memory

structure Foreign (m : Bytes) (sarc : BitVec 64) : Prop where
  accepted : (Initialize m sarc).isSome = true
  reverse : IsReverseEndian m sarc = true
  user : sarc.toNat ≤ 2 ^ 63

def archiveFields (a count : ℕ) : List (ℕ × ℕ) :=
  [(a, 4), (a + 0x4, 2), (a + 0x6, 2), (a + 0x8, 4), (a + 0xc, 4), (a + 0x10, 2)] ++
  [(a + 0x14, 4), (a + 0x18, 2), (a + 0x1a, 2), (a + 0x1c, 4)] ++
  (List.range count).flatMap (fun k =>
    [(a + 0x20 + 0x10 * k, 4), (a + 0x20 + 0x10 * k + 0x4, 4), (a + 0x20 + 0x10 * k + 0x8, 4),
      (a + 0x20 + 0x10 * k + 0xc, 4)]) ++
  [(a + 0x20 + 0x10 * count, 4), (a + 0x20 + 0x10 * count + 0x4, 2)]

structure WrittenNatively (m m' : Bytes) (a count : ℕ) : Prop where
  fields : ∀ f ∈ archiveFields a count, load m' f.1 f.2 = swapValue f.2 (load m f.1 f.2)
  other : ∀ b, (∀ f ∈ archiveFields a count, b < f.1 ∨ f.1 + f.2 ≤ b) → m' b = m b

def foreignCount (m : Bytes) (sarc : BitVec 64) : ℕ := swapValue 2 (load m (sarc.toNat + 0x1a) 2)

def SarcExtractor.fileAt (m : Bytes) (e : SarcExtractor) (entry_index : BitVec 32) :
    Option (List (BitVec 8) × BitVec 32) :=
  (e.TryGetFileByIndex m entry_index).map fun file =>
    (bytesAt m file.1.toNat file.2.toNat, file.2)

def SarcExtractor.pathAt (m : Bytes) (e : SarcExtractor) (entry_index : BitVec 32) :
    Option (List (BitVec 8) → Bool) :=
  (e.TryGetPathByEntryIndex m entry_index).map fun path => stringAt m path.toNat

def SameLookups (m m' : Bytes) (sarc : BitVec 64) : Prop :=
  ∀ e', Initialize m' sarc = some e' → ∃ e, Initialize m sarc = some e ∧
    (∀ i, e.fileAt m i = e'.fileAt m' i) ∧ (∀ i, e.pathAt m i = e'.pathAt m' i) ∧
      ∀ fuel path, e.TryGetEntryIndexByPath m fuel path = e'.TryGetEntryIndexByPath m' fuel path

theorem read16_swap {m m' : Bytes} {a : BitVec 64}
    (h : load m' a.toNat 2 = swapValue 2 (load m a.toNat 2)) :
    read16 m' a = swapEndian16 (read16 m a) := by
  rw [read16, h, swapValue, if_pos rfl, BitVec.ofNat_toNat, BitVec.setWidth_eq]
  rfl

theorem read32_swap {m m' : Bytes} {a : BitVec 64}
    (h : load m' a.toNat 4 = swapValue 4 (load m a.toNat 4)) :
    read32 m' a = swapEndian32 (read32 m a) := by
  rw [read32, h, swapValue, if_neg (by decide), BitVec.ofNat_toNat, BitVec.setWidth_eq]
  rfl

theorem Initialize_isSome_iff {m : Bytes} {sarc : BitVec 64} :
    (Initialize m sarc).isSome = true ↔ sarc ≠ 0 ∧ sarcIsValid m sarc = true ∧
      sfatIsValid m (sarc + 0x14) (IsReverseEndian m sarc) = true ∧
      sfntIsValid m (sarc + 0x14 + 0xc + 0x10 * (native16 (IsReverseEndian m sarc)
        (read16 m (sarc + 0x14 + 0x6))).setWidth 64) (IsReverseEndian m sarc) = true := by
  rw [Initialize]
  by_cases hnull : sarc = 0
  · simp [hnull]
  simp only [if_neg hnull]
  cases sarcIsValid m sarc with
  | false => simp
  | true =>
    cases sfatIsValid m (sarc + 0x14) (IsReverseEndian m sarc) with
    | false => simp
    | true =>
      cases sfntIsValid m (sarc + 0x14 + 0xc + 0x10 * (native16 (IsReverseEndian m sarc)
          (read16 m (sarc + 0x14 + 0x6))).setWidth 64) (IsReverseEndian m sarc) with
      | false => simp
      | true =>
        have hne : sarc ≠ 0#64 := hnull
        simp [hne]

section Addresses

variable {m m' : Bytes} {sarc : BitVec 64} (h : Foreign m sarc)
include h

theorem Foreign.field_toNat {o : ℕ} (ho : o < 2 ^ 62) :
    (sarc + BitVec.ofNat 64 o).toNat = sarc.toNat + o := by
  have := h.user
  exact add_ofNat_toNat (by omega)

theorem Foreign.sfnt_toNat :
    (sarc + 0x14 + 0xc + 0x10 * (swapEndian16 (read16 m (sarc + 0x14 + 0x6))).setWidth 64).toNat =
      sarc.toNat + 0x20 + 0x10 * foreignCount m sarc := by
  have huser := h.user
  have haddr : (sarc + 0x14 + 0x6).toNat = sarc.toNat + 0x1a := by
    rw [BitVec.add_assoc]
    exact h.field_toNat (o := 0x1a) (by decide)
  have hcount : (swapEndian16 (read16 m (sarc + 0x14 + 0x6))).toNat = foreignCount m sarc := by
    rw [foreignCount, swapValue, if_pos rfl, read16, haddr]
  have hlt := (swapEndian16 (read16 m (sarc + 0x14 + 0x6))).isLt
  rw [← hcount]
  simp only [BitVec.toNat_add, BitVec.toNat_mul, BitVec.toNat_setWidth, BitVec.toNat_ofNat,
    BitVec.ofNat_eq_ofNat]
  simp only [BitVec.ofNat_eq_ofNat] at hlt
  omega

theorem Foreign.valid : sfatIsValid m (sarc + 0x14) true = true ∧
    sfntIsValid m (sarc + 0x14 + 0xc + 0x10 * (swapEndian16
      (read16 m (sarc + 0x14 + 0x6))).setWidth 64) true = true := by
  have hvalid := (Initialize_isSome_iff.mp h.accepted).2.2
  rw [h.reverse] at hvalid
  exact hvalid

theorem Foreign.sfat_magic : swapValue 4 (load m (sarc.toNat + 0x14) 4) = sfatMagic := by
  have hvalid := h.valid.1
  simp only [sfatIsValid, Bool.and_eq_true, beq_iff_eq, native32] at hvalid
  have hmagic := congrArg BitVec.toNat hvalid.1.1
  have haddr : (sarc + 0x14).toNat = sarc.toNat + 0x14 := h.field_toNat (o := 0x14) (by decide)
  rw [if_neg (by decide), read32, haddr] at hmagic
  rw [swapValue, if_neg (by decide), hmagic]
  rfl

theorem Foreign.sfnt_magic :
    swapValue 4 (load m (sarc.toNat + 0x20 + 0x10 * foreignCount m sarc) 4) = sfntMagic := by
  have hvalid := h.valid.2
  simp only [sfntIsValid, Bool.and_eq_true, beq_iff_eq, native32] at hvalid
  have hmagic := congrArg BitVec.toNat hvalid.1
  rw [if_neg (by decide), read32, h.sfnt_toNat] at hmagic
  rw [swapValue, if_neg (by decide), hmagic]
  rfl

theorem Foreign.swapped : Swapped m (SwapEndian m sarc) sarc.toNat (foreignCount m sarc) :=
  SwapEndian_swapped h.user

theorem Foreign.sfnt_magic_swapped :
    load (SwapEndian m sarc) (sarc.toNat + 0x20 + 0x10 * foreignCount m sarc) 4 =
      swapValue 4 sfatMagic := by
  rw [h.swapped.sfnt_magic, h.swapped.sfat_magic, h.sfat_magic]

theorem Foreign.endianess_swapped : IsReverseEndian (SwapEndian m sarc) sarc = false := by
  have haddr : (sarc + 0x6).toNat = sarc.toNat + 0x6 := h.field_toNat (o := 0x6) (by decide)
  have hreverse := h.reverse
  rw [IsReverseEndian, beq_iff_eq] at hreverse
  have hswap : read16 (SwapEndian m sarc) (sarc + 0x6) = swapEndian16 (read16 m (sarc + 0x6)) := by
    apply read16_swap
    rw [haddr]
    exact h.swapped.endianess
  rw [IsReverseEndian, hswap, hreverse]
  decide

theorem Foreign.Initialize_SwapEndian : Initialize (SwapEndian m sarc) sarc = none := by
  by_contra hsome
  have hvalid := (Initialize_isSome_iff.mp (Option.isSome_iff_ne_none.mpr hsome)).2.2.2
  have haddr : (sarc + 0x14 + 0x6).toNat = sarc.toNat + 0x1a := by
    rw [BitVec.add_assoc]
    exact h.field_toNat (o := 0x1a) (by decide)
  have hcount : read16 (SwapEndian m sarc) (sarc + 0x14 + 0x6) =
      swapEndian16 (read16 m (sarc + 0x14 + 0x6)) := by
    apply read16_swap
    rw [haddr]
    exact h.swapped.file_count
  rw [h.endianess_swapped] at hvalid
  simp only [native16, if_true, hcount, sfntIsValid, Bool.and_eq_true, beq_iff_eq, native32] at hvalid
  have hmagic := hvalid.1
  rw [read32, h.sfnt_toNat, h.sfnt_magic_swapped] at hmagic
  exact absurd hmagic (by decide)

theorem Foreign.Initialize_written (hw : WrittenNatively m m' sarc.toNat (foreignCount m sarc)) :
    Initialize m' sarc = Initialize m sarc := by
  have hreverse := h.reverse
  have h16 : ∀ a : BitVec 64, (a.toNat, 2) ∈ archiveFields sarc.toNat (foreignCount m sarc) →
      read16 m' a = swapEndian16 (read16 m a) :=
    fun a ha => read16_swap (hw.fields _ ha)
  have h32 : ∀ a : BitVec 64, (a.toNat, 4) ∈ archiveFields sarc.toNat (foreignCount m sarc) →
      read32 m' a = swapEndian32 (read32 m a) :=
    fun a ha => read32_swap (hw.fields _ ha)
  have hadd : ∀ o < 2 ^ 62, (sarc + BitVec.ofNat 64 o).toNat = sarc.toNat + o :=
    fun o ho => h.field_toNat ho
  have hsfat : ∀ o < 2 ^ 61, (sarc + 0x14 + BitVec.ofNat 64 o).toNat = sarc.toNat + 0x14 + o := by
    intro o ho
    rw [BitVec.add_assoc, Nat.add_assoc]
    change (sarc + (BitVec.ofNat 64 0x14 + BitVec.ofNat 64 o)).toNat = _
    rw [← BitVec.ofNat_add, hadd _ (by omega)]
  have hreverse' : IsReverseEndian m' sarc = false := by
    rw [IsReverseEndian, beq_iff_eq] at hreverse
    rw [IsReverseEndian, h16 (sarc + 0x6), hreverse]
    · decide
    · change ((sarc + BitVec.ofNat 64 0x6).toNat, 2) ∈ _
      rw [hadd _ (by decide)]
      simp [archiveFields]
  have hmagic : read32 m' sarc = swapEndian32 (read32 m sarc) := by
    apply h32
    simp [archiveFields]
  have hsize : read16 m' (sarc + 0x4) = swapEndian16 (read16 m (sarc + 0x4)) := by
    apply h16
    change ((sarc + BitVec.ofNat 64 0x4).toNat, 2) ∈ _
    rw [hadd _ (by decide)]
    simp [archiveFields]
  have hversion : read16 m' (sarc + 0x10) = swapEndian16 (read16 m (sarc + 0x10)) := by
    apply h16
    change ((sarc + BitVec.ofNat 64 0x10).toNat, 2) ∈ _
    rw [hadd _ (by decide)]
    simp [archiveFields]
  have hregion : read32 m' (sarc + 0xc) = swapEndian32 (read32 m (sarc + 0xc)) := by
    apply h32
    change ((sarc + BitVec.ofNat 64 0xc).toNat, 4) ∈ _
    rw [hadd _ (by decide)]
    simp [archiveFields]
  have hsfatMagic : read32 m' (sarc + 0x14) = swapEndian32 (read32 m (sarc + 0x14)) := by
    apply h32
    change ((sarc + BitVec.ofNat 64 0x14).toNat, 4) ∈ _
    rw [hadd _ (by decide)]
    simp [archiveFields]
  have hsfatSize : read16 m' (sarc + 0x14 + 0x4) = swapEndian16 (read16 m (sarc + 0x14 + 0x4)) := by
    apply h16
    change ((sarc + 0x14 + BitVec.ofNat 64 0x4).toNat, 2) ∈ _
    rw [hsfat _ (by decide)]
    simp [archiveFields]
  have hcount : read16 m' (sarc + 0x14 + 0x6) = swapEndian16 (read16 m (sarc + 0x14 + 0x6)) := by
    apply h16
    change ((sarc + 0x14 + BitVec.ofNat 64 0x6).toNat, 2) ∈ _
    rw [hsfat _ (by decide)]
    simp [archiveFields]
  have hsfnt := h.sfnt_toNat
  generalize hX : sarc + 0x14 + 0xc + 0x10 * (swapEndian16
    (read16 m (sarc + 0x14 + 0x6))).setWidth 64 = sfnt at hsfnt
  have hsfntMagic : read32 m' sfnt = swapEndian32 (read32 m sfnt) := by
    apply h32
    rw [hsfnt]
    simp [archiveFields]
  have hsfntSize : read16 m' (sfnt + 0x4) = swapEndian16 (read16 m (sfnt + 0x4)) := by
    apply h16
    have hlt : foreignCount m sarc < 256 ^ 2 := swapValue_two_lt _
    have huser := h.user
    change ((sfnt + BitVec.ofNat 64 0x4).toNat, 2) ∈ _
    rw [add_ofNat_toNat (by omega), hsfnt]
    simp [archiveFields]
  simp only [Initialize, sarcIsValid, sfatIsValid, sfntIsValid, hreverse', hreverse, native16,
    native32, if_true, Bool.true_eq_false, if_false, hmagic, hsize, hversion, hregion, hsfatMagic,
    hsfatSize, hcount, hX, hsfntMagic, hsfntSize]

end Addresses

/-- No archive that is swapped can be opened, and no archive comes back when it is swapped
twice: the magic of its `sfnt` has become that of its `sfat`. -/
theorem SwapEndian_breaks {m native : Bytes} {sarc : BitVec 64} (h : Foreign m sarc)
    (hw : WrittenNatively m native sarc.toNat (foreignCount m sarc)) :
    ¬SameLookups (SwapEndian m sarc) native sarc ∧ SwapEndian (SwapEndian m sarc) sarc ≠ m := by
  constructor
  · intro hsame
    obtain ⟨e', he'⟩ := Option.isSome_iff_exists.mp h.accepted
    obtain ⟨e, he, -⟩ := hsame e' ((h.Initialize_written hw).trans he')
    rw [h.Initialize_SwapEndian] at he
    cases he
  · intro hback
    have htwice := SwapEndian_swapped (m := SwapEndian m sarc) h.user
    rw [hback] at htwice
    generalize swapValue 2 (load (SwapEndian m sarc) (sarc.toNat + 0x1a) 2) = count at htwice
    have hmagic := h.sfnt_magic
    have hfirst := h.sfnt_magic_swapped
    rcases lt_trichotomy (foreignCount m sarc) count with hlt | heq | hgt
    · rw [htwice.hash _ hlt, hfirst] at hmagic
      exact absurd hmagic (by decide)
    · rw [heq, htwice.sfnt_magic, htwice.sfat_magic, h.swapped.sfat_magic, h.sfat_magic] at hmagic
      exact absurd hmagic (by decide)
    · rw [htwice.behind _ hgt, hfirst] at hmagic
      exact absurd hmagic (by decide)

theorem writtenNatively_swapFields {m : Bytes} {a count : ℕ}
    (hlt : ∀ f ∈ archiveFields a count, f.1 < 2 ^ 64 ∧ (f.2 = 2 ∨ f.2 = 4))
    (hapart : (archiveFields a count).Pairwise fun f g => f.1 + f.2 ≤ g.1 ∨ g.1 + g.2 ≤ f.1) :
    WrittenNatively m (swapFields 0 m (archiveFields a count)) a count := by
  have hzero : (0 : BitVec 64).toNat = 0 := rfl
  constructor
  · intro f hf
    have hwidth : ∀ v, swapValue f.2 v < 256 ^ f.2 := by
      intro v
      rcases (hlt f hf).2 with htwo | hfour
      · rw [htwo]
        exact swapValue_two_lt v
      · rw [hfour]
        exact swapValue_four_lt v
    have hends : ∀ g ∈ archiveFields a count, (0 : BitVec 64).toNat + g.1 < 2 ^ 64 := by
      intro g hg
      have := hlt g hg
      omega
    have := load_swapFields (m := m) hends hapart hf hwidth
    rwa [hzero, Nat.zero_add] at this
  · intro b hb
    apply swapFields_apply_of_disjoint
    intro f hf
    have := hlt f hf
    have := hb f hf
    omega

def foreignBytes : List (BitVec 8) :=
  [0x43, 0x52, 0x41, 0x53, 0x00, 0x14, 0xfe, 0xff, 0x00, 0x00, 0x00, 0x3d, 0x00, 0x00, 0x00, 0x3c,
    0x01, 0x00, 0x00, 0x00, 0x54, 0x41, 0x46, 0x53, 0x00, 0x0c, 0x00, 0x01, 0x00, 0x00, 0x00, 0x65,
    0x00, 0x00, 0x00, 0x61, 0x01, 0x00, 0x00, 0x00, 0x00, 0x00, 0x00, 0x00, 0x00, 0x00, 0x00, 0x01,
    0x54, 0x4e, 0x46, 0x53, 0x00, 0x08, 0x00, 0x00, 0x61, 0x00, 0x00, 0x00, 0x2a]

def foreignMemory : Bytes := fun b => if b < 0x1000 then 0 else foreignBytes.getD (b - 0x1000) 0

theorem foreignMemory_foreign : Foreign foreignMemory 0x1000 where
  accepted := by decide +kernel
  reverse := by decide +kernel
  user := by decide

theorem foreignMemory_written : WrittenNatively foreignMemory
    (swapFields 0 foreignMemory (archiveFields 0x1000 1)) (0x1000 : BitVec 64).toNat
    (foreignCount foreignMemory 0x1000) := by
  have hcount : foreignCount foreignMemory 0x1000 = 1 := by decide +kernel
  rw [hcount]
  exact writtenNatively_swapFields (by decide +kernel) (by decide +kernel)

theorem SwapEndian_breaks_oneFile :
    ¬SameLookups (SwapEndian foreignMemory 0x1000)
        (swapFields 0 foreignMemory (archiveFields 0x1000 1)) 0x1000 ∧
      SwapEndian (SwapEndian foreignMemory 0x1000) 0x1000 ≠ foreignMemory :=
  SwapEndian_breaks foreignMemory_foreign foreignMemory_written

theorem SwapEndian_not_sameLookups : ¬∀ (m native : Bytes) (sarc : BitVec 64), Foreign m sarc →
    WrittenNatively m native sarc.toNat (foreignCount m sarc) →
      SameLookups (SwapEndian m sarc) native sarc ∧ SwapEndian (SwapEndian m sarc) sarc = m := by
  intro hclaim
  obtain ⟨hsame, -⟩ := hclaim foreignMemory _ 0x1000 foreignMemory_foreign foreignMemory_written
  obtain ⟨e, he⟩ := Option.isSome_iff_exists.mp foreignMemory_foreign.accepted
  obtain ⟨e', he', -⟩ := hsame e
    ((foreignMemory_foreign.Initialize_written foreignMemory_written).trans he)
  rw [foreignMemory_foreign.Initialize_SwapEndian] at he'
  cases he'

end Awn.Sarc
