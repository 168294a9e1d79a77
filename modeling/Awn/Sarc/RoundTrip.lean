import Awn.Sarc.Layout
import Awn.Sarc.FileList

namespace Awn.Sarc

open Memory

def Found (m : Bytes) (e : SarcExtractor) (fuel : ℕ) (node : SarcFileNode) (index : BitVec 32) :
    Prop :=
  e.TryGetEntryIndexByPath m fuel node.m_file_path = some index ∧
    (∃ path, e.TryGetPathByEntryIndex m index = some path ∧
      stringAt m path.toNat node.m_file_path = true) ∧
    ∃ file, e.TryGetFileByIndex m index = some (file, node.m_file_size) ∧
      bytesAt m file.toNat node.m_file.length = node.m_file

def RoundTrips (fuel : ℕ) (m : Bytes) (buf : Buffer) (behind : BitVec 32)
    (files : List SarcFileNode) : Prop :=
  ∃ builder m' e, addFiles {} files = .ok builder ∧
    Serialize m buf builder (CalculateMemoryInfo behind builder) = some m' ∧
    Initialize m' buf.start = some e ∧
    (∀ node ∈ files, ∃ index, Found m' e fuel node index) ∧
    ∀ path, NulFree path → path ∉ files.map (·.m_file_path) →
      e.TryGetEntryIndexByPath m' fuel path = some cInvalidEntryIndex

structure Admissible (files : List SarcFileNode) : Prop where
  nulFree : ∀ node ∈ files, NulFree node.m_file_path
  distinct : files.Pairwise fun a b => a.m_file_path ≠ b.m_file_path
  size : ∀ node ∈ files, node.m_file.length < 2 ^ 32
  alignment : ∀ node ∈ files, ∃ k < 32, node.m_file_alignment = BitVec.ofNat 32 (2 ^ k)

theorem AddFile_perm {builder builder' : SarcBuilder} {node : SarcFileNode}
    (h : AddFile builder node = .ok builder') :
    builder'.m_file_list.Perm (node :: builder.m_file_list) ∧
      builder'.m_hash_seed = builder.m_hash_seed := by
  rw [AddFile] at h
  split at h
  · cases h
  · cases hrest : insertSorted builder.m_hash_seed node builder.m_file_list with
    | error err =>
      rw [hrest] at h
      cases h
    | ok rest =>
      rw [hrest] at h
      cases h
      exact ⟨insertSorted_perm hrest, rfl⟩

theorem addFiles_perm {builder builder' : SarcBuilder} {files : List SarcFileNode}
    (h : addFiles builder files = .ok builder') :
    builder'.m_file_list.Perm (builder.m_file_list ++ files) ∧
      builder'.m_hash_seed = builder.m_hash_seed := by
  induction files generalizing builder with
  | nil =>
    cases h
    rw [List.append_nil]
    exact ⟨List.Perm.refl _, rfl⟩
  | cons node files ih =>
    rw [addFiles] at h
    cases ha : AddFile builder node with
    | error err =>
      rw [ha] at h
      cases h
    | ok builder₁ =>
      rw [ha] at h
      obtain ⟨hperm, hseed⟩ := AddFile_perm ha
      obtain ⟨hperm', hseed'⟩ := ih h
      refine ⟨?_, hseed'.trans hseed⟩
      apply hperm'.trans
      apply (hperm.append_right files).trans
      rw [List.cons_append]
      exact List.perm_middle.symm

theorem read16_of_load {m : Bytes} {a : BitVec 64} {b v : ℕ} (ha : a.toNat = b)
    (h : load m b 2 = v % 256 ^ 2) : read16 m a = BitVec.ofNat 16 v := by
  rw [read16, ha, h]
  apply BitVec.eq_of_toNat_eq
  rw [BitVec.toNat_ofNat, BitVec.toNat_ofNat]
  omega

theorem read32_of_load {m : Bytes} {a : BitVec 64} {b v : ℕ} (ha : a.toNat = b)
    (h : load m b 4 = v % 256 ^ 4) : read32 m a = BitVec.ofNat 32 v := by
  rw [read32, ha, h]
  apply BitVec.eq_of_toNat_eq
  rw [BitVec.toNat_ofNat, BitVec.toNat_ofNat]
  omega

section Archive

variable {buf : Buffer} (hbuf : UserBuffer buf) {m m' : Bytes} {behind : BitVec 32}
  {builder : SarcBuilder}
include hbuf

theorem file_region_above
    (halign : ∀ node ∈ builder.m_file_list, ∃ k < 32, node.m_file_alignment = BitVec.ofNat 32 (2 ^ k))
    (hne : builder.m_file_list ≠ []) :
    Above (buf.start.toNat + 0x20)
      (buf.start + (CalculateMemoryInfo behind builder).location_file_region.offset) := by
  have hle := hbuf.le
  obtain ⟨node, nodes, hlist⟩ := List.exists_cons_of_ne_nil hne
  obtain ⟨k, hk, hnode⟩ := halign node (by rw [hlist]; exact List.mem_cons_self)
  have hpow : 2 ^ k < 2 ^ 32 := Nat.pow_lt_pow_right (by omega) hk
  have hpos : 0 < 2 ^ k := Nat.two_pow_pos k
  have hwide : node.m_file_alignment.setWidth 64 = BitVec.ofNat 64 (2 ^ k) := by
    apply BitVec.eq_of_toNat_eq
    rw [hnode, BitVec.toNat_setWidth, BitVec.toNat_ofNat, BitVec.toNat_ofNat]
    omega
  obtain ⟨c, hc⟩ : ∃ c, builder.m_file_list.foldl addSize ⟨0, 0x8, 0, 4⟩ = c := ⟨_, rfl⟩
  have hcount := c.file_count.isLt
  have hsize := c.sfnt_size.isLt
  have hoffset : (CalculateMemoryInfo behind builder).location_file_region.offset =
      alignUp (0x14 + (0xc + 0x10 * c.file_count.setWidth 64) + c.sfnt_size.setWidth 64)
        (BitVec.ofNat 64 (2 ^ k)) := by
    simp only [CalculateMemoryInfo]
    rw [hc, hlist]
    simp only [List.head?_cons, Option.map_some, Option.getD_some, hwide]
  have hsum : (0x14 + (0xc + 0x10 * c.file_count.setWidth 64) + c.sfnt_size.setWidth 64 :
      BitVec 64).toNat = 0x20 + 0x10 * c.file_count.toNat + c.sfnt_size.toNat := by
    simp only [BitVec.toNat_add, BitVec.toNat_mul, BitVec.toNat_setWidth, BitVec.ofNat_eq_ofNat,
      BitVec.toNat_ofNat]
    omega
  have hbounds := alignUp_bounds _ (show k < 64 by omega) (by rw [hsum]; omega)
  rw [hsum, ← hoffset] at hbounds
  right
  rw [BitVec.toNat_add]
  omega

theorem Serialize_headers
    (halign : ∀ node ∈ builder.m_file_list, ∃ k < 32, node.m_file_alignment = BitVec.ofNat 32 (2 ^ k))
    (h : Serialize m buf builder (CalculateMemoryInfo behind builder) = some m') :
    read16 m' (buf.start + 0x6) = 0xfeff ∧
      read32 m' (buf.start + 0x14 + 0x8) = builder.m_hash_seed ∧
      read16 m' (buf.start + 0x14 + 0x6) = BitVec.ofNat 16 builder.m_file_list.length := by
  have hle := hbuf.le
  obtain ⟨m₁, m₂, m₃, s, h₁, h₂, h₃, h₄, h₅⟩ := Serialize_eq h
  have hsfnt := sfnt_offset hbuf behind builder
  obtain ⟨c, hc⟩ : ∃ c, builder.m_file_list.foldl addSize ⟨0, 0x8, 0, 4⟩ = c := ⟨_, rfl⟩
  have hcount := c.file_count.isLt
  rw [hc] at hsfnt
  have hfile : (∀ b < buf.start.toNat + 0x20, s.memory b = m₃ b) ∧
      s.file_count = BitVec.ofNat 32 builder.m_file_list.length := by
    by_cases hne : builder.m_file_list = []
    · rw [hne, writeFiles, Option.some_inj] at h₄
      subst h₄
      rw [hne]
      exact ⟨fun _ _ => rfl, rfl⟩
    · have hstart : Above (buf.start.toNat + 0x20)
          (buf.start + (CalculateMemoryInfo behind builder).location_sfnt.offset + 0x8) := by
        right
        rw [BitVec.toNat_add, hsfnt, show (0x8 : BitVec 64).toNat = 8 by decide]
        omega
      obtain ⟨hkeep, hfc⟩ := writeFiles_frame hbuf (start_add hbuf (show 0x14 < 2 ^ 63 by decide))
        (le_refl _) halign hstart (file_region_above hbuf halign hne) h₄
      refine ⟨hkeep, ?_⟩
      rw [hfc]
      simp
  obtain ⟨hsarc, hsfat, hfc⟩ := Serialize_fields hbuf h₁ h₂ (by omega) h₃ hfile.1 h₅
  have ho : ∀ o, o < 2 ^ 63 → (buf.start + BitVec.ofNat 64 o).toNat = buf.start.toNat + o :=
    fun o ho => start_add hbuf ho
  have hadd : ∀ o, o < 2 ^ 62 →
      (buf.start + 0x14 + BitVec.ofNat 64 o).toNat = buf.start.toNat + 0x14 + o := by
    intro o hlt
    have h14 := ho 0x14 (by decide)
    rw [BitVec.toNat_add, BitVec.ofNat_eq_ofNat, h14, BitVec.toNat_ofNat]
    omega
  refine ⟨?_, ?_, ?_⟩
  · exact read16_of_load (ho 0x6 (by decide)) (hsarc ⟨0x6, 2, 0xfeff⟩ (by simp [sarcFields]))
  · have hread : read32 m' (buf.start + 0x14 + 0x8) = BitVec.ofNat 32 builder.m_hash_seed.toNat :=
      read32_of_load (hadd 0x8 (by decide))
        (hsfat ⟨0x8, 4, builder.m_hash_seed.toNat⟩ (by simp [sfatFields]))
    rw [hread, BitVec.ofNat_toNat, BitVec.setWidth_eq]
  · have hread : read16 m' (buf.start + 0x14 + 0x6) = BitVec.ofNat 16 s.file_count.toNat :=
      read16_of_load (hadd 0x6 (by decide)) hfc
    rw [hread, hfile.2]
    apply BitVec.eq_of_toNat_eq
    simp only [BitVec.toNat_ofNat]
    omega

end Archive

theorem Initialize_eq {m : Bytes} {sarc : BitVec 64} {e : SarcExtractor}
    (h : Initialize m sarc = some e) : e.m_sarc = sarc ∧ e.m_sfat = sarc + 0x14 := by
  rw [Initialize] at h
  simp only at h
  split at h
  · cases h
  split at h
  · cases h
  split at h
  · cases h
  split at h
  · cases h
  rw [Option.some_inj] at h
  subst h
  exact ⟨rfl, rfl⟩

theorem Found.index_ne {m : Bytes} {e : SarcExtractor} {fuel : ℕ} {node : SarcFileNode}
    {index : BitVec 32} (h : Found m e fuel node index) (hcount : (e.fileCount m).toNat < 2 ^ 16) :
    index ≠ cInvalidEntryIndex := by
  have hinvalid : cInvalidEntryIndex.toNat = 2 ^ 32 - 1 := by decide
  obtain ⟨-, ⟨path, hpath, -⟩, -⟩ := h
  rw [SarcExtractor.TryGetPathByEntryIndex] at hpath
  split at hpath
  · cases hpath
  · rename_i hle
    rw [BitVec.le_def] at hle
    rintro rfl
    omega

theorem not_roundTrips {fuel : ℕ} {m : Bytes} {buf : Buffer} {behind : BitVec 32}
    {files : List SarcFileNode} (hbuf : UserBuffer buf) (ha : Admissible files) (hne : files ≠ []) :
    ¬RoundTrips fuel m buf behind files := by
  rintro ⟨builder, m', e, hadd, hser, hinit, hfound, hother⟩
  obtain ⟨hperm, hseed⟩ := addFiles_perm hadd
  rw [List.nil_append] at hperm
  obtain ⟨horder, hreadSeed, hreadCount⟩ := Serialize_headers hbuf
    (fun node hn => ha.alignment node (hperm.mem_iff.mp hn)) hser
  obtain ⟨hsarc, hsfat⟩ := Initialize_eq hinit
  have hnative : e.isReverseEndian m' = false := by
    rw [SarcExtractor.isReverseEndian, IsReverseEndian, hsarc, horder]
    decide
  have hcount : (e.fileCount m').toNat = files.length % 2 ^ 16 := by
    rw [SarcExtractor.fileCount, hnative, native16, if_pos rfl, hsfat, hreadCount, hperm.length_eq,
      BitVec.toNat_setWidth, BitVec.toNat_ofNat]
    omega
  have hhash : e.hashSeed m' = cDefaultHashSeed := by
    rw [SarcExtractor.hashSeed, hnative, native32, if_pos rfl, hsfat, hreadSeed, hseed]
  obtain ⟨node, nodes, rfl⟩ := List.exists_cons_of_ne_nil hne
  obtain ⟨index, hindex⟩ := hfound node List.mem_cons_self
  obtain ⟨path, hnul, hnew, hcollide⟩ := exists_collision
    (ha.nulFree node List.mem_cons_self) ((node :: nodes).map (·.m_file_path))
  apply hindex.index_ne (by omega)
  have hsame := TryGetEntryIndexByPath_congr (m := m') (e := e) (p := node.m_file_path) (q := path)
    (by rw [hhash, hcollide]) fuel
  rw [hother path hnul hnew, hindex.1, Option.some_inj] at hsame
  exact hsame.symm

theorem emptyInfo (behind : BitVec 32) :
    (CalculateMemoryInfo behind {}).total_file_size = 0 ∧
      (CalculateMemoryInfo behind {}).location_sfnt.offset = 0x20 := by
  constructor
  · simp only [CalculateMemoryInfo, List.foldl_nil]
    apply BitVec.eq_of_toNat_eq
    simp only [BitVec.toNat_add, BitVec.toNat_sub, BitVec.toNat_setWidth, BitVec.ofNat_eq_ofNat,
      BitVec.toNat_ofNat]
    omega
  · rfl

section Empty

variable {buf : Buffer} (hbuf : UserBuffer buf) {m : Bytes} {behind : BitVec 32}
include hbuf

theorem start_add_add {a b : ℕ} (ha : a < 2 ^ 62) (hb : b < 2 ^ 62) :
    (buf.start + BitVec.ofNat 64 a + BitVec.ofNat 64 b).toNat = buf.start.toNat + a + b := by
  have hle := hbuf.le
  rw [BitVec.toNat_add, start_add hbuf (by omega), BitVec.toNat_ofNat]
  omega

theorem exists_empty_archive (m : Bytes) (behind : BitVec 32) (hsize : 0x26 ≤ buf.size.toNat) :
    ∃ m' e, Serialize m buf {} (CalculateMemoryInfo behind {}) = some m' ∧
      Initialize m' buf.start = some e ∧ e.fileCount m' = 0 := by
  have hle := hbuf.le
  have hpos := hbuf.pos
  obtain ⟨htotal, hoffset⟩ := emptyInfo behind
  have hholds : ∀ (fields : List Field) {base : BitVec 64} {o : ℕ}, base.toNat = buf.start.toNat + o →
      (∀ f ∈ fields, o + f.offset + f.width ≤ 0x26) →
      ∀ f ∈ fields, buf.Holds (base + BitVec.ofNat 64 f.offset).toNat f.width := by
    intro fields base o hbase hf f hmem
    have := hf f hmem
    rw [Buffer.Holds, BitVec.toNat_add, BitVec.toNat_ofNat]
    omega
  have hstart : buf.start.toNat = buf.start.toNat + 0 := rfl
  have hsfat : (buf.start + 0x14).toNat = buf.start.toNat + 0x14 :=
    start_add hbuf (show 0x14 < 2 ^ 63 by decide)
  have hsfnt : (buf.start + 0x20).toNat = buf.start.toNat + 0x20 :=
    start_add hbuf (show 0x20 < 2 ^ 63 by decide)
  obtain ⟨m₁, h₁⟩ := Buffer.exists_writeFields (m := clear m buf.start.toNat 0)
    (hholds (sarcFields (CalculateMemoryInfo behind {})) hstart (by simp [sarcFields]))
  obtain ⟨m₂, h₂⟩ := Buffer.exists_writeFields (m := m₁)
    (hholds (sfatFields cDefaultHashSeed) hsfat (by simp [sfatFields]))
  obtain ⟨m₃, h₃⟩ := Buffer.exists_writeFields (m := m₂)
    (hholds sfntFields hsfnt (by simp [sfntFields]))
  obtain ⟨m', h₅⟩ := Buffer.exists_writeFields (m := m₃)
    (hholds [⟨0x6, 2, 0⟩] hsfat (by simp))
  obtain ⟨hsarc, hfat, hcount⟩ := Serialize_fields hbuf h₁ h₂ (by omega) h₃ (fun _ _ => rfl) h₅
  have hnt : ∀ f ∈ sfntFields,
      load m' (buf.start.toNat + 0x20 + f.offset) f.width = f.value % 256 ^ f.width := by
    intro f hf
    rw [Buffer.load_writeFields_of_disjoint h₅, ← hsfnt]
    · apply Buffer.load_writeFields h₃ _ (by simp [sfntFields]) hf
      intro g hg
      simp only [sfntFields, List.mem_cons, List.not_mem_nil, or_false] at hg
      rcases hg with rfl | rfl <;> simp only <;> omega
    · intro g hg
      obtain rfl := List.mem_singleton.mp hg
      rw [hsfat]
      simp only
      omega
  have hser : Serialize m buf {} (CalculateMemoryInfo behind {}) = some m' := by
    have hne : buf.start ≠ 0 := by
      intro hz
      rw [hz] at hpos
      exact absurd hpos (by decide)
    have hfits : ¬¬(CalculateMemoryInfo behind {}).total_file_size ≤ buf.size := by
      rw [htotal, not_not, BitVec.le_def]
      exact Nat.zero_le _
    rw [Serialize, if_neg hne, if_neg hfits]
    simp only [Option.bind_eq_bind]
    rw [htotal, hoffset, show buf.start + (CalculateMemoryInfo behind {}).location_header.offset =
      buf.start from BitVec.add_zero _, show (0 : BitVec 64).toNat = 0 from rfl, h₁, Option.bind_some,
      show buf.start + (CalculateMemoryInfo behind {}).location_sfat.offset = buf.start + 0x14 from rfl,
      h₂, Option.bind_some, h₃, Option.bind_some, writeFiles, Option.bind_some]
    exact h₅
  have hread16 : ∀ {a : BitVec 64} (o v : ℕ), a.toNat = buf.start.toNat + o →
      load m' (buf.start.toNat + o) 2 = v % 256 ^ 2 → read16 m' a = BitVec.ofNat 16 v :=
    fun o v ha h => read16_of_load ha h
  have hread32 : ∀ {a : BitVec 64} (o v : ℕ), a.toNat = buf.start.toNat + o →
      load m' (buf.start.toNat + o) 4 = v % 256 ^ 4 → read32 m' a = BitVec.ofNat 32 v :=
    fun o v ha h => read32_of_load ha h
  have hadd := fun {o : ℕ} (ho : o < 2 ^ 63) => start_add hbuf ho
  have hadd₂ := fun {a b : ℕ} (ha : a < 2 ^ 62) (hb : b < 2 ^ 62) => start_add_add hbuf ha hb
  have hnative : IsReverseEndian m' buf.start = false := by
    have horder : read16 m' (buf.start + 0x6) = BitVec.ofNat 16 0xfeff :=
      hread16 0x6 0xfeff (hadd (by decide)) (hsarc ⟨0x6, 2, 0xfeff⟩ (by simp [sarcFields]))
    rw [IsReverseEndian, horder]
    decide
  have hvalid : sarcIsValid m' buf.start = true := by
    have hmagic : read32 m' buf.start = BitVec.ofNat 32 sarcMagic :=
      hread32 0 sarcMagic rfl (hsarc ⟨0x0, 4, sarcMagic⟩ (by simp [sarcFields]))
    have hheader : read16 m' (buf.start + 0x4) = BitVec.ofNat 16 0x14 :=
      hread16 0x4 0x14 (hadd (by decide)) (hsarc ⟨0x4, 2, 0x14⟩ (by simp [sarcFields]))
    have hversion : read16 m' (buf.start + 0x10) = BitVec.ofNat 16 0x100 :=
      hread16 0x10 0x100 (hadd (by decide)) (hsarc ⟨0x10, 2, 0x100⟩ (by simp [sarcFields]))
    rw [sarcIsValid, hnative, hmagic, hheader, hversion]
    decide
  have hzero : read16 m' (buf.start + 0x14 + 0x6) = BitVec.ofNat 16 0 :=
    read16_of_load (hadd₂ (a := 0x14) (b := 0x6) (by decide) (by decide)) hcount
  have hsfatValid : sfatIsValid m' (buf.start + 0x14) false = true := by
    have hmagic : read32 m' (buf.start + 0x14) = BitVec.ofNat 32 sfatMagic :=
      read32_of_load hsfat (hfat ⟨0x0, 4, sfatMagic⟩ (by simp [sfatFields]))
    have hheader : read16 m' (buf.start + 0x14 + 0x4) = BitVec.ofNat 16 0xc :=
      read16_of_load (hadd₂ (a := 0x14) (b := 0x4) (by decide) (by decide))
        (hfat ⟨0x4, 2, 0xc⟩ (by simp [sfatFields]))
    rw [sfatIsValid, hmagic, hheader, hzero]
    decide
  have hsfntAddr : buf.start + 0x14 + 0xc + 0x10 * (native16 false (BitVec.ofNat 16 0)).setWidth 64 =
      buf.start + 0x20 := by
    have hnone : (0x10 * (native16 false (BitVec.ofNat 16 0)).setWidth 64 : BitVec 64).toNat = 0 := by
      decide
    have h20 := hadd₂ (a := 0x14) (b := 0xc) (by decide) (by decide)
    simp only [BitVec.ofNat_eq_ofNat] at h20 hsfnt hnone ⊢
    apply BitVec.eq_of_toNat_eq
    rw [BitVec.toNat_add, h20, hnone, hsfnt]
    omega
  have hsfntValid : sfntIsValid m' (buf.start + 0x20) false = true := by
    have hmagic : read32 m' (buf.start + 0x20) = BitVec.ofNat 32 sfntMagic :=
      read32_of_load hsfnt (hnt ⟨0x0, 4, sfntMagic⟩ (by simp [sfntFields]))
    have hheader : read16 m' (buf.start + 0x20 + 0x4) = BitVec.ofNat 16 0x8 :=
      read16_of_load (hadd₂ (a := 0x20) (b := 0x4) (by decide) (by decide))
        (hnt ⟨0x4, 2, 0x8⟩ (by simp [sfntFields]))
    rw [sfntIsValid, hmagic, hheader]
    decide
  have hne : buf.start ≠ 0 := by
    intro hz
    rw [hz] at hpos
    exact absurd hpos (by decide)
  have hinit : ∃ e, Initialize m' buf.start = some e := by
    rw [Initialize]
    simp only [hnative, hzero, hsfntAddr, if_neg hne, hvalid, hsfatValid, hsfntValid,
      Bool.true_eq_false, if_false]
    exact ⟨_, rfl⟩
  obtain ⟨e, he⟩ := hinit
  obtain ⟨hsarc', hsfat'⟩ := Initialize_eq he
  refine ⟨m', e, hser, he, ?_⟩
  rw [SarcExtractor.fileCount, SarcExtractor.isReverseEndian, hsarc', hnative, hsfat', hzero]
  decide

theorem roundTrips_nil_iff {fuel : ℕ} :
    RoundTrips fuel m buf behind [] ↔ 0x26 ≤ buf.size.toNat := by
  constructor
  · rintro ⟨builder, m', e, hadd, hser, -⟩
    cases hadd
    obtain ⟨m₁, m₂, m₃, s, -, -, h₃, -, -⟩ := Serialize_eq hser
    rw [(emptyInfo behind).2] at h₃
    obtain ⟨-, hrest⟩ := Buffer.writeFields_cons h₃
    obtain ⟨hholds, -⟩ := Buffer.writeFields_cons hrest
    have haddr := start_add_add hbuf (show 0x20 < 2 ^ 62 by decide) (show 0x4 < 2 ^ 62 by decide)
    have := hholds.2
    simp only [BitVec.ofNat_eq_ofNat] at this haddr
    rw [haddr] at this
    omega
  · intro hsize
    obtain ⟨m', e, hser, hinit, hcount⟩ := exists_empty_archive hbuf m behind hsize
    refine ⟨{}, m', e, rfl, hser, hinit, fun node hn => absurd hn List.not_mem_nil, ?_⟩
    intro path _ _
    rw [SarcExtractor.TryGetEntryIndexByPath]
    simp only [if_pos hcount]

end Empty

/-- Files and their archive come back exactly when there are no files. -/
theorem roundTrips_iff (fuel : ℕ) (m : Bytes) (buf : Buffer) (behind : BitVec 32)
    (files : List SarcFileNode) (hbuf : UserBuffer buf) (ha : Admissible files) :
    RoundTrips fuel m buf behind files ↔ files = [] ∧ 0x26 ≤ buf.size.toNat := by
  by_cases hne : files = []
  · subst hne
    rw [roundTrips_nil_iff hbuf]
    simp only [true_and]
  · constructor
    · intro h
      exact absurd h (not_roundTrips hbuf ha hne)
    · rintro ⟨hnil, -⟩
      exact absurd hnil hne

def fileA : SarcFileNode := { m_file_path := [0x61], m_file := [0x2a], m_file_alignment := 4 }

def smallBuffer : Buffer := { start := 0x1000, size := 0x100 }

theorem smallBuffer_user : UserBuffer smallBuffer := by
  constructor <;> decide

theorem fileA_admissible : Admissible [fileA] := by
  constructor
  · decide
  · decide
  · decide
  · intro node hn
    obtain rfl := List.mem_singleton.mp hn
    exact ⟨2, by decide, rfl⟩

theorem roundTrips_iff_fileA :
    RoundTrips 0x100 (fun _ => 0) smallBuffer 0 [fileA] ↔
      [fileA] = [] ∧ 0x26 ≤ smallBuffer.size.toNat :=
  roundTrips_iff 0x100 (fun _ => 0) smallBuffer 0 [fileA] smallBuffer_user fileA_admissible

theorem fileA_not_roundTrips :
    Admissible [fileA] ∧ ¬RoundTrips 0x100 (fun _ => 0) smallBuffer 0 [fileA] :=
  ⟨fileA_admissible, not_roundTrips smallBuffer_user fileA_admissible (by decide)⟩

end Awn.Sarc
