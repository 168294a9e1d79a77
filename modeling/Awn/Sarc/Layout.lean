import Awn.Sarc.Extractor

namespace Awn.Sarc

open Memory

/-- An iterator behind `lo`, or one that has wrapped to the null address. -/
def Above (lo : ℕ) (x : BitVec 64) : Prop := x = 0 ∨ lo ≤ x.toNat

theorem Above.alignUp {lo : ℕ} {x : BitVec 64} (h : Above lo x) {k : ℕ} (hk : k < 64) :
    Above lo (alignUp x (BitVec.ofNat 64 (2 ^ k))) := by
  rcases h with rfl | h
  · exact Or.inl (alignUp_zero hk)
  · rcases alignUp_ge x hk with hge | hz
    · exact Or.inr (by omega)
    · exact Or.inl hz

structure UserBuffer (buf : Buffer) : Prop where
  pos : 0 < buf.start.toNat
  le : buf.start.toNat + buf.size.toNat ≤ 2 ^ 63

section WriteFile

variable {buf : Buffer} {hash_seed : BitVec 32} {sfat sfnt_start file_region : BitVec 64}
  {node : SarcFileNode} {s s' : SerializeState}

theorem writeFile_eq (h : writeFile buf hash_seed sfat sfnt_start file_region node s = some s') :
    ∃ (m₁ m₂ m₃ m₄ : Bytes) (name_data : ℕ),
      buf.writeFields s.memory (sfat + 0xc + 0x10 * s.file_count.setWidth 64)
        [⟨0x0, 4, (CalculateSarcHash hash_seed node.m_file_path).toNat⟩, ⟨0x4, 4, name_data⟩] =
          some m₁ ∧
      buf.writeBytes m₁ s.sfnt_iter ((node.m_file_path ++ [0]).take
        (BitVec.ofNat 32 node.m_file_path.length + 1).toNat) = some m₂ ∧
      buf.writeFields m₂ (sfat + 0xc + 0x10 * s.file_count.setWidth 64)
        [⟨0x8, 4, (alignUp s.file_iter (node.m_file_alignment.setWidth 64) - file_region).toNat⟩] =
          some m₃ ∧
      buf.writeBytes m₃ (alignUp s.file_iter (node.m_file_alignment.setWidth 64))
        (node.m_file.take node.m_file_size.toNat) = some m₄ ∧
      buf.writeFields m₄ (sfat + 0xc + 0x10 * s.file_count.setWidth 64)
        [⟨0xc, 4, (alignUp s.file_iter (node.m_file_alignment.setWidth 64) +
          node.m_file_size.setWidth 64 - file_region).toNat⟩] = some s'.memory ∧
      s'.file_count = s.file_count + 1 ∧
      s'.sfnt_iter = alignUp (s.sfnt_iter +
        (BitVec.ofNat 32 node.m_file_path.length + 1).setWidth 64) 4 ∧
      s'.file_iter = alignUp s.file_iter (node.m_file_alignment.setWidth 64) +
        node.m_file_size.setWidth 64 := by
  obtain ⟨c, hc, hcm, hcf, hcs, hci⟩ :
      ∃ c, countCollision s (CalculateSarcHash hash_seed node.m_file_path) = c ∧
        c.memory = s.memory ∧ c.file_count = s.file_count ∧ c.sfnt_iter = s.sfnt_iter ∧
        c.file_iter = s.file_iter := by
    refine ⟨_, rfl, ?_⟩
    rw [countCollision]
    split <;> exact ⟨rfl, rfl, rfl, rfl⟩
  rw [writeFile, hc, hcm, hcf, hcs, hci] at h
  simp only [Option.bind_eq_bind] at h
  split at h
  · cases h
  simp only [Option.bind_eq_some_iff, Option.some_inj] at h
  obtain ⟨m₁, hm₁, m₂, hm₂, m₃, hm₃, m₄, hm₄, m₅, hm₅, rfl⟩ := h
  exact ⟨m₁, m₂, m₃, m₄, _, hm₁, hm₂, hm₃, hm₄, hm₅, rfl, rfl, rfl⟩

theorem fileEntry_toNat (hbuf : buf.start.toNat + buf.size.toNat ≤ 2 ^ 63)
    (hsfat : sfat.toNat = buf.start.toNat + 0x14) (file_count : BitVec 32) :
    (sfat + 0xc + 0x10 * file_count.setWidth 64).toNat =
      buf.start.toNat + 0x20 + 0x10 * file_count.toNat := by
  have := file_count.isLt
  simp only [BitVec.toNat_add, BitVec.toNat_mul, BitVec.toNat_setWidth, BitVec.ofNat_eq_ofNat,
    BitVec.toNat_ofNat, hsfat]
  omega

theorem length_path (node : SarcFileNode) :
    ((node.m_file_path ++ [0]).take (BitVec.ofNat 32 node.m_file_path.length + 1).toNat).length =
      (BitVec.ofNat 32 node.m_file_path.length + 1).toNat := by
  have hone : (1 : BitVec 32).toNat = 1 := by decide
  rw [List.length_take, List.length_append, BitVec.toNat_add, BitVec.toNat_ofNat, hone,
    List.length_singleton]
  omega

theorem length_file (node : SarcFileNode) :
    (node.m_file.take node.m_file_size.toNat).length = node.m_file_size.toNat := by
  rw [List.length_take, SarcFileNode.m_file_size, BitVec.toNat_ofNat]
  omega

end WriteFile

section Frame

variable {buf : Buffer} (hbuf : UserBuffer buf) {m m' : Bytes} {lo : ℕ}
include hbuf

theorem Above.writeBytes {x : BitVec 64} (h : Above lo x) {bytes : List (BitVec 8)}
    (hw : buf.writeBytes m x bytes = some m') {b : ℕ} (hb : b < lo) : m' b = m b := by
  have hpos := hbuf.pos
  rcases Buffer.writeBytes_holds hw with hnil | hholds
  · exact Buffer.writeBytes_other hw (Or.inr hnil)
  · rcases h with rfl | hlo
    · have hzero : (0 : BitVec 64).toNat = 0 := by decide
      have := hholds.1
      omega
    · exact Buffer.writeBytes_other hw (Or.inl (by omega))

theorem Above.advance {x : BitVec 64} (h : Above lo x) {bytes : List (BitVec 8)}
    (hw : buf.writeBytes m x bytes = some m') {n : BitVec 64} (hn : n.toNat = bytes.length) :
    Above lo (x + n) := by
  have hpos := hbuf.pos
  have hle := hbuf.le
  rcases Buffer.writeBytes_holds hw with hnil | hholds
  · have hz : n = 0 := by
      apply BitVec.eq_of_toNat_eq
      rw [hn, hnil]
      rfl
    rw [hz, BitVec.ofNat_eq_ofNat, BitVec.add_zero]
    exact h
  · rcases h with rfl | hlo
    · have hzero : (0 : BitVec 64).toNat = 0 := by decide
      have := hholds.1
      omega
    · right
      have := hholds.2
      rw [BitVec.toNat_add]
      omega

theorem writeFile_frame {hash_seed : BitVec 32} {sfat sfnt_start file_region : BitVec 64}
    {node : SarcFileNode} {s s' : SerializeState} (hsfat : sfat.toNat = buf.start.toNat + 0x14)
    (hlo : lo ≤ buf.start.toNat + 0x20) (halign : ∃ k < 32, node.m_file_alignment = BitVec.ofNat 32 (2 ^ k))
    (hsfnt : Above lo s.sfnt_iter) (hfile : Above lo s.file_iter)
    (h : writeFile buf hash_seed sfat sfnt_start file_region node s = some s') :
    (∀ b < lo, s'.memory b = s.memory b) ∧ Above lo s'.sfnt_iter ∧ Above lo s'.file_iter ∧
      s'.file_count = s.file_count + 1 := by
  have hle := hbuf.le
  obtain ⟨m₁, m₂, m₃, m₄, name_data, hm₁, hm₂, hm₃, hm₄, hm₅, hcount, hsfnt', hfile'⟩ :=
    writeFile_eq h
  obtain ⟨k, hk, halign⟩ := halign
  have hwide : node.m_file_alignment.setWidth 64 = BitVec.ofNat 64 (2 ^ k) := by
    have hpow : 2 ^ k < 2 ^ 32 := Nat.pow_lt_pow_right (by omega) hk
    have hpos : 0 < 2 ^ k := Nat.two_pow_pos k
    apply BitVec.eq_of_toNat_eq
    rw [halign, BitVec.toNat_setWidth, BitVec.toNat_ofNat, BitVec.toNat_ofNat]
    omega
  have hfour : (4 : BitVec 64) = BitVec.ofNat 64 (2 ^ 2) := by decide
  have hentry := fileEntry_toNat hle hsfat s.file_count
  have hfield : ∀ {m m' : Bytes} {fields : List Field},
      buf.writeFields m (sfat + 0xc + 0x10 * s.file_count.setWidth 64) fields = some m' →
      (∀ f ∈ fields, f.offset + f.width ≤ 0x10) → ∀ b < lo, m' b = m b := by
    intro m m' fields hw hsize b hb
    have := s.file_count.isLt
    exact Buffer.writeFields_other hw hsize (by omega) (Or.inl (by omega))
  rw [hwide] at hm₃ hm₄ hm₅ hfile'
  have hpath : ((BitVec.ofNat 32 node.m_file_path.length + 1).setWidth 64).toNat =
      ((node.m_file_path ++ [0]).take (BitVec.ofNat 32 node.m_file_path.length + 1).toNat).length := by
    rw [length_path, BitVec.toNat_setWidth]
    omega
  have hsize : (node.m_file_size.setWidth 64).toNat =
      (node.m_file.take node.m_file_size.toNat).length := by
    rw [length_file, BitVec.toNat_setWidth]
    omega
  have hnext := hsfnt.advance hbuf hm₂ hpath
  have halign' := hfile.alignUp (show k < 64 by omega)
  rw [hsfnt', hfile']
  refine ⟨?_, ?_, halign'.advance hbuf hm₄ hsize, hcount⟩
  · intro b hb
    rw [hfield hm₅ (by simp) b hb, halign'.writeBytes hbuf hm₄ hb, hfield hm₃ (by simp) b hb,
      hsfnt.writeBytes hbuf hm₂ hb, hfield hm₁ (by simp) b hb]
  · rw [hfour]
    exact hnext.alignUp (by omega)

theorem writeFiles_frame {hash_seed : BitVec 32} {sfat sfnt_start file_region : BitVec 64}
    {nodes : List SarcFileNode} {s s' : SerializeState}
    (hsfat : sfat.toNat = buf.start.toNat + 0x14) (hlo : lo ≤ buf.start.toNat + 0x20)
    (halign : ∀ node ∈ nodes, ∃ k < 32, node.m_file_alignment = BitVec.ofNat 32 (2 ^ k))
    (hsfnt : Above lo s.sfnt_iter) (hfile : Above lo s.file_iter)
    (h : writeFiles buf hash_seed sfat sfnt_start file_region nodes s = some s') :
    (∀ b < lo, s'.memory b = s.memory b) ∧
      s'.file_count = s.file_count + BitVec.ofNat 32 nodes.length := by
  induction nodes generalizing s with
  | nil =>
    rw [writeFiles, Option.some_inj] at h
    subst h
    exact ⟨fun _ _ => rfl, by simp⟩
  | cons node nodes ih =>
    rw [writeFiles] at h
    cases hw : writeFile buf hash_seed sfat sfnt_start file_region node s with
    | none =>
      rw [hw] at h
      cases h
    | some s₁ =>
      rw [hw] at h
      obtain ⟨hm, hsfnt₁, hfile₁, hcount⟩ := writeFile_frame hbuf hsfat hlo
        (halign node List.mem_cons_self) hsfnt hfile hw
      obtain ⟨hrest, hcount'⟩ := ih (fun n hn => halign n (List.mem_cons_of_mem _ hn)) hsfnt₁ hfile₁ h
      refine ⟨fun b hb => by rw [hrest b hb, hm b hb], ?_⟩
      rw [hcount', hcount, List.length_cons, BitVec.add_assoc]
      congr 1
      apply BitVec.eq_of_toNat_eq
      have hone : (1 : BitVec 32).toNat = 1 := by decide
      rw [BitVec.toNat_add, BitVec.toNat_ofNat, BitVec.toNat_ofNat, hone]
      omega

end Frame

theorem Serialize_eq {m m' : Bytes} {buf : Buffer} {builder : SarcBuilder} {behind : BitVec 32}
    (h : Serialize m buf builder (CalculateMemoryInfo behind builder) = some m') :
    ∃ (m₁ m₂ m₃ : Bytes) (s : SerializeState),
      buf.writeFields
        (clear m buf.start.toNat (CalculateMemoryInfo behind builder).total_file_size.toNat) buf.start
        (sarcFields (CalculateMemoryInfo behind builder)) = some m₁ ∧
      buf.writeFields m₁ (buf.start + 0x14) (sfatFields builder.m_hash_seed) = some m₂ ∧
      buf.writeFields m₂ (buf.start + (CalculateMemoryInfo behind builder).location_sfnt.offset)
        sfntFields = some m₃ ∧
      writeFiles buf builder.m_hash_seed (buf.start + 0x14)
        (buf.start + (CalculateMemoryInfo behind builder).location_sfnt.offset + 0x8)
        (buf.start + (CalculateMemoryInfo behind builder).location_file_region.offset)
        builder.m_file_list
        { memory := m₃, file_count := 0, last_hash := 0, collision_count := 1,
          sfnt_iter := buf.start + (CalculateMemoryInfo behind builder).location_sfnt.offset + 0x8,
          file_iter := buf.start +
            (CalculateMemoryInfo behind builder).location_file_region.offset } = some s ∧
      buf.writeFields s.memory (buf.start + 0x14) [⟨0x6, 2, s.file_count.toNat⟩] = some m' := by
  rw [Serialize] at h
  have hstart : buf.start + (CalculateMemoryInfo behind builder).location_header.offset =
      buf.start := BitVec.add_zero _
  have hsfat : buf.start + (CalculateMemoryInfo behind builder).location_sfat.offset =
      buf.start + 0x14 := rfl
  split at h
  · cases h
  · split at h
    · cases h
    · simp only [hstart, hsfat, Option.bind_eq_bind, Option.bind_eq_some_iff] at h
      obtain ⟨m₁, h₁, m₂, h₂, m₃, h₃, s, h₄, h₅⟩ := h
      exact ⟨m₁, m₂, m₃, s, h₁, h₂, h₃, h₄, h₅⟩

section Reads

variable {buf : Buffer} (hbuf : UserBuffer buf)
include hbuf

theorem start_add {o : ℕ} (ho : o < 2 ^ 63) :
    (buf.start + BitVec.ofNat 64 o).toNat = buf.start.toNat + o := by
  have := hbuf.le
  rw [BitVec.toNat_add, BitVec.toNat_ofNat]
  omega

theorem sfnt_offset (behind : BitVec 32) (builder : SarcBuilder) :
    (buf.start + (CalculateMemoryInfo behind builder).location_sfnt.offset).toNat =
      buf.start.toNat + 0x20 + 0x10 *
        (builder.m_file_list.foldl addSize ⟨0, 0x8, 0, 4⟩).file_count.toNat := by
  have hle := hbuf.le
  have hcount := (builder.m_file_list.foldl addSize ⟨0, 0x8, 0, 4⟩).file_count.isLt
  simp only [CalculateMemoryInfo, BitVec.toNat_add, BitVec.toNat_mul, BitVec.toNat_setWidth,
    BitVec.ofNat_eq_ofNat, BitVec.toNat_ofNat]
  simp only [BitVec.ofNat_eq_ofNat] at hcount
  omega

theorem Serialize_fields {m₀ m₁ m₂ m₃ m₄ m' : Bytes} {info : SarcBuilderMemoryInfo}
    {hash_seed : BitVec 32} {sfnt : BitVec 64} {count : ℕ}
    (h₁ : buf.writeFields m₀ buf.start (sarcFields info) = some m₁)
    (h₂ : buf.writeFields m₁ (buf.start + 0x14) (sfatFields hash_seed) = some m₂)
    (hsfnt : buf.start.toNat + 0x20 ≤ sfnt.toNat ∧ sfnt.toNat < 2 ^ 64 - 8)
    (h₃ : buf.writeFields m₂ sfnt sfntFields = some m₃)
    (hkeep : ∀ b < buf.start.toNat + 0x20, m₄ b = m₃ b)
    (h₅ : buf.writeFields m₄ (buf.start + 0x14) [⟨0x6, 2, count⟩] = some m') :
    (∀ f ∈ sarcFields info, load m' (buf.start.toNat + f.offset) f.width = f.value % 256 ^ f.width) ∧
    (∀ f ∈ sfatFields hash_seed,
      load m' (buf.start.toNat + 0x14 + f.offset) f.width = f.value % 256 ^ f.width) ∧
    load m' (buf.start.toNat + 0x14 + 0x6) 2 = count % 256 ^ 2 := by
  have hle := hbuf.le
  have hsfat : (buf.start + 0x14).toNat = buf.start.toNat + 0x14 :=
    start_add hbuf (show 0x14 < 2 ^ 63 by decide)
  have hsarcSize : ∀ f ∈ sarcFields info, f.offset + f.width ≤ 0x14 := by
    intro f hf
    simp only [sarcFields, List.mem_cons, List.not_mem_nil, or_false] at hf
    rcases hf with rfl | rfl | rfl | rfl | rfl | rfl | rfl <;> simp only <;> omega
  have hsfatSize : ∀ f ∈ sfatFields hash_seed, f.offset + f.width ≤ 0xc ∧
      (f.offset + f.width ≤ 6 ∨ 8 ≤ f.offset) := by
    intro f hf
    simp only [sfatFields, List.mem_cons, List.not_mem_nil, or_false] at hf
    rcases hf with rfl | rfl | rfl <;> simp only <;> omega
  have hsfntSize : ∀ f ∈ sfntFields, f.offset + f.width ≤ 6 := by
    intro f hf
    simp only [sfntFields, List.mem_cons, List.not_mem_nil, or_false] at hf
    rcases hf with rfl | rfl <;> decide
  -- a field of the headers, apart from `file_count`, is as it was before the files
  have hback : ∀ a n, a + n ≤ buf.start.toNat + 0x20 →
      (a + n ≤ buf.start.toNat + 0x1a ∨ buf.start.toNat + 0x1c ≤ a) → load m' a n = load m₂ a n := by
    intro a n hlt hapart
    rw [Buffer.load_writeFields_of_disjoint h₅, load_congr (fun b _ hb => hkeep b (by omega)),
      Buffer.load_writeFields_of_disjoint h₃]
    · intro f hf
      have := hsfntSize f hf
      omega
    · intro f hf
      obtain rfl := List.mem_singleton.mp hf
      rw [hsfat]
      simp only
      omega
  refine ⟨?_, ?_, ?_⟩
  · intro f hf
    have hsize := hsarcSize f hf
    rw [hback _ _ (by omega) (by omega), Buffer.load_writeFields_of_disjoint h₂]
    · apply Buffer.load_writeFields h₁ (fun g hg => by have := hsarcSize g hg; omega) _ hf
      simp [sarcFields]
    · intro g hg
      rw [hsfat]
      have := hsfatSize g hg
      omega
  · intro f hf
    have hsize := hsfatSize f hf
    rw [hback _ _ (by omega) (by omega), ← hsfat]
    apply Buffer.load_writeFields h₂ (fun g hg => by have := hsfatSize g hg; omega) _ hf
    simp [sfatFields]
  · rw [← hsfat]
    exact Buffer.load_writeFields h₅ (by simp; omega) (by simp) (List.mem_singleton_self _)

end Reads

/-!
The lookup does not tell two paths of one hash apart, and every path has others of its hash.
-/

def NulFree (path : List (BitVec 8)) : Prop := ∀ c ∈ path, c ≠ 0

instance (path : List (BitVec 8)) : Decidable (NulFree path) :=
  inferInstanceAs (Decidable (∀ c ∈ path, c ≠ 0))

def lengthen (path : List (BitVec 8)) : ℕ → List (BitVec 8)
  | 0 => path
  | n + 1 => 0x01 :: 0x9b :: lengthen path n

theorem lengthen_hash (path : List (BitVec 8)) (n : ℕ) :
    CalculateSarcHash cDefaultHashSeed (lengthen path n) =
      CalculateSarcHash cDefaultHashSeed path := by
  induction n with
  | zero => rfl
  | succ n ih =>
    have hzero : (0 * cDefaultHashSeed + (0x01 : BitVec 8).signExtend 32) * cDefaultHashSeed +
        (0x9b : BitVec 8).signExtend 32 = 0 := by decide
    rw [CalculateSarcHash] at ih ⊢
    rw [lengthen, List.foldl_cons, List.foldl_cons, hzero, ih]

theorem lengthen_length (path : List (BitVec 8)) (n : ℕ) :
    (lengthen path n).length = 2 * n + path.length := by
  induction n with
  | zero => rw [lengthen, Nat.mul_zero, Nat.zero_add]
  | succ n ih =>
    rw [lengthen, List.length_cons, List.length_cons, ih]
    omega

theorem lengthen_nulFree {path : List (BitVec 8)} (h : NulFree path) (n : ℕ) :
    NulFree (lengthen path n) := by
  induction n with
  | zero => exact h
  | succ n ih =>
    intro c hc
    rcases List.mem_cons.mp hc with rfl | hc
    · decide
    · rcases List.mem_cons.mp hc with rfl | hc
      · decide
      · exact ih c hc

theorem exists_collision {path : List (BitVec 8)} (h : NulFree path) (paths : List (List (BitVec 8))) :
    ∃ other, NulFree other ∧ other ∉ paths ∧
      CalculateSarcHash cDefaultHashSeed other = CalculateSarcHash cDefaultHashSeed path := by
  have hbound : ∀ p ∈ paths, p.length ≤ (paths.map List.length).sum := by
    induction paths with
    | nil =>
      intro p hp
      cases hp
    | cons p ps ih =>
      intro p' hp'
      rw [List.map_cons, List.sum_cons]
      rcases List.mem_cons.mp hp' with rfl | hp'
      · omega
      · have := ih p' hp'
        omega
  refine ⟨lengthen path ((paths.map List.length).sum + 1), lengthen_nulFree h _, ?_,
    lengthen_hash path _⟩
  intro hmem
  have := hbound _ hmem
  rw [lengthen_length] at this
  omega

theorem TryGetEntryIndexByPath_congr {m : Bytes} {e : SarcExtractor} {p q : List (BitVec 8)}
    (hhash : CalculateSarcHash (e.hashSeed m) q = CalculateSarcHash (e.hashSeed m) p) (fuel : ℕ) :
    e.TryGetEntryIndexByPath m fuel q = e.TryGetEntryIndexByPath m fuel p := by
  rw [SarcExtractor.TryGetEntryIndexByPath, SarcExtractor.TryGetEntryIndexByPath, hhash]

end Awn.Sarc
