import Awn.ResourceSizeTable.Entries

/-! The file of a table without collisions, as the extractor reads it. -/

namespace Awn.ResourceSizeTable

open IntrusiveTree Memory
open Sarc (read16 read32 clear)

theorem read32_store {m : Bytes} {a : BitVec 64} (v : BitVec 32) :
    read32 (store m a.toNat 4 v.toNat) a = v := by
  rw [read32, load_store]
  apply BitVec.eq_of_toNat_eq
  rw [BitVec.toNat_ofNat, Nat.mod_mod_of_dvd _ (by decide), Nat.mod_eq_of_lt v.isLt]

namespace ResourceSizeTableBuilder

variable {s : ResourceSizeTableBuilder}

theorem entry_toNat (array : BitVec 64) (count : BitVec 32)
    (h : array.toNat + 0x8 * count.toNat < 2 ^ 64) :
    (array + 0x8 * count.setWidth 64).toNat = array.toNat + 0x8 * count.toNat := by
  have hmul : (0x8 * count.setWidth 64 : BitVec 64).toNat = 0x8 * count.toNat := by
    rw [BitVec.toNat_mul, widen_toNat, show (0x8 : BitVec 64).toNat = 0x8 from rfl]
    exact Nat.mod_eq_of_lt (by omega)
  rw [BitVec.toNat_add_of_lt (by omega), hmul]

structure Streamed (s : ResourceSizeTableBuilder) (array : BitVec 64) (nodes : List Addr)
    (crc32_count : BitVec 32) (m m' : Bytes) : Prop where
  before : ∀ b < array.toNat + 0x8 * crc32_count.toNat, m' b = m b
  entries : ∀ i, (hi : i < nodes.length) →
    load m' (array.toNat + 0x8 * (crc32_count.toNat + i)) 4 =
      (s.m_crc32_entry_list.node nodes[i]).key.val ∧
    load m' (array.toNat + 0x8 * (crc32_count.toNat + i) + 4) 4 = (s.size nodes[i]).toNat

theorem streamCrc32_spec (s : ResourceSizeTableBuilder) (array : BitVec 64) (nodes : List Addr)
    (crc32_count : BitVec 32) (m : Bytes)
    (hcount : crc32_count.toNat + nodes.length < 2 ^ 32)
    (hroom : array.toNat + 0x8 * (crc32_count.toNat + nodes.length) ≤ 2 ^ 64) :
    (s.streamCrc32 array nodes crc32_count m).2.toNat = crc32_count.toNat + nodes.length ∧
      s.Streamed array nodes crc32_count m (s.streamCrc32 array nodes crc32_count m).1 := by
  induction nodes generalizing crc32_count m with
  | nil =>
    refine ⟨rfl, fun b _ => rfl, ?_⟩
    intro i hi
    exact absurd hi (Nat.not_lt_zero i)
  | cons node rest ih =>
    rw [List.length_cons] at hcount hroom ⊢
    have hsucc : (crc32_count + 1).toNat = crc32_count.toNat + 1 := by
      rw [BitVec.toNat_add, show (1 : BitVec 32).toNat = 1 from rfl]
      exact Nat.mod_eq_of_lt (by omega)
    have hentry := entry_toNat array crc32_count (by omega)
    have hfour : (array + 0x8 * crc32_count.setWidth 64 + 0x4).toNat =
        array.toNat + 0x8 * crc32_count.toNat + 4 := by
      rw [BitVec.toNat_add, hentry, show (0x4 : BitVec 64).toNat = 4 from rfl]
      exact Nat.mod_eq_of_lt (by omega)
    have hkey := (s.m_crc32_entry_list.node node).key.isLt
    have hsize := (s.size node).isLt
    rw [streamCrc32, hentry, hfour]
    obtain ⟨hlast, hrest⟩ := ih (crc32_count + 1)
      (store (store m (array.toNat + 0x8 * crc32_count.toNat) 4
        (s.m_crc32_entry_list.node node).key.val) (array.toNat + 0x8 * crc32_count.toNat + 4) 4
        (s.size node).toNat) (by omega) (by omega)
    rw [hsucc] at hlast
    refine ⟨by omega, ?_, ?_⟩
    · intro b hb
      rw [hrest.before b (by omega), store_apply_of_ne _ _ _ _ _ (by omega),
        store_apply_of_ne _ _ _ _ _ (by omega)]
    · intro i hi
      cases i with
      | zero =>
        have hbefore := fun b (hb : b < array.toNat + 0x8 * crc32_count.toNat + 8) =>
          hrest.before b (by omega)
        change load _ (array.toNat + 0x8 * crc32_count.toNat) 4 = _ ∧
          load _ (array.toNat + 0x8 * crc32_count.toNat + 4) 4 = _
        constructor
        · rw [load_congr fun b _ hb => hbefore b (by omega),
            load_store_of_disjoint _ _ _ _ _ _ (by omega), load_store]
          exact Nat.mod_eq_of_lt hkey
        · rw [load_congr fun b _ hb => hbefore b (by omega), load_store]
          exact Nat.mod_eq_of_lt hsize
      | succ i =>
        have hnext := hrest.entries i (by simpa using hi)
        have hplace : crc32_count.toNat + 1 + i = crc32_count.toNat + (i + 1) := by omega
        rw [hsucc, hplace] at hnext
        exact hnext

structure Laid (s : ResourceSizeTableBuilder) (m : Bytes) (file : BitVec 64) (nodes : List Addr) :
    Prop where
  magic0 : read32 m file = cMagic0
  magic1 : read16 m (file + 0x4) = cMagic1
  count : (read32 m (file + 0xe)).toNat = nodes.length
  collisions : read32 m (file + 0x12) = 0
  entries : ∀ i, (hi : i < nodes.length) →
    load m (file.toNat + 0x16 + 0x8 * i) 4 = (s.m_crc32_entry_list.node nodes[i]).key.val ∧
    load m (file.toNat + 0x16 + 0x8 * i + 4) 4 = (s.size nodes[i]).toNat

theorem Streamed.laid {file : BitVec 64} {nodes : List Addr} {m m' : Bytes}
    {max_path_length crc32_count : BitVec 32}
    (h : s.Streamed (file + 0x16) nodes 0 (writeHeader m file max_path_length) m')
    (hcount : crc32_count.toNat = nodes.length) (hroom : file.toNat + 0x16 < 2 ^ 64) :
    s.Laid (store (store m' (file + 0xe).toNat 4 crc32_count.toNat) (file + 0x12).toNat 4
      (0 : BitVec 32).toNat) file nodes := by
  have hoffset : ∀ k : BitVec 64, k.toNat ≤ 0x16 → (file + k).toNat = file.toNat + k.toNat :=
    fun k hk => BitVec.toNat_add_of_lt (by omega)
  have h4 : (file + 0x4).toNat = file.toNat + 0x4 := hoffset 0x4 (by decide)
  have h6 : (file + 0x6).toNat = file.toNat + 0x6 := hoffset 0x6 (by decide)
  have ha : (file + 0xa).toNat = file.toNat + 0xa := hoffset 0xa (by decide)
  have he : (file + 0xe).toNat = file.toNat + 0xe := hoffset 0xe (by decide)
  have h12 : (file + 0x12).toNat = file.toNat + 0x12 := hoffset 0x12 (by decide)
  have h16 : (file + 0x16).toNat = file.toNat + 0x16 := hoffset 0x16 (by decide)
  have hbefore : ∀ b < file.toNat + 0x16, m' b = writeHeader m file max_path_length b := by
    intro b hb
    exact h.before b (by rw [h16]; exact Nat.lt_of_lt_of_le hb (Nat.le_add_right _ _))
  -- what is read in front of the counts was written with the header
  have hheader : ∀ a n v, a + n ≤ file.toNat + 0xe →
      load (writeHeader m file max_path_length) a n = v →
        load (store (store m' (file + 0xe).toNat 4 crc32_count.toNat) (file + 0x12).toNat 4
          (0 : BitVec 32).toNat) a n = v := by
    intro a n v ha hv
    rw [load_store_of_disjoint _ _ _ _ _ _ (by omega), load_store_of_disjoint _ _ _ _ _ _ (by omega),
      load_congr fun b _ hb => hbefore b (by omega), hv]
  constructor
  · rw [read32, hheader _ _ cMagic0.toNat (by omega)]
    · rfl
    · rw [writeHeader, load_store_of_disjoint _ _ _ _ _ _ (by omega),
        load_store_of_disjoint _ _ _ _ _ _ (by omega),
        load_store_of_disjoint _ _ _ _ _ _ (by omega), load_store]
      rfl
  · rw [read16, hheader _ _ cMagic1.toNat (by omega)]
    · rfl
    · rw [writeHeader, load_store_of_disjoint _ _ _ _ _ _ (by omega),
        load_store_of_disjoint _ _ _ _ _ _ (by omega), load_store]
      rfl
  · rw [read32, load_store_of_disjoint _ _ _ _ _ _ (by omega), ← read32, read32_store, hcount]
  · exact read32_store 0
  · intro i hi
    have hentry := h.entries i hi
    have hzero : (0 : BitVec 32).toNat + i = i := Nat.zero_add i
    rw [h16, hzero] at hentry
    rw [load_store_of_disjoint _ _ _ _ _ _ (by omega), load_store_of_disjoint _ _ _ _ _ _ (by omega),
      load_store_of_disjoint _ _ _ _ _ _ (by omega), load_store_of_disjoint _ _ _ _ _ _ (by omega)]
    exact hentry

variable {table : List Entry} {m : Bytes} {fuel : ℕ} {file file_size : BitVec 64}
  {max_path_length : BitVec 32}

theorem Lists.calculateSerializedSize (h : s.Lists table) (hfuel : 2 ^ 32 < fuel) :
    s.CalculateSerializedSize fuel max_path_length =
      .ok (BitVec.ofNat 64 (0x16 + 0x8 * table.length)) := by
  obtain ⟨t, ht, hperm⟩ := h.tree
  have hle := h.length_le
  have hlength := hperm.length_eq
  rw [List.length_map] at hlength
  have hcrc32 := getCount_spec ht.represents (by omega : t.toList.length ≤ fuel)
  have hcollision : getCount fuel s.m_collision_entry_list = .ok 0 := by
    rw [getCount, h.none]
    rfl
  rw [hlength] at hcrc32
  simp only [CalculateSerializedSize, hcrc32, hcollision, bind, Except.bind, pure, Except.pure]
  congr 1
  apply BitVec.eq_of_toNat_eq
  rw [BitVec.ofNat_add, BitVec.ofNat_mul]
  have hzero : (0x4 + max_path_length.setWidth 64) * BitVec.ofNat 64 0 = 0 := BitVec.mul_zero
  rw [hzero]
  exact congrArg BitVec.toNat (BitVec.add_zero _)

theorem Lists.serialize (h : s.Lists table) (m : Bytes) (max_path_length : BitVec 32)
    (hfuel : 2 ^ 32 < fuel) (hfile : file ≠ 0)
    (hroom : file.toNat + file_size.toNat < 2 ^ 64) (hlt : file_size.toNat < 2 ^ 32)
    (hsize : 0x16 + 0x8 * table.length ≤ file_size.toNat) :
    ∃ t m', IsRedBlack s.m_crc32_entry_list t ∧ t.toList.Perm (table.map (·.node)) ∧
      s.Serialize m fuel file file_size max_path_length = .ok m' ∧ s.Laid m' file t.toList := by
  obtain ⟨t, ht, hperm⟩ := h.tree
  have hle := h.length_le
  have hlength := hperm.length_eq
  rw [List.length_map] at hlength
  have hcheck : check (file ≠ 0 && BitVec.ofNat 64 (0x16 + 0x8 * table.length) ≤ file_size)
      Fault.assertion = .ok () := by
    rw [check, if_pos]
    rw [Bool.and_eq_true, decide_eq_true_iff, decide_eq_true_iff, BitVec.le_def,
      BitVec.toNat_ofNat, Nat.mod_eq_of_lt (by omega)]
    exact ⟨hfile, hsize⟩
  have hcrc32 : nodes fuel s.m_crc32_entry_list = .ok t.toList :=
    walk_begin ht.represents (by omega)
  have hcollision : nodes fuel s.m_collision_entry_list = .ok [] := by
    rw [nodes, begin, h.none]
    cases fuel <;> rfl
  have hoffset : ∀ k : BitVec 64, k.toNat ≤ 0x16 → (file + k).toNat = file.toNat + k.toNat :=
    fun k hk => BitVec.toNat_add_of_lt (by omega)
  have harray : (file + 0x16).toNat = file.toNat + 0x16 := hoffset 0x16 (Nat.le_refl _)
  have hzero : (0 : BitVec 32).toNat = 0 := rfl
  obtain ⟨header, hheader⟩ : ∃ header,
      header = writeHeader (clear m file.toNat file_size.toNat) file max_path_length := ⟨_, rfl⟩
  obtain ⟨hcount, hstream⟩ :=
    s.streamCrc32_spec (file + 0x16) t.toList 0 header (by omega) (by omega)
  obtain ⟨⟨m', crc32_count⟩, hstreamed⟩ : ∃ r, r = s.streamCrc32 (file + 0x16) t.toList 0 header :=
    ⟨_, rfl⟩
  rw [← hstreamed] at hcount hstream
  dsimp only at hcount hstream
  rw [hheader] at hstream
  refine ⟨t, store (store m' (file + 0xe).toNat 4 crc32_count.toNat) (file + 0x12).toNat 4
    (0 : BitVec 32).toNat, ht, hperm, ?_, ?_⟩
  · simp only [Serialize, h.calculateSerializedSize hfuel, hcheck, hcrc32, hcollision, bind,
      Except.bind, pure, Except.pure, ← hheader, ← hstreamed]
    rfl
  · exact hstream.laid (by omega) (by omega)

section Extract

variable {nodes : List Addr} {file_size max_path : BitVec 32} {e : Extractor}

def extractor (m : Bytes) (file : BitVec 64) : Extractor where
  m_resource_size_crc32_array := file + 0x16
  m_resource_size_collision_array := 0
  m_resource_size_crc32_count := read32 m (file + 0xe)
  m_resource_size_collision_count := 0
  m_max_path := read32 m (file + 0xa)
  m_head := file

theorem Laid.initialize (h : s.Laid m file nodes) (hfile : file ≠ 0) (hsize : 0x8 ≤ file_size) :
    e.Initialize m file file_size max_path = (extractor m file, true) := by
  have hvalid : ¬(file = 0 ∨ file_size < 0x8) := by
    rintro (hnull | hsmall)
    · exact hfile hnull
    · exact absurd hsize (BitVec.not_le.mpr hsmall)
  have hmagic : read32 m file = cMagic0 ∧ read16 m (file + 0x4) = cMagic1 := ⟨h.magic0, h.magic1⟩
  rw [Extractor.Initialize, if_neg hvalid]
  dsimp only
  rw [if_pos hmagic, h.collisions]
  rfl

theorem Laid.pathCrc32 (h : s.Laid m file nodes)
    (hroom : file.toNat + 0x16 + 0x8 * nodes.length < 2 ^ 64) {i : BitVec 32}
    (hi : i.toNat < nodes.length) :
    (extractor m file).pathCrc32 m i =
        BitVec.ofFin (s.m_crc32_entry_list.node nodes[i.toNat]).key ∧
      (extractor m file).resourceSize m i = s.size nodes[i.toNat] := by
  have harray : (file + 0x16).toNat = file.toNat + 0x16 := BitVec.toNat_add_of_lt (by
    rw [show (0x16 : BitVec 64).toNat = 0x16 from rfl]
    omega)
  have hentry : ((extractor m file).entry i).toNat = file.toNat + 0x16 + 0x8 * i.toNat := by
    rw [ResourceSizeTableExtractor.entry, extractor]
    dsimp only
    rw [entry_toNat _ _ (by omega), harray]
  obtain ⟨hkey, hsize⟩ := h.entries i.toNat hi
  constructor
  · apply BitVec.eq_of_toNat_eq
    rw [ResourceSizeTableExtractor.pathCrc32, read32, hentry, hkey, BitVec.toNat_ofNat]
    exact Nat.mod_eq_of_lt (Fin.isLt _)
  · apply BitVec.eq_of_toNat_eq
    rw [ResourceSizeTableExtractor.resourceSize, read32, BitVec.toNat_add_of_lt (by
      rw [hentry, show (0x4 : BitVec 64).toNat = 0x4 from rfl]
      omega), hentry, show (0x4 : BitVec 64).toNat = 0x4 from rfl, hsize, BitVec.toNat_ofNat]
    exact Nat.mod_eq_of_lt (s.size _).isLt

end Extract

end ResourceSizeTableBuilder

end Awn.ResourceSizeTable
