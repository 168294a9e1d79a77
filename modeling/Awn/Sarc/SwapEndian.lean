import Awn.Sarc.Extractor

/-! `vp::res::ResSarc::SwapEndian`: the swap of an archive in memory. -/

namespace Awn.Sarc

open Memory

def swapValue (width value : ℕ) : ℕ :=
  if width = 2 then (swapEndian16 (BitVec.ofNat 16 value)).toNat
  else (swapEndian32 (BitVec.ofNat 32 value)).toNat

def swapField (base : BitVec 64) (m : Bytes) (f : ℕ × ℕ) : Bytes :=
  let a := (base + BitVec.ofNat 64 f.1).toNat
  store m a f.2 (swapValue f.2 (load m a f.2))

def swapFields (base : BitVec 64) (m : Bytes) (fields : List (ℕ × ℕ)) : Bytes :=
  fields.foldl (swapField base) m

def sarcSwaps : List (ℕ × ℕ) := [(0x0, 4), (0x4, 2), (0x6, 2), (0x8, 4), (0xc, 4), (0x10, 2)]

def sfatSwaps : List (ℕ × ℕ) := [(0x0, 4), (0x4, 2), (0x6, 2), (0x8, 4)]

def entrySwaps : List (ℕ × ℕ) := [(0x0, 4), (0x4, 4), (0x8, 4), (0xc, 4)]

def swapEntries (sfat : BitVec 64) : ℕ → BitVec 32 → Bytes → Bytes
  | 0, _, m => m
  | fuel + 1, i, m =>
    if i < (read16 m (sfat + 0x6)).setWidth 32 then
      swapEntries sfat fuel (i + 1) (swapFields (sfat + 0xc + 0x10 * i.setWidth 64) m entrySwaps)
    else m

def SwapEndian (m : Bytes) (sarc : BitVec 64) : Bytes :=
  let sfat := sarc + 0x14
  let m := swapFields sarc m sarcSwaps
  let m := swapFields sfat m sfatSwaps
  -- `file_count` has 16 bits, so that the loop ends within the fuel
  let m := swapEntries sfat 0x10000 0 m
  let sfnt := sarc + 0x14 + 0xc + 0x10 * (read16 m (sfat + 0x6)).setWidth 64
  let m := store m sfnt.toNat 4 (swapEndian32 (read32 m sfat)).toNat
  store m (sfnt + 0x4).toNat 2 (swapEndian16 (read16 m (sfat + 0x4))).toNat

section SwapFields

variable {m : Bytes} {base : BitVec 64} {fields : List (ℕ × ℕ)}

theorem add_ofNat_toNat {o : ℕ} (h : base.toNat + o < 2 ^ 64) :
    (base + BitVec.ofNat 64 o).toNat = base.toNat + o := by
  rw [BitVec.toNat_add, BitVec.toNat_ofNat]
  omega

theorem swapFields_apply_of_disjoint {b : ℕ} (h : ∀ f ∈ fields, base.toNat + f.1 < 2 ^ 64 ∧
    (b < base.toNat + f.1 ∨ base.toNat + f.1 + f.2 ≤ b)) : swapFields base m fields b = m b := by
  induction fields generalizing m with
  | nil => rfl
  | cons f fields ih =>
    obtain ⟨hlt, hf⟩ := h f List.mem_cons_self
    have hrest := ih (m := swapField base m f) fun g hg => h g (List.mem_cons_of_mem _ hg)
    rw [swapFields, List.foldl_cons]
    refine hrest.trans ?_
    rw [swapField, add_ofNat_toNat hlt, store_apply_of_ne _ _ _ _ _ hf]

theorem load_swapFields_of_disjoint {a n : ℕ} (h : ∀ f ∈ fields, base.toNat + f.1 < 2 ^ 64 ∧
    (a + n ≤ base.toNat + f.1 ∨ base.toNat + f.1 + f.2 ≤ a)) :
    load (swapFields base m fields) a n = load m a n := by
  apply load_congr
  intro b hab hbn
  apply swapFields_apply_of_disjoint
  intro f hf
  have := h f hf
  omega

theorem load_swapFields (hlt : ∀ f ∈ fields, base.toNat + f.1 < 2 ^ 64)
    (hapart : fields.Pairwise fun f g => f.1 + f.2 ≤ g.1 ∨ g.1 + g.2 ≤ f.1)
    {f : ℕ × ℕ} (hf : f ∈ fields) (hwidth : ∀ v, swapValue f.2 v < 256 ^ f.2) :
    load (swapFields base m fields) (base.toNat + f.1) f.2 =
      swapValue f.2 (load m (base.toNat + f.1) f.2) := by
  induction fields generalizing m with
  | nil => cases hf
  | cons g fields ih =>
    rw [List.pairwise_cons] at hapart
    have hg := hlt g List.mem_cons_self
    have hrest : ∀ h ∈ fields, base.toNat + h.1 < 2 ^ 64 :=
      fun h hh => hlt h (List.mem_cons_of_mem _ hh)
    rw [swapFields, List.foldl_cons]
    change load (swapFields base (swapField base m g) fields) _ _ = _
    rcases List.mem_cons.mp hf with rfl | hf
    · rw [load_swapFields_of_disjoint]
      · rw [swapField, add_ofNat_toNat hg, load_store, Nat.mod_eq_of_lt (hwidth _)]
      · intro h hh
        have := hrest h hh
        have := hapart.1 h hh
        omega
    · have hfg := hapart.1 f hf
      rw [ih hrest hapart.2 hf, swapField, add_ofNat_toNat hg, load_store_of_disjoint]
      omega

end SwapFields

theorem swapValue_two_lt (v : ℕ) : swapValue 2 v < 256 ^ 2 := by
  rw [swapValue, if_pos rfl]
  exact BitVec.isLt _

theorem swapValue_four_lt (v : ℕ) : swapValue 4 v < 256 ^ 4 := by
  rw [swapValue, if_neg (by decide)]
  exact BitVec.isLt _

theorem swapEntry_spec {m : Bytes} {entry : BitVec 64} (hentry : entry.toNat + 0x10 ≤ 2 ^ 64) :
    (∀ b, b < entry.toNat ∨ entry.toNat + 0x10 ≤ b → swapFields entry m entrySwaps b = m b) ∧
      load (swapFields entry m entrySwaps) entry.toNat 4 = swapValue 4 (load m entry.toNat 4) := by
  have hsize : ∀ f ∈ entrySwaps, f.1 + f.2 ≤ 0x10 ∧ 0 < f.2 := by decide
  constructor
  · intro b hb
    apply swapFields_apply_of_disjoint
    intro f hf
    have := hsize f hf
    omega
  · refine load_swapFields (f := (0x0, 4)) ?_ (by decide) (by decide) swapValue_four_lt
    intro f hf
    have := hsize f hf
    omega

section Entries

variable {sfat : BitVec 64} (hsfat : sfat.toNat + 0x10000c ≤ 2 ^ 64)
include hsfat

theorem entry_toNat {i : ℕ} (hi : i < 0x10000) :
    (sfat + 0xc + 0x10 * (BitVec.ofNat 32 i).setWidth 64).toNat = sfat.toNat + 0xc + 0x10 * i := by
  simp only [BitVec.toNat_add, BitVec.toNat_mul, BitVec.toNat_setWidth, BitVec.toNat_ofNat,
    BitVec.ofNat_eq_ofNat]
  omega

theorem swapEntries_spec {m : Bytes} {count fuel i : ℕ} (hcount : load m (sfat.toNat + 6) 2 = count)
    (hi : i ≤ 0x10000) (hfuel : 0x10000 ≤ fuel + i) :
    (∀ b, b < sfat.toNat + 0xc + 0x10 * i ∨ sfat.toNat + 0xc + 0x10 * count ≤ b →
      swapEntries sfat fuel (BitVec.ofNat 32 i) m b = m b) ∧
    ∀ k, i ≤ k → k < count →
      load (swapEntries sfat fuel (BitVec.ofNat 32 i) m) (sfat.toNat + 0xc + 0x10 * k) 4 =
        swapValue 4 (load m (sfat.toNat + 0xc + 0x10 * k) 4) := by
  have hlt := load_lt m (sfat.toNat + 6) 2
  have haddr : (sfat + 0x6).toNat = sfat.toNat + 6 := add_ofNat_toNat (o := 6) (by omega)
  induction fuel generalizing m i with
  | zero =>
    refine ⟨fun _ _ => rfl, fun k hik hk => ?_⟩
    omega
  | succ fuel ih =>
    have hcond : BitVec.ofNat 32 i < (read16 m (sfat + 0x6)).setWidth 32 ↔ i < count := by
      rw [read16, haddr, hcount, BitVec.lt_def]
      simp only [BitVec.toNat_setWidth, BitVec.toNat_ofNat]
      omega
    by_cases hlast : i < count
    · have hnext : BitVec.ofNat 32 i + 1 = BitVec.ofNat 32 (i + 1) := by
        rw [BitVec.ofNat_add]
        rfl
      have hentry := entry_toNat hsfat (show i < 0x10000 by omega)
      rw [swapEntries, if_pos (hcond.mpr hlast), hnext]
      obtain ⟨hother, hhash⟩ := swapEntry_spec (m := m) (show
        (sfat + 0xc + 0x10 * (BitVec.ofNat 32 i).setWidth 64).toNat + 0x10 ≤ 2 ^ 64 by omega)
      rw [hentry] at hother hhash
      have hcount' : load (swapFields (sfat + 0xc + 0x10 * (BitVec.ofNat 32 i).setWidth 64) m
          entrySwaps) (sfat.toNat + 6) 2 = count := by
        rw [load_congr (fun b hb hn => hother b (by omega)), hcount]
      obtain ⟨hframe, hswap⟩ := ih (i := i + 1) hcount' (by omega) (by omega) (load_lt _ _ _)
      constructor
      · intro b hb
        rw [hframe b (by omega), hother b (by omega)]
      · intro k hik hk
        by_cases hki : k = i
        · rw [hki, load_congr (fun b hb hn => hframe b (by omega)), hhash]
        · rw [hswap k (by omega) hk]
          congr 1
          exact load_congr fun b hb hn => hother b (by omega)
    · rw [swapEntries, if_neg (fun h => hlast (hcond.mp h))]
      refine ⟨fun _ _ => rfl, fun k hik hk => ?_⟩
      omega

end Entries

structure Swapped (m m' : Bytes) (a count : ℕ) : Prop where
  endianess : load m' (a + 0x6) 2 = swapValue 2 (load m (a + 0x6) 2)
  file_count : load m' (a + 0x1a) 2 = count
  sfat_magic : load m' (a + 0x14) 4 = swapValue 4 (load m (a + 0x14) 4)
  hash : ∀ k < count, load m' (a + 0x20 + 0x10 * k) 4 = swapValue 4 (load m (a + 0x20 + 0x10 * k) 4)
  sfnt_magic : load m' (a + 0x20 + 0x10 * count) 4 = swapValue 4 (load m' (a + 0x14) 4)
  behind : ∀ k, count < k → load m' (a + 0x20 + 0x10 * k) 4 = load m (a + 0x20 + 0x10 * k) 4

theorem SwapEndian_swapped {m : Bytes} {sarc : BitVec 64} (hsarc : sarc.toNat ≤ 2 ^ 63) :
    Swapped m (SwapEndian m sarc) sarc.toNat (swapValue 2 (load m (sarc.toNat + 0x1a) 2)) := by
  generalize hcount : swapValue 2 (load m (sarc.toNat + 0x1a) 2) = count
  have hlt : count < 256 ^ 2 := hcount ▸ swapValue_two_lt _
  have hsfat : (sarc + 0x14).toNat = sarc.toNat + 0x14 := add_ofNat_toNat (o := 0x14) (by omega)
  have hsarcSize : ∀ f ∈ sarcSwaps, f.1 + f.2 ≤ 0x12 ∧ 0 < f.2 := by decide
  have hsfatSize : ∀ f ∈ sfatSwaps, f.1 + f.2 ≤ 0xc ∧ 0 < f.2 := by decide
  -- the header, the `sfat`, the entries, and the magic and the header size of the `sfnt`
  generalize hm₁ : swapFields sarc m sarcSwaps = m₁
  generalize hm₂ : swapFields (sarc + 0x14) m₁ sfatSwaps = m₂
  generalize hm₃ : swapEntries (sarc + 0x14) 0x10000 0 m₂ = m₃
  have hfirst : ∀ c n, sarc.toNat + 0x12 ≤ c → load m₁ c n = load m c n := by
    intro c n hc
    rw [← hm₁]
    apply load_swapFields_of_disjoint
    intro f hf
    have := hsarcSize f hf
    omega
  have hsecond : ∀ c n, c + n ≤ sarc.toNat + 0x14 ∨ sarc.toNat + 0x20 ≤ c →
      load m₂ c n = load m₁ c n := by
    intro c n hc
    rw [← hm₂]
    apply load_swapFields_of_disjoint
    intro f hf
    have := hsfatSize f hf
    omega
  have hendianess : load m₂ (sarc.toNat + 0x6) 2 = swapValue 2 (load m (sarc.toNat + 0x6) 2) := by
    rw [hsecond _ _ (by omega), ← hm₁]
    refine load_swapFields (f := (0x6, 2)) ?_ (by decide) (by decide) swapValue_two_lt
    intro f hf
    have := hsarcSize f hf
    omega
  have hfields : ∀ f ∈ sfatSwaps, (∀ v, swapValue f.2 v < 256 ^ f.2) →
      load m₂ (sarc.toNat + 0x14 + f.1) f.2 = swapValue f.2 (load m (sarc.toNat + 0x14 + f.1) f.2) := by
    intro f hf hwidth
    rw [← hfirst _ _ (by omega), ← hm₂, ← hsfat]
    refine load_swapFields ?_ (by decide) hf hwidth
    intro g hg
    have := hsfatSize g hg
    omega
  have hfile_count : load m₂ ((sarc + 0x14).toNat + 6) 2 = count := by
    rw [hsfat, ← hcount]
    exact hfields (0x6, 2) (by decide) swapValue_two_lt
  have hentries : 0x10000 ≤ 0x10000 + 0 := le_rfl
  have hsfatEnd : (sarc + 0x14).toNat + 0x10000c ≤ 2 ^ 64 := by omega
  obtain ⟨hframe, hswap⟩ := swapEntries_spec hsfatEnd hfile_count
    (Nat.zero_le 0x10000) hentries
  have hm₃' : swapEntries (sarc + 0x14) 0x10000 (BitVec.ofNat 32 0) m₂ = m₃ := hm₃
  rw [hm₃'] at hframe hswap
  rw [hsfat] at hframe hswap
  have hthird : ∀ c n, c + n ≤ sarc.toNat + 0x20 ∨ sarc.toNat + 0x20 + 0x10 * count ≤ c →
      load m₃ c n = load m₂ c n := by
    intro c n hc
    exact load_congr fun b hb hn => hframe b (by omega)
  have hcountWord : read16 m₃ (sarc + 0x14 + 0x6) = BitVec.ofNat 16 count := by
    have haddr : (sarc + 0x14 + 0x6).toNat = sarc.toNat + 0x1a := by
      rw [show (0x6 : BitVec 64) = BitVec.ofNat 64 0x6 from rfl, add_ofNat_toNat (by omega), hsfat]
    rw [read16, haddr, hthird _ _ (by omega), ← hfile_count, hsfat]
  have hsfnt : (sarc + 0x14 + 0xc + 0x10 * (read16 m₃ (sarc + 0x14 + 0x6)).setWidth 64).toNat =
      sarc.toNat + 0x20 + 0x10 * count := by
    rw [hcountWord]
    simp only [BitVec.toNat_add, BitVec.toNat_mul, BitVec.toNat_setWidth, BitVec.toNat_ofNat,
      BitVec.ofNat_eq_ofNat]
    omega
  have hm' : ∀ c n, c + n ≤ sarc.toNat + 0x20 + 0x10 * count ∨
      sarc.toNat + 0x26 + 0x10 * count ≤ c → load (SwapEndian m sarc) c n = load m₃ c n := by
    intro c n hc
    rw [SwapEndian]
    simp only [hm₁, hm₂, hm₃]
    rw [load_store_of_disjoint, load_store_of_disjoint]
    · rw [hsfnt]
      omega
    · rw [show (0x4 : BitVec 64) = BitVec.ofNat 64 0x4 from rfl, add_ofNat_toNat (by omega), hsfnt]
      omega
  have hmagic : load (SwapEndian m sarc) (sarc.toNat + 0x14) 4 =
      swapValue 4 (load m (sarc.toNat + 0x14) 4) := by
    rw [hm' _ _ (by omega), hthird _ _ (by omega)]
    exact hfields (0x0, 4) (by decide) swapValue_four_lt
  constructor
  · rw [hm' _ _ (by omega), hthird _ _ (by omega)]
    exact hendianess
  · rw [hm' _ _ (by omega), hthird _ _ (by omega), ← hfile_count, hsfat]
  · exact hmagic
  · intro k hk
    rw [hm' _ _ (by omega), hswap k (by omega) hk, hsecond _ _ (by omega), hfirst _ _ (by omega)]
  · rw [hm' (sarc.toNat + 0x14) _ (by omega), ← hsfnt, SwapEndian]
    simp only [hm₁, hm₂, hm₃]
    rw [load_store_of_disjoint, load_store, swapValue, if_neg (by decide), read32, hsfat]
    · exact Nat.mod_eq_of_lt (BitVec.isLt _)
    · rw [show (0x4 : BitVec 64) = BitVec.ofNat 64 0x4 from rfl, add_ofNat_toNat (by omega)]
      omega
  · intro k hk
    rw [hm' _ _ (by omega), hthird _ _ (by omega), hsecond _ _ (by omega), hfirst _ _ (by omega)]

end Awn.Sarc
