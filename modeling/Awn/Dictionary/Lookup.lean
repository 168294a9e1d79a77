import Awn.Dictionary.Build

namespace Awn.ResNintendoWareDictionary

open Patricia

theorem entryIndex_zero : entryIndex 0 = cInvalidEntryIndex := by decide

theorem entryIndex_pos {x : BitVec 16} (hpos : 0 < x.toNat) (hx : x.toNat < 2 ^ 15) :
    entryIndex x = BitVec.ofNat 32 (x.toNat - 1) := by
  have hmsb : x.msb = false := by
    rw [BitVec.msb_eq_false_iff_two_mul_lt]
    omega
  have hext : (x.signExtend 64).toNat = x.toNat := by
    rw [BitVec.signExtend_eq_setWidth_of_msb_false hmsb, BitVec.toNat_setWidth]
    omega
  have hdiff : (0x8 + 0x10 * x.signExtend 64 - 0x18 : BitVec 64).toNat = 16 * (x.toNat - 1) := by
    rw [BitVec.toNat_sub, BitVec.toNat_add, BitVec.toNat_mul, hext]
    simp only [BitVec.ofNat_eq_ofNat, BitVec.toNat_ofNat]
    omega
  have hbit : (~~~(0x8 + 0x10 * x.signExtend 64 - 0x18 : BitVec 64) &&& 0xffffffff0 != 0) = true := by
    rw [bne_iff_ne]
    intro hz
    have h35 := congrArg (BitVec.getLsbD · 35) hz
    have hmask : (0xffffffff0 : BitVec 64).getLsbD 35 = true := by decide
    have hlow : (0x8 + 0x10 * x.signExtend 64 - 0x18 : BitVec 64).getLsbD 35 = false := by
      rw [BitVec.getLsbD, hdiff]
      apply Nat.testBit_lt_two_pow
      omega
    simp only [BitVec.getLsbD_and, BitVec.getLsbD_not, hmask, hlow] at h35
    exact absurd h35 (by decide)
  have hge : (0x8 + 0x10 * x.signExtend 64 - 0x18 : BitVec 64).msb = false := by
    rw [BitVec.msb_eq_false_iff_two_mul_lt, hdiff]
    omega
  rw [entryIndex]
  rw [if_pos hbit, BitVec.sshiftRight_eq_of_msb_false hge]
  apply BitVec.eq_of_toNat_eq
  rw [BitVec.toNat_setWidth, BitVec.toNat_ushiftRight, hdiff, BitVec.toNat_ofNat,
    Nat.shiftRight_eq_div_pow]
  omega

theorem checkKey_eq {node_key key : List (BitVec 8)} (hnode : node_key.length < 2 ^ 16)
    (hkey : key.length < 2 ^ 32) (index : BitVec 16) :
    checkKey node_key key index =
      if node_key = key then entryIndex index else cInvalidEntryIndex := by
  have hlen : (BitVec.ofNat 32 key.length).toNat = key.length := by
    rw [BitVec.toNat_ofNat]
    omega
  have hnlen := keyLength_toNat hnode
  have hwide := keyLength_setWidth hnode
  have hinv : BitVec.ofInt 32 (-1) = cInvalidEntryIndex := by decide
  simp only [checkKey, BitVec.lt_def, BitVec.le_def, hlen, hwide, hinv]
  by_cases hsame : node_key = key
  · subst hsame
    rw [if_pos rfl, if_neg (by omega), if_neg (by simp), if_neg (by omega), if_neg (by omega)]
  · rw [if_neg hsame]
    by_cases hlt : node_key.length = key.length
    · have htake : node_key.take (keyLength node_key).toNat ≠ key.take (keyLength node_key).toNat := by
        rw [hnlen, List.take_length, hlt, List.take_length]
        exact hsame
      rw [if_pos (show node_key.length ≤ key.length by omega), if_pos htake]
      split <;> rfl
    · have hends : ∀ e : BitVec 32, (if key.length < node_key.length then cInvalidEntryIndex
          else if node_key.length < key.length then cInvalidEntryIndex else e) =
          cInvalidEntryIndex := by
        intro e
        split
        · rfl
        · rw [if_pos (by omega)]
      rw [hends, ite_self, ite_self]

theorem Building.lookup {d₀ d : ResNintendoWareDictionary} {T : Trie} (hv : d₀.Valid)
    (h : Building d₀ d T (d₀.node_count.toNat + 1)) {fuel : ℕ} (hfuel : 2 ^ 19 ≤ fuel)
    {key : List (BitVec 8)} (hkey : key.length < 2 ^ 32) :
    ∃ x ≤ d₀.node_count.toNat, T.Search (bits key) 0 x ∧
      TryGetEntryIndexByKey fuel d key =
        some (if 0 < x ∧ (d₀.node_array x).key = key then BitVec.ofNat 32 (x - 1)
          else cInvalidEntryIndex) := by
  obtain ⟨hpos, -, hclosed⟩ := h.built.bounds
  have hleft := h.root_next (bits_zero key)
  have hbit : ∀ t < d₀.node_count.toNat + 1, 0 < T.ref t →
      queryBit key (d.node_array t).ref_bit = bits key (T.ref t) :=
    fun t ht ht' => h.represents.queryBit_eq_bits hkey ht ht'
  obtain ⟨x, hx, hxn, hs⟩ := h.represents.traverse_spec hbit h.bound fuel hpos hleft (by omega)
  refine ⟨x.toNat, by omega, hs, ?_⟩
  have hsmall := hv.small
  have hint := hv.toInt_eq
  rw [TryGetEntryIndexByKey, h.represents.node_eq (by rw [hleft]; exact hclosed 0 hpos _)]
  simp only [Option.bind_eq_bind, Option.bind_some]
  rw [hx, Option.bind_some, h.represents.node_eq hxn, Option.bind_some, h.keys,
    checkKey_eq (hv.short _ (by omega)) hkey]
  congr 1
  by_cases hxpos : 0 < x.toNat
  · rw [entryIndex_pos hxpos (by omega)]
    simp only [hxpos, true_and]
  · have hz : x = 0 := by
      apply BitVec.eq_of_toNat_eq
      have : (0 : BitVec 16).toNat = 0 := by decide
      omega
    rw [hz, entryIndex_zero, ite_self, if_neg]
    rintro ⟨hlt, -⟩
    exact absurd hlt (by decide)

structure Finds (fuel : ℕ) (d d' : ResNintendoWareDictionary) : Prop where
  key : ∀ i < d.node_count.toNat,
    TryGetEntryIndexByKey fuel d' (d.node_array (i + 1)).key = some (BitVec.ofNat 32 i)
  other : ∀ key : List (BitVec 8), NulFree key → key.length < 2 ^ 32 →
    (∀ i < d.node_count.toNat, key ≠ (d.node_array (i + 1)).key) →
    TryGetEntryIndexByKey fuel d' key = some cInvalidEntryIndex

theorem Building.finds_iff {d₀ d : ResNintendoWareDictionary} {T : Trie} (hv : d₀.Valid)
    (h : Building d₀ d T (d₀.node_count.toNat + 1)) {fuel : ℕ} (hfuel : 2 ^ 19 ≤ fuel) :
    Finds fuel d₀ d ↔
      ∀ s, 0 < s → s < d₀.node_count.toNat + 1 → T.Search (keyBits d₀ s) 0 s := by
  have hsmall := hv.small
  have hint := hv.toInt_eq
  have hlook : ∀ i < d₀.node_count.toNat, ∃ x ≤ d₀.node_count.toNat,
      T.Search (keyBits d₀ (i + 1)) 0 x ∧
        TryGetEntryIndexByKey fuel d (d₀.node_array (i + 1)).key =
          some (if x = i + 1 then BitVec.ofNat 32 i else cInvalidEntryIndex) := by
    intro i hi
    have hshort := hv.short (i + 1) (by omega)
    have hlen : (d₀.node_array (i + 1)).key.length < 2 ^ 32 := by omega
    obtain ⟨x, hx, hs, hget⟩ := h.lookup hv hfuel hlen
    refine ⟨x, hx, hs, ?_⟩
    rw [hget]
    congr 1
    by_cases hxi : x = i + 1
    · rw [if_pos ⟨by omega, by rw [hxi]⟩, if_pos hxi, hxi, Nat.add_sub_cancel]
    · rw [if_neg, if_neg hxi]
      rintro ⟨-, he⟩
      exact hxi (hv.distinct x hx (i + 1) (by omega) he)
  constructor
  · intro hf s hs0 hs
    cases s with
    | zero => omega
    | succ i =>
      obtain ⟨x, -, hxs, hget⟩ := hlook i (by omega)
      rw [hf.key i (by omega)] at hget
      have hx : x = i + 1 := by
        by_contra hne
        rw [if_neg hne, Option.some_inj] at hget
        have := congrArg BitVec.toNat hget
        rw [BitVec.toNat_ofNat] at this
        have hinv : cInvalidEntryIndex.toNat = 2 ^ 32 - 1 := by decide
        omega
      rwa [hx] at hxs
  · intro hall
    constructor
    · intro i hi
      obtain ⟨x, -, hxs, hget⟩ := hlook i hi
      rw [hget, if_pos (hxs.unique (hall (i + 1) (by omega) (by omega)))]
    · intro key hnul hlen hne
      obtain ⟨x, hx, -, hget⟩ := h.lookup hv hfuel hlen
      rw [hget, if_neg]
      rintro ⟨hxpos, he⟩
      apply hne (x - 1) (by omega)
      rw [show x - 1 + 1 = x by omega, he]

def WellOriented (d : ResNintendoWareDictionary) : Prop :=
  (d.node_count = 0 → (d.node_array 0).left_node = 0) ∧
    Oriented (keyBits d) (d.node_count.toNat + 1)

theorem finds_empty_iff {d : ResNintendoWareDictionary} (hv : d.Valid) (hz : d.node_count = 0)
    {fuel : ℕ} (hfuel : 0 < fuel) : Finds fuel d d ↔ (d.node_array 0).left_node = 0 := by
  have hcount : d.node_count.toNat = 0 := by rw [hz]; rfl
  have hcount' : d.node_count.toInt = 0 := by rw [hz]; rfl
  constructor
  · intro hf
    have hget := hf.other [] (fun c hc => absurd hc List.not_mem_nil) (by simp) (by omega)
    by_contra hne
    have hnone : d.node (d.node_array 0).left_node = none := by
      rw [node, if_neg]
      rintro ⟨h0, hle⟩
      apply hne
      apply BitVec.eq_of_toInt_eq
      rw [show (0 : BitVec 16).toInt = 0 by decide]
      omega
    rw [TryGetEntryIndexByKey, hnone] at hget
    exact absurd hget (by simp)
  · intro hleft
    constructor
    · intro i hi
      omega
    · intro key _ hlen _
      have hnode : d.node 0 = some (d.node_array 0) := by
        rw [node, if_pos]
        · rfl
        · rw [show (0 : BitVec 16).toInt = 0 by decide]
          omega
      obtain ⟨k, rfl⟩ : ∃ k, fuel = k + 1 := ⟨fuel - 1, by omega⟩
      have hirr : ¬(d.node_array 0).ref_bit.slt (d.node_array 0).ref_bit = true := by
        rw [BitVec.slt_iff_toInt_lt]
        omega
      rw [TryGetEntryIndexByKey, hleft, hnode]
      simp only [Option.bind_eq_bind, Option.bind_some]
      rw [traverse, if_neg hirr, Option.bind_some, hnode, Option.bind_some,
        checkKey_eq (by rw [hv.root]; simp) hlen, entryIndex_zero, ite_self]

/-- Built over any valid list of keys, the dictionary finds each key at its index and no other
string, every search ending, exactly when the keys are well oriented. -/
theorem build_finds_iff (d : ResNintendoWareDictionary) (hv : d.Valid) (fuel : ℕ)
    (hfuel : 2 ^ 19 ≤ fuel) :
    (∃ d', Build fuel d = some (true, d') ∧ Finds fuel d d') ↔ d.WellOriented := by
  have hnonneg := hv.nonneg
  have hint := hv.toInt_eq
  by_cases hz : d.node_count = 0
  · have hcount : d.node_count.toInt = 0 := by rw [hz]; rfl
    have hbuild : Build fuel d = some (true, d) := by rw [Build, if_pos (by omega)]
    rw [hbuild]
    constructor
    · rintro ⟨d', heq, hf⟩
      obtain ⟨-, rfl⟩ := Prod.mk.inj (Option.some_inj.mp heq)
      refine ⟨fun _ => (finds_empty_iff hv hz (by omega)).mp hf, ?_⟩
      intro i hi hin
      omega
    · rintro ⟨hleft, -⟩
      exact ⟨d, rfl, (finds_empty_iff hv hz (by omega)).mpr (hleft hz)⟩
  · have hpos : 0 < d.node_count.toInt := by
      rcases Nat.eq_zero_or_pos d.node_count.toNat with h0 | hp
      · exact absurd (BitVec.eq_of_toNat_eq h0) hz
      · omega
    obtain ⟨d', T, hbuild, h⟩ := Build_spec hv hfuel hpos
    have hdistinct : ∀ i < d.node_count.toNat + 1, ∀ l < i, keyBits d i ≠ keyBits d l := by
      intro i hi l hl he
      have := hv.distinct i (by omega) l (by omega)
        (bits_injective (hv.nulFree i (by omega)) (hv.nulFree l (by omega)) he)
      omega
    have hfound := (h.finds_iff hv hfuel).trans
      (h.built.found_iff (fun s => bits_zero _) h.bound hdistinct)
    rw [hbuild]
    constructor
    · rintro ⟨e, heq, hf⟩
      obtain ⟨-, rfl⟩ := Prod.mk.inj (Option.some_inj.mp heq)
      exact ⟨fun h0 => absurd h0 hz, hfound.mp hf⟩
    · rintro ⟨-, ho⟩
      exact ⟨d', rfl, hfound.mpr ho⟩

def ofKeys (keys : List (List (BitVec 8))) : ResNintendoWareDictionary where
  node_count := BitVec.ofNat 32 keys.length
  node_array i := { ref_bit := 0, left_node := 0, right_node := 0, key := ([] :: keys).getD i [] }

def keysAB : ResNintendoWareDictionary := ofKeys [[0x61], [0x62]]

def keysAC : ResNintendoWareDictionary := ofKeys [[0x61], [0x63]]

theorem keysAB_valid : keysAB.Valid := by
  constructor <;> decide

theorem keysAC_valid : keysAC.Valid := by
  constructor <;> decide

theorem build_finds_iff_keysAB :
    (∃ d', Build (2 ^ 19) keysAB = some (true, d') ∧ Finds (2 ^ 19) keysAB d') ↔
      keysAB.WellOriented :=
  build_finds_iff keysAB keysAB_valid (2 ^ 19) (le_refl _)

theorem keysAC_not_found :
    keysAC.Valid ∧ ¬∃ d', Build (2 ^ 19) keysAC = some (true, d') ∧ Finds (2 ^ 19) keysAC d' := by
  refine ⟨keysAC_valid, ?_⟩
  rintro ⟨d', hbuild, hf⟩
  have hget : ((Build (2 ^ 19) keysAC).bind fun r => TryGetEntryIndexByKey (2 ^ 19) r.2 [0x63]) =
      some cInvalidEntryIndex := by decide +kernel
  have hkey : TryGetEntryIndexByKey (2 ^ 19) d' [0x63] = some (BitVec.ofNat 32 1) :=
    hf.key 1 (by decide)
  rw [hbuild, Option.bind_some, hkey] at hget
  exact absurd hget (by decide)

end Awn.ResNintendoWareDictionary
