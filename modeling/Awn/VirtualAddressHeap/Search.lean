import Awn.VirtualAddressHeap.Heap
import Mathlib.Data.Nat.Bitwise
import Mathlib.Tactic.IntervalCases

/-! The page masks and the recorded sizes of the regions. -/

namespace Awn.VirtualAddressHeap

theorem getLsbD_lowBits (n j : ℕ) : (lowBits n).getLsbD j = decide (j < 32 ∧ j < n) := by
  have hones : (-1#32 : BitVec 32) = BitVec.allOnes 32 := by decide
  unfold lowBits
  rw [hones, BitVec.getLsbD_not, BitVec.getLsbD_shiftLeft, BitVec.getLsbD_allOnes]
  by_cases hj : j < 32 <;> by_cases hn : j < n <;> simp [hj, hn]
  omega

theorem getLsbD_run (n i : ℕ) {j : ℕ} (hj : j < 16) :
    (lowBits n <<< i).getLsbD j = decide (i ≤ j ∧ j < i + n) := by
  rw [BitVec.getLsbD_shiftLeft, getLsbD_lowBits, Bool.eq_iff_iff]
  simp only [Bool.and_eq_true, decide_eq_true_eq, Bool.not_eq_true', decide_eq_false_iff_not]
  omega

namespace VirtualHeapSmallMemoryBlock

variable (block : VirtualHeapSmallMemoryBlock) {n i j : ℕ}

theorem usePages_bit (hj : j < 16) :
    (block.usePages (lowBits n <<< i)).page_mask.getLsbD j =
      (block.page_mask.getLsbD j || decide (i ≤ j ∧ j < i + n)) := by
  unfold usePages
  rw [BitVec.getLsbD_or, BitVec.getLsbD_setWidth, getLsbD_run n i hj, decide_eq_true hj,
    Bool.true_and]

theorem clearPages_bit (hj : j < 16) :
    (block.clearPages (lowBits n <<< i)).page_mask.getLsbD j =
      (block.page_mask.getLsbD j && !decide (i ≤ j ∧ j < i + n)) := by
  unfold clearPages
  rw [BitVec.getLsbD_and, BitVec.getLsbD_setWidth, BitVec.getLsbD_not, getLsbD_run n i hj,
    decide_eq_true hj, decide_eq_true (show j < 32 by omega), Bool.true_and, Bool.true_and]

@[simp]
theorem setSize_page_mask (page count : ℕ) :
    (block.setSize page count).page_mask = block.page_mask := rfl

@[simp]
theorem usePages_size (mask : BitVec 32) (address : ℕ) :
    (block.usePages mask).size address = block.size address := rfl

@[simp]
theorem clearPages_size (mask : BitVec 32) (address : ℕ) :
    (block.clearPages mask).size address = block.size address := rfl

end VirtualHeapSmallMemoryBlock

theorem page_eq (address : ℕ) : (address >>> 12) &&& 0xf = address / c4KB % 16 := by
  rw [Nat.shiftRight_eq_div_pow]
  exact Nat.and_two_pow_sub_one_eq_mod _ 4

theorem index_eq (address : ℕ) : ((address >>> 12) >>> 1) &&& 7 = address / c4KB % 16 / 2 := by
  rw [Nat.shiftRight_eq_div_pow, Nat.shiftRight_eq_div_pow]
  refine (Nat.and_two_pow_sub_one_eq_mod _ 3).trans ?_
  unfold c4KB
  omega

theorem shift_eq (address : ℕ) : (address >>> 10) &&& 4 = 4 * (address / c4KB % 16 % 2) := by
  have htwo : (address >>> 10) &&& 2 ^ 2 = ((address >>> 10).testBit 2).toNat * 2 ^ 2 :=
    Nat.and_two_pow _ 2
  rw [show (4 : ℕ) = 2 ^ 2 from rfl, htwo, Nat.testBit_shiftRight, Nat.toNat_testBit]
  unfold c4KB
  omega

def half (byte : BitVec 8) (page : ℕ) : BitVec 8 := byte >>> (4 * (page % 2)) &&& 0xf

def setHalf (byte : BitVec 8) (page n : ℕ) : BitVec 8 :=
  if page &&& 1 = 0 then byte &&& 0xf0 ||| BitVec.ofNat 8 n
  else byte &&& 0xf ||| BitVec.ofNat 8 (n <<< 4)

variable {byte : BitVec 8} {n page q : ℕ}

theorem half_bit {j : ℕ} (hj : j < 4) :
    (half byte page).getLsbD j = byte.getLsbD (4 * (page % 2) + j) := by
  have hmask : (0xf#8).getLsbD j = true := by interval_cases j <;> rfl
  unfold half
  rw [BitVec.getLsbD_and, BitVec.getLsbD_ushiftRight]
  exact (congrArg _ hmask).trans (Bool.and_true _)

theorem half_high {j : ℕ} (hj : 4 ≤ j) (hlt : j < 8) : (half byte page).getLsbD j = false := by
  have hmask : (0xf#8).getLsbD j = false := by interval_cases j <;> rfl
  unfold half
  rw [BitVec.getLsbD_and]
  exact (congrArg _ hmask).trans (Bool.and_false _)

theorem testBit_of_ge {j : ℕ} (hn : n < 16) (hj : 4 ≤ j) : n.testBit j = false :=
  Nat.testBit_lt_two_pow (lt_of_lt_of_le (show n < 2 ^ 4 from hn)
    (Nat.pow_le_pow_right (by decide) hj))

theorem setHalf_bit {j : ℕ} (hj : j < 4) (hn : n < 16) (q : ℕ) :
    (setHalf byte page n).getLsbD (4 * (q % 2) + j) =
      if q % 2 = page % 2 then n.testBit j else byte.getLsbD (4 * (q % 2) + j) := by
  have hand : page &&& 1 = page % 2 := Nat.and_one_is_mod page
  have hhigh : n.testBit (4 + j) = false := testBit_of_ge hn (by omega)
  have hlow : (n <<< 4).testBit j = false := by
    rw [Nat.testBit_shiftLeft, decide_eq_false (by omega), Bool.false_and]
  have hsame : (n <<< 4).testBit (4 + j) = n.testBit j := by
    rw [Nat.testBit_shiftLeft, decide_eq_true (by omega), Bool.true_and, Nat.add_sub_cancel_left]
  have hq := Nat.mod_two_eq_zero_or_one q
  unfold setHalf
  rw [hand]
  rcases Nat.mod_two_eq_zero_or_one page with hp | hp <;> rcases hq with hq | hq <;>
    simp only [hp, hq, if_true, if_false, one_ne_zero, zero_ne_one, BitVec.getLsbD_or,
      BitVec.getLsbD_and, BitVec.getLsbD_ofNat, hhigh, hlow, hsame, Nat.mul_zero, Nat.zero_add,
      Nat.mul_one, Bool.and_false, Bool.or_false]
  · have hmask : (0xf0#8).getLsbD j = false := by interval_cases j <;> rfl
    have hlt : decide (j < 8) = true := decide_eq_true (by omega)
    simp [hmask, hlt]
  · have hmask : (0xf0#8).getLsbD (4 + j) = true := by interval_cases j <;> rfl
    simp [hmask]
  · have hmask : (0xf#8).getLsbD j = true := by interval_cases j <;> rfl
    simp [hmask]
  · have hmask : (0xf#8).getLsbD (4 + j) = false := by interval_cases j <;> rfl
    have hlt : decide (4 + j < 8) = true := decide_eq_true (by omega)
    simp [hmask, hlt]

theorem half_setHalf (hn : n < 16) (hq : q % 2 = page % 2) :
    half (setHalf byte page n) q = BitVec.ofNat 8 n := by
  apply BitVec.eq_of_getLsbD_eq
  intro j hj
  by_cases h4 : j < 4
  · rw [half_bit h4, setHalf_bit h4 hn, if_pos hq, BitVec.getLsbD_ofNat, decide_eq_true hj,
      Bool.true_and]
  · rw [half_high (by omega) hj, BitVec.getLsbD_ofNat, testBit_of_ge hn (by omega), Bool.and_false]

theorem half_setHalf_of_ne (hn : n < 16) (hq : q % 2 ≠ page % 2) :
    half (setHalf byte page n) q = half byte q := by
  apply BitVec.eq_of_getLsbD_eq
  intro j hj
  by_cases h4 : j < 4
  · rw [half_bit h4, setHalf_bit h4 hn, if_neg hq, half_bit h4]
  · rw [half_high (by omega) hj, half_high (by omega) hj]

namespace VirtualHeapSmallMemoryBlock

variable (block : VirtualHeapSmallMemoryBlock) {address : ℕ}

theorem size_eq (address : ℕ) :
    block.size address = (half (block.allocation_size_array (address / c4KB % 16 / 2))
      (address / c4KB % 16)).toNat := by
  unfold size half
  rw [index_eq, shift_eq]

theorem setSize_array (page n : ℕ) :
    (block.setSize page n).allocation_size_array =
      Function.update block.allocation_size_array (page / 2)
        (setHalf (block.allocation_size_array (page / 2)) page n) := by
  have hhalf : page >>> 1 = page / 2 := Nat.shiftRight_eq_div_pow page 1
  unfold setSize setHalf
  rw [hhalf]

theorem size_setSize (hn : n < 16) (haddress : address / c4KB % 16 = page) :
    (block.setSize page n).size address = n := by
  rw [size_eq, setSize_array, haddress, Function.update_self, half_setHalf hn rfl,
    BitVec.toNat_ofNat]
  omega

theorem size_setSize_of_ne (hn : n < 16) (hne : address / c4KB % 16 ≠ page) :
    (block.setSize page n).size address = block.size address := by
  rw [size_eq, size_eq, setSize_array]
  by_cases hindex : address / c4KB % 16 / 2 = page / 2
  · rw [hindex, Function.update_self, half_setHalf_of_ne hn (by omega)]
  · rw [Function.update_of_ne hindex]

end VirtualHeapSmallMemoryBlock

end Awn.VirtualAddressHeap

/-! The walk of `TryAllocate` over the free list: it ends at the first region with room. -/

namespace Awn.VirtualAddressHeap

def Clear (page_mask : PageMask) (i n : ℕ) : Prop :=
  ∀ j, i ≤ j → j < i + n → page_mask.getLsbD j = false

def FrontRoom (r : Request) (page_mask : PageMask) : Prop :=
  Clear page_mask 0 r.small_page_count_first

/-- A request for no pages, from a size that wrapped, looks for one as well. -/
def Request.room (r : Request) : ℕ := max 1 r.small_page_count

def RoomBehind (r : Request) (page_mask : PageMask) : Prop :=
  ∃ low i, page_mask.getLsbD low = true ∧ low < i ∧ i + r.room ≤ 15 ∧ Clear page_mask i r.room

def HasRoom (r : Request) (page_mask : PageMask) : Prop :=
  FrontRoom r page_mask ∨ RoomBehind r page_mask

theorem countRightZero_clear {value : BitVec 32} {j : ℕ} (h : j < CountRightZeroBits32 value) :
    value.getLsbD j = false := by
  unfold CountRightZeroBits32 at h
  cases hfind : (List.range 32).find? fun i => value.getLsbD i with
  | none =>
    by_cases hj : j < 32
    · have hnone := List.find?_eq_none.mp hfind j (List.mem_range.mpr hj)
      exact Bool.not_eq_true _ ▸ hnone
    · exact BitVec.getLsbD_of_ge _ _ (by omega)
  | some i =>
    rw [hfind, Option.getD_some] at h
    have hbefore := (List.find?_range_eq_some.mp hfind).2.2 j h
    simpa using hbefore

theorem countRightZero_set {value : BitVec 32} (h : CountRightZeroBits32 value < 32) :
    value.getLsbD (CountRightZeroBits32 value) = true := by
  unfold CountRightZeroBits32 at h ⊢
  cases hfind : (List.range 32).find? fun i => value.getLsbD i with
  | none =>
    rw [hfind] at h
    exact absurd h (by decide)
  | some i => exact (List.find?_range_eq_some.mp hfind).1

theorem countRightZero_le {value : BitVec 32} {j : ℕ} (h : value.getLsbD j = true) :
    CountRightZeroBits32 value ≤ j := by
  by_contra hlt
  have hclear := countRightZero_clear (Nat.lt_of_not_le hlt)
  rw [h] at hclear
  cases hclear

theorem wide_bit (page_mask : PageMask) (j : ℕ) :
    (page_mask.setWidth 32).getLsbD j = page_mask.getLsbD j := by
  rw [BitVec.getLsbD_setWidth]
  by_cases hj : j < 32
  · rw [decide_eq_true hj, Bool.true_and]
  · rw [decide_eq_false hj, Bool.false_and, BitVec.getLsbD_of_ge _ _ (by omega)]

theorem offset_bit (page_mask : PageMask) (i j : ℕ) :
    (page_mask.setWidth 32 >>> i).getLsbD j = page_mask.getLsbD (i + j) := by
  rw [BitVec.getLsbD_ushiftRight, wide_bit]

theorem ones_spec {page_mask : PageMask} {i : ℕ} (hi : i < 16) (hset : page_mask.getLsbD i = true) :
    0 < CountRightOneBits32 (page_mask.setWidth 32 >>> i) ∧
      i + CountRightOneBits32 (page_mask.setWidth 32 >>> i) ≤ 16 ∧
      ∀ j, i ≤ j → j < i + CountRightOneBits32 (page_mask.setWidth 32 >>> i) →
        page_mask.getLsbD j = true := by
  have hnot : ∀ j, j < 32 → (~~~(page_mask.setWidth 32 >>> i)).getLsbD j =
      !page_mask.getLsbD (i + j) := by
    intro j hj
    rw [BitVec.getLsbD_not, offset_bit, decide_eq_true hj, Bool.true_and]
  have hend : CountRightOneBits32 (page_mask.setWidth 32 >>> i) ≤ 16 - i := by
    apply countRightZero_le
    rw [hnot _ (by omega), BitVec.getLsbD_of_ge _ _ (by omega)]
    rfl
  refine ⟨?_, by omega, ?_⟩
  · apply Nat.pos_of_ne_zero
    intro hzero
    have hfirst := @countRightZero_set (~~~(page_mask.setWidth 32 >>> i))
    unfold CountRightOneBits32 at hzero
    rw [hzero, hnot 0 (by omega), Nat.add_zero, hset] at hfirst
    exact absurd (hfirst (by omega)) (by decide)
  · intro j hij hj
    have hclear := @countRightZero_clear (~~~(page_mask.setWidth 32 >>> i)) (j - i)
      (by unfold CountRightOneBits32 at hj; omega)
    rw [hnot _ (by omega), Nat.add_sub_cancel' hij] at hclear
    simpa using hclear

theorem zeros_spec {page_mask : PageMask} {i free : ℕ} (hi : i < 15)
    (hset : page_mask.getLsbD i = false)
    (hfree : free = min (15 - i) (CountRightZeroBits32 (page_mask.setWidth 32 >>> i))) :
    0 < free ∧ i + free ≤ 15 ∧ Clear page_mask i free ∧
      (i + free = 15 ∨ page_mask.getLsbD (i + free) = true) := by
  have hclear : ∀ j, j < CountRightZeroBits32 (page_mask.setWidth 32 >>> i) →
      page_mask.getLsbD (i + j) = false := by
    intro j hj
    rw [← offset_bit]
    exact countRightZero_clear hj
  refine ⟨?_, by omega, ?_, ?_⟩
  · by_contra hzero
    have hnone : CountRightZeroBits32 (page_mask.setWidth 32 >>> i) = 0 := by omega
    have hfirst := @countRightZero_set (page_mask.setWidth 32 >>> i) (by omega)
    rw [hnone, offset_bit, Nat.add_zero, hset] at hfirst
    cases hfirst
  · intro j hij hj
    have hbit := hclear (j - i) (by omega)
    rwa [Nat.add_sub_cancel' hij] at hbit
  · rcases Nat.lt_or_ge (CountRightZeroBits32 (page_mask.setWidth 32 >>> i)) (15 - i) with hlt | hge
    · right
      rw [hfree, min_eq_right hlt.le, ← offset_bit]
      exact countRightZero_set (by omega)
    · left
      omega

inductive Found (page_mask : PageMask) (n i : ℕ) : ℕ → Prop
  | room {k : ℕ} (hk : i ≤ k) (hle : k + n ≤ 15) (hclear : Clear page_mask k n) :
    Found page_mask n i k
  | none {k : ℕ} (hk : k = 15 ∨ k = 16 ∧ (i < 16 → page_mask.getLsbD 15 = true))
    (hnone : ∀ q, i ≤ q → q + n ≤ 15 → ¬Clear page_mask q n) : Found page_mask n i k

theorem Found.later {page_mask : PageMask} {n i i' k : ℕ} (h : Found page_mask n i' k)
    (hi : i ≤ i') (hi' : i' ≤ 16)
    (hbefore : ∀ q, i ≤ q → q < i' → q + n ≤ 15 → ¬Clear page_mask q n)
    (hlast : i' = 16 → page_mask.getLsbD 15 = true) : Found page_mask n i k := by
  cases h with
  | room hk hle hclear => exact .room (hi.trans hk) hle hclear
  | none hk hnone =>
    refine .none ?_ ?_
    · rcases hk with hk | ⟨hk, hset⟩
      · exact .inl hk
      · refine .inr ⟨hk, fun _ => ?_⟩
        by_cases hlt : i' < 16
        · exact hset hlt
        · exact hlast (by omega)
    · intro q hq hle
      by_cases hlt : q < i'
      · exact hbefore q hq hlt hle
      · exact hnone q (Nat.le_of_not_lt hlt) hle

theorem search_spec (page_mask : PageMask) (n : ℕ) :
    ∀ fuel i, i ≤ 16 → 16 ≤ i + fuel → Found page_mask (max 1 n) i (search page_mask n fuel i) := by
  intro fuel
  induction fuel with
  | zero =>
    intro i hi hfuel
    exact .none (.inr ⟨by rw [search]; omega, fun h => by omega⟩) fun q hq hle => by omega
  | succ fuel ih =>
    intro i hi hfuel
    have hcount : cSmallMemoryPageMaskBitCount - 1 = 15 := rfl
    rw [search, hcount]
    by_cases hlt : i < 15
    · rw [if_pos hlt]
      simp only [offset_bit, Nat.add_zero]
      by_cases hset : page_mask.getLsbD i = true
      · rw [if_pos hset]
        obtain ⟨hpos, hle, hones⟩ := ones_spec (by omega) hset
        refine (ih _ hle (by omega)).later (by omega) hle ?_ ?_
        · intro q hq hlt' _ hclear
          have hbit := hones q hq hlt'
          rw [hclear q le_rfl (by omega)] at hbit
          cases hbit
        · intro hend
          exact hones 15 (by omega) (by omega)
      · rw [if_neg hset]
        obtain ⟨hpos, hle, hclear, hend⟩ := zeros_spec hlt (Bool.eq_false_of_not_eq_true hset) rfl
        by_cases hroom : n ≤ min (15 - i) (CountRightZeroBits32 (page_mask.setWidth 32 >>> i))
        · rw [if_pos hroom]
          exact .room le_rfl (by omega) fun j hij hj => hclear j hij (by omega)
        · rw [if_neg hroom]
          refine (ih _ (by omega) (by omega)).later (by omega) (by omega) ?_ (by omega)
          intro q hq hlt' hfit hclear'
          rcases hend with hend | hend
          · omega
          · rw [hclear' _ hlt'.le (by omega)] at hend
            cases hend
    · rw [if_neg hlt]
      exact .none (by omega) fun q hq hle => by omega

section Walk

variable {h : VirtualAddressHeap} {r : Request} {page_mask : PageMask}

theorem lowest_spec (hne : page_mask ≠ 0) :
    ∃ low, CountRightZeroBits32 (page_mask.setWidth 32) &&& 0xf = low ∧ low < 16 ∧
      page_mask.getLsbD low = true ∧ ∀ j, j < low → page_mask.getLsbD j = false := by
  have hlt : CountRightZeroBits32 (page_mask.setWidth 32) < 16 := by
    by_contra hge
    apply hne
    apply BitVec.eq_of_getLsbD_eq
    intro j hj
    rw [← wide_bit, countRightZero_clear (show j < _ by omega)]
    exact BitVec.getLsbD_zero.symm
  refine ⟨_, rfl, ?_⟩
  have hand : CountRightZeroBits32 (page_mask.setWidth 32) &&& 0xf =
      CountRightZeroBits32 (page_mask.setWidth 32) % 16 := Nat.and_two_pow_sub_one_eq_mod _ 4
  rw [hand, Nat.mod_eq_of_lt hlt]
  refine ⟨hlt, ?_, ?_⟩
  · rw [← wide_bit]
    exact countRightZero_set (by omega)
  · intro j hj
    rw [← wide_bit]
    exact countRightZero_clear hj

inductive Stops (r : Request) (page_mask : PageMask) : Option ℕ → Prop
  | front (hfront : FrontRoom r page_mask) : Stops r page_mask none
  | behind {low i : ℕ} (hfront : ¬FrontRoom r page_mask) (hlow : page_mask.getLsbD low = true)
    (hlt : low < i) (hle : i + r.room ≤ 15) (hclear : Clear page_mask i r.room) :
    Stops r page_mask (some i)
  | beyond {i : ℕ} (hlast : page_mask.getLsbD 15 = true) (hnone : ¬HasRoom r page_mask) :
    Stops r page_mask (some i)

theorem walk_spec {bases : List ℕ}
    (hne : ∀ base ∈ bases, (h.block base).page_mask ≠ 0) :
    match h.walk r bases with
    | none => ∀ base ∈ bases, ¬HasRoom r (h.block base).page_mask
    | some (base, place) => ∃ l₁ l₂, bases = l₁ ++ base :: l₂ ∧
        (∀ b ∈ l₁, ¬HasRoom r (h.block b).page_mask) ∧ Stops r (h.block base).page_mask place := by
  induction bases with
  | nil => exact fun base hmem => absurd hmem List.not_mem_nil
  | cons base bases ih =>
    obtain ⟨low, hlow, hlt16, hset, hbelow⟩ := lowest_spec (hne base List.mem_cons_self)
    have hfrontIff : r.small_page_count_first ≤ low ↔ FrontRoom r (h.block base).page_mask := by
      constructor
      · exact fun hle j _ hj => hbelow j (by omega)
      · intro hfront
        by_contra hgt
        rw [hfront low (Nat.zero_le _) (by omega)] at hset
        cases hset
    have hcount : cSmallMemoryPageMaskBitCount - 1 = 15 := rfl
    rw [walk, hcount]
    simp only [hlow, hne base List.mem_cons_self, false_or]
    by_cases hfront : r.small_page_count_first ≤ low
    · rw [if_pos hfront]
      exact ⟨[], bases, rfl, fun b hb => absurd hb List.not_mem_nil, .front (hfrontIff.mp hfront)⟩
    · rw [if_neg hfront]
      have hnofront : ¬FrontRoom r (h.block base).page_mask := fun hf => hfront (hfrontIff.mpr hf)
      have hfound := search_spec (h.block base).page_mask r.small_page_count
        cSmallMemoryPageMaskBitCount (low + 1) (by omega) (Nat.le_add_left _ _)
      generalize search (h.block base).page_mask r.small_page_count cSmallMemoryPageMaskBitCount
        (low + 1) = k at hfound
      cases hfound with
      | room hk hle hclear =>
        have hpos : 1 ≤ max 1 r.small_page_count := le_max_left _ _
        rw [if_neg (by omega)]
        exact ⟨[], bases, rfl, fun b hb => absurd hb List.not_mem_nil,
          .behind hnofront hset (by omega) hle hclear⟩
      | none hk hnone =>
        have hnoroom : ¬HasRoom r (h.block base).page_mask := by
          rintro (hf | ⟨low', i, hset', hlt, hle, hclear⟩)
          · exact hnofront hf
          · refine hnone i ?_ hle hclear
            by_contra hge
            rw [hbelow low' (by omega)] at hset'
            cases hset'
        rcases hk with hk | ⟨hk, hlast⟩
        · rw [if_pos hk]
          have hrest := ih fun b hb => hne b (List.mem_cons_of_mem _ hb)
          cases hwalk : h.walk r bases with
          | none =>
            rw [hwalk] at hrest
            intro b hb
            rcases List.mem_cons.mp hb with rfl | hb
            · exact hnoroom
            · exact hrest b hb
          | some found =>
            rw [hwalk] at hrest
            obtain ⟨l₁, l₂, hsplit, hbefore, hstops⟩ := hrest
            refine ⟨base :: l₁, l₂, congrArg _ hsplit, ?_, hstops⟩
            intro b hb
            rcases List.mem_cons.mp hb with rfl | hb
            · exact hnoroom
            · exact hbefore b hb
        · rw [if_neg (by omega)]
          refine ⟨[], bases, rfl, fun b hb => absurd hb List.not_mem_nil, .beyond ?_ hnoroom⟩
          by_cases hend : low + 1 < 16
          · exact hlast hend
          · rwa [show low = 15 by omega] at hset

end Walk

end Awn.VirtualAddressHeap
