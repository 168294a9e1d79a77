import Awn.ExpHeap.Valid

/-! The search for a free block, against the largest size that can be allocated. -/

namespace Awn

open Memory

namespace ExpHeap

def Fits (aligned_size alignment : BitVec 64) (block : ExpHeapMemoryBlock) : Prop :=
  (alignUp block.start alignment).toNat + aligned_size.toNat ≤ block.last

def alignmentOf (k : ℕ) : BitVec 64 := BitVec.ofNat 64 (2 ^ max k 2)

theorem enforceAlignment_pow {k : ℕ} (hk : k < 31) :
    enforceAlignment (BitVec.ofNat 32 (2 ^ k)) = alignmentOf k := by
  rw [enforceAlignment, alignmentOf, signExtend_pow hk]
  have hpow : 2 ^ k < 2 ^ 31 := Nat.pow_lt_pow_right (by omega) hk
  have hvalue : (BitVec.ofNat 32 (2 ^ k)).toNat = 2 ^ k := by
    rw [BitVec.toNat_ofNat, Nat.mod_eq_of_lt (by omega)]
  have hsigned : (BitVec.ofNat 32 (2 ^ k)).toInt = (2 ^ k : ℕ) := by
    rw [BitVec.toInt_eq_toNat_of_lt (by rw [hvalue]; omega), hvalue]
  have hslt : (BitVec.ofNat 32 (2 ^ k)).slt 4 = true ↔ k < 2 := by
    rw [BitVec.slt_iff_toInt_lt, hsigned, show (4 : BitVec 32).toInt = (2 ^ 2 : ℕ) from rfl,
      Int.ofNat_lt]
    exact Nat.pow_lt_pow_iff_right (by decide)
  by_cases hsmall : k < 2
  · rw [if_pos (hslt.mpr hsmall), Nat.max_eq_right (Nat.le_of_lt hsmall)]
    rfl
  · rw [if_neg (fun h => hsmall (hslt.mp h)), Nat.max_eq_left (Nat.not_lt.mp hsmall)]

theorem pow_le {k : ℕ} (hk : k < 31) : 2 ^ max k 2 ≤ 2 ^ 30 :=
  Nat.pow_le_pow_right (by decide) (by omega)

section Search

variable {h : ExpHeap} {x : ExpHeapMemoryBlock} {k : ℕ} {n : BitVec 64}

theorem Valid.start_eq (hvalid : h.Valid) (hx : x ∈ h.m_free_block_list) :
    x.start.toNat = x.address.toNat + 0x20 := by
  have := hvalid.free_last_lt x hx
  have := address_lt_last x
  rw [ExpHeapMemoryBlock.start, BitVec.toNat_add, show (0x20 : BitVec 64).toNat = 0x20 from rfl]
  omega

theorem Valid.alignUp_bounds (hvalid : h.Valid) (hk : k < 31) (hx : x ∈ h.m_free_block_list) :
    x.address.toNat + 0x20 ≤ (alignUp x.start (alignmentOf k)).toNat ∧
      (alignUp x.start (alignmentOf k)).toNat < x.address.toNat + 0x20 + 2 ^ max k 2 := by
  have hstart := hvalid.start_eq hx
  have := (hvalid.free_within hx).2
  have := address_lt_last x
  have := hvalid.end_le
  have := pow_le hk
  rw [← hstart]
  exact Memory.alignUp_bounds x.start (by omega) (by omega)

theorem Valid.fits_iff (hvalid : h.Valid) (hk : k < 31) (hx : x ∈ h.m_free_block_list)
    (hn : n.toNat + 2 ^ max k 2 ≤ 2 ^ 64) :
    alignedAllocationSize n (alignmentOf k) x ≤ x.block_size ↔ Fits n (alignmentOf k) x := by
  obtain ⟨hlow, hhigh⟩ := hvalid.alignUp_bounds hk hx
  have hlast : x.last = x.address.toNat + 0x20 + x.block_size.toNat := rfl
  have hsize : (alignedAllocationSize n (alignmentOf k) x).toNat =
      n.toNat + ((alignUp x.start (alignmentOf k)).toNat - (x.address.toNat + 0x20)) := by
    rw [alignedAllocationSize, BitVec.toNat_add, BitVec.toNat_sub, BitVec.toNat_sub,
      show (0x20 : BitVec 64).toNat = 0x20 from rfl]
    have := (alignUp x.start (alignmentOf k)).isLt
    have := x.address.isLt
    omega
  rw [BitVec.le_def, hsize, Fits, hlast]
  omega

theorem Valid.le_size (hvalid : h.Valid) (hk : k < 31) (hx : x ∈ h.m_free_block_list)
    (hfits : Fits n (alignmentOf k) x) : n ≤ x.block_size := by
  obtain ⟨hlow, -⟩ := hvalid.alignUp_bounds hk hx
  have hlast : x.last = x.address.toNat + 0x20 + x.block_size.toNat := rfl
  rw [Fits] at hfits
  rw [BitVec.le_def]
  omega

theorem Valid.size_lt (hvalid : h.Valid) (hx : x ∈ h.m_free_block_list) :
    x.block_size < 0xffffffffffffffff := by
  have := (hvalid.free_within hx).2
  have := hvalid.end_le
  have hlast : x.last = x.address.toNat + 0x20 + x.block_size.toNat := rfl
  rw [BitVec.lt_def]
  show _ < 0xffffffffffffffff
  omega

/-- What a search finds: a block that fits, a smallest one in best fit, or none as none fits. -/
structure Found (mode : AllocationMode) (alignment : BitVec 64) (fits : ExpHeapMemoryBlock → Prop)
    (blocks : List ExpHeapMemoryBlock) (r : Option (ExpHeapMemoryBlock × BitVec 64)) : Prop where
  none : r = none → ∀ y ∈ blocks, ¬fits y
  some : ∀ x address, r = some (x, address) →
    x ∈ blocks ∧ fits x ∧ address = alignUp x.start alignment ∧
      (mode = .BestFit → ∀ y ∈ blocks, fits y → x.block_size ≤ y.block_size)

structure Searched (aligned_size alignment : BitVec 64) (fits : ExpHeapMemoryBlock → Prop)
    (blocks : List ExpHeapMemoryBlock) : Prop where
  test : ∀ y ∈ blocks, alignedAllocationSize aligned_size alignment y ≤ y.block_size ↔ fits y
  le_size : ∀ y ∈ blocks, fits y → aligned_size ≤ y.block_size
  size_lt : ∀ y ∈ blocks, y.block_size < 0xffffffffffffffff

variable {aligned_size alignment : BitVec 64} {fits : ExpHeapMemoryBlock → Prop}
  {blocks : List ExpHeapMemoryBlock}

theorem Searched.tail (hsearched : Searched aligned_size alignment fits (x :: blocks)) :
    Searched aligned_size alignment fits blocks :=
  ⟨fun y hy => hsearched.test y (List.mem_cons_of_mem _ hy),
    fun y hy => hsearched.le_size y (List.mem_cons_of_mem _ hy),
    fun y hy => hsearched.size_lt y (List.mem_cons_of_mem _ hy)⟩

theorem firstFit_found (hsearched : Searched aligned_size alignment fits blocks) :
    Found .FirstFit alignment fits blocks (firstFit aligned_size alignment blocks) := by
  induction blocks with
  | nil => exact ⟨fun _ => List.forall_mem_nil _, nofun⟩
  | cons block blocks ih =>
    have htest := hsearched.test block List.mem_cons_self
    rw [firstFit]
    split
    · rename_i hfit
      refine ⟨nofun, ?_⟩
      rintro _ _ ⟨⟩
      exact ⟨List.mem_cons_self, htest.mp hfit, rfl, nofun⟩
    · rename_i hfit
      have hrest := ih hsearched.tail
      constructor
      · intro hr y hy
        rcases List.mem_cons.mp hy with rfl | hy
        · exact fun hfits => hfit (htest.mpr hfits)
        · exact hrest.none hr y hy
      · intro x address hr
        obtain ⟨hx, hfits, haddress, -⟩ := hrest.some x address hr
        exact ⟨List.mem_cons_of_mem _ hx, hfits, haddress, nofun⟩

def smallerSize : Option ExpHeapMemoryBlock → BitVec 64
  | none => 0xffffffffffffffff
  | some block => block.block_size

def smallerAddress (alignment : BitVec 64) : Option ExpHeapMemoryBlock → BitVec 64
  | none => 0
  | some block => alignUp block.start alignment

theorem bestFit_found (smaller_block : Option ExpHeapMemoryBlock)
    (hsearched : Searched aligned_size alignment fits blocks) (hfits : ∀ y ∈ smaller_block, fits y) :
    let r := bestFit aligned_size alignment blocks (smallerSize smaller_block) smaller_block
      (smallerAddress alignment smaller_block) (smallerAddress alignment smaller_block)
    (r = none → smaller_block = none ∧ ∀ y ∈ blocks, ¬fits y) ∧
      ∀ x address, r = some (x, address) → (x ∈ blocks ∨ smaller_block = some x) ∧ fits x ∧
        address = alignUp x.start alignment ∧ x.block_size ≤ smallerSize smaller_block ∧
          ∀ y ∈ blocks, fits y → x.block_size ≤ y.block_size := by
  induction blocks generalizing smaller_block with
  | nil =>
    rw [bestFit]
    cases smaller_block with
    | none => exact ⟨fun _ => ⟨rfl, List.forall_mem_nil _⟩, nofun⟩
    | some block =>
      refine ⟨nofun, ?_⟩
      rintro _ _ ⟨⟩
      exact ⟨Or.inr rfl, hfits _ rfl, rfl, BitVec.le_refl _, List.forall_mem_nil _⟩
  | cons block blocks ih =>
    have htest := hsearched.test block List.mem_cons_self
    rw [bestFit]
    dsimp only
    split
    · rename_i hsmaller
      have hblock := htest.mp hsmaller.2
      split
      · rename_i hexact
        refine ⟨nofun, ?_⟩
        rintro _ _ ⟨⟩
        refine ⟨Or.inl List.mem_cons_self, hblock, rfl, BitVec.le_of_lt hsmaller.1, ?_⟩
        intro y hy hfit
        rw [hexact]
        exact hsearched.le_size y hy hfit
      · have hnext := ih (some block) hsearched.tail
          (fun y hy => by cases hy; exact hblock)
        constructor
        · intro hr
          cases (hnext.1 hr).1
        · intro x address hr
          obtain ⟨hx, hfit, haddress, hle, hleast⟩ := hnext.2 x address hr
          refine ⟨?_, hfit, haddress, BitVec.le_trans hle (BitVec.le_of_lt hsmaller.1), ?_⟩
          · rcases hx with hx | hx
            · exact Or.inl (List.mem_cons_of_mem _ hx)
            · cases hx
              exact Or.inl List.mem_cons_self
          · intro y hy
            rcases List.mem_cons.mp hy with rfl | hy
            · exact fun _ => hle
            · exact hleast y hy
    · rename_i hsmaller
      have hnext := ih smaller_block hsearched.tail hfits
      constructor
      · intro hr
        obtain ⟨rfl, hnone⟩ := hnext.1 hr
        refine ⟨rfl, ?_⟩
        intro y hy hfit
        rcases List.mem_cons.mp hy with rfl | hy
        · exact hsmaller ⟨hsearched.size_lt y List.mem_cons_self, htest.mpr hfit⟩
        · exact hnone y hy hfit
      · intro x address hr
        obtain ⟨hx, hfit, haddress, hle, hleast⟩ := hnext.2 x address hr
        refine ⟨hx.imp_left (List.mem_cons_of_mem _), hfit, haddress, hle, ?_⟩
        intro y hy hfit_y
        rcases List.mem_cons.mp hy with rfl | hy
        · have hge := BitVec.not_lt.mp fun hlt => hsmaller ⟨hlt, htest.mpr hfit_y⟩
          exact BitVec.le_trans hle hge
        · exact hleast y hy hfit_y

theorem Valid.searched (hvalid : h.Valid) (hk : k < 31) (hn : n.toNat + 2 ^ max k 2 ≤ 2 ^ 64) :
    Searched n (alignmentOf k) (Fits n (alignmentOf k)) h.m_free_block_list :=
  ⟨fun _ hy => hvalid.fits_iff hk hy hn, fun _ hy => hvalid.le_size hk hy,
    fun _ hy => hvalid.size_lt hy⟩

theorem Valid.findBlock_found (hvalid : h.Valid) (hk : k < 31)
    (hn : n.toNat + 2 ^ max k 2 ≤ 2 ^ 64) :
    Found h.m_allocation_mode (alignmentOf k) (Fits n (alignmentOf k)) h.m_free_block_list
      (h.findBlock n (alignmentOf k)) := by
  have hsearched := hvalid.searched hk hn
  rw [findBlock]
  cases h.m_allocation_mode with
  | FirstFit => exact firstFit_found hsearched
  | BestFit =>
    have hbest := bestFit_found none hsearched nofun
    constructor
    · exact fun hr => (hbest.1 hr).2
    · intro x address hr
      obtain ⟨hx, hfits, haddress, -, hleast⟩ := hbest.2 x address hr
      refine ⟨hx.resolve_right nofun, hfits, haddress, fun _ => hleast⟩

theorem le_foldl_iff (hn : 0 < n.toNat)
    (hblocks : ∀ y ∈ blocks, y.start.toNat + y.block_size.toNat = y.last ∧ y.last < 2 ^ 64)
    (max_free_size : BitVec 64) :
    n ≤ blocks.foldl (fun max_free_size block =>
        let block_end := block.start + block.block_size
        let align_start := alignUp block.start alignment
        let size := block_end - align_start
        if align_start ≤ block_end ∧ max_free_size < size then size else max_free_size)
          max_free_size ↔
      n ≤ max_free_size ∨ ∃ y ∈ blocks, Fits n alignment y := by
  induction blocks generalizing max_free_size with
  | nil => simp
  | cons block blocks ih =>
    obtain ⟨hsum, hlast⟩ := hblocks block List.mem_cons_self
    have hend : (block.start + block.block_size).toNat = block.last := by
      rw [BitVec.toNat_add, Nat.mod_eq_of_lt (by omega), hsum]
    rw [List.foldl_cons, ih fun y hy => hblocks y (List.mem_cons_of_mem _ hy), List.exists_mem_cons_iff,
      ← or_assoc]
    apply or_congr_left
    have hfits : Fits n alignment block ↔ alignUp block.start alignment ≤ block.start + block.block_size ∧
        n ≤ block.start + block.block_size - alignUp block.start alignment := by
      rw [Fits, BitVec.le_def, BitVec.le_def, hend]
      constructor
      · intro hfits
        have hle : alignUp block.start alignment ≤ block.start + block.block_size := by
          rw [BitVec.le_def, hend]
          omega
        rw [BitVec.toNat_sub_of_le hle, hend]
        omega
      · rintro ⟨hle, hsize⟩
        rw [BitVec.toNat_sub_of_le (by rw [BitVec.le_def, hend]; exact hle), hend] at hsize
        omega
    dsimp only
    rw [hfits]
    split
    · rename_i hlarger
      constructor
      · exact fun hle => Or.inr ⟨hlarger.1, hle⟩
      · rintro (hle | hle)
        · exact BitVec.le_trans hle (BitVec.le_of_lt hlarger.2)
        · exact hle.2
    · rename_i hnot
      refine ⟨Or.inl, ?_⟩
      rintro (hle | ⟨hstart, hle⟩)
      · exact hle
      · exact BitVec.le_trans hle (BitVec.not_lt.mp fun hlt => hnot ⟨hstart, hlt⟩)

theorem Valid.le_maximum_iff (hvalid : h.Valid) (hn : 0 < n.toNat) (alignment : BitVec 64) :
    n ≤ h.GetMaximumAllocatableSizeUnsafe alignment ↔
      ∃ y ∈ h.m_free_block_list, Fits n alignment y := by
  have hblocks : ∀ y ∈ h.m_free_block_list,
      y.start.toNat + y.block_size.toNat = y.last ∧ y.last < 2 ^ 64 := by
    intro y hy
    refine ⟨?_, hvalid.free_last_lt y hy⟩
    rw [hvalid.start_eq hy]
    rfl
  rw [GetMaximumAllocatableSizeUnsafe, le_foldl_iff hn hblocks 0, or_iff_right]
  rw [BitVec.le_def]
  show ¬n.toNat ≤ 0
  omega

theorem Valid.maximum_le (hvalid : h.Valid) (alignment : BitVec 64) :
    (h.GetMaximumAllocatableSizeUnsafe alignment).toNat ≤ h.m_end_address.toNat := by
  by_cases hpos : 0 < (h.GetMaximumAllocatableSizeUnsafe alignment).toNat
  · obtain ⟨y, hy, hfits⟩ := (hvalid.le_maximum_iff hpos alignment).mp (BitVec.le_refl _)
    have := (hvalid.free_within hy).2
    rw [Fits] at hfits
    omega
  · omega

theorem Valid.alignedSize_add (hvalid : h.Valid) (hk : k < 31) (size : BitVec 64) :
    (h.alignedSize size (alignmentOf k)).toNat + 2 ^ max k 2 ≤ 2 ^ 64 := by
  have hpow := pow_le hk
  rw [alignedSize]
  split
  · have hword : 2 ^ max k 2 ∣ 2 ^ 64 := Nat.pow_dvd_pow 2 (by omega)
    obtain ⟨c, hc⟩ := alignUp_dvd size (k := max k 2) (by omega)
    obtain ⟨d, hd⟩ := hword
    have hlt := (alignUp size (alignmentOf k)).isLt
    rw [alignmentOf] at hlt ⊢
    rw [hc, hd] at *
    rw [← Nat.mul_succ]
    exact Nat.mul_le_mul_left _ (Nat.lt_of_mul_lt_mul_left hlt)
  · have := hvalid.maximum_le (alignmentOf k)
    have := hvalid.end_le
    omega

inductive Tried (h : ExpHeap) (k : ℕ) (n : BitVec 64) : BitVec 64 × ExpHeap → Prop
  | refused (hnone : ∀ y ∈ h.m_free_block_list, ¬Fits n (alignmentOf k) y) : Tried h k n (0, h)
  | accepted (x : ExpHeapMemoryBlock) (hx : x ∈ h.m_free_block_list)
      (hfits : Fits n (alignmentOf k) x)
      (hleast : h.m_allocation_mode = .BestFit → ∀ y ∈ h.m_free_block_list,
        Fits n (alignmentOf k) y → x.block_size ≤ y.block_size) :
      Tried h k n (alignUp x.start (alignmentOf k),
        h.AddUsedBlock x (alignUp x.start (alignmentOf k)) n)

theorem Valid.tried (hvalid : h.Valid) (hk : k < 31) (size : BitVec 64) :
    Tried h k (h.alignedSize size (alignmentOf k)) (h.TryAllocate size (BitVec.ofNat 32 (2 ^ k))) := by
  have hfound := hvalid.findBlock_found hk (hvalid.alignedSize_add hk size)
  rw [TryAllocate]
  split
  · rename_i hempty
    rw [List.isEmpty_iff] at hempty
    apply Tried.refused
    rw [hempty]
    exact List.forall_mem_nil _
  · dsimp only
    rw [enforceAlignment_pow hk]
    cases hr : h.findBlock (h.alignedSize size (alignmentOf k)) (alignmentOf k) with
    | none => exact .refused (hfound.none hr)
    | some found =>
      obtain ⟨x, address⟩ := found
      obtain ⟨hx, hfits, rfl, hleast⟩ := hfound.some x address hr
      exact .accepted x hx hfits hleast

end Search

end ExpHeap

end Awn
