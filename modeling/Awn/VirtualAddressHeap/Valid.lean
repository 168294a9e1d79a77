import Awn.VirtualAddressHeap.Search
import Mathlib.Data.List.Pairwise
import Mathlib.Data.Set.Basic
import Mathlib.Order.CompletePartialOrder
import Mathlib.Order.Disjoint

/-! What the page bookkeeping promises, and the invariant that carries it. -/

namespace Awn.VirtualAddressHeap

variable {V : Type} (M : VirtualMemory V)

def region (address : ℕ) : ℕ := address / c64KB * c64KB

structure Holds (s : State V) : Prop where
  disjoint : s.live.Pairwise fun a b => Disjoint a.pages b.pages
  committed : ∀ a ∈ s.live, a.pages ⊆ M.committed s.memory
  own : ∀ a ∈ s.live, ∃ r ∈ M.reserved s.memory, r.1 = region a.address ∧ a.stop ≤ r.1 + r.2
  clear : ∀ a ∈ s.live, ¬c64KB ∣ a.address →
    region a.address + cSmallMemoryBlockSize ≤ a.address ∧ s.home / c4KB ∉ a.pages
  heads : ∀ base ∈ s.heap.m_free_small_memory_list ++ s.heap.m_filled_small_memory_list,
    base / c4KB ∈ M.committed s.memory
  recorded : ∀ a ∈ s.live, s.heap.GetSizeOfAllocation a.address = some (a.stop - a.address)
  mask : ∀ base ∈ s.heap.m_free_small_memory_list ++ s.heap.m_filled_small_memory_list,
    ∀ j < 16, (s.heap.block base).page_mask.getLsbD j = true ↔
      (∃ a ∈ s.live, base / c4KB + j ∈ a.pages) ∨ base = s.home ∧ j = 0
  kept : ∀ a ∈ s.live, Disjoint s.freed a.pages

inductive Placed (s : State V) (a : Allocation) : Prop
  | small {base i n : ℕ} (hmem : base ∈ s.heap.m_free_small_memory_list) (hi : 1 ≤ i)
    (hn : 1 ≤ n) (hle : i + n ≤ 16) (haddress : a.address = base + i * c4KB)
    (hstop : a.stop = base + (i + n) * c4KB) (hsize : (s.heap.block base).size a.address = n)
  | large {size full : ℕ} (hkey : s.heap.m_large_memory_map a.address = some size)
    (haligned : c64KB ∣ a.address) (hpos : 0 < size) (hdvd : c4KB ∣ size)
    (hstop : a.stop = a.address + size) (hfull : (a.address, full) ∈ M.reserved s.memory)
    (hle : size ≤ full)

structure Valid (s : State V) : Prop where
  filled : s.heap.m_filled_small_memory_list = []
  nodup : s.heap.m_free_small_memory_list.Nodup
  home : s.home ∈ s.heap.m_free_small_memory_list
  last : (s.heap.block s.home).page_mask.getLsbD 15 = false
  aligned : ∀ base ∈ s.heap.m_free_small_memory_list, c64KB ∣ base
  reserved : ∀ base ∈ s.heap.m_free_small_memory_list, (base, c64KB) ∈ M.reserved s.memory
  heads : ∀ base ∈ s.heap.m_free_small_memory_list, base / c4KB ∈ M.committed s.memory
  small : ∀ base ∈ s.heap.m_free_small_memory_list, s.heap.m_large_memory_map base = none
  large : ∀ address size, s.heap.m_large_memory_map address = some size →
    ∃ full, (address, full) ∈ M.reserved s.memory
  placed : ∀ a ∈ s.live, Placed M s a
  committed : ∀ a ∈ s.live, a.pages ⊆ M.committed s.memory
  disjoint : s.live.Pairwise fun a b => Disjoint a.pages b.pages
  mask : ∀ base ∈ s.heap.m_free_small_memory_list, ∀ j < 16,
    (s.heap.block base).page_mask.getLsbD j = true ↔
      (∃ a ∈ s.live, base / c4KB + j ∈ a.pages) ∨ base = s.home ∧ j = 0

def NoEmpty (s : State V) : Prop :=
  ∀ base ∈ s.heap.m_free_small_memory_list, (s.heap.block base).page_mask ≠ 0

@[simp]
theorem setBlock_self (h : VirtualAddressHeap) (base : ℕ) (block : VirtualHeapSmallMemoryBlock) :
    (h.setBlock base block).block base = block := Function.update_self _ _ _

theorem setBlock_of_ne (h : VirtualAddressHeap) {base base' : ℕ} (hne : base' ≠ base)
    (block : VirtualHeapSmallMemoryBlock) : (h.setBlock base block).block base' = h.block base' :=
  Function.update_of_ne hne _ _

variable {M} {s : State V} {a b : Allocation} {base i n p : ℕ}

theorem mem_pagesOf {address size : ℕ} :
    p ∈ pagesOf address size ↔ address < (p + 1) * c4KB ∧ p * c4KB < address + size := Iff.rfl

theorem mem_pages : p ∈ a.pages ↔
    a.address < (p + 1) * c4KB ∧ p * c4KB < a.address + (a.stop - a.address) := Iff.rfl

theorem mem_pages_small (hbase : c64KB ∣ base) (haddress : a.address = base + i * c4KB)
    (hstop : a.stop = base + (i + n) * c4KB) :
    p ∈ a.pages ↔ base / c4KB + i ≤ p ∧ p < base / c4KB + i + n := by
  obtain ⟨q, rfl⟩ := hbase
  rw [mem_pages, haddress, hstop]
  unfold c64KB c4KB
  omega

theorem mem_pages_region {base' j : ℕ} (hbase : c64KB ∣ base) (hbase' : c64KB ∣ base')
    (hle : i + n ≤ 16) (hj : j < 16) (haddress : a.address = base + i * c4KB)
    (hstop : a.stop = base + (i + n) * c4KB) :
    base' / c4KB + j ∈ a.pages ↔ base' = base ∧ i ≤ j ∧ j < i + n := by
  rw [mem_pages_small hbase haddress hstop]
  obtain ⟨q, rfl⟩ := hbase
  obtain ⟨q', rfl⟩ := hbase'
  unfold c64KB c4KB
  omega

theorem address_page (hbase : c64KB ∣ base) (hi : i < 16) :
    (base + i * c4KB) / c4KB % 16 = i ∧ region (base + i * c4KB) = base ∧
      (1 ≤ i → ¬c64KB ∣ base + i * c4KB) := by
  obtain ⟨q, rfl⟩ := hbase
  unfold region c64KB c4KB
  omega

theorem Placed.reservation (hvalid : Valid M s) (h : Placed M s a) :
    ∃ r ∈ M.reserved s.memory, r.1 = region a.address ∧ r.1 ≤ a.address ∧ a.address < a.stop ∧
      a.stop ≤ r.1 + r.2 ∧ c4KB ∣ a.address ∧ c4KB ∣ a.stop := by
  cases h with
  | @small base i n hmem hi hn hle haddress hstop hsize =>
    have haligned := hvalid.aligned _ hmem
    refine ⟨_, hvalid.reserved _ hmem, ?_⟩
    rw [haddress, hstop, (address_page haligned (show i < 16 by omega)).2.1]
    obtain ⟨q, rfl⟩ := haligned
    refine ⟨rfl, ?_⟩
    unfold c64KB c4KB
    omega
  | @large size full hkey haligned hpos hdvd hstop hfull hle =>
    refine ⟨_, hfull, ?_⟩
    obtain ⟨q, hq⟩ := haligned
    obtain ⟨m, rfl⟩ := hdvd
    rw [hstop, hq]
    unfold region c64KB c4KB at *
    dsimp only
    omega

theorem Placed.pages_bounds (hvalid : Valid M s) (h : Placed M s a) :
    ∃ r ∈ M.reserved s.memory, r.1 = region a.address ∧
      ∀ p ∈ a.pages, r.1 ≤ p * c4KB ∧ (p + 1) * c4KB ≤ r.1 + r.2 := by
  obtain ⟨r, hr, hregion, hge, hlt, hle, ⟨k, hk⟩, ⟨m, hm⟩⟩ := h.reservation hvalid
  refine ⟨r, hr, hregion, ?_⟩
  intro p hp
  rw [mem_pages, hk, hm] at hp
  rw [hk] at hge
  rw [hm] at hle
  unfold c4KB at *
  omega

theorem Placed.nonempty (hvalid : Valid M s) (h : Placed M s a) :
    a.address / c4KB ∈ a.pages := by
  obtain ⟨r, _, _, _, hlt, _, ⟨k, hk⟩, ⟨m, hm⟩⟩ := h.reservation hvalid
  rw [mem_pages]
  unfold c4KB at *
  omega

theorem Valid.disjoint_of_ne (hvalid : Valid M s) (ha : a ∈ s.live) (hb : b ∈ s.live)
    (hne : a ≠ b) : Disjoint a.pages b.pages :=
  have : Std.Symm fun a b : Allocation => Disjoint a.pages b.pages := ⟨fun _ _ h => h.symm⟩
  hvalid.disjoint.forall ha hb hne

theorem Valid.eq_of_address (hvalid : Valid M s) (ha : a ∈ s.live) (hb : b ∈ s.live)
    (haddress : a.address = b.address) : a = b := by
  by_contra hne
  have hpa := (hvalid.placed a ha).nonempty hvalid
  have hpb := (hvalid.placed b hb).nonempty hvalid
  rw [← haddress] at hpb
  exact Set.disjoint_left.mp (hvalid.disjoint_of_ne ha hb hne) hpa hpb

theorem and_region (address : ℕ) : address &&& (cSmallMemoryRegionSize - 1) = address % c64KB :=
  Nat.and_two_pow_sub_one_eq_mod _ 16

theorem region_eq (address : ℕ) :
    address / cSmallMemoryRegionSize * cSmallMemoryRegionSize = region address := rfl

theorem Placed.recorded (hvalid : Valid M s) (h : Placed M s a) :
    s.heap.GetSizeOfAllocation a.address = some (a.stop - a.address) := by
  have hand : a.address &&& 0xffff = a.address % c64KB := and_region _
  unfold GetSizeOfAllocation
  rw [hand, region_eq, page_eq]
  cases h with
  | @small base i n hmem hi hn hle haddress hstop hsize =>
    obtain ⟨hpage, hregion, hodd⟩ := address_page (hvalid.aligned _ hmem) (show i < 16 by omega)
    rw [← haddress] at hpage hregion hodd
    have hnot : ¬a.address % c64KB = 0 := fun h => hodd hi (Nat.dvd_of_mod_eq_zero h)
    rw [if_neg hnot, hregion, hpage]
    dsimp only
    have hpages : n <<< 12 = base + (i + n) * c4KB - (base + i * c4KB) := by
      rw [Nat.shiftLeft_eq]
      unfold c4KB
      omega
    rw [hsize, if_neg (by omega), hstop, haddress, hpages]
  | @large size full hkey haligned hpos hdvd hstop hfull hle =>
    rw [if_pos (Nat.mod_eq_zero_of_dvd haligned), hkey, hstop, Nat.add_sub_cancel_left]

theorem Valid.head_free (hM : M.Exact) (hvalid : Valid M s)
    (hbase : base ∈ s.heap.m_free_small_memory_list) (ha : a ∈ s.live) :
    base / c4KB ∉ a.pages := by
  intro hp
  cases hvalid.placed a ha with
  | @small base' i n hmem hi hn hle haddress hstop hsize =>
    have hpage := mem_pages_region (j := 0) (hvalid.aligned _ hmem) (hvalid.aligned _ hbase) hle
      (by decide) haddress hstop
    rw [Nat.add_zero] at hpage
    have hrun := hpage.mp hp
    omega
  | @large size full hkey haligned hpos hdvd hstop hfull hle =>
    have hne : (base, c64KB) ≠ (a.address, full) := by
      intro heq
      rw [← (Prod.mk.inj heq).1, hvalid.small _ hbase] at hkey
      cases hkey
    have hapart := hM.apart (hvalid.reserved _ hbase) hfull hne
    obtain ⟨q, hq⟩ := hvalid.aligned _ hbase
    obtain ⟨m, hm⟩ := hdvd
    rw [mem_pages, hstop] at hp
    unfold c64KB c4KB at *
    dsimp only at hapart
    omega

theorem Valid.holds (hM : M.Exact) (hvalid : Valid M s)
    (hkept : ∀ a ∈ s.live, Disjoint s.freed a.pages) : Holds M s where
  disjoint := hvalid.disjoint
  committed := hvalid.committed
  own a ha := by
    obtain ⟨r, hr, hregion, _, _, hle, _⟩ := (hvalid.placed a ha).reservation hvalid
    exact ⟨r, hr, hregion, hle⟩
  clear a ha hsmall := by
    refine ⟨?_, hvalid.head_free hM hvalid.home ha⟩
    cases hvalid.placed a ha with
    | @small base i n hmem hi hn hle haddress hstop hsize =>
      rw [haddress, (address_page (hvalid.aligned _ hmem) (show i < 16 by omega)).2.1]
      unfold cSmallMemoryBlockSize c4KB
      omega
    | @large size full hkey haligned hpos hdvd hstop hfull hle => exact absurd haligned hsmall
  heads := by
    rw [hvalid.filled, List.append_nil]
    exact hvalid.heads
  recorded a ha := (hvalid.placed a ha).recorded hvalid
  mask := by
    rw [hvalid.filled, List.append_nil]
    exact hvalid.mask
  kept := hkept

end Awn.VirtualAddressHeap
