import Awn.ExpHeap.Run

/-! What the calls of a heap give, after any sequence of calls that keep it tiled. -/

namespace Awn

open Memory

namespace ExpHeap

def AllocatesInside (h : ExpHeap) (size : BitVec 64) (alignment : BitVec 32) : Prop :=
  (h.TryAllocate size alignment).1 ≠ 0 →
    h.m_start_address.toNat ≤ (h.TryAllocate size alignment).1.toNat ∧
    (h.TryAllocate size alignment).1.toNat + size.toNat ≤ h.m_end_address.toNat ∧
    ∃ x, Used (h.TryAllocate size alignment).2 x (h.TryAllocate size alignment).1 ∧
      size.toNat ≤ x.block_size.toNat

def Full (h : ExpHeap) (alignment : BitVec 64) : Prop :=
  ∀ x ∈ h.m_free_block_list, ¬Fits 0 alignment x

section Allocate

variable {h : ExpHeap} {size n : BitVec 64} {k : ℕ} {x : ExpHeapMemoryBlock}

theorem Fits.zero {alignment : BitVec 64} (hfits : Fits n alignment x) : Fits 0 alignment x := by
  rw [Fits] at *
  exact Nat.le_trans (Nat.add_le_add_left (Nat.zero_le _) _) hfits

theorem Full.refused (hvalid : h.Valid) (hk : k < 31) (hfull : h.Full (alignmentOf k)) :
    h.TryAllocate size (BitVec.ofNat 32 (2 ^ k)) = (0, h) := by
  have htried := hvalid.tried hk size
  generalize h.TryAllocate size (BitVec.ofNat 32 (2 ^ k)) = r at htried
  cases htried with
  | refused hnone => rfl
  | accepted x hx hfits hleast => exact absurd hfits.zero (hfull x hx)

theorem Valid.alignUp_pos (hvalid : h.Valid) (hk : k < 31) (hx : x ∈ h.m_free_block_list) :
    alignUp x.start (alignmentOf k) ≠ 0 := by
  intro hzero
  have hlow := (hvalid.alignUp_bounds hk hx).1
  rw [hzero] at hlow
  have : x.address.toNat + 0x20 ≤ 0 := hlow
  omega

theorem alignedSize_ge (hk : k < 31)
    (hsize : size.toNat + 2 ^ max k 2 ≤ 2 ^ 64) :
    size.toNat ≤ (h.alignedSize size (alignmentOf k)).toNat := by
  by_cases hzero : size = 0
  · rw [hzero]
    exact Nat.zero_le _
  · rw [alignedSize, if_pos hzero]
    exact (Memory.alignUp_bounds size (by omega) hsize).1

theorem Valid.alignedSize_zero (hvalid : h.Valid) (hk : k < 31)
    (hsize : 2 ^ 64 < size.toNat + 2 ^ max k 2) : h.alignedSize size (alignmentOf k) = 0 := by
  have hadd := hvalid.alignedSize_add hk size
  have hpow := pow_le hk
  have hne : size ≠ 0 := by
    rintro rfl
    have : 2 ^ 64 < 0 + 2 ^ max k 2 := hsize
    omega
  rw [alignedSize, if_pos hne] at hadd ⊢
  rcases alignUp_ge size (k := max k 2) (by omega) with hge | hzero
  · rw [alignmentOf] at hadd
    omega
  · exact hzero

theorem Valid.allocated (hvalid : h.Valid) (hk : k < 31)
    (hsize : size.toNat + 2 ^ max k 2 ≤ 2 ^ 64) :
    h.AllocatesInside size (BitVec.ofNat 32 (2 ^ k)) := by
  have hge := alignedSize_ge (h := h) hk hsize
  have htried := hvalid.tried hk size
  rw [AllocatesInside]
  generalize h.TryAllocate size (BitVec.ofNat 32 (2 ^ k)) = r at htried
  cases htried with
  | refused hnone => exact fun hne => absurd rfl hne
  | accepted x hx hfits hleast =>
    intro _
    obtain ⟨-, used_block, hlist, haddress, hblock⟩ := hvalid.addUsedBlock_of_fits hk hx hfits
    have hwithin := hvalid.free_within hx
    have hlow := (hvalid.alignUp_bounds hk hx).1
    rw [Fits] at hfits
    refine ⟨by dsimp only; omega, by dsimp only; omega, used_block, ⟨?_, haddress⟩,
      Nat.le_trans hge hblock⟩
    rw [hlist]
    exact List.mem_append_right _ (List.mem_singleton_self _)

theorem Valid.full_of_inside (hvalid : h.Valid) (hk : k < 31)
    (hsize : 2 ^ 64 < size.toNat + 2 ^ max k 2)
    (hinside : h.AllocatesInside size (BitVec.ofNat 32 (2 ^ k))) : h.Full (alignmentOf k) := by
  intro y hy hfits
  have hpow := pow_le hk
  have hend := hvalid.end_le
  have htried := hvalid.tried hk size
  rw [hvalid.alignedSize_zero hk hsize] at htried
  rw [AllocatesInside] at hinside
  generalize h.TryAllocate size (BitVec.ofNat 32 (2 ^ k)) = r at htried hinside
  cases htried with
  | refused hnone => exact hnone y hy hfits
  | accepted x hx hx_fits hleast =>
    have := (hinside (hvalid.alignUp_pos hk hx)).2.1
    omega

theorem Valid.allocatesInside_iff (hvalid : h.Valid) (hk : k < 31) :
    h.AllocatesInside size (BitVec.ofNat 32 (2 ^ k)) ↔
      size.toNat + 2 ^ max k 2 ≤ 2 ^ 64 ∨ h.Full (alignmentOf k) := by
  constructor
  · intro hinside
    by_cases hsize : size.toNat + 2 ^ max k 2 ≤ 2 ^ 64
    · exact Or.inl hsize
    · exact Or.inr (hvalid.full_of_inside hk (Nat.not_le.mp hsize) hinside)
  · rintro (hsize | hfull)
    · exact hvalid.allocated hk hsize
    · intro hne
      rw [hfull.refused hvalid hk] at hne
      exact absurd rfl hne

structure Complete (h : ExpHeap) (size : BitVec 64) (alignment : BitVec 32) : Prop where
  iff_le : (h.TryAllocate size alignment).1 ≠ 0 ↔
    alignUp size (enforceAlignment alignment) ≤ h.GetMaximumAllocatableSize alignment
  least : h.m_allocation_mode = .BestFit → (h.TryAllocate size alignment).1 ≠ 0 →
    ∃ x ∈ h.m_free_block_list,
      Fits (alignUp size (enforceAlignment alignment)) (enforceAlignment alignment) x ∧
      h.TryAllocate size alignment =
        (alignUp x.start (enforceAlignment alignment),
          h.AddUsedBlock x (alignUp x.start (enforceAlignment alignment))
            (alignUp size (enforceAlignment alignment))) ∧
      ∀ y ∈ h.m_free_block_list,
        Fits (alignUp size (enforceAlignment alignment)) (enforceAlignment alignment) y →
          x.block_size ≤ y.block_size

theorem Valid.complete (hvalid : h.Valid) (hk : k < 31) (hne : size ≠ 0)
    (hsize : size.toNat + 2 ^ max k 2 ≤ 2 ^ 64) : h.Complete size (BitVec.ofNat 32 (2 ^ k)) := by
  have haligned : h.alignedSize size (alignmentOf k) = alignUp size (alignmentOf k) := if_pos hne
  have hge := alignedSize_ge (h := h) hk hsize
  have hpos : 0 < (alignUp size (alignmentOf k)).toNat := by
    have : size.toNat ≠ 0 := fun hzero => hne (BitVec.eq_of_toNat_eq hzero)
    rw [haligned] at hge
    omega
  have hmaximum := hvalid.le_maximum_iff hpos (alignmentOf k)
  have htried := hvalid.tried hk size
  rw [haligned] at htried
  constructor
  · rw [GetMaximumAllocatableSize, enforceAlignment_pow hk, hmaximum]
    generalize h.TryAllocate size (BitVec.ofNat 32 (2 ^ k)) = r at htried
    cases htried with
    | refused hnone =>
      constructor
      · exact fun hnot => absurd rfl hnot
      · rintro ⟨y, hy, hfits⟩
        exact absurd hfits (hnone y hy)
    | accepted x hx hfits hleast =>
      exact ⟨fun _ => ⟨x, hx, hfits⟩, fun _ => hvalid.alignUp_pos hk hx⟩
  · intro hmode hnot
    rw [enforceAlignment_pow hk]
    generalize h.TryAllocate size (BitVec.ofNat 32 (2 ^ k)) = r at htried hnot
    cases htried with
    | refused hnone => exact absurd rfl hnot
    | accepted x hx hfits hleast => exact ⟨x, hx, hfits, rfl, hleast hmode⟩

end Allocate

def asAsked : ParentHeap (BitVec 64) := ⟨id, fun _ => true, fun _ new_size => (new_size, new_size)⟩

theorem admissible_page : Admissible asAsked 0x10000 0x1000 (some 0x1000) :=
  ⟨by decide, by decide, by decide, fun p hp => by obtain rfl := Option.mem_some_iff.mp hp; decide⟩

def page (cs : List Call) : State (BitVec 64) :=
  cs.foldl (State.call asAsked) (create 0x10000 0x1000 false (some 0x1000))

theorem keeps_page :
    Calls.EachIn (State.call asAsked) (Keeps asAsked)
      (create 0x10000 0x1000 false (some 0x1000)) [.TryAllocate 0x40 4] :=
  ⟨trivial, (by decide : 4 < 31), trivial⟩

def threeBlocks : List Call :=
  [.TryAllocate 0x40 4, .TryAllocate 0x40 4, .TryAllocate 0x100 4, .Free 0x10120]

variable {P : Type*} (parents : ParentHeap P) {address size : BitVec 64} {is_root : Bool}
  {m_parent_heap : Option P} {cs : List Call}

theorem allocatesInside_last_iff (hadmissible : Admissible parents address size m_parent_heap)
    (hcs : Calls.EachIn (State.call parents) (Keeps parents)
      (create address size is_root m_parent_heap) cs) {asked : BitVec 64} {k : ℕ}
    (hk : k < 31) :
    let s := cs.foldl (State.call parents) (create address size is_root m_parent_heap)
    s.h.AllocatesInside asked (BitVec.ofNat 32 (2 ^ k)) ↔
      asked.toNat + 2 ^ max k 2 ≤ 2 ^ 64 ∨ s.h.Full (alignmentOf k) :=
  (inv_last hadmissible hcs).valid.allocatesInside_iff hk

theorem allocatesInside_page :
    (page [.TryAllocate 0x40 4]).h.AllocatesInside 0x80 16 ↔
      (0x80 : BitVec 64).toNat + 2 ^ 4 ≤ 2 ^ 64 ∨
        (page [.TryAllocate 0x40 4]).h.Full (alignmentOf 4) :=
  allocatesInside_last_iff asAsked admissible_page keeps_page (by decide : 4 < 31)

theorem page_not_allocatesInside : ¬(page []).h.AllocatesInside 0xfffffffffffffff8 16 := by
  intro hinside
  exact absurd (hinside (by decide)).2.1 (by decide)

theorem complete_last (hadmissible : Admissible parents address size m_parent_heap)
    (hcs : Calls.EachIn (State.call parents) (Keeps parents)
      (create address size is_root m_parent_heap) cs) {asked : BitVec 64} (hne : asked ≠ 0) {k : ℕ}
    (hk : k < 31) (hasked : asked.toNat + 2 ^ max k 2 ≤ 2 ^ 64) :
    (cs.foldl (State.call parents) (create address size is_root m_parent_heap)).h.Complete asked
      (BitVec.ofNat 32 (2 ^ k)) :=
  (inv_last hadmissible hcs).valid.complete hk hne hasked

theorem complete_page : (page [.TryAllocate 0x40 4]).h.Complete 0x80 16 :=
  complete_last asAsked admissible_page keeps_page (by decide) (by decide : 4 < 31) (by decide)

theorem page_not_complete :
    ¬(page (threeBlocks ++ [.AdjustAllocation 0x100c0 0xa0])).h.Complete 0x2000 16 := by
  intro hcomplete
  exact absurd hcomplete.iff_le (by decide)

theorem adjusted_last_iff (hadmissible : Admissible parents address size m_parent_heap)
    (hcs : Calls.EachIn (State.call parents) (Keeps parents)
      (create address size is_root m_parent_heap) cs) :
    let s := cs.foldl (State.call parents) (create address size is_root m_parent_heap)
    ∀ x allocated new_size, Used s.h x allocated →
      ∃ r, s.h.AdjustAllocation allocated new_size = some r ∧
        (Adjusted s.h x allocated (alignUp new_size 4) r ↔
          AdjustMet s.h x allocated (alignUp new_size 4)) := by
  intro s x allocated new_size hused
  have hvalid := (inv_last hadmissible hcs).valid
  exact ⟨_, hvalid.adjustAllocation_eq hused new_size, hvalid.adjusted_iff hused⟩

theorem adjusted_page :
    ∃ r, (page [.TryAllocate 0x40 4]).h.AdjustAllocation 0x100c0 0x20 = some r ∧
      (Adjusted (page [.TryAllocate 0x40 4]).h ⟨0x100a0, ExpHeapMemoryBlock.cAllocMagic, 0, 0x40⟩
          0x100c0 (alignUp 0x20 4) r ↔
        AdjustMet (page [.TryAllocate 0x40 4]).h
          ⟨0x100a0, ExpHeapMemoryBlock.cAllocMagic, 0, 0x40⟩ 0x100c0 (alignUp 0x20 4)) :=
  adjusted_last_iff asAsked admissible_page keeps_page
    ⟨0x100a0, ExpHeapMemoryBlock.cAllocMagic, 0, 0x40⟩ 0x100c0 0x20 ⟨by decide, by decide⟩

theorem page_not_adjusted :
    ∃ r, (page threeBlocks).h.AdjustAllocation 0x100c0 0x50 = some r ∧
      ¬Adjusted (page threeBlocks).h ⟨0x100a0, ExpHeapMemoryBlock.cAllocMagic, 0, 0x40⟩ 0x100c0 0x50
        r := by
  refine ⟨_, rfl, fun hadjusted => ?_⟩
  exact absurd (hadjusted.grown (by decide) (.free 0x10100 0x40) (by decide) rfl (by decide))
    (by decide)

def State.AdjustHeapResized (s : State P) : Prop :=
  let r := s.h.AdjustHeap parents s.m_parent_heap
  Resized parents s.h s.m_parent_heap (r.1.size = 0) r.1.size r.2.1 r.2.2

def State.ResizeHeapBackResized (s : State P) (new_size : BitVec 64) : Prop :=
  let r := s.h.ResizeHeapBack parents s.m_parent_heap s.is_root new_size
  Resized parents s.h s.m_parent_heap (r.1 ≠ alignUp new_size 4) r.1 r.2.1 r.2.2

theorem resized_last_iff (hadmissible : Admissible parents address size m_parent_heap)
    (hcs : Calls.EachIn (State.call parents) (Keeps parents)
      (create address size is_root m_parent_heap) cs) :
    let s := cs.foldl (State.call parents) (create address size is_root m_parent_heap)
    (s.AdjustHeapResized parents ↔ s.h.AdjustHeapMet parents s.m_parent_heap) ∧
      ∀ new_size, s.ResizeHeapBackResized parents new_size ↔
        ResizeMet parents s.h s.is_root s.m_parent_heap (alignUp new_size 4) 1 := by
  have hs := inv_last hadmissible hcs
  exact ⟨hs.valid.adjustHeap_resized parents hs.covers,
    fun _ => hs.valid.resizeHeapBack_resized parents hs.covers⟩

theorem resized_page :
    ((page [.TryAllocate 0x40 4]).AdjustHeapResized asAsked ↔
      (page [.TryAllocate 0x40 4]).h.AdjustHeapMet asAsked
        (page [.TryAllocate 0x40 4]).m_parent_heap) ∧
      ∀ new_size, (page [.TryAllocate 0x40 4]).ResizeHeapBackResized asAsked new_size ↔
        ResizeMet asAsked (page [.TryAllocate 0x40 4]).h (page [.TryAllocate 0x40 4]).is_root
          (page [.TryAllocate 0x40 4]).m_parent_heap (alignUp new_size 4) 1 :=
  resized_last_iff asAsked admissible_page keeps_page

/-- What is returned is the size that is given up, and a heap whose parent has grown as asked is
refused all the same. -/
theorem page_not_resized :
    ¬(page [.TryAllocate 0x40 4]).AdjustHeapResized asAsked ∧
      ¬(page [.TryAllocate 0x40 4]).ResizeHeapBackResized asAsked 0x2000 := by
  constructor
  · intro hresized
    exact absurd hresized.size_eq (by decide)
  · intro hresized
    exact absurd (hresized.unchanged (by decide)).2 (by decide)

section Tiled

variable {s : State P}

structure State.Right (s : State P) : Prop where
  tiles : Tiles ⟨s.h.m_start_address.toNat, s.h.m_end_address.toNat⟩
    (s.h.m_free_block_list.map ExpHeapMemoryBlock.freeSpan ++
      s.h.m_allocated_block_list.map ExpHeapMemoryBlock.usedSpan)
  sorted : Coalesced s.h.m_free_block_list
  owned : ∀ a ∈ s.live, a.alignment ∣ a.address.toNat ∧
    ∃ x, Used s.h x a.address ∧ a.size.toNat ≤ x.block_size.toNat
  restored : s.live = [] → s.h.m_free_block_list =
    [.free s.h.m_start_address (s.h.m_end_address - s.h.m_start_address - 0x20)]

def Asked (s : State P) : Call → Prop
  | .SetAllocationMode _ => True
  | .TryAllocate size k => k < 31 ∧ size.toNat + 3 < 2 ^ 64
  | .Free address => ∃ a ∈ s.live, a.address = address
  | _ => False

def AskedMet (s : State P) : Call → Prop
  | .TryAllocate size k => size.toNat + 2 ^ max k 2 ≤ 2 ^ 64 ∨ s.h.Full (alignmentOf k)
  | _ => True

structure State.Tiled (s : State P) : Prop where
  valid : s.h.Valid
  room : s.h.m_start_address.toNat + 0x20 ≤ s.h.m_end_address.toNat
  owned : ∀ a ∈ s.live, a.alignment ∣ a.address.toNat ∧
    ∃ x, Used s.h x a.address ∧ a.size.toNat ≤ x.block_size.toNat
  live : ∀ x ∈ s.h.m_allocated_block_list, ∃ a ∈ s.live, x.address = a.address - 0x20

theorem State.Tiled.right (hs : s.Tiled) : s.Right := by
  refine ⟨hs.valid.tiles, hs.valid.sorted, hs.owned, ?_⟩
  intro hlive
  have hempty : s.h.m_allocated_block_list = [] := by
    apply List.eq_nil_iff_forall_not_mem.mpr
    intro x hx
    obtain ⟨a, ha, -⟩ := hs.live x hx
    rw [hlive] at ha
    cases ha
  have htiles := hs.valid.tiles
  rw [hempty, List.map_nil, List.append_nil] at htiles
  have hroom := hs.room
  have hsingle := htiles.eq_single (show s.h.m_start_address.toNat < s.h.m_end_address.toNat by omega)
    (List.pairwise_map.mpr hs.valid.sorted)
    (fun s hs => by obtain ⟨x, -, rfl⟩ := List.mem_map.mp hs; exact last_pos x)
  obtain ⟨x, hlist, hspan⟩ := List.map_eq_singleton_iff.mp hsingle
  have hkind := hs.valid.free_kind x (hlist ▸ List.mem_singleton_self x)
  have hfirst : x.address.toNat = s.h.m_start_address.toNat := congrArg Span.first hspan
  have hlast : x.last = s.h.m_end_address.toNat := congrArg Span.last hspan
  have hsize : x.last = x.address.toNat + 0x20 + x.block_size.toNat := rfl
  have hblock : x.block_size = s.h.m_end_address - s.h.m_start_address - 0x20 := by
    apply BitVec.eq_of_toNat_eq
    rw [BitVec.toNat_sub_of_le, BitVec.toNat_sub_of_le (BitVec.le_def.mpr hs.valid.start_le)]
    · show _ = _ - 0x20
      omega
    · rw [BitVec.le_def, BitVec.toNat_sub_of_le (BitVec.le_def.mpr hs.valid.start_le)]
      show 0x20 ≤ _
      omega
  rw [hlist, ← hblock, ← BitVec.eq_of_toNat_eq hfirst]
  obtain ⟨address, alloc_magic, alignment, block_size⟩ := x
  simp only at hkind
  rw [hkind.1, hkind.2]
  rfl

theorem State.Tiled.allocate (hs : s.Tiled) {asked : BitVec 64} {k : ℕ} (hk : k < 31)
    (hmet : asked.toNat + 2 ^ max k 2 ≤ 2 ^ 64 ∨ s.h.Full (alignmentOf k)) :
    (s.call parents (.TryAllocate asked k)).Tiled := by
  obtain ⟨hvalid, hroom, howned, hlive⟩ := hs
  have hinside := (hvalid.allocatesInside_iff hk).mpr hmet
  have hrange := range_tryAllocate (h := s.h) asked (BitVec.ofNat 32 (2 ^ k))
  have htried := hvalid.tried hk asked
  rw [State.call]
  rw [AllocatesInside] at hinside
  generalize s.h.TryAllocate asked (BitVec.ofNat 32 (2 ^ k)) = r at htried hrange hinside
  cases htried with
  | refused hnone =>
    dsimp only
    rw [if_pos rfl]
    exact ⟨hvalid, hroom, howned, hlive⟩
  | accepted x hx hfits hleast =>
    obtain ⟨hvalid', used_block, hlist, haddress, -⟩ := hvalid.addUsedBlock_of_fits hk hx hfits
    have hne := hvalid.alignUp_pos hk hx
    obtain ⟨-, -, hblock⟩ := hinside hne
    have hdvd : 2 ^ k ∣ (alignUp x.start (alignmentOf k)).toNat :=
      Nat.dvd_trans (Nat.pow_dvd_pow 2 (Nat.le_max_left k 2))
        (Memory.alignUp_dvd x.start (by omega))
    dsimp only at hrange hblock ⊢
    rw [if_neg hne]
    refine ⟨hvalid', ?_, ?_, ?_⟩
    · dsimp only
      rw [hrange.1, hrange.2]
      exact hroom
    · intro a ha
      rcases List.mem_append.mp ha with ha | ha
      · obtain ⟨halign, y, hused, hsize⟩ := howned a ha
        refine ⟨halign, y, ⟨?_, hused.address_eq⟩, hsize⟩
        dsimp only
        rw [hlist]
        exact List.mem_append_left _ hused.mem
      · rw [List.mem_singleton.mp ha]
        exact ⟨hdvd, hblock⟩
    · intro y hy
      dsimp only at hy
      rw [hlist] at hy
      rcases List.mem_append.mp hy with hy | hy
      · obtain ⟨a, ha, heq⟩ := hlive y hy
        exact ⟨a, List.mem_append_left _ ha, heq⟩
      · rw [List.mem_singleton.mp hy]
        exact ⟨_, List.mem_append_right _ (List.mem_singleton_self _), haddress⟩

theorem State.Tiled.release (hs : s.Tiled) {address : BitVec 64}
    (hlive : ∃ a ∈ s.live, a.address = address) : (s.call parents (.Free address)).Tiled := by
  obtain ⟨hvalid, hroom, howned, hall⟩ := hs
  obtain ⟨a, ha, rfl⟩ := hlive
  obtain ⟨-, x, hused, -⟩ := howned a ha
  have hfreed := hvalid.free hused.mem hused.address_eq
  have hmem (y : ExpHeapMemoryBlock) : y ∈ (s.h.Free a.address).m_allocated_block_list ↔
      y ∈ s.h.m_allocated_block_list ∧ y.address ≠ x.address := by
    rw [hfreed.used, List.mem_filter, decide_eq_true_eq]
  refine ⟨hfreed.valid, ?_, ?_, ?_⟩
  · show (s.h.Free a.address).m_start_address.toNat + 0x20 ≤
      (s.h.Free a.address).m_end_address.toNat
    rw [hfreed.range.1, hfreed.range.2]
    exact hroom
  · intro b hb
    obtain ⟨hb, hne⟩ := List.mem_filter.mp hb
    obtain ⟨halign, y, hy, hsize⟩ := howned b hb
    refine ⟨halign, y, ⟨(hmem y).mpr ⟨hy.mem, ?_⟩, hy.address_eq⟩, hsize⟩
    rw [hy.address_eq, hused.address_eq, Ne, BitVec.sub_left_inj]
    exact of_decide_eq_true hne
  · intro y hy
    obtain ⟨hy, hne⟩ := (hmem y).mp hy
    obtain ⟨b, hb, heq⟩ := hall y hy
    refine ⟨b, List.mem_filter.mpr ⟨hb, decide_eq_true ?_⟩, heq⟩
    rintro hsame
    apply hne
    rw [heq, hsame, hused.address_eq]

theorem State.Tiled.call (hs : s.Tiled) {c : Call} (hasked : Asked s c) (hmet : AskedMet s c) :
    (s.call parents c).Tiled := by
  cases c with
  | SetAllocationMode mode =>
    obtain ⟨hvalid, hroom, howned, hlive⟩ := hs
    refine ⟨⟨hvalid.start_pos, hvalid.start_le, hvalid.end_le, hvalid.sorted, hvalid.free_kind,
      hvalid.used_kind, hvalid.tiles⟩, hroom, ?_, hlive⟩
    intro a ha
    obtain ⟨halign, x, hused, hsize⟩ := howned a ha
    exact ⟨halign, x, ⟨hused.mem, hused.address_eq⟩, hsize⟩
  | TryAllocate asked k => exact hs.allocate parents hasked.1 hmet
  | Free address => exact hs.release parents hasked
  | AdjustAllocation address new_size => exact hasked.elim
  | AdjustHeap => exact hasked.elim
  | ResizeHeapBack new_size => exact hasked.elim

theorem State.Tiled.met_of_right (hs : s.Tiled) {c : Call} (hasked : Asked s c)
    (hright : (s.call parents c).Right) : AskedMet s c := by
  cases c with
  | TryAllocate asked k =>
    have hvalid := hs.valid
    apply (hvalid.allocatesInside_iff hasked.1).mp
    intro hne
    have hlive : (⟨(s.h.TryAllocate asked (BitVec.ofNat 32 (2 ^ k))).1, asked, 2 ^ k⟩ : Allocation) ∈
        (s.call parents (.TryAllocate asked k)).live := by
      rw [State.call]
      dsimp only
      rw [if_neg hne]
      exact List.mem_append_right _ (List.mem_singleton_self _)
    obtain ⟨-, x, hused, hsize⟩ := hright.owned _ hlive
    have hvalid' := hvalid.tryAllocate hasked.1 asked
    have hwithin := hvalid'.used_within hused.mem
    have hstart := hvalid'.used_start hused
    have hlast : x.last = x.address.toNat + 0x20 + x.block_size.toNat := rfl
    have hrange := range_tryAllocate (h := s.h) asked (BitVec.ofNat 32 (2 ^ k))
    rw [hrange.1, hrange.2] at hwithin
    change asked.toNat ≤ x.block_size.toNat at hsize
    have haddress : (s.h.TryAllocate asked (BitVec.ofNat 32 (2 ^ k))).1.toNat =
      x.address.toNat + 0x20 := hstart.1
    exact ⟨by omega, by omega, x, ⟨hused.mem, hused.address_eq⟩, hsize⟩
  | SetAllocationMode mode => trivial
  | Free address => trivial
  | AdjustAllocation address new_size => trivial
  | AdjustHeap => trivial
  | ResizeHeapBack new_size => trivial

theorem tiled_create (hadmissible : Admissible parents address size m_parent_heap) :
    (create address size is_root m_parent_heap).Tiled := by
  obtain ⟨hpos, hsize, hend, -⟩ := hadmissible
  obtain ⟨hstart, hstop, -⟩ := range_tryCreate address (by omega) hsize
  refine ⟨valid_tryCreate hpos hsize hend, ?_, List.forall_mem_nil _, List.forall_mem_nil _⟩
  show (TryCreate address size).m_start_address.toNat + 0x20 ≤
    (TryCreate address size).m_end_address.toNat
  omega

theorem tiled_throughout_iff (hadmissible : Admissible parents address size m_parent_heap)
    (hcs : Calls.EachIn (State.call parents) Asked (create address size is_root m_parent_heap) cs) :
    Calls.Throughout (State.call parents) State.Right (fun _ _ => True)
        (create address size is_root m_parent_heap) cs ↔
      Calls.EachIn (State.call parents) AskedMet (create address size is_root m_parent_heap) cs :=
  Calls.throughout_iff (fun _ (hs : State.Tiled _) => hs.right)
    (fun _ _ hs hasked hmet => ⟨trivial, hs.call parents hasked hmet⟩)
    (fun _ _ hs hasked _ hright => hs.met_of_right parents hasked hright)
    (tiled_create parents hadmissible) hcs

theorem tiled_page :
    Calls.Throughout (State.call asAsked) State.Right (fun _ _ => True) (page [])
        [.TryAllocate 0x40 4, .Free 0x100c0] ↔
      Calls.EachIn (State.call asAsked) AskedMet (page []) [.TryAllocate 0x40 4, .Free 0x100c0] :=
  tiled_throughout_iff asAsked admissible_page
    ⟨trivial, ⟨by decide, by decide⟩, trivial, ⟨⟨0x100c0, 0x40, 16⟩, by decide, rfl⟩, trivial⟩

theorem page_not_tiled :
    Calls.EachIn (State.call asAsked) Asked (page []) [.TryAllocate 0xfffffffffffffff8 4] ∧
      ¬Calls.Throughout (State.call asAsked) State.Right (fun _ _ => True) (page [])
        [.TryAllocate 0xfffffffffffffff8 4] := by
  refine ⟨⟨trivial, ⟨by decide, by decide⟩, trivial⟩, ?_⟩
  rintro ⟨-, -, hright⟩
  have htiled : (page []).Tiled := tiled_create asAsked admissible_page
  rcases htiled.met_of_right asAsked (c := .TryAllocate 0xfffffffffffffff8 4)
    ⟨by decide, by decide⟩ hright with hsize | hfull
  · exact absurd hsize (by decide)
  · exact hfull (.free 0x100a0 0xf40) (by decide) (by rw [Fits]; decide)

end Tiled

end ExpHeap

end Awn
