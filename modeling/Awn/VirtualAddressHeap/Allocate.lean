import Awn.VirtualAddressHeap.Valid

/-! What allocations keep of the invariant. -/

namespace Awn.VirtualAddressHeap

variable {V : Type} {M : VirtualMemory V} {s s' : State V} {a b : Allocation} {base i n p : ℕ}

theorem Placed.keep (hvalid : Valid M s) (h : Placed M s b)
    (hsmall : ∀ base ∈ s.heap.m_free_small_memory_list, region b.address = base →
      base ∈ s'.heap.m_free_small_memory_list ∧
        (s'.heap.block base).size b.address = (s.heap.block base).size b.address)
    (hlarge : ∀ size full, s.heap.m_large_memory_map b.address = some size →
      (b.address, full) ∈ M.reserved s.memory → s'.heap.m_large_memory_map b.address = some size ∧
        (b.address, full) ∈ M.reserved s'.memory) : Placed M s' b := by
  cases h with
  | @small base i n hmem hi hn hle haddress hstop hsize =>
    have hregion : region b.address = base := by
      rw [haddress]
      exact (address_page (hvalid.aligned _ hmem) (by omega)).2.1
    obtain ⟨hmem', hsize'⟩ := hsmall base hmem hregion
    exact .small hmem' hi hn hle haddress hstop (hsize'.trans hsize)
  | @large size full hkey haligned hpos hdvd hstop hfull hle =>
    obtain ⟨hkey', hfull'⟩ := hlarge size full hkey hfull
    exact .large hkey' haligned hpos hdvd hstop hfull' hle

section Fresh

variable (hvalid : Valid M s) {address size : ℕ} (hpos : 0 < size)
  (hfresh : ∀ r ∈ M.reserved s.memory, r.1 + r.2 ≤ address ∨ address + size ≤ r.1)

include hvalid hfresh

theorem fresh_pages (hb : b ∈ s.live) (hp : p ∈ b.pages) :
    (p + 1) * c4KB ≤ address ∨ address + size ≤ p * c4KB := by
  obtain ⟨r, hr, _, hbounds⟩ := (hvalid.placed b hb).pages_bounds hvalid
  have hpage := hbounds p hp
  have hapart := hfresh r hr
  omega

include hpos

theorem fresh_region (hbase : base ∈ s.heap.m_free_small_memory_list) : base ≠ address := by
  rintro rfl
  have hapart := hfresh _ (hvalid.reserved _ hbase)
  unfold c64KB at hapart
  dsimp only at hapart
  omega

theorem fresh_key (hM : M.Exact) : s.heap.m_large_memory_map address = none := by
  cases hkey : s.heap.m_large_memory_map address with
  | none => rfl
  | some size' =>
    obtain ⟨full, hfull⟩ := hvalid.large _ _ hkey
    have hfullPos := hM.pos hfull
    have hapart := hfresh _ hfull
    dsimp only at hapart hfullPos
    omega

end Fresh

theorem Valid.addLarge (hM : M.Exact) (hvalid : Valid M s) {v₁ v₂ : V} {address size : ℕ}
    (hreserve : M.MEM_RESERVE s.memory size = some (address, v₁))
    (hcommit : M.MEM_COMMIT v₁ address size = some v₂) (hdvd : c4KB ∣ size) :
    Valid M (s.next M ((s.heap.setLarge address (some size)).adjustBounds address (address + size))
      v₂ (⟨address, address + size⟩ :: s.live)) := by
  obtain ⟨hpos, haligned, hfresh, hreserved₁, hcommitted₁⟩ := hM.reserve hreserve
  obtain ⟨-, -, hreserved₂, hcommitted₂⟩ := hM.commit hcommit
  rw [hreserved₁] at hreserved₂
  rw [hcommitted₁] at hcommitted₂
  have hpages : ∀ p, p ∈ Allocation.pages ⟨address, address + size⟩ ↔
      address < (p + 1) * c4KB ∧ p * c4KB < address + size := by
    intro p
    rw [mem_pages, Nat.add_sub_cancel_left]
  have hout : ∀ base ∈ s.heap.m_free_small_memory_list, ∀ j < 16,
      base / c4KB + j ∉ Allocation.pages ⟨address, address + size⟩ := by
    intro base hbase j hj hp
    have hapart := hfresh _ (hvalid.reserved _ hbase)
    obtain ⟨q, rfl⟩ := hvalid.aligned _ hbase
    have hrange := (hpages _).mp hp
    unfold c64KB c4KB at *
    dsimp only at hapart
    omega
  exact
    { filled := hvalid.filled
      nodup := hvalid.nodup
      home := hvalid.home
      last := hvalid.last
      aligned := hvalid.aligned
      reserved := fun base hbase => by
        change _ ∈ M.reserved v₂
        rw [hreserved₂]
        exact Set.mem_insert_of_mem _ (hvalid.reserved _ hbase)
      heads := fun base hbase => by
        change _ ∈ M.committed v₂
        rw [hcommitted₂]
        exact Set.mem_union_left _ (hvalid.heads _ hbase)
      small := fun base hbase => by
        change Function.update s.heap.m_large_memory_map address (some size) base = none
        rw [Function.update_of_ne (fresh_region hvalid hpos hfresh hbase)]
        exact hvalid.small _ hbase
      large := fun key size' hkey => by
        change ∃ full, _ ∈ M.reserved v₂
        rw [hreserved₂]
        by_cases heq : key = address
        · rw [heq]
          exact ⟨size, Set.mem_insert _ _⟩
        · change Function.update s.heap.m_large_memory_map address (some size) key = _ at hkey
          rw [Function.update_of_ne heq] at hkey
          obtain ⟨full, hfull⟩ := hvalid.large _ _ hkey
          exact ⟨full, Set.mem_insert_of_mem _ hfull⟩
      placed := fun b hb => by
        rcases List.mem_cons.mp hb with rfl | hb
        · refine .large (Function.update_self _ _ _) haligned hpos
            hdvd rfl ?_ le_rfl
          change _ ∈ M.reserved v₂
          rw [hreserved₂]
          exact Set.mem_insert _ _
        · refine (hvalid.placed b hb).keep hvalid (fun base hbase _ => ⟨hbase, rfl⟩) ?_
          intro size' full hkey hfull
          have hne : b.address ≠ address := by
            intro heq
            rw [heq, fresh_key hvalid hpos hfresh hM] at hkey
            cases hkey
          refine ⟨(Function.update_of_ne hne _ _).trans hkey, ?_⟩
          change _ ∈ M.reserved v₂
          rw [hreserved₂]
          exact Set.mem_insert_of_mem _ hfull
      committed := fun b hb => by
        change b.pages ⊆ M.committed v₂
        rw [hcommitted₂]
        rcases List.mem_cons.mp hb with rfl | hb
        · intro p hp
          exact Set.mem_union_right _ ((hpages p).mp hp)
        · exact (hvalid.committed b hb).trans Set.subset_union_left
      disjoint := by
        refine List.pairwise_cons.mpr ⟨?_, hvalid.disjoint⟩
        intro b hb
        rw [Set.disjoint_left]
        intro p hp hpb
        have hrange := (hpages p).mp hp
        have hfar := fresh_pages hvalid hfresh hb hpb
        unfold c4KB at hrange hfar
        obtain ⟨q, rfl⟩ := haligned
        obtain ⟨m, rfl⟩ := hdvd
        unfold c64KB c4KB at *
        omega
      mask := fun base hbase j hj => by
        refine (hvalid.mask base hbase j hj).trans (or_congr_left ?_)
        constructor
        · rintro ⟨b, hb, hp⟩
          exact ⟨b, List.mem_cons_of_mem _ hb, hp⟩
        · rintro ⟨b, hb, hp⟩
          rcases List.mem_cons.mp hb with rfl | hb
          · exact absurd hp (hout base hbase j hj)
          · exact ⟨b, hb, hp⟩ }

theorem Valid.setBounds (hvalid : Valid M s) (start stop : ℕ) (freed : Set ℕ) :
    Valid M ⟨{ s.heap with m_start_address := start, m_end_address := stop }, s.home, s.memory,
      s.live, freed⟩ where
  filled := hvalid.filled
  nodup := hvalid.nodup
  home := hvalid.home
  last := hvalid.last
  aligned := hvalid.aligned
  reserved := hvalid.reserved
  heads := hvalid.heads
  small := hvalid.small
  large := hvalid.large
  placed a ha := (hvalid.placed a ha).keep hvalid (fun _ h _ => ⟨h, rfl⟩) fun _ _ hk hf => ⟨hk, hf⟩
  committed := hvalid.committed
  disjoint := hvalid.disjoint
  mask := hvalid.mask

theorem Valid.not_full (hM : M.Exact) (hvalid : Valid M s)
    (hbase : base ∈ s.heap.m_free_small_memory_list) :
    (s.heap.block base).page_mask ≠ cMaxPageMask := by
  intro hfull
  have hfirst := (hvalid.mask base hbase 0 (by decide)).mp (by rw [hfull]; rfl)
  rcases hfirst with ⟨a, ha, hp⟩ | ⟨rfl, -⟩
  · rw [Nat.add_zero] at hp
    exact hvalid.head_free hM hbase ha hp
  · have hlast := hvalid.last
    rw [hfull] at hlast
    cases hlast

theorem Valid.not_max (hM : M.Exact) (hvalid : Valid M s)
    (hbase : base ∈ s.heap.m_free_small_memory_list) : s.heap.swapFilled base = s.heap :=
  if_neg (hvalid.not_full hM hbase)

theorem Valid.bit_of_page (hvalid : Valid M s) (hbase : base ∈ s.heap.m_free_small_memory_list)
    {j : ℕ} (hj : j < 16) (hb : b ∈ s.live) (hp : base / c4KB + j ∈ b.pages) :
    (s.heap.block base).page_mask.getLsbD j = true :=
  (hvalid.mask base hbase j hj).mpr (.inl ⟨b, hb, hp⟩)

theorem address_of_region (hbase : c64KB ∣ base) {address : ℕ} (hregion : region address = base) :
    base / c4KB + address / c4KB % 16 = address / c4KB := by
  obtain ⟨q, rfl⟩ := hbase
  unfold region c64KB c4KB at *
  omega

theorem Valid.use (hvalid : Valid M s) (hbase : base ∈ s.heap.m_free_small_memory_list)
    (hi : 1 ≤ i) (hn : 1 ≤ n) (hle : i + n ≤ 16) (hlast : base = s.home → i + n ≤ 15)
    (hclear : Clear (s.heap.block base).page_mask i n) {block : VirtualHeapSmallMemoryBlock}
    (hbits : ∀ j < 16, block.page_mask.getLsbD j =
      ((s.heap.block base).page_mask.getLsbD j || decide (i ≤ j ∧ j < i + n)))
    (hself : ∀ address, address / c4KB % 16 = i → block.size address = n)
    (hother : ∀ address, address / c4KB % 16 ≠ i →
      block.size address = (s.heap.block base).size address)
    {v : V} (hreserved : M.reserved v = M.reserved s.memory)
    (hcommitted : M.committed s.memory ⊆ M.committed v)
    (hpages : ∀ p, base / c4KB + i ≤ p → p < base / c4KB + i + n → p ∈ M.committed v) :
    Valid M (s.next M (s.heap.setBlock base block) v
      (⟨base + i * c4KB, base + (i + n) * c4KB⟩ :: s.live)) := by
  have haligned := hvalid.aligned base hbase
  have hmem : ∀ p, p ∈ Allocation.pages ⟨base + i * c4KB, base + (i + n) * c4KB⟩ ↔
      base / c4KB + i ≤ p ∧ p < base / c4KB + i + n := fun p => mem_pages_small haligned rfl rfl
  exact
    { filled := hvalid.filled
      nodup := hvalid.nodup
      home := hvalid.home
      last := by
        change ((s.heap.setBlock base block).block s.home).page_mask.getLsbD 15 = false
        by_cases heq : s.home = base
        · have hend := hlast heq.symm
          have hold := hvalid.last
          rw [heq] at hold ⊢
          rw [setBlock_self, hbits 15 (by decide), hold, Bool.false_or]
          exact decide_eq_false (by omega)
        · rw [setBlock_of_ne _ heq]
          exact hvalid.last
      aligned := hvalid.aligned
      reserved := fun base' hbase' => by
        change _ ∈ M.reserved v
        rw [hreserved]
        exact hvalid.reserved _ hbase'
      heads := fun base' hbase' => hcommitted (hvalid.heads _ hbase')
      small := hvalid.small
      large := fun key size hkey => by
        change ∃ full, _ ∈ M.reserved v
        rw [hreserved]
        exact hvalid.large _ _ hkey
      placed := fun b hb => by
        rcases List.mem_cons.mp hb with rfl | hb
        · refine .small (i := i) (n := n) hbase hi hn hle rfl rfl ?_
          change ((s.heap.setBlock base block).block base).size _ = n
          rw [setBlock_self]
          exact hself _ (address_page haligned (by omega)).1
        · refine (hvalid.placed b hb).keep hvalid ?_ ?_
          · intro base' hbase' hregion
            refine ⟨hbase', ?_⟩
            change ((s.heap.setBlock base block).block base').size _ = _
            by_cases heq : base' = base
            · rw [heq, setBlock_self]
              apply hother
              intro hpage
              rw [heq] at hregion
              have hp := (hvalid.placed b hb).nonempty hvalid
              rw [← address_of_region haligned hregion, hpage] at hp
              have hbit := hvalid.bit_of_page hbase (by omega) hb hp
              rw [hclear i le_rfl (by omega)] at hbit
              cases hbit
            · rw [setBlock_of_ne _ heq]
          · intro size full hkey hfull
            refine ⟨hkey, ?_⟩
            change _ ∈ M.reserved v
            rwa [hreserved]
      committed := fun b hb => by
        rcases List.mem_cons.mp hb with rfl | hb
        · intro p hp
          obtain ⟨hge, hlt⟩ := (hmem p).mp hp
          exact hpages p hge hlt
        · exact (hvalid.committed b hb).trans hcommitted
      disjoint := by
        refine List.pairwise_cons.mpr ⟨?_, hvalid.disjoint⟩
        intro b hb
        rw [Set.disjoint_left]
        intro p hp hpb
        obtain ⟨hge, hlt⟩ := (hmem p).mp hp
        obtain ⟨j, rfl⟩ := Nat.exists_eq_add_of_le (show base / c4KB ≤ p by omega)
        have hbit := hvalid.bit_of_page hbase (by omega) hb hpb
        rw [hclear j (by omega) (by omega)] at hbit
        cases hbit
      mask := fun base' hbase' j hj => by
        change ((s.heap.setBlock base block).block base').page_mask.getLsbD j = true ↔
          (∃ a ∈ _ :: s.live, _) ∨ base' = s.home ∧ j = 0
        have hnew := mem_pages_region (a := ⟨base + i * c4KB, base + (i + n) * c4KB⟩) haligned
          (hvalid.aligned _ hbase') hle hj rfl rfl
        simp only [List.mem_cons, or_and_right, exists_or, exists_eq_left]
        rw [hnew, or_assoc, ← hvalid.mask base' hbase' j hj]
        by_cases heq : base' = base
        · rw [heq, setBlock_self, hbits j hj, Bool.or_eq_true, decide_eq_true_iff, or_comm]
          simp only [true_and]
        · rw [setBlock_of_ne _ heq]
          simp only [heq, false_and, false_or] }

theorem NoEmpty.setBlock {block : VirtualHeapSmallMemoryBlock} {live : List Allocation} {v : V}
    (hne : ∀ base' ∈ s.heap.m_free_small_memory_list, base' ≠ base →
      (s.heap.block base').page_mask ≠ 0) (hblock : block.page_mask ≠ 0) :
    NoEmpty (s.next M (s.heap.setBlock base block) v live) := by
  intro base' hbase'
  change (Function.update s.heap.block base block base').page_mask ≠ 0
  by_cases heq : base' = base
  · rwa [heq, Function.update_self]
  · rw [Function.update_of_ne heq]
    exact hne base' hbase' heq

theorem Valid.addRegion (hM : M.Exact) (hvalid : Valid M s) {v₁ v₂ : V} {count : ℕ}
    (hreserve : M.MEM_RESERVE s.memory cSmallMemoryRegionSize = some (base, v₁))
    (hcommit : M.MEM_COMMIT v₁ base (count <<< 12) = some v₂) :
    Valid M (s.next M ((s.heap.setBlock base ⟨0, fun _ => 0⟩).pushFree base) v₂ s.live) := by
  obtain ⟨hpos, haligned, hfresh, hreserved₁, hcommitted₁⟩ := hM.reserve hreserve
  obtain ⟨hcount, -, hreserved₂, hcommitted₂⟩ := hM.commit hcommit
  rw [hreserved₁] at hreserved₂
  rw [hcommitted₁] at hcommitted₂
  have hnew : ∀ base' ∈ s.heap.m_free_small_memory_list, base' ≠ base :=
    fun base' hbase' => fresh_region hvalid hpos hfresh hbase'
  have hmem : ∀ base', base' ∈ s.heap.m_free_small_memory_list ++ [base] ↔
      base' ∈ s.heap.m_free_small_memory_list ∨ base' = base := by
    intro base'
    rw [List.mem_append, List.mem_singleton]
  have hsub : M.committed s.memory ⊆ M.committed v₂ := by
    rw [hcommitted₂]
    exact Set.subset_union_left
  exact
    { filled := hvalid.filled
      nodup := by
        refine List.nodup_append.mpr ⟨hvalid.nodup, List.pairwise_singleton _ _, ?_⟩
        intro base' hbase' b hb
        rw [List.mem_singleton.mp hb]
        exact hnew base' hbase'
      home := List.mem_append_left _ hvalid.home
      last := by
        change ((s.heap.setBlock base ⟨0, fun _ => 0⟩).block s.home).page_mask.getLsbD 15 = false
        rw [setBlock_of_ne _ (hnew _ hvalid.home)]
        exact hvalid.last
      aligned := fun base' hbase' => by
        rcases (hmem base').mp hbase' with hbase' | rfl
        · exact hvalid.aligned _ hbase'
        · exact haligned
      reserved := fun base' hbase' => by
        change _ ∈ M.reserved v₂
        rw [hreserved₂]
        rcases (hmem base').mp hbase' with hbase' | rfl
        · exact Set.mem_insert_of_mem _ (hvalid.reserved _ hbase')
        · exact Set.mem_insert _ _
      heads := fun base' hbase' => by
        rcases (hmem base').mp hbase' with hbase' | rfl
        · exact hsub (hvalid.heads _ hbase')
        · change _ ∈ M.committed v₂
          rw [hcommitted₂]
          refine Set.mem_union_right _ ?_
          obtain ⟨q, rfl⟩ := haligned
          rw [mem_pagesOf]
          unfold c64KB c4KB
          omega
      small := fun base' hbase' => by
        rcases (hmem base').mp hbase' with hbase' | rfl
        · exact hvalid.small _ hbase'
        · exact fresh_key hvalid hpos hfresh hM
      large := fun key size hkey => by
        change ∃ full, _ ∈ M.reserved v₂
        rw [hreserved₂]
        obtain ⟨full, hfull⟩ := hvalid.large _ _ hkey
        exact ⟨full, Set.mem_insert_of_mem _ hfull⟩
      placed := fun b hb => by
        refine (hvalid.placed b hb).keep hvalid ?_ ?_
        · intro base' hbase' _
          refine ⟨List.mem_append_left _ hbase', ?_⟩
          change ((s.heap.setBlock base ⟨0, fun _ => 0⟩).block base').size _ = _
          rw [setBlock_of_ne _ (hnew _ hbase')]
        · intro size full hkey hfull
          refine ⟨hkey, ?_⟩
          change _ ∈ M.reserved v₂
          rw [hreserved₂]
          exact Set.mem_insert_of_mem _ hfull
      committed := fun b hb => (hvalid.committed b hb).trans hsub
      disjoint := hvalid.disjoint
      mask := fun base' hbase' j hj => by
        change ((s.heap.setBlock base ⟨0, fun _ => 0⟩).block base').page_mask.getLsbD j = true ↔ _
        rcases (hmem base').mp hbase' with hbase' | rfl
        · rw [setBlock_of_ne _ (hnew _ hbase')]
          exact hvalid.mask base' hbase' j hj
        · rw [setBlock_self]
          change BitVec.getLsbD 0 j = true ↔ _
          rw [BitVec.ofNat_eq_ofNat, BitVec.getLsbD_zero]
          refine iff_of_false Bool.false_ne_true ?_
          rintro (⟨b, hb, hp⟩ | ⟨hhome, -⟩)
          · have hfar := fresh_pages hvalid hfresh hb hp
            obtain ⟨q, rfl⟩ := haligned
            unfold cSmallMemoryRegionSize c64KB c4KB at *
            omega
          · exact hnew _ hvalid.home hhome.symm }

end Awn.VirtualAddressHeap
