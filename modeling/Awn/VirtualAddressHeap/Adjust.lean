import Awn.VirtualAddressHeap.Free

/-! What `AdjustAllocation` keeps of the invariant. -/

namespace Awn.VirtualAddressHeap

open Memory

variable {V : Type} {M : VirtualMemory V} {s : State V} {a b : Allocation} {base i n p stop : ℕ}
  {heap : VirtualAddressHeap} {v : V}

def State.usedPages (s : State V) : Set ℕ :=
  {p | (∃ a ∈ s.live, p ∈ a.pages) ∨
    ∃ base ∈ s.heap.m_free_small_memory_list ++ s.heap.m_filled_small_memory_list,
      p = base / c4KB}

/-- A large allocation is not cut to nothing nor to what it has. The pages that the cut of a small
one gives back lie behind those cut by its place in the region, and none is in use elsewhere. -/
def Trimmable (s : State V) (a : Allocation) (new_size : BitVec 64) : Prop :=
  (c64KB ∣ a.address →
    aligned_new_size new_size ≠ 0 ∧ aligned_new_size new_size ≠ a.stop - a.address) ∧
  (¬c64KB ∣ a.address →
    new_block_count new_size = 0 ∨ a.stop - a.address ≤ new_block_count new_size * c4KB ∨
      pagesOf (a.address + (a.address / c4KB % 16 + new_block_count new_size) * c4KB)
        (a.stop - a.address - new_block_count new_size * c4KB) ∩ s.usedPages ⊆ a.pages)

theorem cut_none (address : ℕ) (a : Allocation) : cut address none a = a := by
  unfold cut
  split
  · rfl
  · rfl

theorem map_cut_none (live : List Allocation) (address : ℕ) :
    live.map (cut address none) = live := by
  rw [funext (cut_none address)]
  exact List.map_id _

theorem cut_self (a : Allocation) (stop : ℕ) : cut a.address (some stop) a = ⟨a.address, stop⟩ :=
  if_pos rfl

theorem cut_of_ne {address : ℕ} (h : b.address ≠ address) (stop : ℕ) :
    cut address (some stop) b = b := if_neg h

theorem Valid.mem_cut (hvalid : Valid M s) (ha : a ∈ s.live) :
    b ∈ s.live.map (cut a.address (some stop)) ↔
      b = ⟨a.address, stop⟩ ∨ b ∈ s.live ∧ b ≠ a := by
  rw [List.mem_map]
  constructor
  · rintro ⟨b', hb', rfl⟩
    by_cases heq : b' = a
    · rw [heq, cut_self]
      exact .inl rfl
    · rw [cut_of_ne (fun h => heq (hvalid.eq_of_address hb' ha h))]
      exact .inr ⟨hb', heq⟩
  · rintro (rfl | ⟨hb, hne⟩)
    · exact ⟨a, ha, cut_self a stop⟩
    · exact ⟨b, hb, cut_of_ne (fun h => hne (hvalid.eq_of_address hb ha h)) stop⟩

theorem pages_mono (hle : stop ≤ a.stop) : Allocation.pages ⟨a.address, stop⟩ ⊆ a.pages := by
  intro p hp
  rw [mem_pages] at hp ⊢
  dsimp only at hp
  exact ⟨hp.1, by omega⟩

theorem Valid.pages_cut (hvalid : Valid M s) (ha : a ∈ s.live) (hle : stop ≤ a.stop) :
    (∃ b ∈ s.live.map (cut a.address (some stop)), p ∈ b.pages) ↔
      (∃ b ∈ s.live, p ∈ b.pages) ∧ p ∉ a.pages \ Allocation.pages ⟨a.address, stop⟩ := by
  constructor
  · rintro ⟨b, hb, hp⟩
    rcases (hvalid.mem_cut ha).mp hb with rfl | ⟨hb, hne⟩
    · exact ⟨⟨a, ha, pages_mono hle hp⟩, fun h => h.2 hp⟩
    · exact ⟨⟨b, hb, hp⟩, fun h => Set.disjoint_left.mp (hvalid.disjoint_of_ne hb ha hne) hp h.1⟩
  · rintro ⟨⟨b, hb, hp⟩, hkept⟩
    by_cases heq : b = a
    · rw [heq] at hp
      refine ⟨_, (hvalid.mem_cut ha).mpr (.inl rfl), ?_⟩
      by_contra hnot
      exact hkept ⟨hp, hnot⟩
    · exact ⟨b, (hvalid.mem_cut ha).mpr (.inr ⟨hb, heq⟩), hp⟩

theorem Valid.disjoint_cut (hvalid : Valid M s) (ha : a ∈ s.live) (hle : stop ≤ a.stop) :
    (s.live.map (cut a.address (some stop))).Pairwise fun a b => Disjoint a.pages b.pages := by
  have hsub : ∀ b ∈ s.live, (cut a.address (some stop) b).pages ⊆ b.pages := by
    intro b hb
    by_cases heq : b = a
    · rw [heq, cut_self]
      exact pages_mono hle
    · rw [cut_of_ne fun h => heq (hvalid.eq_of_address hb ha h)]
  rw [List.pairwise_map]
  refine hvalid.disjoint.imp_of_mem ?_
  intro x y hx hy hdisjoint
  exact hdisjoint.mono (hsub x hx) (hsub y hy)

theorem Valid.trimLarge (hM : M.Exact) (hvalid : Valid M s) (ha : a ∈ s.live)
    {size new full : ℕ} (hkey : s.heap.m_large_memory_map a.address = some size)
    (haligned : c64KB ∣ a.address) (hdvd : c4KB ∣ size) (hstop : a.stop = a.address + size)
    (hfull : (a.address, full) ∈ M.reserved s.memory) (hle : size ≤ full) (hpos : 0 < new)
    (hlt : new < size) (hnew : c4KB ∣ new)
    (hdecommit : M.MEM_DECOMMIT s.memory (a.address + new) (size - new) = some v) :
    Valid M (s.next M (s.heap.setLarge a.address (some new)) v
      (s.live.map (cut a.address (some (a.address + new))))) := by
  obtain ⟨hreserved, hcommitted⟩ := hM.decommit hdecommit (by omega)
  have hcut : a.address + new ≤ a.stop := by omega
  have hrange : pagesOf (a.address + new) (size - new) ⊆ a.pages := by
    intro p hp
    rw [mem_pagesOf] at hp
    rw [mem_pages, hstop]
    omega
  have hpages : ∀ base ∈ s.heap.m_free_small_memory_list, ∀ j < 16, base / c4KB + j ∉ a.pages := by
    intro base hbase j hj hp
    refine hvalid.page_out hM hfull hbase (hvalid.key_ne hkey hbase) hj ?_
    rw [mem_pages, hstop] at hp
    exact ⟨hp.1, by omega⟩
  exact
    { filled := hvalid.filled
      nodup := hvalid.nodup
      home := hvalid.home
      last := hvalid.last
      aligned := hvalid.aligned
      reserved := fun base hbase => by
        change _ ∈ M.reserved v
        rw [hreserved]
        exact hvalid.reserved _ hbase
      heads := fun base hbase => by
        change _ ∈ M.committed v
        rw [hcommitted]
        exact ⟨hvalid.heads _ hbase, fun h => hvalid.head_free hM hbase ha (hrange h)⟩
      small := fun base hbase => by
        change Function.update s.heap.m_large_memory_map a.address (some new) base = none
        rw [Function.update_of_ne (hvalid.key_ne hkey hbase)]
        exact hvalid.small _ hbase
      large := fun key size₁ hkey₁ => by
        change ∃ full, _ ∈ M.reserved v
        rw [hreserved]
        by_cases heq : key = a.address
        · rw [heq]
          exact ⟨full, hfull⟩
        · change Function.update s.heap.m_large_memory_map a.address (some new) key = _ at hkey₁
          rw [Function.update_of_ne heq] at hkey₁
          exact hvalid.large _ _ hkey₁
      placed := fun b hb => by
        rcases (hvalid.mem_cut ha).mp hb with rfl | ⟨hb, hne⟩
        · refine .large (Function.update_self _ _ _) haligned hpos hnew rfl ?_
            (hlt.le.trans hle)
          change _ ∈ M.reserved v
          rwa [hreserved]
        · refine (hvalid.placed b hb).keep hvalid (fun _ hbase _ => ⟨hbase, rfl⟩) ?_
          intro size₁ full₁ hkey₁ hfull₁
          have hkeyNe : b.address ≠ a.address := fun h => hne (hvalid.eq_of_address hb ha h)
          refine ⟨(Function.update_of_ne hkeyNe _ _).trans hkey₁, ?_⟩
          change _ ∈ M.reserved v
          rwa [hreserved]
      committed := fun b hb => by
        change _ ⊆ M.committed v
        rw [hcommitted]
        rcases (hvalid.mem_cut ha).mp hb with rfl | ⟨hb, hne⟩
        · intro p hp
          refine ⟨hvalid.committed a ha (pages_mono hcut hp), ?_⟩
          intro hgone
          rw [mem_pages] at hp
          rw [mem_pagesOf] at hgone
          obtain ⟨q, hq⟩ := haligned
          obtain ⟨m, rfl⟩ := hnew
          rw [hq] at hp hgone
          unfold c64KB c4KB at *
          dsimp only at hp
          omega
        · exact Set.subset_sdiff.mpr ⟨hvalid.committed b hb,
            (hvalid.disjoint_of_ne hb ha hne).mono_right hrange⟩
      disjoint := hvalid.disjoint_cut ha hcut
      mask := fun base hbase j hj => by
        change _ ↔ (∃ b ∈ s.live.map (cut a.address (some (a.address + new))),
          base / c4KB + j ∈ b.pages) ∨ _
        rw [hvalid.pages_cut ha hcut, and_iff_left fun h => hpages base hbase j hj h.1]
        exact hvalid.mask base hbase j hj }

theorem Valid.trimSmall (hM : M.Exact) (hvalid : Valid M s) (ha : a ∈ s.live)
    (hbase : base ∈ s.heap.m_free_small_memory_list) (hi : 1 ≤ i) (hle : i + n ≤ 16)
    (haddress : a.address = base + i * c4KB) (hstop : a.stop = base + (i + n) * c4KB)
    {k size : ℕ} (hk : 1 ≤ k) (hkn : k < n) (hsize : 0 < size)
    (hunused : pagesOf (a.address + (i + k) * c4KB) size ∩ s.usedPages ⊆ a.pages)
    (hdecommit : M.MEM_DECOMMIT s.memory (a.address + (i + k) * c4KB) size = some v) :
    Valid M (s.next M (s.heap.setBlock base (((s.heap.block base).setSize i k).clearPages
      (lowBits (n - k) <<< (i + k)))) v
        (s.live.map (cut a.address (some (base + (i + k) * c4KB))))) := by
  obtain ⟨hreserved, hcommitted⟩ := hM.decommit hdecommit hsize
  have haligned := hvalid.aligned _ hbase
  have hcut : base + (i + k) * c4KB ≤ a.stop := by
    rw [hstop]
    unfold c4KB
    omega
  have hgone : ∀ base' ∈ s.heap.m_free_small_memory_list, ∀ j < 16,
      base' / c4KB + j ∈ a.pages \ Allocation.pages ⟨a.address, base + (i + k) * c4KB⟩ ↔
        base' = base ∧ i + k ≤ j ∧ j < i + n := by
    intro base' hbase' j hj
    have haligned' := hvalid.aligned _ hbase'
    rw [Set.mem_sdiff, mem_pages_region haligned haligned' hle hj haddress hstop,
      mem_pages_region (a := ⟨a.address, base + (i + k) * c4KB⟩) haligned haligned'
        (show i + k ≤ 16 by omega) hj haddress rfl]
    omega
  refine hvalid.give _ (i + k) (i + n) (by omega) hgone ?_ ?_ ?_ ?_ ?_ hreserved ?_
  · intro j hj
    have hbit := VirtualHeapSmallMemoryBlock.clearPages_bit ((s.heap.block base).setSize i k)
      (n := n - k) (i := i + k) hj
    rw [hbit, VirtualHeapSmallMemoryBlock.setSize_page_mask, show i + k + (n - k) = i + n by omega]
  · intro p
    exact hvalid.pages_cut ha hcut
  · intro b hb
    rcases (hvalid.mem_cut ha).mp hb with rfl | ⟨hb, hne⟩
    · refine .small (i := i) (n := k) hbase hi hk (by omega) haddress rfl ?_
      change ((s.heap.setBlock base _).block base).size _ = k
      rw [setBlock_self, VirtualHeapSmallMemoryBlock.clearPages_size]
      apply VirtualHeapSmallMemoryBlock.size_setSize _ (by omega)
      rw [haddress]
      exact (address_page haligned (by omega)).1
    · refine (hvalid.placed b hb).keep hvalid ?_ ?_
      · intro base' hbase' hregion
        refine ⟨hbase', ?_⟩
        change ((s.heap.setBlock base _).block base').size _ = _
        by_cases heq : base' = base
        · rw [heq, setBlock_self, VirtualHeapSmallMemoryBlock.clearPages_size]
          apply VirtualHeapSmallMemoryBlock.size_setSize_of_ne _ (by omega)
          intro hpage
          have hp := (hvalid.placed b hb).nonempty hvalid
          rw [← address_of_region haligned (hregion.trans heq), hpage] at hp
          refine Set.disjoint_left.mp (hvalid.disjoint_of_ne hb ha hne) hp ?_
          rw [mem_pages_region haligned haligned hle (by omega) haddress hstop]
          omega
        · rw [setBlock_of_ne _ heq]
      · intro size' full hkey hfull
        refine ⟨hkey, ?_⟩
        change _ ∈ M.reserved v
        rwa [hreserved]
  · intro b hb
    rw [hcommitted]
    rcases (hvalid.mem_cut ha).mp hb with rfl | ⟨hb, hne⟩
    · intro p hp
      refine ⟨hvalid.committed a ha (pages_mono hcut hp), ?_⟩
      intro hrange
      have hlt := ((mem_pages_small (a := ⟨a.address, base + (i + k) * c4KB⟩) haligned haddress
        rfl).mp hp).2
      rw [mem_pagesOf, haddress] at hrange
      obtain ⟨q, rfl⟩ := haligned
      unfold c64KB c4KB at *
      omega
    · intro p hp
      exact ⟨hvalid.committed b hb hp, fun h => Set.disjoint_left.mp
        (hvalid.disjoint_of_ne hb ha hne) hp (hunused ⟨h, .inl ⟨b, hb, hp⟩⟩)⟩
  · exact hvalid.disjoint_cut ha hcut
  · intro base' hbase'
    rw [hcommitted]
    exact ⟨hvalid.heads _ hbase', fun h => hvalid.head_free hM hbase' ha
      (hunused ⟨h, .inr ⟨base', List.mem_append_left _ hbase', rfl⟩⟩)⟩

theorem Valid.same (hvalid : Valid M s) : Valid M (s.next M s.heap s.memory s.live) :=
  hvalid.setBounds _ _ _

theorem Valid.adjustLarge (hM : M.Exact) (hvalid : Valid M s) (ha : a ∈ s.live) {size full : ℕ}
    (hkey : s.heap.m_large_memory_map a.address = some size) (haligned : c64KB ∣ a.address)
    (hdvd : c4KB ∣ size) (hstop : a.stop = a.address + size)
    (hfull : (a.address, full) ∈ M.reserved s.memory) (hle : size ≤ full)
    {new_size : BitVec 64} (htrim : Trimmable s a new_size) {r : Adjusted V}
    (h : s.heap.adjustLarge M s.memory a.address new_size = some r) :
    Valid M (s.next M r.heap r.memory (s.live.map (cut a.address r.stop))) ∧
      r.heap.block = s.heap.block ∧
      r.heap.m_free_small_memory_list = s.heap.m_free_small_memory_list := by
  obtain ⟨hzero, hne⟩ := htrim.1 haligned
  rw [hstop, Nat.add_sub_cancel_left] at hne
  have hnew : c4KB ∣ aligned_new_size new_size := alignUp_dvd (k := 12) _ (by decide)
  unfold VirtualAddressHeap.adjustLarge at h
  rw [hkey] at h
  change (if size ≤ aligned_new_size new_size ∧ size ≠ aligned_new_size new_size then _
    else _) = some r at h
  by_cases hgrow : size ≤ aligned_new_size new_size
  · rw [if_pos ⟨hgrow, hne.symm⟩] at h
    cases h
    dsimp only
    rw [map_cut_none]
    exact ⟨hvalid.same, rfl, rfl⟩
  · rw [if_neg (fun h => hgrow h.1)] at h
    obtain ⟨v', hdecommit, hrest⟩ := Option.bind_eq_some_iff.mp h
    have hmap : (s.heap.setLarge a.address none).setLarge a.address
        (some (aligned_new_size new_size)) =
          s.heap.setLarge a.address (some (aligned_new_size new_size)) := by
      unfold setLarge
      dsimp only
      rw [Function.update_idem]
    rw [hmap] at hrest
    cases hrest
    exact ⟨hvalid.trimLarge hM ha hkey haligned hdvd hstop hfull hle (Nat.pos_of_ne_zero hzero)
      (Nat.lt_of_not_le hgrow) hnew hdecommit, rfl, rfl⟩

theorem Valid.adjustSmall (hM : M.Exact) (hvalid : Valid M s) (hne : NoEmpty s) (ha : a ∈ s.live)
    (hbase : base ∈ s.heap.m_free_small_memory_list) (hi : 1 ≤ i) (hn : 1 ≤ n) (hle : i + n ≤ 16)
    (haddress : a.address = base + i * c4KB) (hstop : a.stop = base + (i + n) * c4KB)
    (hsize : (s.heap.block base).size a.address = n) {new_size : BitVec 64}
    (htrim : Trimmable s a new_size) {r : Adjusted V}
    (h : s.heap.adjustSmall M s.memory a.address new_size = some r) :
    Valid M (s.next M r.heap r.memory (s.live.map (cut a.address r.stop))) ∧
      NoEmpty (s.next M r.heap r.memory (s.live.map (cut a.address r.stop))) := by
  obtain ⟨hpage, hregion, hodd⟩ := address_page (hvalid.aligned _ hbase) (show i < 16 by omega)
  rw [← haddress] at hpage hregion hodd
  have hbytes : a.stop - a.address = n * c4KB := by
    rw [hstop, haddress, Nat.add_mul, ← Nat.add_assoc, Nat.add_sub_cancel_left]
  have hcases := htrim.2 (hodd hi)
  rw [hpage, hbytes] at hcases
  have hunchanged : ∀ size, r = ⟨size, none, s.heap, s.memory⟩ →
      Valid M (s.next M r.heap r.memory (s.live.map (cut a.address r.stop))) ∧
        NoEmpty (s.next M r.heap r.memory (s.live.map (cut a.address r.stop))) := by
    rintro size rfl
    dsimp only
    rw [map_cut_none]
    exact ⟨hvalid.same, hne⟩
  unfold VirtualAddressHeap.adjustSmall at h
  rw [region_eq, page_eq, hregion, hpage] at h
  dsimp only at h
  rw [hsize, if_neg (by omega)] at h
  generalize new_block_count new_size = k at hcases h
  by_cases hk : k = 0
  · rw [if_pos hk] at h
    exact hunchanged _ (Option.some.inj h).symm
  · rw [if_neg hk] at h
    by_cases hgrow : n - k = 0 ∨ n < k
    · rw [if_pos hgrow] at h
      exact hunchanged _ (Option.some.inj h).symm
    · rw [if_neg hgrow] at h
      have hkn : k < n := by omega
      have hmasks : (n - k) &&& 0x1f = n - k ∧ (i + k) &&& 0x1f = i + k := by
        have hand : ∀ x, x &&& 0x1f = x % 32 := fun x => Nat.and_two_pow_sub_one_eq_mod x 5
        rw [hand, hand]
        omega
      have hrange : (i + k) <<< 12 = (i + k) * c4KB ∧ (n - k) <<< 12 = n * c4KB - k * c4KB :=
        ⟨Nat.shiftLeft_eq _ _, (Nat.shiftLeft_eq _ _).trans (Nat.sub_mul _ _ _)⟩
      rw [hmasks.1, hmasks.2, hrange.1, hrange.2] at h
      obtain ⟨v', hdecommit, hrest⟩ := Option.bind_eq_some_iff.mp h
      have hswap : ∀ block, (s.heap.setBlock base block).swapFree base
          (s.heap.block base).page_mask = s.heap.setBlock base block :=
        fun block => if_neg (hvalid.not_full hM hbase)
      rw [hswap] at hrest
      cases hrest
      have hunused := (hcases.resolve_left hk).resolve_left (by unfold c4KB; omega)
      refine ⟨hvalid.trimSmall hM ha hbase hi hle haddress hstop (Nat.pos_of_ne_zero hk) hkn
        (by unfold c4KB; omega) hunused hdecommit, ?_⟩
      refine NoEmpty.setBlock (fun base' hbase' _ => hne base' hbase') ?_
      intro hzero
      have hbit := VirtualHeapSmallMemoryBlock.clearPages_bit ((s.heap.block base).setSize i k)
        (n := n - k) (i := i + k) (show i < 16 by omega)
      have hold := hvalid.bit_of_page hbase (show i < 16 by omega) ha
        ((mem_pages_region (hvalid.aligned _ hbase) (hvalid.aligned _ hbase) hle (by omega) haddress
          hstop).mpr ⟨rfl, le_rfl, by omega⟩)
      rw [hzero, VirtualHeapSmallMemoryBlock.setSize_page_mask, hold,
        decide_eq_false (by omega)] at hbit
      exact Bool.false_ne_true (BitVec.getLsbD_zero.symm.trans hbit)

theorem Valid.adjust (hM : M.Exact) (hvalid : Valid M s) (hne : NoEmpty s) (ha : a ∈ s.live)
    {new_size : BitVec 64} (htrim : Trimmable s a new_size) {r : Adjusted V}
    (h : s.heap.AdjustAllocation M s.memory a.address new_size = some r) :
    Valid M (s.next M r.heap r.memory (s.live.map (cut a.address r.stop))) ∧
      NoEmpty (s.next M r.heap r.memory (s.live.map (cut a.address r.stop))) := by
  unfold VirtualAddressHeap.AdjustAllocation at h
  rw [and_region] at h
  cases hvalid.placed a ha with
  | @small base i n hbase hi hn hle haddress hstop hsize =>
    have hodd := (address_page (hvalid.aligned _ hbase) (show i < 16 by omega)).2.2 hi
    rw [← haddress] at hodd
    rw [if_neg fun hz => hodd (Nat.dvd_of_mod_eq_zero hz)] at h
    exact hvalid.adjustSmall hM hne ha hbase hi hn hle haddress hstop hsize htrim h
  | @large size full hkey haligned hpos hdvd hstop hfull hle =>
    rw [if_pos (Nat.mod_eq_zero_of_dvd haligned)] at h
    obtain ⟨hvalid', hblock, hfree⟩ := hvalid.adjustLarge hM ha hkey haligned hdvd hstop hfull hle
      htrim h
    refine ⟨hvalid', ?_⟩
    intro base hbase
    change base ∈ r.heap.m_free_small_memory_list at hbase
    change (r.heap.block base).page_mask ≠ 0
    rw [hfree] at hbase
    rw [hblock]
    exact hne base hbase

end Awn.VirtualAddressHeap
