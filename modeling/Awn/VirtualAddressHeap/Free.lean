import Awn.VirtualAddressHeap.Allocate

/-! What `Free` keeps of the invariant. -/

namespace Awn.VirtualAddressHeap

variable {V : Type} {M : VirtualMemory V} {s : State V} {a b : Allocation} {base i n p : ℕ}
  {heap : VirtualAddressHeap} {v : V}

def without (live : List Allocation) (address : ℕ) : List Allocation :=
  live.filter (·.address ≠ address)

theorem mem_without {live : List Allocation} {address : ℕ} :
    b ∈ without live address ↔ b ∈ live ∧ b.address ≠ address := by
  unfold without
  rw [List.mem_filter, decide_eq_true_iff]

theorem Valid.mem_without_iff (hvalid : Valid M s) (ha : a ∈ s.live) :
    b ∈ without s.live a.address ↔ b ∈ s.live ∧ b ≠ a := by
  rw [mem_without]
  refine and_congr_right fun hb => not_congr ⟨hvalid.eq_of_address hb ha, ?_⟩
  rintro rfl
  rfl

theorem Valid.pages_without (hvalid : Valid M s) (ha : a ∈ s.live) :
    (∃ b ∈ without s.live a.address, p ∈ b.pages) ↔ (∃ b ∈ s.live, p ∈ b.pages) ∧ p ∉ a.pages := by
  constructor
  · rintro ⟨b, hb, hp⟩
    obtain ⟨hb, hne⟩ := (hvalid.mem_without_iff ha).mp hb
    exact ⟨⟨b, hb, hp⟩, Set.disjoint_left.mp (hvalid.disjoint_of_ne hb ha hne) hp⟩
  · rintro ⟨⟨b, hb, hp⟩, hpa⟩
    refine ⟨b, (hvalid.mem_without_iff ha).mpr ⟨hb, ?_⟩, hp⟩
    rintro rfl
    exact hpa hp

theorem Valid.give (hvalid : Valid M s) {block : VirtualHeapSmallMemoryBlock}
    {live : List Allocation} (gone : Set ℕ) (lo hi : ℕ) (hlo : 1 ≤ lo)
    (hgone : ∀ base' ∈ s.heap.m_free_small_memory_list, ∀ j < 16,
      base' / c4KB + j ∈ gone ↔ base' = base ∧ lo ≤ j ∧ j < hi)
    (hbits : ∀ j < 16, block.page_mask.getLsbD j =
      ((s.heap.block base).page_mask.getLsbD j && !decide (lo ≤ j ∧ j < hi)))
    (hlive : ∀ p, (∃ b ∈ live, p ∈ b.pages) ↔ (∃ b ∈ s.live, p ∈ b.pages) ∧ p ∉ gone)
    (hplaced : ∀ b ∈ live, Placed M (s.next M (s.heap.setBlock base block) v live) b)
    (hcommitted : ∀ b ∈ live, b.pages ⊆ M.committed v)
    (hdisjoint : live.Pairwise fun a b => Disjoint a.pages b.pages)
    (hreserved : M.reserved v = M.reserved s.memory)
    (hheads : ∀ base' ∈ s.heap.m_free_small_memory_list, base' / c4KB ∈ M.committed v) :
    Valid M (s.next M (s.heap.setBlock base block) v live) where
  filled := hvalid.filled
  nodup := hvalid.nodup
  home := hvalid.home
  last := by
    change ((s.heap.setBlock base block).block s.home).page_mask.getLsbD 15 = false
    by_cases heq : s.home = base
    · have hold := hvalid.last
      rw [heq] at hold ⊢
      rw [setBlock_self, hbits 15 (by decide), hold, Bool.false_and]
    · rw [setBlock_of_ne _ heq]
      exact hvalid.last
  aligned := hvalid.aligned
  reserved base' hbase' := by
    change _ ∈ M.reserved v
    rw [hreserved]
    exact hvalid.reserved _ hbase'
  heads := hheads
  small := hvalid.small
  large key size hkey := by
    change ∃ full, _ ∈ M.reserved v
    rw [hreserved]
    exact hvalid.large _ _ hkey
  placed := hplaced
  committed := hcommitted
  disjoint := hdisjoint
  mask base' hbase' j hj := by
    have hnew : ((s.heap.setBlock base block).block base').page_mask.getLsbD j = true ↔
        (s.heap.block base').page_mask.getLsbD j = true ∧ base' / c4KB + j ∉ gone := by
      rw [hgone base' hbase' j hj]
      by_cases heq : base' = base
      · rw [heq, setBlock_self, hbits j hj, Bool.and_eq_true, Bool.not_eq_true',
          decide_eq_false_iff_not]
        simp only [true_and]
      · rw [setBlock_of_ne _ heq]
        simp only [heq, false_and, not_false_eq_true, and_true]
    change ((s.heap.setBlock base block).block base').page_mask.getLsbD j = true ↔
      (∃ a ∈ live, base' / c4KB + j ∈ a.pages) ∨ base' = s.home ∧ j = 0
    rw [hnew, hvalid.mask base' hbase' j hj, hlive, or_and_right]
    refine or_congr_right ⟨And.left, fun hhome => ⟨hhome, ?_⟩⟩
    rw [hgone base' hbase' j hj]
    omega

theorem base_or_page (hbase : c64KB ∣ base) (hi : i < 16) :
    base ||| i <<< 12 = base + i * c4KB := by
  obtain ⟨q, rfl⟩ := hbase
  have hlt : i <<< 12 < 2 ^ 16 := by
    rw [Nat.shiftLeft_eq]
    omega
  have hor := Nat.two_pow_add_eq_or_of_lt hlt q
  rw [Nat.shiftLeft_eq] at hor ⊢
  exact hor.symm

theorem pages_eq (haddress : a.address = base + i * c4KB) (hstop : a.stop = base + (i + n) * c4KB) :
    a.pages = pagesOf (base + i * c4KB) (n * c4KB) := by
  unfold Allocation.pages
  rw [haddress, hstop, Nat.add_mul, ← Nat.add_assoc, Nat.add_sub_cancel_left]

theorem Valid.freeSmall (hM : M.Exact) (hvalid : Valid M s) (ha : a ∈ s.live)
    (hbase : base ∈ s.heap.m_free_small_memory_list) (hi : 1 ≤ i) (hn : 1 ≤ n) (hle : i + n ≤ 16)
    (haddress : a.address = base + i * c4KB) (hstop : a.stop = base + (i + n) * c4KB)
    (hdecommit : M.MEM_DECOMMIT s.memory (base ||| i <<< 12) (n <<< 12) = some v) :
    Valid M (s.next M (s.heap.setBlock base ((s.heap.block base).clearPages (lowBits n <<< i))) v
      (without s.live a.address)) := by
  have haligned := hvalid.aligned _ hbase
  rw [base_or_page haligned (by omega), Nat.shiftLeft_eq] at hdecommit
  obtain ⟨hreserved, hcommitted⟩ := hM.decommit hdecommit (by omega)
  change _ = _ \ pagesOf _ (n * c4KB) at hcommitted
  rw [← pages_eq haddress hstop] at hcommitted
  refine hvalid.give a.pages i (i + n) hi ?_ ?_ ?_ ?_ ?_ ?_ hreserved ?_
  · intro base' hbase' j hj
    exact mem_pages_region haligned (hvalid.aligned _ hbase') hle hj haddress hstop
  · intro j hj
    exact VirtualHeapSmallMemoryBlock.clearPages_bit _ hj
  · intro p
    exact hvalid.pages_without ha
  · intro b hb
    obtain ⟨hb, -⟩ := mem_without.mp hb
    refine (hvalid.placed b hb).keep hvalid ?_ ?_
    · intro base' hbase' _
      refine ⟨hbase', ?_⟩
      change ((s.heap.setBlock base _).block base').size _ = _
      by_cases heq : base' = base
      · rw [heq, setBlock_self, VirtualHeapSmallMemoryBlock.clearPages_size]
      · rw [setBlock_of_ne _ heq]
    · intro size full hkey hfull
      refine ⟨hkey, ?_⟩
      change _ ∈ M.reserved v
      rwa [hreserved]
  · intro b hb
    obtain ⟨hb, hne⟩ := (hvalid.mem_without_iff ha).mp hb
    rw [hcommitted]
    exact Set.subset_sdiff.mpr ⟨hvalid.committed b hb, hvalid.disjoint_of_ne hb ha hne⟩
  · exact hvalid.disjoint.filter _
  · intro base' hbase'
    rw [hcommitted]
    exact ⟨hvalid.heads _ hbase', hvalid.head_free hM hbase' ha⟩

theorem Valid.other_reservation (hM : M.Exact) (hvalid : Valid M s)
    {address size : ℕ} (hreserved : (address, size) ∈ M.reserved s.memory)
    (hb : b ∈ s.live) (hregion : region b.address ≠ address) (hp : p ∈ b.pages) :
    p ∉ pagesOf address size := by
  intro hpage
  obtain ⟨r, hr, hrregion, hbounds⟩ := (hvalid.placed b hb).pages_bounds hvalid
  have hne : r ≠ (address, size) := by
    rintro rfl
    exact hregion hrregion.symm
  have hapart := hM.apart hr hreserved hne
  have hrange := hbounds p hp
  rw [mem_pagesOf] at hpage
  dsimp only at hapart
  omega

theorem Valid.only_allocation (hvalid : Valid M s) (ha : a ∈ s.live)
    (hbase : base ∈ s.heap.m_free_small_memory_list) (hle : i + n ≤ 16)
    (haddress : a.address = base + i * c4KB) (hstop : a.stop = base + (i + n) * c4KB)
    (hzero : ((s.heap.block base).clearPages (lowBits n <<< i)).page_mask = 0)
    (hb : b ∈ s.live) (hne : b ≠ a) : region b.address ≠ base := by
  intro hregion
  have haligned := hvalid.aligned _ hbase
  have hp := (hvalid.placed b hb).nonempty hvalid
  rw [← address_of_region haligned hregion] at hp
  have hj : b.address / c4KB % 16 < 16 := Nat.mod_lt _ (by decide)
  have hpa := Set.disjoint_left.mp (hvalid.disjoint_of_ne hb ha hne) hp
  rw [mem_pages_region haligned haligned hle hj haddress hstop] at hpa
  have hbit := VirtualHeapSmallMemoryBlock.clearPages_bit (s.heap.block base) (n := n) (i := i) hj
  rw [hzero, hvalid.bit_of_page hbase hj hb hp, decide_eq_false (fun h => hpa ⟨rfl, h⟩)] at hbit
  exact Bool.false_ne_true (BitVec.getLsbD_zero.symm.trans hbit)

theorem Valid.freeRegion (hM : M.Exact) (hvalid : Valid M s) (ha : a ∈ s.live)
    (hbase : base ∈ s.heap.m_free_small_memory_list) (hi : 1 ≤ i) (hle : i + n ≤ 16)
    (haddress : a.address = base + i * c4KB) (hstop : a.stop = base + (i + n) * c4KB)
    (hzero : ((s.heap.block base).clearPages (lowBits n <<< i)).page_mask = 0)
    (hrelease : M.MEM_RELEASE s.memory base = some v) :
    Valid M (s.next M ((s.heap.setBlock base
      ((s.heap.block base).clearPages (lowBits n <<< i))).removeFree base) v
        (without s.live a.address)) := by
  obtain ⟨size, hsize, hreserved, hcommitted⟩ := hM.release hrelease
  have haligned := hvalid.aligned _ hbase
  have hother : ∀ b ∈ s.live, b ≠ a → region b.address ≠ base := fun b hb hne =>
    hvalid.only_allocation ha hbase hle haddress hstop hzero hb hne
  have hhome : s.home ≠ base := by
    intro heq
    have hbit := VirtualHeapSmallMemoryBlock.clearPages_bit (s.heap.block base) (n := n) (i := i)
      (show 0 < 16 by decide)
    rw [hzero, (hvalid.mask base hbase 0 (by decide)).mpr (.inr ⟨heq.symm, rfl⟩),
      decide_eq_false (by omega)] at hbit
    exact Bool.false_ne_true (BitVec.getLsbD_zero.symm.trans hbit)
  have hmem : ∀ base', base' ∈ s.heap.m_free_small_memory_list.erase base ↔
      base' ≠ base ∧ base' ∈ s.heap.m_free_small_memory_list :=
    fun base' => hvalid.nodup.mem_erase_iff
  have hsizeEq : size = c64KB := by
    by_contra hne
    have hapart := hM.apart hsize (hvalid.reserved _ hbase) fun h => hne (Prod.mk.inj h).2
    have hpos := hM.pos hsize
    unfold c64KB at hapart
    dsimp only at hapart hpos
    omega
  rw [hsizeEq] at hreserved hcommitted
  have hout : ∀ base' ∈ s.heap.m_free_small_memory_list, base' ≠ base →
      base' / c4KB ∉ pagesOf base c64KB := by
    intro base' hbase' hne hp
    obtain ⟨q, rfl⟩ := haligned
    obtain ⟨q', rfl⟩ := hvalid.aligned _ hbase'
    rw [mem_pagesOf] at hp
    unfold c64KB c4KB at *
    omega
  exact
    { filled := hvalid.filled
      nodup := hvalid.nodup.erase _
      home := (hmem _).mpr ⟨hhome, hvalid.home⟩
      last := by
        change ((s.heap.setBlock base _).block s.home).page_mask.getLsbD 15 = false
        rw [setBlock_of_ne _ hhome]
        exact hvalid.last
      aligned := fun base' hbase' => hvalid.aligned _ ((hmem _).mp hbase').2
      reserved := fun base' hbase' => by
        obtain ⟨hne, hbase'⟩ := (hmem _).mp hbase'
        change _ ∈ M.reserved v
        rw [hreserved]
        exact ⟨hvalid.reserved _ hbase', fun h => hne (Prod.mk.inj h).1⟩
      heads := fun base' hbase' => by
        obtain ⟨hne, hbase'⟩ := (hmem _).mp hbase'
        change _ ∈ M.committed v
        rw [hcommitted]
        exact ⟨hvalid.heads _ hbase', hout base' hbase' hne⟩
      small := fun base' hbase' => hvalid.small _ ((hmem _).mp hbase').2
      large := fun key size' hkey => by
        obtain ⟨full, hfull⟩ := hvalid.large _ _ hkey
        change ∃ full, _ ∈ M.reserved v
        rw [hreserved]
        refine ⟨full, hfull, ?_⟩
        intro h
        change s.heap.m_large_memory_map key = _ at hkey
        rw [(Prod.mk.inj h).1, hvalid.small _ hbase] at hkey
        cases hkey
      placed := fun b hb => by
        obtain ⟨hb, hne⟩ := (hvalid.mem_without_iff ha).mp hb
        refine (hvalid.placed b hb).keep hvalid ?_ ?_
        · rintro base' hbase' hregion
          have hbaseNe : base' ≠ base := hregion ▸ hother b hb hne
          refine ⟨(hmem _).mpr ⟨hbaseNe, hbase'⟩, ?_⟩
          change ((s.heap.setBlock base _).block base').size _ = _
          rw [setBlock_of_ne _ hbaseNe]
        · intro size' full hkey hfull
          refine ⟨hkey, ?_⟩
          change _ ∈ M.reserved v
          rw [hreserved]
          refine ⟨hfull, fun h => ?_⟩
          rw [(Prod.mk.inj h).1, hvalid.small _ hbase] at hkey
          cases hkey
      committed := fun b hb => by
        obtain ⟨hb, hne⟩ := (hvalid.mem_without_iff ha).mp hb
        change _ ⊆ M.committed v
        rw [hcommitted]
        intro p hp
        exact ⟨hvalid.committed b hb hp,
          hvalid.other_reservation hM (hvalid.reserved _ hbase) hb (hother b hb hne) hp⟩
      disjoint := hvalid.disjoint.filter _
      mask := fun base' hbase' j hj => by
        obtain ⟨hne, hbase'⟩ := (hmem _).mp hbase'
        change ((s.heap.setBlock base _).block base').page_mask.getLsbD j = true ↔
          (∃ b ∈ without s.live a.address, base' / c4KB + j ∈ b.pages) ∨ base' = s.home ∧ j = 0
        rw [setBlock_of_ne _ hne, hvalid.mask base' hbase' j hj, hvalid.pages_without ha,
          mem_pages_region haligned (hvalid.aligned _ hbase') hle hj haddress hstop]
        simp only [hne, false_and, not_false_eq_true, and_true] }

theorem Valid.page_out (hM : M.Exact) (hvalid : Valid M s) {address size j : ℕ}
    (hreserved : (address, size) ∈ M.reserved s.memory)
    (hbase : base ∈ s.heap.m_free_small_memory_list) (hne : base ≠ address) (hj : j < 16) :
    base / c4KB + j ∉ pagesOf address size := by
  intro hp
  have hapart := hM.apart (hvalid.reserved _ hbase) hreserved fun h => hne (Prod.mk.inj h).1
  obtain ⟨q, rfl⟩ := hvalid.aligned _ hbase
  rw [mem_pagesOf] at hp
  unfold c64KB c4KB at *
  dsimp only at hapart
  omega

theorem Valid.head_out (hM : M.Exact) (hvalid : Valid M s) {address size : ℕ}
    (hreserved : (address, size) ∈ M.reserved s.memory)
    (hbase : base ∈ s.heap.m_free_small_memory_list) (hne : base ≠ address) :
    base / c4KB ∉ pagesOf address size := by
  have hout := hvalid.page_out hM (j := 0) hreserved hbase hne (by decide)
  rwa [Nat.add_zero] at hout

theorem Valid.key_ne (hvalid : Valid M s) {address size : ℕ}
    (hkey : s.heap.m_large_memory_map address = some size)
    (hbase : base ∈ s.heap.m_free_small_memory_list) : base ≠ address := by
  rintro rfl
  rw [hvalid.small _ hbase] at hkey
  cases hkey

theorem region_of_dvd {address : ℕ} (h : c64KB ∣ address) : region address = address :=
  Nat.div_mul_cancel h

theorem Valid.region_ne (hvalid : Valid M s) (ha : a ∈ s.live) {size : ℕ}
    (hkey : s.heap.m_large_memory_map a.address = some size) (hb : b ∈ s.live) (hne : b ≠ a) :
    region b.address ≠ a.address := by
  cases hvalid.placed b hb with
  | @small base i n hmem hi hn hle haddress hstop hsize =>
    rw [haddress, (address_page (hvalid.aligned _ hmem) (show i < 16 by omega)).2.1]
    exact hvalid.key_ne hkey hmem
  | @large size' full hkey' haligned hpos hdvd hstop hfull hle =>
    rw [region_of_dvd haligned]
    exact fun heq => hne (hvalid.eq_of_address hb ha heq)

theorem Valid.freeLarge (hM : M.Exact) (hvalid : Valid M s) (ha : a ∈ s.live) {size full : ℕ}
    (hkey : s.heap.m_large_memory_map a.address = some size)
    (hstop : a.stop = a.address + size) (hfull : (a.address, full) ∈ M.reserved s.memory)
    (hle : size ≤ full) (hrelease : M.MEM_RELEASE s.memory a.address = some v) :
    Valid M (s.next M (s.heap.setLarge a.address none) v (without s.live a.address)) := by
  obtain ⟨size', hsize', hreserved, hcommitted⟩ := hM.release hrelease
  have hkeep : ∀ {key full' : ℕ}, key ≠ a.address → (key, full') ∈ M.reserved s.memory →
      (key, full') ∈ M.reserved v := by
    intro key full' hne hmem
    rw [hreserved]
    exact ⟨hmem, fun h => hne (Prod.mk.inj h).1⟩
  exact
    { filled := hvalid.filled
      nodup := hvalid.nodup
      home := hvalid.home
      last := hvalid.last
      aligned := hvalid.aligned
      reserved := fun base hbase => hkeep (hvalid.key_ne hkey hbase) (hvalid.reserved _ hbase)
      heads := fun base hbase => by
        change _ ∈ M.committed v
        rw [hcommitted]
        exact ⟨hvalid.heads _ hbase,
          hvalid.head_out hM hsize' hbase (hvalid.key_ne hkey hbase)⟩
      small := fun base hbase => by
        change Function.update s.heap.m_large_memory_map a.address none base = none
        rw [Function.update_of_ne (hvalid.key_ne hkey hbase)]
        exact hvalid.small _ hbase
      large := fun key size₁ hkey₁ => by
        change Function.update s.heap.m_large_memory_map a.address none key = _ at hkey₁
        have hne : key ≠ a.address := by
          intro heq
          rw [heq, Function.update_self] at hkey₁
          cases hkey₁
        rw [Function.update_of_ne hne] at hkey₁
        obtain ⟨full₁, hfull₁⟩ := hvalid.large _ _ hkey₁
        exact ⟨full₁, hkeep hne hfull₁⟩
      placed := fun b hb => by
        obtain ⟨hb, hne⟩ := mem_without.mp hb
        refine (hvalid.placed b hb).keep hvalid (fun _ hbase _ => ⟨hbase, rfl⟩) ?_
        intro size₁ full₁ hkey₁ hfull₁
        exact ⟨(Function.update_of_ne hne _ _).trans hkey₁, hkeep hne hfull₁⟩
      committed := fun b hb => by
        obtain ⟨hb, hne⟩ := (hvalid.mem_without_iff ha).mp hb
        change _ ⊆ M.committed v
        rw [hcommitted]
        intro p hp
        exact ⟨hvalid.committed b hb hp,
          hvalid.other_reservation hM hsize' hb (hvalid.region_ne ha hkey hb hne) hp⟩
      disjoint := hvalid.disjoint.filter _
      mask := fun base hbase j hj => by
        have hout := hvalid.page_out hM hfull hbase (hvalid.key_ne hkey hbase) hj
        have hpage : base / c4KB + j ∉ a.pages := by
          intro hp
          rw [mem_pages, hstop] at hp
          exact hout ⟨hp.1, by omega⟩
        change _ ↔ (∃ b ∈ without s.live a.address, base / c4KB + j ∈ b.pages) ∨ _
        rw [hvalid.pages_without ha, and_iff_left hpage]
        exact hvalid.mask base hbase j hj }

theorem Valid.free (hM : M.Exact) (hvalid : Valid M s) (hne : NoEmpty s) (ha : a ∈ s.live)
    (h : s.heap.Free M s.memory a.address = some (heap, v)) :
    Valid M (s.next M heap v (without s.live a.address)) ∧
      NoEmpty (s.next M heap v (without s.live a.address)) := by
  unfold VirtualAddressHeap.Free at h
  rw [and_region, region_eq, page_eq] at h
  cases hvalid.placed a ha with
  | @large size full hkey haligned hpos hdvd hstop hfull hle =>
    rw [if_pos (Nat.mod_eq_zero_of_dvd haligned)] at h
    obtain ⟨v', hrelease, hrest⟩ := Option.bind_eq_some_iff.mp h
    cases hrest
    exact ⟨hvalid.freeLarge hM ha hkey hstop hfull hle hrelease, hne⟩
  | @small base i n hbase hi hn hle haddress hstop hsize =>
    obtain ⟨hpage, hregion, hodd⟩ := address_page (hvalid.aligned _ hbase) (show i < 16 by omega)
    rw [← haddress] at hpage hregion hodd
    rw [if_neg (fun hz => hodd hi (Nat.dvd_of_mod_eq_zero hz)), hregion, hpage] at h
    dsimp only at h
    rw [hsize, if_neg (by omega), setBlock_self] at h
    by_cases hzero : ((s.heap.block base).clearPages (lowBits n <<< i)).page_mask = 0
    · rw [if_pos hzero] at h
      obtain ⟨v', hrelease, hrest⟩ := Option.bind_eq_some_iff.mp h
      rw [if_neg (hvalid.not_full hM hbase)] at hrest
      cases hrest
      refine ⟨hvalid.freeRegion hM ha hbase hi hle haddress hstop hzero hrelease, ?_⟩
      intro base' hbase'
      obtain ⟨hbaseNe, hbase'⟩ := hvalid.nodup.mem_erase_iff.mp hbase'
      change ((s.heap.setBlock base _).block base').page_mask ≠ 0
      rw [setBlock_of_ne _ hbaseNe]
      exact hne base' hbase'
    · have hswap : ∀ block, (s.heap.setBlock base block).swapFree base
          (s.heap.block base).page_mask = s.heap.setBlock base block :=
        fun block => if_neg (hvalid.not_full hM hbase)
      rw [if_neg hzero, hswap, if_neg (by omega)] at h
      obtain ⟨v', hdecommit, hrest⟩ := Option.bind_eq_some_iff.mp h
      cases hrest
      exact ⟨hvalid.freeSmall hM ha hbase hi hn hle haddress hstop hdecommit,
        NoEmpty.setBlock (fun base' hbase' _ => hne base' hbase') hzero⟩

end Awn.VirtualAddressHeap
