import Awn.VirtualAddressHeap.Allocate

/-! `TryAllocate` keeps the invariant when the place that it finds is one it can record. -/

namespace Awn.VirtualAddressHeap

variable {V : Type} {M : VirtualMemory V} {s : State V} {a : Allocation} {base : ℕ}
  {heap : VirtualAddressHeap} {v : V} {r : Request}

def Recordable (s : State V) (r : Request) : Prop :=
  (∀ l₁ base l₂, s.heap.m_free_small_memory_list = l₁ ++ base :: l₂ →
    (s.heap.block base).page_mask.getLsbD 15 = true →
      ∃ b ∈ l₁, HasRoom r (s.heap.block b).page_mask) ∧
  (r.alignment = 0x1000 ∧ r.size ≠ 0 ∨
    ∃ l₁ base l₂, s.heap.m_free_small_memory_list = l₁ ++ base :: l₂ ∧
      (∀ b ∈ l₁, ¬HasRoom r (s.heap.block b).page_mask) ∧
      ¬FrontRoom r (s.heap.block base).page_mask ∧ RoomBehind r (s.heap.block base).page_mask)

theorem base_or_c4KB (hbase : c64KB ∣ base) : base ||| c4KB = base + c4KB := by
  obtain ⟨q, rfl⟩ := hbase
  exact (Nat.two_pow_add_eq_or_of_lt (i := 16) (by decide) q).symm

theorem Request.size_lt (hsmall : ¬r.Large) : r.size.toNat < 16 * c4KB := by
  have hcount : ¬cSmallMemoryPageMaskBitCount ≤ r.small_page_count := fun h => hsmall (.inl h)
  unfold Request.small_page_count at hcount
  rw [BitVec.toNat_ushiftRight, Nat.shiftRight_eq_div_pow] at hcount
  have hbits : cSmallMemoryPageMaskBitCount = 16 := rfl
  unfold c4KB
  omega

section Front

variable (hsmall : ¬r.Large) (halign : r.alignment = 0x1000) (hsize : r.size ≠ 0)

theorem Request.base_offset (halign : r.alignment = 0x1000) : r.address_base_offset = c4KB := by
  unfold Request.address_base_offset
  rw [halign]
  decide

include hsmall halign hsize

theorem Request.first_ge : 2 ≤ r.small_page_count_first := by
  have hlt := Request.size_lt hsmall
  have hpos : 0 < r.size.toNat := by
    apply Nat.pos_of_ne_zero
    intro hzero
    exact hsize (BitVec.eq_of_toNat_eq hzero)
  unfold Request.small_page_count_first
  rw [Request.base_offset halign, BitVec.toNat_ushiftRight, BitVec.toNat_add, BitVec.toNat_add,
    Nat.shiftRight_eq_div_pow]
  have hfff : (0xfff : BitVec 64).toNat = 0xfff := rfl
  have hpage : (BitVec.ofNat 64 c4KB).toNat = 0x1000 := rfl
  rw [hfff, hpage]
  unfold c4KB at hlt
  omega

end Front

theorem Request.takeFront_eq (halign : r.alignment = 0x1000) (block : VirtualHeapSmallMemoryBlock) :
    r.takeFront block = (block.usePages (lowBits (r.small_page_count_first - 1) <<< 1)).setSize 1
      (r.small_page_count_first - 1) := by
  unfold Request.takeFront
  rw [Request.base_offset halign, if_neg (Nat.lt_irrefl _)]

def Allocated (M : VirtualMemory V) (s : State V) (heap : VirtualAddressHeap) (v : V)
    (a : Allocation) : Prop :=
  Valid M (s.next M heap v (a :: s.live)) ∧ NoEmpty (s.next M heap v (a :: s.live))

theorem Valid.take (hvalid : Valid M s) (hbase : base ∈ s.heap.m_free_small_memory_list)
    (hne : ∀ base' ∈ s.heap.m_free_small_memory_list, base' ≠ base →
      (s.heap.block base').page_mask ≠ 0) {i n : ℕ}
    (hi : 1 ≤ i) (hn : 1 ≤ n) (hle : i + n ≤ 16) (hlast : base = s.home → i + n ≤ 15)
    (hclear : Clear (s.heap.block base).page_mask i n)
    (hreserved : M.reserved v = M.reserved s.memory)
    (hcommitted : M.committed s.memory ⊆ M.committed v)
    (hpages : ∀ p, base / c4KB + i ≤ p → p < base / c4KB + i + n → p ∈ M.committed v)
    {block : VirtualHeapSmallMemoryBlock}
    (hblock : block = ((s.heap.block base).usePages (lowBits n <<< i)).setSize i n) :
    Allocated M s (s.heap.setBlock base block) v ⟨base + i * c4KB, base + (i + n) * c4KB⟩ := by
  have hbits : ∀ j < 16, block.page_mask.getLsbD j =
      ((s.heap.block base).page_mask.getLsbD j || decide (i ≤ j ∧ j < i + n)) := by
    intro j hj
    rw [hblock, VirtualHeapSmallMemoryBlock.setSize_page_mask]
    exact VirtualHeapSmallMemoryBlock.usePages_bit _ hj
  constructor
  · refine hvalid.use hbase hi hn hle hlast hclear hbits ?_ ?_ hreserved hcommitted hpages
    · intro address hpage
      rw [hblock]
      exact VirtualHeapSmallMemoryBlock.size_setSize _ (by omega) hpage
    · intro address hpage
      rw [hblock, VirtualHeapSmallMemoryBlock.size_setSize_of_ne _ (by omega) hpage]
      rfl
  · refine NoEmpty.setBlock hne ?_
    intro hzero
    have hbit := hbits i (by omega)
    rw [hzero, decide_eq_true (by omega), Bool.or_true] at hbit
    exact Bool.false_ne_true (BitVec.getLsbD_zero.symm.trans hbit)

theorem Valid.take_commit (hM : M.Exact) (hvalid : Valid M s) (hne : NoEmpty s)
    (hbase : base ∈ s.heap.m_free_small_memory_list) {i n : ℕ} (hi : 1 ≤ i) (hn : 1 ≤ n)
    (hle : i + n ≤ 16) (hlast : base = s.home → i + n ≤ 15)
    (hclear : Clear (s.heap.block base).page_mask i n)
    (hcommit : M.MEM_COMMIT s.memory (base + i * c4KB) (n <<< 12) = some v)
    {block : VirtualHeapSmallMemoryBlock}
    (hblock : block = ((s.heap.block base).usePages (lowBits n <<< i)).setSize i n) :
    Allocated M s ((s.heap.setBlock base block).swapFilled base) v
      ⟨base + i * c4KB, base + (i + n) * c4KB⟩ := by
  obtain ⟨-, -, hreserved, hcommitted⟩ := hM.commit hcommit
  have hpages : ∀ p, base / c4KB + i ≤ p → p < base / c4KB + i + n → p ∈ M.committed v := by
    intro p hge hlt
    rw [hcommitted]
    refine Set.mem_union_right _ ?_
    rw [mem_pagesOf, Nat.shiftLeft_eq]
    obtain ⟨q, rfl⟩ := hvalid.aligned _ hbase
    unfold c64KB c4KB at *
    omega
  have hsub : M.committed s.memory ⊆ M.committed v := by
    rw [hcommitted]
    exact Set.subset_union_left
  have htake := hvalid.take hbase (fun base' hbase' _ => hne base' hbase') hi hn hle hlast hclear
    hreserved hsub hpages hblock
  have hswap : (s.heap.setBlock base block).swapFilled base = s.heap.setBlock base block :=
    htake.1.not_max hM hbase
  rwa [hswap]

theorem Valid.allocateBehind (hM : M.Exact) (hvalid : Valid M s) (hne : NoEmpty s)
    (hbase : base ∈ s.heap.m_free_small_memory_list) {i : ℕ} (hi : 1 ≤ i)
    (hle : i + r.room ≤ 15) (hclear : Clear (s.heap.block base).page_mask i r.room)
    (h : s.heap.allocateBehind M s.memory r base i = some (a, heap, v)) :
    Allocated M s heap v a := by
  have hshift : i <<< 12 = i * c4KB := Nat.shiftLeft_eq i 12
  unfold VirtualAddressHeap.allocateBehind at h
  rw [hshift] at h
  obtain ⟨v', hcommit, hrest⟩ := Option.bind_eq_some_iff.mp h
  obtain ⟨hpos, -⟩ := hM.commit hcommit
  have hn : 1 ≤ r.small_page_count := by
    rw [Nat.shiftLeft_eq] at hpos
    omega
  have hroom : r.room = r.small_page_count := max_eq_right hn
  rw [hroom] at hle hclear
  cases hrest
  rw [Nat.add_assoc, ← Nat.add_mul]
  exact hvalid.take_commit hM hne hbase hi hn (by omega) (fun _ => hle) hclear hcommit rfl

theorem Valid.allocateFront (hM : M.Exact) (hvalid : Valid M s) (hne : NoEmpty s)
    (hbase : base ∈ s.heap.m_free_small_memory_list) (hsmall : ¬r.Large)
    (halign : r.alignment = 0x1000) (hsize : r.size ≠ 0)
    (hfront : FrontRoom r (s.heap.block base).page_mask)
    (h : s.heap.allocateFront M s.memory r base = some (a, heap, v)) : Allocated M s heap v a := by
  have hfirst := Request.first_ge hsmall halign hsize
  obtain ⟨low, -, hlow, hset, -⟩ := lowest_spec (hne base hbase)
  have hcount : r.small_page_count_first ≤ 15 := by
    by_contra hgt
    rw [hfront low (Nat.zero_le _) (by omega)] at hset
    cases hset
  have hhome : base ≠ s.home := by
    intro heq
    have hbit := (hvalid.mask base hbase 0 (by decide)).mpr (.inr ⟨heq, rfl⟩)
    rw [hfront 0 le_rfl (by omega)] at hbit
    cases hbit
  unfold VirtualAddressHeap.allocateFront at h
  rw [if_pos (by omega), base_or_c4KB (hvalid.aligned _ hbase), Request.takeFront_eq halign,
    Request.base_offset halign] at h
  obtain ⟨v', hcommit, hrest⟩ := Option.bind_eq_some_iff.mp h
  cases hrest
  have hstop : base + r.small_page_count_first * c4KB =
      base + (1 + (r.small_page_count_first - 1)) * c4KB := by
    rw [Nat.add_sub_cancel' (by omega)]
  have hstart : base + c4KB = base + 1 * c4KB := by rw [Nat.one_mul]
  rw [hstart] at hcommit ⊢
  rw [hstop]
  exact hvalid.take_commit hM hne hbase le_rfl (by omega) (by omega) (fun heq => absurd heq hhome)
    (fun j _ hj => hfront j (Nat.zero_le _) (by omega)) hcommit rfl

theorem Valid.allocateLarge (hM : M.Exact) (hvalid : Valid M s) (hne : NoEmpty s)
    (h : s.heap.allocateLarge M s.memory r = some (a, heap, v)) : Allocated M s heap v a := by
  unfold VirtualAddressHeap.allocateLarge at h
  obtain ⟨⟨new_address, v₁⟩, hreserve, hrest⟩ := Option.bind_eq_some_iff.mp h
  obtain ⟨v₂, hcommit, hrest⟩ := Option.bind_eq_some_iff.mp hrest
  cases hrest
  have hdvd : c4KB ∣ r.final_size := Memory.alignUp_dvd (k := 12) _ (by decide)
  exact ⟨hvalid.addLarge hM hreserve hcommit hdvd, hne⟩

theorem Valid.allocateRegion (hM : M.Exact) (hvalid : Valid M s) (hne : NoEmpty s)
    (hsmall : ¬r.Large) (halign : r.alignment = 0x1000) (hsize : r.size ≠ 0)
    (h : s.heap.allocateRegion M s.memory r = some (a, heap, v)) : Allocated M s heap v a := by
  have hfirst := Request.first_ge hsmall halign hsize
  unfold VirtualAddressHeap.allocateRegion at h
  rw [Request.takeFront_eq halign, Request.base_offset halign] at h
  obtain ⟨⟨reserve, v₁⟩, hreserve, hrest⟩ := Option.bind_eq_some_iff.mp h
  obtain ⟨v₂, hcommit, hrest⟩ := Option.bind_eq_some_iff.mp hrest
  dsimp only at hcommit hrest
  obtain ⟨hpos, haligned, hfresh, hreserved₁, -⟩ := hM.reserve hreserve
  obtain ⟨-, ⟨range, hrange, hstart, hend⟩, -, hcommitted⟩ := hM.commit hcommit
  rw [Nat.shiftLeft_eq] at hend
  have hcount : r.small_page_count_first ≤ 16 := by
    rw [hreserved₁] at hrange
    rcases hrange with rfl | hrange
    · unfold cSmallMemoryRegionSize c64KB at hend
      dsimp only at hend
      omega
    · have hapart := hfresh range hrange
      omega
  have hpages : ∀ p, reserve / c4KB + 1 ≤ p →
      p < reserve / c4KB + 1 + (r.small_page_count_first - 1) → p ∈ M.committed v₂ := by
    intro p hge hlt
    rw [hcommitted]
    refine Set.mem_union_right _ ?_
    rw [mem_pagesOf, Nat.shiftLeft_eq]
    obtain ⟨q, rfl⟩ := haligned
    unfold c64KB c4KB at *
    omega
  have hhome : reserve ≠ s.home := fun heq =>
    fresh_region hvalid hpos hfresh hvalid.home heq.symm
  -- the region joins the free list with no page in use, and its first pages are taken then
  obtain ⟨s₁, hheap, rfl, hlive, hhome₁, hvalid₁⟩ : ∃ s₁ : State V,
      s₁.heap = (s.heap.setBlock reserve ⟨0, fun _ => 0⟩).pushFree reserve ∧ s₁.memory = v₂ ∧
        s₁.live = s.live ∧ s₁.home = s.home ∧ Valid M s₁ :=
    ⟨s.next M _ v₂ s.live, rfl, rfl, rfl, rfl, hvalid.addRegion hM hreserve hcommit⟩
  have hfree : s₁.heap.m_free_small_memory_list = s.heap.m_free_small_memory_list ++ [reserve] := by
    rw [hheap]
    rfl
  have hempty : s₁.heap.block reserve = ⟨0, fun _ => 0⟩ := by
    rw [hheap]
    exact Function.update_self _ _ _
  have hmem : reserve ∈ s₁.heap.m_free_small_memory_list := by
    rw [hfree]
    exact List.mem_append_right _ List.mem_cons_self
  have hclear : Clear (s₁.heap.block reserve).page_mask 1 (r.small_page_count_first - 1) := by
    rw [hempty]
    exact fun j _ _ => BitVec.getLsbD_zero
  have hold : ∀ base ∈ s₁.heap.m_free_small_memory_list, base ≠ reserve →
      (s₁.heap.block base).page_mask ≠ 0 := by
    intro base hbase hbaseNe
    rw [hfree, List.mem_append, List.mem_singleton, or_iff_left hbaseNe] at hbase
    have hblock : s₁.heap.block base = s.heap.block base := by
      rw [hheap]
      exact Function.update_of_ne hbaseNe _ _
    rw [hblock]
    exact hne base hbase
  have hpush : ∀ block, s₁.heap.setBlock reserve block =
      (s.heap.setBlock reserve block).pushFree reserve := by
    intro block
    rw [hheap]
    unfold setBlock pushFree
    dsimp only
    rw [Function.update_idem]
  have htake := hvalid₁.take hmem hold le_rfl (by omega) (by omega)
    (fun heq => absurd (heq.trans hhome₁) hhome) hclear rfl Set.Subset.rfl hpages rfl
  have hfull := htake.1.not_full hM hmem
  rw [hempty, hpush] at htake
  change ((s₁.heap.setBlock reserve _).block reserve).page_mask ≠ _ at hfull
  rw [hempty, setBlock_self] at hfull
  have hstart : reserve + c4KB = reserve + 1 * c4KB := by rw [Nat.one_mul]
  have hstop : reserve + r.small_page_count_first * c4KB =
      reserve + (1 + (r.small_page_count_first - 1)) * c4KB := by
    rw [Nat.add_sub_cancel' (by omega)]
  rw [setBlock_self, if_neg hfull, hstart, hstop] at hrest
  cases hrest
  have hvalid' := htake.1.setBounds (min s.heap.m_start_address reserve)
    (max s.heap.m_end_address (reserve + r.small_page_count_first <<< 12))
    (M.committed s.memory \ M.committed s₁.memory)
  change Valid M ⟨_, s₁.home, _, _ :: s₁.live, _⟩ at hvalid'
  rw [hlive, hhome₁] at hvalid'
  exact ⟨hvalid', htake.2⟩

theorem first_unique {P : ℕ → Prop} {l₁ l₂ l₁' l₂' : List ℕ} {x x' : ℕ}
    (heq : l₁ ++ x :: l₂ = l₁' ++ x' :: l₂') (hbefore : ∀ y ∈ l₁, ¬P y) (hx : P x)
    (hbefore' : ∀ y ∈ l₁', ¬P y) (hx' : P x') : x = x' := by
  rcases List.append_eq_append_iff.mp heq with ⟨as, has, hrest⟩ | ⟨as, has, hrest⟩
  · cases as with
    | nil => exact (List.cons.inj hrest).1
    | cons y as =>
      obtain ⟨rfl, -⟩ := List.cons.inj hrest
      exact absurd hx (hbefore' x (has ▸ List.mem_append_right _ List.mem_cons_self))
  · cases as with
    | nil => exact (List.cons.inj hrest).1.symm
    | cons y as =>
      obtain ⟨rfl, -⟩ := List.cons.inj hrest
      exact absurd hx' (hbefore x' (has ▸ List.mem_append_right _ List.mem_cons_self))

theorem Valid.tryAllocate (hM : M.Exact) (hvalid : Valid M s) (hne : NoEmpty s)
    {size alignment : BitVec 64}
    (hplace : (Request.of size alignment).Large ∨ Recordable s (Request.of size alignment))
    (h : s.heap.TryAllocate M s.memory size alignment = some (a, heap, v)) :
    Allocated M s heap v a := by
  unfold VirtualAddressHeap.TryAllocate at h
  generalize Request.of size alignment = r at hplace h
  dsimp only at h
  by_cases hlarge : r.Large
  · rw [if_pos hlarge] at h
    exact hvalid.allocateLarge hM hne h
  · rw [if_neg hlarge] at h
    obtain ⟨hlast, hfirst⟩ := hplace.resolve_left hlarge
    have hwalk := walk_spec (r := r) hne
    cases hplaceEq : s.heap.walk r s.heap.m_free_small_memory_list with
    | none =>
      rw [hplaceEq] at h hwalk
      rcases hfirst with ⟨halign, hsize⟩ | ⟨l₁, base, l₂, hsplit, -, -, hroom⟩
      · exact hvalid.allocateRegion hM hne hlarge halign hsize h
      · have hbase : base ∈ s.heap.m_free_small_memory_list := by
          rw [hsplit]
          exact List.mem_append_right _ List.mem_cons_self
        exact absurd (.inr hroom) (hwalk base hbase)
    | some found =>
      obtain ⟨base, place⟩ := found
      rw [hplaceEq] at h hwalk
      obtain ⟨l₁, l₂, hsplit, hbefore, hstops⟩ := hwalk
      have hbase : base ∈ s.heap.m_free_small_memory_list := by
        rw [hsplit]
        exact List.mem_append_right _ List.mem_cons_self
      cases hstops with
      | front hfront =>
        rcases hfirst with ⟨halign, hsize⟩ | ⟨l₁', base', l₂', hsplit', hbefore', hnot, hroom⟩
        · exact hvalid.allocateFront hM hne hbase hlarge halign hsize hfront h
        · have heq := first_unique (P := fun b => HasRoom r (s.heap.block b).page_mask)
            (hsplit.symm.trans hsplit') hbefore (.inl hfront) hbefore' (.inr hroom)
          exact absurd (heq ▸ hfront) hnot
      | behind hfront hlow hlt hle hclear =>
        exact hvalid.allocateBehind hM hne hbase (by omega) hle hclear h
      | beyond hset hnone =>
        obtain ⟨b, hb, hroom⟩ := hlast l₁ base l₂ hsplit hset
        exact absurd hroom (hbefore b hb)

end Awn.VirtualAddressHeap
