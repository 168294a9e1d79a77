import Awn.ExpHeap.FreeBlocks

/-! The invariant of a heap, that a used block may take a free one's place, and `Free`. -/

namespace Awn

open Memory

namespace ExpHeap

structure Valid (h : ExpHeap) : Prop where
  start_pos : 0xa0 < h.m_start_address.toNat
  start_le : h.m_start_address.toNat ≤ h.m_end_address.toNat
  end_le : h.m_end_address.toNat + 2 ^ 30 ≤ 2 ^ 64
  sorted : Coalesced h.m_free_block_list
  free_kind : ∀ x ∈ h.m_free_block_list,
    x.alloc_magic = ExpHeapMemoryBlock.cFreeMagic ∧ x.alignment = 0
  used_kind : ∀ x ∈ h.m_allocated_block_list,
    x.alloc_magic = ExpHeapMemoryBlock.cAllocMagic ∧ x.alignment.toNat < 0x24
  tiles : Tiles ⟨h.m_start_address.toNat, h.m_end_address.toNat⟩
    (h.m_free_block_list.map ExpHeapMemoryBlock.freeSpan ++
      h.m_allocated_block_list.map ExpHeapMemoryBlock.usedSpan)

section Blocks

variable {h : ExpHeap} {x y : ExpHeapMemoryBlock} {before after : List ExpHeapMemoryBlock}

theorem Valid.free_within (hvalid : h.Valid) (hx : x ∈ h.m_free_block_list) :
    h.m_start_address.toNat ≤ x.address.toNat ∧ x.last ≤ h.m_end_address.toNat := by
  have hlt := address_lt_last x
  apply hvalid.tiles.within (List.mem_append_left _ (List.mem_map_of_mem hx))
  show x.address.toNat < x.last
  omega

theorem Valid.used_within (hvalid : h.Valid) (hx : x ∈ h.m_allocated_block_list) :
    h.m_start_address.toNat + x.alignment.toNat ≤ x.address.toNat ∧
      x.last ≤ h.m_end_address.toNat := by
  have hlt := address_lt_last x
  have hwithin := hvalid.tiles.within (List.mem_append_right _ (List.mem_map_of_mem hx)) (by
    show x.address.toNat - x.alignment.toNat < x.last
    omega)
  have hfirst : h.m_start_address.toNat ≤ x.address.toNat - x.alignment.toNat := hwithin.1
  have hlast : x.last ≤ h.m_end_address.toNat := hwithin.2
  have hstart := hvalid.start_pos
  omega

theorem Valid.free_last_lt (hvalid : h.Valid) : ∀ x ∈ h.m_free_block_list, x.last < 2 ^ 64 := by
  intro x hx
  have := (hvalid.free_within hx).2
  have := hvalid.end_le
  omega

theorem last_pos (x : ExpHeapMemoryBlock) : x.freeSpan.first < x.freeSpan.last := by
  have := address_lt_last x
  show x.address.toNat < x.last
  omega

theorem used_last_pos (x : ExpHeapMemoryBlock) : x.usedSpan.first < x.usedSpan.last := by
  have := address_lt_last x
  show x.address.toNat - x.alignment.toNat < x.last
  omega

theorem Valid.tiles_used (hvalid : h.Valid)
    (hsplit : h.m_allocated_block_list = before ++ x :: after) :
    Tiles ⟨h.m_start_address.toNat, h.m_end_address.toNat⟩
      (x.usedSpan :: (h.m_free_block_list.map ExpHeapMemoryBlock.freeSpan ++
        (before ++ after).map ExpHeapMemoryBlock.usedSpan)) := by
  apply hvalid.tiles.perm
  rw [hsplit, List.map_append, List.map_cons, List.map_append, ← List.append_assoc,
    ← List.append_assoc]
  exact List.perm_middle

theorem Valid.tiles_free (hvalid : h.Valid)
    (hsplit : h.m_free_block_list = before ++ x :: after) :
    Tiles ⟨h.m_start_address.toNat, h.m_end_address.toNat⟩
      (x.freeSpan :: ((before ++ after).map ExpHeapMemoryBlock.freeSpan ++
        h.m_allocated_block_list.map ExpHeapMemoryBlock.usedSpan)) := by
  apply hvalid.tiles.perm
  rw [hsplit, List.map_append, List.map_cons, List.map_append]
  exact List.perm_middle.append_right _

theorem Valid.used_apart_free (hvalid : h.Valid) (hx : x ∈ h.m_allocated_block_list)
    (hy : y ∈ h.m_free_block_list) : x.usedSpan.Apart y.freeSpan := by
  obtain ⟨before, after, hsplit⟩ := List.append_of_mem hx
  exact (hvalid.tiles_used hsplit).apart_cons (used_last_pos x)
    (List.mem_append_left _ (List.mem_map_of_mem hy)) (last_pos y)

theorem Valid.used_unique (hvalid : h.Valid)
    (hsplit : h.m_allocated_block_list = before ++ x :: after) (hy : y ∈ before ++ after) :
    y.address ≠ x.address := by
  intro heq
  have hlt := address_lt_last x
  have hylt := address_lt_last y
  have hapart : x.usedSpan.Apart y.usedSpan :=
    (hvalid.tiles_used hsplit).apart_cons (used_last_pos x)
      (List.mem_append_right _ (List.mem_map_of_mem hy)) (used_last_pos y)
  rw [heq] at hylt
  rcases hapart with hapart | hapart
  · change x.last ≤ y.address.toNat - y.alignment.toNat at hapart
    rw [heq] at hapart
    omega
  · change y.last ≤ x.address.toNat - x.alignment.toNat at hapart
    omega

theorem Valid.usedBlock_eq (hvalid : h.Valid) {address : BitVec 64}
    (hsplit : h.m_allocated_block_list = before ++ x :: after) (haddress : x.address = address - 0x20) :
    h.usedBlock address = some x := by
  have hbefore : before.find? (fun block => block.address = address - 0x20) = none := by
    apply List.find?_eq_none.mpr
    intro y hy
    rw [decide_eq_true_eq, ← haddress]
    exact hvalid.used_unique hsplit (List.mem_append_left _ hy)
  rw [usedBlock, hsplit, List.find?_append, hbefore, Option.none_or, List.find?_cons,
    decide_eq_true haddress]

theorem Valid.filter_used (hvalid : h.Valid)
    (hsplit : h.m_allocated_block_list = before ++ x :: after) :
    h.m_allocated_block_list.filter (fun y => y.address ≠ x.address) = before ++ after := by
  have hother (l : List ExpHeapMemoryBlock) (hl : ∀ y ∈ l, y ∈ before ++ after) :
      l.filter (fun y => y.address ≠ x.address) = l := by
    apply List.filter_eq_self.mpr
    intro y hy
    exact decide_eq_true (hvalid.used_unique hsplit (hl y hy))
  rw [hsplit, List.filter_append, List.filter_cons_of_neg (by simp),
    hother before fun y hy => List.mem_append_left _ hy,
    hother after fun y hy => List.mem_append_right _ hy]

theorem Valid.replaceFree_eq (hvalid : h.Valid)
    (hsplit : h.m_free_block_list = before ++ x :: after) (blocks : List ExpHeapMemoryBlock) :
    (h.replaceFree x blocks).m_free_block_list = before ++ blocks ++ after := by
  have hsorted := hvalid.sorted
  rw [hsplit, Coalesced, List.pairwise_append, List.pairwise_cons] at hsorted
  obtain ⟨-, ⟨hafter, -⟩, hbefore⟩ := hsorted
  have hlt := address_lt_last x
  have hother (l : List ExpHeapMemoryBlock) (hl : ∀ y ∈ l, y.address ≠ x.address) :
      (l.flatMap fun y => if y.address = x.address then blocks else [y]) = l := by
    induction l with
    | nil => rfl
    | cons y l ih =>
      rw [List.flatMap_cons, if_neg (hl y List.mem_cons_self),
        ih fun z hz => hl z (List.mem_cons_of_mem _ hz), List.singleton_append]
  have hbefore_ne : ∀ y ∈ before, y.address ≠ x.address := by
    intro y hy heq
    have := hbefore y hy x List.mem_cons_self
    have := address_lt_last y
    rw [heq] at this
    omega
  have hafter_ne : ∀ y ∈ after, y.address ≠ x.address := by
    intro y hy heq
    have := hafter y hy
    rw [heq] at this
    omega
  show (h.m_free_block_list.flatMap fun y => if y.address = x.address then blocks else [y]) = _
  rw [hsplit, List.flatMap_append, List.flatMap_cons, if_pos rfl, hother before hbefore_ne,
    hother after hafter_ne, List.append_assoc]

end Blocks

section Free

variable {h : ExpHeap} {x : ExpHeapMemoryBlock}

theorem start_toNat {address : BitVec 64} (haddress : x.address = address - 0x20)
    (hlast : x.last < 2 ^ 64) : address.toNat = x.address.toNat + 0x20 := by
  have heq : address = x.address + 0x20 := by rw [haddress, BitVec.sub_add_cancel]
  have := address_lt_last x
  rw [heq, BitVec.toNat_add, show (0x20 : BitVec 64).toNat = 0x20 from rfl]
  omega

structure Freed (h : ExpHeap) (x : ExpHeapMemoryBlock) (h' : ExpHeap) : Prop where
  valid : h'.Valid
  used : h'.m_allocated_block_list =
    h.m_allocated_block_list.filter fun y => y.address ≠ x.address
  range : h'.m_start_address = h.m_start_address ∧ h'.m_end_address = h.m_end_address

theorem Valid.free (hvalid : h.Valid) (hx : x ∈ h.m_allocated_block_list) {address : BitVec 64}
    (haddress : x.address = address - 0x20) : Freed h x (h.Free address) := by
  obtain ⟨before, after, hsplit⟩ := List.append_of_mem hx
  obtain ⟨hfirst, hlast⟩ := hvalid.used_within hx
  have hend := hvalid.end_le
  have hkind := (hvalid.used_kind x hx).2
  have hsize : x.last = x.address.toNat + 0x20 + x.block_size.toNat := rfl
  have hstart := start_toNat haddress (by omega)
  have ha : (x.address - x.alignment.setWidth 64).toNat =
      x.address.toNat - x.alignment.toNat := by
    rw [BitVec.toNat_sub_of_le, BitVec.toNat_setWidth_of_le (by decide)]
    rw [BitVec.le_def, BitVec.toNat_setWidth_of_le (by decide)]
    omega
  have hb : (address + x.block_size).toNat = x.last := by
    rw [BitVec.toNat_add]
    omega
  have hrange : Between
      { h with m_allocated_block_list := h.m_allocated_block_list.filter fun y =>
          y.address ≠ x.address }
      (x.address - x.alignment.setWidth 64) (address + x.block_size) := by
    refine ⟨hvalid.sorted, hvalid.free_last_lt, by omega, ?_⟩
    intro y hy
    have hapart := hvalid.used_apart_free hx hy
    rw [ha, hb]
    exact hapart.symm
  obtain ⟨blocks, hadd, hadded⟩ := hrange.addFreeBlock (Or.inl (by omega))
  rw [Free, hvalid.usedBlock_eq hsplit haddress]
  dsimp only
  rw [hadd]
  refine ⟨⟨hvalid.start_pos, hvalid.start_le, hend, hadded.sorted, ?_, ?_, ?_⟩, rfl, rfl, rfl⟩
  · intro y hy
    rcases hadded.mem y hy with hy | hy
    · exact hvalid.free_kind y hy
    · exact hy
  · intro y hy
    exact hvalid.used_kind y (List.mem_filter.mp hy).1
  · apply hadded.tiles
    rw [ha, hb]
    show Tiles _ (x.usedSpan :: _)
    rw [hvalid.filter_used hsplit]
    exact hvalid.tiles_used hsplit

end Free

section AddUsedBlock

variable {h : ExpHeap} {x : ExpHeapMemoryBlock} {p q p' q' : ℕ}
  {blocks blocks' : List ExpHeapMemoryBlock}

structure Side (p q : ℕ) (blocks : List ExpHeapMemoryBlock) : Prop where
  tiles : Tiles ⟨p, q⟩ (blocks.map ExpHeapMemoryBlock.freeSpan)
  kind : ∀ y ∈ blocks, y.alloc_magic = ExpHeapMemoryBlock.cFreeMagic ∧ y.alignment = 0
  within : ∀ y ∈ blocks, p ≤ y.address.toNat ∧ y.last ≤ q
  sorted : Coalesced blocks

theorem side_nil : Side p p [] :=
  ⟨tiles_nil, List.forall_mem_nil _, List.forall_mem_nil _, List.Pairwise.nil⟩

theorem side_free {a n : BitVec 64} (hn : 0x24 ≤ n.toNat) :
    Side a.toNat (a.toNat + n.toNat) [.free a (n - 0x20)] := by
  have hlast : (ExpHeapMemoryBlock.free a (n - 0x20)).last = a.toNat + n.toNat := by
    have hsize : (n - 0x20).toNat = n.toNat - 0x20 :=
      BitVec.toNat_sub_of_le (by rw [BitVec.le_def]; show 0x20 ≤ _; omega)
    rw [ExpHeapMemoryBlock.last]
    show a.toNat + 0x20 + (n - 0x20).toNat = _
    omega
  constructor
  · rw [List.map_singleton, ExpHeapMemoryBlock.freeSpan, hlast]
    exact tiles_single
  · intro y hy
    rw [List.mem_singleton.mp hy]
    exact ⟨rfl, rfl⟩
  · intro y hy
    rw [List.mem_singleton.mp hy, hlast]
    exact ⟨Nat.le_refl _, Nat.le_refl _⟩
  · exact List.pairwise_singleton _ _

theorem Side.append (hfront : Side p q blocks) (hback : Side p' q' blocks') (hgap : q < p') :
    Coalesced (blocks ++ blocks') := by
  refine List.pairwise_append.mpr ⟨hfront.sorted, hback.sorted, ?_⟩
  intro y hy z hz
  have := (hfront.within y hy).2
  have := (hback.within z hz).1
  omega

theorem Valid.replaceFree (hvalid : h.Valid) (hx : x ∈ h.m_free_block_list)
    {used_block : ExpHeapMemoryBlock}
    (hkind : used_block.alloc_magic = ExpHeapMemoryBlock.cAllocMagic ∧
      used_block.alignment.toNat < 0x24)
    (hfront : Side x.address.toNat used_block.usedSpan.first blocks)
    (hback : Side used_block.last x.last blocks')
    (hfirst : x.address.toNat ≤ used_block.usedSpan.first) (hlast : used_block.last ≤ x.last) :
    Valid { h.replaceFree x (blocks ++ blocks') with
      m_allocated_block_list := h.m_allocated_block_list ++ [used_block] } := by
  obtain ⟨before, after, hsplit⟩ := List.append_of_mem hx
  have hlist := hvalid.replaceFree_eq hsplit (blocks ++ blocks')
  have hpos := used_last_pos used_block
  have hnew : ∀ y ∈ blocks ++ blocks', (y.alloc_magic = ExpHeapMemoryBlock.cFreeMagic ∧
      y.alignment = 0) ∧ x.address.toNat ≤ y.address.toNat ∧ y.last ≤ x.last := by
    intro y hy
    change used_block.usedSpan.first < used_block.last at hpos
    rcases List.mem_append.mp hy with hy | hy
    · have := hfront.within y hy
      exact ⟨hfront.kind y hy, by omega⟩
    · have := hback.within y hy
      exact ⟨hback.kind y hy, by omega⟩
  have hsorted := hvalid.sorted
  rw [hsplit, Coalesced, List.pairwise_append, List.pairwise_cons] at hsorted
  obtain ⟨hbefore, ⟨hx_after, hafter⟩, hbefore_x⟩ := hsorted
  refine ⟨hvalid.start_pos, hvalid.start_le, hvalid.end_le, ?_, ?_, ?_, ?_⟩
  · show Coalesced (h.replaceFree x (blocks ++ blocks')).m_free_block_list
    rw [hlist, Coalesced, List.append_assoc, List.pairwise_append, List.pairwise_append]
    refine ⟨hbefore, ⟨hfront.append hback hpos, hafter, ?_⟩, ?_⟩
    · intro y hy z hz
      have := (hnew y hy).2.2
      have := hx_after z hz
      omega
    · intro y hy z hz
      have hyx := hbefore_x y hy x List.mem_cons_self
      rcases List.mem_append.mp hz with hz | hz
      · have := (hnew z hz).2.1
        omega
      · exact hbefore_x y hy z (List.mem_cons_of_mem _ hz)
  · show ∀ y ∈ (h.replaceFree x (blocks ++ blocks')).m_free_block_list, _
    intro y hy
    rw [hlist] at hy
    rcases List.mem_append.mp hy with hy | hy
    · rcases List.mem_append.mp hy with hy | hy
      · exact hvalid.free_kind y (hsplit ▸ List.mem_append_left _ hy)
      · exact (hnew y hy).1
    · exact hvalid.free_kind y
        (hsplit ▸ List.mem_append_right _ (List.mem_cons_of_mem _ hy))
  · intro y hy
    rcases List.mem_append.mp hy with hy | hy
    · exact hvalid.used_kind y hy
    · rw [List.mem_singleton.mp hy]
      exact hkind
  · show Tiles ⟨h.m_start_address.toNat, h.m_end_address.toNat⟩
      ((h.replaceFree x (blocks ++ blocks')).m_free_block_list.map ExpHeapMemoryBlock.freeSpan ++
        (h.m_allocated_block_list ++ [used_block]).map ExpHeapMemoryBlock.usedSpan)
    have hall : Tiles x.freeSpan (blocks.map ExpHeapMemoryBlock.freeSpan ++
        blocks'.map ExpHeapMemoryBlock.freeSpan ++ [used_block.usedSpan]) :=
      tiles_around hfirst (Nat.le_of_lt hpos) hlast hfront.tiles hback.tiles
    have hcut := (hvalid.tiles_free hsplit).cut hall
    intro n
    rw [← hcut n, hlist]
    simp only [List.map_append, List.map_singleton, List.countP_append]
    omega

theorem header_le {n : BitVec 64} : 0x24 ≤ n ↔ 0x24 ≤ n.toNat := BitVec.le_def

theorem Valid.addUsedBlock (hvalid : h.Valid) (hx : x ∈ h.m_free_block_list)
    {allocation_address size : BitVec 64}
    (hlow : x.address.toNat + 0x20 ≤ allocation_address.toNat)
    (hhigh : allocation_address.toNat + size.toNat ≤ x.last) :
    (h.AddUsedBlock x allocation_address size).Valid ∧
      ∃ used_block, (h.AddUsedBlock x allocation_address size).m_allocated_block_list =
          h.m_allocated_block_list ++ [used_block] ∧
        used_block.address = allocation_address - 0x20 ∧
          size.toNat ≤ used_block.block_size.toNat := by
  have hlast := hvalid.free_last_lt x hx
  have hstop := ExpHeapMemoryBlock.stop_toNat hlast
  have hstart : (allocation_address - 0x20).toNat = allocation_address.toNat - 0x20 := by
    apply BitVec.toNat_sub_of_le
    rw [BitVec.le_def]
    show 0x20 ≤ _
    omega
  have hfront_size : (allocation_address - 0x20 - x.address).toNat =
      allocation_address.toNat - 0x20 - x.address.toNat := by
    rw [BitVec.toNat_sub_of_le (by rw [BitVec.le_def]; omega), hstart]
  have hend : (allocation_address + size).toNat = allocation_address.toNat + size.toNat := by
    rw [BitVec.toNat_add, Nat.mod_eq_of_lt (by omega)]
  have hback_size : (x.stop - (allocation_address + size)).toNat =
      x.last - (allocation_address.toNat + size.toNat) := by
    rw [BitVec.toNat_sub_of_le (by rw [BitVec.le_def]; omega), hstop, hend]
  generalize hn : allocation_address - 0x20 - x.address = n at *
  generalize hm : x.stop - (allocation_address + size) = m at *
  have hkept : (size + if 0x24 ≤ m then 0 else m).toNat =
      size.toNat + if 0x24 ≤ m then 0 else m.toNat := by
    split
    · exact congrArg BitVec.toNat (BitVec.add_zero size)
    · rw [BitVec.toNat_add, Nat.mod_eq_of_lt (by omega)]
  have hslack : (if 0x24 ≤ n then 0 else n.setWidth 8).toNat = if 0x24 ≤ n then 0 else n.toNat := by
    split
    · rfl
    · rename_i hfront
      rw [header_le] at hfront
      rw [BitVec.toNat_setWidth, Nat.mod_eq_of_lt (by omega)]
  rw [AddUsedBlock]
  dsimp only
  rw [hn, hm]
  refine ⟨?_, _, rfl, rfl, ?_⟩
  · apply hvalid.replaceFree hx
    · refine ⟨rfl, ?_⟩
      show (if 0x24 ≤ n then 0 else n.setWidth 8).toNat < 0x24
      rw [hslack]
      split <;> rename_i hfront <;> rw [header_le] at hfront <;> omega
    · show Side _ ((allocation_address - 0x20).toNat -
        (if 0x24 ≤ n then 0 else n.setWidth 8).toNat) _
      rw [hslack, hstart]
      split
      · rename_i hfront
        have hside := side_free (a := x.address) (header_le.mp hfront)
        rwa [show x.address.toNat + n.toNat = allocation_address.toNat - 0x20 - 0 by omega] at hside
      · rw [show allocation_address.toNat - 0x20 - n.toNat = x.address.toNat by omega]
        exact side_nil
    · show Side ((allocation_address - 0x20).toNat + 0x20 +
        (size + if 0x24 ≤ m then 0 else m).toNat) _ _
      rw [hkept, hstart]
      split
      · rename_i hback
        have hside := side_free (a := allocation_address + size) (header_le.mp hback)
        rwa [hend, show allocation_address.toNat + size.toNat + m.toNat = x.last by omega,
          show allocation_address.toNat + size.toNat =
            allocation_address.toNat - 0x20 + 0x20 + (size.toNat + 0) by omega] at hside
      · rw [show allocation_address.toNat - 0x20 + 0x20 + (size.toNat + m.toNat) = x.last by omega]
        exact side_nil
    · show x.address.toNat ≤ (allocation_address - 0x20).toNat -
        (if 0x24 ≤ n then 0 else n.setWidth 8).toNat
      rw [hslack, hstart]
      split <;> omega
    · show (allocation_address - 0x20).toNat + 0x20 +
        (size + if 0x24 ≤ m then 0 else m).toNat ≤ x.last
      rw [hkept, hstart]
      split <;> omega
  · rw [hkept]
    exact Nat.le_add_right _ _

end AddUsedBlock

end ExpHeap

end Awn
