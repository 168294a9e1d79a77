import Awn.ExpHeap.Search

/-! `AdjustAllocation`: what each of its branches makes of a used block. -/

namespace Awn

open Memory

namespace ExpHeap

variable {h : ExpHeap} {x y : ExpHeapMemoryBlock} {address n : BitVec 64}

structure Used (h : ExpHeap) (x : ExpHeapMemoryBlock) (address : BitVec 64) : Prop where
  mem : x ∈ h.m_allocated_block_list
  address_eq : x.address = address - 0x20

def Behind (x : ExpHeapMemoryBlock) (address : BitVec 64) (y : ExpHeapMemoryBlock) : Prop :=
  y.address = address + x.block_size

/-- What `AdjustAllocation` of a block should be: the heap is tiled, the other allocations are as
they were, the result is the size of the block, all that a smaller block gives up is free, and the
free block behind it is used where it has enough. -/
structure Adjusted (h : ExpHeap) (x : ExpHeapMemoryBlock) (address n : BitVec 64)
    (r : BitVec 64 × ExpHeap) : Prop where
  tiles : Tiles ⟨r.2.m_start_address.toNat, r.2.m_end_address.toNat⟩
    (r.2.m_free_block_list.map ExpHeapMemoryBlock.freeSpan ++
      r.2.m_allocated_block_list.map ExpHeapMemoryBlock.usedSpan)
  range : r.2.m_start_address = h.m_start_address ∧ r.2.m_end_address = h.m_end_address
  others : ∀ y, y.address ≠ x.address →
    (y ∈ r.2.m_allocated_block_list ↔ y ∈ h.m_allocated_block_list)
  size : ∀ y ∈ r.2.m_allocated_block_list, y.address = x.address → y.block_size = r.1
  kept : ∃ y ∈ r.2.m_allocated_block_list, y.address = x.address
  released : ∀ b, address.toNat + r.1.toNat ≤ b → b < address.toNat + x.block_size.toNat →
    ∃ y ∈ r.2.m_free_block_list, y.freeSpan.Has b
  grown : x.block_size < n → ∀ y ∈ h.m_free_block_list, Behind x address y →
    n.toNat ≤ x.block_size.toNat + 0x20 + y.block_size.toNat → r.1 = n

def AdjustMet (h : ExpHeap) (x : ExpHeapMemoryBlock) (address n : BitVec 64) : Prop :=
  n = x.block_size ∨
    n < x.block_size ∧ (n.toNat + 0x20 ≤ x.block_size.toNat ∨
      ∃ y ∈ h.m_free_block_list, Behind x address y) ∨
    x.block_size < n ∧ ∀ y ∈ h.m_free_block_list, ¬Behind x address y

theorem Valid.used_start (hvalid : h.Valid) (hused : Used h x address) :
    address.toNat = x.address.toNat + 0x20 ∧
      (address + x.block_size).toNat = x.last ∧ x.last < 2 ^ 64 := by
  have hlast := (hvalid.used_within hused.mem).2
  have hend := hvalid.end_le
  have hstart := start_toNat hused.address_eq (by omega)
  have hsize : x.last = x.address.toNat + 0x20 + x.block_size.toNat := rfl
  refine ⟨hstart, ?_, by omega⟩
  rw [BitVec.toNat_add]
  omega

theorem Valid.setBlockSize_eq (hvalid : h.Valid) {before after : List ExpHeapMemoryBlock}
    (hsplit : h.m_allocated_block_list = before ++ x :: after) (block_size : BitVec 64) :
    (h.m_allocated_block_list.map fun y =>
      if y.address = x.address then { y with block_size } else y) =
        before ++ { x with block_size } :: after := by
  have hother (l : List ExpHeapMemoryBlock) (hl : ∀ y ∈ l, y ∈ before ++ after) :
      (l.map fun y => if y.address = x.address then { y with block_size } else y) = l := by
    apply Eq.trans _ (List.map_id' l)
    apply List.map_congr_left
    intro y hy
    exact if_neg (hvalid.used_unique hsplit (hl y hy))
  rw [hsplit, List.map_append, List.map_cons, if_pos rfl,
    hother before fun y hy => List.mem_append_left _ hy,
    hother after fun y hy => List.mem_append_right _ hy]

theorem Valid.mem_setBlockSize (hvalid : h.Valid) (hx : x ∈ h.m_allocated_block_list)
    (block_size : BitVec 64) :
    (∀ y, y.address ≠ x.address →
      (y ∈ (h.m_allocated_block_list.map fun y =>
        if y.address = x.address then { y with block_size } else y) ↔
          y ∈ h.m_allocated_block_list)) ∧
    (∀ y ∈ (h.m_allocated_block_list.map fun y =>
        if y.address = x.address then { y with block_size } else y),
      y.address = x.address → y = { x with block_size }) := by
  obtain ⟨before, after, hsplit⟩ := List.append_of_mem hx
  rw [hvalid.setBlockSize_eq hsplit]
  constructor
  · intro y hy
    have hne : ∀ z : ExpHeapMemoryBlock, z.address = x.address → y ≠ z := by
      rintro z hz rfl
      exact hy hz
    rw [hsplit, List.mem_append, List.mem_append, List.mem_cons, List.mem_cons,
      or_iff_right (hne { x with block_size } rfl), or_iff_right (hne x rfl)]
  · intro y hy heq
    rw [List.mem_append, List.mem_cons, or_left_comm, ← List.mem_append] at hy
    exact hy.resolve_right fun hy => hvalid.used_unique hsplit hy heq

section Shrink

theorem Valid.shrink_between (hvalid : h.Valid) (hused : Used h x address)
    (hn : n < x.block_size) : Between h (address + n) (address + x.block_size) := by
  obtain ⟨hstart, hstop, hlast⟩ := hvalid.used_start hused
  have hsize : x.last = x.address.toNat + 0x20 + x.block_size.toNat := rfl
  rw [BitVec.lt_def] at hn
  have hcut : (address + n).toNat = address.toNat + n.toNat := by
    rw [BitVec.toNat_add]
    omega
  refine ⟨hvalid.sorted, hvalid.free_last_lt, by omega, ?_⟩
  intro y hy
  rw [hcut, hstop]
  have hkind := (hvalid.used_kind x hused.mem).2
  rcases hvalid.used_apart_free hused.mem hy with hapart | hapart
  · exact Or.inr hapart
  · left
    change y.last ≤ x.address.toNat - x.alignment.toNat at hapart
    omega

theorem Valid.hasRoom_iff (hvalid : h.Valid) (hused : Used h x address) (hn : n < x.block_size) :
    h.HasRoom (address + n) (address + x.block_size) ↔
      n.toNat + 0x20 ≤ x.block_size.toNat ∨
        ∃ y ∈ h.m_free_block_list, Behind x address y := by
  obtain ⟨hstart, hstop, hlast⟩ := hvalid.used_start hused
  have hsize : x.last = x.address.toNat + 0x20 + x.block_size.toNat := rfl
  rw [BitVec.lt_def] at hn
  have hcut : (address + n).toNat = address.toNat + n.toNat := by
    rw [BitVec.toNat_add]
    omega
  rw [HasRoom, hcut, hstop]
  apply or_congr
  · omega
  · constructor
    · rintro ⟨y, hy, heq | heq⟩
      · exfalso
        have := address_lt_last y
        rcases hvalid.used_apart_free hused.mem hy with hapart | hapart
        · change x.last ≤ y.address.toNat at hapart
          omega
        · change y.last ≤ x.address.toNat - x.alignment.toNat at hapart
          omega
      · exact ⟨y, hy, heq⟩
    · rintro ⟨y, hy, heq⟩
      exact ⟨y, hy, Or.inr heq⟩

theorem Valid.adjustBlock_shrink (hvalid : h.Valid) (hused : Used h x address)
    (hn : n < x.block_size)
    (hroom : n.toNat + 0x20 ≤ x.block_size.toNat ∨ ∃ y ∈ h.m_free_block_list, Behind x address y) :
    ∃ blocks, h.adjustBlock x address n =
        (n, { h with m_free_block_list := blocks }.setBlockSize x n) ∧
      Added h (address + n) (address + x.block_size) blocks := by
  obtain ⟨blocks, hadd, hadded⟩ := (hvalid.shrink_between hused hn).addFreeBlock
    ((hvalid.hasRoom_iff hused hn).mpr hroom)
  refine ⟨blocks, ?_, hadded⟩
  rw [adjustBlock, if_neg (BitVec.ne_of_lt hn).symm, if_pos hn, hadd]

theorem Valid.shrink_tiles (hvalid : h.Valid) (hused : Used h x address) (hn : n < x.block_size)
    {blocks : List ExpHeapMemoryBlock}
    (hadded : Added h (address + n) (address + x.block_size) blocks) :
    Valid ({ h with m_free_block_list := blocks }.setBlockSize x n) := by
  obtain ⟨before, after, hsplit⟩ := List.append_of_mem hused.mem
  obtain ⟨hstart, hstop, hlast⟩ := hvalid.used_start hused
  have hsize : x.last = x.address.toNat + 0x20 + x.block_size.toNat := rfl
  rw [BitVec.lt_def] at hn
  have hcut : (address + n).toNat = x.address.toNat + 0x20 + n.toNat := by
    rw [BitVec.toNat_add]
    omega
  have hlist := hvalid.setBlockSize_eq hsplit n
  refine ⟨hvalid.start_pos, hvalid.start_le, hvalid.end_le, hadded.sorted, ?_, ?_, ?_⟩
  · intro y hy
    rcases hadded.mem y hy with hy | hy
    · exact hvalid.free_kind y hy
    · exact hy
  · show ∀ y ∈ h.m_allocated_block_list.map _, _
    rw [hlist]
    intro y hy
    rw [List.mem_append, List.mem_cons, or_left_comm, ← List.mem_append] at hy
    rcases hy with rfl | hy
    · exact hvalid.used_kind x hused.mem
    · apply hvalid.used_kind y
      rw [hsplit]
      exact (List.Sublist.append_left (List.sublist_cons_self x after) before).subset hy
  · show Tiles ⟨h.m_start_address.toNat, h.m_end_address.toNat⟩
      (blocks.map _ ++ (h.m_allocated_block_list.map _).map _)
    rw [hlist]
    apply hadded.tiles
    have hparts : Tiles x.usedSpan
        [ExpHeapMemoryBlock.usedSpan { x with block_size := n },
          ⟨(address + n).toNat, (address + x.block_size).toNat⟩] := by
      rw [hcut, hstop]
      have hkind := (hvalid.used_kind x hused.mem).2
      exact tiles_two (show x.address.toNat - x.alignment.toNat ≤
        x.address.toNat + 0x20 + n.toNat by omega)
        (show x.address.toNat + 0x20 + n.toNat ≤ x.last by omega)
    have hall := (hvalid.tiles_used hsplit).cut hparts
    intro b
    rw [← hall b]
    simp only [List.map_append, List.map_cons, List.countP_append, List.countP_cons,
      List.countP_nil]
    omega

theorem Valid.shrink_adjusted (hvalid : h.Valid) (hused : Used h x address) (hn : n < x.block_size)
    {blocks : List ExpHeapMemoryBlock}
    (hadded : Added h (address + n) (address + x.block_size) blocks) :
    Adjusted h x address n (n, { h with m_free_block_list := blocks }.setBlockSize x n) := by
  have hvalid' := hvalid.shrink_tiles hused hn hadded
  obtain ⟨hothers, hsame⟩ := hvalid.mem_setBlockSize hused.mem n
  obtain ⟨hstart, hstop, hlast⟩ := hvalid.used_start hused
  have hsize : x.last = x.address.toNat + 0x20 + x.block_size.toNat := rfl
  have hlt := BitVec.lt_def.mp hn
  have hkind := (hvalid.used_kind x hused.mem).2
  refine ⟨hvalid'.tiles, ⟨rfl, rfl⟩, hothers, ?_, ?_, ?_, ?_⟩
  · intro y hy heq
    rw [hsame y hy heq]
  · obtain ⟨before, after, hsplit⟩ := List.append_of_mem hused.mem
    refine ⟨{ x with block_size := n }, ?_, rfl⟩
    show _ ∈ h.m_allocated_block_list.map _
    rw [hvalid.setBlockSize_eq hsplit n]
    exact List.mem_append_right _ List.mem_cons_self
  · intro b hlow hhigh
    change address.toNat + n.toNat ≤ b at hlow
    -- the byte was in the used block, and the only used block that could have it is smaller now
    have hwithin := hvalid.used_within hused.mem
    have hbyte : Span.Has ⟨h.m_start_address.toNat, h.m_end_address.toNat⟩ b :=
      ⟨show h.m_start_address.toNat ≤ b by omega, show b < h.m_end_address.toNat by omega⟩
    obtain ⟨s, hs, hhas⟩ := hvalid'.tiles.exists_has hbyte
    rcases List.mem_append.mp hs with hs | hs
    · obtain ⟨y, hy, rfl⟩ := List.mem_map.mp hs
      exact ⟨y, hy, hhas⟩
    · exfalso
      obtain ⟨y, hy, rfl⟩ := List.mem_map.mp hs
      by_cases heq : y.address = x.address
      · rw [hsame y hy heq] at hhas
        have : b < x.address.toNat + 0x20 + n.toNat := hhas.2
        omega
      · have hy := (hothers y heq).mp hy
        obtain ⟨before, after, hsplit⟩ := List.append_of_mem hused.mem
        have hy' : y ∈ before ++ after := by
          rw [hsplit, List.mem_append, List.mem_cons, or_left_comm, ← List.mem_append] at hy
          exact hy.resolve_left fun hyx => heq (hyx ▸ rfl)
        have hapart := (hvalid.tiles_used hsplit).apart_cons (used_last_pos x)
          (List.mem_append_right _ (List.mem_map_of_mem hy')) (used_last_pos y)
        have hx_has : x.usedSpan.Has b :=
          ⟨show x.address.toNat - x.alignment.toNat ≤ b by omega, show b < x.last by omega⟩
        obtain ⟨hfirst, hsecond⟩ := hhas
        obtain ⟨hfirst', hsecond'⟩ := hx_has
        rcases hapart with hapart | hapart <;> omega
  · intro hgrow
    exact absurd hn (BitVec.not_lt.mpr (BitVec.le_of_lt hgrow))

end Shrink

section Refused

theorem Valid.kept_adjusted (hvalid : h.Valid) (hused : Used h x address)
    (hgrow : x.block_size < n → ∀ y ∈ h.m_free_block_list, ¬Behind x address y) :
    Adjusted h x address n (x.block_size, h) := by
  refine ⟨hvalid.tiles, ⟨rfl, rfl⟩, fun _ _ => Iff.rfl, ?_, ⟨x, hused.mem, rfl⟩, ?_, ?_⟩
  · intro y hy heq
    obtain ⟨before, after, hsplit⟩ := List.append_of_mem hused.mem
    rw [hsplit, List.mem_append, List.mem_cons, or_left_comm, ← List.mem_append] at hy
    rcases hy with rfl | hy
    · rfl
    · exact absurd heq (hvalid.used_unique hsplit hy)
  · intro b hlow hhigh
    exact absurd hlow (Nat.not_le_of_lt hhigh)
  · intro hlt y hy hbehind
    exact absurd hbehind (hgrow hlt y hy)

theorem adjustBlock_refused (hn : x.block_size < n)
    (hnone : ∀ y ∈ h.m_free_block_list, ¬Behind x address y) :
    h.adjustBlock x address n = (x.block_size, h) := by
  have hfind : h.m_free_block_list.find? (fun y => y.address = address + x.block_size) = none := by
    apply List.find?_eq_none.mpr
    intro y hy
    rw [decide_eq_true_eq]
    exact hnone y hy
  have hle : ¬n < x.block_size := BitVec.not_lt.mpr (BitVec.le_of_lt hn)
  rw [adjustBlock, if_neg (BitVec.ne_of_lt hn), if_neg hle]
  dsimp only
  rw [hfind]

end Refused

theorem Valid.adjusted (hvalid : h.Valid) (hused : Used h x address)
    (hmet : AdjustMet h x address n) :
    Adjusted h x address n (h.adjustBlock x address n) ∧ (h.adjustBlock x address n).2.Valid := by
  rcases hmet with rfl | ⟨hn, hroom⟩ | ⟨hn, hnone⟩
  · rw [adjustBlock, if_pos rfl]
    exact ⟨hvalid.kept_adjusted hused fun hlt => absurd hlt (BitVec.lt_irrefl _), hvalid⟩
  · obtain ⟨blocks, heq, hadded⟩ := hvalid.adjustBlock_shrink hused hn hroom
    rw [heq]
    exact ⟨hvalid.shrink_adjusted hused hn hadded, hvalid.shrink_tiles hused hn hadded⟩
  · rw [adjustBlock_refused hn hnone]
    exact ⟨hvalid.kept_adjusted hused fun _ => hnone, hvalid⟩

section Back

theorem Valid.find_behind (hvalid : h.Valid) {before after : List ExpHeapMemoryBlock}
    (hsplit : h.m_free_block_list = before ++ y :: after) (hbehind : Behind x address y) :
    h.m_free_block_list.find? (fun free_block => free_block.address = address + x.block_size) =
      some y := by
  have hbefore : before.find? (fun free_block => free_block.address = address + x.block_size) =
      none := by
    apply List.find?_eq_none.mpr
    intro z hz
    rw [decide_eq_true_eq]
    intro hzy
    have hsorted := hvalid.sorted
    rw [hsplit, Coalesced, List.pairwise_append] at hsorted
    have hlt := hsorted.2.2 z hz y List.mem_cons_self
    have := address_lt_last z
    rw [hbehind, ← hzy] at hlt
    omega
  rw [hsplit, List.find?_append, hbefore, Option.none_or, List.find?_cons,
    decide_eq_true (show y.address = address + x.block_size from hbehind)]

theorem new_size_ne {stop m : BitVec 64} (hm : stop - (address + n + 0x20) = m)
    (hle : stop.toNat ≤ address.toNat + n.toNat)
    (hlt : address.toNat + n.toNat + 2 ^ 30 ≤ 2 ^ 64) :
    (if 0x20 ≤ m then address + n + 0x20 - m else address + n + 0x20) - address ≠ n := by
  have hsum : (address + n + 0x20).toNat = address.toNat + n.toNat + 0x20 := by
    rw [BitVec.toNat_add, BitVec.toNat_add, show (0x20 : BitVec 64).toNat = 0x20 from rfl]
    omega
  intro heq
  split at heq
  · have hmn : m = 0x20 := by bv_omega
    have := congrArg BitVec.toNat hm
    rw [hmn, BitVec.toNat_sub, hsum, show (0x20 : BitVec 64).toNat = 0x20 from rfl] at this
    omega
  · bv_omega

theorem Valid.not_adjusted (hvalid : h.Valid) (hused : Used h x address) (hn : x.block_size < n)
    (hy : y ∈ h.m_free_block_list) (hbehind : Behind x address y) :
    ¬Adjusted h x address n (h.adjustBlock x address n) := by
  intro hadjusted
  obtain ⟨before, after, hsplit⟩ := List.append_of_mem hy
  obtain ⟨hstart, hstop, hlast⟩ := hvalid.used_start hused
  have hsize : x.last = x.address.toNat + 0x20 + x.block_size.toNat := rfl
  have hysize : y.last = y.address.toNat + 0x20 + y.block_size.toNat := rfl
  have hyaddress : y.address.toNat = x.last := by rw [hbehind, hstop]
  have hylast := (hvalid.free_within hy).2
  have hend := hvalid.end_le
  have hle : ¬n < x.block_size := BitVec.not_lt.mpr (BitVec.le_of_lt hn)
  have hafter : (y.block_size + 0x20 + x.block_size).toNat =
      y.block_size.toNat + 0x20 + x.block_size.toNat := by
    rw [BitVec.toNat_add, BitVec.toNat_add, show (0x20 : BitVec 64).toNat = 0x20 from rfl]
    omega
  have hgrown := hadjusted.grown hn y hy hbehind
  have hrange := hadjusted.range
  have htiles := hadjusted.tiles
  have hblock := hadjusted.size
  obtain ⟨z, hz, hzx⟩ := hadjusted.kept
  revert hgrown hrange htiles hblock hz
  rw [adjustBlock, if_neg (BitVec.ne_of_lt hn), if_neg hle]
  dsimp only
  rw [hvalid.find_behind hsplit hbehind]
  dsimp only
  split
  · rename_i henough
    rw [BitVec.lt_def, hafter] at henough
    intro hgrown _ _ _ _
    exact BitVec.ne_of_lt hn (hgrown (by omega))
  · rename_i hshort
    rw [BitVec.lt_def, hafter] at hshort
    generalize hm : y.address + (y.block_size + 0x20) - (address + n + 0x20) = m
    intro _ hrange htiles hblock hz
    obtain ⟨-, hsame⟩ := hvalid.mem_setBlockSize hused.mem
      ((if 0x20 ≤ m then address + n + 0x20 - m else address + n + 0x20) - address)
    have hzn : z.block_size = n := hblock z hz hzx
    have hzlast : z.last ≤ h.m_end_address.toNat := by
      have hwithin := (htiles.within (List.mem_append_right _ (List.mem_map_of_mem hz))
        (used_last_pos z)).2
      rw [hrange.2] at hwithin
      exact hwithin
    rw [ExpHeapMemoryBlock.last, hzx, hzn] at hzlast
    have hnew := congrArg ExpHeapMemoryBlock.block_size (hsame z hz hzx)
    rw [hzn] at hnew
    have hstop_eq : (y.address + (y.block_size + 0x20)).toNat = y.last := by
      rw [BitVec.toNat_add, BitVec.toNat_add, show (0x20 : BitVec 64).toNat = 0x20 from rfl]
      omega
    exact new_size_ne hm (by omega) (by omega) hnew.symm

theorem Valid.adjusted_iff (hvalid : h.Valid) (hused : Used h x address) :
    Adjusted h x address n (h.adjustBlock x address n) ↔ AdjustMet h x address n := by
  refine ⟨?_, fun hmet => (hvalid.adjusted hused hmet).1⟩
  intro hadjusted
  by_cases hn : n < x.block_size
  · right
    left
    refine ⟨hn, ?_⟩
    by_contra hroom
    have hlost := (hvalid.shrink_between hused hn).addFreeBlock_lost
      (fun h' => hroom ((hvalid.hasRoom_iff hused hn).mp h'))
    rw [adjustBlock, if_neg (BitVec.ne_of_lt hn).symm, if_pos hn, hlost] at hadjusted
    -- the first byte that is given up is still in the used block, and in no free one
    have hlt := BitVec.lt_def.mp hn
    obtain ⟨hstart, -, -⟩ := hvalid.used_start hused
    obtain ⟨y, hy, hhas⟩ := hadjusted.released (address.toNat + n.toNat) (Nat.le_refl _)
      (by omega)
    have hy : y ∈ h.m_free_block_list := hy
    have hsize : x.last = x.address.toNat + 0x20 + x.block_size.toNat := rfl
    obtain ⟨hfirst, hsecond⟩ := hhas
    change y.address.toNat ≤ _ at hfirst
    change _ < y.last at hsecond
    rcases hvalid.used_apart_free hused.mem hy with hapart | hapart
    · change x.last ≤ y.address.toNat at hapart
      omega
    · change y.last ≤ x.address.toNat - x.alignment.toNat at hapart
      omega
  · rcases Nat.eq_or_lt_of_le (BitVec.le_def.mp (BitVec.not_lt.mp hn)) with heq | hlt
    · exact Or.inl (BitVec.eq_of_toNat_eq heq.symm)
    · right
      right
      refine ⟨BitVec.lt_def.mpr hlt, ?_⟩
      intro y hy hbehind
      exact hvalid.not_adjusted hused (BitVec.lt_def.mpr hlt) hy hbehind hadjusted

end Back

end ExpHeap

end Awn
