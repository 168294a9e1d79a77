import Awn.ExpHeap.Search

/-! `AdjustHeap` and `ResizeHeapBack`, with the allocation of the parent that the heap is in. -/

namespace Awn

open Memory

namespace ExpHeap

variable {P : Type*} (parents : ParentHeap P) {h h' : ExpHeap} {parent parent' : Option P}
  {new_size size : BitVec 64} {is_root : Bool} {refused : Prop}

def Covers (h : ExpHeap) (parent : Option P) : Prop :=
  ∀ p ∈ parent, 0xa0 + (h.m_end_address.toNat - h.m_start_address.toNat) ≤
    (parents.allocated p).toNat

structure Resized (h : ExpHeap) (parent : Option P) (refused : Prop) (size : BitVec 64)
    (h' : ExpHeap) (parent' : Option P) : Prop where
  le : h'.m_start_address.toNat ≤ h'.m_end_address.toNat
  tiles : Tiles ⟨h'.m_start_address.toNat, h'.m_end_address.toNat⟩
    (h'.m_free_block_list.map ExpHeapMemoryBlock.freeSpan ++
      h'.m_allocated_block_list.map ExpHeapMemoryBlock.usedSpan)
  covers : h'.Covers parents parent'
  used : h'.m_allocated_block_list = h.m_allocated_block_list
  size_eq : size = h'.GetTotalSize
  unchanged : refused → h' = h ∧ parent'.map parents.allocated = parent.map parents.allocated

def tailBlock (h : ExpHeap) : Option ExpHeapMemoryBlock :=
  h.m_free_block_list.getLast?.filter fun block => block.last = h.m_end_address.toNat

def AdjustHeapKeeps (h : ExpHeap) (parent : Option P) : Prop :=
  ∀ last_block ∈ h.tailBlock, ∀ p ∈ parent,
    0xa0 + (last_block.address.toNat - h.m_start_address.toNat) ≤
      (parents.allocated (parents.AdjustAllocation p
        (h.GetTotalSize + 0xa0 - (0x20 + last_block.block_size))).2).toNat

def AdjustHeapMet (h : ExpHeap) (parent : Option P) : Prop :=
  h.AdjustHeapKeeps parents parent ∧
    match h.tailBlock with
    | none => h.m_end_address = h.m_start_address
    | some last_block => h.m_end_address.toNat - last_block.address.toNat =
        last_block.address.toNat - h.m_start_address.toNat

theorem Valid.total_toNat (hvalid : h.Valid) :
    h.GetTotalSize.toNat = h.m_end_address.toNat - h.m_start_address.toNat :=
  BitVec.toNat_sub_of_le (BitVec.le_def.mpr hvalid.start_le)

section AdjustHeap

variable {last_block : ExpHeapMemoryBlock}

theorem mem_tailBlock (htail : h.tailBlock = some last_block) :
    (∃ before, h.m_free_block_list = before ++ [last_block]) ∧
      last_block.last = h.m_end_address.toNat := by
  rw [tailBlock, Option.filter_eq_some_iff] at htail
  refine ⟨?_, of_decide_eq_true htail.2⟩
  obtain ⟨before, hbefore⟩ := List.getLast?_eq_some_iff.mp htail.1
  exact ⟨before, hbefore⟩

theorem Valid.size_toNat (hvalid : h.Valid) (hx : last_block ∈ h.m_free_block_list) :
    (0x20 + last_block.block_size).toNat = 0x20 + last_block.block_size.toNat := by
  have := hvalid.free_last_lt _ hx
  have hlast : last_block.last =
    last_block.address.toNat + 0x20 + last_block.block_size.toNat := rfl
  rw [BitVec.toNat_add, show (0x20 : BitVec 64).toNat = 0x20 from rfl]
  omega

theorem Valid.trimmed_iff (hvalid : h.Valid) (hx : last_block ∈ h.m_free_block_list) :
    last_block.address + (0x20 + last_block.block_size) = h.m_end_address ↔
      last_block.last = h.m_end_address.toNat := by
  have := hvalid.free_last_lt _ hx
  have hsize := hvalid.size_toNat hx
  have hlast : last_block.last =
    last_block.address.toNat + 0x20 + last_block.block_size.toNat := rfl
  rw [← BitVec.toNat_inj, BitVec.toNat_add, hsize, Nat.mod_eq_of_lt (by omega), hlast]
  omega

theorem Valid.adjustHeap_kept (hvalid : h.Valid) (htail : h.tailBlock = none) :
    h.AdjustHeap parents parent = (⟨h.m_end_address, 0⟩, h, parent) := by
  rw [AdjustHeap]
  cases hlast : h.m_free_block_list.getLast? with
  | none => rfl
  | some last_block =>
    have hx := List.mem_of_getLast? hlast
    rw [tailBlock, hlast, Option.filter_eq_none_iff] at htail
    have hne := htail last_block rfl
    rw [decide_eq_true_eq, ← hvalid.trimmed_iff hx] at hne
    dsimp only
    rw [if_pos hne]

theorem Valid.adjustHeap_trimmed (hvalid : h.Valid) (htail : h.tailBlock = some last_block) :
    h.AdjustHeap parents parent =
      (⟨last_block.address, 0x20 + last_block.block_size⟩,
        { h with
          m_free_block_list := h.m_free_block_list.dropLast
          m_end_address := last_block.address },
        parent.map fun p => (parents.AdjustAllocation p
          (h.GetTotalSize + 0xa0 - (0x20 + last_block.block_size))).2) := by
  obtain ⟨⟨before, hsplit⟩, hlast⟩ := mem_tailBlock htail
  have hx : last_block ∈ h.m_free_block_list := by
    rw [hsplit]
    exact List.mem_append_right _ (List.mem_singleton_self _)
  have hget : h.m_free_block_list.getLast? = some last_block :=
    List.getLast?_eq_some_iff.mpr ⟨before, hsplit⟩
  have hend := (hvalid.trimmed_iff hx).mpr hlast
  have hback : h.m_end_address - (0x20 + last_block.block_size) = last_block.address := by
    rw [← hend, BitVec.add_sub_cancel]
  rw [AdjustHeap, hget]
  dsimp only
  rw [if_neg (not_not.mpr hend), hback]

theorem Valid.trim (hvalid : h.Valid) (htail : h.tailBlock = some last_block) :
    Valid { h with
      m_free_block_list := h.m_free_block_list.dropLast
      m_end_address := last_block.address } := by
  obtain ⟨⟨before, hsplit⟩, hlast⟩ := mem_tailBlock htail
  have hx : last_block ∈ h.m_free_block_list := by
    rw [hsplit]
    exact List.mem_append_right _ (List.mem_singleton_self _)
  have hwithin := hvalid.free_within hx
  have hlt := address_lt_last last_block
  have hend := hvalid.end_le
  have hsub := List.dropLast_sublist h.m_free_block_list
  refine ⟨hvalid.start_pos, hwithin.1, ?_, hvalid.sorted.sublist hsub, ?_, hvalid.used_kind, ?_⟩
  · show last_block.address.toNat + 2 ^ 30 ≤ 2 ^ 64
    omega
  · exact fun y hy => hvalid.free_kind y (hsub.subset hy)
  · show Tiles ⟨h.m_start_address.toNat, last_block.address.toNat⟩
      (h.m_free_block_list.dropLast.map _ ++ _)
    have htiles := hvalid.tiles_free hsplit
    rw [ExpHeapMemoryBlock.freeSpan, hlast, List.append_nil] at htiles
    rw [hsplit, List.dropLast_concat]
    exact htiles.drop hwithin.1 (by omega)

theorem Valid.adjustHeap (hvalid : h.Valid) : (h.AdjustHeap parents parent).2.1.Valid := by
  cases htail : h.tailBlock with
  | none =>
    rw [hvalid.adjustHeap_kept parents htail]
    exact hvalid
  | some last_block =>
    rw [hvalid.adjustHeap_trimmed parents htail]
    exact hvalid.trim htail

theorem Valid.adjustHeap_covers (hvalid : h.Valid) (hcovers : h.Covers parents parent)
    (hkeeps : h.AdjustHeapKeeps parents parent) :
    (h.AdjustHeap parents parent).2.1.Covers parents (h.AdjustHeap parents parent).2.2 := by
  cases htail : h.tailBlock with
  | none =>
    rw [hvalid.adjustHeap_kept parents htail]
    exact hcovers
  | some last_block =>
    rw [hvalid.adjustHeap_trimmed parents htail]
    intro p hp
    obtain ⟨old, hold, rfl⟩ := Option.mem_map.mp hp
    exact hkeeps last_block htail old hold

theorem Valid.adjustHeap_resized (hvalid : h.Valid) (hcovers : h.Covers parents parent) :
    Resized parents h parent ((h.AdjustHeap parents parent).1.size = 0)
        (h.AdjustHeap parents parent).1.size (h.AdjustHeap parents parent).2.1
        (h.AdjustHeap parents parent).2.2 ↔
      h.AdjustHeapMet parents parent := by
  have hvalid' : (h.AdjustHeap parents parent).2.1.Valid := hvalid.adjustHeap parents
  rw [AdjustHeapMet]
  cases htail : h.tailBlock with
  | none =>
    have hkeeps : h.AdjustHeapKeeps parents parent := by
      intro last_block hlast
      rw [htail] at hlast
      cases hlast
    have hzero : 0 = h.GetTotalSize ↔ h.m_end_address = h.m_start_address := by
      rw [GetTotalSize]
      bv_omega
    rw [hvalid.adjustHeap_kept parents htail]
    constructor
    · exact fun hresized => ⟨hkeeps, hzero.mp hresized.size_eq⟩
    · rintro ⟨-, hempty⟩
      exact ⟨hvalid.start_le, hvalid.tiles, hcovers, rfl, hzero.mpr hempty, fun _ => ⟨rfl, rfl⟩⟩
  | some last_block =>
    obtain ⟨⟨before, hsplit⟩, hlast⟩ := mem_tailBlock htail
    have hx : last_block ∈ h.m_free_block_list := by
      rw [hsplit]
      exact List.mem_append_right _ (List.mem_singleton_self _)
    have hsize := hvalid.size_toNat hx
    have hwithin := hvalid.free_within hx
    have hlast_eq : last_block.last =
      last_block.address.toNat + 0x20 + last_block.block_size.toNat := rfl
    have htotal : 0x20 + last_block.block_size = last_block.address - h.m_start_address ↔
        h.m_end_address.toNat - last_block.address.toNat =
          last_block.address.toNat - h.m_start_address.toNat := by
      rw [← BitVec.toNat_inj, hsize, BitVec.toNat_sub_of_le (BitVec.le_def.mpr hwithin.1)]
      omega
    have hkeeps := hvalid.adjustHeap_covers parents hcovers
    rw [hvalid.adjustHeap_trimmed parents htail] at hvalid' hkeeps ⊢
    constructor
    · intro hresized
      refine ⟨?_, htotal.mp hresized.size_eq⟩
      intro other hother p hp
      obtain rfl := Option.some_inj.mp (htail.symm.trans hother)
      exact hresized.covers _ (Option.mem_map_of_mem _ hp)
    · rintro ⟨hk, hhalf⟩
      refine ⟨hvalid'.start_le, hvalid'.tiles, hkeeps hk, rfl, htotal.mpr hhalf, ?_⟩
      intro hzero
      have : (0x20 + last_block.block_size).toNat = 0 := congrArg BitVec.toNat hzero
      omega

end AdjustHeap

section ResizeHeapBack

def EndsApart (h : ExpHeap) : Prop :=
  h.m_allocated_block_list = [] → h.endBlock.address + h.endBlock.block_size ≠ h.m_end_address

/-- Where the heap grows, the parent's allocation has it, no address of `limit` bytes behind it wraps,
and what is new has room for a header or a free block to join; where it is refused, the parent's
allocation is what it was. -/
def ResizeMet (h : ExpHeap) (is_root : Bool) (parent : Option P) (n : BitVec 64) (limit : ℕ) :
    Prop :=
  (n < h.GetTotalSize → h.EndsApart) ∧ (h.GetTotalSize < n →
    if (resizeParent parents parent is_root n).1 then
      h.EndsApart ∧ h.m_start_address.toNat + n.toNat + limit ≤ 2 ^ 64 ∧
        h.HasRoom h.m_end_address (h.m_start_address + n) ∧
        ∀ p ∈ (resizeParent parents parent is_root n).2, 0xa0 + n.toNat ≤ (parents.allocated p).toNat
    else
      (resizeParent parents parent is_root n).2.map parents.allocated = parent.map parents.allocated)

def resizeTo (h : ExpHeap) (last_free_start n : BitVec 64) : ExpHeap :=
  { (h.AddFreeBlock last_free_start (h.m_start_address + n)).2 with
    m_end_address := h.m_start_address + n }

inductive Outcome (h : ExpHeap) (is_root : Bool) (parent : Option P) (n : BitVec 64) :
    BitVec 64 × ExpHeap × Option P → Prop
  | kept (hle : n ≤ h.GetTotalSize) (hapart : n < h.GetTotalSize → h.EndsApart) :
      Outcome h is_root parent n (h.GetTotalSize, h, parent)
  | shrunk (hlt : n < h.GetTotalSize) (hnot : ¬h.EndsApart) :
      Outcome h is_root parent n (n, h.resizeTo h.endBlock.address n, parent)
  | grown (hlt : h.GetTotalSize < n) (hgrant : (resizeParent parents parent is_root n).1 = true)
      (hapart : h.EndsApart) :
      Outcome h is_root parent n
        (n, h.resizeTo h.m_end_address n, (resizeParent parents parent is_root n).2)
  | outside (hlt : h.GetTotalSize < n) (hgrant : (resizeParent parents parent is_root n).1 = true)
      (hnot : ¬h.EndsApart) :
      Outcome h is_root parent n
        (n, h.resizeTo h.endBlock.address n, (resizeParent parents parent is_root n).2)
  | refused (hlt : h.GetTotalSize < n) (hgrant : ¬(resizeParent parents parent is_root n).1 = true) :
      Outcome h is_root parent n (h.GetTotalSize, h, (resizeParent parents parent is_root n).2)

theorem Valid.last_free_end_ne (hvalid : h.Valid) (hapart : h.EndsApart) :
    (h.m_allocated_block_list.getLast?.getD h.endBlock).address +
      (h.m_allocated_block_list.getLast?.getD h.endBlock).block_size ≠ h.m_end_address := by
  cases hlast : h.m_allocated_block_list.getLast? with
  | none => exact hapart (List.getLast?_eq_none_iff.mp hlast)
  | some block =>
    intro heq
    have hwithin := (hvalid.used_within (List.mem_of_getLast? hlast)).2
    have hend := hvalid.end_le
    have hlast_eq : block.last = block.address.toNat + 0x20 + block.block_size.toNat := rfl
    have hsum : (block.address + block.block_size).toNat = h.m_end_address.toNat :=
      congrArg BitVec.toNat heq
    rw [BitVec.toNat_add, Nat.mod_eq_of_lt (by omega)] at hsum
    omega

theorem Valid.outcome_apart (hvalid : h.Valid) (hapart : h.EndsApart) :
    Outcome parents h is_root parent (alignUp new_size 4)
      (h.ResizeHeapBack parents parent is_root new_size) := by
  have hne := hvalid.last_free_end_ne hapart
  rw [ResizeHeapBack]
  dsimp only
  generalize alignUp new_size 4 = n
  by_cases heq : n = h.GetTotalSize
  · rw [if_pos heq]
    exact .kept (BitVec.le_of_eq heq) fun _ => hapart
  · rw [if_neg heq]
    by_cases hlt : n < h.GetTotalSize
    · rw [if_pos hlt, if_pos (Or.inl hne)]
      exact .kept (BitVec.le_of_lt hlt) fun _ => hapart
    · have hgt : h.GetTotalSize < n := by
        rw [BitVec.lt_def] at *
        have : n.toNat ≠ h.GetTotalSize.toNat := fun h => heq (BitVec.eq_of_toNat_eq h)
        omega
      rw [if_neg hlt, if_neg hne]
      by_cases hgrant : (resizeParent parents parent is_root n).1 = true
      · rw [if_pos hgrant]
        exact .grown hgt hgrant hapart
      · rw [if_neg hgrant]
        exact .refused hgt hgrant

theorem Valid.endBlock_size (hvalid : h.Valid)
    (hend : h.endBlock.address + h.endBlock.block_size = h.m_end_address) :
    h.endBlock.block_size.toNat = h.GetTotalSize.toNat + 0x28 := by
  have htotal := hvalid.total_toNat
  have hlimit := hvalid.end_le
  have haddress : h.endBlock.address = h.m_start_address - 0x28 := rfl
  have hsize : h.endBlock.block_size = h.GetTotalSize + 0x28 := by
    rw [haddress] at hend
    rw [GetTotalSize, ← hend]
    bv_omega
  rw [hsize, BitVec.toNat_add, show (0x28 : BitVec 64).toNat = 0x28 from rfl]
  omega

theorem end_sub_delta (start stop n : BitVec 64) : stop - (stop - start - n) = start + n := by
  bv_omega

theorem Valid.outcome (hvalid : h.Valid) :
    Outcome parents h is_root parent (alignUp new_size 4)
      (h.ResizeHeapBack parents parent is_root new_size) := by
  by_cases hapart : h.EndsApart
  · exact hvalid.outcome_apart parents hapart
  · have hnot := hapart
    rw [EndsApart, Classical.not_imp, not_not] at hnot
    obtain ⟨hempty, hend⟩ := hnot
    have hsize := hvalid.endBlock_size hend
    have htotal := hvalid.total_toNat
    have hlimit := hvalid.end_le
    rw [ResizeHeapBack, hempty, List.getLast?_nil, Option.getD_none]
    dsimp only
    generalize alignUp new_size 4 = n
    by_cases heq : n = h.GetTotalSize
    · rw [if_pos heq]
      exact .kept (BitVec.le_of_eq heq)
        fun hlt => absurd hlt (by rw [heq]; exact BitVec.lt_irrefl _)
    · rw [if_neg heq]
      by_cases hlt : n < h.GetTotalSize
      · have hfree : (h.endBlock.block_size + 0x20).toNat = h.GetTotalSize.toNat + 0x48 := by
          rw [BitVec.toNat_add, hsize, show (0x20 : BitVec 64).toNat = 0x20 from rfl]
          omega
        have hdelta : (h.GetTotalSize - n).toNat = h.GetTotalSize.toNat - n.toNat :=
          BitVec.toNat_sub_of_le (BitVec.le_of_lt hlt)
        have hroom : ¬(h.endBlock.address + h.endBlock.block_size ≠ h.m_end_address ∨
            h.endBlock.block_size + 0x20 < h.GetTotalSize - n) := by
          rintro (hne | hshort)
          · exact hne hend
          · rw [BitVec.lt_def, hfree, hdelta] at hshort
            omega
        have hne : h.GetTotalSize - n ≠ h.endBlock.block_size + 0x20 := by
          intro hsame
          rw [← BitVec.toNat_inj, hfree, hdelta] at hsame
          omega
        have hnew : h.endBlock.address + h.endBlock.block_size - (h.GetTotalSize - n) =
            h.m_start_address + n := by
          rw [hend, GetTotalSize, end_sub_delta]
        rw [if_pos hlt, if_neg hroom, if_neg hne, hnew]
        exact .shrunk hlt hapart
      · have hgt : h.GetTotalSize < n := by
          rw [BitVec.lt_def] at *
          have : n.toNat ≠ h.GetTotalSize.toNat := fun h => heq (BitVec.eq_of_toNat_eq h)
          omega
        rw [if_neg hlt, if_pos hend]
        by_cases hgrant : (resizeParent parents parent is_root n).1 = true
        · rw [if_pos hgrant]
          exact .outside hgt hgrant hapart
        · rw [if_neg hgrant]
          exact .refused hgt hgrant

theorem Valid.grow_between (hvalid : h.Valid) {n : BitVec 64} (hn : h.GetTotalSize < n)
    (hwrap : h.m_start_address.toNat + n.toNat < 2 ^ 64) :
    Between h h.m_end_address (h.m_start_address + n) := by
  have htotal := hvalid.total_toNat
  rw [BitVec.lt_def] at hn
  refine ⟨hvalid.sorted, hvalid.free_last_lt, ?_, fun y hy => Or.inl (hvalid.free_within hy).2⟩
  rw [BitVec.toNat_add, Nat.mod_eq_of_lt hwrap]
  omega

theorem Valid.grow_tiles (hvalid : h.Valid) {n : BitVec 64} (hn : h.GetTotalSize < n)
    (hwrap : h.m_start_address.toNat + n.toNat < 2 ^ 64) {blocks : List ExpHeapMemoryBlock}
    (hadded : Added h h.m_end_address (h.m_start_address + n) blocks) :
    Tiles ⟨h.m_start_address.toNat, (h.m_start_address + n).toNat⟩
      (blocks.map ExpHeapMemoryBlock.freeSpan ++
        h.m_allocated_block_list.map ExpHeapMemoryBlock.usedSpan) := by
  have hlt := (hvalid.grow_between hn hwrap).lt
  have htwo := tiles_two hvalid.start_le (Nat.le_of_lt hlt)
  apply hadded.tiles
  have hall : Tiles ⟨h.m_start_address.toNat, (h.m_start_address + n).toNat⟩
      ((h.m_free_block_list.map ExpHeapMemoryBlock.freeSpan ++
        h.m_allocated_block_list.map ExpHeapMemoryBlock.usedSpan) ++
          [⟨h.m_end_address.toNat, (h.m_start_address + n).toNat⟩]) :=
    Tiles.cut htwo hvalid.tiles
  exact hall.perm (List.perm_append_singleton _ _)

variable {n : BitVec 64} {r : BitVec 64 × ExpHeap × Option P}

theorem add_toNat_of_lt (hwrap : h.m_start_address.toNat + n.toNat < 2 ^ 64) :
    (h.m_start_address + n).toNat = h.m_start_address.toNat + n.toNat := by
  rw [BitVec.toNat_add, Nat.mod_eq_of_lt hwrap]

theorem Valid.resizeTo_eq (hvalid : h.Valid) (hlt : h.GetTotalSize < n)
    (hwrap : h.m_start_address.toNat + n.toNat < 2 ^ 64)
    (hroom : h.HasRoom h.m_end_address (h.m_start_address + n)) :
    ∃ blocks, h.resizeTo h.m_end_address n =
        { h with m_free_block_list := blocks, m_end_address := h.m_start_address + n } ∧
      Added h h.m_end_address (h.m_start_address + n) blocks := by
  obtain ⟨blocks, hadd, hadded⟩ := (hvalid.grow_between hlt hwrap).addFreeBlock hroom
  refine ⟨blocks, ?_, hadded⟩
  rw [resizeTo, hadd]

theorem Valid.not_tiles_lost (hvalid : h.Valid) (hlt : h.GetTotalSize < n)
    (hwrap : h.m_start_address.toNat + n.toNat < 2 ^ 64)
    (hroom : ¬h.HasRoom h.m_end_address (h.m_start_address + n)) :
    ¬Tiles ⟨h.m_start_address.toNat, (h.m_start_address + n).toNat⟩
      ((h.resizeTo h.m_end_address n).m_free_block_list.map ExpHeapMemoryBlock.freeSpan ++
        h.m_allocated_block_list.map ExpHeapMemoryBlock.usedSpan) := by
  have hbetween := hvalid.grow_between hlt hwrap
  have hstart := hvalid.start_le
  rw [resizeTo, hbetween.addFreeBlock_lost hroom]
  intro htiles
  obtain ⟨s, hs, hhas⟩ := htiles.exists_has (x := h.m_end_address.toNat) ⟨hstart, hbetween.lt⟩
  exact Nat.lt_irrefl _ (hvalid.tiles.has_of_mem hs hhas).2

theorem addFreeBlock_front {a b : BitVec 64} (hfront : h.inFront a = [])
    (hbehind : h.behind a = h.m_free_block_list) :
    h.AddFreeBlock a b =
      if (coalesceBack b h.m_free_block_list).1 - a < 0x20 then
        (false, { h with m_free_block_list := (coalesceBack b h.m_free_block_list).2 })
      else
        (true, { h with
          m_free_block_list :=
            .free a ((coalesceBack b h.m_free_block_list).1 - a - 0x20) ::
              (coalesceBack b h.m_free_block_list).2 }) := by
  rw [AddFreeBlock]
  dsimp only
  rw [show (h.m_free_block_list.takeWhile fun block => block.address < a) = _ from hfront,
    show (h.m_free_block_list.dropWhile fun block => block.address < a) = _ from hbehind]
  rfl

theorem Valid.not_tiles_endBlock (hvalid : h.Valid)
    (hwrap : h.m_start_address.toNat + n.toNat < 2 ^ 64) :
    ¬Tiles ⟨h.m_start_address.toNat, (h.m_start_address + n).toNat⟩
      ((h.resizeTo h.endBlock.address n).m_free_block_list.map ExpHeapMemoryBlock.freeSpan ++
        (h.resizeTo h.endBlock.address n).m_allocated_block_list.map
          ExpHeapMemoryBlock.usedSpan) := by
  have hpos := hvalid.start_pos
  have haddress : h.endBlock.address.toNat = h.m_start_address.toNat - 0x28 :=
    BitVec.toNat_sub_of_le (BitVec.le_def.mpr (show 0x28 ≤ _ by omega))
  have hstart (y : ExpHeapMemoryBlock) (hy : y ∈ h.m_free_block_list) :
      h.m_start_address.toNat ≤ y.address.toNat := (hvalid.free_within hy).1
  have hfront : h.inFront h.endBlock.address = [] := by
    apply List.eq_nil_iff_forall_not_mem.mpr
    intro y hy
    have hpassed := List.mem_takeWhile_imp hy
    have hlt := BitVec.lt_def.mp (of_decide_eq_true hpassed)
    have := hstart y ((List.takeWhile_sublist _).subset hy)
    omega
  have hbehind : h.behind h.endBlock.address = h.m_free_block_list := by
    have hall := inFront_append_behind (h := h) (a := h.endBlock.address)
    rwa [hfront, List.nil_append] at hall
  have hback : h.m_start_address.toNat ≤
      (coalesceBack (h.m_start_address + n) h.m_free_block_list).1.toNat := by
    have hplus := add_toNat_of_lt hwrap
    cases hfree : h.m_free_block_list with
    | nil =>
      show _ ≤ (h.m_start_address + n).toNat
      omega
    | cons next_block after =>
      have hnext : next_block ∈ h.m_free_block_list := hfree ▸ List.mem_cons_self
      have hstop := ExpHeapMemoryBlock.stop_toNat (hvalid.free_last_lt _ hnext)
      have := hstart _ hnext
      have := address_lt_last next_block
      rw [coalesceBack]
      split
      · show _ ≤ next_block.stop.toNat
        omega
      · show _ ≤ (h.m_start_address + n).toNat
        omega
  have hbig : ¬(coalesceBack (h.m_start_address + n) h.m_free_block_list).1 -
      h.endBlock.address < 0x20 := by
    rw [BitVec.lt_def, BitVec.toNat_sub_of_le (by rw [BitVec.le_def]; omega)]
    show ¬_ < 0x20
    omega
  have hlist : (h.resizeTo h.endBlock.address n).m_free_block_list =
      .free h.endBlock.address
          ((coalesceBack (h.m_start_address + n) h.m_free_block_list).1 - h.endBlock.address - 0x20) ::
        (coalesceBack (h.m_start_address + n) h.m_free_block_list).2 := by
    rw [resizeTo, addFreeBlock_front hfront hbehind, if_neg hbig]
  rw [hlist]
  intro htiles
  have hwithin := (htiles.within List.mem_cons_self (last_pos _)).1
  have : h.m_start_address.toNat ≤ h.endBlock.address.toNat := hwithin
  omega

theorem ResizeMet.mono {limit : ℕ} (hmet : ResizeMet parents h is_root parent n limit)
    (hlimit : 0 < limit) : ResizeMet parents h is_root parent n 1 := by
  refine ⟨hmet.1, fun hlt => ?_⟩
  have hgrow := hmet.2 hlt
  by_cases hgrant : (resizeParent parents parent is_root n).1 = true
  · rw [if_pos hgrant] at hgrow ⊢
    obtain ⟨hapart, hwrap, hroom, hparent⟩ := hgrow
    exact ⟨hapart, by omega, hroom, hparent⟩
  · rw [if_neg hgrant] at hgrow ⊢
    exact hgrow

theorem resizeTo_start (a : BitVec 64) : (h.resizeTo a n).m_start_address = h.m_start_address ∧
    (h.resizeTo a n).m_allocated_block_list = h.m_allocated_block_list := by
  rw [resizeTo, AddFreeBlock]
  dsimp only
  split
  · exact ⟨rfl, rfl⟩
  · split <;> exact ⟨rfl, rfl⟩

theorem Outcome.covers (houtcome : Outcome parents h is_root parent n r)
    (hcovers : h.Covers parents parent) (hmet : ResizeMet parents h is_root parent n 1) :
    r.2.1.Covers parents r.2.2 := by
  cases houtcome with
  | kept hle hapart => exact hcovers
  | shrunk hlt hnot => exact absurd (hmet.1 hlt) hnot
  | outside hlt hgrant hnot =>
    have hgrow := hmet.2 hlt
    rw [if_pos hgrant] at hgrow
    exact absurd hgrow.1 hnot
  | refused hlt hgrant =>
    have hsame := hmet.2 hlt
    rw [if_neg hgrant] at hsame
    intro p hp
    have hmem : parents.allocated p ∈ parent.map parents.allocated := by
      rw [← hsame]
      exact Option.mem_map_of_mem _ hp
    obtain ⟨old, hold, heq⟩ := Option.mem_map.mp hmem
    rw [← heq]
    exact hcovers old hold
  | grown hlt hgrant hapart =>
    have hgrow := hmet.2 hlt
    rw [if_pos hgrant] at hgrow
    obtain ⟨-, hwrap, -, hparent⟩ := hgrow
    have hend : (h.resizeTo h.m_end_address n).m_end_address = h.m_start_address + n := rfl
    intro p hp
    have hroom := hparent p hp
    dsimp only
    rw [hend, (resizeTo_start _).1, add_toNat_of_lt (by omega), Nat.add_sub_cancel_left]
    exact hroom

theorem Outcome.valid (houtcome : Outcome parents h is_root parent n r) (hvalid : h.Valid)
    (hmet : ResizeMet parents h is_root parent n (2 ^ 30)) : r.2.1.Valid := by
  cases houtcome with
  | kept hle hapart => exact hvalid
  | shrunk hlt hnot => exact absurd (hmet.1 hlt) hnot
  | outside hlt hgrant hnot =>
    have hgrow := hmet.2 hlt
    rw [if_pos hgrant] at hgrow
    exact absurd hgrow.1 hnot
  | refused hlt hgrant => exact hvalid
  | grown hlt hgrant hapart =>
    have hgrow := hmet.2 hlt
    rw [if_pos hgrant] at hgrow
    obtain ⟨-, hwrap, hroom, -⟩ := hgrow
    obtain ⟨blocks, heq, hadded⟩ := hvalid.resizeTo_eq hlt (by omega) hroom
    have hend := add_toNat_of_lt (h := h) (n := n) (by omega)
    dsimp only
    rw [heq]
    refine ⟨hvalid.start_pos, ?_, ?_, hadded.sorted, ?_, hvalid.used_kind,
      hvalid.grow_tiles hlt (by omega) hadded⟩
    · show h.m_start_address.toNat ≤ (h.m_start_address + n).toNat
      omega
    · show (h.m_start_address + n).toNat + 2 ^ 30 ≤ 2 ^ 64
      omega
    · intro y hy
      rcases hadded.mem y hy with hy | hy
      · exact hvalid.free_kind y hy
      · exact hy

theorem Outcome.resized (houtcome : Outcome parents h is_root parent n r) (hvalid : h.Valid)
    (hcovers : h.Covers parents parent) (hmet : ResizeMet parents h is_root parent n 1) :
    Resized parents h parent (r.1 ≠ n) r.1 r.2.1 r.2.2 := by
  have hcovers' := houtcome.covers parents hcovers hmet
  cases houtcome with
  | kept hle hapart =>
    exact ⟨hvalid.start_le, hvalid.tiles, hcovers', rfl, rfl, fun _ => ⟨rfl, rfl⟩⟩
  | shrunk hlt hnot => exact absurd (hmet.1 hlt) hnot
  | outside hlt hgrant hnot =>
    have hgrow := hmet.2 hlt
    rw [if_pos hgrant] at hgrow
    exact absurd hgrow.1 hnot
  | refused hlt hgrant =>
    have hsame := hmet.2 hlt
    rw [if_neg hgrant] at hsame
    exact ⟨hvalid.start_le, hvalid.tiles, hcovers', rfl, rfl, fun _ => ⟨rfl, hsame⟩⟩
  | grown hlt hgrant hapart =>
    have hgrow := hmet.2 hlt
    rw [if_pos hgrant] at hgrow
    obtain ⟨-, hwrap, hroom, -⟩ := hgrow
    obtain ⟨blocks, heq, hadded⟩ := hvalid.resizeTo_eq hlt (by omega) hroom
    have hend := add_toNat_of_lt (h := h) (n := n) (by omega)
    dsimp only at hcovers' ⊢
    rw [heq] at hcovers' ⊢
    refine ⟨?_, hvalid.grow_tiles hlt (by omega) hadded, hcovers', rfl, ?_,
      fun hne => absurd rfl hne⟩
    · show h.m_start_address.toNat ≤ (h.m_start_address + n).toNat
      omega
    · show n = h.m_start_address + n - h.m_start_address
      rw [BitVec.add_comm, BitVec.add_sub_cancel]

theorem Resized.not_wrap {a : BitVec 64} {refused : Prop}
    (hresized : Resized parents h parent refused n (h.resizeTo a n) parent') :
    h.m_start_address.toNat + n.toNat < 2 ^ 64 := by
  have hle := hresized.le
  rw [(resizeTo_start a).1] at hle
  change h.m_start_address.toNat ≤ (h.m_start_address + n).toNat at hle
  rw [BitVec.toNat_add] at hle
  have := h.m_start_address.isLt
  have := n.isLt
  omega

theorem Outcome.met (houtcome : Outcome parents h is_root parent n r) (hvalid : h.Valid)
    (hresized : Resized parents h parent (r.1 ≠ n) r.1 r.2.1 r.2.2) :
    ResizeMet parents h is_root parent n 1 := by
  have hnot_lt {a b : BitVec 64} (hab : a < b) : ¬b < a :=
    BitVec.not_lt.mpr (BitVec.le_of_lt hab)
  cases houtcome with
  | kept hle hapart => exact ⟨hapart, fun hlt => absurd hle (BitVec.not_le.mpr hlt)⟩
  | shrunk hlt hnot =>
    have htiles := hresized.tiles
    dsimp only at htiles
    rw [(resizeTo_start _).1] at htiles
    exact absurd htiles (hvalid.not_tiles_endBlock hresized.not_wrap)
  | outside hlt hgrant hnot =>
    have htiles := hresized.tiles
    dsimp only at htiles
    rw [(resizeTo_start _).1] at htiles
    exact absurd htiles (hvalid.not_tiles_endBlock hresized.not_wrap)
  | refused hlt hgrant =>
    refine ⟨fun hlt' => absurd hlt' (hnot_lt hlt), fun _ => ?_⟩
    rw [if_neg hgrant]
    exact (hresized.unchanged (BitVec.ne_of_lt hlt)).2
  | grown hlt hgrant hapart =>
    have hwrap := hresized.not_wrap
    refine ⟨fun hlt' => absurd hlt' (hnot_lt hlt), fun _ => ?_⟩
    rw [if_pos hgrant]
    refine ⟨hapart, hwrap, ?_, ?_⟩
    · by_contra hroom
      have htiles := hresized.tiles
      dsimp only at htiles
      rw [(resizeTo_start _).1, (resizeTo_start _).2] at htiles
      exact hvalid.not_tiles_lost hlt hwrap hroom htiles
    · intro p hp
      have hroom := hresized.covers p hp
      have hend : (h.resizeTo h.m_end_address n).m_end_address = h.m_start_address + n := rfl
      dsimp only at hroom
      rw [hend, (resizeTo_start _).1, add_toNat_of_lt hwrap, Nat.add_sub_cancel_left] at hroom
      exact hroom

theorem Valid.resizeHeapBack_resized (hvalid : h.Valid) (hcovers : h.Covers parents parent) :
    Resized parents h parent
        ((h.ResizeHeapBack parents parent is_root new_size).1 ≠ alignUp new_size 4)
        (h.ResizeHeapBack parents parent is_root new_size).1
        (h.ResizeHeapBack parents parent is_root new_size).2.1
        (h.ResizeHeapBack parents parent is_root new_size).2.2 ↔
      ResizeMet parents h is_root parent (alignUp new_size 4) 1 :=
  ⟨(hvalid.outcome parents).met parents hvalid,
    (hvalid.outcome parents).resized parents hvalid hcovers⟩

end ResizeHeapBack

end ExpHeap

end Awn
