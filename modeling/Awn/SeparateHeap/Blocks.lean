import Awn.SeparateHeap.Heap

namespace Awn.SeparateHeap

open Memory

def Initial (h : SeparateHeap) : Prop :=
  h.m_total_management_block_count ≠ 0 ∧
    h.word (blockAddress h.m_management_area_start (h.m_total_management_block_count.toNat - 1)) = 0

def Allowed (s : State) : Call → Prop
  | .TryAllocate size alignment =>
    let new_offset := alignUp s.heap.m_start_address (alignment.signExtend 64)
    s.heap.m_management_free_list_start ≠ 0 ∧ (new_offset ≤ s.heap.m_end_address →
      s.heap.word s.heap.m_management_free_list_start = 0 ∧ s.heap.m_start_address ≤ new_offset ∧
        new_offset.toNat + size.toNat ≤ s.heap.m_end_address.toNat)
  | .Free _ => True

/-- Either nothing is used, or one block is and none is left. -/
structure Invariant (s : State) (used free : List (BitVec 64)) : Prop where
  shape : Shape s used free
  single : used = [] ∨ ∃ block, used = [block] ∧ free = [] ∧ block ≠ 0

section Start

variable {management_start : BitVec 64} {memory : BitVec 64 → BitVec 64}

theorem blockAddress_toNat {n i : ℕ} (harea : management_start.toNat + 0x20 * n ≤ 2 ^ 64) (hi : i < n) :
    (blockAddress management_start i).toNat = management_start.toNat + 0x20 * i := by
  have hlt := management_start.isLt
  simp only [blockAddress, BitVec.toNat_add, BitVec.toNat_mul, BitVec.toNat_ofNat,
    BitVec.ofNat_eq_ofNat]
  omega

theorem blockAddress_inj {n i j : ℕ} (harea : management_start.toNat + 0x20 * n ≤ 2 ^ 64) (hi : i < n)
    (hj : j < n) (h : blockAddress management_start i = blockAddress management_start j) : i = j := by
  have hnat := congrArg BitVec.toNat h
  rw [blockAddress_toNat harea hi, blockAddress_toNat harea hj] at hnat
  omega

theorem linkBlocks_of_lt {n i m : ℕ} (harea : management_start.toNat + 0x20 * n ≤ 2 ^ 64) (hm : m ≤ n)
    (hi : i < m) : linkBlocks management_start memory m (blockAddress management_start i) =
      blockAddress management_start (i + 1) := by
  induction m with
  | zero => omega
  | succ m ih =>
    rw [linkBlocks]
    by_cases him : i = m
    · rw [him, Function.update_self]
    · rw [Function.update_of_ne, ih (by omega) (by omega)]
      intro heq
      exact him (blockAddress_inj harea (by omega) (by omega) heq)

theorem freeList_linkBlocks {n : ℕ} (hstart : management_start ≠ 0)
    (harea : management_start.toNat + 0x20 * n ≤ 2 ^ 64)
    (hlast : linkBlocks management_start memory (n - 1) (blockAddress management_start (n - 1)) = 0)
    {i m : ℕ} (him : i + (m + 1) = n) :
    FreeList (linkBlocks management_start memory (n - 1)) (blockAddress management_start i)
      ((List.range' i (m + 1)).map (blockAddress management_start)) := by
  have hpos : ∀ j < n, blockAddress management_start j ≠ 0 := by
    intro j hj hzero
    have hnat := congrArg BitVec.toNat hzero
    rw [blockAddress_toNat harea hj] at hnat
    apply hstart
    apply BitVec.eq_of_toNat_eq
    have : (0 : BitVec 64).toNat = 0 := rfl
    omega
  induction m generalizing i with
  | zero =>
    have hi : i = n - 1 := by omega
    refine ⟨rfl, hpos i (by omega), ?_⟩
    rw [hi]
    exact hlast
  | succ m ih =>
    rw [List.range'_succ, List.map_cons]
    refine ⟨rfl, hpos i (by omega), ?_⟩
    rw [linkBlocks_of_lt harea (by omega) (by omega)]
    exact ih (by omega)

theorem invariant_create {heap_start heap_size management_size : BitVec 64}
    (hstart : management_start ≠ 0)
    (harea : management_start.toNat + management_size.toNat ≤ 2 ^ 64)
    (hinitial : Initial (create heap_start heap_size management_start management_size memory)) :
    ∃ free, Invariant
      ⟨create heap_start heap_size management_start management_size memory, []⟩ [] free := by
  obtain ⟨hcount, hlast⟩ := hinitial
  generalize hn : (create heap_start heap_size management_start management_size
    memory).m_total_management_block_count.toNat = n at hlast
  have hpos : 0 < n := by
    apply Nat.pos_of_ne_zero
    intro hzero
    apply hcount
    apply BitVec.eq_of_toNat_eq
    rw [hn, hzero]
    rfl
  have hsize : 0x20 * n ≤ management_size.toNat := by
    have hdiv : n = management_size.toNat / 0x20 % 2 ^ 32 := by
      rw [← hn]
      simp only [create, BitVec.toNat_setWidth, BitVec.toNat_udiv, BitVec.ofNat_eq_ofNat,
        BitVec.toNat_ofNat]
    have := Nat.mod_le (management_size.toNat / 0x20) (2 ^ 32)
    omega
  have hword : (create heap_start heap_size management_start management_size memory).word =
      linkBlocks management_start memory (n - 1) := by
    have hone : (1 : BitVec 32).toNat = 1 := rfl
    have hlt := (create heap_start heap_size management_start management_size
      memory).m_total_management_block_count.isLt
    rw [← hn]
    change linkBlocks management_start memory ((create heap_start heap_size management_start
      management_size memory).m_total_management_block_count - 1).toNat = _
    congr 1
    rw [BitVec.toNat_sub, hone]
    omega
  rw [hword] at hlast
  obtain ⟨m, rfl⟩ := Nat.exists_eq_succ_of_ne_zero (Nat.pos_iff_ne_zero.mp hpos)
  refine ⟨(List.range (m + 1)).map (blockAddress management_start), ⟨?_, ?_, ?_, ?_, ?_, ?_, ?_, ?_⟩,
    Or.inl rfl⟩
  · exact ⟨rfl, rfl⟩
  · rw [hword, List.range_eq_range']
    have := freeList_linkBlocks (i := 0) (m := m) hstart (by omega) hlast (by omega)
    have hzero : blockAddress management_start 0 = management_start := by
      simp [blockAddress]
    rw [hzero] at this
    exact this
  · simp only [blocks, hn, List.nil_append]
    exact List.Perm.refl _
  · exact List.Perm.refl _
  · exact List.Pairwise.nil
  · simp
  · simp
  · exact List.Pairwise.nil

end Start

variable {s s' : State} {used free : List (BitVec 64)} {size : BitVec 64} {k : ℕ}

theorem Invariant.used_nil (h : Invariant s used free)
    (hstart : s.heap.m_management_free_list_start ≠ 0) : used = [] := by
  rcases h.single with hnil | ⟨block, -, hfree, -⟩
  · exact hnil
  · have := h.shape.freeList
    rw [hfree] at this
    exact absurd this hstart

theorem Invariant.tryAllocate_eq (h : Invariant s [] free) (hk : k < 31)
    (hstart : s.heap.m_management_free_list_start ≠ 0) (fuel : ℕ) (size : BitVec 64) :
    s.heap.TryAllocate (fuel + 1) size (BitVec.ofNat 32 (2 ^ k)) =
      some (if s.heap.m_end_address < alignUp s.heap.m_start_address (BitVec.ofNat 64 (2 ^ k)) then
        (none, s.heap)
      else (some (alignUp s.heap.m_start_address (BitVec.ofNat 64 (2 ^ k))),
        s.heap.insertBlock none (alignUp s.heap.m_start_address (BitVec.ofNat 64 (2 ^ k))) size)) := by
  obtain ⟨hnext, hprev⟩ := h.shape.ring
  rw [TryAllocate, if_neg hstart, signExtend_pow hk, hnext, hprev]
  rfl

theorem Invariant.live_nil (h : Invariant s [] free) : s.live = [] := by
  have hlive := h.shape.live
  rw [List.map_nil, List.nil_perm] at hlive
  exact List.map_eq_nil_iff.mp hlive

theorem Invariant.free_single (h : Invariant s [] free)
    (hstart : s.heap.m_management_free_list_start ≠ 0)
    (hnext : s.heap.word s.heap.m_management_free_list_start = 0) :
    free = [s.heap.m_management_free_list_start] := by
  have hlist := h.shape.freeList
  cases free with
  | nil => exact absurd hlist hstart
  | cons block rest =>
    obtain ⟨hblock, -, hrest⟩ := hlist
    cases rest with
    | nil => rw [hblock]
    | cons block' rest =>
      obtain ⟨hblock', hne, -⟩ := hrest
      rw [← hblock, hnext] at hblock'
      exact absurd hblock'.symm hne

theorem Invariant.insertBlock {o : BitVec 64} (h : Invariant s [] free)
    (hstart : s.heap.m_management_free_list_start ≠ 0)
    (hnext : s.heap.word s.heap.m_management_free_list_start = 0)
    (hge : s.heap.m_start_address ≤ o) (hle : o.toNat + size.toNat ≤ s.heap.m_end_address.toNat)
    (haligned : 2 ^ k ∣ o.toNat) :
    Invariant ⟨s.heap.insertBlock none o size, ⟨o, size, 2 ^ k⟩ :: s.live⟩
      [s.heap.m_management_free_list_start] [] := by
  have hfree := h.free_single hstart hnext
  have hlive := h.live_nil
  generalize hb : s.heap.m_management_free_list_start = block at *
  refine ⟨⟨?_, ?_, ?_, ?_, ?_, ?_, ?_, ?_⟩, Or.inr ⟨block, rfl, rfl, hstart⟩⟩
  · -- the ring of the list, and the new block's own
    have hnone : (none : Option (BitVec 64)) ≠ some block := by simp
    have hring : ((s.heap.m_used_block_list.setPrev (some block) (some block)).setNext (some block)
        (some block)).Ring none [] := by
      obtain ⟨hn, hp⟩ := h.shape.ring
      constructor
      · simpa [Links.setPrev, Links.setNext, hnone] using hn
      · simpa [Links.setPrev, Links.setNext, hnone] using hp
    have hself : ((s.heap.m_used_block_list.setPrev (some block) (some block)).setNext (some block)
        (some block)).Ring (some block) [] := by
      constructor <;> simp [Links.setPrev, Links.setNext]
    obtain ⟨hn, hp⟩ := hring
    obtain ⟨hn', hp'⟩ := hself
    simp only [SeparateHeap.insertBlock, hb, List.map_cons, List.map_nil]
    generalize (s.heap.m_used_block_list.setPrev (some block) (some block)).setNext (some block)
      (some block) = links at hn hp hn' hp'
    refine ⟨?_, ?_, ?_, ?_⟩ <;>
      simp [Links.linkNext, Links.setPrev, Links.setNext, hn, hn', hnone, hnone.symm]
  · simp [SeparateHeap.insertBlock, hb, FreeList]
  · have hall := h.shape.all
    rw [hfree] at hall
    exact hall
  · simp [SeparateHeap.insertBlock, hb, hlive]
  · exact List.pairwise_singleton _ _
  · rw [hlive]
    intro a ha
    obtain rfl := List.mem_singleton.mp ha
    exact ⟨hge, hle⟩
  · rw [hlive]
    intro a ha
    obtain rfl := List.mem_singleton.mp ha
    exact haligned
  · rw [hlive]
    exact List.pairwise_singleton _ _

theorem Invariant.allocate {fuel : ℕ} {r : Option (BitVec 64) × SeparateHeap}
    (h : Invariant s used free) (hk : k < 31)
    (hallowed : Allowed s (.TryAllocate size (BitVec.ofNat 32 (2 ^ k))))
    (hr : s.heap.TryAllocate fuel size (BitVec.ofNat 32 (2 ^ k)) = some r) :
    ∃ used' free', Invariant ⟨r.2, r.1.elim s.live fun o => ⟨o, size, 2 ^ k⟩ :: s.live⟩ used' free' := by
  obtain ⟨hstart, hinside⟩ := hallowed
  rw [signExtend_pow hk] at hinside
  obtain rfl := h.used_nil hstart
  cases fuel with
  | zero =>
    rw [TryAllocate, if_neg hstart] at hr
    cases hr
  | succ fuel =>
    rw [h.tryAllocate_eq hk hstart] at hr
    obtain rfl := Option.some.inj hr
    split
    · exact ⟨[], free, h⟩
    · obtain ⟨hnext, hge, hle⟩ := hinside (BitVec.not_lt.mp ‹_›)
      exact ⟨_, _, h.insertBlock hstart hnext hge hle (alignUp_dvd _ (by omega))⟩

theorem Invariant.live_eq {a : Allocation} {live : List Allocation} {block : BitVec 64}
    (h : Invariant s [block] free) (hlive : s.live.Perm (a :: live)) :
    live = [] ∧ a.offset = s.heap.word block := by
  have hperm := h.shape.live.trans (hlive.map fun a => (a.offset, a.size))
  have heq := List.singleton_perm.mp hperm
  rw [List.map_cons, List.cons.injEq] at heq
  exact ⟨List.map_eq_nil_iff.mp heq.2.symm, (congrArg Prod.fst heq.1).symm⟩

theorem Invariant.free_eq {a : Allocation} {live : List Allocation} (h : Invariant s used free)
    (hlive : s.live.Perm (a :: live)) (fuel : ℕ) :
    ∃ block, used = [block] ∧ free = [] ∧ block ≠ 0 ∧ live = [] ∧
      s.heap.Free (fuel + 1) a.offset = some { s.heap with
        m_used_block_list := s.heap.m_used_block_list.unlink (some block)
        word := Function.update s.heap.word block s.heap.m_management_free_list_start
        m_management_free_list_start := block } := by
  rcases h.single with rfl | ⟨block, rfl, rfl, hne⟩
  · rw [h.live_nil, List.nil_perm] at hlive
    cases hlive
  · obtain ⟨hnil, hoffset⟩ := h.live_eq hlive
    refine ⟨block, rfl, rfl, hne, hnil, ?_⟩
    have hnext : s.heap.m_used_block_list.next none = some block := h.shape.ring.1
    rw [SeparateHeap.Free, hnext, findBlock, if_pos hoffset.symm]
    rfl

theorem Invariant.release {a : Allocation} {live : List Allocation} {fuel : ℕ} {heap : SeparateHeap}
    (h : Invariant s used free) (hlive : s.live.Perm (a :: live))
    (hheap : s.heap.Free fuel a.offset = some heap) :
    ∃ used' free', Invariant ⟨heap, live⟩ used' free' := by
  cases fuel with
  | zero => cases hheap
  | succ fuel =>
    obtain ⟨block, rfl, rfl, hne, rfl, hfree⟩ := h.free_eq hlive fuel
    obtain rfl := Option.some.inj (hfree.symm.trans hheap)
    have hstart : s.heap.m_management_free_list_start = 0 := h.shape.freeList
    refine ⟨[], [block], ⟨?_, ?_, h.shape.all, List.Perm.refl _, List.Pairwise.nil, ?_, ?_,
      List.Pairwise.nil⟩, Or.inl rfl⟩
    · have hring : s.heap.m_used_block_list.Ring none ([] ++ some block :: []) := h.shape.ring
      exact Links.ring_unlink hring (by simp)
    · refine ⟨rfl, hne, ?_⟩
      change Function.update s.heap.word block s.heap.m_management_free_list_start block = 0
      rw [Function.update_self, hstart]
    · simp
    · simp

theorem Run.invariant (h : Run Initial Allowed s) : ∃ used free, Invariant s used free := by
  induction h with
  | start hstart harea hinitial =>
    exact ⟨[], invariant_create hstart harea hinitial⟩
  | step _ hallowed hstep ih =>
    obtain ⟨used, free, ih⟩ := ih
    cases hstep with
    | allocate _ hk hr => exact ih.allocate hk hallowed hr
    | free hlive hheap => exact ih.release hlive hheap

theorem Invariant.answers (h : Invariant s used free) (hk : k < 31)
    (hallowed : Allowed s (.TryAllocate size (BitVec.ofNat 32 (2 ^ k)))) : Answers s size k := by
  obtain ⟨hstart, hinside⟩ := hallowed
  rw [signExtend_pow hk] at hinside
  obtain rfl := h.used_nil hstart
  refine ⟨1, _, h.tryAllocate_eq hk hstart 0 size, ?_⟩
  intro hgap
  apply if_pos
  apply BitVec.not_le.mp
  intro hle
  obtain ⟨-, hge, hend⟩ := hinside hle
  apply hgap (alignUp s.heap.m_start_address (BitVec.ofNat 64 (2 ^ k)))
  refine ⟨hge, hend, alignUp_dvd _ (by omega), ?_⟩
  rw [h.live_nil]
  simp

theorem blocks_of_run (h : Run Initial Allowed s) :
    (∃ used free, Shape s used free) ∧
      (∀ size k, size ≠ 0 → k < 31 → Allowed s (.TryAllocate size (BitVec.ofNat 32 (2 ^ k))) →
        Answers s size k) ∧
      ∀ a ∈ s.live, ∃ fuel heap, s.heap.Free fuel a.offset = some heap := by
  obtain ⟨used, free, hinvariant⟩ := h.invariant
  refine ⟨⟨used, free, hinvariant.shape⟩, ?_, ?_⟩
  · intro size k _ hk hallowed
    exact hinvariant.answers hk hallowed
  · intro a ha
    obtain ⟨before, after, hlive⟩ := List.append_of_mem ha
    obtain ⟨block, -, -, -, -, hfree⟩ := hinvariant.free_eq (hlive ▸ List.perm_middle) 0
    exact ⟨1, _, hfree⟩

def oneBlock (size : BitVec 64) : SeparateHeap := create 0x10000 size 0x1000 0x20 fun _ => 0

def oneAllocation (range size : BitVec 64) : State :=
  ⟨(oneBlock range).insertBlock none 0x10000 size, [⟨0x10000, size, 2 ^ 4⟩]⟩

theorem oneBlock_initial (range : BitVec 64) : Initial (oneBlock range) := by
  constructor
  · change ¬((0x20 : BitVec 64) / 0x20).setWidth 32 = 0
    decide
  · rfl

theorem oneBlock_step {range size : BitVec 64} (hsize : size ≠ 0)
    (hrange : ¬(oneBlock range).m_end_address < 0x10000) :
    Step ⟨oneBlock range, []⟩ (.TryAllocate size (BitVec.ofNat 32 (2 ^ 4)))
      (oneAllocation range size) := by
  have hk : 4 < 31 := by decide
  have hstart : (0x1000 : BitVec 64) ≠ 0 := by decide
  have halign : alignUp (oneBlock range).m_start_address (BitVec.ofNat 64 (2 ^ 4)) = 0x10000 := by
    change alignUp 0x10000 (BitVec.ofNat 64 (2 ^ 4)) = 0x10000
    decide
  obtain ⟨free, h⟩ := invariant_create hstart (by decide) (oneBlock_initial range)
  have hr := h.tryAllocate_eq hk hstart 0 size
  change (oneBlock range).TryAllocate 1 size _ = some (if (oneBlock range).m_end_address <
    alignUp (oneBlock range).m_start_address _ then _ else (some (alignUp
      (oneBlock range).m_start_address _), (oneBlock range).insertBlock none (alignUp
        (oneBlock range).m_start_address _) size)) at hr
  rw [halign, if_neg hrange] at hr
  exact Step.allocate (s := ⟨oneBlock range, []⟩) hsize hk hr

theorem blocks_of_run_oneAllocation :
    Run Initial Allowed (oneAllocation 0x100 0x20) ∧
      (∃ used free, Shape (oneAllocation 0x100 0x20) used free) := by
  have hrun : Run Initial Allowed (oneAllocation 0x100 0x20) := by
    apply Run.step (Run.start (by decide) (by decide) (oneBlock_initial 0x100)) _
      (oneBlock_step (by decide) (by decide))
    refine ⟨by decide, ?_⟩
    intro _
    exact ⟨by decide, by decide, by decide⟩
  exact ⟨hrun, (blocks_of_run hrun).1⟩

theorem allocated_outside :
    ∃ s, Run Initial (fun _ _ => True) s ∧ ¬∃ used free, Shape s used free := by
  refine ⟨oneAllocation 0x10 0x100, ?_, ?_⟩
  · apply Run.step (Run.start (by decide) (by decide) (oneBlock_initial 0x10)) trivial
      (oneBlock_step (by decide) (by decide))
  · rintro ⟨used, free, hshape⟩
    have hinside := (hshape.inside ⟨0x10000, 0x100, 2 ^ 4⟩ List.mem_cons_self).2
    revert hinside
    decide

end Awn.SeparateHeap
