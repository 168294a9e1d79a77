import Awn.ExpHeap.Heap
import Awn.Memory.Tiling
import Mathlib.Data.List.Basic
import Mathlib.Data.List.TakeWhile

/-! The blocks tile the heap, and the free ones are sorted and coalesced: `AddFreeBlock`. -/

namespace Awn

open Memory

namespace ExpHeapMemoryBlock

variable (block : ExpHeapMemoryBlock)

def last : ℕ := block.address.toNat + 0x20 + block.block_size.toNat

def freeSpan : Span := ⟨block.address.toNat, block.last⟩

def usedSpan : Span := ⟨block.address.toNat - block.alignment.toNat, block.last⟩

variable {block}

theorem stop_toNat (h : block.last < 2 ^ 64) : block.stop.toNat = block.last := by
  rw [last] at *
  rw [stop, BitVec.toNat_add, BitVec.toNat_add, show (0x20 : BitVec 64).toNat = 0x20 from rfl]
  omega

theorem free_last {a b : BitVec 64} (h : a.toNat + 0x20 ≤ b.toNat) :
    (free a (b - a - 0x20)).last = b.toNat := by
  have hsize : (b - a - 0x20).toNat = b.toNat - a.toNat - 0x20 := by
    rw [BitVec.toNat_sub_of_le, BitVec.toNat_sub_of_le]
    · rfl
    · rw [BitVec.le_def]
      omega
    · rw [BitVec.le_def, BitVec.toNat_sub_of_le (by rw [BitVec.le_def]; omega)]
      show 0x20 ≤ _
      omega
  rw [last]
  show a.toNat + 0x20 + (b - a - 0x20).toNat = b.toNat
  omega

end ExpHeapMemoryBlock

namespace ExpHeap

def Coalesced (blocks : List ExpHeapMemoryBlock) : Prop :=
  blocks.Pairwise fun a b => a.last < b.address.toNat

section Coalesce

variable {before after blocks : List ExpHeapMemoryBlock} {a b : BitVec 64} {whole : Span}
  {rest : List Span}

theorem last_lt_of_concat {block : ExpHeapMemoryBlock} (h : Coalesced (before ++ [block])) :
    ∀ x ∈ before, x.last < block.address.toNat :=
  fun x hx => (List.pairwise_append.mp h).2.2 x hx block (List.mem_singleton_self _)

structure Front (before : List ExpHeapMemoryBlock) (a : BitVec 64)
    (r : BitVec 64 × List ExpHeapMemoryBlock) : Prop where
  start_le : r.1.toNat ≤ a.toNat
  below : ∀ x ∈ r.2, x.last < r.1.toNat
  sublist : r.2.Sublist before
  joined : ∀ x ∈ before, x.last = a.toNat → r.1.toNat + 0x20 ≤ a.toNat
  tiles : ∀ {whole : Span} {b : ℕ} {rest : List Span}, a.toNat ≤ b →
    Tiles whole (⟨a.toNat, b⟩ :: (before.map ExpHeapMemoryBlock.freeSpan ++ rest)) →
      Tiles whole (⟨r.1.toNat, b⟩ :: (r.2.map ExpHeapMemoryBlock.freeSpan ++ rest))

theorem coalesceFront_front (hsorted : Coalesced before) (hbelow : ∀ x ∈ before, x.last ≤ a.toNat) :
    Front before a (coalesceFront a before) := by
  rcases List.eq_nil_or_concat' before with rfl | ⟨earlier, prev_block, rfl⟩
  · exact ⟨Nat.le_refl _, List.forall_mem_nil _, List.Sublist.refl _, List.forall_mem_nil _,
      fun _ h => h⟩
  · have hearlier := last_lt_of_concat hsorted
    have hprev := hbelow prev_block (List.mem_append_right _ (List.mem_singleton_self _))
    have hstop : prev_block.stop.toNat = prev_block.last :=
      ExpHeapMemoryBlock.stop_toNat (Nat.lt_of_le_of_lt hprev a.isLt)
    have hlast : prev_block.last = prev_block.address.toNat + 0x20 + prev_block.block_size.toNat := rfl
    rw [coalesceFront, List.getLast?_append, List.getLast?_singleton, Option.some_or]
    dsimp only
    split
    · rename_i heq
      have hstart : prev_block.last = a.toNat := by rw [← hstop, heq]
      rw [List.dropLast_concat]
      constructor
      · show prev_block.address.toNat ≤ a.toNat
        omega
      · exact hearlier
      · exact List.sublist_append_left _ _
      · intro _ _ _
        show prev_block.address.toNat + 0x20 ≤ a.toNat
        omega
      · intro whole b rest hb htiles
        have hperm : (⟨a.toNat, b⟩ :: ((earlier ++ [prev_block]).map
              ExpHeapMemoryBlock.freeSpan ++ rest)).Perm
            ([⟨prev_block.address.toNat, a.toNat⟩, ⟨a.toNat, b⟩] ++
              (earlier.map ExpHeapMemoryBlock.freeSpan ++ rest)) := by
          rw [List.map_append, List.map_singleton, ExpHeapMemoryBlock.freeSpan, hstart]
          simp only [List.append_assoc, List.cons_append, List.nil_append]
          exact (List.Perm.cons _ List.perm_middle).trans (List.Perm.swap _ _ _)
        exact (htiles.perm hperm).join
          (tiles_two (show prev_block.address.toNat ≤ a.toNat by omega) hb)
    · rename_i hne
      have hstrict : prev_block.last < a.toNat := by
        apply Nat.lt_of_le_of_ne hprev
        intro heq
        apply hne
        apply BitVec.eq_of_toNat_eq
        rw [hstop, heq]
      have hall : ∀ x ∈ earlier ++ [prev_block], x.last < a.toNat := by
        intro x hx
        rcases List.mem_append.mp hx with hx | hx
        · have := hearlier x hx
          omega
        · rw [List.mem_singleton.mp hx]
          exact hstrict
      refine ⟨Nat.le_refl _, hall, List.Sublist.refl _, ?_, fun _ h => h⟩
      intro x hx heq
      exact absurd heq (Nat.ne_of_lt (hall x hx))

structure Back (after : List ExpHeapMemoryBlock) (b : BitVec 64)
    (r : BitVec 64 × List ExpHeapMemoryBlock) : Prop where
  le_end : b.toNat ≤ r.1.toNat
  above : ∀ y ∈ r.2, r.1.toNat < y.address.toNat
  sublist : r.2.Sublist after
  joined : ∀ y ∈ after, y.address = b → b.toNat + 0x20 ≤ r.1.toNat
  tiles : ∀ {whole : Span} {a : ℕ} {rest : List Span}, a ≤ b.toNat →
    Tiles whole (⟨a, b.toNat⟩ :: (after.map ExpHeapMemoryBlock.freeSpan ++ rest)) →
      Tiles whole (⟨a, r.1.toNat⟩ :: (r.2.map ExpHeapMemoryBlock.freeSpan ++ rest))

theorem coalesceBack_back (hsorted : Coalesced after) (hlast : ∀ y ∈ after, y.last < 2 ^ 64)
    (habove : ∀ y ∈ after, b.toNat ≤ y.address.toNat) : Back after b (coalesceBack b after) := by
  cases after with
  | nil =>
    exact ⟨Nat.le_refl _, List.forall_mem_nil _, List.Sublist.refl _, List.forall_mem_nil _,
      fun _ h => h⟩
  | cons next_block later =>
    have hlater := (List.pairwise_cons.mp hsorted).1
    have hnext := habove next_block List.mem_cons_self
    have hstop := ExpHeapMemoryBlock.stop_toNat (hlast next_block List.mem_cons_self)
    have hsize : next_block.last =
      next_block.address.toNat + 0x20 + next_block.block_size.toNat := rfl
    rw [coalesceBack]
    split
    · rename_i heq
      have hstart : next_block.address.toNat = b.toNat := by rw [heq]
      constructor
      · show b.toNat ≤ next_block.stop.toNat
        omega
      · intro y hy
        show next_block.stop.toNat < _
        rw [hstop]
        exact hlater y hy
      · exact List.sublist_cons_self _ _
      · intro _ _ _
        show b.toNat + 0x20 ≤ next_block.stop.toNat
        omega
      · intro whole a rest ha htiles
        show Tiles whole (⟨a, next_block.stop.toNat⟩ :: _)
        rw [List.map_cons, ExpHeapMemoryBlock.freeSpan, hstart] at htiles
        rw [hstop]
        have hparts : Tiles whole ([⟨a, b.toNat⟩, ⟨b.toNat, next_block.last⟩] ++
            (later.map ExpHeapMemoryBlock.freeSpan ++ rest)) := htiles
        exact hparts.join (tiles_two ha (by omega))
    · rename_i hne
      have hstrict : b.toNat < next_block.address.toNat := by
        apply Nat.lt_of_le_of_ne hnext
        intro heq
        exact hne (BitVec.eq_of_toNat_eq heq)
      have hall : ∀ y ∈ next_block :: later, b.toNat < y.address.toNat := by
        intro y hy
        rcases List.mem_cons.mp hy with rfl | hy
        · exact hstrict
        · have := hlater y hy
          omega
      refine ⟨Nat.le_refl _, hall, List.Sublist.refl _, ?_, fun _ h => h⟩
      intro y hy heq
      rw [← heq] at hall
      exact absurd (hall y hy) (Nat.lt_irrefl _)

end Coalesce

section AddFreeBlock

abbrev inFront (h : ExpHeap) (a : BitVec 64) : List ExpHeapMemoryBlock :=
  h.m_free_block_list.takeWhile fun block => block.address < a

abbrev behind (h : ExpHeap) (a : BitVec 64) : List ExpHeapMemoryBlock :=
  h.m_free_block_list.dropWhile fun block => block.address < a

variable {h : ExpHeap} {a b : BitVec 64}

theorem inFront_append_behind : h.inFront a ++ h.behind a = h.m_free_block_list :=
  List.takeWhile_append_dropWhile

structure Between (h : ExpHeap) (a b : BitVec 64) : Prop where
  sorted : Coalesced h.m_free_block_list
  last_lt : ∀ x ∈ h.m_free_block_list, x.last < 2 ^ 64
  lt : a.toNat < b.toNat
  apart : ∀ x ∈ h.m_free_block_list, x.last ≤ a.toNat ∨ b.toNat ≤ x.address.toNat

def HasRoom (h : ExpHeap) (a b : BitVec 64) : Prop :=
  a.toNat + 0x20 ≤ b.toNat ∨
    ∃ x ∈ h.m_free_block_list, x.last = a.toNat ∨ x.address = b

theorem address_lt_last (x : ExpHeapMemoryBlock) : x.address.toNat + 0x20 ≤ x.last :=
  Nat.le_add_right _ _

theorem Between.mem_before (hrange : Between h a b) {x : ExpHeapMemoryBlock}
    (hx : x ∈ h.inFront a) :
    x ∈ h.m_free_block_list ∧ x.last ≤ a.toNat := by
  have hmem := (List.takeWhile_sublist _).subset hx
  have hpassed := List.mem_takeWhile_imp hx
  have hlt : x.address < a := of_decide_eq_true hpassed
  rw [BitVec.lt_def] at hlt
  refine ⟨hmem, (hrange.apart x hmem).resolve_right ?_⟩
  have := hrange.lt
  omega

theorem Between.mem_after (hrange : Between h a b) {y : ExpHeapMemoryBlock}
    (hy : y ∈ h.behind a) :
    y ∈ h.m_free_block_list ∧ b.toNat ≤ y.address.toNat := by
  have hsub := List.dropWhile_sublist (l := h.m_free_block_list) fun block => block.address < a
  have hmem := hsub.subset hy
  refine ⟨hmem, (hrange.apart y hmem).resolve_left ?_⟩
  have hhead := List.head?_dropWhile_not (fun block => block.address < a) h.m_free_block_list
  have hsorted : Coalesced (h.behind a) :=
    hrange.sorted.sublist hsub
  have hy_last := address_lt_last y
  cases hafter : h.behind a with
  | nil =>
    rw [hafter] at hy
    cases hy
  | cons first later =>
    rw [show h.m_free_block_list.dropWhile (fun block => block.address < a) = _ from hafter] at hhead
    rw [hafter] at hy hsorted
    have hfirst : ¬first.address < a := of_decide_eq_false hhead
    rw [BitVec.lt_def] at hfirst
    have hfirst_last := address_lt_last first
    rcases List.mem_cons.mp hy with rfl | hy
    · omega
    · have := (List.pairwise_cons.mp hsorted).1 y hy
      omega

theorem Between.mem_or (_ : Between h a b) {x : ExpHeapMemoryBlock} (hx : x ∈ h.m_free_block_list) :
    x ∈ (h.inFront a) ∨
      x ∈ h.behind a := by
  rw [← List.mem_append, List.takeWhile_append_dropWhile]
  exact hx

theorem Between.not_lost (hrange : Between h a b) (after : List ExpHeapMemoryBlock) :
    (h.inFront a).getLast?.filter
      (fun block => after.isEmpty && decide (b = block.address)) = none := by
  rw [Option.filter_eq_none_iff]
  intro block hblock
  have hlast := (hrange.mem_before (List.mem_of_getLast? hblock)).2
  have hne : b ≠ block.address := by
    rintro rfl
    have := address_lt_last block
    have := hrange.lt
    omega
  simp [hne]

theorem Between.front (hrange : Between h a b) :
    Front (h.inFront a) a
      (coalesceFront a (h.inFront a)) :=
  coalesceFront_front (hrange.sorted.sublist (List.takeWhile_sublist _))
    fun _ hx => (hrange.mem_before hx).2

theorem Between.back (hrange : Between h a b) :
    Back (h.behind a) b
      (coalesceBack b (h.behind a)) :=
  coalesceBack_back (hrange.sorted.sublist (List.dropWhile_sublist _))
    (fun y hy => hrange.last_lt y (hrange.mem_after hy).1) fun _ hy => (hrange.mem_after hy).2

structure Added (h : ExpHeap) (a b : BitVec 64) (blocks : List ExpHeapMemoryBlock) : Prop where
  sorted : Coalesced blocks
  mem : ∀ x ∈ blocks,
    x ∈ h.m_free_block_list ∨ x.alloc_magic = ExpHeapMemoryBlock.cFreeMagic ∧ x.alignment = 0
  tiles : ∀ {whole : Span} {rest : List Span},
    Tiles whole (⟨a.toNat, b.toNat⟩ ::
      (h.m_free_block_list.map ExpHeapMemoryBlock.freeSpan ++ rest)) →
        Tiles whole (blocks.map ExpHeapMemoryBlock.freeSpan ++ rest)

theorem Between.new_size (hrange : Between h a b) (hroom : h.HasRoom a b) :
    (coalesceFront a (h.inFront a)).1.toNat + 0x20 ≤
      (coalesceBack b (h.behind a)).1.toNat := by
  have hfront := hrange.front.start_le
  have hback := hrange.back.le_end
  have hlt := hrange.lt
  rcases hroom with hsize | ⟨x, hx, heq | heq⟩
  · omega
  · rcases hrange.mem_or hx with hx | hx
    · have := hrange.front.joined x hx heq
      omega
    · have := (hrange.mem_after hx).2
      have := address_lt_last x
      omega
  · rcases hrange.mem_or hx with hx | hx
    · have := (hrange.mem_before hx).2
      have := address_lt_last x
      rw [heq] at this
      omega
    · have := hrange.back.joined x hx heq
      omega

theorem Between.addFreeBlock_eq (hrange : Between h a b) :
    h.AddFreeBlock a b =
      let front := coalesceFront a (h.inFront a)
      let back := coalesceBack b (h.behind a)
      if back.1 - front.1 < 0x20 then (false, { h with m_free_block_list := front.2 ++ back.2 })
      else
        (true, { h with
          m_free_block_list := front.2 ++ .free front.1 (back.1 - front.1 - 0x20) :: back.2 }) := by
  rw [AddFreeBlock]
  dsimp only
  rw [hrange.not_lost]

theorem Between.added (hrange : Between h a b) {f r : BitVec 64 × List ExpHeapMemoryBlock}
    (hfront : Front (h.inFront a) a f) (hback : Back (h.behind a) b r)
    (hsize : f.1.toNat + 0x20 ≤ r.1.toNat) :
    Added h a b (f.2 ++ .free f.1 (r.1 - f.1 - 0x20) :: r.2) := by
  have hnew := ExpHeapMemoryBlock.free_last hsize
  have hstart := hfront.start_le
  have hlt := hrange.lt
  constructor
  · apply List.pairwise_append.mpr
    refine ⟨(hrange.sorted.sublist (List.takeWhile_sublist _)).sublist hfront.sublist, ?_, ?_⟩
    · apply List.pairwise_cons.mpr
      refine ⟨?_, (hrange.sorted.sublist (List.dropWhile_sublist _)).sublist hback.sublist⟩
      intro y hy
      rw [hnew]
      exact hback.above y hy
    · intro x hx y hy
      have hbelow := hfront.below x hx
      rcases List.mem_cons.mp hy with rfl | hy
      · exact hbelow
      · have := hback.above y hy
        omega
  · intro x hx
    rcases List.mem_append.mp hx with hx | hx
    · exact Or.inl ((List.takeWhile_sublist _).subset (hfront.sublist.subset hx))
    · rcases List.mem_cons.mp hx with rfl | hx
      · exact Or.inr ⟨rfl, rfl⟩
      · exact Or.inl ((List.dropWhile_sublist _).subset (hback.sublist.subset hx))
  · intro whole rest htiles
    rw [← inFront_append_behind (a := a), List.map_append, List.append_assoc] at htiles
    have hjoined := hfront.tiles (Nat.le_of_lt hlt) htiles
    have hmoved : Tiles whole (⟨f.1.toNat, b.toNat⟩ ::
        ((h.behind a).map ExpHeapMemoryBlock.freeSpan ++
          (f.2.map ExpHeapMemoryBlock.freeSpan ++ rest))) := by
      apply hjoined.perm
      apply List.Perm.cons
      simp only [← List.append_assoc]
      exact List.perm_append_comm.append_right _
    have hwhole := hback.tiles (show f.1.toNat ≤ b.toNat by omega) hmoved
    apply hwhole.perm
    rw [List.map_append, List.map_cons, ExpHeapMemoryBlock.freeSpan, hnew]
    simp only [List.append_assoc, List.cons_append]
    refine List.Perm.trans (List.Perm.cons _ ?_) List.perm_middle.symm
    simp only [← List.append_assoc]
    exact List.perm_append_comm.append_right _

theorem Between.addFreeBlock (hrange : Between h a b) (hroom : h.HasRoom a b) :
    ∃ blocks, h.AddFreeBlock a b = (true, { h with m_free_block_list := blocks }) ∧
      Added h a b blocks := by
  have hsize := hrange.new_size hroom
  have hbig : ¬(coalesceBack b (h.behind a)).1 - (coalesceFront a (h.inFront a)).1 < 0x20 := by
    rw [BitVec.lt_def, BitVec.toNat_sub_of_le (by rw [BitVec.le_def]; omega)]
    show ¬(coalesceBack b (h.behind a)).1.toNat - (coalesceFront a (h.inFront a)).1.toNat < 0x20
    omega
  refine ⟨_, ?_, hrange.added hrange.front hrange.back hsize⟩
  rw [hrange.addFreeBlock_eq]
  exact if_neg hbig

theorem Between.addFreeBlock_lost (hrange : Between h a b) (hroom : ¬h.HasRoom a b) :
    h.AddFreeBlock a b = (false, h) := by
  rw [HasRoom, not_or, not_exists] at hroom
  obtain ⟨hsize, hnone⟩ := hroom
  have hfront : coalesceFront a (h.inFront a) =
      (a, h.inFront a) := by
    rw [coalesceFront]
    cases hlast : (h.inFront a).getLast? with
    | none => rfl
    | some block =>
      obtain ⟨hmem, hle⟩ := hrange.mem_before (List.mem_of_getLast? hlast)
      dsimp only
      rw [if_neg]
      rintro rfl
      apply hnone block
      refine ⟨hmem, Or.inl ?_⟩
      exact (ExpHeapMemoryBlock.stop_toNat (hrange.last_lt block hmem)).symm
  have hback : coalesceBack b (h.behind a) =
      (b, h.behind a) := by
    cases hafter : h.behind a with
    | nil => rfl
    | cons block later =>
      have hmem := hrange.mem_after (hafter ▸ List.mem_cons_self)
      rw [coalesceBack, if_neg]
      rintro rfl
      exact hnone block ⟨hmem.1, Or.inr rfl⟩
  have hlt := hrange.lt
  have hsmall : b - a < 0x20 := by
    rw [BitVec.lt_def, BitVec.toNat_sub_of_le (by rw [BitVec.le_def]; omega)]
    show b.toNat - a.toNat < 0x20
    omega
  rw [hrange.addFreeBlock_eq, hfront, hback]
  dsimp only
  rw [if_pos hsmall, inFront_append_behind]

end AddFreeBlock

end ExpHeap

end Awn
