import Awn.Calls.Throughout
import Mathlib.Algebra.Group.Nat.Defs
import Mathlib.Data.List.Nodup
import Mathlib.Data.List.Perm.Subperm
import Mathlib.Logic.Function.Basic

namespace Awn

structure FixedAtomicIndexAllocator (w : ℕ) where
  m_next_index : BitVec 32
  m_handle_array : ℕ → BitVec w

namespace FixedAtomicIndexAllocator

def cInvalidHandle (w : ℕ) : BitVec w := BitVec.allOnes w

variable {w : ℕ}

def cleared (Count : ℕ) : FixedAtomicIndexAllocator w where
  m_next_index := 0
  m_handle_array := fun i => if i + 1 < Count then BitVec.ofNat w (i + 1) else cInvalidHandle w

def Allocate (t : FixedAtomicIndexAllocator w) : BitVec w × FixedAtomicIndexAllocator w :=
  if t.m_next_index = (cInvalidHandle w).setWidth 32 then (cInvalidHandle w, t)
  else (t.m_next_index.setWidth w,
    { t with m_next_index := (t.m_handle_array t.m_next_index.toNat).setWidth 32 })

def Free (t : FixedAtomicIndexAllocator w) (index : BitVec w) : FixedAtomicIndexAllocator w :=
  let handle := t.m_next_index
  let m_handle_array := Function.update t.m_handle_array index.toNat (handle.setWidth w)
  { m_next_index := (m_handle_array handle.toNat).setWidth 32
    m_handle_array := m_handle_array }

def FreeList (m_handle_array : ℕ → BitVec w) : BitVec 32 → List ℕ → Prop
  | next, [] => next = (cInvalidHandle w).setWidth 32
  | next, i :: rest => next ≠ (cInvalidHandle w).setWidth 32 ∧ next.toNat = i ∧ i < 2 ^ w ∧
      FreeList m_handle_array ((m_handle_array i).setWidth 32) rest

section Cleared

variable {Count : ℕ} (hw : w ≤ 32) (hCount : Count < 2 ^ w)

include hw

theorem invalid_toNat : ((cInvalidHandle w).setWidth 32).toNat = 2 ^ w - 1 := by
  have hpow : 2 ^ w ≤ 2 ^ 32 := Nat.pow_le_pow_right (by omega) hw
  have hpos : 0 < 2 ^ w := Nat.two_pow_pos w
  rw [cInvalidHandle, BitVec.toNat_setWidth, BitVec.toNat_allOnes, Nat.mod_eq_of_lt]
  omega

include hCount

theorem freeList_cleared_from {i m : ℕ} (him : i + (m + 1) = Count) :
    FreeList (w := w) (cleared Count).m_handle_array (BitVec.ofNat 32 i) (List.range' i (m + 1)) := by
  have hpow : 2 ^ w ≤ 2 ^ 32 := Nat.pow_le_pow_right (by omega) hw
  have hnat : ∀ j < Count, (BitVec.ofNat 32 j).toNat = j := by
    intro j hj
    rw [BitVec.toNat_ofNat]
    apply Nat.mod_eq_of_lt
    omega
  have hvalid : ∀ j < Count, BitVec.ofNat 32 j ≠ (cInvalidHandle w).setWidth 32 := by
    intro j hj heq
    have := congrArg BitVec.toNat heq
    rw [hnat j hj, invalid_toNat hw] at this
    omega
  induction m generalizing i with
  | zero =>
    refine ⟨hvalid i (by omega), hnat i (by omega), by omega, ?_⟩
    have hlast : ¬i + 1 < Count := by omega
    simp only [cleared, if_neg hlast]
    rfl
  | succ m ih =>
    rw [List.range'_succ]
    refine ⟨hvalid i (by omega), hnat i (by omega), by omega, ?_⟩
    have hnext : ((cleared Count : FixedAtomicIndexAllocator w).m_handle_array i).setWidth 32 =
        BitVec.ofNat 32 (i + 1) := by
      have hlt : i + 1 < Count := by omega
      simp only [cleared, if_pos hlt]
      apply BitVec.eq_of_toNat_eq
      rw [BitVec.toNat_setWidth, BitVec.toNat_ofNat, hnat _ hlt, Nat.mod_eq_of_lt (by omega),
        Nat.mod_eq_of_lt (by omega)]
    rw [hnext]
    exact ih (by omega)

theorem freeList_cleared (hpos : 0 < Count) :
    FreeList (w := w) (cleared Count).m_handle_array 0 (List.range Count) := by
  obtain ⟨m, rfl⟩ := Nat.exists_eq_succ_of_ne_zero (Nat.pos_iff_ne_zero.mp hpos)
  rw [List.range_eq_range']
  exact freeList_cleared_from hw hCount (Nat.zero_add (m + 1))

end Cleared

variable {t : FixedAtomicIndexAllocator w} {i : ℕ} {rest : List ℕ}

theorem FreeList.allocate (h : FreeList t.m_handle_array t.m_next_index (i :: rest)) :
    t.Allocate.1.toNat = i ∧
      FreeList t.Allocate.2.m_handle_array t.Allocate.2.m_next_index rest := by
  obtain ⟨hne, hi, hlt, hrest⟩ := h
  rw [Allocate, if_neg hne]
  constructor
  · rw [BitVec.toNat_setWidth, hi, Nat.mod_eq_of_lt hlt]
  · rw [← hi] at hrest
    exact hrest

theorem FreeList.exists_cons {free : List ℕ} (h : FreeList t.m_handle_array t.m_next_index free)
    (hvalid : t.Allocate.1 ≠ cInvalidHandle w) : ∃ i rest, free = i :: rest := by
  cases free with
  | nil =>
    have hend : t.m_next_index = (cInvalidHandle w).setWidth 32 := h
    rw [Allocate, if_pos hend] at hvalid
    exact absurd rfl hvalid
  | cons i rest => exact ⟨i, rest, rfl⟩

end FixedAtomicIndexAllocator

/-!
`IndexAllocator` and `FixedIndexAllocator`, which follow the end of their list. All state that a run
can reach has its free handles in such a list.
-/

structure IndexAllocator (w : ℕ) where
  m_next_index : BitVec 32
  m_handle_array : ℕ → BitVec w

namespace IndexAllocator

open Calls
open FixedAtomicIndexAllocator (cInvalidHandle FreeList invalid_toNat freeList_cleared)

variable {w : ℕ}

def cleared (Count : ℕ) : IndexAllocator w where
  m_next_index := 0
  m_handle_array := (FixedAtomicIndexAllocator.cleared Count).m_handle_array

def Clear (Count : ℕ) : Option (IndexAllocator w) :=
  if 0 < Count ∧ Count ≤ 2 ^ 32 then some (cleared Count) else none

def cMaxSize : ℕ := 0xffffffff

def Initialize (max_index_count : ℕ) : Option (IndexAllocator w) :=
  if max_index_count < cMaxSize then Clear max_index_count else none

def Allocate (Count : ℕ) (t : IndexAllocator w) : Option (BitVec w × IndexAllocator w) :=
  let handle_value := t.m_next_index
  if handle_value.toNat < Count then
    some (handle_value.setWidth w,
      { t with m_next_index := (t.m_handle_array handle_value.toNat).setWidth 32 })
  else none

def Free (Count : ℕ) (t : IndexAllocator w) (index : BitVec w) : Option (IndexAllocator w) :=
  if index.toNat < Count then
    some
      { m_next_index := index.setWidth 32
        m_handle_array := Function.update t.m_handle_array index.toNat (t.m_next_index.setWidth w) }
  else none

def allocates (Count : ℕ) : ℕ → IndexAllocator w → Option (List (BitVec w))
  | 0, _ => some []
  | k + 1, t => (t.Allocate Count).bind fun r => (allocates Count k r.2).map (r.1 :: ·)

inductive Call (w : ℕ)
  | Allocate
  | Free (index : BitVec w)

structure State (w : ℕ) where
  t : IndexAllocator w
  live : List (BitVec w)
  freed : List (BitVec w)

def State.call (Count : ℕ) (s : State w) : Call w → State w
  | .Allocate =>
    match s.t.Allocate Count with
    | some (index, t) => ⟨t, index :: s.live, s.freed.filter (· ≠ index)⟩
    | none => s
  | .Free index =>
    match s.t.Free Count index with
    | some t => ⟨t, s.live.erase index, index :: s.freed⟩
    | none => s

structure State.Right (Count : ℕ) (s : State w) : Prop where
  nodup : s.live.Nodup
  below : ∀ index ∈ s.live, index.toNat < Count
  again : ∀ index ∈ s.freed, ∃ k indices, allocates Count k s.t = some indices ∧ index ∈ indices

def Answered (Count : ℕ) (s : State w) : Call w → Prop
  | .Allocate => ∃ index t, s.t.Allocate Count = some (index, t) ∧
      (index = cInvalidHandle w ↔ s.live.length = Count)
  | .Free index => ∃ t, s.t.Free Count index = some t

def Used (s : State w) : Call w → Prop
  | .Allocate => True
  | .Free index => index ∈ s.live

def Met (Count : ℕ) (s : State w) : Call w → Prop
  | .Allocate => s.live.length < min Count (2 ^ w - 1)
  | .Free _ => True

def State.start (Count : ℕ) : State w := ⟨cleared Count, [], []⟩

section FreeLists

variable {array array' : ℕ → BitVec w} {next : BitVec 32} {free : List ℕ}

theorem freeList_congr (h : FreeList array next free) (heq : ∀ i ∈ free, array' i = array i) :
    FreeList array' next free := by
  induction free generalizing next with
  | nil => exact h
  | cons i rest ih =>
    obtain ⟨hne, hnext, hi, hrest⟩ := h
    refine ⟨hne, hnext, hi, ?_⟩
    rw [heq i List.mem_cons_self]
    exact ih hrest fun j hj => heq j (List.mem_cons_of_mem i hj)

theorem freeList_start (hw : w ≤ 32) {Count : ℕ} (hpos : 0 < min Count (2 ^ w - 1)) :
    FreeList (w := w) (cleared Count).m_handle_array 0 (List.range (min Count (2 ^ w - 1))) := by
  apply freeList_congr (freeList_cleared hw (by omega) hpos)
  intro i hi
  rw [List.mem_range] at hi
  show (if i + 1 < Count then BitVec.ofNat w (i + 1) else cInvalidHandle w) =
    if i + 1 < min Count (2 ^ w - 1) then BitVec.ofNat w (i + 1) else cInvalidHandle w
  by_cases hlt : i + 1 < min Count (2 ^ w - 1)
  · rw [if_pos hlt, if_pos (by omega)]
  · rw [if_neg hlt]
    by_cases hmore : i + 1 < Count
    · rw [if_pos hmore]
      apply BitVec.eq_of_toNat_eq
      rw [BitVec.toNat_ofNat, cInvalidHandle, BitVec.toNat_allOnes,
        show i + 1 = 2 ^ w - 1 by omega, Nat.mod_eq_of_lt (by omega)]
    · rw [if_neg hmore]

end FreeLists

structure State.Inv (Count : ℕ) (s : State w) (free : List ℕ) : Prop where
  list : FreeList s.t.m_handle_array s.t.m_next_index free
  perm : (free ++ s.live.map BitVec.toNat).Perm (List.range (min Count (2 ^ w - 1)))
  freed : ∀ index ∈ s.freed, index.toNat ∈ free

namespace State.Inv

variable {Count : ℕ} {s : State w} {free : List ℕ}

theorem length (h : s.Inv Count free) :
    free.length + s.live.length = min Count (2 ^ w - 1) := by
  have hlength := h.perm.length_eq
  rw [List.length_append, List.length_map, List.length_range] at hlength
  exact hlength

theorem below (h : s.Inv Count free) {i : ℕ} (hi : i ∈ free ∨ i ∈ s.live.map BitVec.toNat) :
    i < min Count (2 ^ w - 1) :=
  List.mem_range.mp (h.perm.subset (List.mem_append.mpr hi))

theorem nodup (h : s.Inv Count free) : (free ++ s.live.map BitVec.toNat).Nodup :=
  h.perm.nodup_iff.mpr List.nodup_range

theorem live_below (h : s.Inv Count free) {index : BitVec w} (hlive : index ∈ s.live) :
    index.toNat < min Count (2 ^ w - 1) :=
  h.below (Or.inr (List.mem_map_of_mem hlive))

end State.Inv

variable {Count : ℕ}

theorem allocate_cons {t : IndexAllocator w} {i : ℕ} {rest : List ℕ}
    (h : FreeList t.m_handle_array t.m_next_index (i :: rest)) (hi : i < Count) :
    ∃ t', t.Allocate Count = some (BitVec.ofNat w i, t') ∧
      FreeList t'.m_handle_array t'.m_next_index rest := by
  obtain ⟨-, hnext, hlt, hrest⟩ := h
  refine ⟨{ t with m_next_index := (t.m_handle_array i).setWidth 32 }, ?_, hrest⟩
  have hindex : t.m_next_index.setWidth w = BitVec.ofNat w i := by
    apply BitVec.eq_of_toNat_eq
    rw [BitVec.toNat_setWidth, BitVec.toNat_ofNat, hnext]
  unfold Allocate
  dsimp only
  rw [hnext, if_pos hi, hindex]

theorem allocates_eq {t : IndexAllocator w} {free : List ℕ}
    (h : FreeList t.m_handle_array t.m_next_index free) (hbelow : ∀ i ∈ free, i < Count) :
    allocates Count free.length t = some (free.map (BitVec.ofNat w)) := by
  induction free generalizing t with
  | nil => rfl
  | cons i rest ih =>
    obtain ⟨t', hallocate, hrest⟩ := allocate_cons h (hbelow i List.mem_cons_self)
    rw [List.length_cons, allocates, hallocate, Option.bind_some,
      ih hrest fun j hj => hbelow j (List.mem_cons_of_mem i hj)]
    rfl

theorem State.Inv.right {s : State w} {free : List ℕ} (h : s.Inv Count free) : s.Right Count where
  nodup := List.Nodup.of_map _ (List.nodup_append.mp h.nodup).2.1
  below index hlive := by
    have hlt := h.live_below hlive
    omega
  again index hfreed := by
    refine ⟨free.length, _, allocates_eq h.list ?_, ?_⟩
    · intro i hi
      have hlt := h.below (Or.inl hi)
      omega
    · apply List.mem_map.mpr
      refine ⟨index.toNat, h.freed index hfreed, ?_⟩
      rw [BitVec.ofNat_toNat, BitVec.setWidth_eq]

theorem State.start_inv (hw : w ≤ 32) (hpos : 0 < min Count (2 ^ w - 1)) :
    (State.start Count : State w).Inv Count (List.range (min Count (2 ^ w - 1))) where
  list := freeList_start hw hpos
  perm := by
    rw [State.start, List.map_nil, List.append_nil]
  freed _ h := by cases h

theorem setWidth_start (hw : w ≤ 32) {array : ℕ → BitVec w} {next : BitVec 32} {free : List ℕ}
    (h : FreeList array next free) : (next.setWidth w).setWidth 32 = next := by
  have hlt : next.toNat < 2 ^ w := by
    cases free with
    | nil =>
      have hpos := Nat.two_pow_pos w
      rw [show next = _ from h, invalid_toNat hw]
      omega
    | cons i rest =>
      obtain ⟨-, hnext, hi, -⟩ := h
      omega
  apply BitVec.eq_of_toNat_eq
  rw [BitVec.toNat_setWidth, BitVec.toNat_setWidth, Nat.mod_eq_of_lt hlt,
    Nat.mod_eq_of_lt next.isLt]

theorem toNat_setWidth_index (hw : w ≤ 32) (index : BitVec w) :
    (index.setWidth 32).toNat = index.toNat := by
  rw [BitVec.toNat_setWidth]
  exact Nat.mod_eq_of_lt (Nat.lt_of_lt_of_le index.isLt (Nat.pow_le_pow_right (by omega) hw))

theorem State.Inv.allocate {s : State w} {free : List ℕ} (h : s.Inv Count free)
    (hmet : s.live.length < min Count (2 ^ w - 1)) :
    Answered Count s .Allocate ∧ ∃ free', (s.call Count .Allocate).Inv Count free' := by
  have hlength := h.length
  cases free with
  | nil =>
    rw [List.length_nil] at hlength
    omega
  | cons i rest =>
    have hi := h.below (Or.inl List.mem_cons_self)
    obtain ⟨t, hallocate, hrest⟩ := allocate_cons h.list (Nat.lt_of_lt_of_le hi (Nat.min_le_left Count _))
    have hindex : (BitVec.ofNat w i).toNat = i := by
      rw [BitVec.toNat_ofNat, Nat.mod_eq_of_lt (by omega)]
    refine ⟨⟨_, t, hallocate, ?_⟩, rest, ?_⟩
    · constructor
      · intro heq
        have hvalue := congrArg BitVec.toNat heq
        rw [hindex, cInvalidHandle, BitVec.toNat_allOnes] at hvalue
        omega
      · intro hall
        omega
    · simp only [State.call, hallocate]
      constructor
      · exact hrest
      · rw [List.map_cons, hindex]
        exact List.perm_middle.trans h.perm
      · intro index hfreed
        obtain ⟨hmem, hne⟩ := List.mem_filter.mp hfreed
        apply (List.mem_cons.mp (h.freed index hmem)).resolve_left
        intro heq
        apply of_decide_eq_true hne
        apply BitVec.eq_of_toNat_eq
        rw [hindex, heq]

theorem State.Inv.free {s : State w} {free : List ℕ} (hw : w ≤ 32) (h : s.Inv Count free)
    {index : BitVec w} (hlive : index ∈ s.live) :
    Answered Count s (.Free index) ∧ (s.call Count (.Free index)).Inv Count (index.toNat :: free) := by
  have hlt := h.live_below hlive
  have hfree : s.t.Free Count index = some
      { m_next_index := index.setWidth 32
        m_handle_array :=
          Function.update s.t.m_handle_array index.toNat (s.t.m_next_index.setWidth w) } :=
    if_pos (by omega)
  have hvalue := toNat_setWidth_index hw index
  refine ⟨⟨_, hfree⟩, ?_⟩
  simp only [State.call, hfree]
  constructor
  · refine ⟨?_, hvalue, by omega, ?_⟩
    · intro heq
      have hinvalid := invalid_toNat hw
      rw [← heq, hvalue] at hinvalid
      omega
    · dsimp only
      rw [Function.update_self, setWidth_start hw h.list]
      apply freeList_congr h.list
      intro i hi
      have hne : i ≠ index.toNat := by
        rintro rfl
        exact (List.nodup_append.mp h.nodup).2.2 _ hi _ (List.mem_map_of_mem hlive) rfl
      exact Function.update_of_ne hne _ _
  · have hlist : (s.live.map BitVec.toNat).Perm
        (index.toNat :: (s.live.erase index).map BitVec.toNat) :=
      (List.perm_cons_erase hlive).map BitVec.toNat
    exact (List.perm_middle.symm.trans (hlist.symm.append_left free)).trans h.perm
  · intro other hfreed
    rcases List.mem_cons.mp hfreed with rfl | hfreed
    · exact List.mem_cons_self
    · exact List.mem_cons_of_mem _ (h.freed other hfreed)

theorem State.Inv.not_answered (hw : w ≤ 32) {s : State w} {free : List ℕ} (h : s.Inv Count free)
    (hnot : ¬s.live.length < min Count (2 ^ w - 1)) : ¬Answered Count s .Allocate := by
  have hlength := h.length
  rintro ⟨index, t, hallocate, hiff⟩
  cases free with
  | cons i rest =>
    rw [List.length_cons] at hlength
    omega
  | nil =>
    rw [List.length_nil] at hlength
    have hnext : s.t.m_next_index = (cInvalidHandle w).setWidth 32 := h.list
    have hvalue := invalid_toNat hw
    have hpow := Nat.two_pow_pos w
    unfold Allocate at hallocate
    dsimp only at hallocate
    rw [hnext, hvalue] at hallocate
    split at hallocate
    · rename_i hin
      have hindex : ((cInvalidHandle w).setWidth 32).setWidth w = index :=
        congrArg Prod.fst (Option.some.inj hallocate)
      have hsame : index = cInvalidHandle w := by
        rw [← hindex]
        apply BitVec.eq_of_toNat_eq
        rw [BitVec.toNat_setWidth, hvalue, cInvalidHandle, BitVec.toNat_allOnes,
          Nat.mod_eq_of_lt (by omega)]
      have hall := hiff.mp hsame
      omega
    · cases hallocate

theorem run_iff (hw : w ≤ 32) (hpos : 0 < w) {cs : List (Call w)} (hCount : 0 < Count)
    (hused : EachIn (State.call Count) Used (State.start Count : State w) cs) :
    Throughout (State.call Count) (State.Right Count) (Answered Count)
        (State.start Count : State w) cs ↔
      EachIn (State.call Count) (Met Count) (State.start Count : State w) cs := by
  have hright : ∀ s : State w, (∃ free, s.Inv Count free) → s.Right Count := by
    rintro s ⟨free, h⟩
    exact h.right
  have htwo : 2 ^ 1 ≤ 2 ^ w := Nat.pow_le_pow_right (by omega) hpos
  refine throughout_iff hright ?_ ?_ ⟨_, State.start_inv hw (by omega)⟩ hused
  · rintro s c ⟨free, h⟩ hused hmet
    cases c with
    | Allocate => exact h.allocate hmet
    | Free index =>
      obtain ⟨hanswered, hinv⟩ := h.free hw hused
      exact ⟨hanswered, _, hinv⟩
  · rintro s c ⟨free, h⟩ - hanswered -
    cases c with
    | Allocate =>
      by_contra hnot
      exact h.not_answered hw hnot hanswered
    | Free index => trivial

def Correct (Count : ℕ) (initialised : Option (IndexAllocator w)) (cs : List (Call w)) : Prop :=
  ∃ t, initialised = some t ∧
    Throughout (State.call Count) (State.Right Count) (Answered Count) ⟨t, [], []⟩ cs

theorem correct_clear_iff (hw : w ≤ 32) (hpos : 0 < w) {cs : List (Call w)}
    (hused : EachIn (State.call Count) Used (State.start Count : State w) cs) :
    Correct Count (Clear Count) cs ↔ (0 < Count ∧ Count ≤ 2 ^ 32) ∧
      EachIn (State.call Count) (Met Count) (State.start Count : State w) cs := by
  constructor
  · rintro ⟨t, hclear, hright⟩
    unfold Clear at hclear
    split at hclear
    · rename_i hCount
      obtain rfl := Option.some.inj hclear
      exact ⟨hCount, (run_iff hw hpos hCount.1 hused).mp hright⟩
    · cases hclear
  · rintro ⟨hCount, hmet⟩
    exact ⟨_, if_pos hCount, (run_iff hw hpos hCount.1 hused).mpr hmet⟩

end IndexAllocator

end Awn
