import Awn.IndexAllocator.Plain

/-!
`AtomicIndexAllocator` and `FixedAtomicIndexAllocator` with all their threads. A step is one atomic
operation on the start of the list, or one access of the array.
-/

namespace Awn

namespace FixedAtomicIndexAllocator

variable {w : ℕ}

def Clear (Count : ℕ) : Option (FixedAtomicIndexAllocator w) :=
  if 0 < Count then some (cleared Count) else none

def Initialize (max_index_count : ℕ) : Option (FixedAtomicIndexAllocator w) :=
  if max_index_count < (cInvalidHandle w).toNat then Clear max_index_count else none

inductive Pc (w : ℕ)
  | idle
  | allocateLoop (handle_value : BitVec 32)
  | allocateExchange (handle_value : BitVec 32) (next : BitVec w)
  | freeLoad (index : BitVec w)
  | freeStore (index : BitVec w) (handle : BitVec 32)
  | freeRead (index : BitVec w) (handle : BitVec 32)
  | freeExchange (index : BitVec w) (handle : BitVec 32) (next : BitVec w)

inductive Event (w : ℕ)
  | beginAllocate
  | beginFree (index : BitVec w)
  | inside
  | allocated (index : BitVec w)
  | freed

structure Machine (Thread : Type*) (w : ℕ) where
  t : FixedAtomicIndexAllocator w
  pc : Thread → Pc w
  live : List (BitVec w)

variable {Thread : Type*} [DecidableEq Thread]

def Machine.goto (s : Machine Thread w) (thread : Thread) (pc : Pc w) : Machine Thread w :=
  { s with pc := Function.update s.pc thread pc }

inductive Step (Count : ℕ) (s : Machine Thread w) (thread : Thread) :
    Event w → Machine Thread w → Prop
  | beginAllocate : s.pc thread = .idle →
      Step Count s thread .beginAllocate (s.goto thread (.allocateLoop s.t.m_next_index))
  | none {handle_value : BitVec 32} : s.pc thread = .allocateLoop handle_value →
      handle_value = (cInvalidHandle w).setWidth 32 →
      Step Count s thread (.allocated (cInvalidHandle w)) (s.goto thread .idle)
  | read {handle_value : BitVec 32} : s.pc thread = .allocateLoop handle_value →
      handle_value ≠ (cInvalidHandle w).setWidth 32 → handle_value.toNat < Count →
      Step Count s thread .inside
        (s.goto thread (.allocateExchange handle_value (s.t.m_handle_array handle_value.toNat)))
  | exchange {handle_value : BitVec 32} {next : BitVec w} :
      s.pc thread = .allocateExchange handle_value next → s.t.m_next_index = handle_value →
      Step Count s thread (.allocated (handle_value.setWidth w))
        { s.goto thread .idle with
          t := { s.t with m_next_index := next.setWidth 32 }
          live := handle_value.setWidth w :: s.live }
  | exchangeAgain {handle_value : BitVec 32} {next : BitVec w} :
      s.pc thread = .allocateExchange handle_value next → s.t.m_next_index ≠ handle_value →
      Step Count s thread .inside (s.goto thread (.allocateLoop s.t.m_next_index))
  | beginFree {index : BitVec w} : s.pc thread = .idle → index ∈ s.live →
      Step Count s thread (.beginFree index)
        { s.goto thread (.freeLoad index) with live := s.live.erase index }
  | freeLoad {index : BitVec w} : s.pc thread = .freeLoad index →
      Step Count s thread .inside (s.goto thread (.freeStore index s.t.m_next_index))
  | freeStore {index : BitVec w} {handle : BitVec 32} : s.pc thread = .freeStore index handle →
      index.toNat < Count →
      Step Count s thread .inside
        { s.goto thread (.freeRead index handle) with
          t := { s.t with
            m_handle_array :=
              Function.update s.t.m_handle_array index.toNat (handle.setWidth w) } }
  | freeRead {index : BitVec w} {handle : BitVec 32} : s.pc thread = .freeRead index handle →
      handle.toNat < Count →
      Step Count s thread .inside
        (s.goto thread (.freeExchange index handle (s.t.m_handle_array handle.toNat)))
  | freeExchange {index : BitVec w} {handle : BitVec 32} {next : BitVec w} :
      s.pc thread = .freeExchange index handle next → s.t.m_next_index = handle →
      Step Count s thread .freed
        { s.goto thread .idle with t := { s.t with m_next_index := next.setWidth 32 } }
  | freeAgain {index : BitVec w} {handle : BitVec 32} {next : BitVec w} :
      s.pc thread = .freeExchange index handle next → s.t.m_next_index ≠ handle →
      Step Count s thread .inside (s.goto thread (.freeLoad index))

inductive Run (Count : ℕ) (t : FixedAtomicIndexAllocator w) :
    Machine Thread w → List (Thread × Event w) → Prop
  | start : Run Count t ⟨t, fun _ => .idle, []⟩ []
  | step {s s' : Machine Thread w} {trace : List (Thread × Event w)} {thread : Thread}
      {event : Event w} : Run Count t s trace → Step Count s thread event s' →
      Run Count t s' ((thread, event) :: trace)

structure Machine.Right (Count : ℕ) (s : Machine Thread w) : Prop where
  nodup : s.live.Nodup
  below : ∀ index ∈ s.live, index.toNat < Count
  invalid_iff : s.t.m_next_index = (cInvalidHandle w).setWidth 32 ↔ s.live.length = Count
  reported : ∀ thread, s.pc thread = .allocateLoop ((cInvalidHandle w).setWidth 32) →
    s.live.length = Count
  reads : ∀ thread handle_value, s.pc thread = .allocateLoop handle_value →
    handle_value = (cInvalidHandle w).setWidth 32 ∨ handle_value.toNat < Count

def IsFree : Event w → Prop
  | .beginFree _ => True
  | _ => False

def Pc.Allocating (Count : ℕ) (live : List (BitVec w)) : Pc w → Prop
  | .idle => True
  | .allocateLoop handle_value =>
    handle_value = (cInvalidHandle w).setWidth 32 ∧ live.length = Count ∨
      handle_value ≠ (cInvalidHandle w).setWidth 32 ∧ handle_value.toNat < Count
  | .allocateExchange handle_value next => handle_value ≠ (cInvalidHandle w).setWidth 32 ∧
      handle_value.toNat < Count ∧
        next = (cleared Count : FixedAtomicIndexAllocator w).m_handle_array handle_value.toNat
  | _ => False

structure Machine.Inv (Count : ℕ) (s : Machine Thread w) : Prop where
  array : s.t.m_handle_array = (cleared Count : FixedAtomicIndexAllocator w).m_handle_array
  list : FreeList s.t.m_handle_array s.t.m_next_index
    (List.range' s.live.length (Count - s.live.length))
  live : s.live.map BitVec.toNat = (List.range s.live.length).reverse
  le : s.live.length ≤ Count
  pc : ∀ thread, (s.pc thread).Allocating Count s.live

section Cleared

variable {Count : ℕ} {s s' : Machine Thread w} {thread : Thread} {event : Event w}

omit [DecidableEq Thread] in
theorem Machine.Inv.invalid_iff (h : s.Inv Count) :
    s.t.m_next_index = (cInvalidHandle w).setWidth 32 ↔ s.live.length = Count := by
  have hlist := h.list
  have hle := h.le
  constructor
  · intro hinvalid
    by_contra hne
    obtain ⟨m, hm⟩ : ∃ m, Count - s.live.length = m + 1 :=
      Nat.exists_eq_succ_of_ne_zero (by omega)
    rw [hm, List.range'_succ] at hlist
    exact hlist.1 hinvalid
  · intro hall
    rw [hall, Nat.sub_self] at hlist
    exact hlist

omit [DecidableEq Thread] in
theorem Machine.Inv.right (h : s.Inv Count) : s.Right Count where
  nodup := by
    apply List.Nodup.of_map BitVec.toNat
    rw [h.live]
    exact List.nodup_reverse.mpr List.nodup_range
  below index hlive := by
    have hmem : index.toNat ∈ s.live.map BitVec.toNat := List.mem_map_of_mem hlive
    rw [h.live, List.mem_reverse, List.mem_range] at hmem
    exact Nat.lt_of_lt_of_le hmem h.le
  invalid_iff := h.invalid_iff
  reported thread hpc := by
    have hthread := h.pc thread
    rw [hpc] at hthread
    rcases hthread with ⟨-, hall⟩ | ⟨hne, -⟩
    · exact hall
    · exact absurd rfl hne
  reads thread handle_value hpc := by
    have hthread := h.pc thread
    rw [hpc] at hthread
    rcases hthread with ⟨hinvalid, -⟩ | ⟨-, hlt⟩
    · exact Or.inl hinvalid
    · exact Or.inr hlt

theorem Machine.Inv.goto (h : s.Inv Count) {pc : Pc w} (hpc : pc.Allocating Count s.live) :
    (s.goto thread pc).Inv Count where
  array := h.array
  list := h.list
  live := h.live
  le := h.le
  pc other := by
    show (Function.update s.pc thread pc other).Allocating Count s.live
    by_cases hother : other = thread
    · rw [hother, Function.update_self]
      exact hpc
    · rw [Function.update_of_ne hother]
      exact h.pc other

omit [DecidableEq Thread] in
theorem Machine.Inv.load (h : s.Inv Count) :
    (Pc.allocateLoop s.t.m_next_index).Allocating Count s.live := by
  by_cases hinvalid : s.t.m_next_index = (cInvalidHandle w).setWidth 32
  · exact Or.inl ⟨hinvalid, h.invalid_iff.mp hinvalid⟩
  · right
    refine ⟨hinvalid, ?_⟩
    have hlist := h.list
    have hle := h.le
    obtain ⟨m, hm⟩ : ∃ m, Count - s.live.length = m + 1 := by
      apply Nat.exists_eq_succ_of_ne_zero
      intro hzero
      exact hinvalid (h.invalid_iff.mpr (by omega))
    rw [hm, List.range'_succ] at hlist
    rw [hlist.2.1]
    omega

theorem Machine.Inv.step (h : s.Inv Count) (hstep : Step Count s thread event s')
    (hfree : ¬IsFree event) : s'.Inv Count := by
  have hthread := h.pc thread
  cases hstep with
  | beginAllocate hpc => exact h.goto h.load
  | none hpc hinvalid => exact h.goto trivial
  | read hpc hne hlt =>
    apply h.goto
    exact ⟨hne, hlt, by rw [h.array]⟩
  | exchangeAgain hpc hne => exact h.goto h.load
  | @exchange handle_value next hpc hsame =>
    rw [hpc] at hthread
    obtain ⟨hne, hlt, rfl⟩ := hthread
    have hlist := h.list
    have hle := h.le
    obtain ⟨m, hm⟩ : ∃ m, Count - s.live.length = m + 1 := by
      apply Nat.exists_eq_succ_of_ne_zero
      intro hzero
      rw [← hsame] at hne
      exact hne (h.invalid_iff.mpr (by omega))
    rw [hm, List.range'_succ] at hlist
    obtain ⟨-, hstart, hsmall, hrest⟩ := hlist
    rw [hsame] at hstart
    have hindex : (handle_value.setWidth w).toNat = s.live.length := by
      rw [BitVec.toNat_setWidth, hstart, Nat.mod_eq_of_lt hsmall]
    constructor
    · exact h.array
    · show FreeList s.t.m_handle_array _ (List.range' (s.live.length + 1)
        (Count - (s.live.length + 1)))
      rw [show Count - (s.live.length + 1) = m by omega, hstart, ← h.array]
      exact hrest
    · show ((handle_value.setWidth w).toNat :: s.live.map BitVec.toNat) =
        (List.range (s.live.length + 1)).reverse
      rw [hindex, h.live, List.range_succ, List.reverse_append, List.reverse_singleton]
      rfl
    · show s.live.length + 1 ≤ Count
      omega
    · intro other
      show (Function.update s.pc thread .idle other).Allocating Count _
      by_cases hother : other = thread
      · rw [hother, Function.update_self]
        trivial
      · rw [Function.update_of_ne hother]
        have hpc' := h.pc other
        cases hvalue : s.pc other with
        | idle => trivial
        | allocateLoop value =>
          rw [hvalue] at hpc'
          rcases hpc' with ⟨-, hall⟩ | hread
          · omega
          · exact Or.inr hread
        | allocateExchange value next =>
          rw [hvalue] at hpc'
          exact hpc'
        | freeLoad | freeStore | freeRead | freeExchange =>
          rw [hvalue] at hpc'
          exact hpc'
  | beginFree => exact absurd trivial hfree
  | freeLoad hpc | freeStore hpc | freeRead hpc | freeExchange hpc | freeAgain hpc =>
    rw [hpc] at hthread
    exact hthread.elim

omit [DecidableEq Thread] in
theorem Machine.start_inv (hw : w ≤ 32) (hpos : 0 < Count) (hCount : Count < 2 ^ w) :
    (⟨cleared Count, fun _ => .idle, []⟩ : Machine Thread w).Inv Count where
  array := rfl
  list := by
    have hlist := freeList_cleared (w := w) hw hCount hpos
    rw [List.range_eq_range'] at hlist
    exact hlist
  live := rfl
  le := Nat.zero_le _
  pc _ := trivial

theorem Run.inv (hw : w ≤ 32) (hpos : 0 < Count) (hCount : Count < 2 ^ w)
    {trace : List (Thread × Event w)} (h : Run Count (cleared Count) s trace)
    (hfree : ∀ e ∈ trace, ¬IsFree e.2) : s.Inv Count := by
  induction h with
  | start => exact Machine.start_inv hw hpos hCount
  | step _ hstep ih =>
    have hinv := ih fun e he => hfree e (List.mem_cons_of_mem _ he)
    exact hinv.step hstep (hfree _ List.mem_cons_self)

end Cleared

end FixedAtomicIndexAllocator

open Calls

/-- The allocators without atomic operations over all sequences of calls, and those with them over
all interleavings of allocations. -/
theorem indexAllocators_right {w : ℕ} (hw : w ≤ 32) (hpos : 0 < w) (Thread : Type*)
    [DecidableEq Thread] :
    (∀ (Count : ℕ) (cs : List (IndexAllocator.Call w)),
      EachIn (IndexAllocator.State.call Count) IndexAllocator.Used (IndexAllocator.State.start Count)
        cs →
      (IndexAllocator.Correct Count (IndexAllocator.Clear Count) cs ↔
        (0 < Count ∧ Count ≤ 2 ^ 32) ∧
          EachIn (IndexAllocator.State.call Count) (IndexAllocator.Met Count)
            (IndexAllocator.State.start Count) cs)) ∧
    (∀ max_index_count < IndexAllocator.cMaxSize, ∀ cs : List (IndexAllocator.Call w),
      EachIn (IndexAllocator.State.call max_index_count) IndexAllocator.Used
        (IndexAllocator.State.start max_index_count) cs →
      (IndexAllocator.Correct max_index_count (IndexAllocator.Initialize max_index_count) cs ↔
        0 < max_index_count ∧
          EachIn (IndexAllocator.State.call max_index_count) (IndexAllocator.Met max_index_count)
            (IndexAllocator.State.start max_index_count) cs)) ∧
    ∀ Count < 2 ^ w - 1, 0 < Count → ∃ t : FixedAtomicIndexAllocator w,
      FixedAtomicIndexAllocator.Clear Count = some t ∧
        FixedAtomicIndexAllocator.Initialize Count = some t ∧
          ∀ (s : FixedAtomicIndexAllocator.Machine Thread w)
            (trace : List (Thread × FixedAtomicIndexAllocator.Event w)),
            FixedAtomicIndexAllocator.Run Count t s trace →
              (∀ e ∈ trace, ¬FixedAtomicIndexAllocator.IsFree e.2) → s.Right Count := by
  refine ⟨?_, ?_, ?_⟩
  · intro Count cs hused
    exact IndexAllocator.correct_clear_iff hw hpos hused
  · intro max_index_count hmax cs hused
    have hbound : max_index_count ≤ 2 ^ 32 := by
      unfold IndexAllocator.cMaxSize at hmax
      omega
    rw [IndexAllocator.Initialize, if_pos hmax, IndexAllocator.correct_clear_iff hw hpos hused,
      and_iff_left hbound]
  · intro Count hCount hsome
    have hmax : Count < (FixedAtomicIndexAllocator.cInvalidHandle w).toNat := by
      rw [FixedAtomicIndexAllocator.cInvalidHandle, BitVec.toNat_allOnes]
      exact hCount
    refine ⟨_, if_pos hsome, (if_pos hmax).trans (if_pos hsome), ?_⟩
    intro s trace hrun hfree
    exact (hrun.inv hw hsome (by omega) hfree).right

theorem indexAllocators_right_byte :
    IndexAllocator.Correct 1 (IndexAllocator.Clear 1)
        [.Allocate, .Free (0 : BitVec 8), .Allocate] ∧
      IndexAllocator.Correct 1 (IndexAllocator.Initialize 1)
        [.Allocate, .Free (0 : BitVec 8), .Allocate] ∧
      ∃ t : FixedAtomicIndexAllocator 8, FixedAtomicIndexAllocator.Clear 1 = some t ∧
        ∃ s : FixedAtomicIndexAllocator.Machine Unit 8,
          FixedAtomicIndexAllocator.Run 1 t s [((), .beginAllocate)] ∧ s.Right 1 := by
  have hused : EachIn (IndexAllocator.State.call 1) IndexAllocator.Used
      (IndexAllocator.State.start 1) [.Allocate, .Free (0 : BitVec 8), .Allocate] := by
    refine ⟨trivial, trivial, trivial, ?_, trivial, trivial, trivial⟩
    exact List.mem_cons_self
  have hmet : EachIn (IndexAllocator.State.call 1) (IndexAllocator.Met 1)
      (IndexAllocator.State.start 1) [.Allocate, .Free (0 : BitVec 8), .Allocate] := by
    refine ⟨trivial, ?_, trivial, trivial, trivial, ?_, trivial⟩
    · show 0 < min 1 (2 ^ 8 - 1)
      decide
    · show 0 < min 1 (2 ^ 8 - 1)
      decide
  obtain ⟨hclear, hheap, hatomic⟩ :=
    indexAllocators_right (w := 8) (by decide) (by decide) Unit
  refine ⟨(hclear 1 _ hused).mpr ⟨by decide, hmet⟩,
    (hheap 1 (by decide) _ hused).mpr ⟨by decide, hmet⟩, ?_⟩
  obtain ⟨t, ht, -, hright⟩ := hatomic 1 (by decide) (by decide)
  have hrun : FixedAtomicIndexAllocator.Run 1 t
      (FixedAtomicIndexAllocator.Machine.goto ⟨t, fun _ => .idle, []⟩ ()
        (.allocateLoop t.m_next_index)) [((), .beginAllocate)] := .step .start (.beginAllocate rfl)
  refine ⟨t, ht, _, hrun, hright _ _ hrun ?_⟩
  intro e he
  obtain rfl := List.mem_singleton.mp he
  exact id

theorem indexAllocators_not_right :
    ¬IndexAllocator.Correct 1 (IndexAllocator.Clear 1 : Option (IndexAllocator 8))
        [.Allocate, .Allocate] ∧
      ∃ (s : FixedAtomicIndexAllocator.Machine Unit 8)
        (trace : List (Unit × FixedAtomicIndexAllocator.Event 8)),
        FixedAtomicIndexAllocator.Run 2 (FixedAtomicIndexAllocator.cleared 2) s trace ∧
          ¬s.Right 2 := by
  constructor
  · rintro ⟨t, ht, -, -, -, ⟨index, t', hallocate, -⟩, -⟩
    obtain rfl := Option.some.inj ht
    cases hallocate
  · refine ⟨_, [((), .freed), ((), .inside), ((), .inside), ((), .inside), ((), .beginFree 0),
      ((), .allocated 0), ((), .inside), ((), .beginAllocate)], .step (.step (.step (.step (.step
      (.step (.step (.step .start (.beginAllocate rfl)) (.read rfl ?_ ?_)) (.exchange rfl rfl))
      (.beginFree rfl ?_)) (.freeLoad rfl)) (.freeStore rfl ?_)) (.freeRead rfl ?_))
      (.freeExchange rfl rfl), ?_⟩
    · decide
    · decide
    · exact List.mem_cons_self
    · decide
    · decide
    · intro h
      have hall := h.invalid_iff.mp rfl
      cases hall

end Awn
