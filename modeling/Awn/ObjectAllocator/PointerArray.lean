import Awn.ObjectAllocator.HeapObject

/-! `vp::util::PointerArrayAllocator`, whose live objects are in an array of pointers. -/

namespace Awn

open Calls

structure PointerArrayAllocator extends FreeObjects where
  m_pointer_array : ℕ → BitVec 64
  m_used_count : BitVec 32
  m_max : BitVec 32

namespace PointerArrayAllocator

open FreeObjects (elements element)

def Initialize (size : ℕ) (memory : BitVec 64) (array_size : BitVec 32)
    (word : BitVec 64 → BitVec 64) : Option PointerArrayAllocator :=
  if array_size = 0 ∨ memory = 0 then none
  else some
    { FreeObjects.construct (memory + BitVec.ofNat 64 (8 * array_size.toNat)) size array_size.toNat
        word with
      m_pointer_array := fun _ => 0
      m_used_count := 0
      m_max := array_size }

/-- It asserts that the count is at most the size of the array, and writes behind that there. -/
def PushPointer (pointer : BitVec 64) (a : PointerArrayAllocator) : Option PointerArrayAllocator :=
  if a.m_used_count ≤ a.m_max ∧ a.m_used_count.toNat < a.m_max.toNat then
    some { a with
      m_pointer_array := Function.update a.m_pointer_array a.m_used_count.toNat pointer
      m_used_count := a.m_used_count + 1 }
  else none

def Allocate (constructed : BitVec 64) (a : PointerArrayAllocator) :
    Option (Option (BitVec 64) × PointerArrayAllocator) :=
  match a.toFreeObjects.allocate constructed with
  | (none, objects) => some (none, { a with toFreeObjects := objects })
  | (some allocation, objects) =>
    (PushPointer allocation { a with toFreeObjects := objects }).map fun a => (some allocation, a)

def Free (allocated_object : BitVec 64) (a : PointerArrayAllocator) : PointerArrayAllocator :=
  { a with toFreeObjects := a.toFreeObjects.free allocated_object }

def RemoveLast (a : PointerArrayAllocator) : PointerArrayAllocator :=
  if a.m_used_count = 0 then a
  else
    let new_count := a.m_used_count - 1
    { Free (a.m_pointer_array new_count.toNat) a with
      m_pointer_array := Function.update a.m_pointer_array new_count.toNat 0
      m_used_count := new_count }

def Clear (a : PointerArrayAllocator) : PointerArrayAllocator :=
  { (List.range a.m_used_count.toNat).foldl (fun b i => Free (b.m_pointer_array i) b) a with
    m_used_count := 0 }

inductive Call
  | Allocate (constructed : BitVec 64)
  | RemoveLast
  | Clear
  | write (object value : BitVec 64)

structure State where
  a : PointerArrayAllocator
  live : List (BitVec 64)

def State.call (s : State) : Call → State
  | .Allocate constructed =>
    match s.a.Allocate constructed with
    | some (some x, a) => ⟨a, s.live ++ [x]⟩
    | some (none, a) => ⟨a, s.live⟩
    | none => s
  | .RemoveLast => ⟨s.a.RemoveLast, s.live.dropLast⟩
  | .Clear => ⟨s.a.Clear, []⟩
  | .write object value => ⟨{ s.a with toFreeObjects := s.a.toFreeObjects.write object value }, s.live⟩

def Used (s : State) : Call → Prop
  | .write object _ => object ∈ s.live
  | _ => True

def Right (all : List (BitVec 64)) (s : State) : Prop := FreeObjects.Right Allocate all s.a s.live

def Answered (all : List (BitVec 64)) (s : State) : Call → Prop
  | .Allocate constructed => FreeObjects.Allocates Allocate all s.a s.live constructed
  | _ => True

structure Holds (all : List (BitVec 64)) (stop : BitVec 64) (a : PointerArrayAllocator)
    (live free : List (BitVec 64)) : Prop where
  objects : a.toFreeObjects.Holds all stop live free
  max : a.m_max.toNat = all.length
  used : a.m_used_count.toNat = live.length
  pointers : ∀ i, (hi : i < live.length) → a.m_pointer_array i = live[i]

variable {all : List (BitVec 64)} {stop : BitVec 64} {a : PointerArrayAllocator}
  {live free : List (BitVec 64)}

theorem holds_some (a : PointerArrayAllocator) (live : List (BitVec 64)) (x : BitVec 64)
    (free : List (BitVec 64)) (constructed : BitVec 64) (h : Holds all stop a live (x :: free)) :
    ∃ a', Allocate constructed a = some (some x, a') ∧ Holds all stop a' (live ++ [x]) free := by
  obtain ⟨objects, hallocate, hholds⟩ := h.objects.allocate_cons constructed
  have hlength := h.objects.length
  rw [List.length_cons] at hlength
  have hmax := h.max
  have hused := h.used
  have hroom : a.m_used_count ≤ a.m_max ∧ a.m_used_count.toNat < a.m_max.toNat := by
    constructor
    · rw [BitVec.le_def]
      omega
    · omega
  have hpush : Allocate constructed a = some (some x,
      { toFreeObjects := objects
        m_pointer_array := Function.update a.m_pointer_array a.m_used_count.toNat x
        m_used_count := a.m_used_count + 1
        m_max := a.m_max }) := by
    rw [Allocate, hallocate]
    dsimp only
    rw [PushPointer, if_pos hroom]
    rfl
  refine ⟨_, hpush, ?_⟩
  constructor
  · exact hholds.of_perm (List.perm_append_singleton x live)
  · exact hmax
  · have hone : (1 : BitVec 32).toNat = 1 := rfl
    have hlt := a.m_max.isLt
    show (a.m_used_count + 1).toNat = _
    rw [BitVec.toNat_add, hone, List.length_append, List.length_singleton]
    omega
  · intro i hi
    show Function.update a.m_pointer_array a.m_used_count.toNat x i = _
    rw [hused]
    by_cases hlast : i = live.length
    · subst hlast
      rw [Function.update_self, List.getElem_concat_length]
      rfl
    · rw [List.length_append, List.length_singleton] at hi
      rw [Function.update_of_ne hlast, List.getElem_append_left (by omega)]
      exact h.pointers i (by omega)

theorem holds_end (a : PointerArrayAllocator) (live : List (BitVec 64)) (constructed : BitVec 64)
    (h : Holds all stop a live []) :
    (∃ a', Allocate constructed a = some (none, a')) ↔ stop = 0 := by
  have hstart : a.m_free_list = stop := h.objects.threaded
  unfold Allocate FreeObjects.allocate
  rw [hstart]
  by_cases hstop : stop = 0
  · rw [if_pos hstop]
    exact ⟨fun _ => hstop, fun _ => ⟨_, rfl⟩⟩
  · rw [if_neg hstop]
    constructor
    · rintro ⟨a', heq⟩
      dsimp only at heq
      obtain ⟨_, -, heq⟩ := Option.map_eq_some_iff.mp heq
      cases heq
    · intro hzero
      exact absurd hzero hstop

theorem right_iff {s : State} (h : Holds all stop s.a s.live free) : Right all s ↔ stop = 0 :=
  FreeObjects.right_iff holds_some (fun _ _ _ h => h.objects) holds_end h

theorem Holds.removeLast (h : Holds all stop a live free) :
    ∃ free', Holds all stop a.RemoveLast live.dropLast free' := by
  have hused := h.used
  unfold RemoveLast
  rcases List.eq_nil_or_concat live with rfl | ⟨rest, x, rfl⟩
  · have hzero : a.m_used_count = 0 := BitVec.eq_of_toNat_eq hused
    rw [if_pos hzero]
    exact ⟨free, h⟩
  · rw [List.concat_eq_append] at *
    rw [List.length_append, List.length_singleton] at hused
    have hone : (1 : BitVec 32).toNat = 1 := rfl
    have hne : a.m_used_count ≠ 0 := by
      intro hzero
      have hnat := congrArg BitVec.toNat hzero
      rw [hused] at hnat
      exact Nat.succ_ne_zero _ hnat
    have hnew : (a.m_used_count - 1).toNat = rest.length := by
      rw [BitVec.toNat_sub_of_le (by rw [BitVec.le_def, hone]; omega), hone, hused]
      omega
    have hlast : a.m_pointer_array (a.m_used_count - 1).toNat = x := by
      rw [hnew, h.pointers rest.length (by rw [List.length_append]; exact Nat.lt_succ_self _),
        List.getElem_concat_length]
      rfl
    have hx : x ∉ rest := by
      have hnodup := h.objects.live_nodup
      exact fun hmem => (List.nodup_append.mp hnodup).2.2 x hmem x List.mem_cons_self rfl
    have hfree := h.objects.free (List.mem_append_right rest List.mem_cons_self)
    rw [if_neg hne, List.dropLast_concat]
    dsimp only
    rw [hlast]
    refine ⟨x :: free, ?_⟩
    constructor
    · apply hfree.of_perm
      rw [List.erase_append_right _ hx, List.erase_cons_head, List.append_nil]
    · exact h.max
    · exact hnew
    · intro i hi
      show Function.update a.m_pointer_array (a.m_used_count - 1).toNat 0 i = _
      rw [hnew, Function.update_of_ne (by omega), h.pointers i
        (by rw [List.length_append]; omega), List.getElem_append_left hi]

theorem Holds.clear (h : Holds all stop a live free) :
    ∃ free', Holds all stop a.Clear [] free' := by
  have hstep : ∀ n ≤ live.length, ∃ free' b,
      (List.range n).foldl (fun b i => Free (b.m_pointer_array i) b) a = b ∧
        b.toFreeObjects.Holds all stop (live.drop n) free' ∧
          b.m_pointer_array = a.m_pointer_array ∧ b.m_max = a.m_max := by
    intro n hn
    induction n with
    | zero => exact ⟨free, a, rfl, h.objects, rfl, rfl⟩
    | succ n ih =>
      obtain ⟨free', b, hfold, hholds, hpointers, hmax⟩ := ih (by omega)
      have hget : b.m_pointer_array n = live[n] := by
        rw [hpointers]
        exact h.pointers n (by omega)
      have hdrop : live.drop n = live[n] :: live.drop (n + 1) := List.drop_eq_getElem_cons (by omega)
      rw [hdrop] at hholds
      have hfree := hholds.free List.mem_cons_self
      rw [List.erase_cons_head] at hfree
      refine ⟨live[n] :: free', Free live[n] b, ?_, hfree, hpointers, hmax⟩
      rw [List.range_succ, List.foldl_append, hfold, List.foldl_cons, List.foldl_nil, hget]
  obtain ⟨free', b, hfold, hholds, -, hmax⟩ := hstep live.length (Nat.le_refl _)
  refine ⟨free', ?_⟩
  unfold Clear
  rw [h.used, hfold]
  rw [List.drop_length] at hholds
  constructor
  · exact hholds
  · show b.m_max.toNat = _
    rw [hmax]
    exact h.max
  · rfl
  · intro i hi
    cases hi

theorem call_right {s : State} (h : Holds all 0 s.a s.live free) (c : Call) (hused : Used s c) :
    Answered all s c ∧ ∃ free', Holds all 0 (s.call c).a (s.call c).live free' := by
  cases c with
  | Allocate constructed =>
    refine ⟨FreeObjects.allocates holds_some (fun _ _ _ h => h.objects) holds_end h rfl constructed,
      ?_⟩
    cases free with
    | nil =>
      have hallocate : s.a.Allocate constructed = some (none, s.a) := by
        rw [PointerArrayAllocator.Allocate, h.objects.allocate_nil]
      refine ⟨[], ?_⟩
      simp only [State.call, hallocate]
      exact h
    | cons x free =>
      obtain ⟨a', hallocate, hholds⟩ := holds_some _ _ _ _ constructed h
      refine ⟨free, ?_⟩
      simp only [State.call, hallocate]
      exact hholds
  | RemoveLast => exact ⟨trivial, h.removeLast⟩
  | Clear => exact ⟨trivial, h.clear⟩
  | write object value =>
    exact ⟨trivial, free, h.objects.write hused value, h.max, h.used, h.pointers⟩

def listArray (memory : BitVec 64) (array_size : BitVec 32) : BitVec 64 :=
  memory + BitVec.ofNat 64 (8 * array_size.toNat)

theorem run_iff {size : ℕ} {memory : BitVec 64} {array_size : BitVec 32}
    {word : BitVec 64 → BitVec 64} {a : PointerArrayAllocator} (hsize : 0 < size)
    (hfits : memory.toNat + (8 + size) * array_size.toNat ≤ 2 ^ 64)
    (ha : Initialize size memory array_size word = some a) {cs : List Call}
    (hused : EachIn State.call Used ⟨a, []⟩ cs) :
    Throughout State.call (Right (elements (listArray memory array_size) size array_size.toNat))
        (Answered (elements (listArray memory array_size) size array_size.toNat)) ⟨a, []⟩ cs ↔
      word (element (listArray memory array_size) size (array_size.toNat - 1)) = 0 := by
  unfold Initialize at ha
  split at ha
  · cases ha
  · rename_i hargs
    obtain ⟨hcount, hmemory⟩ := not_or.mp hargs
    have hpos : 0 < array_size.toNat := by
      apply Nat.pos_of_ne_zero
      intro hzero
      exact hcount (BitVec.eq_of_toNat_eq hzero)
    have hroom : 0 < size * array_size.toNat := Nat.mul_pos hsize hpos
    rw [Nat.add_mul] at hfits
    have hlist : (listArray memory array_size).toNat = memory.toNat + 8 * array_size.toNat := by
      rw [listArray, BitVec.toNat_add, BitVec.toNat_ofNat]
      omega
    have hne : listArray memory array_size ≠ 0 := by
      intro hzero
      have hnat : (0 : BitVec 64).toNat = 0 := rfl
      rw [hzero, hnat] at hlist
      omega
    have hobjects : FreeObjects.construct (listArray memory array_size) size array_size.toNat word =
        a.toFreeObjects := by
      rw [← Option.some.inj ha]
      rfl
    have harray : (listArray memory array_size).toNat + size * array_size.toNat ≤ 2 ^ 64 := by omega
    have hconstruct := FreeObjects.construct_holds hsize hne harray hpos word
    have hholds : Holds (elements (listArray memory array_size) size array_size.toNat)
        (word (element (listArray memory array_size) size (array_size.toNat - 1))) a []
          (elements (listArray memory array_size) size array_size.toNat) := by
      constructor
      · rw [← hobjects]
        exact hconstruct
      · rw [← Option.some.inj ha, FreeObjects.elements, List.length_map, List.length_range]
      · rw [← Option.some.inj ha]
        rfl
      · intro i hi
        cases hi
    constructor
    · intro hright
      exact (right_iff (s := ⟨a, []⟩) hholds).mp hright.here
    · intro hstop
      rw [hstop] at hholds
      have hright : ∀ s : State, (∃ free,
          Holds (elements (listArray memory array_size) size array_size.toNat) 0 s.a s.live free) →
            Right (elements (listArray memory array_size) size array_size.toNat) s := by
        rintro s ⟨free, h⟩
        exact (right_iff h).mpr rfl
      refine (throughout_iff (F := fun _ _ => True) hright ?_ ?_ ⟨_, hholds⟩ hused).mpr eachIn_true
      · rintro s c ⟨free, h⟩ hused -
        exact call_right h c hused
      · intros
        trivial

end PointerArrayAllocator

open FreeObjects (elements element)

/-- Runs of both allocators over an array, of a part of the memory, of any number of objects. -/
theorem objectAllocators_right_iff {size : ℕ} (hsize : 8 ≤ size) (word : BitVec 64 → BitVec 64) :
    (∀ (preallocted_buffer : BitVec 64) (element_count : BitVec 32) (a : HeapObjectAllocator)
      (cs : List HeapObjectAllocator.Call),
      preallocted_buffer.toNat + size * element_count.toNat ≤ 2 ^ 64 →
      HeapObjectAllocator.Initialize size preallocted_buffer element_count word = some a →
      EachIn HeapObjectAllocator.State.call HeapObjectAllocator.Used ⟨a, []⟩ cs →
      (Throughout HeapObjectAllocator.State.call
          (HeapObjectAllocator.Right (elements preallocted_buffer size element_count.toNat))
          (HeapObjectAllocator.Answered (elements preallocted_buffer size element_count.toNat))
          ⟨a, []⟩ cs ↔
        word (element preallocted_buffer size (element_count.toNat - 1)) = 0)) ∧
    ∀ (memory : BitVec 64) (array_size : BitVec 32) (a : PointerArrayAllocator)
      (cs : List PointerArrayAllocator.Call),
      memory.toNat + (8 + size) * array_size.toNat ≤ 2 ^ 64 →
      PointerArrayAllocator.Initialize size memory array_size word = some a →
      EachIn PointerArrayAllocator.State.call PointerArrayAllocator.Used ⟨a, []⟩ cs →
      (Throughout PointerArrayAllocator.State.call
          (PointerArrayAllocator.Right
            (elements (PointerArrayAllocator.listArray memory array_size) size array_size.toNat))
          (PointerArrayAllocator.Answered
            (elements (PointerArrayAllocator.listArray memory array_size) size array_size.toNat))
          ⟨a, []⟩ cs ↔
        word (element (PointerArrayAllocator.listArray memory array_size) size
          (array_size.toNat - 1)) = 0) := by
  have hpos : 0 < size := by omega
  constructor
  · intro preallocted_buffer element_count a cs hfits ha hused
    exact HeapObjectAllocator.run_iff hpos hfits ha hused
  · intro memory array_size a cs hfits ha hused
    exact PointerArrayAllocator.run_iff hpos hfits ha hused

theorem zeroMemory_right :
    (∃ a, HeapObjectAllocator.Initialize 8 0x1000 2 (fun _ => 0) = some a ∧
      Throughout HeapObjectAllocator.State.call (HeapObjectAllocator.Right (elements 0x1000 8 2))
        (HeapObjectAllocator.Answered (elements 0x1000 8 2)) ⟨a, []⟩
        [.Allocate 5, .write 0x1000 7, .Free 0x1000, .Allocate 1]) ∧
    ∃ a, PointerArrayAllocator.Initialize 8 0x1000 2 (fun _ => 0) = some a ∧
      Throughout PointerArrayAllocator.State.call
        (PointerArrayAllocator.Right (elements (PointerArrayAllocator.listArray 0x1000 2) 8 2))
        (PointerArrayAllocator.Answered (elements (PointerArrayAllocator.listArray 0x1000 2) 8 2))
        ⟨a, []⟩ [.Allocate 5, .Allocate 6, .RemoveLast, .Clear] := by
  obtain ⟨hheap, hpointers⟩ := objectAllocators_right_iff (Nat.le_refl 8) fun _ => 0
  refine ⟨⟨_, rfl, (hheap 0x1000 2 _ _ (by decide) rfl ?_).mpr rfl⟩, ⟨_, rfl,
    (hpointers 0x1000 2 _ _ (by decide) rfl ?_).mpr rfl⟩⟩
  · refine ⟨trivial, trivial, trivial, ?_, trivial, ?_, trivial, trivial, trivial⟩
    · exact List.mem_cons_self
    · exact List.mem_cons_self
  · exact ⟨trivial, trivial, trivial, trivial, trivial, trivial, trivial, trivial, trivial⟩

theorem staleMemory_not_right :
    ∃ a, HeapObjectAllocator.Initialize 8 0x1000 1 (fun _ => 0xdddddddddddddddd) = some a ∧
      ¬Throughout HeapObjectAllocator.State.call (HeapObjectAllocator.Right (elements 0x1000 8 1))
        (HeapObjectAllocator.Answered (elements 0x1000 8 1)) ⟨a, []⟩ [.Allocate 0, .Allocate 0] := by
  refine ⟨_, rfl, ?_⟩
  rintro ⟨-, -, -, ⟨a, hallocate⟩, -⟩
  cases hallocate

end Awn
