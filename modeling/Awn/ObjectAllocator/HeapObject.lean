import Awn.Calls.Throughout
import Awn.Memory.Threaded
import Mathlib.Algebra.Group.Nat.Defs
import Mathlib.Data.List.Nodup
import Mathlib.Data.List.Perm.Subperm

/-! The free objects of an allocator, in a list that is threaded through their array. -/

namespace Awn

open Memory

structure FreeObjects where
  m_free_list : BitVec 64
  word : BitVec 64 → BitVec 64

namespace FreeObjects

def element (list_array : BitVec 64) (size i : ℕ) : BitVec 64 :=
  list_array + BitVec.ofNat 64 (size * i)

def elements (list_array : BitVec 64) (size count : ℕ) : List (BitVec 64) :=
  (List.range count).map (element list_array size)

def construct (list_array : BitVec 64) (size count : ℕ) (word : BitVec 64 → BitVec 64) :
    FreeObjects :=
  ⟨list_array, linkArray (element list_array size) word (count - 1)⟩

def allocate (constructed : BitVec 64) (s : FreeObjects) : Option (BitVec 64) × FreeObjects :=
  if s.m_free_list = 0 then (none, s)
  else
    (some s.m_free_list,
      { m_free_list := s.word s.m_free_list
        word := Function.update s.word s.m_free_list constructed })

def free (allocated_object : BitVec 64) (s : FreeObjects) : FreeObjects where
  m_free_list := allocated_object
  word := Function.update s.word allocated_object s.m_free_list

def write (object value : BitVec 64) (s : FreeObjects) : FreeObjects :=
  { s with word := Function.update s.word object value }

structure Holds (all : List (BitVec 64)) (stop : BitVec 64) (s : FreeObjects)
    (live free : List (BitVec 64)) : Prop where
  nodup : all.Nodup
  nonzero : 0 ∉ all
  threaded : Threaded s.word s.m_free_list free stop
  perm : (free ++ live).Perm all

namespace Holds

variable {all live live' rest : List (BitVec 64)} {stop x : BitVec 64} {s : FreeObjects}

theorem length (h : s.Holds all stop live rest) : rest.length + live.length = all.length := by
  rw [← List.length_append]
  exact h.perm.length_eq

theorem both_nodup (h : s.Holds all stop live rest) : (rest ++ live).Nodup :=
  h.perm.nodup_iff.mpr h.nodup

theorem live_nodup (h : s.Holds all stop live rest) : live.Nodup :=
  (List.nodup_append.mp h.both_nodup).2.1

theorem not_free (h : s.Holds all stop live rest) (hx : x ∈ live) : x ∉ rest := by
  intro hfree
  exact (List.nodup_append.mp h.both_nodup).2.2 x hfree x hx rfl

theorem mem_of_free (h : s.Holds all stop live rest) (hx : x ∈ rest) : x ∈ all :=
  h.perm.subset (List.mem_append_left live hx)

theorem mem_of_live (h : s.Holds all stop live rest) (hx : x ∈ live) : x ∈ all :=
  h.perm.subset (List.mem_append_right rest hx)

theorem of_perm (h : s.Holds all stop live rest) (hlive : live'.Perm live) :
    s.Holds all stop live' rest where
  nodup := h.nodup
  nonzero := h.nonzero
  threaded := h.threaded
  perm := (hlive.append_left rest).trans h.perm

theorem allocate_cons (h : s.Holds all stop live (x :: rest)) (constructed : BitVec 64) :
    ∃ s', s.allocate constructed = (some x, s') ∧ s'.Holds all stop (x :: live) rest := by
  obtain ⟨hstart, hrest⟩ := h.threaded
  have hne : x ≠ 0 := by
    rintro rfl
    exact h.nonzero (h.mem_of_free List.mem_cons_self)
  have hx : x ∉ rest := (List.nodup_cons.mp (List.nodup_append.mp h.both_nodup).1).1
  refine ⟨⟨s.word x, Function.update s.word x constructed⟩, ?_, ?_⟩
  · unfold FreeObjects.allocate
    rw [hstart, if_neg hne]
  · exact ⟨h.nodup, h.nonzero, hrest.update hx constructed, List.perm_middle.trans h.perm⟩

theorem allocate_nil (h : s.Holds all 0 live []) (constructed : BitVec 64) :
    s.allocate constructed = (none, s) := if_pos h.threaded

theorem free (h : s.Holds all stop live rest) (hx : x ∈ live) :
    (s.free x).Holds all stop (live.erase x) (x :: rest) where
  nodup := h.nodup
  nonzero := h.nonzero
  threaded := h.threaded.cons (h.not_free hx)
  perm := by
    have hlive := (List.perm_cons_erase hx).symm.append_left rest
    exact (List.perm_middle.symm.trans hlive).trans h.perm

theorem write (h : s.Holds all stop live rest) (hx : x ∈ live) (value : BitVec 64) :
    (s.write x value).Holds all stop live rest where
  nodup := h.nodup
  nonzero := h.nonzero
  threaded := h.threaded.update (h.not_free hx) value
  perm := h.perm

end Holds

section Construct

variable {list_array : BitVec 64} {size count : ℕ} (hsize : 0 < size) (hstart : list_array ≠ 0)
  (hfits : list_array.toNat + size * count ≤ 2 ^ 64)

include hsize hfits

theorem toNat_element {i : ℕ} (hi : i < count) :
    (element list_array size i).toNat = list_array.toNat + size * i := by
  have hlt := list_array.isLt
  have hmul : size * i + size ≤ size * count := by
    rw [← Nat.mul_succ]
    exact Nat.mul_le_mul_left size hi
  rw [element, BitVec.toNat_add, BitVec.toNat_ofNat]
  omega

theorem element_inj (i : ℕ) (hi : i < count) (j : ℕ) (hj : j < count)
    (h : element list_array size i = element list_array size j) : i = j := by
  have heq := congrArg BitVec.toNat h
  rw [toNat_element hsize hfits hi, toNat_element hsize hfits hj] at heq
  exact Nat.eq_of_mul_eq_mul_left hsize (by omega)

include hstart in
theorem construct_holds (hcount : 0 < count) (word : BitVec 64 → BitVec 64) :
    (construct list_array size count word).Holds (elements list_array size count)
      (word (element list_array size (count - 1))) [] (elements list_array size count) where
  nodup := by
    apply List.Nodup.map_on _ List.nodup_range
    intro i hi j hj h
    exact element_inj hsize hfits i (List.mem_range.mp hi) j (List.mem_range.mp hj) h
  nonzero := by
    intro hmem
    obtain ⟨i, hi, hzero⟩ := List.mem_map.mp hmem
    have hvalue := toNat_element hsize hfits (List.mem_range.mp hi)
    rw [hzero] at hvalue
    apply hstart
    apply BitVec.eq_of_toNat_eq
    have hnat : (0 : BitVec 64).toNat = 0 := rfl
    omega
  threaded := by
    have hthreaded := threaded_linkArray word (element_inj hsize hfits) hcount
    have hfirst : element list_array size 0 = list_array := by
      rw [element, Nat.mul_zero]
      exact BitVec.add_zero list_array
    rw [hfirst] at hthreaded
    exact hthreaded
  perm := by rw [List.append_nil]

end Construct

def drain {S : Type*} (allocate : BitVec 64 → S → Option (Option (BitVec 64) × S)) :
    List (BitVec 64) → S → Option (List (Option (BitVec 64)) × S)
  | [], s => some ([], s)
  | constructed :: rest, s =>
    (allocate constructed s).bind fun r =>
      (drain allocate rest r.2).map fun returned => (r.1 :: returned.1, returned.2)

structure Right {S : Type*} (allocate : BitVec 64 → S → Option (Option (BitVec 64) × S))
    (all : List (BitVec 64)) (s : S) (live : List (BitVec 64)) : Prop where
  nodup : live.Nodup
  inside : ∀ x ∈ live, x ∈ all
  others : ∀ values : List (BitVec 64), values.length + live.length = all.length →
    ∃ (objects : List (BitVec 64)) (s' : S), drain allocate values s = some (objects.map some, s') ∧ objects.Nodup ∧
      (∀ x ∈ objects, x ∈ all ∧ x ∉ live) ∧
        ∀ constructed, ∃ s'', allocate constructed s' = some (none, s'')

def Allocates {S : Type*} (allocate : BitVec 64 → S → Option (Option (BitVec 64) × S))
    (all : List (BitVec 64)) (s : S) (live : List (BitVec 64)) (constructed : BitVec 64) : Prop :=
  if live.length < all.length then
    ∃ x s', allocate constructed s = some (some x, s') ∧ x ∈ all ∧ x ∉ live
  else ∃ s', allocate constructed s = some (none, s')

section Drain

variable {S : Type*} {allocate : BitVec 64 → S → Option (Option (BitVec 64) × S)}
  {all : List (BitVec 64)} {Inv : S → List (BitVec 64) → List (BitVec 64) → Prop}
  (hsome : ∀ s live x free constructed, Inv s live (x :: free) →
    ∃ s', allocate constructed s = some (some x, s') ∧ Inv s' (live ++ [x]) free)

include hsome

theorem drain_eq {s : S} {live free values : List (BitVec 64)} (h : Inv s live free)
    (hlength : values.length = free.length) :
    ∃ s', drain allocate values s = some (free.map some, s') ∧ Inv s' (live ++ free) [] := by
  induction values generalizing s live free with
  | nil =>
    obtain rfl := List.length_eq_zero_iff.mp hlength.symm
    rw [List.append_nil]
    exact ⟨s, rfl, h⟩
  | cons constructed values ih =>
    cases free with
    | nil => cases hlength
    | cons x free =>
      obtain ⟨s', hallocate, hinv⟩ := hsome s live x free constructed h
      obtain ⟨s'', hdrain, hend⟩ := ih hinv (Nat.succ.inj hlength)
      refine ⟨s'', ?_, ?_⟩
      · rw [drain, hallocate, Option.bind_some, hdrain]
        rfl
      · rw [List.append_assoc] at hend
        exact hend

variable {objects : S → FreeObjects} {stop : BitVec 64}
  (hholds : ∀ s live free, Inv s live free → (objects s).Holds all stop live free)
  (hend : ∀ s live constructed, Inv s live [] →
    ((∃ s', allocate constructed s = some (none, s')) ↔ stop = 0))

include hholds hend

theorem right_iff {s : S} {live free : List (BitVec 64)} (h : Inv s live free) :
    Right allocate all s live ↔ stop = 0 := by
  have hobjects := hholds s live free h
  have hlength := hobjects.length
  constructor
  · intro hright
    obtain ⟨xs, s', hdrain, -, -, hnone⟩ := hright.others (List.replicate free.length 0)
      (by rw [List.length_replicate]; exact hlength)
    obtain ⟨s'', hdrain', hlast⟩ := drain_eq hsome h
      (List.length_replicate : (List.replicate free.length (0 : BitVec 64)).length = free.length)
    obtain rfl : s' = s'' := congrArg Prod.snd (Option.some.inj (hdrain.symm.trans hdrain'))
    exact (hend s' _ 0 hlast).mp (hnone 0)
  · intro hstop
    refine ⟨hobjects.live_nodup, fun x hx => hobjects.mem_of_live hx, ?_⟩
    intro values hvalues
    have hall : values.length = free.length := by omega
    obtain ⟨s', hdrain, hlast⟩ := drain_eq hsome h hall
    refine ⟨free, s', hdrain, (List.nodup_append.mp hobjects.both_nodup).1, ?_, ?_⟩
    · intro x hx
      exact ⟨hobjects.mem_of_free hx, fun hlive => hobjects.not_free hlive hx⟩
    · intro constructed
      exact (hend s' _ constructed hlast).mpr hstop

theorem allocates {s : S} {live free : List (BitVec 64)} (h : Inv s live free) (hstop : stop = 0)
    (constructed : BitVec 64) : Allocates allocate all s live constructed := by
  have hobjects := hholds s live free h
  have hlength := hobjects.length
  unfold Allocates
  cases free with
  | nil =>
    rw [List.length_nil] at hlength
    rw [if_neg (by omega)]
    exact (hend s live constructed h).mpr hstop
  | cons x free =>
    rw [List.length_cons] at hlength
    rw [if_pos (by omega)]
    obtain ⟨s', hallocate, -⟩ := hsome s live x free constructed h
    exact ⟨x, s', hallocate, hobjects.mem_of_free List.mem_cons_self,
      fun hlive => hobjects.not_free hlive List.mem_cons_self⟩

end Drain

end FreeObjects

/-! `vp::util::HeapObjectAllocator`, over all runs of its owner. -/

open Calls

structure HeapObjectAllocator extends FreeObjects where
  m_start_address : BitVec 64

namespace HeapObjectAllocator

open FreeObjects (elements element Holds)

def Initialize (size : ℕ) (preallocted_buffer : BitVec 64) (element_count : BitVec 32)
    (word : BitVec 64 → BitVec 64) : Option HeapObjectAllocator :=
  if element_count = 0 ∨ preallocted_buffer = 0 then none
  else some
    { FreeObjects.construct preallocted_buffer size element_count.toNat word with
      m_start_address := preallocted_buffer }

def Allocate (constructed : BitVec 64) (a : HeapObjectAllocator) :
    Option (BitVec 64) × HeapObjectAllocator :=
  let r := a.toFreeObjects.allocate constructed
  (r.1, { a with toFreeObjects := r.2 })

def Free (allocated_object : BitVec 64) (a : HeapObjectAllocator) : HeapObjectAllocator :=
  { a with toFreeObjects := a.toFreeObjects.free allocated_object }

inductive Call
  | Allocate (constructed : BitVec 64)
  | Free (allocated_object : BitVec 64)
  | write (object value : BitVec 64)

structure State where
  a : HeapObjectAllocator
  live : List (BitVec 64)

def State.call (s : State) : Call → State
  | .Allocate constructed =>
    match s.a.Allocate constructed with
    | (some x, a) => ⟨a, s.live ++ [x]⟩
    | (none, a) => ⟨a, s.live⟩
  | .Free object => ⟨s.a.Free object, s.live.erase object⟩
  | .write object value => ⟨{ s.a with toFreeObjects := s.a.toFreeObjects.write object value }, s.live⟩

def Used (s : State) : Call → Prop
  | .Allocate _ => True
  | .Free object => object ∈ s.live
  | .write object _ => object ∈ s.live

def returned (constructed : BitVec 64) (a : HeapObjectAllocator) :
    Option (Option (BitVec 64) × HeapObjectAllocator) :=
  some (a.Allocate constructed)

def Right (all : List (BitVec 64)) (s : State) : Prop := FreeObjects.Right returned all s.a s.live

def Answered (all : List (BitVec 64)) (s : State) : Call → Prop
  | .Allocate constructed => FreeObjects.Allocates returned all s.a s.live constructed
  | _ => True

def Holds (all : List (BitVec 64)) (stop : BitVec 64) (a : HeapObjectAllocator)
    (live free : List (BitVec 64)) : Prop :=
  a.toFreeObjects.Holds all stop live free

variable {all : List (BitVec 64)} {stop : BitVec 64}

theorem holds_some (a : HeapObjectAllocator) (live : List (BitVec 64)) (x : BitVec 64)
    (free : List (BitVec 64)) (constructed : BitVec 64) (h : Holds all stop a live (x :: free)) :
    ∃ a', returned constructed a = some (some x, a') ∧ Holds all stop a' (live ++ [x]) free := by
  obtain ⟨objects, hallocate, hholds⟩ := FreeObjects.Holds.allocate_cons h constructed
  refine ⟨{ a with toFreeObjects := objects }, ?_, ?_⟩
  · rw [returned, Allocate, hallocate]
  · exact FreeObjects.Holds.of_perm hholds (List.perm_append_singleton x live)

theorem holds_end (a : HeapObjectAllocator) (live : List (BitVec 64)) (constructed : BitVec 64)
    (h : Holds all stop a live []) :
    (∃ a', returned constructed a = some (none, a')) ↔ stop = 0 := by
  have hstart : a.m_free_list = stop := h.threaded
  unfold returned Allocate FreeObjects.allocate
  rw [hstart]
  by_cases hstop : stop = 0
  · rw [if_pos hstop]
    exact ⟨fun _ => hstop, fun _ => ⟨_, rfl⟩⟩
  · rw [if_neg hstop]
    constructor
    · rintro ⟨a', heq⟩
      cases heq
    · intro hzero
      exact absurd hzero hstop

theorem right_iff {s : State} {free : List (BitVec 64)} (h : Holds all stop s.a s.live free) :
    Right all s ↔ stop = 0 :=
  FreeObjects.right_iff holds_some (fun _ _ _ h => h) holds_end h

theorem call_right {s : State} {free : List (BitVec 64)} (h : Holds all 0 s.a s.live free) (c : Call)
    (hused : Used s c) :
    Answered all s c ∧ ∃ free', Holds all 0 (s.call c).a (s.call c).live free' := by
  cases c with
  | Allocate constructed =>
    refine ⟨FreeObjects.allocates holds_some (fun _ _ _ h => h) holds_end h rfl constructed, ?_⟩
    cases free with
    | nil =>
      have hallocate : s.a.Allocate constructed = (none, s.a) := by
        rw [Allocate, FreeObjects.Holds.allocate_nil h]
      refine ⟨[], ?_⟩
      simp only [State.call, hallocate]
      exact h
    | cons x free =>
      obtain ⟨a', hallocate, hholds⟩ := holds_some _ _ _ _ constructed h
      refine ⟨free, ?_⟩
      simp only [State.call, Option.some.inj hallocate]
      exact hholds
  | Free object => exact ⟨trivial, _, FreeObjects.Holds.free h hused⟩
  | write object value => exact ⟨trivial, _, FreeObjects.Holds.write h hused value⟩

theorem run_iff {size : ℕ} {preallocted_buffer : BitVec 64} {element_count : BitVec 32}
    {word : BitVec 64 → BitVec 64} {a : HeapObjectAllocator} (hsize : 0 < size)
    (hfits : preallocted_buffer.toNat + size * element_count.toNat ≤ 2 ^ 64)
    (ha : Initialize size preallocted_buffer element_count word = some a) {cs : List Call}
    (hused : EachIn State.call Used ⟨a, []⟩ cs) :
    Throughout State.call (Right (elements preallocted_buffer size element_count.toNat))
        (Answered (elements preallocted_buffer size element_count.toNat)) ⟨a, []⟩ cs ↔
      word (element preallocted_buffer size (element_count.toNat - 1)) = 0 := by
  unfold Initialize at ha
  split at ha
  · cases ha
  · rename_i hargs
    obtain ⟨hcount, hbuffer⟩ := not_or.mp hargs
    have hobjects : a.toFreeObjects =
        FreeObjects.construct preallocted_buffer size element_count.toNat word := by
      rw [← Option.some.inj ha]
    have hpos : 0 < element_count.toNat := by
      apply Nat.pos_of_ne_zero
      intro hzero
      exact hcount (BitVec.eq_of_toNat_eq hzero)
    have hholds : Holds (elements preallocted_buffer size element_count.toNat)
        (word (element preallocted_buffer size (element_count.toNat - 1))) a []
          (elements preallocted_buffer size element_count.toNat) := by
      rw [Holds, hobjects]
      exact FreeObjects.construct_holds hsize hbuffer hfits hpos word
    constructor
    · intro hright
      exact (right_iff (s := ⟨a, []⟩) hholds).mp hright.here
    · intro hstop
      rw [hstop] at hholds
      have hright : ∀ s : State, (∃ free,
          Holds (elements preallocted_buffer size element_count.toNat) 0 s.a s.live free) →
            Right (elements preallocted_buffer size element_count.toNat) s := by
        rintro s ⟨free, h⟩
        exact (right_iff h).mpr rfl
      refine (throughout_iff (F := fun _ _ => True) hright ?_ ?_ ⟨_, hholds⟩ hused).mpr eachIn_true
      · rintro s c ⟨free, h⟩ hused -
        exact call_right h c hused
      · intros
        trivial

end HeapObjectAllocator

end Awn
