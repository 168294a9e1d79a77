import Awn.ResourceUnit.Unit
import Mathlib.Data.Nat.Notation
import Mathlib.Logic.Function.Basic
import Mathlib.Logic.Relation

/-!
The free cache of `awn::res::ResourceMemoryManager`, and the heaps it creates. The heap they are
created in is a parameter, with its operations.
-/

namespace Awn.ResourceMemory

open ResourceUnit (Status)

structure ResourceHeap (P H : Type*) where
  FrameHeapTryCreate : P → BitVec 64 → Option (H × P)
  ExpHeapTryCreate : P → BitVec 64 → Option (H × P)
  destroy_at : P → H → P
  GetMaximumAllocatableSize : P → BitVec 64

/-- `m_resource` says whether the resource's `PreFinalize` succeeds. -/
structure CachedUnit (H : Type*) where
  m_is_resource_initializable : Bool
  m_is_finalized : Bool
  m_is_freeable_for_memory_manager : Bool
  m_status : Status
  m_reference_count : BitVec 32
  m_resource_initialize_guard : BitVec 32
  m_resource : Option Bool
  m_resource_heap : Option H
  has_memory_manager : Bool
  m_status_update_event : Bool

structure Manager (P H U : Type*) where
  m_resource_heap : P
  m_resource_unit_list : List U
  m_resource_unit_free_cache_list : List U
  m_max_allocatable_size : BitVec 64
  units : U → CachedUnit H

namespace CachedUnit

variable {H : Type*} (unit : CachedUnit H)

def PreFinalizeResource : Bool × CachedUnit H :=
  let finalized : CachedUnit H := { unit with
    m_resource_initialize_guard := 0
    m_status_update_event := true
    m_status := .ResourcePreFinalized }
  match unit.m_status, unit.m_resource with
  | .ResourcePostInitialized, some result | .FailedToPostInitializeResource, some result
  | .FailedToPreFinalizeResource, some result =>
    if unit.m_is_resource_initializable = true ∧ result = false then
      (false, { unit with m_status := .FailedToPreFinalizeResource })
    else (true, finalized)
  | _, _ => (false, { unit with m_status := .ResourcePreFinalized })

def FinalizeResource : CachedUnit H :=
  if (unit.m_status ≠ .ResourcePreFinalized ∧ unit.m_status ≠ .FailedToInitializeResource) ∨
      unit.m_resource.isNone = true ∨ unit.m_is_resource_initializable = false then
    { unit with m_status := .Loaded }
  else
    { unit with
      m_resource_initialize_guard := 0
      m_status_update_event := false
      m_status := .Loaded }

def preFinalizeAndFinalize : CachedUnit H :=
  let (is_finalized, unit) := unit.PreFinalizeResource
  if is_finalized = false then unit else unit.FinalizeResource

/-- `none` stands for a wait that has no end, as there is nobody to set the event. The load task of
a unit in load is cancelled before. -/
def CancelResource : Option (CachedUnit H) :=
  match unit.m_status with
  | .FailedToPreFinalizeResource => some unit.PreFinalizeResource.2
  | .InLoad | .InResourceInitialize | .ResourceInitialized =>
    if unit.m_status_update_event = true then some unit.preFinalizeAndFinalize else none
  | .ResourcePostInitialized | .FailedToPostInitializeResource => some unit.preFinalizeAndFinalize
  | .ResourcePreFinalized | .FailedToInitializeResource => some unit.FinalizeResource
  | _ => some unit

end CachedUnit

namespace Manager

variable {P H U : Type*} [DecidableEq U] (heap : ResourceHeap P H)

def setUnit (m : Manager P H U) (unit : U) (x : CachedUnit H) : Manager P H U :=
  { m with units := Function.update m.units unit x }

def FreeHeap (m : Manager P H U) (resource_heap : H) (unit : U) : Manager P H U :=
  let parent := heap.destroy_at m.m_resource_heap resource_heap
  { m with
    m_resource_heap := parent
    m_resource_unit_list := m.m_resource_unit_list.erase unit
    m_resource_unit_free_cache_list := m.m_resource_unit_free_cache_list.erase unit
    m_max_allocatable_size := heap.GetMaximumAllocatableSize parent }

def FreeResourceHeap (m : Manager P H U) (unit : U) : Manager P H U :=
  match (m.units unit).m_resource_heap with
  | none => m
  | some resource_heap =>
    if (m.units unit).has_memory_manager = false then m else m.FreeHeap heap resource_heap unit

def ClearCache (m : Manager P H U) (unit : U) : Option (Manager P H U) :=
  if 0 < (m.units unit).m_reference_count.toInt then some m
  else (m.units unit).CancelResource.map fun x =>
    (m.setUnit unit { x with m_status := .Freed, m_resource := none }).FreeResourceHeap heap unit

def FinalizeResourceUnitSync (m : Manager P H U) (unit : U) : Option (Manager P H U) :=
  let x := m.units unit
  if x.m_is_freeable_for_memory_manager = false ∨ x.m_status = .Freed ∨
      x.has_memory_manager = false ∨ 0 < x.m_reference_count.toInt ∨ x.m_is_finalized = true then
    some m
  else (m.setUnit unit { x with m_is_finalized := true }).ClearCache heap unit

def evict (m : Manager P H U) (unit : U) : Option (Manager P H U) :=
  ({ m with m_max_allocatable_size := 0 } : Manager P H U).FinalizeResourceUnitSync heap unit

/-- `none` stands for a list that is empty. -/
def PopBack (m : Manager P H U) : Option (U × Manager P H U) :=
  m.m_resource_unit_free_cache_list.getLast?.map fun unit =>
    (unit, { m with
      m_resource_unit_free_cache_list := m.m_resource_unit_free_cache_list.dropLast })

def FreeFromCache : ℕ → Manager P H U → BitVec 64 → Option (Bool × Manager P H U)
  | 0, _, _ => none
  | fuel + 1, m, target_size =>
    if m.m_resource_unit_free_cache_list.isEmpty = true then
      m.PopBack.bind fun (unit, m) =>
        if (m.units unit).m_is_freeable_for_memory_manager = false then
          FreeFromCache fuel m target_size
        else (m.evict heap unit).bind fun m =>
          if m.m_max_allocatable_size < target_size then some (true, m)
          else FreeFromCache fuel m target_size
    else some (false, m)

/-- `ResourceHeapType` as the three bits of a unit say it. -/
def CreateHeapImpl (m : Manager P H U) (size : BitVec 64) (heap_type : BitVec 3) :
    Option H × Manager P H U :=
  let created :=
    if heap_type = 0 then heap.FrameHeapTryCreate m.m_resource_heap size
    else if heap_type = 1 then heap.ExpHeapTryCreate m.m_resource_heap size
    else none
  match created with
  | none => (none, m)
  | some (new_heap, parent) => (some new_heap, { m with m_resource_heap := parent })

def createLoop (size : BitVec 64) (heap_type : BitVec 3) :
    ℕ → Option H × Manager P H U → Option (Option H × Manager P H U)
  | 0, _ => none
  | _ + 1, (some new_heap, m) => some (some new_heap, m)
  | fuel + 1, (none, m) =>
    (m.FreeFromCache heap fuel size).bind fun (_, m) =>
      createLoop size heap_type fuel (m.CreateHeapImpl heap size heap_type)

/-- `none` stands for a run that has not ended when the fuel has. -/
def CreateResourceHeap (fuel : ℕ) (m : Manager P H U) (resource_unit : U) (size : BitVec 64)
    (heap_type : BitVec 3) : Option (Option H × Manager P H U) :=
  (createLoop heap size heap_type fuel (m.CreateHeapImpl heap size heap_type)).map
    fun (new_heap, m) =>
      (new_heap, { m with m_resource_unit_list := m.m_resource_unit_list ++ [resource_unit] })

def Evicts (m m' : Manager P H U) : Prop :=
  ∃ before unit after, m.m_resource_unit_free_cache_list = before ++ unit :: after ∧
    let m₁ := { m with m_resource_unit_free_cache_list := before ++ after }
    if (m.units unit).m_is_freeable_for_memory_manager = false then m' = m₁
    else m₁.evict heap unit = some m'

abbrev Evicted : Manager P H U → Manager P H U → Prop := Relation.ReflTransGen (Evicts heap)

/-- The retry loop ends, with a heap of the size if evictions make one possible and else none. -/
def CreatesRight (m : Manager P H U) (resource_unit : U) (size : BitVec 64)
    (heap_type : BitVec 3) : Prop :=
  ∃ fuel new_heap m', m.CreateResourceHeap heap fuel resource_unit size heap_type =
      some (new_heap, m') ∧
    (new_heap.isSome = true ↔
      ∃ m₁, Evicted heap m m₁ ∧ (m₁.CreateHeapImpl heap size heap_type).1.isSome = true) ∧
    ∃ m₁, Evicted heap m m₁ ∧ (m₁.CreateHeapImpl heap size heap_type).1 = new_heap

def FreesRight (m : Manager P H U) (target_size : BitVec 64) : Prop :=
  ∃ fuel is_reached m', m.FreeFromCache heap fuel target_size = some (is_reached, m') ∧
    Evicted heap m m' ∧
    if is_reached = true then target_size ≤ m'.m_max_allocatable_size
    else m'.m_resource_unit_free_cache_list = []

section Loops

variable {heap} {m m' : Manager P H U} {unit : U} {size : BitVec 64} {heap_type : BitVec 3}

omit [DecidableEq U] in
theorem popBack_eq_none (h : m.m_resource_unit_free_cache_list = []) : m.PopBack = none := by
  rw [PopBack, h]
  rfl

theorem freeFromCache_succ (fuel : ℕ) (m : Manager P H U) (target_size : BitVec 64) :
    m.FreeFromCache heap (fuel + 1) target_size =
      if m.m_resource_unit_free_cache_list.isEmpty = true then none else some (false, m) := by
  rw [FreeFromCache]
  split_ifs with hempty
  · rw [popBack_eq_none (List.isEmpty_iff.mp hempty)]
    rfl
  · rfl

theorem not_freesRight (m : Manager P H U) (target_size : BitVec 64) :
    ¬ m.FreesRight heap target_size := by
  rintro ⟨fuel, is_reached, m', hfree, -, hright⟩
  cases fuel with
  | zero => cases hfree
  | succ fuel =>
    rw [freeFromCache_succ] at hfree
    split_ifs at hfree with hempty
    obtain ⟨rfl, rfl⟩ := Prod.mk.inj (Option.some.inj hfree)
    simp only [Bool.false_eq_true, if_false] at hright
    exact hempty (List.isEmpty_iff.mpr hright)

omit [DecidableEq U] in
theorem createHeapImpl_of_none (h : (m.CreateHeapImpl heap size heap_type).1 = none) :
    m.CreateHeapImpl heap size heap_type = (none, m) := by
  unfold CreateHeapImpl at h ⊢
  dsimp only at h ⊢
  split at h <;> simp_all

theorem createLoop_eq_none (h : m.CreateHeapImpl heap size heap_type = (none, m)) (fuel : ℕ) :
    createLoop heap size heap_type fuel (none, m) = none := by
  induction fuel with
  | zero => rfl
  | succ fuel ih =>
    rw [createLoop]
    cases fuel with
    | zero => rfl
    | succ fuel =>
      rw [freeFromCache_succ]
      split_ifs
      · rfl
      · rw [Option.bind_some]
        dsimp only
        rw [h, ih]

theorem createsRight_iff (m : Manager P H U) (resource_unit : U) (size : BitVec 64)
    (heap_type : BitVec 3) :
    m.CreatesRight heap resource_unit size heap_type ↔
      (m.CreateHeapImpl heap size heap_type).1.isSome = true := by
  cases hcreate : (m.CreateHeapImpl heap size heap_type).1 with
  | none =>
    have hfails := createHeapImpl_of_none hcreate
    refine iff_of_false ?_ Bool.noConfusion
    rintro ⟨fuel, new_heap, m', hends, -⟩
    rw [CreateResourceHeap, hfails, createLoop_eq_none hfails] at hends
    cases hends
  | some new_heap =>
    refine iff_of_true ⟨1, some new_heap, { (m.CreateHeapImpl heap size heap_type).2 with
      m_resource_unit_list := (m.CreateHeapImpl heap size heap_type).2.m_resource_unit_list ++
        [resource_unit] }, ?_, ?_, m, .refl, hcreate⟩ rfl
    · rw [CreateResourceHeap, show m.CreateHeapImpl heap size heap_type =
        (some new_heap, (m.CreateHeapImpl heap size heap_type).2) from Prod.ext hcreate rfl]
      rfl
    · exact iff_of_true rfl ⟨m, .refl, by rw [hcreate]; rfl⟩

end Loops

/-- The retry loop is right exactly when there is nothing to retry, and what it calls never is. -/
theorem cache_right_iff (m : Manager P H U) :
    (∀ resource_unit size heap_type, m.CreatesRight heap resource_unit size heap_type ↔
      (m.CreateHeapImpl heap size heap_type).1.isSome = true) ∧
    ∀ target_size, ¬ m.FreesRight heap target_size :=
  ⟨createsRight_iff m, not_freesRight m⟩

def counting : ResourceHeap (BitVec 64) (BitVec 64) where
  FrameHeapTryCreate free size := if size ≤ free then some (size, free - size) else none
  ExpHeapTryCreate free size := if size ≤ free then some (size, free - size) else none
  destroy_at free size := free + size
  GetMaximumAllocatableSize free := free

def oneCached : Manager (BitVec 64) (BitVec 64) Unit where
  m_resource_heap := 0
  m_resource_unit_list := [()]
  m_resource_unit_free_cache_list := [()]
  m_max_allocatable_size := 0
  units _ :=
    { m_is_resource_initializable := false
      m_is_finalized := false
      m_is_freeable_for_memory_manager := true
      m_status := .Loaded
      m_reference_count := 0
      m_resource_initialize_guard := 0
      m_resource := some true
      m_resource_heap := some 8
      has_memory_manager := true
      m_status_update_event := true }

theorem oneCached_not_created :
    (∃ m₁, Evicted counting oneCached m₁ ∧ (m₁.CreateHeapImpl counting 8 0).1.isSome = true) ∧
      ¬ oneCached.CreatesRight counting () 8 0 := by
  constructor
  · obtain ⟨m₁, hevict, hfree⟩ : ∃ m₁, ({ oneCached with
        m_resource_unit_free_cache_list := [] }).evict counting () = some m₁ ∧
          m₁.m_resource_heap = 8 := ⟨_, rfl, by decide⟩
    refine ⟨m₁, .single ⟨[], (), [], rfl, hevict⟩, ?_⟩
    simp [CreateHeapImpl, counting, hfree]
  · have hfails : oneCached.CreateHeapImpl counting 8 0 = (none, oneCached) := rfl
    rintro ⟨fuel, new_heap, m', hends, -⟩
    rw [CreateResourceHeap, hfails, createLoop_eq_none hfails] at hends
    cases hends

end Manager

end Awn.ResourceMemory
