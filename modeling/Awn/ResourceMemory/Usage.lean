import Awn.Calls.Throughout
import Mathlib.Algebra.BigOperators.Fin
import Mathlib.Data.BitVec
import Mathlib.Data.Fintype.BigOperators

/-!
The memory usage that `awn::res::ResourceMemoryManager` counts for the resource units that
`awn::res::ResourceUnit` has tracked by it.
-/

namespace Awn.ResourceMemory

inductive ManagerHeapType
  | VirtualAddressHeap
  | ExpHeap
  deriving DecidableEq

structure Heap where
  total_size : BitVec 64
  size_of_allocation : BitVec 64
  deriving DecidableEq

structure Usage where
  manager_heap_type : ManagerHeapType
  m_global_memory_usage : BitVec 64
  m_active_memory_usage : BitVec 64
  deriving DecidableEq

/-- A resource unit with a heap. -/
structure TrackedUnit where
  m_resource_heap : Heap
  m_is_external_heap : Bool
  m_is_tracked_memory_usage_global : Bool
  m_is_tracked_memory_usage_active : Bool
  m_is_heap_adjusted : Bool
  m_is_require_heap_adjust : Bool
  m_is_freeable_for_memory_manager : Bool
  deriving DecidableEq

def ManagerHeapType.size : ManagerHeapType → Heap → BitVec 64
  | VirtualAddressHeap, heap => heap.size_of_allocation
  | ExpHeap, heap => heap.total_size

namespace Usage

variable (m : Usage) (heap : Heap)

def TrackMemoryUsageGlobal : Usage :=
  { m with m_global_memory_usage := m.m_global_memory_usage + m.manager_heap_type.size heap }

def TrackMemoryUsageActive : Usage :=
  { m with m_global_memory_usage := m.m_global_memory_usage + m.manager_heap_type.size heap }

def ReleaseMemoryUsageGlobal : Usage :=
  { m with m_global_memory_usage := m.m_global_memory_usage - m.manager_heap_type.size heap }

def ReleaseMemoryUsageActive : Usage :=
  { m with m_active_memory_usage := m.m_active_memory_usage - m.manager_heap_type.size heap }

end Usage

namespace TrackedUnit

variable (m : Usage) (unit : TrackedUnit)

def UpdateMemoryUsageGlobal : Usage × TrackedUnit :=
  if unit.m_is_tracked_memory_usage_global = false then
    (m.TrackMemoryUsageGlobal unit.m_resource_heap,
      { unit with m_is_tracked_memory_usage_global := true })
  else (m, unit)

def UpdateMemoryUsageActive : Usage × TrackedUnit :=
  if unit.m_is_tracked_memory_usage_active = false ∧
      unit.m_is_freeable_for_memory_manager = false then
    (m.TrackMemoryUsageActive unit.m_resource_heap,
      { unit with m_is_tracked_memory_usage_active := true })
  else (m, unit)

def UpdateMemoryUsage : Usage × TrackedUnit :=
  let (m, unit) := UpdateMemoryUsageGlobal m unit
  UpdateMemoryUsageActive m unit

def TrackMemoryUsage : Usage × TrackedUnit :=
  if unit.m_is_external_heap = true then (m, { unit with m_is_heap_adjusted := true })
  else if unit.m_is_heap_adjusted = true ∨ unit.m_is_require_heap_adjust = false then
    UpdateMemoryUsage m unit
  else (m, unit)

def ReleaseMemoryUsageGlobal : Usage × TrackedUnit :=
  if unit.m_is_tracked_memory_usage_global = true then
    (m.ReleaseMemoryUsageGlobal unit.m_resource_heap,
      { unit with m_is_tracked_memory_usage_global := false })
  else (m, unit)

def ReleaseMemoryUsageActive : Usage × TrackedUnit :=
  if unit.m_is_tracked_memory_usage_active = true then
    (m.ReleaseMemoryUsageActive unit.m_resource_heap,
      { unit with m_is_tracked_memory_usage_active := false })
  else (m, unit)

def HeapAdjust (adjusted : Heap) : Usage × TrackedUnit :=
  UpdateMemoryUsage m { unit with m_resource_heap := adjusted }

end TrackedUnit

inductive Call
  | TrackMemoryUsage
  | UpdateMemoryUsage
  | ReleaseMemoryUsageGlobal
  | ReleaseMemoryUsageActive
  | HeapAdjust (adjusted : Heap)
  | SetFreeable (is_freeable : Bool)

def TrackedUnit.call (m : Usage) (unit : TrackedUnit) : Call → Usage × TrackedUnit
  | .TrackMemoryUsage => unit.TrackMemoryUsage m
  | .UpdateMemoryUsage => unit.UpdateMemoryUsage m
  | .ReleaseMemoryUsageGlobal => unit.ReleaseMemoryUsageGlobal m
  | .ReleaseMemoryUsageActive => unit.ReleaseMemoryUsageActive m
  | .HeapAdjust adjusted => unit.HeapAdjust m adjusted
  | .SetFreeable is_freeable => (m, { unit with m_is_freeable_for_memory_manager := is_freeable })

structure State (U : Type*) where
  manager : Usage
  units : U → TrackedUnit

variable {U : Type*} [DecidableEq U]

def step (s : State U) (c : U × Call) : State U :=
  let (manager, unit) := (s.units c.1).call s.manager c.2
  { manager := manager, units := Function.update s.units c.1 unit }

def TrackedUnit.global (type : ManagerHeapType) (unit : TrackedUnit) : BitVec 64 :=
  if unit.m_is_tracked_memory_usage_global = true then type.size unit.m_resource_heap else 0

def TrackedUnit.active (type : ManagerHeapType) (unit : TrackedUnit) : BitVec 64 :=
  if unit.m_is_tracked_memory_usage_active = true then type.size unit.m_resource_heap else 0

structure Accounted [Fintype U] (s : State U) : Prop where
  global : s.manager.m_global_memory_usage =
    ∑ u, (s.units u).global s.manager.manager_heap_type
  active : s.manager.m_active_memory_usage =
    ∑ u, (s.units u).active s.manager.manager_heap_type
  released : (∀ u, (s.units u).m_is_tracked_memory_usage_global = false ∧
      (s.units u).m_is_tracked_memory_usage_active = false) →
    s.manager.m_global_memory_usage = 0 ∧ s.manager.m_active_memory_usage = 0

def UpdateFits (type : ManagerHeapType) (unit : TrackedUnit) : Prop :=
  unit.m_is_tracked_memory_usage_active = false → unit.m_is_freeable_for_memory_manager = false →
    type.size unit.m_resource_heap = 0

def Fits (type : ManagerHeapType) (unit : TrackedUnit) : Call → Prop
  | .TrackMemoryUsage => unit.m_is_external_heap = false →
      unit.m_is_heap_adjusted = true ∨ unit.m_is_require_heap_adjust = false → UpdateFits type unit
  | .UpdateMemoryUsage => UpdateFits type unit
  | .HeapAdjust adjusted =>
      UpdateFits type { unit with m_resource_heap := adjusted } ∧
        (unit.m_is_tracked_memory_usage_global = true ∨
          unit.m_is_tracked_memory_usage_active = true →
            type.size adjusted = type.size unit.m_resource_heap)
  | _ => True

@[mk_iff]
structure Balanced (m : Usage) (unit : TrackedUnit) (m' : Usage) (unit' : TrackedUnit) : Prop where
  global : m'.m_global_memory_usage + unit.global m.manager_heap_type =
    m.m_global_memory_usage + unit'.global m.manager_heap_type
  active : m'.m_active_memory_usage + unit.active m.manager_heap_type =
    m.m_active_memory_usage + unit'.active m.manager_heap_type

section Calls

variable (m : Usage) (unit : TrackedUnit)

theorem balanced_refl : Balanced m unit m unit := ⟨rfl, rfl⟩

theorem updateMemoryUsage_type :
    (unit.UpdateMemoryUsage m).1.manager_heap_type = m.manager_heap_type := by
  unfold TrackedUnit.UpdateMemoryUsage TrackedUnit.UpdateMemoryUsageGlobal
    TrackedUnit.UpdateMemoryUsageActive
  dsimp only
  split <;> split <;> rfl

theorem heapAdjust_balanced_iff (adjusted : Heap) :
    Balanced m unit (unit.HeapAdjust m adjusted).1 (unit.HeapAdjust m adjusted).2 ↔
      Fits m.manager_heap_type unit (.HeapAdjust adjusted) := by
  obtain ⟨heap, -, is_global, is_active, -, -, is_freeable⟩ := unit
  rw [balanced_iff]
  cases is_global <;> cases is_active <;> cases is_freeable <;>
    simp [TrackedUnit.HeapAdjust, TrackedUnit.UpdateMemoryUsage,
      TrackedUnit.UpdateMemoryUsageGlobal, TrackedUnit.UpdateMemoryUsageActive,
      TrackedUnit.global, TrackedUnit.active, Usage.TrackMemoryUsageGlobal,
      Usage.TrackMemoryUsageActive, Fits, UpdateFits, eq_comm, BitVec.add_assoc]
  -- tracked globally, and now actively: both counters are off unless neither heap has a size
  constructor
  · rintro ⟨hsize, hadjusted⟩
    exact ⟨hadjusted, hadjusted.symm.trans hsize⟩
  · rintro ⟨hadjusted, hsize⟩
    exact ⟨hadjusted.trans hsize, hadjusted⟩

theorem updateMemoryUsage_balanced_iff :
    Balanced m unit (unit.UpdateMemoryUsage m).1 (unit.UpdateMemoryUsage m).2 ↔
      UpdateFits m.manager_heap_type unit := by
  apply (heapAdjust_balanced_iff m unit unit.m_resource_heap).trans
  exact ⟨fun h => h.1, fun h => ⟨h, fun _ => rfl⟩⟩

theorem trackMemoryUsage_balanced_iff :
    Balanced m unit (unit.TrackMemoryUsage m).1 (unit.TrackMemoryUsage m).2 ↔
      Fits m.manager_heap_type unit .TrackMemoryUsage := by
  unfold TrackedUnit.TrackMemoryUsage Fits
  split_ifs with hexternal hadjusted
  · simp only [hexternal, Bool.true_eq_false, false_imp_iff, iff_true]
    exact ⟨rfl, rfl⟩
  · simp only [Bool.not_eq_true] at hexternal
    simp only [hexternal, hadjusted, true_imp_iff]
    exact updateMemoryUsage_balanced_iff m unit
  · simp only [hadjusted, false_imp_iff, imp_true_iff, iff_true]
    exact balanced_refl m unit

theorem releaseMemoryUsageGlobal_balanced :
    Balanced m unit (unit.ReleaseMemoryUsageGlobal m).1 (unit.ReleaseMemoryUsageGlobal m).2 := by
  unfold TrackedUnit.ReleaseMemoryUsageGlobal
  split_ifs with htracked
  · refine ⟨?_, rfl⟩
    simp [Usage.ReleaseMemoryUsageGlobal, TrackedUnit.global, htracked]
  · exact balanced_refl m unit

theorem releaseMemoryUsageActive_balanced :
    Balanced m unit (unit.ReleaseMemoryUsageActive m).1 (unit.ReleaseMemoryUsageActive m).2 := by
  unfold TrackedUnit.ReleaseMemoryUsageActive
  split_ifs with htracked
  · refine ⟨rfl, ?_⟩
    simp [Usage.ReleaseMemoryUsageActive, TrackedUnit.active, htracked]
  · exact balanced_refl m unit

theorem call_balanced_iff (c : Call) :
    Balanced m unit (unit.call m c).1 (unit.call m c).2 ↔ Fits m.manager_heap_type unit c := by
  cases c with
  | TrackMemoryUsage => exact trackMemoryUsage_balanced_iff m unit
  | UpdateMemoryUsage => exact updateMemoryUsage_balanced_iff m unit
  | ReleaseMemoryUsageGlobal => exact iff_of_true (releaseMemoryUsageGlobal_balanced m unit) trivial
  | ReleaseMemoryUsageActive => exact iff_of_true (releaseMemoryUsageActive_balanced m unit) trivial
  | HeapAdjust adjusted => exact heapAdjust_balanced_iff m unit adjusted
  | SetFreeable is_freeable => exact iff_of_true ⟨rfl, rfl⟩ trivial

theorem call_type (c : Call) : (unit.call m c).1.manager_heap_type = m.manager_heap_type := by
  cases c with
  | TrackMemoryUsage =>
    simp only [TrackedUnit.call, TrackedUnit.TrackMemoryUsage]
    split_ifs
    · rfl
    · exact updateMemoryUsage_type m unit
    · rfl
  | UpdateMemoryUsage => exact updateMemoryUsage_type m unit
  | ReleaseMemoryUsageGlobal =>
    simp only [TrackedUnit.call, TrackedUnit.ReleaseMemoryUsageGlobal]
    split_ifs <;> rfl
  | ReleaseMemoryUsageActive =>
    simp only [TrackedUnit.call, TrackedUnit.ReleaseMemoryUsageActive]
    split_ifs <;> rfl
  | HeapAdjust adjusted => exact updateMemoryUsage_type m _
  | SetFreeable is_freeable => rfl

end Calls

variable [Fintype U] {s : State U}

omit [DecidableEq U] in
theorem accounted_iff : Accounted s ↔
    s.manager.m_global_memory_usage = ∑ u, (s.units u).global s.manager.manager_heap_type ∧
    s.manager.m_active_memory_usage = ∑ u, (s.units u).active s.manager.manager_heap_type := by
  refine ⟨fun h => ⟨h.global, h.active⟩, fun ⟨hglobal, hactive⟩ => ⟨hglobal, hactive, ?_⟩⟩
  intro hreleased
  rw [hglobal, hactive]
  constructor
  · apply Finset.sum_eq_zero
    intro u _
    simp [TrackedUnit.global, (hreleased u).1]
  · apply Finset.sum_eq_zero
    intro u _
    simp [TrackedUnit.active, (hreleased u).2]

theorem sum_update {M X : Type*} [AddCommMonoid M] (f : X → M) (g : U → X) (u : U) (x : X) :
    ∑ v, f (Function.update g u x v) + f (g u) = ∑ v, f (g v) + f x := by
  have hothers : ∑ v ∈ Finset.univ.erase u, f (Function.update g u x v) =
      ∑ v ∈ Finset.univ.erase u, f (g v) := by
    apply Finset.sum_congr rfl
    intro v hv
    rw [Function.update_of_ne (Finset.ne_of_mem_erase hv)]
  rw [← Finset.sum_erase_add _ _ (Finset.mem_univ u), Function.update_self, hothers,
    add_right_comm, Finset.sum_erase_add _ (fun v => f (g v)) (Finset.mem_univ u)]

theorem counter_iff {type : ManagerHeapType} {f : ManagerHeapType → TrackedUnit → BitVec 64}
    {units : U → TrackedUnit} {u : U} {x : TrackedUnit} {n n' : BitVec 64}
    (hn : n = ∑ v, f type (units v)) :
    n' = ∑ v, f type (Function.update units u x v) ↔ n' + f type (units u) = n + f type x := by
  rw [← add_left_inj (f type (units u)), sum_update (f type) units u x, hn]

theorem step_accounted_iff (hs : Accounted s) (c : U × Call) :
    Accounted (step s c) ↔ Fits s.manager.manager_heap_type (s.units c.1) c.2 := by
  rw [← call_balanced_iff s.manager (s.units c.1) c.2, accounted_iff, balanced_iff]
  unfold step
  simp only [call_type]
  exact and_congr (counter_iff hs.global) (counter_iff hs.active)

theorem usage_accounted_iff (hs : Accounted s) (calls : List (U × Call)) :
    Calls.Throughout step Accounted (fun _ _ => True) s calls ↔
      Calls.EachIn step (fun s c => Fits s.manager.manager_heap_type (s.units c.1) c.2) s calls := by
  apply Calls.throughout_iff (U := fun _ _ => True) (fun (q : State U) (h : Accounted q) => h)
    _ _ hs Calls.eachIn_true
  · intro s c hs _ hfits
    exact ⟨trivial, (step_accounted_iff hs c).mpr hfits⟩
  · intro s c hs _ _ hnext
    exact (step_accounted_iff hs c).mp hnext

def oneUnit (is_freeable : Bool) : State Unit where
  manager := ⟨.ExpHeap, 0, 0⟩
  units _ := ⟨⟨1, 1⟩, false, false, false, false, false, is_freeable⟩

theorem oneUnit_accounted (is_freeable : Bool) : Accounted (oneUnit is_freeable) :=
  accounted_iff.mpr ⟨rfl, rfl⟩

theorem usage_accounted_iff_freeable :
    Calls.Throughout step Accounted (fun _ _ => True) (oneUnit true)
      [((), .TrackMemoryUsage), ((), .ReleaseMemoryUsageGlobal)] := by
  apply (usage_accounted_iff (oneUnit_accounted true) _).mpr
  refine ⟨trivial, ?_, trivial, trivial, trivial⟩
  intro _ _ _ hfreeable
  exact Bool.noConfusion hfreeable

theorem inUse_not_accounted :
    Accounted (oneUnit false) ∧ ¬ Calls.Throughout step Accounted (fun _ _ => True)
      (oneUnit false) [((), .TrackMemoryUsage)] := by
  refine ⟨oneUnit_accounted false, fun h => ?_⟩
  have hglobal := h.2.2.global
  revert hglobal
  decide

end Awn.ResourceMemory
