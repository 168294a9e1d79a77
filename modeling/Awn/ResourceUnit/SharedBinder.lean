import Awn.ResourceUnit.Binder
import Mathlib.Logic.Function.Basic

/-!
`awn::res::ResourceBinder`, of binders two of which may refer to one unit. The units stand in a
store; with its unit from there, such a binder is a `ResourceBinder`.
-/

namespace Awn

structure SharedBinder (U : Type*) where
  m_is_initialized : Bool
  m_load_guard : Bool
  m_is_finalize : BitVec 1
  m_complete_guard : Bool
  m_status : ResourceBinder.Status
  m_resource_unit : Option U

structure UnitStore (U : Type*) where
  units : U → ResourceUnit
  m_unload_exe : List U

namespace SharedBinder

variable {U : Type*}

def constructed : SharedBinder U := ⟨false, false, 0, false, .Uninitialized, none⟩

variable (binder : SharedBinder U) (store : UnitStore U)

def view : ResourceBinder where
  m_is_initialized := binder.m_is_initialized
  m_load_guard := binder.m_load_guard
  m_is_finalize := binder.m_is_finalize
  m_complete_guard := binder.m_complete_guard
  m_status := binder.m_status
  m_resource_unit := binder.m_resource_unit.map store.units

def Finalize : SharedBinder U × UnitStore U :=
  if binder.m_load_guard = false then (binder, store)
  else
    let binder := { binder with
      m_is_finalize := ((binder.m_is_finalize.setWidth 32 &&& 0xf8) ||| 0x4).setWidth 1 }
    match binder.m_resource_unit with
    | none => ({ binder with m_status := .NoResourceUnitOnFinalize }, store)
    | some unit => ({ binder with m_resource_unit := none },
        { store with m_unload_exe := store.m_unload_exe ++ [unit] })

def HandleResourceUnitError (unit : U) : SharedBinder U × UnitStore U :=
  ({ binder with m_status := (store.units unit).SetBinderStatusFromError }).Finalize store

section InitializeResource

variable [DecidableEq U]

def InitializeResource (unit : U) : Option (SharedBinder U × UnitStore U) :=
  let update (binder : SharedBinder U) : SharedBinder U :=
    if binder.m_status = .InLoad then { binder with m_status := .ResourceInitialized } else binder
  if (store.units unit).IsResourceInitialized = false then
    (store.units unit).InitializeResource.map fun (result, resource_unit) =>
      let store := { store with units := Function.update store.units unit resource_unit }
      if result = false then
        ({ binder with m_status := .FailedToInitializeResource }).Finalize store
      else (update binder, store)
  else some (update binder, store)

def exitComplete (exit_status : ResourceBinder.Status) : SharedBinder U × UnitStore U :=
  ({ binder with m_complete_guard := true, m_status := exit_status }).Finalize store

def completed : SharedBinder U := { binder with m_complete_guard := true }

def completeUnit (unit : U) : Option (Bool × SharedBinder U × UnitStore U) :=
  match (store.units unit).m_status with
  | .Loaded | .InResourceInitialize | .ResourcePreFinalized | .ResourceInitialized =>
    (binder.InitializeResource store unit).map fun (binder, store) =>
      (true, binder.completed, store)
  | .Error =>
    let (binder, store) := binder.HandleResourceUnitError store unit
    some (true, binder.completed, store)
  | .FailedToInitializeResource | .FailedToPostInitializeResource =>
    some (false, binder.exitComplete store .FailedToInitializeResource)
  | .ResourcePostInitialized =>
    some (true, { binder with
      m_status := if binder.m_status = .InLoad then .ResourceInitialized else binder.m_status
      m_complete_guard := true }, store)
  | _ => some (false, binder, store)

def Complete : Option (Bool × SharedBinder U × UnitStore U) :=
  if binder.m_complete_guard = true then some (true, binder, store)
  else if ¬ (binder.m_load_guard = true ∧ binder.m_is_finalize = 0) then
    some (false, binder, store)
  else
    match binder.m_resource_unit with
    | none =>
      if binder.m_status.IsErrorStatus = true then
        some (true, binder.exitComplete store binder.m_status)
      else some (false, binder.exitComplete store .Uninitialized)
    | some unit =>
      if (store.units unit).IsInLoad = true then some (false, binder, store)
      else if binder.m_status.IsErrorStatus = true then
        some (true, binder.exitComplete store binder.m_status)
      else if binder.m_status = .Uninitialized then
        some (false, binder.exitComplete store .Uninitialized)
      else binder.completeUnit store unit

def ReferenceBinderAsync (binder_to_reference : SharedBinder U) :
    Option (SharedBinder U × UnitStore U) :=
  if binder.m_load_guard = true then none
  else
    let binder := { binder with
      m_is_initialized := false
      m_load_guard := true
      m_is_finalize := 0
      m_complete_guard := false }
    match binder_to_reference.m_resource_unit with
    | none => some (binder, store)
    | some resource_unit => some ({ binder with
          m_resource_unit := some resource_unit
          m_status := .Referenced },
        { store with
          units := Function.update store.units resource_unit
            (store.units resource_unit).IncrementReference })

def ReferenceBinderSync (binder_to_reference : SharedBinder U) :
    Option (SharedBinder U × UnitStore U) :=
  (binder.ReferenceBinderAsync store binder_to_reference).bind fun (binder, store) =>
    (binder.Complete store).map Prod.snd

end InitializeResource

def IsResourceInitialized : Bool :=
  binder.m_load_guard = true ∧
    binder.m_resource_unit.any fun unit =>
      (store.units unit).IsLoaded && binder.m_complete_guard &&
        (store.units unit).IsResourceInitialized

section View

variable {binder} {store}

@[simp] theorem view_load_guard : (binder.view store).m_load_guard = binder.m_load_guard := rfl

@[simp] theorem view_is_finalize : (binder.view store).m_is_finalize = binder.m_is_finalize := rfl

@[simp] theorem view_complete_guard :
    (binder.view store).m_complete_guard = binder.m_complete_guard := rfl

@[simp] theorem view_status : (binder.view store).m_status = binder.m_status := rfl

@[simp] theorem view_resource_unit :
    (binder.view store).m_resource_unit = binder.m_resource_unit.map store.units := rfl

abbrev viewed (result : SharedBinder U × UnitStore U) : ResourceBinder := result.1.view result.2

theorem finalize_view : viewed (binder.Finalize store) = (binder.view store).Finalize := by
  obtain ⟨initialized, load_guard, finalize, complete_guard, status, unit⟩ := binder
  cases load_guard <;> cases unit <;> rfl

theorem exitComplete_view (exit_status : ResourceBinder.Status) :
    viewed (binder.exitComplete store exit_status) =
      (binder.view store).exitComplete exit_status := finalize_view

variable [DecidableEq U] {unit : U}

theorem initializeResource_view (store : UnitStore U) (hunit : binder.m_resource_unit = some unit) :
    (binder.InitializeResource store unit).map viewed =
      (binder.view store).InitializeResource (store.units unit) := by
  unfold InitializeResource ResourceBinder.InitializeResource
  dsimp only
  rw [view_status]
  split_ifs with hinitialized hload hload
  · cases (store.units unit).InitializeResource with
    | none => rfl
    | some outcome =>
      simp only [Option.map_some]
      split_ifs with hresult
      · simp [finalize_view, view, hunit]
      · simp [view, hunit]
  · cases (store.units unit).InitializeResource with
    | none => rfl
    | some outcome =>
      simp only [Option.map_some]
      split_ifs with hresult
      · simp [finalize_view, view, hunit]
      · simp [view, hunit]
  · rfl
  · rfl

theorem completeUnit_view (hunit : binder.m_resource_unit = some unit) :
    (binder.completeUnit store unit).map (Prod.map id viewed) =
      (binder.view store).completeUnit (store.units unit) := by
  have hinitialize := initializeResource_view store hunit
  unfold completeUnit ResourceBinder.completeUnit
  cases (store.units unit).m_status with
  | Loaded | InResourceInitialize | ResourcePreFinalized | ResourceInitialized =>
    dsimp only
    rw [← hinitialize, Option.map_map, Option.map_map]
    rfl
  | Error =>
    dsimp only
    have herror : viewed (binder.HandleResourceUnitError store unit) =
        (binder.view store).HandleResourceUnitError (store.units unit) := finalize_view
    rw [← herror]
    rfl
  | FailedToInitializeResource | FailedToPostInitializeResource =>
    dsimp only
    rw [← exitComplete_view]
    rfl
  | ResourcePostInitialized => rfl
  | Uninitialized | Freed | InLoad | InResourcePreFinalize | InResourceFinalize
    | ResourceFinalized | FailedToPreFinalizeResource => rfl

theorem complete_view :
    (binder.Complete store).map (Prod.map id viewed) = (binder.view store).Complete := by
  unfold Complete ResourceBinder.Complete
  rw [view_complete_guard, view_load_guard, view_is_finalize, view_status, view_resource_unit]
  cases hunit : binder.m_resource_unit with
  | none =>
    dsimp only [Option.map_none]
    simp only [← exitComplete_view]
    split_ifs <;> rfl
  | some unit =>
    dsimp only [Option.map_some]
    simp only [← exitComplete_view, ← completeUnit_view hunit]
    split_ifs <;> rfl

theorem referenceBinderAsync_view (binder_to_reference : SharedBinder U) :
    (binder.ReferenceBinderAsync store binder_to_reference).map viewed =
      (binder.view store).ReferenceBinderAsync (binder_to_reference.view store) := by
  unfold ReferenceBinderAsync ResourceBinder.ReferenceBinderAsync
  cases hguard : binder.m_load_guard with
  | true => simp [hguard]
  | false =>
    simp only [view_load_guard, hguard, Bool.false_eq_true, if_false, view_resource_unit]
    cases binder_to_reference.m_resource_unit with
    | none => rfl
    | some resource_unit => simp [view]

theorem referenceBinderSync_view (binder_to_reference : SharedBinder U) :
    (binder.ReferenceBinderSync store binder_to_reference).map viewed =
      (binder.view store).ReferenceBinderSync (binder_to_reference.view store) := by
  unfold ReferenceBinderSync ResourceBinder.ReferenceBinderSync
  rw [← referenceBinderAsync_view, Option.map_bind, Option.bind_map]
  congr 1
  funext ⟨binder, store⟩
  change ((binder.Complete store).map Prod.snd).map viewed =
    (binder.view store).Complete.map Prod.snd
  rw [← complete_view, Option.map_map, Option.map_map]
  rfl

end View

end SharedBinder

end Awn
