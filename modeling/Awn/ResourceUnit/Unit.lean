import Mathlib.Data.BitVec

/-! `awn::res::ResourceUnit`, as far as the binders and the initialisation of its resource ask. -/

namespace Awn

inductive LoadTaskStatus
  | Uninitialized
  | Cancelled
  | ForceCancelled
  | Queued
  | Acquired
  | FreeExecute
  | PostExecute
  | Complete
  deriving DecidableEq

/-- What the virtual functions of a resource come to; `true` is `ResultSuccess`. -/
structure Resource where
  Initialize : Bool
  PostInitialize : Bool

namespace ResourceUnit

inductive Status
  | Uninitialized
  | Freed
  | InLoad
  | Loaded
  | InResourceInitialize
  | ResourceInitialized
  | ResourcePostInitialized
  | InResourcePreFinalize
  | ResourcePreFinalized
  | InResourceFinalize
  | ResourceFinalized
  | Error
  | FailedToInitializeResource
  | FailedToPostInitializeResource
  | FailedToPreFinalizeResource
  deriving DecidableEq

end ResourceUnit

structure ResourceUnit where
  m_is_resource_initializable : Bool
  m_is_file_not_found : Bool
  m_is_fail_get_file_size : Bool
  m_is_fail_init_resource : Bool
  m_is_bad_user_resource_size : Bool
  m_is_bad_resource_size : Bool
  m_is_file_not_available : Bool
  m_is_memory_allocation_failure : Bool
  m_is_managed : Bool
  m_is_freeable_for_memory_manager : Bool
  m_status : ResourceUnit.Status
  m_reference_count : BitVec 32
  m_resource_initialize_guard : BitVec 32
  m_resource : Option Resource
  m_load_task_status : LoadTaskStatus
  m_load_task_finish_event : Bool
  m_status_update_event : Bool

namespace ResourceUnit

variable (unit : ResourceUnit)

def IsInLoad : Bool :=
  if unit.m_load_task_status = .Uninitialized ∨ unit.m_load_task_status = .Complete then
    unit.m_status = .InLoad
  else unit.m_load_task_status ≠ .Cancelled

def IsLoaded : Bool :=
  unit.m_load_task_status = .Cancelled ∨
    (unit.m_load_task_status = .Uninitialized ∨ unit.m_load_task_status = .Complete) ∧
      unit.m_status ≠ .InLoad

def IsResourceInitialized : Bool :=
  unit.m_status = .ResourceInitialized ∨
    unit.m_resource.isSome ∧ unit.m_status = .Loaded ∧ unit.m_is_resource_initializable = false

def IncrementReference : ResourceUnit :=
  { unit with
    m_reference_count := unit.m_reference_count + 1
    m_is_freeable_for_memory_manager := false }

def DecrementReference : ResourceUnit :=
  { unit with m_reference_count := unit.m_reference_count - 1 }

def ReleaseManagedReference : ResourceUnit :=
  if unit.m_is_managed = false then unit
  else { unit.DecrementReference with m_is_managed := false }

/-- `no_resource_exit_guard` of `InitializeResource`. -/
def exitWithoutResource (guard_status : Status) : ResourceUnit :=
  { unit.ReleaseManagedReference with m_status := guard_status }

def postInitialize (resource : Resource) : Bool × ResourceUnit :=
  if resource.PostInitialize = false then
    (false, unit.exitWithoutResource .FailedToPostInitializeResource)
  else (true, { unit with m_status := .ResourcePostInitialized })

/-- What `InitializeResource` does between the load and the signal. The tracking of the memory at
its end leaves all this alone. -/
def initializeBody : Bool × ResourceUnit :=
  match unit.m_resource with
  | none => (false, { unit with m_status := .FailedToInitializeResource })
  | some resource =>
    if unit.m_is_resource_initializable = false then (true, unit)
    else if unit.m_status = .Loaded then
      let unit := { unit with m_status := .InResourceInitialize }
      if resource.Initialize = false then
        (false, unit.exitWithoutResource .FailedToInitializeResource)
      else postInitialize { unit with m_status := .ResourceInitialized } resource
    else postInitialize { unit with m_status := .ResourceInitialized } resource

/-- What a caller of `InitializeResource` that has waited for another one reads off the status. -/
def initialized : Bool :=
  unit.m_status ≠ .FailedToInitializeResource ∧ unit.m_status ≠ .FailedToPostInitializeResource

/-- `InitializeResource` of a caller that is alone. `none` stands for a wait that has no end, as
there is nobody to set the event. -/
def InitializeResource : Option (Bool × ResourceUnit) :=
  let last_count := unit.m_resource_initialize_guard + 1
  let unit := { unit with m_resource_initialize_guard := last_count }
  if 0 < last_count then
    if unit.m_status_update_event = true then some (unit.initialized, unit) else none
  else if unit.m_load_task_finish_event = true then
    let (outcome, unit) := unit.initializeBody
    some (outcome, { unit with m_status_update_event := true })
  else none

end ResourceUnit

end Awn
