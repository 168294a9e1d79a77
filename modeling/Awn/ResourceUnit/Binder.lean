import Awn.ResourceUnit.Unit

/-!
`awn::res::ResourceBinder`, of binders that nothing is loaded through: their watcher has no task.
The resource unit of a binder is what the binder sees of it.
-/

namespace Awn

namespace ResourceBinder

inductive Status
  | Uninitialized
  | ResourceInitialized
  | Referenced
  | Reclaimed
  | InLoad
  | UnknownError
  | RequiresReprocess
  | FileNotFound
  | FailedToGetDecompressedSize
  | FailedToInitializeResource
  | InvalidUserResourceSize
  | InvalidResourceSize
  | FileNotAvailable
  | MemoryAllocationFailure
  | NoResourceUnitOnFinalize
  deriving DecidableEq

def Status.IsErrorStatus : Status → Bool
  | Uninitialized | ResourceInitialized | Referenced | Reclaimed | InLoad => false
  | _ => true

end ResourceBinder

structure ResourceBinder where
  m_is_initialized : Bool
  m_load_guard : Bool
  m_is_finalize : BitVec 1
  m_complete_guard : Bool
  m_status : ResourceBinder.Status
  m_resource_unit : Option ResourceUnit

def ResourceUnit.SetBinderStatusFromError (unit : ResourceUnit) : ResourceBinder.Status :=
  if unit.m_is_file_not_found = true then .FileNotFound
  else if unit.m_is_fail_get_file_size = true then .FailedToGetDecompressedSize
  else if unit.m_is_fail_init_resource = true then .FailedToInitializeResource
  else if unit.m_is_bad_user_resource_size = true then .InvalidUserResourceSize
  else if unit.m_is_bad_resource_size = true then .InvalidResourceSize
  else if unit.m_is_file_not_available = true then .FileNotAvailable
  else if unit.m_is_memory_allocation_failure = true then .MemoryAllocationFailure
  else .UnknownError

namespace ResourceBinder

def constructed : ResourceBinder := ⟨false, false, 0, false, .Uninitialized, none⟩

variable (binder : ResourceBinder)

def Finalize : ResourceBinder :=
  if binder.m_load_guard = false then binder
  else
    let binder := { binder with
      m_is_finalize := ((binder.m_is_finalize.setWidth 32 &&& 0xf8) ||| 0x4).setWidth 1 }
    match binder.m_resource_unit with
    | none => { binder with m_status := .NoResourceUnitOnFinalize }
    | some _ => { binder with m_resource_unit := none }

def HandleResourceUnitError (unit : ResourceUnit) : ResourceBinder :=
  ({ binder with m_status := unit.SetBinderStatusFromError }).Finalize

/-- With the unit of the binder; `none` stands for a wait that has no end. -/
def InitializeResource (unit : ResourceUnit) : Option ResourceBinder :=
  let update (binder : ResourceBinder) : ResourceBinder :=
    if binder.m_status = .InLoad then { binder with m_status := .ResourceInitialized } else binder
  if unit.IsResourceInitialized = false then
    unit.InitializeResource.map fun (result, unit) =>
      let binder := { binder with m_resource_unit := some unit }
      if result = false then
        ({ binder with m_status := .FailedToInitializeResource }).Finalize
      else update binder
  else some (update binder)

def exitComplete (exit_status : Status) : ResourceBinder :=
  ({ binder with m_complete_guard := true, m_status := exit_status }).Finalize

def completeUnit (unit : ResourceUnit) : Option (Bool × ResourceBinder) :=
  match unit.m_status with
  | .Loaded | .InResourceInitialize | .ResourcePreFinalized | .ResourceInitialized =>
    (binder.InitializeResource unit).map fun binder =>
      (true, { binder with m_complete_guard := true })
  | .Error => some (true, { binder.HandleResourceUnitError unit with m_complete_guard := true })
  | .FailedToInitializeResource | .FailedToPostInitializeResource =>
    some (false, binder.exitComplete .FailedToInitializeResource)
  | .ResourcePostInitialized =>
    some (true, { binder with
      m_status := if binder.m_status = .InLoad then .ResourceInitialized else binder.m_status
      m_complete_guard := true })
  | _ => some (false, binder)

def Complete : Option (Bool × ResourceBinder) :=
  if binder.m_complete_guard = true then some (true, binder)
  else if ¬ (binder.m_load_guard = true ∧ binder.m_is_finalize = 0) then some (false, binder)
  else
    match binder.m_resource_unit with
    | none =>
      if binder.m_status.IsErrorStatus = true then some (true, binder.exitComplete binder.m_status)
      else some (false, binder.exitComplete .Uninitialized)
    | some unit =>
      if unit.IsInLoad = true then some (false, binder)
      else if binder.m_status.IsErrorStatus = true then
        some (true, binder.exitComplete binder.m_status)
      else if binder.m_status = .Uninitialized then some (false, binder.exitComplete .Uninitialized)
      else binder.completeUnit unit

/-- `none` stands for the failed assertion. The error without a unit is left to nobody. -/
def ReferenceBinderAsync (binder_to_reference : ResourceBinder) : Option ResourceBinder :=
  if binder.m_load_guard = true then none
  else
    let binder := { binder with
      m_is_initialized := false
      m_load_guard := true
      m_is_finalize := 0
      m_complete_guard := false }
    match binder_to_reference.m_resource_unit with
    | none => some binder
    | some resource_unit => some { binder with
        m_resource_unit := some resource_unit.IncrementReference
        m_status := .Referenced }

def ReferenceBinderSync (binder_to_reference : ResourceBinder) : Option ResourceBinder :=
  (binder.ReferenceBinderAsync binder_to_reference).bind fun binder =>
    binder.Complete.map Prod.snd

def IsLoaded : Bool :=
  binder.m_load_guard = true ∧ binder.m_is_finalize = 0 ∧
    binder.m_resource_unit.any ResourceUnit.IsLoaded

end ResourceBinder

def ResourceUnit.Usable (unit : ResourceUnit) : Prop :=
  unit.IsLoaded = true ∧
    match unit.m_status with
    | .Error | .FailedToInitializeResource | .FailedToPostInitializeResource => False
    | .Loaded | .InResourceInitialize | .ResourcePreFinalized | .ResourceInitialized =>
      unit.IsResourceInitialized = true ∨ ∃ unit', unit.InitializeResource = some (true, unit')
    | _ => True

namespace ResourceUnit

variable {unit unit' : ResourceUnit}

theorem isInLoad_eq_false_iff : unit.IsInLoad = false ↔ unit.IsLoaded = true := by
  unfold IsInLoad IsLoaded
  cases unit.m_load_task_status <;> simp

theorem exitWithoutResource_load (unit : ResourceUnit) (guard_status : Status) :
    (unit.exitWithoutResource guard_status).m_load_task_status = unit.m_load_task_status := by
  unfold exitWithoutResource ReleaseManagedReference
  split <;> rfl

theorem postInitialize_loads (unit : ResourceUnit) (resource : Resource) :
    (unit.postInitialize resource).2.m_load_task_status = unit.m_load_task_status ∧
      (unit.postInitialize resource).2.m_status ≠ .InLoad := by
  unfold postInitialize
  split
  · exact ⟨exitWithoutResource_load _ _, Status.noConfusion⟩
  · exact ⟨rfl, Status.noConfusion⟩

theorem initializeBody_loads (h : unit.m_status ≠ .InLoad) :
    unit.initializeBody.2.m_load_task_status = unit.m_load_task_status ∧
      unit.initializeBody.2.m_status ≠ .InLoad := by
  unfold initializeBody
  split
  · exact ⟨rfl, Status.noConfusion⟩
  · split_ifs
    · exact ⟨rfl, h⟩
    · exact ⟨exitWithoutResource_load _ _, Status.noConfusion⟩
    · exact postInitialize_loads _ _
    · exact postInitialize_loads _ _

theorem initializeResource_isLoaded {result : Bool} (hstatus : unit.m_status ≠ .InLoad)
    (h : unit.InitializeResource = some (result, unit')) (hloaded : unit.IsLoaded = true) :
    unit'.IsLoaded = true := by
  have hloads : unit'.m_load_task_status = unit.m_load_task_status ∧ unit'.m_status ≠ .InLoad := by
    unfold InitializeResource at h
    dsimp only at h
    split_ifs at h
    · simp only [Option.some.injEq, Prod.mk.injEq] at h
      obtain ⟨-, rfl⟩ := h
      exact ⟨rfl, hstatus⟩
    · simp only [Option.some.injEq, Prod.mk.injEq] at h
      obtain ⟨-, rfl⟩ := h
      have hguarded : ({ unit with
          m_resource_initialize_guard := unit.m_resource_initialize_guard + 1 }).m_status ≠
            .InLoad := hstatus
      exact initializeBody_loads hguarded
  simp only [IsLoaded, decide_eq_true_eq] at hloaded ⊢
  rw [hloads.1]
  exact hloaded.imp_right fun ⟨hdone, _⟩ => ⟨hdone, hloads.2⟩

end ResourceUnit

namespace ResourceBinder

variable {binder : ResourceBinder} {unit : ResourceUnit}

theorem finalize_not_isLoaded (h : binder.m_load_guard = true) : binder.Finalize.IsLoaded = false := by
  unfold Finalize
  rw [if_neg (by simp [h])]
  cases binder.m_resource_unit <;>
    simp only [IsLoaded, Option.any_none, Bool.false_eq_true, and_false, decide_false]

def Referencing (binder : ResourceBinder) (unit : ResourceUnit) : Prop :=
  binder.m_load_guard = true ∧ binder.m_is_finalize = 0 ∧ binder.m_complete_guard = false ∧
    binder.m_status = .Referenced ∧ binder.m_resource_unit = some unit

theorem Referencing.isLoaded (h : binder.Referencing unit) : binder.IsLoaded = unit.IsLoaded := by
  obtain ⟨hguard, hfinalize, -, -, hunit⟩ := h
  simp [IsLoaded, hguard, hfinalize, hunit]

theorem Referencing.initializeResource_iff (h : binder.Referencing unit)
    (hloaded : unit.IsLoaded = true) (hstatus : unit.m_status ≠ .InLoad) :
    (∃ b, binder.InitializeResource unit = some b ∧ b.IsLoaded = true) ↔
      unit.IsResourceInitialized = true ∨
        ∃ unit', unit.InitializeResource = some (true, unit') := by
  have hreferenced : binder.m_status ≠ .InLoad := by simp [h.2.2.2.1]
  unfold InitializeResource
  dsimp only
  split_ifs with hinitialized
  · rw [hinitialized]
    simp only [Bool.false_eq_true, false_or]
    constructor
    · rintro ⟨b, hb, hbloaded⟩
      obtain ⟨⟨result, unit'⟩, hunit', rfl⟩ := Option.map_eq_some_iff.mp hb
      dsimp only at hbloaded
      split_ifs at hbloaded with hresult
      · simp [finalize_not_isLoaded, h.1] at hbloaded
      · exact ⟨unit', by rw [hunit', eq_true_of_ne_false hresult]⟩
    · rintro ⟨unit', hunit'⟩
      refine ⟨{ binder with m_resource_unit := some unit' }, by simp [hunit'], ?_⟩
      simp [IsLoaded, h.1, h.2.1,
        ResourceUnit.initializeResource_isLoaded hstatus hunit' hloaded]
  · rw [eq_true_of_ne_false hinitialized]
    simp only [true_or, iff_true]
    exact ⟨binder, rfl, h.isLoaded.trans hloaded⟩

theorem Referencing.completeUnit_iff (h : binder.Referencing unit) (hloaded : unit.IsLoaded = true) :
    (∃ result, binder.completeUnit unit = some result ∧ result.2.IsLoaded = true) ↔
      unit.Usable := by
  have hbinder : binder.IsLoaded = true := h.isLoaded.trans hloaded
  have hinitialize := h.initializeResource_iff hloaded
  have hlost : ∀ ok : Bool, ∀ b : ResourceBinder, b.IsLoaded = false →
      ¬ ∃ result, some (ok, b) = some result ∧ result.2.IsLoaded = true := by
    rintro ok b hb ⟨result, heq, hresult⟩
    obtain rfl := Option.some.inj heq
    exact absurd hresult (by simp [hb])
  have hmap : (∃ result, (binder.InitializeResource unit).map
      (fun b => (true, { b with m_complete_guard := true })) = some result ∧
        result.2.IsLoaded = true) ↔
      ∃ b, binder.InitializeResource unit = some b ∧ b.IsLoaded = true := by
    constructor
    · rintro ⟨result, hresult, hresultloaded⟩
      obtain ⟨b, hb, rfl⟩ := Option.map_eq_some_iff.mp hresult
      exact ⟨b, hb, hresultloaded⟩
    · rintro ⟨b, hb, hbloaded⟩
      exact ⟨_, by rw [hb]; rfl, hbloaded⟩
  unfold completeUnit ResourceUnit.Usable
  cases hstatus : unit.m_status with
  | Loaded | InResourceInitialize | ResourcePreFinalized | ResourceInitialized =>
    dsimp only
    rw [hmap, hinitialize (by simp [hstatus])]
    simp only [hloaded, true_and]
  | Error | FailedToInitializeResource | FailedToPostInitializeResource =>
    dsimp only
    simp only [and_false, iff_false]
    exact hlost _ _ (finalize_not_isLoaded h.1)
  | ResourcePostInitialized =>
    exact iff_of_true ⟨_, rfl, hbinder⟩ ⟨hloaded, trivial⟩
  | Uninitialized | Freed | InLoad | InResourcePreFinalize | InResourceFinalize
    | ResourceFinalized | FailedToPreFinalizeResource =>
    exact iff_of_true ⟨_, rfl, hbinder⟩ ⟨hloaded, trivial⟩

theorem Referencing.complete_iff (h : binder.Referencing unit) :
    (∃ result, binder.Complete = some result ∧ result.2.IsLoaded = true) ↔ unit.Usable := by
  have hbinder := h.isLoaded
  obtain ⟨hguard, hfinalize, hcomplete, hreferenced, hunit⟩ := id h
  unfold Complete
  rw [if_neg (by simp [hcomplete]), if_neg (by simp [hguard, hfinalize]), hunit]
  dsimp only
  split_ifs with hload
  · have hloaded : unit.IsLoaded ≠ true := by
      rw [Ne, ← ResourceUnit.isInLoad_eq_false_iff]
      simp [hload]
    refine iff_of_false ?_ fun husable => hloaded husable.1
    rintro ⟨result, heq, hresult⟩
    obtain rfl := Option.some.inj heq
    exact hloaded (hbinder.symm.trans hresult)
  · simp [hreferenced, Status.IsErrorStatus] at *
  · simp [hreferenced] at *
  · exact h.completeUnit_iff
      (ResourceUnit.isInLoad_eq_false_iff.mp (eq_false_of_ne_true hload))

theorem referenceBinderSync_iff (h : binder.m_load_guard = false) {archive : ResourceBinder}
    (hunit : archive.m_resource_unit = some unit) :
    (∃ b, binder.ReferenceBinderSync archive = some b ∧ b.IsLoaded = true) ↔
      unit.IncrementReference.Usable := by
  unfold ReferenceBinderSync ReferenceBinderAsync
  rw [if_neg (by simp [h]), hunit]
  simp only [Option.bind_some, Option.map_eq_some_iff]
  have hreferencing : Referencing { binder with
      m_is_initialized := false
      m_load_guard := true
      m_is_finalize := 0
      m_complete_guard := false
      m_resource_unit := some unit.IncrementReference
      m_status := .Referenced } unit.IncrementReference := ⟨rfl, rfl, rfl, rfl, rfl⟩
  rw [← hreferencing.complete_iff]
  constructor
  · rintro ⟨b, ⟨result, hresult, rfl⟩, hb⟩
    exact ⟨result, hresult, hb⟩
  · rintro ⟨result, hresult, hb⟩
    exact ⟨result.2, ⟨result, hresult, rfl⟩, hb⟩

end ResourceBinder

end Awn
