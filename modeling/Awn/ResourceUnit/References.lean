import Awn.ResourceMemory.Usage
import Awn.ResourceUnit.Deferred

/-!
The references of the units: those of binders, the managed one, and those that are released a frame
later.
-/

namespace Awn

namespace CountedUnit

variable (unit : CountedUnit)

def FailsCache (waited : ResourceUnit.Status) : Prop :=
  unit.m_is_cache_unload = false ∨ unit.m_is_cache_unload_for_no_ref = false ∨
    unit.m_is_cache_unload_for_no_error = false ∨
    match unit.m_status with
    | .Error | .FailedToInitializeResource | .FailedToPostInitializeResource => True
    | .InResourceInitialize | .ResourceInitialized => waited = .FailedToPostInitializeResource
    | _ => False

def IsLast (adjust_amount : BitVec 32) : Prop :=
  unit.m_reference_count + adjust_amount = 0 ∨
    unit.m_reference_count + adjust_amount = 1 ∧ unit.m_is_managed = true

end CountedUnit

namespace ResourceReferences

structure State (B : Type*) where
  run : DeferredRelease.Run
  m_resource_unit : B → Option ℕ

inductive Event (B : Type*)
  | SetToBinder (unit : ℕ) (binder : B)
  | IncrementReference (unit : ℕ)
  | DecrementReference (unit : ℕ)
  | AdjustReferenceCount (unit : ℕ) (adjust_amount : BitVec 32) (waited : ResourceUnit.Status)
  | ReleaseManagedReference (unit : ℕ)
  | FreeResourceUnitFromBinder (binder : B)
  | FinalizeBinder (binder : B)
  /-- On the control thread, or waiting for it. -/
  | FinalizeBinderSync (binder : B) (waited : ResourceUnit.Status)
  | ReserveUnload
  | advance
  | reserveUnload (waited : ResourceUnit.Status)

variable {B : Type*} [DecidableEq B]

namespace State

variable (s : State B)

omit [DecidableEq B] in
def setUnit (index : ℕ) (unit : CountedUnit) : State B :=
  { s with run := { s.run with units := Function.update s.run.units index unit } }

def setBinder (binder : B) (unit : Option ℕ) : State B :=
  { s with m_resource_unit := Function.update s.m_resource_unit binder unit }

def event : Event B → Option (State B)
  | .SetToBinder index binder =>
    some ((s.setBinder binder (some index)).setUnit index (s.run.units index).IncrementReference)
  | .IncrementReference index => some (s.setUnit index (s.run.units index).IncrementReference)
  | .DecrementReference index => some (s.setUnit index (s.run.units index).DecrementReference)
  | .AdjustReferenceCount index adjust_amount waited =>
    some (s.setUnit index ((s.run.units index).AdjustReferenceCount adjust_amount waited))
  | .ReleaseManagedReference index =>
    some (s.setUnit index (s.run.units index).ReleaseManagedReference)
  | .FreeResourceUnitFromBinder binder =>
    match s.m_resource_unit binder with
    | none => some s
    | some index => (s.run.RequestUnloadResourceUnit index).map fun run =>
        { s.setBinder binder none with run }
  | .FinalizeBinder binder => some (s.setBinder binder none)
  | .FinalizeBinderSync binder waited =>
    match s.m_resource_unit binder with
    | none => some s
    | some index => some ((s.setBinder binder none).setUnit index
        ((s.run.units index).AdjustReferenceCount (-1) waited))
  | .ReserveUnload => (s.run.event .ReserveUnload).map fun run => { s with run }
  | .advance => (s.run.event .advance).map fun run => { s with run }
  | .reserveUnload waited => (s.run.event (.reserveUnload waited)).map fun run => { s with run }

omit [DecidableEq B] in
def unloads : Event B → Option ℕ
  | .FinalizeBinder binder | .FinalizeBinderSync binder _ => s.m_resource_unit binder
  | .reserveUnload waited =>
    match s.run.pass with
    | .drain frame_index (index :: _) =>
      if ((s.run.units index.toNat).reserveUnload frame_index waited).2 = true then
        some index.toNat
      else none
    | _ => none
  | _ => none

omit [DecidableEq B] in
def referring [Fintype B] (u : ℕ) : ℕ := ∑ binder, if s.m_resource_unit binder = some u then 1 else 0

end State

namespace State

variable [Fintype B] (s : State B)

structure Counted : Prop where
  count : ∀ u, (s.run.units u).balance = s.referring u
  deferred : ∀ u f, (s.run.deferred u f).toInt ≤ 0
  registered : ∀ binder u, s.m_resource_unit binder = some u →
    (s.run.units u).m_is_part_of_resource_unit_mgr = true

omit [Fintype B] in
def Right (e : Event B) : Prop :=
  ∀ s', s.event e = some s' → ∀ u, s.unloads e = some u ∨
    (s.run.units u).m_is_part_of_resource_unit_mgr = true ∧
      (s'.run.units u).m_is_part_of_resource_unit_mgr = false →
    (s'.run.units u).m_reference_count = 0

omit [DecidableEq B] [Fintype B] in
/-- A binder is set from none, to a unit that is registered; none is finalised asynchronously while
it refers to a unit, and synchronously only as the last one; and a pass adjusts only units that it
takes the last reference of. -/
def Fits : Event B → Prop
  | .SetToBinder index binder => s.m_resource_unit binder = none ∧
    (s.run.units index).m_reference_count ≠ BitVec.intMax 32 ∧
    (s.run.units index).m_is_part_of_resource_unit_mgr = true
  | .IncrementReference _ | .DecrementReference _ => False
  | .AdjustReferenceCount index adjust_amount waited => adjust_amount = 0 ∧
    ((s.run.units index).m_reference_count = 1 → (s.run.units index).m_is_managed = false →
      (s.run.units index).m_is_part_of_resource_unit_mgr = true →
      ¬ (s.run.units index).FailsCache waited)
  | .FreeResourceUnitFromBinder binder => ∀ index, s.m_resource_unit binder = some index →
    s.run.deferred index s.run.current ≠ BitVec.intMin 32 ∧
      (s.run.deferred index s.run.current = 0 → (s.run.frame s.run.current).length <
        s.run.m_resource_unit_free_frame_buffer.GetCurrentFrameArray.m_max)
  | .FinalizeBinder binder => s.m_resource_unit binder = none
  | .FinalizeBinderSync binder _ => ∀ index, s.m_resource_unit binder = some index →
    (s.run.units index).IsLast (-1)
  | .reserveUnload _ => ∀ f index rest, s.run.pass = .drain f (index :: rest) →
    (s.run.units index.toNat).IsLast (s.run.deferred index.toNat f)
  | _ => True

end State

def step (s : Option (State B)) (e : Event B) : Option (State B) := s.bind fun s => s.event e

def Counted [Fintype B] : Option (State B) → Prop
  | none => False
  | some s => s.Counted

def Right : Option (State B) → Event B → Prop
  | none, _ => False
  | some s, e => s.Right e

omit [DecidableEq B] in
def Fits : Option (State B) → Event B → Prop
  | none, _ => False
  | some s, e => s.Fits e

end ResourceReferences

namespace CountedUnit

open DeferredRelease

variable {unit : CountedUnit} {amount : BitVec 32} {waited : ResourceUnit.Status} {f : Fin 2}

theorem adjust_zero_iff : (unit.AdjustReferenceCount amount waited).m_reference_count = 0 ↔
    unit.IsLast amount := by
  rw [adjust_count, IsLast]
  split_ifs with hlast
  · exact iff_of_true rfl (.inr hlast)
  · exact ⟨.inl, fun h => h.resolve_right hlast⟩

theorem adjust_balance : (unit.AdjustReferenceCount amount waited).balance =
    unit.balance + (unit.m_reference_count + amount).toInt - unit.m_reference_count.toInt := by
  unfold balance
  rw [adjust_held, adjust_deferred]
  unfold held
  omega

theorem increment_balance : unit.IncrementReference.balance =
    unit.balance + (unit.m_reference_count + 1).toInt - unit.m_reference_count.toInt := by
  unfold balance held IncrementReference ResourceUnit.IncrementReference
  dsimp only
  omega

theorem decrement_balance : unit.DecrementReference.balance =
    unit.balance + (unit.m_reference_count - 1).toInt - unit.m_reference_count.toInt := by
  unfold balance held DecrementReference ResourceUnit.DecrementReference
  dsimp only
  omega

theorem releaseManaged_deferred : unit.ReleaseManagedReference.m_deferred_adjust_count =
    unit.m_deferred_adjust_count := rfl

theorem releaseManaged_balance
    (hmin : unit.m_is_managed = true → unit.m_reference_count ≠ BitVec.intMin 32) :
    unit.ReleaseManagedReference.balance = unit.balance := by
  unfold balance held
  rw [releaseManaged_count, releaseManaged_managed, releaseManaged_deferred]
  cases hmanaged : unit.m_is_managed with
  | false => rfl
  | true =>
    rw [if_pos rfl, toInt_sub_one_iff.mpr (hmin hmanaged)]
    simp

theorem releaseManaged_registered : unit.ReleaseManagedReference.m_is_part_of_resource_unit_mgr =
    unit.m_is_part_of_resource_unit_mgr := rfl

theorem adjustCache_registered : (unit.adjustCache waited).m_is_part_of_resource_unit_mgr = true ↔
    unit.m_is_part_of_resource_unit_mgr = true ∧ ¬ unit.FailsCache waited := by
  unfold adjustCache FailsCache
  by_cases hcache : unit.m_is_cache_unload = false ∨ unit.m_is_cache_unload_for_no_ref = false ∨
      unit.m_is_cache_unload_for_no_error = false
  · rw [if_pos hcache]
    refine iff_of_false Bool.false_ne_true fun h => h.2 ?_
    tauto
  · rw [if_neg hcache]
    have hfails : ∀ p : Prop, (unit.m_is_cache_unload = false ∨
        unit.m_is_cache_unload_for_no_ref = false ∨
        unit.m_is_cache_unload_for_no_error = false ∨ p) ↔ p := by tauto
    rw [hfails]
    cases hstatus : unit.m_status with
    | Error | FailedToInitializeResource | FailedToPostInitializeResource =>
      exact iff_of_false Bool.false_ne_true fun h => h.2 trivial
    | InResourceInitialize | ResourceInitialized =>
      dsimp only
      split_ifs with hwaited
      · exact iff_of_false Bool.false_ne_true fun h => h.2 hwaited
      · exact (and_iff_left hwaited).symm
    | _ => exact (and_iff_left id).symm

theorem failsCache_released (count : BitVec 32) :
    (unit.withCount count).ReleaseManagedReference.FailsCache waited ↔ unit.FailsCache waited := by
  unfold ReleaseManagedReference ResourceUnit.ReleaseManagedReference
  cases hmanaged : (unit.withCount count).m_is_managed with
  | false => exact Iff.rfl
  | true => exact Iff.rfl

theorem adjust_registered :
    (unit.AdjustReferenceCount amount waited).m_is_part_of_resource_unit_mgr = true ↔
      unit.m_is_part_of_resource_unit_mgr = true ∧ (unit.m_reference_count + amount = 0 ∨
        unit.m_reference_count + amount = 1 → ¬ unit.FailsCache waited) := by
  unfold AdjustReferenceCount
  dsimp only
  split_ifs with hone hzero
  · rw [adjustCache_registered, failsCache_released, releaseManaged_registered]
    exact and_congr_right fun _ => ⟨fun h _ => h, fun h => h (.inr hone)⟩
  · exact (and_iff_left fun h => (h.elim hzero hone).elim).symm
  · rw [adjustCache_registered]
    exact and_congr_right fun _ => ⟨fun h _ => h, fun h => h (.inl (not_not.mp hzero))⟩

end CountedUnit

namespace ResourceReferences

variable {B : Type*} [DecidableEq B]

namespace State

variable [Fintype B] {s s' : State B} {u index : ℕ} {binder : B}

theorem referring_setBinder (s : State B) (binder : B) (target : Option ℕ) (u : ℕ) :
    (s.setBinder binder target).referring u +
      (if s.m_resource_unit binder = some u then 1 else 0) =
        s.referring u + if target = some u then 1 else 0 :=
  ResourceMemory.sum_update (fun unit => if unit = some u then 1 else 0) s.m_resource_unit binder
    target

omit [DecidableEq B] in
theorem referring_pos (h : s.m_resource_unit binder = some u) : 0 < s.referring u := by
  unfold referring
  rw [← Finset.card_filter, Finset.card_pos]
  exact ⟨binder, Finset.mem_filter.mpr ⟨Finset.mem_univ _, h⟩⟩

omit [DecidableEq B] in
theorem not_referring (hcount : ∀ u, (s.run.units u).balance = s.referring u)
    (hdeferred : ∀ u f, (s.run.deferred u f).toInt ≤ 0)
    (hzero : (s.run.units u).m_reference_count = 0) : s.m_resource_unit binder ≠ some u := by
  intro hbinder
  have hpos := referring_pos hbinder
  have hbalance := hcount u
  have h0 := hdeferred u 0
  have h1 := hdeferred u 1
  unfold DeferredRelease.Run.deferred at h0 h1
  unfold CountedUnit.balance CountedUnit.held at hbalance
  rw [hzero, show (0 : BitVec 32).toInt = 0 from rfl] at hbalance
  split_ifs at hbalance
  · omega
  · omega

omit [DecidableEq B] in
theorem Counted.le_count (h : s.Counted) (u : ℕ) (f : Fin 2) : (s.referring u : ℤ) ≤
    (s.run.units u).m_reference_count.toInt + (s.run.deferred u f).toInt := by
  have htwo : ∀ f : Fin 2, f = 0 ∨ f = 1 := by decide
  have hcount := h.count u
  have h0 := h.deferred u 0
  have h1 := h.deferred u 1
  unfold DeferredRelease.Run.deferred at h0 h1 ⊢
  unfold CountedUnit.balance CountedUnit.held at hcount
  obtain rfl | rfl := htwo f
  · split_ifs at hcount
    all_goals omega
  · split_ifs at hcount
    all_goals omega

theorem Counted.of {e : Event B} (hs : s.event e = some s') (hright : s.Right e)
    (hcount : ∀ u, (s'.run.units u).balance = s'.referring u)
    (hdeferred : ∀ u f, (s'.run.deferred u f).toInt ≤ 0)
    (hbinders : ∀ binder u, s'.m_resource_unit binder = some u →
      (s.run.units u).m_is_part_of_resource_unit_mgr = true) : s'.Counted where
  count := hcount
  deferred := hdeferred
  registered binder u hbinder := by
    by_contra hregistered
    rw [Bool.not_eq_true] at hregistered
    exact not_referring hcount hdeferred
      (hright s' hs u (.inr ⟨hbinders binder u hbinder, hregistered⟩)) hbinder

theorem toInt_add_one_iff {x : BitVec 32} :
    (x + 1).toInt = x.toInt + 1 ↔ x ≠ BitVec.intMax 32 := by
  have hone : (1 : BitVec 32).toInt = 1 := by decide
  have hmax : x = BitVec.intMax 32 ↔ x.toInt = 2 ^ 31 - 1 := by
    rw [← BitVec.toInt_inj]
    rfl
  have hlt : x.toInt < 2 ^ 31 := x.toInt_lt
  have hle : -2 ^ 31 ≤ x.toInt := x.le_toInt
  have hsum : (x + 1).toInt < 2 ^ 31 := (x + 1).toInt_lt
  rw [ne_eq, hmax]
  constructor
  · omega
  · intro hne
    rw [DeferredRelease.toInt_add (by omega) (by omega), hone]

omit [Fintype B] in
theorem right_setUnit_iff {e : Event B} {unit : CountedUnit} {t : State B}
    (hs : s.event e = some (t.setUnit index unit)) (ht : t.run.units = s.run.units)
    (hunloads : s.unloads e = none) : s.Right e ↔
      ((s.run.units index).m_is_part_of_resource_unit_mgr = true →
        unit.m_is_part_of_resource_unit_mgr = false → unit.m_reference_count = 0) := by
  have hunits : ∀ u, (t.setUnit index unit).run.units u =
      if u = index then unit else s.run.units u := by
    intro u
    rw [← ht]
    exact Function.update_apply ..
  constructor
  · intro h hbefore hafter
    have hzero := h _ hs index
    rw [hunits, if_pos rfl] at hzero
    exact hzero (.inr ⟨hbefore, hafter⟩)
  · intro h s' hs' u hu
    rw [hs] at hs'
    rw [← Option.some.inj hs', hunits] at hu ⊢
    rw [hunloads] at hu
    obtain hu | ⟨hbefore, hafter⟩ := hu
    · cases hu
    · by_cases hindex : u = index
      · rw [if_pos hindex] at hafter ⊢
        rw [hindex] at hbefore
        exact h hbefore hafter
      · rw [if_neg hindex, hbefore] at hafter
        cases hafter

omit [DecidableEq B] in
theorem count_setUnit_iff (h : s.Counted) {unit : CountedUnit} :
    (∀ u, ((s.setUnit index unit).run.units u).balance = (s.setUnit index unit).referring u) ↔
      unit.balance = (s.run.units index).balance := by
  have hunits : ∀ u, ((s.setUnit index unit).run.units u).balance = (s.run.units u).balance +
      if u = index then unit.balance - (s.run.units index).balance else 0 := fun u =>
    s.run.balance_update u
  have hreferring : ∀ u, (s.setUnit index unit).referring u = s.referring u := fun _ => rfl
  constructor
  · intro hcount
    have hindex := hcount index
    rw [hunits, hreferring, ← h.count, if_pos rfl] at hindex
    omega
  · intro hbalance u
    rw [hunits, hreferring, ← h.count, hbalance, sub_self]
    split_ifs
    · exact add_zero _
    · exact add_zero _

theorem count_setBinder_iff (h : s.Counted) {unit : CountedUnit} {target : Option ℕ} :
    (∀ u, (((s.setBinder binder target).setUnit index unit).run.units u).balance =
      ((s.setBinder binder target).setUnit index unit).referring u) ↔
      ∀ u, (if u = index then unit.balance - (s.run.units index).balance else 0) +
        (if s.m_resource_unit binder = some u then 1 else 0) =
          if target = some u then 1 else 0 := by
  have hunits : ∀ u, (((s.setBinder binder target).setUnit index unit).run.units u).balance =
      (s.run.units u).balance +
        if u = index then unit.balance - (s.run.units index).balance else 0 := fun u =>
    s.run.balance_update u
  have hreferring : ∀ u, ((s.setBinder binder target).setUnit index unit).referring u =
      (s.setBinder binder target).referring u := fun _ => rfl
  refine forall_congr' fun u => ?_
  have hcount := h.count u
  have hsum := s.referring_setBinder binder target u
  rw [hunits, hreferring]
  split_ifs at hsum ⊢
  all_goals omega

omit [DecidableEq B] in
theorem deferred_setUnit (h : s.Counted) {unit : CountedUnit}
    (hunit : unit.m_deferred_adjust_count = (s.run.units index).m_deferred_adjust_count) (u : ℕ)
    (f : Fin 2) : ((s.setUnit index unit).run.deferred u f).toInt ≤ 0 := by
  have hdeferred : (s.setUnit index unit).run.deferred u f = s.run.deferred u f := by
    unfold DeferredRelease.Run.deferred setUnit
    dsimp only
    by_cases hu : u = index
    · rw [hu, Function.update_self, hunit]
    · rw [Function.update_of_ne hu]
  rw [hdeferred]
  exact h.deferred u f

theorem setToBinder_iff (h : s.Counted) : s.Right (.SetToBinder index binder) ∧
    ResourceReferences.Counted (s.event (.SetToBinder index binder)) ↔
      s.Fits (.SetToBinder index binder) := by
  have hevent : s.event (.SetToBinder index binder) = some ((s.setBinder binder (some index)).setUnit
      index (s.run.units index).IncrementReference) := rfl
  have hright : s.Right (.SetToBinder index binder) := by
    rw [right_setUnit_iff hevent rfl rfl]
    intro hbefore hafter
    have hsame : (s.run.units index).m_is_part_of_resource_unit_mgr = false := hafter
    rw [hbefore] at hsame
    cases hsame
  have hne : (s.run.units index).m_reference_count + 1 ≠ (s.run.units index).m_reference_count := by
    bv_omega
  have hdelta : (s.run.units index).IncrementReference.balance - (s.run.units index).balance ≠ 0 := by
    rw [CountedUnit.increment_balance]
    have hint := mt BitVec.eq_of_toInt_eq hne
    omega
  constructor
  · rintro ⟨-, hcounted⟩
    have hcount := (count_setBinder_iff h).mp hcounted.count
    have hnone : s.m_resource_unit binder = none := by
      cases hunit : s.m_resource_unit binder with
      | none => rfl
      | some v =>
        have hv := hcount v
        rw [if_pos hunit] at hv
        by_cases hindex : v = index
        · rw [if_pos hindex, if_pos (by rw [hindex])] at hv
          omega
        · rw [if_neg hindex, if_neg fun heq => hindex (Option.some.inj heq).symm] at hv
          omega
    have hregistered : (Function.update s.run.units index
        (s.run.units index).IncrementReference index).m_is_part_of_resource_unit_mgr = true :=
      hcounted.registered binder index (Function.update_self ..)
    rw [Function.update_self] at hregistered
    refine ⟨hnone, ?_, hregistered⟩
    have hindex := hcount index
    rw [if_pos rfl, hnone, if_neg (Option.some_ne_none index).symm, if_pos rfl,
      CountedUnit.increment_balance] at hindex
    apply toInt_add_one_iff.mp
    omega
  · rintro ⟨hnone, hmax, hregistered⟩
    have hadd := toInt_add_one_iff.mpr hmax
    refine ⟨hright, .of hevent hright ((count_setBinder_iff h).mpr fun u => ?_)
      (deferred_setUnit h rfl) fun binder' u hu => ?_⟩
    · rw [hnone, CountedUnit.increment_balance, hadd]
      by_cases hindex : u = index
      · rw [if_pos hindex, if_neg (Option.some_ne_none u).symm, if_pos (by rw [hindex])]
        omega
      · rw [if_neg hindex, if_neg (Option.some_ne_none u).symm,
          if_neg fun heq => hindex (Option.some.inj heq).symm]
        rfl
    · have hu' : Function.update s.m_resource_unit binder (some index) binder' = some u := hu
      by_cases hbinder : binder' = binder
      · rw [hbinder, Function.update_self] at hu'
        rw [← Option.some.inj hu']
        exact hregistered
      · rw [Function.update_of_ne hbinder] at hu'
        exact h.registered binder' u hu'

theorem setUnit_iff (h : s.Counted) {e : Event B} (unit : CountedUnit)
    (hevent : s.event e = some (s.setUnit index unit)) (hunloads : s.unloads e = none)
    (hdeferred : unit.m_deferred_adjust_count = (s.run.units index).m_deferred_adjust_count) :
    s.Right e ∧ ResourceReferences.Counted (s.event e) ↔
      ((s.run.units index).m_is_part_of_resource_unit_mgr = true →
        unit.m_is_part_of_resource_unit_mgr = false → unit.m_reference_count = 0) ∧
      unit.balance = (s.run.units index).balance := by
  rw [right_setUnit_iff hevent rfl hunloads]
  refine and_congr_right fun hright => ?_
  rw [← count_setUnit_iff h, hevent]
  exact ⟨Counted.count, fun hcount => .of hevent ((right_setUnit_iff hevent rfl hunloads).mpr hright)
    hcount (deferred_setUnit h hdeferred) h.registered⟩

theorem incrementReference_iff (h : s.Counted) : s.Right (.IncrementReference index) ∧
    ResourceReferences.Counted (s.event (.IncrementReference index)) ↔
      s.Fits (.IncrementReference index) := by
  rw [setUnit_iff h (s.run.units index).IncrementReference rfl rfl rfl,
    CountedUnit.increment_balance]
  refine iff_of_false (fun hsame => ?_) id
  have hne : (s.run.units index).m_reference_count + 1 ≠ (s.run.units index).m_reference_count := by
    bv_omega
  exact mt BitVec.eq_of_toInt_eq hne (by omega)

theorem decrementReference_iff (h : s.Counted) : s.Right (.DecrementReference index) ∧
    ResourceReferences.Counted (s.event (.DecrementReference index)) ↔
      s.Fits (.DecrementReference index) := by
  rw [setUnit_iff h (s.run.units index).DecrementReference rfl rfl rfl,
    CountedUnit.decrement_balance]
  refine iff_of_false (fun hsame => ?_) id
  have hne : (s.run.units index).m_reference_count - 1 ≠ (s.run.units index).m_reference_count := by
    bv_omega
  exact mt BitVec.eq_of_toInt_eq hne (by omega)

theorem adjustReferenceCount_iff (h : s.Counted) {amount : BitVec 32}
    {waited : ResourceUnit.Status} : s.Right (.AdjustReferenceCount index amount waited) ∧
      ResourceReferences.Counted (s.event (.AdjustReferenceCount index amount waited)) ↔
        s.Fits (.AdjustReferenceCount index amount waited) := by
  have hsum : (s.run.units index).balance + ((s.run.units index).m_reference_count + amount).toInt -
      (s.run.units index).m_reference_count.toInt = (s.run.units index).balance ↔ amount = 0 := by
    have hsame : (s.run.units index).m_reference_count + amount =
        (s.run.units index).m_reference_count ↔ amount = 0 := by bv_omega
    rw [← hsame, ← BitVec.toInt_inj]
    omega
  rw [setUnit_iff h ((s.run.units index).AdjustReferenceCount amount waited) rfl rfl
    CountedUnit.adjust_deferred, CountedUnit.adjust_balance, hsum, and_comm]
  refine and_congr_right fun hamount => ?_
  have hadd : (s.run.units index).m_reference_count + amount =
      (s.run.units index).m_reference_count := by bv_omega
  rw [← Bool.not_eq_true (CountedUnit.m_is_part_of_resource_unit_mgr _),
    CountedUnit.adjust_registered, CountedUnit.adjust_zero_iff, CountedUnit.IsLast, hadd,
    ← Bool.not_eq_true (ResourceUnit.m_is_managed _)]
  have hne : (s.run.units index).m_reference_count = 1 →
      (s.run.units index).m_reference_count ≠ 0 := fun hone hzero =>
    absurd (hone.symm.trans hzero) (by decide)
  tauto

theorem releaseManagedReference_iff (h : s.Counted) : s.Right (.ReleaseManagedReference index) ∧
    ResourceReferences.Counted (s.event (.ReleaseManagedReference index)) ↔
      s.Fits (.ReleaseManagedReference index) := by
  rw [setUnit_iff h (s.run.units index).ReleaseManagedReference rfl rfl rfl]
  refine iff_of_true ⟨fun hbefore hafter => ?_, CountedUnit.releaseManaged_balance ?_⟩ trivial
  · rw [CountedUnit.releaseManaged_registered, hbefore] at hafter
    cases hafter
  · rintro hmanaged hmin
    have hcount := h.count index
    have h0 := h.deferred index 0
    have h1 := h.deferred index 1
    unfold DeferredRelease.Run.deferred at h0 h1
    unfold CountedUnit.balance CountedUnit.held at hcount
    rw [hmin, if_pos hmanaged, show (BitVec.intMin 32).toInt = -2 ^ 31 from rfl] at hcount
    omega

theorem same_units (h : s.Counted) {e : Event B} (hevent : s.event e = some s')
    (hunits : s'.run.units = s.run.units) (hbinders : s'.m_resource_unit = s.m_resource_unit)
    (hunloads : s.unloads e = none) : s.Right e ∧ ResourceReferences.Counted (s.event e) := by
  constructor
  · intro t ht u hu
    rw [hevent] at ht
    cases ht
    rw [hunloads, hunits] at hu
    obtain hu | ⟨hbefore, hafter⟩ := hu
    · cases hu
    · rw [hbefore] at hafter
      cases hafter
  · rw [hevent]
    refine ⟨fun u => ?_, fun u f => ?_, fun binder u hu => ?_⟩
    · unfold referring
      rw [hunits, hbinders]
      exact h.count u
    · unfold DeferredRelease.Run.deferred
      rw [hunits]
      exact h.deferred u f
    · rw [hunits]
      rw [hbinders] at hu
      exact h.registered binder u hu

theorem finalizeBinder_iff (h : s.Counted) : s.Right (.FinalizeBinder binder) ∧
    ResourceReferences.Counted (s.event (.FinalizeBinder binder)) ↔
      s.Fits (.FinalizeBinder binder) := by
  constructor
  · rintro ⟨-, hcounted⟩
    by_contra hunit
    obtain ⟨u, hu⟩ := Option.ne_none_iff_exists'.mp hunit
    have hcount : (s.run.units u).balance = (s.setBinder binder none).referring u := hcounted.count u
    have hsum := s.referring_setBinder binder none u
    rw [if_pos hu, if_neg (Option.some_ne_none u).symm] at hsum
    have hbefore := h.count u
    omega
  · intro hnone
    have hsame : s.setBinder binder none = s := by
      unfold setBinder
      rw [← hnone, Function.update_eq_self]
    exact same_units h (congrArg some hsame) rfl rfl hnone

theorem finalizeBinderSync_iff (h : s.Counted) {waited : ResourceUnit.Status} :
    s.Right (.FinalizeBinderSync binder waited) ∧
      ResourceReferences.Counted (s.event (.FinalizeBinderSync binder waited)) ↔
        s.Fits (.FinalizeBinderSync binder waited) := by
  cases hunit : s.m_resource_unit binder with
  | none =>
    have hevent : s.event (.FinalizeBinderSync binder waited) = some s := by
      unfold event
      dsimp only
      rw [hunit]
    refine iff_of_true (same_units h hevent rfl rfl hunit) fun index hindex => ?_
    rw [hunit] at hindex
    cases hindex
  | some index =>
    have hevent : s.event (.FinalizeBinderSync binder waited) = some ((s.setBinder binder none).setUnit
        index ((s.run.units index).AdjustReferenceCount (-1) waited)) := by
      unfold event
      dsimp only
      rw [hunit]
    have hlast : s.Fits (.FinalizeBinderSync binder waited) ↔ (s.run.units index).IsLast (-1) := by
      constructor
      · exact fun hfits => hfits index hunit
      · rintro hlast index' hindex'
        rw [hunit] at hindex'
        cases hindex'
        exact hlast
    have hunits : ∀ u, (((s.setBinder binder none).setUnit index
        ((s.run.units index).AdjustReferenceCount (-1) waited)).run.units u) =
        if u = index then (s.run.units index).AdjustReferenceCount (-1) waited
        else s.run.units u := fun u => Function.update_apply ..
    have hzero_iff : ((s.run.units index).AdjustReferenceCount (-1) waited).m_reference_count = 0 ↔
        (s.run.units index).IsLast (-1) := CountedUnit.adjust_zero_iff
    rw [hlast, ← hzero_iff]
    constructor
    · rintro ⟨hright, -⟩
      have hzero := hright _ hevent index (.inl hunit)
      rw [hunits, if_pos rfl] at hzero
      exact hzero
    · intro hzero
      have hright : s.Right (.FinalizeBinderSync binder waited) := by
        intro s' hs' u hu
        rw [hevent] at hs'
        rw [← Option.some.inj hs', hunits] at hu ⊢
        by_cases hindex : u = index
        · rw [if_pos hindex]
          exact hzero
        · rw [if_neg hindex] at hu
          obtain hu | ⟨hbefore, hafter⟩ := hu
          · exact absurd (Option.some.inj (hunit.symm.trans hu)).symm hindex
          · rw [hbefore] at hafter
            cases hafter
      have hmin : (s.run.units index).m_reference_count ≠ BitVec.intMin 32 := by
        intro hmin
        have hle := h.le_count index 0
        have hdeferred := h.deferred index 0
        rw [hmin, show (BitVec.intMin 32).toInt = -2 ^ 31 from rfl] at hle
        omega
      have hneg : (s.run.units index).m_reference_count + -1 =
          (s.run.units index).m_reference_count - 1 := by bv_omega
      have hsub := DeferredRelease.toInt_sub_one_iff.mpr hmin
      rw [hevent]
      refine ⟨hright, .of hevent hright ((count_setBinder_iff h).mpr fun u => ?_)
        (deferred_setUnit h CountedUnit.adjust_deferred) fun binder' u hu => ?_⟩
      · rw [hunit, CountedUnit.adjust_balance, hneg, hsub, if_neg (Option.some_ne_none u).symm]
        by_cases hindex : u = index
        · rw [if_pos hindex, if_pos (by rw [hindex])]
          omega
        · rw [if_neg hindex, if_neg fun heq => hindex (Option.some.inj heq).symm]
          rfl
      · have hu' : Function.update s.m_resource_unit binder none binder' = some u := hu
        by_cases hbinder : binder' = binder
        · rw [hbinder, Function.update_self] at hu'
          cases hu'
        · rw [Function.update_of_ne hbinder] at hu'
          exact h.registered binder' u hu'

theorem requested_iff (h : s.Counted) {run : DeferredRelease.Run}
    (hunit : s.m_resource_unit binder = some index)
    (hevent : s.event (.FreeResourceUnitFromBinder binder) =
      some { s.setBinder binder none with run })
    (hrun : s.run.Requested index run) : s.Right (.FreeResourceUnitFromBinder binder) ∧
      ResourceReferences.Counted (s.event (.FreeResourceUnitFromBinder binder)) ↔
        s.run.deferred index s.run.current ≠ BitVec.intMin 32 := by
  have hright : s.Right (.FreeResourceUnitFromBinder binder) := by
    intro s' hs' u hu
    rw [hevent] at hs'
    rw [← Option.some.inj hs'] at hu
    obtain hu | ⟨hbefore, hafter⟩ := hu
    · cases hu
    · have hregistered : (run.units u).m_is_part_of_resource_unit_mgr =
          (s.run.units u).m_is_part_of_resource_unit_mgr := by
        rw [hrun.units]
        by_cases hindex : u = index
        · rw [hindex, Function.update_self]
          rfl
        · rw [Function.update_of_ne hindex]
      have hsame : (run.units u).m_is_part_of_resource_unit_mgr = false := hafter
      rw [hregistered, hbefore] at hsame
      cases hsame
  have hdelta : ((s.run.units index).withDeferred s.run.current
      (s.run.deferred index s.run.current - 1)).balance - (s.run.units index).balance =
        (s.run.deferred index s.run.current - 1).toInt -
          (s.run.deferred index s.run.current).toInt := by
    rw [CountedUnit.balance_withDeferred]
    unfold DeferredRelease.Run.deferred
    omega
  have hcount : (∀ u, (run.units u).balance = (s.setBinder binder none).referring u) ↔
      s.run.deferred index s.run.current ≠ BitVec.intMin 32 := by
    rw [hrun.units, ← DeferredRelease.toInt_sub_one_iff]
    refine (count_setBinder_iff h).trans ?_
    rw [hdelta, hunit]
    constructor
    · intro hall
      have hindex := hall index
      rw [if_pos rfl, if_pos rfl, if_neg (Option.some_ne_none index).symm] at hindex
      omega
    · intro hsub u
      rw [hsub, if_neg (Option.some_ne_none u).symm]
      by_cases hindex : u = index
      · rw [if_pos hindex, if_pos (by rw [hindex])]
        omega
      · rw [if_neg hindex, if_neg fun heq => hindex (Option.some.inj heq).symm]
        rfl
  rw [and_iff_right hright, ← hcount]
  constructor
  · intro hcounted
    rw [hevent] at hcounted
    exact hcounted.count
  · intro hall
    have hmin := DeferredRelease.toInt_sub_one_iff.mpr (hcount.mp hall)
    rw [hevent]
    refine .of hevent hright hall (fun u f => ?_) fun binder' u hu => ?_
    · rw [hrun.deferred]
      have hbefore := h.deferred u f
      split_ifs with hindex
      · rw [hindex.1, hindex.2] at hbefore ⊢
        omega
      · exact hbefore
    · have hu' : Function.update s.m_resource_unit binder none binder' = some u := hu
      by_cases hbinder : binder' = binder
      · rw [hbinder, Function.update_self] at hu'
        cases hu'
      · rw [Function.update_of_ne hbinder] at hu'
        exact h.registered binder' u hu'

theorem drained_iff (h : s.Counted) {waited : ResourceUnit.Status} {f : Fin 2} {i : BitVec 16}
    {rest : List (BitVec 16)} (hpass : s.run.pass = .drain f (i :: rest)) :
    s.Right (.reserveUnload waited) ∧
      ResourceReferences.Counted (s.event (.reserveUnload waited)) ↔
        s.Fits (.reserveUnload waited) := by
  have hevent : s.event (.reserveUnload waited) = some { s with run := { s.run with
      units := Function.update s.run.units i.toNat
        ((s.run.units i.toNat).reserveUnload f waited).1
      pass := .drain f rest } } := by
    unfold event DeferredRelease.Run.event
    dsimp only
    rw [hpass]
    rfl
  have hunloads : s.unloads (.reserveUnload waited) =
      if ((s.run.units i.toNat).reserveUnload f waited).2 = true then some i.toNat else none := by
    unfold unloads
    dsimp only
    rw [hpass]
  have hfits : s.Fits (.reserveUnload waited) ↔
      ((s.run.units i.toNat).reserveUnload f waited).1.m_reference_count = 0 := by
    have hzero : ((s.run.units i.toNat).reserveUnload f waited).1.m_reference_count = 0 ↔
        (s.run.units i.toNat).IsLast (s.run.deferred i.toNat f) := CountedUnit.adjust_zero_iff
    rw [hzero]
    constructor
    · exact fun hfits => hfits f i rest hpass
    · rintro hlast f' i' rest' hdrain
      rw [hpass] at hdrain
      cases hdrain
      exact hlast
  have hbalance : ((s.run.units i.toNat).reserveUnload f waited).1.balance =
      (s.run.units i.toNat).balance := by
    apply (CountedUnit.balance_reserveUnload (h.deferred i.toNat f)).mpr
    have hle := h.le_count i.toNat f
    unfold DeferredRelease.Run.deferred at hle
    omega
  rw [hfits]
  constructor
  · rintro ⟨hright, hcounted⟩
    by_contra hne
    rw [hevent] at hcounted
    have hle := hcounted.le_count i.toNat f
    unfold DeferredRelease.Run.deferred at hle
    dsimp only at hle
    rw [Function.update_self, CountedUnit.reserveUnload_deferred, Function.update_self,
      show (0 : BitVec 32).toInt = 0 from rfl] at hle
    have hpush : ((s.run.units i.toNat).reserveUnload f waited).2 = true := by
      rw [CountedUnit.reserveUnload_push]
      rw [← BitVec.toInt_inj, show (0 : BitVec 32).toInt = 0 from rfl] at hne
      omega
    rw [if_pos hpush] at hunloads
    have hzero := hright _ hevent i.toNat (.inl hunloads)
    dsimp only at hzero
    rw [Function.update_self] at hzero
    exact hne hzero
  · intro hzero
    have hpush : ¬ ((s.run.units i.toNat).reserveUnload f waited).2 = true := by
      rw [CountedUnit.reserveUnload_push, hzero]
      decide
    rw [if_neg hpush] at hunloads
    have hevent' : s.event (.reserveUnload waited) = some (({ s with
        run := { s.run with pass := .drain f rest } } : State B).setUnit i.toNat
          ((s.run.units i.toNat).reserveUnload f waited).1) := hevent
    have hright : s.Right (.reserveUnload waited) :=
      (right_setUnit_iff hevent' rfl hunloads).mpr fun _ _ => hzero
    rw [hevent]
    refine ⟨hright, .of hevent hright ((count_setUnit_iff h).mpr hbalance) (fun u g => ?_)
      h.registered⟩
    unfold DeferredRelease.Run.deferred
    dsimp only
    by_cases hu : u = i.toNat
    · rw [hu, Function.update_self, CountedUnit.reserveUnload_deferred, Function.update_apply]
      split_ifs
      · exact Int.le_refl 0
      · exact h.deferred i.toNat g
    · rw [Function.update_of_ne hu]
      exact h.deferred u g

theorem freeResourceUnitFromBinder_iff (h : s.Counted) :
    s.Right (.FreeResourceUnitFromBinder binder) ∧
      ResourceReferences.Counted (s.event (.FreeResourceUnitFromBinder binder)) ↔
        s.Fits (.FreeResourceUnitFromBinder binder) := by
  cases hunit : s.m_resource_unit binder with
  | none =>
    have hevent : s.event (.FreeResourceUnitFromBinder binder) = some s := by
      unfold event
      dsimp only
      rw [hunit]
    refine iff_of_true (same_units h hevent rfl rfl rfl) fun index hindex => ?_
    rw [hunit] at hindex
    cases hindex
  | some index =>
    have hevent : s.event (.FreeResourceUnitFromBinder binder) =
        (s.run.RequestUnloadResourceUnit index).map fun run =>
          { s.setBinder binder none with run } := by
      unfold event
      dsimp only
      rw [hunit]
    have hfits : s.Fits (.FreeResourceUnitFromBinder binder) ↔
        s.run.deferred index s.run.current ≠ BitVec.intMin 32 ∧
          (s.run.deferred index s.run.current = 0 → (s.run.frame s.run.current).length <
            s.run.m_resource_unit_free_frame_buffer.GetCurrentFrameArray.m_max) := by
      constructor
      · exact fun hfits => hfits index hunit
      · rintro hfits index' hindex'
        rw [hunit] at hindex'
        cases hindex'
        exact hfits
    rw [hfits]
    cases hrequest : s.run.RequestUnloadResourceUnit index with
    | none =>
      rw [hrequest] at hevent
      rw [hevent]
      refine iff_of_false (fun hcounted => hcounted.2) fun ⟨_, hroom⟩ => ?_
      rw [DeferredRelease.Run.request_eq] at hrequest
      split_ifs at hrequest with hd hfull
      exact hfull (hroom hd)
    | some run =>
      rw [hrequest] at hevent
      have hroom : s.run.deferred index s.run.current = 0 → (s.run.frame s.run.current).length <
          s.run.m_resource_unit_free_frame_buffer.GetCurrentFrameArray.m_max := by
        intro hd
        by_contra hfull
        rw [DeferredRelease.Run.request_eq, if_pos hd, if_neg hfull] at hrequest
        cases hrequest
      rw [and_iff_left hroom]
      exact requested_iff h hunit hevent (.of_eq hrequest)

theorem Counted.undrained (h : s.Counted) {waited : ResourceUnit.Status}
    (hevent : s.event (.reserveUnload waited) = some s') (hunits : s'.run.units = s.run.units)
    (hbinders : s'.m_resource_unit = s.m_resource_unit)
    (hpass : ∀ f index rest, s.run.pass ≠ .drain f (index :: rest)) :
    s.Right (.reserveUnload waited) ∧
      ResourceReferences.Counted (s.event (.reserveUnload waited)) ↔
        s.Fits (.reserveUnload waited) := by
  have hunloads : s.unloads (.reserveUnload waited) = none := by
    unfold unloads
    dsimp only
    split
    · exact absurd (by assumption) (hpass _ _ _)
    · rfl
  exact iff_of_true (same_units h hevent hunits hbinders hunloads)
    fun f index rest hdrain => absurd hdrain (hpass f index rest)

theorem reserveUnload_iff (h : s.Counted) {waited : ResourceUnit.Status} :
    s.Right (.reserveUnload waited) ∧
      ResourceReferences.Counted (s.event (.reserveUnload waited)) ↔
        s.Fits (.reserveUnload waited) := by
  cases hpass : s.run.pass with
  | none =>
    have hevent : s.event (.reserveUnload waited) = some s := by
      unfold event DeferredRelease.Run.event
      dsimp only
      rw [hpass]
      rfl
    apply h.undrained hevent rfl rfl
    rw [hpass]
    nofun
  | advance frame_index =>
    have hevent : s.event (.reserveUnload waited) = some s := by
      unfold event DeferredRelease.Run.event
      dsimp only
      rw [hpass]
      rfl
    apply h.undrained hevent rfl rfl
    rw [hpass]
    nofun
  | drain f rest =>
    cases rest with
    | nil =>
      have hevent : s.event (.reserveUnload waited) =
          some { s with run := { s.run with pass := .none } } := by
        unfold event DeferredRelease.Run.event
        dsimp only
        rw [hpass]
        rfl
      apply h.undrained hevent rfl rfl
      rw [hpass]
      nofun
    | cons i rest => exact drained_iff h hpass

omit [DecidableEq B] [Fintype B] in
theorem pass_same {e : DeferredRelease.Event} (he : e = .ReserveUnload ∨ e = .advance) :
    ∃ run, s.run.event e = some run ∧ run.units = s.run.units := by
  unfold DeferredRelease.Run.event
  obtain rfl | rfl := he
  · dsimp only
    split
    · split_ifs
      · exact ⟨_, rfl, rfl⟩
      · exact ⟨_, rfl, rfl⟩
    · exact ⟨_, rfl, rfl⟩
  · dsimp only
    split
    · exact ⟨_, rfl, rfl⟩
    · exact ⟨_, rfl, rfl⟩

theorem counted_iff (h : s.Counted) (e : Event B) :
    s.Right e ∧ ResourceReferences.Counted (s.event e) ↔ s.Fits e := by
  cases e with
  | SetToBinder index binder => exact setToBinder_iff h
  | IncrementReference index => exact incrementReference_iff h
  | DecrementReference index => exact decrementReference_iff h
  | AdjustReferenceCount index amount waited => exact adjustReferenceCount_iff h
  | ReleaseManagedReference index => exact releaseManagedReference_iff h
  | FreeResourceUnitFromBinder binder => exact freeResourceUnitFromBinder_iff h
  | FinalizeBinder binder => exact finalizeBinder_iff h
  | FinalizeBinderSync binder waited => exact finalizeBinderSync_iff h
  | ReserveUnload =>
    refine iff_of_true ?_ trivial
    obtain ⟨run, hrun, hunits⟩ := pass_same (s := s) (.inl rfl)
    exact same_units h (congrArg (Option.map _) hrun) hunits rfl rfl
  | advance =>
    refine iff_of_true ?_ trivial
    obtain ⟨run, hrun, hunits⟩ := pass_same (s := s) (.inr rfl)
    exact same_units h (congrArg (Option.map _) hrun) hunits rfl rfl
  | reserveUnload waited => exact reserveUnload_iff h

end State

theorem references_counted_iff [Fintype B] {s : State B} (h : s.Counted) (events : List (Event B)) :
    Calls.Throughout step Counted Right (some s) events ↔
      Calls.EachIn step Fits (some s) events := by
  let Inv (q : Option (State B)) : Prop := ∃ s, q = some s ∧ s.Counted
  have hcounted : ∀ q, Inv q → Counted q := by
    rintro _ ⟨s, rfl, h⟩
    exact h
  apply Calls.throughout_iff (U := fun _ _ => True) hcounted _ _ ⟨s, rfl, h⟩ Calls.eachIn_true
  · rintro _ e ⟨s, rfl, h⟩ - hfits
    obtain ⟨hright, hnext⟩ := (State.counted_iff h e).mpr hfits
    refine ⟨hright, ?_⟩
    cases hs : s.event e with
    | none => exact (hs ▸ hnext : Counted none).elim
    | some s' => exact ⟨s', hs, (hs ▸ hnext : Counted (some s'))⟩
  · rintro _ e ⟨s, rfl, h⟩ - hright hnext
    exact (State.counted_iff h e).mp ⟨hright, hnext⟩

def oneBinder : State Unit where
  run := DeferredRelease.start
    (fun u => DeferredRelease.unitWith (if u = 0 then 1 else 0)) 1
  m_resource_unit _ := some 0

theorem oneBinder_counted : oneBinder.Counted where
  count u := by
    by_cases hu : u = 0
    · rw [hu]
      decide
    · have hunit : oneBinder.run.units u = DeferredRelease.unitWith 0 :=
        congrArg DeferredRelease.unitWith (if_neg hu)
      have hreferring : oneBinder.referring u = 0 :=
        Finset.sum_eq_zero fun _ _ => if_neg fun heq => hu (Option.some.inj heq).symm
      rw [hunit, hreferring]
      decide
  deferred _ _ := Int.le_refl 0
  registered _ _ _ := rfl

theorem references_counted_iff_last : Calls.Throughout step Counted Right (some oneBinder)
    [.FinalizeBinderSync () .Loaded] := by
  apply (references_counted_iff oneBinder_counted _).mpr
  refine ⟨trivial, ?_, trivial⟩
  rintro index ⟨⟩
  exact .inl (by decide)

theorem finalized_not_counted : ¬ Calls.Throughout step Counted Right (some oneBinder)
    [.FinalizeBinder ()] := by
  rintro ⟨-, -, hcounted⟩
  have hcount := hcounted.count 0
  revert hcount
  decide

end ResourceReferences

end Awn
