import Awn.Calls.Throughout
import Awn.PointerArray.Refinement
import Awn.ResourceUnit.Unit
import Mathlib.Logic.Function.Basic
import Mathlib.Tactic.SplitIfs

/-!
The references that are released a frame later: `RequestUnloadResourceUnit` and `ReserveUnload` of
`awn::res::AsyncResourceManager`, on the frame arrays of `vp::util`. The units are counted by their
places in the array of their allocator.
-/

namespace Awn

structure FrameList (T : Type*) where
  m_array : List T
  m_max : ℕ

/-- The assertion lets a full array pass, and the value is written behind it. -/
def FrameList.PushValue {T : Type*} (frame : FrameList T) (value : T) : Option (FrameList T) :=
  if frame.m_array.length < frame.m_max then
    some { frame with m_array := frame.m_array ++ [value] }
  else none

structure BufferedFrames (T : Type*) where
  m_frame_array_array : Fin 2 → FrameList T
  m_current_frame : Fin 2

namespace BufferedFrames

variable {T : Type*} (buffer : BufferedFrames T)

def GetCurrentFrameArray : FrameList T := buffer.m_frame_array_array buffer.m_current_frame

def AdvanceFrameArray : BufferedFrames T :=
  { buffer with
    m_current_frame := if buffer.m_current_frame < 1 then buffer.m_current_frame + 1 else 0 }

def pushCurrent (value : T) : Option (BufferedFrames T) :=
  (buffer.GetCurrentFrameArray.PushValue value).map fun frame =>
    { buffer with
      m_frame_array_array :=
        Function.update buffer.m_frame_array_array buffer.m_current_frame frame }

end BufferedFrames

structure CountedUnit extends ResourceUnit where
  m_deferred_adjust_count : Fin 2 → BitVec 32
  m_is_cache_unload : Bool
  m_is_cache_unload_for_no_ref : Bool
  m_is_cache_unload_for_no_error : Bool
  m_is_part_of_resource_unit_mgr : Bool

namespace CountedUnit

variable (unit : CountedUnit)

def IncrementReference : CountedUnit :=
  { unit with toResourceUnit := unit.toResourceUnit.IncrementReference }

def DecrementReference : CountedUnit :=
  { unit with toResourceUnit := unit.toResourceUnit.DecrementReference }

def ReleaseManagedReference : CountedUnit :=
  { unit with toResourceUnit := unit.toResourceUnit.ReleaseManagedReference }

def UnregisterFromResourceUnitManager : CountedUnit :=
  { unit with m_is_part_of_resource_unit_mgr := false }

def failCacheUnload : CountedUnit :=
  { unit.UnregisterFromResourceUnitManager with m_is_cache_unload_for_no_ref := false }

def adjustCache (waited : ResourceUnit.Status) : CountedUnit :=
  if unit.m_is_cache_unload = false ∨ unit.m_is_cache_unload_for_no_ref = false ∨
      unit.m_is_cache_unload_for_no_error = false then unit.failCacheUnload
  else
    match unit.m_status with
    | .Error | .FailedToInitializeResource | .FailedToPostInitializeResource =>
      unit.failCacheUnload
    | .InResourceInitialize | .ResourceInitialized =>
      let unit := { unit with m_status := waited }
      if waited = .FailedToPostInitializeResource then unit.failCacheUnload else unit
    | _ => unit

def withCount (count : BitVec 32) : CountedUnit := { unit with m_reference_count := count }

def withDeferred (frame_index : Fin 2) (count : BitVec 32) : CountedUnit :=
  { unit with
    m_deferred_adjust_count := Function.update unit.m_deferred_adjust_count frame_index count }

def AdjustReferenceCount (adjust_amount : BitVec 32) (waited : ResourceUnit.Status) : CountedUnit :=
  let new_count := unit.m_reference_count + adjust_amount
  let unit := unit.withCount new_count
  if new_count = 1 then unit.ReleaseManagedReference.adjustCache waited
  else if new_count ≠ 0 then unit
  else unit.adjustCache waited

def reserveUnload (frame_index : Fin 2) (waited : ResourceUnit.Status) : CountedUnit × Bool :=
  let adjusted := unit.AdjustReferenceCount (unit.m_deferred_adjust_count frame_index) waited
  (adjusted.withDeferred frame_index 0, !adjusted.m_reference_count.slt 1)

end CountedUnit

namespace DeferredRelease

inductive Pass
  | none
  | advance (frame_index : Fin 2)
  | drain (frame_index : Fin 2) (rest : List (BitVec 16))

structure Run where
  units : ℕ → CountedUnit
  m_resource_unit_free_frame_buffer : BufferedFrames (BitVec 16)
  pass : Pass
  requests : ℕ → ℕ
  passes : ℕ

inductive Event
  | RequestUnloadResourceUnit (unit : ℕ)
  | ReserveUnload
  /-- The pass that has begun takes the lock and advances the frame. -/
  | advance
  /-- It goes on with the next unit. -/
  | reserveUnload (waited : ResourceUnit.Status)

namespace Run

variable (s : Run)

def RequestUnloadResourceUnit (index : ℕ) : Option Run :=
  let frame_index := s.m_resource_unit_free_frame_buffer.m_current_frame
  let unit := s.units index
  let new_count := unit.m_deferred_adjust_count frame_index - 1
  let s := { s with
    units := Function.update s.units index (unit.withDeferred frame_index new_count)
    requests := Function.update s.requests index (s.requests index + 1) }
  if new_count ≠ -1 then some s
  else
    (s.m_resource_unit_free_frame_buffer.pushCurrent (BitVec.ofNat 16 index)).map fun buffer =>
      { s with m_resource_unit_free_frame_buffer := buffer }

def event : Event → Option Run
  | .RequestUnloadResourceUnit index => s.RequestUnloadResourceUnit index
  | .ReserveUnload =>
    match s.pass with
    | .none =>
      if s.m_resource_unit_free_frame_buffer.GetCurrentFrameArray.m_array = [] then some s
      else some { s with
        pass := .advance s.m_resource_unit_free_frame_buffer.m_current_frame }
    | _ => some s
  | .advance =>
    match s.pass with
    | .advance frame_index => some { s with
        m_resource_unit_free_frame_buffer := s.m_resource_unit_free_frame_buffer.AdvanceFrameArray
        pass := .drain frame_index
          (s.m_resource_unit_free_frame_buffer.m_frame_array_array frame_index).m_array
        passes := s.passes + 1 }
    | _ => some s
  | .reserveUnload waited =>
    match s.pass with
    | .drain frame_index (index :: rest) => some { s with
        units := Function.update s.units index.toNat
          ((s.units index.toNat).reserveUnload frame_index waited).1
        pass := .drain frame_index rest }
    | .drain _ [] => some { s with pass := .none }
    | _ => some s

end Run

def step (s : Option Run) (e : Event) : Option Run := s.bind fun s => s.event e

end DeferredRelease

namespace CountedUnit

variable (unit : CountedUnit)

def held : ℤ := unit.m_reference_count.toInt - if unit.m_is_managed = true then 1 else 0

def balance : ℤ :=
  unit.held + (unit.m_deferred_adjust_count 0).toInt + (unit.m_deferred_adjust_count 1).toInt

end CountedUnit

namespace DeferredRelease

namespace Run

variable (s : Run)

def current : Fin 2 := s.m_resource_unit_free_frame_buffer.m_current_frame

def frame (f : Fin 2) : List (BitVec 16) :=
  (s.m_resource_unit_free_frame_buffer.m_frame_array_array f).m_array

def deferred (u : ℕ) (f : Fin 2) : BitVec 32 := (s.units u).m_deferred_adjust_count f

def awaiting (f : Fin 2) : List (BitVec 16) :=
  match s.pass with
  | .drain frame_index rest => if frame_index = f then rest else s.frame f
  | _ => if s.current = f then s.frame f else []

structure Released (base : ℕ → ℤ) : Prop where
  once : ∀ u, (s.units u).balance + s.requests u = base u
  awaited : ∀ u f, s.deferred u f ≠ 0 → ∃ index ∈ s.awaiting f, index.toNat = u
  listed : ∀ f, (s.frame f).Nodup

def Right : Event → Prop
  | .advance => ∀ f, s.pass = .advance f →
    s.frame s.m_resource_unit_free_frame_buffer.AdvanceFrameArray.m_current_frame = []
  | .reserveUnload waited => ∀ f index rest, s.pass = .drain f (index :: rest) →
    (((s.units index.toNat).reserveUnload f waited).2 = true ↔
      ((s.units index.toNat).reserveUnload f waited).1.m_reference_count = 0)
  | _ => True

def Fits : Event → Prop
  | .RequestUnloadResourceUnit index => s.deferred index s.current ≠ BitVec.intMin 32 ∧
    (s.deferred index s.current = 0 → index < 2 ^ 16 ∧
      (s.frame s.current).length <
        s.m_resource_unit_free_frame_buffer.GetCurrentFrameArray.m_max)
  | .ReserveUnload => True
  | .advance => ∀ f, s.pass = .advance f → s.passes = 0
  | .reserveUnload _ => ∀ f index rest, s.pass = .drain f (index :: rest) →
    let count := (s.units index.toNat).m_reference_count.toInt + (s.deferred index.toNat f).toInt
    0 ≤ count + 2 ^ 31 ∧ count < 0

end Run

def Released (base : ℕ → ℤ) : Option Run → Prop
  | none => False
  | some s => s.Released base

def Right : Option Run → Event → Prop
  | none, _ => False
  | some s, e => s.Right e

def Fits : Option Run → Event → Prop
  | none, _ => False
  | some s, e => s.Fits e

section Counts

variable {x y : BitVec 32}

theorem toInt_add (hge : -2 ^ 31 ≤ x.toInt + y.toInt) (hlt : x.toInt + y.toInt < 2 ^ 31) :
    (x + y).toInt = x.toInt + y.toInt := by
  rw [BitVec.toInt_add, Int.bmod_eq_of_le (by push_cast; omega) (by push_cast; omega)]

theorem toInt_add_iff (hy : y.toInt ≤ 0) :
    (x + y).toInt = x.toInt + y.toInt ↔ -2 ^ 31 ≤ x.toInt + y.toInt := by
  have hsum := (x + y).le_toInt
  have hx := x.toInt_lt
  constructor
  · intro h
    rw [← h]
    simpa using hsum
  · intro h
    apply toInt_add h
    simp only [Nat.add_one_sub_one] at hx
    omega

theorem toInt_sub_one_iff : (x - 1).toInt = x.toInt - 1 ↔ x ≠ BitVec.intMin 32 := by
  have hsub : x - 1 = x + (-1 : BitVec 32) := by bv_omega
  have hone : (-1 : BitVec 32).toInt = -1 := by decide
  have hmin : x = BitVec.intMin 32 ↔ x.toInt = -2 ^ 31 := by
    rw [← BitVec.toInt_inj]
    rfl
  have hle : -2 ^ 31 ≤ x.toInt := x.le_toInt
  have hiff : (x + -1).toInt = x.toInt + (-1 : BitVec 32).toInt ↔ _ :=
    toInt_add_iff (hone.trans_le (by decide))
  rw [hone] at hiff
  rw [hsub, ne_eq, hmin]
  omega

end Counts

end DeferredRelease

namespace CountedUnit

open DeferredRelease

variable {unit : CountedUnit} {amount : BitVec 32} {waited : ResourceUnit.Status} {f : Fin 2}

theorem adjustCache_counts : (unit.adjustCache waited).m_reference_count = unit.m_reference_count ∧
    (unit.adjustCache waited).m_is_managed = unit.m_is_managed ∧
    (unit.adjustCache waited).m_deferred_adjust_count = unit.m_deferred_adjust_count := by
  unfold adjustCache
  by_cases hcache : unit.m_is_cache_unload = false ∨ unit.m_is_cache_unload_for_no_ref = false ∨
      unit.m_is_cache_unload_for_no_error = false
  · rw [if_pos hcache]
    exact ⟨rfl, rfl, rfl⟩
  · rw [if_neg hcache]
    cases hstatus : unit.m_status with
    | InResourceInitialize | ResourceInitialized =>
      dsimp only
      split_ifs
      · exact ⟨rfl, rfl, rfl⟩
      · exact ⟨rfl, rfl, rfl⟩
    | _ => exact ⟨rfl, rfl, rfl⟩

theorem adjust_deferred : (unit.AdjustReferenceCount amount waited).m_deferred_adjust_count =
    unit.m_deferred_adjust_count := by
  unfold AdjustReferenceCount
  dsimp only
  split_ifs
  · rw [adjustCache_counts.2.2]
    rfl
  · rfl
  · rw [adjustCache_counts.2.2]
    rfl

@[simp] theorem withCount_count (count : BitVec 32) :
    (unit.withCount count).m_reference_count = count := rfl

@[simp] theorem withCount_managed (count : BitVec 32) :
    (unit.withCount count).m_is_managed = unit.m_is_managed := rfl

@[simp] theorem withDeferred_count (count : BitVec 32) :
    (unit.withDeferred f count).m_reference_count = unit.m_reference_count := rfl

@[simp] theorem withDeferred_managed (count : BitVec 32) :
    (unit.withDeferred f count).m_is_managed = unit.m_is_managed := rfl

theorem releaseManaged_count : unit.ReleaseManagedReference.m_reference_count =
    if unit.m_is_managed = true then unit.m_reference_count - 1 else unit.m_reference_count := by
  unfold ReleaseManagedReference ResourceUnit.ReleaseManagedReference
  cases hmanaged : unit.m_is_managed with
  | false => rfl
  | true => rfl

theorem releaseManaged_managed : unit.ReleaseManagedReference.m_is_managed = false := by
  unfold ReleaseManagedReference ResourceUnit.ReleaseManagedReference
  cases hmanaged : unit.m_is_managed with
  | false => exact hmanaged
  | true => rfl

theorem adjust_count : (unit.AdjustReferenceCount amount waited).m_reference_count =
    if unit.m_reference_count + amount = 1 ∧ unit.m_is_managed = true then 0
    else unit.m_reference_count + amount := by
  unfold AdjustReferenceCount
  dsimp only
  by_cases hone : unit.m_reference_count + amount = 1
  · rw [if_pos hone, adjustCache_counts.1, releaseManaged_count, withCount_count,
      withCount_managed, hone]
    by_cases hmanaged : unit.m_is_managed = true
    · rw [if_pos hmanaged, if_pos ⟨rfl, hmanaged⟩]
      rfl
    · rw [if_neg hmanaged, if_neg fun h => hmanaged h.2]
  · rw [if_neg hone, if_neg fun h : _ ∧ _ => hone h.1]
    split_ifs
    · rfl
    · rw [adjustCache_counts.1]
      rfl

theorem adjust_managed : (unit.AdjustReferenceCount amount waited).m_is_managed =
    if unit.m_reference_count + amount = 1 then false else unit.m_is_managed := by
  unfold AdjustReferenceCount
  dsimp only
  split_ifs
  · rw [adjustCache_counts.2.1, releaseManaged_managed]
  · rfl
  · rw [adjustCache_counts.2.1]
    rfl

theorem adjust_held : (unit.AdjustReferenceCount amount waited).held =
    (unit.m_reference_count + amount).toInt - if unit.m_is_managed = true then 1 else 0 := by
  unfold held
  rw [adjust_count, adjust_managed]
  by_cases hone : unit.m_reference_count + amount = 1
  · rw [if_pos hone, hone]
    cases hmanaged : unit.m_is_managed with
    | false => decide
    | true => decide
  · rw [if_neg hone, if_neg fun h : _ ∧ _ => hone h.1]

theorem adjust_neg_iff : (unit.AdjustReferenceCount amount waited).m_reference_count.toInt < 0 ↔
    (unit.m_reference_count + amount).toInt < 0 := by
  rw [adjust_count]
  split_ifs with hlast
  · rw [hlast.1]
    decide
  · rfl

theorem balance_withDeferred (count : BitVec 32) : (unit.withDeferred f count).balance =
    unit.balance - (unit.m_deferred_adjust_count f).toInt + count.toInt := by
  have htwo : ∀ f : Fin 2, f = 0 ∨ f = 1 := by decide
  unfold balance held
  rw [withDeferred_count, withDeferred_managed]
  unfold withDeferred
  dsimp only
  obtain rfl | rfl := htwo f
  · rw [Function.update_self, Function.update_of_ne (by decide)]
    omega
  · rw [Function.update_self, Function.update_of_ne (by decide)]
    omega

theorem reserveUnload_deferred : (unit.reserveUnload f waited).1.m_deferred_adjust_count =
    Function.update unit.m_deferred_adjust_count f 0 := by
  unfold reserveUnload withDeferred
  dsimp only
  rw [adjust_deferred]

theorem reserveUnload_push : (unit.reserveUnload f waited).2 = true ↔
    1 ≤ (unit.reserveUnload f waited).1.m_reference_count.toInt := by
  unfold reserveUnload
  dsimp only
  rw [withDeferred_count, Bool.not_eq_true', ← Bool.not_eq_true, BitVec.slt_iff_toInt_lt,
    show (1 : BitVec 32).toInt = 1 from rfl, not_lt]

theorem reserveUnload_right_iff : ((unit.reserveUnload f waited).2 = true ↔
    (unit.reserveUnload f waited).1.m_reference_count = 0) ↔
    (unit.m_reference_count + unit.m_deferred_adjust_count f).toInt < 0 := by
  have hcount : (unit.reserveUnload f waited).1.m_reference_count.toInt < 0 ↔
      (unit.m_reference_count + unit.m_deferred_adjust_count f).toInt < 0 := adjust_neg_iff
  rw [reserveUnload_push, ← BitVec.toInt_inj, show (0 : BitVec 32).toInt = 0 from rfl, ← hcount]
  omega

theorem balance_reserveUnload (hd : (unit.m_deferred_adjust_count f).toInt ≤ 0) :
    (unit.reserveUnload f waited).1.balance = unit.balance ↔
      -2 ^ 31 ≤ unit.m_reference_count.toInt + (unit.m_deferred_adjust_count f).toInt := by
  rw [← toInt_add_iff hd]
  unfold reserveUnload
  dsimp only
  rw [balance_withDeferred, adjust_deferred]
  unfold balance
  rw [adjust_held, adjust_deferred]
  unfold held
  have hzero : (0 : BitVec 32).toInt = 0 := rfl
  omega

end CountedUnit

namespace DeferredRelease

namespace Run

variable {base : ℕ → ℤ} {s s' : Run} {u index : ℕ} {f : Fin 2}

/-- What the current frame lists has a deferred count; one pass has found units or none, according
to whether the other frame has some. -/
structure Inv (base : ℕ → ℤ) (s : Run) : Prop extends s.Released base where
  nonpos : ∀ u f, (s.deferred u f).toInt ≤ 0
  current : ∀ index ∈ s.frame s.current, s.deferred index.toNat s.current ≠ 0
  advance : ∀ f, s.pass = .advance f → f = s.current ∧ s.frame f ≠ []
  drain : ∀ f rest, s.pass = .drain f rest → f ≠ s.current
  first : ∀ f ≠ s.current, s.frame f = [] ↔ s.passes = 0

theorem advance_ne : s.m_resource_unit_free_frame_buffer.AdvanceFrameArray.m_current_frame ≠
    s.current := by
  unfold BufferedFrames.AdvanceFrameArray current
  dsimp only
  generalize s.m_resource_unit_free_frame_buffer.m_current_frame = f
  revert f
  decide

theorem balance_update (u : ℕ) {unit : CountedUnit} :
    (Function.update s.units index unit u).balance =
      (s.units u).balance + if u = index then unit.balance - (s.units index).balance else 0 := by
  by_cases hu : u = index
  · rw [hu, Function.update_self, if_pos rfl]
    omega
  · rw [Function.update_of_ne hu, if_neg hu, add_zero]

theorem request_eq : s.RequestUnloadResourceUnit index =
    if s.deferred index s.current = 0 then
      if (s.frame s.current).length <
          s.m_resource_unit_free_frame_buffer.GetCurrentFrameArray.m_max then
        some { s with
          units := Function.update s.units index ((s.units index).withDeferred s.current
            (s.deferred index s.current - 1))
          requests := Function.update s.requests index (s.requests index + 1)
          m_resource_unit_free_frame_buffer := { s.m_resource_unit_free_frame_buffer with
            m_frame_array_array :=
              Function.update s.m_resource_unit_free_frame_buffer.m_frame_array_array s.current
                { s.m_resource_unit_free_frame_buffer.GetCurrentFrameArray with
                  m_array := s.frame s.current ++ [BitVec.ofNat 16 index] } } }
      else none
    else some { s with
      units := Function.update s.units index ((s.units index).withDeferred s.current
        (s.deferred index s.current - 1))
      requests := Function.update s.requests index (s.requests index + 1) } := by
  unfold RequestUnloadResourceUnit BufferedFrames.pushCurrent FrameList.PushValue
  dsimp only
  have hnew : s.deferred index s.current - 1 ≠ -1 ↔ s.deferred index s.current ≠ 0 := by bv_omega
  change (if s.deferred index s.current - 1 ≠ -1 then _ else _) = _
  by_cases hd : s.deferred index s.current = 0
  · rw [if_neg (mt hnew.mp (not_not.mpr hd)), if_pos hd]
    change Option.map _ (Option.map _ (if (s.frame s.current).length < _ then _ else _)) = _
    split_ifs
    · rfl
    · rfl
  · rw [if_pos (hnew.mpr hd), if_neg hd]
    rfl

structure Requested (s : Run) (index : ℕ) (s' : Run) : Prop where
  units : s'.units = Function.update s.units index
    ((s.units index).withDeferred s.current (s.deferred index s.current - 1))
  current : s'.current = s.current
  pass : s'.pass = s.pass
  passes : s'.passes = s.passes
  frame : ∀ f, s'.frame f = if f = s.current ∧ s.deferred index s.current = 0 then
    s.frame f ++ [BitVec.ofNat 16 index] else s.frame f
  deferred : ∀ u f, s'.deferred u f =
    if u = index ∧ f = s.current then s.deferred u f - 1 else s.deferred u f
  balance : ∀ u, (s'.units u).balance + s'.requests u = (s.units u).balance + s.requests u +
    if u = index then (s.deferred index s.current - 1).toInt -
      (s.deferred index s.current).toInt + 1 else 0

theorem Requested.of_eq (hs : s.RequestUnloadResourceUnit index = some s') :
    s.Requested index s' := by
  have hdeferred : ∀ u f, (Function.update s.units index ((s.units index).withDeferred s.current
      (s.deferred index s.current - 1)) u).m_deferred_adjust_count f =
      if u = index ∧ f = s.current then s.deferred u f - 1 else s.deferred u f := by
    intro u f
    by_cases hu : u = index
    · rw [hu, Function.update_self]
      by_cases hf : f = s.current
      · rw [hf, if_pos ⟨rfl, rfl⟩]
        exact Function.update_self ..
      · rw [if_neg fun h => hf h.2]
        exact Function.update_of_ne hf ..
    · rw [Function.update_of_ne hu, if_neg fun h => hu h.1]
      rfl
  have hbalance : ∀ u, (Function.update s.units index ((s.units index).withDeferred s.current
      (s.deferred index s.current - 1)) u).balance +
      (Function.update s.requests index (s.requests index + 1) u : ℕ) =
      (s.units u).balance + s.requests u + if u = index then
        (s.deferred index s.current - 1).toInt - (s.deferred index s.current).toInt + 1 else 0 := by
    intro u
    rw [s.balance_update, CountedUnit.balance_withDeferred, Function.update_apply]
    unfold Run.deferred
    split_ifs with hu
    · rw [hu]
      push_cast
      omega
    · omega
  rw [request_eq] at hs
  split_ifs at hs with hd hroom
  · rw [← Option.some.inj hs]
    refine ⟨rfl, rfl, rfl, rfl, fun f => ?_, hdeferred, hbalance⟩
    unfold Run.frame
    dsimp only
    rw [Function.update_apply]
    split_ifs with hf hf' hf'
    · rw [hf]
    · exact absurd ⟨hf, hd⟩ hf'
    · exact absurd hf'.1 hf
    · rfl
  · rw [← Option.some.inj hs]
    refine ⟨rfl, rfl, rfl, rfl, fun f => ?_, hdeferred, hbalance⟩
    rw [if_neg fun h => hd h.2]
    rfl

theorem request_isSome (hfits : s.Fits (.RequestUnloadResourceUnit index)) :
    ∃ s', s.RequestUnloadResourceUnit index = some s' := by
  rw [request_eq]
  split_ifs with hd hroom
  · exact ⟨_, rfl⟩
  · exact absurd (hfits.2 hd).2 hroom
  · exact ⟨_, rfl⟩

theorem Requested.awaiting (hs : s.Requested index s')
    (hdrain : ∀ f rest, s.pass = .drain f rest → f ≠ s.current) (f : Fin 2) :
    s'.awaiting f = if f = s.current ∧ s.deferred index s.current = 0 then
      s.awaiting f ++ [BitVec.ofNat 16 index] else s.awaiting f := by
  unfold Run.awaiting
  rw [hs.pass, hs.current, hs.frame]
  cases hpass : s.pass with
  | drain drained rest =>
    have hne := hdrain drained rest hpass
    grind
  | none => grind
  | advance drained => grind

theorem Inv.requested (h : s.Inv base) (hfits : s.Fits (.RequestUnloadResourceUnit index))
    (hs : s.Requested index s') : s'.Inv base := by
  obtain ⟨hmin, hcut⟩ := hfits
  have hawaiting := hs.awaiting h.drain
  obtain ⟨⟨honce, hawaited, hlisted⟩, hnonpos, hcurrent, hadvance, hdrain, hfirst⟩ := h
  obtain ⟨-, hcurrent', hpass', hpasses', hframe', hdeferred', hbalance'⟩ := hs
  have hsub := toInt_sub_one_iff.mpr hmin
  have hnew : s.deferred index s.current - 1 ≠ 0 := by
    intro hzero
    have hone : s.deferred index s.current = 1 := by bv_omega
    have hle := hnonpos index s.current
    rw [hone] at hle
    exact absurd hle (by decide)
  have hindex : s.deferred index s.current = 0 → (BitVec.ofNat 16 index).toNat = index :=
    fun hd => by rw [BitVec.toNat_ofNat, Nat.mod_eq_of_lt (hcut hd).1]
  constructor
  · constructor
    · intro u
      rw [hbalance', hsub, ← honce u]
      split_ifs
      · omega
      · omega
    · intro u f hd
      rw [hawaiting]
      by_cases hdirect : u = index ∧ f = s.current ∧ s.deferred index s.current = 0
      · obtain ⟨rfl, rfl, hzero⟩ := hdirect
        rw [if_pos ⟨rfl, hzero⟩]
        exact ⟨_, List.mem_append_right _ List.mem_cons_self, hindex hzero⟩
      · have hbefore : s.deferred u f ≠ 0 := by
          intro hzero
          rw [hdeferred'] at hd
          split_ifs at hd with huf
          · rw [huf.1, huf.2] at hzero
            exact hdirect ⟨huf.1, huf.2, hzero⟩
          · exact hd hzero
        obtain ⟨i, hi, rfl⟩ := hawaited u f hbefore
        refine ⟨i, ?_, rfl⟩
        split_ifs
        · exact List.mem_append_left _ hi
        · exact hi
    · intro f
      rw [hframe']
      split_ifs with hf
      · refine List.nodup_append.mpr ⟨hlisted f, List.nodup_singleton _, ?_⟩
        rintro i hi j hj rfl
        rw [List.mem_singleton.mp hj, hf.1] at hi
        have hne := hcurrent _ hi
        rw [hindex hf.2] at hne
        exact hne hf.2
      · exact hlisted f
  · intro u f
    rw [hdeferred']
    have hle := hnonpos u f
    split_ifs with huf
    · rw [huf.1, huf.2, hsub]
      rw [huf.1, huf.2] at hle
      omega
    · exact hle
  · intro i hi
    rw [hcurrent', hframe'] at hi
    rw [hcurrent', hdeferred']
    split_ifs with hlast
    · rw [hlast.1]
      exact hnew
    · split_ifs at hi with hd
      · obtain hi | hi := List.mem_append.mp hi
        · exact hcurrent i hi
        · rw [List.mem_singleton.mp hi, hindex hd.2] at hlast
          exact absurd ⟨rfl, rfl⟩ hlast
      · exact hcurrent i hi
  · intro f hf
    rw [hpass'] at hf
    obtain ⟨rfl, hne⟩ := hadvance f hf
    rw [hcurrent', hframe']
    refine ⟨rfl, ?_⟩
    split_ifs
    · simp
    · exact hne
  · intro f rest hf
    rw [hpass'] at hf
    rw [hcurrent']
    exact hdrain f rest hf
  · intro f hf
    rw [hcurrent'] at hf
    rw [hframe', hpasses', if_neg fun h => hf h.1]
    exact hfirst f hf

theorem Requested.fits (h : s.Inv base) (hs : s.Requested index s') (hreleased : s'.Released base)
    (hsome : s.RequestUnloadResourceUnit index = some s') :
    s.Fits (.RequestUnloadResourceUnit index) := by
  constructor
  · rw [← toInt_sub_one_iff]
    have hbefore := h.once index
    have hafter := hreleased.once index
    rw [hs.balance, if_pos rfl] at hafter
    omega
  · intro hd
    constructor
    · have hnew : s'.deferred index s.current ≠ 0 := by
        rw [hs.deferred, if_pos ⟨rfl, rfl⟩, hd]
        decide
      obtain ⟨i, -, rfl⟩ := hreleased.awaited index s.current hnew
      exact i.isLt
    · by_contra hroom
      rw [request_eq, if_pos hd, if_neg hroom] at hsome
      cases hsome

theorem eq_of_ne_of_ne {f g h : Fin 2} (hf : f ≠ h) (hg : g ≠ h) : f = g := by omega

theorem Inv.begin (h : s.Inv base) (hpass : s.pass = .none) (hframe : s.frame s.current ≠ []) :
    ({ s with pass := .advance s.current } : Run).Inv base := by
  have hawaiting : ∀ f, s.awaiting f = ({ s with pass := .advance s.current } : Run).awaiting f := by
    intro f
    unfold awaiting
    rw [hpass]
    rfl
  refine ⟨⟨h.once, fun u f hd => ?_, h.listed⟩, h.nonpos, h.current, ?_, ?_, h.first⟩
  · rw [← hawaiting]
    exact h.awaited u f hd
  · rintro f ⟨⟩
    exact ⟨rfl, hframe⟩
  · rintro f rest ⟨⟩

theorem Inv.finish (h : s.Inv base) (hpass : s.pass = .drain f []) :
    ({ s with pass := .none } : Run).Inv base := by
  have hne := h.drain f [] hpass
  have hawaiting : ∀ g, s.awaiting g = ({ s with pass := .none } : Run).awaiting g := by
    intro g
    unfold awaiting
    rw [hpass]
    dsimp only
    by_cases hg : f = g
    · rw [if_pos hg]
      exact (if_neg (hg ▸ Ne.symm hne)).symm
    · have hcurrent : s.current = g := eq_of_ne_of_ne hne.symm (Ne.symm hg)
      rw [if_neg hg]
      exact (if_pos hcurrent).symm
  refine ⟨⟨h.once, fun u g hd => ?_, h.listed⟩, h.nonpos, h.current, ?_, ?_, h.first⟩
  · rw [← hawaiting]
    exact h.awaited u g hd
  · rintro g ⟨⟩
  · rintro g rest ⟨⟩

theorem Inv.advanced (h : s.Inv base) (hpass : s.pass = .advance f) (hfirst : s.passes = 0) :
    ({ s with
      m_resource_unit_free_frame_buffer := s.m_resource_unit_free_frame_buffer.AdvanceFrameArray
      pass := .drain f (s.frame f)
      passes := s.passes + 1 } : Run).Inv base := by
  obtain ⟨rfl, hne⟩ := h.advance f hpass
  have hnext := s.advance_ne
  have hempty := (h.first _ hnext).mpr hfirst
  refine ⟨⟨h.once, fun u g hd => ?_, h.listed⟩, h.nonpos, fun i hi => ?_, ?_, ?_, fun g hg => ?_⟩
  · have hbefore := h.awaited u g hd
    unfold awaiting at hbefore ⊢
    rw [hpass] at hbefore
    dsimp only at hbefore ⊢
    by_cases hg : s.current = g
    · rw [if_pos hg] at hbefore ⊢
      rw [hg]
      exact hbefore
    · rw [if_neg hg] at hbefore
      obtain ⟨i, hi, -⟩ := hbefore
      cases hi
  · have hi' : i ∈ s.frame s.m_resource_unit_free_frame_buffer.AdvanceFrameArray.m_current_frame := hi
    rw [hempty] at hi'
    cases hi'
  · rintro g ⟨⟩
  · rintro g rest ⟨⟩
    exact hnext.symm
  · have heq : g = s.current := eq_of_ne_of_ne hg hnext.symm
    rw [heq]
    exact iff_of_false hne (Nat.succ_ne_zero _)

theorem Inv.drained (h : s.Inv base) {i : BitVec 16} {rest : List (BitVec 16)}
    {waited : ResourceUnit.Status} (hpass : s.pass = .drain f (i :: rest))
    (hfits : -2 ^ 31 ≤ (s.units i.toNat).m_reference_count.toInt + (s.deferred i.toNat f).toInt) :
    ({ s with
      units := Function.update s.units i.toNat ((s.units i.toNat).reserveUnload f waited).1
      pass := .drain f rest } : Run).Inv base := by
  have hne := h.drain f _ hpass
  have hdeferred : ∀ u g, (Function.update s.units i.toNat
      ((s.units i.toNat).reserveUnload f waited).1 u).m_deferred_adjust_count g =
      if u = i.toNat ∧ g = f then 0 else s.deferred u g := by
    intro u g
    by_cases hu : u = i.toNat
    · rw [hu, Function.update_self, CountedUnit.reserveUnload_deferred]
      by_cases hg : g = f
      · rw [hg, Function.update_self, if_pos ⟨rfl, rfl⟩]
      · rw [Function.update_of_ne hg, if_neg fun h => hg h.2]
        rfl
    · rw [Function.update_of_ne hu, if_neg fun h => hu h.1]
      rfl
  have hbalance : ∀ u, (Function.update s.units i.toNat
      ((s.units i.toNat).reserveUnload f waited).1 u).balance = (s.units u).balance := by
    intro u
    rw [s.balance_update, (CountedUnit.balance_reserveUnload (h.nonpos i.toNat f)).mpr hfits,
      sub_self]
    split_ifs
    · exact add_zero _
    · exact add_zero _
  refine ⟨⟨fun u => ?_, fun u g hd => ?_, h.listed⟩, fun u g => ?_, fun j hj => ?_, ?_, ?_, h.first⟩
  · rw [← h.once u, ← hbalance u]
  · have hafter : (if u = i.toNat ∧ g = f then 0 else s.deferred u g) ≠ 0 := by
      rw [← hdeferred]
      exact hd
    split_ifs at hafter with hdone
    · exact absurd rfl hafter
    · obtain ⟨j, hj, rfl⟩ := h.awaited u g hafter
      unfold awaiting at hj ⊢
      rw [hpass] at hj
      dsimp only at hj ⊢
      refine ⟨j, ?_, rfl⟩
      by_cases hg : f = g
      · rw [if_pos hg] at hj ⊢
        obtain rfl | hj := List.mem_cons.mp hj
        · exact absurd ⟨rfl, hg.symm⟩ hdone
        · exact hj
      · rw [if_neg hg] at hj ⊢
        exact hj
  · change ((Function.update s.units i.toNat
      ((s.units i.toNat).reserveUnload f waited).1 u).m_deferred_adjust_count g).toInt ≤ 0
    rw [hdeferred]
    split_ifs
    · exact Int.le_refl 0
    · exact h.nonpos u g
  · change (Function.update s.units i.toNat ((s.units i.toNat).reserveUnload f waited).1
      j.toNat).m_deferred_adjust_count s.current ≠ 0
    rw [hdeferred, if_neg fun heq => hne heq.2.symm]
    exact h.current j hj
  · rintro g ⟨⟩
  · rintro g rest ⟨⟩
    exact hne

end Run

theorem goes_of_fits {base : ℕ → ℤ} {s : Run} {e : Event} (h : s.Inv base) (hfits : s.Fits e) :
    s.Right e ∧ ∃ s', s.event e = some s' ∧ s'.Inv base := by
  cases e with
  | RequestUnloadResourceUnit index =>
    obtain ⟨s', hs⟩ := s.request_isSome hfits
    exact ⟨trivial, s', hs, h.requested hfits (.of_eq hs)⟩
  | ReserveUnload =>
    refine ⟨trivial, ?_⟩
    unfold Run.event
    dsimp only
    split
    · rename_i hpass
      split_ifs with hframe
      · exact ⟨s, rfl, h⟩
      · exact ⟨_, rfl, h.begin hpass hframe⟩
    · exact ⟨s, rfl, h⟩
  | advance =>
    unfold Run.event
    dsimp only
    split
    · rename_i f hpass
      have hfirst := hfits f hpass
      refine ⟨fun g _ => (h.first _ s.advance_ne).mpr hfirst, _, rfl, h.advanced hpass hfirst⟩
    · rename_i hpass
      exact ⟨fun g hg => absurd hg (hpass g), s, rfl, h⟩
  | reserveUnload waited =>
    unfold Run.event
    dsimp only
    split
    · rename_i f i rest hpass
      obtain ⟨hge, hlt⟩ := hfits f i rest hpass
      have hge' : -2 ^ 31 ≤
          (s.units i.toNat).m_reference_count.toInt + (s.deferred i.toNat f).toInt := by omega
      have hsum := (toInt_add_iff (h.nonpos i.toNat f)).mpr hge'
      refine ⟨?_, _, rfl, h.drained hpass hge'⟩
      rintro g j rest' hg
      rw [hpass] at hg
      cases hg
      rw [CountedUnit.reserveUnload_right_iff]
      exact hsum.trans_lt hlt
    · rename_i f hpass
      refine ⟨?_, _, rfl, h.finish hpass⟩
      rintro g j rest' hg
      rw [hpass] at hg
      cases hg
    · rename_i hpass _
      refine ⟨?_, s, rfl, h⟩
      rintro g j rest' hg
      exact absurd hg (hpass g j rest')

theorem fits_of_right {base : ℕ → ℤ} {s : Run} {e : Event} (h : s.Inv base) (hright : s.Right e)
    (hnext : Released base (s.event e)) : s.Fits e := by
  cases e with
  | RequestUnloadResourceUnit index =>
    cases hs : s.RequestUnloadResourceUnit index with
    | none =>
      have hnone : Released base none := hs ▸ hnext
      exact hnone.elim
    | some s' =>
      have hreleased : Released base (some s') := hs ▸ hnext
      exact (Run.Requested.of_eq hs).fits h hreleased hs
  | ReserveUnload => trivial
  | advance =>
    intro f hpass
    exact (h.first _ s.advance_ne).mp (hright f hpass)
  | reserveUnload waited =>
    intro f i rest hpass
    have hneg := CountedUnit.reserveUnload_right_iff.mp (hright f i rest hpass)
    have hevent : s.event (.reserveUnload waited) = some { s with
        units := Function.update s.units i.toNat ((s.units i.toNat).reserveUnload f waited).1
        pass := .drain f rest } := by
      unfold Run.event
      dsimp only
      rw [hpass]
    rw [hevent] at hnext
    have hafter : (Function.update s.units i.toNat
        ((s.units i.toNat).reserveUnload f waited).1 i.toNat).balance + s.requests i.toNat =
        base i.toNat := hnext.once i.toNat
    rw [Function.update_self] at hafter
    have hbalance : ((s.units i.toNat).reserveUnload f waited).1.balance =
        (s.units i.toNat).balance := by
      have hbefore := h.once i.toNat
      omega
    have hge := (CountedUnit.balance_reserveUnload (h.nonpos i.toNat f)).mp hbalance
    have hsum := (toInt_add_iff (h.nonpos i.toNat f)).mpr hge
    rw [show (s.units i.toNat).m_deferred_adjust_count f = s.deferred i.toNat f from rfl,
      hsum] at hneg
    refine ⟨?_, hneg⟩
    unfold Run.deferred
    omega

def start (units : ℕ → CountedUnit) (per_frame_count : ℕ) : Run where
  units := units
  m_resource_unit_free_frame_buffer := ⟨fun _ => ⟨[], per_frame_count⟩, 0⟩
  pass := .none
  requests _ := 0
  passes := 0

theorem start_inv {units : ℕ → CountedUnit}
    (hunits : ∀ u f, (units u).m_deferred_adjust_count f = 0) (per_frame_count : ℕ) :
    (start units per_frame_count).Inv fun u => (units u).balance where
  once _ := add_zero _
  awaited u f hd := absurd (hunits u f) hd
  listed _ := List.nodup_nil
  nonpos u f := by
    unfold Run.deferred start
    dsimp only
    rw [hunits]
    decide
  current _ hi := nomatch hi
  advance _ hpass := nomatch hpass
  drain _ _ hpass := nomatch hpass
  first _ _ := iff_of_true rfl rfl

/-- Passes release what is requested in exactly the runs of which every step fits. -/
theorem released_iff {units : ℕ → CountedUnit}
    (hunits : ∀ u f, (units u).m_deferred_adjust_count f = 0) (per_frame_count : ℕ)
    (events : List Event) :
    Calls.Throughout step (Released fun u => (units u).balance) Right
        (some (start units per_frame_count)) events ↔
      Calls.EachIn step Fits (some (start units per_frame_count)) events := by
  let Inv (q : Option Run) : Prop := ∃ s, q = some s ∧ s.Inv fun u => (units u).balance
  have hreleased : ∀ q, Inv q → Released (fun u => (units u).balance) q := by
    rintro _ ⟨s, rfl, h⟩
    exact h.toReleased
  apply Calls.throughout_iff (U := fun _ _ => True) hreleased _ _
    ⟨_, rfl, start_inv hunits per_frame_count⟩ Calls.eachIn_true
  · rintro _ e ⟨s, rfl, h⟩ - hfits
    obtain ⟨hright, s', hs, hinv⟩ := goes_of_fits h hfits
    exact ⟨hright, s', hs, hinv⟩
  · rintro _ e ⟨s, rfl, h⟩ - hright hnext
    exact fits_of_right h hright hnext

def unitWith (count : BitVec 32) : CountedUnit where
  m_is_resource_initializable := false
  m_is_file_not_found := false
  m_is_fail_get_file_size := false
  m_is_fail_init_resource := false
  m_is_bad_user_resource_size := false
  m_is_bad_resource_size := false
  m_is_file_not_available := false
  m_is_memory_allocation_failure := false
  m_is_managed := false
  m_is_freeable_for_memory_manager := false
  m_status := .Loaded
  m_reference_count := count
  m_resource_initialize_guard := 0
  m_resource := none
  m_load_task_status := .Complete
  m_load_task_finish_event := true
  m_status_update_event := true
  m_deferred_adjust_count _ := 0
  m_is_cache_unload := false
  m_is_cache_unload_for_no_ref := false
  m_is_cache_unload_for_no_error := false
  m_is_part_of_resource_unit_mgr := true

theorem released_iff_requested :
    Calls.Throughout step (Released fun _ => (unitWith 1).balance) Right
      (some (start (fun _ => unitWith 1) 1)) [.RequestUnloadResourceUnit 0, .ReserveUnload] := by
  apply (released_iff (fun _ _ => rfl) 1 _).mpr
  refine ⟨trivial, ⟨?_, fun _ => ⟨?_, ?_⟩⟩, trivial, trivial, trivial⟩
  · decide
  · decide
  · decide

theorem lastReference_not_unloaded :
    ¬ Calls.Throughout step (Released fun _ => (unitWith 1).balance) Right
      (some (start (fun _ => unitWith 1) 1))
      [.RequestUnloadResourceUnit 0, .ReserveUnload, .advance, .reserveUnload .Loaded] := by
  rintro ⟨-, -, -, -, -, -, -, hright, -⟩
  have hpush := hright 0 0 [] rfl
  revert hpush
  decide

end DeferredRelease

end Awn
