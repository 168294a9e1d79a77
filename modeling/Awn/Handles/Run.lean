import Awn.Calls.Throughout
import Awn.Handles.Operations

/-! Runs of a table, and the calls that it answers right. -/

namespace Awn.Handles

open Calls

variable {Obj : Type*}

inductive Call (Obj : Type*)
  | ReserveHandle (object : Obj)
  | FreeHandle (handle : BitVec 32)
  | GetObjectByHandle (handle : BitVec 32)

structure Functions (Obj : Type*) where
  ReserveHandle : HandleTable Obj → Obj → Option (Option (BitVec 32) × HandleTable Obj)
  FreeHandle : HandleTable Obj → BitVec 32 → Option (Bool × HandleTable Obj)
  GetObjectByHandle : HandleTable Obj → BitVec 32 → Option (Option Obj)

def fixedFunctions (Obj : Type*) (HandleCount : ℕ) : Functions Obj :=
  ⟨FixedHandleTable.ReserveHandle HandleCount, FixedHandleTable.FreeHandle HandleCount,
    FixedHandleTable.GetObjectByHandle HandleCount⟩

def ukernFunctions (Obj : Type*) : Functions Obj :=
  ⟨Ukern.ReserveHandle, Ukern.FreeHandle, Ukern.GetObjectByHandle⟩

def State.call (f : Functions Obj) (s : State Obj) : Call Obj → State Obj
  | .ReserveHandle object =>
    match f.ReserveHandle s.table object with
    | some (some handle, table) =>
      ⟨table, Function.update s.live handle (some object), handle :: s.issued⟩
    | some (none, table) => { s with table }
    | none => s
  | .FreeHandle handle =>
    match f.FreeHandle s.table handle with
    | some (true, table) => { s with table, live := Function.update s.live handle none }
    | some (false, table) => { s with table }
    | none => s
  | .GetObjectByHandle _ => s

def Right (f : Functions Obj) (cMaxHandles : ℕ) (s : State Obj) : Call Obj → Prop
  | .ReserveHandle object =>
    (∀ i < cMaxHandles, s.InUse i) ∧ f.ReserveHandle s.table object = some (none, s.table) ∨
      (∃ i < cMaxHandles, ¬s.InUse i) ∧ ∃ handle table,
        f.ReserveHandle s.table object = some (some handle, table) ∧ handle ∉ s.issued
  | .FreeHandle handle =>
    if s.live handle = none then f.FreeHandle s.table handle = some (false, s.table)
    else ∃ table, f.FreeHandle s.table handle = some (true, table)
  | .GetObjectByHandle handle => f.GetObjectByHandle s.table handle = some (s.live handle)

/-- The counter has not wrapped. -/
def Counted (s : State Obj) : Call Obj → Prop
  | .ReserveHandle _ => s.issued.length < 0x7fff
  | _ => True

/-- No call looks at the slot behind the last one, and none frees a live handle with another one
that is compared as that. -/
def Met (cMaxHandles : ℕ) (compared : BitVec 32 → BitVec 32) (s : State Obj) : Call Obj → Prop
  | .ReserveHandle _ => True
  | .FreeHandle handle => (serialOf handle ≠ 0 → indexOf handle ≠ cMaxHandles) ∧
      (s.live handle = none → s.live (compared handle) = none)
  | .GetObjectByHandle handle =>
    serialOf handle ≠ 0 → serialOf handle < 2 ^ 15 → indexOf handle ≠ cMaxHandles

def tableFunctions (Obj : Type*) (cMaxHandles : ℕ) (same_serial : BitVec 32 → BitVec 16 → Bool) :
    Functions Obj :=
  ⟨HandleTable.reserveHandle cMaxHandles, HandleTable.freeHandle cMaxHandles same_serial,
    HandleTable.getObjectByHandle cMaxHandles same_serial⟩

section Step

variable {cMaxHandles : ℕ} {s : State Obj} {free : List ℕ}
  {same_serial : BitVec 32 → BitVec 16 → Bool} {compared : BitVec 32 → BitVec 32}

theorem State.Inv.call (h : s.Inv cMaxHandles free) (hcompares : Compares same_serial compared)
    (c : Call Obj) (hcounted : Counted s c) (hmet : Met cMaxHandles compared s c) :
    Right (tableFunctions Obj cMaxHandles same_serial) cMaxHandles s c ∧
      ∃ free', (s.call (tableFunctions Obj cMaxHandles same_serial) c).Inv cMaxHandles free' := by
  cases c with
  | ReserveHandle object =>
    cases free with
    | nil =>
      have hreserve := h.reserve_full object
      have hfull : ∀ i < cMaxHandles, s.InUse i := by
        intro i hi
        rw [h.inUse_iff]
        exact ⟨hi, fun hnone => List.not_mem_nil ((h.mem_free i).mpr ⟨hi, hnone⟩)⟩
      refine ⟨Or.inl ⟨hfull, hreserve⟩, [], ?_⟩
      simp only [State.call, tableFunctions, hreserve]
      exact h
    | cons i rest =>
      obtain ⟨handle, table, hreserve, hnew, hinv⟩ := h.reserve_some hcounted object
      obtain ⟨hi, hnone⟩ := (h.mem_free i).mp List.mem_cons_self
      refine ⟨Or.inr ⟨⟨i, hi, ?_⟩, handle, table, hreserve, hnew⟩, rest, ?_⟩
      · rw [h.inUse_iff]
        exact fun hused => hused.2 hnone
      · simp only [State.call, tableFunctions, hreserve]
        exact hinv
  | FreeHandle handle =>
    obtain ⟨hne, halias⟩ := hmet
    by_cases hlive : s.live handle = none
    · have hfree := h.free_dead hcompares (halias hlive) hne
      refine ⟨?_, free, ?_⟩
      · rw [Right, if_pos hlive]
        exact hfree
      · simp only [State.call, tableFunctions, hfree]
        exact h
    · have heq := hcompares.eq handle (h.serialOf_live hlive).2
      have hcompared : s.live (compared handle) ≠ none := by
        rw [heq]
        exact hlive
      have hfree := h.free_live hcompares hcompared
      refine ⟨?_, indexOf handle :: free, ?_⟩
      · rw [Right, if_neg hlive]
        exact ⟨_, hfree⟩
      · simp only [State.call, tableFunctions, hfree]
        exact h.free_inv hlive
  | GetObjectByHandle handle => exact ⟨h.get_eq hcompares hmet, free, h⟩

theorem State.Inv.met_of_right (h : s.Inv cMaxHandles free)
    (hcompares : Compares same_serial compared) (c : Call Obj)
    (hright : Right (tableFunctions Obj cMaxHandles same_serial) cMaxHandles s c) :
    Met cMaxHandles compared s c := by
  cases c with
  | ReserveHandle object => trivial
  | FreeHandle handle =>
    constructor
    · intro hserial hindex
      have hnone : (tableFunctions Obj cMaxHandles same_serial).FreeHandle s.table handle = none :=
        free_behind hserial hindex
      unfold Right at hright
      simp only [hnone] at hright
      split at hright
      · cases hright
      · obtain ⟨table, htable⟩ := hright
        cases htable
    · intro hlive
      by_contra hother
      have hfree : (tableFunctions Obj cMaxHandles same_serial).FreeHandle s.table handle =
          some (true, freed s.table (indexOf handle)) := h.free_live hcompares hother
      rw [Right, if_pos hlive, hfree] at hright
      cases hright
  | GetObjectByHandle handle =>
    intro hserial hsmall hindex
    have hnone : (tableFunctions Obj cMaxHandles same_serial).GetObjectByHandle s.table handle =
        none := get_behind hserial hsmall hindex
    rw [Right, hnone] at hright
    cases hright

end Step

theorem right_iff_met {cMaxHandles : ℕ} (hsize : cMaxHandles ≤ 0x7fff)
    {same_serial : BitVec 32 → BitVec 16 → Bool} {compared : BitVec 32 → BitVec 32}
    (hcompares : Compares same_serial compared) {cs : List (Call Obj)}
    (hcounted : EachIn (State.call (tableFunctions Obj cMaxHandles same_serial)) Counted
      (State.start Obj cMaxHandles) cs) :
    Throughout (State.call (tableFunctions Obj cMaxHandles same_serial))
        (State.FreeRight cMaxHandles)
        (Right (tableFunctions Obj cMaxHandles same_serial) cMaxHandles)
        (State.start Obj cMaxHandles) cs ↔
      EachIn (State.call (tableFunctions Obj cMaxHandles same_serial)) (Met cMaxHandles compared)
        (State.start Obj cMaxHandles) cs := by
  have hfree : ∀ s : State Obj, (∃ free, s.Inv cMaxHandles free) → s.FreeRight cMaxHandles := by
    rintro s ⟨free, h⟩
    exact h.freeRight
  refine throughout_iff hfree ?_ ?_ ⟨_, State.start_inv hsize⟩ hcounted
  · rintro s c ⟨free, h⟩ hcounted hmet
    exact h.call hcompares c hcounted hmet
  · rintro s c ⟨free, h⟩ - hright -
    exact h.met_of_right hcompares c hright

theorem FixedHandleTable.compares : Compares sameSerial id where
  index _ := rfl
  same handle counter hcounter := by
    have hpos : counter.msb = false := by
      rw [BitVec.msb_eq_decide, decide_eq_false_iff_not]
      omega
    rw [sameSerial, beq_iff_eq, BitVec.signExtend_eq_setWidth_of_msb_false hpos, ← BitVec.toNat_inj,
      toNat_shift_serial, BitVec.toNat_setWidth, Nat.mod_eq_of_lt (by omega)]
    rfl
  eq _ _ := rfl

def withoutTop (handle : BitVec 32) : BitVec 32 := handle &&& 0x7fffffff

theorem toNat_withoutTop (handle : BitVec 32) : (withoutTop handle).toNat = handle.toNat % 2 ^ 31 := by
  rw [withoutTop, BitVec.toNat_and]
  exact Nat.and_two_pow_sub_one_eq_mod handle.toNat 31

theorem Ukern.compares : Compares sameSerial withoutTop where
  index handle := by
    rw [indexOf, indexOf, toNat_withoutTop]
    omega
  same handle counter hcounter := by
    rw [sameSerial, beq_iff_eq, ← BitVec.toNat_inj, BitVec.toNat_setWidth, toNat_shift_serial,
      serialOf, serialOf, toNat_withoutTop]
    omega
  eq handle hsmall := by
    apply BitVec.eq_of_toNat_eq
    rw [toNat_withoutTop]
    unfold serialOf at hsmall
    omega

/-- Runs of both tables from an initialised one, until the counter wraps. -/
theorem handleTable_right_iff :
    (∀ HandleCount ≤ 0x7fff, ∀ cs : List (Call Obj),
      EachIn (State.call (fixedFunctions Obj HandleCount)) Counted (State.start Obj HandleCount)
        cs →
      (Throughout (State.call (fixedFunctions Obj HandleCount)) (State.FreeRight HandleCount)
          (Right (fixedFunctions Obj HandleCount) HandleCount) (State.start Obj HandleCount) cs ↔
        EachIn (State.call (fixedFunctions Obj HandleCount)) (Met HandleCount id)
          (State.start Obj HandleCount) cs)) ∧
    ∀ cs : List (Call Obj),
      EachIn (State.call (ukernFunctions Obj)) Counted (State.start Obj Ukern.MaxHandles) cs →
      (Throughout (State.call (ukernFunctions Obj)) (State.FreeRight Ukern.MaxHandles)
          (Right (ukernFunctions Obj) Ukern.MaxHandles) (State.start Obj Ukern.MaxHandles) cs ↔
        EachIn (State.call (ukernFunctions Obj)) (Met Ukern.MaxHandles withoutTop)
          (State.start Obj Ukern.MaxHandles) cs) := by
  constructor
  · intro HandleCount hsize cs hcounted
    exact right_iff_met hsize FixedHandleTable.compares hcounted
  · intro cs hcounted
    have hsize : Ukern.MaxHandles ≤ 0x7fff := by decide
    exact right_iff_met hsize Ukern.compares hcounted

theorem oneHandle_right :
    Throughout (State.call (fixedFunctions Unit 1)) (State.FreeRight 1)
      (Right (fixedFunctions Unit 1) 1) (State.start Unit 1)
      [.ReserveHandle (), .GetObjectByHandle 0x8000, .FreeHandle 0x8000,
        .GetObjectByHandle 0x8000] := by
  apply ((handleTable_right_iff.1 1 (by decide) _ ?_)).mpr
  · refine ⟨trivial, trivial, trivial, ?_, trivial, ⟨?_, id⟩, trivial, ?_, trivial⟩
    · intro _ _
      decide
    · intro _
      decide
    · intro _ _
      decide
  · exact ⟨trivial, Nat.zero_lt_succ _, trivial, trivial, trivial, trivial, trivial, trivial, trivial⟩

theorem forged_not_right :
    ¬Throughout (State.call (fixedFunctions Unit 1)) (State.FreeRight 1)
        (Right (fixedFunctions Unit 1) 1) (State.start Unit 1)
        [.ReserveHandle (), .GetObjectByHandle 0x8001] ∧
      ¬Throughout (State.call (ukernFunctions Unit)) (State.FreeRight Ukern.MaxHandles)
        (Right (ukernFunctions Unit) Ukern.MaxHandles) (State.start Unit Ukern.MaxHandles)
        [.ReserveHandle (), .FreeHandle 0x800080ff] := by
  constructor
  · rintro ⟨-, -, -, hget, -⟩
    cases hget
  · rintro ⟨-, -, -, hfree, -⟩
    have hdead : (State.call (ukernFunctions Unit) (State.start Unit Ukern.MaxHandles)
        (.ReserveHandle ())).live 0x800080ff = none := by decide
    rw [Right, if_pos hdead] at hfree
    have hreturned := congrArg (Option.map Prod.fst) hfree
    exact absurd hreturned (by decide)

end Awn.Handles
