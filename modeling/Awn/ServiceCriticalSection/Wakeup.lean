import Awn.Parking.Covered
import Mathlib.Logic.Function.Basic

namespace Awn.ServiceCriticalSection

inductive Pc
  | outside
  /-- `Enter`, on a fiber: before it reads `m_owner`. -/
  | check
  /-- `Enter`, on a fiber: before `ukern::WaitOnAddress`. -/
  | park
  | parked
  /-- `Enter`: before `AcquireSRWLockExclusive`. -/
  | acquire
  /-- `Enter`: before it sets `m_owner`. -/
  | setOwner
  /-- `Enter` has returned; `Leave` clears `m_owner` first. -/
  | inside
  /-- `Leave`: before `ukern::WakeByAddress`. -/
  | wake
  /-- `Leave`: before `ReleaseSRWLockExclusive`. -/
  | release

structure State (Caller : Type) where
  m_wait_value : BitVec 32
  m_owner : Option Caller
  m_win32_lock : Option Caller
  pc : Caller → Pc

variable {Caller : Type}

def State.start : State Caller where
  m_wait_value := 0
  m_owner := none
  m_win32_lock := none
  pc := fun _ => .outside

variable [DecidableEq Caller]

def State.goto (s : State Caller) (t : Caller) (pc : Pc) : State Caller :=
  { s with pc := Function.update s.pc t pc }

inductive Step (is_fiber : Caller → Bool) : State Caller → Caller → State Caller → Prop
  | enter {s} (t) : s.pc t = .outside →
      Step is_fiber s t (s.goto t (if is_fiber t then .check else .acquire))
  | check {s} (t) : s.pc t = .check →
      Step is_fiber s t (s.goto t (if s.m_owner = none then .acquire else .park))
  | park {s} (t) : s.pc t = .park → s.m_wait_value = 0 → Step is_fiber s t (s.goto t .parked)
  | parkMiss {s} (t) : s.pc t = .park → s.m_wait_value ≠ 0 → Step is_fiber s t (s.goto t .check)
  | acquire {s} (t) : s.pc t = .acquire → s.m_win32_lock = none →
      Step is_fiber s t ({ s with m_win32_lock := some t }.goto t .setOwner)
  | setOwner {s} (t) : s.pc t = .setOwner →
      Step is_fiber s t ({ s with m_owner := some t }.goto t .inside)
  | leave {s} (t) : s.pc t = .inside →
      Step is_fiber s t ({ s with m_owner := none }.goto t .wake)
  | wake {s} (t u) : s.pc t = .wake → s.pc u = .parked →
      Step is_fiber s t ((s.goto u .check).goto t .release)
  | wakeNone {s} (t) : s.pc t = .wake → (∀ u, s.pc u ≠ .parked) →
      Step is_fiber s t (s.goto t .release)
  | release {s} (t) : s.pc t = .release →
      Step is_fiber s t ({ s with m_win32_lock := none }.goto t .outside)

inductive Run (is_fiber : Caller → Bool) (allowed : State Caller → Caller → Prop) :
    State Caller → Prop
  | start : Run is_fiber allowed State.start
  | step {s s' : State Caller} {t : Caller} : Run is_fiber allowed s → allowed s t →
      Step is_fiber s t s' → Run is_fiber allowed s'

structure Contract (s : State Caller) : Prop where
  owner : ∀ t, s.pc t = .inside → s.m_owner = some t
  exclusive : ∀ t u, s.pc t = .inside → s.pc u = .inside → t = u
  wakeup : s.m_win32_lock = none → (∀ t, s.pc t = .outside ∨ s.pc t = .parked) →
    ∀ t, s.pc t ≠ .parked

end Awn.ServiceCriticalSection

namespace Awn.ServiceCriticalSection

open Parking

def Pc.Busy : Pc → Prop
  | .outside | .parked | .release => False
  | _ => True

def Pc.Holding : Pc → Prop
  | .setOwner | .inside | .wake | .release => True
  | _ => False

variable {Caller : Type} {s s' : State Caller} {t : Caller} {is_fiber : Caller → Bool}

def State.Allowed (s : State Caller) (t : Caller) : Prop :=
  s.pc t = .park → s.m_wait_value = 0 → ∃ u, u ≠ t ∧ (s.pc u).Busy

structure Invariant (s : State Caller) : Prop where
  lock : ∀ t, s.m_win32_lock = some t ↔ (s.pc t).Holding
  owner : ∀ t, s.pc t = .inside → s.m_owner = some t
  covered : Covered (· = .parked) Pc.Busy s.pc

theorem Invariant.start : Invariant (State.start : State Caller) where
  lock t := by simp [State.start, Pc.Holding]
  owner t h := by simp [State.start] at h
  covered := Covered.of_not_parked (by simp [State.start])

theorem Invariant.unique (h : Invariant s) {u : Caller} (ht : (s.pc t).Holding)
    (hu : (s.pc u).Holding) : t = u := by
  rw [← h.lock] at ht hu
  exact Option.some.inj (ht.symm.trans hu)

variable [DecidableEq Caller]

theorem Invariant.goto {pc : Pc} (h : Invariant s) (hholding : pc.Holding ↔ (s.pc t).Holding)
    (hinside : pc ≠ .inside) (hcovered : Covered (· = .parked) Pc.Busy (Function.update s.pc t pc)) :
    Invariant (s.goto t pc) where
  lock u := by
    by_cases hut : u = t
    · subst hut
      simpa [State.goto, hholding] using h.lock u
    · simpa [State.goto, hut] using h.lock u
  owner u hu := by
    by_cases hut : u = t
    · simp [State.goto, hut, hinside] at hu
    · exact h.owner u (by simpa [State.goto, hut] using hu)
  covered := hcovered

theorem Invariant.acquire (h : Invariant s) (hfree : s.m_win32_lock = none) :
    Invariant ({ s with m_win32_lock := some t }.goto t .setOwner) where
  lock u := by
    by_cases hut : u = t
    · simp [State.goto, hut, Pc.Holding]
    · have hu := h.lock u
      have hne : t ≠ u := fun heq => hut heq.symm
      rw [hfree] at hu
      simpa [State.goto, hut, hne] using hu
  owner u hu := by
    by_cases hut : u = t
    · simp [State.goto, hut] at hu
    · exact h.owner u (by simpa [State.goto, hut] using hu)
  covered := covered_update_busy trivial

theorem Invariant.setOwner (h : Invariant s) (ht : s.pc t = .setOwner) :
    Invariant ({ s with m_owner := some t }.goto t .inside) where
  lock u := by
    by_cases hut : u = t
    · subst hut
      simpa [State.goto, Pc.Holding, ht] using h.lock u
    · simpa [State.goto, hut] using h.lock u
  owner u hu := by
    by_cases hut : u = t
    · rw [hut]
      rfl
    · have hu' : s.pc u = .inside := by simpa [State.goto, hut] using hu
      exact absurd (h.unique (by rw [hu']; trivial) (by rw [ht]; trivial)) hut
  covered := covered_update_busy trivial

theorem Invariant.leave (h : Invariant s) (ht : s.pc t = .inside) :
    Invariant ({ s with m_owner := none }.goto t .wake) where
  lock u := by
    by_cases hut : u = t
    · subst hut
      simpa [State.goto, Pc.Holding, ht] using h.lock u
    · simpa [State.goto, hut] using h.lock u
  owner u hu := by
    by_cases hut : u = t
    · simp [State.goto, hut] at hu
    · have hu' : s.pc u = .inside := by simpa [State.goto, hut] using hu
      exact absurd (h.unique (by rw [hu']; trivial) (by rw [ht]; trivial)) hut
  covered := covered_update_busy trivial

theorem Invariant.release (h : Invariant s) (ht : s.pc t = .release) :
    Invariant ({ s with m_win32_lock := none }.goto t .outside) where
  lock u := by
    by_cases hut : u = t
    · simp [State.goto, hut, Pc.Holding]
    · have hu : ¬(s.pc u).Holding := fun hu => hut (h.unique hu (by rw [ht]; trivial))
      simpa [State.goto, hut] using hu
  owner u hu := by
    by_cases hut : u = t
    · simp [State.goto, hut] at hu
    · exact h.owner u (by simpa [State.goto, hut] using hu)
  covered := h.covered.update (by simp [ht, Pc.Busy]) (by simp)

theorem Invariant.step (h : Invariant s) (hallowed : s.Allowed t) (hstep : Step is_fiber s t s') :
    Invariant s' := by
  cases hstep with
  | enter ht =>
    cases is_fiber t with
    | true => exact h.goto (by simp [ht, Pc.Holding]) (by simp) (covered_update_busy trivial)
    | false => exact h.goto (by simp [ht, Pc.Holding]) (by simp) (covered_update_busy trivial)
  | check ht =>
    by_cases howner : s.m_owner = none
    · rw [if_pos howner]
      exact h.goto (by simp [ht, Pc.Holding]) (by simp) (covered_update_busy trivial)
    · rw [if_neg howner]
      exact h.goto (by simp [ht, Pc.Holding]) (by simp) (covered_update_busy trivial)
  | park ht hvalue =>
    obtain ⟨u, hut, hu⟩ := hallowed ht hvalue
    exact h.goto (by simp [ht, Pc.Holding]) (by simp) (covered_update_of_busy hu hut)
  | parkMiss ht hvalue =>
    exact h.goto (by simp [ht, Pc.Holding]) (by simp) (covered_update_busy trivial)
  | acquire ht hfree => exact h.acquire hfree
  | setOwner ht => exact h.setOwner ht
  | leave ht => exact h.leave ht
  | wake u ht hu =>
    have hut : u ≠ t := by
      rintro rfl
      rw [ht] at hu
      cases hu
    have hwoken : Invariant (s.goto u .check) :=
      h.goto (by simp [hu, Pc.Holding]) (by simp) (covered_update_busy trivial)
    have ht' : (s.goto u .check).pc t = .wake := by simpa [State.goto, hut.symm] using ht
    refine hwoken.goto (by simp [ht', Pc.Holding]) (by simp) ?_
    exact covered_update_of_busy (u := u) (by simp [State.goto, Pc.Busy]) hut
  | wakeNone ht hnone =>
    exact h.goto (by simp [ht, Pc.Holding]) (by simp)
      (covered_update_of_not_parked hnone (by simp))
  | release ht => exact h.release ht

theorem Run.invariant (h : Run is_fiber State.Allowed s) : Invariant s := by
  induction h with
  | start => exact Invariant.start
  | step _ hallowed hstep ih => exact ih.step hallowed hstep

omit [DecidableEq Caller] in
theorem Invariant.contract (h : Invariant s) : Contract s where
  owner := h.owner
  exclusive t u ht hu := h.unique (by rw [ht]; trivial) (by rw [hu]; trivial)
  wakeup _ hquiet t ht := by
    obtain ⟨u, hu⟩ := h.covered ⟨t, ht⟩
    rcases hquiet u with houtside | hparked
    · rw [houtside] at hu
      exact hu
    · rw [hparked] at hu
      exact hu

end Awn.ServiceCriticalSection
