import Awn.Parking.Covered
import Awn.ServiceCriticalSection.Wakeup
import Mathlib.Algebra.Group.Nat.Defs
import Mathlib.Data.Nat.Notation
import Mathlib.Logic.Function.Basic

namespace Awn.ServiceMutex

inductive Pc
  /-- Between two calls. -/
  | rest (depth : ℕ)
  /-- `Enter`, on a fiber: before it reads `m_owner`. -/
  | check (depth : ℕ)
  /-- `Enter`, on a fiber: before `ukern::WaitOnAddress`. -/
  | park (depth : ℕ)
  | parked (depth : ℕ)
  /-- `Enter`: before `EnterCriticalSection`. -/
  | acquire (depth : ℕ)
  /-- `Enter`: before it sets `m_owner` and counts. -/
  | setOwner (depth : ℕ)
  /-- `Leave`, at a count of zero: before it clears `m_owner`. -/
  | clearOwner (depth : ℕ)
  /-- `Leave`: before `ukern::WakeByAddress`. -/
  | wake (depth : ℕ)
  /-- `Leave`: before `LeaveCriticalSection`. -/
  | release (depth : ℕ)

structure State (Caller : Type) where
  m_wait_value : BitVec 32
  m_lock_count : BitVec 32
  m_owner : Option Caller
  m_win32_lock : Option (Caller × ℕ)
  pc : Caller → Pc

variable {Caller : Type}

def State.start : State Caller where
  m_wait_value := 0
  m_lock_count := 0
  m_owner := none
  m_win32_lock := none
  pc := fun _ => .rest 0

variable [DecidableEq Caller]

def State.goto (s : State Caller) (t : Caller) (pc : Pc) : State Caller :=
  { s with pc := Function.update s.pc t pc }

inductive Step (is_fiber : Caller → Bool) : State Caller → Caller → State Caller → Prop
  | enter {s} (t) (depth) : s.pc t = .rest depth →
      Step is_fiber s t (s.goto t (if is_fiber t then .check depth else .acquire depth))
  | check {s} (t) (depth) : s.pc t = .check depth →
      Step is_fiber s t (s.goto t
        (if s.m_owner = none ∨ s.m_owner = some t then .acquire depth else .park depth))
  | park {s} (t) (depth) : s.pc t = .park depth → s.m_wait_value = 0 →
      Step is_fiber s t (s.goto t (.parked depth))
  | parkMiss {s} (t) (depth) : s.pc t = .park depth → s.m_wait_value ≠ 0 →
      Step is_fiber s t (s.goto t (.check depth))
  | acquire {s} (t) (depth) : s.pc t = .acquire depth → s.m_win32_lock = none →
      Step is_fiber s t ({ s with m_win32_lock := some (t, 1) }.goto t (.setOwner depth))
  | acquireAgain {s} (t) (depth) (count) : s.pc t = .acquire depth →
      s.m_win32_lock = some (t, count) →
      Step is_fiber s t ({ s with m_win32_lock := some (t, count + 1) }.goto t (.setOwner depth))
  | setOwner {s} (t) (depth) : s.pc t = .setOwner depth →
      Step is_fiber s t
        ({ s with m_owner := some t, m_lock_count := s.m_lock_count + 1 }.goto t (.rest (depth + 1)))
  | leave {s} (t) (depth) : s.pc t = .rest (depth + 1) →
      Step is_fiber s t ({ s with m_lock_count := s.m_lock_count - 1 }.goto t
        (if s.m_lock_count - 1 = 0 then .clearOwner depth else .release depth))
  | clearOwner {s} (t) (depth) : s.pc t = .clearOwner depth →
      Step is_fiber s t ({ s with m_owner := none }.goto t (.wake depth))
  | wake {s} (t u) (depth depth') : s.pc t = .wake depth → s.pc u = .parked depth' →
      Step is_fiber s t ((s.goto u (.check depth')).goto t (.release depth))
  | wakeNone {s} (t) (depth) : s.pc t = .wake depth → (∀ u depth', s.pc u ≠ .parked depth') →
      Step is_fiber s t (s.goto t (.release depth))
  | release {s} (t) (depth) : s.pc t = .release depth → s.m_win32_lock = some (t, 1) →
      Step is_fiber s t ({ s with m_win32_lock := none }.goto t (.rest depth))
  | releaseAgain {s} (t) (depth) (count) : s.pc t = .release depth →
      s.m_win32_lock = some (t, count + 2) →
      Step is_fiber s t ({ s with m_win32_lock := some (t, count + 1) }.goto t (.rest depth))

inductive Run (is_fiber : Caller → Bool) (allowed : State Caller → Caller → Prop) :
    State Caller → Prop
  | start : Run is_fiber allowed State.start
  | step {s s' : State Caller} {t : Caller} : Run is_fiber allowed s → allowed s t →
      Step is_fiber s t s' → Run is_fiber allowed s'

def Pc.Inside : Pc → Prop
  | .rest depth | .check depth | .park depth | .parked depth | .acquire depth | .setOwner depth
  | .release depth => 0 < depth
  | .clearOwner _ | .wake _ => False

structure Contract (s : State Caller) : Prop where
  owner : ∀ t, (s.pc t).Inside → s.m_owner = some t
  exclusive : ∀ t u, (s.pc t).Inside → (s.pc u).Inside → t = u
  wakeup : s.m_win32_lock = none → (∀ t, s.pc t = .rest 0 ∨ ∃ depth, s.pc t = .parked depth) →
    ∀ t depth, s.pc t ≠ .parked depth

end Awn.ServiceMutex

namespace Awn.ServiceMutex

open Parking

namespace Pc

def Busy : Pc → Prop
  | .rest depth | .release depth => 0 < depth
  | .parked _ => False
  | _ => True

def IsParked (pc : Pc) : Prop := ∃ depth, pc = .parked depth

def held : Pc → ℕ
  | .rest depth | .check depth | .park depth | .parked depth | .acquire depth => depth
  | .setOwner depth | .clearOwner depth | .wake depth | .release depth => depth + 1

def level : Pc → ℕ
  | .rest depth | .check depth | .park depth | .parked depth | .acquire depth | .setOwner depth
  | .clearOwner depth | .wake depth | .release depth => depth

end Pc

variable {Caller : Type} {s s' : State Caller} {t : Caller} {is_fiber : Caller → Bool}

structure State.Allowed (s : State Caller) (t : Caller) : Prop where
  park : ∀ depth, s.pc t = .park depth → s.m_wait_value = 0 → ∃ u, u ≠ t ∧ (s.pc u).Busy
  count : ∀ depth, s.pc t = .setOwner depth → depth + 1 < 2 ^ 32

structure Invariant (s : State Caller) : Prop where
  lock : ∀ t n, s.m_win32_lock = some (t, n) ↔ (s.pc t).held = n ∧ 0 < n
  free : s.m_win32_lock = none → s.m_lock_count = 0
  count : ∀ t, 0 < (s.pc t).held → s.m_lock_count = BitVec.ofNat 32 (s.pc t).level
  bound : ∀ t, (s.pc t).level < 2 ^ 32
  owner : ∀ t, (s.pc t).Inside → s.m_owner = some t
  last : ∀ t depth, s.pc t = .clearOwner depth ∨ s.pc t = .wake depth → depth = 0
  covered : Covered Pc.IsParked Pc.Busy s.pc

theorem Invariant.start : Invariant (State.start : State Caller) where
  lock t n := by
    simp only [State.start, Pc.held]
    constructor
    · intro h
      cases h
    · rintro ⟨rfl, h⟩
      omega
  free _ := rfl
  count t h := by simp [State.start, Pc.held] at h
  bound t := by simp [State.start, Pc.level]
  owner t h := by simp [State.start, Pc.Inside] at h
  last t depth h := by simp [State.start] at h
  covered := Covered.of_not_parked (by simp [State.start, Pc.IsParked])

theorem Pc.Inside.held {pc : Pc} (h : pc.Inside) : 0 < pc.held := by
  cases pc with
  | clearOwner depth => exact h.elim
  | wake depth => exact h.elim
  | setOwner depth => exact Nat.succ_pos _
  | release depth => exact Nat.succ_pos _
  | _ => exact h

theorem Invariant.unique (h : Invariant s) {u : Caller} (ht : 0 < (s.pc t).held)
    (hu : 0 < (s.pc u).held) : t = u := by
  have ht' := (h.lock t _).mpr ⟨rfl, ht⟩
  rw [(h.lock u _).mpr ⟨rfl, hu⟩] at ht'
  exact (Prod.mk.inj (Option.some.inj ht')).1.symm

theorem Invariant.lock_eq (h : Invariant s) (ht : 0 < (s.pc t).held) :
    s.m_win32_lock = some (t, (s.pc t).held) :=
  (h.lock t _).mpr ⟨rfl, ht⟩

theorem Invariant.others (h : Invariant s) (ht : 0 < (s.pc t).held) {u : Caller} (hut : u ≠ t) :
    (s.pc u).held = 0 := by
  by_contra hu
  exact hut (h.unique (Nat.pos_of_ne_zero hu) ht)

variable [DecidableEq Caller]

theorem Invariant.goto {pc : Pc} (h : Invariant s) (hheld : pc.held = (s.pc t).held)
    (hlevel : pc.level = (s.pc t).level) (hinside : pc.Inside → (s.pc t).Inside)
    (hlast : ∀ depth, pc = .clearOwner depth ∨ pc = .wake depth → depth = 0)
    (hcovered : Covered Pc.IsParked Pc.Busy (Function.update s.pc t pc)) : Invariant (s.goto t pc) where
  lock u n := by
    by_cases hut : u = t
    · subst hut
      simpa [State.goto, hheld] using h.lock u n
    · simpa [State.goto, hut] using h.lock u n
  free := h.free
  count u hu := by
    by_cases hut : u = t
    · subst hut
      simp only [State.goto, Function.update_self, hheld, hlevel] at hu ⊢
      exact h.count u hu
    · simp only [State.goto, ne_eq, hut, not_false_eq_true, Function.update_of_ne] at hu ⊢
      exact h.count u hu
  bound u := by
    by_cases hut : u = t
    · subst hut
      simpa [State.goto, hlevel] using h.bound u
    · simpa [State.goto, hut] using h.bound u
  owner u hu := by
    by_cases hut : u = t
    · subst hut
      exact h.owner u (hinside (by simpa [State.goto] using hu))
    · exact h.owner u (by simpa [State.goto, hut] using hu)
  last u depth hu := by
    by_cases hut : u = t
    · exact hlast depth (by simpa [State.goto, hut] using hu)
    · exact h.last u depth (by simpa [State.goto, hut] using hu)
  covered := hcovered

theorem Invariant.hold {pc : Pc} {lock : Option (Caller × ℕ)} {count : BitVec 32}
    {owner : Option Caller} (h : Invariant s) (hlock : lock = some (t, pc.held))
    (hothers : ∀ u, u ≠ t → (s.pc u).held = 0) (hpos : 0 < pc.held) (hcount : count = BitVec.ofNat 32 pc.level)
    (hbound : pc.level < 2 ^ 32) (howner : pc.Inside → owner = some t)
    (hlast : ∀ depth, pc = .clearOwner depth ∨ pc = .wake depth → depth = 0)
    (hcovered : Covered Pc.IsParked Pc.Busy (Function.update s.pc t pc)) :
    Invariant ({ s with
      m_win32_lock := lock, m_lock_count := count, m_owner := owner }.goto t pc) where
  lock u n := by
    rw [hlock]
    by_cases hut : u = t
    · subst hut
      simp only [State.goto, Function.update_self, Option.some.injEq, Prod.mk.injEq, true_and]
      constructor
      · rintro rfl
        exact ⟨rfl, hpos⟩
      · exact fun hn => hn.1
    · have hne : t ≠ u := fun heq => hut heq.symm
      simp only [State.goto, ne_eq, hut, not_false_eq_true, Function.update_of_ne,
        Option.some.injEq, Prod.mk.injEq, hne, false_and, hothers u hut, false_iff, not_and]
      omega
  free hfree := by
    rw [hlock] at hfree
    cases hfree
  count u hu := by
    by_cases hut : u = t
    · subst hut
      simpa [State.goto] using hcount
    · simp [State.goto, hut, hothers u hut] at hu
  bound u := by
    by_cases hut : u = t
    · subst hut
      simpa [State.goto] using hbound
    · simpa [State.goto, hut] using h.bound u
  owner u hu := by
    by_cases hut : u = t
    · subst hut
      exact howner (by simpa [State.goto] using hu)
    · have hu' : (s.pc u).Inside := by simpa [State.goto, hut] using hu
      have := hu'.held
      rw [hothers u hut] at this
      omega
  last u depth hu := by
    by_cases hut : u = t
    · exact hlast depth (by simpa [State.goto, hut] using hu)
    · exact h.last u depth (by simpa [State.goto, hut] using hu)
  covered := hcovered

theorem Invariant.releaseLast (h : Invariant s) (ht : s.pc t = .release 0) :
    Invariant ({ s with m_win32_lock := none }.goto t (.rest 0)) := by
  have hheld : 0 < (s.pc t).held := by
    rw [ht]
    exact Nat.one_pos
  have hzero : ∀ u, (Function.update s.pc t (.rest 0) u).held = 0 := by
    intro u
    by_cases hut : u = t
    · rw [hut, Function.update_self]
      rfl
    · rw [Function.update_of_ne hut]
      exact h.others hheld hut
  constructor
  · intro u n
    change none = some (u, n) ↔ (Function.update s.pc t (.rest 0) u).held = n ∧ 0 < n
    rw [hzero u]
    constructor
    · intro hnone
      cases hnone
    · rintro ⟨rfl, hn⟩
      omega
  · intro _
    have hcount := h.count t hheld
    rw [ht] at hcount
    exact hcount
  · intro u hu
    change 0 < (Function.update s.pc t (.rest 0) u).held at hu
    rw [hzero u] at hu
    omega
  · intro u
    by_cases hut : u = t
    · simp [State.goto, hut, Pc.level]
    · simpa [State.goto, hut] using h.bound u
  · intro u hu
    have hu' : 0 < (Function.update s.pc t (.rest 0) u).held := Pc.Inside.held hu
    rw [hzero u] at hu'
    omega
  · intro u depth hu
    by_cases hut : u = t
    · simp [State.goto, hut] at hu
    · exact h.last u depth (by simpa [State.goto, hut] using hu)
  · exact h.covered.update (by simp [ht, Pc.Busy]) (by simp [Pc.IsParked])

theorem Invariant.leave {depth : ℕ} (h : Invariant s) (ht : s.pc t = .rest (depth + 1)) :
    Invariant ({ s with m_lock_count := s.m_lock_count - 1 }.goto t
      (if s.m_lock_count - 1 = 0 then .clearOwner depth else .release depth)) := by
  have hheld : 0 < (s.pc t).held := by
    rw [ht]
    exact Nat.succ_pos _
  have hlock : s.m_win32_lock = some (t, depth + 1) := by
    rw [h.lock_eq hheld, ht]
    rfl
  have hbound : depth + 1 < 2 ^ 32 := by
    have := h.bound t
    rw [ht] at this
    exact this
  have hcount : s.m_lock_count - 1 = BitVec.ofNat 32 depth := by
    have := h.count t hheld
    rw [ht] at this
    rw [this]
    change BitVec.ofNat 32 (depth + 1) - 1 = _
    rw [BitVec.ofNat_add]
    exact BitVec.add_sub_cancel _ _
  by_cases hzero : s.m_lock_count - 1 = 0
  · rw [if_pos hzero]
    have hdepth : depth = 0 := by
      rw [hcount] at hzero
      have := congrArg BitVec.toNat hzero
      simp only [BitVec.toNat_ofNat, BitVec.ofNat_eq_ofNat] at this
      omega
    have hpos : 0 < (Pc.clearOwner depth).held := Nat.succ_pos _
    apply h.hold hlock (fun u hut => h.others hheld hut) hpos hcount (show depth < 2 ^ 32 by omega)
      False.elim
    · intro depth' hlast
      simp only [Pc.clearOwner.injEq, reduceCtorEq, or_false] at hlast
      rw [← hlast, hdepth]
    · exact covered_update_busy trivial
  · rw [if_neg hzero]
    have hdepth : 0 < depth := by
      apply Nat.pos_of_ne_zero
      rintro rfl
      exact hzero hcount
    have hpos : 0 < (Pc.release depth).held := Nat.succ_pos _
    apply h.hold hlock (fun u hut => h.others hheld hut) hpos hcount (show depth < 2 ^ 32 by omega)
    · intro _
      exact h.owner t (by rw [ht]; exact Nat.succ_pos _)
    · simp
    · exact covered_update_busy hdepth

theorem Invariant.step (h : Invariant s) (hallowed : s.Allowed t) (hstep : Step is_fiber s t s') :
    Invariant s' := by
  cases hstep with
  | enter depth ht =>
    cases is_fiber t with
    | true =>
      exact h.goto (by rw [ht]; rfl) (by rw [ht]; rfl) (fun hin => by rw [ht]; exact hin) (by simp)
        (covered_update_busy trivial)
    | false =>
      exact h.goto (by rw [ht]; rfl) (by rw [ht]; rfl) (fun hin => by rw [ht]; exact hin) (by simp)
        (covered_update_busy trivial)
  | check depth ht =>
    by_cases howner : s.m_owner = none ∨ s.m_owner = some t
    · rw [if_pos howner]
      exact h.goto (by rw [ht]; rfl) (by rw [ht]; rfl) (fun hin => by rw [ht]; exact hin) (by simp)
        (covered_update_busy trivial)
    · rw [if_neg howner]
      exact h.goto (by rw [ht]; rfl) (by rw [ht]; rfl) (fun hin => by rw [ht]; exact hin) (by simp)
        (covered_update_busy trivial)
  | park depth ht hvalue =>
    obtain ⟨u, hut, hu⟩ := hallowed.park depth ht hvalue
    exact h.goto (by rw [ht]; rfl) (by rw [ht]; rfl) (fun hin => by rw [ht]; exact hin) (by simp)
      (covered_update_of_busy hu hut)
  | parkMiss depth ht hvalue =>
    exact h.goto (by rw [ht]; rfl) (by rw [ht]; rfl) (fun hin => by rw [ht]; exact hin) (by simp)
      (covered_update_busy trivial)
  | acquire depth ht hfree =>
    have hothers : ∀ u, (s.pc u).held = 0 := by
      intro u
      by_contra hu
      rw [h.lock_eq (Nat.pos_of_ne_zero hu)] at hfree
      cases hfree
    have hdepth := hothers t
    rw [ht] at hdepth
    obtain rfl : depth = 0 := hdepth
    exact h.hold rfl (fun u _ => hothers u) Nat.one_pos (h.free hfree) (Nat.two_pow_pos 32)
      (fun hin => absurd hin (Nat.lt_irrefl 0)) (by simp) (covered_update_busy trivial)
  | acquireAgain depth count ht hlock =>
    obtain ⟨hheld, hpos⟩ := (h.lock t count).mp hlock
    rw [ht] at hheld
    obtain rfl : depth = count := hheld
    have hheld : 0 < (s.pc t).held := by
      rw [ht]
      exact hpos
    refine h.hold rfl (fun u hut => h.others hheld hut) (Nat.succ_pos _) ?_ ?_ ?_ (by simp)
      (covered_update_busy trivial)
    · rw [h.count t hheld, ht]
      rfl
    · have := h.bound t
      rw [ht] at this
      exact this
    · intro _
      exact h.owner t (by rw [ht]; exact hpos)
  | setOwner depth ht =>
    have hheld : 0 < (s.pc t).held := by
      rw [ht]
      exact Nat.succ_pos _
    refine h.hold ?_ (fun u hut => h.others hheld hut) (Nat.succ_pos _) ?_ (hallowed.count depth ht)
      (fun _ => rfl) (by simp) (covered_update_busy (Nat.succ_pos _))
    · rw [h.lock_eq hheld, ht]
      rfl
    · rw [h.count t hheld, ht]
      exact (BitVec.ofNat_add ..).symm
  | leave depth ht => exact h.leave ht
  | clearOwner depth ht =>
    have hheld : 0 < (s.pc t).held := by
      rw [ht]
      exact Nat.succ_pos _
    refine h.hold ?_ (fun u hut => h.others hheld hut) (Nat.succ_pos _) ?_ ?_ False.elim ?_
      (covered_update_busy trivial)
    · rw [h.lock_eq hheld, ht]
      rfl
    · rw [h.count t hheld, ht]
      rfl
    · have := h.bound t
      rw [ht] at this
      exact this
    · intro depth' hlast
      simp only [reduceCtorEq, Pc.wake.injEq, false_or] at hlast
      rw [← hlast]
      exact h.last t depth (Or.inl ht)
  | wake u depth depth' ht hu =>
    have hut : u ≠ t := by
      rintro rfl
      rw [ht] at hu
      cases hu
    have hwoken : Invariant (s.goto u (.check depth')) :=
      h.goto (by rw [hu]; rfl) (by rw [hu]; rfl) (fun hin => by rw [hu]; exact hin) (by simp)
        (covered_update_busy trivial)
    have ht' : (s.goto u (.check depth')).pc t = .wake depth := by
      simpa [State.goto, hut.symm] using ht
    obtain rfl := h.last t depth (Or.inr ht)
    refine hwoken.goto (by rw [ht']; rfl) (by rw [ht']; rfl)
      (fun hin => absurd hin (Nat.lt_irrefl 0)) (by simp) ?_
    exact covered_update_of_busy (u := u) (by simp [State.goto, Pc.Busy]) hut
  | wakeNone depth ht hnone =>
    obtain rfl := h.last t depth (Or.inr ht)
    refine h.goto (by rw [ht]; rfl) (by rw [ht]; rfl) (fun hin => absurd hin (Nat.lt_irrefl 0))
      (by simp) (covered_update_of_not_parked ?_ (by simp [Pc.IsParked]))
    rintro u ⟨depth', hu⟩
    exact hnone u depth' hu
  | release depth ht hlock =>
    have hheld := ((h.lock t 1).mp hlock).1
    rw [ht] at hheld
    obtain rfl : depth = 0 := Nat.succ.inj hheld
    exact h.releaseLast ht
  | releaseAgain depth count ht hlock =>
    have hheld := ((h.lock t (count + 2)).mp hlock).1
    rw [ht] at hheld
    obtain rfl : depth = count + 1 := Nat.succ.inj hheld
    have hpos : 0 < (s.pc t).held := by
      rw [ht]
      exact Nat.succ_pos _
    refine h.hold rfl (fun u hut => h.others hpos hut) (Nat.succ_pos _) ?_ ?_ ?_ (by simp)
      (covered_update_busy (Nat.succ_pos _))
    · rw [h.count t hpos, ht]
      rfl
    · have := h.bound t
      rw [ht] at this
      exact this
    · intro _
      exact h.owner t (by rw [ht]; exact Nat.succ_pos _)

theorem Run.invariant (h : Run is_fiber State.Allowed s) : Invariant s := by
  induction h with
  | start => exact Invariant.start
  | step _ hallowed hstep ih => exact ih.step hallowed hstep

omit [DecidableEq Caller] in
theorem Invariant.contract (h : Invariant s) : Contract s where
  owner := h.owner
  exclusive t u ht hu := h.unique ht.held hu.held
  wakeup _ hquiet t depth ht := by
    obtain ⟨u, hu⟩ := h.covered ⟨t, depth, ht⟩
    rcases hquiet u with hrest | ⟨depth', hparked⟩
    · rw [hrest] at hu
      exact absurd hu (Nat.lt_irrefl 0)
    · rw [hparked] at hu
      exact hu

end Awn.ServiceMutex

namespace Awn.ServiceMutex

/-- Both locks name the one caller inside, and lose no wake while every fiber that parks has the
wake of another caller ahead. -/
theorem locks_keep_contract {Caller : Type} [DecidableEq Caller] {is_fiber : Caller → Bool}
    {s : ServiceCriticalSection.State Caller} {s' : State Caller}
    (h : ServiceCriticalSection.Run is_fiber ServiceCriticalSection.State.Allowed s)
    (h' : Run is_fiber State.Allowed s') : ServiceCriticalSection.Contract s ∧ Contract s' :=
  ⟨h.invariant.contract, h'.invariant.contract⟩

theorem locks_keep_contract_parked : ∃ (s : ServiceCriticalSection.State Bool) (s' : State Bool),
    s.pc true = .parked ∧ s'.pc true = .parked 0 ∧ ServiceCriticalSection.Contract s ∧
      Contract s' := by
  have hsection : ServiceCriticalSection.Run id ServiceCriticalSection.State.Allowed
      ((((({ ({ (ServiceCriticalSection.State.start : ServiceCriticalSection.State Bool).goto false
        .acquire with m_win32_lock := some false }.goto false .setOwner) with
          m_owner := some false }.goto false .inside).goto true .check).goto true .park).goto true
            .parked)) :=
    ((((((ServiceCriticalSection.Run.start.step (fun ht => by cases ht) (.enter false rfl)).step
      (fun ht => by cases ht) (.acquire false rfl rfl)).step (fun ht => by cases ht)
      (.setOwner false rfl)).step (fun ht => by cases ht) (.enter true rfl)).step
      (fun ht => by cases ht) (.check true rfl)).step (fun _ _ => ⟨false, by decide, trivial⟩)
      (.park true rfl rfl))
  have hmutex : Run id State.Allowed
      ((((({ ({ (State.start : State Bool).goto false (.acquire 0) with
        m_win32_lock := some (false, 1) }.goto false (.setOwner 0)) with
          m_owner := some false, m_lock_count := 1 }.goto false (.rest 1)).goto true
            (.check 0)).goto true (.park 0)).goto true (.parked 0))) := by
    have hnone : ∀ {s : State Bool} {t : Bool}, (∀ depth, s.pc t ≠ .park depth) →
        (∀ depth, s.pc t = .setOwner depth → depth + 1 < 2 ^ 32) → s.Allowed t :=
      fun hpark hcount => ⟨fun depth ht => absurd ht (hpark depth), hcount⟩
    refine ((((((Run.start.step (hnone ?_ ?_) (.enter false 0 rfl)).step (hnone ?_ ?_)
      (.acquire false 0 rfl rfl)).step (hnone ?_ ?_) (.setOwner false 0 rfl)).step (hnone ?_ ?_)
      (.enter true 0 rfl)).step (hnone ?_ ?_) (.check true 0 rfl)).step ⟨?_, ?_⟩
      (.park true 0 rfl rfl))
    all_goals
      intro depth ht
      cases ht
    · decide
    · exact fun _ => ⟨false, by decide, Nat.one_pos⟩
  exact ⟨_, _, rfl, rfl, locks_keep_contract hsection hmutex⟩

/-- The fiber `true` has read the owner when the thread `false` leaves, finds nobody to wake and
releases the lock; then the fiber parks for ever. -/
theorem wakeup_lost : ¬∀ (is_fiber : Bool → Bool) (s : ServiceCriticalSection.State Bool)
    (s' : State Bool), ServiceCriticalSection.Run is_fiber (fun _ _ => True) s →
      Run is_fiber (fun _ _ => True) s' → ServiceCriticalSection.Contract s ∧ Contract s' := by
  intro hclaim
  have hpark : ServiceCriticalSection.Run id (fun _ _ => True) _ :=
    (((((ServiceCriticalSection.Run.start.step trivial (.enter false rfl)).step trivial
      (.acquire false rfl rfl)).step trivial (.setOwner false rfl)).step trivial
      (.enter true rfl)).step trivial (.check true rfl))
  have hleft := (hpark.step trivial (.leave false rfl)).step trivial
    (.wakeNone false rfl (by rintro (_ | _) hu <;> cases hu))
  have hparked := (hleft.step trivial (.release false rfl)).step trivial (.park true rfl rfl)
  apply (hclaim id _ State.start hparked .start).1.wakeup rfl _ true rfl
  intro t
  cases t with
  | false => exact Or.inl rfl
  | true => exact Or.inr rfl

end Awn.ServiceMutex
