import Mathlib.Logic.Function.Basic

namespace Awn

structure ServiceEvent where
  m_signal_state : BitVec 32
  m_auto_reset_mode : BitVec 32
  m_win32_event : Bool

namespace ServiceEvent

inductive ResetMode
  | Manual
  | Auto

inductive SignalState
  | Cleared
  | Signaled

def create (signal_state : SignalState) (reset_mode : ResetMode) : ServiceEvent where
  m_signal_state := match signal_state with | .Cleared => 0 | .Signaled => 1
  m_auto_reset_mode := match reset_mode with | .Manual => 0 | .Auto => 1
  m_win32_event := match signal_state with | .Cleared => false | .Signaled => true

inductive Caller
  | user
  /-- The check at the start of `Wait`. -/
  | check
  /-- The loop of a fiber in `Wait`. -/
  | loop

inductive Pc
  | idle
  /-- `Signal`: before the exchange of `0` for `1`. -/
  | signal
  /-- `Signal`: before `ukern::WakeByAddress`. -/
  | wake
  /-- `Signal`: before `SetEvent`. -/
  | setEvent
  /-- `Clear`: before the exchange of `1` for `0`. -/
  | clear (caller : Caller)
  /-- `Clear`: before `ResetEvent`. -/
  | resetEvent (caller : Caller)
  /-- `Wait`: before the first read of `m_signal_state`. -/
  | check
  /-- `Wait`, on a fiber: before `ukern::WaitOnAddress`. -/
  | park
  | parked
  /-- `Wait`, on a thread: before `WaitForSingleObject`. -/
  | waitObject
  | blocked
  /-- `Wait`, on a thread: before the exchange that ends the loop. -/
  | acquire

structure State (Thread : Type) where
  event : ServiceEvent
  pc : Thread → Pc

variable {Thread : Type}

def State.start (signal_state : SignalState) (reset_mode : ResetMode) : State Thread where
  event := create signal_state reset_mode
  pc := fun _ => .idle

def beginWait (is_fiber : Bool) : Pc := if is_fiber then .park else .waitObject

def afterClear (is_fiber : Bool) (result : Bool) : Caller → Pc
  | .user => .idle
  | .check => if result then .idle else beginWait is_fiber
  | .loop => if result then .idle else .park

def afterPark (m_auto_reset_mode : BitVec 32) : Pc :=
  if m_auto_reset_mode = 1 then .clear .loop else .idle

def afterWaitObject (m_auto_reset_mode : BitVec 32) : Pc :=
  if m_auto_reset_mode = 1 then .acquire else .idle

def State.setSignalState (s : State Thread) (value : BitVec 32) : State Thread :=
  { s with event := { s.event with m_signal_state := value } }

def State.setWin32Event (s : State Thread) (value : Bool) : State Thread :=
  { s with event := { s.event with m_win32_event := value } }

def State.wakeAll (s : State Thread) : State Thread :=
  { s with pc := fun t => match s.pc t with
      | .parked => afterPark s.event.m_auto_reset_mode
      | pc => pc }

def State.releaseAll (s : State Thread) : State Thread :=
  { s with pc := fun t => match s.pc t with
      | .blocked => afterWaitObject s.event.m_auto_reset_mode
      | pc => pc }

variable [DecidableEq Thread]

def State.goto (s : State Thread) (t : Thread) (pc : Pc) : State Thread :=
  { s with pc := Function.update s.pc t pc }

inductive Step (is_fiber : Thread → Bool) : State Thread → Thread → State Thread → Prop
  | callSignal {s} (t) : s.pc t = .idle → Step is_fiber s t (s.goto t .signal)
  | callClear {s} (t) : s.pc t = .idle → Step is_fiber s t (s.goto t (.clear .user))
  | callWait {s} (t) : s.pc t = .idle → Step is_fiber s t (s.goto t .check)
  | signal {s} (t) : s.pc t = .signal → s.event.m_signal_state = 0 →
      Step is_fiber s t ((s.setSignalState 1).goto t .wake)
  | signalMiss {s} (t) : s.pc t = .signal → s.event.m_signal_state ≠ 0 →
      Step is_fiber s t (s.goto t .idle)
  /-- The count is `-1`. -/
  | wakeManual {s} (t) : s.pc t = .wake → s.event.m_auto_reset_mode ≠ 1 →
      Step is_fiber s t (s.wakeAll.goto t .setEvent)
  | wakeAuto {s} (t u) : s.pc t = .wake → s.event.m_auto_reset_mode = 1 → s.pc u = .parked →
      Step is_fiber s t ((s.goto u (afterPark s.event.m_auto_reset_mode)).goto t .setEvent)
  | wakeNone {s} (t) : s.pc t = .wake → (∀ u, s.pc u ≠ .parked) →
      Step is_fiber s t (s.goto t .setEvent)
  | setEventManual {s} (t) : s.pc t = .setEvent → s.event.m_auto_reset_mode ≠ 1 →
      Step is_fiber s t ((s.setWin32Event true).releaseAll.goto t .idle)
  /-- The OS takes back an auto reset event with the one thread that it releases. -/
  | setEventAuto {s} (t u) : s.pc t = .setEvent → s.event.m_auto_reset_mode = 1 →
      s.pc u = .blocked →
      Step is_fiber s t (((s.setWin32Event false).goto u
        (afterWaitObject s.event.m_auto_reset_mode)).goto t .idle)
  | setEventNone {s} (t) : s.pc t = .setEvent → (∀ u, s.pc u ≠ .blocked) →
      Step is_fiber s t ((s.setWin32Event true).goto t .idle)
  | clear {s} (t) (caller) : s.pc t = .clear caller → s.event.m_signal_state = 1 →
      Step is_fiber s t ((s.setSignalState 0).goto t (.resetEvent caller))
  | clearMiss {s} (t) (caller) : s.pc t = .clear caller → s.event.m_signal_state ≠ 1 →
      Step is_fiber s t (s.goto t (afterClear (is_fiber t) false caller))
  | resetEvent {s} (t) (caller) : s.pc t = .resetEvent caller →
      Step is_fiber s t ((s.setWin32Event false).goto t (afterClear (is_fiber t) true caller))
  | check {s} (t) : s.pc t = .check → s.event.m_signal_state = 1 →
      Step is_fiber s t (s.goto t
        (if s.event.m_auto_reset_mode = 0 then .idle else .clear .check))
  | checkMiss {s} (t) : s.pc t = .check → s.event.m_signal_state ≠ 1 →
      Step is_fiber s t (s.goto t (beginWait (is_fiber t)))
  | park {s} (t) : s.pc t = .park → s.event.m_signal_state < 1 →
      Step is_fiber s t (s.goto t .parked)
  | parkMiss {s} (t) : s.pc t = .park → ¬s.event.m_signal_state < 1 →
      Step is_fiber s t (s.goto t (afterPark s.event.m_auto_reset_mode))
  | waitObject {s} (t) : s.pc t = .waitObject → s.event.m_win32_event = true →
      Step is_fiber s t ((s.setWin32Event (s.event.m_auto_reset_mode ≠ 1)).goto t
        (afterWaitObject s.event.m_auto_reset_mode))
  | waitObjectMiss {s} (t) : s.pc t = .waitObject → s.event.m_win32_event = false →
      Step is_fiber s t (s.goto t .blocked)
  | acquire {s} (t) : s.pc t = .acquire → s.event.m_signal_state = 1 →
      Step is_fiber s t ((s.setSignalState 0).goto t .idle)
  | acquireMiss {s} (t) : s.pc t = .acquire → s.event.m_signal_state ≠ 1 →
      Step is_fiber s t (s.goto t .waitObject)

inductive Run (is_fiber : Thread → Bool) (reset_mode : ResetMode)
    (allowed : State Thread → Thread → Prop) : State Thread → Prop
  | start (signal_state) : Run is_fiber reset_mode allowed (State.start signal_state reset_mode)
  | step {s s' : State Thread} {t : Thread} : Run is_fiber reset_mode allowed s → allowed s t →
      Step is_fiber s t s' → Run is_fiber reset_mode allowed s'

abbrev Reachable (is_fiber : Thread → Bool) (reset_mode : ResetMode) : State Thread → Prop :=
  Run is_fiber reset_mode fun _ _ => True

def State.Quiescent (s : State Thread) : Prop := ∀ t, s.pc t = .idle

end ServiceEvent

end Awn

namespace Awn.ServiceEvent

def Pc.Sets (pc : Pc) : Prop := pc = .wake ∨ pc = .setEvent

def Pc.Resets (pc : Pc) : Prop := ∃ caller, pc = .resetEvent caller

structure State.InOrder {Thread : Type} (s : State Thread) (t : Thread) : Prop where
  setEvent : s.pc t = .setEvent → s.event.m_signal_state = 0 → ∃ u, (s.pc u).Resets
  resetEvent : (s.pc t).Resets → s.event.m_signal_state = 1 → ∃ u, (s.pc u).Sets

structure Invariant {Thread : Type} (s : State Thread) : Prop where
  manual : s.event.m_auto_reset_mode = 0
  /-- Nobody waits for an auto reset. -/
  no_acquire : ∀ t, s.pc t ≠ .acquire
  range : s.event.m_signal_state = 0 ∨ s.event.m_signal_state = 1
  signaled : s.event.m_signal_state = 1 →
    s.event.m_win32_event = true ∨ ∃ t, (s.pc t).Sets
  cleared : s.event.m_signal_state = 0 →
    s.event.m_win32_event = false ∨ ∃ t, (s.pc t).Resets

variable {Thread : Type} {s s' : State Thread} {t : Thread} {is_fiber : Thread → Bool}

theorem Pc.not_sets {pc : Pc} (hwake : pc ≠ .wake) (hset : pc ≠ .setEvent) : ¬pc.Sets := by
  rintro (h | h)
  · exact hwake h
  · exact hset h

theorem Pc.not_resets {pc : Pc} (h : ∀ caller, pc ≠ .resetEvent caller) : ¬pc.Resets := by
  rintro ⟨caller, hcaller⟩
  exact h caller hcaller

theorem State.inOrder_of (hset : s.pc t ≠ .setEvent)
    (hreset : ∀ caller, s.pc t ≠ .resetEvent caller) :
    s.InOrder t :=
  ⟨fun ht => absurd ht hset, fun ht => absurd ht (Pc.not_resets hreset)⟩

theorem afterPark_manual {m_auto_reset_mode : BitVec 32} (h : m_auto_reset_mode = 0) :
    afterPark m_auto_reset_mode = .idle := by
  rw [h]
  rfl

theorem afterWaitObject_manual {m_auto_reset_mode : BitVec 32} (h : m_auto_reset_mode = 0) :
    afterWaitObject m_auto_reset_mode = .idle := by
  rw [h]
  rfl

theorem afterClear_ne_acquire (is_fiber result : Bool) (caller : Caller) :
    afterClear is_fiber result caller ≠ .acquire := by
  cases is_fiber <;> cases result <;> cases caller <;> simp [afterClear, beginWait]

theorem Invariant.start (signal_state : SignalState) :
    Invariant (State.start signal_state .Manual : State Thread) := by
  constructor
  · rfl
  · intro t
    simp [State.start]
  · cases signal_state with
    | Cleared => exact Or.inl rfl
    | Signaled => exact Or.inr rfl
  · intro h
    cases signal_state with
    | Cleared => simp [State.start, create] at h
    | Signaled => exact Or.inl rfl
  · intro h
    cases signal_state with
    | Cleared => exact Or.inl rfl
    | Signaled => simp [State.start, create] at h

theorem Invariant.same (h : Invariant s) (hevent : s'.event = s.event)
    (hacquire : ∀ t, s'.pc t ≠ .acquire) (hsets : ∀ t, (s.pc t).Sets → (s'.pc t).Sets)
    (hresets : ∀ t, (s.pc t).Resets → (s'.pc t).Resets) : Invariant s' := by
  constructor
  · rw [hevent]
    exact h.manual
  · exact hacquire
  · rw [hevent]
    exact h.range
  · rw [hevent]
    intro hone
    exact (h.signaled hone).imp_right fun ⟨t, ht⟩ => ⟨t, hsets t ht⟩
  · rw [hevent]
    intro hzero
    exact (h.cleared hzero).imp_right fun ⟨t, ht⟩ => ⟨t, hresets t ht⟩

theorem Invariant.wakeAll (h : Invariant s) : Invariant s.wakeAll := by
  have hpc : ∀ t, s.pc t ≠ .parked → s.wakeAll.pc t = s.pc t := by
    intro t ht
    simp only [State.wakeAll]
  have hparked : ∀ t, s.pc t = .parked → s.wakeAll.pc t = .idle := by
    intro t ht
    simp only [State.wakeAll, ht]
    exact afterPark_manual h.manual
  refine h.same rfl ?_ ?_ ?_
  · intro t
    by_cases ht : s.pc t = .parked
    · simp [hparked t ht]
    · rw [hpc t ht]
      exact h.no_acquire t
  · intro t hs
    rw [hpc t]
    · exact hs
    · rintro ht
      rw [ht] at hs
      exact Pc.not_sets (by simp) (by simp) hs
  · intro t hr
    rw [hpc t]
    · exact hr
    · rintro ht
      rw [ht] at hr
      exact Pc.not_resets (by simp) hr

variable [DecidableEq Thread]

theorem Invariant.goto {pc : Pc} (h : Invariant s) (hacquire : pc ≠ .acquire)
    (hsets : (s.pc t).Sets → pc.Sets) (hresets : (s.pc t).Resets → pc.Resets) :
    Invariant (s.goto t pc) := by
  refine h.same rfl ?_ ?_ ?_
  · intro u
    by_cases hut : u = t
    · simp [State.goto, hut, hacquire]
    · simpa [State.goto, hut] using h.no_acquire u
  · intro u hu
    by_cases hut : u = t
    · simpa [State.goto, hut] using hsets (hut ▸ hu)
    · simpa [State.goto, hut] using hu
  · intro u hu
    by_cases hut : u = t
    · simpa [State.goto, hut] using hresets (hut ▸ hu)
    · simpa [State.goto, hut] using hu

theorem Invariant.advance {pc : Pc} (h : Invariant s) (hsets : ¬(s.pc t).Sets)
    (hresets : ¬(s.pc t).Resets) (hacquire : pc ≠ .acquire) : Invariant (s.goto t pc) :=
  h.goto hacquire (fun hs => absurd hs hsets) fun hr => absurd hr hresets

theorem Invariant.signal (h : Invariant s) : Invariant ((s.setSignalState 1).goto t .wake) := by
  constructor
  · exact h.manual
  · intro u
    by_cases hut : u = t
    · simp [State.goto, hut]
    · simpa [State.goto, hut, State.setSignalState] using h.no_acquire u
  · exact Or.inr rfl
  · intro _
    exact Or.inr ⟨t, by simp [State.goto, Pc.Sets]⟩
  · intro hzero
    simp [State.goto, State.setSignalState] at hzero

theorem Invariant.clear {caller : Caller} (h : Invariant s) :
    Invariant ((s.setSignalState 0).goto t (.resetEvent caller)) := by
  constructor
  · exact h.manual
  · intro u
    by_cases hut : u = t
    · simp [State.goto, hut]
    · simpa [State.goto, hut, State.setSignalState] using h.no_acquire u
  · exact Or.inl rfl
  · intro hone
    simp [State.goto, State.setSignalState] at hone
  · intro _
    exact Or.inr ⟨t, by simp [State.goto, Pc.Resets]⟩

theorem Invariant.setEvent {pc' : Thread → Pc} (h : Invariant s) (hallowed : s.InOrder t)
    (ht : s.pc t = .setEvent) (hpc : ∀ u, s.pc u ≠ .blocked → pc' u = s.pc u)
    (hacquire : ∀ u, pc' u ≠ .acquire) :
    Invariant (({ s.setWin32Event true with pc := pc' } : State Thread).goto t .idle) := by
  constructor
  · exact h.manual
  · intro u
    by_cases hut : u = t
    · simp [State.goto, hut]
    · simpa [State.goto, hut] using hacquire u
  · exact h.range
  · intro _
    exact Or.inl rfl
  · intro hzero
    obtain ⟨u, caller, hu⟩ := hallowed.setEvent ht hzero
    refine Or.inr ⟨u, caller, ?_⟩
    have hut : u ≠ t := by
      rintro rfl
      rw [ht] at hu
      cases hu
    simp [State.goto, hut, hpc u (by simp [hu]), hu]

theorem Invariant.resetEvent {pc : Pc} (h : Invariant s) (hallowed : s.InOrder t)
    (ht : (s.pc t).Resets) (hacquire : pc ≠ .acquire) :
    Invariant ((s.setWin32Event false).goto t pc) := by
  constructor
  · exact h.manual
  · intro u
    by_cases hut : u = t
    · simp [State.goto, hut, hacquire]
    · simpa [State.goto, hut, State.setWin32Event] using h.no_acquire u
  · exact h.range
  · intro hone
    obtain ⟨u, hu⟩ := hallowed.resetEvent ht hone
    refine Or.inr ⟨u, ?_⟩
    have hut : u ≠ t := by
      rintro rfl
      obtain ⟨caller, hcaller⟩ := ht
      rw [hcaller] at hu
      exact Pc.not_sets (by simp) (by simp) hu
    simpa [State.goto, hut, State.setWin32Event] using hu
  · intro _
    exact Or.inl rfl

theorem Invariant.step (h : Invariant s) (hallowed : s.InOrder t) (hstep : Step is_fiber s t s') :
    Invariant s' := by
  have hother : ∀ {pc pc' : Pc}, s.pc t = pc → pc ≠ .wake → pc ≠ .setEvent →
      (∀ caller, pc ≠ .resetEvent caller) → pc' ≠ .acquire → Invariant (s.goto t pc') := by
    rintro pc pc' rfl hwake hset hreset hacquire
    exact h.advance (Pc.not_sets hwake hset) (Pc.not_resets hreset) hacquire
  cases hstep with
  | callSignal ht => exact hother ht (by simp) (by simp) (by simp) (by simp)
  | callClear ht => exact hother ht (by simp) (by simp) (by simp) (by simp)
  | callWait ht => exact hother ht (by simp) (by simp) (by simp) (by simp)
  | signal ht hzero => exact h.signal
  | signalMiss ht hone => exact hother ht (by simp) (by simp) (by simp) (by simp)
  | wakeManual ht hmanual =>
    apply h.wakeAll.goto (by simp)
    · intro _
      exact Or.inr rfl
    · rintro ⟨caller, hcaller⟩
      simp [State.wakeAll, ht] at hcaller
  | wakeAuto u ht hauto hu =>
    rw [h.manual] at hauto
    cases hauto
  | wakeNone ht hnone =>
    apply h.goto (by simp)
    · intro _
      exact Or.inr rfl
    · rintro ⟨caller, hcaller⟩
      rw [ht] at hcaller
      cases hcaller
  | setEventManual ht hmanual =>
    apply h.setEvent hallowed ht
    · intro u hu
      simp only [State.setWin32Event]
    · intro u
      simp only [State.setWin32Event]
      split
      · simp [afterWaitObject_manual h.manual]
      · exact h.no_acquire u
  | setEventAuto u ht hauto hu =>
    rw [h.manual] at hauto
    cases hauto
  | setEventNone ht hnone => exact h.setEvent hallowed ht (fun _ _ => rfl) h.no_acquire
  | clear caller ht hone => exact h.clear
  | clearMiss caller ht hzero =>
    exact hother ht (by simp) (by simp) (by simp) (afterClear_ne_acquire _ _ _)
  | resetEvent caller ht =>
    exact h.resetEvent hallowed ⟨caller, ht⟩ (afterClear_ne_acquire _ _ _)
  | check ht hone =>
    rw [if_pos h.manual]
    exact hother ht (by simp) (by simp) (by simp) (by simp)
  | checkMiss ht hzero =>
    apply hother ht (by simp) (by simp) (by simp)
    cases is_fiber t <;> simp [beginWait]
  | park ht hless => exact hother ht (by simp) (by simp) (by simp) (by simp)
  | parkMiss ht hless =>
    rw [afterPark_manual h.manual]
    exact hother ht (by simp) (by simp) (by simp) (by simp)
  | waitObject ht hset =>
    have hset' : decide (s.event.m_auto_reset_mode ≠ 1) = s.event.m_win32_event := by
      rw [h.manual, hset]
      rfl
    rw [hset', afterWaitObject_manual h.manual]
    exact hother ht (by simp) (by simp) (by simp) (by simp)
  | waitObjectMiss ht hset => exact hother ht (by simp) (by simp) (by simp) (by simp)
  | acquire ht hone => exact absurd ht (h.no_acquire t)
  | acquireMiss ht hzero => exact absurd ht (h.no_acquire t)

theorem Run.invariant (h : Run is_fiber .Manual State.InOrder s) : Invariant s := by
  induction h with
  | start signal_state => exact Invariant.start signal_state
  | step _ hallowed hstep ih => exact ih.step hallowed hstep

/-- While the calls on the OS event are in order, a quiescent state has the two words agree. -/
theorem quiescent_event_iff (h : Run is_fiber .Manual State.InOrder s) (hquiescent : s.Quiescent) :
    s.event.m_win32_event = true ↔ s.event.m_signal_state = 1 := by
  have hinv := h.invariant
  have hsets : ¬∃ t, (s.pc t).Sets := by
    rintro ⟨t, ht⟩
    rw [hquiescent t] at ht
    exact Pc.not_sets (by simp) (by simp) ht
  have hresets : ¬∃ t, (s.pc t).Resets := by
    rintro ⟨t, ht⟩
    rw [hquiescent t] at ht
    exact Pc.not_resets (by simp) ht
  constructor
  · intro hset
    rcases hinv.range with hzero | hone
    · have := (hinv.cleared hzero).resolve_right hresets
      rw [hset] at this
      cases this
    · exact hone
  · intro hone
    exact (hinv.signaled hone).resolve_right hsets

theorem quiescent_event_iff_signal : ∃ s : State Unit, s.event.m_signal_state = 1 ∧
    (s.event.m_win32_event = true ↔ s.event.m_signal_state = 1) := by
  have hrun : Run (fun _ => false) .Manual State.InOrder
      (((((State.start .Cleared .Manual : State Unit).goto () .signal).setSignalState 1).goto ()
        .wake).goto () .setEvent) :=
    (((Run.start .Cleared).step (State.inOrder_of (by simp [State.start]) (by simp [State.start]))
      (.callSignal () rfl)).step (State.inOrder_of (by simp [State.goto]) (by simp [State.goto]))
      (.signal () rfl rfl)).step (State.inOrder_of (by simp [State.goto]) (by simp [State.goto]))
      (.wakeNone () rfl (by simp [State.goto]))
  refine ⟨_, rfl, quiescent_event_iff (hrun.step ⟨?_, ?_⟩ (.setEventNone () rfl ?_)) ?_⟩
  · intro _ hzero
    simp [State.goto, State.setSignalState] at hzero
  · rintro ⟨caller, hcaller⟩
    simp [State.goto] at hcaller
  · simp [State.goto]
  · intro u
    simp [State.goto]

/-- A `Signal` between the two steps of a `Clear` is lost: the state is signaled, the OS event is
not set, and the next `Signal` does nothing. -/
theorem signal_lost : ¬∀ s : State Bool, Reachable (fun _ => false) .Manual s → s.Quiescent →
    (s.event.m_win32_event = true ↔ s.event.m_signal_state = 1) := by
  intro hclaim
  have hrun : Reachable (fun _ => false) .Manual
      ((((((((State.start .Signaled .Manual : State Bool).goto false (.clear .user)).setSignalState
        0).goto false (.resetEvent .user)).goto true .signal).setSignalState 1).goto true .wake).goto
        true .setEvent) :=
    (((((Run.start .Signaled).step trivial (.callClear false rfl)).step trivial
      (.clear false .user rfl rfl)).step trivial (.callSignal true rfl)).step trivial
      (.signal true rfl rfl)).step trivial
      (.wakeNone true rfl (by intro u; cases u <;> simp [State.goto, State.setSignalState]))
  have hset := hrun.step trivial (.setEventNone true rfl
    (by intro u; cases u <;> simp [State.goto, State.setSignalState]))
  have hquiescent := hclaim _ (hset.step trivial (.resetEvent false .user rfl))
    (by intro u; cases u <;> rfl)
  exact absurd (hquiescent.mpr rfl) (by simp [State.goto, State.setWin32Event])

end Awn.ServiceEvent
