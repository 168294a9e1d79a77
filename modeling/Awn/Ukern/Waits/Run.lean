import Mathlib.Algebra.GroupWithZero.Nat
import Awn.Ukern.Waits.Signal
import Awn.Ukern.Waits.Timeout
import Awn.Ukern.Waits.Wake

/-! What the invariant of the waits says about signals, wakes and timeout passes in every run. -/

namespace Awn.Ukern.Waits

variable {F A : Type*} [DecidableEq F] [DecidableEq A] {T : FiberTable F}
variable {s s' : State F A} {c : WaitList F → List F}

namespace Invariant

omit [DecidableEq F] in
theorem store (h : Invariant T s c) (a : A) (value : BitVec 32) :
    Invariant T { s with scheduler := s.scheduler.setWord a value } c :=
  h.congr_fiber rfl rfl fun _ _ => rfl

theorem adjust (h : Invariant T s c) {f : F} {x : FiberLocalStorage A}
    (hx : Adjusts (s.scheduler.fiber f) x) :
    Invariant T { s with scheduler := s.scheduler.modify f fun _ => x } c := by
  refine h.congr rfl rfl ?_
  intro g hg
  by_cases hgf : g = f
  · subst hgf
    rw [UserScheduler.modify_self]
    unfold Adjusts at hx
    rw [if_pos hg] at hx
    exact hx
  · rw [UserScheduler.modify_of_ne _ _ hgf]

theorem signalKey_zero (h : Invariant T s c) {cv_key : A} {fuel : ℕ}
    {r : Except Result (UserScheduler F A)}
    (hr : s.scheduler.signalKeyImpl T fuel (some cv_key) 0 = some r) :
    Invariant T (s.afterWake cv_key 0 r) c := by
  obtain rfl := Option.some.inj hr
  refine h.congr_fiber rfl ?_ fun _ _ => rfl
  exact Function.update_eq_self cv_key s.waiters

theorem wakeByAddressIncrementEqual_step (h : Invariant T s c) {a : A} {value count : BitVec 32}
    (hmet : Met T s (.wakeByAddressIncrementEqual a value count)) {fuel : ℕ}
    {r : Except Result (UserScheduler F A)}
    (hr : s.scheduler.wakeByAddressIncrementEqualImpl fuel (some a) value count = some r) :
    ∃ c', Invariant T (s.afterWake a count r) c' := by
  by_cases hvalue : s.scheduler.word a = value
  · obtain ⟨hfresh, -, hwaiters⟩ := hmet hvalue
    obtain ⟨r', hreturns, hinv, -⟩ := h.wakeByAddressIncrementEqual hvalue hfresh hwaiters
    rw [hreturns.only _ _ hr]
    exact hinv
  · unfold UserScheduler.wakeByAddressIncrementEqualImpl at hr
    dsimp only at hr
    rw [if_pos hvalue] at hr
    obtain rfl := Option.some.inj hr
    exact ⟨c, h⟩

theorem wakeByAddressModifyLessThan_step (h : Invariant T s c) {a : A} {value count : BitVec 32}
    (hmet : Met T s (.wakeByAddressModifyLessThan a value count)) {fuel : ℕ}
    {r : Except Result (UserScheduler F A)}
    (hr : s.scheduler.wakeByAddressModifyLessThanImpl fuel (some a) value count = some r) :
    ∃ c', Invariant T (s.afterWake a count r) c' := by
  by_cases hvalue : s.scheduler.word a = value
  · obtain ⟨-, hwaiters, hcount⟩ := hmet hvalue
    obtain ⟨r', hreturns, hinv, -⟩ := h.wakeByAddressModifyLessThan hvalue hwaiters hcount
    rw [hreturns.only _ _ hr]
    exact hinv
  · unfold UserScheduler.wakeByAddressModifyLessThanImpl at hr
    dsimp only at hr
    rw [if_pos hvalue] at hr
    obtain rfl := Option.some.inj hr
    exact ⟨c, h⟩

theorem timeoutPass (h : Invariant T s c) {core_number : ℕ} {tick : BitVec 64}
    (hmet : Met T s (.timeoutPass core_number tick)) :
    ∃ scheduler, Returns (s.scheduler.timeoutPass T core_number tick ·
        (s.scheduler.links.next (.inl .scheduler))) scheduler ∧
      Passed T s c core_number tick (c .scheduler) scheduler := by
  have hlisted : ∀ f, f ∈ c .scheduler → s.scheduler.InWaitList f := fun f hf =>
    (UserScheduler.inWaitList_iff h.lists.represents).mpr hf
  have hcancel : ∀ f ∈ c .scheduler, s.scheduler.TimesOut f core_number tick →
      CancellableIn s core_number tick (c .scheduler) f := by
    intro f hf hlate
    apply (hmet f (hlisted f hf) hlate).imp id
    rintro ⟨ha, hkey⟩
    refine ⟨ha, fun hobject l hl => ?_⟩
    obtain ⟨hfree, honly⟩ := hkey hobject l hl
    exact ⟨hfree, fun g hg => honly g (hlisted g hg)⟩
  obtain ⟨scheduler, hpassed, hcases⟩ := timeoutPass_cases (c .scheduler) [] s c h rfl hcancel
  refine ⟨scheduler, ?_, hpassed⟩
  rw [h.lists.represents.next_head]
  exact @returns_of_cases _ _ _ ((c .scheduler).length + 1) fun fuel =>
    (hcases fuel).imp id fun hnone => ⟨Nat.lt_succ_of_le hnone.1, hnone.2⟩

theorem step (h : Invariant T s c) {e : Event F A} (hmet : Met T s e) (hstep : Step T s e s') :
    ∃ c', Invariant T s' c' := by
  cases hstep with
  | sleep hf => exact h.sleep hf _
  | waitKey hf hne hr => exact h.waitKey hf hne hmet hr
  | @signalKey cv_key signal_count _ _ hr =>
    by_cases hzero : signal_count = 0
    · subst hzero
      exact ⟨c, h.signalKey_zero hr⟩
    · obtain ⟨hfresh, hkind, hsignal⟩ := hmet hzero
      obtain ⟨r', hreturns, hinv, -⟩ := h.signalKey hzero hfresh hkind hsignal
      rw [hreturns.only _ _ hr]
      exact hinv
  | arbitrateLock hf => exact h.arbitrateLock hf hmet
  | arbitrateUnlock hf hr => exact h.arbitrateUnlock hf hr
  | waitForAddressIfEqual hf hr => exact h.waitForAddressIfEqual hf hmet.1 hmet.2 hr
  | waitForAddressIfLessThan hf hr => exact h.waitForAddressIfLessThan hf hmet.1 hmet.2 hr
  | wakeByAddress hr =>
    obtain ⟨r', hreturns, hinv, -⟩ := h.wakeByAddress fun hzero =>
      ⟨(hmet hzero).1, (hmet hzero).2.2⟩
    rw [hreturns.only _ _ hr]
    exact hinv
  | wakeByAddressIncrementEqual hr => exact h.wakeByAddressIncrementEqual_step hmet hr
  | wakeByAddressModifyLessThan hr => exact h.wakeByAddressModifyLessThan_step hmet hr
  | timeoutPass hr =>
    obtain ⟨scheduler, hreturns, hpassed⟩ := h.timeoutPass hmet
    rw [hreturns.only _ _ hr]
    obtain ⟨c', hinv, -⟩ := hpassed.invariant
    exact ⟨c', hinv⟩
  | store => exact ⟨c, h.store _ _⟩
  | adjust hx => exact ⟨c, h.adjust hx⟩

end Invariant

theorem reachable_invariant (h : Reachable T (Met T) s) : ∃ c, Invariant T s c := by
  induction h with
  | start hstart => exact ⟨_, Invariant.start hstart⟩
  | step _ hmet hstep ih =>
    obtain ⟨c, hinv⟩ := ih
    exact hinv.step hmet hstep

section Examples

def pair : FiberTable (Fin 2) := FiberTable.ofFirst 1 FiberTable.one_lt_reserved

def idle : State (Fin 2) Bool where
  scheduler :=
    { fiber := fun _ =>
        { core_mask := 1, activity_level := .Schedulable, wait_tag := 0, lock_address := none,
          wait_address := none, waitable_object := none, timeout := 0, last_result := .Success,
          fiber_state := .Running }
      links := Links.alone
      word := fun _ => 0
      ended := [] }
  waiters := fun _ => []

def lockAndWait (s : State (Fin 2) Bool) (f : Fin 2) (list : WaitList (Fin 2)) :
    State (Fin 2) Bool :=
  let scheduler := s.scheduler.setWord false (pair.handle f)
  ⟨(((scheduler.setWord false 0).setWord true 1).modify f
      (UserScheduler.waitForKey · false true (pair.handle f) 5)).pushBack list f,
    Function.update s.waiters true (s.waiters true ++ [f])⟩

local instance two_fibers_ne : NeZero 2 := ⟨by decide⟩

def keyWaiters : State (Fin 2) Bool := lockAndWait (lockAndWait idle 0 .scheduler) 1 (.of 0)

theorem keyWaiters_reachable {P : State (Fin 2) Bool → Event (Fin 2) Bool → Prop}
    (hstore : ∀ s a value, P s (.store a value))
    (hfirst : ∀ s, (∀ f, (s.scheduler.fiber f).wait_address = none) → P s (.waitKey 0 false true 5))
    (hnext : ∀ s, s.waiters true ≠ [] → P s (.waitKey 1 false true 5)) :
    Reachable pair P keyWaiters := by
  have hstart : Reachable pair P idle := Reachable.start ⟨rfl, fun _ => rfl⟩
  have hlock := Reachable.step hstart (hstore _ _ _)
    (Step.store : Step pair _ (.store false (pair.handle 0)) _)
  have hcall : (idle.scheduler.setWord false (pair.handle 0)).waitKeyImpl pair 1 0 (some false)
      (some true) (pair.handle 0) 5 =
        some (.ok (.Success, (lockAndWait idle 0 .scheduler).scheduler)) := rfl
  have hwait := Reachable.step hlock (hfirst _ fun _ => rfl)
    (Step.waitKey (by decide) (by decide) hcall)
  change Reachable pair P (lockAndWait idle 0 .scheduler) at hwait
  have hlock' := Reachable.step hwait (hstore _ _ _)
    (Step.store : Step pair _ (.store false (pair.handle 1)) _)
  have hcall' : ((lockAndWait idle 0 .scheduler).scheduler.setWord false
      (pair.handle 1)).waitKeyImpl pair 2 1 (some false) (some true) (pair.handle 1) 5 =
        some (.ok (.Success, keyWaiters.scheduler)) := rfl
  have hboth := Reachable.step hlock' (hnext _ (List.cons_ne_nil _ _))
    (Step.waitKey (by decide) (by decide) hcall')
  exact hboth

def waitOnAddress (s : State (Fin 2) Bool) (f : Fin 2) (list : WaitList (Fin 2))
    (absolute_timeout : BitVec 64) : State (Fin 2) Bool :=
  ⟨(s.scheduler.modify f (UserScheduler.waitForAddress · true absolute_timeout)).pushBack list f,
    Function.update s.waiters true (s.waiters true ++ [f])⟩

def addressWaiter : State (Fin 2) Bool := waitOnAddress idle 0 .scheduler 9

def addressWaiters : State (Fin 2) Bool := waitOnAddress addressWaiter 1 (.of 0) 5

theorem addressWaiter_reachable {P : State (Fin 2) Bool → Event (Fin 2) Bool → Prop}
    (hwait : P idle (.waitForAddressIfEqual 0 true 0 9)) : Reachable pair P addressWaiter := by
  have hstart : Reachable pair P idle := Reachable.start ⟨rfl, fun _ => rfl⟩
  have hcall : idle.scheduler.waitForAddressIfEqualImpl 1 0 (some true) 0 9 =
      some (.ok (.Success, addressWaiter.scheduler)) := rfl
  exact Reachable.step hstart hwait (Step.waitForAddressIfEqual (by decide) hcall)

theorem addressWaiters_reachable {P : State (Fin 2) Bool → Event (Fin 2) Bool → Prop}
    (hfirst : P idle (.waitForAddressIfEqual 0 true 0 9))
    (hnext : P addressWaiter (.waitForAddressIfEqual 1 true 0 5)) :
    Reachable pair P addressWaiters := by
  have hcall : addressWaiter.scheduler.waitForAddressIfEqualImpl 2 1 (some true) 0 5 =
      some (.ok (.Success, addressWaiters.scheduler)) := rfl
  exact Reachable.step (addressWaiter_reachable hfirst) hnext
    (Step.waitForAddressIfEqual (by decide) hcall)

theorem idle_met : Met pair idle (.waitForAddressIfEqual 0 true 0 9) :=
  ⟨fun _ _ _ h => (by cases h), fun _ => ⟨rfl, rfl⟩⟩

theorem addressWaiter_met : Met pair addressWaiter (.waitForAddressIfEqual 1 true 0 5) :=
  ⟨fun h => absurd h (List.cons_ne_nil _ _), fun h => absurd h (List.cons_ne_nil _ _)⟩

end Examples

def Wakes (s : State F A) (wait_address : A) (count : BitVec 32)
    (call : ℕ → Option (Except Result (UserScheduler F A))) : Prop :=
  ∃ r, Returns call r ∧ Releases s (s.afterWake wait_address count r) wait_address count

def Signals (T : FiberTable F) (s : State F A) (cv_key : A) (signal_count : BitVec 32) : Prop :=
  ∃ r, Returns (s.scheduler.signalKeyImpl T · (some cv_key) signal_count) r ∧
    Delivers T s (s.afterWake cv_key signal_count r) cv_key signal_count

def AllRegistered (s : State F A) : Prop :=
  ∃ c, s.scheduler.links.Represents c ∧ ∀ a, Registered s c a

omit [DecidableEq F] in
theorem Invariant.allRegistered (h : Invariant T s c) : AllRegistered s :=
  ⟨c, h.lists.represents, h.registered⟩

/-- In every run whose signals find a place for all waiters on their key, nobody on a key is lost
and every such signal delivers. -/
theorem reachable_signals (T : FiberTable F) (s : State F A) (h : Reachable T (Met T) s) :
    AllRegistered s ∧ ∀ cv_key signal_count, signal_count ≠ 0 →
      Met T s (.signalKey cv_key signal_count) → Signals T s cv_key signal_count := by
  obtain ⟨c, hinv⟩ := reachable_invariant h
  refine ⟨hinv.allRegistered, ?_⟩
  intro cv_key signal_count hzero hmet
  obtain ⟨hfresh, hkind, hsignal⟩ := hmet hzero
  obtain ⟨r, hreturns, -, hdelivers⟩ := hinv.signalKey hzero hfresh hkind hsignal
  exact ⟨r, hreturns, hdelivers⟩

theorem reachable_signals_keyWaiters :
    AllRegistered keyWaiters ∧ Signals pair keyWaiters true 2 := by
  have hreach : Reachable pair (Met pair) keyWaiters := by
    apply keyWaiters_reachable
    · exact fun _ _ _ => trivial
    · intro s hnone _ f _ haddress
      rw [hnone f] at haddress
      cases haddress
    · exact fun s hwaiters hnone => absurd hnone hwaiters
  have hlock : ∀ f lock_address, (keyWaiters.scheduler.fiber f).lock_address = some lock_address →
      lock_address = false := by decide
  obtain ⟨hall, hsignals⟩ := reachable_signals pair keyWaiters hreach
  refine ⟨hall, hsignals true 2 (by decide) fun _ => ⟨?_, ?_, ?_⟩⟩
  · exact fun h => absurd h (List.cons_ne_nil _ _)
  · intro f _
    revert f
    decide
  · refine Or.inr (Or.inr ⟨0, 1, rfl, by decide, ?_, ?_⟩)
    · intro l hl
      rw [hlock 0 l hl]
      exact Or.inl rfl
    · intro l hl
      rw [hlock 1 l hl]
      exact ⟨0, Or.inl ⟨rfl, rfl, rfl⟩, by decide, Or.inl rfl⟩

def KeyCall : Event F A → Prop
  | .waitKey .. | .signalKey .. | .store .. => True
  | _ => False

/-- Two fibers wait on a key. A signal for one takes the first and forgets the second, which no
later signal finds. -/
theorem signal_loses_waiter : ¬∀ s : State (Fin 2) Bool,
    Reachable pair (fun _ e => KeyCall e) s → ∀ cv_key signal_count, signal_count ≠ 0 → Signals pair s cv_key signal_count := by
  intro h
  have hreach : Reachable pair (fun _ e => KeyCall e) keyWaiters :=
    keyWaiters_reachable (fun _ _ _ => trivial) (fun _ _ => trivial) fun _ _ => trivial
  obtain ⟨r, hreturns, hwaiters, c, hrep, hregistered, -⟩ := h _ hreach true 1 (by decide)
  have hcall : keyWaiters.scheduler.signalKeyImpl pair 2 (some true) 1 = some _ := rfl
  rw [← hreturns.only _ _ hcall] at hwaiters hrep hregistered
  obtain ⟨hfind, -⟩ := hregistered 1 [] rfl
  have hhead := hrep.next_head .scheduler
  have hmem := List.mem_of_find?_eq_some hfind
  cases hc : c .scheduler with
  | nil =>
    rw [hc] at hmem
    cases hmem
  | cons p rest =>
    rw [hc] at hhead
    cases hhead

/-- In every run whose wakes are asked for all waiters on their address, each such wake releases
them and nobody else. -/
theorem reachable_wakes (T : FiberTable F) (s : State F A) (h : Reachable T (Met T) s) :
    AllRegistered s ∧ ∀ wait_address count,
      (Met T s (.wakeByAddress wait_address count) → Wakes s wait_address count
        (s.scheduler.wakeByAddressImpl · (some wait_address) count)) ∧
      ∀ value, s.scheduler.word wait_address = value →
        (Met T s (.wakeByAddressIncrementEqual wait_address value count) →
          Wakes s wait_address count
            (s.scheduler.wakeByAddressIncrementEqualImpl · (some wait_address) value count)) ∧
        (Met T s (.wakeByAddressModifyLessThan wait_address value count) →
          Wakes s wait_address count
            (s.scheduler.wakeByAddressModifyLessThanImpl · (some wait_address) value count)) := by
  obtain ⟨c, hinv⟩ := reachable_invariant h
  refine ⟨hinv.allRegistered, ?_⟩
  intro wait_address count
  refine ⟨fun hmet => ?_, fun value hvalue => ⟨fun hmet => ?_, fun hmet => ?_⟩⟩
  · obtain ⟨r, hreturns, -, hreleases⟩ := hinv.wakeByAddress fun hzero =>
      ⟨(hmet hzero).1, (hmet hzero).2.2⟩
    exact ⟨r, hreturns, hreleases⟩
  · obtain ⟨hfresh, -, hwaiters⟩ := hmet hvalue
    obtain ⟨r, hreturns, -, hreleases⟩ :=
      hinv.wakeByAddressIncrementEqual hvalue hfresh hwaiters
    exact ⟨r, hreturns, hreleases⟩
  · obtain ⟨-, hwaiters, hcount⟩ := hmet hvalue
    obtain ⟨r, hreturns, -, hreleases⟩ := hinv.wakeByAddressModifyLessThan hvalue hwaiters hcount
    exact ⟨r, hreturns, hreleases⟩

theorem reachable_wakes_addressWaiters :
    AllRegistered addressWaiters ∧
      Wakes addressWaiters true 2 (addressWaiters.scheduler.wakeByAddressImpl · (some true) 2) ∧
      Wakes addressWaiters true 2
        (addressWaiters.scheduler.wakeByAddressModifyLessThanImpl · (some true) 0 2) := by
  have hreach : Reachable pair (Met pair) addressWaiters :=
    addressWaiters_reachable idle_met addressWaiter_met
  have hkind : AllWaitWith addressWaiters true .WaitAddressArbiter := by
    intro f _
    revert f
    decide
  obtain ⟨hall, hwakes⟩ := reachable_wakes pair addressWaiters hreach
  obtain ⟨hwake, hvalue⟩ := hwakes true 2
  refine ⟨hall, hwake fun _ => ⟨?_, hkind, by decide⟩, (hvalue 0 rfl).2 fun _ => ⟨hkind, ?_, by decide⟩⟩
  · exact fun h => absurd h (List.cons_ne_nil _ _)
  · exact List.cons_ne_nil _ _

theorem wake_releases_too_many : ¬∀ s : State (Fin 2) Bool,
    Reachable pair (fun _ _ => True) s → ∀ wait_address count,
      Wakes s wait_address count (s.scheduler.wakeByAddressImpl · (some wait_address) count) ∧
      ∀ value, s.scheduler.word wait_address = value →
        Wakes s wait_address count
          (s.scheduler.wakeByAddressIncrementEqualImpl · (some wait_address) value count) ∧
        Wakes s wait_address count
          (s.scheduler.wakeByAddressModifyLessThanImpl · (some wait_address) value count) := by
  intro h
  have hreach : Reachable pair (fun _ _ => True) addressWaiters :=
    addressWaiters_reachable trivial trivial
  obtain ⟨⟨r, hreturns, hreleases⟩, -⟩ := h _ hreach true 1
  have hcall : addressWaiters.scheduler.wakeByAddressImpl 2 (some true) 1 = some (.ok _) := rfl
  rw [← hreturns.only _ _ hcall] at hreleases
  exact absurd hreleases.ended (by decide)

theorem wakeByAddressModifyLessThan_none {a : A} {value count : BitVec 32}
    (hvalue : s.scheduler.word a = value) {fuel : ℕ}
    (hnone : s.scheduler.findWaitAddress fuel a = some none) :
    s.scheduler.wakeByAddressModifyLessThanImpl fuel (some a) value count = none := by
  unfold UserScheduler.wakeByAddressModifyLessThanImpl
  dsimp only
  rw [if_neg (not_not.mpr hvalue), hnone]
  rfl

def Expired (s : State F A) (tick : BitVec 64) (f : F) : Prop :=
  (s.scheduler.fiber f).fiber_state = .Waiting ∧
    (∃ object, (s.scheduler.fiber f).waitable_object = some object ∧ object ≠ .LockArbiter) ∧
    (s.scheduler.fiber f).timeout < tick

def Late (s : State F A) (core_number : ℕ) (tick : BitVec 64) (f : F) : Prop :=
  s.scheduler.InWaitList f ∧ s.scheduler.TimesOut f core_number tick

structure Cancels (T : FiberTable F) (s : State F A) (core_number : ℕ) (tick : BitVec 64)
    (scheduler : UserScheduler F A) : Prop where
  returns : Returns (s.scheduler.timeoutPass T core_number tick ·
    (s.scheduler.links.next (.inl .scheduler))) scheduler
  others : ∀ f, ¬Late s core_number tick f → scheduler.fiber f = s.scheduler.fiber f ∧
    (s.scheduler.InWaitList f → scheduler.InWaitList f) ∧
    ∀ a, f ∈ s.waiters a → f ∈ (s.afterPass scheduler).waiters a
  registered : AllRegistered (s.afterPass scheduler)

end Awn.Ukern.Waits
