import Awn.Ukern.Address
import Awn.Ukern.WaitLists

/-!
The scheduler under all its waits: sleeps, keys, addresses, locks and the timeout pass, each call
one step, as it is under the scheduler's lock. A call that never returns leads to no state. Between
the calls a fiber that does not wait may do anything with its own fields, and any word may be
written.
-/

namespace Awn.Ukern.Waits

structure State (F A : Type*) where
  scheduler : UserScheduler F A
  /-- The fibers that wait on each key or address, in the order in which they began to. -/
  waiters : A → List F

inductive Event (F A : Type*)
  | sleep (f : F) (absolute_timeout : BitVec 64)
  | waitKey (f : F) (lock_address cv_key : A) (absolute_timeout : BitVec 64)
  | signalKey (cv_key : A) (signal_count : BitVec 32)
  | arbitrateLock (f : F) (handle : BitVec 32) (lock_address : A) (tag : BitVec 32)
  | arbitrateUnlock (f : F) (lock_address : A)
  | waitForAddressIfEqual (f : F) (wait_address : A) (value : BitVec 32)
      (absolute_timeout : BitVec 64)
  | waitForAddressIfLessThan (f : F) (wait_address : A) (value : BitVec 32)
      (absolute_timeout : BitVec 64) (do_decrement : Bool)
  | wakeByAddress (wait_address : A) (count : BitVec 32)
  | wakeByAddressIncrementEqual (wait_address : A) (value count : BitVec 32)
  | wakeByAddressModifyLessThan (wait_address : A) (value count : BitVec 32)
  | timeoutPass (core_number : ℕ) (tick : BitVec 64)
  | store (a : A) (value : BitVec 32)
  | adjust (f : F) (x : FiberLocalStorage A)

variable {F A : Type*} [DecidableEq F] [DecidableEq A] (T : FiberTable F)

namespace State

def after (s : State F A) : Except Result (UserScheduler F A) → State F A
  | .ok scheduler => { s with scheduler := scheduler }
  | .error _ => s

def afterWait (s : State F A) (f : F) (a : A) :
    Except Result (Result × UserScheduler F A) → State F A
  | .ok (.Success, scheduler) => ⟨scheduler, Function.update s.waiters a (s.waiters a ++ [f])⟩
  | .ok (_, scheduler) => { s with scheduler := scheduler }
  | .error _ => s

def afterWake (s : State F A) (a : A) (count : BitVec 32) :
    Except Result (UserScheduler F A) → State F A
  | .ok scheduler => ⟨scheduler, Function.update s.waiters a ((s.waiters a).drop count.toNat)⟩
  | .error _ => s

def afterPass (s : State F A) (scheduler : UserScheduler F A) : State F A where
  scheduler := scheduler
  waiters a := (s.waiters a).filter fun f => (scheduler.fiber f).fiber_state = .Waiting

end State

def Adjusts (x y : FiberLocalStorage A) : Prop :=
  if x.fiber_state = .Waiting then
    y = { x with core_mask := y.core_mask, activity_level := y.activity_level }
  else y.fiber_state ≠ .Waiting

inductive Step : State F A → Event F A → State F A → Prop
  | sleep {s : State F A} {f : F} {absolute_timeout : BitVec 64} :
      (s.scheduler.fiber f).fiber_state ≠ .Waiting →
        Step s (.sleep f absolute_timeout)
          { s with scheduler := s.scheduler.sleepThreadImpl f absolute_timeout }
  | waitKey {s : State F A} {f : F} {lock_address cv_key : A} {absolute_timeout : BitVec 64}
      {fuel : ℕ} {r : Except Result (Result × UserScheduler F A)} :
      (s.scheduler.fiber f).fiber_state ≠ .Waiting → lock_address ≠ cv_key →
      s.scheduler.waitKeyImpl T fuel f (some lock_address) (some cv_key) (T.handle f)
        absolute_timeout = some r →
        Step s (.waitKey f lock_address cv_key absolute_timeout) (s.afterWait f cv_key r)
  | signalKey {s : State F A} {cv_key : A} {signal_count : BitVec 32} {fuel : ℕ}
      {r : Except Result (UserScheduler F A)} :
      s.scheduler.signalKeyImpl T fuel (some cv_key) signal_count = some r →
        Step s (.signalKey cv_key signal_count) (s.afterWake cv_key signal_count r)
  | arbitrateLock {s : State F A} {f : F} {handle tag : BitVec 32} {lock_address : A} :
      (s.scheduler.fiber f).fiber_state ≠ .Waiting →
        Step s (.arbitrateLock f handle lock_address tag)
          (s.after (s.scheduler.arbitrateLockImpl T f handle (some lock_address) tag))
  | arbitrateUnlock {s : State F A} {f : F} {lock_address : A} {fuel : ℕ}
      {r : Except Result (UserScheduler F A)} :
      (s.scheduler.fiber f).fiber_state ≠ .Waiting →
      s.scheduler.arbitrateUnlockImpl T fuel f (some lock_address) = some r →
        Step s (.arbitrateUnlock f lock_address) (s.after r)
  | waitForAddressIfEqual {s : State F A} {f : F} {wait_address : A} {value : BitVec 32}
      {absolute_timeout : BitVec 64} {fuel : ℕ}
      {r : Except Result (Result × UserScheduler F A)} :
      (s.scheduler.fiber f).fiber_state ≠ .Waiting →
      s.scheduler.waitForAddressIfEqualImpl fuel f (some wait_address) value absolute_timeout =
        some r →
        Step s (.waitForAddressIfEqual f wait_address value absolute_timeout)
          (s.afterWait f wait_address r)
  | waitForAddressIfLessThan {s : State F A} {f : F} {wait_address : A} {value : BitVec 32}
      {absolute_timeout : BitVec 64} {do_decrement : Bool} {fuel : ℕ}
      {r : Except Result (Result × UserScheduler F A)} :
      (s.scheduler.fiber f).fiber_state ≠ .Waiting →
      s.scheduler.waitForAddressIfLessThanImpl fuel f (some wait_address) value absolute_timeout
        do_decrement = some r →
        Step s (.waitForAddressIfLessThan f wait_address value absolute_timeout do_decrement)
          (s.afterWait f wait_address r)
  | wakeByAddress {s : State F A} {wait_address : A} {count : BitVec 32} {fuel : ℕ}
      {r : Except Result (UserScheduler F A)} :
      s.scheduler.wakeByAddressImpl fuel (some wait_address) count = some r →
        Step s (.wakeByAddress wait_address count) (s.afterWake wait_address count r)
  | wakeByAddressIncrementEqual {s : State F A} {wait_address : A} {value count : BitVec 32}
      {fuel : ℕ} {r : Except Result (UserScheduler F A)} :
      s.scheduler.wakeByAddressIncrementEqualImpl fuel (some wait_address) value count = some r →
        Step s (.wakeByAddressIncrementEqual wait_address value count)
          (s.afterWake wait_address count r)
  | wakeByAddressModifyLessThan {s : State F A} {wait_address : A} {value count : BitVec 32}
      {fuel : ℕ} {r : Except Result (UserScheduler F A)} :
      s.scheduler.wakeByAddressModifyLessThanImpl fuel (some wait_address) value count = some r →
        Step s (.wakeByAddressModifyLessThan wait_address value count)
          (s.afterWake wait_address count r)
  | timeoutPass {s : State F A} {core_number fuel : ℕ} {tick : BitVec 64}
      {scheduler : UserScheduler F A} :
      s.scheduler.timeoutPass T core_number tick fuel
        (s.scheduler.links.next (.inl .scheduler)) = some scheduler →
        Step s (.timeoutPass core_number tick) (s.afterPass scheduler)
  | store {s : State F A} {a : A} {value : BitVec 32} :
      Step s (.store a value) { s with scheduler := s.scheduler.setWord a value }
  | adjust {s : State F A} {f : F} {x : FiberLocalStorage A} :
      Adjusts (s.scheduler.fiber f) x →
        Step s (.adjust f x) { s with scheduler := s.scheduler.modify f fun _ => x }

structure Start (s : State F A) : Prop where
  links : s.scheduler.links = Links.alone
  waiters : ∀ a, s.waiters a = []

inductive Reachable (P : State F A → Event F A → Prop) : State F A → Prop
  | start {s : State F A} : Start s → Reachable P s
  | step {s s' : State F A} {e : Event F A} :
      Reachable P s → P s e → Step T s e s' → Reachable P s'

section Returns

omit [DecidableEq F] [DecidableEq A]

structure Returns {R : Type*} (call : ℕ → Option R) (r : R) : Prop where
  returns : ∃ fuel, call fuel = some r
  only : ∀ fuel r', call fuel = some r' → r' = r

theorem returns_of_cases {R : Type*} {call : ℕ → Option R} {r : R} {bound : ℕ}
    (h : ∀ fuel, call fuel = some r ∨ (fuel < bound ∧ call fuel = none)) : Returns call r where
  returns := by
    refine ⟨bound, ?_⟩
    rcases h bound with hdone | ⟨hlt, -⟩
    · exact hdone
    · exact absurd hlt (Nat.lt_irrefl _)
  only fuel r' hr' := by
    rcases h fuel with hdone | ⟨-, hnone⟩
    · rw [hdone] at hr'
      exact (Option.some.inj hr').symm
    · rw [hnone] at hr'
      cases hr'

end Returns

section Properties

omit [DecidableEq F]

variable (s s' : State F A) (c : WaitList F → List F)

def findAddress (a : A) (fs : List F) : Option F :=
  fs.find? fun f => (s.scheduler.fiber f).wait_address = some a

def Registered (a : A) : Prop :=
  ∀ p rest, s.waiters a = p :: rest →
    findAddress s a (c .scheduler) = some p ∧ c (.of p) = rest

def Taken (f : F) : Prop :=
  ∃ lock_address, (s.scheduler.fiber f).lock_address = some lock_address ∧
    ((owner (s'.scheduler.word lock_address) = T.handle f ∧
        (s'.scheduler.fiber f).fiber_state ≠ .Waiting ∧ ∀ list, f ∉ c list) ∨
      ∃ o, owner (s'.scheduler.word lock_address) = T.handle o ∧ f ∈ c (.of o))

def Delivers (cv_key : A) (signal_count : BitVec 32) : Prop :=
  s'.waiters cv_key = (s.waiters cv_key).drop signal_count.toNat ∧
    ∃ c, s'.scheduler.links.Represents c ∧ Registered s' c cv_key ∧
      ∀ f ∈ (s.waiters cv_key).take signal_count.toNat, Taken T s s' c f

structure Releases (wait_address : A) (count : BitVec 32) : Prop where
  ended : s'.scheduler.ended =
    s.scheduler.ended ++ (s.waiters wait_address).take count.toNat
  released : ∀ f ∈ (s.waiters wait_address).take count.toNat,
    (s'.scheduler.fiber f).fiber_state ≠ .Waiting
  others : ∀ f, f ∉ (s.waiters wait_address).take count.toNat →
    s'.scheduler.fiber f = s.scheduler.fiber f
  waiters : s'.waiters wait_address = (s.waiters wait_address).drop count.toNat
  registered : ∃ c, s'.scheduler.links.Represents c ∧ Registered s' c wait_address

end Properties

section Conditions

omit [DecidableEq F] [DecidableEq A]

variable (s : State F A)

def Parent (f : F) : Prop := ∃ a rest, s.waiters a = f :: rest

def Fresh (a : A) : Prop :=
  s.waiters a = [] → ∀ f, s.scheduler.InWaitList f → (s.scheduler.fiber f).wait_address ≠ some a

def AllWaitWith (a : A) (object : WaitableObject) : Prop :=
  ∀ f ∈ s.waiters a, (s.scheduler.fiber f).waitable_object = some object

def Transferable (f : F) : Prop :=
  ∀ lock_address, (s.scheduler.fiber f).lock_address = some lock_address →
    s.scheduler.word lock_address = 0 ∨
      ∃ o, owner (s.scheduler.word lock_address) = T.handle o ∧ ¬Parent s o

def Follows (p f : F) (signal_count : BitVec 32) : Prop :=
  ∀ lock_address, (s.scheduler.fiber f).lock_address = some lock_address →
    ∃ o, (((s.scheduler.fiber p).lock_address = some lock_address ∧
        s.scheduler.word lock_address = 0 ∧ o = p) ∨
          owner (s.scheduler.word lock_address) = T.handle o) ∧
      o ≠ f ∧ (o = p ∨ (signal_count = 2 ∧ ¬Parent s o))

def SignalMet (cv_key : A) (signal_count : BitVec 32) : Prop :=
  s.waiters cv_key = [] ∨
    (∃ p, s.waiters cv_key = [p] ∧ Transferable T s p) ∨
    ∃ p f, s.waiters cv_key = [p, f] ∧ 2 ≤ signal_count.toNat ∧ Transferable T s p ∧
      Follows T s p f signal_count

def Cancellable (core_number : ℕ) (tick : BitVec 64) (f : F) : Prop :=
  (s.scheduler.fiber f).waitable_object = some .TimeWaiter ∨
    ((∃ a, s.waiters a = [f]) ∧ ((s.scheduler.fiber f).waitable_object = some .KeyArbiter →
      ∀ lock_address, (s.scheduler.fiber f).lock_address = some lock_address →
        s.scheduler.word lock_address = 0 ∧
          ∀ g, s.scheduler.InWaitList g → s.scheduler.TimesOut g core_number tick →
            (s.scheduler.fiber g).waitable_object = some .KeyArbiter →
            (s.scheduler.fiber g).lock_address = some lock_address → g = f))

def Met : Event F A → Prop
  | .sleep _ _ => True
  | .waitKey _ _ cv_key _ => Fresh s cv_key
  | .signalKey cv_key signal_count =>
    signal_count ≠ 0 →
      Fresh s cv_key ∧ AllWaitWith s cv_key .KeyArbiter ∧ SignalMet T s cv_key signal_count
  | .arbitrateLock _ handle _ _ => ∀ g, T.getFiberByHandle handle = some g → ¬Parent s g
  | .arbitrateUnlock _ _ => True
  | .waitForAddressIfEqual f wait_address _ _ | .waitForAddressIfLessThan f wait_address _ _ _ =>
    Fresh s wait_address ∧ (s.waiters wait_address = [] → s.scheduler.links.Ring (.inl (.of f)) [])
  | .wakeByAddress wait_address count =>
    count ≠ 0 → Fresh s wait_address ∧ AllWaitWith s wait_address .WaitAddressArbiter ∧
      (s.waiters wait_address).length ≤ count.toNat
  | .wakeByAddressIncrementEqual wait_address value count =>
    s.scheduler.word wait_address = value →
      Fresh s wait_address ∧ AllWaitWith s wait_address .WaitAddressArbiter ∧
        (s.waiters wait_address = [] ∨ (count ≠ 0 ∧ ∃ p, s.waiters wait_address = [p]))
  | .wakeByAddressModifyLessThan wait_address value count =>
    s.scheduler.word wait_address = value →
      AllWaitWith s wait_address .WaitAddressArbiter ∧ s.waiters wait_address ≠ [] ∧
        (s.waiters wait_address).length ≤ count.toNat
  | .timeoutPass core_number tick =>
    ∀ f, s.scheduler.InWaitList f → s.scheduler.TimesOut f core_number tick →
      Cancellable s core_number tick f
  | .store _ _ => True
  | .adjust _ _ => True

end Conditions

end Awn.Ukern.Waits
