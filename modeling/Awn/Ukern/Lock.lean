import Awn.Ukern.Fiber
import Mathlib.Data.Fintype.Basic

/-!
`ArbitrateLockImpl`, `ArbitrateUnlockImpl` and the handoff of a lock in
`ReleaseLockWaitListUnsafe`.
-/

namespace Awn.Ukern.UserScheduler

variable {F A : Type*} [DecidableEq F]

/-- The loop that moves the remaining waiters: the iterator goes on from the node that was just
moved. `none` stands for a loop that has not ended after so many turns. -/
def transferWaiters (stop : Node F) (next_owner : F) :
    ℕ → Links (Node F) → Node F → Option (Links (Node F))
  | 0, _, _ => none
  | fuel + 1, links, iter =>
    if iter = stop then some links
    else
      let links := (links.unlink iter).linkPrev (.inl (.of next_owner)) iter
      transferWaiters stop next_owner fuel links (links.next iter)

variable [DecidableEq A]

/-- `none` also stands for the failed assertion and for a null pointer. -/
def releaseLockWaitListUnsafe (fuel : ℕ) (s : UserScheduler F A) (f : F) :
    Option (UserScheduler F A) :=
  match s.links.next (.inl (.of f)) with
  | .inl _ => none
  | .inr next_owner =>
    let s := s.unlink next_owner
    match (s.fiber next_owner).lock_address, (s.fiber next_owner).waitable_object with
    | some lock_address, some _ =>
      let wait_tag := (s.fiber next_owner).wait_tag
      let value := if s.isEmpty (.of f) then wait_tag else wait_tag ||| HasChildWaitersBit
      let s := (s.setWord lock_address value).modify next_owner
        fun x => { x with lock_address := none, wait_tag := 0 }
      match transferWaiters (.inl (.of f)) next_owner fuel s.links (s.links.next (.inl (.of f))) with
      | none => none
      | some links =>
        let s := { s with links := links }.endFiberWaitImpl next_owner .Success
        some (s.modify next_owner fun x => { x with waitable_object := none })
    | _, _ => none

def waitForLock (x : FiberLocalStorage A) (lock_address : A) (tag : BitVec 32) :
    FiberLocalStorage A :=
  { x with
    waitable_object := some .LockArbiter, lock_address := some lock_address, wait_tag := tag,
    fiber_state := .Waiting, timeout := 0x7fffffffffffffff }

def arbitrateLockImpl (T : FiberTable F) (s : UserScheduler F A) (current_fiber : F)
    (handle : BitVec 32) (lock_address : Option A) (tag : BitVec 32) :
    Except Result (UserScheduler F A) :=
  match lock_address with
  | none => .error .InvalidAddress
  | some lock_address =>
    match T.getFiberByHandle handle with
    | none => .error .InvalidHandle
    | some handle_fiber =>
      if handle_fiber = current_fiber then .error .InvalidHandle
      else if s.word lock_address ≠ handle ||| HasChildWaitersBit then
        .error .InvalidLockAddressValue
      else
        .ok ((s.modify current_fiber (waitForLock · lock_address tag)).pushBack (.of handle_fiber)
          current_fiber)

def arbitrateUnlockImpl (T : FiberTable F) (fuel : ℕ) (s : UserScheduler F A) (current_fiber : F)
    (lock_address : Option A) : Option (Except Result (UserScheduler F A)) :=
  match lock_address with
  | none => some (.error .InvalidAddress)
  | some lock_address =>
    if s.isEmpty (.of current_fiber) then some (.error .RequiresLock)
    else if T.handle current_fiber ||| HasChildWaitersBit ≠ s.word lock_address then
      some (.error .InvalidLockAddressValue)
    else (s.releaseLockWaitListUnsafe fuel current_fiber).map .ok

section Handoff

omit [DecidableEq A]

theorem transferWaiters_at_head {stop : Node F} {next_owner : F} {links : Links (Node F)}
    (hstop : .inl (.of next_owner) ≠ stop) (halone : links.Ring (.inl (.of next_owner)) [])
    (fuel : ℕ) : transferWaiters stop next_owner fuel links (.inl (.of next_owner)) = none := by
  induction fuel with
  | zero => rfl
  | succ fuel ih =>
    unfold transferWaiters
    rw [if_neg hstop, Links.unlink_alone halone, Links.linkPrev_self halone]
    dsimp only
    rw [halone.1]
    exact ih

theorem linkPrev_unlink_head (links : Links (Node F)) (n : Node F) :
    ((links.unlink n).linkPrev n n).Ring n [] := by
  rw [Links.linkPrev_self (Links.unlink_ring_self links n)]
  exact Links.unlink_ring_self links n

theorem transferWaiters_diverges {links : Links (Node F)} {c : WaitList F → List F} {f next_owner r : F}
    {rest : List F} (h : links.Represents c) (hc : c (.of f) = r :: rest) (hne : next_owner ≠ f)
    (fuel : ℕ) :
    transferWaiters (.inl (.of f)) next_owner fuel links (links.next (.inl (.of f))) = none := by
  have hstop : (.inl (.of next_owner) : Node F) ≠ .inl (.of f) := by
    intro heq
    cases heq
    exact hne rfl
  have hnext : links.next (.inl (.of f)) = .inr r := by
    rw [h.next_head, hc]
    rfl
  rw [hnext]
  cases fuel with
  | zero => rfl
  | succ fuel =>
    have hunlink := h.unlink r
    have hnot : ∀ s, r ∉ (c s).erase r := by
      intro s hs
      exact ((h.nodup s).not_mem_erase) hs
    have hpush := hunlink.pushBack hnot (.of next_owner)
    have hlist : Function.update (fun s => (c s).erase r) (.of next_owner)
        ((c (.of next_owner)).erase r ++ [r]) (.of next_owner) =
          (c (.of next_owner)).erase r ++ r :: [] := Function.update_self _ _ _
    have hend : ((links.unlink (.inr r)).linkPrev (.inl (.of next_owner)) (.inr r)).next (.inr r) =
        .inl (.of next_owner) := hpush.next_elem hlist
    unfold transferWaiters
    rw [if_neg Sum.inr_ne_inl]
    dsimp only
    rw [hend]
    cases fuel with
    | zero => rfl
    | succ fuel =>
      have halone := linkPrev_unlink_head
        ((links.unlink (.inr r)).linkPrev (.inl (.of next_owner)) (.inr r)) (.inl (.of next_owner))
      unfold transferWaiters
      rw [if_neg hstop]
      dsimp only
      rw [halone.1]
      exact transferWaiters_at_head hstop halone fuel

end Handoff

variable {s : UserScheduler F A} {c : WaitList F → List F} {f : F}

omit [DecidableEq A] in
theorem isEmpty_eq_true {list : WaitList F} (h : s.links.Represents c) :
    s.isEmpty list = true ↔ c list = [] := by
  unfold isEmpty
  have hlinked := h.isLinked_head list
  by_cases hc : c list = []
  · have hfalse : s.links.isLinked (.inl list) = false := by
      rw [← Bool.not_eq_true]
      exact fun ht => hlinked.mp ht hc
    rw [hfalse]
    exact ⟨fun _ => hc, fun _ => rfl⟩
  · rw [hlinked.mpr hc]
    exact ⟨fun hf => Bool.noConfusion hf, fun hn => absurd hn hc⟩

theorem release_empty (h : s.links.Represents c) (hc : c (.of f) = []) (fuel : ℕ) :
    s.releaseLockWaitListUnsafe fuel f = none := by
  unfold releaseLockWaitListUnsafe
  rw [h.next_head, hc]
  rfl

theorem release_zero (s : UserScheduler F A) (f : F) : s.releaseLockWaitListUnsafe 0 f = none := by
  unfold releaseLockWaitListUnsafe
  cases s.links.next (.inl (.of f)) with
  | inl _ => rfl
  | inr next_owner =>
    dsimp only
    split <;> rfl

theorem release_diverges (h : s.links.Represents c) {g r : F} {rest : List F}
    (hc : c (.of f) = g :: r :: rest) (hne : g ≠ f) (fuel : ℕ) :
    s.releaseLockWaitListUnsafe fuel f = none := by
  have hnext : s.links.next (.inl (.of f)) = .inr g := by
    rw [h.next_head, hc]
    rfl
  have hunlink := h.unlink g
  have hrest : (c (.of f)).erase g = r :: rest := by
    rw [hc, List.erase_cons_head]
  unfold releaseLockWaitListUnsafe
  rw [hnext]
  dsimp only
  split
  · rw [modify_links, setWord_links, unlink_links, transferWaiters_diverges hunlink hrest hne]
  · rfl

def handedOver (s : UserScheduler F A) (g : F) (lock_address : A) : UserScheduler F A :=
  let s' := ((s.unlink g).setWord lock_address (s.fiber g).wait_tag).modify g
    fun x => { x.endWait .Success with lock_address := none, wait_tag := 0, waitable_object := none }
  { s' with ended := s.ended ++ [g] }

theorem handedOver_self (s : UserScheduler F A) (g : F) (a : A) :
    (s.handedOver g a).fiber g =
      { (s.fiber g).endWait .Success with
        lock_address := none, wait_tag := 0, waitable_object := none } :=
  Function.update_self _ _ _

theorem handedOver_of_ne (s : UserScheduler F A) {g k : F} (a : A) (hk : k ≠ g) :
    (s.handedOver g a).fiber k = s.fiber k :=
  Function.update_of_ne hk _ _

theorem release_single (h : s.links.Represents c) {g : F} {lock_address : A} {w : WaitableObject}
    (hc : c (.of f) = [g]) (hlock : (s.fiber g).lock_address = some lock_address)
    (hwait : (s.fiber g).waitable_object = some w) (fuel : ℕ) :
    s.releaseLockWaitListUnsafe (fuel + 1) f = some (s.handedOver g lock_address) := by
  have hnext : s.links.next (.inl (.of f)) = .inr g := by
    rw [h.next_head, hc]
    rfl
  have hunlink := h.unlink g
  have hrest : (c (.of f)).erase g = [] := by
    rw [hc, List.erase_cons_head]
  have hempty : (s.unlink g).isEmpty (.of f) = true :=
    (isEmpty_eq_true (s := s.unlink g) hunlink).mpr hrest
  have hstop : (s.links.unlink (.inr g)).next (.inl (.of f)) = .inl (.of f) := by
    rw [hunlink.next_head, hrest]
    rfl
  have halone : (s.links.unlink (.inr g)).unlink (.inr g) = s.links.unlink (.inr g) :=
    Links.unlink_alone (Links.unlink_ring_self _ _)
  unfold releaseLockWaitListUnsafe
  rw [hnext]
  dsimp only
  rw [unlink_fiber, hlock, hwait]
  dsimp only
  rw [hempty, if_pos rfl, modify_links, setWord_links, unlink_links, hstop]
  unfold transferWaiters
  rw [if_pos rfl]
  unfold handedOver endFiberWaitImpl
  simp only [unlink, modify, setWord, halone, Function.update_self, Function.update_idem,
    FiberLocalStorage.endWait_eq]

end Awn.Ukern.UserScheduler

/-!
`InternalCriticalSection`: `Enter`, `TryEnter` and `Leave` on one lock word, every compare-exchange,
fetch-or and scheduler call one atomic step.
-/

namespace Awn.Ukern.InternalCriticalSection

inductive Pc
  | outside
  /-- In `Enter`, before the compare-exchange. -/
  | acquire
  /-- Before the fetch-or; the compare-exchange has read `handle`. -/
  | announce (handle : BitVec 32)
  /-- Before `ArbitrateLockImpl`. -/
  | arbitrate (handle : BitVec 32)
  /-- In `ArbitrateLockImpl`, switched to the scheduler's fiber. -/
  | blocked
  /-- Before the load that ensures a non-spurious wakeup. -/
  | recheck
  | inside
  /-- In `Leave`, before `ArbitrateUnlockImpl`. -/
  | release
  /-- In `WaitKeyImpl`, switched to the scheduler's fiber. -/
  | waitingKey
  /-- A scheduler call has not returned success. -/
  | aborted
  /-- In a scheduler call that never ends. -/
  | stuck
  deriving DecidableEq

structure State (F A : Type*) where
  scheduler : UserScheduler F A
  pc : F → Pc
  /-- The fibers blocked on the lock, in the order in which they began to wait. -/
  waiting : List F

inductive Event (F : Type*)
  | enter (f : F)
  | tryEnter (f : F)
  | compareExchange (f : F)
  | fetchOr (f : F)
  | arbitrateLock (f : F)
  | resume (f : F)
  | recheck (f : F)
  | leave (f : F)
  | arbitrateUnlock (f : F)

variable {F A : Type*} [DecidableEq F] [DecidableEq A] (T : FiberTable F) (m_handle : A)

namespace State

def goto (s : State F A) (f : F) (pc : Pc) : State F A :=
  { s with pc := Function.update s.pc f pc }

def word (s : State F A) : BitVec 32 := s.scheduler.word m_handle

def setWord (s : State F A) (value : BitVec 32) : State F A :=
  { s with scheduler := s.scheduler.setWord m_handle value }

def withScheduler (s : State F A) (scheduler : UserScheduler F A) : State F A :=
  { s with
    scheduler := scheduler
    waiting := s.waiting.filter fun f => (scheduler.fiber f).fiber_state = .Waiting }

def compareExchange (s : State F A) (f : F) : State F A :=
  if s.word m_handle = 0 then (s.setWord m_handle (T.handle f)).goto f .inside
  else if (s.word m_handle >>> 0x1e) &&& 1 = 0 then s.goto f (.announce (s.word m_handle))
  else s.goto f (.arbitrate (s.word m_handle))

def tryEnter (s : State F A) (f : F) : State F A :=
  if s.word m_handle = 0 then (s.setWord m_handle (T.handle f)).goto f .inside else s

def fetchOr (s : State F A) (f : F) (handle : BitVec 32) : State F A :=
  (s.setWord m_handle (s.word m_handle ||| HasChildWaitersBit)).goto f
    (if handle ≠ s.word m_handle then .acquire else .arbitrate handle)

def arbitrateLock (s : State F A) (f : F) (handle : BitVec 32) : State F A :=
  match s.scheduler.arbitrateLockImpl T f (owner handle) (some m_handle) (T.handle f) with
  | .error _ => s.goto f .aborted
  | .ok scheduler =>
    { s.goto f .blocked with scheduler := scheduler, waiting := s.waiting ++ [f] }

def resume (s : State F A) (f : F) : State F A :=
  let s' := { s with scheduler := s.scheduler.modify f fun x => { x with fiber_state := .Running } }
  s'.goto f (if (s.scheduler.fiber f).last_result = .Success then .recheck else .aborted)

def recheck (s : State F A) (f : F) : State F A :=
  s.goto f (if owner (s.word m_handle) = T.handle f then .inside else .acquire)

def leave (s : State F A) (f : F) : State F A :=
  if s.word m_handle = T.handle f then (s.setWord m_handle 0).goto f .outside
  else s.goto f .release

end State

inductive Step : State F A → Event F → State F A → Prop
  | enter {s : State F A} {f : F} : s.pc f = .outside → Step s (.enter f) (s.goto f .acquire)
  | tryEnter {s : State F A} {f : F} :
      s.pc f = .outside → Step s (.tryEnter f) (s.tryEnter T m_handle f)
  | compareExchange {s : State F A} {f : F} :
      s.pc f = .acquire → Step s (.compareExchange f) (s.compareExchange T m_handle f)
  | fetchOr {s : State F A} {f : F} {handle : BitVec 32} :
      s.pc f = .announce handle → Step s (.fetchOr f) (s.fetchOr m_handle f handle)
  | arbitrateLock {s : State F A} {f : F} {handle : BitVec 32} :
      s.pc f = .arbitrate handle → Step s (.arbitrateLock f) (s.arbitrateLock T m_handle f handle)
  | resume {s : State F A} {f : F} :
      s.pc f = .blocked → (s.scheduler.fiber f).fiber_state = .Scheduled →
        Step s (.resume f) (s.resume f)
  | recheck {s : State F A} {f : F} :
      s.pc f = .recheck → Step s (.recheck f) (s.recheck T m_handle f)
  | leave {s : State F A} {f : F} :
      s.pc f = .inside → Step s (.leave f) (s.leave T m_handle f)
  | unlock {s : State F A} {f : F} {fuel : ℕ} {scheduler : UserScheduler F A} :
      s.pc f = .release →
      s.scheduler.arbitrateUnlockImpl T fuel f (some m_handle) = some (.ok scheduler) →
        Step s (.arbitrateUnlock f) ((s.withScheduler scheduler).goto f .outside)
  | unlockFails {s : State F A} {f : F} {fuel : ℕ} {result : Result} :
      s.pc f = .release →
      s.scheduler.arbitrateUnlockImpl T fuel f (some m_handle) = some (.error result) →
        Step s (.arbitrateUnlock f) (s.goto f .aborted)
  | unlockDiverges {s : State F A} {f : F} :
      s.pc f = .release →
      (∀ fuel, s.scheduler.arbitrateUnlockImpl T fuel f (some m_handle) = none) →
        Step s (.arbitrateUnlock f) (s.goto f .stuck)

structure Start (s : State F A) : Prop where
  outside : ∀ f, s.pc f = .outside
  word : s.word m_handle = 0
  links : s.scheduler.links = Links.alone
  waiting : s.waiting = []

inductive Reachable (P : State F A → Event F → Prop) : State F A → Prop
  | start {s : State F A} : Start m_handle s → Reachable P s
  | step {s s' : State F A} {e : Event F} :
      Reachable P s → P s e → Step T m_handle s e s' → Reachable P s'

def HasWaitList (s : State F A) (f : F) (xs : List F) : Prop :=
  s.scheduler.links.Ring (.inl (.of f)) (Links.nodes xs)

structure Safe (s : State F A) : Prop where
  not_aborted : ∀ f, s.pc f ≠ .aborted
  not_stuck : ∀ f, s.pc f ≠ .stuck
  exclusive : ∀ f g, s.pc f = .inside → s.pc g = .inside → f = g
  listed : ∀ f, s.pc f = .blocked → (s.scheduler.fiber f).fiber_state = .Waiting →
    ∃ g xs, owner (s.word m_handle) = T.handle g ∧ HasWaitList s g xs ∧ f ∈ xs

structure HandedOver (s s' : State F A) (f g : F) (others : List F) : Prop where
  before : HasWaitList s f (g :: others)
  longest : s.waiting = g :: others
  owns : owner (s'.word m_handle) = T.handle g
  released : (s'.scheduler.fiber g).fiber_state ≠ .Waiting
  after : HasWaitList s' g others
  waiting : s'.waiting = others

def Hands (s : State F A) (e : Event F) (s' : State F A) : Prop :=
  match e with
  | .leave f => s'.pc f = .outside → s.waiting = []
  | .arbitrateUnlock f => ∃ g others, HandedOver T m_handle s s' f g others
  | _ => True

def Correct : Prop :=
  ∀ s : State F A, Reachable T m_handle (fun _ _ => True) s →
    Safe T m_handle s ∧ ∀ e s', Step T m_handle s e s' → Hands T m_handle s e s'

def Met (s : State F A) (e : Event F) : Prop :=
  match e with
  | .arbitrateLock f => ∀ handle, s.pc f = .arbitrate handle →
      owner handle ≠ 0 ∧ s.word m_handle = owner handle ||| HasChildWaitersBit
  | .arbitrateUnlock f => ∃ g, HasWaitList s f [g]
  | _ => True

end Awn.Ukern.InternalCriticalSection
