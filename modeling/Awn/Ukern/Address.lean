import Awn.Ukern.Lock

/-!
Condition variables (`WaitKeyImpl`, `SignalKeyImpl`), the cancelled waits and the timeout pass over
the scheduler's wait list. In all of them `none` stands for a call that does not come back: a loop
that does not end, a failed assertion, a null pointer, or a field read through a node that is no
fiber's.
-/

namespace Awn.Ukern.UserScheduler

variable {F A : Type*} [DecidableEq F]

def findWaiter (s : UserScheduler F A) (accept : FiberLocalStorage A → Bool) :
    ℕ → Node F → Option (Option F)
  | 0, _ => none
  | _ + 1, .inl .scheduler => some none
  | _ + 1, .inl (.of _) => none
  | fuel + 1, .inr f =>
    if accept (s.fiber f) then some (some f) else s.findWaiter accept fuel (s.links.next (.inr f))

def findWaitAddress [DecidableEq A] (s : UserScheduler F A) (fuel : ℕ) (address : A) :
    Option (Option F) :=
  s.findWaiter (fun x => x.wait_address = some address) fuel (s.links.next (.inl .scheduler))

def moveWaiters (stop : Node F) (parent : F) : ℕ → Links (Node F) → Node F → Option (Links (Node F))
  | 0, _, _ => none
  | fuel + 1, links, iter =>
    if iter = stop then some links
    else
      moveWaiters stop parent fuel ((links.unlink iter).linkPrev (.inl (.of parent)) iter)
        (links.next iter)

def promote (s : UserScheduler F A) (fuel : ℕ) (f : F) : Option (F × UserScheduler F A) :=
  match s.links.next (.inl (.of f)) with
  | .inl _ => none
  | .inr parent =>
    let s := s.unlink parent
    (moveWaiters (.inl (.of f)) parent fuel s.links (s.links.next (.inl (.of f)))).map
      fun links => (parent, { s with links := links })

variable [DecidableEq A] (T : FiberTable F)

def waitForKey (x : FiberLocalStorage A) (lock_address cv_key : A) (tag : BitVec 32)
    (absolute_timeout : BitVec 64) : FiberLocalStorage A :=
  { x with
    waitable_object := some .KeyArbiter, wait_address := some cv_key,
    lock_address := some lock_address, wait_tag := tag, fiber_state := .Waiting,
    timeout := absolute_timeout }

def joinKey (s : UserScheduler F A) (fuel : ℕ) (cv_key : A) (current_fiber : F) :
    Option (UserScheduler F A) :=
  (s.findWaitAddress fuel cv_key).map fun parent =>
    let s := match parent with
      | some waiting_fiber => s.pushBack (.of waiting_fiber) current_fiber
      | none => s
    if s.links.isLinked (.inr current_fiber) then s else s.pushBack .scheduler current_fiber

def releaseLock (fuel : ℕ) (s : UserScheduler F A) (current_fiber : F) (lock_address : A) :
    Option (UserScheduler F A) :=
  if s.isEmpty (.of current_fiber) then some (s.setWord lock_address 0)
  else s.releaseLockWaitListUnsafe fuel current_fiber

def waitKeyImpl (fuel : ℕ) (s : UserScheduler F A) (current_fiber : F)
    (lock_address cv_key : Option A) (tag : BitVec 32) (absolute_timeout : BitVec 64) :
    Option (Except Result (Result × UserScheduler F A)) :=
  match lock_address, cv_key with
  | some lock_address, some cv_key =>
    if T.handle current_fiber ≠ owner (s.word lock_address) then
      some (.error .InvalidLockAddressValue)
    else do
      let s ← s.releaseLock fuel current_fiber lock_address
      let s := s.setWord cv_key 1
      if absolute_timeout = 0 then some (.ok (.Timeout, s))
      else
        let s := s.modify current_fiber (waitForKey · lock_address cv_key tag absolute_timeout)
        let s ← s.joinKey fuel cv_key current_fiber
        some (.ok (.Success, s))
  | _, _ => some (.error .InvalidAddress)

def transferFiberForSignalKey (s : UserScheduler F A) (waiting_fiber : F) :
    Option (Bool × UserScheduler F A) :=
  match (s.fiber waiting_fiber).lock_address with
  | none => none
  | some lock_address =>
    let prev_tag := s.word lock_address
    if prev_tag ≠ 0 then
      let s := s.setWord lock_address (s.word lock_address ||| HasChildWaitersBit)
      match T.getFiberByHandle (owner prev_tag) with
      | none => none
      | some lock_fiber => some (false, s.pushBack (.of lock_fiber) waiting_fiber)
    else some (true, s.setWord lock_address (s.fiber waiting_fiber).wait_tag)

def endWaitAndClear (s : UserScheduler F A) (f : F) : Option (UserScheduler F A) :=
  match (s.fiber f).waitable_object with
  | none => none
  | some _ =>
    some ((s.endFiberWaitImpl f .Success).modify f fun x => { x with waitable_object := none })

def signalParent (s : UserScheduler F A) (cv_fiber : F) : Option (UserScheduler F A) := do
  let (taken, s) ← (s.unlink cv_fiber).transferFiberForSignalKey T cv_fiber
  if taken then s.endWaitAndClear cv_fiber else some s

def signalChildren (stop : Node F) (signal_count : ℕ) :
    ℕ → UserScheduler F A → ℕ → Node F → Option (UserScheduler F A)
  | 0, _, _, _ => none
  | fuel + 1, s, i, iter =>
    if iter = stop then some s
    else if signal_count ≤ i then some s
    else
      match iter with
      | .inl _ => none
      | .inr waiting_fiber => do
        let (_, s) ← (s.unlink waiting_fiber).transferFiberForSignalKey T waiting_fiber
        signalChildren stop signal_count fuel s (i + 1) (s.links.next iter)

def signalKeyImpl (fuel : ℕ) (s : UserScheduler F A) (cv_key : Option A) (signal_count : BitVec 32) :
    Option (Except Result (UserScheduler F A)) :=
  match cv_key with
  | none => some (.error .InvalidAddress)
  | some cv_key =>
    if signal_count = 0 then some (.ok (s.setWord cv_key 0))
    else
      match s.findWaitAddress fuel cv_key with
      | none => none
      | some none => some (.error .InvalidAddress)
      | some (some cv_fiber) => do
        let s ← s.signalParent T cv_fiber
        let s ← s.signalChildren T (.inl (.of cv_fiber)) signal_count.toNat fuel 1
          (s.links.next (.inl (.of cv_fiber)))
        some (.ok (s.setWord cv_key 0))

def takeLockBack (s : UserScheduler F A) (wait_fiber : F) (wait_result : Result) :
    Option (UserScheduler F A) :=
  match (s.fiber wait_fiber).lock_address with
  | none => none
  | some lock_address =>
    let prev_tag := s.word lock_address
    let wait_tag := (s.fiber wait_fiber).wait_tag
    let tag := if prev_tag ≠ 0 then wait_tag ||| HasChildWaitersBit else wait_tag
    let s := s.setWord lock_address tag
    if prev_tag ≠ 0 then
      match T.getFiberByHandle (owner prev_tag) with
      | none => none
      | some lock_fiber =>
        some (((s.pushBack (.of lock_fiber) wait_fiber).unlink lock_fiber).modify lock_fiber
          fun x => { x with fiber_state := .Suspended })
    else some (s.endFiberWaitImpl wait_fiber wait_result)

def cancelWait (fuel : ℕ) (s : UserScheduler F A) (wait_fiber : F) (wait_result : Result) :
    WaitableObject → Option (UserScheduler F A)
  | .LockArbiter => none
  | .KeyArbiter =>
    if !s.isEmpty (.of wait_fiber) then
      (s.promote fuel wait_fiber).bind fun (_, s) => s.takeLockBack T wait_fiber wait_result
    else if s.links.isLinked (.inr wait_fiber) then
      (s.unlink wait_fiber).takeLockBack T wait_fiber wait_result
    else some (s.endFiberWaitImpl wait_fiber wait_result)
  | .WaitAddressArbiter =>
    if !s.isEmpty (.of wait_fiber) then
      (s.promote fuel wait_fiber).map fun (_, s) => s.endFiberWaitImpl wait_fiber wait_result
    else if s.links.isLinked (.inr wait_fiber) then
      some ((s.unlink wait_fiber).endFiberWaitImpl wait_fiber wait_result)
    else some (s.endFiberWaitImpl wait_fiber wait_result)
  | .TimeWaiter => some (s.endFiberWaitImpl wait_fiber wait_result)

def coreBit (core : ℕ) : BitVec 64 := ((1 : BitVec 32) <<< core).signExtend 64

def isSchedulable (fuel : ℕ) (s : UserScheduler F A) (f : F) (core_number : ℕ) (time : BitVec 64) :
    Option (UserScheduler F A) :=
  if (s.fiber f).core_mask &&& coreBit core_number = 0 then some s
  else
    match (s.fiber f).waitable_object with
    | none => some s
    | some object =>
      if (s.fiber f).timeout < time then s.cancelWait T fuel f .Timeout object else some s

def TimesOut (s : UserScheduler F A) (f : F) (core_number : ℕ) (tick : BitVec 64) : Prop :=
  (s.fiber f).core_mask &&& coreBit core_number ≠ 0 ∧ (s.fiber f).timeout < tick

def timeoutPass (core_number : ℕ) (tick : BitVec 64) :
    ℕ → UserScheduler F A → Node F → Option (UserScheduler F A)
  | 0, _, _ => none
  | _ + 1, s, .inl .scheduler => some s
  | _ + 1, _, .inl (.of _) => none
  | fuel + 1, s, .inr waiting_fiber => do
    let wait_iter := s.links.next (.inr waiting_fiber)
    let s ← s.isSchedulable T fuel waiting_fiber core_number tick
    timeoutPass core_number tick fuel s wait_iter

end Awn.Ukern.UserScheduler

/-!
Sleeps and the address arbiter: `SleepThreadImpl`, the two waits on an address and the three wakes.
-/

namespace Awn.Ukern.UserScheduler

variable {F A : Type*} [DecidableEq F]

def waitForTime (x : FiberLocalStorage A) (absolute_timeout : BitVec 64) : FiberLocalStorage A :=
  { x with
    timeout := absolute_timeout, fiber_state := .Waiting, waitable_object := some .TimeWaiter }

def sleepThreadImpl (s : UserScheduler F A) (current_fiber : F) (absolute_timeout : BitVec 64) :
    UserScheduler F A :=
  if absolute_timeout ≠ 0 then
    (s.modify current_fiber (waitForTime · absolute_timeout)).pushBack .scheduler current_fiber
  else s

def waitForAddress (x : FiberLocalStorage A) (wait_address : A) (absolute_timeout : BitVec 64) :
    FiberLocalStorage A :=
  { x with
    waitable_object := some .WaitAddressArbiter, wait_address := some wait_address,
    fiber_state := .Waiting, timeout := absolute_timeout }

def endWait (s : UserScheduler F A) (f : F) : Option (UserScheduler F A) :=
  match (s.fiber f).waitable_object with
  | none => none
  | some _ => some (s.endFiberWaitImpl f .Success)

def releaseWaiters (stop : Node F) (count : BitVec 32) :
    ℕ → UserScheduler F A → BitVec 32 → Node F → Option (UserScheduler F A)
  | 0, _, _, _ => none
  | fuel + 1, s, i, iter =>
    if iter = stop then some s
    else if count < i then some s
    else
      match iter with
      | .inl _ => none
      | .inr waiting_fiber => do
        let wait_list_iter := s.links.next iter
        let s ← (s.unlink waiting_fiber).endWait waiting_fiber
        releaseWaiters stop count fuel s (i + 1) wait_list_iter

def releaseWaitersInPlace (stop : Node F) (count : BitVec 32) :
    ℕ → UserScheduler F A → BitVec 32 → Node F → Option (UserScheduler F A)
  | 0, _, _, _ => none
  | fuel + 1, s, i, iter =>
    if iter = stop then some s
    else if count < i then some s
    else
      match iter with
      | .inl _ => none
      | .inr waiting_fiber => do
        let s ← (s.unlink waiting_fiber).endWait waiting_fiber
        releaseWaitersInPlace stop count fuel s (i + 1) (s.links.next iter)

def transferWaitList (fuel : ℕ) (s : UserScheduler F A) (address_fiber : F) :
    Option (UserScheduler F A) :=
  if !s.isEmpty (.of address_fiber) then
    (s.promote fuel address_fiber).map fun (next_address_parent, s) =>
      s.pushBack .scheduler next_address_parent
  else some s

def listCount (links : Links (Node F)) (stop : Node F) : ℕ → Node F → Option ℕ
  | 0, _ => none
  | fuel + 1, iter =>
    if iter = stop then some 0 else (listCount links stop fuel (links.next iter)).map (· + 1)

variable [DecidableEq A]

def joinAddress (s : UserScheduler F A) (fuel : ℕ) (wait_address : A) (current_fiber : F) :
    Option (UserScheduler F A) :=
  (s.findWaitAddress fuel wait_address).map fun address_fiber =>
    match address_fiber with
    | none => s.pushBack .scheduler current_fiber
    | some address_fiber => s.pushBack (.of address_fiber) current_fiber

def waitForAddressIfEqualImpl (fuel : ℕ) (s : UserScheduler F A) (current_fiber : F)
    (wait_address : Option A) (value : BitVec 32) (absolute_timeout : BitVec 64) :
    Option (Except Result (Result × UserScheduler F A)) :=
  match wait_address with
  | none => some (.error .InvalidAddress)
  | some wait_address =>
    if s.word wait_address ≠ value then some (.ok (.InvalidWaitAddressValue, s))
    else if absolute_timeout.sle 0 then some (.ok (.Timeout, s))
    else do
      let s := s.modify current_fiber (waitForAddress · wait_address absolute_timeout)
      let s ← s.joinAddress fuel wait_address current_fiber
      some (.ok (.Success, s))

def waitForAddressIfLessThanImpl (fuel : ℕ) (s : UserScheduler F A) (current_fiber : F)
    (wait_address : Option A) (value : BitVec 32) (absolute_timeout : BitVec 64)
    (do_decrement : Bool) : Option (Except Result (Result × UserScheduler F A)) :=
  match wait_address with
  | none => some (.error .InvalidAddress)
  | some wait_address =>
    let wait_value := s.word wait_address
    let s := if do_decrement then s.setWord wait_address (wait_value - 1) else s
    if wait_value ≥ value then some (.ok (.InvalidWaitAddressValue, s))
    else if absolute_timeout.sle 0 then some (.ok (.Timeout, s))
    else do
      let s := s.modify current_fiber (waitForAddress · wait_address absolute_timeout)
      let s ← s.joinAddress fuel wait_address current_fiber
      some (.ok (.Success, s))

def wakeByAddressImpl (fuel : ℕ) (s : UserScheduler F A) (wait_address : Option A)
    (count : BitVec 32) : Option (Except Result (UserScheduler F A)) :=
  match wait_address with
  | none => some (.error .InvalidAddress)
  | some wait_address =>
    if count = 0 then some (.ok s)
    else
      match s.findWaitAddress fuel wait_address with
      | none => none
      | some none => some (.ok s)
      | some (some address_fiber) => do
        let s ← s.endWait address_fiber
        let s ← s.releaseWaiters (.inl (.of address_fiber)) count fuel 1
          (s.links.next (.inl (.of address_fiber)))
        let s ← s.transferWaitList fuel address_fiber
        some (.ok s)

def wakeByAddressIncrementEqualImpl (fuel : ℕ) (s : UserScheduler F A) (wait_address : Option A)
    (value count : BitVec 32) : Option (Except Result (UserScheduler F A)) :=
  match wait_address with
  | none => some (.error .InvalidAddress)
  | some wait_address =>
    if s.word wait_address ≠ value then some (.error .InvalidWaitAddressValue)
    else
      let s := s.setWord wait_address (value + 1)
      match s.findWaitAddress fuel wait_address with
      | none => none
      | some none => some (.ok s)
      | some (some address_fiber) => do
        let s ← s.endWait address_fiber
        let s ← s.releaseWaitersInPlace (.inl (.of address_fiber)) count fuel 1
          (s.links.next (.inl (.of address_fiber)))
        let s ← s.transferWaitList fuel address_fiber
        some (.ok s)

def signalValue (fuel : ℕ) (s : UserScheduler F A) (address_fiber : Option F) (count : BitVec 32) :
    Option (BitVec 32) :=
  match address_fiber with
  | none => some 1
  | some address_fiber =>
    if 0 < count then
      (listCount s.links (.inl (.of address_fiber)) fuel
          (s.links.next (.inl (.of address_fiber)))).map fun i =>
        if i < count.toNat then -1 else 0
    else some (-1)

def wakeByAddressModifyLessThanImpl (fuel : ℕ) (s : UserScheduler F A) (wait_address : Option A)
    (value count : BitVec 32) : Option (Except Result (UserScheduler F A)) :=
  match wait_address with
  | none => some (.error .InvalidAddress)
  | some wait_address =>
    if s.word wait_address ≠ value then some (.error .InvalidWaitAddressValue)
    else
      (s.findWaitAddress fuel wait_address).bind fun address_fiber =>
        (s.signalValue fuel address_fiber count).bind fun signal =>
          let s := s.setWord wait_address (value + signal)
          match address_fiber with
          | none => none
          | some address_fiber => do
            let s ← s.endWait address_fiber
            let s ← s.releaseWaiters (.inl (.of address_fiber)) count fuel 1
              (s.links.next (.inl (.of address_fiber)))
            let s ← s.transferWaitList fuel address_fiber
            some (.ok s)

end Awn.Ukern.UserScheduler
