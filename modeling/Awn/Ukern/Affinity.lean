import Awn.PriorityQueue.Queue
import Awn.RingBuffer.Ring
import Awn.Ukern.Fiber

/-!
Where a runnable fiber stands and on which core it runs: the thread queue, the ring of each core,
the checks of core ids and core masks, and the choice of the next fiber. Each call is one step, as it
is under the scheduler's lock; `none` stands for a failed assertion, an index past a table or a shift
that C++ leaves undefined.
-/

namespace Awn.Ukern.Affinity

def cMaxThreadCount : ℕ := 256

def cMaxCoreCount : ℕ := 64

def cWindowsToUKernPriorityOffset : ℤ := 2

def cPriorityNormal : ℤ := 0

def cDefaultCoreId : BitVec 32 := 0xfffffffe

def cDefaultCoreIdMask : BitVec 32 := 1

def shiftInt (x : BitVec 32) (count : ℕ) : Option (BitVec 64) :=
  if count < 32 then some ((x <<< count).signExtend 64) else none

def cores (core_mask : BitVec 64) : List ℕ := (List.range 64).filter core_mask.getLsbD

def CountOneBits64 (value : BitVec 64) : ℕ := (cores value).length

def CountRightZeroBits64 (value : BitVec 64) : ℕ := (cores value).head?.getD 64

structure Fiber where
  priority : ℤ := 0
  current_core : ℕ := 0
  core_mask : BitVec 64 := 0
  activity_level : ActivityLevel := .Suspended
  fiber_state : FiberState := .Unscheduled
  deriving DecidableEq

inductive ThreadResult
  | Success | InvalidThreadFunctionPointer | InvalidStackSize | InvalidPriority | InvalidCoreId
  | ThreadStorageExhaustion | HandleExhaustion | InvalidHandle | SamePriority | InvalidCoreMask
  | SameCoreMask | SameActivityLevel
  deriving DecidableEq

structure State (F : Type*) where
  fiber : F → Fiber
  scheduler_local_ring_table : ℕ → RingBuffer F
  thread_queue : List F
  core_mask : BitVec 64
  core_count : ℕ
  runnable_fibers : BitVec 32
  /-- The slots of the allocator that are taken. -/
  allocated : F → Bool
  /-- The fibers that a handle stands for. -/
  registered : F → Bool
  /-- The fiber that the thread of a core runs; none while it runs the scheduler's own. -/
  running : ℕ → Option F
  /-- The thread of core 0 has been in the scheduler's fiber. -/
  entered : Bool

variable {F : Type*} [DecidableEq F]

namespace State

def modify (s : State F) (f : F) (g : Fiber → Fiber) : State F :=
  { s with fiber := Function.update s.fiber f (g (s.fiber f)) }

def setRing (s : State F) (core : ℕ) (ring : RingBuffer F) : State F :=
  { s with
    scheduler_local_ring_table := Function.update s.scheduler_local_ring_table core ring }

def initialized (core_count : ℕ) (main_fiber : F) : Option (State F) :=
  (shiftInt (~~~1) core_count).map fun shifted =>
    { fiber := Function.update (fun _ => { }) main_fiber
        { priority := cPriorityNormal, current_core := 0, core_mask := 1,
          activity_level := .Schedulable, fiber_state := .Running }
      scheduler_local_ring_table := fun _ => RingBuffer.empty
      thread_queue := []
      core_mask := ~~~shifted
      core_count := core_count
      runnable_fibers := 0
      allocated := fun f => f = main_fiber
      registered := fun f => f = main_fiber
      running := Function.update (fun _ => none) 0 (some main_fiber)
      entered := false }

def queueInsert (s : State F) (f : F) : Option (State F) :=
  if s.thread_queue.length < cMaxThreadCount then
    some { s with
      thread_queue := PriorityQueue.insert (fun f => (s.fiber f).priority) s.thread_queue f }
  else none

def queueRemove (s : State F) (f : F) : Option (State F) :=
  if s.thread_queue.idxOf f < s.thread_queue.length then
    some { s with
      thread_queue := PriorityQueue.remove (fun f => (s.fiber f).priority) s.thread_queue
        (s.thread_queue.idxOf f) }
  else none

def ringRemove (s : State F) (core : ℕ) (f : F) : Option (State F) :=
  if core < cMaxCoreCount then
    ((s.scheduler_local_ring_table core).remove cMaxThreadCount f).map (s.setRing core)
  else none

def leave (s : State F) (f : F) : Option (State F) :=
  if (s.fiber f).fiber_state = .ScheduledLocal then s.ringRemove (s.fiber f).current_core f
  else if (s.fiber f).fiber_state = .Scheduled then s.queueRemove f
  else some { s with runnable_fibers := s.runnable_fibers + 1 }

def addToSchedulerUnsafe (s : State F) (f : F) : Option (State F) :=
  if (s.fiber f).fiber_state = .Waiting then some s
  else if (s.fiber f).activity_level = .Suspended then
    some (s.modify f fun x => { x with fiber_state := .Suspended })
  else do
    let s ← s.leave f
    let s ← s.queueInsert f
    some (s.modify f fun x => { x with fiber_state := .Scheduled })

def endFiberWaitImpl (s : State F) (wait_fiber : F) : Option (State F) :=
  (s.modify wait_fiber fun x => { x with fiber_state := .Unscheduled }).addToSchedulerUnsafe
    wait_fiber

def createThreadImpl (s : State F) (slot : Option F) (reserved : Bool)
    (thread_func stack_size : BitVec 64) (priority : ℤ) (core_id : BitVec 32) :
    Option (ThreadResult × State F) :=
  if thread_func = 0 then some (.InvalidThreadFunctionPointer, s)
  else if stack_size = 0 then some (.InvalidStackSize, s)
  else if ¬(-2 ≤ priority ∧ priority ≤ 2) then some (.InvalidPriority, s)
  else
    (if core_id = cDefaultCoreId then some true
      else (shiftInt 1 core_id.toNat).map fun bit => decide (bit &&& s.core_mask ≠ 0)).map
    fun valid =>
      if !valid then (.InvalidCoreId, s)
      else
        match slot with
        | none => (.ThreadStorageExhaustion, s)
        | some fiber_local =>
          let s := { s with allocated := Function.update s.allocated fiber_local true }
          if !reserved then (.HandleExhaustion, s.modify fiber_local fun _ => { })
          else
            -- The conditional is unsigned: its `int` branch is not sign-extended.
            let core_mask :=
              if core_id = cDefaultCoreId then cDefaultCoreIdMask
              else (1 : BitVec 32) <<< core_id.toNat
            let s := { s with registered := Function.update s.registered fiber_local true }
            (.Success, s.modify fiber_local fun _ =>
              { priority := priority + cWindowsToUKernPriorityOffset
                core_mask := core_mask.zeroExtend 64
                fiber_state := .Suspended
                activity_level := .Suspended })

def reschedule (s : State F) (f : F) (g : Fiber → Fiber) : Option (ThreadResult × State F) :=
  ((s.modify f g).addToSchedulerUnsafe f).map fun s => (.Success, s)

def setPriorityImpl (s : State F) (fiber_local : Option F) (priority : ℤ) :
    Option (ThreadResult × State F) :=
  if -2 ≤ priority ∧ priority ≤ 2 then some (.InvalidPriority, s)
  else
    match fiber_local with
    | none => some (.InvalidHandle, s)
    | some f =>
      if (s.fiber f).priority = priority then some (.SamePriority, s)
      else s.reschedule f fun x => { x with priority := priority }

def setCoreMaskImpl (s : State F) (fiber_local : Option F) (core_mask : BitVec 64) :
    Option (ThreadResult × State F) :=
  if core_mask &&& ~~~s.core_mask ≠ 0 then some (.InvalidCoreMask, s)
  else
    match fiber_local with
    | none => some (.InvalidHandle, s)
    | some f =>
      if (s.fiber f).core_mask = core_mask then some (.SameCoreMask, s)
      else s.reschedule f fun x => { x with core_mask := core_mask }

def setActivityImpl (s : State F) (fiber_local : Option F) (activity_level : ActivityLevel) :
    Option (ThreadResult × State F) :=
  match fiber_local with
  | none => some (.InvalidHandle, s)
  | some f =>
    if (s.fiber f).activity_level = activity_level then some (.SameActivityLevel, s)
    else s.reschedule f fun x => { x with activity_level := activity_level }

end State

structure Rank where
  ring_buffer : Option ℕ := none
  found_core : ℕ := 0
  min_used_count : ℕ := 0xffffffff

def rankCores (used_count : ℕ → ℕ) : ℕ → BitVec 64 → Rank → Option Rank
  | 0, _, rank => some rank
  | i + 1, core_mask, rank =>
    let other_core := CountRightZeroBits64 core_mask
    if cMaxCoreCount ≤ other_core then none
    else
      let rank :=
        if used_count other_core < rank.min_used_count then
          ⟨some other_core, other_core, used_count other_core⟩
        else rank
      (shiftInt (~~~1) other_core).bind fun shifted =>
        rankCores used_count i (core_mask &&& shifted) rank

def rank (used_count : ℕ → ℕ) (core_mask : BitVec 64) : Option ℕ :=
  (rankCores used_count (CountOneBits64 core_mask) core_mask { }).bind fun rank =>
    rank.ring_buffer.map fun _ => rank.found_core

def onlyCore (core_mask : BitVec 64) : Option Bool :=
  if CountOneBits64 core_mask = 1 then
    (shiftInt 1 (CountRightZeroBits64 core_mask)).map fun bit => decide (core_mask &&& bit ≠ 0)
  else some false

def currentCore (x : Fiber) (core_number : ℕ) : Option Bool :=
  if x.current_core = core_number then
    (shiftInt 1 core_number).map fun bit => decide (x.core_mask &&& bit ≠ 0)
  else some false

def keeps (x : Fiber) (core_number : ℕ) : Option Bool :=
  (onlyCore x.core_mask).bind fun only => if only then some true else currentCore x core_number

namespace State

def moveToRing (s : State F) (fiber : F) : Option (State F) :=
  (rank (fun core => (s.scheduler_local_ring_table core).m_count) (s.fiber fiber).core_mask).bind
    fun found_core =>
      ((s.scheduler_local_ring_table found_core).insert cMaxThreadCount fiber).map fun ring =>
        (s.modify fiber fun x =>
          { x with fiber_state := .ScheduledLocal, current_core := found_core }).setRing
            found_core ring

def acquireFiber (core_number : ℕ) : ℕ → State F → Option (State F × Option F)
  | 0, s => if s.thread_queue = [] then some (s, none) else none
  | turns + 1, s =>
    match PriorityQueue.removeFront (fun f => (s.fiber f).priority) s.thread_queue with
    | none => some (s, none)
    | some (fiber, thread_queue) =>
      let s := { s with thread_queue := thread_queue }
      (keeps (s.fiber fiber) core_number).bind fun kept =>
        if kept then some (s, some fiber)
        else (s.moveToRing fiber).bind (acquireFiber core_number turns)

def dispatch (s : State F) (fiber_local : F) (core_number : ℕ) : Option (State F) :=
  if core_number < s.core_count then
    let s := s.modify fiber_local fun x =>
      { x with fiber_state := .Running, current_core := core_number }
    some { s with
      runnable_fibers := s.runnable_fibers - 1
      running := Function.update s.running core_number (some fiber_local) }
  else none

def ringFront (s : State F) (core_number : ℕ) : Option F × State F :=
  let ring := s.scheduler_local_ring_table core_number
  if ring.m_count = 0 then (none, s)
  else
    let front := ring.removeFront cMaxThreadCount
    (front.1, s.setRing core_number front.2)

def chooseFiber (s : State F) (core_number : ℕ) : Option (State F × Option F) :=
  match s.ringFront core_number with
  | (some fiber, s) => some (s, some fiber)
  | (none, s) => s.acquireFiber core_number s.thread_queue.length

def schedule (s : State F) (core_number : ℕ) : Option (State F × Option F) := do
  let (s, fiber) ← s.chooseFiber core_number
  match fiber with
  | none => some (s, none)
  | some fiber_local =>
    let s ← s.dispatch fiber_local core_number
    some (s, some fiber_local)

def handlePrevious (s : State F) (fiber_local : F) (core_number : ℕ) : Option (State F) :=
  let s := { s with running := Function.update s.running core_number none }
  if core_number = (s.fiber fiber_local).current_core then
    match (s.fiber fiber_local).fiber_state with
    | .Running => s.addToSchedulerUnsafe fiber_local
    | .Exiting =>
      some { s with
        allocated := Function.update s.allocated fiber_local false
        registered := Function.update s.registered fiber_local false }
    | .Waiting => some s
    | _ => none
  else none

def enter (s : State F) (main_fiber : F) : Option (State F) :=
  let s := { s with running := Function.update s.running 0 none, entered := true }
  if (s.fiber main_fiber).fiber_state ≠ .Waiting then s.addToSchedulerUnsafe main_fiber else some s

end State

end Awn.Ukern.Affinity
