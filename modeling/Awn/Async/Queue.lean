import Awn.DependencyJob.Queue
import Awn.IntrusiveList.Insert

/-!
`AsyncQueue`: the tasks of all priority levels stand in one intrusive list with a pointer per level.
Each call is one step; `none` stands for a failed assertion, or for a loop that has not ended. The
messages that wake the threads and the functions that the tasks are given are not part of the state:
a thread can start its loop at any time, and what the functions do to the queue are further calls.
-/

namespace Awn.Async

open DependencyJob (pointerAt)

inductive Status
  | Uninitialized | Cancelled | ForceCancelled | Queued | Acquired | FreeExecute | PostExecute
  | Complete
  deriving DecidableEq

abbrev Node (K : Type*) := Unit ⊕ K

def listEnd {K : Type*} : Node K := .inl ()

structure AsyncTask (T : Type*) where
  priority : ℕ := 0
  is_signal_finish_event : Bool := false
  is_cancelled : Bool := false
  is_free_for_allocator : Bool := false
  status : Status := .Uninitialized
  queue : Bool := false
  queue_thread : Option T := none
  finish_event : Bool := false

structure AsyncTaskPushInfo where
  priority : ℕ
  is_sync : Bool
  is_skip_finish_event : Bool

structure PriorityLevel (K : Type*) where
  is_paused : Bool
  async_task_head : Option (Node K)
  priority_cleared_event : Bool

structure AsyncQueueThread (K : Type*) where
  is_finished : Bool
  current_task : Option (Node K)

structure AsyncQueue (K T : Type*) where
  /-- Behind the head of the list there is no task: what is read there as one is any value. -/
  task : Node K → AsyncTask T
  task_list : Links (Node K)
  task_count : BitVec 32
  priority_level_count : ℕ
  priority_level_array : ℕ → PriorityLevel K
  task_thread_array : List T
  queue_thread : T → AsyncQueueThread K
  all_task_complete_event : Bool

namespace AsyncQueue

variable {K T : Type*} [DecidableEq K] [DecidableEq T]

def initialized (priority_level_count : ℕ) (is_paused : ℕ → Bool) (task_thread_array : List T)
    (behind : AsyncTask T) : AsyncQueue K T where
  task
    | .inl _ => behind
    | .inr _ => { }
  task_list := Links.alone
  task_count := 0
  priority_level_count := priority_level_count
  priority_level_array i := ⟨is_paused i, none, true⟩
  task_thread_array := task_thread_array
  queue_thread _ := ⟨true, none⟩
  all_task_complete_event := false

def modifyTask (q : AsyncQueue K T) (n : Node K) (f : AsyncTask T → AsyncTask T) :
    AsyncQueue K T :=
  { q with task := Function.update q.task n (f (q.task n)) }

def modifyLevel (q : AsyncQueue K T) (i : ℕ) (f : PriorityLevel K → PriorityLevel K) :
    AsyncQueue K T :=
  { q with
    priority_level_array := Function.update q.priority_level_array i
      (f (q.priority_level_array i)) }

def setHead (q : AsyncQueue K T) (i : ℕ) (head : Option (Node K)) : AsyncQueue K T :=
  q.modifyLevel i fun x => { x with async_task_head := head }

def setCurrentTask (q : AsyncQueue K T) (w : T) (task : Option (Node K)) : AsyncQueue K T :=
  { q with
    queue_thread := Function.update q.queue_thread w
      { q.queue_thread w with current_task := task } }

def unlink (q : AsyncQueue K T) (n : Node K) : AsyncQueue K T :=
  { q with task_list := q.task_list.unlink n }

def nextHead (q : AsyncQueue K T) (n : Node K) (priority : ℕ) : Option (Node K) :=
  let new_head := q.task_list.next n
  if new_head = listEnd ∨ (q.task new_head).priority ≠ priority then none else some new_head

def isAllFinished (q : AsyncQueue K T) : Bool :=
  q.task_thread_array.all fun w => (q.queue_thread w).is_finished

def updateAllTaskCompletion (q : AsyncQueue K T) : Bool × AsyncQueue K T :=
  if q.isAllFinished then (true, { q with all_task_complete_event := true }) else (false, q)

def hasThreadOf (q : AsyncQueue K T) (priority : ℕ) : Bool :=
  q.task_thread_array.any fun w =>
    match (q.queue_thread w).current_task with
    | none => false
    | some n => (q.task n).priority = priority

def updatePriorityLevelCompletion (q : AsyncQueue K T) : AsyncQueue K T :=
  { q with
    priority_level_array := fun i =>
      let level := q.priority_level_array i
      if i < q.priority_level_count ∧ q.hasThreadOf i = false ∧ level.async_task_head = none then
        { level with priority_cleared_event := true }
      else level }

def updateCompletion (q : AsyncQueue K T) : AsyncQueue K T :=
  q.updateAllTaskCompletion.2.updatePriorityLevelCompletion

def lowerHead (q : AsyncQueue K T) : ℕ → Option (Node K)
  | 0 => none
  | priority + 1 =>
    match (q.priority_level_array priority).async_task_head with
    | some head => some head
    | none => q.lowerHead priority

def link (q : AsyncQueue K T) (n : Node K) (priority : ℕ) : Option (AsyncQueue K T) :=
  match q.lowerHead priority with
  | none =>
    if priority < q.priority_level_count then
      some ({ q with task_list := q.task_list.linkPrev listEnd n }.modifyLevel priority fun x =>
        { x with priority_cleared_event := false })
    else none
  | some head => some { q with task_list := q.task_list.linkNext head n }

def fillHead (q : AsyncQueue K T) (n : Node K) (priority : ℕ) : Option (AsyncQueue K T) :=
  if priority < q.priority_level_count then
    if (q.priority_level_array priority).async_task_head = none then
      some (q.setHead priority (some n))
    else some q
  else none

def isQueueThread (q : AsyncQueue K T) (caller : Option T) : Bool :=
  (List.range q.task_thread_array.length).any fun i =>
    (pointerAt q.task_thread_array i).isSome && pointerAt q.task_thread_array i = caller

inductive Pushed
  | AlreadyQueued | InvalidPriority | InvokedSync | Queued
  deriving DecidableEq

def pushTask (q : AsyncQueue K T) (caller : Option T) (t : K) (push_info : AsyncTaskPushInfo) :
    Option (Pushed × AsyncQueue K T) :=
  if q.task_list.isLinked (.inr t) then some (.AlreadyQueued, q)
  else if ¬push_info.priority ≤ q.priority_level_count then some (.InvalidPriority, q)
  else
    let q := q.modifyTask (.inr t) fun x =>
      { x with
        queue := true
        is_signal_finish_event := push_info.is_sync || !push_info.is_skip_finish_event }
    if push_info.is_sync && q.isQueueThread caller then
      some (.InvokedSync, q.modifyTask (.inr t) fun x =>
        { x with queue_thread := caller, status := .Queued })
    else
      (q.link (.inr t) push_info.priority).bind fun q =>
        let q := { q with task_count := q.task_count + 1 }
        (q.fillHead (.inr t) push_info.priority).map fun q =>
          let q := q.modifyTask (.inr t) fun x => { x with status := .Queued }
          (.Queued, if q.task_count = 1 then { q with all_task_complete_event := false } else q)

def findNextTask (q : AsyncQueue K T) : ℕ → Option (ℕ × Node K)
  | 0 => none
  | i + 1 =>
    if (q.priority_level_array i).is_paused then q.findNextTask i
    else
      match (q.priority_level_array i).async_task_head with
      | none => q.findNextTask i
      | some next_task => some (i, next_task)

def takeTask (q : AsyncQueue K T) (w : T) (i : ℕ) (next_task : Node K) : AsyncQueue K T :=
  let q := (q.setHead i (q.nextHead next_task i)).unlink next_task
  let q := { q with task_count := q.task_count - 1 }
  let q := q.modifyTask next_task fun x => { x with status := .Acquired, queue_thread := some w }
  q.setCurrentTask w (some next_task)

def searchTask (q : AsyncQueue K T) (w : T) : Option (Node K) × AsyncQueue K T :=
  match q.findNextTask q.priority_level_count with
  | none => (none, q.setCurrentTask w none)
  | some (i, next_task) => (some next_task, q.takeTask w i next_task)

def acquireNextTask (q : AsyncQueue K T) (w : T) : Option (Node K) × AsyncQueue K T :=
  if q.task_count = 0 then
    let (is_all_finished, q) := q.updateAllTaskCompletion
    if is_all_finished then (none, q.setCurrentTask w none) else q.searchTask w
  else q.searchTask w

def cancel (q : AsyncQueue K T) (n : Node K) : AsyncQueue K T :=
  q.modifyTask n fun x =>
    { x with
      queue_thread := none
      status := .Cancelled
      is_cancelled := if x.is_signal_finish_event then false else x.is_cancelled
      finish_event := x.is_signal_finish_event || x.finish_event
      is_free_for_allocator := true }

def cancelWhileActive (q : AsyncQueue K T) (n : Node K) : AsyncQueue K T :=
  q.modifyTask n fun x =>
    { x with finish_event := false, is_signal_finish_event := true, is_cancelled := true }

def cancelTask (q : AsyncQueue K T) (t : K) : Option (AsyncQueue K T) :=
  match (q.task (.inr t)).status with
  | .Complete | .Uninitialized | .Cancelled => some q
  | .Queued =>
    let priority := (q.task (.inr t)).priority
    if priority < q.priority_level_count then
      let q :=
        if (q.priority_level_array priority).async_task_head = some (.inr t) then
          q.setHead priority (q.nextHead (.inr t) priority)
        else q
      some ((q.unlink (.inr t)).cancel (.inr t)).updateCompletion
    else none
  | _ => some (q.cancelWhileActive (.inr t))

def cancelFrom (priority : ℕ) : ℕ → Node K → AsyncQueue K T → Option (AsyncQueue K T)
  | 0, _, _ => none
  | fuel + 1, n, q =>
    if n ≠ listEnd ∧ (q.task n).priority = priority then
      let next := q.task_list.next n
      let q := { q.unlink n with task_count := q.task_count - 1 }
      cancelFrom priority fuel next (q.cancel n)
    else some q

def cancelThreadPriorityLevel (q : AsyncQueue K T) (priority : ℕ) : AsyncQueue K T :=
  q.task_thread_array.foldl (fun q w =>
    match (q.queue_thread w).current_task with
    | none => q
    | some n => if (q.task n).priority ≠ priority then q else q.cancelWhileActive n) q

def cancelLevelTasks (q : AsyncQueue K T) (fuel priority : ℕ) : Option (AsyncQueue K T) :=
  match (q.priority_level_array priority).async_task_head with
  | none => some q
  | some head => cancelFrom priority fuel head q

def cancelPriorityLevel (q : AsyncQueue K T) (fuel priority : ℕ) : Option (AsyncQueue K T) :=
  if priority < q.priority_level_count then
    (q.cancelLevelTasks fuel priority).map fun q =>
      let q := q.setHead priority none
      let q :=
        if q.hasThreadOf priority then
          q.modifyLevel priority fun x => { x with priority_cleared_event := false }
        else q
      q.updateCompletion.cancelThreadPriorityLevel priority
  else none

def takeOut (q : AsyncQueue K T) (t : K) (last_priority : ℕ) : AsyncQueue K T :=
  let next_task := q.task_list.next (.inr t)
  let next_head :=
    if q.task_list.isLinked (.inr t) ∧ (q.task next_task).priority = last_priority then
      some next_task
    else none
  let q :=
    if (q.priority_level_array last_priority).async_task_head = some (.inr t) then
      q.setHead last_priority next_head
    else q
  q.unlink (.inr t)

def clampPriority (q : AsyncQueue K T) (new_priority : ℕ) : ℕ :=
  if q.priority_level_count < new_priority then q.priority_level_count else new_priority

def changePriority (q : AsyncQueue K T) (t : K) (new_priority : ℕ) : Option (AsyncQueue K T) :=
  if (q.task (.inr t)).queue = false then some q
  else
    let last_priority := (q.task (.inr t)).priority
    let priority_clamp := q.clampPriority new_priority
    if priority_clamp = last_priority then some q
    else if last_priority < q.priority_level_count then
      ((q.takeOut t last_priority).link (.inr t) priority_clamp).bind fun q =>
        q.fillHead (.inr t) priority_clamp
    else none

def invokeFreeExecute (q : AsyncQueue K T) (n : Node K) : AsyncQueue K T :=
  q.modifyTask n fun x =>
    { x with
      status := .Complete
      is_cancelled := if x.is_signal_finish_event then false else x.is_cancelled
      finish_event := x.is_signal_finish_event || x.finish_event
      is_free_for_allocator := true }

def completeTask (q : AsyncQueue K T) (n : Node K) (is_rescheduled : Bool) : AsyncQueue K T :=
  (if is_rescheduled then q else q.invokeFreeExecute n).updateCompletion

def setFinished (q : AsyncQueue K T) (w : T) (is_finished : Bool) : AsyncQueue K T :=
  { q with
    queue_thread := Function.update q.queue_thread w
      { q.queue_thread w with is_finished := is_finished } }

end AsyncQueue

end Awn.Async
