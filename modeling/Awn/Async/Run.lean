import Awn.Async.Queue
import Awn.LevelQueue.Layout

/-!
The runs of a queue with its threads: the calls that the threads and anybody else make, one step
each. Beside the queue stand the levels that the tasks were pushed to or moved to, in the order of
their coming.
-/

namespace Awn.Async

variable {K T : Type*} [DecidableEq K] [DecidableEq T]

inductive Place (K : Type*)
  | waiting
  | acquiring
  | executing (n : Node K)
  | ending

structure State (K T : Type*) where
  queue : AsyncQueue K T
  place : T → Place K
  levels : ℕ → List K
  /-- The level that a task was last put in. -/
  level : K → ℕ
  /-- A task has been pushed. -/
  pushed : Bool

inductive Event (K T : Type*)
  | start (w : T)
  | push (caller : Option T) (t : K) (push_info : AsyncTaskPushInfo)
  | acquire (w : T)
  | postExecute (w : T)
  | complete (w : T)
  | finish (w : T)
  | postExecuteSync (t : K)
  | completeSync (t : K)
  | cancelTask (t : K)
  | cancelPriorityLevel (priority : ℕ)
  | changePriority (t : K) (new_priority : ℕ)

namespace State

def started (priority_level_count : ℕ) (is_paused : ℕ → Bool) (task_thread_array : List T)
    (behind : AsyncTask T) : State K T where
  queue := AsyncQueue.initialized priority_level_count is_paused task_thread_array behind
  place _ := .waiting
  levels _ := []
  level _ := 0
  pushed := false

def goto (s : State K T) (w : T) (place : Place K) : State K T :=
  { s with place := Function.update s.place w place }

def afterPush (s : State K T) (t : K) (priority : ℕ) : AsyncQueue.Pushed → State K T
  | .Queued =>
    { s with
      levels := LevelQueue.push s.levels priority t
      level := Function.update s.level t priority
      pushed := true }
  | _ => s

def afterAcquire (s : State K T) (w : T) : Option (Node K) → State K T
  | some (.inr t) => { s with levels := LevelQueue.remove s.levels t }.goto w (.executing (.inr t))
  | some n => s.goto w (.executing n)
  | none => s.goto w .ending

open Classical in
noncomputable def afterChange (s : State K T) (t : K) (new_priority : ℕ) : State K T :=
  { s with
    levels := LevelQueue.move s.levels new_priority t
    level :=
      if ∃ i, t ∈ s.levels i then Function.update s.level t new_priority else s.level }

end State

inductive Step : State K T → Event K T → State K T → Prop
  | start {s : State K T} {w : T} :
      w ∈ s.queue.task_thread_array → s.place w = .waiting →
        Step s (.start w) ({ s with queue := s.queue.setFinished w false }.goto w .acquiring)
  | push {s : State K T} {caller : Option T} {t : K} {push_info : AsyncTaskPushInfo}
      {pushed : AsyncQueue.Pushed} {q : AsyncQueue K T} :
      s.queue.pushTask caller t push_info = some (pushed, q) →
        Step s (.push caller t push_info)
          ({ s with queue := q }.afterPush t push_info.priority pushed)
  | acquire {s : State K T} {w : T} {task : Option (Node K)} {q : AsyncQueue K T} :
      s.place w = .acquiring → s.queue.acquireNextTask w = (task, q) →
        Step s (.acquire w) ({ s with queue := q }.afterAcquire w task)
  | postExecute {s : State K T} {w : T} {n : Node K} :
      s.place w = .executing n →
        Step s (.postExecute w)
          { s with queue := s.queue.modifyTask n fun x => { x with status := .PostExecute } }
  | complete {s : State K T} {w : T} {n : Node K} {is_rescheduled : Bool} {place : Place K} :
      s.place w = .executing n → place = .acquiring ∨ place = .ending →
        Step s (.complete w)
          ({ s with queue := s.queue.completeTask n is_rescheduled }.goto w place)
  | finish {s : State K T} {w : T} :
      s.place w = .ending →
        Step s (.finish w) ({ s with queue := s.queue.setFinished w true }.goto w .waiting)
  | postExecuteSync {s : State K T} {t : K} :
      (s.queue.task (.inr t)).status = .Queued → s.queue.task_list.isLinked (.inr t) = false →
        Step s (.postExecuteSync t)
          { s with queue := s.queue.modifyTask (.inr t) fun x => { x with status := .PostExecute } }
  | completeSync {s : State K T} {t : K} :
      (s.queue.task (.inr t)).status = .PostExecute →
        Step s (.completeSync t) { s with queue := s.queue.invokeFreeExecute (.inr t) }
  | cancelTask {s : State K T} {t : K} {q : AsyncQueue K T} :
      s.queue.cancelTask t = some q →
        Step s (.cancelTask t)
          { s with
            queue := q
            levels :=
              if (s.queue.task (.inr t)).status = .Queued then LevelQueue.remove s.levels t
              else s.levels }
  | cancelPriorityLevel {s : State K T} {fuel priority : ℕ} {q : AsyncQueue K T} :
      s.queue.cancelPriorityLevel fuel priority = some q →
        Step s (.cancelPriorityLevel priority)
          { s with queue := q, levels := LevelQueue.clear s.levels priority }
  | changePriority {s : State K T} {t : K} {new_priority : ℕ} {q : AsyncQueue K T} :
      s.queue.changePriority t new_priority = some q →
        Step s (.changePriority t new_priority)
          ({ s with queue := q }.afterChange t new_priority)

inductive Reachable (priority_level_count : ℕ) (is_paused : ℕ → Bool) (task_thread_array : List T)
    (behind : AsyncTask T) (P : State K T → Event K T → Prop) : State K T → Prop
  | start :
      Reachable priority_level_count is_paused task_thread_array behind P
        (State.started priority_level_count is_paused task_thread_array behind)
  | step {s s' : State K T} {e : Event K T} :
      Reachable priority_level_count is_paused task_thread_array behind P s → P s e →
        Step s e s' →
          Reachable priority_level_count is_paused task_thread_array behind P s'

end Awn.Async
