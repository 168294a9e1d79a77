import Awn.PriorityQueue.Queue
import Awn.RingBuffer.Ring

/-!
`DependencyJobQueue`: a graph of jobs, the queue of the jobs that are ready, and what the threads do
with it. `none` stands for a failed assertion.
-/

namespace Awn.DependencyJob

def cJobAnyCore : ℕ := 0x41

def cJobNormalPriority : ℕ := 0x80

def cMaxLocalJobCount : ℕ := 8

structure JobGraphNode where
  core_number : ℕ
  priority : ℕ
  multi_run_count : BitVec 16
  is_multi_run_complete_once : Bool

structure JobRegisterLink where
  parent_register_id : ℕ
  dependent_register_id : ℕ

structure DependencyJobGraph where
  job_node_allocator : List JobGraphNode
  register_link_allocator : List JobRegisterLink

structure DependencyJobQueueInfo where
  max_job_count : BitVec 16
  max_link_count : BitVec 16

inductive Node
  | job (index : ℕ)
  | final
  deriving DecidableEq

structure JobQueueNode where
  core_number : ℕ := 0
  priority : ℕ := 0
  is_multi_run_complete_once : Bool := false
  multi_run_state : BitVec 32 := 0
  parent_count : BitVec 32 := 0
  dependent_list : List Node := []

def JobQueueNode.defaults : JobQueueNode where
  core_number := cJobAnyCore
  priority := cJobNormalPriority
  multi_run_state := 1

inductive NextJob
  | null
  | blocked
  | node (n : Node)
  deriving DecidableEq

structure DependencyJobThreadControl where
  next_job : NextJob
  local_job_ring : RingBuffer Node
  core_number : ℕ
  is_ready_to_exit : Bool

structure DependencyJobQueue (T : Type*) where
  max_job_count : ℕ
  max_link_count : ℕ
  node : Node → JobQueueNode
  used_dependent_link_count : ℕ
  used_job_queue_node_array : List Node
  job_priority_queue : List Node
  thread_control_array : List T
  thread_control : T → DependencyJobThreadControl
  is_ready_to_exit : Bool
  /-- The jobs that can run no more, the latest last. -/
  finished : List Node
  /-- Every node that entered the ready queue, with the jobs that were finished by then. -/
  ready : List (Node × List Node)

def pointerAt {α : Type*} (array : List α) (index : ℕ) : Option α :=
  if index < array.length then array[0]? else none

namespace DependencyJobQueue

variable {T : Type*} [DecidableEq T]

def modify (q : DependencyJobQueue T) (n : Node) (f : JobQueueNode → JobQueueNode) :
    DependencyJobQueue T :=
  { q with node := Function.update q.node n (f (q.node n)) }

def setNextJob (q : DependencyJobQueue T) (t : T) (next_job : NextJob) : DependencyJobQueue T :=
  { q with
    thread_control := Function.update q.thread_control t
      { q.thread_control t with next_job := next_job } }

def initialized (queue_info : DependencyJobQueueInfo) (thread_control_array : List T)
    (core_number : T → ℕ) : DependencyJobQueue T where
  max_job_count := queue_info.max_job_count.toNat
  max_link_count := queue_info.max_link_count.toNat
  node := Function.update (fun _ => { }) .final JobQueueNode.defaults
  used_dependent_link_count := 0
  used_job_queue_node_array := []
  job_priority_queue := []
  thread_control_array := thread_control_array
  thread_control t := ⟨.null, RingBuffer.empty, core_number t, false⟩
  is_ready_to_exit := false
  finished := []
  ready := []

def registerDependency (q : DependencyJobQueue T) (parent dependent : Node) :
    Option (DependencyJobQueue T) :=
  if q.used_dependent_link_count < q.max_link_count then
    let q := { q with used_dependent_link_count := q.used_dependent_link_count + 1 }
    let q := q.modify dependent fun x => { x with parent_count := x.parent_count + 1 }
    some (q.modify parent fun x => { x with dependent_list := x.dependent_list ++ [dependent] })
  else none

def addJobNode (q : DependencyJobQueue T) (index : ℕ) (graph_node : JobGraphNode) :
    Option (DependencyJobQueue T) :=
  if index < q.max_job_count then
    let q := q.modify (.job index) fun x =>
      { x with
        core_number := graph_node.core_number
        priority := graph_node.priority
        multi_run_state :=
          (x.multi_run_state &&& 0xffff0000) ||| graph_node.multi_run_count.zeroExtend 32 }
    (q.registerDependency (.job index) .final).bind fun q =>
      if q.used_job_queue_node_array.length < q.max_job_count then
        some { q with
          used_job_queue_node_array := q.used_job_queue_node_array ++ [.job index] }
      else none
  else none

def addJobNodes : ℕ → List JobGraphNode → DependencyJobQueue T → Option (DependencyJobQueue T)
  | _, [], q => some q
  | index, graph_node :: graph_nodes, q =>
    (q.addJobNode index graph_node).bind (addJobNodes (index + 1) graph_nodes)

def addLinks (base_register_id : ℕ) :
    List JobRegisterLink → DependencyJobQueue T → Option (DependencyJobQueue T)
  | [], q => some q
  | link :: links, q =>
    let parent_index := base_register_id + link.parent_register_id
    let dependent_index := base_register_id + link.dependent_register_id
    if parent_index < q.max_job_count ∧ dependent_index < q.max_job_count then
      (q.registerDependency (.job parent_index) (.job dependent_index)).bind
        (addLinks base_register_id links)
    else none

def buildJobGraph (q : DependencyJobQueue T) (job_graph : DependencyJobGraph) :
    Option (DependencyJobQueue T) :=
  let base_register_id := q.used_job_queue_node_array.length
  (addJobNodes 0 job_graph.job_node_allocator q).bind
    (addLinks base_register_id job_graph.register_link_allocator)

def queueInsert (q : DependencyJobQueue T) (n : Node) : Option (DependencyJobQueue T) :=
  if q.job_priority_queue.length < q.max_job_count then
    some { q with
      job_priority_queue :=
        PriorityQueue.insert (fun n => ((q.node n).priority : ℤ)) q.job_priority_queue n
      ready := q.ready ++ [(n, q.finished)] }
  else none

def setupRunFrom : List ℕ → DependencyJobQueue T → Option (DependencyJobQueue T)
  | [], q => some q
  | i :: rest, q =>
    match pointerAt q.used_job_queue_node_array i with
    | none => none
    | some n =>
      if 0 < (q.node n).parent_count then setupRunFrom rest q
      else (q.queueInsert n).bind (setupRunFrom rest)

def setupRun (q : DependencyJobQueue T) : Option (DependencyJobQueue T) :=
  setupRunFrom (List.range q.used_job_queue_node_array.length) q

def unblock (q : DependencyJobQueue T) (i : ℕ) : DependencyJobQueue T :=
  match pointerAt q.thread_control_array i with
  | none => q
  | some t => if (q.thread_control t).next_job = .blocked then q.setNextJob t .null else q

def setReadyToExit (q : DependencyJobQueue T) : DependencyJobQueue T :=
  (List.range q.thread_control_array.length).foldl unblock { q with is_ready_to_exit := true }

def visitDependents : List Node → DependencyJobQueue T → Option (DependencyJobQueue T)
  | [], q => some q
  | dependent :: rest, q =>
    let last_parent_count := (q.node dependent).parent_count - 1
    let q := q.modify dependent fun x => { x with parent_count := last_parent_count }
    if last_parent_count ≠ 1 then visitDependents rest q
    else (q.queueInsert dependent).bind (visitDependents rest)

def clearDependents (q : DependencyJobQueue T) (queue_node : Node) : DependencyJobQueue T :=
  let q := q.modify queue_node fun x =>
    { x with parent_count := 0xffffffff, dependent_list := [] }
  if queue_node ≠ .final then q else q.setReadyToExit

def removeDependencies (q : DependencyJobQueue T) (queue_node : Node) :
    Option (DependencyJobQueue T) :=
  (visitDependents (q.node queue_node).dependent_list q).map fun q => q.clearDependents queue_node

def forceRemoveForCompleteOnce (q : DependencyJobQueue T) (queue_node : Node) :
    Option (DependencyJobQueue T) :=
  let previous_state := (q.node queue_node).multi_run_state &&& 0xffff0000
  let q := q.modify queue_node fun x => { x with multi_run_state := previous_state }
  if previous_state &&& 0xffff = 0 then some q
  else if queue_node ∈ q.job_priority_queue then
    some { q with
      job_priority_queue := PriorityQueue.remove (fun n => ((q.node n).priority : ℤ))
        q.job_priority_queue (q.job_priority_queue.idxOf queue_node) }
  else none

def finishRun (q : DependencyJobQueue T) (queue_node : Node) :
    Option (BitVec 32 × DependencyJobQueue T) :=
  let x := q.node queue_node
  (if x.is_multi_run_complete_once ∧ x.multi_run_state &&& 0xffff ≠ 0 then
    q.forceRemoveForCompleteOnce queue_node
  else some q).map fun q =>
    let last_run_state := (q.node queue_node).multi_run_state
    (last_run_state, q.modify queue_node fun x =>
      { x with multi_run_state := last_run_state - 0x10000 })

def onJobFinish (q : DependencyJobQueue T) (queue_node : Node) : Option (DependencyJobQueue T) :=
  (q.finishRun queue_node).bind fun (last_run_state, q) =>
    if last_run_state ≠ 0x10000 then some q
    else removeDependencies { q with finished := q.finished ++ [queue_node] } queue_node

def setNextJobFromLocalRing (q : DependencyJobQueue T) (t : T) : DependencyJobQueue T :=
  let front := (q.thread_control t).local_job_ring.removeFront cMaxLocalJobCount
  let next_job := match front.1 with
    | none => NextJob.null
    | some n => .node n
  { q with
    thread_control := Function.update q.thread_control t
      { q.thread_control t with next_job := next_job, local_job_ring := front.2 } }

def insertLocal (q : DependencyJobQueue T) (t : T) (n : Node) : Option (DependencyJobQueue T) :=
  ((q.thread_control t).local_job_ring.insert cMaxLocalJobCount n).map fun ring =>
    { q with
      thread_control := Function.update q.thread_control t
        { q.thread_control t with local_job_ring := ring } }

def queueNextJobByCoreFrom (n : Node) :
    List ℕ → DependencyJobQueue T → Option (DependencyJobQueue T)
  | [], q => some q
  | i :: rest, q =>
    match pointerAt q.thread_control_array i with
    | none => none
    | some t =>
      if (q.thread_control t).core_number ≠ (q.node n).core_number ∧
          (q.thread_control t).is_ready_to_exit = false then
        queueNextJobByCoreFrom n rest q
      else
        match (q.thread_control t).next_job with
        | .node _ => q.insertLocal t n
        | _ => some (q.setNextJob t (.node n))

def queueNextJobByCore (q : DependencyJobQueue T) (n : Node) : Option (DependencyJobQueue T) :=
  queueNextJobByCoreFrom n (List.range q.thread_control_array.length) q

/-- What `ScheduleNextJob` gives: a job or a null pointer, `cRequiresWait` or `cContinue`. -/
inductive Scheduled
  | job (out_queue_node : Option Node)
  | requiresWait
  | goOn
  deriving DecidableEq

def scheduleFromQueue (q : DependencyJobQueue T) (t : T) :
    Option (Scheduled × DependencyJobQueue T) :=
  match q.job_priority_queue with
  | [] => some (.requiresWait, q)
  | next_node :: _ =>
    let previous_state := (q.node next_node).multi_run_state
    let q := q.modify next_node fun x => { x with multi_run_state := previous_state + 0xffff }
    if previous_state &&& 0xffff ≠ 1 then some (.job (some next_node), q)
    else
      (PriorityQueue.removeFront (fun n => ((q.node n).priority : ℤ)) q.job_priority_queue).bind
        fun (_, rest) =>
          let q := { q with job_priority_queue := rest }
          if (q.node next_node).core_number = cJobAnyCore ∨
              (q.node next_node).core_number = (q.thread_control t).core_number then
            some (.job (some next_node), q)
          else (q.queueNextJobByCore next_node).map fun q => (.goOn, q)

def scheduleNextJob (q : DependencyJobQueue T) (t : T) :
    Option (Scheduled × DependencyJobQueue T) :=
  match (q.thread_control t).next_job with
  | .node _ =>
    let q := q.setNextJobFromLocalRing t
    match (q.thread_control t).next_job with
    | .node n => some (.job (some n), q)
    | _ => some (.job none, q)
  | _ => q.scheduleFromQueue t

end DependencyJobQueue

end Awn.DependencyJob

/-!
The threads of a queue, with every part of a call that another thread can see as a step of its own.
`ScheduleNextJob` can be called at any time, and so can the parts of `WaitForJob` and of what wakes a
waiting thread.
-/

namespace Awn.DependencyJob.Threads

variable {T : Type*} [DecidableEq T]

inductive Place
  | seeking
  /-- `ScheduleNextJob` has refilled the slot and not yet read it. -/
  | reading
  | running (n : Node)
  | visiting (n : Node)
  | clearing (n : Node)
  | ended

structure State (T : Type*) where
  queue : DependencyJobQueue T
  place : T → Place
  set_up : Bool

inductive Event (T : Type*)
  | setupRun
  | refill (t : T)
  | read (t : T) (n : Node)
  | readNull (t : T)
  | schedule (t : T) (r : DependencyJobQueue.Scheduled)
  | block (t : T)
  | waitRefill (t : T)
  | unblock (t : T)
  | finish (t : T) (n : Node)
  | visit (t : T) (n : Node)
  | clear (t : T) (n : Node)
  | exit (t : T)

def State.goto (s : State T) (t : T) (place : Place) : State T :=
  { s with place := Function.update s.place t place }

def Scheduled.place : DependencyJobQueue.Scheduled → Place
  | .job (some n) => .running n
  | .job none => .ended
  | _ => .seeking

def afterFinish (q : DependencyJobQueue T) (n : Node) (last_run_state : BitVec 32) :
    DependencyJobQueue T :=
  if last_run_state = 0x10000 then { q with finished := q.finished ++ [n] } else q

inductive Step : State T → Event T → State T → Prop
  | setupRun {s : State T} {q : DependencyJobQueue T} :
      s.set_up = false → s.queue.setupRun = some q →
        Step s .setupRun { s with queue := q, set_up := true }
  | refill {s : State T} {t : T} {n : Node} :
      s.place t = .seeking → (s.queue.thread_control t).next_job = .node n →
        Step s (.refill t) ({ s with queue := s.queue.setNextJobFromLocalRing t }.goto t .reading)
  | read {s : State T} {t : T} {n : Node} :
      s.place t = .reading → (s.queue.thread_control t).next_job = .node n →
        Step s (.read t n) (s.goto t (.running n))
  | readNull {s : State T} {t : T} :
      s.place t = .reading → (s.queue.thread_control t).next_job = .null →
        Step s (.readNull t) (s.goto t .ended)
  | schedule {s : State T} {t : T} {r : DependencyJobQueue.Scheduled} {q : DependencyJobQueue T} :
      s.place t = .seeking → s.queue.scheduleFromQueue t = some (r, q) →
        Step s (.schedule t r) ({ s with queue := q }.goto t (Scheduled.place r))
  | block {s : State T} {t : T} :
      s.place t = .seeking → (s.queue.thread_control t).next_job = .null →
        Step s (.block t) { s with queue := s.queue.setNextJob t .blocked }
  | waitRefill {s : State T} {t : T} :
      s.place t = .seeking →
        Step s (.waitRefill t) { s with queue := s.queue.setNextJobFromLocalRing t }
  | unblock {s : State T} {t : T} :
      (s.queue.thread_control t).next_job = .blocked →
        Step s (.unblock t) { s with queue := s.queue.setNextJob t .null }
  | finish {s : State T} {t : T} {n : Node} {last_run_state : BitVec 32}
      {q : DependencyJobQueue T} :
      s.place t = .running n → s.queue.finishRun n = some (last_run_state, q) →
        Step s (.finish t n)
          ({ s with queue := afterFinish q n last_run_state }.goto t
            (if last_run_state = 0x10000 then .visiting n else .seeking))
  | visit {s : State T} {t : T} {n : Node} {q : DependencyJobQueue T} :
      s.place t = .visiting n →
      s.queue.visitDependents (s.queue.node n).dependent_list = some q →
        Step s (.visit t n) ({ s with queue := q }.goto t (.clearing n))
  | clear {s : State T} {t : T} {n : Node} :
      s.place t = .clearing n →
        Step s (.clear t n) ({ s with queue := s.queue.clearDependents n }.goto t .seeking)
  | exit {s : State T} {t : T} :
      s.place t = .seeking → s.queue.is_ready_to_exit = true →
        Step s (.exit t) (s.goto t .ended)

inductive Trace (queue_info : DependencyJobQueueInfo) (job_graph : DependencyJobGraph)
    (threads : List T) (core_number : T → ℕ) (P : State T → Event T → Prop) :
    List (Event T) → State T → Prop
  | start {q : DependencyJobQueue T} :
      (DependencyJobQueue.initialized queue_info threads core_number).buildJobGraph job_graph =
        some q →
      Trace queue_info job_graph threads core_number P [] ⟨q, fun _ => .seeking, false⟩
  | step {es : List (Event T)} {s s' : State T} {e : Event T} :
      Trace queue_info job_graph threads core_number P es s → P s e → Step s e s' →
        Trace queue_info job_graph threads core_number P (es ++ [e]) s'

def Event.handsOut (n : Node) : Event T → Bool
  | .read _ k => k = n
  | .schedule _ (.job (some k)) => k = n
  | _ => false

def Event.finisher (n : Node) : Event T → Option T
  | .finish t k => if k = n then some t else none
  | _ => none

def Event.releases (n : Node) : Event T → Bool
  | .visit _ k => k = n
  | _ => false

def handOuts (es : List (Event T)) (n : Node) : ℕ := es.countP (Event.handsOut n)

def finishers (es : List (Event T)) (n : Node) : List T := es.filterMap (Event.finisher n)

def releases (es : List (Event T)) (n : Node) : ℕ := es.countP (Event.releases n)

def entered (q : DependencyJobQueue T) (n : Node) : ℕ := q.ready.countP fun entry => entry.1 = n

end Awn.DependencyJob.Threads
