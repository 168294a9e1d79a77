import Awn.DependencyJob.Final
import Awn.DependencyJob.MultiRunTrace

/-!
A second graph in a queue: after `Clear`, or next to the first.
-/

namespace Awn.DependencyJob

namespace DependencyJobQueue

variable {T : Type*}

def clear (q : DependencyJobQueue T) : DependencyJobQueue T :=
  { q with
    used_job_queue_node_array := []
    job_priority_queue := []
    node := Function.update q.node .final JobQueueNode.defaults
    used_dependent_link_count := 0 }

def buildThreadControl (q : DependencyJobQueue T) : DependencyJobQueue T :=
  { q with thread_control := fun t => { q.thread_control t with next_job := .null } }

def submit (q : DependencyJobQueue T) (job_graph : DependencyJobGraph) :
    Option (DependencyJobQueue T) :=
  ((q.buildJobGraph job_graph).bind setupRun).map buildThreadControl

end DependencyJobQueue

variable {T : Type*} [DecidableEq T]

inductive Schedule (q₀ : DependencyJobQueue T) :
    List (T × DependencyJobQueue.Scheduled) → DependencyJobQueue T → (T → Place) → Prop
  | start : Schedule q₀ [] q₀ fun _ => .seeking
  | scheduleNextJob {es : List (T × DependencyJobQueue.Scheduled)} {q q' : DependencyJobQueue T}
      {place : T → Place} {t : T} {r : DependencyJobQueue.Scheduled} :
      Schedule q₀ es q place → place t = .seeking → q.is_ready_to_exit = false →
      q.scheduleNextJob t = some (r, q') → r ≠ .requiresWait →
        Schedule q₀ (es ++ [(t, r)]) q' (Function.update place t (Scheduled.place r))
  | onJobFinish {es : List (T × DependencyJobQueue.Scheduled)} {q q' : DependencyJobQueue T}
      {place : T → Place} {t : T} {n : Node} :
      Schedule q₀ es q place → place t = .running n → q.onJobFinish n = some q' →
        Schedule q₀ es q' (Function.update place t .seeking)
  | exit {es : List (T × DependencyJobQueue.Scheduled)} {q : DependencyJobQueue T}
      {place : T → Place} {t : T} :
      Schedule q₀ es q place → place t = .seeking → q.is_ready_to_exit = true →
        Schedule q₀ es q (Function.update place t .ended)

def SameSchedules (q q' : Option (DependencyJobQueue T)) : Prop :=
  ∀ es, (∃ q₀ q₁ place, q = some q₀ ∧ Schedule q₀ es q₁ place) ↔
    ∃ q₀ q₁ place, q' = some q₀ ∧ Schedule q₀ es q₁ place

variable {queue_info : DependencyJobQueueInfo} {job_graph job_graph' : DependencyJobGraph}
  {threads : List T} {core_number : T → ℕ} {q q' q₀ : DependencyJobQueue T} {place : T → Place}
  {es : List (T × DependencyJobQueue.Scheduled)}

section Idle

def Idle (q : DependencyJobQueue T) : Prop :=
  q.is_ready_to_exit = true ∨
    q.job_priority_queue = [] ∧ ∀ t, (q.thread_control t).next_job = .null

theorem Schedule.idle (hidle : Idle q₀) (h : Schedule q₀ es q place) :
    es = [] ∧ q = q₀ ∧ ∀ t n, place t ≠ .running n := by
  induction h with
  | start => exact ⟨rfl, rfl, fun _ _ => Place.noConfusion⟩
  | @scheduleNextJob es q q' place t r _ _ hflag hs hr ih =>
    obtain ⟨-, rfl, -⟩ := ih
    obtain hexit | ⟨hqueue, hslots⟩ := hidle
    · rw [hflag] at hexit
      cases hexit
    · unfold DependencyJobQueue.scheduleNextJob at hs
      rw [hslots t] at hs
      dsimp only at hs
      unfold DependencyJobQueue.scheduleFromQueue at hs
      rw [hqueue] at hs
      cases hs
      exact absurd rfl hr
  | onJobFinish _ hrunning _ ih => exact absurd hrunning (ih.2.2 _ _)
  | @exit es q place t _ _ _ ih =>
    refine ⟨ih.1, ih.2.1, fun u n => ?_⟩
    by_cases hu : u = t
    · subst hu
      rw [Function.update_self]
      exact Place.noConfusion
    · rw [Function.update_of_ne hu]
      exact ih.2.2 u n

theorem sameSchedules_idle (hq : Idle q) (hq' : Idle q') : SameSchedules (some q) (some q') := by
  have hnone : ∀ {q q' : DependencyJobQueue T}, Idle q → ∀ es,
      (∃ q₀ q₁ place, some q = some q₀ ∧ Schedule q₀ es q₁ place) →
        ∃ q₀ q₁ place, some q' = some q₀ ∧ Schedule q₀ es q₁ place := by
    rintro q q' hidle es ⟨q₀, q₁, place, hq, hschedule⟩
    obtain rfl := Option.some.inj hq
    obtain ⟨rfl, -⟩ := hschedule.idle hidle
    exact ⟨q', q', _, rfl, Schedule.start⟩
  exact fun es => ⟨hnone hq es, hnone hq' es⟩

theorem queueNextJobByCoreFrom_isSome {n : Node} {is : List ℕ}
    (hslots : ∀ t, (q.thread_control t).next_job = .null)
    (his : ∀ i ∈ is, i < q.thread_control_array.length) :
    ∃ q', q.queueNextJobByCoreFrom n is = some q' := by
  induction is with
  | nil => exact ⟨q, rfl⟩
  | cons i rest ih =>
    unfold DependencyJobQueue.queueNextJobByCoreFrom pointerAt
    have hi := his i List.mem_cons_self
    rw [if_pos hi, List.getElem?_eq_getElem (Nat.zero_lt_of_lt hi)]
    dsimp only
    split
    · exact ih fun k hk => his k (List.mem_cons_of_mem i hk)
    · rw [hslots]
      exact ⟨_, rfl⟩

theorem exists_schedule {n : Node} {rest : List Node} (hflag : q₀.is_ready_to_exit = false)
    (hqueue : q₀.job_priority_queue = n :: rest)
    (hslots : ∀ t, (q₀.thread_control t).next_job = .null) (t : T) :
    ∃ r q place, Schedule q₀ [(t, r)] q place := by
  have hnext : ∃ r q, q₀.scheduleNextJob t = some (r, q) ∧ r ≠ .requiresWait := by
    unfold DependencyJobQueue.scheduleNextJob
    rw [hslots t]
    dsimp only
    unfold DependencyJobQueue.scheduleFromQueue
    rw [hqueue]
    dsimp only
    split
    · exact ⟨_, _, rfl, DependencyJobQueue.Scheduled.noConfusion⟩
    · obtain ⟨entries, hfront, -⟩ := PriorityQueue.removeFront_cons
        (fun k => (((Threads.takeRun q₀ n).node k).priority : ℤ)) n rest
      have hfront' : PriorityQueue.removeFront (fun k => (((q₀.modify n fun x => { x with
          multi_run_state := (q₀.node n).multi_run_state + 0xffff }).node k).priority : ℤ))
          (q₀.modify n fun x => { x with
            multi_run_state := (q₀.node n).multi_run_state + 0xffff }).job_priority_queue =
          some (n, entries) := by
        change PriorityQueue.removeFront _ q₀.job_priority_queue = _
        rw [hqueue]
        exact hfront
      rw [hfront', Option.bind_some]
      dsimp only
      split
      · exact ⟨_, _, rfl, DependencyJobQueue.Scheduled.noConfusion⟩
      · obtain ⟨q', hq'⟩ := queueNextJobByCoreFrom_isSome (q := { Threads.takeRun q₀ n with
          job_priority_queue := entries }) (n := n) hslots fun i hi => List.mem_range.mp hi
        refine ⟨.goOn, q', ?_, DependencyJobQueue.Scheduled.noConfusion⟩
        exact Option.map_eq_some_iff.mpr ⟨q', hq', rfl⟩
  obtain ⟨r, q, hs, hr⟩ := hnext
  exact ⟨r, q, _, Schedule.start.scheduleNextJob rfl hflag hs hr⟩

end Idle

section Build

structure Outer (q q' : DependencyJobQueue T) : Prop where
  max_job_count : q'.max_job_count = q.max_job_count
  max_link_count : q'.max_link_count = q.max_link_count
  is_ready_to_exit : q'.is_ready_to_exit = q.is_ready_to_exit
  thread_control : q'.thread_control = q.thread_control

omit [DecidableEq T] in
theorem Outer.trans {q₁ q₂ q₃ : DependencyJobQueue T} (h : Outer q₁ q₂) (h' : Outer q₂ q₃) :
    Outer q₁ q₃ where
  max_job_count := h'.max_job_count.trans h.max_job_count
  max_link_count := h'.max_link_count.trans h.max_link_count
  is_ready_to_exit := h'.is_ready_to_exit.trans h.is_ready_to_exit
  thread_control := h'.thread_control.trans h.thread_control

/-- What `RegisterDependency` does, which asserts that a link is left. -/
structure Linked (dependent : Node) (q q' : DependencyJobQueue T) : Prop extends Outer q q' where
  room : q.used_dependent_link_count < q.max_link_count
  used_dependent_link_count : q'.used_dependent_link_count = q.used_dependent_link_count + 1
  used : q'.used_job_queue_node_array = q.used_job_queue_node_array
  job_priority_queue : q'.job_priority_queue = q.job_priority_queue
  parent_count : ∀ n, (q'.node n).parent_count =
    (q.node n).parent_count + if dependent = n then 1 else 0

omit [DecidableEq T] in
theorem linked {parent dependent : Node}
    (hs : q.registerDependency parent dependent = some q') : Linked dependent q q' := by
  unfold DependencyJobQueue.registerDependency at hs
  split at hs
  case isFalse => cases hs
  rename_i hroom
  obtain rfl := Option.some.inj hs
  refine ⟨⟨rfl, rfl, rfl, rfl⟩, hroom, rfl, rfl, rfl, fun n => ?_⟩
  have hparent := Threads.Inserted.modify_node (j := n) (n := parent)
    ({ q with used_dependent_link_count := q.used_dependent_link_count + 1 }.modify dependent
      fun x => { x with parent_count := x.parent_count + 1 })
    (f := fun x => { x with dependent_list := x.dependent_list ++ [dependent] })
    JobQueueNode.parent_count fun _ => rfl
  apply hparent.trans
  by_cases hn : dependent = n
  · subst hn
    rw [modify_self, if_pos rfl]
  · rw [modify_of_ne _ _ (Ne.symm hn), if_neg hn]
    exact (BitVec.add_zero _).symm

structure Grown (nodes : List Node) (links : ℕ) (q q' : DependencyJobQueue T) : Prop extends
    Outer q q' where
  used_dependent_link_count : q'.used_dependent_link_count = q.used_dependent_link_count + links
  link_bound : q.used_dependent_link_count ≤ q.max_link_count →
    q'.used_dependent_link_count ≤ q'.max_link_count
  used : q'.used_job_queue_node_array = q.used_job_queue_node_array ++ nodes
  job_priority_queue : q'.job_priority_queue = q.job_priority_queue

omit [DecidableEq T] in
theorem Grown.refl (q : DependencyJobQueue T) : Grown [] 0 q q where
  max_job_count := rfl
  max_link_count := rfl
  is_ready_to_exit := rfl
  thread_control := rfl
  used_dependent_link_count := rfl
  link_bound := id
  used := (List.append_nil _).symm
  job_priority_queue := rfl

omit [DecidableEq T] in
theorem Grown.trans {nodes nodes' : List Node} {links links' : ℕ} {q₁ q₂ q₃ : DependencyJobQueue T}
    (h : Grown nodes links q₁ q₂) (h' : Grown nodes' links' q₂ q₃) :
    Grown (nodes ++ nodes') (links + links') q₁ q₃ where
  toOuter := h.toOuter.trans h'.toOuter
  used_dependent_link_count := by
    rw [h'.used_dependent_link_count, h.used_dependent_link_count, Nat.add_assoc]
  link_bound := fun hle => h'.link_bound (h.link_bound hle)
  used := by
    rw [h'.used, h.used, List.append_assoc]
  job_priority_queue := h'.job_priority_queue.trans h.job_priority_queue

omit [DecidableEq T] in
theorem Linked.grown {dependent : Node} (h : Linked dependent q q') : Grown [] 1 q q' where
  toOuter := h.toOuter
  used_dependent_link_count := h.used_dependent_link_count
  link_bound := by
    intro _
    rw [h.used_dependent_link_count, h.max_link_count]
    exact h.room
  used := by
    rw [h.used, List.append_nil]
  job_priority_queue := h.job_priority_queue

omit [DecidableEq T] in
theorem grown_addJobNode {index : ℕ} {graph_node : JobGraphNode}
    (hs : q.addJobNode index graph_node = some q') : Grown [.job index] 1 q q' ∧
      (∀ i, (q'.node (.job i)).parent_count = (q.node (.job i)).parent_count) ∧
      q'.used_job_queue_node_array.length ≤ q'.max_job_count := by
  unfold DependencyJobQueue.addJobNode at hs
  split at hs
  case isFalse => cases hs
  obtain ⟨q₁, hregister, hs⟩ := Option.bind_eq_some_iff.mp hs
  split at hs
  case isFalse => cases hs
  rename_i hroom
  obtain rfl := Option.some.inj hs
  have hlinked := linked hregister
  refine ⟨⟨⟨hlinked.max_job_count, hlinked.max_link_count, hlinked.is_ready_to_exit,
    hlinked.thread_control⟩, hlinked.used_dependent_link_count, hlinked.grown.link_bound, ?_,
    hlinked.job_priority_queue⟩, fun i => ?_, ?_⟩
  · dsimp only
    rw [hlinked.used]
    rfl
  · have hassign := Threads.Inserted.modify_node (j := .job i) (n := .job index) q
      (f := Threads.assign graph_node) JobQueueNode.parent_count fun _ => rfl
    rw [← hassign]
    apply (hlinked.parent_count (.job i)).trans
    rw [if_neg fun heq => by cases heq]
    exact BitVec.add_zero _
  · dsimp only
    rw [List.length_append, List.length_singleton]
    exact hroom

omit [DecidableEq T] in
theorem grown_addJobNodes {graph_nodes : List JobGraphNode} :
    ∀ {index : ℕ} {q : DependencyJobQueue T},
      DependencyJobQueue.addJobNodes index graph_nodes q = some q' →
        Grown ((List.range' index graph_nodes.length).map Node.job) graph_nodes.length q q' ∧
          (∀ i, (q'.node (.job i)).parent_count = (q.node (.job i)).parent_count) ∧
          (q.used_job_queue_node_array.length ≤ q.max_job_count →
            q'.used_job_queue_node_array.length ≤ q'.max_job_count) := by
  induction graph_nodes with
  | nil =>
    intro index q hs
    obtain rfl := Option.some.inj hs
    exact ⟨Grown.refl q, fun _ => rfl, id⟩
  | cons graph_node graph_nodes ih =>
    intro index q hs
    obtain ⟨q₁, hadd, hs⟩ := Option.bind_eq_some_iff.mp hs
    obtain ⟨hone, hparents, hroom⟩ := grown_addJobNode hadd
    obtain ⟨hmore, hparents', hroom'⟩ := ih hs
    have hall := hone.trans hmore
    rw [Nat.add_comm 1 graph_nodes.length] at hall
    exact ⟨hall, fun i => (hparents' i).trans (hparents i), fun _ => hroom' hroom⟩

omit [DecidableEq T] in
theorem grown_addLinks {base_register_id : ℕ} {links : List JobRegisterLink} :
    ∀ {q : DependencyJobQueue T},
      DependencyJobQueue.addLinks base_register_id links q = some q' →
        Grown [] links.length q q' ∧ ∀ i, (q'.node (.job i)).parent_count =
          (q.node (.job i)).parent_count + BitVec.ofNat 32
            (links.countP fun link => base_register_id + link.dependent_register_id = i) := by
  induction links with
  | nil =>
    intro q hs
    obtain rfl := Option.some.inj hs
    exact ⟨Grown.refl q, fun i => (BitVec.add_zero _).symm⟩
  | cons link links ih =>
    intro q hs
    unfold DependencyJobQueue.addLinks at hs
    dsimp only at hs
    split at hs
    case isFalse => cases hs
    obtain ⟨q₁, hregister, hs⟩ := Option.bind_eq_some_iff.mp hs
    have hlinked := linked hregister
    obtain ⟨hmore, hparents⟩ := ih hs
    have hall := hlinked.grown.trans hmore
    rw [Nat.add_comm] at hall
    refine ⟨hall, fun i => ?_⟩
    rw [hparents, hlinked.parent_count, List.countP_cons, BitVec.add_assoc]
    congr 1
    by_cases hi : base_register_id + link.dependent_register_id = i
    · rw [if_pos (congrArg Node.job hi), if_pos (decide_eq_true hi), BitVec.ofNat_add,
        BitVec.add_comm]
      rfl
    · rw [if_neg fun heq => hi (Node.job.inj heq), if_neg fun heq => hi (of_decide_eq_true heq)]
      exact BitVec.zero_add _

structure Hosted (job_graph : DependencyJobGraph) (q q' : DependencyJobQueue T) : Prop extends
    Grown ((List.range job_graph.job_node_allocator.length).map Node.job)
      (job_graph.job_node_allocator.length + job_graph.register_link_allocator.length) q q' where
  room : q.used_job_queue_node_array.length ≤ q.max_job_count →
    q'.used_job_queue_node_array.length ≤ q'.max_job_count
  parent_count : ∀ i, (q'.node (.job i)).parent_count = (q.node (.job i)).parent_count +
    BitVec.ofNat 32 (job_graph.register_link_allocator.countP fun link =>
      q.used_job_queue_node_array.length + link.dependent_register_id = i)

omit [DecidableEq T] in
theorem hosted (hs : q.buildJobGraph job_graph = some q') : Hosted job_graph q q' := by
  obtain ⟨q₁, hnodes, hlinks⟩ := Option.bind_eq_some_iff.mp hs
  obtain ⟨hgrown, hparents, hroom⟩ := grown_addJobNodes hnodes
  obtain ⟨hmore, hparents'⟩ := grown_addLinks hlinks
  have hall := hgrown.trans hmore
  rw [List.append_nil, ← List.range_eq_range'] at hall
  refine ⟨hall, fun hle => ?_, fun i => (hparents' i).trans ?_⟩
  · rw [hmore.used, List.append_nil, hmore.max_job_count]
    exact hroom hle
  · rw [hparents i]

structure Alike (q q' : DependencyJobQueue T) : Prop where
  max_job_count : q'.max_job_count = q.max_job_count
  max_link_count : q'.max_link_count = q.max_link_count
  used_dependent_link_count : q'.used_dependent_link_count = q.used_dependent_link_count
  used : q'.used_job_queue_node_array = q.used_job_queue_node_array

omit [DecidableEq T] in
theorem Alike.grown {nodes : List Node} {links : ℕ} {q₁ q₁' : DependencyJobQueue T}
    (h : Alike q q') (hq : Grown nodes links q q₁) (hq' : Grown nodes links q' q₁') :
    Alike q₁ q₁' where
  max_job_count := by
    rw [hq'.max_job_count, hq.max_job_count, h.max_job_count]
  max_link_count := by
    rw [hq'.max_link_count, hq.max_link_count, h.max_link_count]
  used_dependent_link_count := by
    rw [hq'.used_dependent_link_count, hq.used_dependent_link_count, h.used_dependent_link_count]
  used := by
    rw [hq'.used, hq.used, h.used]

omit [DecidableEq T] in
theorem Alike.registerDependency {parent dependent : Node} {q₁ : DependencyJobQueue T}
    (h : Alike q q') (hs : q.registerDependency parent dependent = some q₁) :
    ∃ q₁', q'.registerDependency parent dependent = some q₁' ∧ Alike q₁ q₁' := by
  have hroom := (linked hs).room
  rw [← h.used_dependent_link_count, ← h.max_link_count] at hroom
  have hs' : ∃ q₁', q'.registerDependency parent dependent = some q₁' := by
    unfold DependencyJobQueue.registerDependency
    rw [if_pos hroom]
    exact ⟨_, rfl⟩
  obtain ⟨q₁', hs'⟩ := hs'
  exact ⟨q₁', hs', h.grown (linked hs).grown (linked hs').grown⟩

omit [DecidableEq T] in
theorem Alike.addJobNode {index : ℕ} {graph_node : JobGraphNode} {q₁ : DependencyJobQueue T}
    (h : Alike q q') (hs : q.addJobNode index graph_node = some q₁) :
    ∃ q₁', q'.addJobNode index graph_node = some q₁' ∧ Alike q₁ q₁' := by
  have hgrown := (grown_addJobNode hs).1
  have hs' : ∃ q₁', q'.addJobNode index graph_node = some q₁' := by
    unfold DependencyJobQueue.addJobNode at hs ⊢
    split at hs
    case isFalse => cases hs
    rename_i hindex
    rw [← h.max_job_count] at hindex
    rw [if_pos hindex]
    obtain ⟨q₂, hregister, hs⟩ := Option.bind_eq_some_iff.mp hs
    split at hs
    case isFalse => cases hs
    rename_i hroom
    have hmodify : Alike (q.modify (.job index) (Threads.assign graph_node))
        (q'.modify (.job index) (Threads.assign graph_node)) :=
      ⟨h.max_job_count, h.max_link_count, h.used_dependent_link_count, h.used⟩
    obtain ⟨q₂', hregister', halike⟩ := hmodify.registerDependency hregister
    rw [← halike.used, ← halike.max_job_count] at hroom
    exact ⟨{ q₂' with
      used_job_queue_node_array := q₂'.used_job_queue_node_array ++ [.job index] },
      Option.bind_eq_some_iff.mpr ⟨q₂', hregister', if_pos hroom⟩⟩
  obtain ⟨q₁', hs'⟩ := hs'
  exact ⟨q₁', hs', h.grown hgrown (grown_addJobNode hs').1⟩

omit [DecidableEq T] in
theorem Alike.addJobNodes {graph_nodes : List JobGraphNode} {q₁ : DependencyJobQueue T} :
    ∀ {index : ℕ} {q q' : DependencyJobQueue T}, Alike q q' →
      DependencyJobQueue.addJobNodes index graph_nodes q = some q₁ →
        ∃ q₁', DependencyJobQueue.addJobNodes index graph_nodes q' = some q₁' ∧ Alike q₁ q₁' := by
  induction graph_nodes with
  | nil =>
    intro index q q' h hs
    obtain rfl := Option.some.inj hs
    exact ⟨q', rfl, h⟩
  | cons graph_node graph_nodes ih =>
    intro index q q' h hs
    obtain ⟨q₂, hadd, hs⟩ := Option.bind_eq_some_iff.mp hs
    obtain ⟨q₂', hadd', halike⟩ := h.addJobNode hadd
    obtain ⟨q₁', hs', halike'⟩ := ih halike hs
    exact ⟨q₁', Option.bind_eq_some_iff.mpr ⟨q₂', hadd', hs'⟩, halike'⟩

omit [DecidableEq T] in
theorem Alike.addLinks {base_register_id : ℕ} {links : List JobRegisterLink}
    {q₁ : DependencyJobQueue T} :
    ∀ {q q' : DependencyJobQueue T}, Alike q q' →
      DependencyJobQueue.addLinks base_register_id links q = some q₁ →
        ∃ q₁', DependencyJobQueue.addLinks base_register_id links q' = some q₁' ∧
          Alike q₁ q₁' := by
  induction links with
  | nil =>
    intro q q' h hs
    obtain rfl := Option.some.inj hs
    exact ⟨q', rfl, h⟩
  | cons link links ih =>
    intro q q' h hs
    unfold DependencyJobQueue.addLinks at hs ⊢
    dsimp only at hs ⊢
    split at hs
    case isFalse => cases hs
    rename_i hids
    rw [← h.max_job_count] at hids
    rw [if_pos hids]
    obtain ⟨q₂, hregister, hs⟩ := Option.bind_eq_some_iff.mp hs
    obtain ⟨q₂', hregister', halike⟩ := h.registerDependency hregister
    obtain ⟨q₁', hs', halike'⟩ := ih halike hs
    exact ⟨q₁', Option.bind_eq_some_iff.mpr ⟨q₂', hregister', hs'⟩, halike'⟩

omit [DecidableEq T] in
theorem Alike.buildJobGraph {q₁ : DependencyJobQueue T} (h : Alike q q')
    (hs : q.buildJobGraph job_graph = some q₁) :
    ∃ q₁', q'.buildJobGraph job_graph = some q₁' := by
  obtain ⟨q₂, hnodes, hlinks⟩ := Option.bind_eq_some_iff.mp hs
  obtain ⟨q₂', hnodes', halike⟩ := h.addJobNodes hnodes
  obtain ⟨q₁', hlinks', -⟩ := halike.addLinks hlinks
  refine ⟨q₁', Option.bind_eq_some_iff.mpr ⟨q₂', hnodes', ?_⟩⟩
  rw [h.used]
  exact hlinks'

omit [DecidableEq T] in
theorem setupRunFrom_isSome {is : List ℕ} :
    ∀ {q : DependencyJobQueue T}, (∀ i ∈ is, i < q.used_job_queue_node_array.length) →
      q.job_priority_queue.length + is.length ≤ q.max_job_count →
        ∃ q', q.setupRunFrom is = some q' := by
  induction is with
  | nil => exact fun _ _ => ⟨_, rfl⟩
  | cons i rest ih =>
    intro q his hroom
    rw [List.length_cons] at hroom
    have hi := his i List.mem_cons_self
    have hrest : ∀ k ∈ rest, k < q.used_job_queue_node_array.length := fun k hk =>
      his k (List.mem_cons_of_mem i hk)
    unfold DependencyJobQueue.setupRunFrom pointerAt
    rw [if_pos hi, List.getElem?_eq_getElem (Nat.zero_lt_of_lt hi)]
    dsimp only
    split
    · exact ih hrest (by omega)
    · unfold DependencyJobQueue.queueInsert
      rw [if_pos (by omega), Option.bind_some]
      apply ih
      · exact hrest
      · dsimp only
        rw [(PriorityQueue.insert_perm _ _ _).length_eq, List.length_cons]
        omega

omit [DecidableEq T] in
theorem outer_setupRunFrom {is : List ℕ} :
    ∀ {q : DependencyJobQueue T}, q.setupRunFrom is = some q' → Outer q q' := by
  induction is with
  | nil =>
    intro q hs
    obtain rfl := Option.some.inj hs
    exact ⟨rfl, rfl, rfl, rfl⟩
  | cons i rest ih =>
    intro q hs
    unfold DependencyJobQueue.setupRunFrom at hs
    split at hs
    · cases hs
    · split at hs
      · exact ih hs
      · obtain ⟨q₁, hinsert, hs⟩ := Option.bind_eq_some_iff.mp hs
        apply Outer.trans _ (ih hs)
        unfold DependencyJobQueue.queueInsert at hinsert
        split at hinsert
        · obtain rfl := Option.some.inj hinsert
          exact ⟨rfl, rfl, rfl, rfl⟩
        · cases hinsert

omit [DecidableEq T] in
theorem setupRun_eq_nil (hqueue : q.job_priority_queue = []) (hs : q.setupRun = some q') :
    q'.job_priority_queue = [] ↔
      ∀ n, q.used_job_queue_node_array[0]? = some n → (q.node n).parent_count ≠ 0 := by
  have hcount := fun j : Node =>
    (Threads.Inserted.setupRunFrom (j := j) hs fun i hi => List.mem_range.mp hi).queued
  constructor
  · intro hnil n hn hzero
    have hn' := hcount n
    rw [hnil, if_pos ⟨hn, hzero⟩, List.length_range, hqueue] at hn'
    have hlt := (List.getElem?_eq_some_iff.mp hn).1
    change 0 = 0 + _ at hn'
    omega
  · intro hparents
    rw [List.eq_nil_iff_forall_not_mem]
    intro n hmem
    have hn := hcount n
    rw [if_neg fun hc => hparents n hc.1 hc.2, hqueue] at hn
    exact absurd (List.count_pos_iff.mpr hmem) (Nat.not_lt.mpr (Nat.le_of_eq hn))

end Build

def NothingReady (job_graph : DependencyJobGraph) : Prop :=
  job_graph.job_node_allocator = [] ∨
    ∃ link ∈ job_graph.register_link_allocator, link.dependent_register_id = 0

omit [DecidableEq T] in
theorem submit_outer (hs : q.submit job_graph = some q') :
    q'.is_ready_to_exit = q.is_ready_to_exit ∧ ∀ t, (q'.thread_control t).next_job = .null := by
  obtain ⟨q₂, hbind, rfl⟩ := Option.map_eq_some_iff.mp hs
  obtain ⟨q₁, hbuild, hsetup⟩ := Option.bind_eq_some_iff.mp hbind
  refine ⟨?_, fun _ => rfl⟩
  exact (outer_setupRunFrom hsetup).is_ready_to_exit.trans (hosted hbuild).is_ready_to_exit

omit [DecidableEq T] in
theorem submit_initialized
    (hs : (DependencyJobQueue.initialized queue_info threads core_number).submit job_graph =
      some q) : q.job_priority_queue = [] ↔ NothingReady job_graph := by
  obtain ⟨q₂, hbind, rfl⟩ := Option.map_eq_some_iff.mp hs
  obtain ⟨q₁, hbuild, hsetup⟩ := Option.bind_eq_some_iff.mp hbind
  have hhosted := hosted hbuild
  have hused : q₁.used_job_queue_node_array =
      (List.range job_graph.job_node_allocator.length).map Node.job := hhosted.used
  have hbound := hhosted.link_bound (Nat.zero_le _)
  rw [hhosted.used_dependent_link_count, hhosted.max_link_count] at hbound
  have hmax : queue_info.max_link_count.toNat < 2 ^ 16 := queue_info.max_link_count.isLt
  change 0 + (_ + _) ≤ queue_info.max_link_count.toNat at hbound
  have hle := List.countP_le_length (p := fun link : JobRegisterLink => decide
    (link.dependent_register_id = 0)) (l := job_graph.register_link_allocator)
  have hparent : (q₁.node (.job 0)).parent_count = BitVec.ofNat 32
      (job_graph.register_link_allocator.countP fun link => link.dependent_register_id = 0) := by
    apply (hhosted.parent_count 0).trans
    change 0#32 + BitVec.ofNat 32 (List.countP
      (fun link : JobRegisterLink => decide (0 + link.dependent_register_id = 0)) _) = _
    simp only [Nat.zero_add, BitVec.zero_add]
  have hzero : (q₁.node (.job 0)).parent_count ≠ 0 ↔
      ∃ link ∈ job_graph.register_link_allocator, link.dependent_register_id = 0 := by
    rw [hparent]
    constructor
    · intro hne
      by_contra hnone
      apply hne
      rw [List.countP_eq_zero.mpr]
      · rfl
      · intro link hlink hdependent
        exact hnone ⟨link, hlink, of_decide_eq_true hdependent⟩
    · rintro ⟨link, hlink, hdependent⟩ hparents
      have hpos : 0 < job_graph.register_link_allocator.countP fun link =>
          decide (link.dependent_register_id = 0) :=
        List.countP_pos_iff.mpr ⟨link, hlink, decide_eq_true hdependent⟩
      have hnat := congrArg BitVec.toNat hparents
      rw [BitVec.toNat_ofNat, Nat.mod_eq_of_lt (by omega)] at hnat
      change _ = 0 at hnat
      omega
  have hfirst := setupRun_eq_nil hhosted.job_priority_queue hsetup
  apply hfirst.trans
  rw [hused, NothingReady]
  cases hnodes : job_graph.job_node_allocator with
  | nil => exact iff_of_true (fun n hn => by cases hn) (Or.inl rfl)
  | cons graph_node graph_nodes =>
    rw [List.length_cons, List.range_succ_eq_map, List.map_cons, List.getElem?_cons_zero]
    constructor
    · exact fun hall => Or.inr (hzero.mp (hall (.job 0) rfl))
    · rintro (hnil | hlink) n hn
      · cases hnil
      · obtain rfl := Option.some.inj hn
        exact hzero.mpr hlink

omit [DecidableEq T] in
theorem submit_nil (hnil : job_graph.job_node_allocator = [])
    (hused : q.used_job_queue_node_array = []) (hqueue : q.job_priority_queue = [])
    (hs : q.submit job_graph = some q') : q'.job_priority_queue = [] := by
  obtain ⟨q₂, hbind, rfl⟩ := Option.map_eq_some_iff.mp hs
  obtain ⟨q₁, hbuild, hsetup⟩ := Option.bind_eq_some_iff.mp hbind
  have hhosted := hosted hbuild
  have hempty : q₁.used_job_queue_node_array = [] := by
    rw [hhosted.used, hused, hnil]
    rfl
  apply (setupRun_eq_nil (hhosted.job_priority_queue.trans hqueue) hsetup).mpr
  intro n hn
  rw [hempty] at hn
  cases hn

section Run

def SameRoom (q q' : DependencyJobQueue T) : Prop :=
  q'.max_job_count = q.max_job_count ∧ q'.max_link_count = q.max_link_count

omit [DecidableEq T] in
theorem SameRoom.trans {q₁ q₂ q₃ : DependencyJobQueue T} (h : SameRoom q₁ q₂)
    (h' : SameRoom q₂ q₃) : SameRoom q₁ q₃ :=
  ⟨h'.1.trans h.1, h'.2.trans h.2⟩

omit [DecidableEq T] in
theorem Outer.sameRoom (h : Outer q q') : SameRoom q q' := ⟨h.max_job_count, h.max_link_count⟩

theorem sameRoom_setReadyToExit (q : DependencyJobQueue T) : SameRoom q q.setReadyToExit := by
  have hfold : ∀ (is : List ℕ) (q : DependencyJobQueue T),
      SameRoom q (is.foldl DependencyJobQueue.unblock q) := by
    intro is
    induction is with
    | nil => exact fun _ => ⟨rfl, rfl⟩
    | cons i rest ih =>
      intro q
      apply SameRoom.trans _ (ih _)
      unfold DependencyJobQueue.unblock
      split
      · exact ⟨rfl, rfl⟩
      · split
        all_goals exact ⟨rfl, rfl⟩
  exact hfold _ { q with is_ready_to_exit := true }

theorem sameRoom_queueNextJobByCoreFrom {n : Node} {is : List ℕ}
    (hs : q.queueNextJobByCoreFrom n is = some q') : SameRoom q q' := by
  induction is with
  | nil =>
    obtain rfl := Option.some.inj hs
    exact ⟨rfl, rfl⟩
  | cons i rest ih =>
    unfold DependencyJobQueue.queueNextJobByCoreFrom at hs
    split at hs
    · cases hs
    · split at hs
      · exact ih hs
      · split at hs
        · obtain ⟨ring, -, rfl⟩ := Option.map_eq_some_iff.mp hs
          exact ⟨rfl, rfl⟩
        · obtain rfl := Option.some.inj hs
          exact ⟨rfl, rfl⟩

theorem sameRoom_scheduleNextJob {t : T} {r : DependencyJobQueue.Scheduled}
    (hs : q.scheduleNextJob t = some (r, q')) : SameRoom q q' := by
  unfold DependencyJobQueue.scheduleNextJob at hs
  split at hs
  · dsimp only at hs
    split at hs
    all_goals
      cases hs
      exact ⟨rfl, rfl⟩
  · obtain ⟨-, -, rfl⟩ | ⟨n, rest, -, htaken⟩ := Threads.scheduleFromQueue_cases hs
    · exact ⟨rfl, rfl⟩
    · cases htaken with
      | more _ => exact ⟨rfl, rfl⟩
      | last _ _ _ => exact ⟨rfl, rfl⟩
      | aside _ _ _ hnext =>
        have hroom := sameRoom_queueNextJobByCoreFrom hnext
        exact ⟨hroom.1, hroom.2⟩

omit [DecidableEq T] in
theorem sameRoom_visitDependents {dependents : List Node} :
    ∀ {q : DependencyJobQueue T}, q.visitDependents dependents = some q' → SameRoom q q' := by
  induction dependents with
  | nil =>
    intro q hs
    obtain rfl := Option.some.inj hs
    exact ⟨rfl, rfl⟩
  | cons dependent rest ih =>
    intro q hs
    unfold DependencyJobQueue.visitDependents at hs
    dsimp only at hs
    split at hs
    · have hroom := ih hs
      exact ⟨hroom.1, hroom.2⟩
    · obtain ⟨q₁, hinsert, hs⟩ := Option.bind_eq_some_iff.mp hs
      apply SameRoom.trans _ (ih hs)
      unfold DependencyJobQueue.queueInsert at hinsert
      split at hinsert
      · obtain rfl := Option.some.inj hinsert
        exact ⟨rfl, rfl⟩
      · cases hinsert

omit [DecidableEq T] in
theorem sameRoom_finishRun {n : Node} {last_run_state : BitVec 32}
    (hs : q.finishRun n = some (last_run_state, q')) : SameRoom q q' := by
  unfold DependencyJobQueue.finishRun at hs
  obtain ⟨q₁, hforce, heq⟩ := Option.map_eq_some_iff.mp hs
  obtain ⟨-, rfl⟩ := Prod.mk.inj heq
  change SameRoom q q₁
  split at hforce
  · unfold DependencyJobQueue.forceRemoveForCompleteOnce at hforce
    dsimp only at hforce
    split at hforce
    · obtain rfl := Option.some.inj hforce
      exact ⟨rfl, rfl⟩
    · split at hforce
      · obtain rfl := Option.some.inj hforce
        exact ⟨rfl, rfl⟩
      · cases hforce
  · obtain rfl := Option.some.inj hforce
    exact ⟨rfl, rfl⟩

theorem sameRoom_onJobFinish {n : Node} (hs : q.onJobFinish n = some q') : SameRoom q q' := by
  unfold DependencyJobQueue.onJobFinish at hs
  obtain ⟨⟨last_run_state, q₀⟩, hrun, hs⟩ := Option.bind_eq_some_iff.mp hs
  apply (sameRoom_finishRun hrun).trans
  dsimp only at hs
  split at hs
  · obtain rfl := Option.some.inj hs
    exact ⟨rfl, rfl⟩
  · obtain ⟨q₁, hvisit, rfl⟩ := Option.map_eq_some_iff.mp hs
    apply (sameRoom_visitDependents hvisit).trans
    unfold DependencyJobQueue.clearDependents
    dsimp only
    split
    · exact ⟨rfl, rfl⟩
    · exact sameRoom_setReadyToExit _

theorem Reachable.sameRoom {s : State T}
    (hr : Reachable queue_info job_graph threads core_number s) :
    SameRoom (DependencyJobQueue.initialized queue_info threads core_number) s.queue := by
  induction hr with
  | start hs => exact (hosted hs).toOuter.sameRoom
  | step _ hs ih =>
    apply ih.trans
    cases hs with
    | setupRun _ hs => exact (outer_setupRunFrom hs).sameRoom
    | scheduleNextJob _ _ hs _ => exact sameRoom_scheduleNextJob hs
    | onJobFinish _ hs => exact sameRoom_onJobFinish hs
    | exit _ _ => exact ⟨rfl, rfl⟩

theorem submit_clear {s : State T} (hr : Reachable queue_info job_graph threads core_number s)
    (hs : (DependencyJobQueue.initialized queue_info threads core_number).submit job_graph' =
      some q) : ∃ q', s.queue.clear.submit job_graph' = some q' := by
  obtain ⟨q₂, hbind, rfl⟩ := Option.map_eq_some_iff.mp hs
  obtain ⟨q₁, hbuild, hsetup⟩ := Option.bind_eq_some_iff.mp hbind
  obtain ⟨hjobs, hlinks⟩ := hr.sameRoom
  have halike : Alike (DependencyJobQueue.initialized queue_info threads core_number)
      s.queue.clear := ⟨hjobs, hlinks, rfl, rfl⟩
  obtain ⟨q₁', hbuild'⟩ := halike.buildJobGraph hbuild
  have hhosted := hosted hbuild'
  have hroom : q₁'.job_priority_queue.length +
      (List.range q₁'.used_job_queue_node_array.length).length ≤ q₁'.max_job_count := by
    rw [hhosted.job_priority_queue, List.length_range]
    change 0 + _ ≤ _
    rw [Nat.zero_add]
    exact hhosted.room (Nat.zero_le _)
  obtain ⟨q₂', hsetup'⟩ := setupRunFrom_isSome (fun i hi => List.mem_range.mp hi) hroom
  exact ⟨_, Option.map_eq_some_iff.mpr ⟨q₂', Option.bind_eq_some_iff.mpr ⟨q₁', hbuild', hsetup'⟩,
    rfl⟩⟩

theorem Reachable.nonempty {s : State T}
    (hr : Reachable queue_info job_graph threads core_number s)
    (hexit : s.queue.is_ready_to_exit = true) : Nonempty T := by
  induction hr with
  | start hs =>
    have hflag := (hosted hs).is_ready_to_exit
    rw [hflag] at hexit
    cases hexit
  | step _ hs ih =>
    cases hs with
    | setupRun _ hs =>
      apply ih
      rw [← (outer_setupRunFrom hs).is_ready_to_exit]
      exact hexit
    | @scheduleNextJob t => exact ⟨t⟩
    | @onJobFinish t => exact ⟨t⟩
    | @exit t => exact ⟨t⟩

theorem sameSchedules_clear_iff {s : State T}
    (hr : Reachable queue_info job_graph threads core_number s)
    (hexit : s.queue.is_ready_to_exit = true)
    (hs : (DependencyJobQueue.initialized queue_info threads core_number).submit job_graph' =
      some q) :
    SameSchedules (s.queue.clear.submit job_graph') (some q) ↔ NothingReady job_graph' := by
  obtain ⟨q', hs'⟩ := submit_clear hr hs
  obtain ⟨hflag, hslots⟩ := submit_outer hs
  have hidle' : Idle q' := Or.inl ((submit_outer hs').1.trans hexit)
  have hnil := submit_initialized hs
  constructor
  · intro hsame
    rw [← hnil]
    by_contra hne
    obtain ⟨n, rest, hqueue⟩ := List.exists_cons_of_ne_nil hne
    obtain ⟨t⟩ := hr.nonempty hexit
    obtain ⟨r, q₁, place, hschedule⟩ := exists_schedule hflag hqueue hslots t
    obtain ⟨q₀, q₂, place', hq, hschedule'⟩ :=
      (hsame [(t, r)]).mpr ⟨q, q₁, place, rfl, hschedule⟩
    obtain rfl := Option.some.inj (hs'.symm.trans hq)
    exact absurd (hschedule'.idle hidle').1 (List.cons_ne_nil _ _)
  · intro hnothing
    rw [hs']
    exact sameSchedules_idle hidle' (Or.inr ⟨hnil.mpr hnothing, hslots⟩)

omit [DecidableEq T] in
theorem own_nodes_iff (hs : ((DependencyJobQueue.initialized queue_info threads
      core_number).buildJobGraph job_graph).bind (·.buildJobGraph job_graph') = some q) :
    q.used_job_queue_node_array.Nodup ↔
      job_graph.job_node_allocator = [] ∨ job_graph'.job_node_allocator = [] := by
  obtain ⟨q₁, hfirst, hsecond⟩ := Option.bind_eq_some_iff.mp hs
  have hinj : Function.Injective Node.job := fun _ _ heq => Node.job.inj heq
  have hnodup : ∀ n, ((List.range n).map Node.job).Nodup := fun n =>
    List.nodup_range.map hinj
  rw [(hosted hsecond).used, (hosted hfirst).used]
  change ([] ++ _ ++ _ : List Node).Nodup ↔ _
  rw [List.nil_append]
  constructor
  · intro hdistinct
    by_contra hboth
    rw [not_or] at hboth
    have hmem : ∀ {g : DependencyJobGraph}, g.job_node_allocator ≠ [] →
        Node.job 0 ∈ (List.range g.job_node_allocator.length).map Node.job := fun hne =>
      List.mem_map_of_mem (List.mem_range.mpr (List.length_pos_of_ne_nil hne))
    exact (List.nodup_append.mp hdistinct).2.2 _ (hmem hboth.1) _ (hmem hboth.2) rfl
  · rintro (hnil | hnil)
    · rw [hnil]
      exact hnodup _
    · rw [hnil, List.length_nil, List.range_zero, List.map_nil, List.append_nil]
      exact hnodup _

def RegisteredIds (job_graph : DependencyJobGraph) : Prop :=
  ∀ link ∈ job_graph.register_link_allocator,
    link.parent_register_id < job_graph.job_node_allocator.length ∧
      link.dependent_register_id < job_graph.job_node_allocator.length

theorem Reachable.empty {s : State T} (hids : RegisteredIds job_graph)
    (hnil : job_graph.job_node_allocator = [])
    (hr : Reachable queue_info job_graph threads core_number s) :
    s.queue = DependencyJobQueue.initialized queue_info threads core_number ∧
      ∀ t n, s.place t ≠ .running n := by
  have hlinks : job_graph.register_link_allocator = [] := by
    rw [List.eq_nil_iff_forall_not_mem]
    intro link hlink
    have hlt := (hids link hlink).1
    rw [hnil] at hlt
    exact absurd hlt (Nat.not_lt_zero _)
  have hidle : Idle (DependencyJobQueue.initialized queue_info threads core_number) :=
    Or.inr ⟨rfl, fun _ => rfl⟩
  induction hr with
  | start hs =>
    unfold DependencyJobQueue.buildJobGraph at hs
    rw [hnil, hlinks] at hs
    obtain rfl := Option.some.inj hs
    exact ⟨rfl, fun _ _ => Place.noConfusion⟩
  | @step s s' _ hs ih =>
    obtain ⟨hqueue, hplace⟩ := ih
    cases hs with
    | setupRun _ hs =>
      rw [hqueue] at hs
      obtain rfl := Option.some.inj hs
      exact ⟨rfl, hplace⟩
    | scheduleNextJob hseeking hflag hs hr =>
      rw [hqueue] at hs hflag
      have hone := Schedule.start.scheduleNextJob rfl hflag hs hr
      exact absurd (hone.idle hidle).1 (List.cons_ne_nil _ _)
    | onJobFinish hrunning _ => exact absurd hrunning (hplace _ _)
    | @exit t _ _ =>
      refine ⟨hqueue, fun u n => ?_⟩
      dsimp only
      by_cases hu : u = t
      · subst hu
        rw [Function.update_self]
        exact Place.noConfusion
      · rw [Function.update_of_ne hu]
        exact hplace u n

/-- A cleared queue hands out the jobs of a graph as a new one does and two graphs in one queue have
nodes of their own only if one of the two graphs has no jobs. After a run that has ended with the
final node nothing of the second graph is handed out. -/
theorem reuse_iff {s : State T} (hids : RegisteredIds job_graph)
    (hr : Reachable queue_info job_graph threads core_number s)
    (hs : (DependencyJobQueue.initialized queue_info threads core_number).submit job_graph' =
      some q)
    (hboth : ((DependencyJobQueue.initialized queue_info threads
      core_number).buildJobGraph job_graph).bind (·.buildJobGraph job_graph') = some q') :
    (SameSchedules (s.queue.clear.submit job_graph') (some q) ∧
        q'.used_job_queue_node_array.Nodup ↔
      job_graph.job_node_allocator = [] ∨ job_graph'.job_node_allocator = []) ∧
    (s.queue.is_ready_to_exit = true →
      (SameSchedules (s.queue.clear.submit job_graph') (some q) ↔ NothingReady job_graph')) := by
  refine ⟨?_, fun hexit => sameSchedules_clear_iff hr hexit hs⟩
  rw [own_nodes_iff hboth]
  constructor
  · exact fun h => h.2
  · intro hempty
    refine ⟨?_, hempty⟩
    obtain hnil | hnil := hempty
    · have hclear : s.queue.clear =
          DependencyJobQueue.initialized queue_info threads core_number := by
        rw [(hr.empty hids hnil).1]
        unfold DependencyJobQueue.clear DependencyJobQueue.initialized
        dsimp only
        rw [Function.update_idem]
      rw [hclear, hs]
      exact fun _ => Iff.rfl
    · obtain ⟨q₁, hs'⟩ := submit_clear hr hs
      rw [hs']
      apply sameSchedules_idle
      · exact Or.inr ⟨submit_nil hnil rfl rfl hs', (submit_outer hs').2⟩
      · exact Or.inr ⟨submit_nil hnil rfl rfl hs, (submit_outer hs).2⟩

end Run

section SingleJob

def singleJob : DependencyJobGraph where
  job_node_allocator := [⟨cJobAnyCore, cJobNormalPriority, 1, false⟩]
  register_link_allocator := []

def singleBuilt : DependencyJobQueue Unit :=
  ((DependencyJobQueue.initialized ⟨2, 2⟩ [()] fun _ => 0).buildJobGraph singleJob).get (by decide)

def singleSetUp : DependencyJobQueue Unit := singleBuilt.setupRun.get (by decide)

def singleScheduled : DependencyJobQueue Unit :=
  ((singleSetUp.scheduleNextJob ()).get (by decide)).2

def singleFinished : DependencyJobQueue Unit :=
  (singleScheduled.onJobFinish (.job 0)).get (by decide)

theorem reachable_singleFinished :
    ∃ place, Reachable ⟨2, 2⟩ singleJob [()] (fun _ => 0) ⟨singleFinished, place, true⟩ := by
  have hstart : Reachable ⟨2, 2⟩ singleJob [()] (fun _ => 0)
      ⟨singleBuilt, fun _ => .seeking, false⟩ := Reachable.start (Option.some_get _).symm
  have hsetup := hstart.step (Step.setupRun rfl (q := singleSetUp) (Option.some_get _).symm)
  have hschedule := hsetup.step (Step.scheduleNextJob (t := ()) (r := .job (some (.job 0)))
    (q := singleScheduled) rfl (by decide) (Threads.eq_some_of_get _ (by decide)) (by decide))
  have hfinish := hschedule.step (Step.onJobFinish (t := ()) (n := .job 0) (q := singleFinished)
    rfl (Option.some_get _).symm)
  exact ⟨_, hfinish⟩

def singleSubmitted : DependencyJobQueue Unit :=
  ((DependencyJobQueue.initialized ⟨2, 2⟩ [()] fun _ => 0).submit singleJob).get (by decide)

def singleAgain : DependencyJobQueue Unit :=
  (singleFinished.clear.submit singleJob).get (by decide)

def singleTwice : DependencyJobQueue Unit :=
  (((DependencyJobQueue.initialized ⟨2, 2⟩ [()] fun _ => 0).buildJobGraph
    singleJob).bind (·.buildJobGraph singleJob)).get (by decide)

theorem reuse_iff_singleJob :
    (SameSchedules (singleFinished.clear.submit singleJob) (some singleSubmitted) ∧
        singleTwice.used_job_queue_node_array.Nodup ↔
      singleJob.job_node_allocator = [] ∨ singleJob.job_node_allocator = []) ∧
    (singleFinished.is_ready_to_exit = true →
      (SameSchedules (singleFinished.clear.submit singleJob) (some singleSubmitted) ↔
        NothingReady singleJob)) := by
  obtain ⟨place, hr⟩ := reachable_singleFinished
  have hids : RegisteredIds singleJob := fun link hlink => absurd hlink List.not_mem_nil
  exact reuse_iff hids hr (Option.some_get _).symm (Option.some_get _).symm

theorem singleJob_not_reused :
    (∃ place, Reachable ⟨2, 2⟩ singleJob [()] (fun _ => 0) ⟨singleFinished, place, true⟩) ∧
    singleFinished.finished = [.job 0] ∧
    singleAgain.job_priority_queue = [] ∧ singleSubmitted.job_priority_queue = [.job 0] ∧
    ¬SameSchedules (singleFinished.clear.submit singleJob) (some singleSubmitted) ∧
    ¬singleTwice.used_job_queue_node_array.Nodup := by
  have hagain : singleFinished.clear.submit singleJob = some singleAgain :=
    (Option.some_get _).symm
  have hqueue : singleSubmitted.job_priority_queue = [.job 0] := by decide
  have hidle : Idle singleAgain := Or.inr ⟨by decide, (submit_outer hagain).2⟩
  refine ⟨reachable_singleFinished, by decide, by decide, hqueue, fun hsame => ?_, by decide⟩
  have hsubmitted : (DependencyJobQueue.initialized ⟨2, 2⟩ [()] fun _ => 0).submit singleJob =
      some singleSubmitted := (Option.some_get _).symm
  obtain ⟨r, q, place, hschedule⟩ :=
    exists_schedule (by decide) hqueue (submit_outer hsubmitted).2 ()
  obtain ⟨q₀, q₁, place', hq, hschedule'⟩ := (hsame _).mpr ⟨_, q, place, rfl, hschedule⟩
  obtain rfl := Option.some.inj (hagain.symm.trans hq)
  exact absurd (hschedule'.idle hidle).1 (List.cons_ne_nil _ _)

end SingleJob

end Awn.DependencyJob
