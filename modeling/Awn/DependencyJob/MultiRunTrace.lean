import Awn.DependencyJob.MultiRun

/-!
The runs of one job over whole runs of the queue: from `BuildJobGraph` on its word counts them as
long as it enters the ready queue once.
-/

namespace Awn.DependencyJob.Threads

section Build

variable {T : Type*} {j : Node} {q q' : DependencyJobQueue T}

theorem Inserted.registerDependency {parent dependent : Node}
    (hs : q.registerDependency parent dependent = some q') : Inserted j 0 q q' := by
  unfold DependencyJobQueue.registerDependency at hs
  split at hs
  case isFalse => cases hs
  obtain rfl := Option.some.inj hs
  have hcount : Inserted j 0 q { q with
      used_dependent_link_count := q.used_dependent_link_count + 1 } :=
    ⟨rfl, rfl, rfl, rfl, rfl, rfl⟩
  have hdependent := hcount.trans (Inserted.modify (n := dependent) _
    (f := fun x => { x with parent_count := x.parent_count + 1 }) (fun _ => rfl) (fun _ => rfl)
    fun _ => rfl)
  exact hdependent.trans (Inserted.modify _ (fun _ => rfl) (fun _ => rfl) fun _ => rfl)

theorem Inserted.addLinks {base_register_id : ℕ} {links : List JobRegisterLink} :
    ∀ {q : DependencyJobQueue T}, DependencyJobQueue.addLinks base_register_id links q = some q' →
      Inserted j 0 q q' := by
  induction links with
  | nil =>
    intro q hs
    obtain rfl := Option.some.inj hs
    exact Inserted.refl q
  | cons link links ih =>
    intro q hs
    unfold DependencyJobQueue.addLinks at hs
    dsimp only at hs
    split at hs
    case isFalse => cases hs
    obtain ⟨q₁, hregister, hs⟩ := Option.bind_eq_some_iff.mp hs
    exact (Inserted.registerDependency hregister).trans (ih hs)

def assign (graph_node : JobGraphNode) (x : JobQueueNode) : JobQueueNode :=
  { x with
    core_number := graph_node.core_number
    priority := graph_node.priority
    multi_run_state :=
      (x.multi_run_state &&& 0xffff0000) ||| graph_node.multi_run_count.zeroExtend 32 }

theorem addJobNode_inserted {index : ℕ} {graph_node : JobGraphNode}
    (hs : q.addJobNode index graph_node = some q') :
    Inserted j 0 (q.modify (.job index) (assign graph_node)) q' := by
  unfold DependencyJobQueue.addJobNode at hs
  split at hs
  case isFalse => cases hs
  obtain ⟨q₁, hregister, hs⟩ := Option.bind_eq_some_iff.mp hs
  split at hs
  case isFalse => cases hs
  obtain rfl := Option.some.inj hs
  have hregistered := Inserted.registerDependency (j := j) hregister
  exact ⟨hregistered.core_number, hregistered.is_complete_once, hregistered.multi_run_state,
    hregistered.queued, hregistered.entered, hregistered.thread_control⟩

theorem Inserted.addJobNode {index : ℕ} {graph_node : JobGraphNode} (hj : .job index ≠ j)
    (hs : q.addJobNode index graph_node = some q') : Inserted j 0 q q' :=
  (Inserted.modify q (fun heq => absurd heq hj) (fun heq => absurd heq hj)
    fun heq => absurd heq hj).trans (addJobNode_inserted hs)

theorem Inserted.addJobNodes {graph_nodes : List JobGraphNode} :
    ∀ {index : ℕ} {q : DependencyJobQueue T}, (∀ i, index ≤ i → .job i ≠ j) →
      DependencyJobQueue.addJobNodes index graph_nodes q = some q' → Inserted j 0 q q' := by
  induction graph_nodes with
  | nil =>
    intro index q _ hs
    obtain rfl := Option.some.inj hs
    exact Inserted.refl q
  | cons graph_node graph_nodes ih =>
    intro index q hj hs
    obtain ⟨q₁, hadd, hs⟩ := Option.bind_eq_some_iff.mp hs
    have hone := Inserted.addJobNode (hj index (Nat.le_refl index)) hadd
    exact hone.trans (ih (fun i hi => hj i (Nat.le_of_succ_le hi)) hs)

structure Assigned (j : Node) (graph_node : JobGraphNode) (q q' : DependencyJobQueue T) :
    Prop where
  core_number : (q'.node j).core_number = graph_node.core_number
  is_complete_once :
    (q'.node j).is_multi_run_complete_once = (q.node j).is_multi_run_complete_once
  multi_run_state : (q'.node j).multi_run_state =
    ((q.node j).multi_run_state &&& 0xffff0000) ||| graph_node.multi_run_count.zeroExtend 32
  queued : q'.job_priority_queue.count j = q.job_priority_queue.count j
  entered : entered q' j = entered q j
  thread_control : q'.thread_control = q.thread_control

theorem assigned_addJobNodes {graph_nodes : List JobGraphNode} {graph_node : JobGraphNode} :
    ∀ {index k : ℕ} {q : DependencyJobQueue T}, graph_nodes[k]? = some graph_node →
      DependencyJobQueue.addJobNodes index graph_nodes q = some q' →
        Assigned (.job (index + k)) graph_node q q' := by
  induction graph_nodes with
  | nil =>
    intro index k q hk _
    cases hk
  | cons first graph_nodes ih =>
    intro index k q hk hs
    obtain ⟨q₁, hadd, hs⟩ := Option.bind_eq_some_iff.mp hs
    cases k with
    | zero =>
      obtain rfl := Option.some.inj hk
      rw [Nat.add_zero]
      have hself : (q.modify (.job index) (assign first)).node (.job index) =
          assign first (q.node (.job index)) := Function.update_self _ _ _
      have hall := (addJobNode_inserted (j := .job index) hadd).trans
        (Inserted.addJobNodes (fun i hi heq => absurd (Node.job.inj heq) (by omega)) hs)
      constructor
      case core_number => rw [hall.core_number, hself]; rfl
      case is_complete_once => rw [hall.is_complete_once, hself]; rfl
      case multi_run_state => rw [hall.multi_run_state, hself]; rfl
      case queued => exact hall.queued
      case entered => exact hall.entered
      case thread_control => exact hall.thread_control
    | succ k =>
      have hne : Node.job index ≠ .job (index + (k + 1)) := fun heq =>
        absurd (Node.job.inj heq) (by omega)
      have hone := Inserted.addJobNode hne hadd
      have hmore := ih hk hs
      rw [Nat.add_assoc, Nat.add_comm 1 k] at hmore
      constructor
      case core_number => exact hmore.core_number
      case is_complete_once => rw [hmore.is_complete_once, hone.is_complete_once]
      case multi_run_state => rw [hmore.multi_run_state, hone.multi_run_state]
      case queued => exact hmore.queued.trans hone.queued
      case entered => exact hmore.entered.trans hone.entered
      case thread_control => exact hmore.thread_control.trans hone.thread_control

theorem assigned_buildJobGraph {queue_info : DependencyJobQueueInfo} {threads : List T}
    {core_number : T → ℕ} {job_graph : DependencyJobGraph} {i : ℕ} {graph_node : JobGraphNode}
    (hi : job_graph.job_node_allocator[i]? = some graph_node)
    (hs : (DependencyJobQueue.initialized queue_info threads core_number).buildJobGraph job_graph =
      some q) :
    Assigned (.job i) graph_node (DependencyJobQueue.initialized queue_info threads core_number)
      q := by
  obtain ⟨q₁, hnodes, hlinks⟩ := Option.bind_eq_some_iff.mp hs
  have hassigned := assigned_addJobNodes hi hnodes
  rw [Nat.zero_add] at hassigned
  have hinserted : Inserted (.job i) 0 q₁ q := Inserted.addLinks hlinks
  constructor
  case core_number => exact hinserted.core_number.trans hassigned.core_number
  case is_complete_once => exact hinserted.is_complete_once.trans hassigned.is_complete_once
  case multi_run_state => exact hinserted.multi_run_state.trans hassigned.multi_run_state
  case queued => exact hinserted.queued.trans hassigned.queued
  case entered => exact hinserted.entered.trans hassigned.entered
  case thread_control => exact hinserted.thread_control.trans hassigned.thread_control

end Build

section Runs

variable {T : Type*} [DecidableEq T] {queue_info : DependencyJobQueueInfo}
  {job_graph : DependencyJobGraph} {threads : List T} {core_number : T → ℕ} {i : ℕ}
  {graph_node : JobGraphNode} {P : State T → Event T → Prop} {es : List (Event T)} {s : State T}

theorem Trace.start_counted {q : DependencyJobQueue T}
    (hi : job_graph.job_node_allocator[i]? = some graph_node)
    (hpos : 0 < graph_node.multi_run_count.toNat)
    (hs : (DependencyJobQueue.initialized queue_info threads core_number).buildJobGraph job_graph =
      some q) :
    Counted (.job i) graph_node.core_number graph_node.multi_run_count.toNat []
      ⟨q, fun _ => .seeking, false⟩ := by
  have hassigned := assigned_buildJobGraph hi hs
  have hnode : (DependencyJobQueue.initialized queue_info threads core_number).node (.job i) =
      { } := by
    unfold DependencyJobQueue.initialized
    dsimp only
    rw [Function.update_of_ne]
    intro heq
    cases heq
  have hentered : entered q (.job i) = 0 := hassigned.entered
  constructor
  case core => exact hassigned.core_number
  case once => rw [hassigned.is_complete_once, hnode]
  case slots =>
    intro t
    rw [hassigned.thread_control]
    refine ⟨NextJob.noConfusion, fun _ heq => ?_⟩
    cases heq
  case active =>
    refine ⟨[], List.nodup_nil, fun t => ?_, rfl, ?_⟩
    · exact iff_of_false List.not_mem_nil Place.noConfusion
    · rw [hassigned.multi_run_state, hnode]
      change (0#32 &&& 0xffff0000#32 ||| graph_node.multi_run_count.zeroExtend 32).toNat = _
      rw [BitVec.zero_and, BitVec.zero_or, BitVec.toNat_setWidth]
      have hlt := graph_node.multi_run_count.isLt
      change _ % 2 ^ 32 = 0 * 65536 + (_ - 0)
      omega
  case bound => exact Nat.zero_le _
  case entered =>
    change entered q (.job i) ≤ 1
    omega
  case waiting => exact fun _ => rfl
  case queued =>
    rw [if_neg fun hc => absurd (hentered.symm.trans hc.1) Nat.zero_ne_one]
    exact hassigned.queued
  case visiting =>
    intro t ht
    cases ht
  case released =>
    intro hall
    change 0 = _ at hall
    omega
  case early => exact fun _ => rfl
  case visits =>
    intro es₁ es₂ t heq
    have hlength := congrArg List.length heq
    rw [List.length_append, List.length_cons] at hlength
    change 0 = _ at hlength
    omega

theorem Trace.counted (hi : job_graph.job_node_allocator[i]? = some graph_node)
    (hpos : 0 < graph_node.multi_run_count.toNat)
    (hP : ∀ es s e, Counted (.job i) graph_node.core_number graph_node.multi_run_count.toNat es s →
      P s e → Single (.job i) s e ∧ Own (.job i) s e)
    (ht : Trace queue_info job_graph threads core_number P es s) :
    Counted (.job i) graph_node.core_number graph_node.multi_run_count.toNat es s := by
  induction ht with
  | start hs => exact Trace.start_counted hi hpos hs
  | step _ hp hs ih =>
    obtain ⟨hsingle, hown⟩ := hP _ _ _ ih hp
    exact ih.step hpos graph_node.multi_run_count.isLt hs hsingle hown

structure MultiRun (count : ℕ) (j : Node) (es : List (Event T)) (s : State T) : Prop where
  hand_outs : handOuts es j ≤ count
  /-- From when it is ready until the last hand-out the job is in the queue, and then no more. -/
  queued : s.queue.job_priority_queue.count j =
    if entered s.queue j = 1 ∧ handOuts es j < count then 1 else 0
  releases : releases es j ≤ 1
  released : (finishers es j).length = count → Threads.releases es j = 1 ∨
    ∃ t, s.place t = .visiting j ∧ (finishers es j).getLast? = some t
  /-- Who releases the dependents has ended the last of all runs. -/
  last : ∀ es₁ es₂ t, es = es₁ ++ .visit t j :: es₂ →
    handOuts es₁ j = count ∧ (finishers es₁ j).length = count ∧
      (finishers es₁ j).getLast? = some t

omit [DecidableEq T] in
theorem Counted.multiRun {core_number count : ℕ} {j : Node}
    (h : Counted j core_number count es s) : MultiRun count j es s where
  hand_outs := h.bound
  queued := h.queued
  releases := by
    by_cases hall : (finishers es j).length = count
    · obtain hone | ⟨t, ht⟩ := h.released hall
      · exact Nat.le_of_eq hone
      · rw [(h.visiting t ht).2.2]
        exact Nat.zero_le 1
    · rw [h.early hall]
      exact Nat.zero_le 1
  released := by
    intro hall
    obtain hone | ⟨t, ht⟩ := h.released hall
    · exact Or.inl hone
    · exact Or.inr ⟨t, ht, (h.visiting t ht).2.1⟩
  last := h.visits

structure CompletesOnce (count : ℕ) (j : Node) (es : List (Event T)) (s : State T) : Prop where
  no_more : ∀ es₁ es₂ e, es = es₁ ++ e :: es₂ → e.handsOut j = true → finishers es₁ j = []
  not_queued : finishers es j ≠ [] → j ∉ s.queue.job_priority_queue
  /-- The word is what is going on and what is left, so neither half has gone below zero. -/
  word : handOuts es j ≤ count ∧ ∃ active : List T, active.Nodup ∧
    (∀ t, t ∈ active ↔ s.place t = .running j) ∧
    handOuts es j = (finishers es j).length + active.length ∧
    (s.queue.node j).multi_run_state.toNat = active.length * 0x10000 + (count - handOuts es j)
  releases : releases es j ≤ 1
  released : finishers es j ≠ [] → (finishers es j).length = handOuts es j →
    Threads.releases es j = 1 ∨
      ∃ t, s.place t = .visiting j ∧ (finishers es j).getLast? = some t
  last : ∀ es₁ es₂ t, es = es₁ ++ .visit t j :: es₂ →
    (finishers es₁ j).length = handOuts es₁ j ∧ (finishers es₁ j).getLast? = some t

def Exhausted (j : Node) (s : State T) : Event T → Prop
  | .finish _ n => n = j → (s.queue.node j).multi_run_state &&& 0xffff = 0
  | _ => True

structure Over (count : ℕ) (j : Node) (es : List (Event T)) : Prop where
  handed_out : finishers es j ≠ [] → handOuts es j = count
  no_more : ∀ es₁ es₂ e, es = es₁ ++ e :: es₂ → e.handsOut j = true → finishers es₁ j = []

omit [DecidableEq T] in
theorem Over.step {core_number count : ℕ} {j : Node} {e : Event T} {s' : State T}
    (h : Over count j es) (hbound : count < 0x10000) (hc : Counted j core_number count es s)
    (hc' : Counted j core_number count (es ++ [e]) s') (he : Exhausted j s e) :
    Over count j (es ++ [e]) := by
  have hgrow : e.handsOut j = true → finishers es j = [] := by
    intro hout
    by_contra hne
    have hfull := h.handed_out hne
    have hbound' := hc'.bound
    rw [handOuts_append, if_pos hout] at hbound'
    omega
  constructor
  case handed_out =>
    intro hne
    by_cases hout : e.handsOut j = true
    · have hnil := hgrow hout
      cases hfinisher : e.finisher j with
      | none =>
        rw [finishers_append_none es hfinisher] at hne
        exact absurd hnil hne
      | some t =>
        cases e with
        | finish _ _ => cases hout
        | _ => cases hfinisher
    · have hsame : handOuts (es ++ [e]) j = handOuts es j := by
        rw [handOuts_append, if_neg hout]
        rfl
      rw [hsame]
      cases hfinisher : e.finisher j with
      | none =>
        rw [finishers_append_none es hfinisher] at hne
        exact h.handed_out hne
      | some t =>
        cases e with
        | finish u n =>
          by_cases hn : n = j
          · have hlow := congrArg BitVec.toNat (he hn)
            obtain ⟨active, -, -, -, hstate⟩ := hc.active
            rw [low_toNat, hstate] at hlow
            change _ = 0 at hlow
            have hle := hc.bound
            omega
          · change (if n = j then some u else none) = some t at hfinisher
            rw [if_neg hn] at hfinisher
            cases hfinisher
        | _ => cases hfinisher
  case no_more =>
    intro es₁ es₂ f heq hout
    obtain ⟨-, rfl, rfl⟩ | ⟨es₃, -, hes⟩ := split_append heq
    · exact hgrow hout
    · exact h.no_more es₁ es₃ f hes hout

section Examples

theorem Trace.mono {Q : State T → Event T → Prop} (hPQ : ∀ s e, P s e → Q s e)
    (ht : Trace queue_info job_graph threads core_number P es s) :
    Trace queue_info job_graph threads core_number Q es s := by
  induction ht with
  | start hs => exact Trace.start hs
  | step _ hp hs ih => exact ih.step (hPQ _ _ hp) hs

omit [DecidableEq T] in
theorem eq_some_of_get {α β : Type*} {x : Option (α × β)} (h : x.isSome) {a : α}
    (ha : (x.get h).1 = a) : x = some (a, (x.get h).2) := by
  subst ha
  exact (Option.some_get h).symm

def oneJob (is_multi_run_complete_once : Bool) : DependencyJobGraph where
  job_node_allocator := [⟨cJobAnyCore, cJobNormalPriority, 2, is_multi_run_complete_once⟩]
  register_link_allocator := []

def oneJobQueue (b : Bool) : DependencyJobQueue Bool :=
  ((DependencyJobQueue.initialized ⟨1, 1⟩ [false, true] fun _ => 0).buildJobGraph
    (oneJob b)).get rfl

def oneJobSetUp (b : Bool) : DependencyJobQueue Bool := (oneJobQueue b).setupRun.get rfl

def oneJobFirst (b : Bool) : DependencyJobQueue Bool :=
  (((oneJobSetUp b).scheduleFromQueue false).get (by decide +revert)).2

def oneJobBoth (b : Bool) : DependencyJobQueue Bool :=
  (((oneJobFirst b).scheduleFromQueue true).get (by decide +revert)).2

def oneJobEnded (b : Bool) : DependencyJobQueue Bool :=
  (((oneJobFirst b).finishRun (.job 0)).get (by decide +revert)).2

def oneJobAgain (b : Bool) : DependencyJobQueue Bool :=
  (((oneJobEnded b).scheduleFromQueue false).get (by decide +revert)).2

theorem oneJobQueue_empty (b : Bool) : entered (oneJobQueue b) (.job 0) = 0 ∧
    (oneJobQueue b).used_job_queue_node_array.length ≤ 1 := by
  decide +revert

theorem oneJobFirst_eq (b : Bool) : (oneJobSetUp b).scheduleFromQueue false =
    some (.job (some (.job 0)), oneJobFirst b) :=
  eq_some_of_get _ (by decide +revert)

theorem oneJobFirst_core_number (b : Bool) :
    ((oneJobFirst b).node (.job 0)).core_number = cJobAnyCore := by
  decide +revert

theorem oneJobBoth_eq (b : Bool) : (oneJobFirst b).scheduleFromQueue true =
    some (.job (some (.job 0)), oneJobBoth b) :=
  eq_some_of_get _ (by decide +revert)

theorem trace_oneJob (b : Bool) : ∃ place, Trace ⟨1, 1⟩ (oneJob b) [false, true] (fun _ => 0)
    (fun s e => Single (.job 0) s e ∧ Own (.job 0) s e ∧ Exhausted (.job 0) s e)
    [.setupRun, .schedule false (.job (some (.job 0))), .schedule true (.job (some (.job 0)))]
    ⟨oneJobBoth b, place, true⟩ := by
  have hstart : Trace ⟨1, 1⟩ (oneJob b) [false, true] (fun _ => 0)
      (fun s e => Single (.job 0) s e ∧ Own (.job 0) s e ∧ Exhausted (.job 0) s e) []
      ⟨oneJobQueue b, fun _ => .seeking, false⟩ := Trace.start rfl
  have hsetup := hstart.step (e := .setupRun) ⟨fun _ _ => oneJobQueue_empty b, trivial, trivial⟩
    (@Step.setupRun _ _ _ (oneJobSetUp b) rfl rfl)
  have hfirst := hsetup.step (e := .schedule false (.job (some (.job 0))))
    ⟨trivial, fun _ _ _ => Or.inl rfl, trivial⟩
    (@Step.schedule _ _ _ false _ (oneJobFirst b) rfl (oneJobFirst_eq b))
  have hboth := hfirst.step (e := .schedule true (.job (some (.job 0))))
    ⟨trivial, fun _ _ _ => Or.inl (oneJobFirst_core_number b), trivial⟩
    (@Step.schedule _ _ _ true _ (oneJobBoth b) rfl (oneJobBoth_eq b))
  exact ⟨_, hboth⟩

def twoFreeJobs : DependencyJobGraph where
  job_node_allocator :=
    [⟨cJobAnyCore, cJobNormalPriority, 1, false⟩, ⟨cJobAnyCore, cJobNormalPriority, 1, false⟩]
  register_link_allocator := []

def twoFreeQueue : DependencyJobQueue Bool :=
  ((DependencyJobQueue.initialized ⟨2, 2⟩ [false, true] fun _ => 0).buildJobGraph
    twoFreeJobs).get rfl

def twoFreeSetUp : DependencyJobQueue Bool := twoFreeQueue.setupRun.get rfl

def twoFreeFirst : DependencyJobQueue Bool :=
  ((twoFreeSetUp.scheduleFromQueue false).get (by decide)).2

def twoFreeSecond : DependencyJobQueue Bool :=
  ((twoFreeFirst.scheduleFromQueue true).get (by decide)).2

end Examples

end Runs

end Awn.DependencyJob.Threads
