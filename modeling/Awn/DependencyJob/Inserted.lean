import Awn.DependencyJob.Queue

/-!
What the parts of a call do with one node: it may enter the ready queue, and otherwise they leave
its word, its core and its place in the queue alone.
-/

namespace Awn.DependencyJob.Threads

variable {T : Type*}

structure Inserted (j : Node) (count : ℕ) (q q' : DependencyJobQueue T) : Prop where
  core_number : (q'.node j).core_number = (q.node j).core_number
  is_complete_once :
    (q'.node j).is_multi_run_complete_once = (q.node j).is_multi_run_complete_once
  multi_run_state : (q'.node j).multi_run_state = (q.node j).multi_run_state
  queued : q'.job_priority_queue.count j = q.job_priority_queue.count j + count
  entered : entered q' j = entered q j + count
  thread_control : q'.thread_control = q.thread_control

namespace Inserted

variable {q q' q₁ q₂ q₃ : DependencyJobQueue T} {j n : Node} {count count' : ℕ}

theorem refl (q : DependencyJobQueue T) : Inserted j 0 q q := ⟨rfl, rfl, rfl, rfl, rfl, rfl⟩

theorem trans (h : Inserted j count q₁ q₂) (h' : Inserted j count' q₂ q₃) :
    Inserted j (count + count') q₁ q₃ where
  core_number := h'.core_number.trans h.core_number
  is_complete_once := h'.is_complete_once.trans h.is_complete_once
  multi_run_state := h'.multi_run_state.trans h.multi_run_state
  queued := by
    rw [h'.queued, h.queued, Nat.add_assoc]
  entered := by
    rw [h'.entered, h.entered, Nat.add_assoc]
  thread_control := h'.thread_control.trans h.thread_control

theorem own_slots (h : Inserted j count q q') :
    Inserted j count { q with thread_control := q'.thread_control } q' :=
  ⟨h.core_number, h.is_complete_once, h.multi_run_state, h.queued, h.entered, rfl⟩

theorem modify_node (q : DependencyJobQueue T) {f : JobQueueNode → JobQueueNode} {β : Type*}
    (g : JobQueueNode → β) (hf : n = j → g (f (q.node n)) = g (q.node n)) :
    g ((q.modify n f).node j) = g (q.node j) := by
  unfold DependencyJobQueue.modify
  dsimp only
  by_cases hj : j = n
  · subst hj
    rw [Function.update_self]
    exact hf rfl
  · rw [Function.update_of_ne hj]

theorem modify (q : DependencyJobQueue T) {f : JobQueueNode → JobQueueNode}
    (hcore : n = j → (f (q.node n)).core_number = (q.node n).core_number)
    (honce : n = j →
      (f (q.node n)).is_multi_run_complete_once = (q.node n).is_multi_run_complete_once)
    (hstate : n = j → (f (q.node n)).multi_run_state = (q.node n).multi_run_state) :
    Inserted j 0 q (q.modify n f) where
  core_number := modify_node q JobQueueNode.core_number hcore
  is_complete_once := modify_node q JobQueueNode.is_multi_run_complete_once honce
  multi_run_state := modify_node q JobQueueNode.multi_run_state hstate
  queued := rfl
  entered := rfl
  thread_control := rfl

theorem queueInsert (hs : q.queueInsert n = some q') :
    Inserted j (if n = j then 1 else 0) q q' := by
  unfold DependencyJobQueue.queueInsert at hs
  split at hs
  · obtain rfl := Option.some.inj hs
    constructor
    case queued =>
      dsimp only
      rw [(PriorityQueue.insert_perm _ _ _).count_eq, List.count_cons]
      congr 1
      by_cases hj : n = j
      · rw [if_pos hj, hj]
        exact if_pos (beq_self_eq_true j)
      · rw [if_neg hj]
        exact if_neg (by rw [beq_iff_eq]; exact hj)
    case entered =>
      unfold Threads.entered
      dsimp only
      rw [List.countP_append, List.countP_singleton]
      congr 1
      by_cases hj : n = j
      · rw [if_pos hj, if_pos (decide_eq_true hj)]
      · rw [if_neg hj, if_neg (by rw [decide_eq_true_iff]; exact hj)]
    all_goals rfl
  · cases hs

theorem setupRunFrom {is : List ℕ} :
    ∀ {q : DependencyJobQueue T}, q.setupRunFrom is = some q' →
      (∀ i ∈ is, i < q.used_job_queue_node_array.length) →
      Inserted j (if q.used_job_queue_node_array[0]? = some j ∧ (q.node j).parent_count = 0
        then is.length else 0) q q' := by
  induction is with
  | nil =>
    intro q hs _
    obtain rfl := Option.some.inj hs
    rw [List.length_nil, ite_self]
    exact refl q
  | cons i rest ih =>
    intro q hs hlt
    have hi := hlt i List.mem_cons_self
    have hrest : ∀ k ∈ rest, k < q.used_job_queue_node_array.length := fun k hk =>
      hlt k (List.mem_cons_of_mem i hk)
    unfold DependencyJobQueue.setupRunFrom pointerAt at hs
    rw [if_pos hi] at hs
    split at hs
    · cases hs
    · rename_i n hn
      split at hs
      · rename_i hparent
        have hnot : ¬(q.used_job_queue_node_array[0]? = some j ∧ (q.node j).parent_count = 0) := by
          rintro ⟨hj, hzero⟩
          rw [hn] at hj
          rw [Option.some.inj hj, hzero] at hparent
          exact absurd hparent (BitVec.lt_irrefl _)
        have hinserted := ih hs hrest
        rw [if_neg hnot] at hinserted ⊢
        exact hinserted
      · rename_i hparent
        obtain ⟨q₁, hinsert, hs⟩ := Option.bind_eq_some_iff.mp hs
        have hone := queueInsert (j := j) hinsert
        have hused : q₁.used_job_queue_node_array = q.used_job_queue_node_array ∧
            q₁.node = q.node := by
          unfold DependencyJobQueue.queueInsert at hinsert
          split at hinsert
          · obtain rfl := Option.some.inj hinsert
            exact ⟨rfl, rfl⟩
          · cases hinsert
        have hmore := ih hs (by rw [hused.1]; exact hrest)
        rw [hused.1, hused.2] at hmore
        have hall := hone.trans hmore
        have hcount : (if n = j then 1 else 0) +
            (if q.used_job_queue_node_array[0]? = some j ∧ (q.node j).parent_count = 0
              then rest.length else 0) =
            if q.used_job_queue_node_array[0]? = some j ∧ (q.node j).parent_count = 0
              then (i :: rest).length else 0 := by
          rw [hn]
          by_cases hj : n = j
          · have hzero : (q.node j).parent_count = 0 := by
              rw [← hj]
              exact BitVec.not_lt.mp hparent |> BitVec.le_zero_iff.mp
            rw [if_pos hj, if_pos ⟨congrArg some hj, hzero⟩, if_pos ⟨congrArg some hj, hzero⟩,
              List.length_cons, Nat.add_comm]
          · rw [if_neg hj, if_neg fun h => hj (Option.some.inj h.1),
              if_neg fun h => hj (Option.some.inj h.1)]
        rw [hcount] at hall
        exact hall

end Inserted

def hits (parent_count : BitVec 32) : ℕ → ℕ
  | 0 => 0
  | visits + 1 =>
    (if parent_count - 1 = 1 then 1 else 0) + hits (parent_count - 1) visits

theorem Inserted.visitDependents {j : Node} {q' : DependencyJobQueue T} {dependents : List Node} :
    ∀ {q : DependencyJobQueue T}, q.visitDependents dependents = some q' →
      Inserted j (hits (q.node j).parent_count (dependents.count j)) q q' := by
  induction dependents with
  | nil =>
    intro q hs
    obtain rfl := Option.some.inj hs
    exact Inserted.refl q
  | cons dependent rest ih =>
    intro q hs
    unfold DependencyJobQueue.visitDependents at hs
    dsimp only at hs
    have hmodified : Inserted j 0 q (q.modify dependent fun x =>
        { x with parent_count := (q.node dependent).parent_count - 1 }) :=
      Inserted.modify q (fun _ => rfl) (fun _ => rfl) fun _ => rfl
    have hparent : ((q.modify dependent fun x =>
          { x with parent_count := (q.node dependent).parent_count - 1 }).node j).parent_count =
        if dependent = j then (q.node j).parent_count - 1 else (q.node j).parent_count := by
      unfold DependencyJobQueue.modify
      dsimp only
      by_cases hj : j = dependent
      · subst hj
        rw [Function.update_self, if_pos rfl]
      · rw [Function.update_of_ne hj, if_neg (Ne.symm hj)]
    split at hs
    · rename_i hne
      have hmore := hmodified.trans (ih hs)
      rw [hparent, Nat.zero_add] at hmore
      by_cases hj : dependent = j
      · subst hj
        rw [if_pos rfl] at hmore
        rw [List.count_cons_self, hits, if_neg hne, Nat.zero_add]
        exact hmore
      · rw [if_neg hj] at hmore
        rw [List.count_cons_of_ne hj]
        exact hmore
    · rename_i hone
      rw [not_not] at hone
      obtain ⟨q₁, hinsert, hs⟩ := Option.bind_eq_some_iff.mp hs
      have hinserted := hmodified.trans (Inserted.queueInsert (j := j) hinsert)
      have hnode : q₁.node = (q.modify dependent fun x =>
          { x with parent_count := (q.node dependent).parent_count - 1 }).node := by
        unfold DependencyJobQueue.queueInsert at hinsert
        split at hinsert
        · obtain rfl := Option.some.inj hinsert
          rfl
        · cases hinsert
      have hmore := hinserted.trans (ih hs)
      rw [hnode, hparent, Nat.zero_add] at hmore
      by_cases hj : dependent = j
      · subst hj
        rw [if_pos rfl, if_pos rfl] at hmore
        rw [List.count_cons_self, hits, if_pos hone]
        exact hmore
      · rw [if_neg hj, if_neg hj, Nat.zero_add] at hmore
        rw [List.count_cons_of_ne hj]
        exact hmore

def Apart (j : Node) (q : DependencyJobQueue T) : Prop :=
  ∀ t, (q.thread_control t).next_job ≠ .node j ∧
    ∀ k, (q.thread_control t).local_job_ring.m_array k ≠ some j

section Apart

variable [DecidableEq T] {j n : Node} {q q' : DependencyJobQueue T}

theorem Apart.update (h : Apart j q) {t : T} {x : DependencyJobThreadControl}
    (hslot : x.next_job ≠ .node j) (hring : ∀ k, x.local_job_ring.m_array k ≠ some j) :
    Apart j { q with thread_control := Function.update q.thread_control t x } := by
  intro u
  dsimp only
  by_cases hu : u = t
  · subst hu
    rw [Function.update_self]
    exact ⟨hslot, hring⟩
  · rw [Function.update_of_ne hu]
    exact h u

theorem Apart.setNextJob (h : Apart j q) (t : T) {next_job : NextJob} (hn : next_job ≠ .node j) :
    Apart j (q.setNextJob t next_job) :=
  h.update hn (h t).2

omit [DecidableEq T] in
theorem removeFront_ne {ring : RingBuffer Node} (h : ∀ k, ring.m_array k ≠ some j) (size : ℕ) :
    (ring.removeFront size).1 ≠ some j ∧ ∀ k, (ring.removeFront size).2.m_array k ≠ some j := by
  unfold RingBuffer.removeFront
  split
  · refine ⟨fun heq => ?_, h⟩
    cases heq
  · exact ⟨h _, h⟩

theorem Apart.setNextJobFromLocalRing (h : Apart j q) (t : T) :
    Apart j (q.setNextJobFromLocalRing t) := by
  obtain ⟨hfront, hring⟩ := removeFront_ne (h t).2 cMaxLocalJobCount
  unfold DependencyJobQueue.setNextJobFromLocalRing
  apply h.update
  · dsimp only
    split
    · exact NextJob.noConfusion
    · rename_i n hn
      intro heq
      rw [NextJob.node.inj heq] at hn
      exact hfront hn
  · exact hring

theorem Apart.setReadyToExit (h : Apart j q) : Apart j q.setReadyToExit := by
  have hfold : ∀ (is : List ℕ) (q : DependencyJobQueue T), Apart j q →
      Apart j (is.foldl DependencyJobQueue.unblock q) := by
    intro is
    induction is with
    | nil => exact fun _ h => h
    | cons i rest ih =>
      intro q h
      apply ih
      unfold DependencyJobQueue.unblock
      split
      · exact h
      · split
        · exact h.setNextJob _ NextJob.noConfusion
        · exact h
  exact hfold _ _ h

theorem inserted_setReadyToExit (j : Node) (q : DependencyJobQueue T) :
    Inserted j 0 { q with thread_control := q.setReadyToExit.thread_control } q.setReadyToExit := by
  have hfold : ∀ (is : List ℕ) (q : DependencyJobQueue T),
      (is.foldl DependencyJobQueue.unblock q).node = q.node ∧
      (is.foldl DependencyJobQueue.unblock q).job_priority_queue = q.job_priority_queue ∧
      (is.foldl DependencyJobQueue.unblock q).ready = q.ready := by
    intro is
    induction is with
    | nil => exact fun _ => ⟨rfl, rfl, rfl⟩
    | cons i rest ih =>
      intro q
      have hone : (q.unblock i).node = q.node ∧
          (q.unblock i).job_priority_queue = q.job_priority_queue ∧
          (q.unblock i).ready = q.ready := by
        unfold DependencyJobQueue.unblock
        split
        · exact ⟨rfl, rfl, rfl⟩
        · split
          all_goals exact ⟨rfl, rfl, rfl⟩
      obtain ⟨hnode, hqueue, hready⟩ := ih (q.unblock i)
      exact ⟨hnode.trans hone.1, hqueue.trans hone.2.1, hready.trans hone.2.2⟩
  obtain ⟨hnode, hqueue, hready⟩ := hfold (List.range q.thread_control_array.length)
    { q with is_ready_to_exit := true }
  have hentered : entered q.setReadyToExit j = entered q j := congrArg (List.countP _) hready
  have hnode' : q.setReadyToExit.node j = q.node j := congrFun hnode j
  constructor
  case core_number => exact congrArg JobQueueNode.core_number hnode'
  case is_complete_once => exact congrArg JobQueueNode.is_multi_run_complete_once hnode'
  case multi_run_state => exact congrArg JobQueueNode.multi_run_state hnode'
  case queued => exact congrArg (List.count j) hqueue
  case entered => exact hentered
  case thread_control => rfl

theorem queueNextJobByCoreFrom_other (hn : n ≠ j) (h : Apart j q) {is : List ℕ}
    (hs : q.queueNextJobByCoreFrom n is = some q') :
    Apart j q' ∧ Inserted j 0 { q with thread_control := q'.thread_control } q' := by
  induction is with
  | nil =>
    obtain rfl := Option.some.inj hs
    exact ⟨h, Inserted.refl _⟩
  | cons i rest ih =>
    unfold DependencyJobQueue.queueNextJobByCoreFrom at hs
    split at hs
    · cases hs
    · rename_i t ht
      split at hs
      · exact ih hs
      · split at hs
        · obtain ⟨ring, hinsert, rfl⟩ := Option.map_eq_some_iff.mp hs
          refine ⟨h.update (h t).1 ?_, Inserted.refl _⟩
          unfold RingBuffer.insert at hinsert
          split at hinsert
          · obtain rfl := Option.some.inj hinsert
            intro k
            dsimp only
            generalize (q.thread_control t).local_job_ring.m_offset +
              (q.thread_control t).local_job_ring.m_count - _ = place
            by_cases hk : k = place
            · rw [hk, Function.update_self]
              exact fun heq => hn (Option.some.inj heq)
            · rw [Function.update_of_ne hk]
              exact (h t).2 k
          · cases hinsert
        · obtain rfl := Option.some.inj hs
          exact ⟨h.setNextJob t fun heq => hn (NextJob.node.inj heq), Inserted.refl _⟩

omit [DecidableEq T] in
theorem finishRun_other (hn : n ≠ j) {last_run_state : BitVec 32}
    (hs : q.finishRun n = some (last_run_state, q')) : Inserted j 0 q q' := by
  unfold DependencyJobQueue.finishRun at hs
  obtain ⟨q₁, hforce, heq⟩ := Option.map_eq_some_iff.mp hs
  obtain ⟨-, rfl⟩ := Prod.mk.inj heq
  have hforced : Inserted j 0 q q₁ := by
    split at hforce
    · unfold DependencyJobQueue.forceRemoveForCompleteOnce at hforce
      have hstate : Inserted j 0 q (q.modify n fun x => { x with
          multi_run_state := (q.node n).multi_run_state &&& 0xffff0000 }) :=
        Inserted.modify q (fun heq => absurd heq hn) (fun heq => absurd heq hn)
          fun heq => absurd heq hn
      dsimp only at hforce
      split at hforce
      · obtain rfl := Option.some.inj hforce
        exact hstate
      · split at hforce
        · rename_i hmem
          obtain rfl := Option.some.inj hforce
          refine ⟨hstate.core_number, hstate.is_complete_once, hstate.multi_run_state, ?_, rfl,
            rfl⟩
          dsimp only
          have hmem' : n ∈ q.job_priority_queue := hmem
          have hlt := List.idxOf_lt_length_of_mem hmem'
          have hperm := PriorityQueue.remove_perm (fun k => (((q.modify n fun x => { x with
            multi_run_state := (q.node n).multi_run_state &&& 0xffff0000 }).node k).priority : ℤ))
            hlt
          rw [List.getElem_idxOf] at hperm
          have hcount := hperm.count_eq j
          rw [List.count_cons_of_ne hn] at hcount
          exact hcount.symm
        · cases hforce
    · obtain rfl := Option.some.inj hforce
      exact Inserted.refl q
  have hmodify : Inserted j 0 q₁ (q₁.modify n fun x => { x with
      multi_run_state := (q₁.node n).multi_run_state - 0x10000 }) :=
    Inserted.modify q₁ (fun heq => absurd heq hn) (fun heq => absurd heq hn)
      fun heq => absurd heq hn
  exact hforced.trans hmodify

def takeRun (q : DependencyJobQueue T) (n : Node) : DependencyJobQueue T :=
  q.modify n fun x => { x with multi_run_state := (q.node n).multi_run_state + 0xffff }

def Runs (q : DependencyJobQueue T) (n : Node) (t : T) : Prop :=
  (q.node n).core_number = cJobAnyCore ∨
    (q.node n).core_number = (q.thread_control t).core_number

omit [DecidableEq T] in
theorem takeRun_core_number (q : DependencyJobQueue T) (n k : Node) :
    ((takeRun q n).node k).core_number = (q.node k).core_number :=
  Inserted.modify_node q JobQueueNode.core_number fun _ => rfl

omit [DecidableEq T] in
theorem takeRun_multi_run_state (q : DependencyJobQueue T) (n : Node) :
    ((takeRun q n).node n).multi_run_state = (q.node n).multi_run_state + 0xffff := by
  unfold takeRun DependencyJobQueue.modify
  dsimp only
  rw [Function.update_self]

inductive Taken (q : DependencyJobQueue T) (t : T) (n : Node) (rest : List Node) :
    DependencyJobQueue.Scheduled → DependencyJobQueue T → Prop
  | more : (q.node n).multi_run_state &&& 0xffff ≠ 1 →
      Taken q t n rest (.job (some n)) (takeRun q n)
  | last {entries : List Node} : (q.node n).multi_run_state &&& 0xffff = 1 → entries.Perm rest →
      Runs q n t →
      Taken q t n rest (.job (some n)) { takeRun q n with job_priority_queue := entries }
  | aside {entries : List Node} {q' : DependencyJobQueue T} :
      (q.node n).multi_run_state &&& 0xffff = 1 → entries.Perm rest → ¬Runs q n t →
      { takeRun q n with job_priority_queue := entries }.queueNextJobByCore n = some q' →
      Taken q t n rest .goOn q'

theorem scheduleFromQueue_cases {t : T} {r : DependencyJobQueue.Scheduled}
    (hs : q.scheduleFromQueue t = some (r, q')) :
    (q.job_priority_queue = [] ∧ r = .requiresWait ∧ q' = q) ∨
      ∃ n rest, q.job_priority_queue = n :: rest ∧ Taken q t n rest r q' := by
  unfold DependencyJobQueue.scheduleFromQueue at hs
  split at hs
  · rename_i hempty
    cases hs
    exact Or.inl ⟨hempty, rfl, rfl⟩
  · rename_i n rest hqueue
    refine Or.inr ⟨n, rest, hqueue, ?_⟩
    dsimp only at hs
    split at hs
    · rename_i hmore
      cases hs
      exact Taken.more hmore
    · rename_i hlast
      rw [not_not] at hlast
      obtain ⟨⟨front, entries⟩, hfront, hs⟩ := Option.bind_eq_some_iff.mp hs
      have hperm : entries.Perm rest := by
        change PriorityQueue.removeFront _ q.job_priority_queue = _ at hfront
        have hall := PriorityQueue.removeFront_perm _ hfront
        obtain ⟨others, hothers, hperm⟩ := PriorityQueue.removeFront_cons
          (fun k => (((takeRun q n).node k).priority : ℤ)) n rest
        rw [hqueue] at hfront
        obtain ⟨-, rfl⟩ := Prod.mk.inj (Option.some.inj (hothers.symm.trans hfront))
        exact hperm
      dsimp only at hs
      have hcore := takeRun_core_number q n n
      split at hs
      · rename_i hruns
        cases hs
        refine Taken.last hlast hperm ?_
        unfold Runs
        rw [← hcore]
        exact hruns
      · rename_i hruns
        obtain ⟨q₁, hnext, heq⟩ := Option.map_eq_some_iff.mp hs
        cases heq
        refine Taken.aside hlast hperm ?_ hnext
        unfold Runs
        rw [← hcore]
        exact hruns

end Apart

end Awn.DependencyJob.Threads
