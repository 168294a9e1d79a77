import Awn.DependencyJob.MultiRunTrace

/-!
Jobs that are pinned to a core. A thread of another core that takes the last run of such a job puts
it into the slot or the ring of a thread of the core, from where that thread should get it.
-/

namespace Awn.DependencyJob.Threads

variable {T : Type*} [DecidableEq T]

def asideTo (q : DependencyJobQueue T) (n : Node) : Option T :=
  ((List.range q.thread_control_array.length).filterMap (pointerAt q.thread_control_array)).find?
    fun t => decide ((q.thread_control t).core_number = (q.node n).core_number) ||
      (q.thread_control t).is_ready_to_exit

def putsAside (u : T) (n : Node) : State T × Event T → Bool
  | (s, .schedule _ .goOn) =>
    s.queue.job_priority_queue.head? = some n ∧ asideTo s.queue n = some u
  | _ => false

def getsBack (u : T) (n : Node) : State T × Event T → Bool
  | (_, .read t k) => t = u ∧ k = n
  | _ => false

def returns (u : T) (n : Node) : Event T → Bool
  | .read t k => t = u ∧ k = n
  | .schedule t (.job (some k)) => t = u ∧ k = n
  | _ => false

def Holds (q : DependencyJobQueue T) (u : T) (n : Node) : Prop :=
  (q.thread_control u).next_job = .node n ∨
    n ∈ (q.thread_control u).local_job_ring.contents cMaxLocalJobCount

inductive History (queue_info : DependencyJobQueueInfo) (job_graph : DependencyJobGraph)
    (threads : List T) (core_number : T → ℕ) (P : State T → Event T → Prop) :
    List (State T × Event T) → State T → Prop
  | start {q : DependencyJobQueue T} :
      (DependencyJobQueue.initialized queue_info threads core_number).buildJobGraph job_graph =
        some q →
      History queue_info job_graph threads core_number P [] ⟨q, fun _ => .seeking, false⟩
  | step {es : List (State T × Event T)} {s s' : State T} {e : Event T} :
      History queue_info job_graph threads core_number P es s → P s e → Step s e s' →
        History queue_info job_graph threads core_number P (es ++ [(s, e)]) s'

structure Kept (es : List (State T × Event T)) (s : State T) : Prop where
  placed : ∀ s₁ e t n, (s₁, e) ∈ es → returns t n e = true → Runs s₁.queue n t
  /-- What a thread gets back has been put aside for it. -/
  once : ∀ u n, es.countP (getsBack u n) ≤ es.countP (putsAside u n)
  /-- A job that is in the slot or the ring no more has been returned. -/
  not_lost : ∀ u n, ¬Holds s.queue u n → es.countP (getsBack u n) = es.countP (putsAside u n)

def Fitting (s : State T) : Event T → Prop
  | .schedule t _ => ∀ n rest, s.queue.job_priority_queue = n :: rest → Runs s.queue n t
  | _ => True

variable {queue_info : DependencyJobQueueInfo} {job_graph : DependencyJobGraph}
  {threads : List T} {core_number : T → ℕ} {es : List (State T × Event T)} {s s' : State T}
  {e : Event T} {q : DependencyJobQueue T}

def Bare (q : DependencyJobQueue T) : Prop := ∀ j, Apart j q

omit [DecidableEq T] in
theorem Bare.same {q' : DependencyJobQueue T} (h : Bare q)
    (hslots : q'.thread_control = q.thread_control) : Bare q' := by
  intro j t
  rw [hslots]
  exact h j t

theorem Bare.schedule (h : Bare s.queue) {t : T} {r : DependencyJobQueue.Scheduled}
    (hs : s.queue.scheduleFromQueue t = some (r, q)) (hfitting : Fitting s (.schedule t r)) :
    Bare q ∧ r ≠ .goOn ∧ ∀ n, r = .job (some n) → Runs s.queue n t := by
  obtain ⟨-, rfl, rfl⟩ | ⟨n, rest, hqueue, htaken⟩ := scheduleFromQueue_cases hs
  · refine ⟨h, DependencyJobQueue.Scheduled.noConfusion, fun n heq => ?_⟩
    cases heq
  · have hruns := hfitting n rest hqueue
    have hjob : ∀ k, DependencyJobQueue.Scheduled.job (some n) = .job (some k) →
        Runs s.queue k t := by
      intro k heq
      cases heq
      exact hruns
    cases htaken with
    | more _ => exact ⟨h.same rfl, DependencyJobQueue.Scheduled.noConfusion, hjob⟩
    | last _ _ _ => exact ⟨h.same rfl, DependencyJobQueue.Scheduled.noConfusion, hjob⟩
    | aside _ _ hnot _ => exact absurd hruns hnot

theorem Bare.step (h : Bare s.queue) (hs : Step s e s') (hfitting : Fitting s e) :
    Bare s'.queue := by
  cases hs with
  | setupRun _ hrun =>
    have hinserted := Inserted.setupRunFrom (j := .final) hrun fun i hi => List.mem_range.mp hi
    exact h.same hinserted.thread_control
  | @refill t _ _ _ => exact fun j => (h j).setNextJobFromLocalRing t
  | read _ _ => exact h
  | readNull _ _ => exact h
  | schedule _ hschedule => exact (h.schedule hschedule hfitting).1
  | @block t _ _ => exact fun j => (h j).setNextJob t NextJob.noConfusion
  | @waitRefill t _ => exact fun j => (h j).setNextJobFromLocalRing t
  | @unblock t _ => exact fun j => (h j).setNextJob t NextJob.noConfusion
  | @finish t n last_run_state q _ hfinish =>
    have hslots : q.thread_control = s.queue.thread_control := by
      cases n with
      | job i => exact (finishRun_other (j := .final) Node.noConfusion hfinish).thread_control
      | final => exact (finishRun_other (j := .job 0) Node.noConfusion hfinish).thread_control
    apply h.same
    rw [← hslots]
    change (afterFinish q n last_run_state).thread_control = _
    unfold afterFinish
    split
    all_goals rfl
  | visit _ hvisit => exact h.same (Inserted.visitDependents (j := .final) hvisit).thread_control
  | @clear t n _ =>
    change Bare (s.queue.clearDependents n)
    unfold DependencyJobQueue.clearDependents
    dsimp only
    split
    · exact h
    · exact fun j => Apart.setReadyToExit (h j)
  | exit _ _ => exact h

structure Unused (es : List (State T × Event T)) (s : State T) : Prop where
  bare : Bare s.queue
  placed : ∀ s₁ e t n, (s₁, e) ∈ es → returns t n e = true → Runs s₁.queue n t
  put : ∀ u n, es.countP (putsAside u n) = 0
  got : ∀ u n, es.countP (getsBack u n) = 0

theorem Unused.step (h : Unused es s) (hs : Step s e s') (hfitting : Fitting s e) :
    Unused (es ++ [(s, e)]) s' := by
  have hgot : ∀ u n, getsBack u n (s, e) = false := by
    intro u n
    cases hs with
    | @read t k _ hnext => exact absurd hnext (h.bare k t).1
    | _ => rfl
  constructor
  case bare => exact h.bare.step hs hfitting
  case placed =>
    intro s₁ f t n hmem hreturns
    rw [List.mem_append, List.mem_singleton] at hmem
    obtain hmem | heq := hmem
    · exact h.placed s₁ f t n hmem hreturns
    · obtain ⟨rfl, rfl⟩ := Prod.mk.inj heq
      cases hs with
      | @schedule u r q _ hschedule =>
        obtain ⟨-, -, hruns⟩ := h.bare.schedule hschedule hfitting
        cases r with
        | job out =>
          cases out with
          | none => cases hreturns
          | some k =>
            obtain ⟨rfl, rfl⟩ := of_decide_eq_true hreturns
            exact hruns k rfl
        | _ => cases hreturns
      | @read u k _ hnext => exact absurd hnext (h.bare k u).1
      | _ => cases hreturns
  case put =>
    intro u n
    have hnone : putsAside u n (s, e) = false := by
      cases hs with
      | @schedule t r q _ hschedule =>
        cases r with
        | goOn => exact absurd rfl (h.bare.schedule hschedule hfitting).2.1
        | _ => rfl
      | _ => rfl
    rw [List.countP_append, h.put u n, List.countP_singleton, hnone]
    rfl
  case got =>
    intro u n
    rw [List.countP_append, h.got u n, List.countP_singleton, hgot u n]
    rfl

section OnePinnedJob

def pinnedJob : DependencyJobGraph where
  job_node_allocator := [⟨1, cJobNormalPriority, 1, false⟩]
  register_link_allocator := []

def pinnedQueue : DependencyJobQueue Bool :=
  ((DependencyJobQueue.initialized ⟨1, 1⟩ [true, false] Bool.toNat).buildJobGraph
    pinnedJob).get rfl

def pinnedSetUp : DependencyJobQueue Bool := pinnedQueue.setupRun.get rfl

def pinnedTaken : DependencyJobQueue Bool :=
  ((pinnedSetUp.scheduleFromQueue true).get (by decide)).2

def pinnedAside : DependencyJobQueue Bool :=
  ((pinnedSetUp.scheduleFromQueue false).get (by decide)).2

end OnePinnedJob

end Awn.DependencyJob.Threads
