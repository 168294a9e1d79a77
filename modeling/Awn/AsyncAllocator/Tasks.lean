import Awn.Async.Queue

/-!
`AsyncTaskAllocator` with its tasks, their watchers and the queues they are pushed to. A task's one
list node links it into the two lists of the allocator and into the lists of the queues. Of a queue
only the list and the first task of each level are kept; no task's `m_priority` is ever written.
-/

namespace Awn.AsyncAllocator

open Async (Status)

inductive WatcherState
  | Uninitialized | Pending | Complete | Cancelled
  deriving DecidableEq

def WatcherState.isDone : WatcherState → Bool
  | .Uninitialized | .Pending => false
  | .Complete | .Cancelled => true

structure AsyncTaskForAllocator (Q W : Type*) where
  m_is_free_for_allocator : Bool
  m_status : Status
  m_queue : Option Q
  m_task_allocator : Bool
  m_watcher : Option W

structure AsyncTaskWatcher (K : Type*) where
  m_state : WatcherState
  m_reference_count : BitVec 32
  m_async_task : Option K

abbrev Head (Q : Type*) := Bool ⊕ Q

structure Memory (K Q W : Type*) where
  m_list_index : Bool
  m_available_event : Bool
  links : Links (Head Q ⊕ K)
  task : K → AsyncTaskForAllocator Q W
  watcher : W → AsyncTaskWatcher K
  async_task_head : Q → ℕ → Option K
  priority_level_count : Q → ℕ

namespace Memory

variable {K Q W : Type*} [DecidableEq K] [DecidableEq Q] [DecidableEq W]

def listHead (b : Bool) : Head Q ⊕ K := .inl (.inl b)

def queueHead (q : Q) : Head Q ⊕ K := .inl (.inr q)

def modifyTask (m : Memory K Q W) (k : K)
    (f : AsyncTaskForAllocator Q W → AsyncTaskForAllocator Q W) : Memory K Q W :=
  { m with task := Function.update m.task k (f (m.task k)) }

def modifyWatcher (m : Memory K Q W) (w : W) (f : AsyncTaskWatcher K → AsyncTaskWatcher K) :
    Memory K Q W :=
  { m with watcher := Function.update m.watcher w (f (m.watcher w)) }

def unlink (m : Memory K Q W) (k : K) : Memory K Q W := { m with links := m.links.unlink (.inr k) }

def findFree (m : Memory K Q W) : ℕ → Head Q ⊕ K → Option K
  | 0, _ => none
  | _ + 1, .inl _ => none
  | fuel + 1, .inr k =>
    if (m.task k).m_is_free_for_allocator then some k else m.findFree fuel (m.links.next (.inr k))

def setAllocator (m : Memory K Q W) (k : K) : Memory K Q W :=
  (m.modifyTask k fun x =>
    { x with m_is_free_for_allocator := false, m_task_allocator := true }).unlink k

/-- `AcquireTaskImpl` with a task in the list, `none` while it goes through the list. -/
def acquireTaskImpl (m : Memory K Q W) (fuel : ℕ) : Option (K × Memory K Q W) :=
  (m.findFree fuel (m.links.next (listHead m.m_list_index))).map fun k => (k, m.setAllocator k)

def swapLists (m : Memory K Q W) : Option (Memory K Q W) :=
  if m.links.isLinked (listHead m.m_list_index) then none
  else if m.m_available_event then
    some { m with m_list_index := !m.m_list_index, m_available_event := false }
  else none

def freeTask (m : Memory K Q W) (k : K) : Memory K Q W :=
  let m := m.modifyTask k fun x =>
    { x with m_is_free_for_allocator := true, m_task_allocator := false }
  { m with
    links := m.links.linkPrev (listHead (!m.m_list_index)) (.inr k)
    m_available_event := true }

def setWatcher (m : Memory K Q W) (k : K) (watcher : W) : Memory K Q W :=
  match (m.task k).m_watcher with
  | some _ => m
  | none =>
    (m.modifyTask k fun x => { x with m_watcher := some watcher }).modifyWatcher watcher fun x =>
      { m_state := .Pending
        m_reference_count := x.m_reference_count + 1
        m_async_task := some k }

def freeToAllocator (m : Memory K Q W) (k : K) : Memory K Q W :=
  match (m.task k).m_watcher with
  | none => m
  | some watcher =>
    let m := m.modifyTask k fun x => { x with m_watcher := none }
    if (m.watcher watcher).m_state.isDone = false then m
    else if (m.task k).m_task_allocator then m.freeTask k
    else m

def releaseReference (m : Memory K Q W) (w : W) : Memory K Q W :=
  let new_count := (m.watcher w).m_reference_count - 1
  if (m.watcher w).m_reference_count < 1 ∨ new_count = 0 then
    let m := if (m.watcher w).m_reference_count < 1 then m
      else m.modifyWatcher w fun x => { x with m_reference_count := new_count }
    match (m.watcher w).m_async_task with
    | none => m
    | some k => (m.freeToAllocator k).modifyWatcher w fun x => { x with m_async_task := none }
  else m.modifyWatcher w fun x => { x with m_reference_count := new_count }

def reference (m : Memory K Q W) (w : W) : Memory K Q W :=
  m.modifyWatcher w fun x => { x with m_reference_count := x.m_reference_count + 1 }

def releaseWatcher (m : Memory K Q W) (k : K) (state : WatcherState) : Memory K Q W :=
  match (m.task k).m_watcher with
  | some w => (m.modifyWatcher w fun x => { x with m_state := state }).releaseReference w
  | none => if (m.task k).m_task_allocator then m.freeTask k else m

def lowerHead (m : Memory K Q W) (q : Q) : ℕ → Option K
  | 0 => none
  | priority + 1 =>
    match m.async_task_head q priority with
    | some head => some head
    | none => m.lowerHead q priority

def setHead (m : Memory K Q W) (q : Q) (i : ℕ) (head : Option K) : Memory K Q W :=
  { m with
    async_task_head := Function.update m.async_task_head q
      (Function.update (m.async_task_head q) i head) }

def nextHead (m : Memory K Q W) (k : K) (i : ℕ) : Option K :=
  match m.links.next (.inr k) with
  | .inl _ => none
  | .inr next => if i = 0 then some next else none

def link (m : Memory K Q W) (k : K) (q : Q) (priority : ℕ) : Memory K Q W :=
  match m.lowerHead q priority with
  | none => { m with links := m.links.linkPrev (queueHead q) (.inr k) }
  | some head => { m with links := m.links.linkNext (.inr head) (.inr k) }

def pushTask (m : Memory K Q W) (k : K) (q : Q) (priority : ℕ) (invoke_sync : Bool) :
    Option (Async.AsyncQueue.Pushed × Memory K Q W) :=
  if m.links.isLinked (.inr k) then some (.AlreadyQueued, m)
  else if ¬priority ≤ m.priority_level_count q then some (.InvalidPriority, m)
  else
    let m := m.modifyTask k fun x => { x with m_queue := some q }
    if invoke_sync then some (.InvokedSync, m.modifyTask k fun x => { x with m_status := .Queued })
    else if priority < m.priority_level_count q then
      let m := m.link k q priority
      let m := if m.async_task_head q priority = none then m.setHead q priority (some k) else m
      some (.Queued, m.modifyTask k fun x => { x with m_status := .Queued })
    else none

def takeTask (m : Memory K Q W) (q : Q) (i : ℕ) (k : K) : Memory K Q W :=
  ((m.setHead q i (m.nextHead k i)).unlink k).modifyTask k fun x => { x with m_status := .Acquired }

def unschedule (m : Memory K Q W) (q : Q) (k : K) : Memory K Q W :=
  (if m.async_task_head q 0 = some k then m.setHead q 0 (m.nextHead k 0) else m).unlink k

def setFree (m : Memory K Q W) (k : K) (status : Status) : Memory K Q W :=
  m.modifyTask k fun x => { x with m_status := status, m_is_free_for_allocator := true }

end Memory

inductive Pc (K : Type*)
  | idle
  | scheduling (k : K)
  | executing (k : K)
  | finishing (k : K) (status : Status)

def Pc.owned {K : Type*} : Pc K → Option K
  | .scheduling k | .executing k => some k
  | .idle | .finishing _ _ => none

structure State (A K Q W : Type*) where
  memory : Memory K Q W
  pc : A → Pc K
  references : W → ℕ

inductive Call (K Q W : Type*)
  | acquire
  | swap
  | setWatcher (w : W)
  | push (q : Q) (priority : ℕ) (invoke_sync : Bool)
  | take (q : Q) (i : ℕ)
  | postExecute
  | reschedule (q : Q) (priority : ℕ)
  | freeExecute
  | cancel (k : K)
  | settle
  | reference (w : W)
  | release (w : W)

variable {A K Q W : Type*} [DecidableEq A] [DecidableEq K] [DecidableEq Q] [DecidableEq W]

def State.goto (s : State A K Q W) (a : A) (m : Memory K Q W) (pc : Pc K) : State A K Q W :=
  { s with memory := m, pc := Function.update s.pc a pc }

def State.afterPush (s : State A K Q W) (a : A) (k : K) (m : Memory K Q W) :
    Async.AsyncQueue.Pushed → State A K Q W
  | .AlreadyQueued | .InvalidPriority => s.goto a (m.freeTask k) .idle
  | .InvokedSync => s.goto a m (.executing k)
  | .Queued => s.goto a m .idle

inductive Step : State A K Q W → A → Call K Q W → State A K Q W → Prop
  | acquire {s} {a} {fuel : ℕ} {r : K × Memory K Q W} : s.pc a = .idle →
      s.memory.acquireTaskImpl fuel = some r → Step s a .acquire (s.goto a r.2 (.scheduling r.1))
  | swap {s} {a} {m : Memory K Q W} : s.pc a = .idle → s.memory.swapLists = some m →
      Step s a .swap (s.goto a m .idle)
  | setWatcher {s} {a} {k : K} {w : W} : s.pc a = .scheduling k →
      Step s a (.setWatcher w) (s.goto a (s.memory.setWatcher k w) (.scheduling k))
  | push {s} {a} {k : K} {q : Q} {priority : ℕ} {invoke_sync : Bool}
      {r : Async.AsyncQueue.Pushed × Memory K Q W} : s.pc a = .scheduling k →
      s.memory.pushTask k q priority invoke_sync = some r →
      Step s a (.push q priority invoke_sync) (s.afterPush a k r.2 r.1)
  | take {s} {a} {k : K} {q : Q} {i : ℕ} : s.pc a = .idle → s.memory.async_task_head q i = some k →
      Step s a (.take q i) (s.goto a (s.memory.takeTask q i k) (.executing k))
  | postExecute {s} {a} {k : K} : s.pc a = .executing k →
      Step s a .postExecute (s.goto a
        (s.memory.modifyTask k fun x => { x with m_status := .PostExecute }) (.executing k))
  /-- The task's result function pushes it again. -/
  | reschedule {s} {a} {k : K} {q : Q} {priority : ℕ} {m : Memory K Q W} : s.pc a = .executing k →
      s.memory.pushTask k q priority false = some (.Queued, m) →
      Step s a (.reschedule q priority) (s.goto a m .idle)
  | freeExecute {s} {a} {k : K} : s.pc a = .executing k →
      Step s a .freeExecute (s.goto a (s.memory.releaseWatcher k .Complete) (.finishing k .Complete))
  | cancel {s} {a} {k : K} {q : Q} : s.pc a = .idle → (s.memory.task k).m_status = .Queued →
      (s.memory.task k).m_queue = some q →
      Step s a (.cancel k) (s.goto a ((s.memory.unschedule q k).releaseWatcher k .Cancelled)
        (.finishing k .Cancelled))
  | settle {s} {a} {k : K} {status : Status} : s.pc a = .finishing k status →
      Step s a .settle (s.goto a (s.memory.setFree k status) .idle)
  | reference {s} {a} {w : W} :
      Step s a (.reference w) { s with
        memory := s.memory.reference w
        references := Function.update s.references w (s.references w + 1) }
  | release {s} {a} {w : W} : 0 < s.references w →
      Step s a (.release w) { s with
        memory := s.memory.releaseReference w
        references := Function.update s.references w (s.references w - 1) }

inductive Run (allowed : State A K Q W → A → Call K Q W → Prop) : State A K Q W → Prop
  | start {s : State A K Q W} {pool : List K} : (∀ k, k ∈ pool) →
      s.memory.links.Represents (fun h => if h = .inl s.memory.m_list_index then pool else []) →
      s.memory.m_available_event = false →
      (∀ k, (s.memory.task k).m_is_free_for_allocator = true ∧ (s.memory.task k).m_watcher = none) →
      (∀ w, s.memory.watcher w = ⟨.Uninitialized, 0, none⟩) → (∀ a, s.pc a = .idle) →
      (∀ w, s.references w = 0) → Run allowed s
  | step {s s' : State A K Q W} {a : A} {c : Call K Q W} : Run allowed s → allowed s a c →
      Step s a c s' → Run allowed s'

inductive Place (A Q W : Type*)
  | list (b : Bool)
  | queue (q : Q)
  | thread (a : A)
  | watcher (w : W)

def State.At (s : State A K Q W) (k : K) : Place A Q W → Prop
  | .list b => ∃ xs : List K, s.memory.links.Ring (Memory.listHead b) (Links.nodes xs) ∧ k ∈ xs
  | .queue q => ∃ xs : List K, s.memory.links.Ring (Memory.queueHead q) (Links.nodes xs) ∧ k ∈ xs
  | .thread a => (s.pc a).owned = some k
  | .watcher w => (s.memory.task k).m_watcher = some w ∧ (s.memory.watcher w).m_state.isDone = true

def State.Done (s : State A K Q W) : Prop :=
  (∀ a, (s.pc a).owned = none) ∧ (∀ k q, ¬s.At k (.queue q)) ∧ ∀ w, s.references w = 0

structure Contract (s : State A K Q W) : Prop where
  place : ∀ k, ∃! p, s.At k p
  free : ∀ k b, s.At k (.list b) → (s.memory.task k).m_is_free_for_allocator = true
  available : (∃ k b, s.At k (.list b)) →
    (∃ fuel r, s.memory.acquireTaskImpl fuel = some r) ∨ ∃ m, s.memory.swapLists = some m
  whole : s.Done → ∀ k, ∃ b, s.At k (.list b)

end Awn.AsyncAllocator
