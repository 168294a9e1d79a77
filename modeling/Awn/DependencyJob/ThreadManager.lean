import Mathlib.Data.Nat.Notation
import Mathlib.Logic.Function.Basic
import Mathlib.Order.Basic

/-!
`awn::async::DependencyJobThreadManager`: `SubmitGraph` hands a queue to the threads by a message
each, and `FinishRun` waits for the event that each of them signals when its `Process` has
returned. What is done under the critical section of an event is one step.
-/

namespace Awn.DependencyJobThreadManager

structure Event where
  m_signal_state : Bool
  m_wake_id : BitVec 32

namespace Event

def Signal (event : Event) : Event := ⟨true, event.m_wake_id + 1⟩

def Clear (event : Event) : Event := { event with m_signal_state := false }

end Event

inductive ThreadPc
  | receive
  | process
  | signal

structure DependencyJobThread (Q : Type*) where
  pc : ThreadPc
  messages : ℕ
  m_queue : Option Q
  m_finish_event : Event
  processed : List Q
  submitted : List Q

inductive ManagerPc
  | idle
  | start (i : ℕ)
  | submitted
  | wait (i : ℕ)
  | asleep (i : ℕ) (wake_id : BitVec 32) (is_woken : Bool)

structure State (Q : Type*) where
  m_thread_array : ℕ → DependencyJobThread Q
  pc : ManagerPc
  m_queue : Option Q
  m_active_core_mask : ℕ → Bool

inductive Call (Q : Type*)
  | SubmitGraph (job_queue : Q) (active : ℕ → Bool)
  | FinishRun
  | manager
  | thread (i : ℕ)
  | spurious

namespace State

variable {Q : Type*} (count : ℕ) (s : State Q)

def setThread (i : ℕ) (thread : DependencyJobThread Q) : State Q :=
  { s with m_thread_array := Function.update s.m_thread_array i thread }

def submit (job_queue : Q) (active : ℕ → Bool) : State Q where
  m_thread_array i :=
    let thread := s.m_thread_array i
    if active i = true then
      { thread with
        m_finish_event := thread.m_finish_event.Clear
        m_queue := some job_queue
        submitted := thread.submitted ++ [job_queue] }
    else thread
  pc := .start 0
  m_queue := some job_queue
  m_active_core_mask := active

def send (i : ℕ) : State Q :=
  let thread := s.m_thread_array i
  if s.m_active_core_mask i = true then
    s.setThread i { thread with messages := thread.messages + 1 }
  else s

def manager : Option (State Q) :=
  match s.pc with
  | .start i =>
    if i < count then some { s.send i with pc := .start (i + 1) }
    else some { s with pc := .submitted }
  | .wait i =>
    let event := (s.m_thread_array i).m_finish_event
    if i < count then
      if s.m_active_core_mask i = false ∨ event.m_signal_state = true then
        some { s with pc := .wait (i + 1) }
      else some { s with pc := .asleep i event.m_wake_id false }
    else some { s with pc := .idle }
  | .asleep i wake_id true =>
    let event := (s.m_thread_array i).m_finish_event
    if wake_id = event.m_wake_id ∧ event.m_signal_state = false then
      some { s with pc := .asleep i wake_id false }
    else some { s with pc := .wait (i + 1) }
  | _ => none

def wake (i : ℕ) : ManagerPc → ManagerPc
  | .asleep j wake_id is_woken => .asleep j wake_id (is_woken || i == j)
  | pc => pc

/-- A message without a queue fails the assertion. -/
def thread (i : ℕ) : Option (State Q) :=
  let thread := s.m_thread_array i
  match thread.pc, thread.m_queue with
  | .receive, some _ =>
    if thread.messages = 0 then none
    else some (s.setThread i { thread with pc := .process, messages := thread.messages - 1 })
  | .process, some queue =>
    some (s.setThread i { thread with
      pc := .signal
      processed := thread.processed ++ [queue] })
  | .signal, _ =>
    some { s.setThread i { thread with
      pc := .receive
      m_finish_event := thread.m_finish_event.Signal } with pc := wake i s.pc }
  | _, none => none

/-- `SubmitGraph` and `FinishRun` are called in turn. The `Process` of the calling thread lies
before `FinishRun`, as it touches none of this. -/
def call : Call Q → Option (State Q)
  | .SubmitGraph job_queue active =>
    match s.pc with
    | .idle => some (s.submit job_queue active)
    | _ => none
  | .FinishRun =>
    match s.pc with
    | .submitted => some { s with pc := .wait 0 }
    | _ => none
  | .manager => s.manager count
  | .thread i => if i < count then s.thread i else none
  | .spurious =>
    match s.pc with
    | .asleep i wake_id _ => some { s with pc := .asleep i wake_id true }
    | _ => none

end State

inductive Reachable {Q : Type*} (count : ℕ) : State Q → Prop
  | start (m_wake_id : ℕ → BitVec 32) (m_queue : Option Q) (active : ℕ → Bool) :
    Reachable count ⟨fun i => ⟨.receive, 0, none, ⟨false, m_wake_id i⟩, [], []⟩, .idle, m_queue, active⟩
  | step {s s' : State Q} {c : Call Q} : Reachable count s → s.call count c = some s' →
    Reachable count s'

namespace DependencyJobThread

variable {Q : Type*} (m_queue : Option Q) (t : DependencyJobThread Q)

def Owes : Prop := ∃ queue, m_queue = some queue ∧ t.processed ++ [queue] = t.submitted

structure Idle : Prop where
  pc : t.pc = .receive
  messages : t.messages = 0
  processed : t.processed = t.submitted

structure Ready : Prop where
  pc : t.pc = .receive
  messages : t.messages = 0
  owes : t.Owes m_queue
  cleared : t.m_finish_event.m_signal_state = false
  queue : t.m_queue = m_queue

inductive Running : Prop
  | called : t.pc = .receive → t.messages = 1 → t.Owes m_queue →
    t.m_finish_event.m_signal_state = false → t.m_queue = m_queue → Running
  | processing : t.pc = .process → t.messages = 0 → t.Owes m_queue →
    t.m_finish_event.m_signal_state = false → t.m_queue = m_queue → Running
  | signalling : t.pc = .signal → t.messages = 0 → t.processed = t.submitted →
    t.m_finish_event.m_signal_state = false → Running
  | finished : t.Idle → t.m_finish_event.m_signal_state = true → Running

end DependencyJobThread

section Kept

variable {Q : Type*} {count : ℕ} {s s' : State Q}

open DependencyJobThread

def At (m_queue : Option Q) (i : ℕ) (t : DependencyJobThread Q) : ManagerPc → Prop
  | .idle => t.Idle
  | .start k => if i < k then t.Running m_queue else t.Ready m_queue
  | .submitted => t.Running m_queue
  | .wait k | .asleep k _ _ =>
    if i < k then t.Idle ∧ t.m_finish_event.m_signal_state = true else t.Running m_queue

structure Asleep (active : Bool) (event : Event) (wake_id : BitVec 32) (is_woken : Bool) : Prop where
  active : active = true
  unsignaled : is_woken = false → event.m_signal_state = false
  same : event.m_signal_state = false → wake_id = event.m_wake_id

structure Kept (count : ℕ) (s : State Q) : Prop where
  active : ∀ i < count, s.m_active_core_mask i = true → At s.m_queue i (s.m_thread_array i) s.pc
  skipped : ∀ i < count, s.m_active_core_mask i = false → (s.m_thread_array i).Idle
  asleep : ∀ k wake_id is_woken, s.pc = .asleep k wake_id is_woken →
    k < count ∧
      Asleep (s.m_active_core_mask k) (s.m_thread_array k).m_finish_event wake_id is_woken

theorem DependencyJobThread.Running.idle {m_queue : Option Q} {t : DependencyJobThread Q}
    (h : t.Running m_queue) (hsignal : t.m_finish_event.m_signal_state = true) : t.Idle := by
  cases h with
  | called _ _ _ hcleared _ => exact absurd hsignal (hcleared ▸ Bool.false_ne_true)
  | processing _ _ _ hcleared _ => exact absurd hsignal (hcleared ▸ Bool.false_ne_true)
  | signalling _ _ _ hcleared => exact absurd hsignal (hcleared ▸ Bool.false_ne_true)
  | finished hidle _ => exact hidle

theorem At.rests_or_runs {m_queue : Option Q} {i : ℕ} {t : DependencyJobThread Q} {pc : ManagerPc}
    (h : At m_queue i t pc) : (t.pc = .receive ∧ t.messages = 0) ∨
      t.Running m_queue ∧ ∀ t' : DependencyJobThread Q, t'.Running m_queue → At m_queue i t' pc := by
  cases pc with
  | idle => exact .inl ⟨h.pc, h.messages⟩
  | start k =>
    simp only [At] at h ⊢
    split_ifs at h ⊢
    · exact .inr ⟨h, fun _ h' => h'⟩
    · exact .inl ⟨h.pc, h.messages⟩
  | submitted => exact .inr ⟨h, fun _ h' => h'⟩
  | wait k | asleep k _ _ =>
    simp only [At] at h ⊢
    split_ifs at h ⊢
    · exact .inl ⟨h.1.pc, h.1.messages⟩
    · exact .inr ⟨h, fun _ h' => h'⟩

theorem Kept.idle (h : Kept count s) (hpc : s.pc = .idle) {i : ℕ} (hi : i < count) :
    (s.m_thread_array i).Idle := by
  cases hmask : s.m_active_core_mask i with
  | true => exact (hpc ▸ h.active i hi hmask : At _ _ _ .idle)
  | false => exact h.skipped i hi hmask

theorem Kept.submit (h : Kept count s) (hpc : s.pc = .idle) (job_queue : Q) (active : ℕ → Bool) :
    Kept count (s.submit job_queue active) where
  active i hi hactive := by
    have hidle := h.idle hpc hi
    change At (some job_queue) i (if active i = true then _ else _) (.start 0)
    rw [if_pos (show active i = true from hactive), At, if_neg (Nat.not_lt_zero i)]
    exact ⟨hidle.pc, hidle.messages, ⟨job_queue, rfl, congrArg (· ++ [job_queue]) hidle.processed⟩,
      rfl, rfl⟩
  skipped i hi hactive := by
    change DependencyJobThread.Idle (if active i = true then _ else s.m_thread_array i)
    rw [if_neg (show ¬active i = true from Bool.eq_false_iff.mp hactive)]
    exact h.idle hpc hi
  asleep := nofun

theorem lt_succ_of_ne {j k : ℕ} (h : j ≠ k) : j < k + 1 ↔ j < k := by
  omega

theorem Kept.goto (h : Kept count s) {pc : ManagerPc}
    (hpc : ∀ i < count, s.m_active_core_mask i = true → At s.m_queue i (s.m_thread_array i) s.pc →
      At s.m_queue i (s.m_thread_array i) pc)
    (hsleep : ∀ k wake_id is_woken, pc = .asleep k wake_id is_woken → k < count ∧
      Asleep (s.m_active_core_mask k) (s.m_thread_array k).m_finish_event wake_id is_woken) :
    Kept count { s with pc := pc } where
  active i hi hactive := hpc i hi hactive (h.active i hi hactive)
  skipped := h.skipped
  asleep := hsleep

theorem Kept.past (h : Kept count s) {k : ℕ}
    (hpc : ∀ j t, At s.m_queue j t s.pc → At s.m_queue j t (.wait k))
    (hsignal : k < count → s.m_active_core_mask k = true →
      (s.m_thread_array k).m_finish_event.m_signal_state = true) :
    Kept count { s with pc := .wait (k + 1) } := by
  refine h.goto (fun i hi hactive ht => ?_) nofun
  have ht := hpc i _ ht
  simp only [At] at ht ⊢
  by_cases hik : i = k
  · subst hik
    rw [if_neg (Nat.lt_irrefl i)] at ht
    rw [if_pos (Nat.lt_succ_self i)]
    exact ⟨ht.idle (hsignal hi hactive), hsignal hi hactive⟩
  · simp only [lt_succ_of_ne hik]
    exact ht

theorem Kept.replace (h : Kept count s) {i : ℕ} {t : DependencyJobThread Q} {pc : ManagerPc}
    (hmask : s.m_active_core_mask i = true)
    (hpc : ∀ j u, j ≠ i → At s.m_queue j u s.pc → At s.m_queue j u pc) (ht : At s.m_queue i t pc)
    (hsleep : ∀ k wake_id is_woken, pc = .asleep k wake_id is_woken → k < count ∧
      Asleep (s.m_active_core_mask k) (Function.update s.m_thread_array i t k).m_finish_event
        wake_id is_woken) :
    Kept count { s.setThread i t with pc := pc } where
  active j hj hactive := by
    by_cases hji : j = i
    · subst hji
      simp only [State.setThread, Function.update_self]
      exact ht
    · simp only [State.setThread, Function.update_of_ne hji]
      exact hpc j _ hji (h.active j hj hactive)
  skipped j hj hactive := by
    have hji : j ≠ i := fun heq => absurd (heq ▸ hmask) (Bool.eq_false_iff.mp hactive)
    simp only [State.setThread, Function.update_of_ne hji]
    exact h.skipped j hj hactive
  asleep := hsleep

theorem Kept.send (h : Kept count s) {k : ℕ} (hk : k < count) (hpc : s.pc = .start k) :
    Kept count { s.send k with pc := .start (k + 1) } := by
  have hlater (j : ℕ) (u : DependencyJobThread Q) (hjk : j ≠ k) (hu : At s.m_queue j u s.pc) :
      At s.m_queue j u (.start (k + 1)) := by
    rw [hpc] at hu
    simp only [At, lt_succ_of_ne hjk] at hu ⊢
    exact hu
  unfold State.send
  by_cases hmask : s.m_active_core_mask k = true
  · have hready := h.active k hk hmask
    rw [hpc, At, if_neg (Nat.lt_irrefl k)] at hready
    rw [if_pos hmask]
    refine h.replace hmask hlater ?_ nofun
    rw [At, if_pos (Nat.lt_succ_self k)]
    exact .called hready.pc (congrArg (· + 1) hready.messages) hready.owes hready.cleared
      hready.queue
  · rw [if_neg hmask]
    exact h.goto (fun i _ hactive ht => hlater i _ (fun heq => hmask (heq ▸ hactive)) ht) nofun

theorem Kept.manager (h : Kept count s) (hstep : s.manager count = some s') : Kept count s' := by
  unfold State.manager at hstep
  split at hstep
  · rename_i k hpc
    split_ifs at hstep with hk
    · cases hstep
      exact h.send hk hpc
    · cases hstep
      refine h.goto (fun i hi _ ht => ?_) nofun
      rw [hpc, At, if_pos (by omega)] at ht
      exact ht
  · rename_i k hpc
    dsimp only at hstep
    split_ifs at hstep with hk hpast
    · cases hstep
      refine h.past (fun _ _ ht => hpc ▸ ht) fun _ hactive => ?_
      exact hpast.resolve_left (ne_false_of_eq_true hactive)
    · cases hstep
      obtain ⟨hactive, hsignal⟩ := not_or.mp hpast
      refine h.goto (fun i hi _ ht => by rw [hpc] at ht; exact ht) ?_
      intro j wake_id is_woken hasleep
      cases hasleep
      exact ⟨hk, eq_true_of_ne_false hactive,
        fun _ => Bool.eq_false_iff.mpr hsignal, fun _ => rfl⟩
    · cases hstep
      refine h.goto (fun i hi _ ht => ?_) nofun
      rw [hpc, At, if_pos (by omega)] at ht
      exact ht.1
  · rename_i k wake_id hpc
    obtain ⟨hk, hasleep⟩ := h.asleep k wake_id true hpc
    dsimp only at hstep
    split_ifs at hstep with hagain
    · cases hstep
      refine h.goto (fun i hi _ ht => by rw [hpc] at ht; exact ht) ?_
      intro j wake_id' is_woken heq
      cases heq
      exact ⟨hk, hasleep.active, fun _ => hagain.2, hasleep.same⟩
    · cases hstep
      refine h.past (fun _ _ ht => (hpc ▸ ht : At _ _ _ (.asleep k _ _))) fun _ _ => ?_
      by_contra hsignal
      have hsignal := Bool.eq_false_iff.mpr hsignal
      exact hagain ⟨hasleep.same hsignal, hsignal⟩
  · cases hstep

theorem at_wake {m_queue : Option Q} {t : DependencyJobThread Q} {pc : ManagerPc} (i j : ℕ) :
    At m_queue j t (State.wake i pc) ↔ At m_queue j t pc := by
  cases pc <;> exact Iff.rfl

theorem wake_eq_asleep {i k : ℕ} {pc : ManagerPc} {wake_id : BitVec 32} {is_woken : Bool}
    (h : State.wake i pc = .asleep k wake_id is_woken) :
    ∃ was_woken, pc = .asleep k wake_id was_woken ∧ is_woken = (was_woken || i == k) := by
  cases pc with
  | asleep => cases h; exact ⟨_, rfl, rfl⟩
  | idle | start | submitted | wait => cases h

theorem thread_rests {i : ℕ} (hpc : (s.m_thread_array i).pc = .receive)
    (hmessages : (s.m_thread_array i).messages = 0) : s.thread i = none := by
  unfold State.thread
  simp only [hpc, hmessages, if_true]
  split
  · rfl
  all_goals first
  | rfl
  | contradiction

theorem running_thread {i : ℕ} (h : (s.m_thread_array i).Running s.m_queue) :
    ((s.m_thread_array i).Idle ∧ (s.m_thread_array i).m_finish_event.m_signal_state = true) ∨
      ∃ t s', s.thread i = some s' ∧ t.Running s.m_queue ∧
      ((s' = s.setThread i t ∧ t.m_finish_event = (s.m_thread_array i).m_finish_event) ∨
        (s' = { s.setThread i t with pc := State.wake i s.pc } ∧
          t.m_finish_event.m_signal_state = true)) := by
  unfold State.thread
  cases h with
  | called hpc hmessages howes hcleared hqueue =>
    obtain ⟨queue, hsome, hprocessed⟩ := howes
    simp only [hpc, hqueue, hsome, hmessages]
    refine .inr ⟨_, _, rfl, ?_, .inl ⟨rfl, rfl⟩⟩
    exact .processing rfl rfl ⟨queue, rfl, hprocessed⟩ hcleared rfl
  | processing hpc hmessages howes hcleared hqueue =>
    obtain ⟨queue, hsome, hprocessed⟩ := howes
    simp only [hpc, hqueue, hsome]
    refine .inr ⟨_, _, rfl, ?_, .inl ⟨rfl, rfl⟩⟩
    exact .signalling rfl hmessages hprocessed hcleared
  | signalling hpc hmessages hprocessed hcleared =>
    simp only [hpc]
    refine .inr ⟨_, _, rfl, ?_, .inr ⟨rfl, rfl⟩⟩
    exact .finished ⟨rfl, hmessages, hprocessed⟩ rfl
  | finished hidle hsignal => exact .inl ⟨hidle, hsignal⟩

theorem Kept.thread (h : Kept count s) {i : ℕ} (hi : i < count) (hstep : s.thread i = some s') :
    Kept count s' := by
  cases hmask : s.m_active_core_mask i with
  | false =>
    have hidle := h.skipped i hi hmask
    rw [thread_rests hidle.pc hidle.messages] at hstep
    cases hstep
  | true =>
    obtain ⟨hpc, hmessages⟩ | ⟨hrun, hstay⟩ := (h.active i hi hmask).rests_or_runs
    · rw [thread_rests hpc hmessages] at hstep
      cases hstep
    obtain ⟨hidle, -⟩ | ⟨t, s₁, hrun₁, ht, hs₁⟩ := running_thread hrun
    · rw [thread_rests hidle.pc hidle.messages] at hstep
      cases hstep
    obtain rfl := Option.some.inj (hrun₁.symm.trans hstep)
    obtain ⟨rfl, hevent⟩ | ⟨rfl, hsignal⟩ := hs₁
    · refine h.replace hmask (fun _ _ _ hu => hu) (hstay t ht) fun k wake_id is_woken hpc => ?_
      obtain ⟨hk, hasleep⟩ := h.asleep k wake_id is_woken hpc
      refine ⟨hk, ?_⟩
      by_cases hki : k = i
      · subst hki
        rw [Function.update_self, hevent]
        exact hasleep
      · rw [Function.update_of_ne hki]
        exact hasleep
    · refine h.replace hmask (fun j u _ hu => (at_wake i j).mpr hu) ((at_wake i i).mpr (hstay t ht))
        fun k wake_id is_woken hpc => ?_
      obtain ⟨was_woken, hwas, rfl⟩ := wake_eq_asleep hpc
      obtain ⟨hk, hasleep⟩ := h.asleep k wake_id was_woken hwas
      refine ⟨hk, ?_⟩
      by_cases hki : k = i
      · subst hki
        rw [Function.update_self, beq_self_eq_true, Bool.or_true]
        exact ⟨hmask, nofun, fun hcleared => absurd hsignal (hcleared ▸ Bool.false_ne_true)⟩
      · rw [Function.update_of_ne hki, beq_eq_false_iff_ne.mpr (Ne.symm hki), Bool.or_false]
        exact hasleep

theorem Kept.call (h : Kept count s) {c : Call Q} (hstep : s.call count c = some s') :
    Kept count s' := by
  cases c with
  | SubmitGraph job_queue active =>
    simp only [State.call] at hstep
    split at hstep
    · rename_i hpc
      cases hstep
      exact h.submit hpc job_queue active
    · cases hstep
  | FinishRun =>
    simp only [State.call] at hstep
    split at hstep
    · rename_i hpc
      cases hstep
      refine h.goto (fun i hi _ ht => ?_) nofun
      rw [hpc] at ht
      rw [At, if_neg (Nat.not_lt_zero i)]
      exact ht
    · cases hstep
  | manager => exact h.manager hstep
  | thread i =>
    simp only [State.call] at hstep
    split_ifs at hstep with hi
    exact h.thread hi hstep
  | spurious =>
    simp only [State.call] at hstep
    split at hstep
    · rename_i k wake_id is_woken hpc
      cases hstep
      obtain ⟨hk, hasleep⟩ := h.asleep k wake_id is_woken hpc
      refine h.goto (fun i hi _ ht => by rw [hpc] at ht; exact ht) ?_
      intro k wake_id is_woken heq
      cases heq
      exact ⟨hk, hasleep.active, nofun, hasleep.same⟩
    · cases hstep

theorem Reachable.kept (h : Reachable count s) : Kept count s := by
  induction h with
  | start => exact ⟨fun i _ _ => ⟨rfl, rfl, rfl⟩, fun i _ _ => ⟨rfl, rfl, rfl⟩, nofun⟩
  | step _ hstep ih => exact ih.call hstep

end Kept

def twoThreads : State ℕ :=
  ⟨fun _ => ⟨.receive, 0, none, ⟨false, 0⟩, [], []⟩, .idle, none, fun _ => false⟩

end Awn.DependencyJobThreadManager
