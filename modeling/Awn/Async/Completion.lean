import Awn.Async.Run

/-!
The event for the completion of all tasks: it is cleared in a new queue, and nothing but a
cancellation signals it, since a thread that looks for work counts itself as busy.
-/

namespace Awn.Async

variable {K T : Type*}

structure Unsignalled (q q' : AsyncQueue K T) : Prop where
  task_thread_array : q'.task_thread_array = q.task_thread_array
  is_finished : ∀ w, (q'.queue_thread w).is_finished = (q.queue_thread w).is_finished
  event : q.all_task_complete_event = false → q'.all_task_complete_event = false

namespace Unsignalled

variable {q q' q₁ q₂ q₃ : AsyncQueue K T} {w : T} {n : Node K} {priority : ℕ}

theorem refl (q : AsyncQueue K T) : Unsignalled q q := ⟨rfl, fun _ => rfl, fun h => h⟩

theorem trans (h : Unsignalled q₁ q₂) (h' : Unsignalled q₂ q₃) : Unsignalled q₁ q₃ where
  task_thread_array := h'.task_thread_array.trans h.task_thread_array
  is_finished w := (h'.is_finished w).trans (h.is_finished w)
  event he := h'.event (h.event he)

theorem setCurrentTask [DecidableEq T] (q : AsyncQueue K T) (w : T) (task : Option (Node K)) :
    Unsignalled q (q.setCurrentTask w task) := by
  refine ⟨rfl, fun v => ?_, fun h => h⟩
  unfold AsyncQueue.setCurrentTask
  dsimp only
  by_cases hv : v = w
  · subst hv
    rw [Function.update_self]
  · rw [Function.update_of_ne hv]

theorem link [DecidableEq K] (hs : q.link n priority = some q') : Unsignalled q q' := by
  unfold AsyncQueue.link at hs
  split at hs
  · split at hs
    · obtain rfl := Option.some.inj hs
      exact ⟨rfl, fun _ => rfl, fun h => h⟩
    · cases hs
  · obtain rfl := Option.some.inj hs
    exact ⟨rfl, fun _ => rfl, fun h => h⟩

theorem fillHead (hs : q.fillHead n priority = some q') : Unsignalled q q' := by
  unfold AsyncQueue.fillHead at hs
  split at hs
  · split at hs
    all_goals
      obtain rfl := Option.some.inj hs
      exact ⟨rfl, fun _ => rfl, fun h => h⟩
  · cases hs

theorem pushTask [DecidableEq K] [DecidableEq T] {caller : Option T} {t : K}
    {push_info : AsyncTaskPushInfo} {pushed : AsyncQueue.Pushed} (hs : q.pushTask caller t push_info = some (pushed, q')) :
    Unsignalled q q' := by
  unfold AsyncQueue.pushTask at hs
  split at hs
  · obtain ⟨-, rfl⟩ := Prod.mk.inj (Option.some.inj hs)
    exact refl q
  · split at hs
    · obtain ⟨-, rfl⟩ := Prod.mk.inj (Option.some.inj hs)
      exact refl q
    · dsimp only at hs
      split at hs
      · obtain ⟨-, rfl⟩ := Prod.mk.inj (Option.some.inj hs)
        exact ⟨rfl, fun _ => rfl, fun h => h⟩
      · obtain ⟨q₁, hlink, hs⟩ := Option.bind_eq_some_iff.mp hs
        obtain ⟨q₂, hfill, heq⟩ := Option.map_eq_some_iff.mp hs
        obtain ⟨-, rfl⟩ := Prod.mk.inj heq
        have hlinked := link hlink
        have hfilled := fillHead hfill
        have harray := hfilled.task_thread_array.trans hlinked.task_thread_array
        have hfinished := fun w => (hfilled.is_finished w).trans (hlinked.is_finished w)
        have hevent := fun he => hfilled.event (hlinked.event he)
        split
        · exact ⟨harray, hfinished, fun _ => rfl⟩
        · exact ⟨harray, hfinished, hevent⟩

theorem changePriority [DecidableEq K] {t : K} {new_priority : ℕ}
    (hs : q.changePriority t new_priority = some q') : Unsignalled q q' := by
  unfold AsyncQueue.changePriority at hs
  split at hs
  · obtain rfl := Option.some.inj hs
    exact refl q
  · dsimp only at hs
    split at hs
    · obtain rfl := Option.some.inj hs
      exact refl q
    · split at hs
      · obtain ⟨q₁, hlink, hfill⟩ := Option.bind_eq_some_iff.mp hs
        have hunlinked : Unsignalled q q₁ := by
          apply trans _ (link hlink)
          unfold AsyncQueue.takeOut
          dsimp only
          split
          all_goals exact ⟨rfl, fun _ => rfl, fun h => h⟩
        exact hunlinked.trans (fillHead hfill)
      · cases hs

theorem searchTask [DecidableEq K] [DecidableEq T] {task : Option (Node K)}
    (hs : q.searchTask w = (task, q')) : Unsignalled q q' := by
  unfold AsyncQueue.searchTask at hs
  split at hs
  · obtain ⟨-, rfl⟩ := Prod.mk.inj hs
    exact setCurrentTask q w none
  · obtain ⟨-, rfl⟩ := Prod.mk.inj hs
    unfold AsyncQueue.takeTask
    apply trans _ (setCurrentTask _ w _)
    exact ⟨rfl, fun _ => rfl, fun h => h⟩

theorem updateAllTaskCompletion_of (hw : w ∈ q.task_thread_array)
    (hfinished : (q.queue_thread w).is_finished = false) :
    q.updateAllTaskCompletion = (false, q) := by
  unfold AsyncQueue.updateAllTaskCompletion
  apply if_neg
  intro hall
  have hw' := List.all_eq_true.mp hall w hw
  rw [hfinished] at hw'
  cases hw'

theorem acquireNextTask [DecidableEq K] [DecidableEq T] (hw : w ∈ q.task_thread_array)
    (hfinished : (q.queue_thread w).is_finished = false) {task : Option (Node K)}
    (hs : q.acquireNextTask w = (task, q')) : Unsignalled q q' := by
  unfold AsyncQueue.acquireNextTask at hs
  rw [updateAllTaskCompletion_of hw hfinished] at hs
  dsimp only at hs
  rw [if_neg Bool.false_ne_true, ite_self] at hs
  exact searchTask hs

theorem completeTask [DecidableEq K] (hw : w ∈ q.task_thread_array)
    (hfinished : (q.queue_thread w).is_finished = false) (n : Node K) (is_rescheduled : Bool) :
    Unsignalled q (q.completeTask n is_rescheduled) := by
  unfold AsyncQueue.completeTask AsyncQueue.updateCompletion
  have hfree : Unsignalled q (if is_rescheduled then q else q.invokeFreeExecute n) := by
    split
    · exact refl q
    · exact ⟨rfl, fun _ => rfl, fun h => h⟩
  rw [updateAllTaskCompletion_of (w := w)]
  · apply hfree.trans
    exact ⟨rfl, fun _ => rfl, fun h => h⟩
  · rw [hfree.task_thread_array]
    exact hw
  · rw [hfree.is_finished]
    exact hfinished

end Unsignalled

def Event.isCancellation : Event K T → Bool
  | .cancelTask _ | .cancelPriorityLevel _ => true
  | _ => false

structure Cleared (s : State K T) : Prop where
  event : s.queue.all_task_complete_event = false
  busy : ∀ w, s.place w ≠ .waiting →
    w ∈ s.queue.task_thread_array ∧ (s.queue.queue_thread w).is_finished = false

section Run

variable {priority_level_count : ℕ} {is_paused : ℕ → Bool} {task_thread_array : List T}
  {behind : AsyncTask T} {s s' : State K T} {e : Event K T} {q : AsyncQueue K T} {w : T}

theorem Cleared.goto [DecidableEq T] (h : Cleared s) (hq : Unsignalled s.queue q) (place : Place K)
    (hw : s.place w ≠ .waiting) : Cleared ({ s with queue := q }.goto w place) where
  event := hq.event h.event
  busy v hv := by
    have hbusy : s.place v ≠ .waiting := by
      by_cases hvw : v = w
      · subst hvw
        exact hw
      · unfold State.goto at hv
        dsimp only at hv
        rw [Function.update_of_ne hvw] at hv
        exact hv
    have hold := h.busy v hbusy
    refine ⟨?_, ?_⟩
    · change v ∈ q.task_thread_array
      rw [hq.task_thread_array]
      exact hold.1
    · change (q.queue_thread v).is_finished = false
      rw [hq.is_finished]
      exact hold.2

theorem Cleared.call (h : Cleared s) (hq : Unsignalled s.queue s'.queue)
    (hplace : s'.place = s.place) : Cleared s' where
  event := hq.event h.event
  busy v hv := by
    rw [hplace] at hv
    rw [hq.task_thread_array, hq.is_finished]
    exact h.busy v hv

theorem setFinished_self [DecidableEq T] (q : AsyncQueue K T) (w : T) (is_finished : Bool) :
    ((q.setFinished w is_finished).queue_thread w).is_finished = is_finished := by
  unfold AsyncQueue.setFinished
  dsimp only
  rw [Function.update_self]

theorem setFinished_of_ne [DecidableEq T] (q : AsyncQueue K T) {v w : T} (is_finished : Bool)
    (h : v ≠ w) :
    (q.setFinished w is_finished).queue_thread v = q.queue_thread v := by
  unfold AsyncQueue.setFinished
  dsimp only
  rw [Function.update_of_ne h]

theorem goto_place_of_ne [DecidableEq T] {v : T} (s : State K T) (place : Place K) (h : v ≠ w) :
    (s.goto w place).place v = s.place v := by
  unfold State.goto
  dsimp only
  rw [Function.update_of_ne h]

theorem Cleared.step [DecidableEq K] [DecidableEq T] (h : Cleared s)
    (he : e.isCancellation = false) (hs : Step s e s') : Cleared s' := by
  cases hs with
  | @start w hw hplace =>
    refine ⟨h.event, fun v hv => ?_⟩
    by_cases hvw : v = w
    · subst hvw
      exact ⟨hw, setFinished_self s.queue v false⟩
    · rw [goto_place_of_ne _ _ hvw] at hv
      have hold := h.busy v hv
      refine ⟨hold.1, ?_⟩
      change ((s.queue.setFinished w false).queue_thread v).is_finished = false
      rw [setFinished_of_ne _ _ hvw]
      exact hold.2
  | @push caller t push_info pushed q hs =>
    have hq := Unsignalled.pushTask hs
    apply h.call
    · cases pushed <;> exact hq
    · cases pushed <;> rfl
  | @acquire w task q hplace hs =>
    have hw : s.place w ≠ .waiting := by
      rw [hplace]
      intro heq
      cases heq
    have hbusy := h.busy w hw
    have hq := Unsignalled.acquireNextTask hbusy.1 hbusy.2 hs
    cases task with
    | none => exact h.goto hq .ending hw
    | some n =>
      cases n with
      | inl u => exact h.goto hq (.executing (.inl u)) hw
      | inr t =>
        have hgoto := h.goto hq (.executing (.inr t)) hw
        exact ⟨hgoto.event, hgoto.busy⟩
  | postExecute _ => exact h.call ⟨rfl, fun _ => rfl, fun h => h⟩ rfl
  | @complete w n is_rescheduled place hplace _ =>
    have hw : s.place w ≠ .waiting := by
      rw [hplace]
      intro heq
      cases heq
    have hbusy := h.busy w hw
    exact h.goto (Unsignalled.completeTask hbusy.1 hbusy.2 n is_rescheduled) place hw
  | @finish w _ =>
    refine ⟨h.event, fun v hv => ?_⟩
    have hvw : v ≠ w := by
      rintro rfl
      apply hv
      exact Function.update_self _ _ _
    rw [goto_place_of_ne _ _ hvw] at hv
    have hold := h.busy v hv
    refine ⟨hold.1, ?_⟩
    change ((s.queue.setFinished w true).queue_thread v).is_finished = false
    rw [setFinished_of_ne _ _ hvw]
    exact hold.2
  | postExecuteSync _ _ => exact h.call ⟨rfl, fun _ => rfl, fun h => h⟩ rfl
  | completeSync _ => exact h.call ⟨rfl, fun _ => rfl, fun h => h⟩ rfl
  | cancelTask _ => cases he
  | cancelPriorityLevel _ => cases he
  | changePriority hs => exact h.call (Unsignalled.changePriority hs) rfl

theorem reachable_cleared [DecidableEq K] [DecidableEq T]
    (hr : Reachable priority_level_count is_paused task_thread_array behind
      (fun _ e => e.isCancellation = false) s) : Cleared s := by
  induction hr with
  | start => exact ⟨rfl, fun w hw => absurd rfl hw⟩
  | step _ he hs ih => exact ih.step he hs

end Run

def State.Queued [DecidableEq K] (s : State K T) (t : K) : Prop :=
  s.queue.task_list.isLinked (.inr t) = true

def State.Executing (s : State K T) (n : Node K) : Prop :=
  ∃ w ∈ s.queue.task_thread_array, s.place w = .executing n

def State.Quiet (s : State K T) : Prop :=
  ∀ w ∈ s.queue.task_thread_array, s.place w = .waiting ∨ ∃ n, s.place w = .executing n

def State.Idle [DecidableEq K] (s : State K T) : Prop := (∀ t, ¬s.Queued t) ∧ ∀ n, ¬s.Executing n

structure Complete [DecidableEq K] (s : State K T) : Prop where
  all : s.queue.all_task_complete_event = true ↔ s.Idle
  level : s.pushed = true → ∀ i < s.queue.priority_level_count,
    ((s.queue.priority_level_array i).priority_cleared_event = true ↔
      (∀ t, s.Queued t → s.level t ≠ i) ∧ ∀ t, s.Executing (.inr t) → s.level t ≠ i)

section Never

variable (priority_level_count : ℕ) (is_paused : ℕ → Bool) (task_thread_array : List T)
  (behind : AsyncTask T)

theorem started_idle [DecidableEq K] :
    (State.started priority_level_count is_paused task_thread_array behind : State K T).Idle := by
  constructor
  · intro t ht
    have hlinked : (Links.alone : Links (Node K)).isLinked (.inr t) = true := ht
    unfold Links.isLinked at hlinked
    exact of_decide_eq_true hlinked rfl
  · rintro n ⟨w, -, hw⟩
    cases hw

/-- No queue is right from its start on, and no run without a cancellation is ever right when there
is nothing to do. -/
theorem never_complete [DecidableEq K] [DecidableEq T] :
    (¬∀ s : State K T, Reachable priority_level_count is_paused task_thread_array behind
      (fun _ _ => True) s → s.Quiet → Complete s) ∧
    ∀ s : State K T, Reachable priority_level_count is_paused task_thread_array behind
      (fun _ e => e.isCancellation = false) s → s.Idle → ¬Complete s := by
  constructor
  · intro h
    have hcomplete := h _ Reachable.start fun _ _ => Or.inl rfl
    have hevent := hcomplete.all.mpr
      (started_idle priority_level_count is_paused task_thread_array behind)
    cases hevent
  · intro s hr hidle hcomplete
    have hevent := hcomplete.all.mpr hidle
    rw [(reachable_cleared hr).event] at hevent
    cases hevent

end Never

section OneTask

def oneTaskStarted : State (Fin 1) Unit := State.started 1 (fun _ => false) [()] { }

def oneTaskPushed : AsyncQueue (Fin 1) Unit :=
  ((oneTaskStarted.queue.pushTask none 0 ⟨0, false, true⟩).get rfl).2

def oneTaskAcquired : AsyncQueue (Fin 1) Unit :=
  ((oneTaskPushed.setFinished () false).acquireNextTask ()).2

def oneTaskCompleted : AsyncQueue (Fin 1) Unit :=
  (oneTaskAcquired.modifyTask (.inr 0) fun x => { x with status := .PostExecute }).completeTask
    (.inr 0) false

def oneTaskDone : AsyncQueue (Fin 1) Unit :=
  (oneTaskCompleted.acquireNextTask ()).2.setFinished () true

theorem reachable_oneTaskDone :
    ∃ s : State (Fin 1) Unit, s.queue = oneTaskDone ∧ s.place () = .waiting ∧
      Reachable 1 (fun _ => false) [()] { } (fun _ e => e.isCancellation = false) s := by
  have hstart : Reachable 1 (fun _ => false) [()] { } (fun _ e => e.isCancellation = false)
      oneTaskStarted := Reachable.start
  have hpush := hstart.step (e := .push none 0 ⟨0, false, true⟩) rfl
    (@Step.push _ _ _ _ _ _ _ _ .Queued oneTaskPushed rfl)
  have hbegin := hpush.step (e := .start ()) rfl (Step.start (List.mem_singleton_self ()) rfl)
  have hacquire := hbegin.step (e := .acquire ()) rfl
    (@Step.acquire _ _ _ _ _ _ (some (.inr 0)) oneTaskAcquired rfl rfl)
  have hexecute := hacquire.step (e := .postExecute ()) rfl (Step.postExecute (n := .inr 0) rfl)
  have hcomplete := hexecute.step (e := .complete ()) rfl
    (@Step.complete _ _ _ _ _ _ (.inr 0) false _ rfl (Or.inl rfl))
  have hagain := hcomplete.step (e := .acquire ()) rfl
    (@Step.acquire _ _ _ _ _ _ none (oneTaskCompleted.acquireNextTask ()).2 rfl rfl)
  have hfinish := hagain.step (e := .finish ()) rfl (Step.finish rfl)
  exact ⟨_, rfl, rfl, hfinish⟩

theorem oneTaskDone_idle {s : State (Fin 1) Unit} (hqueue : s.queue = oneTaskDone)
    (hplace : s.place () = .waiting) : s.Idle := by
  constructor
  · intro t ht
    unfold State.Queued at ht
    rw [hqueue] at ht
    obtain rfl : t = 0 := Subsingleton.elim t 0
    exact absurd ht (by decide)
  · rintro n ⟨w, -, hw⟩
    rw [hplace] at hw
    cases hw

theorem never_complete_oneTask :
    ∃ s : State (Fin 1) Unit, s.queue = oneTaskDone ∧ ¬Complete s := by
  obtain ⟨s, hqueue, hplace, hr⟩ := reachable_oneTaskDone
  exact ⟨s, hqueue, (never_complete 1 (fun _ => false) [()] { }).2 s hr
    (oneTaskDone_idle hqueue hplace)⟩

theorem oneTaskDone_not_signalled :
    ∃ s : State (Fin 1) Unit,
      Reachable 1 (fun _ => false) [()] { } (fun _ e => e.isCancellation = false) s ∧ s.Quiet ∧
      s.Idle ∧ s.queue.all_task_complete_event = false ∧ ¬Complete s := by
  obtain ⟨s, hqueue, hplace, hr⟩ := reachable_oneTaskDone
  have hidle := oneTaskDone_idle hqueue hplace
  have hevent : s.queue.all_task_complete_event = false := by
    rw [hqueue]
    rfl
  refine ⟨s, hr, fun _ _ => Or.inl hplace, hidle, hevent, fun hcomplete => ?_⟩
  rw [hcomplete.all.mpr hidle] at hevent
  cases hevent

end OneTask

end Awn.Async
