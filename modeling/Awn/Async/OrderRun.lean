import Mathlib.Algebra.GroupWithZero.Nat
import Awn.Async.Order

/-!
The order over whole runs.
-/

namespace Awn.Async

open LevelQueue (Layout)

variable {K T : Type*} [DecidableEq K] [DecidableEq T]

/-- The tasks of each level are a run of the list that begins at the level's pointer, the count is
the length of the list, and a thread gets the first task of the highest level that has any and is
not paused, or none if there is no such level. -/
structure Ordered (s : State K T) : Prop where
  runs : ∃ list, TaskList s.queue list ∧ list.Nodup ∧ s.queue.task_count.toNat = list.length ∧
    (∀ t, t ∈ list ↔ ∃ i < s.queue.priority_level_count, t ∈ s.levels i) ∧
    ∀ i < s.queue.priority_level_count, s.levels i <:+: list ∧
      (s.queue.priority_level_array i).async_task_head = (s.levels i).head?.map Sum.inr
  acquires : ∀ w, Invariant.Acquired s.queue s.levels (s.queue.acquireNextTask w).1

variable {priority_level_count : ℕ} {is_paused : ℕ → Bool} {task_thread_array : List T}
  {behind : AsyncTask T} {s s' : State K T} {e : Event K T} {list : List K}

theorem Invariant.ordered (h : Invariant s.queue s.levels list) : Ordered s where
  runs := by
    refine ⟨list, h.represents, h.layout.nodup, h.count, fun t => ?_, fun i hi => ?_⟩
    · rw [h.layout.mem]
      constructor
      · rintro ⟨i, ht⟩
        exact ⟨i, h.lt_of_mem ht, ht⟩
      · rintro ⟨i, -, ht⟩
        exact ⟨i, ht⟩
    · exact ⟨h.layout.run i, h.heads i hi⟩
  acquires _ := h.acquireNextTask.1

theorem Step.invariant (h : Invariant s.queue s.levels list) (hmet : Met s e) (hs : Step s e s') :
    ∃ list', Invariant s'.queue s'.levels list' := by
  cases hs with
  | start _ _ => exact ⟨list, h.unmoved ⟨rfl, rfl, fun _ => rfl, rfl, fun _ => rfl, fun _ h => h⟩⟩
  | @push caller t push_info pushed q hs =>
    have hcases := h.pushTask (fun hlt hsync ht => hmet hlt hsync list h.represents ht) hs
    obtain ⟨hne, hinv⟩ | ⟨rfl, hinv⟩ := hcases
    · refine ⟨list, ?_⟩
      cases pushed
      case Queued => exact absurd rfl hne
      all_goals exact hinv
    · exact hinv
  | @acquire w task q _ hs =>
    have hinv := (h.acquireNextTask (w := w)).2
      fun i t rest hfind hlevel => hmet i t rest hfind hlevel list h.represents
    rw [hs] at hinv
    cases task with
    | none => exact hinv
    | some n => cases n <;> exact hinv
  | postExecute _ => exact ⟨list, h.unmoved (Unmoved.setStatus _ _ _)⟩
  | @complete w n is_rescheduled place _ _ =>
    refine ⟨list, ?_⟩
    have hfree : Unmoved s.queue
        (if is_rescheduled then s.queue else s.queue.invokeFreeExecute n) := by
      split
      · exact Unmoved.refl _
      · exact Unmoved.invokeFreeExecute _ _
    exact h.unmoved (hfree.trans (Unmoved.updateCompletion _))
  | finish _ => exact ⟨list, h.unmoved ⟨rfl, rfl, fun _ => rfl, rfl, fun _ => rfl, fun _ h => h⟩⟩
  | postExecuteSync _ _ => exact ⟨list, h.unmoved (Unmoved.setStatus _ _ _)⟩
  | completeSync _ => exact ⟨list, h.unmoved (Unmoved.invokeFreeExecute _ _)⟩
  | cancelTask hs => exact ⟨list, h.cancelTask hmet hs⟩
  | @cancelPriorityLevel fuel priority q hs =>
    apply h.cancelPriorityLevel _ hs
    by_cases hzero : priority = 0
    · rw [Met, if_pos hzero] at hmet
      rw [if_pos hzero]
      exact hmet list h.represents
    · rw [Met, if_neg hzero] at hmet
      rw [if_neg hzero]
      exact hmet
  | @changePriority t new_priority q hs =>
    apply h.changePriority _ hs
    intro hqueue hlt
    have hcondition := hmet hqueue hlt
    by_cases hzero : new_priority = 0
    · rw [if_pos hzero] at hcondition ⊢
      exact hcondition
    · rw [if_neg hzero] at hcondition ⊢
      obtain ⟨i, ht, hleaves, hroom⟩ := hcondition
      exact ⟨i, ht, hleaves, hroom list h.represents⟩

omit [DecidableEq K] [DecidableEq T] in
theorem started_invariant :
    Invariant (State.started priority_level_count is_paused task_thread_array behind :
      State K T).queue (fun _ => []) [] where
  represents := Links.represents_alone
  layout := LevelQueue.layout_empty
  bound _ _ := rfl
  heads _ _ := rfl
  count := rfl
  priority _ := rfl
  queue _ ht := absurd ht List.not_mem_nil

theorem Reachable.invariant
    (hr : Reachable priority_level_count is_paused task_thread_array behind Met s) :
    ∃ list, Invariant s.queue s.levels list := by
  induction hr with
  | start => exact ⟨[], started_invariant⟩
  | step _ hmet hs ih =>
    obtain ⟨list, hinv⟩ := ih
    exact hs.invariant hinv hmet

theorem reachable_ordered
    (hr : Reachable priority_level_count is_paused task_thread_array behind Met s) : Ordered s := by
  obtain ⟨list, hinv⟩ := hr.invariant
  exact hinv.ordered

section Examples

local instance two_tasks_ne : NeZero 2 := ⟨by decide⟩

def twoLevels : State (Fin 2) Unit := State.started 2 (fun _ => false) [()] { }

def onePushed : AsyncQueue (Fin 2) Unit :=
  ((twoLevels.queue.pushTask none 0 ⟨0, false, true⟩).get rfl).2

def lowPushed : State (Fin 2) Unit := { twoLevels with queue := onePushed }.afterPush 0 0 .Queued

def bothPushed : AsyncQueue (Fin 2) Unit :=
  ((lowPushed.queue.pushTask none 1 ⟨1, false, true⟩).get rfl).2

def bothLevels : State (Fin 2) Unit := { lowPushed with queue := bothPushed }.afterPush 1 1 .Queued

theorem reachable_bothLevels : Reachable 2 (fun _ => false) [()] { } Met bothLevels := by
  have hstart : Reachable 2 (fun _ => false) [()] { } Met twoLevels := Reachable.start
  have hlow : Reachable 2 (fun _ => false) [()] { } Met lowPushed := by
    apply hstart.step (e := .push none 0 ⟨0, false, true⟩) _
      (@Step.push _ _ _ _ _ _ _ _ .Queued onePushed rfl)
    intro _ _ list hlist _
    obtain rfl := Invariant.taskList_unique started_invariant hlist
    refine ⟨⟨fun _ => List.suffix_rfl, fun i hi => absurd hi (Nat.not_lt_zero i)⟩, by decide⟩
  apply hlow.step (e := .push none 1 ⟨1, false, true⟩) _
    (@Step.push _ _ _ _ _ _ _ _ .Queued bothPushed rfl)
  intro _ _ list hlist _
  obtain ⟨list', hinv⟩ := hlow.invariant
  obtain rfl := hinv.taskList_unique hlist
  have hcount : 1 = list.length := hinv.count
  have hlevel : lowPushed.levels 0 = [0] := by decide
  refine ⟨⟨fun hempty => ?_, fun i hi _ _ => ?_⟩, by omega⟩
  · rw [hempty 0 Nat.zero_lt_one] at hlevel
    cases hlevel
  · obtain rfl : i = 0 := by
      change i < 1 at hi
      omega
    rw [hlevel]
    exact ⟨rfl, rfl⟩

theorem reachable_ordered_bothLevels : Ordered bothLevels :=
  reachable_ordered reachable_bothLevels

def highPushed : AsyncQueue (Fin 2) Unit :=
  ((twoLevels.queue.pushTask none 0 ⟨1, false, true⟩).get rfl).2

def highTwicePushed : AsyncQueue (Fin 2) Unit :=
  ((highPushed.pushTask none 1 ⟨1, false, true⟩).get rfl).2

def highAcquired : AsyncQueue (Fin 2) Unit :=
  ((highTwicePushed.setFinished () false).acquireNextTask ()).2

theorem second_task_lost : ¬∀ s : State (Fin 2) Unit,
    Reachable 2 (fun _ => false) [()] { } (fun _ _ => True) s → Ordered s := by
  intro h
  have hstart : Reachable 2 (fun _ => false) [()] { } (fun _ _ => True) twoLevels :=
    Reachable.start
  have hfirst := hstart.step (e := .push none 0 ⟨1, false, true⟩) trivial
    (@Step.push _ _ _ _ _ _ _ _ .Queued highPushed rfl)
  have hsecond := hfirst.step (e := .push none 1 ⟨1, false, true⟩) trivial
    (@Step.push _ _ _ _ _ _ _ _ .Queued highTwicePushed rfl)
  have hbegin := hsecond.step (e := .start ()) trivial
    (Step.start (List.mem_singleton_self ()) rfl)
  have hacquire := hbegin.step (e := .acquire ()) trivial
    (@Step.acquire _ _ _ _ _ _ (some (.inr 0)) highAcquired rfl rfl)
  have hnone : (highAcquired.acquireNextTask ()).1 = none := rfl
  have hacquired := (h _ hacquire).acquires ()
  have hempty : Invariant.Acquired highAcquired (LevelQueue.remove (LevelQueue.push
      (LevelQueue.push (fun _ => []) 1 0) 1 1) (0 : Fin 2)) (highAcquired.acquireNextTask ()).1 :=
    hacquired
  rw [hnone] at hempty
  obtain hpaused | hlevel := hempty 1 (by decide)
  · exact absurd hpaused (by decide)
  · exact absurd hlevel (by decide)

end Examples

end Awn.Async
