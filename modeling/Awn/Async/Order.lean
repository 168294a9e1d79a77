import Awn.Async.Arranged
import Mathlib.Algebra.Group.Nat.Defs

/-!
When the queue keeps the order of its levels. The condition on each call is the one under which the
code finds the right pointer of the level and the right neighbour in the list.
-/

namespace Awn.Async

open LevelQueue (Layout)

variable {K T : Type*} [DecidableEq K] [DecidableEq T]

def TaskList (q : AsyncQueue K T) (list : List K) : Prop :=
  q.task_list.Represents fun _ : Unit => list

def Leaves (levels : ℕ → List K) (t : K) (i new_priority : ℕ) : Prop :=
  ((levels i).head? = some t →
    if i = 0 then levels i ≠ [t] else i = new_priority ∧ levels i = [t]) ∧
  (i = new_priority → (levels i).getLast? = some t)

def Met (s : State K T) : Event K T → Prop
  | .push caller t push_info =>
    push_info.priority < s.queue.priority_level_count →
    (push_info.is_sync && s.queue.isQueueThread caller) = false →
      ∀ list, TaskList s.queue list → t ∉ list →
        Room list s.levels push_info.priority ∧ list.length + 1 < 2 ^ 32
  | .acquire _ =>
    ∀ i t rest, s.queue.findNextTask s.queue.priority_level_count = some (i, .inr t) →
      s.levels i = t :: rest → ∀ list, TaskList s.queue list →
        (rest ≠ [] ↔ i = 0 ∧ list.getLast? ≠ some t)
  | .cancelTask t => (s.queue.task (.inr t)).status = .Queued → ∀ i, t ∉ s.levels i
  | .cancelPriorityLevel priority =>
    if priority = 0 then ∀ list, TaskList s.queue list → s.levels 0 <:+ list
    else s.levels priority = []
  | .changePriority t new_priority =>
    (s.queue.task (.inr t)).queue = true → new_priority < s.queue.priority_level_count →
      if new_priority = 0 then ∀ i, t ∈ s.levels i → i = 0
      else ∃ i, t ∈ s.levels i ∧ Leaves s.levels t i new_priority ∧
        ∀ list, TaskList s.queue list →
          Room (list.erase t) (LevelQueue.remove s.levels t) new_priority
  | _ => True

namespace Invariant

variable {q q' : AsyncQueue K T} {levels : ℕ → List K} {list : List K} {t : K} {i : ℕ} {w : T}

omit [DecidableEq K] [DecidableEq T] in
theorem taskList_unique (h : Invariant q levels list) {list' : List K} (h' : TaskList q list') :
    list' = list :=
  h'.eq_of_ring (h.represents.ring ())

theorem push_remove_self (h : Layout list levels) (ht : t ∈ levels i)
    (hlast : (levels i).getLast? = some t) :
    LevelQueue.push (LevelQueue.remove levels t) i t = levels := by
  funext j
  unfold LevelQueue.push
  by_cases hj : j = i
  · subst hj
    rw [Function.update_self]
    obtain ⟨as, hlevel⟩ := List.getLast?_eq_some_iff.mp hlast
    have has : t ∉ as := by
      intro has
      have hnodup := h.nodup.sublist (h.run j).sublist
      rw [hlevel] at hnodup
      exact (List.nodup_append.mp hnodup).2.2 t has t (List.mem_singleton_self t) rfl
    unfold LevelQueue.remove
    rw [hlevel, List.erase_append_right _ has, List.erase_cons_head, List.append_nil]
  · rw [Function.update_of_ne hj]
    exact h.remove_of_ne ht hj

theorem pushTask (h : Invariant q levels list) {caller : Option T} {push_info : AsyncTaskPushInfo}
    (hmet : push_info.priority < q.priority_level_count →
      (push_info.is_sync && q.isQueueThread caller) = false → t ∉ list →
        Room list levels push_info.priority ∧ list.length + 1 < 2 ^ 32)
    {pushed : AsyncQueue.Pushed} (hs : q.pushTask caller t push_info = some (pushed, q')) :
    (pushed ≠ .Queued ∧ Invariant q' levels list) ∨
    (pushed = .Queued ∧
      ∃ list', Invariant q' (LevelQueue.push levels push_info.priority t) list') := by
  unfold AsyncQueue.pushTask at hs
  split at hs
  · obtain ⟨rfl, rfl⟩ := Prod.mk.inj (Option.some.inj hs)
    exact Or.inl ⟨AsyncQueue.Pushed.noConfusion, h⟩
  rename_i hlinked
  rw [h.isLinked_iff] at hlinked
  split at hs
  · obtain ⟨rfl, rfl⟩ := Prod.mk.inj (Option.some.inj hs)
    exact Or.inl ⟨AsyncQueue.Pushed.noConfusion, h⟩
  dsimp only at hs
  have hset := h.unmoved (Unmoved.modifyTask q (.inr t)
    (f := fun x => { x with
      queue := true
      is_signal_finish_event := push_info.is_sync || !push_info.is_skip_finish_event })
    fun _ => ⟨rfl, fun _ => rfl⟩)
  split at hs
  · obtain ⟨rfl, rfl⟩ := Prod.mk.inj (Option.some.inj hs)
    left
    exact ⟨AsyncQueue.Pushed.noConfusion, hset.unmoved (Unmoved.modifyTask _ _ fun _ => ⟨rfl, fun h => h⟩)⟩
  rename_i hsync
  rw [Bool.not_eq_true] at hsync
  obtain ⟨q₁, hlink, hs⟩ := Option.bind_eq_some_iff.mp hs
  obtain ⟨q₂, hfill, heq⟩ := Option.map_eq_some_iff.mp hs
  obtain ⟨rfl, rfl⟩ := Prod.mk.inj heq
  right
  refine ⟨rfl, ?_⟩
  have hlt : push_info.priority < q₁.priority_level_count := by
    unfold AsyncQueue.fillHead at hfill
    split at hfill
    · assumption
    · cases hfill
  have hle : push_info.priority ≤ q.priority_level_count := not_not.mp ‹_›
  have hroom : push_info.priority < q.priority_level_count →
      Room list levels push_info.priority ∧ list.length + 1 < 2 ^ 32 := fun hlt =>
    hmet hlt hsync hlinked
  have hcount : q₁.priority_level_count = q.priority_level_count := by
    unfold AsyncQueue.link at hlink
    split at hlink
    · split at hlink
      · obtain rfl := Option.some.inj hlink
        rfl
      · cases hlink
    · obtain rfl := Option.some.inj hlink
      rfl
  rw [hcount] at hlt
  obtain ⟨hroom, hbound⟩ := hroom hlt
  obtain ⟨list', hl⟩ := link_linked hset.represents hset.layout hlinked
    (fun i hi => hset.heads i (Nat.lt_trans hi hlt)) hroom hlink
  obtain ⟨htask_list, hlevels, htask_count, htask, hheads⟩ := fillHead_heads
    (by rw [hl.priority_level_count]; exact hlt)
    (fun i hi => Or.inl (by
      rw [hl.priority_level_count] at hi
      exact (hl.heads i).trans (hset.heads i hi))) hfill
  refine ⟨list', ?_⟩
  have hfilled : Invariant (q₂.modifyTask (.inr t) fun x => { x with status := .Queued })
      (LevelQueue.push levels push_info.priority t) list' := by
    apply Invariant.unmoved _ (Unmoved.setStatus q₂ (.inr t) .Queued)
    constructor
    case represents =>
      rw [htask_list]
      exact hl.represents
    case layout => exact hl.layout
    case bound =>
      intro i hi
      have hi' : q.priority_level_count ≤ i := by
        rw [hlevels] at hi
        change q₁.priority_level_count ≤ i at hi
        rw [hl.priority_level_count] at hi
        exact hi
      unfold LevelQueue.push
      rw [Function.update_of_ne (by omega)]
      exact h.bound i hi'
    case heads =>
      intro i hi
      rw [hlevels] at hi
      exact hheads i hi
    case count =>
      rw [htask_count, hl.length]
      change (q₁.task_count + 1).toNat = _
      rw [hl.task_count]
      change (q.task_count + 1).toNat = _
      rw [BitVec.toNat_add, h.count]
      exact Nat.mod_eq_of_lt hbound
    case priority =>
      intro k
      rw [htask]
      change (q₁.task (.inr k)).priority = 0
      rw [hl.task]
      exact hset.priority k
    case queue =>
      intro k hk
      rw [htask]
      change (q₁.task (.inr k)).queue = true
      rw [hl.task]
      obtain hk | ⟨-, rfl⟩ := LevelQueue.mem_push.mp ((hl.layout.mem k).mp hk).choose_spec
      · exact hset.queue k (hset.layout.mem_list hk)
      · unfold AsyncQueue.modifyTask
        dsimp only
        rw [Function.update_self]
  split
  · exact hfilled.unmoved ⟨rfl, rfl, fun _ => rfl, rfl, fun _ => rfl, fun _ h => h⟩
  · exact hfilled

omit [DecidableEq T] in
theorem nextHead (h : Invariant q levels list) {rest : List K} (hlevel : levels i = t :: rest)
    (hmet : rest ≠ [] ↔ i = 0 ∧ list.getLast? ≠ some t) :
    q.nextHead (.inr t) i = rest.head?.map Sum.inr := by
  by_cases hi : i = 0
  · subst hi
    cases rest with
    | nil =>
      have hlast : list.getLast? = some t := by
        by_contra hne
        exact absurd rfl (hmet.mpr ⟨rfl, hne⟩)
      unfold AsyncQueue.nextHead
      rw [h.next_of_last hlast]
      exact if_pos (Or.inl rfl)
    | cons r rest =>
      apply h.nextHead_zero
      apply h.next_of_level
      rw [hlevel]
      exact (List.nil_append _).symm
  · rw [h.nextHead_of_ne t hi]
    cases rest with
    | nil => rfl
    | cons r rest => exact absurd (hmet.mp (List.cons_ne_nil r rest)).1 hi

omit [DecidableEq T] in
theorem length_erase (h : Invariant q levels list) (ht : t ∈ list) :
    (q.task_count - 1).toNat = (list.erase t).length := by
  have hpos : 1 ≤ list.length := List.length_pos_of_mem ht
  have hlt := q.task_count.isLt
  have hcount := h.count
  rw [List.length_erase_of_mem ht, BitVec.toNat_sub]
  change (2 ^ 32 - 1 + _) % 2 ^ 32 = _
  omega

omit [DecidableEq T] in
theorem unlink (h : Invariant q levels list) (ht : t ∈ levels i) {head : Option (Node K)}
    (hhead : head = ((levels i).erase t).head?.map Sum.inr) :
    ((q.setHead i head).unlink (.inr t)).task_list.Represents (fun _ => list.erase t) ∧
    Layout (list.erase t) (LevelQueue.remove levels t) ∧
    ∀ j < q.priority_level_count,
      (((q.setHead i head).unlink (.inr t)).priority_level_array j).async_task_head =
        (LevelQueue.remove levels t j).head?.map Sum.inr := by
  refine ⟨h.represents.unlink t, h.layout.remove t, fun j hj => ?_⟩
  change ((q.setHead i head).priority_level_array j).async_task_head = _
  by_cases hji : j = i
  · subst hji
    rw [setHead_self, hhead]
    rfl
  · rw [setHead_of_ne _ _ hji, h.layout.remove_of_ne ht hji]
    exact h.heads j hj

theorem takeTask (h : Invariant q levels list) {rest : List K} (hlevel : levels i = t :: rest)
    (hmet : rest ≠ [] ↔ i = 0 ∧ list.getLast? ≠ some t) :
    Invariant (q.takeTask w i (.inr t)) (LevelQueue.remove levels t) (list.erase t) := by
  have ht : t ∈ levels i := by
    rw [hlevel]
    exact List.mem_cons_self
  have hhead : q.nextHead (.inr t) i = ((levels i).erase t).head?.map Sum.inr := by
    rw [h.nextHead hlevel hmet, hlevel, List.erase_cons_head]
  obtain ⟨hrep, hlayout, hheads⟩ := h.unlink ht hhead
  have hstatus := Unmoved.modifyTask q (.inr t)
    (f := fun x => { x with status := .Acquired, queue_thread := some w }) fun _ => ⟨rfl, fun h => h⟩
  constructor
  case represents => exact hrep
  case layout => exact hlayout
  case bound =>
    intro j hj
    unfold LevelQueue.remove
    rw [h.bound j hj]
    rfl
  case heads => exact hheads
  case count => exact h.length_erase (h.layout.mem_list ht)
  case priority =>
    intro k
    exact (hstatus.priority (.inr k)).trans (h.priority k)
  case queue =>
    intro k hk
    exact hstatus.queue (.inr k) (h.queue k (List.mem_of_mem_erase hk))

omit [DecidableEq K] in
theorem setCurrentTask (h : Invariant q levels list) (task : Option (Node K)) :
    Invariant (q.setCurrentTask w task) levels list :=
  h.unmoved ⟨rfl, rfl, fun _ => rfl, rfl, fun _ => rfl, fun _ h => h⟩

def Acquired (q : AsyncQueue K T) (levels : ℕ → List K) : Option (Node K) → Prop
  | some n => ∃ i t rest, n = .inr t ∧ i < q.priority_level_count ∧
      (q.priority_level_array i).is_paused = false ∧ levels i = t :: rest ∧
      ∀ j, i < j → j < q.priority_level_count →
        (q.priority_level_array j).is_paused = true ∨ levels j = []
  | none => ∀ i < q.priority_level_count,
      (q.priority_level_array i).is_paused = true ∨ levels i = []

def removeTask (levels : ℕ → List K) : Option (Node K) → ℕ → List K
  | some (.inr t) => LevelQueue.remove levels t
  | _ => levels

theorem searchTask (h : Invariant q levels list) :
    Acquired q levels (q.searchTask w).1 ∧
    ((∀ i t rest, q.findNextTask q.priority_level_count = some (i, .inr t) →
      levels i = t :: rest → (rest ≠ [] ↔ i = 0 ∧ list.getLast? ≠ some t)) →
        ∃ list', Invariant (q.searchTask w).2 (removeTask levels (q.searchTask w).1) list') := by
  unfold AsyncQueue.searchTask
  obtain ⟨hfind, hall⟩ | ⟨i, t, rest, hfind, hi, hpaused, hlevel, hall⟩ :=
    h.findNextTask (Nat.le_refl q.priority_level_count)
  · rw [hfind]
    exact ⟨hall, fun _ => ⟨list, h.setCurrentTask none⟩⟩
  · rw [hfind]
    refine ⟨⟨i, t, rest, rfl, hi, hpaused, hlevel, hall⟩, fun hmet => ?_⟩
    exact ⟨list.erase t, h.takeTask hlevel (hmet i t rest rfl hlevel)⟩

theorem acquireNextTask (h : Invariant q levels list) :
    Acquired q levels (q.acquireNextTask w).1 ∧
    ((∀ i t rest, q.findNextTask q.priority_level_count = some (i, .inr t) →
      levels i = t :: rest → (rest ≠ [] ↔ i = 0 ∧ list.getLast? ≠ some t)) →
        ∃ list',
          Invariant (q.acquireNextTask w).2 (removeTask levels (q.acquireNextTask w).1) list') := by
  have hsearch := h.searchTask (w := w)
  by_cases hzero : q.task_count = 0
  · by_cases hall : q.isAllFinished = true
    · have hupdate : q.updateAllTaskCompletion =
          (true, { q with all_task_complete_event := true }) := if_pos hall
      have hacquire : q.acquireNextTask w =
          (none, { q with all_task_complete_event := true }.setCurrentTask w none) := by
        unfold AsyncQueue.acquireNextTask
        rw [if_pos hzero, hupdate]
        rfl
      rw [hacquire]
      have hnil : list = [] := by
        have hcount := h.count
        rw [hzero] at hcount
        exact List.length_eq_zero_iff.mp hcount.symm
      refine ⟨fun i _ => Or.inr ?_, fun _ => ⟨list, ?_⟩⟩
      · apply List.eq_nil_iff_forall_not_mem.mpr
        intro t ht
        have hmem := h.layout.mem_list ht
        rw [hnil] at hmem
        cases hmem
      · exact h.unmoved ⟨rfl, rfl, fun _ => rfl, rfl, fun _ => rfl, fun _ h => h⟩
    · have hupdate : q.updateAllTaskCompletion = (false, q) := if_neg hall
      have hacquire : q.acquireNextTask w = q.searchTask w := by
        unfold AsyncQueue.acquireNextTask
        rw [if_pos hzero, hupdate]
        rfl
      rw [hacquire]
      exact hsearch
  · have hacquire : q.acquireNextTask w = q.searchTask w := if_neg hzero
    rw [hacquire]
    exact hsearch

omit [DecidableEq T] in
theorem cancelTask (h : Invariant q levels list)
    (hmet : (q.task (.inr t)).status = .Queued → ∀ i, t ∉ levels i)
    (hs : q.cancelTask t = some q') :
    Invariant q'
      (if (q.task (.inr t)).status = .Queued then LevelQueue.remove levels t else levels) list := by
  by_cases hqueued : (q.task (.inr t)).status = .Queued
  · have hnot := hmet hqueued
    have ht : t ∉ list := by
      intro ht
      obtain ⟨i, hi⟩ := (h.layout.mem t).mp ht
      exact hnot i hi
    rw [if_pos hqueued, h.layout.remove_of_notMem ht]
    unfold AsyncQueue.cancelTask at hs
    rw [hqueued] at hs
    dsimp only at hs
    split at hs
    · rename_i hlt
      rw [h.priority] at hs hlt
      have hhead : (q.priority_level_array 0).async_task_head ≠ some (.inr t) := by
        rw [h.heads 0 hlt]
        intro heq
        cases hlevel : levels 0 with
        | nil =>
          rw [hlevel] at heq
          cases heq
        | cons a rest =>
          rw [hlevel] at heq
          apply hnot 0
          rw [hlevel, ← Sum.inr.inj (Option.some.inj heq)]
          exact List.mem_cons_self
      rw [if_neg hhead] at hs
      obtain rfl := Option.some.inj hs
      have hunlink : Invariant (q.unlink (.inr t)) levels list := by
        refine ⟨?_, h.layout, h.bound, h.heads, h.count, h.priority, h.queue⟩
        have hrep := h.represents.unlink t
        rw [List.erase_of_not_mem ht] at hrep
        exact hrep
      have hcancel := hunlink.unmoved (Unmoved.cancel _ (.inr t))
      exact hcancel.unmoved (Unmoved.updateCompletion _)
    · cases hs
  · rw [if_neg hqueued]
    unfold AsyncQueue.cancelTask at hs
    split at hs
    · obtain rfl := Option.some.inj hs
      exact h
    · obtain rfl := Option.some.inj hs
      exact h
    · obtain rfl := Option.some.inj hs
      exact h
    · exact absurd ‹_› hqueued
    · obtain rfl := Option.some.inj hs
      exact h.unmoved (Unmoved.modifyTask q _ fun _ => ⟨rfl, fun h => h⟩)

omit [DecidableEq T] in
theorem cancelFrom {xs zs : List K} {fuel : ℕ} :
    ∀ {q : AsyncQueue K T}, TaskList q (xs ++ zs) → (xs ++ zs).Nodup →
      q.task_count.toNat = (xs ++ zs).length → (∀ t : K, (q.task (.inr t)).priority = 0) →
      AsyncQueue.cancelFrom 0 fuel ((zs.head?.map Sum.inr).getD listEnd) q = some q' →
        TaskList q' xs ∧ q'.task_count.toNat = xs.length ∧
        (∀ t : K, (q'.task (.inr t)).priority = 0) ∧
        (∀ t : K, (q.task (.inr t)).queue = true → (q'.task (.inr t)).queue = true) ∧
        q'.priority_level_count = q.priority_level_count ∧
        q'.priority_level_array = q.priority_level_array := by
  induction fuel generalizing zs with
  | zero =>
    intro q _ _ _ _ hs
    cases hs
  | succ fuel ih =>
    intro q hlist hnodup hcount hpriority hs
    unfold AsyncQueue.cancelFrom at hs
    cases zs with
    | nil =>
      have hend : ¬((([] : List K).head?.map Sum.inr).getD listEnd ≠ (listEnd : Node K) ∧
          (q.task ((([] : List K).head?.map Sum.inr).getD listEnd)).priority = 0) :=
        fun h => h.1 rfl
      rw [if_neg hend] at hs
      obtain rfl := Option.some.inj hs
      rw [List.append_nil] at hlist hcount
      exact ⟨hlist, hcount, hpriority, fun _ h => h, rfl, rfl⟩
    | cons t zs =>
      have hgo : ((t :: zs).head?.map Sum.inr).getD listEnd ≠ (listEnd : Node K) ∧
          (q.task (((t :: zs).head?.map Sum.inr).getD listEnd)).priority = 0 := by
        refine ⟨fun h => ?_, hpriority t⟩
        cases h
      rw [if_pos hgo] at hs
      dsimp only at hs
      have hnext : q.task_list.next (((t :: zs).head?.map Sum.inr).getD listEnd) =
          (zs.head?.map Sum.inr).getD listEnd := hlist.next_elem (s := ()) rfl
      rw [hnext] at hs
      have hxs : t ∉ xs := fun hxs =>
        (List.nodup_append.mp hnodup).2.2 t hxs t List.mem_cons_self rfl
      have herase : (xs ++ t :: zs).erase t = xs ++ zs := by
        rw [List.erase_append_right _ hxs, List.erase_cons_head]
      have hrep := Links.Represents.unlink hlist t
      rw [herase] at hrep
      have hnodup' : (xs ++ zs).Nodup := by
        rw [← herase]
        exact hnodup.erase t
      have hcount' : (q.task_count - 1).toNat = (xs ++ zs).length := by
        have hlt := q.task_count.isLt
        rw [List.length_append, List.length_cons] at hcount
        rw [List.length_append, BitVec.toNat_sub]
        change (2 ^ 32 - 1 + _) % 2 ^ 32 = _
        omega
      have hstatus := Unmoved.cancel q (.inr t)
      have hlist' : TaskList ({ q.unlink (.inr t) with
          task_count := q.task_count - 1 }.cancel (.inr t)) (xs ++ zs) := hrep
      obtain ⟨hxs', hcount', hpriority', hqueue, hlevels, harray⟩ := ih hlist' hnodup' hcount'
        (fun k => (hstatus.priority _).trans (hpriority k)) hs
      exact ⟨hxs', hcount', hpriority', fun k hk => hqueue k (hstatus.queue _ hk), hlevels, harray⟩

omit [DecidableEq T] in
theorem cancelPriorityLevel (h : Invariant q levels list) {fuel priority : ℕ}
    (hmet : if priority = 0 then levels 0 <:+ list else levels priority = [])
    (hs : q.cancelPriorityLevel fuel priority = some q') :
    ∃ list', Invariant q' (LevelQueue.clear levels priority) list' := by
  unfold AsyncQueue.cancelPriorityLevel at hs
  split at hs
  case isFalse => cases hs
  rename_i hlt
  obtain ⟨q₁, hcancel, rfl⟩ := Option.map_eq_some_iff.mp hs
  have hhead := h.heads priority hlt
  have hcleared : ∃ xs, TaskList q₁ xs ∧ Layout xs (LevelQueue.clear levels priority) ∧
      q₁.task_count.toNat = xs.length ∧ (∀ t : K, (q₁.task (.inr t)).priority = 0) ∧
      (∀ t : K, t ∈ xs → (q₁.task (.inr t)).queue = true) ∧
      q₁.priority_level_count = q.priority_level_count ∧
      q₁.priority_level_array = q.priority_level_array := by
    unfold AsyncQueue.cancelLevelTasks at hcancel
    cases hlevel : levels priority with
    | nil =>
      rw [hhead, hlevel] at hcancel
      obtain rfl := Option.some.inj hcancel
      have hclear : LevelQueue.clear levels priority = levels := by
        unfold LevelQueue.clear
        rw [← hlevel, Function.update_eq_self]
      rw [hclear]
      exact ⟨list, h.represents, h.layout, h.count, h.priority, h.queue, rfl, rfl⟩
    | cons t rest =>
      have hzero : priority = 0 := by
        by_contra hne
        rw [if_neg hne, hlevel] at hmet
        cases hmet
      subst hzero
      rw [if_pos rfl] at hmet
      obtain ⟨xs, hlist⟩ := hmet
      subst hlist
      rw [hhead, hlevel] at hcancel
      have hloop : AsyncQueue.cancelFrom 0 fuel
          (((levels 0).head?.map Sum.inr).getD listEnd) q = some q₁ := by
        rw [hlevel]
        exact hcancel
      obtain ⟨hlist, hcount, hpriority, hqueue, hlevels, harray⟩ :=
        cancelFrom h.represents h.layout.nodup h.count h.priority hloop
      exact ⟨xs, hlist, h.layout.clear, hcount, hpriority,
        fun k hk => hqueue k (h.queue k (List.mem_append_left _ hk)), hlevels, harray⟩
  obtain ⟨xs, hlist, hlayout, hcount, hpriority, hqueue, hlevels, harray⟩ := hcleared
  refine ⟨xs, ?_⟩
  have hset : Invariant (q₁.setHead priority none) (LevelQueue.clear levels priority) xs := by
    constructor
    case represents => exact hlist
    case layout => exact hlayout
    case bound =>
      intro i hi
      change q₁.priority_level_count ≤ i at hi
      rw [hlevels] at hi
      unfold LevelQueue.clear
      rw [Function.update_of_ne (by omega)]
      exact h.bound i hi
    case heads =>
      intro i hi
      change i < q₁.priority_level_count at hi
      rw [hlevels] at hi
      unfold LevelQueue.clear
      by_cases hip : i = priority
      · subst hip
        rw [setHead_self, Function.update_self]
        rfl
      · rw [setHead_of_ne _ _ hip, Function.update_of_ne hip, harray]
        exact h.heads i hi
    case count => exact hcount
    case priority => exact hpriority
    case queue => exact hqueue
  have hevent : Invariant (if (q₁.setHead priority none).hasThreadOf priority = true then
      (q₁.setHead priority none).modifyLevel priority fun x =>
        { x with priority_cleared_event := false }
      else q₁.setHead priority none) (LevelQueue.clear levels priority) xs := by
    split
    · exact hset.unmoved (Unmoved.modifyLevel _ _ fun _ => rfl)
    · exact hset
  have hcompletion := hevent.unmoved (Unmoved.updateCompletion _)
  exact hcompletion.unmoved (Unmoved.cancelThreadPriorityLevel _ _)

omit [DecidableEq T] in
theorem takeOut (h : Invariant q levels list) (ht : t ∈ levels i) {new_priority : ℕ}
    (hleaves : Leaves levels t i new_priority) :
    (q.takeOut t 0).task_list.Represents (fun _ => list.erase t) ∧
    Layout (list.erase t) (LevelQueue.remove levels t) ∧
    (∀ j < q.priority_level_count,
      ((q.takeOut t 0).priority_level_array j).async_task_head =
        (LevelQueue.remove levels t j).head?.map Sum.inr ∨
      (j = new_priority ∧ LevelQueue.remove levels t j = [] ∧
        ((q.takeOut t 0).priority_level_array j).async_task_head = some (.inr t))) ∧
    (q.takeOut t 0).priority_level_count = q.priority_level_count ∧
    (q.takeOut t 0).task_count = q.task_count ∧ (q.takeOut t 0).task = q.task := by
  have hi := h.lt_of_mem ht
  have hlinked : q.task_list.isLinked (.inr t) = true := (h.isLinked_iff t).mpr (h.layout.mem_list ht)
  by_cases hfirst : (levels i).head? = some t
  · obtain ⟨rest, hlevel⟩ := List.head?_eq_some_iff.mp hfirst
    have hleave := hleaves.1 hfirst
    by_cases hzero : i = 0
    · subst hzero
      rw [if_pos rfl, hlevel] at hleave
      obtain ⟨r, bs, rfl⟩ : ∃ r bs, rest = r :: bs := by
        cases rest with
        | nil => exact absurd rfl hleave
        | cons r bs => exact ⟨r, bs, rfl⟩
      have hnext : q.task_list.next (.inr t) = .inr r := by
        apply h.next_of_level
        rw [hlevel]
        exact (List.nil_append _).symm
      have hhead : (q.priority_level_array 0).async_task_head = some (.inr t) := by
        rw [h.heads 0 hi, hlevel]
        rfl
      have htake : q.takeOut t 0 = (q.setHead 0 (some (.inr r))).unlink (.inr t) := by
        unfold AsyncQueue.takeOut
        dsimp only
        rw [hnext, if_pos hhead, if_pos ⟨hlinked, h.priority r⟩]
      have herase : some (Sum.inr r) = ((levels 0).erase t).head?.map (Sum.inr : K → Node K) := by
        rw [hlevel, List.erase_cons_head]
        rfl
      obtain ⟨hrep, hlayout, hheads⟩ := h.unlink ht herase
      rw [htake]
      exact ⟨hrep, hlayout, fun j hj => Or.inl (hheads j hj), rfl, rfl, rfl⟩
    · rw [if_neg hzero] at hleave
      obtain ⟨rfl, hsingle⟩ := hleave
      have hhead : (q.priority_level_array 0).async_task_head ≠ some (.inr t) := by
        rw [h.heads 0 (by omega)]
        intro heq
        cases hlevel0 : levels 0 with
        | nil =>
          rw [hlevel0] at heq
          cases heq
        | cons a rest =>
          rw [hlevel0] at heq
          apply hzero
          apply h.layout.disjoint i 0 t ht
          rw [hlevel0, ← Sum.inr.inj (Option.some.inj heq)]
          exact List.mem_cons_self
      have htake : q.takeOut t 0 = q.unlink (.inr t) := by
        unfold AsyncQueue.takeOut
        dsimp only
        rw [if_neg hhead]
      rw [htake]
      refine ⟨h.represents.unlink t, h.layout.remove t, fun j hj => ?_, rfl, rfl, rfl⟩
      by_cases hji : j = i
      · right
        subst hji
        refine ⟨rfl, ?_, ?_⟩
        · unfold LevelQueue.remove
          rw [hsingle, List.erase_cons_head]
        · exact (h.heads j hj).trans (by rw [hsingle]; rfl)
      · left
        rw [h.layout.remove_of_ne ht hji]
        exact h.heads j hj
  · have hheads : ∀ j < q.priority_level_count,
        (q.priority_level_array j).async_task_head =
          (LevelQueue.remove levels t j).head?.map Sum.inr := by
      intro j hj
      rw [h.heads j hj]
      by_cases hji : j = i
      · subst hji
        cases hlevel : levels j with
        | nil =>
          rw [hlevel] at ht
          cases ht
        | cons a rest =>
          have hat : a ≠ t := by
            rintro rfl
            apply hfirst
            rw [hlevel]
            rfl
          unfold LevelQueue.remove
          rw [hlevel, List.erase_cons_tail (by rw [beq_iff_eq]; exact hat)]
          rfl
      · rw [h.layout.remove_of_ne ht hji]
    have hhead : (q.priority_level_array 0).async_task_head ≠ some (.inr t) := by
      rw [h.heads 0 (by omega)]
      intro heq
      cases hlevel0 : levels 0 with
      | nil =>
        rw [hlevel0] at heq
        cases heq
      | cons a rest =>
        rw [hlevel0] at heq
        have hat : a = t := Sum.inr.inj (Option.some.inj heq)
        have hmem : t ∈ levels 0 := by
          rw [hlevel0, ← hat]
          exact List.mem_cons_self
        have hi0 := h.layout.disjoint i 0 t ht hmem
        apply hfirst
        rw [hi0, hlevel0, ← hat]
        rfl
    have htake : q.takeOut t 0 = q.unlink (.inr t) := by
      unfold AsyncQueue.takeOut
      dsimp only
      rw [if_neg hhead]
    rw [htake]
    exact ⟨h.represents.unlink t, h.layout.remove t, fun j hj => Or.inl (hheads j hj), rfl, rfl,
      rfl⟩

omit [DecidableEq K] [DecidableEq T] in
theorem move_eq [DecidableEq K] (h : Layout list levels) (ht : t ∈ levels i) {priority : ℕ}
    (hlast : i = priority → (levels i).getLast? = some t) :
    LevelQueue.move levels priority t =
      LevelQueue.push (LevelQueue.remove levels t) priority t := by
  unfold LevelQueue.move
  by_cases hp : t ∈ levels priority
  · rw [if_pos (Or.inl hp)]
    obtain rfl := h.disjoint i priority t ht hp
    exact (push_remove_self h ht (hlast rfl)).symm
  · apply if_neg
    rintro (hmem | hnone)
    · exact hp hmem
    · exact hnone i ht

omit [DecidableEq T] in
theorem changePriority (h : Invariant q levels list) {new_priority : ℕ}
    (hmet : (q.task (.inr t)).queue = true → new_priority < q.priority_level_count →
      if new_priority = 0 then ∀ i, t ∈ levels i → i = 0
      else ∃ i, t ∈ levels i ∧ Leaves levels t i new_priority ∧
        Room (list.erase t) (LevelQueue.remove levels t) new_priority)
    (hs : q.changePriority t new_priority = some q') :
    ∃ list', Invariant q' (LevelQueue.move levels new_priority t) list' := by
  have hstay : (t ∈ levels new_priority ∨ ∀ j, t ∉ levels j) →
      LevelQueue.move levels new_priority t = levels := fun hcases => if_pos hcases
  unfold AsyncQueue.changePriority at hs
  split at hs
  · rename_i hqueue
    obtain rfl := Option.some.inj hs
    refine ⟨list, ?_⟩
    rw [hstay]
    · exact h
    · right
      intro j hj
      rw [h.queue t (h.layout.mem_list hj)] at hqueue
      cases hqueue
  rename_i hqueue
  rw [Bool.not_eq_false] at hqueue
  dsimp only at hs
  rw [h.priority] at hs
  have hclamp : q.priority_level_count ≤ q.clampPriority new_priority ∨
      (q.clampPriority new_priority = new_priority ∧ new_priority < q.priority_level_count) := by
    unfold AsyncQueue.clampPriority
    split
    · exact Or.inl (Nat.le_refl _)
    · by_cases hlt : new_priority < q.priority_level_count
      · exact Or.inr ⟨rfl, hlt⟩
      · exact Or.inl (Nat.le_of_not_lt hlt)
  split at hs
  · rename_i hzero
    obtain rfl := Option.some.inj hs
    refine ⟨list, ?_⟩
    rw [hstay]
    · exact h
    · obtain hcount | ⟨hnew, hlt⟩ := hclamp
      · right
        intro j hj
        have hlt := h.lt_of_mem hj
        omega
      · have hnew0 : new_priority = 0 := hnew.symm.trans hzero
        have hlevel := hmet hqueue hlt
        rw [if_pos hnew0] at hlevel
        by_cases hmem : ∃ j, t ∈ levels j
        · obtain ⟨j, hj⟩ := hmem
          left
          rw [hnew0, ← hlevel j hj]
          exact hj
        · right
          exact fun j hj => hmem ⟨j, hj⟩
  rename_i hne
  split at hs
  case isFalse => cases hs
  obtain ⟨q₁, hlink, hfill⟩ := Option.bind_eq_some_iff.mp hs
  have hfill_lt : q.clampPriority new_priority < q₁.priority_level_count := by
    unfold AsyncQueue.fillHead at hfill
    split at hfill
    · assumption
    · cases hfill
  have hlink_count : q₁.priority_level_count = q.priority_level_count := by
    unfold AsyncQueue.link at hlink
    split at hlink
    · split at hlink
      · obtain rfl := Option.some.inj hlink
        unfold AsyncQueue.takeOut
        dsimp only
        split
        all_goals rfl
      · cases hlink
    · obtain rfl := Option.some.inj hlink
      unfold AsyncQueue.takeOut
      dsimp only
      split
      all_goals rfl
  rw [hlink_count] at hfill_lt
  obtain hcount | ⟨hnew, hlt⟩ := hclamp
  · omega
  rw [hnew] at hlink hfill hne
  have hcondition := hmet hqueue hlt
  rw [if_neg hne] at hcondition
  obtain ⟨i, ht, hleaves, hroom⟩ := hcondition
  obtain ⟨hrep, hlayout, hheads, hlevels, htask_count, htask⟩ := h.takeOut ht hleaves
  have hnot : t ∉ list.erase t := fun hmem => (h.layout.nodup.mem_erase_iff.mp hmem).1 rfl
  have hlower : ∀ j < new_priority, ((q.takeOut t 0).priority_level_array j).async_task_head =
      (LevelQueue.remove levels t j).head?.map Sum.inr := by
    intro j hj
    obtain hhead | ⟨heq, -⟩ := hheads j (by omega)
    · exact hhead
    · omega
  obtain ⟨list', hl⟩ := link_linked hrep hlayout hnot hlower hroom hlink
  obtain ⟨hlist₂, hlevels₂, hcount₂, htask₂, hheads₂⟩ := fillHead_heads
    (by rw [hlink_count]; exact hlt)
    (fun j hj => by
      rw [hlink_count] at hj
      rw [hl.heads]
      exact hheads j hj) hfill
  refine ⟨list', ?_⟩
  rw [move_eq h.layout ht hleaves.2]
  have htasks : q'.task = q.task := by rw [htask₂, hl.task, htask]
  constructor
  case represents =>
    rw [hlist₂]
    exact hl.represents
  case layout => exact hl.layout
  case bound =>
    intro j hj
    rw [hlevels₂, hlink_count] at hj
    unfold LevelQueue.push
    rw [Function.update_of_ne (by omega)]
    unfold LevelQueue.remove
    rw [h.bound j hj]
    rfl
  case heads =>
    intro j hj
    rw [hlevels₂] at hj
    exact hheads₂ j hj
  case count =>
    have hpos : 1 ≤ list.length := List.length_pos_of_mem (h.layout.mem_list ht)
    rw [hcount₂, hl.task_count, htask_count, h.count, hl.length,
      List.length_erase_of_mem (h.layout.mem_list ht)]
    omega
  case priority =>
    intro k
    rw [htasks]
    exact h.priority k
  case queue =>
    intro k hk
    rw [htasks]
    obtain hk | ⟨-, rfl⟩ := LevelQueue.mem_push.mp ((hl.layout.mem k).mp hk).choose_spec
    · exact h.queue k (h.layout.mem_list (List.mem_of_mem_erase hk))
    · exact hqueue

end Invariant

end Awn.Async
