import Awn.Async.Run

/-!
How the queue holds the levels: each is a run of the list that begins at the level's pointer.
-/

namespace Awn.Async

open LevelQueue (Layout)

variable {K T : Type*}

structure Invariant (q : AsyncQueue K T) (levels : ℕ → List K) (list : List K) : Prop where
  represents : q.task_list.Represents fun _ => list
  layout : Layout list levels
  bound : ∀ i, q.priority_level_count ≤ i → levels i = []
  heads : ∀ i < q.priority_level_count,
    (q.priority_level_array i).async_task_head = (levels i).head?.map Sum.inr
  count : q.task_count.toNat = list.length
  priority : ∀ t : K, (q.task (.inr t)).priority = 0
  queue : ∀ t ∈ list, (q.task (.inr t)).queue = true

structure Unmoved (q q' : AsyncQueue K T) : Prop where
  task_list : q'.task_list = q.task_list
  priority_level_count : q'.priority_level_count = q.priority_level_count
  heads : ∀ i, (q'.priority_level_array i).async_task_head =
    (q.priority_level_array i).async_task_head
  task_count : q'.task_count = q.task_count
  priority : ∀ n, (q'.task n).priority = (q.task n).priority
  queue : ∀ n, (q.task n).queue = true → (q'.task n).queue = true

namespace Unmoved

variable {q q₁ q₂ q₃ : AsyncQueue K T}

theorem refl (q : AsyncQueue K T) : Unmoved q q := ⟨rfl, rfl, fun _ => rfl, rfl, fun _ => rfl, fun _ h => h⟩

theorem trans (h : Unmoved q₁ q₂) (h' : Unmoved q₂ q₃) : Unmoved q₁ q₃ where
  task_list := h'.task_list.trans h.task_list
  priority_level_count := h'.priority_level_count.trans h.priority_level_count
  heads i := (h'.heads i).trans (h.heads i)
  task_count := h'.task_count.trans h.task_count
  priority n := (h'.priority n).trans (h.priority n)
  queue n hn := h'.queue n (h.queue n hn)

theorem modifyTask [DecidableEq K] (q : AsyncQueue K T) (n : Node K)
    {f : AsyncTask T → AsyncTask T}
    (hf : ∀ x, (f x).priority = x.priority ∧ (x.queue = true → (f x).queue = true)) :
    Unmoved q (q.modifyTask n f) := by
  have hself : (q.modifyTask n f).task n = f (q.task n) := Function.update_self _ _ _
  have hothers : ∀ m, m ≠ n → (q.modifyTask n f).task m = q.task m := fun m hm =>
    Function.update_of_ne hm _ _
  refine ⟨rfl, rfl, fun _ => rfl, rfl, fun m => ?_, fun m hqueue => ?_⟩
  · by_cases hm : m = n
    · subst hm
      rw [hself, (hf _).1]
    · rw [hothers m hm]
  · by_cases hm : m = n
    · subst hm
      rw [hself]
      exact (hf _).2 hqueue
    · rw [hothers m hm]
      exact hqueue

theorem setStatus [DecidableEq K] (q : AsyncQueue K T) (n : Node K) (status : Status) :
    Unmoved q (q.modifyTask n fun x => { x with status := status }) :=
  modifyTask q n fun _ => ⟨rfl, fun h => h⟩

theorem invokeFreeExecute [DecidableEq K] (q : AsyncQueue K T) (n : Node K) :
    Unmoved q (q.invokeFreeExecute n) :=
  modifyTask q n fun _ => ⟨rfl, fun h => h⟩

theorem cancel [DecidableEq K] (q : AsyncQueue K T) (n : Node K) : Unmoved q (q.cancel n) :=
  modifyTask q n fun _ => ⟨rfl, fun h => h⟩

theorem modifyLevel (q : AsyncQueue K T) (i : ℕ) {f : PriorityLevel K → PriorityLevel K}
    (hf : ∀ x, (f x).async_task_head = x.async_task_head) : Unmoved q (q.modifyLevel i f) := by
  refine ⟨rfl, rfl, fun j => ?_, rfl, fun _ => rfl, fun _ h => h⟩
  unfold AsyncQueue.modifyLevel
  dsimp only
  by_cases hj : j = i
  · subst hj
    rw [Function.update_self, hf]
  · rw [Function.update_of_ne hj]

theorem updateCompletion (q : AsyncQueue K T) : Unmoved q q.updateCompletion := by
  unfold AsyncQueue.updateCompletion
  have hall : Unmoved q q.updateAllTaskCompletion.2 := by
    unfold AsyncQueue.updateAllTaskCompletion
    split
    · exact ⟨rfl, rfl, fun _ => rfl, rfl, fun _ => rfl, fun _ h => h⟩
    · exact refl q
  apply hall.trans
  refine ⟨rfl, rfl, fun i => ?_, rfl, fun _ => rfl, fun _ h => h⟩
  unfold AsyncQueue.updatePriorityLevelCompletion
  dsimp only
  split
  all_goals rfl

theorem cancelThreadPriorityLevel [DecidableEq K] (q : AsyncQueue K T) (priority : ℕ) :
    Unmoved q (q.cancelThreadPriorityLevel priority) := by
  unfold AsyncQueue.cancelThreadPriorityLevel
  generalize q.task_thread_array = threads
  induction threads generalizing q with
  | nil => exact refl q
  | cons w rest ih =>
    rw [List.foldl_cons]
    apply trans _ (ih _)
    split
    · exact refl q
    · split
      · exact refl q
      · exact modifyTask q _ fun _ => ⟨rfl, fun h => h⟩

end Unmoved

def Room (list : List K) (levels : ℕ → List K) (priority : ℕ) : Prop :=
  ((∀ i < priority, levels i = []) → levels priority <:+ list) ∧
  ∀ i < priority, levels i ≠ [] → (∀ j, i < j → j < priority → levels j = []) →
    (levels i).length = 1 ∧ levels priority = []

namespace Invariant

variable {q q' : AsyncQueue K T} {levels : ℕ → List K} {list : List K} {t : K} {i : ℕ}

theorem unmoved (h : Invariant q levels list) (hs : Unmoved q q') : Invariant q' levels list where
  represents := by
    rw [hs.task_list]
    exact h.represents
  layout := h.layout
  bound := by
    rw [hs.priority_level_count]
    exact h.bound
  heads i hi := by
    rw [hs.priority_level_count] at hi
    rw [hs.heads]
    exact h.heads i hi
  count := by
    rw [hs.task_count]
    exact h.count
  priority t := by
    rw [hs.priority]
    exact h.priority t
  queue t ht := hs.queue _ (h.queue t ht)

theorem lt_of_mem (h : Invariant q levels list) (ht : t ∈ levels i) :
    i < q.priority_level_count := by
  by_contra hi
  rw [h.bound i (Nat.le_of_not_lt hi)] at ht
  cases ht

theorem isLinked_iff [DecidableEq K] (h : Invariant q levels list) (t : K) :
    q.task_list.isLinked (.inr t) = true ↔ t ∈ list := by
  rw [h.represents.isLinked_elem]
  exact ⟨fun ⟨_, ht⟩ => ht, fun ht => ⟨(), ht⟩⟩

theorem next_of_level (h : Invariant q levels list) {as bs : List K} {r : K}
    (hlevel : levels i = as ++ t :: r :: bs) : q.task_list.next (.inr t) = .inr r := by
  obtain ⟨pre, post, hlist⟩ := h.layout.run i
  have hsplit : list = (pre ++ as) ++ t :: (r :: bs ++ post) := by
    rw [← hlist, hlevel, List.append_assoc, List.append_assoc, List.append_assoc]
    rfl
  rw [h.represents.next_elem (s := ()) hsplit]
  rfl

theorem next_of_last (h : Invariant q levels list) (ht : list.getLast? = some t) :
    q.task_list.next (.inr t) = listEnd := by
  obtain ⟨xs, hlist⟩ := List.getLast?_eq_some_iff.mp ht
  rw [h.represents.next_elem (s := ()) hlist]
  rfl

theorem nextHead_of_ne [DecidableEq K] (h : Invariant q levels list) (t : K) (hi : i ≠ 0) :
    q.nextHead (.inr t) i = none := by
  unfold AsyncQueue.nextHead
  dsimp only
  apply if_pos
  by_cases hend : q.task_list.next (.inr t) = listEnd
  · exact Or.inl hend
  · right
    obtain ⟨u, hu⟩ | ⟨r, hr⟩ : (∃ u, q.task_list.next (.inr t) = .inl u) ∨
        ∃ r, q.task_list.next (.inr t) = .inr r := by
      cases q.task_list.next (.inr t) with
      | inl u => exact Or.inl ⟨u, rfl⟩
      | inr r => exact Or.inr ⟨r, rfl⟩
    · exact absurd hu hend
    · rw [hr, h.priority]
      exact Ne.symm hi

theorem nextHead_zero [DecidableEq K] (h : Invariant q levels list) {r : K}
    (hr : q.task_list.next (.inr t) = .inr r) : q.nextHead (.inr t) 0 = some (.inr r) := by
  unfold AsyncQueue.nextHead
  dsimp only
  rw [hr, h.priority]
  apply if_neg
  rintro (hend | hne)
  · cases hend
  · exact hne rfl

theorem findNextTask (h : Invariant q levels list) {k : ℕ} (hk : k ≤ q.priority_level_count) :
    (q.findNextTask k = none ∧
      ∀ i < k, (q.priority_level_array i).is_paused = true ∨ levels i = []) ∨
    ∃ i t rest, q.findNextTask k = some (i, .inr t) ∧ i < k ∧
      (q.priority_level_array i).is_paused = false ∧ levels i = t :: rest ∧
      ∀ j, i < j → j < k → (q.priority_level_array j).is_paused = true ∨ levels j = [] := by
  induction k with
  | zero => exact Or.inl ⟨rfl, fun i hi => absurd hi (Nat.not_lt_zero i)⟩
  | succ k ih =>
    have hskip : q.findNextTask (k + 1) = q.findNextTask k →
        ((q.priority_level_array k).is_paused = true ∨ levels k = []) →
        (q.findNextTask (k + 1) = none ∧
          ∀ i < k + 1, (q.priority_level_array i).is_paused = true ∨ levels i = []) ∨
        ∃ i t rest, q.findNextTask (k + 1) = some (i, .inr t) ∧ i < k + 1 ∧
          (q.priority_level_array i).is_paused = false ∧ levels i = t :: rest ∧
          ∀ j, i < j → j < k + 1 →
            (q.priority_level_array j).is_paused = true ∨ levels j = [] := by
      intro heq hlevel
      rw [heq]
      obtain ⟨hnone, hall⟩ | ⟨i, t, rest, hfind, hi, hpaused, hhead, hall⟩ := ih (by omega)
      · left
        refine ⟨hnone, fun i hi => ?_⟩
        by_cases hik : i = k
        · rw [hik]
          exact hlevel
        · exact hall i (by omega)
      · right
        refine ⟨i, t, rest, hfind, by omega, hpaused, hhead, fun j hj hjk => ?_⟩
        by_cases hjk' : j = k
        · rw [hjk']
          exact hlevel
        · exact hall j hj (by omega)
    have hheads := h.heads k (by omega)
    by_cases hpaused : (q.priority_level_array k).is_paused = true
    · apply hskip _ (Or.inl hpaused)
      rw [AsyncQueue.findNextTask, if_pos hpaused]
    · rw [Bool.not_eq_true] at hpaused
      cases hlevel : levels k with
      | nil =>
        apply hskip _ (Or.inr hlevel)
        rw [hlevel] at hheads
        rw [AsyncQueue.findNextTask, hpaused, hheads]
        rfl
      | cons t rest =>
        right
        refine ⟨k, t, rest, ?_, Nat.lt_succ_self k, hpaused, hlevel, fun j hj hjk => by omega⟩
        rw [hlevel] at hheads
        rw [AsyncQueue.findNextTask, hpaused, hheads]
        rfl

end Invariant

section Insert

variable {q q' : AsyncQueue K T} {levels : ℕ → List K} {list : List K} {t : K} {priority : ℕ}

theorem lowerHead_cases (hheads : ∀ i < priority,
    (q.priority_level_array i).async_task_head = (levels i).head?.map Sum.inr) :
    (q.lowerHead priority = none ∧ ∀ i < priority, levels i = []) ∨
    ∃ i a rest, q.lowerHead priority = some (.inr a) ∧ i < priority ∧ levels i = a :: rest ∧
      ∀ j, i < j → j < priority → levels j = [] := by
  induction priority with
  | zero => exact Or.inl ⟨rfl, fun i hi => absurd hi (Nat.not_lt_zero i)⟩
  | succ k ih =>
    have hk := hheads k (Nat.lt_succ_self k)
    cases hlevel : levels k with
    | nil =>
      rw [hlevel] at hk
      have heq : q.lowerHead (k + 1) = q.lowerHead k := by
        rw [AsyncQueue.lowerHead, hk]
        rfl
      rw [heq]
      obtain ⟨hnone, hall⟩ | ⟨i, a, rest, hsome, hi, hhead, hall⟩ :=
        ih fun i hi => hheads i (by omega)
      · left
        refine ⟨hnone, fun i hi => ?_⟩
        by_cases hik : i = k
        · rw [hik, hlevel]
        · exact hall i (by omega)
      · right
        refine ⟨i, a, rest, hsome, by omega, hhead, fun j hj hjk => ?_⟩
        by_cases hjk' : j = k
        · rw [hjk', hlevel]
        · exact hall j hj (by omega)
    | cons a rest =>
      right
      refine ⟨k, a, rest, ?_, Nat.lt_succ_self k, hlevel, fun j hj hjk => by omega⟩
      rw [hlevel] at hk
      rw [AsyncQueue.lowerHead, hk]
      rfl

structure Linked (q q' : AsyncQueue K T) (levels : ℕ → List K) (list : List K) (t : K)
    (priority : ℕ) (list' : List K) : Prop where
  represents : q'.task_list.Represents fun _ => list'
  layout : Layout list' (LevelQueue.push levels priority t)
  length : list'.length = list.length + 1
  priority_level_count : q'.priority_level_count = q.priority_level_count
  heads : ∀ i, (q'.priority_level_array i).async_task_head =
    (q.priority_level_array i).async_task_head
  task_count : q'.task_count = q.task_count
  task : q'.task = q.task

theorem link_linked [DecidableEq K] (hrep : q.task_list.Represents fun _ => list)
    (hlayout : Layout list levels) (ht : t ∉ list) (hheads : ∀ i < priority,
      (q.priority_level_array i).async_task_head = (levels i).head?.map Sum.inr)
    (hroom : Room list levels priority) (hs : q.link (.inr t) priority = some q') :
    ∃ list', Linked q q' levels list t priority list' := by
  unfold AsyncQueue.link at hs
  obtain ⟨hlower, hempty⟩ | ⟨i, a, rest, hlower, hi, hlevel, hbetween⟩ := lowerHead_cases hheads
  · rw [hlower] at hs
    dsimp only at hs
    split at hs
    · obtain rfl := Option.some.inj hs
      have hmodify := Unmoved.modifyLevel
        { q with task_list := q.task_list.linkPrev listEnd (.inr t) } priority
        (f := fun x => { x with priority_cleared_event := false }) fun _ => rfl
      refine ⟨list ++ [t], ?_, hlayout.pushBack ht (hroom.1 hempty), List.length_append, rfl,
        hmodify.heads, rfl, rfl⟩
      have hpush := hrep.pushBack (fun _ => ht) ()
      have hupdate : Function.update (fun _ : Unit => list) () (list ++ [t]) =
          fun _ => list ++ [t] := by
        funext u
        exact Function.update_self _ _ _
      rw [hupdate] at hpush
      exact hpush
    · cases hs
  · rw [hlower] at hs
    obtain rfl := Option.some.inj hs
    have hne : levels i ≠ [] := by
      rw [hlevel]
      exact List.cons_ne_nil a rest
    obtain ⟨hone, hnil⟩ := hroom.2 i hi hne hbetween
    have hsingle : levels i = [a] := by
      rw [hlevel, List.length_cons] at hone
      rw [hlevel, List.length_eq_zero_iff.mp (Nat.succ.inj hone)]
    have ha : a ∈ list := by
      apply hlayout.mem_list (i := i)
      rw [hsingle]
      exact List.mem_singleton_self a
    obtain ⟨xs, ys, rfl⟩ := List.append_of_mem ha
    refine ⟨xs ++ a :: t :: ys, ?_, hlayout.insertNext ht hsingle hnil, ?_, rfl, fun _ => rfl,
      rfl, rfl⟩
    · have hnext := hrep.linkNext (s := ()) (fun _ => ht) rfl
      have hupdate : Function.update (fun _ : Unit => xs ++ a :: ys) () (xs ++ a :: t :: ys) =
          fun _ => xs ++ a :: t :: ys := by
        funext u
        exact Function.update_self _ _ _
      rw [hupdate] at hnext
      exact hnext
    · rw [List.length_append, List.length_append, List.length_cons, List.length_cons,
        List.length_cons]
      omega

theorem setHead_self (q : AsyncQueue K T) (i : ℕ) (head : Option (Node K)) :
    ((q.setHead i head).priority_level_array i).async_task_head = head := by
  unfold AsyncQueue.setHead AsyncQueue.modifyLevel
  dsimp only
  rw [Function.update_self]

theorem setHead_of_ne (q : AsyncQueue K T) {i j : ℕ} (head : Option (Node K)) (h : j ≠ i) :
    (q.setHead i head).priority_level_array j = q.priority_level_array j := by
  unfold AsyncQueue.setHead AsyncQueue.modifyLevel
  dsimp only
  rw [Function.update_of_ne h]

theorem fillHead_heads [DecidableEq K] (hlt : priority < q.priority_level_count)
    (hheads : ∀ i < q.priority_level_count,
      (q.priority_level_array i).async_task_head = (levels i).head?.map Sum.inr ∨
      (i = priority ∧ levels i = [] ∧
        (q.priority_level_array i).async_task_head = some (.inr t)))
    (hs : q.fillHead (.inr t) priority = some q') :
    q'.task_list = q.task_list ∧ q'.priority_level_count = q.priority_level_count ∧
    q'.task_count = q.task_count ∧ q'.task = q.task ∧
    ∀ i < q.priority_level_count, (q'.priority_level_array i).async_task_head =
      (LevelQueue.push levels priority t i).head?.map Sum.inr := by
  have hpush : ∀ i, i ≠ priority → LevelQueue.push levels priority t i = levels i := fun i hi =>
    Function.update_of_ne hi _ _
  have hself : LevelQueue.push levels priority t priority = levels priority ++ [t] :=
    Function.update_self _ _ _
  have hothers : ∀ i < q.priority_level_count, i ≠ priority →
      (q.priority_level_array i).async_task_head =
        (LevelQueue.push levels priority t i).head?.map Sum.inr := by
    intro i hi hne
    rw [hpush i hne]
    obtain hhead | ⟨heq, -⟩ := hheads i hi
    · exact hhead
    · exact absurd heq hne
  unfold AsyncQueue.fillHead at hs
  rw [if_pos hlt] at hs
  split at hs
  · rename_i hnone
    obtain rfl := Option.some.inj hs
    refine ⟨rfl, rfl, rfl, rfl, fun i hi => ?_⟩
    by_cases hip : i = priority
    · subst hip
      rw [setHead_self, hself]
      obtain hhead | ⟨-, -, hhead⟩ := hheads i hlt
      · rw [hnone] at hhead
        have hnil : levels i = [] := by
          cases hlevel : levels i with
          | nil => rfl
          | cons a rest =>
            rw [hlevel] at hhead
            cases hhead
        rw [hnil]
        rfl
      · rw [hnone] at hhead
        cases hhead
    · rw [setHead_of_ne _ _ hip]
      exact hothers i hi hip
  · rename_i hsome
    obtain rfl := Option.some.inj hs
    refine ⟨rfl, rfl, rfl, rfl, fun i hi => ?_⟩
    by_cases hip : i = priority
    · subst hip
      rw [hself]
      obtain hhead | ⟨-, hnil, hhead⟩ := hheads i hlt
      · rw [hhead]
        cases hlevel : levels i with
        | nil =>
          rw [hlevel] at hhead
          exact absurd hhead hsome
        | cons a rest => rfl
      · rw [hhead, hnil]
        rfl
    · exact hothers i hi hip

end Insert

end Awn.Async
