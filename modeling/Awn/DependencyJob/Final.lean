import Awn.DependencyJob.Queue
import Mathlib.Data.Finset.Card

/-!
What the calls do to the final node, which depends on every job: it becomes ready while one of them
has not finished, or never.
-/

namespace Awn.DependencyJob

variable {T : Type*} {q q' : DependencyJobQueue T} {n : Node}

def unfinished (count : ℕ) (finished : List Node) : Finset ℕ :=
  (Finset.range count).filter fun i => .job i ∉ finished

theorem mem_unfinished {count i : ℕ} {finished : List Node} :
    i ∈ unfinished count finished ↔ i < count ∧ .job i ∉ finished := by
  unfold unfinished
  rw [Finset.mem_filter, Finset.mem_range]

theorem unfinished_le (count : ℕ) (finished : List Node) :
    (unfinished count finished).card ≤ count := by
  have hle := Finset.card_filter_le (Finset.range count) fun i => .job i ∉ finished
  rw [Finset.card_range] at hle
  exact hle

theorem unfinished_append {count i : ℕ} {finished : List Node} (hi : i < count)
    (hnot : .job i ∉ finished) :
    (unfinished count (finished ++ [.job i])).card + 1 = (unfinished count finished).card := by
  have hmem : i ∈ unfinished count finished := mem_unfinished.mpr ⟨hi, hnot⟩
  have herase : unfinished count (finished ++ [.job i]) = (unfinished count finished).erase i := by
    ext j
    rw [Finset.mem_erase, mem_unfinished, mem_unfinished, List.mem_append, List.mem_singleton,
      not_or, Node.job.injEq]
    exact ⟨fun h => ⟨h.2.2, h.1, h.2.1⟩, fun h => ⟨h.2.1, h.2.2, h.1⟩⟩
  rw [herase]
  exact Finset.card_erase_add_one hmem

theorem unfinished_append_of {count : ℕ} {finished : List Node}
    (hn : ∀ i < count, n = .job i → .job i ∈ finished) :
    unfinished count (finished ++ [n]) = unfinished count finished := by
  ext j
  rw [mem_unfinished, mem_unfinished, List.mem_append, List.mem_singleton, not_or]
  refine ⟨fun h => ⟨h.1, h.2.1⟩, fun h => ⟨h.1, h.2, fun heq => ?_⟩⟩
  exact h.2 (hn j h.1 heq.symm)

structure Same (q q' : DependencyJobQueue T) : Prop where
  dependent_list : ∀ n, (q'.node n).dependent_list = (q.node n).dependent_list
  parent_count : (q'.node .final).parent_count = (q.node .final).parent_count
  used : q'.used_job_queue_node_array = q.used_job_queue_node_array
  finished : q'.finished = q.finished
  ready : ∀ finished, (Node.final, finished) ∈ q'.ready → (Node.final, finished) ∈ q.ready

theorem Same.refl (q : DependencyJobQueue T) : Same q q :=
  ⟨fun _ => rfl, rfl, rfl, rfl, fun _ h => h⟩

theorem Same.trans {q₁ q₂ q₃ : DependencyJobQueue T} (h : Same q₁ q₂) (h' : Same q₂ q₃) :
    Same q₁ q₃ where
  dependent_list n := (h'.dependent_list n).trans (h.dependent_list n)
  parent_count := h'.parent_count.trans h.parent_count
  used := h'.used.trans h.used
  finished := h'.finished.trans h.finished
  ready finished hmem := h.ready finished (h'.ready finished hmem)

theorem modify_self (q : DependencyJobQueue T) (n : Node) (f : JobQueueNode → JobQueueNode) :
    (q.modify n f).node n = f (q.node n) :=
  Function.update_self _ _ _

theorem modify_of_ne (q : DependencyJobQueue T) {n k : Node} (f : JobQueueNode → JobQueueNode)
    (h : k ≠ n) : (q.modify n f).node k = q.node k :=
  Function.update_of_ne h _ _

theorem same_modify {f : JobQueueNode → JobQueueNode}
    (hlist : (f (q.node n)).dependent_list = (q.node n).dependent_list)
    (hcount : n = .final → (f (q.node n)).parent_count = (q.node n).parent_count) :
    Same q (q.modify n f) where
  dependent_list k := by
    by_cases hk : k = n
    · subst hk
      rw [modify_self, hlist]
    · rw [modify_of_ne _ _ hk]
  parent_count := by
    by_cases hn : Node.final = n
    · subst hn
      rw [modify_self, hcount rfl]
    · rw [modify_of_ne _ _ hn]
  used := rfl
  finished := rfl
  ready _ h := h

theorem same_queueInsert (hn : n ≠ .final) (hs : q.queueInsert n = some q') : Same q q' := by
  unfold DependencyJobQueue.queueInsert at hs
  split at hs
  · obtain rfl := Option.some.inj hs
    refine ⟨fun _ => rfl, rfl, rfl, rfl, fun finished hmem => ?_⟩
    rcases List.mem_append.mp hmem with hmem | hmem
    · exact hmem
    · obtain ⟨hfinal, -⟩ := Prod.mk.inj (List.mem_singleton.mp hmem)
      exact absurd hfinal.symm hn
  · cases hs

theorem same_setupRunFrom {is : List ℕ} :
    ∀ {q : DependencyJobQueue T}, (∀ n ∈ q.used_job_queue_node_array, n ≠ .final) →
      q.setupRunFrom is = some q' → Same q q' := by
  induction is with
  | nil =>
    intro q _ hs
    obtain rfl := Option.some.inj hs
    exact Same.refl q
  | cons i rest ih =>
    intro q hused hs
    unfold DependencyJobQueue.setupRunFrom at hs
    split at hs
    · cases hs
    · rename_i n hn
      split at hs
      · exact ih hused hs
      · obtain ⟨q₁, hinsert, hs⟩ := Option.bind_eq_some_iff.mp hs
        have hmem : n ∈ q.used_job_queue_node_array := by
          unfold pointerAt at hn
          split at hn
          · exact List.mem_of_getElem? hn
          · cases hn
        have hsame := same_queueInsert (hused n hmem) hinsert
        exact hsame.trans (ih (by rw [hsame.used]; exact hused) hs)

theorem same_setReadyToExit [DecidableEq T] (q : DependencyJobQueue T) :
    Same q q.setReadyToExit := by
  have hfold : ∀ (is : List ℕ) (q : DependencyJobQueue T),
      Same q (is.foldl DependencyJobQueue.unblock q) := by
    intro is
    induction is with
    | nil => exact Same.refl
    | cons i rest ih =>
      intro q
      apply Same.trans _ (ih _)
      unfold DependencyJobQueue.unblock
      split
      · exact Same.refl q
      · split
        · exact ⟨fun _ => rfl, rfl, rfl, rfl, fun _ h => h⟩
        · exact Same.refl q
  have hflag : Same q { q with is_ready_to_exit := true } :=
    ⟨fun _ => rfl, rfl, rfl, rfl, fun _ h => h⟩
  exact hflag.trans (hfold _ _)

theorem same_queueNextJobByCoreFrom [DecidableEq T] {is : List ℕ}
    (hs : q.queueNextJobByCoreFrom n is = some q') : Same q q' := by
  induction is with
  | nil =>
    obtain rfl := Option.some.inj hs
    exact Same.refl q
  | cons i rest ih =>
    unfold DependencyJobQueue.queueNextJobByCoreFrom at hs
    split at hs
    · cases hs
    · split at hs
      · exact ih hs
      · split at hs
        · obtain ⟨ring, -, rfl⟩ := Option.map_eq_some_iff.mp hs
          exact ⟨fun _ => rfl, rfl, rfl, rfl, fun _ h => h⟩
        · obtain rfl := Option.some.inj hs
          exact ⟨fun _ => rfl, rfl, rfl, rfl, fun _ h => h⟩

theorem same_scheduleFromQueue [DecidableEq T] {t : T} {r : DependencyJobQueue.Scheduled}
    (hs : q.scheduleFromQueue t = some (r, q')) : Same q q' := by
  unfold DependencyJobQueue.scheduleFromQueue at hs
  split at hs
  · obtain ⟨-, rfl⟩ := Prod.mk.inj (Option.some.inj hs)
    exact Same.refl q
  · rename_i next_node _ _
    have hstate : Same q (q.modify next_node fun x =>
        { x with multi_run_state := (q.node next_node).multi_run_state + 0xffff }) :=
      same_modify rfl fun _ => rfl
    dsimp only at hs
    split at hs
    · obtain ⟨-, rfl⟩ := Prod.mk.inj (Option.some.inj hs)
      exact hstate
    · obtain ⟨front, -, hs⟩ := Option.bind_eq_some_iff.mp hs
      apply hstate.trans
      split at hs
      · obtain ⟨-, rfl⟩ := Prod.mk.inj (Option.some.inj hs)
        exact ⟨fun _ => rfl, rfl, rfl, rfl, fun _ h => h⟩
      · obtain ⟨q₁, hqueue, heq⟩ := Option.map_eq_some_iff.mp hs
        obtain ⟨-, rfl⟩ := Prod.mk.inj heq
        have hsame := same_queueNextJobByCoreFrom hqueue
        exact ⟨hsame.dependent_list, hsame.parent_count, hsame.used, hsame.finished, hsame.ready⟩

theorem same_scheduleNextJob [DecidableEq T] {t : T} {r : DependencyJobQueue.Scheduled}
    (hs : q.scheduleNextJob t = some (r, q')) : Same q q' := by
  unfold DependencyJobQueue.scheduleNextJob at hs
  split at hs
  · dsimp only at hs
    split at hs
    all_goals
      obtain ⟨-, rfl⟩ := Prod.mk.inj (Option.some.inj hs)
      exact ⟨fun _ => rfl, rfl, rfl, rfl, fun _ h => h⟩
  · exact same_scheduleFromQueue hs

structure Visited (count : ℕ) (q q' : DependencyJobQueue T) : Prop where
  dependent_list : ∀ n, (q'.node n).dependent_list = (q.node n).dependent_list
  parent_count : (q'.node .final).parent_count =
    (q.node .final).parent_count - BitVec.ofNat 32 count
  used : q'.used_job_queue_node_array = q.used_job_queue_node_array
  finished : q'.finished = q.finished
  ready : ∀ finished, (Node.final, finished) ∈ q'.ready →
    (Node.final, finished) ∈ q.ready ∨ (finished = q.finished ∧
      ∃ i, 1 ≤ i ∧ i ≤ count ∧ (q.node .final).parent_count - BitVec.ofNat 32 i = 1)

theorem Same.visited (h : Same q q') : Visited 0 q q' where
  dependent_list := h.dependent_list
  parent_count := by
    rw [h.parent_count]
    exact (BitVec.sub_zero _).symm
  used := h.used
  finished := h.finished
  ready finished hmem := Or.inl (h.ready finished hmem)

theorem Visited.trans {count count' : ℕ} {q₁ q₂ q₃ : DependencyJobQueue T}
    (h : Visited count q₁ q₂) (h' : Visited count' q₂ q₃) : Visited (count + count') q₁ q₃ where
  dependent_list n := (h'.dependent_list n).trans (h.dependent_list n)
  parent_count := by
    rw [h'.parent_count, h.parent_count, BitVec.sub_sub, ← BitVec.ofNat_add]
  used := h'.used.trans h.used
  finished := h'.finished.trans h.finished
  ready finished hmem := by
    rcases h'.ready finished hmem with hmem | ⟨heq, i, hone, hle, hi⟩
    · rcases h.ready finished hmem with hmem | ⟨heq, i, hone, hle, hi⟩
      · exact Or.inl hmem
      · exact Or.inr ⟨heq, i, hone, by omega, hi⟩
    · right
      refine ⟨heq.trans h.finished, count + i, by omega, by omega, ?_⟩
      rw [← hi, h.parent_count, BitVec.sub_sub, ← BitVec.ofNat_add]

theorem visited_one {last_parent_count : BitVec 32}
    (hlast : last_parent_count = (q.node n).parent_count - 1) {q₁ : DependencyJobQueue T}
    (hs : q₁ = q.modify n (fun x => { x with parent_count := last_parent_count }) ∨
      (last_parent_count = 1 ∧ (q.modify n fun x =>
        { x with parent_count := last_parent_count }).queueInsert n = some q₁)) :
    Visited (if n = .final then 1 else 0) q q₁ := by
  by_cases hn : n = .final
  · subst hn
    have hmodified : Visited 1 q (q.modify .final fun x =>
        { x with parent_count := last_parent_count }) := by
      constructor
      · intro k
        by_cases hk : k = .final
        · subst hk
          rw [modify_self]
        · rw [modify_of_ne _ _ hk]
      · rw [modify_self]
        exact hlast
      · rfl
      · rfl
      · exact fun finished hmem => Or.inl hmem
    rw [if_pos rfl]
    rcases hs with rfl | ⟨hone, hs⟩
    · exact hmodified
    · unfold DependencyJobQueue.queueInsert at hs
      split at hs
      · obtain rfl := Option.some.inj hs
        refine ⟨hmodified.dependent_list, hmodified.parent_count, rfl, rfl, fun finished hmem => ?_⟩
        rcases List.mem_append.mp hmem with hmem | hmem
        · exact Or.inl hmem
        · obtain ⟨-, rfl⟩ := Prod.mk.inj (List.mem_singleton.mp hmem)
          exact Or.inr ⟨rfl, 1, le_rfl, le_rfl, hlast.symm.trans hone⟩
      · cases hs
  · rw [if_neg hn]
    have hmodified : Same q (q.modify n fun x => { x with parent_count := last_parent_count }) :=
      same_modify rfl fun heq => absurd heq hn
    rcases hs with rfl | ⟨-, hs⟩
    · exact hmodified.visited
    · exact (hmodified.trans (same_queueInsert hn hs)).visited

theorem visitDependents_visited {dependents : List Node} :
    ∀ {q : DependencyJobQueue T}, q.visitDependents dependents = some q' →
      Visited (dependents.count .final) q q' := by
  induction dependents with
  | nil =>
    intro q hs
    obtain rfl := Option.some.inj hs
    exact (Same.refl q).visited
  | cons dependent rest ih =>
    intro q hs
    have hcount : (dependent :: rest).count .final =
        (if dependent = .final then 1 else 0) + rest.count .final := by
      rw [List.count_cons, Nat.add_comm]
      congr 1
      by_cases h : dependent = .final
      · rw [if_pos h, h]
        rfl
      · rw [if_neg h, if_neg (by rw [beq_iff_eq]; exact h)]
    rw [hcount]
    unfold DependencyJobQueue.visitDependents at hs
    dsimp only at hs
    split at hs
    · exact (visited_one rfl (Or.inl rfl)).trans (ih hs)
    · rename_i hone
      obtain ⟨q₁, hinsert, hs⟩ := Option.bind_eq_some_iff.mp hs
      exact (visited_one rfl (Or.inr ⟨not_not.mp hone, hinsert⟩)).trans (ih hs)

structure Invariant (count : ℕ) (q : DependencyJobQueue T) : Prop where
  bound : count < 0x10000
  used : ∀ n ∈ q.used_job_queue_node_array, n ≠ .final
  links : ∀ i < count, (q.node (.job i)).dependent_list.count .final =
    if .job i ∈ q.finished then 0 else 1
  others : ∀ n, (∀ i < count, n ≠ .job i) → (q.node n).dependent_list.count .final = 0
  counts : .final ∉ q.finished →
    (q.node .final).parent_count = BitVec.ofNat 32 (unfinished count q.finished).card
  past : .final ∈ q.finished →
    0xffff0000 + (unfinished count q.finished).card ≤ (q.node .final).parent_count.toNat
  ready : ∀ finished, (Node.final, finished) ∈ q.ready → ∃ i < count, .job i ∉ finished

theorem Invariant.same {count : ℕ} (h : Invariant count q) (hs : Same q q') :
    Invariant count q' where
  bound := h.bound
  used := by
    rw [hs.used]
    exact h.used
  links i hi := by
    rw [hs.dependent_list, hs.finished]
    exact h.links i hi
  others n hn := by
    rw [hs.dependent_list]
    exact h.others n hn
  counts hn := by
    rw [hs.finished] at hn ⊢
    rw [hs.parent_count]
    exact h.counts hn
  past hn := by
    rw [hs.finished] at hn ⊢
    rw [hs.parent_count]
    exact h.past hn
  ready finished hmem := h.ready finished (hs.ready finished hmem)

/-- A job has run for the last time: its dependents are visited, and it keeps none of them. -/
structure Finished (n : Node) (q q' : DependencyJobQueue T) : Prop where
  dependent_list : ∀ k, (q'.node k).dependent_list =
    if k = n then [] else (q.node k).dependent_list
  parent_count : (q'.node .final).parent_count =
    if n = .final then 0xffffffff
    else (q.node .final).parent_count -
      BitVec.ofNat 32 ((q.node n).dependent_list.count .final)
  used : q'.used_job_queue_node_array = q.used_job_queue_node_array
  finished : q'.finished = q.finished ++ [n]
  ready : ∀ finished, (Node.final, finished) ∈ q'.ready →
    (Node.final, finished) ∈ q.ready ∨ (finished = q.finished ++ [n] ∧
      ∃ i, 1 ≤ i ∧ i ≤ (q.node n).dependent_list.count .final ∧
        (q.node .final).parent_count - BitVec.ofNat 32 i = 1)

theorem Finished.trans_same {q₁ q₂ q₃ : DependencyJobQueue T} (h : Finished n q₁ q₂)
    (h' : Same q₂ q₃) : Finished n q₁ q₃ where
  dependent_list k := (h'.dependent_list k).trans (h.dependent_list k)
  parent_count := h'.parent_count.trans h.parent_count
  used := h'.used.trans h.used
  finished := h'.finished.trans h.finished
  ready finished hmem := h.ready finished (h'.ready finished hmem)

theorem same_finishRun {last_run_state : BitVec 32}
    (hs : q.finishRun n = some (last_run_state, q')) : Same q q' := by
  unfold DependencyJobQueue.finishRun at hs
  obtain ⟨q₁, hforce, heq⟩ := Option.map_eq_some_iff.mp hs
  obtain ⟨-, rfl⟩ := Prod.mk.inj heq
  have hforced : Same q q₁ := by
    split at hforce
    · unfold DependencyJobQueue.forceRemoveForCompleteOnce at hforce
      have hstate : Same q (q.modify n fun x => { x with
          multi_run_state := (q.node n).multi_run_state &&& 0xffff0000 }) :=
        same_modify rfl fun _ => rfl
      dsimp only at hforce
      split at hforce
      · obtain rfl := Option.some.inj hforce
        exact hstate
      · split at hforce
        · obtain rfl := Option.some.inj hforce
          exact ⟨hstate.dependent_list, hstate.parent_count, rfl, rfl, fun _ h => h⟩
        · cases hforce
    · obtain rfl := Option.some.inj hforce
      exact Same.refl q
  apply hforced.trans
  exact same_modify rfl fun _ => rfl

theorem onJobFinish_cases [DecidableEq T] (hs : q.onJobFinish n = some q') :
    Same q q' ∨ Finished n q q' := by
  unfold DependencyJobQueue.onJobFinish at hs
  obtain ⟨⟨last_run_state, q₀⟩, hrun, hs⟩ := Option.bind_eq_some_iff.mp hs
  have hstate := same_finishRun hrun
  dsimp only at hs
  split at hs
  · left
    obtain rfl := Option.some.inj hs
    exact hstate
  · right
    obtain ⟨q₁, hvisit, rfl⟩ := Option.map_eq_some_iff.mp hs
    have hlist := hstate.dependent_list n
    have hvisited := visitDependents_visited hvisit
    dsimp only at hvisited
    rw [hlist] at hvisited
    have hfinished : Finished n q (q₁.modify n fun x =>
        { x with parent_count := 0xffffffff, dependent_list := [] }) := by
      constructor
      · intro k
        by_cases hk : k = n
        · subst hk
          rw [modify_self, if_pos rfl]
        · rw [modify_of_ne _ _ hk, if_neg hk, hvisited.dependent_list]
          exact hstate.dependent_list k
      · by_cases hn : n = .final
        · subst hn
          rw [modify_self, if_pos rfl]
        · rw [modify_of_ne _ _ (Ne.symm hn), if_neg hn, hvisited.parent_count]
          exact congrArg (· - _) hstate.parent_count
      · exact hvisited.used.trans hstate.used
      · rw [← hstate.finished]
        exact hvisited.finished
      · intro finished hmem
        obtain hmem | ⟨heq, i, hone, hle, hi⟩ := hvisited.ready finished hmem
        · exact Or.inl (hstate.ready finished hmem)
        · right
          refine ⟨?_, i, hone, hle, ?_⟩
          · rw [← hstate.finished]
            exact heq
          · rw [← hi]
            exact congrArg (· - _) hstate.parent_count.symm
    unfold DependencyJobQueue.clearDependents
    dsimp only
    split
    · exact hfinished
    · exact hfinished.trans_same (same_setReadyToExit _)

theorem Invariant.lets_go {count : ℕ} (h : Invariant count q) (n : Node) :
    ((q.node n).dependent_list.count .final = 1 ∧
      (unfinished count (q.finished ++ [n])).card + 1 = (unfinished count q.finished).card) ∨
    ((q.node n).dependent_list.count .final = 0 ∧
      (unfinished count (q.finished ++ [n])).card = (unfinished count q.finished).card) := by
  by_cases hfirst : ∃ i < count, n = .job i ∧ .job i ∉ q.finished
  · obtain ⟨i, hi, rfl, hnot⟩ := hfirst
    left
    refine ⟨?_, unfinished_append hi hnot⟩
    rw [h.links i hi, if_neg hnot]
  · right
    have hmem : ∀ i < count, n = .job i → .job i ∈ q.finished := by
      intro i hi hn
      by_contra hnot
      exact hfirst ⟨i, hi, hn, hnot⟩
    refine ⟨?_, by rw [unfinished_append_of hmem]⟩
    by_cases hjob : ∃ i < count, n = .job i
    · obtain ⟨i, hi, rfl⟩ := hjob
      rw [h.links i hi, if_pos (hmem i hi rfl)]
    · apply h.others
      exact fun i hi hn => hjob ⟨i, hi, hn⟩

theorem Invariant.onJobFinish [DecidableEq T] {count : ℕ} (h : Invariant count q)
    (hs : q.onJobFinish n = some q') : Invariant count q' := by
  obtain hsame | hfin := onJobFinish_cases hs
  · exact h.same hsame
  have hbound := h.bound
  have hle := unfinished_le count q.finished
  have hgo := h.lets_go n
  constructor
  case bound => exact h.bound
  case used =>
    rw [hfin.used]
    exact h.used
  case links =>
    intro i hi
    have hmem : Node.job i ∈ q.finished ++ [n] ↔ Node.job i ∈ q.finished ∨ Node.job i = n := by
      rw [List.mem_append, List.mem_singleton]
    rw [hfin.dependent_list, hfin.finished]
    by_cases hn : Node.job i = n
    · rw [if_pos hn, if_pos (hmem.mpr (Or.inr hn))]
      rfl
    · rw [if_neg hn, h.links i hi]
      apply if_congr _ rfl rfl
      exact (hmem.trans (or_iff_left hn)).symm
  case others =>
    intro k hk
    rw [hfin.dependent_list]
    split
    · rfl
    · exact h.others k hk
  case counts =>
    intro hnot
    rw [hfin.finished, List.mem_append, List.mem_singleton, not_or] at hnot
    rw [hfin.parent_count, if_neg (Ne.symm hnot.2), h.counts hnot.1, hfin.finished]
    obtain ⟨hcount, hcard⟩ | ⟨hcount, hcard⟩ := hgo
    · rw [hcount, ← hcard, BitVec.ofNat_add]
      exact BitVec.add_sub_cancel _ _
    · rw [hcount, hcard]
      exact BitVec.sub_zero _
  case past =>
    intro hmem
    rw [hfin.parent_count, hfin.finished]
    by_cases hn : n = .final
    · subst hn
      obtain ⟨-, hcard⟩ | ⟨-, hcard⟩ := hgo
      all_goals
        rw [if_pos rfl]
        change _ ≤ 0xffffffff
        omega
    · rw [hfin.finished, List.mem_append, List.mem_singleton] at hmem
      have hpast := h.past (hmem.resolve_right (Ne.symm hn))
      have hlt := (q.node .final).parent_count.isLt
      rw [if_neg hn]
      obtain ⟨hcount, hcard⟩ | ⟨hcount, hcard⟩ := hgo
      · rw [hcount, BitVec.toNat_sub]
        change _ ≤ (2 ^ 32 - 1 + _) % 2 ^ 32
        omega
      · rw [hcount, hcard]
        change _ ≤ ((q.node .final).parent_count - 0#32).toNat
        rw [BitVec.sub_zero]
        exact hpast
  case ready =>
    intro finished hmem
    obtain hmem | ⟨rfl, i, hone, hi, heq⟩ := hfin.ready finished hmem
    · exact h.ready finished hmem
    obtain ⟨hcount, hcard⟩ | ⟨hcount, -⟩ := hgo
    · have htwo : (q.node .final).parent_count = 2 := by
        obtain rfl : i = 1 := by omega
        rw [BitVec.sub_eq_iff_eq_add] at heq
        exact heq
      have hcard : 0 < (unfinished count (q.finished ++ [n])).card := by
        by_cases hfinal : .final ∈ q.finished
        · have hpast := h.past hfinal
          rw [htwo] at hpast
          change _ ≤ 2 at hpast
          omega
        · have hcounts := congrArg BitVec.toNat (h.counts hfinal)
          rw [htwo, BitVec.toNat_ofNat, Nat.mod_eq_of_lt (by omega)] at hcounts
          change 2 = _ at hcounts
          omega
      obtain ⟨j, hj⟩ := Finset.card_pos.mp hcard
      exact ⟨j, mem_unfinished.mp hj⟩
    · omega

structure Built (count : ℕ) (q : DependencyJobQueue T) : Prop where
  max_job_count : q.max_job_count < 0x10000
  le : count ≤ q.max_job_count
  used : ∀ n ∈ q.used_job_queue_node_array, n ≠ .final
  links : ∀ i < count, (q.node (.job i)).dependent_list.count .final = 1
  others : ∀ n, (∀ i < count, n ≠ .job i) → (q.node n).dependent_list.count .final = 0
  counts : (q.node .final).parent_count = BitVec.ofNat 32 count
  finished : q.finished = []
  ready : q.ready = []

theorem Built.invariant {count : ℕ} (h : Built count q) : Invariant count q where
  bound := Nat.lt_of_le_of_lt h.le h.max_job_count
  used := h.used
  links i hi := by
    rw [h.links i hi, h.finished]
    rfl
  others := h.others
  counts _ := by
    rw [h.counts, h.finished]
    unfold unfinished
    rw [Finset.filter_true_of_mem fun _ _ => List.not_mem_nil, Finset.card_range]
  past hmem := by
    rw [h.finished] at hmem
    exact absurd hmem List.not_mem_nil
  ready finished hmem := by
    rw [h.ready] at hmem
    exact absurd hmem List.not_mem_nil

theorem built_initialized (queue_info : DependencyJobQueueInfo) (threads : List T)
    (core_number : T → ℕ) :
    Built 0 (DependencyJobQueue.initialized queue_info threads core_number) where
  max_job_count := queue_info.max_job_count.isLt
  le := Nat.zero_le _
  used _ hn := absurd hn List.not_mem_nil
  links i hi := absurd hi (Nat.not_lt_zero i)
  others n _ := by
    cases n <;> rfl
  counts := rfl
  finished := rfl
  ready := rfl

structure Registered (parent dependent : Node) (q q' : DependencyJobQueue T) : Prop where
  max_job_count : q'.max_job_count = q.max_job_count
  used : q'.used_job_queue_node_array = q.used_job_queue_node_array
  dependent_list : ∀ n, (q'.node n).dependent_list =
    if n = parent then (q.node n).dependent_list ++ [dependent] else (q.node n).dependent_list
  parent_count : (q'.node .final).parent_count =
    (q.node .final).parent_count + if dependent = .final then 1 else 0
  finished : q'.finished = q.finished
  ready : q'.ready = q.ready

theorem registered {parent dependent : Node}
    (hs : q.registerDependency parent dependent = some q') : Registered parent dependent q q' := by
  unfold DependencyJobQueue.registerDependency at hs
  split at hs
  case isFalse => cases hs
  obtain rfl := Option.some.inj hs
  constructor
  · rfl
  · rfl
  · intro n
    by_cases hparent : n = parent
    · subst hparent
      rw [modify_self, if_pos rfl]
      by_cases hdependent : n = dependent
      · subst hdependent
        rw [modify_self]
      · rw [modify_of_ne _ _ hdependent]
    · rw [modify_of_ne _ _ hparent, if_neg hparent]
      by_cases hdependent : n = dependent
      · subst hdependent
        rw [modify_self]
      · rw [modify_of_ne _ _ hdependent]
  · have hsame : ∀ (q : DependencyJobQueue T) (list : JobQueueNode → List Node),
        ((q.modify parent fun x => { x with dependent_list := list x }).node .final).parent_count =
          (q.node .final).parent_count := by
      intro q list
      by_cases hparent : Node.final = parent
      · subst hparent
        rw [modify_self]
      · rw [modify_of_ne _ _ hparent]
    rw [hsame _ fun x => x.dependent_list ++ [dependent]]
    by_cases hdependent : dependent = .final
    · subst hdependent
      rw [modify_self, if_pos rfl]
    · rw [modify_of_ne _ _ (Ne.symm hdependent), if_neg hdependent]
      exact (BitVec.add_zero _).symm
  · rfl
  · rfl

theorem Built.addJobNode {index : ℕ} {graph_node : JobGraphNode} (h : Built index q)
    (hs : q.addJobNode index graph_node = some q') : Built (index + 1) q' := by
  unfold DependencyJobQueue.addJobNode at hs
  split at hs
  case isFalse => cases hs
  rename_i hlt
  obtain ⟨q₁, hregister, hs⟩ := Option.bind_eq_some_iff.mp hs
  split at hs
  case isFalse => cases hs
  obtain rfl := Option.some.inj hs
  have hreg := registered hregister
  have hinfo : Same q (q.modify (.job index) fun x => { x with
      core_number := graph_node.core_number
      priority := graph_node.priority
      multi_run_state :=
        (x.multi_run_state &&& 0xffff0000) ||| graph_node.multi_run_count.zeroExtend 32 }) :=
    same_modify rfl fun _ => rfl
  have hself : (q.node (.job index)).dependent_list.count .final = 0 := by
    apply h.others
    rintro i hi heq
    obtain rfl := Node.job.inj heq
    exact absurd hi (Nat.lt_irrefl _)
  constructor
  case max_job_count =>
    change q₁.max_job_count < 0x10000
    rw [hreg.max_job_count]
    exact h.max_job_count
  case le =>
    change index + 1 ≤ q₁.max_job_count
    rw [hreg.max_job_count]
    exact hlt
  case used =>
    intro n hn
    obtain hn | hn := List.mem_append.mp hn
    · rw [hreg.used] at hn
      exact h.used n hn
    · rw [List.mem_singleton.mp hn]
      exact Node.noConfusion
  case links =>
    intro i hi
    change (q₁.node (.job i)).dependent_list.count .final = 1
    rw [hreg.dependent_list, hinfo.dependent_list]
    by_cases heq : i = index
    · subst heq
      rw [if_pos rfl, List.count_append, hself]
      rfl
    · rw [if_neg fun hjob => heq (Node.job.inj hjob)]
      exact h.links i (by omega)
  case others =>
    intro n hn
    change (q₁.node n).dependent_list.count .final = 0
    rw [hreg.dependent_list, hinfo.dependent_list, if_neg (hn index (Nat.lt_succ_self index))]
    exact h.others n fun i hi => hn i (by omega)
  case counts =>
    change (q₁.node .final).parent_count = _
    rw [hreg.parent_count, hinfo.parent_count, h.counts, if_pos rfl, BitVec.ofNat_add]
    rfl
  case finished => exact hreg.finished.trans h.finished
  case ready => exact hreg.ready.trans h.ready

theorem Built.addJobNodes {graph_nodes : List JobGraphNode} :
    ∀ {index : ℕ} {q : DependencyJobQueue T}, Built index q →
      DependencyJobQueue.addJobNodes index graph_nodes q = some q' →
        Built (index + graph_nodes.length) q' := by
  induction graph_nodes with
  | nil =>
    intro index q h hs
    obtain rfl := Option.some.inj hs
    exact h
  | cons graph_node graph_nodes ih =>
    intro index q h hs
    obtain ⟨q₁, hadd, hs⟩ := Option.bind_eq_some_iff.mp hs
    have hbuilt := ih (h.addJobNode hadd) hs
    rw [List.length_cons, Nat.add_comm graph_nodes.length 1, ← Nat.add_assoc]
    exact hbuilt

theorem Built.addLinks {count base_register_id : ℕ} {links : List JobRegisterLink} :
    ∀ {q : DependencyJobQueue T}, Built count q →
      DependencyJobQueue.addLinks base_register_id links q = some q' → Built count q' := by
  induction links with
  | nil =>
    intro q h hs
    obtain rfl := Option.some.inj hs
    exact h
  | cons link links ih =>
    intro q h hs
    unfold DependencyJobQueue.addLinks at hs
    dsimp only at hs
    split at hs
    case isFalse => cases hs
    obtain ⟨q₁, hregister, hs⟩ := Option.bind_eq_some_iff.mp hs
    have hreg := registered hregister
    have hcount : ∀ n, (q₁.node n).dependent_list.count .final =
        (q.node n).dependent_list.count .final := by
      intro n
      rw [hreg.dependent_list]
      split
      · rw [List.count_append]
        rfl
      · rfl
    apply ih _ hs
    constructor
    case max_job_count =>
      rw [hreg.max_job_count]
      exact h.max_job_count
    case le =>
      rw [hreg.max_job_count]
      exact h.le
    case used =>
      rw [hreg.used]
      exact h.used
    case links => exact fun i hi => (hcount _).trans (h.links i hi)
    case others => exact fun n hn => (hcount n).trans (h.others n hn)
    case counts =>
      rw [hreg.parent_count, if_neg Node.noConfusion, h.counts]
      exact BitVec.add_zero _
    case finished => exact hreg.finished.trans h.finished
    case ready => exact hreg.ready.trans h.ready

theorem built_buildJobGraph {queue_info : DependencyJobQueueInfo} {threads : List T}
    {core_number : T → ℕ} {job_graph : DependencyJobGraph}
    (hs : (DependencyJobQueue.initialized queue_info threads core_number).buildJobGraph job_graph =
      some q) : Built job_graph.job_node_allocator.length q := by
  obtain ⟨q₁, hnodes, hlinks⟩ := Option.bind_eq_some_iff.mp hs
  have hbuilt := (built_initialized queue_info threads core_number).addJobNodes hnodes
  rw [Nat.zero_add] at hbuilt
  exact hbuilt.addLinks hlinks

end Awn.DependencyJob

/-!
The runs of a queue and the order in which its nodes become ready.
-/

namespace Awn.DependencyJob

inductive Place
  | seeking
  | running (n : Node)
  | ended

structure State (T : Type*) where
  queue : DependencyJobQueue T
  place : T → Place
  set_up : Bool

variable {T : Type*} [DecidableEq T]

/-- Where a thread goes with what `ScheduleNextJob` gave it: `Process` ends with a null pointer. -/
def Scheduled.place : DependencyJobQueue.Scheduled → Place
  | .job (some n) => .running n
  | .job none => .ended
  | _ => .seeking

inductive Step : State T → State T → Prop
  | setupRun {s : State T} {q : DependencyJobQueue T} :
      s.set_up = false → s.queue.setupRun = some q → Step s { s with queue := q, set_up := true }
  | scheduleNextJob {s : State T} {t : T} {r : DependencyJobQueue.Scheduled}
      {q : DependencyJobQueue T} :
      s.place t = .seeking → s.queue.is_ready_to_exit = false →
      s.queue.scheduleNextJob t = some (r, q) → r ≠ .requiresWait →
        Step s { s with queue := q, place := Function.update s.place t (Scheduled.place r) }
  | onJobFinish {s : State T} {t : T} {n : Node} {q : DependencyJobQueue T} :
      s.place t = .running n → s.queue.onJobFinish n = some q →
        Step s { s with queue := q, place := Function.update s.place t .seeking }
  | exit {s : State T} {t : T} :
      s.place t = .seeking → s.queue.is_ready_to_exit = true →
        Step s { s with place := Function.update s.place t .ended }

inductive Reachable (queue_info : DependencyJobQueueInfo) (job_graph : DependencyJobGraph)
    (threads : List T) (core_number : T → ℕ) : State T → Prop
  | start {q : DependencyJobQueue T} :
      (DependencyJobQueue.initialized queue_info threads core_number).buildJobGraph job_graph =
        some q →
      Reachable queue_info job_graph threads core_number ⟨q, fun _ => .seeking, false⟩
  | step {s s' : State T} :
      Reachable queue_info job_graph threads core_number s → Step s s' →
        Reachable queue_info job_graph threads core_number s'

def entries (q : DependencyJobQueue T) (n : Node) : List (List Node) :=
  (q.ready.filter fun entry => entry.1 = n).map Prod.snd

structure InOrder (job_graph : DependencyJobGraph) (q : DependencyJobQueue T) : Prop where
  jobs : ∀ i < job_graph.job_node_allocator.length, ∃ finished, entries q (.job i) = [finished] ∧
    ∀ link ∈ job_graph.register_link_allocator, link.dependent_register_id = i →
      .job link.parent_register_id ∈ finished
  final : ∃ finished, entries q .final = [finished] ∧
    ∀ i < job_graph.job_node_allocator.length, .job i ∈ finished

variable {queue_info : DependencyJobQueueInfo} {job_graph : DependencyJobGraph}
  {threads : List T} {core_number : T → ℕ} {s s' : State T}

theorem Step.invariant {count : ℕ} (h : Invariant count s.queue) (hs : Step s s') :
    Invariant count s'.queue := by
  cases hs with
  | setupRun _ hs => exact h.same (same_setupRunFrom h.used hs)
  | scheduleNextJob _ _ hs _ => exact h.same (same_scheduleNextJob hs)
  | onJobFinish _ hs => exact h.onJobFinish hs
  | exit _ _ => exact h

theorem Reachable.invariant (hr : Reachable queue_info job_graph threads core_number s) :
    Invariant job_graph.job_node_allocator.length s.queue := by
  induction hr with
  | start hs => exact (built_buildJobGraph hs).invariant
  | step _ hs ih => exact hs.invariant ih

omit [DecidableEq T] in
theorem mem_entries {q : DependencyJobQueue T} {n : Node} {finished : List Node} :
    finished ∈ entries q n ↔ (n, finished) ∈ q.ready := by
  unfold entries
  rw [List.mem_map]
  constructor
  · rintro ⟨⟨k, finished⟩, hfilter, rfl⟩
    obtain ⟨hmem, heq⟩ := List.mem_filter.mp hfilter
    obtain rfl : k = n := of_decide_eq_true heq
    exact hmem
  · intro hmem
    exact ⟨(n, finished), List.mem_filter.mpr ⟨hmem, decide_eq_true rfl⟩, rfl⟩

/-- No run, of whatever graph on however many threads, keeps the order. -/
theorem reachable_not_inOrder (hr : Reachable queue_info job_graph threads core_number s) :
    ¬InOrder job_graph s.queue := by
  intro horder
  obtain ⟨finished, hentries, hall⟩ := horder.final
  have hmem : finished ∈ entries s.queue .final := by
    rw [hentries]
    exact List.mem_singleton_self finished
  obtain ⟨i, hi, hnot⟩ := hr.invariant.ready finished (mem_entries.mp hmem)
  exact hnot (hall i hi)

section TwoJobs

def twoJobs : DependencyJobGraph where
  job_node_allocator :=
    [⟨cJobAnyCore, cJobNormalPriority, 1, false⟩, ⟨cJobAnyCore, cJobNormalPriority, 1, false⟩]
  register_link_allocator := []

def builtQueue : DependencyJobQueue Unit :=
  ((DependencyJobQueue.initialized ⟨2, 2⟩ [()] fun _ => 0).buildJobGraph twoJobs).get rfl

def setUpQueue : DependencyJobQueue Unit :=
  builtQueue.setupRun.get rfl

def scheduledQueue : DependencyJobQueue Unit :=
  ((setUpQueue.scheduleNextJob ()).get rfl).2

def finishedQueue : DependencyJobQueue Unit :=
  (scheduledQueue.onJobFinish (.job 0)).get rfl

theorem reachable_finishedQueue :
    ∃ place, Reachable ⟨2, 2⟩ twoJobs [()] (fun _ => 0) ⟨finishedQueue, place, true⟩ := by
  have hstart : Reachable ⟨2, 2⟩ twoJobs [()] (fun _ => 0)
      ⟨builtQueue, fun _ => .seeking, false⟩ := Reachable.start rfl
  have hsetup := hstart.step (Step.setupRun rfl (q := setUpQueue) rfl)
  have hschedule := hsetup.step (Step.scheduleNextJob (t := ()) (r := .job (some (.job 0)))
    (q := scheduledQueue) rfl rfl rfl (by decide))
  have hfinish := hschedule.step (Step.onJobFinish (t := ()) (n := .job 0) (q := finishedQueue)
    rfl rfl)
  exact ⟨_, hfinish⟩

theorem reachable_not_inOrder_twoJobs : ¬InOrder twoJobs finishedQueue := by
  obtain ⟨place, hr⟩ := reachable_finishedQueue
  exact reachable_not_inOrder hr

theorem twoJobs_final_early :
    ∃ s, Reachable ⟨2, 2⟩ twoJobs [()] (fun _ => 0) s ∧
      entries s.queue .final = [[.job 0]] ∧ entries s.queue (.job 1) = [] ∧
      .job 1 ∉ s.queue.finished ∧ ¬InOrder twoJobs s.queue := by
  obtain ⟨place, hr⟩ := reachable_finishedQueue
  have hfinal : entries finishedQueue .final = [[.job 0]] := by decide
  have hjob : entries finishedQueue (.job 1) = [] := by decide
  have hnot : .job 1 ∉ finishedQueue.finished := by decide
  refine ⟨_, hr, hfinal, hjob, hnot, fun horder => ?_⟩
  obtain ⟨finished, hentries, hall⟩ := horder.final
  obtain rfl := List.singleton_injective (hentries.symm.trans hfinal)
  exact absurd (hall 1 (by decide)) (by decide)

end TwoJobs

end Awn.DependencyJob
