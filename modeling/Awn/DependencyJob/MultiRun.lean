import Awn.DependencyJob.Inserted

/-!
The runs of one job. Its word counts the runs that are left in the low half and those that are going
on in the high half; it stands in the ready queue as long as a run is left.
-/

namespace Awn.DependencyJob.Threads

variable {T : Type*}

def Single (j : Node) (s : State T) : Event T → Prop
  | .setupRun => s.queue.used_job_queue_node_array[0]? = some j → (s.queue.node j).parent_count = 0 →
      entered s.queue j = 0 ∧ s.queue.used_job_queue_node_array.length ≤ 1
  | .visit _ n => entered s.queue j +
      hits (s.queue.node j).parent_count ((s.queue.node n).dependent_list.count j) ≤ 1
  | _ => True

def Own (j : Node) (s : State T) : Event T → Prop
  | .schedule t _ => ∀ rest, s.queue.job_priority_queue = j :: rest →
      (s.queue.node j).multi_run_state &&& 0xffff = 1 → Runs s.queue j t
  | _ => True

structure Counted (j : Node) (core_number count : ℕ) (es : List (Event T)) (s : State T) :
    Prop where
  core : (s.queue.node j).core_number = core_number
  once : (s.queue.node j).is_multi_run_complete_once = false
  slots : Apart j s.queue
  active : ∃ active : List T, active.Nodup ∧ (∀ t, t ∈ active ↔ s.place t = .running j) ∧
    handOuts es j = (finishers es j).length + active.length ∧
    (s.queue.node j).multi_run_state.toNat = active.length * 0x10000 + (count - handOuts es j)
  bound : handOuts es j ≤ count
  entered : Threads.entered s.queue j ≤ 1
  waiting : Threads.entered s.queue j = 0 → handOuts es j = 0
  queued : s.queue.job_priority_queue.count j =
    if Threads.entered s.queue j = 1 ∧ handOuts es j < count then 1 else 0
  visiting : ∀ t, s.place t = .visiting j →
    (finishers es j).length = count ∧ (finishers es j).getLast? = some t ∧ releases es j = 0
  released : (finishers es j).length = count → releases es j = 1 ∨ ∃ t, s.place t = .visiting j
  early : (finishers es j).length ≠ count → releases es j = 0
  visits : ∀ es₁ es₂ t, es = es₁ ++ .visit t j :: es₂ →
    handOuts es₁ j = count ∧ (finishers es₁ j).length = count ∧
      (finishers es₁ j).getLast? = some t

theorem low_toNat (x : BitVec 32) : (x &&& 0xffff).toNat = x.toNat % 0x10000 := by
  rw [BitVec.toNat_and]
  exact Nat.and_two_pow_sub_one_eq_mod x.toNat 16

theorem split_append {es es₁ es₂ : List (Event T)} {e f : Event T}
    (h : es ++ [e] = es₁ ++ f :: es₂) :
    (es₂ = [] ∧ es = es₁ ∧ e = f) ∨ ∃ es₃, es₂ = es₃ ++ [e] ∧ es = es₁ ++ f :: es₃ := by
  obtain rfl | ⟨es₃, g, rfl⟩ := List.eq_nil_or_concat es₂
  · left
    obtain ⟨hes, he⟩ := List.append_inj' h rfl
    exact ⟨rfl, hes, (List.cons.inj he).1⟩
  · right
    rw [List.concat_eq_append, ← List.cons_append, ← List.append_assoc] at h
    obtain ⟨hes, he⟩ := List.append_inj' h rfl
    refine ⟨es₃, ?_, hes⟩
    rw [List.concat_eq_append, (List.cons.inj he).1]

theorem handOuts_append (es : List (Event T)) (e : Event T) (j : Node) :
    handOuts (es ++ [e]) j = handOuts es j + if e.handsOut j then 1 else 0 := by
  unfold handOuts
  rw [List.countP_append, List.countP_singleton]

theorem releases_append (es : List (Event T)) (e : Event T) (j : Node) :
    releases (es ++ [e]) j = releases es j + if e.releases j then 1 else 0 := by
  unfold releases
  rw [List.countP_append, List.countP_singleton]

theorem finishers_append_none (es : List (Event T)) {e : Event T} {j : Node}
    (h : e.finisher j = none) : finishers (es ++ [e]) j = finishers es j := by
  unfold finishers
  rw [List.filterMap_append, List.filterMap_cons_none h, List.filterMap_nil, List.append_nil]

theorem finishers_append_some (es : List (Event T)) {e : Event T} {j : Node} {t : T}
    (h : e.finisher j = some t) : finishers (es ++ [e]) j = finishers es j ++ [t] := by
  unfold finishers
  rw [List.filterMap_append, List.filterMap_cons_some h, List.filterMap_nil]

section Step

variable {j : Node} {core_number count : ℕ} {es : List (Event T)} {s s' : State T} {e : Event T}

theorem Counted.other (h : Counted j core_number count es s) {k : ℕ} {q : DependencyJobQueue T}
    (hq : Inserted j k { s.queue with thread_control := s'.queue.thread_control } q)
    (hs' : s'.queue = q) (hk : Threads.entered s.queue j + k ≤ 1) (hpos : 0 < count)
    (hslots : Apart j s'.queue)
    (hrunning : ∀ t, s'.place t = .running j ↔ s.place t = .running j)
    (hvisiting : ∀ t, s'.place t = .visiting j ↔ s.place t = .visiting j)
    (hout : e.handsOut j = false) (hfinisher : e.finisher j = none)
    (hreleases : e.releases j = false) : Counted j core_number count (es ++ [e]) s' := by
  have hhand : handOuts (es ++ [e]) j = handOuts es j := by
    rw [handOuts_append, hout]
    rfl
  have hfinish := finishers_append_none es hfinisher
  have hrelease : releases (es ++ [e]) j = releases es j := by
    rw [releases_append, hreleases]
    rfl
  subst hs'
  have hentered : Threads.entered s'.queue j = Threads.entered s.queue j + k := hq.entered
  have hqueued : s'.queue.job_priority_queue.count j = s.queue.job_priority_queue.count j + k :=
    hq.queued
  constructor
  case core => exact hq.core_number.trans h.core
  case once => exact hq.is_complete_once.trans h.once
  case slots => exact hslots
  case active =>
    obtain ⟨active, hnodup, hmem, hcount, hstate⟩ := h.active
    refine ⟨active, hnodup, fun t => (hmem t).trans (hrunning t).symm, ?_, ?_⟩
    · rw [hhand, hfinish]
      exact hcount
    · rw [hhand, ← hstate]
      exact congrArg BitVec.toNat hq.multi_run_state
  case bound =>
    rw [hhand]
    exact h.bound
  case entered =>
    rw [hentered]
    exact hk
  case waiting =>
    intro hzero
    rw [hhand]
    exact h.waiting (by omega)
  case queued =>
    rw [hqueued, hentered, hhand, h.queued]
    have hle := h.entered
    have hwaiting := h.waiting
    by_cases hone : Threads.entered s.queue j = 1
    · have hzero : k = 0 := by omega
      rw [hzero]
      rfl
    · have hnone : Threads.entered s.queue j = 0 := by omega
      rw [if_neg fun hc => hone hc.1, hwaiting hnone, hnone]
      by_cases hk1 : k = 1
      · rw [hk1, if_pos ⟨rfl, hpos⟩]
      · rw [if_neg fun hc => hk1 (by omega)]
        omega
  case visiting =>
    intro t ht
    rw [hfinish, hrelease]
    exact h.visiting t ((hvisiting t).mp ht)
  case released =>
    intro hall
    rw [hfinish] at hall
    rw [hrelease]
    obtain hone | ⟨t, ht⟩ := h.released hall
    · exact Or.inl hone
    · exact Or.inr ⟨t, (hvisiting t).mpr ht⟩
  case early =>
    intro hne
    rw [hfinish] at hne
    rw [hrelease]
    exact h.early hne
  case visits =>
    intro es₁ es₂ t heq
    obtain ⟨-, -, he⟩ | ⟨es₃, -, hes⟩ := split_append heq
    · rw [he] at hreleases
      have hself : (Event.visit t j).releases j = true := decide_eq_true rfl
      rw [hself] at hreleases
      cases hreleases
    · exact h.visits es₁ es₃ t hes

theorem running_goto [DecidableEq T] {s : State T} {t u : T} {p p' : Place}
    (hold : s.place t ≠ p') (hnew : p ≠ p') :
    (s.goto t p).place u = p' ↔ s.place u = p' := by
  unfold State.goto
  dsimp only
  by_cases hu : u = t
  · subst hu
    rw [Function.update_self]
    exact ⟨fun h => absurd h hnew, fun h => absurd h hold⟩
  · rw [Function.update_of_ne hu]

theorem Counted.handOut [DecidableEq T] (h : Counted j core_number count es s)
    (hbound : count < 0x10000) {t : T} (hplace : s.place t = .seeking)
    {q : DependencyJobQueue T} (hword : (s.queue.node j).multi_run_state + 0xffff =
      (q.node j).multi_run_state)
    (hcore : (q.node j).core_number = (s.queue.node j).core_number)
    (honce : (q.node j).is_multi_run_complete_once = (s.queue.node j).is_multi_run_complete_once)
    (hslots : q.thread_control = s.queue.thread_control) (hready : q.ready = s.queue.ready)
    (hmem : 0 < s.queue.job_priority_queue.count j)
    (hqueued : q.job_priority_queue.count j + (if (s.queue.node j).multi_run_state &&& 0xffff = 1
      then 1 else 0) = s.queue.job_priority_queue.count j) :
    Counted j core_number count (es ++ [.schedule t (.job (some j))])
      ({ s with queue := q }.goto t (.running j)) := by
  obtain ⟨active, hnodup, hactive, hcount, hstate⟩ := h.active
  have hentered : Threads.entered q j = Threads.entered s.queue j := congrArg (List.countP _) hready
  have hinqueue : Threads.entered s.queue j = 1 ∧ handOuts es j < count := by
    have hq := h.queued
    split at hq
    · assumption
    · omega
  have hout : (Event.schedule t (.job (some j)) : Event T).handsOut j = true := decide_eq_true rfl
  have hhand : handOuts (es ++ [.schedule t (.job (some j))]) j = handOuts es j + 1 := by
    rw [handOuts_append, hout]
    rfl
  have hfinish : finishers (es ++ [.schedule t (.job (some j))]) j = finishers es j :=
    finishers_append_none es rfl
  have hrelease : releases (es ++ [.schedule t (.job (some j))]) j = releases es j := by
    rw [releases_append]
    rfl
  have hlow : (s.queue.node j).multi_run_state &&& 0xffff = 1 ↔ count - handOuts es j = 1 := by
    have hmod := low_toNat (s.queue.node j).multi_run_state
    rw [hstate] at hmod
    constructor
    · intro heq
      have hone := congrArg BitVec.toNat heq
      change _ = 1 at hone
      omega
    · intro heq
      apply BitVec.eq_of_toNat_eq
      change _ = 1
      omega
  have hvisiting : ∀ u, ({ s with queue := q }.goto t (.running j)).place u = .visiting j ↔
      s.place u = .visiting j := by
    intro u
    apply running_goto
    · change s.place t ≠ _
      rw [hplace]
      exact Place.noConfusion
    · exact Place.noConfusion
  constructor
  case core => exact hcore.trans h.core
  case once => exact honce.trans h.once
  case slots =>
    intro u
    have hu := h.slots u
    rw [← hslots] at hu
    exact hu
  case active =>
    have hnot : t ∉ active := by
      rw [hactive, hplace]
      exact Place.noConfusion
    refine ⟨t :: active, List.nodup_cons.mpr ⟨hnot, hnodup⟩, fun u => ?_, ?_, ?_⟩
    · unfold State.goto
      dsimp only
      by_cases hu : u = t
      · subst hu
        rw [Function.update_self]
        exact iff_of_true List.mem_cons_self rfl
      · rw [Function.update_of_ne hu, List.mem_cons, or_iff_right hu]
        exact hactive u
    · rw [hhand, hfinish, List.length_cons]
      omega
    · change (q.node j).multi_run_state.toNat = _
      have hlt := (s.queue.node j).multi_run_state.isLt
      rw [← hword, BitVec.toNat_add, hstate, hhand, List.length_cons]
      change (_ + 65535) % 2 ^ 32 = _
      omega
  case bound =>
    rw [hhand]
    omega
  case entered =>
    change Threads.entered q j ≤ 1
    rw [hentered]
    exact h.entered
  case waiting =>
    intro hzero
    change Threads.entered q j = 0 at hzero
    omega
  case queued =>
    have hq := h.queued
    rw [if_pos hinqueue] at hq
    rw [hhand]
    by_cases hlast : count - handOuts es j = 1
    · rw [if_pos (hlow.mpr hlast)] at hqueued
      have hnone : ¬(Threads.entered q j = 1 ∧ handOuts es j + 1 < count) := by omega
      apply Eq.trans _ (if_neg hnone).symm
      change q.job_priority_queue.count j = 0
      omega
    · rw [if_neg fun heq => hlast (hlow.mp heq)] at hqueued
      have hstill : Threads.entered q j = 1 ∧ handOuts es j + 1 < count := by omega
      apply Eq.trans _ (if_pos hstill).symm
      change q.job_priority_queue.count j = 1
      omega
  case visiting =>
    intro u hu
    rw [hfinish, hrelease]
    exact h.visiting u ((hvisiting u).mp hu)
  case released =>
    intro hall
    rw [hfinish] at hall
    rw [hrelease]
    obtain hone | ⟨u, hu⟩ := h.released hall
    · exact Or.inl hone
    · exact Or.inr ⟨u, (hvisiting u).mpr hu⟩
  case early =>
    intro hne
    rw [hfinish] at hne
    rw [hrelease]
    exact h.early hne
  case visits =>
    intro es₁ es₂ u heq
    obtain ⟨-, -, he⟩ | ⟨es₃, -, hes⟩ := split_append heq
    · cases he
    · exact h.visits es₁ es₃ u hes

theorem Counted.finish [DecidableEq T] (h : Counted j core_number count es s)
    (hbound : count < 0x10000) {t : T} (hplace : s.place t = .running j)
    {last_run_state : BitVec 32} {q : DependencyJobQueue T}
    (hs : s.queue.finishRun j = some (last_run_state, q)) :
    Counted j core_number count (es ++ [.finish t j])
      ({ s with queue := afterFinish q j last_run_state }.goto t
        (if last_run_state = 0x10000 then .visiting j else .seeking)) := by
  obtain ⟨active, hnodup, hactive, hcount, hstate⟩ := h.active
  have ht : t ∈ active := (hactive t).mpr hplace
  have hpos : 1 ≤ active.length := List.length_pos_of_mem ht
  have hle := h.bound
  unfold DependencyJobQueue.finishRun at hs
  dsimp only at hs
  rw [if_neg (by rw [h.once]; exact fun hc => Bool.false_ne_true hc.1)] at hs
  obtain ⟨hlast, hq⟩ := Prod.mk.inj (Option.some.inj hs)
  have hword : last_run_state.toNat = active.length * 0x10000 + (count - handOuts es j) := by
    rw [← hlast]
    exact hstate
  have hrelease_iff : last_run_state = 0x10000 ↔ (finishers es j).length + 1 = count := by
    constructor
    · intro heq
      rw [heq] at hword
      change 65536 = _ at hword
      omega
    · intro heq
      apply BitVec.eq_of_toNat_eq
      rw [hword]
      change _ = 65536
      have hone : active.length = 1 := by omega
      omega
  have hnode : ((afterFinish q j last_run_state).node j) =
      { s.queue.node j with multi_run_state := last_run_state - 0x10000 } := by
    rw [← hq, ← hlast]
    unfold afterFinish
    split
    all_goals exact Function.update_self _ _ _
  have hqueue : (afterFinish q j last_run_state).job_priority_queue = s.queue.job_priority_queue ∧
      (afterFinish q j last_run_state).ready = s.queue.ready ∧
      (afterFinish q j last_run_state).thread_control = s.queue.thread_control := by
    rw [← hq]
    unfold afterFinish
    split
    all_goals exact ⟨rfl, rfl, rfl⟩
  have hentered : Threads.entered (afterFinish q j last_run_state) j =
      Threads.entered s.queue j := congrArg (List.countP _) hqueue.2.1
  have hfinisher : (Event.finish t j : Event T).finisher j = some t := if_pos rfl
  have hhand : handOuts (es ++ [.finish t j]) j = handOuts es j := by
    rw [handOuts_append]
    rfl
  have hfinish : finishers (es ++ [.finish t j]) j = finishers es j ++ [t] :=
    finishers_append_some es hfinisher
  have hlength : (finishers (es ++ [.finish t j]) j).length = (finishers es j).length + 1 := by
    rw [hfinish, List.length_append, List.length_singleton]
  have hrelease : releases (es ++ [.finish t j]) j = releases es j := by
    rw [releases_append]
    rfl
  have hearly : releases es j = 0 := h.early (by omega)
  have hnone : ∀ u, s.place u ≠ .visiting j := by
    intro u hu
    have hall := (h.visiting u hu).1
    omega
  have hself : ({ s with queue := afterFinish q j last_run_state }.goto t
      (if last_run_state = 0x10000 then .visiting j else .seeking)).place t =
      if last_run_state = 0x10000 then .visiting j else .seeking := Function.update_self _ _ _
  have hothers : ∀ u, u ≠ t → ({ s with queue := afterFinish q j last_run_state }.goto t
      (if last_run_state = 0x10000 then .visiting j else .seeking)).place u = s.place u :=
    fun u hu => Function.update_of_ne hu _ _
  have hnot_running : (if last_run_state = 0x10000 then Place.visiting j else .seeking) ≠
      .running j := by
    split
    all_goals exact Place.noConfusion
  constructor
  case core => exact (congrArg JobQueueNode.core_number hnode).trans h.core
  case once => exact (congrArg JobQueueNode.is_multi_run_complete_once hnode).trans h.once
  case slots =>
    intro u
    have hu := h.slots u
    rw [← hqueue.2.2] at hu
    exact hu
  case active =>
    refine ⟨active.erase t, hnodup.erase t, fun u => ?_, ?_, ?_⟩
    · rw [hnodup.mem_erase_iff]
      by_cases hu : u = t
      · subst hu
        rw [hself]
        exact iff_of_false (fun hc => hc.1 rfl) hnot_running
      · rw [hothers u hu, and_iff_right hu]
        exact hactive u
    · rw [hhand, hlength, List.length_erase_of_mem ht]
      omega
    · have hword' : (last_run_state - 0x10000).toNat =
          (active.erase t).length * 0x10000 + (count - handOuts es j) := by
        rw [BitVec.toNat_sub, hword, List.length_erase_of_mem ht]
        change (2 ^ 32 - 65536 + _) % 2 ^ 32 = _
        omega
      rw [hhand, ← hword']
      exact congrArg (fun x => x.multi_run_state.toNat) hnode
  case bound =>
    rw [hhand]
    exact h.bound
  case entered =>
    change Threads.entered (afterFinish q j last_run_state) j ≤ 1
    rw [hentered]
    exact h.entered
  case waiting =>
    intro hzero
    rw [hhand]
    exact h.waiting (hentered.symm.trans hzero)
  case queued =>
    change (afterFinish q j last_run_state).job_priority_queue.count j = _
    rw [hqueue.1, hhand, h.queued]
    exact if_congr (and_congr_left fun _ => by rw [← hentered]; rfl) rfl rfl
  case visiting =>
    intro u hu
    by_cases hut : u = t
    · subst hut
      rw [hself] at hu
      split at hu
      · rename_i hlast
        rw [hlength, hrelease, hfinish, List.getLast?_concat]
        exact ⟨hrelease_iff.mp hlast, rfl, hearly⟩
      · cases hu
    · rw [hothers u hut] at hu
      exact absurd hu (hnone u)
  case released =>
    intro hall
    rw [hlength] at hall
    right
    refine ⟨t, ?_⟩
    rw [hself, if_pos (hrelease_iff.mpr hall)]
  case early =>
    intro _
    rw [hrelease]
    exact hearly
  case visits =>
    intro es₁ es₂ u heq
    obtain ⟨-, -, he⟩ | ⟨es₃, -, hes⟩ := split_append heq
    · cases he
    · exact h.visits es₁ es₃ u hes

theorem Counted.visit [DecidableEq T] (h : Counted j core_number count es s) (hpos : 0 < count)
    {t : T} (hplace : s.place t = .visiting j) {k : ℕ} {q : DependencyJobQueue T}
    (hq : Inserted j k s.queue q) (hk : Threads.entered s.queue j + k ≤ 1) :
    Counted j core_number count (es ++ [.visit t j])
      ({ s with queue := q }.goto t (.clearing j)) := by
  obtain ⟨hall, hlast, hnone⟩ := h.visiting t hplace
  obtain ⟨active, hnodup, hactive, hcount, hstate⟩ := h.active
  have hbound := h.bound
  have hempty : active = [] := List.length_eq_zero_iff.mp (by omega)
  have hhanded : handOuts es j = count := by omega
  have hentered : Threads.entered s.queue j = 1 := by
    have hle := h.entered
    have hwaiting := h.waiting
    omega
  have hzero : k = 0 := by omega
  subst hempty hzero
  have hentered' : Threads.entered q j = 1 := hq.entered.trans hentered
  have hqueued := h.queued
  rw [if_neg fun hc => absurd hc.2 (by omega)] at hqueued
  have hhand : handOuts (es ++ [.visit t j]) j = handOuts es j := by
    rw [handOuts_append]
    rfl
  have hfinish : finishers (es ++ [.visit t j]) j = finishers es j := finishers_append_none es rfl
  have hreleases : (Event.visit t j : Event T).releases j = true := decide_eq_true rfl
  have hrelease : releases (es ++ [.visit t j]) j = 1 := by
    rw [releases_append, hreleases, hnone]
    rfl
  have hothers : ∀ u, u ≠ t → ({ s with queue := q }.goto t (.clearing j)).place u = s.place u :=
    fun u hu => Function.update_of_ne hu _ _
  have hself : ({ s with queue := q }.goto t (.clearing j)).place t = .clearing j :=
    Function.update_self _ _ _
  constructor
  case core => exact hq.core_number.trans h.core
  case once => exact hq.is_complete_once.trans h.once
  case slots =>
    intro u
    have hu := h.slots u
    rw [← hq.thread_control] at hu
    exact hu
  case active =>
    refine ⟨[], hnodup, fun u => ?_, ?_, ?_⟩
    · by_cases hu : u = t
      · subst hu
        rw [hself]
        exact iff_of_false List.not_mem_nil Place.noConfusion
      · rw [hothers u hu]
        exact hactive u
    · rw [hhand, hfinish]
      exact hcount
    · rw [hhand, ← hstate]
      exact congrArg BitVec.toNat hq.multi_run_state
  case bound =>
    rw [hhand]
    exact hbound
  case entered => exact Nat.le_of_eq hentered'
  case waiting =>
    intro hc
    change Threads.entered q j = 0 at hc
    omega
  case queued =>
    rw [hhand, if_neg fun hc => absurd hc.2 (by omega)]
    exact hq.queued.trans hqueued
  case visiting =>
    intro u hu
    by_cases hut : u = t
    · subst hut
      rw [hself] at hu
      cases hu
    · rw [hothers u hut] at hu
      have hlast' := (h.visiting u hu).2.1
      rw [hlast] at hlast'
      exact absurd (Option.some.inj hlast').symm hut
  case released => exact fun _ => Or.inl hrelease
  case early =>
    intro hne
    rw [hfinish] at hne
    exact absurd hall hne
  case visits =>
    intro es₁ es₂ u heq
    obtain ⟨-, rfl, he⟩ | ⟨es₃, -, hes⟩ := split_append heq
    · obtain ⟨rfl, -⟩ := Event.visit.inj he
      exact ⟨hhanded, hall, hlast⟩
    · exact h.visits es₁ es₃ u hes

theorem Counted.same [DecidableEq T] (h : Counted j core_number count es s) (hpos : 0 < count)
    (hnode : s'.queue.node = s.queue.node)
    (hqueue : s'.queue.job_priority_queue = s.queue.job_priority_queue)
    (hready : s'.queue.ready = s.queue.ready) (hslots : Apart j s'.queue)
    (hrunning : ∀ t, s'.place t = .running j ↔ s.place t = .running j)
    (hvisiting : ∀ t, s'.place t = .visiting j ↔ s.place t = .visiting j)
    (hout : e.handsOut j = false) (hfinisher : e.finisher j = none)
    (hreleases : e.releases j = false) : Counted j core_number count (es ++ [e]) s' := by
  have hq : Inserted j 0 { s.queue with thread_control := s'.queue.thread_control } s'.queue := by
    constructor
    case core_number => exact congrArg JobQueueNode.core_number (congrFun hnode j)
    case is_complete_once =>
      exact congrArg JobQueueNode.is_multi_run_complete_once (congrFun hnode j)
    case multi_run_state => exact congrArg JobQueueNode.multi_run_state (congrFun hnode j)
    case queued => exact congrArg (List.count j) hqueue
    case entered => exact congrArg (List.countP _) hready
    case thread_control => rfl
  exact h.other hq rfl h.entered hpos hslots hrunning hvisiting hout hfinisher hreleases

theorem Counted.schedule [DecidableEq T] (h : Counted j core_number count es s) (hpos : 0 < count)
    (hbound : count < 0x10000) {t : T} {r : DependencyJobQueue.Scheduled}
    {q : DependencyJobQueue T} (hplace : s.place t = .seeking)
    (hs : s.queue.scheduleFromQueue t = some (r, q)) (hown : Own j s (.schedule t r)) :
    Counted j core_number count (es ++ [.schedule t r])
      ({ s with queue := q }.goto t (Scheduled.place r)) := by
  have hgoto : ∀ {p p' : Place}, p' ≠ .seeking → p ≠ p' →
      ∀ u, ({ s with queue := q }.goto t p).place u = p' ↔ s.place u = p' := by
    intro p p' hold hnew u
    apply running_goto
    · change s.place t ≠ p'
      rw [hplace]
      exact hold.symm
    · exact hnew
  obtain ⟨-, rfl, rfl⟩ | ⟨n, rest, hqueue, htaken⟩ := scheduleFromQueue_cases hs
  · refine h.same hpos rfl rfl rfl h.slots ?_ ?_ ?_ ?_ ?_
    · exact hgoto Place.noConfusion Place.noConfusion
    · exact hgoto Place.noConfusion Place.noConfusion
    all_goals rfl
  · by_cases hn : n = j
    · subst hn
      have hmem : 0 < s.queue.job_priority_queue.count n := by
        rw [hqueue, List.count_cons_self]
        exact Nat.succ_pos _
      have honce : ((takeRun s.queue n).node n).is_multi_run_complete_once =
          (s.queue.node n).is_multi_run_complete_once :=
        Inserted.modify_node s.queue JobQueueNode.is_multi_run_complete_once fun _ => rfl
      cases htaken with
      | more hlow =>
        refine h.handOut hbound hplace (takeRun_multi_run_state s.queue n).symm
          (takeRun_core_number s.queue n n) honce rfl rfl hmem ?_
        rw [if_neg hlow]
        rfl
      | last hlow hperm _ =>
        refine h.handOut hbound hplace (takeRun_multi_run_state s.queue n).symm
          (takeRun_core_number s.queue n n) honce rfl rfl hmem ?_
        rw [if_pos hlow, hqueue, List.count_cons_self, hperm.count_eq]
      | aside hlow _ hruns _ => exact absurd (hown rest hqueue hlow) hruns
    · have hmodify : Inserted j 0 s.queue (takeRun s.queue n) :=
        Inserted.modify s.queue (fun heq => absurd heq hn) (fun heq => absurd heq hn)
          fun heq => absurd heq hn
      have hcount : ∀ {entries : List Node}, entries.Perm rest →
          Inserted j 0 s.queue { takeRun s.queue n with job_priority_queue := entries } := by
        intro entries hperm
        refine ⟨hmodify.core_number, hmodify.is_complete_once, hmodify.multi_run_state, ?_, rfl,
          rfl⟩
        change entries.count j = _
        rw [hperm.count_eq, hqueue, List.count_cons_of_ne hn]
        rfl
      have hrun : Place.running n ≠ .running j := fun heq => hn (Place.running.inj heq)
      have hhand : (Event.schedule t (.job (some n)) : Event T).handsOut j = false :=
        decide_eq_false hn
      cases htaken with
      | more _ =>
        refine h.other hmodify rfl h.entered hpos h.slots ?_ ?_ ?_ ?_ ?_
        · exact hgoto Place.noConfusion hrun
        · exact hgoto Place.noConfusion Place.noConfusion
        · exact hhand
        all_goals rfl
      | last _ hperm _ =>
        refine h.other (hcount hperm) rfl h.entered hpos h.slots ?_ ?_ ?_ ?_ ?_
        · exact hgoto Place.noConfusion hrun
        · exact hgoto Place.noConfusion Place.noConfusion
        · exact hhand
        all_goals rfl
      | aside _ hperm _ hnext =>
        obtain ⟨hslots, hother⟩ := queueNextJobByCoreFrom_other hn
          (q := { takeRun s.queue n with job_priority_queue := _ }) h.slots hnext
        have htaken := hcount hperm
        have hq : Inserted j 0 { s.queue with thread_control := q.thread_control } q := by
          constructor
          case core_number => exact hother.core_number.trans htaken.core_number
          case is_complete_once => exact hother.is_complete_once.trans htaken.is_complete_once
          case multi_run_state => exact hother.multi_run_state.trans htaken.multi_run_state
          case queued => exact hother.queued.trans htaken.queued
          case entered => exact hother.entered.trans htaken.entered
          case thread_control => rfl
        refine h.other hq rfl h.entered hpos hslots ?_ ?_ ?_ ?_ ?_
        · exact hgoto Place.noConfusion Place.noConfusion
        · exact hgoto Place.noConfusion Place.noConfusion
        all_goals rfl

theorem Counted.step [DecidableEq T] (h : Counted j core_number count es s) (hpos : 0 < count)
    (hbound : count < 0x10000) (hs : Step s e s') (hsingle : Single j s e) (hown : Own j s e) :
    Counted j core_number count (es ++ [e]) s' := by
  have hgoto : ∀ {q : DependencyJobQueue T} {t : T} {p p' p'' : Place}, s.place t = p →
      p ≠ p'' → p' ≠ p'' →
      ∀ u, ({ s with queue := q }.goto t p').place u = p'' ↔ s.place u = p'' := by
    intro q t p p' p'' hplace hold hnew u
    apply running_goto
    · change s.place t ≠ p''
      rw [hplace]
      exact hold
    · exact hnew
  cases hs with
  | @setupRun q hset hrun =>
    have hinserted : Inserted j _ s.queue q :=
      Inserted.setupRunFrom hrun fun i hi => List.mem_range.mp hi
    have hk : Threads.entered s.queue j + (if s.queue.used_job_queue_node_array[0]? = some j ∧
        (s.queue.node j).parent_count = 0
        then (List.range s.queue.used_job_queue_node_array.length).length else 0) ≤ 1 := by
      split
      · rename_i hfirst
        obtain ⟨hzero, hone⟩ := hsingle hfirst.1 hfirst.2
        rw [hzero, List.length_range, Nat.zero_add]
        exact hone
      · exact h.entered
    have hslots : Apart j q := by
      intro u
      rw [hinserted.thread_control]
      exact h.slots u
    exact h.other hinserted.own_slots rfl hk hpos hslots (fun _ => Iff.rfl) (fun _ => Iff.rfl) rfl rfl rfl
  | @refill t n hplace hnext =>
    refine h.same hpos rfl rfl rfl (h.slots.setNextJobFromLocalRing t) ?_ ?_ ?_ ?_ ?_
    · exact hgoto hplace Place.noConfusion Place.noConfusion
    · exact hgoto hplace Place.noConfusion Place.noConfusion
    all_goals rfl
  | @read t n hplace hnext =>
    have hn : n ≠ j := by
      rintro rfl
      exact (h.slots t).1 hnext
    refine h.same hpos rfl rfl rfl h.slots ?_ ?_ ?_ ?_ ?_
    · exact hgoto hplace Place.noConfusion fun heq => hn (Place.running.inj heq)
    · exact hgoto hplace Place.noConfusion Place.noConfusion
    · exact decide_eq_false hn
    all_goals rfl
  | @readNull t hplace hnext =>
    refine h.same hpos rfl rfl rfl h.slots ?_ ?_ ?_ ?_ ?_
    · exact hgoto hplace Place.noConfusion Place.noConfusion
    · exact hgoto hplace Place.noConfusion Place.noConfusion
    all_goals rfl
  | @schedule t r q hplace hschedule => exact h.schedule hpos hbound hplace hschedule hown
  | @block t hplace hnext =>
    exact h.same hpos rfl rfl rfl (h.slots.setNextJob t NextJob.noConfusion) (fun _ => Iff.rfl)
      (fun _ => Iff.rfl) rfl rfl rfl
  | @waitRefill t hplace =>
    exact h.same hpos rfl rfl rfl (h.slots.setNextJobFromLocalRing t) (fun _ => Iff.rfl)
      (fun _ => Iff.rfl) rfl rfl rfl
  | @unblock t hnext =>
    exact h.same hpos rfl rfl rfl (h.slots.setNextJob t NextJob.noConfusion) (fun _ => Iff.rfl)
      (fun _ => Iff.rfl) rfl rfl rfl
  | @finish t n last_run_state q hplace hfinish =>
    by_cases hn : n = j
    · subst hn
      exact h.finish hbound hplace hfinish
    · have hfinished := finishRun_other hn hfinish
      have hafter : Inserted j 0 s.queue (afterFinish q n last_run_state) := by
        unfold afterFinish
        split
        · exact ⟨hfinished.core_number, hfinished.is_complete_once, hfinished.multi_run_state,
            hfinished.queued, hfinished.entered, hfinished.thread_control⟩
        · exact hfinished
      have hslots : Apart j (afterFinish q n last_run_state) := by
        intro u
        rw [hafter.thread_control]
        exact h.slots u
      have hrun : Place.running n ≠ .running j := fun heq => hn (Place.running.inj heq)
      refine h.other hafter.own_slots rfl h.entered hpos hslots ?_ ?_ ?_ ?_ ?_
      · apply hgoto hplace hrun
        split
        all_goals exact Place.noConfusion
      · apply hgoto hplace Place.noConfusion
        split
        · exact fun heq => hn (Place.visiting.inj heq)
        · exact Place.noConfusion
      · rfl
      · exact if_neg hn
      · rfl
  | @visit t n q hplace hvisit =>
    have hinserted : Inserted j _ s.queue q := Inserted.visitDependents hvisit
    by_cases hn : n = j
    · subst hn
      exact h.visit hpos hplace hinserted hsingle
    · have hslots : Apart j q := by
        intro u
        rw [hinserted.thread_control]
        exact h.slots u
      refine h.other hinserted.own_slots rfl hsingle hpos hslots ?_ ?_ ?_ ?_ ?_
      · exact hgoto hplace Place.noConfusion Place.noConfusion
      · exact hgoto hplace (fun heq => hn (Place.visiting.inj heq)) Place.noConfusion
      · rfl
      · rfl
      · exact decide_eq_false hn
  | @clear t n hplace =>
    have hmodify : Inserted j 0 s.queue (s.queue.modify n fun x =>
        { x with parent_count := 0xffffffff, dependent_list := [] }) :=
      Inserted.modify s.queue (fun _ => rfl) (fun _ => rfl) fun _ => rfl
    have hcleared : Apart j (s.queue.clearDependents n) ∧ Inserted j 0 { s.queue with
        thread_control := (s.queue.clearDependents n).thread_control }
        (s.queue.clearDependents n) := by
      unfold DependencyJobQueue.clearDependents
      dsimp only
      split
      · exact ⟨h.slots, hmodify⟩
      · refine ⟨Apart.setReadyToExit h.slots, ?_⟩
        have hexit := inserted_setReadyToExit j (s.queue.modify n fun x =>
          { x with parent_count := 0xffffffff, dependent_list := [] })
        constructor
        case core_number => exact hexit.core_number.trans hmodify.core_number
        case is_complete_once => exact hexit.is_complete_once.trans hmodify.is_complete_once
        case multi_run_state => exact hexit.multi_run_state.trans hmodify.multi_run_state
        case queued => exact hexit.queued.trans hmodify.queued
        case entered => exact hexit.entered.trans hmodify.entered
        case thread_control => rfl
    refine h.other hcleared.2 rfl h.entered hpos hcleared.1 ?_ ?_ ?_ ?_ ?_
    · exact hgoto hplace Place.noConfusion Place.noConfusion
    · exact hgoto hplace Place.noConfusion Place.noConfusion
    all_goals rfl
  | @exit t hplace hexit =>
    refine h.same hpos rfl rfl rfl h.slots ?_ ?_ ?_ ?_ ?_
    · exact hgoto hplace Place.noConfusion Place.noConfusion
    · exact hgoto hplace Place.noConfusion Place.noConfusion
    all_goals rfl

end Step

end Awn.DependencyJob.Threads
