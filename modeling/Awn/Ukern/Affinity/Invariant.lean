import Awn.Ukern.Affinity.Steps

namespace Awn.Ukern.Affinity

variable {F : Type*} [DecidableEq F]

structure Invariant (s : State F) (rings : ℕ → List F) : Prop where
  core_count : 1 ≤ s.core_count ∧ s.core_count ≤ 30
  core_mask : ∀ core, core < 64 → s.core_mask.getLsbD core = decide (core ≤ s.core_count)
  masks : ∀ f, s.registered f = true → ValidMask s.core_count (s.fiber f).core_mask
  allocated : ∀ f, s.registered f = true → s.allocated f = true
  queue : ∀ f ∈ s.thread_queue, s.registered f = true
  holds : ∀ core, (s.scheduler_local_ring_table core).Holds cMaxThreadCount (rings core)
  rings : ∀ core, ∀ f ∈ rings core, s.registered f = true ∧
    (s.fiber f).core_mask.getLsbD core = true
  running : ∀ core f, s.running core = some f → s.registered f = true

variable {s s' : State F} {rings : ℕ → List F} {f : F} {g : Fiber → Fiber}

namespace State

theorem modify_self (s : State F) (f : F) (g : Fiber → Fiber) :
    (s.modify f g).fiber f = g (s.fiber f) :=
  Function.update_self _ _ _

theorem modify_of_ne (s : State F) {f k : F} (g : Fiber → Fiber) (h : k ≠ f) :
    (s.modify f g).fiber k = s.fiber k :=
  Function.update_of_ne h _ _

omit [DecidableEq F] in
theorem queueInsert_perm (hs : s.queueInsert f = some s') :
    ∃ queue, s' = { s with thread_queue := queue } ∧ queue.Perm (f :: s.thread_queue) ∧
      s.thread_queue.length < cMaxThreadCount := by
  unfold queueInsert at hs
  split at hs
  · rename_i hroom
    obtain rfl := Option.some.inj hs
    exact ⟨_, rfl, PriorityQueue.insert_perm _ _ _, hroom⟩
  · cases hs

theorem queueRemove_perm (hs : s.queueRemove f = some s') :
    ∃ queue, s' = { s with thread_queue := queue } ∧ s.thread_queue.Perm (f :: queue) := by
  unfold queueRemove at hs
  split at hs
  · rename_i hlt
    obtain rfl := Option.some.inj hs
    have hperm := PriorityQueue.remove_perm (fun f => (s.fiber f).priority) hlt
    rw [List.getElem_idxOf hlt] at hperm
    exact ⟨_, rfl, hperm⟩
  · cases hs

theorem setPriorityImpl_cases {fiber_local : Option F} {priority : ℤ} {r : ThreadResult}
    (hs : s.setPriorityImpl fiber_local priority = some (r, s')) :
    s' = s ∨ ∃ f, fiber_local = some f ∧ ¬(-2 ≤ priority ∧ priority ≤ 2) ∧
      (s.fiber f).priority ≠ priority ∧
      (s.modify f fun x => { x with priority := priority }).addToSchedulerUnsafe f = some s' := by
  unfold setPriorityImpl at hs
  split at hs
  · exact Or.inl (Prod.mk.inj (Option.some.inj hs)).2.symm
  · rename_i hrange
    cases fiber_local with
    | none => exact Or.inl (Prod.mk.inj (Option.some.inj hs)).2.symm
    | some f =>
      dsimp only at hs
      split at hs
      · exact Or.inl (Prod.mk.inj (Option.some.inj hs)).2.symm
      · rename_i hother
        obtain ⟨s₁, hadd, heq⟩ := Option.map_eq_some_iff.mp hs
        obtain ⟨-, rfl⟩ := Prod.mk.inj heq
        exact Or.inr ⟨f, rfl, hrange, hother, hadd⟩

theorem setCoreMaskImpl_cases {fiber_local : Option F} {core_mask : BitVec 64} {r : ThreadResult}
    (hs : s.setCoreMaskImpl fiber_local core_mask = some (r, s')) :
    s' = s ∨ ∃ f, fiber_local = some f ∧ core_mask &&& ~~~s.core_mask = 0 ∧
      (s.fiber f).core_mask ≠ core_mask ∧
      (s.modify f fun x => { x with core_mask := core_mask }).addToSchedulerUnsafe f = some s' := by
  unfold setCoreMaskImpl at hs
  split at hs
  · exact Or.inl (Prod.mk.inj (Option.some.inj hs)).2.symm
  · rename_i hcheck
    cases fiber_local with
    | none => exact Or.inl (Prod.mk.inj (Option.some.inj hs)).2.symm
    | some f =>
      dsimp only at hs
      split at hs
      · exact Or.inl (Prod.mk.inj (Option.some.inj hs)).2.symm
      · rename_i hother
        obtain ⟨s₁, hadd, heq⟩ := Option.map_eq_some_iff.mp hs
        obtain ⟨-, rfl⟩ := Prod.mk.inj heq
        exact Or.inr ⟨f, rfl, not_not.mp hcheck, hother, hadd⟩

theorem setActivityImpl_cases {fiber_local : Option F} {activity_level : ActivityLevel}
    {r : ThreadResult} (hs : s.setActivityImpl fiber_local activity_level = some (r, s')) :
    s' = s ∨ ∃ f, fiber_local = some f ∧ (s.fiber f).activity_level ≠ activity_level ∧
      (s.modify f fun x => { x with activity_level := activity_level }).addToSchedulerUnsafe f =
        some s' := by
  cases fiber_local with
  | none => exact Or.inl (Prod.mk.inj (Option.some.inj hs)).2.symm
  | some f =>
    unfold setActivityImpl at hs
    dsimp only at hs
    split at hs
    · exact Or.inl (Prod.mk.inj (Option.some.inj hs)).2.symm
    · rename_i hother
      obtain ⟨s₁, hadd, heq⟩ := Option.map_eq_some_iff.mp hs
      obtain ⟨-, rfl⟩ := Prod.mk.inj heq
      exact Or.inr ⟨f, rfl, hother, hadd⟩

theorem createThreadImpl_cases {slot : Option F} {reserved : Bool}
    {thread_func stack_size : BitVec 64} {priority : ℤ} {core_id : BitVec 32} {r : ThreadResult}
    (hs : s.createThreadImpl slot reserved thread_func stack_size priority core_id =
      some (r, s')) :
    s' = s ∨ ∃ f, slot = some f ∧
      (if core_id = cDefaultCoreId then some true
        else (shiftInt 1 core_id.toNat).map fun bit => decide (bit &&& s.core_mask ≠ 0)) =
          some true ∧
      (s' = { s with allocated := Function.update s.allocated f true }.modify f (fun _ => { }) ∨
        s' = { s with
          allocated := Function.update s.allocated f true
          registered := Function.update s.registered f true }.modify f fun _ =>
            { priority := priority + cWindowsToUKernPriorityOffset
              core_mask := (if core_id = cDefaultCoreId then cDefaultCoreIdMask
                else (1 : BitVec 32) <<< core_id.toNat).zeroExtend 64
              fiber_state := .Suspended
              activity_level := .Suspended }) := by
  unfold createThreadImpl at hs
  split at hs
  · exact Or.inl (Prod.mk.inj (Option.some.inj hs)).2.symm
  split at hs
  · exact Or.inl (Prod.mk.inj (Option.some.inj hs)).2.symm
  split at hs
  · exact Or.inl (Prod.mk.inj (Option.some.inj hs)).2.symm
  · obtain ⟨valid, hvalid, hs⟩ := Option.map_eq_some_iff.mp hs
    cases valid with
    | false => exact Or.inl (Prod.mk.inj hs).2.symm
    | true =>
      cases slot with
      | none => exact Or.inl (Prod.mk.inj hs).2.symm
      | some f =>
        cases reserved with
        | false => exact Or.inr ⟨f, rfl, hvalid, Or.inl (Prod.mk.inj hs).2.symm⟩
        | true => exact Or.inr ⟨f, rfl, hvalid, Or.inr (Prod.mk.inj hs).2.symm⟩

omit [DecidableEq F] in
theorem setRing_holds
    (h : ∀ core, (s.scheduler_local_ring_table core).Holds cMaxThreadCount (rings core))
    {core : ℕ} {ring' : RingBuffer F} {xs : List F} (hring : ring'.Holds cMaxThreadCount xs) :
    ∀ other, ((s.setRing core ring').scheduler_local_ring_table other).Holds cMaxThreadCount
      (Function.update rings core xs other) := by
  intro other
  unfold setRing
  dsimp only
  by_cases hother : other = core
  · subst hother
    rw [Function.update_self, Function.update_self]
    exact hring
  · rw [Function.update_of_ne hother, Function.update_of_ne hother]
    exact h other

def leftRings (s : State F) (f : F) (rings : ℕ → List F) : ℕ → List F :=
  if (s.fiber f).fiber_state = .ScheduledLocal then
    Function.update rings (s.fiber f).current_core ((rings (s.fiber f).current_core).erase f)
  else rings

theorem leave_eq
    (h : ∀ core, (s.scheduler_local_ring_table core).Holds cMaxThreadCount (rings core))
    (hoffset : (s.fiber f).fiber_state = .ScheduledLocal →
      (s.scheduler_local_ring_table (s.fiber f).current_core).m_offset = 0)
    (hs : s.leave f = some s') :
    ∃ queue table runnable, s' = { s with
        thread_queue := queue
        scheduler_local_ring_table := table
        runnable_fibers := runnable } ∧
      (∀ k ∈ queue, k ∈ s.thread_queue) ∧
      ∀ core, (table core).Holds cMaxThreadCount (s.leftRings f rings core) := by
  unfold leave at hs
  unfold leftRings
  split at hs
  · rename_i hlocal
    rw [if_pos hlocal]
    unfold ringRemove at hs
    split at hs
    · obtain ⟨ring', hring, rfl⟩ := Option.map_eq_some_iff.mp hs
      have hholds := (h _).remove (hoffset hlocal) hring
      exact ⟨_, _, _, rfl, fun _ hk => hk, setRing_holds h hholds⟩
    · cases hs
  · rename_i hlocal
    rw [if_neg hlocal]
    split at hs
    · obtain ⟨queue, rfl, hperm⟩ := queueRemove_perm hs
      exact ⟨_, _, _, rfl, fun k hk => hperm.mem_iff.mpr (List.mem_cons_of_mem _ hk), h⟩
    · obtain rfl := Option.some.inj hs
      exact ⟨_, _, _, rfl, fun _ hk => hk, h⟩

theorem mem_leftRings {core : ℕ} {k : F} (hk : k ∈ s.leftRings f rings core) :
    k ∈ rings core ∧ ¬(k = f ∧ (s.fiber f).fiber_state = .ScheduledLocal ∧
      core = (s.fiber f).current_core ∧ (rings core).count f = 1) := by
  unfold leftRings at hk
  split at hk
  · by_cases hcore : core = (s.fiber f).current_core
    · subst hcore
      rw [Function.update_self] at hk
      refine ⟨List.mem_of_mem_erase hk, ?_⟩
      rintro ⟨rfl, -, -, hcount⟩
      have hpos := List.count_pos_iff.mpr hk
      rw [List.count_erase_self, hcount] at hpos
      exact absurd hpos (Nat.lt_irrefl 0)
    · rw [Function.update_of_ne hcore] at hk
      exact ⟨hk, fun hleft => hcore hleft.2.2.1⟩
  · rename_i hlocal
    exact ⟨hk, fun hleft => hlocal hleft.2.1⟩

end State

namespace Invariant

theorem masks_modify (h : Invariant s rings) (hvalid : s.registered f = true →
      ValidMask s.core_count (g (s.fiber f)).core_mask) (k : F) (hk : s.registered k = true) :
    ValidMask s.core_count ((s.modify f g).fiber k).core_mask := by
  by_cases hkf : k = f
  · subst hkf
    rw [State.modify_self]
    exact hvalid hk
  · rw [State.modify_of_ne _ _ hkf]
    exact h.masks k hk

theorem modify (h : Invariant s rings) (hvalid : s.registered f = true →
      ValidMask s.core_count (g (s.fiber f)).core_mask)
    (hrings : ∀ core, f ∈ rings core → (g (s.fiber f)).core_mask.getLsbD core = true) :
    Invariant (s.modify f g) rings where
  core_count := h.core_count
  core_mask := h.core_mask
  masks := masks_modify h hvalid
  allocated := h.allocated
  queue := h.queue
  holds := h.holds
  rings core k hk := by
    refine ⟨(h.rings core k hk).1, ?_⟩
    by_cases hkf : k = f
    · subst hkf
      rw [State.modify_self]
      exact hrings core hk
    · rw [State.modify_of_ne _ _ hkf]
      exact (h.rings core k hk).2
  running := h.running

theorem modify_state (h : Invariant s rings)
    (hmask : (g (s.fiber f)).core_mask = (s.fiber f).core_mask) :
    Invariant (s.modify f g) rings := by
  apply h.modify
  · rw [hmask]
    exact h.masks f
  · intro core hcore
    rw [hmask]
    exact (h.rings core f hcore).2

omit [DecidableEq F] in
theorem stands (h : Invariant s rings) {queue : List F} {table : ℕ → RingBuffer F}
    {runnable : BitVec 32} {rings' : ℕ → List F}
    (hqueue : ∀ k ∈ queue, s.registered k = true)
    (hholds : ∀ core, (table core).Holds cMaxThreadCount (rings' core))
    (hrings : ∀ core, ∀ k ∈ rings' core, s.registered k = true ∧
      (s.fiber k).core_mask.getLsbD core = true) :
    Invariant { s with
      thread_queue := queue
      scheduler_local_ring_table := table
      runnable_fibers := runnable } rings' where
  core_count := h.core_count
  core_mask := h.core_mask
  masks := h.masks
  allocated := h.allocated
  queue := hqueue
  holds := hholds
  rings := hrings
  running := h.running

theorem insertAgain (h : Invariant s rings) (hf : s.registered f = true)
    (hcurrent : (g (s.fiber f)).current_core = (s.fiber f).current_core)
    (hvalid : ValidMask s.core_count (g (s.fiber f)).core_mask)
    (hremovable : Removable s (g (s.fiber f)))
    (hrings : ∀ core, f ∈ rings core → (g (s.fiber f)).core_mask.getLsbD core = true ∨
      ((g (s.fiber f)).fiber_state = .ScheduledLocal ∧
        (g (s.fiber f)).activity_level ≠ .Suspended ∧
        core = (s.fiber f).current_core ∧ (rings core).count f = 1))
    (hs : (s.modify f g).addToSchedulerUnsafe f = some s') :
    ∃ rings', Invariant s' rings' := by
  have hself := s.modify_self f g
  have hkeep : ((g (s.fiber f)).fiber_state = .Waiting ∨
      (g (s.fiber f)).activity_level = .Suspended) → Invariant (s.modify f g) rings := by
    intro hor
    apply h.modify fun _ => hvalid
    intro core hcore
    rcases hrings core hcore with hset | ⟨hlocal, hactive, -⟩
    · exact hset
    · rcases hor with hwaiting | hsuspended
      · rw [hlocal] at hwaiting
        cases hwaiting
      · exact absurd hsuspended hactive
  unfold State.addToSchedulerUnsafe at hs
  rw [hself] at hs
  split at hs
  · rename_i hwaiting
    obtain rfl := Option.some.inj hs
    exact ⟨rings, hkeep (Or.inl hwaiting)⟩
  split at hs
  · rename_i hsuspended
    obtain rfl := Option.some.inj hs
    exact ⟨rings, (hkeep (Or.inr hsuspended)).modify_state rfl⟩
  · rename_i hactive
    obtain ⟨s₁, hleave, hs⟩ := Option.bind_eq_some_iff.mp hs
    obtain ⟨s₂, hinsert, hs⟩ := Option.bind_eq_some_iff.mp hs
    obtain rfl := Option.some.inj hs
    have hoffset : ((s.modify f g).fiber f).fiber_state = .ScheduledLocal →
        ((s.modify f g).scheduler_local_ring_table
          ((s.modify f g).fiber f).current_core).m_offset = 0 := by
      rw [hself]
      exact fun hlocal => hremovable hlocal hactive
    have hholds₀ : ∀ core, ((s.modify f g).scheduler_local_ring_table core).Holds cMaxThreadCount
        (rings core) := h.holds
    obtain ⟨queue, table, runnable, rfl, hleft, hholds⟩ := State.leave_eq hholds₀ hoffset hleave
    obtain ⟨queue', rfl, hqueue, -⟩ := State.queueInsert_perm hinsert
    refine ⟨(s.modify f g).leftRings f rings, Invariant.modify_state ?_ rfl⟩
    constructor
    · exact h.core_count
    · exact h.core_mask
    · exact masks_modify h fun _ => hvalid
    · exact h.allocated
    · intro k hk
      rcases List.mem_cons.mp (hqueue.mem_iff.mp hk) with rfl | hk
      · exact hf
      · exact h.queue k (hleft k hk)
    · exact hholds
    · intro core k hk
      obtain ⟨hold, hnot⟩ := State.mem_leftRings hk
      refine ⟨(h.rings core k hold).1, ?_⟩
      change ((s.modify f g).fiber k).core_mask.getLsbD core = true
      by_cases hkf : k = f
      · subst hkf
        rw [hself] at hnot ⊢
        rcases hrings core hold with hset | ⟨hlocal, -, hcore, hcount⟩
        · exact hset
        · rw [hcurrent] at hnot
          exact absurd ⟨rfl, hlocal, hcore, hcount⟩ hnot
      · rw [State.modify_of_ne _ _ hkf]
        exact (h.rings core k hold).2
    · exact h.running

end Invariant

end Awn.Ukern.Affinity
