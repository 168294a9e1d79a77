import Awn.LinkedOnce
import Awn.Ukern.Affinity.Run

/-! Which ready container links a fiber, and how many fibers are linked. -/

namespace Awn.Ukern.Affinity

inductive Container
  | queue
  | ring (core : ℕ)
  deriving DecidableEq

def containers : List Container := .queue :: (List.range cMaxCoreCount).map .ring

def Fiber.container (x : Fiber) : Option Container :=
  match x.fiber_state with
  | .Scheduled => some .queue
  | .ScheduledLocal => some (.ring x.current_core)
  | _ => none

namespace Fiber

variable {x : Fiber} {c : Container}

theorem container_some (h : x.container = some c) :
    x.fiber_state = .Scheduled ∨ x.fiber_state = .ScheduledLocal := by
  unfold container at h
  split at h
  · exact Or.inl (by assumption)
  · exact Or.inr (by assumption)
  · cases h

theorem container_of_state
    (h : x.fiber_state = .Scheduled ∨ x.fiber_state = .ScheduledLocal) :
    ∃ c, x.container = some c := by
  unfold container
  rcases h with h | h
  · exact ⟨.queue, by rw [h]⟩
  · exact ⟨.ring x.current_core, by rw [h]⟩

end Fiber

variable {F : Type*}

section Statement

variable (s : State F)

def entries : Container → List F
  | .queue => s.thread_queue
  | .ring core => ring s core

def readyEntries : List F := allEntries containers (entries s)

structure ReadyOnce : Prop where
  nodup : ∀ c, (entries s c).Nodup
  unique : ∀ f c d, f ∈ entries s c → f ∈ entries s d → c = d
  linked : ∀ f, f ∈ readyEntries s ↔
    (s.fiber f).fiber_state = .Scheduled ∨ (s.fiber f).fiber_state = .ScheduledLocal
  unlinked : ∀ f, (s.fiber f).fiber_state = .Running ∨ (s.fiber f).fiber_state = .Waiting ∨
    (s.fiber f).fiber_state = .Suspended → ∀ c, f ∉ entries s c
  runnable : s.runnable_fibers.toNat = (readyEntries s).length

end Statement

section Conditions

variable [DecidableEq F] (s : State F)

def TakesOut (f : F) : Prop :=
  (s.fiber f).fiber_state = .ScheduledLocal → ∀ slot,
    (s.scheduler_local_ring_table (s.fiber f).current_core).findIndex cMaxThreadCount f
      (s.scheduler_local_ring_table (s.fiber f).current_core).m_count 0 = some slot →
    (s.scheduler_local_ring_table (s.fiber f).current_core).MovesFrom cMaxThreadCount slot

def ReadyMet : Event F → Prop
  | .createThread slot _ _ _ _ _ => ∀ f, slot = some f → f ∉ readyEntries s
  | .setPriority fiber_local priority =>
    ¬(-2 ≤ priority ∧ priority ≤ 2) → ∀ f, fiber_local = some f →
      (s.fiber f).priority ≠ priority → TakesOut s f
  | .setCoreMask fiber_local core_mask =>
    core_mask &&& ~~~s.core_mask = 0 → ∀ f, fiber_local = some f →
      (s.fiber f).core_mask ≠ core_mask → TakesOut s f
  | .setActivity fiber_local activity_level =>
    activity_level = .Suspended → ∀ f, fiber_local = some f → f ∉ readyEntries s
  | .wait core | .exit core => ∀ f, s.running core = some f → f ∉ readyEntries s
  | .endWait f | .suspend f => f ∉ readyEntries s
  | .enter => ∀ f, s.running 0 = some f → TakesOut s f
  | .schedule _ | .handlePrevious _ => True

end Conditions

def State.container (s : State F) (f : F) : Option Container := (s.fiber f).container

structure Standing (s : State F) (place : F → Option Container) (links : Container → List F) :
    Prop where
  queue : s.thread_queue = links .queue
  holds : ∀ core,
    (s.scheduler_local_ring_table core).Holds cMaxThreadCount (links (.ring core))
  once : LinkedOnce links place
  exist : ∀ f c, place f = some c → c ∈ containers
  active : ∀ f c, place f = some c → (s.fiber f).activity_level ≠ .Suspended
  room : s.thread_queue.length ≤ cMaxThreadCount

structure Ready (s : State F) (links : Container → List F) : Prop where
  standing : Standing s s.container links
  runnable : s.runnable_fibers = BitVec.ofNat 32 (allEntries containers links).length

variable [DecidableEq F]

structure Left (s : State F) (f : F) (links : Container → List F) : Prop where
  standing : Standing s (Function.update s.container f none) links
  active : (s.fiber f).activity_level ≠ .Suspended
  runnable : s.runnable_fibers = BitVec.ofNat 32 ((allEntries containers links).length + 1)

variable {s s' : State F} {links : Container → List F} {place : F → Option Container} {f : F}
  {g : Fiber → Fiber} {core : ℕ}

theorem containers_nodup : containers.Nodup := by
  apply List.nodup_cons.mpr
  constructor
  · intro hmem
    obtain ⟨core, -, hcore⟩ := List.mem_map.mp hmem
    cases hcore
  · exact List.nodup_range.map fun _ _ heq => Container.ring.inj heq

theorem ring_mem_containers (hcore : core < cMaxCoreCount) : .ring core ∈ containers :=
  List.mem_cons_of_mem _ (List.mem_map_of_mem (List.mem_range.mpr hcore))

theorem container_modify (s : State F) (f : F) (g : Fiber → Fiber) :
    (s.modify f g).container = Function.update s.container f (g (s.fiber f)).container := by
  funext k
  unfold State.container
  by_cases hk : k = f
  · rw [hk, State.modify_self, Function.update_self]
  · rw [State.modify_of_ne _ _ hk, Function.update_of_ne hk]

theorem rankCores_lt {used_count : ℕ → ℕ} {turns : ℕ} {core_mask : BitVec 64} {r r' : Rank}
    (h : rankCores used_count turns core_mask r = some r') (hr : r.found_core < cMaxCoreCount) :
    r'.found_core < cMaxCoreCount := by
  induction turns generalizing core_mask r with
  | zero =>
    obtain rfl := Option.some.inj h
    exact hr
  | succ turns ih =>
    unfold rankCores at h
    dsimp only at h
    split at h
    · cases h
    · rename_i hcore
      obtain ⟨shifted, -, h⟩ := Option.bind_eq_some_iff.mp h
      apply ih h
      split
      · exact Nat.not_le.mp hcore
      · exact hr

theorem rank_lt {used_count : ℕ → ℕ} {core_mask : BitVec 64} {found_core : ℕ}
    (h : rank used_count core_mask = some found_core) : found_core < cMaxCoreCount := by
  obtain ⟨r, hr, hring⟩ := Option.bind_eq_some_iff.mp h
  obtain ⟨_, -, rfl⟩ := Option.map_eq_some_iff.mp hring
  exact rankCores_lt hr (by decide)

theorem of_update_none {k : F} {c : Container}
    (hk : Function.update place f none k = some c) : place k = some c := by
  by_cases hkf : k = f
  · rw [hkf, Function.update_self] at hk
    cases hk
  · rw [Function.update_of_ne hkf] at hk
    exact hk

omit [DecidableEq F] in
theorem setRing_holds_update
    (h : ∀ core, (s.scheduler_local_ring_table core).Holds cMaxThreadCount (links (.ring core)))
    {ring' : RingBuffer F} {xs : List F} (hring : ring'.Holds cMaxThreadCount xs) (other : ℕ) :
    ((s.setRing core ring').scheduler_local_ring_table other).Holds cMaxThreadCount
      (Function.update links (.ring core) xs (.ring other)) := by
  have heq : Function.update links (.ring core) xs (.ring other) =
      Function.update (fun core => links (.ring core)) core xs other :=
    congrFun (Function.update_comp_eq_of_injective links
      (fun _ _ heq => Container.ring.inj heq) core xs) other
  rw [heq]
  exact State.setRing_holds h hring other

namespace Standing

theorem modify (h : Standing s place links)
    (hactive : ∀ c, place f = some c → (g (s.fiber f)).activity_level ≠ .Suspended) :
    Standing (s.modify f g) place links where
  queue := h.queue
  holds := h.holds
  once := h.once
  exist := h.exist
  active k c hk := by
    by_cases hkf : k = f
    · subst hkf
      rw [State.modify_self]
      exact hactive c hk
    · rw [State.modify_of_ne _ _ hkf]
      exact h.active k c hk
  room := h.room

theorem take (h : Standing s place links) {c : Container} {xs : List F}
    (hperm : (links c).Perm (f :: xs)) (hfiber : s'.fiber = s.fiber)
    (hqueue : s'.thread_queue = Function.update links c xs .queue)
    (hholds : ∀ core, (s'.scheduler_local_ring_table core).Holds cMaxThreadCount
      (Function.update links c xs (.ring core)))
    (hroom : s'.thread_queue.length ≤ cMaxThreadCount) :
    Standing s' (Function.update place f none) (Function.update links c xs) where
  queue := hqueue
  holds := hholds
  once := h.once.take hperm
  exist k d hk := h.exist k d (of_update_none hk)
  active k d hk := by
    rw [hfiber]
    exact h.active k d (of_update_none hk)
  room := hroom

theorem put (h : Standing s (Function.update place f none) links) {c : Container} {xs : List F}
    (hc : c ∈ containers) (hactive : (s.fiber f).activity_level ≠ .Suspended)
    (hperm : xs.Perm (f :: links c)) (hfiber : s'.fiber = s.fiber)
    (hqueue : s'.thread_queue = Function.update links c xs .queue)
    (hholds : ∀ core, (s'.scheduler_local_ring_table core).Holds cMaxThreadCount
      (Function.update links c xs (.ring core)))
    (hroom : s'.thread_queue.length ≤ cMaxThreadCount) :
    Standing s' (Function.update place f (some c)) (Function.update links c xs) where
  queue := hqueue
  holds := hholds
  once := by
    have honce := h.once.put (Function.update_self _ _ _) hperm
    rw [Function.update_idem] at honce
    exact honce
  exist k d hk := by
    by_cases hkf : k = f
    · rw [hkf, Function.update_self] at hk
      rw [← Option.some.inj hk]
      exact hc
    · rw [Function.update_of_ne hkf] at hk
      apply h.exist k d
      rw [Function.update_of_ne hkf]
      exact hk
  active k d hk := by
    rw [hfiber]
    by_cases hkf : k = f
    · rw [hkf]
      exact hactive
    · rw [Function.update_of_ne hkf] at hk
      apply h.active k d
      rw [Function.update_of_ne hkf]
      exact hk
  room := hroom

end Standing

namespace Left

theorem queueInsert (h : Left s f links) {s₁ : State F} (hs : s.queueInsert f = some s₁) :
    ∃ links', Ready (s₁.modify f fun x => { x with fiber_state := .Scheduled }) links' := by
  obtain ⟨queue, rfl, hperm, hroom⟩ := State.queueInsert_perm hs
  have hlist : .queue ∈ containers := List.mem_cons_self
  have hlinks := hperm
  rw [h.standing.queue] at hlinks
  refine ⟨Function.update links .queue queue, ?_, ?_⟩
  · rw [container_modify]
    apply Standing.modify _ fun _ _ => h.active
    apply h.standing.put hlist h.active hlinks
    · rfl
    · rw [Function.update_self]
    · intro other
      rw [Function.update_of_ne (by nofun)]
      exact h.standing.holds other
    · dsimp only
      rw [hperm.length_eq]
      exact hroom
  · rw [length_allEntries_put containers_nodup hlist hlinks]
    exact h.runnable

theorem moveToRing (h : Left s f links) (hs : s.moveToRing f = some s') :
    ∃ links', Ready s' links' := by
  obtain ⟨found_core, hrank, hs⟩ := Option.bind_eq_some_iff.mp hs
  obtain ⟨ring', hring, rfl⟩ := Option.map_eq_some_iff.mp hs
  have hlist := ring_mem_containers (rank_lt hrank)
  have hperm : (links (.ring found_core) ++ [f]).Perm (f :: links (.ring found_core)) :=
    List.perm_append_singleton f _
  have hmodified : Standing (s.modify f fun x =>
      { x with fiber_state := .ScheduledLocal, current_core := found_core })
      (Function.update s.container f none) links := h.standing.modify fun _ _ => h.active
  refine ⟨Function.update links (.ring found_core) (links (.ring found_core) ++ [f]), ?_, ?_⟩
  · have hcontainer : (s.modify f fun x =>
        { x with fiber_state := .ScheduledLocal, current_core := found_core }).container =
        Function.update s.container f (some (.ring found_core)) := container_modify s f _
    change Standing ((s.modify f _).setRing _ _) (s.modify f fun x =>
      { x with fiber_state := .ScheduledLocal, current_core := found_core }).container _
    rw [hcontainer]
    apply hmodified.put hlist _ hperm
    · rfl
    · rw [Function.update_of_ne (by nofun)]
      exact h.standing.queue
    · exact setRing_holds_update hmodified.holds ((h.standing.holds found_core).insert hring)
    · exact h.standing.room
    · rw [State.modify_self]
      exact h.active
  · rw [length_allEntries_put containers_nodup hlist hperm]
    exact h.runnable

theorem dispatch (h : Left s f links) (hs : s.dispatch f core = some s') : Ready s' links := by
  unfold State.dispatch at hs
  split at hs
  · obtain rfl := Option.some.inj hs
    have hmodified : Standing (s.modify f fun x =>
        { x with fiber_state := .Running, current_core := core })
        (s.modify f fun x => { x with fiber_state := .Running, current_core := core }).container
        links := by
      rw [container_modify]
      exact h.standing.modify fun _ _ => h.active
    constructor
    · exact { hmodified with }
    · change s.runnable_fibers - 1 = _
      rw [h.runnable, BitVec.ofNat_add]
      exact BitVec.add_sub_cancel _ _
  · cases hs

end Left

namespace Ready

omit [DecidableEq F] in
theorem entries_eq (h : Ready s links) : entries s = links := by
  funext c
  cases c with
  | queue => exact h.standing.queue
  | ring core => exact (h.standing.holds core).contents_eq

omit [DecidableEq F] in
theorem container_none (h : Ready s links) (hf : f ∉ readyEntries s) : s.container f = none := by
  cases hc : s.container f with
  | none => rfl
  | some c =>
    exfalso
    apply hf
    unfold readyEntries
    rw [h.entries_eq, h.standing.once.mem_allEntries]
    exact ⟨c, h.standing.exist f c hc, hc⟩

theorem modify (h : Ready s links) (hcontainer : (g (s.fiber f)).container = s.container f)
    (hactive : ∀ c, s.container f = some c → (g (s.fiber f)).activity_level ≠ .Suspended) :
    Ready (s.modify f g) links where
  standing := by
    rw [container_modify, hcontainer, Function.update_eq_self]
    exact h.standing.modify hactive
  runnable := h.runnable

theorem modify_none (h : Ready s links) (hf : s.container f = none)
    (hcontainer : (g (s.fiber f)).container = none) : Ready (s.modify f g) links := by
  apply h.modify (hcontainer.trans hf.symm)
  intro c hc
  rw [hf] at hc
  cases hc

theorem takeRing (h : Ready s links) {ring' : RingBuffer F} {xs : List F}
    (hperm : (links (.ring core)).Perm (f :: xs)) (hholds : ring'.Holds cMaxThreadCount xs) :
    ∃ links', Left (s.setRing core ring') f links' := by
  have hcontainer : s.container f = some (.ring core) :=
    (h.standing.once.mem _ f).mp (hperm.mem_iff.mpr List.mem_cons_self)
  have hlist := h.standing.exist f _ hcontainer
  refine ⟨Function.update links (.ring core) xs, ?_, h.standing.active f _ hcontainer, ?_⟩
  · apply h.standing.take hperm
    · rfl
    · rw [Function.update_of_ne (by nofun)]
      exact h.standing.queue
    · exact setRing_holds_update h.standing.holds hholds
    · exact h.standing.room
  · rw [← length_allEntries_take containers_nodup hlist hperm]
    exact h.runnable

theorem takeQueue (h : Ready s links) {queue : List F} (hperm : s.thread_queue.Perm (f :: queue)) :
    ∃ links', Left { s with thread_queue := queue } f links' := by
  have hlength := hperm.length_eq
  have hroom := h.standing.room
  rw [h.standing.queue] at hperm
  have hcontainer : s.container f = some .queue :=
    (h.standing.once.mem _ f).mp (hperm.mem_iff.mpr List.mem_cons_self)
  have hlist := h.standing.exist f _ hcontainer
  refine ⟨Function.update links .queue queue, ?_, h.standing.active f _ hcontainer, ?_⟩
  · apply h.standing.take hperm
    · rfl
    · rw [Function.update_self]
    · intro other
      rw [Function.update_of_ne (by nofun)]
      exact h.standing.holds other
    · rw [List.length_cons] at hlength
      dsimp only
      omega
  · rw [← length_allEntries_take containers_nodup hlist hperm]
    exact h.runnable

theorem leave (h : Ready s links) (hactive : (s.fiber f).activity_level ≠ .Suspended)
    (htake : TakesOut s f) (hs : s.leave f = some s') : ∃ links', Left s' f links' := by
  unfold State.leave at hs
  split at hs
  · rename_i hlocal
    unfold State.ringRemove at hs
    split at hs
    · obtain ⟨ring', hring, rfl⟩ := Option.map_eq_some_iff.mp hs
      obtain ⟨xs, hholds, hperm⟩ :=
        (h.standing.holds (s.fiber f).current_core).take (htake hlocal) hring
      exact h.takeRing hperm hholds
    · cases hs
  split at hs
  · obtain ⟨queue, rfl, hperm⟩ := State.queueRemove_perm hs
    exact h.takeQueue hperm
  · rename_i hlocal hqueue
    obtain rfl := Option.some.inj hs
    have hnone : s.container f = none := by
      unfold State.container Fiber.container
      split
      · exact absurd (by assumption) hqueue
      · exact absurd (by assumption) hlocal
      · rfl
    refine ⟨links, ?_, hactive, ?_⟩
    · change Standing _ (Function.update s.container f none) links
      rw [← hnone, Function.update_eq_self]
      exact { h.standing with }
    · change s.runnable_fibers + 1 = _
      rw [h.runnable, BitVec.ofNat_add]
      rfl

theorem addToSchedulerUnsafe (h : Ready s links) (htake : TakesOut s f)
    (hs : s.addToSchedulerUnsafe f = some s') : ∃ links', Ready s' links' := by
  unfold State.addToSchedulerUnsafe at hs
  split at hs
  · obtain rfl := Option.some.inj hs
    exact ⟨links, h⟩
  split at hs
  · rename_i hsuspended
    obtain rfl := Option.some.inj hs
    have hnone : s.container f = none := by
      cases hc : s.container f with
      | none => rfl
      | some c => exact absurd hsuspended (h.standing.active f c hc)
    exact ⟨links, h.modify_none hnone rfl⟩
  · rename_i hactive
    obtain ⟨s₁, hleave, hs⟩ := Option.bind_eq_some_iff.mp hs
    obtain ⟨s₂, hinsert, hs⟩ := Option.bind_eq_some_iff.mp hs
    obtain rfl := Option.some.inj hs
    obtain ⟨links₁, hleft⟩ := h.leave hactive htake hleave
    exact hleft.queueInsert hinsert

end Ready

end Awn.Ukern.Affinity
