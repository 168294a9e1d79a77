import Mathlib.Algebra.GroupWithZero.Nat
import Awn.Ukern.Affinity.Ready

/-! The links of the ready containers over runs of the scheduler. -/

namespace Awn.Ukern.Affinity

variable {F : Type*} [DecidableEq F]
variable {s s' : State F} {links : Container → List F} {f : F} {core : ℕ}

namespace Ready

/-- The choice of a fiber leaves it in no container, or there is none to choose. -/
def Chosen (s : State F) : Option F → Prop
  | none => ∃ links, Ready s links
  | some f => ∃ links, Left s f links

theorem acquireFiber {turns : ℕ} {fiber : Option F} :
    ∀ {s : State F} {links : Container → List F}, Ready s links →
      s.acquireFiber core turns = some (s', fiber) → Chosen s' fiber := by
  induction turns with
  | zero =>
    intro s links h hs
    unfold State.acquireFiber at hs
    split at hs
    · obtain ⟨rfl, rfl⟩ := Prod.mk.inj (Option.some.inj hs)
      exact ⟨links, h⟩
    · cases hs
  | succ turns ih =>
    intro s links h hs
    unfold State.acquireFiber at hs
    cases hfront : PriorityQueue.removeFront (fun f => (s.fiber f).priority) s.thread_queue with
    | none =>
      rw [hfront] at hs
      obtain ⟨rfl, rfl⟩ := Prod.mk.inj (Option.some.inj hs)
      exact ⟨links, h⟩
    | some front =>
      obtain ⟨first, rest⟩ := front
      have hperm := PriorityQueue.removeFront_perm _ hfront
      have hleft : ∃ links', Left { s with thread_queue := rest } first links' :=
        h.takeQueue hperm
      rw [hfront] at hs
      obtain ⟨kept, -, hs⟩ := Option.bind_eq_some_iff.mp hs
      cases kept with
      | true =>
        obtain ⟨rfl, rfl⟩ := Prod.mk.inj (Option.some.inj hs)
        exact hleft
      | false =>
        obtain ⟨s₂, hmove, hs⟩ := Option.bind_eq_some_iff.mp hs
        obtain ⟨links₁, hleft⟩ := hleft
        obtain ⟨links₂, h₂⟩ := hleft.moveToRing hmove
        exact ih h₂ hs

theorem chooseFiber (h : Ready s links) {fiber : Option F}
    (hs : s.chooseFiber core = some (s', fiber)) : Chosen s' fiber := by
  have hholds := h.standing.holds core
  unfold State.chooseFiber State.ringFront at hs
  dsimp only at hs
  by_cases hempty : (s.scheduler_local_ring_table core).m_count = 0
  · rw [if_pos hempty] at hs
    exact h.acquireFiber hs
  · rw [if_neg hempty] at hs
    cases hring : links (.ring core) with
    | nil =>
      rw [hring] at hholds
      exact absurd hholds.length.symm hempty
    | cons first rest =>
      rw [hring] at hholds
      obtain ⟨ring', hfront, hrest⟩ := hholds.removeFront_cons
      rw [hfront] at hs
      obtain ⟨rfl, rfl⟩ := Prod.mk.inj (Option.some.inj hs)
      exact h.takeRing (by rw [hring]) hrest

theorem schedule (h : Ready s links) {fiber : Option F}
    (hs : s.schedule core = some (s', fiber)) : ∃ links', Ready s' links' := by
  obtain ⟨⟨s₁, chosen⟩, hchoose, hs⟩ := Option.bind_eq_some_iff.mp hs
  have hchosen := h.chooseFiber hchoose
  cases chosen with
  | none =>
    obtain ⟨rfl, rfl⟩ := Prod.mk.inj (Option.some.inj hs)
    exact hchosen
  | some first =>
    obtain ⟨s₂, hdispatch, hs⟩ := Option.bind_eq_some_iff.mp hs
    obtain ⟨rfl, rfl⟩ := Prod.mk.inj (Option.some.inj hs)
    obtain ⟨links₁, hleft⟩ := hchosen
    exact ⟨links₁, hleft.dispatch hdispatch⟩

theorem handlePrevious (h : Ready s links) (hs : s.handlePrevious f core = some s') :
    ∃ links', Ready s' links' := by
  have hswitch : Ready { s with running := Function.update s.running core none } links :=
    ⟨{ h.standing with }, h.runnable⟩
  unfold State.handlePrevious at hs
  dsimp only at hs
  split at hs
  · split at hs
    · rename_i hstate
      apply hswitch.addToSchedulerUnsafe _ hs
      intro hlocal
      rw [hstate] at hlocal
      cases hlocal
    · obtain rfl := Option.some.inj hs
      exact ⟨links, { h.standing with }, h.runnable⟩
    · obtain rfl := Option.some.inj hs
      exact ⟨links, hswitch⟩
    · cases hs
  · cases hs

theorem enter (h : Ready s links) (htake : TakesOut s f) (hs : s.enter f = some s') :
    ∃ links', Ready s' links' := by
  have hswitch : Ready
      { s with running := Function.update s.running 0 none, entered := true } links :=
    ⟨{ h.standing with }, h.runnable⟩
  unfold State.enter at hs
  dsimp only at hs
  split at hs
  · exact hswitch.addToSchedulerUnsafe htake hs
  · obtain rfl := Option.some.inj hs
    exact ⟨links, hswitch⟩

theorem addAgain (h : Ready s links) {g : Fiber → Fiber}
    (hstate : (g (s.fiber f)).fiber_state = (s.fiber f).fiber_state)
    (hcore : (g (s.fiber f)).current_core = (s.fiber f).current_core)
    (hlevel : (g (s.fiber f)).activity_level = (s.fiber f).activity_level) (htake : TakesOut s f)
    (hs : (s.modify f g).addToSchedulerUnsafe f = some s') : ∃ links', Ready s' links' := by
  have hmodified : Ready (s.modify f g) links := by
    apply h.modify
    · unfold State.container Fiber.container
      rw [hstate, hcore]
    · intro c hc
      rw [hlevel]
      exact h.standing.active f c hc
  apply hmodified.addToSchedulerUnsafe _ hs
  unfold TakesOut at htake ⊢
  rw [State.modify_self, hstate, hcore]
  exact htake

theorem addUnlinked (h : Ready s links) (hf : s.container f = none) {g : Fiber → Fiber}
    (hcontainer : (g (s.fiber f)).container = none)
    (hs : (s.modify f g).addToSchedulerUnsafe f = some s') : ∃ links', Ready s' links' := by
  apply (h.modify_none hf hcontainer).addToSchedulerUnsafe _ hs
  intro hlocal
  rw [State.modify_self] at hlocal
  unfold Fiber.container at hcontainer
  rw [hlocal] at hcontainer
  cases hcontainer

theorem setPriority (h : Ready s links) {fiber_local : Option F} {priority : ℤ} {r : ThreadResult}
    (hmet : ReadyMet s (.setPriority fiber_local priority))
    (hs : s.setPriorityImpl fiber_local priority = some (r, s')) : ∃ links', Ready s' links' := by
  rcases State.setPriorityImpl_cases hs with rfl | ⟨f, rfl, hpriority, hother, hadd⟩
  · exact ⟨links, h⟩
  · exact h.addAgain rfl rfl rfl (hmet hpriority f rfl hother) hadd

theorem setCoreMask (h : Ready s links) {fiber_local : Option F} {core_mask : BitVec 64}
    {r : ThreadResult} (hmet : ReadyMet s (.setCoreMask fiber_local core_mask))
    (hs : s.setCoreMaskImpl fiber_local core_mask = some (r, s')) : ∃ links', Ready s' links' := by
  rcases State.setCoreMaskImpl_cases hs with rfl | ⟨f, rfl, hcheck, hother, hadd⟩
  · exact ⟨links, h⟩
  · exact h.addAgain rfl rfl rfl (hmet hcheck f rfl hother) hadd

theorem setActivity (h : Ready s links) {fiber_local : Option F}
    {activity_level : ActivityLevel} {r : ThreadResult}
    (hmet : ReadyMet s (.setActivity fiber_local activity_level))
    (hs : s.setActivityImpl fiber_local activity_level = some (r, s')) :
    ∃ links', Ready s' links' := by
  rcases State.setActivityImpl_cases hs with rfl | ⟨f, rfl, hother, hadd⟩
  · exact ⟨links, h⟩
  · -- a linked fiber is not suspended, so the new level would be
    have hnone : s.container f = none := by
      cases hc : s.container f with
      | none => rfl
      | some c =>
        have hactive := h.standing.active f c hc
        cases activity_level with
        | Suspended =>
          rw [h.container_none (hmet rfl f rfl)] at hc
          cases hc
        | Schedulable =>
          cases hlevel : (s.fiber f).activity_level with
          | Suspended => exact absurd hlevel hactive
          | Schedulable => exact absurd hlevel hother
    apply h.addUnlinked hnone _ hadd
    exact hnone

theorem createThread (h : Ready s links) {slot : Option F} {reserved : Bool}
    {thread_func stack_size : BitVec 64} {priority : ℤ} {core_id : BitVec 32} {r : ThreadResult}
    (hslot : ∀ f, slot = some f → f ∉ readyEntries s)
    (hs : s.createThreadImpl slot reserved thread_func stack_size priority core_id = some (r, s')) :
    ∃ links', Ready s' links' := by
  rcases State.createThreadImpl_cases hs with rfl | ⟨f, rfl, -, hcase⟩
  · exact ⟨links, h⟩
  · have hnone := h.container_none (hslot f rfl)
    refine ⟨links, ?_⟩
    rcases hcase with rfl | rfl
    · have hallocated : Ready { s with allocated := Function.update s.allocated f true } links :=
        ⟨{ h.standing with }, h.runnable⟩
      exact hallocated.modify_none hnone rfl
    · have hregistered : Ready { s with
          allocated := Function.update s.allocated f true
          registered := Function.update s.registered f true } links :=
        ⟨{ h.standing with }, h.runnable⟩
      exact hregistered.modify_none hnone rfl

theorem step (h : Ready s links) {e : Event F} (hmet : ReadyMet s e) (hstep : Step s e s') :
    ∃ links', Ready s' links' := by
  cases hstep with
  | createThread _ hs => exact h.createThread hmet hs
  | setPriority _ hs => exact h.setPriority hmet hs
  | setCoreMask _ hs => exact h.setCoreMask hmet hs
  | setActivity _ hs => exact h.setActivity hmet hs
  | @wait core f hf => exact ⟨links, h.modify_none (h.container_none (hmet f hf)) rfl⟩
  | @exit core f hf => exact ⟨links, h.modify_none (h.container_none (hmet f hf)) rfl⟩
  | endWait _ hs => exact h.addUnlinked (h.container_none hmet) rfl hs
  | suspend _ => exact ⟨links, h.modify_none (h.container_none hmet) rfl⟩
  | schedule _ _ hs => exact h.schedule hs
  | handlePrevious _ _ hs => exact h.handlePrevious hs
  | @enter _ f hf _ hs => exact h.enter (hmet f hf) hs

omit [DecidableEq F] in
theorem readyOnce (h : Ready s links) : ReadyOnce s where
  nodup c := by
    rw [h.entries_eq]
    exact h.standing.once.nodup c
  unique f c d hc hd := by
    rw [h.entries_eq] at hc hd
    exact h.standing.once.unique hc hd
  linked f := by
    unfold readyEntries
    rw [h.entries_eq, h.standing.once.mem_allEntries]
    constructor
    · rintro ⟨c, -, hc⟩
      exact Fiber.container_some hc
    · intro hstate
      obtain ⟨c, hc⟩ := Fiber.container_of_state hstate
      exact ⟨c, h.standing.exist f c hc, hc⟩
  unlinked f hstate c := by
    rw [h.entries_eq, h.standing.once.mem c f]
    intro hc
    rcases Fiber.container_some hc with hlinked | hlinked
    all_goals
      rw [hlinked] at hstate
      rcases hstate with hother | hother | hother
      all_goals cases hother
  runnable := by
    have hle : (allEntries containers links).length ≤ containers.length * cMaxThreadCount := by
      apply length_allEntries_le
      intro c _
      cases c with
      | queue =>
        rw [← h.standing.queue]
        exact h.standing.room
      | ring core =>
        rw [(h.standing.holds core).length]
        exact (h.standing.holds core).count
    have hcontainers : containers.length * cMaxThreadCount < 2 ^ 32 := by decide
    unfold readyEntries
    rw [h.entries_eq, h.runnable, BitVec.toNat_ofNat]
    exact Nat.mod_eq_of_lt (Nat.lt_of_le_of_lt hle hcontainers)

end Ready

theorem initialized_ready {core_count : ℕ} {main_fiber : F}
    (hs : State.initialized core_count main_fiber = some s) : Ready s fun _ => [] := by
  have hnone : ∀ f c, s.container f ≠ some c := by
    obtain ⟨shifted, -, rfl⟩ := Option.map_eq_some_iff.mp hs
    intro f c hc
    unfold State.container at hc
    dsimp only at hc
    by_cases hf : f = main_fiber
    · rw [hf, Function.update_self] at hc
      cases hc
    · rw [Function.update_of_ne hf] at hc
      cases hc
  obtain ⟨shifted, -, rfl⟩ := Option.map_eq_some_iff.mp hs
  constructor
  · constructor
    · rfl
    · exact fun core => RingBuffer.empty_holds (by decide)
    · constructor
      · exact fun _ => List.nodup_nil
      · exact fun c f => ⟨fun hf => absurd hf List.not_mem_nil, fun hf => absurd hf (hnone f c)⟩
    · exact fun f c hf => absurd hf (hnone f c)
    · exact fun f c hf => absurd hf (hnone f c)
    · exact Nat.zero_le _
  · rfl

/-- In every run that takes fibers out of the rings where it finds them, and that suspends, parks and
wakes only fibers that are in no ready container, the containers link the ready fibers, each
once. -/
theorem reachable_readyOnce (core_count : ℕ) (s : State F) (h : Reachable core_count ReadyMet s) :
    ReadyOnce s := by
  have hready : ∃ links, Ready s links := by
    induction h with
    | start hs => exact ⟨_, initialized_ready hs⟩
    | step _ hmet hstep ih =>
      obtain ⟨links, hready⟩ := ih
      exact hready.step hmet hstep
  obtain ⟨links, hready⟩ := hready
  exact hready.readyOnce

section Examples

theorem reachable_readyOnce_runnable : ReadyOnce runnable := by
  apply reachable_readyOnce 3
  apply runnable_reachable
  · intro f _
    exact List.not_mem_nil
  · nofun

local instance two_ready_ne : NeZero 2 := ⟨by decide⟩

def suspended : State (Fin 2) := ((runnable.setActivityImpl (some 1) .Suspended).get rfl).2

theorem suspended_linked : ¬∀ (core_count : ℕ) (s : State (Fin 2)),
    Reachable core_count (fun _ _ => True) s → ReadyOnce s := by
  intro h
  have hsuspended : runnable.setActivityImpl (some 1) .Suspended = some (.Success, suspended) := rfl
  have hreachable := Reachable.step (runnable_reachable (P := fun _ _ => True) trivial trivial)
    trivial (Step.setActivity (by decide) hsuspended)
  have hunlinked := (h 3 suspended hreachable).unlinked 1 (Or.inr (Or.inr (by decide))) .queue
  exact hunlinked (by decide)

end Examples

end Awn.Ukern.Affinity
