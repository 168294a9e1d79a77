import Awn.Ukern.Waits.Waiting

namespace Awn.Ukern.Waits

open UserScheduler (removed mem_removed removed_single firstNode)

variable {F A : Type*} [DecidableEq F] [DecidableEq A] {T : FiberTable F}

structure Cancelled (s s' : UserScheduler F A) (f : F) : Prop where
  links : s'.links = s.links.unlink (.inr f)
  fiber : ∀ g, g ≠ f → s'.fiber g = s.fiber g
  fiber_state : (s'.fiber f).fiber_state ≠ .Waiting
  word : ∀ a, s'.word a = s.word a ∨
    ((s.fiber f).waitable_object = some .KeyArbiter ∧ (s.fiber f).lock_address = some a)

theorem unlink_unlink (links : Links (Node F)) (f : F) :
    (links.unlink (.inr f)).unlink (.inr f) = links.unlink (.inr f) :=
  Links.unlink_alone (Links.unlink_ring_self _ _)

omit [DecidableEq A] in
theorem endFiberWaitImpl_cancelled (s : UserScheduler F A) (f : F) (r : Result) :
    Cancelled s (s.endFiberWaitImpl f r) f := by
  have hended := UserScheduler.endFiberWaitImpl_waitEnded s f r
  exact ⟨hended.links, hended.fiber, hended.fiber_state, fun a => Or.inl (congrFun hended.word a)⟩

theorem cancelWait_some {s : UserScheduler F A} {c : WaitList F → List F} {f : F}
    (h : s.links.Represents c) (hf : f ∈ c .scheduler) {object : WaitableObject}
    (hobject : (s.fiber f).waitable_object = some object) (hlock : object ≠ .LockArbiter)
    (hempty : object ≠ .TimeWaiter → c (.of f) = [])
    (hkey : object = .KeyArbiter → ∃ a, (s.fiber f).lock_address = some a ∧ s.word a = 0) :
    ∃ s', Cancelled s s' f ∧ ∀ fuel, s.cancelWait T fuel f .Timeout object = some s' := by
  have hlinked : s.links.isLinked (.inr f) = true := (h.isLinked_elem f).mpr ⟨_, hf⟩
  have hisEmpty : object ≠ .TimeWaiter → s.isEmpty (.of f) = true := fun hne =>
    (UserScheduler.isEmpty_eq_true h).mpr (hempty hne)
  cases object with
  | LockArbiter => exact absurd rfl hlock
  | TimeWaiter => exact ⟨_, endFiberWaitImpl_cancelled s f .Timeout, fun _ => rfl⟩
  | WaitAddressArbiter =>
    refine ⟨(s.unlink f).endFiberWaitImpl f .Timeout, ?_, fun fuel => ?_⟩
    · have hcancelled := endFiberWaitImpl_cancelled (s.unlink f) f .Timeout
      refine ⟨?_, hcancelled.fiber, hcancelled.fiber_state, hcancelled.word⟩
      rw [hcancelled.links]
      exact unlink_unlink _ _
    · unfold UserScheduler.cancelWait
      dsimp only
      rw [hisEmpty nofun, hlinked]
      rfl
  | KeyArbiter =>
    obtain ⟨a, ha, hfree⟩ := hkey rfl
    refine ⟨((s.unlink f).setWord a (s.fiber f).wait_tag).endFiberWaitImpl f .Timeout, ?_,
      fun fuel => ?_⟩
    · have hcancelled := endFiberWaitImpl_cancelled ((s.unlink f).setWord a (s.fiber f).wait_tag) f
        .Timeout
      refine ⟨?_, hcancelled.fiber, hcancelled.fiber_state, fun b => ?_⟩
      · rw [hcancelled.links]
        exact unlink_unlink _ _
      · by_cases hb : b = a
        · right
          rw [hb]
          exact ⟨hobject, ha⟩
        · left
          exact UserScheduler.setWord_of_ne _ _ hb
    · unfold UserScheduler.cancelWait
      dsimp only
      rw [hisEmpty nofun, hlinked]
      change (s.unlink f).takeLockBack T f .Timeout = _
      unfold UserScheduler.takeLockBack
      rw [UserScheduler.unlink_fiber, ha]
      dsimp only
      rw [UserScheduler.unlink_word, if_neg (not_not.mpr hfree), if_neg (not_not.mpr hfree)]

section Pass

variable {s : State F A} {c : WaitList F → List F} {core_number : ℕ} {tick : BitVec 64}

def CancellableIn (s : State F A) (core_number : ℕ) (tick : BitVec 64) (ys : List F) (f : F) :
    Prop :=
  (s.scheduler.fiber f).waitable_object = some .TimeWaiter ∨
    ((∃ a, s.waiters a = [f]) ∧ ((s.scheduler.fiber f).waitable_object = some .KeyArbiter →
      ∀ lock_address, (s.scheduler.fiber f).lock_address = some lock_address →
        s.scheduler.word lock_address = 0 ∧
          ∀ g ∈ ys, s.scheduler.TimesOut g core_number tick →
            (s.scheduler.fiber g).waitable_object = some .KeyArbiter →
            (s.scheduler.fiber g).lock_address = some lock_address → g = f))

theorem isSchedulable_not {f : F} (hnot : ¬s.scheduler.TimesOut f core_number tick) (fuel : ℕ) :
    s.scheduler.isSchedulable T fuel f core_number tick = some s.scheduler := by
  unfold UserScheduler.isSchedulable
  split
  · rfl
  · rename_i hcore
    split
    · rfl
    · rw [if_neg fun hlate => hnot ⟨hcore, hlate⟩]

def without (s : State F A) (f : F) (scheduler : UserScheduler F A) : State F A :=
  ⟨scheduler, fun a => (s.waiters a).filter (· ≠ f)⟩

theorem isSchedulable_late (h : Invariant T s c) {f : F} {ys : List F} (hf : f ∈ c .scheduler)
    (hlate : s.scheduler.TimesOut f core_number tick)
    (hcancel : CancellableIn s core_number tick ys f) :
    ∃ scheduler, Cancelled s.scheduler scheduler f ∧
      (∀ fuel, s.scheduler.isSchedulable T fuel f core_number tick = some scheduler) ∧
      Invariant T (without s f scheduler) (removed c [f]) := by
  have hobject : ∃ object, (s.scheduler.fiber f).waitable_object = some object ∧
      object ≠ .LockArbiter ∧ (object ≠ .TimeWaiter → c (.of f) = []) ∧
      (object = .KeyArbiter → ∃ a, (s.scheduler.fiber f).lock_address = some a ∧
        s.scheduler.word a = 0) := by
    rcases hcancel with htime | ⟨⟨a, ha⟩, hkey⟩
    · exact ⟨_, htime, nofun, fun hne => absurd rfl hne, nofun⟩
    · have hfa : f ∈ s.waiters a := by
        rw [ha]
        exact List.mem_singleton_self f
      have hempty := (h.registered a f [] ha).2
      rcases (h.waits a f hfa).2 with hobject | ⟨hobject, -, l, -, hl⟩
      · exact ⟨_, hobject, nofun, fun _ => hempty, nofun⟩
      · exact ⟨_, hobject, nofun, fun _ => hempty, fun _ => ⟨l, hl, (hkey hobject l hl).1⟩⟩
  obtain ⟨object, hobject, hlock, hempty, hkey⟩ := hobject
  obtain ⟨scheduler, hcancelled, hcall⟩ :=
    cancelWait_some (T := T) h.lists.represents hf hobject hlock hempty hkey
  refine ⟨scheduler, hcancelled, fun fuel => ?_, ?_⟩
  · unfold UserScheduler.isSchedulable
    rw [if_neg hlate.1, hobject]
    dsimp only
    rw [if_pos hlate.2, hcall fuel]
  · apply h.remove [f]
    · change scheduler.links.Represents _
      rw [hcancelled.links, ← removed_single h.lists.represents.nodup]
      exact h.lists.represents.unlink f
    · exact fun g hg => hcancelled.fiber g fun heq => hg (List.mem_singleton.mpr heq)
    · intro a
      by_cases hfa : f ∈ s.waiters a
      · right
        have hsingle : s.waiters a = [f] := by
          rcases hcancel with htime | ⟨⟨b, hb⟩, -⟩
          · exact absurd htime (h.waiters_ne_time hfa)
          · have hfb : f ∈ s.waiters b := by
              rw [hb]
              exact List.mem_singleton_self f
            rw [h.unique hfa hfb, hb]
        unfold without
        dsimp only
        rw [hsingle]
        refine ⟨?_, fun g hg => hg⟩
        rw [List.filter_cons_of_neg (by simp only [ne_eq, not_true_eq_false, decide_false,
          Bool.false_eq_true, not_false_eq_true])]
        rfl
      · left
        have hne : ∀ g ∈ s.waiters a, g ≠ f := by
          rintro g hg rfl
          exact hfa hg
        refine ⟨?_, fun g hg hgf => hne g hg (List.mem_singleton.mp hgf)⟩
        apply List.filter_eq_self.mpr
        intro g hg
        exact decide_eq_true (hne g hg)

structure Passed (T : FiberTable F) (s : State F A) (c : WaitList F → List F) (core_number : ℕ)
    (tick : BitVec 64) (ys : List F) (scheduler : UserScheduler F A) : Prop where
  late : ∀ f ∈ ys, s.scheduler.TimesOut f core_number tick →
    (scheduler.fiber f).fiber_state ≠ .Waiting
  others : ∀ f, ¬(f ∈ ys ∧ s.scheduler.TimesOut f core_number tick) →
    scheduler.fiber f = s.scheduler.fiber f
  invariant : ∃ c', Invariant T (s.afterPass scheduler) c' ∧
    ∀ f ∈ c .scheduler, ¬(f ∈ ys ∧ s.scheduler.TimesOut f core_number tick) → f ∈ c' .scheduler

omit [DecidableEq F] in
theorem passed_nil (h : Invariant T s c) : Passed T s c core_number tick [] s.scheduler where
  late _ hf := absurd hf List.not_mem_nil
  others _ _ := rfl
  invariant := by
    refine ⟨c, h.congr_fiber rfl ?_ fun _ _ => rfl, fun _ hf _ => hf⟩
    funext a
    apply List.filter_eq_self.mpr
    intro f hf
    exact decide_eq_true (h.waiting hf)

omit [DecidableEq F] in
theorem Passed.skip {y : F} {ys : List F} {scheduler : UserScheduler F A}
    (h : Passed T s c core_number tick ys scheduler)
    (hy : ¬s.scheduler.TimesOut y core_number tick) :
    Passed T s c core_number tick (y :: ys) scheduler where
  late f hf hlate := by
    rcases List.mem_cons.mp hf with rfl | hf
    · exact absurd hlate hy
    · exact h.late f hf hlate
  others f hf := h.others f fun hmem => hf ⟨List.mem_cons_of_mem _ hmem.1, hmem.2⟩
  invariant := by
    obtain ⟨c', hinv, hstay⟩ := h.invariant
    refine ⟨c', hinv, fun f hf hnot => hstay f hf fun hmem => ?_⟩
    exact hnot ⟨List.mem_cons_of_mem _ hmem.1, hmem.2⟩

theorem Passed.cancel {y : F} {ys : List F} {s₁ scheduler : UserScheduler F A}
    (hy : s.scheduler.TimesOut y core_number tick) (hcancelled : Cancelled s.scheduler s₁ y)
    (hyys : y ∉ ys) (h : Passed T (without s y s₁) (removed c [y]) core_number tick ys scheduler) :
    Passed T s c core_number tick (y :: ys) scheduler := by
  have htimes : ∀ f, f ≠ y → ((without s y s₁).scheduler.TimesOut f core_number tick ↔
      s.scheduler.TimesOut f core_number tick) := by
    intro f hf
    change UserScheduler.TimesOut s₁ f core_number tick ↔ _
    unfold UserScheduler.TimesOut
    rw [hcancelled.fiber f hf]
  have hself : scheduler.fiber y = s₁.fiber y := h.others y fun hmem => hyys hmem.1
  have hafter : s.afterPass scheduler = (without s y s₁).afterPass scheduler := by
    unfold State.afterPass without
    congr 1
    funext a
    rw [List.filter_filter]
    apply List.filter_congr
    intro f _
    by_cases hf : f = y
    · have hnot : (scheduler.fiber f).fiber_state ≠ .Waiting := by
        rw [hf, hself]
        exact hcancelled.fiber_state
      rw [decide_eq_false hnot]
      rfl
    · rw [decide_eq_true hf, Bool.and_true]
  constructor
  · intro f hf hlate
    rcases List.mem_cons.mp hf with rfl | hmem
    · rw [hself]
      exact hcancelled.fiber_state
    · apply h.late f hmem
      apply (htimes f _).mpr hlate
      rintro rfl
      exact hyys hmem
  · intro f hf
    have hfy : f ≠ y := by
      rintro rfl
      exact hf ⟨List.mem_cons_self, hy⟩
    rw [h.others f fun hmem => hf ⟨List.mem_cons_of_mem _ hmem.1, (htimes f hfy).mp hmem.2⟩]
    exact hcancelled.fiber f hfy
  · obtain ⟨c', hinv, hstay⟩ := h.invariant
    rw [hafter]
    refine ⟨c', hinv, fun f hf hnot => ?_⟩
    have hfy : f ≠ y := by
      rintro rfl
      exact hnot ⟨List.mem_cons_self, hy⟩
    apply hstay f
    · exact mem_removed.mpr ⟨hf, fun heq => hfy (List.mem_singleton.mp heq)⟩
    · exact fun hmem => hnot ⟨List.mem_cons_of_mem _ hmem.1, (htimes f hfy).mp hmem.2⟩

omit [DecidableEq A] in
theorem CancellableIn.after {y f : F} {ys : List F} {s₁ : UserScheduler F A} (hyf : y ≠ f)
    (hyys : y ∉ ys) (hy : s.scheduler.TimesOut y core_number tick)
    (hcancelled : Cancelled s.scheduler s₁ y)
    (h : CancellableIn s core_number tick (y :: ys) f) :
    CancellableIn (without s y s₁) core_number tick ys f := by
  unfold CancellableIn without at *
  dsimp only at *
  rw [hcancelled.fiber f hyf.symm]
  apply h.imp id
  rintro ⟨⟨a, ha⟩, hkey⟩
  constructor
  · refine ⟨a, ?_⟩
    rw [ha]
    exact List.filter_cons_of_pos (p := fun x => x ≠ y) (decide_eq_true hyf.symm)
  · intro hobject l hl
    obtain ⟨hfree, honly⟩ := hkey hobject l hl
    constructor
    · rcases hcancelled.word l with hsame | ⟨hykey, hylock⟩
      · rw [hsame]
        exact hfree
      · exact absurd (honly y List.mem_cons_self hy hykey hylock) hyf
    · intro g hg hlate hgkey hglock
      have hgy : g ≠ y := by
        rintro rfl
        exact hyys hg
      unfold UserScheduler.TimesOut at hlate
      rw [hcancelled.fiber g hgy] at hlate hgkey hglock
      exact honly g (List.mem_cons_of_mem _ hg) hlate hgkey hglock

theorem timeoutPass_cases : ∀ (ys xs : List F) (s : State F A) (c : WaitList F → List F),
    Invariant T s c → c .scheduler = xs ++ ys →
    (∀ f ∈ ys, s.scheduler.TimesOut f core_number tick → CancellableIn s core_number tick ys f) →
    ∃ scheduler, Passed T s c core_number tick ys scheduler ∧ ∀ fuel,
      s.scheduler.timeoutPass T core_number tick fuel (firstNode .scheduler ys) = some scheduler ∨
        (fuel ≤ ys.length ∧
          s.scheduler.timeoutPass T core_number tick fuel (firstNode .scheduler ys) = none) := by
  intro ys
  induction ys with
  | nil =>
    intro xs s c h _ _
    refine ⟨_, passed_nil h, fun fuel => ?_⟩
    cases fuel with
    | zero => exact Or.inr ⟨Nat.le_refl _, rfl⟩
    | succ fuel => exact Or.inl rfl
  | cons y ys ih =>
    intro xs s c h hc hcancel
    have hnext : s.scheduler.links.next (.inr y) = firstNode .scheduler ys :=
      h.lists.represents.next_elem hc
    have hturn : ∀ fuel, s.scheduler.timeoutPass T core_number tick (fuel + 1)
        (firstNode .scheduler (y :: ys)) =
          (s.scheduler.isSchedulable T fuel y core_number tick).bind fun s₁ =>
            s₁.timeoutPass T core_number tick fuel (firstNode .scheduler ys) := by
      intro fuel
      rw [← hnext]
      rfl
    have hy : y ∈ c .scheduler := by
      rw [hc]
      exact List.mem_append_right _ List.mem_cons_self
    by_cases hlate : s.scheduler.TimesOut y core_number tick
    · have hnodup := h.lists.represents.nodup .scheduler
      rw [hc] at hnodup
      have hyxs : y ∉ xs := fun hmem =>
        (List.nodup_append.mp hnodup).2.2 y hmem y List.mem_cons_self rfl
      have hyys : y ∉ ys := (List.nodup_cons.mp (List.nodup_append.mp hnodup).2.1).1
      obtain ⟨s₁, hcancelled, hcall, hinv⟩ :=
        isSchedulable_late h hy hlate (hcancel y List.mem_cons_self hlate)
      have hc₁ : removed c [y] .scheduler = xs ++ ys := by
        rw [← removed_single h.lists.represents.nodup]
        dsimp only
        rw [hc, List.erase_append_right _ hyxs, List.erase_cons_head]
      have hrest : ∀ f ∈ ys, (without s y s₁).scheduler.TimesOut f core_number tick →
          CancellableIn (without s y s₁) core_number tick ys f := by
        intro f hf hflate
        have hyf : y ≠ f := by
          rintro rfl
          exact hyys hf
        change UserScheduler.TimesOut s₁ f core_number tick at hflate
        unfold UserScheduler.TimesOut at hflate
        rw [hcancelled.fiber f hyf.symm] at hflate
        exact (hcancel f (List.mem_cons_of_mem _ hf) hflate).after hyf hyys hlate hcancelled
      obtain ⟨scheduler, hpassed, hcases⟩ := ih xs _ _ hinv hc₁ hrest
      refine ⟨scheduler, hpassed.cancel hlate hcancelled hyys, fun fuel => ?_⟩
      cases fuel with
      | zero => exact Or.inr ⟨Nat.zero_le _, rfl⟩
      | succ fuel =>
        rw [hturn, hcall fuel, List.length_cons]
        apply (hcases fuel).imp id
        rintro ⟨hle, hnone⟩
        exact ⟨Nat.succ_le_succ hle, hnone⟩
    · have hc₁ : c .scheduler = (xs ++ [y]) ++ ys := by
        rw [hc, List.append_assoc]
        rfl
      have hrest : ∀ f ∈ ys, s.scheduler.TimesOut f core_number tick →
          CancellableIn s core_number tick ys f := by
        intro f hf hflate
        apply (hcancel f (List.mem_cons_of_mem _ hf) hflate).imp id
        rintro ⟨ha, hkey⟩
        refine ⟨ha, fun hobject l hl => ?_⟩
        obtain ⟨hfree, honly⟩ := hkey hobject l hl
        exact ⟨hfree, fun g hg => honly g (List.mem_cons_of_mem _ hg)⟩
      obtain ⟨scheduler, hpassed, hcases⟩ := ih (xs ++ [y]) s c h hc₁ hrest
      refine ⟨scheduler, hpassed.skip hlate, fun fuel => ?_⟩
      cases fuel with
      | zero => exact Or.inr ⟨Nat.zero_le _, rfl⟩
      | succ fuel =>
        rw [hturn, isSchedulable_not hlate fuel, List.length_cons]
        apply (hcases fuel).imp id
        rintro ⟨hle, hnone⟩
        exact ⟨Nat.succ_le_succ hle, hnone⟩

end Pass

end Awn.Ukern.Waits
