import Awn.Ukern.Waits.Invariant

namespace Awn.Ukern.Waits

open UserScheduler (Lists removed mem_removed removed_single)

variable {F A : Type*} [DecidableEq F] [DecidableEq A] {T : FiberTable F}
variable {s s' : State F A} {c : WaitList F → List F} {f g : F} {a : A}

namespace Invariant

theorem release (h : Invariant T s c) (hf : (s.scheduler.fiber f).fiber_state ≠ .Waiting)
    {fuel : ℕ} {scheduler : UserScheduler F A}
    (hs : s.scheduler.releaseLockWaitListUnsafe fuel f = some scheduler) :
    ∃ g, c (.of f) = [g] ∧ (∀ k, k ≠ g → scheduler.fiber k = s.scheduler.fiber k) ∧
      Invariant T { s with scheduler := scheduler } (removed c [g]) := by
  obtain ⟨g, lock_address, hc, -, -, -, rfl⟩ := h.lists.release_some hs
  have hg : g ∈ c (.of f) := by
    rw [hc]
    exact List.mem_singleton_self g
  have hfiber : ∀ k, k ≠ g → (s.scheduler.handedOver g lock_address).fiber k =
      s.scheduler.fiber k := fun k hk => UserScheduler.handedOver_of_ne _ _ hk
  refine ⟨g, hc, hfiber, h.remove [g] ?_ ?_ ?_⟩
  · rw [← removed_single h.lists.represents.nodup]
    exact h.lists.represents.unlink g
  · intro k hk
    exact hfiber k fun heq => hk (List.mem_singleton.mpr heq)
  · intro a
    left
    refine ⟨rfl, fun k hk hkg => ?_⟩
    rw [List.mem_singleton.mp hkg] at hk
    exact h.not_waiter hg (h.not_parent hf) a hk

theorem releaseLock (h : Invariant T s c) (hf : (s.scheduler.fiber f).fiber_state ≠ .Waiting)
    {fuel : ℕ} {lock_address : A} {scheduler : UserScheduler F A}
    (hs : s.scheduler.releaseLock fuel f lock_address = some scheduler) :
    ∃ c', Invariant T { s with scheduler := scheduler } c' ∧ c' (.of f) = [] ∧
      scheduler.fiber f = s.scheduler.fiber f ∧
      ∀ k ∈ c' .scheduler, k ∈ c .scheduler ∧ scheduler.fiber k = s.scheduler.fiber k := by
  unfold UserScheduler.releaseLock at hs
  split at hs
  · rename_i hempty
    obtain rfl := Option.some.inj hs
    refine ⟨c, h.congr_fiber rfl rfl fun _ _ => rfl, ?_, rfl, fun k hk => ⟨hk, rfl⟩⟩
    exact (UserScheduler.isEmpty_eq_true h.lists.represents).mp hempty
  · obtain ⟨g, hc, hfiber, hinv⟩ := h.release hf hs
    have hg : g ∈ c (.of f) := by
      rw [hc]
      exact List.mem_singleton_self g
    refine ⟨_, hinv, ?_, hfiber f ?_, ?_⟩
    · apply List.eq_nil_iff_forall_not_mem.mpr
      intro k hk
      obtain ⟨hk, hout⟩ := mem_removed.mp hk
      rw [hc] at hk
      exact hout hk
    · exact (h.lists.head_ne hg).symm
    · intro k hk
      obtain ⟨hk, hout⟩ := mem_removed.mp hk
      exact ⟨hk, hfiber k fun heq => hout (List.mem_singleton.mpr heq)⟩

theorem find_modified (h : Invariant T s c) (hfresh : Fresh s a) (hf : ∀ list, f ∉ c list)
    {x : FiberLocalStorage A → FiberLocalStorage A} {fuel : ℕ} {r : Option F}
    (hr : (s.scheduler.modify f x).findWaitAddress fuel a = some r) :
    r = (s.waiters a).head? := by
  have hrep : (s.scheduler.modify f x).links.Represents c := h.lists.represents
  rw [UserScheduler.findWaitAddress_some hrep hr, ← h.find_eq hfresh]
  apply List.find?_congr
  intro k hk
  have hkf : k ≠ f := by
    rintro rfl
    exact hf _ hk
  rw [UserScheduler.modify_of_ne _ _ hkf]

theorem arbitrateLock (h : Invariant T s c) (hf : (s.scheduler.fiber f).fiber_state ≠ .Waiting)
    {handle tag : BitVec 32} (hmet : ∀ g, T.getFiberByHandle handle = some g → ¬Parent s g) :
    ∃ c', Invariant T
      (s.after (s.scheduler.arbitrateLockImpl T f handle (some a) tag)) c' := by
  cases hr : s.scheduler.arbitrateLockImpl T f handle (some a) tag with
  | error _ => exact ⟨c, h⟩
  | ok scheduler =>
    obtain ⟨g, hg, hgf, rfl⟩ := UserScheduler.arbitrateLockImpl_ok hr
    have hself := UserScheduler.modify_self s.scheduler f (UserScheduler.waitForLock · a tag)
    have hpush : Pushed s { s with scheduler := (s.scheduler.modify f
        (UserScheduler.waitForLock · a tag)).pushBack (.of g) f } c (.of g) f := by
      constructor
      · exact h.unlisted hf
      · exact fun heq => hgf (WaitList.of.inj heq)
      · exact h.lists.represents.pushBack (h.unlisted hf) _
      · exact fun k hk => UserScheduler.modify_of_ne s.scheduler
          (UserScheduler.waitForLock · a tag) hk
      · exact congrArg FiberLocalStorage.fiber_state hself
    exact ⟨_, hpush.other h rfl (Or.inr ⟨g, rfl, hmet g hg⟩)⟩

theorem arbitrateUnlock (h : Invariant T s c) (hf : (s.scheduler.fiber f).fiber_state ≠ .Waiting)
    {fuel : ℕ} {r : Except Result (UserScheduler F A)}
    (hr : s.scheduler.arbitrateUnlockImpl T fuel f (some a) = some r) :
    ∃ c', Invariant T (s.after r) c' := by
  cases r with
  | error _ => exact ⟨c, h⟩
  | ok scheduler =>
    obtain ⟨g, -, -, hinv⟩ := h.release hf (UserScheduler.arbitrateUnlockImpl_ok hr)
    exact ⟨_, hinv⟩

theorem wait (h : Invariant T s c) (hf : (s.scheduler.fiber f).fiber_state ≠ .Waiting)
    (hfresh : Fresh s a) (hempty : s.waiters a = [] → c (.of f) = [])
    {x : FiberLocalStorage A → FiberLocalStorage A}
    (hx : WaitsOn T (x (s.scheduler.fiber f)) f a ∧
      (x (s.scheduler.fiber f)).fiber_state = .Waiting) :
    ∃ c', Invariant T
      ⟨(s.scheduler.modify f x).pushBack (UserScheduler.listBelow (s.waiters a).head?) f,
        Function.update s.waiters a (s.waiters a ++ [f])⟩ c' := by
  have hself := UserScheduler.modify_self s.scheduler f x
  have hwaits : WaitsOn T ((s.scheduler.modify f x).fiber f) f a := by
    rw [hself]
    exact hx.1
  have hpush : ∀ list, list ≠ .of f → Pushed s ⟨(s.scheduler.modify f x).pushBack list f,
      Function.update s.waiters a (s.waiters a ++ [f])⟩ c list f := by
    intro list hne
    constructor
    · exact h.unlisted hf
    · exact hne
    · exact h.lists.represents.pushBack (h.unlisted hf) _
    · exact fun k hk => UserScheduler.modify_of_ne s.scheduler x hk
    · change ((s.scheduler.modify f x).fiber f).fiber_state = _
      rw [hself]
      exact hx.2
  by_cases hnone : s.waiters a = []
  · rw [hnone] at hpush ⊢
    exact ⟨_, (hpush .scheduler (by nofun)).parent h rfl hnone (hempty hnone) hfresh hwaits⟩
  · obtain ⟨p, rest, ha⟩ := List.exists_cons_of_ne_nil hnone
    have hhead : (s.waiters a).head? = some p := by
      rw [ha]
      rfl
    have hne : (.of p : WaitList F) ≠ .of f := by
      intro heq
      obtain rfl := WaitList.of.inj heq
      exact h.not_parent hf ⟨a, rest, ha⟩
    rw [hhead]
    exact ⟨_, (hpush (.of p) hne).child h rfl ha hwaits⟩

theorem waitKey (h : Invariant T s c) (hf : (s.scheduler.fiber f).fiber_state ≠ .Waiting)
    {lock_address : A} (hne : lock_address ≠ a) (hfresh : Fresh s a) {fuel : ℕ}
    {absolute_timeout : BitVec 64} {r : Except Result (Result × UserScheduler F A)}
    (hr : s.scheduler.waitKeyImpl T fuel f (some lock_address) (some a) (T.handle f)
      absolute_timeout = some r) : ∃ c', Invariant T (s.afterWait f a r) c' := by
  unfold UserScheduler.waitKeyImpl at hr
  dsimp only at hr
  split at hr
  · obtain rfl := Option.some.inj hr
    exact ⟨c, h⟩
  obtain ⟨released, hreleased, hr⟩ := Option.bind_eq_some_iff.mp hr
  obtain ⟨c₁, h₁, hempty, hself, hlisted⟩ := h.releaseLock hf hreleased
  have h₂ : Invariant T { s with scheduler := released.setWord a 1 } c₁ :=
    h₁.congr_fiber rfl rfl fun _ _ => rfl
  split at hr
  · obtain rfl := Option.some.inj hr
    exact ⟨c₁, h₂⟩
  · obtain ⟨joined, hjoined, hr⟩ := Option.bind_eq_some_iff.mp hr
    obtain rfl := Option.some.inj hr
    have hf₂ : ((released.setWord a 1).fiber f).fiber_state ≠ .Waiting := by
      rw [UserScheduler.setWord_fiber, hself]
      exact hf
    have hfresh₂ : Fresh { s with scheduler := released.setWord a 1 } a := by
      intro hnone k hk
      obtain ⟨hmem, hsame⟩ :=
        hlisted k ((UserScheduler.inWaitList_iff h₂.lists.represents).mp hk)
      change (released.fiber k).wait_address ≠ some a
      rw [hsame]
      exact hfresh hnone k ((UserScheduler.inWaitList_iff h.lists.represents).mpr hmem)
    have hrep : ((released.setWord a 1).modify f
        (UserScheduler.waitForKey · lock_address a (T.handle f) absolute_timeout)).links.Represents
          c₁ := h₂.lists.represents
    obtain ⟨parent, hparent, rfl⟩ := UserScheduler.joinKey_eq hrep (h₂.unlisted hf₂) hjoined
    obtain rfl := h₂.find_modified hfresh₂ (h₂.unlisted hf₂) hparent
    exact h₂.wait hf₂ hfresh₂ (fun _ => hempty)
      ⟨⟨rfl, Or.inr ⟨rfl, rfl, lock_address, hne, rfl⟩⟩, rfl⟩

theorem waitForAddress (h : Invariant T s c) (hf : (s.scheduler.fiber f).fiber_state ≠ .Waiting)
    (hfresh : Fresh s a)
    (hempty : s.waiters a = [] → s.scheduler.links.Ring (.inl (.of f)) []) {fuel : ℕ}
    {absolute_timeout : BitVec 64} {joined : UserScheduler F A}
    (hjoined : (s.scheduler.modify f (UserScheduler.waitForAddress · a absolute_timeout)).joinAddress
      fuel a f = some joined) :
    ∃ c', Invariant T (s.afterWait f a (.ok (.Success, joined))) c' := by
  obtain ⟨parent, hparent, rfl⟩ := UserScheduler.joinAddress_eq hjoined
  obtain rfl := h.find_modified hfresh (h.unlisted hf) hparent
  apply h.wait hf hfresh
  · intro hnone
    exact h.lists.represents.eq_of_ring (hempty hnone)
  · exact ⟨⟨rfl, Or.inl rfl⟩, rfl⟩

theorem waitForAddressIfEqual (h : Invariant T s c)
    (hf : (s.scheduler.fiber f).fiber_state ≠ .Waiting) (hfresh : Fresh s a)
    (hempty : s.waiters a = [] → s.scheduler.links.Ring (.inl (.of f)) []) {fuel : ℕ}
    {value : BitVec 32} {absolute_timeout : BitVec 64}
    {r : Except Result (Result × UserScheduler F A)}
    (hr : s.scheduler.waitForAddressIfEqualImpl fuel f (some a) value absolute_timeout = some r) :
    ∃ c', Invariant T (s.afterWait f a r) c' := by
  unfold UserScheduler.waitForAddressIfEqualImpl at hr
  dsimp only at hr
  split at hr
  · obtain rfl := Option.some.inj hr
    exact ⟨c, h⟩
  split at hr
  · obtain rfl := Option.some.inj hr
    exact ⟨c, h⟩
  · obtain ⟨joined, hjoined, hr⟩ := Option.bind_eq_some_iff.mp hr
    obtain rfl := Option.some.inj hr
    exact h.waitForAddress hf hfresh hempty hjoined

theorem waitForAddressIfLessThan (h : Invariant T s c)
    (hf : (s.scheduler.fiber f).fiber_state ≠ .Waiting) (hfresh : Fresh s a)
    (hempty : s.waiters a = [] → s.scheduler.links.Ring (.inl (.of f)) []) {fuel : ℕ}
    {value : BitVec 32} {absolute_timeout : BitVec 64} {do_decrement : Bool}
    {r : Except Result (Result × UserScheduler F A)}
    (hr : s.scheduler.waitForAddressIfLessThanImpl fuel f (some a) value absolute_timeout
      do_decrement = some r) : ∃ c', Invariant T (s.afterWait f a r) c' := by
  have hcounted : ∃ value', (if do_decrement then s.scheduler.setWord a (s.scheduler.word a - 1)
      else s.scheduler) = s.scheduler.setWord a value' := by
    cases do_decrement with
    | true => exact ⟨_, rfl⟩
    | false => exact ⟨s.scheduler.word a, by unfold UserScheduler.setWord; rw [Function.update_eq_self]; rfl⟩
  obtain ⟨value', hvalue'⟩ := hcounted
  have h₁ : Invariant T { s with scheduler := s.scheduler.setWord a value' } c :=
    h.congr_fiber rfl rfl fun _ _ => rfl
  unfold UserScheduler.waitForAddressIfLessThanImpl at hr
  dsimp only at hr
  rw [hvalue'] at hr
  split at hr
  · obtain rfl := Option.some.inj hr
    exact ⟨c, h₁⟩
  split at hr
  · obtain rfl := Option.some.inj hr
    exact ⟨c, h₁⟩
  · obtain ⟨joined, hjoined, hr⟩ := Option.bind_eq_some_iff.mp hr
    obtain rfl := Option.some.inj hr
    exact h₁.waitForAddress hf hfresh hempty hjoined

theorem sleep (h : Invariant T s c) (hf : (s.scheduler.fiber f).fiber_state ≠ .Waiting)
    (absolute_timeout : BitVec 64) :
    ∃ c', Invariant T { s with scheduler := s.scheduler.sleepThreadImpl f absolute_timeout } c' := by
  unfold UserScheduler.sleepThreadImpl
  split
  · have hself := UserScheduler.modify_self s.scheduler f
      (UserScheduler.waitForTime · absolute_timeout)
    have hpush : Pushed s { s with scheduler := (s.scheduler.modify f
        (UserScheduler.waitForTime · absolute_timeout)).pushBack .scheduler f } c .scheduler f := by
      constructor
      · exact h.unlisted hf
      · nofun
      · exact h.lists.represents.pushBack (h.unlisted hf) _
      · exact fun k hk => UserScheduler.modify_of_ne s.scheduler
          (UserScheduler.waitForTime · absolute_timeout) hk
      · exact congrArg FiberLocalStorage.fiber_state hself
    exact ⟨_, hpush.other h rfl
      (Or.inl ⟨rfl, congrArg FiberLocalStorage.waitable_object hself⟩)⟩
  · exact ⟨c, h⟩

end Invariant

end Awn.Ukern.Waits
