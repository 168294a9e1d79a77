import Mathlib.Algebra.GroupWithZero.Nat
import Awn.Ukern.CriticalSectionRun
import Awn.Ukern.MutualExclusion
import Awn.Ukern.WaitLists

/-!
One lock word under `Enter`, `Leave`, `WaitKey`, `SignalKey` and the timeouts of waits. A step is a
fast-path operation, a scheduler call, or one turn of a timeout pass; a call that aborts the process
or never returns leads to no state. `WaitKey` is called as `InternalConditionVariable` calls it: by
a fiber inside, with its own handle as the tag and a key that is not the lock word.
-/

namespace Awn.Ukern.LockWord

open InternalCriticalSection (State Pc Start)

inductive Event (F A : Type*)
  | lock (e : InternalCriticalSection.Event F)
  | waitKey (f : F) (cv_key : A) (absolute_timeout : BitVec 64)
  | resumeKey (f : F)
  | signalKey (f : F) (cv_key : A) (signal_count : BitVec 32)
  | timeout (f : F) (core_number : ℕ) (tick : BitVec 64)

variable {F A : Type*} [DecidableEq F] [DecidableEq A] (T : FiberTable F) (m_handle : A)

def afterSignal (s : State F A) : Except Result (UserScheduler F A) → State F A
  | .ok scheduler => s.withScheduler scheduler
  | .error _ => s

inductive Step : State F A → Event F A → State F A → Prop
  | lock {s s' : State F A} {e : InternalCriticalSection.Event F} :
      InternalCriticalSection.Step T m_handle s e s' →
      (∀ f, s'.pc f ≠ .aborted ∧ s'.pc f ≠ .stuck) → Step s (.lock e) s'
  | waitKey {s : State F A} {f : F} {cv_key : A} {absolute_timeout : BitVec 64} {fuel : ℕ}
      {result : Result} {scheduler : UserScheduler F A} :
      s.pc f = .inside → cv_key ≠ m_handle →
      s.scheduler.waitKeyImpl T fuel f (some m_handle) (some cv_key) (T.handle f)
        absolute_timeout = some (.ok (result, scheduler)) →
        Step s (.waitKey f cv_key absolute_timeout)
          ((s.withScheduler scheduler).goto f
            (if result = .Success then .waitingKey else .outside))
  | resumeKey {s : State F A} {f : F} :
      s.pc f = .waitingKey → (s.scheduler.fiber f).fiber_state = .Scheduled →
        Step s (.resumeKey f)
          ({ s with
              scheduler := s.scheduler.modify f fun x => { x with fiber_state := .Running } }.goto
            f .inside)
  | signalKey {s : State F A} {f : F} {cv_key : A} {signal_count : BitVec 32} {fuel : ℕ}
      {r : Except Result (UserScheduler F A)} :
      s.pc f = .outside ∨ s.pc f = .inside → cv_key ≠ m_handle →
      s.scheduler.signalKeyImpl T fuel (some cv_key) signal_count = some r →
        Step s (.signalKey f cv_key signal_count) (afterSignal s r)
  | timeout {s : State F A} {f : F} {core_number fuel : ℕ} {tick : BitVec 64}
      {scheduler : UserScheduler F A} :
      s.scheduler.InWaitList f →
      s.scheduler.isSchedulable T fuel f core_number tick = some scheduler →
        Step s (.timeout f core_number tick) (s.withScheduler scheduler)

inductive Reachable (P : State F A → Event F A → Prop) : State F A → Prop
  | start {s : State F A} : Start m_handle s → Reachable P s
  | step {s s' : State F A} {e : Event F A} :
      Reachable P s → P s e → Step T m_handle s e s' → Reachable P s'

def Holds (s : State F A) (f : F) : Prop :=
  InternalCriticalSection.Holds s f ∨
    (s.pc f = .waitingKey ∧ (s.scheduler.fiber f).fiber_state ≠ .Waiting)

def NamesHolder (s : State F A) : Prop :=
  (owner (s.word m_handle) = 0 ∧ ∀ f, ¬Holds s f) ∨
    ∃ f, owner (s.word m_handle) = T.handle f ∧ ∀ g, Holds s g ↔ g = f

def Correct : Prop :=
  ∀ s : State F A, Reachable T m_handle (fun _ _ => True) s → NamesHolder T m_handle s

def Met (s : State F A) (e : Event F A) : Prop :=
  match e with
  | .timeout f core_number tick =>
    s.scheduler.TimesOut f core_number tick →
      (s.scheduler.fiber f).waitable_object = some .KeyArbiter → s.word m_handle = 0
  | _ => True

open UserScheduler (Lists)

variable {F A : Type*} {T : FiberTable F} {m_handle : A}

theorem holds_congr {s s' : State F A} {f : F} (hpc : s'.pc f = s.pc f)
    (hstate : (s'.scheduler.fiber f).fiber_state = (s.scheduler.fiber f).fiber_state) :
    Holds s' f ↔ Holds s f := by
  unfold Holds InternalCriticalSection.Holds
  rw [hpc, hstate]

theorem not_holds {s : State F A} {f : F}
    (hpc : s.pc f = .outside ∨ s.pc f = .acquire ∨ (∃ handle, s.pc f = .announce handle) ∨
      ∃ handle, s.pc f = .arbitrate handle) : ¬Holds s f := by
  unfold Holds InternalCriticalSection.Holds
  rcases hpc with hpc | hpc | ⟨handle, hpc⟩ | ⟨handle, hpc⟩ <;> rw [hpc] <;>
    rintro ((h | h | h | ⟨h, -⟩) | ⟨h, -⟩) <;> cases h

theorem not_holds_waiting {s : State F A} {f : F} (hpc : s.pc f = .blocked ∨ s.pc f = .waitingKey)
    (hstate : (s.scheduler.fiber f).fiber_state = .Waiting) : ¬Holds s f := by
  unfold Holds InternalCriticalSection.Holds
  rw [hstate]
  rcases hpc with hpc | hpc <;> rw [hpc] <;>
    rintro ((h | h | h | ⟨-, h⟩) | ⟨h', h⟩) <;> first | exact h rfl | cases h

theorem holds_woken {s : State F A} {f : F} (hpc : s.pc f = .blocked ∨ s.pc f = .waitingKey)
    (hstate : (s.scheduler.fiber f).fiber_state ≠ .Waiting) : Holds s f := by
  rcases hpc with hpc | hpc
  · exact Or.inl (Or.inr (Or.inr (Or.inr ⟨hpc, hstate⟩)))
  · exact Or.inr ⟨hpc, hstate⟩

namespace NamesHolder

variable {s s' : State F A}

theorem owner_iff (h : NamesHolder T m_handle s) (f : F) :
    owner (s.word m_handle) = T.handle f ↔ Holds s f := by
  rcases h with ⟨hzero, hnone⟩ | ⟨g, hg, hholds⟩
  · rw [hzero]
    exact ⟨fun heq => absurd heq.symm (T.handle_form f).2, fun hf => absurd hf (hnone f)⟩
  · rw [hg, hholds f]
    exact ⟨fun heq => (T.handle_injective heq).symm, fun heq => by rw [heq]⟩

theorem none_of_zero (h : NamesHolder T m_handle s) (hzero : owner (s.word m_handle) = 0) (f : F) :
    ¬Holds s f := by
  intro hf
  have howner := (h.owner_iff f).mpr hf
  rw [hzero] at howner
  exact (T.handle_form f).2 howner.symm

theorem only (h : NamesHolder T m_handle s) {f g : F} (hf : Holds s f) (hg : Holds s g) :
    g = f := by
  have howner := (h.owner_iff f).mpr hf
  rw [(h.owner_iff g).mpr hg] at howner
  exact T.handle_injective howner

theorem same (h : NamesHolder T m_handle s)
    (howner : owner (s'.word m_handle) = owner (s.word m_handle))
    (hholds : ∀ f, Holds s' f ↔ Holds s f) : NamesHolder T m_handle s' := by
  unfold NamesHolder
  rw [howner]
  apply h.imp
  · rintro ⟨hzero, hnone⟩
    exact ⟨hzero, fun f hf => hnone f ((hholds f).mp hf)⟩
  · rintro ⟨f, hf, honly⟩
    exact ⟨f, hf, fun g => (hholds g).trans (honly g)⟩

theorem give {f : F} (hword : owner (s'.word m_handle) = T.handle f) (hf : Holds s' f)
    (hothers : ∀ g, g ≠ f → ¬Holds s' g) : NamesHolder T m_handle s' := by
  right
  refine ⟨f, hword, fun g => ⟨fun hg => ?_, fun hg => hg ▸ hf⟩⟩
  by_contra hne
  exact hothers g hne hg

end NamesHolder

structure Parked (T : FiberTable F) (m_handle : A) (s : State F A) (f : F) : Prop where
  pc : s.pc f = .blocked ∨ s.pc f = .waitingKey
  fiber_state : (s.scheduler.fiber f).fiber_state = .Waiting
  lock_address : (s.scheduler.fiber f).lock_address = some m_handle
  wait_tag : (s.scheduler.fiber f).wait_tag = T.handle f
  waitable_object : (s.scheduler.fiber f).waitable_object = some .LockArbiter ∨
    (s.scheduler.fiber f).waitable_object = some .KeyArbiter

theorem Parked.congr {s s' : State F A} {f : F} (h : Parked T m_handle s f)
    (hpc : s'.pc f = s.pc f) (hfiber : s'.scheduler.fiber f = s.scheduler.fiber f) :
    Parked T m_handle s' f := by
  constructor
  · rw [hpc]
    exact h.pc
  · rw [hfiber]
    exact h.fiber_state
  · rw [hfiber]
    exact h.lock_address
  · rw [hfiber]
    exact h.wait_tag
  · rw [hfiber]
    exact h.waitable_object

theorem Parked.not_holds {s : State F A} {f : F} (h : Parked T m_handle s f) : ¬Holds s f :=
  not_holds_waiting h.pc h.fiber_state

structure Invariant (T : FiberTable F) (m_handle : A) (s : State F A) (c : WaitList F → List F) :
    Prop where
  lists : Lists s.scheduler.links c (Parked T m_handle s)
  names : NamesHolder T m_handle s

structure Others (s s' : State F A) (f : F) : Prop where
  pc : ∀ g, g ≠ f → s'.pc g = s.pc g
  fiber : ∀ g, g ≠ f → s'.scheduler.fiber g = s.scheduler.fiber g

namespace Others

variable {s s' : State F A} {f : F}

theorem holds (h : Others s s' f) {g : F} (hg : g ≠ f) : Holds s' g ↔ Holds s g := by
  apply holds_congr
  · exact h.pc g hg
  · rw [h.fiber g hg]

theorem parked (h : Others s s' f) {g : F} (hg : g ≠ f) (hp : Parked T m_handle s g) :
    Parked T m_handle s' g :=
  hp.congr (h.pc g hg) (h.fiber g hg)

theorem same_holds (h : Others s s' f) (hf : Holds s' f ↔ Holds s f) (g : F) :
    Holds s' g ↔ Holds s g := by
  by_cases hg : g = f
  · rw [hg]
    exact hf
  · exact h.holds hg

end Others

namespace Invariant

variable {s s' : State F A} {c : WaitList F → List F} {f : F}

theorem unlisted (h : Invariant T m_handle s c) (ho : Others s s' f)
    (hlinks : s'.scheduler.links = s.scheduler.links) (hnot : ¬Parked T m_handle s f)
    (hnames : NamesHolder T m_handle s') : Invariant T m_handle s' c where
  lists := by
    rw [hlinks]
    apply h.lists.mono
    intro g hg
    have hgf : g ≠ f := by
      rintro rfl
      exact hnot hg
    exact ho.parked hgf hg
  names := hnames

end Invariant

theorem not_parked {s : State F A} {f : F} (hpc : s.pc f ≠ .blocked ∧ s.pc f ≠ .waitingKey) :
    ¬Parked T m_handle s f := by
  intro h
  rcases h.pc with hf | hf
  · exact hpc.1 hf
  · exact hpc.2 hf

section Steps

variable [DecidableEq F]

theorem goto_self (s : State F A) (f : F) (pc : Pc) : (s.goto f pc).pc f = pc :=
  Function.update_self _ _ _

theorem goto_others (s : State F A) (f : F) (pc : Pc) : Others s (s.goto f pc) f where
  pc _ hg := Function.update_of_ne hg _ _
  fiber _ _ := rfl

namespace Invariant

variable {s : State F A} {c : WaitList F → List F} {f : F}

theorem goto (h : Invariant T m_handle s c) {pc : Pc} (hpc : s.pc f ≠ .blocked ∧ s.pc f ≠ .waitingKey)
    (hholds : Holds (s.goto f pc) f ↔ Holds s f) : Invariant T m_handle (s.goto f pc) c := by
  apply h.unlisted (goto_others s f pc) rfl (not_parked hpc)
  exact h.names.same rfl ((goto_others s f pc).same_holds hholds)

variable [DecidableEq A]

theorem setWord_word (s : State F A) (f : F) (value : BitVec 32) (pc : Pc) :
    ((s.setWord m_handle value).goto f pc).word m_handle = value :=
  Function.update_self _ _ _

theorem setWord_others (s : State F A) (f : F) (value : BitVec 32) (pc : Pc) :
    Others s ((s.setWord m_handle value).goto f pc) f where
  pc _ hg := Function.update_of_ne hg _ _
  fiber _ _ := rfl

theorem take (h : Invariant T m_handle s c) (hpc : s.pc f ≠ .blocked ∧ s.pc f ≠ .waitingKey)
    (hzero : s.word m_handle = 0) :
    Invariant T m_handle ((s.setWord m_handle (T.handle f)).goto f .inside) c := by
  have hothers : Others s ((s.setWord m_handle (T.handle f)).goto f .inside) f :=
    setWord_others s f _ _
  have hnone := h.names.none_of_zero (by rw [hzero, owner_zero])
  apply h.unlisted hothers rfl (not_parked hpc)
  apply NamesHolder.give (f := f)
  · rw [setWord_word, owner_handle]
  · exact Or.inl (Or.inl (goto_self _ f _))
  · intro g hg hholds
    exact hnone g ((hothers.holds hg).mp hholds)

theorem give (h : Invariant T m_handle s c) (hpc : s.pc f = .inside) :
    Invariant T m_handle ((s.setWord m_handle 0).goto f .outside) c := by
  have hothers : Others s ((s.setWord m_handle 0).goto f .outside) f := setWord_others s f _ _
  have hparked : ¬Parked T m_handle s f := by
    apply not_parked
    rw [hpc]
    exact ⟨Pc.noConfusion, Pc.noConfusion⟩
  apply h.unlisted hothers rfl hparked
  left
  constructor
  · rw [setWord_word, owner_zero]
  · intro g hg
    by_cases hgf : g = f
    · rw [hgf] at hg
      exact not_holds (Or.inl (goto_self _ f _)) hg
    · exact hgf (h.names.only (Or.inl (Or.inl hpc)) ((hothers.holds hgf).mp hg))

end Invariant

namespace Invariant

variable {s : State F A} {c : WaitList F → List F} {f : F}

theorem wake (h : Invariant T m_handle s c) (hpc : s.pc f = .blocked ∨ s.pc f = .waitingKey)
    (hstate : (s.scheduler.fiber f).fiber_state = .Scheduled) {pc : Pc}
    (hnext : pc = .recheck ∨ pc = .inside) :
    Invariant T m_handle
      ({ s with
          scheduler := s.scheduler.modify f fun x => { x with fiber_state := .Running } }.goto f pc)
      c := by
  have hwoken : (s.scheduler.fiber f).fiber_state ≠ .Waiting := by
    rw [hstate]
    exact FiberState.noConfusion
  have hothers : Others s
      ({ s with
          scheduler := s.scheduler.modify f fun x => { x with fiber_state := .Running } }.goto f pc)
      f := by
    constructor
    · intro g hg
      exact Function.update_of_ne hg _ _
    · intro g hg
      exact UserScheduler.modify_of_ne s.scheduler (fun x => { x with fiber_state := .Running }) hg
  apply h.unlisted hothers
  · rfl
  · intro hp
    exact hwoken hp.fiber_state
  · apply h.names.same
    · rfl
    apply hothers.same_holds
    refine ⟨fun _ => holds_woken hpc hwoken, fun _ => ?_⟩
    rcases hnext with rfl | rfl
    · exact Or.inl (Or.inr (Or.inr (Or.inl (goto_self _ _ _))))
    · exact Or.inl (Or.inl (goto_self _ _ _))

theorem recheck (h : Invariant T m_handle s c) (hpc : s.pc f = .recheck) :
    Invariant T m_handle (s.recheck T m_handle f) c := by
  have hholds : Holds s f := Or.inl (Or.inr (Or.inr (Or.inl hpc)))
  unfold State.recheck
  rw [if_pos ((h.names.owner_iff f).mpr hholds)]
  apply h.goto
  · rw [hpc]
    exact ⟨Pc.noConfusion, Pc.noConfusion⟩
  · exact ⟨fun _ => hholds, fun _ => Or.inl (Or.inl (goto_self _ _ _))⟩

variable [DecidableEq A]

theorem setWaitersBit (h : Invariant T m_handle s c) {handle : BitVec 32}
    (hpc : s.pc f = .announce handle) {pc : Pc}
    (hnext : pc = .acquire ∨ ∃ handle, pc = .arbitrate handle) :
    Invariant T m_handle
      ((s.setWord m_handle (s.word m_handle ||| HasChildWaitersBit)).goto f pc) c := by
  have hnot : ¬Holds s f := not_holds (Or.inr (Or.inr (Or.inl ⟨handle, hpc⟩)))
  apply h.unlisted (setWord_others s f _ _) rfl
  · apply not_parked
    rw [hpc]
    exact ⟨Pc.noConfusion, Pc.noConfusion⟩
  · apply h.names.same
    · rw [setWord_word, owner_or_bit]
    · apply (setWord_others s f _ _).same_holds
      refine ⟨fun hf => absurd hf (not_holds ?_), fun hf => absurd hf hnot⟩
      rw [goto_self]
      rcases hnext with rfl | ⟨handle, rfl⟩
      · exact Or.inr (Or.inl rfl)
      · exact Or.inr (Or.inr (Or.inr ⟨handle, rfl⟩))

theorem fetchOr (h : Invariant T m_handle s c) {handle : BitVec 32}
    (hpc : s.pc f = .announce handle) : Invariant T m_handle (s.fetchOr m_handle f handle) c := by
  unfold State.fetchOr
  apply h.setWaitersBit hpc
  split
  · exact Or.inl rfl
  · exact Or.inr ⟨handle, rfl⟩

theorem compareExchange (h : Invariant T m_handle s c) (hpc : s.pc f = .acquire) :
    Invariant T m_handle (s.compareExchange T m_handle f) c := by
  have hpcs : s.pc f ≠ .blocked ∧ s.pc f ≠ .waitingKey := by
    rw [hpc]
    exact ⟨Pc.noConfusion, Pc.noConfusion⟩
  have hnot : ¬Holds s f := not_holds (Or.inr (Or.inl hpc))
  unfold State.compareExchange
  split
  · rename_i hzero
    exact h.take hpcs hzero
  · split
    · apply h.goto hpcs
      refine ⟨fun hf => absurd hf (not_holds ?_), fun hf => absurd hf hnot⟩
      exact Or.inr (Or.inr (Or.inl ⟨_, goto_self _ _ _⟩))
    · apply h.goto hpcs
      refine ⟨fun hf => absurd hf (not_holds ?_), fun hf => absurd hf hnot⟩
      exact Or.inr (Or.inr (Or.inr ⟨_, goto_self _ _ _⟩))

theorem leave (h : Invariant T m_handle s c) (hpc : s.pc f = .inside) :
    Invariant T m_handle (s.leave T m_handle f) c := by
  unfold State.leave
  split
  · exact h.give hpc
  · apply h.goto
    · rw [hpc]
      exact ⟨Pc.noConfusion, Pc.noConfusion⟩
    · exact ⟨fun _ => Or.inl (Or.inl hpc), fun _ => Or.inl (Or.inr (Or.inl (goto_self _ _ _)))⟩

end Invariant

end Steps

section SchedulerCalls

theorem Invariant.congr {s s' : State F A} {c : WaitList F → List F} (h : Invariant T m_handle s c)
    (hscheduler : s'.scheduler = s.scheduler) (hpc : s'.pc = s.pc) : Invariant T m_handle s' c := by
  obtain ⟨scheduler, pc, waiting⟩ := s
  obtain ⟨scheduler', pc', waiting'⟩ := s'
  obtain rfl : scheduler' = scheduler := hscheduler
  obtain rfl : pc' = pc := hpc
  refine ⟨h.lists.mono fun f hf => ?_, h.names⟩
  exact hf.congr rfl rfl

variable {s s' : State F A} {c c' : WaitList F → List F} {f : F}

theorem granted (hnone : ∀ g, ¬Holds s g) (hf : Parked T m_handle s f) (hpc : s'.pc = s.pc)
    (hlists : Lists s'.scheduler.links c fun g => Parked T m_handle s g ∧ g ≠ f)
    (hword : s'.word m_handle = T.handle f)
    (hfiber : ∀ g, g ≠ f → s'.scheduler.fiber g = s.scheduler.fiber g)
    (hstate : (s'.scheduler.fiber f).fiber_state ≠ .Waiting) : Invariant T m_handle s' c := by
  have ho : Others s s' f := ⟨fun g _ => congrFun hpc g, hfiber⟩
  constructor
  · apply hlists.mono
    rintro g ⟨hg, hgf⟩
    exact ho.parked hgf hg
  · apply NamesHolder.give (f := f)
    · rw [hword, owner_handle]
    · apply holds_woken _ hstate
      rw [hpc]
      exact hf.pc
    · intro g hg hholds
      exact hnone g ((ho.holds hg).mp hholds)

variable [DecidableEq F]

theorem Invariant.park (h : Invariant T m_handle s c) (hlisted : ¬Parked T m_handle s f)
    (hholds : ¬Holds s f) (ho : Others s s' f) {list : WaitList F} (hlist : list ≠ .of f)
    (hlinks : s'.scheduler.links = s.scheduler.links.linkPrev (.inl list) (.inr f))
    (hword : s'.word m_handle = s.word m_handle) (hparked : Parked T m_handle s' f) :
    Invariant T m_handle s' (Function.update c list (c list ++ [f])) where
  lists := by
    rw [hlinks]
    apply (h.lists.pushBack hlisted hlist).mono
    rintro g (hg | rfl)
    · have hgf : g ≠ f := by
        rintro rfl
        exact hlisted hg
      exact ho.parked hgf hg
    · exact hparked
  names := by
    apply h.names.same
    · rw [hword]
    · apply ho.same_holds
      exact ⟨fun hf => absurd hf hparked.not_holds, fun hf => absurd hf hholds⟩

variable [DecidableEq A]

omit [DecidableEq A] in
theorem Invariant.arbitrateLock (h : Invariant T m_handle s c) {handle : BitVec 32}
    (hpc : s.pc f = .arbitrate handle)
    (hok : ∀ g, (s.arbitrateLock T m_handle f handle).pc g ≠ .aborted) :
    ∃ c', Invariant T m_handle (s.arbitrateLock T m_handle f handle) c' := by
  have hnot : ¬Parked T m_handle s f := by
    apply not_parked
    rw [hpc]
    exact ⟨Pc.noConfusion, Pc.noConfusion⟩
  have hholds : ¬Holds s f := not_holds (Or.inr (Or.inr (Or.inr ⟨handle, hpc⟩)))
  unfold State.arbitrateLock at hok ⊢
  split at hok
  · exact absurd (goto_self _ _ _) (hok f)
  · rename_i scheduler hs
    obtain ⟨g, -, hg, rfl⟩ := UserScheduler.arbitrateLockImpl_ok hs
    have hlist : (.of g : WaitList F) ≠ .of f := fun heq => hg (WaitList.of.inj heq)
    refine ⟨_, h.park hnot hholds ?_ hlist rfl rfl ?_⟩
    · constructor
      · intro k hk
        exact Function.update_of_ne hk _ _
      · intro k hk
        exact UserScheduler.modify_of_ne s.scheduler
          (UserScheduler.waitForLock · m_handle (T.handle f)) hk
    · have hself := UserScheduler.modify_self s.scheduler f
        (UserScheduler.waitForLock · m_handle (T.handle f))
      constructor
      · exact Or.inl (goto_self _ _ _)
      all_goals
        dsimp only
        rw [UserScheduler.pushBack_fiber, hself]
      · rfl
      · rfl
      · rfl
      · exact Or.inl rfl

theorem Invariant.release (h : Invariant T m_handle s c) {fuel : ℕ} {scheduler : UserScheduler F A}
    (hf : s.pc f = .inside ∨ s.pc f = .release)
    (hs : s.scheduler.releaseLockWaitListUnsafe fuel f = some scheduler) :
    ∃ c', Invariant T m_handle ({ s with scheduler := scheduler }.goto f .outside) c' := by
  obtain ⟨g, a, -, hg, hgf, ha, rfl⟩ := h.lists.release_some hs
  obtain rfl : a = m_handle := by
    rw [hg.lock_address] at ha
    exact (Option.some.inj ha).symm
  have hholds : Holds s f := Or.inl (hf.imp id Or.inl)
  have ho := goto_others s f .outside
  have hgout : Parked T a (s.goto f .outside) g := ho.parked hgf hg
  have hlists := h.lists.unlink g
  refine ⟨_, granted (s := s.goto f .outside) (f := g) ?_ hgout rfl (hlists.mono ?_) ?_ ?_ ?_⟩
  · intro k hk
    by_cases hkf : k = f
    · rw [hkf] at hk
      exact not_holds (Or.inl (goto_self _ _ _)) hk
    · exact hkf (h.names.only hholds ((ho.holds hkf).mp hk))
  · rintro k ⟨hk, hkg⟩
    refine ⟨ho.parked ?_ hk, hkg⟩
    rintro rfl
    exact hk.not_holds hholds
  · exact (Function.update_self _ _ _).trans hg.wait_tag
  · intro k hk
    exact Function.update_of_ne hk _ _
  · change ((s.scheduler.handedOver g a).fiber g).fiber_state ≠ _
    rw [UserScheduler.handedOver_self]
    exact FiberLocalStorage.endWait_not_waiting _ _

theorem Invariant.lock (h : Invariant T m_handle s c) {e : InternalCriticalSection.Event F}
    (hstep : InternalCriticalSection.Step T m_handle s e s')
    (hok : ∀ f, s'.pc f ≠ .aborted ∧ s'.pc f ≠ .stuck) : ∃ c', Invariant T m_handle s' c' := by
  cases hstep with
  | @enter f hpc =>
    refine ⟨c, h.goto ?_ ?_⟩
    · rw [hpc]
      exact ⟨Pc.noConfusion, Pc.noConfusion⟩
    · have hbefore : ¬Holds s f := not_holds (Or.inl hpc)
      refine ⟨fun hf => absurd hf (not_holds ?_), fun hf => absurd hf hbefore⟩
      exact Or.inr (Or.inl (goto_self _ _ _))
  | @tryEnter f hpc =>
    refine ⟨c, ?_⟩
    unfold State.tryEnter
    split
    · rename_i hzero
      apply h.take _ hzero
      rw [hpc]
      exact ⟨Pc.noConfusion, Pc.noConfusion⟩
    · exact h
  | compareExchange hpc => exact ⟨c, h.compareExchange hpc⟩
  | fetchOr hpc => exact ⟨c, h.fetchOr hpc⟩
  | arbitrateLock hpc => exact h.arbitrateLock hpc fun g => (hok g).1
  | @resume f hpc hstate =>
    refine ⟨c, ?_⟩
    unfold State.resume at hok ⊢
    split
    · exact h.wake (Or.inl hpc) hstate (Or.inl rfl)
    · rename_i hresult
      exfalso
      rw [if_neg hresult] at hok
      exact (hok f).1 (goto_self _ _ _)
  | recheck hpc => exact ⟨c, h.recheck hpc⟩
  | leave hpc => exact ⟨c, h.leave hpc⟩
  | unlock hpc hs =>
    obtain ⟨c', hc'⟩ := h.release (Or.inr hpc) (UserScheduler.arbitrateUnlockImpl_ok hs)
    exact ⟨c', hc'.congr rfl rfl⟩
  | unlockFails => exact absurd (goto_self _ _ _) (hok _).1
  | unlockDiverges => exact absurd (goto_self _ _ _) (hok _).2

theorem joinKey_some {s s' : UserScheduler F A} {fuel : ℕ} {cv_key : A} {P : F → Prop}
    (h : Lists s.links c P) (hf : ¬P f) (hs : s.joinKey fuel cv_key f = some s') :
    ∃ list, list ≠ .of f ∧ s' = s.pushBack list f := by
  have hnot := h.not_listed hf
  obtain ⟨parent, hparent, heq⟩ := UserScheduler.joinKey_eq h.represents hnot hs
  refine ⟨_, ?_, heq⟩
  have hfind := UserScheduler.findWaitAddress_some h.represents hparent
  cases parent with
  | none => nofun
  | some p =>
    have hp : p ∈ c .scheduler := List.mem_of_find?_eq_some hfind.symm
    intro hpf
    rw [WaitList.of.inj hpf] at hp
    exact hnot _ hp

omit [DecidableEq F] in
theorem Invariant.setOther (h : Invariant T m_handle s c) {a : A} (ha : a ≠ m_handle)
    (value : BitVec 32) :
    Invariant T m_handle { s with scheduler := s.scheduler.setWord a value } c where
  lists := h.lists.mono fun _ hf => hf.congr rfl rfl
  names := by
    apply h.names.same
    · have hword : (s.scheduler.setWord a value).word m_handle = s.scheduler.word m_handle :=
        UserScheduler.setWord_of_ne _ _ ha.symm
      exact congrArg owner hword
    · exact fun _ => Iff.rfl

theorem Invariant.unlockKey (h : Invariant T m_handle s c) (hf : s.pc f = .inside) {fuel : ℕ}
    {scheduler : UserScheduler F A}
    (hs : s.scheduler.releaseLock fuel f m_handle = some scheduler) :
    ∃ c', Invariant T m_handle ({ s with scheduler := scheduler }.goto f .outside) c' := by
  unfold UserScheduler.releaseLock at hs
  split at hs
  · obtain rfl := Option.some.inj hs
    exact ⟨c, (h.give hf).congr rfl rfl⟩
  · exact h.release (Or.inl hf) hs

theorem Invariant.waitKey (h : Invariant T m_handle s c) (hf : s.pc f = .inside) {cv_key : A}
    (hkey : cv_key ≠ m_handle) {fuel : ℕ} {absolute_timeout : BitVec 64} {result : Result}
    {scheduler : UserScheduler F A}
    (hs : s.scheduler.waitKeyImpl T fuel f (some m_handle) (some cv_key) (T.handle f)
      absolute_timeout = some (.ok (result, scheduler))) :
    ∃ c', Invariant T m_handle
      ({ s with scheduler := scheduler }.goto f
        (if result = Result.Success then .waitingKey else .outside)) c' := by
  unfold UserScheduler.waitKeyImpl at hs
  dsimp only at hs
  split at hs
  · cases hs
  obtain ⟨released, hreleased, hs⟩ := Option.bind_eq_some_iff.mp hs
  obtain ⟨c₁, h₁⟩ := h.unlockKey hf hreleased
  have h₂ := h₁.setOther hkey 1
  split at hs
  · cases hs
    exact ⟨c₁, h₂.congr rfl rfl⟩
  · obtain ⟨joined, hjoined, hs⟩ := Option.bind_eq_some_iff.mp hs
    cases hs
    have hnot : ¬Parked T m_handle
        ({ s with scheduler := released.setWord cv_key 1 }.goto f .outside) f := by
      apply not_parked
      rw [goto_self]
      exact ⟨Pc.noConfusion, Pc.noConfusion⟩
    have hlists : Lists ((released.setWord cv_key 1).modify f
        (UserScheduler.waitForKey · m_handle cv_key (T.handle f) absolute_timeout)).links c₁ _ :=
      h₂.lists
    obtain ⟨list, hlist, rfl⟩ := joinKey_some hlists hnot hjoined
    have hself := UserScheduler.modify_self (released.setWord cv_key 1) f
      (UserScheduler.waitForKey · m_handle cv_key (T.handle f) absolute_timeout)
    refine ⟨_, h₂.park hnot (not_holds (Or.inl (goto_self _ _ _))) ?_ hlist rfl rfl ?_⟩
    · constructor
      · intro k hk
        exact (Function.update_of_ne hk _ _).trans (Function.update_of_ne hk _ _).symm
      · intro k hk
        exact UserScheduler.modify_of_ne (released.setWord cv_key 1)
          (UserScheduler.waitForKey · m_handle cv_key (T.handle f) absolute_timeout) hk
    · constructor
      · exact Or.inr (goto_self _ _ _)
      · exact congrArg FiberLocalStorage.fiber_state hself
      · exact congrArg FiberLocalStorage.lock_address hself
      · exact congrArg FiberLocalStorage.wait_tag hself
      · exact Or.inr (congrArg FiberLocalStorage.waitable_object hself)

theorem transfer_cases (hnames : NamesHolder T m_handle s) (hf : Parked T m_handle s f)
    (hlists : Lists s.scheduler.links c fun g => Parked T m_handle s g ∧ g ≠ f) {taken : Bool}
    {scheduler : UserScheduler F A}
    (hs : s.scheduler.transferFiberForSignalKey T f = some (taken, scheduler)) :
    (taken = false ∧ scheduler.word m_handle ≠ 0 ∧ ∃ o c',
        Invariant T m_handle { s with scheduler := scheduler } c' ∧
          scheduler.links.next (.inr f) = .inl (.of o)) ∨
      (taken = true ∧ s.word m_handle = 0 ∧
        scheduler = s.scheduler.setWord m_handle (T.handle f)) := by
  unfold UserScheduler.transferFiberForSignalKey at hs
  rw [hf.lock_address] at hs
  dsimp only at hs
  split at hs
  · rename_i hword
    left
    split at hs
    · cases hs
    · rename_i o ho
      cases hs
      have howner := (T.getFiberByHandle_eq_some.mp ho).symm
      have hof : f ≠ o := by
        rintro rfl
        exact hf.not_holds ((hnames.owner_iff f).mp howner)
      have hlist : (.of o : WaitList F) ≠ .of f := fun heq => hof (WaitList.of.inj heq).symm
      have hpush := hlists.pushBack (fun hff => hff.2 rfl) hlist
      have hbit : ((s.scheduler.setWord m_handle
          (s.scheduler.word m_handle ||| HasChildWaitersBit)).pushBack (.of o) f).word m_handle =
          s.word m_handle ||| HasChildWaitersBit := UserScheduler.setWord_self _ _ _
      refine ⟨rfl, ?_, o, _, ⟨hpush.mono ?_, ?_⟩, ?_⟩
      · rw [hbit]
        intro hzero
        apply (T.handle_form o).2
        rw [← howner]
        change owner (s.word m_handle) = 0
        rw [← owner_or_bit, hzero, owner_zero]
      · rintro g (hg | rfl)
        · exact hg.1.congr rfl rfl
        · exact hf.congr rfl rfl
      · apply hnames.same
        · change owner (((s.scheduler.setWord m_handle _).pushBack (.of o) f).word m_handle) = _
          rw [hbit, owner_or_bit]
        · exact fun _ => Iff.rfl
      · exact hpush.represents.next_elem (Function.update_self _ _ _)
  · rename_i hword
    right
    cases hs
    rw [hf.wait_tag]
    exact ⟨rfl, not_not.mp hword, rfl⟩

theorem Invariant.signalParent (h : Invariant T m_handle s c) (hf : Parked T m_handle s f)
    {scheduler : UserScheduler F A} (hs : s.scheduler.signalParent T f = some scheduler) :
    scheduler.word m_handle ≠ 0 ∧
      ∃ c', Invariant T m_handle { s with scheduler := scheduler } c' := by
  unfold UserScheduler.signalParent at hs
  obtain ⟨⟨taken, transferred⟩, htransfer, hs⟩ := Option.bind_eq_some_iff.mp hs
  dsimp only at hs
  have hunlinked := h.lists.unlink f
  have hcases := transfer_cases (s := { s with scheduler := s.scheduler.unlink f }) (f := f)
    (h.names.same rfl fun _ => Iff.rfl) (hf.congr rfl rfl)
    (hunlinked.mono fun g hg => ⟨hg.1.congr rfl rfl, hg.2⟩) htransfer
  rcases hcases with ⟨rfl, hword, o, c', hinv, -⟩ | ⟨rfl, hzero, rfl⟩
  · obtain rfl := Option.some.inj hs
    exact ⟨hword, c', hinv.congr rfl rfl⟩
  · rw [if_pos rfl] at hs
    have hended := UserScheduler.endWaitAndClear_waitEnded hs
    have hnone := h.names.none_of_zero (by
      rw [show s.word m_handle = 0 from hzero, owner_zero])
    have hnamed : scheduler.word m_handle = T.handle f := by
      rw [hended.word]
      exact UserScheduler.setWord_self _ _ _
    have hlists : Lists scheduler.links (fun list => ((c list).erase f).erase f)
        fun g => Parked T m_handle s g ∧ g ≠ f := by
      rw [hended.links]
      exact (hunlinked.unlink f).mono fun g hg => hg.1
    constructor
    · rw [hnamed]
      exact (T.handle_form f).2
    · exact ⟨_, granted hnone hf rfl hlists hnamed hended.fiber hended.fiber_state⟩

theorem Invariant.signalChildren (h : Invariant T m_handle s c) (hword : s.word m_handle ≠ 0)
    {fuel signal_count : ℕ} {scheduler : UserScheduler F A}
    (hs : s.scheduler.signalChildren T (.inl (.of f)) signal_count fuel 1
      (s.scheduler.links.next (.inl (.of f))) = some scheduler) :
    ∃ c', Invariant T m_handle { s with scheduler := scheduler } c' := by
  cases fuel with
  | zero => cases hs
  | succ fuel =>
    rw [h.lists.represents.next_head] at hs
    cases hc : c (.of f) with
    | nil =>
      rw [hc] at hs
      unfold UserScheduler.signalChildren at hs
      rw [List.head?_nil, Option.map_none, Option.getD_none, if_pos rfl] at hs
      obtain rfl := Option.some.inj hs
      exact ⟨c, h⟩
    | cons g rest =>
      have hg : Parked T m_handle s g := h.lists.listed (.of f) g (by rw [hc]; exact List.mem_cons_self)
      rw [hc, List.head?_cons, Option.map_some, Option.getD_some] at hs
      unfold UserScheduler.signalChildren at hs
      rw [if_neg Sum.inr_ne_inl] at hs
      split at hs
      · obtain rfl := Option.some.inj hs
        exact ⟨c, h⟩
      · dsimp only at hs
        obtain ⟨⟨taken, transferred⟩, htransfer, hs⟩ := Option.bind_eq_some_iff.mp hs
        dsimp only at hs
        have hunlinked := h.lists.unlink g
        have hcases := transfer_cases (s := { s with scheduler := s.scheduler.unlink g }) (f := g)
          (h.names.same rfl fun _ => Iff.rfl) (hg.congr rfl rfl)
          (hunlinked.mono fun k hk => ⟨hk.1.congr rfl rfl, hk.2⟩) htransfer
        rcases hcases with ⟨-, -, o, c', hinv, hnext⟩ | ⟨-, hzero, -⟩
        · refine ⟨c', ?_⟩
          rw [hnext] at hs
          cases fuel with
          | zero => cases hs
          | succ fuel =>
            unfold UserScheduler.signalChildren at hs
            split at hs
            · obtain rfl := Option.some.inj hs
              exact hinv.congr rfl rfl
            · split at hs
              · obtain rfl := Option.some.inj hs
                exact hinv.congr rfl rfl
              · cases hs
        · exact absurd hzero hword

theorem Invariant.signalKey (h : Invariant T m_handle s c) {cv_key : A} (hkey : cv_key ≠ m_handle)
    {fuel : ℕ} {signal_count : BitVec 32} {r : Except Result (UserScheduler F A)}
    (hs : s.scheduler.signalKeyImpl T fuel (some cv_key) signal_count = some r) :
    ∃ c', Invariant T m_handle (afterSignal s r) c' := by
  unfold UserScheduler.signalKeyImpl at hs
  dsimp only at hs
  split at hs
  · obtain rfl := Option.some.inj hs
    exact ⟨c, (h.setOther hkey 0).congr rfl rfl⟩
  · split at hs
    · cases hs
    · obtain rfl := Option.some.inj hs
      exact ⟨c, h⟩
    · rename_i p hfind
      have hp : p ∈ c .scheduler :=
        List.mem_of_find?_eq_some (UserScheduler.findWaitAddress_some h.lists.represents hfind).symm
      obtain ⟨parent, hparent, hs⟩ := Option.bind_eq_some_iff.mp hs
      obtain ⟨children, hchildren, hs⟩ := Option.bind_eq_some_iff.mp hs
      obtain rfl := Option.some.inj hs
      obtain ⟨hword, c₁, h₁⟩ := h.signalParent (h.lists.listed _ p hp) hparent
      obtain ⟨c₂, h₂⟩ := h₁.signalChildren hword hchildren
      exact ⟨c₂, (h₂.setOther hkey 0).congr rfl rfl⟩

theorem takeLockBack_some {s s' : UserScheduler F A} {f : F} {r : Result} {a : A}
    (h : s.takeLockBack T f r = some s') (ha : (s.fiber f).lock_address = some a)
    (hused : s.word a ≠ 0) :
    ∃ o, T.getFiberByHandle (owner (s.word a)) = some o ∧
      s'.word a = (s.fiber f).wait_tag ||| HasChildWaitersBit ∧
      (s'.fiber o).fiber_state = .Suspended := by
  unfold UserScheduler.takeLockBack at h
  rw [ha] at h
  dsimp only at h
  rw [if_pos hused, if_pos hused] at h
  split at h
  · cases h
  · rename_i o ho
    obtain rfl := Option.some.inj h
    refine ⟨o, ho, UserScheduler.setWord_self _ _ _, ?_⟩
    rw [UserScheduler.modify_self]

theorem takeLockBack_free (hnames : NamesHolder T m_handle s) (hf : Parked T m_handle s f)
    (hzero : s.word m_handle = 0) {P : F → Prop} (hP : ∀ g, P g → Parked T m_handle s g)
    (hlists : Lists s.scheduler.links c P) {scheduler : UserScheduler F A}
    (hs : s.scheduler.takeLockBack T f .Timeout = some scheduler) :
    ∃ c', Invariant T m_handle { s with scheduler := scheduler } c' := by
  have hnot : ¬s.scheduler.word m_handle ≠ 0 := not_not.mpr hzero
  unfold UserScheduler.takeLockBack at hs
  rw [hf.lock_address, hf.wait_tag] at hs
  dsimp only at hs
  rw [if_neg hnot, if_neg hnot] at hs
  obtain rfl := Option.some.inj hs
  have hended := UserScheduler.endFiberWaitImpl_waitEnded
    (s.scheduler.setWord m_handle (T.handle f)) f .Timeout
  have hnone := hnames.none_of_zero (by rw [hzero, owner_zero])
  refine ⟨_, granted hnone hf rfl ((hlists.unlink f).mono ?_) ?_ hended.fiber hended.fiber_state⟩
  · exact fun g hg => ⟨hP g hg.1, hg.2⟩
  · exact UserScheduler.setWord_self _ _ _

theorem takeLockBack_used (hnames : NamesHolder T m_handle s) (hf : Parked T m_handle s f)
    (hused : s.word m_handle ≠ 0) {scheduler : UserScheduler F A}
    (hs : s.scheduler.takeLockBack T f .Timeout = some scheduler) :
    ¬NamesHolder T m_handle { s with scheduler := scheduler } := by
  obtain ⟨o, ho, hword, hstate⟩ := takeLockBack_some hs hf.lock_address hused
  have hholds := (hnames.owner_iff o).mp (T.getFiberByHandle_eq_some.mp ho).symm
  have hof : f ≠ o := by
    rintro rfl
    exact hf.not_holds hholds
  intro hnames'
  have hnot : (scheduler.fiber o).fiber_state ≠ .Waiting := by
    rw [hstate]
    exact FiberState.noConfusion
  have hkept : Holds { s with scheduler := scheduler } o := by
    rcases hholds with (h | h | h | ⟨h, -⟩) | ⟨h, -⟩
    · exact Or.inl (Or.inl h)
    · exact Or.inl (Or.inr (Or.inl h))
    · exact Or.inl (Or.inr (Or.inr (Or.inl h)))
    · exact Or.inl (Or.inr (Or.inr (Or.inr ⟨h, hnot⟩)))
    · exact Or.inr ⟨h, hnot⟩
  have howner := (hnames'.owner_iff o).mpr hkept
  change owner (scheduler.word m_handle) = _ at howner
  rw [hword, hf.wait_tag, owner_handle_or_bit] at howner
  exact hof (T.handle_injective howner)

theorem cancelKey (h : Invariant T m_handle s c) (hf : f ∈ c .scheduler) {fuel : ℕ}
    {scheduler : UserScheduler F A}
    (hs : s.scheduler.cancelWait T fuel f .Timeout .KeyArbiter = some scheduler) :
    ∃ links c' P, Lists links c' P ∧ (∀ g, P g → Parked T m_handle s g) ∧
      { s.scheduler with links := links }.takeLockBack T f .Timeout = some scheduler := by
  unfold UserScheduler.cancelWait at hs
  dsimp only at hs
  split at hs
  · rename_i hempty
    obtain ⟨⟨parent, promoted⟩, hpromote, hs⟩ := Option.bind_eq_some_iff.mp hs
    cases hc : c (.of f) with
    | nil =>
      rw [UserScheduler.promote_nil h.lists.represents hc] at hpromote
      cases hpromote
    | cons p rest =>
      have hp : p ∈ c (.of f) := by
        rw [hc]
        exact List.mem_cons_self
      rcases UserScheduler.promote_cases h.lists.represents hc (h.lists.head_ne hp) fuel with
        ⟨links, hlinks, hrep⟩ | ⟨-, hnone⟩
      · rw [hlinks] at hpromote
        cases hpromote
        exact ⟨links, _, _, h.lists.promoted hc hrep, fun g hg => hg.1, hs⟩
      · rw [hnone] at hpromote
        cases hpromote
  · split at hs
    · exact ⟨_, _, _, h.lists.unlink f, fun g hg => hg.1, hs⟩
    · rename_i hlinked
      exact absurd ((h.lists.represents.isLinked_elem f).mpr ⟨_, hf⟩) hlinked

theorem Invariant.timeout (h : Invariant T m_handle s c) (hf : s.scheduler.InWaitList f)
    {core_number fuel : ℕ} {tick : BitVec 64} {scheduler : UserScheduler F A}
    (hs : s.scheduler.isSchedulable T fuel f core_number tick = some scheduler) :
    ((∃ c', Invariant T m_handle { s with scheduler := scheduler } c') ∧
        Met m_handle s (.timeout f core_number tick)) ∨
      (¬NamesHolder T m_handle { s with scheduler := scheduler } ∧
        ¬Met m_handle s (.timeout f core_number tick)) := by
  have hmem := (UserScheduler.inWaitList_iff h.lists.represents).mp hf
  have hparked := h.lists.listed _ f hmem
  unfold UserScheduler.isSchedulable at hs
  split at hs
  · rename_i hcore
    left
    obtain rfl := Option.some.inj hs
    exact ⟨⟨c, h⟩, fun htimes => absurd hcore htimes.1⟩
  · rename_i hcore
    rcases hparked.waitable_object with hobject | hobject
    all_goals
      rw [hobject] at hs
      dsimp only at hs
      split at hs
    · cases hs
    · rename_i hlate
      left
      obtain rfl := Option.some.inj hs
      exact ⟨⟨c, h⟩, fun htimes => absurd htimes.2 hlate⟩
    · rename_i hlate
      obtain ⟨links, c', P, hlists, hP, htake⟩ := cancelKey h hmem hs
      have hnames : NamesHolder T m_handle { s with scheduler := { s.scheduler with links := links } } :=
        h.names
      have hparked' : Parked T m_handle
          { s with scheduler := { s.scheduler with links := links } } f := hparked.congr rfl rfl
      by_cases hzero : s.word m_handle = 0
      · left
        exact ⟨takeLockBack_free hnames hparked' hzero (fun g hg => (hP g hg).congr rfl rfl) hlists
          htake, fun _ _ => hzero⟩
      · right
        exact ⟨takeLockBack_used hnames hparked' hzero htake,
          fun hmet => hzero (hmet ⟨hcore, hlate⟩ hobject)⟩
    · rename_i hlate
      left
      obtain rfl := Option.some.inj hs
      exact ⟨⟨c, h⟩, fun htimes => absurd htimes.2 hlate⟩

end SchedulerCalls

theorem Invariant.start {s : State F A} (h : Start m_handle s) :
    Invariant T m_handle s (fun _ => []) where
  lists :=
    { represents := by
        rw [h.links]
        exact Links.represents_alone
      listed := fun _ _ hf => absurd hf List.not_mem_nil
      foreign := fun _ hf => absurd hf List.not_mem_nil }
  names := by
    left
    constructor
    · rw [h.word, owner_zero]
    · exact fun f => not_holds (Or.inl (h.outside f))

variable [DecidableEq F] [DecidableEq A]

theorem Invariant.step {s s' : State F A} {c : WaitList F → List F} (h : Invariant T m_handle s c)
    {e : Event F A} (hstep : Step T m_handle s e s') :
    ((∃ c', Invariant T m_handle s' c') ∧ Met m_handle s e) ∨
      (¬NamesHolder T m_handle s' ∧ ¬Met m_handle s e) := by
  cases hstep with
  | lock hlock hok => exact Or.inl ⟨h.lock hlock hok, trivial⟩
  | waitKey hf hkey hs =>
    obtain ⟨c', hc'⟩ := h.waitKey hf hkey hs
    exact Or.inl ⟨⟨c', hc'.congr rfl rfl⟩, trivial⟩
  | resumeKey hf hstate => exact Or.inl ⟨⟨c, h.wake (Or.inr hf) hstate (Or.inr rfl)⟩, trivial⟩
  | signalKey _ hkey hs => exact Or.inl ⟨h.signalKey hkey hs, trivial⟩
  | timeout hf hs =>
    apply (h.timeout hf hs).imp
    · rintro ⟨⟨c', hc'⟩, hmet⟩
      exact ⟨⟨c', hc'.congr rfl rfl⟩, hmet⟩
    · exact id

theorem reachable_invariant {s : State F A} (h : Reachable T m_handle (Met m_handle) s) :
    ∃ c, Invariant T m_handle s c := by
  induction h with
  | start hstart => exact ⟨_, Invariant.start hstart⟩
  | step _ hmet hstep ih =>
    obtain ⟨c, hinv⟩ := ih
    rcases hinv.step hstep with ⟨hinv', -⟩ | ⟨-, hnot⟩
    · exact hinv'
    · exact absurd hmet hnot

/-- In every run in which no wait on a key times out while the lock is in use, the owner field names
the holder; and the next step keeps it so exactly if it is no such timeout. -/
theorem reachable_namesHolder_iff (T : FiberTable F) (m_handle : A) (s : State F A)
    (h : Reachable T m_handle (Met m_handle) s) :
    NamesHolder T m_handle s ∧ ∀ e s', Step T m_handle s e s' →
      (NamesHolder T m_handle s' ↔ Met m_handle s e) := by
  obtain ⟨c, hinv⟩ := reachable_invariant h
  refine ⟨hinv.names, ?_⟩
  intro e s' hstep
  rcases hinv.step hstep with ⟨⟨c', hinv'⟩, hmet⟩ | ⟨hnames, hmet⟩
  · exact ⟨fun _ => hmet, fun _ => hinv'.names⟩
  · exact ⟨fun hyes => absurd hyes hnames, fun hyes => absurd hyes hmet⟩

def idle : State (Fin 2) Bool where
  scheduler :=
    { fiber := fun _ =>
        { core_mask := 1, activity_level := .Schedulable, wait_tag := 0, lock_address := none,
          wait_address := none, waitable_object := none, timeout := 0, last_result := .Success,
          fiber_state := .Running }
      links := Links.alone
      word := fun _ => 0
      ended := [] }
  pc := fun _ => .outside
  waiting := []

def pair : FiberTable (Fin 2) := FiberTable.ofFirst 1 FiberTable.one_lt_reserved

local instance two_fibers_ne : NeZero 2 := ⟨by decide⟩

def waiting : State (Fin 2) Bool :=
  let s := (idle.goto 0 .acquire).compareExchange pair false 0
  let scheduler := ((((s.scheduler.setWord false 0).setWord true 1).modify 0
    (UserScheduler.waitForKey · false true (pair.handle 0) 5)).pushBack .scheduler 0)
  (s.withScheduler scheduler).goto 0 .waitingKey

theorem waiting_reachable {P : State (Fin 2) Bool → Event (Fin 2) Bool → Prop}
    (hlock : ∀ s e, P s (.lock e)) (hwait : ∀ s f k t, P s (.waitKey f k t)) :
    Reachable pair false P waiting := by
  have hstart : Reachable pair false P idle :=
    Reachable.start ⟨fun _ => rfl, rfl, rfl, rfl⟩
  have henter := Reachable.step hstart (hlock _ _)
    (Step.lock (InternalCriticalSection.Step.enter (f := 0) rfl) (by decide))
  have hinside := Reachable.step henter (hlock _ _)
    (Step.lock (InternalCriticalSection.Step.compareExchange (f := 0) rfl) (by decide))
  have hwaits : ((idle.goto 0 .acquire).compareExchange pair false 0).scheduler.waitKeyImpl pair 1 0
      (some false) (some true) (pair.handle 0) 5 = some (.ok (.Success, waiting.scheduler)) := rfl
  exact Reachable.step hinside (hwait _ 0 true 5) (Step.waitKey rfl (by decide) hwaits)

theorem reachable_namesHolder_iff_waiting :
    NamesHolder pair false waiting ∧ ∀ e s', Step pair false waiting e s' →
      (NamesHolder pair false s' ↔ Met false waiting e) :=
  reachable_namesHolder_iff pair false waiting
    (waiting_reachable (fun _ _ => trivial) fun _ _ _ _ => trivial)

/-- Fiber 1 enters while fiber 0 waits on the key; then the wait of fiber 0 times out, and the word
names fiber 0 although fiber 1 is inside. -/
theorem timeout_takes_lock : ¬Correct pair false := by
  intro h
  have hwaiting : Reachable pair false (fun _ _ => True) waiting :=
    waiting_reachable (fun _ _ => trivial) fun _ _ _ _ => trivial
  have henter := Reachable.step hwaiting trivial
    (Step.lock (InternalCriticalSection.Step.enter (f := 1) rfl) (by decide))
  have hinside := Reachable.step henter trivial
    (Step.lock (InternalCriticalSection.Step.compareExchange (f := 1) rfl) (by decide))
  have hlisted : ((waiting.goto 1 .acquire).compareExchange pair false 1).scheduler.InWaitList 0 :=
    ⟨[0], ⟨rfl, rfl, rfl, rfl⟩, by decide⟩
  have hturn : ((waiting.goto 1 .acquire).compareExchange pair false 1).scheduler.isSchedulable
      pair 1 0 0 6 = some _ := rfl
  have htimeout := Reachable.step hinside trivial (Step.timeout hlisted hturn)
  rcases h _ htimeout with ⟨hzero, -⟩ | ⟨f, hf, honly⟩
  · exact absurd hzero (by decide)
  · have h1 : f = 1 := ((honly 1).mp (Or.inl (Or.inl rfl))).symm
    rw [h1] at hf
    exact absurd hf (by decide)

end Awn.Ukern.LockWord
