import Mathlib.Algebra.GroupWithZero.Nat
import Awn.Ukern.MutualExclusion

namespace Awn.Ukern.InternalCriticalSection

variable {F A : Type*} [DecidableEq F] [DecidableEq A] {T : FiberTable F} {m_handle : A}

namespace Invariant

variable {s : State F A} {c : WaitList F → List F}

theorem fetchOr (h : Invariant T m_handle s c) {f : F} {handle : BitVec 32}
    (hpc : s.pc f = .announce handle) : Invariant T m_handle (s.fetchOr m_handle f handle) c := by
  have hblocked : s.pc f ≠ .blocked := by
    rw [hpc]
    exact Pc.noConfusion
  have hnot : ¬Holds s f := by
    apply not_holds
    rw [hpc]
    exact ⟨Pc.noConfusion, Pc.noConfusion, Pc.noConfusion, Pc.noConfusion⟩
  unfold State.fetchOr
  split
  all_goals
    apply h.sameOwner (setWord_moves s _ hblocked ⟨Pc.noConfusion, Pc.noConfusion, Pc.noConfusion⟩)
    · rw [setWord_word, owner_or_bit]
    · intro _
      rw [setWord_word, owner_or_bit, owner_or_owner]
    · rw [holds_goto _ f _ Pc.noConfusion]
      constructor
      · rintro (h | h | h) <;> cases h
      · exact fun hf => absurd hf hnot

theorem compareExchange (h : Invariant T m_handle s c) {f : F} (hpc : s.pc f = .acquire) :
    Invariant T m_handle (s.compareExchange T m_handle f) c := by
  have hblocked : s.pc f ≠ .blocked := by
    rw [hpc]
    exact Pc.noConfusion
  have hnot : ¬Holds s f := by
    apply not_holds
    rw [hpc]
    exact ⟨Pc.noConfusion, Pc.noConfusion, Pc.noConfusion, Pc.noConfusion⟩
  unfold State.compareExchange
  split
  · rename_i hzero
    exact h.take hblocked hzero
  · split
    all_goals
      apply h.goto hblocked ⟨Pc.noConfusion, Pc.noConfusion, Pc.noConfusion⟩
      constructor
      · rintro (h | h | h) <;> cases h
      · exact fun hf => absurd hf hnot

omit [DecidableEq A] in
theorem recheck (h : Invariant T m_handle s c) {f : F} (hpc : s.pc f = .recheck) :
    Invariant T m_handle (s.recheck T m_handle f) c := by
  have hholds : Holds s f := Or.inr (Or.inr (Or.inl hpc))
  have hblocked : s.pc f ≠ .blocked := by
    rw [hpc]
    exact Pc.noConfusion
  unfold State.recheck
  rw [if_pos ((h.holds f).mpr hholds)]
  apply h.goto hblocked ⟨Pc.noConfusion, Pc.noConfusion, Pc.noConfusion⟩
  exact ⟨fun _ => hholds, fun _ => Or.inl rfl⟩

theorem leave (h : Invariant T m_handle s c) {f : F} (hpc : s.pc f = .inside) :
    Invariant T m_handle (s.leave T m_handle f) c := by
  have hholds : Holds s f := Or.inl hpc
  have hblocked : s.pc f ≠ .blocked := by
    rw [hpc]
    exact Pc.noConfusion
  unfold State.leave
  split
  · rename_i hword
    exact h.give hpc hword
  · apply h.goto hblocked ⟨Pc.noConfusion, Pc.noConfusion, Pc.noConfusion⟩
    exact ⟨fun _ => hholds, fun _ => Or.inr (Or.inl rfl)⟩

omit [DecidableEq A] in
theorem arbitrateLock_eq (s : State F A) {f g : F} {handle : BitVec 32}
    (howner : owner handle = T.handle g) (hne : g ≠ f)
    (hword : s.word m_handle = owner handle ||| HasChildWaitersBit) :
    s.arbitrateLock T m_handle f handle =
      { s.goto f .blocked with
        scheduler := (s.scheduler.modify f
          (UserScheduler.waitForLock · m_handle (T.handle f))).pushBack (.of g) f
        waiting := s.waiting ++ [f] } := by
  have hword' : ¬s.scheduler.word m_handle ≠ T.handle g ||| HasChildWaitersBit := by
    rw [not_not, ← howner]
    exact hword
  unfold State.arbitrateLock UserScheduler.arbitrateLockImpl
  dsimp only
  rw [howner, T.getFiberByHandle_handle]
  dsimp only
  rw [if_neg hne, if_neg hword']

omit [DecidableEq A] in
theorem arbitrateLock (h : Invariant T m_handle s c) {f : F} {handle : BitVec 32}
    (hpc : s.pc f = .arbitrate handle) (hzero : owner handle ≠ 0)
    (hword : s.word m_handle = owner handle ||| HasChildWaitersBit) :
    ∃ c', Invariant T m_handle (s.arbitrateLock T m_handle f handle) c' := by
  have hpcne : s.pc f ≠ .blocked := by
    rw [hpc]
    exact Pc.noConfusion
  have hnot : ¬Holds s f := by
    apply not_holds
    rw [hpc]
    exact ⟨Pc.noConfusion, Pc.noConfusion, Pc.noConfusion, Pc.noConfusion⟩
  have hownerw : owner (s.word m_handle) = owner handle := by
    rw [hword, owner_or_bit, owner_owner]
  obtain ⟨g, hg⟩ : ∃ g, owner (s.word m_handle) = T.handle g := by
    rcases h.owner_form with hform | hform
    · exact absurd (hownerw ▸ hform) hzero
    · exact hform
  have hne : g ≠ f := by
    rintro rfl
    exact hnot ((h.holds g).mp hg)
  have hgc := h.owner_list g hg
  have hnew : f ∉ s.waiting := fun hf => hpcne ((h.blocked f).mpr hf).1
  rw [arbitrateLock_eq s (hownerw ▸ hg) hne hword]
  have hpush := h.represents.pushBack (h.not_listed hpcne) (.of g)
  refine ⟨Function.update c (.of g) (c (.of g) ++ [f]), ?_⟩
  have hfiber : ∀ k, k ≠ f → (s.scheduler.modify f
      (UserScheduler.waitForLock · m_handle (T.handle f))).fiber k = s.scheduler.fiber k :=
    fun k hk => UserScheduler.modify_of_ne _ _ hk
  have hself := UserScheduler.modify_self s.scheduler f
    (UserScheduler.waitForLock · m_handle (T.handle f))
  have hmem : ∀ k, k ∈ s.waiting ++ [f] → k ≠ f → k ∈ s.waiting := by
    intro k hk hkf
    rcases List.mem_append.mp hk with hk | hk
    · exact hk
    · exact absurd (List.mem_singleton.mp hk) hkf
  constructor
  · exact hpush
  · intro k
    by_cases hk : k = f
    · rw [hk]
      dsimp only
      rw [goto_self]
      exact Pc.noConfusion
    · dsimp only
      rw [goto_of_ne s hk]
      exact h.not_aborted k
  · intro k
    by_cases hk : k = f
    · rw [hk]
      dsimp only
      rw [goto_self]
      exact Pc.noConfusion
    · dsimp only
      rw [goto_of_ne s hk]
      exact h.not_stuck k
  · exact h.owner_form
  · intro k
    refine (h.holds k).trans ?_
    by_cases hk : k = f
    · subst hk
      refine ⟨fun hf => absurd hf hnot, ?_⟩
      unfold Holds
      dsimp only
      rw [goto_self, UserScheduler.pushBack_fiber, hself]
      rintro (hpc | hpc | hpc | ⟨-, hpc⟩)
      · cases hpc
      · cases hpc
      · cases hpc
      · exact absurd rfl hpc
    · apply (holds_congr _ _).symm
      · exact goto_of_ne s hk _
      · exact hfiber k hk
  · intro k
    by_cases hk : k = f
    · subst hk
      unfold Blocked
      dsimp only
      rw [goto_self, UserScheduler.pushBack_fiber, hself]
      exact ⟨fun _ => List.mem_append_right _ (List.mem_singleton_self k), fun _ => ⟨rfl, rfl⟩⟩
    · refine (blocked_congr (s := s) ?_ ?_).trans ((h.blocked k).trans ?_)
      · exact goto_of_ne s hk _
      · exact hfiber k hk
      exact ⟨fun hmem => List.mem_append_left _ hmem, fun hmem' => hmem k hmem' hk⟩
  · intro k hk
    have hkg : k = g := T.handle_injective (hk.symm.trans hg)
    rw [hkg, Function.update_self, hgc]
  · intro list hlist
    rw [Function.update_of_ne (fun heq => hlist g heq hg)]
    exact h.other_list list hlist
  · intro _
    refine ⟨⟨g, hg⟩, ?_⟩
    change s.word m_handle = owner (s.word m_handle) ||| HasChildWaitersBit
    rw [hownerw]
    exact hword
  · intro k hk
    by_cases hkf : k = f
    · rw [hkf, UserScheduler.pushBack_fiber, hself]
      rfl
    · rw [UserScheduler.pushBack_fiber, hfiber k hkf]
      exact h.lock_address k (hmem k hk hkf)
  · intro k hk
    by_cases hkf : k = f
    · rw [hkf, UserScheduler.pushBack_fiber, hself]
      rfl
    · rw [UserScheduler.pushBack_fiber, hfiber k hkf]
      exact h.wait_tag k (hmem k hk hkf)
  · intro k hk
    by_cases hkf : k = f
    · rw [hkf, UserScheduler.pushBack_fiber, hself]
      rfl
    · rw [UserScheduler.pushBack_fiber, hfiber k hkf]
      exact h.waitable_object k (hmem k hk hkf)
  · intro k hpck hstate
    by_cases hkf : k = f
    · rw [hkf, UserScheduler.pushBack_fiber, hself] at hstate
      exact absurd rfl hstate
    · dsimp only at hpck
      rw [goto_of_ne s hkf] at hpck
      rw [UserScheduler.pushBack_fiber, hfiber k hkf] at hstate ⊢
      exact h.result k hpck hstate

omit [DecidableEq A] in
theorem resume (h : Invariant T m_handle s c) {f : F} (hpc : s.pc f = .blocked)
    (hstate : (s.scheduler.fiber f).fiber_state = .Scheduled) :
    Invariant T m_handle (s.resume f) c := by
  have hne : (s.scheduler.fiber f).fiber_state ≠ .Waiting := by
    rw [hstate]
    exact FiberState.noConfusion
  have hholds : Holds s f := Or.inr (Or.inr (Or.inr ⟨hpc, hne⟩))
  have hnew : f ∉ s.waiting := fun hf => hne ((h.blocked f).mpr hf).2
  unfold State.resume
  rw [if_pos (h.result f hpc hne)]
  have hfiber : ∀ k, k ≠ f → (s.scheduler.modify f
      fun x => { x with fiber_state := .Running }).fiber k = s.scheduler.fiber k :=
    fun k hk => UserScheduler.modify_of_ne _ _ hk
  constructor
  · exact h.represents
  · intro k
    by_cases hk : k = f
    · rw [hk, goto_self]
      exact Pc.noConfusion
    · rw [goto_of_ne _ hk]
      exact h.not_aborted k
  · intro k
    by_cases hk : k = f
    · rw [hk, goto_self]
      exact Pc.noConfusion
    · rw [goto_of_ne _ hk]
      exact h.not_stuck k
  · exact h.owner_form
  · intro k
    refine (h.holds k).trans ?_
    by_cases hk : k = f
    · rw [hk, holds_goto _ f _ Pc.noConfusion]
      exact ⟨fun _ => Or.inr (Or.inr rfl), fun _ => hholds⟩
    · apply (holds_congr _ _).symm
      · exact goto_of_ne _ hk _
      · exact hfiber k hk
  · intro k
    by_cases hk : k = f
    · rw [hk]
      constructor
      · rintro ⟨hpc', -⟩
        rw [goto_self] at hpc'
        cases hpc'
      · exact fun hf => absurd hf hnew
    · refine (blocked_congr (s := s) ?_ ?_).trans (h.blocked k)
      · exact goto_of_ne _ hk _
      · exact hfiber k hk
  · exact h.owner_list
  · exact h.other_list
  · exact h.announced
  · intro k hk
    have hkf : k ≠ f := fun heq => hnew (heq ▸ hk)
    exact (congrArg _ (hfiber k hkf)).trans (h.lock_address k hk)
  · intro k hk
    have hkf : k ≠ f := fun heq => hnew (heq ▸ hk)
    exact (congrArg _ (hfiber k hkf)).trans (h.wait_tag k hk)
  · intro k hk
    have hkf : k ≠ f := fun heq => hnew (heq ▸ hk)
    exact (congrArg _ (hfiber k hkf)).trans (h.waitable_object k hk)
  · intro k hpck hstatek
    by_cases hk : k = f
    · rw [hk, goto_self] at hpck
      cases hpck
    · rw [goto_of_ne _ hk] at hpck
      have hsame := hfiber k hk
      have hstatek' : (s.scheduler.fiber k).fiber_state ≠ .Waiting := fun heq =>
        hstatek ((congrArg _ hsame).trans heq)
      exact (congrArg _ hsame).trans (h.result k hpck hstatek')

theorem unlock_nil (h : Invariant T m_handle s c) {f : F} (hc : c (.of f) = []) (fuel : ℕ) :
    s.scheduler.arbitrateUnlockImpl T fuel f (some m_handle) = some (.error .RequiresLock) := by
  unfold UserScheduler.arbitrateUnlockImpl
  dsimp only
  rw [if_pos ((UserScheduler.isEmpty_eq_true h.represents).mpr hc)]

theorem unlock_eq (h : Invariant T m_handle s c) {f : F} (hpc : s.pc f = .release)
    (hc : c (.of f) ≠ []) (fuel : ℕ) :
    s.scheduler.arbitrateUnlockImpl T fuel f (some m_handle) =
      (s.scheduler.releaseLockWaitListUnsafe fuel f).map .ok := by
  obtain ⟨howner, hlist⟩ := h.leaver_list hpc
  have hbit := (h.announced (hlist ▸ hc)).2
  rw [howner] at hbit
  have hsame : ¬T.handle f ||| HasChildWaitersBit ≠ s.scheduler.word m_handle :=
    not_not.mpr hbit.symm
  unfold UserScheduler.arbitrateUnlockImpl
  dsimp only
  rw [if_neg (fun he => hc ((UserScheduler.isEmpty_eq_true h.represents).mp he)), if_neg hsame]

theorem unlock_many (h : Invariant T m_handle s c) {f g r : F} {rest : List F}
    (hpc : s.pc f = .release) (hc : c (.of f) = g :: r :: rest) (fuel : ℕ) :
    s.scheduler.arbitrateUnlockImpl T fuel f (some m_handle) = none := by
  have hne : g ≠ f := by
    apply h.waiter_ne hpc
    rw [← (h.leaver_list hpc).2, hc]
    exact List.mem_cons_self
  rw [h.unlock_eq hpc (by rw [hc]; exact List.cons_ne_nil _ _),
    UserScheduler.release_diverges h.represents hc hne]
  rfl

theorem unlock_single (h : Invariant T m_handle s c) {f g : F} (hpc : s.pc f = .release)
    (hc : c (.of f) = [g]) (fuel : ℕ) :
    s.scheduler.arbitrateUnlockImpl T (fuel + 1) f (some m_handle) =
      some (.ok (s.scheduler.handedOver g m_handle)) := by
  have hg : g ∈ s.waiting := by
    rw [← (h.leaver_list hpc).2, hc]
    exact List.mem_singleton_self g
  rw [h.unlock_eq hpc (by rw [hc]; exact List.cons_ne_nil _ _),
    UserScheduler.release_single h.represents hc (h.lock_address g hg) (h.waitable_object g hg)]
  rfl

theorem unlock_some (h : Invariant T m_handle s c) {f g : F} (hpc : s.pc f = .release)
    (hc : c (.of f) = [g]) {fuel : ℕ} {result : Except Result (UserScheduler F A)}
    (hsome : s.scheduler.arbitrateUnlockImpl T fuel f (some m_handle) = some result) :
    result = .ok (s.scheduler.handedOver g m_handle) := by
  cases fuel with
  | zero =>
    rw [h.unlock_eq hpc (by rw [hc]; exact List.cons_ne_nil _ _),
      UserScheduler.release_zero] at hsome
    cases hsome
  | succ fuel =>
    rw [h.unlock_single hpc hc] at hsome
    exact (Option.some.inj hsome).symm

theorem handedOver_released (s : UserScheduler F A) (g : F) (a : A) :
    ((s.handedOver g a).fiber g).fiber_state ≠ .Waiting := by
  rw [UserScheduler.handedOver_self]
  exact FiberLocalStorage.endWait_not_waiting _ _

theorem handedOver_result (s : UserScheduler F A) (g : F) (a : A) :
    ((s.handedOver g a).fiber g).last_result = .Success := by
  rw [UserScheduler.handedOver_self, FiberLocalStorage.endWait_eq]

theorem unlock (h : Invariant T m_handle s c) {f g : F} (hpc : s.pc f = .release)
    (hc : c (.of f) = [g]) :
    Invariant T m_handle
        ((s.withScheduler (s.scheduler.handedOver g m_handle)).goto f .outside)
        (fun list => (c list).erase g) ∧
      HandedOver T m_handle s
        ((s.withScheduler (s.scheduler.handedOver g m_handle)).goto f .outside) f g [] := by
  obtain ⟨howner, hlist⟩ := h.leaver_list hpc
  have hwaiting : s.waiting = [g] := hlist.symm.trans hc
  have hg : g ∈ s.waiting := hwaiting ▸ List.mem_singleton_self g
  have hgf := h.waiter_ne hpc hg
  have hgblocked := ((h.blocked g).mpr hg).1
  have hword : ((s.withScheduler (s.scheduler.handedOver g m_handle)).goto f .outside).word
      m_handle = T.handle g :=
    (Function.update_self _ _ _).trans (h.wait_tag g hg)
  have hnone : ((s.withScheduler (s.scheduler.handedOver g m_handle)).goto f .outside).waiting =
      [] := by
    change s.waiting.filter _ = []
    rw [hwaiting, List.filter_singleton, decide_eq_false (handedOver_released _ _ _)]
    rfl
  have hlists : ∀ list, (c list).erase g = [] := by
    intro list
    rcases h.list_cases list with hnil | ⟨k, rfl, hk⟩
    · rw [hnil]
      rfl
    · rw [h.owner_list k hk, hwaiting, List.erase_cons_head]
  have hrepresents := h.represents.unlink g
  have hfiber : ∀ k, k ≠ g → (s.scheduler.handedOver g m_handle).fiber k = s.scheduler.fiber k :=
    fun k hk => UserScheduler.handedOver_of_ne _ _ hk
  have hpcg : ((s.withScheduler (s.scheduler.handedOver g m_handle)).goto f .outside).pc g =
      .blocked := (goto_of_ne _ hgf _).trans hgblocked
  constructor
  · constructor
    · exact hrepresents
    · intro k
      by_cases hk : k = f
      · rw [hk, goto_self]
        exact Pc.noConfusion
      · rw [goto_of_ne _ hk]
        exact h.not_aborted k
    · intro k
      by_cases hk : k = f
      · rw [hk, goto_self]
        exact Pc.noConfusion
      · rw [goto_of_ne _ hk]
        exact h.not_stuck k
    · right
      exact ⟨g, by rw [hword, owner_handle]⟩
    · intro k
      rw [hword, owner_handle]
      by_cases hk : k = g
      · subst hk
        exact ⟨fun _ => Or.inr (Or.inr (Or.inr ⟨hpcg, handedOver_released _ _ _⟩)), fun _ => rfl⟩
      · refine ⟨fun heq => absurd (T.handle_injective heq).symm hk, fun hholds => ?_⟩
        exfalso
        by_cases hkf : k = f
        · rw [hkf] at hholds
          rcases (holds_goto _ f _ Pc.noConfusion).mp hholds with hpc' | hpc' | hpc' <;> cases hpc'
        · have hsame : Holds s k := by
            refine (holds_congr ?_ ?_).mp hholds
            · exact goto_of_ne _ hkf _
            · exact hfiber k hk
          have hk' := (h.holds k).mpr hsame
          rw [howner] at hk'
          exact hkf (T.handle_injective hk').symm
    · intro k
      rw [hnone]
      refine ⟨fun hblocked => ?_, fun hmem => absurd hmem List.not_mem_nil⟩
      exfalso
      obtain ⟨hpck, hstate⟩ := hblocked
      by_cases hk : k = g
      · subst hk
        exact handedOver_released _ _ _ hstate
      · by_cases hkf : k = f
        · rw [hkf, goto_self] at hpck
          cases hpck
        · have hmem := (h.blocked k).mp
            ⟨(goto_of_ne _ hkf _).symm.trans hpck, (congrArg _ (hfiber k hk)).symm.trans hstate⟩
          rw [hwaiting] at hmem
          exact hk (List.mem_singleton.mp hmem)
    · intro k _
      rw [hnone]
      exact hlists _
    · intro list _
      exact hlists list
    · intro hne
      exact absurd hnone hne
    · intro k hk
      rw [hnone] at hk
      cases hk
    · intro k hk
      rw [hnone] at hk
      cases hk
    · intro k hk
      rw [hnone] at hk
      cases hk
    · intro k hpck hstate
      by_cases hk : k = g
      · rw [hk]
        exact handedOver_result _ _ _
      · by_cases hkf : k = f
        · rw [hkf, goto_self] at hpck
          cases hpck
        · have hsame := hfiber k hk
          have hpck' : s.pc k = .blocked := (goto_of_ne _ hkf _).symm.trans hpck
          have hstate' : (s.scheduler.fiber k).fiber_state ≠ .Waiting := fun heq =>
            hstate ((congrArg _ hsame).trans heq)
          exact (congrArg _ hsame).trans (h.result k hpck' hstate')
  · constructor
    · unfold HasWaitList
      rw [← hc]
      exact h.represents.ring (.of f)
    · exact hwaiting
    · rw [hword, owner_handle]
    · exact handedOver_released _ _ _
    · have hring := hrepresents.ring (.of g)
      rw [hlists] at hring
      exact hring
    · exact hnone

theorem step (h : Invariant T m_handle s c) {e : Event F} {s' : State F A}
    (hstep : Step T m_handle s e s') (hmet : Met m_handle s e) :
    (∃ c', Invariant T m_handle s' c') ∧ Hands T m_handle s e s' := by
  cases hstep with
  | @enter f hpc =>
    refine ⟨⟨c, ?_⟩, trivial⟩
    have hnot : ¬Holds s f := by
      apply not_holds
      rw [hpc]
      exact ⟨Pc.noConfusion, Pc.noConfusion, Pc.noConfusion, Pc.noConfusion⟩
    apply h.goto (by rw [hpc]; exact Pc.noConfusion)
      ⟨Pc.noConfusion, Pc.noConfusion, Pc.noConfusion⟩
    constructor
    · rintro (h | h | h) <;> cases h
    · exact fun hf => absurd hf hnot
  | @tryEnter f hpc =>
    refine ⟨⟨c, ?_⟩, trivial⟩
    unfold State.tryEnter
    split
    · rename_i hzero
      exact h.take (by rw [hpc]; exact Pc.noConfusion) hzero
    · exact h
  | compareExchange hpc => exact ⟨⟨c, h.compareExchange hpc⟩, trivial⟩
  | fetchOr hpc => exact ⟨⟨c, h.fetchOr hpc⟩, trivial⟩
  | arbitrateLock hpc =>
    obtain ⟨hzero, hword⟩ := hmet _ hpc
    exact ⟨h.arbitrateLock hpc hzero hword, trivial⟩
  | resume hpc hstate => exact ⟨⟨c, h.resume hpc hstate⟩, trivial⟩
  | recheck hpc => exact ⟨⟨c, h.recheck hpc⟩, trivial⟩
  | @leave f hpc =>
    refine ⟨⟨c, h.leave hpc⟩, ?_⟩
    intro hout
    unfold State.leave at hout
    split at hout
    · rename_i hword
      exact h.waiting_nil_of_bare hword
    · rw [goto_self] at hout
      cases hout
  | @unlock f fuel scheduler hpc hsome =>
    obtain ⟨g, hg⟩ := hmet
    have hc := (h.hasWaitList_iff f [g]).mp hg
    have hok := h.unlock_some hpc hc hsome
    cases hok
    obtain ⟨hinv, hhands⟩ := h.unlock hpc hc
    exact ⟨⟨_, hinv⟩, ⟨g, [], hhands⟩⟩
  | @unlockFails f fuel result hpc hsome =>
    obtain ⟨g, hg⟩ := hmet
    cases h.unlock_some hpc ((h.hasWaitList_iff f [g]).mp hg) hsome
  | @unlockDiverges f hpc hnone =>
    obtain ⟨g, hg⟩ := hmet
    have hsome := h.unlock_single hpc ((h.hasWaitList_iff f [g]).mp hg) 0
    rw [hnone] at hsome
    cases hsome

theorem step_unmet (h : Invariant T m_handle s c) {e : Event F} {s' : State F A}
    (hstep : Step T m_handle s e s') (hmet : ¬Met m_handle s e) : ¬Safe T m_handle s' := by
  intro hsafe
  cases hstep with
  | enter | tryEnter | compareExchange | fetchOr | resume | recheck | leave => exact hmet trivial
  | @arbitrateLock f handle hpc =>
    apply hsafe.not_aborted f
    unfold State.arbitrateLock
    split
    · exact goto_self _ _ _
    · rename_i scheduler hok
      exfalso
      apply hmet
      intro handle' hpc'
      have heq : handle' = handle := by
        rw [hpc] at hpc'
        exact (Pc.arbitrate.inj hpc').symm
      rw [heq]
      unfold UserScheduler.arbitrateLockImpl at hok
      dsimp only at hok
      split at hok
      · cases hok
      · rename_i g hg
        refine ⟨?_, ?_⟩
        · intro hzero
          rw [hzero, T.getFiberByHandle_zero] at hg
          cases hg
        · split at hok
          · cases hok
          · split at hok
            · cases hok
            · rename_i hword
              exact not_not.mp hword
  | @unlock f fuel scheduler hpc hsome =>
    cases hc : c (.of f) with
    | nil =>
      rw [h.unlock_nil hc] at hsome
      cases hsome
    | cons g rest =>
      cases rest with
      | nil => exact hmet ⟨g, (h.hasWaitList_iff f [g]).mpr hc⟩
      | cons r rest =>
        rw [h.unlock_many hpc hc] at hsome
        cases hsome
  | unlockFails => exact hsafe.not_aborted _ (goto_self _ _ _)
  | unlockDiverges => exact hsafe.not_stuck _ (goto_self _ _ _)

end Invariant

theorem reachable_invariant {s : State F A} (h : Reachable T m_handle (Met m_handle) s) :
    ∃ c, Invariant T m_handle s c := by
  induction h with
  | start hstart => exact ⟨_, Invariant.start hstart⟩
  | step _ hmet hstep ih =>
    obtain ⟨c, hinv⟩ := ih
    exact (hinv.step hstep hmet).1

/-- In every run whose slow paths find what they rely on, the lock is safe; and the next step keeps
it safe and hands the lock over as it should exactly if it finds that too. -/
theorem reachable_safe_iff (T : FiberTable F) (m_handle : A) (s : State F A)
    (h : Reachable T m_handle (Met m_handle) s) :
    Safe T m_handle s ∧ ∀ e s', Step T m_handle s e s' →
      (Safe T m_handle s' ∧ Hands T m_handle s e s' ↔ Met m_handle s e) := by
  obtain ⟨c, hinv⟩ := reachable_invariant h
  refine ⟨hinv.safe, ?_⟩
  intro e s' hstep
  constructor
  · rintro ⟨hsafe, -⟩
    by_contra hmet
    exact hinv.step_unmet hstep hmet hsafe
  · intro hmet
    obtain ⟨⟨c', hinv'⟩, hhands⟩ := hinv.step hstep hmet
    exact ⟨hinv'.safe, hhands⟩

def idle : State (Fin 2) Unit where
  scheduler :=
    { fiber := fun _ =>
        { core_mask := 1, activity_level := .Schedulable, wait_tag := 0, lock_address := none,
          wait_address := none, waitable_object := none, timeout := 0, last_result := .Success,
          fiber_state := .Running }
      links := Links.alone
      word := fun _ => 0
      ended := [] }
  pc := fun _ => .outside
  waiting := []

def pair : FiberTable (Fin 2) := FiberTable.ofFirst 1 FiberTable.one_lt_reserved

local instance two_fibers_ne : NeZero 2 := ⟨by decide⟩

def contended : State (Fin 2) Unit :=
  ((((idle.goto 0 .acquire).compareExchange pair () 0).goto 1 .acquire).compareExchange pair () 1)

theorem contended_reachable (P : State (Fin 2) Unit → Event (Fin 2) → Prop)
    (hP : ∀ s f, P s (.enter f) ∧ P s (.compareExchange f)) :
    Reachable pair () P contended := by
  apply Reachable.step _ (hP _ 1).2 (Step.compareExchange rfl)
  apply Reachable.step _ (hP _ 1).1 (Step.enter rfl)
  apply Reachable.step _ (hP _ 0).2 (Step.compareExchange rfl)
  apply Reachable.step _ (hP _ 0).1 (Step.enter rfl)
  exact Reachable.start ⟨fun _ => rfl, rfl, rfl, rfl⟩

theorem reachable_safe_iff_contended :
    Safe pair () contended ∧ ∀ e s', Step pair () contended e s' →
      (Safe pair () s' ∧ Hands pair () contended e s' ↔ Met () contended e) :=
  reachable_safe_iff pair () contended
    (contended_reachable _ fun _ _ => ⟨trivial, trivial⟩)

/-- Fiber 1 sets the waiters bit; fiber 0 leaves before fiber 1 is in its list, and its
`ArbitrateUnlockImpl` finds nobody there. -/
theorem not_correct : ¬Correct pair () := by
  intro h
  have hannounced : Reachable pair () (fun _ _ => True)
      ((contended.fetchOr () 1 (pair.handle 0)).leave pair () 0) := by
    apply Reachable.step _ trivial (Step.leave rfl)
    apply Reachable.step _ trivial (Step.fetchOr rfl)
    exact contended_reachable _ fun _ _ => ⟨trivial, trivial⟩
  have hrefused : ((contended.fetchOr () 1 (pair.handle 0)).leave pair () 0).scheduler.arbitrateUnlockImpl
      pair 0 0 (some ()) = some (.error .RequiresLock) := rfl
  have haborted := Reachable.step hannounced trivial (Step.unlockFails rfl hrefused)
  exact (h _ haborted).1.not_aborted 0 rfl

end Awn.Ukern.InternalCriticalSection
