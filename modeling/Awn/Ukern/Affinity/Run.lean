import Mathlib.Algebra.GroupWithZero.Nat
import Awn.Ukern.Affinity.Invariant

/-! Every core runs only fibers that have it in their mask. -/

namespace Awn.Ukern.Affinity

variable {F : Type*} [DecidableEq F]
variable {s s' : State F} {rings : ℕ → List F} {f : F} {core : ℕ}

omit [DecidableEq F] in
theorem find?_of_imp {p q : F → Bool} {xs : List F} (hfind : xs.find? p = some f)
    (hq : q f = true) (himp : ∀ k, q k = true → p k = true) : xs.find? q = some f := by
  obtain ⟨-, as, bs, rfl, has⟩ := List.find?_eq_some_iff_append.mp hfind
  apply List.find?_eq_some_iff_append.mpr
  refine ⟨hq, as, bs, rfl, fun k hk => ?_⟩
  have hp := has k hk
  cases hqk : q k with
  | false => rfl
  | true =>
    rw [himp k hqk] at hp
    cases hp

omit [DecidableEq F] in
theorem removals_cons {key : F → ℤ} {queue rest : List F} {first : F}
    (hfront : PriorityQueue.removeFront key queue = some (first, rest)) (fuel : ℕ) :
    removals key (fuel + 1) queue = first :: removals key fuel rest := by
  rw [removals, hfront]

structure Kept (s s' : State F) : Prop where
  core_count : s'.core_count = s.core_count
  running : s'.running = s.running
  registered : s'.registered = s.registered
  core_mask : ∀ k, (s'.fiber k).core_mask = (s.fiber k).core_mask

omit [DecidableEq F] in
theorem Kept.trans {s₁ s₂ s₃ : State F} (h : Kept s₁ s₂) (h' : Kept s₂ s₃) : Kept s₁ s₃ where
  core_count := h'.core_count.trans h.core_count
  running := h'.running.trans h.running
  registered := h'.registered.trans h.registered
  core_mask k := (h'.core_mask k).trans (h.core_mask k)

def Stops (s : State F) (core : ℕ) : Prop :=
  ∀ f, (removals (fun f => (s.fiber f).priority) s.thread_queue.length s.thread_queue).find?
    (fun f => Keeps s core f) = some f → (s.fiber f).core_mask.getLsbD core = true

namespace Invariant

omit [DecidableEq F] in
theorem used_count_lt (h : Invariant s rings) (core : ℕ) :
    (s.scheduler_local_ring_table core).m_count < 0xffffffff :=
  Nat.lt_of_le_of_lt (h.holds core).count (by decide)

theorem moveToRing (h : Invariant s rings) (hf : s.registered f = true)
    (hs : s.moveToRing f = some s') :
    ∃ found_core, (s.fiber f).core_mask.getLsbD found_core = true ∧
      (∃ rings', Invariant s' rings') ∧ s'.thread_queue = s.thread_queue ∧
      s'.core_count = s.core_count ∧ s'.running = s.running ∧ s'.registered = s.registered ∧
      s'.fiber = Function.update s.fiber f
        { s.fiber f with fiber_state := .ScheduledLocal, current_core := found_core } := by
  obtain ⟨found_core, hrank, hs⟩ := Option.bind_eq_some_iff.mp hs
  obtain ⟨ring', hring, rfl⟩ := Option.map_eq_some_iff.mp hs
  obtain ⟨core, hcore, hset⟩ := rank_found h.used_count_lt h.core_count.2 (h.masks f hf)
  rw [hcore] at hrank
  obtain rfl := Option.some.inj hrank
  refine ⟨core, hset, ⟨Function.update rings core (rings core ++ [f]), ?_⟩, rfl, rfl, rfl, rfl, rfl⟩
  have hmodified : Invariant (s.modify f fun x =>
      { x with fiber_state := .ScheduledLocal, current_core := core }) rings := h.modify_state rfl
  apply hmodified.stands hmodified.queue
  · exact State.setRing_holds hmodified.holds ((h.holds core).insert hring)
  · intro other k hk
    by_cases hother : other = core
    · subst hother
      rw [Function.update_self] at hk
      rcases List.mem_append.mp hk with hk | hk
      · exact hmodified.rings _ k hk
      · rw [List.mem_singleton.mp hk]
        refine ⟨hf, ?_⟩
        rw [State.modify_self]
        exact hset
    · rw [Function.update_of_ne hother] at hk
      exact hmodified.rings other k hk

theorem stops_moved {fiber : F} {rest : List F} {s₂ : State F} {found_core : ℕ}
    (hfront : PriorityQueue.removeFront (fun f => (s.fiber f).priority) s.thread_queue =
      some (fiber, rest))
    (hlength : s.thread_queue.length = rest.length + 1) (hnot : ¬Keeps s core fiber)
    (hqueue : s₂.thread_queue = rest)
    (hfiber : s₂.fiber = Function.update s.fiber fiber
      { s.fiber fiber with fiber_state := .ScheduledLocal, current_core := found_core })
    (hstop : Stops s core) : Stops s₂ core := by
  have hkey : (fun f => (s₂.fiber f).priority) = fun f => (s.fiber f).priority := by
    funext k
    rw [hfiber]
    by_cases hk : k = fiber
    · subst hk
      rw [Function.update_self]
    · rw [Function.update_of_ne hk]
  have hremovals : removals (fun f => (s.fiber f).priority) s.thread_queue.length s.thread_queue =
      fiber :: removals (fun f => (s.fiber f).priority) rest.length rest := by
    rw [hlength]
    exact removals_cons hfront _
  intro k hfind
  rw [hkey, hqueue] at hfind
  have hkeeps : Keeps s₂ core k :=
    of_decide_eq_true (List.find?_eq_some_iff_append.mp hfind).1
  by_cases hk : k = fiber
  · subst hk
    unfold Keeps at hnot hkeeps
    rw [hfiber, Function.update_self] at hkeeps ⊢
    rcases hkeeps with hone | ⟨-, hset⟩
    · exact absurd (Or.inl hone) hnot
    · exact hset
  · have hsame : ∀ j, j ≠ fiber → (Keeps s₂ core j ↔ Keeps s core j) := by
      intro j hj
      unfold Keeps
      rw [hfiber, Function.update_of_ne hj]
    rw [hfiber, Function.update_of_ne hk]
    apply hstop
    rw [hremovals, List.find?_cons_of_neg (by rw [decide_eq_true_eq]; exact hnot)]
    apply find?_of_imp hfind
    · exact decide_eq_true ((hsame k hk).mp hkeeps)
    · intro j hj
      have hj := of_decide_eq_true hj
      apply decide_eq_true
      apply (hsame j _).mpr hj
      rintro rfl
      exact hnot hj

theorem acquireFiber {turns : ℕ} {fiber : Option F} :
    ∀ {s : State F} {rings : ℕ → List F}, Invariant s rings → core < s.core_count →
      s.thread_queue.length = turns → Stops s core →
      s.acquireFiber core turns = some (s', fiber) →
      (∃ rings', Invariant s' rings') ∧ Kept s s' ∧
        ∀ f, fiber = some f → s.registered f = true ∧ (s.fiber f).core_mask.getLsbD core = true := by
  induction turns with
  | zero =>
    intro s rings h _ hlength _ hs
    unfold State.acquireFiber at hs
    rw [if_pos (List.length_eq_zero_iff.mp hlength)] at hs
    obtain ⟨rfl, rfl⟩ := Prod.mk.inj (Option.some.inj hs)
    exact ⟨⟨rings, h⟩, ⟨rfl, rfl, rfl, fun _ => rfl⟩, nofun⟩
  | succ turns ih =>
    intro s rings h hcore hlength hstop hs
    unfold State.acquireFiber at hs
    cases hfront : PriorityQueue.removeFront (fun f => (s.fiber f).priority) s.thread_queue with
    | none =>
      rw [hfront] at hs
      obtain ⟨rfl, rfl⟩ := Prod.mk.inj (Option.some.inj hs)
      exact ⟨⟨rings, h⟩, ⟨rfl, rfl, rfl, fun _ => rfl⟩, nofun⟩
    | some front =>
      obtain ⟨first, rest⟩ := front
      have hperm := PriorityQueue.removeFront_perm _ hfront
      have hfirst : s.registered first = true :=
        h.queue first (hperm.mem_iff.mpr List.mem_cons_self)
      have hrest : s.thread_queue.length = rest.length + 1 := hperm.length_eq
      have h₁ : Invariant { s with thread_queue := rest } rings := by
        apply h.stands _ h.holds h.rings
        intro k hk
        exact h.queue k (hperm.mem_iff.mpr (List.mem_cons_of_mem _ hk))
      have hle : core ≤ 30 := Nat.le_trans (Nat.le_of_lt hcore) h.core_count.2
      have hkeeps : keeps (s.fiber first) core = some (decide (Keeps s core first)) :=
        keeps_eq h.core_count.2 (h.masks first hfirst) hle
      rw [hfront] at hs
      dsimp only at hs
      rw [hkeeps, Option.bind_some] at hs
      by_cases hkeep : Keeps s core first
      · rw [if_pos (decide_eq_true hkeep)] at hs
        obtain ⟨rfl, rfl⟩ := Prod.mk.inj (Option.some.inj hs)
        refine ⟨⟨rings, h₁⟩, ⟨rfl, rfl, rfl, fun _ => rfl⟩, ?_⟩
        intro f hf
        obtain rfl := Option.some.inj hf
        refine ⟨hfirst, hstop _ ?_⟩
        rw [hrest, removals_cons hfront]
        exact List.find?_cons_of_pos (decide_eq_true hkeep)
      · rw [if_neg (by rw [decide_eq_true_eq]; exact hkeep)] at hs
        obtain ⟨s₂, hmove, hs⟩ := Option.bind_eq_some_iff.mp hs
        obtain ⟨found_core, -, ⟨rings₂, h₂⟩, hqueue, hcount, hrunning, hregistered, hfiber⟩ :=
          h₁.moveToRing hfirst hmove
        have hkept : Kept s s₂ := by
          refine ⟨hcount, hrunning, hregistered, fun k => ?_⟩
          rw [hfiber]
          by_cases hk : k = first
          · subst hk
            rw [Function.update_self]
          · rw [Function.update_of_ne hk]
        have hstop₂ : Stops s₂ core := stops_moved hfront hrest hkeep hqueue hfiber hstop
        have hlength₂ : s₂.thread_queue.length = turns := by
          rw [hqueue]
          exact Nat.succ.inj (hrest.symm.trans hlength)
        obtain ⟨hinv, hkept', hresult⟩ := ih h₂ (by rw [hcount]; exact hcore) hlength₂ hstop₂ hs
        refine ⟨hinv, hkept.trans hkept', fun f hf => ?_⟩
        obtain ⟨hreg, hset⟩ := hresult f hf
        rw [hregistered] at hreg
        rw [hkept.core_mask] at hset
        exact ⟨hreg, hset⟩

theorem chooseFiber (h : Invariant s rings) (hcore : core < s.core_count)
    (hmet : Met s (.schedule core)) {fiber : Option F}
    (hs : s.chooseFiber core = some (s', fiber)) :
    (∃ rings', Invariant s' rings') ∧ Kept s s' ∧
      ∀ f, fiber = some f → s.registered f = true ∧ (s.fiber f).core_mask.getLsbD core = true := by
  have hholds := h.holds core
  have hring : ring s core = rings core := hholds.contents_eq
  unfold State.chooseFiber State.ringFront at hs
  dsimp only at hs
  by_cases hempty : (s.scheduler_local_ring_table core).m_count = 0
  · rw [if_pos hempty] at hs
    have hnil : ring s core = [] := by
      rw [hring]
      exact List.length_eq_zero_iff.mp (hholds.length.trans hempty)
    exact h.acquireFiber hcore rfl (hmet hnil) hs
  · rw [if_neg hempty] at hs
    cases hrings : rings core with
    | nil =>
      rw [hrings] at hholds
      exact absurd hholds.length.symm hempty
    | cons first rest =>
      rw [hrings] at hholds
      obtain ⟨ring', hfront, hrest⟩ := hholds.removeFront_cons
      rw [hfront] at hs
      obtain ⟨rfl, rfl⟩ := Prod.mk.inj (Option.some.inj hs)
      have hfirst := h.rings core first (by rw [hrings]; exact List.mem_cons_self)
      refine ⟨⟨Function.update rings core rest, ?_⟩, ⟨rfl, rfl, rfl, fun _ => rfl⟩, ?_⟩
      · apply h.stands h.queue (State.setRing_holds h.holds hrest)
        intro other k hk
        by_cases hother : other = core
        · subst hother
          rw [Function.update_self] at hk
          apply h.rings other k
          rw [hrings]
          exact List.mem_cons_of_mem _ hk
        · rw [Function.update_of_ne hother] at hk
          exact h.rings other k hk
      · intro f hf
        rw [← Option.some.inj hf]
        exact hfirst

omit [DecidableEq F] in
theorem switch (h : Invariant s rings) (core : ℕ) {fiber : Option F}
    (hfiber : ∀ f, fiber = some f → s.registered f = true) :
    Invariant { s with running := Function.update s.running core fiber } rings :=
  { h with
    running := by
      intro other k hk
      dsimp only at hk
      by_cases hother : other = core
      · subst hother
        rw [Function.update_self] at hk
        exact hfiber k hk
      · rw [Function.update_of_ne hother] at hk
        exact h.running other k hk }

theorem schedule (h : Invariant s rings) (hcore : core < s.core_count)
    (hmet : Met s (.schedule core)) {fiber : Option F}
    (hs : s.schedule core = some (s', fiber)) :
    (∃ rings', Invariant s' rings') ∧
      ∀ f, fiber = some f → (s.fiber f).core_mask.getLsbD core = true := by
  obtain ⟨⟨s₁, chosen⟩, hchoose, hs⟩ := Option.bind_eq_some_iff.mp hs
  obtain ⟨⟨rings₁, h₁⟩, hkept, hmask⟩ := h.chooseFiber hcore hmet hchoose
  cases chosen with
  | none =>
    obtain ⟨rfl, rfl⟩ := Prod.mk.inj (Option.some.inj hs)
    exact ⟨⟨rings₁, h₁⟩, nofun⟩
  | some first =>
    obtain ⟨s₂, hdispatch, hs⟩ := Option.bind_eq_some_iff.mp hs
    obtain ⟨rfl, rfl⟩ := Prod.mk.inj (Option.some.inj hs)
    obtain ⟨hfirst, hset⟩ := hmask first rfl
    unfold State.dispatch at hdispatch
    rw [if_pos (by rw [hkept.core_count]; exact hcore)] at hdispatch
    obtain rfl := Option.some.inj hdispatch
    constructor
    · have hmodified : Invariant (s₁.modify first fun x =>
          { x with fiber_state := .Running, current_core := core }) rings₁ := h₁.modify_state rfl
      refine ⟨rings₁, { hmodified.switch core ?_ with }⟩
      intro f hf
      obtain rfl := Option.some.inj hf
      rw [← hkept.registered] at hfirst
      exact hfirst
    · intro f hf
      obtain rfl := Option.some.inj hf
      exact hset

theorem modify_id (s : State F) (f : F) : s.modify f id = s := by
  unfold State.modify
  rw [id, Function.update_eq_self]

theorem insertSame (h : Invariant s rings) (hf : s.registered f = true)
    (hremovable : Removable s (s.fiber f)) (hs : s.addToSchedulerUnsafe f = some s') :
    ∃ rings', Invariant s' rings' := by
  rw [← modify_id s f] at hs
  exact h.insertAgain hf rfl (h.masks f hf) hremovable
    (fun core hcore => Or.inl (h.rings core f hcore).2) hs

theorem handlePrevious (h : Invariant s rings) (hf : s.running core = some f)
    (hmet : Met s (.handlePrevious core)) (hs : s.handlePrevious f core = some s') :
    ∃ rings', Invariant s' rings' := by
  have hleft : Invariant { s with running := Function.update s.running core none } rings :=
    h.switch core nofun
  have hring : ∀ other, ring s other = rings other := fun other => (h.holds other).contents_eq
  unfold State.handlePrevious at hs
  dsimp only at hs
  split at hs
  · split at hs
    · rename_i hstate
      apply hleft.insertSame (h.running core f hf) _ hs
      intro hlocal
      rw [hstate] at hlocal
      cases hlocal
    · rename_i hstate
      obtain rfl := Option.some.inj hs
      obtain ⟨hqueue, hrings, honly⟩ := hmet f hf hstate
      have hkeep : ∀ k, s.registered k = true → k ≠ f →
          Function.update s.registered f false k = true := by
        intro k hk hne
        rw [Function.update_of_ne hne]
        exact hk
      have hstill : ∀ k, Function.update s.registered f false k = true →
          k ≠ f ∧ s.registered k = true := by
        intro k hk
        by_cases hne : k = f
        · rw [hne, Function.update_self] at hk
          cases hk
        · rw [Function.update_of_ne hne] at hk
          exact ⟨hne, hk⟩
      refine ⟨rings, { hleft with masks := ?_, allocated := ?_, queue := ?_, rings := ?_, running := ?_ }⟩
      · exact fun k hk => h.masks k (hstill k hk).2
      · intro k hk
        obtain ⟨hne, hk⟩ := hstill k hk
        dsimp only
        rw [Function.update_of_ne hne]
        exact h.allocated k hk
      · intro k hk
        apply hkeep k (h.queue k hk)
        rintro rfl
        exact hqueue hk
      · intro other k hk
        refine ⟨hkeep k (h.rings other k hk).1 ?_, (h.rings other k hk).2⟩
        rintro rfl
        exact hrings other (by rw [hring]; exact hk)
      · intro other k hk
        apply hkeep k (hleft.running other k hk)
        rintro rfl
        by_cases hother : other = core
        · subst hother
          dsimp only at hk
          rw [Function.update_self] at hk
          cases hk
        · dsimp only at hk
          rw [Function.update_of_ne hother] at hk
          exact hother (honly other hk)
    · obtain rfl := Option.some.inj hs
      exact ⟨rings, hleft⟩
    · cases hs
  · cases hs

theorem enter (h : Invariant s rings) (hf : s.running 0 = some f) (hmet : Met s .enter)
    (hs : s.enter f = some s') : ∃ rings', Invariant s' rings' := by
  have hswitch : Invariant { s with running := Function.update s.running 0 none } rings :=
    h.switch 0 nofun
  have hleft : Invariant
      { s with running := Function.update s.running 0 none, entered := true } rings :=
    { hswitch with }
  unfold State.enter at hs
  dsimp only at hs
  split at hs
  · exact hleft.insertSame (h.running 0 f hf) (hmet f hf) hs
  · obtain rfl := Option.some.inj hs
    exact ⟨rings, hleft⟩

theorem setPriority (h : Invariant s rings) {fiber_local : Option F} {priority : ℤ}
    {r : ThreadResult} (hf : ∀ f, fiber_local = some f → s.registered f = true)
    (hmet : Met s (.setPriority fiber_local priority))
    (hs : s.setPriorityImpl fiber_local priority = some (r, s')) :
    ∃ rings', Invariant s' rings' := by
  rcases State.setPriorityImpl_cases hs with rfl | ⟨f, rfl, hpriority, hother, hadd⟩
  · exact ⟨rings, h⟩
  · have hregistered := hf f rfl
    apply h.insertAgain hregistered _ _ _ _ hadd
    · rfl
    · exact h.masks f hregistered
    · exact hmet hpriority f rfl hother
    · exact fun core hcore => Or.inl (h.rings core f hcore).2

theorem setActivity (h : Invariant s rings) {fiber_local : Option F}
    {activity_level : ActivityLevel} {r : ThreadResult}
    (hf : ∀ f, fiber_local = some f → s.registered f = true)
    (hmet : Met s (.setActivity fiber_local activity_level))
    (hs : s.setActivityImpl fiber_local activity_level = some (r, s')) :
    ∃ rings', Invariant s' rings' := by
  rcases State.setActivityImpl_cases hs with rfl | ⟨f, rfl, hother, hadd⟩
  · exact ⟨rings, h⟩
  · have hregistered := hf f rfl
    apply h.insertAgain hregistered _ _ _ _ hadd
    · rfl
    · exact h.masks f hregistered
    · exact hmet f rfl hother
    · exact fun core hcore => Or.inl (h.rings core f hcore).2

omit [DecidableEq F] in
theorem validMask_of_check (h : Invariant s rings) {core_mask : BitVec 64}
    (hcheck : core_mask &&& ~~~s.core_mask = 0) (hne : core_mask ≠ 0)
    (hlast : core_mask.getLsbD s.core_count = false) : ValidMask s.core_count core_mask := by
  refine ⟨hne, fun core hcore => ?_⟩
  have hlt := BitVec.lt_of_getLsbD hcore
  have hclear : (core_mask &&& ~~~s.core_mask).getLsbD core = false := by
    rw [hcheck]
    exact BitVec.getLsbD_zero
  rw [BitVec.getLsbD_and, BitVec.getLsbD_not, hcore, decide_eq_true hlt, h.core_mask core hlt,
    Bool.true_and, Bool.true_and, Bool.not_eq_false', decide_eq_true_eq] at hclear
  apply Nat.lt_of_le_of_ne hclear
  rintro rfl
  rw [hcore] at hlast
  cases hlast

theorem setCoreMask (h : Invariant s rings) {fiber_local : Option F} {core_mask : BitVec 64}
    {r : ThreadResult} (hf : ∀ f, fiber_local = some f → s.registered f = true)
    (hmet : Met s (.setCoreMask fiber_local core_mask))
    (hs : s.setCoreMaskImpl fiber_local core_mask = some (r, s')) :
    ∃ rings', Invariant s' rings' := by
  rcases State.setCoreMaskImpl_cases hs with rfl | ⟨f, rfl, hcheck, -, hadd⟩
  · exact ⟨rings, h⟩
  · obtain ⟨hne, hlast, hremovable, hrings⟩ := hmet hcheck f rfl
    apply h.insertAgain (hf f rfl) _ _ _ _ hadd
    · rfl
    · exact h.validMask_of_check hcheck hne hlast
    · exact hremovable
    · intro core hcore
      have hring : ∀ core, ring s core = rings core := fun core => (h.holds core).contents_eq
      have hcase := hrings core (by rw [hring]; exact hcore)
      rw [hring] at hcase
      exact hcase

omit [DecidableEq F] in
theorem validMask_of_core_id (h : Invariant s rings) {core_id : BitVec 32} {valid : Bool}
    (hmet : core_id ≠ cDefaultCoreId → core_id.toNat ≠ s.core_count)
    (hvalid : (if core_id = cDefaultCoreId then some true
      else (shiftInt 1 core_id.toNat).map fun bit => decide (bit &&& s.core_mask ≠ 0)) = some valid)
    (htrue : valid = true) :
    ValidMask s.core_count ((if core_id = cDefaultCoreId then cDefaultCoreIdMask
      else (1 : BitVec 32) <<< core_id.toNat).zeroExtend 64) := by
  obtain ⟨hone, hcount⟩ := h.core_count
  subst htrue
  split at hvalid
  · rename_i hdefault
    rw [if_pos hdefault, show cDefaultCoreIdMask = (1 : BitVec 32) <<< 0 by decide]
    exact validMask_of_one (Nat.lt_of_succ_le hone) (zeroExtend_one (by decide))
  · rename_i hdefault
    rw [if_neg hdefault]
    obtain ⟨bit, hshift, hbit⟩ := Option.map_eq_some_iff.mp hvalid
    obtain ⟨i, hi⟩ := List.exists_mem_of_ne_nil _ (cores_ne_nil (of_decide_eq_true hbit))
    have hand := mem_cores.mp hi
    rw [BitVec.getLsbD_and, Bool.and_eq_true] at hand
    have hlt := BitVec.lt_of_getLsbD hand.1
    have hle : i ≤ s.core_count := by
      have hset := hand.2
      rw [h.core_mask i hlt, decide_eq_true_eq] at hset
      exact hset
    have hcore := shiftInt_one_mem hshift hand.1 (by omega)
    have hne := hmet hdefault
    have hlt : core_id.toNat < s.core_count := by omega
    exact validMask_of_one hlt (zeroExtend_one (by omega))

theorem createThread (h : Invariant s rings) {slot : Option F} {reserved : Bool}
    {thread_func stack_size : BitVec 64} {priority : ℤ} {core_id : BitVec 32} {r : ThreadResult}
    (hslot : ∀ f, slot = some f → s.allocated f = false)
    (hmet : core_id ≠ cDefaultCoreId → core_id.toNat ≠ s.core_count)
    (hs : s.createThreadImpl slot reserved thread_func stack_size priority core_id = some (r, s')) :
    ∃ rings', Invariant s' rings' := by
  rcases State.createThreadImpl_cases hs with rfl | ⟨f, rfl, hvalid, hcase⟩
  · exact ⟨rings, h⟩
  · have hmask := h.validMask_of_core_id hmet hvalid rfl
    have hfree : s.registered f = false := by
      cases hf : s.registered f with
      | false => rfl
      | true =>
        have hallocated := hslot f rfl
        rw [h.allocated f hf] at hallocated
        cases hallocated
    have hnotring : ∀ core, f ∉ rings core := by
      intro core hcore
      rw [(h.rings core f hcore).1] at hfree
      cases hfree
    have hallocated : ∀ k, (k = f ∨ s.registered k = true) →
        Function.update s.allocated f true k = true := by
      intro k hk
      by_cases hkf : k = f
      · rw [hkf, Function.update_self]
      · rw [Function.update_of_ne hkf]
        exact h.allocated k (hk.resolve_left hkf)
    have h₁ : Invariant { s with allocated := Function.update s.allocated f true } rings :=
      { h with allocated := fun k hk => hallocated k (Or.inr hk) }
    rcases hcase with rfl | rfl
    · refine ⟨rings, h₁.modify ?_ ?_⟩
      · intro hf
        rw [hfree] at hf
        cases hf
      · exact fun core hcore => absurd hcore (hnotring core)
    · have hregistered : ∀ k, s.registered k = true →
          Function.update s.registered f true k = true := by
        intro k hk
        by_cases hkf : k = f
        · rw [hkf, Function.update_self]
        · rw [Function.update_of_ne hkf]
          exact hk
      have hold : ∀ k, k ≠ f → Function.update s.registered f true k = true →
          s.registered k = true := by
        intro k hkf hk
        rw [Function.update_of_ne hkf] at hk
        exact hk
      refine ⟨rings, ?_⟩
      constructor
      · exact h.core_count
      · exact h.core_mask
      · intro k hk
        by_cases hkf : k = f
        · rw [hkf, State.modify_self]
          exact hmask
        · rw [State.modify_of_ne _ _ hkf]
          exact h.masks k (hold k hkf hk)
      · intro k hk
        apply hallocated
        by_cases hkf : k = f
        · exact Or.inl hkf
        · exact Or.inr (hold k hkf hk)
      · exact fun k hk => hregistered k (h.queue k hk)
      · exact h.holds
      · intro core k hk
        have hkf : k ≠ f := by
          rintro rfl
          exact hnotring core hk
        rw [State.modify_of_ne _ _ hkf]
        exact ⟨hregistered k (h.rings core k hk).1, (h.rings core k hk).2⟩
      · exact fun core k hk => hregistered k (h.running core k hk)

theorem step (h : Invariant s rings) {e : Event F} (hmet : Met s e) (hstep : Step s e s') :
    ∃ rings', Invariant s' rings' := by
  cases hstep with
  | createThread hslot hs => exact h.createThread hslot hmet hs
  | setPriority hf hs => exact h.setPriority hf hmet hs
  | setCoreMask hf hs => exact h.setCoreMask hf hmet hs
  | setActivity hf hs => exact h.setActivity hf hmet hs
  | wait _ => exact ⟨rings, h.modify_state rfl⟩
  | exit _ => exact ⟨rings, h.modify_state rfl⟩
  | @endWait _ f hf hs =>
    apply h.insertAgain hf _ _ _ _ hs
    · rfl
    · exact h.masks f hf
    · nofun
    · exact fun core hcore => Or.inl (h.rings core f hcore).2
  | suspend _ => exact ⟨rings, h.modify_state rfl⟩
  | schedule hcore _ hs => exact (h.schedule hcore hmet hs).1
  | handlePrevious hf _ hs => exact h.handlePrevious hf hmet hs
  | enter hf _ hs => exact h.enter hf hmet hs

end Invariant

theorem initialized_invariant {core_count : ℕ} {main_fiber : F}
    (hcount : 1 ≤ core_count ∧ core_count ≤ 30)
    (hs : State.initialized core_count main_fiber = some s) : Invariant s fun _ => [] := by
  obtain ⟨bits, hshift, hbits⟩ := shiftInt_not_one hcount.2
  unfold State.initialized at hs
  rw [hshift] at hs
  obtain rfl := Option.some.inj hs
  have hmain : ∀ f, decide (f = main_fiber) = true → f = main_fiber := fun f =>
    of_decide_eq_true
  constructor
  · exact hcount
  · intro core hcore
    dsimp only
    rw [BitVec.getLsbD_not, hbits, decide_eq_true hcore, Bool.true_and, Bool.true_and,
      ← decide_not]
    exact decide_eq_decide.mpr Nat.not_lt
  · intro f hf
    rw [hmain f hf]
    dsimp only
    rw [Function.update_self]
    have hbit : ∀ i, (1 : BitVec 64).getLsbD i = decide (i = 0) := by
      intro i
      have hone := BitVec.getLsbD_one (w := 64) (i := i)
      rw [decide_eq_true (by decide : 0 < 64), Bool.true_and] at hone
      exact hone
    exact validMask_of_one hcount.1 hbit
  · exact fun f hf => hf
  · exact fun f hf => absurd hf List.not_mem_nil
  · exact fun core => RingBuffer.empty_holds (by decide)
  · exact fun core f hf => absurd hf List.not_mem_nil
  · intro core f hf
    dsimp only at hf ⊢
    by_cases hcore : core = 0
    · rw [hcore, Function.update_self] at hf
      rw [← Option.some.inj hf, decide_eq_true rfl]
    · rw [Function.update_of_ne hcore] at hf
      cases hf

theorem reachable_invariant {core_count : ℕ} (hcount : 1 ≤ core_count ∧ core_count ≤ 30)
    (h : Reachable core_count Met s) : ∃ rings, Invariant s rings := by
  induction h with
  | start hs => exact ⟨_, initialized_invariant hcount hs⟩
  | step _ hmet hstep ih =>
    obtain ⟨rings, hinv⟩ := ih
    exact hinv.step hmet hstep

structure Affine (P : State F → Event F → Prop) (s : State F) : Prop where
  masks : ∀ f, s.registered f = true → ValidMask s.core_count (s.fiber f).core_mask
  ranked : ∀ f, s.registered f = true → ∀ used_count : ℕ → ℕ,
    (∀ core, used_count core ≤ cMaxThreadCount) →
      ∃ found_core, rank used_count (s.fiber f).core_mask = some found_core ∧
        found_core < s.core_count ∧ (s.fiber f).core_mask.getLsbD found_core = true
  dispatched : ∀ core s' f, core < s.core_count → P s (.schedule core) →
    s.schedule core = some (s', some f) → (s.fiber f).core_mask.getLsbD core = true

section Examples

local instance two_fibers_ne : NeZero 2 := ⟨by decide⟩

def started : State (Fin 2) := (State.initialized 3 0).get rfl

def created : State (Fin 2) := ((started.createThreadImpl (some 1) true 1 1 0 1).get rfl).2

def runnable : State (Fin 2) := ((created.setActivityImpl (some 1) .Schedulable).get rfl).2

theorem runnable_reachable {P : State (Fin 2) → Event (Fin 2) → Prop}
    (hcreate : P started (.createThread (some 1) true 1 1 0 1))
    (hactivity : P created (.setActivity (some 1) .Schedulable)) : Reachable 3 P runnable := by
  have hstarted : State.initialized 3 (0 : Fin 2) = some started := rfl
  have hcreated : started.createThreadImpl (some 1) true 1 1 0 1 = some (.Success, created) := rfl
  have hrunnable : created.setActivityImpl (some 1) .Schedulable = some (.Success, runnable) := rfl
  have hstep := Reachable.step (Reachable.start hstarted) hcreate
    (Step.createThread (by decide) hcreated)
  exact Reachable.step hstep hactivity (Step.setActivity (by decide) hrunnable)

end Examples

end Awn.Ukern.Affinity
