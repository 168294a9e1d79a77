import Awn.Ukern.Waits.Waiting

namespace Awn.Ukern.Waits

open UserScheduler (removed mem_removed removed_single removed_removed firstNode WaitEnded)

variable {F A : Type*} [DecidableEq F] {T : FiberTable F}

structure EndedAll (s s' : UserScheduler F A) (c : WaitList F → List F) (xs : List F) : Prop where
  links : s'.links.Represents (removed c xs)
  ended : s'.ended = s.ended ++ xs
  released : ∀ f ∈ xs, (s'.fiber f).fiber_state ≠ .Waiting
  others : ∀ f, f ∉ xs → s'.fiber f = s.fiber f

namespace EndedAll

variable {s s₁ s' : UserScheduler F A} {c : WaitList F → List F} {f : F} {xs : List F}

theorem nil (h : s.links.Represents c) : EndedAll s s c [] where
  links := by
    rw [UserScheduler.removed_nil]
    exact h
  ended := (List.append_nil _).symm
  released _ hf := absurd hf List.not_mem_nil
  others _ _ := rfl

theorem single (h : s.links.Represents c) (he : WaitEnded s s' f) : EndedAll s s' c [f] where
  links := by
    rw [he.links, ← removed_single h.nodup]
    exact h.unlink f
  ended := he.ended
  released g hg := by
    rw [List.mem_singleton.mp hg]
    exact he.fiber_state
  others g hg := he.fiber g fun heq => hg (List.mem_singleton.mpr heq)

theorem cons (hfirst : EndedAll s s₁ c [f]) (hrest : EndedAll s₁ s' (removed c [f]) xs)
    (hf : f ∉ xs) : EndedAll s s' c (f :: xs) where
  links := by
    have hlinks := hrest.links
    rw [removed_removed] at hlinks
    exact hlinks
  ended := by
    rw [hrest.ended, hfirst.ended, List.append_assoc]
    rfl
  released g hg := by
    rcases List.mem_cons.mp hg with rfl | hg
    · rw [hrest.others g hf]
      exact hfirst.released g (List.mem_singleton_self g)
    · exact hrest.released g hg
  others g hg := by
    rw [hrest.others g fun hmem => hg (List.mem_cons_of_mem _ hmem)]
    apply hfirst.others g
    intro hmem
    exact hg (List.mem_singleton.mp hmem ▸ List.mem_cons_self)

end EndedAll

theorem endWait_eq {s : UserScheduler F A} {f : F} {object : WaitableObject}
    (h : (s.fiber f).waitable_object = some object) :
    s.endWait f = some (s.endFiberWaitImpl f .Success) := by
  unfold UserScheduler.endWait
  rw [h]

theorem releaseWaiters_cases (p : F) (count : BitVec 32) : ∀ (ys : List F) (s : UserScheduler F A)
    (c : WaitList F → List F) (i : BitVec 32), s.links.Represents c → c (.of p) = ys →
      (∀ f ∈ ys, ∃ object, (s.fiber f).waitable_object = some object) →
      i.toNat + ys.length ≤ count.toNat + 1 →
      ∃ s', EndedAll s s' c ys ∧ ∀ fuel,
        (s.releaseWaiters (.inl (.of p)) count fuel i (firstNode (.of p) ys) = some s' ∨
          (fuel ≤ ys.length ∧
            s.releaseWaiters (.inl (.of p)) count fuel i (firstNode (.of p) ys) = none)) := by
  intro ys
  induction ys with
  | nil =>
    intro s c i h _ _ _
    refine ⟨s, EndedAll.nil h, fun fuel => ?_⟩
    cases fuel with
    | zero => exact Or.inr ⟨Nat.le_refl _, rfl⟩
    | succ fuel => exact Or.inl (if_pos rfl)
  | cons y ys ih =>
    intro s c i h hc hobject hcount
    obtain ⟨object, hy⟩ := hobject y List.mem_cons_self
    have hended := UserScheduler.endFiberWaitImpl_waitEnded s y .Success
    have hfirst := EndedAll.single h hended
    have hnodup := h.nodup (.of p)
    rw [hc] at hnodup
    have hyys := (List.nodup_cons.mp hnodup).1
    have htwice : (s.unlink y).endFiberWaitImpl y .Success = s.endFiberWaitImpl y .Success := by
      unfold UserScheduler.endFiberWaitImpl UserScheduler.unlink
      rw [Links.unlink_alone (Links.unlink_ring_self _ _)]
    have hrest : removed c [y] (.of p) = ys := by
      rw [← removed_single h.nodup]
      dsimp only
      rw [hc, List.erase_cons_head]
    have hsplit : c (.of p) = [] ++ y :: ys := hc
    have hnext : s.links.next (.inr y) = firstNode (.of p) ys := h.next_elem hsplit
    rw [List.length_cons] at hcount
    have hi : ¬count < i := by
      rw [BitVec.lt_def]
      omega
    have hsucc : (i + 1).toNat + ys.length ≤ count.toNat + 1 := by
      have hlt := count.isLt
      rw [BitVec.toNat_add]
      change (i.toNat + 1) % 2 ^ 32 + _ ≤ _
      omega
    have hobjects : ∀ f ∈ ys, ∃ object,
        ((s.endFiberWaitImpl y .Success).fiber f).waitable_object = some object := by
      intro f hf
      rw [hended.fiber f (fun heq => hyys (heq ▸ hf))]
      exact hobject f (List.mem_cons_of_mem _ hf)
    have hturn : ∀ fuel, s.releaseWaiters (.inl (.of p)) count (fuel + 1) i
        (firstNode (.of p) (y :: ys)) = (s.endFiberWaitImpl y .Success).releaseWaiters
          (.inl (.of p)) count fuel (i + 1) (firstNode (.of p) ys) := by
      intro fuel
      have hunlinked : (s.unlink y).endWait y = some (s.endFiberWaitImpl y .Success) := by
        have hy' : ((s.unlink y).fiber y).waitable_object = some object := hy
        rw [endWait_eq hy', htwice]
      change UserScheduler.releaseWaiters (.inl (.of p)) count (fuel + 1) s i (.inr y) = _
      rw [UserScheduler.releaseWaiters, if_neg Sum.inr_ne_inl, if_neg hi]
      dsimp only
      rw [hunlinked, hnext]
      rfl
    obtain ⟨s', hall, hcases⟩ := ih _ _ (i + 1) hfirst.links hrest hobjects hsucc
    refine ⟨s', hfirst.cons hall hyys, fun fuel => ?_⟩
    cases fuel with
    | zero => exact Or.inr ⟨Nat.zero_le _, rfl⟩
    | succ fuel =>
      rw [hturn, List.length_cons]
      apply (hcases fuel).imp id
      rintro ⟨hle, hnone⟩
      exact ⟨Nat.succ_le_succ hle, hnone⟩

theorem transferWaitList_nil {s : UserScheduler F A} {c : WaitList F → List F} {p : F}
    (h : s.links.Represents c) (hc : c (.of p) = []) (fuel : ℕ) :
    s.transferWaitList fuel p = some s := by
  have hempty : s.isEmpty (.of p) = true := (UserScheduler.isEmpty_eq_true h).mpr hc
  unfold UserScheduler.transferWaitList
  rw [hempty]
  rfl

theorem listCount_cases {links : Links (Node F)} {c : WaitList F → List F} {p : F}
    (h : links.Represents c) : ∀ (ys xs : List F), c (.of p) = xs ++ ys → ∀ fuel,
      UserScheduler.listCount links (.inl (.of p)) fuel (firstNode (.of p) ys) = some ys.length ∨
        (fuel ≤ ys.length ∧
          UserScheduler.listCount links (.inl (.of p)) fuel (firstNode (.of p) ys) = none) := by
  intro ys
  induction ys with
  | nil =>
    intro xs _ fuel
    cases fuel with
    | zero => exact Or.inr ⟨Nat.le_refl _, rfl⟩
    | succ fuel => exact Or.inl (if_pos rfl)
  | cons y ys ih =>
    intro xs hc fuel
    have hnext : links.next (.inr y) = firstNode (.of p) ys := h.next_elem hc
    have hc' : c (.of p) = (xs ++ [y]) ++ ys := by
      rw [hc, List.append_assoc]
      rfl
    cases fuel with
    | zero => exact Or.inr ⟨Nat.zero_le _, rfl⟩
    | succ fuel =>
      have hturn : UserScheduler.listCount links (.inl (.of p)) (fuel + 1)
          (firstNode (.of p) (y :: ys)) = (UserScheduler.listCount links (.inl (.of p)) fuel
            (firstNode (.of p) ys)).map (· + 1) := by
        rw [← hnext]
        exact if_neg Sum.inr_ne_inl
      rw [hturn]
      rcases ih (xs ++ [y]) hc' fuel with hdone | ⟨hle, hnone⟩
      · left
        rw [hdone]
        rfl
      · right
        refine ⟨Nat.succ_le_succ hle, ?_⟩
        rw [hnone]
        rfl

theorem wake_cases {s : UserScheduler F A} {c : WaitList F → List F} {p : F} {rest : List F}
    (h : s.links.Represents c) (hc : c (.of p) = rest) (hp : p ∉ rest)
    (hobject : ∃ object, (s.fiber p).waitable_object = some object)
    {loop : ℕ → UserScheduler F A → Option (UserScheduler F A)}
    (hloop : ∀ s₁, EndedAll s s₁ c [p] → removed c [p] (.of p) = rest →
      ∃ s', EndedAll s₁ s' (removed c [p]) rest ∧ ∀ fuel, loop fuel s₁ = some s' ∨
        (fuel ≤ rest.length ∧ loop fuel s₁ = none)) :
    ∃ s', EndedAll s s' c (p :: rest) ∧ ∀ fuel,
      ((s.endWait p >>= fun s => loop fuel s >>= fun s => s.transferWaitList fuel p >>= fun s =>
          some (Except.ok s : Except Result (UserScheduler F A))) = some (.ok s') ∨
        (fuel ≤ rest.length ∧
          (s.endWait p >>= fun s => loop fuel s >>= fun s => s.transferWaitList fuel p >>= fun s =>
            some (Except.ok s : Except Result (UserScheduler F A))) = none)) := by
  obtain ⟨object, hobject⟩ := hobject
  have hfirst := EndedAll.single h (UserScheduler.endFiberWaitImpl_waitEnded s p .Success)
  have hrest : removed c [p] (.of p) = rest := by
    rw [UserScheduler.removed_of_disjoint, hc]
    intro g hg hgp
    rw [List.mem_singleton.mp hgp, hc] at hg
    exact hp hg
  obtain ⟨s', hall, hcases⟩ := hloop _ hfirst hrest
  have hnil : removed (removed c [p]) rest (.of p) = [] := by
    apply List.eq_nil_iff_forall_not_mem.mpr
    intro g hg
    obtain ⟨hg, hout⟩ := mem_removed.mp hg
    rw [hrest] at hg
    exact hout hg
  refine ⟨s', hfirst.cons hall hp, fun fuel => ?_⟩
  rw [endWait_eq hobject]
  dsimp only [Option.bind_eq_bind, Option.bind_some]
  rcases hcases fuel with hdone | ⟨hle, hnone⟩
  · left
    rw [hdone]
    dsimp only [Option.bind_some]
    rw [transferWaitList_nil hall.links hnil]
    rfl
  · right
    refine ⟨hle, ?_⟩
    rw [hnone]
    rfl

variable [DecidableEq A]

namespace Invariant

variable {s : State F A} {c : WaitList F → List F} {a : A} {p : F} {rest : List F}

omit [DecidableEq F] in
theorem object_of_waiter (h : Invariant T s c) {f : F} (hf : f ∈ s.waiters a) :
    ∃ object, (s.scheduler.fiber f).waitable_object = some object := by
  rcases (h.waits a f hf).2 with hobject | ⟨hobject, -⟩
  · exact ⟨_, hobject⟩
  · exact ⟨_, hobject⟩

omit [DecidableEq F] in
theorem parent_notMem (h : Invariant T s c) (ha : s.waiters a = p :: rest) : p ∉ rest := by
  have hnodup := h.nodup a
  rw [ha] at hnodup
  exact (List.nodup_cons.mp hnodup).1

theorem wakeLoop (h : Invariant T s c) (ha : s.waiters a = p :: rest) {count : BitVec 32}
    (hcount : (s.waiters a).length ≤ count.toNat) {s₁ : UserScheduler F A}
    (hfirst : EndedAll s.scheduler s₁ c [p]) (hrest : removed c [p] (.of p) = rest) :
    ∃ s', EndedAll s₁ s' (removed c [p]) rest ∧ ∀ fuel,
      s₁.releaseWaiters (.inl (.of p)) count fuel 1 (s₁.links.next (.inl (.of p))) = some s' ∨
        (fuel ≤ rest.length ∧ s₁.releaseWaiters (.inl (.of p)) count fuel 1
          (s₁.links.next (.inl (.of p))) = none) := by
  have hobjects : ∀ f ∈ rest, ∃ object, (s₁.fiber f).waitable_object = some object := by
    intro f hf
    rw [hfirst.others f fun hfp => h.parent_notMem ha (List.mem_singleton.mp hfp ▸ hf)]
    exact h.object_of_waiter (a := a) (by rw [ha]; exact List.mem_cons_of_mem _ hf)
  have hnext : s₁.links.next (.inl (.of p)) = firstNode (.of p) rest := by
    rw [← hrest]
    exact hfirst.links.next_head _
  rw [hnext]
  apply releaseWaiters_cases p count rest s₁ _ 1 hfirst.links hrest hobjects
  rw [ha, List.length_cons] at hcount
  change 1 + rest.length ≤ _
  omega

theorem released (h : Invariant T s c) {xs : List F} (ha : s.waiters a = xs) {count : BitVec 32}
    (hcount : xs.length ≤ count.toNat) {s' : UserScheduler F A}
    (hall : EndedAll s.scheduler s' c xs) :
    (∃ c', Invariant T (s.afterWake a count (.ok s')) c') ∧
      Releases s (s.afterWake a count (.ok s')) a count := by
  have hdrop : (s.waiters a).drop count.toNat = [] := by
    rw [ha]
    exact List.drop_eq_nil_of_le hcount
  have htake : (s.waiters a).take count.toNat = xs := by
    rw [ha]
    exact List.take_of_length_le hcount
  have hafter : s.afterWake a count (.ok s') = ⟨s', Function.update s.waiters a []⟩ := by
    rw [← hdrop]
    rfl
  have hinv := h.removeAll ha hall.links hall.others
  rw [← hafter] at hinv
  refine ⟨⟨_, hinv⟩, ?_, ?_, ?_, Function.update_self _ _ _, _, hinv.lists.represents,
    hinv.registered a⟩
  · rw [htake]
    exact hall.ended
  · rw [htake]
    exact hall.released
  · rw [htake]
    exact hall.others

omit [DecidableEq F] in
theorem releasedNone (h : Invariant T s c) {count : BitVec 32}
    (hnone : (s.waiters a).take count.toNat = []) {s' : UserScheduler F A}
    (hlinks : s'.links = s.scheduler.links) (hfiber : s'.fiber = s.scheduler.fiber)
    (hended : s'.ended = s.scheduler.ended) :
    (∃ c', Invariant T (s.afterWake a count (.ok s')) c') ∧
      Releases s (s.afterWake a count (.ok s')) a count := by
  have hdrop : (s.waiters a).drop count.toNat = s.waiters a := by
    have hsplit := List.take_append_drop count.toNat (s.waiters a)
    rw [hnone] at hsplit
    exact hsplit
  have hwaiters : (s.afterWake a count (.ok s')).waiters = s.waiters := by
    change Function.update s.waiters a _ = _
    rw [hdrop, Function.update_eq_self]
  have hinv : Invariant T (s.afterWake a count (.ok s')) c :=
    h.congr_fiber hlinks hwaiters fun f _ => congrFun hfiber f
  refine ⟨⟨_, hinv⟩, ?_, ?_, ?_, Function.update_self _ _ _, _, hinv.lists.represents,
    hinv.registered a⟩
  · rw [hnone, List.append_nil]
    exact hended
  · rw [hnone]
    exact fun f hf => absurd hf List.not_mem_nil
  · exact fun f _ => congrFun hfiber f

omit [DecidableEq F] in
theorem findWaitAddress_cases (h : Invariant T s c) (hfresh : Fresh s a) (fuel : ℕ) :
    s.scheduler.findWaitAddress fuel a = some (s.waiters a).head? ∨
      (fuel ≤ (c .scheduler).length ∧ s.scheduler.findWaitAddress fuel a = none) := by
  rw [← h.find_eq hfresh]
  exact UserScheduler.findWaitAddress_cases h.lists.represents fuel a

theorem wakeByAddress (h : Invariant T s c) {count : BitVec 32}
    (hmet : count ≠ 0 → Fresh s a ∧ (s.waiters a).length ≤ count.toNat) :
    ∃ r, Returns (s.scheduler.wakeByAddressImpl · (some a) count) r ∧
      (∃ c', Invariant T (s.afterWake a count r) c') ∧ Releases s (s.afterWake a count r) a count := by
  by_cases hzero : count = 0
  · subst hzero
    have hcall : ∀ fuel, s.scheduler.wakeByAddressImpl fuel (some a) 0 = some (.ok s.scheduler) := by
      intro fuel
      unfold UserScheduler.wakeByAddressImpl
      dsimp only
      rw [if_pos rfl]
    refine ⟨.ok s.scheduler, ⟨⟨0, hcall 0⟩, fun fuel r hr => ?_⟩, ?_⟩
    · rw [hcall] at hr
      exact (Option.some.inj hr).symm
    · apply h.releasedNone _ rfl rfl rfl
      rw [show (0 : BitVec 32).toNat = 0 from rfl, List.take_zero]
  obtain ⟨hfresh, hcount⟩ := hmet hzero
  cases ha : s.waiters a with
  | nil =>
    refine ⟨.ok s.scheduler, @returns_of_cases _ _ _ ((c .scheduler).length + 1) ?_, ?_⟩
    · intro fuel
      unfold UserScheduler.wakeByAddressImpl
      dsimp only
      rw [if_neg hzero]
      rcases h.findWaitAddress_cases hfresh fuel with hfound | ⟨hle, hnone⟩
      · left
        rw [hfound, ha]
        rfl
      · right
        refine ⟨by omega, ?_⟩
        rw [hnone]
    · exact h.releasedNone (by rw [ha, List.take_nil]) rfl rfl rfl
  | cons p rest =>
    have hp : p ∈ s.waiters a := by
      rw [ha]
      exact List.mem_cons_self
    obtain ⟨s', hall, hcases⟩ := wake_cases h.lists.represents (h.registered a p rest ha).2
      (h.parent_notMem ha) (h.object_of_waiter hp)
      fun s₁ hfirst hrest => h.wakeLoop ha hcount hfirst hrest
    refine ⟨.ok s', @returns_of_cases _ _ _ ((c .scheduler).length + rest.length + 1) ?_, ?_⟩
    · intro fuel
      unfold UserScheduler.wakeByAddressImpl
      dsimp only
      rw [if_neg hzero]
      rcases h.findWaitAddress_cases hfresh fuel with hfound | ⟨hle, hnone⟩
      · rw [hfound, ha]
        dsimp only [List.head?_cons]
        apply (hcases fuel).imp id
        rintro ⟨hle, hnone⟩
        exact ⟨by omega, hnone⟩
      · right
        refine ⟨by omega, ?_⟩
        rw [hnone]
    · exact h.released ha (ha ▸ hcount) hall

theorem wakeByAddressIncrementEqual (h : Invariant T s c) {value count : BitVec 32}
    (hvalue : s.scheduler.word a = value) (hfresh : Fresh s a)
    (hmet : s.waiters a = [] ∨ (count ≠ 0 ∧ ∃ p, s.waiters a = [p])) :
    ∃ r, Returns (s.scheduler.wakeByAddressIncrementEqualImpl · (some a) value count) r ∧
      (∃ c', Invariant T (s.afterWake a count r) c') ∧ Releases s (s.afterWake a count r) a count := by
  have h₁ : Invariant T { s with scheduler := s.scheduler.setWord a (value + 1) } c :=
    h.congr_fiber rfl rfl fun _ _ => rfl
  have hfind := h₁.findWaitAddress_cases (a := a) hfresh
  rcases hmet with ha | ⟨hzero, p, ha⟩
  · refine ⟨.ok (s.scheduler.setWord a (value + 1)),
      @returns_of_cases _ _ _ ((c .scheduler).length + 1) ?_, ?_⟩
    · intro fuel
      unfold UserScheduler.wakeByAddressIncrementEqualImpl
      dsimp only
      rw [if_neg (not_not.mpr hvalue)]
      rcases hfind fuel with hfound | ⟨hle, hnone⟩
      · left
        dsimp only at hfound
        rw [hfound, ha]
        rfl
      · right
        refine ⟨by omega, ?_⟩
        dsimp only at hnone
        rw [hnone]
    · exact h.releasedNone (by rw [ha, List.take_nil]) rfl rfl rfl
  · have hp : p ∈ s.waiters a := by
      rw [ha]
      exact List.mem_cons_self
    have hpos : 1 ≤ count.toNat := by
      have hne : count.toNat ≠ 0 := fun heq => hzero (BitVec.eq_of_toNat_eq heq)
      omega
    have hloop : ∀ s₁, EndedAll (s.scheduler.setWord a (value + 1)) s₁ c [p] →
        removed c [p] (.of p) = [] →
        ∃ s', EndedAll s₁ s' (removed c [p]) [] ∧ ∀ fuel,
          s₁.releaseWaitersInPlace (.inl (.of p)) count fuel 1 (s₁.links.next (.inl (.of p))) =
              some s' ∨
            (fuel ≤ 0 ∧ s₁.releaseWaitersInPlace (.inl (.of p)) count fuel 1
              (s₁.links.next (.inl (.of p))) = none) := by
      intro s₁ hfirst hrest
      refine ⟨s₁, EndedAll.nil hfirst.links, fun fuel => ?_⟩
      have hnext : s₁.links.next (.inl (.of p)) = .inl (.of p) := by
        rw [hfirst.links.next_head, hrest]
        rfl
      rw [hnext]
      cases fuel with
      | zero => exact Or.inr ⟨Nat.le_refl _, rfl⟩
      | succ fuel => exact Or.inl (if_pos rfl)
    obtain ⟨s', hall, hcases⟩ := wake_cases h₁.lists.represents (h₁.registered a p [] ha).2
      List.not_mem_nil (h₁.object_of_waiter (a := a) hp) hloop
    refine ⟨.ok s', @returns_of_cases _ _ _ ((c .scheduler).length + 1) ?_, ?_⟩
    · intro fuel
      unfold UserScheduler.wakeByAddressIncrementEqualImpl
      dsimp only
      rw [if_neg (not_not.mpr hvalue)]
      rcases hfind fuel with hfound | ⟨hle, hnone⟩
      · dsimp only at hfound
        rw [hfound, ha]
        dsimp only [List.head?_cons]
        apply (hcases fuel).imp id
        rintro ⟨hle, hnone⟩
        exact ⟨by simp only [List.length_nil] at hle; omega, hnone⟩
      · right
        refine ⟨by omega, ?_⟩
        dsimp only at hnone
        rw [hnone]
    · exact h.released ha hpos
        ⟨hall.links, hall.ended, hall.released, hall.others⟩

theorem wakeByAddressModifyLessThan (h : Invariant T s c) {value count : BitVec 32}
    (hvalue : s.scheduler.word a = value) (hwaiters : s.waiters a ≠ [])
    (hcount : (s.waiters a).length ≤ count.toNat) :
    ∃ r, Returns (s.scheduler.wakeByAddressModifyLessThanImpl · (some a) value count) r ∧
      (∃ c', Invariant T (s.afterWake a count r) c') ∧ Releases s (s.afterWake a count r) a count := by
  obtain ⟨p, rest, ha⟩ := List.exists_cons_of_ne_nil hwaiters
  have hp : p ∈ s.waiters a := by
    rw [ha]
    exact List.mem_cons_self
  obtain ⟨-, hrest⟩ := h.registered a p rest ha
  have hlen : (s.waiters a).length = rest.length + 1 := by
    rw [ha, List.length_cons]
  have hpos : 0 < count := by
    rw [BitVec.lt_def]
    change 0 < count.toNat
    omega
  have hsignal : ∀ fuel, s.scheduler.signalValue fuel (some p) count = some (-1) ∨
      (fuel ≤ rest.length ∧ s.scheduler.signalValue fuel (some p) count = none) := by
    intro fuel
    have hstart : s.scheduler.links.next (.inl (.of p)) = firstNode (.of p) rest := by
      rw [← hrest]
      exact h.lists.represents.next_head _
    unfold UserScheduler.signalValue
    dsimp only
    rw [if_pos hpos, hstart]
    rcases listCount_cases h.lists.represents rest [] hrest fuel with hdone | ⟨hle, hnone⟩
    · left
      rw [hdone, Option.map_some, if_pos (by omega)]
    · right
      refine ⟨hle, ?_⟩
      rw [hnone]
      rfl
  have h₁ : Invariant T { s with scheduler := s.scheduler.setWord a (value + -1) } c :=
    h.congr_fiber rfl rfl fun _ _ => rfl
  obtain ⟨s', hall, hcases⟩ := wake_cases h₁.lists.represents (h₁.registered a p rest ha).2
    (h₁.parent_notMem ha) (h₁.object_of_waiter (a := a) hp)
    fun s₁ hfirst hrest => h₁.wakeLoop ha hcount hfirst hrest
  have hfresh : Fresh s a := fun hnone => absurd hnone hwaiters
  refine ⟨.ok s', @returns_of_cases _ _ _ ((c .scheduler).length + rest.length + 1) ?_, ?_⟩
  · intro fuel
    unfold UserScheduler.wakeByAddressModifyLessThanImpl
    dsimp only
    rw [if_neg (not_not.mpr hvalue)]
    rcases h.findWaitAddress_cases hfresh fuel with hfound | ⟨hle, hnone⟩
    · rw [hfound, ha]
      dsimp only [List.head?_cons, Option.bind_some]
      rcases hsignal fuel with hdone | ⟨hle, hnone⟩
      · rw [hdone]
        dsimp only [Option.bind_some]
        apply (hcases fuel).imp id
        rintro ⟨hle, hnone⟩
        exact ⟨by omega, hnone⟩
      · right
        refine ⟨by omega, ?_⟩
        rw [hnone]
        rfl
    · right
      refine ⟨by omega, ?_⟩
      rw [hnone]
      rfl
  · exact h.released ha (ha ▸ hcount) ⟨hall.links, hall.ended, hall.released, hall.others⟩

end Invariant

end Awn.Ukern.Waits
