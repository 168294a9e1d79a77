import Awn.Ukern.Waits.Waiting

namespace Awn.Ukern.Waits

open UserScheduler (removed mem_removed removed_single removed_removed unlinkAll unlinkAll_represents WaitEnded)

variable {F A : Type*} [DecidableEq F] [DecidableEq A] {T : FiberTable F}

section Scheduler

variable {s : UserScheduler F A} {f o : F} {a : A}

theorem transfer_free (ha : (s.fiber f).lock_address = some a) (hfree : s.word a = 0) :
    s.transferFiberForSignalKey T f = some (true, s.setWord a (s.fiber f).wait_tag) := by
  unfold UserScheduler.transferFiberForSignalKey
  rw [ha]
  dsimp only
  rw [if_neg (not_not.mpr hfree)]

theorem transfer_held (ha : (s.fiber f).lock_address = some a)
    (ho : owner (s.word a) = T.handle o) :
    s.transferFiberForSignalKey T f =
      some (false, (s.setWord a (s.word a ||| HasChildWaitersBit)).pushBack (.of o) f) := by
  have hused : s.word a ≠ 0 := by
    intro hzero
    rw [hzero, owner_zero] at ho
    exact (T.handle_form o).2 ho.symm
  unfold UserScheduler.transferFiberForSignalKey
  rw [ha]
  dsimp only
  rw [if_pos hused, ho, T.getFiberByHandle_handle]

theorem signalChildren_nil (s : UserScheduler F A) (stop : Node F) (n fuel : ℕ) :
    s.signalChildren T stop n fuel 1 stop = some s ∨
      (fuel = 0 ∧ s.signalChildren T stop n fuel 1 stop = none) := by
  cases fuel with
  | zero => exact Or.inr ⟨rfl, rfl⟩
  | succ fuel =>
    left
    unfold UserScheduler.signalChildren
    rw [if_pos rfl]

theorem signalChildren_single {stop : Node F} {n : ℕ} (hn : 2 ≤ n) (hstop : .inr f ≠ stop)
    (ha : (s.fiber f).lock_address = some a) (ho : owner (s.word a) = T.handle o)
    (hnext : ((s.unlink f).pushBack (.of o) f).links.next (.inr f) = .inl (.of o))
    (hlast : .inl (.of o) = stop ∨ n = 2) (fuel : ℕ) :
    s.signalChildren T stop n fuel 1 (.inr f) =
        some (((s.unlink f).setWord a (s.word a ||| HasChildWaitersBit)).pushBack (.of o) f) ∨
      (fuel < 2 ∧ s.signalChildren T stop n fuel 1 (.inr f) = none) := by
  have htransfer : (s.unlink f).transferFiberForSignalKey T f =
      some (false, ((s.unlink f).setWord a (s.word a ||| HasChildWaitersBit)).pushBack (.of o) f) :=
    transfer_held ha ho
  have hturn : ∀ fuel, s.signalChildren T stop n (fuel + 1) 1 (.inr f) =
      (((s.unlink f).setWord a (s.word a ||| HasChildWaitersBit)).pushBack (.of o) f).signalChildren
        T stop n fuel 2 (.inl (.of o)) := by
    intro fuel
    rw [UserScheduler.signalChildren, if_neg hstop, if_neg (by omega)]
    dsimp only
    rw [htransfer]
    dsimp only [Option.bind_eq_bind, Option.bind_some]
    rw [← hnext]
    rfl
  cases fuel with
  | zero => exact Or.inr ⟨by omega, rfl⟩
  | succ fuel =>
    rw [hturn]
    cases fuel with
    | zero => exact Or.inr ⟨by omega, rfl⟩
    | succ fuel =>
      left
      unfold UserScheduler.signalChildren
      rcases hlast with hlast | hlast
      · rw [if_pos hlast]
      · split
        · rfl
        · rw [if_pos (by omega)]

theorem signalParent_free (ha : (s.fiber f).lock_address = some a) (hfree : s.word a = 0)
    {object : WaitableObject} (hobject : (s.fiber f).waitable_object = some object) :
    ∃ s₁, s.signalParent T f = some s₁ ∧
      WaitEnded ((s.unlink f).setWord a (s.fiber f).wait_tag) s₁ f := by
  have htransfer : (s.unlink f).transferFiberForSignalKey T f =
      some (true, (s.unlink f).setWord a (s.fiber f).wait_tag) := transfer_free ha hfree
  have hend : ∃ s₁, ((s.unlink f).setWord a (s.fiber f).wait_tag).endWaitAndClear f = some s₁ := by
    unfold UserScheduler.endWaitAndClear
    rw [UserScheduler.setWord_fiber, UserScheduler.unlink_fiber, hobject]
    exact ⟨_, rfl⟩
  obtain ⟨s₁, hs₁⟩ := hend
  refine ⟨s₁, ?_, UserScheduler.endWaitAndClear_waitEnded hs₁⟩
  unfold UserScheduler.signalParent
  rw [htransfer]
  exact hs₁

theorem signalParent_held (ha : (s.fiber f).lock_address = some a)
    (ho : owner (s.word a) = T.handle o) :
    s.signalParent T f =
      some (((s.unlink f).setWord a (s.word a ||| HasChildWaitersBit)).pushBack (.of o) f) := by
  have htransfer : (s.unlink f).transferFiberForSignalKey T f =
      some (false, ((s.unlink f).setWord a (s.word a ||| HasChildWaitersBit)).pushBack (.of o) f) :=
    transfer_held ha ho
  unfold UserScheduler.signalParent
  rw [htransfer]
  rfl

end Scheduler

namespace Invariant

variable {s : State F A} {c : WaitList F → List F} {a : A} {p : F} {rest : List F}

omit [DecidableEq F] in
theorem key_waiter (h : Invariant T s c) (hkind : AllWaitWith s a .KeyArbiter) {f : F}
    (hf : f ∈ s.waiters a) : (s.scheduler.fiber f).wait_tag = T.handle f ∧
      ∃ lock_address, lock_address ≠ a ∧
        (s.scheduler.fiber f).lock_address = some lock_address := by
  rcases (h.waits a f hf).2 with hobject | ⟨-, hkey⟩
  · rw [hkind f hf] at hobject
    cases hobject
  · exact hkey

structure ParentTaken (T : FiberTable F) (s : State F A) (a : A) (p : F) (rest : List F)
    (s₁ : UserScheduler F A) (c₀ : WaitList F → List F) (lock_address : A) : Prop where
  signalParent : s.scheduler.signalParent T p = some s₁
  represents : s₁.links.Represents c₀
  children : c₀ (.of p) = rest
  invariant : Invariant T
    ⟨{ s₁ with links := unlinkAll s₁.links rest }, Function.update s.waiters a []⟩ (removed c₀ rest)
  fiber : ∀ g, g ≠ p → s₁.fiber g = s.scheduler.fiber g
  lock : (s.scheduler.fiber p).lock_address = some lock_address
  lock_ne : lock_address ≠ a
  word_owner : ∀ b o, owner (s.scheduler.word b) = T.handle o → owner (s₁.word b) = T.handle o
  word_free : s.scheduler.word lock_address = 0 → s₁.word lock_address = T.handle p
  taken : (owner (s₁.word lock_address) = T.handle p ∧ (s₁.fiber p).fiber_state ≠ .Waiting ∧
      ∀ list, p ∉ c₀ list) ∨
    ∃ o, owner (s₁.word lock_address) = T.handle o ∧ p ∈ c₀ (.of o)

theorem parentTaken (h : Invariant T s c) (hkind : AllWaitWith s a .KeyArbiter)
    (ha : s.waiters a = p :: rest) (htransfer : Transferable T s p) :
    ∃ s₁ c₀ lock_address, ParentTaken T s a p rest s₁ c₀ lock_address := by
  have hp : p ∈ s.waiters a := by
    rw [ha]
    exact List.mem_cons_self
  have hnodup := h.nodup a
  rw [ha] at hnodup
  have hprest := (List.nodup_cons.mp hnodup).1
  obtain ⟨htag, l, hla, hl⟩ := h.key_waiter hkind hp
  have hunlink := h.lists.represents.unlink p
  rw [removed_single h.lists.represents.nodup] at hunlink
  have hrest : removed c [p] (.of p) = rest := by
    rw [UserScheduler.removed_of_disjoint, (h.registered a p rest ha).2]
    intro g hg hgp
    rw [List.mem_singleton.mp hgp] at hg
    exact h.lists.foreign p hg
  have hall := unlinkAll_represents rest _ _ hunlink
  rw [removed_removed] at hall
  rcases htransfer l hl with hfree | ⟨o, ho, hparent⟩
  · obtain ⟨s₁, hs₁, hended⟩ := signalParent_free hl hfree (hkind p hp)
    have hlinks : s₁.links = s.scheduler.links.unlink (.inr p) := by
      rw [hended.links]
      exact Links.unlink_alone (Links.unlink_ring_self _ _)
    have hword : s₁.word = Function.update s.scheduler.word l (T.handle p) := by
      rw [hended.word, htag]
      rfl
    refine ⟨s₁, removed c [p], l, hs₁, ?_, hrest, ?_, hended.fiber, hl, hla, ?_, ?_, ?_⟩
    · rw [hlinks]
      exact hunlink
    · rw [removed_removed, hlinks]
      apply h.removeAll ha hall
      intro g hg
      exact hended.fiber g fun heq => hg (heq ▸ List.mem_cons_self)
    · intro b o ho
      rw [hword]
      by_cases hb : b = l
      · rw [hb, hfree, owner_zero] at ho
        exact absurd ho.symm (T.handle_form o).2
      · rw [Function.update_of_ne hb, ho]
    · intro _
      rw [hword, Function.update_self]
    · left
      refine ⟨?_, hended.fiber_state, fun list hmem => ?_⟩
      · rw [hword, Function.update_self, owner_handle]
      · exact (mem_removed.mp hmem).2 (List.mem_singleton_self p)
  · have hop : o ≠ p := by
      rintro rfl
      exact hparent ⟨a, rest, ha⟩
    have hout : ∀ list, p ∉ removed c [p] list := fun list hmem =>
      (mem_removed.mp hmem).2 (List.mem_singleton_self p)
    have hpush := hunlink.pushBack hout (.of o)
    have hlist : (.of p : WaitList F) ≠ .of o := fun heq => hop (WaitList.of.inj heq).symm
    have hword : ∀ b, ((((s.scheduler.unlink p).setWord l
        (s.scheduler.word l ||| HasChildWaitersBit)).pushBack (.of o) p).word b) =
        if b = l then s.scheduler.word l ||| HasChildWaitersBit else s.scheduler.word b := by
      intro b
      exact Function.update_apply _ _ _ _
    refine ⟨_, pushed (removed c [p]) (.of o) p, l, signalParent_held hl ho, hpush, ?_, ?_,
      fun _ _ => rfl, hl, hla, ?_, ?_, ?_⟩
    · rw [pushed_of_ne _ p hlist]
      exact hrest
    · have hbase : Invariant T
          ⟨{ s.scheduler with links := unlinkAll (s.scheduler.links.unlink (.inr p)) rest },
            Function.update s.waiters a []⟩ (removed c (p :: rest)) :=
        h.removeAll ha hall fun _ _ => rfl
      have hafter := unlinkAll_represents rest _ _ hpush
      rw [show Function.update (removed c [p]) (.of o) (removed c [p] (.of o) ++ [p]) =
        pushed (removed c [p]) (.of o) p from rfl, removed_pushed _ _ hprest, removed_removed]
        at hafter
      rw [removed_pushed _ _ hprest, removed_removed]
      have hpushed : Pushed
          ⟨{ s.scheduler with links := unlinkAll (s.scheduler.links.unlink (.inr p)) rest },
            Function.update s.waiters a []⟩
          ⟨{ ((s.scheduler.unlink p).setWord l
              (s.scheduler.word l ||| HasChildWaitersBit)).pushBack (.of o) p with
              links := unlinkAll (((s.scheduler.unlink p).setWord l
                (s.scheduler.word l ||| HasChildWaitersBit)).pushBack (.of o) p).links rest },
            Function.update s.waiters a []⟩ (removed c (p :: rest)) (.of o) p := by
        constructor
        · exact fun list hmem => (mem_removed.mp hmem).2 List.mem_cons_self
        · exact hlist.symm
        · exact hafter
        · exact fun _ _ => rfl
        · exact h.waiting hp
      apply hpushed.other hbase rfl
      right
      refine ⟨o, rfl, ?_⟩
      rintro ⟨b, others, hb⟩
      by_cases hba : b = a
      · rw [hba] at hb
        dsimp only at hb
        rw [Function.update_self] at hb
        cases hb
      · dsimp only at hb
        rw [Function.update_of_ne hba] at hb
        exact hparent ⟨b, others, hb⟩
    · intro b k hk
      rw [hword]
      split
      · rename_i hb
        rw [owner_or_bit, ← hb, hk]
      · exact hk
    · intro hfree
      rw [hfree, owner_zero] at ho
      exact absurd ho.symm (T.handle_form o).2
    · right
      refine ⟨o, ?_, ?_⟩
      · rw [hword, if_pos rfl, owner_or_bit, ho]
      · exact mem_pushed.mpr (Or.inr ⟨rfl, rfl⟩)

theorem signalKey_cases (h : Invariant T s c) {n : BitVec 32} (hn : n ≠ 0) (hfresh : Fresh s a)
    (ha : s.waiters a = p :: rest) {s₁ s₂ : UserScheduler F A}
    (hparent : s.scheduler.signalParent T p = some s₁)
    (hchildren : ∀ fuel, s₁.signalChildren T (.inl (.of p)) n.toNat fuel 1
        (s₁.links.next (.inl (.of p))) = some s₂ ∨
      (fuel < 2 ∧ s₁.signalChildren T (.inl (.of p)) n.toNat fuel 1
        (s₁.links.next (.inl (.of p))) = none)) (fuel : ℕ) :
    s.scheduler.signalKeyImpl T fuel (some a) n = some (.ok (s₂.setWord a 0)) ∨
      (fuel < (c .scheduler).length + 2 ∧
        s.scheduler.signalKeyImpl T fuel (some a) n = none) := by
  have hfind := h.find_eq hfresh
  rw [ha] at hfind
  unfold UserScheduler.signalKeyImpl
  dsimp only
  rw [if_neg hn]
  rcases UserScheduler.findWaitAddress_cases h.lists.represents fuel a with hfound | ⟨hle, hnone⟩
  · have hfound' : s.scheduler.findWaitAddress fuel a = some (some p) := by
      rw [hfound]
      exact congrArg some hfind
    rw [hfound']
    dsimp only
    rw [hparent]
    dsimp only [Option.bind_eq_bind, Option.bind_some]
    rcases hchildren fuel with hdone | ⟨hlt, hnone⟩
    · left
      rw [hdone]
      rfl
    · right
      refine ⟨by omega, ?_⟩
      rw [hnone]
      rfl
  · right
    refine ⟨by omega, ?_⟩
    rw [hnone]

theorem Taken.ofParent {s₁ s' : UserScheduler F A} {c₀ c' : WaitList F → List F} {l : A}
    {waiters : A → List F} (ht : ParentTaken T s a p rest s₁ c₀ l)
    (hword : ∀ o, owner (s₁.word l) = T.handle o → owner (s'.word l) = T.handle o)
    (hfiber : s'.fiber = s₁.fiber) (hlists : ∀ list, p ∈ c' list ↔ p ∈ c₀ list) :
    Taken T s ⟨s', waiters⟩ c' p := by
  refine ⟨l, ht.lock, ?_⟩
  rcases ht.taken with ⟨howner, hstate, hout⟩ | ⟨o, ho, hmem⟩
  · left
    refine ⟨hword p howner, ?_, fun list hmem => hout list ((hlists list).mp hmem)⟩
    rw [hfiber]
    exact hstate
  · right
    exact ⟨o, hword o ho, (hlists _).mpr hmem⟩

theorem signalKey_one (h : Invariant T s c) {n : BitVec 32} (hn : n ≠ 0) (hfresh : Fresh s a)
    (hkind : AllWaitWith s a .KeyArbiter) (ha : s.waiters a = [p]) (htransfer : Transferable T s p) :
    ∃ s₂ c', Returns (s.scheduler.signalKeyImpl T · (some a) n) (.ok s₂) ∧
      Invariant T ⟨s₂, Function.update s.waiters a []⟩ c' ∧
      Taken T s ⟨s₂, Function.update s.waiters a []⟩ c' p := by
  obtain ⟨s₁, c₀, l, ht⟩ := h.parentTaken hkind ha htransfer
  have hnext : s₁.links.next (.inl (.of p)) = .inl (.of p) := by
    rw [ht.represents.next_head, ht.children]
    rfl
  have hchildren : ∀ fuel, s₁.signalChildren T (.inl (.of p)) n.toNat fuel 1
        (s₁.links.next (.inl (.of p))) = some s₁ ∨
      (fuel < 2 ∧ s₁.signalChildren T (.inl (.of p)) n.toNat fuel 1
        (s₁.links.next (.inl (.of p))) = none) := by
    intro fuel
    rw [hnext]
    apply (signalChildren_nil s₁ _ _ fuel).imp id
    rintro ⟨rfl, hnone⟩
    exact ⟨by omega, hnone⟩
  refine ⟨_, c₀, returns_of_cases (h.signalKey_cases hn hfresh ha ht.signalParent hchildren), ?_, ?_⟩
  · have hinv := ht.invariant
    rw [UserScheduler.removed_nil] at hinv
    exact hinv.congr_fiber rfl rfl fun _ _ => rfl
  · apply Taken.ofParent ht
    · intro o ho
      rw [UserScheduler.setWord_of_ne _ _ ht.lock_ne]
      exact ho
    · rfl
    · exact fun _ => Iff.rfl

theorem signalKey_two (h : Invariant T s c) {n : BitVec 32} {f : F} (hfresh : Fresh s a)
    (hkind : AllWaitWith s a .KeyArbiter) (ha : s.waiters a = [p, f]) (hn : 2 ≤ n.toNat)
    (htransfer : Transferable T s p) (hfollows : Follows T s p f n) :
    ∃ s₂ c', Returns (s.scheduler.signalKeyImpl T · (some a) n) (.ok s₂) ∧
      Invariant T ⟨s₂, Function.update s.waiters a []⟩ c' ∧
      Taken T s ⟨s₂, Function.update s.waiters a []⟩ c' p ∧
      Taken T s ⟨s₂, Function.update s.waiters a []⟩ c' f := by
  have hzero : n ≠ 0 := by
    rintro rfl
    exact absurd hn (by decide)
  have hf : f ∈ s.waiters a := by
    rw [ha]
    exact List.mem_cons_of_mem _ (List.mem_singleton_self f)
  have hnodup := h.nodup a
  rw [ha] at hnodup
  have hpf : p ≠ f := fun heq => (List.nodup_cons.mp hnodup).1 (List.mem_singleton.mpr heq)
  obtain ⟨-, lf, hlfa, hlf⟩ := h.key_waiter hkind hf
  obtain ⟨s₁, c₀, l, ht⟩ := h.parentTaken hkind ha htransfer
  obtain ⟨o, ho, hof, hplace⟩ := hfollows lf hlf
  -- the owner of the second waiter's lock once the first waiter is taken
  have howner : owner (s₁.word lf) = T.handle o := by
    rcases ho with ⟨hlp, hfree, rfl⟩ | ho
    · rw [ht.lock] at hlp
      obtain rfl := Option.some.inj hlp
      rw [ht.word_free hfree, owner_handle]
    · exact ht.word_owner lf o ho
  have hlf₁ : (s₁.fiber f).lock_address = some lf := by
    rw [ht.fiber f hpf.symm]
    exact hlf
  have hunlink := unlinkAll_represents [f] _ _ ht.represents
  have hout : ∀ list, f ∉ removed c₀ [f] list := fun list hmem =>
    (mem_removed.mp hmem).2 (List.mem_singleton_self f)
  have hpush := hunlink.pushBack hout (.of o)
  have hnext : ((s₁.unlink f).pushBack (.of o) f).links.next (.inr f) = .inl (.of o) := by
    have hlast : Function.update (removed c₀ [f]) (.of o) (removed c₀ [f] (.of o) ++ [f]) (.of o) =
        removed c₀ [f] (.of o) ++ f :: [] := Function.update_self _ _ _
    exact hpush.next_elem hlast
  have hstart : s₁.links.next (.inl (.of p)) = .inr f := by
    rw [ht.represents.next_head, ht.children]
    rfl
  have hlast : (.inl (.of o) : Node F) = .inl (.of p) ∨ n.toNat = 2 := by
    rcases hplace with rfl | ⟨rfl, -⟩
    · exact Or.inl rfl
    · exact Or.inr rfl
  have hstop : (.inr f : Node F) ≠ .inl (.of p) := Sum.inr_ne_inl
  have hchildren := signalChildren_single hn hstop hlf₁ howner hnext hlast
  rw [← hstart] at hchildren
  refine ⟨_, pushed (removed c₀ [f]) (.of o) f,
    returns_of_cases (h.signalKey_cases hzero hfresh ha ht.signalParent hchildren), ?_, ?_, ?_⟩
  · have hpushed : Pushed
        ⟨{ s₁ with links := unlinkAll s₁.links [f] }, Function.update s.waiters a []⟩
        ⟨(((s₁.unlink f).setWord lf (s₁.word lf ||| HasChildWaitersBit)).pushBack (.of o) f).setWord
          a 0, Function.update s.waiters a []⟩ (removed c₀ [f]) (.of o) f := by
      constructor
      · exact hout
      · exact fun heq => hof (WaitList.of.inj heq)
      · exact hpush
      · exact fun _ _ => rfl
      · change (s₁.fiber f).fiber_state = .Waiting
        rw [ht.fiber f hpf.symm]
        exact h.waiting hf
    apply hpushed.other ht.invariant rfl
    right
    refine ⟨o, rfl, ?_⟩
    rintro ⟨b, others, hb⟩
    by_cases hba : b = a
    · rw [hba] at hb
      dsimp only at hb
      rw [Function.update_self] at hb
      cases hb
    · dsimp only at hb
      rw [Function.update_of_ne hba] at hb
      rcases hplace with rfl | ⟨-, hparent⟩
      · apply hba
        apply h.unique (f := o)
        · rw [hb]
          exact List.mem_cons_self
        · rw [ha]
          exact List.mem_cons_self
      · exact hparent ⟨b, others, hb⟩
  · apply Taken.ofParent ht
    · intro k hk
      rw [UserScheduler.setWord_of_ne _ _ ht.lock_ne, UserScheduler.pushBack_word]
      by_cases hl : l = lf
      · rw [hl, UserScheduler.setWord_self, owner_or_bit, ← hl, hk]
      · rw [UserScheduler.setWord_of_ne _ _ hl]
        exact hk
    · rfl
    · intro list
      rw [mem_pushed, mem_removed]
      constructor
      · rintro (⟨hmem, -⟩ | ⟨heq, -⟩)
        · exact hmem
        · exact absurd heq hpf
      · intro hmem
        exact Or.inl ⟨hmem, fun heq => hpf (List.mem_singleton.mp heq)⟩
  · refine ⟨lf, hlf, Or.inr ⟨o, ?_, mem_pushed.mpr (Or.inr ⟨rfl, rfl⟩)⟩⟩
    dsimp only
    rw [UserScheduler.setWord_of_ne _ _ hlfa, UserScheduler.pushBack_word,
      UserScheduler.setWord_self, owner_or_bit, howner]

theorem signalKey_none (h : Invariant T s c) {n : BitVec 32} (hn : n ≠ 0) (hfresh : Fresh s a)
    (ha : s.waiters a = []) :
    Returns (s.scheduler.signalKeyImpl T · (some a) n) (.error .InvalidAddress) := by
  have hfind := h.find_eq hfresh
  rw [ha] at hfind
  apply @returns_of_cases _ _ _ ((c .scheduler).length + 1)
  intro fuel
  unfold UserScheduler.signalKeyImpl
  dsimp only
  rw [if_neg hn]
  rcases UserScheduler.findWaitAddress_cases h.lists.represents fuel a with hfound | ⟨hle, hnone⟩
  · left
    have hfound' : s.scheduler.findWaitAddress fuel a = some none := by
      rw [hfound]
      exact congrArg some hfind
    rw [hfound']
  · right
    refine ⟨by omega, ?_⟩
    rw [hnone]

theorem signalKey (h : Invariant T s c) {n : BitVec 32} (hn : n ≠ 0) (hfresh : Fresh s a)
    (hkind : AllWaitWith s a .KeyArbiter) (hmet : SignalMet T s a n) :
    ∃ r, Returns (s.scheduler.signalKeyImpl T · (some a) n) r ∧
      (∃ c', Invariant T (s.afterWake a n r) c') ∧ Delivers T s (s.afterWake a n r) a n := by
  have hpos : 1 ≤ n.toNat := by
    have hne : n.toNat ≠ 0 := fun heq => hn (BitVec.eq_of_toNat_eq heq)
    omega
  rcases hmet with ha | ⟨p, ha, htransfer⟩ | ⟨p, f, ha, htwo, htransfer, hfollows⟩
  · refine ⟨_, h.signalKey_none hn hfresh ha, ⟨c, h⟩, ?_, c, h.lists.represents, h.registered a, ?_⟩
    · rw [ha, List.drop_nil]
      exact ha
    · rw [ha, List.take_nil]
      intro f hf
      cases hf
  · obtain ⟨s₂, c', hreturns, hinv, htaken⟩ := h.signalKey_one hn hfresh hkind ha htransfer
    have hdrop : (s.waiters a).drop n.toNat = [] := by
      rw [ha]
      exact List.drop_eq_nil_of_le hpos
    have hafter : s.afterWake a n (.ok s₂) = ⟨s₂, Function.update s.waiters a []⟩ := by
      rw [← hdrop]
      rfl
    rw [← hafter] at hinv htaken
    refine ⟨_, hreturns, ⟨c', hinv⟩, Function.update_self _ _ _, c', hinv.lists.represents,
      hinv.registered a, ?_⟩
    intro g hg
    have hgp := List.mem_of_mem_take hg
    rw [ha, List.mem_singleton] at hgp
    rw [hgp]
    exact htaken
  · obtain ⟨s₂, c', hreturns, hinv, hp, hf⟩ :=
      h.signalKey_two hfresh hkind ha htwo htransfer hfollows
    have hdrop : (s.waiters a).drop n.toNat = [] := by
      rw [ha]
      exact List.drop_eq_nil_of_le htwo
    have hafter : s.afterWake a n (.ok s₂) = ⟨s₂, Function.update s.waiters a []⟩ := by
      rw [← hdrop]
      rfl
    rw [← hafter] at hinv hp hf
    refine ⟨_, hreturns, ⟨c', hinv⟩, Function.update_self _ _ _, c', hinv.lists.represents,
      hinv.registered a, ?_⟩
    intro g hg
    have hgp := List.mem_of_mem_take hg
    rw [ha, List.mem_cons, List.mem_singleton] at hgp
    rcases hgp with rfl | rfl
    · exact hp
    · exact hf

end Invariant

end Awn.Ukern.Waits
