import Awn.Ukern.Lock

namespace Awn.Ukern.InternalCriticalSection

variable {F A : Type*} {T : FiberTable F} {m_handle : A}

def Holds (s : State F A) (f : F) : Prop :=
  s.pc f = .inside ∨ s.pc f = .release ∨ s.pc f = .recheck ∨
    (s.pc f = .blocked ∧ (s.scheduler.fiber f).fiber_state ≠ .Waiting)

def Blocked (s : State F A) (f : F) : Prop :=
  s.pc f = .blocked ∧ (s.scheduler.fiber f).fiber_state = .Waiting

variable (T m_handle)

structure Invariant (s : State F A) (c : WaitList F → List F) : Prop where
  represents : s.scheduler.links.Represents c
  not_aborted : ∀ f, s.pc f ≠ .aborted
  not_stuck : ∀ f, s.pc f ≠ .stuck
  owner_form : owner (s.word m_handle) = 0 ∨ ∃ g, owner (s.word m_handle) = T.handle g
  holds : ∀ f, owner (s.word m_handle) = T.handle f ↔ Holds s f
  blocked : ∀ f, Blocked s f ↔ f ∈ s.waiting
  owner_list : ∀ g, owner (s.word m_handle) = T.handle g → c (.of g) = s.waiting
  other_list : ∀ list, (∀ g, list = .of g → owner (s.word m_handle) ≠ T.handle g) → c list = []
  announced : s.waiting ≠ [] →
    (∃ g, owner (s.word m_handle) = T.handle g) ∧
      s.word m_handle = owner (s.word m_handle) ||| HasChildWaitersBit
  lock_address : ∀ f ∈ s.waiting, (s.scheduler.fiber f).lock_address = some m_handle
  wait_tag : ∀ f ∈ s.waiting, (s.scheduler.fiber f).wait_tag = T.handle f
  waitable_object : ∀ f ∈ s.waiting, (s.scheduler.fiber f).waitable_object = some .LockArbiter
  result : ∀ f, s.pc f = .blocked → (s.scheduler.fiber f).fiber_state ≠ .Waiting →
    (s.scheduler.fiber f).last_result = .Success

namespace Invariant

variable {T m_handle} {s : State F A} {c : WaitList F → List F}

theorem start (h : Start m_handle s) : Invariant T m_handle s (fun _ => []) where
  represents := by
    rw [h.links]
    exact Links.represents_alone
  not_aborted f := by
    rw [h.outside f]
    exact Pc.noConfusion
  not_stuck f := by
    rw [h.outside f]
    exact Pc.noConfusion
  owner_form := by
    left
    rw [h.word]
    exact owner_zero
  holds f := by
    rw [h.word, owner_zero]
    constructor
    · intro hf
      exact absurd hf.symm (T.handle_form f).2
    · unfold Holds
      rw [h.outside f]
      rintro (hf | hf | hf | ⟨hf, -⟩) <;> cases hf
  blocked f := by
    unfold Blocked
    rw [h.outside f, h.waiting]
    constructor
    · rintro ⟨hf, -⟩
      cases hf
    · intro hf
      cases hf
  owner_list g _ := h.waiting.symm
  other_list _ _ := rfl
  announced hne := absurd h.waiting hne
  lock_address f hf := by
    rw [h.waiting] at hf
    cases hf
  wait_tag f hf := by
    rw [h.waiting] at hf
    cases hf
  waitable_object f hf := by
    rw [h.waiting] at hf
    cases hf
  result f hf := by
    rw [h.outside f] at hf
    cases hf

theorem list_cases (h : Invariant T m_handle s c) (list : WaitList F) :
    c list = [] ∨ ∃ g, list = .of g ∧ owner (s.word m_handle) = T.handle g := by
  by_cases hlist : ∃ g, list = .of g ∧ owner (s.word m_handle) = T.handle g
  · exact Or.inr hlist
  · left
    apply h.other_list
    intro g hg howner
    exact hlist ⟨g, hg, howner⟩

theorem mem_list (h : Invariant T m_handle s c) {list : WaitList F} {f : F} (hf : f ∈ c list) :
    f ∈ s.waiting := by
  rcases h.list_cases list with hnil | ⟨g, rfl, howner⟩
  · rw [hnil] at hf
    cases hf
  · rw [h.owner_list g howner] at hf
    exact hf

theorem not_listed (h : Invariant T m_handle s c) {f : F} (hf : s.pc f ≠ .blocked)
    (list : WaitList F) : f ∉ c list := by
  intro hmem
  exact hf ((h.blocked f).mpr (h.mem_list hmem)).1

theorem not_holds (s : State F A) {f : F}
    (hpc : s.pc f ≠ .inside ∧ s.pc f ≠ .release ∧ s.pc f ≠ .recheck ∧ s.pc f ≠ .blocked) :
    ¬Holds s f := by
  rintro (h | h | h | ⟨h, -⟩)
  · exact hpc.1 h
  · exact hpc.2.1 h
  · exact hpc.2.2.1 h
  · exact hpc.2.2.2 h

theorem lists_nil (h : Invariant T m_handle s c) (hwaiting : s.waiting = []) (list : WaitList F) :
    c list = [] := by
  rcases h.list_cases list with hnil | ⟨g, rfl, howner⟩
  · exact hnil
  · rw [h.owner_list g howner, hwaiting]

theorem waiting_nil_of_zero (h : Invariant T m_handle s c) (hzero : s.word m_handle = 0) :
    s.waiting = [] := by
  by_contra hne
  obtain ⟨⟨g, howner⟩, -⟩ := h.announced hne
  rw [hzero, owner_zero] at howner
  exact (T.handle_form g).2 howner.symm

theorem waiting_nil_of_bare (h : Invariant T m_handle s c) {f : F}
    (hword : s.word m_handle = T.handle f) : s.waiting = [] := by
  by_contra hne
  obtain ⟨-, hbit⟩ := h.announced hne
  rw [hword, owner_handle] at hbit
  exact handle_or_bit_ne T f hbit.symm

theorem not_holds_of_zero (h : Invariant T m_handle s c) (hzero : s.word m_handle = 0) (f : F) :
    ¬Holds s f := by
  intro hf
  have howner := (h.holds f).mpr hf
  rw [hzero, owner_zero] at howner
  exact (T.handle_form f).2 howner.symm

theorem holds_congr {s' : State F A} {g : F} (hpc : s'.pc g = s.pc g)
    (hfiber : s'.scheduler.fiber g = s.scheduler.fiber g) : Holds s' g ↔ Holds s g := by
  unfold Holds
  rw [hpc, hfiber]

theorem blocked_congr {s' : State F A} {g : F} (hpc : s'.pc g = s.pc g)
    (hfiber : s'.scheduler.fiber g = s.scheduler.fiber g) : Blocked s' g ↔ Blocked s g := by
  unfold Blocked
  rw [hpc, hfiber]

structure Moves (s s' : State F A) (f : F) : Prop where
  fiber : s'.scheduler.fiber = s.scheduler.fiber
  links : s'.scheduler.links = s.scheduler.links
  waiting : s'.waiting = s.waiting
  pc : ∀ g, g ≠ f → s'.pc g = s.pc g
  before : s.pc f ≠ .blocked
  after : s'.pc f ≠ .blocked
  not_aborted : s'.pc f ≠ .aborted
  not_stuck : s'.pc f ≠ .stuck

theorem moves_blocked (h : Invariant T m_handle s c) {s' : State F A} {f : F} (hm : Moves s s' f)
    (g : F) : Blocked s' g ↔ g ∈ s'.waiting := by
  rw [hm.waiting, ← h.blocked g]
  by_cases hg : g = f
  · subst hg
    constructor
    · rintro ⟨hpc, -⟩
      exact absurd hpc hm.after
    · rintro ⟨hpc, -⟩
      exact absurd hpc hm.before
  · exact blocked_congr (hm.pc g hg) (congrFun hm.fiber g)

theorem sameOwner (h : Invariant T m_handle s c) {s' : State F A} {f : F} (hm : Moves s s' f)
    (howner : owner (s'.word m_handle) = owner (s.word m_handle))
    (hbit : s.waiting ≠ [] → s'.word m_handle = owner (s'.word m_handle) ||| HasChildWaitersBit)
    (hholds : Holds s' f ↔ Holds s f) : Invariant T m_handle s' c := by
  constructor
  · rw [hm.links]
    exact h.represents
  · intro g
    by_cases hg : g = f
    · exact hg ▸ hm.not_aborted
    · rw [hm.pc g hg]
      exact h.not_aborted g
  · intro g
    by_cases hg : g = f
    · exact hg ▸ hm.not_stuck
    · rw [hm.pc g hg]
      exact h.not_stuck g
  · rw [howner]
    exact h.owner_form
  · intro g
    rw [howner, h.holds g]
    by_cases hg : g = f
    · rw [hg]
      exact hholds.symm
    · exact (holds_congr (hm.pc g hg) (congrFun hm.fiber g)).symm
  · exact h.moves_blocked hm
  · rw [howner, hm.waiting]
    exact h.owner_list
  · rw [howner]
    exact h.other_list
  · intro hne
    rw [hm.waiting] at hne
    refine ⟨?_, hbit hne⟩
    rw [howner]
    exact (h.announced hne).1
  · rw [hm.fiber, hm.waiting]
    exact h.lock_address
  · rw [hm.fiber, hm.waiting]
    exact h.wait_tag
  · rw [hm.fiber, hm.waiting]
    exact h.waitable_object
  · intro g hpc
    by_cases hg : g = f
    · exact absurd (hg ▸ hpc) hm.after
    · rw [hm.pc g hg] at hpc
      rw [hm.fiber]
      exact h.result g hpc

theorem newOwner (h : Invariant T m_handle s c) {s' : State F A} {f : F} (hm : Moves s s' f)
    (hwaiting : s.waiting = [])
    (hform : owner (s'.word m_handle) = 0 ∨ ∃ g, owner (s'.word m_handle) = T.handle g)
    (hholds : ∀ g, owner (s'.word m_handle) = T.handle g ↔ Holds s' g) :
    Invariant T m_handle s' c := by
  constructor
  · rw [hm.links]
    exact h.represents
  · intro g
    by_cases hg : g = f
    · exact hg ▸ hm.not_aborted
    · rw [hm.pc g hg]
      exact h.not_aborted g
  · intro g
    by_cases hg : g = f
    · exact hg ▸ hm.not_stuck
    · rw [hm.pc g hg]
      exact h.not_stuck g
  · exact hform
  · exact hholds
  · exact h.moves_blocked hm
  · intro g _
    rw [h.lists_nil hwaiting, hm.waiting, hwaiting]
  · intro list _
    exact h.lists_nil hwaiting list
  · intro hne
    rw [hm.waiting] at hne
    exact absurd hwaiting hne
  · rw [hm.waiting, hwaiting]
    intro g hg
    cases hg
  · rw [hm.waiting, hwaiting]
    intro g hg
    cases hg
  · rw [hm.waiting, hwaiting]
    intro g hg
    cases hg
  · intro g hpc
    by_cases hg : g = f
    · exact absurd (hg ▸ hpc) hm.after
    · rw [hm.pc g hg] at hpc
      rw [hm.fiber]
      exact h.result g hpc

theorem leaver_list (h : Invariant T m_handle s c) {f : F} (hpc : s.pc f = .release) :
    owner (s.word m_handle) = T.handle f ∧ c (.of f) = s.waiting := by
  have howner := (h.holds f).mpr (Or.inr (Or.inl hpc))
  exact ⟨howner, h.owner_list f howner⟩

theorem waiter_ne (h : Invariant T m_handle s c) {f g : F} (hpc : s.pc f = .release)
    (hg : g ∈ s.waiting) : g ≠ f := by
  rintro rfl
  have hblocked := ((h.blocked g).mpr hg).1
  rw [hpc] at hblocked
  cases hblocked

theorem hasWaitList_iff (h : Invariant T m_handle s c) (f : F) (xs : List F) :
    HasWaitList s f xs ↔ c (.of f) = xs := by
  constructor
  · exact h.represents.eq_of_ring
  · rintro rfl
    exact h.represents.ring (.of f)

theorem safe (h : Invariant T m_handle s c) : Safe T m_handle s where
  not_aborted := h.not_aborted
  not_stuck := h.not_stuck
  exclusive f g hf hg := by
    have hfo := (h.holds f).mpr (Or.inl hf)
    have hgo := (h.holds g).mpr (Or.inl hg)
    exact T.handle_injective (hfo.symm.trans hgo)
  listed f hf hwait := by
    have hmem := (h.blocked f).mp ⟨hf, hwait⟩
    obtain ⟨⟨g, howner⟩, -⟩ := h.announced (List.ne_nil_of_mem hmem)
    refine ⟨g, s.waiting, howner, ?_, hmem⟩
    unfold HasWaitList
    rw [← h.owner_list g howner]
    exact h.represents.ring (.of g)

variable [DecidableEq F]

theorem goto_self (s : State F A) (f : F) (pc : Pc) : (s.goto f pc).pc f = pc :=
  Function.update_self _ _ _

theorem goto_of_ne (s : State F A) {f g : F} (hg : g ≠ f) (pc : Pc) :
    (s.goto f pc).pc g = s.pc g :=
  Function.update_of_ne hg _ _

theorem goto_moves (s : State F A) {f : F} {pc : Pc} (hbefore : s.pc f ≠ .blocked)
    (hpc : pc ≠ .blocked ∧ pc ≠ .aborted ∧ pc ≠ .stuck) : Moves s (s.goto f pc) f where
  fiber := rfl
  links := rfl
  waiting := rfl
  pc _ hg := goto_of_ne s hg pc
  before := hbefore
  after := by
    rw [goto_self]
    exact hpc.1
  not_aborted := by
    rw [goto_self]
    exact hpc.2.1
  not_stuck := by
    rw [goto_self]
    exact hpc.2.2

theorem holds_goto (s : State F A) (f : F) (pc : Pc) (hpc : pc ≠ .blocked) :
    Holds (s.goto f pc) f ↔ pc = .inside ∨ pc = .release ∨ pc = .recheck := by
  unfold Holds
  rw [goto_self]
  constructor
  · rintro (h | h | h | ⟨h, -⟩)
    · exact Or.inl h
    · exact Or.inr (Or.inl h)
    · exact Or.inr (Or.inr h)
    · exact absurd h hpc
  · rintro (h | h | h)
    · exact Or.inl h
    · exact Or.inr (Or.inl h)
    · exact Or.inr (Or.inr (Or.inl h))

theorem goto (h : Invariant T m_handle s c) {f : F} {pc : Pc} (hbefore : s.pc f ≠ .blocked)
    (hpc : pc ≠ .blocked ∧ pc ≠ .aborted ∧ pc ≠ .stuck)
    (hholds : (pc = .inside ∨ pc = .release ∨ pc = .recheck) ↔ Holds s f) :
    Invariant T m_handle (s.goto f pc) c := by
  apply h.sameOwner (goto_moves s hbefore hpc) rfl
  · intro hne
    exact (h.announced hne).2
  · rw [holds_goto s f pc hpc.1]
    exact hholds

variable [DecidableEq A]

theorem setWord_word (s : State F A) (f : F) (value : BitVec 32) (pc : Pc) :
    ((s.setWord m_handle value).goto f pc).word m_handle = value :=
  Function.update_self _ _ _

theorem setWord_moves (s : State F A) {f : F} {pc : Pc} (value : BitVec 32)
    (hbefore : s.pc f ≠ .blocked) (hpc : pc ≠ .blocked ∧ pc ≠ .aborted ∧ pc ≠ .stuck) :
    Moves s ((s.setWord m_handle value).goto f pc) f where
  fiber := rfl
  links := rfl
  waiting := rfl
  pc _ hg := goto_of_ne _ hg pc
  before := hbefore
  after := by
    rw [goto_self]
    exact hpc.1
  not_aborted := by
    rw [goto_self]
    exact hpc.2.1
  not_stuck := by
    rw [goto_self]
    exact hpc.2.2

theorem take (h : Invariant T m_handle s c) {f : F} (hbefore : s.pc f ≠ .blocked)
    (hzero : s.word m_handle = 0) :
    Invariant T m_handle ((s.setWord m_handle (T.handle f)).goto f .inside) c := by
  apply h.newOwner (setWord_moves s _ hbefore ⟨Pc.noConfusion, Pc.noConfusion, Pc.noConfusion⟩)
    (h.waiting_nil_of_zero hzero)
  · right
    exact ⟨f, by rw [setWord_word, owner_handle]⟩
  · intro g
    rw [setWord_word, owner_handle]
    by_cases hg : g = f
    · rw [hg]
      exact ⟨fun _ => (holds_goto _ f _ Pc.noConfusion).mpr (Or.inl rfl), fun _ => rfl⟩
    · constructor
      · intro heq
        exact absurd (T.handle_injective heq).symm hg
      · intro hholds
        have hsame : Holds ((s.setWord m_handle (T.handle f)).goto f .inside) g ↔ Holds s g :=
          holds_congr (goto_of_ne _ hg _) rfl
        exact absurd (hsame.mp hholds) (h.not_holds_of_zero hzero g)

theorem give (h : Invariant T m_handle s c) {f : F} (hbefore : s.pc f = .inside)
    (hword : s.word m_handle = T.handle f) :
    Invariant T m_handle ((s.setWord m_handle 0).goto f .outside) c := by
  have hblocked : s.pc f ≠ .blocked := by
    rw [hbefore]
    exact Pc.noConfusion
  apply h.newOwner (setWord_moves s _ hblocked ⟨Pc.noConfusion, Pc.noConfusion, Pc.noConfusion⟩)
    (h.waiting_nil_of_bare hword)
  · left
    rw [setWord_word, owner_zero]
  · intro g
    rw [setWord_word, owner_zero]
    constructor
    · intro heq
      exact absurd heq.symm (T.handle_form g).2
    · intro hholds
      exfalso
      by_cases hg : g = f
      · rw [hg] at hholds
        rcases (holds_goto _ f _ Pc.noConfusion).mp hholds with hpc | hpc | hpc <;> cases hpc
      · have hsame : Holds ((s.setWord m_handle 0).goto f .outside) g ↔ Holds s g :=
          holds_congr (goto_of_ne _ hg _) rfl
        have howner := (h.holds g).mpr (hsame.mp hholds)
        rw [hword, owner_handle] at howner
        exact hg (T.handle_injective howner).symm

end Invariant

end Awn.Ukern.InternalCriticalSection
