import Awn.Ukern.Waits

namespace Awn.Ukern.Waits

open UserScheduler (Lists removed mem_removed find?_removed removed_of_disjoint)

variable {F A : Type*} [DecidableEq A] {T : FiberTable F}

def WaitsOn (T : FiberTable F) (x : FiberLocalStorage A) (f : F) (a : A) : Prop :=
  x.wait_address = some a ∧
    (x.waitable_object = some .WaitAddressArbiter ∨
      (x.waitable_object = some .KeyArbiter ∧ x.wait_tag = T.handle f ∧
        ∃ lock_address, lock_address ≠ a ∧ x.lock_address = some lock_address))

structure Invariant (T : FiberTable F) (s : State F A) (c : WaitList F → List F) : Prop where
  lists : Lists s.scheduler.links c fun f => (s.scheduler.fiber f).fiber_state = .Waiting
  registered : ∀ a, Registered s c a
  waits : ∀ a f, f ∈ s.waiters a → WaitsOn T (s.scheduler.fiber f) f a
  top : ∀ f ∈ c .scheduler, (s.scheduler.fiber f).waitable_object = some .TimeWaiter ∨ Parent s f

namespace Invariant

variable {s s' : State F A} {c c' : WaitList F → List F} {f g : F} {a : A}

theorem start (h : Start s) : Invariant T s (fun _ => []) where
  lists :=
    { represents := by
        rw [h.links]
        exact Links.represents_alone
      listed := fun _ _ hf => absurd hf List.not_mem_nil
      foreign := fun _ hf => absurd hf List.not_mem_nil }
  registered a p rest ha := by
    rw [h.waiters a] at ha
    cases ha
  waits a f hf := by
    rw [h.waiters a] at hf
    cases hf
  top f hf := absurd hf List.not_mem_nil

theorem parent_mem (h : Invariant T s c) {p : F} {rest : List F} (ha : s.waiters a = p :: rest) :
    p ∈ c .scheduler :=
  List.mem_of_find?_eq_some (h.registered a p rest ha).1

theorem mem_list (h : Invariant T s c) (hf : f ∈ s.waiters a) :
    f ∈ c .scheduler ∨ ∃ p rest, s.waiters a = p :: rest ∧ f ∈ c (.of p) := by
  cases ha : s.waiters a with
  | nil =>
    rw [ha] at hf
    cases hf
  | cons p rest =>
    rw [ha] at hf
    rcases List.mem_cons.mp hf with rfl | hf
    · exact Or.inl (h.parent_mem ha)
    · right
      refine ⟨p, rest, rfl, ?_⟩
      rw [(h.registered a p rest ha).2]
      exact hf

theorem waiting (h : Invariant T s c) (hf : f ∈ s.waiters a) :
    (s.scheduler.fiber f).fiber_state = .Waiting := by
  rcases h.mem_list hf with hf | ⟨p, rest, -, hf⟩
  · exact h.lists.listed _ f hf
  · exact h.lists.listed _ f hf

theorem nodup (h : Invariant T s c) (a : A) : (s.waiters a).Nodup := by
  cases ha : s.waiters a with
  | nil => exact List.nodup_nil
  | cons p rest =>
    obtain ⟨-, hrest⟩ := h.registered a p rest ha
    apply List.nodup_cons.mpr
    constructor
    · intro hp
      rw [← hrest] at hp
      exact h.lists.foreign p hp
    · rw [← hrest]
      exact h.lists.represents.nodup _

theorem unique (h : Invariant T s c) {b : A} (ha : f ∈ s.waiters a) (hb : f ∈ s.waiters b) :
    a = b := by
  have haddress := (h.waits a f ha).1
  rw [(h.waits b f hb).1] at haddress
  exact (Option.some.inj haddress).symm

theorem waiters_ne_time (h : Invariant T s c) (hf : f ∈ s.waiters a) :
    (s.scheduler.fiber f).waitable_object ≠ some .TimeWaiter := by
  rcases (h.waits a f hf).2 with hobject | ⟨hobject, -⟩
  all_goals
    rw [hobject]
    intro heq
    cases heq

theorem unlisted (h : Invariant T s c) (hf : (s.scheduler.fiber f).fiber_state ≠ .Waiting)
    (list : WaitList F) : f ∉ c list :=
  h.lists.not_listed hf list

theorem not_parent (h : Invariant T s c) (hf : (s.scheduler.fiber f).fiber_state ≠ .Waiting) :
    ¬Parent s f := by
  rintro ⟨a, rest, ha⟩
  exact hf (h.lists.listed _ f (h.parent_mem ha))

theorem not_waiter (h : Invariant T s c) (hg : g ∈ c (.of f)) (hf : ¬Parent s f) (a : A) :
    g ∉ s.waiters a := by
  intro ha
  rcases h.mem_list ha with hmem | ⟨p, rest, hp, hmem⟩
  · cases h.lists.represents.disjoint _ _ g hg hmem
  · obtain rfl := WaitList.of.inj (h.lists.represents.disjoint _ _ g hg hmem)
    exact hf ⟨a, rest, hp⟩

theorem find_eq (h : Invariant T s c) (hfresh : Fresh s a) :
    findAddress s a (c .scheduler) = (s.waiters a).head? := by
  cases ha : s.waiters a with
  | nil =>
    apply List.find?_eq_none.mpr
    intro f hf
    rw [decide_eq_true_eq]
    exact hfresh ha f ((UserScheduler.inWaitList_iff h.lists.represents).mpr hf)
  | cons p rest => exact (h.registered a p rest ha).1

theorem congr (h : Invariant T s c) (hlinks : s'.scheduler.links = s.scheduler.links)
    (hwaiters : s'.waiters = s.waiters)
    (hfiber : ∀ f, (s.scheduler.fiber f).fiber_state = .Waiting →
      s'.scheduler.fiber f = { s.scheduler.fiber f with
        core_mask := (s'.scheduler.fiber f).core_mask
        activity_level := (s'.scheduler.fiber f).activity_level }) :
    Invariant T s' c where
  lists := by
    rw [hlinks]
    apply h.lists.mono
    intro f hf
    rw [hfiber f hf]
    exact hf
  registered a p rest ha := by
    rw [hwaiters] at ha
    obtain ⟨hfind, hrest⟩ := h.registered a p rest ha
    refine ⟨?_, hrest⟩
    rw [← hfind]
    apply List.find?_congr
    intro f hf
    rw [hfiber f (h.lists.listed _ f hf)]
  waits a f hf := by
    rw [hwaiters] at hf
    rw [hfiber f (h.waiting hf)]
    exact h.waits a f hf
  top f hf := by
    rw [hfiber f (h.lists.listed _ f hf)]
    apply (h.top f hf).imp id
    rintro ⟨a, rest, ha⟩
    exact ⟨a, rest, by rw [hwaiters, ha]⟩

theorem congr_fiber (h : Invariant T s c) (hlinks : s'.scheduler.links = s.scheduler.links)
    (hwaiters : s'.waiters = s.waiters)
    (hfiber : ∀ f, (s.scheduler.fiber f).fiber_state = .Waiting →
      s'.scheduler.fiber f = s.scheduler.fiber f) : Invariant T s' c := by
  apply h.congr hlinks hwaiters
  intro f hf
  rw [hfiber f hf]

variable [DecidableEq F]

theorem remove (h : Invariant T s c) (xs : List F)
    (hlinks : s'.scheduler.links.Represents (removed c xs))
    (hfiber : ∀ f, f ∉ xs → s'.scheduler.fiber f = s.scheduler.fiber f)
    (hwaiters : ∀ a, (s'.waiters a = s.waiters a ∧ ∀ f ∈ s.waiters a, f ∉ xs) ∨
      (s'.waiters a = [] ∧ ∀ f ∈ s.waiters a, f ∈ xs)) : Invariant T s' (removed c xs) where
  lists :=
    { represents := hlinks
      listed := by
        intro list f hf
        obtain ⟨hf, hout⟩ := mem_removed.mp hf
        rw [hfiber f hout]
        exact h.lists.listed list f hf
      foreign := fun f hf => h.lists.foreign f (mem_removed.mp hf).1 }
  registered a p rest ha := by
    rcases hwaiters a with ⟨hsame, hout⟩ | ⟨hnil, -⟩
    · rw [hsame] at ha
      obtain ⟨hfind, hrest⟩ := h.registered a p rest ha
      have hp : p ∉ xs := hout p (by rw [ha]; exact List.mem_cons_self)
      constructor
      · rw [← find?_removed hfind hp]
        apply List.find?_congr
        intro f hf
        rw [hfiber f (mem_removed.mp hf).2]
      · rw [removed_of_disjoint, hrest]
        intro f hf
        rw [hrest] at hf
        exact hout f (by rw [ha]; exact List.mem_cons_of_mem _ hf)
    · rw [hnil] at ha
      cases ha
  waits a f hf := by
    rcases hwaiters a with ⟨hsame, hout⟩ | ⟨hnil, -⟩
    · rw [hsame] at hf
      rw [hfiber f (hout f hf)]
      exact h.waits a f hf
    · rw [hnil] at hf
      cases hf
  top f hf := by
    obtain ⟨hf, hout⟩ := mem_removed.mp hf
    rw [hfiber f hout]
    apply (h.top f hf).imp id
    rintro ⟨a, rest, ha⟩
    rcases hwaiters a with ⟨hsame, -⟩ | ⟨-, hall⟩
    · exact ⟨a, rest, by rw [hsame, ha]⟩
    · exact absurd (hall f (by rw [ha]; exact List.mem_cons_self)) hout

theorem removeAll (h : Invariant T s c) {xs : List F} (ha : s.waiters a = xs)
    {scheduler : UserScheduler F A} (hlinks : scheduler.links.Represents (removed c xs))
    (hfiber : ∀ g, g ∉ xs → scheduler.fiber g = s.scheduler.fiber g) :
    Invariant T ⟨scheduler, Function.update s.waiters a []⟩ (removed c xs) := by
  apply h.remove xs hlinks hfiber
  intro b
  by_cases hba : b = a
  · right
    rw [hba]
    exact ⟨Function.update_self _ _ _, fun g hg => ha ▸ hg⟩
  · left
    refine ⟨Function.update_of_ne hba _ _, fun g hg hga => ?_⟩
    rw [← ha] at hga
    exact hba (h.unique hg hga)

end Invariant

variable [DecidableEq F]

def pushed (c : WaitList F → List F) (list : WaitList F) (f : F) : WaitList F → List F :=
  Function.update c list (c list ++ [f])

theorem pushed_self (c : WaitList F → List F) (list : WaitList F) (f : F) :
    pushed c list f list = c list ++ [f] :=
  Function.update_self _ _ _

theorem pushed_of_ne (c : WaitList F → List F) {list other : WaitList F} (f : F)
    (h : other ≠ list) : pushed c list f other = c other :=
  Function.update_of_ne h _ _

theorem mem_pushed {c : WaitList F → List F} {list other : WaitList F} {f g : F} :
    g ∈ pushed c list f other ↔ g ∈ c other ∨ (g = f ∧ other = list) := by
  by_cases h : other = list
  · rw [h, pushed_self, List.mem_append, List.mem_singleton]
    exact or_congr Iff.rfl ⟨fun hg => ⟨hg, rfl⟩, fun hg => hg.1⟩
  · rw [pushed_of_ne c f h]
    exact ⟨Or.inl, fun hg => hg.resolve_right fun hg => h hg.2⟩

theorem removed_pushed (c : WaitList F → List F) (list : WaitList F) {f : F} {xs : List F}
    (hf : f ∉ xs) : removed (pushed c list f) xs = pushed (removed c xs) list f := by
  funext other
  by_cases hother : other = list
  · rw [hother, pushed_self]
    unfold removed
    rw [pushed_self, List.filter_append]
    congr 1
    exact List.filter_cons_of_pos (decide_eq_true hf)
  · rw [pushed_of_ne _ f hother]
    unfold removed
    rw [pushed_of_ne _ f hother]

structure Pushed (s s' : State F A) (c : WaitList F → List F) (list : WaitList F) (f : F) :
    Prop where
  unlisted : ∀ list, f ∉ c list
  foreign : list ≠ .of f
  links : s'.scheduler.links.Represents (pushed c list f)
  fiber : ∀ g, g ≠ f → s'.scheduler.fiber g = s.scheduler.fiber g
  fiber_state : (s'.scheduler.fiber f).fiber_state = .Waiting

namespace Pushed

variable {s s' : State F A} {c : WaitList F → List F} {list : WaitList F} {f : F} {a : A}

theorem lists (hp : Pushed s s' c list f) (h : Invariant T s c) :
    Lists s'.scheduler.links (pushed c list f)
      fun g => (s'.scheduler.fiber g).fiber_state = .Waiting where
  represents := hp.links
  listed other g hg := by
    rcases mem_pushed.mp hg with hold | ⟨rfl, -⟩
    · have hgf : g ≠ f := by
        rintro rfl
        exact hp.unlisted other hold
      rw [hp.fiber g hgf]
      exact h.lists.listed other g hold
    · exact hp.fiber_state
  foreign g hg := by
    rcases mem_pushed.mp hg with hold | ⟨rfl, hlist⟩
    · exact h.lists.foreign g hold
    · exact hp.foreign hlist.symm

theorem ne_of_waiter (hp : Pushed s s' c list f) (h : Invariant T s c) {g : F}
    (hg : g ∈ s.waiters a) : g ≠ f := by
  rintro rfl
  rcases h.mem_list hg with hg | ⟨p, rest, -, hg⟩
  · exact hp.unlisted _ hg
  · exact hp.unlisted _ hg

theorem find (hp : Pushed s s' c list f) {p : F}
    (hfind : findAddress s a (c .scheduler) = some p) :
    findAddress s' a (pushed c list f .scheduler) = some p := by
  have hold : findAddress s' a (c .scheduler) = some p := by
    rw [← hfind]
    apply List.find?_congr
    intro g hg
    have hgf : g ≠ f := by
      rintro rfl
      exact hp.unlisted _ hg
    rw [hp.fiber g hgf]
  by_cases hlist : .scheduler = list
  · rw [← hlist, pushed_self]
    unfold findAddress at hold ⊢
    rw [List.find?_append, hold]
    rfl
  · rw [pushed_of_ne c f hlist]
    exact hold

theorem waits (hp : Pushed s s' c list f) (h : Invariant T s c) {g : F} (hg : g ∈ s.waiters a) :
    WaitsOn T (s'.scheduler.fiber g) g a := by
  rw [hp.fiber g (hp.ne_of_waiter h hg)]
  exact h.waits a g hg

theorem top (hp : Pushed s s' c list f) (h : Invariant T s c) {g : F} (hg : g ∈ c .scheduler) :
    (s'.scheduler.fiber g).waitable_object = some .TimeWaiter ∨ Parent s g := by
  have hgf : g ≠ f := by
    rintro rfl
    exact hp.unlisted _ hg
  rw [hp.fiber g hgf]
  exact h.top g hg

theorem other (hp : Pushed s s' c list f) (h : Invariant T s c) (hwaiters : s'.waiters = s.waiters)
    (hlist : (list = .scheduler ∧ (s'.scheduler.fiber f).waitable_object = some .TimeWaiter) ∨
      ∃ o, list = .of o ∧ ¬Parent s o) : Invariant T s' (pushed c list f) where
  lists := hp.lists h
  registered b q rest hb := by
    rw [hwaiters] at hb
    obtain ⟨hfind, hrest⟩ := h.registered b q rest hb
    refine ⟨hp.find hfind, ?_⟩
    rw [pushed_of_ne, hrest]
    rintro hq
    rcases hlist with ⟨hlist, -⟩ | ⟨o, hlist, hnot⟩
    · rw [hlist] at hq
      cases hq
    · rw [hlist] at hq
      obtain rfl := WaitList.of.inj hq
      exact hnot ⟨b, rest, hb⟩
  waits b g hg := by
    rw [hwaiters] at hg
    exact hp.waits h hg
  top g hg := by
    have hparent : Parent s g → Parent s' g := by
      rintro ⟨b, rest, hb⟩
      exact ⟨b, rest, by rw [hwaiters, hb]⟩
    rcases hlist with ⟨hlist, htime⟩ | ⟨o, hlist, -⟩
    · rw [hlist, pushed_self] at hg
      rcases List.mem_append.mp hg with hg | hg
      · exact (hp.top h hg).imp id hparent
      · rw [List.mem_singleton.mp hg]
        exact Or.inl htime
    · rw [hlist, pushed_of_ne c f (by nofun)] at hg
      exact (hp.top h hg).imp id hparent

theorem parent (hp : Pushed s s' c .scheduler f) (h : Invariant T s c)
    (hwaiters : s'.waiters = Function.update s.waiters a [f]) (hnone : s.waiters a = [])
    (hempty : c (.of f) = []) (hfresh : Fresh s a) (hf : WaitsOn T (s'.scheduler.fiber f) f a) :
    Invariant T s' (pushed c .scheduler f) where
  lists := hp.lists h
  registered b q rest hb := by
    rw [hwaiters] at hb
    have hself : pushed c .scheduler f (.of q) = c (.of q) := pushed_of_ne c f nofun
    rw [hself]
    by_cases hba : b = a
    · subst hba
      rw [Function.update_self] at hb
      obtain ⟨rfl, rfl⟩ := List.cons_eq_cons.mp hb
      refine ⟨?_, hempty⟩
      have hold : findAddress s' b (c .scheduler) = none := by
        apply List.find?_eq_none.mpr
        intro g hg
        have hgf : g ≠ f := by
          rintro rfl
          exact hp.unlisted _ hg
        rw [decide_eq_true_eq, hp.fiber g hgf]
        exact hfresh hnone g ((UserScheduler.inWaitList_iff h.lists.represents).mpr hg)
      rw [pushed_self]
      unfold findAddress at hold ⊢
      rw [List.find?_append, hold]
      exact List.find?_cons_of_pos
        (p := fun g => (s'.scheduler.fiber g).wait_address = some b) (decide_eq_true hf.1)
    · rw [Function.update_of_ne hba] at hb
      obtain ⟨hfind, hrest⟩ := h.registered b q rest hb
      exact ⟨hp.find hfind, hrest⟩
  waits b g hg := by
    rw [hwaiters] at hg
    by_cases hba : b = a
    · rw [hba, Function.update_self] at hg
      rw [List.mem_singleton.mp hg, hba]
      exact hf
    · rw [Function.update_of_ne hba] at hg
      exact hp.waits h hg
  top g hg := by
    rw [pushed_self] at hg
    rcases List.mem_append.mp hg with hg | hg
    · apply (hp.top h hg).imp id
      rintro ⟨b, rest, hb⟩
      have hba : b ≠ a := by
        rintro rfl
        rw [hnone] at hb
        cases hb
      exact ⟨b, rest, by rw [hwaiters, Function.update_of_ne hba, hb]⟩
    · right
      rw [List.mem_singleton.mp hg]
      exact ⟨a, [], by rw [hwaiters, Function.update_self]⟩

theorem child {p : F} {rest : List F} (hp : Pushed s s' c (.of p) f) (h : Invariant T s c)
    (hwaiters : s'.waiters = Function.update s.waiters a (s.waiters a ++ [f]))
    (ha : s.waiters a = p :: rest) (hf : WaitsOn T (s'.scheduler.fiber f) f a) :
    Invariant T s' (pushed c (.of p) f) where
  lists := hp.lists h
  registered b q others hb := by
    rw [hwaiters] at hb
    by_cases hba : b = a
    · subst hba
      rw [Function.update_self, ha] at hb
      obtain ⟨hpq, hothers⟩ := List.cons_eq_cons.mp hb
      obtain ⟨hfind, hrest⟩ := h.registered b p rest ha
      rw [← hpq, ← hothers, pushed_self, hrest]
      exact ⟨hp.find hfind, rfl⟩
    · rw [Function.update_of_ne hba] at hb
      obtain ⟨hfind, hrest⟩ := h.registered b q others hb
      refine ⟨hp.find hfind, ?_⟩
      rw [pushed_of_ne, hrest]
      intro hq
      obtain rfl := WaitList.of.inj hq
      apply hba
      apply h.unique (f := q)
      · rw [hb]
        exact List.mem_cons_self
      · rw [ha]
        exact List.mem_cons_self
  waits b g hg := by
    rw [hwaiters] at hg
    by_cases hba : b = a
    · rw [hba, Function.update_self] at hg
      rcases List.mem_append.mp hg with hg | hg
      · rw [hba]
        exact hp.waits h hg
      · rw [List.mem_singleton.mp hg, hba]
        exact hf
    · rw [Function.update_of_ne hba] at hg
      exact hp.waits h hg
  top g hg := by
    rw [pushed_of_ne c f (by nofun)] at hg
    apply (hp.top h hg).imp id
    rintro ⟨b, others, hb⟩
    by_cases hba : b = a
    · subst hba
      exact ⟨b, others ++ [f], by rw [hwaiters, Function.update_self, hb]; rfl⟩
    · exact ⟨b, others, by rw [hwaiters, Function.update_of_ne hba, hb]⟩

end Pushed

end Awn.Ukern.Waits
