import Awn.Ukern.Address
import Mathlib.Data.List.Find

/-!
What the searches and the loops over the wait lists do while the links represent lists, and `Lists`
for the results that only need to know who can be in one.
-/

namespace Awn.Ukern.UserScheduler

variable {F A : Type*}

def firstNode (list : WaitList F) (ys : List F) : Node F := (ys.head?.map Sum.inr).getD (.inl list)

section Loops

variable {s : UserScheduler F A} {c : WaitList F → List F}

theorem findWaiter_cases (h : s.links.Represents c) (accept : FiberLocalStorage A → Bool) :
    ∀ (ys xs : List F) (fuel : ℕ), c .scheduler = xs ++ ys →
      s.findWaiter accept fuel (firstNode .scheduler ys) =
          some (ys.find? fun f => accept (s.fiber f)) ∨
        (fuel ≤ ys.length ∧ s.findWaiter accept fuel (firstNode .scheduler ys) = none) := by
  intro ys
  induction ys with
  | nil =>
    intro xs fuel _
    cases fuel with
    | zero => exact Or.inr ⟨Nat.le_refl _, rfl⟩
    | succ fuel => exact Or.inl rfl
  | cons y ys ih =>
    intro xs fuel hc
    cases fuel with
    | zero => exact Or.inr ⟨Nat.zero_le _, rfl⟩
    | succ fuel =>
      change (if accept (s.fiber y) then some (some y)
          else s.findWaiter accept fuel (s.links.next (.inr y))) = _ ∨
        (_ ∧ (if accept (s.fiber y) then some (some y)
          else s.findWaiter accept fuel (s.links.next (.inr y))) = none)
      by_cases hy : accept (s.fiber y) = true
      · left
        rw [if_pos hy]
        exact congrArg some (List.find?_cons_of_pos (p := fun f => accept (s.fiber f)) hy).symm
      · have hnext : s.links.next (.inr y) = firstNode .scheduler ys := h.next_elem hc
        have hc' : c .scheduler = (xs ++ [y]) ++ ys := by
          rw [hc, List.append_assoc]
          rfl
        have hfind := List.find?_cons_of_neg (p := fun f => accept (s.fiber f)) (l := ys) hy
        rw [if_neg hy, hnext, hfind, List.length_cons]
        apply (ih (xs ++ [y]) fuel hc').imp id
        rintro ⟨hle, hnone⟩
        exact ⟨Nat.succ_le_succ hle, hnone⟩

section Address

variable [DecidableEq A]

theorem findWaitAddress_cases (h : s.links.Represents c) (fuel : ℕ) (a : A) :
    s.findWaitAddress fuel a =
        some ((c .scheduler).find? fun f => (s.fiber f).wait_address = some a) ∨
      (fuel ≤ (c .scheduler).length ∧ s.findWaitAddress fuel a = none) := by
  unfold findWaitAddress
  rw [h.next_head]
  exact findWaiter_cases h _ (c .scheduler) [] fuel rfl

theorem findWaitAddress_some (h : s.links.Represents c) {fuel : ℕ} {a : A} {r : Option F}
    (hr : s.findWaitAddress fuel a = some r) :
    r = (c .scheduler).find? fun f => (s.fiber f).wait_address = some a := by
  rcases findWaitAddress_cases h fuel a with hf | ⟨-, hnone⟩
  · rw [hr] at hf
    exact Option.some.inj hf
  · rw [hr] at hnone
    cases hnone

end Address

variable [DecidableEq F]

def moved (c : WaitList F → List F) (f parent : F) (ys : List F) : WaitList F → List F :=
  Function.update (Function.update c (.of f) []) (.of parent) (c (.of parent) ++ ys)

theorem moved_nil {f parent : F} (hc : c (.of f) = []) : moved c f parent [] = c := by
  unfold moved
  rw [List.append_nil]
  funext list
  by_cases hp : list = .of parent
  · rw [hp, Function.update_self]
  · rw [Function.update_of_ne hp]
    by_cases hf : list = .of f
    · rw [hf, Function.update_self, hc]
    · rw [Function.update_of_ne hf]

theorem moved_cons {links : Links (Node F)} (h : links.Represents c) {f parent y : F} {ys : List F}
    (hc : c (.of f) = y :: ys) (hne : parent ≠ f) :
    moved (Function.update (fun list => (c list).erase y) (.of parent)
      ((c (.of parent)).erase y ++ [y])) f parent ys = moved c f parent (y :: ys) := by
  have hfp : (.of f : WaitList F) ≠ .of parent := fun heq => hne (WaitList.of.inj heq).symm
  have hy : y ∈ c (.of f) := by
    rw [hc]
    exact List.mem_cons_self
  have hother : ∀ list, list ≠ .of f → (c list).erase y = c list := by
    intro list hlist
    apply List.erase_of_not_mem
    intro hmem
    exact hlist (h.disjoint list (.of f) y hmem hy)
  unfold moved
  funext list
  by_cases hp : list = .of parent
  · rw [hp, Function.update_self, Function.update_self, Function.update_self,
      hother _ hfp.symm, List.append_assoc]
    rfl
  · rw [Function.update_of_ne hp, Function.update_of_ne hp]
    by_cases hf : list = .of f
    · rw [hf, Function.update_self, Function.update_self]
    · rw [Function.update_of_ne hf, Function.update_of_ne hf, Function.update_of_ne hp,
        hother list hf]

theorem moveWaiters_cases {f parent : F} (hne : parent ≠ f) :
    ∀ (ys : List F) (links : Links (Node F)) (c : WaitList F → List F) (fuel : ℕ),
      links.Represents c → c (.of f) = ys →
      (∃ links', moveWaiters (.inl (.of f)) parent fuel links (firstNode (.of f) ys) =
          some links' ∧ links'.Represents (moved c f parent ys)) ∨
        (fuel ≤ ys.length ∧
          moveWaiters (.inl (.of f)) parent fuel links (firstNode (.of f) ys) = none) := by
  intro ys
  induction ys with
  | nil =>
    intro links c fuel h hc
    cases fuel with
    | zero => exact Or.inr ⟨Nat.le_refl _, rfl⟩
    | succ fuel =>
      left
      refine ⟨links, if_pos rfl, ?_⟩
      rw [moved_nil hc]
      exact h
  | cons y ys ih =>
    intro links c fuel h hc
    cases fuel with
    | zero => exact Or.inr ⟨Nat.zero_le _, rfl⟩
    | succ fuel =>
      have hunlink := h.unlink y
      have hnot : ∀ list, y ∉ (c list).erase y := by
        intro list hmem
        exact (h.nodup list).not_mem_erase hmem
      have hpush := hunlink.pushBack hnot (.of parent)
      have hsplit : c (.of f) = [] ++ y :: ys := hc
      have hnext : links.next (.inr y) = firstNode (.of f) ys := h.next_elem hsplit
      have hfp : (.of f : WaitList F) ≠ .of parent := fun heq => hne (WaitList.of.inj heq).symm
      have hrest : Function.update (fun list => (c list).erase y) (.of parent)
          ((c (.of parent)).erase y ++ [y]) (.of f) = ys := by
        rw [Function.update_of_ne hfp, hc, List.erase_cons_head]
      have hturn : moveWaiters (.inl (.of f)) parent (fuel + 1) links
          (firstNode (.of f) (y :: ys)) = moveWaiters (.inl (.of f)) parent fuel
            ((links.unlink (.inr y)).linkPrev (.inl (.of parent)) (.inr y))
            (firstNode (.of f) ys) := by
        rw [← hnext]
        exact if_neg Sum.inr_ne_inl
      rw [hturn, List.length_cons, ← moved_cons h hc hne]
      apply (ih _ _ fuel hpush hrest).imp id
      rintro ⟨hle, hnone⟩
      exact ⟨Nat.succ_le_succ hle, hnone⟩

theorem promote_nil (h : s.links.Represents c) {f : F} (hc : c (.of f) = []) (fuel : ℕ) :
    s.promote fuel f = none := by
  unfold promote
  rw [h.next_head, hc]
  rfl

def promoted (c : WaitList F → List F) (f parent : F) (rest : List F) : WaitList F → List F :=
  moved (fun list => (c list).erase parent) f parent rest

theorem promote_cases (h : s.links.Represents c) {f parent : F} {rest : List F}
    (hc : c (.of f) = parent :: rest) (hne : parent ≠ f) (fuel : ℕ) :
    (∃ links, s.promote fuel f = some (parent, { s with links := links }) ∧
        links.Represents (promoted c f parent rest)) ∨
      (fuel ≤ rest.length ∧ s.promote fuel f = none) := by
  have hnext : s.links.next (.inl (.of f)) = .inr parent := by
    rw [h.next_head, hc]
    rfl
  have hunlink := h.unlink parent
  have hrest : (c (.of f)).erase parent = rest := by
    rw [hc, List.erase_cons_head]
  have hstart : (s.unlink parent).links.next (.inl (.of f)) = firstNode (.of f) rest := by
    rw [← hrest]
    exact hunlink.next_head _
  unfold promote
  rw [hnext]
  dsimp only
  rw [hstart]
  rcases moveWaiters_cases hne rest _ _ fuel hunlink hrest with ⟨links, hlinks, hrep⟩ | ⟨hle, hnone⟩
  · left
    refine ⟨links, ?_, hrep⟩
    rw [unlink_links, hlinks]
    rfl
  · right
    refine ⟨hle, ?_⟩
    rw [unlink_links, hnone]
    rfl

theorem mem_moved {f parent g : F} {ys : List F} {list : WaitList F}
    (hg : g ∈ moved c f parent ys list) :
    g ∈ c list ∨ (g ∈ ys ∧ list = .of parent) := by
  unfold moved at hg
  by_cases hp : list = .of parent
  · rw [hp, Function.update_self] at hg
    apply (List.mem_append.mp hg).imp
    · exact fun hmem => hp ▸ hmem
    · exact fun hmem => ⟨hmem, hp⟩
  · rw [Function.update_of_ne hp] at hg
    by_cases hf : list = .of f
    · rw [hf, Function.update_self] at hg
      cases hg
    · rw [Function.update_of_ne hf] at hg
      exact Or.inl hg

end Loops

section Ended

variable [DecidableEq F]

structure WaitEnded (s s' : UserScheduler F A) (f : F) : Prop where
  links : s'.links = s.links.unlink (.inr f)
  word : s'.word = s.word
  fiber : ∀ g, g ≠ f → s'.fiber g = s.fiber g
  fiber_state : (s'.fiber f).fiber_state ≠ .Waiting
  ended : s'.ended = s.ended ++ [f]

theorem endFiberWaitImpl_waitEnded (s : UserScheduler F A) (f : F) (r : Result) :
    WaitEnded s (s.endFiberWaitImpl f r) f where
  links := rfl
  word := rfl
  fiber _ hg := endFiberWaitImpl_of_ne s r hg
  fiber_state := by
    rw [endFiberWaitImpl_self]
    exact FiberLocalStorage.endWait_not_waiting _ _
  ended := rfl

theorem endWaitAndClear_waitEnded {s s' : UserScheduler F A} {f : F}
    (h : s.endWaitAndClear f = some s') : WaitEnded s s' f := by
  unfold endWaitAndClear at h
  split at h
  · cases h
  · obtain rfl := Option.some.inj h
    have hended := endFiberWaitImpl_waitEnded s f .Success
    constructor
    · exact hended.links
    · exact hended.word
    · intro g hg
      rw [modify_of_ne _ _ hg]
      exact hended.fiber g hg
    · rw [modify_self]
      exact hended.fiber_state
    · exact hended.ended

end Ended

def listBelow : Option F → WaitList F
  | none => .scheduler
  | some waiting_fiber => .of waiting_fiber

section Join

variable [DecidableEq F] [DecidableEq A] {s s' : UserScheduler F A} {c : WaitList F → List F}
  {fuel : ℕ} {f : F} {a : A}

theorem joinKey_eq (h : s.links.Represents c) (hf : ∀ list, f ∉ c list)
    (hs : s.joinKey fuel a f = some s') :
    ∃ parent, s.findWaitAddress fuel a = some parent ∧ s' = s.pushBack (listBelow parent) f := by
  unfold joinKey at hs
  obtain ⟨parent, hparent, heq⟩ := Option.map_eq_some_iff.mp hs
  refine ⟨parent, hparent, ?_⟩
  cases parent with
  | none =>
    have hlinked : ¬s.links.isLinked (.inr f) = true := by
      intro hlinked
      obtain ⟨list, hmem⟩ := (h.isLinked_elem f).mp hlinked
      exact hf list hmem
    dsimp only at heq
    rw [if_neg hlinked] at heq
    exact heq.symm
  | some p =>
    have hlinked : (s.pushBack (.of p) f).links.isLinked (.inr f) = true := by
      apply ((h.pushBack hf (.of p)).isLinked_elem f).mpr
      refine ⟨.of p, ?_⟩
      rw [Function.update_self]
      exact List.mem_append_right _ (List.mem_singleton_self f)
    dsimp only at heq
    rw [if_pos hlinked] at heq
    exact heq.symm

theorem joinAddress_eq (hs : s.joinAddress fuel a f = some s') :
    ∃ parent, s.findWaitAddress fuel a = some parent ∧ s' = s.pushBack (listBelow parent) f := by
  unfold joinAddress at hs
  obtain ⟨parent, hparent, rfl⟩ := Option.map_eq_some_iff.mp hs
  refine ⟨parent, hparent, ?_⟩
  cases parent <;> rfl

end Join

section Locks

variable [DecidableEq F] {T : FiberTable F}

theorem arbitrateLockImpl_ok {s s' : UserScheduler F A} {f : F} {handle tag : BitVec 32} {a : A}
    (h : s.arbitrateLockImpl T f handle (some a) tag = .ok s') :
    ∃ g, T.getFiberByHandle handle = some g ∧ g ≠ f ∧
      s' = (s.modify f (waitForLock · a tag)).pushBack (.of g) f := by
  unfold arbitrateLockImpl at h
  dsimp only at h
  split at h
  · cases h
  · rename_i g hg
    split at h
    · cases h
    · rename_i hne
      split at h
      · cases h
      · exact ⟨g, hg, hne, (Except.ok.inj h).symm⟩

variable [DecidableEq A]

theorem arbitrateUnlockImpl_ok {s s' : UserScheduler F A} {fuel : ℕ} {f : F} {a : A}
    (h : s.arbitrateUnlockImpl T fuel f (some a) = some (.ok s')) :
    s.releaseLockWaitListUnsafe fuel f = some s' := by
  unfold arbitrateUnlockImpl at h
  dsimp only at h
  split at h
  · cases h
  · split at h
    · cases h
    · obtain ⟨s₁, hs₁, heq⟩ := Option.map_eq_some_iff.mp h
      rw [hs₁, Except.ok.inj heq]

end Locks

section Removed

variable [DecidableEq F]

def removed (c : WaitList F → List F) (xs : List F) : WaitList F → List F :=
  fun list => (c list).filter fun f => f ∉ xs

theorem mem_removed {c : WaitList F → List F} {xs : List F} {list : WaitList F} {f : F} :
    f ∈ removed c xs list ↔ f ∈ c list ∧ f ∉ xs := by
  unfold removed
  rw [List.mem_filter, decide_eq_true_eq]

theorem removed_nil (c : WaitList F → List F) : removed c [] = c := by
  funext list
  unfold removed
  apply List.filter_eq_self.mpr
  intro f _
  exact decide_eq_true List.not_mem_nil

theorem removed_of_disjoint {c : WaitList F → List F} {xs : List F} {list : WaitList F}
    (h : ∀ f ∈ c list, f ∉ xs) : removed c xs list = c list := by
  unfold removed
  apply List.filter_eq_self.mpr
  intro f hf
  exact decide_eq_true (h f hf)

theorem removed_erase {c : WaitList F → List F} (h : ∀ list, (c list).Nodup) (xs : List F) (f : F) :
    (fun list => (removed c xs list).erase f) = removed c (xs ++ [f]) := by
  funext list
  have hnodup : (removed c xs list).Nodup := (h list).filter _
  rw [hnodup.erase_eq_filter]
  unfold removed
  rw [List.filter_filter]
  apply List.filter_congr
  intro g _
  rw [Bool.eq_iff_iff]
  simp only [Bool.and_eq_true, bne_iff_ne, decide_eq_true_eq, List.mem_append, List.mem_singleton,
    not_or]
  exact and_comm

theorem removed_single {c : WaitList F → List F} (h : ∀ list, (c list).Nodup) (f : F) :
    (fun list => (c list).erase f) = removed c [f] := by
  have herase := removed_erase h [] f
  rw [removed_nil] at herase
  exact herase

theorem find?_removed {c : WaitList F → List F} {xs : List F} {list : WaitList F}
    {accept : F → Bool} {f : F} (h : (c list).find? accept = some f) (hf : f ∉ xs) :
    (removed c xs list).find? accept = some f := by
  obtain ⟨haccept, as, bs, hsplit, hbefore⟩ := List.find?_eq_some_iff_append.mp h
  apply List.find?_eq_some_iff_append.mpr
  refine ⟨haccept, as.filter (fun g => g ∉ xs), bs.filter (fun g => g ∉ xs), ?_, ?_⟩
  · unfold removed
    rw [hsplit, List.filter_append]
    congr 1
    exact List.filter_cons_of_pos (decide_eq_true hf)
  · intro g hg
    exact hbefore g (List.mem_filter.mp hg).1

def unlinkAll (links : Links (Node F)) (xs : List F) : Links (Node F) :=
  xs.foldl (fun links f => links.unlink (.inr f)) links

theorem removed_removed (c : WaitList F → List F) (xs ys : List F) :
    removed (removed c xs) ys = removed c (xs ++ ys) := by
  funext list
  unfold removed
  rw [List.filter_filter]
  apply List.filter_congr
  intro g _
  rw [Bool.eq_iff_iff]
  simp only [Bool.and_eq_true, decide_eq_true_eq, List.mem_append, not_or]
  exact and_comm

theorem unlinkAll_represents (xs : List F) : ∀ (links : Links (Node F)) (c : WaitList F → List F),
    links.Represents c → (unlinkAll links xs).Represents (removed c xs) := by
  induction xs with
  | nil =>
    intro links c h
    rw [removed_nil]
    exact h
  | cons f xs ih =>
    intro links c h
    have hunlink := h.unlink f
    rw [removed_single h.nodup] at hunlink
    have hrest := ih _ _ hunlink
    rw [removed_removed] at hrest
    exact hrest

end Removed

def InWaitList (s : UserScheduler F A) (f : F) : Prop :=
  ∃ xs, s.links.Ring (.inl .scheduler) (Links.nodes xs) ∧ f ∈ xs

theorem inWaitList_iff {s : UserScheduler F A} {c : WaitList F → List F} {f : F}
    (h : s.links.Represents c) : s.InWaitList f ↔ f ∈ c .scheduler := by
  constructor
  · rintro ⟨xs, hring, hf⟩
    rw [h.eq_of_ring hring]
    exact hf
  · intro hf
    exact ⟨_, h.ring _, hf⟩

structure Lists (links : Links (Node F)) (c : WaitList F → List F) (P : F → Prop) : Prop where
  represents : links.Represents c
  listed : ∀ list f, f ∈ c list → P f
  foreign : ∀ f, f ∉ c (.of f)

namespace Lists

variable {links : Links (Node F)} {c : WaitList F → List F} {P Q : F → Prop}

theorem mono (h : Lists links c P) (hPQ : ∀ f, P f → Q f) : Lists links c Q where
  represents := h.represents
  listed list f hf := hPQ f (h.listed list f hf)
  foreign := h.foreign

theorem not_listed (h : Lists links c P) {f : F} (hf : ¬P f) (list : WaitList F) : f ∉ c list :=
  fun hmem => hf (h.listed list f hmem)

theorem head_ne (h : Lists links c P) {f g : F} (hg : g ∈ c (.of f)) : g ≠ f := by
  rintro rfl
  exact h.foreign g hg

variable [DecidableEq F]

theorem unlink (h : Lists links c P) (f : F) :
    Lists (links.unlink (.inr f)) (fun list => (c list).erase f) fun g => P g ∧ g ≠ f where
  represents := h.represents.unlink f
  listed list g hg := by
    refine ⟨h.listed list g (List.mem_of_mem_erase hg), ?_⟩
    rintro rfl
    exact (h.represents.nodup list).not_mem_erase hg
  foreign g hg := h.foreign g (List.mem_of_mem_erase hg)

theorem pushBack (h : Lists links c P) {f : F} (hf : ¬P f) {list : WaitList F}
    (hlist : list ≠ .of f) :
    Lists (links.linkPrev (.inl list) (.inr f)) (Function.update c list (c list ++ [f]))
      fun g => P g ∨ g = f where
  represents := h.represents.pushBack (h.not_listed hf) list
  listed list' g hg := by
    by_cases hl : list' = list
    · rw [hl, Function.update_self] at hg
      apply (List.mem_append.mp hg).imp
      · exact h.listed list g
      · exact List.mem_singleton.mp
    · rw [Function.update_of_ne hl] at hg
      exact Or.inl (h.listed list' g hg)
  foreign g hg := by
    by_cases hl : .of g = list
    · rw [hl, Function.update_self] at hg
      rcases List.mem_append.mp hg with hg | hg
      · rw [← hl] at hg
        exact h.foreign g hg
      · rw [List.mem_singleton.mp hg] at hl
        exact hlist hl.symm
    · rw [Function.update_of_ne hl] at hg
      exact h.foreign g hg

theorem promoted (h : Lists links c P) {links' : Links (Node F)} {f parent : F} {rest : List F}
    (hc : c (.of f) = parent :: rest)
    (hrep : links'.Represents (UserScheduler.promoted c f parent rest)) :
    Lists links' (UserScheduler.promoted c f parent rest) fun g => P g ∧ g ≠ parent := by
  have hrest : ∀ g ∈ rest, P g ∧ g ≠ parent := by
    intro g hg
    refine ⟨h.listed (.of f) g (by rw [hc]; exact List.mem_cons_of_mem _ hg), ?_⟩
    rintro rfl
    have hnodup := h.represents.nodup (.of f)
    rw [hc] at hnodup
    exact (List.nodup_cons.mp hnodup).1 hg
  have hunlink := h.unlink parent
  constructor
  · exact hrep
  · intro list g hg
    rcases mem_moved hg with hg | ⟨hg, -⟩
    · exact hunlink.listed list g hg
    · exact hrest g hg
  · intro g hg
    rcases mem_moved hg with hmem | ⟨hmem, hlist⟩
    · exact hunlink.foreign g hmem
    · exact (hrest g hmem).2 (WaitList.of.inj hlist)

variable [DecidableEq A] {s : UserScheduler F A}

theorem release_some (h : Lists s.links c P) {f : F} {fuel : ℕ} {s' : UserScheduler F A}
    (hs : s.releaseLockWaitListUnsafe fuel f = some s') :
    ∃ g lock_address, c (.of f) = [g] ∧ P g ∧ g ≠ f ∧
      (s.fiber g).lock_address = some lock_address ∧ s' = s.handedOver g lock_address := by
  cases hc : c (.of f) with
  | nil =>
    rw [release_empty h.represents hc] at hs
    cases hs
  | cons g rest =>
    have hg : g ∈ c (.of f) := by
      rw [hc]
      exact List.mem_cons_self
    have hne := h.head_ne hg
    cases rest with
    | cons r rest =>
      rw [release_diverges h.represents hc hne] at hs
      cases hs
    | nil =>
      cases fuel with
      | zero =>
        rw [release_zero] at hs
        cases hs
      | succ fuel =>
        have hnext : s.links.next (.inl (.of f)) = .inr g := by
          rw [h.represents.next_head, hc]
          rfl
        cases hlock : (s.fiber g).lock_address with
        | none =>
          unfold releaseLockWaitListUnsafe at hs
          rw [hnext] at hs
          dsimp only at hs
          rw [unlink_fiber, hlock] at hs
          cases hs
        | some lock_address =>
          cases hwait : (s.fiber g).waitable_object with
          | none =>
            unfold releaseLockWaitListUnsafe at hs
            rw [hnext] at hs
            dsimp only at hs
            rw [unlink_fiber, hlock, hwait] at hs
            cases hs
          | some w =>
            rw [release_single h.represents hc hlock hwait] at hs
            exact ⟨g, lock_address, rfl, h.listed _ g hg, hne, hlock, (Option.some.inj hs).symm⟩

end Lists

end Awn.Ukern.UserScheduler
