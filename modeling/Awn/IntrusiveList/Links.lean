import Mathlib.Data.List.Nodup
import Mathlib.Data.Nat.Notation
import Mathlib.Logic.Function.Basic

/-!
Circular doubly linked lists through nodes that live in the elements: a list is a ring of nodes
with a head node that belongs to no element.
-/

namespace Awn

structure Links (N : Type*) where
  prev : N → N
  next : N → N

namespace Links

variable {N : Type*}

def alone : Links N where
  prev := id
  next := id

def Segment (l : Links N) : N → List N → N → Prop
  | a, [], b => l.next a = b ∧ l.prev b = a
  | a, x :: xs, b => l.next a = x ∧ l.prev x = a ∧ l.Segment x xs b

def Ring (l : Links N) (head : N) (xs : List N) : Prop := l.Segment head xs head

theorem segment_append (l : Links N) (a b y : N) (xs ys : List N) :
    l.Segment a (xs ++ y :: ys) b ↔ l.Segment a xs y ∧ l.Segment y ys b := by
  induction xs generalizing a with
  | nil =>
    simp only [List.nil_append, Segment, and_assoc]
  | cons x xs ih =>
    simp only [List.cons_append, Segment, ih, and_assoc]

theorem segment_congr {l l' : Links N} {a b : N} {xs : List N} (h : l.Segment a xs b)
    (hnext : ∀ n ∈ a :: xs, l'.next n = l.next n) (hprev : ∀ n ∈ xs, l'.prev n = l.prev n)
    (hb : l'.prev b = l.prev b) : l'.Segment a xs b := by
  induction xs generalizing a with
  | nil =>
    have ha := hnext a (List.mem_singleton_self a)
    exact ⟨ha.trans h.1, hb.trans h.2⟩
  | cons x xs ih =>
    have ha := hnext a List.mem_cons_self
    have hx := hprev x List.mem_cons_self
    refine ⟨ha.trans h.1, hx.trans h.2.1, ?_⟩
    apply ih h.2.2
    · intro n hn
      exact hnext n (List.mem_cons_of_mem a hn)
    · intro n hn
      exact hprev n (List.mem_cons_of_mem x hn)

theorem segment_prev_mem {l : Links N} {a b : N} {xs : List N} (h : l.Segment a xs b) :
    l.prev b ∈ a :: xs := by
  induction xs generalizing a with
  | nil => exact h.2 ▸ List.mem_singleton_self a
  | cons x xs ih => exact List.mem_cons_of_mem a (ih h.2.2)

theorem segment_redirect {l l' : Links N} {a b b' : N} {xs : List N} (h : l.Segment a xs b)
    (hdistinct : (a :: xs).Nodup)
    (hnext : ∀ n ∈ a :: xs, n ≠ l.prev b → l'.next n = l.next n)
    (hprev : ∀ n ∈ xs, l'.prev n = l.prev n)
    (hlast : l'.next (l.prev b) = b') (hb : l'.prev b' = l.prev b) : l'.Segment a xs b' := by
  induction xs generalizing a with
  | nil =>
    have ha : l.prev b = a := h.2
    rw [ha] at hlast hb
    exact ⟨hlast, hb⟩
  | cons x xs ih =>
    have hmem := segment_prev_mem h.2.2
    have hne : a ≠ l.prev b := by
      intro heq
      exact (List.nodup_cons.mp hdistinct).1 (heq ▸ hmem)
    have ha := hnext a List.mem_cons_self hne
    have hx := hprev x List.mem_cons_self
    refine ⟨ha.trans h.1, hx.trans h.2.1, ?_⟩
    apply ih h.2.2 (List.nodup_cons.mp hdistinct).2
    · intro n hn
      exact hnext n (List.mem_cons_of_mem a hn)
    · intro n hn
      exact hprev n (List.mem_cons_of_mem x hn)

theorem segment_next_mem {l : Links N} {a b : N} {xs : List N} (h : l.Segment a xs b) :
    l.next a ∈ xs ++ [b] := by
  cases xs with
  | nil => exact h.1 ▸ List.mem_singleton_self b
  | cons x xs => exact h.1 ▸ List.mem_cons_self

theorem segment_unique {l : Links N} {a b : N} {xs ys : List N} (hx : l.Segment a xs b)
    (hy : l.Segment a ys b) (hbx : b ∉ xs) (hby : b ∉ ys) : xs = ys := by
  induction xs generalizing a ys with
  | nil =>
    cases ys with
    | nil => rfl
    | cons y ys =>
      have hb : b = y := hx.1.symm.trans hy.1
      exact absurd (hb ▸ List.mem_cons_self) hby
  | cons x xs ih =>
    cases ys with
    | nil =>
      have hb : b = x := hy.1.symm.trans hx.1
      exact absurd (hb ▸ List.mem_cons_self) hbx
    | cons y ys =>
      have hxy : x = y := hx.1.symm.trans hy.1
      subst hxy
      rw [ih hx.2.2 hy.2.2 (fun h => hbx (List.mem_cons_of_mem x h))
        (fun h => hby (List.mem_cons_of_mem x h))]

structure Between (l : Links N) (a e : N) (xs ys : List N) : Prop where
  before : l.Segment a xs e
  after : l.Segment e ys a
  prev_mem : l.prev e ∈ a :: xs
  next_mem : l.next e ∈ ys ++ [a]
  ne_prev : e ≠ l.prev e
  ne_next : e ≠ l.next e
  head_ne : a ≠ e
  not_before : e ∉ xs
  not_after : e ∉ ys
  head_not_before : a ∉ xs
  head_not_after : a ∉ ys
  disjoint : ∀ n ∈ xs, n ∉ ys

theorem ring_between {l : Links N} {a e : N} {xs ys : List N} (h : l.Ring a (xs ++ e :: ys))
    (hdistinct : (a :: (xs ++ e :: ys)).Nodup) : l.Between a e xs ys := by
  have hsplit := (segment_append l a a e xs ys).mp h
  have hprev := segment_prev_mem hsplit.1
  have hnext := segment_next_mem hsplit.2
  have hcons := List.nodup_cons.mp hdistinct
  have happ := List.nodup_append.mp hcons.2
  have hae : a ≠ e := by
    rintro rfl
    exact hcons.1 (List.mem_append_right xs List.mem_cons_self)
  have hexs : e ∉ xs := fun he => happ.2.2 e he e List.mem_cons_self rfl
  have heys : e ∉ ys := (List.nodup_cons.mp happ.2.1).1
  constructor
  · exact hsplit.1
  · exact hsplit.2
  · exact hprev
  · exact hnext
  · intro heq
    rw [← heq, List.mem_cons] at hprev
    exact hprev.elim (fun h => hae h.symm) hexs
  · intro heq
    rw [← heq, List.mem_append, List.mem_singleton] at hnext
    exact hnext.elim heys (fun h => hae h.symm)
  · exact hae
  · exact hexs
  · exact heys
  · exact fun ha => hcons.1 (List.mem_append_left _ ha)
  · exact fun ha => hcons.1 (List.mem_append_right xs (List.mem_cons_of_mem e ha))
  · exact fun n hn hy => happ.2.2 n hn n (List.mem_cons_of_mem e hy) rfl

variable [DecidableEq N]

def setPrev (l : Links N) (n m : N) : Links N := { l with prev := Function.update l.prev n m }

def setNext (l : Links N) (n m : N) : Links N := { l with next := Function.update l.next n m }

def linkPrev (l : Links N) (this new_node : N) : Links N :=
  let new_prev := l.prev new_node
  let l := l.setPrev new_node (l.prev this)
  let l := l.setNext new_prev this
  let l := l.setNext (l.prev this) new_node
  l.setPrev this new_prev

def unlink (l : Links N) (n : N) : Links N :=
  let l := l.setNext (l.prev n) (l.next n)
  let l := l.setPrev (l.next n) (l.prev n)
  let l := l.setNext n n
  l.setPrev n n

def isLinked (l : Links N) (n : N) : Bool := n ≠ l.next n

theorem unlink_alone {l : Links N} {n : N} (h : l.Ring n []) : l.unlink n = l := by
  obtain ⟨hn, hp⟩ := h
  have hnext : Function.update l.next n n = l.next := by
    funext m
    by_cases hm : m = n
    · rw [hm, Function.update_self, hn]
    · rw [Function.update_of_ne hm]
  have hprev : Function.update l.prev n n = l.prev := by
    funext m
    by_cases hm : m = n
    · rw [hm, Function.update_self, hp]
    · rw [Function.update_of_ne hm]
  simp only [unlink, setNext, setPrev, hn, hp, hnext, hprev]

theorem linkPrev_self {l : Links N} {n : N} (h : l.Ring n []) : l.linkPrev n n = l := by
  obtain ⟨hn, hp⟩ := h
  have hnext : Function.update l.next n n = l.next := by
    funext m
    by_cases hm : m = n
    · rw [hm, Function.update_self, hn]
    · rw [Function.update_of_ne hm]
  have hprev : Function.update l.prev n n = l.prev := by
    funext m
    by_cases hm : m = n
    · rw [hm, Function.update_self, hp]
    · rw [Function.update_of_ne hm]
  simp only [linkPrev, setNext, setPrev, hp, hnext, hprev]

theorem unlink_next_of_ne {l : Links N} {n m : N} (hn : m ≠ n) (hp : m ≠ l.prev n) :
    (l.unlink n).next m = l.next m := by
  simp only [unlink, setNext, setPrev, Function.update_of_ne hn, Function.update_of_ne hp]

theorem unlink_prev_of_ne {l : Links N} {n m : N} (hlinked : n ≠ l.prev n) (hn : m ≠ n)
    (hp : m ≠ l.next n) : (l.unlink n).prev m = l.prev m := by
  simp only [unlink, setNext, setPrev, Function.update_of_ne hn, Function.update_of_ne hlinked,
    Function.update_of_ne hp]

theorem unlink_next_prev {l : Links N} {n : N} (hlinked : n ≠ l.prev n) :
    (l.unlink n).next (l.prev n) = l.next n := by
  simp only [unlink, setNext, setPrev, Function.update_of_ne hlinked.symm, Function.update_self]

theorem unlink_prev_next {l : Links N} {n : N} (hprev : n ≠ l.prev n) (hnext : n ≠ l.next n) :
    (l.unlink n).prev (l.next n) = l.prev n := by
  simp only [unlink, setNext, setPrev, Function.update_of_ne hprev, Function.update_of_ne hnext.symm,
    Function.update_self]

theorem unlink_ring_self (l : Links N) (n : N) : (l.unlink n).Ring n [] := by
  constructor <;> simp only [unlink, setNext, setPrev, Function.update_self]

theorem ring_unlink {l : Links N} {a e : N} {xs ys : List N} (h : l.Ring a (xs ++ e :: ys))
    (hdistinct : (a :: (xs ++ e :: ys)).Nodup) : (l.unlink e).Ring a (xs ++ ys) := by
  have hb := ring_between h hdistinct
  have hleft : (l.unlink e).Segment a xs (l.next e) := by
    apply segment_redirect hb.before
    · exact List.nodup_cons.mpr ⟨hb.head_not_before,
        (List.nodup_append.mp (List.nodup_cons.mp hdistinct).2).1⟩
    · intro n hn hne
      apply unlink_next_of_ne _ hne
      rintro rfl
      exact (List.mem_cons.mp hn).elim (fun h => hb.head_ne h.symm) hb.not_before
    · intro n hn
      apply unlink_prev_of_ne hb.ne_prev
      · rintro rfl
        exact hb.not_before hn
      · rintro rfl
        rcases List.mem_append.mp hb.next_mem with hy | hy
        · exact hb.disjoint _ hn hy
        · rw [List.mem_singleton.mp hy] at hn
          exact hb.head_not_before hn
    · exact unlink_next_prev hb.ne_prev
    · exact unlink_prev_next hb.ne_prev hb.ne_next
  cases ys with
  | nil =>
    have ha : l.next e = a := hb.after.1
    rw [ha] at hleft
    rw [List.append_nil]
    exact hleft
  | cons y ys =>
    have hy : l.next e = y := hb.after.1
    rw [hy] at hleft
    apply (segment_append _ a a y xs ys).mpr
    refine ⟨hleft, ?_⟩
    apply segment_congr hb.after.2.2
    · intro n hn
      apply unlink_next_of_ne
      · rintro rfl
        exact hb.not_after hn
      · rintro rfl
        rcases List.mem_cons.mp hb.prev_mem with hp | hp
        · rw [hp] at hn
          exact hb.head_not_after hn
        · exact hb.disjoint _ hp hn
    · intro n hn
      apply unlink_prev_of_ne hb.ne_prev
      · rintro rfl
        exact hb.not_after (List.mem_cons_of_mem y hn)
      · rw [hy]
        rintro rfl
        have happ := (List.nodup_append.mp (List.nodup_cons.mp hdistinct).2).2.1
        exact (List.nodup_cons.mp (List.nodup_cons.mp happ).2).1 hn
    · apply unlink_prev_of_ne hb.ne_prev hb.head_ne
      rw [hy]
      rintro rfl
      exact hb.head_not_after List.mem_cons_self

theorem ring_unlink_other {l : Links N} {a e b : N} {xs ys zs : List N}
    (h : l.Ring a (xs ++ e :: ys)) (hdistinct : (a :: (xs ++ e :: ys)).Nodup) (hz : l.Ring b zs)
    (hdisjoint : ∀ n ∈ b :: zs, n ∉ a :: (xs ++ e :: ys)) : (l.unlink e).Ring b zs := by
  have hb := ring_between h hdistinct
  have he : e ∈ a :: (xs ++ e :: ys) :=
    List.mem_cons_of_mem a (List.mem_append_right xs List.mem_cons_self)
  have hprev : l.prev e ∈ a :: (xs ++ e :: ys) := by
    rcases List.mem_cons.mp hb.prev_mem with hp | hp
    · exact hp ▸ List.mem_cons_self
    · exact List.mem_cons_of_mem a (List.mem_append_left _ hp)
  have hnext : l.next e ∈ a :: (xs ++ e :: ys) := by
    rcases List.mem_append.mp hb.next_mem with hn | hn
    · exact List.mem_cons_of_mem a (List.mem_append_right xs (List.mem_cons_of_mem e hn))
    · exact (List.mem_singleton.mp hn) ▸ List.mem_cons_self
  have hne : ∀ n ∈ b :: zs, ∀ m ∈ a :: (xs ++ e :: ys), n ≠ m := by
    rintro n hn m hm rfl
    exact hdisjoint n hn hm
  apply segment_congr hz
  · intro n hn
    exact unlink_next_of_ne (hne n hn e he) (hne n hn _ hprev)
  · intro n hn
    have hn' := List.mem_cons_of_mem b hn
    exact unlink_prev_of_ne hb.ne_prev (hne n hn' e he) (hne n hn' _ hnext)
  · exact unlink_prev_of_ne hb.ne_prev (hne b List.mem_cons_self e he)
      (hne b List.mem_cons_self _ hnext)

theorem linkPrev_prev_of_ne {l : Links N} {a e m : N} (hm : m ≠ e) (ha : m ≠ a) :
    (l.linkPrev a e).prev m = l.prev m := by
  simp only [linkPrev, setNext, setPrev, Function.update_of_ne hm, Function.update_of_ne ha]

theorem linkPrev_next {l : Links N} {a e : N} (hae : a ≠ e) :
    (l.linkPrev a e).next = Function.update (Function.update l.next (l.prev e) a) (l.prev a) e := by
  simp only [linkPrev, setNext, setPrev, Function.update_of_ne hae]

theorem ring_linkPrev_ring {l : Links N} {a e : N} {xs rs : List N} (h : l.Ring a xs)
    (hr : l.Ring e rs) (hdistinct : (a :: xs ++ e :: rs).Nodup) :
    (l.linkPrev a e).Ring a (xs ++ e :: rs) := by
  obtain ⟨hxs, hrs, hdisjoint⟩ := List.nodup_append.mp hdistinct
  have hae : a ≠ e := hdisjoint a List.mem_cons_self e List.mem_cons_self
  have hpa := segment_prev_mem h
  have hpe := segment_prev_mem hr
  have hne : l.prev a ≠ l.prev e := hdisjoint _ hpa _ hpe
  apply (segment_append _ a a e xs rs).mpr
  constructor
  · apply segment_redirect h hxs
    · intro n hn hlast
      rw [linkPrev_next hae, Function.update_of_ne hlast,
        Function.update_of_ne (hdisjoint n hn _ hpe)]
    · intro n hn
      apply linkPrev_prev_of_ne
      · exact hdisjoint n (List.mem_cons_of_mem a hn) e List.mem_cons_self
      · rintro rfl
        exact (List.nodup_cons.mp hxs).1 hn
    · rw [linkPrev_next hae, Function.update_self]
    · simp only [linkPrev, setNext, setPrev, Function.update_of_ne hae.symm, Function.update_self]
  · apply segment_redirect hr hrs
    · intro n hn hlast
      rw [linkPrev_next hae, Function.update_of_ne (hdisjoint _ hpa n hn).symm,
        Function.update_of_ne hlast]
    · intro n hn
      apply linkPrev_prev_of_ne
      · rintro rfl
        exact (List.nodup_cons.mp hrs).1 hn
      · exact (hdisjoint a List.mem_cons_self n (List.mem_cons_of_mem e hn)).symm
    · rw [linkPrev_next hae, Function.update_of_ne hne.symm, Function.update_self]
    · simp only [linkPrev, setNext, setPrev, Function.update_self]

theorem ring_linkPrev_ring_other {l : Links N} {a e b : N} {xs rs zs : List N} (h : l.Ring a xs)
    (hr : l.Ring e rs) (hae : a ≠ e) (hz : l.Ring b zs)
    (hdisjoint : ∀ n ∈ b :: zs, n ∉ a :: xs ++ e :: rs) : (l.linkPrev a e).Ring b zs := by
  have hpa : l.prev a ∈ a :: xs ++ e :: rs := List.mem_append_left _ (segment_prev_mem h)
  have hpe : l.prev e ∈ a :: xs ++ e :: rs := List.mem_append_right _ (segment_prev_mem hr)
  have ha : a ∈ a :: xs ++ e :: rs := List.mem_cons_self
  have he : e ∈ a :: xs ++ e :: rs := List.mem_append_right _ List.mem_cons_self
  have hne : ∀ n ∈ b :: zs, ∀ m ∈ a :: xs ++ e :: rs, n ≠ m := by
    rintro n hn m hm rfl
    exact hdisjoint n hn hm
  apply segment_congr hz
  · intro n hn
    rw [linkPrev_next hae, Function.update_of_ne (hne n hn _ hpa),
      Function.update_of_ne (hne n hn _ hpe)]
  · intro n hn
    have hn' := List.mem_cons_of_mem b hn
    exact linkPrev_prev_of_ne (hne n hn' e he) (hne n hn' a ha)
  · exact linkPrev_prev_of_ne (hne b List.mem_cons_self e he) (hne b List.mem_cons_self a ha)

omit [DecidableEq N] in
theorem nodup_ring_append {a e : N} {xs : List N} (hdistinct : (a :: xs).Nodup)
    (hmem : e ∉ a :: xs) : (a :: xs ++ [e]).Nodup := by
  apply List.nodup_append.mpr
  refine ⟨hdistinct, List.nodup_singleton e, ?_⟩
  rintro n hn m hm rfl
  rw [List.mem_singleton.mp hm] at hn
  exact hmem hn

theorem ring_linkPrev {l : Links N} {a e : N} {xs : List N} (h : l.Ring a xs)
    (hdistinct : (a :: xs).Nodup) (he : l.Ring e []) (hmem : e ∉ a :: xs) :
    (l.linkPrev a e).Ring a (xs ++ [e]) :=
  ring_linkPrev_ring h he (nodup_ring_append hdistinct hmem)

theorem ring_linkPrev_other {l : Links N} {a e b : N} {xs zs : List N} (h : l.Ring a xs)
    (he : l.Ring e []) (hmem : e ∉ a :: xs) (hz : l.Ring b zs)
    (hdisjoint : ∀ n ∈ b :: zs, n ∉ a :: xs) (hez : e ∉ b :: zs) :
    (l.linkPrev a e).Ring b zs := by
  apply ring_linkPrev_ring_other h he _ hz
  · intro n hn hm
    obtain hm | hm := List.mem_append.mp hm
    · exact hdisjoint n hn hm
    · rw [List.mem_singleton.mp hm] at hn
      exact hez hn
  · rintro rfl
    exact hmem List.mem_cons_self

structure Paired (l : Links N) : Prop where
  prev_next : ∀ n, l.prev (l.next n) = n
  next_prev : ∀ n, l.next (l.prev n) = n

omit [DecidableEq N] in
theorem paired_alone : (alone : Links N).Paired := ⟨fun _ => rfl, fun _ => rfl⟩

omit [DecidableEq N] in
theorem Paired.prev_injective {l : Links N} (h : l.Paired) : Function.Injective l.prev :=
  Function.LeftInverse.injective h.next_prev

theorem Paired.linkPrev {l : Links N} {a e : N} (h : l.Paired) (hae : a ≠ e) :
    (l.linkPrev a e).Paired := by
  have hprevs : l.prev e ≠ l.prev a := fun heq => hae (h.prev_injective heq).symm
  have hprev : (l.linkPrev a e).prev = Function.update (Function.update l.prev e (l.prev a)) a
      (l.prev e) := rfl
  have hnext := linkPrev_next (l := l) hae
  constructor
  · intro n
    rw [hprev, hnext]
    by_cases hn : n = l.prev a
    · rw [hn, Function.update_self, Function.update_of_ne hae.symm, Function.update_self]
    · rw [Function.update_of_ne hn]
      by_cases hn' : n = l.prev e
      · rw [hn', Function.update_self, Function.update_self]
      · have ha : l.next n ≠ a := by
          rintro rfl
          exact hn (h.prev_next n).symm
        have he : l.next n ≠ e := by
          rintro rfl
          exact hn' (h.prev_next n).symm
        rw [Function.update_of_ne hn', Function.update_of_ne ha, Function.update_of_ne he,
          h.prev_next]
  · intro n
    rw [hprev, hnext]
    by_cases hn : n = a
    · rw [hn, Function.update_self, Function.update_of_ne hprevs, Function.update_self]
    · rw [Function.update_of_ne hn]
      by_cases hn' : n = e
      · rw [hn', Function.update_self, Function.update_self]
      · rw [Function.update_of_ne hn', Function.update_of_ne fun heq => hn (h.prev_injective heq),
          Function.update_of_ne fun heq => hn' (h.prev_injective heq), h.next_prev]

theorem Paired.unlink_linkPrev {l : Links N} {a e : N} (h : l.Paired) (hae : a ≠ e)
    (hfirst : l.next a = e) : ((l.unlink e).linkPrev a e).next e = a := by
  have hprev : l.prev e = a := by rw [← hfirst, h.prev_next]
  have halone := unlink_ring_self l e
  have hlast : (l.unlink e).prev a ≠ e := by
    have hfrom : (l.unlink e).prev a = Function.update l.prev (l.next e) a a := by
      simp only [unlink, setNext, setPrev, hprev, Function.update_of_ne hae,
        Function.update_of_ne hae.symm]
    rw [hfrom]
    by_cases hend : a = l.next e
    · rw [← hend, Function.update_self]
      exact hae
    · rw [Function.update_of_ne hend]
      intro heq
      exact hend (by rw [← heq, h.next_prev])
  have hself : (l.unlink e).prev e = e := halone.2
  generalize l.unlink e = unlinked at hself hlast
  simp only [Links.linkPrev, setNext, setPrev, hself, Function.update_of_ne hae,
    Function.update_of_ne hlast.symm, Function.update_self]

end Links

end Awn
