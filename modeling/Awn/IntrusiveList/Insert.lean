import Awn.IntrusiveList.Represents

/-!
Insertion behind an element that is already in a list.
-/

namespace Awn.Links

section Ring

variable {N : Type*} [DecidableEq N]

def linkNext (l : Links N) (this new_node : N) : Links N :=
  let old_next := l.next new_node
  let l := l.setNext new_node (l.next this)
  let l := l.setPrev old_next this
  let l := l.setPrev (l.next this) new_node
  l.setNext this old_next

omit [DecidableEq N] in
theorem ring_rotate {l : Links N} {a b : N} {xs ys : List N} (h : l.Ring a (xs ++ b :: ys)) :
    l.Ring b (ys ++ a :: xs) := by
  have hsplit := (segment_append l a a b xs ys).mp h
  exact (segment_append l b b a ys xs).mpr ⟨hsplit.2, hsplit.1⟩

omit [DecidableEq N] in
theorem ring_next {l : Links N} {a : N} {xs : List N} (h : l.Ring a xs) :
    ∃ zs, l.Ring (l.next a) zs ∧ l.next a :: zs = xs ++ [a] := by
  cases xs with
  | nil =>
    have hnext : l.next a = a := h.1
    rw [hnext]
    exact ⟨[], h, rfl⟩
  | cons x xs =>
    have hnext : l.next a = x := h.1
    rw [hnext]
    have hring : l.Ring a ([] ++ x :: xs) := h
    exact ⟨xs ++ [a], ring_rotate hring, rfl⟩

omit [DecidableEq N] in
theorem ring_prev_next {l : Links N} {a : N} {xs : List N} (h : l.Ring a xs) :
    l.prev (l.next a) = a := by
  cases xs with
  | nil =>
    have hnext : l.next a = a := h.1
    rw [hnext]
    exact h.2
  | cons x xs =>
    have hnext : l.next a = x := h.1
    rw [hnext]
    exact h.2.1

theorem linkNext_eq_linkPrev {l : Links N} {a e : N} (hae : a ≠ e)
    (ha : l.prev (l.next a) = a) (he : l.prev (l.next e) = e) :
    l.linkNext a e = l.linkPrev (l.next a) (l.next e) := by
  have hnexts : l.next a ≠ l.next e := by
    intro heq
    rw [heq, he] at ha
    exact hae ha.symm
  simp only [linkNext, linkPrev, setNext, setPrev, ha, he, Function.update_of_ne hae,
    Function.update_of_ne hnexts]

theorem ring_linkNext_ring {l : Links N} {a e : N} {xs rs : List N} (h : l.Ring a xs)
    (hr : l.Ring e rs) (hdistinct : (a :: xs ++ e :: rs).Nodup) :
    (l.linkNext a e).Ring a (rs ++ e :: xs) := by
  obtain ⟨-, -, hdisjoint⟩ := List.nodup_append.mp hdistinct
  have hae : a ≠ e := hdisjoint a List.mem_cons_self e List.mem_cons_self
  obtain ⟨zs, hzs, hmoved⟩ := ring_next h
  obtain ⟨ts, hts, hmoved'⟩ := ring_next hr
  rw [linkNext_eq_linkPrev hae (ring_prev_next h) (ring_prev_next hr)]
  have hring := ring_linkPrev_ring hzs hts (by
    rw [hmoved, hmoved']
    have hperm : (xs ++ [a] ++ (rs ++ [e])).Perm (a :: xs ++ e :: rs) :=
      (List.perm_append_singleton a xs).append (List.perm_append_singleton e rs)
    exact hperm.nodup_iff.mpr hdistinct)
  rw [hmoved'] at hring
  -- back to the ring of `a`
  cases xs with
  | nil =>
    have hnext : l.next a = a := (List.cons.inj hmoved).1
    have hnone : zs = [] := (List.cons.inj hmoved).2
    rw [hnext, hnone] at hring
    rw [hnext]
    exact hring
  | cons x xs =>
    have hnext : l.next a = x := (List.cons.inj hmoved).1
    have hlast : zs = xs ++ [a] := (List.cons.inj hmoved).2
    rw [hnext, hlast, List.append_assoc] at hring
    have hrotated : (l.linkPrev x (l.next e)).Ring a ((rs ++ [e]) ++ x :: xs) := ring_rotate hring
    rw [hnext]
    rw [List.append_assoc] at hrotated
    exact hrotated

theorem ring_linkNext_ring_other {l : Links N} {a e b : N} {xs rs zs : List N} (h : l.Ring a xs)
    (hr : l.Ring e rs) (hae : a ≠ e) (hz : l.Ring b zs)
    (hdisjoint : ∀ n ∈ b :: zs, n ∉ a :: xs ++ e :: rs) : (l.linkNext a e).Ring b zs := by
  obtain ⟨ys, hys, hmoved⟩ := ring_next h
  obtain ⟨ts, hts, hmoved'⟩ := ring_next hr
  have hnexts : l.next a ≠ l.next e := by
    intro heq
    have ha := ring_prev_next h
    rw [heq, ring_prev_next hr] at ha
    exact hae ha.symm
  rw [linkNext_eq_linkPrev hae (ring_prev_next h) (ring_prev_next hr)]
  apply ring_linkPrev_ring_other hys hts hnexts hz
  intro n hn hm
  rw [hmoved, hmoved'] at hm
  have hperm : (xs ++ [a] ++ (rs ++ [e])).Perm (a :: xs ++ e :: rs) :=
    (List.perm_append_singleton a xs).append (List.perm_append_singleton e rs)
  exact hdisjoint n hn (hperm.mem_iff.mp hm)

end Ring

namespace Represents

variable {S E : Type*} [DecidableEq S] [DecidableEq E] {l : Links (S ⊕ E)} {c : S → List E}

omit [DecidableEq S] [DecidableEq E] in
theorem disjoint_insert {e : E} {s : S} {c : S → List E} {b : S ⊕ E} {ws : List (S ⊕ E)}
    {ring : List (S ⊕ E)} (hring : ring.Perm (Sum.inl s :: nodes (c s)))
    (hdisjoint : ∀ n ∈ b :: ws, n ∉ Sum.inl s :: nodes (c s)) (heb : Sum.inr e ∉ b :: ws) :
    ∀ n ∈ b :: ws, n ∉ ring ++ [Sum.inr e] := by
  intro n hn hm
  obtain hm | hm := List.mem_append.mp hm
  · exact hdisjoint n hn (hring.mem_iff.mp hm)
  · rw [List.mem_singleton.mp hm] at hn
    exact heb hn

theorem pushFront (h : l.Represents c) {e : E} (he : ∀ s, e ∉ c s) (s : S) :
    (l.linkNext (.inl s) (.inr e)).Represents (Function.update c s (e :: c s)) := by
  have halone := h.unlinked e he
  apply h.insert he
  · exact ring_linkNext_ring (h.ring s) halone (nodup_ring_append (h.nodup_ring s) (notMem_ring he s))
  · exact List.Perm.refl _
  · intro b ws hb hdisjoint heb
    exact ring_linkNext_ring_other (h.ring s) halone Sum.inl_ne_inr hb
      (disjoint_insert (List.Perm.refl _) hdisjoint heb)

section Beside

variable {e a : E} {s : S} {xs ys : List E}

omit [DecidableEq S] [DecidableEq E] in
theorem ring_member (h : l.Represents c) (hc : c s = xs ++ a :: ys) :
    l.Ring (.inr a) (nodes ys ++ .inl s :: nodes xs) ∧
      (Sum.inr a :: (nodes ys ++ .inl s :: nodes xs) : List (S ⊕ E)).Perm
        (.inl s :: nodes (c s)) := by
  have hring := h.ring s
  rw [hc, nodes_append] at hring ⊢
  refine ⟨ring_rotate hring, ?_⟩
  have hperm : (Sum.inr a :: nodes ys ++ (.inl s :: nodes xs) : List (S ⊕ E)).Perm
      (.inl s :: nodes xs ++ (Sum.inr a :: nodes ys)) := List.perm_append_comm
  exact hperm

theorem linkNext (h : l.Represents c) (he : ∀ s, e ∉ c s) (hc : c s = xs ++ a :: ys) :
    (l.linkNext (.inr a) (.inr e)).Represents (Function.update c s (xs ++ a :: e :: ys)) := by
  have halone := h.unlinked e he
  obtain ⟨hring, hperm⟩ := h.ring_member hc
  have hmem : Sum.inr e ∉ Sum.inr a :: (nodes ys ++ .inl s :: nodes xs) := fun hm =>
    notMem_ring he s (hperm.mem_iff.mp hm)
  apply h.insert he
  · have hself := ring_linkNext_ring hring halone
      (nodup_ring_append (hperm.nodup_iff.mpr (h.nodup_ring s)) hmem)
    have hsplit : (l.linkNext (.inr a) (.inr e)).Ring (.inr a)
        ((.inr e :: nodes ys) ++ .inl s :: nodes xs) := hself
    rw [nodes_append]
    exact ring_rotate hsplit
  · rw [hc]
    have hcons : xs ++ a :: e :: ys = (xs ++ [a]) ++ e :: ys := by rw [List.append_assoc]; rfl
    have hcons' : xs ++ a :: ys = (xs ++ [a]) ++ ys := by rw [List.append_assoc]; rfl
    rw [hcons, hcons']
    exact List.perm_middle
  · intro b ws hb hdisjoint heb
    have hae : (Sum.inr a : S ⊕ E) ≠ Sum.inr e := by
      intro heq
      exact hmem (heq ▸ List.mem_cons_self)
    exact ring_linkNext_ring_other hring halone hae hb (disjoint_insert hperm hdisjoint heb)

theorem linkPrev (h : l.Represents c) (he : ∀ s, e ∉ c s) (hc : c s = xs ++ a :: ys) :
    (l.linkPrev (.inr a) (.inr e)).Represents (Function.update c s (xs ++ e :: a :: ys)) := by
  have halone := h.unlinked e he
  obtain ⟨hring, hperm⟩ := h.ring_member hc
  have hmem : Sum.inr e ∉ Sum.inr a :: (nodes ys ++ .inl s :: nodes xs) := fun hm =>
    notMem_ring he s (hperm.mem_iff.mp hm)
  apply h.insert he
  · have hself := ring_linkPrev_ring hring halone
      (nodup_ring_append (hperm.nodup_iff.mpr (h.nodup_ring s)) hmem)
    rw [List.append_assoc] at hself
    have hrotated : (l.linkPrev (.inr a) (.inr e)).Ring (.inl s)
        ((nodes xs ++ [.inr e]) ++ .inr a :: nodes ys) := ring_rotate hself
    rw [nodes_append]
    rw [List.append_assoc] at hrotated
    exact hrotated
  · rw [hc]
    exact List.perm_middle
  · intro b ws hb hdisjoint heb
    have hae : (Sum.inr a : S ⊕ E) ≠ Sum.inr e := by
      intro heq
      exact hmem (heq ▸ List.mem_cons_self)
    exact ring_linkPrev_ring_other hring halone hae hb (disjoint_insert hperm hdisjoint heb)

end Beside

end Represents

end Awn.Links
