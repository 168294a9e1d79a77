import Awn.Calls.Throughout
import Awn.IntrusiveList.Insert

/-!
`vp::util::IntrusiveList` over many lists: a node `.inl s` is the `m_list` of list `s`, a node
`.inr e` lives in element `e`.
-/

namespace Awn.Links

section Lists

variable {S E : Type*} [DecidableEq S] [DecidableEq E]

def PushBack (l : Links (S ⊕ E)) (s : S) (obj : E) : Links (S ⊕ E) := l.linkPrev (.inl s) (.inr obj)

def PushFront (l : Links (S ⊕ E)) (s : S) (obj : E) : Links (S ⊕ E) :=
  l.linkNext (.inl s) (.inr obj)

def PopFront (l : Links (S ⊕ E)) (s : S) : Links (S ⊕ E) × (S ⊕ E) :=
  let front := l.next (.inl s)
  (l.unlink front, front)

def PopBack (l : Links (S ⊕ E)) (s : S) : Links (S ⊕ E) × (S ⊕ E) :=
  let back := l.prev (.inl s)
  (l.unlink back, back)

def clearFrom (s : S) : ℕ → Links (S ⊕ E) → S ⊕ E → Option (Links (S ⊕ E))
  | 0, _, _ => none
  | fuel + 1, l, iter =>
    if iter = .inl s then some l else clearFrom s fuel (l.unlink iter) (l.next iter)

def Clear (fuel : ℕ) (l : Links (S ⊕ E)) (s : S) : Option (Links (S ⊕ E)) :=
  clearFrom s fuel l (l.next (.inl s))

def walk (step : S ⊕ E → S ⊕ E) (s : S) : ℕ → S ⊕ E → Option (List (S ⊕ E))
  | 0, _ => none
  | fuel + 1, iter =>
    if iter = .inl s then some [] else (walk step s fuel (step iter)).map (iter :: ·)

def forward (fuel : ℕ) (l : Links (S ⊕ E)) (s : S) : Option (List (S ⊕ E)) :=
  walk l.next s fuel (l.next (.inl s))

def backward (fuel : ℕ) (l : Links (S ⊕ E)) (s : S) : Option (List (S ⊕ E)) :=
  walk l.prev s fuel (l.prev (.inl s))

def GetCount (fuel : ℕ) (l : Links (S ⊕ E)) (s : S) : Option ℕ := (l.forward fuel s).map List.length

inductive Op (S E : Type*)
  | PushFront (s : S) (obj : E)
  | PushBack (s : S) (obj : E)
  | PopFront (s : S)
  | PopBack (s : S)
  | Unlink (obj : E)
  | Remove (obj : E)
  | Clear (s : S)
  | LinkNext (member obj : E)
  | LinkPrev (member obj : E)

def call (fuel : ℕ) (l : Links (S ⊕ E)) : Op S E → Option (Links (S ⊕ E) × Option (S ⊕ E))
  | .PushFront s obj => some (l.PushFront s obj, none)
  | .PushBack s obj => some (l.PushBack s obj, none)
  | .PopFront s => some ((l.PopFront s).1, some (l.PopFront s).2)
  | .PopBack s => some ((l.PopBack s).1, some (l.PopBack s).2)
  | .Unlink obj | .Remove obj => some (l.unlink (.inr obj), none)
  | .Clear s => (l.Clear fuel s).map (·, none)
  | .LinkNext member obj => some (l.linkNext (.inr member) (.inr obj), none)
  | .LinkPrev member obj => some (l.linkPrev (.inr member) (.inr obj), none)

def run (fuel : ℕ) : Links (S ⊕ E) → List (Op S E) →
    Option (Links (S ⊕ E) × List (Option (S ⊕ E)))
  | l, [] => some (l, [])
  | l, op :: ops => (l.call fuel op).bind fun (l', answer) =>
    (run fuel l' ops).map fun (l'', answers) => (l'', answer :: answers)

end Lists

abbrev Sequences (S E : Type*) := S → List E

namespace Sequences

variable {S E : Type*} [DecidableEq S] [DecidableEq E]

def insertAfter (member obj : E) (xs : List E) : List E :=
  xs.flatMap fun x => if x = member then [x, obj] else [x]

def insertBefore (member obj : E) (xs : List E) : List E :=
  xs.flatMap fun x => if x = member then [obj, x] else [x]

def call (c : Sequences S E) : Op S E → Sequences S E × Option E
  | .PushFront s obj => (Function.update c s (obj :: c s), none)
  | .PushBack s obj => (Function.update c s (c s ++ [obj]), none)
  | .PopFront s => (Function.update c s (c s).tail, (c s).head?)
  | .PopBack s => (Function.update c s (c s).dropLast, (c s).getLast?)
  | .Unlink obj | .Remove obj => (fun s => (c s).erase obj, none)
  | .Clear s => (Function.update c s [], none)
  | .LinkNext member obj => (fun s => insertAfter member obj (c s), none)
  | .LinkPrev member obj => (fun s => insertBefore member obj (c s), none)

def next (c : Sequences S E) (op : Op S E) : Sequences S E := (c.call op).1

def Allowed (c : Sequences S E) : Op S E → Prop
  | .PushFront _ obj | .PushBack _ obj => ∀ s, obj ∉ c s
  | .PopFront s | .PopBack s => c s ≠ []
  | .Unlink _ | .Remove _ | .Clear _ => True
  | .LinkNext member obj | .LinkPrev member obj => (∃ s, member ∈ c s) ∧ ∀ s, obj ∉ c s

def run : Sequences S E → List (Op S E) → Sequences S E × List (Option E)
  | c, [] => (c, [])
  | c, op :: ops => ((run (c.next op) ops).1, (c.call op).2 :: (run (c.next op) ops).2)

end Sequences

section Traversal

variable {S E : Type*} [DecidableEq S] [DecidableEq E]

def flip {N : Type*} (l : Links N) : Links N where
  prev := l.next
  next := l.prev

omit [DecidableEq S] [DecidableEq E] in
theorem segment_flip {N : Type*} {l : Links N} {a b : N} {xs : List N} (h : l.Segment a xs b) :
    l.flip.Segment b xs.reverse a := by
  induction xs generalizing a with
  | nil => exact ⟨h.2, h.1⟩
  | cons x xs ih =>
    rw [List.reverse_cons]
    apply (segment_append l.flip b a x xs.reverse []).mpr
    exact ⟨ih h.2.2, h.2.1, h.1⟩

theorem walk_eq {l : Links (S ⊕ E)} {s : S} {a : S ⊕ E} {xs : List (S ⊕ E)}
    (h : l.Segment a xs (.inl s)) (hhead : .inl s ∉ xs) {fuel : ℕ} (hfuel : xs.length < fuel) :
    walk l.next s fuel (l.next a) = some xs := by
  induction xs generalizing a fuel with
  | nil =>
    obtain ⟨fuel, rfl⟩ := Nat.exists_eq_succ_of_ne_zero (Nat.ne_of_gt hfuel)
    rw [h.1]
    exact if_pos rfl
  | cons x xs ih =>
    obtain ⟨fuel, rfl⟩ := Nat.exists_eq_succ_of_ne_zero (Nat.ne_of_gt (Nat.zero_lt_of_lt hfuel))
    have hne : x ≠ .inl s := fun heq => hhead (heq ▸ List.mem_cons_self)
    rw [h.1, walk, if_neg hne, ih h.2.2 (fun hm => hhead (List.mem_cons_of_mem x hm))
      (Nat.lt_of_succ_lt_succ hfuel)]
    rfl

end Traversal

namespace Represents

variable {S E : Type*} [DecidableEq S] [DecidableEq E] {l : Links (S ⊕ E)} {c : S → List E}
  {s : S} {e x : E} {xs : List E}

theorem forward_eq (h : l.Represents c) {fuel : ℕ} (hfuel : (c s).length < fuel) :
    l.forward fuel s = some (nodes (c s)) := by
  apply walk_eq (h.ring s) (head_notMem_nodes s (c s))
  rw [nodes, List.length_map]
  exact hfuel

theorem backward_eq (h : l.Represents c) {fuel : ℕ} (hfuel : (c s).length < fuel) :
    l.backward fuel s = some (nodes (c s)).reverse := by
  have hflip := segment_flip (h.ring s)
  apply walk_eq hflip
  · rw [List.mem_reverse]
    exact head_notMem_nodes s (c s)
  · rw [List.length_reverse, nodes, List.length_map]
    exact hfuel

theorem erase_eq (h : l.Represents c) (hmem : e ∈ c s)
    (herase : (c s).erase e = xs) : (fun t => (c t).erase e) = Function.update c s xs := by
  funext t
  by_cases hts : t = s
  · rw [hts, Function.update_self, herase]
  · rw [Function.update_of_ne hts, List.erase_of_not_mem]
    exact fun ht => hts (h.disjoint t s e ht hmem)

theorem unlink_head (h : l.Represents c) (hc : c s = x :: xs) :
    l.next (.inl s) = .inr x ∧ (l.unlink (.inr x)).Represents (Function.update c s xs) := by
  have hnext := h.next_head s
  have hunlink := h.unlink x
  rw [hc] at hnext
  have herase : (c s).erase x = xs := by rw [hc, List.erase_cons_head]
  rw [h.erase_eq (hc ▸ List.mem_cons_self) herase] at hunlink
  exact ⟨hnext, hunlink⟩

theorem popFront (h : l.Represents c) (hc : c s = x :: xs) :
    (l.PopFront s).2 = .inr x ∧ (l.PopFront s).1.Represents (Function.update c s xs) := by
  obtain ⟨hnext, hunlink⟩ := h.unlink_head hc
  unfold PopFront
  rw [hnext]
  exact ⟨rfl, hunlink⟩

theorem popBack (h : l.Represents c) (hc : c s = xs ++ [x]) :
    (l.PopBack s).2 = .inr x ∧ (l.PopBack s).1.Represents (Function.update c s xs) := by
  have hring := h.ring s
  have hunlink := h.unlink x
  have hnodup := h.nodup s
  rw [hc, nodes_append] at hring
  have hlast := (segment_append l _ _ (Sum.inr x) (nodes xs) []).mp hring
  have hprev : l.prev (.inl s) = .inr x := hlast.2.2
  have herase : (c s).erase x = xs := by
    rw [hc] at hnodup
    rw [hc, List.erase_append_right, List.erase_cons_head, List.append_nil]
    exact fun hx => (List.nodup_append.mp hnodup).2.2 x hx x (List.mem_singleton_self x) rfl
  have hmem : x ∈ c s := hc ▸ List.mem_append_right xs (List.mem_singleton_self x)
  rw [h.erase_eq hmem herase] at hunlink
  unfold PopBack
  rw [hprev]
  exact ⟨rfl, hunlink⟩

theorem clear (h : l.Represents c) {fuel : ℕ} (hfuel : (c s).length < fuel) :
    ∃ l', l.Clear fuel s = some l' ∧ l'.Represents (Function.update c s []) := by
  unfold Clear
  generalize hxs : c s = xs at hfuel
  induction xs generalizing l c fuel with
  | nil =>
    obtain ⟨fuel, rfl⟩ := Nat.exists_eq_succ_of_ne_zero (Nat.ne_of_gt hfuel)
    have hnext := h.next_head s
    rw [hxs] at hnext
    refine ⟨l, ?_, ?_⟩
    · rw [hnext]
      exact if_pos rfl
    · rw [← hxs, Function.update_eq_self]
      exact h
  | cons x xs ih =>
    obtain ⟨fuel, rfl⟩ := Nat.exists_eq_succ_of_ne_zero (Nat.ne_of_gt (Nat.zero_lt_of_lt hfuel))
    obtain ⟨hnext, hunlink⟩ := h.unlink_head hxs
    -- stepping on before or after the element is unlinked leads to the same node
    have hsecond : l.next (.inr x) = (l.unlink (.inr x)).next (.inl s) := by
      have hfirst : c s = [] ++ x :: xs := hxs
      rw [h.next_elem hfirst, hunlink.next_head s, Function.update_self]
    obtain ⟨l', heq, hl'⟩ := ih hunlink (Function.update_self s xs c) (Nat.lt_of_succ_lt_succ hfuel)
    refine ⟨l', ?_, ?_⟩
    · rw [hnext, clearFrom, if_neg Sum.inr_ne_inl, hsecond]
      exact heq
    · rw [Function.update_idem] at hl'
      exact hl'

end Represents

namespace Sequences

variable {S E : Type*} [DecidableEq E] {a e : E} {xs ys : List E}

theorem insertAfter_of_notMem (h : a ∉ xs) : insertAfter a e xs = xs := by
  induction xs with
  | nil => rfl
  | cons x xs ih =>
    have hne : x ≠ a := fun heq => h (heq ▸ List.mem_cons_self)
    have hrest := ih fun hm => h (List.mem_cons_of_mem x hm)
    unfold insertAfter at hrest ⊢
    rw [List.flatMap_cons, if_neg hne, hrest]
    rfl

theorem insertBefore_of_notMem (h : a ∉ xs) : insertBefore a e xs = xs := by
  induction xs with
  | nil => rfl
  | cons x xs ih =>
    have hne : x ≠ a := fun heq => h (heq ▸ List.mem_cons_self)
    have hrest := ih fun hm => h (List.mem_cons_of_mem x hm)
    unfold insertBefore at hrest ⊢
    rw [List.flatMap_cons, if_neg hne, hrest]
    rfl

theorem insertAfter_append (hxs : a ∉ xs) (hys : a ∉ ys) :
    insertAfter a e (xs ++ a :: ys) = xs ++ a :: e :: ys := by
  have hxs' := insertAfter_of_notMem (e := e) hxs
  have hys' := insertAfter_of_notMem (e := e) hys
  unfold insertAfter at *
  rw [List.flatMap_append, List.flatMap_cons, if_pos rfl, hxs', hys']
  rfl

theorem insertBefore_append (hxs : a ∉ xs) (hys : a ∉ ys) :
    insertBefore a e (xs ++ a :: ys) = xs ++ e :: a :: ys := by
  have hxs' := insertBefore_of_notMem (e := e) hxs
  have hys' := insertBefore_of_notMem (e := e) hys
  unfold insertBefore at *
  rw [List.flatMap_append, List.flatMap_cons, if_pos rfl, hxs', hys']
  rfl

end Sequences

namespace Represents

variable {S E : Type*} [DecidableEq S] [DecidableEq E] {l : Links (S ⊕ E)} {c : Sequences S E}
  {s : S} {a e : E}

omit [DecidableEq S] [DecidableEq E] in
theorem exists_split (h : l.Represents c) (hmem : a ∈ c s) :
    ∃ xs ys, c s = xs ++ a :: ys ∧ a ∉ xs ∧ a ∉ ys ∧ ∀ t, t ≠ s → a ∉ c t := by
  obtain ⟨xs, ys, hc⟩ := List.append_of_mem hmem
  have hnodup := h.nodup s
  rw [hc] at hnodup
  obtain ⟨-, hcons, hdisjoint⟩ := List.nodup_append.mp hnodup
  refine ⟨xs, ys, hc, ?_, (List.nodup_cons.mp hcons).1, ?_⟩
  · exact fun ha => hdisjoint a ha a List.mem_cons_self rfl
  · exact fun t hts ht => hts (h.disjoint t s a ht hmem)

theorem call_eq (h : l.Represents c) {op : Op S E} (hallowed : c.Allowed op) {fuel : ℕ}
    (hfuel : ∀ s, (c s).length < fuel) :
    ∃ l', l.call fuel op = some (l', (c.call op).2.map .inr) ∧ l'.Represents (c.next op) := by
  cases op with
  | PushFront s obj => exact ⟨_, rfl, h.pushFront hallowed s⟩
  | PushBack s obj => exact ⟨_, rfl, h.pushBack hallowed s⟩
  | PopFront s =>
    obtain ⟨x, xs, hc⟩ := List.exists_cons_of_ne_nil hallowed
    obtain ⟨hnode, hpop⟩ := h.popFront hc
    have hnext : c.next (.PopFront s) = Function.update c s xs := by
      unfold Sequences.next Sequences.call
      dsimp only
      rw [hc]
      rfl
    refine ⟨(l.PopFront s).1, ?_, hnext ▸ hpop⟩
    unfold Links.call Sequences.call
    dsimp only
    rw [hnode, hc]
    rfl
  | PopBack s =>
    have hc := (List.dropLast_append_getLast hallowed).symm
    generalize (c s).getLast hallowed = x at hc
    generalize (c s).dropLast = xs at hc
    obtain ⟨hnode, hpop⟩ := h.popBack hc
    have hnext : c.next (.PopBack s) = Function.update c s xs := by
      unfold Sequences.next Sequences.call
      dsimp only
      rw [hc, List.dropLast_concat]
    refine ⟨(l.PopBack s).1, ?_, hnext ▸ hpop⟩
    unfold Links.call Sequences.call
    dsimp only
    rw [hnode, hc, List.getLast?_concat]
    rfl
  | Unlink obj => exact ⟨_, rfl, h.unlink obj⟩
  | Remove obj => exact ⟨_, rfl, h.unlink obj⟩
  | Clear s =>
    obtain ⟨l', hclear, hl'⟩ := h.clear (hfuel s)
    refine ⟨l', ?_, hl'⟩
    unfold Links.call
    dsimp only
    rw [hclear]
    rfl
  | LinkNext member obj =>
    obtain ⟨⟨s, hmem⟩, hobj⟩ := hallowed
    obtain ⟨xs, ys, hc, hxs, hys, hother⟩ := h.exists_split hmem
    have hlink := h.linkNext hobj hc
    have hnext : c.next (.LinkNext member obj) =
        Function.update c s (xs ++ member :: obj :: ys) := by
      funext t
      unfold Sequences.next Sequences.call
      dsimp only
      by_cases hts : t = s
      · rw [hts, Function.update_self, hc]
        exact Sequences.insertAfter_append hxs hys
      · rw [Function.update_of_ne hts]
        exact Sequences.insertAfter_of_notMem (hother t hts)
    exact ⟨_, rfl, hnext ▸ hlink⟩
  | LinkPrev member obj =>
    obtain ⟨⟨s, hmem⟩, hobj⟩ := hallowed
    obtain ⟨xs, ys, hc, hxs, hys, hother⟩ := h.exists_split hmem
    have hlink := h.linkPrev hobj hc
    have hnext : c.next (.LinkPrev member obj) =
        Function.update c s (xs ++ obj :: member :: ys) := by
      funext t
      unfold Sequences.next Sequences.call
      dsimp only
      by_cases hts : t = s
      · rw [hts, Function.update_self, hc]
        exact Sequences.insertBefore_append hxs hys
      · rw [Function.update_of_ne hts]
        exact Sequences.insertBefore_of_notMem (hother t hts)
    exact ⟨_, rfl, hnext ▸ hlink⟩

omit [DecidableEq E] in
theorem length_update {zs : List E} (hzs : zs.length ≤ (c s).length + 1) (t : S) :
    (Function.update c s zs t).length ≤ (c t).length + 1 := by
  by_cases hts : t = s
  · rw [hts, Function.update_self]
    exact hzs
  · rw [Function.update_of_ne hts]
    exact Nat.le_succ _

theorem length_next (h : l.Represents c) (op : Op S E) (t : S) :
    (c.next op t).length ≤ (c t).length + 1 := by
  cases op with
  | PushFront s obj => exact length_update (Nat.le_refl _) t
  | PushBack s obj =>
    apply length_update _ t
    exact Nat.le_of_eq List.length_append
  | PopFront s =>
    apply length_update _ t
    rw [List.length_tail]
    omega
  | PopBack s =>
    apply length_update _ t
    rw [List.length_dropLast]
    omega
  | Unlink obj => exact Nat.le_succ_of_le List.length_erase_le
  | Remove obj => exact Nat.le_succ_of_le List.length_erase_le
  | Clear s => exact length_update (Nat.zero_le _) t
  | LinkNext member obj =>
    change (Sequences.insertAfter member obj (c t)).length ≤ _
    by_cases hmem : member ∈ c t
    · obtain ⟨xs, ys, hc, hxs, hys, -⟩ := h.exists_split hmem
      rw [hc, Sequences.insertAfter_append hxs hys]
      simp only [List.length_append, List.length_cons]
      omega
    · rw [Sequences.insertAfter_of_notMem hmem]
      exact Nat.le_succ _
  | LinkPrev member obj =>
    change (Sequences.insertBefore member obj (c t)).length ≤ _
    by_cases hmem : member ∈ c t
    · obtain ⟨xs, ys, hc, hxs, hys, -⟩ := h.exists_split hmem
      rw [hc, Sequences.insertBefore_append hxs hys]
      simp only [List.length_append, List.length_cons]
      omega
    · rw [Sequences.insertBefore_of_notMem hmem]
      exact Nat.le_succ _

theorem run_eq (h : l.Represents c) {n fuel : ℕ} (hlength : ∀ s, (c s).length ≤ n)
    {ops : List (Op S E)} (hfuel : n + ops.length < fuel)
    (hallowed : Calls.EachIn Sequences.next Sequences.Allowed c ops) :
    ∃ l', Links.run fuel l ops = some (l', (c.run ops).2.map (Option.map .inr)) ∧
      l'.Represents (c.run ops).1 ∧ ∀ s, ((c.run ops).1 s).length < fuel := by
  induction ops generalizing l c n with
  | nil => exact ⟨l, rfl, h, fun s => Nat.lt_of_le_of_lt (hlength s) hfuel⟩
  | cons op ops ih =>
    obtain ⟨-, hop, hops⟩ := hallowed
    rw [List.length_cons] at hfuel
    obtain ⟨l', hcall, hl'⟩ := h.call_eq hop fun s =>
      Nat.lt_of_le_of_lt (hlength s) (by omega : n < fuel)
    have hgrown : ∀ s, (c.next op s).length ≤ n + 1 := fun s =>
      Nat.le_trans (h.length_next op s) (Nat.succ_le_succ (hlength s))
    obtain ⟨l'', hrun, hl''⟩ := ih hl' hgrown (by omega) hops
    refine ⟨l'', ?_, hl''⟩
    rw [Links.run, hcall, Option.bind_some]
    dsimp only
    rw [hrun]
    rfl

end Represents

structure Shows {S E : Type*} [DecidableEq S] [DecidableEq E] (fuel : ℕ) (l : Links (S ⊕ E))
    (c : Sequences S E) : Prop where
  forward : ∀ s, l.forward fuel s = some (nodes (c s))
  backward : ∀ s, l.backward fuel s = some (nodes (c s)).reverse
  count : ∀ s, l.GetCount fuel s = some (c s).length
  empty : ∀ s, l.isLinked (.inl s) = true ↔ c s ≠ []
  linked : ∀ e, l.isLinked (.inr e) = true ↔ ∃ s, e ∈ c s

theorem Represents.shows {S E : Type*} [DecidableEq S] [DecidableEq E] {l : Links (S ⊕ E)}
    {c : Sequences S E} (h : l.Represents c) {fuel : ℕ} (hfuel : ∀ s, (c s).length < fuel) :
    Shows fuel l c where
  forward s := h.forward_eq (hfuel s)
  backward s := h.backward_eq (hfuel s)
  count s := by
    rw [GetCount, h.forward_eq (hfuel s), Option.map_some, nodes, List.length_map]
  empty s := h.isLinked_head s
  linked e := h.isLinked_elem e

/-- Every run of allowed calls does with the lists what it does with the sequences; and a ring that
is linked in goes in as a whole, before or behind the node. -/
theorem lists_are_sequences {S E N : Type*} [DecidableEq S] [DecidableEq E] [DecidableEq N] :
    (∀ (ops : List (Op S E)) (fuel : ℕ), ops.length < fuel →
      Calls.EachIn Sequences.next Sequences.Allowed (fun _ => []) ops →
      ∃ l, run fuel alone ops =
          some (l, (Sequences.run (fun _ => []) ops).2.map (Option.map .inr)) ∧
        Shows fuel l (Sequences.run (fun _ => []) ops).1) ∧
    ∀ (l : Links N) (this n : N) (xs ring : List N), l.Ring this xs → l.Ring n ring →
      (this :: xs ++ n :: ring).Nodup →
        (l.linkPrev this n).Ring this (xs ++ n :: ring) ∧
        (l.linkNext this n).Ring this (ring ++ n :: xs) := by
  constructor
  · intro ops fuel hfuel hallowed
    obtain ⟨l, hrun, hl, hlength⟩ := represents_alone.run_eq (n := 0) (fun _ => Nat.le_refl 0)
      (by omega : 0 + ops.length < fuel) hallowed
    exact ⟨l, hrun, hl.shows hlength⟩
  · intro l this n xs ring h hring hdistinct
    exact ⟨ring_linkPrev_ring h hring hdistinct, ring_linkNext_ring h hring hdistinct⟩

theorem lists_are_sequences_numbers :
    ∃ l, run 4 alone [Op.PushFront () 1, .LinkNext 1 2, .PopFront ()] =
        some (l, (Sequences.run (fun _ => []) [Op.PushFront () 1, .LinkNext 1 2,
          .PopFront ()]).2.map (Option.map .inr)) ∧
      Shows 4 l (Sequences.run (fun _ => []) [Op.PushFront () 1, .LinkNext 1 2, .PopFront ()]).1 :=
  (lists_are_sequences (S := Unit) (E := ℕ) (N := ℕ)).1 _ 4 (by decide)
    ⟨trivial, fun _ => List.not_mem_nil, trivial, ⟨⟨(), List.mem_cons_self⟩, fun () =>
      (by decide : 2 ∉ [1])⟩, trivial, List.cons_ne_nil 1 [2], trivial⟩

end Awn.Links
