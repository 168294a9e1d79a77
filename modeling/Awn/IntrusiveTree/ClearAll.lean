import Awn.IntrusiveTree.Refinement

/-!
`ClearAll` goes through the tree by `GetNext` and unlinks each node once it has gone past it. A
node without a right child that is its parent's right child sends it back to a node that was
unlinked before.
-/

namespace Awn.IntrusiveTree

open RedBlack RedBlack.ColoredTree

variable {K : Type}

def IntrusiveRedBlackTreeNode.unlink (n : IntrusiveRedBlackTreeNode K) :
    IntrusiveRedBlackTreeNode K :=
  { n with left := none, right := none, parent := none, color := .red }

def forceUnlink (s : IntrusiveRedBlackTree K) (node : Addr) : IntrusiveRedBlackTree K :=
  s.modify node IntrusiveRedBlackTreeNode.unlink

structure Clearing (K : Type) where
  tree : IntrusiveRedBlackTree K
  iter : Option Addr
  called : List Addr

def clearAllRound (fuel : ℕ) (c : Clearing K) (obj : Addr) : Except Fault (Clearing K) := do
  let iter ← getNext fuel c.tree obj
  return ⟨forceUnlink c.tree obj, iter, c.called ++ [obj]⟩

def clearAllLoop (fuel : ℕ) : ℕ → Clearing K → Except Fault (Clearing K)
  | steps, c =>
    match c.iter, steps with
    | none, _ => return c
    | some _, 0 => .error .outOfFuel
    | some obj, steps + 1 => do
      let c ← clearAllRound fuel c obj
      clearAllLoop fuel steps c

def clearAll (fuel : ℕ) (s : IntrusiveRedBlackTree K) : Except Fault (Clearing K) := do
  let iter ← begin fuel s
  clearAllLoop fuel fuel ⟨s, iter, []⟩

inductive ClearingOf (fuel : ℕ) (s : IntrusiveRedBlackTree K) : Clearing K → Prop
  | start {iter : Option Addr} (hbegin : begin fuel s = .ok iter) : ClearingOf fuel s ⟨s, iter, []⟩
  | round {c c' : Clearing K} {obj : Addr} (h : ClearingOf fuel s c) (hiter : c.iter = some obj)
      (hround : clearAllRound fuel c obj = .ok c') : ClearingOf fuel s c'

def Independent (fuel : ℕ) (c : Clearing K) : Prop :=
  ∀ obj, c.iter = some obj → ∀ s : IntrusiveRedBlackTree K,
    (∀ a ∉ c.called, s.node a = c.tree.node a) → getNext fuel s obj = getNext fuel c.tree obj

structure GoesThrough (fuel : ℕ) (s : IntrusiveRedBlackTree K) (nodes : List Addr) : Prop where
  ends : ∃ c, clearAll fuel s = .ok c ∧ c.called.Perm nodes ∧
    ∀ a ∈ nodes, c.tree.node a = (s.node a).unlink
  independent : ∀ c, ClearingOf fuel s c → Independent fuel c

theorem GoesThrough.perm {fuel : ℕ} {s : IntrusiveRedBlackTree K} {xs ys : List Addr}
    (h : GoesThrough fuel s xs) (hperm : xs.Perm ys) : GoesThrough fuel s ys := by
  obtain ⟨c, hrun, hcalled, hunlinked⟩ := h.ends
  exact ⟨⟨c, hrun, hcalled.trans hperm, fun a ha => hunlinked a (hperm.mem_iff.mpr ha)⟩,
    h.independent⟩

def TurnsBack (s : IntrusiveRedBlackTree K) (a p : Addr) : Prop :=
  (s.node a).right = none ∧ (s.node a).parent = some p ∧ (s.node p).left ≠ some a

def unlinkAll (s : IntrusiveRedBlackTree K) (nodes : List Addr) : IntrusiveRedBlackTree K :=
  nodes.foldl forceUnlink s

variable {s s' : IntrusiveRedBlackTree K} {t : ColoredTree Addr} {xs ys : List Addr} {a p : Addr}
  {fuel : ℕ}

theorem unlinkAll_append (s : IntrusiveRedBlackTree K) (xs : List Addr) (a : Addr) :
    unlinkAll s (xs ++ [a]) = forceUnlink (unlinkAll s xs) a := List.foldl_append

theorem unlinkAll_spec (s : IntrusiveRedBlackTree K) (xs : List Addr) :
    (unlinkAll s xs).root = s.root ∧
      (∀ a ∈ xs, (unlinkAll s xs).node a = (s.node a).unlink) ∧
      ∀ a ∉ xs, (unlinkAll s xs).node a = s.node a := by
  induction xs using List.reverseRecOn with
  | nil => exact ⟨rfl, fun a ha => absurd ha List.not_mem_nil, fun _ _ => rfl⟩
  | append_singleton xs b ih =>
    obtain ⟨hroot, hin, hout⟩ := ih
    rw [unlinkAll_append]
    refine ⟨hroot, fun a ha => ?_, fun a ha => ?_⟩
    · by_cases hab : a = b
      · subst hab
        rw [forceUnlink, IntrusiveRedBlackTree.node_modify]
        by_cases hmem : a ∈ xs
        · rw [hin a hmem]
          rfl
        · rw [hout a hmem]
      · rw [forceUnlink, IntrusiveRedBlackTree.node_modify_of_ne _ hab]
        apply hin
        simpa [hab] using ha
    · rw [List.mem_append, List.mem_singleton, not_or] at ha
      rw [forceUnlink, IntrusiveRedBlackTree.node_modify_of_ne _ ha.2]
      exact hout a ha.1

theorem getNext_of_not_turnsBack (hs : Represents s t) (hfuel : t.toList.length ≤ fuel)
    (hlist : t.toList = xs ++ a :: ys) (hturn : ∀ p, ¬TurnsBack s a p)
    (hagree : ∀ b ∉ xs, s'.node b = s.node b) : getNext fuel s' a = .ok ys.head? := by
  have hnodup := hs.nodup
  rw [hlist] at hnodup
  have hbehind : ∀ b ∈ a :: ys, s'.node b = s.node b := fun b hb =>
    hagree b fun hx => (List.nodup_append'.mp hnodup).2.2 hx hb
  obtain ⟨gs, c, l, r, rfl, -, hys⟩ := exists_plug_split hs hlist
  obtain ⟨hpath, -, hright, hparent, -, -, hr⟩ := (holds_plug _ _ _).mp hs.holds
  have hlength : r.toList.length ≤ fuel := by
    rw [hlist, hys, List.length_append, List.length_cons, List.length_append] at hfuel
    omega
  rw [getNext, hbehind a List.mem_cons_self, hright]
  cases hroot : r.root? with
  | some q =>
    have hr' : Holds s'.node (some a) r := by
      apply hr.congr
      intro b hb
      apply hbehind
      rw [hys]
      exact List.mem_cons_of_mem a (List.mem_append_left _ hb)
    obtain ⟨n, zs, hrun, hhead⟩ := nextNodeLoop_head fuel hr' hroot hlength
    dsimp only
    rw [hrun, hys, hhead]
    rfl
  | none =>
    obtain rfl := eq_nil_of_root? hroot
    rw [toList_nil, List.nil_append] at hys
    dsimp only
    rw [hparent]
    cases gs with
    | nil =>
      rw [hys]
      rfl
    | cons f fs =>
      obtain ⟨side, c', b, u⟩ := f
      cases side with
      | true =>
        refine absurd ⟨hright.trans hroot, hparent, ?_⟩ (hturn b)
        exact sibling_ne hs (root?_node c l .nil a)
      | false =>
        have hleft : (s.node b).left = some a := hpath.1
        have hb : b ∈ a :: ys := by
          rw [hys]
          exact List.mem_cons_of_mem a List.mem_cons_self
        dsimp only [hole?_cons]
        rw [hbehind b hb, if_neg (not_not_intro hleft), hys]
        rfl

theorem TurnsBack.parent_mem (h : TurnsBack s a p) (hs : Represents s t)
    (hlist : t.toList = xs ++ a :: ys) : p ∈ xs ∧ a ∉ xs ∧ (s.node p).right = some a := by
  have hnodup := hs.nodup
  rw [hlist] at hnodup
  have hmem : a ∉ xs := fun hx => (List.nodup_append'.mp hnodup).2.2 hx List.mem_cons_self
  obtain ⟨gs, c, l, r, rfl, hxs, -⟩ := exists_plug_split hs hlist
  obtain ⟨hpath, -, -, hparent, -⟩ := (holds_plug _ _ _).mp hs.holds
  obtain ⟨-, hp, hleft⟩ := h
  rw [hparent] at hp
  cases gs with
  | nil => cases hp
  | cons f fs =>
    obtain ⟨side, c', b, u⟩ := f
    obtain rfl : b = p := Option.some.inj hp
    cases side with
    | false => exact absurd hpath.1 hleft
    | true =>
      refine ⟨?_, hmem, hpath.1⟩
      rw [hxs]
      exact List.mem_append_left _ (List.mem_append_right _ (List.mem_append_right _
        List.mem_cons_self))

theorem getNext_turnsBack (h : TurnsBack s a p) (hs : Represents s t)
    (hlist : t.toList = xs ++ a :: ys) (hfuel : 0 < fuel) :
    getNext fuel (unlinkAll s xs) a = .ok (some p) := by
  obtain ⟨hp, ha, -⟩ := h.parent_mem hs hlist
  obtain ⟨hright, hparent, -⟩ := h
  obtain ⟨-, hin, hout⟩ := unlinkAll_spec s xs
  obtain ⟨fuel, rfl⟩ := Nat.exists_eq_succ_of_ne_zero (Nat.pos_iff_ne_zero.mp hfuel)
  rw [getNext, hout a ha, hright]
  dsimp only
  rw [hparent]
  dsimp only
  rw [hin p hp, if_pos (fun heq => by cases heq), getNextClimb, hin p hp,
    if_pos (fun heq => by cases heq)]
  rfl

theorem clearAllRound_eq {c : Clearing K} {iter : Option Addr}
    (h : getNext fuel c.tree a = .ok iter) :
    clearAllRound fuel c a = .ok ⟨forceUnlink c.tree a, iter, c.called ++ [a]⟩ := by
  rw [clearAllRound, h]
  rfl

/-- The loop behind the nodes `xs`, none of which turned back. -/
def clearedTo (s : IntrusiveRedBlackTree K) (xs ys : List Addr) : Clearing K :=
  ⟨unlinkAll s xs, ys.head?, xs⟩

theorem clearAllRound_clearedTo (hs : Represents s t) (hfuel : t.toList.length ≤ fuel)
    (hlist : t.toList = xs ++ a :: ys) (hturn : ∀ p, ¬TurnsBack s a p) :
    clearAllRound fuel (clearedTo s xs (a :: ys)) a = .ok (clearedTo s (xs ++ [a]) ys) := by
  have hnext := getNext_of_not_turnsBack hs hfuel hlist hturn (unlinkAll_spec s xs).2.2
  refine (clearAllRound_eq hnext).trans ?_
  unfold clearedTo
  rw [unlinkAll_append]

theorem clearAllRound_turnsBack (h : TurnsBack s a p) (hs : Represents s t)
    (hlist : t.toList = xs ++ a :: ys) (hfuel : 0 < fuel) :
    clearAllRound fuel (clearedTo s xs (a :: ys)) a =
        .ok ⟨unlinkAll s (xs ++ [a]), some p, xs ++ [a]⟩ ∧
      clearAllRound fuel ⟨unlinkAll s (xs ++ [a]), some p, xs ++ [a]⟩ p =
        .ok ⟨unlinkAll s (xs ++ [a, p]), none, xs ++ [a, p]⟩ := by
  have hp : p ∈ xs ++ [a] := List.mem_append_left _ (h.parent_mem hs hlist).1
  have hnext : getNext fuel (unlinkAll s (xs ++ [a])) p = .ok none := by
    rw [getNext, (unlinkAll_spec s (xs ++ [a])).2.1 p hp]
    rfl
  have hsplit : xs ++ [a, p] = xs ++ [a] ++ [p] := by rw [List.append_assoc]; rfl
  constructor
  · refine (clearAllRound_eq (getNext_turnsBack h hs hlist hfuel)).trans ?_
    rw [unlinkAll_append]
    rfl
  · refine (clearAllRound_eq hnext).trans ?_
    rw [hsplit, unlinkAll_append s (xs ++ [a])]

theorem clearAllLoop_round {steps : ℕ} {c c' : Clearing K} {obj : Addr} (hiter : c.iter = some obj)
    (h : clearAllRound fuel c obj = .ok c') :
    clearAllLoop fuel (steps + 1) c = clearAllLoop fuel steps c' := by
  obtain ⟨tree, iter, called⟩ := c
  obtain rfl : iter = some obj := hiter
  change (clearAllRound fuel ⟨tree, some obj, called⟩ obj).bind (clearAllLoop fuel steps) = _
  rw [h]
  rfl

theorem clearAllLoop_spec (hs : Represents s t) (hfuel : t.toList.length ≤ fuel) :
    ∀ {steps : ℕ} {xs ys : List Addr}, t.toList = xs ++ ys → ys.length < steps →
      (∀ a ∈ ys, ∀ p, ¬TurnsBack s a p) ∧
        clearAllLoop fuel steps (clearedTo s xs ys) = .ok (clearedTo s (xs ++ ys) []) ∨
      ∃ zs a p rest, ys = zs ++ a :: rest ∧ (∀ b ∈ zs, ∀ q, ¬TurnsBack s b q) ∧ TurnsBack s a p ∧
        clearAllLoop fuel steps (clearedTo s xs ys) = .ok (clearedTo s (xs ++ zs ++ [a, p]) []) := by
  intro steps xs ys
  induction ys generalizing steps xs with
  | nil =>
    intro _ _
    refine .inl ⟨fun a ha => absurd ha List.not_mem_nil, ?_⟩
    rw [List.append_nil]
    cases steps <;> rfl
  | cons a ys ih =>
    intro hlist hsteps
    obtain ⟨steps, rfl⟩ := Nat.exists_eq_succ_of_ne_zero (Nat.ne_zero_of_lt hsteps)
    rw [List.length_cons] at hsteps
    by_cases hturn : ∃ p, TurnsBack s a p
    · obtain ⟨p, hp⟩ := hturn
      have hpos : 0 < fuel := by
        rw [hlist, List.length_append, List.length_cons] at hfuel
        omega
      obtain ⟨steps, rfl⟩ : ∃ n, steps = n + 1 := ⟨steps - 1, by omega⟩
      obtain ⟨hfirst, hsecond⟩ := clearAllRound_turnsBack hp hs hlist hpos
      refine .inr ⟨[], a, p, ys, rfl, fun b hb => absurd hb List.not_mem_nil, hp, ?_⟩
      rw [clearAllLoop_round rfl hfirst, clearAllLoop_round rfl hsecond, List.append_nil]
      cases steps <;> rfl
    · have hnot : ∀ p, ¬TurnsBack s a p := fun p hp => hturn ⟨p, hp⟩
      have hround := clearAllRound_clearedTo hs hfuel hlist hnot
      have hlist' : t.toList = xs ++ [a] ++ ys := by
        rw [hlist, List.append_assoc]
        rfl
      rw [clearAllLoop_round rfl hround]
      obtain ⟨hys, hrun⟩ | ⟨zs, b, p, rest, hsplit, hzs, hb, hrun⟩ :=
        ih hlist' (Nat.lt_of_succ_lt_succ hsteps)
      · refine .inl ⟨?_, ?_⟩
        · intro b hb
          obtain rfl | hb := List.mem_cons.mp hb
          · exact hnot
          · exact hys b hb
        · rw [hrun, List.append_assoc]
          rfl
      · refine .inr ⟨a :: zs, b, p, rest, by rw [hsplit]; rfl, ?_, hb, ?_⟩
        · intro b hb
          obtain rfl | hb := List.mem_cons.mp hb
          · exact hnot
          · exact hzs b hb
        · rw [hrun, List.append_assoc xs [a]]
          rfl

theorem clearAll_spec (hs : Represents s t) (hfuel : t.toList.length < fuel) :
    (∀ a ∈ t.toList, ∀ p, ¬TurnsBack s a p) ∧
      clearAll fuel s = .ok (clearedTo s t.toList []) ∨
    ∃ xs a p ys, t.toList = xs ++ a :: ys ∧ (∀ b ∈ xs, ∀ q, ¬TurnsBack s b q) ∧ TurnsBack s a p ∧
      clearAll fuel s = .ok (clearedTo s (xs ++ [a, p]) []) := by
  have hloop : clearAll fuel s = clearAllLoop fuel fuel (clearedTo s [] t.toList) := by
    rw [clearAll, begin_eq hs hfuel.le]
    rfl
  rw [hloop]
  exact clearAllLoop_spec hs hfuel.le rfl hfuel

theorem clearingOf_clearedTo (hs : Represents s t) (hfuel : t.toList.length ≤ fuel) :
    ∀ {ys : List Addr}, t.toList = xs ++ ys → (∀ a ∈ xs, ∀ p, ¬TurnsBack s a p) →
      ClearingOf fuel s (clearedTo s xs ys) := by
  induction xs using List.reverseRecOn with
  | nil =>
    rintro ys rfl -
    exact .start (begin_eq hs hfuel)
  | append_singleton xs a ih =>
    intro ys hlist hturn
    rw [List.append_assoc] at hlist
    have hxs := ih hlist fun b hb => hturn b (List.mem_append_left _ hb)
    have hnot := hturn a (List.mem_append_right _ List.mem_cons_self)
    exact .round hxs rfl (clearAllRound_clearedTo hs hfuel hlist hnot)

theorem ClearingOf.eq_clearedTo {c : Clearing K} (h : ClearingOf fuel s c) (hs : Represents s t)
    (hfuel : t.toList.length ≤ fuel) (hturn : ∀ a ∈ t.toList, ∀ p, ¬TurnsBack s a p) :
    ∃ xs ys, t.toList = xs ++ ys ∧ c = clearedTo s xs ys := by
  induction h with
  | start hbegin =>
    obtain rfl := Except.ok.inj ((begin_eq hs hfuel).symm.trans hbegin)
    exact ⟨[], t.toList, rfl, rfl⟩
  | round _ hiter hround ih =>
    obtain ⟨xs, ys, hlist, rfl⟩ := ih
    cases ys with
    | nil => cases hiter
    | cons a ys =>
      obtain rfl := Option.some.inj hiter
      have hnot := hturn a (hlist ▸ List.mem_append_right xs List.mem_cons_self)
      have heq := (clearAllRound_clearedTo hs hfuel hlist hnot).symm.trans hround
      exact ⟨xs ++ [a], ys, by rw [hlist, List.append_assoc]; rfl, (Except.ok.inj heq).symm⟩

theorem goesThrough_iff_not_turnsBack (hs : Represents s t) (hfuel : t.toList.length < fuel) :
    GoesThrough fuel s t.toList ↔ ∀ a ∈ t.toList, ∀ p, ¬TurnsBack s a p := by
  constructor
  · intro h
    obtain ⟨hturn, -⟩ | ⟨xs, a, p, ys, hlist, hxs, ha, -⟩ := clearAll_spec hs hfuel
    · exact hturn
    · exfalso
      have hc := clearingOf_clearedTo hs hfuel.le hlist hxs
      have hfront := getNext_turnsBack ha hs hlist (Nat.zero_lt_of_lt hfuel)
      have hnext := getNext_spec hs hfuel.le hlist
      have heq := h.independent _ hc a rfl s fun b hb => ((unlinkAll_spec s xs).2.2 b hb).symm
      have hhead : ys.head? = some p := Except.ok.inj (hnext.symm.trans (heq.trans hfront))
      have hnodup := hs.nodup
      rw [hlist] at hnodup
      exact (List.nodup_append'.mp hnodup).2.2 (ha.parent_mem hs hlist).1
        (List.mem_cons_of_mem a (List.mem_of_head? hhead))
  · intro hturn
    refine ⟨?_, fun c hc => ?_⟩
    · obtain ⟨-, hrun⟩ | ⟨xs, a, p, ys, hlist, -, ha, -⟩ := clearAll_spec hs hfuel
      · exact ⟨_, hrun, List.Perm.refl _, (unlinkAll_spec s t.toList).2.1⟩
      · exact absurd ha (hturn a (hlist ▸ List.mem_append_right xs List.mem_cons_self) p)
    · obtain ⟨xs, ys, hlist, rfl⟩ := hc.eq_clearedTo hs hfuel.le hturn
      intro obj hiter s' hagree
      cases ys with
      | nil => cases hiter
      | cons a ys =>
        obtain rfl := Option.some.inj hiter
        have hnot := hturn a (hlist ▸ List.mem_append_right xs List.mem_cons_self)
        have hout := (unlinkAll_spec s xs).2.2
        rw [getNext_of_not_turnsBack hs hfuel.le hlist hnot fun b hb =>
          (hagree b hb).trans (hout b hb)]
        exact (getNext_of_not_turnsBack hs hfuel.le hlist hnot hout).symm

theorem exists_turnsBack {c : Color} {l r : ColoredTree Addr} (hs : Represents s (.node c l a r))
    (hr : r ≠ .nil) : ∃ b ∈ (ColoredTree.node c l a r).toList, ∃ p, TurnsBack s b p := by
  obtain ⟨xs, b, hlist⟩ : ∃ xs b, (ColoredTree.node c l a r).toList = xs ++ [b] := by
    refine ⟨_, _, (List.dropLast_append_getLast ?_).symm⟩
    rw [toList_node]
    exact List.append_ne_nil_of_right_ne_nil _ (List.cons_ne_nil _ _)
  refine ⟨b, hlist ▸ List.mem_append_right xs List.mem_cons_self, ?_⟩
  obtain ⟨gs, c', l', r', heq, -, hys⟩ := exists_plug_split hs hlist
  obtain ⟨hnil, hafter⟩ := List.append_eq_nil_iff.mp hys.symm
  obtain rfl : r' = .nil := by
    cases r' with
    | nil => rfl
    | node => exact absurd hnil (List.append_ne_nil_of_right_ne_nil _ (List.cons_ne_nil _ _))
  rw [heq] at hs
  obtain ⟨hpath, -, hright, hparent, -⟩ := (holds_plug _ _ _).mp hs.holds
  cases gs with
  | nil =>
    obtain ⟨-, -, -, rfl⟩ := ColoredTree.node.inj heq
    exact absurd rfl hr
  | cons f fs =>
    have hside : f.side = true := by
      cases hside : f.side with
      | true => rfl
      | false =>
        rw [after, hside] at hafter
        exact absurd hafter (by simp)
    have hne := sibling_ne hs (root?_node _ _ _ _)
    rw [hside] at hne
    exact ⟨f.value, hright, hparent, hne⟩

theorem eq_nil_of_blackHeight {t : ColoredTree Addr} (hcolor : t.color = .black)
    (h : t.BlackHeight 0) : t = .nil := by
  cases t with
  | nil => rfl
  | node c l a r =>
    obtain ⟨m, hm, -⟩ := h
    rw [show c = .black from hcolor, Color.weight_black] at hm
    omega

theorem eq_leaf_of_balanced {t : ColoredTree Addr} (h : t.Balanced 0) :
    t = .nil ∨ ∃ a, t = .node .red .nil a .nil := by
  obtain ⟨hred, hheight⟩ := h
  cases t with
  | nil => exact .inl rfl
  | node c l a r =>
    obtain ⟨m, hm, hl, hr⟩ := hheight
    obtain ⟨rfl, hweight⟩ : m = 0 ∧ c.weight = 0 := by omega
    cases c with
    | black => cases hweight
    | red =>
      obtain ⟨hlc, hrc⟩ := hred.1 rfl
      exact .inr ⟨a, by rw [eq_nil_of_blackHeight hlc hl, eq_nil_of_blackHeight hrc hr]⟩

section Compare

variable [LinearOrder K]

theorem not_turnsBack_of_right_nil {c : Color} {l : ColoredTree Addr}
    (hs : IsRedBlack s (.node c l a .nil)) :
    ∀ b ∈ (ColoredTree.node c l a .nil).toList, ∀ p, ¬TurnsBack s b p := by
  obtain ⟨hleft, -, hparent, -, hl, -⟩ := hs.represents.holds
  have hroot : ∀ p, ¬TurnsBack s a p := by
    rintro p ⟨-, hp, -⟩
    rw [hparent] at hp
    cases hp
  obtain ⟨n, m, -, hlm, hrm⟩ := hs.blackHeight
  obtain rfl : m = 0 := hrm
  obtain rfl | ⟨b, rfl⟩ := eq_leaf_of_balanced ⟨hs.noRedRed.2.1, hlm⟩
  · intro b hb
    obtain rfl : b = a := by simpa using hb
    exact hroot
  · have hchild : ∀ p, ¬TurnsBack s b p := by
      rintro p ⟨-, hp, hne⟩
      obtain rfl : a = p := Option.some.inj (hl.2.2.1.symm.trans hp)
      exact hne hleft
    intro b' hb'
    obtain rfl | rfl : b' = b ∨ b' = a := by simpa using hb'
    · exact hchild
    · exact hroot

theorem goesThrough_iff (hs : IsRedBlack s t) (hfuel : t.toList.length < fuel) :
    GoesThrough fuel s t.toList ↔ ∀ root, s.root = some root → (s.node root).right = none := by
  rw [goesThrough_iff_not_turnsBack hs.represents hfuel, hs.represents.root]
  cases t with
  | nil => exact iff_of_true (fun a ha => absurd ha List.not_mem_nil) fun _ h => by cases h
  | node c l a r =>
    have hright : (s.node a).right = r.root? := hs.represents.holds.2.1
    constructor
    · rintro hturn root hroot
      obtain rfl := Option.some.inj hroot
      rw [hright]
      by_contra hne
      have hr : r ≠ .nil := fun heq => hne (by rw [heq]; rfl)
      obtain ⟨b, hb, p, hp⟩ := exists_turnsBack hs.represents hr
      exact hturn b hb p hp
    · intro hnone
      obtain rfl := eq_nil_of_root? (hright.symm.trans (hnone a rfl))
      exact not_turnsBack_of_right_nil hs

structure Clears (fuel : ℕ) (s : IntrusiveRedBlackTree K) (nodes : List Addr) : Prop
    extends GoesThrough fuel s nodes where
  empty : ∀ c, clearAll fuel s = .ok c → ∀ key, find fuel c.tree key = .ok none

theorem find_root (hfuel : 0 < fuel) (hroot : s.root = some a) :
    find fuel s (s.node a).key = .ok (some a) := by
  obtain ⟨fuel, rfl⟩ := Nat.exists_eq_succ_of_ne_zero (Nat.pos_iff_ne_zero.mp hfuel)
  rw [find, hroot, findImpl, if_pos rfl]
  rfl

theorem clears_iff (hs : IsRedBlack s t) (hfuel : t.toList.length < fuel) :
    Clears fuel s t.toList ↔ t = .nil := by
  constructor
  · intro h
    obtain ⟨c, hrun, -⟩ := h.ends
    have hroot : c.tree.root = t.root? := by
      obtain ⟨-, heq⟩ | ⟨xs, a, p, ys, -, -, -, heq⟩ := clearAll_spec hs.represents hfuel
      all_goals
        obtain rfl := Except.ok.inj (heq.symm.trans hrun)
        exact (unlinkAll_spec s _).1.trans hs.represents.root
    apply eq_nil_of_root?
    rw [← hroot]
    cases hnode : c.tree.root with
    | none => rfl
    | some a =>
      have hfind := find_root (Nat.zero_lt_of_lt hfuel) hnode
      rw [h.empty c hrun] at hfind
      cases hfind
  · rintro rfl
    have hgoes := (goesThrough_iff hs hfuel).mpr fun root hroot => by
      rw [hs.represents.root] at hroot
      cases hroot
    have hrun : clearAll fuel s = .ok ⟨s, none, []⟩ := by
      rw [clearAll, begin_eq hs.represents hfuel.le]
      cases fuel <;> rfl
    refine ⟨hgoes, fun c hc key => ?_⟩
    obtain rfl := Except.ok.inj (hrun.symm.trans hc)
    obtain ⟨fuel, rfl⟩ := Nat.exists_eq_succ_of_ne_zero (Nat.ne_zero_of_lt hfuel)
    rw [find, hs.represents.root]
    rfl

/-- Of the trees that legal runs lead to `ClearAll` clears the empty one alone, and goes through
those whose root has no right child as it should. -/
theorem clearAll_clears_iff (s : IntrusiveRedBlackTree K) (hfresh : Fresh s) (ops : List (TreeOp K))
    (hlegal : Legal [] (fun a => (s.node a).key) ops) (hroom : Room [] ops) (fuel : ℕ)
    (hfuel : ops.length < fuel) :
    ∃ s', run fuel s ops = .ok s' ∧
      (Clears fuel s' (linkedAfter [] ops) ↔ linkedAfter [] ops = []) ∧
      (GoesThrough fuel s' (linkedAfter [] ops) ↔
        ∀ root, s'.root = some root → (s'.node root).right = none) := by
  obtain ⟨s', t, hrun, ht, hperm, hsize⟩ := run_fresh hfresh hlegal hroom hfuel
  refine ⟨s', hrun, ?_, ?_⟩
  · have hempty : linkedAfter [] ops = [] ↔ t = .nil := by
      constructor
      · intro heq
        rw [heq, List.perm_nil] at hperm
        cases t with
        | nil => rfl
        | node => exact absurd hperm (List.append_ne_nil_of_right_ne_nil _ (List.cons_ne_nil _ _))
      · rintro rfl
        exact List.nil_perm.mp hperm
    rw [hempty, ← clears_iff ht hsize]
    exact ⟨fun h => ⟨h.perm hperm.symm, h.empty⟩, fun h => ⟨h.perm hperm, h.empty⟩⟩
  · rw [← goesThrough_iff ht hsize]
    exact ⟨fun h => h.perm hperm.symm, fun h => h.perm hperm⟩

theorem clearAll_three :
    ∃ s', run 4 emptyTree [.insert 1 10, .insert 2 20, .insert 3 30] = .ok s' ∧
      ∃ c, clearAll 4 s' = .ok c ∧ c.called = [1, 2, 3, 2] ∧ find 4 c.tree 20 = .ok (some 2) ∧
        ¬GoesThrough 4 s' [1, 2, 3] ∧ ¬Clears 4 s' [1, 2, 3] := by
  have hgoes : ∀ s' : IntrusiveRedBlackTree (Fin (2 ^ 32)), ∀ c, clearAll 4 s' = .ok c →
      c.called = [1, 2, 3, 2] → ¬GoesThrough 4 s' [1, 2, 3] := by
    intro s' c hc hcalled h
    obtain ⟨c', hc', hperm, -⟩ := h.ends
    obtain rfl := Except.ok.inj (hc.symm.trans hc')
    rw [hcalled] at hperm
    exact absurd hperm.length_eq (by decide)
  refine ⟨_, rfl, _, rfl, rfl, rfl, hgoes _ _ rfl rfl, fun h => hgoes _ _ rfl rfl h.toGoesThrough⟩

theorem clearAll_clears_iff_two :
    ∃ s', run 3 emptyTree [.insert 1 20, .insert 2 10] = .ok s' ∧
      (Clears 3 s' [2, 1] ↔ [2, 1] = []) ∧
      (GoesThrough 3 s' [2, 1] ↔ ∀ root, s'.root = some root → (s'.node root).right = none) := by
  have hfresh : Fresh emptyTree := ⟨rfl, fun _ => ⟨rfl, rfl⟩⟩
  apply clearAll_clears_iff emptyTree hfresh [.insert 1 20, .insert 2 10] _
    (Or.inl ⟨id, Function.injective_id⟩) 3 (by decide)
  simp [Legal, Function.update]

end Compare

end Awn.IntrusiveTree
