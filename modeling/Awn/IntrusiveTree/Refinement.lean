import Awn.IntrusiveTree.Remove
import Awn.IntrusiveTree.Run

/-!
Iteration: `GetNext` goes down to the right or climbs by the parent pointers, and `begin` and
`GetCount` rest on it.
-/

namespace Awn.IntrusiveTree

open RedBlack RedBlack.ColoredTree

variable {K : Type}

def getNextClimb (s : IntrusiveRedBlackTree K) : ℕ → Addr → Addr → Except Fault (Option Addr)
  | 0, _, _ => .error .outOfFuel
  | fuel + 1, iter, rChild =>
    if (s.node iter).right ≠ some rChild then return some iter
    else match (s.node iter).parent with
      | none => return none
      | some next => getNextClimb s fuel next iter

def getNext (fuel : ℕ) (s : IntrusiveRedBlackTree K) (node : Addr) :
    Except Fault (Option Addr) :=
  match (s.node node).right with
  | some right => do
    let next ← nextNodeLoop s fuel right
    return some next
  | none =>
    match (s.node node).parent with
    | none => return none
    | some next =>
      if (s.node next).left ≠ some node then getNextClimb s fuel next node
      else return some next

def begin (fuel : ℕ) (s : IntrusiveRedBlackTree K) : Except Fault (Option Addr) :=
  match s.root with
  | none => return none
  | some root => do
    let ret ← nextNodeLoop s fuel root
    return some ret

/-- The nodes from an iterator on, by `GetNext` until null. -/
def walk (fuel : ℕ) (s : IntrusiveRedBlackTree K) : ℕ → Option Addr → Except Fault (List Addr)
  | _, none => return []
  | 0, some _ => .error .outOfFuel
  | steps + 1, some iter => do
    let next ← getNext fuel s iter
    let rest ← walk fuel s steps next
    return iter :: rest

def getCountLoop (fuel : ℕ) (s : IntrusiveRedBlackTree K) : ℕ → Addr → ℕ → Except Fault ℕ
  | 0, _, _ => .error .outOfFuel
  | steps + 1, iter, count => do
    let next ← getNext fuel s iter
    match next with
    | none => return count + 1
    | some next => getCountLoop fuel s steps next (count + 1)

def getCount (fuel : ℕ) (s : IntrusiveRedBlackTree K) : Except Fault ℕ :=
  match s.root with
  | none => return 0
  | some root => do
    let node ← nextNodeLoop s fuel root
    getCountLoop fuel s fuel node 0

variable {s : IntrusiveRedBlackTree K} {fs : List (Frame Addr)}

theorem nextNodeLoop_head (fuel : ℕ) {p : Option Addr} {r : ColoredTree Addr} {q : Addr}
    (hr : Holds s.node p r) (hq : r.root? = some q) (hfuel : r.toList.length ≤ fuel) :
    ∃ n ys, nextNodeLoop s fuel q = .ok n ∧ r.toList = n :: ys := by
  obtain ⟨gs, c, n, y, rfl, hside, hrun⟩ := nextNodeLoop_spec fuel hr hq hfuel
  refine ⟨n, y.toList ++ after gs, hrun, ?_⟩
  rw [toList_plug, before_left hside, List.nil_append]
  rfl

theorem eq_nil_of_root? {t : ColoredTree Addr} (h : t.root? = none) : t = .nil := by
  cases t with
  | nil => rfl
  | node c l a r => cases h

theorem exists_plug {t : ColoredTree Addr} {a : Addr} (ha : a ∈ t.toList) :
    ∃ gs c l r, t = plug gs (.node c l a r) := by
  have hfocus : ∀ (u : ColoredTree Addr) (fs : List (Frame Addr)), a ∈ u.toList →
      ∃ gs c l r, plug fs u = plug gs (.node c l a r) := by
    intro u
    induction u with
    | nil =>
      intro fs hmem
      cases hmem
    | node c l b r ihl ihr =>
      intro fs hmem
      obtain hmem | hmem := List.mem_append.mp hmem
      · exact ihl (⟨false, c, b, r⟩ :: fs) hmem
      · obtain rfl | hmem := List.mem_cons.mp hmem
        · exact ⟨fs, c, l, r, rfl⟩
        · exact ihr (⟨true, c, b, l⟩ :: fs) hmem
  exact hfocus t [] ha

theorem exists_plug_split {t : ColoredTree Addr} {a : Addr} {xs ys : List Addr}
    (hs : Represents s t) (hlist : t.toList = xs ++ a :: ys) :
    ∃ gs c l r, t = plug gs (.node c l a r) ∧ xs = before gs ++ l.toList ∧
      ys = r.toList ++ after gs := by
  have hmem : a ∈ t.toList := by
    rw [hlist]
    exact List.mem_append_right xs List.mem_cons_self
  obtain ⟨gs, c, l, r, rfl⟩ := exists_plug hmem
  have hnodup := hs.nodup
  rw [toList_plug, toList_node, List.append_assoc, List.append_assoc, List.cons_append,
    ← List.append_assoc] at hlist hnodup
  rw [List.nodup_middle, List.nodup_cons, List.mem_append, not_or] at hnodup
  obtain ⟨⟨hbefore, hafter⟩, -⟩ := hnodup
  obtain ⟨hxs, -, hys⟩ := (List.append_cons_inj_of_notMem hbefore hafter).mp hlist
  exact ⟨gs, c, l, r, rfl, hxs.symm, hys.symm⟩

theorem sibling_ne {f : Frame Addr} {t : ColoredTree Addr} {a : Addr}
    (hs : Represents s (plug (f :: fs) t)) (ha : t.root? = some a) :
    (s.node f.value).child (!f.side) ≠ some a := by
  obtain ⟨⟨-, hsibling, -⟩, -⟩ := (holds_plug _ _ _).mp hs.holds
  intro heq
  have hroot : f.sibling.root? = some a := hsibling.symm.trans heq
  have hdisjoint := ((nodup_plug _ _).mp hs.nodup).2.2
  exact hdisjoint (mem_of_root? ha)
    ((mem_pathList_cons _ _ _).mpr (Or.inr (Or.inl (mem_of_root? hroot))))

theorem getNextClimb_spec (fuel : ℕ) {f : Frame Addr} {t : ColoredTree Addr} {a : Addr}
    (hs : Represents s (plug (f :: fs) t)) (ha : t.root? = some a) (hfuel : fs.length < fuel) :
    getNextClimb s fuel f.value a = .ok (after (f :: fs)).head? := by
  induction fuel generalizing f fs t a with
  | zero => exact absurd hfuel (Nat.not_lt_zero _)
  | succ fuel ih =>
    obtain ⟨hpath, -⟩ := (holds_plug _ _ _).mp hs.holds
    obtain ⟨hchild, -, hparent, -, -, -⟩ := hpath
    rw [ha] at hchild
    obtain ⟨side, c, b, u⟩ := f
    dsimp only at hchild hparent ⊢
    cases side with
    | false =>
      have hne : (s.node b).right ≠ some a := sibling_ne hs ha
      rw [getNextClimb, if_pos hne]
      rfl
    | true =>
      have heq : (s.node b).right = some a := hchild
      rw [getNextClimb, if_neg (not_not_intro heq)]
      cases fs with
      | nil =>
        rw [hparent]
        rfl
      | cons g gs =>
        rw [hparent]
        rw [List.length_cons] at hfuel
        exact ih hs (root?_branch _ _ _ _ _) (by omega)

theorem getNext_plug {fuel : ℕ} {c : Color} {l r : ColoredTree Addr} {a : Addr}
    (hs : Represents s (plug fs (.node c l a r)))
    (hfuel : (plug fs (.node c l a r)).toList.length ≤ fuel) :
    getNext fuel s a = .ok (r.toList ++ after fs).head? := by
  have hlength := length_le_plug fs (.node c l a r)
  rw [toList_node, List.length_append, List.length_cons] at hlength
  obtain ⟨hpath, hleft, hright, hparent, hcolor, hl, hr⟩ := (holds_plug _ _ _).mp hs.holds
  unfold getNext
  rw [hright]
  cases hroot : r.root? with
  | some q =>
    obtain ⟨n, ys, hrun, hlist⟩ := nextNodeLoop_head fuel hr hroot (by omega)
    dsimp only
    rw [hrun, hlist]
    rfl
  | none =>
    obtain rfl := eq_nil_of_root? hroot
    dsimp only
    rw [hparent, toList_nil, List.nil_append]
    cases fs with
    | nil => rfl
    | cons f fs =>
      have hclimb := getNextClimb_spec fuel hs (root?_node c l .nil a)
        (by rw [List.length_cons] at hlength; omega)
      obtain ⟨hchild, -⟩ := hpath
      rw [root?_node] at hchild
      obtain ⟨side, c', b, u⟩ := f
      dsimp only [hole?_cons] at hclimb hchild ⊢
      cases side with
      | false =>
        have heq : (s.node b).left = some a := hchild
        rw [if_neg (not_not_intro heq)]
        rfl
      | true =>
        have hne : (s.node b).left ≠ some a := sibling_ne hs (root?_node c l .nil a)
        rw [if_pos hne]
        exact hclimb

theorem getNext_spec {fuel : ℕ} {t : ColoredTree Addr} {a : Addr} {xs ys : List Addr}
    (hs : Represents s t) (hfuel : t.toList.length ≤ fuel) (hlist : t.toList = xs ++ a :: ys) :
    getNext fuel s a = .ok ys.head? := by
  obtain ⟨gs, c, l, r, rfl, -, rfl⟩ := exists_plug_split hs hlist
  exact getNext_plug hs hfuel

theorem walk_spec {fuel : ℕ} {t : ColoredTree Addr} {ys : List Addr} (hs : Represents s t)
    (hfuel : t.toList.length ≤ fuel) :
    ∀ {xs : List Addr} {steps : ℕ}, t.toList = xs ++ ys → ys.length ≤ steps →
      walk fuel s steps ys.head? = .ok ys := by
  induction ys with
  | nil =>
    intro xs steps _ _
    cases steps <;> rfl
  | cons a ys ih =>
    intro xs steps hlist hsteps
    obtain ⟨steps, rfl⟩ : ∃ n, steps = n + 1 := Nat.exists_eq_succ_of_ne_zero (by
      rw [List.length_cons] at hsteps
      omega)
    have hrest : walk fuel s steps ys.head? = .ok ys := by
      apply @ih (xs ++ [a])
      · rw [hlist, List.append_assoc]
        rfl
      · exact Nat.le_of_succ_le_succ hsteps
    rw [List.head?_cons, walk, getNext_spec hs hfuel hlist]
    dsimp only [bind, Except.bind]
    rw [hrest]
    rfl

theorem getCountLoop_spec {fuel : ℕ} {t : ColoredTree Addr} {ys : List Addr}
    (hs : Represents s t) (hfuel : t.toList.length ≤ fuel) :
    ∀ {xs : List Addr} {steps count : ℕ} {a : Addr}, t.toList = xs ++ a :: ys →
      ys.length < steps → getCountLoop fuel s steps a count = .ok (count + (ys.length + 1)) := by
  induction ys with
  | nil =>
    intro xs steps count a hlist hsteps
    obtain ⟨steps, rfl⟩ := Nat.exists_eq_succ_of_ne_zero (Nat.ne_zero_of_lt hsteps)
    rw [getCountLoop, getNext_spec hs hfuel hlist]
    rfl
  | cons b ys ih =>
    intro xs steps count a hlist hsteps
    obtain ⟨steps, rfl⟩ := Nat.exists_eq_succ_of_ne_zero (Nat.ne_zero_of_lt hsteps)
    rw [getCountLoop, getNext_spec hs hfuel hlist]
    dsimp only [bind, Except.bind, List.head?_cons]
    have hrest : getCountLoop fuel s steps b (count + 1) = .ok (count + 1 + (ys.length + 1)) := by
      apply @ih (xs ++ [a])
      · rw [hlist, List.append_assoc]
        rfl
      · exact Nat.lt_of_succ_lt_succ hsteps
    rw [hrest, List.length_cons]
    congr 1
    omega

theorem begin_eq {fuel : ℕ} {t : ColoredTree Addr} (hs : Represents s t) (hfuel : t.toList.length ≤ fuel) :
    begin fuel s = .ok t.toList.head? := by
  rw [begin, hs.root]
  cases hroot : t.root? with
  | none =>
    obtain rfl := eq_nil_of_root? hroot
    rfl
  | some root =>
    obtain ⟨n, ys, hrun, hlist⟩ := nextNodeLoop_head fuel hs.holds hroot hfuel
    dsimp only
    rw [hrun, hlist]
    rfl

theorem walk_begin {fuel : ℕ} {t : ColoredTree Addr} (hs : Represents s t)
    (hfuel : t.toList.length ≤ fuel) :
    (begin fuel s).bind (walk fuel s fuel) = .ok t.toList := by
  rw [begin_eq hs hfuel]
  exact walk_spec hs hfuel (List.nil_append t.toList).symm hfuel

theorem getCount_spec {fuel : ℕ} {t : ColoredTree Addr} (hs : Represents s t)
    (hfuel : t.toList.length ≤ fuel) : getCount fuel s = .ok t.toList.length := by
  unfold getCount
  rw [hs.root]
  cases hroot : t.root? with
  | none =>
    obtain rfl := eq_nil_of_root? hroot
    rfl
  | some root =>
    obtain ⟨n, ys, hrun, hlist⟩ := nextNodeLoop_head fuel hs.holds hroot hfuel
    have hlength := hfuel
    rw [hlist, List.length_cons] at hlength
    have hcount : getCountLoop fuel s fuel n 0 = .ok (0 + (ys.length + 1)) :=
      getCountLoop_spec hs hfuel (hlist.trans (List.nil_append _).symm) hlength
    dsimp only
    rw [hrun]
    dsimp only [bind, Except.bind]
    rw [hcount, hlist, List.length_cons, Nat.zero_add]

/-!
The tree as a finite map from keys to nodes.
-/

variable {K : Type} [LinearOrder K] {s : IntrusiveRedBlackTree K}

theorem findImpl_spec {t : ColoredTree Addr} (k : K) :
    ∀ {p : Option Addr} {fuel : ℕ}, Holds s.node p t → Sorted s t.toList →
      t.toList.length < fuel → ∃ r, findImpl s k fuel t.root? = .ok r ∧
        ∀ a, r = some a ↔ a ∈ t.toList ∧ (s.node a).key = k := by
  induction t with
  | nil =>
    intro p fuel _ _ hfuel
    obtain ⟨fuel, rfl⟩ := Nat.exists_eq_succ_of_ne_zero (Nat.ne_zero_of_lt hfuel)
    refine ⟨none, rfl, fun a => ?_⟩
    exact iff_of_false (fun heq => by cases heq) fun h => List.not_mem_nil h.1
  | node c l b r ihl ihr =>
    intro p fuel hholds hsorted hfuel
    obtain ⟨fuel, rfl⟩ := Nat.exists_eq_succ_of_ne_zero (Nat.ne_zero_of_lt hfuel)
    obtain ⟨hleft, hright, -, -, hl, hr⟩ := hholds
    rw [toList_node, List.length_append, List.length_cons] at hfuel
    rw [toList_node, Sorted, List.pairwise_append, List.pairwise_cons] at hsorted
    obtain ⟨hsl, ⟨hbr, hsr⟩, hlr⟩ := hsorted
    have hlb : ∀ a ∈ l.toList, (s.node a).key < (s.node b).key := fun a ha =>
      hlr a ha b List.mem_cons_self
    have hmem : ∀ a, a ∈ (node c l b r).toList ↔ a ∈ l.toList ∨ a = b ∨ a ∈ r.toList := by
      intro a
      rw [toList_node, List.mem_append, List.mem_cons]
    rw [root?_node]
    by_cases hkey : (s.node b).key = k
    · refine ⟨some b, ?_, fun a => ?_⟩
      · rw [findImpl, if_pos hkey]
        rfl
      · rw [hmem]
        constructor
        · intro heq
          obtain rfl := Option.some.inj heq
          exact ⟨Or.inr (Or.inl rfl), hkey⟩
        · rintro ⟨ha | rfl | ha, hak⟩
          · exact absurd (hak.trans hkey.symm) (hlb a ha).ne
          · rfl
          · exact absurd (hkey.trans hak.symm) (hbr a ha).ne
    · by_cases hlt : (s.node b).key < k
      · obtain ⟨out, hrun, hout⟩ := ihr (p := some b) hr hsr (by omega : _ < fuel)
        refine ⟨out, ?_, fun a => ?_⟩
        · rw [findImpl, if_neg hkey, decide_eq_true hlt]
          exact (congrArg (findImpl s k fuel) hright).trans hrun
        · rw [hout, hmem]
          constructor
          · exact fun h => ⟨Or.inr (Or.inr h.1), h.2⟩
          · rintro ⟨ha | rfl | ha, hak⟩
            · exact absurd (hak ▸ hlb a ha) hlt.le.not_gt
            · exact absurd hak hkey
            · exact ⟨ha, hak⟩
      · obtain ⟨out, hrun, hout⟩ := ihl (p := some b) hl hsl (by omega : _ < fuel)
        refine ⟨out, ?_, fun a => ?_⟩
        · rw [findImpl, if_neg hkey, decide_eq_false hlt]
          exact (congrArg (findImpl s k fuel) hleft).trans hrun
        · rw [hout, hmem]
          constructor
          · exact fun h => ⟨Or.inl h.1, h.2⟩
          · rintro ⟨ha | rfl | ha, hak⟩
            · exact ⟨ha, hak⟩
            · exact absurd hak hkey
            · exact absurd (hak ▸ hbr a ha) hlt

def mapStep (m : K → Option Addr) : TreeOp K → K → Option Addr
  | .insert a key => Function.update m key (some a)
  | .remove a => fun key => if m key = some a then none else m key

def mapAfter (ops : List (TreeOp K)) : K → Option Addr := ops.foldl mapStep fun _ => none

def MapOf (m : K → Option Addr) (linked : List Addr) (key : Addr → K) : Prop :=
  ∀ k a, m k = some a ↔ a ∈ linked ∧ key a = k

theorem MapOf.step {m : K → Option Addr} {linked : List Addr} {key : Addr → K} {op : TreeOp K}
    {ops : List (TreeOp K)} (h : MapOf m linked key) (hnodup : linked.Nodup)
    (hlegal : Legal linked key (op :: ops)) :
    MapOf (mapStep m op) (linkedAfter linked [op]) (op.keys key) := by
  intro k a
  cases op with
  | insert b kb =>
    obtain ⟨hb, hnew, -⟩ := hlegal
    change Function.update m kb (some b) k = some a ↔
      a ∈ b :: linked ∧ Function.update key b kb a = k
    rw [List.mem_cons]
    by_cases hk : k = kb
    · subst hk
      rw [Function.update_self]
      constructor
      · intro heq
        obtain rfl := Option.some.inj heq
        exact ⟨Or.inl rfl, Function.update_self _ _ _⟩
      · rintro ⟨rfl | ha, hak⟩
        · rfl
        · have hab : a ≠ b := fun heq => hb (heq ▸ ha)
          rw [Function.update_of_ne hab] at hak
          exact absurd hak (hnew a ha)
    · rw [Function.update_of_ne hk, h]
      constructor
      · rintro ⟨ha, hak⟩
        have hab : a ≠ b := fun heq => hb (heq ▸ ha)
        rw [Function.update_of_ne hab]
        exact ⟨Or.inr ha, hak⟩
      · rintro ⟨rfl | ha, hak⟩
        · rw [Function.update_self] at hak
          exact absurd hak.symm hk
        · have hab : a ≠ b := fun heq => hb (heq ▸ ha)
          rw [Function.update_of_ne hab] at hak
          exact ⟨ha, hak⟩
  | remove b =>
    change (if m k = some b then none else m k) = some a ↔ a ∈ linked.erase b ∧ key a = k
    rw [hnodup.mem_erase_iff]
    split
    · rename_i hb
      constructor
      · intro heq
        cases heq
      · rintro ⟨⟨hne, ha⟩, hak⟩
        have hmap := (h k a).mpr ⟨ha, hak⟩
        exact absurd (Option.some.inj (hmap.symm.trans hb)) hne
    · rename_i hb
      rw [h]
      constructor
      · rintro ⟨ha, hak⟩
        refine ⟨⟨fun heq => hb ?_, ha⟩, hak⟩
        subst heq
        exact (h k a).mpr ⟨ha, hak⟩
      · rintro ⟨⟨-, ha⟩, hak⟩
        exact ⟨ha, hak⟩

theorem run_mapOf (ops : List (TreeOp K)) (s : IntrusiveRedBlackTree K) (t : ColoredTree Addr)
    (linked : List Addr) (m : K → Option Addr) (fuel : ℕ) (hs : IsRedBlack s t)
    (hlinked : t.toList.Perm linked) (hlegal : Legal linked (fun a => (s.node a).key) ops)
    (hroom : Room linked ops) (hfuel : linked.length + ops.length ≤ fuel)
    (hm : MapOf m linked fun a => (s.node a).key) :
    ∃ s' u, run fuel s ops = .ok s' ∧ IsRedBlack s' u ∧ u.toList.Perm (linkedAfter linked ops) ∧
      MapOf (ops.foldl mapStep m) (linkedAfter linked ops) (fun a => (s'.node a).key) := by
  induction ops generalizing s t linked m with
  | nil => exact ⟨s, t, rfl, hs, hlinked, hm⟩
  | cons op ops ih =>
    rw [List.length_cons] at hfuel
    have hlen := hlinked.length_eq
    obtain ⟨s₁, u, linked', hstep, hu, hlinked', hle, hkeys, hlegal', hafter⟩ :=
      step_spec fuel hs hlinked hlegal (hroom.length_le hs hlinked) (by omega)
    have hm' := hm.step (hlinked.nodup_iff.mp hs.represents.nodup) hlegal
    rw [← hkeys, hafter []] at hm'
    obtain ⟨s₂, v, hrun, hv, hperm, hmap⟩ := ih s₁ u linked' (mapStep m op) hu hlinked'
      hlegal' (hroom.tail hafter) (by omega) hm'
    refine ⟨s₂, v, ?_, hv, ?_, ?_⟩
    · simp only [run, hstep, bind, Except.bind, hrun]
    · rw [hafter]
      exact hperm
    · rw [List.foldl_cons, hafter]
      exact hmap

/-- After every legal run from the empty tree `Find` is the lookup of the map, and walking from
`begin` gives each node of the map once, in the order of the keys. -/
theorem run_refines_map (s : IntrusiveRedBlackTree K) (hfresh : Fresh s) (ops : List (TreeOp K))
    (hlegal : Legal [] (fun a => (s.node a).key) ops) (hroom : Room [] ops) (fuel : ℕ)
    (hfuel : ops.length < fuel) :
    ∃ s' nodes, run fuel s ops = .ok s' ∧
      (∀ k, find fuel s' k = .ok (mapAfter ops k)) ∧
      (∀ k a, mapAfter ops k = some a ↔ a ∈ linkedAfter [] ops ∧ (s'.node a).key = k) ∧
      (begin fuel s').bind (walk fuel s' fuel) = .ok nodes ∧
      nodes.Pairwise (fun a b => (s'.node a).key < (s'.node b).key) ∧ nodes.Nodup ∧
      nodes.Perm (linkedAfter [] ops) ∧ getCount fuel s' = .ok (linkedAfter [] ops).length := by
  have hempty : MapOf (fun _ => none) [] fun a => (s.node a).key := fun k a =>
    iff_of_false (fun heq => by cases heq) fun h => List.not_mem_nil h.1
  obtain ⟨s', t, hrun, ht, hperm, hmap⟩ := run_mapOf ops s .nil [] (fun _ => none) fuel
    (fresh_isRedBlack hfresh) (List.Perm.refl _) hlegal hroom (by rw [List.length_nil]; omega)
    hempty
  have hsize : t.toList.length < fuel := by
    have hlength := linkedAfter_length_le ops []
    rw [List.length_nil] at hlength
    rw [hperm.length_eq]
    omega
  refine ⟨s', t.toList, hrun, fun k => ?_, hmap, walk_begin ht.represents hsize.le, ht.sorted,
    ht.represents.nodup, hperm, ?_⟩
  · obtain ⟨r, hfind, hr⟩ := findImpl_spec k ht.represents.holds ht.sorted hsize
    unfold find
    rw [ht.represents.root, hfind]
    congr 1
    ext a
    rw [hr, hperm.mem_iff]
    exact (hmap k a).symm
  · rw [getCount_spec ht.represents hsize.le, hperm.length_eq]

theorem run_refines_map_four : ∃ s' nodes,
    run 5 emptyTree [.insert 1 10, .insert 2 20, .insert 3 30, .remove 2] = .ok s' ∧
      (∀ k, find 5 s' k = .ok (mapAfter [.insert 1 10, .insert 2 20, .insert 3 30, .remove 2] k)) ∧
      (∀ k a, mapAfter [.insert 1 10, .insert 2 20, .insert 3 30, .remove 2] k = some a ↔
        a ∈ [3, 1] ∧ (s'.node a).key = k) ∧
      (begin 5 s').bind (walk 5 s' 5) = .ok nodes ∧
      nodes.Pairwise (fun a b => (s'.node a).key < (s'.node b).key) ∧ nodes.Nodup ∧
      nodes.Perm [3, 1] ∧ getCount 5 s' = .ok 2 := by
  have hfresh : Fresh emptyTree := ⟨rfl, fun _ => ⟨rfl, rfl⟩⟩
  apply run_refines_map emptyTree hfresh _ _ (Or.inl ⟨id, Function.injective_id⟩) 5 (by decide)
  simp [Legal, Function.update]

theorem findImpl_height {t : ColoredTree Addr} (k : K) {p : Option Addr} {fuel fuel' : ℕ}
    (hholds : Holds s.node p t) (hfuel : t.height < fuel) (hle : fuel ≤ fuel') :
    findImpl s k fuel t.root? = findImpl s k fuel' t.root? := by
  induction t generalizing p fuel fuel' with
  | nil =>
    obtain ⟨fuel, rfl⟩ := Nat.exists_eq_succ_of_ne_zero (Nat.ne_zero_of_lt hfuel)
    obtain ⟨fuel', rfl⟩ := Nat.exists_eq_add_of_lt hle
    rfl
  | node c l b r ihl ihr =>
    obtain ⟨fuel, rfl⟩ := Nat.exists_eq_succ_of_ne_zero (Nat.ne_zero_of_lt hfuel)
    obtain ⟨fuel', rfl⟩ := Nat.exists_eq_succ_of_ne_zero (by omega : fuel' ≠ 0)
    obtain ⟨hleft, hright, -, -, hl, hr⟩ := hholds
    rw [height] at hfuel
    rw [root?_node, findImpl, findImpl]
    by_cases hkey : (s.node b).key = k
    · rw [if_pos hkey, if_pos hkey]
    · rw [if_neg hkey, if_neg hkey]
      by_cases hlt : (s.node b).key < k
      · rw [decide_eq_true hlt, show (s.node b).child true = r.root? from hright]
        exact ihr hr (by omega) (by omega)
      · rw [decide_eq_false hlt, show (s.node b).child false = l.root? from hleft]
        exact ihl hl (by omega) (by omega)

/-- After every legal run `Find` has its answer when it has looked at `2 log₂ (n + 1)` of the `n`
nodes, or earlier. -/
theorem run_find_logarithmic (s : IntrusiveRedBlackTree K) (hfresh : Fresh s)
    (ops : List (TreeOp K)) (hlegal : Legal [] (fun a => (s.node a).key) ops) (hroom : Room [] ops)
    (fuel : ℕ) (hfuel : ops.length < fuel) : ∃ s', run fuel s ops = .ok s' ∧
      ∀ k, find (2 * Nat.log 2 ((linkedAfter [] ops).length + 1) + 1) s' k = .ok (mapAfter ops k) := by
  have hempty : MapOf (fun _ => none) [] fun a => (s.node a).key := fun k a =>
    iff_of_false (fun heq => by cases heq) fun h => List.not_mem_nil h.1
  obtain ⟨s', t, hrun, ht, hperm, hmap⟩ := run_mapOf ops s .nil [] (fun _ => none) fuel
    (fresh_isRedBlack hfresh) (List.Perm.refl _) hlegal hroom (by rw [List.length_nil]; omega)
    hempty
  obtain ⟨n, hn⟩ := ht.blackHeight
  have hheight := balanced_height_log ⟨ht.noRedRed, hn⟩ ht.black
  obtain ⟨most, hlength, hmost⟩ : ∃ most, t.toList.length < most ∧
      2 * Nat.log 2 (t.toList.length + 1) + 1 ≤ most :=
    ⟨_, Nat.lt_of_lt_of_le (Nat.lt_succ_self _) (Nat.le_max_left _ _), Nat.le_max_right _ _⟩
  refine ⟨s', hrun, fun k => ?_⟩
  obtain ⟨r, hfind, hr⟩ := findImpl_spec k ht.represents.holds ht.sorted hlength
  rw [← hperm.length_eq, find, ht.represents.root,
    findImpl_height k ht.represents.holds (by omega) hmost, hfind]
  congr 1
  ext a
  rw [hr, hperm.mem_iff]
  exact (hmap k a).symm

theorem run_find_logarithmic_four :
    ∃ s', run 5 emptyTree [.insert 1 10, .insert 2 20, .insert 3 30, .remove 2] = .ok s' ∧
      ∀ k, find 3 s' k = .ok (mapAfter [.insert 1 10, .insert 2 20, .insert 3 30, .remove 2] k) := by
  have hfresh : Fresh emptyTree := ⟨rfl, fun _ => ⟨rfl, rfl⟩⟩
  apply run_find_logarithmic emptyTree hfresh _ _ (Or.inl ⟨id, Function.injective_id⟩) 5 (by decide)
  simp [Legal, Function.update]

end Awn.IntrusiveTree
