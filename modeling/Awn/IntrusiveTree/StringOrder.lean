import Awn.Byaml.Lookup
import Awn.IntrusiveTree.Refinement

/-!
The tree over its `Compare`, which is asked where a node's key stands to another key. It iterates
in the order of `Compare`, and the one for strings hands its arguments to `strcmp` in reverse.
-/

namespace Awn.IntrusiveTree

open RedBlack

def redBlackTreeDefaultCompare {K : Type} [LinearOrder K] (rhs lhs : K) : Ordering :=
  compare rhs lhs

def convertComparisionToStrongOrdering (comp : BitVec 32) : Ordering :=
  let first : Ordering := if 0 < comp.toInt then .gt else .eq
  if comp.toInt < 0 then .lt else first

def redBlackTreeDefaultStringCompare (strcmp : CString → CString → BitVec 32)
    (rhs lhs : CString) : Ordering :=
  convertComparisionToStrongOrdering (strcmp lhs rhs)

section Compare

variable {K : Type} (Compare : K → K → Ordering)

def insertSearchBy (s : IntrusiveRedBlackTree K) (key : K) :
    ℕ → Addr → BitVec 64 → ℕ → Except Fault (Addr × Bool × BitVec 64 × ℕ)
  | 0, _, _, _ => .error .outOfFuel
  | fuel + 1, nodeIter, traceMask, traversalCount =>
    let comp := Compare (s.node nodeIter).key key
    if comp = .eq then .error .collision
    else
      let side : Bool := decide (comp = .lt)
      let traceMask := (traceMask <<< 1) ||| (if side then 1 else 0)
      let traversalCount := traversalCount + 1
      match (s.node nodeIter).child side with
      | none => return (nodeIter, side, traceMask, traversalCount)
      | some nextNode => insertSearchBy s key fuel nextNode traceMask traversalCount

def insertImplBy (fuel : ℕ) (s : IntrusiveRedBlackTree K) (insert : Addr) :
    Except Fault (IntrusiveRedBlackTree K) :=
  match s.root with
  | none => return s.setRoot (some insert)
  | some root => do
    let (nodeIter, side, traceMask, traversalCount) ←
      insertSearchBy Compare s (s.node insert).key fuel root 0 0
    check (decide (traversalCount < 0x40)) .assertion
    let s := s.setChild nodeIter side (some insert)
    let s := s.setChild insert false none
    let s := s.setChild insert true none
    let s := (s.setParent insert (some nodeIter)).setColor insert .red
    insertFixup s insert ⟨traceMask, traversalCount⟩

def insertBy (fuel : ℕ) (s : IntrusiveRedBlackTree K) (node : Addr) :
    Except Fault (IntrusiveRedBlackTree K) := do
  let s ← insertImplBy Compare fuel s node
  let root ← deref s.root
  return paintRoot s root

def removeSearchBy (s : IntrusiveRedBlackTree K) (key : K) : ℕ → Addr → Except Fault Addr
  | 0, _ => .error .outOfFuel
  | fuel + 1, removeNode =>
    match Compare (s.node removeNode).key key with
    | .eq => return removeNode
    | .gt =>
      match (s.node removeNode).left with
      | none => .error .assertion
      | some next => removeSearchBy s key fuel next
    | .lt =>
      match (s.node removeNode).right with
      | none => .error .assertion
      | some next => removeSearchBy s key fuel next

def removeImplBy (fuel : ℕ) (s : IntrusiveRedBlackTree K) (key : K) :
    Except Fault (IntrusiveRedBlackTree K) :=
  match s.root with
  | none => .error .assertion
  | some root => do
    let removeNode ← removeSearchBy Compare s key fuel root
    let (s, swap) ← removeSwap fuel s removeNode
    let s ← removeFixup fuel s swap.outRemove swap.trace swap.fixupColor
    let s := s.setChild removeNode false none
    return s.setChild removeNode true none

def removeKeyBy (fuel : ℕ) (s : IntrusiveRedBlackTree K) (key : K) :
    Except Fault (IntrusiveRedBlackTree K) := do
  let s ← removeImplBy Compare fuel s key
  match s.root with
  | none => return s
  | some root => return paintRoot s root

def findImplBy (s : IntrusiveRedBlackTree K) (key : K) :
    ℕ → Option Addr → Except Fault (Option Addr)
  | 0, _ => .error .outOfFuel
  | _, none => return none
  | fuel + 1, some iter =>
    let comp := Compare (s.node iter).key key
    if comp = .eq then return some iter
    else
      let side : Bool := decide (comp = .lt)
      findImplBy s key fuel ((s.node iter).child side)

def findBy (fuel : ℕ) (s : IntrusiveRedBlackTree K) (key : K) : Except Fault (Option Addr) :=
  findImplBy Compare s key fuel s.root

def stepBy (fuel : ℕ) (s : IntrusiveRedBlackTree K) :
    TreeOp K → Except Fault (IntrusiveRedBlackTree K)
  | .insert a key => insertBy Compare fuel (s.setKey a key) a
  | .remove a => removeKeyBy Compare fuel s (s.node a).key

def runBy (fuel : ℕ) :
    IntrusiveRedBlackTree K → List (TreeOp K) → Except Fault (IntrusiveRedBlackTree K)
  | s, [] => return s
  | s, op :: ops => do
    let s ← stepBy Compare fuel s op
    runBy fuel s ops

end Compare

structure Tells {K : Type} [LinearOrder K] (Compare : K → K → Ordering) : Prop where
  lt_iff : ∀ a b, Compare a b = .lt ↔ a < b
  eq_iff : ∀ a b, Compare a b = .eq ↔ a = b

namespace Tells

variable {K : Type} [LinearOrder K] {Compare : K → K → Ordering} (h : Tells Compare)
include h

theorem insertSearchBy_eq (s : IntrusiveRedBlackTree K) (key : K) (fuel : ℕ) (nodeIter : Addr)
    (traceMask : BitVec 64) (traversalCount : ℕ) :
    insertSearchBy Compare s key fuel nodeIter traceMask traversalCount =
      insertSearch s key fuel nodeIter traceMask traversalCount := by
  induction fuel generalizing nodeIter traceMask traversalCount with
  | zero => rfl
  | succ fuel ih =>
    have hside : decide (Compare (s.node nodeIter).key key = .lt) =
        decide ((s.node nodeIter).key < key) := decide_eq_decide.mpr (h.lt_iff _ _)
    rw [insertSearchBy, insertSearch]
    by_cases heq : (s.node nodeIter).key = key
    · rw [if_pos ((h.eq_iff _ _).mpr heq), if_pos heq]
    · rw [if_neg ((h.eq_iff _ _).not.mpr heq), if_neg heq, hside]
      dsimp only
      cases (s.node nodeIter).child (decide ((s.node nodeIter).key < key)) with
      | none => rfl
      | some next => exact ih _ _ _

theorem insertImplBy_eq (fuel : ℕ) (s : IntrusiveRedBlackTree K) (node : Addr) :
    insertImplBy Compare fuel s node = insertImpl fuel s node := by
  unfold insertImplBy insertImpl
  cases s.root with
  | none => rfl
  | some root => exact congrArg (Except.bind · _) (h.insertSearchBy_eq s _ fuel root 0 0)

theorem insertBy_eq (fuel : ℕ) (s : IntrusiveRedBlackTree K) (node : Addr) :
    insertBy Compare fuel s node = insert fuel s node := by
  rw [insertBy, h.insertImplBy_eq]
  rfl

theorem gt_iff (a b : K) : Compare a b = .gt ↔ b < a := by
  have hlt := h.lt_iff a b
  have heq := h.eq_iff a b
  rcases lt_trichotomy a b with hab | hab | hab
  · rw [hlt.mpr hab]
    exact iff_of_false Ordering.noConfusion hab.asymm
  · rw [heq.mpr hab]
    exact iff_of_false Ordering.noConfusion hab.not_gt
  · cases hc : Compare a b with
    | lt => exact absurd (hlt.mp hc) hab.asymm
    | eq => exact absurd (heq.mp hc) hab.ne'
    | gt => exact iff_of_true rfl hab

theorem removeSearchBy_eq (s : IntrusiveRedBlackTree K) (key : K) (fuel : ℕ) (removeNode : Addr) :
    removeSearchBy Compare s key fuel removeNode = removeSearch s key fuel removeNode := by
  induction fuel generalizing removeNode with
  | zero => rfl
  | succ fuel ih =>
    rw [removeSearchBy, removeSearch]
    cases hc : Compare (s.node removeNode).key key with
    | lt =>
      have hlt := (h.lt_iff _ _).mp hc
      rw [if_neg hlt.ne, decide_eq_true hlt]
      simp only [ih]
      rfl
    | eq => rw [if_pos ((h.eq_iff _ _).mp hc)]
    | gt =>
      have hgt := (h.gt_iff _ _).mp hc
      rw [if_neg hgt.ne', decide_eq_false hgt.asymm]
      simp only [ih]
      rfl

theorem removeImplBy_eq (fuel : ℕ) (s : IntrusiveRedBlackTree K) (key : K) :
    removeImplBy Compare fuel s key = removeImpl fuel s key := by
  unfold removeImplBy removeImpl
  cases s.root with
  | none => rfl
  | some root => exact congrArg (Except.bind · _) (h.removeSearchBy_eq s key fuel root)

theorem removeKeyBy_eq (fuel : ℕ) (s : IntrusiveRedBlackTree K) (key : K) :
    removeKeyBy Compare fuel s key = removeKey fuel s key := by
  rw [removeKeyBy, h.removeImplBy_eq]
  rfl

theorem findBy_eq (fuel : ℕ) (s : IntrusiveRedBlackTree K) (key : K) :
    findBy Compare fuel s key = find fuel s key := by
  have himpl : ∀ iter, findImplBy Compare s key fuel iter = findImpl s key fuel iter := by
    induction fuel with
    | zero => exact fun _ => rfl
    | succ fuel ih =>
      intro iter
      cases iter with
      | none => rfl
      | some iter =>
        rw [findImplBy, findImpl]
        simp only [h.eq_iff, h.lt_iff, ih]
  exact himpl s.root

theorem runBy_eq (fuel : ℕ) (s : IntrusiveRedBlackTree K) (ops : List (TreeOp K)) :
    runBy Compare fuel s ops = run fuel s ops := by
  have hstep : ∀ s op, stepBy Compare fuel s op = step fuel s op := by
    intro s op
    cases op with
    | insert a key => exact h.insertBy_eq fuel _ a
    | remove a => exact h.removeKeyBy_eq fuel s _
  induction ops generalizing s with
  | nil => rfl
  | cons op ops ih =>
    rw [runBy, run, hstep]
    congr 1
    funext s
    exact ih s

theorem runBy_spec (s : IntrusiveRedBlackTree K) (hfresh : Fresh s) (ops : List (TreeOp K))
    (hlegal : Legal [] (fun a => (s.node a).key) ops) (hroom : Room [] ops) (fuel : ℕ)
    (hfuel : ops.length < fuel) :
    ∃ s' nodes, runBy Compare fuel s ops = .ok s' ∧
      (begin fuel s').bind (walk fuel s' fuel) = .ok nodes ∧ nodes.Perm (linkedAfter [] ops) ∧
      nodes.Pairwise (fun a b => (s'.node a).key < (s'.node b).key) ∧
      ∀ key, ∃ r, findBy Compare fuel s' key = .ok r ∧
        ∀ a, r = some a ↔ a ∈ nodes ∧ (s'.node a).key = key := by
  obtain ⟨s', t, hrun, ht, hperm, hsize⟩ := run_fresh hfresh hlegal hroom hfuel
  refine ⟨s', t.toList, (h.runBy_eq fuel s ops).trans hrun, walk_begin ht.represents hsize.le,
    hperm, ht.sorted, fun key => ?_⟩
  rw [h.findBy_eq, find, ht.represents.root]
  exact findImpl_spec key ht.represents.holds ht.sorted hsize

end Tells

theorem defaultCompare_tells {K : Type} [LinearOrder K] :
    Tells (redBlackTreeDefaultCompare (K := K)) where
  lt_iff _ _ := compare_lt_iff_lt
  eq_iff _ _ := compare_eq_iff_eq

/-- The strings from the greatest to the least. -/
@[reducible] def descending : LinearOrder CString :=
  LinearOrder.lift' (fun a => OrderDual.toDual a.codes) CString.codes_injective

variable {strcmp : CString → CString → BitVec 32}

theorem convertComparision_eq_iff {comp : BitVec 32} :
    convertComparisionToStrongOrdering comp = .eq ↔ comp = 0 := by
  have hzero : comp = 0 ↔ comp.toInt = 0 := by
    rw [← BitVec.toInt_inj]
    rfl
  rw [convertComparisionToStrongOrdering, hzero]
  split_ifs <;> simp <;> omega

theorem convertComparision_lt_iff {comp : BitVec 32} :
    convertComparisionToStrongOrdering comp = .lt ↔ comp.toInt < 0 := by
  rw [convertComparisionToStrongOrdering]
  split_ifs <;> simp <;> omega

theorem stringCompare_tells (hc : Conforming strcmp) :
    @Tells CString descending (redBlackTreeDefaultStringCompare strcmp) :=
  letI := descending
  { lt_iff := fun a b => convertComparision_lt_iff.trans (hc.negative b a)
    eq_iff := fun a b => convertComparision_eq_iff.trans ((hc.zero b a).trans eq_comm) }

def tableSearch (strcmp : CString → CString → BitVec 32) (table : List CString) (fuel : ℕ)
    (key : CString) : Option (Option (BitVec 32)) :=
  Sorted.bisect (fun i => Byaml.side (strcmp key (table.getD i.toNat ⟨[], by simp⟩))) fuel 0
    (BitVec.ofNat 32 table.length)

structure OneOrder (strcmp : CString → CString → BitVec 32) (strings : List CString) : Prop where
  ascending : strings.Pairwise fun a b => (strcmp a b).toInt < 0
  found : strings.length < 2 ^ 31 → ∀ i string, strings[i]? = some string →
    tableSearch strcmp strings (strings.length + 1) string = some (some (BitVec.ofNat 32 i))

theorem side_entry (hc : Conforming strcmp) {table : List CString} {i : BitVec 32}
    {key string : CString} (hi : table[i.toNat]? = some string) :
    Byaml.side (strcmp key (table.getD i.toNat ⟨[], by simp⟩)) =
      Sorted.standing key.codes string.codes := by
  rw [List.getD_eq_getElem?_getD, hi, Option.getD_some, Byaml.side_strcmp hc]

theorem tableSearch_iff_middle (hc : Conforming strcmp) {table : List CString}
    (hdescends : table.Pairwise fun a b => b.codes < a.codes) (hsize : table.length < 2 ^ 31) {i : ℕ}
    {string : CString} (hi : table[i]? = some string) :
    tableSearch strcmp table (table.length + 1) string = some (some (BitVec.ofNat 32 i)) ↔
      i = table.length / 2 := by
  obtain ⟨hlt, hget⟩ := List.getElem?_eq_some_iff.mp hi
  have hn : (BitVec.ofNat 32 table.length).toNat = table.length := by
    rw [BitVec.toNat_ofNat]
    omega
  have hj : (BitVec.ofNat 32 i).toNat = i := by
    rw [BitVec.toNat_ofNat]
    omega
  have hzero : (0 : BitVec 32).toNat = 0 := rfl
  have hmiddle : ((0 + BitVec.ofNat 32 table.length) >>> 1).toNat =
      ((0 : BitVec 32).toNat + (BitVec.ofNat 32 table.length).toNat) / 2 :=
    Sorted.middle_toNat (by rw [hn]; exact hsize) (by rw [hn, hzero]; omega)
  rw [hn, hzero, Nat.zero_add] at hmiddle
  rw [tableSearch, Sorted.bisect_eq_some_iff (k := table.length + 1) (by rw [hn]; exact hsize)
    (BitVec.le_def.mpr (Nat.zero_le _)) (BitVec.lt_def.mpr (by rw [hn, hj]; exact hlt))
    (by rw [hn, hzero]; omega) (by rw [hn, hzero]; omega), Sorted.above]
  generalize (0 + BitVec.ofNat 32 table.length) >>> 1 = index at hmiddle
  have hmid : table.length / 2 < table.length := by omega
  have hindex : table[index.toNat]? = some table[table.length / 2] := by
    rw [hmiddle]
    exact List.getElem?_eq_getElem hmid
  by_cases heq : i = table.length / 2
  · have hsame : BitVec.ofNat 32 i = index := BitVec.eq_of_toNat_eq (by rw [hj, hmiddle, heq])
    rw [if_pos hsame, side_entry hc (by rw [hj]; exact hi), Sorted.standing_eq_iff]
    exact iff_of_true ⟨rfl, fun a ha => absurd ha List.not_mem_nil⟩ heq
  · have hne : BitVec.ofNat 32 i ≠ index := fun hsame => heq (by rw [← hj, hsame, hmiddle])
    refine iff_of_false (fun h => ?_) heq
    obtain ⟨-, hleads⟩ := h
    rw [if_neg hne] at hleads
    have hordered := List.pairwise_iff_getElem.mp hdescends
    rcases Nat.lt_or_gt_of_ne heq with hless | hgreater
    · have hnot : ¬index < BitVec.ofNat 32 i := by
        rw [BitVec.lt_def, hj, hmiddle]
        omega
      rw [if_neg hnot, Sorted.leads_cons, if_neg hnot, side_entry hc hindex,
        Sorted.standing_gt (hget ▸ hordered i _ hlt hmid hless)] at hleads
      cases hleads.1
    · have hbelow : index < BitVec.ofNat 32 i := by
        rw [BitVec.lt_def, hj, hmiddle]
        exact hgreater
      rw [if_pos hbelow, Sorted.leads_cons, if_pos hbelow, side_entry hc hindex,
        Sorted.standing_lt (hget ▸ hordered _ i hmid hlt hgreater)] at hleads
      cases hleads.1

theorem oneOrder_iff (hc : Conforming strcmp) {strings : List CString}
    (hdescends : strings.Pairwise fun a b => b.codes < a.codes) :
    OneOrder strcmp strings ↔ strings.length ≤ 1 := by
  constructor
  · intro h
    by_contra hlength
    have hfirst := List.pairwise_iff_getElem.mp h.ascending 0 1 (by omega) (by omega) (by omega)
    have hsecond := List.pairwise_iff_getElem.mp hdescends 0 1 (by omega) (by omega) (by omega)
    exact lt_asymm ((hc.negative _ _).mp hfirst) hsecond
  · intro hlength
    refine ⟨?_, fun hsize i string hi => ?_⟩
    · apply List.pairwise_iff_getElem.mpr
      intro i j _ _ _
      omega
    · obtain ⟨hlt, -⟩ := List.getElem?_eq_some_iff.mp hi
      rw [tableSearch_iff_middle hc hdescends hsize hi]
      omega

theorem numberTree_ascends {K : Type} [LinearOrder K] (s : IntrusiveRedBlackTree K)
    (hfresh : Fresh s) (ops : List (TreeOp K)) (hlegal : Legal [] (fun a => (s.node a).key) ops)
    (hroom : Room [] ops) (fuel : ℕ) (hfuel : ops.length < fuel) :
    ∃ s' nodes, runBy redBlackTreeDefaultCompare fuel s ops = .ok s' ∧
      (begin fuel s').bind (walk fuel s' fuel) = .ok nodes ∧ nodes.Perm (linkedAfter [] ops) ∧
      nodes.Pairwise fun a b => (s'.node a).key < (s'.node b).key := by
  obtain ⟨s', nodes, hrun, hwalk, hperm, hsorted, -⟩ :=
    defaultCompare_tells.runBy_spec s hfresh ops hlegal hroom fuel hfuel
  exact ⟨s', nodes, hrun, hwalk, hperm, hsorted⟩

theorem stringTree_descends (hc : Conforming strcmp) (s : IntrusiveRedBlackTree CString)
    (hfresh : Fresh s) (ops : List (TreeOp CString))
    (hlegal : Legal [] (fun a => (s.node a).key) ops) (hroom : Room [] ops) (fuel : ℕ)
    (hfuel : ops.length < fuel) :
    ∃ s' nodes, runBy (redBlackTreeDefaultStringCompare strcmp) fuel s ops = .ok s' ∧
      (begin fuel s').bind (walk fuel s' fuel) = .ok nodes ∧ nodes.Perm (linkedAfter [] ops) ∧
      (nodes.map fun a => (s'.node a).key).Pairwise fun a b => b.codes < a.codes := by
  obtain ⟨s', nodes, hrun, hwalk, hperm, hsorted, -⟩ :=
    @Tells.runBy_spec _ descending _ (stringCompare_tells hc) s hfresh ops hlegal hroom fuel hfuel
  exact ⟨s', nodes, hrun, hwalk, hperm, List.pairwise_map.mpr hsorted⟩

/-- A tree of strings iterates in the order of the numbers' tree and of the readers exactly while
it holds no two strings. -/
theorem stringTree_oneOrder_iff (strcmp : CString → CString → BitVec 32) (hc : Conforming strcmp)
    (s : IntrusiveRedBlackTree CString) (hfresh : Fresh s) (ops : List (TreeOp CString))
    (hlegal : Legal [] (fun a => (s.node a).key) ops) (hroom : Room [] ops) (fuel : ℕ)
    (hfuel : ops.length < fuel) :
    ∃ s' nodes, runBy (redBlackTreeDefaultStringCompare strcmp) fuel s ops = .ok s' ∧
      (begin fuel s').bind (walk fuel s' fuel) = .ok nodes ∧ nodes.Perm (linkedAfter [] ops) ∧
      (OneOrder strcmp (nodes.map fun a => (s'.node a).key) ↔ (linkedAfter [] ops).length ≤ 1) := by
  obtain ⟨s', nodes, hrun, hwalk, hperm, hdescends⟩ :=
    stringTree_descends hc s hfresh ops hlegal hroom fuel hfuel
  refine ⟨s', nodes, hrun, hwalk, hperm, ?_⟩
  rw [oneOrder_iff hc hdescends, List.length_map, hperm.length_eq]

def emptyStringTree : IntrusiveRedBlackTree CString :=
  ⟨none, fun _ => ⟨none, none, none, .red, ⟨[], by simp⟩⟩⟩

def insertTwo : List (TreeOp CString) :=
  [.insert 1 ⟨[0x70], by decide⟩, .insert 2 ⟨[0x71], by decide⟩]

theorem insertTwo_not_oneOrder :
    ∃ s', runBy (redBlackTreeDefaultStringCompare fun a b => byteDifference a.1 b.1) 3
        emptyStringTree insertTwo = .ok s' ∧
      (begin 3 s').bind (walk 3 s' 3) = .ok [2, 1] ∧
      ([2, 1].map fun a => ((s'.node a).key.1)) = [[0x71], [0x70]] ∧
      ¬OneOrder (fun a b => byteDifference a.1 b.1) ([2, 1].map fun a => (s'.node a).key) := by
  refine ⟨_, rfl, rfl, rfl, fun h => ?_⟩
  have hfirst := List.rel_of_pairwise_cons h.ascending List.mem_cons_self
  exact absurd hfirst (by decide)

theorem stringTree_oneOrder_iff_two :
    ∃ s' nodes, runBy (redBlackTreeDefaultStringCompare fun a b => byteDifference a.1 b.1) 3
        emptyStringTree insertTwo = .ok s' ∧
      (begin 3 s').bind (walk 3 s' 3) = .ok nodes ∧ nodes.Perm [2, 1] ∧
      (OneOrder (fun a b => byteDifference a.1 b.1) (nodes.map fun a => (s'.node a).key) ↔
        [2, 1].length ≤ 1) := by
  have hfresh : Fresh emptyStringTree := ⟨rfl, fun _ => ⟨rfl, rfl⟩⟩
  apply stringTree_oneOrder_iff _ byteDifference_conforming emptyStringTree hfresh insertTwo
  · simp [insertTwo, Legal, Function.update]
  · refine .inr fun pre hpre => ?_
    have hlength := linkedAfter_length_le pre []
    have hprefix := hpre.length_le
    rw [insertTwo, List.length_cons, List.length_cons, List.length_nil] at hprefix
    rw [List.length_nil] at hlength
    omega
  · decide

end Awn.IntrusiveTree
