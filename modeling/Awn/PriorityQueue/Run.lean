import Awn.PriorityQueue.Refinement
import Mathlib.Data.Nat.Basic

/-!
Runs of a priority queue: the order of the heap, the entries that are in it, and what
`RemoveFront` takes.
-/

namespace Awn.PriorityQueue

variable {T K : Type*} [LinearOrder K] {key : T → K}

theorem entries_update_of_le (m_queue : ℕ → T) {n i : ℕ} (hi : n ≤ i) (node : T) :
    entries (Function.update m_queue i node) n = entries m_queue n := by
  rw [entries_update, List.set_eq_of_length_le]
  rw [length_entries]
  exact hi

theorem removeFront_concat (first last : T) (ys : List T) :
    removeFront key (first :: ys ++ [last]) = some (first, removeFixup key (last :: ys) 0) := by
  unfold removeFront
  rw [List.cons_append]
  dsimp only
  rw [List.getLast?_concat, List.dropLast_concat]

namespace Queue

variable {q q' : Queue T} {max fuel iter : ℕ} {node out_node : T}

theorem pred_toNat (h : 0 < q.m_count.toNat) : (q.m_count - 1).toNat = q.m_count.toNat - 1 := by
  have hone : (1 : BitVec 32).toNat = 1 := rfl
  have hlt := q.m_count.isLt
  rw [BitVec.toNat_sub, hone]
  omega

theorem insert_eq (h : q.Insert key max fuel node = some q') :
    q'.contents = insert key q.contents node := by
  unfold Insert at h
  split at h
  · obtain ⟨⟨q₁, location⟩, hfixup, rfl⟩ := Option.map_eq_some_iff.mp h
    have hlt := q.m_count.isLt
    have hnext : (q.m_count + 1).toNat = q.m_count.toNat + 1 := by
      have hone : (1 : BitVec 32).toNat = 1 := rfl
      rw [BitVec.toNat_add, hone]
      by_contra hwrap
      have hzero : q.m_count + 1 = 0 := by
        apply BitVec.eq_of_toNat_eq
        rw [BitVec.toNat_add, hone]
        change _ = 0
        omega
      unfold InsertFixup at hfixup
      dsimp only at hfixup
      rw [hzero, if_pos (BitVec.not_lt.mpr (Nat.zero_le _))] at hfixup
      cases hfixup
    have hpivot : q.m_count.toNat < (q.m_count + 1).toNat := by omega
    obtain ⟨-, heq⟩ := insertFixup_eq hpivot hfixup
    rw [contents_eq] at heq
    dsimp only at heq
    rw [hnext, entries_succ, Function.update_self, entries_update_of_le _ (Nat.le_refl _)] at heq
    rw [insert, contents_eq q, length_entries, heq]
  · cases h

theorem insert_returns (hroom : q.m_count.toNat < max) (hcount : q.m_count.toNat + 1 < 2 ^ 32)
    (hfuel : q.m_count.toNat ≤ fuel) : ∃ q', q.Insert key max fuel node = some q' := by
  unfold Insert
  rw [if_pos hroom]
  have hone : (1 : BitVec 32).toNat = 1 := rfl
  have hpivot : q.m_count.toNat < (q.m_count + 1).toNat := by
    rw [BitVec.toNat_add, hone]
    omega
  have hfixup : ∃ r, InsertFixup key (Queue.mk (Function.update q.m_queue q.m_count.toNat node)
      (q.m_count + 1)) fuel q.m_count.toNat = some r := insertFixup_returns hpivot hfuel
  obtain ⟨r, hr⟩ := hfixup
  exact ⟨_, congrArg (Option.map _) hr⟩

theorem removeFront_eq (hcount : q.m_count.toNat ≤ 2 ^ 31 + 1)
    (h : q.RemoveFront key fuel = some (out_node, q')) :
    removeFront key q.contents = some (out_node, q'.contents) := by
  unfold RemoveFront at h
  split at h
  · rename_i hpos
    have hpos : 0 < q.m_count.toNat := hpos
    have hpred := pred_toNat hpos
    have hlast : q.contents = entries q.m_queue (q.m_count - 1).toNat ++
        [q.m_queue (q.m_count - 1).toNat] := by
      rw [← entries_succ, hpred, Nat.sub_add_cancel hpos]
      rfl
    rw [hlast]
    dsimp only at h
    split at h
    · rename_i hne
      have hpos' : 0 < (q.m_count - 1).toNat := by
        apply Nat.pos_of_ne_zero
        intro hzero
        exact hne (BitVec.eq_of_toNat_eq hzero)
      obtain ⟨q₁, hfixup, heq⟩ := Option.map_eq_some_iff.mp h
      cases heq
      obtain ⟨-, heq⟩ := removeFixup_eq (by exact hpos') (by rw [hpred]; omega) hfixup
      have hsplit : ∃ ys, entries q.m_queue (q.m_count - 1).toNat = q.m_queue 0 :: ys := by
        obtain ⟨k, hk⟩ := Nat.exists_eq_succ_of_ne_zero (Nat.ne_of_gt hpos')
        rw [hk, entries, List.range_succ_eq_map, List.map_cons]
        exact ⟨_, rfl⟩
      obtain ⟨ys, hys⟩ := hsplit
      rw [hys, removeFront_concat, ← heq, contents_eq]
      dsimp only
      rw [entries_update, hys, List.set_cons_zero]
    · rename_i hzero
      rw [not_not] at hzero
      cases h
      rw [contents_eq, hzero]
      rfl
  · cases h

theorem remove_eq (hcount : q.m_count.toNat ≤ 2 ^ 31 + 1) (h : q.Remove key fuel iter = some q') :
    q'.contents = remove key q.contents iter := by
  unfold Remove at h
  split at h
  · rename_i hiter
    have hpred := pred_toNat (q := q) (by omega)
    have hlast : q.contents = entries q.m_queue (q.m_count - 1).toNat ++
        [q.m_queue (q.m_count - 1).toNat] := by
      rw [← entries_succ, hpred, Nat.sub_add_cancel (by omega)]
      rfl
    rw [hlast, remove, List.getLast?_concat]
    dsimp only
    rw [List.dropLast_concat, List.length_append, length_entries, List.length_singleton]
    dsimp only at h
    by_cases hend : iter = (q.m_count - 1).toNat
    · rw [if_pos (Or.inr hend.symm)] at h
      rw [if_pos (by omega)]
      cases h
      rfl
    · rw [if_neg (by omega), ← entries_update]
      have hne : ¬(q.m_count - 1 = 0 ∨ (q.m_count - 1).toNat = iter) := by
        rintro (hzero | heq)
        · rw [hzero] at hpred hend
          change iter ≠ 0 at hend
          change 0 = _ at hpred
          omega
        · exact hend heq.symm
      rw [if_neg hne] at h
      obtain ⟨⟨q₁, location⟩, hinsert, h⟩ := Option.bind_eq_some_iff.mp h
      have hlt : iter < (q.m_count - 1).toNat := by omega
      obtain ⟨hm, heq⟩ := insertFixup_eq hlt hinsert
      rw [contents_eq] at heq
      dsimp only at heq h hm
      rw [heq]
      dsimp only
      split at h
      · rename_i hmoved
        cases h
        rw [if_neg hmoved]
      · rename_i hstay
        rw [not_not] at hstay
        rw [if_pos hstay]
        obtain ⟨-, hremove⟩ := removeFixup_eq (by rw [hm]; exact hlt) (by rw [hm]; omega) h
        have hsame : (insertFixup key (entries (Function.update q.m_queue iter
            (q.m_queue (q.m_count - 1).toNat)) (q.m_count - 1).toNat) iter).1 = _ :=
          insertFixup_stay (by rw [heq]; exact hstay)
        rw [heq] at hsame
        dsimp only at hsame
        rw [← hsame, hremove]
  · cases h

theorem removeFront_returns (hpos : 0 < q.m_count.toNat) (hcount : q.m_count.toNat ≤ 2 ^ 31 + 1)
    (hfuel : q.m_count.toNat ≤ fuel) : ∃ r, q.RemoveFront key fuel = some r := by
  have hpred := pred_toNat hpos
  have hpos' : 0 < q.m_count := hpos
  unfold RemoveFront
  rw [if_pos hpos']
  dsimp only
  split
  · rename_i hne
    have hne' : 0 < (q.m_count - 1).toNat := by
      apply Nat.pos_of_ne_zero
      intro hzero
      exact hne (BitVec.eq_of_toNat_eq hzero)
    have hbound : (q.m_count - 1).toNat ≤ 2 ^ 31 := by omega
    have hfixup : ∃ q', RemoveFixup key (Queue.mk (Function.update q.m_queue 0
        (q.m_queue (q.m_count - 1).toNat)) (q.m_count - 1)) fuel 0 = some q' :=
      removeFixup_returns hne' hbound (show (q.m_count - 1).toNat ≤ 0 + fuel by omega)
    obtain ⟨q', hq'⟩ := hfixup
    exact ⟨_, congrArg (Option.map _) hq'⟩
  · exact ⟨_, rfl⟩

theorem remove_returns (hiter : iter < q.m_count.toNat) (hcount : q.m_count.toNat ≤ 2 ^ 31 + 1)
    (hfuel : q.m_count.toNat ≤ fuel) : ∃ q', q.Remove key fuel iter = some q' := by
  have hpred := pred_toNat (q := q) (by omega)
  unfold Remove
  rw [if_pos hiter]
  dsimp only
  split
  · exact ⟨_, rfl⟩
  · rename_i hne
    rw [not_or] at hne
    have hlt : iter < (q.m_count - 1).toNat := by omega
    have hinsert : ∃ r, InsertFixup key (Queue.mk (Function.update q.m_queue iter
        (q.m_queue (q.m_count - 1).toNat)) (q.m_count - 1)) fuel iter = some r :=
      insertFixup_returns hlt (by omega)
    obtain ⟨⟨q₁, location⟩, hq₁⟩ := hinsert
    obtain ⟨hm, -⟩ := insertFixup_eq hlt hq₁
    dsimp only at hm
    rw [hq₁, Option.bind_some]
    dsimp only
    split
    · exact ⟨_, rfl⟩
    · exact removeFixup_returns (by rw [hm]; exact hlt) (by rw [hm]; omega) (by rw [hm]; omega)

end Queue

structure State (T : Type*) where
  queue : Queue T
  present : List T

inductive Call (T : Type*)
  | Insert (new_node : T)
  | RemoveFront
  | Remove (iter : ℕ)

inductive Step [DecidableEq T] (key : T → K) (max : ℕ) : State T → Call T → State T → Prop
  | insert {s : State T} {fuel : ℕ} {new_node : T} {q : Queue T} :
      s.queue.Insert key max fuel new_node = some q →
      Step key max s (.Insert new_node) ⟨q, new_node :: s.present⟩
  | removeFront {s : State T} {fuel : ℕ} {out_node : T} {q : Queue T} :
      s.queue.RemoveFront key fuel = some (out_node, q) →
      Step key max s .RemoveFront ⟨q, s.present.erase out_node⟩
  | remove {s : State T} {fuel iter : ℕ} {q : Queue T} :
      s.queue.Remove key fuel iter = some q →
      Step key max s (.Remove iter) ⟨q, s.present.erase (s.queue.m_queue iter)⟩

inductive Run [DecidableEq T] (key : T → K) (max : ℕ) (allowed : State T → Call T → Prop) :
    State T → Prop
  | start (m_queue : ℕ → T) : Run key max allowed ⟨⟨m_queue, 0⟩, []⟩
  | step {s s' : State T} {c : Call T} : Run key max allowed s → allowed s c →
      Step key max s c s' → Run key max allowed s'

def Allowed (s : State T) : Call T → Prop
  | .Insert _ => True
  | .RemoveFront => s.queue.m_count.toNat ≤ 2 ^ 31 + 1
  | .Remove _ => s.queue.m_count.toNat ≤ 2 ^ 31 + 1

structure Correct (key : T → K) (s : State T) : Prop where
  order : HeapOrder key s.queue.contents
  entries : s.queue.contents.Perm s.present
  largest : ∀ fuel out_node q, s.queue.RemoveFront key fuel = some (out_node, q) →
    out_node ∈ s.present ∧ ∀ x ∈ s.present, key x ≤ key out_node

/-- Every call returns that its assertion admits. -/
structure Returns (key : T → K) (max : ℕ) (s : State T) : Prop where
  insert : ∀ new_node, s.queue.m_count.toNat < max → s.queue.m_count.toNat + 1 < 2 ^ 32 →
    ∃ fuel q, s.queue.Insert key max fuel new_node = some q
  removeFront : 0 < s.queue.m_count.toNat → Allowed s .RemoveFront →
    ∃ fuel r, s.queue.RemoveFront key fuel = some r
  remove : ∀ iter < s.queue.m_count.toNat, Allowed s (.Remove iter) →
    ∃ fuel q, s.queue.Remove key fuel iter = some q

section Steps

variable {s s' : State T} {max : ℕ}

theorem front_largest (horder : HeapOrder key s.queue.contents)
    (hentries : s.queue.contents.Perm s.present) {fuel : ℕ} {out_node : T} {q : Queue T}
    (h : s.queue.RemoveFront key fuel = some (out_node, q)) :
    out_node ∈ s.present ∧ ∀ x ∈ s.present, key x ≤ key out_node := by
  unfold Queue.RemoveFront at h
  split at h
  · rename_i hpos
    have hfront : s.queue.contents[0]? = some (s.queue.m_queue 0) := getElem?_entries _ hpos
    have hout : s.queue.m_queue 0 = out_node := by
      dsimp only at h
      split at h
      · obtain ⟨_, _, heq⟩ := Option.map_eq_some_iff.mp h
        exact congrArg Prod.fst heq
      · exact congrArg Prod.fst (Option.some.inj h)
    rw [hout] at hfront
    refine ⟨hentries.mem_iff.mp (List.mem_of_getElem? hfront), ?_⟩
    intro x hx
    obtain ⟨i, hi⟩ := List.mem_iff_getElem?.mp (hentries.mem_iff.mpr hx)
    exact horder.le_front hfront hi
  · cases h

variable [DecidableEq T]

theorem erase_of_perm_cons {x : T} {xs ys zs : List T} (h : xs.Perm (x :: ys)) (hxs : xs.Perm zs) :
    ys.Perm (zs.erase x) := by
  have herase := (h.symm.trans hxs).erase x
  rw [List.erase_cons_head] at herase
  exact herase

theorem Step.keeps {c : Call T} (h : Step key max s c s') (hallowed : Allowed s c)
    (horder : HeapOrder key s.queue.contents) (hentries : s.queue.contents.Perm s.present) :
    HeapOrder key s'.queue.contents ∧ s'.queue.contents.Perm s'.present := by
  cases h with
  | @insert _ new_node q hq =>
    have heq := Queue.insert_eq hq
    dsimp only
    rw [heq]
    refine ⟨insert_heapOrder horder new_node, ?_⟩
    exact (insert_perm key _ new_node).trans (hentries.cons new_node)
  | @removeFront _ out_node q hq =>
    have heq := Queue.removeFront_eq hallowed hq
    refine ⟨removeFront_heapOrder horder heq, ?_⟩
    exact erase_of_perm_cons (removeFront_perm key heq) hentries
  | @remove _ iter q hq =>
    have hiter : iter < s.queue.m_count.toNat := by
      unfold Queue.Remove at hq
      split at hq
      · assumption
      · cases hq
    have hlen : iter < s.queue.contents.length := by
      rw [Queue.contents_eq, length_entries]
      exact hiter
    have hget : s.queue.contents[iter] = s.queue.m_queue iter := by
      have hget := getElem?_entries s.queue.m_queue hiter
      exact (List.getElem?_eq_some_iff.mp hget).2
    have heq := Queue.remove_eq hallowed hq
    have hperm := remove_perm key hlen
    rw [hget, ← heq] at hperm
    refine ⟨?_, erase_of_perm_cons hperm hentries⟩
    dsimp only
    rw [heq]
    exact remove_heapOrder horder hlen

theorem Run.keeps (h : Run key max Allowed s) :
    HeapOrder key s.queue.contents ∧ s.queue.contents.Perm s.present := by
  induction h with
  | start m_queue =>
    refine ⟨?_, List.Perm.refl _⟩
    intro i x y _ hx
    cases hx
  | step _ hallowed hstep ih => exact hstep.keeps hallowed ih.1 ih.2

omit [DecidableEq T] in
theorem returns (key : T → K) (max : ℕ) (s : State T) : Returns key max s where
  insert _ hroom hcount :=
    ⟨s.queue.m_count.toNat, Queue.insert_returns hroom hcount (Nat.le_refl _)⟩
  removeFront hpos hallowed :=
    ⟨s.queue.m_count.toNat, Queue.removeFront_returns hpos hallowed (Nat.le_refl _)⟩
  remove _ hiter hallowed :=
    ⟨s.queue.m_count.toNat, Queue.remove_returns hiter hallowed (Nat.le_refl _)⟩

end Steps

def Queue.removeFronts (key : T → K) (fuel : ℕ) : ℕ → Queue T → Option (List T × Queue T)
  | 0, q => some ([], q)
  | n + 1, q =>
    (q.RemoveFront key fuel).bind fun front =>
      (removeFronts key fuel n front.2).map fun later => (front.1 :: later.1, later.2)

theorem Queue.removeFronts_descending {q : Queue T} {fuel n : ℕ}
    (horder : HeapOrder key q.contents) (hn : q.m_count.toNat = n) (hcount : n ≤ 2 ^ 31 + 1)
    (hfuel : n ≤ fuel) : ∃ out q', q.removeFronts key fuel n = some (out, q') ∧ q'.m_count = 0 ∧
      out.Perm q.contents ∧ out.Pairwise fun x y => key y ≤ key x := by
  induction n generalizing q with
  | zero =>
    refine ⟨[], q, rfl, BitVec.eq_of_toNat_eq hn, ?_, List.Pairwise.nil⟩
    rw [contents_eq, hn]
    exact List.Perm.refl _
  | succ n ih =>
    have hreturns : ∃ front, q.RemoveFront key fuel = some front :=
      removeFront_returns (by omega) (by omega) (by omega)
    obtain ⟨⟨front, q₁⟩, hfront⟩ := hreturns
    have heq := removeFront_eq (by omega) hfront
    have hperm := removeFront_perm key heq
    have hlargest := removeFront_largest horder heq
    have hlen := hperm.length_eq
    rw [List.length_cons, contents_eq, contents_eq, length_entries, length_entries, hn] at hlen
    obtain ⟨out, q', hout, hempty, hrest, hdescending⟩ :=
      ih (removeFront_heapOrder horder heq) (by omega) (by omega) (by omega)
    refine ⟨front :: out, q', ?_, hempty, (hrest.cons front).trans hperm.symm, ?_⟩
    · rw [removeFronts, hfront, Option.bind_some, hout]
      rfl
    · refine List.pairwise_cons.mpr ⟨fun x hx => ?_, hdescending⟩
      exact hlargest x (hperm.mem_iff.mpr (List.mem_cons_of_mem front (hrest.mem_iff.mp hx)))

def firstThree (n : ℕ) : ℕ := if n < 3 then 1 else 0

theorem firstThree_anti {i n : ℕ} (h : i ≤ n) : firstThree n ≤ firstThree i := by
  unfold firstThree
  by_cases hn : n < 3
  · rw [if_pos hn, if_pos (by omega)]
  · rw [if_neg hn]
    exact Nat.zero_le _

theorem ascending_insert {n : ℕ} (hn : n + 1 < 2 ^ 32) :
    (Queue.mk id (BitVec.ofNat 32 n)).Insert firstThree (2 ^ 32 - 1) 1 n =
      some (Queue.mk id (BitVec.ofNat 32 (n + 1))) := by
  have hcount : (BitVec.ofNat 32 n).toNat = n := by
    rw [BitVec.toNat_ofNat]
    omega
  have hnext : BitVec.ofNat 32 n + 1 = BitVec.ofNat 32 (n + 1) := BitVec.ofNat_add n 1 |>.symm
  have hlt : BitVec.ofNat 32 n < BitVec.ofNat 32 (n + 1) := by
    rw [BitVec.lt_def, hcount, BitVec.toNat_ofNat]
    omega
  have hhigh : ((BitVec.ofNat 32 n + 1) >>> 1).toNat - 1 ≤ n := by
    rw [hnext, BitVec.toNat_ushiftRight, BitVec.toNat_ofNat, Nat.shiftRight_eq_div_pow]
    omega
  have hstay : Function.update id n n = id := Function.update_eq_self n id
  unfold Queue.Insert Queue.InsertFixup
  dsimp only
  rw [hcount, if_pos (by omega), hstay, hnext, if_neg (not_not.mpr hlt)]
  split
  · rfl
  · have hkey : ¬firstThree (id (((BitVec.ofNat 32 n + 1) >>> 1).toNat - 1)) < firstThree (id n) :=
      not_lt.mpr (firstThree_anti hhigh)
    rw [← hnext, Queue.insertLoop, if_neg hkey]
    exact congrArg (fun f => some (Queue.mk f _)) hstay

theorem ascending_run {n : ℕ} (hn : n < 2 ^ 32) :
    Run firstThree (2 ^ 32 - 1) (fun _ _ => True)
      ⟨Queue.mk id (BitVec.ofNat 32 n), (List.range n).reverse⟩ := by
  induction n with
  | zero => exact .start id
  | succ n ih =>
    rw [List.range_succ, List.reverse_append, List.reverse_singleton, List.singleton_append]
    exact .step (ih (by omega)) trivial (.insert (ascending_insert hn))

end Awn.PriorityQueue
