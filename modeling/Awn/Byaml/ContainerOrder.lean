import Awn.Byaml.Containers

/-! The order of the children of containers, call by call. -/

namespace Awn.Byaml.Containers

open Sorted (Turn insertNode)

variable {D H N : Type*} {c : Containers D H N} {s : D ⊕ H} {n : N} {turn : N → Turn}

structure Inv (c : Containers D H N) : Prop extends c.Ordered where
  apart : ∀ s t n, n ∈ c.m_node_list s → n ∈ c.m_node_list t → s = t

theorem inv_initial : ({} : Containers D H N).Inv where
  ascending _ := List.Pairwise.nil
  count _ := rfl
  apart _ _ _ hs := absurd hs List.not_mem_nil

variable [DecidableEq N]

theorem Inv.setNode (h : c.Inv) (hn : ∀ s, n ∉ c.m_node_list s) (node : ByamlNodeBase) :
    ({ c with node := Function.update c.node n node } : Containers D H N).Inv where
  ascending s := by
    apply (h.ascending s).imp_of_mem
    intro a b ha hb hab
    have hna : a ≠ n := fun he => hn s (he ▸ ha)
    have hnb : b ≠ n := fun he => hn s (he ▸ hb)
    cases s with
    | inl d =>
      change (Function.update c.node n node a).m_key.codes <
        (Function.update c.node n node b).m_key.codes
      rw [Function.update_of_ne hna, Function.update_of_ne hnb]
      exact hab
    | inr h =>
      change (Function.update c.node n node a).m_hash < (Function.update c.node n node b).m_hash
      rw [Function.update_of_ne hna, Function.update_of_ne hnb]
      exact hab
  count := h.count
  apart := h.apart

theorem Inv.setKey (h : c.Inv) (hn : ∀ s, n ∉ c.m_node_list s) (k : CString) (index : BitVec 32) :
    (c.setKey n k index).Inv :=
  h.setNode hn _

theorem Inv.setHash (h : c.Inv) (hn : ∀ s, n ∉ c.m_node_list s) (hash : BitVec 64)
    (index : BitVec 32) : (c.setHash n hash index).Inv :=
  h.setNode hn _

theorem setKey_self {k : CString} {index : BitVec 32} :
    ((c.setKey n k index).node n).m_key = k := by
  simp only [setKey, Function.update_self]

theorem setHash_self {hash : BitVec 64} {index : BitVec 32} :
    ((c.setHash n hash index).node n).m_hash = hash := by
  simp only [setHash, Function.update_self]

variable [DecidableEq D] [DecidableEq H]

section Insertion

omit [DecidableEq N]

theorem addNode_none (h : insertNode turn n (c.m_node_list s) = none) :
    c.addNode s turn n = (c, false) := by
  rw [addNode, h]

theorem addNode_some {nodes : List N} (h : insertNode turn n (c.m_node_list s) = some nodes) :
    c.addNode s turn n = ({ c with
      m_node_list := Function.update c.m_node_list s nodes
      m_node_count := Function.update c.m_node_count s (c.m_node_count s + 1) }, true) := by
  rw [addNode, h]

variable {K : Type*} [LinearOrder K] {key : N → K}

theorem hasRoom_of_addNode (hdecides : ∀ e ∈ c.m_node_list s, Sorted.Decides turn key (key n) e)
    (hcount : ((c.addNode s turn n).1.m_node_count s).toNat =
      ((c.addNode s turn n).1.m_node_list s).length) :
    (∃ e ∈ c.m_node_list s, key e = key n) ∨ c.HasRoom s := by
  cases hi : insertNode turn n (c.m_node_list s) with
  | none =>
    obtain ⟨e, he, ht⟩ := Sorted.exists_isPresent hi
    exact Or.inl ⟨e, he, (hdecides e he).key_eq ht⟩
  | some nodes =>
    right
    have hlt := (c.m_node_count s + 1).isLt
    rw [addNode_some hi] at hcount
    simp only [Function.update_self, (Sorted.insertNode_perm hi).length_eq,
      List.length_cons] at hcount
    rw [HasRoom]
    omega

variable (hless : ∀ a b, c.Less s a b ↔ key a < key b)
include hless

theorem addNode_refuses (h : c.Inv)
    (hdecides : ∀ e ∈ c.m_node_list s, Sorted.Decides turn key (key n) e)
    (hpresent : ∃ e ∈ c.m_node_list s, key e = key n) : c.addNode s turn n = (c, false) := by
  apply addNode_none
  apply (Sorted.insertNode_eq_none_iff hdecides _).mpr hpresent
  exact (h.ascending s).imp fun hab => (hless _ _).mp hab

theorem Inv.addNode (h : c.Inv) (hn : ∀ s, n ∉ c.m_node_list s)
    (hdecides : ∀ e ∈ c.m_node_list s, Sorted.Decides turn key (key n) e)
    (hroom : (∃ e ∈ c.m_node_list s, key e = key n) ∨ c.HasRoom s) :
    (c.addNode s turn n).1.Inv := by
  have hsorted : (c.m_node_list s).Pairwise fun a b => key a < key b :=
    (h.ascending s).imp fun hab => (hless _ _).mp hab
  cases hi : insertNode turn n (c.m_node_list s) with
  | none =>
    rw [addNode_none hi]
    exact h
  | some nodes =>
    rw [addNode_some hi]
    have hperm := Sorted.insertNode_perm hi
    have hcases : ∀ t e, e ∈ Function.update c.m_node_list s nodes t →
        e ∈ c.m_node_list t ∨ (e = n ∧ t = s) := by
      intro t e he
      by_cases hts : t = s
      · subst hts
        rw [Function.update_self] at he
        obtain rfl | he := List.mem_cons.mp (hperm.mem_iff.mp he)
        · exact Or.inr ⟨rfl, rfl⟩
        · exact Or.inl he
      · rw [Function.update_of_ne hts] at he
        exact Or.inl he
    have hroom : c.HasRoom s := by
      apply hroom.resolve_left
      intro hpresent
      rw [(Sorted.insertNode_eq_none_iff hdecides hsorted).mpr hpresent] at hi
      cases hi
    constructor
    · constructor
      · intro t
        by_cases hts : t = s
        · subst hts
          have hnew := Sorted.insertNode_strictSorted hdecides hsorted hi
          simp only [Function.update_self]
          exact hnew.imp fun hab => (hless _ _).mpr hab
        · simp only [Function.update_of_ne hts]
          exact h.ascending t
      · intro t
        by_cases hts : t = s
        · subst hts
          have hcount := h.count t
          rw [HasRoom] at hroom
          simp only [Function.update_self, hperm.length_eq, List.length_cons, BitVec.toNat_add,
            hcount]
          exact Nat.mod_eq_of_lt hroom
        · simp only [Function.update_of_ne hts]
          exact h.count t
    · intro t u e ht hu
      obtain ht | ht := hcases t e ht
      · obtain hu | hu := hcases u e hu
        · exact h.apart t u e ht hu
        · exact absurd ht (hu.1 ▸ hn t)
      · obtain hu | hu := hcases u e hu
        · exact absurd hu (ht.1 ▸ hn u)
        · exact ht.2.trans hu.2.symm

end Insertion

section Key

variable {strcmp : CString → CString → BitVec 32} (hc : Conforming strcmp) {d : D} {k : CString}
  {key : Option CString} {index : BitVec 32}
include hc

omit [DecidableEq N] [DecidableEq D] [DecidableEq H] in
theorem keyTurn_decides (c : Containers D H N) (e : N)
    (hless : (c.node e).m_key.codes < k.codes → strcmp (c.node e).m_key k = -1) :
    Sorted.Decides (c.keyTurn strcmp k) (fun e => (c.node e).m_key.codes) k.codes e where
  less h := by
    simp only [keyTurn]
    rw [if_neg (hc.ne_zero_of_lt h), if_pos (hless h)]
  greater h := by
    have hpos := hc.positive h
    have hzero : strcmp (c.node e).m_key k ≠ 0 := by
      intro hz
      rw [hz] at hpos
      exact absurd hpos (by decide)
    have hone : strcmp (c.node e).m_key k ≠ -1 := by
      intro hm
      rw [hm] at hpos
      exact absurd hpos (by decide)
    simp only [keyTurn]
    rw [if_neg hzero, if_neg hone]
  same h := by
    have hsame : (c.node e).m_key = k := CString.codes_injective h
    simp only [keyTurn]
    rw [if_pos ((hc.zero _ _).mpr hsame)]

section Unlinked

variable (hn : ∀ s, n ∉ c.m_node_list s)
include hn

omit hc [DecidableEq D] [DecidableEq H] in
theorem setKey_node {e : N} (he : e ∈ c.m_node_list (.inl d)) :
    (c.setKey n k index).node e = c.node e := by
  have hne : e ≠ n := fun heq => hn _ (heq ▸ he)
  exact Function.update_of_ne hne _ _

variable (index) in
omit [DecidableEq D] [DecidableEq H] in
theorem setKey_decides (hless : ∀ e ∈ c.m_node_list (.inl d), (c.node e).m_key.codes < k.codes →
    strcmp (c.node e).m_key k = -1) :
    ∀ e ∈ (c.setKey n k index).m_node_list (.inl d),
      Sorted.Decides ((c.setKey n k index).keyTurn strcmp k)
        (fun e => ((c.setKey n k index).node e).m_key.codes)
        ((c.setKey n k index).node n).m_key.codes e := by
  intro e he
  rw [setKey_self]
  apply keyTurn_decides hc
  rw [setKey_node hn he]
  exact hless e he

variable (index) in
omit hc [DecidableEq D] [DecidableEq H] in
theorem hasKey_iff : c.HasKey d k ↔ ∃ e ∈ (c.setKey n k index).m_node_list (.inl d),
    ((c.setKey n k index).node e).m_key.codes = ((c.setKey n k index).node n).m_key.codes := by
  rw [setKey_self]
  constructor
  · rintro ⟨e, he, rfl⟩
    exact ⟨e, he, by rw [setKey_node hn he]⟩
  · rintro ⟨e, he, hcodes⟩
    rw [setKey_node hn he] at hcodes
    exact ⟨e, he, CString.codes_injective hcodes⟩

variable (d index) in
omit [DecidableEq D] [DecidableEq H] in
theorem compares_of_ascending (h : c.Inv)
    (hsorted : ∀ nodes, insertNode ((c.setKey n k index).keyTurn strcmp k) n
      (c.m_node_list (.inl d)) = some nodes →
        nodes.Pairwise ((c.setKey n k index).Less (.inl d : D ⊕ H))) :
    ∀ e ∈ c.m_node_list (.inl d), (c.node e).m_key.codes < k.codes →
      strcmp (c.node e).m_key k = -1 := by
  intro e he hlt
  by_contra hne
  have hturn : ∀ m ∈ c.m_node_list (.inl d),
      ((c.setKey n k index).node m).m_key.codes < ((c.setKey n k index).node n).m_key.codes →
        (c.setKey n k index).keyTurn strcmp k m ≠ .isPresent := by
    intro m hm hless
    rw [setKey_node hn hm, setKey_self] at hless
    simp only [keyTurn, setKey_node hn hm]
    rw [if_neg (hc.ne_zero_of_lt hless)]
    split <;> exact Turn.noConfusion
  have hstop : (c.setKey n k index).keyTurn strcmp k e ≠ .goOn := by
    simp only [keyTurn, setKey_node hn he]
    rw [if_neg (hc.ne_zero_of_lt hlt), if_neg hne]
    exact Turn.noConfusion
  obtain ⟨nodes, hi, hbad⟩ := Sorted.insertNode_not_sorted
    (show (c.m_node_list (.inl d)).Pairwise fun a b =>
      ((c.setKey n k index).node a).m_key.codes < ((c.setKey n k index).node b).m_key.codes from
        (h.setKey hn k index).ascending (.inl d)) hturn he
    (by rw [setKey_node hn he, setKey_self]; exact hlt) hstop
  exact hbad (hsorted nodes hi)

end Unlinked

theorem AddNodeByKey_fits (h : c.Inv) (hn : c.Unlinked (.addByKey d n key index))
    (hf : c.Fits strcmp (.addByKey d n key index)) :
    c.RefusesPresent strcmp (.addByKey d n key index) ∧
      (c.call strcmp (.addByKey d n key index)).1.Inv := by
  cases key with
  | none => exact ⟨fun _ => ⟨rfl, rfl, rfl⟩, h⟩
  | some k =>
    by_cases hnull : k.1 = []
    · have hcall : c.call strcmp (.addByKey d n (some k) index) = (c, false) := if_pos hnull
      rw [RefusesPresent, hcall]
      exact ⟨fun _ => ⟨rfl, rfl, rfl⟩, h⟩
    · obtain ⟨hless, hroom⟩ := hf k rfl hnull
      have hcall : c.call strcmp (.addByKey d n (some k) index) =
          (c.setKey n k index).addNode (.inl d) ((c.setKey n k index).keyTurn strcmp k) n :=
        if_neg hnull
      have hset := h.setKey hn k index
      have hdecides := setKey_decides hc index hn hless
      rw [hasKey_iff index hn] at hroom
      rw [RefusesPresent, hcall]
      constructor
      · rintro ⟨k', hk', hpresent⟩
        obtain rfl := Option.some.inj hk'
        rw [addNode_refuses (fun _ _ => Iff.rfl) hset hdecides ((hasKey_iff index hn).mp hpresent)]
        exact ⟨rfl, rfl, rfl⟩
      · exact hset.addNode (fun _ _ => Iff.rfl) hn hdecides hroom

theorem AddNodeByKey_back (h : c.Inv) (hn : c.Unlinked (.addByKey d n key index))
    (ho : (c.call strcmp (.addByKey d n key index)).1.Ordered) :
    c.Fits strcmp (.addByKey d n key index) := by
  rintro k rfl hnull
  have hcall : c.call strcmp (.addByKey d n (some k) index) =
      (c.setKey n k index).addNode (.inl d) ((c.setKey n k index).keyTurn strcmp k) n :=
    if_neg hnull
  rw [hcall] at ho
  have hless := compares_of_ascending hc d index hn h <| by
    intro nodes hi
    rw [addNode_some (c := c.setKey n k index) hi] at ho
    have hascending := ho.ascending (.inl d)
    simp only [Function.update_self] at hascending
    exact hascending
  refine ⟨hless, ?_⟩
  rw [hasKey_iff index hn]
  exact hasRoom_of_addNode (setKey_decides hc index hn hless) (ho.count (.inl d))

end Key

section Hash

variable {h : H} {hash : BitVec 64} {index : BitVec 32}

omit [DecidableEq D] [DecidableEq H] [DecidableEq N] in
theorem hashTurn_decides (c : Containers D H N) (e : N) :
    Sorted.Decides (c.hashTurn hash) (fun e => (c.node e).m_hash.toNat) hash.toNat e where
  less h := by
    have hne : (c.node e).m_hash ≠ hash := fun he => by
      rw [he] at h
      exact lt_irrefl _ h
    rw [hashTurn, if_neg hne, if_pos (BitVec.lt_def.mpr h)]
  greater h := by
    have hne : (c.node e).m_hash ≠ hash := fun he => by
      rw [he] at h
      exact lt_irrefl _ h
    rw [hashTurn, if_neg hne, if_neg fun hlt => lt_asymm h (BitVec.lt_def.mp hlt)]
  same h := by
    rw [hashTurn, if_pos (BitVec.eq_of_toNat_eq h)]

omit [DecidableEq D] [DecidableEq H] in
theorem setHash_decides (c : Containers D H N) :
    ∀ e ∈ (c.setHash n hash index).m_node_list (.inr h),
    Sorted.Decides ((c.setHash n hash index).hashTurn hash)
      (fun e => ((c.setHash n hash index).node e).m_hash.toNat)
      ((c.setHash n hash index).node n).m_hash.toNat e := by
  intro e he
  rw [setHash_self]
  exact hashTurn_decides _ e

section Unlinked

variable (hn : ∀ s, n ∉ c.m_node_list s)
include hn

omit [DecidableEq D] [DecidableEq H]

variable (index) in
theorem hasHash_iff : c.HasHash h hash ↔ ∃ e ∈ (c.setHash n hash index).m_node_list (.inr h),
    ((c.setHash n hash index).node e).m_hash.toNat =
      ((c.setHash n hash index).node n).m_hash.toNat := by
  have hnode : ∀ e ∈ c.m_node_list (.inr h), (c.setHash n hash index).node e = c.node e := by
    intro e he
    exact Function.update_of_ne (fun heq => hn _ (heq ▸ he)) _ _
  rw [setHash_self]
  constructor
  · rintro ⟨e, he, rfl⟩
    exact ⟨e, he, by rw [hnode e he]⟩
  · rintro ⟨e, he, hsame⟩
    rw [hnode e he] at hsame
    exact ⟨e, he, BitVec.eq_of_toNat_eq hsame⟩

end Unlinked

variable {strcmp : CString → CString → BitVec 32}

theorem AddNodeByHash_fits (hinv : c.Inv) (hn : c.Unlinked (.addByHash h n hash index))
    (hf : c.Fits strcmp (.addByHash h n hash index)) :
    c.RefusesPresent strcmp (.addByHash h n hash index) ∧
      (c.call strcmp (.addByHash h n hash index)).1.Inv := by
  have hset := hinv.setHash hn hash index
  have hless : ∀ a b, (c.setHash n hash index).Less (.inr h : D ⊕ H) a b ↔
      ((c.setHash n hash index).node a).m_hash.toNat <
        ((c.setHash n hash index).node b).m_hash.toNat :=
    fun _ _ => BitVec.lt_def
  constructor
  · intro hpresent
    have hcall : c.call strcmp (.addByHash h n hash index) = (c.setHash n hash index, false) :=
      addNode_refuses hless hset (setHash_decides c) ((hasHash_iff index hn).mp hpresent)
    rw [hcall]
    exact ⟨rfl, rfl, rfl⟩
  · have hroom : c.HasHash h hash ∨ c.HasRoom (.inr h) := hf
    rw [hasHash_iff index hn] at hroom
    exact hset.addNode hless hn (setHash_decides c) hroom

theorem AddNodeByHash_back (hn : c.Unlinked (.addByHash h n hash index))
    (ho : (c.call strcmp (.addByHash h n hash index)).1.Ordered) :
    c.Fits strcmp (.addByHash h n hash index) := by
  rw [Fits, hasHash_iff index hn]
  exact hasRoom_of_addNode (setHash_decides c) (ho.count (.inr h))

end Hash

section Remove

variable {strcmp : CString → CString → BitVec 32}

theorem RemoveNode_inv (h : c.Inv) (hf : n ∈ c.m_node_list s) : (c.RemoveNode s n).Inv where
  ascending t := (h.ascending t).sublist List.erase_sublist
  count t := by
    have hcount := h.count t
    by_cases hts : t = s
    · subst hts
      have hpos := List.length_pos_of_mem hf
      simp only [RemoveNode, Function.update_self, List.length_erase_of_mem hf, BitVec.toNat_sub,
        hcount]
      have hlt := (c.m_node_count t).isLt
      have hone : (1 : BitVec 32).toNat = 1 := rfl
      rw [hcount] at hlt
      omega
    · have hnot : n ∉ c.m_node_list t := fun ht => hts (h.apart t s n ht hf)
      simp only [RemoveNode, Function.update_of_ne hts, List.erase_of_not_mem hnot]
      exact hcount
  apart t u e ht hu := h.apart t u e (List.mem_of_mem_erase ht) (List.mem_of_mem_erase hu)

theorem RemoveNode_back (h : c.Inv) (ho : (c.RemoveNode s n).Ordered) : n ∈ c.m_node_list s := by
  by_contra hnot
  have hcount := h.count s
  have hafter := ho.count s
  have hlt := (c.m_node_count s).isLt
  have hone : (1 : BitVec 32).toNat = 1 := rfl
  simp only [RemoveNode, Function.update_self, List.erase_of_not_mem hnot, BitVec.toNat_sub,
    hcount] at hafter
  omega

end Remove

/-- For every conforming comparison and all calls that add nodes which are in no list: the
containers stay in order if and only if each call fits. -/
theorem keepsOrder_iff {strcmp : CString → CString → BitVec 32} (hc : Conforming strcmp)
    (calls : List (Call D H N)) (hu : AllUnlinked strcmp {} calls) :
    KeepsOrder strcmp {} calls ↔ AllFit strcmp {} calls := by
  refine Calls.throughout_iff (fun c h => Inv.toOrdered h) (U := Unlinked) ?_ ?_ ?_ ?_
  · intro c call h hn hf
    cases call with
    | addByKey d n key index => exact AddNodeByKey_fits hc h hn hf
    | addByHash h' n hash index => exact AddNodeByHash_fits h hn hf
    | remove s n => exact ⟨fun hp => absurd hp id, RemoveNode_inv h hf⟩
  · intro c call h hn _ ho
    cases call with
    | addByKey d n key index => exact AddNodeByKey_back hc h hn ho
    | addByHash h' n hash index => exact AddNodeByHash_back hn ho
    | remove s n => exact RemoveNode_back h ho
  · exact inv_initial
  · exact hu

def afterA (key : BitVec 8) (hkey : key ≠ 0) : List (Call Unit Unit Bool) :=
  [.addByKey () false (some ⟨[0x61], by decide⟩) 0,
    .addByKey () true (some ⟨[key], by simpa using hkey⟩) 0]

theorem afterA_unlinked (key : BitVec 8) (hkey : key ≠ 0) :
    AllUnlinked (fun a b => byteDifference a.1 b.1) {} (afterA key hkey) := by
  have hfirst : ∀ s : Unit ⊕ Unit, (true : Bool) ∉
      ((({} : Containers Unit Unit Bool).call (fun a b => byteDifference a.1 b.1)
        (.addByKey () false (some ⟨[0x61], by decide⟩) 0)).1.m_node_list s) := by
    rintro (s | s) hs <;> simp [call, AddNodeByKey, addNode, setKey, insertNode] at hs
  exact ⟨trivial, fun s => List.not_mem_nil, trivial, hfirst, trivial⟩

theorem keepsOrder_iff_afterA :
    KeepsOrder (fun a b => byteDifference a.1 b.1) {} (afterA 0x62 (by decide)) ↔
      AllFit (fun a b => byteDifference a.1 b.1) {} (afterA 0x62 (by decide)) :=
  keepsOrder_iff byteDifference_conforming _ (afterA_unlinked _ _)

theorem not_keepsOrder : ¬∀ strcmp : CString → CString → BitVec 32, Conforming strcmp →
    ∀ calls : List (Call Unit Unit Bool), AllUnlinked strcmp {} calls →
      KeepsOrder strcmp {} calls := by
  intro h
  obtain ⟨-, -, -, -, ho⟩ := h _ byteDifference_conforming (afterA 0x63 (by decide))
    (afterA_unlinked _ _)
  have hpair := ho.ascending (.inl ())
  revert hpair
  simp [call, AddNodeByKey, addNode, setKey, insertNode, keyTurn, byteDifference, Less,
    CString.codes]
  exact le_of_lt (List.cons_lt_cons_iff.mpr (Or.inl (by decide)))

end Awn.Byaml.Containers
