import Awn.Dictionary.Node
import Awn.Patricia.Built

namespace Awn.ResNintendoWareDictionary

open Patricia

structure Represents (d : ResNintendoWareDictionary) (T : Trie) (n : ℕ) : Prop where
  count : (n : ℤ) ≤ d.node_count.toInt + 1
  small : d.node_count.toInt < 32767
  ref : ∀ t < n, (d.node_array t).ref_bit.toInt = (T.ref t : ℤ) - 1
  child : ∀ t < n, ∀ b, ((d.node_array t).child b).toNat = T.child t b
  closed : ∀ t < n, ∀ b, T.child t b < n

section Descent

variable {d : ResNintendoWareDictionary} {T : Trie} {n : ℕ} (h : Represents d T n)
include h

theorem Represents.node_eq {i : BitVec 16} (hi : i.toNat < n) :
    d.node i = some (d.node_array i.toNat) := by
  have hcount := h.count
  have hsmall := h.small
  have htoInt : i.toInt = i.toNat := by
    rw [BitVec.toInt_eq_toNat_of_lt (by omega)]
  rw [node, if_pos ⟨by omega, by omega⟩]

theorem Represents.slt_iff {t u : ℕ} (ht : t < n) (hu : u < n) :
    (d.node_array t).ref_bit.slt (d.node_array u).ref_bit = true ↔ T.ref t < T.ref u := by
  rw [BitVec.slt_iff_toInt_lt, h.ref t ht, h.ref u hu]
  omega

theorem Represents.child_eq {t : ℕ} {i : BitVec 16} (hi : i.toNat = t) (ht : t < n) (b : Bool) :
    ((d.node_array i.toNat).child b).toNat = T.child t b := by
  rw [hi, h.child t ht b]

theorem Represents.ref_toNat {t : ℕ} (ht : t < n) (hpos : 0 < T.ref t) :
    (d.node_array t).ref_bit.toNat + 1 = T.ref t := by
  have href := h.ref t ht
  rw [BitVec.toInt_eq_toNat_cond] at href
  split at href <;> omega

theorem Represents.keyBit_eq_bits {key : List (BitVec 8)} (hk : key.length < 2 ^ 16) {t : ℕ}
    (ht : t < n) : keyBit key (d.node_array t).ref_bit = bits key (T.ref t) := by
  rw [keyBit_eq hk]
  rcases Nat.eq_zero_or_pos (T.ref t) with hz | hpos
  · have href := h.ref t ht
    rw [hz, BitVec.toInt_eq_toNat_cond] at href
    rw [hz, bits, bit_of_le]
    split at href <;> omega
  · rw [← h.ref_toNat ht hpos, bits]

theorem Represents.queryBit_eq_bits {key : List (BitVec 8)} (hk : key.length < 2 ^ 32) {t : ℕ}
    (ht : t < n) (hpos : 0 < T.ref t) :
    queryBit key (d.node_array t).ref_bit = bits key (T.ref t) := by
  rw [queryBit_eq hk, ← h.ref_toNat ht hpos, bits]

theorem Represents.traverse_spec {q : ℕ → Bool} {bit : BitVec 32 → Bool}
    (hbit : ∀ t < n, 0 < T.ref t → bit (d.node_array t).ref_bit = q (T.ref t)) {B : ℕ}
    (hB : ∀ t < n, T.ref t < B) (fuel : ℕ) {t : ℕ} {iter : BitVec 16} (ht : t < n)
    (hiter : iter.toNat = T.next q t) (hfuel : B ≤ T.ref t + fuel) :
    ∃ x, traverse fuel d bit (d.node_array t).ref_bit iter (d.node_array iter.toNat).ref_bit =
      some x ∧ x.toNat < n ∧ T.Search q t x.toNat := by
  induction fuel generalizing t iter with
  | zero =>
    have := hB t ht
    omega
  | succ fuel ih =>
    have hn : T.next q t < n := h.closed t ht (q (T.ref t))
    have hiter' : iter.toNat < n := by rwa [hiter]
    rw [traverse, hiter]
    by_cases hlt : T.ref t < T.ref (T.next q t)
    · rw [if_pos ((h.slt_iff ht hn).mpr hlt), h.node_eq hiter']
      simp only [Option.bind_eq_bind, Option.bind_some]
      rw [hbit _ hn (by omega)]
      have hchild := h.child_eq hiter hn (q (T.ref (T.next q t)))
      rw [h.node_eq (by rw [hchild]; exact h.closed _ hn _)]
      simp only [Option.bind_some]
      obtain ⟨x, hx, hxn, hs⟩ := ih hn hchild (by omega)
      exact ⟨x, hx, hxn, Trie.Search.step hlt hs⟩
    · rw [if_neg (by rw [h.slt_iff ht hn]; exact hlt)]
      refine ⟨iter, rfl, hiter', ?_⟩
      rw [hiter]
      exact Trie.Search.stop (by omega)

theorem Represents.findLocation_spec {key : List (BitVec 8)} (hk : key.length < 2 ^ 16)
    {new_ref : BitVec 32} {r : ℕ} (hr : new_ref.toInt = (r : ℤ) - 1) (fuel : ℕ) {t : ℕ}
    {parent last : BitVec 16} (ht : t < n) (hparent : parent.toNat = t)
    (hlast : last.toNat = T.next (bits key) t) (htr : T.ref t < r) (hfuel : r ≤ T.ref t + fuel) :
    ∃ p c, findLocation fuel d key new_ref parent last (d.node_array t).ref_bit
        (d.node_array last.toNat).ref_bit = some (p, c) ∧
      Locate T (bits key) r t p.toNat ∧ c.toNat = T.next (bits key) p.toNat := by
  induction fuel generalizing t parent last with
  | zero => omega
  | succ fuel ih =>
    have hn : T.next (bits key) t < n := h.closed t ht (bits key (T.ref t))
    have hlast' : last.toNat < n := by rwa [hlast]
    have hcond : ((d.node_array t).ref_bit.slt (d.node_array last.toNat).ref_bit = true ∧
        (d.node_array last.toNat).ref_bit.slt new_ref = true) ↔
        T.ref t < T.ref (T.next (bits key) t) ∧ T.ref (T.next (bits key) t) < r := by
      rw [hlast, h.slt_iff ht hn, BitVec.slt_iff_toInt_lt, h.ref _ hn, hr]
      omega
    rw [findLocation]
    by_cases hgo : T.ref t < T.ref (T.next (bits key) t) ∧ T.ref (T.next (bits key) t) < r
    · rw [if_pos (hcond.mpr hgo), h.node_eq hlast']
      simp only [Option.bind_eq_bind, Option.bind_some]
      rw [h.keyBit_eq_bits hk hlast']
      have hchild := h.child_eq hlast hn (bits key (T.ref last.toNat))
      have hnext : T.child (T.next (bits key) t) (bits key (T.ref last.toNat)) =
          T.next (bits key) (T.next (bits key) t) := by rw [hlast]; rfl
      rw [hnext] at hchild
      rw [h.node_eq (by rw [hchild]; exact h.closed _ hn _)]
      simp only [Option.bind_some]
      rw [show (d.node_array last.toNat).ref_bit = (d.node_array (T.next (bits key) t)).ref_bit by
        rw [hlast]]
      obtain ⟨p, c, hpc, hl, hc⟩ := ih hn hlast hchild hgo.2 (by omega)
      exact ⟨p, c, hpc, Locate.down hgo.1 hgo.2 hl, hc⟩
    · rw [if_neg (by rw [hcond]; exact hgo)]
      refine ⟨parent, last, rfl, ?_, ?_⟩
      · rw [hparent]
        exact Locate.here ⟨htr, by omega⟩
      · rw [hparent, hlast]

end Descent

theorem findRefBit_spec {a b : List (BitVec 8)} (ha : a.length < 2 ^ 16) (hb : b.length < 2 ^ 16)
    {max_length : BitVec 16} {m : ℕ} (hm : m < 8 * max_length.toNat)
    (heq : ∀ i < m, bit a i = bit b i) (hne : bit a m ≠ bit b m) (fuel : ℕ) {new_ref : BitVec 32}
    (hle : new_ref.toNat ≤ m) (hfuel : m < new_ref.toNat + fuel) :
    findRefBit fuel a b max_length new_ref = some (some (BitVec.ofNat 32 m)) := by
  have hmax := max_length.isLt
  have hshift : (max_length.setWidth 32 <<< 3).toNat = 8 * max_length.toNat := by
    rw [BitVec.toNat_shiftLeft, BitVec.toNat_setWidth, Nat.shiftLeft_eq]
    omega
  induction fuel generalizing new_ref with
  | zero => omega
  | succ fuel ih =>
    rw [findRefBit, keyBit_eq ha, keyBit_eq hb]
    by_cases hat : new_ref.toNat = m
    · rw [hat, if_pos (bne_iff_ne.mpr hne), ← hat, BitVec.ofNat_toNat, BitVec.setWidth_eq]
    · have hadd : (new_ref + 1).toNat = new_ref.toNat + 1 := by
        have hone : (1 : BitVec 32).toNat = 1 := by decide
        rw [BitVec.toNat_add, hone]
        omega
      have hcond : ¬(max_length.setWidth 32 <<< 3 = new_ref + 1 ∨ (new_ref + 1).slt 0 = true) := by
        rintro (he | hs)
        · have := congrArg BitVec.toNat he
          omega
        · rw [BitVec.slt_iff_toInt_lt, BitVec.toInt_eq_toNat_of_lt (by omega)] at hs
          have hz : (0 : BitVec 32).toInt = 0 := by decide
          omega
      rw [if_neg (by rw [heq _ (by omega)]; simp), if_neg hcond]
      exact ih (by omega) (by omega)

structure Valid (d : ResNintendoWareDictionary) : Prop where
  nonneg : 0 ≤ d.node_count.toInt
  small : d.node_count.toInt < 32767
  root : (d.node_array 0).key = []
  short : ∀ i ≤ d.node_count.toNat, (d.node_array i).key.length < 2 ^ 16
  nulFree : ∀ i ≤ d.node_count.toNat, NulFree (d.node_array i).key
  distinct : ∀ i ≤ d.node_count.toNat, ∀ j ≤ d.node_count.toNat,
    (d.node_array i).key = (d.node_array j).key → i = j

theorem Valid.toInt_eq {d : ResNintendoWareDictionary} (h : d.Valid) :
    d.node_count.toInt = d.node_count.toNat := by
  have hnonneg := h.nonneg
  rw [BitVec.toInt_eq_toNat_cond] at hnonneg ⊢
  have hlt := d.node_count.isLt
  split at hnonneg
  · rw [if_pos (by omega)]
  · omega

def keyBits (d : ResNintendoWareDictionary) (i : ℕ) : ℕ → Bool := bits (d.node_array i).key

theorem bits_zero (key : List (BitVec 8)) : bits key 0 = false := rfl

@[simp] theorem update_node_count (d : ResNintendoWareDictionary) (i : ℕ)
    (f : ResDicNode → ResDicNode) : (d.update i f).node_count = d.node_count := rfl

theorem update_self (d : ResNintendoWareDictionary) (i : ℕ) (f : ResDicNode → ResDicNode) :
    (d.update i f).node_array i = f (d.node_array i) := by
  simp only [update, if_true]

theorem update_of_ne (d : ResNintendoWareDictionary) {i t : ℕ} (f : ResDicNode → ResDicNode)
    (h : t ≠ i) : (d.update i f).node_array t = d.node_array t := by
  simp only [update, if_neg h]

@[simp] theorem setChild_ref_bit (node : ResDicNode) (side : Bool) (i : BitVec 16) :
    (node.setChild side i).ref_bit = node.ref_bit := by
  cases side <;> rfl

@[simp] theorem setChild_key (node : ResDicNode) (side : Bool) (i : BitVec 16) :
    (node.setChild side i).key = node.key := by
  cases side <;> rfl

theorem setChild_child (node : ResDicNode) (side b : Bool) (i : BitVec 16) :
    (node.setChild side i).child b = if b = side then i else node.child b := by
  cases side <;> cases b <;> rfl

structure Building (d₀ d : ResNintendoWareDictionary) (T : Trie) (n : ℕ) : Prop where
  represents : Represents d T n
  built : Built (keyBits d₀) n T
  keys : ∀ t, (d.node_array t).key = (d₀.node_array t).key
  count : d.node_count = d₀.node_count
  fresh : ∀ t, n ≤ t → t ≤ d₀.node_count.toNat → ∀ b,
    (d.node_array t).child b = BitVec.ofNat 16 t
  bound : ∀ t < n, T.ref t < 2 ^ 19

theorem firstDiff_bit {a b : List (BitVec 8)} {r : ℕ} (h : FirstDiff (bits a) (bits b) r) :
    ∃ m, r = m + 1 ∧ (∀ i < m, bit a i = bit b i) ∧ bit a m ≠ bit b m ∧
      m < 8 * max a.length b.length := by
  obtain ⟨hagree, hne⟩ := h
  cases r with
  | zero => exact absurd rfl hne
  | succ m =>
    refine ⟨m, rfl, fun i hi => hagree (i + 1) (by omega), hne, ?_⟩
    by_contra hle
    apply hne
    rw [bits, bits, bit_of_le (by omega), bit_of_le (by omega)]

section Link

variable {d : ResNintendoWareDictionary} {T : Trie} {n r : ℕ} {p c : BitVec 16}
  {key : List (BitVec 8)}

theorem Represents.congr {d' : ResNintendoWareDictionary} (h : Represents d T n)
    (hcount : d'.node_count = d.node_count)
    (hnode : ∀ t < n, d'.node_array t = d.node_array t) : Represents d' T n := by
  constructor
  · rw [hcount]
    exact h.count
  · rw [hcount]
    exact h.small
  · intro t ht
    rw [hnode t ht, h.ref t ht]
  · intro t ht b
    rw [hnode t ht, h.child t ht b]
  · exact h.closed

theorem link_node_count : (d.link n p c).node_count = d.node_count := rfl

theorem link_key (t : ℕ) : ((d.link n p c).node_array t).key = (d.node_array t).key := by
  simp only [link, update]
  split <;> split <;> simp only [setChild_key]

theorem link_ref_bit (t : ℕ) :
    ((d.link n p c).node_array t).ref_bit = (d.node_array t).ref_bit := by
  simp only [link, update]
  split <;> split <;> simp only [setChild_ref_bit]

theorem link_child_of_ne {t : ℕ} (ht : t ≠ n) (b : Bool) :
    ((d.link n p c).node_array t).child b =
      if t = p.toNat ∧ b = keyBit (d.node_array n).key (d.node_array p.toNat).ref_bit
      then BitVec.ofNat 16 n else (d.node_array t).child b := by
  rw [link, update_of_ne _ _ ht]
  by_cases htp : t = p.toNat
  · rw [htp, update_self, setChild_child]
    simp only [true_and]
  · rw [update_of_ne _ _ htp, if_neg (fun h => htp h.1)]

theorem link_child_self (hp : p.toNat ≠ n) (b : Bool) :
    ((d.link n p c).node_array n).child b =
      if b = keyBit (d.node_array n).key (d.node_array c.toNat).ref_bit then c
      else (d.node_array n).child b := by
  have href : ∀ i s, ((d.update p.toNat (·.setChild s i)).node_array c.toNat).ref_bit =
      (d.node_array c.toNat).ref_bit := by
    intro i s
    by_cases hcp : c.toNat = p.toNat
    · rw [hcp, update_self, setChild_ref_bit]
    · rw [update_of_ne _ _ hcp]
  simp only [link]
  rw [update_self, setChild_child, href, update_of_ne _ _ (Ne.symm hp)]

theorem Represents.link (h : Represents d T n) (hcount : (n : ℤ) ≤ d.node_count.toInt)
    (hkey : (d.node_array n).key.length < 2 ^ 16)
    (href : (d.node_array n).ref_bit.toInt = (r : ℤ) - 1)
    (hfresh : ∀ b, (d.node_array n).child b = BitVec.ofNat 16 n) (hp : p.toNat < n)
    (hc : c.toNat = T.next (bits (d.node_array n).key) p.toNat) :
    Represents (d.link n p c) (T.insert (bits (d.node_array n).key) n r p.toNat) (n + 1) := by
  have hsmall := h.small
  have hself : (BitVec.ofNat 16 n).toNat = n := by
    rw [BitVec.toNat_ofNat]
    omega
  have hnext : T.next (bits (d.node_array n).key) p.toNat < n := h.closed _ hp _
  constructor
  · rw [link_node_count]
    omega
  · exact hsmall
  · intro t ht
    rw [link_ref_bit]
    by_cases htn : t = n
    · rw [htn, Trie.insert_ref_self, href]
    · rw [Trie.insert_ref_of_lt (by omega), h.ref t (by omega)]
  · intro t ht b
    by_cases htn : t = n
    · rw [htn, link_child_self (by omega), Trie.insert_child_self, h.keyBit_eq_bits hkey (by omega),
        hc, hfresh]
      split
      · exact hc
      · exact hself
    · rw [link_child_of_ne htn, Trie.insert_child_of_lt (by omega), h.keyBit_eq_bits hkey hp]
      split
      · exact hself
      · exact h.child t (by omega) b
  · intro t ht b
    by_cases htn : t = n
    · rw [htn, Trie.insert_child_self]
      split <;> omega
    · rw [Trie.insert_child_of_lt (by omega)]
      have := h.closed t (by omega) b
      split <;> omega

end Link

theorem Building.root_next {d₀ d : ResNintendoWareDictionary} {T : Trie} {n : ℕ}
    (h : Building d₀ d T n) {q : ℕ → Bool} (hq : q 0 = false) :
    (d.node_array 0).left_node.toNat = T.next q 0 := by
  obtain ⟨hpos, hroot, -⟩ := h.built.bounds
  rw [Trie.next, hroot, hq]
  exact h.represents.child 0 hpos false

section Step

variable {d₀ d : ResNintendoWareDictionary} {T : Trie} {n fuel : ℕ} (hv : d₀.Valid)
  (h : Building d₀ d T n)
include hv h

theorem Building.insertNode_spec (hn : n ≤ d₀.node_count.toNat) {y m : ℕ}
    (hs : T.Search (keyBits d₀ n) 0 y) (hd : FirstDiff (keyBits d₀ n) (keyBits d₀ y) (m + 1))
    (hm : m + 1 < 2 ^ 19) (hfuel : 2 ^ 19 ≤ fuel) :
    ∃ d' T', insertNode fuel d n (BitVec.ofNat 32 m) = some (true, d') ∧
      Building d₀ d' T' (n + 1) := by
  obtain ⟨hpos, hroot, hclosed⟩ := h.built.bounds
  have hkey : ((d.setRef n (BitVec.ofNat 32 m)).node_array n).key = (d₀.node_array n).key := by
    rw [setRef, update_self, h.keys]
  have hother : ∀ t, t ≠ n → (d.setRef n (BitVec.ofNat 32 m)).node_array t = d.node_array t :=
    fun t ht => update_of_ne _ _ ht
  have href : (BitVec.ofNat 32 m).toInt = ((m + 1 : ℕ) : ℤ) - 1 := by
    rw [BitVec.toInt_eq_toNat_of_lt (by rw [BitVec.toNat_ofNat]; omega), BitVec.toNat_ofNat]
    omega
  have hnpos : BitVec.ofNat 32 m ≠ cNPos := by
    intro he
    have hneg : cNPos.toInt = -1 := by decide
    rw [he, hneg] at href
    omega
  have hrep : Represents (d.setRef n (BitVec.ofNat 32 m)) T n :=
    h.represents.congr rfl (fun t ht => hother t (by omega))
  have hleft : ((d.setRef n (BitVec.ofNat 32 m)).node_array 0).left_node.toNat =
      T.next (bits (d₀.node_array n).key) 0 := by
    rw [hother 0 (by omega)]
    exact h.root_next (bits_zero _)
  obtain ⟨p, c, hloc, hl, hc⟩ := hrep.findLocation_spec (hv.short n hn) href fuel hpos
    (show (0 : BitVec 16).toNat = 0 from rfl) hleft (by omega) (by omega)
  obtain ⟨hpn, -⟩ := hl.fits hclosed hpos
  refine ⟨(d.setRef n (BitVec.ofNat 32 m)).link n p c, T.insert (keyBits d₀ n) n (m + 1) p.toNat,
    ?_, ?_⟩
  · rw [insertNode]
    simp only
    rw [if_neg hnpos, hrep.node_eq (by rw [hleft]; exact hclosed 0 hpos _), hkey]
    simp only [Option.bind_eq_bind, Option.bind_some]
    rw [hloc]
    simp only [Option.bind_some]
  · have hint := hv.toInt_eq
    constructor
    · have hlink := hrep.link (r := m + 1) (p := p) (c := c)
      rw [hkey] at hlink
      apply hlink
      · rw [show (d.setRef n (BitVec.ofNat 32 m)).node_count = d₀.node_count from h.count]
        omega
      · exact hv.short n hn
      · rw [setRef, update_self]
        exact href
      · intro b
        rw [setRef, update_self]
        exact h.fresh n (le_refl n) hn b
      · exact hpn
      · exact hc
    · exact Built.insert h.built hs hd hl
    · intro t
      rw [link_key]
      by_cases htn : t = n
      · rw [htn, hkey]
      · rw [hother t htn, h.keys]
    · exact h.count
    · intro t ht htc b
      rw [link_child_of_ne (by omega), if_neg (by omega), hother t (by omega)]
      exact h.fresh t (by omega) htc b
    · intro t ht
      by_cases htn : t = n
      · rw [htn, Trie.insert_ref_self]
        exact hm
      · rw [Trie.insert_ref_of_lt (by omega)]
        exact h.bound t (by omega)

theorem Building.buildNode_spec (hn : n ≤ d₀.node_count.toNat) (hfuel : 2 ^ 19 ≤ fuel) :
    ∃ d' T', buildNode fuel d n = some (true, d') ∧ Building d₀ d' T' (n + 1) := by
  obtain ⟨hpos, hroot, hclosed⟩ := h.built.bounds
  have hbit : ∀ t < n, 0 < T.ref t → keyBit (d₀.node_array n).key (d.node_array t).ref_bit =
      bits (d₀.node_array n).key (T.ref t) :=
    fun t ht _ => h.represents.keyBit_eq_bits (hv.short n hn) ht
  have hleft := h.root_next (bits_zero (d₀.node_array n).key)
  obtain ⟨x, hx, hxn, hs⟩ := h.represents.traverse_spec hbit h.bound fuel hpos hleft (by omega)
  have hne : keyBits d₀ n ≠ keyBits d₀ x.toNat := by
    intro he
    have := hv.distinct n hn x.toNat (by omega)
      (bits_injective (hv.nulFree n hn) (hv.nulFree _ (by omega)) he)
    omega
  obtain ⟨r, hd⟩ := exists_firstDiff hne
  obtain ⟨m, rfl, heq, hdiff, hm⟩ := firstDiff_bit hd
  have hshort := hv.short n hn
  have hshort' := hv.short x.toNat (by omega)
  have hmax : (if keyLength (d₀.node_array x.toNat).key < keyLength (d₀.node_array n).key
      then keyLength (d₀.node_array n).key else keyLength (d₀.node_array x.toNat).key).toNat =
      max (d₀.node_array n).key.length (d₀.node_array x.toNat).key.length := by
    have hlt : keyLength (d₀.node_array x.toNat).key < keyLength (d₀.node_array n).key ↔
        (d₀.node_array x.toNat).key.length < (d₀.node_array n).key.length := by
      rw [BitVec.lt_def, keyLength_toNat hshort, keyLength_toNat hshort']
    by_cases hc : (d₀.node_array x.toNat).key.length < (d₀.node_array n).key.length
    · rw [if_pos (hlt.mpr hc), keyLength_toNat hshort]
      omega
    · rw [if_neg (by rw [hlt]; exact hc), keyLength_toNat hshort']
      omega
  obtain ⟨d', T', hins, hb⟩ := h.insertNode_spec hv hn hs hd (by omega) hfuel
  refine ⟨d', T', ?_, hb⟩
  rw [buildNode, h.keys n, h.represents.node_eq (by rw [hleft]; exact hclosed 0 hpos _)]
  simp only [Option.bind_eq_bind, Option.bind_some]
  rw [hx]
  simp only [Option.bind_some]
  rw [h.represents.node_eq hxn, Option.bind_some, h.keys x.toNat, if_neg]
  · rw [findRefBit_spec hshort hshort' (by rw [hmax]; exact hm) heq hdiff fuel (by simp)
      (by simp only [BitVec.ofNat_eq_ofNat, BitVec.toNat_ofNat]; omega), Option.bind_some]
    exact hins
  · intro hz
    have := congrArg BitVec.toNat hz
    rw [hmax] at this
    have hz' : (0 : BitVec 16).toNat = 0 := by decide
    omega

end Step

theorem buildLoop_spec {d₀ : ResNintendoWareDictionary} (hv : d₀.Valid) {fuel : ℕ}
    (hfuel : 2 ^ 19 ≤ fuel) (k : ℕ) {d : ResNintendoWareDictionary} {T : Trie} {n : ℕ}
    (h : Building d₀ d T n) (hk : n + k = d₀.node_count.toNat + 1) :
    ∃ d' T', buildLoop fuel (List.range' n k) d = some (true, d') ∧
      Building d₀ d' T' (d₀.node_count.toNat + 1) := by
  induction k generalizing d T n with
  | zero =>
    refine ⟨d, T, rfl, ?_⟩
    rwa [← hk]
  | succ k ih =>
    obtain ⟨d₁, T₁, hnode, h₁⟩ := h.buildNode_spec hv (by omega) hfuel
    obtain ⟨d', T', hrest, h'⟩ := ih h₁ (by omega)
    refine ⟨d', T', ?_, h'⟩
    rw [List.range'_succ, buildLoop, hnode]
    exact hrest

theorem building_initNodes {d : ResNintendoWareDictionary} (hv : d.Valid) :
    ∃ T, Building d d.initNodes T 1 := by
  have hint := hv.toInt_eq
  have hsmall := hv.small
  have hself : ∀ t, t ≤ d.node_count.toNat → ∀ b,
      (d.initNodes.node_array t).child b = BitVec.ofNat 16 t := by
    intro t ht b
    simp only [initNodes, if_pos (show t < d.node_count.toNat + 1 by omega)]
    cases b <;> rfl
  refine ⟨⟨fun _ => 0, fun _ _ => 0⟩, ?_⟩
  constructor
  · constructor
    · rw [show d.initNodes.node_count = d.node_count from rfl]
      omega
    · exact hsmall
    · intro t ht
      obtain rfl : t = 0 := by omega
      simp only [initNodes, if_pos (show 0 < d.node_count.toNat + 1 by omega)]
      decide
    · intro t ht b
      obtain rfl : t = 0 := by omega
      rw [hself 0 (by omega)]
      rfl
    · intro t ht b
      exact Nat.one_pos
  · exact Built.root rfl (fun _ => rfl)
  · intro t
    simp only [initNodes]
    split <;> rfl
  · rfl
  · intro t ht htc b
    exact hself t htc b
  · intro t ht
    simp only
    omega

theorem Build_spec {d : ResNintendoWareDictionary} (hv : d.Valid) {fuel : ℕ}
    (hfuel : 2 ^ 19 ≤ fuel) (hcount : 0 < d.node_count.toInt) :
    ∃ d' T, Build fuel d = some (true, d') ∧ Building d d' T (d.node_count.toNat + 1) := by
  obtain ⟨T, h⟩ := building_initNodes hv
  obtain ⟨d', T', hloop, h'⟩ := buildLoop_spec hv hfuel d.node_count.toNat h (by omega)
  refine ⟨d', T', ?_, h'⟩
  rw [Build, if_neg (by omega), hloop]

end Awn.ResNintendoWareDictionary
