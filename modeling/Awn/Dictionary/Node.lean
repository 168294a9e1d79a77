import Awn.Patricia.Trie
import Mathlib.Data.List.GetD
import Mathlib.Data.Nat.Notation
import Mathlib.Tactic.Ring

/-!
`vp::res::ResNintendoWareDictionary`: a root node and `node_count` nodes behind it, each with
a bit to test, two children given by index, and a key.
-/

namespace Awn

structure ResDicNode where
  ref_bit : BitVec 32
  left_node : BitVec 16
  right_node : BitVec 16
  /-- The characters behind the two length bytes. -/
  key : List (BitVec 8)

def ResDicNode.child (node : ResDicNode) (side : Bool) : BitVec 16 :=
  if side then node.right_node else node.left_node

def ResDicNode.setChild (node : ResDicNode) (side : Bool) (index : BitVec 16) : ResDicNode :=
  if side then { node with right_node := index } else { node with left_node := index }

structure ResNintendoWareDictionary where
  node_count : BitVec 32
  node_array : ℕ → ResDicNode

namespace ResNintendoWareDictionary

def cNPos : BitVec 32 := BitVec.ofInt 32 (-1)

def cInvalidEntryIndex : BitVec 32 := 0xffffffff

def node (d : ResNintendoWareDictionary) (index : BitVec 16) : Option ResDicNode :=
  if 0 ≤ index.toInt ∧ index.toInt ≤ d.node_count.toInt then some (d.node_array index.toNat)
  else none

def update (d : ResNintendoWareDictionary) (i : ℕ) (f : ResDicNode → ResDicNode) :
    ResNintendoWareDictionary :=
  { d with node_array := fun t => if t = i then f (d.node_array t) else d.node_array t }

def keyLength (key : List (BitVec 8)) : BitVec 16 := BitVec.ofNat 16 key.length

def keyChar (key : List (BitVec 8)) (pos : BitVec 32) : BitVec 8 :=
  ([(keyLength key).setWidth 8, (keyLength key >>> 8).setWidth 8] ++ key ++ [0]).getD pos.toNat 0

def charBit (c : BitVec 8) (ref : BitVec 32) : Bool :=
  ((c.signExtend 32).sshiftRight (ref &&& 0x7).toNat &&& 0x1) != 0

def keyBit (key : List (BitVec 8)) (ref : BitVec 32) : Bool :=
  let ref_length := ref >>> 3
  let key_length := (keyLength key).setWidth 32
  if ref_length < key_length then charBit (keyChar key (key_length + ~~~ref_length + 2)) ref
  else false

def queryBit (key : List (BitVec 8)) (ref : BitVec 32) : Bool :=
  let ref_len := ref >>> 3
  let len := BitVec.ofNat 32 key.length
  if ref_len < len then charBit (key.getD (len + ~~~ref_len).toNat 0) ref else false

def traverse : ℕ → ResNintendoWareDictionary → (BitVec 32 → Bool) → BitVec 32 → BitVec 16 →
    BitVec 32 → Option (BitVec 16)
  | 0, _, _, _, _, _ => none
  | fuel + 1, d, bit, last_ref_iter, iter, ref_iter =>
    if last_ref_iter.slt ref_iter then do
      let node ← d.node iter
      let next := node.child (bit ref_iter)
      let next_node ← d.node next
      traverse fuel d bit ref_iter next next_node.ref_bit
    else
      some iter

/-- The first bit that tells two keys apart; `some none` when there is none below `max_length`. -/
def findRefBit : ℕ → List (BitVec 8) → List (BitVec 8) → BitVec 16 → BitVec 32 →
    Option (Option (BitVec 32))
  | 0, _, _, _, _ => none
  | fuel + 1, iter_key, insert_key, max_length, new_ref =>
    if keyBit iter_key new_ref != keyBit insert_key new_ref then
      some (some new_ref)
    else if max_length.setWidth 32 <<< 3 = new_ref + 1 ∨ (new_ref + 1).slt 0 then
      some none
    else
      findRefBit fuel iter_key insert_key max_length (new_ref + 1)

def findLocation : ℕ → ResNintendoWareDictionary → List (BitVec 8) → BitVec 32 → BitVec 16 →
    BitVec 16 → BitVec 32 → BitVec 32 → Option (BitVec 16 × BitVec 16)
  | 0, _, _, _, _, _, _, _ => none
  | fuel + 1, d, iter_key, new_ref, parent_iter, last_index, last_ref_iter, ref_iter =>
    if last_ref_iter.slt ref_iter ∧ ref_iter.slt new_ref then do
      let child ← d.node last_index
      let next := child.child (keyBit iter_key ref_iter)
      let next_node ← d.node next
      findLocation fuel d iter_key new_ref last_index next ref_iter next_node.ref_bit
    else
      some (parent_iter, last_index)

def link (d : ResNintendoWareDictionary) (i : ℕ) (parent_iter child_iter : BitVec 16) :
    ResNintendoWareDictionary :=
  let iter_key := (d.node_array i).key
  let side0 := keyBit iter_key (d.node_array parent_iter.toNat).ref_bit
  let d := d.update parent_iter.toNat (·.setChild side0 (BitVec.ofNat 16 i))
  let side1 := keyBit iter_key (d.node_array child_iter.toNat).ref_bit
  d.update i (·.setChild side1 child_iter)

def setRef (d : ResNintendoWareDictionary) (i : ℕ) (new_ref : BitVec 32) :
    ResNintendoWareDictionary :=
  d.update i ({ · with ref_bit := new_ref })

def insertNode (fuel : ℕ) (d : ResNintendoWareDictionary) (i : ℕ) (new_ref : BitVec 32) :
    Option (Bool × ResNintendoWareDictionary) :=
  let d := d.setRef i new_ref
  if new_ref = cNPos then
    some (false, d)
  else do
    let child ← d.node (d.node_array 0).left_node
    let (parent_iter, child_iter) ← findLocation fuel d (d.node_array i).key new_ref 0
      (d.node_array 0).left_node (d.node_array 0).ref_bit child.ref_bit
    some (true, d.link i parent_iter child_iter)

def buildNode (fuel : ℕ) (d : ResNintendoWareDictionary) (i : ℕ) :
    Option (Bool × ResNintendoWareDictionary) := do
  let iter_key := (d.node_array i).key
  let first ← d.node (d.node_array 0).left_node
  let insert_iter ← traverse fuel d (keyBit iter_key) (d.node_array 0).ref_bit
    (d.node_array 0).left_node first.ref_bit
  let insert_node ← d.node insert_iter
  let insert_key := insert_node.key
  let max_length :=
    if keyLength insert_key < keyLength iter_key then keyLength iter_key else keyLength insert_key
  if max_length = 0 then
    some (false, d)
  else
    match ← findRefBit fuel iter_key insert_key max_length 0 with
    | none => some (false, d.setRef i cNPos)
    | some new_ref => insertNode fuel d i new_ref

def buildLoop (fuel : ℕ) : List ℕ → ResNintendoWareDictionary →
    Option (Bool × ResNintendoWareDictionary)
  | [], d => some (true, d)
  | i :: is, d =>
    match buildNode fuel d i with
    | none => none
    | some (false, d) => some (false, d)
    | some (true, d) => buildLoop fuel is d

def initNodes (d : ResNintendoWareDictionary) : ResNintendoWareDictionary :=
  { d with
    node_array := fun i =>
      if i < d.node_count.toNat + 1 then
        { ref_bit := cNPos, left_node := BitVec.ofNat 16 i, right_node := BitVec.ofNat 16 i,
          key := (d.node_array i).key }
      else d.node_array i }

def Build (fuel : ℕ) (d : ResNintendoWareDictionary) : Option (Bool × ResNintendoWareDictionary) :=
  if d.node_count.toInt ≤ 0 then
    some (true, d)
  else
    buildLoop fuel (List.range' 1 d.node_count.toNat) d.initNodes

def entryIndex (index : BitVec 16) : BitVec 32 :=
  let ptr_diff : BitVec 64 := 0x8 + 0x10 * index.signExtend 64 - 0x18
  if ~~~ptr_diff &&& 0xffffffff0 != 0 then (ptr_diff.sshiftRight 4).setWidth 32
  else cInvalidEntryIndex

def checkKey (node_key key : List (BitVec 8)) (index : BitVec 16) : BitVec 32 :=
  let len := BitVec.ofNat 32 key.length
  let key_len := keyLength node_key
  let max_len : BitVec 16 := if key_len.setWidth 32 ≤ len then key_len else len.setWidth 16
  if max_len = 0 ∧ key_len.setWidth 32 < len then BitVec.ofInt 32 (-1)
  else if node_key.take max_len.toNat ≠ key.take max_len.toNat then cInvalidEntryIndex
  else if len < key_len.setWidth 32 then cInvalidEntryIndex
  else if key_len.setWidth 32 < len then cInvalidEntryIndex
  else entryIndex index

def TryGetEntryIndexByKey (fuel : ℕ) (d : ResNintendoWareDictionary) (key : List (BitVec 8)) :
    Option (BitVec 32) := do
  let first ← d.node (d.node_array 0).left_node
  let index ← traverse fuel d (queryBit key) (d.node_array 0).ref_bit
    (d.node_array 0).left_node first.ref_bit
  let node ← d.node index
  some (checkKey node.key key index)

end ResNintendoWareDictionary

end Awn

namespace Awn.ResNintendoWareDictionary

def bit (key : List (BitVec 8)) (m : ℕ) : Bool :=
  decide (m / 8 < key.length) && (key.getD (key.length - 1 - m / 8) 0).getLsbD (m % 8)

def bits (key : List (BitVec 8)) : ℕ → Bool
  | 0 => false
  | m + 1 => bit key m

def NulFree (key : List (BitVec 8)) : Prop := ∀ c ∈ key, c ≠ 0

instance (key : List (BitVec 8)) : Decidable (NulFree key) :=
  inferInstanceAs (Decidable (∀ c ∈ key, c ≠ 0))

theorem charBit_eq (c : BitVec 8) (ref : BitVec 32) : charBit c ref = c.getLsbD (ref.toNat % 8) := by
  have hand : (ref &&& 0x7).toNat = ref.toNat % 8 := by
    rw [BitVec.toNat_and]
    exact Nat.and_two_pow_sub_one_eq_mod ref.toNat 3
  have hlt : ref.toNat % 8 < 8 := Nat.mod_lt _ (by omega)
  have hone : ∀ x : BitVec 32, (x &&& 0x1 != 0) = x.getLsbD 0 := by
    intro x
    rw [Bool.eq_iff_iff, bne_iff_ne, ne_eq, ← BitVec.toNat_inj, BitVec.toNat_and]
    have := Nat.and_two_pow_sub_one_eq_mod x.toNat 1
    have hx := BitVec.getLsbD_eq_getElem (x := x) (i := 0) (by omega)
    simp only [Nat.pow_one, BitVec.getLsbD, Nat.testBit_zero, decide_eq_true_eq] at *
    have h1 : (1 : BitVec 32).toNat = 2 - 1 := by decide
    have h0 : (0 : BitVec 32).toNat = 0 := by decide
    rw [h1, this, h0]
    omega
  rw [charBit, hone, hand, BitVec.getLsbD_sshiftRight, BitVec.getLsbD_signExtend]
  generalize ref.toNat % 8 = k at hlt
  have hk : k + 0 < 32 := by omega
  have h32 : ¬32 ≤ 0 := by omega
  rw [decide_eq_false h32, if_pos hk, decide_eq_true (show k + 0 < 32 by omega), if_pos (by omega)]
  rfl

theorem shift_three (ref : BitVec 32) : (ref >>> 3).toNat = ref.toNat / 8 := by
  rw [BitVec.toNat_ushiftRight, Nat.shiftRight_eq_div_pow]

theorem keyLength_toNat {key : List (BitVec 8)} (hk : key.length < 2 ^ 16) :
    (keyLength key).toNat = key.length := by
  rw [keyLength, BitVec.toNat_ofNat, Nat.mod_eq_of_lt hk]

theorem keyLength_setWidth {key : List (BitVec 8)} (hk : key.length < 2 ^ 16) :
    ((keyLength key).setWidth 32).toNat = key.length := by
  rw [BitVec.toNat_setWidth, keyLength_toNat hk]
  omega

theorem keyBit_eq {key : List (BitVec 8)} (hk : key.length < 2 ^ 16) (ref : BitVec 32) :
    keyBit key ref = bit key ref.toNat := by
  have hlen := keyLength_setWidth hk
  have hs := shift_three ref
  rw [keyBit, bit]
  by_cases hlt : ref.toNat / 8 < key.length
  · have hcond : ref >>> 3 < (keyLength key).setWidth 32 := by
      rw [BitVec.lt_def, hs, hlen]
      exact hlt
    rw [if_pos hcond, charBit_eq, decide_eq_true hlt, Bool.true_and]
    congr 1
    have hpos : ((keyLength key).setWidth 32 + ~~~(ref >>> 3) + 2).toNat =
        key.length - 1 - ref.toNat / 8 + 2 := by
      simp only [BitVec.toNat_add, BitVec.toNat_not, hlen, hs, BitVec.ofNat_eq_ofNat,
        BitVec.toNat_ofNat]
      omega
    rw [keyChar, hpos]
    simp only [List.cons_append, List.nil_append, List.getD_cons_succ]
    rw [List.getD_append _ _ _ _ (by omega)]
  · have hcond : ¬ref >>> 3 < (keyLength key).setWidth 32 := by
      rw [BitVec.lt_def, hs, hlen]
      exact hlt
    rw [if_neg hcond, decide_eq_false hlt, Bool.false_and]

theorem queryBit_eq {key : List (BitVec 8)} (hk : key.length < 2 ^ 32) (ref : BitVec 32) :
    queryBit key ref = bit key ref.toNat := by
  have hs := shift_three ref
  have hlen : (BitVec.ofNat 32 key.length).toNat = key.length := by
    rw [BitVec.toNat_ofNat, Nat.mod_eq_of_lt hk]
  rw [queryBit, bit]
  by_cases hlt : ref.toNat / 8 < key.length
  · have hcond : ref >>> 3 < BitVec.ofNat 32 key.length := by
      rw [BitVec.lt_def, hs, hlen]
      exact hlt
    rw [if_pos hcond, charBit_eq, decide_eq_true hlt, Bool.true_and]
    congr 2
    simp only [BitVec.toNat_add, BitVec.toNat_not, hlen, hs]
    omega
  · have hcond : ¬ref >>> 3 < BitVec.ofNat 32 key.length := by
      rw [BitVec.lt_def, hs, hlen]
      exact hlt
    rw [if_neg hcond, decide_eq_false hlt, Bool.false_and]

theorem bit_of_le {key : List (BitVec 8)} {m : ℕ} (h : 8 * key.length ≤ m) : bit key m = false := by
  rw [bit, decide_eq_false (by omega), Bool.false_and]

theorem exists_bit_of_nulFree {key : List (BitVec 8)} (hk : NulFree key) (hne : 0 < key.length) :
    ∃ m, key.length - 1 = m / 8 ∧ bit key m = true := by
  have hmem : key.getD 0 0 ∈ key := by
    rw [List.getD_eq_getElem _ _ hne]
    exact List.getElem_mem hne
  obtain ⟨k, hk8, hbit⟩ : ∃ k < 8, (key.getD 0 0).getLsbD k = true := by
    by_contra hno
    push Not at hno
    apply hk _ hmem
    apply BitVec.eq_of_getLsbD_eq
    intro i hi
    rw [Bool.eq_false_iff.mpr (hno i hi), BitVec.ofNat_eq_ofNat, BitVec.getLsbD_zero]
  refine ⟨8 * (key.length - 1) + k, by omega, ?_⟩
  have hdiv : (8 * (key.length - 1) + k) / 8 = key.length - 1 := by omega
  have hmod : (8 * (key.length - 1) + k) % 8 = k := by omega
  rw [bit, hdiv, hmod, decide_eq_true (by omega), Nat.sub_self, hbit]
  rfl

theorem bit_injective {a b : List (BitVec 8)} (ha : NulFree a) (hb : NulFree b)
    (h : ∀ m, bit a m = bit b m) : a = b := by
  have hle : ∀ {a b : List (BitVec 8)}, NulFree b → (∀ m, bit a m = bit b m) →
      b.length ≤ a.length := by
    intro a b hb h
    by_contra hlt
    obtain ⟨m, hm, hbit⟩ := exists_bit_of_nulFree hb (by omega)
    rw [← h m, bit, decide_eq_false (by omega), Bool.false_and] at hbit
    exact Bool.false_ne_true hbit
  have hlen : a.length = b.length := Nat.le_antisymm (hle ha fun m => (h m).symm) (hle hb h)
  apply List.ext_getElem hlen
  intro i hia hib
  apply BitVec.eq_of_getLsbD_eq
  intro k hk
  have hbit := h (8 * (a.length - 1 - i) + k)
  have hdiv : (8 * (a.length - 1 - i) + k) / 8 = a.length - 1 - i := by omega
  have hmod : (8 * (a.length - 1 - i) + k) % 8 = k := by omega
  have hidx : a.length - 1 - (a.length - 1 - i) = i := by omega
  rw [bit, bit, hdiv, hmod, ← hlen, decide_eq_true (by omega), hidx,
    List.getD_eq_getElem _ _ hia, List.getD_eq_getElem _ _ hib] at hbit
  simpa using hbit

theorem bits_injective {a b : List (BitVec 8)} (ha : NulFree a) (hb : NulFree b)
    (h : bits a = bits b) : a = b := by
  apply bit_injective ha hb
  intro m
  exact congrFun h (m + 1)

end Awn.ResNintendoWareDictionary
