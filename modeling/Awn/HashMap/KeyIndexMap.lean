import Mathlib.Data.Finset.Card
import Mathlib.Data.List.Find
import Awn.Calls.Throughout
import Awn.HashMap.Circular

/-!
`vp::util::FixedHashMap` and `FixedKeyIndexMap`: entries in an array, each where the search from the
base index of its hash has found the first free one.
-/

namespace Awn

structure FixedKeyIndexMap.Index where
  hash : BitVec 32
  index : BitVec 32

structure FixedHashMap where
  m_count : BitVec 32
  m_array : ℕ → FixedKeyIndexMap.Index

namespace FixedHashMap

open FixedKeyIndexMap (Index)

/-- It lacks a return type in the source. -/
def GetBaseIndex (Size hash : BitVec 32) : BitVec 32 :=
  let base_div := if Size ≠ 0 then hash / Size else 0
  hash - base_div * Size

variable (fuel : ℕ) (Size : BitVec 32) (map : FixedHashMap)

def search (p : Index → Bool) (hash : BitVec 32) : Option (Option ℕ) :=
  Circular.search (fun i => p (map.m_array i)) Size.toNat (GetBaseIndex Size hash).toNat fuel
    (GetBaseIndex Size hash).toNat

/-- The slot of the entry; `none` where an assertion fails. -/
def AddEntry (hash : BitVec 32) : Option (ℕ × FixedHashMap) :=
  if map.m_count < Size ∧ hash ≠ 0 then
    (map.search fuel Size (·.hash = 0) hash).join.map fun i =>
      (i,
        { m_count := map.m_count + 1
          m_array := Function.update map.m_array i { map.m_array i with hash := hash } })
  else none

def TryGetParentByHash (hash : BitVec 32) : Option (Option ℕ) :=
  map.search fuel Size (hash = ·.hash) hash

def Clear : FixedHashMap where
  m_count := 0
  m_array i := if i < Size.toNat then { map.m_array i with hash := 0 } else map.m_array i

end FixedHashMap

namespace FixedKeyIndexMap

def cInvalidEntryIndex : BitVec 32 := 0xffffffff

variable (fuel : ℕ) (Size : BitVec 32) (m_hash_map : FixedHashMap)

def AddEntry (hash index : BitVec 32) : Option FixedHashMap :=
  (m_hash_map.AddEntry fuel Size hash).map fun (entry, m_hash_map) =>
    { m_hash_map with
      m_array := Function.update m_hash_map.m_array entry
        { m_hash_map.m_array entry with index := index } }

def TryGetIndexByKey (hash : BitVec 32) : Option (BitVec 32) :=
  (m_hash_map.TryGetParentByHash fuel Size hash).map fun
    | some entry => (m_hash_map.m_array entry).index
    | none => cInvalidEntryIndex

end FixedKeyIndexMap

def firstAdded (added : List (BitVec 32 × BitVec 32)) (hash : BitVec 32) : Option (BitVec 32) :=
  (added.find? fun entry => hash = entry.1).map (·.2)

namespace FixedHashMap

def places (Size hash : BitVec 32) : List ℕ :=
  Circular.order Size.toNat (GetBaseIndex Size hash).toNat

structure Holds (Size : BitVec 32) (map : FixedHashMap) (added : List (BitVec 32 × BitVec 32)) :
    Prop where
  count : map.m_count.toNat = added.length
  used : ((Finset.range Size.toNat).filter fun i => (map.m_array i).hash ≠ 0).card = added.length
  reached : ∀ i < Size.toNat, (map.m_array i).hash ≠ 0 →
    i ∈ (places Size (map.m_array i).hash).takeWhile fun j => (map.m_array j).hash ≠ 0
  first : ∀ hash ≠ 0, ((places Size hash).find? fun i => hash = (map.m_array i).hash).map
    (fun i => (map.m_array i).index) = firstAdded added hash

variable {fuel : ℕ} {Size hash index : BitVec 32} {map : FixedHashMap}
  {added : List (BitVec 32 × BitVec 32)}

theorem GetBaseIndex_toNat (hSize : 0 < Size.toNat) (hash : BitVec 32) :
    (GetBaseIndex Size hash).toNat = hash.toNat % Size.toNat := by
  have hne : Size ≠ 0 := by
    rintro rfl
    exact absurd hSize (by decide)
  have hmul : hash.toNat / Size.toNat * Size.toNat ≤ hash.toNat := Nat.div_mul_le_self _ _
  have hmod := Nat.mod_add_div' hash.toNat Size.toNat
  have hlt := hash.isLt
  rw [GetBaseIndex, if_pos hne, BitVec.toNat_sub, BitVec.toNat_mul, BitVec.toNat_udiv]
  rw [Nat.mod_eq_of_lt (a := hash.toNat / Size.toNat * Size.toNat) (by omega)]
  omega

theorem GetBaseIndex_lt (hSize : 0 < Size.toNat) (hash : BitVec 32) :
    (GetBaseIndex Size hash).toNat < Size.toNat := by
  rw [GetBaseIndex_toNat hSize]
  exact Nat.mod_lt _ hSize

theorem search_eq (hSize : 0 < Size.toNat) (hfuel : Size.toNat ≤ fuel) (p : FixedKeyIndexMap.Index → Bool)
    (hash : BitVec 32) :
    map.search fuel Size p hash = some ((places Size hash).find? fun i => p (map.m_array i)) :=
  Circular.search_eq (GetBaseIndex_lt hSize hash) hfuel

theorem mem_places (hSize : 0 < Size.toNat) {i : ℕ} : i ∈ places Size hash ↔ i < Size.toNat :=
  Circular.mem_order (GetBaseIndex_lt hSize hash)

theorem holds_empty (h : ∀ i < Size.toNat, (map.m_array i).hash = 0) (hcount : map.m_count = 0)
    (hSize : 0 < Size.toNat) : map.Holds Size [] where
  count := by
    rw [hcount]
    rfl
  used := by
    rw [List.length_nil, Finset.card_eq_zero, Finset.filter_eq_empty_iff]
    intro i hi
    rw [not_not]
    exact h i (Finset.mem_range.mp hi)
  reached i hi hne := absurd (h i hi) hne
  first hash hne := by
    rw [firstAdded, List.find?_nil, Option.map_none, Option.map_eq_none_iff, List.find?_eq_none]
    intro i hi heq
    rw [decide_eq_true_eq, h i ((mem_places hSize).mp hi)] at heq
    exact hne heq

theorem Holds.Clear (hSize : 0 < Size.toNat) : (map.Clear Size).Holds Size [] := by
  apply holds_empty _ rfl hSize
  intro i hi
  simp only [FixedHashMap.Clear, if_pos hi]

namespace Holds

theorem exists_free (h : map.Holds Size added) (hlt : added.length < Size.toNat) :
    ∃ i < Size.toNat, (map.m_array i).hash = 0 := by
  by_contra hall
  push Not at hall
  have hused := h.used
  rw [Finset.filter_true_of_mem fun i hi => hall i (Finset.mem_range.mp hi), Finset.card_range] at hused
  omega

theorem exists_slot (h : map.Holds Size added) (hlt : added.length < Size.toNat) (hash : BitVec 32) :
    ∃ i < Size.toNat, (map.m_array i).hash = 0 ∧ ∃ as bs, places Size hash = as ++ i :: bs ∧
      (∀ j ∈ as, (map.m_array j).hash ≠ 0) ∧
      (places Size hash).find? (fun i => (map.m_array i).hash = 0) = some i := by
  have hSize : 0 < Size.toNat := by omega
  obtain ⟨k, hk, hfree⟩ := h.exists_free hlt
  cases hfind : (places Size hash).find? fun i => (map.m_array i).hash = 0 with
  | none =>
    have hnone := List.find?_eq_none.mp hfind k ((mem_places hSize).mpr hk)
    rw [decide_eq_true_eq] at hnone
    exact absurd hfree hnone
  | some i =>
    obtain ⟨as, bs, hsplit, hi, has⟩ := Circular.exists_split hfind
    rw [decide_eq_true_eq] at hi
    refine ⟨i, ?_, hi, as, bs, hsplit, ?_, rfl⟩
    · have hplace : i ∈ places Size hash := by
        rw [hsplit]
        exact List.mem_append_right as List.mem_cons_self
      exact (mem_places hSize).mp hplace
    · intro j hj
      exact of_decide_eq_false (has j hj)

end Holds

def put (map : FixedHashMap) (i : ℕ) (entry : FixedKeyIndexMap.Index) : FixedHashMap where
  m_count := map.m_count + 1
  m_array := Function.update map.m_array i entry

section Put

variable {i : ℕ} (hi : i < Size.toNat) (hfree : (map.m_array i).hash = 0) (hhash : hash ≠ 0)

theorem put_same : (map.put i ⟨hash, index⟩).m_array i = ⟨hash, index⟩ := Function.update_self ..

theorem put_other {j : ℕ} (hj : j ≠ i) :
    (map.put i ⟨hash, index⟩).m_array j = map.m_array j := Function.update_of_ne hj _ _

include hhash

theorem put_hash_ne {j : ℕ} (hj : (map.m_array j).hash ≠ 0) :
    ((map.put i ⟨hash, index⟩).m_array j).hash ≠ 0 := by
  by_cases hji : j = i
  · rw [hji, put_same]
    exact hhash
  · rw [put_other hji]
    exact hj

include hfree

theorem Holds.put_first (h : map.Holds Size added) {as bs : List ℕ}
    (hsplit : places Size hash = as ++ i :: bs) (has : ∀ j ∈ as, (map.m_array j).hash ≠ 0)
    (hSize : 0 < Size.toNat) {key : BitVec 32} (hkey : key ≠ 0) :
    ((places Size key).find? fun j => key = ((map.put i ⟨hash, index⟩).m_array j).hash).map
      (fun j => ((map.put i ⟨hash, index⟩).m_array j).index) =
        firstAdded (added ++ [(hash, index)]) key := by
  have hold := h.first key hkey
  by_cases heq : key = hash
  · subst heq
    have hbefore : ∀ j ∈ as, (map.put i ⟨key, index⟩).m_array j = map.m_array j := by
      intro j hj
      apply put_other
      rintro rfl
      exact has _ hj hfree
    have hsame : as.find? (fun j => key = ((map.put i ⟨key, index⟩).m_array j).hash) =
        as.find? (fun j => key = (map.m_array j).hash) := by
      apply List.find?_congr
      intro j hj
      rw [hbefore j hj]
    rw [hsplit] at hold ⊢
    rw [List.find?_append] at hold ⊢
    rw [hsame, firstAdded, List.find?_append]
    cases hfind : as.find? fun j => key = (map.m_array j).hash with
    | some j =>
      rw [hfind, Option.some_or, Option.map_some, firstAdded] at hold
      obtain ⟨entry, hentry, hindex⟩ := Option.map_eq_some_iff.mp hold.symm
      rw [hentry, Option.some_or, Option.some_or, Option.map_some, Option.map_some,
        hbefore j (List.mem_of_find?_eq_some hfind), hindex]
    | none =>
      -- an entry with the hash would be reached in front of the free slot
      have hnone : added.find? (fun entry => key = entry.1) = none := by
        rw [hfind, Option.none_or, firstAdded] at hold
        cases hrest : (i :: bs).find? fun j => key = (map.m_array j).hash with
        | none =>
          rw [hrest, Option.map_none] at hold
          exact Option.map_eq_none_iff.mp hold.symm
        | some j =>
          have hj := List.find?_some hrest
          rw [decide_eq_true_eq] at hj
          have hplace : j ∈ places Size key := by
            rw [hsplit]
            exact List.mem_append_right as (List.mem_of_find?_eq_some hrest)
          have hreached := h.reached j ((mem_places hSize).mp hplace) (by rw [← hj]; exact hkey)
          rw [← hj, hsplit, Circular.takeWhile_split (fun j hj => decide_eq_true (has j hj))
            (decide_eq_false (not_not.mpr hfree))] at hreached
          have hmiss := List.find?_eq_none.mp hfind j hreached
          exact absurd (decide_eq_true hj) hmiss
      rw [hnone, Option.none_or, Option.none_or, List.find?_cons_of_pos (by rw [put_same]; simp),
        List.find?_cons_of_pos (by simp), Option.map_some, Option.map_some, put_same]
  · have hsame : (places Size key).find?
        (fun j => key = ((map.put i ⟨hash, index⟩).m_array j).hash) =
          (places Size key).find? (fun j => key = (map.m_array j).hash) := by
      apply List.find?_congr
      intro j _
      by_cases hji : j = i
      · rw [hji, put_same, hfree, decide_eq_false heq, decide_eq_false hkey]
      · rw [put_other hji]
    have hadded : firstAdded (added ++ [(hash, index)]) key = firstAdded added key := by
      rw [firstAdded, List.find?_append, List.find?_cons_of_neg (by simpa using heq), List.find?_nil,
        Option.or_none]
      rfl
    rw [hsame, hadded, ← hold]
    apply Option.map_congr
    intro j hj
    have hj' := List.find?_some hj
    rw [decide_eq_true_eq] at hj'
    rw [put_other]
    rintro rfl
    exact hkey (hj'.trans hfree)

include hi

theorem Holds.put_used (h : map.Holds Size added) :
    ((Finset.range Size.toNat).filter
      fun j => ((map.put i ⟨hash, index⟩).m_array j).hash ≠ 0).card = added.length + 1 := by
  have hinsert : ((Finset.range Size.toNat).filter
      fun j => ((map.put i ⟨hash, index⟩).m_array j).hash ≠ 0) =
        insert i ((Finset.range Size.toNat).filter fun j => (map.m_array j).hash ≠ 0) := by
    ext j
    rw [Finset.mem_insert, Finset.mem_filter, Finset.mem_filter, Finset.mem_range]
    by_cases hji : j = i
    · subst hji
      rw [put_same]
      exact ⟨fun _ => Or.inl rfl, fun _ => ⟨hi, hhash⟩⟩
    · rw [put_other hji]
      exact ⟨Or.inr, fun hj => hj.resolve_left hji⟩
  rw [hinsert, Finset.card_insert_of_notMem, h.used]
  intro hmem
  exact (Finset.mem_filter.mp hmem).2 hfree

theorem Holds.put (h : map.Holds Size added) (hlt : added.length < Size.toNat) {as bs : List ℕ}
    (hsplit : places Size hash = as ++ i :: bs) (has : ∀ j ∈ as, (map.m_array j).hash ≠ 0) :
    (map.put i ⟨hash, index⟩).Holds Size (added ++ [(hash, index)]) where
  count := by
    have hone : (1 : BitVec 32).toNat = 1 := rfl
    have hSize := Size.isLt
    change (map.m_count + 1).toNat = _
    rw [BitVec.toNat_add, h.count, hone, List.length_append, List.length_singleton]
    omega
  used := by
    rw [h.put_used hi hfree hhash, List.length_append, List.length_singleton]
  reached j hj hne := by
    by_cases hji : j = i
    · subst hji
      rw [put_same, hsplit, List.takeWhile_append_of_pos, List.takeWhile_cons_of_pos]
      · exact List.mem_append_right as List.mem_cons_self
      · rw [put_same]
        exact decide_eq_true hhash
      · intro k hk
        exact decide_eq_true (put_hash_ne hhash (has k hk))
    · rw [put_other hji] at hne ⊢
      refine Circular.mem_takeWhile_of_imp ?_ (h.reached j hj hne)
      intro k hk
      exact decide_eq_true (put_hash_ne hhash (of_decide_eq_true hk))
  first key hkey := h.put_first hfree hhash hsplit has (by omega) hkey

end Put

end FixedHashMap

namespace FixedKeyIndexMap

open FixedHashMap

variable {fuel : ℕ} {Size hash index : BitVec 32} {map : FixedHashMap}
  {added : List (BitVec 32 × BitVec 32)}

theorem AddEntry_holds (h : map.Holds Size added) (hfuel : Size.toNat ≤ fuel)
    (hlt : added.length < Size.toNat) (hhash : hash ≠ 0) (index : BitVec 32) :
    ∃ map', AddEntry fuel Size map hash index = some map' ∧
      map'.Holds Size (added ++ [(hash, index)]) := by
  obtain ⟨i, hi, hfree, as, bs, hsplit, has, hfind⟩ := h.exists_slot hlt hash
  refine ⟨map.put i ⟨hash, index⟩, ?_, h.put hi hfree hhash hlt hsplit has⟩
  have hroom : map.m_count < Size := by
    rw [BitVec.lt_def, h.count]
    exact hlt
  rw [AddEntry, FixedHashMap.AddEntry, if_pos ⟨hroom, hhash⟩, search_eq (by omega) hfuel, hfind]
  simp only [Option.join_some, Option.map_some, Function.update_self, Function.update_idem]
  rfl

theorem TryGetIndexByKey_eq (h : map.Holds Size added) (hfuel : Size.toNat ≤ fuel)
    (hSize : 0 < Size.toNat) (hhash : hash ≠ 0) :
    TryGetIndexByKey fuel Size map hash = some ((firstAdded added hash).getD cInvalidEntryIndex) := by
  rw [TryGetIndexByKey, TryGetParentByHash, search_eq hSize hfuel, Option.map_some,
    ← h.first hash hhash]
  cases (places Size hash).find? fun i => hash = (map.m_array i).hash with
  | none => rfl
  | some i => rfl

inductive Call
  | AddEntry (hash index : BitVec 32)
  | Clear

variable (fuel) (Size)

def call (map : FixedHashMap) : Call → Option FixedHashMap
  | .AddEntry hash index => FixedKeyIndexMap.AddEntry fuel Size map hash index
  | .Clear => some (map.Clear Size)

def calls : FixedHashMap → List Call → Option FixedHashMap
  | map, [] => some map
  | map, c :: cs => (call fuel Size map c).bind fun map => calls map cs

def record (added : List (BitVec 32 × BitVec 32)) : Call → List (BitVec 32 × BitVec 32)
  | .AddEntry hash index => added ++ [(hash, index)]
  | .Clear => []

/-- What `AddEntry` asserts. -/
def Asserted (added : List (BitVec 32 × BitVec 32)) : Call → Prop
  | .AddEntry hash _ => added.length < Size.toNat ∧ hash ≠ 0
  | .Clear => True

variable {fuel} {Size}

theorem calls_holds (hfuel : Size.toNat ≤ fuel) (hSize : 0 < Size.toNat) {cs : List Call}
    (h : map.Holds Size added) (hcs : Calls.EachIn record (Asserted Size) added cs) :
    ∃ map', calls fuel Size map cs = some map' ∧ map'.Holds Size (cs.foldl record added) := by
  induction cs generalizing map added with
  | nil => exact ⟨map, rfl, h⟩
  | cons c cs ih =>
    obtain ⟨-, hc, hrest⟩ := hcs
    obtain ⟨map₁, hcall, h₁⟩ : ∃ map₁, call fuel Size map c = some map₁ ∧
        map₁.Holds Size (record added c) := by
      cases c with
      | AddEntry hash index => exact AddEntry_holds h hfuel hc.1 hc.2 index
      | Clear => exact ⟨_, rfl, Holds.Clear hSize⟩
    obtain ⟨map', hcalls, h'⟩ := ih h₁ hrest
    refine ⟨map', ?_, h'⟩
    rw [calls, hcall, Option.bind_some]
    exact hcalls

/-- Looked up is the index that was added first with a key. -/
theorem lookup_of_calls (fuel : ℕ) (Size : BitVec 32) (hSize : 0 < Size.toNat)
    (hfuel : Size.toNat ≤ fuel) (cs : List Call) (hcs : Calls.EachIn record (Asserted Size) [] cs) :
    ∃ map, calls fuel Size ⟨0, fun _ => ⟨0, 0⟩⟩ cs = some map ∧
      map.m_count.toNat = (cs.foldl record []).length ∧ ∀ hash ≠ 0,
        TryGetIndexByKey fuel Size map hash =
          some ((firstAdded (cs.foldl record []) hash).getD cInvalidEntryIndex) := by
  have hempty : (⟨0, fun _ => ⟨0, 0⟩⟩ : FixedHashMap).Holds Size [] :=
    holds_empty (fun _ _ => rfl) rfl hSize
  obtain ⟨map, hcalls, h⟩ := calls_holds hfuel hSize hempty hcs
  exact ⟨map, hcalls, h.count, fun hash hhash => TryGetIndexByKey_eq h hfuel hSize hhash⟩

/-- The second entry comes around to slot 0. -/
theorem lookup_of_calls_around :
    ∃ map, calls 3 3 ⟨0, fun _ => ⟨0, 0⟩⟩ [.AddEntry 5 7, .AddEntry 8 9] = some map ∧
      map.m_count.toNat = [(5, 7), (8, 9)].length ∧ ∀ hash ≠ 0, TryGetIndexByKey 3 3 map hash =
        some ((firstAdded [(5, 7), (8, 9)] hash).getD cInvalidEntryIndex) :=
  lookup_of_calls 3 3 (by decide) (by decide) [.AddEntry 5 7, .AddEntry 8 9]
    ⟨trivial, ⟨by decide, by decide⟩, trivial, ⟨by decide, by decide⟩, trivial⟩

end FixedKeyIndexMap

end Awn
