import Awn.HashMap.KeyIndexMap
import Awn.IndexAllocator.Plain

/-! The dictionaries of `ZstdDecompressor`, and which of them a frame is decompressed with. -/

namespace Awn.ZstdDecompressor

open FixedAtomicIndexAllocator (cInvalidHandle FreeList invalid_toNat)

def cMaxDictionaryCount : ℕ := 8

def cDictionaryMapSize : BitVec 32 := 16

structure Dictionaries (Dict : Type*) where
  m_dic_map : FixedHashMap
  m_dic_array : ℕ → Option Dict
  m_dic_index_allocator : IndexAllocator 8

namespace Dictionaries

variable {Dict : Type*} (fuel : ℕ) (dictID : Dict → BitVec 32) (t : Dictionaries Dict)

def initial : Dictionaries Dict where
  m_dic_map := ⟨0, fun _ => ⟨0, 0⟩⟩
  m_dic_array _ := none
  m_dic_index_allocator := IndexAllocator.cleared cMaxDictionaryCount

/-- `none` where an assertion fails. -/
def RegisterZsDic (zstd_ddict : Dict) : Option (Dictionaries Dict) :=
  if dictID zstd_ddict = 0 then none
  else
    (t.m_dic_index_allocator.Allocate cMaxDictionaryCount).bind fun (handle, allocator) =>
      let index : BitVec 32 := handle.setWidth 32
      if index = (cInvalidHandle 8).setWidth 32 then none
      else
        (FixedKeyIndexMap.AddEntry fuel cDictionaryMapSize t.m_dic_map (dictID zstd_ddict) index).map
          fun map =>
            { m_dic_map := map
              m_dic_array := Function.update t.m_dic_array index.toNat (some zstd_ddict)
              m_dic_index_allocator := allocator }

variable [DecidableEq Dict]

def rebuild (zstd_ddict : Dict) : List ℕ → Dictionaries Dict → Option (Dictionaries Dict)
  | [], t => some t
  | i :: is, t =>
    match t.m_dic_array i with
    | none => rebuild zstd_ddict is t
    | some ddict =>
      if ddict = zstd_ddict then
        (t.m_dic_index_allocator.Free cMaxDictionaryCount (BitVec.ofNat 8 i)).bind fun allocator =>
          rebuild zstd_ddict is
            { t with
              m_dic_array := Function.update t.m_dic_array i none
              m_dic_index_allocator := allocator }
      else if dictID ddict = 0 then none
      else
        (FixedKeyIndexMap.AddEntry fuel cDictionaryMapSize t.m_dic_map (dictID ddict)
          (BitVec.ofNat 32 i)).bind fun map => rebuild zstd_ddict is { t with m_dic_map := map }

def UnregisterZsDic (zstd_ddict : Dict) : Option (Dictionaries Dict) :=
  rebuild fuel dictID zstd_ddict (List.range cMaxDictionaryCount)
    { t with m_dic_map := t.m_dic_map.Clear cDictionaryMapSize }

omit [DecidableEq Dict] in
def ClearZsDic : Option (Dictionaries Dict) :=
  (IndexAllocator.Clear cMaxDictionaryCount).map fun allocator =>
    { m_dic_map := t.m_dic_map.Clear cDictionaryMapSize
      m_dic_array := fun i => if i < cMaxDictionaryCount then none else t.m_dic_array i
      m_dic_index_allocator := allocator }

omit [DecidableEq Dict] in
def dictionary (frame_dictID : BitVec 32) : Option (Option Dict) :=
  (FixedKeyIndexMap.TryGetIndexByKey fuel cDictionaryMapSize t.m_dic_map frame_dictID).map fun index =>
    if index ≠ FixedKeyIndexMap.cInvalidEntryIndex then t.m_dic_array index.toNat else none

inductive Call (Dict : Type*)
  | RegisterZsDic (zstd_ddict : Dict)
  | UnregisterZsDic (zstd_ddict : Dict)
  | ClearZsDic

def call : Call Dict → Option (Dictionaries Dict)
  | .RegisterZsDic d => t.RegisterZsDic fuel dictID d
  | .UnregisterZsDic d => t.UnregisterZsDic fuel dictID d
  | .ClearZsDic => t.ClearZsDic

def calls : Dictionaries Dict → List (Call Dict) → Option (Dictionaries Dict)
  | t, [] => some t
  | t, c :: cs => (t.call fuel dictID c).bind fun t => calls t cs

def register (registered : List Dict) : Call Dict → List Dict
  | .RegisterZsDic d => d :: registered
  | .UnregisterZsDic d => registered.filter (· ≠ d)
  | .ClearZsDic => []

omit [DecidableEq Dict] in
/-- What `RegisterZsDic` asserts. -/
def Asserted (registered : List Dict) : Call Dict → Prop
  | .RegisterZsDic d => dictID d ≠ 0 ∧ registered.length < cMaxDictionaryCount
  | _ => True

omit [DecidableEq Dict] in
def entries (array : ℕ → Option Dict) (is : List ℕ) : List (BitVec 32 × BitVec 32) :=
  is.filterMap fun i => (array i).map fun d => (dictID d, BitVec.ofNat 32 i)

omit [DecidableEq Dict] in
structure Inv (registered : List Dict) (free : List ℕ) : Prop where
  list : FreeList t.m_dic_index_allocator.m_handle_array t.m_dic_index_allocator.m_next_index free
  nodup : free.Nodup
  mem_free : ∀ i, i ∈ free ↔ i < cMaxDictionaryCount ∧ t.m_dic_array i = none
  holds : ∃ added, t.m_dic_map.Holds cDictionaryMapSize added ∧
    added.Perm (entries dictID t.m_dic_array (List.range cMaxDictionaryCount))
  perm : registered.Perm ((List.range cMaxDictionaryCount).filterMap t.m_dic_array)
  valid : ∀ d ∈ registered, dictID d ≠ 0

section Lists

variable {array : ℕ → Option Dict} {i : ℕ} {d : Dict}

omit [DecidableEq Dict] in
theorem filterMap_update {is : List ℕ} (his : is.Nodup) (hi : i ∈ is) (hnone : array i = none)
    {B : Type*} (f : ℕ → Dict → B) :
    (is.filterMap fun j => (Function.update array i (some d) j).map (f j)).Perm
      (f i d :: is.filterMap fun j => (array j).map (f j)) := by
  obtain ⟨as, bs, rfl⟩ := List.append_of_mem hi
  have hout : ∀ j ∈ as ++ bs, (Function.update array i (some d) j).map (f j) = (array j).map (f j) := by
    intro j hj
    rw [Function.update_of_ne]
    rintro rfl
    exact (List.nodup_cons.mp (List.nodup_middle.mp his)).1 hj
  rw [List.filterMap_append, List.filterMap_append, List.filterMap_cons, List.filterMap_cons,
    Function.update_self, hnone,
    List.filterMap_congr fun j hj => hout j (List.mem_append_left bs hj),
    List.filterMap_congr fun j hj => hout j (List.mem_append_right as hj)]
  exact List.perm_middle

omit [DecidableEq Dict] in
theorem length_entries (array : ℕ → Option Dict) :
    (entries dictID array (List.range cMaxDictionaryCount)).length ≤ cMaxDictionaryCount :=
  (List.length_filterMap_le _ _).trans_eq List.length_range

omit [DecidableEq Dict] in
theorem mem_entries {is : List ℕ} {entry : BitVec 32 × BitVec 32} :
    entry ∈ entries dictID array is ↔
      ∃ i ∈ is, ∃ d, array i = some d ∧ (dictID d, BitVec.ofNat 32 i) = entry := by
  simp only [entries, List.mem_filterMap, Option.map_eq_some_iff]

def without (d : Dict) (array : ℕ → Option Dict) (is : List ℕ) (i : ℕ) : Option Dict :=
  if i ∈ is ∧ array i = some d then none else array i

theorem filterMap_without (d : Dict) (array : ℕ → Option Dict) (is : List ℕ) :
    is.filterMap (without d array is) = (is.filterMap array).filter (· ≠ d) := by
  have hstep : ∀ js : List ℕ, (∀ j ∈ js, j ∈ is) →
      js.filterMap (without d array is) = (js.filterMap array).filter (· ≠ d) := by
    intro js hjs
    induction js with
    | nil => rfl
    | cons j js ih =>
      have hj := hjs j List.mem_cons_self
      rw [List.filterMap_cons, List.filterMap_cons, ih fun k hk => hjs k (List.mem_cons_of_mem j hk)]
      cases harray : array j with
      | none => simp [without, harray]
      | some other =>
        by_cases heq : other = d
        · simp [without, harray, hj, heq]
        · simp [without, harray, heq]
  exact hstep is fun j hj => hj

end Lists

theorem free_cons {t : IndexAllocator 8} {free : List ℕ} {i : ℕ}
    (h : FreeList t.m_handle_array t.m_next_index free) (hi : i < cMaxDictionaryCount)
    (hnew : i ∉ free) :
    ∃ t', t.Free cMaxDictionaryCount (BitVec.ofNat 8 i) = some t' ∧
      FreeList t'.m_handle_array t'.m_next_index (i :: free) := by
  have hlt : i < 8 := hi
  have hindex : (BitVec.ofNat 8 i).toNat = i := by
    rw [BitVec.toNat_ofNat]
    omega
  have hvalue := IndexAllocator.toNat_setWidth_index (w := 8) (by decide) (BitVec.ofNat 8 i)
  rw [IndexAllocator.Free, if_pos (by rw [hindex]; exact hi)]
  refine ⟨_, rfl, ?_, by rw [hvalue, hindex], by omega, ?_⟩
  · intro heq
    have hinvalid := invalid_toNat (w := 8) (by decide)
    rw [← heq, hvalue] at hinvalid
    omega
  · dsimp only
    rw [hindex, Function.update_self, IndexAllocator.setWidth_start (by decide) h]
    apply IndexAllocator.freeList_congr h
    intro j hj
    apply Function.update_of_ne
    rintro rfl
    exact hnew hj

variable {fuel dictID} {t : Dictionaries Dict} (hfuel : 16 ≤ fuel)
include hfuel

theorem rebuild_spec (d : Dict) {is free : List ℕ} {added : List (BitVec 32 × BitVec 32)}
    (his : is.Nodup) (hlt : ∀ i ∈ is, i < cMaxDictionaryCount)
    (hlist : FreeList t.m_dic_index_allocator.m_handle_array t.m_dic_index_allocator.m_next_index free)
    (hfree : free.Nodup) (hmem : ∀ i, i ∈ free ↔ i < cMaxDictionaryCount ∧ t.m_dic_array i = none)
    (hholds : t.m_dic_map.Holds cDictionaryMapSize added) (hlength : added.length + is.length ≤ 16)
    (hvalid : ∀ i ∈ is, ∀ other, t.m_dic_array i = some other → dictID other ≠ 0) :
    ∃ t' free', rebuild fuel dictID d is t = some t' ∧ t'.m_dic_array = without d t.m_dic_array is ∧
      FreeList t'.m_dic_index_allocator.m_handle_array t'.m_dic_index_allocator.m_next_index free' ∧
      free'.Nodup ∧ (∀ i, i ∈ free' ↔ i < cMaxDictionaryCount ∧ t'.m_dic_array i = none) ∧
      t'.m_dic_map.Holds cDictionaryMapSize (added ++ entries dictID t'.m_dic_array is) := by
  induction is generalizing t free added with
  | nil =>
    have hsame : without d t.m_dic_array [] = t.m_dic_array := by
      funext i
      exact if_neg fun h => absurd h.1 List.not_mem_nil
    rw [hsame]
    refine ⟨t, free, rfl, rfl, hlist, hfree, hmem, ?_⟩
    rw [entries, List.filterMap_nil, List.append_nil]
    exact hholds
  | cons i is ih =>
    obtain ⟨hi, his⟩ := List.nodup_cons.mp his
    have hlt' : ∀ j ∈ is, j < cMaxDictionaryCount := fun j hj => hlt j (List.mem_cons_of_mem i hj)
    rw [List.length_cons] at hlength
    cases harray : t.m_dic_array i with
    | none =>
      obtain ⟨t', free', hrun, ha, hl, hn, hm, hh⟩ := ih his hlt' hlist hfree hmem hholds (by omega)
        fun j hj => hvalid j (List.mem_cons_of_mem i hj)
      have hsame : without d t.m_dic_array (i :: is) = without d t.m_dic_array is := by
        funext j
        by_cases hji : j = i
        · simp [without, hji, harray]
        · simp [without, hji]
      have hnone : t'.m_dic_array i = none := by
        rw [ha, without, if_neg fun h => hi h.1, harray]
      rw [rebuild, harray]
      refine ⟨t', free', hrun, ha.trans hsame.symm, hl, hn, hm, ?_⟩
      rw [entries, List.filterMap_cons, hnone]
      exact hh
    | some ddict =>
      by_cases heq : ddict = d
      · subst heq
        have hnew : i ∉ free := by
          intro hfreeI
          rw [((hmem i).mp hfreeI).2] at harray
          cases harray
        obtain ⟨allocator, hcall, hlist'⟩ := free_cons hlist (hlt i List.mem_cons_self) hnew
        have hother : ∀ {j}, j ≠ i → Function.update t.m_dic_array i none j = t.m_dic_array j :=
          fun hj => Function.update_of_ne hj _ _
        obtain ⟨t', free', hrun, ha, hl, hn, hm, hh⟩ := ih
          (t := { t with
            m_dic_array := Function.update t.m_dic_array i none
            m_dic_index_allocator := allocator }) his hlt' hlist'
          (List.nodup_cons.mpr ⟨hnew, hfree⟩) (by
            intro j
            rw [List.mem_cons, hmem]
            by_cases hji : j = i
            · simp [hji, hlt i List.mem_cons_self]
            · simp [hji]) hholds (by omega) (by
            intro j hj other hother'
            apply hvalid j (List.mem_cons_of_mem i hj) other
            rw [← hother (by rintro rfl; exact hi hj)]
            exact hother')
        have hsame : without ddict t.m_dic_array (i :: is) =
            without ddict (Function.update t.m_dic_array i none) is := by
          funext j
          by_cases hji : j = i
          · simp [without, hji, harray]
          · simp [without, hji]
        have hnone : t'.m_dic_array i = none := by
          rw [ha, without, if_neg fun h => hi h.1]
          exact Function.update_self i none t.m_dic_array
        rw [rebuild, harray]
        simp only [if_true, hcall, Option.bind_some]
        refine ⟨t', free', hrun, ha.trans hsame.symm, hl, hn, hm, ?_⟩
        rw [entries, List.filterMap_cons, hnone]
        exact hh
      · have hid := hvalid i List.mem_cons_self ddict harray
        obtain ⟨map, hadd, hmap⟩ := FixedKeyIndexMap.AddEntry_holds hholds hfuel
          (show added.length < 16 by omega) hid (BitVec.ofNat 32 i)
        obtain ⟨t', free', hrun, ha, hl, hn, hm, hh⟩ := ih (t := { t with m_dic_map := map }) his hlt'
          hlist hfree hmem hmap (by rw [List.length_append, List.length_singleton]; omega)
          fun j hj => hvalid j (List.mem_cons_of_mem i hj)
        have hsame : without d t.m_dic_array (i :: is) = without d t.m_dic_array is := by
          funext j
          by_cases hji : j = i
          · simp [without, hji, harray, heq]
          · simp [without, hji]
        have hsome : t'.m_dic_array i = some ddict := by
          rw [ha, without, if_neg fun h => hi h.1]
          exact harray
        rw [rebuild, harray]
        simp only [if_neg heq, if_neg hid, hadd, Option.bind_some]
        refine ⟨t', free', hrun, ha.trans hsame.symm, hl, hn, hm, ?_⟩
        rw [entries, List.filterMap_cons, hsome, Option.map_some]
        rw [List.append_assoc] at hh
        exact hh

variable {registered : List Dict} {free : List ℕ}

omit [DecidableEq Dict] in
theorem Inv.RegisterZsDic {d : Dict} (h : t.Inv dictID registered free) (hd : dictID d ≠ 0)
    (hlength : registered.length < cMaxDictionaryCount) :
    ∃ t' free', t.RegisterZsDic fuel dictID d = some t' ∧ t'.Inv dictID (d :: registered) free' := by
  obtain ⟨added, hholds, hadded⟩ := h.holds
  cases free with
  | nil =>
    have hall : ∀ i ∈ List.range cMaxDictionaryCount, (t.m_dic_array i).isSome := by
      intro i hi
      cases harray : t.m_dic_array i with
      | none => exact absurd ((h.mem_free i).mpr ⟨List.mem_range.mp hi, harray⟩) List.not_mem_nil
      | some other => rfl
    have hfull := h.perm.length_eq
    rw [List.filterMap_length_eq_length.mpr hall, List.length_range] at hfull
    omega
  | cons i rest =>
    obtain ⟨hi, hnone⟩ := (h.mem_free i).mp List.mem_cons_self
    have hlt : i < 8 := hi
    obtain ⟨hnew, hrest⟩ := List.nodup_cons.mp h.nodup
    obtain ⟨allocator, hcall, hlist⟩ := IndexAllocator.allocate_cons h.list hi
    have hindex : (BitVec.ofNat 8 i).setWidth 32 = BitVec.ofNat 32 i := by
      apply BitVec.eq_of_toNat_eq
      rw [BitVec.toNat_setWidth, BitVec.toNat_ofNat, BitVec.toNat_ofNat]
      omega
    have hvalue : (BitVec.ofNat 32 i).toNat = i := by
      rw [BitVec.toNat_ofNat]
      omega
    have hne : BitVec.ofNat 32 i ≠ (cInvalidHandle 8).setWidth 32 := by
      intro heq
      have hinvalid := invalid_toNat (w := 8) (by decide)
      rw [← heq, hvalue] at hinvalid
      omega
    have hfew := hadded.length_eq.trans_le (length_entries dictID t.m_dic_array)
    obtain ⟨map, hadd, hmap⟩ := FixedKeyIndexMap.AddEntry_holds hholds hfuel
      (show added.length < 16 from Nat.lt_of_le_of_lt hfew (by decide)) hd (BitVec.ofNat 32 i)
    refine ⟨⟨map, Function.update t.m_dic_array i (some d), allocator⟩, rest, ?_, hlist, hrest, ?_,
      ⟨_, hmap, ?_⟩, ?_, ?_⟩
    · rw [Dictionaries.RegisterZsDic, if_neg hd, hcall, Option.bind_some]
      simp only [hindex, if_neg hne, hadd, Option.map_some, hvalue]
    · intro j
      dsimp only
      by_cases hji : j = i
      · subst hji
        rw [Function.update_self]
        exact ⟨fun hj => absurd hj hnew, fun hj => absurd hj.2 (by simp)⟩
      · rw [Function.update_of_ne hji, ← h.mem_free, List.mem_cons]
        exact ⟨Or.inr, fun hj => hj.resolve_left hji⟩
    · refine ((List.perm_append_singleton _ added).trans (hadded.cons _)).trans ?_
      exact (filterMap_update List.nodup_range (List.mem_range.mpr hi) hnone
        fun j d => (dictID d, BitVec.ofNat 32 j)).symm
    · have hupdate := filterMap_update (d := d) List.nodup_range (List.mem_range.mpr hi) hnone
        fun _ d => d
      simp only [Option.map_id'] at hupdate
      exact (h.perm.cons d).trans hupdate.symm
    · intro other hother
      rcases List.mem_cons.mp hother with rfl | hother
      · exact hd
      · exact h.valid other hother

theorem Inv.UnregisterZsDic {d : Dict} (h : t.Inv dictID registered free) :
    ∃ t' free', t.UnregisterZsDic fuel dictID d = some t' ∧
      t'.Inv dictID (registered.filter (· ≠ d)) free' := by
  obtain ⟨t', free', hrun, ha, hlist, hnodup, hmem, hholds⟩ := rebuild_spec hfuel d
    (t := { t with m_dic_map := t.m_dic_map.Clear cDictionaryMapSize }) List.nodup_range
    (fun i hi => List.mem_range.mp hi) h.list h.nodup h.mem_free (FixedHashMap.Holds.Clear (by decide))
    (by decide) (by
      intro i hi other hother
      apply h.valid other
      exact h.perm.mem_iff.mpr (List.mem_filterMap.mpr ⟨i, hi, hother⟩))
  refine ⟨t', free', hrun, hlist, hnodup, hmem, ⟨_, hholds, ?_⟩, ?_, ?_⟩
  · rw [List.nil_append]
  · rw [ha]
    exact (filterMap_without d t.m_dic_array _).symm ▸ h.perm.filter _
  · intro other hother
    exact h.valid other (List.mem_of_mem_filter hother)

omit hfuel [DecidableEq Dict] in
theorem inv_clear (hmap : t.m_dic_map.Holds cDictionaryMapSize [])
    (harray : ∀ i < cMaxDictionaryCount, t.m_dic_array i = none)
    (hallocator : t.m_dic_index_allocator = IndexAllocator.cleared cMaxDictionaryCount) :
    t.Inv dictID [] (List.range cMaxDictionaryCount) where
  list := by
    rw [hallocator]
    exact IndexAllocator.freeList_start (w := 8) (by decide) (by decide)
  nodup := List.nodup_range
  mem_free i := by
    rw [List.mem_range]
    exact ⟨fun hi => ⟨hi, harray i hi⟩, fun hi => hi.1⟩
  holds := by
    refine ⟨[], hmap, ?_⟩
    rw [entries, List.filterMap_eq_nil_iff.mpr]
    intro i hi
    rw [harray i (List.mem_range.mp hi), Option.map_none]
  perm := by
    rw [List.filterMap_eq_nil_iff.mpr fun i hi => harray i (List.mem_range.mp hi)]
  valid _ hd := absurd hd List.not_mem_nil

theorem calls_inv {cs : List (Call Dict)} (h : t.Inv dictID registered free)
    (hcs : Calls.EachIn register (Asserted dictID) registered cs) :
    ∃ t' free', calls fuel dictID t cs = some t' ∧ t'.Inv dictID (cs.foldl register registered) free' := by
  induction cs generalizing t registered free with
  | nil => exact ⟨t, free, rfl, h⟩
  | cons c cs ih =>
    obtain ⟨-, hc, hrest⟩ := hcs
    obtain ⟨t₁, free₁, hcall, h₁⟩ : ∃ t₁ free₁, t.call fuel dictID c = some t₁ ∧
        t₁.Inv dictID (register registered c) free₁ := by
      cases c with
      | RegisterZsDic d => exact h.RegisterZsDic hfuel hc.1 hc.2
      | UnregisterZsDic d => exact h.UnregisterZsDic hfuel
      | ClearZsDic =>
        exact ⟨_, _, rfl, inv_clear (FixedHashMap.Holds.Clear (by decide)) (fun i hi => if_pos hi) rfl⟩
    obtain ⟨t', free', hcalls, h'⟩ := ih h₁ hrest
    refine ⟨t', free', ?_, h'⟩
    rw [calls, hcall, Option.bind_some]
    exact hcalls

omit [DecidableEq Dict] in
theorem Inv.dictionary_eq (h : t.Inv dictID registered free) {id : BitVec 32} (hid : id ≠ 0) :
    ∃ found, t.dictionary fuel id = some found ∧
      (∀ d, found = some d → d ∈ registered ∧ dictID d = id) ∧
      (found = none → ∀ d ∈ registered, dictID d ≠ id) := by
  obtain ⟨added, hholds, hadded⟩ := h.holds
  rw [dictionary, FixedKeyIndexMap.TryGetIndexByKey_eq hholds hfuel (by decide) hid, Option.map_some,
    firstAdded]
  refine ⟨_, rfl, ?_⟩
  cases hfind : added.find? fun entry => id = entry.1 with
  | none =>
    refine ⟨fun _ heq => absurd heq.symm (Option.some_ne_none _), fun _ d hd heq => ?_⟩
    obtain ⟨i, hi, harray⟩ := List.mem_filterMap.mp (h.perm.mem_iff.mp hd)
    have hmiss := List.find?_eq_none.mp hfind (dictID d, BitVec.ofNat 32 i)
      (hadded.mem_iff.mpr ((mem_entries dictID).mpr ⟨i, hi, d, harray, rfl⟩))
    exact hmiss (decide_eq_true heq.symm)
  | some entry =>
    have hentry := List.find?_some hfind
    rw [decide_eq_true_eq] at hentry
    obtain ⟨i, hi, d, harray, rfl⟩ := (mem_entries dictID).mp
      (hadded.mem_iff.mp (List.mem_of_find?_eq_some hfind))
    have hlt : i < 8 := List.mem_range.mp hi
    have hvalue : (BitVec.ofNat 32 i).toNat = i := by
      rw [BitVec.toNat_ofNat]
      omega
    have hne : BitVec.ofNat 32 i ≠ FixedKeyIndexMap.cInvalidEntryIndex := by
      intro heq
      have hinvalid : FixedKeyIndexMap.cInvalidEntryIndex.toNat = 0xffffffff := rfl
      rw [← heq, hvalue] at hinvalid
      omega
    rw [Option.map_some, Option.getD_some, if_pos hne, hvalue, harray]
    refine ⟨?_, fun heq => absurd heq (Option.some_ne_none _)⟩
    rintro other heq
    obtain rfl := Option.some_inj.mp heq
    exact ⟨h.perm.mem_iff.mpr (List.mem_filterMap.mpr ⟨i, hi, harray⟩), hentry.symm⟩

omit hfuel in
/-- A frame with an ID is decompressed with a registered dictionary of this ID, if there is one. -/
theorem dictionary_of_calls (dictID : Dict → BitVec 32) (fuel : ℕ) (hfuel : 16 ≤ fuel)
    (cs : List (Call Dict)) (hcs : Calls.EachIn register (Asserted dictID) [] cs) :
    ∃ t, calls fuel dictID initial cs = some t ∧ ∀ id ≠ 0,
      ∃ found, t.dictionary fuel id = some found ∧
        (∀ d, found = some d → d ∈ cs.foldl register [] ∧ dictID d = id) ∧
        (found = none → ∀ d ∈ cs.foldl register [], dictID d ≠ id) := by
  have hinit : (initial : Dictionaries Dict).Inv dictID [] (List.range cMaxDictionaryCount) :=
    inv_clear (FixedHashMap.holds_empty (fun _ _ => rfl) rfl (by decide)) (fun _ _ => rfl) rfl
  obtain ⟨t, free, hcalls, h⟩ := calls_inv hfuel hinit hcs
  exact ⟨t, hcalls, fun id hid => h.dictionary_eq hfuel hid⟩

omit hfuel in
theorem dictionary_of_calls_two :
    ∃ t, calls 16 (fun d : BitVec 32 => d) initial
        [.RegisterZsDic 7, .RegisterZsDic 9, .UnregisterZsDic 7] = some t ∧ ∀ id ≠ 0,
      ∃ found, t.dictionary 16 id = some found ∧ (∀ d, found = some d → d ∈ [9] ∧ d = id) ∧
        (found = none → ∀ d ∈ [9], d ≠ id) :=
  dictionary_of_calls (fun d => d) 16 (le_refl 16)
    [.RegisterZsDic 7, .RegisterZsDic 9, .UnregisterZsDic 7]
    ⟨trivial, ⟨by decide, by decide⟩, trivial, ⟨by decide, by decide⟩, trivial, trivial, trivial⟩

end Dictionaries

end Awn.ZstdDecompressor
