import Awn.ResourceSizeTable.Builder

/-! The table of sizes while every path has a hash of its own, and where it goes wrong otherwise. -/

namespace Awn.ResourceSizeTable

open IntrusiveTree Memory RedBlack
open Crc32 (hashText HashesAgree)

structure Entry where
  node : Addr
  path : List (BitVec 8)
  size : BitVec 32

def Entry.updated (text : List (BitVec 8)) (new_size : BitVec 32) (x : Entry) : Entry :=
  { x with size := if x.path = text then new_size else x.size }

structure IsPath (m : Bytes) (max_path_length : BitVec 32) (path : ℕ) (text : List (BitVec 8)) :
    Prop where
  pointer : path ≠ 0
  holds : HoldsText m path text
  nonempty : text ≠ []
  characters : ∀ c ∈ text, c ≠ 0
  short : text.length < max_path_length.toNat

variable {m : Bytes} {fuel path : ℕ} {max_path_length : BitVec 32} {text : List (BitVec 8)}

theorem IsPath.first (h : IsPath m max_path_length path text) : m path ≠ 0 := by
  cases text with
  | nil => exact absurd rfl h.nonempty
  | cons c text =>
    rw [h.holds.head]
    exact h.characters c List.mem_cons_self

theorem IsPath.length_lt (h : IsPath m max_path_length path text) : text.length < 2 ^ 32 :=
  Nat.lt_trans h.short max_path_length.isLt

theorem IsPath.hashCrc32b_eq (h : IsPath m max_path_length path text)
    (hashes : HashesAgree m path text.length) (hfuel : text.length < fuel) :
    Crc32.hashCrc32b m false fuel path = some (hashText text) := by
  have hlt := h.length_lt
  rw [(hashes fuel hfuel).1, Crc32.hashData_eq_hashText h.holds (by omega)]

theorem IsPath.hashPath_eq (h : IsPath m max_path_length path text)
    (hashes : HashesAgree m path text.length) (hfuel : 2 ^ 32 < fuel) :
    hashPath m fuel path = .ok (hashText text).toFin := by
  have hlt := h.length_lt
  rw [hashPath, h.hashCrc32b_eq hashes (by omega)]

theorem find_spec {K : Type} [LinearOrder K] {s : IntrusiveRedBlackTree K} {t : ColoredTree Addr}
    (hs : IsRedBlack s t) (hfuel : t.toList.length < fuel) (k : K) :
    ∃ r, find fuel s k = .ok r ∧ ∀ a, r = some a ↔ a ∈ t.toList ∧ (s.node a).key = k := by
  rw [find, hs.represents.root]
  exact findImpl_spec k hs.represents.holds hs.sorted hfuel

namespace ResourceSizeTableBuilder

structure Lists (s : ResourceSizeTableBuilder) (table : List Entry) : Prop where
  tree : ∃ t, IsRedBlack s.m_crc32_entry_list t ∧ t.toList.Perm (table.map (·.node))
  none : s.m_collision_entry_list.root = none
  unlinked : ∀ x ∈ table, IsLinked s.m_collision_entry_list x.node = true
  key : ∀ x ∈ table, (s.m_crc32_entry_list.node x.node).key = (hashText x.path).toFin
  size : ∀ x ∈ table, s.size x.node = x.size

variable {s : ResourceSizeTableBuilder} {table : List Entry}

theorem Lists.constructed : constructed.Lists [] where
  tree := ⟨.nil, fresh_isRedBlack ⟨rfl, fun _ => ⟨rfl, rfl⟩⟩, List.Perm.refl _⟩
  none := rfl
  unlinked _ hx := absurd hx List.not_mem_nil
  key _ hx := absurd hx List.not_mem_nil
  size _ hx := absurd hx List.not_mem_nil

theorem Lists.length_le (h : s.Lists table) : table.length ≤ 2 ^ 32 := by
  obtain ⟨t, ht, hperm⟩ := h.tree
  have hroom : Room (table.map (·.node)) ([] : List (TreeOp (Fin (2 ^ 32)))) :=
    Or.inl ⟨id, Function.injective_id⟩
  have hle := hroom.length_le ht hperm
  rwa [hperm.length_eq, List.length_map] at hle

theorem Lists.eq_of_node (h : s.Lists table) {x y : Entry} (hx : x ∈ table) (hy : y ∈ table)
    (hnode : x.node = y.node) : x = y := by
  obtain ⟨t, ht, hperm⟩ := h.tree
  exact List.inj_on_of_nodup_map ((hperm.nodup_iff).mp ht.represents.nodup) hx hy hnode

theorem Lists.eq_of_hash (h : s.Lists table) {x y : Entry} (hx : x ∈ table) (hy : y ∈ table)
    (hhash : hashText x.path = hashText y.path) : x = y := by
  obtain ⟨t, ht, hperm⟩ := h.tree
  apply h.eq_of_node hx hy
  have hkeys : (t.toList.map fun a => (s.m_crc32_entry_list.node a).key).Nodup := by
    rw [List.Nodup, List.pairwise_map]
    exact ht.sorted.imp fun hlt => hlt.ne
  apply List.inj_on_of_nodup_map hkeys (hperm.mem_iff.mpr (List.mem_map_of_mem hx))
    (hperm.mem_iff.mpr (List.mem_map_of_mem hy))
  rw [h.key x hx, h.key y hy, hhash]

theorem Lists.find_hash (h : s.Lists table) (hfuel : 2 ^ 32 < fuel) (hash : BitVec 32) :
    (∃ x ∈ table, hashText x.path = hash ∧
      find fuel s.m_crc32_entry_list hash.toFin = .ok (some x.node)) ∨
    (∀ x ∈ table, hashText x.path ≠ hash) ∧
      find fuel s.m_crc32_entry_list hash.toFin = .ok .none := by
  obtain ⟨t, ht, hperm⟩ := h.tree
  have hlength := h.length_le
  have htlength := hperm.length_eq
  rw [List.length_map] at htlength
  obtain ⟨r, hfind, hr⟩ := find_spec ht (by omega : t.toList.length < fuel) hash.toFin
  cases r with
  | some a =>
    obtain ⟨ha, hkey⟩ := (hr a).mp rfl
    obtain ⟨x, hx, rfl⟩ := List.mem_map.mp (hperm.mem_iff.mp ha)
    rw [h.key x hx] at hkey
    exact Or.inl ⟨x, hx, BitVec.toFin_inj.mp hkey, hfind⟩
  | none =>
    refine Or.inr ⟨?_, hfind⟩
    rintro x hx rfl
    cases (hr x.node).mpr ⟨hperm.mem_iff.mpr (List.mem_map_of_mem hx), h.key x hx⟩

theorem Lists.find_collision (h : s.Lists table) (hfuel : 0 < fuel) (path : ℕ) :
    find fuel s.m_collision_entry_list path = .ok .none := by
  obtain ⟨fuel, rfl⟩ := Nat.exists_eq_succ_of_ne_zero hfuel.ne'
  rw [find, h.none]
  rfl

theorem Lists.searchEntry (h : s.Lists table) (hpath : IsPath m max_path_length path text)
    (hashes : HashesAgree m path text.length) (hfuel : 2 ^ 32 < fuel) :
    (∃ x ∈ table, hashText x.path = hashText text ∧
      s.SearchEntry m fuel path = .ok (some x.node)) ∨
    (∀ x ∈ table, hashText x.path ≠ hashText text) ∧ s.SearchEntry m fuel path = .ok .none := by
  have hhash := hpath.hashPath_eq hashes hfuel
  obtain ⟨x, hx, hsame, hfind⟩ | ⟨hnone, hfind⟩ := h.find_hash hfuel (hashText text)
  · left
    refine ⟨x, hx, hsame, ?_⟩
    simp only [SearchEntry, hhash, hfind, bind, Except.bind, pure, Except.pure]
  · right
    refine ⟨hnone, ?_⟩
    simp only [SearchEntry, hhash, hfind, bind, Except.bind,
      h.find_collision (Nat.lt_trans (by decide) hfuel)]

theorem construct_eq (hpath : IsPath m max_path_length path text)
    (hashes : HashesAgree m path text.length) (hfuel : 2 ^ 32 < fuel) (node : Addr)
    (size : BitVec 32) :
    s.construct m fuel node path size =
      .ok (s.withNode node (hashText text).toFin path size) := by
  have hcheck : check (path ≠ 0 && m path ≠ 0) Fault.assertion = .ok () := by
    rw [check, if_pos]
    rw [Bool.and_eq_true, decide_eq_true_iff, decide_eq_true_iff]
    exact ⟨hpath.pointer, hpath.first⟩
  simp only [construct, hcheck, hpath.hashPath_eq hashes hfuel, bind, Except.bind, pure,
    Except.pure]

section WithNode

variable {node : Addr} {path_crc32 : Fin (2 ^ 32)} {size : BitVec 32}

theorem withNode_crc32 : (s.withNode node path_crc32 path size).m_crc32_entry_list.node node =
    ⟨.none, .none, .none, .red, path_crc32⟩ := by
  rw [ResourceSizeTableBuilder.withNode, IntrusiveRedBlackTree.node_modify]

theorem withNode_collision :
    (s.withNode node path_crc32 path size).m_collision_entry_list.node node =
      ⟨.none, .none, .none, .red, path⟩ := by
  rw [ResourceSizeTableBuilder.withNode, IntrusiveRedBlackTree.node_modify]

theorem withNode_size : (s.withNode node path_crc32 path size).size node = size := by
  dsimp only [ResourceSizeTableBuilder.withNode]
  rw [Function.update_self]

theorem Lists.withNode (h : s.Lists table) (hnode : ∀ x ∈ table, x.node ≠ node)
    (path_crc32 : Fin (2 ^ 32)) (path : ℕ) (size : BitVec 32) :
    (s.withNode node path_crc32 path size).Lists table := by
  obtain ⟨t, ht, hperm⟩ := h.tree
  have hout : node ∉ t.toList := by
    intro hmem
    obtain ⟨x, hx, hxnode⟩ := List.mem_map.mp (hperm.mem_iff.mp hmem)
    exact hnode x hx hxnode
  constructor
  · refine ⟨t, ?_, hperm⟩
    dsimp only [ResourceSizeTableBuilder.withNode]
    apply modify_isRedBlack ht hout
    exact ⟨rfl, rfl⟩
  · exact h.none
  · intro x hx
    rw [IsLinked, ResourceSizeTableBuilder.withNode,
      s.m_collision_entry_list.node_modify_of_ne (hnode x hx)]
    exact h.unlinked x hx
  · intro x hx
    rw [ResourceSizeTableBuilder.withNode, s.m_crc32_entry_list.node_modify_of_ne (hnode x hx)]
    exact h.key x hx
  · intro x hx
    exact (Function.update_of_ne (hnode x hx) size s.size).trans (h.size x hx)

end WithNode

theorem Lists.add (h : s.Lists table) (hpath : IsPath m max_path_length path text)
    (hashes : HashesAgree m path text.length) (hfuel : 2 ^ 32 < fuel) {node : Addr}
    (hnode : ∀ x ∈ table, x.node ≠ node) (hfree : ∀ x ∈ table, hashText x.path ≠ hashText text)
    (size : BitVec 32) :
    ∃ s', s.addNew m fuel node path size = .ok (s', true) ∧
      s'.Lists (⟨node, text, size⟩ :: table) := by
  have hs := h.withNode hnode (hashText text).toFin path size
  obtain ⟨x, hx, hsame, -⟩ | ⟨-, hfind⟩ := hs.find_hash hfuel (hashText text)
  · exact absurd hsame (hfree x hx)
  obtain ⟨t, ht, hperm⟩ := hs.tree
  have hout : node ∉ t.toList := by
    intro hmem
    obtain ⟨x, hx, hxnode⟩ := List.mem_map.mp (hperm.mem_iff.mp hmem)
    exact hnode x hx hxnode
  have hlength := hperm.length_eq
  have hle := hs.length_le
  rw [List.length_map] at hlength
  obtain ⟨list, u, hinsert, hu, hsame, hperm'⟩ := insert_spec ht hout (by
    intro b hb
    obtain ⟨x, hx, rfl⟩ := List.mem_map.mp (hperm.mem_iff.mp hb)
    rw [hs.key x hx, withNode_crc32]
    exact fun hkey => hfree x hx (BitVec.toFin_inj.mp hkey)) (by omega)
    (by omega : t.toList.length ≤ fuel)
  refine ⟨{ s.withNode node (hashText text).toFin path size with m_crc32_entry_list := list },
    ?_, ?_⟩
  · simp only [addNew, construct_eq hpath hashes hfuel, AddEntry, withNode_crc32, hfind, hinsert,
      bind, Except.bind, pure, Except.pure]
  · constructor
    · exact ⟨u, hu, hperm'.trans (hperm.cons node)⟩
    · exact hs.none
    · intro x hx
      obtain rfl | hx := List.mem_cons.mp hx
      · rw [IsLinked, withNode_collision]
        rfl
      · exact hs.unlinked x hx
    · intro x hx
      rw [hsame.key]
      obtain rfl | hx := List.mem_cons.mp hx
      · rw [withNode_crc32]
      · exact hs.key x hx
    · intro x hx
      obtain rfl | hx := List.mem_cons.mp hx
      · change (s.withNode node (hashText text).toFin path size).size node = size
        rw [withNode_size]
      · exact hs.size x hx

theorem Lists.add_taken (h : s.Lists table) (hpath : IsPath m max_path_length path text)
    (hashes : HashesAgree m path text.length) (hfuel : 2 ^ 32 < fuel) {node : Addr}
    (hnode : ∀ x ∈ table, x.node ≠ node) {x : Entry} (hx : x ∈ table)
    (hsame : hashText x.path = hashText text) (size : BitVec 32) :
    ∃ s', s.addNew m fuel node path size = .ok (s', false) ∧
      s'.Lists table := by
  have hs := h.withNode hnode (hashText text).toFin path size
  refine ⟨s.withNode node (hashText text).toFin path size, ?_, hs⟩
  obtain ⟨y, -, -, hfind⟩ | ⟨hfree, -⟩ := hs.find_hash hfuel (hashText text)
  · have hvalid : ¬(path = 0 ∨ m path = 0) := not_or.mpr ⟨hpath.pointer, hpath.first⟩
    have hnone := hs.find_collision (Nat.lt_trans (by decide) hfuel) path
    simp only [addNew, construct_eq hpath hashes hfuel, AddEntry, withNode_crc32,
      withNode_collision, hfind, hnone, if_neg hvalid, bind, Except.bind, pure, Except.pure]
  · exact absurd hsame (hfree x hx)

theorem Lists.addEntry_iff (h : s.Lists table) (hpath : IsPath m max_path_length path text)
    (hashes : HashesAgree m path text.length) (hfuel : 2 ^ 32 < fuel) {node : Addr}
    (hnode : ∀ x ∈ table, x.node ≠ node) (size : BitVec 32) :
    (∃ s', s.addNew m fuel node path size = .ok (s', true)) ↔
      ∀ x ∈ table, hashText x.path ≠ hashText text := by
  constructor
  · rintro ⟨s', hadd⟩ x hx hsame
    obtain ⟨s'', hrefused, -⟩ := h.add_taken hpath hashes hfuel hnode hx hsame size
    rw [hadd] at hrefused
    cases hrefused
  · intro hfree
    obtain ⟨s', hadd, -⟩ := h.add hpath hashes hfuel hnode hfree size
    exact ⟨s', hadd⟩

theorem Lists.removeEntry (h : s.Lists table) (hpath : IsPath m max_path_length path text)
    (hashes : HashesAgree m path text.length) (hfuel : 2 ^ 32 < fuel)
    (hfree : ∀ x ∈ table, hashText x.path ≠ hashText text) :
    s.RemoveEntry m fuel path = .ok (s, .none) := by
  obtain ⟨x, hx, hsame, -⟩ | ⟨-, hsearch⟩ := h.searchEntry hpath hashes hfuel
  · exact absurd hsame (hfree x hx)
  · simp only [RemoveEntry, hsearch, bind, Except.bind, pure, Except.pure]

theorem Lists.removeEntry_fails (h : s.Lists table) (hpath : IsPath m max_path_length path text)
    (hashes : HashesAgree m path text.length) (hfuel : 2 ^ 32 < fuel) {x : Entry} (hx : x ∈ table)
    (hsame : hashText x.path = hashText text) : s.RemoveEntry m fuel path = .error .assertion := by
  obtain ⟨y, hy, -, hsearch⟩ | ⟨hfree, -⟩ := h.searchEntry hpath hashes hfuel
  · obtain ⟨t, ht, hperm⟩ := h.tree
    have hlength := hperm.length_eq
    have hle := h.length_le
    rw [List.length_map] at hlength
    obtain ⟨list, -, hremove, -, -, -⟩ := remove_spec ht
      (hperm.mem_iff.mpr (List.mem_map_of_mem hy)) (by omega) (by omega : t.toList.length ≤ fuel)
    have hcollision : remove fuel s.m_collision_entry_list y.node = .error .assertion := by
      rw [remove, removeKey, removeImpl, h.none]
      rfl
    simp only [RemoveEntry, hsearch, bind, Except.bind, h.unlinked y hy, if_pos, hcollision]
    split
    · rw [hremove]
    · rfl
  · exact absurd hsame (hfree x hx)

theorem Lists.updateSize_absent (h : s.Lists table) (hpath : IsPath m max_path_length path text)
    (hashes : HashesAgree m path text.length) (hfuel : 2 ^ 32 < fuel)
    (hfree : ∀ x ∈ table, hashText x.path ≠ hashText text) (new_size : BitVec 32) :
    s.UpdateSize m fuel path new_size = .ok (s, false) := by
  obtain ⟨x, hx, hsame, -⟩ | ⟨-, hsearch⟩ := h.searchEntry hpath hashes hfuel
  · exact absurd hsame (hfree x hx)
  · simp only [UpdateSize, hsearch, bind, Except.bind, pure, Except.pure]

theorem Lists.updateSize (h : s.Lists table) (hpath : IsPath m max_path_length path text)
    (hashes : HashesAgree m path text.length) (hfuel : 2 ^ 32 < fuel) {x : Entry} (hx : x ∈ table)
    (hsame : hashText x.path = hashText text) (new_size : BitVec 32) :
    ∃ s', s.UpdateSize m fuel path new_size = .ok (s', true) ∧
      s'.Lists (table.map (Entry.updated x.path new_size)) := by
  obtain ⟨y, hy, hysame, hsearch⟩ | ⟨hfree, -⟩ := h.searchEntry hpath hashes hfuel
  · obtain rfl := h.eq_of_hash hx hy (hsame.trans hysame.symm)
    refine ⟨{ s with size := Function.update s.size x.node new_size }, ?_, ?_⟩
    · simp only [UpdateSize, hsearch, bind, Except.bind, pure, Except.pure]
    · constructor
      · rw [List.map_map]
        exact h.tree
      · exact h.none
      · intro z hz
        obtain ⟨y, hy, rfl⟩ := List.mem_map.mp hz
        exact h.unlinked y hy
      · intro z hz
        obtain ⟨y, hy, rfl⟩ := List.mem_map.mp hz
        exact h.key y hy
      · intro z hz
        obtain ⟨y, hy, rfl⟩ := List.mem_map.mp hz
        dsimp only [Entry.updated]
        split
        · case isTrue hpath =>
          obtain rfl := h.eq_of_hash hy hx (congrArg hashText hpath)
          exact Function.update_self ..
        · case isFalse hpath =>
          have hne : y.node ≠ x.node := by
            intro hnode
            exact hpath (congrArg Entry.path (h.eq_of_node hy hx hnode))
          rw [Function.update_of_ne hne]
          exact h.size y hy
  · exact absurd hsame (hfree x hx)

end ResourceSizeTableBuilder

end Awn.ResourceSizeTable
