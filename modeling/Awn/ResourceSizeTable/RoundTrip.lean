import Awn.Calls.Throughout
import Awn.ResourceSizeTable.Serialized

/-! What is put into a table of sizes is found in its file, as long as no two hashes are one. -/

namespace Awn.ResourceSizeTable

open IntrusiveTree Memory
open Crc32 (hashText HashesAgree)

def Entry.Alone (table : List Entry) (x : Entry) : Prop :=
  ∀ y ∈ table, hashText y.path = hashText x.path → y = x

/-- The sizes of the table are read from the file, and none for other paths. -/
structure Reads (table : List Entry) (m : Bytes) (max_path_length : BitVec 32) (e : Extractor) :
    Prop where
  present : ∀ x ∈ table, ∀ path, IsPath m max_path_length path x.path →
    HashesAgree m path x.path.length →
      ∃ enough, ∀ fuel ≥ enough, e.TryGetResourceSize m fuel path = some x.size
  absent : ∀ path text, IsPath m max_path_length path text → HashesAgree m path text.length →
    (∀ x ∈ table, x.path ≠ text) →
      (∀ x ∈ table, x.Alone table → hashText x.path ≠ hashText text) →
        ∃ enough, ∀ fuel ≥ enough, e.TryGetResourceSize m fuel path = some cInvalidSize

def Serializes (fuel : ℕ) (max_path_length : BitVec 32) (s : ResourceSizeTableBuilder)
    (table : List Entry) : Prop :=
  ∀ m (file : BitVec 64) (file_size : BitVec 32) serialized_size, file ≠ 0 →
    file.toNat + file_size.toNat < 2 ^ 64 →
      s.CalculateSerializedSize fuel max_path_length = .ok serialized_size →
        serialized_size ≤ file_size.setWidth 64 →
          ∃ m', s.Serialize m fuel file (file_size.setWidth 64) max_path_length = .ok m' ∧
            ∀ (e : Extractor) max_path, ∃ e',
              e.Initialize m' file file_size max_path = (e', true) ∧
                Reads table m' max_path_length e'

namespace ResourceSizeTableBuilder

variable {s : ResourceSizeTableBuilder} {table : List Entry} {m : Bytes} {fuel : ℕ}
  {max_path_length : BitVec 32} {file : BitVec 64}

theorem Laid.sortedByHash {nodes : List Addr} (h : s.Laid m file nodes)
    (hroom : file.toNat + 0x16 + 0x8 * nodes.length < 2 ^ 64)
    (hsorted : Sorted s.m_crc32_entry_list nodes) : (extractor m file).SortedByHash m := by
  have hcount : (extractor m file).m_resource_size_crc32_count.toNat = nodes.length := h.count
  intro i j hij hj
  rw [BitVec.le_def] at hij
  rw [BitVec.lt_def, hcount] at hj
  obtain heq | hlt := Nat.eq_or_lt_of_le hij
  · rw [BitVec.eq_of_toNat_eq heq]
    exact BitVec.le_refl _
  · rw [(h.pathCrc32 hroom hj).1, (h.pathCrc32 hroom (Nat.lt_trans hlt hj)).1, BitVec.le_def]
    exact Nat.le_of_lt (List.pairwise_iff_getElem.mp hsorted i.toNat j.toNat _ hj hlt)

theorem Lists.searches (h : s.Lists table) {t : RedBlack.ColoredTree Addr}
    (ht : IsRedBlack s.m_crc32_entry_list t) (hperm : t.toList.Perm (table.map (·.node)))
    (hlaid : s.Laid m file t.toList) (hroom : file.toNat + 0x16 + 0x8 * table.length < 2 ^ 64)
    (hsize : 0x16 + 0x8 * table.length < 2 ^ 32) (hash : BitVec 32) :
    (∀ x ∈ table, hashText x.path = hash → ∃ enough, ∀ fuel ≥ enough,
      (extractor m file).TryGetResourceSizeByCrc32 m fuel hash = some x.size) ∧
    ((∀ x ∈ table, hashText x.path ≠ hash) → ∃ enough, ∀ fuel ≥ enough,
      (extractor m file).TryGetResourceSizeByCrc32 m fuel hash = some cInvalidSize) := by
  have hlength := hperm.length_eq
  rw [List.length_map] at hlength
  rw [← hlength] at hroom hsize
  have hcount : (extractor m file).m_resource_size_crc32_count.toNat = t.toList.length := hlaid.count
  have hsearches : (extractor m file).Searches m hash :=
    ResourceSizeTableExtractor.searches_of_le (by omega)
  -- every place of the file is that of an entry
  have hentry : ∀ i, (extractor m file).Has i → ∃ x ∈ table,
      (extractor m file).pathCrc32 m i = hashText x.path ∧
        (extractor m file).resourceSize m i = x.size := by
    rintro i ⟨-, hi⟩
    rw [BitVec.lt_def, hcount] at hi
    obtain ⟨hpath, hsize⟩ := hlaid.pathCrc32 hroom hi
    obtain ⟨x, hx, hnode⟩ := List.mem_map.mp (hperm.mem_iff.mp (List.getElem_mem hi))
    rw [← hnode, h.key x hx] at hpath
    rw [← hnode, h.size x hx] at hsize
    exact ⟨x, hx, hpath, hsize⟩
  constructor
  · rintro x hx rfl
    obtain ⟨i, hi, hnode⟩ := List.getElem_of_mem (hperm.mem_iff.mpr (List.mem_map_of_mem hx))
    have htoNat : (BitVec.ofNat 32 i).toNat = i := by
      rw [BitVec.toNat_ofNat]
      exact Nat.mod_eq_of_lt (by omega)
    have hhas : (extractor m file).Has (BitVec.ofNat 32 i) := by
      constructor
      · intro hnull
        have hzero := congrArg BitVec.toNat hnull
        rw [extractor, BitVec.toNat_add_of_lt (by
          rw [show (0x16 : BitVec 64).toNat = 0x16 from rfl]
          omega), show (0x16 : BitVec 64).toNat = 0x16 from rfl] at hzero
        exact absurd hzero (Nat.ne_of_gt (Nat.add_pos_right _ (by decide)))
      · rw [BitVec.lt_def, hcount, htoNat]
        exact hi
    have hpath := (hlaid.pathCrc32 hroom (by rw [htoNat]; exact hi)).1
    simp only [htoNat, hnode, h.key x hx] at hpath
    obtain ⟨j, hj, hsame, henough⟩ :=
      hsearches.present (hlaid.sortedByHash hroom ht.sorted) ⟨_, hhas, hpath⟩
    obtain ⟨y, hy, hypath, hysize⟩ := hentry j hj
    obtain rfl := h.eq_of_hash hx hy (hsame.symm.trans hypath)
    rw [← hysize]
    exact henough
  · intro habsent
    apply hsearches.absent
    rintro ⟨i, hi, hpath⟩
    obtain ⟨x, hx, hxpath, -⟩ := hentry i hi
    exact habsent x hx (hxpath.symm.trans hpath)

theorem Lists.serializes (h : s.Lists table) (hfuel : 2 ^ 32 < fuel) :
    Serializes fuel max_path_length s table := by
  intro m file file_size serialized_size hfile hroom hcalculate hsize
  have hle := h.length_le
  have hlt := file_size.isLt
  rw [h.calculateSerializedSize hfuel, Except.ok.injEq] at hcalculate
  rw [← hcalculate, BitVec.le_def, BitVec.toNat_ofNat, Nat.mod_eq_of_lt (by omega),
    widen_toNat] at hsize
  obtain ⟨t, m', ht, hperm, hserialize, hlaid⟩ := h.serialize m max_path_length hfuel hfile
    (by rwa [widen_toNat] : file.toNat + (file_size.setWidth 64).toNat < 2 ^ 64)
    (by rwa [widen_toNat]) (by rwa [widen_toNat])
  refine ⟨m', hserialize, ?_⟩
  intro e max_path
  have height : 0x8 ≤ file_size := by
    rw [BitVec.le_def, show (0x8 : BitVec 32).toNat = 0x8 from rfl]
    omega
  have hsearches := h.searches ht hperm hlaid (by omega) (by omega)
  refine ⟨extractor m' file, hlaid.initialize hfile height, ?_⟩
  constructor
  · intro x hx path hpath hashes
    obtain ⟨enough, henough⟩ := (hsearches (hashText x.path)).1 x hx rfl
    refine ⟨max enough (x.path.length + 1), ?_⟩
    intro fuel hfuel
    rw [Extractor.tryGetResourceSize_eq rfl (hpath.hashCrc32b_eq hashes (by omega))]
    exact henough fuel (by omega)
  · intro path text hpath hashes habsent hfree
    have hnone : ∀ x ∈ table, hashText x.path ≠ hashText text := by
      intro x hx
      exact hfree x hx fun y hy hsame => h.eq_of_hash hy hx hsame
    obtain ⟨enough, henough⟩ := (hsearches (hashText text)).2 hnone
    refine ⟨max enough (text.length + 1), ?_⟩
    intro fuel hfuel
    rw [Extractor.tryGetResourceSize_eq rfl (hpath.hashCrc32b_eq hashes (by omega))]
    exact henough fuel (by omega)

end ResourceSizeTableBuilder

inductive CallKind
  | AddEntry (node : Addr) (size : BitVec 32)
  | RemoveEntry
  | UpdateSize (new_size : BitVec 32)

structure Call where
  m : Bytes
  path : ℕ
  text : List (BitVec 8)
  kind : CallKind

structure Run where
  builder : Except Fault ResourceSizeTableBuilder
  table : List Entry

def Call.apply (fuel : ℕ) (c : Call) (s : ResourceSizeTableBuilder) :
    Except Fault ResourceSizeTableBuilder :=
  match c.kind with
  | .AddEntry node size => (s.addNew c.m fuel node c.path size).map Prod.fst
  | .RemoveEntry => (s.RemoveEntry c.m fuel c.path).map Prod.fst
  | .UpdateSize new_size => (s.UpdateSize c.m fuel c.path new_size).map Prod.fst

def Call.put (c : Call) (table : List Entry) : List Entry :=
  match c.kind with
  | .AddEntry node size =>
    if ∃ x ∈ table, x.path = c.text then table else ⟨node, c.text, size⟩ :: table
  | .RemoveEntry => table.filter (·.path ≠ c.text)
  | .UpdateSize new_size => table.map (Entry.updated c.text new_size)

def step (fuel : ℕ) (s : Run) (c : Call) : Run := ⟨s.builder.bind (c.apply fuel), c.put s.table⟩

def start : Run := ⟨.ok .constructed, []⟩

def Legal (max_path_length : BitVec 32) (s : Run) (c : Call) : Prop :=
  IsPath c.m max_path_length c.path c.text ∧
    match c.kind with
    | .AddEntry node _ => ∀ x ∈ s.table, x.node ≠ node
    | _ => True

def Unique (s : Run) (c : Call) : Prop :=
  HashesAgree c.m c.path c.text.length ∧
    match c.kind with
    | .RemoveEntry => ∀ x ∈ s.table, hashText x.path ≠ hashText c.text
    | _ => ∀ x ∈ s.table, x.path ≠ c.text → hashText x.path ≠ hashText c.text

def RoundTrips (fuel : ℕ) (max_path_length : BitVec 32) (s : Run) : Prop :=
  ∃ b, s.builder = .ok b ∧ Serializes fuel max_path_length b s.table

def Succeeds (fuel : ℕ) (s : Run) (c : Call) : Prop :=
  match c.kind with
  | .AddEntry node size => (∀ x ∈ s.table, x.path ≠ c.text) →
    ∃ b b', s.builder = .ok b ∧ b.addNew c.m fuel node c.path size = .ok (b', true)
  | _ => True

variable {fuel : ℕ} {max_path_length : BitVec 32} {s : Run} {c : Call}

def Kept (s : Run) : Prop := ∃ b, s.builder = .ok b ∧ b.Lists s.table

theorem kept_start : Kept start := ⟨_, rfl, .constructed⟩

theorem Kept.roundTrips (hfuel : 2 ^ 32 < fuel) (h : Kept s) :
    RoundTrips fuel max_path_length s := by
  obtain ⟨b, hb, hlists⟩ := h
  exact ⟨b, hb, hlists.serializes hfuel⟩

theorem Entry.updated_eq {text : List (BitVec 8)} {x : Entry} (h : x.path ≠ text)
    (new_size : BitVec 32) : x.updated text new_size = x := by
  rw [Entry.updated, if_neg h]

theorem Kept.step (hfuel : 2 ^ 32 < fuel) (h : Kept s) (hlegal : Legal max_path_length s c)
    (hunique : Unique s c) : Succeeds fuel s c ∧ Kept (step fuel s c) := by
  obtain ⟨b, hb, hlists⟩ := h
  obtain ⟨m, path, text, kind⟩ := c
  obtain ⟨hpath, hlegal⟩ := hlegal
  obtain ⟨hashes, hunique⟩ := hunique
  have hstep : ∀ b', Call.apply fuel ⟨m, path, text, kind⟩ b = .ok b' →
      b'.Lists (Call.put ⟨m, path, text, kind⟩ s.table) →
        Kept (ResourceSizeTable.step fuel s ⟨m, path, text, kind⟩) := by
    intro b' happly hlists'
    refine ⟨b', ?_, hlists'⟩
    rw [ResourceSizeTable.step, hb]
    exact happly
  cases kind with
  | AddEntry node size =>
    by_cases hpresent : ∃ x ∈ s.table, x.path = text
    · obtain ⟨x, hx, hxpath⟩ := hpresent
      obtain ⟨b', hadd, hlists'⟩ :=
        hlists.add_taken hpath hashes hfuel hlegal hx (congrArg hashText hxpath) size
      refine ⟨fun hnew => absurd hxpath (hnew x hx), hstep b' ?_ ?_⟩
      · change (b.addNew m fuel node path size).map Prod.fst = _
        rw [hadd]
        rfl
      · change b'.Lists (if ∃ x ∈ s.table, x.path = text then s.table
          else ⟨node, text, size⟩ :: s.table)
        rw [if_pos ⟨x, hx, hxpath⟩]
        exact hlists'
    · have hfree : ∀ x ∈ s.table, hashText x.path ≠ hashText text :=
        fun x hx => hunique x hx fun hxpath => hpresent ⟨x, hx, hxpath⟩
      obtain ⟨b', hadd, hlists'⟩ := hlists.add hpath hashes hfuel hlegal hfree size
      refine ⟨fun _ => ⟨b, b', hb, hadd⟩, hstep b' ?_ ?_⟩
      · change (b.addNew m fuel node path size).map Prod.fst = _
        rw [hadd]
        rfl
      · change b'.Lists (if ∃ x ∈ s.table, x.path = text then s.table
          else ⟨node, text, size⟩ :: s.table)
        rw [if_neg hpresent]
        exact hlists'
  | RemoveEntry =>
    refine ⟨trivial, hstep b ?_ ?_⟩
    · change (b.RemoveEntry m fuel path).map Prod.fst = _
      rw [hlists.removeEntry hpath hashes hfuel hunique]
      rfl
    · have hall : s.table.filter (·.path ≠ text) = s.table := by
        rw [List.filter_eq_self]
        intro x hx
        exact decide_eq_true fun hxpath => hunique x hx (congrArg hashText hxpath)
      change b.Lists (s.table.filter (·.path ≠ text))
      rw [hall]
      exact hlists
  | UpdateSize new_size =>
    refine ⟨trivial, ?_⟩
    by_cases hpresent : ∃ x ∈ s.table, x.path = text
    · obtain ⟨x, hx, rfl⟩ := hpresent
      obtain ⟨b', hupdate, hlists'⟩ := hlists.updateSize hpath hashes hfuel hx rfl new_size
      refine hstep b' ?_ hlists'
      change (b.UpdateSize m fuel path new_size).map Prod.fst = _
      rw [hupdate]
      rfl
    · have hnew : ∀ x ∈ s.table, x.path ≠ text := fun x hx hxpath => hpresent ⟨x, hx, hxpath⟩
      have hfree : ∀ x ∈ s.table, hashText x.path ≠ hashText text :=
        fun x hx => hunique x hx (hnew x hx)
      refine hstep b ?_ ?_
      · change (b.UpdateSize m fuel path new_size).map Prod.fst = _
        rw [hlists.updateSize_absent hpath hashes hfuel hfree]
        rfl
      · have hall : s.table.map (Entry.updated text new_size) = s.table := by
          rw [List.map_congr_left fun x hx => Entry.updated_eq (hnew x hx) new_size, List.map_id']
        change b.Lists (s.table.map (Entry.updated text new_size))
        rw [hall]
        exact hlists

def memoryAb : Bytes := fun i => [0x61, 0x62][i - 0x10]?.getD 0

theorem isPath_ab : IsPath memoryAb 0x80 0x10 [0x61, 0x62] where
  pointer := by decide
  holds := by
    constructor
    · intro i hi
      rw [memoryAb, Nat.add_sub_cancel_left, List.getElem?_eq_getElem hi]
      rfl
    · rfl
  nonempty := by decide
  characters := by decide
  short := by decide

theorem hashes_ab : HashesAgree memoryAb 0x10 2 :=
  Crc32.hashesAgree_of_mod (isPath_ab.holds.isString isPath_ab.characters) (by decide) (by decide)

def addAb (size : BitVec 32) : Call := ⟨memoryAb, 0x10, [0x61, 0x62], .AddEntry 1 size⟩

theorem legal_addAb (size : BitVec 32) : Legal 0x80 start (addAb size) :=
  ⟨isPath_ab, fun _ hx => absurd hx List.not_mem_nil⟩

theorem unique_addAb (size : BitVec 32) : Unique start (addAb size) :=
  ⟨hashes_ab, fun _ hx => absurd hx List.not_mem_nil⟩

theorem table_addAb (fuel : ℕ) (size : BitVec 32) :
    (step fuel start (addAb size)).table = [⟨1, [0x61, 0x62], size⟩] := by
  simp [step, start, addAb, Call.put]

/-- As long as the hashes of all paths differ and nothing is removed, every new path is added and
the file has the last size of every path in it. -/
theorem roundTrips_of_unique (hfuel : 2 ^ 32 < fuel) (calls : List Call)
    (hcalls : Calls.EachIn (step fuel) (fun s c => Legal max_path_length s c ∧ Unique s c) start
      calls) :
    Calls.Throughout (step fuel) (RoundTrips fuel max_path_length) (Succeeds fuel) start calls := by
  have hkept : ∀ s, Kept s → RoundTrips fuel max_path_length s := fun s h => h.roundTrips hfuel
  refine (Calls.throughout_iff (F := fun _ _ => True) hkept ?_ ?_ kept_start hcalls).mpr
    Calls.eachIn_true
  · exact fun s c h hc _ => h.step hfuel hc.1 hc.2
  · exact fun _ _ _ _ _ _ => trivial

theorem roundTrips_of_unique_ab :
    Calls.Throughout (step (2 ^ 32 + 1)) (RoundTrips (2 ^ 32 + 1) 0x80) (Succeeds (2 ^ 32 + 1)) start
      [addAb 0x20, ⟨memoryAb, 0x10, [0x61, 0x62], .UpdateSize 0x40⟩] := by
  apply roundTrips_of_unique (Nat.lt_succ_self _)
  refine ⟨trivial, ⟨legal_addAb 0x20, unique_addAb 0x20⟩, trivial,
    ⟨⟨isPath_ab, trivial⟩, hashes_ab, ?_⟩, trivial⟩
  rw [table_addAb]
  intro x hx hne
  obtain rfl := List.mem_singleton.mp hx
  exact absurd rfl hne

theorem removed_not_roundTrips :
    ¬∀ fuel max_path_length calls, 2 ^ 32 < fuel →
      Calls.EachIn (step fuel) (Legal max_path_length) start calls →
        Calls.Throughout (step fuel) (RoundTrips fuel max_path_length) (Succeeds fuel) start
          calls := by
  intro h
  have hlt : 2 ^ 32 < 2 ^ 32 + 1 := Nat.lt_succ_self _
  have hrun := h _ _ [addAb 0x20, ⟨memoryAb, 0x10, [0x61, 0x62], .RemoveEntry⟩] hlt
    ⟨trivial, legal_addAb 0x20, trivial, ⟨isPath_ab, trivial⟩, trivial⟩
  obtain ⟨-, -, -, -, b', hb', -⟩ := hrun
  obtain ⟨-, b, hb, hlists⟩ := kept_start.step hlt (legal_addAb 0x20) (unique_addAb 0x20)
  rw [table_addAb] at hlists
  rw [step, hb] at hb'
  change (b.RemoveEntry memoryAb (2 ^ 32 + 1) 0x10).map Prod.fst = .ok b' at hb'
  rw [hlists.removeEntry_fails isPath_ab hashes_ab hlt List.mem_cons_self rfl] at hb'
  cases hb'

end Awn.ResourceSizeTable
