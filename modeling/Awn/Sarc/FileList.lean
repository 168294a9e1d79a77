import Awn.Calls.Throughout
import Awn.Sarc.Extractor
import Awn.Sorted.Insertion

/-! The list of files of a builder, over all calls of `AddFile`. -/

namespace Awn.Sarc

open Sorted (Turn insertNode)

def SarcFileNode.hash (hash_seed : BitVec 32) (node : SarcFileNode) : ℕ :=
  (CalculateSarcHash hash_seed node.m_file_path).toNat

def pathTurn (hash_seed : BitVec 32) (file_node node : SarcFileNode) : Turn :=
  if file_node.m_file_path = node.m_file_path then .isPresent
  else if node.hash hash_seed < file_node.hash hash_seed then .goOn
  else .link

section Insertion

variable {hash_seed : BitVec 32} {file_node node : SarcFileNode} {nodes nodes' : List SarcFileNode}

theorem SarcFileNode.hash_congr (h : file_node.m_file_path = node.m_file_path) :
    file_node.hash hash_seed = node.hash hash_seed := by
  rw [SarcFileNode.hash, SarcFileNode.hash, h]

theorem insertSorted_eq : insertSorted hash_seed file_node nodes =
    match insertNode (pathTurn hash_seed file_node) file_node nodes with
    | none => .error .ResultDuplicatePath
    | some nodes' => .ok nodes' := by
  induction nodes with
  | nil => rfl
  | cons node nodes ih =>
    rw [insertSorted, insertNode, pathTurn]
    by_cases hpath : file_node.m_file_path = node.m_file_path
    · rw [if_pos hpath, if_pos hpath]
    · rw [if_neg hpath, if_neg hpath]
      by_cases hhash : node.hash hash_seed < file_node.hash hash_seed
      · rw [if_pos hhash, if_pos (BitVec.lt_def.mpr hhash), ih]
        cases insertNode (pathTurn hash_seed file_node) file_node nodes with
        | none => rfl
        | some nodes' => rfl
      · rw [if_neg hhash, if_neg (fun h => hhash (BitVec.lt_def.mp h))]

theorem insertSorted_ok (h : insertSorted hash_seed file_node nodes = .ok nodes') :
    insertNode (pathTurn hash_seed file_node) file_node nodes = some nodes' := by
  rw [insertSorted_eq] at h
  cases hi : insertNode (pathTurn hash_seed file_node) file_node nodes with
  | none =>
    rw [hi] at h
    cases h
  | some nodes'' =>
    rw [hi] at h
    cases h
    rfl

theorem insertSorted_perm (h : insertSorted hash_seed file_node nodes = .ok nodes') :
    nodes'.Perm (file_node :: nodes) :=
  Sorted.insertNode_perm (insertSorted_ok h)

theorem pathTurn_tells (hash_seed : BitVec 32) (file_node node : SarcFileNode) :
    Sorted.Tells (pathTurn hash_seed file_node) (·.hash hash_seed) (file_node.hash hash_seed) node where
  less h := by
    have hpath : file_node.m_file_path ≠ node.m_file_path :=
      fun hp => absurd (SarcFileNode.hash_congr hp) (Nat.ne_of_gt h)
    rw [pathTurn, if_neg hpath, if_pos h]
  greater h := by
    have hpath : file_node.m_file_path ≠ node.m_file_path :=
      fun hp => absurd (SarcFileNode.hash_congr hp) (Nat.ne_of_lt h)
    rw [pathTurn, if_neg hpath, if_neg (Nat.lt_asymm h)]

def firstOfHash (hash_seed : BitVec 32) (nodes : List SarcFileNode) (file_node : SarcFileNode) :
    Option SarcFileNode :=
  nodes.find? fun node => node.hash hash_seed = file_node.hash hash_seed

theorem insertNode_eq_none_iff
    (hsorted : nodes.Pairwise fun a b => a.hash hash_seed ≤ b.hash hash_seed) :
    insertNode (pathTurn hash_seed file_node) file_node nodes = none ↔
      ∃ node, firstOfHash hash_seed nodes file_node = some node ∧
        node.m_file_path = file_node.m_file_path := by
  induction nodes with
  | nil =>
    constructor
    · intro h
      cases h
    · rintro ⟨node, h, -⟩
      cases h
  | cons node nodes ih =>
    rw [List.pairwise_cons] at hsorted
    rw [firstOfHash, List.find?_cons]
    by_cases hpath : file_node.m_file_path = node.m_file_path
    · have hhash : node.hash hash_seed = file_node.hash hash_seed :=
        (SarcFileNode.hash_congr hpath).symm
      rw [Sorted.insertNode_isPresent (by rw [pathTurn, if_pos hpath]), decide_eq_true hhash]
      exact ⟨fun _ => ⟨node, rfl, hpath.symm⟩, fun _ => rfl⟩
    · rcases Nat.lt_trichotomy (node.hash hash_seed) (file_node.hash hash_seed) with hlt | heq | hgt
      · rw [Sorted.insertNode_goOn ((pathTurn_tells hash_seed file_node node).less hlt),
          Option.map_eq_none_iff, decide_eq_false (Nat.ne_of_lt hlt)]
        exact ih hsorted.2
      · have hlink : pathTurn hash_seed file_node node = .link := by
          rw [pathTurn, if_neg hpath, if_neg (by omega)]
        rw [Sorted.insertNode_link hlink, decide_eq_true heq]
        constructor
        · intro h
          cases h
        · rintro ⟨n, hn, hp⟩
          cases hn
          exact absurd hp.symm hpath
      · rw [Sorted.insertNode_link ((pathTurn_tells hash_seed file_node node).greater hgt),
          decide_eq_false (Nat.ne_of_gt hgt)]
        constructor
        · intro h
          cases h
        · rintro ⟨n, hn, hp⟩
          have hmem := List.mem_of_find?_eq_some hn
          have hle := hsorted.1 n hmem
          have hsame : n.hash hash_seed = file_node.hash hash_seed := SarcFileNode.hash_congr hp
          omega

end Insertion

def AddFile.next (builder : SarcBuilder) (file_node : SarcFileNode) : SarcBuilder :=
  match AddFile builder file_node with
  | .error _ => builder
  | .ok builder => builder

def SarcBuilder.Has (builder : SarcBuilder) (file_node : SarcFileNode) : Prop :=
  ∃ node ∈ builder.m_file_list, node.m_file_path = file_node.m_file_path

structure SarcBuilder.Ordered (builder : SarcBuilder) : Prop where
  ascending : builder.m_file_list.Pairwise fun a b =>
    a.hash builder.m_hash_seed ≤ b.hash builder.m_hash_seed
  distinct : builder.m_file_list.Pairwise fun a b => a.m_file_path ≠ b.m_file_path

def RefusesPresent (builder : SarcBuilder) (file_node : SarcFileNode) : Prop :=
  builder.Has file_node → (∃ e, AddFile builder file_node = .error e) ∧
    AddFile.next builder file_node = builder

def KeepsOrder : SarcBuilder → List SarcFileNode → Prop :=
  Calls.Throughout AddFile.next SarcBuilder.Ordered RefusesPresent

def PresentIsFirst (builder : SarcBuilder) (file_node : SarcFileNode) : Prop :=
  file_node.m_file_path ≠ [] → builder.Has file_node →
    ∃ node, firstOfHash builder.m_hash_seed builder.m_file_list file_node = some node ∧
      node.m_file_path = file_node.m_file_path

def PresentAreFirst : SarcBuilder → List SarcFileNode → Prop :=
  Calls.EachIn AddFile.next PresentIsFirst

section Calls

variable {builder : SarcBuilder} {file_node : SarcFileNode}

theorem AddFile_eq (hpath : file_node.m_file_path ≠ []) : AddFile builder file_node =
    match insertNode (pathTurn builder.m_hash_seed file_node) file_node builder.m_file_list with
    | none => .error .ResultDuplicatePath
    | some nodes => .ok { builder with m_file_list := nodes } := by
  rw [AddFile, if_neg hpath, insertSorted_eq]
  cases insertNode (pathTurn builder.m_hash_seed file_node) file_node builder.m_file_list with
  | none => rfl
  | some nodes => rfl

theorem AddFile_refuses (h : PresentIsFirst builder file_node) (ho : builder.Ordered) :
    RefusesPresent builder file_node := by
  intro hhas
  by_cases hpath : file_node.m_file_path = []
  · have hadd : AddFile builder file_node = .error .ResultInvalidPath := by
      rw [AddFile, if_pos hpath]
    exact ⟨⟨_, hadd⟩, by rw [AddFile.next, hadd]⟩
  · have hadd : AddFile builder file_node = .error .ResultDuplicatePath := by
      rw [AddFile_eq hpath, (insertNode_eq_none_iff ho.ascending).mpr (h hpath hhas)]
    exact ⟨⟨_, hadd⟩, by rw [AddFile.next, hadd]⟩

theorem presentIsFirst_of_refuses (h : RefusesPresent builder file_node) (ho : builder.Ordered) :
    PresentIsFirst builder file_node := by
  intro hpath hhas
  obtain ⟨⟨e, hadd⟩, -⟩ := h hhas
  apply (insertNode_eq_none_iff ho.ascending).mp
  rw [AddFile_eq hpath] at hadd
  cases hi : insertNode (pathTurn builder.m_hash_seed file_node) file_node builder.m_file_list with
  | none => rfl
  | some nodes =>
    rw [hi] at hadd
    cases hadd

theorem AddFile_ordered (h : RefusesPresent builder file_node) (ho : builder.Ordered) :
    (AddFile.next builder file_node).Ordered := by
  rw [AddFile.next]
  cases hadd : AddFile builder file_node with
  | error e => exact ho
  | ok builder' =>
    have hpath : file_node.m_file_path ≠ [] := by
      intro hp
      rw [AddFile, if_pos hp] at hadd
      cases hadd
    rw [AddFile_eq hpath] at hadd
    cases hi : insertNode (pathTurn builder.m_hash_seed file_node) file_node builder.m_file_list with
    | none =>
      rw [hi] at hadd
      cases hadd
    | some nodes =>
      rw [hi] at hadd
      cases hadd
      constructor
      · exact Sorted.insertNode_sorted (fun node _ => pathTurn_tells _ file_node node) ho.ascending hi
      · apply ((Sorted.insertNode_perm hi).pairwise_iff (fun hab => Ne.symm hab)).mpr
        apply List.pairwise_cons.mpr
        refine ⟨?_, ho.distinct⟩
        intro node hnode hsame
        obtain ⟨⟨e, hrefused⟩, -⟩ := h ⟨node, hnode, hsame.symm⟩
        rw [AddFile_eq hpath, hi] at hrefused
        cases hrefused

end Calls

/-- Over every sequence of calls, files with an equal hash included: the list stays in order and no
path comes in twice if and only if each path that is added again stands first of its hash. -/
theorem addFiles_keepsOrder_iff (hash_seed : BitVec 32) (files : List SarcFileNode) :
    KeepsOrder { m_hash_seed := hash_seed } files ↔
      PresentAreFirst { m_hash_seed := hash_seed } files := by
  apply Calls.throughout_iff (U := fun _ _ => True)
  · exact fun _ ho => ho
  · intro builder file_node ho _ hfirst
    have hrefuses := AddFile_refuses hfirst ho
    exact ⟨hrefuses, AddFile_ordered hrefuses ho⟩
  · exact fun builder file_node ho _ hrefuses _ => presentIsFirst_of_refuses hrefuses ho
  · exact ⟨List.Pairwise.nil, List.Pairwise.nil⟩
  · exact Calls.eachIn_true

theorem AddFile_not_keepsOrder :
    ¬∀ (hash_seed : BitVec 32) (files : List SarcFileNode),
      KeepsOrder { m_hash_seed := hash_seed } files := by
  intro h
  have hlist : (AddFile.next (AddFile.next {} ⟨[0x01, 0x9b, 0x61], [], 4⟩)
      ⟨[0x61], [], 4⟩).m_file_list = [⟨[0x61], [], 4⟩, ⟨[0x01, 0x9b, 0x61], [], 4⟩] := rfl
  obtain ⟨-, -, -, -, -, hrefuses, -⟩ := h cDefaultHashSeed
    [⟨[0x01, 0x9b, 0x61], [], 4⟩, ⟨[0x61], [], 4⟩, ⟨[0x01, 0x9b, 0x61], [], 4⟩]
  obtain ⟨⟨e, he⟩, -⟩ := hrefuses
    ⟨⟨[0x01, 0x9b, 0x61], [], 4⟩, hlist ▸ List.mem_cons_of_mem _ List.mem_cons_self, rfl⟩
  cases he

end Awn.Sarc
