import Awn.Byaml.DocumentLayout

/-!
The offsets that the big data of a document gets. What stands in several places is written once, so
that what has an offset has been written with everything under it, apart from what is being written.
-/

namespace Awn.Byaml

open Memory

universe u

variable {N D : Type u}

mutual

theorem ByamlNode.bigData_closed : ∀ node : ByamlNode N D, ∀ z ∈ node.bigData, ∀ w ∈ z.bigData,
    w ∈ node.bigData
  | .Scalar n scalar => by
    intro z hz
    cases hz
  | .BigData n m_big_data_node => by
    rw [ByamlNode.bigData]
    exact m_big_data_node.bigData_closed

theorem ByamlBigDataNode.bigData_closed : ∀ node : ByamlBigDataNode N D, ∀ z ∈ node.bigData,
    ∀ w ∈ z.bigData, w ∈ node.bigData
  | .Container d container m_node_list => by
    intro z hz w hw
    rw [ByamlBigDataNode.bigData] at hz
    obtain rfl | hz := List.mem_cons.mp hz
    · exact hw
    · rw [ByamlBigDataNode.bigData]
      exact List.mem_cons_of_mem _ (bigDataOf_closed m_node_list z hz w hw)
  | .Wide d wide => by
    intro z hz w hw
    rw [ByamlBigDataNode.bigData] at hz
    obtain rfl := List.mem_singleton.mp hz
    exact hw
  | .Binary d binary => by
    intro z hz w hw
    rw [ByamlBigDataNode.bigData] at hz
    obtain rfl := List.mem_singleton.mp hz
    exact hw

theorem bigDataOf_closed : ∀ nodes : List (ByamlNode N D), ∀ z ∈ bigDataOf nodes, ∀ w ∈ z.bigData,
    w ∈ bigDataOf nodes
  | [] => by
    intro z hz
    cases hz
  | node :: nodes => by
    intro z hz w hw
    rw [bigDataOf] at hz ⊢
    obtain hz | hz := List.mem_append.mp hz
    · exact List.mem_append_left _ (node.bigData_closed z hz w hw)
    · exact List.mem_append_right _ (bigDataOf_closed nodes z hz w hw)

end

theorem ByamlBigDataNode.mem_bigData (node : ByamlBigDataNode N D) : node ∈ node.bigData := by
  cases node with
  | Container d container m_node_list =>
    rw [ByamlBigDataNode.bigData]
    exact List.mem_cons_self
  | Wide d wide =>
    rw [ByamlBigDataNode.bigData]
    exact List.mem_singleton_self _
  | Binary d binary =>
    rw [ByamlBigDataNode.bigData]
    exact List.mem_singleton_self _

structure IsDocument (all : List (ByamlBigDataNode N D)) : Prop where
  shared : ∀ a ∈ all, ∀ b ∈ all, a.self = b.self → a = b
  closed : ∀ z ∈ all, ∀ w ∈ z.bigData, w ∈ all
  measured : ∀ z ∈ all, z.Measured

variable (output : BitVec 64)

def Settled (m_offset : D → BitVec 32) (d : D) (binary : ByamlBinary) : Prop :=
  binary.m_data_alignment.toNat ∣ (m_offset d).toNat + 8 ↔
    binary.m_data_alignment.toNat ∣ output.toNat

def AllSettled (m_offset : D → BitVec 32) (nodes : List (ByamlBigDataNode N D)) : Prop :=
  ∀ d binary, .Binary d binary ∈ nodes → binary.IsAligned → Settled output m_offset d binary

structure Visits (all nodes : List (ByamlBigDataNode N D)) (m_offset m_offset' : D → BitVec 32) :
    Prop where
  frame : ∀ d, m_offset' d ≠ m_offset d → ∃ z ∈ nodes, z.self = d
  kept : ∀ d binary, .Binary d binary ∈ all → binary.IsAligned →
    Settled output m_offset d binary → Settled output m_offset' d binary
  settled : AllSettled output m_offset' nodes

def Visited (all : List (ByamlBigDataNode N D)) (m_offset : D → BitVec 32) (n : ℕ) : Prop :=
  ∀ z ∈ all, z.bigData.length < n → m_offset z.self ≠ cInvalidOffset →
    AllSettled output m_offset z.bigData

variable {output} {all nodes rest : List (ByamlBigDataNode N D)}
variable {m_offset m_offset' m_offset'' : D → BitVec 32} {n n' : ℕ}

theorem Visits.nil : Visits output all [] m_offset m_offset where
  frame _ hne := absurd rfl hne
  kept _ _ _ _ h := h
  settled _ _ hmem := by cases hmem

theorem Visits.append (h : Visits output all nodes m_offset m_offset')
    (h' : Visits output all rest m_offset' m_offset'') (hall : ∀ z ∈ nodes, z ∈ all) :
    Visits output all (nodes ++ rest) m_offset m_offset'' where
  frame d hne := by
    by_cases hsecond : m_offset'' d = m_offset' d
    · rw [hsecond] at hne
      obtain ⟨z, hz, hd⟩ := h.frame d hne
      exact ⟨z, List.mem_append_left _ hz, hd⟩
    · obtain ⟨z, hz, hd⟩ := h'.frame d hsecond
      exact ⟨z, List.mem_append_right _ hz, hd⟩
  kept d binary hmem halign hsettled :=
    h'.kept d binary hmem halign (h.kept d binary hmem halign hsettled)
  settled d binary hmem halign := by
    obtain hmem | hmem := List.mem_append.mp hmem
    · exact h'.kept d binary (hall _ hmem) halign (h.settled d binary hmem halign)
    · exact h'.settled d binary hmem halign

theorem Visited.mono (h : Visited output all m_offset n) (hn : n' ≤ n) :
    Visited output all m_offset n' :=
  fun z hz hlt => h z hz (Nat.lt_of_lt_of_le hlt hn)

theorem Visited.next (h : Visited output all m_offset n)
    (hvisits : Visits output all nodes m_offset m_offset') (hdocument : IsDocument all)
    (hall : ∀ z ∈ nodes, z ∈ all)
    (hnodes : ∀ z ∈ nodes, ∀ w ∈ z.bigData, w ∈ nodes) : Visited output all m_offset' n := by
  intro z hz hlt hset d binary hmem halign
  by_cases hsame : m_offset' z.self = m_offset z.self
  · rw [hsame] at hset
    exact hvisits.kept d binary (hdocument.closed z hz _ hmem) halign (h z hz hlt hset d binary hmem halign)
  · obtain ⟨w, hw, hself⟩ := hvisits.frame z.self hsame
    obtain rfl := hdocument.shared w (hall w hw) z hz hself
    exact hvisits.settled d binary (hnodes w hw _ hmem) halign

theorem settled_alignUp {align : BitVec 32} {k : ℕ} (x : BitVec 64) (hk : align.toNat = 2 ^ k) :
    2 ^ k ∣ ((alignUp x (align.setWidth 64) - 8 - output).setWidth 32).toNat + 8 ↔
      2 ^ k ∣ output.toNat := by
  have hlt := two_pow_lt hk
  have hplace : 2 ^ k ∣ (alignUp x (align.setWidth 64)).toNat := dvd_alignUp hk
  rw [← dvd_sub_iff (by omega) hplace]
  have hword : 2 ^ k ∣ 2 ^ 32 := Nat.pow_dvd_pow 2 (Nat.le_of_lt hlt)
  have hswap : alignUp x (align.setWidth 64) - 8 - output =
      alignUp x (align.setWidth 64) - output - 8 := by
    rw [BitVec.sub_eq_add_neg, BitVec.sub_eq_add_neg, BitVec.sub_eq_add_neg, BitVec.sub_eq_add_neg,
      BitVec.add_assoc, BitVec.add_assoc, BitVec.add_comm (-8)]
  have height : (8 : BitVec 64).toNat = 8 := rfl
  rw [hswap]
  generalize alignUp x (align.setWidth 64) - output = place
  rw [← Nat.dvd_mod_iff hword, ← Nat.dvd_mod_iff (m := place.toNat) hword, BitVec.toNat_setWidth,
    BitVec.toNat_sub, height]
  have hlast : ((2 ^ 64 - 8 + place.toNat) % 2 ^ 64 % 2 ^ 32 + 8) % 2 ^ 32 = place.toNat % 2 ^ 32 := by
    omega
  rw [hlast]

section Walk

variable [DecidableEq D] (base : N → ByamlNodeBase) (key_index : N → BitVec 32)

theorem ByamlWide.serialize_visits {wide : ByamlWide} {d : D} {s : ByamlProgress D}
    (h : IsDocument all) (hmem : (.Wide d wide : ByamlBigDataNode N D) ∈ all) :
    Visits output all [.Wide d wide] s.m_offset (wide.Serialize d output s).2.m_offset where
  frame e hne := by
    refine ⟨_, List.mem_singleton_self _, ?_⟩
    by_contra hother
    exact hne (Function.update_of_ne (Ne.symm hother) _ _)
  kept e binary he _ hsettled := by
    have hne : e ≠ d := by
      rintro rfl
      cases h.shared _ he _ hmem rfl
    rw [Settled]
    change _ ∣ (Function.update s.m_offset d _ e).toNat + 8 ↔ _
    rw [Function.update_of_ne hne]
    exact hsettled
  settled e binary he := by cases List.mem_singleton.mp he

theorem ByamlBinary.serialize_visits {binary : ByamlBinary} {d : D} {s : ByamlProgress D}
    (h : IsDocument all) (hmem : (.Binary d binary : ByamlBigDataNode N D) ∈ all) :
    Visits output all [.Binary d binary] s.m_offset (binary.Serialize d output s).2.m_offset := by
  by_cases hempty : binary.isEmpty = true
  · rw [ByamlBinary.Serialize, if_pos hempty]
    refine ⟨fun _ hne => absurd rfl hne, fun _ _ _ _ h => h, ?_⟩
    intro e other he halign
    cases List.mem_singleton.mp he
    exact absurd (hempty.symm.trans halign.1) Bool.noConfusion
  · have hthis : binary.IsAligned →
        Settled output (binary.Serialize d output s).2.m_offset d binary := by
      intro halign
      obtain ⟨k, hk⟩ := h.measured _ hmem halign
      rw [Settled, ByamlBinary.Serialize, if_neg hempty]
      dsimp only
      rw [Function.update_self, if_pos halign.2, hk]
      exact settled_alignUp _ hk
    have hothers : ∀ e, e ≠ d → (binary.Serialize d output s).2.m_offset e = s.m_offset e := by
      intro e hne
      rw [ByamlBinary.Serialize, if_neg hempty]
      exact Function.update_of_ne hne _ _
    refine ⟨?_, ?_, ?_⟩
    · intro e hne
      refine ⟨_, List.mem_singleton_self _, ?_⟩
      by_contra hother
      exact hne (hothers e (Ne.symm hother))
    · intro e other he halign hsettled
      by_cases hne : e = d
      · subst hne
        cases h.shared _ he _ hmem rfl
        exact hthis halign
      · rw [Settled, hothers e hne]
        exact hsettled
    · intro e other he halign
      cases List.mem_singleton.mp he
      exact hthis halign

mutual

theorem ByamlNode.serialize_visits (h : IsDocument all) : ∀ (node : ByamlNode N D) (s : ByamlProgress D),
    (∀ z ∈ node.bigData, z ∈ all) →
    Visited output all s.m_offset (node.bigData.length + 1) →
    Visits output all node.bigData s.m_offset
      (node.SerializeForBigData base key_index output s).2.m_offset
  | .Scalar n scalar => by
    intro s _ _
    rw [ByamlNode.SerializeForBigData, ByamlNode.bigData]
    exact Visits.nil
  | .BigData n m_big_data_node => by
    intro s hall hvisited
    rw [ByamlNode.SerializeForBigData]
    rw [ByamlNode.bigData] at hall hvisited ⊢
    split
    · rename_i hset
      refine ⟨fun _ hne => absurd rfl hne, fun _ _ _ _ h => h, ?_⟩
      exact hvisited m_big_data_node (hall _ m_big_data_node.mem_bigData) (Nat.lt_succ_self _) hset
    · exact m_big_data_node.serialize_visits h s hall (hvisited.mono (Nat.le_succ _))

theorem ByamlBigDataNode.serialize_visits (h : IsDocument all) : ∀ (node : ByamlBigDataNode N D) (s : ByamlProgress D),
    (∀ z ∈ node.bigData, z ∈ all) → Visited output all s.m_offset node.bigData.length →
    Visits output all node.bigData s.m_offset (node.Serialize base key_index output s).2.m_offset
  | .Container d container m_node_list => by
    intro s hall hvisited
    rw [ByamlBigDataNode.Serialize]
    have hself : ByamlBigDataNode.Container d container m_node_list ∈ all :=
      hall _ (ByamlBigDataNode.mem_bigData _)
    have hlength : (ByamlBigDataNode.Container d container m_node_list).bigData.length =
        (bigDataOf m_node_list).length + 1 := by
      rw [ByamlBigDataNode.bigData, List.length_cons]
    rw [ByamlBigDataNode.bigData] at hall ⊢
    rw [hlength] at hvisited
    dsimp only
    generalize (s.container_offset - output).setWidth 32 = offset
    -- the container has its offset before what is under it is written
    have hfirst : Visits output all [.Container d container m_node_list] s.m_offset
        (Function.update s.m_offset d offset) := by
      refine ⟨?_, ?_, ?_⟩
      · intro e hne
        refine ⟨_, List.mem_singleton_self _, ?_⟩
        by_contra hother
        exact hne (Function.update_of_ne (Ne.symm hother) _ _)
      · intro e binary he _ hsettled
        have hne : e ≠ d := by
          rintro rfl
          cases h.shared _ he _ hself rfl
        rw [Settled, Function.update_of_ne hne]
        exact hsettled
      · intro e binary he
        cases List.mem_singleton.mp he
    have hunder : Visited output all (Function.update s.m_offset d offset)
        ((bigDataOf m_node_list).length + 1) := by
      intro z hz hlt hset e binary he halign
      have hne : z.self ≠ d := by
        intro hd
        obtain rfl := h.shared z hz _ hself hd
        rw [hlength] at hlt
        exact absurd hlt (Nat.lt_irrefl _)
      rw [Function.update_of_ne hne] at hset
      exact hfirst.kept e binary (h.closed z hz _ he) halign (hvisited z hz hlt hset e binary he halign)
    have hall' : ∀ z ∈ bigDataOf m_node_list, z ∈ all := fun z hz => hall z (List.mem_cons_of_mem _ hz)
    have hrest := serializeNodes_visits h m_node_list container (dataTypes m_node_list)
      s.container_offset 0 { s with
        container_offset := s.container_offset +
          ((container.size (dataTypes m_node_list)).setWidth 32).setWidth 64
        m_offset := Function.update s.m_offset d offset } hall' hunder
    exact hfirst.append hrest fun z hz => by
      obtain rfl := List.mem_singleton.mp hz
      exact hself
  | .Wide d wide => by
    intro s hall _
    rw [ByamlBigDataNode.Serialize]
    rw [ByamlBigDataNode.bigData] at hall ⊢
    exact ByamlWide.serialize_visits h (hall _ (List.mem_singleton_self _))
  | .Binary d binary => by
    intro s hall _
    rw [ByamlBigDataNode.Serialize]
    rw [ByamlBigDataNode.bigData] at hall ⊢
    exact ByamlBinary.serialize_visits h (hall _ (List.mem_singleton_self _))

theorem serializeNodes_visits (h : IsDocument all) : ∀ (nodes : List (ByamlNode N D)) (container : ByamlContainer)
    (types : List ByamlDataType) (container_offset : BitVec 64) (i : BitVec 32)
    (s : ByamlProgress D), (∀ z ∈ bigDataOf nodes, z ∈ all) →
    Visited output all s.m_offset ((bigDataOf nodes).length + 1) →
    Visits output all (bigDataOf nodes) s.m_offset
      (serializeNodes base key_index output nodes container types container_offset i s).2.m_offset
  | [] => by
    intro container types container_offset i s _ _
    rw [serializeNodes, bigDataOf]
    exact Visits.nil
  | node :: nodes => by
    intro container types container_offset i s hall hvisited
    rw [serializeNodes]
    rw [bigDataOf] at hall hvisited ⊢
    obtain ⟨hhead, hrest⟩ := List.forall_mem_append.mp hall
    rw [List.length_append] at hvisited
    have hnode := node.serialize_visits h s hhead (hvisited.mono (by omega))
    have hnext := hvisited.next hnode h hhead node.bigData_closed
    exact hnode.append (serializeNodes_visits h nodes container types container_offset (i + 1) _ hrest
      (hnext.mono (by omega))) hhead

end

end Walk

end Awn.Byaml
