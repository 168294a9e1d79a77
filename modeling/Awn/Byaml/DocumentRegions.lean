import Awn.Byaml.DocumentOffsets
import Awn.Memory.Strcmp

/-! Where `ByamlBuilder` puts the regions of a document, and when they keep apart. -/

namespace Awn.Byaml

open Memory

universe u

mutual

theorem ByamlNode.PushStrings_eq {N D : Type u} : ∀ node : ByamlNode N D, node.PushStrings = []
  | .Scalar n scalar => by rw [ByamlNode.PushStrings]
  | .BigData n m_big_data_node => by
    rw [ByamlNode.PushStrings]
    exact m_big_data_node.PushStrings_eq

theorem ByamlBigDataNode.PushStrings_eq {N D : Type u} :
    ∀ node : ByamlBigDataNode N D, node.PushStrings = []
  | .Container d container m_node_list => by
    rw [ByamlBigDataNode.PushStrings]
    exact pushStrings_eq m_node_list
  | .Wide d wide => by rw [ByamlBigDataNode.PushStrings]
  | .Binary d binary => by rw [ByamlBigDataNode.PushStrings]

theorem pushStrings_eq {N D : Type u} : ∀ nodes : List (ByamlNode N D), pushStrings nodes = []
  | [] => by rw [pushStrings]
  | node :: nodes => by
    rw [pushStrings, node.PushStrings_eq, pushStrings_eq nodes]
    rfl

end

namespace ByamlBuilder

variable {N D : Type u}

def documentData : Option (ByamlNode N D) → List (ByamlBigDataNode N D)
  | none => []
  | some root => root.bigData

def measuredSize (m_root_node : Option (ByamlNode N D)) : ℕ :=
  containerEnd (documentData m_root_node) (bigEnd (documentData m_root_node) 0x10)

def EmptySingle (root : ByamlNode N D) : Prop :=
  isSingle root = true ∧ ∃ n d container, root = .BigData n (.Container d container [])

def containerSize (root : ByamlNode N D) : ℕ :=
  let size := containerEnd root.bigData (bigEnd root.bigData 0x10) - bigEnd root.bigData 0x10
  if size = 0 then 8 else size

theorem containerSize_pos (root : ByamlNode N D) : containerSize root ≠ 0 := by
  rw [containerSize]
  split
  · exact Nat.succ_ne_zero 7
  · assumption

theorem containerSize_cases (root : ByamlNode N D) : containerSize root = 8 ∨
    ∃ n d container nodes, root = .BigData n (.Container d container nodes) ∧
      (container.size (dataTypes nodes)).toNat ≤ containerSize root := by
  have hnone : ∀ m_big_data_node : ByamlBigDataNode N D, m_big_data_node.bigData = [m_big_data_node] →
      m_big_data_node.containerBlocks = [] → ∀ n, containerSize (.BigData n m_big_data_node) = 8 := by
    intro m_big_data_node hself hblocks n
    have hend : ∀ x, containerEnd [m_big_data_node] x = x := by
      intro x
      rw [containerEnd, List.flatMap_singleton, hblocks]
      rfl
    rw [containerSize, ByamlNode.bigData, hself, hend, Nat.sub_self, if_pos rfl]
  cases root with
  | Scalar n scalar =>
    left
    rw [containerSize, ByamlNode.bigData]
    exact if_pos (Nat.sub_self _)
  | BigData n m_big_data_node =>
    cases m_big_data_node with
    | Container d container nodes =>
      right
      refine ⟨n, d, container, nodes, rfl, ?_⟩
      rw [containerSize, ByamlNode.bigData, ByamlBigDataNode.bigData, containerEnd_container]
      generalize bigEnd _ 0x10 = start
      have hup := le_up (a := 4) (x := start + (container.size (dataTypes nodes)).toNat) (by decide)
      have hrest := le_containerEnd (bigDataOf nodes)
        (up 4 (start + (container.size (dataTypes nodes)).toNat))
      split
      · omega
      · omega
    | Wide d wide => exact Or.inl (hnone _ rfl rfl n)
    | Binary d binary => exact Or.inl (hnone _ rfl rfl n)

theorem root_mem {n : N} {m_big_data_node : ByamlBigDataNode N D} :
    m_big_data_node ∈ (ByamlNode.BigData n m_big_data_node).bigData := by
  rw [ByamlNode.bigData]
  exact m_big_data_node.mem_bigData

section Sizes

variable {root : ByamlNode N D} (hmeasured : ∀ z ∈ root.bigData, z.Measured)
include hmeasured

theorem four_le_containerSize : 4 ≤ containerSize root := by
  obtain height | ⟨n, d, container, nodes, rfl, hle⟩ := containerSize_cases root
  · omega
  · have hcounted : container.Counted nodes.length := hmeasured _ root_mem
    rw [← length_dataTypes] at hcounted
    exact Nat.le_trans (ByamlContainer.four_le_size hcounted) hle

theorem eight_le_containerSize (hsingle : isSingle root = true) (h : ¬EmptySingle root) :
    8 ≤ containerSize root := by
  obtain height | ⟨n, d, container, nodes, rfl, hle⟩ := containerSize_cases root
  · omega
  · have hcounted : container.Counted nodes.length := hmeasured _ root_mem
    rw [← length_dataTypes] at hcounted
    have hne : dataTypes nodes ≠ [] := by
      intro hnil
      have hlength := length_dataTypes nodes
      rw [hnil] at hlength
      obtain rfl := List.eq_nil_of_length_eq_zero hlength.symm
      exact h ⟨hsingle, n, d, container, rfl⟩
    exact Nat.le_trans (ByamlContainer.eight_le_size hcounted hne) hle

theorem containerSize_emptySingle (h : EmptySingle root) : containerSize root = 4 := by
  obtain ⟨hsingle, n, d, container, rfl⟩ := h
  have hcounted : container.Counted 0 := hmeasured _ root_mem
  have htype : (ByamlNode.BigData n (.Container d container []) : ByamlNode N D).GetByamlDataType =
      container.GetByamlDataType [] := by
    rw [ByamlNode.GetByamlDataType, ByamlBigDataNode.GetByamlDataType, dataTypes]
  rw [isSingle, htype] at hsingle
  have hsize : (container.size []).toNat = 4 := by
    cases container with
    | Array m_data_type_mode =>
      cases m_data_type_mode with
      | Auto => exact absurd hsingle (by decide)
      | MonoTyped => exact absurd hsingle (by decide)
      | MultiTyped => exact absurd hsingle (by decide)
    | Dictionary m_is_index_remap =>
      cases m_is_index_remap with
      | false => exact absurd hsingle (by decide)
      | true => exact absurd hsingle (by decide)
    | HashArray m_is_index_remap m_key_size =>
      have hremap := ByamlContainer.CalculateRemapSize_le
        (show ([] : List ByamlDataType).length < 2 ^ 32 by decide) m_is_index_remap
      rw [ByamlContainer.size_hashArray (by decide) _ (show m_key_size.toNat ≤ 8 from hcounted.key)]
      exact Nat.le_antisymm (by simpa using hremap) (by omega)
  have hbig : ∀ x, bigEnd ([] : List (ByamlBigDataNode N D)) x = x := fun _ => rfl
  have hcontainer : ∀ x, containerEnd ([] : List (ByamlBigDataNode N D)) x = x := fun _ => rfl
  rw [containerSize, ByamlNode.bigData, ByamlBigDataNode.bigData, bigDataOf, bigEnd_container,
    containerEnd_container, dataTypes, hsize, hbig, hcontainer]
  rfl

end Sizes

def InRegion (output : BitVec 64) (containers total : ℕ) (w : RegionWrite) : Prop :=
  (w.1 = .output ∧ w.2.Within output.toNat (output.toNat + total)) ∨
    (w.1 = .header ∧ w.2.Within output.toNat (output.toNat + 0x10)) ∨
    (w.1 = .bigData ∧ w.2.Within (output.toNat + 0x10) (output.toNat + containers)) ∨
    (w.1 = .container ∧ w.2.Within (output.toNat + containers) (output.toNat + total))

section Regions

variable {output : BitVec 64} {containers total : ℕ} {v w : RegionWrite}

theorem InRegion.inside (h : InRegion output containers total w) (hstart : 0x10 ≤ containers)
    (hend : containers ≤ total) : w.2.extent.Inside output total := by
  obtain ⟨-, hin⟩ | ⟨-, hin⟩ | ⟨-, hin⟩ | ⟨-, hin⟩ := h
  · exact hin
  · exact hin.mono (Nat.le_refl _) (by omega)
  · exact hin.mono (by omega) (by omega)
  · exact hin.mono (by omega) (Nat.le_refl _)

theorem InRegion.disjoint (hv : InRegion output containers total v)
    (hw : InRegion output containers total w) (hstart : 0x10 ≤ containers) (hvo : v.1 ≠ .output)
    (hwo : w.1 ≠ .output) (hne : v.1 ≠ w.1) : v.2.extent.Disjoint w.2.extent := by
  have hbefore : ∀ {a b : Write} {p q p' q' : ℕ}, a.Within p q → b.Within p' q' → q ≤ p' →
      a.extent.Disjoint b.extent := by
    intro a b p q p' q' ha hb hle
    exact Extent.disjoint_of_le (Nat.le_trans ha.2 hle) hb.1
  have hsymm : ∀ {a b : Write}, a.extent.Disjoint b.extent → b.extent.Disjoint a.extent := by
    intro a b h
    obtain h | h | h | h := h
    · exact Or.inr (Or.inl h)
    · exact Or.inl h
    · exact Or.inr (Or.inr (Or.inr h))
    · exact Or.inr (Or.inr (Or.inl h))
  obtain ⟨hv, -⟩ | ⟨hv, hvin⟩ | ⟨hv, hvin⟩ | ⟨hv, hvin⟩ := hv
  · exact absurd hv hvo
  · obtain ⟨hw, -⟩ | ⟨hw, hwin⟩ | ⟨hw, hwin⟩ | ⟨hw, hwin⟩ := hw
    · exact absurd hw hwo
    · exact absurd (hv.trans hw.symm) hne
    · exact hbefore hvin hwin (Nat.le_refl _)
    · exact hbefore hvin hwin (by omega)
  · obtain ⟨hw, -⟩ | ⟨hw, hwin⟩ | ⟨hw, hwin⟩ | ⟨hw, hwin⟩ := hw
    · exact absurd hw hwo
    · exact hsymm (hbefore hwin hvin (Nat.le_refl _))
    · exact absurd (hv.trans hw.symm) hne
    · exact hbefore hvin hwin (Nat.le_refl _)
  · obtain ⟨hw, -⟩ | ⟨hw, hwin⟩ | ⟨hw, hwin⟩ | ⟨hw, hwin⟩ := hw
    · exact absurd hw hwo
    · exact hsymm (hbefore hwin hvin (by omega))
    · exact hsymm (hbefore hwin hvin (Nat.le_refl _))
    · exact absurd (hv.trans hw.symm) hne

end Regions

variable [DecidableEq N] [DecidableEq D]
variable (strcmp : CString → CString → BitVec 32) (base : N → ByamlNodeBase) (fuel : ℕ)

def LaidOut (m_root_node : Option (ByamlNode N D)) (output : BitVec 64)
    (uninitialized : ByamlBuilderMemoryInfo) : Prop :=
  ∃ info writes m_offset,
    CalculateMemoryInfo strcmp base fuel m_root_node uninitialized = some info ∧
    Serialize strcmp base fuel m_root_node output info.total_size info (fun _ => cInvalidOffset) =
      some (writes, m_offset) ∧
    (∀ w ∈ writes, w.2.extent.Inside output info.total_size.toNat) ∧
    (∀ v ∈ writes, ∀ w ∈ writes, v.1 ≠ .output → w.1 ≠ .output → v.1 ≠ w.1 →
      v.2.extent.Disjoint w.2.extent) ∧
    ∀ d binary, .Binary d binary ∈ documentData m_root_node → binary.IsAligned →
      binary.m_data_alignment.toNat ∣ (m_offset d).toNat + 8

section Pools

variable {strcmp base fuel}

theorem poolInfo_sorted (fuel : ℕ) (keys : List N) :
    poolInfo strcmp base (fuel + 2) true keys = some ⟨0, 0, 0⟩ := by
  have hadd : ∃ b, ByamlStringPoolBuilder.addStrings strcmp (fun n => (base n).m_key) (fuel + 2)
      { m_is_sorted := true } keys = some b ∧ ByamlStringPoolBuilder.Stuck b ∧ b.links.Paired :=
    ByamlStringPoolBuilder.stuck_new.addStrings_eq Links.paired_alone (fuel + 1) keys
  obtain ⟨added, hadded, hstuck, hpaired⟩ := hadd
  have hends : ∃ b, ByamlStringPoolBuilder.CalculateMemoryInfo strcmp (fun n => (base n).m_key)
      (fuel + 2) added ⟨0, 0, 0⟩ = some (b, ⟨0, 0, 0⟩) :=
    hstuck.CalculateMemoryInfo_eq hpaired fuel ⟨0, 0, 0⟩
  obtain ⟨resolved, hresolved⟩ := hends
  rw [poolInfo, hadded]
  dsimp only
  rw [hresolved]
  rfl

theorem poolInfo_nil (fuel : ℕ) : poolInfo strcmp base (fuel + 2) false [] = some ⟨0, 0, 0⟩ := rfl

end Pools

structure Measures (root : ByamlNode N D) (info : ByamlBuilderMemoryInfo) : Prop where
  header : info.location_header.offset = 0
  key_table : info.location_key_table.size = 0
  string_pool : info.location_string_pool.size = 0
  big_data : ∀ n m_big_data_node, root = .BigData n m_big_data_node →
    info.location_big_data.offset = 0x10
  container : info.location_container.offset.toNat = bigEnd root.bigData 0x10
  container_size : info.location_container.size.toNat = containerSize root
  total : info.total_size.toNat = bigEnd root.bigData 0x10 + containerSize root

section Info

variable {strcmp base} {root : ByamlNode N D} (hmeasured : ∀ z ∈ root.bigData, z.Measured)
  (hfit : measuredSize (some root) + 8 ≤ 2 ^ 63)
include hmeasured hfit

variable (strcmp base) in
omit [DecidableEq D] in
theorem exists_measures (fuel : ℕ) (uninitialized : ByamlBuilderMemoryInfo) :
    ∃ info, CalculateMemoryInfo strcmp base (fuel + 2) (some root) uninitialized = some info ∧
      Measures root info := by
  rw [measuredSize, documentData] at hfit
  have hbig := le_bigEnd hmeasured 0x10
  have hcontainer := le_containerEnd root.bigData (bigEnd root.bigData 0x10)
  have hmono : containerEnd root.bigData 0x10 ≤ containerEnd root.bigData (bigEnd root.bigData 0x10) :=
    serial_mono aligned_containerBlocks hbig
  have hfirst := root.endOffsets_at ⟨0x10, 0x10⟩ 0x10 0x10 hmeasured ⟨rfl, rfl⟩ (by omega) (by omega)
  have hends := root.endOffsets_at
    ⟨0x10, (root.CalculateBigDataEndOffsets ⟨0x10, 0x10⟩).big_data_offset⟩ 0x10
    (bigEnd root.bigData 0x10) hmeasured ⟨rfl, hfirst.big_data⟩ (by omega) (by omega)
  rw [CalculateMemoryInfo, root.PushStrings_eq, poolInfo_sorted, poolInfo_nil]
  refine ⟨_, rfl, ?_⟩
  have hbase : (0x10 + 0 + 0 : BitVec 64) = 0x10 := rfl
  dsimp only
  rw [hbase]
  generalize root.CalculateBigDataEndOffsets
    ⟨0x10, (root.CalculateBigDataEndOffsets ⟨0x10, 0x10⟩).big_data_offset⟩ = ends at hends
  have hsub : (ends.container_offset - ends.big_data_offset).toNat =
      containerEnd root.bigData (bigEnd root.bigData 0x10) - bigEnd root.bigData 0x10 := by
    rw [BitVec.toNat_sub, hends.container, hends.big_data]
    omega
  have hsize : (if ends.container_offset - ends.big_data_offset = 0 then 8
      else ends.container_offset - ends.big_data_offset : BitVec 64).toNat = containerSize root := by
    have hnull : (0 : BitVec 64).toNat = 0 := rfl
    rw [containerSize, ← hsub]
    split
    · rename_i hzero
      rw [hzero, hnull, if_pos rfl]
      rfl
    · rename_i hne
      have hnat : (ends.container_offset - ends.big_data_offset).toNat ≠ 0 :=
        fun hzero => hne (BitVec.eq_of_toNat_eq hzero)
      rw [if_neg hnat]
  have hle : containerSize root ≤ containerEnd root.bigData (bigEnd root.bigData 0x10) -
      bigEnd root.bigData 0x10 + 8 := by
    rw [containerSize]
    split
    · omega
    · omega
  constructor
  · rfl
  · rfl
  · rfl
  · rintro n m_big_data_node rfl
    rfl
  · exact hends.big_data
  · exact hsize
  · dsimp only
    rw [BitVec.toNat_add, hsize, hends.big_data]
    omega

end Info

def walk (root : ByamlNode N D) (output : BitVec 64) (info : ByamlBuilderMemoryInfo) :
    List RegionWrite × ByamlProgress D :=
  root.SerializeForBigData base (fun _ => 0xffffffff) output {
    big_data_offset := output + info.location_big_data.offset
    container_offset := output + info.location_container.offset
    m_offset := fun _ => cInvalidOffset }

def startWrites (output output_size : BitVec 64) : List RegionWrite :=
  [(.output, ⟨output, List.replicate output_size.toNat 0⟩),
    (.header, ⟨output, wordBytes 2 0x4259⟩), (.header, ⟨output + 2, wordBytes 2 10⟩)]

variable {strcmp base fuel}

variable (strcmp base fuel) in
theorem Serialize_eq {root : ByamlNode N D} {info : ByamlBuilderMemoryInfo} (h : Measures root info)
    (output output_size : BitVec 64) :
    Serialize strcmp base fuel (some root) output output_size info (fun _ => cInvalidOffset) =
      some (startWrites output output_size ++ (walk base root output info).1 ++
        serializeRoot root output (output + info.location_container.offset)
          (walk base root output info).2.m_offset, (walk base root output info).2.m_offset) := by
  have hne : info.location_container.size ≠ 0 := by
    intro hzero
    apply containerSize_pos root
    rw [← h.container_size, hzero]
    rfl
  rw [Serialize]
  dsimp only
  rw [if_pos h.key_table, if_pos h.string_pool]
  dsimp only
  have hhead : output + 0 = output := BitVec.add_zero output
  rw [if_neg hne, h.header, hhead, List.append_nil, List.append_nil]
  rfl

theorem Serialize_none {info : ByamlBuilderMemoryInfo} (h : info.location_header.offset = 0)
    (output output_size : BitVec 64) (m_offset : D → BitVec 32) :
    Serialize strcmp base fuel (none : Option (ByamlNode N D)) output output_size info m_offset =
      some (startWrites output output_size, m_offset) := by
  have hhead : output + 0 = output := BitVec.add_zero output
  rw [Serialize, h, hhead]
  rfl

omit [DecidableEq N] [DecidableEq D] in
theorem startWrites_inRegion {output total_size : BitVec 64} {containers total : ℕ}
    (hout : output.toNat ≤ 2 ^ 63) (htotal : total_size.toNat = total) :
    ∀ w ∈ startWrites output total_size, InRegion output containers total w := by
  have htwo : (2 : BitVec 64).toNat = 2 := rfl
  have hsecond : (output + 2).toNat = output.toNat + 2 := by
    rw [BitVec.toNat_add, htwo]
    omega
  refine List.forall_mem_cons.mpr ⟨Or.inl ⟨rfl, Nat.le_refl _, ?_⟩, List.forall_mem_cons.mpr
    ⟨Or.inr (Or.inl ⟨rfl, Nat.le_refl _, ?_⟩), List.forall_mem_singleton.mpr
      (Or.inr (Or.inl ⟨rfl, ?_, ?_⟩))⟩⟩
  · rw [List.length_replicate, htotal]
  · rw [length_wordBytes]
    exact Nat.add_le_add_left (by decide) _
  · rw [hsecond]
    exact Nat.le_add_right _ _
  · rw [hsecond, length_wordBytes]
    omega

variable (base) in
omit [DecidableEq N] in
theorem walk_settled {root : ByamlNode N D} (info : ByamlBuilderMemoryInfo) (output : BitVec 64)
    (hdocument : IsDocument root.bigData) :
    AllSettled output (walk base root output info).2.m_offset root.bigData := by
  refine (root.serialize_visits base (fun _ => 0xffffffff) hdocument _ (fun z hz => hz) ?_).settled
  intro z _ _ hset
  exact absurd rfl hset

section Root

variable {root : ByamlNode N D} {info : ByamlBuilderMemoryInfo} {output : BitVec 64}
  (h : Measures root info) (hfit : output.toNat + measuredSize (some root) + 8 ≤ 2 ^ 63)
include h hfit

omit [DecidableEq N] [DecidableEq D] in
theorem container_base_toNat : (output + info.location_container.offset).toNat =
    output.toNat + bigEnd root.bigData 0x10 := by
  have hle := le_containerEnd root.bigData (bigEnd root.bigData 0x10)
  rw [measuredSize, documentData] at hfit
  rw [BitVec.toNat_add, h.container]
  omega

omit [DecidableEq N] in
theorem walk_inRegion (hsound : ∀ z ∈ root.bigData, z.Sound output.toNat) :
    ∀ w ∈ (walk base root output info).1,
      InRegion output (bigEnd root.bigData 0x10) info.total_size.toNat w := by
  cases root with
  | Scalar n scalar =>
    intro w hw
    rw [walk, ByamlNode.SerializeForBigData] at hw
    cases hw
  | BigData n m_big_data_node =>
    have hcontainer := container_base_toNat h hfit
    have hle := le_containerEnd (ByamlNode.BigData n m_big_data_node).bigData
      (bigEnd (ByamlNode.BigData n m_big_data_node).bigData 0x10)
    have hbigEnd := le_bigEnd (fun z hz => (hsound z hz).1) 0x10
    have hsize : containerEnd (ByamlNode.BigData n m_big_data_node).bigData
        (bigEnd (ByamlNode.BigData n m_big_data_node).bigData 0x10) ≤ info.total_size.toNat := by
      rw [h.total, containerSize]
      split
      · omega
      · omega
    rw [measuredSize, documentData] at hfit
    have hsixteen : (0x10 : BitVec 64).toNat = 0x10 := rfl
    have hstart : (output + info.location_big_data.offset).toNat = output.toNat + 0x10 := by
      rw [BitVec.toNat_add, h.big_data n m_big_data_node rfl, hsixteen]
      omega
    have hholds := (ByamlNode.serialize_holds base (fun _ => 0xffffffff) output
      (r := {
        big_start := output.toNat + 0x10
        big_end := output.toNat + bigEnd (ByamlNode.BigData n m_big_data_node).bigData 0x10
        container_start := output.toNat + bigEnd (ByamlNode.BigData n m_big_data_node).bigData 0x10
        container_end := output.toNat + containerEnd (ByamlNode.BigData n m_big_data_node).bigData
          (bigEnd (ByamlNode.BigData n m_big_data_node).bigData 0x10) })
      (.BigData n m_big_data_node) {
        big_data_offset := output + info.location_big_data.offset
        container_offset := output + info.location_container.offset
        m_offset := fun _ => cInvalidOffset } 0x10
      (bigEnd (ByamlNode.BigData n m_big_data_node).bigData 0x10) hsound
      ⟨Nat.le_of_eq hstart.symm, Nat.le_of_eq hstart, Nat.le_of_eq hcontainer.symm,
        Nat.le_of_eq hcontainer⟩
      ⟨Nat.le_refl _, Nat.le_refl _, by dsimp only; omega, by dsimp only; omega⟩).1
    intro w hw
    obtain ⟨hw, hin⟩ | ⟨hw, hin⟩ := hholds w hw
    · exact Or.inr (Or.inr (Or.inl ⟨hw, hin⟩))
    · exact Or.inr (Or.inr (Or.inr ⟨hw, hin.mono (Nat.le_refl _) (Nat.add_le_add_left hsize _)⟩))

omit [DecidableEq N] [DecidableEq D] in
theorem serializeRoot_inRegion {m_offset : D → BitVec 32}
    (hmeasured : ∀ z ∈ root.bigData, z.Measured) (hroot : ¬EmptySingle root) :
    ∀ w ∈ serializeRoot root output (output + info.location_container.offset) m_offset,
      InRegion output (bigEnd root.bigData 0x10) info.total_size.toNat w := by
  have hcontainer := container_base_toNat h hfit
  have hfour := four_le_containerSize hmeasured
  have hbytes := root.length_bytes m_offset
  have hle := le_containerEnd root.bigData (bigEnd root.bigData 0x10)
  rw [measuredSize, documentData] at hfit
  have htwelve : (0xc : BitVec 64).toNat = 0xc := rfl
  have hfour' : (4 : BitVec 64).toNat = 4 := rfl
  have hfield : (output + 0xc).toNat = output.toNat + 0xc := by
    rw [BitVec.toNat_add, htwelve]
    omega
  have hvalue : (output + info.location_container.offset + 4).toNat =
      output.toNat + bigEnd root.bigData 0x10 + 4 := by
    rw [BitVec.toNat_add, hcontainer, hfour']
    omega
  rw [h.total]
  refine List.forall_mem_cons.mpr ⟨Or.inr (Or.inl ⟨rfl, ?_, ?_⟩), ?_⟩
  · rw [hfield]
    omega
  · rw [hfield, length_wordBytes, Nat.add_assoc]
  · split
    · rename_i hsingle
      have height := eight_le_containerSize hmeasured hsingle hroot
      refine List.forall_mem_cons.mpr ⟨Or.inr (Or.inr (Or.inr ⟨rfl, ?_, ?_⟩)),
        List.forall_mem_singleton.mpr (Or.inr (Or.inr (Or.inr ⟨rfl, ?_, ?_⟩)))⟩
      · rw [hcontainer]
      · rw [hcontainer, List.length_singleton]
        omega
      · rw [hvalue]
        omega
      · rw [hvalue]
        dsimp only
        omega
    · refine List.forall_mem_singleton.mpr (Or.inr (Or.inr (Or.inr ⟨rfl, ?_, ?_⟩)))
      · rw [hcontainer]
      · rw [hcontainer]
        dsimp only
        omega

end Root

/-- A document keeps to its layout if and only if the output is aligned for all its data, and its
root is not an empty hash array with remap. -/
theorem document_laidOut_iff (strcmp : CString → CString → BitVec 32) (base : N → ByamlNodeBase)
    {fuel : ℕ} (hfuel : 2 ≤ fuel) (m_root_node : Option (ByamlNode N D)) {output : BitVec 64}
    (hfit : output.toNat + measuredSize m_root_node + 8 ≤ 2 ^ 63)
    (uninitialized : ByamlBuilderMemoryInfo)
    (hshared : ∀ a ∈ documentData m_root_node, ∀ b ∈ documentData m_root_node,
      a.self = b.self → a = b)
    (hmeasured : ∀ z ∈ documentData m_root_node, z.Measured) :
    LaidOut strcmp base fuel m_root_node output uninitialized ↔
      (∀ d binary, .Binary d binary ∈ documentData m_root_node → binary.IsAligned →
        binary.m_data_alignment.toNat ∣ output.toNat) ∧
      ∀ root, m_root_node = some root → ¬EmptySingle root := by
  obtain ⟨fuel, rfl⟩ := Nat.exists_eq_add_of_le' hfuel
  cases m_root_node with
  | none =>
    constructor
    · intro _
      exact ⟨fun d binary hmem => (by cases hmem), fun root hroot => (by cases hroot)⟩
    · intro _
      have hin : ∀ w ∈ startWrites output 0x10, InRegion output 0x10 0x10 w :=
        startWrites_inRegion (by omega) rfl
      exact ⟨_, _, _, rfl, Serialize_none rfl output 0x10 _,
        fun w hw => (hin w hw).inside (Nat.le_refl _) (Nat.le_refl _),
        fun v hv w hw => (hin v hv).disjoint (hin w hw) (Nat.le_refl _),
        fun d binary hmem => (by cases hmem)⟩
  | some root =>
    obtain ⟨info, hinfo, h⟩ := exists_measures strcmp base hmeasured (by omega) fuel uninitialized
    have hserialize := Serialize_eq strcmp base (fuel + 2) h output info.total_size
    have hdocument : IsDocument root.bigData := ⟨hshared, root.bigData_closed, hmeasured⟩
    have hsettled := walk_settled base info output hdocument
    constructor
    · rintro ⟨info', writes, m_offset, hinfo', hserialize', hinside, -, haligned⟩
      obtain rfl := Option.some.inj (hinfo.symm.trans hinfo')
      cases Option.some.inj (hserialize.symm.trans hserialize')
      refine ⟨fun d binary hmem halign =>
        (hsettled d binary hmem halign).mp (haligned d binary hmem halign), ?_⟩
      -- the value of the root stands behind its type, and behind the end
      rintro _ hroot hempty
      cases Option.some.inj hroot
      have hsize := containerSize_emptySingle hmeasured hempty
      have hcontainer := container_base_toNat h hfit
      have htotal := h.total
      have hlast := (hinside (.container, ⟨output + info.location_container.offset + 4, root.bytes
        (walk base root output info).2.m_offset⟩) (by
          apply List.mem_append_right
          apply List.mem_cons_of_mem
          rw [if_pos hempty.1]
          exact List.mem_cons_of_mem _ List.mem_cons_self)).2
      have hbytes : (root.bytes (walk base root output info).2.m_offset).length = 4 := by
        obtain ⟨-, n, d, container, rfl⟩ := hempty
        rfl
      have hfour : (4 : BitVec 64).toNat = 4 := rfl
      have hle := le_containerEnd root.bigData (bigEnd root.bigData 0x10)
      rw [measuredSize, documentData] at hfit
      rw [Write.extent] at hlast
      dsimp only at hlast
      rw [BitVec.toNat_add, hcontainer, hfour, hbytes] at hlast
      omega
    · rintro ⟨hdivides, hroot⟩
      have hsound : ∀ z ∈ root.bigData, z.Sound output.toNat := by
        intro z hz
        refine ⟨hmeasured z hz, ?_⟩
        cases z with
        | Container d container m_node_list => trivial
        | Wide d wide => trivial
        | Binary d binary => exact hdivides d binary hz
      have hstart := le_bigEnd hmeasured 0x10
      have hend : bigEnd root.bigData 0x10 ≤ info.total_size.toNat := by
        rw [h.total]
        exact Nat.le_add_right _ _
      have hin : ∀ w ∈ startWrites output info.total_size ++ (walk base root output info).1 ++
          serializeRoot root output (output + info.location_container.offset)
            (walk base root output info).2.m_offset,
          InRegion output (bigEnd root.bigData 0x10) info.total_size.toNat w :=
        List.forall_mem_append.mpr ⟨List.forall_mem_append.mpr
          ⟨startWrites_inRegion (by omega) rfl, walk_inRegion h hfit hsound⟩,
          serializeRoot_inRegion h hfit hmeasured (hroot root rfl)⟩
      exact ⟨info, _, _, hinfo, hserialize, fun w hw => (hin w hw).inside hstart hend,
        fun v hv w hw => (hin v hv).disjoint (hin w hw) hstart,
        fun d binary hmem halign =>
          (hsettled d binary hmem halign).mpr (hdivides d binary hmem halign)⟩

example : EmptySingle (.BigData () (.Container () (.HashArray true 4) []) : ByamlNode Unit Unit) :=
  ⟨by decide, (), (), _, rfl⟩

def alignedByte : ByamlBinary where
  m_data := some fun _ => 0x2a
  m_data_size := 1
  m_data_alignment := 0x10

def alignedRoot : ByamlNode Unit Unit := .BigData () (.Binary () alignedByte)

def unmeasured : ByamlBuilderMemoryInfo :=
  ⟨0, 0, ⟨0, 0, 0⟩, ⟨0, 0, 0⟩, ⟨0, 0, 0⟩, ⟨0, 0, 0⟩, ⟨0, 0, 0⟩⟩

theorem document_laidOut_iff_alignedRoot :
    LaidOut (fun a b => byteDifference a.1 b.1) (fun _ => {}) 2 (some alignedRoot) 0x1000 unmeasured ↔
      (∀ d binary, .Binary d binary ∈ documentData (some alignedRoot) → binary.IsAligned →
        binary.m_data_alignment.toNat ∣ (0x1000 : BitVec 64).toNat) ∧
      ∀ root, some alignedRoot = some root → ¬EmptySingle root := by
  apply document_laidOut_iff _ _ (by decide) _ (by decide +kernel)
  · intro a ha b hb _
    exact (List.mem_singleton.mp ha).trans (List.mem_singleton.mp hb).symm
  · intro z hz
    obtain rfl := List.mem_singleton.mp hz
    exact fun _ => ⟨4, rfl⟩

/-- At an address that is a multiple of four, the largest alignment that is ever asked for, the byte
is at 28. -/
theorem alignedRoot_not_laidOut :
    ¬LaidOut (fun a b => byteDifference a.1 b.1) (fun _ => {}) 2 (some alignedRoot) 0x1004
      unmeasured := by
  rintro ⟨info, writes, m_offset, hinfo, hserialize, -, -, haligned⟩
  have hoffset : ((CalculateMemoryInfo (fun a b => byteDifference a.1 b.1) (fun _ => {}) 2
      (some alignedRoot) unmeasured).bind fun info =>
        (Serialize (fun a b => byteDifference a.1 b.1) (fun _ => {}) 2 (some alignedRoot) 0x1004
          info.total_size info fun _ => cInvalidOffset).map fun r => r.2 ()) = some 0x14 := by
    decide +kernel
  rw [hinfo, Option.bind_some, hserialize, Option.map_some, Option.some_inj] at hoffset
  change m_offset () = 0x14 at hoffset
  have hmultiple := haligned () alignedByte (List.mem_singleton_self _) ⟨rfl, by decide⟩
  rw [hoffset] at hmultiple
  exact absurd hmultiple (by decide)

end ByamlBuilder

end Awn.Byaml
