import Awn.Byaml.DocumentEntries

/-!
What `ByamlBuilder::Serialize` writes of a document, against what `CalculateMemoryInfo` measures of
it.
-/

namespace Awn.Byaml

open Memory

universe u

variable {N D : Type u}

mutual

def ByamlNode.bigData : ByamlNode N D → List (ByamlBigDataNode N D)
  | .Scalar _ _ => []
  | .BigData _ m_big_data_node => m_big_data_node.bigData

def ByamlBigDataNode.bigData : ByamlBigDataNode N D → List (ByamlBigDataNode N D)
  | .Container d container m_node_list =>
    .Container d container m_node_list :: bigDataOf m_node_list
  | .Wide d wide => [.Wide d wide]
  | .Binary d binary => [.Binary d binary]

def bigDataOf : List (ByamlNode N D) → List (ByamlBigDataNode N D)
  | [] => []
  | node :: nodes => node.bigData ++ bigDataOf nodes

end

def ByamlBinary.IsAligned (binary : ByamlBinary) : Prop :=
  binary.isEmpty = false ∧ binary.m_data_alignment ≠ ByamlBinary.cInvalidAlignment

def ByamlBigDataNode.bigBlocks : ByamlBigDataNode N D → List Block
  | .Container _ _ _ => []
  | .Wide _ _ => [⟨1, 8⟩]
  | .Binary _ binary =>
    if binary.isEmpty = true then []
    else if binary.m_data_alignment ≠ ByamlBinary.cInvalidAlignment then
      [⟨1, 8⟩, ⟨binary.m_data_alignment.toNat, binary.m_data_size.toNat⟩]
    else [⟨1, 4 + binary.m_data_size.toNat⟩]

def ByamlBigDataNode.containerBlocks : ByamlBigDataNode N D → List Block
  | .Container _ container m_node_list => [⟨1, (container.size (dataTypes m_node_list)).toNat⟩, ⟨4, 0⟩]
  | .Wide _ _ => []
  | .Binary _ _ => []

def bigEnd (nodes : List (ByamlBigDataNode N D)) (x : ℕ) : ℕ :=
  serial (nodes.flatMap ByamlBigDataNode.bigBlocks) x

def containerEnd (nodes : List (ByamlBigDataNode N D)) (x : ℕ) : ℕ :=
  serial (nodes.flatMap ByamlBigDataNode.containerBlocks) x

def ByamlBigDataNode.Measured : ByamlBigDataNode N D → Prop
  | .Container _ container m_node_list => container.Counted m_node_list.length
  | .Wide _ _ => True
  | .Binary _ binary => binary.IsAligned → ∃ k, binary.m_data_alignment.toNat = 2 ^ k

section Ends

variable {nodes rest : List (ByamlBigDataNode N D)} {x y : ℕ}

theorem bigEnd_append : bigEnd (nodes ++ rest) x = bigEnd rest (bigEnd nodes x) := by
  rw [bigEnd, List.flatMap_append, serial_append]
  rfl

theorem containerEnd_append :
    containerEnd (nodes ++ rest) x = containerEnd rest (containerEnd nodes x) := by
  rw [containerEnd, List.flatMap_append, serial_append]
  rfl

theorem aligned_bigBlocks (h : ∀ z ∈ nodes, z.Measured) :
    Aligned (nodes.flatMap ByamlBigDataNode.bigBlocks) := by
  intro b hb
  obtain ⟨z, hz, hb⟩ := List.mem_flatMap.mp hb
  have hmeasured := h z hz
  cases z with
  | Container d container m_node_list => cases hb
  | Wide d wide =>
    obtain rfl := List.mem_singleton.mp hb
    exact ⟨0, rfl⟩
  | Binary d binary =>
    rw [ByamlBigDataNode.bigBlocks] at hb
    split at hb
    · cases hb
    · rename_i hdata
      split at hb
      · rename_i halign
        obtain rfl | hb := List.mem_cons.mp hb
        · exact ⟨0, rfl⟩
        · obtain rfl := List.mem_singleton.mp hb
          exact hmeasured ⟨Bool.eq_false_of_not_eq_true hdata, halign⟩
      · obtain rfl := List.mem_singleton.mp hb
        exact ⟨0, rfl⟩

theorem aligned_containerBlocks :
    Aligned (nodes.flatMap ByamlBigDataNode.containerBlocks) := by
  intro b hb
  obtain ⟨z, hz, hb⟩ := List.mem_flatMap.mp hb
  cases z with
  | Container d container m_node_list =>
    obtain rfl | hb := List.mem_cons.mp hb
    · exact ⟨0, rfl⟩
    · obtain rfl := List.mem_singleton.mp hb
      exact ⟨2, rfl⟩
  | Wide d wide => cases hb
  | Binary d binary => cases hb

theorem le_bigEnd (h : ∀ z ∈ nodes, z.Measured) (x : ℕ) : x ≤ bigEnd nodes x :=
  le_serial (aligned_bigBlocks h) x

theorem le_containerEnd (nodes : List (ByamlBigDataNode N D)) (x : ℕ) : x ≤ containerEnd nodes x := le_serial aligned_containerBlocks x

theorem containerEnd_container {d : D} {container : ByamlContainer}
    {m_node_list : List (ByamlNode N D)} :
    containerEnd (.Container d container m_node_list :: rest) x =
      containerEnd rest (up 4 (x + (container.size (dataTypes m_node_list)).toNat)) := by
  change serial _ (up 4 (up 1 x + _) + 0) = _
  rw [up_eq (by decide) (Nat.one_dvd x)]
  rfl

theorem bigEnd_container {d : D} {container : ByamlContainer} {m_node_list : List (ByamlNode N D)} :
    bigEnd (.Container d container m_node_list :: rest) x = bigEnd rest x := rfl

theorem bigEnd_wide {d : D} {wide : ByamlWide} :
    bigEnd (N := N) [.Wide d wide] x = x + 8 := by
  change up 1 x + 8 = _
  rw [up_eq (by decide) (Nat.one_dvd x)]

theorem bigEnd_empty {d : D} {binary : ByamlBinary} (h : binary.isEmpty = true) :
    bigEnd (N := N) [.Binary d binary] x = x := by
  rw [bigEnd, List.flatMap_singleton, ByamlBigDataNode.bigBlocks, if_pos h]
  rfl

theorem bigEnd_aligned {d : D} {binary : ByamlBinary} (h : binary.IsAligned) :
    bigEnd (N := N) [.Binary d binary] x =
      up binary.m_data_alignment.toNat (x + 8) + binary.m_data_size.toNat := by
  rw [bigEnd, List.flatMap_singleton, ByamlBigDataNode.bigBlocks, if_neg (by simp [h.1]),
    if_pos h.2]
  change up _ (up 1 x + 8) + _ = _
  rw [up_eq (by decide) (Nat.one_dvd x)]

theorem bigEnd_plain {d : D} {binary : ByamlBinary} (h : binary.isEmpty = false)
    (halign : binary.m_data_alignment = ByamlBinary.cInvalidAlignment) :
    bigEnd (N := N) [.Binary d binary] x = x + (4 + binary.m_data_size.toNat) := by
  rw [bigEnd, List.flatMap_singleton, ByamlBigDataNode.bigBlocks, if_neg (by simp [h]),
    if_neg (not_not.mpr halign)]
  change up 1 x + _ = _
  rw [up_eq (by decide) (Nat.one_dvd x)]

end Ends

theorem length_dataTypes (nodes : List (ByamlNode N D)) : (dataTypes nodes).length = nodes.length := by
  induction nodes with
  | nil => rfl
  | cons node nodes ih => rw [dataTypes, List.length_cons, List.length_cons, ih]

section Measure

variable {iters : ByamlOffsets}

structure ByamlOffsets.At (iters : ByamlOffsets) (x y : ℕ) : Prop where
  big_data : iters.big_data_offset.toNat = x
  container : iters.container_offset.toNat = y

theorem endOffset_toNat {d : D} {binary : ByamlBinary} {big_data_offset : BitVec 64}
    (h : (ByamlBigDataNode.Binary d binary : ByamlBigDataNode N D).Measured)
    (hfit : bigEnd (N := N) [.Binary d binary] big_data_offset.toNat ≤ 2 ^ 63) :
    (binary.endOffset big_data_offset).toNat =
      bigEnd (N := N) [.Binary d binary] big_data_offset.toNat := by
  have hfour : (4 : BitVec 64).toNat = 4 := rfl
  have height : (8 : BitVec 64).toNat = 8 := rfl
  have hsize := widen_toNat binary.m_data_size
  by_cases hempty : binary.isEmpty = true
  · rw [bigEnd_empty hempty, ByamlBinary.endOffset, if_pos hempty]
  · have hdata : binary.isEmpty = false := Bool.eq_false_of_not_eq_true hempty
    rw [ByamlBinary.endOffset, if_neg hempty]
    by_cases halign : binary.m_data_alignment = ByamlBinary.cInvalidAlignment
    · rw [bigEnd_plain hdata halign] at hfit ⊢
      rw [if_neg (not_not.mpr halign), BitVec.toNat_add, BitVec.toNat_add, hfour, hsize]
      omega
    · have hneeds : binary.IsAligned := ⟨hdata, halign⟩
      rw [bigEnd_aligned hneeds] at hfit ⊢
      obtain ⟨k, hk⟩ := h hneeds
      have hup := le_up (x := big_data_offset.toNat + 8) (Nat.two_pow_pos k)
      rw [← hk] at hup
      have hstart : (big_data_offset + 8).toNat = big_data_offset.toNat + 8 := by
        rw [BitVec.toNat_add, height]
        omega
      rw [if_pos halign, BitVec.toNat_add, alignUp_widen hk (by omega), hstart, hsize, ← hk]
      omega

end Measure

mutual

theorem ByamlNode.endOffsets_at : ∀ (node : ByamlNode N D) (iters : ByamlOffsets) (x y : ℕ),
    (∀ z ∈ node.bigData, z.Measured) → iters.At x y → bigEnd node.bigData x ≤ 2 ^ 63 →
    containerEnd node.bigData y ≤ 2 ^ 63 →
    (node.CalculateBigDataEndOffsets iters).At (bigEnd node.bigData x)
      (containerEnd node.bigData y)
  | .Scalar n scalar => by
    intro iters x y _ hat _ _
    rw [ByamlNode.CalculateBigDataEndOffsets, ByamlNode.bigData]
    exact hat
  | .BigData n m_big_data_node => by
    intro iters x y h hat hx hy
    rw [ByamlNode.CalculateBigDataEndOffsets]
    rw [ByamlNode.bigData] at h hx hy ⊢
    exact m_big_data_node.endOffset_at _ _ _ h hat hx hy

theorem ByamlBigDataNode.endOffset_at : ∀ (node : ByamlBigDataNode N D) (iters : ByamlOffsets)
    (x y : ℕ), (∀ z ∈ node.bigData, z.Measured) → iters.At x y → bigEnd node.bigData x ≤ 2 ^ 63 →
    containerEnd node.bigData y ≤ 2 ^ 63 →
    (node.CalculateEndOffset iters).At (bigEnd node.bigData x) (containerEnd node.bigData y)
  | .Container d container m_node_list => by
    intro iters x y h hat hx hy
    rw [ByamlBigDataNode.CalculateEndOffset]
    rw [ByamlBigDataNode.bigData] at h hx hy ⊢
    obtain ⟨hcounted, hrest⟩ := List.forall_mem_cons.mp h
    rw [bigEnd_container] at hx ⊢
    rw [containerEnd_container] at hy ⊢
    apply endOffsetsOf_at m_node_list _ _ _ hrest _ hx hy
    refine ⟨hat.big_data, ?_⟩
    have hcount : container.Counted (dataTypes m_node_list).length := by
      rw [length_dataTypes]
      exact hcounted
    have hsize := ByamlContainer.size_lt hcount
    have hle := le_containerEnd (bigDataOf m_node_list)
      (up 4 (y + (container.size (dataTypes m_node_list)).toNat))
    have hup := le_up (a := 4) (x := y + (container.size (dataTypes m_node_list)).toNat) (by decide)
    have hstart : (iters.container_offset + container.size (dataTypes m_node_list)).toNat =
        y + (container.size (dataTypes m_node_list)).toNat := by
      rw [BitVec.toNat_add, hat.container]
      omega
    change (alignUp _ ((4 : BitVec 32).setWidth 64)).toNat = _
    rw [alignUp_widen (k := 2) rfl (by omega), hstart]
    rfl
  | .Wide d wide => by
    intro iters x y _ hat hx _
    have height : (8 : BitVec 64).toNat = 8 := rfl
    have hbig := hat.big_data
    rw [ByamlBigDataNode.CalculateEndOffset]
    rw [ByamlBigDataNode.bigData, bigEnd_wide] at hx ⊢
    refine ⟨?_, hat.container⟩
    rw [BitVec.toNat_add, hbig, height]
    omega
  | .Binary d binary => by
    intro iters x y h hat hx _
    have hbig := hat.big_data
    subst hbig
    rw [ByamlBigDataNode.CalculateEndOffset]
    rw [ByamlBigDataNode.bigData] at h hx ⊢
    exact ⟨endOffset_toNat (List.forall_mem_singleton.mp h) hx, hat.container⟩

theorem endOffsetsOf_at : ∀ (nodes : List (ByamlNode N D)) (iters : ByamlOffsets) (x y : ℕ),
    (∀ z ∈ bigDataOf nodes, z.Measured) → iters.At x y → bigEnd (bigDataOf nodes) x ≤ 2 ^ 63 →
    containerEnd (bigDataOf nodes) y ≤ 2 ^ 63 →
    (endOffsets nodes iters).At (bigEnd (bigDataOf nodes) x) (containerEnd (bigDataOf nodes) y)
  | [] => by
    intro iters x y _ hat _ _
    exact hat
  | node :: nodes => by
    intro iters x y h hat hx hy
    rw [endOffsets]
    rw [bigDataOf] at h hx hy ⊢
    obtain ⟨hhead, hrest⟩ := List.forall_mem_append.mp h
    rw [bigEnd_append] at hx ⊢
    rw [containerEnd_append] at hy ⊢
    have hx' := Nat.le_trans (le_bigEnd hrest _) hx
    have hy' := Nat.le_trans (le_containerEnd _ _) hy
    exact endOffsetsOf_at nodes _ _ _ hrest (node.endOffsets_at _ _ _ hhead hat hx' hy') hx hy

end

structure Regions where
  big_start : ℕ
  big_end : ℕ
  container_start : ℕ
  container_end : ℕ

def Regions.Hold (r : Regions) (w : RegionWrite) : Prop :=
  (w.1 = .bigData ∧ w.2.Within r.big_start r.big_end) ∨
    (w.1 = .container ∧ w.2.Within r.container_start r.container_end)

structure Regions.Room (r : Regions) (out : ℕ) (nodes : List (ByamlBigDataNode N D)) (x y : ℕ) :
    Prop where
  big_data : out + bigEnd nodes x ≤ r.big_end
  container : out + containerEnd nodes y ≤ r.container_end
  big_end : r.big_end ≤ 2 ^ 63
  container_end : r.container_end ≤ 2 ^ 63

structure ByamlProgress.Behind (s : ByamlProgress D) (r : Regions) (out x y : ℕ) : Prop where
  big_start : r.big_start ≤ s.big_data_offset.toNat
  big_data : s.big_data_offset.toNat ≤ out + x
  container_start : r.container_start ≤ s.container_offset.toNat
  container : s.container_offset.toNat ≤ out + y

def ByamlBigDataNode.Divides (out : ℕ) : ByamlBigDataNode N D → Prop
  | .Container _ _ _ => True
  | .Wide _ _ => True
  | .Binary _ binary => binary.IsAligned → binary.m_data_alignment.toNat ∣ out

def ByamlBigDataNode.Sound (out : ℕ) (node : ByamlBigDataNode N D) : Prop :=
  node.Measured ∧ node.Divides out

section Written

variable {r : Regions} {out x y : ℕ}

theorem Regions.Room.append {nodes rest : List (ByamlBigDataNode N D)}
    (h : r.Room out (nodes ++ rest) x y) (hrest : ∀ z ∈ rest, z.Measured) :
    r.Room out nodes x y ∧ r.Room out rest (bigEnd nodes x) (containerEnd nodes y) := by
  have hbig := h.big_data
  have hcontainer := h.container
  rw [bigEnd_append] at hbig
  rw [containerEnd_append] at hcontainer
  have hx := le_bigEnd hrest (bigEnd nodes x)
  have hy := le_containerEnd rest (containerEnd nodes y)
  exact ⟨⟨by omega, by omega, h.big_end, h.container_end⟩,
    ⟨hbig, hcontainer, h.big_end, h.container_end⟩⟩

theorem Regions.hold_inContainer {writes : List Write} {p q : ℕ}
    (h : ∀ w ∈ writes, w.Within p q) (hp : r.container_start ≤ p) (hq : q ≤ r.container_end) :
    ∀ w ∈ inContainer writes, r.Hold w := by
  intro w hw
  obtain ⟨v, hv, rfl⟩ := List.mem_map.mp hw
  exact Or.inr ⟨rfl, (h v hv).mono hp hq⟩

theorem ByamlNode.length_bytes (m_offset : D → BitVec 32) (node : ByamlNode N D) :
    (node.bytes m_offset).length ≤ 4 := by
  cases node with
  | Scalar n scalar =>
    cases scalar with
    | Bool m_value => exact Nat.le_of_ble_eq_true rfl
    | Null => exact Nat.le_refl 4
    | U32 m_value => exact Nat.le_refl 4
    | S32 m_value => exact Nat.le_refl 4
    | Float m_value => exact Nat.le_refl 4
    | String m_index => exact Nat.le_refl 4
  | BigData n m_big_data_node => exact Nat.le_refl 4

variable [DecidableEq D] {head : BitVec 64} {s : ByamlProgress D} {d : D}

theorem ByamlWide.serialize_holds {wide : ByamlWide} (hs : s.Behind r out x y)
    (hroom : r.Room out [(.Wide d wide : ByamlBigDataNode N D)] x y) :
    (∀ w ∈ (wide.Serialize d head s).1, r.Hold w) ∧
      (wide.Serialize d head s).2.Behind r out (x + 8) y := by
  have height : (8 : BitVec 64).toNat = 8 := rfl
  have hbig := hroom.big_data
  have hend := hroom.big_end
  have hle := hs.big_data
  have hstart := hs.big_start
  rw [bigEnd_wide] at hbig
  have hnext : (s.big_data_offset + 8).toNat = s.big_data_offset.toNat + 8 := by
    rw [BitVec.toNat_add, height]
    omega
  constructor
  · intro w hw
    obtain rfl := List.mem_singleton.mp hw
    refine Or.inl ⟨rfl, hstart, ?_⟩
    dsimp only
    rw [length_wordBytes]
    omega
  · refine ⟨?_, ?_, hs.container_start, hs.container⟩
    · change _ ≤ (s.big_data_offset + 8).toNat
      omega
    · change (s.big_data_offset + 8).toNat ≤ _
      omega

theorem ByamlBinary.length_bytes (binary : ByamlBinary) :
    binary.bytes.length = binary.m_data_size.toNat := by
  rw [ByamlBinary.bytes, List.length_map, List.length_range]

theorem ByamlBinary.serialize_holds {binary : ByamlBinary} (hs : s.Behind r out x y)
    (hsound : (.Binary d binary : ByamlBigDataNode N D).Sound out)
    (hroom : r.Room out [(.Binary d binary : ByamlBigDataNode N D)] x y) :
    (∀ w ∈ (binary.Serialize d head s).1, r.Hold w) ∧ (binary.Serialize d head s).2.Behind r out
      (bigEnd [(.Binary d binary : ByamlBigDataNode N D)] x) y := by
  have hfour : (4 : BitVec 64).toNat = 4 := rfl
  have height : (8 : BitVec 64).toNat = 8 := rfl
  have hbig := hroom.big_data
  have hend := hroom.big_end
  have hle := hs.big_data
  have hstart := hs.big_start
  have hsize := widen_toNat binary.m_data_size
  have hlength := binary.length_bytes
  by_cases hempty : binary.isEmpty = true
  · rw [bigEnd_empty hempty, ByamlBinary.Serialize, if_pos hempty]
    exact ⟨fun w hw => (by cases hw), hs⟩
  · have hdata : binary.isEmpty = false := Bool.eq_false_of_not_eq_true hempty
    rw [ByamlBinary.Serialize, if_neg hempty]
    by_cases halign : binary.m_data_alignment = ByamlBinary.cInvalidAlignment
    · rw [bigEnd_plain hdata halign] at hbig ⊢
      simp only [halign, ne_eq, not_true_eq_false, if_false, List.nil_append]
      have hdatabase : (s.big_data_offset + 4).toNat = s.big_data_offset.toNat + 4 := by
        rw [BitVec.toNat_add, hfour]
        omega
      have hnext : (s.big_data_offset + 4 + binary.m_data_size.setWidth 64).toNat =
          s.big_data_offset.toNat + 4 + binary.m_data_size.toNat := by
        rw [BitVec.toNat_add, hdatabase, hsize]
        omega
      constructor
      · refine List.forall_mem_cons.mpr ⟨Or.inl ⟨rfl, hstart, ?_⟩, List.forall_mem_singleton.mpr
          (Or.inl ⟨rfl, ?_, ?_⟩)⟩
        · dsimp only
          rw [length_wordBytes]
          omega
        · dsimp only
          omega
        · dsimp only
          omega
      · refine ⟨?_, ?_, hs.container_start, hs.container⟩
        · dsimp only
          omega
        · dsimp only
          omega
    · have hneeds : binary.IsAligned := ⟨hdata, halign⟩
      obtain ⟨k, hk⟩ := hsound.1 hneeds
      have hdvd := hsound.2 hneeds
      have hpos := Nat.two_pow_pos k
      have hup := le_up (x := s.big_data_offset.toNat + 8) hpos
      have hmono : up (2 ^ k) (s.big_data_offset.toNat + 8) ≤ out + up (2 ^ k) (x + 8) := by
        rw [← up_add hpos (hk ▸ hdvd)]
        exact up_mono hpos (by omega)
      rw [bigEnd_aligned hneeds, hk] at hbig
      rw [bigEnd_aligned hneeds, hk]
      have height' : (s.big_data_offset + 8).toNat = s.big_data_offset.toNat + 8 := by
        rw [BitVec.toNat_add, height]
        omega
      have hplace := alignUp_widen (x := s.big_data_offset + 8) hk (by omega)
      rw [height'] at hplace
      simp only [halign, ne_eq, not_false_eq_true, if_true]
      generalize alignUp (s.big_data_offset + 8) (binary.m_data_alignment.setWidth 64) = place
        at hplace
      have hback : place - 8 + 8 = place := BitVec.sub_add_cancel place 8
      have harray : (place - 8).toNat = place.toNat - 8 := by
        rw [BitVec.toNat_sub, height]
        omega
      have hfield : (place - 8 + 4).toNat = place.toNat - 4 := by
        rw [BitVec.toNat_add, harray, hfour]
        omega
      have hnext : (place + binary.m_data_size.setWidth 64).toNat =
          place.toNat + binary.m_data_size.toNat := by
        rw [BitVec.toNat_add, hsize]
        omega
      rw [hback]
      constructor
      · refine List.forall_mem_cons.mpr ⟨Or.inl ⟨rfl, ?_, ?_⟩, List.forall_mem_cons.mpr
          ⟨Or.inl ⟨rfl, ?_, ?_⟩, List.forall_mem_singleton.mpr (Or.inl ⟨rfl, ?_, ?_⟩)⟩⟩
        · dsimp only
          omega
        · dsimp only
          rw [length_wordBytes]
          omega
        · dsimp only
          omega
        · dsimp only
          rw [length_wordBytes]
          omega
        · dsimp only
          omega
        · dsimp only
          omega
      · refine ⟨?_, ?_, hs.container_start, hs.container⟩
        · dsimp only
          omega
        · dsimp only
          omega

end Written

section Walk

variable [DecidableEq D] {r : Regions} {out : ℕ} (base : N → ByamlNodeBase)
  (key_index : N → BitVec 32) (head : BitVec 64)

mutual

theorem ByamlNode.serialize_holds : ∀ (node : ByamlNode N D) (s : ByamlProgress D) (x y : ℕ),
    (∀ z ∈ node.bigData, z.Sound out) → s.Behind r out x y → r.Room out node.bigData x y →
    (∀ w ∈ (node.SerializeForBigData base key_index head s).1, r.Hold w) ∧
      (node.SerializeForBigData base key_index head s).2.Behind r out (bigEnd node.bigData x)
        (containerEnd node.bigData y)
  | .Scalar n scalar => by
    intro s x y _ hs _
    rw [ByamlNode.SerializeForBigData, ByamlNode.bigData]
    exact ⟨fun w hw => (by cases hw), hs⟩
  | .BigData n m_big_data_node => by
    intro s x y hsound hs hroom
    rw [ByamlNode.SerializeForBigData]
    rw [ByamlNode.bigData] at hsound hroom ⊢
    split
    · have hx := le_bigEnd (fun z hz => (hsound z hz).1) x
      have hy := le_containerEnd m_big_data_node.bigData y
      have hbig := hs.big_data
      have hcontainer := hs.container
      exact ⟨fun w hw => (by cases hw),
        ⟨hs.big_start, by dsimp only; omega, hs.container_start, by dsimp only; omega⟩⟩
    · exact m_big_data_node.serialize_holds s x y hsound hs hroom

theorem ByamlBigDataNode.serialize_holds : ∀ (node : ByamlBigDataNode N D) (s : ByamlProgress D)
    (x y : ℕ), (∀ z ∈ node.bigData, z.Sound out) → s.Behind r out x y → r.Room out node.bigData x y →
    (∀ w ∈ (node.Serialize base key_index head s).1, r.Hold w) ∧
      (node.Serialize base key_index head s).2.Behind r out (bigEnd node.bigData x)
        (containerEnd node.bigData y)
  | .Container d container m_node_list => by
    intro s x y hsound hs hroom
    rw [ByamlBigDataNode.Serialize]
    rw [ByamlBigDataNode.bigData] at hsound hroom ⊢
    obtain ⟨hhere, hrest⟩ := List.forall_mem_cons.mp hsound
    have hcounted : container.Counted (dataTypes m_node_list).length := by
      rw [length_dataTypes]
      exact hhere.1
    have hroomContainer := hroom.container
    have hend := hroom.container_end
    rw [containerEnd_container] at hroomContainer
    have hup := le_up (a := 4) (x := y + (container.size (dataTypes m_node_list)).toNat) (by decide)
    have hle := le_containerEnd (bigDataOf m_node_list)
      (up 4 (y + (container.size (dataTypes m_node_list)).toNat))
    have hat := hs.container
    have hbase : s.container_offset.toNat + (container.size (dataTypes m_node_list)).toNat ≤
        r.container_end := by omega
    have hnext : (s.container_offset +
        ((container.size (dataTypes m_node_list)).setWidth 32).setWidth 64).toNat ≤
        s.container_offset.toNat + (container.size (dataTypes m_node_list)).toNat := by
      rw [BitVec.toNat_add, widen_toNat, BitVec.toNat_setWidth]
      exact Nat.le_trans (Nat.mod_le _ _) (Nat.add_le_add_left (Nat.mod_le _ _) _)
    have hforward : s.container_offset.toNat ≤ (s.container_offset +
        ((container.size (dataTypes m_node_list)).setWidth 32).setWidth 64).toNat := by
      have hcut := Nat.mod_le (container.size (dataTypes m_node_list)).toNat (2 ^ 32)
      rw [BitVec.toNat_add, widen_toNat, BitVec.toNat_setWidth]
      omega
    have hstart := hs.container_start
    have hfit : s.container_offset.toNat + (container.size (dataTypes m_node_list)).toNat ≤ 2 ^ 63 :=
      Nat.le_trans hbase hend
    have hheader := ByamlContainer.writeHeader_within hcounted hfit
    rw [bigEnd_container, containerEnd_container]
    obtain ⟨hentries, hbehind⟩ := serializeNodes_holds m_node_list container (dataTypes m_node_list)
      s.container_offset 0 { s with
        container_offset := s.container_offset +
          ((container.size (dataTypes m_node_list)).setWidth 32).setWidth 64
        m_offset := Function.update s.m_offset d ((s.container_offset - head).setWidth 32) }
      x (up 4 (y + (container.size (dataTypes m_node_list)).toNat)) hrest
      ⟨hs.big_start, hs.big_data, by dsimp only; omega, by dsimp only; omega⟩
      ⟨hroom.big_data, hroomContainer, hroom.big_end, hend⟩ hcounted
      (by rw [length_dataTypes]; exact Nat.zero_add _) hstart hbase
    exact ⟨List.forall_mem_append.mpr ⟨Regions.hold_inContainer hheader hstart hbase, hentries⟩,
      hbehind⟩
  | .Wide d wide => by
    intro s x y _ hs hroom
    rw [ByamlBigDataNode.Serialize]
    rw [ByamlBigDataNode.bigData] at hroom ⊢
    rw [bigEnd_wide]
    exact ByamlWide.serialize_holds hs hroom
  | .Binary d binary => by
    intro s x y hsound hs hroom
    rw [ByamlBigDataNode.Serialize]
    rw [ByamlBigDataNode.bigData] at hsound hroom ⊢
    exact ByamlBinary.serialize_holds hs (List.forall_mem_singleton.mp hsound) hroom

theorem serializeNodes_holds : ∀ (nodes : List (ByamlNode N D)) (container : ByamlContainer)
    (types : List ByamlDataType) (container_offset : BitVec 64) (i : BitVec 32)
    (s : ByamlProgress D) (x y : ℕ), (∀ z ∈ bigDataOf nodes, z.Sound out) → s.Behind r out x y →
    r.Room out (bigDataOf nodes) x y → container.Counted types.length →
    i.toNat + nodes.length = types.length → r.container_start ≤ container_offset.toNat →
    container_offset.toNat + (container.size types).toNat ≤ r.container_end →
    (∀ w ∈ (serializeNodes base key_index head nodes container types container_offset i s).1,
      r.Hold w) ∧
      (serializeNodes base key_index head nodes container types container_offset i s).2.Behind r out
        (bigEnd (bigDataOf nodes) x) (containerEnd (bigDataOf nodes) y)
  | [] => by
    intro container types container_offset i s x y _ hs _ _ _ _ _
    rw [serializeNodes, bigDataOf]
    exact ⟨fun w hw => (by cases hw), hs⟩
  | node :: nodes => by
    intro container types container_offset i s x y hsound hs hroom hcounted hi hstart hbase
    rw [serializeNodes]
    rw [bigDataOf] at hsound hroom ⊢
    obtain ⟨hhead, hrest⟩ := List.forall_mem_append.mp hsound
    obtain ⟨hroomHead, hroomRest⟩ := hroom.append fun z hz => (hrest z hz).1
    obtain ⟨hbig, hbehind⟩ := node.serialize_holds s x y hhead hs hroomHead
    have hcount := hcounted.count
    have hend := hroom.container_end
    have hone : (1 : BitVec 32).toNat = 1 := rfl
    rw [List.length_cons] at hi
    have hsucc : (i + 1).toNat + nodes.length = types.length := by
      rw [BitVec.toNat_add, hone]
      omega
    obtain ⟨hnodes, hlast⟩ := serializeNodes_holds nodes container types container_offset (i + 1) _ _ _
      hrest hbehind hroomRest hcounted hsucc hstart hbase
    rw [bigEnd_append, containerEnd_append]
    refine ⟨?_, hlast⟩
    have htype : ∀ w ∈ container.writeType types container_offset i node.GetByamlDataType,
        w.Within container_offset.toNat (container_offset.toNat + (container.size types).toNat) :=
      ByamlContainer.writeType_within hcounted (by omega) (by omega)
    refine List.forall_mem_append.mpr ⟨List.forall_mem_append.mpr ⟨List.forall_mem_append.mpr
      ⟨Regions.hold_inContainer htype hstart hbase, hbig⟩, ?_⟩, hnodes⟩
    apply Regions.hold_inContainer _ hstart hbase
    apply ByamlContainer.writeEntry_within hcounted _ _ (by omega)
    · dsimp only
      omega
    · exact node.length_bytes _

end

end Walk

end Awn.Byaml
