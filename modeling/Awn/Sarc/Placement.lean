import Awn.Memory.Placement
import Awn.Sarc.RoundTrip

/-! Where `Serialize` writes, and the total that `CalculateMemoryInfo` returns. -/

namespace Awn.Sarc

open Memory

section Writes

def stringSize (node : SarcFileNode) : BitVec 32 := BitVec.ofNat 32 node.m_file_path.length + 1

def namesFrom : BitVec 64 → List SarcFileNode → List Extent
  | _, [] => []
  | sfnt_iter, node :: nodes =>
    ⟨sfnt_iter, (stringSize node).toNat⟩ ::
      namesFrom (alignUp (sfnt_iter + (stringSize node).setWidth 64) 4) nodes

def entriesFrom (sfat : BitVec 64) : BitVec 32 → List SarcFileNode → List Extent
  | _, [] => []
  | file_count, _ :: nodes =>
    ⟨sfat + 0xc + 0x10 * file_count.setWidth 64, 0x10⟩ :: entriesFrom sfat (file_count + 1) nodes

def filesFrom : BitVec 64 → List SarcFileNode → List Extent :=
  placed SarcFileNode.m_file_alignment SarcFileNode.m_file_size

def parts (out : BitVec 64) (files : List SarcFileNode) (info : SarcBuilderMemoryInfo) :
    List (List Extent) :=
  [⟨out, 0x14⟩] ::
  (⟨out + 0x14, 0xc⟩ :: entriesFrom (out + 0x14) 0 files) ::
  (⟨out + info.location_sfnt.offset, 0x6⟩ ::
    namesFrom (out + info.location_sfnt.offset + 0x8) files) ::
  (filesFrom (out + info.location_file_region.offset) files).map ([·])

end Writes

structure LaidOut (behind : BitVec 32) (out : BitVec 64) (builder : SarcBuilder) : Prop where
  inside : ∀ part ∈ parts out builder.m_file_list (CalculateMemoryInfo behind builder), ∀ e ∈ part,
    e.length ≠ 0 → e.Inside out (CalculateMemoryInfo behind builder).total_file_size.toNat
  aligned : ∀ p ∈ builder.m_file_list.zip
      (filesFrom (out + (CalculateMemoryInfo behind builder).location_file_region.offset)
        builder.m_file_list),
    p.1.m_file_alignment.toNat ∣ (p.2.start - out).toNat
  disjoint : (parts out builder.m_file_list (CalculateMemoryInfo behind builder)).Pairwise
    fun a b => ∀ e ∈ a, ∀ f ∈ b, e.Disjoint f

def SarcFileNode.block : SarcFileNode → Block :=
  blockOf SarcFileNode.m_file_alignment SarcFileNode.m_file_size

def namesEnd : List SarcFileNode → ℕ → ℕ
  | [], y => y
  | node :: nodes, y => namesEnd nodes (up 4 (y + (stringSize node).toNat))

def regionPlace : List SarcFileNode → ℕ
  | [] => 0x28
  | node :: nodes =>
    up node.m_file_alignment.toNat
      (0x20 + 0x10 * (node :: nodes).length + namesEnd (node :: nodes) 0x8)

structure Room (out : BitVec 64) (files : List SarcFileNode) : Prop where
  multiple : ∀ node ∈ files, node.m_file_alignment.toNat ∣ out.toNat
  gap : ∃ pre node post, files = pre ++ node :: post ∧
    serial (pre.map SarcFileNode.block) (regionPlace files) ≤
      up node.m_file_alignment.toNat (serial (pre.map SarcFileNode.block) 0)
  small : serial (files.map SarcFileNode.block) 0 < 2 ^ 32

section Sizes

theorem namesFrom_eq {sfnt_iter : BitVec 64} (h : 4 ∣ sfnt_iter.toNat) (nodes : List SarcFileNode) :
    namesFrom sfnt_iter nodes = placed (fun _ => 4) stringSize sfnt_iter nodes := by
  have hfour : (4 : BitVec 32).toNat = 2 ^ 2 := rfl
  induction nodes generalizing sfnt_iter with
  | nil => rfl
  | cons node nodes ih =>
    have hhere : alignUp sfnt_iter ((4 : BitVec 32).setWidth 64) = sfnt_iter := alignUp_eq hfour h
    have hnext : 4 ∣ (alignUp (sfnt_iter + (stringSize node).setWidth 64)
        ((4 : BitVec 32).setWidth 64)).toNat := dvd_alignUp hfour
    rw [namesFrom, placed, hhere]
    change _ :: namesFrom (alignUp _ ((4 : BitVec 32).setWidth 64)) nodes = _
    rw [ih hnext]
    congr 1
    cases nodes with
    | nil => rfl
    | cons next nodes =>
      have hagain := alignUp_eq hfour hnext
      rw [placed, placed, hagain]

theorem names_align (nodes : List SarcFileNode) {n : ℕ} (hn : 4 ∣ n) :
    ∀ b ∈ nodes.map (blockOf (fun _ => 4) stringSize), b.align ∣ n := by
  intro b hb
  obtain ⟨node, -, rfl⟩ := List.mem_map.mp hb
  exact hn

theorem up_namesEnd (nodes : List SarcFileNode) {y : ℕ} (hy : 4 ∣ y) :
    namesEnd nodes y = up 4 (serial (nodes.map (blockOf (fun _ => 4) stringSize)) y) := by
  induction nodes generalizing y with
  | nil => exact (up_eq (by decide) hy).symm
  | cons node nodes ih =>
    rw [namesEnd, ih dvd_up, List.map_cons, serial]
    change _ = up 4 (serial _ (up 4 y + (stringSize node).toNat))
    rw [up_eq (by decide) hy]
    cases nodes with
    | nil => exact up_eq (by decide) dvd_up
    | cons next nodes =>
      change up 4 (serial _ (up 4 (up 4 _) + _)) = up 4 (serial _ (up 4 _ + _))
      rw [up_eq (by decide) dvd_up]

theorem addSize_names (sfnt_size : BitVec 32) (node : SarcFileNode) :
    ((alignUp (sfnt_size.setWidth 64 + BitVec.ofNat 64 node.m_file_path.length + 1) 4).setWidth
      32).toNat = up 4 (sfnt_size.toNat + (stringSize node).toNat) % 2 ^ 32 := by
  have hsfnt := sfnt_size.isLt
  have hone : (1 : BitVec 64).toNat = 1 := rfl
  have hone' : (1 : BitVec 32).toNat = 1 := rfl
  have hup : ∀ x : BitVec 64, (alignUp x 4).toNat % 2 ^ 32 = up 4 x.toNat % 2 ^ 32 := by
    intro x
    have hx := x.isLt
    have halign : (alignUp x 4).toNat = (x.toNat + 3) % 2 ^ 64 / 4 * 4 :=
      alignUp_toNat x (k := 2) (by decide)
    rw [halign, up]
    omega
  have hsum : (sfnt_size.setWidth 64 + BitVec.ofNat 64 node.m_file_path.length + 1).toNat % 2 ^ 32 =
      (sfnt_size.toNat + (stringSize node).toNat) % 2 ^ 32 := by
    rw [stringSize, BitVec.toNat_add, BitVec.toNat_add, widen_toNat, BitVec.toNat_ofNat,
      BitVec.toNat_add, BitVec.toNat_ofNat, hone, hone']
    omega
  rw [BitVec.toNat_setWidth, hup, ← up_mod (by decide) (by decide), hsum,
    up_mod (by decide) (by decide)]

theorem addSize_region (file_region_size : BitVec 32) (node : SarcFileNode)
    (halign : ∃ k, node.m_file_alignment.toNat = 2 ^ k) :
    ((if file_region_size ≠ 0 then (alignUp (file_region_size.setWidth 64)
        (node.m_file_alignment.setWidth 64)).setWidth 32
      else file_region_size) + node.m_file_size).toNat =
      (up node.m_file_alignment.toNat file_region_size.toNat + node.m_file_size.toNat) % 2 ^ 32 := by
  obtain ⟨k, hk⟩ := halign
  have hsize := file_region_size.isLt
  rw [BitVec.toNat_add, hk]
  by_cases hz : file_region_size = 0
  · subst hz
    have hnull : (0 : BitVec 32).toNat = 0 := rfl
    rw [if_neg (not_not.mpr rfl), hnull, up_eq (Nat.two_pow_pos k) (Nat.dvd_zero _)]
  · have hwide := widen_toNat file_region_size
    rw [if_pos hz, BitVec.toNat_setWidth, alignUp_widen hk (by omega), hwide, Nat.mod_add_mod]

theorem sizes_foldl {nodes : List SarcFileNode} {s : MemorySizes} {x y : ℕ}
    (halign : ∀ node ∈ nodes, ∃ k, node.m_file_alignment.toNat = 2 ^ k)
    (hy : s.sfnt_size.toNat = y % 2 ^ 32) (hx : s.file_region_size.toNat = x % 2 ^ 32) :
    (nodes.foldl addSize s).file_count = s.file_count + BitVec.ofNat 32 nodes.length ∧
    (nodes.foldl addSize s).sfnt_size.toNat = namesEnd nodes y % 2 ^ 32 ∧
    (nodes.foldl addSize s).file_region_size.toNat =
      serial (nodes.map SarcFileNode.block) x % 2 ^ 32 := by
  induction nodes generalizing s x y with
  | nil => exact ⟨(BitVec.add_zero _).symm, hy, hx⟩
  | cons node nodes ih =>
    obtain ⟨k, hk⟩ := halign node List.mem_cons_self
    have hnames : (addSize s node).sfnt_size.toNat =
        up 4 (y + (stringSize node).toNat) % 2 ^ 32 := by
      rw [addSize, addSize_names, hy, ← up_mod (by decide) (by decide), Nat.mod_add_mod,
        up_mod (by decide) (by decide)]
    have hregion : (addSize s node).file_region_size.toNat =
        (up node.m_file_alignment.toNat x + node.m_file_size.toNat) % 2 ^ 32 := by
      have hword : node.m_file_alignment.toNat ∣ 2 ^ 32 := by
        rw [hk]
        exact Nat.pow_dvd_pow 2 (Nat.le_of_lt (two_pow_lt hk))
      have hpos : 0 < node.m_file_alignment.toNat := by
        rw [hk]
        exact Nat.two_pow_pos k
      rw [addSize, addSize_region _ _ ⟨k, hk⟩, hx, ← Nat.mod_add_mod, up_mod hpos hword,
        Nat.mod_add_mod]
    obtain ⟨hcount, hrest⟩ := ih (fun n hn => halign n (List.mem_cons_of_mem _ hn)) hnames hregion
    refine ⟨?_, hrest⟩
    have hsucc : BitVec.ofNat 32 (node :: nodes).length = 1 + BitVec.ofNat 32 nodes.length := by
      rw [List.length_cons, Nat.add_comm, BitVec.ofNat_add]
      rfl
    rw [List.foldl_cons, hcount, hsucc, ← BitVec.add_assoc]
    rfl

end Sizes

section Info

variable (behind : BitVec 32) {builder : SarcBuilder}
  (halign : ∀ node ∈ builder.m_file_list, ∃ k, node.m_file_alignment.toNat = 2 ^ k)
include halign

theorem total_toNat : (CalculateMemoryInfo behind builder).total_file_size.toNat =
    serial (builder.m_file_list.map SarcFileNode.block) 0 % 2 ^ 32 := by
  have hregion := (sizes_foldl (s := ⟨0, 0x8, 0, 4⟩) (x := 0) (y := 0x8) halign rfl rfl).2.2
  rw [CalculateMemoryInfo]
  dsimp only
  rw [BitVec.add_comm, BitVec.sub_add_cancel, widen_toNat]
  exact hregion

theorem sfnt_offset_toNat : (CalculateMemoryInfo behind builder).location_sfnt.offset.toNat =
    0x20 + 0x10 * (builder.m_file_list.length % 2 ^ 32) := by
  have hcount := (sizes_foldl (s := ⟨0, 0x8, 0, 4⟩) (x := 0) (y := 0x8) halign rfl rfl).1
  have hnat := congrArg BitVec.toNat hcount
  have hnull : (0 : BitVec 32).toNat = 0 := rfl
  have hlt := (BitVec.ofNat 32 builder.m_file_list.length).isLt
  rw [BitVec.toNat_add, hnull, Nat.zero_add, Nat.mod_eq_of_lt hlt, BitVec.toNat_ofNat] at hnat
  rw [CalculateMemoryInfo]
  dsimp only
  simp only [BitVec.toNat_add, BitVec.toNat_mul, widen_toNat, BitVec.ofNat_eq_ofNat,
    BitVec.toNat_ofNat] at hnat ⊢
  omega

theorem region_offset_toNat (hne : builder.m_file_list ≠ [])
    (hreach : 0x20 + 0x10 * builder.m_file_list.length + namesEnd builder.m_file_list 0x8 ≤ 2 ^ 32) :
    (CalculateMemoryInfo behind builder).location_file_region.offset.toNat =
      regionPlace builder.m_file_list := by
  have hsfnt := sfnt_offset_toNat behind halign
  have hnames := (sizes_foldl (s := ⟨0, 0x8, 0, 4⟩) (x := 0) (y := 0x8) halign rfl rfl).2.1
  rw [Nat.mod_eq_of_lt (by omega)] at hnames hsfnt
  rw [CalculateMemoryInfo] at hsfnt ⊢
  dsimp only at hsfnt ⊢
  cases hfiles : builder.m_file_list with
  | nil => exact absurd hfiles hne
  | cons node nodes =>
    rw [hfiles] at halign hreach hsfnt hnames
    obtain ⟨k, hk⟩ := halign node List.mem_cons_self
    have hsum : (0x14 + (0xc + 0x10 * (((node :: nodes).foldl addSize ⟨0, 0x8, 0, 4⟩).file_count).setWidth
        64) + (((node :: nodes).foldl addSize ⟨0, 0x8, 0, 4⟩).sfnt_size).setWidth 64 : BitVec 64).toNat =
        0x20 + 0x10 * (node :: nodes).length + namesEnd (node :: nodes) 0x8 := by
      rw [BitVec.toNat_add, hsfnt, widen_toNat, hnames]
      omega
    have hplace := alignUp_widen hk (x := 0x14 + (0xc + 0x10 * (((node :: nodes).foldl addSize
      ⟨0, 0x8, 0, 4⟩).file_count).setWidth 64) + (((node :: nodes).foldl addSize
        ⟨0, 0x8, 0, 4⟩).sfnt_size).setWidth 64) (by omega)
    rw [hsum, ← hk] at hplace
    exact hplace

end Info

theorem mem_entriesFrom {sfat : BitVec 64} {nodes : List SarcFileNode} {file_count : BitVec 32} {i : ℕ}
    (hi : i < nodes.length) :
    ⟨sfat + 0xc + 0x10 * (file_count + BitVec.ofNat 32 i).setWidth 64, 0x10⟩ ∈
      entriesFrom sfat file_count nodes := by
  induction nodes generalizing file_count i with
  | nil => exact absurd hi (Nat.not_lt_zero i)
  | cons node nodes ih =>
    rw [entriesFrom]
    cases i with
    | zero =>
      have hzero : file_count + BitVec.ofNat 32 0 = file_count := BitVec.add_zero _
      rw [hzero]
      exact List.mem_cons_self
    | succ i =>
      have hnext : file_count + BitVec.ofNat 32 (i + 1) = file_count + 1 + BitVec.ofNat 32 i := by
        rw [Nat.add_comm i, BitVec.ofNat_add, BitVec.add_assoc]
        rfl
      rw [hnext]
      exact List.mem_cons_of_mem _ (ih (Nat.lt_of_succ_lt_succ hi))

theorem entriesFrom_bounds {sfat : BitVec 64} {nodes : List SarcFileNode} {n : BitVec 32}
    (hsfat : sfat.toNat ≤ 2 ^ 63 + 2 ^ 32) (hcount : n.toNat + nodes.length < 2 ^ 32) :
    ∀ e ∈ entriesFrom sfat n nodes,
      sfat.toNat + 0xc + 0x10 * n.toNat ≤ e.start.toNat ∧
        e.start.toNat + e.length ≤ sfat.toNat + 0xc + 0x10 * (n.toNat + nodes.length) := by
  induction nodes generalizing n with
  | nil =>
    intro e he
    cases he
  | cons node nodes ih =>
    rw [List.length_cons] at hcount ⊢
    have hone : (1 : BitVec 32).toNat = 1 := rfl
    have hnext : (n + 1).toNat = n.toNat + 1 := by
      rw [BitVec.toNat_add, hone, Nat.mod_eq_of_lt (by omega)]
    have hstart : (sfat + 0xc + 0x10 * n.setWidth 64).toNat =
        sfat.toNat + 0xc + 0x10 * n.toNat := by
      have hlt := n.isLt
      simp only [BitVec.toNat_add, BitVec.toNat_mul, widen_toNat, BitVec.ofNat_eq_ofNat,
        BitVec.toNat_ofNat]
      omega
    rw [entriesFrom, List.forall_mem_cons]
    constructor
    · dsimp only
      omega
    · intro e he
      have hin := ih (by omega) e he
      omega

section Bounds

variable {behind : BitVec 32} {builder : SarcBuilder} {out : BitVec 64}
  (halign : ∀ node ∈ builder.m_file_list, ∃ k, node.m_file_alignment.toNat = 2 ^ k)
  (hout : out.toNat ≤ 2 ^ 63) (hfour : 4 ∣ out.toNat)
include halign

theorem LaidOut.multiple (h : LaidOut behind out builder) :
    ∀ node ∈ builder.m_file_list, node.m_file_alignment.toNat ∣ out.toNat := by
  intro node hnode
  obtain ⟨k, hk⟩ := halign node hnode
  obtain ⟨e, he⟩ := exists_placed hnode
    (out + (CalculateMemoryInfo behind builder).location_file_region.offset)
  have hstart := dvd_placed halign _ _ he
  have hplace := h.aligned _ he
  have hlt := two_pow_lt hk
  rw [hk] at hstart hplace ⊢
  exact (dvd_sub_iff (by omega) hstart).mp hplace

include hout

variable (behind) in
theorem sfnt_toNat (hcount : builder.m_file_list.length ≤ 2 ^ 28) :
    (out + (CalculateMemoryInfo behind builder).location_sfnt.offset).toNat =
      out.toNat + (0x20 + 0x10 * builder.m_file_list.length) := by
  rw [BitVec.toNat_add, sfnt_offset_toNat behind halign, Nat.mod_eq_of_lt (a := builder.m_file_list.length) (by omega)]
  omega

theorem LaidOut.length_le (h : LaidOut behind out builder) : builder.m_file_list.length ≤ 2 ^ 28 := by
  by_contra hlong
  have hentry := h.inside _ (List.mem_cons_of_mem _ List.mem_cons_self) _
    (List.mem_cons_of_mem _ (mem_entriesFrom (i := 2 ^ 28) (not_le.mp hlong)))
    (show 0x10 ≠ 0 by decide)
  have htotal := total_toNat behind halign
  have hlt := Nat.mod_lt (serial (builder.m_file_list.map SarcFileNode.block) 0)
    (show 0 < 2 ^ 32 by decide)
  have hindex : (0x10 * (0 + BitVec.ofNat 32 (2 ^ 28)).setWidth 64 : BitVec 64).toNat = 2 ^ 32 := by
    decide
  have hstart : (out + 0x14 + 0xc + 0x10 * (0 + BitVec.ofNat 32 (2 ^ 28)).setWidth 64).toNat =
      out.toNat + 0x20 + 2 ^ 32 := by
    rw [BitVec.toNat_add, hindex]
    simp only [BitVec.toNat_add, BitVec.ofNat_eq_ofNat, BitVec.toNat_ofNat]
    omega
  have hend := hentry.2
  rw [hstart] at hend
  omega

include hfour

theorem LaidOut.names_le (h : LaidOut behind out builder) :
    0x20 + 0x10 * builder.m_file_list.length + namesEnd builder.m_file_list 0x8 ≤ 2 ^ 32 := by
  have hlength := h.length_le halign hout
  have hsfnt := sfnt_toNat behind halign hout hlength
  have htotal := total_toNat behind halign
  have hlt := Nat.mod_lt (serial (builder.m_file_list.map SarcFileNode.block) 0)
    (show 0 < 2 ^ 32 by decide)
  have hpart := h.inside _ (List.mem_cons_of_mem _ (List.mem_cons_of_mem _ List.mem_cons_self))
  have hheader := (hpart _ List.mem_cons_self (show 0x6 ≠ 0 by decide)).2
  rw [hsfnt] at hheader
  dsimp only at hheader
  have hiter : (out + (CalculateMemoryInfo behind builder).location_sfnt.offset + 0x8).toNat =
      out.toNat + (0x20 + 0x10 * builder.m_file_list.length + 0x8) := by
    have height : (0x8 : BitVec 64).toNat = 8 := rfl
    rw [BitVec.toNat_add, hsfnt, height]
    omega
  have hinside : ∀ e ∈ placed (fun _ => 4) stringSize
      (out + (CalculateMemoryInfo behind builder).location_sfnt.offset + 0x8) builder.m_file_list,
      e.length ≠ 0 → e.Inside out (CalculateMemoryInfo behind builder).total_file_size.toNat := by
    intro e he
    apply hpart e
    rw [namesFrom_eq (by omega)]
    exact List.mem_cons_of_mem _ he
  have hmultiple : ∀ node ∈ builder.m_file_list,
      ((fun _ => 4 : SarcFileNode → BitVec 32) node).toNat ∣ out.toNat := fun _ _ => hfour
  have hnames := ends_of_inside (fun _ _ => ⟨2, rfl⟩) hout hmultiple hiter (by omega) (by omega) hinside
  have haligned : Aligned (builder.m_file_list.map (blockOf (fun _ => 4) stringSize)) :=
    aligned_map fun _ _ => ⟨2, rfl⟩
  have hfours := names_align builder.m_file_list
    (show 4 ∣ 0x20 + 0x10 * builder.m_file_list.length by omega)
  have hserial := hnames.1
  rw [serial_add haligned hfours] at hserial
  have hup := up_le (a := 4) (by decide) (by decide) hserial
  rw [up_add (by decide) (by omega)] at hup
  rw [up_namesEnd _ (by decide)]
  exact hup

theorem LaidOut.room (h : LaidOut behind out builder) : Room out builder.m_file_list := by
  have hmultiple := h.multiple halign
  have hreach := h.names_le halign hout hfour
  have htotal := total_toNat behind halign
  have hlt := Nat.mod_lt (serial (builder.m_file_list.map SarcFileNode.block) 0)
    (show 0 < 2 ^ 32 by decide)
  have haligned : Aligned (builder.m_file_list.map SarcFileNode.block) := aligned_map halign
  have hheader : 0x14 ≤ (CalculateMemoryInfo behind builder).total_file_size.toNat := by
    have hin := (h.inside _ List.mem_cons_self _ List.mem_cons_self (show 0x14 ≠ 0 by decide)).2
    dsimp only at hin
    omega
  have hne : builder.m_file_list ≠ [] := by
    intro hnil
    rw [hnil] at htotal
    rw [htotal] at hheader
    exact absurd hheader (by decide)
  have hregion := region_offset_toNat behind halign hne hreach
  have hplace : 0x20 ≤ regionPlace builder.m_file_list ∧
      regionPlace builder.m_file_list ≤ 2 ^ 32 := by
    cases hfiles : builder.m_file_list with
    | nil => exact absurd hfiles hne
    | cons node nodes =>
      rw [hfiles] at hreach
      obtain ⟨k, hk⟩ := halign node (by rw [hfiles]; exact List.mem_cons_self)
      have hpos := Nat.two_pow_pos k
      have hdvd := Nat.pow_dvd_pow 2 (Nat.le_of_lt (two_pow_lt hk))
      rw [regionPlace, hk]
      exact ⟨Nat.le_trans (by omega) (le_up hpos), up_le hpos hdvd hreach⟩
  have hiter : (out + (CalculateMemoryInfo behind builder).location_file_region.offset).toNat =
      out.toNat + regionPlace builder.m_file_list := by
    rw [BitVec.toNat_add, hregion]
    omega
  have hinside : ∀ e ∈ placed SarcFileNode.m_file_alignment SarcFileNode.m_file_size
      (out + (CalculateMemoryInfo behind builder).location_file_region.offset) builder.m_file_list,
      e.length ≠ 0 → e.Inside out (CalculateMemoryInfo behind builder).total_file_size.toNat := by
    intro e he
    apply h.inside [e] _ e (List.mem_singleton_self e)
    exact List.mem_cons_of_mem _ (List.mem_cons_of_mem _ (List.mem_cons_of_mem _
      (List.mem_map.mpr ⟨e, he, rfl⟩)))
  obtain ⟨hserial, hends⟩ := ends_of_inside halign hout hmultiple hiter hplace.2 (by omega) hinside
  -- the sizes do not wrap around, for nothing would fit in the zero that is left
  have hmono := serial_mono haligned (Nat.zero_le (regionPlace builder.m_file_list))
  have hle : serial (builder.m_file_list.map SarcFileNode.block) 0 ≤ 2 ^ 32 :=
    Nat.le_trans hmono hserial
  have hsmall : serial (builder.m_file_list.map SarcFileNode.block) 0 < 2 ^ 32 := by
    rcases Nat.lt_or_eq_of_le hle with hlt | heq
    · exact hlt
    · rw [heq] at htotal
      rw [htotal] at hheader
      exact absurd hheader (by decide)
  rw [Nat.mod_eq_of_lt hsmall] at htotal
  have hsome : ∃ b ∈ builder.m_file_list.map SarcFileNode.block, b.size ≠ 0 := by
    by_contra hnone
    have hempty : ∀ b ∈ builder.m_file_list.map SarcFileNode.block, b.size = 0 := by
      intro b hb
      by_contra hsize
      exact hnone ⟨b, hb, hsize⟩
    rw [serial_zero_of_empty haligned hempty] at htotal
    omega
  have hend := serial_le_of_ends haligned hsome (p := regionPlace builder.m_file_list) (q := 0) (by
    rw [← htotal]
    exact hends)
  obtain ⟨pre, b, post, hsplit, hgap⟩ := (serial_le_iff haligned (by omega)).mp hend
  obtain ⟨nodes, rest, hfiles, rfl, hrest⟩ := List.map_eq_append_iff.mp hsplit
  obtain ⟨node, tail, rfl, rfl, -⟩ := List.map_eq_cons_iff.mp hrest
  exact ⟨hmultiple, ⟨nodes, node, tail, hfiles, hgap⟩, hsmall⟩

variable (behind) in
theorem tables_bounds (hlength : builder.m_file_list.length ≤ 2 ^ 28)
    (hreach : 0x20 + 0x10 * builder.m_file_list.length + namesEnd builder.m_file_list 0x8 ≤ 2 ^ 32) :
    (∀ e ∈ (⟨out + 0x14, 0xc⟩ :: entriesFrom (out + 0x14) 0 builder.m_file_list : List Extent),
      out.toNat + 0x14 ≤ e.start.toNat ∧ e.start.toNat + e.length ≤
        out.toNat + (0x20 + 0x10 * builder.m_file_list.length)) ∧
    ∀ e ∈ (⟨out + (CalculateMemoryInfo behind builder).location_sfnt.offset, 0x6⟩ ::
        namesFrom (out + (CalculateMemoryInfo behind builder).location_sfnt.offset + 0x8)
          builder.m_file_list : List Extent),
      out.toNat + (0x20 + 0x10 * builder.m_file_list.length) ≤ e.start.toNat ∧
        e.start.toNat + e.length ≤ out.toNat +
          (0x20 + 0x10 * builder.m_file_list.length + namesEnd builder.m_file_list 0x8) := by
  have hsfnt := sfnt_toNat behind halign hout hlength
  have hsfat : (out + 0x14).toNat = out.toNat + 0x14 := by
    have hheader : (0x14 : BitVec 64).toNat = 0x14 := rfl
    rw [BitVec.toNat_add, hheader]
    omega
  have haligned : Aligned (builder.m_file_list.map (blockOf (fun _ => 4) stringSize)) :=
    aligned_map fun _ _ => ⟨2, rfl⟩
  have hnames := le_serial haligned 0x8
  have hnamesEnd : serial (builder.m_file_list.map (blockOf (fun _ => 4) stringSize)) 0x8 ≤
      namesEnd builder.m_file_list 0x8 := by
    rw [up_namesEnd _ (by decide)]
    exact le_up (by decide)
  constructor
  · rw [List.forall_mem_cons]
    constructor
    · rw [hsfat]
      dsimp only
      omega
    · intro e he
      have hnull : (0 : BitVec 32).toNat = 0 := rfl
      have hin := entriesFrom_bounds (n := 0) (by omega) (by omega) e he
      omega
  · rw [List.forall_mem_cons]
    constructor
    · rw [hsfnt]
      dsimp only
      omega
    · have hiter : (out + (CalculateMemoryInfo behind builder).location_sfnt.offset + 0x8).toNat =
          out.toNat + (0x20 + 0x10 * builder.m_file_list.length + 0x8) := by
        have height : (0x8 : BitVec 64).toNat = 8 := rfl
        rw [BitVec.toNat_add, hsfnt, height]
        omega
      have hfours := names_align builder.m_file_list
        (show 4 ∣ 0x20 + 0x10 * builder.m_file_list.length by omega)
      have hadd := serial_add haligned hfours 0x8
      have hend : serial (builder.m_file_list.map (blockOf (fun _ => 4) stringSize))
          (0x20 + 0x10 * builder.m_file_list.length + 0x8) ≤ 2 ^ 32 := by omega
      have hmultiple : ∀ node ∈ builder.m_file_list,
          ((fun _ => 4 : SarcFileNode → BitVec 32) node).toNat ∣ out.toNat := fun _ _ => hfour
      obtain ⟨hin, -⟩ := placed_spec (fun _ _ => ⟨2, rfl⟩) hout hmultiple hiter hend
      intro e he
      rw [namesFrom_eq (by omega)] at he
      have hbounds := hin e he
      omega

theorem Room.laidOut (h : Room out builder.m_file_list) : LaidOut behind out builder := by
  have haligned : Aligned (builder.m_file_list.map SarcFileNode.block) := aligned_map halign
  obtain ⟨pre, node, post, hfiles, hgap⟩ := h.gap
  have hne : builder.m_file_list ≠ [] := by
    rw [hfiles]
    exact List.append_ne_nil_of_right_ne_nil _ (List.cons_ne_nil _ _)
  have hplace : 0x20 + 0x10 * builder.m_file_list.length + namesEnd builder.m_file_list 0x8 ≤
      regionPlace builder.m_file_list := by
    cases hlist : builder.m_file_list with
    | nil => exact absurd hlist hne
    | cons node nodes =>
      obtain ⟨k, hk⟩ := halign node (by rw [hlist]; exact List.mem_cons_self)
      rw [regionPlace, hk]
      exact le_up (Nat.two_pow_pos k)
  have hend : serial (builder.m_file_list.map SarcFileNode.block) (regionPlace builder.m_file_list) ≤
      serial (builder.m_file_list.map SarcFileNode.block) 0 := by
    apply (serial_le_iff haligned (by omega)).mpr
    refine ⟨pre.map SarcFileNode.block, node.block, post.map SarcFileNode.block, ?_, hgap⟩
    conv_lhs => rw [hfiles]
    rw [List.map_append, List.map_cons]
  have hsmall := h.small
  have hle := le_serial haligned (regionPlace builder.m_file_list)
  have htotal := total_toNat behind halign
  rw [Nat.mod_eq_of_lt hsmall] at htotal
  have hlength : builder.m_file_list.length ≤ 2 ^ 28 := by omega
  have hsfnt := sfnt_toNat behind halign hout hlength
  have hregion := region_offset_toNat behind halign hne (by omega)
  have hiter : (out + (CalculateMemoryInfo behind builder).location_file_region.offset).toNat =
      out.toNat + regionPlace builder.m_file_list := by
    rw [BitVec.toNat_add, hregion]
    omega
  have htables := tables_bounds behind halign hout hfour hlength (by omega)
  have hword : serial (builder.m_file_list.map (blockOf SarcFileNode.m_file_alignment
      SarcFileNode.m_file_size)) (regionPlace builder.m_file_list) ≤ 2 ^ 32 :=
    Nat.le_of_lt (Nat.lt_of_le_of_lt hend hsmall)
  obtain ⟨hfilesIn, hfilesApart⟩ := placed_spec halign hout h.multiple hiter hword
  constructor
  · rw [parts, htotal]
    refine List.forall_mem_cons.mpr ⟨?_, List.forall_mem_cons.mpr ⟨?_, List.forall_mem_cons.mpr ⟨?_, ?_⟩⟩⟩
    · intro e he _
      obtain rfl := List.mem_singleton.mp he
      refine ⟨Nat.le_refl _, ?_⟩
      dsimp only
      omega
    · intro e he _
      have hin := htables.1 e he
      exact ⟨by omega, by omega⟩
    · intro e he _
      have hin := htables.2 e he
      exact ⟨by omega, by omega⟩
    · intro part hpart e he _
      obtain ⟨f, hf, rfl⟩ := List.mem_map.mp hpart
      obtain rfl := List.mem_singleton.mp he
      have hin := hfilesIn e hf
      change serial (builder.m_file_list.map SarcFileNode.block) _ ≤ _ at hend
      exact ⟨by omega, Nat.le_trans hin.2 (Nat.add_le_add_left hend _)⟩
  · intro p hp
    obtain ⟨k, hk⟩ := halign p.1 (List.of_mem_zip hp).1
    have hstart := dvd_placed halign _ p hp
    have hbuffer := h.multiple p.1 (List.of_mem_zip hp).1
    have hlt := two_pow_lt hk
    rw [hk] at hstart hbuffer ⊢
    exact (dvd_sub_iff (by omega) hstart).mpr hbuffer
  · have hfile : ∀ part ∈ (filesFrom (out + (CalculateMemoryInfo behind builder).location_file_region.offset)
        builder.m_file_list).map ([·]), ∀ f ∈ part,
        out.toNat + regionPlace builder.m_file_list ≤ f.start.toNat := by
      intro part hpart f hf
      obtain ⟨g, hg, rfl⟩ := List.mem_map.mp hpart
      obtain rfl := List.mem_singleton.mp hf
      exact (hfilesIn f hg).1
    rw [parts]
    refine List.pairwise_cons.mpr ⟨List.forall_mem_cons.mpr ⟨?_, List.forall_mem_cons.mpr ⟨?_, ?_⟩⟩,
      List.pairwise_cons.mpr ⟨List.forall_mem_cons.mpr ⟨?_, ?_⟩, List.pairwise_cons.mpr ⟨?_, ?_⟩⟩⟩
    · intro e he f hf
      obtain rfl := List.mem_singleton.mp he
      exact Extent.disjoint_of_le (Nat.le_refl _) (htables.1 f hf).1
    · intro e he f hf
      obtain rfl := List.mem_singleton.mp he
      have hin := (htables.2 f hf).1
      exact Extent.disjoint_of_le (Nat.le_refl _) (by dsimp only; omega)
    · intro part hpart e he f hf
      obtain rfl := List.mem_singleton.mp he
      have hin := hfile part hpart f hf
      exact Extent.disjoint_of_le (Nat.le_refl _) (by dsimp only; omega)
    · intro e he f hf
      exact Extent.disjoint_of_le (htables.1 e he).2 (htables.2 f hf).1
    · intro part hpart e he f hf
      have hin := hfile part hpart f hf
      exact Extent.disjoint_of_le (htables.1 e he).2 (by omega)
    · intro part hpart e he f hf
      have hin := hfile part hpart f hf
      have hout := (htables.2 e he).2
      exact Extent.disjoint_of_le (n := out.toNat + regionPlace builder.m_file_list) (by omega) hin
    · rw [List.pairwise_map]
      refine hfilesApart.imp ?_
      intro e f hapart e' he' f' hf'
      obtain rfl := List.mem_singleton.mp he'
      obtain rfl := List.mem_singleton.mp hf'
      exact hapart

end Bounds

section Serialized

variable {buf : Buffer} (hbuf : UserBuffer buf)
include hbuf

theorem writeFile_writes {hash_seed : BitVec 32} {sfat sfnt_start file_region : BitVec 64}
    {node : SarcFileNode} {s s' : SerializeState} (hsfat : sfat.toNat = buf.start.toNat + 0x14)
    (h : writeFile buf hash_seed sfat sfnt_start file_region node s = some s') :
    buf.Holds (sfat + 0xc + 0x10 * s.file_count.setWidth 64).toNat 0x10 ∧
    ((stringSize node).toNat ≠ 0 → buf.Holds s.sfnt_iter.toNat (stringSize node).toNat) ∧
    (node.m_file_size.toNat ≠ 0 →
      buf.Holds (alignUp s.file_iter (node.m_file_alignment.setWidth 64)).toNat
        node.m_file_size.toNat) ∧
    (∀ b, ¬(⟨sfat + 0xc + 0x10 * s.file_count.setWidth 64, 0x10⟩ : Extent).Covers b →
      ¬(⟨s.sfnt_iter, (stringSize node).toNat⟩ : Extent).Covers b →
      ¬(⟨alignUp s.file_iter (node.m_file_alignment.setWidth 64),
        node.m_file_size.toNat⟩ : Extent).Covers b → s'.memory b = s.memory b) ∧
    s'.file_count = s.file_count + 1 ∧
    s'.sfnt_iter = alignUp (s.sfnt_iter + (stringSize node).setWidth 64) 4 ∧
    s'.file_iter = alignUp s.file_iter (node.m_file_alignment.setWidth 64) +
      node.m_file_size.setWidth 64 := by
  have hpos := hbuf.pos
  have hle := hbuf.le
  obtain ⟨m₁, m₂, m₃, m₄, name_data, hm₁, hm₂, hm₃, hm₄, hm₅, hnext, hsfnt, hiter⟩ := writeFile_eq h
  have hentry := fileEntry_toNat hle hsfat s.file_count
  have hcount := s.file_count.isLt
  have hfield : ∀ {m m' : Bytes} {fields : List Field},
      buf.writeFields m (sfat + 0xc + 0x10 * s.file_count.setWidth 64) fields = some m' →
      (∀ f ∈ fields, f.offset + f.width ≤ 0x10) → ∀ b,
        ¬(⟨sfat + 0xc + 0x10 * s.file_count.setWidth 64, 0x10⟩ : Extent).Covers b → m' b = m b := by
    intro m m' fields hw hwidth b hb
    apply Buffer.writeFields_other hw hwidth (by omega)
    rw [Extent.Covers] at hb
    dsimp only at hb
    omega
  have hname := Buffer.writeBytes_extent hm₂
  have hfile := Buffer.writeBytes_extent hm₄
  rw [length_path] at hname
  rw [length_file] at hfile
  refine ⟨?_, hname.1, hfile.1, ?_, hnext, hsfnt, hiter⟩
  · have hlast := Buffer.writeFields_holds hm₅ _ List.mem_cons_self
    have hoff : (0xc : BitVec 64).toNat = 0xc := rfl
    rw [Buffer.Holds] at hlast ⊢
    dsimp only at hlast
    rw [BitVec.toNat_add, hentry] at hlast
    simp only [BitVec.toNat_ofNat] at hlast
    rw [hentry]
    omega
  · intro b hb hbname hbfile
    rw [hfield hm₅ (by simp) b hb, hfile.2 b hbfile, hfield hm₃ (by simp) b hb, hname.2 b hbname,
      hfield hm₁ (by simp) b hb]

theorem writeFiles_writes {hash_seed : BitVec 32} {sfat sfnt_start file_region : BitVec 64}
    {nodes : List SarcFileNode} {s s' : SerializeState} (hsfat : sfat.toNat = buf.start.toNat + 0x14)
    (h : writeFiles buf hash_seed sfat sfnt_start file_region nodes s = some s') :
    (∀ e ∈ entriesFrom sfat s.file_count nodes, buf.Holds e.start.toNat e.length) ∧
    (∀ e ∈ namesFrom s.sfnt_iter nodes ++ filesFrom s.file_iter nodes,
      e.length ≠ 0 → buf.Holds e.start.toNat e.length) ∧
    ∀ b, (∀ e ∈ entriesFrom sfat s.file_count nodes, ¬e.Covers b) →
      (∀ e ∈ namesFrom s.sfnt_iter nodes ++ filesFrom s.file_iter nodes, ¬e.Covers b) →
        s'.memory b = s.memory b := by
  induction nodes generalizing s with
  | nil =>
    rw [writeFiles, Option.some_inj] at h
    subst h
    exact ⟨fun e he => (by cases he), fun e he => (by cases he), fun b _ _ => rfl⟩
  | cons node nodes ih =>
    rw [writeFiles] at h
    cases hw : writeFile buf hash_seed sfat sfnt_start file_region node s with
    | none =>
      rw [hw] at h
      cases h
    | some s₁ =>
      rw [hw] at h
      obtain ⟨hentry, hname, hfile, hframe, hcount, hsfnt, hiter⟩ := writeFile_writes hbuf hsfat hw
      obtain ⟨hentries, hrest, hother⟩ := ih h
      rw [hcount] at hentries hother
      rw [hsfnt, hiter, List.forall_mem_append] at hrest
      rw [hsfnt, hiter] at hother
      rw [entriesFrom, namesFrom, filesFrom, placed]
      refine ⟨List.forall_mem_cons.mpr ⟨hentry, hentries⟩, List.forall_mem_append.mpr
        ⟨List.forall_mem_cons.mpr ⟨hname, hrest.1⟩, List.forall_mem_cons.mpr ⟨hfile, hrest.2⟩⟩, ?_⟩
      intro b hb hbrest
      rw [List.forall_mem_cons] at hb
      rw [List.forall_mem_append, List.forall_mem_cons, List.forall_mem_cons] at hbrest
      rw [hother b hb.2 (List.forall_mem_append.mpr ⟨hbrest.1.2, hbrest.2.2⟩)]
      exact hframe b hb.1 hbrest.1.1 hbrest.2.1

/-- Every part is in the buffer of a serialization that ends, which writes nothing but the parts and
the zeros of the total. -/
theorem Serialize_writes {m m' : Bytes} {builder : SarcBuilder} {behind : BitVec 32}
    (h : Serialize m buf builder (CalculateMemoryInfo behind builder) = some m') :
    (∀ part ∈ parts buf.start builder.m_file_list (CalculateMemoryInfo behind builder), ∀ e ∈ part,
      e.length ≠ 0 → buf.Holds e.start.toNat e.length) ∧
    ∀ b, (∀ part ∈ parts buf.start builder.m_file_list (CalculateMemoryInfo behind builder),
        ∀ e ∈ part, ¬e.Covers b) →
      m' b = clear m buf.start.toNat (CalculateMemoryInfo behind builder).total_file_size.toNat b := by
  have hpos := hbuf.pos
  have hle := hbuf.le
  obtain ⟨m₁, m₂, m₃, s, h₁, h₂, h₃, h₄, h₅⟩ := Serialize_eq h
  have hsfat : (buf.start + 0x14).toNat = buf.start.toNat + 0x14 :=
    start_add hbuf (show 0x14 < 2 ^ 63 by decide)
  have hsfnt := sfnt_offset hbuf behind builder
  have hcount := (builder.m_file_list.foldl addSize ⟨0, 0x8, 0, 4⟩).file_count.isLt
  obtain ⟨hentries, hrest, hother⟩ := writeFiles_writes hbuf hsfat h₄
  rw [List.forall_mem_append] at hrest
  have hheader := Buffer.writeFields_holds h₁ ⟨0x12, 2, 0⟩ (by simp [sarcFields])
  have htable := Buffer.writeFields_holds h₂ ⟨0x8, 4, builder.m_hash_seed.toNat⟩ (by simp [sfatFields])
  have hpaths := Buffer.writeFields_holds h₃ ⟨0x4, 2, 0x8⟩ (by simp [sfntFields])
  rw [Buffer.Holds, BitVec.toNat_add] at hheader htable hpaths
  simp only [BitVec.toNat_ofNat] at hheader htable hpaths
  constructor
  · rw [parts]
    refine List.forall_mem_cons.mpr ⟨?_, List.forall_mem_cons.mpr ⟨?_, List.forall_mem_cons.mpr ⟨?_, ?_⟩⟩⟩
    · intro e he _
      obtain rfl := List.mem_singleton.mp he
      exact ⟨Nat.le_refl _, by dsimp only; omega⟩
    · refine List.forall_mem_cons.mpr ⟨fun _ => ?_, fun e he _ => hentries e he⟩
      exact ⟨by dsimp only; omega, by dsimp only; omega⟩
    · refine List.forall_mem_cons.mpr ⟨fun _ => ?_, fun e he hne => hrest.1 e he hne⟩
      exact ⟨by dsimp only; omega, by dsimp only; omega⟩
    · intro part hpart e he hne
      obtain ⟨f, hf, rfl⟩ := List.mem_map.mp hpart
      obtain rfl := List.mem_singleton.mp he
      exact hrest.2 e hf hne
  · intro b hb
    rw [parts] at hb
    obtain ⟨hb₁, hb⟩ := List.forall_mem_cons.mp hb
    obtain ⟨hb₂, hb⟩ := List.forall_mem_cons.mp hb
    obtain ⟨hb₃, hb₄⟩ := List.forall_mem_cons.mp hb
    have hb₁ := hb₁ _ (List.mem_singleton_self _)
    obtain ⟨hb₂, hbentries⟩ := List.forall_mem_cons.mp hb₂
    obtain ⟨hb₃, hbnames⟩ := List.forall_mem_cons.mp hb₃
    have hbfiles : ∀ e ∈ filesFrom (buf.start + (CalculateMemoryInfo behind
        builder).location_file_region.offset) builder.m_file_list, ¬e.Covers b :=
      fun e he => hb₄ [e] (List.mem_map.mpr ⟨e, he, rfl⟩) e (List.mem_singleton_self e)
    rw [Extent.Covers] at hb₁ hb₂ hb₃
    dsimp only at hb₁ hb₂ hb₃
    rw [Buffer.writeFields_other h₅ (n := 0xc) (by simp) (by omega) (by omega),
      hother b hbentries (List.forall_mem_append.mpr ⟨hbnames, hbfiles⟩)]
    change m₃ b = _
    rw [Buffer.writeFields_other h₃ (n := 0x6) (by simp [sfntFields]) (by omega) (by omega),
      Buffer.writeFields_other h₂ (n := 0xc) (by simp [sfatFields]) (by omega) (by omega),
      Buffer.writeFields_other h₁ (n := 0x14) (by simp [sarcFields]) (by omega) (by omega)]

end Serialized

/-- The archive stays in its total, aligned and without overlap, just if some gap between the files
takes up all that is not counted. -/
theorem laidOut_iff (behind : BitVec 32) {out : BitVec 64} {builder : SarcBuilder}
    (halign : ∀ node ∈ builder.m_file_list, ∃ k, node.m_file_alignment.toNat = 2 ^ k)
    (hout : out.toNat ≤ 2 ^ 63) (hfour : 4 ∣ out.toNat) :
    LaidOut behind out builder ↔ Room out builder.m_file_list :=
  ⟨fun h => h.room halign hout hfour, fun h => h.laidOut halign hout hfour⟩

def onlyFileA : SarcBuilder := { m_file_list := [fileA] }

theorem onlyFileA_aligned :
    ∀ node ∈ onlyFileA.m_file_list, ∃ k, node.m_file_alignment.toNat = 2 ^ k := by
  intro node hnode
  obtain rfl := List.mem_singleton.mp hnode
  exact ⟨2, rfl⟩

theorem Serialize_writes_fileA : ∃ m',
    Serialize (fun _ => 0) smallBuffer onlyFileA (CalculateMemoryInfo 0 onlyFileA) = some m' ∧
      ∀ b, (∀ part ∈ parts 0x1000 [fileA] (CalculateMemoryInfo 0 onlyFileA), ∀ e ∈ part,
          ¬e.Covers b) →
        m' b = clear (fun _ => 0) 0x1000 (CalculateMemoryInfo 0 onlyFileA).total_file_size.toNat b := by
  have hsome : (Serialize (fun _ => 0) smallBuffer onlyFileA
      (CalculateMemoryInfo 0 onlyFileA)).isSome = true := by decide +kernel
  obtain ⟨m', h⟩ := Option.isSome_iff_exists.mp hsome
  exact ⟨m', h, (Serialize_writes smallBuffer_user h).2⟩

theorem laidOut_iff_fileA : LaidOut 0 0x1000 onlyFileA ↔ Room 0x1000 [fileA] :=
  laidOut_iff 0 onlyFileA_aligned (by decide) (by decide)

theorem onlyFileA_not_laidOut : ¬∀ behind (out : BitVec 64) (builder : SarcBuilder),
    (∀ node ∈ builder.m_file_list, ∃ k, node.m_file_alignment.toNat = 2 ^ k) →
      out.toNat ≤ 2 ^ 63 → 4 ∣ out.toNat → LaidOut behind out builder := by
  intro h
  have hlaid := h 0 0x1000 onlyFileA onlyFileA_aligned (by decide) (by decide)
  have htotal : (CalculateMemoryInfo 0 onlyFileA).total_file_size = 1 := by decide +kernel
  have hheader := (hlaid.inside _ List.mem_cons_self _ List.mem_cons_self (show 0x14 ≠ 0 by decide)).2
  rw [htotal] at hheader
  revert hheader
  decide

end Awn.Sarc
