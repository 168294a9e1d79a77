import Awn.Calls.Throughout
import Awn.Memory.Buffer
import Mathlib.Data.Option.Basic

/-!
`awn::mem::FrameHeap`, behind its object in an allocation of its parent. The calls hold its lock.
-/

namespace Awn

open Memory

structure FrameHeap where
  m_start_address : BitVec 64
  m_end_address : BitVec 64
  m_start_offset : BitVec 64

namespace FrameHeap

variable (h : FrameHeap)

def create (start_address size : BitVec 64) : FrameHeap :=
  ⟨start_address, start_address + size, start_address⟩

def powerOfTwo (k : ℕ) : BitVec 64 := BitVec.ofNat 64 (2 ^ k)

def TryAllocate (size alignment : BitVec 64) : Option (BitVec 64) × FrameHeap :=
  let old_start := alignUp h.m_start_offset alignment
  let new_start_offset := old_start + size
  if h.m_end_address ≤ new_start_offset then (none, h)
  else (some old_start, { h with m_start_offset := new_start_offset })

def GetMaximumAllocatableSize (alignment : BitVec 64) : BitVec 64 :=
  h.m_end_address - alignUp h.m_start_offset alignment

def AdjustHeap : FrameHeap × BitVec 64 :=
  ({ h with m_end_address := h.m_start_offset }, h.m_start_offset - h.m_start_address)

def ResizeHeapBack (new_size : BitVec 64) : Option (FrameHeap × BitVec 64) :=
  let new_end := h.m_start_address + new_size
  if new_end < h.m_start_offset then none
  else some ({ h with m_end_address := new_end }, h.m_start_offset - h.m_start_address)

structure Allocation where
  address : BitVec 64
  size : BitVec 64
  alignment : BitVec 64

structure ParentHeap (P : Type*) where
  allocated : P → BitVec 64
  AdjustAllocation : P → BitVec 64 → P

variable {P : Type*}

structure State (P : Type*) where
  h : FrameHeap
  m_parent_heap : Option P
  live : List Allocation

inductive Call
  | TryAllocate (size : BitVec 64) (k : ℕ)
  | TryAllocateMaximum (k : ℕ)
  | AdjustHeap
  | ResizeHeapBack (new_size : BitVec 64)

def State.allocate (s : State P) (size alignment : BitVec 64) : State P :=
  match s.h.TryAllocate size alignment with
  | (some address, h) => { s with h, live := ⟨address, size, alignment⟩ :: s.live }
  | (none, h) => { s with h }

variable (parents : ParentHeap P)

def State.adjustParent (s : State P) (h : FrameHeap) (adjusted_size : BitVec 64) : State P :=
  { s with
    h
    m_parent_heap := s.m_parent_heap.map fun p => parents.AdjustAllocation p adjusted_size }

def State.call (s : State P) : Call → State P
  | .TryAllocate size k => s.allocate size (powerOfTwo k)
  | .TryAllocateMaximum k =>
    s.allocate (s.h.GetMaximumAllocatableSize (powerOfTwo k)) (powerOfTwo k)
  | .AdjustHeap => s.adjustParent parents s.h.AdjustHeap.1 s.h.AdjustHeap.2
  | .ResizeHeapBack new_size =>
    match s.h.ResizeHeapBack new_size with
    | some (h, adjusted_size) => s.adjustParent parents h adjusted_size
    | none => s

def Allocation.Apart (a b : Allocation) : Prop :=
  a.address.toNat + a.size.toNat ≤ b.address.toNat ∨
    b.address.toNat + b.size.toNat ≤ a.address.toNat

variable (object_size : ℕ)

def State.Covers (s : State P) (offset : ℕ) : Prop :=
  ∀ p ∈ s.m_parent_heap,
    object_size + (offset - s.h.m_start_address.toNat) ≤ (parents.allocated p).toNat

def State.Kept (s : State P) : Prop :=
  ∀ p ∈ s.m_parent_heap,
    object_size + (s.h.m_start_offset.toNat - s.h.m_start_address.toNat) ≤
      (parents.allocated
        (parents.AdjustAllocation p (s.h.m_start_offset - s.h.m_start_address))).toNat

structure State.Right (s : State P) : Prop where
  apart : s.live.Pairwise Allocation.Apart
  aligned : ∀ a ∈ s.live, a.alignment.toNat ∣ a.address.toNat
  inside : ∀ a ∈ s.live, s.h.m_start_address.toNat ≤ a.address.toNat ∧
    a.address.toNat + a.size.toNat ≤ s.h.m_end_address.toNat
  covers : s.Covers parents object_size s.h.m_start_offset.toNat

def Answered (s : State P) : Call → Prop
  | .TryAllocateMaximum k => s.h.GetMaximumAllocatableSize (powerOfTwo k) ≠ 0 →
    (s.h.TryAllocate (s.h.GetMaximumAllocatableSize (powerOfTwo k)) (powerOfTwo k)).1 ≠ none
  | _ => True

def Used (_ : State P) : Call → Prop
  | .TryAllocate _ k => k < 31
  | .TryAllocateMaximum k => k < 31
  | _ => True

/-- An allocation that is not refused ends where no address wraps, in what the parent has; there is
no largest size; and the parent keeps more than it is asked to. -/
def Met (s : State P) : Call → Prop
  | .TryAllocate size k =>
    let old_start := alignUp s.h.m_start_offset (powerOfTwo k)
    s.h.m_end_address ≤ old_start + size ∨ s.h.m_start_offset ≤ old_start ∧
      old_start.toNat + size.toNat < 2 ^ 64 ∧
      s.Covers parents object_size (old_start.toNat + size.toNat)
  | .TryAllocateMaximum k => s.h.GetMaximumAllocatableSize (powerOfTwo k) = 0
  | .AdjustHeap => s.Kept parents object_size
  | .ResizeHeapBack new_size =>
    s.h.m_start_address + new_size < s.h.m_start_offset ∨ s.Kept parents object_size

structure State.Inv (s : State P) : Prop where
  right : s.Right parents object_size
  positive : 0 < s.h.m_start_address.toNat
  start_le : s.h.m_start_address.toNat ≤ s.h.m_start_offset.toNat
  offset_le : s.h.m_start_offset.toNat ≤ s.h.m_end_address.toNat
  below : ∀ a ∈ s.live, a.address.toNat + a.size.toNat ≤ s.h.m_start_offset.toNat

section Step

variable {parents} {object_size} {s : State P}

theorem powerOfTwo_dvd (x : BitVec 64) {k : ℕ} (hk : k < 31) :
    (powerOfTwo k).toNat ∣ (alignUp x (powerOfTwo k)).toNat := by
  have hpow : 2 ^ k < 2 ^ 64 := Nat.pow_lt_pow_right (by omega) (by omega)
  rw [powerOfTwo, BitVec.toNat_ofNat, Nat.mod_eq_of_lt hpow]
  exact alignUp_dvd x (by omega)

theorem State.allocate_refused {size alignment : BitVec 64}
    (hfull : s.h.m_end_address ≤ alignUp s.h.m_start_offset alignment + size) :
    s.allocate size alignment = s := by
  have htry : s.h.TryAllocate size alignment = (none, s.h) := if_pos hfull
  rw [State.allocate, htry]

theorem State.allocate_accepted {size alignment : BitVec 64}
    (hroom : ¬s.h.m_end_address ≤ alignUp s.h.m_start_offset alignment + size) :
    s.allocate size alignment =
      { s with
        h := { s.h with m_start_offset := alignUp s.h.m_start_offset alignment + size }
        live := ⟨alignUp s.h.m_start_offset alignment, size, alignment⟩ :: s.live } := by
  have htry : s.h.TryAllocate size alignment = (some (alignUp s.h.m_start_offset alignment),
      { s.h with m_start_offset := alignUp s.h.m_start_offset alignment + size }) := if_neg hroom
  rw [State.allocate, htry]

theorem State.Inv.allocate (hs : s.Inv parents object_size) {size : BitVec 64} {k : ℕ} (hk : k < 31)
    (hmet : Met parents object_size s (.TryAllocate size k)) :
    (s.allocate size (powerOfTwo k)).Inv parents object_size := by
  by_cases hfull : s.h.m_end_address ≤ alignUp s.h.m_start_offset (powerOfTwo k) + size
  · rw [State.allocate_refused hfull]
    exact hs
  · obtain ⟨hle, hwrap, hcovers⟩ := hmet.resolve_left hfull
    rw [State.allocate_accepted hfull]
    have hstart := hs.start_le
    have hsum : (alignUp s.h.m_start_offset (powerOfTwo k) + size).toNat =
        (alignUp s.h.m_start_offset (powerOfTwo k)).toNat + size.toNat := by
      rw [BitVec.toNat_add, Nat.mod_eq_of_lt hwrap]
    rw [BitVec.le_def] at hle hfull
    rw [hsum] at hfull
    constructor
    · constructor
      · refine List.pairwise_cons.mpr ⟨?_, hs.right.apart⟩
        intro a ha
        right
        exact Nat.le_trans (hs.below a ha) hle
      · intro a ha
        rcases List.mem_cons.mp ha with rfl | ha
        · exact powerOfTwo_dvd _ hk
        · exact hs.right.aligned a ha
      · intro a ha
        rcases List.mem_cons.mp ha with rfl | ha
        · refine ⟨Nat.le_trans hstart hle, ?_⟩
          show (alignUp s.h.m_start_offset (powerOfTwo k)).toNat + size.toNat ≤
            s.h.m_end_address.toNat
          omega
        · exact hs.right.inside a ha
      · show s.Covers parents object_size (alignUp s.h.m_start_offset (powerOfTwo k) + size).toNat
        rw [hsum]
        exact hcovers
    · exact hs.positive
    · show s.h.m_start_address.toNat ≤ (alignUp s.h.m_start_offset (powerOfTwo k) + size).toNat
      rw [hsum]
      omega
    · show (alignUp s.h.m_start_offset (powerOfTwo k) + size).toNat ≤ s.h.m_end_address.toNat
      rw [hsum]
      omega
    · intro a ha
      show a.address.toNat + a.size.toNat ≤
        (alignUp s.h.m_start_offset (powerOfTwo k) + size).toNat
      rw [hsum]
      rcases List.mem_cons.mp ha with rfl | ha
      · exact Nat.le_refl _
      · have hbelow := hs.below a ha
        omega

theorem State.kept_iff : s.Kept parents object_size ↔
    ∀ p ∈ s.m_parent_heap.map fun p =>
        parents.AdjustAllocation p (s.h.m_start_offset - s.h.m_start_address),
      object_size + (s.h.m_start_offset.toNat - s.h.m_start_address.toNat) ≤
        (parents.allocated p).toNat := by
  rw [State.Kept, Option.forall_mem_map]

theorem State.Inv.adjustParent (hs : s.Inv parents object_size) {m_end_address : BitVec 64}
    (hend : s.h.m_start_offset.toNat ≤ m_end_address.toNat) (hkept : s.Kept parents object_size) :
    (s.adjustParent parents { s.h with m_end_address }
      (s.h.m_start_offset - s.h.m_start_address)).Inv parents object_size where
  right :=
    { apart := hs.right.apart
      aligned := hs.right.aligned
      inside := by
        intro a ha
        exact ⟨(hs.right.inside a ha).1, Nat.le_trans (hs.below a ha) hend⟩
      covers := State.kept_iff.mp hkept }
  positive := hs.positive
  start_le := hs.start_le
  offset_le := hend
  below := hs.below

theorem maximum_refused (alignment : BitVec 64) :
    s.h.m_end_address ≤ alignUp s.h.m_start_offset alignment +
      s.h.GetMaximumAllocatableSize alignment := by
  have hsum : alignUp s.h.m_start_offset alignment + s.h.GetMaximumAllocatableSize alignment =
      s.h.m_end_address := by
    rw [GetMaximumAllocatableSize, BitVec.add_comm, BitVec.sub_add_cancel]
  rw [hsum]
  exact BitVec.le_refl _

theorem State.Inv.call (hs : s.Inv parents object_size) (c : Call) (hused : Used s c)
    (hmet : Met parents object_size s c) :
    Answered s c ∧ (s.call parents c).Inv parents object_size := by
  cases c with
  | TryAllocate size k => exact ⟨trivial, hs.allocate hused hmet⟩
  | TryAllocateMaximum k =>
    refine ⟨fun hne => absurd hmet hne, ?_⟩
    show (s.allocate _ _).Inv parents object_size
    rw [State.allocate_refused (maximum_refused _)]
    exact hs
  | AdjustHeap => exact ⟨trivial, hs.adjustParent (Nat.le_refl _) hmet⟩
  | ResizeHeapBack new_size =>
    refine ⟨trivial, ?_⟩
    by_cases hbelow : s.h.m_start_address + new_size < s.h.m_start_offset
    · have hresize : s.h.ResizeHeapBack new_size = none := if_pos hbelow
      simp only [State.call, hresize]
      exact hs
    · have hresize : s.h.ResizeHeapBack new_size =
          some ({ s.h with m_end_address := s.h.m_start_address + new_size },
            s.h.m_start_offset - s.h.m_start_address) := if_neg hbelow
      simp only [State.call, hresize]
      apply hs.adjustParent _ (hmet.resolve_left hbelow)
      rw [BitVec.lt_def] at hbelow
      omega

theorem State.Inv.met_of_right (hs : s.Inv parents object_size) (c : Call) (hused : Used s c)
    (hanswered : Answered s c) (hright : (s.call parents c).Right parents object_size) :
    Met parents object_size s c := by
  cases c with
  | TryAllocate size k =>
    have hright : (s.allocate size (powerOfTwo k)).Right parents object_size := hright
    by_cases hfull : s.h.m_end_address ≤ alignUp s.h.m_start_offset (powerOfTwo k) + size
    · exact Or.inl hfull
    · right
      rw [State.allocate_accepted hfull] at hright
      have hinside : s.h.m_start_address.toNat ≤
          (alignUp s.h.m_start_offset (powerOfTwo k)).toNat ∧
            (alignUp s.h.m_start_offset (powerOfTwo k)).toNat + size.toNat ≤
              s.h.m_end_address.toNat := hright.inside _ List.mem_cons_self
      have hpositive := hs.positive
      have hend := s.h.m_end_address.isLt
      have hwrap : (alignUp s.h.m_start_offset (powerOfTwo k)).toNat + size.toNat < 2 ^ 64 := by
        omega
      have hcovers : s.Covers parents object_size
          (alignUp s.h.m_start_offset (powerOfTwo k) + size).toNat := hright.covers
      rw [BitVec.toNat_add, Nat.mod_eq_of_lt hwrap] at hcovers
      refine ⟨?_, hwrap, hcovers⟩
      rw [BitVec.le_def]
      rcases alignUp_ge s.h.m_start_offset (show k < 64 by exact Nat.lt_trans hused (by decide))
        with hle | hzero
      · exact hle
      · have hvalue : (alignUp s.h.m_start_offset (powerOfTwo k)).toNat = 0 :=
          congrArg BitVec.toNat hzero
        omega
  | TryAllocateMaximum k =>
    by_contra hne
    have htry : s.h.TryAllocate (s.h.GetMaximumAllocatableSize (powerOfTwo k)) (powerOfTwo k) =
        (none, s.h) := if_pos (maximum_refused _)
    apply hanswered hne
    rw [htry]
  | AdjustHeap => exact State.kept_iff.mpr hright.covers
  | ResizeHeapBack new_size =>
    by_cases hbelow : s.h.m_start_address + new_size < s.h.m_start_offset
    · exact Or.inl hbelow
    · right
      have hresize : s.h.ResizeHeapBack new_size =
          some ({ s.h with m_end_address := s.h.m_start_address + new_size },
            s.h.m_start_offset - s.h.m_start_address) := if_neg hbelow
      simp only [State.call, hresize] at hright
      exact State.kept_iff.mpr hright.covers

end Step

theorem State.inv_create {start size : BitVec 64} {m_parent_heap : Option P}
    (hstart : 0 < start.toNat) (hend : start.toNat + size.toNat < 2 ^ 64)
    (hparent : ∀ p ∈ m_parent_heap, object_size + size.toNat ≤ (parents.allocated p).toNat) :
    State.Inv parents object_size ⟨create start size, m_parent_heap, []⟩ where
  right :=
    { apart := List.Pairwise.nil
      aligned := List.forall_mem_nil _
      inside := List.forall_mem_nil _
      covers := by
        intro p hp
        have hroom := hparent p hp
        show object_size + (start.toNat - start.toNat) ≤ _
        omega }
  positive := hstart
  start_le := Nat.le_refl _
  offset_le := by
    show start.toNat ≤ (start + size).toNat
    rw [BitVec.toNat_add, Nat.mod_eq_of_lt hend]
    exact Nat.le_add_right _ _
  below := List.forall_mem_nil _

theorem frameHeap_right_iff {start size : BitVec 64} {m_parent_heap : Option P}
    (hstart : 0 < start.toNat) (hend : start.toNat + size.toNat < 2 ^ 64)
    (hparent : ∀ p ∈ m_parent_heap, object_size + size.toNat ≤ (parents.allocated p).toNat)
    {cs : List Call}
    (hused : Calls.EachIn (State.call parents) Used ⟨create start size, m_parent_heap, []⟩ cs) :
    Calls.Throughout (State.call parents) (State.Right parents object_size) Answered
        ⟨create start size, m_parent_heap, []⟩ cs ↔
      Calls.EachIn (State.call parents) (Met parents object_size)
        ⟨create start size, m_parent_heap, []⟩ cs :=
  Calls.throughout_iff (fun _ (hs : State.Inv parents object_size _) => hs.right)
    (fun _ c hs hu hmet => hs.call c hu hmet)
    (fun _ c hs hu hanswered hright => hs.met_of_right c hu hanswered hright)
    (State.inv_create parents object_size hstart hend hparent) hused

def asAsked : ParentHeap (BitVec 64) := ⟨id, fun _ new_size => new_size⟩

def page : State (BitVec 64) := ⟨create 0x1060 0x1000, some 0x1060, []⟩

theorem page_right :
    Calls.Throughout (State.call asAsked) (State.Right asAsked 0x60) Answered page
        [.TryAllocate 0x30 4, .TryAllocate 0xfd0 4] ↔
      Calls.EachIn (State.call asAsked) (Met asAsked 0x60) page
        [.TryAllocate 0x30 4, .TryAllocate 0xfd0 4] :=
  frameHeap_right_iff asAsked 0x60 (by decide) (by decide)
    (fun p hp => by obtain rfl := Option.mem_some_iff.mp hp; decide)
    ⟨trivial, (by decide : 4 < 31), trivial, (by decide : 4 < 31), trivial⟩

theorem page_not_right :
    ¬Calls.Throughout (State.call asAsked) (State.Right asAsked 0x60) Answered page
        [.TryAllocateMaximum 4] ∧
      ¬Calls.Throughout (State.call asAsked) (State.Right asAsked 0x60) Answered page
        [.AdjustHeap] := by
  constructor
  · rintro ⟨-, hanswered, -⟩
    exact hanswered (by decide) (by decide)
  · rintro ⟨-, -, hright⟩
    exact absurd (hright.covers 0 rfl) (by decide)

end FrameHeap

end Awn
