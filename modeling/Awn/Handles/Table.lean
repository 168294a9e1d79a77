import Mathlib.Algebra.Group.Nat.Defs
import Mathlib.Data.List.Nodup
import Mathlib.Logic.Function.Basic

/-!
`vp::util::FixedHandleTable` and `awn::ukern::HandleTable`, which differ in their size and in how
they compare the serial of a handle with that of its slot. The calls of the second hold its mutex.
-/

namespace Awn.Handles

structure HandleTable (Obj : Type*) where
  m_counter_array : ℕ → BitVec 16
  m_object_array : ℕ → Option Obj
  m_indice_iter : BitVec 32
  m_active_handles : BitVec 16
  m_counter_value : BitVec 16

variable {Obj : Type*}

/-- A read of an array, or `none` behind it. -/
def load {α : Type*} (cMaxHandles : ℕ) (array : ℕ → α) (index : ℕ) : Option α :=
  if index < cMaxHandles then some (array index) else none

namespace HandleTable

def Initialize (Obj : Type*) (cMaxHandles : ℕ) : HandleTable Obj where
  m_counter_array := fun i => BitVec.ofNat 16 i - 1
  m_object_array := fun _ => none
  m_indice_iter := BitVec.ofNat 32 cMaxHandles - 1
  m_active_handles := 0
  m_counter_value := 1

variable (cMaxHandles : ℕ) (same_serial : BitVec 32 → BitVec 16 → Bool) (table : HandleTable Obj)

def nextCounter (m_counter_value : BitVec 16) : BitVec 16 :=
  if -1 < (m_counter_value + 1).toInt then m_counter_value + 1 else 1

def reserveHandle (object : Obj) : Option (Option (BitVec 32) × HandleTable Obj) :=
  if cMaxHandles ≤ table.m_active_handles.toNat then some (none, table)
  else
    let index := table.m_indice_iter.setWidth 16
    let counter := table.m_counter_value
    (load cMaxHandles table.m_counter_array index.toNat).map fun next =>
      (some ((index &&& 0x7fff).setWidth 32 ||| counter.setWidth 32 <<< 15),
        { m_counter_array := Function.update table.m_counter_array index.toNat counter
          m_object_array := Function.update table.m_object_array index.toNat (some object)
          m_indice_iter := next.signExtend 32
          m_active_handles := table.m_active_handles + 1
          m_counter_value := nextCounter counter })

variable (handle : BitVec 32)

def freeHandle : Option (Bool × HandleTable Obj) :=
  if handle = 0 ∨ handle >>> 15 = 0 then some (false, table)
  else
    let index := (handle &&& 0x7fff).toNat
    if cMaxHandles < index then some (false, table)
    else
      (load cMaxHandles table.m_object_array index).bind fun object =>
        if object.isNone then some (false, table)
        else
          (load cMaxHandles table.m_counter_array index).map fun counter =>
            if same_serial handle counter then
              (true,
                { table with
                  m_object_array := Function.update table.m_object_array index none
                  m_counter_array :=
                    Function.update table.m_counter_array index (table.m_indice_iter.setWidth 16)
                  m_indice_iter := BitVec.ofNat 32 index
                  m_active_handles := table.m_active_handles - 1 })
            else (false, table)

def getObjectByHandle : Option (Option Obj) :=
  if handle >>> 30 ≠ 0 ∨ handle = 0 ∨ handle >>> 15 = 0 then some none
  else
    let index := (handle &&& 0x7fff).toNat
    if cMaxHandles < index then some none
    else
      (load cMaxHandles table.m_counter_array index).bind fun counter =>
        if same_serial handle counter then load cMaxHandles table.m_object_array index
        else some none

end HandleTable

namespace FixedHandleTable

def sameSerial (handle : BitVec 32) (counter : BitVec 16) : Bool :=
  handle >>> 15 == counter.signExtend 32

variable (HandleCount : ℕ) (table : HandleTable Obj)

def ReserveHandle (object : Obj) : Option (Option (BitVec 32) × HandleTable Obj) :=
  table.reserveHandle HandleCount object

def FreeHandle (handle : BitVec 32) : Option (Bool × HandleTable Obj) :=
  table.freeHandle HandleCount sameSerial handle

def GetObjectByHandle (handle : BitVec 32) : Option (Option Obj) :=
  table.getObjectByHandle HandleCount sameSerial handle

end FixedHandleTable

namespace Ukern

def MaxHandles : ℕ := 256

def sameSerial (handle : BitVec 32) (counter : BitVec 16) : Bool :=
  (handle >>> 15).setWidth 16 == counter

variable (table : HandleTable Obj)

def ReserveHandle (object : Obj) : Option (Option (BitVec 32) × HandleTable Obj) :=
  table.reserveHandle MaxHandles object

def FreeHandle (handle : BitVec 32) : Option (Bool × HandleTable Obj) :=
  table.freeHandle MaxHandles sameSerial handle

def GetObjectByHandle (handle : BitVec 32) : Option (Option Obj) :=
  table.getObjectByHandle MaxHandles sameSerial handle

end Ukern

end Awn.Handles

/-! What the slots of a table say about the handles that are live. -/

namespace Awn.Handles

variable {Obj : Type*}

def indexOf (handle : BitVec 32) : ℕ := handle.toNat % 2 ^ 15

def serialOf (handle : BitVec 32) : ℕ := handle.toNat / 2 ^ 15

theorem toNat_and_index (handle : BitVec 32) : (handle &&& 0x7fff).toNat = indexOf handle := by
  rw [BitVec.toNat_and]
  exact Nat.and_two_pow_sub_one_eq_mod handle.toNat 15

theorem toNat_shift_serial (handle : BitVec 32) : (handle >>> 15).toNat = serialOf handle := by
  rw [BitVec.toNat_ushiftRight, Nat.shiftRight_eq_div_pow]
  rfl

theorem shift_eq_zero_iff (handle : BitVec 32) : handle >>> 15 = 0 ↔ serialOf handle = 0 := by
  rw [← toNat_shift_serial]
  constructor
  · intro h
    rw [h]
    rfl
  · exact fun h => BitVec.eq_of_toNat_eq h

theorem reserved_eq_zero_iff (handle : BitVec 32) : handle >>> 30 = 0 ↔ serialOf handle < 2 ^ 15 := by
  have htop : (handle >>> 30).toNat = handle.toNat / 2 ^ 30 := by
    rw [BitVec.toNat_ushiftRight, Nat.shiftRight_eq_div_pow]
  unfold serialOf
  constructor
  · intro h
    rw [h] at htop
    have hzero : (0 : BitVec 32).toNat = 0 := rfl
    omega
  · intro h
    apply BitVec.eq_of_toNat_eq
    show _ = 0
    omega

theorem handle_eq {handle handle' : BitVec 32} (hindex : indexOf handle = indexOf handle')
    (hserial : serialOf handle = serialOf handle') : handle = handle' := by
  unfold indexOf serialOf at *
  apply BitVec.eq_of_toNat_eq
  omega

theorem toNat_pack {index counter : BitVec 16} (hindex : index.toNat < 2 ^ 15)
    (hcounter : counter.toNat < 2 ^ 15) :
    ((index &&& 0x7fff).setWidth 32 ||| counter.setWidth 32 <<< 15).toNat =
      counter.toNat * 2 ^ 15 + index.toNat := by
  have hand : (index &&& 0x7fff).toNat = index.toNat := by
    rw [BitVec.toNat_and]
    exact (Nat.and_two_pow_sub_one_eq_mod index.toNat 15).trans (Nat.mod_eq_of_lt hindex)
  have hshift : (counter.setWidth 32 <<< 15).toNat = counter.toNat * 2 ^ 15 := by
    rw [BitVec.toNat_shiftLeft, BitVec.toNat_setWidth, Nat.shiftLeft_eq]
    omega
  have hor := Nat.shiftLeft_add_eq_or_of_lt hindex counter.toNat
  rw [Nat.shiftLeft_eq] at hor
  rw [BitVec.toNat_or, BitVec.toNat_setWidth, hand, hshift, Nat.mod_eq_of_lt (by omega),
    Nat.or_comm, ← hor]

section Pack

variable {index counter : BitVec 16} (hindex : index.toNat < 2 ^ 15)
  (hcounter : counter.toNat < 2 ^ 15)

include hindex hcounter

theorem indexOf_pack :
    indexOf ((index &&& 0x7fff).setWidth 32 ||| counter.setWidth 32 <<< 15) = index.toNat := by
  rw [indexOf, toNat_pack hindex hcounter]
  omega

theorem serialOf_pack :
    serialOf ((index &&& 0x7fff).setWidth 32 ||| counter.setWidth 32 <<< 15) = counter.toNat := by
  rw [serialOf, toNat_pack hindex hcounter]
  omega

end Pack

def FreeList (cMaxHandles : ℕ) (m_counter_array : ℕ → BitVec 16) : BitVec 32 → List ℕ → Prop
  | iter, [] => iter = -1
  | iter, i :: rest => iter.toNat = i ∧ i < cMaxHandles ∧
      FreeList cMaxHandles m_counter_array ((m_counter_array i).signExtend 32) rest

theorem FreeList.congr {cMaxHandles : ℕ} {array array' : ℕ → BitVec 16} {iter : BitVec 32}
    {free : List ℕ} (h : FreeList cMaxHandles array iter free)
    (heq : ∀ i ∈ free, array' i = array i) : FreeList cMaxHandles array' iter free := by
  induction free generalizing iter with
  | nil => exact h
  | cons i rest ih =>
    obtain ⟨hiter, hi, hrest⟩ := h
    refine ⟨hiter, hi, ?_⟩
    rw [heq i List.mem_cons_self]
    exact ih hrest fun j hj => heq j (List.mem_cons_of_mem i hj)

structure State (Obj : Type*) where
  table : HandleTable Obj
  live : BitVec 32 → Option Obj
  issued : List (BitVec 32)

def State.start (Obj : Type*) (cMaxHandles : ℕ) : State Obj :=
  ⟨HandleTable.Initialize Obj cMaxHandles, fun _ => none, []⟩

def State.InUse (s : State Obj) (i : ℕ) : Prop :=
  ∃ handle, s.live handle ≠ none ∧ indexOf handle = i

def State.FreeRight (cMaxHandles : ℕ) (s : State Obj) : Prop :=
  ∃ free : List ℕ, FreeList cMaxHandles s.table.m_counter_array s.table.m_indice_iter free ∧
    free.Nodup ∧ ∀ i, i ∈ free ↔ i < cMaxHandles ∧ ¬s.InUse i

structure State.Inv (cMaxHandles : ℕ) (s : State Obj) (free : List ℕ) : Prop where
  size : cMaxHandles ≤ 0x7fff
  list : FreeList cMaxHandles s.table.m_counter_array s.table.m_indice_iter free
  nodup : free.Nodup
  mem_free : ∀ i, i ∈ free ↔ i < cMaxHandles ∧ s.table.m_object_array i = none
  active : s.table.m_active_handles.toNat + free.length = cMaxHandles
  live_iff : ∀ handle object, s.live handle = some object ↔
    indexOf handle < cMaxHandles ∧ s.table.m_object_array (indexOf handle) = some object ∧
      (s.table.m_counter_array (indexOf handle)).toNat = serialOf handle
  serial : ∀ i < cMaxHandles, s.table.m_object_array i ≠ none →
    1 ≤ (s.table.m_counter_array i).toNat ∧ (s.table.m_counter_array i).toNat ≤ s.issued.length
  issued_le : ∀ handle ∈ s.issued, serialOf handle ≤ s.issued.length
  count : s.issued.length ≤ 0x7fff
  next : s.issued.length < 0x7fff → s.table.m_counter_value.toNat = s.issued.length + 1

namespace State.Inv

variable {cMaxHandles : ℕ} {s : State Obj} {free : List ℕ}

theorem inUse_iff (h : s.Inv cMaxHandles free) (i : ℕ) :
    s.InUse i ↔ i < cMaxHandles ∧ s.table.m_object_array i ≠ none := by
  constructor
  · rintro ⟨handle, hlive, rfl⟩
    obtain ⟨object, hobject⟩ := Option.ne_none_iff_exists'.mp hlive
    obtain ⟨hindex, hslot, -⟩ := (h.live_iff handle object).mp hobject
    exact ⟨hindex, by rw [hslot]; exact Option.some_ne_none _⟩
  · rintro ⟨hi, hslot⟩
    obtain ⟨object, hobject⟩ := Option.ne_none_iff_exists'.mp hslot
    have hserial := h.serial i hi hslot
    have hcount := h.count
    have hsize := h.size
    have hindex : (BitVec.ofNat 16 i).toNat = i := by
      rw [BitVec.toNat_ofNat]
      omega
    have hsmall : (BitVec.ofNat 16 i).toNat < 2 ^ 15 := by omega
    have hcounter : (s.table.m_counter_array i).toNat < 2 ^ 15 := by omega
    have hat := indexOf_pack hsmall hcounter
    have hof := serialOf_pack hsmall hcounter
    rw [hindex] at hat
    refine ⟨_, ?_, hat⟩
    rw [(h.live_iff _ object).mpr ⟨by omega, by rw [hat, hobject], by rw [hat, hof]⟩]
    exact Option.some_ne_none _

theorem freeRight (h : s.Inv cMaxHandles free) : s.FreeRight cMaxHandles := by
  refine ⟨free, h.list, h.nodup, ?_⟩
  intro i
  rw [h.mem_free, h.inUse_iff]
  constructor
  · rintro ⟨hi, hnone⟩
    exact ⟨hi, fun hused => hused.2 hnone⟩
  · rintro ⟨hi, hunused⟩
    exact ⟨hi, by_contra fun hne => hunused ⟨hi, hne⟩⟩

theorem serialOf_live (h : s.Inv cMaxHandles free) {handle : BitVec 32}
    (hlive : s.live handle ≠ none) : 1 ≤ serialOf handle ∧ serialOf handle < 2 ^ 15 := by
  obtain ⟨object, hobject⟩ := Option.ne_none_iff_exists'.mp hlive
  obtain ⟨hindex, hslot, hserial⟩ := (h.live_iff handle object).mp hobject
  have hrange := h.serial _ hindex (by rw [hslot]; exact Option.some_ne_none _)
  have hcount := h.count
  omega

theorem live_eq (h : s.Inv cMaxHandles free) {handle : BitVec 32}
    (hindex : indexOf handle < cMaxHandles)
    (hserial : (s.table.m_counter_array (indexOf handle)).toNat = serialOf handle) :
    s.live handle = s.table.m_object_array (indexOf handle) := by
  cases hobject : s.table.m_object_array (indexOf handle) with
  | none =>
    cases hlive : s.live handle with
    | none => rfl
    | some object =>
      rw [((h.live_iff handle object).mp hlive).2.1] at hobject
      cases hobject
  | some object => exact (h.live_iff handle object).mpr ⟨hindex, hobject, hserial⟩

theorem live_eq_none (h : s.Inv cMaxHandles free) {handle : BitVec 32}
    (hnot : ¬(indexOf handle < cMaxHandles ∧
      (s.table.m_counter_array (indexOf handle)).toNat = serialOf handle)) :
    s.live handle = none := by
  cases hlive : s.live handle with
  | none => rfl
  | some object =>
    obtain ⟨hindex, -, hserial⟩ := (h.live_iff handle object).mp hlive
    exact absurd ⟨hindex, hserial⟩ hnot

end State.Inv

theorem freeList_initialize {cMaxHandles : ℕ} (hsize : cMaxHandles ≤ 0x7fff) {n : ℕ}
    (hn : n ≤ cMaxHandles) :
    FreeList cMaxHandles (HandleTable.Initialize Obj cMaxHandles).m_counter_array
      (BitVec.ofNat 32 n - 1) (List.range n).reverse := by
  induction n with
  | zero => rfl
  | succ n ih =>
    rw [List.range_succ, List.reverse_append, List.reverse_singleton]
    have hsub : BitVec.ofNat 32 (n + 1) - 1 = BitVec.ofNat 32 n := by
      rw [BitVec.ofNat_add]
      exact BitVec.add_sub_cancel _ _
    refine ⟨?_, by omega, ?_⟩
    · rw [hsub, BitVec.toNat_ofNat]
      omega
    · have hnext : (BitVec.ofNat 16 n - 1).signExtend 32 = BitVec.ofNat 32 n - 1 := by
        cases n with
        | zero => rfl
        | succ n =>
          have hsub16 : BitVec.ofNat 16 (n + 1) - 1 = BitVec.ofNat 16 n := by
            rw [BitVec.ofNat_add]
            exact BitVec.add_sub_cancel _ _
          have hsub32 : BitVec.ofNat 32 (n + 1) - 1 = BitVec.ofNat 32 n := by
            rw [BitVec.ofNat_add]
            exact BitVec.add_sub_cancel _ _
          have hpos : (BitVec.ofNat 16 n).msb = false := by
            rw [BitVec.msb_eq_decide, decide_eq_false_iff_not, BitVec.toNat_ofNat]
            omega
          rw [hsub16, hsub32, BitVec.signExtend_eq_setWidth_of_msb_false hpos]
          apply BitVec.eq_of_toNat_eq
          rw [BitVec.toNat_setWidth, BitVec.toNat_ofNat, BitVec.toNat_ofNat]
          omega
      show FreeList cMaxHandles _ ((BitVec.ofNat 16 n - 1).signExtend 32) _
      rw [hnext]
      exact ih (by omega)

theorem State.start_inv {cMaxHandles : ℕ} (hsize : cMaxHandles ≤ 0x7fff) :
    (State.start Obj cMaxHandles).Inv cMaxHandles (List.range cMaxHandles).reverse where
  size := hsize
  list := freeList_initialize hsize (Nat.le_refl _)
  nodup := List.nodup_reverse.mpr List.nodup_range
  mem_free i := by
    rw [List.mem_reverse, List.mem_range]
    exact (and_iff_left rfl).symm
  active := by
    rw [List.length_reverse, List.length_range]
    exact Nat.zero_add _
  live_iff handle object := by
    constructor
    · intro h
      cases h
    · rintro ⟨-, h, -⟩
      cases h
  serial i _ h := absurd rfl h
  issued_le handle h := by cases h
  count := Nat.zero_le _
  next _ := rfl

end Awn.Handles
