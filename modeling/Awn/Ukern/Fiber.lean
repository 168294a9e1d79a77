import Awn.IntrusiveList.Represents
import Mathlib.Algebra.Group.Nat.Defs
import Mathlib.Data.Int.Notation
import Mathlib.Data.Nat.Notation
import Mathlib.Logic.Function.Basic

/-!
`awn::ukern::HandleTable`. A handle is an index below `MaxHandles` and, from bit 15 on, the counter
value the index was reserved with; the counters of free indices are the links of the free list.
-/

namespace Awn.Ukern

structure HandleTable (F : Type*) where
  m_counters : ℕ → BitVec 16
  m_objects : ℕ → Option F
  m_indice_iter : BitVec 32
  m_active_handles : ℕ
  m_counter_value : BitVec 16

namespace HandleTable

variable {F : Type*}

def MaxHandles : ℕ := 256

def initialized : HandleTable F where
  m_counters := fun i => BitVec.ofInt 16 (i - 1)
  m_objects := fun _ => none
  m_indice_iter := 255
  m_active_handles := 0
  m_counter_value := 1

def reserveHandle (t : HandleTable F) (object : F) : Option (BitVec 32 × HandleTable F) :=
  if MaxHandles ≤ t.m_active_handles then none
  else
    let index := t.m_indice_iter.truncate 16
    let counter := t.m_counter_value
    let next := if (-1 : ℤ) < (t.m_counter_value + 1).toInt then t.m_counter_value + 1 else 1
    let table :=
      { m_counters := Function.update t.m_counters index.toNat counter
        m_objects := Function.update t.m_objects index.toNat (some object)
        m_indice_iter := (t.m_counters index.toNat).signExtend 32
        m_active_handles := t.m_active_handles + 1
        m_counter_value := next }
    some (((index &&& 0x7fff).zeroExtend 32) ||| (counter.zeroExtend 32 <<< 15), table)

def getObjectByHandle (t : HandleTable F) (handle : BitVec 32) : Option F :=
  if handle >>> 30 ≠ 0 ∨ handle = 0 ∨ handle >>> 15 = 0 then none
  else
    let index := (handle &&& 0x7fff).toNat
    if MaxHandles < index ∨ (handle >>> 15).truncate 16 ≠ t.m_counters index then none
    else t.m_objects index

def reserveFirst (objects : ℕ → F) : ℕ → HandleTable F
  | 0 => initialized
  | n + 1 =>
    match (reserveFirst objects n).reserveHandle (objects n) with
    | none => reserveFirst objects n
    | some (_, table) => table

def firstHandle (j : ℕ) : BitVec 32 := BitVec.ofNat 32 ((255 - j) + (j + 1) * 2 ^ 15)

structure ReservedFirst (objects : ℕ → F) (n : ℕ) (t : HandleTable F) : Prop where
  active : t.m_active_handles = n
  counter : t.m_counter_value = BitVec.ofNat 16 (n + 1)
  iter : n < 256 → t.m_indice_iter = BitVec.ofNat 32 (255 - n)
  free_counter : ∀ k, k + n < 256 → t.m_counters k = BitVec.ofInt 16 (k - 1)
  free_object : ∀ k, k + n < 256 → t.m_objects k = none
  used_counter : ∀ j, j < n → t.m_counters (255 - j) = BitVec.ofNat 16 (j + 1)
  used_object : ∀ j, j < n → t.m_objects (255 - j) = some (objects j)
  beyond : ∀ k, 255 < k → t.m_objects k = none

theorem reservedFirst_initialized (objects : ℕ → F) :
    ReservedFirst objects 0 (initialized : HandleTable F) := by
  constructor
  · rfl
  · rfl
  · intro _
    rfl
  · intro k _
    rfl
  · intro k _
    rfl
  · intro j hj
    cases hj
  · intro j hj
    cases hj
  · intro k _
    rfl

theorem index_first (n : ℕ) (hn : n < 256) :
    ((BitVec.ofNat 32 (255 - n)).truncate 16).toNat = 255 - n := by
  simp only [BitVec.truncate_eq_setWidth, BitVec.toNat_setWidth, BitVec.toNat_ofNat]
  omega

theorem handle_first : ∀ n < 256,
    ((((BitVec.ofNat 32 (255 - n)).truncate 16 &&& 0x7fff).zeroExtend 32) |||
      ((BitVec.ofNat 16 (n + 1)).zeroExtend 32 <<< 15)) = firstHandle n := by
  decide +kernel

theorem counter_first : ∀ n < 256, (-1 : ℤ) < (BitVec.ofNat 16 (n + 1) + 1).toInt ∧
    BitVec.ofNat 16 (n + 1) + 1 = BitVec.ofNat 16 (n + 1 + 1) := by
  decide +kernel

theorem iter_first : ∀ n < 255,
    (BitVec.ofInt 16 (((255 - n : ℕ) : ℤ) - 1)).signExtend 32 = BitVec.ofNat 32 (255 - (n + 1)) := by
  decide +kernel

theorem firstHandle_form : ∀ n < 256, firstHandle n >>> 30 = 0 ∧ firstHandle n ≠ 0 ∧
    firstHandle n >>> 15 ≠ 0 ∧ (firstHandle n &&& 0x7fff).toNat = 255 - n ∧
    (firstHandle n >>> 15).truncate 16 = BitVec.ofNat 16 (n + 1) := by
  decide +kernel

theorem reserveHandle_first {objects : ℕ → F} {n : ℕ} {t : HandleTable F} (hn : n < 256)
    (h : ReservedFirst objects n t) :
    ∃ t', t.reserveHandle (objects n) = some (firstHandle n, t') ∧
      ReservedFirst objects (n + 1) t' := by
  have hindex := index_first n hn
  obtain ⟨hpositive, hnext⟩ := counter_first n hn
  have hactive : ¬MaxHandles ≤ t.m_active_handles := by
    rw [h.active]
    exact Nat.not_le.mpr hn
  unfold reserveHandle
  rw [if_neg hactive, h.iter hn, h.counter, if_pos hpositive, hnext]
  dsimp only
  rw [hindex, handle_first n hn]
  refine ⟨_, rfl, ?_⟩
  constructor
  · exact congrArg (· + 1) h.active
  · rfl
  · intro hlt
    have hfree := h.free_counter (255 - n) (by omega)
    dsimp only
    rw [hfree]
    exact iter_first n (by omega)
  · intro k hk
    dsimp only
    rw [Function.update_of_ne (by omega)]
    exact h.free_counter k (by omega)
  · intro k hk
    dsimp only
    rw [Function.update_of_ne (by omega)]
    exact h.free_object k (by omega)
  · intro j hj
    dsimp only
    by_cases hjn : j = n
    · rw [hjn, Function.update_self]
    · rw [Function.update_of_ne (by omega)]
      exact h.used_counter j (by omega)
  · intro j hj
    dsimp only
    by_cases hjn : j = n
    · rw [hjn, Function.update_self]
    · rw [Function.update_of_ne (by omega)]
      exact h.used_object j (by omega)
  · intro k hk
    dsimp only
    rw [Function.update_of_ne (by omega)]
    exact h.beyond k hk

theorem reservedFirst_reserveFirst (objects : ℕ → F) {n : ℕ} (hn : n ≤ 256) :
    ReservedFirst objects n (reserveFirst objects n) := by
  induction n with
  | zero => exact reservedFirst_initialized objects
  | succ n ih =>
    obtain ⟨t', ht', hreserved⟩ := reserveHandle_first (by omega) (ih (by omega))
    unfold reserveFirst
    rw [ht']
    exact hreserved

theorem ReservedFirst.get {objects : ℕ → F} {n j : ℕ} {t : HandleTable F}
    (h : ReservedFirst objects n t) (hj : j < n) (hn : n ≤ 256) :
    t.getObjectByHandle (firstHandle j) = some (objects j) := by
  obtain ⟨hhigh, hne, hcounter, hindex, htruncate⟩ := firstHandle_form j (by omega)
  unfold getObjectByHandle
  rw [if_neg (by rintro (h | h | h); exacts [h hhigh, hne h, hcounter h])]
  dsimp only
  rw [hindex, htruncate, h.used_counter j hj, h.used_object j hj, if_neg]
  rintro (hlt | hne)
  · unfold MaxHandles at hlt
    omega
  · exact hne rfl

theorem ReservedFirst.of_get {objects : ℕ → F} {n : ℕ} {t : HandleTable F} {handle : BitVec 32}
    {f : F} (h : ReservedFirst objects n t) (hn : n ≤ 256)
    (hget : t.getObjectByHandle handle = some f) :
    ∃ j < n, f = objects j ∧ handle = firstHandle j := by
  unfold getObjectByHandle at hget
  split at hget
  · cases hget
  · rename_i hform
    rw [not_or, not_or, not_not] at hform
    dsimp only at hget
    split at hget
    · cases hget
    · rename_i hindex
      rw [not_or, not_not] at hindex
      have hbound : (handle &&& 0x7fff).toNat ≤ 255 := by
        by_contra hlt
        rw [h.beyond _ (by omega)] at hget
        cases hget
      have hused : 256 ≤ (handle &&& 0x7fff).toNat + n := by
        by_contra hlt
        rw [h.free_object _ (by omega)] at hget
        cases hget
      have hj : (handle &&& 0x7fff).toNat = 255 - (255 - (handle &&& 0x7fff).toNat) := by omega
      have hlt : 255 - (handle &&& 0x7fff).toNat < n := by omega
      rw [hj, h.used_object _ hlt] at hget
      have hcounter := hindex.2
      rw [hj, h.used_counter _ hlt] at hcounter
      refine ⟨_, hlt, (Option.some.inj hget).symm, ?_⟩
      apply BitVec.eq_of_toNat_eq
      have hhigh : handle.toNat / 2 ^ 30 = 0 := by
        have hshift := congrArg BitVec.toNat hform.1
        rw [BitVec.toNat_ushiftRight, Nat.shiftRight_eq_div_pow] at hshift
        exact hshift
      have hlow := BitVec.toNat_and handle 0x7fff
      have hcounter := congrArg BitVec.toNat hcounter
      simp only [BitVec.truncate_eq_setWidth, BitVec.toNat_setWidth, BitVec.toNat_ofNat,
        BitVec.toNat_ushiftRight, Nat.shiftRight_eq_div_pow] at hcounter
      have hmask : handle.toNat &&& 0x7fff = handle.toNat % 2 ^ 15 := Nat.and_two_pow_sub_one_eq_mod _ 15
      have hlt32 := handle.isLt
      unfold firstHandle
      rw [BitVec.toNat_ofNat]
      have hlow' : (handle &&& 0x7fff).toNat = handle.toNat % 2 ^ 15 := hlow.trans hmask
      rw [hlow'] at hcounter hlt hbound ⊢
      have hsmall : handle.toNat / 2 ^ 15 < 2 ^ 16 := by omega
      rw [Nat.mod_eq_of_lt hsmall, Nat.mod_eq_of_lt (by omega)] at hcounter
      rw [Nat.mod_eq_of_lt (by omega), ← hcounter]
      omega

end HandleTable

structure FiberTable (F : Type*) where
  table : HandleTable F
  handle : F → BitVec 32
  get_handle : ∀ f, table.getObjectByHandle (handle f) = some f
  handle_of_get : ∀ h f, table.getObjectByHandle h = some f → handle f = h

namespace FiberTable

variable {F : Type*} (T : FiberTable F)

def getFiberByHandle (handle : BitVec 32) : Option F := T.table.getObjectByHandle handle

@[simp] theorem getFiberByHandle_handle (f : F) : T.getFiberByHandle (T.handle f) = some f :=
  T.get_handle f

theorem getFiberByHandle_eq_some {h : BitVec 32} {f : F} :
    T.getFiberByHandle h = some f ↔ T.handle f = h := by
  constructor
  · exact T.handle_of_get h f
  · rintro rfl
    exact T.get_handle f

theorem handle_injective : Function.Injective T.handle := by
  intro f g h
  have hf := T.get_handle f
  rw [h, T.get_handle g] at hf
  exact (Option.some.inj hf).symm

theorem handle_form (f : F) : T.handle f >>> 30 = 0 ∧ T.handle f ≠ 0 := by
  have h := T.get_handle f
  unfold HandleTable.getObjectByHandle at h
  split at h
  · cases h
  · rename_i hform
    rw [not_or, not_or, not_not] at hform
    exact ⟨hform.1, hform.2.1⟩

theorem getFiberByHandle_zero : T.getFiberByHandle 0 = none := by
  unfold getFiberByHandle HandleTable.getObjectByHandle
  exact if_pos (Or.inr (Or.inl rfl))

theorem one_lt_reserved : 1 < 256 := by decide

def ofFirst (n : ℕ) (hn : n < 256) : FiberTable (Fin (n + 1)) where
  table := HandleTable.reserveFirst (fun i => Fin.ofNat (n + 1) i) (n + 1)
  handle f := HandleTable.firstHandle f
  get_handle := by
    intro f
    have h := HandleTable.reservedFirst_reserveFirst (fun i => Fin.ofNat (n + 1) i) hn
    rw [h.get f.isLt hn, Fin.ofNat_val_eq_self]
  handle_of_get := by
    intro handle f hget
    have h := HandleTable.reservedFirst_reserveFirst (fun i => Fin.ofNat (n + 1) i) hn
    obtain ⟨j, hj, rfl, rfl⟩ := h.of_get hn hget
    rw [Fin.val_ofNat, Nat.mod_eq_of_lt hj]

end FiberTable

/-!
`FiberLocalStorage`, the scheduler's wait lists, and what every end of a wait does. The queues a
runnable fiber stands in are the subject of `Awn.Ukern.Affinity`.
-/

inductive FiberState
  | Unscheduled | Scheduled | ScheduledLocal | Running | Exiting | Waiting | Suspended
  deriving DecidableEq

inductive ActivityLevel
  | Suspended | Schedulable
  deriving DecidableEq

inductive Result
  | Success | Timeout | InvalidAddress | InvalidHandle | InvalidLockAddressValue | RequiresLock
  | InvalidWaitAddressValue
  deriving DecidableEq

inductive WaitableObject
  | LockArbiter | KeyArbiter | WaitAddressArbiter | TimeWaiter
  deriving DecidableEq

structure FiberLocalStorage (A : Type*) where
  core_mask : BitVec 64
  activity_level : ActivityLevel
  wait_tag : BitVec 32
  lock_address : Option A
  wait_address : Option A
  waitable_object : Option WaitableObject
  timeout : BitVec 64
  last_result : Result
  fiber_state : FiberState
  deriving DecidableEq

def HasChildWaitersBit : BitVec 32 := 0x40000000

def owner (word : BitVec 32) : BitVec 32 := word &&& ~~~HasChildWaitersBit

inductive WaitList (F : Type*)
  | scheduler
  | of (f : F)
  deriving DecidableEq

abbrev Node (F : Type*) := WaitList F ⊕ F

structure UserScheduler (F A : Type*) where
  fiber : F → FiberLocalStorage A
  links : Links (Node F)
  /-- The words fibers lock and wait on. -/
  word : A → BitVec 32
  /-- The fibers whose wait was ended, the latest last. -/
  ended : List F

namespace FiberLocalStorage

variable {A : Type*}

def addToSchedulerUnsafe (x : FiberLocalStorage A) : FiberLocalStorage A :=
  if x.fiber_state = .Waiting then x
  else if x.activity_level = .Suspended then { x with fiber_state := .Suspended }
  else { x with fiber_state := .Scheduled }

def endWait (x : FiberLocalStorage A) (wait_result : Result) : FiberLocalStorage A :=
  addToSchedulerUnsafe
    { x with fiber_state := .Unscheduled, last_result := wait_result, timeout := 0 }

theorem endWait_eq (x : FiberLocalStorage A) (r : Result) :
    x.endWait r = { x with
      fiber_state := if x.activity_level = .Suspended then .Suspended else .Scheduled,
      last_result := r, timeout := 0 } := by
  unfold endWait addToSchedulerUnsafe
  rw [if_neg (by exact FiberState.noConfusion)]
  split <;> rfl

theorem endWait_not_waiting (x : FiberLocalStorage A) (r : Result) :
    (x.endWait r).fiber_state ≠ .Waiting := by
  rw [endWait_eq]
  dsimp only
  split <;> exact FiberState.noConfusion

end FiberLocalStorage

namespace UserScheduler

variable {F A : Type*} [DecidableEq F]

def modify (s : UserScheduler F A) (f : F) (g : FiberLocalStorage A → FiberLocalStorage A) :
    UserScheduler F A :=
  { s with fiber := Function.update s.fiber f (g (s.fiber f)) }

def setWord [DecidableEq A] (s : UserScheduler F A) (a : A) (value : BitVec 32) :
    UserScheduler F A :=
  { s with word := Function.update s.word a value }

def unlink (s : UserScheduler F A) (f : F) : UserScheduler F A :=
  { s with links := s.links.unlink (.inr f) }

def pushBack (s : UserScheduler F A) (list : WaitList F) (f : F) : UserScheduler F A :=
  { s with links := s.links.linkPrev (.inl list) (.inr f) }

def isEmpty (s : UserScheduler F A) (list : WaitList F) : Bool := !s.links.isLinked (.inl list)

def endFiberWaitImpl (s : UserScheduler F A) (wait_fiber : F) (wait_result : Result) :
    UserScheduler F A :=
  let s := s.unlink wait_fiber
  { s.modify wait_fiber (·.endWait wait_result) with ended := s.ended ++ [wait_fiber] }

section Fields

variable (s : UserScheduler F A) (f : F) (h : FiberLocalStorage A → FiberLocalStorage A)
  (list : WaitList F) (r : Result)

@[simp] theorem modify_links : (s.modify f h).links = s.links := rfl
@[simp] theorem modify_word : (s.modify f h).word = s.word := rfl
@[simp] theorem modify_ended : (s.modify f h).ended = s.ended := rfl
@[simp] theorem modify_self : (s.modify f h).fiber f = h (s.fiber f) := Function.update_self _ _ _

theorem modify_of_ne {f g : F} (hg : g ≠ f) : (s.modify f h).fiber g = s.fiber g :=
  Function.update_of_ne hg _ _

@[simp] theorem unlink_fiber : (s.unlink f).fiber = s.fiber := rfl
@[simp] theorem unlink_word : (s.unlink f).word = s.word := rfl
@[simp] theorem unlink_ended : (s.unlink f).ended = s.ended := rfl
@[simp] theorem unlink_links : (s.unlink f).links = s.links.unlink (.inr f) := rfl
@[simp] theorem pushBack_fiber : (s.pushBack list f).fiber = s.fiber := rfl
@[simp] theorem pushBack_word : (s.pushBack list f).word = s.word := rfl
@[simp] theorem pushBack_ended : (s.pushBack list f).ended = s.ended := rfl
@[simp] theorem pushBack_links :
    (s.pushBack list f).links = s.links.linkPrev (.inl list) (.inr f) := rfl

@[simp] theorem endFiberWaitImpl_links :
    (s.endFiberWaitImpl f r).links = s.links.unlink (.inr f) := rfl
@[simp] theorem endFiberWaitImpl_word : (s.endFiberWaitImpl f r).word = s.word := rfl
@[simp] theorem endFiberWaitImpl_ended : (s.endFiberWaitImpl f r).ended = s.ended ++ [f] := rfl
@[simp] theorem endFiberWaitImpl_self :
    (s.endFiberWaitImpl f r).fiber f = (s.fiber f).endWait r := Function.update_self _ _ _

theorem endFiberWaitImpl_of_ne {f g : F} (hg : g ≠ f) :
    (s.endFiberWaitImpl f r).fiber g = s.fiber g :=
  Function.update_of_ne hg _ _

end Fields

omit [DecidableEq F]

variable [DecidableEq A] (s : UserScheduler F A) (a : A) (value : BitVec 32)

@[simp] theorem setWord_fiber : (s.setWord a value).fiber = s.fiber := rfl
@[simp] theorem setWord_links : (s.setWord a value).links = s.links := rfl
@[simp] theorem setWord_ended : (s.setWord a value).ended = s.ended := rfl
@[simp] theorem setWord_self : (s.setWord a value).word a = value := Function.update_self _ _ _

theorem setWord_of_ne {a b : A} (hb : b ≠ a) : (s.setWord a value).word b = s.word b :=
  Function.update_of_ne hb _ _

end UserScheduler

section Words

theorem owner_zero : owner 0 = 0 := by decide

theorem owner_owner (w : BitVec 32) : owner (owner w) = owner w := by
  unfold owner
  rw [BitVec.and_assoc, BitVec.and_self]

theorem owner_or_bit (w : BitVec 32) : owner (w ||| HasChildWaitersBit) = owner w := by
  unfold owner
  ext i hi
  simp only [BitVec.getElem_and, BitVec.getElem_or, BitVec.getElem_not]
  cases w[i] <;> cases HasChildWaitersBit[i] <;> rfl

theorem owner_or_owner (w : BitVec 32) : owner w ||| HasChildWaitersBit = w ||| HasChildWaitersBit := by
  unfold owner
  ext i hi
  simp only [BitVec.getElem_and, BitVec.getElem_or, BitVec.getElem_not]
  cases w[i] <;> cases HasChildWaitersBit[i] <;> rfl

theorem bit_getElem : ∀ i (hi : i < 32), i ≠ 30 → HasChildWaitersBit[i] = false := by decide

theorem word_cases (w : BitVec 32) : w = owner w ∨ w = owner w ||| HasChildWaitersBit := by
  cases hw : w[30] with
  | false =>
    left
    unfold owner
    ext i hi
    rw [BitVec.getElem_and, BitVec.getElem_not]
    by_cases h30 : i = 30
    · subst h30
      rw [hw, Bool.false_and]
    · rw [bit_getElem i hi h30, Bool.not_false, Bool.and_true]
  | true =>
    right
    rw [owner_or_owner]
    ext i hi
    rw [BitVec.getElem_or]
    by_cases h30 : i = 30
    · subst h30
      rw [hw, Bool.true_or]
    · rw [bit_getElem i hi h30, Bool.or_false]

theorem owner_of_shift {w : BitVec 32} (h : w >>> 30 = 0) : owner w = w := by
  have hw : w[30] = false := by
    have hget := congrArg (BitVec.getLsbD · 0) h
    rw [BitVec.getLsbD_ushiftRight] at hget
    exact hget
  rcases word_cases w with hw' | hw'
  · exact hw'.symm
  · have htrue : w[30] = true := by
      rw [hw', BitVec.getElem_or, show HasChildWaitersBit[30] = true by decide, Bool.or_true]
    rw [hw] at htrue
    cases htrue

variable {F : Type*} (T : FiberTable F)

theorem owner_handle (f : F) : owner (T.handle f) = T.handle f := owner_of_shift (T.handle_form f).1

theorem owner_handle_or_bit (f : F) :
    owner (T.handle f ||| HasChildWaitersBit) = T.handle f := by
  rw [owner_or_bit, owner_handle]

theorem handle_or_bit_ne (f : F) : T.handle f ||| HasChildWaitersBit ≠ T.handle f := by
  intro h
  have hbit : (T.handle f ||| HasChildWaitersBit)[30] = true := by
    rw [BitVec.getElem_or, show HasChildWaitersBit[30] = true by decide, Bool.or_true]
  have hget := congrArg (BitVec.getLsbD · 0) (T.handle_form f).1
  rw [BitVec.getLsbD_ushiftRight] at hget
  have hclear : (T.handle f)[30] = false := hget
  rw [h, hclear] at hbit
  cases hbit

end Words

end Awn.Ukern
