import Awn.RingBuffer.Atomic
import Mathlib.Algebra.GroupWithZero.Nat

/-!
`vp::util::AtomicFixedRingBuffer` under any number of producers and one consumer, which is a thread
of its own.
-/

namespace Awn

structure AtomicFixedRingBuffer (V : Type*) where
  m_offset : BitVec 32
  m_count : BitVec 32
  m_array : ℕ → V

namespace AtomicFixedRingBuffer

inductive InsertPc (V : Type*)
  | idle
  | increment (value : V)
  | check (value : V) (count : BitVec 32)
  | store (value : V) (count : BitVec 32)

inductive RemovePc (V : Type*)
  | idle
  | offset
  | count (offset : BitVec 32)
  | load (offset : BitVec 32)
  | clear (offset : BitVec 32) (ret : V)
  | advance (offset : BitVec 32) (ret : V)

variable {V : Type*} (Size : BitVec 32) (ring : AtomicFixedRingBuffer V)

def empty [Zero V] : AtomicFixedRingBuffer V where
  m_offset := 0
  m_count := 0
  m_array _ := 0

def index (position : BitVec 32) : ℕ := ((Size - 1) &&& position).toNat

def put (position : BitVec 32) (value : V) : AtomicFixedRingBuffer V :=
  { ring with m_array := Function.update ring.m_array (index Size position) value }

/-- `Insert` goes on with the count that it has made, and asserts that there is space. -/
def insertAccess : InsertPc V → Option (AtomicFixedRingBuffer V × InsertPc V)
  | .idle => some (ring, .idle)
  | .increment value =>
    some ({ ring with m_count := ring.m_count + 1 }, .check value (ring.m_count + 1))
  | .check value count =>
    if count - ring.m_offset < Size then some (ring, .store value count) else none
  | .store value count => some (ring.put Size count value, .idle)

def removeAccess [Zero V] [DecidableEq V] : RemovePc V → AtomicFixedRingBuffer V × RemovePc V
  | .idle => (ring, .idle)
  | .offset => (ring, .count ring.m_offset)
  | .count offset => if ring.m_count - offset ≠ 0 then (ring, .idle) else (ring, .load offset)
  | .load offset =>
    if ring.m_array (index Size offset) = 0 then (ring, .idle)
    else (ring, .clear offset (ring.m_array (index Size offset)))
  | .clear offset ret => (ring.put Size offset 0, .advance offset ret)
  | .advance offset _ => ({ ring with m_offset := offset + 1 }, .idle)

end AtomicFixedRingBuffer

namespace AtomicFixedRing

open AtomicFixedRingBuffer

structure Run (T V : Type*) where
  ring : AtomicFixedRingBuffer V
  producers : T → InsertPc V
  consumer : RemovePc V
  inserted : List V
  returned : List V

inductive Event (T V : Type*)
  | Insert (thread : T) (value : V)
  | RemoveFront
  | insertStep (thread : T)
  | removeStep

variable {T V : Type*} [DecidableEq T] [Zero V] [DecidableEq V] (Size : BitVec 32)

/-- A thread in a call makes no other one. `Insert` asserts that its value is not 0. -/
def Run.event (s : Run T V) : Event T V → Option (Run T V)
  | .Insert thread value =>
    match s.producers thread with
    | .idle =>
      if value = 0 then none
      else some { s with producers := Function.update s.producers thread (.increment value) }
    | _ => some s
  | .RemoveFront =>
    match s.consumer with
    | .idle => some { s with consumer := .offset }
    | _ => some s
  | .insertStep thread =>
    (s.ring.insertAccess Size (s.producers thread)).map fun (ring, pc) =>
      { s with
        ring
        producers := Function.update s.producers thread pc
        inserted :=
          match s.producers thread with
          | .store value _ => value :: s.inserted
          | _ => s.inserted }
  | .removeStep =>
    let (ring, consumer) := s.ring.removeAccess Size s.consumer
    some { s with
      ring
      consumer
      returned :=
        match s.consumer with
        | .advance _ ret => ret :: s.returned
        | _ => s.returned }

def step (s : Option (Run T V)) (e : Event T V) : Option (Run T V) :=
  s.bind fun s => s.event Size e

omit [DecidableEq T] [DecidableEq V] in
def start : Run T V where
  ring := .empty
  producers _ := .idle
  consumer := .idle
  inserted := []
  returned := []

omit [DecidableEq T] [Zero V] [DecidableEq V] in
def Run.Fits (s : Run T V) : Event T V → Prop
  | .insertStep thread => ∀ value, s.producers thread = .increment value → s.ring.m_count + 1 ≠ 0
  | _ => True

omit [DecidableEq T] [Zero V] [DecidableEq V] in
def Fits : Option (Run T V) → Event T V → Prop
  | none, _ => True
  | some s, e => s.Fits e

omit [DecidableEq T] in
def Run.Kept (s : Run T V) : Prop :=
  s.inserted.Perm (s.returned ++ slotContents s.ring.m_array Size.toNat)

omit [DecidableEq T] in
def Kept : Option (Run T V) → Prop
  | none => True
  | some s => s.Kept Size

section Invariant

omit [DecidableEq T] [Zero V] [DecidableEq V]

def held : InsertPc V → Option (V × BitVec 32)
  | .check value count | .store value count => some (value, count)
  | _ => none

end Invariant

namespace Run

structure Sound (s : Run T V) (k : ℕ) : Prop where
  inserted : s.inserted.Perm (slotContents s.ring.m_array (2 ^ k))
  returned : s.returned = []
  offset : s.ring.m_offset = 0
  first : s.ring.m_array 0 = 0
  consumer : s.consumer = .idle ∨ s.consumer = .offset ∨ s.consumer = .count 0 ∨ s.consumer = .load 0
  increment : ∀ t value, s.producers t = .increment value → value ≠ 0
  counted : ∀ t value n, held (s.producers t) = some (value, n) →
    value ≠ 0 ∧ 0 < n ∧ n ≤ s.ring.m_count ∧ (n.toNat < 2 ^ k → s.ring.m_array n.toNat = 0)
  counted_eq : ∀ t t' value value' n, held (s.producers t) = some (value, n) →
    held (s.producers t') = some (value', n) → t = t'
  store : ∀ t value n, s.producers t = .store value n → n.toNat < 2 ^ k
  rest : ∀ n : BitVec 32, s.ring.m_count < n → n.toNat < 2 ^ k → s.ring.m_array n.toNat = 0

variable {s s' : Run T V} {k : ℕ} {t : T} {n : BitVec 32} {value : V}

theorem Sound.incremented (h : s.Sound k) (ht : s.producers t = .increment value)
    (hfits : s.ring.m_count + 1 ≠ 0) :
    ({ s with
      ring := { s.ring with m_count := s.ring.m_count + 1 }
      producers := Function.update s.producers t (.check value (s.ring.m_count + 1)) } :
      Run T V).Sound k := by
  obtain ⟨hinserted, hreturned, hoffset, hfirst, hconsumer, hincrement, hcounted, heq, hstore,
    hrest⟩ := h
  have hlt : s.ring.m_count < s.ring.m_count + 1 := by bv_omega
  have hle : ∀ n, n ≤ s.ring.m_count → n < s.ring.m_count + 1 := by
    intro n hn
    bv_omega
  have hlast : ∀ n, s.ring.m_count + 1 < n → s.ring.m_count < n := by
    intro n hn
    bv_omega
  constructor
  all_goals
    dsimp only
    grind [Function.update_apply, held]

theorem Sound.move (h : s.Sound k) {pc : InsertPc V}
    (hpc : pc = .idle ∨ ∃ value, pc = .increment value ∧ value ≠ 0) :
    ({ s with producers := Function.update s.producers t pc } : Run T V).Sound k := by
  obtain ⟨hinserted, hreturned, hoffset, hfirst, hconsumer, hincrement, hcounted, heq, hstore,
    hrest⟩ := h
  constructor
  all_goals
    dsimp only
    grind [Function.update_apply, held]

theorem Sound.checked (h : s.Sound k) (ht : s.producers t = .check value n)
    (hroom : n.toNat < 2 ^ k) :
    ({ s with producers := Function.update s.producers t (.store value n) } : Run T V).Sound k := by
  obtain ⟨hinserted, hreturned, hoffset, hfirst, hconsumer, hincrement, hcounted, heq, hstore,
    hrest⟩ := h
  constructor
  all_goals
    dsimp only
    grind [Function.update_apply, held]

theorem Sound.stored (h : s.Sound k) (ht : s.producers t = .store value n) :
    (Run.mk { s.ring with m_array := Function.update s.ring.m_array n.toNat value }
      (Function.update s.producers t .idle) s.consumer (value :: s.inserted) s.returned).Sound k := by
  obtain ⟨hinserted, hreturned, hoffset, hfirst, hconsumer, hincrement, hcounted, heq, hstore,
    hrest⟩ := h
  have hheld : held (s.producers t) = some (value, n) := by
    rw [ht]
    rfl
  obtain ⟨hvalue, hpos, hle, hslot⟩ := hcounted t value n hheld
  have hlt := hstore t value n ht
  have hperm := slotContents_store hlt (hslot hlt) hvalue
  have hne : n.toNat ≠ 0 := by bv_omega
  have hother : ∀ m : BitVec 32, m ≠ n → m.toNat ≠ n.toNat := fun m hm heq =>
    hm (BitVec.eq_of_toNat_eq heq)
  have hafter : ∀ m : BitVec 32, s.ring.m_count < m → m ≠ n := by
    intro m hm
    bv_omega
  constructor
  · exact (hinserted.cons value).trans hperm.symm
  all_goals
    dsimp only
    grind [Function.update_apply, held]

omit [DecidableEq T] in
theorem Sound.consumed (h : s.Sound k) {consumer : RemovePc V} (hconsumer : consumer = .idle ∨
      consumer = .offset ∨ consumer = .count 0 ∨ consumer = .load 0) :
    ({ s with consumer } : Run T V).Sound k :=
  { h with consumer := hconsumer }

theorem Sound.event (h : s.Sound k) (hk : k < 32) {e : Event T V} (hfits : s.Fits e)
    (hs : s.event (BitVec.ofNat 32 (2 ^ k)) e = some s') : s'.Sound k := by
  cases e with
  | Insert t v =>
    unfold Run.event at hs
    dsimp only at hs
    split at hs
    · by_cases hv : v = 0
      · rw [if_pos hv] at hs
        cases hs
      · rw [if_neg hv] at hs
        rw [← Option.some.inj hs]
        exact h.move (.inr ⟨v, rfl, hv⟩)
    · rw [← Option.some.inj hs]
      exact h
  | RemoveFront =>
    unfold Run.event at hs
    dsimp only at hs
    split at hs
    · rw [← Option.some.inj hs]
      exact h.consumed (.inr (.inl rfl))
    · rw [← Option.some.inj hs]
      exact h
  | insertStep t =>
    simp only [Run.event] at hs
    cases hpc : s.producers t with
    | idle =>
      simp only [hpc, insertAccess, Option.map_some] at hs
      rw [← Option.some.inj hs]
      exact h.move (.inl rfl)
    | increment v =>
      simp only [hpc, insertAccess, Option.map_some] at hs
      rw [← Option.some.inj hs]
      exact h.incremented hpc (hfits v hpc)
    | check v n =>
      simp only [hpc, insertAccess] at hs
      split at hs
      · rename_i hroom
        have hlt : n.toNat < 2 ^ k := by
          rw [h.offset, BitVec.lt_def, AtomicRing.size_toNat hk] at hroom
          simpa using hroom
        rw [← Option.some.inj hs]
        exact h.checked hpc hlt
      · cases hs
    | store v n =>
      have hindex : index (BitVec.ofNat 32 (2 ^ k)) n = n.toNat := by
        rw [index, AtomicRing.mask_toNat hk, Nat.mod_eq_of_lt (h.store t v n hpc)]
      simp only [hpc, insertAccess, Option.map_some, put, hindex] at hs
      rw [← Option.some.inj hs]
      exact h.stored hpc
  | removeStep =>
    have hfirst : s.ring.m_array (index (BitVec.ofNat 32 (2 ^ k)) 0) = 0 := by
      rw [index, AtomicRing.mask_toNat hk, show (0 : BitVec 32).toNat = 0 from rfl, Nat.zero_mod]
      exact h.first
    simp only [Run.event] at hs
    obtain hpc | hpc | hpc | hpc := h.consumer
    · simp only [hpc, removeAccess] at hs
      rw [← Option.some.inj hs]
      exact h.consumed (.inl rfl)
    · simp only [hpc, removeAccess, h.offset] at hs
      rw [← Option.some.inj hs]
      exact h.consumed (.inr (.inr (.inl rfl)))
    · simp only [hpc, removeAccess] at hs
      by_cases hcount : s.ring.m_count - 0 = 0
      · rw [if_neg (not_not.mpr hcount)] at hs
        rw [← Option.some.inj hs]
        exact h.consumed (.inr (.inr (.inr rfl)))
      · rw [if_pos hcount] at hs
        rw [← Option.some.inj hs]
        exact h.consumed (.inl rfl)
    · simp only [hpc, removeAccess, if_pos hfirst] at hs
      rw [← Option.some.inj hs]
      exact h.consumed (.inl rfl)

omit [DecidableEq T] in
theorem start_sound : (start : Run T V).Sound k where
  inserted := .of_eq (slotContents_zero fun _ _ => rfl).symm
  returned := rfl
  offset := rfl
  first := rfl
  consumer := .inl rfl
  increment _ _ ht := nomatch ht
  counted _ _ _ ht := nomatch ht
  counted_eq _ _ _ _ _ ht := nomatch ht
  store _ _ _ ht := nomatch ht
  rest _ _ _ := rfl

omit [DecidableEq T] in
theorem Sound.kept (h : s.Sound k) (hk : k < 32) : s.Kept (BitVec.ofNat 32 (2 ^ k)) := by
  unfold Kept
  rw [h.returned, List.nil_append, AtomicRing.size_toNat hk]
  exact h.inserted

end Run

theorem kept_of_fits {k : ℕ} (hk : k < 32) {events : List (Event T V)}
    (hfits : Calls.EachIn (step (BitVec.ofNat 32 (2 ^ k))) Fits (some start) events) :
    Calls.Throughout (step (BitVec.ofNat 32 (2 ^ k))) (Kept (BitVec.ofNat 32 (2 ^ k)))
      (fun _ _ => True) (some start) events := by
  let Inv (q : Option (Run T V)) : Prop := ∀ s, q = some s → s.Sound k
  have hkept : ∀ q, Inv q → Kept (BitVec.ofNat 32 (2 ^ k)) q := by
    rintro (_ | s) h
    · trivial
    · exact (h s rfl).kept hk
  have hstep : ∀ q e, Inv q → Fits q e → True →
      True ∧ Inv (step (BitVec.ofNat 32 (2 ^ k)) q e) := by
    rintro (_ | s) e h hfit -
    · exact ⟨trivial, fun _ hs => nomatch hs⟩
    · exact ⟨trivial, fun s' hs => (h s rfl).event hk hfit hs⟩
  have hstart : Inv (some start) := by
    rintro _ ⟨⟩
    exact Run.start_sound
  exact (Calls.throughout_iff hkept hstep (fun _ _ _ _ _ _ => trivial) hstart hfits).mpr
    Calls.eachIn_true

end AtomicFixedRing

namespace AtomicRing

def insertCall (thread : Bool) (value : ℕ) : List (Event Bool ℕ) :=
  .Insert thread value :: List.replicate 4 (.step thread)

def removeCall (thread : Bool) : List (Event Bool ℕ) :=
  .RemoveFront thread :: List.replicate 5 (.step thread)

def lapped : List (Event Bool ℕ) :=
  insertCall false 1 ++ (removeCall true).dropLast ++ insertCall false 2 ++ removeCall false ++
    insertCall false 3 ++ removeCall false ++ insertCall false 4 ++ removeCall false ++
    insertCall false 5 ++ [.step true]

instance : DecidablePred (Kept : Option (Run Bool ℕ) → Prop)
  | none => .isTrue trivial
  | some _ => inferInstanceAs (Decidable (List.Perm _ _))

end AtomicRing

end Awn
