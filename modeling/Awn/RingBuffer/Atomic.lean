import Awn.Calls.Throughout
import Mathlib.Algebra.Group.Nat.Defs
import Mathlib.Data.List.Perm.Basic
import Mathlib.Logic.Function.Basic

/-!
`vp::util::AtomicRingBuffer` under any number of threads. A step of a thread is one access of the
buffer, with the reads of a thread's own variables before and behind it.
-/

namespace Awn

structure AtomicRingBuffer (V : Type*) where
  m_offset : BitVec 32
  m_count : BitVec 32
  m_max_count : BitVec 32
  m_array : ℕ → V

namespace AtomicRingBuffer

variable {V : Type*}

inductive Pc (V : Type*)
  | idle
  | insertCount (value : V)
  | insertSpace (value : V) (count : BitVec 32)
  | insertExchange (value : V) (count : BitVec 32)
  | insertStore (value : V) (count : BitVec 32)
  | removeOffset
  | removeCount (offset : BitVec 32)
  | removeLoad (offset : BitVec 32)
  | removeNext (offset : BitVec 32)
  | removeExchange (offset : BitVec 32) (ret : V)
  | removeClear (offset : BitVec 32) (ret : V)

variable (ring : AtomicRingBuffer V)

def initialized (queue_count : BitVec 32) (m_array : ℕ → V) : AtomicRingBuffer V where
  m_offset := 0
  m_count := 0
  m_max_count := queue_count
  m_array := m_array

def index (position : BitVec 32) : ℕ := ((ring.m_max_count - 1) &&& position).toNat

def slot (position : BitVec 32) : V := ring.m_array (ring.index position)

def store (position : BitVec 32) (value : V) : AtomicRingBuffer V :=
  { ring with m_array := Function.update ring.m_array (ring.index position) value }

variable [Zero V] [DecidableEq V]

/-- `Insert` asserts that there is space. Both calls go on with what the exchange has found when it
fails. -/
def access : Pc V → Option (AtomicRingBuffer V × Pc V)
  | .idle => some (ring, .idle)
  | .insertCount value => some (ring, .insertSpace value ring.m_count)
  | .insertSpace value count =>
    if count - ring.m_offset < ring.m_max_count - 3 then some (ring, .insertExchange value count)
    else none
  | .insertExchange value count =>
    if ring.m_count = count then some ({ ring with m_count := count + 1 }, .insertStore value count)
    else some (ring, .insertSpace value ring.m_count)
  | .insertStore value count => some (ring.store count value, .idle)
  | .removeOffset => some (ring, .removeCount ring.m_offset)
  | .removeCount offset =>
    if 0 < ring.m_count - offset then some (ring, .removeLoad offset) else some (ring, .idle)
  | .removeLoad offset =>
    if ring.slot offset = 0 then some (ring, .removeNext offset)
    else some (ring, .removeExchange offset (ring.slot offset))
  | .removeNext offset =>
    if ring.m_offset = offset then some (ring, .idle) else some (ring, .removeCount ring.m_offset)
  | .removeExchange offset ret =>
    if ring.m_offset = offset then
      some ({ ring with m_offset := offset + 1 }, .removeClear offset ret)
    else some (ring, .removeCount ring.m_offset)
  | .removeClear offset _ => some (ring.store offset 0, .idle)

end AtomicRingBuffer

namespace AtomicRing

open AtomicRingBuffer

structure Run (T V : Type*) where
  ring : AtomicRingBuffer V
  pcs : T → Pc V
  inserted : List V
  returned : List V

inductive Event (T V : Type*)
  | Insert (thread : T) (value : V)
  | RemoveFront (thread : T)
  | step (thread : T)

variable {T V : Type*} [DecidableEq T] [Zero V] [DecidableEq V]

/-- A thread in a call makes no other one. `Insert` asserts that its value is not 0. -/
def Run.event (s : Run T V) : Event T V → Option (Run T V)
  | .Insert thread value =>
    match s.pcs thread with
    | .idle =>
      if value = 0 then none
      else some { s with pcs := Function.update s.pcs thread (.insertCount value) }
    | _ => some s
  | .RemoveFront thread =>
    match s.pcs thread with
    | .idle => some { s with pcs := Function.update s.pcs thread .removeOffset }
    | _ => some s
  | .step thread =>
    (s.ring.access (s.pcs thread)).map fun (ring, pc) =>
      { ring
        pcs := Function.update s.pcs thread pc
        inserted :=
          match s.pcs thread with
          | .insertStore value _ => value :: s.inserted
          | _ => s.inserted
        returned :=
          match s.pcs thread with
          | .removeClear _ ret => ret :: s.returned
          | _ => s.returned }

def step (s : Option (Run T V)) (e : Event T V) : Option (Run T V) := s.bind fun s => s.event e

def initialized (queue_count : BitVec 32) (m_array : ℕ → V) : Run T V where
  ring := .initialized queue_count m_array
  pcs _ := .idle
  inserted := []
  returned := []

end AtomicRing

section Slots

variable {V : Type*} {m_array : ℕ → V} {n i : ℕ} {value : V}

theorem map_update : (List.range n).map (Function.update m_array i value) =
    ((List.range n).map m_array).set i value := by
  apply List.ext_getElem
  · rw [List.length_set, List.length_map, List.length_map]
  intro j hj hj'
  rw [List.getElem_map, List.getElem_range, List.getElem_set, List.getElem_map, List.getElem_range]
  by_cases hij : i = j
  · rw [if_pos hij, hij, Function.update_self]
  · rw [if_neg hij, Function.update_of_ne (Ne.symm hij)]

variable [Zero V] [DecidableEq V]

def slotContents (m_array : ℕ → V) (n : ℕ) : List V :=
  ((List.range n).map m_array).filter (· ≠ 0)

theorem exists_contents_rest (m_array : ℕ → V) (hi : i < n) :
    ∃ rest, ∀ value, (slotContents (Function.update m_array i value) n).Perm
      (if value = 0 then rest else value :: rest) := by
  refine ⟨(((List.range n).map m_array).eraseIdx i).filter (· ≠ 0), fun value => ?_⟩
  have hlength : i < ((List.range n).map m_array).length := by simpa using hi
  have hset := (List.set_perm_cons_eraseIdx hlength value).filter (· ≠ 0)
  rw [← map_update] at hset
  refine hset.trans (.of_eq ?_)
  by_cases hvalue : value = 0
  · rw [if_pos hvalue, List.filter_cons_of_neg (by simp [hvalue])]
  · rw [if_neg hvalue, List.filter_cons_of_pos (by simp [hvalue])]

theorem slotContents_zero (h : ∀ i < n, m_array i = 0) : slotContents m_array n = [] := by
  unfold slotContents
  rw [List.filter_eq_nil_iff]
  intro value hvalue
  obtain ⟨i, hi, rfl⟩ := List.mem_map.mp hvalue
  simp [h i (List.mem_range.mp hi)]

theorem slotContents_store (hi : i < n) (hslot : m_array i = 0) (hvalue : value ≠ 0) :
    (slotContents (Function.update m_array i value) n).Perm (value :: slotContents m_array n) := by
  obtain ⟨rest, hrest⟩ := exists_contents_rest m_array hi
  have hbefore := hrest (m_array i)
  rw [Function.update_eq_self, if_pos hslot] at hbefore
  have hafter := hrest value
  rw [if_neg hvalue] at hafter
  exact hafter.trans (hbefore.symm.cons value)

theorem slotContents_clear (hi : i < n) (hslot : m_array i = value) (hvalue : value ≠ 0) :
    (slotContents m_array n).Perm (value :: slotContents (Function.update m_array i 0) n) := by
  obtain ⟨rest, hrest⟩ := exists_contents_rest m_array hi
  have hbefore := hrest (m_array i)
  rw [Function.update_eq_self, hslot, if_neg hvalue] at hbefore
  have hafter := hrest 0
  rw [if_pos rfl] at hafter
  exact hbefore.trans (hafter.symm.cons value)

end Slots

namespace AtomicRing

open AtomicRingBuffer

variable {T V : Type*}

def Run.Clearing (s : Run T V) (position : BitVec 32) : Prop :=
  ∃ thread offset ret, s.pcs thread = .removeClear offset ret ∧
    s.ring.index offset = s.ring.index position

/-- A position is given out while fewer than there are slots are taken; a slot is stored to once
it is cleared; and the value that a removal takes is one that the slot still has and that no other
one has taken. -/
def Run.Fits (s : Run T V) : Event T V → Prop
  | .step thread =>
    match s.pcs thread with
    | .insertExchange _ count =>
      s.ring.m_count = count → s.ring.m_count - s.ring.m_offset < s.ring.m_max_count
    | .insertStore _ count => ¬ s.Clearing count
    | .removeExchange offset ret => s.ring.m_offset = offset →
      s.ring.m_count ≠ offset ∧ s.ring.slot offset = ret ∧ ¬ s.Clearing offset
    | _ => True
  | _ => True

def Fits : Option (Run T V) → Event T V → Prop
  | none, _ => True
  | some s, e => s.Fits e

section Positions

variable {ring : AtomicRingBuffer V} {k : ℕ} {n m : BitVec 32}

theorem mask_toNat (hk : k < 32) :
    ((BitVec.ofNat 32 (2 ^ k) - 1) &&& n).toNat = n.toNat % 2 ^ k := by
  have hlt : 2 ^ k < 2 ^ 32 := Nat.pow_lt_pow_right (by decide) hk
  have hpos : 0 < 2 ^ k := Nat.two_pow_pos k
  have hmask : (BitVec.ofNat 32 (2 ^ k) - 1).toNat = 2 ^ k - 1 := by bv_omega
  rw [BitVec.toNat_and, hmask, Nat.and_comm, Nat.and_two_pow_sub_one_eq_mod]

theorem index_eq (hmax : ring.m_max_count = BitVec.ofNat 32 (2 ^ k)) (hk : k < 32) :
    ring.index n = n.toNat % 2 ^ k := by
  rw [index, hmax, mask_toNat hk]

theorem size_toNat (hk : k < 32) : (BitVec.ofNat 32 (2 ^ k)).toNat = 2 ^ k := by
  rw [BitVec.toNat_ofNat, Nat.mod_eq_of_lt (Nat.pow_lt_pow_right (by decide) hk)]

theorem index_lt (hmax : ring.m_max_count = BitVec.ofNat 32 (2 ^ k)) (hk : k < 32) :
    ring.index n < ring.m_max_count.toNat := by
  rw [index_eq hmax hk, hmax, size_toNat hk]
  exact Nat.mod_lt _ (Nat.two_pow_pos k)

theorem slot_store {value : V} :
    (ring.store m value).slot n = if ring.index n = ring.index m then value else ring.slot n :=
  Function.update_apply ..

theorem index_store {value : V} : (ring.store m value).index n = ring.index n := rfl

theorem slot_count (count : BitVec 32) :
    ({ ring with m_count := count } : AtomicRingBuffer V).slot n = ring.slot n := rfl

theorem index_count (count : BitVec 32) :
    ({ ring with m_count := count } : AtomicRingBuffer V).index n = ring.index n := rfl

theorem slot_offset (offset : BitVec 32) :
    ({ ring with m_offset := offset } : AtomicRingBuffer V).slot n = ring.slot n := rfl

theorem index_offset (offset : BitVec 32) :
    ({ ring with m_offset := offset } : AtomicRingBuffer V).index n = ring.index n := rfl

theorem position_eq (hmax : ring.m_max_count = BitVec.ofNat 32 (2 ^ k)) (hk : k < 32)
    {o : BitVec 32} (hn : (n - o).toNat < 2 ^ k) (hm : (m - o).toNat < 2 ^ k)
    (hindex : ring.index n = ring.index m) : n = m := by
  rw [index_eq hmax hk, index_eq hmax hk] at hindex
  have hdvd : 2 ^ k ∣ 2 ^ 32 := Nat.pow_dvd_pow 2 (by omega)
  have hmod : (n - o).toNat % 2 ^ k = (m - o).toNat % 2 ^ k := by
    rw [BitVec.toNat_sub, BitVec.toNat_sub, Nat.mod_mod_of_dvd _ hdvd, Nat.mod_mod_of_dvd _ hdvd,
      Nat.add_mod, hindex, ← Nat.add_mod]
  rw [Nat.mod_eq_of_lt hn, Nat.mod_eq_of_lt hm] at hmod
  have hsub := BitVec.eq_of_toNat_eq hmod
  bv_omega

end Positions

variable [Zero V] [DecidableEq V]

def Run.Kept (s : Run T V) : Prop :=
  s.inserted.Perm (s.returned ++ slotContents s.ring.m_array s.ring.m_max_count.toNat)

def Kept : Option (Run T V) → Prop
  | none => True
  | some s => s.Kept

def carried : Pc V → Option V
  | .insertCount value | .insertSpace value _ | .insertExchange value _ | .insertStore value _ =>
    some value
  | .removeExchange _ ret | .removeClear _ ret => some ret
  | _ => none

def Owns (pc : Pc V) : Prop :=
  (∃ value count, pc = .insertStore value count) ∨ ∃ offset ret, pc = .removeClear offset ret

namespace Run

def Used (s : Run T V) (position : BitVec 32) : Prop :=
  position - s.ring.m_offset < s.ring.m_count - s.ring.m_offset

structure Sound (s : Run T V) (k : ℕ) : Prop where
  max : s.ring.m_max_count = BitVec.ofNat 32 (2 ^ k)
  kept : s.Kept
  carried : ∀ t value, carried (s.pcs t) = some value → value ≠ 0
  store : ∀ t value n, s.pcs t = .insertStore value n →
    s.Used n ∧ (s.ring.slot n = 0 ∨ s.Clearing n)
  store_eq : ∀ t t' value value' n n', s.pcs t = .insertStore value n →
    s.pcs t' = .insertStore value' n' → s.ring.index n = s.ring.index n' → t = t'
  clear : ∀ t n ret, s.pcs t = .removeClear n ret → s.ring.slot n = ret
  clear_eq : ∀ t t' n n' ret ret', s.pcs t = .removeClear n ret →
    s.pcs t' = .removeClear n' ret' → s.ring.index n = s.ring.index n' → t = t'
  rest : ∀ n, s.ring.slot n = 0 ∨ s.Clearing n ∨ ∃ m, s.Used m ∧ s.ring.index m = s.ring.index n

variable {s : Run T V} {k : ℕ} {t : T} {n offset : BitVec 32} {value ret : V} {pc : Pc V}

variable [DecidableEq T]

omit [Zero V] [DecidableEq V] in
theorem Clearing.update {ring : AtomicRingBuffer V} {inserted returned : List V} (h : s.Clearing n)
    (hmax : ring.m_max_count = s.ring.m_max_count)
    (ht : ∀ p r, s.pcs t = .removeClear p r → s.ring.index p ≠ s.ring.index n) :
    (Run.mk ring (Function.update s.pcs t pc) inserted returned).Clearing n := by
  obtain ⟨u, p, r, hu, hindex⟩ := h
  have hne : u ≠ t := by
    rintro rfl
    exact ht p r hu hindex
  refine ⟨u, p, r, (Function.update_of_ne hne ..).trans hu, ?_⟩
  unfold index at hindex ⊢
  rw [hmax]
  exact hindex

theorem Sound.move (h : s.Sound k) (hold : ¬ Owns (s.pcs t)) (hnew : ¬ Owns pc)
    (hcarried : ∀ value, AtomicRing.carried pc = some value → value ≠ 0) :
    ({ s with pcs := Function.update s.pcs t pc } : Run T V).Sound k := by
  obtain ⟨hmax, hkept, hcarry, hstore, hstore_eq, hclear, hclear_eq, hrest⟩ := h
  have hclearing : ∀ n, s.Clearing n →
      ({ s with pcs := Function.update s.pcs t pc } : Run T V).Clearing n := fun n hn =>
    hn.update rfl fun p r ht => absurd (.inr ⟨p, r, ht⟩) hold
  unfold Owns at hold hnew
  constructor
  · exact hmax
  · exact hkept
  all_goals
    dsimp only [Used] at *
    grind [Function.update_apply]

omit [DecidableEq T] in
theorem Sound.unused (h : s.Sound k) (hk : k < 32) (hused : s.Used n)
    (hroom : s.ring.m_count - s.ring.m_offset < s.ring.m_max_count) :
    s.ring.index n ≠ s.ring.index s.ring.m_count := by
  intro hindex
  have hmax : s.ring.m_max_count.toNat = 2 ^ k := by
    rw [h.max, size_toNat hk]
  rw [BitVec.lt_def, hmax] at hroom
  have hlt := BitVec.lt_def.mp hused
  have heq := position_eq h.max hk (Nat.lt_trans hlt hroom) hroom hindex
  rw [heq] at hlt
  exact Nat.lt_irrefl _ hlt

theorem Sound.reserve (h : s.Sound k) (hk : k < 32)
    (ht : s.pcs t = .insertExchange value s.ring.m_count)
    (hroom : s.ring.m_count - s.ring.m_offset < s.ring.m_max_count) :
    ({ s with
      ring := { s.ring with m_count := s.ring.m_count + 1 }
      pcs := Function.update s.pcs t (.insertStore value s.ring.m_count) } : Run T V).Sound k := by
  have hunused : ∀ n, s.Used n → s.ring.index n ≠ s.ring.index s.ring.m_count := fun n hn =>
    h.unused hk hn hroom
  have hcarried := h.carried t value (by rw [ht]; rfl)
  obtain ⟨hmax, hkept, hcarry, hstore, hstore_eq, hclear, hclear_eq, hrest⟩ := h
  have hclearing : ∀ n, s.Clearing n → ({ s with
      ring := { s.ring with m_count := s.ring.m_count + 1 }
      pcs := Function.update s.pcs t (.insertStore value s.ring.m_count) } : Run T V).Clearing n :=
    fun n hn => hn.update rfl fun p r hp => by
      rw [ht] at hp
      cases hp
  have hused : ∀ n, s.Used n ∨ n = s.ring.m_count →
      n - s.ring.m_offset < s.ring.m_count + 1 - s.ring.m_offset := by
    unfold Used
    intro n hn
    bv_omega
  constructor
  · exact hmax
  · exact hkept
  all_goals
    dsimp only [Used] at *
    grind [Function.update_apply, AtomicRing.carried, slot_count, index_count]

theorem Sound.take (h : s.Sound k) (ht : s.pcs t = .removeExchange s.ring.m_offset ret)
    (hused : s.ring.m_count ≠ s.ring.m_offset) (hslot : s.ring.slot s.ring.m_offset = ret)
    (hfree : ¬ s.Clearing s.ring.m_offset) :
    ({ s with
      ring := { s.ring with m_offset := s.ring.m_offset + 1 }
      pcs := Function.update s.pcs t (.removeClear s.ring.m_offset ret) } : Run T V).Sound k := by
  have hcarried := h.carried t ret (by rw [ht]; rfl)
  have hother : ∀ u p r, s.pcs u = .removeClear p r →
      s.ring.index p ≠ s.ring.index s.ring.m_offset := fun u p r hu hp => hfree ⟨u, p, r, hu, hp⟩
  obtain ⟨hmax, hkept, hcarry, hstore, hstore_eq, hclear, hclear_eq, hrest⟩ := h
  have hclearing : ∀ n, s.Clearing n ∨ s.ring.index s.ring.m_offset = s.ring.index n → ({ s with
      ring := { s.ring with m_offset := s.ring.m_offset + 1 }
      pcs := Function.update s.pcs t (.removeClear s.ring.m_offset ret) } : Run T V).Clearing n := by
    rintro n (hn | hn)
    · exact hn.update rfl fun p r hp => by
        rw [ht] at hp
        cases hp
    · exact ⟨t, s.ring.m_offset, ret, Function.update_self .., hn⟩
  have hnext : ∀ n, s.Used n → n ≠ s.ring.m_offset →
      n - (s.ring.m_offset + 1) < s.ring.m_count - (s.ring.m_offset + 1) := by
    unfold Used
    intro n hn hne
    bv_omega
  constructor
  · exact hmax
  · exact hkept
  all_goals
    dsimp only [Used] at *
    grind [Function.update_apply, AtomicRing.carried, slot_offset, index_offset]

theorem Sound.stored (h : s.Sound k) (hk : k < 32) (ht : s.pcs t = .insertStore value n)
    (hfree : ¬ s.Clearing n) :
    (Run.mk (s.ring.store n value) (Function.update s.pcs t .idle) (value :: s.inserted)
      s.returned).Sound k := by
  have hvalue := h.carried t value (by rw [ht]; rfl)
  have hslot : s.ring.slot n = 0 := (h.store t value n ht).2.resolve_right hfree
  obtain ⟨hmax, hkept, hcarry, hstore, hstore_eq, hclear, hclear_eq, hrest⟩ := h
  have hother : ∀ u p r, s.pcs u = .removeClear p r → s.ring.index p ≠ s.ring.index n :=
    fun u p r hu hp => hfree ⟨u, p, r, hu, hp⟩
  have hclearing : ∀ p, s.Clearing p → (Run.mk (s.ring.store n value)
      (Function.update s.pcs t .idle) (value :: s.inserted) s.returned).Clearing p := fun p hp =>
    hp.update rfl fun q r hq => by
      rw [ht] at hq
      cases hq
  have hused : ∀ p, (Run.mk (s.ring.store n value) (Function.update s.pcs t .idle)
      (value :: s.inserted) s.returned).Used p ↔ s.Used p := fun _ => Iff.rfl
  constructor
  · exact hmax
  · exact (hkept.cons value).trans (List.perm_middle.symm.trans
      ((slotContents_store (index_lt hmax hk) hslot hvalue).symm.append_left s.returned))
  all_goals
    dsimp only
    grind [Function.update_apply, AtomicRing.carried, slot_store, index_store]

theorem Sound.cleared (h : s.Sound k) (hk : k < 32) (ht : s.pcs t = .removeClear n ret) :
    (Run.mk (s.ring.store n 0) (Function.update s.pcs t .idle) s.inserted
      (ret :: s.returned)).Sound k := by
  have hret := h.carried t ret (by rw [ht]; rfl)
  have hslot := h.clear t n ret ht
  obtain ⟨hmax, hkept, hcarry, hstore, hstore_eq, hclear, hclear_eq, hrest⟩ := h
  have hclearing : ∀ p, s.Clearing p → s.ring.index n ≠ s.ring.index p →
      (Run.mk (s.ring.store n 0) (Function.update s.pcs t .idle) s.inserted
        (ret :: s.returned)).Clearing p := fun p hp hne =>
    hp.update rfl fun q r hq => by
      rw [ht] at hq
      cases hq
      exact hne
  have hused : ∀ p, (Run.mk (s.ring.store n 0) (Function.update s.pcs t .idle) s.inserted
      (ret :: s.returned)).Used p ↔ s.Used p := fun _ => Iff.rfl
  constructor
  · exact hmax
  · exact hkept.trans (((slotContents_clear (index_lt hmax hk) hslot hret).append_left
      s.returned).trans List.perm_middle)
  all_goals
    dsimp only
    grind [Function.update_apply, AtomicRing.carried, slot_store, index_store]

theorem Sound.event (h : s.Sound k) (hk : k < 32) {e : Event T V} (hfits : s.Fits e) {s' : Run T V}
    (hs : s.event e = some s') : s'.Sound k := by
  cases e with
  | Insert t v =>
    unfold Run.event at hs
    dsimp only at hs
    split at hs
    · rename_i hpc
      by_cases hv : v = 0
      · rw [if_pos hv] at hs
        cases hs
      · rw [if_neg hv, Option.some.injEq] at hs
        rw [← hs]
        exact h.move (by simp [Owns, hpc]) (by simp [Owns]) fun value hvalue => by
          cases hvalue
          exact hv
    · rw [← Option.some.inj hs]
      exact h
  | RemoveFront t =>
    unfold Run.event at hs
    dsimp only at hs
    split at hs
    · rename_i hpc
      rw [← Option.some.inj hs]
      exact h.move (by simp [Owns, hpc]) (by simp [Owns]) fun value hvalue => by cases hvalue
    · rw [← Option.some.inj hs]
      exact h
  | step t =>
    have hvalue := h.carried t
    simp only [Run.event] at hs
    simp only [Fits] at hfits
    cases hpc : s.pcs t with
    | idle =>
      simp only [hpc, access, Option.map_some, Option.some.injEq] at hs
      rw [← hs]
      exact h.move (by simp [Owns, hpc]) (by simp [Owns]) fun value hvalue => by cases hvalue
    | insertCount v =>
      simp only [hpc, access, Option.map_some, Option.some.injEq] at hs
      rw [hpc] at hvalue
      rw [← hs]
      exact h.move (by simp [Owns, hpc]) (by simp [Owns]) hvalue
    | insertSpace v count =>
      simp only [hpc, access] at hs
      rw [hpc] at hvalue
      split at hs
      · rw [← Option.some.inj hs]
        exact h.move (by simp [Owns, hpc]) (by simp [Owns]) hvalue
      · cases hs
    | insertExchange v count =>
      simp only [hpc, access] at hs hfits
      rw [hpc] at hvalue
      split at hs
      · rename_i heq
        subst heq
        rw [← Option.some.inj hs]
        exact h.reserve hk hpc (hfits rfl)
      · rw [← Option.some.inj hs]
        exact h.move (by simp [Owns, hpc]) (by simp [Owns]) hvalue
    | insertStore v count =>
      simp only [hpc, access, Option.map_some, Option.some.injEq] at hs hfits
      rw [← hs]
      exact h.stored hk hpc hfits
    | removeOffset =>
      simp only [hpc, access, Option.map_some, Option.some.injEq] at hs
      rw [← hs]
      exact h.move (by simp [Owns, hpc]) (by simp [Owns]) fun value hvalue => by cases hvalue
    | removeCount offset =>
      simp only [hpc, access] at hs
      split at hs
      all_goals
        rw [← Option.some.inj hs]
        exact h.move (by simp [Owns, hpc]) (by simp [Owns]) fun value hvalue => by cases hvalue
    | removeLoad offset =>
      simp only [hpc, access] at hs
      split at hs
      · rw [← Option.some.inj hs]
        exact h.move (by simp [Owns, hpc]) (by simp [Owns]) fun value hvalue => by cases hvalue
      · rename_i hslot
        rw [← Option.some.inj hs]
        exact h.move (by simp [Owns, hpc]) (by simp [Owns]) fun value hvalue => by
          cases hvalue
          exact hslot
    | removeNext offset =>
      simp only [hpc, access] at hs
      split at hs
      all_goals
        rw [← Option.some.inj hs]
        exact h.move (by simp [Owns, hpc]) (by simp [Owns]) fun value hvalue => by cases hvalue
    | removeExchange offset ret =>
      simp only [hpc, access] at hs hfits
      split at hs
      · rename_i heq
        subst heq
        obtain ⟨hused, hslot, hfree⟩ := hfits rfl
        rw [← Option.some.inj hs]
        exact h.take hpc hused hslot hfree
      · rw [← Option.some.inj hs]
        exact h.move (by simp [Owns, hpc]) (by simp [Owns]) fun value hvalue => by cases hvalue
    | removeClear offset ret =>
      simp only [hpc, access, Option.map_some, Option.some.injEq] at hs
      rw [← hs]
      exact h.cleared hk hpc

omit [DecidableEq T] in
theorem initialized_sound {m_array : ℕ → V} (hk : k < 32) (harray : ∀ i < 2 ^ k, m_array i = 0) :
    (initialized (BitVec.ofNat 32 (2 ^ k)) m_array : Run T V).Sound k := by
  have hsize := size_toNat hk
  have hempty : slotContents m_array (BitVec.ofNat 32 (2 ^ k)).toNat = [] := by
    rw [hsize]
    exact slotContents_zero harray
  constructor
  · rfl
  · unfold Kept
    dsimp only [initialized, AtomicRingBuffer.initialized]
    rw [hempty]
    rfl
  · intro t value ht
    cases ht
  · intro t value n ht
    cases ht
  · intro t t' value value' n n' ht
    cases ht
  · intro t n ret ht
    cases ht
  · intro t t' n n' ret ret' ht
    cases ht
  · intro n
    have hmax : (AtomicRingBuffer.initialized (BitVec.ofNat 32 (2 ^ k)) m_array).m_max_count =
        BitVec.ofNat 32 (2 ^ k) := rfl
    exact .inl (harray _ (Nat.lt_of_lt_of_eq (index_lt hmax hk) hsize))

end Run

theorem kept_of_fits [DecidableEq T] {k : ℕ} (hk : k < 32) {m_array : ℕ → V}
    (harray : ∀ i < 2 ^ k, m_array i = 0) {events : List (Event T V)}
    (hfits : Calls.EachIn step Fits (some (initialized (BitVec.ofNat 32 (2 ^ k)) m_array)) events) :
    Calls.Throughout step Kept (fun _ _ => True)
      (some (initialized (BitVec.ofNat 32 (2 ^ k)) m_array)) events := by
  let Inv (q : Option (Run T V)) : Prop := ∀ s, q = some s → s.Sound k
  have hkept : ∀ q, Inv q → Kept q := by
    rintro (_ | s) h
    · trivial
    · exact (h s rfl).kept
  have hstep : ∀ q e, Inv q → Fits q e → True → True ∧ Inv (step q e) := by
    rintro (_ | s) e h hfit -
    · exact ⟨trivial, fun _ hs => nomatch hs⟩
    · exact ⟨trivial, fun s' hs => (h s rfl).event hk hfit hs⟩
  have hstart : Inv (some (initialized (BitVec.ofNat 32 (2 ^ k)) m_array)) := by
    rintro _ ⟨⟩
    exact Run.initialized_sound hk harray
  exact (Calls.throughout_iff hkept hstep (fun _ _ _ _ _ _ => trivial) hstart hfits).mpr
    Calls.eachIn_true

end AtomicRing

end Awn
