import Mathlib.Data.List.Pairwise
import Mathlib.Data.Set.Basic

/-! Reservations and committed pages, and an address space that has them. -/

namespace Awn

def c4KB : ℕ := 0x1000

def c64KB : ℕ := 0x10000

def pagesOf (address size : ℕ) : Set ℕ := {p | address < (p + 1) * c4KB ∧ p * c4KB < address + size}

structure VirtualMemory (V : Type*) where
  reserved : V → Set (ℕ × ℕ)
  committed : V → Set ℕ
  MEM_RESERVE : V → ℕ → Option (ℕ × V)
  MEM_COMMIT : V → ℕ → ℕ → Option V
  MEM_DECOMMIT : V → ℕ → ℕ → Option V
  MEM_RELEASE : V → ℕ → Option V

structure VirtualMemory.Exact {V : Type*} (M : VirtualMemory V) : Prop where
  pos : ∀ {v r}, r ∈ M.reserved v → 0 < r.2
  apart : ∀ {v r r'}, r ∈ M.reserved v → r' ∈ M.reserved v → r ≠ r' →
    r.1 + r.2 ≤ r'.1 ∨ r'.1 + r'.2 ≤ r.1
  reserve : ∀ {v size address v'}, M.MEM_RESERVE v size = some (address, v') →
    0 < size ∧ c64KB ∣ address ∧
      (∀ r ∈ M.reserved v, r.1 + r.2 ≤ address ∨ address + size ≤ r.1) ∧
      M.reserved v' = insert (address, size) (M.reserved v) ∧ M.committed v' = M.committed v
  commit : ∀ {v address size v'}, M.MEM_COMMIT v address size = some v' →
    0 < size ∧ (∃ r ∈ M.reserved v, r.1 ≤ address ∧ address + size ≤ r.1 + r.2) ∧
      M.reserved v' = M.reserved v ∧ M.committed v' = M.committed v ∪ pagesOf address size
  decommit : ∀ {v address size v'}, M.MEM_DECOMMIT v address size = some v' → 0 < size →
    M.reserved v' = M.reserved v ∧ M.committed v' = M.committed v \ pagesOf address size
  release : ∀ {v address v'}, M.MEM_RELEASE v address = some v' →
    ∃ size, (address, size) ∈ M.reserved v ∧ M.reserved v' = M.reserved v \ {(address, size)} ∧
      M.committed v' = M.committed v \ pagesOf address size

structure AddressSpace where
  reservations : List (ℕ × ℕ)
  pos : ∀ r ∈ reservations, 0 < r.2
  apart : reservations.Pairwise fun r r' => r.1 + r.2 ≤ r'.1 ∨ r'.1 + r'.2 ≤ r.1
  page : ℕ → Bool

namespace AddressSpace

def empty : AddressSpace := ⟨[], by simp, .nil, fun _ => false⟩

def top : List (ℕ × ℕ) → ℕ
  | [] => 0
  | r :: rs => max (r.1 + r.2) (top rs)

theorem le_top {rs : List (ℕ × ℕ)} {r : ℕ × ℕ} (h : r ∈ rs) : r.1 + r.2 ≤ top rs := by
  induction rs with
  | nil => exact absurd h List.not_mem_nil
  | cons r' rs ih =>
    rcases List.mem_cons.mp h with rfl | h
    · exact le_max_left _ _
    · exact (ih h).trans (le_max_right _ _)

variable (v : AddressSpace)

def next : ℕ := (top v.reservations / c64KB + 1) * c64KB

theorem next_ge {r : ℕ × ℕ} (h : r ∈ v.reservations) : r.1 + r.2 ≤ v.next := by
  have hle := le_top h
  unfold next c64KB
  omega

def inPages (address size p : ℕ) : Bool := address < (p + 1) * c4KB && p * c4KB < address + size

def reserve (size : ℕ) : Option (ℕ × AddressSpace) :=
  if h : 0 < size then
    some (v.next, {
      reservations := (v.next, size) :: v.reservations
      pos := by
        intro r hr
        rcases List.mem_cons.mp hr with rfl | hr
        · exact h
        · exact v.pos r hr
      apart := List.pairwise_cons.mpr ⟨fun r hr => .inr (v.next_ge hr), v.apart⟩
      page := v.page })
  else none

def Reserved (address size : ℕ) : Prop :=
  0 < size ∧ ∃ r ∈ v.reservations, r.1 ≤ address ∧ address + size ≤ r.1 + r.2

instance (address size : ℕ) : Decidable (v.Reserved address size) :=
  inferInstanceAs (Decidable (_ ∧ _))

def commit (address size : ℕ) : Option AddressSpace :=
  if v.Reserved address size then
    some { v with page := fun p => v.page p || inPages address size p }
  else none

def decommit (address size : ℕ) : Option AddressSpace :=
  if v.Reserved address size then
    some { v with page := fun p => v.page p && !inPages address size p }
  else none

def release (address : ℕ) : Option AddressSpace :=
  (v.reservations.find? (·.1 = address)).map fun r =>
    { reservations := v.reservations.filter (· ≠ r)
      pos := fun r' hr' => v.pos r' (List.mem_filter.mp hr').1
      apart := v.apart.filter _
      page := fun p => v.page p && !inPages r.1 r.2 p }

end AddressSpace

def addressSpace : VirtualMemory AddressSpace where
  reserved v := {r | r ∈ v.reservations}
  committed v := {p | v.page p = true}
  MEM_RESERVE := AddressSpace.reserve
  MEM_COMMIT := AddressSpace.commit
  MEM_DECOMMIT := AddressSpace.decommit
  MEM_RELEASE := AddressSpace.release

namespace AddressSpace

theorem inPages_iff {address size p : ℕ} :
    inPages address size p = true ↔ p ∈ pagesOf address size := by
  unfold inPages
  rw [Bool.and_eq_true, decide_eq_true_iff, decide_eq_true_iff]
  rfl

theorem exact : addressSpace.Exact where
  pos {v r} hr := v.pos r hr
  apart {v r r'} hr hr' hne := by
    have : Std.Symm fun r r' : ℕ × ℕ => r.1 + r.2 ≤ r'.1 ∨ r'.1 + r'.2 ≤ r.1 :=
      ⟨fun _ _ h => h.symm⟩
    exact v.apart.forall hr hr' hne
  reserve {v size address v'} h := by
    change v.reserve size = _ at h
    unfold reserve at h
    split at h
    next hpos =>
      cases h
      refine ⟨hpos, Nat.dvd_mul_left _ _, fun r hr => .inl (v.next_ge hr), ?_, rfl⟩
      ext r
      exact List.mem_cons
    next => cases h
  commit {v address size v'} h := by
    change v.commit address size = _ at h
    unfold commit at h
    split at h
    next hreserved =>
      cases h
      refine ⟨hreserved.1, hreserved.2, rfl, ?_⟩
      ext p
      change (v.page p || _) = true ↔ _
      rw [Bool.or_eq_true, inPages_iff]
      rfl
    next => cases h
  decommit {v address size v'} h hpos := by
    change v.decommit address size = _ at h
    unfold decommit at h
    split at h
    next hreserved =>
      cases h
      refine ⟨rfl, ?_⟩
      ext p
      change (v.page p && !_) = true ↔ _
      rw [Bool.and_eq_true, Bool.not_eq_true', ← Bool.not_eq_true, inPages_iff]
      rfl
    next => cases h
  release {v address v'} h := by
    obtain ⟨r, hfind, hrest⟩ := Option.map_eq_some_iff.mp h
    cases hrest
    have hmem := List.mem_of_find?_eq_some hfind
    have haddress : r.1 = address := by
      have hfound := List.find?_some hfind
      simpa using hfound
    refine ⟨r.2, haddress ▸ hmem, ?_, ?_⟩
    · ext r'
      change r' ∈ v.reservations.filter _ ↔ _
      rw [List.mem_filter, decide_eq_true_iff, ← haddress]
      rfl
    · ext p
      change (v.page p && !_) = true ↔ _
      rw [Bool.and_eq_true, Bool.not_eq_true', ← Bool.not_eq_true, inPages_iff, haddress]
      rfl

end AddressSpace

end Awn
