import Awn.Relocation.Walk
import Mathlib.Tactic.IntervalCases

namespace Awn.Relocation

open Memory ResNintendoWareRelocationTable ResNintendoWareFileHeader

theorem getFileHeader_toNat {m : Bytes} {this : Ptr} {size : ℕ} (hw : WellFormed m this size) :
    (getFileHeader m this).toNat = this.toNat - (offsetFromHeader m this).toNat := by
  obtain ⟨-, hle⟩ := hw.header
  have hlt := this.isLt
  have hoff := (offsetFromHeader m this).isLt
  rw [getFileHeader]
  simp only [BitVec.toNat_sub, BitVec.toNat_setWidth]
  omega

theorem flag_toNat {m : Bytes} {this : Ptr} {size : ℕ} (hw : WellFormed m this size) :
    (getFileHeader m this + 0x14).toNat = (getFileHeader m this).toNat + 0x14 ∧
      (getFileHeader m this).toNat + 0x20 ≤ this.toNat := by
  have hheader := getFileHeader_toNat hw
  obtain ⟨hge, hle⟩ := hw.header
  have hlt := this.isLt
  constructor
  · rw [BitVec.toNat_add]
    simp only [BitVec.ofNat_eq_ofNat, BitVec.toNat_ofNat]
    omega
  · omega

theorem setRelocated_other (m : Bytes) (header : Ptr) (r : Bool) (b : ℕ)
    (h : b < (header + 0x14).toNat ∨ (header + 0x14).toNat + 2 ≤ b) :
    setRelocated m header r b = m b := store_apply_of_ne _ _ _ _ _ h

theorem read16_setRelocated (m : Bytes) (header : Ptr) (r : Bool) :
    read16 (setRelocated m header r) (header + 0x14) =
      (read16 m (header + 0x14) &&& 0xFFFE) ||| if r then 1 else 0 := by
  apply BitVec.eq_of_toNat_eq
  rw [setRelocated, write16, read16, load_store, BitVec.toNat_ofNat]
  have hlt := ((read16 m (header + 0x14) &&& 0xFFFE) ||| if r then 1 else 0).isLt
  omega

theorem mask_bits : ∀ i : Fin 16, (0xFFFE : BitVec 16).getLsbD i = decide (i.val ≠ 0) ∧
    (1 : BitVec 16).getLsbD i = decide (i.val = 0) := by decide

theorem flag_restored (x : BitVec 16) (h : x &&& 1 = 0) :
    ((((x &&& 0xFFFE) ||| 1) &&& 0xFFFE) ||| 0) = x := by
  have hbit : x.getLsbD 0 = false := by
    have hzero := congrArg (fun y => y.getLsbD 0) h
    simpa using hzero
  apply BitVec.eq_of_getLsbD_eq
  intro i hi
  obtain ⟨hmask, hone⟩ := mask_bits ⟨i, hi⟩
  simp only at hmask hone
  have hzero : (0 : BitVec 16).getLsbD i = false := BitVec.getLsbD_zero
  rw [BitVec.getLsbD_or, BitVec.getLsbD_and, BitVec.getLsbD_or, BitVec.getLsbD_and, hmask, hone, hzero]
  by_cases hi0 : i = 0
  · subst hi0
    simpa using hbit.symm
  · simp [hi0]

theorem isRelocated_setRelocated (m : Bytes) (header : Ptr) (r : Bool) :
    isRelocated (setRelocated m header r) header = r := by
  rw [isRelocated, read16_setRelocated]
  have hand : ((read16 m (header + 0x14) &&& 0xFFFE) ||| if r then 1 else 0) &&& 1 =
      if r then 1 else 0 := by
    apply BitVec.eq_of_getLsbD_eq
    intro i hi
    obtain ⟨hmask, hone⟩ := mask_bits ⟨i, hi⟩
    simp only at hmask hone
    rw [BitVec.getLsbD_and, BitVec.getLsbD_or, BitVec.getLsbD_and, hmask, hone]
    by_cases hi0 : i = 0
    · subst hi0
      cases r <;> simp
    · cases r
      · simp [hi0]
      · simp [hi0]
  rw [hand]
  cases r <;> rfl

theorem bytes_of_read16 {m m' : Bytes} {p : Ptr} (h : read16 m' p = read16 m p) :
    ∀ b, p.toNat ≤ b → b < p.toNat + 2 → m' b = m b := by
  have hnat := congrArg BitVec.toNat h
  have hlt := load_lt m p.toNat 2
  have hlt' := load_lt m' p.toNat 2
  rw [read16, read16, BitVec.toNat_ofNat, BitVec.toNat_ofNat] at hnat
  exact (load_eq_iff m m' p.toNat 2).mp (by omega)

theorem bytes_of_read64 {m m' : Bytes} {p : Ptr} (h : read64 m' p = read64 m p) :
    ∀ b, p.toNat ≤ b → b < p.toNat + 8 → m' b = m b := by
  have hnat := congrArg BitVec.toNat h
  have hlt := load_lt m p.toNat 8
  have hlt' := load_lt m' p.toNat 8
  rw [read64, read64, BitVec.toNat_ofNat, BitVec.toNat_ofNat] at hnat
  exact (load_eq_iff m m' p.toNat 8).mp (by omega)

theorem SameTable.setRelocated {m m' : Bytes} {this : Ptr} {size : ℕ} (h : SameTable m this size m')
    (hw : WellFormed m this size) (r : Bool) :
    SameTable m this size (setRelocated m' (getFileHeader m this) r) := by
  obtain ⟨hflag, hbefore⟩ := flag_toNat hw
  intro b hb hn
  rw [setRelocated_other _ _ _ _ (by omega), h b hb hn]

theorem foldl_other {slot : Ptr → Bytes → Ptr → Bytes} (hl : Local slot) (l : List (Ptr × Ptr))
    (m : Bytes) (b : ℕ) (h : ∀ s ∈ l, b < s.2.toNat ∨ s.2.toNat + 8 ≤ b) :
    l.foldl (fun m s => slot s.1 m s.2) m b = m b := by
  induction l generalizing m with
  | nil => rfl
  | cons s l ih =>
    rw [List.foldl_cons, ih _ (fun t ht => h t (List.mem_cons_of_mem s ht)),
      hl s.1 m s.2 b (h s List.mem_cons_self)]

theorem foldl_unrelocateSlot (l : List (Ptr × Ptr)) (m : Bytes)
    (hd : l.Pairwise (fun s t => s.2.toNat + 8 ≤ t.2.toNat ∨ t.2.toNat + 8 ≤ s.2.toNat))
    (s : Ptr × Ptr) (hs : s ∈ l) :
    load (l.foldl (fun m s => unrelocateSlot s.1 m s.2) m) s.2.toNat 8 =
      (unrelocatedValue s.1 s.2).toNat := by
  induction l generalizing m with
  | nil => cases hs
  | cons t l ih =>
    obtain ⟨ht, hl⟩ := List.pairwise_cons.mp hd
    rw [List.foldl_cons]
    rcases List.mem_cons.mp hs with rfl | hs
    · have hrest : load (l.foldl (fun m s => unrelocateSlot s.1 m s.2) (unrelocateSlot s.1 m s.2))
          s.2.toNat 8 = load (unrelocateSlot s.1 m s.2) s.2.toNat 8 := by
        apply load_congr
        intro b hb hn
        apply foldl_other unrelocateSlot_local
        intro u hu
        have := ht u hu
        omega
      have hlt := (unrelocatedValue s.1 s.2).isLt
      rw [hrest, unrelocateSlot, write64, load_store]
      omega
    · exact ih _ hl hs

theorem unrelocate_relocate_eq {m : Bytes} {this : Ptr} {size : ℕ} (hw : WellFormed m this size)
    (hcount : sectionCount m this ≠ 0) :
    unrelocate (relocate m this) this = setRelocated
      ((slots m this).foldl (fun m s => unrelocateSlot s.1 m s.2)
        (setRelocated ((slots m this).foldl (fun m s => relocateSlot s.1 m s.2) m)
          (getFileHeader m this) true)) (getFileHeader m this) false := by
  have hrefl : SameTable m this size m := fun _ _ _ => rfl
  obtain ⟨hwalk, hsame⟩ := walk_eq relocateSlot_local hw hrefl
  have hsame₁ := hsame.setRelocated hw true
  have hrelocate : relocate m this = setRelocated
      ((slots m this).foldl (fun m s => relocateSlot s.1 m s.2) m) (getFileHeader m this) true := by
    rw [relocate, if_neg hcount, hwalk]
  rw [hrelocate]
  obtain ⟨hcount₁, hheader₁, -⟩ := hsame₁.header hw
  obtain ⟨hwalk₁, -⟩ := walk_eq unrelocateSlot_local hw hsame₁
  rw [unrelocate, hcount₁, if_neg hcount, hheader₁, hwalk₁]

theorem unrelocate_relocate_slot {m : Bytes} {this : Ptr} {size : ℕ} (hw : WellFormed m this size)
    (hcount : sectionCount m this ≠ 0) (s : Ptr × Ptr) (hs : s ∈ slots m this) :
    read64 (unrelocate (relocate m this) this) s.2 = unrelocatedValue s.1 s.2 := by
  obtain ⟨hflag, -⟩ := flag_toNat hw
  have hapart := hw.flag s hs
  rw [unrelocate_relocate_eq hw hcount, read64]
  have hload : ∀ m' : Bytes, load (setRelocated m' (getFileHeader m this) false) s.2.toNat 8 =
      load m' s.2.toNat 8 := by
    intro m'
    apply load_congr
    intro b hb hn
    exact setRelocated_other _ _ _ _ (by omega)
  rw [hload, foldl_unrelocateSlot _ _ hw.distinct s hs, BitVec.ofNat_toNat, BitVec.setWidth_eq]

theorem unrelocate_relocate_flag {m : Bytes} {this : Ptr} {size : ℕ} (hw : WellFormed m this size)
    (hcount : sectionCount m this ≠ 0) (hunrelocated : isRelocated m (getFileHeader m this) = false) :
    read16 (unrelocate (relocate m this) this) (getFileHeader m this + 0x14) =
      read16 m (getFileHeader m this + 0x14) := by
  obtain ⟨hflag, -⟩ := flag_toNat hw
  have hkeep : ∀ {slot : Ptr → Bytes → Ptr → Bytes} (_ : Local slot) (m' : Bytes),
      read16 ((slots m this).foldl (fun m s => slot s.1 m s.2) m') (getFileHeader m this + 0x14) =
        read16 m' (getFileHeader m this + 0x14) := by
    intro slot hl m'
    have hload : load ((slots m this).foldl (fun m s => slot s.1 m s.2) m')
        (getFileHeader m this + 0x14).toNat 2 = load m' (getFileHeader m this + 0x14).toNat 2 := by
      apply load_congr
      intro b hb hn
      apply foldl_other hl
      intro s hs
      have := hw.flag s hs
      omega
    rw [read16, read16, hload]
  have hbit : read16 m (getFileHeader m this + 0x14) &&& 1 = 0 := by
    simpa [isRelocated] using hunrelocated
  rw [unrelocate_relocate_eq hw hcount, read16_setRelocated, hkeep unrelocateSlot_local,
    read16_setRelocated, hkeep relocateSlot_local]
  exact flag_restored _ hbit

theorem unrelocate_relocate_other {m : Bytes} {this : Ptr} {size : ℕ} (hw : WellFormed m this size)
    (hcount : sectionCount m this ≠ 0) (b : ℕ)
    (hflag : b < (getFileHeader m this + 0x14).toNat ∨ (getFileHeader m this + 0x14).toNat + 2 ≤ b)
    (hslots : ∀ s ∈ slots m this, b < s.2.toNat ∨ s.2.toNat + 8 ≤ b) :
    unrelocate (relocate m this) this b = m b := by
  rw [unrelocate_relocate_eq hw hcount, setRelocated_other _ _ _ _ hflag,
    foldl_other unrelocateSlot_local _ _ _ hslots, setRelocated_other _ _ _ _ hflag,
    foldl_other relocateSlot_local _ _ _ hslots]

def slotImage (v : BitVec 8) : Bytes := fun b =>
  if b = 0x1024 then 0x20
  else if b = 0x1028 then 1
  else if b = 0x1044 then 1
  else if b = 0x1048 then 0x50
  else if b = 0x104c then 1
  else if b = 0x104e then 1
  else if b = 0x1050 then v
  else 0

theorem slotImage_slots : ∀ v ∈ ([8, 0x50] : List (BitVec 8)),
    slots (slotImage v) 0x1020 = [(0x1000, 0x1050)] := by
  intro v hv
  simp only [List.mem_cons, List.not_mem_nil, or_false] at hv
  rcases hv with rfl | rfl
  · decide +kernel
  · decide +kernel

theorem slotImage_table : ∀ v ∈ ([8, 0x50] : List (BitVec 8)), sectionCount (slotImage v) 0x1020 = 1 ∧
    ResSection.entryIndices (slotImage v) (getSection 0x1020 (BitVec.ofNat 32 0)) = [0] ∧
      offsetFromHeader (slotImage v) 0x1020 = 0x20 ∧ getFileHeader (slotImage v) 0x1020 = 0x1000 ∧
        isRelocated (slotImage v) 0x1000 = false := by
  intro v hv
  simp only [List.mem_cons, List.not_mem_nil, or_false] at hv
  rcases hv with rfl | rfl
  · decide +kernel
  · decide +kernel

theorem slotImage_wellFormed (v : BitVec 8) (hv : v ∈ ([8, 0x50] : List (BitVec 8))) :
    WellFormed (slotImage v) 0x1020 0x30 := by
  obtain ⟨hcount, hindices, hoffset, hheader, -⟩ := slotImage_table v hv
  refine ⟨by decide, by decide, by rw [hcount]; decide, ?_, by rw [hoffset]; decide, ?_, ?_, ?_⟩
  · intro i hi e he
    rw [hcount] at hi ⊢
    obtain rfl : i = 0 := Nat.lt_one_iff.mp hi
    rw [hindices] at he
    obtain rfl := List.mem_singleton.mp he
    decide
  · rw [slotImage_slots v hv]
    simp
  · rw [slotImage_slots v hv, hheader]
    simp
  · rw [slotImage_slots v hv]
    simp

theorem slotImage_not_restored :
    WellFormed (slotImage 8) 0x1020 0x30 ∧
      isRelocated (slotImage 8) (getFileHeader (slotImage 8) 0x1020) = false ∧
      unrelocate (relocate (slotImage 8) 0x1020) 0x1020 ≠ slotImage 8 := by
  obtain ⟨hcount, -, -, hheader, hflag⟩ := slotImage_table 8 (by simp)
  refine ⟨slotImage_wellFormed 8 (by simp), by rw [hheader, hflag], fun h => ?_⟩
  have hslot := unrelocate_relocate_slot (slotImage_wellFormed 8 (by simp)) (by rw [hcount]; decide) (0x1000, 0x1050)
    (by rw [slotImage_slots 8 (by simp)]; exact List.mem_singleton_self _)
  rw [h] at hslot
  revert hslot
  decide +kernel

theorem unrelocate_relocate_empty {m : Bytes} {this : Ptr} {size : ℕ} (hw : WellFormed m this size)
    (hcount : sectionCount m this = 0) :
    isRelocated (unrelocate (relocate m this) this) (getFileHeader m this) = true := by
  have hrefl : SameTable m this size m := fun _ _ _ => rfl
  obtain ⟨hcount₁, hheader₁, -⟩ := (hrefl.setRelocated hw true).header hw
  rw [relocate, if_pos hcount, unrelocate, hcount₁, if_pos hcount, hheader₁, isRelocated_setRelocated]

/-- Unrelocating restores an unrelocated image exactly when the table has a section and every
slot already holds the distance of its own address from the file base. -/
theorem unrelocate_relocate_iff (m : Bytes) (this : Ptr) (size : ℕ) (hw : WellFormed m this size)
    (hunrelocated : isRelocated m (getFileHeader m this) = false) :
    unrelocate (relocate m this) this = m ↔ sectionCount m this ≠ 0 ∧
      ∀ s ∈ slots m this, read64 m s.2 = if s.2 ≠ 0 then s.2 - s.1 else 0 := by
  constructor
  · intro h
    have hcount : sectionCount m this ≠ 0 := by
      intro hzero
      have hflag := unrelocate_relocate_empty hw hzero
      rw [h, hunrelocated] at hflag
      cases hflag
    refine ⟨hcount, fun s hs => ?_⟩
    have hslot := unrelocate_relocate_slot hw hcount s hs
    rw [h] at hslot
    exact hslot
  · rintro ⟨hcount, hslots⟩
    funext b
    by_cases hb : ∀ s ∈ slots m this, b < s.2.toNat ∨ s.2.toNat + 8 ≤ b
    · by_cases hf : b < (getFileHeader m this + 0x14).toNat ∨ (getFileHeader m this + 0x14).toNat + 2 ≤ b
      · exact unrelocate_relocate_other hw hcount b hf hb
      · have hread := unrelocate_relocate_flag hw hcount hunrelocated
        rw [not_or, not_lt, not_le] at hf
        exact bytes_of_read16 hread b hf.1 hf.2
    · push Not at hb
      obtain ⟨s, hs, hlo, hhi⟩ := hb
      have hread : read64 (unrelocate (relocate m this) this) s.2 = read64 m s.2 := by
        rw [unrelocate_relocate_slot hw hcount s hs, hslots s hs]
        rfl
      exact bytes_of_read64 hread b hlo hhi

theorem unrelocate_relocate_slotImage :
    unrelocate (relocate (slotImage 0x50) 0x1020) 0x1020 = slotImage 0x50 := by
  obtain ⟨hcount, -, -, hheader, hflag⟩ := slotImage_table 0x50 (by simp)
  apply (unrelocate_relocate_iff (slotImage 0x50) 0x1020 0x30 (slotImage_wellFormed 0x50 (by simp))
    (by rw [hheader, hflag])).mpr
  refine ⟨by rw [hcount]; decide, ?_⟩
  rw [slotImage_slots 0x50 (by simp)]
  intro s hs
  obtain rfl := List.mem_singleton.mp hs
  decide +kernel

end Awn.Relocation
