import Awn.Handles.Table
import Mathlib.Data.List.Perm.Subperm

/-! The functions of a table, by the handles that are live. -/

namespace Awn.Handles

variable {Obj : Type*}

structure Compares (same_serial : BitVec 32 → BitVec 16 → Bool)
    (compared : BitVec 32 → BitVec 32) : Prop where
  index : ∀ handle, indexOf (compared handle) = indexOf handle
  same : ∀ handle counter, counter.toNat < 2 ^ 15 →
    (same_serial handle counter = true ↔ serialOf (compared handle) = counter.toNat)
  eq : ∀ handle, serialOf handle < 2 ^ 15 → compared handle = handle

variable {cMaxHandles : ℕ} {s : State Obj} {free : List ℕ} {handle : BitVec 32}
  {same_serial : BitVec 32 → BitVec 16 → Bool} {compared : BitVec 32 → BitVec 32}

theorem load_eq {α : Type*} (array : ℕ → α) {i : ℕ} (h : i < cMaxHandles) :
    load cMaxHandles array i = some (array i) := if_pos h

theorem load_behind {α : Type*} (array : ℕ → α) : load cMaxHandles array cMaxHandles = none :=
  if_neg (Nat.lt_irrefl _)

def freed (table : HandleTable Obj) (index : ℕ) : HandleTable Obj where
  m_object_array := Function.update table.m_object_array index none
  m_counter_array := Function.update table.m_counter_array index (table.m_indice_iter.setWidth 16)
  m_indice_iter := BitVec.ofNat 32 index
  m_active_handles := table.m_active_handles - 1
  m_counter_value := table.m_counter_value

namespace State.Inv

theorem counter_lt (h : s.Inv cMaxHandles free) {i : ℕ} {object : Obj} (hi : i < cMaxHandles)
    (hobject : s.table.m_object_array i = some object) :
    (s.table.m_counter_array i).toNat < 2 ^ 15 := by
  have hserial := h.serial i hi (by rw [hobject]; exact Option.some_ne_none _)
  have hcount := h.count
  omega

theorem live_of_form (h : s.Inv cMaxHandles free) (hform : handle = 0 ∨ handle >>> 15 = 0) :
    s.live handle = none := by
  by_contra hlive
  have hserial := h.serialOf_live hlive
  rcases hform with rfl | hshift
  · exact absurd hserial.1 (by decide)
  · rw [shift_eq_zero_iff] at hshift
    omega

theorem get_eq (h : s.Inv cMaxHandles free) (hcompares : Compares same_serial compared)
    (hne : serialOf handle ≠ 0 → serialOf handle < 2 ^ 15 → indexOf handle ≠ cMaxHandles) :
    s.table.getObjectByHandle cMaxHandles same_serial handle = some (s.live handle) := by
  unfold HandleTable.getObjectByHandle
  by_cases hform : handle >>> 30 ≠ 0 ∨ handle = 0 ∨ handle >>> 15 = 0
  · rw [if_pos hform]
    rcases hform with htop | hform
    · cases hlive : s.live handle with
      | none => rfl
      | some object =>
        have hserial := h.serialOf_live (by rw [hlive]; exact Option.some_ne_none _)
        exact absurd ((reserved_eq_zero_iff handle).mpr hserial.2) htop
    · rw [h.live_of_form hform]
  · rw [if_neg hform]
    obtain ⟨htop, hform⟩ := not_or.mp hform
    obtain ⟨-, hshift⟩ := not_or.mp hform
    rw [not_not, reserved_eq_zero_iff] at htop
    rw [shift_eq_zero_iff] at hshift
    have hne := hne hshift htop
    dsimp only
    rw [toNat_and_index]
    by_cases hbehind : cMaxHandles < indexOf handle
    · rw [if_pos hbehind, h.live_eq_none (by omega)]
    · have hindex : indexOf handle < cMaxHandles := by omega
      rw [if_neg hbehind, load_eq _ hindex, load_eq _ hindex, Option.bind_some]
      cases hobject : s.table.m_object_array (indexOf handle) with
      | none =>
        have hlive : s.live handle = none := by
          cases hlive : s.live handle with
          | none => rfl
          | some object =>
            rw [((h.live_iff handle object).mp hlive).2.1] at hobject
            cases hobject
        rw [hlive, ite_self]
      | some object =>
        have hsame := hcompares.same handle _ (h.counter_lt hindex hobject)
        rw [hcompares.eq handle htop] at hsame
        by_cases hserial : serialOf handle = (s.table.m_counter_array (indexOf handle)).toNat
        · rw [if_pos (hsame.mpr hserial), h.live_eq hindex hserial.symm, hobject]
        · rw [if_neg (fun h => hserial (hsame.mp h)),
            h.live_eq_none (fun h => hserial h.2.symm)]

theorem free_live (h : s.Inv cMaxHandles free) (hcompares : Compares same_serial compared)
    (hlive : s.live (compared handle) ≠ none) :
    s.table.freeHandle cMaxHandles same_serial handle =
      some (true, freed s.table (indexOf handle)) := by
  obtain ⟨object, hobject⟩ := Option.ne_none_iff_exists'.mp hlive
  obtain ⟨hindex, hslot, hserial⟩ := (h.live_iff _ object).mp hobject
  have hrange := h.serialOf_live hlive
  rw [hcompares.index] at hindex hslot hserial
  have hnonzero : serialOf handle ≠ 0 := by
    intro hzero
    rw [hcompares.eq handle (by omega)] at hrange
    omega
  have hform : ¬(handle = 0 ∨ handle >>> 15 = 0) := by
    rintro (rfl | hshift)
    · exact hnonzero rfl
    · exact hnonzero ((shift_eq_zero_iff handle).mp hshift)
  unfold HandleTable.freeHandle
  rw [if_neg hform]
  dsimp only
  rw [toNat_and_index, if_neg (by omega), load_eq _ hindex, Option.bind_some, hslot,
    if_neg (by simp), load_eq _ hindex, Option.map_some,
    if_pos ((hcompares.same handle _ (h.counter_lt hindex hslot)).mpr hserial.symm)]
  rfl

theorem free_dead (h : s.Inv cMaxHandles free) (hcompares : Compares same_serial compared)
    (hlive : s.live (compared handle) = none)
    (hne : serialOf handle ≠ 0 → indexOf handle ≠ cMaxHandles) :
    s.table.freeHandle cMaxHandles same_serial handle = some (false, s.table) := by
  unfold HandleTable.freeHandle
  by_cases hform : handle = 0 ∨ handle >>> 15 = 0
  · rw [if_pos hform]
  · rw [if_neg hform]
    obtain ⟨-, hshift⟩ := not_or.mp hform
    rw [shift_eq_zero_iff] at hshift
    have hne := hne hshift
    dsimp only
    rw [toNat_and_index]
    by_cases hbehind : cMaxHandles < indexOf handle
    · rw [if_pos hbehind]
    · have hindex : indexOf handle < cMaxHandles := by omega
      rw [if_neg hbehind, load_eq _ hindex, load_eq _ hindex, Option.bind_some, Option.map_some]
      cases hobject : s.table.m_object_array (indexOf handle) with
      | none => rfl
      | some object =>
        have hsame : ¬same_serial handle (s.table.m_counter_array (indexOf handle)) = true := by
          intro hsame
          rw [hcompares.same handle _ (h.counter_lt hindex hobject)] at hsame
          rw [(h.live_iff _ object).mpr ⟨by rw [hcompares.index]; exact hindex,
            by rw [hcompares.index]; exact hobject, by rw [hcompares.index]; exact hsame.symm⟩]
            at hlive
          cases hlive
        rw [if_neg (by simp), if_neg hsame]

theorem free_inv (h : s.Inv cMaxHandles free) (hlive : s.live handle ≠ none) :
    State.Inv cMaxHandles
      ⟨freed s.table (indexOf handle), Function.update s.live handle none, s.issued⟩
      (indexOf handle :: free) := by
  obtain ⟨object, hobject⟩ := Option.ne_none_iff_exists'.mp hlive
  obtain ⟨hindex, hslot, hserial⟩ := (h.live_iff _ object).mp hobject
  have hsize := h.size
  have hunused : indexOf handle ∉ free := by
    intro hmem
    rw [((h.mem_free _).mp hmem).2] at hslot
    cases hslot
  have hnodup : (indexOf handle :: free).Nodup := List.nodup_cons.mpr ⟨hunused, h.nodup⟩
  have hlength : (indexOf handle :: free).length ≤ (List.range cMaxHandles).length := by
    apply (List.subperm_of_subset hnodup ?_).length_le
    intro i hi
    rw [List.mem_range]
    rcases List.mem_cons.mp hi with rfl | hi
    · exact hindex
    · exact ((h.mem_free i).mp hi).1
  rw [List.length_cons, List.length_range] at hlength
  -- the link to the old start of the list keeps its sign in 16 bits
  have hlink : (s.table.m_indice_iter.setWidth 16).signExtend 32 = s.table.m_indice_iter := by
    have hlist := h.list
    cases free with
    | nil =>
      rw [show s.table.m_indice_iter = -1 from hlist]
      rfl
    | cons i rest =>
      obtain ⟨hiter, hi, -⟩ := hlist
      have hwidth : (s.table.m_indice_iter.setWidth 16).toNat = i := by
        rw [BitVec.toNat_setWidth, hiter]
        omega
      have hpos : (s.table.m_indice_iter.setWidth 16).msb = false := by
        rw [BitVec.msb_eq_decide, decide_eq_false_iff_not, hwidth]
        omega
      rw [BitVec.signExtend_eq_setWidth_of_msb_false hpos]
      apply BitVec.eq_of_toNat_eq
      rw [BitVec.toNat_setWidth, hwidth, hiter]
      omega
  constructor
  · exact hsize
  · refine ⟨?_, hindex, ?_⟩
    · show (BitVec.ofNat 32 (indexOf handle)).toNat = indexOf handle
      rw [BitVec.toNat_ofNat]
      omega
    · have hself : (freed s.table (indexOf handle)).m_counter_array (indexOf handle) =
          s.table.m_indice_iter.setWidth 16 := Function.update_self _ _ _
      rw [hself, hlink]
      apply h.list.congr
      intro i hi
      have hne : i ≠ indexOf handle := by
        rintro rfl
        exact hunused hi
      exact Function.update_of_ne hne _ _
  · exact hnodup
  · intro i
    show i ∈ indexOf handle :: free ↔ i < cMaxHandles ∧
      Function.update s.table.m_object_array (indexOf handle) none i = none
    rw [List.mem_cons, h.mem_free]
    by_cases hi : i = indexOf handle
    · rw [hi, Function.update_self]
      exact ⟨fun _ => ⟨hindex, rfl⟩, fun _ => Or.inl rfl⟩
    · rw [Function.update_of_ne hi]
      exact ⟨fun h => h.resolve_left hi, Or.inr⟩
  · show (s.table.m_active_handles - 1).toNat + (indexOf handle :: free).length = cMaxHandles
    have hactive := h.active
    have hone : (1 : BitVec 16).toNat = 1 := rfl
    rw [BitVec.toNat_sub_of_le (by rw [BitVec.le_def, hone]; omega), hone, List.length_cons]
    omega
  · intro handle' object'
    show Function.update s.live handle none handle' = some object' ↔
      indexOf handle' < cMaxHandles ∧
        Function.update s.table.m_object_array (indexOf handle) none (indexOf handle') =
          some object' ∧
        (Function.update s.table.m_counter_array (indexOf handle)
          (s.table.m_indice_iter.setWidth 16) (indexOf handle')).toNat = serialOf handle'
    by_cases hsame : indexOf handle' = indexOf handle
    · rw [hsame, Function.update_self]
      constructor
      · intro hupdate
        by_cases heq : handle' = handle
        · rw [heq, Function.update_self] at hupdate
          cases hupdate
        · rw [Function.update_of_ne heq, h.live_iff, hsame] at hupdate
          exact absurd (handle_eq hsame (hupdate.2.2.symm.trans hserial)) heq
      · rintro ⟨-, hnone, -⟩
        cases hnone
    · have hne : handle' ≠ handle := fun heq => hsame (congrArg indexOf heq)
      rw [Function.update_of_ne hne, Function.update_of_ne hsame, Function.update_of_ne hsame]
      exact h.live_iff handle' object'
  · intro i hi hne
    have hother : i ≠ indexOf handle := by
      rintro rfl
      exact hne (Function.update_self _ _ _)
    show 1 ≤ (Function.update s.table.m_counter_array (indexOf handle)
        (s.table.m_indice_iter.setWidth 16) i).toNat ∧
      (Function.update s.table.m_counter_array (indexOf handle)
        (s.table.m_indice_iter.setWidth 16) i).toNat ≤ s.issued.length
    rw [Function.update_of_ne hother]
    apply h.serial i hi
    intro hnone
    exact hne ((Function.update_of_ne hother _ _).trans hnone)
  · exact h.issued_le
  · exact h.count
  · exact h.next

theorem reserve_full (h : s.Inv cMaxHandles []) (object : Obj) :
    s.table.reserveHandle cMaxHandles object = some (none, s.table) :=
  if_pos (Nat.le_of_eq h.active.symm)

theorem reserve_some {i : ℕ} {rest : List ℕ} (h : s.Inv cMaxHandles (i :: rest))
    (hcount : s.issued.length < 0x7fff) (object : Obj) :
    ∃ handle table, s.table.reserveHandle cMaxHandles object = some (some handle, table) ∧
      handle ∉ s.issued ∧
        State.Inv cMaxHandles
          ⟨table, Function.update s.live handle (some object), handle :: s.issued⟩ rest := by
  obtain ⟨hiter, hi, hrest⟩ := h.list
  have hsize := h.size
  have hactive := h.active
  have hnext := h.next hcount
  rw [List.length_cons] at hactive
  have hindex : (s.table.m_indice_iter.setWidth 16).toNat = i := by
    rw [BitVec.toNat_setWidth, hiter]
    omega
  obtain ⟨hnotin, hnodup⟩ := List.nodup_cons.mp h.nodup
  have hnone := ((h.mem_free i).mp List.mem_cons_self).2
  obtain ⟨handle, hhandle⟩ : ∃ handle, (s.table.m_indice_iter.setWidth 16 &&& 0x7fff).setWidth 32 |||
      s.table.m_counter_value.setWidth 32 <<< 15 = handle := ⟨_, rfl⟩
  have hat : indexOf handle = i := by
    rw [← hhandle, indexOf_pack (by omega) (by omega), hindex]
  have hof : serialOf handle = s.issued.length + 1 := by
    rw [← hhandle, serialOf_pack (by omega) (by omega), hnext]
  have hnew : handle ∉ s.issued := by
    intro hmem
    have hle := h.issued_le handle hmem
    omega
  have hreserve : s.table.reserveHandle cMaxHandles object = some (some handle,
      { m_counter_array := Function.update s.table.m_counter_array i s.table.m_counter_value
        m_object_array := Function.update s.table.m_object_array i (some object)
        m_indice_iter := (s.table.m_counter_array i).signExtend 32
        m_active_handles := s.table.m_active_handles + 1
        m_counter_value := HandleTable.nextCounter s.table.m_counter_value }) := by
    unfold HandleTable.reserveHandle
    rw [if_neg (by omega)]
    dsimp only
    rw [hindex, load_eq _ hi, Option.map_some, hhandle]
  refine ⟨handle, _, hreserve, hnew, ?_⟩
  constructor
  · exact hsize
  · apply hrest.congr
    intro j hj
    have hne : j ≠ i := by
      rintro rfl
      exact hnotin hj
    exact Function.update_of_ne hne _ _
  · exact hnodup
  · intro j
    show j ∈ rest ↔ j < cMaxHandles ∧
      Function.update s.table.m_object_array i (some object) j = none
    by_cases hj : j = i
    · rw [hj, Function.update_self]
      exact ⟨fun hmem => absurd hmem hnotin, fun hmem => absurd hmem.2 (Option.some_ne_none _)⟩
    · rw [Function.update_of_ne hj, ← h.mem_free, List.mem_cons]
      exact ⟨Or.inr, fun hmem => hmem.resolve_left hj⟩
  · show (s.table.m_active_handles + 1).toNat + rest.length = cMaxHandles
    have hone : (1 : BitVec 16).toNat = 1 := rfl
    rw [BitVec.toNat_add, hone]
    omega
  · intro handle' object'
    show Function.update s.live handle (some object) handle' = some object' ↔
      indexOf handle' < cMaxHandles ∧
        Function.update s.table.m_object_array i (some object) (indexOf handle') = some object' ∧
        (Function.update s.table.m_counter_array i s.table.m_counter_value
          (indexOf handle')).toNat = serialOf handle'
    by_cases hsame : indexOf handle' = i
    · rw [hsame, Function.update_self, Function.update_self, hnext]
      constructor
      · intro hupdate
        by_cases heq : handle' = handle
        · rw [heq, Function.update_self] at hupdate
          exact ⟨hi, hupdate, by rw [heq, hof]⟩
        · rw [Function.update_of_ne heq, h.live_iff, hsame, hnone] at hupdate
          cases hupdate.2.1
      · rintro ⟨-, hobject, hserial⟩
        have heq : handle' = handle :=
          handle_eq (hsame.trans hat.symm) (hserial.symm.trans hof.symm)
        rw [heq, Function.update_self]
        exact hobject
    · have hne : handle' ≠ handle := fun heq => hsame ((congrArg indexOf heq).trans hat)
      rw [Function.update_of_ne hne, Function.update_of_ne hsame, Function.update_of_ne hsame]
      exact h.live_iff handle' object'
  · intro j hj hne
    show 1 ≤ (Function.update s.table.m_counter_array i s.table.m_counter_value j).toNat ∧
      (Function.update s.table.m_counter_array i s.table.m_counter_value j).toNat ≤
        s.issued.length + 1
    by_cases heq : j = i
    · rw [heq, Function.update_self, hnext]
      omega
    · rw [Function.update_of_ne heq]
      have hserial := h.serial j hj fun hold => hne ((Function.update_of_ne heq _ _).trans hold)
      omega
  · intro handle' hmem
    rcases List.mem_cons.mp hmem with rfl | hmem
    · exact Nat.le_of_eq hof
    · exact Nat.le_succ_of_le (h.issued_le handle' hmem)
  · exact hcount
  · intro hmore
    show (HandleTable.nextCounter s.table.m_counter_value).toNat = s.issued.length + 1 + 1
    have hmore' : s.issued.length + 1 < 0x7fff := hmore
    have hone : (1 : BitVec 16).toNat = 1 := rfl
    have hsum : (s.table.m_counter_value + 1).toNat = s.issued.length + 1 + 1 := by
      rw [BitVec.toNat_add, hone, hnext]
      omega
    have hpos : -1 < (s.table.m_counter_value + 1).toInt := by
      rw [BitVec.toInt_eq_toNat_of_lt (by omega)]
      omega
    rw [HandleTable.nextCounter, if_pos hpos, hsum]

end State.Inv

theorem free_behind {table : HandleTable Obj} (hserial : serialOf handle ≠ 0)
    (hindex : indexOf handle = cMaxHandles) :
    table.freeHandle cMaxHandles same_serial handle = none := by
  have hform : ¬(handle = 0 ∨ handle >>> 15 = 0) := by
    rintro (rfl | hshift)
    · exact hserial rfl
    · exact hserial ((shift_eq_zero_iff handle).mp hshift)
  unfold HandleTable.freeHandle
  rw [if_neg hform]
  dsimp only
  rw [toNat_and_index, hindex, if_neg (Nat.lt_irrefl _), load_behind, Option.bind_none]

theorem get_behind {table : HandleTable Obj} (hserial : serialOf handle ≠ 0)
    (hsmall : serialOf handle < 2 ^ 15) (hindex : indexOf handle = cMaxHandles) :
    table.getObjectByHandle cMaxHandles same_serial handle = none := by
  have hform : ¬(handle >>> 30 ≠ 0 ∨ handle = 0 ∨ handle >>> 15 = 0) := by
    rintro (htop | rfl | hshift)
    · exact htop ((reserved_eq_zero_iff handle).mpr hsmall)
    · exact hserial rfl
    · exact hserial ((shift_eq_zero_iff handle).mp hshift)
  unfold HandleTable.getObjectByHandle
  rw [if_neg hform]
  dsimp only
  rw [toNat_and_index, hindex, if_neg (Nat.lt_irrefl _), load_behind, Option.bind_none]

end Awn.Handles
