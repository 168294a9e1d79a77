import Awn.VirtualAddressHeap.Adjust
import Awn.VirtualAddressHeap.TryAllocate

/-! What holds over the calls of a run. -/

namespace Awn.VirtualAddressHeap

variable {V : Type} {M : VirtualMemory V} {s s' : State V}

def Meets (s : State V) : Call → Prop
  | .TryAllocate size k =>
    (Request.of size (BitVec.ofNat 64 (2 ^ k))).Large ∨
      Recordable s (Request.of size (BitVec.ofNat 64 (2 ^ k)))
  | .Free _ => True
  | .AdjustAllocation address new_size =>
    ∀ a ∈ s.live, a.address = address → Trimmable s a new_size
  | .GetSizeOfAllocation _ => True

theorem Valid.create (hM : M.Exact) {v v' : V} {ullAvailPhys home : ℕ} {heap : VirtualAddressHeap}
    (h : Create M v ullAvailPhys = some (home, heap, v')) :
    Valid M ⟨heap, home, v', [], ∅⟩ ∧ NoEmpty ⟨heap, home, v', [], ∅⟩ := by
  unfold Create at h
  obtain ⟨-, -, hrest⟩ := Option.bind_eq_some_iff.mp h
  obtain ⟨⟨reserve, v₁⟩, hreserve, hrest⟩ := Option.bind_eq_some_iff.mp hrest
  obtain ⟨v₂, hcommit, hrest⟩ := Option.bind_eq_some_iff.mp hrest
  cases hrest
  obtain ⟨-, haligned, -, hreserved₁, -⟩ := hM.reserve hreserve
  obtain ⟨-, -, hreserved, hcommitted⟩ := hM.commit hcommit
  have hmem : ∀ {base}, base ∈ [home] → base = home := fun h => List.mem_singleton.mp h
  refine ⟨?_, fun base _ => show (1 : PageMask) ≠ 0 by decide⟩
  exact
    { filled := rfl
      nodup := List.pairwise_singleton _ _
      home := List.mem_cons_self
      last := show (1 : PageMask).getLsbD 15 = false by decide
      aligned := fun base hbase => by
        rw [hmem hbase]
        exact haligned
      reserved := fun base hbase => by
        rw [hmem hbase]
        change _ ∈ M.reserved v'
        rw [hreserved, hreserved₁]
        exact Set.mem_insert _ _
      heads := fun base hbase => by
        rw [hmem hbase]
        change _ ∈ M.committed v'
        rw [hcommitted]
        refine Set.mem_union_right _ ?_
        obtain ⟨q, rfl⟩ := haligned
        rw [mem_pagesOf]
        unfold c64KB c4KB
        omega
      small := fun _ _ => rfl
      large := fun key size hkey => by cases hkey
      placed := fun a ha => absurd ha List.not_mem_nil
      committed := fun a ha => absurd ha List.not_mem_nil
      disjoint := .nil
      mask := fun base hbase j hj => by
        rw [hmem hbase]
        have hone : (1 : PageMask).getLsbD j = true ↔ j = 0 := by
          rw [BitVec.ofNat_eq_ofNat, BitVec.getLsbD_one]
          simp
        refine hone.trans ⟨fun hj => .inr ⟨rfl, hj⟩, ?_⟩
        rintro (⟨a, ha, -⟩ | ⟨-, hj⟩)
        · exact absurd ha List.not_mem_nil
        · exact hj }

theorem Valid.step (hM : M.Exact) (hvalid : Valid M s) (hne : NoEmpty s) {c : Call}
    (hallowed : c.Allowed s) (hmeets : Meets s c) (hstep : s.step M c = some s') :
    Valid M s' ∧ NoEmpty s' ∧ s'.freed = M.committed s.memory \ M.committed s'.memory := by
  cases c with
  | TryAllocate size k =>
    obtain ⟨⟨a, heap, v⟩, hcall, hrest⟩ := Option.bind_eq_some_iff.mp hstep
    cases hrest
    obtain ⟨hvalid', hne'⟩ := hvalid.tryAllocate hM hne hmeets hcall
    exact ⟨hvalid', hne', rfl⟩
  | Free address =>
    obtain ⟨⟨heap, v⟩, hcall, hrest⟩ := Option.bind_eq_some_iff.mp hstep
    cases hrest
    obtain ⟨a, ha, rfl⟩ := hallowed
    obtain ⟨hvalid', hne'⟩ := hvalid.free hM hne ha hcall
    exact ⟨hvalid', hne', rfl⟩
  | AdjustAllocation address new_size =>
    obtain ⟨r, hcall, hrest⟩ := Option.bind_eq_some_iff.mp hstep
    cases hrest
    obtain ⟨a, ha, rfl⟩ := hallowed
    obtain ⟨hvalid', hne'⟩ := hvalid.adjust hM hne ha (hmeets a ha rfl) hcall
    exact ⟨hvalid', hne', rfl⟩
  | GetSizeOfAllocation address =>
    obtain ⟨size, -, hrest⟩ := Option.bind_eq_some_iff.mp hstep
    cases hrest
    exact ⟨hvalid.same, hne, rfl⟩

theorem reaches_valid (hM : M.Exact) (h : Reaches M Meets s) :
    Valid M s ∧ NoEmpty s ∧ ∀ a ∈ s.live, Disjoint s.freed a.pages := by
  induction h with
  | create hcreate =>
    obtain ⟨hvalid, hne⟩ := Valid.create hM hcreate
    exact ⟨hvalid, hne, fun a ha => absurd ha List.not_mem_nil⟩
  | step h hallowed hmeets hstep ih =>
    obtain ⟨hvalid, hne, -⟩ := ih
    obtain ⟨hvalid', hne', hfreed⟩ := hvalid.step hM hne hallowed hmeets hstep
    refine ⟨hvalid', hne', ?_⟩
    intro a ha
    rw [hfreed]
    exact Set.disjoint_sdiff_left.mono_right (hvalid'.committed a ha)

/-- The bookkeeping of the pages holds throughout a run whose calls all meet the condition. -/
theorem reaches_holds (hM : M.Exact) (h : Reaches M Meets s) : Holds M s := by
  obtain ⟨hvalid, -, hkept⟩ := reaches_valid hM h
  exact hvalid.holds hM hkept

theorem reaches_holds_cut : ∃ s, Reaches addressSpace Meets s ∧
    s.live.map (fun a => (a.address, a.stop)) = [(0x11000, 0x13000)] ∧ Holds addressSpace s := by
  have hcreate : Reaches addressSpace Meets _ :=
    .create (show Create addressSpace .empty 0x10000 = _ from rfl)
  have hfirst := hcreate.step (c := .TryAllocate 0x3000 3) (show 3 < 31 by decide) (.inr (by
    constructor
    · intro l₁ base l₂ hsplit hset
      exact absurd (show (1 : PageMask).getLsbD 15 = true from hset) (by decide)
    · refine .inr ⟨[], 0x10000, [], rfl, fun b hb => absurd hb List.not_mem_nil, ?_, ?_⟩
      · intro hfront
        exact absurd (show (1 : PageMask).getLsbD 0 = false from hfront 0 le_rfl (by decide))
          (by decide)
      · refine ⟨0, 1, rfl, by decide, by decide, ?_⟩
        intro j hj hlt
        have hlt' : j < 4 := hlt
        interval_cases j <;> rfl)) rfl
  have hcut := hfirst.step (c := .AdjustAllocation 0x11000 0x2000) ⟨_, .head _, rfl⟩ (by
    intro a ha _
    obtain rfl := List.mem_singleton.mp ha
    refine ⟨fun h => absurd h (by decide), fun _ => .inr (.inr ?_)⟩
    rintro p ⟨hp, ⟨b, hb, hpb⟩ | ⟨base, hbase, rfl⟩⟩
    · obtain rfl := List.mem_singleton.mp hb
      exact hpb
    · obtain rfl := List.mem_singleton.mp hbase
      exact absurd (show 0x14000 < 17 * 0x1000 ∧ _ from hp).1 (by decide)) rfl
  exact ⟨_, hcut, rfl, reaches_holds AddressSpace.exact hcut⟩

theorem adjustAllocation_decommits : addressSpace.Exact ∧
    ∃ s, Reaches addressSpace (fun _ _ => True) s ∧
      s.live.map (fun a => (a.address, a.stop)) = [(0x14000, 0x15000), (0x11000, 0x12000)] ∧
      s.memory.page 0x14 = false ∧ ¬Holds addressSpace s := by
  have hcreate : Reaches addressSpace (fun _ _ => True) _ :=
    .create (show Create addressSpace .empty 0x10000 = _ from rfl)
  have hfirst := hcreate.step (c := .TryAllocate 0x3000 3) (show 3 < 31 by decide) trivial rfl
  have hsecond := hfirst.step (c := .TryAllocate 8 3) (show 3 < 31 by decide) trivial rfl
  have hcut := hsecond.step (c := .AdjustAllocation 0x11000 0x1000) ⟨_, .tail _ (.head _), rfl⟩
    trivial rfl
  refine ⟨AddressSpace.exact, _, hcut, rfl, rfl, ?_⟩
  intro h
  have hpage := h.committed _ (.head _) (show 0x14 ∈ _ from ⟨by decide, by decide⟩)
  cases hpage

end Awn.VirtualAddressHeap
