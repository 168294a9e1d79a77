import Awn.TextureSampler.Manager

namespace Awn

open IntrusiveTree

structure Ledger (O : Type) where
  references : ℕ → ℕ
  registered : ℕ → Option O

namespace Ledger

variable {O : Type}

def empty : Ledger O := ⟨fun _ => 0, fun _ => none⟩

def register (l : Ledger O) (slot : ℕ) (object : O) : Ledger O :=
  ⟨Function.update l.references slot (l.references slot + 1),
    Function.update l.registered slot (some object)⟩

def reference (l : Ledger O) (slot : ℕ) : Ledger O :=
  { l with references := Function.update l.references slot (l.references slot + 1) }

def release (l : Ledger O) (slot : ℕ) : Ledger O :=
  ⟨Function.update l.references slot (l.references slot - 1),
    if l.references slot = 1 then Function.update l.registered slot none else l.registered⟩

structure Agrees (l : Ledger O) (table : FixedAtomicIndexAllocator 16) (capacity : ℕ)
    (count : ℕ → BitVec 32) (object : ℕ → Option O) : Prop where
  free : ∃ free, FixedAtomicIndexAllocator.FreeList table.m_handle_array table.m_next_index free ∧
    free.Nodup ∧ ∀ i, i ∈ free ↔ i < capacity ∧ l.references i = 0
  below : ∀ i, 0 < l.references i → i < capacity
  count : ∀ i, 0 < l.references i → (count i).toNat = l.references i
  object : object = l.registered
  registered : ∀ i, l.registered i = none ↔ l.references i = 0

variable {l : Ledger O} {table : FixedAtomicIndexAllocator 16} {capacity slot : ℕ}
  {count : ℕ → BitVec 32} {object : ℕ → Option O}

theorem agrees_empty {capacity : ℕ} (hpos : 0 < capacity) (hcapacity : capacity < 2 ^ 16)
    (count : ℕ → BitVec 32) :
    (empty : Ledger O).Agrees (.cleared capacity) capacity count fun _ => none := by
  constructor
  · refine ⟨List.range capacity, ?_, List.nodup_range, ?_⟩
    · exact FixedAtomicIndexAllocator.freeList_cleared (by omega) hcapacity hpos
    · intro i
      simp [empty]
  · intro i hi
    exact absurd hi (Nat.lt_irrefl 0)
  · intro i hi
    exact absurd hi (Nat.lt_irrefl 0)
  · rfl
  · intro i
    simp [empty]

theorem references_register_of_ne {o : O} {i : ℕ} (hi : i ≠ slot) :
    (l.register slot o).references i = l.references i := Function.update_of_ne hi _ _

theorem registered_register_of_ne {o : O} {i : ℕ} (hi : i ≠ slot) :
    (l.register slot o).registered i = l.registered i := Function.update_of_ne hi _ _

theorem references_reference_of_ne {i : ℕ} (hi : i ≠ slot) :
    (l.reference slot).references i = l.references i := Function.update_of_ne hi _ _

theorem references_release_of_ne {i : ℕ} (hi : i ≠ slot) :
    (l.release slot).references i = l.references i := Function.update_of_ne hi _ _

@[simp] theorem references_register_self (o : O) :
    (l.register slot o).references slot = l.references slot + 1 := Function.update_self _ _ _

@[simp] theorem references_reference_self :
    (l.reference slot).references slot = l.references slot + 1 := Function.update_self _ _ _

@[simp] theorem references_release_self :
    (l.release slot).references slot = l.references slot - 1 := Function.update_self _ _ _

theorem references_reference_pos (hlive : 0 < l.references slot) (i : ℕ) :
    0 < (l.reference slot).references i ↔ 0 < l.references i := by
  by_cases hi : i = slot
  · rw [hi, references_reference_self]
    omega
  · rw [references_reference_of_ne hi]

theorem references_release_pos (hlive : 0 < l.references slot) (hlast : l.references slot ≠ 1)
    (i : ℕ) : 0 < (l.release slot).references i ↔ 0 < l.references i := by
  by_cases hi : i = slot
  · rw [hi, references_release_self]
    omega
  · rw [references_release_of_ne hi]

theorem registered_release (hlast : l.references slot ≠ 1) :
    (l.release slot).registered = l.registered := if_neg hlast

theorem Agrees.register (h : l.Agrees table capacity count object)
    (hvalid : table.Allocate.1 ≠ FixedAtomicIndexAllocator.cInvalidHandle 16) (o : O) :
    (l.register table.Allocate.1.toNat o).Agrees
      table.Allocate.2 capacity (Function.update count table.Allocate.1.toNat 1)
      (Function.update object table.Allocate.1.toNat (some o)) := by
  obtain ⟨free, hfree, hnodup, hmem⟩ := h.free
  obtain ⟨i, rest, rfl⟩ := hfree.exists_cons hvalid
  obtain ⟨hi, hrest⟩ := hfree.allocate
  obtain ⟨hlt, hzero⟩ := (hmem i).mp List.mem_cons_self
  obtain ⟨hnot, hnodup⟩ := List.nodup_cons.mp hnodup
  rw [hi]
  refine ⟨⟨rest, hrest, hnodup, ?_⟩, ?_, ?_, ?_, ?_⟩
  · intro j
    by_cases hj : j = i
    · subst hj
      simp [hnot]
    · have := hmem j
      simp only [List.mem_cons, hj, false_or] at this
      rw [this, references_register_of_ne hj]
  · intro j hj
    by_cases hji : j = i
    · rw [hji]
      exact hlt
    · rw [references_register_of_ne hji] at hj
      exact h.below j hj
  · intro j hj
    by_cases hji : j = i
    · subst hji
      simp [hzero]
    · rw [references_register_of_ne hji] at hj ⊢
      rw [Function.update_of_ne hji]
      exact h.count j hj
  · rw [h.object]
    rfl
  · intro j
    by_cases hji : j = i
    · subst hji
      simp [Ledger.register]
    · rw [references_register_of_ne hji, registered_register_of_ne hji]
      exact h.registered j

theorem Agrees.recount {l' : Ledger O} {count' : ℕ → BitVec 32} (h : l.Agrees table capacity count object)
    (hpos : ∀ i, 0 < l'.references i ↔ 0 < l.references i) (hregistered : l'.registered = l.registered)
    (hcount : ∀ i, 0 < l.references i → (count' i).toNat = l'.references i) :
    l'.Agrees table capacity count' object := by
  have hzero : ∀ i, l'.references i = 0 ↔ l.references i = 0 := by
    intro i
    have := hpos i
    omega
  obtain ⟨free, hfree, hnodup, hmem⟩ := h.free
  refine ⟨⟨free, hfree, hnodup, ?_⟩, ?_, ?_, ?_, ?_⟩
  · intro i
    rw [hmem i, hzero i]
  · intro i hi
    exact h.below i ((hpos i).mp hi)
  · intro i hi
    exact hcount i ((hpos i).mp hi)
  · rw [hregistered]
    exact h.object
  · intro i
    rw [hregistered, hzero i]
    exact h.registered i

theorem Agrees.reference (h : l.Agrees table capacity count object) (hlive : 0 < l.references slot)
    (hcount : count slot + 1 ≠ 0) :
    (l.reference slot).Agrees table capacity (Function.update count slot (count slot + 1)) object := by
  apply h.recount (references_reference_pos hlive) rfl
  intro i hi
  by_cases hislot : i = slot
  · subst hislot
    rw [Function.update_self, references_reference_self]
    have hold := h.count i hlive
    have hlt := (count i).isLt
    have hnat : (count i + 1).toNat ≠ 0 := fun heq => hcount (BitVec.eq_of_toNat_eq heq)
    have hone : (1 : BitVec 32).toNat = 1 := rfl
    rw [BitVec.toNat_add, hone] at hnat ⊢
    omega
  · rw [Function.update_of_ne hislot, references_reference_of_ne hislot]
    exact h.count i hi

theorem Agrees.release (h : l.Agrees table capacity count object) (hlive : 0 < l.references slot)
    (hlast : l.references slot ≠ 1) :
    (l.release slot).Agrees table capacity (Function.update count slot (count slot - 1)) object := by
  apply h.recount (references_release_pos hlive hlast) (registered_release hlast)
  intro i hi
  by_cases hislot : i = slot
  · subst hislot
    rw [Function.update_self, references_release_self]
    have hold := h.count i hlive
    have hlt := (count i).isLt
    have hone : (1 : BitVec 32).toNat = 1 := rfl
    rw [BitVec.toNat_sub, hone]
    omega
  · rw [Function.update_of_ne hislot, references_release_of_ne hislot]
    exact h.count i hi

end Ledger

namespace TextureSamplerManager

variable {I V : Type}

structure State (I V : Type) where
  manager : TextureSamplerManager I V
  textures : Ledger I
  samplers : Ledger SamplerInfo

inductive Call (I V : Type)
  | RegisterTextureView (texture_info : I) (texture_view_info : Option (TextureViewInfo V))
  | RegisterTextureViewIn (gpu_texture_memory : BitVec 64) (texture_info : I)
      (texture_view_info : Option (TextureViewInfo V))
  | ReferenceTextureView (texture_slot : BitVec 64)
  | UnregisterTextureView (texture_slot : BitVec 64)
  | RegisterSampler (sampler_info : SamplerInfo)
  | ReferenceSampler (sampler_slot : BitVec 64)
  | UnregisterSampler (sampler_slot : BitVec 64)

inductive Step (GetMemoryRequirements : I → BitVec 64 × BitVec 64) :
    State I V → Call I V → State I V → Prop
  | RegisterTextureView {s : State I V} {texture_info : I}
      {texture_view_info : Option (TextureViewInfo V)} {fuel : ℕ}
      {r : BitVec 64 × TextureSamplerManager I V} :
      s.manager.RegisterTextureView GetMemoryRequirements fuel texture_info texture_view_info =
        some r →
      Step GetMemoryRequirements s (.RegisterTextureView texture_info texture_view_info)
        { s with manager := r.2, textures := s.textures.register r.1.toNat texture_info }
  | RegisterTextureViewIn {s : State I V} {gpu_texture_memory : BitVec 64} {texture_info : I}
      {texture_view_info : Option (TextureViewInfo V)} {r : BitVec 64 × TextureSamplerManager I V} :
      s.manager.RegisterTextureViewIn gpu_texture_memory texture_info texture_view_info = some r →
      Step GetMemoryRequirements s
        (.RegisterTextureViewIn gpu_texture_memory texture_info texture_view_info)
        { s with manager := r.2, textures := s.textures.register r.1.toNat texture_info }
  | ReferenceTextureView {s : State I V} {texture_slot : BitVec 64}
      {r : BitVec 64 × TextureSamplerManager I V} :
      0 < s.textures.references texture_slot.toNat →
      s.manager.ReferenceTextureView texture_slot = some r →
      Step GetMemoryRequirements s (.ReferenceTextureView texture_slot)
        { s with manager := r.2, textures := s.textures.reference r.1.toNat }
  | UnregisterTextureView {s : State I V} {texture_slot : BitVec 64} {fuel : ℕ}
      {m : TextureSamplerManager I V} : 0 < s.textures.references texture_slot.toNat →
      s.manager.UnregisterTextureView fuel texture_slot = some m →
      Step GetMemoryRequirements s (.UnregisterTextureView texture_slot)
        { s with manager := m, textures := s.textures.release texture_slot.toNat }
  | RegisterSampler {s : State I V} {sampler_info : SamplerInfo} {fuel : ℕ}
      {r : BitVec 64 × TextureSamplerManager I V} :
      s.manager.RegisterSampler fuel sampler_info = some r →
      Step GetMemoryRequirements s (.RegisterSampler sampler_info)
        { s with manager := r.2, samplers := s.samplers.register r.1.toNat sampler_info }
  | ReferenceSampler {s : State I V} {sampler_slot : BitVec 64}
      {r : BitVec 64 × TextureSamplerManager I V} :
      0 < s.samplers.references sampler_slot.toNat →
      s.manager.ReferenceSampler sampler_slot = some r →
      Step GetMemoryRequirements s (.ReferenceSampler sampler_slot)
        { s with manager := r.2, samplers := s.samplers.reference r.1.toNat }
  | UnregisterSampler {s : State I V} {sampler_slot : BitVec 64} {fuel : ℕ}
      {m : TextureSamplerManager I V} : 0 < s.samplers.references sampler_slot.toNat →
      s.manager.UnregisterSampler fuel sampler_slot = some m →
      Step GetMemoryRequirements s (.UnregisterSampler sampler_slot)
        { s with manager := m, samplers := s.samplers.release sampler_slot.toNat }

inductive Run (GetMemoryRequirements : I → BitVec 64 × BitVec 64)
    (allowed : State I V → Call I V → Prop) : State I V → Prop
  | start {heap : SeparateHeap} : Run GetMemoryRequirements allowed ⟨create heap, .empty, .empty⟩
  | step {s s' : State I V} {c : Call I V} : Run GetMemoryRequirements allowed s → allowed s c →
      Step GetMemoryRequirements s c s' → Run GetMemoryRequirements allowed s'

structure Contract (s : State I V) : Prop where
  textures : s.textures.Agrees s.manager.m_texture_handle_table cTargetMaxTextureDescriptorCount
    (fun i => (s.manager.m_texture_array i).reference_count)
    fun i => (s.manager.m_texture_array i).texture.map Prod.snd
  samplers : s.samplers.Agrees s.manager.m_sampler_handle_table cTargetMaxSamplerDescriptorCount
    (fun i => (s.manager.m_sampler_array i).reference_count)
    fun i => (s.manager.m_sampler_array i).sampler
  sampler_map : ∃ t, IsRedBlack s.manager.m_sampler_map t ∧
    (∀ i, i ∈ t.toList ↔ 0 < s.samplers.references i) ∧
    ∀ i sampler_info, s.samplers.registered i = some sampler_info →
      (s.manager.m_sampler_map.node i).key = HashSampler sampler_info
  shared : ∀ i j sampler_info, s.samplers.registered i = some sampler_info →
    s.samplers.registered j = some sampler_info → i = j

def Allowed (s : State I V) : Call I V → Prop
  | .UnregisterTextureView texture_slot =>
    (s.manager.m_texture_array texture_slot.toNat).reference_count ≠ 1 ∧
      (s.manager.m_texture_array texture_slot.toNat).reference_count ≠ 2
  | .UnregisterSampler sampler_slot =>
    (s.manager.m_sampler_array sampler_slot.toNat).reference_count ≠ 1 ∧
      (s.manager.m_sampler_array sampler_slot.toNat).reference_count ≠ 2
  | .RegisterSampler _ => False
  | _ => True

section Calls

variable {m m' : TextureSamplerManager I V} {r : BitVec 64 × TextureSamplerManager I V} {fuel : ℕ}
  {slot : BitVec 64} {texture_info : I} {texture_view_info : Option (TextureViewInfo V)}

def Registers (m : TextureSamplerManager I V) (texture_info : I)
    (r : BitVec 64 × TextureSamplerManager I V) : Prop :=
  ∃ heap node, m.m_texture_handle_table.Allocate.1 ≠ FixedAtomicIndexAllocator.cInvalidHandle 16 ∧
    node.reference_count = 1 ∧ node.texture.map Prod.snd = some texture_info ∧
    r = (m.m_texture_handle_table.Allocate.1.setWidth 64,
      { m with
        m_separate_heap := heap
        m_texture_handle_table := m.m_texture_handle_table.Allocate.2
        m_texture_array := Function.update m.m_texture_array
          m.m_texture_handle_table.Allocate.1.toNat node })

theorem registers_registerTexture {separate_memory : Option (BitVec 64)} {memory : TextureMemory}
    (h : m.registerTexture separate_memory memory texture_info texture_view_info = some r) :
    m.Registers texture_info r := by
  simp only [registerTexture] at h
  split at h
  · cases h
  · exact ⟨m.m_separate_heap, _, ‹_›, rfl, rfl, (Option.some.inj h).symm⟩

theorem registers_RegisterTextureView {GetMemoryRequirements : I → BitVec 64 × BitVec 64}
    (h : m.RegisterTextureView GetMemoryRequirements fuel texture_info texture_view_info = some r) :
    m.Registers texture_info r := by
  rw [RegisterTextureView] at h
  split at h
  · dsimp only at h
    split at h
    · obtain ⟨heap, node, hvalid, hcount, htexture, rfl⟩ := registers_registerTexture h
      exact ⟨heap, node, hvalid, hcount, htexture, rfl⟩
    · cases h
  · cases h

theorem registers_RegisterTextureViewIn {gpu_texture_memory : BitVec 64}
    (h : m.RegisterTextureViewIn gpu_texture_memory texture_info texture_view_info = some r) :
    m.Registers texture_info r := by
  rw [RegisterTextureViewIn] at h
  split at h
  · exact registers_registerTexture h
  · cases h

theorem ReferenceTextureView_eq (h : m.ReferenceTextureView slot = some r) :
    (m.m_texture_array slot.toNat).reference_count + 1 ≠ 0 ∧
      r = (slot, m.setTexture slot.toNat { m.m_texture_array slot.toNat with
        reference_count := (m.m_texture_array slot.toNat).reference_count + 1 }) := by
  simp only [ReferenceTextureView] at h
  split at h
  · cases h
  · exact ⟨‹_›, (Option.some.inj h).symm⟩

theorem UnregisterTextureView_eq (h : m.UnregisterTextureView fuel slot = some m') :
    ((m.m_texture_array slot.toNat).reference_count ≠ 2 ∧
      m' = m.setTexture slot.toNat { m.m_texture_array slot.toNat with
        reference_count := (m.m_texture_array slot.toNat).reference_count - 1 }) ∨
    ((m.m_texture_array slot.toNat).reference_count = 2 ∧ ∃ heap,
      m' = { m.setTexture slot.toNat { m.m_texture_array slot.toNat with
          reference_count := (m.m_texture_array slot.toNat).reference_count - 1
          texture := none
          texture_view := none } with
        m_separate_heap := heap
        m_texture_handle_table := m.m_texture_handle_table.Free (slot.setWidth 16) }) := by
  have htwo : (m.m_texture_array slot.toNat).reference_count - 1 = 1 ↔
      (m.m_texture_array slot.toNat).reference_count = 2 := by
    rw [BitVec.sub_eq_iff_eq_add]
    rfl
  simp only [UnregisterTextureView] at h
  split at h
  · rename_i hne
    exact Or.inl ⟨fun heq => hne (htwo.mpr heq), (Option.some.inj h).symm⟩
  · rename_i heq
    obtain ⟨heap, -, rfl⟩ := Option.map_eq_some_iff.mp h
    exact Or.inr ⟨htwo.mp (not_not.mp heq), heap, rfl⟩

theorem RegisterSampler_eq_none (hroot : m.m_sampler_map.root = none) (fuel : ℕ)
    (sampler_info : SamplerInfo) : m.RegisterSampler fuel sampler_info = none := by
  have hfind : ∀ slot, find fuel m.m_sampler_map (HashSampler sampler_info) ≠ .ok (some slot) := by
    intro slot
    rw [find, hroot]
    cases fuel with
    | zero => simp [findImpl]
    | succ fuel =>
      rw [findImpl]
      · intro heq
        cases heq
      · exact Nat.succ_ne_zero fuel
  rw [RegisterSampler]
  split
  · exact absurd ‹_› (hfind _)
  · rfl

end Calls

section Run

variable {GetMemoryRequirements : I → BitVec 64 × BitVec 64} {s s' : State I V} {c : Call I V}
  {allowed : State I V → Call I V → Prop}

structure NoSampler (s : State I V) : Prop where
  references : ∀ i, s.samplers.references i = 0
  root : s.manager.m_sampler_map.root = none

theorem Run.noSampler (h : Run GetMemoryRequirements allowed s) : NoSampler s := by
  induction h with
  | start => exact ⟨fun _ => rfl, rfl⟩
  | step _ _ hstep ih =>
    cases hstep with
    | RegisterTextureView hr =>
      obtain ⟨heap, node, -, -, -, rfl⟩ := registers_RegisterTextureView hr
      exact ⟨ih.references, ih.root⟩
    | RegisterTextureViewIn hr =>
      obtain ⟨heap, node, -, -, -, rfl⟩ := registers_RegisterTextureViewIn hr
      exact ⟨ih.references, ih.root⟩
    | ReferenceTextureView _ hr =>
      obtain ⟨-, rfl⟩ := ReferenceTextureView_eq hr
      exact ⟨ih.references, ih.root⟩
    | UnregisterTextureView _ hm =>
      obtain ⟨-, rfl⟩ | ⟨-, heap, rfl⟩ := UnregisterTextureView_eq hm
      · exact ⟨ih.references, ih.root⟩
      · exact ⟨ih.references, ih.root⟩
    | RegisterSampler hr =>
      rw [RegisterSampler_eq_none ih.root] at hr
      cases hr
    | ReferenceSampler hlive _ =>
      rw [ih.references] at hlive
      exact absurd hlive (Nat.lt_irrefl 0)
    | UnregisterSampler hlive _ =>
      rw [ih.references] at hlive
      exact absurd hlive (Nat.lt_irrefl 0)

theorem contract_create (heap : SeparateHeap) :
    Contract (⟨create heap, .empty, .empty⟩ : State I V) := by
  constructor
  · exact Ledger.agrees_empty (by decide) (by decide) _
  · exact Ledger.agrees_empty (by decide) (by decide) _
  · refine ⟨.nil, fresh_isRedBlack ⟨rfl, fun _ => ⟨rfl, rfl⟩⟩, ?_, ?_⟩
    · intro i
      simp [Ledger.empty]
    · intro i sampler_info hi
      cases hi
  · intro i j sampler_info hi
    cases hi

section Textures

variable {l : Ledger I} {table : FixedAtomicIndexAllocator 16} {slot : ℕ} {node : TextureNode I V}

theorem Contract.texture (h : Contract s) (heap : SeparateHeap)
    (hagrees : l.Agrees table cTargetMaxTextureDescriptorCount
      (Function.update (fun i => (s.manager.m_texture_array i).reference_count) slot
        node.reference_count)
      (Function.update (fun i => (s.manager.m_texture_array i).texture.map Prod.snd) slot
        (node.texture.map Prod.snd))) :
    Contract { s with
      manager := { s.manager with
        m_separate_heap := heap
        m_texture_handle_table := table
        m_texture_array := Function.update s.manager.m_texture_array slot node }
      textures := l } := by
  refine ⟨?_, h.samplers, h.sampler_map, h.shared⟩
  have hcount := Function.comp_update TextureNode.reference_count s.manager.m_texture_array slot node
  have hobject := Function.comp_update (fun node => node.texture.map Prod.snd)
    s.manager.m_texture_array slot node
  change l.Agrees table cTargetMaxTextureDescriptorCount
    (TextureNode.reference_count ∘ Function.update s.manager.m_texture_array slot node)
    ((fun node => node.texture.map Prod.snd) ∘ Function.update s.manager.m_texture_array slot node)
  rw [hcount, hobject]
  exact hagrees

end Textures

theorem Contract.register {texture_info : I} {r : BitVec 64 × TextureSamplerManager I V}
    (h : Contract s) (hr : s.manager.Registers texture_info r) :
    Contract { s with manager := r.2, textures := s.textures.register r.1.toNat texture_info } := by
  obtain ⟨heap, node, hvalid, hcount, htexture, rfl⟩ := hr
  have hslot : (s.manager.m_texture_handle_table.Allocate.1.setWidth 64).toNat =
      s.manager.m_texture_handle_table.Allocate.1.toNat := by
    rw [BitVec.toNat_setWidth]
    apply Nat.mod_eq_of_lt
    omega
  dsimp only
  rw [hslot]
  apply h.texture heap
  rw [hcount, htexture]
  exact h.textures.register hvalid texture_info

theorem Contract.count_eq (h : Contract s) {slot n : ℕ} (hlive : 0 < s.textures.references slot)
    (hn : n < 2 ^ 32) :
    (s.manager.m_texture_array slot).reference_count = BitVec.ofNat 32 n ↔
      s.textures.references slot = n := by
  rw [← h.textures.count slot hlive, ← BitVec.toNat_inj, BitVec.toNat_ofNat, Nat.mod_eq_of_lt hn]

theorem Contract.reference {slot : BitVec 64} {r : BitVec 64 × TextureSamplerManager I V}
    (h : Contract s) (hlive : 0 < s.textures.references slot.toNat)
    (hr : s.manager.ReferenceTextureView slot = some r) :
    Contract { s with manager := r.2, textures := s.textures.reference r.1.toNat } := by
  obtain ⟨hcount, rfl⟩ := ReferenceTextureView_eq hr
  apply h.texture s.manager.m_separate_heap
  have hreference := h.textures.reference hlive hcount
  rw [Function.update_eq_self slot.toNat fun i => (s.manager.m_texture_array i).texture.map Prod.snd]
  exact hreference

theorem Contract.unregister_iff {slot : BitVec 64} {fuel : ℕ} {m : TextureSamplerManager I V}
    (h : Contract s) (hlive : 0 < s.textures.references slot.toNat)
    (hm : s.manager.UnregisterTextureView fuel slot = some m) :
    Contract { s with manager := m, textures := s.textures.release slot.toNat } ↔
      (s.manager.m_texture_array slot.toNat).reference_count ≠ 1 ∧
        (s.manager.m_texture_array slot.toNat).reference_count ≠ 2 := by
  have hone := h.count_eq hlive (show 1 < 2 ^ 32 by decide)
  have htwo := h.count_eq hlive (show 2 < 2 ^ 32 by decide)
  constructor
  · intro hcontract
    have hafter := hcontract.textures.registered slot.toNat
    rw [← hcontract.textures.object, Ledger.references_release_self] at hafter
    have hbefore := h.textures.registered slot.toNat
    rw [← h.textures.object] at hbefore
    refine ⟨?_, ?_⟩
    · -- the last reference, and the object stays
      intro heq
      obtain ⟨-, rfl⟩ | ⟨heq', -⟩ := UnregisterTextureView_eq hm
      · simp only [setTexture, Function.update_self] at hafter
        have hlast := hone.mp heq
        have hnone := hbefore.mp (hafter.mpr (by omega))
        omega
      · rw [heq] at heq'
        exact absurd heq' (by decide)
    · -- one reference is left, and the object is gone
      intro heq
      obtain ⟨hne, -⟩ | ⟨-, heap, rfl⟩ := UnregisterTextureView_eq hm
      · exact hne heq
      · simp only [setTexture, Function.update_self, Option.map_none, true_iff] at hafter
        have hleft := htwo.mp heq
        omega
  · rintro ⟨hneOne, hneTwo⟩
    obtain ⟨-, rfl⟩ | ⟨heq, -⟩ := UnregisterTextureView_eq hm
    · apply h.texture s.manager.m_separate_heap
      have hrelease := h.textures.release hlive (fun heq => hneOne (hone.mpr heq))
      rw [Function.update_eq_self slot.toNat
        fun i => (s.manager.m_texture_array i).texture.map Prod.snd]
      exact hrelease
    · exact absurd heq hneTwo

theorem Contract.step_iff (h : Contract s) (hsampler : NoSampler s)
    (hstep : Step GetMemoryRequirements s c s') : Contract s' ↔ Allowed s c := by
  cases hstep with
  | RegisterTextureView hr => exact iff_of_true (h.register (registers_RegisterTextureView hr)) trivial
  | RegisterTextureViewIn hr =>
    exact iff_of_true (h.register (registers_RegisterTextureViewIn hr)) trivial
  | ReferenceTextureView hlive hr => exact iff_of_true (h.reference hlive hr) trivial
  | UnregisterTextureView hlive hm => exact h.unregister_iff hlive hm
  | RegisterSampler hr =>
    rw [RegisterSampler_eq_none hsampler.root] at hr
    cases hr
  | ReferenceSampler hlive _ =>
    rw [hsampler.references] at hlive
    exact absurd hlive (Nat.lt_irrefl 0)
  | UnregisterSampler hlive _ =>
    rw [hsampler.references] at hlive
    exact absurd hlive (Nat.lt_irrefl 0)

theorem Run.contract (h : Run GetMemoryRequirements Allowed s) : Contract s := by
  induction h with
  | start => exact contract_create _
  | step hrun hallowed hstep ih => exact (ih.step_iff hrun.noSampler hstep).mpr hallowed

/-- While no reference is given back where one or two are left, the slots are as they should be, and
the first call that does so leaves them otherwise. No settings are ever registered. -/
theorem slots_of_run (h : Run GetMemoryRequirements Allowed s) :
    Contract s ∧
      (∀ c s', Step GetMemoryRequirements s c s' → (Contract s' ↔ Allowed s c)) ∧
      ∀ fuel sampler_info, s.manager.RegisterSampler fuel sampler_info = none := by
  refine ⟨h.contract, ?_, ?_⟩
  · intro c s' hstep
    exact h.contract.step_iff h.noSampler hstep
  · exact RegisterSampler_eq_none h.noSampler.root

end Run

def requirements (_ : Unit) : BitVec 64 × BitVec 64 := (0x10, 0x10)

theorem exists_referenced : ∃ s : State Unit Unit, Run requirements Allowed s ∧
    s.textures.references 0 = 2 ∧ (s.manager.m_texture_array 0).reference_count = 2 ∧
    (s.manager.m_texture_array 0).separate_memory = cInvalidMemoryOffset := by
  have hstart : Run (V := Unit) requirements Allowed
      ⟨create (.create 0 0 0x1000 0x20 fun _ => 0), .empty, .empty⟩ := .start
  have hregister := Run.step (c := .RegisterTextureViewIn 0 () none) hstart trivial
    (.RegisterTextureViewIn rfl)
  have hreference := Run.step (c := .ReferenceTextureView 0) hregister trivial
    (.ReferenceTextureView (by decide) rfl)
  exact ⟨_, hreference, rfl, rfl, rfl⟩

theorem Run.mono {GetMemoryRequirements : I → BitVec 64 × BitVec 64}
    {allowed allowed' : State I V → Call I V → Prop} {s : State I V}
    (h : Run GetMemoryRequirements allowed s) (himp : ∀ s c, allowed s c → allowed' s c) :
    Run GetMemoryRequirements allowed' s := by
  induction h with
  | start => exact .start
  | step _ hallowed hstep ih => exact .step ih (himp _ _ hallowed) hstep

theorem slots_of_run_referenced :
    ∃ s : State Unit Unit, s.textures.references 0 = 2 ∧ Contract s := by
  obtain ⟨s, hrun, hreferences, -⟩ := exists_referenced
  exact ⟨s, hreferences, (slots_of_run hrun).1⟩

theorem finalized_early : ∃ s : State Unit Unit, Run requirements (fun _ _ => True) s ∧
    s.textures.references 0 = 1 ∧ (s.manager.m_texture_array 0).texture = none ∧ ¬Contract s := by
  obtain ⟨s, hrun, hreferences, hcount, hseparate⟩ := exists_referenced
  have hlive : 0 < s.textures.references (0 : BitVec 64).toNat := by
    have hzero : (0 : BitVec 64).toNat = 0 := rfl
    rw [hzero, hreferences]
    decide
  have hm : ∃ m, s.manager.UnregisterTextureView 0 0 = some m := by
    simp [UnregisterTextureView, hcount, hseparate]
  obtain ⟨m, hm⟩ := hm
  refine ⟨_, (hrun.mono fun _ _ _ => trivial).step trivial (.UnregisterTextureView hlive hm), ?_, ?_, ?_⟩
  · simp [hreferences]
  · obtain ⟨hne, -⟩ | ⟨-, heap, rfl⟩ := UnregisterTextureView_eq hm
    · exact absurd hcount hne
    · simp [setTexture]
  · intro hcontract
    exact ((hrun.contract.unregister_iff hlive hm).mp hcontract).2 hcount

end TextureSamplerManager

end Awn
