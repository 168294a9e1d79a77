import Mathlib.Data.List.Pairwise
import Mathlib.Data.List.ReduceOption
import Mathlib.Data.Nat.Notation

/-!
`vp::imem::IHeap`: a tree of heaps by their address ranges. All heaps of the repository are of a
class under `mem::Heap`, so the checks of the runtime type always pass.
-/

namespace Awn.Heap

inductive IHeap
  | mk (m_start_address m_end_address : ℕ) (m_child_list : List IHeap)

namespace IHeap

def m_start_address : IHeap → ℕ
  | mk m_start_address _ _ => m_start_address

def m_end_address : IHeap → ℕ
  | mk _ m_end_address _ => m_end_address

def m_child_list : IHeap → List IHeap
  | mk _ _ m_child_list => m_child_list

def IsAddressInHeap (heap : IHeap) (address : ℕ) : Prop :=
  heap.m_start_address ≤ address ∧ address < heap.m_end_address

instance (heap : IHeap) (address : ℕ) : Decidable (heap.IsAddressInHeap address) :=
  inferInstanceAs (Decidable (_ ∧ _))

def hasChildren (heap : IHeap) : Bool := heap.m_child_list.isEmpty

mutual

def findHeapFromAddress (address : ℕ) : IHeap → Option IHeap
  | mk m_start_address m_end_address m_child_list =>
    if m_start_address ≤ address ∧ address < m_end_address then
      findInChildren address (mk m_start_address m_end_address m_child_list) m_child_list
    else none

def findInChildren (address : ℕ) (self : IHeap) : List IHeap → Option IHeap
  | [] => some self
  | child :: rest =>
    if child.IsAddressInHeap address then child.findHeapFromAddress address
    else findInChildren address self rest

end

inductive Within : IHeap → IHeap → Prop
  | refl (heap : IHeap) : Within heap heap
  | child {heap child inner : IHeap} : child ∈ heap.m_child_list → Within child inner →
      Within heap inner

inductive WellNested : IHeap → Prop
  | mk {heap : IHeap} :
      (∀ child ∈ heap.m_child_list, WellNested child) →
      (∀ child ∈ heap.m_child_list, ∀ address, child.IsAddressInHeap address →
        heap.IsAddressInHeap address) →
      (heap.m_child_list.Pairwise fun child child' => ∀ address,
        child.IsAddressInHeap address → ¬child'.IsAddressInHeap address) →
      WellNested heap

theorem findHeapFromAddress_eq (heap : IHeap) (address : ℕ) : heap.findHeapFromAddress address =
    if heap.IsAddressInHeap address then findInChildren address heap heap.m_child_list else none := by
  cases heap with
  | mk m_start_address m_end_address m_child_list => rw [findHeapFromAddress]; rfl

theorem findInChildren_eq (address : ℕ) (self : IHeap) (children : List IHeap) :
    findInChildren address self children =
      match children.find? fun child => child.IsAddressInHeap address with
      | none => some self
      | some child => child.findHeapFromAddress address := by
  induction children with
  | nil => rw [findInChildren]; rfl
  | cons child rest ih =>
    rw [findInChildren, List.find?_cons]
    by_cases hchild : child.IsAddressInHeap address
    · rw [if_pos hchild, decide_eq_true hchild]
    · rw [if_neg hchild, decide_eq_false hchild]
      exact ih

theorem Within.trans {heap₁ heap₂ heap₃ : IHeap} (h : Within heap₁ heap₂)
    (h' : Within heap₂ heap₃) : Within heap₁ heap₃ := by
  induction h with
  | refl _ => exact h'
  | child hmem _ ih => exact Within.child hmem (ih h')

theorem sizeOf_child {heap child : IHeap} (h : child ∈ heap.m_child_list) :
    sizeOf child < sizeOf heap := by
  cases heap with
  | mk m_start_address m_end_address m_child_list =>
    have hlt := List.sizeOf_lt_of_mem h
    change sizeOf child < sizeOf m_child_list at hlt
    rw [mk.sizeOf_spec]
    omega

theorem Within.sizeOf_le {heap inner : IHeap} (h : Within heap inner) :
    sizeOf inner ≤ sizeOf heap := by
  induction h with
  | refl _ => exact Nat.le_refl _
  | child hmem _ ih => exact Nat.le_of_lt (Nat.lt_of_le_of_lt ih (sizeOf_child hmem))

theorem Within.antisymm {heap heap' : IHeap} (h : Within heap heap') (h' : Within heap' heap) :
    heap = heap' := by
  cases h with
  | refl _ => rfl
  | child hmem hinner =>
    have hle := hinner.sizeOf_le
    have hle' := h'.sizeOf_le
    have hlt := sizeOf_child hmem
    omega

structure Deepest (heap : IHeap) (address : ℕ) (inner : IHeap) : Prop where
  within : Within heap inner
  contains : inner.IsAddressInHeap address
  least : ∀ other, Within heap other → other.IsAddressInHeap address → Within other inner

theorem WellNested.contains {heap inner : IHeap} (h : WellNested heap) (hwithin : Within heap inner)
    {address : ℕ} (hinner : inner.IsAddressInHeap address) : heap.IsAddressInHeap address := by
  induction hwithin with
  | refl _ => exact hinner
  | child hmem _ ih =>
    cases h with
    | mk hchildren hinside _ =>
      exact hinside _ hmem address (ih (hchildren _ hmem) hinner)

theorem WellNested.within {heap inner : IHeap} (h : WellNested heap)
    (hwithin : Within heap inner) : WellNested inner := by
  induction hwithin with
  | refl _ => exact h
  | child hmem _ ih =>
    cases h with
    | mk hchildren _ _ => exact ih (hchildren _ hmem)

theorem eq_of_contains {heaps : List IHeap} {heap heap' : IHeap} {address : ℕ}
    (hdisjoint : heaps.Pairwise fun child child' => ∀ address,
      child.IsAddressInHeap address → ¬child'.IsAddressInHeap address)
    (hmem : heap ∈ heaps) (hmem' : heap' ∈ heaps) (h : heap.IsAddressInHeap address)
    (h' : heap'.IsAddressInHeap address) : heap = heap' := by
  by_contra hne
  have hsymm : Std.Symm fun child child' : IHeap => ∀ address,
      child.IsAddressInHeap address → ¬child'.IsAddressInHeap address :=
    ⟨fun _ _ hr address hc hc' => hr address hc' hc⟩
  exact hdisjoint.forall hmem hmem' hne address h h'

theorem WellNested.findHeapFromAddress {heap : IHeap} (h : WellNested heap) {address : ℕ}
    (hcontains : heap.IsAddressInHeap address) :
    ∃ inner, heap.findHeapFromAddress address = some inner ∧ Deepest heap address inner := by
  induction h with
  | @mk heap hchildren hinside hdisjoint ih =>
    rw [findHeapFromAddress_eq, if_pos hcontains, findInChildren_eq]
    cases hfind : heap.m_child_list.find? fun child => child.IsAddressInHeap address with
    | none =>
      refine ⟨heap, rfl, Within.refl heap, hcontains, fun other hwithin hother => ?_⟩
      cases hwithin with
      | refl _ => exact Within.refl heap
      | @child _ child _ hmem hwithin =>
        have hchild := (hchildren child hmem).contains hwithin hother
        exact absurd (decide_eq_true hchild) (List.find?_eq_none.mp hfind child hmem)
    | some child =>
      have hmem := List.mem_of_find?_eq_some hfind
      have hfound := List.find?_some hfind
      have hchild : child.IsAddressInHeap address := of_decide_eq_true hfound
      obtain ⟨inner, hinner, hdeepest⟩ := ih child hmem hchild
      refine ⟨inner, hinner, Within.child hmem hdeepest.within, hdeepest.contains, ?_⟩
      intro other hwithin hother
      cases hwithin with
      | refl _ => exact Within.child hmem hdeepest.within
      | @child _ child' _ hmem' hwithin =>
        have hchild' := (hchildren child' hmem').contains hwithin hother
        obtain rfl := eq_of_contains hdisjoint hmem hmem' hchild hchild'
        exact hdeepest.least other hwithin hother

theorem findHeapFromAddress_of_not {heap : IHeap} {address : ℕ}
    (h : ¬heap.IsAddressInHeap address) : heap.findHeapFromAddress address = none := by
  rw [findHeapFromAddress_eq, if_neg h]

end IHeap

/-!
`mem::FindHeapFromAddress`: the heaps of the current thread first, then all root heaps.
-/

open IHeap

def cMaxRootHeaps : ℕ := 3

def cMaxGpuRootHeapCount : ℕ := 2

structure HeapManager where
  root_heap_array : ℕ → Option IHeap

structure GpuHeapManager where
  m_host_uncached_heap_context_array : ℕ → Option IHeap
  m_host_cached_heap_context_array : ℕ → Option IHeap
  m_gpu_host_uncached_heap_context_array : ℕ → Option IHeap

structure Managers where
  heap_mgr : HeapManager
  gpu_heap_mgr : Option GpuHeapManager

structure ThreadBase where
  m_thread_heap : Option IHeap
  m_lookup_heap : Option IHeap

def HeapManager.rootHeaps (heap_mgr : HeapManager) : List (Option IHeap) :=
  (List.range cMaxRootHeaps).map heap_mgr.root_heap_array

def GpuHeapManager.rootHeaps (gpu_heap_mgr : GpuHeapManager) : List (Option IHeap) :=
  (List.range cMaxGpuRootHeapCount).flatMap fun i =>
    [gpu_heap_mgr.m_host_uncached_heap_context_array i,
      gpu_heap_mgr.m_host_cached_heap_context_array i,
      gpu_heap_mgr.m_gpu_host_uncached_heap_context_array i]

def findInRoots (address : ℕ) : List (Option IHeap) → Option IHeap
  | [] => none
  | none :: rest => findInRoots address rest
  | some root_heap :: rest =>
    match root_heap.findHeapFromAddress address with
    | none => findInRoots address rest
    | some contained_heap => some contained_heap

def checkHeap (heap : Option IHeap) (address : ℕ) : Option IHeap :=
  heap.filter fun heap => heap.hasChildren = false ∧ heap.IsAddressInHeap address

def searchHeap (heap : Option IHeap) (address : ℕ) : Option IHeap :=
  (heap.filter hasChildren).bind (findHeapFromAddress address)

/-- The heap is returned and becomes the lookup heap of the thread, for which the thread must not be
null. -/
def setLookupHeap (thread : Option ThreadBase) (heap : IHeap) :
    Option (Option IHeap × Option ThreadBase) :=
  thread.map fun thread => (some heap, some { thread with m_lookup_heap := some heap })

/-- The part of `FindHeapFromAddress` after the heaps of the thread; `none` stands for an access
through a null pointer. -/
def findInRootHeaps (managers : Managers) (thread : Option ThreadBase) (address : ℕ) :
    Option (Option IHeap × Option ThreadBase) :=
  match findInRoots address managers.heap_mgr.rootHeaps with
  | some heap => setLookupHeap thread heap
  | none =>
    managers.gpu_heap_mgr.bind fun gpu_heap_mgr =>
      match findInRoots address gpu_heap_mgr.rootHeaps with
      | some heap => setLookupHeap thread heap
      | none => some (none, thread)

def findHeapFromAddress (managers : Managers) (thread : Option ThreadBase) (address : ℕ) :
    Option (Option IHeap × Option ThreadBase) :=
  let thread_heap := thread.bind ThreadBase.m_thread_heap
  let last_lookup_heap := thread.bind ThreadBase.m_lookup_heap
  match checkHeap last_lookup_heap address with
  | some heap => some (some heap, thread)
  | none =>
    match checkHeap thread_heap address with
    | some heap => setLookupHeap thread heap
    | none =>
      match searchHeap last_lookup_heap address with
      | some heap => setLookupHeap thread heap
      | none =>
        match searchHeap thread_heap address with
        | some heap => setLookupHeap thread heap
        | none => findInRootHeaps managers thread address

def Managers.roots (managers : Managers) : List IHeap :=
  (managers.heap_mgr.rootHeaps ++
    (managers.gpu_heap_mgr.map GpuHeapManager.rootHeaps).getD []).reduceOption

def Managers.Has (managers : Managers) (heap : IHeap) : Prop :=
  ∃ root ∈ managers.roots, Within root heap

structure Managers.WellNested (managers : Managers) : Prop where
  roots : ∀ root ∈ managers.roots, IHeap.WellNested root
  disjoint : managers.roots.Pairwise fun root root' => ∀ address,
    root.IsAddressInHeap address → ¬root'.IsAddressInHeap address

def Managers.Answer (managers : Managers) (address : ℕ) : Option IHeap → Prop
  | none => ∀ heap, managers.Has heap → ¬heap.IsAddressInHeap address
  | some inner => managers.Has inner ∧ inner.IsAddressInHeap address ∧
    ∀ heap, managers.Has heap → heap.IsAddressInHeap address → Within heap inner

variable {managers : Managers} {thread : Option ThreadBase} {address : ℕ}

theorem Managers.Answer.unique {answer answer' : Option IHeap}
    (h : managers.Answer address answer) (h' : managers.Answer address answer') :
    answer = answer' := by
  cases answer with
  | none =>
    cases answer' with
    | none => rfl
    | some inner => exact absurd h'.2.1 (h inner h'.1)
  | some inner =>
    cases answer' with
    | none => exact absurd h.2.1 (h' inner h.1)
    | some inner' =>
      exact congrArg some ((h'.2.2 inner h.1 h.2.1).antisymm (h.2.2 inner' h'.1 h'.2.1))

theorem Managers.WellNested.answer (h : managers.WellNested) {heap inner : IHeap}
    (hheap : managers.Has heap) (hdeepest : Deepest heap address inner) :
    managers.Answer address (some inner) := by
  obtain ⟨root, hroot, hwithin⟩ := hheap
  have hhas : Within root inner := hwithin.trans hdeepest.within
  have hnested := h.roots root hroot
  have hcontains := hnested.contains hhas hdeepest.contains
  obtain ⟨inner', -, hdeepest'⟩ := hnested.findHeapFromAddress hcontains
  have hbelow : Within inner inner' := hdeepest'.least inner hhas hdeepest.contains
  have habove : Within inner' inner := by
    apply hdeepest.least inner' _ hdeepest'.contains
    apply hdeepest'.least heap hwithin
    exact (hnested.within hwithin).contains hdeepest.within hdeepest.contains
  obtain rfl := hbelow.antisymm habove
  refine ⟨⟨root, hroot, hhas⟩, hdeepest.contains, ?_⟩
  rintro other ⟨root', hroot', hother⟩ hcontains'
  have hroot_contains := (h.roots root' hroot').contains hother hcontains'
  obtain rfl := eq_of_contains h.disjoint hroot hroot' hcontains hroot_contains
  exact hdeepest'.least other hother hcontains'

theorem findInRoots_none {heaps : List (Option IHeap)}
    (h : ∀ root ∈ heaps.reduceOption, ¬root.IsAddressInHeap address) :
    findInRoots address heaps = none := by
  induction heaps with
  | nil => rfl
  | cons heap rest ih =>
    cases heap with
    | none => exact ih h
    | some root =>
      have hroot := h root List.mem_cons_self
      have hrest := ih fun root' hmem => h root' (List.mem_cons_of_mem root hmem)
      unfold findInRoots
      rw [findHeapFromAddress_of_not hroot]
      exact hrest

theorem findInRoots_some {heaps : List (Option IHeap)}
    (hnested : ∀ root ∈ heaps.reduceOption, IHeap.WellNested root) {root : IHeap}
    (hmem : root ∈ heaps.reduceOption) (h : root.IsAddressInHeap address) :
    ∃ root' ∈ heaps.reduceOption, ∃ inner, findInRoots address heaps = some inner ∧
      Deepest root' address inner := by
  induction heaps with
  | nil => cases hmem
  | cons heap rest ih =>
    cases heap with
    | none => exact ih hnested hmem
    | some first =>
      have hcons : (some first :: rest).reduceOption = first :: rest.reduceOption := rfl
      rw [hcons] at hnested hmem ⊢
      unfold findInRoots
      by_cases hfirst : first.IsAddressInHeap address
      · obtain ⟨inner, hinner, hdeepest⟩ :=
          (hnested first List.mem_cons_self).findHeapFromAddress hfirst
        rw [hinner]
        exact ⟨first, List.mem_cons_self, inner, rfl, hdeepest⟩
      · rw [findHeapFromAddress_of_not hfirst]
        obtain rfl | hmem := List.mem_cons.mp hmem
        · exact absurd h hfirst
        · obtain ⟨root', hroot', inner, hinner, hdeepest⟩ :=
            ih (fun root hroot => hnested root (List.mem_cons_of_mem first hroot)) hmem
          exact ⟨root', List.mem_cons_of_mem first hroot', inner, hinner, hdeepest⟩

def ThreadBase.In (thread : ThreadBase) (managers : Managers) : Prop :=
  (∀ heap, thread.m_lookup_heap = some heap → managers.Has heap) ∧
    ∀ heap, thread.m_thread_heap = some heap → managers.Has heap

def checkThread (thread : Option ThreadBase) (address : ℕ) : Option IHeap :=
  (checkHeap (thread.bind ThreadBase.m_lookup_heap) address).or
    (checkHeap (thread.bind ThreadBase.m_thread_heap) address)

/-- The condition under which the right heap is found: the heap that is found without the lock has
the address to itself, there is a thread to keep what is found, and there is a manager of the gpu
heaps to ask if nothing is. -/
structure Sound (managers : Managers) (thread : Option ThreadBase) (address : ℕ) : Prop where
  own : ∀ heap, checkThread thread address = some heap →
    ∀ child ∈ heap.m_child_list, ¬child.IsAddressInHeap address
  thread : (∃ heap, managers.Has heap ∧ heap.IsAddressInHeap address) → thread ≠ none
  gpu : (∀ heap, managers.Has heap → ¬heap.IsAddressInHeap address) →
    managers.gpu_heap_mgr ≠ none

theorem Managers.mem_roots {root : IHeap} : root ∈ managers.roots ↔
    root ∈ managers.heap_mgr.rootHeaps.reduceOption ∨
      ∃ gpu_heap_mgr, managers.gpu_heap_mgr = some gpu_heap_mgr ∧
        root ∈ gpu_heap_mgr.rootHeaps.reduceOption := by
  unfold Managers.roots
  rw [List.reduceOption_append, List.mem_append]
  cases managers.gpu_heap_mgr with
  | none =>
    refine or_congr_right ⟨fun hmem => ?_, fun ⟨_, heq, _⟩ => ?_⟩
    · cases hmem
    · cases heq
  | some gpu_heap_mgr =>
    refine or_congr_right ⟨fun hmem => ⟨gpu_heap_mgr, rfl, hmem⟩, ?_⟩
    rintro ⟨_, heq, hmem⟩
    cases heq
    exact hmem

theorem findInRootHeaps_some (h : managers.WellNested) {heap : IHeap} (hheap : managers.Has heap)
    (hcontains : heap.IsAddressInHeap address) :
    ∃ inner, findInRootHeaps managers thread address = setLookupHeap thread inner ∧
      managers.Answer address (some inner) := by
  obtain ⟨root, hroot, hwithin⟩ := hheap
  have hroot_contains := (h.roots root hroot).contains hwithin hcontains
  have hanswer : ∀ root ∈ managers.roots, ∀ inner, Deepest root address inner →
      managers.Answer address (some inner) := fun root hroot inner hdeepest =>
    h.answer ⟨root, hroot, Within.refl root⟩ hdeepest
  unfold findInRootHeaps
  by_cases hfirst : ∃ root ∈ managers.heap_mgr.rootHeaps.reduceOption,
      root.IsAddressInHeap address
  · obtain ⟨root', hroot', hcontains'⟩ := hfirst
    obtain ⟨top, htop, inner, hinner, hdeepest⟩ := findInRoots_some
      (fun root hmem => h.roots root (Managers.mem_roots.mpr (Or.inl hmem))) hroot' hcontains'
    rw [hinner]
    exact ⟨inner, rfl, hanswer top (Managers.mem_roots.mpr (Or.inl htop)) inner hdeepest⟩
  · obtain hroot | ⟨gpu_heap_mgr, hgpu, hroot⟩ := Managers.mem_roots.mp hroot
    · exact absurd ⟨root, hroot, hroot_contains⟩ hfirst
    · rw [findInRoots_none fun root hmem hcontains => hfirst ⟨root, hmem, hcontains⟩, hgpu]
      have hmem : ∀ root ∈ gpu_heap_mgr.rootHeaps.reduceOption, root ∈ managers.roots :=
        fun root hmem => Managers.mem_roots.mpr (Or.inr ⟨gpu_heap_mgr, hgpu, hmem⟩)
      obtain ⟨top, htop, inner, hinner, hdeepest⟩ := findInRoots_some
        (fun root hroot => h.roots root (hmem root hroot)) hroot hroot_contains
      rw [Option.bind_some, hinner]
      exact ⟨inner, rfl, hanswer top (hmem top htop) inner hdeepest⟩

theorem findInRootHeaps_none (hnone : ∀ heap, managers.Has heap → ¬heap.IsAddressInHeap address) :
    findInRootHeaps managers thread address =
      managers.gpu_heap_mgr.bind fun _ => some (none, thread) := by
  have hroots : ∀ root ∈ managers.roots, ¬root.IsAddressInHeap address := fun root hroot =>
    hnone root ⟨root, hroot, Within.refl root⟩
  unfold findInRootHeaps
  rw [findInRoots_none fun root hmem => hroots root (Managers.mem_roots.mpr (Or.inl hmem))]
  cases hgpu : managers.gpu_heap_mgr with
  | none => rfl
  | some gpu_heap_mgr =>
    dsimp only
    rw [Option.bind_some, Option.bind_some, findInRoots_none fun root hmem =>
      hroots root (Managers.mem_roots.mpr (Or.inr ⟨gpu_heap_mgr, hgpu, hmem⟩))]

theorem checkHeap_eq_some {heap : Option IHeap} {heap' : IHeap}
    (h : checkHeap heap address = some heap') :
    heap = some heap' ∧ heap'.IsAddressInHeap address := by
  obtain ⟨hheap, hcheck⟩ := Option.filter_eq_some_iff.mp h
  exact ⟨hheap, (of_decide_eq_true hcheck).2⟩

theorem searchHeap_eq_some (h : managers.WellNested) {heap : Option IHeap} {inner : IHeap}
    (hheap : ∀ heap', heap = some heap' → managers.Has heap')
    (hinner : searchHeap heap address = some inner) : managers.Answer address (some inner) := by
  obtain ⟨heap', hfilter, hfind⟩ := Option.bind_eq_some_iff.mp hinner
  obtain ⟨rfl, -⟩ := Option.filter_eq_some_iff.mp hfilter
  have hhas := hheap heap' rfl
  by_cases hcontains : heap'.IsAddressInHeap address
  · obtain ⟨root, hroot, hwithin⟩ := hhas
    obtain ⟨inner', hinner', hdeepest⟩ :=
      ((h.roots root hroot).within hwithin).findHeapFromAddress hcontains
    obtain rfl := Option.some.inj (hfind.symm.trans hinner')
    exact h.answer ⟨root, hroot, hwithin⟩ hdeepest
  · rw [findHeapFromAddress_of_not hcontains] at hfind
    cases hfind

theorem findHeapFromAddress_of_check {heap : IHeap} (h : checkThread thread address = some heap) :
    ∃ thread', findHeapFromAddress managers thread address = some (some heap, thread') := by
  unfold checkThread at h
  unfold findHeapFromAddress
  dsimp only
  cases hlookup : checkHeap (thread.bind ThreadBase.m_lookup_heap) address with
  | some heap' =>
    rw [hlookup, Option.some_or] at h
    obtain rfl := Option.some.inj h
    exact ⟨thread, rfl⟩
  | none =>
    rw [hlookup, Option.none_or] at h
    rw [h]
    obtain ⟨hheap, -⟩ := checkHeap_eq_some h
    cases thread with
    | none => cases hheap
    | some thread => exact ⟨_, rfl⟩

theorem findHeapFromAddress_of_not_check (h : managers.WellNested)
    (hthread : ∀ thread', thread = some thread' → thread'.In managers)
    (hcheck : checkThread thread address = none) :
    (∃ inner, findHeapFromAddress managers thread address = setLookupHeap thread inner ∧
        managers.Answer address (some inner)) ∨
      findHeapFromAddress managers thread address = findInRootHeaps managers thread address := by
  obtain ⟨hlookup, hheap⟩ := Option.or_eq_none_iff.mp hcheck
  have hhas_lookup : ∀ heap, thread.bind ThreadBase.m_lookup_heap = some heap →
      managers.Has heap := by
    intro heap heq
    obtain ⟨thread', hthread', hmem⟩ := Option.bind_eq_some_iff.mp heq
    exact (hthread thread' hthread').1 heap hmem
  have hhas_heap : ∀ heap, thread.bind ThreadBase.m_thread_heap = some heap →
      managers.Has heap := by
    intro heap heq
    obtain ⟨thread', hthread', hmem⟩ := Option.bind_eq_some_iff.mp heq
    exact (hthread thread' hthread').2 heap hmem
  unfold findHeapFromAddress
  dsimp only
  rw [hlookup, hheap]
  dsimp only
  split
  · rename_i inner hinner
    exact Or.inl ⟨inner, rfl, searchHeap_eq_some h hhas_lookup hinner⟩
  · split
    · rename_i inner hinner
      exact Or.inl ⟨inner, rfl, searchHeap_eq_some h hhas_heap hinner⟩
    · exact Or.inr rfl

theorem checkThread_eq_some
    (hthread : ∀ thread', thread = some thread' → thread'.In managers) {heap : IHeap}
    (h : checkThread thread address = some heap) :
    thread ≠ none ∧ managers.Has heap ∧ heap.IsAddressInHeap address := by
  unfold checkThread at h
  obtain h | ⟨-, h⟩ := Option.or_eq_some_iff.mp h
  · obtain ⟨hheap, hcontains⟩ := checkHeap_eq_some h
    obtain ⟨thread', rfl, hmem⟩ := Option.bind_eq_some_iff.mp hheap
    exact ⟨Option.some_ne_none _, (hthread thread' rfl).1 heap hmem, hcontains⟩
  · obtain ⟨hheap, hcontains⟩ := checkHeap_eq_some h
    obtain ⟨thread', rfl, hmem⟩ := Option.bind_eq_some_iff.mp hheap
    exact ⟨Option.some_ne_none _, (hthread thread' rfl).2 heap hmem, hcontains⟩

theorem Managers.WellNested.answer_iff (h : managers.WellNested) {heap : IHeap}
    (hheap : managers.Has heap) (hcontains : heap.IsAddressInHeap address) :
    managers.Answer address (some heap) ↔
      ∀ child ∈ heap.m_child_list, ¬child.IsAddressInHeap address := by
  constructor
  · rintro ⟨⟨root, hroot, hwithin⟩, -, hleast⟩ child hmem hchild
    have hchild_within := Within.child hmem (Within.refl child)
    have hle := (hleast child ⟨root, hroot, hwithin.trans hchild_within⟩ hchild).sizeOf_le
    exact absurd (sizeOf_child hmem) (Nat.not_lt.mpr hle)
  · intro hown
    apply h.answer hheap
    refine ⟨Within.refl heap, hcontains, fun other hwithin hother => ?_⟩
    cases hwithin with
    | refl _ => exact Within.refl heap
    | @child _ child _ hmem hwithin =>
      obtain ⟨root, hroot, hroot_within⟩ := hheap
      have hnested := ((h.roots root hroot).within hroot_within).within
        (Within.child hmem (Within.refl child))
      exact absurd (hnested.contains hwithin hother) (hown child hmem)

/-- The function gives the right answer, which is one and does not depend on the thread, exactly
under the condition. -/
theorem findHeapFromAddress_iff (h : managers.WellNested)
    (hthread : ∀ thread', thread = some thread' → thread'.In managers) :
    ((∃ answer thread', findHeapFromAddress managers thread address = some (answer, thread') ∧
      managers.Answer address answer) ↔ Sound managers thread address) ∧
    ∀ answer answer', managers.Answer address answer → managers.Answer address answer' →
      answer = answer' := by
  refine ⟨?_, fun _ _ => Managers.Answer.unique⟩
  cases hcheck : checkThread thread address with
  | some heap =>
    obtain ⟨hne, hheap, hcontains⟩ := checkThread_eq_some hthread hcheck
    obtain ⟨thread', hfind⟩ := @findHeapFromAddress_of_check managers thread address heap hcheck
    have hiff := h.answer_iff hheap hcontains
    constructor
    · rintro ⟨answer, thread'', hfind', hanswer⟩
      obtain ⟨rfl, -⟩ := Prod.mk.inj (Option.some.inj (hfind.symm.trans hfind'))
      refine ⟨fun heap' heq => ?_, fun _ => hne, fun hnone => absurd hcontains (hnone heap hheap)⟩
      obtain rfl := Option.some.inj (hcheck.symm.trans heq)
      exact hiff.mp hanswer
    · exact fun hsound => ⟨_, thread', hfind, hiff.mpr (hsound.own heap hcheck)⟩
  | none =>
    have hown : ∀ heap, checkThread thread address = some heap →
        ∀ child ∈ heap.m_child_list, ¬child.IsAddressInHeap address := by
      intro heap heq
      rw [hcheck] at heq
      cases heq
    have hfind := findHeapFromAddress_of_not_check h hthread hcheck
    by_cases hsome : ∃ heap, managers.Has heap ∧ heap.IsAddressInHeap address
    · have hset : ∃ inner, findHeapFromAddress managers thread address =
          setLookupHeap thread inner ∧ managers.Answer address (some inner) := by
        obtain hfound | hroots := hfind
        · exact hfound
        · obtain ⟨heap, hheap, hcontains⟩ := hsome
          rw [hroots]
          exact findInRootHeaps_some h hheap hcontains
      obtain ⟨inner, hinner, hanswer⟩ := hset
      rw [hinner]
      constructor
      · rintro ⟨_, _, heq, -⟩
        refine ⟨hown, fun _ hnull => ?_, fun hnone => ?_⟩
        · rw [hnull] at heq
          cases heq
        · obtain ⟨heap, hheap, hcontains⟩ := hsome
          exact absurd hcontains (hnone heap hheap)
      · intro hsound
        obtain ⟨thread', rfl⟩ := Option.ne_none_iff_exists'.mp (hsound.thread hsome)
        exact ⟨_, _, rfl, hanswer⟩
    · have hnone : ∀ heap, managers.Has heap → ¬heap.IsAddressInHeap address :=
        fun heap hheap hcontains => hsome ⟨heap, hheap, hcontains⟩
      have hroots : findHeapFromAddress managers thread address =
          managers.gpu_heap_mgr.bind fun _ => some (none, thread) := by
        obtain ⟨inner, -, hanswer⟩ | hroots := hfind
        · exact absurd hanswer.2.1 (hnone inner hanswer.1)
        · rw [hroots, findInRootHeaps_none hnone]
      rw [hroots]
      constructor
      · rintro ⟨_, _, heq, -⟩
        refine ⟨hown, fun hex => absurd hex hsome, fun _ hnull => ?_⟩
        rw [hnull] at heq
        cases heq
      · intro hsound
        obtain ⟨gpu_heap_mgr, hgpu⟩ := Option.ne_none_iff_exists'.mp (hsound.gpu hnone)
        rw [hgpu]
        exact ⟨none, thread, rfl, hnone⟩

section NestedHeap

def frontHeap : IHeap := .mk 0x1000 0x1800 []

def rootHeap : IHeap := .mk 0x1000 0x2000 [frontHeap]

def oneRoot : Managers where
  heap_mgr := ⟨fun i => if i = 0 then some rootHeap else none⟩
  gpu_heap_mgr := none

def rootThread : ThreadBase where
  m_thread_heap := some rootHeap
  m_lookup_heap := none

theorem oneRoot_roots : oneRoot.roots = [rootHeap] := by
  rfl

theorem oneRoot_wellNested : oneRoot.WellNested := by
  have hfront : IHeap.WellNested frontHeap :=
    IHeap.WellNested.mk (fun _ hmem => absurd hmem List.not_mem_nil)
      (fun _ hmem => absurd hmem List.not_mem_nil) List.Pairwise.nil
  constructor
  · intro root hroot
    rw [oneRoot_roots] at hroot
    obtain rfl := List.mem_singleton.mp hroot
    constructor
    · intro child hmem
      obtain rfl := List.mem_singleton.mp hmem
      exact hfront
    · intro child hmem address hchild
      obtain rfl := List.mem_singleton.mp hmem
      exact ⟨hchild.1, Nat.lt_of_lt_of_le hchild.2 (by decide)⟩
    · exact List.pairwise_singleton _ _
  · rw [oneRoot_roots]
    exact List.pairwise_singleton _ _

theorem rootThread_in : rootThread.In oneRoot := by
  refine ⟨fun heap heq => ?_, fun heap heq => ?_⟩
  · cases heq
  · obtain rfl := Option.some.inj heq
    exact ⟨rootHeap, by rw [oneRoot_roots]; exact List.mem_cons_self, Within.refl rootHeap⟩

theorem findHeapFromAddress_iff_oneRoot :
    ((∃ answer thread', findHeapFromAddress oneRoot (some rootThread) 0x1c00 =
      some (answer, thread') ∧ oneRoot.Answer 0x1c00 answer) ↔
        Sound oneRoot (some rootThread) 0x1c00) ∧
    ∀ answer answer', oneRoot.Answer 0x1c00 answer → oneRoot.Answer 0x1c00 answer' →
      answer = answer' := by
  apply findHeapFromAddress_iff oneRoot_wellNested
  intro thread' heq
  obtain rfl := Option.some.inj heq
  exact rootThread_in

theorem rootHeap_found : oneRoot.WellNested ∧ rootThread.In oneRoot ∧ ∃ thread',
    findHeapFromAddress oneRoot (some rootThread) 0x1400 = some (some rootHeap, thread') ∧
    ¬oneRoot.Answer 0x1400 (some rootHeap) := by
  refine ⟨oneRoot_wellNested, rootThread_in, _, rfl, fun hanswer => ?_⟩
  have hfront : frontHeap ∈ rootHeap.m_child_list := List.mem_cons_self
  have hhas : oneRoot.Has rootHeap :=
    ⟨rootHeap, by rw [oneRoot_roots]; exact List.mem_cons_self, Within.refl rootHeap⟩
  have hown := (oneRoot_wellNested.answer_iff hhas (by decide)).mp hanswer
  exact absurd (by decide) (hown frontHeap hfront)

end NestedHeap

end Awn.Heap
