import Awn.Calls.Throughout
import Awn.ResourceUnit.Binder
import Mathlib.Data.List.Sort
import Mathlib.Logic.Function.Basic

/-!
`awn::res::ThreadLocalArchiveManager`. Its binders are counted by their places in the array, and
the nodes of its tree by their places in the allocator's; the tree is the list of its nodes in the
order of their keys. `none` stands for a failed assertion or an access by a null pointer.
-/

namespace Awn.ThreadLocalArchive

structure LocalArchiveBinder where
  resource_binder : ResourceBinder
  reference_count : BitVec 32

structure ArchiveTreeNode (T : Type*) where
  node : ℕ
  key : T
  m_local_archive_binder : ℕ
  deriving DecidableEq

structure Pool (T : Type*) where
  max_thread_count : ℕ
  m_is_trigger_clear_tree : Bool
  tree : List (ArchiveTreeNode T)
  free_nodes : List ℕ
  m_free_archive_ring_buffer : List ℕ
  m_archive_binder_array : ℕ → LocalArchiveBinder
  m_registered_thread_ring : ℕ → T
  tls_data : T → Option ℕ
  IsThreadValid : T → Bool

def LocalArchiveBinder.release (x : LocalArchiveBinder) : LocalArchiveBinder :=
  if x.reference_count ≠ 0 ∨ x.resource_binder.m_load_guard = true then
    { resource_binder := x.resource_binder.Finalize, reference_count := 0 }
  else x

namespace Pool

def initialized {T : Type*} (max_thread_count : ℕ) (threads : ℕ → T) : Pool T where
  max_thread_count := max_thread_count
  m_is_trigger_clear_tree := false
  tree := []
  free_nodes := List.range max_thread_count
  m_free_archive_ring_buffer := List.range max_thread_count
  m_archive_binder_array _ := { resource_binder := .constructed, reference_count := 0 }
  m_registered_thread_ring := threads
  tls_data _ := none
  IsThreadValid _ := false

variable {T : Type*} [LinearOrder T] (s : Pool T)

def Find (thread : T) : Option (ArchiveTreeNode T) := s.tree.find? (·.key = thread)

def SetTlsData (thread : T) (object : Option ℕ) : Pool T :=
  { s with tls_data := Function.update s.tls_data thread object }

def insertFree (binder : ℕ) : Option (Pool T) :=
  if s.m_free_archive_ring_buffer.length < s.max_thread_count then
    some { s with m_free_archive_ring_buffer := s.m_free_archive_ring_buffer ++ [binder] }
  else none

def removeNode (node : ArchiveTreeNode T) : Pool T := { s with tree := s.tree.erase node }

def freeNode (node : ArchiveTreeNode T) : Pool T :=
  { s.removeNode node with free_nodes := node.node :: s.free_nodes }

def allocateNode (key : T) (binder : ℕ) : Option (Pool T) :=
  match s.free_nodes with
  | [] => none
  | node :: free_nodes => some { s with
      tree := s.tree.orderedInsert (·.key ≤ ·.key) ⟨node, key, binder⟩
      free_nodes := free_nodes }

def RegisterThread (thread : T) : Option (Pool T × Option ℕ) :=
  match s.Find thread with
  | some archive_node =>
    some (s.SetTlsData thread (some archive_node.m_local_archive_binder),
      some archive_node.m_local_archive_binder)
  | none =>
    match s.m_free_archive_ring_buffer with
    | [] => some (s, none)
    | local_archive :: rest =>
      (({ s with m_free_archive_ring_buffer := rest }).allocateNode thread local_archive).map
        fun s => (s, some local_archive)

def UnregisterThread (thread : T) : Option (Pool T) :=
  match s.Find thread with
  | none => some s
  | some tree_node =>
    ((s.SetTlsData thread none).insertFree tree_node.m_local_archive_binder).map
      fun s => s.freeNode tree_node

def UnregisterCurrentThread (current : T) : Option (Pool T) :=
  match s.Find current with
  | none => some s
  | some tree_node =>
    ((s.freeNode tree_node).SetTlsData current none).insertFree tree_node.m_local_archive_binder

def removeAndReturn (current : T) (node : ArchiveTreeNode T) : Option (Pool T) :=
  let binder := node.m_local_archive_binder
  let s := { s with
    m_archive_binder_array := Function.update s.m_archive_binder_array binder
      (s.m_archive_binder_array binder).release }
  ((s.removeNode node).SetTlsData current none).insertFree binder

def TlsDestructor (current : T) : Option ℕ → Option (Pool T)
  | none => some { s with m_is_trigger_clear_tree := true }
  | some local_archive_binder =>
    match s.tree.find? (·.m_local_archive_binder = local_archive_binder) with
    | none => some s
    | some node => s.removeAndReturn current node

def InvokeThreadTlsDestructors (thread : T) : Option (Pool T) :=
  if s.IsThreadValid thread = false then some s
  else (s.TlsDestructor thread (s.tls_data thread)).map fun s => s.SetTlsData thread none

def unregisterInvalid (current : T) (s : Pool T) (thread : T) : Option (Pool T) :=
  if s.IsThreadValid thread = true then some s
  else
    match s.Find thread with
    | none => none
    | some node => s.removeAndReturn current node

def filledRing (i : ℕ) : T := ((s.tree[i]?).map (·.key)).getD (s.m_registered_thread_ring i)

def Calculate (current : T) : Option (Pool T) :=
  if s.m_is_trigger_clear_tree = false then some s
  else
    let s := { s with m_is_trigger_clear_tree := false }
    if s.tree.length ≤ s.max_thread_count then
      let s := { s with m_registered_thread_ring := s.filledRing }
      ((List.range s.max_thread_count).map s.m_registered_thread_ring).foldlM
        (unregisterInvalid current) s
    else none

end Pool

inductive Event (T : Type*)
  | RegisterThread (thread : T)
  | UnregisterThread (thread : T)
  | UnregisterCurrentThread (current : T)
  | Calculate (current : T)
  | exit (thread : T)
  /-- A thread is made, with no data, and becomes valid. -/
  | construct (thread : T)
  /-- A thread is no longer valid. -/
  | destruct (thread : T)

variable {T : Type*} [LinearOrder T]

def Pool.event (s : Pool T) : Event T → Option (Pool T)
  | .RegisterThread thread => (s.RegisterThread thread).map Prod.fst
  | .UnregisterThread thread => s.UnregisterThread thread
  | .UnregisterCurrentThread current => s.UnregisterCurrentThread current
  | .Calculate current => s.Calculate current
  | .exit thread => s.InvokeThreadTlsDestructors thread
  | .construct thread =>
    if s.IsThreadValid thread = true then some s
    else some { s.SetTlsData thread none with
      IsThreadValid := Function.update s.IsThreadValid thread true }
  | .destruct thread =>
    some { s with IsThreadValid := Function.update s.IsThreadValid thread false }

def step (s : Option (Pool T)) (e : Event T) : Option (Pool T) := s.bind fun s => s.event e

structure Pool.Shared (s : Pool T) : Prop where
  binders : (s.m_free_archive_ring_buffer ++ s.tree.map (·.m_local_archive_binder)).Perm
    (List.range s.max_thread_count)
  threads : (s.tree.map (·.key)).Nodup
  nodes : (s.free_nodes ++ s.tree.map (·.node)).Perm (List.range s.max_thread_count)

def Right : Option (Pool T) → Prop
  | none => False
  | some s => s.Shared

def Pool.Fits (s : Pool T) : Event T → Prop
  | .exit thread => s.IsThreadValid thread = true → s.tls_data thread = none
  | .Calculate _ => s.m_is_trigger_clear_tree = true →
    ∀ i < s.max_thread_count, s.IsThreadValid (s.filledRing i) = true
  | _ => True

def Fits : Option (Pool T) → Event T → Prop
  | none, _ => False
  | some s, e => s.Fits e

namespace Pool

def Known (s : Pool T) : Prop :=
  ∀ thread binder, s.IsThreadValid thread = true → s.tls_data thread = some binder →
    ∃ node ∈ s.tree, node.key = thread ∧ node.m_local_archive_binder = binder

section Shared

variable {s s' : Pool T} {thread : T} {node : ArchiveTreeNode T} {binder : ℕ}

omit [LinearOrder T] in
theorem Shared.lengths (h : s.Shared) :
    s.m_free_archive_ring_buffer.length + s.tree.length = s.max_thread_count ∧
      s.free_nodes.length + s.tree.length = s.max_thread_count := by
  have hbinders := h.binders.length_eq
  have hnodes := h.nodes.length_eq
  simp only [List.length_append, List.length_map, List.length_range] at hbinders hnodes
  exact ⟨hbinders, hnodes⟩

theorem find_some (h : s.Find thread = some node) : node ∈ s.tree ∧ node.key = thread :=
  ⟨List.mem_of_find?_eq_some h, by simpa using List.find?_some h⟩

theorem find_none (h : s.Find thread = none) : thread ∉ s.tree.map (·.key) := by
  rintro hmem
  obtain ⟨node, hnode, rfl⟩ := List.mem_map.mp hmem
  exact absurd (List.find?_eq_none.mp h node hnode) (by simp)

omit [LinearOrder T] in
theorem Shared.eq_of_key (h : s.Shared) {node' : ArchiveTreeNode T} (hnode : node ∈ s.tree)
    (hnode' : node' ∈ s.tree) (hkey : node.key = node'.key) : node = node' :=
  List.inj_on_of_nodup_map h.threads hnode hnode' hkey

theorem Shared.find_eq (h : s.Shared) (hnode : node ∈ s.tree) (hkey : node.key = thread) :
    s.Find thread = some node := by
  cases hfind : s.Find thread with
  | none => exact absurd (List.mem_map.mpr ⟨node, hnode, hkey⟩) (find_none hfind)
  | some node' =>
    obtain ⟨hnode', hkey'⟩ := find_some hfind
    rw [h.eq_of_key hnode' hnode (hkey'.trans hkey.symm)]

theorem Shared.register (h : s.Shared) (hfind : s.Find thread = none) {rest : List ℕ}
    (hring : s.m_free_archive_ring_buffer = binder :: rest) :
    ∃ s', ({ s with m_free_archive_ring_buffer := rest } : Pool T).allocateNode thread binder =
        some s' ∧ s'.Shared ∧ s'.IsThreadValid = s.IsThreadValid ∧ s'.tls_data = s.tls_data ∧
      (∀ node ∈ s.tree, node ∈ s'.tree) ∧
      ∃ node ∈ s'.tree, node.key = thread ∧ node.m_local_archive_binder = binder := by
  obtain ⟨hbinders, hnodes⟩ := h.lengths
  rw [hring, List.length_cons] at hbinders
  cases hfree : s.free_nodes with
  | nil =>
    rw [hfree, List.length_nil] at hnodes
    omega
  | cons x free_nodes =>
    have htree := List.perm_orderedInsert (fun a b : ArchiveTreeNode T => a.key ≤ b.key)
      ⟨x, thread, binder⟩ s.tree
    refine ⟨{ s with
      m_free_archive_ring_buffer := rest
      tree := s.tree.orderedInsert (·.key ≤ ·.key) ⟨x, thread, binder⟩
      free_nodes := free_nodes }, by simp only [allocateNode], ⟨?_, ?_, ?_⟩, rfl, rfl, ?_,
      ⟨x, thread, binder⟩, ?_, rfl, rfl⟩
    · have hold := h.binders
      rw [hring] at hold
      have hmap := htree.map (·.m_local_archive_binder)
      exact (hmap.append_left rest).trans (List.perm_middle.trans hold)
    · have hmap := htree.map (·.key)
      exact hmap.nodup_iff.mpr (List.nodup_cons.mpr ⟨find_none hfind, h.threads⟩)
    · have hold := h.nodes
      rw [hfree] at hold
      have hmap := htree.map (·.node)
      exact (hmap.append_left free_nodes).trans (List.perm_middle.trans hold)
    · intro node hnode
      exact htree.mem_iff.mpr (List.mem_cons_of_mem _ hnode)
    · exact htree.mem_iff.mpr List.mem_cons_self

theorem Shared.unregister (h : s.Shared) (hnode : node ∈ s.tree)
    (hmax : s'.max_thread_count = s.max_thread_count) (htree : s'.tree = s.tree.erase node)
    (hfree : s'.free_nodes = node.node :: s.free_nodes)
    (hring : s'.m_free_archive_ring_buffer =
      s.m_free_archive_ring_buffer ++ [node.m_local_archive_binder]) : s'.Shared := by
  have herase := List.perm_cons_erase hnode
  refine ⟨?_, ?_, ?_⟩
  · rw [hmax, htree, hring, List.append_assoc]
    exact ((herase.map (·.m_local_archive_binder)).symm.append_left _).trans h.binders
  · rw [htree]
    exact h.threads.sublist (List.erase_sublist.map _)
  · rw [hmax, htree, hfree]
    have hmiddle := (herase.map (·.node)).symm.append_left s.free_nodes
    exact List.perm_middle.symm.trans (hmiddle.trans h.nodes)

omit [LinearOrder T] in
theorem Shared.insertFree (h : s.Shared) (hnode : node ∈ s.tree) (s' : Pool T)
    (hmax : s'.max_thread_count = s.max_thread_count)
    (hring : s'.m_free_archive_ring_buffer = s.m_free_archive_ring_buffer) (binder : ℕ) :
    s'.insertFree binder = some { s' with
      m_free_archive_ring_buffer := s'.m_free_archive_ring_buffer ++ [binder] } := by
  have hlengths := h.lengths.1
  have hpos := List.length_pos_of_mem hnode
  unfold Pool.insertFree
  rw [if_pos]
  rw [hring, hmax]
  omega

end Shared

section Known

variable {s s' : Pool T} {thread : T} {node : ArchiveTreeNode T}

theorem Known.setTlsData (h : s.Known) {object : Option ℕ}
    (hobject : ∀ binder, object = some binder →
      ∃ node ∈ s.tree, node.key = thread ∧ node.m_local_archive_binder = binder) :
    (s.SetTlsData thread object).Known := by
  intro thread' binder hvalid htls
  by_cases heq : thread' = thread
  · subst heq
    simp only [SetTlsData, Function.update_self] at htls
    exact hobject binder htls
  · simp only [SetTlsData, Function.update_of_ne heq] at htls
    exact h thread' binder hvalid htls

theorem Known.unregister (h : s.Known) (htree : s'.tree = s.tree.erase node)
    (htls : s'.tls_data = Function.update s.tls_data node.key none)
    (hvalid : s'.IsThreadValid = s.IsThreadValid) : s'.Known := by
  intro thread binder hthread hdata
  have hne : thread ≠ node.key := by
    rintro rfl
    rw [htls, Function.update_self] at hdata
    cases hdata
  rw [htls, Function.update_of_ne hne] at hdata
  obtain ⟨node', hnode', hkey, hbinder⟩ := h thread binder (hvalid ▸ hthread) hdata
  refine ⟨node', ?_, hkey, hbinder⟩
  rw [htree, List.mem_erase_of_ne]
  · exact hnode'
  · rintro rfl
    exact hne hkey.symm

end Known

section Steps

variable {s s' : Pool T}

def Goes (s : Pool T) (e : Event T) : Prop :=
  ∃ s', s.event e = some s' ∧ s'.Shared ∧ s'.Known

theorem registerThread_goes (h : s.Shared) (hknown : s.Known) (thread : T) :
    s.Goes (.RegisterThread thread) := by
  unfold Goes event RegisterThread
  dsimp only
  cases hfind : s.Find thread with
  | some node =>
    obtain ⟨hnode, hkey⟩ := find_some hfind
    dsimp only
    refine ⟨s.SetTlsData thread (some node.m_local_archive_binder), rfl,
      ⟨h.binders, h.threads, h.nodes⟩, hknown.setTlsData fun binder hbinder => ?_⟩
    exact ⟨node, hnode, hkey, Option.some.inj hbinder⟩
  | none =>
    dsimp only
    cases hring : s.m_free_archive_ring_buffer with
    | nil => exact ⟨s, rfl, h, hknown⟩
    | cons binder rest =>
      obtain ⟨s', hs', hshared, hvalid, htls, htree, -⟩ := h.register hfind hring
      refine ⟨s', by simp only [hs', Option.map_some], hshared, ?_⟩
      intro thread' binder' hthread hdata
      obtain ⟨node, hnode, hnode'⟩ := hknown thread' binder' (hvalid ▸ hthread) (htls ▸ hdata)
      exact ⟨node, htree node hnode, hnode'⟩

theorem unregisterThread_goes (h : s.Shared) (hknown : s.Known) (thread : T) :
    s.Goes (.UnregisterThread thread) := by
  unfold Goes event UnregisterThread
  dsimp only
  cases hfind : s.Find thread with
  | none => exact ⟨s, rfl, h, hknown⟩
  | some node =>
    obtain ⟨hnode, rfl⟩ := find_some hfind
    dsimp only
    rw [h.insertFree hnode (s.SetTlsData node.key none) rfl rfl]
    exact ⟨_, rfl, h.unregister hnode rfl rfl rfl rfl, hknown.unregister rfl rfl rfl⟩

theorem unregisterCurrentThread_goes (h : s.Shared) (hknown : s.Known) (current : T) :
    s.Goes (.UnregisterCurrentThread current) := by
  unfold Goes event UnregisterCurrentThread
  dsimp only
  cases hfind : s.Find current with
  | none => exact ⟨s, rfl, h, hknown⟩
  | some node =>
    obtain ⟨hnode, rfl⟩ := find_some hfind
    dsimp only
    rw [h.insertFree hnode ((s.freeNode node).SetTlsData node.key none) rfl rfl]
    exact ⟨_, rfl, h.unregister hnode rfl rfl rfl rfl, hknown.unregister rfl rfl rfl⟩

theorem foldlM_unregisterInvalid (current : T) {threads : List T}
    (hvalid : ∀ thread ∈ threads, s.IsThreadValid thread = true) :
    threads.foldlM (unregisterInvalid current) s = some s := by
  induction threads with
  | nil => rfl
  | cons thread threads ih =>
    rw [List.foldlM_cons, unregisterInvalid, if_pos (hvalid thread List.mem_cons_self)]
    exact ih fun thread hthread => hvalid thread (List.mem_cons_of_mem _ hthread)

theorem calculate_goes (h : s.Shared) (hknown : s.Known) {current : T}
    (hfits : s.Fits (.Calculate current)) : s.Goes (.Calculate current) := by
  unfold Goes event Calculate
  dsimp only
  split_ifs with htrigger hle
  · exact ⟨s, rfl, h, hknown⟩
  · rw [foldlM_unregisterInvalid]
    · exact ⟨_, rfl, ⟨h.binders, h.threads, h.nodes⟩, hknown⟩
    · intro thread hthread
      obtain ⟨i, hi, rfl⟩ := List.mem_map.mp hthread
      exact hfits (eq_true_of_ne_false htrigger) i (List.mem_range.mp hi)
  · have hlengths := h.lengths.1
    omega

theorem exit_goes (h : s.Shared) (hknown : s.Known) {thread : T} (hfits : s.Fits (.exit thread)) :
    s.Goes (.exit thread) := by
  unfold Goes event InvokeThreadTlsDestructors
  dsimp only
  split_ifs with hvalid
  · exact ⟨s, rfl, h, hknown⟩
  · rw [hfits (eq_true_of_ne_false hvalid)]
    have htriggered : ({ s with m_is_trigger_clear_tree := true } : Pool T).Known := hknown
    refine ⟨({ s with m_is_trigger_clear_tree := true } : Pool T).SetTlsData thread none, rfl,
      ⟨h.binders, h.threads, h.nodes⟩, htriggered.setTlsData fun binder hbinder => ?_⟩
    cases hbinder

theorem construct_goes (h : s.Shared) (hknown : s.Known) (thread : T) :
    s.Goes (.construct thread) := by
  unfold Goes event
  dsimp only
  split_ifs with hvalid
  · exact ⟨s, rfl, h, hknown⟩
  · refine ⟨_, rfl, ⟨h.binders, h.threads, h.nodes⟩, ?_⟩
    intro thread' binder hthread hdata
    by_cases heq : thread' = thread
    · subst heq
      simp [SetTlsData] at hdata
    · simp only [SetTlsData, Function.update_of_ne heq] at hthread hdata
      exact hknown thread' binder hthread hdata

theorem destruct_goes (h : s.Shared) (hknown : s.Known) (thread : T) :
    s.Goes (.destruct thread) := by
  refine ⟨_, rfl, ⟨h.binders, h.threads, h.nodes⟩, ?_⟩
  intro thread' binder hthread hdata
  by_cases heq : thread' = thread
  · subst heq
    simp at hthread
  · simp only [Function.update_of_ne heq] at hthread
    exact hknown thread' binder hthread hdata

theorem goes_of_fits (h : s.Shared) (hknown : s.Known) {e : Event T} (hfits : s.Fits e) :
    s.Goes e := by
  cases e with
  | RegisterThread thread => exact registerThread_goes h hknown thread
  | UnregisterThread thread => exact unregisterThread_goes h hknown thread
  | UnregisterCurrentThread current => exact unregisterCurrentThread_goes h hknown current
  | Calculate current => exact calculate_goes h hknown hfits
  | exit thread => exact exit_goes h hknown hfits
  | construct thread => exact construct_goes h hknown thread
  | destruct thread => exact destruct_goes h hknown thread

def nodeCount (s : Pool T) : ℕ := s.free_nodes.length + s.tree.length

theorem removeAndReturn_loses {current : T} {node : ArchiveTreeNode T} (hnode : node ∈ s.tree)
    (h : s.removeAndReturn current node = some s') :
    s'.max_thread_count = s.max_thread_count ∧ s'.IsThreadValid = s.IsThreadValid ∧
      s'.nodeCount < s.nodeCount := by
  have hlength := List.length_erase_of_mem hnode
  have hpos := List.length_pos_of_mem hnode
  unfold removeAndReturn insertFree at h
  dsimp only at h
  split_ifs at h
  obtain rfl := Option.some.inj h
  refine ⟨rfl, rfl, ?_⟩
  simp only [nodeCount, SetTlsData, removeNode, hlength]
  omega

theorem foldlM_loses {current : T} {threads : List T}
    (h : threads.foldlM (unregisterInvalid current) s = some s') :
    s'.max_thread_count = s.max_thread_count ∧ s'.nodeCount ≤ s.nodeCount ∧
      ((∃ thread ∈ threads, s.IsThreadValid thread = false) → s'.nodeCount < s.nodeCount) := by
  induction threads generalizing s with
  | nil =>
    obtain rfl := Option.some.inj h
    exact ⟨rfl, Nat.le_refl _, fun ⟨_, hthread, _⟩ => absurd hthread List.not_mem_nil⟩
  | cons thread threads ih =>
    rw [List.foldlM_cons] at h
    obtain ⟨s₁, hfirst, hrest⟩ := Option.bind_eq_some_iff.mp h
    obtain ⟨hmax, hle, hlt⟩ := ih hrest
    unfold unregisterInvalid at hfirst
    split_ifs at hfirst with hvalid
    · obtain rfl := Option.some.inj hfirst
      refine ⟨hmax, hle, ?_⟩
      rintro ⟨thread', hthread', hinvalid⟩
      obtain rfl | hthread' := List.mem_cons.mp hthread'
      · simp [hvalid] at hinvalid
      · exact hlt ⟨thread', hthread', hinvalid⟩
    · cases hfind : s.Find thread with
      | none => simp [hfind] at hfirst
      | some node =>
        simp only [hfind] at hfirst
        obtain ⟨hmax₁, -, hcount⟩ := removeAndReturn_loses (find_some hfind).1 hfirst
        exact ⟨hmax.trans hmax₁, by omega, fun _ => by omega⟩

omit [LinearOrder T] in
theorem Shared.nodeCount (h : s.Shared) : s.nodeCount = s.max_thread_count := h.lengths.2

theorem fits_of_calculate {current : T} (h : s.Shared)
    (hright : Right (s.Calculate current)) : s.Fits (.Calculate current) := by
  intro htrigger i hi
  by_contra hinvalid
  unfold Calculate at hright
  dsimp only at hright
  rw [if_neg (by simp [htrigger])] at hright
  split_ifs at hright
  · cases hfold : ((List.range s.max_thread_count).map s.filledRing).foldlM
        (unregisterInvalid current) { s with
          m_is_trigger_clear_tree := false
          m_registered_thread_ring := s.filledRing } with
    | none => exact (hfold ▸ hright : Right none).elim
    | some s' =>
      obtain ⟨hmax, -, hlt⟩ := foldlM_loses hfold
      have hshared : s'.Shared := (hfold ▸ hright : Right (some s'))
      have hcount : s'.nodeCount < s.nodeCount := hlt ⟨_,
        List.mem_map_of_mem (List.mem_range.mpr hi), eq_false_of_ne_true hinvalid⟩
      rw [hshared.nodeCount, h.nodeCount, hmax] at hcount
      exact Nat.lt_irrefl _ hcount
  · exact hright

theorem fits_of_exit {thread : T} (h : s.Shared) (hknown : s.Known)
    (hright : Right (s.InvokeThreadTlsDestructors thread)) : s.Fits (.exit thread) := by
  intro hvalid
  by_contra hdata
  obtain ⟨binder, hbinder⟩ := Option.ne_none_iff_exists'.mp hdata
  obtain ⟨node, hnode, -, hnodebinder⟩ := hknown thread binder hvalid hbinder
  unfold InvokeThreadTlsDestructors TlsDestructor at hright
  rw [if_neg (by simp [hvalid]), hbinder] at hright
  dsimp only at hright
  cases hfind : s.tree.find? (·.m_local_archive_binder = binder) with
  | none => exact absurd (List.find?_eq_none.mp hfind node hnode) (by simp [hnodebinder])
  | some node' =>
    rw [hfind] at hright
    dsimp only at hright
    cases hremove : s.removeAndReturn thread node' with
    | none => exact (hremove ▸ hright : Right none).elim
    | some s' =>
      obtain ⟨hmax, -, hcount⟩ := removeAndReturn_loses (List.mem_of_find?_eq_some hfind) hremove
      rw [hremove] at hright
      have hshared : (s'.SetTlsData thread none).Shared := hright
      have hsame : s'.nodeCount = s'.max_thread_count := hshared.nodeCount
      rw [hsame, h.nodeCount, hmax] at hcount
      exact Nat.lt_irrefl _ hcount

theorem fits_of_right (h : s.Shared) (hknown : s.Known) {e : Event T}
    (hright : Right (s.event e)) : s.Fits e := by
  cases e with
  | Calculate current => exact fits_of_calculate h hright
  | exit thread => exact fits_of_exit h hknown hright
  | RegisterThread | UnregisterThread | UnregisterCurrentThread | construct | destruct =>
    exact trivial

end Steps

omit [LinearOrder T] in
theorem initialized_shared (max_thread_count : ℕ) (threads : ℕ → T) :
    (initialized max_thread_count threads).Shared where
  binders := by
    rw [initialized, List.map_nil, List.append_nil]
  threads := List.nodup_nil
  nodes := by
    rw [initialized, List.map_nil, List.append_nil]

end Pool

theorem pool_right_iff (max_thread_count : ℕ) (threads : ℕ → T) (events : List (Event T)) :
    Calls.Throughout step Right (fun _ _ => True)
        (some (Pool.initialized max_thread_count threads)) events ↔
      Calls.EachIn step Fits (some (Pool.initialized max_thread_count threads)) events := by
  have hordered : ∃ s, some (Pool.initialized max_thread_count threads) = some s ∧
      s.Shared ∧ s.Known :=
    ⟨_, rfl, Pool.initialized_shared max_thread_count threads, fun _ _ h => Bool.noConfusion h⟩
  have hright : ∀ q : Option (Pool T), (∃ s, q = some s ∧ s.Shared ∧ s.Known) → Right q := by
    rintro _ ⟨s, rfl, hshared, -⟩
    exact hshared
  apply Calls.throughout_iff (U := fun _ _ => True) hright _ _ hordered Calls.eachIn_true
  · rintro _ e ⟨s, rfl, hshared, hknown⟩ - hfits
    exact ⟨trivial, Pool.goes_of_fits hshared hknown hfits⟩
  · rintro _ e ⟨s, rfl, hshared, hknown⟩ - - hgoes
    exact Pool.fits_of_right hshared hknown hgoes

theorem registeredTwice_not_right :
    ¬ Calls.Throughout step Right (fun _ _ => True) (some (Pool.initialized 1 fun _ => 0))
      [.construct (1 : ℕ), .RegisterThread 1, .RegisterThread 1, .exit 1] := by
  intro h
  have hlast : Right (step (step (step (step (some (Pool.initialized 1 fun _ => 0))
      (.construct (1 : ℕ))) (.RegisterThread 1)) (.RegisterThread 1)) (.exit 1)) :=
    h.2.2.2.2.2.2.2.2
  have hnodes := hlast.nodes.length_eq
  revert hnodes
  decide

end Awn.ThreadLocalArchive
