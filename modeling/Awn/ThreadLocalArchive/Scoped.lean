import Awn.ResourceUnit.SharedBinder
import Awn.ThreadLocalArchive.Pool

/-!
`awn::res::ScopedThreadLocalArchive` on one thread. The binders of the pool's array share the units
of a store, so they stand beside the pool, each at its place. The tasks that a finalised binder
pushes are left to the control thread.
-/

namespace Awn.ThreadLocalArchive

structure Scoped (T U : Type*) where
  pool : Pool T
  resource_binder : ℕ → SharedBinder U
  store : UnitStore U

namespace Scoped

variable {T U : Type*} [LinearOrder T] [DecidableEq U]

section Manager

variable (s : Scoped T U) (thread : T)

def lookup : Option (Scoped T U × Option ℕ) :=
  match s.pool.tls_data thread with
  | some local_archive => some (s, some local_archive)
  | none => (s.pool.RegisterThread thread).map fun (pool, local_archive) =>
    ({ s with pool := pool }, local_archive)

def isInitialized (place : ℕ) : Bool := (s.resource_binder place).IsResourceInitialized s.store

def GetThreadLocalArchive : Option (Scoped T U × Option ℕ) :=
  (s.lookup thread).map fun (s, local_archive) => (s, local_archive.filter s.isInitialized)

def SetThreadLocalArchive (binder_to_reference : SharedBinder U) : Option (Scoped T U × Bool) :=
  (s.GetThreadLocalArchive thread).bind fun (s, local_archive_binder) =>
    match local_archive_binder with
    | none => some (s, false)
    | some place =>
      if s.isInitialized place = true then some (s, false)
      else
        ((s.resource_binder place).ReferenceBinderSync s.store binder_to_reference).map
          fun (binder, store) => ({ s with
            resource_binder := Function.update s.resource_binder place binder
            store := store }, true)

def finalizeBinder (place : ℕ) : Scoped T U :=
  let (binder, store) := (s.resource_binder place).Finalize s.store
  { s with resource_binder := Function.update s.resource_binder place binder, store := store }

end Manager

def enter (s : Scoped T U) (thread : T) (archive_binder : SharedBinder U) :
    Option (Scoped T U × SharedBinder U) :=
  (s.GetThreadLocalArchive thread).bind fun (s, local_archive_binder) =>
    let saved : Option (Scoped T U × SharedBinder U) :=
      match local_archive_binder with
      | none => some (s, .constructed)
      | some place =>
        (SharedBinder.constructed.ReferenceBinderSync s.store (s.resource_binder place)).map
          fun (m_last_binder, store) =>
            ({ s with store := store }.finalizeBinder place, m_last_binder)
    saved.bind fun (s, m_last_binder) =>
      (s.SetThreadLocalArchive thread archive_binder).map fun (s, _) => (s, m_last_binder)

def leave (s : Scoped T U) (thread : T) (m_last_binder : SharedBinder U) : Option (Scoped T U) :=
  (s.GetThreadLocalArchive thread).bind fun (s, local_archive_binder) =>
    let s := match local_archive_binder with
      | none => s
      | some place => s.finalizeBinder place
    (s.SetThreadLocalArchive thread m_last_binder).map fun (s, _) =>
      { s with store := (m_last_binder.Finalize s.store).2 }

end Scoped

inductive Scopes (U : Type*)
  | done
  | scope (archive_binder : SharedBinder U) (body rest : Scopes U)

namespace Scoped

section Runs

variable {T U : Type*} [LinearOrder T] [DecidableEq U] (thread : T)

def run : Scopes U → Scoped T U → Option (Scoped T U)
  | .done, s => some s
  | .scope archive_binder body rest, s =>
    (s.enter thread archive_binder).bind fun (s, m_last_binder) =>
      (run body s).bind fun s => (s.leave thread m_last_binder).bind (run rest)

def current (s : Scoped T U) : Option U :=
  (s.GetThreadLocalArchive thread).bind fun (s, local_archive) =>
    local_archive.bind fun place => (s.resource_binder place).m_resource_unit

def referenceCount (s : Scoped T U) (unit : U) : BitVec 32 := (s.store.units unit).m_reference_count

def Restores : Scopes U → Scoped T U → Prop
  | .done, _ => True
  | .scope archive_binder body rest, s => ∃ inner m_last_binder inner' s',
    s.enter thread archive_binder = some (inner, m_last_binder) ∧
      run thread body inner = some inner' ∧ inner'.leave thread m_last_binder = some s' ∧
      s'.current thread = s.current thread ∧ s'.referenceCount = s.referenceCount ∧
      Restores body inner ∧ Restores rest s'

end Runs

section Lookup

variable {T U : Type*} [LinearOrder T] {thread : T} {s s' : Scoped T U}

def place (s : Scoped T U) (thread : T) : Option ℕ :=
  match s.pool.tls_data thread with
  | some local_archive => some local_archive
  | none =>
    match s.pool.Find thread with
    | some node => some node.m_local_archive_binder
    | none => s.pool.m_free_archive_ring_buffer.head?

structure Keeps (thread : T) (s s' : Scoped T U) : Prop where
  shared : s'.pool.Shared
  resource_binder : s'.resource_binder = s.resource_binder
  store : s'.store = s.store
  place : s'.place thread = s.place thread

theorem Keeps.refl (h : s.pool.Shared) : Keeps thread s s := ⟨h, rfl, rfl, rfl⟩

theorem Keeps.trans {s'' : Scoped T U} (h : Keeps thread s s') (h' : Keeps thread s' s'') :
    Keeps thread s s'' :=
  ⟨h'.shared, h'.resource_binder.trans h.resource_binder, h'.store.trans h.store,
    h'.place.trans h.place⟩

theorem lookup_eq (thread : T) (h : s.pool.Shared) :
    ∃ s', s.lookup thread = some (s', s.place thread) ∧ Keeps thread s s' := by
  unfold lookup place
  cases htls : s.pool.tls_data thread with
  | some local_archive => exact ⟨s, rfl, .refl h⟩
  | none =>
    dsimp only
    unfold Pool.RegisterThread
    cases hfind : s.pool.Find thread with
    | some node =>
      dsimp only
      refine ⟨{ s with pool := s.pool.SetTlsData thread (some node.m_local_archive_binder) }, rfl,
        ⟨h.binders, h.threads, h.nodes⟩, rfl, rfl, ?_⟩
      simp only [place, Pool.SetTlsData, Function.update_self, htls, hfind]
    | none =>
      dsimp only
      cases hring : s.pool.m_free_archive_ring_buffer with
      | nil => exact ⟨s, rfl, .refl h⟩
      | cons binder rest =>
        obtain ⟨pool, hpool, hshared, -, htls', -, node, hnode, hkey, hbinder⟩ :=
          h.register hfind hring
        refine ⟨{ s with pool := pool }, ?_, hshared, rfl, rfl, ?_⟩
        · simp only [hpool, Option.map_some, List.head?_cons]
        · have hfind' : pool.Find thread = some node := hshared.find_eq hnode hkey
          simp only [place, htls', htls, hfind, hfind', hbinder, hring, List.head?_cons]

theorem isInitialized_congr (h : Keeps thread s s') : s'.isInitialized = s.isInitialized := by
  funext place
  rw [isInitialized, isInitialized, h.resource_binder, h.store]

def currentPlace (s : Scoped T U) (thread : T) : Option ℕ := (s.place thread).filter s.isInitialized

theorem Keeps.currentPlace (h : Keeps thread s s') :
    s'.currentPlace thread = s.currentPlace thread := by
  rw [Scoped.currentPlace, Scoped.currentPlace, h.place, isInitialized_congr h]

theorem get_eq (thread : T) (h : s.pool.Shared) : ∃ s', Keeps thread s s' ∧
    s.GetThreadLocalArchive thread = some (s', s.currentPlace thread) := by
  obtain ⟨s', hlookup, hkeeps⟩ := lookup_eq thread h
  refine ⟨s', hkeeps, ?_⟩
  rw [GetThreadLocalArchive, hlookup, Option.map_some]
  dsimp only
  rw [isInitialized_congr hkeeps, currentPlace]

theorem set_eq [DecidableEq U] (thread : T) (h : s.pool.Shared) (archive : SharedBinder U) :
    ∃ s', Keeps thread s s' ∧ s.SetThreadLocalArchive thread archive = some (s', false) := by
  obtain ⟨s', hkeeps, hget⟩ := get_eq thread h
  refine ⟨s', hkeeps, ?_⟩
  rw [SetThreadLocalArchive, hget, Option.bind_some]
  dsimp only
  cases hplace : s.currentPlace thread with
  | none => rfl
  | some place =>
    have hinitialized := (Option.filter_eq_some_iff.mp hplace).2
    dsimp only
    rw [isInitialized_congr hkeeps, if_pos hinitialized]

omit [LinearOrder T] in
theorem isInitialized_unit {place : ℕ} (h : s.isInitialized place = true) :
    (s.resource_binder place).m_load_guard = true ∧
      ∃ unit, (s.resource_binder place).m_resource_unit = some unit := by
  simp only [isInitialized, SharedBinder.IsResourceInitialized, decide_eq_true_eq] at h
  obtain ⟨hguard, hany⟩ := h
  cases hunit : (s.resource_binder place).m_resource_unit with
  | none =>
    rw [hunit] at hany
    cases hany
  | some unit => exact ⟨hguard, unit, rfl⟩

theorem current_eq (h : s.pool.Shared) : s.current thread =
    (s.currentPlace thread).bind fun place => (s.resource_binder place).m_resource_unit := by
  obtain ⟨s', hkeeps, hget⟩ := get_eq thread h
  rw [current, hget, Option.bind_some]
  dsimp only
  rw [hkeeps.resource_binder]

theorem current_eq_none_iff (h : s.pool.Shared) :
    s.current thread = none ↔ s.currentPlace thread = none := by
  rw [current_eq h]
  cases hplace : s.currentPlace thread with
  | none => exact iff_of_true rfl rfl
  | some place =>
    obtain ⟨-, unit, hunit⟩ := isInitialized_unit (Option.filter_eq_some_iff.mp hplace).2
    rw [Option.bind_some, hunit]
    exact iff_of_false nofun nofun

end Lookup

section Scopes

variable {T U : Type*} [LinearOrder T] [DecidableEq U] {thread : T} {s s' inner : Scoped T U}
  {m_last_binder archive_binder : SharedBinder U}

theorem enter_of_none (h : s.pool.Shared) (hnone : s.currentPlace thread = none)
    (archive_binder : SharedBinder U) :
    ∃ s', Keeps thread s s' ∧ s.enter thread archive_binder = some (s', .constructed) := by
  obtain ⟨s₁, hkeeps, hget⟩ := get_eq thread h
  obtain ⟨s₂, hkeeps', hset⟩ := set_eq thread hkeeps.shared archive_binder
  refine ⟨s₂, hkeeps.trans hkeeps', ?_⟩
  rw [enter, hget, hnone, Option.bind_some]
  dsimp only
  rw [Option.bind_some, hset, Option.map_some]

theorem leave_of_none (h : s.pool.Shared) (hnone : s.currentPlace thread = none)
    (m_last_binder : SharedBinder U) : ∃ s', Keeps thread s s' ∧
      s.leave thread m_last_binder =
        some { s' with store := (m_last_binder.Finalize s'.store).2 } := by
  obtain ⟨s₁, hkeeps, hget⟩ := get_eq thread h
  obtain ⟨s₂, hkeeps', hset⟩ := set_eq thread hkeeps.shared m_last_binder
  refine ⟨s₂, hkeeps.trans hkeeps', ?_⟩
  rw [leave, hget, hnone, Option.bind_some]
  dsimp only
  rw [hset, Option.map_some]

theorem run_of_none (scopes : Scopes U) (h : s.pool.Shared)
    (hnone : s.currentPlace thread = none) : ∃ s', Keeps thread s s' ∧
      run thread scopes s = some s' ∧ Restores thread scopes s := by
  induction scopes generalizing s with
  | done => exact ⟨s, .refl h, rfl, trivial⟩
  | scope archive_binder body rest ihbody ihrest =>
    obtain ⟨inner, hinner, henter⟩ := enter_of_none h hnone archive_binder
    obtain ⟨inner', hinner', hbody, hrestores⟩ :=
      ihbody hinner.shared (hinner.currentPlace.trans hnone)
    have hthere := hinner.trans hinner'
    obtain ⟨s', hs', hleave⟩ :=
      leave_of_none hinner'.shared (hthere.currentPlace.trans hnone) .constructed
    have hback := hthere.trans hs'
    have hleave : inner'.leave thread .constructed = some s' := hleave
    obtain ⟨s'', hs'', hrest, hrestores'⟩ :=
      ihrest hback.shared (hback.currentPlace.trans hnone)
    refine ⟨s'', hback.trans hs'', ?_, inner, .constructed, inner', s', henter, hbody, hleave, ?_,
      ?_, hrestores, hrestores'⟩
    · rw [run, henter, Option.bind_some]
      dsimp only
      rw [hbody, Option.bind_some, hleave, Option.bind_some, hrest]
    · rw [(current_eq_none_iff hback.shared).mpr (hback.currentPlace.trans hnone),
        (current_eq_none_iff h).mpr hnone]
    · funext unit
      rw [referenceCount, referenceCount, hback.store]

omit [LinearOrder T] [DecidableEq U] in
theorem finalizeBinder_unit {place : ℕ} (hguard : (s.resource_binder place).m_load_guard = true)
    {unit : U} (hunit : (s.resource_binder place).m_resource_unit = some unit) :
    ((s.finalizeBinder place).resource_binder place).m_resource_unit = none := by
  rw [finalizeBinder]
  dsimp only
  rw [Function.update_self, SharedBinder.Finalize, if_neg (by simp [hguard])]
  simp only [hunit]

theorem enter_of_some (h : s.pool.Shared) {place : ℕ} (hplace : s.currentPlace thread = some place)
    (henter : s.enter thread archive_binder = some (inner, m_last_binder)) :
    inner.pool.Shared ∧ inner.currentPlace thread = none := by
  obtain ⟨s₁, hkeeps, hget⟩ := get_eq thread h
  obtain ⟨hsome, hinitialized⟩ := Option.filter_eq_some_iff.mp hplace
  obtain ⟨hguard, unit, hunit⟩ := isInitialized_unit hinitialized
  rw [enter, hget, hplace, Option.bind_some] at henter
  dsimp only at henter
  obtain ⟨⟨s₂, last⟩, hsaved, hset⟩ := Option.bind_eq_some_iff.mp henter
  obtain ⟨⟨last', store⟩, -, hs₂⟩ := Option.map_eq_some_iff.mp hsaved
  have hs₂ : ({ s₁ with store := store } : Scoped T U).finalizeBinder place = s₂ :=
    congrArg Prod.fst hs₂
  dsimp only at hset
  have hshared : s₂.pool.Shared := by
    rw [← hs₂]
    exact hkeeps.shared
  have hsame : s₂.place thread = some place := by
    rw [← hs₂, ← hsome]
    exact hkeeps.place
  have hleft : (s₂.resource_binder place).m_resource_unit = none := by
    have hbinder := congrFun hkeeps.resource_binder place
    rw [← hs₂]
    exact finalizeBinder_unit (hbinder ▸ hguard) (hbinder ▸ hunit)
  obtain ⟨s₃, hkeeps', hset'⟩ := set_eq thread hshared archive_binder
  rw [hset', Option.map_some] at hset
  obtain ⟨rfl, -⟩ := Prod.mk.inj (Option.some.inj hset)
  refine ⟨hkeeps'.shared, hkeeps'.currentPlace.trans ?_⟩
  rw [currentPlace, hsame, Option.filter_eq_none_iff]
  rintro _ ⟨⟩ hinitialized'
  obtain ⟨-, unit', hunit'⟩ := isInitialized_unit hinitialized'
  rw [hleft] at hunit'
  cases hunit'

omit [LinearOrder T] [DecidableEq U] in
theorem finalizeStore_initialized (m_last_binder : SharedBinder U) :
    ({ s with store := (m_last_binder.Finalize s.store).2 } : Scoped T U).isInitialized =
      s.isInitialized := by
  have hunits : (m_last_binder.Finalize s.store).2.units = s.store.units := by
    rw [SharedBinder.Finalize]
    split_ifs
    · rfl
    · dsimp only
      cases m_last_binder.m_resource_unit <;> rfl
  funext place
  simp only [isInitialized, SharedBinder.IsResourceInitialized, hunits]

theorem not_restores_of_some (h : s.pool.Shared) {place : ℕ}
    (hplace : s.currentPlace thread = some place) (body rest : Scopes U) :
    ¬ Restores thread (.scope archive_binder body rest) s := by
  rintro ⟨inner, m_last_binder, inner', s', henter, hbody, hleave, hcurrent, -⟩
  obtain ⟨hshared, hnone⟩ := enter_of_some h hplace henter
  obtain ⟨inner₁, hinner, hbody', -⟩ := run_of_none body hshared hnone
  obtain rfl := Option.some.inj (hbody.symm.trans hbody')
  obtain ⟨s₁, hkeeps, hleave'⟩ :=
    leave_of_none hinner.shared (hinner.currentPlace.trans hnone) m_last_binder
  obtain rfl := Option.some.inj (hleave.symm.trans hleave')
  have hlost : s₁.currentPlace thread = none :=
    hkeeps.currentPlace.trans (hinner.currentPlace.trans hnone)
  have hleft : current thread { s₁ with store := (m_last_binder.Finalize s₁.store).2 } = none := by
    refine (current_eq_none_iff
      (s := { s₁ with store := (m_last_binder.Finalize s₁.store).2 }) hkeeps.shared).mpr ?_
    rw [← hlost, currentPlace, currentPlace, finalizeStore_initialized]
    rfl
  have hplace' := (current_eq_none_iff h).mp (hcurrent.symm.trans hleft)
  rw [hplace] at hplace'
  cases hplace'

end Scopes

end Scoped

open Scoped in
/-- The scopes restore the archive that is current where none is, and nothing else. -/
theorem scopes_restore_iff {T U : Type*} [LinearOrder T] [DecidableEq U] (thread : T)
    {s : Scoped T U} (h : s.pool.Shared) (scopes : Scopes U) :
    Restores thread scopes s ↔ scopes = .done ∨ s.current thread = none := by
  rw [current_eq_none_iff h]
  constructor
  · intro hrestores
    cases hplace : s.currentPlace thread with
    | none => exact .inr rfl
    | some place =>
      cases scopes with
      | done => exact .inl rfl
      | scope archive_binder body rest =>
        exact absurd hrestores (not_restores_of_some h hplace body rest)
  · rintro (rfl | hnone)
    · trivial
    · obtain ⟨-, -, -, hrestores⟩ := run_of_none scopes h hnone
      exact hrestores

section Cases

def initializedUnit : ResourceUnit where
  m_is_resource_initializable := true
  m_is_file_not_found := false
  m_is_fail_get_file_size := false
  m_is_fail_init_resource := false
  m_is_bad_user_resource_size := false
  m_is_bad_resource_size := false
  m_is_file_not_available := false
  m_is_memory_allocation_failure := false
  m_is_managed := false
  m_is_freeable_for_memory_manager := false
  m_status := .ResourceInitialized
  m_reference_count := 2
  m_resource_initialize_guard := 0
  m_resource := some ⟨true, true⟩
  m_load_task_status := .Complete
  m_load_task_finish_event := true
  m_status_update_event := true

def archiveBinder (unit : ℕ) : SharedBinder ℕ := ⟨false, true, 0, true, .Referenced, some unit⟩

def registered (binder : SharedBinder ℕ) : Scoped ℕ ℕ where
  pool := { Pool.initialized 1 fun _ => 0 with
    tree := [⟨0, 0, 0⟩]
    free_nodes := []
    m_free_archive_ring_buffer := [] }
  resource_binder _ := binder
  store := ⟨fun _ => initializedUnit, []⟩

theorem registered_shared (binder : SharedBinder ℕ) : (registered binder).pool.Shared :=
  ⟨List.Perm.refl [0], List.nodup_singleton 0, List.Perm.refl [0]⟩

theorem scopes_restore_iff_nested : Scoped.Restores 0
    (.scope (archiveBinder 0) (.scope (archiveBinder 1) .done .done) .done)
      (registered .constructed) :=
  (scopes_restore_iff 0 (registered_shared .constructed) _).mpr (.inr rfl)

theorem replaced_not_restores : (registered (archiveBinder 0)).current 0 = some 0 ∧
    ¬ Scoped.Restores 0 (.scope (archiveBinder 1) .done .done) (registered (archiveBinder 0)) :=
  ⟨rfl, Scoped.not_restores_of_some (registered_shared _) rfl .done .done⟩

end Cases

end Awn.ThreadLocalArchive
