import Awn.Calls.Throughout
import Awn.ResourceUnit.Binder
import Mathlib.Data.Nat.Notation
import Mathlib.Logic.Function.Basic

/-!
The default archive of `awn::res::AsyncResourceManager` and the threads that set, acquire and
release it. A step is an access of the count or an operation of the binder.
-/

namespace Awn.DefaultArchive

inductive Pc
  | idle
  /-- `SetDefaultArchive`, before `ReferenceBinderSync`. -/
  | reference (archive_binder : ResourceBinder)
  /-- `SetDefaultArchive`, before it counts. -/
  | count
  /-- `AcquireDefaultArchive`, before it counts. -/
  | raise
  /-- `AcquireDefaultArchive`, before it asks whether the archive is loaded. -/
  | check (last_value : BitVec 32)
  /-- `ReleaseDefaultArchive`, before `Finalize`. -/
  | finalize

inductive Label
  | SetDefaultArchive (archive_binder : Option ResourceBinder)
  | AcquireDefaultArchive
  | ReleaseDefaultArchive
  | next

structure State (T : Type*) where
  m_default_archive_binder : ResourceBinder
  m_default_archive_reference_count : BitVec 32
  outstanding : ℕ
  pc : T → Pc

variable {T : Type*} [DecidableEq T]

def State.goto (s : State T) (t : T) (pc : Pc) : State T :=
  { s with pc := Function.update s.pc t pc }

def SetDefaultArchive (s : State T) (t : T) : Option ResourceBinder → State T × Option Bool
  | none => (s, some false)
  | some archive_binder =>
    if s.m_default_archive_binder.IsLoaded = true then (s, some false)
    else (s.goto t (.reference archive_binder), none)

def AcquireDefaultArchive (s : State T) (t : T) : State T × Option Bool :=
  if s.m_default_archive_reference_count = 0 then (s, some false) else (s.goto t .raise, none)

def ReleaseDefaultArchive (s : State T) (t : T) : State T × Option Bool :=
  let last_value := s.m_default_archive_reference_count - 1
  let s := { s with
    m_default_archive_reference_count := last_value
    outstanding := s.outstanding - 1 }
  (if last_value = 1 then s.goto t .finalize else s, none)

def next (s : State T) (t : T) : State T × Option Bool :=
  match s.pc t with
  | .idle => (s, none)
  | .reference archive_binder =>
    match s.m_default_archive_binder.ReferenceBinderSync archive_binder with
    | none => (s, none)
    | some binder => ({ s.goto t .count with m_default_archive_binder := binder }, none)
  | .count =>
    ({ s.goto t .idle with
      m_default_archive_reference_count := s.m_default_archive_reference_count + 1
      outstanding := s.outstanding + 1 }, some true)
  | .raise =>
    let last_value := s.m_default_archive_reference_count + 1
    ({ s.goto t (.check last_value) with m_default_archive_reference_count := last_value }, none)
  | .check last_value =>
    if last_value < 1 ∨ s.m_default_archive_binder.IsLoaded = false then
      (s.goto t .idle, some false)
    else ({ s.goto t .idle with outstanding := s.outstanding + 1 }, some true)
  | .finalize =>
    ({ s.goto t .idle with
      m_default_archive_binder := s.m_default_archive_binder.Finalize }, none)

def stepResult (s : State T) (c : T × Label) : State T × Option Bool :=
  match s.pc c.1, c.2 with
  | .idle, .SetDefaultArchive archive_binder => SetDefaultArchive s c.1 archive_binder
  | .idle, .AcquireDefaultArchive => AcquireDefaultArchive s c.1
  | .idle, .ReleaseDefaultArchive => ReleaseDefaultArchive s c.1
  | _, .next => next s c.1
  | _, _ => (s, none)

def step (s : State T) (c : T × Label) : State T := (stepResult s c).1

def start : State T where
  m_default_archive_binder := .constructed
  m_default_archive_reference_count := 0
  outstanding := 0
  pc _ := .idle

def Kept (s : State T) : Prop :=
  0 < s.outstanding → s.m_default_archive_binder.IsLoaded = true

structure Right (s : State T) (c : T × Label) : Prop where
  unchanged : (stepResult s c).2 = some false → (s.pc c.1 matches .idle) = true ∧
    (step s c).m_default_archive_reference_count = s.m_default_archive_reference_count ∧
    (step s c).m_default_archive_binder = s.m_default_archive_binder
  last : (s.pc c.1 matches .idle) = true → c.2 = .ReleaseDefaultArchive →
    (((step s c).pc c.1 matches .finalize) = true ↔ s.outstanding = 1)
  referenced : ∀ archive_binder, s.pc c.1 = .reference archive_binder → c.2 = .next →
    (s.m_default_archive_binder.ReferenceBinderSync archive_binder).isSome = true

/-- What a step needs: a set, a binder that was not in use and an archive that is usable; an
acquire, a count that does not wrap; a release, that it is not one of the last two. -/
def Fits (s : State T) (c : T × Label) : Prop :=
  match s.pc c.1, c.2 with
  | .idle, .ReleaseDefaultArchive =>
    1 < s.outstanding ∧ 2 < s.m_default_archive_reference_count.toNat
  | .reference archive_binder, .next => s.m_default_archive_binder.m_load_guard = false ∧
    ∃ unit, archive_binder.m_resource_unit = some unit ∧ unit.IncrementReference.Usable
  | .raise, .next => s.m_default_archive_reference_count ≠ 0xffffffff
  | _, _ => True

def Pc.Relies (count : BitVec 32) (is_loaded : Bool) : Pc → Prop
  | .idle | .reference _ => True
  | .count => count = 0 ∧ is_loaded = true
  | .raise => 0 < count.toNat
  | .check last_value => 0 < count.toNat ∧ 0 < last_value.toNat
  | .finalize => False

structure Inv (s : State T) : Prop where
  outstanding : 0 < s.outstanding → 0 < s.m_default_archive_reference_count.toNat
  counted : 0 < s.m_default_archive_reference_count.toNat →
    s.m_default_archive_binder.IsLoaded = true
  relies : ∀ t, (s.pc t).Relies s.m_default_archive_reference_count
    s.m_default_archive_binder.IsLoaded
  unique : ∀ t t', s.pc t = .count → s.pc t' = .count → t = t'

section Steps

variable {s s' : State T} {t : T}

theorem Inv.change {pc : Pc} (h : Inv s) (hpc : s'.pc = Function.update s.pc t pc)
    (houtstanding : 0 < s'.outstanding → 0 < s'.m_default_archive_reference_count.toNat)
    (hcounted : 0 < s'.m_default_archive_reference_count.toNat →
      s'.m_default_archive_binder.IsLoaded = true)
    (hown : pc.Relies s'.m_default_archive_reference_count s'.m_default_archive_binder.IsLoaded)
    (hothers : ∀ t', t' ≠ t → (s.pc t').Relies s.m_default_archive_reference_count
        s.m_default_archive_binder.IsLoaded →
      (s.pc t').Relies s'.m_default_archive_reference_count s'.m_default_archive_binder.IsLoaded)
    (hunique : pc = .count → ∀ t', s.pc t' ≠ .count) : Inv s' where
  outstanding := houtstanding
  counted := hcounted
  relies t' := by
    rw [hpc, Function.update_apply]
    split_ifs with ht'
    · exact hown
    · exact hothers t' ht' (h.relies t')
  unique t₁ t₂ := by
    simp only [hpc, Function.update_apply]
    split_ifs with h₁ h₂
    · exact fun _ _ => h₁.trans h₂.symm
    · exact fun hcount hother => absurd hother (hunique hcount t₂)
    · exact fun hother hcount => absurd hother (hunique hcount t₁)
    · exact h.unique t₁ t₂

theorem Inv.goto {pc : Pc} (h : Inv s) (hpc : pc ≠ .count)
    (hown : pc.Relies s.m_default_archive_reference_count s.m_default_archive_binder.IsLoaded) :
    Inv (s.goto t pc) :=
  h.change rfl h.outstanding h.counted hown (fun _ _ hrelies => hrelies) fun h => absurd h hpc

theorem Pc.Relies.counted {pc : Pc} {count count' : BitVec 32} {is_loaded : Bool}
    (h : pc.Relies count is_loaded) (hcount : 0 < count.toNat) (hcount' : 0 < count'.toNat) :
    pc.Relies count' is_loaded := by
  cases pc with
  | idle | reference => trivial
  | count => simp [h.1] at hcount
  | raise => exact hcount'
  | check last_value => exact ⟨hcount', h.2⟩
  | finalize => exact h

theorem Inv.release (h : Inv s) (hcount : 2 < s.m_default_archive_reference_count.toNat) :
    (ReleaseDefaultArchive s t).1.pc = s.pc ∧ Inv (ReleaseDefaultArchive s t).1 := by
  have hlast : (s.m_default_archive_reference_count - 1).toNat =
      s.m_default_archive_reference_count.toNat - 1 := by bv_omega
  have hne : s.m_default_archive_reference_count - 1 ≠ 1 := by bv_omega
  unfold ReleaseDefaultArchive
  dsimp only
  rw [if_neg hne]
  refine ⟨rfl, ?_, ?_, ?_, h.unique⟩
  · intro _
    dsimp only
    omega
  · intro _
    exact h.counted (by omega)
  · intro t'
    exact (h.relies t').counted (by omega) (by dsimp only; omega)

omit [DecidableEq T] in
theorem Inv.unused (h : Inv s) (hguard : s.m_default_archive_binder.m_load_guard = false) :
    s.m_default_archive_binder.IsLoaded = false ∧ s.m_default_archive_reference_count = 0 := by
  have hloaded : s.m_default_archive_binder.IsLoaded = false := by
    simp [ResourceBinder.IsLoaded, hguard]
  refine ⟨hloaded, ?_⟩
  have hcounted := mt h.counted (by simp [hloaded])
  bv_omega

theorem Inv.reference (h : Inv s) (hguard : s.m_default_archive_binder.m_load_guard = false)
    {binder : ResourceBinder} (hbinder : binder.IsLoaded = true) :
    Inv { s.goto t .count with m_default_archive_binder := binder } := by
  obtain ⟨hloaded, hcount⟩ := h.unused hguard
  refine h.change rfl h.outstanding (fun _ => hbinder) ⟨hcount, hbinder⟩ ?_ ?_
  · intro t' _ hrelies
    cases hpc : s.pc t' with
    | idle | reference => trivial
    | count => exact ⟨hcount, hbinder⟩
    | raise | check | finalize =>
      rw [hpc, hcount] at hrelies
      simp [Pc.Relies] at hrelies
  · intro _ t' hpc
    have hrelies := h.relies t'
    rw [hpc] at hrelies
    exact absurd hrelies.2 (by simp [hloaded])

theorem Inv.count (h : Inv s) (hpc : s.pc t = .count) :
    Inv { s.goto t .idle with
      m_default_archive_reference_count := s.m_default_archive_reference_count + 1
      outstanding := s.outstanding + 1 } := by
  have hrelies := h.relies t
  rw [hpc] at hrelies
  obtain ⟨hcount, hloaded⟩ := hrelies
  refine h.change rfl (fun _ => by simp [hcount]) (fun _ => hloaded) trivial ?_ Pc.noConfusion
  intro t' ht' hrelies
  cases hpc' : s.pc t' with
  | idle | reference => trivial
  | count => exact absurd (h.unique t' t hpc' hpc) ht'
  | raise | check | finalize =>
    rw [hpc', hcount] at hrelies
    simp [Pc.Relies] at hrelies

theorem Inv.raise (h : Inv s) (hpc : s.pc t = .raise)
    (hmax : s.m_default_archive_reference_count ≠ 0xffffffff) :
    Inv { s.goto t (.check (s.m_default_archive_reference_count + 1)) with
      m_default_archive_reference_count := s.m_default_archive_reference_count + 1 } := by
  have hrelies := h.relies t
  rw [hpc] at hrelies
  have hnext : 0 < (s.m_default_archive_reference_count + 1).toNat := by bv_omega
  exact h.change rfl (fun _ => hnext) (fun _ => h.counted hrelies) ⟨hnext, hnext⟩
    (fun t' _ hother => hother.counted hrelies hnext) Pc.noConfusion

theorem Inv.check (h : Inv s) {last_value : BitVec 32} (hpc : s.pc t = .check last_value) :
    (¬ (last_value < 1 ∨ s.m_default_archive_binder.IsLoaded = false)) ∧
      Inv { s.goto t .idle with outstanding := s.outstanding + 1 } := by
  have hrelies := h.relies t
  rw [hpc] at hrelies
  have hloaded := h.counted hrelies.1
  refine ⟨?_, ?_⟩
  · rintro (hlast | hlost)
    · have := hrelies.2
      bv_omega
    · simp [hloaded] at hlost
  · exact h.change rfl (fun _ => hrelies.1) (fun _ => hloaded) trivial
      (fun _ _ hrelies => hrelies) Pc.noConfusion

theorem Inv.begin (h : Inv s) (hpc : s.pc t = .idle) {label : Label}
    (hlabel : label ≠ .ReleaseDefaultArchive) : Right s (t, label) ∧ Inv (step s (t, label)) := by
  have hidle : (s.pc t matches .idle) = true := by rw [hpc]
  have hquiet : ∀ pc : Pc, pc ≠ .count → pc.Relies s.m_default_archive_reference_count
      s.m_default_archive_binder.IsLoaded → ∀ result, stepResult s (t, label) =
        (s.goto t pc, result) → Right s (t, label) ∧ Inv (step s (t, label)) := by
    intro pc hcount hrelies result hstep
    have hstate : step s (t, label) = s.goto t pc := by rw [step, hstep]
    refine ⟨⟨fun _ => ⟨hidle, by rw [hstate]; exact ⟨rfl, rfl⟩⟩, fun _ hrelease =>
      absurd hrelease hlabel, fun archive_binder hreference => ?_⟩, ?_⟩
    · simp [hpc] at hreference
    · rw [hstate]
      exact h.goto hcount hrelies
  have hsame : s = s.goto t .idle := by
    rw [State.goto, ← hpc, Function.update_eq_self]
  cases label with
  | SetDefaultArchive archive_binder =>
    cases archive_binder with
    | none =>
      apply hquiet .idle Pc.noConfusion trivial (some false)
      rw [← hsame, stepResult, hpc]
      rfl
    | some archive_binder =>
      by_cases hloaded : s.m_default_archive_binder.IsLoaded = true
      · apply hquiet .idle Pc.noConfusion trivial (some false)
        rw [← hsame, stepResult, hpc]
        exact if_pos hloaded
      · apply hquiet (.reference archive_binder) Pc.noConfusion trivial none
        rw [stepResult, hpc]
        exact if_neg hloaded
  | AcquireDefaultArchive =>
    by_cases hcount : s.m_default_archive_reference_count = 0
    · apply hquiet .idle Pc.noConfusion trivial (some false)
      rw [← hsame, stepResult, hpc]
      exact if_pos hcount
    · apply hquiet .raise Pc.noConfusion _ none
      · rw [stepResult, hpc]
        exact if_neg hcount
      · change 0 < s.m_default_archive_reference_count.toNat
        bv_omega
  | ReleaseDefaultArchive => exact absurd rfl hlabel
  | next =>
    apply hquiet .idle Pc.noConfusion trivial none
    rw [← hsame, stepResult, hpc]
    simp only [next, hpc]

theorem Inv.next (h : Inv s) (hbusy : s.pc t ≠ .idle) (hf : Fits s (t, .next)) :
    Right s (t, .next) ∧ Inv (step s (t, .next)) := by
  have hstep : stepResult s (t, .next) = DefaultArchive.next s t := by
    unfold stepResult
    cases hpc : s.pc t <;> first | exact absurd hpc hbusy | rfl
  have hright : (DefaultArchive.next s t).2 ≠ some false →
      (∀ archive_binder, s.pc t = .reference archive_binder →
        (s.m_default_archive_binder.ReferenceBinderSync archive_binder).isSome = true) →
      Right s (t, .next) := by
    intro hresult hreferenced
    refine ⟨fun hfalse => absurd (hstep ▸ hfalse) hresult, fun _ hrelease => ?_,
      fun archive_binder hpc _ => hreferenced archive_binder hpc⟩
    cases hrelease
  rw [step, hstep]
  unfold Fits at hf
  cases hpc : s.pc t with
  | idle => exact absurd hpc hbusy
  | reference archive_binder =>
    simp only [hpc] at hf
    obtain ⟨hguard, unit, hunit, husable⟩ := hf
    obtain ⟨binder, hbinder, hloaded⟩ :=
      (ResourceBinder.referenceBinderSync_iff hguard hunit).mpr husable
    refine ⟨hright ?_ ?_, ?_⟩
    · simp [DefaultArchive.next, hpc, hbinder]
    · intro archive_binder' hpc'
      rw [← Pc.reference.inj (hpc.symm.trans hpc'), hbinder]
      rfl
    · simp only [DefaultArchive.next, hpc, hbinder]
      exact h.reference hguard hloaded
  | count =>
    refine ⟨hright ?_ ?_, ?_⟩
    · simp [DefaultArchive.next, hpc]
    · simp [hpc]
    · simp only [DefaultArchive.next, hpc]
      exact h.count hpc
  | raise =>
    simp only [hpc] at hf
    refine ⟨hright ?_ ?_, ?_⟩
    · simp [DefaultArchive.next, hpc]
    · simp [hpc]
    · simp only [DefaultArchive.next, hpc]
      exact h.raise hpc hf
  | check last_value =>
    obtain ⟨hok, hnext⟩ := h.check hpc
    refine ⟨hright ?_ ?_, ?_⟩
    · simp only [DefaultArchive.next, hpc, if_neg hok]
      decide
    · simp [hpc]
    · simp only [DefaultArchive.next, hpc, if_neg hok]
      exact hnext
  | finalize =>
    have hrelies := h.relies t
    rw [hpc] at hrelies
    exact hrelies.elim

theorem stepResult_busy (hbusy : s.pc t ≠ .idle) {label : Label} (hlabel : label ≠ .next) :
    stepResult s (t, label) = (s, none) := by
  unfold stepResult
  cases hpc : s.pc t <;> cases label <;>
    first | exact absurd hpc hbusy | exact absurd rfl hlabel | rfl

theorem Inv.step (h : Inv s) {c : T × Label} (hf : Fits s c) : Right s c ∧ Inv (step s c) := by
  obtain ⟨t, label⟩ := c
  by_cases hidle : s.pc t = .idle
  · by_cases hlabel : label = .ReleaseDefaultArchive
    · subst hlabel
      unfold Fits at hf
      simp only [hidle] at hf
      obtain ⟨houtstanding, hcount⟩ := hf
      obtain ⟨hpc, hinv⟩ := h.release (t := t) hcount
      have hstep : stepResult s (t, .ReleaseDefaultArchive) = ReleaseDefaultArchive s t := by
        rw [stepResult, hidle]
      rw [DefaultArchive.step, hstep]
      refine ⟨⟨fun hfalse => ?_, fun _ _ => ?_, fun archive_binder hreference => ?_⟩, hinv⟩
      · rw [hstep] at hfalse
        cases hfalse
      · rw [DefaultArchive.step, hstep, hpc, hidle]
        exact iff_of_false Bool.noConfusion (by omega)
      · simp [hidle] at hreference
    · exact h.begin hidle hlabel
  · by_cases hlabel : label = .next
    · subst hlabel
      exact h.next hidle hf
    · rw [DefaultArchive.step, stepResult_busy hidle hlabel]
      refine ⟨⟨fun hfalse => ?_, fun hmatch => ?_, fun _ _ hnext => absurd hnext hlabel⟩, h⟩
      · rw [stepResult_busy hidle hlabel] at hfalse
        cases hfalse
      · cases hpc : s.pc t <;> simp [hpc] at hmatch hidle

end Steps

omit [DecidableEq T] in
theorem start_inv : Inv (start : State T) where
  outstanding h := absurd h (Nat.lt_irrefl 0)
  counted h := absurd h (Nat.lt_irrefl 0)
  relies _ := trivial
  unique _ _ h := Pc.noConfusion h

/-- In a run of which every step has what it needs, the archive is kept and every call is right. -/
theorem archive_kept {calls : List (T × Label)} (h : Calls.EachIn step Fits start calls) :
    Calls.Throughout step Kept Right start calls :=
  (Calls.throughout_iff (F := fun _ _ => True)
    (fun (_ : State T) hinv houtstanding => hinv.counted (hinv.outstanding houtstanding))
    (fun _ _ hinv hfits _ => hinv.step hfits) (fun _ _ _ _ _ _ => trivial) start_inv h).mpr
    Calls.eachIn_true

def archive : ResourceBinder where
  m_is_initialized := false
  m_load_guard := true
  m_is_finalize := 0
  m_complete_guard := true
  m_status := .ResourceInitialized
  m_resource_unit := some
    { m_is_resource_initializable := true
      m_is_file_not_found := false
      m_is_fail_get_file_size := false
      m_is_fail_init_resource := false
      m_is_bad_user_resource_size := false
      m_is_bad_resource_size := false
      m_is_file_not_available := false
      m_is_memory_allocation_failure := false
      m_is_managed := false
      m_is_freeable_for_memory_manager := false
      m_status := .ResourcePostInitialized
      m_reference_count := 1
      m_resource_initialize_guard := 1
      m_resource := some ⟨true, true⟩
      m_load_task_status := .Complete
      m_load_task_finish_event := true
      m_status_update_event := true }

def acquired : ℕ → List (Unit × Label)
  | 0 => [((), .SetDefaultArchive (some archive)), ((), .next), ((), .next)]
  | n + 1 => acquired n ++ [((), .AcquireDefaultArchive), ((), .next), ((), .next)]

theorem archive_kept_acquired :
    Calls.Throughout step Kept Right start (acquired 2 ++ [((), .ReleaseDefaultArchive)]) := by
  have hfirst : (1 : BitVec 32) ≠ 0xffffffff := by decide
  have hsecond : (2 : BitVec 32) ≠ 0xffffffff := by decide
  have hrelease : 1 < 3 ∧ 2 < (3 : BitVec 32).toNat := by decide
  apply archive_kept
  exact ⟨trivial, trivial, trivial, ⟨rfl, _, rfl, rfl, trivial⟩, trivial, trivial, trivial, trivial,
    trivial, hfirst, trivial, trivial, trivial, trivial, trivial, hsecond, trivial, trivial,
    trivial, hrelease, trivial⟩

theorem twoOutstanding_not_kept :
    ¬ Calls.Throughout step Kept Right start (acquired 1 ++ [((), .ReleaseDefaultArchive)]) := by
  intro h
  have hlast := (Calls.Throughout.at_last h).last rfl rfl
  have htwo : ((acquired 1).foldl step start).outstanding = 2 := rfl
  rw [htwo] at hlast
  exact absurd (hlast.mp rfl) (by decide)

end Awn.DefaultArchive
