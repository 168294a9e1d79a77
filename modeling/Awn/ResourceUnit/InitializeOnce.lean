import Awn.ResourceUnit.Unit
import Mathlib.Data.Fintype.Card

/-!
`ResourceUnit::InitializeResource` with all its callers. A step is one atomic operation of a caller,
or what it does between two of them.
-/

namespace Awn.ResourceUnit

inductive Pc
  | enter
  | waitEvent
  | readStatus
  | waitLoad
  | signal (outcome : Bool)
  | returned (outcome : Bool)
  deriving DecidableEq

structure State (T : Type*) where
  unit : ResourceUnit
  pc : T → Pc
  performers : List T
  outcomes : List Bool

variable {T : Type*} [DecidableEq T]

def State.goto (s : State T) (t : T) (pc : Pc) : State T :=
  { s with pc := Function.update s.pc t pc }

def enterStep (s : State T) (t : T) : State T :=
  let last_count := s.unit.m_resource_initialize_guard + 1
  let s := { s with unit := { s.unit with m_resource_initialize_guard := last_count } }
  if 0 < last_count then s.goto t .waitEvent
  else { s.goto t .waitLoad with performers := t :: s.performers }

def step (s : State T) (t : T) : State T :=
  match s.pc t with
  | .enter => enterStep s t
  | .waitEvent => if s.unit.m_status_update_event = true then s.goto t .readStatus else s
  | .readStatus => s.goto t (.returned s.unit.initialized)
  | .waitLoad =>
    if s.unit.m_load_task_finish_event = true then
      let (outcome, unit) := s.unit.initializeBody
      { s.goto t (.signal outcome) with unit := unit, outcomes := outcome :: s.outcomes }
    else s
  | .signal outcome =>
    { s.goto t (.returned outcome) with unit := { s.unit with m_status_update_event := true } }
  | .returned _ => s

def start (unit : ResourceUnit) : State T := ⟨unit, fun _ => .enter, [], []⟩

def run (unit : ResourceUnit) (schedule : List T) : State T := schedule.foldl step (start unit)

def RunsOnce (T : Type*) [DecidableEq T] (unit : ResourceUnit) : Prop :=
  ∀ schedule : List T,
    ((∀ t, (run unit schedule).pc t ≠ .enter) → ∃ t, (run unit schedule).performers = [t]) ∧
      ∀ t outcome, (run unit schedule).pc t = .returned outcome →
        (run unit schedule).outcomes = [outcome]

/-- The statuses in which `ResourceBinder::Complete` has the resource initialised. -/
def Initializable : Status → Prop
  | .Loaded | .InResourceInitialize | .ResourcePreFinalized | .ResourceInitialized => True
  | _ => False

section Body

variable {unit : ResourceUnit}

theorem postInitialize_initialized (resource : Resource) :
    (unit.postInitialize resource).2.initialized = (unit.postInitialize resource).1 := by
  unfold postInitialize
  split <;> rfl

theorem initializeBody_initialized (h : unit.initialized = true) :
    unit.initializeBody.2.initialized = unit.initializeBody.1 := by
  unfold initializeBody
  split
  · rfl
  · split_ifs
    · exact h
    · rfl
    · apply postInitialize_initialized
    · apply postInitialize_initialized

theorem Initializable.initialized (h : Initializable unit.m_status) : unit.initialized = true := by
  unfold ResourceUnit.initialized
  cases hstatus : unit.m_status <;> simp_all [Initializable]

end Body

section Guard

variable [Fintype T] {s : State T} {t : T}

def arrived (s : State T) : Finset T := Finset.univ.filter fun t => s.pc t ≠ .enter

structure Guarded (s : State T) : Prop where
  guard : s.unit.m_resource_initialize_guard = BitVec.ofNat 32 (arrived s).card
  performers : s.performers.length = (arrived s).card / 2 ^ 32

omit [Fintype T] in
theorem step_pc (s : State T) (t : T) :
    ∃ pc, pc ≠ .enter ∧ (step s t).pc = Function.update s.pc t pc := by
  have hstay : ∀ pc, s.pc t = pc → s.pc = Function.update s.pc t pc := by
    intro pc hpc
    rw [← hpc, Function.update_eq_self]
  unfold step
  cases hpc : s.pc t with
  | enter =>
    simp only [enterStep, State.goto]
    split
    · exact ⟨.waitEvent, by decide, rfl⟩
    · exact ⟨.waitLoad, by decide, rfl⟩
  | waitEvent =>
    dsimp only
    split
    · exact ⟨.readStatus, by decide, rfl⟩
    · exact ⟨.waitEvent, by decide, hstay _ hpc⟩
  | readStatus => exact ⟨.returned _, Pc.noConfusion, rfl⟩
  | waitLoad =>
    dsimp only
    split
    · exact ⟨.signal _, Pc.noConfusion, rfl⟩
    · exact ⟨.waitLoad, by decide, hstay _ hpc⟩
  | signal outcome => exact ⟨.returned outcome, Pc.noConfusion, rfl⟩
  | returned outcome => exact ⟨.returned outcome, Pc.noConfusion, hstay _ hpc⟩

omit [DecidableEq T] in
theorem mem_arrived : t ∈ arrived s ↔ s.pc t ≠ .enter := by
  simp only [arrived, Finset.mem_filter, Finset.mem_univ, true_and]

theorem arrived_step (s : State T) (t : T) : arrived (step s t) = insert t (arrived s) := by
  obtain ⟨pc, hpc, hstep⟩ := step_pc s t
  ext t'
  rw [Finset.mem_insert, mem_arrived, mem_arrived, hstep, Function.update_apply]
  split_ifs with ht
  · exact iff_of_true hpc (Or.inl ht)
  · simp only [ht, false_or]

theorem arrived_run (unit : ResourceUnit) (schedule : List T) :
    arrived (run unit schedule) = schedule.toFinset := by
  induction schedule using List.reverseRecOn with
  | nil =>
    ext t
    simp [mem_arrived, run, start]
  | append_singleton schedule t ih =>
    rw [run, List.foldl_concat, arrived_step]
    change insert t (arrived (run unit schedule)) = _
    rw [ih, List.toFinset_append, List.toFinset_cons, List.toFinset_nil, Finset.union_insert,
      Finset.union_empty]

theorem initializeBody_guard (unit : ResourceUnit) :
    unit.initializeBody.2.m_resource_initialize_guard = unit.m_resource_initialize_guard := by
  simp only [initializeBody, postInitialize, exitWithoutResource, ReleaseManagedReference,
    DecrementReference]
  repeat' split
  all_goals rfl

omit [Fintype T] in
theorem step_guard (h : s.pc t ≠ .enter) :
    (step s t).unit.m_resource_initialize_guard = s.unit.m_resource_initialize_guard ∧
      (step s t).performers = s.performers := by
  unfold step
  cases hpc : s.pc t with
  | enter => exact absurd hpc h
  | waitLoad =>
    dsimp only
    split
    · exact ⟨initializeBody_guard s.unit, rfl⟩
    · exact ⟨rfl, rfl⟩
  | waitEvent =>
    dsimp only
    split <;> exact ⟨rfl, rfl⟩
  | readStatus | signal | returned => exact ⟨rfl, rfl⟩

theorem Guarded.enter (hs : Guarded s) (hpc : s.pc t = .enter) : Guarded (step s t) := by
  have hcard : (arrived (step s t)).card = (arrived s).card + 1 := by
    rw [arrived_step, Finset.card_insert_of_notMem (fun h => mem_arrived.mp h hpc)]
  have hguard : s.unit.m_resource_initialize_guard + 1 =
      BitVec.ofNat 32 ((arrived s).card + 1) := by
    rw [hs.guard, BitVec.ofNat_add]
    rfl
  have hstep : step s t = enterStep s t := by
    unfold step
    rw [hpc]
  have hzero : 0 < s.unit.m_resource_initialize_guard + 1 ↔
      ((arrived s).card + 1) % 2 ^ 32 ≠ 0 := by
    rw [hguard, BitVec.lt_def, BitVec.toNat_ofNat]
    exact Nat.pos_iff_ne_zero
  constructor
  · rw [hcard, ← hguard, hstep, enterStep]
    dsimp only
    split <;> rfl
  · rw [hcard, hstep, enterStep]
    dsimp only
    split_ifs with hlast
    · have hne := hzero.mp hlast
      have hperformers := hs.performers
      simp only [State.goto]
      omega
    · have heq := not_not.mp (mt hzero.mpr hlast)
      have hperformers := hs.performers
      simp only [List.length_cons]
      omega

theorem Guarded.step (hs : Guarded s) (t : T) : Guarded (step s t) := by
  by_cases hpc : s.pc t = .enter
  · exact hs.enter hpc
  · obtain ⟨hguard, hperformers⟩ := step_guard hpc
    have harrived : arrived (ResourceUnit.step s t) = arrived s := by
      rw [arrived_step, Finset.insert_eq_of_mem (mem_arrived.mpr hpc)]
    exact ⟨by rw [hguard, harrived, hs.guard], by rw [hperformers, harrived, hs.performers]⟩

theorem run_guarded {unit : ResourceUnit} (h : unit.m_resource_initialize_guard = 0)
    (schedule : List T) : Guarded (run unit schedule) := by
  induction schedule using List.reverseRecOn with
  | nil =>
    have hnone : arrived (run unit []) = (∅ : Finset T) := arrived_run unit []
    exact ⟨by rw [hnone]; exact h, by rw [hnone, Finset.card_empty]; rfl⟩
  | append_singleton schedule t ih =>
    rw [run, List.foldl_concat]
    exact ih.step t

end Guard

section Progress

def Pc.Held (pc : Pc) : Prop := pc = .enter ∨ pc = .waitEvent

inductive Progress (s : State T) : Prop
  | before : s.performers = [] → s.outcomes = [] → s.unit.m_status_update_event = false →
      s.unit.initialized = true → (∀ t, (s.pc t).Held) → Progress s
  | working (p : T) : s.performers = [p] → s.outcomes = [] →
      s.unit.m_status_update_event = false → s.unit.initialized = true → s.pc p = .waitLoad →
      (∀ t, t ≠ p → (s.pc t).Held) → Progress s
  | signalling (p : T) (outcome : Bool) : s.performers = [p] → s.outcomes = [outcome] →
      s.unit.m_status_update_event = false → s.unit.initialized = outcome →
      s.pc p = .signal outcome → (∀ t, t ≠ p → (s.pc t).Held) → Progress s
  | performed (p : T) (outcome : Bool) : s.performers = [p] → s.outcomes = [outcome] →
      s.unit.initialized = outcome →
      (∀ t, (s.pc t).Held ∨ s.pc t = .readStatus ∨ s.pc t = .returned outcome) → Progress s

variable {s : State T} {t : T}

omit [DecidableEq T] in
theorem eq_of_not_held {p : T} (hothers : ∀ t, t ≠ p → (s.pc t).Held) (h : ¬ (s.pc t).Held) :
    t = p := by
  by_contra hne
  exact h (hothers t hne)

omit [DecidableEq T] in
theorem Progress.returned (h : Progress s) {outcome : Bool} (hpc : s.pc t = .returned outcome) :
    s.outcomes = [outcome] := by
  have hheld : ¬ (s.pc t).Held := by
    rintro (h | h) <;> simp [hpc] at h
  cases h with
  | before _ _ _ _ hothers => exact absurd (hothers t) hheld
  | working p _ _ _ _ hp hothers | signalling p _ _ _ _ _ hp hothers =>
    simp [← eq_of_not_held hothers hheld, hpc] at hp
  | performed p outcome' _ houtcomes _ hothers =>
    obtain h | h | h := hothers t
    · exact absurd h hheld
    · simp [hpc] at h
    · rw [houtcomes, ← Pc.returned.inj (hpc.symm.trans h)]

def waits (s : State T) (t : T) (guard : BitVec 32) : State T :=
  { s.goto t .waitEvent with unit := { s.unit with m_resource_initialize_guard := guard } }

theorem held_goto {P : T → Prop} {pc : Pc} (hpc : pc.Held)
    (h : ∀ t', P t' → (s.pc t').Held) : ∀ t', P t' → ((s.goto t pc).pc t').Held := by
  intro t' ht'
  simp only [State.goto, Function.update_apply]
  split_ifs
  · exact hpc
  · exact h t' ht'

theorem Progress.waits (h : Progress s) (hpc : (s.pc t).Held) (guard : BitVec 32) :
    Progress (waits s t guard) := by
  have hwait : Pc.waitEvent.Held := Or.inr rfl
  have hstays : ∀ {p : T} {pc : Pc}, ¬ pc.Held → s.pc p = pc →
      (ResourceUnit.waits s t guard).pc p = pc := by
    intro p pc hheld hp
    have hne : p ≠ t := fun heq => hheld (hp ▸ heq ▸ hpc)
    exact (Function.update_of_ne hne _ _).trans hp
  cases h with
  | before hperformers houtcomes hevent hstatus hothers =>
    exact .before hperformers houtcomes hevent hstatus
      fun t' => held_goto (P := fun _ => True) hwait (fun t' _ => hothers t') t' trivial
  | working p hperformers houtcomes hevent hstatus hp hothers =>
    refine .working p hperformers houtcomes hevent hstatus (hstays ?_ hp) (held_goto hwait hothers)
    rintro (h | h) <;> cases h
  | signalling p outcome hperformers houtcomes hevent hstatus hp hothers =>
    refine .signalling p outcome hperformers houtcomes hevent hstatus (hstays ?_ hp)
      (held_goto hwait hothers)
    rintro (h | h) <;> cases h
  | performed p outcome hperformers houtcomes hstatus hothers =>
    refine .performed p outcome hperformers houtcomes hstatus fun t' => ?_
    simp only [ResourceUnit.waits, State.goto, Function.update_apply]
    split_ifs
    · exact Or.inl hwait
    · exact hothers t'

theorem Progress.enter (h : Progress s) (hpc : s.pc t = .enter)
    (hone : (step s t).performers.length ≤ 1) : Progress (step s t) := by
  have hstep : step s t = enterStep s t := by
    unfold step
    rw [hpc]
  rw [hstep] at hone ⊢
  unfold enterStep at hone ⊢
  dsimp only at hone ⊢
  split_ifs at hone ⊢ with hlast
  · exact h.waits (Or.inl hpc) _
  · cases h with
    | before hperformers houtcomes hevent hstatus hothers =>
      refine .working t (by simp [hperformers]) houtcomes hevent hstatus
        (Function.update_self _ _ _) fun t' ht' => ?_
      simpa [State.goto, Function.update_of_ne ht'] using hothers t'
    | working p hperformers | signalling p _ hperformers | performed p _ hperformers =>
      simp [hperformers] at hone

theorem initializeBody_event (unit : ResourceUnit) :
    unit.initializeBody.2.m_status_update_event = unit.m_status_update_event := by
  simp only [initializeBody, postInitialize, exitWithoutResource, ReleaseManagedReference,
    DecrementReference]
  repeat' split
  all_goals rfl

theorem Progress.blocked (h : Progress s) (hpc : s.pc t = .waitEvent) :
    Progress (step s t) := by
  unfold step
  rw [hpc]
  dsimp only
  split_ifs with hevent
  · cases h with
    | before _ _ hclear | working _ _ _ hclear | signalling _ _ _ _ hclear =>
      simp [hclear] at hevent
    | performed p outcome hperformers houtcomes hstatus hothers =>
      refine .performed p outcome hperformers houtcomes hstatus fun t' => ?_
      simp only [State.goto, Function.update_apply]
      split_ifs
      · exact Or.inr (Or.inl rfl)
      · exact hothers t'
  · exact h

theorem Progress.step (h : Progress s) (t : T)
    (hone : (step s t).performers.length ≤ 1) : Progress (step s t) := by
  cases hpc : s.pc t with
  | enter => exact h.enter hpc hone
  | waitEvent => exact h.blocked hpc
  | readStatus =>
    have hheld : ¬ (s.pc t).Held := by rintro (h | h) <;> simp [hpc] at h
    cases h with
    | before _ _ _ _ hothers => exact absurd (hothers t) hheld
    | working p _ _ _ _ hp hothers | signalling p _ _ _ _ _ hp hothers =>
      simp [← eq_of_not_held hothers hheld, hpc] at hp
    | performed p outcome hperformers houtcomes hstatus hothers =>
      unfold ResourceUnit.step
      rw [hpc]
      refine .performed p outcome hperformers houtcomes hstatus fun t' => ?_
      simp only [State.goto, Function.update_apply]
      split_ifs
      · exact Or.inr (Or.inr (congrArg _ hstatus))
      · exact hothers t'
  | waitLoad =>
    have hheld : ¬ (s.pc t).Held := by rintro (h | h) <;> simp [hpc] at h
    cases h with
    | before _ _ _ _ hothers => exact absurd (hothers t) hheld
    | working p hperformers houtcomes hevent hstatus hp hothers =>
      obtain rfl := eq_of_not_held hothers hheld
      unfold ResourceUnit.step
      rw [hpc]
      dsimp only
      split_ifs
      · refine .signalling t _ hperformers (congrArg _ houtcomes)
          ((initializeBody_event s.unit).trans hevent) (initializeBody_initialized hstatus)
          (Function.update_self _ _ _) fun t' ht' => ?_
        simpa [State.goto, Function.update_of_ne ht'] using hothers t' ht'
      · exact .working t hperformers houtcomes hevent hstatus hp hothers
    | signalling p _ _ _ _ _ hp hothers =>
      simp [← eq_of_not_held hothers hheld, hpc] at hp
    | performed p outcome _ _ _ hothers => exact absurd (hothers t) (by simp [hpc, Pc.Held])
  | signal outcome =>
    have hheld : ¬ (s.pc t).Held := by rintro (h | h) <;> simp [hpc] at h
    cases h with
    | before _ _ _ _ hothers => exact absurd (hothers t) hheld
    | working p _ _ _ _ hp hothers => simp [← eq_of_not_held hothers hheld, hpc] at hp
    | signalling p outcome' hperformers houtcomes hevent hstatus hp hothers =>
      obtain rfl := eq_of_not_held hothers hheld
      obtain rfl := Pc.signal.inj (hpc.symm.trans hp)
      unfold ResourceUnit.step
      rw [hpc]
      refine .performed t outcome hperformers houtcomes hstatus fun t' => ?_
      simp only [State.goto, Function.update_apply]
      split_ifs with ht'
      · exact Or.inr (Or.inr rfl)
      · exact Or.inl (hothers t' ht')
    | performed p outcome _ _ _ hothers => exact absurd (hothers t) (by simp [hpc, Pc.Held])
  | returned outcome =>
    unfold ResourceUnit.step
    rw [hpc]
    exact h

end Progress

section Runs

variable [Fintype T] {unit : ResourceUnit}

theorem run_progress (hguard : unit.m_resource_initialize_guard = 0)
    (hevent : unit.m_status_update_event = false) (hstatus : Initializable unit.m_status)
    (hcard : Fintype.card T < 2 ^ 33) (schedule : List T) : Progress (run unit schedule) := by
  induction schedule using List.reverseRecOn with
  | nil => exact .before rfl rfl hevent hstatus.initialized fun t => Or.inl rfl
  | append_singleton schedule t ih =>
    have hlength : (run unit (schedule ++ [t])).performers.length ≤ 1 := by
      have hle := Finset.card_le_univ (arrived (run unit (schedule ++ [t])))
      rw [(run_guarded hguard (schedule ++ [t])).performers]
      omega
    rw [run, List.foldl_concat] at hlength ⊢
    exact ih.step t hlength

theorem run_all (hguard : unit.m_resource_initialize_guard = 0) {schedule : List T}
    (hall : ∀ t, (run unit schedule).pc t ≠ .enter) :
    (run unit schedule).performers.length = Fintype.card T / 2 ^ 32 := by
  have huniv : arrived (run unit schedule) = Finset.univ := by
    ext t
    simp only [mem_arrived, Finset.mem_univ, iff_true]
    exact hall t
  rw [(run_guarded hguard schedule).performers, huniv, Finset.card_univ]

theorem exists_run_all (unit : ResourceUnit) :
    ∃ schedule : List T, ∀ t, (run unit schedule).pc t ≠ .enter := by
  refine ⟨Finset.univ.toList, fun t => ?_⟩
  rw [← mem_arrived, arrived_run, Finset.toList_toFinset]
  exact Finset.mem_univ t

omit [Fintype T] in
theorem early_return (hguard : unit.m_resource_initialize_guard = 0)
    (hevent : unit.m_status_update_event = true) (t : T) :
    (run unit [t, t, t]).pc t = .returned unit.initialized ∧
      (run unit [t, t, t]).outcomes = [] := by
  simp [run, start, step, enterStep, State.goto, initialized, hguard, hevent]

theorem runsOnce_iff (hguard : unit.m_resource_initialize_guard = 0)
    (hstatus : Initializable unit.m_status) :
    RunsOnce T unit ↔ (2 ^ 32 ≤ Fintype.card T ∧ Fintype.card T < 2 ^ 33) ∧
      unit.m_status_update_event = false := by
  constructor
  · intro h
    obtain ⟨schedule, hall⟩ := exists_run_all (T := T) unit
    obtain ⟨p, hp⟩ := (h schedule).1 hall
    have hlength := run_all hguard hall
    rw [hp, List.length_singleton] at hlength
    refine ⟨by omega, ?_⟩
    by_contra hevent
    obtain ⟨hpc, houtcomes⟩ := early_return hguard (Bool.not_eq_false _ ▸ hevent) p
    have hreturned := (h [p, p, p]).2 p _ hpc
    simp [houtcomes] at hreturned
  · rintro ⟨⟨hle, hlt⟩, hevent⟩ schedule
    refine ⟨fun hall => ?_, fun t outcome => ?_⟩
    · apply List.length_eq_one_iff.mp
      rw [run_all hguard hall]
      omega
    · exact (run_progress hguard hevent hstatus hlt schedule).returned

omit [Fintype T] in
theorem run_alone (unit : ResourceUnit) (t : T) :
    unit.InitializeResource =
      match (run unit [t, t, t, t]).pc t with
      | .returned outcome => some (outcome, (run unit [t, t, t, t]).unit)
      | _ => none := by
  unfold InitializeResource
  by_cases hlast : 0#32 < unit.m_resource_initialize_guard + 1#32
  · cases hevent : unit.m_status_update_event <;>
      simp [run, start, step, enterStep, State.goto, hlast, hevent]
  · cases hfinish : unit.m_load_task_finish_event <;>
      simp [run, start, step, enterStep, State.goto, hlast, hfinish]

/-- A unit that is loaded, and whose resource is to be initialised. -/
def loaded : ResourceUnit where
  m_is_resource_initializable := true
  m_is_file_not_found := false
  m_is_fail_get_file_size := false
  m_is_fail_init_resource := false
  m_is_bad_user_resource_size := false
  m_is_bad_resource_size := false
  m_is_file_not_available := false
  m_is_memory_allocation_failure := false
  m_is_managed := false
  m_is_freeable_for_memory_manager := false
  m_status := .Loaded
  m_reference_count := 1
  m_resource_initialize_guard := 0
  m_resource := some ⟨true, true⟩
  m_load_task_status := .Complete
  m_load_task_finish_event := true
  m_status_update_event := false

theorem runsOnce_iff_loaded : RunsOnce (Fin (2 ^ 32)) loaded := by
  have hstatus : Initializable loaded.m_status := trivial
  apply (runsOnce_iff rfl hstatus).mpr
  rw [Fintype.card_fin]
  exact ⟨⟨Nat.le_refl _, by decide⟩, rfl⟩

theorem alone_not_runsOnce : ¬ RunsOnce Unit loaded := by
  intro h
  obtain ⟨t, ht⟩ := (h [()]).1 (by decide)
  exact absurd ht (by simp [run, start, step, enterStep, State.goto, loaded])

end Runs

end Awn.ResourceUnit
