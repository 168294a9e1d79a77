import Awn.Ukern.Affinity

namespace Awn.Ukern.Affinity

variable {core_mask : BitVec 64} {core core_count : ℕ}

def ValidMask (core_count : ℕ) (core_mask : BitVec 64) : Prop :=
  core_mask ≠ 0 ∧ ∀ core, core_mask.getLsbD core = true → core < core_count

theorem mem_cores : core ∈ cores core_mask ↔ core_mask.getLsbD core = true := by
  unfold cores
  rw [List.mem_filter, List.mem_range]
  exact ⟨And.right, fun h => ⟨BitVec.lt_of_getLsbD h, h⟩⟩

theorem cores_sorted (core_mask : BitVec 64) : (cores core_mask).Pairwise (· < ·) :=
  List.Pairwise.filter _ List.pairwise_lt_range

theorem cores_ne_nil (h : core_mask ≠ 0) : cores core_mask ≠ [] := by
  intro hnil
  apply h
  apply BitVec.eq_of_getLsbD_eq
  intro i _
  cases hi : core_mask.getLsbD i with
  | false => exact BitVec.getLsbD_zero.symm
  | true =>
    have hmem := mem_cores.mpr hi
    rw [hnil] at hmem
    cases hmem

theorem ValidMask.core_le (h : ValidMask core_count core_mask) (hcount : core_count ≤ 30)
    (hcore : core ∈ cores core_mask) : core ≤ 30 :=
  Nat.le_trans (Nat.le_of_lt (h.2 core (mem_cores.mp hcore))) hcount

theorem getLsbD_one (i : ℕ) : (1 : BitVec 32).getLsbD i = decide (i = 0) := by
  have h := BitVec.getLsbD_one (w := 32) (i := i)
  rw [decide_eq_true (by decide : 0 < 32), Bool.true_and] at h
  exact h

theorem shiftInt_one (h : core ≤ 30) : ∃ bit, shiftInt 1 core = some bit ∧
    ∀ i, bit.getLsbD i = decide (i = core) := by
  refine ⟨_, if_pos (by omega), fun i => ?_⟩
  rw [BitVec.getLsbD_signExtend, BitVec.getLsbD_shiftLeft, BitVec.msb_eq_getLsbD_last,
    BitVec.getLsbD_shiftLeft, getLsbD_one, getLsbD_one]
  rw [Bool.eq_iff_iff]
  split
  · simp only [Bool.and_eq_true, Bool.not_eq_true', decide_eq_true_eq, decide_eq_false_iff_not]
    omega
  · simp only [Bool.and_eq_true, Bool.not_eq_true', decide_eq_true_eq, decide_eq_false_iff_not]
    omega

theorem shiftInt_one_mem {bit : BitVec 64} {i : ℕ} (h : shiftInt 1 core = some bit)
    (hi : bit.getLsbD i = true) (hle : i ≤ 30) : i = core := by
  unfold shiftInt at h
  split at h
  · obtain rfl := Option.some.inj h
    rw [BitVec.getLsbD_signExtend, BitVec.getLsbD_shiftLeft, getLsbD_one] at hi
    rw [if_pos (by omega)] at hi
    simp only [Bool.and_eq_true, Bool.not_eq_true', decide_eq_true_eq, decide_eq_false_iff_not] at hi
    omega
  · cases h

theorem zeroExtend_one (h : core < 32) (i : ℕ) :
    (((1 : BitVec 32) <<< core).zeroExtend 64).getLsbD i = decide (i = core) := by
  rw [BitVec.getLsbD_setWidth, BitVec.getLsbD_shiftLeft, getLsbD_one]
  rw [Bool.eq_iff_iff]
  simp only [Bool.and_eq_true, Bool.not_eq_true', decide_eq_true_eq, decide_eq_false_iff_not]
  omega

theorem validMask_of_one {core_mask : BitVec 64} (h : core < core_count)
    (hbit : ∀ i, core_mask.getLsbD i = decide (i = core)) : ValidMask core_count core_mask := by
  constructor
  · intro hzero
    have hset := hbit core
    rw [hzero, decide_eq_true rfl] at hset
    have hclear : (0 : BitVec 64).getLsbD core = false := BitVec.getLsbD_zero
    rw [hclear] at hset
    cases hset
  · intro i hi
    rw [hbit, decide_eq_true_eq] at hi
    rw [hi]
    exact h

theorem shiftInt_not_one (h : core ≤ 30) : ∃ bits, shiftInt (~~~1) core = some bits ∧
    ∀ i, bits.getLsbD i = (decide (i < 64) && decide (core < i)) := by
  refine ⟨_, if_pos (by omega), fun i => ?_⟩
  rw [BitVec.getLsbD_signExtend, BitVec.getLsbD_shiftLeft, BitVec.msb_eq_getLsbD_last,
    BitVec.getLsbD_shiftLeft, BitVec.getLsbD_not, BitVec.getLsbD_not, getLsbD_one, getLsbD_one]
  rw [Bool.eq_iff_iff]
  split
  · simp only [Bool.and_eq_true, Bool.not_eq_true', decide_eq_true_eq, decide_eq_false_iff_not]
    omega
  · simp only [Bool.and_eq_true, Bool.not_eq_true', decide_eq_true_eq, decide_eq_false_iff_not]
    omega

theorem cores_and {ks : List ℕ} {bits : BitVec 64} (hcores : cores core_mask = core :: ks)
    (hbits : ∀ i, bits.getLsbD i = (decide (i < 64) && decide (core < i))) :
    cores (core_mask &&& bits) = ks := by
  have hsorted := cores_sorted core_mask
  rw [hcores] at hsorted
  have hfilter : cores (core_mask &&& bits) = (cores core_mask).filter (core < ·) := by
    unfold cores
    rw [List.filter_filter]
    apply List.filter_congr
    intro i hi
    rw [BitVec.getLsbD_and, hbits, decide_eq_true (List.mem_range.mp hi), Bool.true_and,
      Bool.and_comm]
  rw [hfilter, hcores, List.filter_cons_of_neg (by simp)]
  apply List.filter_eq_self.mpr
  intro i hi
  exact decide_eq_true ((List.pairwise_cons.mp hsorted).1 i hi)

section Rank

variable {used_count : ℕ → ℕ} {ks : List ℕ} {r : Rank}

def Rank.Found (ks : List ℕ) (r : Rank) : Prop :=
  r.ring_buffer = some r.found_core ∧ r.found_core ∈ ks

theorem rankCores_found (hused : ∀ core, used_count core < 0xffffffff) (all : List ℕ) :
    ∀ (ks : List ℕ) (core_mask : BitVec 64) (r : Rank), cores core_mask = ks →
      (∀ core ∈ ks, core ≤ 30 ∧ core ∈ all) → (r.Found all ∨ (r = { } ∧ ks ≠ [])) →
      ∃ r', rankCores used_count ks.length core_mask r = some r' ∧ r'.Found all := by
  intro ks
  induction ks with
  | nil =>
    intro core_mask r _ _ hr
    rcases hr with hfound | ⟨-, hne⟩
    · exact ⟨r, rfl, hfound⟩
    · exact absurd rfl hne
  | cons core ks ih =>
    intro core_mask r hcores hall hr
    obtain ⟨hle, hmem⟩ := hall core List.mem_cons_self
    obtain ⟨bits, hshift, hbits⟩ := shiftInt_not_one hle
    have hlow : CountRightZeroBits64 core_mask = core := by
      unfold CountRightZeroBits64
      rw [hcores]
      rfl
    rw [List.length_cons]
    unfold rankCores
    dsimp only
    rw [hlow, if_neg (by unfold cMaxCoreCount; omega), hshift, Option.bind_some]
    apply ih _ _ (cores_and hcores hbits) fun other hother => hall other (List.mem_cons_of_mem _ hother)
    left
    split
    · exact ⟨rfl, hmem⟩
    · rename_i hmin
      rcases hr with hfound | ⟨rfl, -⟩
      · exact hfound
      · exact absurd (hused core) hmin

theorem rank_found (hused : ∀ core, used_count core < 0xffffffff) (hcount : core_count ≤ 30)
    (h : ValidMask core_count core_mask) :
    ∃ core, rank used_count core_mask = some core ∧ core_mask.getLsbD core = true := by
  obtain ⟨r, hr, hring, hcore⟩ := rankCores_found hused (cores core_mask) _ core_mask
    { } rfl (fun core hcore => ⟨h.core_le hcount hcore, hcore⟩) (Or.inr ⟨rfl, cores_ne_nil h.1⟩)
  refine ⟨r.found_core, ?_, mem_cores.mp hcore⟩
  unfold rank
  unfold CountOneBits64
  rw [hr, Option.bind_some, hring]
  rfl

end Rank

theorem and_ne_zero {bit : BitVec 64} (hbit : ∀ i, bit.getLsbD i = decide (i = core)) :
    core_mask &&& bit ≠ 0 ↔ core_mask.getLsbD core = true := by
  constructor
  · intro hne
    obtain ⟨i, hi⟩ := List.exists_mem_of_ne_nil _ (cores_ne_nil hne)
    have hand := mem_cores.mp hi
    rw [BitVec.getLsbD_and, hbit, Bool.and_eq_true, decide_eq_true_eq] at hand
    rw [← hand.2]
    exact hand.1
  · intro hset hzero
    have hand : (core_mask &&& bit).getLsbD core = true := by
      rw [BitVec.getLsbD_and, hbit, hset, decide_eq_true rfl, Bool.and_self]
    have hclear : (0 : BitVec 64).getLsbD core = false := BitVec.getLsbD_zero
    rw [hzero, hclear] at hand
    cases hand

theorem keeps_eq {x : Fiber} {core_number : ℕ} (hcount : core_count ≤ 30)
    (h : ValidMask core_count x.core_mask) (hcore : core_number ≤ 30) :
    keeps x core_number = some (decide (CountOneBits64 x.core_mask = 1 ∨
      (x.current_core = core_number ∧ x.core_mask.getLsbD core_number = true))) := by
  unfold keeps onlyCore
  by_cases hone : CountOneBits64 x.core_mask = 1
  · obtain ⟨k, hk⟩ := List.length_eq_one_iff.mp hone
    have hlow : CountRightZeroBits64 x.core_mask = k := by
      unfold CountRightZeroBits64
      rw [hk]
      rfl
    have hmem : k ∈ cores x.core_mask := by
      rw [hk]
      exact List.mem_singleton_self k
    have hle := h.core_le hcount hmem
    obtain ⟨bit, hshift, hbit⟩ := shiftInt_one hle
    have hset := (and_ne_zero hbit).mpr (mem_cores.mp hmem)
    rw [if_pos hone, hlow, hshift, Option.map_some, decide_eq_true hset, Option.bind_some, if_pos rfl,
      decide_eq_true (Or.inl hone)]
  · obtain ⟨bit, hshift, hbit⟩ := shiftInt_one hcore
    rw [if_neg hone, Option.bind_some, if_neg Bool.false_ne_true]
    unfold currentCore
    by_cases hcurrent : x.current_core = core_number
    · rw [if_pos hcurrent, hshift, Option.map_some]
      congr 1
      apply decide_eq_decide.mpr
      rw [and_ne_zero hbit]
      exact ⟨fun hset => Or.inr ⟨hcurrent, hset⟩, fun hor => (hor.resolve_left hone).2⟩
    · rw [if_neg hcurrent, decide_eq_false]
      rintro (hone' | ⟨hcurrent', -⟩)
      · exact hone hone'
      · exact hcurrent hcurrent'

end Awn.Ukern.Affinity

namespace Awn.Ukern.Affinity

inductive Event (F : Type*)
  | createThread (slot : Option F) (reserved : Bool) (thread_func stack_size : BitVec 64)
      (priority : ℤ) (core_id : BitVec 32)
  | setPriority (fiber_local : Option F) (priority : ℤ)
  | setCoreMask (fiber_local : Option F) (core_mask : BitVec 64)
  | setActivity (fiber_local : Option F) (activity_level : ActivityLevel)
  | wait (core : ℕ)
  | exit (core : ℕ)
  | endWait (f : F)
  | suspend (f : F)
  | schedule (core : ℕ)
  | handlePrevious (core : ℕ)
  | enter

variable {F : Type*} [DecidableEq F]

inductive Step : State F → Event F → State F → Prop
  | createThread {s s' : State F} {slot : Option F} {reserved : Bool}
      {thread_func stack_size : BitVec 64} {priority : ℤ} {core_id : BitVec 32} {r : ThreadResult} :
      (∀ f, slot = some f → s.allocated f = false) →
      s.createThreadImpl slot reserved thread_func stack_size priority core_id = some (r, s') →
        Step s (.createThread slot reserved thread_func stack_size priority core_id) s'
  | setPriority {s s' : State F} {fiber_local : Option F} {priority : ℤ} {r : ThreadResult} :
      (∀ f, fiber_local = some f → s.registered f = true) →
      s.setPriorityImpl fiber_local priority = some (r, s') →
        Step s (.setPriority fiber_local priority) s'
  | setCoreMask {s s' : State F} {fiber_local : Option F} {core_mask : BitVec 64}
      {r : ThreadResult} :
      (∀ f, fiber_local = some f → s.registered f = true) →
      s.setCoreMaskImpl fiber_local core_mask = some (r, s') →
        Step s (.setCoreMask fiber_local core_mask) s'
  | setActivity {s s' : State F} {fiber_local : Option F} {activity_level : ActivityLevel}
      {r : ThreadResult} :
      (∀ f, fiber_local = some f → s.registered f = true) →
      s.setActivityImpl fiber_local activity_level = some (r, s') →
        Step s (.setActivity fiber_local activity_level) s'
  | wait {s : State F} {core : ℕ} {f : F} :
      s.running core = some f →
        Step s (.wait core) (s.modify f fun x => { x with fiber_state := .Waiting })
  | exit {s : State F} {core : ℕ} {f : F} :
      s.running core = some f →
        Step s (.exit core) (s.modify f fun x => { x with fiber_state := .Exiting })
  | endWait {s s' : State F} {f : F} :
      s.registered f = true → s.endFiberWaitImpl f = some s' → Step s (.endWait f) s'
  | suspend {s : State F} {f : F} :
      s.registered f = true →
        Step s (.suspend f) (s.modify f fun x => { x with fiber_state := .Suspended })
  | schedule {s s' : State F} {core : ℕ} {fiber : Option F} :
      core < s.core_count → s.running core = none → s.schedule core = some (s', fiber) →
        Step s (.schedule core) s'
  | handlePrevious {s s' : State F} {core : ℕ} {f : F} :
      s.running core = some f → (core = 0 → s.entered = true) →
      s.handlePrevious f core = some s' → Step s (.handlePrevious core) s'
  | enter {s s' : State F} {f : F} :
      s.running 0 = some f → s.entered = false → s.enter f = some s' → Step s .enter s'

inductive Reachable (core_count : ℕ) (P : State F → Event F → Prop) : State F → Prop
  | start {s : State F} {main_fiber : F} :
      State.initialized core_count main_fiber = some s → Reachable core_count P s
  | step {s s' : State F} {e : Event F} :
      Reachable core_count P s → P s e → Step s e s' → Reachable core_count P s'

def removals (key : F → ℤ) : ℕ → List F → List F
  | 0, _ => []
  | fuel + 1, queue =>
    match PriorityQueue.removeFront key queue with
    | none => []
    | some (fiber, rest) => fiber :: removals key fuel rest

section Conditions

variable (s : State F)

def ring (core : ℕ) : List F := (s.scheduler_local_ring_table core).contents cMaxThreadCount

def Removable (x : Fiber) : Prop :=
  x.fiber_state = .ScheduledLocal → x.activity_level ≠ .Suspended →
    (s.scheduler_local_ring_table x.current_core).m_offset = 0

def Keeps (core : ℕ) (f : F) : Prop :=
  CountOneBits64 (s.fiber f).core_mask = 1 ∨
    ((s.fiber f).current_core = core ∧ (s.fiber f).core_mask.getLsbD core = true)

instance (core : ℕ) (f : F) : Decidable (Keeps s core f) :=
  inferInstanceAs (Decidable (_ ∨ _))

def Met : Event F → Prop
  | .createThread _ _ _ _ _ core_id =>
    core_id ≠ cDefaultCoreId → core_id.toNat ≠ s.core_count
  | .setPriority fiber_local priority =>
    ¬(-2 ≤ priority ∧ priority ≤ 2) → ∀ f, fiber_local = some f →
      (s.fiber f).priority ≠ priority → Removable s (s.fiber f)
  | .setCoreMask fiber_local core_mask =>
    core_mask &&& ~~~s.core_mask = 0 → ∀ f, fiber_local = some f →
      core_mask ≠ 0 ∧ core_mask.getLsbD s.core_count = false ∧ Removable s (s.fiber f) ∧
        ∀ core, f ∈ ring s core → core_mask.getLsbD core = true ∨
          ((s.fiber f).fiber_state = .ScheduledLocal ∧ (s.fiber f).activity_level ≠ .Suspended ∧
            core = (s.fiber f).current_core ∧ (ring s core).count f = 1)
  | .setActivity fiber_local activity_level =>
    ∀ f, fiber_local = some f → (s.fiber f).activity_level ≠ activity_level →
      Removable s { s.fiber f with activity_level := activity_level }
  | .schedule core =>
    ring s core = [] → ∀ f, (removals (fun f => (s.fiber f).priority) s.thread_queue.length
      s.thread_queue).find? (fun f => Keeps s core f) = some f →
        (s.fiber f).core_mask.getLsbD core = true
  | .handlePrevious core =>
    ∀ f, s.running core = some f → (s.fiber f).fiber_state = .Exiting →
      f ∉ s.thread_queue ∧ (∀ other, f ∉ ring s other) ∧
        ∀ other, s.running other = some f → other = core
  | .enter => ∀ f, s.running 0 = some f → Removable s (s.fiber f)
  | .wait _ | .exit _ | .endWait _ | .suspend _ => True

end Conditions

end Awn.Ukern.Affinity
