import Awn.FifoLock.Lock
import Mathlib.Data.Set.Card

namespace Awn

structure BusyMutex where
  m_counter : BitVec 32

namespace BusyMutex

open FifoLock (Event)

def lowHalf (word : BitVec 32) : BitVec 16 := word.extractLsb' 0 16

def highHalf (word : BitVec 32) : BitVec 16 := word.extractLsb' 16 16

def m_release_count (m : BusyMutex) : BitVec 16 := lowHalf m.m_counter

def m_lock_count (m : BusyMutex) : BitVec 16 := highHalf m.m_counter

def create : BusyMutex := ⟨0⟩

def fetchAdd (m : BusyMutex) : BusyMutex := ⟨m.m_counter + 0x10000#32⟩

def incrementRelease (m : BusyMutex) : BusyMutex :=
  ⟨m.m_lock_count ++ (m.m_release_count + 1)⟩

inductive Pc
  | outside
  /-- `Enter`: before the comparison of the two halves of the fetched counter. -/
  | compare (wait : BitVec 32)
  /-- `Enter`: before a read of `m_release_count`. -/
  | spin (wait : BitVec 32)
  /-- `Enter` has returned and `Leave` has not incremented yet. -/
  | inside

structure State (Thread : Type) where
  mutex : BusyMutex
  pc : Thread → Pc

variable {Thread : Type} [DecidableEq Thread]

def State.start : State Thread where
  mutex := create
  pc := fun _ => .outside

def State.goto (s : State Thread) (t : Thread) (pc : Pc) : State Thread :=
  { s with pc := Function.update s.pc t pc }

inductive Step : State Thread → List (Event Thread) → State Thread → Prop
  | fetchAdd {s} (t) : s.pc t = .outside →
      Step s [.arrive t] ({ s with mutex := s.mutex.fetchAdd }.goto t (.compare s.mutex.m_counter))
  | compareEqual {s} (t) (wait) : s.pc t = .compare wait → lowHalf wait = highHalf wait →
      Step s [.grant t] (s.goto t .inside)
  | compareDistinct {s} (t) (wait) : s.pc t = .compare wait → lowHalf wait ≠ highHalf wait →
      Step s [] (s.goto t (.spin wait))
  | spinDone {s} (t) (wait) : s.pc t = .spin wait → s.mutex.m_release_count = highHalf wait →
      Step s [.grant t] (s.goto t .inside)
  | spinAgain {s} (t) (wait) : s.pc t = .spin wait → s.mutex.m_release_count ≠ highHalf wait →
      Step s [] s
  | leave {s} (t) : s.pc t = .inside →
      Step s [.depart t] ({ s with mutex := s.mutex.incrementRelease }.goto t .outside)

def State.outstanding (s : State Thread) : Set Thread := { t | s.pc t ≠ .outside }

inductive Run : List (Event Thread) → State Thread → Prop
  | start : Run [] State.start
  | step {events shown : List (Event Thread)} {s s' : State Thread} : Run events s →
      Step s shown s' → s'.outstanding.encard < 65536 → Run (events ++ shown) s'

end BusyMutex

end Awn

namespace Awn.BusyMutex

open FifoLock (Event arrivals admissions)

@[simp] theorem m_release_count_fetchAdd (m : BusyMutex) :
    m.fetchAdd.m_release_count = m.m_release_count := by
  apply BitVec.eq_of_toNat_eq
  have hhigh : (0x10000#32).toNat = 2 ^ 16 := rfl
  unfold m_release_count fetchAdd lowHalf
  rw [BitVec.extractLsb'_toNat, BitVec.extractLsb'_toNat, BitVec.toNat_add, hhigh,
    Nat.shiftRight_zero, Nat.shiftRight_zero]
  omega

@[simp] theorem m_lock_count_fetchAdd (m : BusyMutex) :
    m.fetchAdd.m_lock_count = m.m_lock_count + 1#16 := by
  apply BitVec.eq_of_toNat_eq
  have hhigh : (0x10000#32).toNat = 2 ^ 16 := rfl
  have hone : (1#16).toNat = 1 := rfl
  unfold m_lock_count fetchAdd highHalf
  rw [BitVec.toNat_add, BitVec.extractLsb'_toNat, BitVec.extractLsb'_toNat, BitVec.toNat_add, hhigh,
    hone, Nat.shiftRight_eq_div_pow, Nat.shiftRight_eq_div_pow]
  omega

@[simp] theorem m_release_count_incrementRelease (m : BusyMutex) :
    m.incrementRelease.m_release_count = m.m_release_count + 1#16 :=
  BitVec.extractLsb'_append_eq_right

@[simp] theorem m_lock_count_incrementRelease (m : BusyMutex) :
    m.incrementRelease.m_lock_count = m.m_lock_count :=
  BitVec.extractLsb'_append_eq_left

def Pc.wait : Pc → Option (BitVec 32)
  | .compare wait | .spin wait => some wait
  | _ => none

variable {Thread : Type}

structure Represents (s : State Thread) (q : FifoLock.State Thread) : Prop where
  nodup : q.queue.Nodup
  mem_iff : ∀ t, t ∈ q.queue ↔ s.pc t ≠ .outside
  lock_count :
    s.mutex.m_lock_count = s.mutex.m_release_count + BitVec.ofNat 16 q.queue.length
  ticket : ∀ t wait, (s.pc t).wait = some wait → ∀ i : ℕ, q.queue[i]? = some t →
    highHalf wait = s.mutex.m_release_count + BitVec.ofNat 16 i
  /-- Only a thread that came to an empty queue fetched equal halves. -/
  first : ∀ t wait, s.pc t = .compare wait → lowHalf wait = highHalf wait →
    q.queue.head? = some t
  inside_iff : ∀ t, s.pc t = .inside ↔ q.admitted = true ∧ q.queue.head? = some t

theorem represents_start : Represents (State.start : State Thread) ⟨[], false⟩ where
  nodup := List.nodup_nil
  mem_iff := by simp [State.start]
  lock_count := by
    change create.m_lock_count = create.m_release_count + 0#16
    decide
  ticket := by simp
  first := by simp [State.start]
  inside_iff := by simp [State.start]

variable {s : State Thread} {q : FifoLock.State Thread} {t : Thread}

theorem Represents.length_lt [DecidableEq Thread] (h : Represents s q) (hbound : s.outstanding.encard < 65536) :
    q.queue.length < 65536 := by
  have heq : s.outstanding = (q.queue.toFinset : Set Thread) := by
    ext t
    simp [State.outstanding, h.mem_iff]
  rw [heq, Set.encard_coe_eq_coe_finsetCard, List.toFinset_card_of_nodup h.nodup] at hbound
  exact_mod_cast hbound

theorem eq_zero_of_add_ofNat_eq {r : BitVec 16} {i : ℕ} (hi : i < 65536)
    (h : r + BitVec.ofNat 16 i = r) : i = 0 := by
  have hzero : BitVec.ofNat 16 i = 0#16 := by
    bv_omega
  have hnat := congrArg BitVec.toNat hzero
  simp only [BitVec.toNat_ofNat] at hnat
  omega

theorem Represents.not_admitted (h : Represents s q) (hhead : q.queue.head? = some t)
    (ht : s.pc t ≠ .inside) : q.admitted = false := by
  by_contra hadmitted
  apply ht
  rw [h.inside_iff]
  exact ⟨by simpa using hadmitted, hhead⟩

theorem Represents.grant [DecidableEq Thread] (h : Represents s q) (hhead : q.queue.head? = some t)
    (ht : s.pc t ≠ .inside) :
    FifoLock.Step q (.grant t) { q with admitted := true } ∧
      Represents (s.goto t .inside) { q with admitted := true } := by
  have hfree := h.not_admitted hhead ht
  have hmem : t ∈ q.queue := List.mem_of_head? hhead
  constructor
  · obtain ⟨queue, admitted⟩ := q
    obtain ⟨rest, rfl⟩ := List.head?_eq_some_iff.mp hhead
    obtain rfl : admitted = false := hfree
    exact .grant t
  · constructor
    · exact h.nodup
    · intro u
      by_cases hut : u = t
      · simp [State.goto, hut, hmem]
      · simpa [State.goto, hut] using h.mem_iff u
    · exact h.lock_count
    · intro u wait hu i hi
      by_cases hut : u = t
      · simp [State.goto, hut, Pc.wait] at hu
      · exact h.ticket u wait (by simpa [State.goto, hut] using hu) i hi
    · intro u wait hu hhalves
      by_cases hut : u = t
      · simp [State.goto, hut] at hu
      · exact h.first u wait (by simpa [State.goto, hut] using hu) hhalves
    · intro u
      by_cases hut : u = t
      · simp [State.goto, hut, hhead]
      · have hu : s.pc u ≠ .inside := by
          intro hinside
          have := ((h.inside_iff u).mp hinside).1
          simp [hfree] at this
        have hne : t ≠ u := fun heq => hut heq.symm
        simp [State.goto, hut, hu, hhead, hne]

theorem Represents.spin [DecidableEq Thread] {wait : BitVec 32} (h : Represents s q)
    (ht : s.pc t = .compare wait) : Represents (s.goto t (.spin wait)) q := by
  constructor
  · exact h.nodup
  · intro u
    by_cases hut : u = t
    · simp [State.goto, hut, h.mem_iff, ht]
    · simpa [State.goto, hut] using h.mem_iff u
  · exact h.lock_count
  · intro u word hu i hi
    by_cases hut : u = t
    · subst hut
      have hword : wait = word := by simpa [State.goto, Pc.wait] using hu
      exact h.ticket u word (by rw [ht, hword]; rfl) i hi
    · exact h.ticket u word (by simpa [State.goto, hut] using hu) i hi
  · intro u word hu hhalves
    by_cases hut : u = t
    · simp [State.goto, hut] at hu
    · exact h.first u word (by simpa [State.goto, hut] using hu) hhalves
  · intro u
    by_cases hut : u = t
    · have := h.inside_iff t
      simp only [ht, reduceCtorEq, false_iff] at this
      simpa [State.goto, hut] using this
    · simpa [State.goto, hut] using h.inside_iff u

theorem Represents.arrive [DecidableEq Thread] (h : Represents s q) (ht : s.pc t = .outside)
    (hlength : q.queue.length < 65536) (hne : q.admitted = true → q.queue ≠ []) :
    Represents ({ s with mutex := s.mutex.fetchAdd }.goto t (.compare s.mutex.m_counter))
      { q with queue := q.queue ++ [t] } := by
  have hmem : t ∉ q.queue := by
    rw [h.mem_iff, ht]
    simp
  -- The fetched halves are equal exactly when nobody was there.
  have hnil : lowHalf s.mutex.m_counter = highHalf s.mutex.m_counter → q.queue = [] := by
    intro hhalves
    apply List.eq_nil_of_length_eq_zero
    apply eq_zero_of_add_ofNat_eq hlength
    rw [← h.lock_count]
    exact hhalves.symm
  constructor
  · exact List.nodup_append.mpr ⟨h.nodup, List.nodup_singleton t, by
      rintro a ha b hb rfl
      rw [List.mem_singleton] at hb
      exact hmem (hb ▸ ha)⟩
  · intro u
    by_cases hut : u = t
    · simp [State.goto, hut]
    · simpa [State.goto, hut] using h.mem_iff u
  · simp only [State.goto, m_lock_count_fetchAdd, m_release_count_fetchAdd, h.lock_count,
      List.length_append, List.length_singleton, BitVec.ofNat_add, BitVec.add_assoc]
  · intro u wait hu i hi
    simp only [State.goto, m_release_count_fetchAdd]
    by_cases hut : u = t
    · subst hut
      have hwait : s.mutex.m_counter = wait := by simpa [State.goto, Pc.wait] using hu
      have hi' : i = q.queue.length := by
        rw [List.getElem?_append] at hi
        split at hi
        · exact absurd (List.mem_of_getElem? hi) hmem
        · rw [List.getElem?_singleton] at hi
          split at hi
          · omega
          · cases hi
      rw [← hwait, hi']
      exact h.lock_count
    · apply h.ticket u wait (by simpa [State.goto, hut] using hu) i
      rw [List.getElem?_append] at hi
      split at hi
      · exact hi
      · rw [List.getElem?_singleton] at hi
        split at hi
        · exact absurd (Option.some.inj hi).symm hut
        · cases hi
  · intro u wait hu hhalves
    by_cases hut : u = t
    · subst hut
      have hwait : s.mutex.m_counter = wait := by simpa [State.goto] using hu
      simp [hnil (hwait ▸ hhalves)]
    · have := h.first u wait (by simpa [State.goto, hut] using hu) hhalves
      simp [this]
  · intro u
    have hhead : q.admitted = true → (q.queue ++ [t]).head? = q.queue.head? := by
      intro hadmitted
      rw [List.head?_append_of_ne_nil _ (hne hadmitted)]
    by_cases hut : u = t
    · subst hut
      simp only [State.goto, Function.update_self, reduceCtorEq, false_iff, not_and]
      intro hadmitted hu
      rw [hhead hadmitted] at hu
      exact hmem (List.mem_of_head? hu)
    · simp only [State.goto, ne_eq, hut, not_false_eq_true, Function.update_of_ne, h.inside_iff]
      apply and_congr_right
      intro hadmitted
      rw [hhead hadmitted]

theorem Represents.depart [DecidableEq Thread] (h : Represents s q) (ht : s.pc t = .inside) :
    FifoLock.Step q (.depart t) ⟨q.queue.tail, false⟩ ∧
      Represents ({ s with mutex := s.mutex.incrementRelease }.goto t .outside)
        ⟨q.queue.tail, false⟩ := by
  obtain ⟨hadmitted, hhead⟩ := (h.inside_iff t).mp ht
  obtain ⟨queue, admitted⟩ := q
  obtain ⟨rest, rfl⟩ := List.head?_eq_some_iff.mp hhead
  obtain rfl : admitted = true := hadmitted
  obtain ⟨hmem, hnodup⟩ := List.nodup_cons.mp h.nodup
  refine ⟨.depart t, ?_⟩
  -- One more release moves every thread one place to the front.
  have hplace : ∀ i : ℕ, s.mutex.m_release_count + BitVec.ofNat 16 (i + 1) =
      s.mutex.m_release_count + 1#16 + BitVec.ofNat 16 i := by
    intro i
    rw [BitVec.ofNat_add]
    ac_rfl
  constructor
  · exact hnodup
  · intro u
    by_cases hut : u = t
    · simp [State.goto, hut, hmem]
    · have := h.mem_iff u
      simpa [State.goto, hut] using this
  · change s.mutex.incrementRelease.m_lock_count = s.mutex.incrementRelease.m_release_count + _
    rw [m_lock_count_incrementRelease, m_release_count_incrementRelease, List.tail_cons, ← hplace]
    exact h.lock_count
  · intro u wait hu i hi
    simp only [State.goto, m_release_count_incrementRelease]
    by_cases hut : u = t
    · simp [State.goto, hut, Pc.wait] at hu
    · rw [h.ticket u wait (by simpa [State.goto, hut] using hu) (i + 1) hi, hplace]
  · intro u wait hu hhalves
    by_cases hut : u = t
    · simp [State.goto, hut] at hu
    · have := h.first u wait (by simpa [State.goto, hut] using hu) hhalves
      exact absurd (Option.some.inj this).symm hut
  · intro u
    by_cases hut : u = t
    · simp [State.goto, hut]
    · have hne : t ≠ u := fun heq => hut heq.symm
      have := h.inside_iff u
      simpa [State.goto, hut, hne] using this

theorem Represents.step [DecidableEq Thread] {shown : List (Event Thread)} {s' : State Thread}
    (h : Represents s q) (hlength : q.queue.length < 65536)
    (hne : q.admitted = true → q.queue ≠ []) (hstep : Step s shown s') :
    ∃ q', Represents s' q' ∧
      (shown = [] ∧ q' = q ∨ ∃ event, shown = [event] ∧ FifoLock.Step q event q') := by
  cases hstep with
  | fetchAdd t ht => exact ⟨_, h.arrive ht hlength hne, Or.inr ⟨_, rfl, .arrive t⟩⟩
  | compareEqual t wait ht hhalves =>
    obtain ⟨hstep, hrep⟩ := h.grant (h.first t wait ht hhalves) (by simp [ht])
    exact ⟨_, hrep, Or.inr ⟨_, rfl, hstep⟩⟩
  | compareDistinct t wait ht hhalves => exact ⟨q, h.spin ht, Or.inl ⟨rfl, rfl⟩⟩
  | spinDone t wait ht hrelease =>
    have hmem : t ∈ q.queue := by
      rw [h.mem_iff, ht]
      simp
    obtain ⟨i, hi⟩ := List.mem_iff_getElem?.mp hmem
    have hticket := h.ticket t wait (by rw [ht]; rfl) i hi
    have hlt : i < q.queue.length := (List.getElem?_eq_some_iff.mp hi).1
    have hzero : i = 0 := by
      apply eq_zero_of_add_ofNat_eq (by omega)
      rw [← hticket]
      exact hrelease.symm
    rw [hzero] at hi
    obtain ⟨hstep, hrep⟩ := h.grant (List.head?_eq_getElem? ▸ hi) (by simp [ht])
    exact ⟨_, hrep, Or.inr ⟨_, rfl, hstep⟩⟩
  | spinAgain t wait ht hrelease => exact ⟨q, h, Or.inl ⟨rfl, rfl⟩⟩
  | leave t ht =>
    obtain ⟨hdepart, hrep⟩ := h.depart ht
    exact ⟨_, hrep, Or.inr ⟨_, rfl, hdepart⟩⟩

theorem Run.represents [DecidableEq Thread] {events : List (Event Thread)} {s : State Thread}
    (h : Run events s) :
    ∃ q, FifoLock.Run events q ∧ Represents s q ∧ q.queue.length < 65536 := by
  induction h with
  | start => exact ⟨_, .start, represents_start, Nat.zero_lt_succ _⟩
  | @step events shown s s' hrun hstep hbound ih =>
    obtain ⟨q, hq, hrep, hlength⟩ := ih
    obtain ⟨q', hrep', hshown⟩ := hrep.step hlength hq.ne_nil hstep
    refine ⟨q', ?_, hrep', hrep'.length_lt hbound⟩
    rcases hshown with ⟨rfl, rfl⟩ | ⟨event, rfl, hevent⟩
    · rw [List.append_nil]
      exact hq
    · exact hq.step hevent

/-- At most one thread is inside, and the threads enter in the order of their fetch-adds. -/
theorem enter_exclusive_inOrder [DecidableEq Thread] {events : List (Event Thread)}
    {s : State Thread} (h : Run events s) :
    (∀ t u, s.pc t = .inside → s.pc u = .inside → t = u) ∧
      admissions events <+: arrivals events := by
  obtain ⟨q, hq, hrep, -⟩ := h.represents
  refine ⟨fun t u ht hu => ?_, hq.admissions_prefix⟩
  have hhead := ((hrep.inside_iff t).mp ht).2
  rw [((hrep.inside_iff u).mp hu).2] at hhead
  exact (Option.some.inj hhead).symm

theorem encard_lt_of_bool (threads : Set Bool) : threads.encard < 65536 := by
  have hle : threads.encard ≤ ((Finset.univ : Finset Bool) : Set Bool).encard :=
    Set.encard_le_encard fun b _ => Finset.mem_coe.mpr (Finset.mem_univ b)
  rw [Set.encard_coe_eq_coe_finsetCard] at hle
  exact lt_of_le_of_lt hle (by decide)

theorem enter_exclusive_inOrder_two : ∃ s : State Bool, s.pc true = .inside ∧
    (∀ t u, s.pc t = .inside → s.pc u = .inside → t = u) ∧
      admissions [.arrive false, .grant false, .arrive true, .depart false, .grant true] <+:
        arrivals [.arrive false, .grant false, .arrive true, .depart false, .grant true] := by
  have h := (((((Run.start : Run [] (State.start : State Bool)).step (.fetchAdd false rfl) (encard_lt_of_bool _)).step
    (.compareEqual false _ rfl (by decide)) (encard_lt_of_bool _)).step
    (.fetchAdd true rfl) (encard_lt_of_bool _)).step
    (.compareDistinct true _ rfl (by decide)) (encard_lt_of_bool _)).step
    (.leave false rfl) (encard_lt_of_bool _)
  exact ⟨_, rfl, enter_exclusive_inOrder
    (h.step (.spinDone true _ rfl (by decide)) (encard_lt_of_bool _))⟩

end Awn.BusyMutex
