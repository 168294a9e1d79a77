import Awn.MessageQueue.Queue

namespace Awn.ServiceMessageQueue

def Signalling (w : Word) : Pc → Prop
  | .signal u => u = w
  | .wake u => u = w
  | .wakeAll u _ => u = w
  | _ => False

def Pending (w : Word) : Pc → Prop
  | .signal u => u = w
  | .wake u => u = w
  | .wakeAll u result => u = w ∧ result = false
  | _ => False

def Waiting (op : Op) : Pc → Prop
  | .readValue o => o = op
  | .setWaiting o => o = op
  | .park o => o = op
  | .parked o => o = op
  | .recheck o => o = op
  | _ => False

theorem Pending.signalling {w : Word} {pc : Pc} (h : Pending w pc) : Signalling w pc := by
  cases pc <;> first | exact h | exact h.1

section Invariant

variable {Thread : Type} {is_fiber : Thread → Bool}

structure Invariant (is_fiber : Thread → Bool) (s : State Thread) : Prop where
  range : ∀ w, s.queue.value w = 0 ∨ s.queue.value w = 1 ∨ s.queue.value w = 2
  work : ∀ w, s.queue.Work s.found_full w → s.queue.value w = 2 ∨ ∃ t, Pending w (s.pc t)
  parked : ∀ t op, s.pc t = .parked op → s.queue.value op.awaits = 1 ∨
    (is_fiber t = false ∧ ∃ u, s.pc u = .wakeAll op.awaits true)
  full : ∀ t op, Waiting op (s.pc t) → op.isSender = true → s.found_full = true
  asserts : ∀ t, s.pc t ≠ .failed

theorem Invariant.setValue {s : State Thread} (h : Invariant is_fiber s) {w : Word} {v : BitVec 32}
    (hv : v = 0 ∨ v = 1 ∨ v = 2) (hone : s.queue.value w = 1 → v = 1)
    (htwo : s.queue.value w = 2 → v = 2) : Invariant is_fiber (s.setValue w v) := by
  have hkeep : ∀ u x, (x = 1 ∨ x = 2) → s.queue.value u = x →
      (s.queue.setValue v w).value u = x := by
    intro u x hx hu
    by_cases huw : u = w
    · rw [huw] at hu ⊢
      rw [value_setValue_self]
      rcases hx with rfl | rfl
      · exact hone hu
      · exact htwo hu
    · rw [value_setValue_of_ne _ _ huw, hu]
  constructor
  · intro u
    by_cases huw : u = w
    · rw [huw, State.setValue, value_setValue_self]
      exact hv
    · rw [State.setValue, value_setValue_of_ne _ _ huw]
      exact h.range u
  · intro u hu
    rw [State.setValue, work_setValue] at hu
    rcases h.work u hu with hvalue | hp
    · exact Or.inl (hkeep u 2 (Or.inr rfl) hvalue)
    · exact Or.inr hp
  · intro t op ht
    rcases h.parked t op ht with hvalue | hp
    · exact Or.inl (hkeep op.awaits 1 (Or.inl rfl) hvalue)
    · exact Or.inr hp
  · exact h.full
  · exact h.asserts

theorem Invariant.start (max_message_count : BitVec 32) :
    Invariant is_fiber (State.start max_message_count) := by
  constructor
  · intro w
    cases w <;> exact Or.inl rfl
  · intro w hw
    cases w with
    | message => exact absurd rfl hw
    | clear => exact absurd hw.1 Bool.false_ne_true
  · intro t op ht
    cases ht
  · intro t op ht
    cases ht
  · intro t ht
    cases ht

section Threads

variable [DecidableEq Thread]

@[simp] theorem goto_queue (s : State Thread) (t : Thread) (pc : Pc) :
    (s.goto t pc).queue = s.queue := rfl

@[simp] theorem goto_found_full (s : State Thread) (t : Thread) (pc : Pc) :
    (s.goto t pc).found_full = s.found_full := rfl

theorem goto_pc_self (s : State Thread) (t : Thread) (pc : Pc) : (s.goto t pc).pc t = pc := by
  exact Function.update_self _ _ _

theorem goto_pc_of_ne (s : State Thread) {t u : Thread} (pc : Pc) (h : u ≠ t) :
    (s.goto t pc).pc u = s.pc u := by
  exact Function.update_of_ne h _ _

theorem Invariant.goto {s : State Thread} (h : Invariant is_fiber s) {t : Thread} {pc : Pc}
    (hpending : ∀ w, Pending w (s.pc t) → s.queue.value w = 2 ∨ Pending w pc)
    (hwake : ∀ w, s.pc t ≠ .wakeAll w true)
    (hparked : ∀ op, pc = .parked op → s.queue.value op.awaits = 1)
    (hwaiting : ∀ op, Waiting op pc → op.isSender = true → s.found_full = true)
    (hfailed : pc ≠ .failed) : Invariant is_fiber (s.goto t pc) := by
  constructor
  · exact h.range
  · intro w hw
    rcases h.work w hw with hvalue | ⟨u, hu⟩
    · exact Or.inl hvalue
    · by_cases hut : u = t
      · rw [hut] at hu
        rcases hpending w hu with hvalue | hp
        · exact Or.inl hvalue
        · exact Or.inr ⟨t, by rwa [goto_pc_self]⟩
      · exact Or.inr ⟨u, by rwa [goto_pc_of_ne s pc hut]⟩
  · intro u op hu
    by_cases hut : u = t
    · rw [hut, goto_pc_self] at hu
      exact Or.inl (hparked op hu)
    · rw [goto_pc_of_ne s pc hut] at hu
      rcases h.parked u op hu with hvalue | ⟨hfiber, v, hv⟩
      · exact Or.inl hvalue
      · refine Or.inr ⟨hfiber, v, ?_⟩
        rw [goto_pc_of_ne s pc, hv]
        rintro rfl
        exact hwake _ hv
  · intro u op hu hsender
    by_cases hut : u = t
    · rw [hut, goto_pc_self] at hu
      exact hwaiting op hu hsender
    · rw [goto_pc_of_ne s pc hut] at hu
      exact h.full u op hu hsender
  · intro u
    by_cases hut : u = t
    · rw [hut, goto_pc_self]
      exact hfailed
    · rw [goto_pc_of_ne s pc hut]
      exact h.asserts u

theorem Invariant.runBody {s : State Thread} (h : Invariant is_fiber s) {t : Thread} {op : Op}
    (ht : s.pc t = .body op) : Invariant is_fiber (s.runBody t op) := by
  have hpc : ∀ u, u ≠ t → (s.runBody t op).pc u = s.pc u := by
    intro u hu
    exact Function.update_of_ne hu _ _
  have hself : (s.runBody t op).pc t = afterBody op (s.queue.attempt op).done := by
    exact Function.update_self _ _ _
  have hmono : s.found_full = true → (s.runBody t op).found_full = true := by
    intro hfull
    rw [State.runBody, hfull, Bool.true_or]
  constructor
  · intro w
    rcases attempt_value s.queue op w with heq | ⟨-, hzero⟩
    · rw [State.runBody, heq]
      exact h.range w
    · exact Or.inl hzero
  · intro w hw
    rcases attempt_work s.queue op hw with ⟨hold, hvalue⟩ | ⟨hdone, rfl⟩
    · rcases h.work w hold with htwo | ⟨u, hu⟩
      · exact Or.inl (hvalue.trans htwo)
      · refine Or.inr ⟨u, ?_⟩
        rw [hpc u]
        · exact hu
        · rintro rfl
          rw [ht] at hu
          exact hu
    · refine Or.inr ⟨t, ?_⟩
      rw [hself, afterBody, if_pos hdone]
      rfl
  · intro u o hu
    have hut : u ≠ t := by
      rintro rfl
      rw [hself, afterBody] at hu
      split at hu
      · cases hu
      · split at hu <;> cases hu
    rw [hpc u hut] at hu
    rcases h.parked u o hu with hone | ⟨hfiber, v, hv⟩
    · rcases attempt_value s.queue op o.awaits with heq | ⟨htwo, -⟩
      · exact Or.inl (heq.trans hone)
      · rw [hone] at htwo
        exact absurd htwo (by decide)
    · refine Or.inr ⟨hfiber, v, ?_⟩
      rw [hpc v, hv]
      rintro rfl
      rw [ht] at hv
      cases hv
  · intro u o hu hsender
    by_cases hut : u = t
    · rw [hut, hself, afterBody] at hu
      split at hu
      · exact absurd hu id
      · split at hu
        · obtain rfl : op = o := hu
          rename_i hdone _
          rw [State.runBody]
          simp only [hsender, Bool.eq_false_iff.mpr hdone, Bool.not_false, Bool.and_true,
            Bool.or_true]
        · exact absurd hu id
    · rw [hpc u hut] at hu
      exact hmono (h.full u o hu hsender)
  · intro u
    by_cases hut : u = t
    · rw [hut, hself, afterBody]
      split
      · exact fun he => by cases he
      · split <;> exact fun he => by cases he
    · rw [hpc u hut]
      exact h.asserts u

end Threads

end Invariant

theorem wakeFiber_cases (w : Word) (is_fiber : Bool) (pc : Pc) :
    wakeFiber w is_fiber pc = pc ∨
      ∃ op, pc = .parked op ∧ wakeFiber w is_fiber pc = .body op := by
  cases pc with
  | parked op =>
    by_cases h : is_fiber = true ∧ op.awaits = w
    · exact Or.inr ⟨op, rfl, by rw [wakeFiber, if_pos h]⟩
    · exact Or.inl (by rw [wakeFiber, if_neg h])
  | _ => exact Or.inl rfl

theorem wakeThread_cases (w : Word) (is_fiber : Bool) (pc : Pc) :
    wakeThread w is_fiber pc = pc ∨
      ∃ op, pc = .parked op ∧ wakeThread w is_fiber pc = .recheck op := by
  cases pc with
  | parked op =>
    by_cases h : is_fiber = false ∧ op.awaits = w
    · exact Or.inr ⟨op, rfl, by rw [wakeThread, if_pos h]⟩
    · exact Or.inl (by rw [wakeThread, if_neg h])
  | _ => exact Or.inl rfl

theorem wakeFiber_eq_parked {w : Word} {is_fiber : Bool} {pc : Pc} {op : Op}
    (h : wakeFiber w is_fiber pc = .parked op) :
    pc = .parked op ∧ (op.awaits = w → is_fiber = false) := by
  rcases wakeFiber_cases w is_fiber pc with heq | ⟨o, -, hbody⟩
  · rw [heq] at h
    refine ⟨h, fun hw => ?_⟩
    rw [h, wakeFiber] at heq
    by_contra hf
    rw [if_pos ⟨by simpa using hf, hw⟩] at heq
    cases heq
  · rw [hbody] at h
    cases h

theorem wakeThread_eq_parked {w : Word} {is_fiber : Bool} {pc : Pc} {op : Op}
    (h : wakeThread w is_fiber pc = .parked op) :
    pc = .parked op ∧ (is_fiber = false → op.awaits ≠ w) := by
  rcases wakeThread_cases w is_fiber pc with heq | ⟨o, -, hrecheck⟩
  · rw [heq] at h
    refine ⟨h, fun hf hw => ?_⟩
    rw [h, wakeThread, if_pos ⟨hf, hw⟩] at heq
    cases heq
  · rw [hrecheck] at h
    cases h

theorem Invariant.exchange {Thread : Type} {is_fiber : Thread → Bool} {s : State Thread}
    (h : Invariant is_fiber s) (w : Word) {v : BitVec 32}
    (hv : v = 1 ∨ v = 2) :
    Invariant is_fiber (s.setValue w (compareExchange (s.queue.value w) v 0)) := by
  apply h.setValue
  · rcases compareExchange_eq (s.queue.value w) v 0 with heq | ⟨-, heq⟩
    · rw [heq]
      exact h.range w
    · rw [heq]
      exact Or.inr hv
  · intro hone
    rw [hone, compareExchange, if_neg (by decide)]
  · intro htwo
    rw [htwo, compareExchange, if_neg (by decide)]

theorem Invariant.announced {Thread : Type} {is_fiber : Thread → Bool} {s : State Thread} (h : Invariant is_fiber s) {w : Word}
    (hw : s.queue.Work s.found_full w) :
    s.queue.value w = 2 ∨ ∃ t, Signalling w (s.pc t) := by
  rcases h.work w hw with htwo | ⟨t, ht⟩
  · exact Or.inl htwo
  · exact Or.inr ⟨t, ht.signalling⟩

theorem Invariant.not_parked {Thread : Type} {is_fiber : Thread → Bool} {s : State Thread}
    (h : Invariant is_fiber s) {w : Word}
    (hw : s.queue.Work s.found_full w) (hquiet : ∀ t, ¬Signalling w (s.pc t)) {t : Thread} {op : Op}
    (ht : s.pc t = .parked op) : op.awaits ≠ w := by
  rintro rfl
  rcases h.announced hw with htwo | ⟨u, hu⟩
  · rcases h.parked t op ht with hone | ⟨-, u, hu⟩
    · rw [htwo] at hone
      exact absurd hone (by decide)
    · apply hquiet u
      rw [hu]
      rfl
  · exact hquiet u hu

section Steps

variable {Thread : Type} [DecidableEq Thread] {is_fiber : Thread → Bool} {s : State Thread}
  {t : Thread}

theorem Invariant.wake (h : Invariant is_fiber s) {w : Word} (ht : s.pc t = .wake w) :
    Invariant is_fiber (((s.setValue w 2).wakeParked (wakeFiber w) is_fiber).goto t
      (.wakeAll w true)) := by
  have hpc : ∀ v, ((s.setValue w 2).wakeParked (wakeFiber w) is_fiber).pc v =
      wakeFiber w (is_fiber v) (s.pc v) := fun _ => rfl
  have hvalue : ∀ v, v ≠ w →
      ((s.setValue w 2).wakeParked (wakeFiber w) is_fiber).queue.value v = s.queue.value v :=
    fun v hv => value_setValue_of_ne _ _ hv
  have hself : ((s.setValue w 2).wakeParked (wakeFiber w) is_fiber).queue.value w = 2 :=
    value_setValue_self _ _ _
  constructor
  · intro u
    rw [goto_queue]
    by_cases huw : u = w
    · rw [huw, hself]
      exact Or.inr (Or.inr rfl)
    · rw [hvalue u huw]
      exact h.range u
  · intro u hu
    rw [goto_queue]
    by_cases huw : u = w
    · rw [huw, hself]
      exact Or.inl rfl
    · rw [hvalue u huw]
      rcases h.work u ((work_setValue _ _ _ _ _).mp hu) with htwo | ⟨v, hv⟩
      · exact Or.inl htwo
      · refine Or.inr ⟨v, ?_⟩
        have hvt : v ≠ t := by
          rintro rfl
          rw [ht] at hv
          exact huw hv.symm
        rw [goto_pc_of_ne _ _ hvt, hpc]
        rcases wakeFiber_cases w (is_fiber v) (s.pc v) with heq | ⟨op, hparked, -⟩
        · rwa [heq]
        · rw [hparked] at hv
          exact absurd hv id
  · intro u op hu
    have hut : u ≠ t := by
      rintro rfl
      rw [goto_pc_self] at hu
      cases hu
    rw [goto_pc_of_ne _ _ hut, hpc] at hu
    obtain ⟨hparked, hfiber⟩ := wakeFiber_eq_parked hu
    by_cases hw : op.awaits = w
    · refine Or.inr ⟨hfiber hw, t, ?_⟩
      rw [goto_pc_self, hw]
    · rw [goto_queue, hvalue _ hw]
      rcases h.parked u op hparked with hone | ⟨hf, v, hv⟩
      · exact Or.inl hone
      · refine Or.inr ⟨hf, v, ?_⟩
        have hvt : v ≠ t := by
          rintro rfl
          rw [ht] at hv
          cases hv
        rw [goto_pc_of_ne _ _ hvt, hpc, hv]
        rfl
  · intro u op hu hsender
    have hut : u ≠ t := by
      rintro rfl
      rw [goto_pc_self] at hu
      exact hu
    rw [goto_pc_of_ne _ _ hut, hpc] at hu
    rcases wakeFiber_cases w (is_fiber u) (s.pc u) with heq | ⟨o, -, hbody⟩
    · rw [heq] at hu
      exact h.full u op hu hsender
    · rw [hbody] at hu
      exact absurd hu id
  · intro u hu
    by_cases hut : u = t
    · rw [hut, goto_pc_self] at hu
      cases hu
    · rw [goto_pc_of_ne _ _ hut, hpc] at hu
      rcases wakeFiber_cases w (is_fiber u) (s.pc u) with heq | ⟨o, -, hbody⟩
      · rw [heq] at hu
        exact h.asserts u hu
      · rw [hbody] at hu
        cases hu

theorem Invariant.wakeAll (h : Invariant is_fiber s) {w : Word} {result : Bool}
    (ht : s.pc t = .wakeAll w result) :
    Invariant is_fiber ((s.wakeParked (wakeThread w) is_fiber).goto t
      (if result then .idle else .signal w)) := by
  have hpc : ∀ v, (s.wakeParked (wakeThread w) is_fiber).pc v =
      wakeThread w (is_fiber v) (s.pc v) := fun _ => rfl
  constructor
  · exact h.range
  · intro u hu
    rcases h.work u hu with htwo | ⟨v, hv⟩
    · exact Or.inl htwo
    · refine Or.inr ⟨v, ?_⟩
      by_cases hvt : v = t
      · rw [hvt, ht] at hv
        obtain ⟨rfl, hresult⟩ := hv
        rw [hvt, goto_pc_self, hresult]
        rfl
      · rw [goto_pc_of_ne _ _ hvt, hpc]
        rcases wakeThread_cases w (is_fiber v) (s.pc v) with heq | ⟨op, hparked, -⟩
        · rwa [heq]
        · rw [hparked] at hv
          exact absurd hv id
  · intro u op hu
    have hut : u ≠ t := by
      rintro rfl
      rw [goto_pc_self] at hu
      cases result <;> cases hu
    rw [goto_pc_of_ne _ _ hut, hpc] at hu
    obtain ⟨hparked, hthread⟩ := wakeThread_eq_parked hu
    rcases h.parked u op hparked with hone | ⟨hf, v, hv⟩
    · exact Or.inl hone
    · refine Or.inr ⟨hf, v, ?_⟩
      have hvt : v ≠ t := by
        rintro rfl
        rw [ht] at hv
        exact hthread hf (Pc.wakeAll.inj hv).1.symm
      rw [goto_pc_of_ne _ _ hvt, hpc, hv]
      rfl
  · intro u op hu hsender
    by_cases hut : u = t
    · rw [hut, goto_pc_self] at hu
      cases result <;> exact absurd hu id
    · rw [goto_pc_of_ne _ _ hut, hpc] at hu
      rcases wakeThread_cases w (is_fiber u) (s.pc u) with heq | ⟨o, hparked, hrecheck⟩
      · rw [heq] at hu
        exact h.full u op hu hsender
      · rw [hrecheck] at hu
        apply h.full u op _ hsender
        rw [hparked]
        exact hu
  · intro u hu
    by_cases hut : u = t
    · rw [hut, goto_pc_self] at hu
      cases result <;> cases hu
    · rw [goto_pc_of_ne _ _ hut, hpc] at hu
      rcases wakeThread_cases w (is_fiber u) (s.pc u) with heq | ⟨o, -, hrecheck⟩
      · rw [heq] at hu
        exact h.asserts u hu
      · rw [hrecheck] at hu
        cases hu

theorem Invariant.signal (h : Invariant is_fiber s) {w : Word} (ht : s.pc t = .signal w) :
    Invariant is_fiber ((s.setValue w (compareExchange (s.queue.value w) 2 0)).goto t
      (afterSignal w (s.queue.value w))) := by
  have hself : (s.setValue w (compareExchange (s.queue.value w) 2 0)).queue.value w =
      compareExchange (s.queue.value w) 2 0 := value_setValue_self _ _ _
  have hpc : (s.setValue w (compareExchange (s.queue.value w) 2 0)).pc t = .signal w := ht
  apply (h.exchange w (Or.inr rfl)).goto
  · intro u hu
    rw [hpc] at hu
    obtain rfl : w = u := hu
    rw [hself]
    rcases h.range w with hv | hv | hv
    · exact Or.inl (by rw [hv]; decide)
    · exact Or.inr (by rw [hv]; rfl)
    · exact Or.inl (by rw [hv]; decide)
  · intro u hu
    rw [hpc] at hu
    cases hu
  · intro op hop
    rcases h.range w with hv | hv | hv <;> rw [hv] at hop <;> cases hop
  · intro op hop
    rcases h.range w with hv | hv | hv <;> rw [hv] at hop <;> exact absurd hop id
  · rcases h.range w with hv | hv | hv <;> rw [hv] <;> exact fun hf => by cases hf

theorem Invariant.wait (h : Invariant is_fiber s) {op : Op} (ht : Waiting op (s.pc t)) {pc : Pc}
    (hpc : Waiting op pc ∨ pc = .body op)
    (hparked : pc = .parked op → s.queue.value op.awaits = 1) : Invariant is_fiber (s.goto t pc) := by
  apply h.goto
  · intro w hw
    cases hs : s.pc t <;> rw [hs] at ht hw <;> first | exact absurd hw id | exact absurd ht id
  · intro w hw
    rw [hw] at ht
    exact ht
  · rintro o rfl
    rcases hpc with hpc | hpc
    · obtain rfl : o = op := hpc
      exact hparked rfl
    · cases hpc
  · intro o ho hsender
    rcases hpc with hpc | rfl
    · have heq : o = op := by
        cases pc <;> first | exact absurd ho id | exact Eq.trans (Eq.symm ho) hpc
      rw [heq] at hsender
      exact h.full t op ht hsender
    · exact absurd ho id
  · rintro rfl
    rcases hpc with hpc | hpc
    · exact hpc
    · cases hpc

end Steps

section Runs

variable {Thread : Type} [DecidableEq Thread] {is_fiber : Thread → Bool}

theorem afterRead_waiting (op : Op) {v : BitVec 32} (hv : v = 0 ∨ v = 1 ∨ v = 2) :
    (Waiting op (afterRead op v) ∨ afterRead op v = .body op) ∧ afterRead op v ≠ .parked op := by
  rcases hv with rfl | rfl | rfl
  · exact ⟨Or.inl rfl, fun h => by cases h⟩
  · exact ⟨Or.inl rfl, fun h => by cases h⟩
  · exact ⟨Or.inr rfl, fun h => by cases h⟩

theorem Invariant.step {s s' : State Thread} (h : Invariant is_fiber s)
    (hstep : Step is_fiber s s') : Invariant is_fiber s' := by
  cases hstep with
  | call t op ht =>
    apply h.goto
    · intro w hw
      rw [ht] at hw
      exact absurd hw id
    · intro w hw
      rw [ht] at hw
      cases hw
    · intro o ho
      cases ho
    · intro o ho
      exact absurd ho id
    · exact fun hf => by cases hf
  | body t op ht => exact h.runBody ht
  | signal t w ht => exact h.signal ht
  | wake t w ht _ => exact h.wake ht
  | wakeMiss t w ht _ =>
    apply h.goto
    · intro u hu
      rw [ht] at hu
      exact Or.inr ⟨hu, rfl⟩
    · intro u hu
      rw [ht] at hu
      cases hu
    · intro o ho
      cases ho
    · intro o ho
      exact absurd ho id
    · exact fun hf => by cases hf
  | wakeAll t w result ht => exact h.wakeAll ht
  | readValue t op ht =>
    have hread := afterRead_waiting op (h.range op.awaits)
    exact h.wait (by rw [ht]; rfl) hread.1 (fun hp => absurd hp hread.2)
  | setWaiting t op ht =>
    have hread := afterRead_waiting op (h.range op.awaits)
    have hset := h.exchange op.awaits (Or.inl rfl)
    have hw : Waiting op
        ((s.setValue op.awaits (compareExchange (s.queue.value op.awaits) 1 0)).pc t) := by
      rw [show (s.setValue op.awaits (compareExchange (s.queue.value op.awaits) 1 0)).pc t =
        .setWaiting op from ht]
      rfl
    rw [afterSetWaiting]
    split
    · exact hset.wait hw (Or.inl rfl) (fun hp => by cases hp)
    · exact hset.wait hw hread.1 (fun hp => absurd hp hread.2)
  | park t op ht hone => exact h.wait (by rw [ht]; rfl) (Or.inl rfl) (fun _ => hone)
  | parkMiss t op ht _ =>
    have hw : Waiting op (s.pc t) := by rw [ht]; rfl
    split
    · exact h.wait hw (Or.inr rfl) (fun hp => by cases hp)
    · exact h.wait hw (Or.inl rfl) (fun hp => by cases hp)
  | spurious t op ht _ => exact h.wait (by rw [ht]; rfl) (Or.inl rfl) (fun hp => by cases hp)
  | recheck t op ht =>
    have hw : Waiting op (s.pc t) := by rw [ht]; rfl
    split
    · exact h.wait hw (Or.inl rfl) (fun hp => by cases hp)
    · exact h.wait hw (Or.inr rfl) (fun hp => by cases hp)

theorem reachable_invariant {max_message_count : BitVec 32} {s : State Thread}
    (h : Reachable is_fiber max_message_count s) : Invariant is_fiber s := by
  induction h with
  | start => exact Invariant.start max_message_count
  | step _ hstep ih => exact ih.step hstep

structure NoLostWakeup (s : State Thread) : Prop where
  message : s.queue.m_count ≠ 0 →
    s.queue.m_message_wait_value = 2 ∨ ∃ t, Signalling .message (s.pc t)
  clear : s.found_full = true → s.queue.m_count < s.queue.m_max →
    s.queue.m_clear_wait_value = 2 ∨ ∃ t, Signalling .clear (s.pc t)
  receiver : s.queue.m_count ≠ 0 → (∀ t, ¬Signalling .message (s.pc t)) →
    ∀ t op, s.pc t = .parked op → op.isSender = true
  sender : s.queue.m_count < s.queue.m_max → (∀ t, ¬Signalling .clear (s.pc t)) →
    ∀ t op, s.pc t = .parked op → op.isSender = false

/-- No wake-up is lost, however the steps of any number of threads and fibers interleave. -/
theorem reachable_noLostWakeup (is_fiber : Thread → Bool) (max_message_count : BitVec 32)
    (s : State Thread) (hs : Reachable is_fiber max_message_count s) : NoLostWakeup s := by
  have h := reachable_invariant hs
  constructor
  · intro hcount
    exact h.announced (w := .message) hcount
  · intro hfull hroom
    exact h.announced (w := .clear) ⟨hfull, hroom⟩
  · intro hcount hquiet t op ht
    have hne := h.not_parked (w := .message) hcount hquiet ht
    by_contra hsender
    rw [Op.awaits, if_neg hsender] at hne
    exact hne rfl
  · intro hroom hquiet t op ht
    by_contra hsender
    rw [Bool.not_eq_false] at hsender
    have hfull : s.found_full = true := h.full t op (by rw [ht]; rfl) hsender
    have hne := h.not_parked (w := .clear) ⟨hfull, hroom⟩ hquiet ht
    rw [Op.awaits, if_pos hsender] at hne
    exact hne rfl

def parkedReceiver : State Bool :=
  ((((((State.start 4).goto false (.body .ReceiveMessage)).runBody false .ReceiveMessage).goto false
    (.setWaiting .ReceiveMessage)).setValue .message 1).goto false (.park .ReceiveMessage)).goto
      false (.parked .ReceiveMessage)

theorem parkedReceiver_reachable : Reachable (fun _ => false) 4 parkedReceiver := by
  apply Reachable.step _ (Step.park false .ReceiveMessage rfl rfl)
  apply Reachable.step _ (Step.setWaiting false .ReceiveMessage rfl)
  apply Reachable.step _ (Step.readValue false .ReceiveMessage rfl)
  apply Reachable.step _ (Step.body false .ReceiveMessage rfl)
  apply Reachable.step Reachable.start
  exact Step.call false .ReceiveMessage rfl

theorem reachable_noLostWakeup_parkedReceiver : NoLostWakeup parkedReceiver :=
  reachable_noLostWakeup (fun _ => false) 4 parkedReceiver parkedReceiver_reachable

end Runs

end Awn.ServiceMessageQueue
