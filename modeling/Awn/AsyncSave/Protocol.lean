import Awn.AsyncSave.Manager
import Mathlib.Data.List.Forall2

namespace Awn.AsyncSaveManager

variable {Thread Device : Type}

inductive Place (Thread : Type)
  | thread (t : Thread)
  | queue
  | worker

def State.Holds (s : State Thread Device) : Place Thread → Prop
  | .thread t => ∃ r rest, s.pc t = .write r rest
  | .queue => s.queue ≠ []
  | .worker => s.worker ≠ .receive ∧ s.worker ≠ .reset

def pathText (path : Option CString) : List (BitVec 8) := (path.map Subtype.val).getD []

def Request.call (m_save_file_device : Device) : Request Device → DeviceCall Device
  | .Read file_buffer buffer_size path user_file_device =>
    .LoadFile (user_file_device.getD m_save_file_device) (pathText path) file_buffer buffer_size
  | .Size path user_file_device =>
    .GetFileSize (user_file_device.getD m_save_file_device) (pathText path)
  | .Save save_data save_size path user_file_device =>
    .SaveFile (user_file_device.getD m_save_file_device) (pathText path) save_data save_size
  | .Commit user_file_device => .Commit (user_file_device.getD m_save_file_device)
  | .Copy dst_path src_path copy_buffer copy_buffer_size user_file_device =>
    .CopyFile (user_file_device.getD m_save_file_device) (pathText dst_path) (pathText src_path)
      copy_buffer copy_buffer_size

inductive Serves (m_save_file_device : Device) : Request Device → Outcome Device → Prop
  | skipped (r : Request Device) : Serves m_save_file_device r (.skipped r.message)
  | called (r : Request Device) : Serves m_save_file_device r (.called (r.call m_save_file_device))

/-- The protocol: one request in flight, none accepted meanwhile, and every request but the one in
flight taken once, in order, and run with its own arguments unless it was paused. -/
structure Contract (m_save_file_device : Device) (accepted : List (Request Device))
    (outcomes : List (Outcome Device)) (s : State Thread Device) : Prop where
  queue : s.queue.length ≤ 1
  exclusive : ∀ p p', s.Holds p → s.Holds p' → p = p'
  accepts : s.m_request_flags = 0 → ∀ p, ¬s.Holds p
  served : ∃ done rest, accepted = done ++ rest ∧ rest.length ≤ 1 ∧
    List.Forall₂ (Serves m_save_file_device) done outcomes ∧ ((∀ p, ¬s.Holds p) → rest = [])

structure State.Allowed (s : State Thread Device) (a : Agent Thread) : Prop where
  reset : a = .worker → s.worker = .reset → (s.queue ≠ [] ∨ ∃ t r, s.pc t = .write r []) →
    s.fields.m_user_file_device = none
  savePath : ∀ t r path rest, a = .thread t → s.pc t = .write r (.savePath path :: rest) →
    s.fields.m_save_path.Ends path
  copyPath : ∀ t r path rest, a = .thread t → s.pc t = .write r (.copyPath path :: rest) →
    s.fields.m_copy_path.Ends path

inductive Phase (Thread Device : Type)
  | free
  | writing (t : Thread) (r : Request Device) (rest : List (Write Device))
  | queued (r : Request Device)
  | working (r : Request Device)
  | finished

namespace Phase

def pending : Phase Thread Device → Option (Request Device × List (Write Device))
  | .writing _ r rest => some (r, rest)
  | .queued r | .working r => some (r, [])
  | .free | .finished => none

def current (phase : Phase Thread Device) : Option (Request Device) := phase.pending.map Prod.fst

def queue : Phase Thread Device → List Message
  | .queued r => [r.message]
  | _ => []

def place : Phase Thread Device → Option (Place Thread)
  | .free => none
  | .writing t _ _ => some (.thread t)
  | .queued _ => some .queue
  | .working _ | .finished => some .worker

def HasWorker : Phase Thread Device → Worker Device → Prop
  | .working r, worker => worker = .pause r.message ∨ worker = .device r.message ∨
      ∃ file_device, worker = .call r.message file_device
  | .finished, worker => worker = .release
  | _, worker => worker = .receive ∨ worker = .reset

end Phase

def Write.field : Write Device → Fin 5
  | .output _ => 0
  | .outputSize _ => 1
  | .savePath _ | .clearPath => 2
  | .copyPath _ => 3
  | .device _ => 4

def Write.Stored (f : Fields Device) : Write Device → Prop
  | .output value => f.m_output = value
  | .outputSize value => f.m_output_size = value
  | .savePath path => f.m_save_path.getString = pathText path
  | .clearPath => f.m_save_path.getString = []
  | .copyPath path => f.m_copy_path.getString = pathText path
  | .device user_file_device => f.m_user_file_device = user_file_device

def Request.user_file_device : Request Device → Option Device
  | .Read _ _ _ d | .Size _ d | .Save _ _ _ d | .Commit d | .Copy _ _ _ _ d => d

def cRequestFlags : BitVec 32 := 0x1f

structure Invariant (m_save_file_device : Device) (accepted : List (Request Device))
    (outcomes : List (Outcome Device)) (s : State Thread Device) (phase : Phase Thread Device) :
    Prop where
  served : ∃ done, accepted = done ++ phase.current.toList ∧
    List.Forall₂ (Serves m_save_file_device) done outcomes
  flags : phase ≠ .free → s.m_request_flags &&& cRequestFlags ≠ 0
  queue : s.queue = phase.queue
  writer : ∀ t r rest, s.pc t = .write r rest ↔ phase = .writing t r rest
  worker : phase.HasWorker s.worker
  stored : ∀ r rest, phase.pending = some (r, rest) →
    ∃ written, r.writes = written ++ rest ∧ ∀ w ∈ written, w.Stored s.fields
  call : ∀ message file_device r, s.worker = .call message file_device → phase = .working r →
    file_device = r.user_file_device.getD m_save_file_device

section Writes

theorem Request.writes_pairwise (r : Request Device) :
    r.writes.Pairwise fun w w' => w.field ≠ w'.field := by
  cases r <;> simp [Request.writes, Write.field]

theorem Request.writes_getLast (r : Request Device) :
    r.writes.getLast? = some (.device r.user_file_device) := by
  cases r <;> rfl

theorem Write.Stored.apply {w w' : Write Device} {f f' : Fields Device} (h : w.Stored f)
    (hfield : w.field ≠ w'.field) (happly : w'.apply f = some f') : w.Stored f' := by
  cases w' with
  | savePath path =>
    obtain ⟨s, -, rfl⟩ := Option.map_eq_some_iff.mp happly
    cases w <;> first | exact h | exact absurd rfl hfield
  | copyPath path =>
    obtain ⟨s, -, rfl⟩ := Option.map_eq_some_iff.mp happly
    cases w <;> first | exact h | exact absurd rfl hfield
  | _ =>
    obtain rfl := Option.some.inj happly
    cases w <;> first | exact h | exact absurd rfl hfield

theorem Write.stored_apply {w : Write Device} {f : Fields Device}
    (hsave : ∀ path, w = .savePath path → f.m_save_path.Ends path)
    (hcopy : ∀ path, w = .copyPath path → f.m_copy_path.Ends path) :
    ∃ f', w.apply f = some f' ∧ w.Stored f' := by
  cases w with
  | savePath path =>
    obtain ⟨s, hs, htext⟩ := FixedString.getString_assign (hsave path rfl)
    exact ⟨{ f with m_save_path := s }, by rw [Write.apply, hs]; rfl, htext⟩
  | copyPath path =>
    obtain ⟨s, hs, htext⟩ := FixedString.getString_assign (hcopy path rfl)
    exact ⟨{ f with m_copy_path := s }, by rw [Write.apply, hs]; rfl, htext⟩
  | clearPath =>
    refine ⟨_, rfl, ?_⟩
    simp only [Write.Stored, FixedString.clear, FixedString.getString]
    cases f.m_save_path.m_string_array with
    | nil => rfl
    | cons c rest => simp
  | _ => exact ⟨_, rfl, rfl⟩

theorem deviceCall_eq {r : Request Device} {f : Fields Device} (m_save_file_device : Device)
    (h : ∀ w ∈ r.writes, w.Stored f) :
    deviceCall r.message (r.user_file_device.getD m_save_file_device) f = r.call m_save_file_device := by
  cases r with
  | Read file_buffer buffer_size path d =>
    simp only [Request.writes, List.forall_mem_cons, Write.Stored] at h
    obtain ⟨houtput, hsize, hpath, -⟩ := h
    simp only [Request.message, deviceCall, Request.call, Request.user_file_device, houtput, hsize,
      hpath]
  | Size path d =>
    simp only [Request.writes, List.forall_mem_cons, Write.Stored] at h
    obtain ⟨-, -, hpath, -⟩ := h
    simp only [Request.message, deviceCall, Request.call, Request.user_file_device, hpath]
  | Save save_data save_size path d =>
    simp only [Request.writes, List.forall_mem_cons, Write.Stored] at h
    obtain ⟨houtput, hsize, hpath, -⟩ := h
    simp only [Request.message, deviceCall, Request.call, Request.user_file_device, houtput, hsize,
      hpath]
  | Commit d => rfl
  | Copy dst_path src_path copy_buffer copy_buffer_size d =>
    simp only [Request.writes, List.forall_mem_cons, Write.Stored] at h
    obtain ⟨houtput, hsize, hsave, hcopy, -⟩ := h
    simp only [Request.message, deviceCall, Request.call, Request.user_file_device, houtput, hsize,
      hsave, hcopy]

end Writes

section Flags

theorem flags_or {flags flag : BitVec 32} (h : flags &&& cRequestFlags ≠ 0) :
    (flags ||| flag) &&& cRequestFlags ≠ 0 := by
  intro hzero
  apply h
  rw [BitVec.and_or_distrib_right] at hzero
  exact (BitVec.or_eq_zero_iff.mp hzero).1

theorem flags_unpause (flags : BitVec 32) :
    (flags &&& ~~~cPauseFlag) &&& cRequestFlags = flags &&& cRequestFlags := by
  rw [BitVec.and_assoc]
  rfl

theorem flags_accept (message : Message) :
    (0 ||| message.flag) &&& cRequestFlags ≠ 0 := by
  cases message <;> decide

end Flags

section Steps

variable {m_save_file_device : Device} {accepted : List (Request Device)}
  {outcomes : List (Outcome Device)} {s s' : State Thread Device} {phase : Phase Thread Device}

theorem Invariant.start : Invariant m_save_file_device [] []
    (State.start : State Thread Device) .free where
  served := ⟨[], rfl, .nil⟩
  flags h := absurd rfl h
  queue := rfl
  writer t r rest := by simp [State.start]
  worker := Or.inl rfl
  stored r rest h := by simp [Phase.pending] at h
  call message file_device r h := by simp [State.start] at h

theorem Invariant.setFlags (h : Invariant m_save_file_device accepted outcomes s phase)
    {flags : BitVec 32} (hflags : s.m_request_flags &&& cRequestFlags ≠ 0 →
      flags &&& cRequestFlags ≠ 0) :
    Invariant m_save_file_device accepted outcomes { s with m_request_flags := flags } phase :=
  { h with flags := fun hphase => hflags (h.flags hphase) }

theorem Invariant.free (h : Invariant m_save_file_device accepted outcomes s phase)
    (hflags : s.m_request_flags = 0) : phase = .free := by
  by_contra hphase
  apply h.flags hphase
  rw [hflags]
  rfl

theorem Invariant.receive {message : Message} {rest : List Message}
    (h : Invariant m_save_file_device accepted outcomes s phase) (hqueue : s.queue = message :: rest) :
    ∃ r, phase = .queued r ∧
      Invariant m_save_file_device accepted outcomes
        { s with queue := rest, worker := .pause message } (.working r) := by
  have hphase := h.queue
  rw [hqueue] at hphase
  cases phase with
  | queued r =>
    obtain ⟨rfl, rfl⟩ := List.cons.inj hphase
    refine ⟨r, rfl, ?_⟩
    constructor
    · exact h.served
    · exact fun _ => h.flags (by simp)
    · rfl
    · intro t r' rest'
      simpa using h.writer t r' rest'
    · exact Or.inl rfl
    · exact h.stored
    · intro message file_device r' hcall
      cases hcall
  | _ => cases hphase

theorem Invariant.working (h : Invariant m_save_file_device accepted outcomes s phase)
    (hreceive : s.worker ≠ .receive) (hreset : s.worker ≠ .reset) (hrelease : s.worker ≠ .release) :
    ∃ r, phase = .working r := by
  have hworker := h.worker
  cases phase with
  | working r => exact ⟨r, rfl⟩
  | finished => exact absurd hworker hrelease
  | _ => exact absurd hworker (not_or.mpr ⟨hreceive, hreset⟩)

theorem Invariant.finished (h : Invariant m_save_file_device accepted outcomes s phase)
    (hrelease : s.worker = .release) : phase = .finished := by
  have hworker := h.worker
  rw [hrelease] at hworker
  cases phase with
  | finished => rfl
  | working r => simp [Phase.HasWorker] at hworker
  | _ => simp [Phase.HasWorker] at hworker

theorem Invariant.finish {r : Request Device} {o : Outcome Device} {fields : Fields Device}
    (h : Invariant m_save_file_device accepted outcomes s (.working r))
    (ho : Serves m_save_file_device r o) :
    Invariant m_save_file_device accepted (outcomes ++ [o])
      { s with worker := .release, fields := fields } .finished where
  served := by
    obtain ⟨done, rfl, hserved⟩ := h.served
    exact ⟨done ++ [r], by simp [Phase.current, Phase.pending],
      List.rel_append hserved (.cons ho .nil)⟩
  flags _ := h.flags (by simp)
  queue := h.queue
  writer t r' rest := by simpa using h.writer t r' rest
  worker := rfl
  stored r' rest hpending := by cases hpending
  call message file_device r' _ hphase := by cases hphase

theorem Invariant.toDevice {r : Request Device}
    (h : Invariant m_save_file_device accepted outcomes s (.working r)) :
    Invariant m_save_file_device accepted outcomes { s with worker := .device r.message }
      (.working r) :=
  { h with
    worker := Or.inr (Or.inl rfl)
    call := fun message file_device r' hcall => by cases hcall }

theorem Invariant.stored_all {r : Request Device}
    (h : Invariant m_save_file_device accepted outcomes s phase)
    (hpending : phase.pending = some (r, [])) : ∀ w ∈ r.writes, w.Stored s.fields := by
  obtain ⟨written, hwrites, hwritten⟩ := h.stored r [] hpending
  rw [hwrites, List.append_nil]
  exact hwritten

theorem Invariant.toCall {r : Request Device}
    (h : Invariant m_save_file_device accepted outcomes s (.working r)) :
    Invariant m_save_file_device accepted outcomes
      { s with worker := .call r.message (s.fields.m_user_file_device.getD m_save_file_device) }
      (.working r) := by
  have hdevice : s.fields.m_user_file_device = r.user_file_device :=
    h.stored_all rfl (.device r.user_file_device) (List.mem_of_getLast? r.writes_getLast)
  refine { h with worker := Or.inr (Or.inr ⟨_, rfl⟩), call := ?_ }
  intro message file_device r' hcall hphase
  obtain ⟨-, rfl⟩ := Worker.call.inj hcall
  obtain rfl := Phase.working.inj hphase
  rw [hdevice]

theorem Invariant.release (h : Invariant m_save_file_device accepted outcomes s .finished)
    {flags : BitVec 32} :
    Invariant m_save_file_device accepted outcomes
      { s with worker := .reset, m_request_flags := flags } .free where
  served := h.served
  flags hphase := absurd rfl hphase
  queue := h.queue
  writer t r rest := by simpa using h.writer t r rest
  worker := Or.inr rfl
  stored r rest hpending := by cases hpending
  call message file_device r hcall := by cases hcall

theorem Invariant.reset (h : Invariant m_save_file_device accepted outcomes s phase)
    (hreset : s.worker = .reset) (hallowed : s.Allowed .worker) :
    Invariant m_save_file_device accepted outcomes
      { s with worker := .receive, fields := { s.fields with m_user_file_device := none } } phase := by
  have hworker := h.worker
  rw [hreset] at hworker
  have hidle : phase.HasWorker .receive := by
    cases phase with
    | working r => simp [Phase.HasWorker] at hworker
    | finished => cases hworker
    | _ => exact Or.inl rfl
  refine { h with worker := hidle, stored := ?_, call := ?_ }
  · intro r rest hpending
    obtain ⟨written, hwrites, hwritten⟩ := h.stored r rest hpending
    refine ⟨written, hwrites, fun w hw => ?_⟩
    by_cases hrest : rest = []
    · have hnone : s.fields.m_user_file_device = none := by
        apply hallowed.reset rfl hreset
        cases phase with
        | writing t r' rest' =>
          obtain ⟨rfl, rfl⟩ : r' = r ∧ rest' = rest := by simpa [Phase.pending] using hpending
          exact Or.inr ⟨t, r', by rw [h.writer, hrest]⟩
        | queued r' =>
          left
          rw [h.queue]
          simp [Phase.queue]
        | working r' => simp [Phase.HasWorker] at hworker
        | _ => cases hpending
      have hsame : ({ s.fields with m_user_file_device := none } : Fields Device) = s.fields := by
        rw [← hnone]
      change w.Stored { s.fields with m_user_file_device := none }
      rw [hsame]
      exact hwritten w hw
    · have hlast : .device r.user_file_device ∈ rest := by
        have hget := r.writes_getLast
        rw [hwrites, List.getLast?_append_of_ne_nil _ hrest] at hget
        exact List.mem_of_getLast? hget
      have hapart := r.writes_pairwise
      rw [hwrites, List.pairwise_append] at hapart
      have hfield : w.field ≠ (Write.device none : Write Device).field := 
        hapart.2.2 w hw (.device r.user_file_device) hlast
      exact (hwritten w hw).apply hfield rfl
  · intro message file_device r hcall
    cases hcall

theorem Invariant.place (h : Invariant m_save_file_device accepted outcomes s phase)
    {p : Place Thread} (hp : s.Holds p) : phase.place = some p := by
  cases p with
  | thread t =>
    obtain ⟨r, rest, ht⟩ := hp
    rw [(h.writer t r rest).mp ht]
    rfl
  | queue =>
    have hqueue : phase.queue ≠ [] := h.queue ▸ hp
    cases phase with
    | queued r => rfl
    | _ => exact absurd rfl hqueue
  | worker =>
    have hworker := h.worker
    cases phase with
    | working r => rfl
    | finished => rfl
    | _ => exact absurd hworker (not_or.mpr hp)

variable [DecidableEq Thread] {t : Thread}

theorem Invariant.goto {pc : Pc Device} (h : Invariant m_save_file_device accepted outcomes s phase)
    (hold : ∀ r rest, s.pc t ≠ .write r rest) (hnew : ∀ r rest, pc ≠ .write r rest) :
    Invariant m_save_file_device accepted outcomes (s.goto t pc) phase where
  served := h.served
  flags := h.flags
  queue := h.queue
  writer u r rest := by
    by_cases hut : u = t
    · subst hut
      simp only [State.goto, Function.update_self, ← h.writer u r rest]
      exact iff_of_false (hnew r rest) (hold r rest)
    · simpa [State.goto, hut] using h.writer u r rest
  worker := h.worker
  stored := h.stored
  call := h.call

theorem Invariant.accept (h : Invariant m_save_file_device accepted outcomes s .free)
    {r : Request Device} (hflags : s.m_request_flags = 0) :
    Invariant m_save_file_device (accepted ++ [r]) outcomes
      ({ s with m_request_flags := s.m_request_flags ||| r.message.flag }.goto t
        (.write r r.writes)) (.writing t r r.writes) where
  served := by
    obtain ⟨done, rfl, hserved⟩ := h.served
    exact ⟨done, by simp [Phase.current, Phase.pending], hserved⟩
  flags _ := by
    change (s.m_request_flags ||| r.message.flag) &&& cRequestFlags ≠ 0
    rw [hflags]
    exact flags_accept r.message
  queue := h.queue
  writer u r' rest := by
    by_cases hut : u = t
    · subst hut
      simp [State.goto]
    · have hu := h.writer u r' rest
      have hne : t ≠ u := fun heq => hut heq.symm
      simpa [State.goto, hut, hne] using hu
  worker := h.worker
  stored r' rest hpending := by
    simp only [Phase.pending, Option.some.injEq, Prod.mk.injEq] at hpending
    obtain ⟨rfl, rfl⟩ := hpending
    exact ⟨[], rfl, by simp⟩
  call message file_device r' _ hphase := by cases hphase

theorem Invariant.write {r : Request Device} {w : Write Device} {rest : List (Write Device)}
    {fields : Fields Device}
    (h : Invariant m_save_file_device accepted outcomes s (.writing t r (w :: rest)))
    (happly : w.apply s.fields = some fields) (hstored : w.Stored fields) :
    Invariant m_save_file_device accepted outcomes
      ({ s with fields := fields }.goto t (.write r rest)) (.writing t r rest) where
  served := h.served
  flags _ := h.flags (by simp)
  queue := h.queue
  writer u r' rest' := by
    by_cases hut : u = t
    · subst hut
      simp [State.goto]
    · have hu := h.writer u r' rest'
      have hne : t ≠ u := fun heq => hut heq.symm
      simpa [State.goto, hut, hne] using hu
  worker := h.worker
  stored r' rest' hpending := by
    simp only [Phase.pending, Option.some.injEq, Prod.mk.injEq] at hpending
    obtain ⟨rfl, rfl⟩ := hpending
    obtain ⟨written, hwrites, hwritten⟩ := h.stored r (w :: rest) rfl
    have hapart := r.writes_pairwise
    rw [hwrites, List.pairwise_append] at hapart
    refine ⟨written ++ [w], by simp [hwrites], fun w' hw' => ?_⟩
    rcases List.mem_append.mp hw' with hold | hnew
    · exact (hwritten w' hold).apply (hapart.2.2 w' hold w List.mem_cons_self) happly
    · obtain rfl := List.mem_singleton.mp hnew
      exact hstored
  call message file_device r' _ hphase := by cases hphase

theorem Invariant.send {r : Request Device}
    (h : Invariant m_save_file_device accepted outcomes s (.writing t r [])) :
    Invariant m_save_file_device accepted outcomes
      ({ s with queue := s.queue ++ [r.message] }.goto t .idle) (.queued r) where
  served := h.served
  flags _ := h.flags (by simp)
  queue := by
    simp only [State.goto, h.queue, Phase.queue, List.nil_append]
  writer u r' rest' := by
    by_cases hut : u = t
    · simp [State.goto, hut]
    · have hu := h.writer u r' rest'
      have hne : t ≠ u := fun heq => hut heq.symm
      simpa [State.goto, hut, hne] using hu
  worker := h.worker
  stored r' rest' hpending := by
    simp only [Phase.pending, Option.some.injEq, Prod.mk.injEq] at hpending
    obtain ⟨rfl, rfl⟩ := hpending
    exact h.stored r [] rfl
  call message file_device r' _ hphase := by cases hphase

theorem Invariant.step {requests : List (Request Device)} {shown : List (Outcome Device)}
    {a : Agent Thread} (h : Invariant m_save_file_device accepted outcomes s phase)
    (hallowed : s.Allowed a) (hstep : Step m_save_file_device s a requests shown s') :
    ∃ phase', Invariant m_save_file_device (accepted ++ requests) (outcomes ++ shown) s' phase' := by
  cases hstep with
  | call t r ht =>
    rw [List.append_nil, List.append_nil]
    exact ⟨phase, h.goto (by simp [ht]) (by simp)⟩
  | accept t r ht hflags =>
    rw [List.append_nil]
    obtain rfl := h.free hflags
    exact ⟨_, h.accept hflags⟩
  | reject t r ht hflags =>
    rw [List.append_nil, List.append_nil]
    exact ⟨phase, (h.setFlags flags_or).goto (by simp [ht]) (by simp)⟩
  | write t r w rest fields ht happly =>
    rw [List.append_nil, List.append_nil]
    obtain rfl := (h.writer t r (w :: rest)).mp ht
    obtain ⟨fields', happly', hstored⟩ := Write.stored_apply (w := w) (f := s.fields)
      (fun path hw => hallowed.savePath t r path rest rfl (hw ▸ ht))
      (fun path hw => hallowed.copyPath t r path rest rfl (hw ▸ ht))
    rw [happly] at happly'
    obtain rfl := Option.some.inj happly'
    exact ⟨_, h.write happly hstored⟩
  | overrun t r w rest ht happly =>
    obtain ⟨fields', happly', -⟩ := Write.stored_apply (w := w) (f := s.fields)
      (fun path hw => hallowed.savePath t r path rest rfl (hw ▸ ht))
      (fun path hw => hallowed.copyPath t r path rest rfl (hw ▸ ht))
    rw [happly] at happly'
    cases happly'
  | send t r ht hlength =>
    rw [List.append_nil, List.append_nil]
    obtain rfl := (h.writer t r []).mp ht
    exact ⟨_, h.send⟩
  | receive message rest hworker hqueue =>
    rw [List.append_nil, List.append_nil]
    obtain ⟨r, -, hreceive⟩ := h.receive hqueue
    exact ⟨_, hreceive⟩
  | skip message hworker hpause =>
    rw [List.append_nil]
    obtain ⟨r, rfl⟩ := h.working (by simp [hworker]) (by simp [hworker]) (by simp [hworker])
    obtain rfl : message = r.message := by simpa [Phase.HasWorker, hworker] using h.worker
    exact ⟨_, h.finish (.skipped r)⟩
  | run message hworker hpause =>
    rw [List.append_nil, List.append_nil]
    obtain ⟨r, rfl⟩ := h.working (by simp [hworker]) (by simp [hworker]) (by simp [hworker])
    obtain rfl : message = r.message := by simpa [Phase.HasWorker, hworker] using h.worker
    exact ⟨_, h.toDevice⟩
  | device message hworker =>
    rw [List.append_nil, List.append_nil]
    obtain ⟨r, rfl⟩ := h.working (by simp [hworker]) (by simp [hworker]) (by simp [hworker])
    obtain rfl : message = r.message := by simpa [Phase.HasWorker, hworker] using h.worker
    exact ⟨_, h.toCall⟩
  | deviceCall message file_device size hworker =>
    rw [List.append_nil]
    obtain ⟨r, rfl⟩ := h.working (by simp [hworker]) (by simp [hworker]) (by simp [hworker])
    obtain rfl : message = r.message := by simpa [Phase.HasWorker, hworker] using h.worker
    obtain rfl := h.call _ _ r hworker rfl
    rw [deviceCall_eq m_save_file_device (h.stored_all rfl)]
    exact ⟨_, h.finish (.called r)⟩
  | release hworker =>
    rw [List.append_nil, List.append_nil]
    obtain rfl := h.finished hworker
    exact ⟨_, h.release⟩
  | reset hworker =>
    rw [List.append_nil, List.append_nil]
    exact ⟨_, h.reset hworker hallowed⟩
  | pause =>
    rw [List.append_nil, List.append_nil]
    exact ⟨_, h.setFlags flags_or⟩
  | unpause =>
    rw [List.append_nil, List.append_nil]
    exact ⟨_, h.setFlags fun hflags => by rw [flags_unpause]; exact hflags⟩

theorem Run.invariant (h : Run m_save_file_device State.Allowed accepted outcomes s) :
    ∃ phase, Invariant m_save_file_device accepted outcomes s phase := by
  induction h with
  | start => exact ⟨.free, Invariant.start⟩
  | step _ hallowed hstep ih =>
    obtain ⟨phase, hphase⟩ := ih
    exact hphase.step hallowed hstep

/-- In a run in which no completion resets a device that was chosen meanwhile, and paths end where
their arrays have a zero, every request is served as it was made. -/
theorem contract_of_run (h : Run m_save_file_device State.Allowed accepted outcomes s) :
    Contract m_save_file_device accepted outcomes s := by
  obtain ⟨phase, hphase⟩ := h.invariant
  constructor
  · rw [hphase.queue]
    cases phase <;> simp [Phase.queue]
  · intro p p' hp hp'
    exact Option.some.inj ((hphase.place hp).symm.trans (hphase.place hp'))
  · intro hflags p hp
    obtain rfl := hphase.free hflags
    cases hphase.place hp
  · obtain ⟨done, haccepted, hserved⟩ := hphase.served
    refine ⟨done, _, haccepted, ?_, hserved, fun hnone => ?_⟩
    · cases phase <;> simp [Phase.current, Phase.pending]
    · cases phase with
      | writing t r rest => exact absurd ⟨r, rest, (hphase.writer t r rest).mpr rfl⟩ (hnone (.thread t))
      | queued r => exact absurd (by simp [State.Holds, hphase.queue, Phase.queue]) (hnone .queue)
      | working r =>
        refine absurd ?_ (hnone .worker)
        rcases hphase.worker with hworker | hworker | ⟨file_device, hworker⟩ <;>
          simp [State.Holds, hworker]
      | _ => rfl

end Steps

theorem State.allowed_of {s : State Thread Device} {a : Agent Thread} (hreset : s.worker ≠ .reset)
    (hpath : ∀ t r path rest, s.pc t ≠ .write r (.savePath path :: rest) ∧
      s.pc t ≠ .write r (.copyPath path :: rest)) : s.Allowed a where
  reset _ h := absurd h hreset
  savePath t r path rest _ h := absurd h (hpath t r path rest).1
  copyPath t r path rest _ h := absurd h (hpath t r path rest).2

theorem contract_of_run_commit : ∃ s : State Unit Bool,
    Contract false [.Commit (some true)] [.called (.Commit true)] s := by
  have hcall : Run (false : Bool) State.Allowed [] [] (State.start.goto () (.request (.Commit (some true)))) :=
    Run.start.step (State.allowed_of (by simp [State.start]) (by simp [State.start]))
      (.call () (.Commit (some true)) rfl)
  have haccept := hcall.step (State.allowed_of (by simp [State.start, State.goto])
    (by simp [State.start, State.goto])) (.accept () (.Commit (some true)) rfl rfl)
  have houtput := haccept.step (State.allowed_of (by simp [State.start, State.goto])
    (by simp [State.goto, Request.writes])) (.write () _ _ _ _ rfl rfl)
  have hsize := houtput.step (State.allowed_of (by simp [State.start, State.goto])
    (by simp [State.goto])) (.write () _ _ _ _ rfl rfl)
  have hpath := hsize.step (State.allowed_of (by simp [State.start, State.goto])
    (by simp [State.goto])) (.write () _ _ _ _ rfl rfl)
  have hdevice := hpath.step (State.allowed_of (by simp [State.start, State.goto])
    (by simp [State.goto])) (.write () _ _ _ _ rfl rfl)
  have hsend := hdevice.step (State.allowed_of (by simp [State.start, State.goto])
    (by simp [State.goto])) (.send () _ rfl (by decide))
  have hreceive := hsend.step (State.allowed_of (by simp [State.start, State.goto])
    (by simp [State.goto])) (.receive .Commit [] rfl rfl)
  have hrun := hreceive.step (State.allowed_of (by simp) (by simp [State.goto]))
    (.run .Commit rfl rfl)
  have hread := hrun.step (State.allowed_of (by simp) (by simp [State.goto])) (.device .Commit rfl)
  have hcommit := hread.step (State.allowed_of (by simp) (by simp [State.goto]))
    (.deviceCall .Commit true 0 rfl)
  exact ⟨_, contract_of_run hcommit⟩

/-- The worker has given up the flags of the first request and not yet reset its device when the
second request stores its own: the second commit goes to the default device. -/
theorem device_overwritten : ¬∀ (accepted : List (Request Bool)) (outcomes : List (Outcome Bool))
    (s : State Bool Bool), Run false (fun _ _ => True) accepted outcomes s →
      Contract false accepted outcomes s := by
  intro hclaim
  have hfirst : Run (false : Bool) (fun _ _ => True) [.Commit none] [] _ :=
    ((((((Run.start : Run false (fun _ _ => True) [] [] (State.start : State Bool Bool)).step trivial
      (.call false (.Commit none) rfl)).step trivial (.accept false (.Commit none) rfl rfl)).step
      trivial (.write false _ _ _ _ rfl rfl)).step trivial (.write false _ _ _ _ rfl rfl)).step
      trivial (.write false _ _ _ _ rfl rfl)).step trivial (.write false _ _ _ _ rfl rfl)
  have hreleased : Run (false : Bool) (fun _ _ => True) [.Commit none] [.called (.Commit false)] _ :=
    (((((hfirst.step trivial (.send false _ rfl (by decide))).step trivial
      (.receive .Commit [] rfl rfl)).step trivial (.run .Commit rfl rfl)).step trivial
      (.device .Commit rfl)).step trivial (.deviceCall .Commit false 0 rfl)).step trivial (.release rfl)
  have hsecond : Run (false : Bool) (fun _ _ => True) [.Commit none, .Commit (some true)]
      [.called (.Commit false)] _ :=
    (((((hreleased.step trivial (.call true (.Commit (some true)) rfl)).step trivial
      (.accept true (.Commit (some true)) rfl rfl)).step trivial
      (.write true _ _ _ _ rfl rfl)).step trivial (.write true _ _ _ _ rfl rfl)).step trivial
      (.write true _ _ _ _ rfl rfl)).step trivial (.write true _ _ _ _ rfl rfl)
  have hserved : Run (false : Bool) (fun _ _ => True) [.Commit none, .Commit (some true)]
      [.called (.Commit false), .called (.Commit false)] _ :=
    (((((hsecond.step trivial (.send true _ rfl (by decide))).step trivial (.reset rfl)).step trivial
      (.receive .Commit [] rfl rfl)).step trivial (.run .Commit rfl rfl)).step trivial
      (.device .Commit rfl)).step trivial (.deviceCall .Commit false 0 rfl)
  obtain ⟨done, rest, haccepted, -, hall, -⟩ := (hclaim _ _ _ hserved).served
  cases hall with
  | cons _ hrest =>
    cases hrest with
    | cons hserves hnil =>
      cases hnil
      simp only [List.cons_append, List.nil_append, List.cons.injEq] at haccepted
      obtain ⟨-, rfl, -⟩ := haccepted
      cases hserves

end Awn.AsyncSaveManager
