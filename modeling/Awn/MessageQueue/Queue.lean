import Mathlib.Data.Nat.Notation
import Mathlib.Logic.Function.Basic

/-!
`awn::sys::ServiceMessageQueue`: a ring of messages and two wait values, each `0` when nobody
has looked at it, `1` while somebody waits on it and `2` once it has been signalled.
-/

namespace Awn

structure ServiceMessageQueue where
  m_message_buffer : BitVec 32 → BitVec 64
  m_max : BitVec 32
  m_count : BitVec 32
  m_offset : BitVec 32
  m_message_wait_value : BitVec 32
  m_clear_wait_value : BitVec 32

namespace ServiceMessageQueue

def create (max_message_count : BitVec 32) : ServiceMessageQueue where
  m_message_buffer := fun _ => 0
  m_max := max_message_count
  m_count := 0
  m_offset := 0
  m_message_wait_value := 0
  m_clear_wait_value := 0

def compareExchange (value desired expected : BitVec 32) : BitVec 32 :=
  if value = expected then desired else value

def insertBack (q : ServiceMessageQueue) (message : BitVec 64) : ServiceMessageQueue :=
  let offset := q.m_count + q.m_offset
  let index := if q.m_max.sle offset then offset - q.m_max else offset
  { q with m_message_buffer := Function.update q.m_message_buffer index message,
           m_count := q.m_count + 1 }

def insertFront (q : ServiceMessageQueue) (message : BitVec 64) : ServiceMessageQueue :=
  let adjust := if q.m_offset.slt 1 then q.m_max else 0
  let index := q.m_offset + adjust - 1
  { q with m_message_buffer := Function.update q.m_message_buffer index message,
           m_count := q.m_count + 1, m_offset := index }

def removeFront (q : ServiceMessageQueue) : ServiceMessageQueue :=
  let next_offset := q.m_offset + 1
  let adjust := if q.m_max.sle next_offset then q.m_max else 0
  { q with m_count := q.m_count - 1, m_offset := next_offset - adjust }

def clearMessageSignal (q : ServiceMessageQueue) : ServiceMessageQueue :=
  { q with m_message_wait_value := compareExchange q.m_message_wait_value 0 2 }

def clearClearSignal (q : ServiceMessageQueue) : ServiceMessageQueue :=
  { q with m_clear_wait_value := compareExchange q.m_clear_wait_value 0 2 }

inductive Op
  | SendMessage (message : BitVec 64)
  | TrySendMessage (message : BitVec 64)
  | JamMessage (message : BitVec 64)
  | TryJamMessage (message : BitVec 64)
  | ReceiveMessage
  | TryReceiveMessage

structure Attempt where
  queue : ServiceMessageQueue
  done : Bool
  out_message : Option (BitVec 64)

def sendAttempt (q inserted missed : ServiceMessageQueue) : Attempt :=
  if q.m_count < q.m_max then ⟨inserted, true, none⟩ else ⟨missed, false, none⟩

def receiveAttempt (q missed : ServiceMessageQueue) : Attempt :=
  if q.m_count = 0 then ⟨missed, false, none⟩
  else ⟨q.removeFront, true, some (q.m_message_buffer q.m_offset)⟩

def attempt (q : ServiceMessageQueue) : Op → Attempt
  | .SendMessage message => q.sendAttempt (q.insertBack message) q.clearClearSignal
  | .TrySendMessage message => q.sendAttempt (q.insertBack message) q
  | .JamMessage message => q.sendAttempt (q.insertFront message) q.clearClearSignal
  | .TryJamMessage message => q.sendAttempt (q.insertFront message) q
  | .ReceiveMessage => q.receiveAttempt q.clearMessageSignal
  | .TryReceiveMessage => q.receiveAttempt q

inductive Word
  | message
  | clear
  deriving DecidableEq

def value (q : ServiceMessageQueue) : Word → BitVec 32
  | .message => q.m_message_wait_value
  | .clear => q.m_clear_wait_value

def setValue (q : ServiceMessageQueue) (v : BitVec 32) : Word → ServiceMessageQueue
  | .message => { q with m_message_wait_value := v }
  | .clear => { q with m_clear_wait_value := v }

namespace Op

def isSender : Op → Bool
  | SendMessage _ | TrySendMessage _ | JamMessage _ | TryJamMessage _ => true
  | ReceiveMessage | TryReceiveMessage => false

def isBlocking : Op → Bool
  | SendMessage _ | JamMessage _ | ReceiveMessage => true
  | TrySendMessage _ | TryJamMessage _ | TryReceiveMessage => false

def signals (op : Op) : Word := if op.isSender then .message else .clear

def awaits (op : Op) : Word := if op.isSender then .clear else .message

end Op

@[simp] theorem value_setValue_self (q : ServiceMessageQueue) (v : BitVec 32) (w : Word) :
    (q.setValue v w).value w = v := by
  cases w <;> rfl

theorem value_setValue_of_ne (q : ServiceMessageQueue) (v : BitVec 32) {w u : Word} (h : u ≠ w) :
    (q.setValue v w).value u = q.value u := by
  cases w <;> cases u <;> first | rfl | exact absurd rfl h

@[simp] theorem m_count_setValue (q : ServiceMessageQueue) (v : BitVec 32) (w : Word) :
    (q.setValue v w).m_count = q.m_count := by
  cases w <;> rfl

@[simp] theorem m_max_setValue (q : ServiceMessageQueue) (v : BitVec 32) (w : Word) :
    (q.setValue v w).m_max = q.m_max := by
  cases w <;> rfl

/-- What a wait value stands for: messages to receive, or free slots that a sender has missed. -/
def Work (q : ServiceMessageQueue) (found_full : Bool) : Word → Prop
  | .message => q.m_count ≠ 0
  | .clear => found_full = true ∧ q.m_count < q.m_max

theorem work_setValue (q : ServiceMessageQueue) (v : BitVec 32) (w u : Word) (found_full : Bool) :
    (q.setValue v w).Work found_full u ↔ q.Work found_full u := by
  cases u <;> simp only [Work, m_count_setValue, m_max_setValue]

theorem compareExchange_eq (value desired expected : BitVec 32) :
    compareExchange value desired expected = value ∨
      value = expected ∧ compareExchange value desired expected = desired := by
  rw [compareExchange]
  by_cases h : value = expected
  · exact Or.inr ⟨h, if_pos h⟩
  · exact Or.inl (if_neg h)

theorem attempt_value (q : ServiceMessageQueue) (op : Op) (w : Word) :
    (q.attempt op).queue.value w = q.value w ∨
      q.value w = 2 ∧ (q.attempt op).queue.value w = 0 := by
  have hclear := compareExchange_eq q.m_clear_wait_value 0 2
  have hmessage := compareExchange_eq q.m_message_wait_value 0 2
  cases op <;> simp only [attempt, sendAttempt, receiveAttempt] <;> split <;> cases w <;>
    first | exact Or.inl rfl | exact hclear | exact hmessage

theorem sendAttempt_work {q inserted missed : ServiceMessageQueue} {found_full : Bool} {w : Word}
    (hinserted : inserted.value .clear = q.value .clear) (hcount : missed.m_count = q.m_count)
    (hmax : missed.m_max = q.m_max) (hmissed : missed.value .message = q.value .message)
    (h : (q.sendAttempt inserted missed).queue.Work
      (found_full || true && !(q.sendAttempt inserted missed).done) w) :
    (q.Work found_full w ∧ (q.sendAttempt inserted missed).queue.value w = q.value w) ∨
      ((q.sendAttempt inserted missed).done = true ∧ Word.message = w) := by
  rw [sendAttempt] at h ⊢
  by_cases hroom : q.m_count < q.m_max
  · rw [if_pos hroom] at h ⊢
    cases w with
    | message => exact Or.inr ⟨rfl, rfl⟩
    | clear =>
      have hfull := h.1
      rw [Bool.not_true, Bool.and_false, Bool.or_false] at hfull
      exact Or.inl ⟨⟨hfull, hroom⟩, hinserted⟩
  · rw [if_neg hroom] at h ⊢
    cases w with
    | message =>
      refine Or.inl ⟨?_, hmissed⟩
      rw [Work, hcount] at h
      exact h
    | clear =>
      have hlt := h.2
      rw [hcount, hmax] at hlt
      exact absurd hlt hroom

theorem receiveAttempt_work {q missed : ServiceMessageQueue} {found_full : Bool} {w : Word}
    (hcount : missed.m_count = q.m_count) (hmax : missed.m_max = q.m_max)
    (hmissed : missed.value .clear = q.value .clear)
    (h : (q.receiveAttempt missed).queue.Work
      (found_full || false && !(q.receiveAttempt missed).done) w) :
    (q.Work found_full w ∧ (q.receiveAttempt missed).queue.value w = q.value w) ∨
      ((q.receiveAttempt missed).done = true ∧ Word.clear = w) := by
  rw [Bool.false_and, Bool.or_false] at h
  rw [receiveAttempt] at h ⊢
  by_cases hempty : q.m_count = 0
  · rw [if_pos hempty] at h ⊢
    cases w with
    | message =>
      rw [Work, hcount] at h
      exact absurd hempty h
    | clear =>
      refine Or.inl ⟨?_, hmissed⟩
      rw [Work, hcount, hmax] at h
      exact h
  · rw [if_neg hempty] at h ⊢
    cases w with
    | message => exact Or.inl ⟨hempty, rfl⟩
    | clear => exact Or.inr ⟨rfl, rfl⟩

theorem attempt_work (q : ServiceMessageQueue) (op : Op) {found_full : Bool} {w : Word}
    (h : (q.attempt op).queue.Work (found_full || op.isSender && !(q.attempt op).done) w) :
    (q.Work found_full w ∧ (q.attempt op).queue.value w = q.value w) ∨
      ((q.attempt op).done = true ∧ op.signals = w) := by
  cases op with
  | SendMessage message => exact sendAttempt_work rfl rfl rfl rfl h
  | TrySendMessage message => exact sendAttempt_work rfl rfl rfl rfl h
  | JamMessage message => exact sendAttempt_work rfl rfl rfl rfl h
  | TryJamMessage message => exact sendAttempt_work rfl rfl rfl rfl h
  | ReceiveMessage => exact receiveAttempt_work rfl rfl rfl h
  | TryReceiveMessage => exact receiveAttempt_work rfl rfl rfl h

end ServiceMessageQueue

end Awn

namespace Awn.ServiceMessageQueue

inductive Pc
  | idle
  /-- Before the part that holds the busy mutex. -/
  | body (op : Op)
  /-- Signalling loop: before the exchange of `0` for `2`. -/
  | signal (w : Word)
  /-- Signalling loop: before `ukern::WakeByAddress`. -/
  | wake (w : Word)
  /-- Signalling loop: before `WakeByAddressAll`, with the result of `ukern::WakeByAddress`. -/
  | wakeAll (w : Word) (result : Bool)
  /-- Waiting: before the first read of the wait value. -/
  | readValue (op : Op)
  /-- Waiting: before the exchange of `0` for `1`. -/
  | setWaiting (op : Op)
  /-- Waiting: before `WaitOnAddress`. -/
  | park (op : Op)
  | parked (op : Op)
  /-- Waiting: before the read that ends the loop around `WaitOnAddress`. -/
  | recheck (op : Op)
  /-- A `VP_ASSERT` has failed. -/
  | failed

structure State (Thread : Type) where
  queue : ServiceMessageQueue
  pc : Thread → Pc
  out_message : Thread → Option (BitVec 64)
  /-- Whether a sender has found the queue full so far. -/
  found_full : Bool

def afterBody (op : Op) (done : Bool) : Pc :=
  if done then .signal op.signals else if op.isBlocking then .readValue op else .idle

def afterSignal (w : Word) (last : BitVec 32) : Pc :=
  if last = 0 then .idle else if last = 1 then .wake w else if last = 2 then .idle else .failed

def afterRead (op : Op) (value : BitVec 32) : Pc :=
  if value = 2 then .body op else if value = 1 then .park op
  else if value = 0 then .setWaiting op else .failed

def afterSetWaiting (op : Op) (last : BitVec 32) : Pc :=
  if last = 0 then .park op else afterRead op last

def wakeFiber (w : Word) (is_fiber : Bool) : Pc → Pc
  | .parked op => if is_fiber ∧ op.awaits = w then .body op else .parked op
  | pc => pc

def wakeThread (w : Word) (is_fiber : Bool) : Pc → Pc
  | .parked op => if is_fiber = false ∧ op.awaits = w then .recheck op else .parked op
  | pc => pc

section Step

variable {Thread : Type}

def State.goto [DecidableEq Thread] (s : State Thread) (t : Thread) (pc : Pc) : State Thread :=
  { s with pc := Function.update s.pc t pc }

def State.setValue (s : State Thread) (w : Word) (v : BitVec 32) : State Thread :=
  { s with queue := s.queue.setValue v w }

def State.wakeParked (s : State Thread) (f : Bool → Pc → Pc) (is_fiber : Thread → Bool) :
    State Thread :=
  { s with pc := fun t => f (is_fiber t) (s.pc t) }

def State.start (max_message_count : BitVec 32) : State Thread where
  queue := create max_message_count
  pc := fun _ => .idle
  out_message := fun _ => none
  found_full := false

variable [DecidableEq Thread]

def State.runBody (s : State Thread) (t : Thread) (op : Op) : State Thread :=
  let result := s.queue.attempt op
  { queue := result.queue
    pc := Function.update s.pc t (afterBody op result.done)
    out_message := Function.update s.out_message t (result.out_message <|> s.out_message t)
    found_full := s.found_full || op.isSender && !result.done }

inductive Step (is_fiber : Thread → Bool) : State Thread → State Thread → Prop
  | call {s} (t) (op) : s.pc t = .idle → Step is_fiber s (s.goto t (.body op))
  | body {s} (t) (op) : s.pc t = .body op → Step is_fiber s (s.runBody t op)
  | signal {s} (t) (w) : s.pc t = .signal w →
      Step is_fiber s ((s.setValue w (compareExchange (s.queue.value w) 2 0)).goto t
        (afterSignal w (s.queue.value w)))
  | wake {s} (t) (w) : s.pc t = .wake w → s.queue.value w = 1 →
      Step is_fiber s (((s.setValue w 2).wakeParked (wakeFiber w) is_fiber).goto t
        (.wakeAll w true))
  | wakeMiss {s} (t) (w) : s.pc t = .wake w → s.queue.value w ≠ 1 →
      Step is_fiber s (s.goto t (.wakeAll w false))
  | wakeAll {s} (t) (w) (result) : s.pc t = .wakeAll w result →
      Step is_fiber s ((s.wakeParked (wakeThread w) is_fiber).goto t
        (if result then .idle else .signal w))
  | readValue {s} (t) (op) : s.pc t = .readValue op →
      Step is_fiber s (s.goto t (afterRead op (s.queue.value op.awaits)))
  | setWaiting {s} (t) (op) : s.pc t = .setWaiting op →
      Step is_fiber s ((s.setValue op.awaits (compareExchange (s.queue.value op.awaits) 1 0)).goto t
        (afterSetWaiting op (s.queue.value op.awaits)))
  | park {s} (t) (op) : s.pc t = .park op → s.queue.value op.awaits = 1 →
      Step is_fiber s (s.goto t (.parked op))
  | parkMiss {s} (t) (op) : s.pc t = .park op → s.queue.value op.awaits ≠ 1 →
      Step is_fiber s (s.goto t (if is_fiber t then .body op else .recheck op))
  /-- `::WaitOnAddress` may return without a wake. -/
  | spurious {s} (t) (op) : s.pc t = .parked op → is_fiber t = false →
      Step is_fiber s (s.goto t (.recheck op))
  | recheck {s} (t) (op) : s.pc t = .recheck op →
      Step is_fiber s (s.goto t (if s.queue.value op.awaits = 1 then .park op else .body op))

inductive Reachable (is_fiber : Thread → Bool) (max_message_count : BitVec 32) :
    State Thread → Prop
  | start : Reachable is_fiber max_message_count (State.start max_message_count)
  | step {s s' : State Thread} : Reachable is_fiber max_message_count s → Step is_fiber s s' →
      Reachable is_fiber max_message_count s'

end Step

end Awn.ServiceMessageQueue
