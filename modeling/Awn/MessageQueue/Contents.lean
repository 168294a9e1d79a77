import Awn.Calls.Throughout
import Awn.MessageQueue.Queue
import Awn.MessageQueue.Slots

/-!
What a `ServiceMessageQueue` holds: the parts of its operations that hold the busy mutex, one after
the other.
-/

namespace Awn.ServiceMessageQueue

def slots (q : ServiceMessageQueue) : Slots where
  buffer := q.m_message_buffer
  max := q.m_max
  count := q.m_count
  offset := q.m_offset

def peekAttempt (q : ServiceMessageQueue) : Attempt :=
  let pending_messages := q.m_count
  if pending_messages ≠ 0 then ⟨q, false, none⟩
  else ⟨q, true, some (q.m_message_buffer q.m_offset)⟩

inductive Body
  | run (op : Op)
  | TryPeekMessage

def body (q : ServiceMessageQueue) : Body → Attempt
  | .run op => q.attempt op
  | .TryPeekMessage => q.peekAttempt

def index (q : ServiceMessageQueue) : Body → Option (BitVec 32)
  | .run (.SendMessage _) | .run (.TrySendMessage _) =>
    if q.m_count < q.m_max then some q.slots.backIndex else none
  | .run (.JamMessage _) | .run (.TryJamMessage _) =>
    if q.m_count < q.m_max then some q.slots.frontIndex else none
  | .run .ReceiveMessage | .run .TryReceiveMessage =>
    if q.m_count = 0 then none else some q.m_offset
  | .TryPeekMessage => if q.m_count ≠ 0 then none else some q.m_offset

def Body.call : Body → Deque (BitVec 64)
  | .run (.SendMessage message) | .run (.TrySendMessage message) => .pushBack message
  | .run (.JamMessage message) | .run (.TryJamMessage message) => .pushFront message
  | .run .ReceiveMessage | .run .TryReceiveMessage => .popFront
  | .TryPeekMessage => .front

def next (q : ServiceMessageQueue) (b : Body) : ServiceMessageQueue := (q.body b).queue

def Right (q : ServiceMessageQueue) (b : Body) : Prop :=
  q.slots.Performs b.call (q.index b) (q.body b).done (q.body b).out_message (q.next b).slots

def Fits (q : ServiceMessageQueue) : Body → Prop
  | .run (.SendMessage _) | .run (.TrySendMessage _) =>
    q.m_count < q.m_max → q.m_count.toNat + q.m_offset.toNat < 2 ^ 31
  | .run _ => True
  | .TryPeekMessage => False

def Holds (q : ServiceMessageQueue) : Prop := ∃ xs, q.slots.Holds xs

variable {q : ServiceMessageQueue} {message : BitVec 64}

theorem slots_clearClearSignal : q.clearClearSignal.slots = q.slots := rfl

theorem slots_clearMessageSignal : q.clearMessageSignal.slots = q.slots := rfl

theorem sendAttempt_right {inserted missed : ServiceMessageQueue} {call : Deque (BitVec 64)}
    {i : BitVec 32} (hmissed : missed.slots = q.slots)
    (hroom : q.m_count < q.m_max → q.slots.Performs call (some i) true none inserted.slots)
    (hfull : ¬q.m_count < q.m_max → q.slots.Performs call none false none q.slots) :
    q.slots.Performs call (if q.m_count < q.m_max then some i else none)
      (q.sendAttempt inserted missed).done (q.sendAttempt inserted missed).out_message
      (q.sendAttempt inserted missed).queue.slots := by
  unfold sendAttempt
  by_cases hlt : q.m_count < q.m_max
  · rw [if_pos hlt, if_pos hlt]
    exact hroom hlt
  · rw [if_neg hlt, if_neg hlt]
    dsimp only
    rw [hmissed]
    exact hfull hlt

theorem receiveAttempt_right {missed : ServiceMessageQueue} {xs : List (BitVec 64)}
    (h : q.slots.Holds xs) (hmissed : missed.slots = q.slots) :
    q.slots.Performs .popFront (if q.m_count = 0 then none else some q.m_offset)
      (q.receiveAttempt missed).done (q.receiveAttempt missed).out_message
      (q.receiveAttempt missed).queue.slots := by
  unfold receiveAttempt
  by_cases hempty : q.m_count = 0
  · rw [if_pos hempty, if_pos hempty]
    dsimp only
    rw [hmissed]
    exact (h.empty_refuses hempty).1
  · rw [if_neg hempty, if_neg hempty]
    exact h.popFront_performs hempty

theorem Fits.right {b : Body} (h : q.Holds) (hfits : q.Fits b) : q.Right b := by
  obtain ⟨xs, hxs⟩ := h
  have hfull : ∀ message, ¬q.m_count < q.m_max →
      q.slots.Performs (.pushBack message) none false none q.slots ∧
        q.slots.Performs (.pushFront message) none false none q.slots :=
    fun message hfull => hxs.full_refuses hfull
  cases b with
  | run op =>
    cases op with
    | SendMessage message =>
      exact sendAttempt_right slots_clearClearSignal
        (fun hroom => hxs.pushBack_performs hroom (hfits hroom)) (fun hlt => (hfull message hlt).1)
    | TrySendMessage message =>
      exact sendAttempt_right rfl
        (fun hroom => hxs.pushBack_performs hroom (hfits hroom)) (fun hlt => (hfull message hlt).1)
    | JamMessage message =>
      exact sendAttempt_right slots_clearClearSignal
        (fun hroom => hxs.pushFront_performs hroom) (fun hlt => (hfull message hlt).2)
    | TryJamMessage message =>
      exact sendAttempt_right rfl
        (fun hroom => hxs.pushFront_performs hroom) (fun hlt => (hfull message hlt).2)
    | ReceiveMessage => exact receiveAttempt_right hxs slots_clearMessageSignal
    | TryReceiveMessage => exact receiveAttempt_right hxs rfl
  | TryPeekMessage => exact hfits.elim

theorem Right.fits {b : Body} (h : q.Holds) (hright : q.Right b) : q.Fits b := by
  obtain ⟨xs, hxs⟩ := h
  have hinside := hright.inside
  have hback : (∀ i ∈ (if q.m_count < q.m_max then some q.slots.backIndex else none),
      i.toNat < q.m_max.toNat) → q.m_count < q.m_max →
        q.m_count.toNat + q.m_offset.toNat < 2 ^ 31 := by
    intro hlt hroom
    rw [if_pos hroom] at hlt
    by_contra hsum
    have hout := hxs.backIndex_outside hroom (Nat.not_lt.mp hsum)
    exact absurd (hlt _ rfl) (Nat.not_lt.mpr hout)
  cases b with
  | run op =>
    cases op with
    | SendMessage message => exact hback hinside
    | TrySendMessage message => exact hback hinside
    | JamMessage message => trivial
    | TryJamMessage message => trivial
    | ReceiveMessage => trivial
    | TryReceiveMessage => trivial
  | TryPeekMessage =>
    have hanswers := hright.answers
    rw [hxs.contents_eq] at hanswers
    by_cases hempty : q.m_count = 0
    · have hpeek : q.body .TryPeekMessage = ⟨q, true, some (q.m_message_buffer q.m_offset)⟩ :=
        if_neg (not_not.mpr hempty)
      rw [hpeek, hxs.eq_nil hempty] at hanswers
      cases hanswers
    · have hpeek : q.body .TryPeekMessage = ⟨q, false, none⟩ := if_pos hempty
      obtain ⟨x, ys, rfl⟩ := hxs.exists_cons hempty
      rw [hpeek] at hanswers
      cases hanswers

theorem create_holds {max_message_count : BitVec 32} (hmax : max_message_count.toNat < 2 ^ 31) :
    (create max_message_count).Holds :=
  ⟨[], Slots.holds_create hmax⟩

/-- For every capacity the bodies of a run do what the bounded queue does exactly if none of them
is a peek or an append that counts past `2 ^ 31`. -/
theorem bodies_right_iff (max_message_count : BitVec 32)
    (hmax : max_message_count.toNat < 2 ^ 31) (bodies : List Body) :
    Calls.EachIn next Right (create max_message_count) bodies ↔
      Calls.EachIn next Fits (create max_message_count) bodies := by
  apply Calls.throughout_iff (U := fun _ _ => True) fun (q : ServiceMessageQueue) (_ : q.Holds) =>
    trivial
  · intro q b h _ hfits
    have hright := hfits.right h
    exact ⟨hright, hright.holds⟩
  · exact fun q b h _ hright _ => hright.fits h
  · exact create_holds hmax
  · exact Calls.eachIn_true

theorem twoSlots_right :
    Calls.EachIn next Right (create 2)
        [.run (.SendMessage 5), .run (.TryJamMessage 6), .run .ReceiveMessage] ↔
      Calls.EachIn next Fits (create 2)
        [.run (.SendMessage 5), .run (.TryJamMessage 6), .run .ReceiveMessage] :=
  bodies_right_iff 2 (by decide) _

theorem peek_not_right :
    ¬Calls.EachIn next Right (create 1) [.run (.TrySendMessage 7), .TryPeekMessage] := by
  rintro ⟨-, -, -, hpeek, -⟩
  have hanswers := hpeek.answers
  revert hanswers
  decide

end Awn.ServiceMessageQueue
