import Awn.Calls.Throughout
import Awn.MessageQueue.Slots

/-!
`awn::sys::MessageQueue`, under its mutex: an operation that would have to wait on a condition
variable has no step.
-/

namespace Awn

structure MessageQueue where
  m_message_buffer : BitVec 32 → BitVec 64
  m_max_messages : BitVec 32
  m_pending_messages : BitVec 32
  m_current_message : BitVec 32

namespace MessageQueue

def create (buffer : BitVec 32 → BitVec 64) (max_message_count : BitVec 32) : MessageQueue where
  m_message_buffer := buffer
  m_max_messages := max_message_count
  m_pending_messages := 0
  m_current_message := 0

structure Answer where
  queue : MessageQueue
  done : Bool
  out_message : Option (BitVec 64)

section Bodies

variable (q : MessageQueue)

def sendIndex : BitVec 32 :=
  let index := q.m_pending_messages + q.m_current_message
  if q.m_max_messages.sle index then index - q.m_max_messages else index

def jamIndex : BitVec 32 :=
  let offset := q.m_current_message
  let adjust := if offset.slt 1 then q.m_max_messages else 0
  offset + adjust - 1

def SendMessageImpl (message : BitVec 64) : Answer where
  queue := { q with
    m_message_buffer := Function.update q.m_message_buffer q.sendIndex message
    m_pending_messages := q.m_pending_messages + 1 }
  done := true
  out_message := none

def RecieveMessageImpl : Answer where
  queue :=
    let m_current_message := q.m_current_message + 1
    let offset := if q.m_max_messages.sle m_current_message then q.m_max_messages else 0
    { q with
      m_pending_messages := q.m_pending_messages - 1
      m_current_message := m_current_message - offset }
  done := true
  out_message := some (q.m_message_buffer q.m_current_message)

def JamMessageImpl (message : BitVec 64) : Answer where
  queue := { q with
    m_message_buffer := Function.update q.m_message_buffer q.jamIndex message
    m_pending_messages := q.m_pending_messages + 1
    m_current_message := q.jamIndex }
  done := true
  out_message := none

def refuse : Answer := ⟨q, false, none⟩

end Bodies

inductive Op
  | SendMessage (message : BitVec 64)
  | TrySendMessage (message : BitVec 64)
  | JamMessage (message : BitVec 64)
  | TryJamMessage (message : BitVec 64)
  | ReceiveMessage
  | TryReceiveMessage
  | TryPeekMessage

def step? (q : MessageQueue) : Op → Option Answer
  | .SendMessage message =>
    if q.m_max_messages.sle q.m_pending_messages then none else some (q.SendMessageImpl message)
  | .TrySendMessage message =>
    some (if q.m_max_messages.sle q.m_pending_messages then q.refuse else q.SendMessageImpl message)
  | .JamMessage message =>
    if q.m_max_messages.sle q.m_pending_messages then none else some (q.JamMessageImpl message)
  | .TryJamMessage message =>
    some (if q.m_max_messages.sle q.m_pending_messages then q.refuse else q.JamMessageImpl message)
  | .ReceiveMessage =>
    if q.m_pending_messages = 0 then none else some q.RecieveMessageImpl
  | .TryReceiveMessage =>
    some (if q.m_pending_messages = 0 then q.refuse else q.RecieveMessageImpl)
  | .TryPeekMessage =>
    some (if q.m_pending_messages = 0 then q.refuse
      else ⟨q, true, some (q.m_message_buffer q.m_current_message)⟩)

def next (q : MessageQueue) (op : Op) : MessageQueue := ((q.step? op).getD q.refuse).queue

def index (q : MessageQueue) : Op → Option (BitVec 32)
  | .SendMessage _ | .TrySendMessage _ =>
    if q.m_max_messages.sle q.m_pending_messages then none else some q.sendIndex
  | .JamMessage _ | .TryJamMessage _ =>
    if q.m_max_messages.sle q.m_pending_messages then none else some q.jamIndex
  | .ReceiveMessage | .TryReceiveMessage | .TryPeekMessage =>
    if q.m_pending_messages = 0 then none else some q.m_current_message

def Op.call : Op → Deque (BitVec 64)
  | SendMessage message | TrySendMessage message => .pushBack message
  | JamMessage message | TryJamMessage message => .pushFront message
  | ReceiveMessage | TryReceiveMessage => .popFront
  | TryPeekMessage => .front

def slots (q : MessageQueue) : Slots where
  buffer := q.m_message_buffer
  max := q.m_max_messages
  count := q.m_pending_messages
  offset := q.m_current_message

def NotBlocked (q : MessageQueue) (op : Op) : Prop := (q.step? op).isSome = true

def Right (q : MessageQueue) (op : Op) : Prop :=
  ∃ answer, q.step? op = some answer ∧
    q.slots.Performs op.call (q.index op) answer.done answer.out_message answer.queue.slots

def Fits (q : MessageQueue) : Op → Prop
  | .SendMessage _ | .TrySendMessage _ =>
    ¬q.m_max_messages.sle q.m_pending_messages →
      q.m_pending_messages.toNat + q.m_current_message.toNat < 2 ^ 31
  | _ => True

def Holds (q : MessageQueue) : Prop := ∃ xs, q.slots.Holds xs

variable {q : MessageQueue} {message : BitVec 64}

theorem full_iff (h : q.Holds) : q.m_max_messages.sle q.m_pending_messages = true ↔
    ¬q.m_pending_messages.toNat < q.m_max_messages.toNat := by
  obtain ⟨xs, hxs⟩ := h
  have hcount := hxs.count
  have hmax := hxs.max
  change q.m_pending_messages.toNat ≤ q.m_max_messages.toNat at hcount
  change q.m_max_messages.toNat < 2 ^ 31 at hmax
  rw [Slots.sle_iff hmax]
  omega

theorem right_of_performs {op : Op} {answer : Answer} {i : Option (BitVec 32)}
    (hstep : q.step? op = some answer) (hindex : q.index op = i)
    (h : q.slots.Performs op.call i answer.done answer.out_message answer.queue.slots) :
    q.Right op := by
  refine ⟨answer, hstep, ?_⟩
  rw [hindex]
  exact h

theorem Fits.right {op : Op} (h : q.Holds) (hrun : q.NotBlocked op) (hfits : q.Fits op) :
    q.Right op := by
  have hfull := full_iff h
  obtain ⟨xs, hxs⟩ := h
  have hroom : ¬q.m_max_messages.sle q.m_pending_messages →
      q.m_pending_messages.toNat < q.m_max_messages.toNat := fun hnot => by
    by_contra hlt
    exact hnot (hfull.mpr hlt)
  cases op with
  | SendMessage message =>
    by_cases hsle : q.m_max_messages.sle q.m_pending_messages
    · rw [NotBlocked, step?, if_pos hsle] at hrun
      cases hrun
    · exact right_of_performs (if_neg hsle) (if_neg hsle)
        (hxs.pushBack_performs (hroom hsle) (hfits hsle))
  | TrySendMessage message =>
    by_cases hsle : q.m_max_messages.sle q.m_pending_messages
    · exact right_of_performs (congrArg some (if_pos hsle)) (if_pos hsle)
        (hxs.full_refuses (hfull.mp hsle)).1
    · exact right_of_performs (congrArg some (if_neg hsle)) (if_neg hsle)
        (hxs.pushBack_performs (hroom hsle) (hfits hsle))
  | JamMessage message =>
    by_cases hsle : q.m_max_messages.sle q.m_pending_messages
    · rw [NotBlocked, step?, if_pos hsle] at hrun
      cases hrun
    · exact right_of_performs (if_neg hsle) (if_neg hsle) (hxs.pushFront_performs (hroom hsle))
  | TryJamMessage message =>
    by_cases hsle : q.m_max_messages.sle q.m_pending_messages
    · exact right_of_performs (congrArg some (if_pos hsle)) (if_pos hsle)
        (hxs.full_refuses (hfull.mp hsle)).2
    · exact right_of_performs (congrArg some (if_neg hsle)) (if_neg hsle)
        (hxs.pushFront_performs (hroom hsle))
  | ReceiveMessage =>
    by_cases hempty : q.m_pending_messages = 0
    · rw [NotBlocked, step?, if_pos hempty] at hrun
      cases hrun
    · exact right_of_performs (if_neg hempty) (if_neg hempty) (hxs.popFront_performs hempty)
  | TryReceiveMessage =>
    by_cases hempty : q.m_pending_messages = 0
    · exact right_of_performs (congrArg some (if_pos hempty)) (if_pos hempty)
        (hxs.empty_refuses hempty).1
    · exact right_of_performs (congrArg some (if_neg hempty)) (if_neg hempty)
        (hxs.popFront_performs hempty)
  | TryPeekMessage =>
    by_cases hempty : q.m_pending_messages = 0
    · exact right_of_performs (congrArg some (if_pos hempty)) (if_pos hempty)
        (hxs.empty_refuses hempty).2
    · exact right_of_performs (congrArg some (if_neg hempty)) (if_neg hempty)
        (hxs.front_performs hempty)

theorem Right.fits {op : Op} (h : q.Holds) (hright : q.Right op) : q.Fits op := by
  have hfull := full_iff h
  obtain ⟨xs, hxs⟩ := h
  obtain ⟨answer, -, hright⟩ := hright
  have hinside := hright.inside
  have hback : (∀ i ∈ (if q.m_max_messages.sle q.m_pending_messages then none
        else some q.sendIndex), i.toNat < q.m_max_messages.toNat) →
      ¬q.m_max_messages.sle q.m_pending_messages →
        q.m_pending_messages.toNat + q.m_current_message.toNat < 2 ^ 31 := by
    intro hlt hroom
    rw [if_neg hroom] at hlt
    by_contra hsum
    have hout := hxs.backIndex_outside (by by_contra hnot; exact hroom (hfull.mpr hnot))
      (Nat.not_lt.mp hsum)
    exact absurd (hlt _ rfl) (Nat.not_lt.mpr hout)
  cases op with
  | SendMessage message => exact hback hinside
  | TrySendMessage message => exact hback hinside
  | JamMessage message => trivial
  | TryJamMessage message => trivial
  | ReceiveMessage => trivial
  | TryReceiveMessage => trivial
  | TryPeekMessage => trivial

theorem Right.next_holds {op : Op} (h : q.Right op) : (q.next op).Holds := by
  obtain ⟨answer, hstep, hright⟩ := h
  rw [next, hstep]
  exact hright.holds

/-- For every capacity and every sequence of operations none of which has to wait, the queue does
what the bounded queue does exactly if no append counts past `2 ^ 31`. -/
theorem operations_right_iff (buffer : BitVec 32 → BitVec 64) (max_message_count : BitVec 32)
    (hmax : max_message_count.toNat < 2 ^ 31) (ops : List Op)
    (hrun : Calls.EachIn next NotBlocked (create buffer max_message_count) ops) :
    Calls.EachIn next Right (create buffer max_message_count) ops ↔
      Calls.EachIn next Fits (create buffer max_message_count) ops := by
  refine Calls.throughout_iff (fun (q : MessageQueue) (_ : q.Holds) => trivial) ?_ ?_ ?_ hrun
  · intro q op h hrun hfits
    have hright := hfits.right h hrun
    exact ⟨hright, hright.next_holds⟩
  · exact fun q op h _ hright _ => hright.fits h
  · exact ⟨[], Slots.holds_create hmax⟩

theorem oneSlot_right :
    Calls.EachIn next Right (create (fun _ => 0) 1) [.JamMessage 5, .TrySendMessage 6,
        .ReceiveMessage] ↔
      Calls.EachIn next Fits (create (fun _ => 0) 1) [.JamMessage 5, .TrySendMessage 6,
        .ReceiveMessage] :=
  operations_right_iff _ 1 (by decide) _ ⟨trivial, rfl, trivial, rfl, trivial, rfl, trivial⟩

theorem large_count {n : ℕ} (hn : n < 2 ^ 30) :
    let q := (List.replicate n (Op.TrySendMessage 0)).foldl next
      (next (create (fun _ => 0) 0x40000001) (.TryJamMessage 0))
    q.m_max_messages = 0x40000001 ∧ q.m_pending_messages.toNat = n + 1 ∧
      q.m_current_message = 0x40000000 := by
  induction n with
  | zero => exact ⟨rfl, rfl, rfl⟩
  | succ n ih =>
    obtain ⟨hmax, hcount, hoffset⟩ := ih (by omega)
    dsimp only
    rw [List.replicate_succ', List.foldl_append]
    generalize (List.replicate n (Op.TrySendMessage 0)).foldl next _ = q at hmax hcount hoffset
    have hroom : ¬q.m_max_messages.sle q.m_pending_messages := by
      rw [hmax, Slots.sle_iff (by decide), hcount]
      change ¬(0x40000001 ≤ n + 1 ∧ n + 1 < 2 ^ 31)
      omega
    have hstep : q.step? (.TrySendMessage 0) = some (q.SendMessageImpl 0) :=
      congrArg some (if_neg hroom)
    rw [List.foldl_cons, List.foldl_nil, next, hstep]
    refine ⟨hmax, ?_, hoffset⟩
    change (q.m_pending_messages + 1).toNat = n + 1 + 1
    rw [Slots.toNat_succ (by omega), hcount]

theorem large_index {n : ℕ} (hn : n + 1 = 2 ^ 30) {q : MessageQueue}
    (hmax : q.m_max_messages = 0x40000001) (hcount : q.m_pending_messages.toNat = n + 1)
    (hoffset : q.m_current_message = 0x40000000) : ¬q.Right (.TrySendMessage 0) := by
  rintro ⟨answer, -, hright⟩
  have hcount' : q.m_pending_messages = 0x40000000 := by
    apply BitVec.eq_of_toNat_eq
    rw [hcount, hn]
    rfl
  have hindex : q.index (.TrySendMessage 0) = some 0x80000000 := by
    have hroom : ¬q.m_max_messages.sle q.m_pending_messages := by
      rw [hmax, hcount']
      decide
    have hsend : q.sendIndex = 0x80000000 := by
      rw [sendIndex, hmax, hcount', hoffset]
      rfl
    rw [← hsend]
    exact if_neg hroom
  have hlt := hright.inside 0x80000000 hindex
  change (0x80000000 : BitVec 32).toNat < q.m_max_messages.toNat at hlt
  rw [hmax] at hlt
  revert hlt
  decide

/-- `2 ^ 30 + 1` slots: with the front in the last slot and `2 ^ 30` messages, the index of the
last append is negative. -/
theorem largeQueue_not_right :
    let ops := Op.TryJamMessage 0 :: List.replicate (2 ^ 30) (.TrySendMessage 0)
    Calls.EachIn next NotBlocked (create (fun _ => 0) 0x40000001) ops ∧
      ¬Calls.EachIn next Right (create (fun _ => 0) 0x40000001) ops := by
  obtain ⟨n, hn⟩ : ∃ n, n + 1 = 2 ^ 30 := ⟨2 ^ 30 - 1, by omega⟩
  rw [← hn]
  dsimp only
  constructor
  · apply Calls.eachIn_of_forall
    intro op hop q
    obtain rfl | hop := List.mem_cons.mp hop
    · rfl
    · rw [List.eq_of_mem_replicate hop]
      rfl
  · rw [List.replicate_succ']
    rintro ⟨-, -, hrest⟩
    obtain ⟨hmax, hcount, hoffset⟩ := large_count (n := n) (by omega)
    exact large_index hn hmax hcount hoffset (Calls.Throughout.at_last hrest)

end MessageQueue

end Awn
