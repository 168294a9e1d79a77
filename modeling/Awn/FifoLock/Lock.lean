import Mathlib.Data.List.Basic

/-! A lock that admits its callers one at a time, in the order of their arrival. -/

namespace Awn.FifoLock

inductive Event (Thread : Type)
  | arrive (t : Thread)
  | grant (t : Thread)
  | depart (t : Thread)

structure State (Thread : Type) where
  /-- The threads that have arrived and not departed, the longest waiting first. -/
  queue : List Thread
  /-- Whether the first thread has been admitted. -/
  admitted : Bool

variable {Thread : Type}

inductive Step : State Thread → Event Thread → State Thread → Prop
  | arrive {queue : List Thread} {admitted : Bool} (t : Thread) :
      Step ⟨queue, admitted⟩ (.arrive t) ⟨queue ++ [t], admitted⟩
  | grant {queue : List Thread} (t : Thread) :
      Step ⟨t :: queue, false⟩ (.grant t) ⟨t :: queue, true⟩
  | depart {queue : List Thread} (t : Thread) :
      Step ⟨t :: queue, true⟩ (.depart t) ⟨queue, false⟩

inductive Run : List (Event Thread) → State Thread → Prop
  | start : Run [] ⟨[], false⟩
  | step {events : List (Event Thread)} {s s' : State Thread} {event : Event Thread} :
      Run events s → Step s event s' → Run (events ++ [event]) s'

def Event.arrival : Event Thread → Option Thread
  | .arrive t => some t
  | _ => none

def Event.admission : Event Thread → Option Thread
  | .grant t => some t
  | _ => none

def arrivals (events : List (Event Thread)) : List Thread := events.filterMap Event.arrival

def admissions (events : List (Event Thread)) : List Thread := events.filterMap Event.admission

@[simp] theorem arrivals_append (events events' : List (Event Thread)) :
    arrivals (events ++ events') = arrivals events ++ arrivals events' :=
  List.filterMap_append

@[simp] theorem admissions_append (events events' : List (Event Thread)) :
    admissions (events ++ events') = admissions events ++ admissions events' :=
  List.filterMap_append

@[simp] theorem arrivals_singleton (event : Event Thread) :
    arrivals [event] = event.arrival.toList := by
  cases event <;> rfl

@[simp] theorem admissions_singleton (event : Event Thread) :
    admissions [event] = event.admission.toList := by
  cases event <;> rfl

def State.waiting (s : State Thread) : List Thread :=
  if s.admitted then s.queue.tail else s.queue

theorem Step.waiting {s s' : State Thread} {event : Event Thread}
    (hstep : Step s event s') (hs : s.admitted = true → s.queue ≠ []) :
    s.waiting ++ arrivals [event] = admissions [event] ++ s'.waiting := by
  cases hstep with
  | @arrive queue admitted t =>
    cases admitted with
    | false => simp [State.waiting, Event.arrival, Event.admission]
    | true =>
      cases queue with
      | nil => exact absurd rfl (hs rfl)
      | cons u rest => simp [State.waiting, Event.arrival, Event.admission]
  | grant t => simp [State.waiting, Event.arrival, Event.admission]
  | depart t => simp [State.waiting, Event.arrival, Event.admission]

theorem Step.ne_nil {s s' : State Thread} {event : Event Thread} (hstep : Step s event s')
    (hs : s.admitted = true → s.queue ≠ []) : s'.admitted = true → s'.queue ≠ [] := by
  intro hadmitted
  cases hstep with
  | arrive t => simp
  | grant t => simp
  | depart t => simp at hadmitted

theorem Run.ne_nil {events : List (Event Thread)} {s : State Thread} (h : Run events s) :
    s.admitted = true → s.queue ≠ [] := by
  induction h with
  | start => simp
  | step _ hstep ih => exact hstep.ne_nil ih

theorem Run.arrivals_eq {events : List (Event Thread)} {s : State Thread} (h : Run events s) :
    arrivals events = admissions events ++ s.waiting := by
  induction h with
  | start => rfl
  | @step events s s' event hrun hstep ih =>
    rw [arrivals_append, admissions_append, ih, List.append_assoc, List.append_assoc,
      hstep.waiting hrun.ne_nil]

theorem Run.admissions_prefix {events : List (Event Thread)} {s : State Thread}
    (h : Run events s) : admissions events <+: arrivals events := by
  rw [h.arrivals_eq]
  exact List.prefix_append _ _

end Awn.FifoLock
