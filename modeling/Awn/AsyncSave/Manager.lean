import Awn.Memory.Strcmp
import Mathlib.Logic.Function.Basic

namespace Awn.AsyncSaveManager

abbrev MaxPathString := FixedString 260

inductive Message
  | Read
  | Size
  | Save
  | Commit
  | Copy

inductive Request (Device : Type)
  | Read (file_buffer buffer_size : BitVec 64) (path : Option CString)
      (user_file_device : Option Device)
  | Size (path : Option CString) (user_file_device : Option Device)
  | Save (save_data save_size : BitVec 64) (path : Option CString) (user_file_device : Option Device)
  | Commit (user_file_device : Option Device)
  | Copy (dst_path src_path : Option CString) (copy_buffer copy_buffer_size : BitVec 64)
      (user_file_device : Option Device)

inductive DeviceCall (Device : Type)
  | LoadFile (file_device : Device) (path : List (BitVec 8)) (file_buffer file_size : BitVec 64)
  | GetFileSize (file_device : Device) (path : List (BitVec 8))
  | SaveFile (file_device : Device) (path : List (BitVec 8)) (file file_size : BitVec 64)
  | Commit (file_device : Device)
  | CopyFile (file_device : Device) (dst_path src_path : List (BitVec 8))
      (copy_buffer copy_buffer_size : BitVec 64)

structure Fields (Device : Type) where
  m_output : BitVec 64
  m_output_size : BitVec 64
  m_save_path : MaxPathString
  m_copy_path : MaxPathString
  m_user_file_device : Option Device

inductive Write (Device : Type)
  | output (value : BitVec 64)
  | outputSize (value : BitVec 64)
  | savePath (path : Option CString)
  | clearPath
  | copyPath (path : Option CString)
  | device (user_file_device : Option Device)

variable {Device : Type}

def Request.message : Request Device → Message
  | .Read .. => .Read
  | .Size .. => .Size
  | .Save .. => .Save
  | .Commit .. => .Commit
  | .Copy .. => .Copy

def Message.flag : Message → BitVec 32
  | .Read => 1 <<< 0
  | .Size => 1 <<< 1
  | .Save => 1 <<< 2
  | .Commit => 1 <<< 3
  | .Copy => 1 <<< 4

def cPauseFlag : BitVec 32 := 1 <<< 5

def Request.writes : Request Device → List (Write Device)
  | .Read file_buffer buffer_size path user_file_device =>
    [.output file_buffer, .outputSize buffer_size, .savePath path, .device user_file_device]
  | .Size path user_file_device =>
    [.output 0, .outputSize 0, .savePath path, .device user_file_device]
  | .Save save_data save_size path user_file_device =>
    [.output save_data, .outputSize save_size, .savePath path, .device user_file_device]
  | .Commit user_file_device =>
    [.output 0, .outputSize 0, .clearPath, .device user_file_device]
  | .Copy dst_path src_path copy_buffer copy_buffer_size user_file_device =>
    [.output copy_buffer, .outputSize copy_buffer_size, .savePath dst_path, .copyPath src_path,
      .device user_file_device]

/-- `none` where a path is longer than its array. -/
def Write.apply (w : Write Device) (f : Fields Device) : Option (Fields Device) :=
  match w with
  | .output value => some { f with m_output := value }
  | .outputSize value => some { f with m_output_size := value }
  | .savePath path => (f.m_save_path.assign path).map fun s => { f with m_save_path := s }
  | .clearPath => some { f with m_save_path := f.m_save_path.clear }
  | .copyPath path => (f.m_copy_path.assign path).map fun s => { f with m_copy_path := s }
  | .device user_file_device => some { f with m_user_file_device := user_file_device }

def deviceCall (message : Message) (file_device : Device) (f : Fields Device) : DeviceCall Device :=
  match message with
  | .Read => .LoadFile file_device f.m_save_path.getString f.m_output f.m_output_size
  | .Size => .GetFileSize file_device f.m_save_path.getString
  | .Save => .SaveFile file_device f.m_save_path.getString f.m_output f.m_output_size
  | .Commit => .Commit file_device
  | .Copy => .CopyFile file_device f.m_save_path.getString f.m_copy_path.getString f.m_output
      f.m_output_size

inductive Pc (Device : Type)
  | idle
  /-- Before `InterlockedFetchOr`. -/
  | request (r : Request Device)
  /-- Accepted, with the assignments that are left before `SendMessage`. -/
  | write (r : Request Device) (rest : List (Write Device))
  /-- An assignment has written behind an array. -/
  | corrupted

inductive Worker (Device : Type)
  /-- Before it receives a message. -/
  | receive
  /-- Before the test of `m_pause`. -/
  | pause (message : Message)
  /-- Before it reads `m_user_file_device`. -/
  | device (message : Message)
  /-- Before it makes the call. -/
  | call (message : Message) (file_device : Device)
  /-- Before `InterlockedAnd` clears the requests. -/
  | release
  /-- Before `ThreadMain` resets `m_user_file_device`. -/
  | reset

structure State (Thread Device : Type) where
  m_request_flags : BitVec 32
  fields : Fields Device
  /-- The messages of the worker's queue. -/
  queue : List Message
  worker : Worker Device
  pc : Thread → Pc Device

inductive Outcome (Device : Type)
  | skipped (message : Message)
  | called (call : DeviceCall Device)

inductive Agent (Thread : Type)
  | thread (t : Thread)
  | worker
  /-- Whoever calls `Pause` or `Unpause`. -/
  | pauser

variable {Thread : Type}

def State.start : State Thread Device where
  m_request_flags := 0
  fields := ⟨0, 0, .create 260, .create 260, none⟩
  queue := []
  worker := .receive
  pc := fun _ => .idle

variable [DecidableEq Thread]

def State.goto (s : State Thread Device) (t : Thread) (pc : Pc Device) : State Thread Device :=
  { s with pc := Function.update s.pc t pc }

inductive Step (m_save_file_device : Device) : State Thread Device → Agent Thread →
    List (Request Device) → List (Outcome Device) → State Thread Device → Prop
  | call {s} (t) (r) : s.pc t = .idle →
      Step m_save_file_device s (.thread t) [] [] (s.goto t (.request r))
  | accept {s} (t) (r) : s.pc t = .request r → s.m_request_flags = 0 →
      Step m_save_file_device s (.thread t) [r] []
        ({ s with m_request_flags := s.m_request_flags ||| r.message.flag }.goto t
          (.write r r.writes))
  | reject {s} (t) (r) : s.pc t = .request r → s.m_request_flags ≠ 0 →
      Step m_save_file_device s (.thread t) [] []
        ({ s with m_request_flags := s.m_request_flags ||| r.message.flag }.goto t .idle)
  | write {s} (t) (r) (w) (rest) (fields) : s.pc t = .write r (w :: rest) →
      w.apply s.fields = some fields →
      Step m_save_file_device s (.thread t) [] [] ({ s with fields := fields }.goto t (.write r rest))
  | overrun {s} (t) (r) (w) (rest) : s.pc t = .write r (w :: rest) → w.apply s.fields = none →
      Step m_save_file_device s (.thread t) [] [] (s.goto t .corrupted)
  | send {s} (t) (r) : s.pc t = .write r [] → s.queue.length < 4 →
      Step m_save_file_device s (.thread t) [] []
        ({ s with queue := s.queue ++ [r.message] }.goto t .idle)
  | receive {s} (message) (rest) : s.worker = .receive → s.queue = message :: rest →
      Step m_save_file_device s .worker [] [] { s with queue := rest, worker := .pause message }
  | skip {s} (message) : s.worker = .pause message → s.m_request_flags &&& cPauseFlag ≠ 0 →
      Step m_save_file_device s .worker [] [.skipped message] { s with worker := .release }
  | run {s} (message) : s.worker = .pause message → s.m_request_flags &&& cPauseFlag = 0 →
      Step m_save_file_device s .worker [] [] { s with worker := .device message }
  | device {s} (message) : s.worker = .device message →
      Step m_save_file_device s .worker [] []
        { s with worker := .call message (s.fields.m_user_file_device.getD m_save_file_device) }
  /-- `GetFileSize` stores the size it finds in `m_output_size`. -/
  | deviceCall {s} (message) (file_device) (size) : s.worker = .call message file_device →
      Step m_save_file_device s .worker [] [.called (deviceCall message file_device s.fields)]
        { s with
          worker := .release
          fields := { s.fields with
            m_output_size := match message with
              | .Size => size
              | _ => s.fields.m_output_size } }
  | release {s} : s.worker = .release →
      Step m_save_file_device s .worker [] []
        { s with worker := .reset, m_request_flags := s.m_request_flags &&& cPauseFlag }
  | reset {s} : s.worker = .reset →
      Step m_save_file_device s .worker [] []
        { s with worker := .receive, fields := { s.fields with m_user_file_device := none } }
  | pause {s} : Step m_save_file_device s .pauser [] []
      { s with m_request_flags := s.m_request_flags ||| cPauseFlag }
  | unpause {s} : Step m_save_file_device s .pauser [] []
      { s with m_request_flags := s.m_request_flags &&& ~~~cPauseFlag }

inductive Run (m_save_file_device : Device) (allowed : State Thread Device → Agent Thread → Prop) :
    List (Request Device) → List (Outcome Device) → State Thread Device → Prop
  | start : Run m_save_file_device allowed [] [] State.start
  | step {accepted requests : List (Request Device)} {outcomes shown : List (Outcome Device)}
      {s s' : State Thread Device} {a : Agent Thread} :
      Run m_save_file_device allowed accepted outcomes s → allowed s a →
      Step m_save_file_device s a requests shown s' →
      Run m_save_file_device allowed (accepted ++ requests) (outcomes ++ shown) s'

end Awn.AsyncSaveManager
