import Awn.Zstd.Stream

/-!
`ZstdDecompressor` as the thread that loads the files and the thread that decompresses them, which
share a stream memory of two halves, a context and two events.
-/

namespace Awn.ZstdDecompressor

open Zstd Memory

def cReadSize : ℕ := 0xd0000

def cLeftoverSize : ℕ := 0x20000

def cMinimumFileAlignment : ℤ := 0x20

structure FrameHeader where
  frameContentSize : BitVec 64
  dictID : BitVec 32

/-- `none` is an error. -/
structure FrameLibrary (D Dict : Type*) extends Library D Dict where
  initStaticDCtx : D
  getFrameHeader_advanced : List Byte → Option FrameHeader
  decompress_usingDDict : ℕ → List Byte → Option Dict → Option (List Byte)

inductive Result
  | Success
  | InvalidFileBufferSize
  | InvalidReadDivAlignment
  | ZstdError
  | InvalidZstdFrameContentSize
  | FailedToAllocateFileMemory
  | OutputBufferTooSmall
  | ZstdDecompressionFailed
  | StreamDecompressionError
  | device (code : ℕ)
  deriving DecidableEq

structure Read where
  result : Result
  bytes : List Byte
  bytes_le : bytes.length ≤ cReadSize

structure FileLoadContext where
  read_div : BitVec 32
  out_is_file_memory_allocated : Bool
  file_buffer : Option Bytes
  file_size : ℕ
  file_alignment : ℤ

structure LoadCall where
  file_load_context : FileLoadContext
  open_result : Result
  size_result : Result
  file_size : ℕ
  reads : ℕ → Read
  memory : Option Bytes

structure Outcome where
  result : Result
  file_load_context : FileLoadContext
  out : Option (ℕ × ℤ)

namespace LoadCall

def output_alignment (f : LoadCall) : ℤ :=
  if 0x20 < f.file_load_context.file_alignment then f.file_load_context.file_alignment
  else cMinimumFileAlignment

def refused (f : LoadCall) : Option Result :=
  if f.file_load_context.file_buffer.isSome = true ∧ f.file_load_context.file_size = 0 then
    some .InvalidFileBufferSize
  else if f.file_load_context.read_div ≠ 0 then some .InvalidReadDivAlignment
  else if f.open_result ≠ .Success then some f.open_result
  else if f.size_result ≠ .Success then some f.size_result
  else none

def outputBuffer (f : LoadCall) (decomp_size : ℕ) : Except Result (FileLoadContext × Bytes) :=
  match f.file_load_context.file_buffer with
  | none =>
    match f.memory with
    | none => .error .FailedToAllocateFileMemory
    | some memory =>
      .ok
        ({ f.file_load_context with
            file_buffer := some memory
            file_size := decomp_size
            file_alignment := f.output_alignment
            out_is_file_memory_allocated := true }, memory)
  | some memory =>
    if decomp_size < f.file_load_context.file_size then .ok (f.file_load_context, memory)
    else .error .OutputBufferTooSmall

end LoadCall

def FileLoadContext.release (context : FileLoadContext) : FileLoadContext :=
  if context.out_is_file_memory_allocated = true then { context with file_buffer := none } else context

inductive Prepared (D Dict : Type*)
  | returned (o : Outcome)
  | streaming (file_load_context : FileLoadContext) (c : ZstdStreamContext D Dict)

section Model

variable {D Dict : Type*} (z : FrameLibrary D Dict) (dic : BitVec 32 → Option Dict)

def prepare (f : LoadCall) : Prepared D Dict :=
  let failed (result : Result) (context : FileLoadContext) : Prepared D Dict :=
    .returned ⟨result, context, none⟩
  let stream := (f.reads 0).bytes
  if (f.reads 0).result ≠ .Success then failed (f.reads 0).result f.file_load_context
  else
    match z.getFrameHeader_advanced stream with
    | none => failed .ZstdError f.file_load_context
    | some frame_header =>
      if frame_header.frameContentSize = BitVec.allOnes 64 ∨ frame_header.frameContentSize = 0 then
        failed .InvalidZstdFrameContentSize f.file_load_context
      else
        let decomp_size := frame_header.frameContentSize.toNat
        match f.outputBuffer decomp_size with
        | .error result => failed result f.file_load_context
        | .ok (context, memory) =>
          let dictionary := dic frame_header.dictID
          if stream.length < cReadSize then
            match z.decompress_usingDDict decomp_size stream dictionary with
            | none => failed .ZstdDecompressionFailed context.release
            | some out =>
              let context := { context with file_buffer := some (copy memory 0 out) }
              if out.length = decomp_size then
                .returned ⟨.Success, context, some (decomp_size, f.output_alignment)⟩
              else failed .ZstdDecompressionFailed context.release
          else
            .streaming context
              { state := .Begin
                output := memory
                output_size := decomp_size
                output_used := 0
                leftover_stream := fun _ => 0
                leftover_size := cLeftoverSize
                leftover_used := 0
                zstd_dctx := z.initStaticDCtx
                zstd_ddict := dictionary
                expected_left := 0
                fed := [] }

def streamed (f : LoadCall) (context : FileLoadContext) (result : Result)
    (c : ZstdStreamContext D Dict) : Outcome :=
  let context := { context with file_buffer := some c.output }
  if result = .Success then ⟨.Success, context, some (c.output_size, f.output_alignment)⟩
  else ⟨result, context.release, none⟩

structure Message where
  size : ℕ
  half : Bool
  chunk : List Byte

structure DecompressorThread (D Dict : Type*) where
  m_stream_count : BitVec 32
  m_is_error : Bool
  m_current_stream_context : Option (ZstdStreamContext D Dict)
  m_decompress_finish_event : Bool
  m_stream_finish_event : Bool
  m_message_queue : List Message

inductive Pc
  | idle
  | decompress (m : Message)
  | update (expected : BitVec 64)
  | signal
  | signalStream

structure Position where
  call : LoadCall
  file_load_context : FileLoadContext
  chunk : ℕ
  file_offset : ℕ
  temp_select : Bool
  size_read : ℕ

inductive Reader (D Dict : Type*)
  | idle
  | waitFinish (call : LoadCall) (file_load_context : FileLoadContext) (c : ZstdStreamContext D Dict)
  | send (p : Position)
  | read (p : Position)
  | wait (p : Position)
  | final (p : Position)
  | waitFinal (p : Position)

structure System (D Dict : Type*) where
  thread : DecompressorThread D Dict
  stream : Bytes
  pc : Pc
  reader : Reader D Dict
  results : List (LoadCall × Outcome)

def halfAddress (half : Bool) : ℕ := if half then cReadSize else 0

namespace Position

def last (p : Position) : Read := p.call.reads p.chunk

def message (p : Position) : Message := ⟨p.size_read, !p.temp_select, p.last.bytes⟩

def next (p : Position) : Position :=
  let read := p.call.reads (p.chunk + 1)
  { p with
    chunk := p.chunk + 1
    file_offset := p.file_offset + read.bytes.length
    temp_select := !p.temp_select
    size_read := read.bytes.length }

end Position

namespace System

variable (s : System D Dict)

def sendMessage (m : Message) : System D Dict :=
  { s with thread :=
      { s.thread with
        m_stream_finish_event := false
        m_message_queue := s.thread.m_message_queue ++ [m] } }

def leave (p : Position) (result : Result) (c : ZstdStreamContext D Dict) : System D Dict :=
  { s with
    thread := { s.thread with m_current_stream_context := none }
    reader := .idle
    results := s.results ++ [(p.call, streamed p.call p.file_load_context result c)] }

def behindWait (p : Position) (c : ZstdStreamContext D Dict) : System D Dict :=
  if p.last.result ≠ .Success then s.leave p p.last.result c
  else if s.thread.m_is_error = true then s.leave p .StreamDecompressionError c
  else if p.file_offset < p.call.file_size then { s with reader := .send p }
  else { s with reader := .final p }

def behindLoop (p : Position) (c : ZstdStreamContext D Dict) : System D Dict :=
  if 0 < c.expected_left then { s.sendMessage p.message with reader := .waitFinal p }
  else s.leave p .Success c

def streamHalf : Bool := decide (s.thread.m_stream_count &&& 1 ≠ 0)

def doDecompress (m : Message) (c : ZstdStreamContext D Dict) : System D Dict :=
  let r := streamDecompressZstd z.toLibrary (bytesAt s.stream (halfAddress s.streamHalf) m.size) c
  { s with
    thread := { s.thread with m_current_stream_context := some r.1 }
    pc := .update r.2 }

def signal (c : ZstdStreamContext D Dict) : System D Dict :=
  { s with
    thread :=
      if c.state = .Finished ∨ c.state = .Error then
        { s.thread with m_decompress_finish_event := true }
      else s.thread
    pc := .signalStream }

end System

inductive Step : System D Dict → Option LoadCall → System D Dict → Prop
  | refused {s f result} (hreader : s.reader = .idle) (hrefused : f.refused = some result) :
    Step s (some f) { s with results := s.results ++ [(f, ⟨result, f.file_load_context, none⟩)] }
  | returned {s f o} (hreader : s.reader = .idle) (hrefused : f.refused = none)
      (hprepare : prepare z dic f = .returned o) :
    Step s (some f)
      { s with
        stream := copy s.stream 0 (f.reads 0).bytes
        results := s.results ++ [(f, o)] }
  | streaming {s f context c} (hreader : s.reader = .idle) (hrefused : f.refused = none)
      (hprepare : prepare z dic f = .streaming context c) :
    Step s (some f)
      { s with
        stream := copy s.stream 0 (f.reads 0).bytes
        reader := .waitFinish f context c }
  | waitFinish {s f context c} (hreader : s.reader = .waitFinish f context c)
      (hevent : s.thread.m_decompress_finish_event = true) :
    Step s none
      { s with
        thread :=
          { s.thread with
            m_decompress_finish_event := false
            m_current_stream_context := some c }
        reader := .send ⟨f, context, 0, (f.reads 0).bytes.length, true, cReadSize⟩ }
  | send {s p} (hreader : s.reader = .send p) :
    Step s none { s.sendMessage p.message with reader := .read p }
  | read {s p} (hreader : s.reader = .read p) :
    Step s none
      { s with
        stream := copy s.stream (halfAddress p.temp_select) p.next.last.bytes
        reader := .wait p.next }
  | wait {s p c} (hreader : s.reader = .wait p) (hevent : s.thread.m_stream_finish_event = true)
      (hcontext : s.thread.m_current_stream_context = some c) : Step s none (s.behindWait p c)
  | final {s p c} (hreader : s.reader = .final p)
      (hcontext : s.thread.m_current_stream_context = some c) : Step s none (s.behindLoop p c)
  | waitFinal {s p c} (hreader : s.reader = .waitFinal p)
      (hevent : s.thread.m_stream_finish_event = true)
      (hcontext : s.thread.m_current_stream_context = some c) :
    Step s none
      (s.leave p
        (if c.expected_left = cInvalidStreamState then .StreamDecompressionError else .Success) c)
  | receive {s m rest} (hpc : s.pc = .idle) (hqueue : s.thread.m_message_queue = m :: rest) :
    Step s none
      { s with thread := { s.thread with m_message_queue := rest }, pc := .decompress m }
  | decompress {s m c} (hpc : s.pc = .decompress m)
      (hcontext : s.thread.m_current_stream_context = some c) : Step s none (s.doDecompress z m c)
  | update {s expected} (hpc : s.pc = .update expected) :
    Step s none
      { s with
        thread :=
          { s.thread with
            m_stream_count := s.thread.m_stream_count + 1
            m_is_error := decide (expected = cInvalidStreamState) }
        pc := .signal }
  | signal {s c} (hpc : s.pc = .signal) (hcontext : s.thread.m_current_stream_context = some c) :
    Step s none (s.signal c)
  | signalStream {s} (hpc : s.pc = .signalStream) :
    Step s none { s with thread := { s.thread with m_stream_finish_event := true }, pc := .idle }

def System.initial (m_stream_count : BitVec 32) (m_is_error : Bool) (stream : Bytes) :
    System D Dict where
  thread := ⟨m_stream_count, m_is_error, none, true, false, []⟩
  stream := stream
  pc := .idle
  reader := .idle
  results := []

inductive Run (P : System D Dict → LoadCall → Prop) :
    System D Dict → List LoadCall → System D Dict → Prop
  | start (s : System D Dict) : Run P s [] s
  | begin {s t u : System D Dict} {calls : List LoadCall} {f : LoadCall} (h : Run P s calls t)
      (hallowed : P t f) (hstep : Step z dic t (some f) u) : Run P s (calls ++ [f]) u
  | step {s t u : System D Dict} {calls : List LoadCall} (h : Run P s calls t)
      (hstep : Step z dic t none u) : Run P s calls u

end Model

end Awn.ZstdDecompressor
