import Awn.Memory.Buffer

/-!
`StreamDecompressZstd` over the functions of the zstd library, which is a parameter. The buffers of
a context are memories of their own, and a stream is the list of its bytes.
-/

namespace Awn.Zstd

open Memory (Bytes copy bytesAt)

abbrev Byte := BitVec 8

/-- A result that is an error is `true`, or `none` in place of the bytes put out. -/
structure Library (D Dict : Type*) where
  isError : BitVec 64 → Bool
  getFrameContentSize : List Byte → BitVec 64
  decompressBegin_usingDDict : D → Option Dict → D × Bool
  nextSrcSizeToDecompress : D → ℕ
  decompressContinue : D → ℕ → List Byte → D × Option (List Byte)
  decompressContinue_le : ∀ d capacity src out,
    (decompressContinue d capacity src).2 = some out → out.length ≤ capacity

inductive State
  | Begin | Streaming | Finished | Error
  deriving DecidableEq

/-- `fed` is a ghost, the sources given to the library. -/
structure ZstdStreamContext (D Dict : Type*) where
  state : State
  output : Bytes
  output_size : ℕ
  output_used : ℕ
  leftover_stream : Bytes
  leftover_size : ℕ
  leftover_used : ℕ
  zstd_dctx : D
  zstd_ddict : Option Dict
  expected_left : BitVec 64
  fed : List (List Byte)

def cInvalidStreamState : BitVec 64 := BitVec.allOnes 64

def ResultZstdError : BitVec 64 := 514

section Model

variable {D Dict : Type*} (z : Library D Dict)

def decompress (c : ZstdStreamContext D Dict) (src : List Byte) :
    ZstdStreamContext D Dict × Bool :=
  match z.decompressContinue c.zstd_dctx (c.output_size - c.output_used) src with
  | (dctx, none) => ({ c with state := .Error, zstd_dctx := dctx, fed := c.fed ++ [src] }, false)
  | (dctx, some out) =>
    ({ c with
        output := copy c.output c.output_used out
        output_used := c.output_used + out.length
        zstd_dctx := dctx
        expected_left := c.expected_left - BitVec.ofNat 64 out.length
        fed := c.fed ++ [src] }, true)

def append (next_size : ℕ) (c : ZstdStreamContext D Dict) (stream : List Byte) :
    ZstdStreamContext D Dict × List Byte :=
  if c.leftover_used < next_size then
    let next_size_left := next_size - c.leftover_used
    let append_size := if next_size_left < stream.length then next_size_left else stream.length
    ({ c with
        leftover_stream := copy c.leftover_stream c.leftover_used (stream.take append_size)
        leftover_used := c.leftover_used + append_size }, stream.drop append_size)
  else (c, stream)

def nextLeftovers (next_size : ℕ) (c : ZstdStreamContext D Dict) : ZstdStreamContext D Dict :=
  let next_left := c.leftover_used - next_size
  { c with
    leftover_stream :=
      if next_left ≠ 0 then copy c.leftover_stream 0 (bytesAt c.leftover_stream next_size next_left)
      else c.leftover_stream
    leftover_used := next_left }

inductive Iteration (D Dict : Type*)
  | continue (c : ZstdStreamContext D Dict) (stream : List Byte)
  | return (c : ZstdStreamContext D Dict) (result : BitVec 64)

def iteration (c : ZstdStreamContext D Dict) (stream : List Byte) : Iteration D Dict :=
  let next_size := z.nextSrcSizeToDecompress c.zstd_dctx
  if next_size = 0 then .return { c with state := .Finished } 0
  else if c.leftover_used = 0 then
    if stream.length < next_size then
      if c.leftover_size < next_size then .return { c with state := .Error } cInvalidStreamState
      else
        .return
          { c with
            leftover_stream := copy c.leftover_stream 0 stream
            leftover_used := stream.length } c.expected_left
    else
      match decompress z c (stream.take next_size) with
      | (c, false) => .return c cInvalidStreamState
      | (c, true) => .continue c (stream.drop next_size)
  else
    let (c, stream) := append next_size c stream
    if c.leftover_used < next_size then .continue c stream
    else
      match decompress z c (bytesAt c.leftover_stream 0 next_size) with
      | (c, false) => .return c cInvalidStreamState
      | (c, true) => .continue (nextLeftovers next_size c) stream

@[simp]
theorem decompress_leftover_used (c : ZstdStreamContext D Dict) (src : List Byte) :
    (decompress z c src).1.leftover_used = c.leftover_used := by
  rw [decompress]
  split <;> rfl

theorem iteration_lt {c c' : ZstdStreamContext D Dict} {stream stream' : List Byte}
    (hstream : stream ≠ []) (h : iteration z c stream = .continue c' stream') :
    2 * stream'.length + c'.leftover_used < 2 * stream.length + c.leftover_used := by
  have hpos : 0 < stream.length := List.length_pos_iff.mpr hstream
  have hused (c : ZstdStreamContext D Dict) (src : List Byte) {r : ZstdStreamContext D Dict × Bool}
      (hr : decompress z c src = r) : r.1.leftover_used = c.leftover_used := by
    rw [← hr, decompress_leftover_used]
  simp only [iteration, append, nextLeftovers] at h
  grind

def loop (c : ZstdStreamContext D Dict) (stream : List Byte) : ZstdStreamContext D Dict × BitVec 64 :=
  if _hstream : stream = [] then (c, c.expected_left)
  else
    match _h : iteration z c stream with
    | .return c result => (c, result)
    | .continue c' stream' => loop c' stream'
termination_by 2 * stream.length + c.leftover_used
decreasing_by exact iteration_lt z _hstream _h

def streamDecompressZstd (stream : List Byte) (c : ZstdStreamContext D Dict) :
    ZstdStreamContext D Dict × BitVec 64 :=
  if c.state = .Begin then
    let expected_size := z.getFrameContentSize stream
    if z.isError expected_size = true ∨ c.output_size < expected_size.toNat then
      ({ c with state := .Error }, cInvalidStreamState)
    else
      match z.decompressBegin_usingDDict c.zstd_dctx c.zstd_ddict with
      | (dctx, true) => ({ c with zstd_dctx := dctx, expected_left := expected_size }, ResultZstdError)
      | (dctx, false) =>
        loop z { c with state := .Streaming, zstd_dctx := dctx, expected_left := expected_size } stream
  else loop z c stream

end Model

/-! The library on frames of raw blocks that have no checksum and their content size in one byte. -/

inductive RawStage
  | getFrameHeaderSize | decodeFrameHeader | decodeBlockHeader
  | decompressBlock (size : Fin (2 ^ 17 + 1)) (last : Bool)
  | finished

namespace RawStage

def nextSrcSize : RawStage → ℕ
  | .getFrameHeaderSize => 5
  | .decodeFrameHeader => 1
  | .decodeBlockHeader => 3
  | .decompressBlock size _ => size
  | .finished => 0

def behindBlock (last : Bool) : RawStage := if last then .finished else .decodeBlockHeader

def decodeBlock (header : ℕ) : RawStage × Option (List Byte) :=
  let last := header % 2 = 1
  let size := header / 8
  if header / 2 % 4 ≠ 0 then (.decodeBlockHeader, none)
  else if h : size < 2 ^ 17 + 1 then
    if size = 0 then (behindBlock last, some [])
    else (.decompressBlock ⟨size, h⟩ last, some [])
  else (.decodeBlockHeader, none)

def decode (stage : RawStage) (capacity : ℕ) (src : List Byte) : RawStage × Option (List Byte) :=
  match stage, src with
  | .getFrameHeaderSize, [0x28, 0xB5, 0x2F, 0xFD, 0x20] => (.decodeFrameHeader, some [])
  | .getFrameHeaderSize, _ => (.getFrameHeaderSize, none)
  | .decodeFrameHeader, _ => (.decodeBlockHeader, some [])
  | .decodeBlockHeader, [a, b, c] => decodeBlock (a.toNat + 2 ^ 8 * b.toNat + 2 ^ 16 * c.toNat)
  | .decodeBlockHeader, _ => (.decodeBlockHeader, none)
  | .decompressBlock size last, src =>
    if src.length ≤ capacity then (behindBlock last, some src)
    else (.decompressBlock size last, none)
  | .finished, _ => (.finished, none)

theorem nextSrcSize_le (stage : RawStage) : stage.nextSrcSize ≤ 2 ^ 17 := by
  cases stage with
  | decompressBlock size last => exact Nat.le_of_lt_succ size.isLt
  | _ => decide

theorem decode_le {stage : RawStage} {capacity : ℕ} {src out : List Byte}
    (h : (stage.decode capacity src).2 = some out) : out.length ≤ capacity := by
  have hblock {header : ℕ} (hout : (decodeBlock header).2 = some out) : out = [] := by
    rw [decodeBlock] at hout
    split_ifs at hout <;> cases hout <;> rfl
  have hempty {out : List Byte} (hout : out = []) : out.length ≤ capacity := by
    rw [hout]
    exact Nat.zero_le _
  rw [decode.eq_def] at h
  split at h
  · cases h
    exact hempty rfl
  · cases h
  · cases h
    exact hempty rfl
  · exact hempty (hblock h)
  · cases h
  · split at h
    · cases h
      assumption
    · cases h
  · cases h

end RawStage

def rawLibrary : Library RawStage Unit where
  isError code := decide (2 ^ 64 - 120 < code.toNat)
  getFrameContentSize
    | 0x28 :: 0xB5 :: 0x2F :: 0xFD :: 0x20 :: size :: _ => size.setWidth 64
    | _ => BitVec.allOnes 64 - 1
  decompressBegin_usingDDict _ _ := (.getFrameHeaderSize, false)
  nextSrcSizeToDecompress := RawStage.nextSrcSize
  decompressContinue := RawStage.decode
  decompressContinue_le _ _ _ _ h := RawStage.decode_le h

end Awn.Zstd
