import Awn.ZstdDecompressor.Thread

/-!
The calls of `LoadDecompressFile`, one after another, against what each does on its own.
-/

namespace Awn.ZstdDecompressor

open Zstd Memory

variable {D Dict : Type*} (z : FrameLibrary D Dict) (dic : BitVec 32 → Option Dict)

inductive Turn (D Dict : Type*)
  | again (c : ZstdStreamContext D Dict)
  | exit (result : Result) (c : ZstdStreamContext D Dict)

namespace LoadCall

variable (f : LoadCall)

def offset : ℕ → ℕ
  | 0 => (f.reads 0).bytes.length
  | k + 1 => offset k + (f.reads (k + 1)).bytes.length

def handOver (k : ℕ) (c : ZstdStreamContext D Dict) : ZstdStreamContext D Dict × BitVec 64 :=
  streamDecompressZstd z.toLibrary (f.reads k).bytes c

def lastTurn (k : ℕ) (c : ZstdStreamContext D Dict) : Turn D Dict :=
  if 0 < c.expected_left then
    let r := f.handOver z k c
    .exit (if r.1.expected_left = cInvalidStreamState then .StreamDecompressionError else .Success) r.1
  else .exit .Success c

def turn (k : ℕ) (c : ZstdStreamContext D Dict) : Turn D Dict :=
  let r := f.handOver z k c
  if (f.reads (k + 1)).result ≠ .Success then .exit (f.reads (k + 1)).result r.1
  else if r.2 = cInvalidStreamState then .exit .StreamDecompressionError r.1
  else if f.offset (k + 1) < f.file_size then .again r.1
  else f.lastTurn z (k + 1) r.1

def head (c : ZstdStreamContext D Dict) : ℕ → Option (ZstdStreamContext D Dict)
  | 0 => some c
  | k + 1 =>
    match head c k with
    | none => none
    | some d =>
      match f.turn z k d with
      | .again e => some e
      | .exit _ _ => none

def Leaves (c : ZstdStreamContext D Dict) (result : Result) (e : ZstdStreamContext D Dict) : Prop :=
  ∃ k d, f.head z c k = some d ∧ f.turn z k d = .exit result e

def Loads (o : Outcome) : Prop :=
  match f.refused with
  | some result => o = ⟨result, f.file_load_context, none⟩
  | none =>
    match prepare z dic f with
    | .returned o' => o = o'
    | .streaming context c => ∃ result e, f.Leaves z c result e ∧ o = streamed f context result e

def Ends : Prop :=
  ∀ context c, prepare z dic f = .streaming context c →
    ∀ result e, f.Leaves z c result e → e.state = .Finished ∨ e.state = .Error

def Exact : Prop :=
  f.refused = none ∧ (f.reads 0).result = .Success ∧
    f.file_load_context.file_buffer.isSome = true ∧
    ∃ frame_header, z.getFrameHeader_advanced (f.reads 0).bytes = some frame_header ∧
      frame_header.frameContentSize ≠ BitVec.allOnes 64 ∧
      frame_header.frameContentSize.toNat = f.file_load_context.file_size

def Streamed : Prop :=
  f.refused = none ∧ ∃ context c, prepare z dic f = .streaming context c

variable {z dic f}

theorem head_succ {c d e : ZstdStreamContext D Dict} {k : ℕ} (hd : f.head z c k = some d)
    (hturn : f.turn z k d = .again e) : f.head z c (k + 1) = some e := by
  rw [head, hd]
  dsimp only
  rw [hturn]

theorem again_of_head {c e : ZstdStreamContext D Dict} {k n : ℕ}
    (h : f.head z c (k + n + 1) = some e) :
    ∃ d d', f.head z c k = some d ∧ f.turn z k d = .again d' := by
  have hone (n : ℕ) {e : ZstdStreamContext D Dict} (h : f.head z c (n + 1) = some e) :
      ∃ d, f.head z c n = some d ∧ f.turn z n d = .again e := by
    rw [head] at h
    cases hd : f.head z c n with
    | none =>
      rw [hd] at h
      cases h
    | some d =>
      rw [hd] at h
      dsimp only at h
      cases hturn : f.turn z n d with
      | again e' =>
        rw [hturn] at h
        cases h
        exact ⟨d, rfl, hturn⟩
      | exit result e' =>
        rw [hturn] at h
        cases h
  induction n generalizing e with
  | zero =>
    obtain ⟨d, hd, hturn⟩ := hone k h
    exact ⟨d, e, hd, hturn⟩
  | succ n ih =>
    obtain ⟨d, hd, _⟩ := hone (k + n + 1) h
    exact ih hd

theorem Leaves.unique {c e e' : ZstdStreamContext D Dict} {result result' : Result}
    (h : f.Leaves z c result e) (h' : f.Leaves z c result' e') : result' = result ∧ e' = e := by
  have hlater {k k' : ℕ} {d d' e : ZstdStreamContext D Dict} {result : Result}
      (hd : f.head z c k = some d) (hturn : f.turn z k d = .exit result e)
      (hd' : f.head z c k' = some d') : ¬k < k' := by
    intro hlt
    obtain ⟨n, rfl⟩ := Nat.exists_eq_add_of_lt hlt
    obtain ⟨a, a', ha, hagain⟩ := again_of_head hd'
    rw [hd] at ha
    cases ha
    rw [hturn] at hagain
    cases hagain
  obtain ⟨k, d, hd, hturn⟩ := h
  obtain ⟨k', d', hd', hturn'⟩ := h'
  have hk : k' = k := by
    have h₁ := hlater hd hturn hd'
    have h₂ := hlater hd' hturn' hd
    omega
  subst hk
  rw [hd] at hd'
  cases hd'
  rw [hturn] at hturn'
  cases hturn'
  exact ⟨rfl, rfl⟩

theorem Loads.unique {o o' : Outcome} (h : f.Loads z dic o) (h' : f.Loads z dic o') : o' = o := by
  cases hrefused : f.refused with
  | some result =>
    simp only [Loads, hrefused] at h h'
    rw [h, h']
  | none =>
    cases hprepare : prepare z dic f with
    | returned a =>
      simp only [Loads, hrefused, hprepare] at h h'
      rw [h, h']
    | streaming context c =>
      simp only [Loads, hrefused, hprepare] at h h'
      obtain ⟨result, e, hleaves, ho⟩ := h
      obtain ⟨result', e', hleaves', ho'⟩ := h'
      obtain ⟨rfl, rfl⟩ := hleaves.unique hleaves'
      rw [ho, ho']

end LoadCall

def odd (k : ℕ) : Bool := decide (k % 2 = 1)

theorem odd_succ (k : ℕ) : odd (k + 1) = !odd k := by
  rw [odd, odd, ← decide_not, decide_eq_decide]
  omega

theorem bit_succ (x : BitVec 32) : decide ((x + 1) &&& 1 ≠ 0) = !decide (x &&& 1 ≠ 0) := by
  have hbit (y : BitVec 32) : y &&& 1 ≠ 0 ↔ y.toNat % 2 = 1 := by
    have hand : (y &&& 1).toNat = y.toNat % 2 := by
      rw [BitVec.toNat_and]
      exact Nat.and_one_is_mod _
    constructor
    · intro h
      have hne : (y &&& 1).toNat ≠ 0 := fun hzero => h (BitVec.eq_of_toNat_eq hzero)
      omega
    · intro h hzero
      rw [hzero] at hand
      have : (0 : BitVec 32).toNat = 0 := rfl
      omega
  have hone : (1 : BitVec 32).toNat = 1 := rfl
  rw [← decide_not, decide_eq_decide, hbit, hbit, BitVec.toNat_add, hone]
  omega

theorem bytesAt_otherHalf (m : Bytes) (half : Bool) {bytes : List Byte} {n : ℕ}
    (hbytes : bytes.length ≤ cReadSize) (hn : n ≤ cReadSize) :
    bytesAt (copy m (halfAddress !half) bytes) (halfAddress half) n =
      bytesAt m (halfAddress half) n := by
  apply bytesAt_congr
  intro b hle hlt
  cases half with
  | false =>
    apply copy_apply_of_lt
    simp only [halfAddress, Bool.not_false, if_true, Bool.false_eq_true, if_false] at *
    omega
  | true =>
    apply copy_apply_of_ge
    simp only [halfAddress, Bool.not_true, if_true, Bool.false_eq_true, if_false] at *
    omega

section Run

def Still (s : System D Dict) : Prop := s.pc = .idle ∧ s.thread.m_message_queue = []

def InStream (s : System D Dict) (f : LoadCall) (k : ℕ) : Prop :=
  bytesAt s.stream (halfAddress (odd k)) (f.reads k).bytes.length = (f.reads k).bytes

def chunkMessage (f : LoadCall) (k : ℕ) : Message :=
  ⟨(f.reads k).bytes.length, odd k, (f.reads k).bytes⟩

def Over (c : ZstdStreamContext D Dict) : Prop := c.state = .Finished ∨ c.state = .Error

inductive Working (f : LoadCall) (k : ℕ) (c : ZstdStreamContext D Dict) (s : System D Dict) : Prop
  | sent (hpc : s.pc = .idle) (hqueue : s.thread.m_message_queue = [chunkMessage f k])
      (hcontext : s.thread.m_current_stream_context = some c)
      (hevent : s.thread.m_stream_finish_event = false) (hhalf : s.streamHalf = odd k)
      (hstream : InStream s f k)
  | received (hpc : s.pc = .decompress (chunkMessage f k)) (hqueue : s.thread.m_message_queue = [])
      (hcontext : s.thread.m_current_stream_context = some c)
      (hevent : s.thread.m_stream_finish_event = false) (hhalf : s.streamHalf = odd k)
      (hstream : InStream s f k)
  | decompressed (hpc : s.pc = .update (f.handOver z k c).2)
      (hqueue : s.thread.m_message_queue = [])
      (hcontext : s.thread.m_current_stream_context = some (f.handOver z k c).1)
      (hevent : s.thread.m_stream_finish_event = false) (hhalf : s.streamHalf = odd k)
  | updated (hpc : s.pc = .signal) (hqueue : s.thread.m_message_queue = [])
      (hcontext : s.thread.m_current_stream_context = some (f.handOver z k c).1)
      (hevent : s.thread.m_stream_finish_event = false) (hhalf : s.streamHalf = odd (k + 1))
      (herror : s.thread.m_is_error = decide ((f.handOver z k c).2 = cInvalidStreamState))
  | signalled (hpc : s.pc = .signalStream) (hqueue : s.thread.m_message_queue = [])
      (hcontext : s.thread.m_current_stream_context = some (f.handOver z k c).1)
      (hevent : s.thread.m_stream_finish_event = false) (hhalf : s.streamHalf = odd (k + 1))
      (herror : s.thread.m_is_error = decide ((f.handOver z k c).2 = cInvalidStreamState))
      (hover : Over (f.handOver z k c).1 → s.thread.m_decompress_finish_event = true)
  | done (hstill : Still s)
      (hcontext : s.thread.m_current_stream_context = some (f.handOver z k c).1)
      (hevent : s.thread.m_stream_finish_event = true) (hhalf : s.streamHalf = odd (k + 1))
      (herror : s.thread.m_is_error = decide ((f.handOver z k c).2 = cInvalidStreamState))
      (hover : Over (f.handOver z k c).1 → s.thread.m_decompress_finish_event = true)

structure Located (p : Position) (c₀ c : ZstdStreamContext D Dict) : Prop where
  refused : p.call.refused = none
  prepare : prepare z dic p.call = .streaming p.file_load_context c₀
  ends : p.call.Ends z dic
  exact : ¬p.call.Exact z
  temp_select : p.temp_select = !odd p.chunk
  size_read : p.size_read = p.last.bytes.length
  file_offset : p.file_offset = p.call.offset p.chunk
  head : p.call.head z c₀ p.chunk = some c

structure Through (p : Position) (c : ZstdStreamContext D Dict) : Prop where
  result : p.next.last.result = .Success
  error : (p.call.handOver z p.chunk c).2 ≠ cInvalidStreamState
  offset : ¬p.call.offset (p.chunk + 1) < p.call.file_size

def Standing (s : System D Dict) : Reader D Dict → Prop
  | .idle => Still s ∧ s.thread.m_decompress_finish_event = true
  | .waitFinish f context c => Still s ∧ s.thread.m_decompress_finish_event = true ∧
      s.streamHalf = odd 0 ∧ InStream s f 0 ∧ f.refused = none ∧
      prepare z dic f = .streaming context c ∧ f.Ends z dic ∧ ¬f.Exact z
  | .send p => ∃ c₀ c, Located z dic p c₀ c ∧ Still s ∧
      s.thread.m_current_stream_context = some c ∧ s.streamHalf = odd p.chunk ∧
      InStream s p.call p.chunk
  | .read p => ∃ c₀ c, Located z dic p c₀ c ∧ Working z p.call p.chunk c s
  | .wait q => ∃ p c₀ c, q = p.next ∧ Located z dic p c₀ c ∧ Working z p.call p.chunk c s ∧
      InStream s p.call (p.chunk + 1)
  | .final q => ∃ p c₀ c, q = p.next ∧ Located z dic p c₀ c ∧ Through z p c ∧ Still s ∧
      s.thread.m_current_stream_context = some (p.call.handOver z p.chunk c).1 ∧
      s.streamHalf = odd (p.chunk + 1) ∧ InStream s p.call (p.chunk + 1) ∧
      (Over (p.call.handOver z p.chunk c).1 → s.thread.m_decompress_finish_event = true)
  | .waitFinal q => ∃ p c₀ c, q = p.next ∧ Located z dic p c₀ c ∧ Through z p c ∧
      0 < (p.call.handOver z p.chunk c).1.expected_left ∧
      Working z p.call (p.chunk + 1) (p.call.handOver z p.chunk c).1 s

structure Inv (s : System D Dict) : Prop where
  standing : Standing z dic s s.reader
  results : ∀ r ∈ s.results, r.1.Loads z dic r.2 ∧ r.1.Ends z dic ∧ ¬r.1.Exact z

def Allowed (s : System D Dict) (f : LoadCall) : Prop :=
  ¬f.Exact z ∧ f.Ends z dic ∧ (f.Streamed z dic → s.thread.m_stream_count &&& 1 = 0)

variable {z dic}

theorem streaming_length {f : LoadCall} {context : FileLoadContext} {c : ZstdStreamContext D Dict}
    (h : prepare z dic f = .streaming context c) : (f.reads 0).bytes.length = cReadSize := by
  have hle := (f.reads 0).bytes_le
  rw [prepare] at h
  dsimp only at h
  split at h
  · cases h
  split at h
  · cases h
  split at h
  · cases h
  split at h
  · cases h
  split at h
  · split at h
    · cases h
    · split at h <;> cases h
  · omega

section Steps

variable {s s' : System D Dict} {f : LoadCall} {k : ℕ} {c : ZstdStreamContext D Dict}

theorem Working.done_of_event (h : Working z f k c s)
    (hevent : s.thread.m_stream_finish_event = true) :
    Still s ∧ s.thread.m_current_stream_context = some (f.handOver z k c).1 ∧
      s.streamHalf = odd (k + 1) ∧
      s.thread.m_is_error = decide ((f.handOver z k c).2 = cInvalidStreamState) ∧
      (Over (f.handOver z k c).1 → s.thread.m_decompress_finish_event = true) := by
  cases h with
  | done hstill hcontext _ hhalf herror hover => exact ⟨hstill, hcontext, hhalf, herror, hover⟩
  | sent _ _ _ hcleared => rw [hcleared] at hevent; cases hevent
  | received _ _ _ hcleared => rw [hcleared] at hevent; cases hevent
  | decompressed _ _ _ hcleared => rw [hcleared] at hevent; cases hevent
  | updated _ _ _ hcleared => rw [hcleared] at hevent; cases hevent
  | signalled _ _ _ hcleared => rw [hcleared] at hevent; cases hevent

theorem Working.read (h : Working z f k c s) {bytes : List Byte} (hbytes : bytes.length ≤ cReadSize)
    (reader : Reader D Dict) :
    Working z f k c
      { s with stream := copy s.stream (halfAddress !odd k) bytes, reader := reader } := by
  have hkept (hstream : InStream s f k) :
      InStream { s with stream := copy s.stream (halfAddress !odd k) bytes, reader := reader } f k := by
    rw [InStream, bytesAt_otherHalf _ _ hbytes (f.reads k).bytes_le]
    exact hstream
  cases h with
  | sent hpc hqueue hcontext hevent hhalf hstream =>
    exact .sent hpc hqueue hcontext hevent hhalf (hkept hstream)
  | received hpc hqueue hcontext hevent hhalf hstream =>
    exact .received hpc hqueue hcontext hevent hhalf (hkept hstream)
  | decompressed hpc hqueue hcontext hevent hhalf =>
    exact .decompressed hpc hqueue hcontext hevent hhalf
  | updated hpc hqueue hcontext hevent hhalf herror =>
    exact .updated hpc hqueue hcontext hevent hhalf herror
  | signalled hpc hqueue hcontext hevent hhalf herror hover =>
    exact .signalled hpc hqueue hcontext hevent hhalf herror hover
  | done hstill hcontext hevent hhalf herror hover =>
    exact .done hstill hcontext hevent hhalf herror hover

theorem not_still {pc : Pc} (hpc : s.pc = pc) (hne : pc ≠ .idle) : ¬Still s :=
  fun hstill => hne (hpc.symm.trans hstill.1)

theorem Inv.thread (h : Inv z dic s) (hreader : s'.reader = s.reader)
    (hresults : s'.results = s.results) (hstream : s'.stream = s.stream) (hbusy : ¬Still s)
    (hworking : ∀ f k c, Working z f k c s → Working z f k c s') : Inv z dic s' := by
  have hin {f : LoadCall} {k : ℕ} (hs : InStream s f k) : InStream s' f k := by
    rw [InStream, hstream]
    exact hs
  obtain ⟨hstanding, hloads⟩ := h
  refine ⟨?_, by rwa [hresults]⟩
  rw [hreader]
  cases hcase : s.reader with
  | idle =>
    rw [hcase] at hstanding
    exact absurd hstanding.1 hbusy
  | waitFinish =>
    rw [hcase] at hstanding
    exact absurd hstanding.1 hbusy
  | send p =>
    rw [hcase] at hstanding
    obtain ⟨_, _, _, hstill, _⟩ := hstanding
    exact absurd hstill hbusy
  | read p =>
    rw [hcase] at hstanding
    obtain ⟨c₀, c, hlocated, hw⟩ := hstanding
    exact ⟨c₀, c, hlocated, hworking _ _ _ hw⟩
  | wait q =>
    rw [hcase] at hstanding
    obtain ⟨p, c₀, c, hq, hlocated, hw, hs⟩ := hstanding
    exact ⟨p, c₀, c, hq, hlocated, hworking _ _ _ hw, hin hs⟩
  | final q =>
    rw [hcase] at hstanding
    obtain ⟨_, _, _, _, _, _, hstill, _⟩ := hstanding
    exact absurd hstill hbusy
  | waitFinal q =>
    rw [hcase] at hstanding
    obtain ⟨p, c₀, c, hq, hlocated, hthrough, hleft, hw⟩ := hstanding
    exact ⟨p, c₀, c, hq, hlocated, hthrough, hleft, hworking _ _ _ hw⟩

theorem Inv.receive {m : Message} {rest : List Message} (h : Inv z dic s) (hpc : s.pc = .idle)
    (hqueue : s.thread.m_message_queue = m :: rest) :
    Inv z dic
      { s with thread := { s.thread with m_message_queue := rest }, pc := .decompress m } := by
  have hbusy : ¬Still s := by
    rintro ⟨_, hempty⟩
    rw [hqueue] at hempty
    cases hempty
  refine h.thread rfl rfl rfl hbusy ?_
  intro f k c hw
  cases hw with
  | sent _ hsent hcontext hevent hhalf hstream =>
    rw [hqueue] at hsent
    cases hsent
    exact .received rfl rfl hcontext hevent hhalf hstream
  | received hpc' => rw [hpc] at hpc'; cases hpc'
  | decompressed hpc' => rw [hpc] at hpc'; cases hpc'
  | updated hpc' => rw [hpc] at hpc'; cases hpc'
  | signalled hpc' => rw [hpc] at hpc'; cases hpc'
  | done hstill => exact absurd hstill hbusy

theorem Inv.decompress {m : Message} {d : ZstdStreamContext D Dict} (h : Inv z dic s)
    (hpc : s.pc = .decompress m) (hcontext : s.thread.m_current_stream_context = some d) :
    Inv z dic (s.doDecompress z m d) := by
  have hbusy : ¬Still s := not_still hpc (by nofun)
  refine h.thread rfl rfl rfl hbusy ?_
  intro f k c hw
  cases hw with
  | sent hpc' => rw [hpc] at hpc'; cases hpc'
  | received hpc' hqueue hcontext' hevent hhalf hstream =>
    rw [hpc] at hpc'
    cases hpc'
    rw [hcontext] at hcontext'
    cases hcontext'
    have hbytes : bytesAt s.stream (halfAddress s.streamHalf) (chunkMessage f k).size =
        (f.reads k).bytes := by
      rw [hhalf]
      exact hstream
    have hcall : streamDecompressZstd z.toLibrary
        (bytesAt s.stream (halfAddress s.streamHalf) (chunkMessage f k).size) d =
        f.handOver z k d := by
      rw [hbytes]
      rfl
    refine .decompressed ?_ hqueue ?_ hevent hhalf
    · show Pc.update _ = _
      rw [hcall]
    · show some _ = _
      rw [hcall]
  | decompressed hpc' => rw [hpc] at hpc'; cases hpc'
  | updated hpc' => rw [hpc] at hpc'; cases hpc'
  | signalled hpc' => rw [hpc] at hpc'; cases hpc'
  | done hstill => exact absurd hstill hbusy

theorem Inv.update {expected : BitVec 64} (h : Inv z dic s) (hpc : s.pc = .update expected) :
    Inv z dic
      { s with
        thread :=
          { s.thread with
            m_stream_count := s.thread.m_stream_count + 1
            m_is_error := decide (expected = cInvalidStreamState) }
        pc := .signal } := by
  have hbusy : ¬Still s := not_still hpc (by nofun)
  refine h.thread rfl rfl rfl hbusy ?_
  intro f k c hw
  cases hw with
  | sent hpc' => rw [hpc] at hpc'; cases hpc'
  | received hpc' => rw [hpc] at hpc'; cases hpc'
  | decompressed hpc' hqueue hcontext hevent hhalf =>
    rw [hpc] at hpc'
    cases hpc'
    refine .updated rfl hqueue hcontext hevent ?_ rfl
    have hhalf' : decide (s.thread.m_stream_count &&& 1 ≠ 0) = odd k := hhalf
    show decide ((s.thread.m_stream_count + 1) &&& 1 ≠ 0) = odd (k + 1)
    rw [bit_succ, hhalf', odd_succ]
  | updated hpc' => rw [hpc] at hpc'; cases hpc'
  | signalled hpc' => rw [hpc] at hpc'; cases hpc'
  | done hstill => exact absurd hstill hbusy

theorem Inv.signal {d : ZstdStreamContext D Dict} (h : Inv z dic s) (hpc : s.pc = .signal)
    (hcontext : s.thread.m_current_stream_context = some d) : Inv z dic (s.signal d) := by
  have hbusy : ¬Still s := not_still hpc (by nofun)
  refine h.thread rfl rfl rfl hbusy ?_
  intro f k c hw
  cases hw with
  | sent hpc' => rw [hpc] at hpc'; cases hpc'
  | received hpc' => rw [hpc] at hpc'; cases hpc'
  | decompressed hpc' => rw [hpc] at hpc'; cases hpc'
  | updated _ hqueue hcontext' hevent hhalf herror =>
    rw [hcontext] at hcontext'
    cases hcontext'
    by_cases hover : Over (f.handOver z k c).1
    · have hsignal : s.signal (f.handOver z k c).1 =
          { s with
            thread := { s.thread with m_decompress_finish_event := true }
            pc := .signalStream } := by
        rw [System.signal]
        exact congrArg (fun t => { s with thread := t, pc := .signalStream }) (if_pos hover)
      rw [hsignal]
      exact .signalled rfl hqueue hcontext hevent hhalf herror (fun _ => rfl)
    · have hsignal : s.signal (f.handOver z k c).1 = { s with pc := .signalStream } := by
        rw [System.signal]
        exact congrArg (fun t => { s with thread := t, pc := .signalStream }) (if_neg hover)
      rw [hsignal]
      exact .signalled rfl hqueue hcontext hevent hhalf herror (fun h => absurd h hover)
  | signalled hpc' => rw [hpc] at hpc'; cases hpc'
  | done hstill => exact absurd hstill hbusy

theorem Inv.signalStream (h : Inv z dic s) (hpc : s.pc = .signalStream) :
    Inv z dic
      { s with thread := { s.thread with m_stream_finish_event := true }, pc := .idle } := by
  have hbusy : ¬Still s := not_still hpc (by nofun)
  refine h.thread rfl rfl rfl hbusy ?_
  intro f k c hw
  cases hw with
  | sent hpc' => rw [hpc] at hpc'; cases hpc'
  | received hpc' => rw [hpc] at hpc'; cases hpc'
  | decompressed hpc' => rw [hpc] at hpc'; cases hpc'
  | updated hpc' => rw [hpc] at hpc'; cases hpc'
  | signalled _ hqueue hcontext hevent hhalf herror hover =>
    exact .done ⟨rfl, hqueue⟩ hcontext rfl hhalf herror hover
  | done hstill => exact absurd hstill hbusy

theorem Inv.leave {p : Position} {c₀ d e : ZstdStreamContext D Dict} {result : Result}
    (h : Inv z dic s) (hlocated : Located z dic p c₀ d)
    (hturn : p.call.turn z p.chunk d = .exit result e) (hstill : Still s)
    (hover : Over e → s.thread.m_decompress_finish_event = true) {q : Position}
    (hq : q.call = p.call) (hcontext : q.file_load_context = p.file_load_context) :
    Inv z dic (s.leave q result e) := by
  have hleaves : p.call.Leaves z c₀ result e := ⟨_, d, hlocated.head, hturn⟩
  have hends := hlocated.ends _ _ hlocated.prepare _ _ hleaves
  have hloads : p.call.Loads z dic (streamed p.call p.file_load_context result e) := by
    simp only [LoadCall.Loads, hlocated.refused, hlocated.prepare]
    exact ⟨result, e, hleaves, rfl⟩
  refine ⟨⟨hstill, hover hends⟩, ?_⟩
  intro r hr
  rcases List.mem_append.mp hr with hold | hnew
  · exact h.results r hold
  · rw [List.mem_singleton.mp hnew, hq, hcontext]
    exact ⟨hloads, hlocated.ends, hlocated.exact⟩

theorem Located.next {p : Position} {c₀ c d : ZstdStreamContext D Dict}
    (h : Located z dic p c₀ c) (hturn : p.call.turn z p.chunk c = .again d) :
    Located z dic p.next c₀ d where
  refused := h.refused
  prepare := h.prepare
  ends := h.ends
  exact := h.exact
  temp_select := by
    show (!p.temp_select) = !odd (p.chunk + 1)
    rw [h.temp_select, odd_succ]
  size_read := rfl
  file_offset := by
    show p.file_offset + _ = p.call.offset (p.chunk + 1)
    rw [h.file_offset]
    rfl
  head := LoadCall.head_succ h.head hturn

theorem Located.message {p : Position} {c₀ c : ZstdStreamContext D Dict}
    (h : Located z dic p c₀ c) : p.message = chunkMessage p.call p.chunk := by
  rw [Position.message, h.temp_select, Bool.not_not, h.size_read]
  rfl

theorem Located.message_next {p : Position} {c₀ c : ZstdStreamContext D Dict}
    (h : Located z dic p c₀ c) : p.next.message = chunkMessage p.call (p.chunk + 1) := by
  have htemp : p.next.temp_select = !p.temp_select := rfl
  rw [Position.message, htemp, Bool.not_not, h.temp_select, ← odd_succ]
  rfl

theorem working_sent (hstill : Still s) (hcontext : s.thread.m_current_stream_context = some c)
    (hhalf : s.streamHalf = odd k) (hstream : InStream s f k) (reader : Reader D Dict) :
    Working z f k c { s.sendMessage (chunkMessage f k) with reader := reader } := by
  refine .sent hstill.1 ?_ hcontext rfl hhalf hstream
  show s.thread.m_message_queue ++ _ = _
  rw [hstill.2, List.nil_append]

theorem Inv.begin (h : Inv z dic s) (hallowed : Allowed z dic s f) (hstep : Step z dic s (some f) s') :
    Inv z dic s' := by
  obtain ⟨hexact, hends, hcount⟩ := hallowed
  obtain ⟨hstanding, hresults⟩ := h
  have hadd {o : Outcome} (ho : f.Loads z dic o) :
      ∀ r ∈ s.results ++ [(f, o)], r.1.Loads z dic r.2 ∧ r.1.Ends z dic ∧ ¬r.1.Exact z := by
    intro r hr
    rcases List.mem_append.mp hr with hold | hnew
    · exact hresults r hold
    · rw [List.mem_singleton.mp hnew]
      exact ⟨ho, hends, hexact⟩
  cases hstep with
  | refused hreader hrefused =>
    rw [hreader] at hstanding
    refine ⟨?_, hadd ?_⟩
    · show Standing z dic _ s.reader
      rw [hreader]
      exact hstanding
    · simp only [LoadCall.Loads, hrefused]
  | returned hreader hrefused hprepare =>
    rw [hreader] at hstanding
    refine ⟨?_, hadd ?_⟩
    · show Standing z dic _ s.reader
      rw [hreader]
      exact hstanding
    · simp only [LoadCall.Loads, hrefused, hprepare]
  | @streaming _ context c hreader hrefused hprepare =>
    rw [hreader] at hstanding
    refine ⟨⟨hstanding.1, hstanding.2, ?_, ?_, hrefused, hprepare, hends, hexact⟩, hresults⟩
    · have heven := hcount ⟨hrefused, context, c, hprepare⟩
      show decide (s.thread.m_stream_count &&& 1 ≠ 0) = odd 0
      rw [heven]
      rfl
    · exact bytesAt_copy s.stream 0 (f.reads 0).bytes

theorem Inv.waitFinish {context : FileLoadContext} (h : Inv z dic s)
    (hreader : s.reader = .waitFinish f context c) :
    Inv z dic
      { s with
        thread :=
          { s.thread with
            m_decompress_finish_event := false
            m_current_stream_context := some c }
        reader := .send ⟨f, context, 0, (f.reads 0).bytes.length, true, cReadSize⟩ } := by
  obtain ⟨hstanding, hresults⟩ := h
  rw [hreader] at hstanding
  obtain ⟨hstill, _, hhalf, hstream, hrefused, hprepare, hends, hexact⟩ := hstanding
  refine ⟨⟨c, c, ?_, hstill, rfl, hhalf, hstream⟩, hresults⟩
  exact ⟨hrefused, hprepare, hends, hexact, rfl, (streaming_length hprepare).symm, rfl, rfl⟩

theorem Inv.send {p : Position} (h : Inv z dic s) (hreader : s.reader = .send p) :
    Inv z dic { s.sendMessage p.message with reader := .read p } := by
  obtain ⟨hstanding, hresults⟩ := h
  rw [hreader] at hstanding
  obtain ⟨c₀, c, hlocated, hstill, hcontext, hhalf, hstream⟩ := hstanding
  refine ⟨⟨c₀, c, hlocated, ?_⟩, hresults⟩
  rw [hlocated.message]
  exact working_sent hstill hcontext hhalf hstream _

theorem Inv.read {p : Position} (h : Inv z dic s) (hreader : s.reader = .read p) :
    Inv z dic
      { s with
        stream := copy s.stream (halfAddress p.temp_select) p.next.last.bytes
        reader := .wait p.next } := by
  obtain ⟨hstanding, hresults⟩ := h
  rw [hreader] at hstanding
  obtain ⟨c₀, c, hlocated, hw⟩ := hstanding
  refine ⟨⟨p, c₀, c, rfl, hlocated, ?_, ?_⟩, hresults⟩
  · rw [hlocated.temp_select]
    exact hw.read p.next.last.bytes_le _
  · rw [InStream, odd_succ, ← hlocated.temp_select]
    exact bytesAt_copy _ _ _

theorem Inv.wait {q : Position} {e : ZstdStreamContext D Dict} (h : Inv z dic s)
    (hreader : s.reader = .wait q) (hevent : s.thread.m_stream_finish_event = true)
    (hcontext : s.thread.m_current_stream_context = some e) : Inv z dic (s.behindWait q e) := by
  have hinv := h
  obtain ⟨hstanding, hresults⟩ := h
  rw [hreader] at hstanding
  obtain ⟨p, c₀, c, rfl, hlocated, hw, hstream⟩ := hstanding
  obtain ⟨hstill, hcontext', hhalf, herror, hover⟩ := hw.done_of_event hevent
  obtain rfl : e = (p.call.handOver z p.chunk c).1 :=
    Option.some.inj (hcontext.symm.trans hcontext')
  have hlast : p.next.last = p.call.reads (p.chunk + 1) := rfl
  have hturn : p.call.turn z p.chunk c = _ := LoadCall.turn.eq_1 _ _ _ _
  have hoffset : p.next.file_offset = p.call.offset (p.chunk + 1) := by
    show p.file_offset + _ = _
    rw [hlocated.file_offset]
    rfl
  rw [System.behindWait, herror, hoffset, hlast]
  by_cases hresult : (p.call.reads (p.chunk + 1)).result ≠ .Success
  · rw [if_pos hresult] at hturn ⊢
    exact hinv.leave hlocated hturn hstill hover rfl rfl
  rw [if_neg hresult] at hturn ⊢
  by_cases hwrong : (p.call.handOver z p.chunk c).2 = cInvalidStreamState
  · rw [if_pos hwrong] at hturn
    rw [if_pos (decide_eq_true hwrong)]
    exact hinv.leave hlocated hturn hstill hover rfl rfl
  rw [if_neg hwrong] at hturn
  rw [if_neg (by rw [decide_eq_true_iff]; exact hwrong)]
  by_cases hmore : p.call.offset (p.chunk + 1) < p.call.file_size
  · rw [if_pos hmore] at hturn
    rw [if_pos (by exact hmore)]
    exact ⟨⟨c₀, _, hlocated.next hturn, hstill, hcontext', hhalf, hstream⟩, hresults⟩
  · rw [if_neg (by exact hmore)]
    refine ⟨⟨p, c₀, c, rfl, hlocated, ⟨?_, hwrong, hmore⟩, hstill, hcontext', hhalf, hstream, hover⟩,
      hresults⟩
    exact not_not.mp hresult

theorem Through.turn {p : Position} (h : Through z p c) :
    p.call.turn z p.chunk c = p.call.lastTurn z (p.chunk + 1) (p.call.handOver z p.chunk c).1 := by
  have hresult : ¬(p.call.reads (p.chunk + 1)).result ≠ .Success := not_not.mpr h.result
  rw [LoadCall.turn, if_neg hresult, if_neg h.error, if_neg h.offset]

theorem Inv.final {q : Position} {e : ZstdStreamContext D Dict} (h : Inv z dic s)
    (hreader : s.reader = .final q) (hcontext : s.thread.m_current_stream_context = some e) :
    Inv z dic (s.behindLoop q e) := by
  have hinv := h
  obtain ⟨hstanding, hresults⟩ := h
  rw [hreader] at hstanding
  obtain ⟨p, c₀, c, rfl, hlocated, hthrough, hstill, hcontext', hhalf, hstream, hover⟩ := hstanding
  obtain rfl : e = (p.call.handOver z p.chunk c).1 :=
    Option.some.inj (hcontext.symm.trans hcontext')
  have hturn := hthrough.turn
  rw [System.behindLoop]
  rw [LoadCall.lastTurn] at hturn
  by_cases hleft : 0 < (p.call.handOver z p.chunk c).1.expected_left
  · rw [if_pos hleft, hlocated.message_next]
    exact ⟨⟨p, c₀, c, rfl, hlocated, hthrough, hleft, working_sent hstill hcontext' hhalf hstream _⟩,
      hresults⟩
  · rw [if_neg hleft] at hturn ⊢
    exact hinv.leave hlocated hturn hstill hover rfl rfl

theorem Inv.waitFinal {q : Position} {e : ZstdStreamContext D Dict} (h : Inv z dic s)
    (hreader : s.reader = .waitFinal q) (hevent : s.thread.m_stream_finish_event = true)
    (hcontext : s.thread.m_current_stream_context = some e) :
    Inv z dic
      (s.leave q
        (if e.expected_left = cInvalidStreamState then .StreamDecompressionError else .Success) e) := by
  have hinv := h
  obtain ⟨hstanding, _⟩ := h
  rw [hreader] at hstanding
  obtain ⟨p, c₀, c, rfl, hlocated, hthrough, hleft, hw⟩ := hstanding
  obtain ⟨hstill, hcontext', _, _, hover⟩ := hw.done_of_event hevent
  obtain rfl := Option.some.inj (hcontext.symm.trans hcontext')
  have hturn := hthrough.turn
  rw [LoadCall.lastTurn, if_pos hleft] at hturn
  exact hinv.leave hlocated hturn hstill hover rfl rfl

theorem Inv.step (h : Inv z dic s) (hstep : Step z dic s none s') : Inv z dic s' := by
  cases hstep with
  | waitFinish hreader => exact h.waitFinish hreader
  | send hreader => exact h.send hreader
  | read hreader => exact h.read hreader
  | wait hreader hevent hcontext => exact h.wait hreader hevent hcontext
  | final hreader hcontext => exact h.final hreader hcontext
  | waitFinal hreader hevent hcontext => exact h.waitFinal hreader hevent hcontext
  | receive hpc hqueue => exact h.receive hpc hqueue
  | decompress hpc hcontext => exact h.decompress hpc hcontext
  | update hpc => exact h.update hpc
  | signal hpc hcontext => exact h.signal hpc hcontext
  | signalStream hpc => exact h.signalStream hpc

end Steps

theorem initial_inv (m_stream_count : BitVec 32) (m_is_error : Bool) (stream : Bytes) :
    Inv z dic (System.initial m_stream_count m_is_error stream) :=
  ⟨⟨⟨rfl, rfl⟩, rfl⟩, fun _ hr => by cases hr⟩

theorem Run.inv {s t : System D Dict} {calls : List LoadCall} (h : Run z dic (Allowed z dic) s calls t)
    (hs : Inv z dic s) : Inv z dic t := by
  induction h with
  | start => exact hs
  | begin _ hallowed hstep ih => exact ih.begin hallowed hstep
  | step _ hstep ih => exact ih.step hstep

section Returns

variable {P : System D Dict → LoadCall → Prop} {a s : System D Dict} {calls : List LoadCall}
  {c : ZstdStreamContext D Dict}

theorem message_runs {m : Message} (h : Run z dic P a calls s) (hpc : s.pc = .idle)
    (hqueue : s.thread.m_message_queue = [m])
    (hcontext : s.thread.m_current_stream_context = some c) :
    ∃ t e, Run z dic P a calls t ∧ t.thread.m_stream_finish_event = true ∧
      t.thread.m_current_stream_context = some e ∧ t.reader = s.reader := by
  have hreceive := h.step (Step.receive hpc hqueue)
  have hdecompress := hreceive.step (Step.decompress rfl hcontext)
  obtain ⟨t, expected, e, ht, htpc, he, htreader⟩ : ∃ t expected e, Run z dic P a calls t ∧
      t.pc = .update expected ∧ t.thread.m_current_stream_context = some e ∧ t.reader = s.reader :=
    ⟨_, _, _, hdecompress, rfl, rfl, rfl⟩
  have hsignal := (ht.step (Step.update htpc)).step (Step.signal rfl he)
  refine ⟨_, e, hsignal.step (Step.signalStream rfl), rfl, ?_, htreader⟩
  rw [System.signal]
  dsimp only
  split
  · exact he
  · exact he

theorem turn_runs {p : Position} (h : Run z dic P a calls s) (hreader : s.reader = .send p)
    (hstill : Still s) (hcontext : s.thread.m_current_stream_context = some c) :
    ∃ t e, Run z dic P a calls t ∧ t.thread.m_stream_finish_event = true ∧
      t.thread.m_current_stream_context = some e ∧ t.reader = .wait p.next := by
  have hsend := h.step (Step.send hreader)
  have hread := hsend.step (Step.read rfl)
  have hqueue : s.thread.m_message_queue ++ [p.message] = [p.message] := by
    rw [hstill.2, List.nil_append]
  exact message_runs hread hstill.1 hqueue hcontext

theorem final_runs {q : Position} (h : Run z dic (Allowed z dic) a calls s) (ha : Inv z dic a)
    (hreader : s.reader = .final q) :
    ∃ t o, Run z dic (Allowed z dic) a calls t ∧ (q.call, o) ∈ t.results := by
  have hinv := h.inv ha
  obtain ⟨hstanding, _⟩ := hinv
  rw [hreader] at hstanding
  obtain ⟨p, c₀, c, rfl, _, _, hstill, hcontext, _⟩ := hstanding
  have hfinal := h.step (Step.final hreader hcontext)
  by_cases hleft : 0 < (p.call.handOver z p.chunk c).1.expected_left
  · rw [System.behindLoop, if_pos hleft] at hfinal
    have hqueue : s.thread.m_message_queue ++ [p.next.message] = [p.next.message] := by
      rw [hstill.2, List.nil_append]
    obtain ⟨t, e, ht, hevent, he, htreader⟩ := message_runs hfinal hstill.1 hqueue hcontext
    exact ⟨_, _, ht.step (Step.waitFinal htreader hevent he),
      List.mem_append_right _ (List.mem_singleton_self _)⟩
  · rw [System.behindLoop, if_neg hleft] at hfinal
    exact ⟨_, _, hfinal, List.mem_append_right _ (List.mem_singleton_self _)⟩

theorem lastTurn_exits (f : LoadCall) (k : ℕ) (c : ZstdStreamContext D Dict) :
    ∃ result e, f.lastTurn z k c = .exit result e := by
  rw [LoadCall.lastTurn]
  split
  · exact ⟨_, _, rfl⟩
  · exact ⟨_, _, rfl⟩

theorem wait_cases {q : Position} {e : ZstdStreamContext D Dict} (h : Inv z dic s)
    (hreader : s.reader = .wait q) (hevent : s.thread.m_stream_finish_event = true)
    (hcontext : s.thread.m_current_stream_context = some e) :
    ∃ p c₀ d, q = p.next ∧ Located z dic p c₀ d ∧
      ((∃ d', p.call.turn z p.chunk d = .again d' ∧
          s.behindWait q e = { s with reader := .send q }) ∨
        ∃ result d', p.call.turn z p.chunk d = .exit result d' ∧
          (s.behindWait q e = { s with reader := .final q } ∨
            ∃ result, s.behindWait q e = s.leave q result e)) := by
  obtain ⟨hstanding, _⟩ := h
  rw [hreader] at hstanding
  obtain ⟨p, c₀, c, rfl, hlocated, hw, _⟩ := hstanding
  obtain ⟨_, hcontext', _, herror, _⟩ := hw.done_of_event hevent
  obtain rfl : e = (p.call.handOver z p.chunk c).1 :=
    Option.some.inj (hcontext.symm.trans hcontext')
  have hlast : p.next.last = p.call.reads (p.chunk + 1) := rfl
  have hoffset : p.next.file_offset = p.call.offset (p.chunk + 1) :=
    congrArg (· + (p.call.reads (p.chunk + 1)).bytes.length) hlocated.file_offset
  refine ⟨p, c₀, c, rfl, hlocated, ?_⟩
  have hcall : p.next.call = p.call := rfl
  rw [System.behindWait, herror, hoffset, hlast, hcall, LoadCall.turn]
  by_cases hresult : (p.call.reads (p.chunk + 1)).result ≠ .Success
  · rw [if_pos hresult, if_pos hresult]
    exact Or.inr ⟨_, _, rfl, Or.inr ⟨_, rfl⟩⟩
  rw [if_neg hresult, if_neg hresult]
  by_cases hwrong : (p.call.handOver z p.chunk c).2 = cInvalidStreamState
  · rw [if_pos hwrong, if_pos (decide_eq_true hwrong)]
    exact Or.inr ⟨_, _, rfl, Or.inr ⟨_, rfl⟩⟩
  have hright : ¬decide ((p.call.handOver z p.chunk c).2 = cInvalidStreamState) = true := by
    rw [decide_eq_true_iff]
    exact hwrong
  rw [if_neg hwrong, if_neg hright]
  by_cases hmore : p.call.offset (p.chunk + 1) < p.call.file_size
  · rw [if_pos hmore, if_pos hmore]
    exact Or.inl ⟨_, rfl, rfl⟩
  · obtain ⟨result, d', hexit⟩ := lastTurn_exits (z := z) p.call (p.chunk + 1)
      (p.call.handOver z p.chunk c).1
    rw [if_neg hmore, if_neg hmore]
    exact Or.inr ⟨result, d', hexit, Or.inl rfl⟩

theorem turn_cases {p : Position} {c₀ : ZstdStreamContext D Dict}
    (h : Run z dic (Allowed z dic) a calls s) (ha : Inv z dic a) (hreader : s.reader = .send p)
    (hprepare : prepare z dic p.call = .streaming p.file_load_context c₀) :
    ∃ t d, Run z dic (Allowed z dic) a calls t ∧ p.call.head z c₀ p.chunk = some d ∧
      ((∃ d', p.call.turn z p.chunk d = .again d' ∧ t.reader = .send p.next) ∨
        ∃ result d', p.call.turn z p.chunk d = .exit result d' ∧
          (t.reader = .final p.next ∨ ∃ o, (p.call, o) ∈ t.results)) := by
  have hstanding := (h.inv ha).standing
  rw [hreader] at hstanding
  obtain ⟨_, _, _, hstill, hcontext, _⟩ := hstanding
  obtain ⟨t, e, ht, hevent, he, htreader⟩ := turn_runs h hreader hstill hcontext
  obtain ⟨p', c₁, d, hq, hlocated, hcases⟩ := wait_cases (ht.inv ha) htreader hevent he
  have hwait := ht.step (Step.wait htreader hevent he)
  have hcall : p'.call = p.call := (congrArg Position.call hq).symm
  have hchunk : p'.chunk = p.chunk := (Nat.succ.inj (congrArg Position.chunk hq)).symm
  have hstart : c₁ = c₀ := by
    have hsame := hlocated.prepare
    rw [hcall, hprepare] at hsame
    exact (Prepared.streaming.inj hsame).2.symm
  have hhead := hlocated.head
  rw [hcall, hchunk, hstart] at hhead
  rw [hcall, hchunk] at hcases
  refine ⟨_, d, hwait, hhead, ?_⟩
  rcases hcases with ⟨d', hagain, hsend⟩ | ⟨result, d', hexit, hfinal | ⟨result', hleave⟩⟩
  · rw [hsend]
    exact Or.inl ⟨d', hagain, rfl⟩
  · rw [hfinal]
    exact Or.inr ⟨result, d', hexit, Or.inl rfl⟩
  · rw [hleave]
    exact Or.inr ⟨result, d', hexit, Or.inr ⟨_, List.mem_append_right _ (List.mem_singleton_self _)⟩⟩

theorem send_runs {p : Position} {c₀ d e : ZstdStreamContext D Dict} {result : Result} {n : ℕ}
    (h : Run z dic (Allowed z dic) a calls s) (ha : Inv z dic a) (hreader : s.reader = .send p)
    (hprepare : prepare z dic p.call = .streaming p.file_load_context c₀)
    (hd : p.call.head z c₀ (p.chunk + n) = some d)
    (hturn : p.call.turn z (p.chunk + n) d = .exit result e) :
    ∃ t o, Run z dic (Allowed z dic) a calls t ∧ (p.call, o) ∈ t.results := by
  induction n generalizing s p with
  | zero =>
    obtain ⟨t, d', ht, hhead, hcases⟩ := turn_cases h ha hreader hprepare
    rw [Nat.add_zero] at hd hturn
    rw [hhead] at hd
    cases hd
    rcases hcases with ⟨_, hagain, _⟩ | ⟨_, _, _, hfinal | ⟨o, ho⟩⟩
    · rw [hagain] at hturn
      cases hturn
    · obtain ⟨u, o, hu, ho⟩ := final_runs ht ha hfinal
      exact ⟨u, o, hu, ho⟩
    · exact ⟨t, o, ht, ho⟩
  | succ n ih =>
    obtain ⟨t, d', ht, hhead, hcases⟩ := turn_cases h ha hreader hprepare
    obtain ⟨b, b', hb, hagain⟩ := LoadCall.again_of_head hd
    rw [hhead] at hb
    cases hb
    rcases hcases with ⟨_, _, hsend⟩ | ⟨_, _, hexit, _⟩
    · have hindex : p.chunk + (n + 1) = p.next.chunk + n := by
        show p.chunk + (n + 1) = p.chunk + 1 + n
        omega
      rw [hindex] at hd hturn
      obtain ⟨u, o, hu, ho⟩ := ih ht hsend hprepare hd hturn
      exact ⟨u, o, hu, ho⟩
    · rw [hagain] at hexit
      cases hexit

theorem loads_runs {f : LoadCall} {o : Outcome} (ha : Inv z dic a) (hidle : a.reader = .idle)
    (hallowed : Allowed z dic a f) (ho : f.Loads z dic o) :
    ∃ t, Run z dic (Allowed z dic) a [f] t ∧ (f, o) ∈ t.results := by
  have hsome : ∃ t o, Run z dic (Allowed z dic) a [f] t ∧ (f, o) ∈ t.results := by
    cases hrefused : f.refused with
    | some result =>
      have hstep : Run z dic (Allowed z dic) a ([] ++ [f]) _ :=
        .begin (.start a) hallowed (.refused hidle hrefused)
      exact ⟨_, _, hstep, List.mem_append_right _ (List.mem_singleton_self _)⟩
    | none =>
      cases hprepare : prepare z dic f with
      | returned o' =>
        have hstep : Run z dic (Allowed z dic) a ([] ++ [f]) _ :=
          .begin (.start a) hallowed (.returned hidle hrefused hprepare)
        exact ⟨_, _, hstep, List.mem_append_right _ (List.mem_singleton_self _)⟩
      | streaming context c =>
        simp only [LoadCall.Loads, hrefused, hprepare] at ho
        obtain ⟨result, e, ⟨k, d, hd, hturn⟩, _⟩ := ho
        have hstanding := ha.standing
        rw [hidle] at hstanding
        have hstep : Run z dic (Allowed z dic) a ([] ++ [f]) _ :=
          .begin (.start a) hallowed (.streaming hidle hrefused hprepare)
        have hwait := hstep.step (Step.waitFinish rfl hstanding.2)
        rw [← Nat.zero_add k] at hd hturn
        exact send_runs hwait ha rfl hprepare hd hturn
  obtain ⟨t, o', ht, ho'⟩ := hsome
  have hsame : o' = o := ho.unique ((ht.inv ha).results _ ho').1
  rw [hsame] at ho'
  exact ⟨t, ht, ho'⟩

end Returns

theorem run_initial {P : System D Dict → LoadCall → Prop} {n : BitVec 32} {error : Bool}
    {stream : Bytes} {calls : List LoadCall} {t : System D Dict}
    (h : Run z dic P (System.initial n error stream) calls t) (hcalls : calls = []) :
    t = System.initial n error stream := by
  induction h with
  | start => rfl
  | begin => simp at hcalls
  | step _ hstep ih =>
    rw [ih hcalls] at hstep
    cases hstep with
    | waitFinish hreader => cases hreader
    | send hreader => cases hreader
    | read hreader => cases hreader
    | wait hreader => cases hreader
    | final hreader => cases hreader
    | waitFinal hreader => cases hreader
    | receive _ hqueue => cases hqueue
    | decompress hpc => cases hpc
    | update hpc => cases hpc
    | signal hpc => cases hpc
    | signalStream hpc => cases hpc

theorem run_single {f : LoadCall} {n : BitVec 32} {error : Bool} {stream : Bytes}
    {calls : List LoadCall} {t : System D Dict}
    (h : Run z dic (fun _ _ => True) (System.initial n error stream) calls t) (hcalls : calls = [f])
    (hallowed : Allowed z dic (System.initial n error stream) f) :
    Run z dic (Allowed z dic) (System.initial n error stream) calls t := by
  induction h with
  | start => cases hcalls
  | @begin t u calls g h _ hstep _ =>
    obtain ⟨hnone, hg⟩ := List.append_inj' (hcalls.trans (List.nil_append [f]).symm) rfl
    obtain rfl : t = System.initial n error stream := run_initial h hnone
    obtain rfl : g = f := List.singleton_inj.mp hg
    rw [hnone]
    exact .begin (.start _) hallowed hstep
  | step _ hstep ih => exact .step (ih hcalls) hstep

variable (z dic)

structure Kept (s : System D Dict) : Prop where
  half : ∀ m, s.pc = .decompress m →
    s.streamHalf = m.half ∧ bytesAt s.stream (halfAddress m.half) m.size = m.chunk
  accepted : ∀ r ∈ s.results, r.1.Exact z → r.2.result ≠ .OutputBufferTooSmall
  signaled : s.reader = .idle → s.thread.m_decompress_finish_event = true
  passes : ∀ f context c, s.reader = .waitFinish f context c →
    s.thread.m_decompress_finish_event = true
  fresh : ∀ r ∈ s.results, ∀ error stream,
    (∃ t, Run z dic (fun _ _ => True) (System.initial 0 error stream) [r.1] t ∧ r ∈ t.results) ∧
      ∀ t, Run z dic (fun _ _ => True) (System.initial 0 error stream) [r.1] t →
        ∀ o, (r.1, o) ∈ t.results → o = r.2

variable {z dic}

theorem Run.weaken {P : System D Dict → LoadCall → Prop} {s t : System D Dict}
    {calls : List LoadCall} (h : Run z dic P s calls t) : Run z dic (fun _ _ => True) s calls t := by
  induction h with
  | start => exact .start _
  | begin _ _ hstep ih => exact .begin ih trivial hstep
  | step _ hstep ih => exact .step ih hstep

theorem Inv.half {s : System D Dict} (h : Inv z dic s) {m : Message} (hpc : s.pc = .decompress m) :
    s.streamHalf = m.half ∧ bytesAt s.stream (halfAddress m.half) m.size = m.chunk := by
  have hbusy := not_still hpc (by nofun)
  have hworking {f : LoadCall} {k : ℕ} {c : ZstdStreamContext D Dict} (hw : Working z f k c s) :
      s.streamHalf = m.half ∧ bytesAt s.stream (halfAddress m.half) m.size = m.chunk := by
    cases hw with
    | sent hpc' => rw [hpc] at hpc'; cases hpc'
    | received hpc' _ _ _ hhalf hstream =>
      rw [hpc] at hpc'
      cases hpc'
      exact ⟨hhalf, hstream⟩
    | decompressed hpc' => rw [hpc] at hpc'; cases hpc'
    | updated hpc' => rw [hpc] at hpc'; cases hpc'
    | signalled hpc' => rw [hpc] at hpc'; cases hpc'
    | done hstill => exact absurd hstill hbusy
  have hstanding := h.standing
  cases hcase : s.reader with
  | idle =>
    rw [hcase] at hstanding
    exact absurd hstanding.1 hbusy
  | waitFinish =>
    rw [hcase] at hstanding
    exact absurd hstanding.1 hbusy
  | send p =>
    rw [hcase] at hstanding
    obtain ⟨_, _, _, hstill, _⟩ := hstanding
    exact absurd hstill hbusy
  | read p =>
    rw [hcase] at hstanding
    obtain ⟨_, _, _, hw⟩ := hstanding
    exact hworking hw
  | wait q =>
    rw [hcase] at hstanding
    obtain ⟨_, _, _, _, _, hw, _⟩ := hstanding
    exact hworking hw
  | final q =>
    rw [hcase] at hstanding
    obtain ⟨_, _, _, _, _, _, hstill, _⟩ := hstanding
    exact absurd hstill hbusy
  | waitFinal q =>
    rw [hcase] at hstanding
    obtain ⟨_, _, _, _, _, _, _, hw⟩ := hstanding
    exact hworking hw

end Run

def rawFrames : FrameLibrary RawStage Unit where
  toLibrary := rawLibrary
  initStaticDCtx := .getFrameHeaderSize
  getFrameHeader_advanced
    | 0x28 :: 0xB5 :: 0x2F :: 0xFD :: 0x20 :: size :: _ => some ⟨size.setWidth 64, 0⟩
    | _ => none
  decompress_usingDDict capacity src dictionary :=
    let c := (streamDecompressZstd rawLibrary src
      { state := .Begin
        output := fun _ => 0
        output_size := capacity
        output_used := 0
        leftover_stream := fun _ => 0
        leftover_size := cLeftoverSize
        leftover_used := 0
        zstd_dctx := .getFrameHeaderSize
        zstd_ddict := dictionary
        expected_left := 0
        fed := [] }).1
    if c.state = .Error then none else some (bytesAt c.output 0 c.output_used)

def rawCall (file_size : ℕ) : LoadCall where
  file_load_context := ⟨0, false, some fun _ => 0, file_size, 0⟩
  open_result := .Success
  size_result := .Success
  file_size := 13
  reads _ := ⟨.Success, [0x28, 0xB5, 0x2F, 0xFD, 0x20, 4, 33, 0, 0, 1, 2, 3, 4], by decide⟩
  memory := none

end Awn.ZstdDecompressor
