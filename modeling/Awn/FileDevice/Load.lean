import Awn.Memory.Buffer

/-!
`awn::res::FileDeviceBase::LoadFileImpl`, over a device that is given by what its functions come to.
-/

namespace Awn.FileDevice

open Memory

inductive Result
  | Success
  | InvalidFileBufferSize
  | InvalidReadDivAlignment
  | FailedToAllocateFileMemory
  | NullOutBuffer
  | NullFileHandle
  | NullPath
  | PathTooLong
  | InvalidOpenMode
  | InvalidFileHandle
  | InvalidFileOffset
  | InvalidSize
  | PathNotFound
  | FailedToOpenFile
  | NullDirectoryHandle
  | DirectoryNotFound
  | DirectoryExhausted
  | ExhaustedDirectoryDepth
  | FileNotFound
  | FileSharingViolation
  | FileLockViolation
  | OpenFileExhaustion
  | UnknownOSError
  | device (code : ℕ)
  deriving DecidableEq

def cMinimumFileAlignment : ℤ := 0x20

structure FileLoadContext where
  read_div : BitVec 32
  out_is_file_memory_allocated : Bool
  file_buffer : Option Bytes
  file_size : BitVec 64
  file_alignment : ℤ

structure ReadAnswer where
  result : Result
  size_read : BitVec 64

structure LoadDevice where
  open_result : Result
  size_result : Result
  file_size : BitVec 64
  file : Bytes
  reads : ℕ → ReadAnswer
  memory : Option Bytes

structure Transfer where
  file_offset : BitVec 64
  size : BitVec 64
  deriving DecidableEq

structure Streamed where
  result : Result
  buffer : Bytes
  transfers : List Transfer

structure LoadOutcome where
  result : Result
  file_load_context : FileLoadContext
  allocated : Bool
  deleted : Bool
  transfers : List Transfer

def Streamed.behind (s : Streamed) (transfer : Transfer) : Streamed :=
  { s with transfers := transfer :: s.transfers }

namespace LoadDevice

variable (d : LoadDevice)

def readInto (buffer : Bytes) (file_offset size_read : BitVec 64) : Bytes := fun j =>
  if file_offset.toNat ≤ j ∧ j < file_offset.toNat + size_read.toNat then d.file j else buffer j

/-- The loop, from the read of the number on. `none` is out of fuel. -/
def stream : ℕ → ℕ → BitVec 64 → Bytes → Option Streamed
  | 0, _, _, _ => none
  | fuel + 1, i, file_offset, buffer =>
    if file_offset < d.file_size then
      let answer := d.reads i
      let transfer := ⟨file_offset, answer.size_read⟩
      let buffer := d.readInto buffer file_offset answer.size_read
      let file_offset := file_offset + answer.size_read
      if answer.result ≠ .Success then some ⟨answer.result, buffer, [transfer]⟩
      else (stream fuel (i + 1) file_offset buffer).map (·.behind transfer)
    else some ⟨.Success, buffer, []⟩

def readAll (fuel : ℕ) (buffer : Bytes) : Option Streamed :=
  let answer := d.reads 0
  let transfer := ⟨0, answer.size_read⟩
  let buffer := d.readInto buffer 0 answer.size_read
  if answer.result ≠ .Success then some ⟨answer.result, buffer, [transfer]⟩
  else (d.stream fuel 1 answer.size_read buffer).map (·.behind transfer)

end LoadDevice

namespace FileLoadContext

variable (context : FileLoadContext)

def read_clamp (file_size : BitVec 64) : BitVec 32 :=
  if context.read_div = 0 then file_size.setWidth 32 else context.read_div

def output_alignment : ℤ :=
  if context.file_alignment < cMinimumFileAlignment then cMinimumFileAlignment
  else context.file_alignment

def refuse (result : Result) : LoadOutcome := ⟨result, context, false, false, []⟩

structure Prepared where
  file_load_context : FileLoadContext
  buffer : Bytes
  allocated : Bool

def withBuffer (d : LoadDevice) : Option Prepared :=
  match context.file_buffer with
  | some buffer => some ⟨context, buffer, false⟩
  | none => d.memory.map fun memory => ⟨{ context with
      file_buffer := some memory
      file_size := d.file_size
      file_alignment := context.output_alignment
      out_is_file_memory_allocated := true }, memory, true⟩

def Prepared.error (prepared : Prepared) (result : Result) (transfers : List Transfer) :
    LoadOutcome :=
  let context := prepared.file_load_context
  if context.out_is_file_memory_allocated = true then
    ⟨result, { context with file_buffer := none }, prepared.allocated, true, transfers⟩
  else ⟨result, context, prepared.allocated, false, transfers⟩

/-- The first read finds the context prepared, or there is none. -/
def prepare (d : LoadDevice) : Except LoadOutcome Prepared :=
  if context.file_buffer.isSome = true ∧ context.file_size = 0 then
    .error (context.refuse .InvalidFileBufferSize)
  else if context.read_div &&& 0x1f ≠ 0 then .error (context.refuse .InvalidReadDivAlignment)
  else if d.open_result ≠ .Success then .error (context.refuse d.open_result)
  else if d.size_result ≠ .Success then .error (context.refuse d.size_result)
  else
    match context.withBuffer d with
    | none => .error (context.refuse .FailedToAllocateFileMemory)
    | some prepared =>
      if d.file_size ≤ prepared.file_load_context.file_size then .ok prepared
      else .error (prepared.error .InvalidFileBufferSize [])

def Prepared.finish (prepared : Prepared) (streamed : Streamed) : LoadOutcome :=
  let context := { prepared.file_load_context with file_buffer := some streamed.buffer }
  if streamed.result ≠ .Success then
    { prepared with file_load_context := context }.error streamed.result streamed.transfers
  else ⟨.Success, context, prepared.allocated, false, streamed.transfers⟩

end FileLoadContext

def LoadFileImpl (d : LoadDevice) (context : FileLoadContext) (fuel : ℕ) : Option LoadOutcome :=
  match context.prepare d with
  | .error outcome => some outcome
  | .ok prepared => (d.readAll fuel prepared.buffer).map prepared.finish

def LoadDevice.Copies (d : LoadDevice) (read_clamp : BitVec 32) : Prop :=
  ∀ i, (d.reads i).size_read.toNat ≤ read_clamp.toNat ∧
    ((d.reads i).result = .Success → read_clamp ≠ 0 → (d.reads i).size_read ≠ 0)

structure LoadOutcome.Right (o : LoadOutcome) (d : LoadDevice) (context : FileLoadContext) :
    Prop where
  inside : ∀ t ∈ o.transfers, t.file_offset.toNat + t.size.toNat ≤ d.file_size.toNat
  loaded : o.result = .Success → ∃ buffer, o.file_load_context.file_buffer = some buffer ∧
    ∀ j < d.file_size.toNat, buffer j = d.file j
  freed : o.result ≠ .Success → context.file_buffer = none →
    o.file_load_context.file_buffer = none ∧ (o.allocated = true → o.deleted = true)
  kept : o.result ≠ .Success → context.file_buffer.isSome = true →
    context.out_is_file_memory_allocated = false →
      o.file_load_context.file_buffer.isSome = true ∧ o.deleted = false

def Loads (d : LoadDevice) (context : FileLoadContext) : Prop :=
  ∃ least outcome, (∀ fuel, least ≤ fuel → LoadFileImpl d context fuel = some outcome) ∧
    outcome.Right d context

namespace LoadDevice

variable (d : LoadDevice)

def total : ℕ → ℕ
  | 0 => 0
  | i + 1 => total i + (d.reads i).size_read.toNat

structure Fitting (read_clamp : BitVec 32) : Prop where
  ends : read_clamp ≠ 0 ∨ ∃ i, (d.reads i).result ≠ .Success
  left : ∀ i, (∀ j < i, (d.reads j).result = .Success) → d.total i < d.file_size.toNat →
    d.total (i + 1) ≤ d.file_size.toNat

variable {d} {read_clamp : BitVec 32}

theorem readAll_eq (hsize : d.file_size ≠ 0) (fuel : ℕ) (buffer : Bytes) :
    d.readAll fuel buffer = d.stream (fuel + 1) 0 0 buffer := by
  have hpos : (0 : BitVec 64) < d.file_size := by bv_omega
  rw [readAll, stream, if_pos hpos]
  have hzero : 0 + (d.reads 0).size_read = (d.reads 0).size_read := BitVec.zero_add _
  dsimp only
  rw [hzero]

theorem total_le {i k : ℕ} (h : i ≤ k) : d.total i ≤ d.total k := by
  induction k with
  | zero =>
    obtain rfl := Nat.le_zero.mp h
    exact Nat.le_refl _
  | succ k ih =>
    obtain rfl | hlt := Nat.eq_or_lt_of_le h
    · exact Nat.le_refl _
    · exact (ih (Nat.le_of_lt_succ hlt)).trans (Nat.le_add_right _ _)

structure At (d : LoadDevice) (i : ℕ) (file_offset : BitVec 64) (buffer : Bytes) : Prop where
  succeeded : ∀ j < i, (d.reads j).result = .Success
  offset : file_offset.toNat = d.total i
  copied : ∀ j < d.total i, buffer j = d.file j

theorem At.readInto {i : ℕ} {file_offset : BitVec 64} {buffer : Bytes}
    (h : d.At i file_offset buffer) :
    ∀ j < d.total (i + 1), d.readInto buffer file_offset (d.reads i).size_read j = d.file j := by
  intro j hj
  rw [total] at hj
  rw [LoadDevice.readInto]
  split_ifs with hin
  · rfl
  · have hoffset := h.offset
    exact h.copied j (by omega)

theorem At.next {i : ℕ} {file_offset : BitVec 64} {buffer : Bytes}
    (h : d.At i file_offset buffer) (hresult : (d.reads i).result = .Success)
    (hleft : d.total (i + 1) ≤ d.file_size.toNat) :
    d.At (i + 1) (file_offset + (d.reads i).size_read)
      (d.readInto buffer file_offset (d.reads i).size_read) where
  succeeded j hj := by
    obtain hlt | rfl := Nat.lt_or_eq_of_le (Nat.le_of_lt_succ hj)
    · exact h.succeeded j hlt
    · exact hresult
  offset := by
    have hlt := d.file_size.isLt
    have hoffset := h.offset
    rw [total] at hleft ⊢
    rw [BitVec.toNat_add, Nat.mod_eq_of_lt (by omega)]
    omega
  copied := h.readInto

theorem stream_spec (hfit : d.Fitting read_clamp) {last : ℕ}
    (hlast : (d.reads last).result ≠ .Success ∨ d.file_size.toNat ≤ d.total (last + 1)) {n i : ℕ}
    (hn : i + n = last + 1) {file_offset : BitVec 64} {buffer : Bytes}
    (h : d.At i file_offset buffer) (hle : d.total i ≤ d.file_size.toNat) :
    ∃ s, (∀ fuel, n < fuel → d.stream fuel i file_offset buffer = some s) ∧
      (∀ t ∈ s.transfers, t.file_offset.toNat + t.size.toNat ≤ d.file_size.toNat) ∧
      (s.result = .Success → ∀ j < d.file_size.toNat, s.buffer j = d.file j) := by
  have hoffset := h.offset
  induction n generalizing i file_offset buffer with
  | zero =>
    have hend : d.file_size.toNat ≤ d.total i := by
      obtain rfl : i = last + 1 := hn
      obtain hfails | hend := hlast
      · exact absurd (h.succeeded last (Nat.lt_succ_self last)) hfails
      · exact hend
    refine ⟨⟨.Success, buffer, []⟩, fun fuel hfuel => ?_, nofun, fun _ j hj => ?_⟩
    · obtain ⟨fuel, rfl⟩ := Nat.exists_eq_add_one_of_ne_zero (Nat.ne_of_gt hfuel)
      rw [stream, if_neg]
      rw [BitVec.lt_def]
      omega
    · exact h.copied j (by omega)
  | succ n ih =>
    by_cases hlt : file_offset < d.file_size
    · have hlt' := BitVec.lt_def.mp hlt
      have hleft := hfit.left i h.succeeded (by omega)
      have hinside : file_offset.toNat + (d.reads i).size_read.toNat ≤ d.file_size.toNat := by
        rw [hoffset]
        exact hleft
      by_cases hresult : (d.reads i).result = .Success
      · have hnext := h.next hresult hleft
        obtain ⟨s, hs, hall, hloaded⟩ := ih (by omega) hnext hleft hnext.offset
        refine ⟨s.behind ⟨file_offset, (d.reads i).size_read⟩, fun fuel hfuel => ?_, ?_, hloaded⟩
        · obtain ⟨fuel, rfl⟩ := Nat.exists_eq_add_one_of_ne_zero (Nat.ne_zero_of_lt hfuel)
          rw [stream, if_pos hlt]
          dsimp only
          rw [if_neg (not_not.mpr hresult), hs fuel (by omega), Option.map_some]
        · intro t ht
          obtain rfl | ht := List.mem_cons.mp ht
          · exact hinside
          · exact hall t ht
      · refine ⟨⟨(d.reads i).result, d.readInto buffer file_offset (d.reads i).size_read,
          [⟨file_offset, (d.reads i).size_read⟩]⟩, fun fuel hfuel => ?_, ?_,
          fun hsuccess => absurd hsuccess hresult⟩
        · obtain ⟨fuel, rfl⟩ := Nat.exists_eq_add_one_of_ne_zero (Nat.ne_zero_of_lt hfuel)
          rw [stream, if_pos hlt]
          exact if_pos hresult
        · intro t ht
          obtain rfl := List.mem_singleton.mp ht
          exact hinside
    · refine ⟨⟨.Success, buffer, []⟩, fun fuel hfuel => ?_, nofun, fun _ j hj => ?_⟩
      · obtain ⟨fuel, rfl⟩ := Nat.exists_eq_add_one_of_ne_zero (Nat.ne_zero_of_lt hfuel)
        rw [stream, if_neg hlt]
      · rw [BitVec.lt_def] at hlt
        exact h.copied j (by omega)

theorem transfer_mem {fuel i k : ℕ} {file_offset : BitVec 64} {buffer : Bytes} {s : Streamed}
    (hs : d.stream fuel k file_offset buffer = some s) (hk : k ≤ i)
    (hsucceeded : ∀ j < i, (d.reads j).result = .Success) (hlt : d.total i < d.file_size.toNat)
    (hoffset : file_offset.toNat = d.total k) :
    ∃ t ∈ s.transfers, t.file_offset.toNat = d.total i ∧ t.size = (d.reads i).size_read := by
  induction fuel generalizing k file_offset buffer s with
  | zero => cases hs
  | succ fuel ih =>
    have hle : d.total k ≤ d.total i := total_le hk
    rw [stream, if_pos (by rw [BitVec.lt_def]; omega)] at hs
    dsimp only at hs
    obtain rfl | hki := Nat.eq_or_lt_of_le hk
    · split_ifs at hs
      · obtain rfl := Option.some.inj hs
        exact ⟨_, List.mem_cons_self, hoffset, rfl⟩
      · obtain ⟨s', -, rfl⟩ := Option.map_eq_some_iff.mp hs
        exact ⟨_, List.mem_cons_self, hoffset, rfl⟩
    · rw [if_neg (not_not.mpr (hsucceeded k hki))] at hs
      obtain ⟨s', hs', rfl⟩ := Option.map_eq_some_iff.mp hs
      have hnext : d.total (k + 1) ≤ d.total i := total_le hki
      have hsize := d.file_size.isLt
      obtain ⟨t, ht, hfound⟩ := ih hs' hki (by
        rw [total] at hnext ⊢
        rw [BitVec.toNat_add, Nat.mod_eq_of_lt (by omega)]
        omega)
      exact ⟨t, List.mem_cons_of_mem _ ht, hfound⟩

theorem stream_loops (hsize : d.file_size ≠ 0)
    (hnothing : ∀ i, (d.reads i).result = .Success ∧ (d.reads i).size_read = 0) (fuel i : ℕ)
    (buffer : Bytes) : d.stream fuel i 0 buffer = none := by
  have hpos : (0 : BitVec 64) < d.file_size := by bv_omega
  induction fuel generalizing i buffer with
  | zero => rfl
  | succ fuel ih =>
    obtain ⟨hresult, hzero⟩ := hnothing i
    rw [stream, if_pos hpos]
    dsimp only
    rw [if_neg (not_not.mpr hresult), hzero, show (0 : BitVec 64) + 0 = 0 from rfl, ih,
      Option.map_none]

theorem exists_last (hcopies : d.Copies read_clamp) (hfit : d.Fitting read_clamp) :
    ∃ last, (d.reads last).result ≠ .Success ∨ d.file_size.toNat ≤ d.total (last + 1) := by
  obtain hclamp | ⟨i, hi⟩ := hfit.ends
  · by_contra hnone
    push Not at hnone
    have hgrows : ∀ n, n ≤ d.total n := by
      intro n
      induction n with
      | zero => exact Nat.le_refl 0
      | succ n ih =>
        have hmoves := (hcopies n).2 (hnone n).1 hclamp
        rw [total]
        bv_omega
    exact absurd (hgrows (d.file_size.toNat + 1)) (Nat.not_le.mpr
      ((hnone d.file_size.toNat).2.trans (Nat.lt_succ_self _)))
  · exact ⟨i, .inl hi⟩

end LoadDevice

namespace FileLoadContext

variable {d : LoadDevice} {context : FileLoadContext} {prepared : Prepared} {outcome : LoadOutcome}

theorem withBuffer_spec (h : context.withBuffer d = some prepared) :
    prepared.file_load_context.file_buffer.isSome = true ∧
      (context.file_buffer = none →
        prepared.file_load_context.out_is_file_memory_allocated = true) ∧
      (context.file_buffer.isSome = true → prepared.file_load_context = context ∧
        prepared.allocated = false) := by
  unfold withBuffer at h
  cases hbuffer : context.file_buffer with
  | some buffer =>
    rw [hbuffer] at h
    obtain rfl := Option.some.inj h
    exact ⟨by rw [hbuffer]; rfl, nofun, fun _ => ⟨rfl, rfl⟩⟩
  | none =>
    rw [hbuffer] at h
    obtain ⟨memory, -, rfl⟩ := Option.map_eq_some_iff.mp h
    exact ⟨rfl, fun _ => rfl, nofun⟩

theorem error_right (h : context.withBuffer d = some prepared) {prepared' : Prepared}
    (hflag : prepared'.file_load_context.out_is_file_memory_allocated =
      prepared.file_load_context.out_is_file_memory_allocated)
    (hbuffer : prepared'.file_load_context.file_buffer.isSome = true) {result : Result}
    {transfers : List Transfer} (hresult : result ≠ .Success)
    (hinside : ∀ t ∈ transfers, t.file_offset.toNat + t.size.toNat ≤ d.file_size.toNat) :
    (prepared'.error result transfers).Right d context := by
  obtain ⟨-, hnew, hold⟩ := withBuffer_spec h
  unfold Prepared.error
  dsimp only
  split_ifs with hset
  · refine ⟨hinside, fun hsuccess => absurd hsuccess hresult, fun _ _ => ⟨rfl, fun _ => rfl⟩, ?_⟩
    intro _ hgiven hunset
    rw [hflag, (hold hgiven).1, hunset] at hset
    cases hset
  · refine ⟨hinside, fun hsuccess => absurd hsuccess hresult, fun _ hnone => ?_,
      fun _ _ _ => ⟨hbuffer, rfl⟩⟩
    exact absurd (hflag.trans (hnew hnone)) hset

theorem refuse_right {result : Result} (hresult : result ≠ .Success) :
    (context.refuse result).Right d context :=
  ⟨nofun, fun hsuccess => absurd hsuccess hresult, fun _ hnone => ⟨hnone, nofun⟩,
    fun _ hgiven _ => ⟨hgiven, rfl⟩⟩

theorem prepare_error (h : context.prepare d = .error outcome) : outcome.Right d context := by
  unfold prepare at h
  split_ifs at h with hsize hdiv hopen hsize_result
  · obtain rfl := Except.error.inj h
    exact refuse_right nofun
  · obtain rfl := Except.error.inj h
    exact refuse_right nofun
  · obtain rfl := Except.error.inj h
    exact refuse_right hopen
  · obtain rfl := Except.error.inj h
    exact refuse_right hsize_result
  · cases hbuffer : context.withBuffer d with
    | none =>
      rw [hbuffer] at h
      obtain rfl := Except.error.inj h
      exact refuse_right nofun
    | some prepared =>
      rw [hbuffer] at h
      dsimp only at h
      split_ifs at h
      obtain rfl := Except.error.inj h
      exact error_right hbuffer rfl (withBuffer_spec hbuffer).1 nofun nofun

theorem prepare_ok (h : context.prepare d = .ok prepared) :
    context.withBuffer d = some prepared := by
  unfold prepare at h
  split_ifs at h
  cases hbuffer : context.withBuffer d with
  | none =>
    rw [hbuffer] at h
    cases h
  | some prepared' =>
    rw [hbuffer] at h
    dsimp only at h
    split_ifs at h
    rw [Except.ok.inj h]

theorem finish_transfers (prepared : Prepared) (s : Streamed) :
    (prepared.finish s).transfers = s.transfers := by
  unfold Prepared.finish Prepared.error
  dsimp only
  split_ifs <;> rfl

theorem finish_right (h : context.withBuffer d = some prepared) {s : Streamed}
    (hinside : ∀ t ∈ s.transfers, t.file_offset.toNat + t.size.toNat ≤ d.file_size.toNat)
    (hloaded : s.result = .Success → ∀ j < d.file_size.toNat, s.buffer j = d.file j) :
    (prepared.finish s).Right d context := by
  unfold Prepared.finish
  dsimp only
  split_ifs with hresult
  · apply error_right h _ _ hresult hinside
    · rfl
    · rfl
  · have hsuccess := not_not.mp hresult
    exact ⟨hinside, fun _ => ⟨s.buffer, rfl, hloaded hsuccess⟩, fun hne => absurd rfl hne,
      fun hne => absurd rfl hne⟩

end FileLoadContext

open LoadDevice in
/-- A load of a file that is not empty is right if it is refused before its first read, or if the
reads keep to what is left of the file. -/
theorem loadFileImpl_iff (d : LoadDevice) (context : FileLoadContext) (hsize : d.file_size ≠ 0)
    (hcopies : d.Copies (context.read_clamp d.file_size)) :
    Loads d context ↔
      (∃ outcome, context.prepare d = .error outcome) ∨
        d.Fitting (context.read_clamp d.file_size) := by
  unfold Loads LoadFileImpl
  cases hprepare : context.prepare d with
  | error outcome =>
    exact iff_of_true ⟨0, outcome, fun _ _ => rfl, FileLoadContext.prepare_error hprepare⟩
      (.inl ⟨outcome, rfl⟩)
  | ok prepared =>
    dsimp only
    simp only [readAll_eq hsize, reduceCtorEq, exists_false, false_or]
    constructor
    · rintro ⟨least, outcome, hends, hright⟩
      obtain ⟨s, hs, rfl⟩ := Option.map_eq_some_iff.mp (hends least (Nat.le_refl least))
      refine ⟨?_, fun i hsucceeded hlt => ?_⟩
      · by_contra hnone
        push Not at hnone
        obtain ⟨hclamp, hsucceed⟩ := hnone
        rw [stream_loops hsize fun i => ⟨hsucceed i, ?_⟩] at hs
        · cases hs
        · have hle := (hcopies i).1
          rw [hclamp] at hle
          exact BitVec.eq_of_toNat_eq (Nat.le_zero.mp hle)
      · obtain ⟨t, ht, hoffset, hread⟩ := transfer_mem hs (Nat.zero_le i) hsucceeded hlt rfl
        have hinside := hright.inside t (by rwa [FileLoadContext.finish_transfers])
        rw [hoffset, hread] at hinside
        exact hinside
    · intro hfit
      obtain ⟨last, hlast⟩ := exists_last hcopies hfit
      have hstart : d.At 0 0 prepared.buffer := ⟨nofun, rfl, nofun⟩
      obtain ⟨s, hs, hinside, hloaded⟩ :=
        stream_spec hfit hlast (Nat.zero_add _) hstart (Nat.zero_le _)
      refine ⟨last + 1, prepared.finish s, fun fuel hfuel => ?_,
        FileLoadContext.finish_right (FileLoadContext.prepare_ok hprepare) hinside hloaded⟩
      rw [hs (fuel + 1) (by omega), Option.map_some]

section Whole

def wholeDevice (file_size : BitVec 64) (file : Bytes) (read_clamp : BitVec 32) : LoadDevice where
  open_result := .Success
  size_result := .Success
  file_size := file_size
  file := file
  reads _ := ⟨.Success, read_clamp.setWidth 64⟩
  memory := none

variable {file_size : BitVec 64} {file : Bytes} {read_clamp : BitVec 32}

theorem wholeDevice_total (i : ℕ) :
    (wholeDevice file_size file read_clamp).total i = i * read_clamp.toNat := by
  induction i with
  | zero => rw [LoadDevice.total, Nat.zero_mul]
  | succ i ih =>
    rw [LoadDevice.total, ih, Nat.succ_mul]
    exact congrArg _ (widen_toNat read_clamp)

theorem wholeDevice_fitting_iff :
    (wholeDevice file_size file read_clamp).Fitting read_clamp ↔
      read_clamp ≠ 0 ∧ read_clamp.toNat ∣ file_size.toNat := by
  constructor
  · rintro ⟨hends, hleft⟩
    have hclamp : read_clamp ≠ 0 := by
      obtain hclamp | ⟨i, hi⟩ := hends
      · exact hclamp
      · exact absurd rfl hi
    refine ⟨hclamp, ?_⟩
    by_contra hdvd
    have hpos : 0 < read_clamp.toNat := by bv_omega
    have hdiv := Nat.div_add_mod file_size.toNat read_clamp.toNat
    have hmod := Nat.mod_lt file_size.toNat hpos
    have hne : file_size.toNat % read_clamp.toNat ≠ 0 := fun h =>
      hdvd (Nat.dvd_of_mod_eq_zero h)
    have hcomm := Nat.mul_comm read_clamp.toNat (file_size.toNat / read_clamp.toNat)
    have hlast := hleft (file_size.toNat / read_clamp.toNat) (fun _ _ => rfl) (by
      rw [wholeDevice_total]
      change _ < file_size.toNat
      omega)
    rw [wholeDevice_total, Nat.succ_mul] at hlast
    change _ ≤ file_size.toNat at hlast
    omega
  · rintro ⟨hclamp, times, htimes⟩
    refine ⟨.inl hclamp, fun i _ hlt => ?_⟩
    rw [wholeDevice_total] at hlt ⊢
    change _ < file_size.toNat at hlt
    change _ ≤ file_size.toNat
    rw [htimes, Nat.mul_comm i] at hlt
    rw [htimes, Nat.mul_comm (i + 1)]
    exact Nat.mul_le_mul_left _ (Nat.lt_of_mul_lt_mul_left hlt)

theorem wholeDevice_copies (hclamp : read_clamp ≠ 0) :
    (wholeDevice file_size file read_clamp).Copies read_clamp := by
  intro i
  have hsize : (wholeDevice file_size file read_clamp).reads i =
    ⟨.Success, read_clamp.setWidth 64⟩ := rfl
  rw [hsize]
  refine ⟨(widen_toNat read_clamp).le, fun _ _ hzero => hclamp (widen_inj.mp hzero)⟩

def givenBuffer (file_size : BitVec 64) : FileLoadContext where
  read_div := 0x20
  out_is_file_memory_allocated := false
  file_buffer := some fun _ => 0
  file_size := file_size
  file_alignment := 0

theorem loadFileImpl_iff_even : Loads (wholeDevice 0x40 (fun _ => 1) 0x20) (givenBuffer 0x40) :=
  (loadFileImpl_iff _ _ (by decide) (wholeDevice_copies (by decide))).mpr
    (.inr (wholeDevice_fitting_iff.mpr (by decide)))

theorem odd_not_loads : ¬ Loads (wholeDevice 0x21 (fun _ => 1) 0x20) (givenBuffer 0x21) := by
  rintro ⟨least, outcome, hends, hright⟩
  have hload : LoadFileImpl (wholeDevice 0x21 (fun _ => 1) 0x20) (givenBuffer 0x21) least =
      ((wholeDevice 0x21 (fun _ => 1) 0x20).readAll least fun _ => 0).map
        (FileLoadContext.Prepared.finish ⟨givenBuffer 0x21, fun _ => 0, false⟩) := rfl
  rw [hends least (Nat.le_refl least), LoadDevice.readAll_eq (by decide)] at hload
  obtain ⟨s, hs, rfl⟩ := Option.map_eq_some_iff.mp hload.symm
  obtain ⟨t, ht, hoffset, hread⟩ :=
    LoadDevice.transfer_mem hs (i := 1) (Nat.zero_le 1) (fun _ _ => rfl) (by decide) rfl
  have hinside := hright.inside t (by rwa [FileLoadContext.finish_transfers])
  rw [hoffset, hread] at hinside
  exact absurd hinside (by decide)

end Whole

end Awn.FileDevice
