import Awn.Pieces.Machine
import Awn.Zstd.Stream

/-!
A context fed in chunks does with the bytes of the chunks what one call does with all of them.
-/

namespace Awn.Zstd

open Memory Pieces

variable {D Dict : Type*}

structure Progress (D : Type*) where
  zstd_dctx : D
  output : Bytes
  output_used : ℕ
  expected_left : BitVec 64
  fed : List (List Byte)

namespace ZstdStreamContext

def progress (c : ZstdStreamContext D Dict) : Progress D :=
  ⟨c.zstd_dctx, c.output, c.output_used, c.expected_left, c.fed⟩

def leftover (c : ZstdStreamContext D Dict) : List Byte :=
  bytesAt c.leftover_stream 0 c.leftover_used

def Settled (z : Library D Dict) (c : ZstdStreamContext D Dict) : Prop :=
  c.leftover_used = 0 ∨ c.leftover_used < z.nextSrcSizeToDecompress c.zstd_dctx

structure Same (c c' : ZstdStreamContext D Dict) : Prop where
  output_size : c'.output_size = c.output_size
  leftover_size : c'.leftover_size = c.leftover_size
  zstd_ddict : c'.zstd_ddict = c.zstd_ddict

theorem Same.trans {c c' c'' : ZstdStreamContext D Dict} (h : Same c c') (h' : Same c' c'') :
    Same c c'' :=
  ⟨h'.1.trans h.1, h'.2.trans h.2, h'.3.trans h.3⟩

theorem leftover_length (c : ZstdStreamContext D Dict) : c.leftover.length = c.leftover_used :=
  bytesAt_length _ _ _

theorem leftover_eq_nil {c : ZstdStreamContext D Dict} (h : c.leftover_used = 0) : c.leftover = [] := by
  rw [leftover, h, bytesAt]

end ZstdStreamContext

open ZstdStreamContext

section Refinement

variable (z : Library D Dict)

def machine (output_size : ℕ) : Machine (Progress D) Byte where
  next p := z.nextSrcSizeToDecompress p.zstd_dctx
  step p src :=
    match z.decompressContinue p.zstd_dctx (output_size - p.output_used) src with
    | (dctx, none) => ({ p with zstd_dctx := dctx, fed := p.fed ++ [src] }, false)
    | (dctx, some out) =>
      ({ zstd_dctx := dctx
         output := copy p.output p.output_used out
         output_used := p.output_used + out.length
         expected_left := p.expected_left - BitVec.ofNat 64 out.length
         fed := p.fed ++ [src] }, true)

def Agrees (state : State) (r : ZstdStreamContext D Dict × BitVec 64) :
    Outcome (Progress D) Byte → Prop
  | .waiting p rest =>
    r.1.progress = p ∧ r.1.leftover = rest ∧ r.1.Settled z ∧ r.1.state = state ∧
      r.2 = r.1.expected_left
  | .finished p _ =>
    r.1.progress = p ∧ r.1.leftover_used = 0 ∧ z.nextSrcSizeToDecompress r.1.zstd_dctx = 0 ∧
      r.1.state = .Finished ∧ r.2 = 0
  | .failed p => r.1.progress = p ∧ r.1.state = .Error ∧ r.2 = cInvalidStreamState

variable {z}

theorem decompress_spec (c : ZstdStreamContext D Dict) (src : List Byte) :
    (machine z c.output_size).step c.progress src =
        ((decompress z c src).1.progress, (decompress z c src).2) ∧
      Same c (decompress z c src).1 ∧
      (decompress z c src).1.state = (if (decompress z c src).2 then c.state else .Error) := by
  rcases hresult : z.decompressContinue c.zstd_dctx (c.output_size - c.output_used) src
    with ⟨dctx, _ | out⟩
  · simp only [decompress, machine, progress, hresult]
    exact ⟨trivial, ⟨rfl, rfl, rfl⟩, rfl⟩
  · simp only [decompress, machine, progress, hresult]
    exact ⟨trivial, ⟨rfl, rfl, rfl⟩, rfl⟩

def Passes (z : Library D Dict) (c : ZstdStreamContext D Dict) (stream : List Byte) :
    Iteration D Dict → Prop
  | .return c' result =>
    Same c c' ∧ Agrees z c.state (c', result)
      ((machine z c.output_size).consume c.progress (c.leftover ++ stream))
  | .continue c' stream' =>
    Same c c' ∧ c'.Settled z ∧ c'.state = c.state ∧
      (machine z c.output_size).consume c'.progress (c'.leftover ++ stream') =
        (machine z c.output_size).consume c.progress (c.leftover ++ stream) ∧
      ∀ later p, (machine z c.output_size).Visits c'.progress (c'.leftover ++ stream' ++ later) p →
        (machine z c.output_size).Visits c.progress (c.leftover ++ stream ++ later) p

theorem decompress_passes {c d : ZstdStreamContext D Dict} {piece rest stream : List Byte}
    (hsame : Same c d) (hprogress : d.progress = c.progress) (hstate : d.state = c.state)
    (hnext : z.nextSrcSizeToDecompress c.zstd_dctx ≠ 0)
    (hpiece : piece.length = z.nextSrcSizeToDecompress c.zstd_dctx)
    (hbytes : c.leftover ++ stream = piece ++ rest)
    {f : ZstdStreamContext D Dict → ZstdStreamContext D Dict}
    (hf : ∀ e, e.leftover_used = d.leftover_used →
      Same e (f e) ∧ (f e).leftover_used = 0 ∧ (f e).state = e.state ∧ (f e).progress = e.progress) :
    Passes z c stream
      (match decompress z d piece with
        | (e, false) => .return e cInvalidStreamState
        | (e, true) => .continue (f e) rest) := by
  obtain ⟨hstep, hkept, herror⟩ := decompress_spec (z := z) d piece
  have hused : (decompress z d piece).1.leftover_used = d.leftover_used :=
    decompress_leftover_used z d piece
  have hconsume : (machine z c.output_size).consume c.progress (c.leftover ++ stream) =
      (machine z c.output_size).proceed ((machine z c.output_size).step c.progress piece) rest := by
    rw [hbytes]
    exact Machine.consume_step hnext hpiece
  rw [hprogress, hsame.output_size] at hstep
  rw [hstep] at hconsume
  rcases hresult : decompress z d piece with ⟨e, accepted⟩
  rw [hresult] at hkept herror hused hconsume
  cases accepted with
  | false =>
    refine ⟨hsame.trans hkept, ?_⟩
    rw [hconsume]
    exact ⟨rfl, herror, rfl⟩
  | true =>
    obtain ⟨hfsame, hfused, hfstate, hfprogress⟩ := hf e hused
    refine ⟨(hsame.trans hkept).trans hfsame, Or.inl hfused,
      hfstate.trans (herror.trans hstate), ?_, ?_⟩
    · rw [hconsume, hfprogress, leftover_eq_nil hfused, List.nil_append]
      rfl
    · intro later p hvisits
      rw [hfprogress, leftover_eq_nil hfused, List.nil_append] at hvisits
      rw [hbytes, List.append_assoc]
      refine .step hnext hpiece ?_ hvisits
      rw [hstep, hresult]

theorem iteration_passes {c : ZstdStreamContext D Dict} {stream : List Byte}
    (hsize : z.nextSrcSizeToDecompress c.zstd_dctx ≤ c.leftover_size) (hsettled : c.Settled z)
    (hstream : stream ≠ []) : Passes z c stream (iteration z c stream) := by
  have hmachine : (machine z c.output_size).next c.progress =
      z.nextSrcSizeToDecompress c.zstd_dctx := rfl
  have hlong : 0 < stream.length := List.length_pos_iff.mpr hstream
  rw [iteration]
  by_cases hnext : z.nextSrcSizeToDecompress c.zstd_dctx = 0
  · have hused : c.leftover_used = 0 := by
      rcases hsettled with hused | hused
      · exact hused
      · omega
    rw [if_pos hnext]
    refine ⟨⟨rfl, rfl, rfl⟩, ?_⟩
    rw [leftover_eq_nil hused, List.nil_append, Machine.consume_zero hstream (hmachine.trans hnext)]
    exact ⟨rfl, hused, hnext, rfl, rfl⟩
  rw [if_neg hnext]
  by_cases hused : c.leftover_used = 0
  · rw [if_pos hused]
    by_cases hlt : stream.length < z.nextSrcSizeToDecompress c.zstd_dctx
    · rw [if_pos hlt, if_neg (Nat.not_lt.mpr hsize)]
      refine ⟨⟨rfl, rfl, rfl⟩, ?_⟩
      rw [leftover_eq_nil hused, List.nil_append, Machine.consume_lt hstream hlt]
      exact ⟨rfl, bytesAt_copy _ _ _, Or.inr hlt, rfl, rfl⟩
    · rw [if_neg hlt]
      have hpiece : (stream.take (z.nextSrcSizeToDecompress c.zstd_dctx)).length =
          z.nextSrcSizeToDecompress c.zstd_dctx := by
        rw [List.length_take]
        omega
      apply decompress_passes (d := c) (f := id) ⟨rfl, rfl, rfl⟩ rfl rfl hnext hpiece
      · rw [leftover_eq_nil hused, List.nil_append, List.take_append_drop]
      · intro e he
        exact ⟨⟨rfl, rfl, rfl⟩, he.trans hused, rfl, rfl⟩
  · have hlt : c.leftover_used < z.nextSrcSizeToDecompress c.zstd_dctx := by
      rcases hsettled with hzero | hlt
      · exact absurd hzero hused
      · exact hlt
    rw [if_neg hused, append, if_pos hlt]
    dsimp only
    have happended (n : ℕ) (hn : n ≤ stream.length) :
        bytesAt (copy c.leftover_stream c.leftover_used (stream.take n)) 0 (c.leftover_used + n) =
          c.leftover ++ stream.take n := by
      have h := bytesAt_copy_append c.leftover_stream 0 c.leftover_used (stream.take n)
      rwa [Nat.zero_add, List.length_take, Nat.min_eq_left hn] at h
    by_cases hshort : z.nextSrcSizeToDecompress c.zstd_dctx - c.leftover_used < stream.length
    · -- The stream completes the piece that the leftovers begin.
      have hfull : c.leftover_used + (z.nextSrcSizeToDecompress c.zstd_dctx - c.leftover_used) =
          z.nextSrcSizeToDecompress c.zstd_dctx := by
        omega
      have hpiece := happended _ hshort.le
      rw [hfull] at hpiece
      rw [if_pos hshort, if_neg (by omega), hpiece]
      apply decompress_passes
      · exact ⟨rfl, rfl, rfl⟩
      · rfl
      · rfl
      · exact hnext
      · rw [← hpiece, bytesAt_length]
      · rw [List.append_assoc, List.take_append_drop]
      · intro e he
        refine ⟨⟨rfl, rfl, rfl⟩, ?_, rfl, rfl⟩
        rw [nextLeftovers, he]
        dsimp only
        omega
    · have hpending := happended _ le_rfl
      rw [List.take_length] at hpending
      rw [if_neg hshort, List.take_length, List.drop_length]
      by_cases hmore : c.leftover_used + stream.length < z.nextSrcSizeToDecompress c.zstd_dctx
      · rw [if_pos hmore]
        have hbytes : bytesAt (copy c.leftover_stream c.leftover_used stream) 0
            (c.leftover_used + stream.length) ++ [] = c.leftover ++ stream := by
          rw [hpending, List.append_nil]
        refine ⟨⟨rfl, rfl, rfl⟩, Or.inr hmore, rfl, ?_, ?_⟩
        · rw [← hbytes]
          rfl
        · intro later p hvisits
          rw [← hbytes]
          exact hvisits
      · rw [if_neg hmore]
        have hfull : c.leftover_used + stream.length = z.nextSrcSizeToDecompress c.zstd_dctx := by
          omega
        rw [hfull] at hpending
        rw [hpending]
        apply decompress_passes
        · exact ⟨rfl, rfl, rfl⟩
        · rfl
        · rfl
        · exact hnext
        · rw [← hpending, bytesAt_length]
        · rw [List.append_nil]
        · intro e he
          refine ⟨⟨rfl, rfl, rfl⟩, ?_, rfl, rfl⟩
          rw [nextLeftovers, he]
          dsimp only
          omega

theorem loop_agrees {c : ZstdStreamContext D Dict} {stream : List Byte} (later : List Byte)
    (hsize : ∀ p, (machine z c.output_size).Visits c.progress (c.leftover ++ stream ++ later) p →
      z.nextSrcSizeToDecompress p.zstd_dctx ≤ c.leftover_size) (hsettled : c.Settled z) :
    Same c (loop z c stream).1 ∧ Agrees z c.state (loop z c stream)
      ((machine z c.output_size).consume c.progress (c.leftover ++ stream)) := by
  induction c, stream using loop.induct z with
  | case1 c =>
    have hshort : c.leftover = [] ∨ c.leftover.length < z.nextSrcSizeToDecompress c.zstd_dctx := by
      rw [leftover_length]
      exact hsettled.imp_left leftover_eq_nil
    rw [loop, dif_pos rfl, List.append_nil, Machine.consume_of_short hshort]
    exact ⟨⟨rfl, rfl, rfl⟩, rfl, rfl, hsettled, rfl, rfl⟩
  | case2 c stream hstream c' result hpass =>
    have h := iteration_passes (hsize _ (.here _ _)) hsettled hstream
    rw [hpass] at h
    rw [loop, dif_neg hstream, hpass]
    exact h
  | case3 c stream hstream c' stream' hpass ih =>
    have h := iteration_passes (hsize _ (.here _ _)) hsettled hstream
    rw [hpass] at h
    obtain ⟨hsame, hsettled', hstate, hconsume, hvisits⟩ := h
    rw [hsame.output_size, hsame.leftover_size, hstate] at ih
    obtain ⟨hrest, hagrees⟩ := ih (fun p hp => hsize p (hvisits later p hp)) hsettled'
    rw [hconsume] at hagrees
    rw [loop, dif_neg hstream, hpass]
    exact ⟨hsame.trans hrest, hagrees⟩

def Fed (z : Library D Dict) (c c' : ZstdStreamContext D Dict) :
    Outcome (Progress D) Byte → Prop
  | .waiting p rest => Same c c' ∧ c'.progress = p ∧ c'.leftover = rest ∧ c'.Settled z ∧
      c'.state = .Streaming
  | .finished p _ => Same c c' ∧ c'.progress = p ∧ c'.leftover_used = 0 ∧
      z.nextSrcSizeToDecompress c'.zstd_dctx = 0 ∧ c'.state = .Finished
  | .failed p => Same c c' ∧ c'.progress = p ∧ c'.state = .Error

theorem Fed.of_agrees {c : ZstdStreamContext D Dict} {r : ZstdStreamContext D Dict × BitVec 64}
    {o : Outcome (Progress D) Byte} (hsame : Same c r.1) (h : Agrees z .Streaming r o) :
    Fed z c r.1 o := by
  cases o with
  | waiting p rest => exact ⟨hsame, h.1, h.2.1, h.2.2.1, h.2.2.2.1⟩
  | finished p rest => exact ⟨hsame, h.1, h.2.1, h.2.2.1, h.2.2.2.1⟩
  | failed p => exact ⟨hsame, h.1, h.2.1⟩

def feed (z : Library D Dict) (c : ZstdStreamContext D Dict) (chunks : List (List Byte)) :
    ZstdStreamContext D Dict :=
  chunks.foldl (fun c chunk => (streamDecompressZstd z chunk c).1) c

theorem streamDecompressZstd_of_ne {c : ZstdStreamContext D Dict} (h : c.state ≠ .Begin)
    (chunk : List Byte) : streamDecompressZstd z chunk c = loop z c chunk := by
  rw [streamDecompressZstd, if_neg h]

theorem Fed.call {c c' : ZstdStreamContext D Dict} {o : Outcome (Progress D) Byte}
    (h : Fed z c c' o) (hok : c'.state ≠ .Error) (chunk later : List Byte)
    (hsize : ∀ p rest q, o = .waiting p rest →
      (machine z c.output_size).Visits p (rest ++ chunk ++ later) q →
      z.nextSrcSizeToDecompress q.zstd_dctx ≤ c.leftover_size) :
    Fed z c (streamDecompressZstd z chunk c').1
      ((machine z c.output_size).resume o chunk) := by
  cases o with
  | waiting p rest =>
    obtain ⟨hsame, hp, hrest, hsettled, hstate⟩ := h
    have hfits (q : Progress D) (hq : (machine z c'.output_size).Visits c'.progress
        (c'.leftover ++ chunk ++ later) q) :
        z.nextSrcSizeToDecompress q.zstd_dctx ≤ c'.leftover_size := by
      rw [hsame.output_size, hp, hrest] at hq
      rw [hsame.leftover_size]
      exact hsize p rest q rfl hq
    have hloop := loop_agrees later hfits hsettled
    rw [hsame.output_size, hp, hrest, hstate] at hloop
    rw [streamDecompressZstd_of_ne (by rw [hstate]; decide)]
    exact Fed.of_agrees (hsame.trans hloop.1) hloop.2
  | finished p rest =>
    obtain ⟨hsame, hp, hused, hnext, hstate⟩ := h
    rw [streamDecompressZstd_of_ne (by rw [hstate]; decide), loop]
    by_cases hchunk : chunk = []
    · rw [dif_pos hchunk]
      exact ⟨hsame, hp, hused, hnext, hstate⟩
    · have hpass : iteration z c' chunk = .return { c' with state := .Finished } 0 := by
        rw [iteration, if_pos hnext]
      rw [dif_neg hchunk, hpass]
      dsimp only
      exact ⟨⟨hsame.1, hsame.2, hsame.3⟩, hp, hused, hnext, rfl⟩
  | failed p => exact absurd h.2.2 hok

theorem feed_fed {c : ZstdStreamContext D Dict} {chunks : List (List Byte)}
    (hstate : c.state = .Streaming) (hused : c.leftover_used = 0)
    (hsize : ∀ p, (machine z c.output_size).Visits c.progress chunks.flatten p →
      z.nextSrcSizeToDecompress p.zstd_dctx ≤ c.leftover_size) {k : ℕ} (hk : k ≤ chunks.length)
    (hok : ∀ j < k, (feed z c (chunks.take j)).state ≠ .Error) :
    Fed z c (feed z c (chunks.take k))
      ((machine z c.output_size).consume c.progress (chunks.take k).flatten) := by
  induction k with
  | zero =>
    rw [List.take_zero, List.flatten_nil, Machine.consume_nil]
    exact ⟨⟨rfl, rfl, rfl⟩, rfl, leftover_eq_nil hused, Or.inl hused, hstate⟩
  | succ k ih =>
    have hlt : k < chunks.length := hk
    have hprev := ih (by omega) (fun j hj => hok j (by omega))
    have hall : chunks.flatten =
        (chunks.take k).flatten ++ (chunks[k] ++ (chunks.drop (k + 1)).flatten) := by
      rw [← List.flatten_cons, ← List.drop_eq_getElem_cons hlt, ← List.flatten_append,
        List.take_append_drop]
    have hfeed : feed z c (chunks.take (k + 1)) =
        (streamDecompressZstd z chunks[k] (feed z c (chunks.take k))).1 := by
      rw [List.take_succ_eq_append_getElem hlt, feed, List.foldl_append]
      rfl
    rw [hfeed, List.take_succ_eq_append_getElem hlt, List.flatten_append, List.flatten_singleton,
      Machine.consume_append]
    apply hprev.call (hok k (by omega)) _ (chunks.drop (k + 1)).flatten
    intro p rest q hwaiting hq
    apply hsize
    rw [hall]
    apply Machine.Visits.of_consume hwaiting
    rw [← List.append_assoc]
    exact hq

/-- What the caller sees of a context, with the sources that were decompressed. -/
structure SameResult (c c' : ZstdStreamContext D Dict) : Prop where
  state : c'.state = c.state
  output : c'.output = c.output
  output_used : c'.output_used = c.output_used
  expected_left : c'.expected_left = c.expected_left
  fed : c'.fed = c.fed

def InOrder (c : ZstdStreamContext D Dict) (bytes : List Byte) : Prop :=
  c.fed.flatten <+: bytes ∧ (c.state = .Streaming → c.fed.flatten ++ c.leftover = bytes)

structure Chunked (z : Library D Dict) (c : ZstdStreamContext D Dict) (chunks : List (List Byte)) :
    Prop where
  result :
    ((streamDecompressZstd z chunks.flatten c).1.state ≠ .Error ∧
        (∀ k ≤ chunks.length, (feed z c (chunks.take k)).state ≠ .Error) ∧
        SameResult (streamDecompressZstd z chunks.flatten c).1 (feed z c chunks)) ∨
      ((streamDecompressZstd z chunks.flatten c).1.state = .Error ∧
        ∃ k ≤ chunks.length, (feed z c (chunks.take k)).state = .Error ∧
          SameResult (streamDecompressZstd z chunks.flatten c).1 (feed z c (chunks.take k)))
  inOrder : ∀ k ≤ chunks.length, (∀ j < k, (feed z c (chunks.take j)).state ≠ .Error) →
    InOrder (feed z c (chunks.take k)) (chunks.take k).flatten

theorem Fed.sameResult {c c₁ c₂ : ZstdStreamContext D Dict} {o : Outcome (Progress D) Byte}
    (h₁ : Fed z c c₁ o) (h₂ : Fed z c c₂ o) : SameResult c₁ c₂ := by
  have hsame : c₂.progress = c₁.progress ∧ c₂.state = c₁.state := by
    cases o with
    | waiting p rest => exact ⟨h₂.2.1.trans h₁.2.1.symm, h₂.2.2.2.2.trans h₁.2.2.2.2.symm⟩
    | finished p rest => exact ⟨h₂.2.1.trans h₁.2.1.symm, h₂.2.2.2.2.trans h₁.2.2.2.2.symm⟩
    | failed p => exact ⟨h₂.2.1.trans h₁.2.1.symm, h₂.2.2.trans h₁.2.2.symm⟩
  obtain ⟨hprogress, hstate⟩ := hsame
  exact ⟨hstate, congrArg Progress.output hprogress, congrArg Progress.output_used hprogress,
    congrArg Progress.expected_left hprogress, congrArg Progress.fed hprogress⟩

theorem Fed.error_iff {c c' : ZstdStreamContext D Dict} {o : Outcome (Progress D) Byte}
    (h : Fed z c c' o) : c'.state = .Error ↔ ∃ p, o = .failed p := by
  cases o with
  | waiting p rest => simp [h.2.2.2.2]
  | finished p rest => simp [h.2.2.2.2]
  | failed p => simp [h.2.2]

theorem Fed.inOrder {c c' : ZstdStreamContext D Dict} {bytes : List Byte} (hfed : c.fed = [])
    (h : Fed z c c' ((machine z c.output_size).consume c.progress bytes)) : InOrder c' bytes := by
  have hstart : c.progress.fed.flatten = [] := by
    show c.fed.flatten = []
    rw [hfed]
    rfl
  have hkept : Outcome.Holds (fun p fed => p.fed.flatten = fed) ([] ++ bytes)
      ((machine z c.output_size).consume c.progress bytes) := by
    refine Machine.consume_holds ?_ hstart
    intro p fed piece hp _
    have hstep : ((machine z c.output_size).step p piece).1.fed = p.fed ++ [piece] := by
      simp only [machine]
      split <;> rfl
    rw [hstep, List.flatten_append, hp, List.flatten_singleton]
  rw [List.nil_append] at hkept
  revert h hkept
  cases (machine z c.output_size).consume c.progress bytes with
  | waiting p rest =>
    rintro ⟨_, hp, hrest, _, _⟩ ⟨fed, hbytes, hflat⟩
    have hc' : c'.fed.flatten = fed := by
      rw [← hflat, ← hp]
      rfl
    rw [InOrder, hc', hrest]
    exact ⟨⟨rest, hbytes⟩, fun _ => hbytes⟩
  | finished p rest =>
    rintro ⟨_, hp, _, _, hstate⟩ ⟨fed, hbytes, hflat⟩
    have hc' : c'.fed.flatten = fed := by
      rw [← hflat, ← hp]
      rfl
    rw [InOrder, hc', hstate]
    exact ⟨⟨rest, hbytes⟩, fun h => by cases h⟩
  | failed p =>
    rintro ⟨_, hp, hstate⟩ ⟨fed, hbytes, hflat⟩
    have hc' : c'.fed.flatten = fed := by
      rw [← hflat, ← hp]
      rfl
    rw [InOrder, hc', hstate]
    exact ⟨hbytes, fun h => by cases h⟩

theorem chunked_of_streaming {c : ZstdStreamContext D Dict} {chunks : List (List Byte)}
    (hstate : c.state = .Streaming) (hused : c.leftover_used = 0) (hfed : c.fed = [])
    (hsize : ∀ p, (machine z c.output_size).Visits c.progress chunks.flatten p →
      z.nextSrcSizeToDecompress p.zstd_dctx ≤ c.leftover_size) : Chunked z c chunks := by
  have hwhole : Fed z c (streamDecompressZstd z chunks.flatten c).1
      ((machine z c.output_size).consume c.progress chunks.flatten) := by
    have hsingle := hsize
    rw [← List.flatten_singleton (l := chunks.flatten)] at hsingle
    have hnone : ∀ j < 1, (feed z c (List.take j [chunks.flatten])).state ≠ .Error := by
      intro j hj
      obtain rfl : j = 0 := by omega
      show c.state ≠ .Error
      rw [hstate]
      decide
    have h := feed_fed hstate hused hsingle le_rfl hnone
    rwa [List.take_of_length_le (by simp), List.flatten_singleton] at h
  have hparts {k : ℕ} := feed_fed (k := k) hstate hused hsize
  refine ⟨?_, fun k hk hok => (hparts hk hok).inOrder hfed⟩
  by_cases herror : ∃ k ≤ chunks.length, (feed z c (chunks.take k)).state = .Error
  · -- The first chunk that reports the error.
    right
    have hfirst := Nat.find_spec herror
    have hbefore (j : ℕ) (hj : j < Nat.find herror) : (feed z c (chunks.take j)).state ≠ .Error :=
      fun hj' => Nat.find_min herror hj ⟨by omega, hj'⟩
    have hfailed := hparts hfirst.1 hbefore
    obtain ⟨p, hp⟩ := hfailed.error_iff.mp hfirst.2
    have hall : (machine z c.output_size).consume c.progress chunks.flatten = .failed p := by
      have hcut : chunks.flatten = (chunks.take (Nat.find herror)).flatten ++
          (chunks.drop (Nat.find herror)).flatten := by
        rw [← List.flatten_append, List.take_append_drop]
      rw [hcut, Machine.consume_append, hp]
      rfl
    rw [hall] at hwhole
    rw [hp] at hfailed
    exact ⟨hwhole.error_iff.mpr ⟨p, rfl⟩, _, hfirst.1, hfirst.2, hwhole.sameResult hfailed⟩
  · left
    push Not at herror
    have hlast := hparts (k := chunks.length) le_rfl (fun j hj => herror j (by omega))
    rw [List.take_length] at hlast
    have hok := herror chunks.length le_rfl
    rw [List.take_length] at hok
    refine ⟨?_, herror, hwhole.sameResult hlast⟩
    intro hwrong
    exact hok (hlast.error_iff.mpr (hwhole.error_iff.mp hwrong))

def HoldsHeader (z : Library D Dict) (chunk : List Byte) : Prop :=
  ∀ rest, z.getFrameContentSize (chunk ++ rest) = z.getFrameContentSize chunk

def opened (z : Library D Dict) (c : ZstdStreamContext D Dict) (stream : List Byte) :
    ZstdStreamContext D Dict :=
  { c with
    state := .Streaming
    zstd_dctx := (z.decompressBegin_usingDDict c.zstd_dctx c.zstd_ddict).1
    expected_left := z.getFrameContentSize stream }

theorem streamDecompressZstd_opened {c : ZstdStreamContext D Dict} {frame stream : List Byte}
    (hstate : c.state = .Begin)
    (hbegin : (z.decompressBegin_usingDDict c.zstd_dctx c.zstd_ddict).2 = false)
    (hheader : z.getFrameContentSize stream = z.getFrameContentSize frame)
    (hframe : ¬(z.isError (z.getFrameContentSize frame) = true ∨
      c.output_size < (z.getFrameContentSize frame).toNat)) :
    streamDecompressZstd z stream c = streamDecompressZstd z stream (opened z c frame) := by
  have hopened : (opened z c frame).state ≠ .Begin := by
    show State.Streaming ≠ .Begin
    decide
  rw [streamDecompressZstd_of_ne hopened, streamDecompressZstd, if_pos hstate, hheader,
    if_neg hframe]
  rcases hresult : z.decompressBegin_usingDDict c.zstd_dctx c.zstd_ddict with ⟨dctx, failed⟩
  rw [hresult] at hbegin
  obtain rfl : failed = false := hbegin
  rw [opened, hresult]

theorem inOrder_begin {c : ZstdStreamContext D Dict} (hstate : c.state = .Begin) (hfed : c.fed = []) :
    InOrder c [] := by
  refine ⟨?_, fun h => ?_⟩
  · rw [hfed]
    exact List.prefix_rfl
  · rw [hstate] at h
    cases h

theorem chunked_of_refused {c : ZstdStreamContext D Dict} {chunk : List Byte}
    {chunks : List (List Byte)} (hstate : c.state = .Begin) (hfed : c.fed = [])
    (hwhole : streamDecompressZstd z (chunk :: chunks).flatten c =
      ({ c with state := .Error }, cInvalidStreamState))
    (hfirst : streamDecompressZstd z chunk c = ({ c with state := .Error }, cInvalidStreamState)) :
    Chunked z c (chunk :: chunks) := by
  have hone : feed z c ((chunk :: chunks).take 1) = { c with state := .Error } := by
    show (streamDecompressZstd z chunk c).1 = _
    rw [hfirst]
  refine ⟨?_, ?_⟩
  · right
    rw [hwhole]
    refine ⟨rfl, 1, by simp, ?_⟩
    rw [hone]
    exact ⟨rfl, rfl, rfl, rfl, rfl, rfl⟩
  · intro k hk hok
    match k with
    | 0 => exact inOrder_begin hstate hfed
    | 1 =>
      rw [hone]
      refine ⟨?_, fun h => by cases h⟩
      rw [hfed]
      exact List.nil_prefix
    | k + 2 =>
      refine absurd ?_ (hok 1 (by omega))
      rw [hone]

theorem chunked_of_opened {c d : ZstdStreamContext D Dict} {chunk : List Byte}
    {chunks : List (List Byte)} (hstate : c.state = .Begin) (hfed : c.fed = [])
    (hd : d.state = .Streaming)
    (hwhole : streamDecompressZstd z (chunk :: chunks).flatten c =
      streamDecompressZstd z (chunk :: chunks).flatten d)
    (hfirst : streamDecompressZstd z chunk c = streamDecompressZstd z chunk d)
    (h : Chunked z d (chunk :: chunks)) : Chunked z c (chunk :: chunks) := by
  have hfeed (n : ℕ) : feed z c ((chunk :: chunks).take (n + 1)) =
      feed z d ((chunk :: chunks).take (n + 1)) := by
    rw [List.take_succ_cons, feed, feed, List.foldl_cons, List.foldl_cons, hfirst]
  have hall : feed z c (chunk :: chunks) = feed z d (chunk :: chunks) := by
    have hlast := hfeed chunks.length
    rwa [← List.length_cons (a := chunk), List.take_length] at hlast
  have hstreaming : (feed z d ((chunk :: chunks).take 0)).state ≠ .Error := by
    show d.state ≠ .Error
    rw [hd]
    decide
  refine ⟨?_, ?_⟩
  · rw [hwhole, hall]
    rcases h.result with ⟨hok, hparts, hsame⟩ | ⟨hwrong, k, hk, herror, hsame⟩
    · refine Or.inl ⟨hok, ?_, hsame⟩
      intro k hk
      cases k with
      | zero =>
        show c.state ≠ .Error
        rw [hstate]
        decide
      | succ k =>
        rw [hfeed]
        exact hparts (k + 1) hk
    · refine Or.inr ⟨hwrong, k, hk, ?_⟩
      cases k with
      | zero => exact absurd herror hstreaming
      | succ k =>
        rw [hfeed]
        exact ⟨herror, hsame⟩
  · intro k hk hok
    cases k with
    | zero => exact inOrder_begin hstate hfed
    | succ k =>
      rw [hfeed]
      apply h.inOrder (k + 1) hk
      intro j hj
      cases j with
      | zero => exact hstreaming
      | succ j =>
        rw [← hfeed]
        exact hok (j + 1) hj

/-- The calls with the chunks of a stream against the one call with all of it. Every size the library
asks for on its way must fit into the leftovers. -/
theorem streamDecompressZstd_chunked {c : ZstdStreamContext D Dict} {chunk : List Byte}
    {chunks : List (List Byte)} (hstate : c.state = .Begin) (hused : c.leftover_used = 0)
    (hfed : c.fed = []) (hheader : HoldsHeader z chunk)
    (hbegin : (z.decompressBegin_usingDDict c.zstd_dctx c.zstd_ddict).2 = false)
    (hsize : ∀ p, (machine z c.output_size).Visits (opened z c (chunk :: chunks).flatten).progress
        (chunk :: chunks).flatten p →
      z.nextSrcSizeToDecompress p.zstd_dctx ≤ c.leftover_size) : Chunked z c (chunk :: chunks) := by
  have hsame : z.getFrameContentSize chunk = z.getFrameContentSize (chunk :: chunks).flatten := by
    rw [List.flatten_cons, hheader]
  by_cases hframe : z.isError (z.getFrameContentSize (chunk :: chunks).flatten) = true ∨
      c.output_size < (z.getFrameContentSize (chunk :: chunks).flatten).toNat
  · apply chunked_of_refused hstate hfed
    · rw [streamDecompressZstd, if_pos hstate, if_pos hframe]
    · rw [streamDecompressZstd, if_pos hstate, hsame, if_pos hframe]
  · apply chunked_of_opened (d := opened z c (chunk :: chunks).flatten) hstate hfed
    · rfl
    · exact streamDecompressZstd_opened hstate hbegin rfl hframe
    · exact streamDecompressZstd_opened hstate hbegin hsame hframe
    · exact chunked_of_streaming rfl hused hfed hsize

theorem streamDecompressZstd_chunked_raw :
    Chunked rawLibrary
      { state := .Begin
        output := fun _ => 0
        output_size := 4
        output_used := 0
        leftover_stream := fun _ => 0
        leftover_size := 2 ^ 17
        leftover_used := 0
        zstd_dctx := .finished
        zstd_ddict := none
        expected_left := 0
        fed := [] }
      [[0x28, 0xB5, 0x2F, 0xFD, 0x20, 4, 33], [0, 0, 1, 2], [3, 4]] := by
  apply streamDecompressZstd_chunked
  · rfl
  · rfl
  · rfl
  · intro rest
    rfl
  · rfl
  · intro p _
    exact RawStage.nextSrcSize_le p.zstd_dctx

end Refinement

end Awn.Zstd
