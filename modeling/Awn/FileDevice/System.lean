import Awn.FileDevice.Archive

/-!
`awn::res::SystemFileDevice`: the loops that read and write a file, over an operating system that is
given by what its calls come to.
-/

namespace Awn.FileDevice

open Memory

def cInvalidHandleValue : BitVec 64 := BitVec.allOnes 64

def ConvertWin32ErrorToResult (last_error : BitVec 32) : Result :=
  match last_error.toNat with
  | 2 => .FileNotFound
  | 3 => .PathNotFound
  | 32 => .FileSharingViolation
  | 33 => .FileLockViolation
  | 4 => .OpenFileExhaustion
  | 18 => .DirectoryExhausted
  | _ => .UnknownOSError

theorem convertWin32ErrorToResult_ne (last_error : BitVec 32) :
    ConvertWin32ErrorToResult last_error ≠ .Success := by
  unfold ConvertWin32ErrorToResult
  split <;> nofun

structure SystemAnswer where
  done : Bool
  count : BitVec 32
  last_error : BitVec 32

structure SystemFile where
  set_done : Bool
  set_error : BitVec 32
  answer : ℕ → ℕ → BitVec 32 → SystemAnswer

structure SystemTransfer where
  buffer_offset : ℕ
  file_offset : ℕ
  count : ℕ

structure Transferred where
  result : Result
  out_size : Option (BitVec 64)
  transfers : List SystemTransfer

namespace Transferred

def refuse (result : Result) : Transferred := ⟨result, none, []⟩

def behind (t : Transferred) (transfer : SystemTransfer) : Transferred :=
  { t with transfers := transfer :: t.transfers }

def moved (t : Transferred) : ℕ := (t.transfers.map (·.count)).sum

end Transferred

inductive TransferKind
  | Read
  | Write
  deriving DecidableEq

def clampFirst (size : BitVec 64) : BitVec 32 :=
  if 0xffffffff < size then 0xffffffff else size.setWidth 32

def clampNext (size iter : BitVec 64) (clamp : BitVec 32) : BitVec 32 :=
  if size - iter < clamp.setWidth 64 then (size - iter).setWidth 32 else clamp

namespace SystemFile

variable (os : SystemFile) {D : Type*} [DecidableEq D] (device : D)

/-- The loop; every call is given the start of the buffer. A read goes on only behind a call that
transferred as much as the next one asks for. `none` is out of fuel. -/
def transfer (kind : TransferKind) (size : BitVec 64) :
    ℕ → ℕ → ℕ → BitVec 64 → BitVec 32 → Option Transferred
  | 0, _, _, _, _ => none
  | fuel + 1, i, pointer, iter, clamp =>
    let answer := os.answer i pointer clamp
    let transferred := ⟨0, pointer, answer.count.toNat⟩
    let iter := iter + answer.count.setWidth 64
    if answer.done = false then
      some ⟨ConvertWin32ErrorToResult answer.last_error, some iter, [transferred]⟩
    else
      let clamp := clampNext size iter clamp
      if iter ≠ size ∧ (kind = .Read → answer.count = clamp) then
        (transfer kind size fuel (i + 1) (pointer + answer.count.toNat) iter clamp).map
          (·.behind transferred)
      else some ⟨.Success, some iter, [transferred]⟩

def ReadFileImpl (file_handle : Option (FileHandle D)) (read_size file_offset : BitVec 64)
    (fuel : ℕ) : Option Transferred :=
  match file_handle with
  | none => some (.refuse .NullFileHandle)
  | some handle =>
    if handle.handle = 0 ∨ handle.handle = cInvalidHandleValue then
      some (.refuse .InvalidFileHandle)
    else if handle.file_device = some device then some (.refuse .InvalidFileHandle)
    else if handle.open_mode &&& OpenMode.Read = 0 then some (.refuse .InvalidOpenMode)
    else if handle.file_size ≤ file_offset then some (.refuse .InvalidFileOffset)
    else if os.set_done = false then some (.refuse (ConvertWin32ErrorToResult os.set_error))
    else os.transfer .Read read_size fuel 0 file_offset.toNat 0 (clampFirst read_size)

/-- The buffer is an address, and zero is the null pointer. -/
def WriteFileImpl (file_handle : Option (FileHandle D)) (write_buffer write_size
    file_offset : BitVec 64) (fuel : ℕ) : Option Transferred :=
  match file_handle with
  | none => some (.refuse .NullFileHandle)
  | some handle =>
    if handle.handle = 0 ∨ handle.handle = cInvalidHandleValue then
      some (.refuse .InvalidFileHandle)
    else if write_buffer = 0 then some (.refuse .NullOutBuffer)
    else if write_size = 0 then some (.refuse .InvalidSize)
    else if handle.open_mode &&& OpenMode.Write = 0 then some (.refuse .InvalidOpenMode)
    else if file_offset ≤ handle.file_size then some (.refuse .InvalidFileOffset)
    else if os.set_done = false then some (.refuse (ConvertWin32ErrorToResult os.set_error))
    else os.transfer .Write write_size fuel 0 file_offset.toNat 0 (clampFirst write_size)

structure Transfers (kind : TransferKind) (file_end : ℕ) : Prop where
  bound : ∀ i pointer request, (os.answer i pointer request).count ≤ request
  inside : kind = .Read → ∀ i pointer request,
    pointer + (os.answer i pointer request).count.toNat ≤ max pointer file_end
  progress : ∀ i pointer request, (os.answer i pointer request).done = true → request ≠ 0 →
    (kind = .Read → pointer < file_end) → (os.answer i pointer request).count ≠ 0

end SystemFile

def InOrder : ℕ → ℕ → List SystemTransfer → Prop
  | _, _, [] => True
  | buffer_offset, file_offset, t :: transfers =>
    (t.count = 0 ∨ t.buffer_offset = buffer_offset ∧ t.file_offset = file_offset) ∧
      InOrder (buffer_offset + t.count) (file_offset + t.count) transfers

structure Transferred.Right (t : Transferred) (file_offset whole : ℕ) : Prop where
  inOrder : InOrder 0 file_offset t.transfers
  reported : t.out_size.map (·.toNat) = some t.moved
  inside : t.moved ≤ whole
  complete : t.result = .Success → t.moved = whole

def TransfersRight (run : ℕ → Option Transferred) (file_offset whole : ℕ) : Prop :=
  ∃ least t, (∀ fuel, least ≤ fuel → run fuel = some t) ∧ t.Right file_offset whole

structure TransferCall (D : Type*) where
  kind : TransferKind
  handle : FileHandle D
  buffer : BitVec 64
  size : BitVec 64
  file_offset : BitVec 64

namespace TransferCall

variable {D : Type*} [DecidableEq D] (call : TransferCall D) (os : SystemFile) (device : D)

def run (fuel : ℕ) : Option Transferred :=
  match call.kind with
  | .Read => os.ReadFileImpl device (some call.handle) call.size call.file_offset fuel
  | .Write => os.WriteFileImpl (some call.handle) call.buffer call.size call.file_offset fuel

def Valid : Prop :=
  call.handle.handle ≠ 0 ∧ call.handle.handle ≠ cInvalidHandleValue ∧
    ¬ call.handle.Foreign device ∧
    match call.kind with
    | .Read => call.handle.open_mode &&& OpenMode.Read ≠ 0 ∧
      call.file_offset < call.handle.file_size
    | .Write => call.buffer ≠ 0 ∧ call.size ≠ 0 ∧ call.handle.open_mode &&& OpenMode.Write ≠ 0

def whole (file_end : ℕ) : ℕ :=
  match call.kind with
  | .Read => min call.size.toNat (file_end - call.file_offset.toNat)
  | .Write => call.size.toNat

def Admitted : Prop :=
  match call.kind with
  | .Read => call.handle.file_device = none
  | .Write => call.handle.file_size < call.file_offset

def first : SystemAnswer := os.answer 0 call.file_offset.toNat (clampFirst call.size)

def clamp : BitVec 32 :=
  clampNext call.size ((call.first os).count.setWidth 64) (clampFirst call.size)

def second : SystemAnswer :=
  os.answer 1 (call.file_offset.toNat + (call.first os).count.toNat) (call.clamp os)

def AtOnce (file_end : ℕ) : Prop :=
  (call.first os).done = false ∨ (call.first os).count.toNat = call.whole file_end ∨
    (call.kind = .Read → (call.first os).count = call.clamp os) ∧
      (call.second os).done = false ∧ (call.second os).count = 0

end TransferCall

section Loop

variable {os : SystemFile} {kind : TransferKind} {size iter : BitVec 64} {clamp : BitVec 32}

theorem clampFirst_toNat (size : BitVec 64) :
    (clampFirst size).toNat = min size.toNat 0xffffffff := by
  have hlt : 0xffffffff < size ↔ 0xffffffff < size.toNat := BitVec.lt_def
  unfold clampFirst
  split_ifs with h
  · rw [Nat.min_eq_right (Nat.le_of_lt (hlt.mp h))]
    rfl
  · have hle : size.toNat ≤ 0xffffffff := Nat.le_of_not_lt fun hgt => h (hlt.mpr hgt)
    rw [Nat.min_eq_left hle, BitVec.toNat_setWidth, Nat.mod_eq_of_lt (by omega)]

theorem clampNext_toNat (hle : iter.toNat ≤ size.toNat) :
    (clampNext size iter clamp).toNat = min (size.toNat - iter.toNat) clamp.toNat := by
  have hsub : (size - iter).toNat = size.toNat - iter.toNat :=
    BitVec.toNat_sub_of_le (BitVec.le_def.mpr hle)
  have hlt : size - iter < clamp.setWidth 64 ↔ size.toNat - iter.toNat < clamp.toNat := by
    rw [BitVec.lt_def, hsub, widen_toNat]
  have hclamp := clamp.isLt
  unfold clampNext
  split_ifs with h
  · have h' := hlt.mp h
    rw [Nat.min_eq_left (Nat.le_of_lt h'), BitVec.toNat_setWidth, hsub,
      Nat.mod_eq_of_lt (by omega)]
  · rw [Nat.min_eq_right (Nat.le_of_not_lt fun hgt => h (hlt.mpr hgt))]

theorem transfer_failed {i pointer : ℕ} (hfails : (os.answer i pointer clamp).done = false)
    (fuel : ℕ) : os.transfer kind size (fuel + 1) i pointer iter clamp =
      some ⟨ConvertWin32ErrorToResult (os.answer i pointer clamp).last_error,
        some (iter + (os.answer i pointer clamp).count.setWidth 64),
        [⟨0, pointer, (os.answer i pointer clamp).count.toNat⟩]⟩ := by
  rw [SystemFile.transfer]
  dsimp only
  rw [if_pos hfails]

theorem transfer_stops {i pointer : ℕ} {iter' : BitVec 64}
    (hiter : iter + (os.answer i pointer clamp).count.setWidth 64 = iter')
    (hdone : (os.answer i pointer clamp).done = true)
    (hstops : iter' = size ∨ kind = .Read ∧
      (os.answer i pointer clamp).count ≠ clampNext size iter' clamp) (fuel : ℕ) :
    os.transfer kind size (fuel + 1) i pointer iter clamp =
      some ⟨.Success, some iter', [⟨0, pointer, (os.answer i pointer clamp).count.toNat⟩]⟩ := by
  rw [SystemFile.transfer]
  dsimp only
  rw [hiter, if_neg (by rw [hdone]; nofun), if_neg]
  rintro ⟨hne, hsame⟩
  obtain heq | ⟨hkind, hother⟩ := hstops
  · exact hne heq
  · exact hother (hsame hkind)

theorem transfer_goesOn {i pointer : ℕ} {iter' : BitVec 64}
    (hiter : iter + (os.answer i pointer clamp).count.setWidth 64 = iter')
    (hdone : (os.answer i pointer clamp).done = true) (hne : iter' ≠ size)
    (hsame : kind = .Read → (os.answer i pointer clamp).count = clampNext size iter' clamp)
    (fuel : ℕ) : os.transfer kind size (fuel + 1) i pointer iter clamp =
      (os.transfer kind size fuel (i + 1) (pointer + (os.answer i pointer clamp).count.toNat) iter'
        (clampNext size iter' clamp)).map
          (·.behind ⟨0, pointer, (os.answer i pointer clamp).count.toNat⟩) := by
  rw [SystemFile.transfer]
  dsimp only
  rw [hiter, if_neg (by rw [hdone]; nofun), if_pos ⟨hne, hsame⟩]

theorem transfer_head {fuel i pointer : ℕ} {t : Transferred}
    (h : os.transfer kind size fuel i pointer iter clamp = some t) :
    ∃ transfers, t.transfers =
      ⟨0, pointer, (os.answer i pointer clamp).count.toNat⟩ :: transfers := by
  cases fuel with
  | zero => cases h
  | succ fuel =>
    rw [SystemFile.transfer] at h
    dsimp only at h
    split_ifs at h
    · exact ⟨[], by rw [← Option.some.inj h]⟩
    · obtain ⟨t', -, rfl⟩ := Option.map_eq_some_iff.mp h
      exact ⟨t'.transfers, rfl⟩
    · exact ⟨[], by rw [← Option.some.inj h]⟩

theorem ends_of_succ {f : ℕ → Option Transferred} {t : Transferred}
    (h : ∀ fuel, f (fuel + 1) = some t) (n : ℕ) : ∃ t, ∀ fuel, n < fuel → f fuel = some t := by
  refine ⟨t, fun fuel hfuel => ?_⟩
  obtain ⟨fuel, rfl⟩ := Nat.exists_eq_add_one_of_ne_zero (Nat.ne_zero_of_lt hfuel)
  exact h fuel

theorem transfer_ends {file_end : ℕ} (hos : os.Transfers kind file_end) {n i pointer : ℕ}
    (hleft : iter.toNat + n = size.toNat) (hclamp : clamp.toNat ≤ n) (hasks : n ≠ 0 → clamp ≠ 0) :
    ∃ t, ∀ fuel, n < fuel → os.transfer kind size fuel i pointer iter clamp = some t := by
  induction n using Nat.strong_induction_on generalizing i pointer iter clamp with
  | _ n ih =>
    have hbound := BitVec.le_def.mp (hos.bound i pointer clamp)
    obtain ⟨iter', hiter'⟩ :
        ∃ iter', iter + (os.answer i pointer clamp).count.setWidth 64 = iter' := ⟨_, rfl⟩
    have hiter : iter'.toNat = iter.toNat + (os.answer i pointer clamp).count.toNat := by
      have hlt := size.isLt
      rw [← hiter', BitVec.toNat_add, widen_toNat, Nat.mod_eq_of_lt (by omega)]
    have hnext : (clampNext size iter' clamp).toNat =
        min (size.toNat - iter'.toNat) clamp.toNat := clampNext_toNat (by omega)
    cases hdone : (os.answer i pointer clamp).done with
    | false => exact ends_of_succ (transfer_failed hdone) n
    | true =>
      by_cases hstops : iter' = size ∨ kind = .Read ∧
          (os.answer i pointer clamp).count ≠ clampNext size iter' clamp
      · exact ends_of_succ (transfer_stops hiter' hdone hstops) n
      · obtain ⟨hne, hsame⟩ := not_or.mp hstops
        have hsame : kind = .Read →
            (os.answer i pointer clamp).count = clampNext size iter' clamp :=
          fun hkind => not_not.mp fun hother => hsame ⟨hkind, hother⟩
        have hmore : iter'.toNat ≠ size.toNat := fun h => hne (BitVec.eq_of_toNat_eq h)
        have hsome : clamp.toNat ≠ 0 :=
          fun h => hasks (by omega) (BitVec.eq_of_toNat_eq h)
        -- a read goes on behind a full call, a write behind any that is done
        have hcount : (os.answer i pointer clamp).count.toNat ≠ 0 := by
          cases hkind : kind with
          | Read =>
            rw [hsame hkind, hnext]
            omega
          | Write =>
            intro hzero
            refine hos.progress i pointer clamp hdone (hasks (by omega)) (fun hread => ?_)
              (BitVec.eq_of_toNat_eq hzero)
            rw [hkind] at hread
            cases hread
        obtain ⟨t, ht⟩ : ∃ t, ∀ fuel, size.toNat - iter'.toNat < fuel → os.transfer kind size
            fuel (i + 1) (pointer + (os.answer i pointer clamp).count.toNat) iter'
              (clampNext size iter' clamp) = some t := by
          refine ih _ (by omega) (by omega) (by omega) fun _ hzero => ?_
          rw [hzero] at hnext
          change 0 = _ at hnext
          omega
        refine ⟨t.behind ⟨0, pointer, (os.answer i pointer clamp).count.toNat⟩,
          fun fuel hfuel => ?_⟩
        obtain ⟨fuel, rfl⟩ := Nat.exists_eq_add_one_of_ne_zero (Nat.ne_zero_of_lt hfuel)
        rw [transfer_goesOn hiter' hdone hne hsame, ht fuel (by omega)]
        rfl

end Loop

section Runs

variable {run : ℕ → Option Transferred} {file_offset whole : ℕ}

theorem TransfersRight.of_eq {n : ℕ} {t : Transferred} (h : ∀ fuel, run (fuel + n) = some t)
    (hright : t.Right file_offset whole) : TransfersRight run file_offset whole := by
  refine ⟨n, t, fun fuel hle => ?_, hright⟩
  obtain ⟨k, rfl⟩ := Nat.exists_eq_add_of_le' hle
  exact h k

theorem TransfersRight.exists_eq (h : TransfersRight run file_offset whole) (n : ℕ) :
    ∃ fuel t, run (fuel + n) = some t ∧ t.Right file_offset whole := by
  obtain ⟨least, t, hruns, hright⟩ := h
  exact ⟨least, t, hruns _ (Nat.le_add_right least n), hright⟩

theorem Transferred.right_one {result : Result} {size : BitVec 64} {count : ℕ}
    (hsize : size.toNat = count) (hle : count ≤ whole)
    (hcomplete : result = .Success → count = whole) :
    Transferred.Right ⟨result, some size, [⟨0, file_offset, count⟩]⟩ file_offset whole where
  inOrder := ⟨.inr ⟨rfl, rfl⟩, trivial⟩
  reported := congrArg some hsize
  inside := hle
  complete := hcomplete

theorem TransfersRight.of_two {rest : ℕ → Option Transferred} {result : Result} {size : BitVec 64}
    {count pointer nothing : ℕ}
    (hgoes : ∀ fuel, run (fuel + 1) = (rest fuel).map (·.behind ⟨0, file_offset, count⟩))
    (hrest : ∀ fuel, rest (fuel + 1) = some ⟨result, some size, [⟨0, pointer, nothing⟩]⟩)
    (hnothing : nothing = 0) (hsize : size.toNat = count) (hle : count ≤ whole)
    (hcomplete : result = .Success → count = whole) : TransfersRight run file_offset whole := by
  subst hnothing
  have hruns : ∀ fuel, run (fuel + 2) =
      some ⟨result, some size, [⟨0, file_offset, count⟩, ⟨0, pointer, 0⟩]⟩ := by
    intro fuel
    rw [hgoes, hrest]
    rfl
  exact .of_eq hruns ⟨⟨.inr ⟨rfl, rfl⟩, .inl rfl, trivial⟩, congrArg some hsize, hle, hcomplete⟩

theorem Transferred.Right.complete_one {size : Option (BitVec 64)} {count pointer : ℕ}
    (h : Transferred.Right ⟨.Success, size, [⟨0, pointer, count⟩]⟩ file_offset whole) :
    count = whole :=
  h.complete rfl

theorem not_inOrder_again {first second : SystemTransfer} {transfers : List SystemTransfer}
    (hfirst : first.count ≠ 0) (hsecond : second.count ≠ 0) (hbuffer : second.buffer_offset = 0) :
    ¬ InOrder 0 file_offset (first :: second :: transfers) := by
  rintro ⟨-, hnone | ⟨hoffset, -⟩, -⟩
  · exact hsecond hnone
  · rw [hbuffer, Nat.zero_add] at hoffset
    exact hfirst hoffset.symm

end Runs

namespace TransferCall

variable {D : Type*} {call : TransferCall D} {os : SystemFile} {file_end : ℕ}

theorem whole_le : call.whole file_end ≤ call.size.toNat := by
  unfold whole
  split
  · exact Nat.min_le_left _ _
  · exact Nat.le_refl _

theorem first_le (hos : os.Transfers call.kind file_end) :
    (call.first os).count.toNat ≤ call.whole file_end := by
  have hbound : (call.first os).count.toNat ≤ call.size.toNat := by
    have hle := BitVec.le_def.mp (hos.bound 0 call.file_offset.toNat (clampFirst call.size))
    rw [clampFirst_toNat] at hle
    exact hle.trans (Nat.min_le_left _ _)
  unfold whole
  cases hkind : call.kind with
  | Read =>
    have hinside := hos.inside hkind 0 call.file_offset.toNat (clampFirst call.size)
    change _ + (call.first os).count.toNat ≤ _ at hinside
    change _ ≤ min _ _
    omega
  | Write => exact hbound

theorem first_iter : (0 + (call.first os).count.setWidth 64 : BitVec 64) =
    (call.first os).count.setWidth 64 := BitVec.zero_add _

theorem clamp_toNat (hos : os.Transfers call.kind file_end) : (call.clamp os).toNat =
    min (call.size.toNat - (call.first os).count.toNat) (min call.size.toNat 0xffffffff) := by
  have hle := (first_le hos).trans whole_le
  unfold clamp
  rw [clampNext_toNat (by rwa [widen_toNat]), widen_toNat, clampFirst_toNat]

theorem clamp_ne (hos : os.Transfers call.kind file_end)
    (hlt : (call.first os).count.toNat < call.size.toNat) : call.clamp os ≠ 0 := by
  intro hzero
  have hclamp := clamp_toNat hos
  rw [hzero] at hclamp
  change 0 = _ at hclamp
  omega

theorem second_nothing (hos : os.Transfers call.kind file_end)
    (hlt : (call.first os).count.toNat < call.size.toNat)
    (hwhole : (call.first os).count.toNat = call.whole file_end) : (call.second os).count = 0 := by
  unfold whole at hwhole
  cases hkind : call.kind with
  | Read =>
    rw [hkind] at hwhole
    have hinside := hos.inside hkind 1
      (call.file_offset.toNat + (call.first os).count.toNat) (call.clamp os)
    change _ + (call.second os).count.toNat ≤ _ at hinside
    change _ = min _ _ at hwhole
    apply BitVec.eq_of_toNat_eq
    change _ = 0
    omega
  | Write =>
    rw [hkind] at hwhole
    exact absurd hwhole (Nat.ne_of_lt hlt)

theorem second_at_end (hos : os.Transfers call.kind file_end)
    (hlt : (call.first os).count.toNat < call.size.toNat) (hdone : (call.second os).done = true)
    (hnothing : (call.second os).count = 0) :
    call.kind = .Read ∧ (call.first os).count.toNat = call.whole file_end := by
  have hle := first_le hos
  have hend : ¬ (call.kind = .Read → call.file_offset.toNat + (call.first os).count.toNat <
      file_end) := fun hbelow => hos.progress 1 _ _ hdone (clamp_ne hos hlt) hbelow hnothing
  obtain ⟨hkind, hend⟩ := Classical.not_imp.mp hend
  refine ⟨hkind, ?_⟩
  unfold whole at hle ⊢
  rw [hkind] at hle ⊢
  dsimp only at hle ⊢
  omega

theorem first_ne (hos : os.Transfers call.kind file_end)
    (hlt : (call.first os).count.toNat < call.size.toNat) (hdone : (call.first os).done = true)
    (hsame : call.kind = .Read → (call.first os).count = call.clamp os) :
    (call.first os).count ≠ 0 := by
  cases hkind : call.kind with
  | Read =>
    rw [hsame hkind]
    exact clamp_ne hos hlt
  | Write =>
    refine hos.progress 0 _ _ hdone (fun hzero => ?_) fun hread => ?_
    · have hclamp := clampFirst_toNat call.size
      rw [hzero] at hclamp
      change 0 = _ at hclamp
      omega
    · rw [hkind] at hread
      cases hread

theorem loop_right_iff (hos : os.Transfers call.kind file_end) :
    TransfersRight (fun fuel => os.transfer call.kind call.size fuel 0 call.file_offset.toNat 0
        (clampFirst call.size)) call.file_offset.toNat (call.whole file_end) ↔
      call.AtOnce os file_end := by
  have hle := first_le hos
  have hwhole : call.whole file_end ≤ call.size.toNat := whole_le
  have hcount : ((call.first os).count.setWidth 64).toNat = (call.first os).count.toNat :=
    widen_toNat _
  unfold AtOnce
  cases hdone : (call.first os).done with
  | false =>
    refine iff_of_true (.of_eq (n := 1) (transfer_failed hdone) ?_) (.inl rfl)
    refine Transferred.right_one ?_ hle fun h => absurd h (convertWin32ErrorToResult_ne _)
    exact (congrArg BitVec.toNat first_iter).trans hcount
  | true =>
    by_cases hstops : (call.first os).count.setWidth 64 = call.size ∨
        call.kind = .Read ∧ (call.first os).count ≠ call.clamp os
    · have heq := transfer_stops first_iter hdone hstops
      constructor
      · intro hright
        obtain ⟨fuel, t, hruns, hright⟩ := hright.exists_eq 1
        obtain rfl := Option.some.inj ((heq fuel).symm.trans hruns)
        exact .inr (.inl hright.complete_one)
      · rintro (hfails | hall | ⟨hsame, hsecond⟩)
        · cases hfails
        · exact .of_eq (n := 1) heq (Transferred.right_one hcount hle fun _ => hall)
        · obtain hfull | ⟨hkind, hother⟩ := hstops
          · have hsize := (congrArg BitVec.toNat hfull).symm.trans hcount
            refine .of_eq (n := 1) heq (Transferred.right_one hcount hle fun _ => ?_)
            exact Nat.le_antisymm hle (hwhole.trans (Nat.le_of_eq hsize))
          · exact absurd (hsame hkind) hother
    · obtain ⟨hne, hsame⟩ := not_or.mp hstops
      have hsame : call.kind = .Read → (call.first os).count = call.clamp os :=
        fun hkind => not_not.mp fun hother => hsame ⟨hkind, hother⟩
      have hlt : (call.first os).count.toNat < call.size.toNat := by
        refine Nat.lt_of_le_of_ne (hle.trans hwhole) fun hsize => hne ?_
        exact BitVec.eq_of_toNat_eq (hcount.trans hsize)
      have hgoes := transfer_goesOn first_iter hdone hne hsame
      by_cases hnothing : (call.second os).count = 0
      · have hiter : (call.first os).count.setWidth 64 + (call.second os).count.setWidth 64 =
            (call.first os).count.setWidth 64 := by
          rw [hnothing]
          exact BitVec.add_zero _
        have hzero : (call.second os).count.toNat = 0 := congrArg BitVec.toNat hnothing
        cases hdone2 : (call.second os).done with
        | false =>
          refine iff_of_true (.of_two hgoes (transfer_failed hdone2) hzero ?_ hle ?_)
            (.inr (.inr ⟨hsame, rfl, hnothing⟩))
          · exact (congrArg BitVec.toNat hiter).trans hcount
          · exact fun h => absurd h (convertWin32ErrorToResult_ne _)
        | true =>
          obtain ⟨hkind, hall⟩ := second_at_end hos hlt hdone2 hnothing
          have hmore :
              clampNext call.size ((call.first os).count.setWidth 64) (call.clamp os) ≠ 0 := by
            intro hnone
            have hnext : (clampNext call.size ((call.first os).count.setWidth 64)
                (call.clamp os)).toNat = min _ (call.clamp os).toNat :=
              clampNext_toNat (hcount.trans_le hlt.le)
            rw [hnone, hcount] at hnext
            change 0 = _ at hnext
            have hasks : (call.clamp os).toNat ≠ 0 :=
              fun h => clamp_ne hos hlt (BitVec.eq_of_toNat_eq h)
            omega
          refine iff_of_true (.of_two hgoes (transfer_stops hiter hdone2 ?_) hzero hcount hle ?_)
            (.inr (.inl hall))
          · exact .inr ⟨hkind, fun h => hmore (h.symm.trans hnothing)⟩
          · exact fun _ => hall
      · refine iff_of_false ?_ ?_
        · intro hright
          obtain ⟨fuel, t, hruns, hright⟩ := hright.exists_eq 1
          obtain ⟨t', hrest, rfl⟩ := Option.map_eq_some_iff.mp ((hgoes fuel).symm.trans hruns)
          obtain ⟨transfers, htransfers⟩ := transfer_head hrest
          have hinOrder := hright.inOrder
          unfold Transferred.behind at hinOrder
          rw [htransfers] at hinOrder
          refine not_inOrder_again ?_ ?_ rfl hinOrder
          · exact fun hzero => first_ne hos hlt hdone hsame (BitVec.eq_of_toNat_eq hzero)
          · exact fun hzero => hnothing (BitVec.eq_of_toNat_eq hzero)
        · rintro (hfails | hall | ⟨-, -, hzero⟩)
          · cases hfails
          · exact hnothing (second_nothing hos hlt hall)
          · exact hnothing hzero

section Guards

variable [DecidableEq D] {device : D}

theorem run_admitted (hset : os.set_done = true) (hvalid : call.Valid device)
    (hadmitted : call.Admitted) : call.run os device = fun fuel =>
      os.transfer call.kind call.size fuel 0 call.file_offset.toNat 0 (clampFirst call.size) := by
  obtain ⟨hnull, hinvalid, -, hcall⟩ := hvalid
  have hset : ¬ os.set_done = false := by rw [hset]; nofun
  funext fuel
  unfold run
  unfold Admitted at hadmitted
  cases hkind : call.kind with
  | Read =>
    rw [hkind] at hcall hadmitted
    have hdevice : call.handle.file_device ≠ some device := by
      rw [show call.handle.file_device = none from hadmitted]
      nofun
    dsimp only
    unfold SystemFile.ReadFileImpl
    dsimp only
    rw [if_neg (not_or.mpr ⟨hnull, hinvalid⟩), if_neg hdevice, if_neg hcall.1,
      if_neg (BitVec.not_le.mpr hcall.2), if_neg hset]
  | Write =>
    rw [hkind] at hcall hadmitted
    dsimp only
    unfold SystemFile.WriteFileImpl
    dsimp only
    rw [if_neg (not_or.mpr ⟨hnull, hinvalid⟩), if_neg hcall.1, if_neg hcall.2.1, if_neg hcall.2.2,
      if_neg (BitVec.not_le.mpr hadmitted), if_neg hset]

theorem run_refused (hvalid : call.Valid device) (hrefused : ¬ call.Admitted) :
    ∃ result, call.run os device = fun _ => some (.refuse result) := by
  obtain ⟨hnull, hinvalid, hforeign, hcall⟩ := hvalid
  unfold run
  unfold Admitted at hrefused
  cases hkind : call.kind with
  | Read =>
    rw [hkind] at hrefused
    have hdevice : call.handle.file_device = some device := by
      obtain hnone | hown | hother := FileHandle.device_cases device call.handle
      · exact absurd hnone hrefused
      · exact hown
      · exact absurd hother hforeign
    refine ⟨.InvalidFileHandle, funext fun fuel => ?_⟩
    dsimp only
    unfold SystemFile.ReadFileImpl
    dsimp only
    rw [if_neg (not_or.mpr ⟨hnull, hinvalid⟩), if_pos hdevice]
  | Write =>
    rw [hkind] at hcall hrefused
    refine ⟨.InvalidFileOffset, funext fun fuel => ?_⟩
    dsimp only
    unfold SystemFile.WriteFileImpl
    dsimp only
    rw [if_neg (not_or.mpr ⟨hnull, hinvalid⟩), if_neg hcall.1, if_neg hcall.2.1, if_neg hcall.2.2,
      if_pos (BitVec.not_lt.mp hrefused)]

omit [DecidableEq D] in
theorem writeFileImpl_start (os : SystemFile) (file_handle : Option (FileHandle D))
    (write_buffer write_size : BitVec 64) : ∃ result, result ≠ .Success ∧
      os.WriteFileImpl file_handle write_buffer write_size 0 = fun _ => some (.refuse result) := by
  cases file_handle with
  | none => exact ⟨.NullFileHandle, nofun, rfl⟩
  | some handle =>
    have hstart : 0 ≤ handle.file_size := BitVec.le_def.mpr (Nat.zero_le _)
    unfold SystemFile.WriteFileImpl
    dsimp only
    split_ifs
    · exact ⟨.InvalidFileHandle, nofun, rfl⟩
    · exact ⟨.NullOutBuffer, nofun, rfl⟩
    · exact ⟨.InvalidSize, nofun, rfl⟩
    · exact ⟨.InvalidOpenMode, nofun, rfl⟩
    · exact ⟨.InvalidFileOffset, nofun, rfl⟩

end Guards

end TransferCall

/-- A valid call moves the bytes in order where it is admitted and moves them at once. -/
theorem systemFileDevice_right_iff {D : Type*} [DecidableEq D] {device : D} {os : SystemFile}
    {call : TransferCall D} {file_end : ℕ} (hos : os.Transfers call.kind file_end)
    (hset : os.set_done = true) (hvalid : call.Valid device) :
    TransfersRight (call.run os device) call.file_offset.toNat (call.whole file_end) ↔
      call.Admitted ∧ call.AtOnce os file_end := by
  by_cases hadmitted : call.Admitted
  · rw [TransferCall.run_admitted hset hvalid hadmitted, TransferCall.loop_right_iff hos]
    exact (and_iff_right hadmitted).symm
  · refine iff_of_false ?_ fun h => hadmitted h.1
    obtain ⟨result, hruns⟩ : ∃ result, call.run os device = fun _ => some (.refuse result) :=
      TransferCall.run_refused hvalid hadmitted
    rintro ⟨least, t, hends, hright⟩
    have hrefused := hends least (Nat.le_refl least)
    rw [hruns] at hrefused
    obtain rfl := Option.some.inj hrefused
    exact absurd hright.reported nofun

section Cases

def steadyFile (most : BitVec 32) (file_end : ℕ) : SystemFile where
  set_done := true
  set_error := 0
  answer _ pointer request :=
    ⟨true, BitVec.ofNat 32 (min (min request.toNat most.toNat) (file_end - pointer)), 0⟩

theorem steadyFile_transfers {most : BitVec 32} (hmost : most ≠ 0) (file_end : ℕ) :
    (steadyFile most file_end).Transfers .Read file_end := by
  have hcount : ∀ i pointer (request : BitVec 32),
      ((steadyFile most file_end).answer i pointer request).count.toNat =
        min (min request.toNat most.toNat) (file_end - pointer) := by
    intro i pointer request
    have hlt := request.isLt
    change (BitVec.ofNat 32 _).toNat = _
    rw [BitVec.toNat_ofNat, Nat.mod_eq_of_lt (by omega)]
  refine ⟨fun i pointer request => ?_, fun _ i pointer request => ?_,
    fun i pointer request _ hrequest hbelow hzero => ?_⟩
  · rw [BitVec.le_def, hcount]
    omega
  · rw [hcount]
    omega
  · have hpointer := hbelow rfl
    have hsome : request.toNat ≠ 0 := fun h => hrequest (BitVec.eq_of_toNat_eq h)
    have hsteady : most.toNat ≠ 0 := fun h => hmost (BitVec.eq_of_toNat_eq h)
    have hnone := hcount i pointer request
    rw [hzero] at hnone
    change 0 = _ at hnone
    omega

def readTwo : TransferCall ℕ where
  kind := .Read
  handle := ⟨4, none, 0, OpenMode.Read, 0, 2⟩
  buffer := 8
  size := 2
  file_offset := 0

theorem readTwo_valid : readTwo.Valid 0 := by
  refine ⟨by decide, by decide, FileHandle.not_foreign_of_none rfl, ?_⟩
  change readTwo.handle.open_mode &&& OpenMode.Read ≠ 0 ∧
    readTwo.file_offset < readTwo.handle.file_size
  decide

theorem systemFileDevice_right_iff_read :
    TransfersRight (readTwo.run (steadyFile 4 2) 0) 0 2 :=
  (@systemFileDevice_right_iff ℕ _ 0 _ readTwo 2 (steadyFile_transfers (by decide) 2) rfl
    readTwo_valid).mpr ⟨rfl, .inr (.inl (by decide))⟩

theorem oneByOne_not_right : ¬ TransfersRight (readTwo.run (steadyFile 1 2) 0) 0 2 := by
  intro hright
  obtain ⟨fuel, t, hruns, hright⟩ := hright.exists_eq 2
  have hreads : readTwo.run (steadyFile 1 2) 0 (fuel + 2) =
      some ⟨.Success, some 2, [⟨0, 0, 1⟩, ⟨0, 1, 1⟩]⟩ := rfl
  obtain rfl := Option.some.inj (hreads.symm.trans hruns)
  obtain ⟨-, hnone | ⟨hoffset, -⟩, -⟩ := hright.inOrder
  · cases hnone
  · cases hoffset

end Cases

end Awn.FileDevice
