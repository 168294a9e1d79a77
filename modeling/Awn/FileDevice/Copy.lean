import Awn.FileDevice.System

/-!
`awn::res::FileDeviceBase::CopyFileImpl`, over a device that is given by what its functions come to.
-/

namespace Awn.FileDevice

structure OpenAnswer (D : Type*) where
  result : Result
  file_device : Option D

structure CopyDevice (D : Type*) where
  source : List (BitVec 8)
  dest : List (BitVec 8)
  open_source : OpenAnswer D
  open_dest : OpenAnswer D
  read : BitVec 64 → BitVec 64 → ReadAnswer
  write : BitVec 64 → BitVec 64 → ReadAnswer

inductive CopyHandle
  | source
  | dest
  deriving DecidableEq

structure CopyOutcome where
  result : Result
  dest : List (BitVec 8)
  calls : List Result
  closed : List CopyHandle

def firstError : List Result → Result
  | [] => .Success
  | result :: results => if result ≠ .Success then result else firstError results

theorem firstError_error {result : Result} (h : result ≠ .Success) (results : List Result) :
    firstError (result :: results) = result := if_pos h

theorem firstError_success {result : Result} (h : ¬ result ≠ .Success) (results : List Result) :
    firstError (result :: results) = firstError results := if_neg h

def OpenAnswer.close {D : Type*} (answer : OpenAnswer D) (handle : CopyHandle) : List CopyHandle :=
  match answer.file_device with
  | none => []
  | some _ => [handle]

namespace CopyDevice

variable {D : Type*} (d : CopyDevice D)

def overwritten (buffer : List (BitVec 8)) (size_written : BitVec 64) : List (BitVec 8) :=
  buffer.take size_written.toNat ++ d.dest.drop size_written.toNat

/-- The buffer is an address, and zero is the null pointer. -/
def CopyFileImpl (copy_buffer copy_size : BitVec 64) : CopyOutcome :=
  if copy_buffer = 0 ∨ copy_size = 0 then ⟨.NullOutBuffer, d.dest, [], []⟩
  else
    let src_result := d.open_source.result
    let src_closed := d.open_source.close .source
    if src_result ≠ .Success then ⟨src_result, d.dest, [src_result], src_closed⟩
    else
      let dst_result := d.open_dest.result
      let closed := d.open_dest.close .dest ++ src_closed
      if dst_result ≠ .Success then ⟨dst_result, d.dest, [src_result, dst_result], closed⟩
      else
        let read := d.read copy_size 0
        let buffer := d.source.take read.size_read.toNat
        if read.result ≠ .Success then
          ⟨read.result, d.dest, [src_result, dst_result, read.result], closed⟩
        else
          let write := d.write read.size_read 0
          let dest := d.overwritten buffer write.size_read
          let calls := [src_result, dst_result, read.result, write.result]
          if write.result ≠ .Success then ⟨write.result, dest, calls, closed⟩
          else ⟨.Success, dest, calls, closed⟩

structure Answers : Prop where
  read_le : ∀ size, (d.read size 0).size_read ≤ size
  read_inside : ∀ size, (d.read size 0).size_read.toNat ≤ d.source.length
  write_le : ∀ size, (d.write size 0).size_read ≤ size

/-- The copy comes to the first error, or else to a destination that is as the source. -/
structure Right (outcome : CopyOutcome) : Prop where
  first : outcome.result = firstError outcome.calls
  copied : outcome.result = .Success → outcome.dest = d.source

def copyRead (copy_size : BitVec 64) : ReadAnswer := d.read copy_size 0

def copyWrite (copy_size : BitVec 64) : ReadAnswer := d.write (d.copyRead copy_size).size_read 0

def Fails (copy_size : BitVec 64) : Prop :=
  d.open_source.result ≠ .Success ∨ d.open_dest.result ≠ .Success ∨
    (d.copyRead copy_size).result ≠ .Success ∨ (d.copyWrite copy_size).result ≠ .Success

/-- What is behind the bytes that are written is in the destination as it is in the source. -/
def RestAgrees (copy_size : BitVec 64) : Prop :=
  d.dest.drop (d.copyWrite copy_size).size_read.toNat =
    d.source.drop (d.copyWrite copy_size).size_read.toNat

variable {d} {copy_buffer copy_size : BitVec 64}

theorem overwritten_eq_iff (hd : d.Answers) (size : BitVec 64) :
    let read := d.read size 0
    let write := d.write read.size_read 0
    d.overwritten (d.source.take read.size_read.toNat) write.size_read = d.source ↔
      d.dest.drop write.size_read.toNat = d.source.drop write.size_read.toNat := by
  intro read write
  have hle : write.size_read.toNat ≤ read.size_read.toNat :=
    BitVec.le_def.mp (hd.write_le read.size_read)
  have hsource : d.source.take write.size_read.toNat ++ d.source.drop write.size_read.toNat =
      d.source := List.take_append_drop _ _
  unfold overwritten
  rw [List.take_take, Nat.min_eq_left hle]
  constructor
  · intro heq
    exact List.append_cancel_left (heq.trans hsource.symm)
  · intro heq
    rw [heq, hsource]

theorem copy_first (hbuffer : copy_buffer ≠ 0) (hsize : copy_size ≠ 0) :
    (d.CopyFileImpl copy_buffer copy_size).result =
      firstError (d.CopyFileImpl copy_buffer copy_size).calls := by
  unfold CopyFileImpl
  rw [if_neg (not_or.mpr ⟨hbuffer, hsize⟩)]
  dsimp only
  split_ifs with hsrc hdst hread hwrite
  · rw [firstError_error hsrc]
  · rw [firstError_success hsrc, firstError_error hdst]
  · rw [firstError_success hsrc, firstError_success hdst, firstError_error hread]
  · rw [firstError_success hsrc, firstError_success hdst, firstError_success hread,
      firstError_error hwrite]
  · rw [firstError_success hsrc, firstError_success hdst, firstError_success hread,
      firstError_success hwrite]
    rfl

theorem copy_of_fails (hbuffer : copy_buffer ≠ 0) (hsize : copy_size ≠ 0)
    (hfails : d.Fails copy_size) : (d.CopyFileImpl copy_buffer copy_size).result ≠ .Success := by
  unfold CopyFileImpl
  rw [if_neg (not_or.mpr ⟨hbuffer, hsize⟩)]
  dsimp only
  split_ifs with hsrc hdst hread hwrite
  · exact hsrc
  · exact hdst
  · exact hread
  · exact hwrite
  · obtain h | h | h | h := hfails
    · exact absurd h hsrc
    · exact absurd h hdst
    · exact absurd h hread
    · exact absurd h hwrite

theorem copy_of_not_fails (hbuffer : copy_buffer ≠ 0) (hsize : copy_size ≠ 0)
    (hfails : ¬ d.Fails copy_size) :
    (d.CopyFileImpl copy_buffer copy_size).result = .Success ∧
      (d.CopyFileImpl copy_buffer copy_size).dest =
        d.overwritten (d.source.take (d.copyRead copy_size).size_read.toNat)
          (d.copyWrite copy_size).size_read := by
  obtain ⟨hsrc, hrest⟩ := not_or.mp hfails
  obtain ⟨hdst, hrest⟩ := not_or.mp hrest
  obtain ⟨hread, hwrite⟩ := not_or.mp hrest
  unfold copyWrite copyRead at hwrite
  unfold copyRead at hread
  unfold CopyFileImpl
  rw [if_neg (not_or.mpr ⟨hbuffer, hsize⟩)]
  dsimp only
  rw [if_neg hsrc, if_neg hdst, if_neg hread, if_neg hwrite]
  exact ⟨rfl, rfl⟩

theorem copy_closed (hbuffer : copy_buffer ≠ 0) (hsize : copy_size ≠ 0) :
    (d.CopyFileImpl copy_buffer copy_size).closed =
      if d.open_source.result ≠ .Success then d.open_source.close .source
      else d.open_dest.close .dest ++ d.open_source.close .source := by
  unfold CopyFileImpl
  rw [if_neg (not_or.mpr ⟨hbuffer, hsize⟩)]
  dsimp only
  split_ifs <;> rfl

theorem copy_to_system [DecidableEq D] {os : SystemFile} {dst_handle : FileHandle D}
    (hbuffer : copy_buffer ≠ 0) (hsize : copy_size ≠ 0)
    (hwrite : ∀ size, ∃ fuel t,
      os.WriteFileImpl (some dst_handle) copy_buffer size 0 fuel = some t ∧
        (d.write size 0).result = t.result) :
    (d.CopyFileImpl copy_buffer copy_size).result ≠ .Success := by
  apply copy_of_fails hbuffer hsize
  obtain ⟨fuel, t, hruns, hresult⟩ := hwrite (d.copyRead copy_size).size_read
  obtain ⟨result, hne, hrefused⟩ := TransferCall.writeFileImpl_start os (some dst_handle)
    copy_buffer (d.copyRead copy_size).size_read
  rw [hrefused] at hruns
  obtain rfl := Option.some.inj hruns
  refine .inr (.inr (.inr ?_))
  change (d.write _ 0).result ≠ _
  rw [hresult]
  exact hne

end CopyDevice

/-- A copy is right where a call fails, or nothing is left behind the one write. -/
theorem copyFileImpl_right_iff {D : Type*} {d : CopyDevice D} (hd : d.Answers)
    {copy_buffer copy_size : BitVec 64} (hbuffer : copy_buffer ≠ 0) (hsize : copy_size ≠ 0) :
    CopyDevice.Right d (d.CopyFileImpl copy_buffer copy_size) ↔
      d.Fails copy_size ∨ d.RestAgrees copy_size := by
  have hfirst : (d.CopyFileImpl copy_buffer copy_size).result = firstError _ :=
    CopyDevice.copy_first hbuffer hsize
  by_cases hfails : d.Fails copy_size
  · have herror := CopyDevice.copy_of_fails hbuffer hsize hfails
    exact iff_of_true ⟨hfirst, fun h => absurd h herror⟩ (.inl hfails)
  · obtain ⟨hresult, hdest⟩ := CopyDevice.copy_of_not_fails hbuffer hsize hfails
    have hrest := CopyDevice.overwritten_eq_iff hd copy_size
    constructor
    · intro hright
      exact .inr (hrest.mp (hdest.symm.trans (hright.copied hresult)))
    · rintro (h | hagrees)
      · exact absurd h hfails
      · exact ⟨hfirst, fun _ => hdest.trans (hrest.mpr hagrees)⟩

section Cases

def fullDevice (source dest : List (BitVec 8)) : CopyDevice ℕ where
  source := source
  dest := dest
  open_source := ⟨.Success, none⟩
  open_dest := ⟨.Success, none⟩
  read size _ := ⟨.Success, if size.toNat ≤ source.length then size else .ofNat 64 source.length⟩
  write size _ := ⟨.Success, size⟩

theorem fullDevice_answers (source dest : List (BitVec 8)) : (fullDevice source dest).Answers := by
  have hread : ∀ size : BitVec 64, ((fullDevice source dest).read size 0).size_read.toNat =
      min size.toNat source.length := by
    intro size
    have hlt := size.isLt
    change (if size.toNat ≤ source.length then size
      else .ofNat 64 source.length : BitVec 64).toNat = _
    split_ifs with hle
    · rw [Nat.min_eq_left hle]
    · rw [BitVec.toNat_ofNat, Nat.mod_eq_of_lt (by omega)]
      omega
  refine ⟨fun size => ?_, fun size => ?_, fun size => BitVec.le_refl size⟩
  · rw [BitVec.le_def, hread]
    exact Nat.min_le_left _ _
  · rw [hread]
    exact Nat.min_le_right _ _

theorem copyFileImpl_right_iff_fits :
    CopyDevice.Right (fullDevice [1, 2] []) ((fullDevice [1, 2] []).CopyFileImpl 8 2) :=
  (copyFileImpl_right_iff (fullDevice_answers _ _) (by decide) (by decide)).mpr (.inr rfl)

theorem oneByte_not_right :
    ¬ CopyDevice.Right (fullDevice [1, 2] []) ((fullDevice [1, 2] []).CopyFileImpl 8 1) := by
  intro hright
  have hcopied := hright.copied rfl
  revert hcopied
  decide

end Cases

end Awn.FileDevice
