import Awn.Calls.Throughout
import Awn.FileDevice.Load

/-!
`awn::res::ArchiveFileDevice`, over the virtual functions of an archive resource and the memory that
its files lie in: a handle that is opened, read and closed.
-/

namespace Awn.FileDevice

open Memory

abbrev Path : Type := List (BitVec 8)

def cInvalidEntryIndex : BitVec 32 := 0xffffffff

namespace OpenMode

def Read : BitVec 32 := 0x80000000

def Write : BitVec 32 := 0x40000000

def has (open_mode flag : BitVec 32) : Bool := open_mode &&& flag = flag

end OpenMode

structure DirectoryEntry where
  archive_entry_index : BitVec 32
  file_path : Path
  deriving DecidableEq

structure ArchiveResource where
  TryGetEntryIndex : Path → BitVec 32
  TryGetFileByIndex : BitVec 32 → Option (BitVec 64 × BitVec 32)
  TryReadDirectoryEntryByIndex : BitVec 32 → Option DirectoryEntry
  GetFileCount : BitVec 32

/-- The handle is an address, and zero is the null pointer. -/
structure FileHandle (D : Type*) where
  handle : BitVec 64
  file_device : Option D
  archive_entry_index : BitVec 32
  open_mode : BitVec 32
  file_offset : BitVec 64
  file_size : BitVec 64

section Device

variable {D : Type*} [DecidableEq D] (device : D)

def ArchiveResource.OpenFileImpl (m_archive_resource : ArchiveResource)
    (out_file_handle : Option (FileHandle D)) (path : Option Path) (open_mode : BitVec 32) :
    Result × Option (FileHandle D) :=
  match out_file_handle, path with
  | none, _ => (.NullFileHandle, none)
  | some handle, none => (.NullPath, some handle)
  | some handle, some path =>
    if OpenMode.has open_mode OpenMode.Read = true then (.InvalidOpenMode, some handle)
    else
      let index := m_archive_resource.TryGetEntryIndex path
      let handle := { handle with archive_entry_index := index }
      if index = cInvalidEntryIndex then (.PathNotFound, some handle)
      else
        match m_archive_resource.TryGetFileByIndex index with
        | none => (.FailedToOpenFile, some handle)
        | some (file, file_size) =>
          (.Success, some { handle with handle := file, file_size := file_size.setWidth 64 })

def checkHandle : Option (FileHandle D) → Except Result (FileHandle D)
  | none => .error .NullFileHandle
  | some handle =>
    if handle.handle = 0 then .error .InvalidFileHandle
    else if handle.file_device = some device then .error .InvalidFileHandle
    else .ok handle

def CloseFileImpl (file_handle : Option (FileHandle D)) : Result × Option (FileHandle D) :=
  match checkHandle device file_handle with
  | .error result => (result, file_handle)
  | .ok handle =>
    (.Success, some { handle with handle := 0, archive_entry_index := cInvalidEntryIndex })

def ReadFileImpl (m : Bytes) (file_handle : Option (FileHandle D))
    (read_size file_offset : BitVec 64) : Result × Option (List (BitVec 8)) :=
  match checkHandle device file_handle with
  | .error result => (result, none)
  | .ok handle => (.Success, some (bytesAt m (handle.handle + file_offset).toNat read_size.toNat))

end Device

structure ArchiveFile where
  path : Path
  address : BitVec 64
  size : BitVec 32

namespace ArchiveFile

variable (m : Bytes) (file : ArchiveFile)

def contents : List (BitVec 8) := bytesAt m file.address.toNat file.size.toNat

def part (size offset : BitVec 64) : List (BitVec 8) :=
  ((file.contents m).drop offset.toNat).take size.toNat

end ArchiveFile

structure ArchiveResource.Serves (archive : ArchiveResource) (files : List ArchiveFile) : Prop where
  found : ∀ path index, archive.TryGetEntryIndex path = index → index ≠ cInvalidEntryIndex →
    ∃ file : ArchiveFile, files[index.toNat]? = some file ∧ file.path = path
  missed : ∀ file ∈ files, archive.TryGetEntryIndex file.path ≠ cInvalidEntryIndex
  file : ∀ (index : BitVec 32) (file : ArchiveFile), files[index.toNat]? = some file →
    archive.TryGetFileByIndex index = some (file.address, file.size)
  addresses : ∀ file ∈ files, file.address ≠ 0 ∧
    file.address.toNat + file.size.toNat < 2 ^ 64

inductive HandleCall
  | OpenFile (path : Path) (open_mode : BitVec 32)
  | ReadFile (read_size file_offset : BitVec 64)
  | CloseFile

namespace FileHandle

section Calls

variable {D : Type*} [DecidableEq D] (archive : ArchiveResource) (m : Bytes)
  (files : List ArchiveFile) (device : D) (handle : FileHandle D)

def step : FileHandle D → HandleCall → FileHandle D
  | handle, .OpenFile path open_mode =>
    (archive.OpenFileImpl (some handle) (some path) open_mode).2.getD handle
  | handle, .ReadFile _ _ => handle
  | handle, .CloseFile => (CloseFileImpl device (some handle)).2.getD handle

def Foreign : Prop := ∃ d, handle.file_device = some d ∧ d ≠ device

def OpenOn (file : ArchiveFile) : Prop :=
  handle.handle = file.address ∧ handle.file_size = file.size.setWidth 64

def Right : HandleCall → Prop
  | .OpenFile path open_mode =>
    let result := (archive.OpenFileImpl (some handle) (some path) open_mode).1
    (OpenMode.has open_mode OpenMode.Read = true → OpenMode.has open_mode OpenMode.Write = false →
        (result = .Success ↔ ∃ file ∈ files, file.path = path)) ∧
      (OpenMode.has open_mode OpenMode.Write = true → result ≠ .Success)
  | .ReadFile read_size file_offset =>
    let outcome := ReadFileImpl device m (some handle) read_size file_offset
    (handle.Foreign device → outcome.1 ≠ .Success ∧ outcome.2 = none) ∧
      ∀ file ∈ files, ¬ handle.Foreign device → handle.OpenOn file →
        outcome = (.Success, some (file.part m read_size file_offset))
  | .CloseFile =>
    let outcome := CloseFileImpl device (some handle)
    (handle.Foreign device → outcome.1 ≠ .Success ∧ outcome.2 = some handle) ∧
      ∀ file ∈ files, ¬ handle.Foreign device → handle.OpenOn file → outcome.1 = .Success

def Fits : HandleCall → Prop
  | .OpenFile path open_mode => (∀ file ∈ files, file.path ≠ path) ∨
    OpenMode.has open_mode OpenMode.Read = OpenMode.has open_mode OpenMode.Write
  | .ReadFile read_size file_offset => handle.handle = 0 ∨ handle.file_device = none ∧
    (read_size = 0 ∨ file_offset.toNat + read_size.toNat ≤ handle.file_size.toNat)
  | .CloseFile => handle.handle = 0 ∨ handle.file_device = none

/-- A handle of the device, or of none, is closed or open on a file of the archive. -/
def Kept : Prop := ¬ handle.Foreign device → handle.handle = 0 ∨ ∃ file ∈ files, handle.OpenOn file

end Calls

section Handles

variable {D : Type*} {archive : ArchiveResource} {m : Bytes} {files : List ArchiveFile} {device : D}
  {handle : FileHandle D}

theorem not_foreign_of_none (h : handle.file_device = none) : ¬ handle.Foreign device := by
  rintro ⟨d, hd, -⟩
  rw [h] at hd
  cases hd

theorem not_foreign_of_some (h : handle.file_device = some device) : ¬ handle.Foreign device := by
  rintro ⟨d, hd, hne⟩
  rw [h] at hd
  exact hne (Option.some.inj hd).symm

theorem Foreign.ne (h : handle.Foreign device) : handle.file_device ≠ some device :=
  fun hown => not_foreign_of_some hown h

theorem OpenOn.ne_zero (hserves : archive.Serves files) {file : ArchiveFile} (hfile : file ∈ files)
    (h : handle.OpenOn file) : handle.handle ≠ 0 := by
  rw [h.1]
  exact (hserves.addresses file hfile).1

theorem OpenOn.part_eq_iff (hserves : archive.Serves files) {file : ArchiveFile}
    (hfile : file ∈ files) (h : handle.OpenOn file) (read_size file_offset : BitVec 64) :
    bytesAt m (handle.handle + file_offset).toNat read_size.toNat =
        file.part m read_size file_offset ↔
      read_size = 0 ∨ file_offset.toNat + read_size.toNat ≤ handle.file_size.toNat := by
  obtain ⟨hhandle, hsize⟩ := h
  have hfits := (hserves.addresses file hfile).2
  have hlength : (file.contents m).length = file.size.toNat := bytesAt_length _ _ _
  rw [hhandle, hsize, widen_toNat]
  constructor
  · intro heq
    have hsame := congrArg List.length heq
    rw [bytesAt_length, ArchiveFile.part, List.length_take, List.length_drop, hlength] at hsame
    obtain hle | hgt := Nat.lt_or_ge file.size.toNat (file_offset.toNat + read_size.toNat)
    · exact .inl (BitVec.eq_of_toNat_eq (by change _ = 0; omega))
    · exact .inr hgt
  · rintro (rfl | hle)
    · rw [ArchiveFile.part]
      exact (List.take_zero).symm
    · obtain ⟨rest, hrest⟩ := Nat.exists_eq_add_of_le hle
      have haddress : (file.address + file_offset).toNat =
          file.address.toNat + file_offset.toNat := by
        rw [BitVec.toNat_add, Nat.mod_eq_of_lt (by omega)]
      rw [ArchiveFile.part, ArchiveFile.contents, haddress, hrest, Nat.add_assoc, bytesAt_add,
        List.drop_left' (bytesAt_length _ _ _), bytesAt_add,
        List.take_left' (bytesAt_length _ _ _)]

theorem not_openOn_of_null (hserves : archive.Serves files) {file : ArchiveFile}
    (hfile : file ∈ files) (hnull : handle.handle = 0) : ¬ handle.OpenOn file :=
  fun h => h.ne_zero hserves hfile hnull

theorem open_present (hserves : archive.Serves files) {file : ArchiveFile} (hfile : file ∈ files)
    {open_mode : BitVec 32} (hread : OpenMode.has open_mode OpenMode.Read = false) :
    (archive.OpenFileImpl (some handle) (some file.path) open_mode).1 = .Success := by
  have hindex := hserves.missed file hfile
  obtain ⟨file', hfile', -⟩ := hserves.found file.path _ rfl hindex
  unfold ArchiveResource.OpenFileImpl
  dsimp only
  rw [if_neg (by simp [hread]), if_neg hindex, hserves.file _ _ hfile']

theorem open_absent (hserves : archive.Serves files) {path : Path}
    (hpath : ∀ file ∈ files, file.path ≠ path) (handle : FileHandle D) (open_mode : BitVec 32) :
    (archive.OpenFileImpl (some handle) (some path) open_mode).1 ≠ .Success := by
  have hindex : archive.TryGetEntryIndex path = cInvalidEntryIndex := by
    by_contra hne
    obtain ⟨file, hfile, hsame⟩ := hserves.found path _ rfl hne
    exact hpath file (List.mem_of_getElem? hfile) hsame
  unfold ArchiveResource.OpenFileImpl
  dsimp only
  rw [if_pos hindex]
  split_ifs <;> nofun

theorem open_read {open_mode : BitVec 32} (hread : OpenMode.has open_mode OpenMode.Read = true)
    (path : Path) :
    (archive.OpenFileImpl (some handle) (some path) open_mode).1 = .InvalidOpenMode := by
  unfold ArchiveResource.OpenFileImpl
  dsimp only
  rw [if_pos hread]

end Handles

variable {D : Type*} [DecidableEq D] {archive : ArchiveResource} {m : Bytes}
  {files : List ArchiveFile} {device : D} {handle : FileHandle D}

theorem device_cases (device : D) (handle : FileHandle D) : handle.file_device = none ∨
    handle.file_device = some device ∨ handle.Foreign device := by
  cases hdevice : handle.file_device with
  | none => exact .inl rfl
  | some d =>
    by_cases heq : d = device
    · exact .inr (.inl (by rw [heq]))
    · exact .inr (.inr ⟨d, hdevice, heq⟩)

theorem checkHandle_null (h : handle.handle = 0) :
    checkHandle device (some handle) = .error .InvalidFileHandle := if_pos h

theorem checkHandle_own (h : handle.file_device = some device) :
    checkHandle device (some handle) = .error .InvalidFileHandle := by
  unfold checkHandle
  dsimp only
  split_ifs <;> rfl

theorem checkHandle_other (hhandle : handle.handle ≠ 0) (h : handle.file_device ≠ some device) :
    checkHandle device (some handle) = .ok handle := by
  unfold checkHandle
  dsimp only
  rw [if_neg hhandle, if_neg h]

theorem checkHandle_cases (hkept : handle.Kept files device) (hnull : handle.handle ≠ 0) :
    (handle.file_device = none ∧ checkHandle device (some handle) = .ok handle ∧
        ∃ file ∈ files, handle.OpenOn file) ∨
      (handle.file_device = some device ∧
        checkHandle device (some handle) = .error .InvalidFileHandle ∧
        ∃ file ∈ files, handle.OpenOn file) ∨
      handle.Foreign device ∧ checkHandle device (some handle) = .ok handle := by
  have hopen : ¬ handle.Foreign device → ∃ file ∈ files, handle.OpenOn file :=
    fun hforeign => (hkept hforeign).resolve_left hnull
  obtain hnone | hown | hforeign := device_cases device handle
  · have hother : handle.file_device ≠ some device := by rw [hnone]; nofun
    exact .inl ⟨hnone, checkHandle_other hnull hother, hopen (not_foreign_of_none hnone)⟩
  · exact .inr (.inl ⟨hown, checkHandle_own hown, hopen (not_foreign_of_some hown)⟩)
  · exact .inr (.inr ⟨hforeign, checkHandle_other hnull hforeign.ne⟩)

theorem right_read_iff (hserves : archive.Serves files) (hkept : handle.Kept files device)
    (read_size file_offset : BitVec 64) :
    handle.Right archive m files device (.ReadFile read_size file_offset) ↔
      handle.Fits files (.ReadFile read_size file_offset) := by
  unfold Right Fits ReadFileImpl
  by_cases hnull : handle.handle = 0
  · rw [checkHandle_null hnull]
    refine iff_of_true ⟨fun _ => ⟨nofun, rfl⟩, fun file hfile _ hopen => ?_⟩ (.inl hnull)
    exact absurd hopen (not_openOn_of_null hserves hfile hnull)
  · obtain ⟨hnone, hcheck, file, hfile, hopen⟩ | ⟨hown, hcheck, file, hfile, hopen⟩ |
      ⟨hforeign, hcheck⟩ := checkHandle_cases hkept hnull
    · rw [hcheck]
      dsimp only
      have hpart := hopen.part_eq_iff (m := m) hserves hfile read_size file_offset
      constructor
      · rintro ⟨-, hright⟩
        have heq := hright file hfile (not_foreign_of_none hnone) hopen
        exact .inr ⟨hnone, hpart.mp (Option.some.inj (Prod.mk.inj heq).2)⟩
      · rintro (hzero | ⟨-, hfits⟩)
        · exact absurd hzero hnull
        · refine ⟨fun hforeign => absurd hforeign (not_foreign_of_none hnone), ?_⟩
          intro file' hfile' _ hopen'
          rw [(hopen'.part_eq_iff (m := m) hserves hfile' read_size file_offset).mpr hfits]
    · rw [hcheck]
      refine iff_of_false ?_ ?_
      · rintro ⟨-, hright⟩
        exact absurd (hright file hfile (not_foreign_of_some hown) hopen) nofun
      · rintro (hzero | ⟨hnone, -⟩)
        · exact hnull hzero
        · exact absurd (hown.symm.trans hnone) nofun
    · rw [hcheck]
      refine iff_of_false ?_ ?_
      · rintro ⟨hrefuses, -⟩
        exact (hrefuses hforeign).1 rfl
      · rintro (hzero | ⟨hnone, -⟩)
        · exact hnull hzero
        · exact not_foreign_of_none hnone hforeign

theorem right_close_iff (hserves : archive.Serves files) (hkept : handle.Kept files device) :
    handle.Right archive m files device .CloseFile ↔
      handle.Fits files .CloseFile := by
  unfold Right Fits CloseFileImpl
  by_cases hnull : handle.handle = 0
  · rw [checkHandle_null hnull]
    refine iff_of_true ⟨fun _ => ⟨nofun, rfl⟩, fun file hfile _ hopen => ?_⟩ (.inl hnull)
    exact absurd hopen (not_openOn_of_null hserves hfile hnull)
  · obtain ⟨hnone, hcheck, -⟩ | ⟨hown, hcheck, file, hfile, hopen⟩ | ⟨hforeign, hcheck⟩ :=
      checkHandle_cases hkept hnull
    · rw [hcheck]
      exact iff_of_true ⟨fun hforeign => absurd hforeign (not_foreign_of_none hnone),
        fun _ _ _ _ => rfl⟩ (.inr hnone)
    · rw [hcheck]
      refine iff_of_false ?_ ?_
      · rintro ⟨-, hright⟩
        exact absurd (hright file hfile (not_foreign_of_some hown) hopen) nofun
      · rintro (hzero | hnone)
        · exact hnull hzero
        · exact absurd (hown.symm.trans hnone) nofun
    · rw [hcheck]
      refine iff_of_false ?_ ?_
      · rintro ⟨hrefuses, -⟩
        exact (hrefuses hforeign).1 rfl
      · rintro (hzero | hnone)
        · exact hnull hzero
        · exact not_foreign_of_none hnone hforeign

theorem right_open_iff (hserves : archive.Serves files) (path : Path) (open_mode : BitVec 32) :
    handle.Right archive m files device (.OpenFile path open_mode) ↔
      handle.Fits files (.OpenFile path open_mode) := by
  unfold Right Fits
  dsimp only
  by_cases hpresent : ∃ file ∈ files, file.path = path
  · obtain ⟨file, hfile, rfl⟩ := hpresent
    have hnot : ¬ ∀ file' ∈ files, file'.path ≠ file.path := fun h => h file hfile rfl
    cases hread : OpenMode.has open_mode OpenMode.Read with
    | true =>
      rw [open_read hread]
      cases hwrite : OpenMode.has open_mode OpenMode.Write with
      | true => exact iff_of_true ⟨nofun, nofun⟩ (.inr rfl)
      | false =>
        refine iff_of_false ?_ ?_
        · rintro ⟨hopens, -⟩
          exact absurd ((hopens rfl rfl).mpr ⟨file, hfile, rfl⟩) nofun
        · rintro (h | h)
          · exact hnot h
          · cases h
    | false =>
      rw [open_present hserves hfile hread]
      cases hwrite : OpenMode.has open_mode OpenMode.Write with
      | true =>
        refine iff_of_false ?_ ?_
        · rintro ⟨-, hrefuses⟩
          exact hrefuses rfl rfl
        · rintro (h | h)
          · exact hnot h
          · cases h
      | false => exact iff_of_true ⟨nofun, nofun⟩ (.inr rfl)
  · have habsent : ∀ file ∈ files, file.path ≠ path :=
      fun file hfile hsame => hpresent ⟨file, hfile, hsame⟩
    have hfails := open_absent hserves habsent handle open_mode
    exact iff_of_true ⟨fun _ _ => iff_of_false hfails hpresent, fun _ => hfails⟩ (.inl habsent)

theorem step_kept (hserves : archive.Serves files) (hkept : handle.Kept files device)
    (call : HandleCall) : (handle.step archive device call).Kept files device := by
  cases call with
  | OpenFile path open_mode =>
    unfold step ArchiveResource.OpenFileImpl
    dsimp only
    split_ifs with hread hindex
    · exact hkept
    · exact hkept
    · obtain ⟨file, hfile, -⟩ := hserves.found path _ rfl hindex
      rw [hserves.file _ _ hfile]
      exact fun _ => .inr ⟨file, List.mem_of_getElem? hfile, rfl, rfl⟩
  | ReadFile read_size file_offset => exact hkept
  | CloseFile =>
    change ((CloseFileImpl device (some handle)).2.getD handle).Kept files device
    unfold CloseFileImpl
    cases checkHandle device (some handle) with
    | error result => exact hkept
    | ok handle' => exact fun _ => .inl rfl

end FileHandle

/-- The calls on a handle are right where they name a path that is not there, or a mode that is
neither to read only nor to write only, and go to a handle without a device, inside its file. -/
theorem archiveFileDevice_right_iff {D : Type*} [DecidableEq D] {archive : ArchiveResource}
    (m : Bytes) {files : List ArchiveFile} (hserves : archive.Serves files) (device : D)
    {handle : FileHandle D} (hkept : handle.Kept files device) (calls : List HandleCall) :
    Calls.Throughout (FileHandle.step archive device) (fun _ => True)
        (FileHandle.Right archive m files device) handle calls ↔
      Calls.EachIn (FileHandle.step archive device) (FileHandle.Fits files) handle calls := by
  have hiff : ∀ (s : FileHandle D) (c : HandleCall), s.Kept files device →
      (s.Right archive m files device c ↔ s.Fits files c) := by
    intro s c hs
    cases c with
    | OpenFile path open_mode => exact FileHandle.right_open_iff hserves path open_mode
    | ReadFile read_size file_offset =>
      exact FileHandle.right_read_iff hserves hs read_size file_offset
    | CloseFile => exact FileHandle.right_close_iff hserves hs
  apply Calls.throughout_iff (U := fun _ _ => True) (fun _ _ => trivial) _ _ hkept
    Calls.eachIn_true
  · intro s c hs _ hfits
    exact ⟨(hiff s c hs).mpr hfits, FileHandle.step_kept hserves hs c⟩
  · intro s c hs _ hright _
    exact (hiff s c hs).mp hright

theorem ArchiveFile.part_append (m : Bytes) (file : ArchiveFile) {size size' offset : BitVec 64}
    (hsize : size.toNat + size'.toNat < 2 ^ 64) (hoffset : offset.toNat + size.toNat < 2 ^ 64) :
    file.part m size offset ++ file.part m size' (offset + size) =
      file.part m (size + size') offset := by
  unfold ArchiveFile.part
  rw [BitVec.toNat_add, BitVec.toNat_add, Nat.mod_eq_of_lt hsize, Nat.mod_eq_of_lt hoffset,
    List.take_add, List.drop_drop]

section Cases

def ArchiveResource.ofFiles (files : List ArchiveFile) : ArchiveResource where
  TryGetEntryIndex path :=
    match files.findIdx? (·.path = path) with
    | some index => BitVec.ofNat 32 index
    | none => cInvalidEntryIndex
  TryGetFileByIndex index := files[index.toNat]?.map fun file => (file.address, file.size)
  TryReadDirectoryEntryByIndex index := files[index.toNat]?.map fun file => ⟨index, file.path⟩
  GetFileCount := BitVec.ofNat 32 files.length

theorem ArchiveResource.ofFiles_serves {files : List ArchiveFile} (hlength : files.length < 2 ^ 32)
    (haddresses : ∀ file ∈ files, file.address ≠ 0 ∧
      file.address.toNat + file.size.toNat < 2 ^ 64) : (ofFiles files).Serves files where
  found path index hindex hne := by
    unfold ofFiles at hindex
    dsimp only at hindex
    cases hfind : files.findIdx? (·.path = path) with
    | none =>
      rw [hfind] at hindex
      exact absurd hindex.symm hne
    | some i =>
      rw [hfind] at hindex
      obtain ⟨hi, hpath, -⟩ := List.findIdx?_eq_some_iff_getElem.mp hfind
      have htoNat : index.toNat = i := by
        rw [← hindex, BitVec.toNat_ofNat, Nat.mod_eq_of_lt (hi.trans hlength)]
      rw [htoNat]
      exact ⟨files[i], List.getElem?_eq_getElem hi, by simpa using hpath⟩
  missed file hfile hnone := by
    unfold ofFiles at hnone
    dsimp only at hnone
    cases hfind : files.findIdx? (·.path = file.path) with
    | none => simpa using List.findIdx?_eq_none_iff.mp hfind file hfile
    | some i =>
      rw [hfind] at hnone
      obtain ⟨hi, -⟩ := List.findIdx?_eq_some_iff_getElem.mp hfind
      have htoNat := congrArg BitVec.toNat hnone
      rw [BitVec.toNat_ofNat, Nat.mod_eq_of_lt (hi.trans hlength)] at htoNat
      change i = 2 ^ 32 - 1 at htoNat
      omega
  file index file h := by
    change files[index.toNat]?.map _ = _
    rw [h, Option.map_some]
  addresses := haddresses

def fourBytes : ArchiveFile := ⟨[0x61], 0x10, 4⟩

theorem fourBytes_serves : (ArchiveResource.ofFiles [fourBytes]).Serves [fourBytes] := by
  apply ArchiveResource.ofFiles_serves (by decide)
  intro file hfile
  obtain rfl := List.mem_singleton.mp hfile
  decide

def closedHandle : FileHandle ℕ := ⟨0, none, 0, 0, 0, 0⟩

theorem closedHandle_kept (files : List ArchiveFile) : closedHandle.Kept files 0 :=
  fun _ => .inl rfl

theorem archiveFileDevice_right_iff_read :
    Calls.Throughout (FileHandle.step (.ofFiles [fourBytes]) 0) (fun _ => True)
      (FileHandle.Right (.ofFiles [fourBytes]) (fun _ => 7) [fourBytes] 0) closedHandle
      [.OpenFile [0x61] 0, .ReadFile 2 0, .ReadFile 2 2, .CloseFile] := by
  apply (archiveFileDevice_right_iff _ fourBytes_serves 0 (closedHandle_kept _) _).mpr
  exact ⟨trivial, .inr rfl, trivial, .inr ⟨rfl, .inr (by decide)⟩, trivial,
    .inr ⟨rfl, .inr (by decide)⟩, trivial, .inr rfl, trivial⟩

theorem openRead_not_right :
    ¬ Calls.Throughout (FileHandle.step (.ofFiles [fourBytes]) 0) (fun _ => True)
      (FileHandle.Right (.ofFiles [fourBytes]) (fun _ => 7) [fourBytes] 0) closedHandle
      [.OpenFile [0x61] OpenMode.Read] := by
  rintro ⟨-, ⟨hopens, -⟩, -⟩
  have hopen := (hopens rfl rfl).mpr ⟨fourBytes, List.mem_singleton_self _, rfl⟩
  revert hopen
  decide

end Cases

end Awn.FileDevice
