import Awn.FileDevice.Archive

/-!
`awn::res::ArchiveFileDevice`: a directory handle that is opened and read a page at a time.
-/

namespace Awn.FileDevice

/-- A search handle is a number, and `none` is `INVALID_HANDLE_VALUE`. -/
structure DirectoryHandle where
  entry_index : BitVec 32
  directory_depth : BitVec 32
  search_handle_array : ℕ → Option ℕ
  directory_path_array : ℕ → Path

structure DirectoryRead where
  result : Result
  entries : List DirectoryEntry

def DirectoryRead.behind (r : DirectoryRead) (entry : DirectoryEntry) : DirectoryRead :=
  { r with entries := entry :: r.entries }

def OpenDirectoryImpl (out_directory_handle : Option DirectoryHandle) (path : Option Path) :
    Result × Option DirectoryHandle :=
  match path, out_directory_handle with
  | none, handle => (.NullPath, handle)
  | some _, none => (.NullDirectoryHandle, none)
  | some path, some handle =>
    let character := path.headD 0
    if character ≠ 0 ∧ character ≠ 0x2f then (.DirectoryNotFound, some handle)
    else (.Success, some { handle with entry_index := 0 })

namespace ArchiveResource

variable (archive : ArchiveResource)

def readEntries : ℕ → BitVec 32 → DirectoryRead
  | 0, iter_index =>
    ⟨if iter_index = archive.GetFileCount then .DirectoryExhausted else .Success, []⟩
  | left + 1, iter_index =>
    match archive.TryReadDirectoryEntryByIndex iter_index with
    | none => ⟨.DirectoryExhausted, []⟩
    | some entry => (readEntries left (iter_index + 1)).behind entry

def ReadDirectoryImpl (directory_handle : Option DirectoryHandle) (entry_count : BitVec 32) :
    DirectoryRead × Option DirectoryHandle :=
  match directory_handle with
  | none => (⟨.NullDirectoryHandle, []⟩, none)
  | some handle =>
    let file_count := archive.GetFileCount
    let end_offset := handle.entry_index + entry_count
    let end_offset := if file_count ≤ end_offset then file_count else end_offset
    (archive.readEntries (end_offset.toNat - handle.entry_index.toNat) handle.entry_index,
      some handle)

structure Lists (files : List ArchiveFile) : Prop where
  count : archive.GetFileCount.toNat = files.length
  entry : ∀ (index : BitVec 32) (file : ArchiveFile), files[index.toNat]? = some file →
    archive.TryReadDirectoryEntryByIndex index = some ⟨index, file.path⟩

def Delivers (all : List DirectoryEntry) : ℕ → Option DirectoryHandle → List (BitVec 32) → Prop
  | _, _, [] => True
  | position, handle, entry_count :: pages =>
    let outcome := archive.ReadDirectoryImpl handle entry_count
    let position' := position + entry_count.toNat
    outcome.1.entries = (all.drop position).take entry_count.toNat ∧
      (outcome.1.result = .DirectoryExhausted ↔ all.length ≤ position') ∧
      (outcome.1.result = .Success ↔ position' < all.length) ∧
      Delivers all position' outcome.2 pages

def reads : Option DirectoryHandle → List (BitVec 32) → List DirectoryRead
  | _, [] => []
  | handle, entry_count :: pages =>
    let outcome := archive.ReadDirectoryImpl handle entry_count
    outcome.1 :: reads outcome.2 pages

variable {archive} {all : List DirectoryEntry} {position : ℕ} {handle : Option DirectoryHandle}
  {pages : List (BitVec 32)}

theorem Delivers.entries (h : archive.Delivers all position handle pages) :
    (archive.reads handle pages).flatMap (·.entries) =
      (all.drop position).take (pages.map (·.toNat)).sum := by
  induction pages generalizing position handle with
  | nil => rfl
  | cons entry_count pages ih =>
    obtain ⟨hentries, -, -, hrest⟩ := h
    unfold reads
    rw [List.flatMap_cons, hentries, ih hrest, List.map_cons, List.sum_cons, List.take_add,
      List.drop_drop]

theorem Delivers.exhausted (h : archive.Delivers all position handle pages) (hpages : pages ≠ [])
    (hsum : all.length ≤ position + (pages.map (·.toNat)).sum) :
    ∃ read ∈ archive.reads handle pages, read.result = .DirectoryExhausted := by
  induction pages generalizing position handle with
  | nil => exact absurd rfl hpages
  | cons entry_count pages ih =>
    obtain ⟨-, hexhausted, -, hrest⟩ := h
    rw [List.map_cons, List.sum_cons, ← Nat.add_assoc] at hsum
    by_cases hle : all.length ≤ position + entry_count.toNat
    · exact ⟨_, List.mem_cons_self, hexhausted.mpr hle⟩
    · have hmore : pages ≠ [] := by
        rintro rfl
        exact hle hsum
      obtain ⟨read, hread, hresult⟩ := ih hrest hmore hsum
      exact ⟨read, List.mem_cons_of_mem _ hread, hresult⟩

end ArchiveResource

def directoryEntries (files : List ArchiveFile) : List DirectoryEntry :=
  files.mapIdx fun i file => ⟨BitVec.ofNat 32 i, file.path⟩

section Pages

variable {archive : ArchiveResource} {files : List ArchiveFile}

theorem directoryEntries_length : (directoryEntries files).length = files.length :=
  List.length_mapIdx

theorem directoryEntries_getElem? (i : ℕ) : (directoryEntries files)[i]? =
    files[i]?.map fun file => ⟨BitVec.ofNat 32 i, file.path⟩ :=
  List.getElem?_mapIdx

theorem openDirectory_entry_index {handle handle' : DirectoryHandle} {path : Path}
    (h : OpenDirectoryImpl (some handle) (some path) = (.Success, some handle')) :
    handle'.entry_index = 0 := by
  unfold OpenDirectoryImpl at h
  dsimp only at h
  split_ifs at h
  · cases (Prod.mk.inj h).1
  · obtain rfl := Option.some.inj (Prod.mk.inj h).2
    rfl

theorem readEntries_eq (hlists : archive.Lists files) {left : ℕ} {iter_index : BitVec 32}
    (hleft : iter_index.toNat + left ≤ files.length) : archive.readEntries left iter_index =
      ⟨if iter_index.toNat + left = files.length then .DirectoryExhausted else .Success,
        ((directoryEntries files).drop iter_index.toNat).take left⟩ := by
  induction left generalizing iter_index with
  | zero =>
    have hend : iter_index = archive.GetFileCount ↔ iter_index.toNat + 0 = files.length := by
      rw [← hlists.count, Nat.add_zero]
      exact BitVec.toNat_inj.symm
    unfold ArchiveResource.readEntries
    simp only [hend, List.take_zero]
  | succ left ih =>
    have hindex : iter_index.toNat < files.length := by omega
    have hnext : (iter_index + 1).toNat = iter_index.toNat + 1 := by
      have hcount := hlists.count
      have hlt := archive.GetFileCount.isLt
      rw [BitVec.toNat_add, Nat.mod_eq_of_lt]
      · rfl
      · change iter_index.toNat + 1 < 2 ^ 32
        omega
    have hdrop : (directoryEntries files).drop iter_index.toNat =
        ⟨iter_index, files[iter_index.toNat].path⟩ ::
          (directoryEntries files).drop (iter_index.toNat + 1) := by
      rw [List.drop_eq_getElem_cons (by rwa [directoryEntries_length])]
      unfold directoryEntries
      rw [List.getElem_mapIdx, BitVec.ofNat_toNat, BitVec.setWidth_eq]
    unfold ArchiveResource.readEntries
    rw [hlists.entry _ _ (List.getElem?_eq_getElem hindex)]
    dsimp only
    rw [ih (by omega), hnext, hdrop, List.take_succ_cons, Nat.add_right_comm, Nat.add_assoc]
    rfl

theorem readDirectory_eq (hlists : archive.Lists files) {handle : DirectoryHandle}
    (hindex : handle.entry_index = 0) (entry_count : BitVec 32) :
    archive.ReadDirectoryImpl (some handle) entry_count =
      (⟨if files.length ≤ entry_count.toNat then .DirectoryExhausted else .Success,
        (directoryEntries files).take entry_count.toNat⟩, some handle) := by
  have hcount : archive.GetFileCount ≤ entry_count ↔ files.length ≤ entry_count.toNat := by
    rw [← hlists.count, BitVec.le_def]
  have hend : (if archive.GetFileCount ≤ entry_count then archive.GetFileCount
      else entry_count).toNat = min files.length entry_count.toNat := by
    split_ifs with hle
    · rw [hlists.count, Nat.min_eq_left (hcount.mp hle)]
    · rw [Nat.min_eq_right (Nat.le_of_not_le fun h => hle (hcount.mpr h))]
  have hfull : min files.length entry_count.toNat = files.length ↔
      files.length ≤ entry_count.toNat := min_eq_left_iff
  have hadd : (0 : BitVec 32) + entry_count = entry_count := BitVec.zero_add _
  have htake : (directoryEntries files).take (min files.length entry_count.toNat) =
      (directoryEntries files).take entry_count.toNat := by
    rw [List.take_eq_take_iff, directoryEntries_length]
    omega
  unfold ArchiveResource.ReadDirectoryImpl
  dsimp only
  rw [hindex, hadd, hend]
  change (archive.readEntries (min files.length entry_count.toNat) 0, some handle) = _
  rw [readEntries_eq hlists (by change 0 + _ ≤ _; omega)]
  change (DirectoryRead.mk (if 0 + _ = _ then _ else _) _, some handle) = _
  simp only [Nat.zero_add, hfull]
  change (DirectoryRead.mk _ (List.take _ (directoryEntries files)), some handle) = _
  rw [htake]

theorem not_delivers_again (hlists : archive.Lists files) {handle : DirectoryHandle}
    (hindex : handle.entry_index = 0) {position : ℕ} (hposition : position ≠ 0)
    {entry_count : BitVec 32} (hcount : entry_count ≠ 0) {pages : List (BitVec 32)}
    (hfiles : files ≠ []) : ¬ archive.Delivers (directoryEntries files) position (some handle)
      (entry_count :: pages) := by
  rintro ⟨hentries, -⟩
  rw [readDirectory_eq hlists hindex] at hentries
  have hsome : 0 < entry_count.toNat :=
    Nat.pos_of_ne_zero fun hzero => hcount (BitVec.eq_of_toNat_eq hzero)
  have hlength : 0 < files.length := List.length_pos_of_ne_nil hfiles
  have hfirst := congrArg (·[0]?) hentries
  dsimp only at hfirst
  rw [List.getElem?_take_of_lt hsome, List.getElem?_take_of_lt hsome, List.getElem?_drop,
    directoryEntries_getElem?, directoryEntries_getElem?, Nat.add_zero,
    List.getElem?_eq_getElem hlength, Option.map_some] at hfirst
  obtain ⟨file, hfile, hsame⟩ := Option.map_eq_some_iff.mp hfirst.symm
  have hinside : position < files.length := (List.getElem?_eq_some_iff.mp hfile).1
  have hrange := hlists.count ▸ archive.GetFileCount.isLt
  have hzero := congrArg (fun entry => entry.archive_entry_index.toNat) hsame
  change position % 2 ^ 32 = 0 at hzero
  rw [Nat.mod_eq_of_lt (by omega)] at hzero
  exact hposition hzero

theorem delivers_nil (hlists : archive.Lists []) {handle : DirectoryHandle}
    (hindex : handle.entry_index = 0) (position : ℕ) (pages : List (BitVec 32)) :
    archive.Delivers (directoryEntries []) position (some handle) pages := by
  induction pages generalizing position with
  | nil => trivial
  | cons entry_count pages ih =>
    unfold ArchiveResource.Delivers
    rw [readDirectory_eq hlists hindex,
      if_pos (show ([] : List ArchiveFile).length ≤ entry_count.toNat from Nat.zero_le _)]
    refine ⟨?_, iff_of_true rfl (Nat.zero_le _), iff_of_false nofun (Nat.not_lt_zero _), ih _⟩
    change ([] : List DirectoryEntry).take _ = (([] : List DirectoryEntry).drop position).take _
    rw [List.drop_nil]

theorem delivers_first (hlists : archive.Lists files) {handle : DirectoryHandle}
    (hindex : handle.entry_index = 0) (entry_count : BitVec 32) :
    archive.Delivers (directoryEntries files) 0 (some handle) [entry_count] := by
  unfold ArchiveResource.Delivers
  rw [readDirectory_eq hlists hindex]
  dsimp only
  rw [Nat.zero_add, directoryEntries_length, List.drop_zero]
  refine ⟨rfl, ?_, ?_, trivial⟩
  · split_ifs with hle
    · exact iff_of_true rfl hle
    · exact iff_of_false nofun hle
  · split_ifs with hle
    · exact iff_of_false nofun (Nat.not_lt_of_le hle)
    · exact iff_of_true rfl (Nat.lt_of_not_le hle)

end Pages

/-- An opened handle delivers the directory in at most one call, or if there are no files. -/
theorem archiveDirectory_delivers_iff {archive : ArchiveResource} {files : List ArchiveFile}
    (hlists : archive.Lists files) {handle handle' : DirectoryHandle} {path : Path}
    (hopen : OpenDirectoryImpl (some handle) (some path) = (.Success, some handle'))
    {pages : List (BitVec 32)} (hpages : ∀ entry_count ∈ pages, entry_count ≠ 0) :
    archive.Delivers (directoryEntries files) 0 (some handle') pages ↔
      pages.length ≤ 1 ∨ files = [] := by
  have hindex := openDirectory_entry_index hopen
  constructor
  · intro hdelivers
    by_cases hfiles : files = []
    · exact .inr hfiles
    · match pages with
      | [] => exact .inl (Nat.zero_le 1)
      | [_] => exact .inl (Nat.le_refl 1)
      | first :: second :: pages =>
        have hfirst : first ≠ 0 := hpages _ List.mem_cons_self
        have hsecond : second ≠ 0 := hpages _ (List.mem_cons_of_mem _ List.mem_cons_self)
        have hrest := hdelivers.2.2.2
        rw [readDirectory_eq hlists hindex] at hrest
        have hposition : 0 + first.toNat ≠ 0 := by
          rw [Nat.zero_add]
          exact fun hzero => hfirst (BitVec.eq_of_toNat_eq hzero)
        exact absurd hrest (not_delivers_again hlists hindex hposition hsecond hfiles)
  · rintro (hlength | rfl)
    · match pages, hlength with
      | [], _ => trivial
      | [entry_count], _ => exact delivers_first hlists hindex entry_count
    · exact delivers_nil hlists hindex 0 pages

section Cases

theorem ArchiveResource.ofFiles_lists {files : List ArchiveFile}
    (hlength : files.length < 2 ^ 32) : (ofFiles files).Lists files where
  count := by
    change (BitVec.ofNat 32 files.length).toNat = files.length
    rw [BitVec.toNat_ofNat, Nat.mod_eq_of_lt hlength]
  entry index file h := by
    change files[index.toNat]?.map _ = _
    rw [h, Option.map_some]

def closedDirectory : DirectoryHandle := ⟨0, 0, fun _ => none, fun _ => []⟩

theorem closedDirectory_opens :
    OpenDirectoryImpl (some closedDirectory) (some []) = (.Success, some closedDirectory) := rfl

def twoFiles : List ArchiveFile := [⟨[0x61], 0x10, 4⟩, ⟨[0x62], 0x20, 4⟩]

theorem twoFiles_lists : (ArchiveResource.ofFiles twoFiles).Lists twoFiles :=
  ArchiveResource.ofFiles_lists (show 2 < 2 ^ 32 by omega)

theorem archiveDirectory_delivers_iff_page : (ArchiveResource.ofFiles twoFiles).Delivers
    (directoryEntries twoFiles) 0 (some closedDirectory) [2] :=
  (archiveDirectory_delivers_iff twoFiles_lists closedDirectory_opens (by simp)).mpr
    (.inl (Nat.le_refl 1))

theorem twoPages_not_delivers : ¬ ∀ (archive : ArchiveResource) (files : List ArchiveFile)
    (handle handle' : DirectoryHandle) (path : Path) (pages : List (BitVec 32)),
    archive.Lists files →
    OpenDirectoryImpl (some handle) (some path) = (.Success, some handle') →
    (∀ entry_count ∈ pages, entry_count ≠ 0) →
      archive.Delivers (directoryEntries files) 0 (some handle') pages := by
  intro h
  have hdelivers := h _ _ _ _ _ [1, 1] twoFiles_lists closedDirectory_opens (by simp)
  exact absurd hdelivers.2.2.2.1 (by decide)

end Cases

end Awn.FileDevice
