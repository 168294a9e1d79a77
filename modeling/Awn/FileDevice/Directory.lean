import Awn.FileDevice.ArchiveDirectory
import Awn.FileDevice.System

/-!
`awn::res::SystemFileDevice::ReadDirectoryImpl`, over an operating system whose searches enumerate
the entries of each directory once.
-/

namespace Awn.FileDevice

def cMaxDirectoryDepth : BitVec 32 := 8

def ERROR_INVALID_HANDLE : BitVec 32 := 6

def ERROR_NO_MORE_FILES : BitVec 32 := 18

structure FindData where
  dwFileAttributes : BitVec 32
  cFileName : List (BitVec 8)
  nFileSizeHigh : BitVec 32
  nFileSizeLow : BitVec 32
  deriving DecidableEq

namespace FindData

variable (data : FindData)

def isNormal : Bool := data.dwFileAttributes &&& 0x80 = 0x80

def isDirectory : Bool := data.dwFileAttributes &&& 0x10 = 0x10

def name : Path := data.cFileName.takeWhile (· ≠ 0)

def isDots : Bool := data.name = [0x2e] ∨ data.name = [0x2e, 0x2e]

def entry (drive_size : ℕ) : Path × BitVec 64 :=
  ((data.cFileName.drop drive_size).takeWhile (· ≠ 0),
    data.nFileSizeLow.setWidth 64 ||| data.nFileSizeHigh.setWidth 64 <<< 0x20)

end FindData

structure FindSystem where
  format : Path → Path × Bool
  is_directory : Path → Bool
  list : Path → Except (BitVec 32) (List FindData)

structure Find where
  level : BitVec 32
  depth : BitVec 32

structure DirectoryState where
  handle : DirectoryHandle
  searches : List (List FindData)
  visited : List FindData
  descents : List FindData
  finds : List Find

/-- The search of the number `n` has the handle `n + 1`, and zero is the null handle. -/
def FindNextFileA (search_handle : ℕ) (searches : List (List FindData)) :
    Except (BitVec 32) FindData × List (List FindData) :=
  match search_handle with
  | 0 => (.error ERROR_INVALID_HANDLE, searches)
  | n + 1 =>
    match searches[n]? with
    | none => (.error ERROR_INVALID_HANDLE, searches)
    | some [] => (.error ERROR_NO_MORE_FILES, searches)
    | some (data :: rest) => (.ok data, searches.set n rest)

namespace DirectoryState

variable (st : DirectoryState)

def entries (drive_size : ℕ) : List (Path × BitVec 64) := st.visited.map (·.entry drive_size)

def found (level : BitVec 32) : DirectoryState :=
  { st with finds := ⟨level, st.handle.directory_depth⟩ :: st.finds }

def write (data : FindData) : DirectoryState :=
  { st with
    handle := { st.handle with entry_index := st.handle.entry_index + 1 }
    visited := st.visited ++ [data] }

def deeper : DirectoryState :=
  { st with handle := { st.handle with directory_depth := st.handle.directory_depth + 1 } }

def enter (data : FindData) : DirectoryState :=
  let paths := st.handle.directory_path_array
  let depth := st.handle.directory_depth.toNat
  { st with
    handle := { st.handle with directory_path_array := Function.update paths depth data.name }
    descents := data :: st.descents }

def keep (search_handle : ℕ) (searches : List (List FindData)) : DirectoryState :=
  let handles := st.handle.search_handle_array
  let depth := st.handle.directory_depth.toNat
  { st with
    handle := { st.handle with
      search_handle_array := Function.update handles depth (some search_handle) }
    searches := searches }

end DirectoryState

namespace FindSystem

variable (os : FindSystem)

def OpenDirectoryImpl (out_directory_handle : Option DirectoryHandle)
    (directory_path : Option Path) : Result × Option DirectoryHandle :=
  match out_directory_handle, directory_path with
  | none, _ => (.NullDirectoryHandle, none)
  | some handle, none => (.NullPath, some handle)
  | some handle, some path =>
    let formatted := os.format path
    let handle := { handle with
      directory_path_array := Function.update handle.directory_path_array 0 formatted.1 }
    if formatted.2 = false then (.PathTooLong, some handle)
    else if os.is_directory formatted.1 = false then (.DirectoryNotFound, some handle)
    else
      (.Success, some { handle with
        entry_index := 0
        directory_depth := 0
        search_handle_array := Function.update handle.search_handle_array 0 none })

def FindFirstFileExA (path : Path) (searches : List (List FindData)) :
    Except (BitVec 32) (ℕ × FindData) × List (List FindData) :=
  match os.list path with
  | .error last_error => (.error last_error, searches)
  | .ok [] => (.error ERROR_NO_MORE_FILES, searches)
  | .ok (data :: rest) => (.ok (searches.length + 1, data), searches ++ [rest])

def find (level : BitVec 32) (search_handle : Option ℕ) (st : DirectoryState) :
    Except (BitVec 32) (ℕ × FindData) × DirectoryState :=
  let st := st.found level
  match search_handle with
  | none =>
    match os.FindFirstFileExA (st.handle.directory_path_array level.toNat) st.searches with
    | (.error last_error, _) => (.error last_error, st)
    | (.ok (search_handle, data), searches) =>
      (.ok (search_handle, data), st.keep search_handle searches)
  | some search_handle =>
    match FindNextFileA search_handle st.searches with
    | (.error last_error, _) => (.error last_error, st)
    | (.ok data, searches) => (.ok (search_handle, data), { st with searches := searches })

/-- The loop of a call that has been made at the level, behind so many files; a call for a
sub-directory is a loop of its own. `none` is out of fuel or an assertion that fails. -/
def readLoop : ℕ → BitVec 32 → Option ℕ → BitVec 32 → BitVec 32 → DirectoryState →
    Option (Result × DirectoryState)
  | 0, _, _, _, _, _ => none
  | fuel + 1, level, search_handle, i, entry_count, st =>
    if i < entry_count then
      match os.find level search_handle st with
      | (.error last_error, st) => some (ConvertWin32ErrorToResult last_error, st)
      | (.ok (search_handle, data), st) =>
        if data.isNormal = true then
          readLoop fuel level (some search_handle) (i + 1) entry_count (st.write data)
        else if data.isDirectory = false then none
        else
          let st := st.deeper
          if cMaxDirectoryDepth ≤ st.handle.directory_depth then
            some (.ExhaustedDirectoryDepth, st)
          else
            let st := st.enter data
            let entry_index := st.handle.entry_index
            let sub_entry_count := st.handle.entry_index - i
            let depth := st.handle.directory_depth
            match readLoop fuel depth (st.handle.search_handle_array depth.toNat) 0 sub_entry_count
              st with
            | none => none
            | some (result, st) =>
              let i := i + (st.handle.entry_index - entry_index)
              if result = .Success ∨ result = .DirectoryExhausted then
                readLoop fuel level (some search_handle) i entry_count st
              else some (result, st)
    else some (.Success, st)

def ReadDirectoryImpl (directory_handle : Option DirectoryHandle)
    (searches : List (List FindData)) (entry_count : BitVec 32) (fuel : ℕ) :
    Option (Result × Option DirectoryState) :=
  match directory_handle with
  | none => some (.NullDirectoryHandle, none)
  | some handle =>
    let depth := handle.directory_depth
    let search_handle := handle.search_handle_array depth.toNat
    (os.readLoop fuel depth search_handle 0 entry_count ⟨handle, searches, [], [], []⟩).map
      fun (result, st) => (result, some st)

end FindSystem

inductive DirectoryTree
  | nil
  | file (data : FindData) (normal : data.isNormal = true) (rest : DirectoryTree)
  | dots (data : FindData) (found : data.isNormal = false ∧ data.isDirectory = true)
    (named : data.isDots = true) (rest : DirectoryTree)
  | directory (data : FindData) (found : data.isNormal = false ∧ data.isDirectory = true)
    (named : data.isDots = false) (sub rest : DirectoryTree)

namespace DirectoryTree

def entries : DirectoryTree → List FindData
  | nil => []
  | file data _ rest => data :: rest.entries
  | dots data _ _ rest => data :: rest.entries
  | directory data _ _ _ rest => data :: rest.entries

def files : DirectoryTree → List FindData
  | nil => []
  | file data _ rest => data :: rest.files
  | dots _ _ _ rest => rest.files
  | directory _ _ _ sub rest => sub.files ++ rest.files

def FilesFirst : ℕ → DirectoryTree → Prop
  | 0, _ => True
  | _ + 1, nil => True
  | count + 1, file _ _ rest => FilesFirst count rest
  | _ + 1, dots _ _ _ _ => False
  | _ + 1, directory _ _ _ _ _ => False

end DirectoryTree

structure DirectoryState.Right (st : DirectoryState) (tree : DirectoryTree) (drive_size : ℕ)
    (handle : DirectoryHandle) (entry_count : BitVec 32) (result : Result) : Prop where
  written : (st.entries drive_size).length ≤ entry_count.toNat
  once : st.visited.Subperm tree.files
  all : tree.files.length ≤ entry_count.toNat → st.visited.Perm tree.files
  dots : ∀ data ∈ st.descents, data.isDots = false
  levels : ∀ find ∈ st.finds, find.depth = find.level
  depth : result = .DirectoryExhausted → st.handle.directory_depth = handle.directory_depth
  ends : result = .Success ∨ result = .DirectoryExhausted

def ListsRight (os : FindSystem) (tree : DirectoryTree) (drive_size : ℕ) (handle : DirectoryHandle)
    (searches : List (List FindData)) (entry_count : BitVec 32) : Prop :=
  ∃ least result st,
    (∀ fuel, least ≤ fuel →
      os.ReadDirectoryImpl (some handle) searches entry_count fuel = some (result, some st)) ∧
      st.Right tree drive_size handle entry_count result

namespace FindSystem

def Stands (os : FindSystem) (search_handle : Option ℕ) (st : DirectoryState)
    (left : DirectoryTree) : Prop :=
  match search_handle with
  | none => os.list (st.handle.directory_path_array 0) = .ok left.entries
  | some search_handle => ∃ n, search_handle = n + 1 ∧ st.searches[n]? = some left.entries

variable {os : FindSystem} {search_handle : Option ℕ} {st st' : DirectoryState}
  {left rest : DirectoryTree} {data : FindData} {i entry_count level : BitVec 32}

theorem find_nil (h : os.Stands search_handle st left) (hleft : left.entries = []) :
    os.find 0 search_handle st = (.error ERROR_NO_MORE_FILES, st.found 0) := by
  cases search_handle with
  | none =>
    have hlist : os.list ((st.found 0).handle.directory_path_array 0) = .ok [] := by
      rw [← hleft]
      exact h
    unfold find FindFirstFileExA
    dsimp only
    rw [show (0 : BitVec 32).toNat = 0 from rfl, hlist]
  | some search_handle =>
    obtain ⟨n, rfl, hsearch⟩ := h
    have hnext : (st.found 0).searches[n]? = some [] := by
      rw [← hleft]
      exact hsearch
    unfold find FindNextFileA
    dsimp only
    rw [hnext]

theorem find_cons (h : os.Stands search_handle st left)
    (hleft : left.entries = data :: rest.entries) :
    ∃ search_handle' st', os.find 0 search_handle st = (.ok (search_handle', data), st') ∧
      os.Stands (some search_handle') st' rest ∧ st'.visited = st.visited ∧
      st'.descents = st.descents ∧
      st'.finds = ⟨0, st.handle.directory_depth⟩ :: st.finds ∧
      st'.handle.entry_index = st.handle.entry_index ∧
      st'.handle.directory_depth = st.handle.directory_depth := by
  cases search_handle with
  | none =>
    have hlist : os.list ((st.found 0).handle.directory_path_array 0) =
        .ok (data :: rest.entries) := by
      rw [← hleft]
      exact h
    refine ⟨st.searches.length + 1,
      (st.found 0).keep (st.searches.length + 1) (st.searches ++ [rest.entries]), ?_,
      ⟨st.searches.length, rfl, List.getElem?_concat_length⟩, rfl, rfl, rfl, rfl, rfl⟩
    unfold find FindFirstFileExA
    dsimp only
    rw [show (0 : BitVec 32).toNat = 0 from rfl, hlist]
    rfl
  | some search_handle =>
    obtain ⟨n, rfl, hsearch⟩ := h
    have hnext : (st.found 0).searches[n]? = some (data :: rest.entries) := by
      rw [← hleft]
      exact hsearch
    have hinside : n < st.searches.length := (List.getElem?_eq_some_iff.mp hsearch).1
    refine ⟨n + 1, { st.found 0 with searches := st.searches.set n rest.entries }, ?_,
      ⟨n, rfl, List.getElem?_set_self hinside⟩, rfl, rfl, rfl, rfl, rfl⟩
    unfold find FindNextFileA
    dsimp only
    rw [hnext]
    rfl

theorem find_finds (os : FindSystem) (level : BitVec 32) (search_handle : Option ℕ)
    (st : DirectoryState) : (os.find level search_handle st).2.finds =
      ⟨level, st.handle.directory_depth⟩ :: st.finds := by
  unfold find
  dsimp only
  split
  · split <;> rfl
  · split <;> rfl

theorem readLoop_finds {fuel : ℕ} {result : Result}
    (h : os.readLoop fuel level search_handle i entry_count st = some (result, st')) :
    st.finds ⊆ st'.finds ∧
      (i < entry_count → ⟨level, st.handle.directory_depth⟩ ∈ st'.finds) := by
  induction fuel generalizing level search_handle i entry_count st result st' with
  | zero => cases h
  | succ fuel ih =>
    have hfinds := find_finds os level search_handle st
    rw [readLoop] at h
    split_ifs at h with hlt
    · suffices hmore : (os.find level search_handle st).2.finds ⊆ st'.finds by
        rw [hfinds] at hmore
        exact ⟨fun find hfind => hmore (List.mem_cons_of_mem _ hfind),
          fun _ => hmore List.mem_cons_self⟩
      clear hfinds
      generalize os.find level search_handle st = found at h ⊢
      obtain ⟨answer, st₁⟩ := found
      cases answer with
      | error last_error =>
        obtain ⟨-, rfl⟩ := Prod.mk.inj (Option.some.inj h)
        exact fun _ hfind => hfind
      | ok answer =>
        obtain ⟨search_handle', data⟩ := answer
        dsimp only at h
        split_ifs at h with hnormal hdirectory hdeep
        · exact (ih h).1
        · obtain ⟨-, rfl⟩ := Prod.mk.inj (Option.some.inj h)
          exact fun _ hfind => hfind
        · split at h
          · cases h
          · rename_i hsub
            split_ifs at h with hresult
            · exact fun _ hfind => (ih h).1 ((ih hsub).1 hfind)
            · obtain ⟨-, rfl⟩ := Prod.mk.inj (Option.some.inj h)
              exact (ih hsub).1
    · obtain ⟨-, rfl⟩ := Prod.mk.inj (Option.some.inj h)
      exact ⟨fun _ hfind => hfind, fun h => absurd h hlt⟩

theorem next_toNat {count : ℕ} (hcount : i.toNat + (count + 1) = entry_count.toNat) :
    (i + 1).toNat + count = entry_count.toNat := by
  have hrange := entry_count.isLt
  rw [BitVec.toNat_add, Nat.mod_eq_of_lt (by change i.toNat + 1 < _; omega)]
  change i.toNat + 1 + count = _
  omega

theorem readLoop_filesFirst {count : ℕ} (hfirst : left.FilesFirst count)
    (hcount : i.toNat + count = entry_count.toNat) (hstands : os.Stands search_handle st left) :
    ∃ result st',
      (∀ fuel, count < fuel →
        os.readLoop fuel 0 search_handle i entry_count st = some (result, st')) ∧
      (result = .Success ∨ result = .DirectoryExhausted) ∧
      st'.visited = st.visited ++ left.files.take count ∧ st'.descents = st.descents ∧
      (∀ find ∈ st'.finds, find ∈ st.finds ∨ find = ⟨0, st.handle.directory_depth⟩) ∧
      st'.handle.directory_depth = st.handle.directory_depth := by
  induction count generalizing left i search_handle st with
  | zero =>
    refine ⟨.Success, st, fun fuel hfuel => ?_, .inl rfl, ?_, rfl, fun _ h => .inl h, rfl⟩
    · obtain ⟨fuel, rfl⟩ := Nat.exists_eq_add_one_of_ne_zero (Nat.ne_of_gt hfuel)
      rw [readLoop, if_neg]
      rw [BitVec.lt_def]
      omega
    · rw [List.take_zero, List.append_nil]
  | succ count ih =>
    have hlt : i < entry_count := BitVec.lt_def.mpr (by omega)
    cases left with
    | nil =>
      refine ⟨.DirectoryExhausted, st.found 0, fun fuel hfuel => ?_, .inr rfl,
        (List.append_nil _).symm, rfl, fun find hfind => ?_, rfl⟩
      · obtain ⟨fuel, rfl⟩ := Nat.exists_eq_add_one_of_ne_zero (Nat.ne_zero_of_lt hfuel)
        rw [readLoop, if_pos hlt, find_nil hstands rfl]
        rfl
      · exact (List.mem_cons.mp hfind).symm
    | file data hnormal rest =>
      have hentries : (DirectoryTree.file data hnormal rest).entries = data :: rest.entries := rfl
      obtain ⟨search_handle', st₁, hfind, hrest, hvisited, hdescents, hfinds, -, hdepth⟩ :=
        find_cons hstands hentries
      have hrest : os.Stands (some search_handle') (st₁.write data) rest := hrest
      obtain ⟨result, st', hruns, hresult, hvisited', hdescents', hfinds', hdepth'⟩ :=
        ih hfirst (next_toNat hcount) hrest
      refine ⟨result, st', fun fuel hfuel => ?_, hresult, ?_, hdescents'.trans hdescents, ?_,
        hdepth'.trans hdepth⟩
      · obtain ⟨fuel, rfl⟩ := Nat.exists_eq_add_one_of_ne_zero (Nat.ne_zero_of_lt hfuel)
        rw [readLoop, if_pos hlt, hfind]
        dsimp only
        rw [if_pos hnormal]
        exact hruns fuel (by omega)
      · rw [hvisited']
        change (st₁.visited ++ [data]) ++ _ = _ ++ data :: _
        rw [hvisited, List.append_assoc, List.singleton_append]
      · intro find hfind'
        have hdepth₁ : (st₁.write data).handle.directory_depth = st.handle.directory_depth := hdepth
        rw [hdepth₁] at hfinds'
        obtain hold | hnew := hfinds' find hfind'
        · change find ∈ st₁.finds at hold
          rw [hfinds] at hold
          exact (List.mem_cons.mp hold).symm
        · exact .inr hnew
    | dots data hfound hnamed rest => exact hfirst.elim
    | directory data hfound hnamed sub rest => exact hfirst.elim

theorem readLoop_directory {fuel : ℕ} {result : Result} (hlt : i < entry_count)
    (hstands : os.Stands search_handle st left) (hleft : left.entries = data :: rest.entries)
    (hdata : data.isNormal = false ∧ data.isDirectory = true)
    (hdepth : st.handle.directory_depth = 0) (hindex : st.handle.entry_index = i)
    (h : os.readLoop fuel 0 search_handle i entry_count st = some (result, st')) :
    ∃ find ∈ st'.finds, find.depth ≠ find.level := by
  obtain ⟨search_handle', st₁, hfind, -, -, -, -, hindex₁, hdepth₁⟩ := find_cons hstands hleft
  have hone : (st₁.deeper.enter data).handle.directory_depth = 1 := by
    change st₁.handle.directory_depth + 1 = 1
    rw [hdepth₁, hdepth]
    rfl
  have hroom : (st₁.deeper.enter data).handle.entry_index - i = 0 := by
    change st₁.handle.entry_index - i = 0
    rw [hindex₁, hindex]
    exact BitVec.sub_self i
  cases fuel with
  | zero => cases h
  | succ fuel =>
    rw [readLoop, if_pos hlt, hfind] at h
    dsimp only at h
    rw [if_neg (by rw [hdata.1]; nofun), if_neg (by rw [hdata.2]; nofun)] at h
    have hshallow : ¬ cMaxDirectoryDepth ≤ st₁.deeper.handle.directory_depth := by
      change ¬ cMaxDirectoryDepth ≤ (st₁.deeper.enter data).handle.directory_depth
      rw [hone]
      decide
    rw [if_neg hshallow, hroom] at h
    cases fuel with
    | zero => cases h
    | succ fuel =>
      rw [readLoop, if_neg (by decide)] at h
      dsimp only at h
      have hback : i + ((st₁.deeper.enter data).handle.entry_index -
          (st₁.deeper.enter data).handle.entry_index) = i := by
        rw [BitVec.sub_self]
        exact BitVec.add_zero i
      rw [if_pos (.inl rfl), hback] at h
      refine ⟨_, (readLoop_finds h).2 hlt, ?_⟩
      rw [hone]
      decide

theorem readLoop_not_filesFirst {count fuel : ℕ} {result : Result}
    (hfirst : ¬ left.FilesFirst count) (hcount : i.toNat + count = entry_count.toNat)
    (hstands : os.Stands search_handle st left) (hdepth : st.handle.directory_depth = 0)
    (hindex : st.handle.entry_index = i)
    (h : os.readLoop fuel 0 search_handle i entry_count st = some (result, st')) :
    ∃ find ∈ st'.finds, find.depth ≠ find.level := by
  induction count generalizing left fuel i search_handle st with
  | zero => exact absurd trivial hfirst
  | succ count ih =>
    have hlt : i < entry_count := BitVec.lt_def.mpr (by omega)
    cases left with
    | nil => exact absurd trivial hfirst
    | file data hnormal rest =>
      have hentries : (DirectoryTree.file data hnormal rest).entries = data :: rest.entries := rfl
      obtain ⟨search_handle', st₁, hfind, hrest, -, -, -, hindex₁, hdepth₁⟩ :=
        find_cons hstands hentries
      have hrest : os.Stands (some search_handle') (st₁.write data) rest := hrest
      cases fuel with
      | zero => cases h
      | succ fuel =>
        rw [readLoop, if_pos hlt, hfind] at h
        dsimp only at h
        rw [if_pos hnormal] at h
        refine ih hfirst (next_toNat hcount) hrest (hdepth₁.trans hdepth) ?_ h
        change st₁.handle.entry_index + 1 = i + 1
        rw [hindex₁, hindex]
    | dots data hfound hnamed rest =>
      exact readLoop_directory hlt hstands rfl hfound hdepth hindex h
    | directory data hfound hnamed sub rest =>
      exact readLoop_directory hlt hstands rfl hfound hdepth hindex h

theorem openDirectory_fresh {handle handle' : DirectoryHandle} {path : Path}
    (h : os.OpenDirectoryImpl (some handle) (some path) = (.Success, some handle')) :
    handle'.entry_index = 0 ∧ handle'.directory_depth = 0 ∧
      handle'.search_handle_array 0 = none := by
  unfold OpenDirectoryImpl at h
  dsimp only at h
  split_ifs at h
  · cases (Prod.mk.inj h).1
  · cases (Prod.mk.inj h).1
  · obtain rfl := Option.some.inj (Prod.mk.inj h).2
    have hnone : Function.update handle.search_handle_array 0 none 0 = none := by
      rw [Function.update_self]
    exact ⟨rfl, rfl, hnone⟩

theorem readDirectory_eq {handle : DirectoryHandle} (hdepth : handle.directory_depth = 0)
    (hsearch : handle.search_handle_array 0 = none) (searches : List (List FindData))
    (entry_count : BitVec 32) (fuel : ℕ) :
    os.ReadDirectoryImpl (some handle) searches entry_count fuel =
      (os.readLoop fuel 0 none 0 entry_count ⟨handle, searches, [], [], []⟩).map
        fun (result, st) => (result, some st) := by
  have hnone : handle.search_handle_array (0 : BitVec 32).toNat = none := hsearch
  unfold ReadDirectoryImpl
  dsimp only
  rw [hdepth, hnone]

end FindSystem

section Opened

variable {os : FindSystem} {handle handle' : DirectoryHandle} {path : Path} {tree : DirectoryTree}

theorem lists_of_filesFirst
    (hopen : os.OpenDirectoryImpl (some handle) (some path) = (.Success, some handle'))
    (hlist : os.list (handle'.directory_path_array 0) = .ok tree.entries) (drive_size : ℕ)
    (searches : List (List FindData)) {entry_count : BitVec 32}
    (hfirst : tree.FilesFirst entry_count.toNat) :
    ListsRight os tree drive_size handle' searches entry_count := by
  obtain ⟨-, hdepth, hsearch⟩ := FindSystem.openDirectory_fresh hopen
  have hstands : os.Stands none ⟨handle', searches, [], [], []⟩ tree := hlist
  have hcount : (0 : BitVec 32).toNat + entry_count.toNat = entry_count.toNat := Nat.zero_add _
  obtain ⟨result, st, hruns, hresult, hvisited, hdescents, hfinds, hdepth'⟩ :=
    FindSystem.readLoop_filesFirst hfirst hcount hstands
  have hvisited : st.visited = tree.files.take entry_count.toNat := hvisited
  refine ⟨entry_count.toNat + 1, result, st, fun fuel hfuel => ?_, ?_⟩
  · rw [FindSystem.readDirectory_eq hdepth hsearch, hruns fuel hfuel]
    rfl
  · refine ⟨?_, ?_, fun hroom => ?_, ?_, fun find hfind => ?_, fun _ => hdepth', hresult⟩
    · unfold DirectoryState.entries
      rw [List.length_map, hvisited]
      exact List.length_take_le _ _
    · rw [hvisited]
      exact ⟨_, List.Perm.refl _, List.take_sublist _ _⟩
    · rw [hvisited, List.take_of_length_le hroom]
    · rw [hdescents]
      nofun
    · obtain hold | rfl := hfinds find hfind
      · cases hold
      · exact hdepth

theorem not_lists_of_directory
    (hopen : os.OpenDirectoryImpl (some handle) (some path) = (.Success, some handle'))
    (hlist : os.list (handle'.directory_path_array 0) = .ok tree.entries) (drive_size : ℕ)
    (searches : List (List FindData)) {entry_count : BitVec 32}
    (hfirst : ¬ tree.FilesFirst entry_count.toNat) :
    ¬ ListsRight os tree drive_size handle' searches entry_count := by
  obtain ⟨hindex, hdepth, hsearch⟩ := FindSystem.openDirectory_fresh hopen
  have hstands : os.Stands none ⟨handle', searches, [], [], []⟩ tree := hlist
  rintro ⟨least, result, st, hends, hright⟩
  have hruns := hends least (Nat.le_refl least)
  rw [FindSystem.readDirectory_eq hdepth hsearch] at hruns
  obtain ⟨⟨result', st'⟩, hloop, hsame⟩ := Option.map_eq_some_iff.mp hruns
  obtain rfl := Option.some.inj (Prod.mk.inj hsame).2
  obtain ⟨find, hfind, hdeep⟩ :=
    FindSystem.readLoop_not_filesFirst hfirst (Nat.zero_add _) hstands hdepth hindex hloop
  exact hdeep (hright.levels find hfind)

end Opened

section Cases

def namedFile (name : List (BitVec 8)) : FindData := ⟨0x80, name, 0, 4⟩

def namedDirectory (name : List (BitVec 8)) : FindData := ⟨0x10, name, 0, 0⟩

def sameEverywhere (tree : DirectoryTree) : FindSystem where
  format path := (path, true)
  is_directory _ := true
  list _ := .ok tree.entries

def openedDirectory : DirectoryHandle where
  entry_index := 0
  directory_depth := 0
  search_handle_array := Function.update closedDirectory.search_handle_array 0 none
  directory_path_array := Function.update closedDirectory.directory_path_array 0 []

theorem sameEverywhere_opens (tree : DirectoryTree) :
    (sameEverywhere tree).OpenDirectoryImpl (some closedDirectory) (some []) =
      (.Success, some openedDirectory) := rfl

def fileFirst : DirectoryTree :=
  .file (namedFile [0x61]) rfl
    (.directory (namedDirectory [0x62]) ⟨rfl, rfl⟩ rfl (.file (namedFile [0x63]) rfl .nil) .nil)

end Cases

end Awn.FileDevice
