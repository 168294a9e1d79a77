import Awn.FixedString.Run
import Awn.Memory.Strlen
import Mathlib.Data.List.Induction

/-!
`util_pathutil.hpp`: each function finds its delimiter backwards, with 0 for a delimiter in front as
for none, and computes with lengths of 32 bits.
-/

namespace Awn.Path

open Memory

def cMaxPath : ℕ := 260
def cMaxDrive : ℕ := 32
def cMaxExtension : ℕ := 16

abbrev MaxPathString := FixedString cMaxPath
abbrev MaxDriveString := FixedString cMaxDrive
abbrev MaxExtensionString := FixedString cMaxExtension

def findBack (path : ℕ → BitVec 8) (delimiter : BitVec 8) : ℕ → ℕ
  | 0 => 0
  | offset + 1 => if path (offset + 1) = delimiter then offset + 1 else findBack path delimiter offset

def FindDriveDelimiter (path : ℕ → BitVec 8) (path_len : BitVec 32) : BitVec 32 :=
  BitVec.ofNat 32 (findBack path 0x3a path_len.toNat)

def FindDirectoryDelimiter (path : ℕ → BitVec 8) (path_len : BitVec 32) : BitVec 32 :=
  let back_slash_offset := BitVec.ofNat 32 (findBack path 0x5c path_len.toNat)
  let forward_slash_offset := BitVec.ofNat 32 (findBack path 0x2f path_len.toNat)
  if forward_slash_offset < back_slash_offset then back_slash_offset else forward_slash_offset

def FindExtensionDelimiter (path : ℕ → BitVec 8) (path_len : BitVec 32) : BitVec 32 :=
  BitVec.ofNat 32 (findBack path 0x2e path_len.toNat)

def copyOut {Size : ℕ} (out : FixedString Size) (path : ℕ → BitVec 8)
    (start count m_length : BitVec 32) : Option (FixedString Size) :=
  (writeBytes out.m_string_array 0 ((List.range count.toNat).map fun i => path (start.toNat + i))).map
    fun m_string_array => FixedString.assureTermination { m_string_array, m_length }

def copyClamped {Size : ℕ} (out : FixedString Size) (path : ℕ → BitVec 8)
    (start name_size : BitVec 32) : Option (FixedString Size) :=
  copyOut out path start
    (if name_size.toNat < Size then name_size else BitVec.ofNat 32 (Size - 1)) name_size

section Functions

variable (path : ℕ → BitVec 8) (path_len : BitVec 32)

def GetDrive (out_drive : MaxDriveString) : Option MaxDriveString :=
  if path_len = 0 then some out_drive
  else copyClamped out_drive path 0 (FindDriveDelimiter path path_len)

def GetPathWithoutDrive (out_path : MaxPathString) : Option MaxPathString :=
  if path_len = 0 then some out_path
  else
    let drive_base := FindDriveDelimiter path path_len
    let drive_start_offset := if drive_base ≠ 0 then drive_base + 2 else 0
    copyClamped out_path path drive_start_offset (path_len - drive_start_offset)

def GetPathWithoutExtension (out_path : MaxPathString) : Option MaxPathString :=
  if path_len = 0 then some out_path
  else
    let name_size := FindExtensionDelimiter path path_len
    copyOut out_path path 0 name_size name_size

def GetDirectory (out_directory : MaxPathString) : Option MaxPathString :=
  if path_len = 0 then some out_directory
  else
    let name_start_offset := FindDirectoryDelimiter path path_len + 1
    copyClamped out_directory path 0 name_start_offset

def GetDirectoryWithoutDrive (out_directory : MaxPathString) : Option MaxPathString :=
  if path_len = 0 then some out_directory
  else
    let dir_start_offset := FindDriveDelimiter path path_len
    let name_start_offset := FindDirectoryDelimiter path path_len + 1
    let name_size := name_start_offset - dir_start_offset - name_start_offset
    copyClamped out_directory path dir_start_offset name_size

def GetFileNameWithExtension (out_file_name : MaxPathString) : Option MaxPathString :=
  if path_len = 0 then some out_file_name
  else
    let name_start_offset := FindDirectoryDelimiter path path_len + 1
    copyClamped out_file_name path name_start_offset (path_len - name_start_offset)

def GetFileNameWithoutExtension (out_file_name : MaxPathString) : Option MaxPathString :=
  if path_len = 0 then some out_file_name
  else
    let ext_start_offset := FindExtensionDelimiter path path_len
    let name_start_offset := FindDirectoryDelimiter path path_len + 1
    copyClamped out_file_name path name_start_offset (ext_start_offset - name_start_offset)

def GetExtension (out_extension : MaxExtensionString) : Option MaxExtensionString :=
  if path_len = 0 then some out_extension
  else
    let ext_start_offset := FindExtensionDelimiter path path_len
    let ext_len := path_len - ext_start_offset
    let ext_size :=
      if ext_len.toNat < cMaxExtension then ext_len else BitVec.ofNat 32 (cMaxExtension - 1)
    copyOut out_extension path ext_start_offset ext_size ext_size

end Functions

def ofString {α : Type*} (get : (ℕ → BitVec 8) → BitVec 32 → Option α) (memory : ℕ → BitVec 8)
    (fuel string : ℕ) : Option α :=
  (strlen memory fuel string).bind fun path_len =>
    get (fun i => memory (string + i)) (BitVec.ofNat 32 path_len)

def ofFixedString {α : Type*} (get : (ℕ → BitVec 8) → BitVec 32 → Option α) (path : MaxPathString) :
    Option α :=
  get (fun i => path.m_string_array[i]?.getD 0) path.m_length

def lastIndex (kind : BitVec 8 → Bool) : List (BitVec 8) → Option ℕ
  | [] => none
  | c :: cs =>
    match lastIndex kind cs with
    | some i => some (i + 1)
    | none => if kind c then some 0 else none

def isDelimiter (c : BitVec 8) : Bool := c == 0x5c || c == 0x2f

def directoryOf (p : List (BitVec 8)) : List (BitVec 8) :=
  p.take ((lastIndex isDelimiter p).elim 0 (· + 1))

def fileNameOf (p : List (BitVec 8)) : List (BitVec 8) :=
  p.drop ((lastIndex isDelimiter p).elim 0 (· + 1))

structure Outputs where
  drive : MaxDriveString
  path_without_drive : MaxPathString
  path_without_extension : MaxPathString
  directory : MaxPathString
  directory_without_drive : MaxPathString
  file_name_with_extension : MaxPathString
  file_name_without_extension : MaxPathString
  extension : MaxExtensionString

def Gives {Size : ℕ} (result : Option (FixedString Size)) (xs : List (BitVec 8)) : Prop :=
  ∃ out, result = some out ∧ out.Represents xs

structure Splits (path : ℕ → BitVec 8) (path_len : BitVec 32) (outs : Outputs)
    (p : List (BitVec 8)) : Prop where
  directory : Gives (GetDirectory path path_len outs.directory) (directoryOf p)
  file_name : Gives (GetFileNameWithExtension path path_len outs.file_name_with_extension)
    (fileNameOf p)
  extension : ∃ name ext,
    Gives (GetFileNameWithoutExtension path path_len outs.file_name_without_extension) name ∧
      Gives (GetExtension path path_len outs.extension) ext ∧ name ++ ext = fileNameOf p
  drive : ∃ drive rest, Gives (GetDrive path path_len outs.drive) drive ∧
    Gives (GetPathWithoutDrive path path_len outs.path_without_drive) rest ∧ drive ++ rest = p
  path_without_extension : ∃ out,
    GetPathWithoutExtension path path_len outs.path_without_extension = some out ∧
      out.m_length.toNat < cMaxPath
  directory_without_drive : ∃ out,
    GetDirectoryWithoutDrive path path_len outs.directory_without_drive = some out ∧
      out.m_length.toNat < cMaxPath

def Agree {α : Type*} (get : (ℕ → BitVec 8) → BitVec 32 → Option α) (memory : ℕ → BitVec 8)
    (fuel string : ℕ) (path : MaxPathString) : Prop :=
  ofString get memory fuel string = ofFixedString get path

structure OverloadsAgree (memory : ℕ → BitVec 8) (fuel string : ℕ) (path : MaxPathString)
    (outs : Outputs) : Prop where
  drive : Agree (GetDrive · · outs.drive) memory fuel string path
  path_without_drive : Agree (GetPathWithoutDrive · · outs.path_without_drive) memory fuel string path
  path_without_extension :
    Agree (GetPathWithoutExtension · · outs.path_without_extension) memory fuel string path
  directory : Agree (GetDirectory · · outs.directory) memory fuel string path
  directory_without_drive :
    Agree (GetDirectoryWithoutDrive · · outs.directory_without_drive) memory fuel string path
  file_name_with_extension :
    Agree (GetFileNameWithExtension · · outs.file_name_with_extension) memory fuel string path
  file_name_without_extension :
    Agree (GetFileNameWithoutExtension · · outs.file_name_without_extension) memory fuel string path
  extension : Agree (GetExtension · · outs.extension) memory fuel string path

def Ends {Size : ℕ} (out : FixedString Size) (n : ℕ) : Prop :=
  out.m_string_array[n]? = some 0 ∨ n + 1 = Size

inductive Splittable (outs : Outputs) : List (BitVec 8) → Prop
  | empty : outs.directory.Represents [] → outs.file_name_with_extension.Represents [] →
      outs.file_name_without_extension.Represents [] → outs.extension.Represents [] →
      outs.drive.Represents [] → outs.path_without_drive.Represents [] →
      outs.path_without_extension.m_length.toNat < cMaxPath →
      outs.directory_without_drive.m_length.toNat < cMaxPath → Splittable outs []
  | path {p : List (BitVec 8)} {d e : ℕ} : 0x3a ∉ p.tail → lastIndex isDelimiter p = some d →
      lastIndex (· == 0x2e) p = some e → d < e → p.length ≤ e + 15 →
      Ends outs.directory (d + 1) → Ends outs.file_name_with_extension (p.length - (d + 1)) →
      Ends outs.file_name_without_extension (e - (d + 1)) → Ends outs.extension (p.length - e) →
      Ends outs.drive 0 → Ends outs.path_without_drive p.length → Splittable outs p

/-! What the searches find, and what a copy leaves in its output. -/

variable {path path' : ℕ → BitVec 8} {p : List (BitVec 8)}

theorem lastIndex_concat (kind : BitVec 8 → Bool) (cs : List (BitVec 8)) (c : BitVec 8) :
    lastIndex kind (cs ++ [c]) = if kind c then some cs.length else lastIndex kind cs := by
  induction cs with
  | nil => rfl
  | cons b cs ih =>
    rw [List.cons_append, lastIndex, ih]
    cases kind c with
    | true => rfl
    | false => rfl

theorem lastIndex_lt {kind : BitVec 8 → Bool} {i : ℕ} (h : lastIndex kind p = some i) :
    i < p.length := by
  induction p using List.reverseRecOn with
  | nil => cases h
  | append_singleton cs c ih =>
    rw [lastIndex_concat] at h
    rw [List.length_append, List.length_singleton]
    split at h
    · cases h
      omega
    · have hlt := ih h
      omega

theorem getD_lastIndex_lt (kind : BitVec 8 → Bool) (hp : p ≠ []) :
    (lastIndex kind p).getD 0 < p.length := by
  cases h : lastIndex kind p with
  | none => exact List.length_pos_iff.mpr hp
  | some i => exact lastIndex_lt h

theorem getD_lastIndex_le (kind : BitVec 8 → Bool) (p : List (BitVec 8)) :
    (lastIndex kind p).getD 0 ≤ p.length := by
  cases h : lastIndex kind p with
  | none => exact Nat.zero_le _
  | some i => exact Nat.le_of_lt (lastIndex_lt h)

structure Reads (path : ℕ → BitVec 8) (p : List (BitVec 8)) : Prop where
  get : ∀ i, (hi : i < p.length) → path i = p[i]
  nul : path p.length = 0

theorem findBack_take (hget : ∀ i, (hi : i < p.length) → path i = p[i]) (c : BitVec 8) {n : ℕ}
    (hn : n < p.length) : findBack path c n = (lastIndex (· == c) (p.take (n + 1))).getD 0 := by
  induction n with
  | zero =>
    have htake : p.take 1 = [] ++ [p[0]] := by
      rw [List.take_add_one, List.take_zero, List.getElem?_eq_getElem hn]
      rfl
    rw [Nat.zero_add, htake, lastIndex_concat]
    split
    · rfl
    · rfl
  | succ n ih =>
    rw [findBack, hget (n + 1) hn, List.take_add_one, List.getElem?_eq_getElem hn,
      Option.toList_some, lastIndex_concat]
    by_cases heq : p[n + 1] = c
    · rw [if_pos heq, if_pos (beq_iff_eq.mpr heq), List.length_take, Option.getD_some]
      omega
    · rw [if_neg heq, if_neg (fun h => heq (beq_iff_eq.mp h)), ih (by omega)]

theorem Reads.findBack_eq (h : Reads path p) {c : BitVec 8} (hc : c ≠ 0) (hp : p ≠ []) :
    findBack path c p.length = (lastIndex (· == c) p).getD 0 := by
  have hpos := List.length_pos_iff.mpr hp
  obtain ⟨n, hn⟩ := Nat.exists_eq_add_of_le' hpos
  have hnul := h.nul
  rw [hn] at hnul
  rw [hn, findBack, hnul, if_neg hc.symm, findBack_take h.get c (by omega), ← hn, List.take_length]

theorem getD_lastIndex_delimiter (p : List (BitVec 8)) :
    (lastIndex isDelimiter p).getD 0 =
      max ((lastIndex (· == 0x5c) p).getD 0) ((lastIndex (· == 0x2f) p).getD 0) := by
  induction p using List.reverseRecOn with
  | nil => rfl
  | append_singleton cs c ih =>
    have hback := getD_lastIndex_le (· == 0x5c) cs
    have hforward := getD_lastIndex_le (· == 0x2f) cs
    rw [lastIndex_concat, lastIndex_concat, lastIndex_concat]
    unfold isDelimiter
    by_cases hb : c = 0x5c
    · subst hb
      rw [if_pos (by decide), if_pos (by decide), if_neg (by decide), Option.getD_some,
        Nat.max_eq_left hforward]
    · by_cases hf : c = 0x2f
      · subst hf
        rw [if_pos (by decide), if_neg (by decide), if_pos (by decide), Option.getD_some,
          Nat.max_eq_right hback]
      · have hb' : (c == 0x5c) = false := beq_eq_false_iff_ne.mpr hb
        have hf' : (c == 0x2f) = false := beq_eq_false_iff_ne.mpr hf
        rw [hb', hf', Bool.or_false, if_neg Bool.false_ne_true, if_neg Bool.false_ne_true]
        exact ih

section Offsets

variable {path_len : BitVec 32} (h : Reads path p) (hlen : path_len.toNat = p.length) (hp : p ≠ [])

include h hlen hp

theorem toNat_find {c : BitVec 8} (hc : c ≠ 0) :
    (BitVec.ofNat 32 (findBack path c path_len.toNat)).toNat = (lastIndex (· == c) p).getD 0 := by
  have hlt := getD_lastIndex_lt (· == c) hp
  have hbound := path_len.isLt
  rw [hlen, h.findBack_eq hc hp, BitVec.toNat_ofNat]
  omega

theorem toNat_findDrive :
    (FindDriveDelimiter path path_len).toNat = (lastIndex (· == 0x3a) p).getD 0 :=
  toNat_find h hlen hp (by decide)

theorem toNat_findExtension :
    (FindExtensionDelimiter path path_len).toNat = (lastIndex (· == 0x2e) p).getD 0 :=
  toNat_find h hlen hp (by decide)

theorem toNat_findDirectory :
    (FindDirectoryDelimiter path path_len).toNat = (lastIndex isDelimiter p).getD 0 := by
  have hback := toNat_find h hlen hp (c := 0x5c) (by decide)
  have hforward := toNat_find h hlen hp (c := 0x2f) (by decide)
  unfold FindDirectoryDelimiter
  dsimp only
  rw [getD_lastIndex_delimiter]
  split
  · rename_i hlt
    rw [BitVec.lt_def, hback, hforward] at hlt
    rw [hback]
    omega
  · rename_i hle
    rw [BitVec.lt_def, hback, hforward] at hle
    rw [hforward]
    omega

end Offsets

section Copies

variable {Size : ℕ} {out : FixedString Size} {start count m_length : BitVec 32}
  {xs ys : List (BitVec 8)}

theorem copyOut_returns (path : ℕ → BitVec 8) (start count m_length : BitVec 32)
    (hout : out.m_string_array.length = Size) (hcount : count.toNat ≤ Size) :
    ∃ out', copyOut out path start count m_length = some out' ∧ out'.m_length = m_length := by
  obtain ⟨array, harray, -, -⟩ := writeBytes_spec out.m_string_array
    ((List.range count.toNat).map fun i => path (start.toNat + i)) 0
    (by rw [List.length_map, List.length_range]; omega)
  exact ⟨_, by rw [copyOut, harray]; rfl, rfl⟩

theorem clamped_le (hSize : Size < 2 ^ 32) : (if m_length.toNat < Size then m_length
    else BitVec.ofNat 32 (Size - 1)).toNat ≤ Size := by
  split
  · omega
  · rw [BitVec.toNat_ofNat]
    omega

theorem copyClamped_returns (path : ℕ → BitVec 8) (start m_length : BitVec 32)
    (hout : out.m_string_array.length = Size) (hSize : Size < 2 ^ 32) :
    ∃ out', copyClamped out path start m_length = some out' ∧ out'.m_length = m_length :=
  copyOut_returns path start _ m_length hout (clamped_le hSize)

theorem Gives.length (h : Gives (copyOut out path start count m_length) xs) :
    m_length.toNat = xs.length ∧ xs.length < Size := by
  obtain ⟨out', heq, hrep⟩ := h
  obtain ⟨array, -, rfl⟩ := Option.map_eq_some_iff.mp heq
  exact ⟨hrep.length, hrep.fits⟩

theorem copyOut_gives_iff (hout : out.m_string_array.length = Size) (hfits : count.toNat < Size)
    (hlength : xs.length = count.toNat)
    (hget : ∀ i, (hi : i < xs.length) → path (start.toNat + i) = xs[i])
    (hnonzero : ∀ c ∈ xs, c ≠ 0) :
    Gives (copyOut out path start count count) ys ↔ ys = xs ∧ Ends out count.toNat := by
  have hbytes : ((List.range count.toNat).map fun i => path (start.toNat + i)) = xs := by
    apply List.ext_getElem
    · rw [List.length_map, List.length_range, hlength]
    · intro i hi hi'
      rw [List.getElem_map, List.getElem_range]
      exact hget i hi'
  obtain ⟨array, harray, hsize, harray_get⟩ := writeBytes_spec out.m_string_array xs 0 (by omega)
  have hcopy : copyOut out path start count count =
      some (FixedString.assureTermination ⟨array, count⟩) := by
    rw [copyOut, hbytes, harray]
    rfl
  have hset : ∀ i, (array.set (Size - 1) 0)[i]? = if i = Size - 1 then some 0 else array[i]? := by
    intro i
    by_cases hi : i = Size - 1
    · rw [if_pos hi, hi, List.getElem?_set_self (by omega)]
    · rw [if_neg hi, List.getElem?_set_ne (by omega)]
  have hbelow : ∀ i < xs.length, (array.set (Size - 1) 0)[i]? = xs[i]? := by
    intro i hi
    rw [hset, if_neg (by omega), harray_get, if_pos (by omega), Nat.sub_zero]
  have hnul : (array.set (Size - 1) 0)[count.toNat]? = some 0 ↔ Ends out count.toNat := by
    rw [hset, harray_get, Ends]
    by_cases hlast : count.toNat = Size - 1
    · rw [if_pos hlast]
      constructor
      · intro _
        exact Or.inr (by omega)
      · intro _
        rfl
    · rw [if_neg hlast, if_neg (by omega)]
      constructor
      · exact Or.inl
      · intro h
        exact h.resolve_right (by omega)
  rw [← hnul]
  constructor
  · rintro ⟨out', heq, hrep⟩
    rw [hcopy] at heq
    obtain rfl := Option.some.inj heq
    have hys : count.toNat = ys.length := hrep.length
    constructor
    · apply List.ext_getElem?
      intro i
      by_cases hi : i < xs.length
      · rw [← hrep.get i (by omega), ← hbelow i hi]
        rfl
      · rw [List.getElem?_eq_none (by omega), List.getElem?_eq_none (by omega)]
    · rw [hys]
      exact hrep.nul
  · rintro ⟨rfl, hend⟩
    refine ⟨_, hcopy, ?_⟩
    constructor
    · exact (List.length_set).trans (hsize.trans hout)
    · exact hlength.symm
    · omega
    · exact hbelow
    · rw [hlength]
      exact hend
    · exact hnonzero

theorem copyClamped_eq (hfits : m_length.toNat < Size) :
    copyClamped out path start m_length = copyOut out path start m_length m_length := by
  rw [copyClamped, if_pos hfits]

theorem copyOut_congr
    (h : ∀ i < count.toNat, path (start.toNat + i) = path' (start.toNat + i)) :
    copyOut out path start count m_length = copyOut out path' start count m_length := by
  have hbytes : ((List.range count.toNat).map fun i => path (start.toNat + i)) =
      (List.range count.toNat).map fun i => path' (start.toNat + i) :=
    List.map_congr_left fun i hi => h i (List.mem_range.mp hi)
  rw [copyOut, copyOut, hbytes]

end Copies

end Awn.Path
