import Awn.Path.Delimiters

/-! Which paths the functions split, and that both overloads of each agree there. -/

namespace Awn.Path

open Memory

structure Outputs.Sized (outs : Outputs) : Prop where
  drive : outs.drive.m_string_array.length = cMaxDrive
  path_without_drive : outs.path_without_drive.m_string_array.length = cMaxPath
  path_without_extension : outs.path_without_extension.m_string_array.length = cMaxPath
  directory : outs.directory.m_string_array.length = cMaxPath
  directory_without_drive : outs.directory_without_drive.m_string_array.length = cMaxPath
  file_name_with_extension : outs.file_name_with_extension.m_string_array.length = cMaxPath
  file_name_without_extension : outs.file_name_without_extension.m_string_array.length = cMaxPath
  extension : outs.extension.m_string_array.length = cMaxExtension

theorem getD_lastIndex_eq_zero (c : BitVec 8) (p : List (BitVec 8)) :
    (lastIndex (· == c) p).getD 0 = 0 ↔ c ∉ p.tail := by
  induction p using List.reverseRecOn with
  | nil => simp [lastIndex]
  | append_singleton cs b ih =>
    rw [lastIndex_concat]
    cases cs with
    | nil => cases b == c <;> simp [lastIndex]
    | cons a cs =>
      rw [List.cons_append, List.tail_cons, List.mem_append, List.mem_singleton, not_or]
      by_cases hb : b = c
      · simp [hb]
      · rw [if_neg (fun h => hb (beq_iff_eq.mp h)), ih, List.tail_cons]
        exact (and_iff_left fun h => hb h.symm).symm

theorem length_directoryOf (p : List (BitVec 8)) :
    (directoryOf p).length = (lastIndex isDelimiter p).elim 0 (· + 1) := by
  rw [directoryOf, List.length_take]
  cases h : lastIndex isDelimiter p with
  | none => exact Nat.zero_min _
  | some d => exact Nat.min_eq_left (lastIndex_lt h)

variable {path path' : ℕ → BitVec 8} {path_len : BitVec 32} {p : List (BitVec 8)} {outs : Outputs}

theorem Reads.copyOut_gives_iff (h : Reads path p) (hnonzero : ∀ c ∈ p, c ≠ 0) {Size : ℕ}
    {out : FixedString Size} (start count : BitVec 32) (ys : List (BitVec 8))
    (hout : out.m_string_array.length = Size) (hfits : count.toNat < Size)
    (hwithin : start.toNat + count.toNat ≤ p.length) :
    Gives (copyOut out path start count count) ys ↔
      ys = (p.drop start.toNat).take count.toNat ∧ Ends out count.toNat := by
  apply Path.copyOut_gives_iff hout hfits
  · rw [List.length_take, List.length_drop]
    omega
  · intro i hi
    rw [List.length_take, List.length_drop] at hi
    rw [List.getElem_take, List.getElem_drop]
    exact h.get _ (by omega)
  · intro c hc
    exact hnonzero c (List.mem_of_mem_drop (List.mem_of_mem_take hc))

section Path

variable (h : Reads path p) (hlen : path_len.toNat = p.length) (hp : p ≠ [])
  (hnonzero : ∀ c ∈ p, c ≠ 0) (hmax : p.length < cMaxPath) (hsized : outs.Sized)

include hlen hp in
theorem path_len_ne_zero : path_len ≠ 0 := by
  intro hzero
  rw [hzero] at hlen
  exact hp (List.length_eq_zero_iff.mp hlen.symm)

include h hlen hp

include hmax in
theorem toNat_name_start :
    (FindDirectoryDelimiter path path_len + 1).toNat = (lastIndex isDelimiter p).getD 0 + 1 := by
  have hd := toNat_findDirectory h hlen hp
  have hlt := getD_lastIndex_lt isDelimiter hp
  unfold cMaxPath at hmax
  rw [BitVec.toNat_add, hd]
  exact Nat.mod_eq_of_lt (by show _ + 1 < _; omega)

theorem no_drive (hdrive : 0x3a ∉ p.tail) : FindDriveDelimiter path path_len = 0 := by
  apply BitVec.eq_of_toNat_eq
  rw [toNat_findDrive h hlen hp, (getD_lastIndex_eq_zero 0x3a p).mpr hdrive]
  rfl

include hmax hsized in
theorem not_drive_of_length {out : MaxPathString}
    (hout : GetDirectoryWithoutDrive path path_len outs.directory_without_drive = some out)
    (hfits : out.m_length.toNat < cMaxPath) : 0x3a ∉ p.tail := by
  have hk := toNat_findDrive h hlen hp
  have hlt := getD_lastIndex_lt (· == 0x3a) hp
  rw [GetDirectoryWithoutDrive, if_neg (path_len_ne_zero hlen hp)] at hout
  obtain ⟨out', heq, hm_length⟩ := copyClamped_returns path (FindDriveDelimiter path path_len)
    (FindDirectoryDelimiter path path_len + 1 - FindDriveDelimiter path path_len -
      (FindDirectoryDelimiter path path_len + 1)) hsized.directory_without_drive (by decide)
  obtain rfl := Option.some.inj (heq.symm.trans hout)
  have hneg : ∀ x y : BitVec 32, x - y - x = 0#32 - y := by
    intro x y
    rw [BitVec.sub_sub, BitVec.add_comm, ← BitVec.sub_sub, BitVec.sub_self]
  rw [hm_length, hneg, BitVec.toNat_sub] at hfits
  unfold cMaxPath at hmax hfits
  apply (getD_lastIndex_eq_zero 0x3a p).mp
  rw [BitVec.toNat_ofNat] at hfits
  omega

section Nonzero

include hnonzero hmax

theorem getDirectory_gives_iff {out : MaxPathString} {ys : List (BitVec 8)}
    (hout : out.m_string_array.length = cMaxPath) :
    Gives (GetDirectory path path_len out) ys ↔
      ys = p.take ((lastIndex isDelimiter p).getD 0 + 1) ∧
        Ends out ((lastIndex isDelimiter p).getD 0 + 1) := by
  have hd := toNat_name_start h hlen hp hmax
  have hlt := getD_lastIndex_lt isDelimiter hp
  have hiff := h.copyOut_gives_iff hnonzero 0 (FindDirectoryDelimiter path path_len + 1) ys hout
    (by omega) (by rw [hd]; show 0 + _ ≤ _; omega)
  rw [hd] at hiff
  rw [GetDirectory, if_neg (path_len_ne_zero hlen hp)]
  dsimp only
  rw [copyClamped_eq (by omega)]
  exact hiff

theorem getFileNameWithExtension_gives_iff {out : MaxPathString} {ys : List (BitVec 8)}
    (hout : out.m_string_array.length = cMaxPath) :
    Gives (GetFileNameWithExtension path path_len out) ys ↔
      ys = p.drop ((lastIndex isDelimiter p).getD 0 + 1) ∧
        Ends out (p.length - ((lastIndex isDelimiter p).getD 0 + 1)) := by
  have hd := toNat_name_start h hlen hp hmax
  have hlt := getD_lastIndex_lt isDelimiter hp
  have hsize : (path_len - (FindDirectoryDelimiter path path_len + 1)).toNat =
      p.length - ((lastIndex isDelimiter p).getD 0 + 1) := by
    rw [BitVec.toNat_sub_of_le (BitVec.le_def.mpr (by omega)), hd, hlen]
  have hiff := h.copyOut_gives_iff hnonzero (FindDirectoryDelimiter path path_len + 1)
    (path_len - (FindDirectoryDelimiter path path_len + 1)) ys hout (by omega) (by omega)
  rw [hd, hsize, List.take_of_length_le (by rw [List.length_drop])] at hiff
  rw [GetFileNameWithExtension, if_neg (path_len_ne_zero hlen hp)]
  dsimp only
  rw [copyClamped_eq (by omega)]
  exact hiff

theorem getFileNameWithoutExtension_gives_iff {out : MaxPathString} {ys : List (BitVec 8)}
    (hout : out.m_string_array.length = cMaxPath)
    (hname : (lastIndex isDelimiter p).getD 0 < (lastIndex (· == 0x2e) p).getD 0) :
    Gives (GetFileNameWithoutExtension path path_len out) ys ↔
      ys = (p.drop ((lastIndex isDelimiter p).getD 0 + 1)).take
          ((lastIndex (· == 0x2e) p).getD 0 - ((lastIndex isDelimiter p).getD 0 + 1)) ∧
        Ends out ((lastIndex (· == 0x2e) p).getD 0 - ((lastIndex isDelimiter p).getD 0 + 1)) := by
  have hd := toNat_name_start h hlen hp hmax
  have he := toNat_findExtension h hlen hp
  have hlt := getD_lastIndex_lt (· == 0x2e) hp
  have hsize : (FindExtensionDelimiter path path_len -
      (FindDirectoryDelimiter path path_len + 1)).toNat =
        (lastIndex (· == 0x2e) p).getD 0 - ((lastIndex isDelimiter p).getD 0 + 1) := by
    rw [BitVec.toNat_sub_of_le (BitVec.le_def.mpr (by omega)), hd, he]
  have hiff := h.copyOut_gives_iff hnonzero (FindDirectoryDelimiter path path_len + 1)
    (FindExtensionDelimiter path path_len - (FindDirectoryDelimiter path path_len + 1)) ys hout
    (by omega) (by omega)
  rw [hd, hsize] at hiff
  rw [GetFileNameWithoutExtension, if_neg (path_len_ne_zero hlen hp)]
  dsimp only
  rw [copyClamped_eq (by omega)]
  exact hiff

omit hnonzero in
theorem dot_in_name_of_gives {out : MaxPathString} {ys : List (BitVec 8)}
    (hgives : Gives (GetFileNameWithoutExtension path path_len out) ys) :
    (lastIndex isDelimiter p).getD 0 < (lastIndex (· == 0x2e) p).getD 0 ∧
      ys.length =
        (lastIndex (· == 0x2e) p).getD 0 - ((lastIndex isDelimiter p).getD 0 + 1) := by
  have hd := toNat_name_start h hlen hp hmax
  have he := toNat_findExtension h hlen hp
  have hlt := getD_lastIndex_lt (· == 0x2e) hp
  have hlt' := getD_lastIndex_lt isDelimiter hp
  rw [GetFileNameWithoutExtension, if_neg (path_len_ne_zero hlen hp)] at hgives
  obtain ⟨hlength, hfits⟩ := Gives.length hgives
  rw [BitVec.toNat_sub, hd, he] at hlength
  unfold cMaxPath at hmax hfits
  omega

omit hmax in
theorem getExtension_gives_iff {out : MaxExtensionString} {ys : List (BitVec 8)}
    (hout : out.m_string_array.length = cMaxExtension) :
    Gives (GetExtension path path_len out) ys ↔
      ys = (p.drop ((lastIndex (· == 0x2e) p).getD 0)).take
          (min (p.length - (lastIndex (· == 0x2e) p).getD 0) 15) ∧
        Ends out (min (p.length - (lastIndex (· == 0x2e) p).getD 0) 15) := by
  have he := toNat_findExtension h hlen hp
  have hlt := getD_lastIndex_lt (· == 0x2e) hp
  have hext : (path_len - FindExtensionDelimiter path path_len).toNat =
      p.length - (lastIndex (· == 0x2e) p).getD 0 := by
    rw [BitVec.toNat_sub_of_le (BitVec.le_def.mpr (by omega)), he, hlen]
  have hsize : (if (path_len - FindExtensionDelimiter path path_len).toNat < cMaxExtension then
      path_len - FindExtensionDelimiter path path_len
        else BitVec.ofNat 32 (cMaxExtension - 1)).toNat =
          min (p.length - (lastIndex (· == 0x2e) p).getD 0) 15 := by
    split
    · rename_i hsmall
      unfold cMaxExtension at hsmall
      omega
    · rename_i hlarge
      unfold cMaxExtension at hlarge ⊢
      rw [BitVec.toNat_ofNat]
      omega
  have hiff := h.copyOut_gives_iff hnonzero (FindExtensionDelimiter path path_len)
    (if (path_len - FindExtensionDelimiter path path_len).toNat < cMaxExtension then
      path_len - FindExtensionDelimiter path path_len
        else BitVec.ofNat 32 (cMaxExtension - 1)) ys hout
    (by unfold cMaxExtension at *; omega) (by omega)
  rw [he, hsize] at hiff
  rw [GetExtension, if_neg (path_len_ne_zero hlen hp)]
  exact hiff

omit hmax in
theorem getDrive_gives_iff {out : MaxDriveString} {ys : List (BitVec 8)}
    (hout : out.m_string_array.length = cMaxDrive) (hdrive : 0x3a ∉ p.tail) :
    Gives (GetDrive path path_len out) ys ↔ ys = [] ∧ Ends out 0 := by
  have hiff := h.copyOut_gives_iff hnonzero 0 0 ys hout
    (by decide) (Nat.zero_le _)
  rw [GetDrive, if_neg (path_len_ne_zero hlen hp), no_drive h hlen hp hdrive,
    copyClamped_eq (by decide)]
  exact hiff

theorem getPathWithoutDrive_gives_iff {out : MaxPathString} {ys : List (BitVec 8)}
    (hout : out.m_string_array.length = cMaxPath) (hdrive : 0x3a ∉ p.tail) :
    Gives (GetPathWithoutDrive path path_len out) ys ↔ ys = p ∧ Ends out p.length := by
  have hiff := h.copyOut_gives_iff hnonzero 0 path_len ys hout
    (by omega) (by show 0 + _ ≤ _; omega)
  rw [hlen] at hiff
  rw [GetPathWithoutDrive, if_neg (path_len_ne_zero hlen hp), no_drive h hlen hp hdrive]
  have hsub : path_len - 0 = path_len := BitVec.sub_zero path_len
  dsimp only
  rw [if_neg (fun h => h rfl), hsub, copyClamped_eq (by omega)]
  exact hiff.trans (by rw [show BitVec.toNat (0 : BitVec 32) = 0 from rfl, List.drop_zero,
    List.take_length])

end Nonzero

theorem splittable_of_splits (hnonzero : ∀ c ∈ p, c ≠ 0) (hmax : p.length < cMaxPath)
    (hsized : outs.Sized) (hsplits : Splits path path_len outs p) : Splittable outs p := by
  obtain ⟨out, hout, hfits⟩ := hsplits.directory_without_drive
  have hdrive := not_drive_of_length h hlen hp hmax hsized hout hfits
  obtain ⟨hdir, hdir_ends⟩ :=
    (getDirectory_gives_iff h hlen hp hnonzero hmax hsized.directory).mp hsplits.directory
  obtain ⟨-, hname_ends⟩ := (getFileNameWithExtension_gives_iff h hlen hp hnonzero hmax
    hsized.file_name_with_extension).mp hsplits.file_name
  obtain ⟨name, ext, hname, hext, hboth⟩ := hsplits.extension
  obtain ⟨drive, rest, hdrive_gives, hrest, -⟩ := hsplits.drive
  obtain ⟨hdot, hname_length⟩ := dot_in_name_of_gives h hlen hp hmax hname
  obtain ⟨-, hbase_ends⟩ := (getFileNameWithoutExtension_gives_iff h hlen hp hnonzero hmax
    hsized.file_name_without_extension hdot).mp hname
  obtain ⟨rfl, hext_ends⟩ :=
    (getExtension_gives_iff h hlen hp hnonzero hsized.extension).mp hext
  obtain ⟨-, hdrive_ends⟩ := (getDrive_gives_iff h hlen hp hnonzero hsized.drive hdrive).mp
    hdrive_gives
  obtain ⟨-, hrest_ends⟩ := (getPathWithoutDrive_gives_iff h hlen hp hnonzero hmax
    hsized.path_without_drive hdrive).mp hrest
  have hdir_length := congrArg List.length hdir
  have hlt := getD_lastIndex_lt isDelimiter hp
  rw [length_directoryOf, List.length_take] at hdir_length
  cases hd : lastIndex isDelimiter p with
  | none =>
    rw [hd, Option.elim_none, Option.getD_none] at hdir_length
    rw [hd, Option.getD_none] at hlt
    omega
  | some d =>
    cases he : lastIndex (· == 0x2e) p with
    | none =>
      rw [he, Option.getD_none] at hdot
      exact absurd hdot (Nat.not_lt_zero _)
    | some e =>
      have hboth_length := congrArg List.length hboth
      have hd_lt := lastIndex_lt hd
      have he_lt := lastIndex_lt he
      have hd' : (lastIndex isDelimiter p).getD 0 = d := by rw [hd, Option.getD_some]
      have he' : (lastIndex (· == 0x2e) p).getD 0 = e := by rw [he, Option.getD_some]
      rw [hd'] at hdir_ends hname_ends hdot hname_length hbase_ends
      rw [he'] at hdot hname_length hbase_ends hext_ends hboth_length
      rw [List.length_append, List.length_take, List.length_drop, hname_length, fileNameOf,
        List.length_drop, hd, Option.elim_some] at hboth_length
      have hshort : p.length ≤ e + 15 := by omega
      rw [Nat.min_eq_left (by omega)] at hext_ends
      exact .path hdrive hd he hdot hshort hdir_ends hname_ends hbase_ends hext_ends hdrive_ends
        hrest_ends

theorem splits_of_splittable (hnonzero : ∀ c ∈ p, c ≠ 0) (hmax : p.length < cMaxPath)
    (hsized : outs.Sized) (hsplittable : Splittable outs p) : Splits path path_len outs p := by
  cases hsplittable with
  | empty => exact absurd rfl hp
  | @path _ d e hdrive hd he hdot hshort hdir hname hbase hext hdrive_ends hrest =>
    have hd_lt := lastIndex_lt hd
    have he_lt := lastIndex_lt he
    have hd' : (lastIndex isDelimiter p).getD 0 = d := by rw [hd, Option.getD_some]
    have he' : (lastIndex (· == 0x2e) p).getD 0 = e := by rw [he, Option.getD_some]
    have hdirectoryOf : directoryOf p = p.take (d + 1) := by
      rw [directoryOf, hd, Option.elim_some]
    have hfileNameOf : fileNameOf p = p.drop (d + 1) := by
      rw [fileNameOf, hd, Option.elim_some]
    constructor
    · apply (getDirectory_gives_iff h hlen hp hnonzero hmax hsized.directory).mpr
      rw [hd', hdirectoryOf]
      exact ⟨rfl, hdir⟩
    · apply (getFileNameWithExtension_gives_iff h hlen hp hnonzero hmax
        hsized.file_name_with_extension).mpr
      rw [hd', hfileNameOf]
      exact ⟨rfl, hname⟩
    · refine ⟨(p.drop (d + 1)).take (e - (d + 1)), p.drop e, ?_, ?_, ?_⟩
      · apply (getFileNameWithoutExtension_gives_iff h hlen hp hnonzero hmax
          hsized.file_name_without_extension (by omega)).mpr
        rw [hd', he']
        exact ⟨rfl, hbase⟩
      · apply (getExtension_gives_iff h hlen hp hnonzero hsized.extension).mpr
        rw [he', Nat.min_eq_left (by omega), List.take_of_length_le (by rw [List.length_drop])]
        exact ⟨rfl, hext⟩
      · have hdrop : p.drop e = (p.drop (d + 1)).drop (e - (d + 1)) := by
          rw [List.drop_drop]
          congr 1
          omega
        rw [hfileNameOf, hdrop, List.take_append_drop]
    · exact ⟨[], p, (getDrive_gives_iff h hlen hp hnonzero hsized.drive hdrive).mpr
        ⟨rfl, hdrive_ends⟩, (getPathWithoutDrive_gives_iff h hlen hp hnonzero hmax
          hsized.path_without_drive hdrive).mpr ⟨rfl, hrest⟩, rfl⟩
    · have hext_len := toNat_findExtension h hlen hp
      obtain ⟨out, hout, hm_length⟩ := copyOut_returns path 0
        (FindExtensionDelimiter path path_len) (FindExtensionDelimiter path path_len)
        hsized.path_without_extension (by omega)
      refine ⟨out, ?_, ?_⟩
      · rw [GetPathWithoutExtension, if_neg (path_len_ne_zero hlen hp)]
        exact hout
      · rw [hm_length]
        omega
    · obtain ⟨out, hout, hm_length⟩ := copyClamped_returns path 0
        (FindDirectoryDelimiter path path_len + 1 - 0#32 -
          (FindDirectoryDelimiter path path_len + 1)) hsized.directory_without_drive (by decide)
      refine ⟨out, ?_, ?_⟩
      · rw [GetDirectoryWithoutDrive, if_neg (path_len_ne_zero hlen hp),
          no_drive h hlen hp hdrive]
        exact hout
      · rw [hm_length, BitVec.sub_zero, BitVec.sub_self]
        decide

end Path

section Overloads

variable (h : Reads path p) (h' : Reads path' p) {start count m_length : BitVec 32}

include h h'

theorem Reads.same {i : ℕ} (hi : i ≤ p.length) : path i = path' i := by
  rcases Nat.lt_or_eq_of_le hi with hlt | rfl
  · rw [h.get i hlt, h'.get i hlt]
  · rw [h.nul, h'.nul]

theorem Reads.copyOut_same {Size : ℕ} (out : FixedString Size)
    (hwithin : start.toNat + count.toNat ≤ p.length) :
    copyOut out path start count m_length = copyOut out path' start count m_length :=
  copyOut_congr fun i hi => h.same h' (by omega)

theorem Reads.copyClamped_same {Size : ℕ} (out : FixedString Size)
    (hwithin : start.toNat + m_length.toNat ≤ p.length) :
    copyClamped out path start m_length = copyClamped out path' start m_length := by
  apply h.copyOut_same h'
  split
  · exact hwithin
  · rename_i hlarge
    have hclamped : (BitVec.ofNat 32 (Size - 1)).toNat ≤ Size - 1 := by
      rw [BitVec.toNat_ofNat]
      exact Nat.mod_le _ _
    omega

variable (hlen : path_len.toNat = p.length) (hp : p ≠ [])

include hlen hp

theorem findDirectory_same :
    FindDirectoryDelimiter path path_len = FindDirectoryDelimiter path' path_len :=
  BitVec.eq_of_toNat_eq
    ((toNat_findDirectory h hlen hp).trans (toNat_findDirectory h' hlen hp).symm)

theorem findExtension_same :
    FindExtensionDelimiter path path_len = FindExtensionDelimiter path' path_len :=
  BitVec.eq_of_toNat_eq
    ((toNat_findExtension h hlen hp).trans (toNat_findExtension h' hlen hp).symm)

end Overloads

section Agreement

variable {memory : ℕ → BitVec 8} {fuel string : ℕ} {pathString : MaxPathString}
  (htext : HoldsText memory string p) (hnonzero : ∀ c ∈ p, c ≠ 0) (hfuel : p.length < fuel)
  (hpath : pathString.Represents p)

include htext hnonzero hfuel hpath

theorem agree_of_same {α : Type*} {get : (ℕ → BitVec 8) → BitVec 32 → Option α}
    (hsame : ∀ path path' : ℕ → BitVec 8, Reads path p → Reads path' p →
      get path pathString.m_length = get path' pathString.m_length) :
    Agree get memory fuel string pathString := by
  have hlen : BitVec.ofNat 32 p.length = pathString.m_length := by
    rw [← hpath.length, BitVec.ofNat_toNat, BitVec.setWidth_eq]
  unfold Agree ofString ofFixedString
  rw [strlen_eq (htext.isString hnonzero) hfuel, Option.bind_some, hlen]
  apply hsame
  · exact ⟨htext.get, htext.nul⟩
  · constructor
    · intro i hi
      rw [hpath.get i hi, List.getElem?_eq_getElem hi, Option.getD_some]
    · rw [hpath.nul, Option.getD_some]

theorem overloadsAgree_of_empty (hempty : pathString.m_length = 0) :
    OverloadsAgree memory fuel string pathString outs := by
  constructor
  all_goals
    apply agree_of_same htext hnonzero hfuel hpath
    intro path path' _ _
    simp only [hempty, GetDrive, GetPathWithoutDrive, GetPathWithoutExtension, GetDirectory,
      GetDirectoryWithoutDrive, GetFileNameWithExtension, GetFileNameWithoutExtension,
      GetExtension, if_true]

theorem overloadsAgree_of_splittable (hp : p ≠ []) (hmax : p.length < cMaxPath)
    (hsplittable : Splittable outs p) : OverloadsAgree memory fuel string pathString outs := by
  have hlen := hpath.length
  have hne := path_len_ne_zero hlen hp
  cases hsplittable with
  | empty => exact absurd rfl hp
  | @path _ d e hdrive hd he hdot =>
    have hd_lt := lastIndex_lt hd
    have he_lt := lastIndex_lt he
    have hd' : (lastIndex isDelimiter p).getD 0 = d := by rw [hd, Option.getD_some]
    have he' : (lastIndex (· == 0x2e) p).getD 0 = e := by rw [he, Option.getD_some]
    constructor
    all_goals
      apply agree_of_same htext hnonzero hfuel hpath
      intro path path' h h'
      have hname := toNat_name_start h' hlen hp hmax
      have hext := toNat_findExtension h' hlen hp
    · show GetDrive path _ _ = GetDrive path' _ _
      rw [GetDrive, GetDrive, if_neg hne, if_neg hne, no_drive h hlen hp hdrive,
        no_drive h' hlen hp hdrive]
      exact h.copyClamped_same h' _ (Nat.zero_le _)
    · show GetPathWithoutDrive path _ _ = GetPathWithoutDrive path' _ _
      rw [GetPathWithoutDrive, GetPathWithoutDrive, if_neg hne, if_neg hne,
        no_drive h hlen hp hdrive, no_drive h' hlen hp hdrive]
      apply h.copyClamped_same h'
      have hsub : pathString.m_length - 0 = pathString.m_length := BitVec.sub_zero _
      rw [if_neg (fun h => h rfl), hsub, hlen]
      exact Nat.le_of_eq (Nat.zero_add _)
    · show GetPathWithoutExtension path _ _ = GetPathWithoutExtension path' _ _
      rw [GetPathWithoutExtension, GetPathWithoutExtension, if_neg hne, if_neg hne,
        findExtension_same h h' hlen hp]
      apply h.copyOut_same h'
      show 0 + _ ≤ _
      omega
    · show GetDirectory path _ _ = GetDirectory path' _ _
      rw [GetDirectory, GetDirectory, if_neg hne, if_neg hne, findDirectory_same h h' hlen hp]
      apply h.copyClamped_same h'
      show 0 + _ ≤ _
      omega
    · show GetDirectoryWithoutDrive path _ _ = GetDirectoryWithoutDrive path' _ _
      rw [GetDirectoryWithoutDrive, GetDirectoryWithoutDrive, if_neg hne, if_neg hne,
        no_drive h hlen hp hdrive, no_drive h' hlen hp hdrive, findDirectory_same h h' hlen hp]
      have hsub : ∀ x : BitVec 32, x - 0 - x = 0 := by
        intro x
        rw [show x - 0 = x from BitVec.sub_zero x]
        exact BitVec.sub_self x
      apply h.copyClamped_same h'
      rw [hsub]
      exact Nat.zero_le _
    · show GetFileNameWithExtension path _ _ = GetFileNameWithExtension path' _ _
      rw [GetFileNameWithExtension, GetFileNameWithExtension, if_neg hne, if_neg hne,
        findDirectory_same h h' hlen hp]
      apply h.copyClamped_same h'
      rw [BitVec.toNat_sub_of_le (BitVec.le_def.mpr (by omega))]
      omega
    · show GetFileNameWithoutExtension path _ _ = GetFileNameWithoutExtension path' _ _
      rw [GetFileNameWithoutExtension, GetFileNameWithoutExtension, if_neg hne, if_neg hne,
        findDirectory_same h h' hlen hp, findExtension_same h h' hlen hp]
      apply h.copyClamped_same h'
      rw [BitVec.toNat_sub_of_le (BitVec.le_def.mpr (by omega))]
      omega
    · show GetExtension path _ _ = GetExtension path' _ _
      rw [GetExtension, GetExtension, if_neg hne, if_neg hne, findExtension_same h h' hlen hp]
      have hsub : (pathString.m_length - FindExtensionDelimiter path' pathString.m_length).toNat =
          p.length - e := by
        rw [BitVec.toNat_sub_of_le (BitVec.le_def.mpr (by omega))]
        omega
      apply h.copyOut_same h'
      split
      · omega
      · rename_i hlarge
        unfold cMaxExtension at hlarge ⊢
        rw [BitVec.toNat_ofNat]
        omega

end Agreement

theorem splits_empty_iff : Splits path 0 outs [] ↔ Splittable outs [] := by
  constructor
  · intro h
    obtain ⟨_, hdirectory_eq, hdirectory⟩ := h.directory
    obtain ⟨_, hname_eq, hname⟩ := h.file_name
    obtain ⟨base, ext, ⟨_, hbase_eq, hbase⟩, ⟨_, hext_eq, hext⟩, happend⟩ := h.extension
    obtain ⟨drive, rest, ⟨_, hdrive_eq, hdrive⟩, ⟨_, hrest_eq, hrest⟩, hboth⟩ := h.drive
    obtain ⟨_, hwithout_eq, hwithout⟩ := h.path_without_extension
    obtain ⟨_, hdir_eq, hdir⟩ := h.directory_without_drive
    cases hdirectory_eq
    cases hname_eq
    cases hbase_eq
    cases hext_eq
    cases hdrive_eq
    cases hrest_eq
    cases hwithout_eq
    cases hdir_eq
    obtain ⟨rfl, rfl⟩ := List.append_eq_nil_iff.mp happend
    obtain ⟨rfl, rfl⟩ := List.append_eq_nil_iff.mp hboth
    exact .empty hdirectory hname hbase hext hdrive hrest hwithout hdir
  · intro h
    cases h with
    | empty hdirectory hname hbase hext hdrive hrest hwithout hdir =>
      constructor
      · exact ⟨_, rfl, hdirectory⟩
      · exact ⟨_, rfl, hname⟩
      · exact ⟨[], [], ⟨_, rfl, hbase⟩, ⟨_, rfl, hext⟩, rfl⟩
      · exact ⟨[], [], ⟨_, rfl, hdrive⟩, ⟨_, rfl, hrest⟩, rfl⟩
      · exact ⟨_, rfl, hwithout⟩
      · exact ⟨_, rfl, hdir⟩
    | path _ hd => cases hd

/-- A path is split right, by both overloads, just when it has no drive, a directory, and an
extension that fits. -/
theorem splits_iff_splittable {memory : ℕ → BitVec 8} {fuel string : ℕ} {pathString : MaxPathString}
    {p : List (BitVec 8)} {outs : Outputs} (htext : HoldsText memory string p)
    (hnonzero : ∀ c ∈ p, c ≠ 0) (hmax : p.length < cMaxPath) (hfuel : p.length < fuel)
    (hpath : pathString.Represents p) (hsized : outs.Sized) :
    (Splits (fun i => memory (string + i)) (BitVec.ofNat 32 p.length) outs p ∧
      OverloadsAgree memory fuel string pathString outs) ↔ Splittable outs p := by
  have hlen : (BitVec.ofNat 32 p.length).toNat = p.length := by
    unfold cMaxPath at hmax
    rw [BitVec.toNat_ofNat]
    omega
  have hreads : Reads (fun i => memory (string + i)) p := ⟨htext.get, htext.nul⟩
  by_cases hp : p = []
  · subst hp
    have hempty : pathString.m_length = 0 := BitVec.eq_of_toNat_eq hpath.length
    constructor
    · rintro ⟨hsplits, -⟩
      exact splits_empty_iff.mp hsplits
    · intro h
      exact ⟨splits_empty_iff.mpr h, overloadsAgree_of_empty htext hnonzero hfuel hpath hempty⟩
  · constructor
    · rintro ⟨hsplits, -⟩
      exact splittable_of_splits hreads hlen hp hnonzero hmax hsized hsplits
    · intro h
      exact ⟨splits_of_splittable hreads hlen hp hnonzero hmax hsized h,
        overloadsAgree_of_splittable htext hnonzero hfuel hpath hp hmax h⟩

def Outputs.create : Outputs where
  drive := FixedString.create cMaxDrive
  path_without_drive := FixedString.create cMaxPath
  path_without_extension := FixedString.create cMaxPath
  directory := FixedString.create cMaxPath
  directory_without_drive := FixedString.create cMaxPath
  file_name_with_extension := FixedString.create cMaxPath
  file_name_without_extension := FixedString.create cMaxPath
  extension := FixedString.create cMaxExtension

theorem Outputs.create_sized : Outputs.create.Sized := by
  constructor <;> exact List.length_replicate

theorem ends_create {Size n : ℕ} (h : n < Size) : Ends (FixedString.create Size) n := by
  left
  rw [FixedString.create, List.getElem?_replicate, if_pos h]

def memoryOf (p : List (BitVec 8)) (place : ℕ) : BitVec 8 := p[place]?.getD 0

theorem holdsText_memoryOf (p : List (BitVec 8)) : HoldsText (memoryOf p) 0 p where
  get i hi := by
    rw [memoryOf, Nat.zero_add, List.getElem?_eq_getElem hi, Option.getD_some]
  nul := by
    rw [memoryOf, List.getElem?_eq_none (by omega), Option.getD_none]

theorem aSlashB_splits :
    Splits (fun i => memoryOf [0x61, 0x2f, 0x62, 0x2e, 0x63] (0 + i)) (BitVec.ofNat 32 5)
        Outputs.create [0x61, 0x2f, 0x62, 0x2e, 0x63] ∧
      OverloadsAgree (memoryOf [0x61, 0x2f, 0x62, 0x2e, 0x63]) 6 0
        ⟨[0x61, 0x2f, 0x62, 0x2e, 0x63] ++ List.replicate 255 0, 5⟩ Outputs.create := by
  apply (splits_iff_splittable (holdsText_memoryOf _) (by decide) (by decide) (by decide) ?_
    Outputs.create_sized).mpr
  · refine Splittable.path (d := 1) (e := 3) (by decide) rfl rfl (by decide) (by decide) ?_ ?_ ?_
      ?_ ?_ ?_
    all_goals exact ends_create (by decide)
  · constructor
    · rw [List.length_append, List.length_replicate]
      rfl
    · rfl
    · decide
    · intro i hi
      exact List.getElem?_append_left hi
    · rfl
    · decide

theorem name_not_splits : ¬ (Splits (fun i => memoryOf [0x61] (0 + i)) (BitVec.ofNat 32 1)
    Outputs.create [0x61] ∧ OverloadsAgree (memoryOf [0x61]) 2 0
      ⟨[0x61] ++ List.replicate 259 0, 1⟩ Outputs.create) := by
  rintro ⟨hsplits, -⟩
  have hreads : Reads (fun i => memoryOf [0x61] (0 + i)) [0x61] :=
    ⟨(holdsText_memoryOf _).get, (holdsText_memoryOf _).nul⟩
  have hdirectory := ((getDirectory_gives_iff hreads rfl (List.cons_ne_nil _ _) (by decide)
    (by decide) Outputs.create_sized.directory).mp hsplits.directory).1
  exact absurd hdirectory (by decide)

end Awn.Path
