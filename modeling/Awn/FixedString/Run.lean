import Awn.Memory.Strcmp
import Mathlib.Algebra.Group.Nat.Defs

/-!
The operations of `vp::util::FixedString` with every write of the array. An operation has no result
where a write falls outside. `is_constant_evaluated` picks the path for constant evaluation.
-/

namespace Awn

/-- A copy of bytes to a place of an array, or `none` outside of it. -/
def writeBytes (array : List (BitVec 8)) (place : ℕ) (bytes : List (BitVec 8)) :
    Option (List (BitVec 8)) :=
  if place + bytes.length ≤ array.length then
    some (array.take place ++ bytes ++ array.drop (place + bytes.length))
  else none

def TStringLength : List (BitVec 8) → ℕ → ℕ
  | _ :: string, max_size + 1 => TStringLength string max_size + 1
  | _, _ => 0

def TStringCopy (array : List (BitVec 8)) (place : ℕ) (src : List (BitVec 8)) (max_size : ℕ) :
    Option (List (BitVec 8) × ℕ) :=
  let len := TStringLength src max_size
  (writeBytes array place (src.take len ++ [0])).map fun array => (array, len)

namespace FixedString

variable {Size : ℕ} (is_constant_evaluated : Bool) (s rhs : FixedString Size)

def assureTermination : FixedString Size :=
  { s with m_string_array := s.m_string_array.set (Size - 1) 0 }

def copyIn (string : List (BitVec 8)) : Option (FixedString Size) :=
  let len := string.length
  (writeBytes s.m_string_array 0 string).bind fun array =>
    (writeBytes array (len + 1) [0]).map fun m_string_array =>
      { m_string_array, m_length := BitVec.ofNat 32 len }

def tCopyIn (string : List (BitVec 8)) : Option (FixedString Size) :=
  (TStringCopy s.m_string_array 0 string (TStringLength string (Size - 1))).map fun r =>
    { m_string_array := r.1, m_length := BitVec.ofNat 32 r.2 }

def construct (string : Option CString) : Option (FixedString Size) :=
  match string with
  | none => some (create Size)
  | some string =>
    let s := create Size
    (if is_constant_evaluated then s.tCopyIn string.1 else s.copyIn string.1).map assureTermination

def constructCopy : Option (FixedString Size) :=
  let s := create Size
  let len := if rhs.m_length.toNat < Size - 1 then rhs.m_length.toNat else Size - 1
  (if is_constant_evaluated then s.tCopyIn rhs.getString
  else s.copyIn (rhs.m_string_array.take len)).map assureTermination

def assignCopy : Option (FixedString Size) :=
  let len := if rhs.m_length.toNat < Size - 1 then rhs.m_length.toNat else Size - 1
  (if is_constant_evaluated then s.tCopyIn rhs.getString
  else s.copyIn (rhs.m_string_array.take len)).map assureTermination

def assignString (string : Option CString) : Option (FixedString Size) :=
  match string with
  | none => some s.clear
  | some string =>
    if is_constant_evaluated then s.tCopyIn string.1
    else (s.copyIn string.1).map assureTermination

def vsnprintf (array : List (BitVec 8)) (place room : ℕ) (formatted : CString) :
    Option (List (BitVec 8)) :=
  if room = 0 then some array else writeBytes array place (formatted.1.take (room - 1) ++ [0])

/-- `Format`, with the string that the format and its arguments make. It asserts that `vsnprintf`
returns its length, which has 31 bits. -/
def format (formatted : CString) : Option (FixedString Size) :=
  if formatted.1.length < 2 ^ 31 then
    (vsnprintf s.m_string_array 0 Size formatted).map fun m_string_array =>
      assureTermination { m_string_array, m_length := BitVec.ofNat 32 formatted.1.length }
  else none

def appendFormat (formatted : CString) : Option (FixedString Size) :=
  if formatted.1.length < 2 ^ 31 then
    let room := (BitVec.ofNat 64 Size - s.m_length.setWidth 64).toNat
    (vsnprintf s.m_string_array s.m_length.toNat room formatted).map fun m_string_array =>
      assureTermination
        { m_string_array, m_length := s.m_length + BitVec.ofNat 32 formatted.1.length }
  else none

def append (string : CString) : Option (FixedString Size) :=
  let room := (BitVec.ofNat 64 Size - s.m_length.setWidth 64 - 1).toNat
  let append_length := TStringLength string.1 room
  let array :=
    if is_constant_evaluated then
      (TStringCopy s.m_string_array s.m_length.toNat string.1 append_length).map Prod.fst
    else writeBytes s.m_string_array s.m_length.toNat (string.1.take append_length)
  array.map fun m_string_array =>
    assureTermination { m_string_array, m_length := s.m_length + BitVec.ofNat 32 append_length }

def truncateStart (offset_from_start : BitVec 32) : Option (FixedString Size) :=
  if s.m_length ≤ offset_from_start then some (assureTermination { s with m_length := 0 })
  else
    let new_length := s.m_length - offset_from_start
    let moved := (s.m_string_array.drop offset_from_start.toNat).take new_length.toNat
    (writeBytes s.m_string_array 0 moved).map fun m_string_array =>
      assureTermination { m_string_array, m_length := new_length }

def truncateEnd (offset_from_end : BitVec 32) : FixedString Size :=
  if s.m_length ≤ offset_from_end then assureTermination { s with m_length := 0 }
  else assureTermination { s with m_length := s.m_length - offset_from_end }

structure Represents (xs : List (BitVec 8)) : Prop where
  size : s.m_string_array.length = Size
  length : s.m_length.toNat = xs.length
  fits : xs.length < Size
  get : ∀ i < xs.length, s.m_string_array[i]? = xs[i]?
  nul : s.m_string_array[xs.length]? = some 0
  nonzero : ∀ c ∈ xs, c ≠ 0

end FixedString

/-! Runs of a string, and the characters that it is to hold. -/

theorem writeBytes_spec (array bytes : List (BitVec 8)) (place : ℕ)
    (h : place + bytes.length ≤ array.length) :
    ∃ array', writeBytes array place bytes = some array' ∧ array'.length = array.length ∧
      ∀ i, array'[i]? =
        if place ≤ i ∧ i < place + bytes.length then bytes[i - place]? else array[i]? := by
  refine ⟨_, if_pos h, ?_, ?_⟩
  · simp only [List.length_append, List.length_take, List.length_drop]
    omega
  · intro i
    have htake : (array.take place).length = place := by
      rw [List.length_take]
      omega
    by_cases hlow : i < place
    · rw [if_neg (by omega), List.append_assoc, List.getElem?_append_left (by omega),
        List.getElem?_take_of_lt hlow]
    · rw [List.append_assoc, List.getElem?_append_right (by omega), htake]
      by_cases hhigh : i < place + bytes.length
      · rw [if_pos (by omega), List.getElem?_append_left (by omega)]
      · rw [if_neg (by omega), List.getElem?_append_right (by omega), List.getElem?_drop]
        congr 1
        omega

theorem TStringLength_eq (string : List (BitVec 8)) (max_size : ℕ) :
    TStringLength string max_size = min string.length max_size := by
  induction string generalizing max_size with
  | nil =>
    rw [TStringLength, List.length_nil, Nat.zero_min]
    · intro c string max_size heq
      cases heq
  | cons c string ih =>
    cases max_size with
    | zero => rfl
    | succ max_size =>
      rw [TStringLength, ih, List.length_cons]
      omega

namespace FixedString

variable {Size : ℕ} {s s' rhs : FixedString Size} {xs ys string : List (BitVec 8)}

theorem Represents.getString (h : s.Represents xs) : s.getString = xs := by
  have hfits := h.fits
  have hsize := h.size
  have htake : s.m_string_array.take xs.length = xs := by
    apply List.ext_getElem?
    intro i
    by_cases hi : i < xs.length
    · rw [List.getElem?_take_of_lt hi, h.get i hi]
    · rw [List.getElem?_eq_none (by rw [List.length_take]; omega), List.getElem?_eq_none (by omega)]
  have hdrop : s.m_string_array.drop xs.length = 0 :: s.m_string_array.drop (xs.length + 1) := by
    obtain ⟨hlt, hnul⟩ := List.getElem?_eq_some_iff.mp h.nul
    rw [List.drop_eq_getElem_cons hlt, hnul]
  have hsplit : s.m_string_array = xs ++ 0 :: s.m_string_array.drop (xs.length + 1) := by
    rw [← hdrop]
    calc s.m_string_array
        = s.m_string_array.take xs.length ++ s.m_string_array.drop xs.length :=
          (List.take_append_drop _ _).symm
      _ = xs ++ s.m_string_array.drop xs.length := by rw [htake]
  rw [FixedString.getString, hsplit]
  exact takeWhile_ne_zero _ _ h.nonzero

theorem Represents.assure (h : s.Represents xs) : s.assureTermination.Represents xs := by
  have hfits := h.fits
  have hsize := h.size
  constructor
  · rw [assureTermination, List.length_set, hsize]
  · exact h.length
  · exact hfits
  · intro i hi
    rw [assureTermination, List.getElem?_set_ne (by omega)]
    exact h.get i hi
  · by_cases hlast : xs.length = Size - 1
    · rw [assureTermination, hlast, List.getElem?_set_self (by omega)]
    · rw [assureTermination, List.getElem?_set_ne (by omega)]
      exact h.nul
  · exact h.nonzero

theorem ofNat_toNat {Size n : ℕ} (hSize : Size < 0x400000) (hn : n ≤ Size) :
    (BitVec.ofNat 32 n).toNat = n := by
  rw [BitVec.toNat_ofNat]
  omega

section Copies

variable (hSize : Size < 0x400000) (hs : s.m_string_array.length = Size)
  (hstring : ∀ c ∈ string, c ≠ 0)

include hSize hs hstring

theorem copyIn_represents (hfits : string.length + 2 ≤ Size)
    (hnul : s.m_string_array[string.length]? = some 0) :
    ∃ s', s.copyIn string = some s' ∧ s'.Represents string := by
  obtain ⟨array, harray, hlength, hget⟩ :=
    writeBytes_spec s.m_string_array string 0 (by omega)
  obtain ⟨array', harray', hlength', hget'⟩ :=
    writeBytes_spec array [0] (string.length + 1)
      (by rw [List.length_singleton]; omega)
  refine ⟨⟨array', BitVec.ofNat 32 string.length⟩, ?_, ?_⟩
  · unfold copyIn
    dsimp only
    rw [harray, Option.bind_some, harray', Option.map_some]
  · constructor
    · dsimp only
      omega
    · exact ofNat_toNat hSize (by omega)
    · omega
    · intro i hi
      dsimp only
      rw [hget', if_neg (by omega), hget, if_pos (by omega), Nat.sub_zero]
    · dsimp only
      rw [hget', if_neg (by omega), hget, if_neg (by omega), hnul]
    · exact hstring

theorem tCopyIn_represents (hpos : 0 < Size) :
    ∃ s', s.tCopyIn string = some s' ∧ s'.Represents (string.take (Size - 1)) := by
  have hlen : TStringLength string (TStringLength string (Size - 1)) =
      (string.take (Size - 1)).length := by
    rw [TStringLength_eq, TStringLength_eq, List.length_take]
    omega
  have htake : string.take (string.take (Size - 1)).length = string.take (Size - 1) := by
    rw [List.length_take]
    apply List.ext_getElem?
    intro i
    rw [List.getElem?_take, List.getElem?_take]
    by_cases hi : i < string.length
    · by_cases hlow : i < Size - 1
      · rw [if_pos (by omega), if_pos hlow]
      · rw [if_neg (by omega), if_neg hlow]
    · rw [List.getElem?_eq_none (by omega), ite_self, ite_self]
  have hle : (string.take (Size - 1)).length ≤ Size - 1 := by
    rw [List.length_take]
    omega
  have hnonzero : ∀ c ∈ string.take (Size - 1), c ≠ 0 := fun c hc =>
    hstring c (List.mem_of_mem_take hc)
  unfold tCopyIn TStringCopy
  dsimp only
  rw [hlen, htake]
  generalize string.take (Size - 1) = text at hle hnonzero
  obtain ⟨array, harray, hlength, hget⟩ :=
    writeBytes_spec s.m_string_array (text ++ [0]) 0
      (by rw [List.length_append, List.length_singleton]; omega)
  rw [List.length_append, List.length_singleton] at hget
  refine ⟨_, by rw [harray]; rfl, ?_⟩
  constructor
  · dsimp only
    omega
  · exact ofNat_toNat hSize (show text.length ≤ Size by omega)
  · omega
  · intro i hi
    dsimp only
    rw [hget, if_pos (by omega), Nat.sub_zero, List.getElem?_append_left hi]
  · dsimp only
    rw [hget, if_pos (by omega), Nat.sub_zero, List.getElem?_concat_length]
  · exact hnonzero

end Copies

theorem create_represents (hpos : 0 < Size) : (create Size).Represents [] where
  size := List.length_replicate
  length := rfl
  fits := hpos
  get i hi := absurd hi (Nat.not_lt_zero i)
  nul := List.getElem?_replicate_of_lt hpos
  nonzero _ hc := absurd hc List.not_mem_nil

theorem Represents.clear (h : s.Represents xs) : s.clear.Represents [] := by
  have hsize := h.size
  have hfits := h.fits
  constructor
  · rw [FixedString.clear, List.length_set, hsize]
  · rfl
  · exact Nat.zero_lt_of_lt hfits
  · exact fun i hi => absurd hi (Nat.not_lt_zero i)
  · rw [FixedString.clear]
    exact List.getElem?_set_self (by omega)
  · exact fun c hc => absurd hc List.not_mem_nil

theorem Represents.extend (h : s.Represents xs) (hSize : Size < 0x400000)
    {array more : List (BitVec 8)} (hfits : xs.length + more.length < Size)
    (hlength : array.length = Size)
    (hbelow : ∀ i < xs.length, array[i]? = s.m_string_array[i]?)
    (hmore : ∀ i < more.length, array[xs.length + i]? = more[i]?)
    (hnul : array[xs.length + more.length]? = some 0) (hnonzero : ∀ c ∈ more, c ≠ 0) :
    (FixedString.mk array (s.m_length + BitVec.ofNat 32 more.length) :
      FixedString Size).Represents (xs ++ more) := by
  have htoNat := ofNat_toNat hSize (show more.length ≤ Size by omega)
  have hold := h.length
  constructor
  · exact hlength
  · dsimp only
    rw [BitVec.toNat_add, htoNat, hold, List.length_append]
    omega
  · rw [List.length_append]
    exact hfits
  · intro i hi
    dsimp only
    rw [List.length_append] at hi
    by_cases hlow : i < xs.length
    · rw [hbelow i hlow, h.get i hlow, List.getElem?_append_left hlow]
    · obtain ⟨k, rfl⟩ := Nat.exists_eq_add_of_le (Nat.le_of_not_lt hlow)
      rw [hmore k (by omega), List.getElem?_append_right (by omega), Nat.add_sub_cancel_left]
  · rw [List.length_append]
    exact hnul
  · intro c hc
    rcases List.mem_append.mp hc with hc | hc
    · exact h.nonzero c hc
    · exact hnonzero c hc

theorem Represents.room (h : s.Represents xs) (hSize : Size < 0x400000) :
    (BitVec.ofNat 64 Size - s.m_length.setWidth 64).toNat = Size - xs.length := by
  have hlength := h.length
  have hfits := h.fits
  have hlt := s.m_length.isLt
  rw [BitVec.toNat_sub, BitVec.toNat_ofNat, BitVec.toNat_setWidth]
  omega

theorem take_append_take (xs ys : List (BitVec 8)) {n : ℕ} (h : xs.length ≤ n) :
    (xs ++ ys).take n = xs ++ ys.take (n - xs.length) := by
  rw [List.take_append, List.take_of_length_le h]

theorem Represents.append (h : s.Represents xs) (hSize : Size < 0x400000) {string : CString}
    {is_constant_evaluated : Bool}
    (hmet : is_constant_evaluated = true ∨ Size ≤ xs.length + string.1.length + 1 ∨
      s.m_string_array[xs.length + string.1.length]? = some 0) :
    ∃ s', s.append is_constant_evaluated string = some s' ∧
      s'.Represents ((xs ++ string.1).take (Size - 1)) := by
  have hfits := h.fits
  have hsize := h.size
  have hlen := h.length
  have hroom : (BitVec.ofNat 64 Size - s.m_length.setWidth 64 - 1).toNat =
      Size - 1 - xs.length := by
    have hone : (1 : BitVec 64).toNat = 1 := rfl
    rw [BitVec.toNat_sub, h.room hSize, hone]
    omega
  rw [take_append_take _ _ (by omega)]
  have hnonzero : ∀ c ∈ string.1.take (Size - 1 - xs.length), c ≠ 0 := fun c hc =>
    string.2 c (List.mem_of_mem_take hc)
  have htake : (string.1.take (Size - 1 - xs.length)).length =
      TStringLength string.1 (Size - 1 - xs.length) := by
    rw [TStringLength_eq, List.length_take, Nat.min_comm]
  have hagain : string.1.take (TStringLength string.1 (Size - 1 - xs.length)) =
      string.1.take (Size - 1 - xs.length) := by
    rw [TStringLength_eq]
    rcases Nat.le_total string.1.length (Size - 1 - xs.length) with hle | hle
    · rw [Nat.min_eq_left hle, List.take_length, List.take_of_length_le hle]
    · rw [Nat.min_eq_right hle]
  have hmore : TStringLength string.1 (Size - 1 - xs.length) ≤ Size - 1 - xs.length := by
    rw [TStringLength_eq]
    omega
  have hcopy : TStringLength string.1 (TStringLength string.1 (Size - 1 - xs.length)) =
      TStringLength string.1 (Size - 1 - xs.length) := by
    rw [TStringLength_eq, TStringLength_eq]
    omega
  unfold FixedString.append
  dsimp only
  rw [hroom, hlen]
  cases is_constant_evaluated with
  | true =>
    obtain ⟨array, harray, hlength, hget⟩ := writeBytes_spec s.m_string_array
      (string.1.take (Size - 1 - xs.length) ++ [0]) xs.length
      (by rw [List.length_append, List.length_singleton, htake]; omega)
    rw [List.length_append, List.length_singleton] at hget
    have hwrite : TStringCopy s.m_string_array xs.length string.1
        (TStringLength string.1 (Size - 1 - xs.length)) =
        some (array, TStringLength string.1 (Size - 1 - xs.length)) := by
      unfold TStringCopy
      dsimp only
      rw [hcopy, hagain, harray]
      rfl
    rw [if_pos rfl, hwrite, Option.map_some, Option.map_some]
    refine ⟨_, rfl, Represents.assure ?_⟩
    dsimp only
    rw [← htake]
    apply h.extend hSize
    · omega
    · omega
    · intro i hi
      rw [hget, if_neg (by omega)]
    · intro i hi
      rw [hget, if_pos (by omega), Nat.add_sub_cancel_left, List.getElem?_append_left hi]
    · rw [hget, if_pos (by omega), Nat.add_sub_cancel_left, List.getElem?_concat_length]
    · exact hnonzero
  | false =>
    obtain ⟨array, harray, hlength, hget⟩ := writeBytes_spec s.m_string_array
      (string.1.take (Size - 1 - xs.length)) xs.length (by omega)
    rw [if_neg (by decide), hagain, harray, Option.map_some]
    refine ⟨_, rfl, ?_⟩
    rw [← htake]
    -- the last place of the array gets its NUL from `AssureTermination`
    have hset : ∀ i, (array.set (Size - 1) 0)[i]? = if i = Size - 1 then some 0 else array[i]? := by
      intro i
      by_cases hi : i = Size - 1
      · rw [if_pos hi, hi, List.getElem?_set_self (by omega)]
      · rw [if_neg hi, List.getElem?_set_ne (by omega)]
    unfold assureTermination
    dsimp only
    apply h.extend hSize
    · omega
    · rw [List.length_set]
      omega
    · intro i hi
      rw [hset, if_neg (by omega), hget, if_neg (by omega)]
    · intro i hi
      rw [hset, if_neg (by omega), hget, if_pos (by omega), Nat.add_sub_cancel_left]
    · rw [hset]
      split
      · rfl
      · rename_i hlast
        rw [hget, if_neg (by omega)]
        rcases hmet with hconst | hfull | hnul
        · cases hconst
        · rw [TStringLength_eq] at htake
          omega
        · have hall : (string.1.take (Size - 1 - xs.length)).length = string.1.length := by
            have hin : xs.length + string.1.length < s.m_string_array.length :=
              (List.getElem?_eq_some_iff.mp hnul).1
            rw [TStringLength_eq] at htake
            omega
          rw [hall, hnul]
    · exact hnonzero

theorem Represents.format (h : s.Represents xs) (hSize : Size < 0x400000) {formatted : CString}
    (hmet : formatted.1.length < Size) :
    ∃ s', s.format formatted = some s' ∧ s'.Represents (formatted.1.take (Size - 1)) := by
  have hsize := h.size
  have htake : formatted.1.take (Size - 1) = formatted.1 := List.take_of_length_le (by omega)
  obtain ⟨array, harray, hlength, hget⟩ := writeBytes_spec s.m_string_array (formatted.1 ++ [0]) 0
    (by rw [List.length_append, List.length_singleton]; omega)
  rw [List.length_append, List.length_singleton] at hget
  have hprint : vsnprintf s.m_string_array 0 Size formatted = some array := by
    rw [vsnprintf, if_neg (by omega), htake, harray]
  unfold FixedString.format
  rw [if_pos (by omega), hprint, Option.map_some, htake]
  refine ⟨_, rfl, Represents.assure ?_⟩
  constructor
  · dsimp only
    omega
  · exact ofNat_toNat hSize (Nat.le_of_lt hmet)
  · exact hmet
  · intro i hi
    dsimp only
    rw [hget, if_pos (by omega), Nat.sub_zero, List.getElem?_append_left hi]
  · dsimp only
    rw [hget, if_pos (by omega), Nat.sub_zero, List.getElem?_concat_length]
  · exact formatted.2

theorem Represents.appendFormat (h : s.Represents xs) (hSize : Size < 0x400000)
    {formatted : CString} (hmet : xs.length + formatted.1.length < Size) :
    ∃ s', s.appendFormat formatted = some s' ∧
      s'.Represents ((xs ++ formatted.1).take (Size - 1)) := by
  have hsize := h.size
  have hlen := h.length
  have hwhole : (xs ++ formatted.1).take (Size - 1) = xs ++ formatted.1 :=
    List.take_of_length_le (by rw [List.length_append]; omega)
  have htake : formatted.1.take (Size - xs.length - 1) = formatted.1 :=
    List.take_of_length_le (by omega)
  obtain ⟨array, harray, hlength, hget⟩ := writeBytes_spec s.m_string_array
    (formatted.1 ++ [0]) xs.length
    (by rw [List.length_append, List.length_singleton]; omega)
  rw [List.length_append, List.length_singleton] at hget
  have hprint : vsnprintf s.m_string_array xs.length (Size - xs.length) formatted = some array := by
    rw [vsnprintf, if_neg (by omega), htake, harray]
  unfold FixedString.appendFormat
  dsimp only
  rw [if_pos (by omega), h.room hSize, hlen, hprint, Option.map_some, hwhole]
  refine ⟨_, rfl, Represents.assure ?_⟩
  apply h.extend hSize
  · omega
  · omega
  · intro i hi
    rw [hget, if_neg (by omega)]
  · intro i hi
    rw [hget, if_pos (by omega), Nat.add_sub_cancel_left, List.getElem?_append_left hi]
  · rw [hget, if_pos (by omega), Nat.add_sub_cancel_left, List.getElem?_concat_length]
  · exact formatted.2

theorem Represents.truncateStart (h : s.Represents xs) {offset : BitVec 32}
    (hmet : offset = 0 ∨ s.m_length = 0) :
    ∃ s', s.truncateStart offset = some s' ∧ s'.Represents (xs.drop offset.toNat) := by
  have hlen := h.length
  have hsize := h.size
  have hfits := h.fits
  unfold FixedString.truncateStart
  by_cases hempty : s.m_length = 0
  · have hnil : xs = [] := by
      rw [hempty] at hlen
      exact List.length_eq_zero_iff.mp hlen.symm
    have hle : s.m_length ≤ offset := by
      rw [hempty]
      exact BitVec.le_def.mpr (Nat.zero_le _)
    rw [if_pos hle, hnil, List.drop_nil, ← hempty]
    rw [hnil] at h
    exact ⟨_, rfl, h.assure⟩
  · have hzero := hmet.resolve_right hempty
    have hnle : ¬s.m_length ≤ 0 := by
      intro hle
      exact hempty (BitVec.eq_of_toNat_eq (Nat.le_zero.mp (BitVec.le_def.mp hle)))
    have hstay : s.m_length - 0 = s.m_length := BitVec.sub_zero _
    have hnone : (0 : BitVec 32).toNat = 0 := rfl
    rw [hzero, if_neg hnle]
    dsimp only
    rw [hstay, hlen, hnone, List.drop_zero, List.drop_zero]
    have hmoved : (s.m_string_array.take xs.length).length = xs.length := by
      rw [List.length_take]
      omega
    obtain ⟨array, harray, hlength, hget⟩ := writeBytes_spec s.m_string_array
      (s.m_string_array.take xs.length) 0 (by omega)
    have hsame : array = s.m_string_array := by
      apply List.ext_getElem?
      intro i
      rw [hget]
      split
      · rw [Nat.sub_zero, List.getElem?_take_of_lt (by omega)]
      · rfl
    rw [harray, hsame]
    exact ⟨_, rfl, h.assure⟩

theorem Represents.truncateEnd (h : s.Represents xs) {offset : BitVec 32}
    (hmet : offset = 0 ∨ s.m_length = 0) :
    (s.truncateEnd offset).Represents (xs.take (xs.length - offset.toNat)) := by
  have hlen := h.length
  unfold FixedString.truncateEnd
  by_cases hempty : s.m_length = 0
  · have hnil : xs = [] := by
      rw [hempty] at hlen
      exact List.length_eq_zero_iff.mp hlen.symm
    have hle : s.m_length ≤ offset := by
      rw [hempty]
      exact BitVec.le_def.mpr (Nat.zero_le _)
    rw [if_pos hle, hnil, List.take_nil, ← hempty]
    rw [hnil] at h
    exact h.assure
  · have hzero := hmet.resolve_right hempty
    have hnle : ¬s.m_length ≤ 0 := by
      intro hle
      exact hempty (BitVec.eq_of_toNat_eq (Nat.le_zero.mp (BitVec.le_def.mp hle)))
    have hstay : s.m_length - 0 = s.m_length := BitVec.sub_zero _
    have hnone : (0 : BitVec 32).toNat = 0 := rfl
    rw [hzero, if_neg hnle, hstay, hnone, Nat.sub_zero, List.take_length]
    exact h.assure

inductive Call (Size : ℕ)
  | construct (is_constant_evaluated : Bool) (string : Option CString)
  | constructCopy (is_constant_evaluated : Bool) (rhs : FixedString Size)
  | assignCopy (is_constant_evaluated : Bool) (rhs : FixedString Size)
  | assignString (is_constant_evaluated : Bool) (rhs : Option CString)
  | format (formatted : CString)
  | appendFormat (formatted : CString)
  | append (is_constant_evaluated : Bool) (string : CString)
  | truncateStart (offset_from_start : BitVec 32)
  | truncateEnd (offset_from_end : BitVec 32)
  | clear

def call (s : FixedString Size) : Call Size → Option (FixedString Size)
  | .construct const string => construct const string
  | .constructCopy const rhs => constructCopy const rhs
  | .assignCopy const rhs => s.assignCopy const rhs
  | .assignString const rhs => s.assignString const rhs
  | .format formatted => s.format formatted
  | .appendFormat formatted => s.appendFormat formatted
  | .append const string => s.append const string
  | .truncateStart offset => s.truncateStart offset
  | .truncateEnd offset => some (s.truncateEnd offset)
  | .clear => some s.clear

def intended (xs : List (BitVec 8)) : Call Size → List (BitVec 8)
  | .construct _ string => ((string.map Subtype.val).getD []).take (Size - 1)
  | .constructCopy _ rhs => rhs.getString.take (Size - 1)
  | .assignCopy _ rhs => rhs.getString.take (Size - 1)
  | .assignString _ rhs => ((rhs.map Subtype.val).getD []).take (Size - 1)
  | .format formatted => formatted.1.take (Size - 1)
  | .appendFormat formatted => (xs ++ formatted.1).take (Size - 1)
  | .append _ string => (xs ++ string.1).take (Size - 1)
  | .truncateStart offset => xs.drop offset.toNat
  | .truncateEnd offset => xs.take (xs.length - offset.toNat)
  | .clear => []

def Admitted : Call Size → Prop
  | .constructCopy _ rhs => ∃ ys, rhs.Represents ys
  | .assignCopy _ rhs => ∃ ys, rhs.Represents ys
  | _ => True

def Met (s : FixedString Size) : Call Size → Prop
  | .construct const string => ∀ text ∈ string, const = true ∨ text.1.length + 2 ≤ Size
  | .constructCopy const rhs => const = true ∨ rhs.m_length.toNat + 2 ≤ Size
  | .assignCopy const rhs => const = true ∨ rhs.m_length.toNat + 2 ≤ Size ∧
      s.m_string_array[rhs.m_length.toNat]? = some 0
  | .assignString const rhs => ∀ text ∈ rhs, const = true ∨ text.1.length + 2 ≤ Size ∧
      s.m_string_array[text.1.length]? = some 0
  | .format formatted => formatted.1.length < Size
  | .appendFormat formatted => s.m_length.toNat + formatted.1.length < Size
  | .append const string => const = true ∨ Size ≤ s.m_length.toNat + string.1.length + 1 ∨
      s.m_string_array[s.m_length.toNat + string.1.length]? = some 0
  | .truncateStart offset => offset = 0 ∨ s.m_length = 0
  | .truncateEnd offset => offset = 0 ∨ s.m_length = 0
  | .clear => True

inductive Run (allowed : FixedString Size → Call Size → Prop) :
    FixedString Size → List (BitVec 8) → Prop
  | start : Run allowed (create Size) []
  | step {s s' : FixedString Size} {xs : List (BitVec 8)} {c : Call Size} : Run allowed s xs →
      Admitted c → allowed s c → s.call c = some s' → Run allowed s' (intended xs c)

structure Correct (allowed : FixedString Size → Call Size → Prop) (s : FixedString Size)
    (xs : List (BitVec 8)) : Prop where
  represents : s.Represents xs
  returns : ∀ c, Admitted c → allowed s c → ∃ s', s.call c = some s'

theorem copy_represents (hSize : Size < 0x400000) (hs : s.m_string_array.length = Size)
    {const : Bool} (hpos : 0 < Size) (hstring : ∀ c ∈ string, c ≠ 0)
    (hmet : const = true ∨
      string.length + 2 ≤ Size ∧ s.m_string_array[string.length]? = some 0) :
    ∃ s', (if const then s.tCopyIn string else s.copyIn string) = some s' ∧
      s'.Represents (string.take (Size - 1)) := by
  cases const with
  | true => exact tCopyIn_represents hSize hs hstring hpos
  | false =>
    obtain ⟨hfits, hnul⟩ := hmet.resolve_left Bool.false_ne_true
    rw [List.take_of_length_le (by omega)]
    exact copyIn_represents hSize hs hstring hfits hnul

theorem Represents.copied (h : rhs.Represents ys) :
    rhs.m_string_array.take (if rhs.m_length.toNat < Size - 1 then rhs.m_length.toNat
      else Size - 1) = ys := by
  have hlen := h.length
  have hfits := h.fits
  have hsize := h.size
  have hcount : (if rhs.m_length.toNat < Size - 1 then rhs.m_length.toNat else Size - 1) =
      ys.length := by
    split
    · exact hlen
    · omega
  rw [hcount]
  apply List.ext_getElem?
  intro i
  by_cases hi : i < ys.length
  · rw [List.getElem?_take_of_lt hi, h.get i hi]
  · rw [List.getElem?_eq_none (by rw [List.length_take]; omega), List.getElem?_eq_none (by omega)]

theorem Represents.call (h : s.Represents xs) (hSize : Size < 0x400000) {c : Call Size}
    (hadmitted : Admitted c) (hmet : Met s c) :
    ∃ s', s.call c = some s' ∧ s'.Represents (intended xs c) := by
  have hpos : 0 < Size := Nat.zero_lt_of_lt h.fits
  have hcreate := create_represents hpos
  have hfresh : ∀ n, n + 2 ≤ Size → (create Size).m_string_array[n]? = some 0 := fun n hn =>
    List.getElem?_replicate_of_lt (by omega)
  cases c with
  | construct const string =>
    cases string with
    | none =>
      rw [intended, Option.map_none, Option.getD_none, List.take_nil]
      exact ⟨_, rfl, hcreate⟩
    | some text =>
      obtain ⟨s', heq, h'⟩ := copy_represents hSize hcreate.size hpos text.2
        ((hmet text rfl).imp_right fun hfits => ⟨hfits, hfresh _ hfits⟩)
      exact ⟨_, congrArg (Option.map _) heq, h'.assure⟩
  | constructCopy const rhs =>
    obtain ⟨ys, hrhs⟩ := hadmitted
    have hys := hrhs.getString
    obtain ⟨s', heq, h'⟩ := copy_represents hSize hcreate.size hpos hrhs.nonzero
      (hmet.imp_right fun hfits => by
        rw [hrhs.length] at hfits
        exact ⟨hfits, hfresh _ hfits⟩)
    rw [intended, hys]
    refine ⟨_, ?_, h'.assure⟩
    unfold FixedString.call FixedString.constructCopy
    dsimp only
    rw [hrhs.copied, hys, heq, Option.map_some]
  | assignCopy const rhs =>
    obtain ⟨ys, hrhs⟩ := hadmitted
    have hys := hrhs.getString
    have hmet' : const = true ∨ ys.length + 2 ≤ Size ∧ s.m_string_array[ys.length]? = some 0 := by
      rw [← hrhs.length]
      exact hmet
    obtain ⟨s', heq, h'⟩ := copy_represents hSize h.size hpos hrhs.nonzero hmet'
    rw [intended, hys]
    refine ⟨_, ?_, h'.assure⟩
    unfold FixedString.call FixedString.assignCopy
    dsimp only
    rw [hrhs.copied, hys, heq, Option.map_some]
  | assignString const rhs =>
    cases rhs with
    | none =>
      rw [intended, Option.map_none, Option.getD_none, List.take_nil]
      exact ⟨_, rfl, h.clear⟩
    | some text =>
      obtain ⟨s', heq, h'⟩ := copy_represents hSize h.size hpos text.2 (hmet text rfl)
      rw [intended, Option.map_some, Option.getD_some]
      unfold FixedString.call FixedString.assignString
      cases const with
      | true => exact ⟨s', heq, h'⟩
      | false => exact ⟨_, congrArg (Option.map _) heq, h'.assure⟩
  | format formatted => exact h.format hSize hmet
  | appendFormat formatted =>
    apply h.appendFormat hSize
    rw [← h.length]
    exact hmet
  | append const string =>
    apply h.append hSize
    rw [← h.length]
    exact hmet
  | truncateStart offset => exact h.truncateStart hmet
  | truncateEnd offset => exact ⟨_, rfl, h.truncateEnd hmet⟩
  | clear => exact ⟨_, rfl, h.clear⟩

theorem Run.represents (hpos : 0 < Size) (hSize : Size < 0x400000) (h : Run Met s xs) :
    s.Represents xs := by
  induction h with
  | start => exact create_represents hpos
  | step _ hadmitted hmet hcall ih =>
    obtain ⟨s', heq, h'⟩ := ih.call hSize hadmitted hmet
    rw [hcall] at heq
    rw [Option.some.inj heq]
    exact h'

/-- In every run whose calls meet the condition the string is well formed. -/
theorem represents_of_run (Size : ℕ) (hpos : 0 < Size) (hSize : Size < 0x400000)
    (s : FixedString Size) (xs : List (BitVec 8)) (h : Run Met s xs) : Correct Met s xs := by
  have hrep := h.represents hpos hSize
  refine ⟨hrep, ?_⟩
  intro c hadmitted hmet
  obtain ⟨s', heq, -⟩ := hrep.call hSize hadmitted hmet
  exact ⟨s', heq⟩

theorem represents_of_run_formatted :
    Correct Met (FixedString.mk [0x61, 0x62, 0, 0] 2 : FixedString 4) [0x61, 0x62] := by
  apply represents_of_run 4 (by decide) (by decide)
  have hformat : (create 4).call (.format ⟨[0x61, 0x62], by decide⟩) =
      some (FixedString.mk [0x61, 0x62, 0, 0] 2) := rfl
  exact .step (c := .format ⟨[0x61, 0x62], by decide⟩) .start trivial
    (show 2 < 4 by decide) hformat

theorem threeOfFour_not_correct : ∃ s xs, Run (fun _ _ => True) s xs ∧
    ¬Correct (fun _ _ => True) (s : FixedString 4) xs := by
  refine ⟨create 4, [], .start, ?_⟩
  intro h
  obtain ⟨s', hs'⟩ := h.returns (.construct false (some ⟨[0x61, 0x62, 0x63], by decide⟩)) trivial
    trivial
  cases hs'

end FixedString

end Awn
