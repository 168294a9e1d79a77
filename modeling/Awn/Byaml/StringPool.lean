import Awn.Byaml.StringTable
import Awn.IntrusiveList.Insert
import Awn.IntrusiveList.Represents
import Awn.Memory.Placement

/-!
`vp::resbui::ByamlStringPoolBuilder`: two lists that share the nodes of the strings. The loops
follow the links, and `none` is out of fuel.
-/

namespace Awn.Byaml

open Memory

inductive PoolList
  | m_string_list
  | m_collision_list
  deriving DecidableEq

abbrev PoolNode (E : Type*) := PoolList ⊕ E

structure ByamlStringPoolBuilder (E : Type*) where
  links : Links (PoolNode E) := .alone
  m_index : E → BitVec 32 := fun _ => 0xffffffff
  m_is_sorted : Bool

structure ByamlStringPoolBuilderMemoryInfo where
  total_size : BitVec 64
  max_alignment : BitVec 64
  string_count : BitVec 32

namespace ByamlStringPoolBuilder

variable {E : Type*} [DecidableEq E] (strcmp : CString → CString → BitVec 32) (text : E → CString)

def stringLength (e : E) : BitVec 32 := BitVec.ofNat 32 (text e).1.length

def IsEmpty (b : ByamlStringPoolBuilder E) (list : PoolList) : Bool := !b.links.isLinked (.inl list)

def Back (b : ByamlStringPoolBuilder E) (list : PoolList) : PoolNode E := b.links.prev (.inl list)

def PushBack (b : ByamlStringPoolBuilder E) (list : PoolList) (pool_string : E) :
    ByamlStringPoolBuilder E :=
  { b with links := b.links.linkPrev (.inl list) (.inr pool_string) }

def collides (l : Links (PoolNode E)) (isEqual : E → Bool) : ℕ → PoolNode E → Option Bool
  | 0, _ => none
  | fuel + 1, iter =>
    match iter with
    | .inl _ => some false
    | .inr string => if isEqual string = false then collides l isEqual fuel (l.next iter) else some true

def findPrev (l : Links (PoolNode E)) (pool_string : E) :
    ℕ → PoolNode E → PoolNode E → Option (PoolNode E)
  | 0, _, _ => none
  | fuel + 1, prev_string, iter =>
    match iter with
    | .inl _ => some prev_string
    | .inr string =>
      if (strcmp (text string) (text pool_string)).toInt < 0 then
        findPrev l pool_string fuel iter (l.next iter)
      else some prev_string

def AddString (fuel : ℕ) (b : ByamlStringPoolBuilder E) (pool_string : E) :
    Option (ByamlStringPoolBuilder E) :=
  let first := b.links.next (.inl .m_string_list)
  if b.m_is_sorted = false then
    (collides b.links (fun string => strcmp (text string) (text pool_string) = 0) fuel first).map fun
      found =>
      if found = true then b.PushBack .m_collision_list pool_string
      else b.PushBack .m_string_list pool_string
  else
    (findPrev strcmp text b.links pool_string fuel (b.Back .m_string_list) first).map
      fun prev_string =>
        if prev_string = b.Back .m_string_list then b.PushBack .m_collision_list pool_string
        else { b with links := b.links.linkNext prev_string (.inr pool_string) }

def addStrings (fuel : ℕ) (b : ByamlStringPoolBuilder E) :
    List E → Option (ByamlStringPoolBuilder E)
  | [] => some b
  | pool_string :: calls =>
    match AddString strcmp text fuel b pool_string with
    | none => none
    | some b => addStrings fuel b calls

def resolve (fuel : ℕ) :
    ℕ → PoolNode E → ByamlStringPoolBuilder E → Option (ByamlStringPoolBuilder E)
  | 0, _, _ => none
  | turns + 1, iter, b =>
    match iter with
    | .inl _ => some b
    | .inr collided_string =>
      match collides b.links (fun string => strcmp (text collided_string) (text string) = 0) fuel
          (b.links.next (.inl .m_string_list)) with
      | none => none
      | some true => resolve fuel turns (b.links.next iter) b
      | some false =>
        match AddString strcmp text fuel { b with links := b.links.unlink iter } collided_string with
        | none => none
        | some b => resolve fuel turns (b.links.next iter) b

def ResolveCollisions (fuel : ℕ) (b : ByamlStringPoolBuilder E) :
    Option (ByamlStringPoolBuilder E) :=
  resolve strcmp text fuel fuel (b.links.next (.inl .m_collision_list)) b

def measure (l : Links (PoolNode E)) :
    ℕ → PoolNode E → BitVec 64 → BitVec 32 → Option (BitVec 64 × BitVec 32)
  | 0, _, _, _ => none
  | fuel + 1, iter, string_array_size, count =>
    match iter with
    | .inl _ => some (string_array_size, count)
    | .inr string =>
      measure l fuel (l.next iter)
        (string_array_size + (stringLength text string + 1).setWidth 64) (count + 1)

def CalculateMemoryInfo (fuel : ℕ) (b : ByamlStringPoolBuilder E)
    (out_memory_info : ByamlStringPoolBuilderMemoryInfo) :
    Option (ByamlStringPoolBuilder E × ByamlStringPoolBuilderMemoryInfo) :=
  match ResolveCollisions strcmp text fuel b with
  | none => none
  | some b =>
    if b.IsEmpty .m_string_list = true then some (b, out_memory_info)
    else
      (measure text b.links fuel (b.links.next (.inl .m_string_list)) 0 0).map fun sizes =>
        (b, {
          total_size := alignUp (0x4 + 0x4 * sizes.2.setWidth 64 + sizes.1) 4
          max_alignment := 4
          string_count := sizes.2 })

def writeStrings (l : Links (PoolNode E)) (header string_array_base : BitVec 64) :
    ℕ → PoolNode E → BitVec 32 → BitVec 32 → (E → BitVec 32) →
      Option (List Write × (E → BitVec 32))
  | 0, _, _, _, _ => none
  | fuel + 1, iter, i, string_iter, m_index =>
    match iter with
    | .inl _ => some ([], m_index)
    | .inr string =>
      let size := stringLength text string
      let string_base := string_array_base + string_iter.setWidth 64
      let here : List Write := [⟨string_base, (text string).1.take size.toNat⟩,
        ⟨string_base + size.setWidth 64, [0]⟩,
        ⟨header + 0x4 + 0x4 * i.setWidth 64, wordBytes 4 ((string_base - header).setWidth 32).toNat⟩]
      (writeStrings l header string_array_base fuel (l.next iter) (i + 1) (string_iter + size + 1)
        (Function.update m_index string (i - 1))).map fun rest => (here ++ rest.1, rest.2)

def Serialize (fuel : ℕ) (b : ByamlStringPoolBuilder E) (output_buffer : BitVec 64)
    (memory_info : ByamlStringPoolBuilderMemoryInfo) :
    Option (List Write × ByamlStringPoolBuilder E) :=
  if b.IsEmpty .m_string_list = true then some ([], b)
  else
    let string_array_base := output_buffer + 0x4 + 0x4 * memory_info.string_count.setWidth 64
    let header : List Write := [⟨output_buffer, wordBytes 4
        (ByamlDataType.KeyTable.toNat + 0x100 * (memory_info.string_count.toNat % 2 ^ 24))⟩,
      ⟨output_buffer + 0x4, wordBytes 4 0⟩]
    (writeStrings text b.links output_buffer string_array_base fuel
      (b.links.next (.inl .m_string_list)) 1 0 b.m_index).map fun strings =>
        (header ++ strings.1, { b with m_index := strings.2 })

def Written (calls : List E) (m : Bytes) (output_buffer : BitVec 64)
    (uninitialized : ByamlStringPoolBuilderMemoryInfo) : Prop :=
  ∃ fuel added resolved info writes b m',
    addStrings strcmp text fuel { m_is_sorted := true } calls = some added ∧
    CalculateMemoryInfo strcmp text fuel added uninitialized = some (resolved, info) ∧
    Serialize text fuel resolved output_buffer info = some (writes, b) ∧ applyWrites m writes = m' ∧
    (∀ i j : BitVec 32, i < j → j < stringCount m' output_buffer false →
      (tableString m' output_buffer false i).codes < (tableString m' output_buffer false j).codes) ∧
    (∀ string, (∃ e ∈ calls, text e = string) ↔
      ∃ i < stringCount m' output_buffer false, tableString m' output_buffer false i = string) ∧
    (∀ i < stringCount m' output_buffer false,
      (stringOffset m' false output_buffer i).toNat +
        (tableString m' output_buffer false i).1.length + 1 ≤ info.total_size.toNat) ∧
    (∀ e ∈ calls, b.m_index e < stringCount m' output_buffer false ∧
      cstring m' (GetStringByIndex m' false output_buffer (b.m_index e) 0) = text e) ∧
    VerifyStringTable m' strcmp output_buffer false = true

structure Isolated (l : Links (PoolNode E)) : Prop where
  next_head : l.next (.inl .m_string_list) = .inl .m_string_list
  prev_head : l.prev (.inl .m_string_list) = .inl .m_string_list
  next_ne : ∀ n, n ≠ .inl .m_string_list → l.next n ≠ .inl .m_string_list
  prev_ne : ∀ n, n ≠ .inl .m_string_list → l.prev n ≠ .inl .m_string_list

namespace Isolated

variable {l : Links (PoolNode E)} {n k : PoolNode E}

theorem setNext (h : Isolated l) (hn : n ≠ .inl .m_string_list) (hk : k ≠ .inl .m_string_list) :
    Isolated (l.setNext n k) where
  next_head := (Function.update_of_ne hn.symm _ _).trans h.next_head
  prev_head := h.prev_head
  next_ne i hi := by
    change Function.update l.next n k i ≠ _
    by_cases hin : i = n
    · rw [hin, Function.update_self]
      exact hk
    · rw [Function.update_of_ne hin]
      exact h.next_ne i hi
  prev_ne := h.prev_ne

theorem setPrev (h : Isolated l) (hn : n ≠ .inl .m_string_list) (hk : k ≠ .inl .m_string_list) :
    Isolated (l.setPrev n k) where
  next_head := h.next_head
  prev_head := (Function.update_of_ne hn.symm _ _).trans h.prev_head
  next_ne := h.next_ne
  prev_ne i hi := by
    change Function.update l.prev n k i ≠ _
    by_cases hin : i = n
    · rw [hin, Function.update_self]
      exact hk
    · rw [Function.update_of_ne hin]
      exact h.prev_ne i hi

theorem linkPrev (h : Isolated l) (hn : n ≠ .inl .m_string_list) (hk : k ≠ .inl .m_string_list) :
    Isolated (l.linkPrev n k) := by
  have h₁ := h.setPrev hk (h.prev_ne n hn)
  have h₂ := h₁.setNext (h.prev_ne k hk) hn
  have h₃ := h₂.setNext (h₂.prev_ne n hn) hk
  exact h₃.setPrev hn (h.prev_ne k hk)

theorem unlink (h : Isolated l) (hn : n ≠ .inl .m_string_list) : Isolated (l.unlink n) := by
  have h₁ := h.setNext (h.prev_ne n hn) (h.next_ne n hn)
  have h₂ := h₁.setPrev (h₁.next_ne n hn) (h₁.prev_ne n hn)
  exact (h₂.setNext hn hn).setPrev hn hn

end Isolated

/-- No string has got into the list of a sorted builder, and none has an index. -/
structure Stuck (b : ByamlStringPoolBuilder E) : Prop where
  isolated : Isolated b.links
  index : ∀ e, b.m_index e = 0xffffffff
  sorted : b.m_is_sorted = true

omit [DecidableEq E] in
theorem stuck_new : Stuck ({ m_is_sorted := true } : ByamlStringPoolBuilder E) where
  isolated := ⟨rfl, rfl, fun _ hn => hn, fun _ hn => hn⟩
  index _ := rfl
  sorted := rfl

variable {strcmp text} {fuel : ℕ} {b b' : ByamlStringPoolBuilder E}

theorem Stuck.pushBack (h : Stuck b) (pool_string : E) :
    Stuck (b.PushBack .m_collision_list pool_string) :=
  ⟨h.isolated.linkPrev (by simp) Sum.inr_ne_inl, h.index, h.sorted⟩

theorem Stuck.AddString_eq (h : Stuck b) (fuel : ℕ) (pool_string : E) :
    ByamlStringPoolBuilder.AddString strcmp text (fuel + 1) b pool_string =
      some (b.PushBack .m_collision_list pool_string) := by
  have hsorted : ¬b.m_is_sorted = false := by
    rw [h.sorted]
    exact Bool.noConfusion
  rw [ByamlStringPoolBuilder.AddString]
  rw [if_neg hsorted, h.isolated.next_head, findPrev, Option.map_some, if_pos rfl]

theorem Stuck.AddString (h : Stuck b) {pool_string : E}
    (hadd : ByamlStringPoolBuilder.AddString strcmp text fuel b pool_string = some b') : Stuck b' := by
  cases fuel with
  | zero =>
    have hsorted : ¬b.m_is_sorted = false := by
      rw [h.sorted]
      exact Bool.noConfusion
    rw [ByamlStringPoolBuilder.AddString, if_neg hsorted] at hadd
    cases hadd
  | succ fuel =>
    rw [h.AddString_eq] at hadd
    cases hadd
    exact h.pushBack pool_string

theorem Stuck.addStrings {calls : List E} (h : Stuck b)
    (hadd : ByamlStringPoolBuilder.addStrings strcmp text fuel b calls = some b') : Stuck b' := by
  induction calls generalizing b with
  | nil =>
    cases hadd
    exact h
  | cons pool_string calls ih =>
    rw [ByamlStringPoolBuilder.addStrings] at hadd
    cases hone : ByamlStringPoolBuilder.AddString strcmp text fuel b pool_string with
    | none =>
      rw [hone] at hadd
      cases hadd
    | some b₁ =>
      rw [hone] at hadd
      exact ih (h.AddString hone) hadd

theorem Stuck.resolve {turns : ℕ} {iter : PoolNode E} (h : Stuck b)
    (hresolve : ByamlStringPoolBuilder.resolve strcmp text fuel turns iter b = some b') :
    Stuck b' := by
  induction turns generalizing iter b with
  | zero => cases hresolve
  | succ turns ih =>
    cases iter with
    | inl list =>
      cases hresolve
      exact h
    | inr collided_string =>
      rw [ByamlStringPoolBuilder.resolve] at hresolve
      split at hresolve
      · cases hresolve
      · exact ih h hresolve
      · split at hresolve
        · cases hresolve
        · rename_i hadd
          have hunlinked : Stuck { b with links := b.links.unlink (.inr collided_string) } :=
            ⟨h.isolated.unlink Sum.inr_ne_inl, h.index, h.sorted⟩
          exact ih (hunlinked.AddString hadd) hresolve

theorem Stuck.isEmpty (h : Stuck b) : b.IsEmpty .m_string_list = true := by
  rw [IsEmpty, Links.isLinked, h.isolated.next_head]
  simp

theorem Stuck.addStrings_eq (h : Stuck b) (hpaired : b.links.Paired) (fuel : ℕ) (calls : List E) :
    ∃ b', ByamlStringPoolBuilder.addStrings strcmp text (fuel + 1) b calls = some b' ∧ Stuck b' ∧
      b'.links.Paired := by
  induction calls generalizing b with
  | nil => exact ⟨b, rfl, h, hpaired⟩
  | cons pool_string calls ih =>
    rw [ByamlStringPoolBuilder.addStrings, h.AddString_eq]
    exact ih (h.pushBack pool_string) (hpaired.linkPrev Sum.inl_ne_inr)

theorem Stuck.CalculateMemoryInfo_eq (h : Stuck b) (hpaired : b.links.Paired) (fuel : ℕ)
    (uninitialized : ByamlStringPoolBuilderMemoryInfo) :
    ∃ b', ByamlStringPoolBuilder.CalculateMemoryInfo strcmp text (fuel + 2) b uninitialized =
      some (b', uninitialized) := by
  have hends : ∃ b', ResolveCollisions strcmp text (fuel + 2) b = some b' ∧ Stuck b' := by
    rw [ResolveCollisions]
    cases hfirst : b.links.next (.inl .m_collision_list) with
    | inl list => exact ⟨b, rfl, h⟩
    | inr collided_string =>
      have hunlinked : Stuck { b with links := b.links.unlink (.inr collided_string) } :=
        ⟨h.isolated.unlink Sum.inr_ne_inl, h.index, h.sorted⟩
      have hback := hpaired.unlink_linkPrev Sum.inl_ne_inr hfirst
      refine ⟨_, ?_, hunlinked.pushBack collided_string⟩
      rw [ByamlStringPoolBuilder.resolve, h.isolated.next_head, collides]
      dsimp only
      rw [hunlinked.AddString_eq]
      change ByamlStringPoolBuilder.resolve strcmp text _ _ (Links.next (Links.linkPrev _ _ _) _) _ = _
      rw [hback]
      rfl
  obtain ⟨b', hresolve, hstuck⟩ := hends
  refine ⟨b', ?_⟩
  rw [ByamlStringPoolBuilder.CalculateMemoryInfo, hresolve]
  dsimp only
  rw [if_pos hstuck.isEmpty]

theorem Stuck.Serialize {writes : List Write} {resolved : ByamlStringPoolBuilder E}
    {output_buffer : BitVec 64} {uninitialized info : ByamlStringPoolBuilderMemoryInfo} (h : Stuck b)
    (hinfo : ByamlStringPoolBuilder.CalculateMemoryInfo strcmp text fuel b uninitialized =
      some (resolved, info))
    (hserialize : ByamlStringPoolBuilder.Serialize text fuel resolved output_buffer info =
      some (writes, b')) : Stuck b' ∧ info = uninitialized ∧ writes = [] := by
  rw [CalculateMemoryInfo, ResolveCollisions] at hinfo
  split at hinfo
  · cases hinfo
  · rename_i hresolve
    have hstuck := h.resolve hresolve
    rw [if_pos hstuck.isEmpty] at hinfo
    cases hinfo
    rw [ByamlStringPoolBuilder.Serialize, if_pos hstuck.isEmpty] at hserialize
    cases hserialize
    exact ⟨hstuck, rfl, rfl⟩

theorem Written.stuck {calls : List E} {m : Bytes} {output_buffer : BitVec 64}
    {uninitialized : ByamlStringPoolBuilderMemoryInfo}
    (h : Written strcmp text calls m output_buffer uninitialized) : calls = [] := by
  obtain ⟨fuel, added, resolved, info, writes, b, m', hadd, hinfo, hserialize, -, -, -, -, hindex, -⟩ := h
  obtain ⟨hstuck, -, -⟩ := (stuck_new.addStrings hadd).Serialize hinfo hserialize
  cases calls with
  | nil => rfl
  | cons e calls =>
    obtain ⟨hlt, -⟩ := hindex e List.mem_cons_self
    have hcount := GetCount_lt m' false output_buffer
    have hinvalid : (0xffffffff : BitVec 32).toNat = 0xffffffff := rfl
    rw [hstuck.index e, BitVec.lt_def, hinvalid, stringCount] at hlt
    omega

variable (strcmp text) in
/-- Whatever is added, the table is not written. -/
theorem not_written (calls : List E) (m : Bytes) (output_buffer : BitVec 64)
    (uninitialized : ByamlStringPoolBuilderMemoryInfo) :
    ¬Written strcmp text calls m output_buffer uninitialized := by
  intro h
  obtain rfl := h.stuck
  obtain ⟨_, _, _, _, _, _, m', _, _, _, _, -, hstrings, -, -, hverified⟩ := h
  -- a table without strings is refused
  have hcount := (VerifyStringTable_checked hverified).2.1
  have hzero : (0 : BitVec 32) < stringCount m' output_buffer false :=
    BitVec.lt_def.mpr (Nat.pos_of_ne_zero fun hz => hcount (BitVec.eq_of_toNat_eq hz))
  obtain ⟨e, he, -⟩ := (hstrings _).mpr ⟨0, hzero, rfl⟩
  cases he

theorem not_written_a : ¬Written (fun a b => byteDifference a.1 b.1)
    (fun _ : Unit => ⟨[0x61], by decide⟩) [()] (fun _ => 0) 0x1000 ⟨0, 0, 0⟩ := by
  intro h
  have hempty := h.stuck
  cases hempty

end ByamlStringPoolBuilder

end Awn.Byaml
