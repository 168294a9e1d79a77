import Awn.Calls.Throughout
import Mathlib.Algebra.Group.Nat.Defs
import Mathlib.Logic.Function.Basic

/-!
`vp::util::PointerArray`, `FrameArray` and `BufferedFrameArray`. An operation has no result where an
assertion fails or an access falls outside of the array.
-/

namespace Awn

structure CountedArray (T : Type*) where
  m_count : BitVec 32
  m_max : BitVec 32
  m_array : ℕ → T

namespace CountedArray

variable {T : Type*} (null : T) (a : CountedArray T)

def load (index : BitVec 32) : Option T :=
  if index < a.m_max then some (a.m_array index.toNat) else none

def store (index : BitVec 32) (value : T) : Option (CountedArray T) :=
  if index < a.m_max then
    some { a with m_array := Function.update a.m_array index.toNat value }
  else none

/-- `operator[]`. The assertion stands under the test for what it asserts, and so does the default
for an index outside. -/
def index (index : BitVec 32) : Option T :=
  if index < a.m_count then
    if 0 < a.m_max then a.load 0 else none
  else a.load index

def iterate : Option (List T) :=
  (List.range a.m_count.toNat).mapM fun i => a.load (BitVec.ofNat 32 i)

def push (asserted : BitVec 32 → BitVec 32 → Bool) (value : T) : Option (CountedArray T) :=
  if asserted a.m_count a.m_max then
    (a.store a.m_count value).map fun a => { a with m_count := a.m_count + 1 }
  else none

def pop : Option (T × CountedArray T) :=
  (a.load (a.m_count - 1)).bind fun ret =>
    (a.store (a.m_count - 1) null).map fun a => (ret, { a with m_count := a.m_count - 1 })

def RemoveRange (_a : CountedArray T) (_base_index _number_of_elements : BitVec 32) :
    Option (CountedArray T) :=
  none

def Clear : CountedArray T := { a with m_count := 0 }

end CountedArray

def PointerArray.PushPointer {T : Type*} (a : CountedArray T) (pointer : T) :
    Option (CountedArray T) :=
  a.push (fun m_used_pointers m_max_pointers => m_used_pointers < m_max_pointers) pointer

def PointerArray.PopPointer {T : Type*} (null : T) (a : CountedArray T) :
    Option (T × CountedArray T) :=
  a.pop null

/-- This assertion holds of a full array too. -/
def FrameArray.PushValue {T : Type*} (a : CountedArray T) (value : T) : Option (CountedArray T) :=
  a.push (fun m_count m_max => m_count ≤ m_max) value

/-- Of elements that `nullptr` can be assigned to; it does not compile for others. -/
def FrameArray.PopValue {T : Type*} (null : T) (a : CountedArray T) :
    Option (T × CountedArray T) :=
  a.pop null

structure BufferedFrameArray (T : Type*) where
  m_frame_array_array : ℕ → CountedArray T
  m_current_frame : BitVec 32

namespace BufferedFrameArray

variable {T : Type*} (FrameCount : ℕ) (b : BufferedFrameArray T)

def GetFrameArray (frame_index : BitVec 32) : ℕ := frame_index.toNat

def GetCurrentFrameArray : ℕ := b.m_current_frame.toNat

def GetLastFrameArray : ℕ :=
  if b.m_current_frame = 0 then FrameCount - 1 else (b.m_current_frame - 1).toNat

def AdvanceFrameArray : BufferedFrameArray T :=
  { b with
    m_current_frame :=
      if b.m_current_frame.toNat < FrameCount - 1 then b.m_current_frame + 1 else 0 }

end BufferedFrameArray

/-! The lists that the arrays stand for, over all runs. -/

open Calls

variable {T : Type*}

namespace CountedArray

inductive Call (T : Type*)
  | push (value : T)
  | pop
  | RemoveRange (base_index number_of_elements : BitVec 32)
  | Clear
  | index (index : BitVec 32)
  | iterate

structure Functions (T : Type*) where
  push : CountedArray T → T → Option (CountedArray T)
  pop : CountedArray T → Option (T × CountedArray T)

structure State (T : Type*) where
  a : CountedArray T
  xs : List T

def State.call (f : Functions T) (s : State T) : Call T → State T
  | .push value => ⟨(f.push s.a value).getD s.a, s.xs ++ [value]⟩
  | .pop => ⟨((f.pop s.a).map Prod.snd).getD s.a, s.xs.dropLast⟩
  | .RemoveRange base_index number_of_elements =>
    ⟨(s.a.RemoveRange base_index number_of_elements).getD s.a,
      s.xs.take base_index.toNat ++ s.xs.drop (base_index.toNat + number_of_elements.toNat)⟩
  | .Clear => ⟨s.a.Clear, []⟩
  | .index _ => s
  | .iterate => s

structure State.Right (s : State T) : Prop where
  count : s.a.m_count.toNat = s.xs.length
  le : s.a.m_count ≤ s.a.m_max
  get : ∀ i, (hi : i < s.xs.length) → s.a.m_array i = s.xs[i]

def Answered (f : Functions T) (s : State T) : Call T → Prop
  | .push value => ∃ a, f.push s.a value = some a
  | .pop => ∃ x a, f.pop s.a = some (x, a) ∧ s.xs.getLast? = some x
  | .RemoveRange base_index number_of_elements =>
    ∃ a, s.a.RemoveRange base_index number_of_elements = some a
  | .Clear => True
  | .index index => ∃ x, s.a.index index = some x ∧ s.xs[index.toNat]? = some x
  | .iterate => s.a.iterate = some s.xs

def Met (s : State T) : Call T → Prop
  | .push _ => s.a.m_count < s.a.m_max
  | .pop => s.a.m_count ≠ 0
  | .RemoveRange _ _ => False
  | .Clear => True
  | .index index => index < s.a.m_count ∧ s.a.m_array index.toNat = s.a.m_array 0
  | .iterate => True

structure Functions.Fits (f : Functions T) (null : T) : Prop where
  push : ∀ a value, a.m_count < a.m_max → f.push a value = some
    ⟨a.m_count + 1, a.m_max, Function.update a.m_array a.m_count.toNat value⟩
  push_full : ∀ a value, ¬a.m_count < a.m_max → f.push a value = none
  pop : ∀ a, f.pop a = a.pop null

section Calls

variable {f : Functions T} {null : T} {s : State T}

theorem mapM_load (h : s.Right) {n : ℕ} (hn : n ≤ s.xs.length) :
    (List.range n).mapM (fun i => s.a.load (BitVec.ofNat 32 i)) = some (s.xs.take n) := by
  have hcount := h.count
  have hlt := s.a.m_count.isLt
  have hle := h.le
  rw [BitVec.le_def] at hle
  induction n with
  | zero => rfl
  | succ n ih =>
    have hindex : (BitVec.ofNat 32 n).toNat = n := by
      rw [BitVec.toNat_ofNat]
      omega
    have hload : s.a.load (BitVec.ofNat 32 n) = some s.xs[n] := by
      unfold load
      rw [if_pos (by rw [BitVec.lt_def, hindex]; omega), hindex, h.get n (by omega)]
    have hlast : [n].mapM (fun i => s.a.load (BitVec.ofNat 32 i)) = some [s.xs[n]] := by
      rw [List.mapM_cons, hload]
      rfl
    rw [List.range_succ, List.mapM_append, ih (by omega), hlast,
      List.take_succ_eq_append_getElem (by omega)]
    rfl

theorem Right.pop (null : T) (h : s.Right) (hne : s.a.m_count ≠ 0) :
    ∃ x a, s.a.pop null = some (x, a) ∧ s.xs.getLast? = some x ∧
      (⟨a, s.xs.dropLast⟩ : State T).Right := by
  obtain ⟨a, xs⟩ := s
  have hcount : a.m_count.toNat = xs.length := h.count
  have hle : a.m_count ≤ a.m_max := h.le
  rw [BitVec.le_def] at hle
  have hone : (1 : BitVec 32).toNat = 1 := rfl
  rcases List.eq_nil_or_concat xs with rfl | ⟨rest, x, rfl⟩
  · exact absurd (BitVec.eq_of_toNat_eq hcount) hne
  · rw [List.concat_eq_append] at *
    rw [List.length_append, List.length_singleton] at hcount
    have hlast : (a.m_count - 1).toNat = rest.length := by
      rw [BitVec.toNat_sub_of_le (by rw [BitVec.le_def, hone]; omega), hone]
      omega
    have hin : a.m_count - 1 < a.m_max := by
      rw [BitVec.lt_def, hlast]
      omega
    have hget : a.m_array rest.length = x := by
      have hget := h.get rest.length (by
        show rest.length < (rest ++ [x]).length
        rw [List.length_append]
        exact Nat.lt_succ_self _)
      exact hget.trans (List.getElem_concat_length rfl _)
    refine ⟨x, ⟨a.m_count - 1, a.m_max, Function.update a.m_array rest.length null⟩, ?_, ?_, ?_⟩
    · unfold CountedArray.pop load store
      rw [if_pos hin, if_pos hin, Option.bind_some, hlast, hget]
      rfl
    · exact List.getLast?_concat
    · rw [List.dropLast_concat]
      constructor
      · exact hlast
      · rw [BitVec.le_def, hlast]
        show _ ≤ a.m_max.toNat
        omega
      · intro i hi
        have hi' : i < rest.length := hi
        show Function.update a.m_array rest.length null i = rest[i]
        rw [Function.update_of_ne (by omega)]
        have hget' := h.get i (by
          show i < (rest ++ [x]).length
          rw [List.length_append]
          omega)
        exact hget'.trans (List.getElem_append_left hi')

theorem Right.push (h : s.Right) (hroom : s.a.m_count < s.a.m_max) (value : T) :
    (⟨⟨s.a.m_count + 1, s.a.m_max, Function.update s.a.m_array s.a.m_count.toNat value⟩,
      s.xs ++ [value]⟩ : State T).Right := by
  have hcount := h.count
  have hlt := s.a.m_max.isLt
  rw [BitVec.lt_def] at hroom
  have hnext : (s.a.m_count + 1).toNat = s.a.m_count.toNat + 1 := by
    have hone : (1 : BitVec 32).toNat = 1 := rfl
    rw [BitVec.toNat_add, hone]
    omega
  constructor
  · rw [List.length_append, List.length_singleton, ← hcount]
    exact hnext
  · rw [BitVec.le_def]
    show (s.a.m_count + 1).toNat ≤ s.a.m_max.toNat
    omega
  · intro i hi
    show Function.update s.a.m_array s.a.m_count.toNat value i = (s.xs ++ [value])[i]
    by_cases hlast : i = s.xs.length
    · subst hlast
      rw [hcount, Function.update_self, List.getElem_concat_length]
      rfl
    · have hi' : i < (s.xs ++ [value]).length := hi
      rw [List.length_append, List.length_singleton] at hi'
      rw [hcount, Function.update_of_ne hlast, List.getElem_append_left (by omega)]
      exact h.get i (by omega)

theorem Right.index_iff (h : s.Right) (index : BitVec 32) :
    (∃ x, s.a.index index = some x ∧ s.xs[index.toNat]? = some x) ↔
      index < s.a.m_count ∧ s.a.m_array index.toNat = s.a.m_array 0 := by
  have hcount := h.count
  have hle := h.le
  rw [BitVec.le_def] at hle
  have hzero : (0 : BitVec 32).toNat = 0 := rfl
  by_cases hin : index < s.a.m_count
  · have hlt := BitVec.lt_def.mp hin
    have hmax : (0 : BitVec 32) < s.a.m_max := by
      rw [BitVec.lt_def, hzero]
      omega
    have hindex : s.a.index index = some (s.a.m_array 0) := by
      unfold CountedArray.index load
      rw [if_pos hin, if_pos hmax, if_pos hmax]
      rfl
    have hget : s.xs[index.toNat]? = some (s.a.m_array index.toNat) := by
      rw [List.getElem?_eq_getElem (by omega), h.get index.toNat (by omega)]
    rw [hindex, hget]
    constructor
    · rintro ⟨x, hfirst, hx⟩
      exact ⟨hin, (Option.some.inj hx).trans (Option.some.inj hfirst).symm⟩
    · rintro ⟨-, hsame⟩
      exact ⟨_, rfl, congrArg some hsame⟩
  · rw [BitVec.lt_def] at hin
    rw [List.getElem?_eq_none (by omega)]
    constructor
    · rintro ⟨x, -, hx⟩
      cases hx
    · rintro ⟨hlt, -⟩
      exact absurd (BitVec.lt_def.mp hlt) hin

theorem Right.call (h : s.Right) (hf : f.Fits null) (c : Call T) (hmet : Met s c) :
    Answered f s c ∧ (s.call f c).Right := by
  cases c with
  | push value =>
    have hpush := hf.push s.a value hmet
    refine ⟨⟨_, hpush⟩, ?_⟩
    simp only [State.call, hpush, Option.getD_some]
    exact Right.push h hmet value
  | pop =>
    obtain ⟨x, a, hpop, hlast, hright⟩ := Right.pop null h hmet
    have hpop' : f.pop s.a = some (x, a) := (hf.pop s.a).trans hpop
    refine ⟨⟨x, a, hpop', hlast⟩, ?_⟩
    simp only [State.call, hpop', Option.map_some, Option.getD_some]
    exact hright
  | RemoveRange base_index number_of_elements => exact hmet.elim
  | Clear => exact ⟨trivial, rfl, Nat.zero_le _, fun i hi => absurd hi (Nat.not_lt_zero i)⟩
  | index index => exact ⟨(Right.index_iff h index).mpr hmet, h⟩
  | iterate =>
    refine ⟨?_, h⟩
    unfold Answered iterate
    dsimp only
    rw [h.count, mapM_load h (Nat.le_refl _), List.take_length]

theorem Right.met_of_answered (h : s.Right) (hf : f.Fits null) (c : Call T)
    (hanswered : Answered f s c) : Met s c := by
  cases c with
  | push value =>
    obtain ⟨a, ha⟩ := hanswered
    by_contra hfull
    rw [hf.push_full s.a value hfull] at ha
    cases ha
  | pop =>
    obtain ⟨x, a, -, hlast⟩ := hanswered
    intro hzero
    have hcount := h.count
    rw [hzero] at hcount
    rw [List.length_eq_zero_iff.mp hcount.symm] at hlast
    cases hlast
  | RemoveRange base_index number_of_elements =>
    obtain ⟨a, ha⟩ := hanswered
    cases ha
  | Clear => trivial
  | index index => exact (Right.index_iff h index).mp hanswered
  | iterate => trivial

end Calls

def State.start (m_max : BitVec 32) (array : ℕ → T) : State T := ⟨⟨0, m_max, array⟩, []⟩

theorem State.start_right (m_max : BitVec 32) (array : ℕ → T) : (State.start m_max array).Right where
  count := rfl
  le := Nat.zero_le _
  get i hi := absurd hi (Nat.not_lt_zero i)

theorem run_iff {f : Functions T} {null : T} (hf : f.Fits null) (m_max : BitVec 32)
    (array : ℕ → T) (cs : List (Call T)) :
    Throughout (State.call f) State.Right (Answered f) (State.start m_max array) cs ↔
      EachIn (State.call f) Met (State.start m_max array) cs := by
  refine throughout_iff (fun _ h => h) ?_ ?_ (State.start_right m_max array) eachIn_true
  · intro s c h _ hmet
    exact Right.call h hf c hmet
  · intro s c h _ hanswered _
    exact Right.met_of_answered h hf c hanswered

end CountedArray

open CountedArray (Functions State Answered Met)

def pointerFunctions (null : T) : Functions T :=
  ⟨PointerArray.PushPointer, PointerArray.PopPointer null⟩

def frameFunctions (null : T) : Functions T := ⟨FrameArray.PushValue, FrameArray.PopValue null⟩

theorem pointerFunctions_fits (null : T) : (pointerFunctions null).Fits null where
  push a value hroom := by
    unfold pointerFunctions PointerArray.PushPointer CountedArray.push CountedArray.store
    dsimp only
    rw [if_pos (decide_eq_true hroom), if_pos hroom]
    rfl
  push_full a value hfull := by
    unfold pointerFunctions PointerArray.PushPointer CountedArray.push
    exact if_neg (fun h => hfull (of_decide_eq_true h))
  pop _ := rfl

theorem frameFunctions_fits (null : T) : (frameFunctions null).Fits null where
  push a value hroom := by
    have hle : a.m_count ≤ a.m_max := by
      rw [BitVec.le_def]
      exact Nat.le_of_lt (BitVec.lt_def.mp hroom)
    unfold frameFunctions FrameArray.PushValue CountedArray.push CountedArray.store
    dsimp only
    rw [if_pos (decide_eq_true hle), if_pos hroom]
    rfl
  push_full a value hfull := by
    unfold frameFunctions FrameArray.PushValue CountedArray.push CountedArray.store
    dsimp only
    rw [if_neg hfull]
    exact ite_self none
  pop _ := rfl

namespace BufferedFrameArray

inductive Frame
  | current
  | last
  | index (frame_index : BitVec 32)

inductive Call (T : Type*)
  | frame (frame : Frame) (c : CountedArray.Call T)
  | AdvanceFrameArray

structure State (T : Type*) where
  b : BufferedFrameArray T
  xs : ℕ → List T

variable (f : Functions T) (FrameCount : ℕ)

def State.frame (s : State T) (i : ℕ) : CountedArray.State T :=
  ⟨s.b.m_frame_array_array i, s.xs i⟩

def State.find (s : State T) : Frame → ℕ
  | .current => s.b.GetCurrentFrameArray
  | .last => s.b.GetLastFrameArray FrameCount
  | .index frame_index => GetFrameArray frame_index

def State.call (s : State T) : Call T → State T
  | .frame frame c =>
    let i := s.find FrameCount frame
    let s' := (s.frame i).call f c
    ⟨{ s.b with m_frame_array_array := Function.update s.b.m_frame_array_array i s'.a },
      Function.update s.xs i s'.xs⟩
  | .AdvanceFrameArray => ⟨s.b.AdvanceFrameArray FrameCount, s.xs⟩

structure State.Right (s : State T) : Prop where
  current : s.b.m_current_frame.toNat < FrameCount
  frame : ∀ i < FrameCount, (s.frame i).Right

def Answered (s : State T) : Call T → Prop
  | .frame frame c => CountedArray.Answered f (s.frame (s.find FrameCount frame)) c
  | .AdvanceFrameArray => True

def Met (s : State T) : Call T → Prop
  | .frame frame c => CountedArray.Met (s.frame (s.find FrameCount frame)) c
  | .AdvanceFrameArray => True

def Used (_ : State T) : Call T → Prop
  | .frame (.index frame_index) _ => frame_index.toNat < FrameCount
  | _ => True

variable {f FrameCount} {s : State T}

theorem State.Right.find_lt (h : s.Right FrameCount) (frame : Frame) (c : CountedArray.Call T)
    (hused : Used FrameCount s (.frame frame c)) : s.find FrameCount frame < FrameCount := by
  have hcurrent := h.current
  cases frame with
  | current => exact hcurrent
  | last =>
    show s.b.GetLastFrameArray FrameCount < FrameCount
    unfold GetLastFrameArray
    split
    · omega
    · rename_i hne
      have hone : (1 : BitVec 32).toNat = 1 := rfl
      have hpos : s.b.m_current_frame.toNat ≠ 0 := fun hzero => hne (BitVec.eq_of_toNat_eq hzero)
      rw [BitVec.toNat_sub_of_le (by rw [BitVec.le_def, hone]; omega), hone]
      omega
  | index frame_index => exact hused

theorem State.frame_update (i j : ℕ) (c : CountedArray.Call T) (frame : Frame)
    (hi : s.find FrameCount frame = i) :
    (s.call f FrameCount (.frame frame c)).frame j =
      if j = i then (s.frame i).call f c else s.frame j := by
  subst hi
  unfold State.call State.frame
  dsimp only
  rw [Function.update_apply, Function.update_apply]
  by_cases hj : j = s.find FrameCount frame
  · rw [if_pos hj, if_pos hj, if_pos hj]
  · rw [if_neg hj, if_neg hj, if_neg hj]

theorem State.Right.call {null : T} (hf : f.Fits null) (h : s.Right FrameCount) (c : Call T)
    (hused : Used FrameCount s c) (hmet : Met FrameCount s c) :
    Answered f FrameCount s c ∧ (s.call f FrameCount c).Right FrameCount := by
  cases c with
  | frame frame c =>
    have hlt := h.find_lt frame c hused
    obtain ⟨hanswered, hright⟩ := CountedArray.Right.call (h.frame _ hlt) hf c hmet
    refine ⟨hanswered, h.current, ?_⟩
    intro j hj
    rw [State.frame_update _ j c frame rfl]
    split
    · exact hright
    · exact h.frame j hj
  | AdvanceFrameArray =>
    have hcurrent := h.current
    refine ⟨trivial, ?_, h.frame⟩
    show (s.b.AdvanceFrameArray FrameCount).m_current_frame.toNat < FrameCount
    unfold AdvanceFrameArray
    dsimp only
    split
    · have hle : (s.b.m_current_frame + 1).toNat ≤ s.b.m_current_frame.toNat + 1 := by
        rw [BitVec.toNat_add]
        exact Nat.mod_le _ _
      omega
    · exact Nat.zero_lt_of_lt hcurrent

def State.start (m_max : BitVec 32) (array : ℕ → ℕ → T) : State T :=
  ⟨⟨fun i => ⟨0, m_max, array i⟩, 0⟩, fun _ => []⟩

theorem run_iff {null : T} (hf : f.Fits null) (hframes : 1 < FrameCount) (m_max : BitVec 32)
    (array : ℕ → ℕ → T) {cs : List (Call T)}
    (hused : EachIn (State.call f FrameCount) (Used FrameCount) (State.start m_max array) cs) :
    Throughout (State.call f FrameCount) (State.Right FrameCount) (Answered f FrameCount)
        (State.start m_max array) cs ↔
      EachIn (State.call f FrameCount) (Met FrameCount) (State.start m_max array) cs := by
  have hstart : (State.start m_max array).Right FrameCount :=
    ⟨Nat.zero_lt_of_lt hframes, fun i _ => CountedArray.State.start_right m_max (array i)⟩
  refine throughout_iff (fun _ h => h) ?_ ?_ hstart hused
  · intro s c h hused hmet
    exact h.call hf c hused hmet
  · intro s c h hused hanswered _
    cases c with
    | frame frame c =>
      exact CountedArray.Right.met_of_answered (h.frame _ (h.find_lt frame c hused)) hf c hanswered
    | AdvanceFrameArray => trivial

end BufferedFrameArray

/-- The arrays, and the frames of a buffered one, are the lists that the calls make of them. -/
theorem countedArrays_right_iff (null : T) (m_max : BitVec 32) :
    (∀ (array : ℕ → T) (cs : List (CountedArray.Call T)),
      (Throughout (State.call (pointerFunctions null)) State.Right
          (Answered (pointerFunctions null)) (State.start m_max array) cs ↔
        EachIn (State.call (pointerFunctions null)) Met (State.start m_max array) cs)) ∧
    (∀ (array : ℕ → T) (cs : List (CountedArray.Call T)),
      (Throughout (State.call (frameFunctions null)) State.Right (Answered (frameFunctions null))
          (State.start m_max array) cs ↔
        EachIn (State.call (frameFunctions null)) Met (State.start m_max array) cs)) ∧
    ∀ FrameCount > 1, ∀ (array : ℕ → ℕ → T) (cs : List (BufferedFrameArray.Call T)),
      EachIn (BufferedFrameArray.State.call (frameFunctions null) FrameCount)
        (BufferedFrameArray.Used FrameCount) (BufferedFrameArray.State.start m_max array) cs →
      (Throughout (BufferedFrameArray.State.call (frameFunctions null) FrameCount)
          (BufferedFrameArray.State.Right FrameCount)
          (BufferedFrameArray.Answered (frameFunctions null) FrameCount)
          (BufferedFrameArray.State.start m_max array) cs ↔
        EachIn (BufferedFrameArray.State.call (frameFunctions null) FrameCount)
          (BufferedFrameArray.Met FrameCount) (BufferedFrameArray.State.start m_max array) cs) := by
  refine ⟨?_, ?_, ?_⟩
  · exact CountedArray.run_iff (pointerFunctions_fits null) m_max
  · exact CountedArray.run_iff (frameFunctions_fits null) m_max
  · intro FrameCount hframes array cs hused
    exact BufferedFrameArray.run_iff (frameFunctions_fits null) hframes m_max array hused

theorem oneElement_right :
    Throughout (State.call (pointerFunctions 0)) State.Right (Answered (pointerFunctions 0))
        (State.start 1 fun _ => 0) [.push 7, .index 0, .iterate, .pop] ∧
      Throughout (State.call (frameFunctions 0)) State.Right (Answered (frameFunctions 0))
        (State.start 1 fun _ => 0) [.push 7, .index 0, .iterate, .pop] ∧
      Throughout (BufferedFrameArray.State.call (frameFunctions 0) 2)
        (BufferedFrameArray.State.Right 2) (BufferedFrameArray.Answered (frameFunctions 0) 2)
        (BufferedFrameArray.State.start 1 fun _ _ => 0)
        [.frame .current (.push 7), .AdvanceFrameArray, .frame .last (.index 0)] := by
  obtain ⟨hpointer, hframe, hbuffered⟩ := countedArrays_right_iff 0 1
  refine ⟨(hpointer _ _).mpr ?_, (hframe _ _).mpr ?_, (hbuffered 2 (by decide) _ _ ?_).mpr ?_⟩
  · refine ⟨trivial, ?_, trivial, ⟨?_, rfl⟩, trivial, trivial, trivial, ?_, trivial⟩
    · exact BitVec.lt_def.mpr (by decide)
    · exact BitVec.lt_def.mpr (by decide)
    · exact fun h => absurd (congrArg BitVec.toNat h) (by decide)
  · refine ⟨trivial, ?_, trivial, ⟨?_, rfl⟩, trivial, trivial, trivial, ?_, trivial⟩
    · exact BitVec.lt_def.mpr (by decide)
    · exact BitVec.lt_def.mpr (by decide)
    · exact fun h => absurd (congrArg BitVec.toNat h) (by decide)
  · exact ⟨trivial, trivial, trivial, trivial, trivial, trivial, trivial⟩
  · refine ⟨trivial, ?_, trivial, trivial, trivial, ⟨?_, rfl⟩, trivial⟩
    · exact BitVec.lt_def.mpr (by decide)
    · exact BitVec.lt_def.mpr (by decide)

theorem secondElement_not_right :
    ¬Throughout (State.call (pointerFunctions 0)) State.Right (Answered (pointerFunctions 0))
      (State.start 2 fun _ => 0) [.push 7, .push 8, .index 1] := by
  rintro ⟨-, -, -, -, -, ⟨x, hread, hget⟩, -⟩
  cases hread
  cases hget

end Awn
