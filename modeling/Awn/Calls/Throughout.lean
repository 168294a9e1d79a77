import Mathlib.Data.List.Basic

/-! What holds all along a sequence of calls. -/

namespace Awn.Calls

variable {S C : Type*} (step : S → C → S)

def Throughout (I : S → Prop) (R : S → C → Prop) : S → List C → Prop
  | s, [] => I s
  | s, c :: cs => I s ∧ R s c ∧ Throughout I R (step s c) cs

abbrev EachIn (F : S → C → Prop) : S → List C → Prop := Throughout step (fun _ => True) F

variable {step} {I Inv : S → Prop} {R F U : S → C → Prop} {s : S} {cs : List C}

theorem Throughout.here (h : Throughout step I R s cs) : I s := by
  cases cs with
  | nil => exact h
  | cons c cs => exact h.1

theorem throughout_iff (hinv : ∀ s, Inv s → I s)
    (hfits : ∀ s c, Inv s → U s c → F s c → R s c ∧ Inv (step s c))
    (hback : ∀ s c, Inv s → U s c → R s c → I (step s c) → F s c) (hs : Inv s)
    (hu : EachIn step U s cs) : Throughout step I R s cs ↔ EachIn step F s cs := by
  induction cs generalizing s with
  | nil => exact ⟨fun _ => trivial, fun _ => hinv s hs⟩
  | cons c cs ih =>
    obtain ⟨-, huc, hucs⟩ := hu
    constructor
    · rintro ⟨-, hr, hrest⟩
      have hf := hback s c hs huc hr hrest.here
      exact ⟨trivial, hf, (ih (hfits s c hs huc hf).2 hucs).mp hrest⟩
    · rintro ⟨-, hf, hrest⟩
      obtain ⟨hr, hnext⟩ := hfits s c hs huc hf
      exact ⟨hinv s hs, hr, (ih hnext hucs).mpr hrest⟩

theorem EachIn.last (hkeeps : ∀ s c, Inv s → F s c → Inv (step s c)) (hs : Inv s)
    (h : EachIn step F s cs) : Inv (cs.foldl step s) := by
  induction cs generalizing s with
  | nil => exact hs
  | cons c cs ih => exact ih (hkeeps s c hs h.2.1) h.2.2

theorem Throughout.at_last {c : C} (h : Throughout step I R s (cs ++ [c])) :
    R (cs.foldl step s) c := by
  induction cs generalizing s with
  | nil => exact h.2.1
  | cons d cs ih => exact ih h.2.2

theorem eachIn_of_forall (h : ∀ c ∈ cs, ∀ s, F s c) : EachIn step F s cs := by
  induction cs generalizing s with
  | nil => trivial
  | cons c cs ih =>
    exact ⟨trivial, h c List.mem_cons_self s, ih fun d hd => h d (List.mem_cons_of_mem c hd)⟩

theorem eachIn_true : EachIn step (fun _ _ => True) s cs := by
  induction cs generalizing s with
  | nil => trivial
  | cons c cs ih => exact ⟨trivial, trivial, ih⟩

end Awn.Calls
