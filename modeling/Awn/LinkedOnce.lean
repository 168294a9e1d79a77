import Mathlib.Data.List.Nodup
import Mathlib.Data.List.Perm.Basic
import Mathlib.Logic.Function.Basic

/-! Elements that stand in containers, each in one place at most. -/

namespace Awn

variable {C F : Type*}

structure LinkedOnce (entries : C → List F) (place : F → Option C) : Prop where
  nodup : ∀ c, (entries c).Nodup
  mem : ∀ c f, f ∈ entries c ↔ place f = some c

def allEntries (cs : List C) (entries : C → List F) : List F := cs.flatMap entries

variable {entries : C → List F} {place : F → Option C} {cs : List C} {c : C} {f : F} {xs : List F}

namespace LinkedOnce

theorem unique (h : LinkedOnce entries place) {d : C} (hc : f ∈ entries c) (hd : f ∈ entries d) :
    c = d := by
  have hplace := (h.mem c f).mp hc
  rw [(h.mem d f).mp hd] at hplace
  exact (Option.some.inj hplace).symm

theorem mem_allEntries (h : LinkedOnce entries place) :
    f ∈ allEntries cs entries ↔ ∃ c ∈ cs, place f = some c := by
  unfold allEntries
  rw [List.mem_flatMap]
  exact exists_congr fun c => and_congr_right fun _ => h.mem c f

variable [DecidableEq C] [DecidableEq F]

theorem take (h : LinkedOnce entries place) (hperm : (entries c).Perm (f :: xs)) :
    LinkedOnce (Function.update entries c xs) (Function.update place f none) := by
  obtain ⟨hout, hnodup⟩ := List.nodup_cons.mp (hperm.nodup_iff.mp (h.nodup c))
  constructor
  · intro d
    by_cases hd : d = c
    · rw [hd, Function.update_self]
      exact hnodup
    · rw [Function.update_of_ne hd]
      exact h.nodup d
  · intro d k
    by_cases hk : k = f
    · rw [hk, Function.update_self]
      constructor
      · intro hmem
        by_cases hd : d = c
        · rw [hd, Function.update_self] at hmem
          exact absurd hmem hout
        · rw [Function.update_of_ne hd] at hmem
          exact absurd (h.unique hmem (hperm.mem_iff.mpr List.mem_cons_self)) hd
      · nofun
    · rw [Function.update_of_ne hk, ← h.mem d k]
      by_cases hd : d = c
      · rw [hd, Function.update_self, hperm.mem_iff, List.mem_cons]
        exact ⟨Or.inr, fun hor => hor.resolve_left hk⟩
      · rw [Function.update_of_ne hd]

theorem put (h : LinkedOnce entries place) (hf : place f = none)
    (hperm : xs.Perm (f :: entries c)) :
    LinkedOnce (Function.update entries c xs) (Function.update place f (some c)) := by
  have hout : ∀ d, f ∉ entries d := by
    intro d hd
    rw [h.mem d f, hf] at hd
    cases hd
  constructor
  · intro d
    by_cases hd : d = c
    · rw [hd, Function.update_self]
      exact hperm.nodup_iff.mpr (List.nodup_cons.mpr ⟨hout c, h.nodup c⟩)
    · rw [Function.update_of_ne hd]
      exact h.nodup d
  · intro d k
    by_cases hd : d = c
    · rw [hd, Function.update_self, hperm.mem_iff, List.mem_cons]
      by_cases hk : k = f
      · rw [hk, Function.update_self]
        exact ⟨fun _ => rfl, fun _ => Or.inl rfl⟩
      · rw [Function.update_of_ne hk, ← h.mem c k]
        exact ⟨fun hor => hor.resolve_left hk, Or.inr⟩
    · rw [Function.update_of_ne hd]
      by_cases hk : k = f
      · rw [hk, Function.update_self]
        exact ⟨fun hmem => absurd hmem (hout d), fun heq => absurd (Option.some.inj heq).symm hd⟩
      · rw [Function.update_of_ne hk]
        exact h.mem d k

end LinkedOnce

theorem length_allEntries_le {n : ℕ} (h : ∀ c ∈ cs, (entries c).length ≤ n) :
    (allEntries cs entries).length ≤ cs.length * n := by
  induction cs with
  | nil => exact Nat.zero_le _
  | cons d ds ih =>
    have hd := h d List.mem_cons_self
    have hds := ih fun c hc => h c (List.mem_cons_of_mem _ hc)
    unfold allEntries at hds ⊢
    rw [List.flatMap_cons, List.length_append, List.length_cons, Nat.succ_mul]
    omega

variable [DecidableEq C]

theorem allEntries_take (hcs : cs.Nodup) (hc : c ∈ cs) (hperm : (entries c).Perm (f :: xs)) :
    (allEntries cs entries).Perm (f :: allEntries cs (Function.update entries c xs)) := by
  induction cs with
  | nil => cases hc
  | cons d ds ih =>
    obtain ⟨hd, hds⟩ := List.nodup_cons.mp hcs
    change (entries d ++ allEntries ds entries).Perm (f :: (Function.update entries c xs d ++
      allEntries ds (Function.update entries c xs)))
    by_cases hdc : d = c
    · have hrest : allEntries ds (Function.update entries c xs) = allEntries ds entries := by
        apply List.flatMap_congr
        intro other hother
        apply Function.update_of_ne
        rintro rfl
        rw [hdc] at hd
        exact hd hother
      rw [hrest, hdc, Function.update_self]
      exact hperm.append_right _
    · have hrest := ih hds (List.mem_of_ne_of_mem (Ne.symm hdc) hc)
      rw [Function.update_of_ne hdc]
      exact (hrest.append_left (entries d)).trans List.perm_middle

theorem length_allEntries_take (hcs : cs.Nodup) (hc : c ∈ cs)
    (hperm : (entries c).Perm (f :: xs)) : (allEntries cs entries).length =
      (allEntries cs (Function.update entries c xs)).length + 1 :=
  (allEntries_take hcs hc hperm).length_eq

theorem length_allEntries_put (hcs : cs.Nodup) (hc : c ∈ cs)
    (hperm : xs.Perm (f :: entries c)) :
    (allEntries cs (Function.update entries c xs)).length = (allEntries cs entries).length + 1 := by
  have hself : (Function.update entries c xs c).Perm (f :: entries c) := by
    rw [Function.update_self]
    exact hperm
  rw [length_allEntries_take hcs hc hself, Function.update_idem, Function.update_eq_self]

end Awn
