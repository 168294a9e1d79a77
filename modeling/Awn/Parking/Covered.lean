import Mathlib.Logic.Function.Basic

/-! Threads that sleep until a wake, and threads that still have a wake ahead of them. -/

namespace Awn.Parking

variable {Thread Pc : Type} {Parked Busy : Pc → Prop} {pc : Thread → Pc} {t u : Thread} {new : Pc}

def Covered (Parked Busy : Pc → Prop) (pc : Thread → Pc) : Prop :=
  (∃ t, Parked (pc t)) → ∃ t, Busy (pc t)

theorem Covered.of_not_parked (h : ∀ t, ¬Parked (pc t)) : Covered Parked Busy pc :=
  fun ⟨t, ht⟩ => absurd ht (h t)

variable [DecidableEq Thread]

theorem covered_update_busy (h : Busy new) : Covered Parked Busy (Function.update pc t new) :=
  fun _ => ⟨t, by simpa using h⟩

theorem covered_update_of_busy (hu : Busy (pc u)) (hut : u ≠ t) :
    Covered Parked Busy (Function.update pc t new) :=
  fun _ => ⟨u, by simpa [hut] using hu⟩

theorem Covered.update (h : Covered Parked Busy pc) (hold : ¬Busy (pc t)) (hnew : ¬Parked new) :
    Covered Parked Busy (Function.update pc t new) := by
  rintro ⟨u, hu⟩
  have hut : u ≠ t := by
    rintro rfl
    rw [Function.update_self] at hu
    exact hnew hu
  rw [Function.update_of_ne hut] at hu
  obtain ⟨v, hv⟩ := h ⟨u, hu⟩
  have hvt : v ≠ t := by
    rintro rfl
    exact hold hv
  exact ⟨v, by simpa [hvt] using hv⟩

theorem covered_update_of_not_parked (h : ∀ u, ¬Parked (pc u)) (hnew : ¬Parked new) :
    Covered Parked Busy (Function.update pc t new) := by
  apply Covered.of_not_parked
  intro u
  by_cases hut : u = t
  · simpa [hut] using hnew
  · simpa [hut] using h u

end Awn.Parking
