import Awn.AsyncAllocator.Tasks

namespace Awn.AsyncAllocator

variable {A K Q W : Type*}

def Place.ofHead : Head Q → Place A Q W
  | .inl b => .list b
  | .inr q => .queue q

theorem Place.ofHead_inj {h h' : Head Q} :
    (Place.ofHead h : Place A Q W) = Place.ofHead h' ↔ h = h' := by
  cases h <;> cases h' <;> simp [Place.ofHead]

def AsyncTaskWatcher.Pending (x : AsyncTaskWatcher K) : Prop :=
  x.m_async_task ≠ none ∧ x.m_state.isDone = false

structure Placed (list_index event : Bool) (links : Links (Head Q ⊕ K)) (pc : A → Pc K)
    (contents : Head Q → List K) (place : K → Place A Q W) : Prop where
  represents : links.Represents contents
  listed : ∀ k h, k ∈ contents h ↔ place k = .ofHead h
  owned : ∀ k a, (pc a).owned = some k ↔ place k = .thread a
  available : event = true ↔ contents (.inl (!list_index)) ≠ []

structure Watched (task : K → AsyncTaskForAllocator Q W) (watcher : W → AsyncTaskWatcher K)
    (references : W → ℕ) (place : K → Place A Q W) : Prop where
  kept : ∀ k w, (task k).m_watcher = some w ∧ (watcher w).m_state.isDone = true ↔
    place k = .watcher w
  free : ∀ k b, place k = .list b → (task k).m_is_free_for_allocator = true
  allocator : ∀ k, (∀ b, place k ≠ .list b) → (task k).m_task_allocator = true
  attached : ∀ k w, (task k).m_watcher = some w ↔ (watcher w).m_async_task = some k
  pending : ∀ w, (watcher w).Pending → (watcher w).m_reference_count.toNat = references w + 1
  released : ∀ w, ¬(watcher w).Pending → (watcher w).m_reference_count.toNat = references w
  held : ∀ w, (watcher w).m_async_task ≠ none → ¬(watcher w).Pending → 0 < references w

section Placed

variable {list_index event : Bool} {links : Links (Head Q ⊕ K)} {pc : A → Pc K}
  {contents : Head Q → List K} {place : K → Place A Q W} {k : K} {a : A}

theorem Placed.not_listed (h : Placed list_index event links pc contents place)
    (hk : ∀ head, place k ≠ .ofHead head) (head : Head Q) : k ∉ contents head :=
  fun hmem => hk head ((h.listed k head).mp hmem)

theorem Placed.listed_update [DecidableEq K] (h : Placed list_index event links pc contents place)
    {contents' : Head Q → List K} {p : Place A Q W}
    (hk : ∀ head, k ∈ contents' head ↔ p = .ofHead head)
    (hother : ∀ j head, j ≠ k → (j ∈ contents' head ↔ j ∈ contents head)) (j : K) (head : Head Q) :
    j ∈ contents' head ↔ Function.update place k p j = .ofHead head := by
  by_cases hj : j = k
  · subst hj
    rw [Function.update_self]
    exact hk head
  · rw [Function.update_of_ne hj, hother j head hj]
    exact h.listed j head

theorem Placed.owned_update [DecidableEq A] [DecidableEq K]
    (h : Placed list_index event links pc contents place) {p : Place A Q W} {pc' : Pc K}
    (hbefore : ∀ b, place k = .thread b → b = a) (hthread : ∀ b, p = .thread b → b = a)
    (hother : ∀ j, (pc a).owned = some j → j = k)
    (hafter : ∀ j, pc'.owned = some j ↔ p = .thread a ∧ j = k) (j : K) (b : A) :
    (Function.update pc a pc' b).owned = some j ↔ Function.update place k p j = .thread b := by
  by_cases hb : b = a
  · subst hb
    rw [Function.update_self, hafter j]
    by_cases hj : j = k
    · subst hj
      rw [Function.update_self]
      exact and_iff_left rfl
    · rw [Function.update_of_ne hj, ← h.owned j b]
      exact iff_of_false (fun hp => hj hp.2) (fun howned => hj (hother j howned))
  · rw [Function.update_of_ne hb]
    by_cases hj : j = k
    · subst hj
      rw [Function.update_self, h.owned j b]
      exact iff_of_false (fun hplace => hb (hbefore b hplace)) (fun hp => hb (hthread b hp))
    · rw [Function.update_of_ne hj]
      exact h.owned j b

theorem Placed.take [DecidableEq A] [DecidableEq K] [DecidableEq Q]
    (h : Placed list_index event links pc contents place) {head : Head Q}
    (hk : place k = .ofHead head) (hhead : head ≠ .inl (!list_index)) (hidle : pc a = .idle)
    {pc' : Pc K} (hpc : pc'.owned = some k) :
    Placed list_index event (links.unlink (.inr k)) (Function.update pc a pc')
      (fun head => (contents head).erase k) (Function.update place k (.thread a)) where
  represents := h.represents.unlink k
  listed := by
    apply h.listed_update
    · intro head'
      constructor
      · intro hmem
        exact absurd hmem (List.Nodup.not_mem_erase (h.represents.nodup head'))
      · intro heq
        cases head' <;> cases heq
    · intro j head' hj
      exact List.mem_erase_of_ne hj
  owned := by
    apply h.owned_update
    · intro b hb
      rw [hk] at hb
      cases head <;> cases hb
    · intro b hb
      cases hb
      rfl
    · intro j hj
      rw [hidle] at hj
      cases hj
    · intro j
      rw [hpc, Option.some.injEq]
      exact ⟨fun hj => ⟨rfl, hj.symm⟩, fun hj => hj.2.symm⟩
  available := by
    have hnot : k ∉ contents (.inl (!list_index)) := by
      intro hmem
      have := (h.listed k _).mp hmem
      rw [hk, Place.ofHead_inj] at this
      exact hhead this
    rw [List.erase_of_not_mem hnot]
    exact h.available

theorem Placed.give [DecidableEq K] (h : Placed list_index event links pc contents place)
    {event' : Bool} {links' : Links (Head Q ⊕ K)} {pc' : A → Pc K} {contents' : Head Q → List K}
    {head : Head Q} (hk : ∀ head, place k ≠ .ofHead head) (hrep : links'.Represents contents')
    (hmem : ∀ j head', j ∈ contents' head' ↔ j ∈ contents head' ∨ (j = k ∧ head' = head))
    (howned : ∀ j b, (pc' b).owned = some j ↔
      Function.update place k (.ofHead head) j = .thread b)
    (havailable : event' = true ↔ contents' (.inl (!list_index)) ≠ []) :
    Placed list_index event' links' pc' contents' (Function.update place k (.ofHead head)) where
  represents := hrep
  listed := by
    apply h.listed_update
    · intro head'
      rw [hmem, Place.ofHead_inj]
      constructor
      · rintro (hlisted | ⟨-, hhead⟩)
        · exact absurd hlisted (h.not_listed hk head')
        · exact hhead.symm
      · rintro rfl
        exact Or.inr ⟨rfl, rfl⟩
    · intro j head' hj
      rw [hmem]
      exact or_iff_left (fun hjk => hj hjk.1)
  owned := howned
  available := havailable

theorem Placed.free [DecidableEq K] [DecidableEq Q]
    (h : Placed list_index event links pc contents place) {pc' : A → Pc K}
    (hk : ∀ head, place k ≠ .ofHead head)
    (howned : ∀ j b, (pc' b).owned = some j ↔
      Function.update place k (.list (!list_index)) j = .thread b) :
    Placed list_index true (links.linkPrev (Memory.listHead (!list_index)) (.inr k)) pc'
      (Function.update contents (.inl (!list_index)) (contents (.inl (!list_index)) ++ [k]))
      (Function.update place k (.list (!list_index))) := by
  have hrep := h.represents.pushBack (h.not_listed hk) (.inl (!list_index))
  have hgiven : ∀ j b, (pc' b).owned = some j ↔
      Function.update place k (.ofHead (.inl (!list_index))) j = .thread b := howned
  refine h.give hk hrep ?_ hgiven ?_
  · intro j head'
    by_cases hhead : head' = .inl (!list_index)
    · subst hhead
      simp
    · simp [hhead]
  · simp

theorem Placed.owned_give [DecidableEq A] [DecidableEq K]
    (h : Placed list_index event links pc contents place) {pc' : Pc K} {p : Place A Q W}
    (hk : (pc a).owned = some k) (hpc : pc'.owned = none) (hp : ∀ b, p ≠ .thread b) (j : K) (b : A) :
    (Function.update pc a pc' b).owned = some j ↔ Function.update place k p j = .thread b := by
  apply h.owned_update
  · intro b hb
    rw [(h.owned k a).mp hk] at hb
    cases hb
    rfl
  · intro b hb
    exact absurd hb (hp b)
  · intro j hj
    exact Option.some.inj (hj.symm.trans hk)
  · intro j
    rw [hpc]
    exact iff_of_false (fun hj => by cases hj) (fun hj => hp a hj.1)

theorem Placed.leave [DecidableEq K] (h : Placed list_index event links pc contents place)
    {pc' : A → Pc K} {p : Place A Q W} (hk : ∀ head, place k ≠ .ofHead head)
    (hp : ∀ head, p ≠ .ofHead head)
    (howned : ∀ j b, (pc' b).owned = some j ↔ Function.update place k p j = .thread b) :
    Placed list_index event links pc' contents (Function.update place k p) where
  represents := h.represents
  listed := by
    apply h.listed_update
    · intro head
      exact iff_of_false (h.not_listed hk head) (hp head)
    · intro j head _
      exact Iff.rfl
  owned := howned
  available := h.available

theorem Placed.stay [DecidableEq A] (h : Placed list_index event links pc contents place)
    {pc' : Pc K} (hpc : pc'.owned = (pc a).owned) :
    Placed list_index event links (Function.update pc a pc') contents place where
  represents := h.represents
  listed := h.listed
  owned := by
    intro j b
    rw [← h.owned j b]
    by_cases hb : b = a
    · rw [hb, Function.update_self, hpc]
    · rw [Function.update_of_ne hb]
  available := h.available

theorem Placed.swap (h : Placed list_index true links pc contents place)
    (hempty : contents (.inl list_index) = []) :
    Placed (!list_index) false links pc contents place where
  represents := h.represents
  listed := h.listed
  owned := h.owned
  available := by
    rw [Bool.not_not, hempty]
    simp

end Placed

section Watched

variable {task : K → AsyncTaskForAllocator Q W} {watcher : W → AsyncTaskWatcher K}
  {references : W → ℕ} {place : K → Place A Q W} {k : K} {w : W}

theorem Watched.move [DecidableEq K] (h : Watched task watcher references place)
    {x : AsyncTaskForAllocator Q W} {p : Place A Q W} (hx : x.m_watcher = (task k).m_watcher)
    (hkept : (∀ w, place k ≠ .watcher w) ∧ (∀ w, p ≠ .watcher w) ∨ p = place k)
    (hfree : ∀ b, p = .list b → x.m_is_free_for_allocator = true)
    (hallocator : (∀ b, p ≠ .list b) → x.m_task_allocator = true) :
    Watched (Function.update task k x) watcher references (Function.update place k p) where
  kept := by
    intro j w
    by_cases hj : j = k
    · subst hj
      rw [Function.update_self, Function.update_self, hx, h.kept j w]
      rcases hkept with ⟨hbefore, hafter⟩ | heq
      · exact iff_of_false (hbefore w) (hafter w)
      · rw [heq]
    · rw [Function.update_of_ne hj, Function.update_of_ne hj]
      exact h.kept j w
  free := by
    intro j b hb
    by_cases hj : j = k
    · subst hj
      rw [Function.update_self] at hb ⊢
      exact hfree b hb
    · rw [Function.update_of_ne hj] at hb ⊢
      exact h.free j b hb
  allocator := by
    intro j hb
    by_cases hj : j = k
    · subst hj
      simp only [Function.update_self] at hb ⊢
      exact hallocator hb
    · simp only [Function.update_of_ne hj] at hb ⊢
      exact h.allocator j hb
  attached := by
    intro j w
    rw [← h.attached j w]
    by_cases hj : j = k
    · rw [hj, Function.update_self, hx]
    · rw [Function.update_of_ne hj]
  pending := h.pending
  released := h.released
  held := h.held

theorem forall_update₂ [DecidableEq W] {P : AsyncTaskWatcher K → ℕ → Prop}
    {x : AsyncTaskWatcher K} {n : ℕ}
    (hself : P x n) (h : ∀ v, P (watcher v) (references v)) (v : W) :
    P (Function.update watcher w x v) (Function.update references w n v) := by
  by_cases hv : v = w
  · rw [hv, Function.update_self, Function.update_self]
    exact hself
  · rw [Function.update_of_ne hv, Function.update_of_ne hv]
    exact h v

theorem Watched.count [DecidableEq W] (h : Watched task watcher references place)
    {count : BitVec 32} {n : ℕ}
    (hpending : (watcher w).Pending → count.toNat = n + 1)
    (hreleased : ¬(watcher w).Pending → count.toNat = n)
    (hheld : (watcher w).m_async_task ≠ none → ¬(watcher w).Pending → 0 < n) :
    Watched task (Function.update watcher w { watcher w with m_reference_count := count })
      (Function.update references w n) place where
  kept := by
    intro j v
    rw [← h.kept j v]
    by_cases hv : v = w
    · rw [hv, Function.update_self]
    · rw [Function.update_of_ne hv]
  free := h.free
  allocator := h.allocator
  attached := by
    intro j v
    rw [h.attached j v]
    by_cases hv : v = w
    · rw [hv, Function.update_self]
    · rw [Function.update_of_ne hv]
  pending := forall_update₂ (P := fun x n => x.Pending → x.m_reference_count.toNat = n + 1)
    hpending h.pending
  released := forall_update₂ (P := fun x n => ¬x.Pending → x.m_reference_count.toNat = n)
    hreleased h.released
  held := forall_update₂ (P := fun x n => x.m_async_task ≠ none → ¬x.Pending → 0 < n)
    hheld h.held

theorem Watched.change [DecidableEq K] [DecidableEq W] (h : Watched task watcher references place)
    {x : AsyncTaskForAllocator Q W} {y : AsyncTaskWatcher K} {n : ℕ} {p : Place A Q W}
    (htask : ∀ v, (task k).m_watcher = some v → v = w)
    (hwatcher : ∀ j, (watcher w).m_async_task = some j → j = k)
    (hx : ∀ v, x.m_watcher = some v → v = w) (hy : ∀ j, y.m_async_task = some j → j = k)
    (hattached : x.m_watcher = some w ↔ y.m_async_task = some k)
    (hkept : x.m_watcher = some w ∧ y.m_state.isDone = true ↔ p = .watcher w)
    (hplace : ∀ v, p = .watcher v → v = w)
    (hfree : ∀ b, p = .list b → x.m_is_free_for_allocator = true)
    (hallocator : (∀ b, p ≠ .list b) → x.m_task_allocator = true)
    (hpending : y.Pending → y.m_reference_count.toNat = n + 1)
    (hreleased : ¬y.Pending → y.m_reference_count.toNat = n)
    (hheld : y.m_async_task ≠ none → ¬y.Pending → 0 < n) :
    Watched (Function.update task k x) (Function.update watcher w y) (Function.update references w n)
      (Function.update place k p) where
  kept := by
    intro j v
    by_cases hj : j = k
    · subst hj
      rw [Function.update_self, Function.update_self]
      by_cases hv : v = w
      · subst hv
        rw [Function.update_self]
        exact hkept
      · exact iff_of_false (fun hkv => hv (hx v hkv.1)) (fun hpv => hv (hplace v hpv))
    · rw [Function.update_of_ne hj, Function.update_of_ne hj]
      by_cases hv : v = w
      · subst hv
        have hnot : (task j).m_watcher ≠ some v := fun hjv => hj (hwatcher j ((h.attached j v).mp hjv))
        rw [← h.kept j v]
        exact iff_of_false (fun hjv => hnot hjv.1) (fun hjv => hnot hjv.1)
      · rw [Function.update_of_ne hv]
        exact h.kept j v
  free := by
    intro j b hb
    by_cases hj : j = k
    · subst hj
      rw [Function.update_self] at hb ⊢
      exact hfree b hb
    · rw [Function.update_of_ne hj] at hb ⊢
      exact h.free j b hb
  allocator := by
    intro j hb
    by_cases hj : j = k
    · subst hj
      simp only [Function.update_self] at hb ⊢
      exact hallocator hb
    · simp only [Function.update_of_ne hj] at hb ⊢
      exact h.allocator j hb
  attached := by
    intro j v
    by_cases hv : v = w
    · subst hv
      rw [Function.update_self]
      by_cases hj : j = k
      · subst hj
        rw [Function.update_self]
        exact hattached
      · rw [Function.update_of_ne hj]
        exact iff_of_false (fun hjv => hj (hwatcher j ((h.attached j v).mp hjv)))
          (fun hyj => hj (hy j hyj))
    · rw [Function.update_of_ne hv]
      by_cases hj : j = k
      · subst hj
        rw [Function.update_self]
        exact iff_of_false (fun hxv => hv (hx v hxv))
          (fun hvj => hv (htask v ((h.attached j v).mpr hvj)))
      · rw [Function.update_of_ne hj]
        exact h.attached j v
  pending := forall_update₂ (P := fun x n => x.Pending → x.m_reference_count.toNat = n + 1)
    hpending h.pending
  released := forall_update₂ (P := fun x n => ¬x.Pending → x.m_reference_count.toNat = n)
    hreleased h.released
  held := forall_update₂ (P := fun x n => x.m_async_task ≠ none → ¬x.Pending → 0 < n)
    hheld h.held

theorem Watched.attached_eq (h : Watched task watcher references place)
    (hk : (task k).m_watcher = some w) :
    (∀ v, (task k).m_watcher = some v → v = w) ∧ ∀ j, (watcher w).m_async_task = some j → j = k := by
  constructor
  · intro v hv
    exact Option.some.inj (hv.symm.trans hk)
  · intro j hj
    exact Option.some.inj (hj.symm.trans ((h.attached k w).mp hk))

theorem Watched.detach [DecidableEq K] [DecidableEq W] (h : Watched task watcher references place)
    (hk : (task k).m_watcher = some w) {x : AsyncTaskForAllocator Q W} {y : AsyncTaskWatcher K}
    {b : Bool} (hx : x.m_watcher = none) (hfree : x.m_is_free_for_allocator = true)
    (hy : y.m_async_task = none) :
    Watched (Function.update task k x) (Function.update watcher w y)
      (Function.update references w y.m_reference_count.toNat) (Function.update place k (.list b)) := by
  obtain ⟨htask, hwatcher⟩ := h.attached_eq hk
  have hpending : ¬y.Pending := fun hpending => hpending.1 hy
  apply h.change htask hwatcher
  · intro v hv
    rw [hx] at hv
    cases hv
  · intro j hj
    rw [hy] at hj
    cases hj
  · simp [hx, hy]
  · simp [hx]
  · intro v hv
    cases hv
  · intro _ _
    exact hfree
  · intro hnot
    exact absurd rfl (hnot b)
  · exact fun hp => absurd hp hpending
  · exact fun _ => rfl
  · exact fun hne => absurd hy hne

theorem Watched.keep [DecidableEq K] [DecidableEq W] (h : Watched task watcher references place)
    (hk : (task k).m_watcher = some w) {y : AsyncTaskWatcher K} (hplace : ∀ b, place k ≠ .list b)
    (hy : y.m_async_task = some k) (hdone : y.m_state.isDone = true)
    (hcount : y.m_reference_count.toNat = references w) (hpos : 0 < references w) :
    Watched task (Function.update watcher w y) references (Function.update place k (.watcher w)) := by
  obtain ⟨htask, hwatcher⟩ := h.attached_eq hk
  have hpending : ¬y.Pending := fun hpending => absurd (hdone.symm.trans hpending.2) (by decide)
  rw [← Function.update_eq_self k task, ← Function.update_eq_self w references]
  apply h.change htask hwatcher htask
  · intro j hj
    exact Option.some.inj (hj.symm.trans hy)
  · simp [hk, hy]
  · simp [hk, hdone]
  · intro v hv
    cases hv
    rfl
  · intro b hb
    cases hb
  · intro _
    exact h.allocator k hplace
  · exact fun hp => absurd hp hpending
  · exact fun _ => hcount
  · exact fun _ _ => hpos

theorem Watched.attach [DecidableEq K] [DecidableEq W] (h : Watched task watcher references place)
    (hk : (task k).m_watcher = none) (hw : (watcher w).m_async_task = none)
    (hcount : (watcher w).m_reference_count ≠ BitVec.allOnes 32) (hlist : ∀ b, place k ≠ .list b) :
    Watched (Function.update task k { task k with m_watcher := some w })
      (Function.update watcher w
        ⟨.Pending, (watcher w).m_reference_count + 1, some k⟩) references place := by
  have hreleased := h.released w (fun hpending => hpending.1 hw)
  have hplace : ∀ v, place k ≠ .watcher v := by
    intro v hv
    have := ((h.kept k v).mpr hv).1
    rw [hk] at this
    cases this
  have hsucc : ((watcher w).m_reference_count + 1).toNat = references w + 1 := by
    have hlt := (watcher w).m_reference_count.isLt
    have hne : (watcher w).m_reference_count.toNat ≠ 2 ^ 32 - 1 := fun heq =>
      hcount (BitVec.eq_of_toNat_eq heq)
    have hone : (1 : BitVec 32).toNat = 1 := rfl
    rw [BitVec.toNat_add, hone, ← hreleased]
    omega
  rw [← Function.update_eq_self w references, ← Function.update_eq_self k place]
  apply h.change
  · intro v hv
    rw [hk] at hv
    cases hv
  · intro j hj
    rw [hw] at hj
    cases hj
  · intro v hv
    exact (Option.some.inj hv).symm
  · intro j hj
    exact (Option.some.inj hj).symm
  · exact iff_of_true rfl rfl
  · exact iff_of_false (fun hdone => Bool.false_ne_true hdone.2) (hplace w)
  · intro v hv
    exact absurd hv (hplace v)
  · intro b hb
    exact absurd hb (hlist b)
  · intro _
    exact h.allocator k hlist
  · exact fun _ => hsucc
  · intro hnot
    exact absurd ⟨Option.some_ne_none k, rfl⟩ hnot
  · intro _ hnot
    exact absurd ⟨Option.some_ne_none k, rfl⟩ hnot

end Watched

end Awn.AsyncAllocator
