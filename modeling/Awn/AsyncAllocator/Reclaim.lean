import Mathlib.Algebra.GroupWithZero.Nat
import Awn.AsyncAllocator.Places

namespace Awn.AsyncAllocator

variable {A K Q W : Type*}

structure Invariant (s : State A K Q W) (contents : Head Q → List K) (place : K → Place A Q W) :
    Prop where
  placed : Placed s.memory.m_list_index s.memory.m_available_event s.memory.links s.pc contents place
  watched : Watched s.memory.task s.memory.watcher s.references place

def Allowed [DecidableEq K] (s : State A K Q W) (a : A) : Call K Q W → Prop
  | .setWatcher w => ∀ k, s.pc a = .scheduling k → (s.memory.task k).m_watcher = none →
    (s.memory.watcher w).m_async_task = none ∧
      (s.memory.watcher w).m_reference_count ≠ BitVec.allOnes 32
  | .reference w => (s.memory.watcher w).m_reference_count ≠ BitVec.allOnes 32
  | .push q priority _ | .reschedule q priority =>
    ∀ head, s.memory.lowerHead q priority = some head → s.At head (.queue q)
  | .take q i => ∀ k, s.memory.async_task_head q i = some k → s.At k (.queue q)
  | .cancel k => ∀ q, (s.memory.task k).m_queue = some q → s.At k (.queue q)
  | _ => True

namespace Memory

variable [DecidableEq K] [DecidableEq Q] {m : Memory K Q W} {k : K} {w : W}

theorem freeToAllocator_eq (hwatcher : (m.task k).m_watcher = some w)
    (hdone : (m.watcher w).m_state.isDone = true) (hallocator : (m.task k).m_task_allocator = true) :
    m.freeToAllocator k = (m.modifyTask k fun x => { x with m_watcher := none }).freeTask k := by
  rw [freeToAllocator, hwatcher]
  simp [modifyTask, hdone, hallocator]

variable [DecidableEq W]

theorem releaseReference_last (hcount : (m.watcher w).m_reference_count = 1)
    (htask : (m.watcher w).m_async_task = some k) (hwatcher : (m.task k).m_watcher = some w)
    (hdone : (m.watcher w).m_state.isDone = true) (hallocator : (m.task k).m_task_allocator = true) :
    m.releaseReference w = { m with
      task := Function.update m.task k { m.task k with
        m_watcher := none, m_is_free_for_allocator := true, m_task_allocator := false }
      watcher := Function.update m.watcher w ⟨(m.watcher w).m_state, 0, none⟩
      links := m.links.linkPrev (listHead (!m.m_list_index)) (.inr k)
      m_available_event := true } := by
  have hfree := freeToAllocator_eq
    (m := m.modifyWatcher w fun x => { x with m_reference_count := 0 }) hwatcher
    (by simpa [modifyWatcher] using hdone) hallocator
  have hone : ¬(1 : BitVec 32) < 1 := by decide
  have hzero : (1 : BitVec 32) - 1 = 0 := by decide
  have hafter : ((m.modifyWatcher w fun x => { x with m_reference_count := 0 }).watcher
      w).m_async_task = some k := by
    simpa [modifyWatcher] using htask
  simp only [releaseReference, hcount, hzero, or_true, if_true, if_neg hone]
  rw [hafter]
  dsimp only
  rw [hfree]
  simp [freeTask, modifyTask, modifyWatcher]

theorem releaseReference_none (hcount : (m.watcher w).m_reference_count = 1)
    (htask : (m.watcher w).m_async_task = none) :
    m.releaseReference w = m.modifyWatcher w fun x => { x with m_reference_count := 0 } := by
  have hone : ¬(1 : BitVec 32) < 1 := by decide
  have hzero : (1 : BitVec 32) - 1 = 0 := by decide
  have hafter : ((m.modifyWatcher w fun x => { x with m_reference_count := 0 }).watcher
      w).m_async_task = none := by
    simpa [modifyWatcher] using htask
  simp only [releaseReference, hcount, hzero, or_true, if_true, if_neg hone]
  rw [hafter]

theorem releaseReference_of_lt (hcount : 1 < (m.watcher w).m_reference_count.toNat) :
    m.releaseReference w = m.modifyWatcher w fun x =>
      { x with m_reference_count := x.m_reference_count - 1 } := by
  have hone : (1 : BitVec 32).toNat = 1 := rfl
  have hnot : ¬((m.watcher w).m_reference_count < 1 ∨ (m.watcher w).m_reference_count - 1 = 0) := by
    rintro (hlt | hzero)
    · rw [BitVec.lt_def, hone] at hlt
      omega
    · have := congrArg BitVec.toNat hzero
      have hlt := (m.watcher w).m_reference_count.isLt
      have hzero : (0 : BitVec 32).toNat = 0 := rfl
      rw [BitVec.toNat_sub, hone, hzero] at this
      omega
  rw [releaseReference, if_neg hnot]
  rfl

omit [DecidableEq Q] [DecidableEq W] in
theorem lowerHead_modifyTask (m : Memory K Q W) (k : K)
    (f : AsyncTaskForAllocator Q W → AsyncTaskForAllocator Q W) (q : Q) (priority : ℕ) :
    (m.modifyTask k f).lowerHead q priority = m.lowerHead q priority := by
  induction priority with
  | zero => rfl
  | succ priority ih =>
    rw [lowerHead, lowerHead, ih]
    rfl

omit [DecidableEq W] in
theorem link_modifyTask (m : Memory K Q W) (k : K)
    (f : AsyncTaskForAllocator Q W → AsyncTaskForAllocator Q W) (q : Q) (priority : ℕ) :
    (m.modifyTask k f).link k q priority =
      { m.modifyTask k f with links := (m.link k q priority).links } := by
  rw [link, link, lowerHead_modifyTask]
  cases m.lowerHead q priority <;> rfl

omit [DecidableEq W] in
theorem pushTask_cases {q : Q} {priority : ℕ} {invoke_sync : Bool}
    {r : Async.AsyncQueue.Pushed × Memory K Q W}
    (h : m.pushTask k q priority invoke_sync = some r) :
    (r = (.AlreadyQueued, m) ∧ m.links.isLinked (.inr k) = true) ∨ r = (.InvalidPriority, m) ∨
      r = (.InvokedSync, m.modifyTask k fun x => { x with m_queue := some q, m_status := .Queued }) ∨
      ∃ heads, r = (.Queued, { m with
        links := (m.link k q priority).links
        task := Function.update m.task k
          { m.task k with m_queue := some q, m_status := .Queued }
        async_task_head := heads }) := by
  rw [pushTask] at h
  split at h
  · exact Or.inl ⟨(Option.some.inj h).symm, ‹_›⟩
  · split at h
    · exact Or.inr (Or.inl (Option.some.inj h).symm)
    · right
      right
      dsimp only at h
      rw [link_modifyTask] at h
      split at h
      · left
        rw [← Option.some.inj h]
        simp [modifyTask]
      · right
        split at h
        · rw [← Option.some.inj h]
          split
          · exact ⟨_, by simp [modifyTask, setHead]; rfl⟩
          · exact ⟨_, by simp [modifyTask]; rfl⟩
        · cases h

end Memory

namespace Invariant

section At

variable {s : State A K Q W} {contents : Head Q → List K} {place : K → Place A Q W}

theorem at_iff (h : Invariant s contents place) (k : K) (p : Place A Q W) :
    s.At k p ↔ place k = p := by
  have hhead : ∀ head : Head Q, (∃ xs : List K,
      s.memory.links.Ring (.inl head) (Links.nodes xs) ∧ k ∈ xs) ↔ k ∈ contents head := by
    intro head
    constructor
    · rintro ⟨xs, hring, hk⟩
      rw [h.placed.represents.eq_of_ring hring]
      exact hk
    · intro hk
      exact ⟨contents head, h.placed.represents.ring head, hk⟩
  cases p with
  | list b => exact (hhead (.inl b)).trans (h.placed.listed k (.inl b))
  | queue q => exact (hhead (.inr q)).trans (h.placed.listed k (.inr q))
  | thread a => exact h.placed.owned k a
  | watcher w => exact h.watched.kept k w

theorem exists_acquire [DecidableEq K] [DecidableEq Q] [DecidableEq W] (h : Invariant s contents place) {k : K} {b : Bool}
    (hk : place k = .list b) :
    (∃ fuel r, s.memory.acquireTaskImpl fuel = some r) ∨ ∃ m, s.memory.swapLists = some m := by
  have hmem := (h.placed.listed k (.inl b)).mpr hk
  cases hacquire : contents (.inl s.memory.m_list_index) with
  | nil =>
    right
    have hnot : s.memory.links.isLinked (Memory.listHead s.memory.m_list_index) ≠ true := by
      intro hlinked
      exact (h.placed.represents.isLinked_head _).mp hlinked hacquire
    have hb : b = !s.memory.m_list_index := by
      apply Bool.eq_not_of_ne
      rintro rfl
      rw [hacquire] at hmem
      cases hmem
    have hevent : s.memory.m_available_event = true := by
      rw [h.placed.available, ← hb]
      exact List.ne_nil_of_mem hmem
    rw [Memory.swapLists, if_neg hnot, if_pos hevent]
    exact ⟨_, rfl⟩
  | cons first rest =>
    left
    have hfirst : first ∈ contents (.inl s.memory.m_list_index) := by
      rw [hacquire]
      exact List.mem_cons_self
    have hfree := h.watched.free first _ ((h.placed.listed first _).mp hfirst)
    have hnext : s.memory.links.next (Memory.listHead s.memory.m_list_index) = .inr first := by
      have := h.placed.represents.next_head (.inl s.memory.m_list_index)
      rw [hacquire] at this
      exact this
    refine ⟨1, (first, s.memory.setAllocator first), ?_⟩
    rw [Memory.acquireTaskImpl, hnext, Memory.findFree, if_pos hfree]
    rfl

theorem contract [DecidableEq K] [DecidableEq Q] [DecidableEq W] (h : Invariant s contents place) : Contract s where
  place := by
    intro k
    refine ⟨place k, (h.at_iff k _).mpr rfl, ?_⟩
    intro p hp
    exact ((h.at_iff k p).mp hp).symm
  free := by
    intro k b hk
    exact h.watched.free k b ((h.at_iff k _).mp hk)
  available := by
    rintro ⟨k, b, hk⟩
    exact h.exists_acquire ((h.at_iff k _).mp hk)
  whole := by
    rintro ⟨hthreads, hqueues, hreferences⟩ k
    cases hp : place k with
    | list b => exact ⟨b, (h.at_iff k _).mpr hp⟩
    | queue q => exact absurd ((h.at_iff k _).mpr hp) (hqueues k q)
    | thread a =>
      have := (h.placed.owned k a).mpr hp
      rw [hthreads a] at this
      cases this
    | watcher w =>
      obtain ⟨hwatcher, hdone⟩ := (h.watched.kept k w).mpr hp
      have htask := (h.watched.attached k w).mp hwatcher
      have hpositive := h.watched.held w (by rw [htask]; exact Option.some_ne_none k)
        (fun hpending => absurd (hdone.symm.trans hpending.2) (by decide))
      rw [hreferences w] at hpositive
      exact absurd hpositive (Nat.lt_irrefl 0)

end At

section Steps

variable {s : State A K Q W} {contents : Head Q → List K} {place : K → Place A Q W} {k : K} {a : A}
  {w : W}

theorem not_kept (h : Invariant s contents place) (hk : (s.pc a).owned = some k) :
    (∀ b, place k ≠ .list b) ∧ (∀ head, place k ≠ .ofHead head) ∧ ∀ w, place k ≠ .watcher w := by
  have hplace := (h.placed.owned k a).mp hk
  rw [hplace]
  refine ⟨?_, ?_, ?_⟩
  · intro b hb
    cases hb
  · intro head hhead
    cases head <;> cases hhead
  · intro w hw
    cases hw

theorem swap [DecidableEq A] [DecidableEq K] [DecidableEq Q] (h : Invariant s contents place)
    {m : Memory K Q W} (hidle : s.pc a = .idle) (hm : s.memory.swapLists = some m) :
    Invariant (s.goto a m .idle) contents place := by
  rw [Memory.swapLists] at hm
  split at hm
  · cases hm
  · rename_i hlinked
    split at hm
    · rename_i hevent
      obtain rfl := Option.some.inj hm
      have hempty : contents (.inl s.memory.m_list_index) = [] := by
        by_contra hne
        exact hlinked ((h.placed.represents.isLinked_head _).mpr hne)
      have hplaced := h.placed
      rw [hevent] at hplaced
      exact ⟨(hplaced.swap hempty).stay (by rw [hidle]), h.watched⟩
    · cases hm

variable [DecidableEq A] [DecidableEq K]

theorem acquire [DecidableEq Q] (h : Invariant s contents place) (hidle : s.pc a = .idle) {fuel : ℕ}
    {r : K × Memory K Q W} (hr : s.memory.acquireTaskImpl fuel = some r) :
    ∃ contents' place', Invariant (s.goto a r.2 (.scheduling r.1)) contents' place' := by
  obtain ⟨k, hfind, rfl⟩ := Option.map_eq_some_iff.mp hr
  have hk : place k = .list s.memory.m_list_index := by
    have hnext := h.placed.represents.next_head (.inl s.memory.m_list_index)
    cases fuel with
    | zero => cases hfind
    | succ fuel =>
      cases hc : contents (.inl s.memory.m_list_index) with
      | nil =>
        rw [hc] at hnext
        change s.memory.links.next (Memory.listHead s.memory.m_list_index) = .inl _ at hnext
        rw [hnext] at hfind
        cases hfind
      | cons first rest =>
        rw [hc] at hnext
        change s.memory.links.next (Memory.listHead s.memory.m_list_index) = .inr first at hnext
        have hplace := (h.placed.listed first (.inl s.memory.m_list_index)).mp
          (hc ▸ List.mem_cons_self)
        rw [hnext, Memory.findFree, if_pos (h.watched.free first _ hplace)] at hfind
        rw [← Option.some.inj hfind]
        exact hplace
  have hhead : place k = .ofHead (.inl s.memory.m_list_index) := hk
  have hplaced := h.placed.take hhead (by simp) hidle (Eq.refl (Pc.scheduling k).owned)
  refine ⟨_, _, hplaced, ?_⟩
  apply h.watched.move
  · rfl
  · left
    constructor
    · intro w hw
      rw [hk] at hw
      cases hw
    · intro w hw
      cases hw
  · intro b hb
    cases hb
  · exact fun _ => rfl

theorem setWatcher [DecidableEq W] (h : Invariant s contents place) (hk : s.pc a = .scheduling k)
    (hallowed : (s.memory.task k).m_watcher = none → (s.memory.watcher w).m_async_task = none ∧
      (s.memory.watcher w).m_reference_count ≠ BitVec.allOnes 32) :
    Invariant (s.goto a (s.memory.setWatcher k w) (.scheduling k)) contents place := by
  have howned : (Pc.scheduling k).owned = (s.pc a).owned := by rw [hk]
  cases hwatcher : (s.memory.task k).m_watcher with
  | some v =>
    rw [Memory.setWatcher, hwatcher]
    exact ⟨h.placed.stay howned, h.watched⟩
  | none =>
    obtain ⟨htask, hcount⟩ := hallowed hwatcher
    rw [Memory.setWatcher, hwatcher]
    exact ⟨h.placed.stay howned,
      h.watched.attach hwatcher htask hcount (h.not_kept howned.symm).1⟩

theorem freeTask [DecidableEq Q] (h : Invariant s contents place) (hk : (s.pc a).owned = some k) {pc : Pc K}
    (hpc : pc.owned = none) :
    ∃ contents' place', Invariant (s.goto a (s.memory.freeTask k) pc) contents' place' := by
  obtain ⟨-, hhead, hwatcher⟩ := h.not_kept hk
  have howned := h.placed.owned_give hk hpc (p := .list (!s.memory.m_list_index))
    (fun b hb => by cases hb)
  refine ⟨_, _, h.placed.free hhead howned, ?_⟩
  apply h.watched.move
  · rfl
  · left
    refine ⟨hwatcher, ?_⟩
    intro w hw
    cases hw
  · exact fun _ _ => rfl
  · intro hnot
    exact absurd rfl (hnot _)

theorem modifyTask (h : Invariant s contents place)
    {f : AsyncTaskForAllocator Q W → AsyncTaskForAllocator Q W} {pc : Pc K}
    (hpc : pc.owned = (s.pc a).owned) (hwatcher : (f (s.memory.task k)).m_watcher =
      (s.memory.task k).m_watcher)
    (hfree : (s.memory.task k).m_is_free_for_allocator = true →
      (f (s.memory.task k)).m_is_free_for_allocator = true)
    (hallocator : (s.memory.task k).m_task_allocator = true →
      (f (s.memory.task k)).m_task_allocator = true) :
    Invariant (s.goto a (s.memory.modifyTask k f) pc) contents place := by
  refine ⟨h.placed.stay hpc, ?_⟩
  have hmove := h.watched.move hwatcher (Or.inr (Eq.refl (place k)))
    (fun b hb => hfree (h.watched.free k b hb)) (fun hb => hallocator (h.watched.allocator k hb))
  rw [Function.update_eq_self] at hmove
  exact hmove

theorem releaseWatcher [DecidableEq Q] [DecidableEq W] (h : Invariant s contents place) (hk : (s.pc a).owned = some k) {pc : Pc K}
    (hpc : pc.owned = none) {state : WatcherState} (hstate : state.isDone = true) :
    ∃ contents' place', Invariant (s.goto a (s.memory.releaseWatcher k state) pc) contents' place' := by
  obtain ⟨hlist, hhead, hkept⟩ := h.not_kept hk
  have hallocator := h.watched.allocator k hlist
  cases hwatcher : (s.memory.task k).m_watcher with
  | none =>
    rw [Memory.releaseWatcher, hwatcher]
    dsimp only
    rw [if_pos hallocator]
    exact h.freeTask hk hpc
  | some w =>
    have htask := (h.watched.attached k w).mp hwatcher
    have hpending : (s.memory.watcher w).Pending := by
      constructor
      · rw [htask]
        exact Option.some_ne_none k
      · cases hdone : (s.memory.watcher w).m_state.isDone with
        | false => rfl
        | true => exact absurd ((h.watched.kept k w).mp ⟨hwatcher, hdone⟩) (hkept w)
    have hcount := h.watched.pending w hpending
    rw [Memory.releaseWatcher, hwatcher]
    dsimp only
    by_cases hreferences : s.references w = 0
    · have hone : (s.memory.watcher w).m_reference_count = 1 := by
        apply BitVec.eq_of_toNat_eq
        rw [hcount, hreferences]
        rfl
      have hlast := Memory.releaseReference_last (k := k) (w := w)
        (m := s.memory.modifyWatcher w fun x => { x with m_state := state })
        (by simpa [Memory.modifyWatcher] using hone) (by simpa [Memory.modifyWatcher] using htask)
        hwatcher (by simpa [Memory.modifyWatcher] using hstate) hallocator
      rw [hlast]
      have howned := h.placed.owned_give hk hpc (p := .list (!s.memory.m_list_index))
        (fun b hb => by cases hb)
      refine ⟨_, _, h.placed.free hhead howned, ?_⟩
      have hdetach := h.watched.detach hwatcher (b := !s.memory.m_list_index)
        (x := { s.memory.task k with
          m_watcher := none, m_is_free_for_allocator := true, m_task_allocator := false })
        (y := ⟨state, 0, none⟩) rfl rfl rfl
      have hzero : Function.update s.references w (0 : BitVec 32).toNat = s.references := by
        have hzero : (0 : BitVec 32).toNat = 0 := rfl
        rw [hzero, ← hreferences, Function.update_eq_self]
      rw [hzero] at hdetach
      simpa [State.goto, Memory.modifyWatcher] using hdetach
    · have hmore := Memory.releaseReference_of_lt (w := w)
        (m := s.memory.modifyWatcher w fun x => { x with m_state := state })
        (by simp [Memory.modifyWatcher, hcount]; omega)
      rw [hmore]
      have howned := h.placed.owned_give hk hpc (p := .watcher w) (fun b hb => by cases hb)
      have hnone : ∀ head, (Place.watcher w : Place A Q W) ≠ .ofHead head := by
        intro head hw
        cases head <;> cases hw
      refine ⟨_, _, h.placed.leave hhead hnone howned, ?_⟩
      have hnew : ((s.memory.watcher w).m_reference_count - 1).toNat = s.references w := by
        have hone : (1 : BitVec 32).toNat = 1 := rfl
        have hlt := (s.memory.watcher w).m_reference_count.isLt
        rw [BitVec.toNat_sub, hone]
        omega
      have hkeep := h.watched.keep hwatcher
        (y := ⟨state, (s.memory.watcher w).m_reference_count - 1, some k⟩) hlist rfl hstate hnew
        (Nat.pos_of_ne_zero hreferences)
      simpa [State.goto, Memory.modifyWatcher, htask] using hkeep

omit [DecidableEq A] in
theorem releaseReference [DecidableEq Q] [DecidableEq W] (h : Invariant s contents place)
    (hreferences : 0 < s.references w) :
    ∃ contents' place', Invariant { s with
      memory := s.memory.releaseReference w
      references := Function.update s.references w (s.references w - 1) } contents' place' := by
  have hlt := (s.memory.watcher w).m_reference_count.isLt
  have hone : (1 : BitVec 32).toNat = 1 := rfl
  by_cases hcount : 1 < (s.memory.watcher w).m_reference_count.toNat
  · rw [Memory.releaseReference_of_lt hcount]
    refine ⟨contents, place, h.placed, ?_⟩
    apply h.watched.count
    · intro hpending
      have := h.watched.pending w hpending
      rw [BitVec.toNat_sub, hone]
      omega
    · intro hreleased
      have := h.watched.released w hreleased
      rw [BitVec.toNat_sub, hone]
      omega
    · intro _ hreleased
      have := h.watched.released w hreleased
      omega
  · have hreleased : ¬(s.memory.watcher w).Pending := by
      intro hpending
      have := h.watched.pending w hpending
      omega
    have hcount := h.watched.released w hreleased
    have hlast : s.references w = 1 := by omega
    have hcountOne : (s.memory.watcher w).m_reference_count = 1 := by
      apply BitVec.eq_of_toNat_eq
      rw [hcount, hlast]
      rfl
    rw [hlast]
    cases htask : (s.memory.watcher w).m_async_task with
    | none =>
      rw [Memory.releaseReference_none hcountOne htask]
      refine ⟨contents, place, h.placed, ?_⟩
      apply h.watched.count
      · exact fun hpending => absurd hpending hreleased
      · exact fun _ => rfl
      · exact fun hne => absurd htask hne
    | some k =>
      have hwatcher := (h.watched.attached k w).mpr htask
      have hdone : (s.memory.watcher w).m_state.isDone = true := by
        cases hdone : (s.memory.watcher w).m_state.isDone with
        | false => exact absurd ⟨by rw [htask]; exact Option.some_ne_none k, hdone⟩ hreleased
        | true => rfl
      have hplace := (h.watched.kept k w).mp ⟨hwatcher, hdone⟩
      have hlist : ∀ b, place k ≠ .list b := by
        intro b hb
        rw [hplace] at hb
        cases hb
      have hhead : ∀ head, place k ≠ .ofHead head := by
        intro head hb
        rw [hplace] at hb
        cases head <;> cases hb
      rw [Memory.releaseReference_last hcountOne htask hwatcher hdone
        (h.watched.allocator k hlist)]
      refine ⟨_, _, h.placed.free hhead ?_, h.watched.detach hwatcher rfl rfl rfl⟩
      intro j b
      rw [h.placed.owned j b]
      by_cases hj : j = k
      · subst hj
        rw [Function.update_self, hplace]
        exact iff_of_false (fun hp => by cases hp) (fun hp => by cases hp)
      · rw [Function.update_of_ne hj]

omit [DecidableEq A] [DecidableEq K] in
theorem reference [DecidableEq W] (h : Invariant s contents place)
    (hcount : (s.memory.watcher w).m_reference_count ≠ BitVec.allOnes 32) :
    Invariant { s with
      memory := s.memory.reference w
      references := Function.update s.references w (s.references w + 1) } contents place := by
  have hsucc : ((s.memory.watcher w).m_reference_count + 1).toNat =
      (s.memory.watcher w).m_reference_count.toNat + 1 := by
    have hlt := (s.memory.watcher w).m_reference_count.isLt
    have hne : (s.memory.watcher w).m_reference_count.toNat ≠ 2 ^ 32 - 1 := fun heq =>
      hcount (BitVec.eq_of_toNat_eq heq)
    have hone : (1 : BitVec 32).toNat = 1 := rfl
    rw [BitVec.toNat_add, hone]
    omega
  refine ⟨h.placed, ?_⟩
  apply h.watched.count
  · intro hpending
    rw [hsucc, h.watched.pending w hpending]
  · intro hreleased
    rw [hsucc, h.watched.released w hreleased]
  · intro _ _
    omega

omit [DecidableEq A] in
theorem link [DecidableEq Q] (h : Invariant s contents place) {q : Q} {priority : ℕ}
    (hk : ∀ head, place k ≠ .ofHead head)
    (hlower : ∀ head, s.memory.lowerHead q priority = some head → place head = .queue q) :
    ∃ contents', (s.memory.link k q priority).links.Represents contents' ∧
      (∀ j head, j ∈ contents' head ↔ j ∈ contents head ∨ (j = k ∧ head = .inr q)) ∧
      ∀ b, contents' (.inl b) = contents (.inl b) := by
  have hnot := h.placed.not_listed hk
  have hmem : ∀ xs ys : List K, contents (.inr q) = xs ++ ys → ∀ j head,
      j ∈ Function.update contents (.inr q) (xs ++ k :: ys) head ↔
        j ∈ contents head ∨ (j = k ∧ head = .inr q) := by
    intro xs ys hc j head
    by_cases hhead : head = .inr q
    · subst hhead
      rw [Function.update_self, hc]
      simp only [List.mem_append, List.mem_cons]
      tauto
    · rw [Function.update_of_ne hhead]
      simp [hhead]
  have hother : ∀ xs : List K, ∀ b, Function.update contents (.inr q) xs (.inl b) =
      contents (.inl b) := by
    intro xs b
    exact Function.update_of_ne (by simp) _ _
  cases hhead : s.memory.lowerHead q priority with
  | none =>
    refine ⟨_, ?_, hmem (contents (.inr q)) [] (List.append_nil _).symm, hother _⟩
    rw [Memory.link, hhead]
    exact h.placed.represents.pushBack hnot _
  | some head =>
    obtain ⟨xs, ys, hc⟩ := List.append_of_mem
      ((h.placed.listed head (.inr q)).mpr (hlower head hhead))
    refine ⟨_, ?_, hmem (xs ++ [head]) ys (by simp [hc]), hother _⟩
    rw [Memory.link, hhead]
    have hlink := h.placed.represents.linkNext hnot hc
    simpa using hlink

theorem push [DecidableEq Q] (h : Invariant s contents place) (hk : (s.pc a).owned = some k)
    {q : Q} {priority : ℕ} {heads : Q → ℕ → Option K} {pc : Pc K} (hpc : pc.owned = none)
    (hlower : ∀ head, s.memory.lowerHead q priority = some head → place head = .queue q) :
    ∃ contents' place', Invariant (s.goto a { s.memory with
      links := (s.memory.link k q priority).links
      task := Function.update s.memory.task k
        { s.memory.task k with m_queue := some q, m_status := .Queued }
      async_task_head := heads } pc) contents' place' := by
  obtain ⟨hlist, hhead, hkept⟩ := h.not_kept hk
  obtain ⟨contents', hrep, hmem, hsame⟩ := h.link hhead hlower
  have howned := h.placed.owned_give hk hpc (p := .ofHead (.inr q)) (fun b hb => by cases hb)
  refine ⟨contents', _, h.placed.give hhead hrep hmem howned ?_, ?_⟩
  · rw [hsame]
    exact h.placed.available
  · apply h.watched.move
    · rfl
    · left
      refine ⟨hkept, ?_⟩
      intro w hw
      cases hw
    · intro b hb
      cases hb
    · exact fun _ => h.watched.allocator k hlist

theorem unlink [DecidableEq Q] (h : Invariant s contents place) (hidle : s.pc a = .idle)
    {q : Q} (hk : place k = .queue q) {pc : Pc K} (hpc : pc.owned = some k)
    (heads : Q → ℕ → Option K) :
    ∃ contents' place', Invariant (s.goto a { s.memory with
      links := s.memory.links.unlink (.inr k)
      async_task_head := heads } pc) contents' place' := by
  have hhead : place k = .ofHead (.inr q) := hk
  refine ⟨_, _, h.placed.take hhead (by simp) hidle hpc, ?_⟩
  have hmove := h.watched.move (k := k) (p := .thread a) rfl (Or.inl ⟨?_, ?_⟩) ?_ ?_
  · rw [Function.update_eq_self] at hmove
    exact hmove
  · intro w hw
    rw [hk] at hw
    cases hw
  · intro w hw
    cases hw
  · intro b hb
    cases hb
  · intro _
    apply h.watched.allocator k
    intro b hb
    rw [hk] at hb
    cases hb

omit [DecidableEq K] in
theorem goto_goto (s : State A K Q W) (a : A) (m m' : Memory K Q W) (pc pc' : Pc K) :
    (s.goto a m pc).goto a m' pc' = s.goto a m' pc' := by
  simp [State.goto]

omit [DecidableEq K] in
theorem goto_pc (s : State A K Q W) (a : A) (m : Memory K Q W) (pc : Pc K) :
    (s.goto a m pc).pc a = pc := Function.update_self _ _ _

theorem take [DecidableEq Q] (h : Invariant s contents place) (hidle : s.pc a = .idle) {q : Q}
    (hk : place k = .queue q) (i : ℕ) :
    ∃ contents' place', Invariant (s.goto a (s.memory.takeTask q i k) (.executing k))
      contents' place' := by
  obtain ⟨contents', place', hunlink⟩ := h.unlink hidle hk (Eq.refl (Pc.executing k).owned)
    (s.memory.setHead q i (s.memory.nextHead k i)).async_task_head
  have hmodify := hunlink.modifyTask (a := a) (k := k)
    (f := fun x => { x with m_status := .Acquired }) (congrArg Pc.owned (goto_pc _ _ _ _).symm) rfl
    id id
  rw [goto_goto] at hmodify
  exact ⟨contents', place', hmodify⟩

theorem cancel [DecidableEq Q] [DecidableEq W] (h : Invariant s contents place)
    (hidle : s.pc a = .idle) {q : Q} (hk : place k = .queue q) :
    ∃ contents' place', Invariant (s.goto a
      ((s.memory.unschedule q k).releaseWatcher k .Cancelled) (.finishing k .Cancelled))
      contents' place' := by
  have hunschedule : ∃ contents' place', Invariant (s.goto a (s.memory.unschedule q k)
      (.executing k)) contents' place' := by
    rw [Memory.unschedule]
    split
    · exact h.unlink hidle hk rfl _
    · exact h.unlink hidle hk rfl _
  obtain ⟨contents', place', hunschedule⟩ := hunschedule
  have howned : ((s.goto a (s.memory.unschedule q k) (.executing k)).pc a).owned = some k := by
    rw [goto_pc]
    rfl
  have hnone : (Pc.finishing k .Cancelled).owned = none := rfl
  have hdone : WatcherState.Cancelled.isDone = true := rfl
  have hrelease := hunschedule.releaseWatcher howned hnone hdone
  rw [goto_goto] at hrelease
  exact hrelease

theorem step [DecidableEq Q] [DecidableEq W] (h : Invariant s contents place)
    {s' : State A K Q W} {c : Call K Q W} (hallowed : Allowed s a c) (hstep : Step s a c s') :
    ∃ contents' place', Invariant s' contents' place' := by
  cases hstep with
  | acquire hidle hr => exact h.acquire hidle hr
  | swap hidle hm => exact ⟨contents, place, h.swap hidle hm⟩
  | setWatcher hk => exact ⟨contents, place, h.setWatcher hk (hallowed _ hk)⟩
  | @push k q priority invoke_sync r hk hr =>
    have howned : (s.pc a).owned = some k := by
      rw [hk]
      rfl
    have hlower : ∀ head, s.memory.lowerHead q priority = some head → place head = .queue q :=
      fun head hhead => (h.at_iff head _).mp (hallowed head hhead)
    obtain ⟨rfl, hlinked⟩ | rfl | rfl | ⟨heads, rfl⟩ := Memory.pushTask_cases hr
    · obtain ⟨head, hmem⟩ := (h.placed.represents.isLinked_elem k).mp hlinked
      exact absurd hmem (h.placed.not_listed (h.not_kept howned).2.1 head)
    · exact h.freeTask howned rfl
    · have hsame : (Pc.executing k).owned = (s.pc a).owned := howned.symm
      have hmodify := h.modifyTask (a := a) (k := k)
        (f := fun x => { x with m_queue := some q, m_status := .Queued }) hsame rfl id id
      exact ⟨contents, place, hmodify⟩
    · exact h.push howned rfl hlower
  | take hidle hk => exact h.take hidle ((h.at_iff _ _).mp (hallowed _ hk)) _
  | postExecute hk =>
    exact ⟨contents, place, h.modifyTask (by rw [hk]) rfl id id⟩
  | @reschedule k q priority m hk hr =>
    have howned : (s.pc a).owned = some k := by
      rw [hk]
      rfl
    have hlower : ∀ head, s.memory.lowerHead q priority = some head → place head = .queue q :=
      fun head hhead => (h.at_iff head _).mp (hallowed head hhead)
    obtain ⟨heq, -⟩ | heq | heq | ⟨heads, heq⟩ := Memory.pushTask_cases hr
    · cases heq
    · cases heq
    · cases heq
    · obtain rfl := congrArg Prod.snd heq
      exact h.push howned rfl hlower
  | freeExecute hk => exact h.releaseWatcher (by rw [hk]; rfl) rfl rfl
  | cancel hidle _ hq => exact h.cancel hidle ((h.at_iff _ _).mp (hallowed _ hq))
  | settle hk =>
    exact ⟨contents, place, h.modifyTask (by rw [hk]; rfl) rfl (fun _ => rfl) id⟩
  | reference => exact ⟨contents, place, h.reference hallowed⟩
  | release hreferences => exact h.releaseReference hreferences

end Steps

end Invariant

section Run

variable [DecidableEq A] [DecidableEq K] [DecidableEq Q] [DecidableEq W] {s : State A K Q W}

theorem Run.invariant (h : Run Allowed s) : ∃ contents place, Invariant s contents place := by
  induction h with
  | @start s pool hpool hrep hevent htasks hwatchers hidle hreferences =>
    refine ⟨_, fun _ => .list s.memory.m_list_index, ⟨hrep, ?_, ?_, ?_⟩, ?_⟩
    · intro k head
      by_cases hhead : head = .inl s.memory.m_list_index
      · rw [if_pos hhead, hhead]
        exact iff_of_true (hpool k) rfl
      · rw [if_neg hhead]
        refine iff_of_false (fun hk => by cases hk) ?_
        intro heq
        exact hhead (Place.ofHead_inj.mp heq.symm)
    · intro k b
      rw [hidle]
      exact iff_of_false (fun hk => by cases hk) (fun hk => by cases hk)
    · simp [hevent]
    · have hpending : ∀ w, ¬(s.memory.watcher w).Pending := by
        intro w hpending
        rw [hwatchers w] at hpending
        exact hpending.1 rfl
      constructor
      · intro k w
        rw [(htasks k).2]
        exact iff_of_false (fun hk => by cases hk.1) (fun hk => by cases hk)
      · intro k _ _
        exact (htasks k).1
      · intro k hk
        exact absurd rfl (hk _)
      · intro k w
        rw [(htasks k).2, hwatchers w]
        exact iff_of_false (fun hk => by cases hk) (fun hk => by cases hk)
      · exact fun w hw => absurd hw (hpending w)
      · intro w _
        rw [hwatchers w, hreferences w]
        rfl
      · intro w hw
        rw [hwatchers w] at hw
        exact absurd rfl hw
  | step _ hallowed hstep ih =>
    obtain ⟨contents, place, ih⟩ := ih
    exact ih.step hallowed hstep

/-- Where the watchers that are set have no task, the pool is kept. -/
theorem pool_kept (h : Run Allowed s) : Contract s := by
  obtain ⟨contents, place, hinvariant⟩ := h.invariant
  exact hinvariant.contract

end Run

section TwoTasks

local instance two_tasks_ne : NeZero 2 := ⟨by decide⟩

def twoTasks : State Unit (Fin 2) Unit Unit where
  memory :=
    { m_list_index := false
      m_available_event := false
      links := (Links.alone.linkPrev (Memory.listHead false) (.inr 0)).linkPrev
        (Memory.listHead false) (.inr 1)
      task := fun _ => ⟨true, .Uninitialized, none, false, none⟩
      watcher := fun _ => ⟨.Uninitialized, 0, none⟩
      async_task_head := fun _ _ => none
      priority_level_count := fun _ => 1 }
  pc := fun _ => .idle
  references := fun _ => 0

theorem run_twoTasks {allowed : State Unit (Fin 2) Unit Unit → Unit → Call (Fin 2) Unit Unit → Prop} :
    Run allowed twoTasks := by
  have hfirst := Links.represents_alone.pushBack (S := Head Unit) (e := (0 : Fin 2))
    (fun _ h => by cases h) (Sum.inl false)
  have hone : ∀ s : Head Unit, (1 : Fin 2) ∉
      Function.update (fun _ => []) (.inl false) ([] ++ [0]) s := by
    rintro (b | u) hmem
    · cases b <;> simp at hmem
    · simp at hmem
  have hsecond := hfirst.pushBack hone (Sum.inl false)
  have hlists : Function.update (Function.update (fun _ : Head Unit => []) (.inl false)
      ([] ++ [(0 : Fin 2)])) (.inl false) ([0] ++ [1]) =
      fun h => if h = .inl false then [0, 1] else [] := by
    funext h
    by_cases hh : h = .inl false
    · rw [hh, Function.update_self]
      rfl
    · rw [Function.update_of_ne hh, Function.update_of_ne hh, if_neg hh]
  have hpool : ∀ k : Fin 2, k ∈ [0, 1] := by decide
  apply Run.start hpool
  · change twoTasks.memory.links.Represents fun h => if h = .inl false then [0, 1] else []
    rw [← hlists]
    exact hsecond
  · rfl
  · exact fun _ => ⟨rfl, rfl⟩
  · exact fun _ => rfl
  · exact fun _ => rfl
  · exact fun _ => rfl

theorem firstTask : twoTasks.memory.acquireTaskImpl 1 = some (0, twoTasks.memory.setAllocator 0) := rfl

theorem pool_kept_queued : ∃ s : State Unit (Fin 2) Unit Unit, Run Allowed s ∧
    (s.memory.task 0).m_status = .Queued ∧ Contract s := by
  have hstart : Run Allowed twoTasks := run_twoTasks
  have hacquired := hstart.step (a := ()) (c := .acquire) trivial (.acquire rfl firstTask)
  have hwatched := hacquired.step (a := ()) (c := .setWatcher ()) (fun _ _ _ => ⟨rfl, by decide⟩)
    (.setWatcher rfl)
  have hqueued := hwatched.step (a := ()) (c := .push () 0 false) (fun _ h => by cases h)
    (.push rfl rfl)
  exact ⟨_, hqueued, rfl, pool_kept hqueued⟩

theorem exists_lost : ∃ s : State Unit (Fin 2) Unit Unit, Run (fun _ _ _ => True) s ∧
    s.pc () = .idle ∧ s.references () = 0 ∧ (s.memory.task 1).m_is_free_for_allocator = true ∧
    s.At 0 (.list true) ∧ s.At 1 (.watcher ()) := by
  have hstart : Run (fun _ _ _ => True) twoTasks := run_twoTasks
  have hacquired := hstart.step (a := ()) (c := .acquire) trivial (.acquire rfl firstTask)
  have hwatched := hacquired.step (a := ()) (c := .setWatcher ()) trivial (.setWatcher rfl)
  have hfailed := hwatched.step (a := ()) (c := .push () 2 false) trivial (.push rfl rfl)
  have hagain := hfailed.step (a := ()) (c := .acquire) trivial (@Step.acquire _ _ _ _ _ _ _ _ _ () 1 _ rfl rfl)
  have hwatched := hagain.step (a := ()) (c := .setWatcher ()) trivial (.setWatcher rfl)
  have hqueued := hwatched.step (a := ()) (c := .push () 0 false) trivial (.push rfl rfl)
  have htaken := hqueued.step (a := ()) (c := .take () 0) trivial (.take rfl rfl)
  have hreleased := htaken.step (a := ()) (c := .freeExecute) trivial (.freeExecute rfl)
  have hsettled := hreleased.step (a := ()) (c := .settle) trivial (.settle rfl)
  exact ⟨_, hsettled, rfl, rfl, rfl, ⟨[0], ⟨rfl, rfl, rfl, rfl⟩, List.mem_cons_self⟩, rfl, rfl⟩

theorem task_lost : ¬∀ s : State Unit (Fin 2) Unit Unit, Run (fun _ _ _ => True) s → Contract s := by
  intro hall
  obtain ⟨s, hrun, hidle, hreferences, -, hfirst, hsecond⟩ := exists_lost
  have hcontract := hall s hrun
  have hdone : s.Done := by
    refine ⟨?_, ?_, fun _ => hreferences⟩
    · intro a
      rw [hidle]
      rfl
    · intro k q hk
      match k with
      | 0 => cases (hcontract.place 0).unique hk hfirst
      | 1 => cases (hcontract.place 1).unique hk hsecond
  obtain ⟨b, hb⟩ := hcontract.whole hdone 1
  cases (hcontract.place 1).unique hb hsecond

end TwoTasks

end Awn.AsyncAllocator
