import Mathlib.Data.Nat.Find
import Mathlib.Logic.Function.Basic
import Mathlib.Order.Defs.LinearOrder

/-!
Tries over bit sequences whose edges may point back. A node tests the bit at its
reference position; an edge leads down while the position grows, and an edge to a
position that does not grow ends the search at the node it points to.
-/

namespace Awn.Patricia

def Agree (a b : ℕ → Bool) (d : ℕ) : Prop := ∀ i, i < d → a i = b i

def FirstDiff (a b : ℕ → Bool) (d : ℕ) : Prop := Agree a b d ∧ a d ≠ b d

theorem Agree.symm {a b : ℕ → Bool} {d : ℕ} (h : Agree a b d) : Agree b a d :=
  fun i hi => (h i hi).symm

theorem Agree.trans {a b c : ℕ → Bool} {d : ℕ} (h : Agree a b d) (h' : Agree b c d) : Agree a c d :=
  fun i hi => (h i hi).trans (h' i hi)

theorem Agree.mono {a b : ℕ → Bool} {d e : ℕ} (h : Agree a b d) (he : e ≤ d) : Agree a b e :=
  fun i hi => h i (by omega)

theorem agree_succ {a b : ℕ → Bool} {d : ℕ} : Agree a b (d + 1) ↔ Agree a b d ∧ a d = b d := by
  constructor
  · intro h
    exact ⟨h.mono (by omega), h d (by omega)⟩
  · rintro ⟨h, hd⟩ i hi
    by_cases hid : i = d
    · rw [hid, hd]
    · exact h i (by omega)

theorem FirstDiff.unique {a b : ℕ → Bool} {d e : ℕ} (h : FirstDiff a b d) (h' : FirstDiff a b e) :
    d = e := by
  rcases lt_trichotomy d e with hlt | heq | hgt
  · exact absurd (h'.1 d hlt) h.2
  · exact heq
  · exact absurd (h.1 e hgt) h'.2

theorem FirstDiff.not_agree {a b : ℕ → Bool} {d e : ℕ} (h : FirstDiff a b d) (he : d < e) :
    ¬Agree a b e := fun ha => h.2 (ha d he)

theorem exists_firstDiff {a b : ℕ → Bool} (h : a ≠ b) : ∃ d, FirstDiff a b d := by
  have hex : ∃ d, a d ≠ b d := by
    by_contra hno
    push Not at hno
    exact h (funext hno)
  refine ⟨Nat.find hex, ?_, Nat.find_spec hex⟩
  intro i hi
  by_contra hne
  exact Nat.find_min hex hi hne

structure Trie where
  ref : ℕ → ℕ
  child : ℕ → Bool → ℕ

namespace Trie

def next (T : Trie) (q : ℕ → Bool) (t : ℕ) : ℕ := T.child t (q (T.ref t))

inductive Search (T : Trie) (q : ℕ → Bool) : ℕ → ℕ → Prop
  | stop {t : ℕ} : T.ref (T.next q t) ≤ T.ref t → Search T q t (T.next q t)
  | step {t x : ℕ} : T.ref t < T.ref (T.next q t) → Search T q (T.next q t) x → Search T q t x

theorem Search.unique {T : Trie} {q : ℕ → Bool} {t x y : ℕ} (h : T.Search q t x)
    (h' : T.Search q t y) : x = y := by
  induction h with
  | stop hle =>
    cases h' with
    | stop => rfl
    | step hlt => omega
  | step hlt _ ih =>
    cases h' with
    | stop hle => omega
    | step _ h' => exact ih h'

theorem exists_search {T : Trie} {n B : ℕ} (q : ℕ → Bool) (hchild : ∀ t < n, ∀ b, T.child t b < n)
    (hB : ∀ t < n, T.ref t < B) (t : ℕ) (ht : t < n) : ∃ x < n, T.Search q t x := by
  obtain ⟨k, hk⟩ : ∃ k, k = B - T.ref t := ⟨_, rfl⟩
  induction k using Nat.strong_induction_on generalizing t with
  | _ k ih =>
    have hn := hchild t ht (q (T.ref t))
    by_cases hlt : T.ref t < T.ref (T.next q t)
    · have hb := hB _ hn
      obtain ⟨x, hx, hs⟩ := ih (B - T.ref (T.next q t)) (by rw [next] at hlt ⊢; omega) _ hn rfl
      exact ⟨x, hx, Search.step hlt hs⟩
    · exact ⟨T.next q t, hn, Search.stop (by omega)⟩

def insert (T : Trie) (q : ℕ → Bool) (j r p : ℕ) : Trie where
  ref := Function.update T.ref j r
  child t b :=
    if t = j then (if b = q (T.ref (T.next q p)) then T.next q p else j)
    else if t = p ∧ b = q (T.ref p) then j else T.child t b

def Fits (T : Trie) (q : ℕ → Bool) (r p : ℕ) : Prop :=
  T.ref p < r ∧ (T.ref (T.next q p) ≤ T.ref p ∨ r ≤ T.ref (T.next q p))

section Insert

variable {T : Trie} {q : ℕ → Bool} {n r p : ℕ}

theorem insert_ref_of_lt {t : ℕ} (ht : t < n) : (T.insert q n r p).ref t = T.ref t := by
  simp only [insert]
  rw [Function.update_of_ne (by omega)]

theorem insert_ref_self : (T.insert q n r p).ref n = r := by
  simp only [insert]
  rw [Function.update_self]

theorem insert_child_of_lt {t : ℕ} (ht : t < n) (b : Bool) :
    (T.insert q n r p).child t b = if t = p ∧ b = q (T.ref p) then n else T.child t b := by
  simp only [insert]
  rw [if_neg (by omega)]

theorem insert_child_self (b : Bool) :
    (T.insert q n r p).child n b = if b = q (T.ref (T.next q p)) then T.next q p else n := by
  simp only [insert]
  rw [if_pos trivial]

theorem search_insert_below {q' : ℕ → Bool} (hchild : ∀ t < n, ∀ b, T.child t b < n) {t x : ℕ}
    (h : T.Search q' t x) (ht : t < n) (hp : T.ref p < T.ref t) :
    (T.insert q n r p).Search q' t x := by
  have hnext : ∀ t < n, T.ref p < T.ref t →
      (T.insert q n r p).next q' t = T.next q' t := by
    intro t ht hp
    rw [next, insert_ref_of_lt ht, insert_child_of_lt ht, if_neg, next]
    rintro ⟨rfl, -⟩
    omega
  induction h with
  | @stop t hle =>
    have hn : T.next q' t < n := hchild t ht (q' (T.ref t))
    rw [← hnext t ht hp]
    apply Search.stop
    rw [hnext t ht hp, insert_ref_of_lt hn, insert_ref_of_lt ht]
    exact hle
  | @step t x hlt _ ih =>
    have hn : T.next q' t < n := hchild t ht (q' (T.ref t))
    apply Search.step
    · rw [hnext t ht hp, insert_ref_of_lt hn, insert_ref_of_lt ht]
      exact hlt
    · rw [hnext t ht hp]
      exact ih hn (by omega)

theorem search_insert {q' : ℕ → Bool} (hchild : ∀ t < n, ∀ b, T.child t b < n)
    (hfits : T.Fits q r p) {t x : ℕ} (h : T.Search q' t x) (ht : t < n) :
    (T.insert q n r p).Search q' t x ∨
      (q' r ≠ q (T.ref (T.next q p)) ∧ (T.insert q n r p).Search q' t n) ∨
      (q' r = q (T.ref (T.next q p)) ∧ T.ref (T.next q p) = r ∧
        (T.insert q n r p).Search q' t (T.next q p)) := by
  obtain ⟨hpr, hend⟩ := hfits
  have hcross : ∀ t < n, t = p → q' (T.ref t) = q (T.ref p) →
      (T.insert q n r p).next q' t = n ∧
        (T.insert q n r p).ref t < (T.insert q n r p).ref ((T.insert q n r p).next q' t) := by
    rintro t ht rfl hside
    have hn : (T.insert q n r t).next q' t = n := by
      rw [next, insert_ref_of_lt ht, insert_child_of_lt ht, if_pos ⟨rfl, hside⟩]
    rw [hn, insert_ref_of_lt ht, insert_ref_self]
    exact ⟨rfl, hpr⟩
  have hpass : ∀ t < n, ¬(t = p ∧ q' (T.ref t) = q (T.ref p)) →
      (T.insert q n r p).next q' t = T.next q' t := by
    intro t ht hne
    rw [next, insert_ref_of_lt ht, insert_child_of_lt ht, if_neg, next]
    rintro ⟨rfl, hside⟩
    exact hne ⟨rfl, hside⟩
  have hat : (T.insert q n r p).next q' n = if q' r = q (T.ref (T.next q p)) then T.next q p else n := by
    rw [next, insert_ref_self, insert_child_self]
  have hself : q' r ≠ q (T.ref (T.next q p)) → (T.insert q n r p).Search q' n n := by
    intro hne
    have hstop := Search.stop (T := T.insert q n r p) (q := q') (t := n)
      (by rw [hat, if_neg hne])
    rwa [hat, if_neg hne] at hstop
  induction h with
  | @stop t hle =>
    have hn : T.next q' t < n := hchild t ht (q' (T.ref t))
    by_cases hedge : t = p ∧ q' (T.ref t) = q (T.ref p)
    · obtain ⟨hnext, hlt⟩ := hcross t ht hedge.1 hedge.2
      obtain ⟨rfl, hside⟩ := hedge
      have hsame : T.next q' t = T.next q t := by rw [next, hside, next]
      by_cases hbit : q' r = q (T.ref (T.next q t))
      · left
        rw [hsame]
        apply Search.step hlt
        rw [hnext]
        have hstop := Search.stop (T := T.insert q n r t) (q := q') (t := n) (by
          rw [hat, if_pos hbit, insert_ref_self, insert_ref_of_lt (by rw [← hsame]; exact hn), ← hsame]
          omega)
        rwa [hat, if_pos hbit] at hstop
      · exact Or.inr (Or.inl ⟨hbit, Search.step hlt (by rw [hnext]; exact hself hbit)⟩)
    · left
      rw [← hpass t ht hedge]
      apply Search.stop
      rw [hpass t ht hedge, insert_ref_of_lt hn, insert_ref_of_lt ht]
      exact hle
  | @step t x hlt hrest ih =>
    have hn : T.next q' t < n := hchild t ht (q' (T.ref t))
    by_cases hedge : t = p ∧ q' (T.ref t) = q (T.ref p)
    · obtain ⟨hnext, hlt'⟩ := hcross t ht hedge.1 hedge.2
      obtain ⟨rfl, hside⟩ := hedge
      have hsame : T.next q' t = T.next q t := by rw [next, hside, next]
      rw [hsame] at hlt hrest hn
      by_cases hbit : q' r = q (T.ref (T.next q t))
      · by_cases heq : T.ref (T.next q t) = r
        · right
          right
          refine ⟨hbit, heq, Search.step hlt' ?_⟩
          rw [hnext]
          have hstop := Search.stop (T := T.insert q n r t) (q := q') (t := n) (by
            rw [hat, if_pos hbit, insert_ref_self, insert_ref_of_lt hn, heq])
          rwa [hat, if_pos hbit] at hstop
        · left
          apply Search.step hlt'
          rw [hnext]
          apply Search.step
          · rw [hat, if_pos hbit, insert_ref_self, insert_ref_of_lt hn]
            omega
          · rw [hat, if_pos hbit]
            exact search_insert_below hchild hrest hn hlt
      · exact Or.inr (Or.inl ⟨hbit, Search.step hlt' (by rw [hnext]; exact hself hbit)⟩)
    · have hstep : (T.insert q n r p).ref t < (T.insert q n r p).ref ((T.insert q n r p).next q' t) := by
        rw [hpass t ht hedge, insert_ref_of_lt hn, insert_ref_of_lt ht]
        exact hlt
      rcases ih hn with h | ⟨hb, h⟩ | ⟨hb, heq, h⟩
      · exact Or.inl (Search.step hstep (by rw [hpass t ht hedge]; exact h))
      · exact Or.inr (Or.inl ⟨hb, Search.step hstep (by rw [hpass t ht hedge]; exact h)⟩)
      · exact Or.inr (Or.inr ⟨hb, heq, Search.step hstep (by rw [hpass t ht hedge]; exact h)⟩)

end Insert

end Trie

variable {K : ℕ → ℕ → Bool} {T : Trie} {n r p : ℕ}

structure Nearest (K : ℕ → ℕ → Bool) (n r : ℕ) : Prop where
  attained : ∃ l < n, FirstDiff (K n) (K l) r
  last : ∀ l < n, ¬Agree (K n) (K l) (r + 1)

theorem Nearest.unique {r s : ℕ} (h : Nearest K n r) (h' : Nearest K n s) : r = s := by
  obtain ⟨l, hl, hd⟩ := h.attained
  obtain ⟨k, hk, hd'⟩ := h'.attained
  rcases lt_trichotomy r s with hlt | heq | hgt
  · exact absurd (hd'.1.mono hlt) (h.last k hk)
  · exact heq
  · exact absurd (hd.1.mono hgt) (h'.last l hl)

theorem exists_nearest (hn : 0 < n) (hK : ∀ l < n, K n ≠ K l) : ∃ r, Nearest K n r := by
  have hstep : ∀ m, m ≤ n → 0 < m → ∃ r, (∃ l < m, FirstDiff (K n) (K l) r) ∧
      ∀ l < m, ¬Agree (K n) (K l) (r + 1) := by
    intro m
    induction m with
    | zero =>
      intro _ h
      omega
    | succ m ih =>
      intro hm _
      obtain ⟨d, hd⟩ := exists_firstDiff (hK m (by omega))
      have hnew : ∀ e, d ≤ e → ¬Agree (K n) (K m) (e + 1) :=
        fun e he => hd.not_agree (by omega)
      by_cases hz : m = 0
      · subst hz
        refine ⟨d, ⟨0, by omega, hd⟩, ?_⟩
        intro l hl
        obtain rfl : l = 0 := by omega
        exact hnew d (le_refl d)
      · obtain ⟨r, ⟨l, hl, hlr⟩, hmax⟩ := ih (by omega) (by omega)
        by_cases hrd : r ≤ d
        · refine ⟨d, ⟨m, by omega, hd⟩, ?_⟩
          intro k hk
          by_cases hkm : k = m
          · rw [hkm]
            exact hnew d (le_refl d)
          · exact fun ha => hmax k (by omega) (ha.mono (by omega))
        · refine ⟨r, ⟨l, by omega, hlr⟩, ?_⟩
          intro k hk
          by_cases hkm : k = m
          · rw [hkm]
            exact hnew r (by omega)
          · exact hmax k (by omega)
  obtain ⟨r, hr, hmax⟩ := hstep n (le_refl n) hn
  exact ⟨r, hr, hmax⟩

def Under (K : ℕ → ℕ → Bool) (T : Trie) (n t s : ℕ) : Prop := s < n ∧ Agree (K s) (K t) (T.ref t)

def OnEdge (K : ℕ → ℕ → Bool) (T : Trie) (n t : ℕ) (b : Bool) (s : ℕ) : Prop :=
  Under K T n t s ∧ K s (T.ref t) = b

structure EdgeOk (K : ℕ → ℕ → Bool) (T : Trie) (n t : ℕ) (b : Bool) : Prop where
  mem : OnEdge K T n t b (T.child t b)
  shape : (T.ref (T.child t b) ≤ T.ref t ∧ ∀ s, OnEdge K T n t b s → s = T.child t b) ∨
    (T.ref t < T.ref (T.child t b) ∧
      (∀ s, OnEdge K T n t b s → Agree (K s) (K (T.child t b)) (T.ref (T.child t b))) ∧
      ∃ s, OnEdge K T n t b s ∧ K s (T.ref (T.child t b)) ≠ K (T.child t b) (T.ref (T.child t b)))

structure Correct (K : ℕ → ℕ → Bool) (T : Trie) (n : ℕ) : Prop where
  pos : 0 < n
  root : T.ref 0 = 0
  ref : ∀ t, 0 < t → t < n → Nearest K t (T.ref t)
  edge : ∀ t < n, ∀ b, (t = 0 → b = false) → EdgeOk K T n t b

theorem Correct.exists_pair (h : Correct K T n) {t : ℕ} (ht : 0 < t) (htn : t < n) :
    ∃ l, Under K T n t t ∧ Under K T n t l ∧ K t (T.ref t) ≠ K l (T.ref t) := by
  obtain ⟨l, hl, hd⟩ := (h.ref t ht htn).attained
  exact ⟨l, ⟨htn, fun _ _ => rfl⟩, ⟨by omega, hd.1.symm⟩, hd.2⟩

section Class

variable (h : Correct K T n) (h0 : ∀ s, K s 0 = false)
include h h0

theorem Correct.ref_pos {t : ℕ} (ht : 0 < t) (htn : t < n) : 0 < T.ref t := by
  obtain ⟨l, -, hd⟩ := (h.ref t ht htn).attained
  rcases Nat.eq_zero_or_pos (T.ref t) with hz | hp
  · rw [hz] at hd
    exact absurd ((h0 t).trans (h0 l).symm) hd.2
  · exact hp

theorem Correct.node_unique {t u : ℕ} (ht : t < n) (hu : u < n) (href : T.ref t = T.ref u)
    (ha : Agree (K t) (K u) (T.ref t)) : t = u := by
  have hlt : ∀ {t u : ℕ}, t < u → u < n → T.ref t = T.ref u → ¬Agree (K t) (K u) (T.ref t) := by
    intro t u htu hu href ha
    have hun := h.ref u (by omega) hu
    have hdiff : K u (T.ref u) ≠ K t (T.ref u) := by
      intro he
      exact hun.last t htu (agree_succ.mpr ⟨by rw [← href]; exact ha.symm, he⟩)
    rcases Nat.eq_zero_or_pos t with hz | hp
    · subst hz
      have hpos := h.ref_pos h0 (t := u) htu hu
      rw [h.root] at href
      omega
    · obtain ⟨l, hl, hd⟩ := (h.ref t hp (by omega)).attained
      apply hun.last l (by omega)
      rw [agree_succ, ← href]
      refine ⟨ha.symm.trans hd.1, ?_⟩
      have h1 := hd.2
      rw [← href] at hdiff
      cases hku : K u (T.ref t) <;> cases hkt : K t (T.ref t) <;> cases hkl : K l (T.ref t) <;> simp_all
  rcases Nat.lt_trichotomy t u with htu | htu | htu
  · exact absurd ha (hlt htu hu href)
  · exact htu
  · rw [href] at ha
    exact absurd ha.symm (hlt htu ht href.symm)

end Class

theorem Correct.search_key (h : Correct K T n) (h0 : ∀ s, K s 0 = false) {s t x : ℕ} (hs : s < n)
    (hsearch : T.Search (K s) t x) (ht : t < n) (hu : Under K T n t s) : x = s := by
  have hroot : ∀ t, t = 0 → K s (T.ref t) = false := by
    rintro t rfl
    rw [h.root, h0]
  induction hsearch with
  | @stop t hle =>
    obtain ⟨-, hshape⟩ := h.edge t ht (K s (T.ref t)) (hroot t)
    rcases hshape with ⟨-, halone⟩ | ⟨hlt, -⟩
    · exact (halone s ⟨hu, rfl⟩).symm
    · exact absurd hle (by rw [Trie.next]; omega)
  | @step t x hlt _ ih =>
    obtain ⟨hmem, hshape⟩ := h.edge t ht (K s (T.ref t)) (hroot t)
    rcases hshape with ⟨hle, -⟩ | ⟨-, hagree, -⟩
    · exact absurd hlt (by rw [Trie.next]; omega)
    · exact ih hmem.1.1 ⟨hs, hagree s ⟨hu, rfl⟩⟩

theorem near_onEdge (hp : ∀ s < n, FirstDiff (K n) (K s) r → Under K T n p s)
    (hpr : T.ref p < r) {s : ℕ} (hs : s < n) (hd : FirstDiff (K n) (K s) r) :
    OnEdge K T n p (K n (T.ref p)) s :=
  ⟨hp s hs hd, (hd.1 _ hpr).symm⟩

theorem Correct.search_new_below (h : Correct K T n) {t x : ℕ} (hsearch : T.Search (K n) t x) (ht : 0 < t) (htn : t < n)
    (hu : ∀ s, Under K T n t s → FirstDiff (K n) (K s) r) : x < n ∧ FirstDiff (K n) (K x) r := by
  induction hsearch with
  | @stop t hle =>
    obtain ⟨hmem, -⟩ := h.edge t htn (K n (T.ref t)) (by omega)
    exact ⟨hmem.1.1, hu _ hmem.1⟩
  | @step t x hlt _ ih =>
    obtain ⟨hmem, -⟩ := h.edge t htn (K n (T.ref t)) (by omega)
    have hpos : T.next (K n) t ≠ 0 := by
      intro hz
      rw [hz, h.root] at hlt
      omega
    apply ih (by omega) hmem.1.1
    intro s hs
    exact hu s ⟨hs.1, (hs.2.mono (Nat.le_of_lt hlt)).trans hmem.1.2⟩

section Insert

variable (h : Correct K T n) (h0 : ∀ s, K s 0 = false) (hr : Nearest K n r)
include h h0 hr

theorem Correct.onEdge_iff_near (hpn : p < n)
    (hp : ∀ s < n, FirstDiff (K n) (K s) r → Under K T n p s) (hfits : T.Fits (K n) r p) (s : ℕ) :
    OnEdge K T n p (K n (T.ref p)) s ↔ s < n ∧ FirstDiff (K n) (K s) r := by
  obtain ⟨hpr, hend⟩ := hfits
  constructor
  · intro hs
    obtain ⟨l, hl, hd⟩ := hr.attained
    have hle := near_onEdge hp hpr hl hd
    obtain ⟨hmem, hshape⟩ := h.edge p hpn (K n (T.ref p)) (by rintro rfl; rw [h.root, h0])
    refine ⟨hs.1.1, ?_⟩
    rcases hshape with ⟨-, halone⟩ | ⟨hlt, hagree, -⟩
    · rw [halone s hs, ← halone l hle]
      exact hd
    · have hrc : r ≤ T.ref (T.child p (K n (T.ref p))) := by
        rw [Trie.next] at hend
        omega
      have hsl : Agree (K s) (K l) r := ((hagree s hs).trans (hagree l hle).symm).mono hrc
      have hns : Agree (K n) (K s) r := hd.1.trans hsl.symm
      refine ⟨hns, fun he => hr.last s hs.1.1 (agree_succ.mpr ⟨hns, he⟩)⟩
  · rintro ⟨hs, hd⟩
    exact near_onEdge hp hpr hs hd

theorem Correct.fits_strict (hpn : p < n)
    (hp : ∀ s < n, FirstDiff (K n) (K s) r → Under K T n p s) (hfits : T.Fits (K n) r p) :
    T.ref (T.next (K n) p) ≤ T.ref p ∨ r < T.ref (T.next (K n) p) := by
  obtain ⟨hmem, hshape⟩ := h.edge p hpn (K n (T.ref p)) (by rintro rfl; rw [h.root, h0])
  have hiff := h.onEdge_iff_near h0 hr hpn hp hfits
  obtain ⟨-, hend⟩ := hfits
  rcases hend with hle | hge
  · exact Or.inl hle
  · rcases hshape with ⟨hle, -⟩ | ⟨-, -, s, hs, hne⟩
    · exact Or.inl hle
    · right
      by_contra hno
      have heq : T.ref (T.child p (K n (T.ref p))) = r := by
        rw [Trie.next] at hge hno
        omega
      rw [heq] at hne
      have h1 := ((hiff _).mp hmem).2.2
      have h2 := ((hiff s).mp hs).2.2
      cases h3 : K n r <;> cases h4 : K s r <;> cases h5 : K (T.child p (K n (T.ref p))) r <;> simp_all

theorem Correct.search_new {t x : ℕ} (hsearch : T.Search (K n) t x) (htn : t < n) (htr : T.ref t < r)
    (hu : ∀ s < n, FirstDiff (K n) (K s) r → Under K T n t s) : x < n ∧ FirstDiff (K n) (K x) r := by
  have hroot : ∀ t, t = 0 → K n (T.ref t) = false := by
    rintro t rfl
    rw [h.root, h0]
  induction hsearch with
  | @stop t hle =>
    obtain ⟨hmem, -⟩ := h.edge t htn (K n (T.ref t)) (hroot t)
    exact (h.onEdge_iff_near h0 hr htn hu ⟨htr, Or.inl hle⟩ _).mp hmem
  | @step t x hlt hrest ih =>
    obtain ⟨hmem, hshape⟩ := h.edge t htn (K n (T.ref t)) (hroot t)
    rcases hshape with ⟨hle, -⟩ | ⟨-, hagree, -⟩
    · exact absurd hlt (by rw [Trie.next]; omega)
    by_cases hcr : T.ref (T.next (K n) t) < r
    · apply ih hmem.1.1 hcr
      intro s hs hd
      exact ⟨hs, hagree s (near_onEdge hu htr hs hd)⟩
    · have hpos : T.next (K n) t ≠ 0 := by
        intro hz
        rw [hz, h.root] at hlt
        omega
      apply h.search_new_below hrest (by omega) hmem.1.1
      intro s hs
      have hon : OnEdge K T n t (K n (T.ref t)) s :=
        ⟨⟨hs.1, (hs.2.mono (Nat.le_of_lt hlt)).trans hmem.1.2⟩, by rw [hs.2 _ hlt]; exact hmem.2⟩
      exact ((h.onEdge_iff_near h0 hr htn hu ⟨htr, Or.inr (by omega)⟩ s).mp hon).2

end Insert

end Awn.Patricia
