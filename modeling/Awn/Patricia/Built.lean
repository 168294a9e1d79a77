import Awn.Patricia.Trie

namespace Awn.Patricia

variable {K : ℕ → ℕ → Bool} {T : Trie} {n r p : ℕ}

theorem edge_keys_differ {t u : ℕ} {b b' : Bool} (h : Correct K T n) (hu : u < n)
    (hsame : ∀ s, OnEdge K T n t b s ↔ OnEdge K T n u b' s) {d : ℕ} (hd : OnEdge K T n t b d) :
    ¬T.ref t < T.ref u := by
  intro hlt
  have hpos : u ≠ 0 := by
    intro hz
    rw [hz, h.root] at hlt
    omega
  obtain ⟨l, huu, hul, hne⟩ := h.exists_pair (by omega) hu
  have hdu := (hsame d).mp hd
  have hin : ∀ s, Under K T n u s → OnEdge K T n u b' s := by
    intro s hs
    have hsd : Agree (K s) (K d) (T.ref u) := hs.2.trans hdu.1.2.symm
    apply (hsame s).mp
    refine ⟨⟨hs.1, (hsd.mono (Nat.le_of_lt hlt)).trans hd.1.2⟩, ?_⟩
    rw [hsd _ hlt, hd.2]
  exact hne ((hin u huu).2.trans (hin l hul).2.symm)

theorem Correct.edge_unique {t u : ℕ} {b b' : Bool} (h : Correct K T n)
    (h0 : ∀ s, K s 0 = false) (ht : t < n) (hu : u < n)
    (hsame : ∀ s, OnEdge K T n t b s ↔ OnEdge K T n u b' s) {d : ℕ} (hd : OnEdge K T n t b d) :
    t = u := by
  have hdu := (hsame d).mp hd
  have h1 := edge_keys_differ h hu hsame hd
  have h2 := edge_keys_differ h ht (fun s => (hsame s).symm) hdu
  have href : T.ref t = T.ref u := by omega
  apply h.node_unique h0 ht hu href
  apply hd.1.2.symm.trans
  rw [href]
  exact hdu.1.2

theorem under_insert {t : ℕ} (ht : t < n) (s : ℕ) :
    Under K (T.insert (K n) n r p) (n + 1) t s ↔
      Under K T n t s ∨ (s = n ∧ Agree (K n) (K t) (T.ref t)) := by
  simp only [Under, Trie.insert_ref_of_lt ht]
  constructor
  · rintro ⟨hs, ha⟩
    by_cases hsn : s = n
    · subst hsn
      exact Or.inr ⟨rfl, ha⟩
    · exact Or.inl ⟨by omega, ha⟩
  · rintro (⟨hs, ha⟩ | ⟨rfl, ha⟩)
    · exact ⟨by omega, ha⟩
    · exact ⟨by omega, ha⟩

section Insert

variable (h : Correct K T n) (h0 : ∀ s, K s 0 = false) (hr : Nearest K n r) (hpn : p < n)
  (hp : ∀ s < n, FirstDiff (K n) (K s) r → Under K T n p s) (hfits : T.Fits (K n) r p)
include h h0 hr hpn hp hfits

theorem Correct.shared_edge {t : ℕ} {b : Bool} (ht : t < n) (hb : t = 0 → b = false)
    (hn : Agree (K n) (K t) (T.ref t)) (hbit : K n (T.ref t) = b) (hne : t ≠ p) :
    T.ref t < T.ref (T.child t b) ∧ Agree (K n) (K (T.child t b)) (T.ref (T.child t b)) := by
  obtain ⟨hmem, hshape⟩ := h.edge t ht b hb
  have htr : T.ref t < r := by
    by_contra hle
    apply hr.last _ hmem.1.1
    have ha : Agree (K n) (K (T.child t b)) (T.ref t + 1) :=
      agree_succ.mpr ⟨hn.trans hmem.1.2.symm, by rw [hbit, hmem.2]⟩
    exact ha.mono (by omega)
  have hnear : ∀ s < n, FirstDiff (K n) (K s) r → OnEdge K T n t b s := by
    intro s hs hd
    exact ⟨⟨hs, (hd.1.symm.mono (Nat.le_of_lt htr)).trans hn⟩, by rw [← hd.1 _ htr, hbit]⟩
  obtain ⟨l, hl, hd⟩ := hr.attained
  have hle := hnear l hl hd
  have hno : ¬∀ s, OnEdge K T n t b s → FirstDiff (K n) (K s) r := by
    intro hall
    apply hne
    have hsame : ∀ s, OnEdge K T n t b s ↔ OnEdge K T n p (K n (T.ref p)) s := by
      intro s
      rw [h.onEdge_iff_near h0 hr hpn hp hfits]
      exact ⟨fun hs => ⟨hs.1.1, hall s hs⟩, fun hs => hnear s hs.1 hs.2⟩
    exact h.edge_unique h0 ht hpn hsame hle
  rcases hshape with ⟨-, halone⟩ | ⟨hlt, hagree, -⟩
  · exfalso
    apply hno
    intro s hs
    rw [halone s hs, ← halone l hle]
    exact hd
  · refine ⟨hlt, ?_⟩
    have hcr : T.ref (T.child t b) < r := by
      by_contra hge
      apply hno
      intro s hs
      have hsl : Agree (K l) (K s) r :=
        ((hagree l hle).trans (hagree s hs).symm).mono (by omega)
      exact ⟨hd.1.trans hsl, fun he => hr.last s hs.1.1 (agree_succ.mpr ⟨hd.1.trans hsl, he⟩)⟩
    exact (hd.1.mono (Nat.le_of_lt hcr)).trans (hagree l hle)

theorem Correct.edge_new (hgood : K n (T.ref (T.next (K n) p)) ≠ K n r) (b : Bool) :
    EdgeOk K (T.insert (K n) n r p) (n + 1) n b := by
  have hon : ∀ s, OnEdge K (T.insert (K n) n r p) (n + 1) n b s ↔
      (s = n ∧ K n r = b) ∨ (OnEdge K T n p (K n (T.ref p)) s ∧ K n r ≠ b) := by
    intro s
    rw [h.onEdge_iff_near h0 hr hpn hp hfits]
    simp only [OnEdge, Under, Trie.insert_ref_self]
    constructor
    · rintro ⟨⟨hs, ha⟩, hb⟩
      by_cases hsn : s = n
      · subst hsn
        exact Or.inl ⟨rfl, hb⟩
      · have hne : K n r ≠ K s r :=
          fun he => hr.last s (by omega) (agree_succ.mpr ⟨ha.symm, he⟩)
        refine Or.inr ⟨⟨by omega, ha.symm, hne⟩, ?_⟩
        rw [hb] at hne
        exact hne
    · rintro (⟨rfl, hb⟩ | ⟨⟨hs, hd⟩, hb⟩)
      · exact ⟨⟨by omega, fun _ _ => rfl⟩, hb⟩
      · refine ⟨⟨by omega, hd.1.symm⟩, ?_⟩
        have hne := hd.2
        cases h1 : K n r <;> cases h2 : K s r <;> cases b <;> simp_all
  by_cases hside : b = K n (T.ref (T.next (K n) p))
  · have hbr : K n r ≠ b := by
      rw [hside]
      exact hgood.symm
    have hchild : (T.insert (K n) n r p).child n b = T.next (K n) p := by
      rw [Trie.insert_child_self, if_pos hside]
    obtain ⟨hmem, hshape⟩ := h.edge p hpn (K n (T.ref p)) (by rintro rfl; rw [h.root, h0])
    have hon' : ∀ s, OnEdge K (T.insert (K n) n r p) (n + 1) n b s → OnEdge K T n p (K n (T.ref p)) s := by
      intro s hs
      rcases (hon s).mp hs with ⟨-, hb⟩ | ⟨hs, -⟩
      · exact absurd hb hbr
      · exact hs
    have hcn : T.child p (K n (T.ref p)) < n := hmem.1.1
    rw [Trie.next] at hchild
    constructor
    · rw [hchild]
      exact (hon _).mpr (Or.inr ⟨hmem, hbr⟩)
    · rw [hchild, Trie.insert_ref_self, Trie.insert_ref_of_lt hcn]
      rcases hshape with ⟨hle, halone⟩ | ⟨hlt, hagree, s, hs, hne⟩
      · exact Or.inl ⟨by have := hfits.1; omega, fun s hs => halone s (hon' s hs)⟩
      · have hstrict := h.fits_strict h0 hr hpn hp hfits
        rw [Trie.next] at hstrict
        exact Or.inr ⟨by omega, fun s hs => hagree s (hon' s hs), s, (hon s).mpr (Or.inr ⟨hs, hbr⟩), hne⟩
  · have hbr : K n r = b := by
      cases h1 : K n r <;> cases h2 : K n (T.ref (T.next (K n) p)) <;> cases b <;> simp_all
    have hchild : (T.insert (K n) n r p).child n b = n := by
      rw [Trie.insert_child_self, if_neg hside]
    constructor
    · rw [hchild]
      exact (hon n).mpr (Or.inl ⟨rfl, hbr⟩)
    · rw [hchild]
      refine Or.inl ⟨le_refl _, ?_⟩
      intro s hs
      rcases (hon s).mp hs with ⟨rfl, -⟩ | ⟨-, hb⟩
      · rfl
      · exact absurd hbr hb

theorem Correct.edge_parent : EdgeOk K (T.insert (K n) n r p) (n + 1) p (K n (T.ref p)) := by
  obtain ⟨l, hl, hd⟩ := hr.attained
  have hlp := hp l hl hd
  have hnp : Agree (K n) (K p) (T.ref p) := (hd.1.mono (Nat.le_of_lt hfits.1)).trans hlp.2
  have hiff := h.onEdge_iff_near h0 hr hpn hp hfits
  have hunder := under_insert (K := K) (T := T) (r := r) (p := p) hpn
  have hchild : (T.insert (K n) n r p).child p (K n (T.ref p)) = n := by
    rw [Trie.insert_child_of_lt hpn, if_pos ⟨rfl, rfl⟩]
  constructor
  · rw [hchild]
    refine ⟨(hunder n).mpr (Or.inr ⟨rfl, hnp⟩), ?_⟩
    rw [Trie.insert_ref_of_lt hpn]
  · right
    rw [hchild, Trie.insert_ref_self, Trie.insert_ref_of_lt hpn]
    refine ⟨hfits.1, ?_, l, ?_, hd.2.symm⟩
    · rintro s ⟨hs, hb⟩
      rw [Trie.insert_ref_of_lt hpn] at hb
      rcases (hunder s).mp hs with hs | ⟨rfl, -⟩
      · exact ((hiff s).mp ⟨hs, hb⟩).2.1.symm
      · exact fun _ _ => rfl
    · refine ⟨(hunder l).mpr (Or.inl hlp), ?_⟩
      rw [Trie.insert_ref_of_lt hpn, ← hd.1 _ hfits.1]

theorem Correct.edge_other {t : ℕ} {b : Bool} (ht : t < n) (hb : t = 0 → b = false)
    (hne : ¬(t = p ∧ b = K n (T.ref p))) : EdgeOk K (T.insert (K n) n r p) (n + 1) t b := by
  obtain ⟨hmem, hshape⟩ := h.edge t ht b hb
  have hunder := under_insert (K := K) (T := T) (r := r) (p := p) ht
  have hcn : T.child t b < n := hmem.1.1
  have hchild : (T.insert (K n) n r p).child t b = T.child t b := by
    rw [Trie.insert_child_of_lt ht, if_neg hne]
  have hon : ∀ s, OnEdge K (T.insert (K n) n r p) (n + 1) t b s ↔
      OnEdge K T n t b s ∨ (s = n ∧ Agree (K n) (K t) (T.ref t) ∧ K n (T.ref t) = b) := by
    intro s
    rw [OnEdge, hunder, Trie.insert_ref_of_lt ht, OnEdge]
    constructor
    · rintro ⟨hs | ⟨rfl, ha⟩, hb⟩
      · exact Or.inl ⟨hs, hb⟩
      · exact Or.inr ⟨rfl, ha, hb⟩
    · rintro (⟨hs, hb⟩ | ⟨rfl, ha, hb⟩)
      · exact ⟨Or.inl hs, hb⟩
      · exact ⟨Or.inr ⟨rfl, ha⟩, hb⟩
  constructor
  · rw [hchild]
    exact (hon _).mpr (Or.inl hmem)
  · rw [hchild, Trie.insert_ref_of_lt ht, Trie.insert_ref_of_lt hcn]
    by_cases hshared : Agree (K n) (K t) (T.ref t) ∧ K n (T.ref t) = b
    · have htp : t ≠ p := by
        rintro rfl
        exact hne ⟨rfl, hshared.2.symm⟩
      obtain ⟨hlt, hnc⟩ := h.shared_edge h0 hr hpn hp hfits ht hb hshared.1 hshared.2 htp
      rcases hshape with ⟨hle, -⟩ | ⟨-, hagree, s, hs, hdiff⟩
      · omega
      · refine Or.inr ⟨hlt, ?_, s, (hon s).mpr (Or.inl hs), hdiff⟩
        intro u hu
        rcases (hon u).mp hu with hu | ⟨rfl, -⟩
        · exact hagree u hu
        · exact hnc
    · have hon' : ∀ s, OnEdge K (T.insert (K n) n r p) (n + 1) t b s → OnEdge K T n t b s := by
        intro s hs
        rcases (hon s).mp hs with hs | ⟨rfl, hs⟩
        · exact hs
        · exact absurd hs hshared
      rcases hshape with ⟨hle, halone⟩ | ⟨hlt, hagree, s, hs, hdiff⟩
      · exact Or.inl ⟨hle, fun s hs => halone s (hon' s hs)⟩
      · exact Or.inr ⟨hlt, fun s hs => hagree s (hon' s hs), s, (hon s).mpr (Or.inl hs), hdiff⟩

theorem Correct.insert (hgood : K n (T.ref (T.next (K n) p)) ≠ K n r) :
    Correct K (T.insert (K n) n r p) (n + 1) := by
  have hn := h.pos
  constructor
  · omega
  · rw [Trie.insert_ref_of_lt hn, h.root]
  · intro t ht htn
    by_cases heq : t = n
    · rw [heq, Trie.insert_ref_self]
      exact hr
    · rw [Trie.insert_ref_of_lt (by omega)]
      exact h.ref t ht (by omega)
  · intro t ht b hb
    by_cases heq : t = n
    · rw [heq]
      exact h.edge_new h0 hr hpn hp hfits hgood b
    · by_cases hedge : t = p ∧ b = K n (T.ref p)
      · rw [hedge.1, hedge.2]
        exact h.edge_parent h0 hr hpn hp hfits
      · exact h.edge_other h0 hr hpn hp hfits (by omega) hb hedge

end Insert

end Awn.Patricia

namespace Awn.Patricia

variable {K : ℕ → ℕ → Bool} {T : Trie} {n r p : ℕ}

inductive Locate (T : Trie) (q : ℕ → Bool) (r : ℕ) : ℕ → ℕ → Prop
  | here {t : ℕ} : T.Fits q r t → Locate T q r t t
  | down {t p : ℕ} : T.ref t < T.ref (T.next q t) → T.ref (T.next q t) < r →
      Locate T q r (T.next q t) p → Locate T q r t p

theorem Locate.fits {q : ℕ → Bool} {t : ℕ} (hl : Locate T q r t p)
    (hchild : ∀ t < n, ∀ b, T.child t b < n) (ht : t < n) : p < n ∧ T.Fits q r p := by
  induction hl with
  | here hf => exact ⟨ht, hf⟩
  | @down t p _ _ _ ih => exact ih (hchild t ht (q (T.ref t)))

theorem Correct.locate_near (h : Correct K T n) (h0 : ∀ s, K s 0 = false) {t : ℕ}
    (hl : Locate T (K n) r t p) (ht : t < n) (htr : T.ref t < r)
    (hu : ∀ s < n, FirstDiff (K n) (K s) r → Under K T n t s) :
    ∀ s < n, FirstDiff (K n) (K s) r → Under K T n p s := by
  induction hl with
  | here _ => exact hu
  | @down t p hlt hcr _ ih =>
    have hroot : t = 0 → K n (T.ref t) = false := by
      rintro rfl
      rw [h.root, h0]
    obtain ⟨hmem, hshape⟩ := h.edge t ht (K n (T.ref t)) hroot
    rcases hshape with ⟨hle, -⟩ | ⟨-, hagree, -⟩
    · exact absurd hlt (by rw [Trie.next]; omega)
    · apply ih hmem.1.1 hcr
      intro s hs hd
      exact ⟨hs, hagree s (near_onEdge hu htr hs hd)⟩

inductive Built (K : ℕ → ℕ → Bool) : ℕ → Trie → Prop
  | root {T : Trie} : T.ref 0 = 0 → (∀ b, T.child 0 b = 0) → Built K 1 T
  | insert {n : ℕ} {T : Trie} {y r p : ℕ} : Built K n T → T.Search (K n) 0 y →
      FirstDiff (K n) (K y) r → Locate T (K n) r 0 p → Built K (n + 1) (T.insert (K n) n r p)

def EndRef (K : ℕ → ℕ → Bool) (n r c : ℕ) : Prop :=
  (∃ j, (∀ s, s < n ∧ FirstDiff (K n) (K s) r ↔ s = j) ∧ (j = 0 ∧ c = 0 ∨ 0 < j ∧ Nearest K j c)) ∨
    ∃ s u, (s < n ∧ FirstDiff (K n) (K s) r) ∧ (u < n ∧ FirstDiff (K n) (K u) r) ∧
      FirstDiff (K s) (K u) c ∧ ∀ v < n, FirstDiff (K n) (K v) r → Agree (K v) (K s) c

def Oriented (K : ℕ → ℕ → Bool) (n : ℕ) : Prop :=
  ∀ i, 0 < i → i < n → ∀ r c, Nearest K i r → EndRef K i r c → K i c ≠ K i r

theorem EndRef.unique {c d : ℕ} (h : EndRef K n r c) (h' : EndRef K n r d) : c = d := by
  have hsingle : ∀ {j s u e : ℕ}, (∀ s, s < n ∧ FirstDiff (K n) (K s) r ↔ s = j) →
      (s < n ∧ FirstDiff (K n) (K s) r) → (u < n ∧ FirstDiff (K n) (K u) r) →
      ¬FirstDiff (K s) (K u) e := by
    intro j s u e hj hs hu hd
    rw [(hj s).mp hs, (hj u).mp hu] at hd
    exact hd.2 rfl
  have hle : ∀ {c d s u s' : ℕ}, (s < n ∧ FirstDiff (K n) (K s) r) →
      (u < n ∧ FirstDiff (K n) (K u) r) → FirstDiff (K s) (K u) c →
      (∀ v < n, FirstDiff (K n) (K v) r → Agree (K v) (K s') d) → d ≤ c := by
    intro c d s u s' hs hu hd hall
    by_contra hlt
    exact hd.not_agree (Nat.lt_of_not_le hlt) ((hall s hs.1 hs.2).trans (hall u hu.1 hu.2).symm)
  rcases h with ⟨j, hj, hc⟩ | ⟨s, u, hs, hu, hd, hall⟩
  · rcases h' with ⟨k, hk, hc'⟩ | ⟨s, u, hs, hu, hd, -⟩
    · have hjk : j = k := (hk j).mp ((hj j).mpr rfl)
      subst hjk
      rcases hc with ⟨hz, rfl⟩ | ⟨hz, hc⟩ <;> rcases hc' with ⟨hz', rfl⟩ | ⟨hz', hc'⟩
      · rfl
      · omega
      · omega
      · exact hc.unique hc'
    · exact absurd hd (hsingle hj hs hu)
  · rcases h' with ⟨j, hj, -⟩ | ⟨s', u', hs', hu', hd', hall'⟩
    · exact absurd hd (hsingle hj hs hu)
    · exact Nat.le_antisymm (hle hs' hu' hd' hall) (hle hs hu hd hall')

theorem Correct.endRef (h : Correct K T n) (h0 : ∀ s, K s 0 = false) (hr : Nearest K n r)
    (hpn : p < n) (hp : ∀ s < n, FirstDiff (K n) (K s) r → Under K T n p s)
    (hfits : T.Fits (K n) r p) : EndRef K n r (T.ref (T.next (K n) p)) := by
  have hiff := h.onEdge_iff_near h0 hr hpn hp hfits
  obtain ⟨hmem, hshape⟩ := h.edge p hpn (K n (T.ref p)) (by rintro rfl; rw [h.root, h0])
  rcases hshape with ⟨-, halone⟩ | ⟨-, hagree, s, hs, hne⟩
  · refine Or.inl ⟨T.next (K n) p, ?_, ?_⟩
    · intro s
      rw [← hiff]
      constructor
      · exact halone s
      · rintro rfl
        exact hmem
    · rcases Nat.eq_zero_or_pos (T.next (K n) p) with hz | hpos
      · exact Or.inl ⟨hz, by rw [hz, h.root]⟩
      · exact Or.inr ⟨hpos, h.ref _ hpos hmem.1.1⟩
  · refine Or.inr ⟨s, T.next (K n) p, (hiff s).mp hs, (hiff _).mp hmem, ⟨hagree s hs, hne⟩, ?_⟩
    intro v hv hd
    exact (hagree v ((hiff v).mpr ⟨hv, hd⟩)).trans (hagree s hs).symm

theorem Built.bounds (hb : Built K n T) :
    0 < n ∧ T.ref 0 = 0 ∧ ∀ t < n, ∀ b, T.child t b < n := by
  induction hb with
  | root hr hc =>
    refine ⟨by omega, hr, ?_⟩
    intro t ht b
    obtain rfl : t = 0 := by omega
    rw [hc]
    omega
  | @insert n T y r p _ _ _ hl ih =>
    obtain ⟨hn, hr, hchild⟩ := ih
    obtain ⟨hpn, -⟩ := hl.fits hchild hn
    refine ⟨by omega, by rw [Trie.insert_ref_of_lt hn, hr], ?_⟩
    intro t ht b
    have hnext := hchild p hpn (K n (T.ref p))
    by_cases htn : t = n
    · rw [htn, Trie.insert_child_self]
      split
      · rw [Trie.next]
        omega
      · omega
    · rw [Trie.insert_child_of_lt (by omega)]
      have hold := hchild t (by omega) b
      split <;> omega

theorem correct_root (hr : T.ref 0 = 0) (hc : ∀ b, T.child 0 b = 0) (h0 : ∀ s, K s 0 = false) :
    Correct K T 1 := by
  constructor
  · omega
  · exact hr
  · intro t ht htn
    omega
  · intro t ht b hb
    obtain rfl : t = 0 := by omega
    have hz : ∀ s, OnEdge K T 1 0 b s → s = 0 := by
      intro s hs
      have := hs.1.1
      omega
    constructor
    · rw [hc]
      refine ⟨⟨by omega, fun _ _ => rfl⟩, ?_⟩
      rw [hr, h0, hb rfl]
    · rw [hc]
      exact Or.inl ⟨le_refl _, hz⟩

theorem new_not_found {y : ℕ} (hchild : ∀ t < n, ∀ b, T.child t b < n) (hn : 0 < n)
    (hs : T.Search (K n) 0 y) (hl : Locate T (K n) r 0 p)
    (hbad : K n (T.ref (T.next (K n) p)) = K n r) :
    ¬(T.insert (K n) n r p).Search (K n) 0 n := by
  intro hfound
  obtain ⟨hpn, hfits⟩ := hl.fits hchild hn
  obtain ⟨z, hz, hsz⟩ : ∃ z < n, T.Search (K n) 0 z := by
    have hlt : ∀ {t y : ℕ}, T.Search (K n) t y → t < n → y < n := by
      intro t y hs
      induction hs with
      | @stop t _ => exact fun ht => hchild t ht (K n (T.ref t))
      | @step t _ _ _ ih => exact fun ht => ih (hchild t ht (K n (T.ref t)))
    exact ⟨y, hlt hs hn, hs⟩
  rcases Trie.search_insert hchild hfits hsz hn with h | ⟨hne, -⟩ | ⟨-, -, h⟩
  · have := hfound.unique h
    omega
  · exact hne hbad.symm
  · have hlt := hchild p hpn (K n (T.ref p))
    have := hfound.unique h
    rw [Trie.next] at this
    omega

theorem not_found_insert {s x y : ℕ} (hchild : ∀ t < n, ∀ b, T.child t b < n) (hs0 : 0 < s)
    (hsn : s < n)
    (hx : T.Search (K s) 0 x) (hne : x ≠ s) (hs : T.Search (K n) 0 y) (hl : Locate T (K n) r 0 p) :
    ∃ u, 0 < u ∧ u < n + 1 ∧ ¬(T.insert (K n) n r p).Search (K u) 0 u := by
  obtain ⟨hpn, hfits⟩ := hl.fits hchild (by omega)
  rcases Trie.search_insert hchild hfits hx (by omega) with h | ⟨-, h⟩ | ⟨hbit, href, h⟩
  · exact ⟨s, hs0, by omega, fun hf => hne (h.unique hf)⟩
  · refine ⟨s, hs0, by omega, fun hf => ?_⟩
    have := hf.unique h
    omega
  · by_cases hps : T.next (K n) p = s
    · refine ⟨n, by omega, by omega, new_not_found hchild (by omega) hs hl ?_⟩
      rw [href]
    · exact ⟨s, hs0, by omega, fun hf => hps (h.unique hf)⟩

section Built

variable (h0 : ∀ s, K s 0 = false)
include h0

theorem Correct.nearest_of_search (h : Correct K T n) {y : ℕ} (hsearch : T.Search (K n) 0 y)
    (hd : FirstDiff (K n) (K y) r) (hK : ∀ l < n, K n ≠ K l) : Nearest K n r := by
  obtain ⟨s, hs⟩ := exists_nearest h.pos hK
  have hspos : 0 < s := by
    obtain ⟨l, -, hdl⟩ := hs.attained
    rcases Nat.eq_zero_or_pos s with hz | hpos
    · rw [hz] at hdl
      exact absurd ((h0 n).trans (h0 l).symm) hdl.2
    · exact hpos
  have hall : ∀ l < n, FirstDiff (K n) (K l) s → Under K T n 0 l := by
    intro l hl _
    refine ⟨hl, ?_⟩
    rw [h.root]
    intro i hi
    omega
  obtain ⟨-, hy⟩ := h.search_new h0 hs hsearch h.pos (by rw [h.root]; exact hspos) hall
  rwa [hd.unique hy]

theorem Built.insert_correct (h : Correct K T n) {y : ℕ} (hsearch : T.Search (K n) 0 y)
    (hd : FirstDiff (K n) (K y) r) (hl : Locate T (K n) r 0 p) (hK : ∀ l < n, K n ≠ K l)
    (hchild : ∀ t < n, ∀ b, T.child t b < n) :
    Nearest K n r ∧ EndRef K n r (T.ref (T.next (K n) p)) ∧
      (K n (T.ref (T.next (K n) p)) ≠ K n r → Correct K (T.insert (K n) n r p) (n + 1)) := by
  have hr := h.nearest_of_search h0 hsearch hd hK
  obtain ⟨hpn, hfits⟩ := hl.fits hchild h.pos
  have hall : ∀ l < n, FirstDiff (K n) (K l) r → Under K T n 0 l := by
    intro l hlt _
    refine ⟨hlt, ?_⟩
    rw [h.root]
    intro i hi
    omega
  have hrpos : T.ref 0 < r := by
    rw [h.root]
    rcases Nat.eq_zero_or_pos r with hz | hpos
    · rw [hz] at hd
      exact absurd ((h0 n).trans (h0 y).symm) hd.2
    · exact hpos
  have hp := h.locate_near h0 hl h.pos hrpos hall
  exact ⟨hr, h.endRef h0 hr hpn hp hfits, h.insert h0 hr hpn hp hfits⟩

theorem Built.correct (hb : Built K n T) (hK : ∀ i < n, ∀ l < i, K i ≠ K l)
    (ho : Oriented K n) : Correct K T n := by
  induction hb with
  | root hr hc => exact correct_root hr hc h0
  | @insert n T y r p hb hs hd hl ih =>
    have hpos := hb.bounds.1
    have hc := ih (fun i hi => hK i (by omega)) (fun i hi hin => ho i hi (by omega))
    obtain ⟨hr, hend, hins⟩ :=
      Built.insert_correct h0 hc hs hd hl (hK n (by omega)) hb.bounds.2.2
    exact hins (ho n hpos (by omega) r _ hr hend)

theorem Built.not_found (hb : Built K n T) {B : ℕ} (hB : ∀ t < n, T.ref t < B)
    (hK : ∀ i < n, ∀ l < i, K i ≠ K l) (ho : ¬Oriented K n) :
    ∃ s, 0 < s ∧ s < n ∧ ¬T.Search (K s) 0 s := by
  induction hb with
  | root _ _ =>
    exfalso
    apply ho
    intro i hi hin
    omega
  | @insert n T y r p hb hs hd hl ih =>
    obtain ⟨hpos, hroot, hchild⟩ := hb.bounds
    have hB' : ∀ t < n, T.ref t < B := by
      intro t ht
      rw [← Trie.insert_ref_of_lt (q := K n) (r := r) (p := p) ht]
      exact hB t (by omega)
    by_cases hold : Oriented K n
    · have hc := hb.correct h0 (fun i hi => hK i (by omega)) hold
      obtain ⟨hr, hend, -⟩ := Built.insert_correct h0 hc hs hd hl (hK n (by omega)) hchild
      refine ⟨n, hpos, by omega, new_not_found hchild hpos hs hl ?_⟩
      by_contra hgood
      apply ho
      intro i hi hin r' c' hr' hc'
      by_cases heq : i = n
      · subst heq
        rw [hr'.unique hr] at hc' ⊢
        rw [hc'.unique hend]
        exact hgood
      · exact hold i hi (by omega) r' c' hr' hc'
    · obtain ⟨s, hs0, hsn, hnf⟩ := ih hB' (fun i hi => hK i (by omega)) hold
      obtain ⟨x, -, hx⟩ := Trie.exists_search (K s) hchild hB' 0 hpos
      apply not_found_insert hchild hs0 hsn hx _ hs hl
      rintro rfl
      exact hnf hx

theorem Built.found_iff (hb : Built K n T) {B : ℕ} (hB : ∀ t < n, T.ref t < B)
    (hK : ∀ i < n, ∀ l < i, K i ≠ K l) :
    (∀ s, 0 < s → s < n → T.Search (K s) 0 s) ↔ Oriented K n := by
  constructor
  · intro hall
    by_contra ho
    obtain ⟨s, hs0, hs, hnf⟩ := hb.not_found h0 hB hK ho
    exact hnf (hall s hs0 hs)
  · intro ho s _ hs
    have hc := hb.correct h0 hK ho
    obtain ⟨x, -, hx⟩ := Trie.exists_search (K s) hb.bounds.2.2 hB 0 hc.pos
    have hu : Under K T n 0 s := by
      refine ⟨hs, ?_⟩
      rw [hc.root]
      intro i hi
      omega
    rwa [hc.search_key h0 hs hx hc.pos hu] at hx

end Built

end Awn.Patricia
