import Awn.Memory.Buffer
import Mathlib.Algebra.Order.Group.Nat
import Mathlib.Data.Nat.Notation

/-!
Blocks that are placed one behind the other, each at the next multiple of its alignment, and what a
start further behind changes in the end.
-/

namespace Awn.Memory

def up (a x : ℕ) : ℕ := (x + (a - 1)) / a * a

section Up

variable {a x y : ℕ}

theorem dvd_up : a ∣ up a x := Nat.dvd_mul_left a _

theorem le_up (ha : 0 < a) : x ≤ up a x := by
  have hdiv := Nat.div_add_mod (x + (a - 1)) a
  have hmod := Nat.mod_lt (x + (a - 1)) ha
  rw [Nat.mul_comm] at hdiv
  rw [up]
  omega

theorem up_le (ha : 0 < a) (hy : a ∣ y) (h : x ≤ y) : up a x ≤ y := by
  obtain ⟨c, rfl⟩ := hy
  have hdiv : (x + (a - 1)) / a ≤ c := by
    apply Nat.le_of_lt_succ
    rw [Nat.div_lt_iff_lt_mul ha, Nat.succ_mul, Nat.mul_comm c]
    omega
  rw [up, Nat.mul_comm a]
  exact Nat.mul_le_mul_right a hdiv

theorem up_mono (ha : 0 < a) (h : x ≤ y) : up a x ≤ up a y :=
  up_le ha dvd_up (Nat.le_trans h (le_up ha))

theorem up_eq (ha : 0 < a) (h : a ∣ x) : up a x = x :=
  Nat.le_antisymm (up_le ha h (Nat.le_refl x)) (le_up ha)

theorem up_add (ha : 0 < a) (h : a ∣ y) : up a (y + x) = y + up a x := by
  apply Nat.le_antisymm
  · exact up_le ha (Nat.dvd_add h dvd_up) (Nat.add_le_add_left (le_up ha) y)
  · have hle : y ≤ up a (y + x) := Nat.le_trans (Nat.le_add_right y x) (le_up ha)
    have hx : up a x ≤ up a (y + x) - y := by
      apply up_le ha (Nat.dvd_sub dvd_up h)
      have := le_up (x := y + x) ha
      omega
    omega

theorem up_mod {n : ℕ} (ha : 0 < a) (h : a ∣ n) : up a (x % n) % n = up a x % n := by
  conv_rhs => rw [← Nat.div_add_mod x n, up_add ha (Nat.dvd_mul_right_of_dvd h _),
    Nat.mul_add_mod]

end Up

structure Block where
  align : ℕ
  size : ℕ

def serial : List Block → ℕ → ℕ
  | [], x => x
  | b :: bs, x => serial bs (up b.align x + b.size)

def starts : List Block → ℕ → List ℕ
  | [], _ => []
  | b :: bs, x => up b.align x :: starts bs (up b.align x + b.size)

def Aligned (bs : List Block) : Prop := ∀ b ∈ bs, ∃ k, b.align = 2 ^ k

section Serial

variable {b : Block} {bs : List Block} {p q : ℕ}

theorem Aligned.pos (h : Aligned (b :: bs)) : 0 < b.align := by
  obtain ⟨k, hk⟩ := h b List.mem_cons_self
  rw [hk]
  exact Nat.two_pow_pos k

theorem Aligned.tail (h : Aligned (b :: bs)) : Aligned bs :=
  fun c hc => h c (List.mem_cons_of_mem b hc)

theorem le_serial (h : Aligned bs) (x : ℕ) : x ≤ serial bs x := by
  induction bs generalizing x with
  | nil => exact Nat.le_refl x
  | cons b bs ih =>
    have hup := le_up (x := x) h.pos
    have hrest := ih h.tail (up b.align x + b.size)
    rw [serial]
    omega

theorem serial_mono (h : Aligned bs) (hpq : p ≤ q) : serial bs p ≤ serial bs q := by
  induction bs generalizing p q with
  | nil => exact hpq
  | cons b bs ih => exact ih h.tail (Nat.add_le_add_right (up_mono h.pos hpq) _)

theorem serial_add {c : ℕ} (h : Aligned bs) (hc : ∀ b ∈ bs, b.align ∣ c) (x : ℕ) :
    serial bs (c + x) = c + serial bs x := by
  induction bs generalizing x with
  | nil => rfl
  | cons b bs ih =>
    rw [serial, serial, up_add h.pos (hc b List.mem_cons_self), Nat.add_assoc]
    exact ih h.tail (fun d hd => hc d (List.mem_cons_of_mem b hd)) _

theorem serial_append (bs cs : List Block) (x : ℕ) :
    serial (bs ++ cs) x = serial cs (serial bs x) := by
  induction bs generalizing x with
  | nil => rfl
  | cons b bs ih => exact ih _

theorem serial_le_iff (h : Aligned bs) (hqp : q < p) : serial bs p ≤ serial bs q ↔
    ∃ pre b post, bs = pre ++ b :: post ∧ serial pre p ≤ up b.align (serial pre q) := by
  constructor
  · intro hle
    induction bs generalizing p q with
    | nil => exact absurd hle (Nat.not_le.mpr hqp)
    | cons b bs ih =>
      by_cases hgap : p ≤ up b.align q
      · exact ⟨[], b, bs, rfl, hgap⟩
      · have hp := le_up (x := p) h.pos
        obtain ⟨pre, c, post, rfl, hc⟩ := ih h.tail (p := up b.align p + b.size)
          (q := up b.align q + b.size) (by omega) hle
        exact ⟨b :: pre, c, post, rfl, hc⟩
  · rintro ⟨pre, b, post, rfl, hgap⟩
    have hb : Aligned (b :: post) := fun c hc => h c (List.mem_append_right pre hc)
    rw [serial_append, serial_append, serial, serial]
    exact serial_mono hb.tail (Nat.add_le_add_right (up_le hb.pos dvd_up hgap) _)

theorem dvd_serial (h : Aligned bs) (hsize : ∀ b ∈ bs, b.size = 0) {k : ℕ} (hq : 2 ^ k ∣ q) :
    2 ^ k ∣ serial bs q := by
  induction bs generalizing q with
  | nil => exact hq
  | cons b bs ih =>
    obtain ⟨j, hj⟩ := h b List.mem_cons_self
    rw [serial, hsize b List.mem_cons_self, Nat.add_zero]
    apply ih h.tail fun c hc => hsize c (List.mem_cons_of_mem b hc)
    rw [hj]
    rcases Nat.le_total k j with hkj | hjk
    · exact Nat.dvd_trans (Nat.pow_dvd_pow 2 hkj) dvd_up
    · rw [up_eq (Nat.two_pow_pos j) (Nat.dvd_trans (Nat.pow_dvd_pow 2 hjk) hq)]
      exact hq

theorem serial_le_of_empty (h : Aligned bs) (hsize : ∀ b ∈ bs, b.size = 0)
    (hp : p ≤ serial bs q) : serial bs p ≤ serial bs q := by
  induction bs generalizing p q with
  | nil => exact hp
  | cons b bs ih =>
    have hempty : ∀ c ∈ bs, c.size = 0 := fun c hc => hsize c (List.mem_cons_of_mem b hc)
    obtain ⟨k, hk⟩ := h b List.mem_cons_self
    rw [serial, serial, hsize b List.mem_cons_self, Nat.add_zero, Nat.add_zero] at *
    apply ih h.tail hempty
    have hdvd : b.align ∣ serial bs (up b.align q) := by
      rw [hk]
      exact dvd_serial h.tail hempty dvd_up
    exact up_le h.pos hdvd hp

theorem serial_le_of_ends (h : Aligned bs) (hsome : ∃ b ∈ bs, b.size ≠ 0)
    (hends : ∀ e ∈ bs.zip (starts bs p), e.1.size ≠ 0 → e.2 + e.1.size ≤ serial bs q) :
    serial bs p ≤ serial bs q := by
  induction bs generalizing p q with
  | nil =>
    obtain ⟨b, hb, -⟩ := hsome
    cases hb
  | cons b bs ih =>
    rw [starts, List.zip_cons_cons, List.forall_mem_cons] at hends
    obtain ⟨hhead, hrest⟩ := hends
    rw [serial, serial]
    by_cases hrestsome : ∃ c ∈ bs, c.size ≠ 0
    · exact ih h.tail hrestsome hrest
    · have hempty : ∀ c ∈ bs, c.size = 0 := by
        intro c hc
        by_contra hne
        exact hrestsome ⟨c, hc, hne⟩
      obtain ⟨c, hc, hne⟩ := hsome
      obtain rfl | hc := List.mem_cons.mp hc
      · exact serial_le_of_empty h.tail hempty (hhead hne)
      · exact absurd ⟨c, hc, hne⟩ hrestsome

theorem serial_zero_of_empty (h : Aligned bs) (hsize : ∀ b ∈ bs, b.size = 0) : serial bs 0 = 0 := by
  induction bs with
  | nil => rfl
  | cons b bs ih =>
    rw [serial, hsize b List.mem_cons_self, up_eq h.pos (Nat.dvd_zero _)]
    exact ih h.tail fun c hc => hsize c (List.mem_cons_of_mem b hc)

end Serial

end Awn.Memory

/-! Items that are written one behind the other at addresses, against their places as numbers. -/

namespace Awn.Memory

structure Extent where
  start : BitVec 64
  length : ℕ

def Extent.Inside (e : Extent) (out : BitVec 64) (total : ℕ) : Prop :=
  out.toNat ≤ e.start.toNat ∧ e.start.toNat + e.length ≤ out.toNat + total

def Extent.Disjoint (e f : Extent) : Prop :=
  e.length = 0 ∨ f.length = 0 ∨ e.start.toNat + e.length ≤ f.start.toNat ∨
    f.start.toNat + f.length ≤ e.start.toNat

theorem Extent.disjoint_of_le {e f : Extent} {n : ℕ} (he : e.start.toNat + e.length ≤ n)
    (hf : n ≤ f.start.toNat) : e.Disjoint f :=
  Or.inr (Or.inr (Or.inl (Nat.le_trans he hf)))

theorem dvd_sub_iff {x out : BitVec 64} {k : ℕ} (hk : k < 64) (hx : 2 ^ k ∣ x.toNat) :
    2 ^ k ∣ (x - out).toNat ↔ 2 ^ k ∣ out.toNat := by
  have hword : 2 ^ k ∣ 2 ^ 64 := Nat.pow_dvd_pow 2 (Nat.le_of_lt hk)
  have hlt := out.isLt
  rw [BitVec.toNat_sub, Nat.dvd_mod_iff hword, ← Nat.dvd_add_iff_left hx]
  constructor
  · intro h
    have := Nat.dvd_sub hword h
    rwa [Nat.sub_sub_self (Nat.le_of_lt hlt)] at this
  · exact fun h => Nat.dvd_sub hword h

structure Write where
  start : BitVec 64
  bytes : List (BitVec 8)

def Write.extent (w : Write) : Extent := ⟨w.start, w.bytes.length⟩

def Write.Within (w : Write) (p q : ℕ) : Prop :=
  p ≤ w.start.toNat ∧ w.start.toNat + w.bytes.length ≤ q

theorem Write.Within.mono {w : Write} {p q p' q' : ℕ} (h : w.Within p q) (hp : p' ≤ p)
    (hq : q ≤ q') : w.Within p' q' :=
  ⟨Nat.le_trans hp h.1, Nat.le_trans h.2 hq⟩

def applyWrites (m : Bytes) (writes : List Write) : Bytes :=
  writes.foldl (fun m w => copy m w.start.toNat w.bytes) m

def wordBytes : ℕ → ℕ → List (BitVec 8)
  | 0, _ => []
  | n + 1, v => BitVec.ofNat 8 v :: wordBytes n (v / 256)

@[simp] theorem length_wordBytes (n v : ℕ) : (wordBytes n v).length = n := by
  induction n generalizing v with
  | zero => rfl
  | succ n ih => rw [wordBytes, List.length_cons, ih]

def Extent.Covers (e : Extent) (b : ℕ) : Prop := e.start.toNat ≤ b ∧ b < e.start.toNat + e.length

theorem Buffer.writeBytes_extent {buf : Buffer} {m m' : Bytes} {a : BitVec 64}
    {bytes : List (BitVec 8)} (h : buf.writeBytes m a bytes = some m') :
    (bytes.length ≠ 0 → buf.Holds a.toNat bytes.length) ∧
      ∀ b, ¬(⟨a, bytes.length⟩ : Extent).Covers b → m' b = m b := by
  rw [Buffer.writeBytes] at h
  split at h
  · rename_i hholds
    rw [← Option.some_inj.mp h]
    refine ⟨fun hne => hholds.resolve_left fun hnil => hne (by rw [hnil]; rfl), fun b hb => ?_⟩
    by_cases hlt : b < a.toNat
    · exact copy_apply_of_lt m _ bytes b hlt
    · apply copy_apply_of_ge m _ bytes b
      by_contra hin
      exact hb ⟨Nat.not_lt.mp hlt, Nat.not_le.mp hin⟩
  · cases h

theorem Buffer.writeFields_holds {buf : Buffer} {m m' : Bytes} {base : BitVec 64}
    {fields : List Field} (h : buf.writeFields m base fields = some m') :
    ∀ f ∈ fields, buf.Holds (base + BitVec.ofNat 64 f.offset).toNat f.width := by
  induction fields generalizing m with
  | nil =>
    intro f hf
    cases hf
  | cons f fields ih =>
    obtain ⟨hholds, hrest⟩ := Buffer.writeFields_cons h
    exact List.forall_mem_cons.mpr ⟨hholds, ih hrest⟩

theorem element_toNat {a s : BitVec 64} {k n : ℕ} {i : BitVec 32} (hs : s.toNat = k)
    (hi : i.toNat < n) (hfit : a.toNat + k * n < 2 ^ 64) :
    (a + s * i.setWidth 64).toNat = a.toNat + k * i.toNat ∧ k * i.toNat + k ≤ k * n := by
  have hle : k * (i.toNat + 1) ≤ k * n := Nat.mul_le_mul_left _ hi
  rw [Nat.mul_succ] at hle
  refine ⟨?_, hle⟩
  rw [BitVec.toNat_add, BitVec.toNat_mul, widen_toNat, hs, Nat.mod_eq_of_lt (a := k * i.toNat) (by omega)]
  exact Nat.mod_eq_of_lt (by omega)

section Alignment

variable {x : BitVec 64} {align : BitVec 32} {k : ℕ}

theorem widen_two_pow (h : align.toNat = 2 ^ k) : align.setWidth 64 = BitVec.ofNat 64 (2 ^ k) := by
  apply BitVec.eq_of_toNat_eq
  have hlt := align.isLt
  rw [widen_toNat, h, BitVec.toNat_ofNat, Nat.mod_eq_of_lt (by omega)]

theorem two_pow_lt (h : align.toNat = 2 ^ k) : k < 32 := by
  have hlt := align.isLt
  rw [h] at hlt
  exact (Nat.pow_lt_pow_iff_right (by decide)).mp hlt

theorem alignUp_widen (h : align.toNat = 2 ^ k) (hx : x.toNat + 2 ^ 32 ≤ 2 ^ 64) :
    (alignUp x (align.setWidth 64)).toNat = up (2 ^ k) x.toNat := by
  have hk := two_pow_lt h
  have hpow : 2 ^ k < 2 ^ 32 := Nat.pow_lt_pow_right (by decide) hk
  have hpos := Nat.two_pow_pos k
  rw [widen_two_pow h, alignUp_toNat x (by omega), Nat.mod_eq_of_lt (by omega), up]

theorem dvd_alignUp (h : align.toNat = 2 ^ k) : 2 ^ k ∣ (alignUp x (align.setWidth 64)).toNat := by
  have hk := two_pow_lt h
  rw [widen_two_pow h, alignUp_toNat x (by omega)]
  exact Nat.dvd_mul_left _ _

theorem alignUp_eq (h : align.toNat = 2 ^ k) (hx : 2 ^ k ∣ x.toNat) :
    alignUp x (align.setWidth 64) = x := by
  have hk := two_pow_lt h
  have hpos := Nat.two_pow_pos k
  obtain ⟨c, hc⟩ := hx
  have hword : 2 ^ 64 = 2 ^ k * 2 ^ (64 - k) := by
    rw [← Nat.pow_add]
    congr 1
    omega
  have hlt : 2 ^ k * c + (2 ^ k - 1) < 2 ^ 64 := by
    have hx := x.isLt
    rw [hc, hword] at hx
    have hle : 2 ^ k * (c + 1) ≤ 2 ^ k * 2 ^ (64 - k) :=
      Nat.mul_le_mul_left _ (Nat.lt_of_mul_lt_mul_left hx)
    rw [← hword, Nat.mul_succ] at hle
    omega
  apply BitVec.eq_of_toNat_eq
  rw [widen_two_pow h, alignUp_toNat x (by omega), hc, Nat.mod_eq_of_lt hlt, Nat.mul_comm _ c,
    Nat.add_comm, Nat.add_mul_div_right _ _ hpos, Nat.div_eq_of_lt (by omega), Nat.zero_add]

end Alignment

section Placed

variable {α : Type*} (align size : α → BitVec 32)

def placed : BitVec 64 → List α → List Extent
  | _, [] => []
  | iter, item :: items =>
    let start := alignUp iter ((align item).setWidth 64)
    ⟨start, (size item).toNat⟩ :: placed (start + (size item).setWidth 64) items

def blockOf (item : α) : Block := ⟨(align item).toNat, (size item).toNat⟩

variable {align size} {items : List α} {out iter : BitVec 64} {x total : ℕ}

theorem exists_placed {item : α} (hitem : item ∈ items) (iter : BitVec 64) :
    ∃ e, (item, e) ∈ items.zip (placed align size iter items) := by
  induction items generalizing iter with
  | nil => cases hitem
  | cons head items ih =>
    rw [placed, List.zip_cons_cons]
    obtain rfl | hitem := List.mem_cons.mp hitem
    · exact ⟨_, List.mem_cons_self⟩
    · obtain ⟨e, he⟩ := ih hitem _
      exact ⟨e, List.mem_cons_of_mem _ he⟩

theorem dvd_placed (h : ∀ item ∈ items, ∃ k, (align item).toNat = 2 ^ k) (iter : BitVec 64) :
    ∀ p ∈ items.zip (placed align size iter items), (align p.1).toNat ∣ p.2.start.toNat := by
  induction items generalizing iter with
  | nil =>
    intro p hp
    cases hp
  | cons item items ih =>
    rw [placed, List.zip_cons_cons, List.forall_mem_cons]
    obtain ⟨k, hk⟩ := h item List.mem_cons_self
    refine ⟨?_, ih (fun i hi => h i (List.mem_cons_of_mem _ hi)) _⟩
    rw [hk]
    exact dvd_alignUp hk

theorem aligned_map (h : ∀ item ∈ items, ∃ k, (align item).toNat = 2 ^ k) :
    Aligned (items.map (blockOf align size)) := by
  intro b hb
  obtain ⟨item, hitem, rfl⟩ := List.mem_map.mp hb
  exact h item hitem

variable (halign : ∀ item ∈ items, ∃ k, (align item).toNat = 2 ^ k)
  (hout : out.toNat ≤ 2 ^ 63) (hdvd : ∀ item ∈ items, (align item).toNat ∣ out.toNat)

theorem placed_step {item : α} (hk : ∃ k, (align item).toNat = 2 ^ k)
    (hout : out.toNat ≤ 2 ^ 63) (hdvd : (align item).toNat ∣ out.toNat)
    (hiter : iter.toNat = out.toNat + x) (hx : x ≤ 2 ^ 32) :
    (alignUp iter ((align item).setWidth 64)).toNat = out.toNat + up (align item).toNat x ∧
      x ≤ up (align item).toNat x ∧ up (align item).toNat x ≤ 2 ^ 32 := by
  obtain ⟨k, hk⟩ := hk
  have hlt := two_pow_lt hk
  have hpos := Nat.two_pow_pos k
  rw [alignUp_widen hk (by omega), hiter, hk, up_add hpos (hk ▸ hdvd)]
  exact ⟨rfl, le_up hpos, up_le hpos (Nat.pow_dvd_pow 2 (Nat.le_of_lt hlt)) hx⟩

include halign hout hdvd

theorem ends_of_inside (hiter : iter.toNat = out.toNat + x) (hx : x ≤ 2 ^ 32) (htotal : total < 2 ^ 32)
    (hinside : ∀ e ∈ placed align size iter items, e.length ≠ 0 → e.Inside out total) :
    serial (items.map (blockOf align size)) x ≤ 2 ^ 32 ∧
      ∀ e ∈ (items.map (blockOf align size)).zip (starts (items.map (blockOf align size)) x),
        e.1.size ≠ 0 → e.2 + e.1.size ≤ total := by
  induction items generalizing iter x with
  | nil => exact ⟨hx, fun e he => by cases he⟩
  | cons item items ih =>
    rw [placed, List.forall_mem_cons] at hinside
    obtain ⟨hhead, hrest⟩ := hinside
    obtain ⟨hstart, -, hup⟩ := placed_step (halign item List.mem_cons_self) hout
      (hdvd item List.mem_cons_self) hiter hx
    have hsize := (size item).isLt
    have hend : (size item).toNat ≠ 0 → up (align item).toNat x + (size item).toNat ≤ total := by
      intro hne
      have hle := (hhead hne).2
      rw [hstart] at hle
      dsimp only at hle
      omega
    have hnext : up (align item).toNat x + (size item).toNat ≤ 2 ^ 32 := by
      by_cases hz : (size item).toNat = 0
      · omega
      · have := hend hz
        omega
    have hiter' : (alignUp iter ((align item).setWidth 64) + (size item).setWidth 64).toNat =
        out.toNat + (up (align item).toNat x + (size item).toNat) := by
      rw [BitVec.toNat_add, hstart, widen_toNat]
      omega
    obtain ⟨hserial, hends⟩ := ih (fun i hi => halign i (List.mem_cons_of_mem _ hi))
      (fun i hi => hdvd i (List.mem_cons_of_mem _ hi)) hiter' hnext hrest
    rw [List.map_cons]
    refine ⟨hserial, ?_⟩
    rw [starts, List.zip_cons_cons, List.forall_mem_cons]
    exact ⟨hend, hends⟩

theorem placed_spec (hiter : iter.toNat = out.toNat + x)
    (hend : serial (items.map (blockOf align size)) x ≤ 2 ^ 32) :
    (∀ e ∈ placed align size iter items, out.toNat + x ≤ e.start.toNat ∧
      e.start.toNat + e.length ≤ out.toNat + serial (items.map (blockOf align size)) x) ∧
    (placed align size iter items).Pairwise Extent.Disjoint := by
  induction items generalizing iter x with
  | nil => exact ⟨fun e he => (by cases he), List.Pairwise.nil⟩
  | cons item items ih =>
    have halign' : ∀ i ∈ items, ∃ k, (align i).toNat = 2 ^ k :=
      fun i hi => halign i (List.mem_cons_of_mem _ hi)
    rw [List.map_cons, serial] at hend ⊢
    change serial _ (up (align item).toNat x + (size item).toNat) ≤ 2 ^ 32 at hend
    have haligned : Aligned (items.map (blockOf align size)) := aligned_map halign'
    have hle := le_serial haligned (up (align item).toNat x + (size item).toNat)
    have hpos : 0 < (align item).toNat := by
      obtain ⟨k, hk⟩ := halign item List.mem_cons_self
      rw [hk]
      exact Nat.two_pow_pos k
    have hxup := le_up (x := x) hpos
    obtain ⟨hstart, -, hup⟩ := placed_step (halign item List.mem_cons_self) hout
      (hdvd item List.mem_cons_self) hiter (by omega)
    have hiter' : (alignUp iter ((align item).setWidth 64) + (size item).setWidth 64).toNat =
        out.toNat + (up (align item).toNat x + (size item).toNat) := by
      rw [BitVec.toNat_add, hstart, widen_toNat]
      omega
    obtain ⟨hin, hdisjoint⟩ := ih halign' (fun i hi => hdvd i (List.mem_cons_of_mem _ hi)) hiter' hend
    rw [placed, List.forall_mem_cons, List.pairwise_cons]
    refine ⟨⟨?_, ?_⟩, ?_, hdisjoint⟩
    · dsimp only [blockOf]
      omega
    · intro e he
      have hbounds := hin e he
      dsimp only [blockOf]
      omega
    · intro e he
      right; right; left
      have hbounds := hin e he
      dsimp only
      omega

end Placed

end Awn.Memory
