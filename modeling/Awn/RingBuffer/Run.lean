import Awn.RingBuffer.Refinement
import Mathlib.Algebra.GroupWithZero.Nat

/-!
`Remove` takes an element out in order if it finds it in a slot from which it moves all that
follows.
-/

namespace Awn.FixedRingBuffer

variable {T : Type*} {size : ℕ} {ring ring' : FixedRingBuffer T} {xs : List T}

/-- From slot `j` on `Remove` moves the elements that follow: with the oldest in slot 0, from a slot
behind `m_offset` of a buffer that wraps, and from one of the slots that wrapped when it moves no
slot from `m_offset` on. -/
def MovesFrom (size : ℕ) (ring : FixedRingBuffer T) (j : ℕ) : Prop :=
  ring.m_offset = 0 ∨
  capacity size < ring.m_offset.toNat + ring.m_count.toNat ∧
    (ring.m_offset.toNat < j ∧ ring.m_offset.toNat + ring.m_count.toNat < 2 ^ 32 ∨
      j + capacity size < ring.m_offset.toNat + ring.m_count.toNat ∧
        ring.m_count.toNat ≤ ring.m_offset.toNat + 1)

def Removable (size : ℕ) (ring : FixedRingBuffer T) (iter : T) : Prop :=
  ∃ i < ring.m_count.toNat,
    (∀ k < i, (ring.adjust size (BitVec.ofNat 32 k)).toNat < size ∧
      ring.m_array (ring.adjust size (BitVec.ofNat 32 k)).toNat ≠ iter) ∧
    (ring.adjust size (BitVec.ofNat 32 i)).toNat < size ∧
    ring.m_array (ring.adjust size (BitVec.ofNat 32 i)).toNat = iter ∧
    ring.MovesFrom size (ring.adjust size (BitVec.ofNat 32 i)).toNat

theorem findSlot_eq [DecidableEq T] {iter : T} {i : ℕ} {slot : BitVec 32}
    (hbefore : ∀ k < i, (ring.adjust size (BitVec.ofNat 32 k)).toNat < size ∧
      ring.m_array (ring.adjust size (BitVec.ofNat 32 k)).toNat ≠ iter)
    (hslot : ring.adjust size (BitVec.ofNat 32 i) = slot) (hin : slot.toNat < size)
    (hiter : ring.m_array slot.toNat = iter) {steps start : ℕ} (hstart : start ≤ i)
    (hsteps : i < start + steps) :
    ring.findSlot size iter steps (BitVec.ofNat 32 start) = some slot := by
  induction steps generalizing start with
  | zero => omega
  | succ steps ih =>
    unfold findSlot load
    by_cases hlast : start = i
    · rw [hlast, hslot, if_pos hin, Option.bind_some, if_neg (not_not.mpr hiter.symm)]
    · obtain ⟨hlt, hne⟩ := hbefore start (by omega)
      have hnext : BitVec.ofNat 32 start + 1 = BitVec.ofNat 32 (start + 1) :=
        (BitVec.ofNat_add start 1).symm
      rw [if_pos hlt, Option.bind_some, if_pos hne.symm, hnext]
      exact ih (by omega) (by omega)

theorem memmove_eq (array : ℕ → T) {start count : BitVec 32}
    (h : count = 0 ∨ start.toNat + count.toNat < size) : memmove size array start count =
      some fun i =>
        if start.toNat ≤ i ∧ i < start.toNat + count.toNat then array (i + 1) else array i :=
  if_pos h

section Cases

variable [DecidableEq T] {iter : T} {slot : BitVec 32}

theorem remove_straight (hfind : ring.findSlot size iter ring.m_count.toNat 0 = some slot)
    (hwrap : ¬(size < (ring.m_count + ring.m_offset).toNat ∧ ring.m_offset < slot))
    (hslot : slot.toNat < ring.m_count.toNat) (hcount : ring.m_count.toNat ≤ size) :
    ring.Remove size iter = some (FixedRingBuffer.mk ring.m_offset (ring.m_count - 1) fun i =>
      if slot.toNat ≤ i ∧ i + 1 < ring.m_count.toNat then ring.m_array (i + 1)
      else ring.m_array i) := by
  have hone : (1 : BitVec 32).toNat = 1 := rfl
  have hadj : (ring.m_count - slot - 1).toNat = ring.m_count.toNat - slot.toNat - 1 := by
    have hlt := ring.m_count.isLt
    rw [BitVec.toNat_sub, BitVec.toNat_sub, hone]
    omega
  unfold Remove
  rw [hfind, Option.bind_some]
  dsimp only
  rw [if_neg hwrap, memmove_eq _ (Or.inr (by omega)), Option.bind_some, if_neg hwrap,
    Option.map_some, hadj]
  congr 2
  funext i
  congr 1
  apply propext
  omega

theorem remove_wrapped (hfind : ring.findSlot size iter ring.m_count.toNat 0 = some slot)
    (hwrap : size < ring.m_offset.toNat + ring.m_count.toNat)
    (hsum : ring.m_offset.toNat + ring.m_count.toNat < 2 ^ 32)
    (hoffset : ring.m_offset.toNat < slot.toNat) (hslot : slot.toNat < size)
    (hcount : ring.m_count.toNat ≤ size) :
    ∃ m_array, ring.Remove size iter =
        some (FixedRingBuffer.mk ring.m_offset (ring.m_count - 1) m_array) ∧
      (∀ i, ring.m_offset.toNat ≤ i → i < slot.toNat → m_array i = ring.m_array i) ∧
      (∀ i, slot.toNat ≤ i → i + 1 < size → m_array i = ring.m_array (i + 1)) ∧
      m_array (size - 1) = ring.m_array 0 ∧
      ∀ i, i + 1 + size < ring.m_offset.toNat + ring.m_count.toNat →
        m_array i = ring.m_array (i + 1) := by
  have hone : (1 : BitVec 32).toNat = 1 := rfl
  have hzero : (0 : BitVec 32).toNat = 0 := rfl
  have hsize : (BitVec.ofNat 32 size).toNat = size := by
    rw [BitVec.toNat_ofNat]
    omega
  have htotal : (ring.m_offset + ring.m_count).toNat =
      ring.m_offset.toNat + ring.m_count.toNat := by
    rw [BitVec.toNat_add]
    omega
  have hadj : (BitVec.ofNat 32 size - slot - 1).toNat = size - slot.toNat - 1 := by
    rw [BitVec.toNat_sub, BitVec.toNat_sub, hone, hsize]
    omega
  have hfinal : (ring.m_offset + ring.m_count - BitVec.ofNat 32 size - 1).toNat =
      ring.m_offset.toNat + ring.m_count.toNat - size - 1 := by
    rw [BitVec.toNat_sub, BitVec.toNat_sub, hone, hsize, htotal]
    omega
  have hbranch : size < (ring.m_count + ring.m_offset).toNat ∧ ring.m_offset < slot := by
    rw [BitVec.add_comm, htotal]
    exact ⟨hwrap, hoffset⟩
  unfold Remove
  rw [hfind, Option.bind_some]
  dsimp only
  rw [if_pos hbranch, memmove_eq _ (Or.inr (by omega)), Option.bind_some, if_pos hbranch,
    memmove_eq _ (Or.inr (by omega)), Option.map_some, hadj, hfinal, hzero]
  refine ⟨_, rfl, ?_, ?_, ?_, ?_⟩
  · intro i hlo hhi
    rw [if_neg (by omega), Function.update_of_ne (by omega), if_neg (by omega)]
  · intro i hlo hhi
    rw [if_neg (by omega), Function.update_of_ne (by omega), if_pos (by omega)]
  · rw [if_neg (by omega), Function.update_self]
    exact if_neg (by omega)
  · intro i hi
    rw [if_pos (by omega), Function.update_of_ne (by omega), if_neg (by omega)]

theorem Holds.remove (h : ring.Holds size xs) (hmet : ring.Removable size iter) :
    ∃ ring' k, ring.Remove size iter = some ring' ∧ xs[k]? = some iter ∧
      ring'.Holds size (xs.eraseIdx k) := by
  obtain ⟨i, hi, hbefore, hin, hiter, hmoves⟩ := hmet
  obtain ⟨slot, hslot⟩ : ∃ slot, ring.adjust size (BitVec.ofNat 32 i) = slot := ⟨_, rfl⟩
  rw [hslot] at hin hiter hmoves
  have hfind : ring.findSlot size iter ring.m_count.toNat 0 = some slot :=
    findSlot_eq hbefore hslot hin hiter (Nat.zero_le i) (by omega)
  have hlength := h.length_eq
  have hoffset := h.offset_lt
  have hle := h.count_le
  have hcount := h.count
  have hcapacity : capacity size ≤ size := capacity_le (by omega)
  have hone : (1 : BitVec 32).toNat = 1 := rfl
  have hpred : (ring.m_count - 1).toNat = ring.m_count.toNat - 1 := by
    rw [BitVec.toNat_sub, hone]
    omega
  -- all cases are about the new array alone
  have hholds : ∀ (k : ℕ) (m_array : ℕ → T), k < ring.m_count.toNat →
      (ring.m_offset.toNat + k) % capacity size = slot.toNat →
      (∀ i < k, m_array ((ring.m_offset.toNat + i) % capacity size) =
        ring.m_array ((ring.m_offset.toNat + i) % capacity size)) →
      (∀ i, k ≤ i → i + 1 < ring.m_count.toNat →
        m_array ((ring.m_offset.toNat + i) % capacity size) =
          ring.m_array ((ring.m_offset.toNat + i + 1) % capacity size)) →
      xs[k]? = some iter ∧
        (FixedRingBuffer.mk ring.m_offset (ring.m_count - 1) m_array).Holds size
          (xs.eraseIdx k) := by
    intro k m_array hk hplace hbelow habove
    refine ⟨?_, ?_, ?_⟩
    · rw [h.get (by omega), hplace, hiter]
    · have herase := h.entries.eraseIdx (k := k) (by omega) (fun i => some (m_array i))
        (fun i hi => congrArg some (hbelow i hi))
        (fun i hi hnext => congrArg some (habove i hi hnext))
      unfold FixedRingBuffer.toRing
      dsimp only
      rw [hpred]
      exact herase
    · dsimp only
      omega
  rcases hmoves with hzero | ⟨hwrap, ⟨hbehind, hsum⟩ | ⟨hlow, hfew⟩⟩
  · have hzero' : ring.m_offset.toNat = 0 := by rw [hzero]; rfl
    have hstep : slot.toNat = i := by
      have hsmall : (BitVec.ofNat 32 i).toNat = i := by
        rw [BitVec.toNat_ofNat]
        omega
      unfold adjust at hslot
      dsimp only at hslot
      have hbase : BitVec.ofNat 32 i + ring.m_offset = BitVec.ofNat 32 i := by
        rw [hzero]
        exact BitVec.add_zero _
      rw [hbase, hsmall, if_neg (by omega)] at hslot
      rw [← hslot, hsmall]
    have hbranch : ¬(size < (ring.m_count + ring.m_offset).toNat ∧ ring.m_offset < slot) := by
      rintro ⟨hlt, -⟩
      have hsum : ring.m_count + ring.m_offset = ring.m_count := by
        rw [hzero]
        exact BitVec.add_zero _
      rw [hsum] at hlt
      omega
    refine ⟨_, slot.toNat, remove_straight hfind hbranch (by omega) hcount, hholds _ _ (by omega)
      ?_ ?_ ?_⟩
    · rw [hzero', Nat.zero_add, Nat.mod_eq_of_lt (by omega)]
    · intro k hk
      rw [hzero', Nat.zero_add, Nat.mod_eq_of_lt (by omega), if_neg (by omega)]
    · intro k hk hnext
      rw [hzero', Nat.zero_add, Nat.mod_eq_of_lt (by omega), Nat.mod_eq_of_lt (by omega),
        if_pos (by omega)]
  · have hsize : capacity size = size := capacity_eq (by unfold capacity at hwrap; omega) (by omega)
    rw [hsize] at hoffset hwrap hholds
    obtain ⟨m_array, heq, hbelow, hmoved, hend, hwrapped⟩ :=
      remove_wrapped hfind hwrap hsum hbehind hin hcount
    refine ⟨_, slot.toNat - ring.m_offset.toNat, heq, hholds _ _ (by omega) ?_ ?_ ?_⟩
    · rw [Nat.mod_eq_of_lt (by omega)]
      omega
    · intro k hk
      rw [Nat.mod_eq_of_lt (by omega)]
      exact hbelow _ (by omega) (by omega)
    · intro k hk hnext
      by_cases hlast : ring.m_offset.toNat + k + 1 < size
      · rw [Nat.mod_eq_of_lt (by omega), Nat.mod_eq_of_lt hlast]
        exact hmoved _ (by omega) hlast
      · by_cases hedge : ring.m_offset.toNat + k + 1 = size
        · rw [hedge, Nat.mod_self, Nat.mod_eq_of_lt (by omega), ← hend]
          congr 1
          omega
        · rw [RingBuffer.mod_eq (by omega), if_pos (by omega), RingBuffer.mod_eq (by omega),
            if_pos (by omega), hwrapped _ (by omega)]
          congr 1
          omega
  · have hbranch : ¬(size < (ring.m_count + ring.m_offset).toNat ∧ ring.m_offset < slot) := by
      rintro ⟨-, hlt⟩
      rw [BitVec.lt_def] at hlt
      omega
    refine ⟨_, capacity size - ring.m_offset.toNat + slot.toNat,
      remove_straight hfind hbranch (by omega) hcount, hholds _ _ (by omega) ?_ ?_ ?_⟩
    · rw [RingBuffer.mod_eq (by omega), if_pos (by omega)]
      omega
    · intro k hk
      by_cases hend : capacity size ≤ ring.m_offset.toNat + k
      · rw [RingBuffer.mod_eq (by omega), if_pos hend, if_neg (by omega)]
      · rw [RingBuffer.mod_eq (by omega), if_neg hend, if_neg (by omega)]
    · intro k hk hnext
      have hwrapped : ∀ n, capacity size ≤ n → n < 2 * capacity size →
          n % capacity size = n - capacity size := by
        intro n hlo hhi
        rw [RingBuffer.mod_eq hhi, if_pos hlo]
      rw [hwrapped _ (by omega) (by omega), hwrapped _ (by omega) (by omega), if_pos (by omega)]
      congr 1
      omega

end Cases

end Awn.FixedRingBuffer

/-!
Runs of a ring buffer, and the first-in first-out list that they are runs of.
-/

namespace Awn.FixedRingBuffer

variable {T : Type*}

inductive Call (T : Type*)
  | Insert (pointer : T)
  | RemoveFront
  | Remove (iter : T)
  | Index (index : BitVec 32)
  | Iterate

inductive Reply (T : Type*)
  | done
  | item (x : T)
  | items (xs : List T)

def call [DecidableEq T] [Zero T] (size : ℕ) (ring : FixedRingBuffer T) :
    Call T → Option (Reply T × FixedRingBuffer T)
  | .Insert pointer => (ring.Insert size pointer).map fun ring => (.done, ring)
  | .RemoveFront => (ring.RemoveFront size).map fun r => (.item r.1, r.2)
  | .Remove iter => (ring.Remove size iter).map fun ring => (.done, ring)
  | .Index index => (ring.Index size index).map fun x => (.item x, ring)
  | .Iterate => (ring.Iterate size).map fun xs => (.items xs, ring)

inductive Fifo [Zero T] : List T → Call T → Reply T → List T → Prop
  | insert {xs : List T} (x : T) : Fifo xs (.Insert x) .done (xs ++ [x])
  | removeFront {xs : List T} : Fifo xs .RemoveFront (.item (xs.headD 0)) xs.tail
  | remove {xs : List T} {x : T} {k : ℕ} : xs[k]? = some x →
      Fifo xs (.Remove x) .done (xs.eraseIdx k)
  | index {xs : List T} {x : T} {index : BitVec 32} : xs[index.toNat]? = some x →
      Fifo xs (.Index index) (.item x) xs
  | iterate {xs : List T} : Fifo xs .Iterate (.items xs) xs

inductive FifoRun [Zero T] : List (Call T × Reply T) → List T → Prop
  | start : FifoRun [] []
  | step {trace : List (Call T × Reply T)} {xs xs' : List T} {c : Call T} {reply : Reply T} :
      FifoRun trace xs → Fifo xs c reply xs' → FifoRun ((c, reply) :: trace) xs'

def Admitted (size : ℕ) (ring : FixedRingBuffer T) : Call T → Prop
  | .Insert _ => ring.m_count.toNat < size
  | .RemoveFront => True
  | .Remove iter => iter ∈ ring.contents size
  | .Index index => index < ring.m_count
  | .Iterate => True

def Met (size : ℕ) (ring : FixedRingBuffer T) : Call T → Prop
  | .Insert _ => ring.m_count.toNat + 1 < 2 ^ 32 ∧
      (2 ^ 32 ≤ size ∨ ring.m_offset.toNat + ring.m_count.toNat < 2 ^ 32)
  | .RemoveFront => True
  | .Remove iter => ring.Removable size iter
  | .Index index => 2 ^ 32 ≤ size ∨
      ring.m_offset.toNat + index.toNat ≠ size ∧ ring.m_offset.toNat + index.toNat < 2 ^ 32
  | .Iterate => BitVec.ofNat 32 size - ring.m_offset = ring.m_count ∧
      (ring.m_count = 0 ∨ ring.m_offset = 0)

section Runs

variable [DecidableEq T] [Zero T] (size : ℕ)

inductive Run (allowed : FixedRingBuffer T → Call T → Prop) :
    FixedRingBuffer T → List (Call T × Reply T) → Prop
  | start (array : ℕ → T) : Run allowed ⟨0, 0, array⟩ []
  | step {ring ring' : FixedRingBuffer T} {trace : List (Call T × Reply T)} {c : Call T}
      {reply : Reply T} : Run allowed ring trace → Admitted size ring c → allowed ring c →
      ring.call size c = some (reply, ring') → Run allowed ring' ((c, reply) :: trace)

structure Correct (allowed : FixedRingBuffer T → Call T → Prop) (ring : FixedRingBuffer T)
    (trace : List (Call T × Reply T)) : Prop where
  fifo : FifoRun trace (ring.contents size)
  returns : ∀ c, Admitted size ring c → allowed ring c → ∃ r, ring.call size c = some r

variable {size} {ring : FixedRingBuffer T} {xs : List T}

omit [DecidableEq T] [Zero T] in
theorem Holds.iterate (h : ring.Holds size xs) (hoffset : ring.m_offset = 0) {steps k : ℕ}
    (hk : k + steps = xs.length) :
    ring.iterate size steps (BitVec.ofNat 32 k) = some (xs.drop k) := by
  have hlength := h.length_eq
  have hcount := h.count
  have hlt := ring.m_count.isLt
  have hzero : ring.m_offset.toNat = 0 := by rw [hoffset]; rfl
  induction steps generalizing k with
  | zero =>
    rw [List.drop_eq_nil_of_le (by omega)]
    rfl
  | succ steps ih =>
    have hk' : (BitVec.ofNat 32 k).toNat = k := by
      rw [BitVec.toNat_ofNat]
      omega
    have hnext : BitVec.ofNat 32 k + 1 = BitVec.ofNat 32 (k + 1) := (BitVec.ofNat_add k 1).symm
    have hindex := h.index (i := BitVec.ofNat 32 k) (by omega) (by omega)
    have hin : k < xs.length := by omega
    rw [hk', List.getElem?_eq_getElem hin] at hindex
    unfold FixedRingBuffer.iterate
    rw [hindex, Option.bind_some, hnext, ih (by omega), Option.map_some, ← List.drop_eq_getElem_cons]

omit [DecidableEq T] [Zero T] in
theorem Holds.iterate_eq (h : ring.Holds size xs)
    (hsteps : BitVec.ofNat 32 size - ring.m_offset = ring.m_count)
    (hmet : ring.m_count = 0 ∨ ring.m_offset = 0) : ring.Iterate size = some xs := by
  have hlength := h.length_eq
  unfold Iterate
  rw [hsteps]
  by_cases hcount : ring.m_count = 0
  · rw [hcount] at hlength ⊢
    rw [List.length_eq_zero_iff.mp hlength]
    rfl
  · have hoffset := hmet.resolve_left hcount
    rw [hoffset]
    exact h.iterate hoffset (k := 0) (by omega)

theorem Holds.call (h : ring.Holds size xs) {c : Call T} (hadmitted : Admitted size ring c)
    (hmet : Met size ring c) : ∃ reply ring' xs', ring.call size c = some (reply, ring') ∧
      Fifo xs c reply xs' ∧ ring'.Holds size xs' := by
  unfold FixedRingBuffer.call
  cases c with
  | Insert pointer =>
    obtain ⟨hcount, hsum⟩ := hmet
    obtain ⟨ring', heq, h'⟩ := h.insert pointer hadmitted hcount hsum
    exact ⟨_, ring', _, congrArg (Option.map _) heq, .insert pointer, h'⟩
  | RemoveFront =>
    obtain ⟨ring', heq, h'⟩ := h.removeFront
    exact ⟨_, ring', _, congrArg (Option.map _) heq, .removeFront, h'⟩
  | Remove iter =>
    obtain ⟨ring', k, heq, hk, h'⟩ := h.remove hmet
    exact ⟨_, ring', _, congrArg (Option.map _) heq, .remove hk, h'⟩
  | Index index =>
    have hlength := h.length_eq
    have hlt : index.toNat < ring.m_count.toNat := hadmitted
    have hindex := h.index hlt hmet
    have hget : xs[index.toNat]? = some xs[index.toNat] := List.getElem?_eq_getElem (by omega)
    rw [hget] at hindex
    exact ⟨_, ring, _, congrArg (Option.map _) hindex, .index hget, h⟩
  | Iterate =>
    exact ⟨_, ring, _, congrArg (Option.map _) (h.iterate_eq hmet.1 hmet.2), .iterate, h⟩

theorem Run.holds {trace : List (Call T × Reply T)} (h : Run size (Met size) ring trace) :
    ∃ xs, FifoRun trace xs ∧ ring.Holds size xs := by
  induction h with
  | start array => exact ⟨[], .start, start_holds size array⟩
  | step _ hadmitted hmet hcall ih =>
    obtain ⟨xs, hrun, hholds⟩ := ih
    obtain ⟨reply, ring', xs', heq, hfifo, hholds'⟩ := hholds.call hadmitted hmet
    rw [hcall] at heq
    cases heq
    exact ⟨xs', hrun.step hfifo, hholds'⟩

end Runs

end Awn.FixedRingBuffer
