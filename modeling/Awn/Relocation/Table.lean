import Awn.Memory.Buffer

/-!
The relocation table of a resource file, read from and written to memory as the
code does: `this` is the address of the table, and every field is a load at its
offset. The two directions walk the same slots and differ in what they store.
-/

namespace Awn.Relocation

open Memory

abbrev Ptr := BitVec 64

def read8 (m : Bytes) (p : Ptr) : BitVec 8 := BitVec.ofNat 8 (load m p.toNat 1)
def read16 (m : Bytes) (p : Ptr) : BitVec 16 := BitVec.ofNat 16 (load m p.toNat 2)
def read32 (m : Bytes) (p : Ptr) : BitVec 32 := BitVec.ofNat 32 (load m p.toNat 4)
def read64 (m : Bytes) (p : Ptr) : BitVec 64 := BitVec.ofNat 64 (load m p.toNat 8)
def write16 (m : Bytes) (p : Ptr) (v : BitVec 16) : Bytes := store m p.toNat 2 v.toNat
def write64 (m : Bytes) (p : Ptr) (v : BitVec 64) : Bytes := store m p.toNat 8 v.toNat

namespace ResNintendoWareFileHeader

def isRelocated (m : Bytes) (header : Ptr) : Bool := read16 m (header + 0x14) &&& 1 != 0

def setRelocated (m : Bytes) (header : Ptr) (relocated : Bool) : Bytes :=
  write16 m (header + 0x14)
    ((read16 m (header + 0x14) &&& 0xFFFE) ||| if relocated then 1 else 0)

end ResNintendoWareFileHeader

namespace ResSection

def basePointer (m : Bytes) (s : Ptr) : Ptr := read64 m s
def regionOffset (m : Bytes) (s : Ptr) : BitVec 32 := read32 m (s + 0x8)
def baseEntryIndex (m : Bytes) (s : Ptr) : BitVec 32 := read32 m (s + 0x10)
def entryCount (m : Bytes) (s : Ptr) : BitVec 32 := read32 m (s + 0x14)

/-- `(base_pointer == nullptr) ? base_file : base_pointer - region_offset`. -/
def fileBase (m : Bytes) (s baseFile : Ptr) : Ptr :=
  if basePointer m s = 0 then baseFile else basePointer m s - (regionOffset m s).setWidth 64

def entryIndices (m : Bytes) (s : Ptr) : List ℕ :=
  List.range' (baseEntryIndex m s).toNat
    ((entryCount m s + baseEntryIndex m s).toNat - (baseEntryIndex m s).toNat)

end ResSection

namespace ResEntry

def regionOffset (m : Bytes) (e : Ptr) : BitVec 32 := read32 m e
def arrayCount (m : Bytes) (e : Ptr) : BitVec 16 := read16 m (e + 0x4)
def relocationCount (m : Bytes) (e : Ptr) : BitVec 8 := read8 m (e + 0x6)
def arrayStride (m : Bytes) (e : Ptr) : BitVec 8 := read8 m (e + 0x7)

end ResEntry

namespace ResNintendoWareRelocationTable

def offsetFromHeader (m : Bytes) (this : Ptr) : BitVec 32 := read32 m (this + 0x4)
def sectionCount (m : Bytes) (this : Ptr) : BitVec 32 := read32 m (this + 0x8)

def getFileHeader (m : Bytes) (this : Ptr) : Ptr := this - (offsetFromHeader m this).setWidth 64

def getEntryTableOffset (m : Bytes) (this : Ptr) : BitVec 64 :=
  0x10 + (sectionCount m this).setWidth 64 * 0x18

def getSection (this : Ptr) (sectionIndex : BitVec 32) : Ptr :=
  this + 0x10 + sectionIndex.signExtend 64 * 0x18

def getEntry (this : Ptr) (entryTableOffset : BitVec 64) (entryIndex : ℕ) : Ptr :=
  this + (entryTableOffset + BitVec.ofNat 64 entryIndex * 0x8)

def quadrupleLoop (slot : Bytes → Ptr → Bytes) : ℕ → Bytes → Ptr → Bytes × Ptr
  | 0, m, regionOffsetIter => (m, regionOffsetIter)
  | n + 1, m, regionOffsetIter =>
    let m := slot m regionOffsetIter
    let regionOffsetIter := regionOffsetIter + 8
    let m := slot m regionOffsetIter
    let regionOffsetIter := regionOffsetIter + 8
    let m := slot m regionOffsetIter
    let regionOffsetIter := regionOffsetIter + 8
    let m := slot m regionOffsetIter
    let regionOffsetIter := regionOffsetIter + 8
    quadrupleLoop slot n m regionOffsetIter

def singleLoop (slot : Bytes → Ptr → Bytes) : ℕ → Bytes → Ptr → Bytes
  | 0, m, _ => m
  | n + 1, m, regionOffsetIter => singleLoop slot n (slot m regionOffsetIter) (regionOffsetIter + 8)

def arrayElement (slot : Bytes → Ptr → Bytes) (offsetCount : BitVec 8) (m : Bytes)
    (regionOffset : Ptr) : Bytes :=
  let offsetMask := (offsetCount &&& 3).toNat
  let quadruple := if 3 < offsetCount.toNat
    then quadrupleLoop slot ((offsetCount.toNat - offsetMask) / 4) m regionOffset
    else (m, regionOffset)
  if offsetMask ≠ 0 then singleLoop slot offsetMask quadruple.1 quadruple.2 else quadruple.1

def arrayLoop (slot : Bytes → Ptr → Bytes) (offsetCount arrayStride : BitVec 8) :
    ℕ → Bytes → Ptr → Bytes
  | 0, m, _ => m
  | n + 1, m, regionOffset =>
    arrayLoop slot offsetCount arrayStride n (arrayElement slot offsetCount m regionOffset)
      (regionOffset + offsetCount.setWidth 64 * 8 + arrayStride.setWidth 64 * 8)

def walkEntry (slot : Bytes → Ptr → Bytes) (baseFile : Ptr) (m : Bytes) (entry : Ptr) : Bytes :=
  arrayLoop slot (ResEntry.relocationCount m entry) (ResEntry.arrayStride m entry)
    (ResEntry.arrayCount m entry).toNat m (baseFile + (ResEntry.regionOffset m entry).setWidth 64)

def walkSection (slot : Ptr → Bytes → Ptr → Bytes) (this baseFile : Ptr)
    (entryTableOffset : BitVec 64) (m : Bytes) (i : ℕ) : Bytes :=
  let s := getSection this (BitVec.ofNat 32 i)
  let fileBase := ResSection.fileBase m s baseFile
  (ResSection.entryIndices m s).foldl
    (fun m e => walkEntry (slot fileBase) baseFile m (getEntry this entryTableOffset e)) m

def walk (slot : Ptr → Bytes → Ptr → Bytes) (m : Bytes) (this : Ptr) : Bytes :=
  let baseFile := getFileHeader m this
  let entryTableOffset := getEntryTableOffset m this
  (List.range (sectionCount m this).toNat).foldl (walkSection slot this baseFile entryTableOffset) m

def relocateSlot (fileBase : Ptr) (m : Bytes) (offset : Ptr) : Bytes :=
  let relocationPointer := if read64 m offset ≠ 0 then fileBase + read64 m offset else 0
  write64 m offset relocationPointer

def unrelocatedValue (fileBase regionOffsetIter : Ptr) : BitVec 64 :=
  if regionOffsetIter ≠ 0 then regionOffsetIter - fileBase else 0

def unrelocateSlot (fileBase : Ptr) (m : Bytes) (regionOffsetIter : Ptr) : Bytes :=
  write64 m regionOffsetIter (unrelocatedValue fileBase regionOffsetIter)

def relocate (m : Bytes) (this : Ptr) : Bytes :=
  let fileHeader := getFileHeader m this
  if sectionCount m this = 0 then ResNintendoWareFileHeader.setRelocated m fileHeader true
  else ResNintendoWareFileHeader.setRelocated (walk relocateSlot m this) fileHeader true

def unrelocate (m : Bytes) (this : Ptr) : Bytes :=
  let fileHeader := getFileHeader m this
  if sectionCount m this = 0 then ResNintendoWareFileHeader.setRelocated m fileHeader true
  else ResNintendoWareFileHeader.setRelocated (walk unrelocateSlot m this) fileHeader false

end ResNintendoWareRelocationTable

open Memory ResNintendoWareRelocationTable

def slotRun : ℕ → Ptr → List Ptr
  | 0, _ => []
  | n + 1, p => p :: slotRun n (p + 8)

def arraySlots (offsetCount arrayStride : BitVec 8) : ℕ → Ptr → List Ptr
  | 0, _ => []
  | n + 1, p => slotRun offsetCount.toNat p ++ arraySlots offsetCount arrayStride n
      (p + offsetCount.setWidth 64 * 8 + arrayStride.setWidth 64 * 8)

def entrySlots (m : Bytes) (baseFile entry : Ptr) : List Ptr :=
  arraySlots (ResEntry.relocationCount m entry) (ResEntry.arrayStride m entry)
    (ResEntry.arrayCount m entry).toNat (baseFile + (ResEntry.regionOffset m entry).setWidth 64)

def sectionSlots (m : Bytes) (this baseFile : Ptr) (entryTableOffset : BitVec 64) (i : ℕ) :
    List (Ptr × Ptr) :=
  let s := getSection this (BitVec.ofNat 32 i)
  (ResSection.entryIndices m s).flatMap fun e =>
    (entrySlots m baseFile (getEntry this entryTableOffset e)).map
      (fun a => (ResSection.fileBase m s baseFile, a))

def slots (m : Bytes) (this : Ptr) : List (Ptr × Ptr) :=
  (List.range (sectionCount m this).toNat).flatMap
    (sectionSlots m this (getFileHeader m this) (getEntryTableOffset m this))

theorem quadrupleLoop_eq (slot : Bytes → Ptr → Bytes) (n k : ℕ) (m : Bytes) (p : Ptr) :
    singleLoop slot k (quadrupleLoop slot n m p).1 (quadrupleLoop slot n m p).2 =
      singleLoop slot (4 * n + k) m p := by
  induction n generalizing m p with
  | zero => simp [quadrupleLoop]
  | succ n ih =>
    have hn : 4 * (n + 1) + k = (4 * n + k) + 4 := by ring
    rw [quadrupleLoop, ih, hn]
    rfl

theorem arrayElement_eq (slot : Bytes → Ptr → Bytes) (offsetCount : BitVec 8) (m : Bytes) (p : Ptr) :
    arrayElement slot offsetCount m p = singleLoop slot offsetCount.toNat m p := by
  have hmask : (offsetCount &&& 3).toNat = offsetCount.toNat % 4 := by
    rw [BitVec.toNat_and]
    exact Nat.and_two_pow_sub_one_eq_mod _ 2
  have hsplit : 4 * ((offsetCount.toNat - offsetCount.toNat % 4) / 4) + offsetCount.toNat % 4 =
      offsetCount.toNat := by omega
  have hquad := quadrupleLoop_eq slot ((offsetCount.toNat - offsetCount.toNat % 4) / 4)
    (offsetCount.toNat % 4) m p
  rw [hsplit] at hquad
  unfold arrayElement
  simp only [hmask]
  by_cases hcount : 3 < offsetCount.toNat
  · rw [if_pos hcount]
    by_cases hzero : offsetCount.toNat % 4 = 0
    · rw [if_neg (by simpa using hzero), ← hquad, hzero]
      rfl
    · rw [if_pos hzero, hquad]
  · rw [if_neg hcount]
    have hmod : offsetCount.toNat % 4 = offsetCount.toNat := by omega
    rw [hmod]
    by_cases hzero : offsetCount.toNat = 0
    · rw [if_neg (by simpa using hzero), hzero]
      rfl
    · rw [if_pos hzero]

theorem singleLoop_eq (slot : Bytes → Ptr → Bytes) (n : ℕ) (m : Bytes) (p : Ptr) :
    singleLoop slot n m p = (slotRun n p).foldl slot m := by
  induction n generalizing m p with
  | zero => rfl
  | succ n ih => rw [singleLoop, ih, slotRun, List.foldl_cons]

theorem arrayLoop_eq (slot : Bytes → Ptr → Bytes) (offsetCount arrayStride : BitVec 8) (n : ℕ)
    (m : Bytes) (p : Ptr) :
    arrayLoop slot offsetCount arrayStride n m p =
      (arraySlots offsetCount arrayStride n p).foldl slot m := by
  induction n generalizing m p with
  | zero => rfl
  | succ n ih =>
    rw [arrayLoop, ih, arraySlots, List.foldl_append, arrayElement_eq, singleLoop_eq]

theorem walkEntry_eq (slot : Bytes → Ptr → Bytes) (baseFile : Ptr) (m : Bytes) (entry : Ptr) :
    walkEntry slot baseFile m entry = (entrySlots m baseFile entry).foldl slot m := by
  rw [walkEntry, arrayLoop_eq, entrySlots]

def SameTable (m : Bytes) (this : Ptr) (size : ℕ) (m' : Bytes) : Prop :=
  ∀ b, this.toNat ≤ b → b < this.toNat + size → m' b = m b

theorem SameTable.load {m m' : Bytes} {this : Ptr} {size : ℕ} (h : SameTable m this size m') (a n : ℕ)
    (ha : this.toNat ≤ a) (hn : a + n ≤ this.toNat + size) : load m' a n = load m a n := by
  apply load_congr
  intro b hb hbn
  exact h b (by omega) (by omega)

structure WellFormed (m : Bytes) (this : Ptr) (size : ℕ) : Prop where
  small : size < 2 ^ 32
  inside : this.toNat + size ≤ 2 ^ 64
  sections : 0x10 + 0x18 * (sectionCount m this).toNat ≤ size
  entries : ∀ i < (sectionCount m this).toNat,
    ∀ e ∈ ResSection.entryIndices m (getSection this (BitVec.ofNat 32 i)),
      0x10 + 0x18 * (sectionCount m this).toNat + 8 * (e + 1) ≤ size
  header : 0x20 ≤ (offsetFromHeader m this).toNat ∧ (offsetFromHeader m this).toNat ≤ this.toNat
  apart : ∀ s ∈ slots m this, s.2.toNat + 8 ≤ this.toNat ∨ this.toNat + size ≤ s.2.toNat
  flag : ∀ s ∈ slots m this, s.2.toNat + 8 ≤ (getFileHeader m this).toNat + 0x14 ∨
    (getFileHeader m this).toNat + 0x16 ≤ s.2.toNat
  distinct : (slots m this).Pairwise
    (fun s t => s.2.toNat + 8 ≤ t.2.toNat ∨ t.2.toNat + 8 ≤ s.2.toNat)

end Awn.Relocation
