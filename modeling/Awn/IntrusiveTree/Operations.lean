import Awn.IntrusiveTree.Node

namespace Awn.IntrusiveTree

open RedBlack

variable {K : Type}


def rotate (side : Bool) (s : IntrusiveRedBlackTree K) (rotI : Addr) :
    Except Fault (IntrusiveRedBlackTree K × Addr) := do
  let originalChild ← deref ((s.node rotI).child side)
  let originalParent := (s.node rotI).parent
  let originalInner := (s.node originalChild).child (!side)
  let s := s.setChild rotI side originalInner
  let s := s.setParentIfAny originalInner (some rotI)
  let s := s.setChild originalChild (!side) (some rotI)
  let s := s.setParent rotI (some originalChild)
  match originalParent with
  | none => return ((s.setRoot (some originalChild)).setParent originalChild none, originalChild)
  | some parent =>
    let s := s.setChild parent ((s.node parent).left != some rotI) (some originalChild)
    return (s.setParent originalChild (some parent), originalChild)

def rotateRight (s : IntrusiveRedBlackTree K) (rotI : Addr) :
    Except Fault (IntrusiveRedBlackTree K × Addr) := rotate false s rotI

def rotateLeft (s : IntrusiveRedBlackTree K) (rotI : Addr) :
    Except Fault (IntrusiveRedBlackTree K × Addr) := rotate true s rotI

def insertFixupRotate (s : IntrusiveRedBlackTree K) (sideIter nextSideIter : BitVec 64)
    (parentIter parentParentIter : Addr) : Except Fault (IntrusiveRedBlackTree K × Addr) :=
  if sideBit nextSideIter = sideBit sideIter then
    if sideBit sideIter = false then rotateRight s parentParentIter
    else rotateLeft s parentParentIter
  else if sideBit sideIter = false then do
    let (s, originalSide) ← rotateRight s parentIter
    let (s, _) ← rotateLeft s parentParentIter
    return (s, originalSide)
  else do
    let (s, originalSide) ← rotateLeft s parentIter
    let (s, _) ← rotateRight s parentParentIter
    return (s, originalSide)

def insertFixupLoop : ℕ → IntrusiveRedBlackTree K → BitVec 64 → Option Addr →
    Except Fault (IntrusiveRedBlackTree K)
  | traversalIter + 2, s, sideIter, some parentIter =>
    if (s.node parentIter).color = .red then do
      let nextSideIter := sideIter >>> 1
      let parentParentIter ← deref (s.node parentIter).parent
      let parentParentSide := (s.node parentParentIter).child (!sideBit nextSideIter)
      if s.isRed parentParentSide then
        let parentParentSide ← deref parentParentSide
        let s := s.setColor parentIter .black
        let s := s.setColor parentParentSide .black
        let s := s.setColor parentParentIter .red
        insertFixupLoop traversalIter s (nextSideIter >>> 1) (s.node parentParentIter).parent
      else
        let (s, originalSide) ←
          insertFixupRotate s sideIter nextSideIter parentIter parentParentIter
        let s := s.setColor originalSide .black
        return s.setColor parentParentIter .red
    else return s
  | _, s, _, _ => return s

def insertFixup (s : IntrusiveRedBlackTree K) (insert : Addr) (nodeTrace : TreeNodeTrace) :
    Except Fault (IntrusiveRedBlackTree K) :=
  insertFixupLoop nodeTrace.traversalCount s nodeTrace.trace (s.node insert).parent

section Compare

variable [LinearOrder K]

def insertSearch (s : IntrusiveRedBlackTree K) (key : K) :
    ℕ → Addr → BitVec 64 → ℕ → Except Fault (Addr × Bool × BitVec 64 × ℕ)
  | 0, _, _, _ => .error .outOfFuel
  | fuel + 1, nodeIter, traceMask, traversalCount =>
    if (s.node nodeIter).key = key then .error .collision
    else
      let side : Bool := decide ((s.node nodeIter).key < key)
      let traceMask := (traceMask <<< 1) ||| (if side then 1 else 0)
      let traversalCount := traversalCount + 1
      match (s.node nodeIter).child side with
      | none => return (nodeIter, side, traceMask, traversalCount)
      | some nextNode => insertSearch s key fuel nextNode traceMask traversalCount

def insertImpl (fuel : ℕ) (s : IntrusiveRedBlackTree K) (insert : Addr) :
    Except Fault (IntrusiveRedBlackTree K) :=
  match s.root with
  | none => return s.setRoot (some insert)
  | some root => do
    let (nodeIter, side, traceMask, traversalCount) ←
      insertSearch s (s.node insert).key fuel root 0 0
    check (decide (traversalCount < 0x40)) .assertion
    let s := s.setChild nodeIter side (some insert)
    let s := s.setChild insert false none
    let s := s.setChild insert true none
    let s := (s.setParent insert (some nodeIter)).setColor insert .red
    insertFixup s insert ⟨traceMask, traversalCount⟩

end Compare

def traceParentLoop (s : IntrusiveRedBlackTree K) :
    ℕ → Addr → Addr → BitVec 64 → ℕ → Except Fault TreeNodeTrace
  | 0, _, _, _, _ => .error .outOfFuel
  | fuel + 1, parentNode, node, mask, i =>
    let pSide : BitVec 64 := if (s.node parentNode).left != some node then 1 else 0
    let mask := mask ||| (pSide <<< (i % 0x40))
    match (s.node parentNode).parent with
    | none => return ⟨mask, i + 1⟩
    | some next => traceParentLoop s fuel next parentNode mask (i + 1)

def traceParent (fuel : ℕ) (s : IntrusiveRedBlackTree K) (parentNode node : Addr) :
    Except Fault TreeNodeTrace := traceParentLoop s fuel parentNode node 0 0

/-- `if (parent != nullptr) { trace = TraceParent(parent, node); }` over a zeroed trace. -/
def traceParentIfAny (fuel : ℕ) (s : IntrusiveRedBlackTree K) (parentNode : Option Addr)
    (node : Addr) : Except Fault TreeNodeTrace :=
  match parentNode with
  | some parent => traceParent fuel s parent node
  | none => return ⟨0, 0⟩

def transplant (s : IntrusiveRedBlackTree K) (replaceNode : Addr) (moveNode : Option Addr) :
    IntrusiveRedBlackTree K :=
  match (s.node replaceNode).parent with
  | none => s.setRoot moveNode
  | some parentNode =>
    if (s.node parentNode).left = some replaceNode then s.setChild parentNode false moveNode
    else s.setChild parentNode true moveNode

structure RemoveSwapResult where
  outRemove : Option Addr
  fixupColor : Color
  trace : TreeNodeTrace

def removeSwapSingle (fuel : ℕ) (side : Bool) (s : IntrusiveRedBlackTree K) (removeNode : Addr) :
    Except Fault (IntrusiveRedBlackTree K × RemoveSwapResult) := do
  let parentNode := (s.node removeNode).parent
  let fixupColor := (s.node removeNode).color
  let movedNode := (s.node removeNode).child side
  let trace ← traceParentIfAny fuel s parentNode removeNode
  let s := transplant s removeNode movedNode
  let s := s.setParentIfAny movedNode parentNode
  return (s, ⟨parentNode, fixupColor, trace⟩)

def nextNodeLoop (s : IntrusiveRedBlackTree K) : ℕ → Addr → Except Fault Addr
  | 0, _ => .error .outOfFuel
  | fuel + 1, nextNode =>
    match (s.node nextNode).left with
    | none => return nextNode
    | some iter => nextNodeLoop s fuel iter

def raiseRightNext (s : IntrusiveRedBlackTree K) (nextNode nextParent : Addr) :
    IntrusiveRedBlackTree K :=
  match (s.node nextNode).right with
  | some rightNextNode =>
    let s := s.setChild nextParent ((s.node nextParent).left != some nextNode) (some rightNextNode)
    s.setParent rightNextNode (some nextParent)
  | none => s.setChild nextParent false none

def takeOver (s : IntrusiveRedBlackTree K) (removeNode nextNode : Addr) : IntrusiveRedBlackTree K :=
  let s := s.setChild nextNode true (s.node removeNode).right
  let s := s.setChild nextNode false (s.node removeNode).left
  let s := (s.setParent nextNode (s.node removeNode).parent).setColor nextNode
    (s.node removeNode).color
  let s := transplant s removeNode (some nextNode)
  let s := s.setParentIfAny (s.node nextNode).left (some nextNode)
  s.setParentIfAny (s.node nextNode).right (some nextNode)

def removeSwap (fuel : ℕ) (s : IntrusiveRedBlackTree K) (removeNode : Addr) :
    Except Fault (IntrusiveRedBlackTree K × RemoveSwapResult) :=
  match (s.node removeNode).right with
  | none => removeSwapSingle fuel false s removeNode
  | some right =>
    match (s.node removeNode).left with
    | none => removeSwapSingle fuel true s removeNode
    | some _ => do
      let parentNode := (s.node removeNode).parent
      let nextNode ← nextNodeLoop s fuel right
      let nextParent := (s.node nextNode).parent
      let fixupColor := (s.node nextNode).color
      let trace ← traceParentIfAny fuel s nextParent nextNode
      let s := s.setColor nextNode (s.node removeNode).color
      if (s.node removeNode).right = some nextNode then
        let s := transplant s removeNode (some nextNode)
        let s := s.setParent nextNode parentNode
        let s := s.setChild nextNode false (s.node removeNode).left
        let left ← deref (s.node removeNode).left
        let s := s.setParent left (some nextNode)
        return (s, ⟨some nextNode, fixupColor, trace⟩)
      else
        let nextParentNode ← deref nextParent
        let s := raiseRightNext s nextNode nextParentNode
        let s := takeOver s removeNode nextNode
        return (s, ⟨nextParent, fixupColor, trace⟩)

def removeFixupRotate (d : Bool) (s : IntrusiveRedBlackTree K) (parentIter side : Addr) :
    Except Fault (IntrusiveRedBlackTree K × Addr) := do
  let s := s.setColor parentIter .red
  let s := s.setColor side .black
  let (s, _) ← if d = false then rotateLeft s parentIter else rotateRight s parentIter
  let side ← deref ((s.node parentIter).child (!d))
  return (s, side)

def removeFixupSide (d : Bool) (s : IntrusiveRedBlackTree K) (parentIter side : Addr) :
    Except Fault (IntrusiveRedBlackTree K × Bool) :=
  if s.isRed ((s.node side).child d) then do
    let originalColor := (s.node parentIter).color
    let (s, originalSide) ← if d = false then rotateRight s side else rotateLeft s side
    let (s, _) ← if d = false then rotateLeft s parentIter else rotateRight s parentIter
    let s := s.setColor originalSide originalColor
    let s := s.setColor parentIter .black
    return (s.setColor side .black, true)
  else if s.isRed ((s.node side).child (!d)) then do
    let sideOppositeChild ← deref ((s.node side).child (!d))
    let originalColor := (s.node parentIter).color
    let (s, originalSide) ← if d = false then rotateLeft s parentIter else rotateRight s parentIter
    let s := s.setColor originalSide originalColor
    let s := s.setColor parentIter .black
    return (s.setColor sideOppositeChild .black, true)
  else
    let s := s.setColor side .red
    if (s.node parentIter).color = .red then return (s.setColor parentIter .black, true)
    else return (s, false)

def removeFixupLoop : ℕ → IntrusiveRedBlackTree K → Addr → BitVec 64 → ℕ →
    Except Fault (IntrusiveRedBlackTree K)
  | 0, _, _, _, _ => .error .outOfFuel
  | fuel + 1, s, parentIter, sideIter, traversalIter => do
    let d := sideBit sideIter
    let side ← deref ((s.node parentIter).child (!d))
    let (s, side, nextTrace, nextTraversalCount) ←
      if (s.node side).color = .red then do
        let (s, side) ← removeFixupRotate d s parentIter side
        pure (s, side, (sideIter >>> 1 <<< 1) ||| (if d then 1 else 0), traversalIter - 1 + 1)
      else pure (s, side, sideIter >>> 1, traversalIter - 1)
    let (s, complete) ← removeFixupSide d s parentIter side
    if complete then return s
    else if nextTraversalCount < 1 then return s
    else
      let parentIter ← deref (s.node parentIter).parent
      removeFixupLoop fuel s parentIter nextTrace nextTraversalCount

def removeFixup (fuel : ℕ) (s : IntrusiveRedBlackTree K) (parentIter : Option Addr)
    (nodeTrace : TreeNodeTrace) (removeColor : Color) : Except Fault (IntrusiveRedBlackTree K) :=
  if removeColor ≠ .black then return s
  else if nodeTrace.traversalCount < 1 then return s
  else do
    let parentIter ← deref parentIter
    let side := (s.node parentIter).child (sideBit nodeTrace.trace)
    if s.isRed side then
      let side ← deref side
      return s.setColor side .black
    else removeFixupLoop fuel s parentIter nodeTrace.trace nodeTrace.traversalCount

section Compare

variable [LinearOrder K]

def removeSearch (s : IntrusiveRedBlackTree K) (key : K) : ℕ → Addr → Except Fault Addr
  | 0, _ => .error .outOfFuel
  | fuel + 1, removeNode =>
    if (s.node removeNode).key = key then return removeNode
    else match (s.node removeNode).child (decide ((s.node removeNode).key < key)) with
      | none => .error .assertion
      | some next => removeSearch s key fuel next

def removeImpl (fuel : ℕ) (s : IntrusiveRedBlackTree K) (key : K) :
    Except Fault (IntrusiveRedBlackTree K) :=
  match s.root with
  | none => .error .assertion
  | some root => do
    let removeNode ← removeSearch s key fuel root
    let (s, swap) ← removeSwap fuel s removeNode
    let s ← removeFixup fuel s swap.outRemove swap.trace swap.fixupColor
    let s := s.setChild removeNode false none
    return s.setChild removeNode true none

def findImpl (s : IntrusiveRedBlackTree K) (key : K) : ℕ → Option Addr → Except Fault (Option Addr)
  | 0, _ => .error .outOfFuel
  | _, none => return none
  | fuel + 1, some iter =>
    if (s.node iter).key = key then return some iter
    else findImpl s key fuel ((s.node iter).child (decide ((s.node iter).key < key)))

def paintRoot (s : IntrusiveRedBlackTree K) (root : Addr) : IntrusiveRedBlackTree K :=
  (s.setParent root none).setColor root .black

def insert (fuel : ℕ) (s : IntrusiveRedBlackTree K) (node : Addr) :
    Except Fault (IntrusiveRedBlackTree K) := do
  let s ← insertImpl fuel s node
  let root ← deref s.root
  return paintRoot s root

def removeKey (fuel : ℕ) (s : IntrusiveRedBlackTree K) (key : K) :
    Except Fault (IntrusiveRedBlackTree K) := do
  let s ← removeImpl fuel s key
  match s.root with
  | none => return s
  | some root => return paintRoot s root

def remove (fuel : ℕ) (s : IntrusiveRedBlackTree K) (node : Addr) :
    Except Fault (IntrusiveRedBlackTree K) := removeKey fuel s (s.node node).key

def find (fuel : ℕ) (s : IntrusiveRedBlackTree K) (key : K) : Except Fault (Option Addr) :=
  findImpl s key fuel s.root

end Compare

end Awn.IntrusiveTree
