import Awn.Calls.Throughout
import Awn.Memory.Strcmp
import Awn.Sorted.Insertion
import Mathlib.Algebra.Group.Nat.Defs
import Mathlib.Logic.Function.Basic

/-!
`vp::resbui::ByamlBigDataNodeDictionary` and `ByamlBigDataNodeHashArray`: the children of the
containers of a document, sorted by key or by hash.
-/

namespace Awn.Byaml

open Sorted (Turn insertNode)

structure ByamlNodeBase where
  m_key : CString := ⟨[], fun _ hc => absurd hc List.not_mem_nil⟩
  m_hash : BitVec 64 := 0xffffffffffffffff
  m_index : BitVec 32 := 0xffffffff

structure Containers (D H N : Type*) where
  node : N → ByamlNodeBase := fun _ => {}
  m_node_list : D ⊕ H → List N := fun _ => []
  m_node_count : D ⊕ H → BitVec 32 := fun _ => 0

namespace Containers

variable {D H N : Type*} [DecidableEq D] [DecidableEq H] [DecidableEq N]

def addNode (c : Containers D H N) (s : D ⊕ H) (turn : N → Turn) (n : N) : Containers D H N × Bool :=
  match insertNode turn n (c.m_node_list s) with
  | none => (c, false)
  | some nodes =>
    ({ c with
        m_node_list := Function.update c.m_node_list s nodes
        m_node_count := Function.update c.m_node_count s (c.m_node_count s + 1) }, true)

def keyTurn (strcmp : CString → CString → BitVec 32) (c : Containers D H N) (key : CString)
    (node_iter : N) : Turn :=
  let result := strcmp (c.node node_iter).m_key key
  if result = 0 then .isPresent else if result = -1 then .goOn else .link

def hashTurn (c : Containers D H N) (hash : BitVec 64) (node_iter : N) : Turn :=
  if (c.node node_iter).m_hash = hash then .isPresent
  else if (c.node node_iter).m_hash < hash then .goOn
  else .link

def setKey (c : Containers D H N) (n : N) (key : CString) (index : BitVec 32) : Containers D H N :=
  { c with node := Function.update c.node n { c.node n with m_key := key, m_index := index } }

def setHash (c : Containers D H N) (n : N) (hash : BitVec 64) (index : BitVec 32) :
    Containers D H N :=
  { c with node := Function.update c.node n { c.node n with m_hash := hash, m_index := index } }

def AddNodeByKey (strcmp : CString → CString → BitVec 32) (c : Containers D H N) (d : D) (n : N)
    (key : Option CString) (index : BitVec 32) : Containers D H N × Bool :=
  match key with
  | none => (c, false)
  | some key =>
    if key.1 = [] then (c, false)
    else
      let c := c.setKey n key index
      c.addNode (.inl d) (c.keyTurn strcmp key) n

def AddNodeByHash (c : Containers D H N) (h : H) (n : N) (hash : BitVec 64) (index : BitVec 32) :
    Containers D H N × Bool :=
  let c := c.setHash n hash index
  c.addNode (.inr h) (c.hashTurn hash) n

def RemoveNode (c : Containers D H N) (s : D ⊕ H) (n : N) : Containers D H N :=
  { c with
    m_node_list := fun t => (c.m_node_list t).erase n
    m_node_count := Function.update c.m_node_count s (c.m_node_count s - 1) }

end Containers

inductive Call (D H N : Type*)
  | addByKey (d : D) (n : N) (key : Option CString) (index : BitVec 32)
  | addByHash (h : H) (n : N) (hash : BitVec 64) (index : BitVec 32)
  | remove (s : D ⊕ H) (n : N)

namespace Containers

variable {D H N : Type*} [DecidableEq D] [DecidableEq H] [DecidableEq N]
variable (strcmp : CString → CString → BitVec 32)

def call (c : Containers D H N) : Call D H N → Containers D H N × Bool
  | .addByKey d n key index => c.AddNodeByKey strcmp d n key index
  | .addByHash h n hash index => c.AddNodeByHash h n hash index
  | .remove s n => (c.RemoveNode s n, true)

def Less (c : Containers D H N) : D ⊕ H → N → N → Prop
  | .inl _, a, b => (c.node a).m_key.codes < (c.node b).m_key.codes
  | .inr _, a, b => (c.node a).m_hash < (c.node b).m_hash

structure Ordered (c : Containers D H N) : Prop where
  ascending : ∀ s, (c.m_node_list s).Pairwise (c.Less s)
  count : ∀ s, (c.m_node_count s).toNat = (c.m_node_list s).length

def HasKey (c : Containers D H N) (d : D) (key : CString) : Prop :=
  ∃ n ∈ c.m_node_list (.inl d), (c.node n).m_key = key

def HasHash (c : Containers D H N) (h : H) (hash : BitVec 64) : Prop :=
  ∃ n ∈ c.m_node_list (.inr h), (c.node n).m_hash = hash

def Present (c : Containers D H N) : Call D H N → Prop
  | .addByKey d _ key _ => ∃ k, key = some k ∧ c.HasKey d k
  | .addByHash h _ hash _ => c.HasHash h hash
  | .remove _ _ => False

def RefusesPresent (c : Containers D H N) (call : Call D H N) : Prop :=
  c.Present call → (c.call strcmp call).2 = false ∧
    (c.call strcmp call).1.m_node_list = c.m_node_list ∧
    (c.call strcmp call).1.m_node_count = c.m_node_count

def Unlinked (c : Containers D H N) : Call D H N → Prop
  | .addByKey _ n _ _ => ∀ s, n ∉ c.m_node_list s
  | .addByHash _ n _ _ => ∀ s, n ∉ c.m_node_list s
  | .remove _ _ => True

def HasRoom (c : Containers D H N) (s : D ⊕ H) : Prop := (c.m_node_list s).length + 1 < 2 ^ 32

/-- What keeps the order: to a key that is added, the smaller ones compare with exactly `-1`; the
count does not overflow; a node is removed from the container it is in. -/
def Fits (c : Containers D H N) : Call D H N → Prop
  | .addByKey d _ key _ => ∀ k, key = some k → k.1 ≠ [] →
      (∀ n ∈ c.m_node_list (.inl d), (c.node n).m_key.codes < k.codes →
        strcmp (c.node n).m_key k = -1) ∧ (c.HasKey d k ∨ c.HasRoom (.inl d))
  | .addByHash h _ hash _ => c.HasHash h hash ∨ c.HasRoom (.inr h)
  | .remove s n => n ∈ c.m_node_list s

def KeepsOrder : Containers D H N → List (Call D H N) → Prop :=
  Calls.Throughout (fun c call => (c.call strcmp call).1) Ordered (RefusesPresent strcmp)

def AllUnlinked : Containers D H N → List (Call D H N) → Prop :=
  Calls.EachIn (fun c call => (c.call strcmp call).1) Unlinked

def AllFit : Containers D H N → List (Call D H N) → Prop :=
  Calls.EachIn (fun c call => (c.call strcmp call).1) (Fits strcmp)

end Containers

end Awn.Byaml
