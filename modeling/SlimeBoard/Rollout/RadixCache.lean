import SlimeBoard.Lib.PyDict
import SlimeBoard.Lib.Radix
import SlimeBoard.Lib.Segments

/-!
# The radix cache

The KV cache of a serving engine is a radix tree of token sequences. A node is kept under its path,
the keys of its ancestors and its own; the path stays the same when a split puts a new parent above the
node, so it stands for the reference to the node. The children of a node are the nodes whose parent
path it is. A token here carries the `extra_key` of its sequence, so that sequences with different
extra keys share no child key. The cache is not disabled, its pages have one token, and its keys are
tokens and not pairs of them.
-/

namespace SlimeBoard.RadixCache

open Segments

variable {α β : Type}

structure TreeNode (α β : Type) where
  path : List α
  /-- the length of the path of the parent -/
  start : Nat
  value : List β
  lockRef : Nat

namespace TreeNode

variable (node : TreeNode α β)

def key : List α := node.path.drop node.start

def parent : List α := node.path.take node.start

def seg : Seg α := ⟨node.path, node.start⟩

end TreeNode

/-- `evictableLeaves` is a set. The root is at the empty path; it holds a lock of its own. -/
structure Cache (α β : Type) where
  nodes : List (TreeNode α β)
  evictableSize : Int
  protectedSize : Int
  evictableLeaves : List (List α)

def Cache.reset : Cache α β := ⟨[], 0, 0, []⟩

namespace Cache

variable [DecidableEq α] (c : Cache α β)

def find (path : List α) : Option (TreeNode α β) := c.nodes.find? (·.path = path)

def children (path : List α) : List (TreeNode α β) := c.nodes.filter (·.parent = path)

/-- `node.children[child_key]` -/
def childAt (path : List α) (x : α) : Option (TreeNode α β) :=
  c.nodes.find? fun child => child.parent = path ∧ child.key.head? = some x

/-- `_update_leaf_status` -/
def updateLeafStatus (path : List α) : Cache α β :=
  match c.find path with
  | none => { c with evictableLeaves := c.evictableLeaves.erase path }
  | some node =>
    if node.lockRef > 0 ∨ c.children path ≠ [] then { c with evictableLeaves := c.evictableLeaves.erase path }
    else if path ∈ c.evictableLeaves then c
    else { c with evictableLeaves := c.evictableLeaves ++ [path] }

/-- `_split_node`: the new node has the upper part and the child keeps the lower part. -/
def splitNode (child : TreeNode α β) (splitLen : Nat) : Cache α β :=
  { c with nodes := c.nodes.flatMap fun node =>
      if node.path = child.path then
        [{ node with path := node.path.take (node.start + splitLen), value := node.value.take splitLen },
          { node with start := node.start + splitLen, value := node.value.drop splitLen }]
      else [node] }

/-- The loop of `_match_prefix_helper`. -/
def matchLoop : Nat → Cache α β → List α → List α → List β → Py (List β × List α × Cache α β)
  | 0, _, _, _, _ => .error .diverges
  | fuel + 1, c, node, key, value =>
    match key with
    | [] => .ok (value, node, c)
    | x :: _ =>
      match c.childAt node x with
      | none => .ok (value, node, c)
      | some child =>
        let prefixLen := Radix.lcp child.key key
        if prefixLen < child.key.length then
          .ok (value ++ child.value.take prefixLen, child.path.take (child.start + prefixLen), c.splitNode child prefixLen)
        else matchLoop fuel c child.path (key.drop prefixLen) (value ++ child.value)

/-- The indices of the longest cached prefix, and the last node. -/
def matchPrefix (key : List α) : Py (List β × List α × Cache α β) :=
  if key = [] then .ok ([], [], c) else matchLoop (key.length + 1) c [] key []

/-- The new node of `_insert_helper`. -/
def addNode (node key : List α) (value : List β) : Cache α β :=
  let c : Cache α β := { c with
    nodes := c.nodes ++ [⟨node ++ key, node.length, value, 0⟩]
    evictableSize := c.evictableSize + key.length }
  (c.updateLeafStatus node).updateLeafStatus (node ++ key)

/-- The loop of `_insert_helper`. -/
def insertLoop : Nat → Cache α β → List α → List α → List β → Nat → Py (Nat × Cache α β)
  | 0, _, _, _, _, _ => .error .diverges
  | fuel + 1, c, node, key, value, totalPrefixLength =>
    match key with
    | [] => .ok (totalPrefixLength, c)
    | x :: _ =>
      match c.childAt node x with
      | none => .ok (totalPrefixLength, c.addNode node key value)
      | some child =>
        let prefixLen := Radix.lcp child.key key
        if prefixLen < child.key.length then
          insertLoop fuel (c.splitNode child prefixLen) (child.path.take (child.start + prefixLen)) (key.drop prefixLen)
            (value.drop prefixLen) (totalPrefixLength + prefixLen)
        else insertLoop fuel c child.path (key.drop prefixLen) (value.drop prefixLen) (totalPrefixLength + prefixLen)

def insert (key : List α) (value : List β) : Py (Nat × Cache α β) := insertLoop (key.length + 1) c [] key value 0

/-- `inc_lock_ref` and `dec_lock_ref` walk from a node up to the root. A node that is at `edge` changes
between evictable and protected. -/
def lockLoop (edge : Nat) (sign : Int) (change : Nat → Nat) : Nat → Cache α β → List α → Int → Py (Int × Cache α β)
  | _, c, [], delta => .ok (delta, c)
  | 0, _, _ :: _, _ => .error .diverges
  | fuel + 1, c, path, delta =>
    match c.find path with
    | none => .error .keyError
    | some node =>
      let size := if node.lockRef = edge then sign * node.key.length else 0
      let c : Cache α β := { c with
        nodes := c.nodes.map fun n => if n.path = path then { n with lockRef := change n.lockRef } else n
        evictableSize := c.evictableSize + size
        protectedSize := c.protectedSize - size }
      lockLoop edge sign change fuel (c.updateLeafStatus path) node.parent (delta + size)

def incLockRef (path : List α) : Py (Int × Cache α β) := lockLoop 0 (-1) (· + 1) path.length c path 0

def decLockRef (path : List α) : Py (Int × Cache α β) := lockLoop 1 1 (· - 1) path.length c path 0

/-- `_delete_leaf` -/
def deleteLeaf (node : TreeNode α β) : Cache α β :=
  { c with
    nodes := c.nodes.filter (·.path ≠ node.path)
    evictableSize := c.evictableSize - node.key.length
    evictableLeaves := c.evictableLeaves.erase node.path }.updateLeafStatus node.parent

/-- `len(x.parent.children) == 0 and x.parent.lock_ref == 0` -/
def isBare (path : List α) : Bool :=
  match c.find path with
  | none => false
  | some parent => (c.children path).isEmpty && parent.lockRef == 0

/-- The loop of `evict`. The heap orders the leaves by a strategy that may be any: `pick` chooses the
next leaf. -/
def evictLoop (pick : Nat → Nat) (numTokens : Nat) : Nat → Cache α β → List (List α) → Nat → List β → Py (Nat × List β × Cache α β)
  | 0, _, _, _, _ => .error .diverges
  | fuel + 1, c, heap, numEvicted, freed =>
    if numEvicted < numTokens then
      match heap[pick fuel % heap.length]? with
      | none => .ok (numEvicted, freed, c)
      | some path =>
        match c.find path with
        | none => .error .assertionError
        | some x =>
          let c := c.deleteLeaf x
          evictLoop pick numTokens fuel c (heap.erase path ++ if c.isBare x.parent then [x.parent] else [])
            (numEvicted + x.value.length) (freed ++ x.value)
    else .ok (numEvicted, freed, c)

/-- The number of evicted tokens and the indices the allocator gets back. -/
def evict (pick : Nat → Nat) (numTokens : Nat) : Py (Nat × List β × Cache α β) :=
  evictLoop pick numTokens (c.nodes.length + 1) c c.evictableLeaves 0 []

end Cache

end SlimeBoard.RadixCache
