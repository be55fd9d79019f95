import Memtrade.Lib.BinaryTree
import Memtrade.Lib.Heap

/-!
# The AVL tree of the control loop

`avl_tree<T>` with its nodes on a heap and its links as addresses. The
comparison operators of `T` are those of a key in a linear order: a template
argument that is itself totally ordered has itself as key, `perf_point` has its
performance, so that two samples may compare equal and still differ.

A result `none` is a null dereference, or a loop that has used up its fuel. The
loops get the number of nodes ever allocated as fuel; the theorems about them
say that `none` never occurs. A node taken out of the tree stays on the heap,
where nothing refers to it.
-/

namespace Memtrade

abbrev NodeId := Nat

structure AvlTreeNode (T : Type) where
  value : T
  left : Option NodeId
  right : Option NodeId
  parent : Option NodeId
  height : Int
  numNodes : Int
deriving DecidableEq, Repr

namespace AvlTreeNode

variable {T : Type}

def child (n : AvlTreeNode T) : Side → Option NodeId
  | .left => n.left
  | .right => n.right

def setChild (d : Side) (p : Option NodeId) (n : AvlTreeNode T) : AvlTreeNode T :=
  match d with
  | .left => { n with left := p }
  | .right => { n with right := p }

def setParent (p : Option NodeId) (n : AvlTreeNode T) : AvlTreeNode T := { n with parent := p }

end AvlTreeNode

structure AvlTree (T : Type) where
  heap : Heap (AvlTreeNode T)
  root : Option NodeId
  numNodes : Int

namespace AvlTree

variable {T : Type}

def empty : AvlTree T := ⟨Heap.empty, none, 0⟩

def load (tree : AvlTree T) (i : NodeId) : Option (AvlTreeNode T) := tree.heap.cell i

/-- An assignment through the pointer `i`. -/
def modify (tree : AvlTree T) (i : NodeId) (f : AvlTreeNode T → AvlTreeNode T) :
    Option (AvlTree T) := do
  let n ← tree.load i
  some { tree with heap := tree.heap.write i (f n) }

/-- `if (p != nullptr) p->parent = parent`. -/
def setParent (tree : AvlTree T) (p parent : Option NodeId) : Option (AvlTree T) :=
  match p with
  | none => some tree
  | some i => tree.modify i (.setParent parent)

def swapNode (tree : AvlTree T) (node₁ node₂ : NodeId) : Option (AvlTree T) := do
  let n₁ ← tree.load node₁
  let n₂ ← tree.load node₂
  let tree ← tree.modify node₁ fun n => { n with value := n₂.value }
  tree.modify node₂ fun n => { n with value := n₁.value }

/-- A field of the node behind a possibly null pointer, `0` for null. -/
def fieldOr0 (tree : AvlTree T) (field : AvlTreeNode T → Int) : Option NodeId → Option Int
  | none => some 0
  | some i => (tree.load i).map field

def updateNumNodes (tree : AvlTree T) (node : NodeId) : Option (AvlTree T) := do
  let n ← tree.load node
  let left ← tree.fieldOr0 (·.numNodes) n.left
  let right ← tree.fieldOr0 (·.numNodes) n.right
  tree.modify node fun n => { n with numNodes := 1 + left + right }

def updateHeight (tree : AvlTree T) (node : NodeId) : Option (AvlTree T) := do
  let n ← tree.load node
  let left ← tree.fieldOr0 (·.height) n.left
  let right ← tree.fieldOr0 (·.height) n.right
  tree.modify node fun n => { n with height := max (max 0 left) right + 1 }

def updateMeta (tree : AvlTree T) (node : NodeId) : Option (AvlTree T) := do
  let tree ← tree.updateHeight node
  tree.updateNumNodes node

def getBalanceFactor (tree : AvlTree T) (node : NodeId) : Option Int := do
  let n ← tree.load node
  let left ← tree.fieldOr0 (·.height) n.left
  let right ← tree.fieldOr0 (·.height) n.right
  some (left - right)

/-- Let the link from `parent` to `node`, or the root, point to `new`. -/
def replaceChild (tree : AvlTree T) (parent : Option NodeId) (node : NodeId)
    (new : Option NodeId) : Option (AvlTree T) :=
  match parent with
  | none => some { tree with root := new }
  | some p => do
      let n ← tree.load p
      if n.left = some node then
        tree.modify p (.setChild .left new)
      else
        tree.modify p (.setChild .right new)

/-- The child on side `d` takes the place of `node`. The two rotations of the
source differ in this side only. -/
def rotate (d : Side) (tree : AvlTree T) (node : NodeId) : Option (AvlTree T) := do
  let n ← tree.load node
  let child ← n.child d
  let tree ← tree.replaceChild n.parent node (some child)
  let tree ← tree.modify child (.setParent n.parent)
  let c ← tree.load child
  let tree ← tree.modify node (.setChild d (c.child d.other))
  let tree ← tree.setParent (c.child d.other) (some node)
  let tree ← tree.modify child (.setChild d.other (some node))
  let tree ← tree.modify node (.setParent (some child))
  let tree ← tree.updateMeta node
  tree.updateMeta child

def rightRotate (tree : AvlTree T) (node : NodeId) : Option (AvlTree T) := tree.rotate .left node

def leftRotate (tree : AvlTree T) (node : NodeId) : Option (AvlTree T) := tree.rotate .right node

/-- One round of the loop of `balance` after `update_meta`. -/
def balanceNode (tree : AvlTree T) (node : NodeId) : Option (AvlTree T) := do
  let balanceFactor ← tree.getBalanceFactor node
  if balanceFactor < -1 then
    let right ← (← tree.load node).right
    let rightBalanceFactor ← tree.getBalanceFactor right
    if rightBalanceFactor = -1 ∨ rightBalanceFactor = 0 then
      tree.leftRotate node
    else
      let tree ← tree.rightRotate right
      tree.leftRotate node
  else if balanceFactor > 1 then
    let left ← (← tree.load node).left
    let leftBalanceFactor ← tree.getBalanceFactor left
    if leftBalanceFactor = 0 ∨ leftBalanceFactor = 1 then
      tree.rightRotate node
    else
      let tree ← tree.leftRotate left
      tree.rightRotate node
  else
    some tree

/-- The parent to go on with is read before the rotations. -/
def balance : Nat → AvlTree T → Option NodeId → Option (AvlTree T)
  | _, tree, none => some tree
  | 0, _, some _ => none
  | fuel + 1, tree, some node => do
      let tree ← tree.updateMeta node
      let parent := (← tree.load node).parent
      let tree ← tree.balanceNode node
      balance fuel tree parent

section Compare

variable {K : Type} [LinearOrder K] (key : T → K)

/-- The node to attach a new value to, and the side. -/
def insertPoint (tree : AvlTree T) (value : T) : Nat → NodeId → Option (NodeId × Side)
  | 0, _ => none
  | fuel + 1, cur => do
      let n ← tree.load cur
      if key value > key n.value then
        match n.right with
        | some right => insertPoint tree value fuel right
        | none => some (cur, .right)
      else
        match n.left with
        | some left => insertPoint tree value fuel left
        | none => some (cur, .left)

def insert (tree : AvlTree T) (value : T) : Option (AvlTree T) :=
  match tree.root with
  | none =>
      some {
        heap := tree.heap.alloc ⟨value, none, none, none, 1, 1⟩
        root := some tree.heap.next
        numNodes := tree.numNodes + 1 }
  | some root => do
      let (cur, d) ← insertPoint key tree value tree.heap.next root
      let new := tree.heap.next
      let tree := { tree with heap := tree.heap.alloc ⟨value, none, none, some cur, 1, 1⟩ }
      let tree ← tree.modify cur (.setChild d (some new))
      let tree := { tree with numNodes := tree.numNodes + 1 }
      balance tree.heap.next tree (some cur)

/-- The search of `remove`: `some none` when no node compares equal. -/
def search (tree : AvlTree T) (value : T) : Nat → Option NodeId → Option (Option NodeId)
  | _, none => some none
  | 0, some _ => none
  | fuel + 1, some cur => do
      let n ← tree.load cur
      if key value = key n.value then
        some (some cur)
      else if key value < key n.value then
        search tree value fuel n.left
      else
        search tree value fuel n.right

/-- Follow the links on side `d` to the last node. -/
def lastOn (tree : AvlTree T) (d : Side) : Nat → NodeId → Option NodeId
  | 0, _ => none
  | fuel + 1, cur => do
      match (← tree.load cur).child d with
      | some next => lastOn tree d fuel next
      | none => some cur

/-- The part of `remove` after the search and the swap: `cur` has at most one
child, which takes its place. -/
def unlink (tree : AvlTree T) (cur : NodeId) : Option (AvlTree T) := do
  let n ← tree.load cur
  let newSubtreeRoot := if n.left.isSome then n.left else n.right
  let tree ← tree.replaceChild n.parent cur newSubtreeRoot
  let tree ← tree.setParent newSubtreeRoot n.parent
  let tree := { tree with numNodes := tree.numNodes - 1 }
  balance tree.heap.next tree n.parent

def remove (tree : AvlTree T) (value : T) : Option (AvlTree T) := do
  match ← search key tree value tree.heap.next tree.root with
  | none => some tree
  | some cur =>
      match (← tree.load cur).left, (← tree.load cur).right with
      | some left, some _ =>
          let precedent ← tree.lastOn .right tree.heap.next left
          let tree ← tree.swapNode cur precedent
          tree.unlink precedent
      | _, _ => tree.unlink cur

/-- The number of nodes in the left subtree of `n` and `n` itself. -/
def countLeft (tree : AvlTree T) (n : AvlTreeNode T) : Option Int :=
  (tree.fieldOr0 (·.numNodes) n.left).map (1 + ·)

def countLessFrom (tree : AvlTree T) (value : T) (withEqual : Bool) :
    Nat → Option NodeId → Int → Option Int
  | _, none, counter => some counter
  | 0, some _, _ => none
  | fuel + 1, some cur, counter => do
      let n ← tree.load cur
      if key value = key n.value then
        if withEqual then
          some (counter + (← tree.countLeft n))
        else
          countLessFrom tree value withEqual fuel n.left counter
      else if key value > key n.value then
        countLessFrom tree value withEqual fuel n.right (counter + (← tree.countLeft n))
      else
        countLessFrom tree value withEqual fuel n.left counter

def countLess (tree : AvlTree T) (value : T) (withEqual : Bool) : Option Int :=
  countLessFrom key tree value withEqual tree.heap.next tree.root 0

def countGreater (tree : AvlTree T) (value : T) (withEqual : Bool) : Option Int :=
  (countLess key tree value !withEqual).map (tree.numNodes - ·)

/-- A call that changes the tree. -/
inductive Op (T : Type) where
  | insert (value : T)
  | remove (value : T)
deriving DecidableEq, Repr

def apply (tree : AvlTree T) : Op T → Option (AvlTree T)
  | .insert value => insert key tree value
  | .remove value => remove key tree value

/-- A sequence of calls on a new tree. -/
def run (ops : List (Op T)) : Option (AvlTree T) := ops.foldlM (apply key) empty

end Compare

def size (tree : AvlTree T) : Int := tree.numNodes

/-! ## Iterators -/

structure Iterator where
  root : Option NodeId
  curNode : Option NodeId
  nextNode : Option NodeId
deriving DecidableEq, Repr

namespace Iterator

/-- The way up of `find_next`, while coming from a right child. -/
def ascend (tree : AvlTree T) : Nat → NodeId → Option NodeId → Option (Option NodeId)
  | _, _, none => some none
  | 0, _, some _ => none
  | fuel + 1, prev, some next => do
      let n ← tree.load next
      if n.right = some prev then
        ascend tree fuel next n.parent
      else
        some (some next)

def findNext (tree : AvlTree T) (it : Iterator) : Option Iterator :=
  match it.curNode with
  | none => some { it with nextNode := none }
  | some cur => do
      let n ← tree.load cur
      match n.right with
      | some right =>
          let next ← tree.lastOn .left tree.heap.next right
          some { it with nextNode := some next }
      | none =>
          let next ← ascend tree tree.heap.next cur n.parent
          some { it with nextNode := next }

/-- The constructor and `init`. -/
def new (tree : AvlTree T) : Option Iterator :=
  match tree.root with
  | none => some ⟨none, none, none⟩
  | some root => do
      let cur ← tree.lastOn .left tree.heap.next root
      findNext tree ⟨some root, some cur, none⟩

/-- `operator*`. -/
def deref (tree : AvlTree T) (it : Iterator) : Option T := do
  let cur ← it.curNode
  let n ← tree.load cur
  some n.value

/-- `operator++`. -/
def advance (tree : AvlTree T) (it : Iterator) : Option Iterator :=
  findNext tree { it with curNode := it.nextNode }

/-- `operator bool`. -/
def valid (it : Iterator) : Bool := it.curNode.isSome

end Iterator

/-- What `for (iterator it(tree); it; ++it)` visits. -/
def visit (tree : AvlTree T) : Nat → Iterator → Option (List T)
  | fuel, it =>
      if it.valid then
        match fuel with
        | 0 => none
        | fuel + 1 => do
            let value ← it.deref tree
            let it ← it.advance tree
            let rest ← visit tree fuel it
            some (value :: rest)
      else
        some []

def elements (tree : AvlTree T) : Option (List T) := do
  let it ← Iterator.new tree
  visit tree tree.heap.next it

end AvlTree

end Memtrade
