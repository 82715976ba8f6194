import Webcamd.Library.Machine

/-!
# The radix tree

A model of `kernel/linux_radix.c` on an explicit heap: nodes are allocated records,
slots hold addresses, and every access through a pointer that does not lead to an
allocated node has no result (`none`).  So has reading a slot as a node when it holds
an item, or the other way round, reading `temp` or `stack` where nothing was written,
freeing twice, and the shift in `radix_max` when it is not less than the width of an
`unsigned long`.  That an operation *has* a result is therefore part of what is proved
about it.

`malloc` is an adversary.  Each call of an operation comes with a list of answers; an
answer is `NULL`, or an address that is then used if it is free.  Running out of
answers is `NULL` as well.

`radix_tree_insert` and `radix_tree_store` share their text up to the last step, in
which the leaf node is at hand: `radixTreeReach` is that common part.
-/

namespace Webcamd.Kernel

open Webcamd.Library

/-- `RADIX_TREE_MAP_SHIFT` -/
def radixTreeMapShift : ℕ := 6

/-- `RADIX_TREE_MAX_HEIGHT`: `howmany(sizeof(long) * 8, RADIX_TREE_MAP_SHIFT)`. -/
def radixTreeMaxHeight : ℕ := (8 * 8 + (radixTreeMapShift - 1)) / radixTreeMapShift

/-- What a slot holds.  An item is a pointer that is not `NULL`. -/
inductive Slot (V : Type) where
  | null
  | node (addr : ℕ)
  | item (value : V)
  deriving DecidableEq

/-- `struct radix_tree_node` -/
@[ext]
structure RadixTreeNode (V : Type) where
  slots : Fin 64 → Slot V
  count : ℤ

/-- The nodes that are allocated. -/
abbrev RadixHeap (V : Type) := ℕ → Option (RadixTreeNode V)

/-- `struct radix_tree_root`, with the heap its nodes are in. -/
structure RadixTreeRoot (V : Type) where
  heap : RadixHeap V
  rnode : Option ℕ
  height : ℕ

/-- The values the operations return. -/
inductive RadixStatus where
  | ok
  | einval
  | eexist
  | enomem
  | e2big
  deriving DecidableEq

/-- What `malloc` answers, call after call. -/
abbrev MallocAnswers := List (Option ℕ)

variable {V : Type}

/-- A node after `memset(node, 0, sizeof(*node))`. -/
def zeroedNode : RadixTreeNode V := ⟨fun _ => .null, 0⟩

/-- A node pointer in a slot. -/
def Slot.ofPointer : Option ℕ → Slot V
  | none => .null
  | some addr => .node addr

/-- `INIT_RADIX_TREE`, with nothing allocated. -/
def RadixTreeRoot.init : RadixTreeRoot V := ⟨fun _ => none, none, 0⟩

def malloc (heap : RadixHeap V) : MallocAnswers → Option ℕ × MallocAnswers
  | [] => (none, [])
  | none :: rest => (none, rest)
  | some addr :: rest => if (heap addr).isNone then (some addr, rest) else (none, rest)

def free (heap : RadixHeap V) (addr : ℕ) : Option (RadixHeap V) :=
  if (heap addr).isSome then some (Function.update heap addr none) else none

/-! ### Positions -/

/-- `radix_max` -/
def radixMax (height : ℕ) : Option (BitVec 64) :=
  if height * radixTreeMapShift < 64 then
    some (1#64 <<< (height * radixTreeMapShift) - 1#64)
  else none

/-- `radix_pos`: the shift is that of a `long`. -/
def radixPos (id : BitVec 64) (height : ℕ) : Fin 64 :=
  Fin.ofNat 64 (id.sshiftRight (radixTreeMapShift * height) &&& 63#64).toNat

/-- `radix_tree_clean_root_node` -/
def radixTreeCleanRootNode (root : RadixTreeRoot V) : Option (RadixTreeRoot V) :=
  root.rnode.bind fun addr => (root.heap addr).bind fun node =>
    if node.count = 0 then
      (free root.heap addr).map fun heap => { heap := heap, rnode := none, height := 0 }
    else some root

/-! ### Lookup -/

/-- `while (height && node) node = node->slots[radix_pos(index, height--)];` -/
def lookupWalk (heap : RadixHeap V) (index : BitVec 64) :
    (height : ℕ) → (node : Option ℕ) → Option (Option ℕ)
  | _, none => some none
  | 0, some addr => some (some addr)
  | height + 1, some addr => (heap addr).bind fun node =>
      match node.slots (radixPos index (height + 1)) with
      | .null => some none
      | .node child => lookupWalk heap index height (some child)
      | .item _ => none

/-- Read a slot as an item. -/
def Slot.toItem : Slot V → Option (Option V)
  | .null => some none
  | .item value => some (some value)
  | .node _ => none

/-- `radix_tree_lookup`.  With height zero the loop counts down from `-1`, and only ends
because there is no node. -/
def radixTreeLookup (root : RadixTreeRoot V) (index : BitVec 64) : Option (Option V) :=
  (radixMax root.height).bind fun max =>
    if index > max then some none
    else
      match root.height, root.rnode with
      | 0, none => some none
      | 0, some _ => none
      | height + 1, rnode => (lookupWalk root.heap index height rnode).bind fun node =>
          match node with
          | none => some none
          | some addr => (root.heap addr).bind fun node =>
              (node.slots (radixPos index 0)).toItem

/-! ### Deletion -/

/-- The walk of `radix_tree_delete`.  `stack` holds the nodes passed, the last one
first: its head is `stack[height + 1]`. -/
def deleteWalk (heap : RadixHeap V) (index : BitVec 64) :
    (height : ℕ) → (node : Option ℕ) → (stack : List ℕ) → Option (Option ℕ × List ℕ)
  | _, none, stack => some (none, stack)
  | 0, some addr, stack => some (some addr, stack)
  | height + 1, some addr, stack => (heap addr).bind fun node =>
      match node.slots (radixPos index (height + 1)) with
      | .null => some (none, addr :: stack)
      | .node child => deleteWalk heap index height (some child) (addr :: stack)
      | .item _ => none

/-- One round of the loop of `radix_tree_delete`, at one node: the tree afterwards, and
whether the loop goes on to the node above. -/
def unwindRound (index : BitVec 64) (height addr : ℕ) (root : RadixTreeRoot V) :
    Option (RadixTreeRoot V × Bool) :=
  (root.heap addr).bind fun node =>
    let emptied : RadixTreeNode V :=
      ⟨Function.update node.slots (radixPos index height) .null, node.count - 1⟩
    let heap := Function.update root.heap addr (some emptied)
    if emptied.count > 0 then some ({ root with heap := heap }, false)
    else (free heap addr).map fun heap =>
      if root.rnode = some addr then ({ heap := heap, rnode := none, height := 0 }, false)
      else ({ root with heap := heap }, true)

/-- The loop that takes the item out and frees the nodes that become empty, from the
leaf upwards; the node above is taken from the stack. -/
def deleteUnwind (index : BitVec 64) :
    (stack : List ℕ) → (height addr : ℕ) → RadixTreeRoot V → Option (RadixTreeRoot V)
  | [], height, addr, root => (unwindRound index height addr root).bind fun next =>
      if next.2 then none else some next.1
  | parent :: rest, height, addr, root =>
      (unwindRound index height addr root).bind fun next =>
        if next.2 then deleteUnwind index rest (height + 1) parent next.1 else some next.1

/-- `radix_tree_delete` -/
def radixTreeDelete (root : RadixTreeRoot V) (index : BitVec 64) :
    Option (Option V × RadixTreeRoot V) :=
  (radixMax root.height).bind fun max =>
    if index > max then some (none, root)
    else
      match root.height, root.rnode with
      | 0, none => some (none, root)
      | 0, some _ => none
      | height + 1, rnode => (deleteWalk root.heap index height rnode []).bind fun walked =>
          match walked.1 with
          | none => some (none, root)
          | some addr => (root.heap addr).bind fun node =>
              (node.slots (radixPos index 0)).toItem.bind fun item =>
                match item with
                | none => some (none, root)
                | some value => (deleteUnwind index walked.2 0 addr root).map fun root =>
                    (some value, root)

/-! ### The common part of insertion and storing -/

/-- How the expansion of the tree ends. -/
inductive Expansion (V : Type) where
  | failed (status : RadixStatus) (root : RadixTreeRoot V)
  | expanded (node : ℕ) (root : RadixTreeRoot V) (answers : MallocAnswers)

/-- *expand radix tree as needed*; `fuel` bounds the number of rounds, which the height
does in the code. -/
def expand (index : BitVec 64) :
    (fuel node : ℕ) → RadixTreeRoot V → MallocAnswers → Option (Expansion V)
  | 0, _, _, _ => none
  | fuel + 1, node, root, answers => (radixMax root.height).bind fun max =>
      if max < index then
        if root.height = radixTreeMaxHeight then
          (radixTreeCleanRootNode root).map fun root => .failed .e2big root
        else (root.heap node).bind fun record =>
          if record.count ≠ 0 then
            match malloc root.heap answers with
            | (none, _) => some (.failed .enomem root)
            | (some fresh, rest) =>
                expand index fuel fresh
                  { heap := Function.update root.heap fresh (some
                      ⟨Function.update zeroedNode.slots 0 (Slot.ofPointer root.rnode), 1⟩)
                    rnode := some fresh
                    height := root.height + 1 } rest
          else expand index fuel node { root with height := root.height + 1 } answers
      else some (.expanded node root answers)

/-- *walk down the tree until the first missing node, if any* -/
def walkDown (heap : RadixHeap V) (index : BitVec 64) :
    (height node : ℕ) → Option (ℕ × ℕ)
  | 0, node => some (node, 0)
  | height + 1, node => (heap node).bind fun record =>
      match record.slots (radixPos index (height + 1)) with
      | .null => some (node, height + 1)
      | .node child => walkDown heap index height child
      | .item _ => none

/-- `while (idx--) free(temp[idx]);`, with `temp[idx - 1]` at the head of the list. -/
def freeLevels : (temp : List ℕ) → RadixHeap V → Option (RadixHeap V)
  | [], heap => some heap
  | addr :: rest, heap => (free heap addr).bind (freeLevels rest)

/-- *allocate the missing radix levels, if any*: the new nodes, the last one first, or
what is left when `malloc` fails. -/
def allocLevels : (missing : ℕ) → (temp : List ℕ) → RadixHeap V → MallocAnswers →
    Option (Option (List ℕ) × RadixHeap V)
  | 0, temp, heap, _ => some (some temp, heap)
  | missing + 1, temp, heap, answers =>
      match malloc heap answers with
      | (none, _) => (freeLevels temp heap).map fun heap => (none, heap)
      | (some addr, rest) => allocLevels missing (addr :: temp)
          (Function.update heap addr (some zeroedNode)) rest

/-- *setup new radix levels, if any*; the result is the leaf node. -/
def setupLevels (index : BitVec 64) :
    (height : ℕ) → (temp : List ℕ) → (node : ℕ) → RadixHeap V → Option (ℕ × RadixHeap V)
  | 0, _, node, heap => some (node, heap)
  | _ + 1, [], _, _ => none
  | height + 1, fresh :: rest, node, heap => (heap node).bind fun record =>
      setupLevels index height rest fresh (Function.update heap node (some
        ⟨Function.update record.slots (radixPos index (height + 1)) (.node fresh),
          record.count + 1⟩))

/-- How the common part ends: with an error, or at the leaf node. -/
inductive Reached (V : Type) where
  | failed (status : RadixStatus) (root : RadixTreeRoot V)
  | leaf (node : ℕ) (root : RadixTreeRoot V)

/-- From the expanded tree to the leaf. -/
def reachLeaf (index : BitVec 64) (node : ℕ) (root : RadixTreeRoot V)
    (answers : MallocAnswers) : Option (Reached V) :=
  (walkDown root.heap index (root.height - 1) node).bind fun stop =>
    (allocLevels stop.2 [] root.heap answers).bind fun alloc =>
      match alloc with
      | (none, heap) => (radixTreeCleanRootNode { root with heap := heap }).map fun root =>
          .failed .enomem root
      | (some temp, heap) => (setupLevels index stop.2 temp stop.1 heap).map fun leaf =>
          .leaf leaf.1 { root with heap := leaf.2 }

/-- From a tree that has a root node to the leaf. -/
def expandAndReach (index : BitVec 64) (node : ℕ) (root : RadixTreeRoot V)
    (answers : MallocAnswers) : Option (Reached V) :=
  (expand index (radixTreeMaxHeight + 1) node root answers).bind fun expansion =>
    match expansion with
    | .failed status root => some (.failed status root)
    | .expanded node root answers => reachLeaf index node root answers

/-- The part that `radix_tree_insert` and `radix_tree_store` have in common: *get root
node, if any*, *allocate root node, if any*, and so on down to the leaf. -/
def radixTreeReach (root : RadixTreeRoot V) (index : BitVec 64) (answers : MallocAnswers) :
    Option (Reached V) :=
  match root.rnode with
  | some node => expandAndReach index node root answers
  | none =>
      match malloc root.heap answers with
      | (none, _) => some (.failed .enomem root)
      | (some node, rest) => expandAndReach index node
          { heap := Function.update root.heap node (some zeroedNode)
            rnode := some node
            height := root.height + 1 } rest

/-! ### Insertion and storing -/

/-- `radix_tree_insert` -/
def radixTreeInsert (root : RadixTreeRoot V) (index : BitVec 64) (item : Option V)
    (answers : MallocAnswers) : Option (RadixStatus × RadixTreeRoot V) :=
  match item with
  | none => some (.einval, root)
  | some value => (radixTreeReach root index answers).bind fun reached =>
      match reached with
      | .failed status root => some (status, root)
      | .leaf node root => (root.heap node).bind fun record =>
          match record.slots (radixPos index 0) with
          | .null => some (.ok, { root with
              heap := Function.update root.heap node (some
                ⟨Function.update record.slots (radixPos index 0) (.item value),
                  record.count + 1⟩) })
          | _ => some (.eexist, root)

/-- `radix_tree_store`: the status, what `*ppitem` is afterwards, and the tree. -/
def radixTreeStore (root : RadixTreeRoot V) (index : BitVec 64) (item : Option V)
    (answers : MallocAnswers) : Option (RadixStatus × Option V × RadixTreeRoot V) :=
  match item with
  | none => (radixTreeDelete root index).map fun deleted => (.ok, deleted.1, deleted.2)
  | some value => (radixTreeReach root index answers).bind fun reached =>
      match reached with
      | .failed status root => some (status, some value, root)
      | .leaf node root => (root.heap node).bind fun record =>
          (record.slots (radixPos index 0)).toItem.map fun pitem =>
            (.ok, pitem, { root with
              heap := Function.update root.heap node (some
                ⟨Function.update record.slots (radixPos index 0) (.item value),
                  if pitem.isNone then record.count + 1 else record.count⟩) })

/-! ### Sequences of calls -/

/-- A call, with the answers `malloc` gives during it. -/
inductive RadixCall (V : Type) where
  | insert (index : BitVec 64) (item : Option V) (answers : MallocAnswers)
  | store (index : BitVec 64) (item : Option V) (answers : MallocAnswers)
  | delete (index : BitVec 64)

def RadixCall.index : RadixCall V → BitVec 64
  | .insert index _ _ => index
  | .store index _ _ => index
  | .delete index => index

/-- What a call gives back. -/
inductive RadixReturn (V : Type) where
  | inserted (status : RadixStatus)
  | stored (status : RadixStatus) (item : Option V)
  | deleted (item : Option V)
  deriving DecidableEq

/-- The tree as a machine that executes calls. -/
def radixMachine (V : Type) : Machine (RadixTreeRoot V) (RadixCall V) (RadixReturn V) where
  step root
    | .insert index item answers => (radixTreeInsert root index item answers).map fun result =>
        (result.2, [.inserted result.1])
    | .store index item answers => (radixTreeStore root index item answers).map fun result =>
        (result.2.2, [.stored result.1 result.2.1])
    | .delete index => (radixTreeDelete root index).map fun result =>
        (result.2, [.deleted result.1])

end Webcamd.Kernel
