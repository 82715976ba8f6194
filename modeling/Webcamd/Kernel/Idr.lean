import Webcamd.Kernel.Bitmap

/-!
# The id allocator

`kernel/linux_idr.c`: ids are handed out from a tree of layers with 256 slots each.  A bitmap in
every layer says which of its slots are full, that is which ids of a leaf are given out, and
which subtrees of another layer have no id left.

* `Layer`, `Slot` — a layer apart from its slots, and what a slot points to.  The tree is a value:
  a slot holds the layer below it, and every layer has its address.
* `Frame` — a layer on the path from the top, with the slot that the path takes.  What the source
  keeps in `pa[]` is the list of them, the nearest first; `plugAll` is the tree around a layer.
* `subAlloc`, `idrGetEmptySlot`, `idrAlloc` — the search for a free id, with the growth of the
  tree.
* `subRemove`, `idrRemove`, `idrRemoveAll`, `idrDestroy` — what takes layers out of the tree;
  the second component is the list of those that are passed to `free_layer`, in this order.

Ids are `int`s.  The model has natural numbers for them; `INT_MIN`, the only negative value that
the code computes, has the same bits as `2 ^ 31` and is written so.

An operation that allocates gets the outcomes of the calls of `kmem_cache_zalloc`, and the
address of the next layer.  Loops get a number of rounds, and have no result if that is too small.
-/

namespace Webcamd.Kernel.IdrTree

open Bitmap

/-- `IDR_BITS` -/
def idrBits : ℕ := 8

/-- `IDR_SIZE` -/
def idrSize : ℕ := 1 <<< idrBits

/-- `IDR_MASK` -/
def idrMask : ℕ := 1 <<< idrBits - 1

/-- `MAX_IDR_SHIFT` -/
def maxIdrShift : ℕ := 31

/-- `MAX_IDR_BIT` -/
def maxIdrBit : ℕ := 1 <<< maxIdrShift

/-- `idr_max` -/
def idrMax (layers : ℕ) : ℕ := 1 <<< min (layers * idrBits) maxIdrShift - 1

/-- `id > idr_max(layers)`, in which an id from `2 ^ 31` on is negative. -/
def above (id layers : ℕ) : Bool := id < maxIdrBit && idrMax layers < id

/-- `(id >> (IDR_BITS * l)) & IDR_MASK` -/
def digit (l id : ℕ) : ℕ := id >>> (idrBits * l) &&& idrMask

/-- `struct idr_layer`, with its address and without its slots. -/
structure Layer where
  addr : ℕ
  /-- `prefix` -/
  idPrefix : BitVec 32
  layer : ℕ
  count : ℤ
  bitmap : Words

/-- What an element of `ary` points to: a layer, or in a leaf what the user has given. -/
inductive Slot (P : Type) where
  | null
  | ptr (value : P)
  | layer (node : Layer) (ary : ℕ → Slot P)

/-- `struct idr` -/
structure Idr (P : Type) where
  hint : Option ℕ
  top : Slot P
  layers : ℕ
  /-- `id_free`, of which `id_free_cnt` is the length -/
  idFree : List Layer

/-- A layer with the element of its `ary` that the path goes through. -/
structure Frame (P : Type) where
  node : Layer
  ary : ℕ → Slot P
  m : ℕ

/-- What `kmem_cache_zalloc` will return, and the address of the next layer. -/
structure Memory where
  outcomes : List Bool
  fresh : ℕ

inductive Error where
  | einval
  | enospc
  | enomem
  deriving DecidableEq

variable {P : Type}

/-- `idr_init` -/
def idrInit : Idr P where
  hint := none
  top := .null
  layers := 0
  idFree := []

def Slot.ofPointer : Option P → Slot P
  | none => .null
  | some value => .ptr value

def Slot.isNull : Slot P → Bool
  | .null => true
  | _ => false

/-- The layer of the frame, with the child in its slot. -/
def Frame.plug (frame : Frame P) (child : Slot P) : Slot P :=
  .layer frame.node (Function.update frame.ary frame.m child)

/-- The whole tree. -/
def plugAll : Slot P → List (Frame P) → Slot P
  | p, [] => p
  | p, frame :: rest => plugAll (frame.plug p) rest

/-! ### Allocation -/

/-- `idr_layer_prefix_mask` applied to an id -/
def layerPrefix (id layer : ℕ) : BitVec 32 :=
  BitVec.ofNat 32 id &&& ~~~BitVec.ofNat 32 (idrMax (layer + 1))

/-- A layer from `kmem_cache_zalloc`. -/
def Layer.zeroed (addr : ℕ) : Layer where
  addr := addr
  idPrefix := 0
  layer := 0
  count := 0
  bitmap := fun _ => 0

/-- `idr_layer_alloc` without a free list: an outcome stands for all three attempts. -/
def idrLayerAlloc (memory : Memory) : Option Layer × Memory :=
  match memory.outcomes with
  | true :: rest => (some (.zeroed memory.fresh), ⟨rest, memory.fresh + 1⟩)
  | false :: rest => (none, ⟨rest, memory.fresh⟩)
  | [] => (none, memory)

/-- What `sub_alloc` ends with. -/
inductive SubAlloc (P : Type) where
  /-- An id that is free, the leaf it is in (`pa[0]`) and the layers above. -/
  | found (leaf : Layer) (ary : ℕ → Slot P) (pa : List (Frame P)) (id : ℕ) (memory : Memory)
  /-- `-EAGAIN`, with the id to start from. -/
  | again (top : Slot P) (id : ℕ) (memory : Memory)
  | failed (top : Slot P) (error : Error) (memory : Memory)

/-- The loop of `sub_alloc`, at the layer `p` of level `l`. -/
def subAllocLoop (layers : ℕ) :
    ℕ → Slot P → List (Frame P) → (l id : ℕ) → Memory → Option (SubAlloc P)
  | 0, _, _, _, _, _ => none
  | rounds + 1, .layer node ary, pa, l, id, memory =>
      let n := digit l id
      let m := findNextZeroBit node.bitmap idrSize n
      if m = idrSize then
        -- no space available: back to the previous layer
        let oid := id
        let id := (id ||| (1 <<< (idrBits * (l + 1)) - 1)) + 1
        if above id layers then some (.again (plugAll (.layer node ary) pa) id memory)
        else
          match pa with
          | [] => none -- `BUG_ON(!p)`
          | frame :: rest =>
              let sh := idrBits * (l + 1 + 1)
              if oid >>> sh = id >>> sh then
                subAllocLoop layers rounds (frame.plug (.layer node ary)) rest (l + 1) id memory
              else
                subAllocLoop layers rounds (plugAll (.layer node ary) pa) [] (layers - 1) id memory
      else
        let sh := idrBits * l
        let id := if m ≠ n then ((id >>> sh) ^^^ n ^^^ m) <<< sh else id
        if maxIdrBit ≤ id then some (.failed (plugAll (.layer node ary) pa) .enospc memory)
        else
          match l with
          | 0 => some (.found node ary pa id memory)
          | l + 1 =>
              match ary m with
              | .null =>
                  match idrLayerAlloc memory with
                  | (none, memory) =>
                      some (.failed (plugAll (.layer node ary) pa) .enomem memory)
                  | (some new, memory) =>
                      let new := { new with layer := l, idPrefix := layerPrefix id l }
                      let node := { node with count := node.count + 1 }
                      subAllocLoop layers rounds (.layer new fun _ => .null)
                        (⟨node, ary, m⟩ :: pa) l id memory
              | child => subAllocLoop layers rounds child (⟨node, ary, m⟩ :: pa) l id memory
  | _ + 1, _, _, _, _, _ => none -- `p` is not a layer

/-- `sub_alloc` -/
def subAlloc (rounds : ℕ) (idr : Idr P) (startingId : ℕ) (memory : Memory) :
    Option (SubAlloc P) :=
  subAllocLoop idr.layers rounds idr.top [] (idr.layers - 1) startingId memory

/-- What the loop ends with that adds layers on top. -/
inductive BuildUp (P : Type) where
  | built (top : Layer) (ary : ℕ → Slot P) (layers : ℕ) (memory : Memory)
  /-- An allocation failed, and what had been built is on the free list. -/
  | torn (idFree : List Layer) (memory : Memory)

/-- A pointer to a layer as such. -/
def Slot.addr : Slot P → Option ℕ
  | .layer node _ => some node.addr
  | _ => none

/-- `for (new = p; p && p != idp->top; new = p)` -/
def tearDown (top : Option ℕ) : Slot P → List Layer → List Layer
  | .layer node ary, idFree =>
      if some node.addr = top then idFree
      else
        tearDown top (ary 0)
          ({ node with count := 0, bitmap := bitmapClear node.bitmap 0 idrSize } :: idFree)
  | _, idFree => idFree

/-- A new layer that gets the old top `p` as its leftmost child. -/
def Layer.onTop (new p : Layer) (id layer : ℕ) : Layer :=
  { new with
    count := 1
    layer := layer
    idPrefix := layerPrefix id layer
    bitmap := if bitmapFull p.bitmap idrSize then setBit 0 new.bitmap else new.bitmap }

/-- `while (id > idr_max(layers))` -/
def buildUpLoop (idr : Idr P) (id : ℕ) :
    ℕ → Layer → (ℕ → Slot P) → (layers : ℕ) → Memory → Option (BuildUp P)
  | 0, _, _, _, _ => none
  | rounds + 1, p, ary, layers, memory =>
      if above id layers then
        if p.count = 0 then
          -- the tree is empty: the top node moves upwards
          buildUpLoop idr id rounds { p with layer := p.layer + 1 } ary (layers + 1) memory
        else
          match idrLayerAlloc memory with
          | (none, memory) =>
              some (.torn (tearDown idr.top.addr (.layer p ary) idr.idFree) memory)
          | (some new, memory) =>
              buildUpLoop idr id rounds (new.onTop p id layers)
                (Function.update (fun _ => .null) 0 (.layer p ary)) (layers + 1) memory
      else some (.built p ary layers memory)

/-- What `idr_get_empty_slot` ends with. -/
inductive EmptySlot (P : Type) where
  | found (idr : Idr P) (leaf : Layer) (ary : ℕ → Slot P) (pa : List (Frame P)) (id : ℕ)
      (memory : Memory)
  | failed (idr : Idr P) (error : Error) (memory : Memory)

/-- From `build_up` on, once the layer at the top is at hand. -/
def emptySlotFrom (idr : Idr P) (id rounds : ℕ) (p : Layer) (ary : ℕ → Slot P) (layers : ℕ)
    (memory : Memory) (again : Idr P → ℕ → Memory → Option (EmptySlot P)) :
    Option (EmptySlot P) :=
  match buildUpLoop idr id rounds p ary layers memory with
  | none => none
  | some (.torn idFree memory) => some (.failed { idr with idFree := idFree } .enomem memory)
  | some (.built p ary layers memory) =>
      let idr := { idr with top := .layer p ary, layers := layers }
      match subAlloc rounds idr id memory with
      | none => none
      | some (.again top id memory) => again { idr with top := top } id memory
      | some (.failed top error memory) => some (.failed { idr with top := top } error memory)
      | some (.found leaf ary pa id memory) =>
          some (.found { idr with top := plugAll (.layer leaf ary) pa } leaf ary pa id memory)

/-- `idr_get_empty_slot`; the first number bounds the jumps to `build_up`. -/
def idrGetEmptySlot (rounds : ℕ) : ℕ → Idr P → (id : ℕ) → Memory → Option (EmptySlot P)
  | 0, _, _, _ => none
  | jumps + 1, idr, id, memory =>
      match idr.top with
      | .layer p ary =>
          emptySlotFrom idr id rounds p ary idr.layers memory (idrGetEmptySlot rounds jumps)
      | _ =>
          match idrLayerAlloc memory with
          | (none, memory) => some (.failed idr .enomem memory)
          | (some p, memory) =>
              emptySlotFrom idr id rounds { p with layer := 0 } (fun _ => .null) 1 memory
                (idrGetEmptySlot rounds jumps)

/-- `while (bitmap_full(p->bitmap, IDR_SIZE))` -/
def markFullLoop : Layer → (ℕ → Slot P) → List (Frame P) → (id : ℕ) → Slot P
  | p, ary, [], _ => .layer p ary
  | p, ary, frame :: rest, id =>
      if bitmapFull p.bitmap idrSize then
        let id := id >>> idrBits
        markFullLoop { frame.node with bitmap := setBit (id &&& idrMask) frame.node.bitmap }
          (Function.update frame.ary frame.m (.layer p ary)) rest id
      else plugAll (.layer p ary) (frame :: rest)

/-- `idr_mark_full` -/
def idrMarkFull (p : Layer) (ary : ℕ → Slot P) (pa : List (Frame P)) (id : ℕ) : Slot P :=
  markFullLoop { p with bitmap := setBit (id &&& idrMask) p.bitmap } ary pa id

/-- `idr_fill_slot` -/
def idrFillSlot (idr : Idr P) (value : Option P) (id : ℕ) (leaf : Layer) (ary : ℕ → Slot P)
    (pa : List (Frame P)) : Idr P :=
  { idr with
    hint := some leaf.addr
    top := idrMarkFull { leaf with count := leaf.count + 1 }
      (Function.update ary (id &&& idrMask) (Slot.ofPointer value)) pa id }

/-- `idr_alloc` -/
def idrAlloc (rounds : ℕ) (idr : Idr P) (value : Option P) (start limit : BitVec 32)
    (memory : Memory) : Option (Idr P × Memory × Except Error ℕ) :=
  let max : ℤ := if 0 < limit.toInt then limit.toInt - 1 else 2 ^ 31 - 1
  if start.toInt < 0 then some (idr, memory, .error .einval)
  else if max < start.toInt then some (idr, memory, .error .enospc)
  else
    match idrGetEmptySlot rounds rounds idr start.toNat memory with
    | none => none
    | some (.failed idr error memory) => some (idr, memory, .error error)
    | some (.found idr leaf ary pa id memory) =>
        if max < (id : ℤ) then some (idr, memory, .error .enospc)
        else some (idrFillSlot idr value id leaf ary pa, memory, .ok id)

/-! ### Removal -/

/-- `while ((shift > 0) && p)`: the layer it ends at, and those above with the bit cleared. -/
def removeDescend (id : ℕ) : (shift : ℕ) → Slot P → List (Frame P) → Slot P × List (Frame P)
  | shift + 1, .layer node ary, pa =>
      let n := digit (shift + 1) id
      removeDescend id shift (ary n)
        (⟨{ node with bitmap := clearBit n node.bitmap }, ary, n⟩ :: pa)
  | _, p, pa => (p, pa)

/-- `while(*paa && ! --((**paa)->count))`, at a layer whose slot has been cleared: the tree after
it, unless the top has gone as well, and the layers that it takes out. -/
def releaseLoop : Layer → (ℕ → Slot P) → List (Frame P) → (freed : List Layer) →
    Option (Slot P) × List Layer
  | p, ary, pa, freed =>
      let p := { p with count := p.count - 1 }
      if p.count = 0 then
        match pa with
        | [] => (none, freed ++ [p])
        | frame :: rest =>
            releaseLoop frame.node (Function.update frame.ary frame.m .null) rest (freed ++ [p])
      else (some (plugAll (.layer p ary) pa), freed)

/-- `sub_remove`; the shift is counted in layers. -/
def subRemove (idr : Idr P) (shift id : ℕ) : Idr P × List Layer :=
  match removeDescend id shift idr.top [] with
  | (.layer p ary, pa) =>
      let n := id &&& idrMask
      if testBit n p.bitmap then
        match releaseLoop { p with bitmap := clearBit n p.bitmap }
            (Function.update ary n .null) pa [] with
        | (some top, freed) => ({ idr with top := top }, freed)
        | (none, freed) => ({ idr with top := .null, layers := 0 }, freed)
      else ({ idr with top := plugAll (.layer p ary) pa }, [])
  | (p, pa) => ({ idr with top := plugAll p pa }, [])

/-- The last part of `idr_remove`: a tree whose top has the leftmost child only is shrunk. -/
def shrink (idr : Idr P) : Idr P × List Layer :=
  match idr.top with
  | .layer node ary =>
      if node.count = 1 ∧ 1 < idr.layers ∧ (ary 0).isNull = false then
        ({ idr with top := ary 0, layers := idr.layers - 1 },
          [{ node with count := 0, bitmap := bitmapClear node.bitmap 0 idrSize }])
      else (idr, [])
  | _ => (idr, [])

/-- `idr_remove` -/
def idrRemove (idr : Idr P) (id : BitVec 32) : Idr P × List Layer :=
  if id.toInt < 0 then (idr, [])
  else if above id.toNat idr.layers then (idr, [])
  else
    let (idr, removed) := subRemove idr (idr.layers - 1) id.toNat
    let (idr, shrunk) := shrink idr
    (idr, removed ++ shrunk)

/-- What `__idr_remove_all` has at the head of its loop; `n` is counted in layers. -/
structure Walk (P : Type) where
  id : ℕ
  n : ℕ
  /-- from `*paa` down to `pa[0]` -/
  pa : List (Slot P)
  freed : List Layer

/-- `while (n > IDR_BITS && p)` -/
def removeAllDescend (id : ℕ) : (n : ℕ) → List (Slot P) → ℕ × List (Slot P)
  | n + 2, .layer node ary :: pa =>
      removeAllDescend id (n + 1) (ary (digit (n + 1) id) :: .layer node ary :: pa)
  | n, pa => (n, pa)

/-- The layer that `free_layer` gets, if the pointer is not `NULL`. -/
def Slot.toFree : Slot P → List Layer
  | .layer node _ => [node]
  | _ => []

/-- `while (n < fls(id ^ bt_mask))` -/
def removeAllPop (last : ℕ) : (n : ℕ) → List (Slot P) → List Layer → ℕ × List (Slot P) × List Layer
  | n, [], freed => (n, [], freed)
  | n, p :: pa, freed =>
      if idrBits * n < last then removeAllPop last (n + 1) pa (freed ++ p.toFree)
      else (n, p :: pa, freed)

/-- One round of the loop of `__idr_remove_all`. -/
def Walk.round (walk : Walk P) : Walk P :=
  let (n, pa) := removeAllDescend walk.id walk.n walk.pa
  let btMask := walk.id
  let id := walk.id + 1 <<< (idrBits * n)
  let (n, pa, freed) :=
    removeAllPop (fls (BitVec.ofNat 32 id ^^^ BitVec.ofNat 32 btMask)) n pa walk.freed
  ⟨id, n, pa, freed⟩

/-- `while (id >= 0 && id <= max)`: every round adds to the id, so that one for each id is
enough. -/
def Walk.loop (max : ℕ) : ℕ → Walk P → Walk P
  | 0, walk => walk
  | rounds + 1, walk =>
      if walk.id < maxIdrBit ∧ walk.id ≤ max then Walk.loop max rounds walk.round else walk

/-- `__idr_remove_all` -/
def idrRemoveAll (idr : Idr P) : Idr P × List Layer :=
  let max := idrMax idr.layers
  let walk := Walk.loop max (max + 1) ⟨0, idr.layers, [idr.top], []⟩
  ({ idr with top := .null, layers := 0 }, walk.freed)

/-- `idr_destroy` -/
def idrDestroy (idr : Idr P) : Idr P × List Layer :=
  let (idr, freed) := idrRemoveAll idr
  ({ idr with idFree := [] }, freed)

end Webcamd.Kernel.IdrTree
