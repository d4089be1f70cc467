import UniversalMachine.Program

/-!
The heap: blocks of words, named by indices.

Block 0 is the running program and is always live. The index of an abandoned block goes onto a stack
of free indices; an allocation takes the topmost of these, and only with an empty stack a new index.
A call gives its result and the heap as the call has left it, also where the result is an error.
-/

namespace UniversalMachine

abbrev Block := Array Word

inductive HeapError where
  | notLive (index : Word)
  | offsetOutOfBounds (index offset : Word) (size : Nat)
  | invalidReclaim (index : Word)
  | allocationTooLarge (requested limit : Word)
  | indicesExhausted
  | outOfMemory (requested : Word)
  deriving DecidableEq, Repr

def HeapError.message : HeapError → String
  | notLive index => "Array " ++ Digits.decimal index.toNat ++ " is not an active allocation"
  | offsetOutOfBounds index offset size =>
    "Offset " ++ Digits.decimal offset.toNat ++ " out of bounds for array " ++
      Digits.decimal index.toNat ++ " of " ++ Digits.decimal size ++ " words"
  | invalidReclaim index => "Cannot abandon array " ++ Digits.decimal index.toNat
  | allocationTooLarge requested limit =>
    "Allocation of " ++ Digits.decimal requested.toNat ++ " words exceeds the limit of " ++
      Digits.decimal limit.toNat
  | indicesExhausted => "Array index space exhausted"
  | outOfMemory requested => "Could not allocate " ++ Digits.decimal requested.toNat ++ " words"

/-- Counts of calls, and of the blocks that were live at once at most, block 0 included. -/
structure HeapStats where
  allocations : Nat
  reclamations : Nat
  peak : Nat
  loads : Nat
  deriving DecidableEq, Repr

/-- There is one slot for each index handed out so far, empty if the index is free. Free indices are
held with the last freed first. The host may run out of memory, which it does behind so many
allocations. -/
structure Heap where
  slots : Array (Option Block)
  free : List Word
  live : Nat
  limit : Word
  granted : Option Nat
  stats : HeapStats
  deriving DecidableEq, Repr

namespace Heap

def ofProgram (p : Program) (limit : Word) (granted : Option Nat := none) : Heap where
  slots := #[some p.toArray]
  free := []
  live := 1
  limit := limit
  granted := granted
  stats := ⟨0, 0, 1, 0⟩

def block? (h : Heap) (index : Word) : Option Block := (h.slots[index.toNat]?).join

def isLive (h : Heap) (index : Word) : Bool := (h.block? index).isSome

def program (h : Heap) : Block := (h.block? 0).getD #[]

def blockSize (h : Heap) (index : Word) : Except HeapError Nat :=
  match h.block? index with
  | none => .error (.notLive index)
  | some b => .ok b.size

def read (h : Heap) (index offset : Word) : Except HeapError Word :=
  match h.block? index with
  | none => .error (.notLive index)
  | some b =>
    match b[offset.toNat]? with
    | none => .error (.offsetOutOfBounds index offset b.size)
    | some w => .ok w

/-- Puts a word into a block; nothing happens where there is no such place. -/
def store (h : Heap) (index offset value : Word) : Heap :=
  { h with slots := h.slots.modify index.toNat (Option.map (·.setIfInBounds offset.toNat value)) }

@[inline] def write (h : Heap) (index offset value : Word) : Except HeapError Unit × Heap :=
  match h.read index offset with
  | .error e => (.error e, h)
  | .ok _ => (.ok (), h.store index offset value)

/-- Whether the host has memory for one more block. An empty block takes none. -/
def hasMemory (h : Heap) (size : Word) : Bool :=
  match h.granted with
  | none => true
  | some count => size = 0 || h.stats.allocations < count

def popFree (h : Heap) : Option Word × Heap := (h.free.head?, { h with free := h.free.tail })

def fillSlot (h : Heap) (index : Word) (block : Block) : Heap :=
  { h with slots := h.slots.setIfInBounds index.toNat (some block) }

def pushSlot (h : Heap) (block : Block) : Heap := { h with slots := h.slots.push (some block) }

def countAllocation (h : Heap) : Heap :=
  { h with
    live := h.live + 1
    stats := { h.stats with
      allocations := h.stats.allocations + 1
      peak := max h.stats.peak (h.live + 1) } }

/-- Makes a block of zeros and gives its index. The block is made before an index is looked for, and
only without a free index is there a check that new ones are left. -/
@[inline] def allocate (h : Heap) (size : Word) : Except HeapError Word × Heap :=
  if h.limit < size then (.error (.allocationTooLarge size h.limit), h)
  else if !h.hasMemory size then (.error (.outOfMemory size), h)
  else
    let block : Block := Array.replicate size.toNat 0
    match h.popFree with
    | (some index, popped) => (.ok index, (popped.fillSlot index block).countAllocation)
    | (none, popped) =>
      if UInt32.size ≤ popped.slots.size then (.error .indicesExhausted, popped)
      else (.ok (.ofNat popped.slots.size), (popped.pushSlot block).countAllocation)

def release (h : Heap) (index : Word) : Heap :=
  { h with
    slots := h.slots.setIfInBounds index.toNat none
    free := index :: h.free
    live := h.live - 1
    stats := { h.stats with reclamations := h.stats.reclamations + 1 } }

@[inline] def reclaim (h : Heap) (index : Word) : Except HeapError Unit × Heap :=
  if index = 0 then (.error (.invalidReclaim index), h)
  else if h.isLive index then (.ok (), h.release index)
  else (.error (.invalidReclaim index), h)

def setProgram (h : Heap) (block : Block) : Heap :=
  { h with
    slots := h.slots.setIfInBounds 0 (some block)
    stats := { h.stats with loads := h.stats.loads + 1 } }

/-- Replaces block 0 by a copy of a block. Block 0 replaces itself without being counted. -/
@[inline] def loadProgram (h : Heap) (index : Word) : Except HeapError Unit × Heap :=
  if index = 0 then (.ok (), h)
  else
    match h.block? index with
    | none => (.error (.notLive index), h)
    | some block => (.ok (), h.setProgram block)

end Heap

end UniversalMachine
