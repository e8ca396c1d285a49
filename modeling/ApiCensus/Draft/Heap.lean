/-
  Heaps that are being written.

  * `HeapDraft.add`: the index of a value, which is written unless it already is.
  * `HeapDraft.bytes`: the heap.

  A heap starts with a zero byte, so that index 0 is the empty value.
-/
import Std.Data.HashMap.Lemmas
import ApiCensus.Bytes.Compressed

namespace ApiCensus

/-- A kind of value that a heap holds. -/
class HeapValue (α : Type) where
  /-- The value needs no bytes of its own. -/
  isEmpty : α → Bool
  encode : α → List UInt8

/-- Text ends with a zero byte. -/
instance : HeapValue String where
  isEmpty text := text.isEmpty
  encode text := text.toUTF8.data.toList ++ [0]

/-- A byte string stands behind its length. -/
instance : HeapValue ByteArray where
  isEmpty data := data.isEmpty
  encode data := Compressed.encode data.size ++ data.data.toList

/-- A heap that is being written. -/
structure HeapDraft (α : Type) [BEq α] [Hashable α] where
  /-- The number of bytes. -/
  size : Nat := 1
  /-- The bytes of the values, in the order in which they were written. -/
  entries : Array (List UInt8) := #[]
  indexes : Std.HashMap α Nat := ∅

namespace HeapDraft

variable {α : Type} [BEq α] [Hashable α] [HeapValue α]

/-- The index of a value, which is written unless it already is. -/
def add (value : α) (heap : HeapDraft α) : Nat × HeapDraft α :=
  if HeapValue.isEmpty value then (0, heap)
  else
    match heap.indexes[value]? with
    | some index => (index, heap)
    | none =>
      let entry := HeapValue.encode value
      (heap.size,
        { size := heap.size + entry.length
          entries := heap.entries.push entry
          indexes := heap.indexes.insert value heap.size })

/-- The bytes of the heap. -/
def bytes (heap : HeapDraft α) : List UInt8 :=
  0 :: heap.entries.toList.flatten

/-- Two bytes are too few for an index. -/
def isLarge (heap : HeapDraft α) : Bool :=
  0xFFFF < heap.size

end HeapDraft

end ApiCensus
