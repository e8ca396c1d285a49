/-
  The heaps of metadata: text, byte strings and GUIDs, found by their index.

  * `Heap.text`: zero-terminated UTF-8.
  * `Heap.blob`: a compressed length and that many bytes.
  * `Heap.guid`: 16 bytes, counted from 1; `Guid.toString` is its text.
-/
import ApiCensus.Bytes.Compressed

namespace ApiCensus

/-- A 128-bit identifier, as the bytes of its stored form. -/
structure Guid where
  /-- The sixteen bytes. -/
  bytes : ByteArray

/-- The text of an identifier: the first three groups are stored with their least significant
    byte first. -/
protected def Guid.toString (guid : Guid) : String :=
  let group (start width : Nat) := Hex.ofNat (2 * width) (LittleEndian.valueAt guid.bytes start width)
  let plain (start stop : Nat) := Hex.ofBytes (guid.bytes.extract start stop)
  String.intercalate "-" [group 0 4, group 4 2, group 6 2, plain 8 10, plain 10 16]

instance : ToString Guid := ⟨Guid.toString⟩

namespace Heap

/-- The position of the first zero byte from `pos` on. -/
def terminator? (heap : ByteArray) (pos : Nat) : Option Nat :=
  if h : pos < heap.size then
    if heap[pos] = 0 then some pos else terminator? heap (pos + 1)
  else none
  termination_by heap.size - pos

/-- The text at an index of the string heap. Index 0 is the empty text. -/
def text (heap : ByteArray) (index : Nat) : Except Fault String :=
  if index = 0 then .ok ""
  else if heap.size < index then .error .outOfBounds
  else
    match terminator? heap index with
    | none => .error (.malformed (.heapString index))
    | some stop =>
      match Utf8.decode (heap.extract index stop) with
      | .ok text => .ok text
      | .error _ => .error (.malformed (.heapString index))

/-- The byte string at an index of the blob heap. Index 0 is the empty byte string. -/
def blob (heap : ByteArray) (index : Nat) : Except Fault ByteArray :=
  if index = 0 then .ok .empty
  else if heap.size < index then .error .outOfBounds
  else
    let read : Attempt Cursor ByteArray := do
      let length ← Compressed.number
      Cursor.take length
    read.result { data := heap, pos := index }

/-- The identifier at an index of the GUID heap. Its position `16 * (index - 1)` and the position
    behind it are words. -/
def guid (heap : ByteArray) (index : Nat) : Checked Guid :=
  if index = 0 then throw (.malformed .nullGuid)
  else do
    let start ← Checked.word ((index - 1) * 16)
    let stop ← Checked.word (start + 16)
    if stop ≤ heap.size then pure ⟨heap.extract start stop⟩ else throw .outOfBounds

end Heap

end ApiCensus
