/-
  A position in a byte string, and the steps that read there.

  * `Cursor`: the data and the position.
  * `Cursor.rest`: the bytes from the position on, which every step is described by.
  * `Cursor.advance`, `seek`, `align`, `take`, `byte`, `number`: the steps. A step that
    fails leaves the cursor where it was.
-/
import ApiCensus.Bytes.LittleEndian
import ApiCensus.Fault

namespace ApiCensus

/-- A position in a byte string. -/
structure Cursor where
  data : ByteArray
  /-- The position of the next byte to read. -/
  pos : Nat := 0
  deriving Inhabited

namespace Cursor

/-- The bytes from the position on. -/
def rest (cursor : Cursor) : List UInt8 :=
  cursor.data.data.toList.drop cursor.pos

/-- The number of bytes from the position on. -/
def remaining (cursor : Cursor) : Nat :=
  cursor.data.size - cursor.pos

theorem length_rest (cursor : Cursor) : cursor.rest.length = cursor.remaining := by
  simp [rest, remaining]

/-- There are bytes left. -/
def hasMore (cursor : Cursor) : Bool :=
  cursor.pos < cursor.data.size

/-- Goes to a position, at most to the end. -/
def seek (pos : Nat) : Attempt Cursor Unit := fun cursor =>
  if pos ≤ cursor.data.size then (.ok (), { cursor with pos := pos })
  else (.error .outOfBounds, cursor)

/-- Passes over `count` bytes. -/
def advance (count : Nat) : Attempt Cursor Unit := fun cursor =>
  if cursor.pos + count ≤ cursor.data.size then
    (.ok (), { cursor with pos := cursor.pos + count })
  else (.error .outOfBounds, cursor)

/-- Passes over the bytes up to the next multiple of `unit`. -/
def align (unit : Nat) : Attempt Cursor Unit := fun cursor =>
  advance ((unit - cursor.pos % unit) % unit) cursor

/-- The next byte, which stays the next one. -/
def peek : Attempt Cursor UInt8 := fun cursor =>
  match cursor.data[cursor.pos]? with
  | some byte => (.ok byte, cursor)
  | none => (.error .outOfBounds, cursor)

/-- The next byte. -/
def byte : Attempt Cursor UInt8 := fun cursor =>
  match cursor.data[cursor.pos]? with
  | some byte => (.ok byte, { cursor with pos := cursor.pos + 1 })
  | none => (.error .outOfBounds, cursor)

/-- The next `count` bytes. -/
def take (count : Nat) : Attempt Cursor ByteArray := fun cursor =>
  if cursor.pos + count ≤ cursor.data.size then
    (.ok (cursor.data.extract cursor.pos (cursor.pos + count)),
      { cursor with pos := cursor.pos + count })
  else (.error .outOfBounds, cursor)

/-- The number in the next `width` bytes, least significant byte first. -/
def number (width : Nat) : Attempt Cursor Nat := fun cursor =>
  match LittleEndian.read? cursor.data cursor.pos width with
  | some n => (.ok n, { cursor with pos := cursor.pos + width })
  | none => (.error .outOfBounds, cursor)

/-- The number in the next four bytes, or in the next two. -/
def index (isLarge : Bool) : Attempt Cursor Nat :=
  number (if isLarge then 4 else 2)

/-- The position of the next byte to read. -/
def position : Attempt Cursor Nat := fun cursor =>
  (.ok cursor.pos, cursor)

end Cursor

end ApiCensus
