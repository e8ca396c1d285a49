/-
  The root of the metadata and its directory of streams.

  * `StreamHeader.ofBytes`: one entry of the directory; `StreamHeader.length` is the number of
    bytes that the entry is taken to occupy.
  * `MetadataRoot.ofBytes`: the root with all its entries.
  * `MetadataRoot.stream?`: the first stream of a name.
-/
import ApiCensus.Bytes.Cursor

namespace ApiCensus

/-- An entry of the stream directory. -/
structure StreamHeader where
  /-- The position of the stream, counted from the root. -/
  offset : Nat
  size : Nat
  name : String
  deriving Repr, DecidableEq, Inhabited

namespace StreamHeader

/-- The longest name, its terminator counted. -/
def maxNameLength : Nat := 32

/-- The bytes before the first zero byte; all of them if there is none. -/
def beforeZero (data : ByteArray) : ByteArray :=
  (data.data.toList.takeWhile (· != 0)).toByteArray

/-- The entry at the start of a byte string. -/
def ofBytes (data : ByteArray) : Except Fault StreamHeader :=
  if data.size < 9 then .error .outOfBounds
  else
    let field := data.extract 8 (8 + maxNameLength)
    let name := beforeZero field
    if name.size = field.size then .error (.malformed .streamName)
    else .ok { offset := LittleEndian.valueAt data 0 4, size := LittleEndian.valueAt data 4 4,
               name := Utf8.lossy name }

/-- The number of bytes of an entry: the name with its terminator is filled up to a multiple
    of four. -/
def length (header : StreamHeader) : Nat :=
  8 + (header.name.utf8ByteSize + 1 + 3) / 4 * 4

end StreamHeader

/-- The root of the metadata. -/
structure MetadataRoot where
  majorVersion : Nat
  minorVersion : Nat
  /-- The version text of the runtime. -/
  version : String
  flags : Nat
  streams : List StreamHeader
  deriving Repr, DecidableEq, Inhabited

namespace MetadataRoot

/-- The number that metadata starts with. -/
def signature : Nat := 0x424A5342

/-- The largest number of streams. -/
def maxStreams : Nat := 16

/-- One more than the largest position that 32 bits hold. -/
def extentBound : Nat := 0x100000000

/-- The entries of a directory of `count` streams, the first one at `offset`. -/
def readStreams (data : ByteArray) : Nat → Nat → Except Fault (List StreamHeader)
  | 0, _ => .ok []
  | count + 1, offset =>
    if data.size < offset then .error .outOfBounds
    else do
      let stream ← StreamHeader.ofBytes (data.extract offset data.size)
      let stop := stream.offset + stream.size
      if extentBound ≤ stop then
        throw (.malformed (.streamExtent stream.offset stream.size))
      else if data.size < stop then
        throw .outOfBounds
      else
        let rest ← readStreams data count (offset + stream.length)
        pure (stream :: rest)

/-- The root at the start of a byte string. -/
def ofBytes (data : ByteArray) : Except Fault MetadataRoot :=
  if data.size < 20 then .error .outOfBounds
  else
    let found := LittleEndian.valueAt data 0 4
    if found ≠ signature then .error (.malformed (.metadataSignature found))
    else
      let versionStop := 16 + LittleEndian.valueAt data 12 4
      if data.size < versionStop then .error .outOfBounds
      else
        match LittleEndian.read? data versionStop 2, LittleEndian.read? data (versionStop + 2) 2 with
        | some flags, some count =>
          if count = 0 ∨ maxStreams < count then .error (.malformed (.streamCount count))
          else do
            let streams ← readStreams data count (versionStop + 4)
            pure { majorVersion := LittleEndian.valueAt data 4 2,
                   minorVersion := LittleEndian.valueAt data 6 2,
                   version := Utf8.lossy (StreamHeader.beforeZero (data.extract 16 versionStop)),
                   flags, streams }
        | _, _ => .error .outOfBounds

/-- The first stream of a name. -/
def stream? (root : MetadataRoot) (name : String) : Option StreamHeader :=
  root.streams.find? fun stream => stream.name == name

end MetadataRoot

end ApiCensus
