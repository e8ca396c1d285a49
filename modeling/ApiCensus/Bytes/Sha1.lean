/-
  The hash function SHA-1.

  * `Sha1.digest`: the 20 bytes of the hash of a byte string.
-/

namespace ApiCensus.Sha1

/-- The five words that the hash is made of. -/
structure State where
  a : UInt32
  b : UInt32
  c : UInt32
  d : UInt32
  e : UInt32
  deriving Repr, DecidableEq, Inhabited

/-- The words before the first block. -/
def initial : State :=
  ⟨0x67452301, 0xEFCDAB89, 0x98BADCFE, 0x10325476, 0xC3D2E1F0⟩

/-- A word with its bits moved around to the left. -/
def rotate (x : UInt32) (bits : UInt32) : UInt32 :=
  (x <<< bits) ||| (x >>> (32 - bits))

/-- The bytes of a 64-bit number, most significant first. -/
def lengthBytes (n : Nat) : List UInt8 :=
  (List.range 8).map fun i => UInt8.ofNat (n >>> (8 * (7 - i)))

/-- The bytes that are hashed: those of the message, a mark, zeros up to a whole number of
    blocks, and the length in bits. -/
def padded (message : ByteArray) : ByteArray :=
  let zeros := (119 - message.size % 64) % 64
  message ++ (0x80 :: List.replicate zeros 0 ++ lengthBytes (8 * message.size)).toByteArray

/-- The word at a position, most significant byte first. -/
def wordAt (data : ByteArray) (pos : Nat) : UInt32 :=
  (List.range 4).foldl (fun word i => word <<< 8 ||| (data[pos + i]?.getD 0).toUInt32) 0

/-- The words of the block at a position, followed by those made of earlier ones. -/
def schedule (data : ByteArray) (pos : Nat) : Array UInt32 :=
  let block := (Array.range 16).map fun i => wordAt data (pos + 4 * i)
  (List.range 64).foldl (fun words i =>
    let earlier (back : Nat) := words[i + 16 - back]?.getD 0
    words.push (rotate (earlier 3 ^^^ earlier 8 ^^^ earlier 14 ^^^ earlier 16) 1)) block

/-- The function and the constant of a round. -/
def mix (state : State) (round : Nat) : UInt32 × UInt32 :=
  let ⟨_, b, c, d, _⟩ := state
  if round < 20 then ((b &&& c) ||| (~~~b &&& d), 0x5A827999)
  else if round < 40 then (b ^^^ c ^^^ d, 0x6ED9EBA1)
  else if round < 60 then ((b &&& c) ||| (b &&& d) ||| (c &&& d), 0x8F1BBCDC)
  else (b ^^^ c ^^^ d, 0xCA62C1D6)

/-- One round. -/
def step (words : Array UInt32) (state : State) (round : Nat) : State :=
  let (f, k) := mix state round
  { a := rotate state.a 5 + f + state.e + k + words[round]?.getD 0
    b := state.a
    c := rotate state.b 30
    d := state.c
    e := state.d }

/-- Takes the block at a position into account. -/
def compress (data : ByteArray) (state : State) (pos : Nat) : State :=
  let last := (List.range 80).foldl (step (schedule data pos)) state
  ⟨state.a + last.a, state.b + last.b, state.c + last.c, state.d + last.d, state.e + last.e⟩

/-- The bytes of a word, most significant first. -/
def wordBytes (word : UInt32) : List UInt8 :=
  [(word >>> 24).toUInt8, (word >>> 16).toUInt8, (word >>> 8).toUInt8, word.toUInt8]

/-- The hash of a byte string. -/
def digest (message : ByteArray) : List UInt8 :=
  let data := padded message
  let state := (List.range (data.size / 64)).foldl
    (fun state block => compress data state (64 * block)) initial
  [state.a, state.b, state.c, state.d, state.e].flatMap wordBytes

end ApiCensus.Sha1
