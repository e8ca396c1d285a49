/-
  UTF-8 text in a byte string.

  * `pieces`: a byte string cut into encoded characters and ill-formed pieces, each
    ill-formed piece as long as the longest beginning of a character at that place.
  * `decode`: the text, or the first flaw: where it starts and how long it is.
  * `lossy`: the text with one replacement character for each ill-formed piece.
-/

namespace ApiCensus.Utf8

/-- Where a byte string stops being text. -/
inductive Flaw where
  /-- `size` bytes at `index` begin no character. -/
  | invalid (index size : Nat)
  /-- The bytes from `index` on begin a character and end before it does. -/
  | incomplete (index : Nat)
  deriving Repr, DecidableEq, Inhabited

/-- The wording of a flaw. -/
def Flaw.message : Flaw → String
  | .invalid index size => s!"invalid utf-8 sequence of {size} bytes from index {index}"
  | .incomplete index => s!"incomplete utf-8 byte sequence from index {index}"

/-- What a byte string begins with. -/
inductive Piece where
  /-- A character encoded in `size` bytes. -/
  | scalar (c : Char) (size : Nat)
  /-- `size` bytes that begin no character. -/
  | invalid (size : Nat)
  /-- The whole byte string is the beginning of a character. -/
  | incomplete (size : Nat)
  deriving Repr, DecidableEq, Inhabited

/-- The number of bytes a piece covers. -/
def Piece.size : Piece → Nat
  | .scalar _ size => size
  | .invalid size => size
  | .incomplete size => size

/-- The character a piece shows: an ill-formed piece shows the replacement character. -/
def Piece.shown : Piece → Char
  | .scalar c _ => c
  | .invalid _ => '\uFFFD'
  | .incomplete _ => '\uFFFD'

/-- A byte after the first of a character has the form `10xxxxxx`. -/
def isContinuation (b : UInt8) : Bool :=
  0x80 ≤ b && b ≤ 0xBF

/-- The second bytes that may follow the first byte of a three-byte character: the
    shorter forms and the surrogates are left out. -/
def followsThree (first second : UInt8) : Bool :=
  isContinuation second && (first != 0xE0 || 0xA0 ≤ second) && (first != 0xED || second ≤ 0x9F)

/-- The second bytes that may follow the first byte of a four-byte character: the
    shorter forms and what lies above the last code point are left out. -/
def followsFour (first second : UInt8) : Bool :=
  isContinuation second && (first != 0xF0 || 0x90 ≤ second) && (first != 0xF4 || second ≤ 0x8F)

/-- The six low bits of a continuation byte. -/
def payload (b : UInt8) : Nat :=
  b.toNat % 0x40

/-- The first piece of the byte string `first :: rest`. -/
def Piece.ofBytes (first : UInt8) (rest : List UInt8) : Piece :=
  if first < 0x80 then .scalar (Char.ofNat first.toNat) 1
  else if 0xC2 ≤ first && first ≤ 0xDF then
    match rest with
    | [] => .incomplete 1
    | b :: _ =>
      if isContinuation b then .scalar (Char.ofNat (first.toNat % 0x20 * 0x40 + payload b)) 2
      else .invalid 1
  else if 0xE0 ≤ first && first ≤ 0xEF then
    match rest with
    | [] => .incomplete 1
    | b :: rest =>
      if !followsThree first b then .invalid 1
      else match rest with
        | [] => .incomplete 2
        | c :: _ =>
          if isContinuation c then
            .scalar (Char.ofNat ((first.toNat % 0x10 * 0x40 + payload b) * 0x40 + payload c)) 3
          else .invalid 2
  else if 0xF0 ≤ first && first ≤ 0xF4 then
    match rest with
    | [] => .incomplete 1
    | b :: rest =>
      if !followsFour first b then .invalid 1
      else match rest with
        | [] => .incomplete 2
        | c :: rest =>
          if !isContinuation c then .invalid 2
          else match rest with
            | [] => .incomplete 3
            | d :: _ =>
              if isContinuation d then
                .scalar (Char.ofNat
                  (((first.toNat % 8 * 0x40 + payload b) * 0x40 + payload c) * 0x40 + payload d)) 4
              else .invalid 3
  else .invalid 1

/-- A byte string cut into pieces from the left. -/
def pieces : List UInt8 → List Piece
  | [] => []
  | first :: rest =>
    let piece := Piece.ofBytes first rest
    piece :: pieces (rest.drop (piece.size - 1))
  termination_by bytes => bytes.length
  decreasing_by simp only [List.length_drop, List.length_cons]; omega

/-- The first flaw among pieces of which the first starts at `index`. -/
def firstFlaw? : Nat → List Piece → Option Flaw
  | _, [] => none
  | index, .scalar _ size :: rest => firstFlaw? (index + size) rest
  | index, .invalid size :: _ => some (.invalid index size)
  | index, .incomplete _ :: _ => some (.incomplete index)

/-- The text of a byte string, or its first flaw. -/
def decode (data : ByteArray) : Except Flaw String :=
  if h : data.validateUTF8 = true then
    .ok (String.fromUTF8 data (ByteArray.validateUTF8_eq_true_iff.1 h))
  else
    .error ((firstFlaw? 0 (pieces data.toList)).getD (.incomplete data.size))

/-- Text is decoded from its own encoding. -/
theorem decode_toUTF8 (s : String) : decode s.toUTF8 = .ok s := by
  have h : s.toUTF8.validateUTF8 = true := ByteArray.validateUTF8_eq_true_iff.2 s.isValidUTF8
  rw [decode, dif_pos h]
  rfl

/-- The text of a byte string, each ill-formed piece replaced. -/
def lossy (data : ByteArray) : String :=
  String.ofList ((pieces data.toList).map Piece.shown)

end ApiCensus.Utf8
