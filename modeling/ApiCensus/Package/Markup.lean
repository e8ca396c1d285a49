/-
  The markup of manifests, as far as it matters for them.

  * `Markup.events`: the tags and the texts of a document, in order.
  * `Markup.unescape`: a text with its references replaced.

  Comments, instructions, declarations and quoted sections are passed over; they end the text
  before them.
-/
import ApiCensus.Fault
import ApiCensus.Text.Numeral
import ApiCensus.Text.Blank
import ApiCensus.Text.Split

namespace ApiCensus.Markup

/-- A part of a document. -/
inductive Event where
  | start (name : List Char)
  | stop (name : List Char)
  /-- A text that is not blank, without the blanks around it. -/
  | text (content : List Char)
  deriving Repr, DecidableEq, Inhabited

/-- The blanks of markup. -/
def isSpace (c : Char) : Bool :=
  c == ' ' || c == '\t' || c == '\n' || c == '\r'

/-- Stops: the document is not well formed. -/
def broken {α : Type} : Except Fault α :=
  .error .badManifest

/-! ## Where parts end -/

/-- What follows the first occurrence of a mark. -/
def behind (mark : List Char) : List Char → Except Fault (List Char)
  | [] => broken
  | c :: rest =>
    if mark.isPrefixOf (c :: rest) then .ok ((c :: rest).drop mark.length)
    else behind mark rest

/-- What is inside a tag and what follows it. The tag ends outside of quotes; `quote` is the
    mark of the quote that is open. -/
def tagContent (quote : Option Char) : List Char → Except Fault (List Char × List Char)
  | [] => broken
  | c :: rest =>
    if quote = none ∧ c = '>' then .ok ([], rest)
    else
      let next := match quote with
        | none => if c = '\'' ∨ c = '"' then some c else none
        | some mark => if c = mark then none else quote
      (tagContent next rest).map fun (inside, behind) => (c :: inside, behind)

/-- What is inside a declaration and what follows it; `depth` declarations are open inside. -/
def declarationContent (depth : Nat) : List Char → Except Fault (List Char × List Char)
  | [] => broken
  | c :: rest =>
    if c = '>' ∧ depth = 0 then .ok ([], rest)
    else
      let depth := if c = '<' then depth + 1 else if c = '>' then depth - 1 else depth
      (declarationContent depth rest).map fun (inside, behind) => (c :: inside, behind)

/-- The text starts with a word, without a regard to case. -/
def startsWithWord (word text : List Char) : Bool :=
  (text.take word.length).map Char.toLower == word.map Char.toLower

/-- What follows a document type declaration, which has to name something. -/
def behindDeclaration (text : List Char) : Except Fault (List Char) := do
  let (inside, rest) ← declarationContent 0 text
  let word := "DOCTYPE".toList
  if startsWithWord word inside && (inside.drop word.length).any (!isSpace ·) then pure rest
  else broken

/-! ## Events -/

/-- The name that a tag begins with. -/
def nameOf (inside : List Char) : List Char :=
  inside.takeWhile fun c => !isSpace c

/-- The name that a closing tag holds: everything but the blanks at its end. A tag of blanks
    alone is a name as it stands. -/
def closingName (inside : List Char) : List Char :=
  match inside.reverse.dropWhile isSpace with
  | [] => inside
  | name => name.reverse

/-- The part that begins with an exclamation mark is passed over. -/
def behindBang (text : List Char) : Except Fault (List Char) :=
  let comment := "--".toList
  let quoted := "[CDATA[".toList
  if comment.isPrefixOf text then behind "-->".toList (text.drop comment.length)
  else if quoted.isPrefixOf text then behind "]]>".toList (text.drop quoted.length)
  else behindDeclaration text

/-- The events of what follows the beginning of a tag, and the text behind it. -/
def tagEvents : List Char → Except Fault (List Event × List Char)
  | '!' :: rest => do
    pure ([], ← behindBang rest)
  | '?' :: rest =>
    if rest.head? = some '>' then broken
    else do pure ([], ← behind "?>".toList rest)
  | '/' :: rest => do
    let (inside, rest) ← tagContent none rest
    pure ([.stop (closingName inside)], rest)
  | [] => broken
  | text => do
    let (inside, rest) ← tagContent none text
    pure (if inside.getLast? = some '/' then [] else [.start (nameOf inside)], rest)

/-- The event of a text that is not blank. -/
def textEvents (content : List Char) : List Event :=
  match Blank.trimBy isSpace content with
  | [] => []
  | trimmed => [.text trimmed]

/-- The events of a document, given a bound on the number of its tags. -/
def eventsWithin : Nat → List Char → Except Fault (List Event)
  | 0, _ => .ok []
  | tags + 1, text =>
    match Split.atFirst? '<' text with
    | none => .ok (textEvents text)
    | some (content, rest) => do
      let (found, rest) ← tagEvents rest
      let others ← eventsWithin tags rest
      pure (textEvents content ++ found ++ others)

/-- The mark of the byte order, which may stand in front of a document. -/
def byteOrderMark : Char := '\uFEFF'

/-- The events of a document. There are no more tags than characters. -/
def events (document : String) : Except Fault (List Event) :=
  let text := match document.toList with
    | c :: rest => if c = byteOrderMark then rest else c :: rest
    | [] => []
  eventsWithin (text.length + 1) text

/-! ## References -/

/-- The names of characters. -/
def namedCharacters : List (String × Char) :=
  [("lt", '<'), ("gt", '>'), ("amp", '&'), ("apos", '\''), ("quot", '"')]

/-- One more than the largest number that a reference can hold. -/
def numberBound : Nat := 0x100000000

/-- The character of a number; zero and the halves of characters are none. -/
def characterOf? (n : Nat) : Option Char :=
  if h : n.isValidChar ∧ n ≠ 0 then some (Char.ofNatAux n h.1) else none

/-- The number of a reference, without a sign. -/
def number? (digits : List Char) : Option Nat :=
  match digits with
  | 'x' :: '+' :: _ | '+' :: _ => none
  | 'x' :: rest => Numeral.unsigned? Hex.digit? 16 numberBound rest
  | _ => Numeral.nat? numberBound digits

/-- The character that a reference stands for. -/
def referenced? (reference : List Char) : Option Char :=
  match reference with
  | '#' :: digits => (number? digits).bind characterOf?
  | _ => (namedCharacters.find? fun named => named.1.toList == reference).map Prod.snd

/-- A text with its references replaced; `begun` is the part of a reference
    that has been read. -/
def unescapeFrom (begun : Option (List Char)) : List Char → Except Fault (List Char)
  | [] => if begun.isNone then .ok [] else broken
  | c :: rest =>
    match begun with
    | none =>
      if c = '&' then unescapeFrom (some []) rest
      else (unescapeFrom none rest).map (c :: ·)
    | some reference =>
      if c = '&' then broken
      else if c = ';' then
        match referenced? reference with
        | some character => (unescapeFrom none rest).map (character :: ·)
        | none => broken
      else unescapeFrom (some (reference ++ [c])) rest

/-- A text with its references replaced. -/
def unescape (text : List Char) : Except Fault String := do
  pure (String.ofList (← unescapeFrom none text))

end ApiCensus.Markup
