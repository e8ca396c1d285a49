/-
  Names inside namespaces.

  * `qualify`: a name behind its namespace.
  * `withoutArity`: the name of a generic type without the number of its parameters.
  * `replaceChar`: a text with one character in place of another.
-/

namespace ApiCensus

/-- A name behind its namespace; the empty namespace is not written. -/
def qualify (nameSpace name : String) : String :=
  if nameSpace.isEmpty then name else nameSpace ++ "." ++ name

/-- A text with one character in place of another. -/
def replaceChar (old new : Char) (text : String) : String :=
  text.map fun c => if c = old then new else c

/-- A name up to its first backtick; a backtick at the start does not count. -/
def withoutArity (name : String) : String :=
  match name.toList.takeWhile (· != '\x60') with
  | [] => name
  | stem => String.ofList stem

end ApiCensus
