/-
  What a package is called.

  * `PackageIdentity`: the name and the version of a package.
  * `PackageIdentity.ofFolderName`: reads them from a name such as `newtonsoft.json.13.0.3`.
-/

namespace ApiCensus

/-- The name and the version of a package. -/
structure PackageIdentity where
  id : String
  /-- The version, empty if it is not known. -/
  version : String
  deriving Repr, DecidableEq, Inhabited

namespace PackageIdentity

/-- The name and the version with a blank between them. -/
protected def toString (identity : PackageIdentity) : String :=
  if identity.version.isEmpty then identity.id else identity.id ++ " " ++ identity.version

instance : ToString PackageIdentity := ⟨PackageIdentity.toString⟩

/-- The parts around the first point with a digit behind it. -/
def splitVersion? : List Char → Option (List Char × List Char)
  | [] => none
  | c :: rest =>
    if c = '.' ∧ rest.head?.any Char.isDigit then some ([], rest)
    else (splitVersion? rest).map fun (before, behind) => (c :: before, behind)

/-- The version stands behind the first point with a digit behind it. A name is not empty; where
    it would be, and where there is no such point, the whole text is the name. -/
def ofFolderName (folder : String) : PackageIdentity :=
  match splitVersion? folder.toList with
  | some (c :: id, version) =>
    { id := String.ofList (c :: id), version := String.ofList version }
  | _ => { id := folder, version := "" }

end PackageIdentity

end ApiCensus
