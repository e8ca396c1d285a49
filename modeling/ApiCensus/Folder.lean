/-
  Files below a folder, found by their paths.

  * `Folder.paths`: the paths of all files, sorted.
  * `Folder.file?`: the content of the file that a path leads to.
-/
import ApiCensus.Text.Split

namespace ApiCensus

/-- Files below a folder: their paths, with a slash between the parts, and their contents. A
    later file replaces an earlier one of the same path. -/
structure Folder where
  /-- The paths and the contents. -/
  files : List (String × ByteArray)

namespace Folder

/-- The parts of a path. -/
def parts (path : String) : List String :=
  (Split.fields '/' path.toList).map String.ofList

/-- The text of a path. -/
def join (parts : List String) : String :=
  String.intercalate "/" parts

/-- There is a file below a path. -/
def hasFolder (folder : Folder) (path : List String) : Bool :=
  path.isEmpty || folder.files.any fun file => (join path ++ "/").isPrefixOf file.1

/-- The path that the given parts lead to from a path below the folder. A part goes into a
    folder that has to be there; one point stays, two go back, but not out of the folder. -/
def walk (folder : Folder) : List String → List String → Option (List String)
  | here, [] => some here
  | here, part :: rest =>
    if !folder.hasFolder here then none
    else if part = "" ∨ part = "." then walk folder here rest
    else if part = ".." then
      match here.reverse with
      | [] => none
      | _ :: above => walk folder above.reverse rest
    else walk folder (here ++ [part]) rest

/-- The content of the file that a path leads to; a path from the root leads to none. -/
def file? (folder : Folder) (path : String) : Option ByteArray :=
  if path.startsWith "/" then none
  else do
    let found ← folder.walk [] (parts path)
    (folder.files.reverse.find? fun file => file.1 == join found).map Prod.snd

/-- The paths of all files, sorted. -/
def paths (folder : Folder) : List String :=
  (folder.files.map Prod.fst).eraseDups.mergeSort

end Folder

end ApiCensus
