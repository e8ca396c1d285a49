/-
  Packages: a name and a version, and files.

  * `Package`: how a package is listed and read.
  * `Package.ofFolder`: the package that is unpacked in a folder.
-/
import ApiCensus.Folder
import ApiCensus.Package.Manifest

namespace ApiCensus

/-- A package. -/
structure Package where
  identity : PackageIdentity
  files : Except Fault (List String)
  read (path : String) : Except Fault ByteArray

namespace Package

/-- The extension of manifests. -/
def manifestExtension : String := ".nuspec"

/-- The path of the manifest: the first one directly in the folder. -/
def manifestPath? (paths : List String) : Option String :=
  paths.find? fun path => !path.toList.contains '/' && path.endsWith manifestExtension

/-- The text of a file. -/
def textOf (data : ByteArray) : Except Fault String :=
  match Utf8.decode data with
  | .ok text => .ok text
  | .error _ => .error .unreadableFile

/-- The name and the version of the package in a folder: those of the manifest, else those that
    the name of the folder gives. -/
def identityOf (name : String) (folder : Folder) : Except Fault PackageIdentity := do
  let manifest := (manifestPath? folder.paths).bind folder.file?
  let found ← match manifest with
    | some data => do Manifest.identity? (← textOf data)
    | none => pure none
  pure (found.getD (.ofFolderName name))

/-- A file of the package in a folder, found by the path under which it is listed. -/
def readFolder (identity : PackageIdentity) (folder : Folder) (path : String) :
    Except Fault ByteArray :=
  match if folder.paths.contains path then folder.file? path else none with
  | some data => .ok data
  | none => .error (.reported ("'" ++ path ++ "' is not part of " ++ toString identity))

/-- The package that is unpacked in a folder of a given name. -/
def ofFolder (name : String) (folder : Folder) : Except Fault Package := do
  let identity ← identityOf name folder
  pure { identity, files := .ok folder.paths, read := readFolder identity folder }

/-- A file that is listed with its content, or with the reason why it cannot be read. -/
abbrev ListedFile := String × Except Fault ByteArray

/-- The package of the listed files; the first file of a path counts. -/
def ofList (identity : PackageIdentity) (files : List ListedFile) : Package where
  identity
  files := .ok (files.map Prod.fst)
  read path :=
    match files.find? fun file => file.1 == path with
    | some file => file.2
    | none => .error (.reported ("'" ++ path ++ "' is not part of " ++ toString identity))

end Package

end ApiCensus
