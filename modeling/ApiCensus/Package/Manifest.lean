/-
  Manifests of packages.

  * `Manifest.identity?`: the name and the version that a manifest gives.
-/
import ApiCensus.Package.Identity
import ApiCensus.Package.Markup

namespace ApiCensus.Manifest

open Markup (Event)

/-- What has been read of a manifest. -/
structure Progress where
  /-- The names of the open elements, the innermost first. -/
  path : List (List Char) := []
  /-- The last name of the package. -/
  id : Option String := none
  /-- The last version of the package. -/
  version : Option String := none

/-- A name without the part up to the first colon. -/
def localName (name : List Char) : String :=
  String.ofList (((Split.atFirst? ':' name).map Prod.snd).getD name)

/-- Takes a part of the manifest into account. An element ends under the name that it began
    with. -/
def Progress.add (progress : Progress) : Event → Except Fault Progress
  | .start name => .ok { progress with path := name :: progress.path }
  | .stop name =>
    match progress.path with
    | [] => Markup.broken
    | expected :: outer =>
      if name = expected then .ok { progress with path := outer } else Markup.broken
  | .text content =>
    match progress.path.reverse.map localName with
    | ["package", "metadata", "id"] => do
      pure { progress with id := some (← Markup.unescape content) }
    | ["package", "metadata", "version"] => do
      pure { progress with version := some (← Markup.unescape content) }
    | _ => .ok progress

/-- The name and the version that a manifest gives, if it gives a name. -/
def identity? (document : String) : Except Fault (Option PackageIdentity) := do
  let progress ← (← Markup.events document).foldlM Progress.add {}
  pure ((progress.id.filter fun id => !id.isEmpty).map fun id =>
    { id, version := progress.version.getD "" })

end ApiCensus.Manifest
