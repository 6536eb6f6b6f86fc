/-
  ClientGen.Service.Check

  The checks that a document passes before anything is generated: no two of its
  schemas have the same model name, and no two of its API tags the same client
  file.
-/
import ClientGen.Service.ClientFile
import ClientGen.Service.Resolve

namespace ClientGen

/-- The first item of a list whose key an earlier item had, with that key and that
    earlier item.  `seen` holds the items before the list. -/
def firstRepeat? {κ : Type} [DecidableEq κ] (seen : List (κ × String)) :
    List (κ × String) → Option (κ × String × String)
  | [] => none
  | (key, item) :: rest =>
    match seen.find? (·.1 = key) with
    | some earlier => some (key, earlier.2, item)
    | none => firstRepeat? ((key, item) :: seen) rest

/-- The keys of the schemas for which models are generated. -/
def Document.modelKeys (d : Document) : List String :=
  d.components.schemas.keys.filter (!ModelName.isReserved ·)

/-- Fails when two schemas would be declared by the same name in the same file. -/
def Document.checkModelNames (d : Document) : Except GenerationError Unit :=
  match firstRepeat? [] (d.modelKeys.map fun key => (ModelName.ofKey key, key)) with
  | some (model, first, second) => .error (.namingCollision model.name model.path first second)
  | none => .ok ()

/-- Fails when the clients of two tags would be written to the same file. -/
def Service.checkApiClients (s : Service) (d : Document) : Except GenerationError Unit :=
  match firstRepeat? [] (s.apiTags.values.map fun t => (t.file d, t.tag.name)) with
  | some (file, first, second) =>
    .error (.namingCollision (Text.pascalCase second ++ "ApiClient") file first second)
  | none => .ok ()

/-- All checks, those of model names first. -/
def Service.check (s : Service) (d : Document) : Except GenerationError Unit := do
  d.checkModelNames
  s.checkApiClients d

end ClientGen
