/-
  ClientGen.Generate.Model

  The models of all schemas.  Every name belongs to the schema or the lifted
  interface that claimed it first; a schema that cannot be declared is left out,
  but keeps the names that it claimed.
-/
import ClientGen.Generate.ModelDecl
import ClientGen.Generate.Report
import ClientGen.Service.Check

namespace ClientGen

/-! ## Owners of names -/

/-- Who owns the names of models. -/
abbrev Owners := List (ModelName × String)

/-- The owner of a name. -/
def Owners.owner? (owners : Owners) (model : ModelName) : Option String :=
  (owners.find? (·.1 = model)).map Prod.snd

/-- The names of the schemas of a document, each owned by its key. -/
def Document.owners (d : Document) : Owners :=
  d.modelKeys.reverse.map fun key => (ModelName.ofKey key, key)

/-- Gives a name to the one that claims it, unless it belongs to another. -/
def Owners.give (owners : Owners) (c : Claim) : Except GenerationError Owners :=
  match owners.owner? c.model with
  | some owner =>
    if owner = c.owner then .ok owners
    else .error (.namingCollision c.model.name c.model.path owner c.owner)
  | none => .ok ((c.model, c.owner) :: owners)

/-! ## Generation -/

/-- The owners of names, and what has been generated with them. -/
structure Modelling where
  owners : Owners
  generation : Generation := {}
deriving Inhabited

/-- Declares the model of a schema.  Only a name that belongs to another is fatal. -/
def Modelling.add (d : Document) (m : Modelling) (entry : String × Schema) :
    Except GenerationError Modelling := do
  let (key, s) := entry
  let outcome := modelDecls d key s
  let owners ← (claimsOf outcome.notes).foldlM Owners.give m.owners
  return match outcome.result with
    | .ok decls =>
      { owners
        generation :=
          (m.generation.declare (ModelName.ofKey key).file (importsOf outcome.notes) decls).count
            fun r => { r with models := r.models + 1 } }
    | .error error => { owners, generation := m.generation.skip [.because key error] }

/-- The schemas for which models are generated. -/
def Document.modelSchemas (d : Document) : List (String × Schema) :=
  d.components.schemas.entries.filter fun entry => !ModelName.isReserved entry.1

/-- The models of a document. -/
def generateModels (d : Document) : Except GenerationError Generation :=
  (·.generation) <$> d.modelSchemas.foldlM (Modelling.add d) { owners := d.owners }

end ClientGen
