import TypedAssets.Naming
import TypedAssets.Schema.Manifest

/-!
# Validation of manifests

A manifest is valid when its document fits the schema and its names can live in one module. A report
says so, or lists every problem, the schema's first.
-/

namespace TypedAssets

/-- There is no schema at a path. -/
structure MissingSchema where
  path : String

def MissingSchema.message (e : MissingSchema) : String := "Schema file not found: " ++ e.path

/-- What is wrong with a manifest. -/
inductive Problem where
  | schema (p : Schema.Problem)
  | naming (p : Naming.Problem)

def Problem.message : Problem → String
  | .schema p => p.message
  | .naming p => p.message

namespace Manifest

/-- The problems of a manifest under the shape that its document should have. -/
def problemsUnder (shape : Schema.Shape) (m : Manifest) : List Problem :=
  (shape.check m.document).map .schema ++ (Naming.problems m).map .naming

/-- The problems of a manifest. -/
def problems (m : Manifest) : List Problem := m.problemsUnder Schema.manifest

/-- A manifest without problems. -/
def Valid (m : Manifest) : Prop := m.problems = []

instance (m : Manifest) : Decidable m.Valid :=
  decidable_of_iff (m.problems.isEmpty = true) List.isEmpty_iff

end Manifest

/-- The verdict on a manifest. -/
inductive Report where
  | valid
  | invalid (problems : List Problem)
  | noSchema (e : MissingSchema)

namespace Report

/-- The verdict under a schema that may be missing. -/
def ofManifest (schema : Except MissingSchema Schema.Shape) (m : Manifest) : Report :=
  match schema with
  | .error e => .noSchema e
  | .ok shape =>
    match m.problemsUnder shape with
    | [] => .valid
    | problems => .invalid problems

/-- The text of a verdict, unless the manifest is valid: one line per problem. -/
def message? : Report → Option String
  | .valid => none
  | .invalid problems => some ("\n".intercalate (problems.map Problem.message))
  | .noSchema e => some ("Schema error: " ++ e.message)

def isValid (r : Report) : Bool := r.message?.isNone

end Report

end TypedAssets
