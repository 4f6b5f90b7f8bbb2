import TypedAssets.Fields
import TypedAssets.Manifest.Basic
import TypedAssets.Words

/-!
# Names of a manifest

The names of the assets become constructors, and their camel case the fields of a record, of one
generated module. So every name is used once, no field is a keyword of Elm, no two assets have one
field, and no name is taken already inside the module or by its implicit imports.

Assets whose name is used more than once are reported for that and not looked at again.
-/

namespace TypedAssets.Naming

/-- The keywords of Elm, which cannot be fields. -/
def keywords : List String :=
  ["if", "then", "else", "case", "of", "let", "in", "type", "module", "where", "import", "exposing",
    "as", "port", "infix", "alias", "effect"]

/-- The names that the generated module or its implicit imports have taken. -/
def reserved : List String :=
  ["TextureKey", "SoundKey", "LoadTexture", "LoadAudio", "AssetPackContainer", "AssetPack",
    "AssetPackBuilder", "Texture", "Audio", "Maybe", "Just", "Nothing", "True", "False", "Ok",
    "Err", "Never"]

/-- What is wrong with the names of a manifest. -/
inductive Problem where
  | duplicate (name : String) (uses : Nat)
  | keyword (name field : String)
  | collision (first second field : String)
  | reserved (name : String)
  deriving DecidableEq, Repr

def Problem.message : Problem → String
  | .duplicate name uses =>
    "Duplicate asset name: " ++ name ++ " (used " ++ toString uses ++ " times)"
  | .keyword name field => "Asset name " ++ name ++ " becomes the Elm keyword '" ++ field ++ "'"
  | .collision first second field =>
    "Asset names " ++ first ++ " and " ++ second ++ " both become field '" ++ field ++ "'"
  | .reserved name => "Asset name " ++ name ++ " is reserved by the generated module"

/-- The names used more than once, in the order of their first use. -/
def duplicates (names : List String) : List Problem :=
  (names.eraseDups.filter fun name => 1 < names.count name).map fun name =>
    .duplicate name (names.count name)

/-- The problem of a field, given the names that own the fields before it. -/
def fieldProblem? (owners : Fields String) (name : String) : Option Problem :=
  let field := Words.camelCase name
  if field ∈ keywords then some (.keyword name field)
  else (owners.get? field).map fun owner => .collision owner name field

/-- The problem of a name that is taken. -/
def reservedProblem? (name : String) : Option Problem :=
  if name ∈ reserved then some (.reserved name) else none

/-- The problems of names that are each used once. A name owns its field if the field is fine. -/
def fieldProblems (owners : Fields String) : List String → List Problem
  | [] => []
  | name :: names =>
    let problem := fieldProblem? owners name
    let owners' := if problem.isNone then owners.set (Words.camelCase name) name else owners
    problem.toList ++ (reservedProblem? name).toList ++ fieldProblems owners' names

/-- The naming problems of a manifest. -/
def problems (m : Manifest) : List Problem :=
  duplicates m.names ++ fieldProblems [] (m.names.filter fun name => m.names.count name = 1)

end TypedAssets.Naming
