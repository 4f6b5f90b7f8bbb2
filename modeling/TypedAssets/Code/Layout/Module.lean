import TypedAssets.Code.Layout.Block

/-!
# Declarations and modules as text

The text of a declaration, and of a module: its header, then its declarations with two empty lines
before each. Only types and functions are declarations.
-/

namespace TypedAssets.Code

/-- The type of a variant's argument: a type of several words is put in parentheses unless it starts
with a bracket. -/
def typeArgument (ty : String) : String :=
  if ty.toList.contains ' ' && !(ty.toList.head?.any fun c => c == '(' || c == '\x7b') then
    "(" ++ ty ++ ")"
  else ty

/-- A variant as it is declared. -/
def Variant.declared (v : Variant) : String :=
  v.name ++ String.join (v.args.map fun ty => " " ++ typeArgument ty)

/-- Rows of a declaration, each after its mark. -/
def marked (first other : String) : List String → List Line
  | [] => []
  | row :: rows =>
    ⟨indentStep, first ++ " " ++ row⟩ :: rows.map fun r => ⟨indentStep, other ++ " " ++ r⟩

/-- The lines of a sum type. One without variants has no value: its only constructor wants a value
of `Never`. -/
def sumTypeLines (name : String) : List Variant → List Line
  | [] => [⟨0, "type " ++ name⟩, ⟨indentStep, "= " ++ name ++ " Never"⟩]
  | vs => ⟨0, "type " ++ name⟩ :: marked "=" "|" (vs.map Variant.declared)

/-- The lines of a record type. -/
def recordAliasLines (name : String) (params : List String) :
    List (String × String) → List Line
  | [] => [⟨0, "type alias " ++ spaced name params ++ " ="⟩, ⟨indentStep, "\x7b\x7d"⟩]
  | fs =>
    ⟨0, "type alias " ++ spaced name params ++ " ="⟩ ::
      marked "\x7b" "," (fs.map fun f => f.1 ++ " : " ++ f.2) ++ [⟨indentStep, "\x7d"⟩]

/-- The lines of a declaration. -/
def declarationLines : Node → Except LayoutError (List Line)
  | .sumType t vs => .ok (sumTypeLines t vs)
  | .recordAlias t ps fs => .ok (recordAliasLines t ps fs)
  | .typeAlias t target => .ok [⟨0, "type alias " ++ t ++ " ="⟩, ⟨indentStep, target⟩]
  | .function f ty ps b =>
    return ⟨0, f ++ " : " ++ ty⟩ :: ⟨0, spaced f ps ++ " ="⟩ :: (← b.blockLines indentStep)
  | n => .error (.notDeclaration n)

/-- The text of a declaration. -/
def declarationText (n : Node) : Except LayoutError String :=
  renderLines <$> declarationLines n

/-- The line of an import. -/
def Import.line (i : Import) : String :=
  match i.exposing with
  | [] => "import " ++ i.source
  | names => "import " ++ i.source ++ " exposing (" ++ ", ".intercalate names ++ ")"

namespace Module

/-- The header of a module: its name, an empty line and its imports. -/
def header (m : Module) : String :=
  "\n".intercalate (("module " ++ m.name ++ " exposing (..)") :: "" :: m.imports.map Import.line)

/-- What stands between the header and the declarations, and between two declarations. -/
def separator : String := "\n\n\n"

/-- The text of a module, with a line break at its end. -/
def text (m : Module) : Except LayoutError String :=
  return separator.intercalate (m.header :: (← m.declarations.mapM declarationText)) ++ "\n"

end Module

end TypedAssets.Code
