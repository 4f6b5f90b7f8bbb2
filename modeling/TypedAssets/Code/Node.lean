import TypedAssets.Text.Display

/-!
# Generated code

The syntax of a generated module: expressions, patterns, declarations and the module around them. It
is one type, so that code in a place where it does not belong can be written down and refused.

Patterns are written with the expression forms. A variable binds unless it starts with an uppercase
character; such a variable, or a call, matches a constructor. Lists and tuples match their items in
order, and the wildcard matches anything.
-/

namespace TypedAssets.Code

/-- A constructor of a sum type and the types of its arguments. -/
structure Variant where
  name : String
  args : List String
  deriving DecidableEq

/-- An import and the names it exposes. -/
structure Import where
  source : String
  exposing : List String
  deriving DecidableEq

/-- A piece of code. A `case` with no branches may still name the type of its subject. -/
inductive Node where
  | var (name : String)
  | access (record field : String)
  | str (value : String)
  | call (func : String) (args : List Node)
  | list (items : List Node)
  | tuple (items : List Node)
  | record (fields : List (String × Node))
  | update (record : String) (fields : List (String × Node))
  | wildcard
  | branch (pattern body : Node)
  | case (subject : Node) (branches : List (Node × Node)) (subjectType : Option String)
  | variant (v : Variant)
  | sumType (name : String) (variants : List Variant)
  | recordAlias (name : String) (params : List String) (fields : List (String × String))
  | typeAlias (name target : String)
  | function (name signature : String) (params : List String) (body : Node)
  | imported (i : Import)
  | unit (name : String) (imports : List Import) (sections : List (List Node))

/-- The shown form of a variant. -/
def Variant.display (v : Variant) : Display :=
  .labelled "Variant" [("name", .text v.name), ("args", .texts v.args)]

/-- The shown form of an import. -/
def Import.display (i : Import) : Display :=
  .labelled "Import" [("module", .text i.source), ("exposing", .texts i.exposing)]

namespace Node

mutual

/-- The shown form of a piece of code. -/
def display : Node → Display
  | .var x => .labelled "Var" [("name", .text x)]
  | .access r f => .labelled "Access" [("record", .text r), ("field", .text f)]
  | .str s => .labelled "Str" [("value", .text s)]
  | .call f args => .labelled "Call" [("func", .text f), ("args", .tuple (displayAll args))]
  | .list ns => .labelled "ListExpr" [("items", .tuple (displayAll ns))]
  | .tuple ns => .labelled "TupleExpr" [("items", .tuple (displayAll ns))]
  | .record fs => .labelled "RecordExpr" [("fields", .tuple (displayFields fs))]
  | .update r fs =>
    .labelled "RecordUpdate" [("record", .text r), ("fields", .tuple (displayFields fs))]
  | .wildcard => .labelled "Wildcard" []
  | .branch p b => .labelled "Branch" [("pattern", p.display), ("body", b.display)]
  | .case s bs ty =>
    .labelled "Case" [("subject", s.display), ("branches", .tuple (displayBranches bs)),
      ("subject_type", ty.elim (.word "None") .text)]
  | .variant v => v.display
  | .sumType t vs =>
    .labelled "SumType" [("name", .text t), ("variants", .tuple (vs.map Variant.display))]
  | .recordAlias t ps fs =>
    .labelled "RecordAlias" [("name", .text t), ("params", .texts ps),
      ("fields", .tuple (fs.map fun f => .texts [f.1, f.2]))]
  | .typeAlias t target => .labelled "TypeAlias" [("name", .text t), ("target", .text target)]
  | .function f ty ps b =>
    .labelled "Function" [("name", .text f), ("signature", .text ty), ("params", .texts ps),
      ("body", b.display)]
  | .imported i => i.display
  | .unit m is ss =>
    .labelled "Module" [("name", .text m), ("imports", .tuple (is.map Import.display)),
      ("sections", .tuple (displaySections ss))]
termination_by structural n => n

def displayAll : List Node → List Display
  | [] => []
  | n :: ns => n.display :: displayAll ns
termination_by structural ns => ns

def displayFields : List (String × Node) → List Display
  | [] => []
  | (name, n) :: fs => .tuple [.text name, n.display] :: displayFields fs
termination_by structural fs => fs

def displayBranches : List (Node × Node) → List Display
  | [] => []
  | (p, b) :: bs =>
    .labelled "Branch" [("pattern", p.display), ("body", b.display)] :: displayBranches bs
termination_by structural bs => bs

def displaySections : List (List Node) → List Display
  | [] => []
  | s :: ss => .tuple (displayAll s) :: displaySections ss
termination_by structural ss => ss

end

/-- The text of a piece of code inside a message. -/
def shown (n : Node) : String := n.display.render

/-- The name that a piece of code declares or refers to, if it has one. -/
def name? : Node → Option String
  | .var x => some x
  | .variant v => some v.name
  | .sumType x _ | .recordAlias x _ _ | .typeAlias x _ | .function x _ _ _ | .unit x _ _ => some x
  | _ => none

end Node

/-- A module: its name, its imports with the names each exposes, and its declarations in sections.
-/
structure Module where
  name : String
  imports : List Import
  sections : List (List Node)

/-- A module has no declaration of a name. -/
structure Undeclared where
  name : String

def Undeclared.message (e : Undeclared) : String := "No declaration named: " ++ e.name

namespace Module

/-- A module as a piece of code. -/
def node (m : Module) : Node := .unit m.name m.imports m.sections

/-- The declarations of a module, section by section. -/
def declarations (m : Module) : List Node := m.sections.flatten

/-- The first declaration of a name. -/
def find? (m : Module) (name : String) : Option Node :=
  m.declarations.find? fun d => d.name? = some name

/-- The first declaration of a name, or the complaint that there is none. -/
def find (m : Module) (name : String) : Except Undeclared Node :=
  (m.find? name).elim (.error ⟨name⟩) .ok

end Module

end TypedAssets.Code
