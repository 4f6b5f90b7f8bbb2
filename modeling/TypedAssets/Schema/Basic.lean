import TypedAssets.Json

/-!
# Schemas of JSON documents

A schema describes the JSON documents a program accepts, in the fragment that manifests need: a text
from a fixed choice, a text with a shape, an array of like items, and an object that has all its
required members and no others than its properties. Checking a document against a schema gives every
problem with the place where it was found, a value's own problems before those inside it.
-/

namespace TypedAssets.Schema

/-- The shape of a text: one character of a first class, then any number of a second. The source is
the shape as a message writes it. -/
structure Pattern where
  source : String
  first : Char → Bool
  rest : Char → Bool

namespace Pattern

def fits (p : Pattern) : List Char → Bool
  | [] => false
  | c :: cs => p.first c && cs.all p.rest

/-- The characters of a text without the line break at its end, if it has one. -/
def dropFinalBreak (cs : List Char) : List Char :=
  if cs.getLast? = some '\n' then cs.dropLast else cs

/-- Whether a text has a shape; one line break at its end does not count. -/
def accepts (p : Pattern) (s : String) : Bool :=
  p.fits s.toList || p.fits (dropFinalBreak s.toList)

end Pattern

/-- A description of JSON documents. -/
inductive Shape where
  | choice (choices : List String)
  | text (nonempty : Bool) (pattern : Pattern)
  | array (items : Shape)
  | object (required : List String) (properties : List (String × Shape))

/-- A step from a value to one inside it. -/
inductive Step where
  | key (name : String)
  | index (i : Nat)
  deriving DecidableEq

def Step.shown : Step → String
  | .key name => name
  | .index i => toString i

inductive Fault where
  | wrongType (value : Json) (expected : String)
  | missing (name : String)
  | unexpected (names : List String)
  | notChosen (value : Json) (choices : List String)
  | emptyText
  | mismatch (text : String) (pattern : String)

def Fault.message : Fault → String
  | .wrongType v ty => v.shown ++ " is not of type " ++ Text.quoted ty
  | .missing name => Text.quoted name ++ " is a required property"
  | .unexpected names =>
    "Additional properties are not allowed (" ++ ", ".intercalate (names.map Text.quoted) ++
      (if names.length = 1 then " was" else " were") ++ " unexpected)"
  | .notChosen v choices =>
    v.shown ++ " is not one of " ++ (Display.list (choices.map .text)).render
  | .emptyText => Text.quoted "" ++ " should be non-empty"
  | .mismatch s p => Text.quoted s ++ " does not match " ++ Text.quoted p

/-- A fault and the place where it was found, as steps from the whole document. -/
structure Problem where
  place : List Step
  fault : Fault

namespace Problem

/-- A problem of a value inside another one, seen from there. -/
def under (step : Step) (p : Problem) : Problem := { p with place := step :: p.place }

def placeText : List Step → String
  | [] => "root"
  | place => " -> ".intercalate (place.map Step.shown)

def message (p : Problem) : String :=
  "Validation error at " ++ placeText p.place ++ ": " ++ p.fault.message

end Problem

/-- A problem of a value itself. -/
def here (f : Fault) : Problem := ⟨[], f⟩

/-- The problems of a text that should have a shape. -/
def checkText (nonempty : Bool) (pattern : Pattern) (s : String) : List Problem :=
  (if nonempty && s.isEmpty then [here .emptyText] else []) ++
    if pattern.accepts s then [] else [here (.mismatch s pattern.source)]

/-- The problems of an object that lacks some of its required members. -/
def checkRequired (required : List String) (members : List (String × Json)) : List Problem :=
  (required.filter fun name => (members.lookup name).isNone).map fun name => here (.missing name)

/-- The problem of an object with members that its shape does not know. -/
def checkNames (known : List String) (members : List (String × Json)) : List Problem :=
  match (members.map Prod.fst).filter fun name => !known.contains name with
  | [] => []
  | names => [here (.unexpected (names.mergeSort fun a b => decide (a ≤ b)))]

namespace Shape

mutual

def check : Shape → Json → List Problem
  | .choice choices, v =>
    match v with
    | .string s => if s ∈ choices then [] else [here (.notChosen v choices)]
    | _ => [here (.notChosen v choices)]
  | .text nonempty pattern, v =>
    match v with
    | .string s => checkText nonempty pattern s
    | _ => [here (.wrongType v "string")]
  | .array items, v =>
    match v with
    | .array vs => (vs.mapIdx fun i v => (items.check v).map (Problem.under (.index i))).flatten
    | _ => [here (.wrongType v "array")]
  | .object required properties, v =>
    match v with
    | .object members =>
      checkRequired required members ++ checkNames (properties.map Prod.fst) members ++
        checkProperties properties members
    | _ => [here (.wrongType v "object")]
termination_by structural shape => shape

/-- The problems inside the members of an object, property by property. -/
def checkProperties : List (String × Shape) → List (String × Json) → List Problem
  | [], _ => []
  | (name, shape) :: properties, members =>
    ((members.lookup name).elim [] fun v => (shape.check v).map (Problem.under (.key name))) ++
      checkProperties properties members
termination_by structural properties => properties

end

end Shape

end TypedAssets.Schema
