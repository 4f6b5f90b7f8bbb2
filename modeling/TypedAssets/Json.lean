import TypedAssets.Text.Display

/-!
# JSON documents

JSON values. An object keeps the order its members were written in, because messages show whole
values. Nothing computes with numbers, so of a number with a fraction or an exponent only the text
that messages show for it is kept.
-/

namespace TypedAssets

/-- A JSON value. A number is an integer, or the shown form of another number. -/
inductive Json where
  | null
  | bool (value : Bool)
  | int (value : Int)
  | float (shown : String)
  | string (value : String)
  | array (items : List Json)
  | object (members : List (String × Json))

namespace Json

/-- The shown form of a truth value. -/
def showBool (b : Bool) : Display := .word (if b then "True" else "False")

/-- The shown form of the null value. -/
def showNull : Display := .word "None"

mutual

/-- The shown form of a JSON value. -/
def display : Json → Display
  | .null => showNull
  | .bool b => showBool b
  | .int n => .word (toString n)
  | .float t => .word t
  | .string s => .text s
  | .array vs => .list (displayItems vs)
  | .object ms => .keyed (displayMembers ms)
termination_by structural v => v

def displayItems : List Json → List Display
  | [] => []
  | v :: vs => display v :: displayItems vs
termination_by structural vs => vs

def displayMembers : List (String × Json) → List (String × Display)
  | [] => []
  | (k, v) :: ms => (k, display v) :: displayMembers ms
termination_by structural ms => ms

end

/-- The text of a JSON value inside a message. -/
def shown (v : Json) : String := v.display.render

/-- The word for the kind of value that stands where a text was needed. -/
def typeName : Json → String
  | .null => "NoneType"
  | .bool _ => "bool"
  | .int _ => "int"
  | .float _ => "float"
  | .string _ => "str"
  | .array _ => "list"
  | .object _ => "dict"

end Json

end TypedAssets
