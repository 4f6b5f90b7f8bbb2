import TypedAssets.Fields
import TypedAssets.Json

/-!
# Values of generated code

What generated code computes: scalars as in JSON documents, constructor values, lists, tuples and
records.
-/

namespace TypedAssets.Code

/-- A value of generated code. -/
inductive Value where
  | null
  | bool (value : Bool)
  | int (value : Int)
  | float (shown : String)
  | text (value : String)
  | ctor (name : String) (args : List Value)
  | list (items : List Value)
  | tuple (items : List Value)
  | record (fields : List (String × Value))

namespace Value

/-- A filled slot. -/
def just (v : Value) : Value := .ctor "Just" [v]

/-- An empty slot. -/
def nothing : Value := .ctor "Nothing" []

mutual

/-- The shown form of a value. -/
def display : Value → Display
  | .null => Json.showNull
  | .bool b => Json.showBool b
  | .int n => .word (toString n)
  | .float t => .word t
  | .text s => .text s
  | .ctor c vs => .labelled "Ctor" [("name", .text c), ("args", .tuple (displayAll vs))]
  | .list vs => .list (displayAll vs)
  | .tuple vs => .tuple (displayAll vs)
  | .record fs => .keyed (displayFields fs)
termination_by structural v => v

def displayAll : List Value → List Display
  | [] => []
  | v :: vs => v.display :: displayAll vs
termination_by structural vs => vs

def displayFields : List (String × Value) → List (String × Display)
  | [] => []
  | (x, v) :: fs => (x, v.display) :: displayFields fs
termination_by structural fs => fs

end

/-- The text of a value inside a message. -/
def shown (v : Value) : String := v.display.render

end Value

end TypedAssets.Code
