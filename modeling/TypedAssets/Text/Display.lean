import TypedAssets.Text.Quoted

/-!
# Shown values

Messages show the value they complain about. `Display` is the shape of a shown value, whatever it is
a value of, and `Display.render` fixes the brackets and separators once for all of them: lists in
square brackets, tuples in parentheses with a comma after a lone item, keyed entries in braces, and
labelled fields as `Label(field=value, …)`.
-/

namespace TypedAssets

/-- The shape of a shown value. -/
inductive Display where
  | word (text : String)
  | text (value : String)
  | list (items : List Display)
  | tuple (items : List Display)
  | keyed (entries : List (String × Display))
  | labelled (label : String) (fields : List (String × Display))

namespace Display

/-- Items between brackets, separated by commas. -/
def enclosed (left : String) (items : List String) (right : String) : String :=
  left ++ ", ".intercalate items ++ right

/-- Items in parentheses; a lone item keeps a comma after it. -/
def parenthesised : List String → String
  | [item] => "(" ++ item ++ ",)"
  | items => enclosed "(" items ")"

mutual

/-- The text of a shown value. -/
def render : Display → String
  | .word w => w
  | .text s => Text.quoted s
  | .list ds => enclosed "[" (renderItems ds) "]"
  | .tuple ds => parenthesised (renderItems ds)
  | .keyed es => enclosed "\x7b" (renderEntries es) "\x7d"
  | .labelled l fs => enclosed (l ++ "(") (renderFields fs) ")"
termination_by structural d => d

def renderItems : List Display → List String
  | [] => []
  | d :: ds => render d :: renderItems ds
termination_by structural ds => ds

def renderEntries : List (String × Display) → List String
  | [] => []
  | (k, d) :: es => (Text.quoted k ++ ": " ++ render d) :: renderEntries es
termination_by structural es => es

def renderFields : List (String × Display) → List String
  | [] => []
  | (n, d) :: fs => (n ++ "=" ++ render d) :: renderFields fs
termination_by structural fs => fs

end

/-- A tuple of texts. -/
def texts (ss : List String) : Display := .tuple (ss.map .text)

end Display

end TypedAssets
