import TypedAssets.Code.Layout.Basic
import TypedAssets.Code.Literal

/-!
# Expressions on one line

The text of an expression on one line. Every expression but a case has one; an argument of a call is
put in parentheses if it is a call with arguments of its own.
-/

namespace TypedAssets.Code

/-- Names with a text each, as a record writes them. -/
def assignments (fields : List (String × String)) : String :=
  ", ".intercalate (fields.map fun f => f.1 ++ " = " ++ f.2)

namespace Node

/-- Whether a piece of code is a call with arguments; as an argument it needs parentheses. -/
def isApplication : Node → Bool
  | .call _ (_ :: _) => true
  | _ => false

/-- The text of an argument, given its text on its own. -/
def asArgument (n : Node) (text : String) : String :=
  if n.isApplication then "(" ++ text ++ ")" else text

mutual

/-- An expression on one line. -/
def inlineText : Node → Except LayoutError String
  | .var x => .ok x
  | .access r f => .ok (r ++ "." ++ f)
  | .str s => .ok (literal s)
  | .wildcard => .ok "_"
  | .call f args => return spaced f (← inlineArgs args)
  | .list [] => .ok "[]"
  | .list ns => return "[ " ++ ", ".intercalate (← inlineAll ns) ++ " ]"
  | .tuple ns => return "( " ++ ", ".intercalate (← inlineAll ns) ++ " )"
  | .record [] => .ok "\x7b\x7d"
  | .record fs => return "\x7b " ++ assignments (← inlineFields fs) ++ " \x7d"
  | .update r fs => return "\x7b " ++ r ++ " | " ++ assignments (← inlineFields fs) ++ " \x7d"
  | n => .error (.notInline n)
termination_by structural n => n

def inlineAll : List Node → Except LayoutError (List String)
  | [] => .ok []
  | n :: ns => return (← n.inlineText) :: (← inlineAll ns)
termination_by structural ns => ns

def inlineArgs : List Node → Except LayoutError (List String)
  | [] => .ok []
  | n :: ns => return n.asArgument (← n.inlineText) :: (← inlineArgs ns)
termination_by structural ns => ns

def inlineFields : List (String × Node) → Except LayoutError (List (String × String))
  | [] => .ok []
  | (x, n) :: fs => return (x, ← n.inlineText) :: (← inlineFields fs)
termination_by structural fs => fs

end

end Node

end TypedAssets.Code
