import TypedAssets.Code.Node
import TypedAssets.Code.Value

/-!
# Failures of an evaluation

The ways in which the evaluation of generated code can fail, and their texts.
-/

namespace TypedAssets.Code

/-- The ways in which an evaluation can fail. The last three are those of a copy of a value's
fields: an item that is no pair because it has no items, a pair of another length than two, and a
key that cannot be one. -/
inductive EvalError where
  | unbound (name : String)
  | missingField (name : String)
  | notRecord (value : Value)
  | noSuchField (name : String)
  | unexpectedCall (func : String)
  | notExpression (node : Node)
  | notPattern (node : Node)
  | noMatchingBranch (subject : Value)
  | arity (func : String) (expected : Nat)
  | notPair (index : Nat) (item : Value)
  | pairLength (index length : Nat)
  | notKey (key : Value)

def EvalError.message : EvalError → String
  | .unbound x => x
  | .missingField x => x
  | .notRecord v => v.shown ++ " is not a record"
  | .noSuchField x => "Record has no field " ++ x
  | .unexpectedCall f => "Unexpected function call: " ++ f
  | .notExpression n => "Cannot evaluate " ++ n.shown
  | .notPattern n => "Unsupported pattern " ++ n.shown
  | .noMatchingBranch v => "No branch matches " ++ v.shown
  | .arity f n => f ++ " takes " ++ toString n ++ " args"
  | .notPair i v => "Element " ++ toString i ++ " is not a pair: " ++ v.shown
  | .pairLength i n =>
    "dictionary update sequence element #" ++ toString i ++ " has length " ++ toString n ++
      "; 2 is required"
  | .notKey v => v.shown ++ " is not a key"

end TypedAssets.Code
