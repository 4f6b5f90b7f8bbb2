import TypedAssets.Code.Record
import TypedAssets.Text.Uppercase

/-!
# Evaluation of generated code

What the generated functions compute. A name that starts with an uppercase character is a
constructor, any other name a variable; only constructors are applied, since generated code calls no
function. Subexpressions are evaluated from left to right and the first error ends the evaluation.

The record of an update may be a value that is no record but holds pairs. Of these only the pairs with
a text as their key are copied (`Value.setKeyed`), so the updated record lacks the others.

Matching a value against a pattern gives the bindings the pattern makes, in the order of its
variables. A variable that stands twice is bound to the value it met last.
-/

namespace TypedAssets.Code

/-- The variables in scope. -/
abbrev Env := Fields Value

/-- The value of a variable in scope. -/
def Env.lookup (env : Env) (x : String) : Except EvalError Value :=
  (env.get? x).elim (.error (.unbound x)) .ok

namespace Value

/-- Whether a value is a constructor without arguments. -/
def isConstant (v : Value) (name : String) : Bool :=
  match v with
  | .ctor c [] => c = name
  | _ => false

end Value

namespace Node

mutual

/-- The bindings that a pattern makes on a value, or none if it does not match. -/
def match? (pattern : Node) (v : Value) : Except EvalError (Option Env) :=
  match pattern with
  | .wildcard => .ok (some [])
  | .var x =>
    if Text.startsUppercase x then .ok (if v.isConstant x then some [] else none)
    else .ok (some [(x, v)])
  | .call f ps =>
    match v with
    | .ctor c vs => if c = f ∧ ps.length = vs.length then matchAll? ps vs else .ok none
    | _ => .ok none
  | .list ps =>
    match v with
    | .list vs => if ps.length = vs.length then matchAll? ps vs else .ok none
    | _ => .ok none
  | .tuple ps =>
    match v with
    | .tuple vs => if ps.length = vs.length then matchAll? ps vs else .ok none
    | _ => .ok none
  | p => .error (.notPattern p)
termination_by structural pattern

/-- The bindings that patterns make on as many values, up to the first that does not match. -/
def matchAll? (patterns : List Node) (vs : List Value) : Except EvalError (Option Env) :=
  match patterns, vs with
  | p :: ps, v :: vs => do
    match ← p.match? v with
    | none => return none
    | some env =>
      match ← matchAll? ps vs with
      | none => return none
      | some env' => return some (Fields.merge env env')
  | _, _ => .ok (some [])
termination_by structural patterns

end

mutual

/-- The value of an expression. -/
def eval (env : Env) : Node → Except EvalError Value
  | .var x => if Text.startsUppercase x then .ok (.ctor x []) else env.lookup x
  | .access r f => do (← env.lookup r).field f
  | .str s => .ok (.text s)
  | .call f args => do
    let vs ← evalAll env args
    if Text.startsUppercase f then return .ctor f vs else throw (.unexpectedCall f)
  | .list ns => return .list (← evalAll env ns)
  | .tuple ns => return .tuple (← evalAll env ns)
  | .record fs => return .record (Fields.ofList (← evalFields env fs))
  | .update r fs => do return .record (← evalUpdates env (← (← env.lookup r).copiedFields) fs)
  | .case s bs _ => do evalBranches env (← s.eval env) bs
  | n => .error (.notExpression n)
termination_by structural n => n

def evalAll (env : Env) : List Node → Except EvalError (List Value)
  | [] => .ok []
  | n :: ns => return (← n.eval env) :: (← evalAll env ns)
termination_by structural ns => ns

def evalFields (env : Env) : List (String × Node) → Except EvalError (List (String × Value))
  | [] => .ok []
  | (x, n) :: fs => return (x, ← n.eval env) :: (← evalFields env fs)
termination_by structural fs => fs

/-- A record with some of its fields set anew. -/
def evalUpdates (env : Env) (record : Fields Value) :
    List (String × Node) → Except EvalError (Fields Value)
  | [] => .ok record
  | (x, n) :: fs => do
    if (record.get? x).isNone then throw (.noSuchField x)
    evalUpdates env (record.set x (← n.eval env)) fs
termination_by structural fs => fs

/-- The body of the first branch whose pattern matches, evaluated with the pattern's bindings. -/
def evalBranches (env : Env) (subject : Value) : List (Node × Node) → Except EvalError Value
  | [] => .error (.noMatchingBranch subject)
  | (p, b) :: bs => do
    match ← p.match? subject with
    | some bindings => b.eval (env.merge bindings)
    | none => evalBranches env subject bs
termination_by structural bs => bs

end

/-- The value of a function for some arguments. -/
def apply (f : Node) (args : List Value) : Except EvalError Value :=
  match f with
  | .function name _ params body =>
    if args.length = params.length then body.eval (Fields.ofList (params.zip args))
    else .error (.arity name params.length)
  | n => .error (.notExpression n)

/-- The body of a function declaration. -/
def body : Node → Node
  | .function _ _ _ b => b
  | n => n

end Node

end TypedAssets.Code
