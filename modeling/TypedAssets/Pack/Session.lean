import TypedAssets.Code.Eval
import TypedAssets.Pack.Module

/-!
# Sessions with a generated module

A session runs the functions of a generated module as a game does: it starts a builder, inserts
loaded assets, tries to complete the builder to a pack, and looks assets up. It remembers the
builder and the last completed pack, both of which start as the empty record. A step that fails
changes neither.
-/

namespace TypedAssets.Pack

open Code

inductive Step where
  | initial
  | insert (kind : Kind) (key : String) (value : Value)
  | tryBuild
  | get (kind : Kind) (key : String)
  | load (name : String)

/-- A step failed: its function is not declared, or the evaluation failed. -/
inductive StepError where
  | undeclared (e : Undeclared)
  | eval (e : EvalError)

def StepError.message : StepError → String
  | .undeclared e => e.message
  | .eval e => e.message

/-- What a session remembers. -/
structure Session where
  builder : Value := .record []
  pack : Value := .record []

namespace Session

/-- The value of a declared constant. -/
def constant (m : Module) (name : String) : Except StepError Value := do
  let d ← (m.find name).mapError .undeclared
  (d.body.eval []).mapError .eval

/-- The value of a declared function for some arguments. -/
def applied (m : Module) (name : String) (args : List Value) : Except StepError Value := do
  let d ← (m.find name).mapError .undeclared
  (d.apply args).mapError .eval

def key (name : String) : Value := .ctor name []

/-- The arguments of a look-up: a texture's pack comes first, a sound's key. -/
def lookupArgs (pack : Value) (k : Kind) (name : String) : List Value :=
  match k with
  | .texture => [pack, key name]
  | .sound => [key name, pack]

def result (m : Module) (s : Session) : Step → Except StepError Value
  | .initial => constant m initialName
  | .insert k name v => applied m k.insertName [key name, v, s.builder]
  | .tryBuild => applied m tryBuildName [s.builder]
  | .get k name => applied m k.getName (lookupArgs s.pack k name)
  | .load name => constant m name

/-- What a session remembers after a step had a result. -/
def remember (s : Session) (step : Step) (v : Value) : Session :=
  match step, v with
  | .initial, v | .insert .., v => { s with builder := v }
  | .tryBuild, .ctor "Just" [p] => { s with pack := p }
  | _, _ => s

/-- A step of a session: its result, and the session after it. -/
def step (m : Module) (s : Session) (st : Step) : Except StepError Value × Session :=
  match s.result m st with
  | .ok v => (.ok v, s.remember st v)
  | .error e => (.error e, s)

def run (m : Module) (s : Session) : List Step → List (Except StepError Value)
  | [] => []
  | st :: sts => (s.step m st).1 :: run m (s.step m st).2 sts

end Session

end TypedAssets.Pack
