import TypedAssets.Code.Node
import TypedAssets.Text.Uppercase

/-!
# Code that refers only to what is there

`Node.Scoped` says of an expression that every name in it is declared or bound: variables by a parameter
or by the pattern of an enclosing branch, constructors by a sum type of the module or by the language,
fields by the one record type of the module. Records are written with all their fields in order, patterns
bind no name twice and hide none, and a case has a branch for every value of its subject.
-/

namespace TypedAssets.Code

/-- What the expressions of a module may refer to: constructors with their numbers of arguments, sum
types with their variants, and the fields of the record type. -/
structure Globals where
  constructors : List (String × Nat)
  sumTypes : List (String × List Variant)
  fields : List String

namespace Node

mutual

/-- The variables of a pattern, from left to right. -/
def boundNames : Node → List String
  | .var x => if Text.startsUppercase x then [] else [x]
  | .call _ ps | .list ps | .tuple ps => boundNamesAll ps
  | _ => []
termination_by structural p => p

def boundNamesAll : List Node → List String
  | [] => []
  | p :: ps => boundNames p ++ boundNamesAll ps
termination_by structural ps => ps

end

theorem boundNamesAll_eq_flatMap (ps : List Node) : boundNamesAll ps = ps.flatMap boundNames := by
  induction ps with
  | nil => rfl
  | cons p ps ih => rw [boundNamesAll, List.flatMap_cons, ih]

/-- A pattern that matches declared constructors only, each with all its arguments. -/
inductive IsPattern (Γ : Globals) : Node → Prop
  | wildcard : IsPattern Γ .wildcard
  | var {x : String} (hx : Text.startsUppercase x = false) : IsPattern Γ (.var x)
  | constant {c : String} (hc : Text.startsUppercase c = true) (h : (c, 0) ∈ Γ.constructors) :
      IsPattern Γ (.var c)
  | call {c : String} {ps : List Node} (h : (c, ps.length) ∈ Γ.constructors)
      (hps : ∀ p ∈ ps, IsPattern Γ p) : IsPattern Γ (.call c ps)
  | list {ps : List Node} (hps : ∀ p ∈ ps, IsPattern Γ p) : IsPattern Γ (.list ps)
  | tuple {ps : List Node} (hps : ∀ p ∈ ps, IsPattern Γ p) : IsPattern Γ (.tuple ps)

/-- Patterns that take every value of the subject: one for each variant of its type and in their order,
or else any patterns with a wildcard after them. -/
def Covers (Γ : Globals) (ps : List Node) : Option String → Prop
  | some ty => ∃ vs, (ty, vs) ∈ Γ.sumTypes ∧ ps = vs.map fun v => .var v.name
  | none => ps.getLast? = some .wildcard

/-- An expression whose names are all declared or in `vars`. -/
inductive Scoped (Γ : Globals) : List String → Node → Prop
  | var {vars : List String} {x : String} (hx : Text.startsUppercase x = false) (h : x ∈ vars) :
      Scoped Γ vars (.var x)
  | constant {vars : List String} {c : String} (hc : Text.startsUppercase c = true)
      (h : (c, 0) ∈ Γ.constructors) : Scoped Γ vars (.var c)
  | access {vars : List String} {r x : String} (hr : r ∈ vars) (hx : x ∈ Γ.fields) :
      Scoped Γ vars (.access r x)
  | str {vars : List String} {s : String} : Scoped Γ vars (.str s)
  | call {vars : List String} {c : String} {ns : List Node} (hc : Text.startsUppercase c = true)
      (h : (c, ns.length) ∈ Γ.constructors) (hns : ∀ n ∈ ns, Scoped Γ vars n) :
      Scoped Γ vars (.call c ns)
  | list {vars : List String} {ns : List Node} (hns : ∀ n ∈ ns, Scoped Γ vars n) :
      Scoped Γ vars (.list ns)
  | tuple {vars : List String} {ns : List Node} (hns : ∀ n ∈ ns, Scoped Γ vars n) :
      Scoped Γ vars (.tuple ns)
  | record {vars : List String} {fs : List (String × Node)} (h : fs.map Prod.fst = Γ.fields)
      (hfs : ∀ f ∈ fs, Scoped Γ vars f.2) : Scoped Γ vars (.record fs)
  | update {vars : List String} {r : String} {fs : List (String × Node)} (hr : r ∈ vars)
      (h : ∀ f ∈ fs, f.1 ∈ Γ.fields) (hfs : ∀ f ∈ fs, Scoped Γ vars f.2) :
      Scoped Γ vars (.update r fs)
  | case {vars : List String} {s : Node} {bs : List (Node × Node)} {ty : Option String}
      (hs : Scoped Γ vars s) (hcovers : Covers Γ (bs.map Prod.fst) ty)
      (hpattern : ∀ b ∈ bs, IsPattern Γ b.1)
      (hlinear : ∀ b ∈ bs, b.1.boundNames.Nodup ∧ ∀ x ∈ b.1.boundNames, x ∉ vars)
      (hbody : ∀ b ∈ bs, Scoped Γ (b.1.boundNames ++ vars) b.2) : Scoped Γ vars (.case s bs ty)

/-- A function, if the declaration is one, with distinct parameters and a body that refers to these and
to what is declared. -/
def FunctionScoped (Γ : Globals) : Node → Prop
  | .function _ _ ps b => ps.Nodup ∧ b.Scoped Γ ps
  | _ => True

end Node

namespace Module

/-- The sum types that a module declares. -/
def sumTypes (M : Module) : List (String × List Variant) :=
  M.declarations.filterMap fun d =>
    match d with
    | .sumType t vs => some (t, vs)
    | _ => none

/-- The constructors of a sum type as it is laid out. One without variants gets a constructor of its own
name, which wants a value that does not exist. -/
def typeConstructors (t : String) : List Variant → List (String × Nat)
  | [] => [(t, 1)]
  | vs => vs.map fun v => (v.name, v.args.length)

/-- The constructors that a module declares. -/
def constructors (M : Module) : List (String × Nat) :=
  M.sumTypes.flatMap fun t => typeConstructors t.1 t.2

/-- The constructors of the language that generated code uses. -/
def builtinConstructors : List (String × Nat) := [("Just", 1), ("Nothing", 0)]

/-- What the functions of a module may refer to if its record type has certain fields. -/
def globals (M : Module) (fields : List String) : Globals :=
  ⟨M.constructors ++ builtinConstructors, M.sumTypes, fields⟩

end Module

/-- How deep a character leaves the text after it inside brackets. -/
def depthAfter (depth : Nat) (c : Char) : Nat :=
  if c = '(' ∨ c = '\x7b' then depth + 1
  else if c = ')' ∨ c = '\x7d' then depth - 1
  else depth

/-- The pieces of a text between the spaces that stand outside all brackets. -/
def splitOutside (depth : Nat) : List Char → List (List Char)
  | [] => [[]]
  | c :: cs =>
    if c = ' ' ∧ depth = 0 then [] :: splitOutside depth cs
    else
      match splitOutside (depthAfter depth c) cs with
      | [] => [[c]]
      | w :: ws => (c :: w) :: ws

/-- The head of a type and its arguments. -/
def typeWords (ty : String) : List String := (splitOutside 0 ty.toList).map String.ofList

end TypedAssets.Code
