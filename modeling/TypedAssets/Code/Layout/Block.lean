import TypedAssets.Code.Layout.Inline

/-!
# Expressions as blocks

The lines of an expression in the body of a function. Lists and records of more than one item go one
item to a line with leading commas, a case puts an empty line between its branches, and a call whose
last argument takes several lines puts it below itself. All else is one line.

So a case may stand as the body of a function, as the body of a branch of such a case, and as the
last argument of such a call, and nowhere else.
-/

namespace TypedAssets.Code

namespace Node

mutual

/-- Whether an expression takes several lines: a case, a list or a record of more than one item, or
a call whose last argument does. -/
def isMultiline : Node → Bool
  | .case .. => true
  | .list ns => 1 < ns.length
  | .record fs => 1 < fs.length
  | .call _ args => lastIsMultiline args
  | _ => false
termination_by structural n => n

def lastIsMultiline : List Node → Bool
  | [] => false
  | [n] => n.isMultiline
  | _ :: ns => lastIsMultiline ns
termination_by structural ns => ns

end

end Node

/-- Items one to a line: the first after the opening bracket, the others after a comma, and the
closing bracket on a line of its own. -/
def bracketed (indent : Nat) (left right : String) : List String → List Line
  | [] => [⟨indent, right⟩]
  | item :: items =>
    ⟨indent, left ++ " " ++ item⟩ :: items.map (fun i => ⟨indent, ", " ++ i⟩) ++ [⟨indent, right⟩]

/-- The lines of the branches of a case, with an empty line between two of them. -/
def separated : List (List Line) → List Line
  | [] => []
  | [b] => b
  | b :: bs => b ++ Line.blank :: separated bs

/-- The only branch of a case over a type without values: it is entered with a value of `Never`. -/
def impossibleBranch (indent : Nat) (ty : String) : List Line :=
  [⟨indent, ty ++ " impossible ->"⟩, ⟨indent + indentStep, "never impossible"⟩]

namespace Node

mutual

/-- An expression as lines that start at column `indent`. -/
def blockLines (indent : Nat) : Node → Except LayoutError (List Line)
  | .list ns =>
    if 1 < ns.length then return bracketed indent "[" "]" (← inlineAll ns)
    else return [⟨indent, ← inlineText (.list ns)⟩]
  | .record fs =>
    if 1 < fs.length then
      return bracketed indent "\x7b" "\x7d" ((← inlineFields fs).map fun f => f.1 ++ " = " ++ f.2)
    else return [⟨indent, ← inlineText (.record fs)⟩]
  | .call f args =>
    if lastIsMultiline args then do
      let (heads, lines) ← blockArgs (indent + indentStep) args
      return ⟨indent, spaced f heads⟩ :: lines
    else return [⟨indent, ← inlineText (.call f args)⟩]
  | .case s bs ty =>
    match bs, ty with
    | [], none => .error .emptyCase
    | [], some t =>
      return ⟨indent, "case " ++ (← s.inlineText) ++ " of"⟩ ::
        impossibleBranch (indent + indentStep) t
    | bs, _ =>
      return ⟨indent, "case " ++ (← s.inlineText) ++ " of"⟩ ::
        separated (← branchLines (indent + indentStep) bs)
  | n => return [⟨indent, ← n.inlineText⟩]
termination_by structural n => n

/-- The arguments of a call whose last one is a block: the text of the others and the lines of the
last. -/
def blockArgs (indent : Nat) : List Node → Except LayoutError (List String × List Line)
  | [] => .ok ([], [])
  | [n] => return ([], ← n.blockLines indent)
  | n :: ns => do
    let head := n.asArgument (← n.inlineText)
    let (heads, lines) ← blockArgs indent ns
    return (head :: heads, lines)
termination_by structural ns => ns

/-- The lines of each branch of a case: its pattern, then its body one level deeper. -/
def branchLines (indent : Nat) : List (Node × Node) → Except LayoutError (List (List Line))
  | [] => .ok []
  | (p, b) :: bs => do
    let head : Line := ⟨indent, (← p.inlineText) ++ " ->"⟩
    let body ← b.blockLines (indent + indentStep)
    return (head :: body) :: (← branchLines indent bs)
termination_by structural bs => bs

end

end Node

end TypedAssets.Code
