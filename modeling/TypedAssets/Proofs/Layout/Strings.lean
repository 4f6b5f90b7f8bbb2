import TypedAssets.Code.Layout.Module

/-!
# The strings of a piece of code

The strings that a piece of code holds, in the order of its text, and that code with every string empty.
How code is laid out does not depend on its strings (`isMultiline_emptied`).
-/

namespace TypedAssets.Code

namespace Node

mutual

/-- The strings of a declaration or an expression, in the order of its text. -/
def strings : Node → List String
  | .str s => [s]
  | .call _ ns => stringsAll ns
  | .list ns => stringsAll ns
  | .tuple ns => stringsAll ns
  | .record fs => stringsFields fs
  | .update _ fs => stringsFields fs
  | .case s bs _ => s.strings ++ stringsBranches bs
  | .function _ _ _ b => b.strings
  | _ => []
termination_by structural n => n

def stringsAll : List Node → List String
  | [] => []
  | n :: ns => n.strings ++ stringsAll ns
termination_by structural ns => ns

def stringsFields : List (String × Node) → List String
  | [] => []
  | (_, n) :: fs => n.strings ++ stringsFields fs
termination_by structural fs => fs

def stringsBranches : List (Node × Node) → List String
  | [] => []
  | (p, b) :: bs => p.strings ++ b.strings ++ stringsBranches bs
termination_by structural bs => bs

end

mutual

/-- A declaration or an expression with every string empty. -/
def emptied : Node → Node
  | .str _ => .str ""
  | .call f ns => .call f (emptiedAll ns)
  | .list ns => .list (emptiedAll ns)
  | .tuple ns => .tuple (emptiedAll ns)
  | .record fs => .record (emptiedFields fs)
  | .update r fs => .update r (emptiedFields fs)
  | .case s bs ty => .case s.emptied (emptiedBranches bs) ty
  | .function f ty ps b => .function f ty ps b.emptied
  | n => n
termination_by structural n => n

def emptiedAll : List Node → List Node
  | [] => []
  | n :: ns => n.emptied :: emptiedAll ns
termination_by structural ns => ns

def emptiedFields : List (String × Node) → List (String × Node)
  | [] => []
  | (x, n) :: fs => (x, n.emptied) :: emptiedFields fs
termination_by structural fs => fs

def emptiedBranches : List (Node × Node) → List (Node × Node)
  | [] => []
  | (p, b) :: bs => (p.emptied, b.emptied) :: emptiedBranches bs
termination_by structural bs => bs

end

theorem stringsAll_eq (ns : List Node) : stringsAll ns = ns.flatMap strings := by
  induction ns with
  | nil => rfl
  | cons n ns ih => rw [stringsAll, ih, List.flatMap_cons]

theorem stringsFields_eq (fs : List (String × Node)) :
    stringsFields fs = fs.flatMap fun f => f.2.strings := by
  induction fs with
  | nil => rfl
  | cons f fs ih => rw [stringsFields, ih, List.flatMap_cons]

theorem stringsBranches_eq (bs : List (Node × Node)) :
    stringsBranches bs = bs.flatMap fun b => b.1.strings ++ b.2.strings := by
  induction bs with
  | nil => rfl
  | cons b bs ih => rw [stringsBranches, ih, List.flatMap_cons]

theorem emptiedAll_eq (ns : List Node) : emptiedAll ns = ns.map emptied := by
  induction ns with
  | nil => rfl
  | cons n ns ih => rw [emptiedAll, ih, List.map_cons]

theorem emptiedFields_eq (fs : List (String × Node)) :
    emptiedFields fs = fs.map fun f => (f.1, f.2.emptied) := by
  induction fs with
  | nil => rfl
  | cons f fs ih => rw [emptiedFields, ih, List.map_cons]

theorem asArgument_emptied (n : Node) : n.emptied.asArgument = n.asArgument := by
  have happ : n.emptied.isApplication = n.isApplication := by
    cases n with
    | call f ns => cases ns <;> rfl
    | _ => rfl
  funext t
  rw [asArgument, asArgument, happ]

mutual

theorem isMultiline_emptied (n : Node) : n.emptied.isMultiline = n.isMultiline := by
  cases n with
  | call f ns => exact lastIsMultiline_emptied ns
  | list ns => rw [emptied, emptiedAll_eq, isMultiline, isMultiline, List.length_map]
  | record fs => rw [emptied, emptiedFields_eq, isMultiline, isMultiline, List.length_map]
  | _ => rfl
termination_by structural n

theorem lastIsMultiline_emptied (ns : List Node) :
    lastIsMultiline (emptiedAll ns) = lastIsMultiline ns := by
  match ns with
  | [] => rfl
  | [n] => exact isMultiline_emptied n
  | _ :: n :: ns => exact lastIsMultiline_emptied (n :: ns)
termination_by structural ns

end

end Node

namespace Module

/-- The strings of a module, in the order of its text. -/
def strings (M : Module) : List String := M.declarations.flatMap Node.strings

/-- A module with every string empty. -/
def emptied (M : Module) : Module := ⟨M.name, M.imports, M.sections.map fun ds => ds.map Node.emptied⟩

theorem declarations_emptied (M : Module) : M.emptied.declarations = M.declarations.map Node.emptied := by
  rw [declarations, declarations, List.map_flatten]
  rfl

end Module

end TypedAssets.Code
