import TypedAssets.Code.Node
import TypedAssets.Text.Padding

/-!
# Lines of generated code

Generated code is laid out as lines, each with its own indentation. This module holds the lines and
the ways in which a layout can fail.
-/

namespace TypedAssets.Code

/-- Code that cannot be laid out: no declaration where one must stand, no expression that fits on
one line where one must stand, or a case that has neither branches nor a type to take them from. -/
inductive LayoutError where
  | notDeclaration (node : Node)
  | notInline (node : Node)
  | emptyCase

def LayoutError.message : LayoutError → String
  | .notDeclaration n => "Unknown declaration: " ++ n.shown
  | .notInline n => "Cannot render inline: " ++ n.shown
  | .emptyCase => "Empty case needs a subject type"

/-- The columns that each level of a block is indented by. -/
def indentStep : Nat := 4

/-- A line: its text and the number of spaces before it. -/
structure Line where
  indent : Nat
  text : String
  deriving DecidableEq

namespace Line

/-- The empty line. -/
def blank : Line := ⟨0, ""⟩

def render (l : Line) : String := Text.spaces l.indent ++ l.text

theorem render_blank : blank.render = "" := by simp [blank, render, Text.spaces]

end Line

/-- The text of some lines, without a line break at its end. -/
def renderLines (ls : List Line) : String := "\n".intercalate (ls.map Line.render)

/-- A first word and others after it. -/
def spaced (head : String) (rest : List String) : String := " ".intercalate (head :: rest)

end TypedAssets.Code
