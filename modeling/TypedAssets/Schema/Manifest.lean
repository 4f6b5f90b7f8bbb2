import TypedAssets.Manifest.Basic
import TypedAssets.Schema.Basic
import TypedAssets.Text.Blank

/-!
# The manifest schema

The documents that manifests are written as: one list of assets, each with a kind, a name that can
be a constructor, and a path that stays below its directory and needs no escape.
-/

namespace TypedAssets.Schema

/-- Letters, digits and the underscore, in ASCII. -/
def isNameChar (c : Char) : Bool := c.isAlphanum || c == '_'

/-- Characters that a path may hold: no white space, no double quote and no backslash. -/
def isPathChar (c : Char) : Bool := !(Text.isBlank c || c == '"' || c == '\\')

/-- A constructor name: a capital, then letters, digits and underscores. -/
def namePattern : Pattern where
  source := "^[A-Z][A-Za-z0-9_]*$"
  first := Char.isUpper
  rest := isNameChar

/-- A path that does not start with a slash or a dot. -/
def pathPattern : Pattern where
  source := "^[^/\\\\\"\\s.][^\\\\\"\\s]*$"
  first c := isPathChar c && c != '/' && c != '.'
  rest := isPathChar

def asset : Shape :=
  .object ["kind", "name", "path"]
    [("kind", .choice (Kind.all.map Kind.word)), ("name", .text false namePattern),
      ("path", .text true pathPattern)]

def manifest : Shape := .object ["assets"] [("assets", .array asset)]

def problems (document : Json) : List Problem := manifest.check document

end TypedAssets.Schema
