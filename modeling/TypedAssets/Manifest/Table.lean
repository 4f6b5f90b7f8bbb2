import TypedAssets.Manifest.Basic
import TypedAssets.Text.Padding

/-!
# The asset table

One line per asset: its kind, its name and its load path, with kind and name padded to columns. The
name column is as wide as the longest name, counted in code points.
-/

namespace TypedAssets

namespace Manifest

/-- The width of the kind column. -/
def kindWidth : Nat := 7

/-- The width of the name column. -/
def nameWidth (m : Manifest) : Nat := (m.names.map String.length).foldr max 0

/-- The line of one asset. -/
def row (width : Nat) (a : Asset) : String :=
  Text.padRight kindWidth a.kind.word ++ " " ++ Text.padRight width a.name ++ " " ++ a.loadPath

/-- The table of a manifest; empty if there are no assets. -/
def table (m : Manifest) : String :=
  "\n".intercalate (m.assets.map (row m.nameWidth))

end Manifest

end TypedAssets
