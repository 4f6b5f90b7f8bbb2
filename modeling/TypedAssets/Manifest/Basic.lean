import TypedAssets.Asset

/-!
# Manifests

A manifest lists the assets of a game. Its order is kept: it decides the order of everything that is
generated from it.
-/

namespace TypedAssets

/-- The assets of a game, in order. -/
structure Manifest where
  assets : List Asset
  deriving DecidableEq, Repr

namespace Manifest

/-- The assets of one kind, in manifest order. -/
def ofKind (m : Manifest) (k : Kind) : List Asset := m.assets.filter fun a => a.kind = k

def count (m : Manifest) (k : Kind) : Nat := (m.ofKind k).length

def names (m : Manifest) : List String := m.assets.map (·.name)

theorem mem_ofKind {m : Manifest} {k : Kind} {a : Asset} :
    a ∈ m.ofKind k ↔ a ∈ m.assets ∧ a.kind = k := by
  simp [ofKind]

def document (m : Manifest) : Json :=
  .object [("assets", .array (m.assets.map Asset.document))]

def shown (m : Manifest) : String :=
  "Manifest(" ++ (Display.list (m.assets.map Asset.display)).render ++ ")"

end Manifest

/-- An entry of a manifest whose name has not been read yet. -/
structure Entry where
  kind : Kind
  name : Json
  path : String

/-- The name of an entry is a value that is no text. -/
structure UnreadableName where
  value : Json

namespace UnreadableName

def message (e : UnreadableName) : String :=
  "expected string or bytes-like object, got '" ++ e.value.typeName ++ "'"

end UnreadableName

/-- The asset of an entry whose name is a text. -/
def Entry.asset (e : Entry) : Except UnreadableName Asset :=
  match e.name with
  | .string name => .ok ⟨e.kind, name, e.path⟩
  | v => .error ⟨v⟩

/-- The manifest of some entries; the first unreadable name is reported. -/
def Manifest.ofEntries (es : List Entry) : Except UnreadableName Manifest :=
  Manifest.mk <$> es.mapM Entry.asset

end TypedAssets
