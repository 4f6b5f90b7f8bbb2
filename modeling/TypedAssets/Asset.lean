import TypedAssets.Json

/-!
# Assets

An asset is a texture or a sound that a game loads when it starts. Its kind fixes the directory and
the file extension, its path the place of the file below that directory, and its name the key that
the game's code uses for it.
-/

namespace TypedAssets

inductive Kind where
  | texture
  | sound
  deriving DecidableEq, Repr

/-- A kind was asked for by a value that names none. -/
structure UnknownKind where
  value : Json

namespace UnknownKind

def message (e : UnknownKind) : String := e.value.shown ++ " is not a valid AssetKind"

end UnknownKind

namespace Kind

/-- Every kind, in the order in which generated code treats them. -/
def all : List Kind := [.texture, .sound]

theorem mem_all (k : Kind) : k ∈ all := by cases k <;> simp [all]

/-- The word for a kind in documents and tables. -/
def word : Kind → String
  | .texture => "texture"
  | .sound => "sound"

/-- The symbol for a kind in shown assets. -/
def symbol : Kind → String
  | .texture => "TEXTURE"
  | .sound => "SOUND"

/-- The directory below the asset root that holds files of a kind. -/
def directory : Kind → String
  | .texture => "img"
  | .sound => "sound"

def extension : Kind → String
  | .texture => "png"
  | .sound => "mp3"

theorem word_injective {k l : Kind} (h : k.word = l.word) : k = l := by
  cases k <;> cases l <;> simp_all [word]

def ofWord? (w : String) : Option Kind := all.find? fun k => k.word = w

@[simp] theorem ofWord?_word (k : Kind) : ofWord? k.word = some k := by cases k <;> rfl

/-- The kind that a JSON value names. -/
def ofJson (v : Json) : Except UnknownKind Kind :=
  match v with
  | .string w => (ofWord? w).elim (.error ⟨v⟩) .ok
  | _ => .error ⟨v⟩

def display (k : Kind) : Display :=
  .word ("<AssetKind." ++ k.symbol ++ ": " ++ Text.quoted k.word ++ ">")

end Kind

/-- An asset: its name in code, and the path of its file below the directory of its kind, without
the extension. -/
structure Asset where
  kind : Kind
  name : String
  path : String
  deriving DecidableEq, Repr

namespace Asset

/-- The path that a running game loads an asset from. -/
def loadPath (a : Asset) : String :=
  "./assets/" ++ a.kind.directory ++ "/" ++ a.path ++ "." ++ a.kind.extension

/-- Two files of one kind with one load path are the same file. -/
theorem path_eq_of_loadPath_eq {a b : Asset} (hk : a.kind = b.kind) (h : a.loadPath = b.loadPath) :
    a.path = b.path := by
  rw [loadPath, loadPath, hk, String.append_left_inj, String.append_left_inj, String.append_right_inj] at h
  exact h

def document (a : Asset) : Json :=
  .object [("kind", .string a.kind.word), ("name", .string a.name), ("path", .string a.path)]

def display (a : Asset) : Display :=
  .labelled "Asset" [("kind", a.kind.display), ("name", .text a.name), ("path", .text a.path)]

end Asset

end TypedAssets
