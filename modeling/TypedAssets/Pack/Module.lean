import TypedAssets.Code.Layout.Module
import TypedAssets.Code.Value
import TypedAssets.Manifest.Basic
import TypedAssets.Words

/-!
# The asset pack module

The module that is generated for a manifest. It declares a key type per kind with one constructor
per asset, and a container record with one field per asset, used twice: filled with loaded assets it
is the pack, filled with `Maybe` slots it is the builder. Its functions start an empty builder,
insert a loaded asset under its key, complete the builder to a pack once every slot is filled, and
look up an asset of the pack; two lists say which file to load for which key.

Constructors, fields and branches follow the order of the manifest. Only the completion check groups
the slots by kind, textures before sounds, because a list holds slots of one type.
-/

namespace TypedAssets

open Code

namespace Kind

def keyType : Kind → String
  | .texture => "TextureKey"
  | .sound => "SoundKey"

def loadedType : Kind → String
  | .texture => "Texture"
  | .sound => "Audio.Source"

/-- The container's type parameter for the slots of a kind. -/
def typeParam : Kind → String
  | .texture => "textureType"
  | .sound => "soundType"

def loadedVar : Kind → String
  | .texture => "texture"
  | .sound => "sound"

def insertName : Kind → String
  | .texture => "insertTexture"
  | .sound => "insertSound"

def getName : Kind → String
  | .texture => "getTexture"
  | .sound => "getSound"

end Kind

/-- The field of the container that holds an asset. -/
def Asset.field (a : Asset) : String := Words.camelCase a.name

namespace Pack

def containerType : String := "AssetPackContainer"

def packType : String := "AssetPack"

def builderType : String := "AssetPackBuilder"

variable (m : Manifest)

def keyTypes : List Node :=
  Kind.all.map fun k => .sumType k.keyType ((m.ofKind k).map fun a => ⟨a.name, []⟩)

/-- The kinds that have assets; only these have a type parameter, since each parameter must be used
by a field. -/
def usedKinds : List Kind := Kind.all.filter fun k => m.count k ≠ 0

/-- The container applied to one type per kind. -/
def containerOf (slotType : Kind → String) : String :=
  " ".intercalate (containerType :: (usedKinds m).map slotType)

def optionalType (ty : String) : String := "(Maybe " ++ ty ++ ")"

def containerTypes : List Node :=
  [.recordAlias containerType ((usedKinds m).map Kind.typeParam)
      (m.assets.map fun a => (a.field, a.kind.typeParam)),
    .typeAlias packType (containerOf m Kind.loadedType),
    .typeAlias builderType (containerOf m fun k => optionalType k.loadedType)]

def justVar (x : String) : Node := .call "Just" [.var x]

def initialName : String := "initialAssetPackBuilder"

def initialBuilder : Node :=
  .function initialName builderType []
    (.record (m.assets.map fun a => (a.field, .var "Nothing")))

/-- Numbers slots: the variable that captures the value of each, and for every field the variable of
the last slot with that field. The number of a variable is the number of fields named before. -/
def numberSlots (vars : Fields String) : List Asset → List String × Fields String
  | [] => ([], vars)
  | a :: as =>
    let x := "t" ++ toString vars.length
    let (xs, vars') := numberSlots (vars.set a.field x) as
    (x :: xs, vars')

/-- The variables that capture the textures, the variables that capture the sounds, and the variable
of each field. -/
def captures : List String × List String × Fields String :=
  let (ts, vars) := numberSlots [] (m.ofKind .texture)
  let (ss, vars') := numberSlots vars (m.ofKind .sound)
  (ts, ss, vars')

/-- The slots of one kind, read from the builder. -/
def slots (k : Kind) : Node := .list ((m.ofKind k).map fun a => .access "builder" a.field)

def completed : Node :=
  .record (m.assets.map fun a => (a.field, .var (((captures m).2.2.get? a.field).getD "")))

def tryBuildName : String := "tryBuildAssetPack"

/-- The completion check: the pack if every slot is filled, and else nothing. -/
def tryBuild : Node :=
  .function tryBuildName (builderType ++ " -> Maybe " ++ packType) ["builder"]
    (.case (.tuple [slots m .texture, slots m .sound])
      [(.tuple [.list ((captures m).1.map justVar), .list ((captures m).2.1.map justVar)],
          .call "Just" [completed m]),
        (.wildcard, .var "Nothing")]
      none)

def insertion (k : Kind) : Node :=
  .function k.insertName
    (" -> ".intercalate [k.keyType, k.loadedType, builderType, builderType])
    ["key", k.loadedVar, "builder"]
    (.case (.var "key")
      ((m.ofKind k).map fun a => (.var a.name, .update "builder" [(a.field, justVar k.loadedVar)]))
      (some k.keyType))

/-- The requests to load the textures, each a path and a key, and the sounds, each a key and a path,
as the loaders of the two kinds take them. -/
def loadLists : List Node :=
  [.sumType "LoadTexture" [⟨"LoadTexture", ["String", Kind.texture.keyType]⟩],
    .function "loadAllTextures" "List LoadTexture" []
      (.list ((m.ofKind .texture).map fun a => .call "LoadTexture" [.str a.loadPath, .var a.name])),
    .sumType "LoadAudio" [⟨"LoadAudio", [Kind.sound.keyType, "String"]⟩],
    .function "loadAllSounds" "List LoadAudio" []
      (.list ((m.ofKind .sound).map fun a => .call "LoadAudio" [.var a.name, .str a.loadPath]))]

/-- The field of the pack under the key of an asset of a kind. -/
def selection (k : Kind) : Node :=
  .case (.var "key") ((m.ofKind k).map fun a => (.var a.name, .access "pack" a.field))
    (some k.keyType)

/-- The look-up of a texture, pack first. -/
def textureLookup : Node :=
  .function Kind.texture.getName
    (" -> ".intercalate [packType, Kind.texture.keyType, Kind.texture.loadedType])
    ["pack", "key"] (selection m .texture)

/-- The look-up of a sound, key first. -/
def soundLookup : Node :=
  .function Kind.sound.getName
    (" -> ".intercalate [Kind.sound.keyType, packType, Kind.sound.loadedType])
    ["key", "pack"] (selection m .sound)

def imports : List Import := [⟨"Audio", []⟩, ⟨"Canvas.Texture", ["Texture"]⟩]

def sections : List (List Node) :=
  [keyTypes m, containerTypes m, [initialBuilder m], [tryBuild m],
    Kind.all.map (insertion m), loadLists m, [textureLookup m, soundLookup m]]

end Pack

namespace Manifest

def packModule (m : Manifest) : Module := ⟨"Gen.AssetPack", Pack.imports, Pack.sections m⟩

def packText (m : Manifest) : Except LayoutError String := m.packModule.text

end Manifest

end TypedAssets
