import TypedAssets.Pack.Session
import TypedAssets.Proofs.Completion

/-!
# The functions of a generated module

What each function of the module of a manifest gives for any key and any record: the empty builder, the
insertions, the completion check, the look-ups and the load lists, found in the module by their names.
Names only have to be constructors, and fields distinct where a whole record is made.
-/

namespace TypedAssets

/-- The asset of a kind with a name. -/
def Manifest.find? (m : Manifest) (k : Kind) (name : String) : Option Asset :=
  (m.ofKind k).find? fun a => a.name = name

theorem Manifest.find?_some {m : Manifest} {k : Kind} {name : String} {a : Asset}
    (h : m.find? k name = some a) : a ∈ m.assets ∧ a.kind = k ∧ a.name = name := by
  obtain ⟨hmem, hk⟩ := Manifest.mem_ofKind.1 (List.mem_of_find?_eq_some h)
  exact ⟨hmem, hk, by simpa using List.find?_some h⟩

theorem Manifest.find?_of_mem {m : Manifest} (hnd : (m.assets.map Asset.name).Nodup) {a : Asset}
    (ha : a ∈ m.assets) : m.find? a.kind a.name = some a := by
  cases h : m.find? a.kind a.name with
  | none =>
    have hname := List.find?_eq_none.1 h a (Manifest.mem_ofKind.2 ⟨ha, rfl⟩)
    simp at hname
  | some b =>
    obtain ⟨hb, -, hname⟩ := find?_some h
    rw [List.inj_on_of_nodup_map hnd hb ha hname]

namespace Pack

open Code

variable {m : Manifest}

/-- The look-up of a kind. -/
def lookup (m : Manifest) : Kind → Node
  | .texture => textureLookup m
  | .sound => soundLookup m

/-- The request to load an asset. -/
def loadCall : Kind → Asset → Node
  | .texture, a => .call "LoadTexture" [.str a.loadPath, .var a.name]
  | .sound, a => .call "LoadAudio" [.var a.name, .str a.loadPath]

def loadListName : Kind → String
  | .texture => "loadAllTextures"
  | .sound => "loadAllSounds"

def loadListType : Kind → String
  | .texture => "List LoadTexture"
  | .sound => "List LoadAudio"

def loadList (m : Manifest) (k : Kind) : Node :=
  .function (loadListName k) (loadListType k) [] (.list ((m.ofKind k).map (loadCall k)))

theorem find_insertName (m : Manifest) (k : Kind) :
    m.packModule.find k.insertName = .ok (insertion m k) := by
  cases k <;> rfl

theorem find_tryBuildName (m : Manifest) : m.packModule.find tryBuildName = .ok (tryBuild m) := by
  rfl

theorem find_getName (m : Manifest) (k : Kind) : m.packModule.find k.getName = .ok (lookup m k) := by
  cases k <;> rfl

theorem find_loadListName (m : Manifest) (k : Kind) :
    m.packModule.find (loadListName k) = .ok (loadList m k) := by
  cases k <;> rfl

theorem constant_initialName (m : Manifest) :
    Session.constant m.packModule initialName =
      ((initialBuilder m).body.eval []).mapError StepError.eval := rfl

theorem applied_insertName (m : Manifest) (k : Kind) (args : List Value) :
    Session.applied m.packModule k.insertName args = ((insertion m k).apply args).mapError .eval := by
  rw [Session.applied, find_insertName]
  rfl

theorem applied_tryBuildName (m : Manifest) (args : List Value) :
    Session.applied m.packModule tryBuildName args = ((tryBuild m).apply args).mapError .eval := by
  rw [Session.applied, find_tryBuildName]
  rfl

theorem applied_getName (m : Manifest) (k : Kind) (args : List Value) :
    Session.applied m.packModule k.getName args = ((lookup m k).apply args).mapError .eval := by
  rw [Session.applied, find_getName]
  rfl

theorem eval_initialBuilder (hnd : (m.assets.map Asset.field).Nodup) :
    (initialBuilder m).body.eval [] = .ok (.record (m.assets.map fun a => (a.field, .nothing))) :=
  Node.eval_record_map hnd fun _ _ => rfl

/-- The variables of an insertion. -/
def insertionEnv (k : Kind) (name : String) (v : Value) (b : Fields Value) : Env :=
  [("key", Session.key name), (k.loadedVar, v), ("builder", .record b)]

theorem eval_insertion_update (k : Kind) (name : String) (v : Value) (b : Fields Value) (x : String) :
    (Node.update "builder" [(x, justVar k.loadedVar)]).eval (insertionEnv k name v b) =
      if (b.get? x).isNone then .error (.noSuchField x) else .ok (.record (b.set x v.just)) := by
  have hb : (insertionEnv k name v b).lookup "builder" = .ok (.record b) := by
    cases k <;> rfl
  have hv : (justVar k.loadedVar).eval (insertionEnv k name v b) = .ok v.just := by
    cases k <;> rfl
  rw [Node.eval, hb]
  simp only [bind, Except.bind, Value.copiedFields_record, Node.evalUpdates, hv]
  by_cases hx : (b.get? x).isNone
  · rw [if_pos hx, if_pos hx]
    rfl
  · rw [if_neg hx, if_neg hx]
    rfl

/-- An insertion takes the names of its kind and no others, and sets the field of the named asset if
the builder has it. -/
theorem insertion_apply (hup : ∀ a ∈ m.assets, Text.startsUppercase a.name = true) (k : Kind)
    (name : String) (v : Value) (b : Fields Value) :
    (insertion m k).apply [Session.key name, v, .record b] =
      match m.find? k name with
      | none => .error (.noMatchingBranch (Session.key name))
      | some a =>
        if (b.get? a.field).isNone then .error (.noSuchField a.field)
        else .ok (.record (b.set a.field v.just)) := by
  have happly : (insertion m k).apply [Session.key name, v, .record b] =
      Node.evalBranches (insertionEnv k name v b) (.ctor name [])
        ((m.ofKind k).map fun a =>
          (.var a.name, .update "builder" [(a.field, justVar k.loadedVar)])) := by
    cases k <;> rfl
  have hfind : ((m.ofKind k).find? fun a => a.name = name) = m.find? k name := rfl
  rw [happly, Node.evalBranches_constants _ fun a ha => hup a (Manifest.mem_ofKind.1 ha).1, hfind]
  cases m.find? k name with
  | none => rfl
  | some a => exact eval_insertion_update k name v b a.field

/-- A look-up takes the names of its kind and no others, and reads the field of the named asset. -/
theorem lookup_apply (hup : ∀ a ∈ m.assets, Text.startsUppercase a.name = true) (k : Kind)
    (name : String) (p : Fields Value) :
    (lookup m k).apply (Session.lookupArgs (.record p) k name) =
      match m.find? k name with
      | none => .error (.noMatchingBranch (Session.key name))
      | some a => (p.get? a.field).elim (.error (.missingField a.field)) .ok := by
  obtain ⟨env, hp, happly⟩ : ∃ env : Env, env.get? "pack" = some (.record p) ∧
      (lookup m k).apply (Session.lookupArgs (.record p) k name) =
        Node.evalBranches env (.ctor name [])
          ((m.ofKind k).map fun a => (.var a.name, .access "pack" a.field)) := by
    cases k
    · exact ⟨[("pack", .record p), ("key", Session.key name)], rfl, rfl⟩
    · exact ⟨[("key", Session.key name), ("pack", .record p)], rfl, rfl⟩
  have hfind : ((m.ofKind k).find? fun a => a.name = name) = m.find? k name := rfl
  rw [happly, Node.evalBranches_constants _ fun a ha => hup a (Manifest.mem_ofKind.1 ha).1, hfind]
  cases m.find? k name with
  | none => rfl
  | some a => exact Node.eval_access hp a.field

/-- What a load list asks for: a file of a kind, and the key to insert it under. -/
structure Load where
  kind : Kind
  path : String
  key : String
  deriving DecidableEq

/-- A texture's path comes before its key, a sound's key before its path. -/
def Load.value : Load → Value
  | ⟨.texture, path, key⟩ => .ctor "LoadTexture" [.text path, Session.key key]
  | ⟨.sound, path, key⟩ => .ctor "LoadAudio" [Session.key key, .text path]

def loadOf (a : Asset) : Load := ⟨a.kind, a.loadPath, a.name⟩

def loads (m : Manifest) (k : Kind) : List Load := (m.ofKind k).map loadOf

theorem eval_loadCall {a : Asset} (ha : Text.startsUppercase a.name = true) :
    (loadCall a.kind a).eval [] = .ok (loadOf a).value := by
  have hname : (Node.var a.name).eval [] = .ok (Session.key a.name) := by
    rw [Node.eval, if_pos ha]
    rfl
  rw [loadOf]
  cases a.kind with
  | texture =>
    have hargs : Node.evalAll [] [.str a.loadPath, .var a.name] =
        .ok [.text a.loadPath, Session.key a.name] := by
      rw [Node.evalAll, Node.evalAll, hname]
      rfl
    rw [loadCall, Node.eval, hargs]
    rfl
  | sound =>
    have hargs : Node.evalAll [] [.var a.name, .str a.loadPath] =
        .ok [Session.key a.name, .text a.loadPath] := by
      rw [Node.evalAll, hname]
      rfl
    rw [loadCall, Node.eval, hargs]
    rfl

theorem eval_loadList (hup : ∀ a ∈ m.assets, Text.startsUppercase a.name = true) (k : Kind) :
    (loadList m k).body.eval [] = .ok (.list ((loads m k).map Load.value)) := by
  have hcalls : ∀ a ∈ m.ofKind k, (loadCall k a).eval [] = .ok (loadOf a).value := by
    intro a ha
    obtain ⟨hmem, rfl⟩ := Manifest.mem_ofKind.1 ha
    exact eval_loadCall (hup a hmem)
  show (Node.list ((m.ofKind k).map (loadCall k))).eval [] = _
  rw [Node.eval, Node.evalAll_map hcalls, loads, List.map_map]
  rfl

end Pack

end TypedAssets
