import TypedAssets.Proofs.Functions
import TypedAssets.Proofs.Generation

/-!
# Paths stay in their literals

The strings of the generated module are the load paths, and nothing else in it depends on a path. So
`packText_literals`: whatever the paths are, the literals of the generated text are the load paths, and the
code around them is the same.
-/

namespace TypedAssets

def Asset.withoutPath (a : Asset) : Asset := { a with path := "" }

namespace Asset

@[simp] theorem kind_withoutPath (a : Asset) : a.withoutPath.kind = a.kind := rfl

@[simp] theorem name_withoutPath (a : Asset) : a.withoutPath.name = a.name := rfl

@[simp] theorem field_withoutPath (a : Asset) : a.withoutPath.field = a.field := rfl

end Asset

namespace Manifest

def withoutPaths (m : Manifest) : Manifest := ⟨m.assets.map Asset.withoutPath⟩

@[simp] theorem assets_withoutPaths (m : Manifest) :
    m.withoutPaths.assets = m.assets.map Asset.withoutPath := rfl

@[simp] theorem ofKind_withoutPaths (m : Manifest) (k : Kind) :
    m.withoutPaths.ofKind k = (m.ofKind k).map Asset.withoutPath := by
  rw [ofKind, assets_withoutPaths, List.filter_map]
  rfl

theorem withoutPaths_eq {m n : Manifest}
    (h : m.assets.map (fun a => (a.kind, a.name)) = n.assets.map fun a => (a.kind, a.name)) :
    m.withoutPaths = n.withoutPaths := by
  have hpair (as : List Asset) : as.map Asset.withoutPath =
      (as.map fun a => (a.kind, a.name)).map fun p => ⟨p.1, p.2, ""⟩ := by
    rw [List.map_map]
    rfl
  rw [withoutPaths, withoutPaths, hpair, hpair, h]

end Manifest

namespace Pack

open Code Node

variable (m : Manifest)

theorem strings_keyCase (k : Kind) {body : Asset → Node} (hbody : ∀ a, (body a).strings = []) :
    (Node.case (.var "key") ((m.ofKind k).map fun a => (.var a.name, body a))
      (some k.keyType)).strings = [] := by
  rw [strings, stringsBranches_eq, List.flatMap_map]
  simp [strings, hbody]

theorem strings_tryBuild : (tryBuild m).strings = [] := by
  simp [tryBuild, slots, completed, justVar, strings, stringsAll_eq, stringsFields_eq,
    stringsBranches_eq, List.flatMap_map]

theorem strings_loadList (k : Kind) : (loadList m k).strings = (m.ofKind k).map Asset.loadPath := by
  have hcall (a : Asset) : (loadCall k a).strings = [a.loadPath] := by cases k <;> rfl
  rw [loadList, strings, strings, stringsAll_eq, List.flatMap_map, List.map_eq_flatMap]
  simp only [hcall]

theorem strings_packModule : m.packModule.strings = (slotOrder m).map Asset.loadPath := by
  have hkeys : (keyTypes m).flatMap strings = [] := by simp [keyTypes, strings, List.flatMap_map]
  have hinitial : (initialBuilder m).strings = [] := by
    simp [initialBuilder, strings, stringsFields_eq, List.flatMap_map]
  have hinsert : (Kind.all.map (insertion m)).flatMap strings = [] := by
    have hone (k : Kind) : (insertion m k).strings = [] :=
      strings_keyCase m k fun a => by simp [justVar, strings, stringsFields_eq, stringsAll_eq]
    simp [List.flatMap_map, hone]
  have hload : (loadLists m).flatMap strings = (slotOrder m).map Asset.loadPath := by
    show [] ++ ((loadList m .texture).strings ++ ([] ++ ((loadList m .sound).strings ++ []))) = _
    simp [strings_loadList, slotOrder]
  have hlookups : [textureLookup m, soundLookup m].flatMap strings = [] := by
    have hone (k : Kind) : (selection m k).strings = [] := strings_keyCase m k fun a => rfl
    simp [textureLookup, soundLookup, strings, hone]
  have hcontainers : (containerTypes m).flatMap strings = [] := rfl
  simp only [Module.strings, Module.declarations, Manifest.packModule, sections, List.flatten_cons,
    List.flatten_nil, List.flatMap_append, List.flatMap_cons, List.flatMap_nil, hkeys, hcontainers,
    hinitial, strings_tryBuild, hinsert, hload]
  simpa using hlookups

theorem numberSlots_withoutPath (vars : Fields String) (as : List Asset) :
    numberSlots vars (as.map Asset.withoutPath) = numberSlots vars as := by
  induction as generalizing vars with
  | nil => rfl
  | cons a as ih => rw [List.map_cons, numberSlots, ih, numberSlots, Asset.field_withoutPath]

theorem captures_withoutPaths : captures m.withoutPaths = captures m := by
  simp only [captures, Manifest.ofKind_withoutPaths, numberSlots_withoutPath]

theorem emptied_loadList (k : Kind) : (loadList m.withoutPaths k).emptied = (loadList m k).emptied := by
  have hcall (a : Asset) : (loadCall k a.withoutPath).emptied = (loadCall k a).emptied := by
    cases k <;> rfl
  simp [loadList, emptied, emptiedAll_eq, hcall]

theorem emptied_packModule : m.withoutPaths.packModule.emptied = m.packModule.emptied := by
  have hkeys : keyTypes m.withoutPaths = keyTypes m := by simp [keyTypes, Function.comp_def]
  have hused : usedKinds m.withoutPaths = usedKinds m := by simp [usedKinds, Manifest.count]
  have hcontainers : containerTypes m.withoutPaths = containerTypes m := by
    simp [containerTypes, containerOf, hused, Function.comp_def]
  have hinitial : initialBuilder m.withoutPaths = initialBuilder m := by
    simp [initialBuilder, Function.comp_def]
  have htry : tryBuild m.withoutPaths = tryBuild m := by
    simp [tryBuild, slots, completed, captures_withoutPaths, Function.comp_def]
  have hinsert (k : Kind) : insertion m.withoutPaths k = insertion m k := by
    simp [insertion, Function.comp_def]
  have hselect (k : Kind) : selection m.withoutPaths k = selection m k := by
    simp [selection, Function.comp_def]
  have hload : (loadLists m.withoutPaths).map emptied = (loadLists m).map emptied := by
    show [_, (loadList m.withoutPaths .texture).emptied, _, (loadList m.withoutPaths .sound).emptied] = _
    rw [emptied_loadList, emptied_loadList]
    rfl
  refine congrArg (Code.Module.mk _ _) ?_
  simp only [Manifest.packModule, sections, hkeys, hcontainers, hinitial, htry, funext hinsert,
    textureLookup, soundLookup, hselect, List.map_cons, hload]

end Pack

namespace Manifest

/-- Whatever the paths are, the literals of the generated text are the load paths of the textures and then
of the sounds, none with a line control in it, and the rest of the text depends on the kinds and names
alone. -/
theorem packText_literals {m : Manifest} (hm : ∀ a ∈ m.assets, '"' ∉ a.name.toList) :
    ∃ text ps, m.packText = .ok text ∧ Code.cut none text.toList = some ps ∧
      (Code.bodies ps).length = m.assets.length ∧
      (Code.bodies ps).mapM Code.unescape =
        some ((m.ofKind .texture ++ m.ofKind .sound).map fun a => a.loadPath.toList) ∧
      (∀ b ∈ Code.bodies ps, ∀ c ∈ ['\n', '\r', '\t'], c ∉ b) ∧
      ∀ n : Manifest,
        (n.assets.map fun a => (a.kind, a.name)) = (m.assets.map fun a => (a.kind, a.name)) →
        ∃ text' ps', n.packText = .ok text' ∧ Code.cut none text'.toList = some ps' ∧
          ∀ placeholder, Code.hidden placeholder ps' = Code.hidden placeholder ps := by
  obtain ⟨text, htext⟩ := Pack.packText_ok m
  obtain ⟨ps, k, hps, hbodies, hk, hcut⟩ :=
    (Pack.namedWithout_packModule (q := .quote) hm).cut_text htext
  rw [Pack.strings_packModule] at hbodies
  refine ⟨text, ps, htext, hps, ?_, ?_, fun b hb c hc => ?_, fun n hn => ?_⟩
  · rw [hbodies, List.length_map, List.length_map, (Pack.slotOrder_perm m).length_eq]
  · rw [hbodies, Code.mapM_unescape, List.map_map]
    rfl
  · rw [hbodies] at hb
    obtain ⟨s, -, rfl⟩ := List.mem_map.1 hb
    intro hmem
    obtain ⟨d, -, hd⟩ := List.mem_flatMap.1 hmem
    exact Code.control_not_mem_escaped hc d hd
  · have hnames : ∀ a ∈ n.assets, '"' ∉ a.name.toList := by
      intro a ha
      have hpair : (a.kind, a.name) ∈ m.assets.map fun a => (a.kind, a.name) :=
        hn ▸ List.mem_map_of_mem ha
      obtain ⟨b, hb, hba⟩ := List.mem_map.1 hpair
      rw [← (Prod.mk.inj hba).2]
      exact hm b hb
    obtain ⟨text', htext'⟩ := Pack.packText_ok n
    obtain ⟨ps', k', hps', -, hk', hcut'⟩ :=
      (Pack.namedWithout_packModule (q := .quote) hnames).cut_text htext'
    -- both texts have the code of the module without strings around their literals
    have hemptied : n.packModule.emptied = m.packModule.emptied := by
      rw [← Pack.emptied_packModule, withoutPaths_eq hn, Pack.emptied_packModule]
    rw [hemptied, hk, Except.ok.injEq] at hk'
    rw [← hk', hcut, Option.some.injEq] at hcut'
    refine ⟨text', ps', htext', hps', fun placeholder => ?_⟩
    rw [← Code.hidden_emptied, ← hcut', Code.hidden_emptied]

/-- A path that closes its literal and goes on like code and one that ends in backslashes, against two that
do not. -/
theorem packText_literals_codelike_path :
    let m : Manifest :=
      ⟨[⟨.sound, "Hit", "hit\\\\"⟩, ⟨.texture, "A", "x.png\" A\n    , LoadTexture \"./y"⟩]⟩
    let n : Manifest := ⟨[⟨.sound, "Hit", "hit"⟩, ⟨.texture, "A", "x"⟩]⟩
    (∀ a ∈ m.assets, '"' ∉ a.name.toList) ∧
      ∃ text ps, m.packText = .ok text ∧ Code.cut none text.toList = some ps ∧
        (Code.bodies ps).mapM Code.unescape =
          some ["./assets/img/x.png\" A\n    , LoadTexture \"./y.png".toList,
            "./assets/sound/hit\\\\.mp3".toList] ∧
        ∃ text' ps', n.packText = .ok text' ∧ Code.cut none text'.toList = some ps' ∧
          Code.hidden ['_'] ps' = Code.hidden ['_'] ps := by
  intro m n
  have hm : ∀ a ∈ m.assets, '"' ∉ a.name.toList := by decide
  obtain ⟨text, ps, htext, hps, -, hbodies, -, hrest⟩ := packText_literals hm
  obtain ⟨text', ps', htext', hps', hhidden⟩ := hrest n (by decide)
  exact ⟨hm, text, ps, htext, hps, hbodies, text', ps', htext', hps', hhidden ['_']⟩

end Manifest

end TypedAssets
