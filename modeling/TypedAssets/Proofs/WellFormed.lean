import Mathlib.Data.List.Sublists
import TypedAssets.Proofs.Completion
import TypedAssets.Proofs.Scope
import TypedAssets.Proofs.Validity

/-!
# The generated module is well formed

`wellFormed_packModule`: in the module of a valid manifest nothing is declared twice, the container and
its two instances agree on their parameters, and every function refers only to what is declared or bound.
-/

namespace TypedAssets

open Code

/-- A module whose declarations fit together around one record type, the container. -/
structure WellFormed (M : Module) (params : List String) (fields : List (String × String)) : Prop where
  names_nodup : (M.declarations.map Node.name?).Nodup
  constructors_nodup : (M.constructors.map Prod.fst).Nodup
  constructors_fresh : ∀ c ∈ M.constructors, c.1 ≠ "Just" ∧ c.1 ≠ "Nothing"
  container : .recordAlias Pack.containerType params fields ∈ M.declarations
  fields_nodup : (fields.map Prod.fst).Nodup
  fields_lexical : ∀ f ∈ fields, Words.IsFieldName f.1.toList ∧ f.1 ∉ Naming.keywords
  params_nodup : params.Nodup
  params_used : ∀ p, p ∈ params ↔ p ∈ fields.map Prod.snd
  instances : ∀ t ∈ [Pack.packType, Pack.builderType], ∃ target args,
    .typeAlias t target ∈ M.declarations ∧ typeWords target = Pack.containerType :: args ∧
      args.length = params.length ∧ "" ∉ args
  functions : ∀ d ∈ M.declarations, d.FunctionScoped (M.globals (fields.map Prod.fst))

namespace Pack

variable {m : Manifest}

theorem declarations_packModule (m : Manifest) :
    m.packModule.declarations =
      keyTypes m ++ containerTypes m ++ [initialBuilder m, tryBuild m] ++ Kind.all.map (insertion m) ++
        loadLists m ++ [textureLookup m, soundLookup m] := rfl

theorem mem_declarations_of_mem_containerTypes {d : Node} (h : d ∈ containerTypes m) :
    d ∈ m.packModule.declarations := by
  rw [declarations_packModule]
  simp only [List.mem_append]
  exact .inl (.inl (.inl (.inl (.inr h))))

theorem sumTypes_packModule (m : Manifest) :
    m.packModule.sumTypes =
      [(Kind.texture.keyType, (m.ofKind .texture).map fun a => ⟨a.name, []⟩),
        (Kind.sound.keyType, (m.ofKind .sound).map fun a => ⟨a.name, []⟩),
        ("LoadTexture", [⟨"LoadTexture", ["String", Kind.texture.keyType]⟩]),
        ("LoadAudio", [⟨"LoadAudio", [Kind.sound.keyType, "String"]⟩])] := rfl

theorem names_packModule (m : Manifest) :
    m.packModule.declarations.map Node.name? =
      ["TextureKey", "SoundKey", containerType, packType, builderType, initialName, tryBuildName,
        "insertTexture", "insertSound", "LoadTexture", "loadAllTextures", "LoadAudio", "loadAllSounds",
        "getTexture", "getSound"].map some := rfl

/-- The constructors of the key type of a kind, the names of its assets if it has any. -/
def keyNames (m : Manifest) (k : Kind) : List String :=
  if m.ofKind k = [] then [k.keyType] else (m.ofKind k).map Asset.name

theorem map_fst_typeConstructors (m : Manifest) (k : Kind) :
    (Module.typeConstructors k.keyType ((m.ofKind k).map fun a => ⟨a.name, []⟩)).map Prod.fst =
      keyNames m k := by
  rw [keyNames]
  cases m.ofKind k with
  | nil => rfl
  | cons a as =>
    rw [if_neg (List.cons_ne_nil a as)]
    simp [Module.typeConstructors]

theorem map_fst_constructors (m : Manifest) :
    m.packModule.constructors.map Prod.fst =
      keyNames m .texture ++ (keyNames m .sound ++ ["LoadTexture", "LoadAudio"]) := by
  rw [Module.constructors, sumTypes_packModule, List.flatMap_cons, List.flatMap_cons, List.map_append,
    List.map_append, map_fst_typeConstructors, map_fst_typeConstructors]
  rfl

theorem mem_keyNames {k : Kind} {c : String} (h : c ∈ keyNames m k) :
    c = k.keyType ∨ ∃ a ∈ m.assets, a.kind = k ∧ a.name = c := by
  rw [keyNames] at h
  split at h
  · exact .inl (List.mem_singleton.1 h)
  · obtain ⟨a, ha, rfl⟩ := List.mem_map.1 h
    exact .inr ⟨a, (Manifest.mem_ofKind.1 ha).1, (Manifest.mem_ofKind.1 ha).2, rfl⟩

/-- A key type has a constructor for every asset of its kind. -/
theorem name_mem_constructors {k : Kind} {a : Asset} (ha : a ∈ m.ofKind k) :
    (a.name, 0) ∈ m.packModule.constructors := by
  have h : (a.name, 0) ∈ Module.typeConstructors k.keyType ((m.ofKind k).map fun a => ⟨a.name, []⟩) := by
    cases hk : m.ofKind k with
    | nil => rw [hk] at ha; cases ha
    | cons b bs =>
      rw [hk] at ha
      refine List.mem_map.2 ⟨⟨a.name, []⟩, ?_, rfl⟩
      exact List.mem_map.2 ⟨a, ha, rfl⟩
  rw [Module.constructors, sumTypes_packModule]
  cases k
  · exact List.mem_append_left _ h
  · exact List.mem_append_right _ (List.mem_append_left _ h)

theorem keyType_mem_sumTypes (m : Manifest) (k : Kind) :
    (k.keyType, (m.ofKind k).map fun a => ⟨a.name, []⟩) ∈ m.packModule.sumTypes := by
  rw [sumTypes_packModule]
  cases k
  · exact List.mem_cons_self
  · exact List.mem_cons_of_mem _ List.mem_cons_self

theorem keyNames_nodup (hm : m.Valid) (k : Kind) : (keyNames m k).Nodup := by
  rw [keyNames]
  split
  · exact List.nodup_singleton _
  · exact hm.names_nodup.sublist (List.filter_sublist.map _)

/-- Names that are no asset's are kept apart from the keys by validation. -/
theorem not_mem_keyNames (hm : m.Valid) {k : Kind} {c : String} (hc : c ∈ Naming.reserved)
    (hk : c ≠ k.keyType) : c ∉ keyNames m k := by
  intro h
  rcases mem_keyNames h with rfl | ⟨a, ha, -, rfl⟩
  · exact hk rfl
  · exact hm.name_not_mem_reserved ha hc

theorem keyNames_disjoint (hm : m.Valid) : List.Disjoint (keyNames m .texture) (keyNames m .sound) := by
  intro c ht hs
  rcases mem_keyNames ht with rfl | ⟨a, ha, hka, rfl⟩
  · exact not_mem_keyNames hm (by decide) (by decide) hs
  · rcases mem_keyNames hs with h | ⟨b, hb, hkb, h⟩
    · refine hm.name_not_mem_reserved ha ?_
      rw [h]
      decide
    · obtain rfl := hm.eq_of_name_eq hb ha h
      rw [hka] at hkb
      cases hkb

theorem constructors_nodup (hm : m.Valid) : (m.packModule.constructors.map Prod.fst).Nodup := by
  have hload (k : Kind) : List.Disjoint (keyNames m k) ["LoadTexture", "LoadAudio"] := by
    intro c hc h
    have hr : c ∈ Naming.reserved ∧ c ≠ k.keyType := by
      rcases List.mem_cons.1 h with rfl | h
      · cases k <;> decide
      · obtain rfl := List.mem_singleton.1 h
        cases k <;> decide
    exact not_mem_keyNames hm hr.1 hr.2 hc
  rw [map_fst_constructors, List.nodup_append', List.nodup_append']
  refine ⟨keyNames_nodup hm _, ⟨keyNames_nodup hm _, by decide, hload .sound⟩, ?_⟩
  rw [List.disjoint_append_right]
  exact ⟨keyNames_disjoint hm, hload .texture⟩

theorem constructors_fresh (hm : m.Valid) {c : String × Nat} (hc : c ∈ m.packModule.constructors) :
    c.1 ≠ "Just" ∧ c.1 ≠ "Nothing" := by
  have hmem : c.1 ∈ m.packModule.constructors.map Prod.fst := List.mem_map.2 ⟨c, hc, rfl⟩
  rw [map_fst_constructors, List.mem_append, List.mem_append] at hmem
  have hk {k : Kind} {x : String} (h : c.1 ∈ keyNames m k) (hx : x ∈ Naming.reserved)
      (hne : x ≠ k.keyType) : c.1 ≠ x := by
    rintro rfl
    exact not_mem_keyNames hm hx hne h
  rcases hmem with h | h | h
  · exact ⟨hk h (by decide) (by decide), hk h (by decide) (by decide)⟩
  · exact ⟨hk h (by decide) (by decide), hk h (by decide) (by decide)⟩
  · rcases List.mem_cons.1 h with h | h
    · rw [h]
      decide
    · rw [List.mem_singleton.1 h]
      decide

theorem mem_usedKinds {k : Kind} : k ∈ usedKinds m ↔ ∃ a ∈ m.assets, a.kind = k := by
  have hne : m.count k ≠ 0 ↔ ∃ a, a ∈ m.ofKind k := by
    rw [Manifest.count, Ne, List.length_eq_zero_iff, List.eq_nil_iff_forall_not_mem]
    push Not
    rfl
  rw [usedKinds, List.mem_filter, decide_eq_true_iff, hne]
  constructor
  · rintro ⟨-, a, ha⟩
    exact ⟨a, Manifest.mem_ofKind.1 ha⟩
  · rintro ⟨a, ha⟩
    exact ⟨k.mem_all, a, Manifest.mem_ofKind.2 ha⟩

theorem params_nodup (m : Manifest) : ((usedKinds m).map Kind.typeParam).Nodup := by
  have h : (Kind.all.map Kind.typeParam).Nodup := by decide
  exact h.sublist (List.filter_sublist.map _)

theorem mem_params {p : String} :
    p ∈ (usedKinds m).map Kind.typeParam ↔ p ∈ m.assets.map fun a => a.kind.typeParam := by
  rw [List.mem_map, List.mem_map]
  constructor
  · rintro ⟨k, hk, rfl⟩
    obtain ⟨a, ha, rfl⟩ := mem_usedKinds.1 hk
    exact ⟨a, ha, rfl⟩
  · rintro ⟨a, ha, rfl⟩
    exact ⟨a.kind, mem_usedKinds.2 ⟨a, ha, rfl⟩, rfl⟩

/-- The types that fill the slots are single arguments, since brackets enclose the optional ones. -/
theorem typeWords_containerOf (m : Manifest) {slotType : Kind → String}
    (h : slotType = Kind.loadedType ∨ slotType = fun k => optionalType k.loadedType) :
    typeWords (containerOf m slotType) = containerType :: (usedKinds m).map slotType := by
  -- which kinds are in use leaves four cases, each without variables
  have hcases : ∀ ks ∈ [[], [Kind.texture], [Kind.sound], [Kind.texture, Kind.sound]],
      typeWords (" ".intercalate (containerType :: ks.map slotType)) =
        containerType :: ks.map slotType := by
    rcases h with rfl | rfl <;> decide +kernel
  refine hcases _ ?_
  have hs : usedKinds m ∈ Kind.all.sublists := List.mem_sublists.2 List.filter_sublist
  exact (by decide : ∀ ks ∈ Kind.all.sublists, ks ∈ _) _ hs

/-! ### Functions -/

section

variable (m)

/-- What the functions of the module may refer to. -/
def globals : Globals := m.packModule.globals (m.assets.map Asset.field)

theorem just_mem_globals : ("Just", 1) ∈ (globals m).constructors :=
  List.mem_append_right _ List.mem_cons_self

theorem nothing_mem_globals : ("Nothing", 0) ∈ (globals m).constructors :=
  List.mem_append_right _ (List.mem_cons_of_mem _ List.mem_cons_self)

end

theorem name_mem_globals {k : Kind} {a : Asset} (ha : a ∈ m.ofKind k) :
    (a.name, 0) ∈ (globals m).constructors :=
  List.mem_append_left _ (name_mem_constructors ha)

theorem field_mem_globals {k : Kind} {a : Asset} (ha : a ∈ m.ofKind k) :
    a.field ∈ (globals m).fields :=
  List.mem_map.2 ⟨a, (Manifest.mem_ofKind.1 ha).1, rfl⟩

theorem scoped_nothing (m : Manifest) (vars : List String) :
    (Node.var "Nothing").Scoped (globals m) vars :=
  .constant (by decide) (nothing_mem_globals m)

theorem scoped_key (hm : m.Valid) {k : Kind} {a : Asset} (ha : a ∈ m.ofKind k) (vars : List String) :
    (Node.var a.name).Scoped (globals m) vars :=
  .constant (hm.startsUppercase_name (Manifest.mem_ofKind.1 ha).1) (name_mem_globals ha)

theorem scoped_just {vars : List String} {n : Node} (h : n.Scoped (globals m) vars) :
    (Node.call "Just" [n]).Scoped (globals m) vars := by
  refine .call (by decide) (just_mem_globals m) fun n' hn => ?_
  obtain rfl := List.mem_singleton.1 hn
  exact h

/-- A case over the keys of a kind has a branch for each key, whatever the branches do. -/
theorem scoped_keyCase (hm : m.Valid) (k : Kind) {vars : List String} (hkey : "key" ∈ vars)
    {body : Asset → Node} (hbody : ∀ a ∈ m.ofKind k, (body a).Scoped (globals m) vars) :
    (Node.case (.var "key") ((m.ofKind k).map fun a => (.var a.name, body a))
      (some k.keyType)).Scoped (globals m) vars := by
  have hup {a : Asset} (ha : a ∈ m.ofKind k) : Text.startsUppercase a.name = true :=
    hm.startsUppercase_name (Manifest.mem_ofKind.1 ha).1
  have hbound {a : Asset} (ha : a ∈ m.ofKind k) : (Node.var a.name).boundNames = [] := by
    rw [Node.boundNames, if_pos (hup ha)]
  refine .case (.var (by decide) hkey) ⟨_, keyType_mem_sumTypes m k, ?_⟩ ?_ ?_ ?_
  · rw [List.map_map, List.map_map]
    rfl
  · intro b hb
    obtain ⟨a, ha, rfl⟩ := List.mem_map.1 hb
    exact .constant (hup ha) (name_mem_globals ha)
  · intro b hb
    obtain ⟨a, ha, rfl⟩ := List.mem_map.1 hb
    show (Node.var a.name).boundNames.Nodup ∧ _
    rw [hbound ha]
    exact ⟨List.nodup_nil, fun x hx => absurd hx List.not_mem_nil⟩
  · intro b hb
    obtain ⟨a, ha, rfl⟩ := List.mem_map.1 hb
    show (body a).Scoped _ ((Node.var a.name).boundNames ++ vars)
    rw [hbound ha]
    exact hbody a ha

theorem scoped_initialBuilder (m : Manifest) : (initialBuilder m).FunctionScoped (globals m) := by
  refine ⟨List.nodup_nil, .record ?_ fun f hf => ?_⟩
  · rw [List.map_map]
    rfl
  · obtain ⟨a, -, rfl⟩ := List.mem_map.1 hf
    exact scoped_nothing m []

theorem scoped_insertion (hm : m.Valid) (k : Kind) : (insertion m k).FunctionScoped (globals m) := by
  have hvar : Text.startsUppercase k.loadedVar = false := by cases k <;> decide
  refine ⟨by cases k <;> decide, scoped_keyCase hm k List.mem_cons_self fun a ha => ?_⟩
  refine .update (by simp) (fun f hf => ?_) fun f hf => ?_
  · obtain rfl := List.mem_singleton.1 hf
    exact field_mem_globals ha
  · obtain rfl := List.mem_singleton.1 hf
    exact scoped_just (.var hvar (by simp))

theorem scoped_selection (hm : m.Valid) (k : Kind) {vars : List String} (hkey : "key" ∈ vars)
    (hpack : "pack" ∈ vars) : (selection m k).Scoped (globals m) vars :=
  scoped_keyCase hm k hkey fun _ ha => .access hpack (field_mem_globals ha)

theorem boundNames_captured {k : Kind} (hm : m.Valid) :
    Node.boundNames (.list ((m.ofKind k).map fun a => .call "Just" [.var (slotVar m a)])) =
      (m.ofKind k).map (slotVar m) := by
  rw [Node.boundNames, Node.boundNamesAll_eq_flatMap, List.flatMap_map, List.map_eq_flatMap]
  refine List.flatMap_congr fun a ha => ?_
  have hl := startsUppercase_slotVar hm.fields_nodup (Manifest.mem_ofKind.1 ha).1
  rw [Node.boundNames, Node.boundNamesAll, Node.boundNames, hl]
  rfl

/-- The pattern of a full builder binds one variable for each slot, in the order of the slots. -/
theorem boundNames_fullPattern (hm : m.Valid) :
    (fullPattern m).boundNames = (slotOrder m).map (slotVar m) := by
  rw [fullPattern_eq hm.fields_nodup, Node.boundNames, Node.boundNamesAll, Node.boundNamesAll,
    Node.boundNamesAll, boundNames_captured hm, boundNames_captured hm, List.append_nil, slotOrder,
    List.map_append]

theorem isPattern_fullPattern (hm : m.Valid) : (fullPattern m).IsPattern (globals m) := by
  have hk (k : Kind) : Node.IsPattern (globals m)
      (.list ((m.ofKind k).map fun a => .call "Just" [.var (slotVar m a)])) := by
    refine .list fun p hp => ?_
    obtain ⟨a, ha, rfl⟩ := List.mem_map.1 hp
    refine .call (just_mem_globals m) fun q hq => ?_
    obtain rfl := List.mem_singleton.1 hq
    exact .var (startsUppercase_slotVar hm.fields_nodup (Manifest.mem_ofKind.1 ha).1)
  rw [fullPattern_eq hm.fields_nodup]
  refine .tuple fun p hp => ?_
  rcases List.mem_cons.1 hp with rfl | hp
  · exact hk .texture
  · obtain rfl := List.mem_singleton.1 hp
    exact hk .sound

theorem scoped_groupedSlots (m : Manifest) {vars : List String} (h : "builder" ∈ vars) :
    (groupedSlots m).Scoped (globals m) vars := by
  have hk (k : Kind) : (slots m k).Scoped (globals m) vars := by
    refine .list fun n hn => ?_
    obtain ⟨a, ha, rfl⟩ := List.mem_map.1 hn
    exact .access h (field_mem_globals ha)
  refine .tuple fun n hn => ?_
  rcases List.mem_cons.1 hn with rfl | hn
  · exact hk .texture
  · obtain rfl := List.mem_singleton.1 hn
    exact hk .sound

theorem scoped_completed (hm : m.Valid) {vars : List String}
    (h : ∀ a ∈ m.assets, slotVar m a ∈ vars) : (completed m).Scoped (globals m) vars := by
  refine .record ?_ fun f hf => ?_
  · rw [List.map_map]
    rfl
  · obtain ⟨a, ha, rfl⟩ := List.mem_map.1 hf
    exact .var (startsUppercase_slotVar hm.fields_nodup ha) (h a ha)

theorem scoped_tryBuild (hm : m.Valid) : (tryBuild m).FunctionScoped (globals m) := by
  have hbuilder : "builder" ∉ (slotOrder m).map (slotVar m) := by
    intro h
    obtain ⟨a, ha, hx⟩ := List.mem_map.1 h
    have := head_slotVar hm.fields_nodup (mem_slotOrder.1 ha)
    rw [hx] at this
    exact absurd this (by decide)
  refine ⟨by decide, .case (scoped_groupedSlots m List.mem_cons_self) ?_ ?_ ?_ ?_⟩
  · show List.getLast? [fullPattern m, .wildcard] = _
    rfl
  · intro b hb
    rcases List.mem_cons.1 hb with rfl | hb
    · exact isPattern_fullPattern hm
    · obtain rfl := List.mem_singleton.1 hb
      exact .wildcard
  · intro b hb
    rcases List.mem_cons.1 hb with rfl | hb
    · show (fullPattern m).boundNames.Nodup ∧ ∀ x ∈ (fullPattern m).boundNames, _
      rw [boundNames_fullPattern hm]
      refine ⟨slotVars_nodup hm.fields_nodup, fun x hx h => hbuilder ?_⟩
      rwa [← List.mem_singleton.1 h]
    · obtain rfl := List.mem_singleton.1 hb
      exact ⟨List.nodup_nil, fun x hx => absurd hx List.not_mem_nil⟩
  · intro b hb
    rcases List.mem_cons.1 hb with rfl | hb
    · show (Node.call "Just" [completed m]).Scoped _ ((fullPattern m).boundNames ++ _)
      rw [boundNames_fullPattern hm]
      refine scoped_just (scoped_completed hm fun a ha => ?_)
      exact List.mem_append_left _ (List.mem_map.2 ⟨a, mem_slotOrder.2 ha, rfl⟩)
    · obtain rfl := List.mem_singleton.1 hb
      exact scoped_nothing m _

theorem loadConstructors_mem_globals (m : Manifest) :
    ("LoadTexture", 2) ∈ (globals m).constructors ∧ ("LoadAudio", 2) ∈ (globals m).constructors := by
  have h {c : String × Nat} (hc : c ∈ [("LoadTexture", 2), ("LoadAudio", 2)]) :
      c ∈ (globals m).constructors := by
    refine List.mem_append_left _ ?_
    rw [Module.constructors, sumTypes_packModule]
    exact List.mem_append_right _ (List.mem_append_right _ hc)
  exact ⟨h List.mem_cons_self, h (List.mem_cons_of_mem _ List.mem_cons_self)⟩

/-- Requests to load the assets of a kind, in whatever order each takes its path and its key. -/
theorem scoped_loadList (hm : m.Valid) (k : Kind) {c : String} {args : Asset → List Node}
    (hc : Text.startsUppercase c = true) (hmem : (c, 2) ∈ (globals m).constructors)
    (hargs : ∀ a, (args a).Perm [.str a.loadPath, .var a.name]) :
    (Node.list ((m.ofKind k).map fun a => .call c (args a))).Scoped (globals m) [] := by
  refine .list fun n hn => ?_
  obtain ⟨a, ha, rfl⟩ := List.mem_map.1 hn
  refine .call hc (by rwa [(hargs a).length_eq]) fun n hn => ?_
  rw [(hargs a).mem_iff] at hn
  rcases List.mem_cons.1 hn with rfl | hn
  · exact .str
  · obtain rfl := List.mem_singleton.1 hn
    exact scoped_key hm ha []

theorem scoped_loadLists (hm : m.Valid) : ∀ d ∈ loadLists m, d.FunctionScoped (globals m) := by
  have ⟨ht, hs⟩ := loadConstructors_mem_globals m
  intro d hd
  simp only [loadLists, List.mem_cons, List.not_mem_nil, or_false] at hd
  rcases hd with rfl | rfl | rfl | rfl
  · trivial
  · exact ⟨List.nodup_nil, scoped_loadList hm .texture (by decide) ht fun a => .refl _⟩
  · trivial
  · exact ⟨List.nodup_nil, scoped_loadList hm .sound (by decide) hs fun a => .swap _ _ _⟩

theorem scoped_declarations (hm : m.Valid) :
    ∀ d ∈ m.packModule.declarations, d.FunctionScoped (globals m) := by
  intro d hd
  simp only [declarations_packModule, List.mem_append, List.mem_cons, List.not_mem_nil,
    or_false] at hd
  rcases hd with ((((hd | hd) | rfl | rfl) | hd) | hd) | rfl | rfl
  · obtain ⟨k, -, rfl⟩ := List.mem_map.1 hd
    trivial
  · simp only [containerTypes, List.mem_cons, List.not_mem_nil, or_false] at hd
    rcases hd with rfl | rfl | rfl <;> trivial
  · exact scoped_initialBuilder m
  · exact scoped_tryBuild hm
  · obtain ⟨k, -, rfl⟩ := List.mem_map.1 hd
    exact scoped_insertion hm k
  · exact scoped_loadLists hm d hd
  · exact ⟨by decide, scoped_selection hm .texture (by simp) (by simp)⟩
  · exact ⟨by decide, scoped_selection hm .sound (by simp) (by simp)⟩

end Pack

/-- The module of a valid manifest is well formed: its container has a field for every asset, in order,
and a parameter for every kind that has assets. -/
theorem wellFormed_packModule {m : Manifest} (hm : m.Valid) :
    WellFormed m.packModule ((Pack.usedKinds m).map Kind.typeParam)
      (m.assets.map fun a => (a.field, a.kind.typeParam)) := by
  have hfields : (m.assets.map fun a => (a.field, a.kind.typeParam)).map Prod.fst =
      m.assets.map Asset.field := by
    rw [List.map_map]
    rfl
  have hargs {slotType : Kind → String} (h : ∀ k ∈ Kind.all, "" ≠ slotType k) :
      "" ∉ (Pack.usedKinds m).map slotType := by
    intro hmem
    obtain ⟨k, -, hk⟩ := List.mem_map.1 hmem
    exact h k k.mem_all hk.symm
  refine
    { names_nodup := ?_
      constructors_nodup := Pack.constructors_nodup hm
      constructors_fresh := fun c hc => Pack.constructors_fresh hm hc
      container := ?_
      fields_nodup := by rw [hfields]; exact hm.fields_nodup
      fields_lexical := fun f hf => ?_
      params_nodup := Pack.params_nodup m
      params_used := fun p => by rw [Pack.mem_params, List.map_map]; rfl
      instances := fun t ht => ?_
      functions := by rw [hfields]; exact Pack.scoped_declarations hm }
  · rw [Pack.names_packModule]
    decide
  · exact Pack.mem_declarations_of_mem_containerTypes List.mem_cons_self
  · obtain ⟨a, ha, rfl⟩ := List.mem_map.1 hf
    exact ⟨hm.isFieldName_field ha, hm.field_not_mem_keywords ha⟩
  · rcases List.mem_cons.1 ht with rfl | ht
    · refine ⟨_, _, Pack.mem_declarations_of_mem_containerTypes ?_,
        Pack.typeWords_containerOf m (.inl rfl), by simp, ?_⟩
      · exact List.mem_cons_of_mem _ List.mem_cons_self
      · exact hargs (by decide)
    · obtain rfl := List.mem_singleton.1 ht
      refine ⟨_, _, Pack.mem_declarations_of_mem_containerTypes ?_,
        Pack.typeWords_containerOf m (.inr rfl), by simp, ?_⟩
      · exact List.mem_cons_of_mem _ (List.mem_cons_of_mem _ List.mem_cons_self)
      · exact hargs (by decide)

/-- Kinds that alternate, with a name in capitals and one in two words. -/
theorem wellFormed_packModule_alternating :
    let m : Manifest := ⟨[⟨.sound, "DING", "d"⟩, ⟨.texture, "Map2_Tile", "m"⟩, ⟨.sound, "Loop", "l"⟩]⟩
    m.Valid ∧ WellFormed m.packModule ["textureType", "soundType"]
      [("ding", "soundType"), ("map2Tile", "textureType"), ("loop", "soundType")] := by
  intro m
  have hm : m.Valid := by decide +kernel
  have hfields : (m.assets.map fun a => (a.field, a.kind.typeParam)) =
      [("ding", "soundType"), ("map2Tile", "textureType"), ("loop", "soundType")] := by
    decide +kernel
  have h := wellFormed_packModule hm
  rw [hfields] at h
  exact ⟨hm, h⟩

end TypedAssets
