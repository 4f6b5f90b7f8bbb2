import TypedAssets.Proofs.Schema

/-!
# Documents that fit the manifest schema

`no_problems_iff_isManifestDocument`: of all JSON documents without repeated keys, those without problems are
the documents of manifests, each asset with its three keys in any order and with a name and a path that may
end in a line break. For the document of a manifest this leaves the patterns of names and paths
(`check_document_eq_nil_iff`).
-/

namespace TypedAssets.Schema

theorem ne_empty_of_accepts_pathPattern {s : String} (h : pathPattern.accepts s = true) : s ≠ "" := by
  rintro rfl
  exact absurd h (by decide)

/-- No path pattern accepts the empty text, so the length of a path need not be looked at. -/
theorem check_asset_eq_nil_iff {v : Json} :
    asset.check v = [] ↔
      ∃ ms : Fields Json, v = .object ms ∧ (∀ x ∈ ms.names, x ∈ ["kind", "name", "path"]) ∧
        ∃ kind name path, ms.get? "kind" = some (.string kind) ∧ ms.get? "name" = some (.string name) ∧
          ms.get? "path" = some (.string path) ∧ kind ∈ Kind.all.map Kind.word ∧
            namePattern.accepts name = true ∧ pathPattern.accepts path = true := by
  rw [asset, check_object_eq_nil_iff]
  refine exists_congr fun ms => and_congr_right fun _ => ?_
  simp only [List.forall_mem_cons, List.not_mem_nil, false_imp_iff, implies_true, and_true, List.map_cons,
    List.map_nil]
  constructor
  · rintro ⟨⟨⟨k, hk⟩, ⟨n, hn⟩, ⟨p, hp⟩⟩, hnames, hkind, hname, hpath⟩
    obtain ⟨kind, hkind, rfl⟩ := check_choice_eq_nil_iff.1 (hkind k hk)
    obtain ⟨name, rfl, -, hname⟩ := check_text_eq_nil_iff.1 (hname n hn)
    obtain ⟨path, rfl, -, hpath⟩ := check_text_eq_nil_iff.1 (hpath p hp)
    exact ⟨hnames, kind, name, path, hk, hn, hp, hkind, hname, hpath⟩
  · rintro ⟨hnames, kind, name, path, hk, hn, hp, hkind, hname, hpath⟩
    refine ⟨⟨⟨_, hk⟩, ⟨_, hn⟩, ⟨_, hp⟩⟩, hnames, fun v hv => ?_, fun v hv => ?_, fun v hv => ?_⟩
    · obtain rfl := Option.some.inj (hk.symm.trans hv)
      exact check_choice_eq_nil_iff.2 ⟨kind, hkind, rfl⟩
    · obtain rfl := Option.some.inj (hn.symm.trans hv)
      exact check_text_eq_nil_iff.2 ⟨name, rfl, by simp, hname⟩
    · obtain rfl := Option.some.inj (hp.symm.trans hv)
      exact check_text_eq_nil_iff.2 ⟨path, rfl, fun _ => ne_empty_of_accepts_pathPattern hpath, hpath⟩

theorem check_manifest_eq_nil_iff {d : Json} :
    manifest.check d = [] ↔
      ∃ ms : Fields Json, d = .object ms ∧ (∀ x ∈ ms.names, x ∈ ["assets"]) ∧
        ∃ vs, ms.get? "assets" = some (.array vs) ∧ ∀ v ∈ vs, asset.check v = [] := by
  rw [manifest, check_object_eq_nil_iff]
  refine exists_congr fun ms => and_congr_right fun _ => ?_
  simp only [List.forall_mem_cons, List.not_mem_nil, false_imp_iff, implies_true, and_true, List.map_cons,
    List.map_nil]
  constructor
  · rintro ⟨⟨w, hw⟩, hnames, hassets⟩
    obtain ⟨vs, rfl, hvs⟩ := check_array_eq_nil_iff.1 (hassets w hw)
    exact ⟨hnames, vs, hw, hvs⟩
  · rintro ⟨hnames, vs, hw, hvs⟩
    refine ⟨⟨_, hw⟩, hnames, fun w hw' => ?_⟩
    obtain rfl := Option.some.inj (hw.symm.trans hw')
    exact check_array_eq_nil_iff.2 ⟨vs, rfl, hvs⟩

theorem check_asset_document_eq_nil_iff (a : Asset) :
    asset.check a.document = [] ↔
      namePattern.accepts a.name = true ∧ pathPattern.accepts a.path = true := by
  rw [check_asset_eq_nil_iff]
  constructor
  · rintro ⟨ms, hms, -, kind, name, path, -, hn, hp, -, hname, hpath⟩
    obtain rfl := Json.object.inj hms
    obtain rfl := Json.string.inj (Option.some.inj hn)
    obtain rfl := Json.string.inj (Option.some.inj hp)
    exact ⟨hname, hpath⟩
  · rintro ⟨hname, hpath⟩
    exact ⟨_, rfl, by simp [Fields.names], a.kind.word, a.name, a.path, rfl, rfl, rfl,
      List.mem_map_of_mem (Kind.mem_all _), hname, hpath⟩

/-- The document of a manifest fits the schema exactly when the patterns accept all names and paths. -/
theorem check_document_eq_nil_iff (m : Manifest) :
    manifest.check m.document = [] ↔
      ∀ a ∈ m.assets, namePattern.accepts a.name = true ∧ pathPattern.accepts a.path = true := by
  have hassets : (∀ v ∈ m.assets.map Asset.document, asset.check v = []) ↔
      ∀ a ∈ m.assets, namePattern.accepts a.name = true ∧ pathPattern.accepts a.path = true := by
    simp [check_asset_document_eq_nil_iff]
  rw [← hassets, check_manifest_eq_nil_iff]
  constructor
  · rintro ⟨ms, hms, -, vs, hvs, h⟩
    obtain rfl := Json.object.inj hms
    obtain rfl := Json.array.inj (Option.some.inj hvs)
    exact h
  · intro h
    exact ⟨_, rfl, by simp [Fields.names], _, rfl, h⟩

/-- A value in which no object has two members of one name. -/
inductive KeysDistinct : Json → Prop
  | null : KeysDistinct .null
  | bool {b : Bool} : KeysDistinct (.bool b)
  | int {n : Int} : KeysDistinct (.int n)
  | float {t : String} : KeysDistinct (.float t)
  | string {s : String} : KeysDistinct (.string s)
  | array {vs : List Json} (h : ∀ v ∈ vs, KeysDistinct v) : KeysDistinct (.array vs)
  | object {ms : List (String × Json)} (hnd : (ms.map Prod.fst).Nodup) (h : ∀ m ∈ ms, KeysDistinct m.2) :
      KeysDistinct (.object ms)

def assetMembers (kind name path : String) : List (String × Json) :=
  [("kind", .string kind), ("name", .string name), ("path", .string path)]

theorem assetMembers_names_nodup (kind name path : String) :
    (Fields.names (assetMembers kind name path)).Nodup := by
  simp [assetMembers, Fields.names]

/-- An object with a kind, a name and a path, in any order, and nothing else. A line break may stand at the
end of the name and of the path. -/
def IsAssetDocument (v : Json) : Prop :=
  ∃ (ms : List (String × Json)) (kind name path : String),
    v = .object ms ∧ ms.Perm (assetMembers kind name path) ∧ (kind = "texture" ∨ kind = "sound") ∧
      UpToBreak IsConstructorName name ∧ path ≠ "" ∧ UpToBreak IsPlainPath path

/-- An object with a list of assets and nothing else. -/
def IsManifestDocument (d : Json) : Prop :=
  ∃ vs : List Json, d = .object [("assets", .array vs)] ∧ ∀ v ∈ vs, IsAssetDocument v

theorem check_asset_eq_nil_iff_isAssetDocument {v : Json} (hv : KeysDistinct v) :
    asset.check v = [] ↔ IsAssetDocument v := by
  have hname (s : String) : namePattern.accepts s = true ↔ UpToBreak IsConstructorName s := by
    simp only [accepts_iff, UpToBreak, fits_namePattern_iff]
  have hpath (s : String) : pathPattern.accepts s = true ↔ UpToBreak IsPlainPath s := by
    simp only [accepts_iff, UpToBreak, fits_pathPattern_iff]
  have hkind (s : String) : s ∈ Kind.all.map Kind.word ↔ s = "texture" ∨ s = "sound" := by
    simp [Kind.all, Kind.word]
  rw [check_asset_eq_nil_iff]
  constructor
  · rintro ⟨ms, rfl, hnames, kind, name, path, hk, hn, hp, hk', hn', hp'⟩
    cases hv with
    | object hnd _ =>
      refine ⟨ms, kind, name, path, rfl, ?_, (hkind _).1 hk', (hname _).1 hn',
        ne_empty_of_accepts_pathPattern hp', (hpath _).1 hp'⟩
      exact Fields.perm_of_get? hnd (assetMembers_names_nodup kind name path) hnames
        (by simp [assetMembers, hk, hn, hp])
  · rintro ⟨ms, kind, name, path, rfl, hperm, hk, hn, -, hp⟩
    have hget := Fields.get?_perm (assetMembers_names_nodup kind name path) hperm
    refine ⟨ms, rfl, fun x hx => ?_, kind, name, path, hget _, hget _, hget _, (hkind _).2 hk,
      (hname _).2 hn, (hpath _).2 hp⟩
    exact (hperm.map Prod.fst).mem_iff.1 hx

/-- A document has no problems exactly when it is an object with a list of assets and nothing else. -/
theorem no_problems_iff_isManifestDocument {d : Json} (hd : KeysDistinct d) :
    Schema.problems d = [] ↔ IsManifestDocument d := by
  rw [Schema.problems, check_manifest_eq_nil_iff]
  constructor
  · rintro ⟨ms, rfl, hnames, vs, hvs, h⟩
    cases hd with
    | object hnd hms =>
      have hperm : ms.Perm [("assets", .array vs)] :=
        Fields.perm_of_get? hnd (List.nodup_singleton _) hnames (by simp [hvs])
      obtain rfl := List.perm_singleton.1 hperm
      cases hms _ List.mem_cons_self with
      | array hvs' =>
        exact ⟨vs, rfl, fun v hv => (check_asset_eq_nil_iff_isAssetDocument (hvs' v hv)).1 (h v hv)⟩
  · rintro ⟨vs, rfl, h⟩
    cases hd with
    | object _ hms =>
      cases hms _ List.mem_cons_self with
      | array hvs =>
        refine ⟨_, rfl, by simp [Fields.names], vs, rfl, fun v hv => ?_⟩
        exact (check_asset_eq_nil_iff_isAssetDocument (hvs v hv)).2 (h v hv)

/-- Keys in another order and a line break after the name and the path do no harm; a path that is only a
line break does, and so does a number among the assets. -/
theorem no_problems_iff_isManifestDocument_breaks :
    let good : Json := .object [("path", .string "p\n"), ("name", .string "A\n"), ("kind", .string "sound")]
    let bad : Json := .object [("path", .string "\n"), ("name", .string "A"), ("kind", .string "sound")]
    let d : Json := .object [("assets", .array [good])]
    let d' : Json := .object [("assets", .array [good, bad])]
    let d'' : Json := .object [("assets", .array [good, .float "1.5"])]
    KeysDistinct d ∧ Schema.problems d = [] ∧ KeysDistinct d' ∧ ¬ IsManifestDocument d' ∧
      KeysDistinct d'' ∧ ¬ IsManifestDocument d'' := by
  intro good bad d d' d''
  have hkeys {p n k : String} :
      KeysDistinct (.object [("path", .string p), ("name", .string n), ("kind", .string k)]) := by
    refine .object (by simp) fun m hm => ?_
    simp only [List.mem_cons, List.not_mem_nil, or_false] at hm
    rcases hm with rfl | rfl | rfl <;> exact .string
  have hassets {vs : List Json} (h : ∀ v ∈ vs, KeysDistinct v) : KeysDistinct (.object [("assets", .array vs)]) :=
    .object (List.nodup_singleton _) fun m hm => by
      rw [List.mem_singleton.1 hm]
      exact .array h
  have hd : KeysDistinct d := hassets (by simp [good, hkeys])
  have hd' : KeysDistinct d' := hassets (by simp [good, bad, hkeys])
  have hd'' : KeysDistinct d'' := hassets (by simp [good, hkeys, KeysDistinct.float])
  have hgood : IsAssetDocument good :=
    ⟨_, "sound", "A\n", "p\n", rfl, List.reverse_perm (assetMembers _ _ _), .inr rfl,
      ⟨['A'], fits_namePattern_iff.1 rfl, .inr rfl⟩, by decide, ⟨['p'], fits_pathPattern_iff.1 rfl, .inr rfl⟩⟩
  refine ⟨hd, (no_problems_iff_isManifestDocument hd).2 ⟨[good], rfl, by simpa using hgood⟩, hd', ?_, hd'', ?_⟩
  · rw [← no_problems_iff_isManifestDocument hd', ← List.isEmpty_iff]
    decide +kernel
  · rw [← no_problems_iff_isManifestDocument hd'', ← List.isEmpty_iff]
    decide +kernel

end TypedAssets.Schema
