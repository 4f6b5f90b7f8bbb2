import TypedAssets.Proofs.Captures
import TypedAssets.Proofs.Layout.Module
import TypedAssets.Proofs.Words

/-!
# The text of the generated module

Every manifest has a module that can be laid out (`isDeclaration_packModule`), and one with no mark in its
names has a module with no mark in any name or type (`namedWithout_packModule`).
-/

namespace TypedAssets.Pack

open Code Text Node

variable (m : Manifest)

theorem forall_mem_declarations {P : Node → Prop} (hkeys : ∀ d ∈ keyTypes m, P d)
    (htypes : ∀ d ∈ containerTypes m, P d) (hinitial : P (initialBuilder m)) (htry : P (tryBuild m))
    (hinsert : ∀ k, P (insertion m k)) (hload : ∀ d ∈ loadLists m, P d)
    (htexture : P (textureLookup m)) (hsound : P (soundLookup m)) :
    ∀ d ∈ m.packModule.declarations, P d := by
  intro d hd
  obtain ⟨s, hs, hds⟩ := List.mem_flatten.1 hd
  simp only [Manifest.packModule, sections, List.mem_cons, List.not_mem_nil, or_false] at hs
  rcases hs with rfl | rfl | rfl | rfl | rfl | rfl | rfl
  · exact hkeys d hds
  · exact htypes d hds
  · rwa [List.mem_singleton.1 hds]
  · rwa [List.mem_singleton.1 hds]
  · obtain ⟨k, -, rfl⟩ := List.mem_map.1 hds
    exact hinsert k
  · exact hload d hds
  · rcases List.mem_cons.1 hds with rfl | hds
    · exact htexture
    · rwa [List.mem_singleton.1 hds]

theorem isInline_justVar (x : String) : (justVar x).IsInline :=
  .call fun n hn => by
    rw [List.mem_singleton.1 hn]
    exact .var

theorem isBlock_tryBuild_body : (Node.case (.tuple [slots m .texture, slots m .sound])
    [(.tuple [.list ((captures m).1.map justVar), .list ((captures m).2.1.map justVar)],
      .call "Just" [completed m]), (.wildcard, .var "Nothing")] none).IsBlock := by
  have hslots (k : Kind) : (slots m k).IsInline := by
    refine .list fun n hn => ?_
    obtain ⟨a, -, rfl⟩ := List.mem_map.1 hn
    exact .access
  have hjust (xs : List String) : (Node.list (xs.map justVar)).IsInline := by
    refine .list fun n hn => ?_
    obtain ⟨x, -, rfl⟩ := List.mem_map.1 hn
    exact isInline_justVar x
  have hcompleted : (completed m).IsInline := by
    refine .record fun f hf => ?_
    obtain ⟨a, -, rfl⟩ := List.mem_map.1 hf
    exact .var
  refine .case (.tuple ?_) ?_ ?_ (fun h => absurd h (List.cons_ne_nil _ _))
  · simp [hslots]
  · intro b hb
    rcases List.mem_cons.1 hb with rfl | hb
    · exact .tuple (by simp [hjust])
    · rw [List.mem_singleton.1 hb]
      exact .wildcard
  · intro b hb
    rcases List.mem_cons.1 hb with rfl | hb
    · exact .inline (.call (by simpa using hcompleted))
    · rw [List.mem_singleton.1 hb]
      exact .inline .var

/-- A case over the keys of a kind has branches or at least names its type. -/
theorem isBlock_keyCase (k : Kind) {body : Asset → Node} (hbody : ∀ a, (body a).IsInline) :
    (Node.case (.var "key") ((m.ofKind k).map fun a => (.var a.name, body a))
      (some k.keyType)).IsBlock := by
  refine .case .var ?_ ?_ fun _ h => nomatch h
  · intro b hb
    obtain ⟨a, -, rfl⟩ := List.mem_map.1 hb
    exact .var
  · intro b hb
    obtain ⟨a, -, rfl⟩ := List.mem_map.1 hb
    exact .inline (hbody a)

theorem isInline_loadList (k : Kind) {c : String} {args : Asset → List Node}
    (hargs : ∀ a, ∀ n ∈ args a, n.IsInline) :
    (Node.list ((m.ofKind k).map fun a => .call c (args a))).IsInline := by
  refine .list fun n hn => ?_
  obtain ⟨a, -, rfl⟩ := List.mem_map.1 hn
  exact .call (hargs a)

theorem isDeclaration_packModule : ∀ d ∈ m.packModule.declarations, d.IsDeclaration := by
  refine forall_mem_declarations m ?_ ?_ (.function ?_) (.function (isBlock_tryBuild_body m)) ?_ ?_ ?_ ?_
  · intro d hd
    obtain ⟨k, -, rfl⟩ := List.mem_map.1 hd
    exact .sumType
  · intro d hd
    simp only [containerTypes, List.mem_cons, List.not_mem_nil, or_false] at hd
    rcases hd with rfl | rfl | rfl
    · exact .recordAlias
    · exact .typeAlias
    · exact .typeAlias
  · refine .inline (.record fun f hf => ?_)
    obtain ⟨a, -, rfl⟩ := List.mem_map.1 hf
    exact .var
  · intro k
    refine .function (isBlock_keyCase m k fun a => .update fun f hf => ?_)
    rw [List.mem_singleton.1 hf]
    exact isInline_justVar _
  · intro d hd
    simp only [loadLists, List.mem_cons, List.not_mem_nil, or_false] at hd
    rcases hd with rfl | rfl | rfl | rfl
    · exact .sumType
    · refine .function (.inline (isInline_loadList m .texture fun a n hn => ?_))
      rcases List.mem_cons.1 hn with rfl | hn
      · exact .str
      · rw [List.mem_singleton.1 hn]
        exact .var
    · exact .sumType
    · refine .function (.inline (isInline_loadList m .sound fun a n hn => ?_))
      rcases List.mem_cons.1 hn with rfl | hn
      · exact .var
      · rw [List.mem_singleton.1 hn]
        exact .str
  · exact .function (isBlock_keyCase m .texture fun a => .access)
  · exact .function (isBlock_keyCase m .sound fun a => .access)

/-- The text of the module, as its declarations' lines. -/
theorem packText_eq : m.packText =
    .ok ("\n\n\n".intercalate (m.packModule.paragraphs.map joinLines) ++ "\n") :=
  Module.text_eq fun d hd => Node.declarationLines_ok (isDeclaration_packModule m d hd)

theorem packText_ok : ∃ text, m.packText = .ok text := ⟨_, packText_eq m⟩

/-! ### No name holds a mark -/

section

variable {q : Mark}

theorem isAlphanum_ne_mark {c : Char} (h : c.isAlphanum = true) : q.char ≠ c := by
  rintro rfl
  cases q <;> exact absurd h (by decide)

theorem without_field (a : Asset) : Without q a.field := fun h =>
  isAlphanum_ne_mark (Words.isAlphanum_of_mem_camelCase h) rfl

theorem without_captureName (i : Nat) : Without q (captureName i) := by
  rw [Without, toList_captureName, List.mem_cons, not_or]
  refine ⟨isAlphanum_ne_mark (by decide), fun h => ?_⟩
  have hdigit := Nat.isDigit_of_mem_toDigits (by decide) (by decide) h
  cases q <;> exact absurd hdigit (by decide)

theorem without_slotVar (a : Asset) : Without q (slotVar m a) := by
  rw [slotVar]
  cases hget : (captures m).2.2.get? a.field with
  | none => exact List.not_mem_nil
  | some x =>
    have hmem := Fields.mem_of_get?_eq_some hget
    exact (forall_captures without_captureName m).2.2 _ hmem

theorem namedWithout_justVar {x : String} (hx : Without q x) : (justVar x).NamedWithout q :=
  .call (by cases q <;> decide) fun n hn => by
    rw [List.mem_singleton.1 hn]
    exact .var hx

theorem without_containerOf {slotType : Kind → String} (h : ∀ k, Without q (slotType k)) :
    Without q (containerOf m slotType) := by
  refine without_intercalate (by cases q <;> decide) fun t ht => ?_
  rcases List.mem_cons.1 ht with rfl | ht
  · cases q <;> decide
  · obtain ⟨k, -, rfl⟩ := List.mem_map.1 ht
    exact h k

theorem without_typeParam (k : Kind) : Without q k.typeParam := by cases q <;> cases k <;> decide

theorem declaredWithout_containerTypes : ∀ d ∈ containerTypes m, d.DeclaredWithout q := by
  have hcontainer : Without q containerType := by cases q <;> decide
  intro d hd
  simp only [containerTypes, List.mem_cons, List.not_mem_nil, or_false] at hd
  rcases hd with rfl | rfl | rfl
  · refine .recordAlias hcontainer (fun p hp => ?_) fun f hf => ?_
    · obtain ⟨k, -, rfl⟩ := List.mem_map.1 hp
      exact without_typeParam k
    · obtain ⟨a, -, rfl⟩ := List.mem_map.1 hf
      exact ⟨without_field a, without_typeParam a.kind⟩
  · exact .typeAlias (by cases q <;> decide)
      (without_containerOf m fun k => by cases q <;> cases k <;> decide)
  · exact .typeAlias (by cases q <;> decide)
      (without_containerOf m fun k => by cases q <;> cases k <;> decide)

theorem declaredWithout_initialBuilder : (initialBuilder m).DeclaredWithout q := by
  have hnothing : Without q "Nothing" := by cases q <;> decide
  refine .function (by cases q <;> decide) (by cases q <;> decide) (fun p hp => nomatch hp)
    (.record (fun f hf => ?_) fun f hf => ?_)
  · obtain ⟨a, -, rfl⟩ := List.mem_map.1 hf
    exact without_field a
  · obtain ⟨a, -, rfl⟩ := List.mem_map.1 hf
    exact .var hnothing

theorem declaredWithout_tryBuild : (tryBuild m).DeclaredWithout q := by
  obtain ⟨ht, hs, -⟩ := forall_captures (without_captureName (q := q)) m
  have hslots (k : Kind) : (slots m k).NamedWithout q := by
    refine .list fun n hn => ?_
    obtain ⟨a, -, rfl⟩ := List.mem_map.1 hn
    exact .access (by cases q <;> decide) (without_field a)
  have hjust {xs : List String} (h : ∀ x ∈ xs, Without q x) :
      (Node.list (xs.map justVar)).NamedWithout q := by
    refine .list fun n hn => ?_
    obtain ⟨x, hx, rfl⟩ := List.mem_map.1 hn
    exact namedWithout_justVar (h x hx)
  have hcompleted : (completed m).NamedWithout q := by
    refine .record (fun f hf => ?_) fun f hf => ?_
    · obtain ⟨a, -, rfl⟩ := List.mem_map.1 hf
      exact without_field a
    · obtain ⟨a, -, rfl⟩ := List.mem_map.1 hf
      exact .var (without_slotVar m a)
  refine .function (by cases q <;> decide) (by cases q <;> decide) (by cases q <;> decide)
    (.case (.tuple ?_) ?_ ?_ fun t ht => nomatch ht)
  · simp [hslots]
  · intro b hb
    rcases List.mem_cons.1 hb with rfl | hb
    · exact .tuple (by simp [hjust ht, hjust hs])
    · rw [List.mem_singleton.1 hb]
      exact .wildcard
  · intro b hb
    rcases List.mem_cons.1 hb with rfl | hb
    · exact .call (by cases q <;> decide) (by simpa using hcompleted)
    · rw [List.mem_singleton.1 hb]
      exact .var (by cases q <;> decide)

variable {m} (hm : ∀ a ∈ m.assets, Without q a.name)
include hm

theorem without_name {k : Kind} {a : Asset} (ha : a ∈ m.ofKind k) : Without q a.name :=
  hm a (Manifest.mem_ofKind.1 ha).1

theorem declaredWithout_keyTypes : ∀ d ∈ keyTypes m, d.DeclaredWithout q := by
  intro d hd
  obtain ⟨k, -, rfl⟩ := List.mem_map.1 hd
  refine .sumType (by cases q <;> cases k <;> decide) fun v hv => ?_
  obtain ⟨a, ha, rfl⟩ := List.mem_map.1 hv
  exact ⟨without_name hm ha, fun ty hty => nomatch hty⟩

theorem namedWithout_keyCase (k : Kind) {body : Asset → Node} (hbody : ∀ a, (body a).NamedWithout q) :
    (Node.case (.var "key") ((m.ofKind k).map fun a => (.var a.name, body a))
      (some k.keyType)).NamedWithout q := by
  refine .case (.var (by cases q <;> decide)) ?_ ?_ ?_
  · intro b hb
    obtain ⟨a, ha, rfl⟩ := List.mem_map.1 hb
    exact .var (without_name hm ha)
  · intro b hb
    obtain ⟨a, -, rfl⟩ := List.mem_map.1 hb
    exact hbody a
  · rintro t ⟨⟩
    cases q <;> cases k <;> decide

theorem declaredWithout_insertion (k : Kind) : (insertion m k).DeclaredWithout q := by
  have hvar : Without q k.loadedVar := by cases q <;> cases k <;> decide
  refine .function (by cases q <;> cases k <;> decide) (by cases q <;> cases k <;> decide)
    (by cases q <;> cases k <;> decide) (namedWithout_keyCase hm k fun a => ?_)
  refine .update (by cases q <;> decide) (fun f hf => ?_) fun f hf => ?_
  · rw [List.mem_singleton.1 hf]
    exact without_field a
  · rw [List.mem_singleton.1 hf]
    exact namedWithout_justVar hvar

theorem namedWithout_loadList (k : Kind) {c : String} {args : Asset → List Node} (hc : Without q c)
    (hargs : ∀ a, ∀ n ∈ args a, n = .str a.loadPath ∨ n = .var a.name) :
    (Node.list ((m.ofKind k).map fun a => .call c (args a))).NamedWithout q := by
  refine .list fun n hn => ?_
  obtain ⟨a, ha, rfl⟩ := List.mem_map.1 hn
  refine .call hc fun n hn => ?_
  rcases hargs a n hn with rfl | rfl
  · exact .str
  · exact .var (without_name hm ha)

theorem declaredWithout_loadLists : ∀ d ∈ loadLists m, d.DeclaredWithout q := by
  intro d hd
  simp only [loadLists, List.mem_cons, List.not_mem_nil, or_false] at hd
  rcases hd with rfl | rfl | rfl | rfl
  · exact .sumType (by cases q <;> decide) (by cases q <;> decide)
  · refine .function (by cases q <;> decide) (by cases q <;> decide) (by cases q <;> decide)
      (namedWithout_loadList hm .texture (by cases q <;> decide) ?_)
    simp
  · exact .sumType (by cases q <;> decide) (by cases q <;> decide)
  · refine .function (by cases q <;> decide) (by cases q <;> decide) (by cases q <;> decide)
      (namedWithout_loadList hm .sound (by cases q <;> decide) ?_)
    simp

theorem namedWithout_packModule : m.packModule.NamedWithout q := by
  have haccess (a : Asset) : (Node.access "pack" a.field).NamedWithout q :=
    .access (by cases q <;> decide) (without_field a)
  have hname : Without q "Gen.AssetPack" := by cases q <;> decide
  have himports : ∀ i ∈ imports, Without q i.source ∧ ∀ x ∈ i.exposing, Without q x := by
    cases q <;> decide
  refine ⟨hname, himports, ?_⟩
  refine forall_mem_declarations m (declaredWithout_keyTypes hm) (declaredWithout_containerTypes m)
    (declaredWithout_initialBuilder m) (declaredWithout_tryBuild m) (declaredWithout_insertion hm)
    (declaredWithout_loadLists hm) ?_ ?_
  · exact .function (by cases q <;> decide) (by cases q <;> decide) (by cases q <;> decide)
      (namedWithout_keyCase hm .texture haccess)
  · exact .function (by cases q <;> decide) (by cases q <;> decide) (by cases q <;> decide)
      (namedWithout_keyCase hm .sound haccess)

end

end TypedAssets.Pack
