import TypedAssets.Proofs.Generation

/-!
# Every manifest has a text

Generation asks nothing of a manifest (`generation_total`): with colliding names, names without letters or no
assets at all, the completion check finds a captured variable for every field and every declaration has a
layout. The text starts with the line that names the module and ends with one line break, since the last line
of the last declaration ends in a field name or in a fixed word, whatever the names are.
-/

namespace TypedAssets

namespace Pack

open Code

section

variable {vars : Fields String} {as : List Asset}

/-- Every field has a variable, those before and those of the slots. -/
theorem mem_names_numberSlots {x : String} :
    x ∈ (numberSlots vars as).2.names ↔ x ∈ vars.names ∨ ∃ a ∈ as, a.field = x := by
  induction as generalizing vars with
  | nil => simp [numberSlots]
  | cons a as ih =>
    show x ∈ (numberSlots (vars.set a.field _) as).2.names ↔ _
    rw [ih, Fields.mem_names_set, or_assoc]
    simp [eq_comm]

/-- The variable of a field is that of a slot, unless the field had it before. -/
theorem captured_of_mem_numberSlots {f : String × String} (hf : f ∈ (numberSlots vars as).2) :
    f ∈ vars ∨ f.2 ∈ (numberSlots vars as).1 := by
  induction as generalizing vars with
  | nil => exact .inl hf
  | cons a as ih =>
    rcases ih hf with hf | hf
    · rcases Fields.mem_set hf with hf | rfl
      · exact .inl hf
      · exact .inr List.mem_cons_self
    · exact .inr (List.mem_cons_of_mem _ hf)

end

variable {m : Manifest}

theorem exists_capture {a : Asset} (ha : a ∈ m.assets) :
    ∃ x ∈ (captures m).1 ++ (captures m).2.1, (captures m).2.2.get? a.field = some x := by
  obtain ⟨hslots, hvars⟩ := captures_eq m
  have hmem : a.field ∈ (captures m).2.2.names := by
    rw [hvars, mem_names_numberSlots]
    exact .inr ⟨a, mem_slotOrder.2 ha, rfl⟩
  obtain ⟨x, hx⟩ := Option.isSome_iff_exists.1 (Fields.isSome_get?_iff.2 hmem)
  refine ⟨x, ?_, hx⟩
  have hbound := Fields.mem_of_get?_eq_some hx
  rw [hvars] at hbound
  rw [hslots]
  exact (captured_of_mem_numberSlots hbound).resolve_left List.not_mem_nil

end Pack

namespace Code

open Text

/-- A text that ends in a character, and not in a line break. -/
def EndsUnbroken (s : String) : Prop := ∃ c ∈ s.toList.getLast?, c ≠ '\n'

theorem EndsUnbroken.append {t : String} (h : EndsUnbroken t) (s : String) : EndsUnbroken (s ++ t) := by
  obtain ⟨c, hc, hne⟩ := h
  refine ⟨c, ?_, hne⟩
  rw [String.toList_append, List.getLast?_append, Option.mem_def.1 hc]
  rfl

theorem EndsUnbroken.intercalate {t : String} {ts : List String} (h : EndsUnbroken t) (sep : String)
    (ht : [t] <:+ ts) : EndsUnbroken (sep.intercalate ts) := by
  obtain ⟨us, rfl⟩ := ht
  induction us with
  | nil => simpa using h
  | cons u us ih =>
    rw [List.cons_append, String.intercalate_cons_of_ne_nil (by simp)]
    exact ih.append _

theorem prefix_intercalate (sep t : String) (ts : List String) :
    t.toList <+: (sep.intercalate (t :: ts)).toList := by
  cases ts with
  | nil => simp
  | cons u us => simp [List.append_assoc]

/-- The lines of the last branch come last. -/
theorem suffix_separated (bs : List (List Line)) (b : List Line) : b <:+ separated (bs ++ [b]) := by
  induction bs with
  | nil => exact List.suffix_rfl
  | cons c bs ih =>
    have hstep : separated (c :: (bs ++ [b])) = c ++ Line.blank :: separated (bs ++ [b]) := by
      cases bs <;> rfl
    rw [List.cons_append, hstep]
    exact ih.trans ((List.suffix_cons _ _).trans (List.suffix_append c _))

theorem Node.blockLines_case {s : Node} {bs : List (Node × Node)} {ty : Option String} {i : Nat}
    {t : String} {bls : List (List Line)} (hne : bs ≠ []) (ht : s.inlineText = .ok t)
    (hbls : branchLines (i + indentStep) bs = .ok bls) :
    (Node.case s bs ty).blockLines i = .ok (⟨i, "case " ++ t ++ " of"⟩ :: separated bls) := by
  cases bs with
  | nil => exact absurd rfl hne
  | cons b bs => exact bind_eq_ok_iff.2 ⟨t, ht, bind_eq_ok_iff.2 ⟨bls, hbls, rfl⟩⟩

end Code

namespace Pack

open Code Text

variable {m : Manifest}

/-- A field may be empty, but a dot stands before it. -/
theorem endsUnbroken_access (a : Asset) : EndsUnbroken ("pack." ++ a.field) := by
  cases h : a.field.toList.getLast? with
  | none =>
    rw [List.getLast?_eq_none_iff, String.toList_eq_nil_iff] at h
    rw [h]
    exact ⟨'.', by decide, by decide⟩
  | some c =>
    refine EndsUnbroken.append ⟨c, h, ?_⟩ _
    rintro rfl
    exact absurd (Words.isAlphanum_of_mem_camelCase (List.mem_of_getLast? h)) (by decide)

theorem branchLines_selection (i : Nat) (as : List Asset) :
    Node.branchLines i (as.map fun a => (.var a.name, .access "pack" a.field)) =
      .ok (as.map fun a => [⟨i, a.name ++ " ->"⟩, ⟨i + indentStep, "pack." ++ a.field⟩]) := by
  induction as with
  | nil => rfl
  | cons a as ih =>
    rw [List.map_cons, Node.branchLines, ih]
    rfl

theorem blockLines_selection (m : Manifest) (k : Kind) (i : Nat) :
    ∃ ls l, (selection m k).blockLines i = .ok ls ∧ [l] <:+ ls ∧ EndsUnbroken l.text := by
  rw [selection]
  rcases List.eq_nil_or_concat' (m.ofKind k) with h | ⟨as, a, h⟩
  · have hnever : EndsUnbroken "never impossible" := ⟨'e', by decide, by decide⟩
    rw [h]
    exact ⟨_, ⟨i + indentStep + indentStep, "never impossible"⟩, rfl, ⟨[_, _], rfl⟩, hnever⟩
  · rw [h]
    refine ⟨_, ⟨i + indentStep + indentStep, "pack." ++ a.field⟩,
      Node.blockLines_case (by simp) rfl (branchLines_selection _ _), ?_, endsUnbroken_access a⟩
    rw [List.map_append]
    exact (List.suffix_cons ⟨i + indentStep, a.name ++ " ->"⟩ _).trans
      ((suffix_separated _ _).trans (List.suffix_cons _ _))

theorem endsUnbroken_soundLookup (m : Manifest) :
    ∃ s, [s] <:+ (soundLookup m).renderedLines ∧ EndsUnbroken s := by
  obtain ⟨ls, l, hls, hl, hend⟩ := blockLines_selection m .sound indentStep
  have hlines : declarationLines (soundLookup m) = .ok _ := bind_eq_ok_iff.2 ⟨ls, hls, rfl⟩
  rw [Node.renderedLines_eq hlines]
  refine ⟨l.render, ?_, hend.append _⟩
  exact (hl.trans ((List.suffix_cons _ _).trans (List.suffix_cons _ _))).map Line.render

theorem soundLookup_suffix (m : Manifest) : [soundLookup m] <:+ m.packModule.declarations := by
  have hsections : [[textureLookup m, soundLookup m]] <:+ sections m := ⟨[_, _, _, _, _, _], rfl⟩
  exact (List.suffix_cons (textureLookup m) [soundLookup m]).trans hsections.flatten

theorem header_prefix (m : Manifest) :
    "module Gen.AssetPack exposing (..)\n".toList <+: (joinLines m.packModule.headerLines).toList := by
  have hline : "module Gen.AssetPack exposing (..)\n".toList =
      ("module " ++ m.packModule.name ++ " exposing (..)").toList ++ ['\n'] := by
    show _ = ("module " ++ "Gen.AssetPack" ++ " exposing (..)").toList ++ ['\n']
    decide
  rw [Module.headerLines, toList_joinLines_cons (List.cons_ne_nil _ _), hline]
  exact ⟨_, List.append_assoc _ ['\n'] _⟩

theorem endsUnbroken_paragraphs (m : Manifest) :
    EndsUnbroken ("\n\n\n".intercalate (m.packModule.paragraphs.map joinLines)) := by
  obtain ⟨s, hs, hend⟩ := endsUnbroken_soundLookup m
  have hlast : [(soundLookup m).renderedLines] <:+ m.packModule.paragraphs :=
    ((soundLookup_suffix m).map Node.renderedLines).trans (List.suffix_cons _ _)
  exact (hend.intercalate "\n" hs).intercalate "\n\n\n" (hlast.map joinLines)

end Pack

/-- Whatever a manifest holds, the completion check finds a captured variable for the field of each asset and
the module has a text, which starts with the line that names the module and ends with one line break. -/
theorem Manifest.generation_total (m : Manifest) :
    (∀ a ∈ m.assets, ∃ x ∈ (Pack.captures m).1 ++ (Pack.captures m).2.1,
      (Pack.captures m).2.2.get? a.field = some x) ∧
    ∃ text, m.packText = .ok text ∧ "module Gen.AssetPack exposing (..)\n".toList <+: text.toList ∧
      ∃ front c, text.toList = front ++ [c, '\n'] ∧ c ≠ '\n' := by
  refine ⟨fun a ha => Pack.exists_capture ha, _, Pack.packText_eq m, ?_, ?_⟩
  · rw [Code.Module.paragraphs, List.map_cons, String.toList_append]
    exact ((Pack.header_prefix m).trans (Code.prefix_intercalate _ _ _)).trans (List.prefix_append _ _)
  · obtain ⟨c, hc, hne⟩ := Pack.endsUnbroken_paragraphs m
    obtain ⟨front, hfront⟩ := List.getLast?_eq_some_iff.1 hc
    refine ⟨front, c, ?_, hne⟩
    rw [String.toList_append, hfront, List.append_assoc]
    rfl

end TypedAssets
