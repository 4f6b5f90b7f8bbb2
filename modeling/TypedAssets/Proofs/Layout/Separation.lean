import TypedAssets.Proofs.Layout.Module

/-!
# Declarations apart

Two empty lines in a row divide the text of a module into its header and its declarations, and they stand nowhere
else (`splitParagraphs_text`): inside of a declaration an empty line is alone, between two branches of a case.
What is not at the start of a declaration is indented (`indent_of_mem_drop`), at any depth of cases and calls, so
the left edge shows where declarations start.
-/

namespace TypedAssets.Code

open Text

/-- How many lines of a declaration stand at the left edge. A function has two: its type and its head. -/
def Node.headLines : Node → Nat
  | .function .. => 2
  | _ => 1

/-- Lines of which the first `heads` may stand at the left edge, in one piece: with no empty line at an end and
never two of them in a row. -/
structure IsPiece (heads : Nat) (ls : List String) : Prop where
  first : ls.head? ≠ some ""
  last : ls.getLast? ≠ some ""
  together : ¬ ["", ""] <:+: ls
  indented : ∀ l ∈ ls.drop heads, l = "" ∨ "    ".toList <+: l.toList

theorem Line.render_indented {l : Line} (h : l = blank ∨ indentStep ≤ l.indent) :
    l.render = "" ∨ "    ".toList <+: l.render.toList := by
  rcases h with rfl | h
  · exact .inl render_blank
  · obtain ⟨k, hk⟩ := Nat.exists_eq_add_of_le h
    refine .inr ⟨List.replicate k ' ' ++ l.text.toList, ?_⟩
    rw [render, String.toList_append, toList_spaces, hk, ← List.replicate_append_replicate, List.append_assoc]
    rfl

theorem indent_of_mem_drop {d : Node} {ls : List Line} (hls : declarationLines d = .ok ls) :
    ∀ l ∈ ls.drop d.headLines, l = Line.blank ∨ indentStep ≤ l.indent := by
  cases d with
  | sumType t vs =>
    cases hls
    intro l hl
    refine .inr (Nat.le_of_eq ?_)
    cases vs with
    | nil =>
      obtain rfl := List.mem_singleton.1 hl
      rfl
    | cons v vs =>
      have hl : l ∈ marked "=" "|" ((v :: vs).map Variant.declared) := hl
      exact (indent_of_mem_marked hl).symm
  | recordAlias t ps fs =>
    cases hls
    intro l hl
    refine .inr (Nat.le_of_eq ?_)
    cases fs with
    | nil =>
      obtain rfl := List.mem_singleton.1 hl
      rfl
    | cons f fs =>
      rcases List.mem_append.1 hl with hl | hl
      · exact (indent_of_mem_marked hl).symm
      · obtain rfl := List.mem_singleton.1 hl
        rfl
  | typeAlias t target =>
    cases hls
    intro l hl
    obtain rfl := List.mem_singleton.1 hl
    exact .inr (Nat.le_refl _)
  | function f ty ps b =>
    obtain ⟨body, hbody, hls⟩ := bind_eq_ok_iff.1 hls
    cases hls
    exact (Node.isBlockAt_blockLines b hbody).forall_mem (.inl rfl) fun l hl => .inr hl
  | _ => cases hls

namespace Module

variable {M : Module}

theorem isPiece_renderedLines {d : Node} {ls : List Line} (hls : declarationLines d = .ok ls) :
    IsPiece d.headLines d.renderedLines := by
  have hparagraph := paragraph_declarationLines hls
  rw [Node.renderedLines_eq hls]
  refine ⟨hparagraph.head?_ne fun _ h => h, hparagraph.getLast?_ne fun _ h => h,
    hparagraph.not_blank_blank fun _ h => h, fun s hs => ?_⟩
  rw [← List.map_drop] at hs
  obtain ⟨l, hl, rfl⟩ := List.mem_map.1 hs
  exact Line.render_indented (indent_of_mem_drop hls l hl)

theorem text_ok_iff : (∃ t, M.text = .ok t) ↔ ∀ d ∈ M.declarations, ∃ ls, declarationLines d = .ok ls :=
  (bind_pure_ok_iff.trans mapM_ok_iff).trans (forall₂_congr fun _ _ => map_ok_iff)

/-- Splitting the text of a module at two empty lines gives its header and the texts of its declarations, as long
as something is imported and no name and no type is broken over two lines. Each declaration is in one piece with
only its head at the left edge. -/
theorem splitParagraphs_text (hM : M.NamedWithout .lineBreak) (himports : M.imports ≠ []) {t : String}
    (ht : M.text = .ok t) :
    ∃ body ds, t = body ++ "\n" ∧ M.declarations.mapM declarationText = .ok ds ∧
      splitParagraphs body.toList = (M.header :: ds).map String.toList ∧
      ∀ d ∈ M.declarations, ∃ s, declarationText d = .ok s ∧ IsPiece d.headLines (splitLines s.toList) := by
  have hlines := text_ok_iff.1 ⟨t, ht⟩
  have hparagraphs := hM.paragraph himports hlines
  have hne : M.paragraphs ≠ [] := List.cons_ne_nil _ _
  rw [text_eq hlines] at ht
  refine ⟨_, _, (Except.ok.inj ht).symm, mapM_declarationText hlines, ?_, fun d hd => ?_⟩
  · rw [splitParagraphs_join hne hparagraphs, paragraphs, List.map_cons, List.map_cons, List.map_map, List.map_map]
    rfl
  · obtain ⟨ls, hls⟩ := hlines d hd
    have hd' : Paragraph "" IsLine d.renderedLines :=
      hparagraphs _ (List.mem_cons_of_mem _ (List.mem_map_of_mem hd))
    refine ⟨_, Node.declarationText_eq hls, ?_⟩
    rw [splitLines_joinLines hd'.ne_nil (hd'.forall_mem (by decide) fun _ hl => hl.2)]
    exact isPiece_renderedLines hls

/-- A case below a call, with an empty line between its branches, another case in one of them, and a string with
line breaks in it. -/
theorem splitParagraphs_text_nested_case :
    let select : Node := .case (.var "x")
      [(.wildcard, .str "a\n\n\nb"), (.var "y", .case (.var "y") [] (some "Never"))] none
    let M : Module := ⟨"M", [⟨"A", []⟩], [[.typeAlias "T" "Int"], [.function "f" "T" ["x"] (.call "g" [select])]]⟩
    let typeText := joinLines ["type alias T =", "    Int"]
    let functionText := joinLines ["f : T", "f x =", "    g", "        case x of", "            _ ->",
      "                \"a\\n\\n\\nb\"", "", "            y ->", "                case y of",
      "                    Never impossible ->", "                        never impossible"]
    M.NamedWithout .lineBreak ∧ M.imports ≠ [] ∧ ∃ body, M.text = .ok (body ++ "\n") ∧
      splitParagraphs body.toList =
        ["module M exposing (..)\n\nimport A".toList, typeText.toList, functionText.toList] := by
  intro select M typeText functionText
  have hselect : select.NamedWithout .lineBreak := by
    refine .case (.var (by decide)) ?_ ?_ (by simp)
    · simpa using ⟨Node.NamedWithout.wildcard, Node.NamedWithout.var (by decide)⟩
    · have hinner : (Node.case (.var "y") [] (some "Never")).NamedWithout .lineBreak :=
        .case (.var (by decide)) (by simp) (by simp) (by simpa using (by decide))
      simpa using ⟨Node.NamedWithout.str, hinner⟩
  have hM : M.NamedWithout .lineBreak := by
    refine ⟨by decide, by decide, List.forall_mem_cons.2 ⟨?_, List.forall_mem_singleton.2 ?_⟩⟩
    · exact .typeAlias (by decide) (by decide)
    · exact .function (by decide) (by decide) (by decide)
        (.call (by decide) (List.forall_mem_singleton.2 hselect))
  have himports : M.imports ≠ [] := List.cons_ne_nil _ _
  obtain ⟨t, ht⟩ : ∃ t, M.text = .ok t := ⟨_, rfl⟩
  obtain ⟨body, ds, rfl, hds, hsplit, -⟩ := splitParagraphs_text hM himports ht
  have hds' : M.declarations.mapM declarationText = .ok [typeText, functionText] := rfl
  obtain rfl := Except.ok.inj (hds.symm.trans hds')
  exact ⟨hM, himports, body, ht, hsplit⟩

end Module

end TypedAssets.Code
