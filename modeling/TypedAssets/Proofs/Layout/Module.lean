import TypedAssets.Proofs.Layout.Acceptance

/-!
# Modules as text

A module of types and functions has a text (`text_eq`). If no name in it is broken over two lines, its
declarations can be read off that text, each as its lines (`renderedLines_eq_of_text_eq`). If no name in it
holds a double quote, the literals of the text are those of the module's strings, and the code around them
is the same whatever these strings are (`NamedWithout.cut_text`).
-/

namespace TypedAssets.Code

open Text

namespace Node

/-- A type, or a function whose body is a block. -/
inductive IsDeclaration : Node → Prop
  | sumType {t : String} {vs : List Variant} : IsDeclaration (.sumType t vs)
  | recordAlias {t : String} {ps : List String} {fs : List (String × String)} :
      IsDeclaration (.recordAlias t ps fs)
  | typeAlias {t target : String} : IsDeclaration (.typeAlias t target)
  | function {f ty : String} {ps : List String} {b : Node} (hb : b.IsBlock) :
      IsDeclaration (.function f ty ps b)

theorem declarationLines_ok {d : Node} (h : d.IsDeclaration) : ∃ ls, declarationLines d = .ok ls := by
  cases h with
  | sumType => exact ⟨_, rfl⟩
  | recordAlias => exact ⟨_, rfl⟩
  | typeAlias => exact ⟨_, rfl⟩
  | function hb =>
    obtain ⟨ls, hls⟩ := (blockLines_ok_iff _ indentStep).2 hb.isBody
    exact ⟨_, bind_eq_ok_iff.2 ⟨ls, hls, rfl⟩⟩

/-- A declaration with no mark in a name or in a type. -/
inductive DeclaredWithout (q : Mark) : Node → Prop
  | sumType {t : String} {vs : List Variant} (ht : Without q t)
      (hvs : ∀ v ∈ vs, Without q v.name ∧ ∀ ty ∈ v.args, Without q ty) :
      DeclaredWithout q (.sumType t vs)
  | recordAlias {t : String} {ps : List String} {fs : List (String × String)} (ht : Without q t)
      (hps : ∀ p ∈ ps, Without q p) (hfs : ∀ f ∈ fs, Without q f.1 ∧ Without q f.2) :
      DeclaredWithout q (.recordAlias t ps fs)
  | typeAlias {t target : String} (ht : Without q t) (htarget : Without q target) :
      DeclaredWithout q (.typeAlias t target)
  | function {f ty : String} {ps : List String} {b : Node} (hf : Without q f) (hty : Without q ty)
      (hps : ∀ p ∈ ps, Without q p) (hb : b.NamedWithout q) : DeclaredWithout q (.function f ty ps b)

end Node

/-- Indentation makes a line of any text. -/
theorem Line.render_ne_empty {l : Line} (h : 0 < l.indent ∨ l.text ≠ "") : l.render ≠ "" := by
  intro hempty
  obtain ⟨hspaces, htext⟩ := String.append_eq_empty_iff.1 hempty
  rcases h with h | h
  · have hlen := congrArg String.length hspaces
    simp [spaces] at hlen
    omega
  · exact h htext

theorem indentStep_pos : 0 < indentStep := by decide

theorem IsBlockAt.paragraph {ls : List Line} (h : IsBlockAt indentStep ls) :
    Paragraph "" (· ≠ "") (ls.map Line.render) :=
  Paragraph.map Line.render_blank
    (fun _ hl => Line.render_ne_empty (.inl (Nat.lt_of_lt_of_le indentStep_pos hl))) h

theorem indent_of_mem_marked {first other : String} {rows : List String} {l : Line}
    (hl : l ∈ marked first other rows) : l.indent = indentStep := by
  cases rows with
  | nil => cases hl
  | cons r rows =>
    rcases List.mem_cons.1 hl with rfl | hl
    · rfl
    · obtain ⟨r', -, rfl⟩ := List.mem_map.1 hl
      rfl

theorem paragraph_sumTypeLines (t : String) (vs : List Variant) :
    Paragraph "" (· ≠ "") ((sumTypeLines t vs).map Line.render) := by
  have hhead : Line.render ⟨0, "type " ++ t⟩ ≠ "" := Line.render_ne_empty (.inr (by simp))
  cases vs with
  | nil => exact .cons hhead (.single (Line.render_ne_empty (.inl indentStep_pos)))
  | cons v vs =>
    refine .cons hhead (Paragraph.of_forall (List.cons_ne_nil _ _) fun s hs => ?_)
    obtain ⟨l, hl, rfl⟩ := List.mem_map.1 hs
    exact Line.render_ne_empty (.inl (indent_of_mem_marked hl ▸ indentStep_pos))

theorem paragraph_recordAliasLines (t : String) (ps : List String) (fs : List (String × String)) :
    Paragraph "" (· ≠ "") ((recordAliasLines t ps fs).map Line.render) := by
  have hhead : Line.render ⟨0, "type alias " ++ spaced t ps ++ " ="⟩ ≠ "" :=
    Line.render_ne_empty (.inr (by simp))
  cases fs with
  | nil => exact .cons hhead (.single (Line.render_ne_empty (.inl indentStep_pos)))
  | cons f fs =>
    refine .cons hhead (Paragraph.of_forall (by simp [marked]) fun s hs => ?_)
    obtain ⟨l, hl, rfl⟩ := List.mem_map.1 hs
    rcases List.mem_append.1 hl with hl | hl
    · exact Line.render_ne_empty (.inl (indent_of_mem_marked hl ▸ indentStep_pos))
    · obtain rfl := List.mem_singleton.1 hl
      exact Line.render_ne_empty (.inl indentStep_pos)

theorem paragraph_declarationLines {d : Node} {ls : List Line} (hls : declarationLines d = .ok ls) :
    Paragraph "" (· ≠ "") (ls.map Line.render) := by
  cases d with
  | sumType t vs =>
    cases hls
    exact paragraph_sumTypeLines t vs
  | recordAlias t ps fs =>
    cases hls
    exact paragraph_recordAliasLines t ps fs
  | typeAlias t target =>
    cases hls
    exact .cons (Line.render_ne_empty (.inr (by simp)))
      (.single (Line.render_ne_empty (.inl indentStep_pos)))
  | function f ty ps b =>
    obtain ⟨body, hbody, hls⟩ := bind_eq_ok_iff.1 hls
    cases hls
    exact .cons (Line.render_ne_empty (.inr (by simp))) (.cons (Line.render_ne_empty (.inr (by simp)))
      (IsBlockAt.paragraph (Node.isBlockAt_blockLines b hbody)))
  | _ => cases hls

section

variable {q : Mark}

theorem without_spaced {t : String} {ts : List String} (ht : Without q t) (h : ∀ u ∈ ts, Without q u) :
    Without q (spaced t ts) :=
  without_intercalate (by cases q <;> decide) (List.forall_mem_cons.2 ⟨ht, h⟩)

theorem without_declared {v : Variant} (h : Without q v.name ∧ ∀ ty ∈ v.args, Without q ty) :
    Without q v.declared := by
  refine without_append.2 ⟨h.1, without_join fun t ht => ?_⟩
  obtain ⟨ty, hty, rfl⟩ := List.mem_map.1 ht
  refine without_append.2 ⟨by cases q <;> decide, ?_⟩
  rw [typeArgument]
  split
  · exact without_append.2 ⟨without_append.2 ⟨by cases q <;> decide, h.2 ty hty⟩, by cases q <;> decide⟩
  · exact h.2 ty hty

theorem without_marked {first other : String} {rows : List String} (hfirst : Without q first)
    (hother : Without q other) (h : ∀ r ∈ rows, Without q r) :
    ∀ l ∈ marked first other rows, Without q l.text := by
  have hspace : Without q " " := by cases q <;> decide
  cases rows with
  | nil => exact fun l hl => absurd hl List.not_mem_nil
  | cons r rows =>
    intro l hl
    rcases List.mem_cons.1 hl with rfl | hl
    · exact without_append.2 ⟨without_append.2 ⟨hfirst, hspace⟩, h r List.mem_cons_self⟩
    · obtain ⟨r', hr', rfl⟩ := List.mem_map.1 hl
      exact without_append.2 ⟨without_append.2 ⟨hother, hspace⟩, h r' (List.mem_cons_of_mem _ hr')⟩

theorem without_sumTypeLines {t : String} {vs : List Variant} (ht : Without q t)
    (hvs : ∀ v ∈ vs, Without q v.name ∧ ∀ ty ∈ v.args, Without q ty) :
    ∀ l ∈ sumTypeLines t vs, Without q l.text := by
  have hhead : Without q ("type " ++ t) := without_append.2 ⟨by cases q <;> decide, ht⟩
  cases vs with
  | nil =>
    have hnever : Without q ("= " ++ t ++ " Never") :=
      without_append.2 ⟨without_append.2 ⟨by cases q <;> decide, ht⟩, by cases q <;> decide⟩
    simpa [sumTypeLines] using ⟨hhead, hnever⟩
  | cons v vs =>
    refine List.forall_mem_cons.2 ⟨hhead, without_marked ?_ ?_ fun r hr => ?_⟩
    · cases q <;> decide
    · cases q <;> decide
    · obtain ⟨w, hw, rfl⟩ := List.mem_map.1 hr
      exact without_declared (hvs w hw)

theorem without_recordAliasLines {t : String} {ps : List String} {fs : List (String × String)}
    (ht : Without q t) (hps : ∀ p ∈ ps, Without q p) (hfs : ∀ f ∈ fs, Without q f.1 ∧ Without q f.2) :
    ∀ l ∈ recordAliasLines t ps fs, Without q l.text := by
  have hhead : Without q ("type alias " ++ spaced t ps ++ " =") :=
    without_append.2
      ⟨without_append.2 ⟨by cases q <;> decide, without_spaced ht hps⟩, by cases q <;> decide⟩
  cases fs with
  | nil =>
    have hempty : Without q "\x7b\x7d" := by cases q <;> decide
    simpa [recordAliasLines] using ⟨hhead, hempty⟩
  | cons f fs =>
    refine List.forall_mem_cons.2 ⟨hhead, fun l hl => ?_⟩
    rcases List.mem_append.1 hl with hl | hl
    · refine without_marked ?_ ?_ (fun r hr => ?_) l hl
      · cases q <;> decide
      · cases q <;> decide
      · obtain ⟨g, hg, rfl⟩ := List.mem_map.1 hr
        exact without_append.2 ⟨without_append.2 ⟨(hfs g hg).1, by cases q <;> decide⟩, (hfs g hg).2⟩
    · obtain rfl := List.mem_singleton.1 hl
      cases q <;> decide

theorem Node.DeclaredWithout.declarationLines {d : Node} (h : d.DeclaredWithout q) :
    Follows (EmbedsLines q d.strings) (declarationLines d) (declarationLines d.emptied) := by
  cases h with
  | sumType ht hvs => exact .ok (.of_code (without_sumTypeLines ht hvs))
  | recordAlias ht hps hfs => exact .ok (.of_code (without_recordAliasLines ht hps hfs))
  | typeAlias ht htarget =>
    refine .ok (.of_code (List.forall_mem_cons.2 ⟨?_, by simpa using htarget⟩))
    exact without_append.2 ⟨without_append.2 ⟨by cases q <;> decide, ht⟩, by cases q <;> decide⟩
  | @function f ty ps b hf hty hps hb =>
    have hsignature : Without q (f ++ " : " ++ ty) :=
      without_append.2 ⟨without_append.2 ⟨hf, by cases q <;> decide⟩, hty⟩
    have hhead : Without q (spaced f ps ++ " =") :=
      without_append.2 ⟨without_spaced hf hps, by cases q <;> decide⟩
    exact (hb.blockLines indentStep).bind fun ls ks hbody =>
      .ok (.cons (.code hsignature) (.cons (.code hhead) hbody))

end

/-! ### Modules -/

/-- The lines of a declaration; none if it cannot be laid out. -/
def Node.renderedLines (d : Node) : List String :=
  ((declarationLines d).toOption.getD []).map Line.render

theorem Node.renderedLines_eq {d : Node} {ls : List Line} (h : declarationLines d = .ok ls) :
    d.renderedLines = ls.map Line.render := by
  rw [renderedLines, h]
  rfl

theorem Node.declarationText_eq {d : Node} {ls : List Line} (h : declarationLines d = .ok ls) :
    declarationText d = .ok (joinLines d.renderedLines) := by
  rw [declarationText, h, renderedLines_eq h]
  rfl

namespace Module

def headerLines (M : Module) : List String :=
  ("module " ++ M.name ++ " exposing (..)") :: "" :: M.imports.map Import.line

/-- The header of a module and its declarations, each as its lines. -/
def paragraphs (M : Module) : List (List String) :=
  M.headerLines :: M.declarations.map Node.renderedLines

theorem mapM_declarationText {M : Module} (h : ∀ d ∈ M.declarations, ∃ ls, declarationLines d = .ok ls) :
    M.declarations.mapM declarationText = .ok (M.declarations.map fun d => joinLines d.renderedLines) := by
  refine mapM_eq_map fun d hd => ?_
  obtain ⟨ls, hls⟩ := h d hd
  exact Node.declarationText_eq hls

theorem text_eq {M : Module} (h : ∀ d ∈ M.declarations, ∃ ls, declarationLines d = .ok ls) :
    M.text = .ok ("\n\n\n".intercalate (M.paragraphs.map joinLines) ++ "\n") := by
  rw [text, mapM_declarationText h, paragraphs, List.map_cons, List.map_map]
  rfl

/-- A module with no mark in a name or in a type. -/
structure NamedWithout (q : Mark) (M : Module) : Prop where
  name : Without q M.name
  imports : ∀ i ∈ M.imports, Without q i.source ∧ ∀ x ∈ i.exposing, Without q x
  declarations : ∀ d ∈ M.declarations, d.DeclaredWithout q

theorem without_import {q : Mark} {i : Import} (h : Without q i.source ∧ ∀ x ∈ i.exposing, Without q x) :
    Without q i.line := by
  have hsource : Without q ("import " ++ i.source) := without_append.2 ⟨by cases q <;> decide, h.1⟩
  rw [Import.line]
  split
  · exact hsource
  · refine without_append.2 ⟨without_append.2 ⟨without_append.2 ⟨hsource, ?_⟩, ?_⟩, ?_⟩
    · cases q <;> decide
    · exact without_intercalate (by cases q <;> decide) h.2
    · cases q <;> decide

theorem NamedWithout.headerLines {q : Mark} {M : Module} (hM : M.NamedWithout q) :
    ∀ l ∈ M.headerLines, Without q l := by
  refine List.forall_mem_cons.2 ⟨?_, List.forall_mem_cons.2 ⟨List.not_mem_nil, fun l hl => ?_⟩⟩
  · exact without_append.2
      ⟨without_append.2 ⟨by cases q <;> decide, hM.name⟩, by cases q <;> decide⟩
  · obtain ⟨i, hi, rfl⟩ := List.mem_map.1 hl
    exact without_import (hM.imports i hi)

theorem NamedWithout.paragraph {M : Module} (hM : M.NamedWithout .lineBreak) (himports : M.imports ≠ [])
    (h : ∀ d ∈ M.declarations, ∃ ls, declarationLines d = .ok ls) :
    ∀ p ∈ M.paragraphs, Paragraph "" IsLine p := by
  intro p hp
  rcases List.mem_cons.1 hp with rfl | hp
  · refine Paragraph.and_of_forall (.skip (by simp) (.of_forall ?_ fun l hl => ?_)) hM.headerLines
    · simpa using himports
    · obtain ⟨i, -, rfl⟩ := List.mem_map.1 hl
      rw [Import.line]
      split <;> simp
  · obtain ⟨d, hd, rfl⟩ := List.mem_map.1 hp
    obtain ⟨ls, hls⟩ := h d hd
    obtain ⟨ks, -, hlines⟩ := (hM.declarations d hd).declarationLines ls hls
    rw [Node.renderedLines_eq hls]
    exact Paragraph.and_of_forall (paragraph_declarationLines hls) (EmbedsAll.unbroken hlines)

/-- The text of a module tells the lines of each of its declarations. -/
theorem renderedLines_eq_of_text_eq {M N : Module} (hM : M.NamedWithout .lineBreak)
    (hN : N.NamedWithout .lineBreak) (hMi : M.imports ≠ []) (hNi : N.imports ≠ [])
    (hMd : ∀ d ∈ M.declarations, d.IsDeclaration) (hNd : ∀ d ∈ N.declarations, d.IsDeclaration)
    (h : M.text = N.text) :
    M.declarations.map Node.renderedLines = N.declarations.map Node.renderedLines := by
  have hMd := fun d hd => Node.declarationLines_ok (hMd d hd)
  have hNd := fun d hd => Node.declarationLines_ok (hNd d hd)
  rw [text_eq hMd, text_eq hNd, Except.ok.injEq, String.append_left_inj] at h
  have hM' : Text.paragraphs ("\n\n\n".intercalate (M.paragraphs.map joinLines)) = M.paragraphs :=
    paragraphs_join (List.cons_ne_nil _ _) (hM.paragraph hMi hMd)
  have hN' : Text.paragraphs ("\n\n\n".intercalate (N.paragraphs.map joinLines)) = N.paragraphs :=
    paragraphs_join (List.cons_ne_nil _ _) (hN.paragraph hNi hNd)
  rw [h, hN'] at hM'
  exact (List.cons.inj hM').2.symm

theorem embeds_declarationText {d : Node} (h : d.DeclaredWithout .quote) :
    Follows (Embeds .quote d.strings) (declarationText d) (declarationText d.emptied) :=
  h.declarationLines.map fun _ _ hlines => EmbedsAll.intercalate (by decide) hlines

theorem NamedWithout.text {M : Module} (hM : M.NamedWithout .quote) :
    Follows (Embeds .quote M.strings) M.text M.emptied.text := by
  have hdeclarations : Follows (EmbedsAll .quote M.strings) (M.declarations.mapM declarationText)
      (M.emptied.declarations.mapM declarationText) := by
    rw [declarations_emptied]
    exact EmbedsAll.of_mapM fun d hd => embeds_declarationText (hM.declarations d hd)
  have hheader : Without .quote M.header := without_intercalate (by decide) hM.headerLines
  refine hdeclarations.bind fun ts ks hall => .ok ?_
  exact (EmbedsAll.intercalate (by decide) (.cons (.code hheader) hall)).before (by decide)

/-- Cutting the text of a module finds the literals of its strings, and the code of the module with every
string empty. -/
theorem NamedWithout.cut_text {M : Module} (hM : M.NamedWithout .quote) {t : String}
    (ht : M.text = .ok t) : ∃ ps k, cut none t.toList = some ps ∧
      bodies ps = M.strings.map (fun s => s.toList.flatMap escaped) ∧
      M.emptied.text = .ok k ∧ cut none k.toList = some (ps.map Piece.emptied) := by
  obtain ⟨k, hk, htk⟩ := hM.text t ht
  obtain ⟨ps, hps, htext, hempty⟩ := htk.cut
  have htext := htext []
  have hempty := hempty []
  rw [List.append_nil] at htext hempty
  refine ⟨ps, k, htext.trans ?_, hps, hk, hempty.trans ?_⟩
  · exact congrArg some (List.append_nil _)
  · exact congrArg some (List.append_nil _)

end Module

end TypedAssets.Code
