import TypedAssets.Proofs.Layout.Literal
import TypedAssets.Proofs.Layout.Paragraph
import TypedAssets.Proofs.Outcomes
import TypedAssets.Text.Padding

/-!
# Literals among code

A text that is put together from code and from string literals. If no part of the code has a line break,
the text has none (`Embeds.unbroken`); if no part of it has a double quote, cutting the text finds just
these literals, and the same code whatever they stand for (`Embeds.cut`).
-/

namespace TypedAssets

namespace Text

/-- The characters that divide the text of a module, into lines and into code and literals. -/
inductive Mark where
  | lineBreak
  | quote

def Mark.char : Mark → Char
  | .lineBreak => '\n'
  | .quote => '"'

/-- A text without a mark. -/
def Without (q : Mark) (s : String) : Prop := q.char ∉ s.toList

instance (q : Mark) (s : String) : Decidable (Without q s) := inferInstanceAs (Decidable (q.char ∉ s.toList))

section

variable {q : Mark} {s t : String}

theorem without_empty : Without q "" := List.not_mem_nil

theorem without_append : Without q (s ++ t) ↔ Without q s ∧ Without q t := by
  rw [Without, String.toList_append, List.mem_append, not_or]
  rfl

theorem without_intercalate {ls : List String} (hs : Without q s) (h : ∀ l ∈ ls, Without q l) :
    Without q (s.intercalate ls) := by
  induction ls with
  | nil =>
    rw [String.intercalate_nil]
    exact without_empty
  | cons l ls ih =>
    have hl := h l List.mem_cons_self
    by_cases hls : ls = []
    · subst hls
      rwa [String.intercalate_singleton]
    · rw [String.intercalate_cons_of_ne_nil hls, without_append, without_append]
      exact ⟨⟨hl, hs⟩, ih fun x hx => h x (List.mem_cons_of_mem _ hx)⟩

theorem without_join {ls : List String} (h : ∀ l ∈ ls, Without q l) : Without q (String.join ls) := by
  rw [Without, String.toList_join, List.mem_flatMap]
  rintro ⟨l, hl, hmem⟩
  exact h l hl hmem

theorem without_spaces (n : Nat) : Without q (spaces n) := by
  rw [Without, toList_spaces, List.mem_replicate]
  rintro ⟨-, h⟩
  cases q <;> cases h

end

end Text

namespace Code

open Text

/-- A text of code without a mark and of the literals of some strings, in order, and that text with these
strings empty. -/
inductive Embeds (q : Mark) : List String → String → String → Prop
  | code {t : String} (ht : Without q t) : Embeds q [] t t
  | literal (s : String) : Embeds q [s] (literal s) (literal "")
  | append {ss ss' : List String} {t u k l : String} (h : Embeds q ss t k) (h' : Embeds q ss' u l) :
      Embeds q (ss ++ ss') (t ++ u) (k ++ l)

namespace Embeds

variable {q : Mark} {t k u v : String} {ss : List String}

theorem after (hu : Without q u) (h : Embeds q ss t k) : Embeds q ss (u ++ t) (u ++ k) :=
  (code hu).append h

theorem before (h : Embeds q ss t k) (hv : Without q v) : Embeds q ss (t ++ v) (k ++ v) := by
  simpa using h.append (code hv)

theorem unbroken (h : Embeds .lineBreak ss t k) : Unbroken t := by
  induction h with
  | code ht => exact ht
  | literal s =>
    have hs : '\n' ∉ s.toList.flatMap escaped := by
      intro h
      obtain ⟨c, -, hc⟩ := List.mem_flatMap.1 h
      exact control_not_mem_escaped (by decide) c hc
    simpa [Unbroken, toList_literal] using hs
  | append _ _ ih ih' => exact (without_append (q := .lineBreak)).2 ⟨ih, ih'⟩

theorem cut (h : Embeds .quote ss t k) : ∃ ps, bodies ps = ss.map (fun s => s.toList.flatMap escaped) ∧
    (∀ rest, Code.cut none (t.toList ++ rest) = (Code.cut none rest).map (ps ++ ·)) ∧
    ∀ rest, Code.cut none (k.toList ++ rest) = (Code.cut none rest).map (ps.map Piece.emptied ++ ·) := by
  -- for every text that follows, so that texts can be put after one another
  induction h with
  | @code t ht =>
    refine ⟨t.toList.map .code, ?_, cut_code ht, fun rest => ?_⟩
    · simp [bodies]
    · rw [cut_code ht, List.map_map]
      rfl
  | literal s => exact ⟨[.literal (s.toList.flatMap escaped)], rfl, cut_literal s, cut_literal ""⟩
  | append _ _ ih ih' =>
    obtain ⟨ps, hps, ht, hk⟩ := ih
    obtain ⟨ps', hps', hu, hl⟩ := ih'
    refine ⟨ps ++ ps', ?_, fun rest => ?_, fun rest => ?_⟩
    · rw [bodies, List.filterMap_append, List.map_append, ← hps, ← hps']
      rfl
    · rw [String.toList_append, List.append_assoc, ht, hu, Option.map_map]
      simp only [Function.comp_def, List.append_assoc]
    · rw [String.toList_append, List.append_assoc, hk, hl, Option.map_map]
      simp only [Function.comp_def, List.append_assoc, List.map_append]

end Embeds

/-- Texts that embed strings, one after another. -/
inductive EmbedsAll (q : Mark) : List String → List String → List String → Prop
  | nil : EmbedsAll q [] [] []
  | cons {t k : String} {ss ss' ts ks : List String} (h : Embeds q ss t k) (hts : EmbedsAll q ss' ts ks) :
      EmbedsAll q (ss ++ ss') (t :: ts) (k :: ks)

namespace EmbedsAll

variable {q : Mark} {t k u : String} {ts us ss ss' ks ls : List String}

theorem of_code (h : ∀ t ∈ ts, Without q t) : EmbedsAll q [] ts ts := by
  induction ts with
  | nil => exact nil
  | cons t ts ih =>
    exact cons (.code (h t List.mem_cons_self)) (ih fun u hu => h u (List.mem_cons_of_mem _ hu))

theorem append (h : EmbedsAll q ss ts ks) (h' : EmbedsAll q ss' us ls) :
    EmbedsAll q (ss ++ ss') (ts ++ us) (ks ++ ls) := by
  induction h with
  | nil => exact h'
  | cons h _ ih =>
    rw [List.append_assoc]
    exact cons h ih

theorem map {f : String → String} (hf : ∀ {ss t k}, Embeds q ss t k → Embeds q ss (f t) (f k))
    (h : EmbedsAll q ss ts ks) : EmbedsAll q ss (ts.map f) (ks.map f) := by
  induction h with
  | nil => exact nil
  | cons h _ ih => exact cons (hf h) ih

theorem intercalate (hu : Without q u) (h : EmbedsAll q ss ts ks) :
    Embeds q ss (u.intercalate ts) (u.intercalate ks) := by
  induction h with
  | nil =>
    rw [String.intercalate_nil]
    exact .code without_empty
  | cons h hts ih =>
    cases hts with
    | nil => simpa using h
    | cons =>
      rw [String.intercalate_cons_cons, String.intercalate_cons_cons]
      exact (h.before hu).append ih

theorem unbroken (h : EmbedsAll .lineBreak ss ts ks) : ∀ t ∈ ts, Unbroken t := by
  induction h with
  | nil => exact fun t ht => absurd ht List.not_mem_nil
  | cons h _ ih => exact List.forall_mem_cons.2 ⟨h.unbroken, ih⟩

/-- Texts made one after another, each of an item and with the strings of that item. -/
theorem of_mapM {α ε : Type} {xs : List α} {f : α → Except ε String} {g : α → α}
    {strings : α → List String} (h : ∀ x ∈ xs, Follows (Embeds q (strings x)) (f x) (f (g x))) :
    Follows (EmbedsAll q (xs.flatMap strings)) (xs.mapM f) ((xs.map g).mapM f) := by
  induction xs with
  | nil => exact .ok nil
  | cons x xs ih =>
    rw [List.map_cons, List.mapM_cons, List.mapM_cons]
    refine (h x List.mem_cons_self).bind fun t k htk => ?_
    exact (ih fun y hy => h y (List.mem_cons_of_mem _ hy)).bind fun ts ks hall => .ok (cons htk hall)

end EmbedsAll

end Code

end TypedAssets
