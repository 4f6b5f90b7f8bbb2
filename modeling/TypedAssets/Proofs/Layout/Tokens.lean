import Mathlib.Data.List.Forall2
import TypedAssets.Code.Layout.Basic
import TypedAssets.Proofs.Layout.Embedding
import TypedAssets.Text.Blank

/-!
# Tokens of code

A text of code is a sequence of tokens: string literals, brackets and the other signs, each of them a token of
its own, and words. White space outside of literals only keeps words apart. So tokens can be told part by part
where white space or a sign stands between the parts (`Reads.join`), and lines that are put below one another have
the tokens of the lines (`reads_renderLines`).
-/

namespace TypedAssets.Code

open Text

/-- A string literal by what stands between its quotes, a sign, or a word. -/
inductive Token where
  | literal (body : List Char)
  | sign (c : Char)
  | word (cs : List Char)
  deriving DecidableEq

/-- The characters that are tokens of their own. -/
def isSign (c : Char) : Bool := c ∈ ['(', ')', '[', ']', '\x7b', '\x7d', ',', '=', '|']

/-- A word that has come to its end, if there is one. -/
def wordToken : List Char → List Token
  | [] => []
  | c :: cs => [.word (c :: cs)]

/-- The tokens of a text in pieces, where `w` is what has been read of a word. -/
def tokenize (w : List Char) : List Piece → List Token
  | [] => wordToken w
  | .literal body :: ps => wordToken w ++ .literal body :: tokenize [] ps
  | .code c :: ps =>
    if isBlank c then wordToken w ++ tokenize [] ps
    else if isSign c then wordToken w ++ .sign c :: tokenize [] ps
    else tokenize (w ++ [c]) ps

/-- The tokens of a text; there are none if it ends inside of a literal. -/
def tokens (t : String) : Option (List Token) := (cut none t.toList).map (tokenize [])

/-- Whether a character ends the word before it. -/
def isDivider (c : Char) : Bool := isBlank c || isSign c

/-- A text that keeps words apart: white space and signs. -/
def IsDivider (s : String) : Prop := s ≠ "" ∧ ∀ c ∈ s.toList, isDivider c

instance (s : String) : Decidable (IsDivider s) :=
  -- along the text, not over all characters there are
  have := List.decidableBAll (isDivider ·) s.toList
  inferInstanceAs (Decidable (s ≠ "" ∧ ∀ c ∈ s.toList, isDivider c))

theorem IsDivider.append {s t : String} (hs : IsDivider s) (ht : IsDivider t) : IsDivider (s ++ t) := by
  obtain ⟨hne, hs⟩ := hs
  refine ⟨fun h => hne (String.append_eq_empty_iff.1 h).1, fun c hc => ?_⟩
  rw [String.toList_append, List.mem_append] at hc
  exact hc.elim (hs c) (ht.2 c)

/-- The signs in a text of white space and signs. -/
def signs (cs : List Char) : List Token := (cs.filter isSign).map .sign

theorem signs_append (cs ds : List Char) : signs (cs ++ ds) = signs cs ++ signs ds := by simp [signs]

theorem not_isSign_of_isBlank {c : Char} (h : isBlank c) : ¬ isSign c := by
  intro hs
  simp only [isSign, List.mem_cons, List.not_mem_nil, or_false, decide_eq_true_eq] at hs
  rcases hs with rfl | rfl | rfl | rfl | rfl | rfl | rfl | rfl | rfl
  all_goals exact absurd h (by decide)

theorem tokenize_divider {c : Char} (hc : isDivider c) (w : List Char) (ps : List Piece) :
    tokenize w (.code c :: ps) = wordToken w ++ signs [c] ++ tokenize [] ps := by
  by_cases hb : isBlank c
  · simp [tokenize, signs, hb, not_isSign_of_isBlank hb]
  · have hs : isSign c := by simpa [isDivider, hb] using hc
    simp [tokenize, signs, hb, hs]

theorem tokenize_dividers {cs : List Char} (hcs : ∀ c ∈ cs, isDivider c) (ps : List Piece) :
    tokenize [] (cs.map .code ++ ps) = signs cs ++ tokenize [] ps := by
  induction cs with
  | nil => rfl
  | cons c cs ih =>
    obtain ⟨hc, hcs⟩ := List.forall_mem_cons.1 hcs
    have hsigns : signs (c :: cs) = signs [c] ++ signs cs := signs_append [c] cs
    rw [List.map_cons, List.cons_append, tokenize_divider hc, ih hcs, hsigns, wordToken, List.nil_append,
      List.append_assoc]

/-- A divider ends what is before it, so the tokens are those of the parts. -/
theorem tokenize_append {c : Char} (hc : isDivider c) (w : List Char) (ps qs : List Piece) :
    tokenize w (ps ++ .code c :: qs) = tokenize w ps ++ signs [c] ++ tokenize [] qs := by
  induction ps generalizing w with
  | nil => exact tokenize_divider hc w qs
  | cons p ps ih =>
    cases p with
    | literal body => simp [tokenize, ih]
    | code d =>
      rw [List.cons_append, tokenize, tokenize, ih, ih]
      split
      · simp
      · split <;> simp

/-- A text with these tokens that leaves no literal open. -/
def Reads (t : String) (us : List Token) : Prop :=
  ∃ ps, (∀ rest, cut none (t.toList ++ rest) = (cut none rest).map (ps ++ ·)) ∧ tokenize [] ps = us

theorem Embeds.reads {ss : List String} {t k : String} (h : Embeds .quote ss t k) : ∃ us, Reads t us := by
  obtain ⟨ps, -, hcut, -⟩ := h.cut
  exact ⟨_, ps, hcut, rfl⟩

theorem EmbedsAll.reads {ss ts ks : List String} (h : EmbedsAll .quote ss ts ks) :
    ∃ uss, List.Forall₂ Reads ts uss := by
  induction h with
  | nil => exact ⟨[], .nil⟩
  | cons h _ ih =>
    obtain ⟨us, hus⟩ := h.reads
    obtain ⟨uss, huss⟩ := ih
    exact ⟨us :: uss, .cons hus huss⟩

namespace Reads

variable {s t u : String} {us vs : List Token}

theorem tokens_eq (h : Reads t us) : tokens t = some us := by
  obtain ⟨ps, hcut, rfl⟩ := h
  have := hcut []
  rw [List.append_nil] at this
  rw [tokens, this]
  simp [cut]

theorem empty : Reads "" [] := ⟨[], by simp, rfl⟩

/-- Two texts with a divider between them. -/
theorem join (ht : Reads t us) (hs : IsDivider s) (hu : Reads u vs) :
    Reads (t ++ s ++ u) (us ++ signs s.toList ++ vs) := by
  obtain ⟨ps, hps, rfl⟩ := ht
  obtain ⟨qs, hqs, rfl⟩ := hu
  obtain ⟨hne, hall⟩ := hs
  have hquote : '"' ∉ s.toList := fun h => absurd (hall _ h) (by decide)
  refine ⟨ps ++ s.toList.map .code ++ qs, fun rest => ?_, ?_⟩
  · rw [String.toList_append, String.toList_append, List.append_assoc, List.append_assoc, hps, cut_code hquote,
      hqs, Option.map_map, Option.map_map]
    simp only [Function.comp_def, List.append_assoc]
  · obtain ⟨c, cs, hcs⟩ := List.exists_cons_of_ne_nil (mt String.toList_eq_nil_iff.1 hne)
    rw [hcs] at hall ⊢
    obtain ⟨hc, hall⟩ := List.forall_mem_cons.1 hall
    have hsigns : signs (c :: cs) = signs [c] ++ signs cs := signs_append [c] cs
    rw [List.map_cons, List.append_assoc, List.cons_append, tokenize_append hc, tokenize_dividers hall, hsigns]
    simp

theorem after (hs : IsDivider s) (h : Reads t us) : Reads (s ++ t) (signs s.toList ++ us) := by
  simpa using empty.join hs h

theorem before (h : Reads t us) (hs : IsDivider s) : Reads (t ++ s) (us ++ signs s.toList) := by
  simpa using h.join hs empty

theorem intercalate {ts : List String} {uss : List (List Token)} (hs : IsDivider s)
    (h : List.Forall₂ Reads ts uss) : Reads (s.intercalate ts) ((signs s.toList).intercalate uss) := by
  induction h with
  | nil => simpa using empty
  | @cons t us ts uss ht hts ih =>
    cases hts with
    | nil => simpa using ht
    | cons =>
      rw [String.intercalate_cons_cons, List.intercalate_cons_cons]
      exact ht.join hs ih

theorem indented (i : Nat) (h : Reads t us) : Reads (spaces i ++ t) us := by
  cases i with
  | zero => simpa [spaces] using h
  | succ i =>
    have hlist : (spaces (i + 1)).toList = List.replicate (i + 1) ' ' := toList_spaces (i + 1)
    have hdivider : IsDivider (spaces (i + 1)) := by
      refine ⟨fun hnil => ?_, fun c hc => ?_⟩
      · rw [hnil] at hlist
        cases hlist
      · rw [hlist] at hc
        rw [List.eq_of_mem_replicate hc]
        decide
    have hsigns : signs (spaces (i + 1)).toList = [] := by
      rw [hlist, signs, List.map_eq_nil_iff, List.filter_eq_nil_iff]
      intro c hc
      rw [List.eq_of_mem_replicate hc]
      decide
    have := h.after hdivider
    rwa [hsigns] at this

end Reads

section

variable {l : Line} {ls : List Line} {us vs : List Token}

theorem Reads.line (h : Reads l.text us) : Reads (renderLines [l]) us := by
  rw [renderLines, List.map_singleton, String.intercalate_singleton]
  exact h.indented l.indent

theorem Reads.lines_cons (h : Reads l.text us) (hne : ls ≠ []) (hls : Reads (renderLines ls) vs) :
    Reads (renderLines (l :: ls)) (us ++ vs) := by
  obtain ⟨l', ls, rfl⟩ := List.exists_cons_of_ne_nil hne
  rw [renderLines, List.map_cons, List.map_cons, String.intercalate_cons_cons, ← List.map_cons, ← renderLines]
  have hbreak : signs "\n".toList = [] := by decide
  have hjoin := (h.indented l.indent).join (s := "\n") (by decide) hls
  rwa [hbreak, List.append_nil] at hjoin

theorem reads_renderLines {uss : List (List Token)} (h : List.Forall₂ (fun l us => Reads l.text us) ls uss) :
    Reads (renderLines ls) uss.flatten := by
  induction h with
  | nil => simpa [renderLines] using Reads.empty
  | @cons l us ls uss hl hls ih =>
    cases hls with
    | nil => simpa using hl.line
    | cons => exact hl.lines_cons (List.cons_ne_nil _ _) ih

end

end TypedAssets.Code
