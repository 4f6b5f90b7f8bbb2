/-!
# Paragraphs

A paragraph is a list of lines that starts and ends with a line that is not empty and has no two empty
lines in a row. So two empty lines stand only between paragraphs, and a text of paragraphs that are kept
apart in this way falls into them again (`paragraphs_join`).
-/

namespace TypedAssets.Text

/-- Lines that are not blank hold to `P`, and blank ones stand alone between two of them. -/
inductive Paragraph {α : Type} (blank : α) (P : α → Prop) : List α → Prop
  | single {l : α} (h : P l) : Paragraph blank P [l]
  | cons {l : α} {ls : List α} (h : P l) (hls : Paragraph blank P ls) : Paragraph blank P (l :: ls)
  | skip {l : α} {ls : List α} (h : P l) (hls : Paragraph blank P ls) :
      Paragraph blank P (l :: blank :: ls)

namespace Paragraph

section

variable {α : Type} {blank : α} {P : α → Prop} {ls ls' : List α}

theorem ne_nil (h : Paragraph blank P ls) : ls ≠ [] := by
  cases h <;> exact List.cons_ne_nil _ _

theorem append_blank (h : Paragraph blank P ls) (h' : Paragraph blank P ls') :
    Paragraph blank P (ls ++ blank :: ls') := by
  induction h with
  | single h => exact .skip h h'
  | cons h _ ih => exact .cons h ih
  | skip h _ ih => exact .skip h ih

theorem of_forall (hne : ls ≠ []) (h : ∀ l ∈ ls, P l) : Paragraph blank P ls := by
  induction ls with
  | nil => exact absurd rfl hne
  | cons l ls ih =>
    by_cases hls : ls = []
    · subst hls
      exact .single (h l List.mem_cons_self)
    · exact .cons (h l List.mem_cons_self) (ih hls fun x hx => h x (List.mem_cons_of_mem _ hx))

theorem map {β : Type} {blank' : β} {Q : β → Prop} {f : α → β} (hblank : f blank = blank')
    (hf : ∀ l, P l → Q (f l)) (h : Paragraph blank P ls) : Paragraph blank' Q (ls.map f) := by
  induction h with
  | single h => exact .single (hf _ h)
  | cons h _ ih => exact .cons (hf _ h) ih
  | skip h _ ih =>
    rw [List.map_cons, List.map_cons, hblank]
    exact .skip (hf _ h) ih

theorem mono {Q : α → Prop} (hPQ : ∀ l, P l → Q l) (h : Paragraph blank P ls) :
    Paragraph blank Q ls := by
  induction h with
  | single h => exact .single (hPQ _ h)
  | cons h _ ih => exact .cons (hPQ _ h) ih
  | skip h _ ih => exact .skip (hPQ _ h) ih

theorem and_of_forall {Q : α → Prop} (h : Paragraph blank P ls) (hQ : ∀ l ∈ ls, Q l) :
    Paragraph blank (fun l => P l ∧ Q l) ls := by
  induction h with
  | single h => exact .single ⟨h, hQ _ List.mem_cons_self⟩
  | cons h _ ih =>
    exact .cons ⟨h, hQ _ List.mem_cons_self⟩ (ih fun l hl => hQ l (List.mem_cons_of_mem _ hl))
  | skip h _ ih =>
    refine .skip ⟨h, hQ _ List.mem_cons_self⟩ (ih fun l hl => hQ l ?_)
    exact List.mem_cons_of_mem _ (List.mem_cons_of_mem _ hl)

/-- What holds of the blank line and of every other holds of all lines. -/
theorem forall_mem {Q : α → Prop} (hblank : Q blank) (hPQ : ∀ l, P l → Q l)
    (h : Paragraph blank P ls) : ∀ l ∈ ls, Q l := by
  induction h with
  | single h =>
    intro l hl
    obtain rfl := List.mem_singleton.1 hl
    exact hPQ _ h
  | cons h _ ih =>
    intro l hl
    rcases List.mem_cons.1 hl with rfl | hl
    · exact hPQ _ h
    · exact ih l hl
  | skip h _ ih =>
    intro l hl
    rcases List.mem_cons.1 hl with rfl | hl
    · exact hPQ _ h
    rcases List.mem_cons.1 hl with rfl | hl
    · exact hblank
    · exact ih l hl

section

variable (hP : ∀ l, P l → l ≠ blank)
include hP

theorem head?_ne (h : Paragraph blank P ls) : ls.head? ≠ some blank := by
  cases h with
  | single h => simpa using hP _ h
  | cons h => simpa using hP _ h
  | skip h => simpa using hP _ h

theorem getLast?_ne (h : Paragraph blank P ls) : ls.getLast? ≠ some blank := by
  induction h with
  | single h => simpa using hP _ h
  | cons _ hls ih =>
    obtain ⟨l', ls, rfl⟩ := List.exists_cons_of_ne_nil hls.ne_nil
    rwa [List.getLast?_cons_cons]
  | skip _ hls ih =>
    obtain ⟨l', ls, rfl⟩ := List.exists_cons_of_ne_nil hls.ne_nil
    rwa [List.getLast?_cons_cons, List.getLast?_cons_cons]

/-- No two blank lines in a row. -/
theorem not_blank_blank (h : Paragraph blank P ls) : ¬ [blank, blank] <:+: ls := by
  induction h with
  | single =>
    intro hinfix
    simpa using hinfix.length_le
  | cons h _ ih =>
    intro hinfix
    rcases List.infix_cons_iff.1 hinfix with hprefix | hinfix
    · exact hP _ h (List.cons_prefix_cons.1 hprefix).1.symm
    · exact ih hinfix
  | skip h hls ih =>
    intro hinfix
    rcases List.infix_cons_iff.1 hinfix with hprefix | hinfix
    · exact hP _ h (List.cons_prefix_cons.1 hprefix).1.symm
    rcases List.infix_cons_iff.1 hinfix with hprefix | hinfix
    · obtain ⟨r, hr⟩ := (List.cons_prefix_cons.1 hprefix).2
      exact hls.head?_ne hP (by rw [← hr]; rfl)
    · exact ih hinfix

end

end

end Paragraph

/-- A text without a line break. -/
def Unbroken (s : String) : Prop := '\n' ∉ s.toList

instance (s : String) : Decidable (Unbroken s) := inferInstanceAs (Decidable ('\n' ∉ s.toList))

/-- A line of its own that is not empty. -/
def IsLine (s : String) : Prop := s ≠ "" ∧ Unbroken s

instance (s : String) : Decidable (IsLine s) := inferInstanceAs (Decidable (s ≠ "" ∧ Unbroken s))

/-- Lines of text, with line breaks between them. -/
def joinLines (ls : List String) : String := "\n".intercalate ls

theorem toList_joinLines (ls : List String) :
    (joinLines ls).toList = ['\n'].intercalate (ls.map String.toList) := by
  rw [joinLines, String.toList_intercalate]
  rfl

/-- The lines of a text, as its line breaks divide it. -/
def splitLines (cs : List Char) : List String := (cs.splitOn '\n').map String.ofList

theorem splitLines_joinLines {ls : List String} (hne : ls ≠ []) (h : ∀ l ∈ ls, Unbroken l) :
    splitLines (joinLines ls).toList = ls := by
  rw [splitLines, toList_joinLines,
    List.splitOn_intercalate _ (by simpa [Unbroken] using h) (by simpa using hne), List.map_map]
  have hid : ∀ l ∈ ls, (String.ofList ∘ String.toList) l = l := fun l _ => String.ofList_toList
  rw [List.map_congr_left hid, List.map_id']

theorem toList_joinLines_cons {l : String} {ls : List String} (h : ls ≠ []) :
    (joinLines (l :: ls)).toList = l.toList ++ '\n' :: (joinLines ls).toList := by
  rw [toList_joinLines, toList_joinLines, List.map_cons,
    List.intercalate_cons_of_ne_nil (by simpa using h)]
  simp

/-- The pieces of a text between any two empty lines. -/
def splitParagraphs : List Char → List (List Char)
  | '\n' :: '\n' :: '\n' :: cs => [] :: splitParagraphs cs
  | c :: cs => (splitParagraphs cs).modifyHead (c :: ·)
  | [] => [[]]

theorem splitParagraphs_cons {c : Char} {cs : List Char} (h : ¬ ['\n', '\n', '\n'] <+: c :: cs) :
    splitParagraphs (c :: cs) = (splitParagraphs cs).modifyHead (c :: ·) := by
  rw [splitParagraphs]
  rintro r rfl rfl
  exact h ⟨r, rfl⟩

theorem splitParagraphs_append {l : List Char} (hl : '\n' ∉ l) (cs : List Char) :
    splitParagraphs (l ++ cs) = (splitParagraphs cs).modifyHead (l ++ ·) := by
  induction l with
  | nil =>
    rw [List.nil_append]
    cases splitParagraphs cs <;> rfl
  | cons c l ih =>
    have hc : c ≠ '\n' := fun h => hl (by simp [h])
    have hbreak : ¬ ['\n', '\n', '\n'] <+: c :: (l ++ cs) := fun h =>
      hc (List.cons_prefix_cons.1 h).1.symm
    rw [List.cons_append, splitParagraphs_cons hbreak, ih fun h => hl (List.mem_cons_of_mem _ h)]
    cases splitParagraphs cs <;> rfl

/-- The text of a paragraph starts with a character that is no line break. -/
theorem Paragraph.head_joinLines {ls : List String} (h : Paragraph "" IsLine ls) :
    ∃ c r, (joinLines ls).toList = c :: r ∧ c ≠ '\n' := by
  have hline {l : String} (hl : IsLine l) : ∃ c r, l.toList = c :: r ∧ c ≠ '\n' := by
    obtain ⟨c, r, hcr⟩ := List.exists_cons_of_ne_nil (mt String.toList_eq_nil_iff.1 hl.1)
    refine ⟨c, r, hcr, fun hc => hl.2 ?_⟩
    rw [hcr, hc]
    exact List.mem_cons_self
  cases h with
  | single h => simpa [joinLines] using hline h
  | cons h hls =>
    obtain ⟨c, r, hcr, hc⟩ := hline h
    exact ⟨c, _, by rw [toList_joinLines_cons hls.ne_nil, hcr]; rfl, hc⟩
  | skip h hls =>
    obtain ⟨c, r, hcr, hc⟩ := hline h
    exact ⟨c, _, by rw [toList_joinLines_cons (List.cons_ne_nil _ _), hcr]; rfl, hc⟩

theorem Paragraph.not_break_prefix {ls : List String} (h : Paragraph "" IsLine ls) (cs : List Char) :
    ¬ ['\n'] <+: (joinLines ls).toList ++ cs := by
  obtain ⟨c, r, hcr, hc⟩ := h.head_joinLines
  rw [hcr, List.cons_append, List.cons_prefix_cons]
  exact fun h => hc h.1.symm

/-- One line break before a paragraph, or two, are no place to split. -/
theorem Paragraph.splitParagraphs_breaks {ls : List String} (h : Paragraph "" IsLine ls) {cs : List Char}
    {q : List Char} {ps : List (List Char)} (hq : splitParagraphs ((joinLines ls).toList ++ cs) = q :: ps) :
    splitParagraphs ('\n' :: ((joinLines ls).toList ++ cs)) = ('\n' :: q) :: ps ∧
      splitParagraphs ('\n' :: '\n' :: ((joinLines ls).toList ++ cs)) = ('\n' :: '\n' :: q) :: ps := by
  have hone : ¬ ['\n', '\n', '\n'] <+: '\n' :: ((joinLines ls).toList ++ cs) := fun hp =>
    h.not_break_prefix cs ((List.prefix_append ['\n'] ['\n']).trans (List.cons_prefix_cons.1 hp).2)
  have htwo : ¬ ['\n', '\n', '\n'] <+: '\n' :: '\n' :: ((joinLines ls).toList ++ cs) := fun hp =>
    h.not_break_prefix cs (List.cons_prefix_cons.1 (List.cons_prefix_cons.1 hp).2).2
  have h1 : splitParagraphs ('\n' :: ((joinLines ls).toList ++ cs)) = ('\n' :: q) :: ps := by
    rw [splitParagraphs_cons hone, hq, List.modifyHead_cons]
  refine ⟨h1, ?_⟩
  rw [splitParagraphs_cons htwo, h1, List.modifyHead_cons]

/-- A paragraph is one piece, up to what stands after it. -/
theorem Paragraph.splitParagraphs_append {ls : List String} (h : Paragraph "" IsLine ls) {cs : List Char}
    {ps : List (List Char)} (hcs : splitParagraphs cs = [] :: ps) :
    splitParagraphs ((joinLines ls).toList ++ cs) = (joinLines ls).toList :: ps := by
  -- `cs` is empty or starts with the break after the paragraph; both begin a new piece
  induction h with
  | @single l h =>
    rw [joinLines, String.intercalate_singleton, Text.splitParagraphs_append h.2, hcs,
      List.modifyHead_cons, List.append_nil]
  | @cons l ls h hls ih =>
    rw [toList_joinLines_cons hls.ne_nil, List.append_assoc, List.cons_append,
      Text.splitParagraphs_append h.2, (hls.splitParagraphs_breaks ih).1, List.modifyHead_cons]
  | @skip l ls h hls ih =>
    have hskip : (joinLines ("" :: ls)).toList = '\n' :: (joinLines ls).toList :=
      toList_joinLines_cons hls.ne_nil
    rw [toList_joinLines_cons (List.cons_ne_nil _ _), hskip, List.append_assoc, List.cons_append,
      List.cons_append, Text.splitParagraphs_append h.2, (hls.splitParagraphs_breaks ih).2,
      List.modifyHead_cons]

/-- Paragraphs with two empty lines between them are found again. -/
theorem splitParagraphs_join {ps : List (List String)} (hne : ps ≠ [])
    (h : ∀ p ∈ ps, Paragraph "" IsLine p) :
    splitParagraphs ("\n\n\n".intercalate (ps.map joinLines)).toList =
      ps.map fun p => (joinLines p).toList := by
  induction ps with
  | nil => exact absurd rfl hne
  | cons p ps ih =>
    by_cases hps : ps = []
    · subst hps
      have hp : splitParagraphs ((joinLines p).toList ++ []) = _ :=
        (h p List.mem_cons_self).splitParagraphs_append rfl
      rw [List.append_nil] at hp
      simpa using hp
    · have htail := ih hps fun q hq => h q (List.mem_cons_of_mem _ hq)
      rw [List.map_cons, String.intercalate_cons_of_ne_nil (by simpa using hps), String.toList_append,
        String.toList_append, List.append_assoc]
      refine (h p List.mem_cons_self).splitParagraphs_append ?_
      show splitParagraphs ('\n' :: '\n' :: '\n' :: _) = _
      rw [splitParagraphs]
      exact congrArg ([] :: ·) htail

/-- The paragraphs of a text. -/
def paragraphs (s : String) : List (List String) := (splitParagraphs s.toList).map splitLines

theorem paragraphs_join {ps : List (List String)} (hne : ps ≠ []) (h : ∀ p ∈ ps, Paragraph "" IsLine p) :
    paragraphs ("\n\n\n".intercalate (ps.map joinLines)) = ps := by
  rw [paragraphs, splitParagraphs_join hne h, List.map_map]
  have hid : ∀ p ∈ ps, (splitLines ∘ fun p => (joinLines p).toList) p = p := fun p hp =>
    splitLines_joinLines (h p hp).ne_nil ((h p hp).forall_mem (by decide) fun _ hl => hl.2)
  rw [List.map_congr_left hid, List.map_id']

end TypedAssets.Text
