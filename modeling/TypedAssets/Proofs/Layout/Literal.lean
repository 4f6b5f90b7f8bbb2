import TypedAssets.Code.Literal

/-!
# String literals read back

A text is cut into the characters of its code and its string literals; a literal ends at the first double
quote that no backslash escapes. A literal is cut out whole, whatever it stands for (`cut_literal`), and
unescaping it gives back the text that was written (`unescape_escaped`).
-/

namespace TypedAssets.Code

/-- The character that a backslash and a character stand for. -/
def unescapedChar : Char → Option Char
  | '\\' => some '\\'
  | '"' => some '"'
  | 'n' => some '\n'
  | 'r' => some '\r'
  | 't' => some '\t'
  | _ => none

/-- The text that a literal stands for, given what is between its quotes. -/
def unescape : List Char → Option (List Char)
  | [] => some []
  | ['\\'] => none
  | '\\' :: c :: cs => do return (← unescapedChar c) :: (← unescape cs)
  | c :: cs => (unescape cs).map (c :: ·)

/-- The five characters that are escaped, and the others. -/
theorem escaped_cases (c : Char) :
    (∃ d, escaped c = ['\\', d] ∧ unescapedChar d = some c) ∨ (escaped c = [c] ∧ c ≠ '\\' ∧ c ≠ '"') := by
  by_cases h : c ∈ ['\\', '"', '\n', '\r', '\t']
  · simp only [List.mem_cons, List.not_mem_nil, or_false] at h
    rcases h with rfl | rfl | rfl | rfl | rfl <;> exact .inl ⟨_, rfl, rfl⟩
  · simp only [List.mem_cons, List.not_mem_nil, or_false, not_or] at h
    obtain ⟨hb, hq, hn, hr, ht⟩ := h
    refine .inr ⟨?_, hb, hq⟩
    rw [escaped, if_neg hb, if_neg hq, if_neg hn, if_neg hr, if_neg ht]

theorem unescape_escaped_append (c : Char) (cs : List Char) :
    unescape (escaped c ++ cs) = (unescape cs).map (c :: ·) := by
  rcases escaped_cases c with ⟨d, hd, hc⟩ | ⟨hc, hb, -⟩
  · rw [hd, List.cons_append, List.cons_append, List.nil_append, unescape, hc]
    cases unescape cs <;> rfl
  · rw [hc, List.cons_append, List.nil_append, unescape]
    · exact fun h => absurd h hb
    · exact fun _ _ h => absurd h hb

theorem unescape_escaped (s : List Char) : unescape (s.flatMap escaped) = some s := by
  induction s with
  | nil => rfl
  | cons c s ih => rw [List.flatMap_cons, unescape_escaped_append, ih, Option.map_some]

theorem mapM_unescape (ss : List String) :
    (ss.map fun s => s.toList.flatMap escaped).mapM unescape = some (ss.map String.toList) := by
  induction ss with
  | nil => rfl
  | cons s ss ih =>
    rw [List.map_cons, List.mapM_cons, unescape_escaped, ih]
    rfl

theorem toList_literal (s : String) : (literal s).toList = '"' :: (s.toList.flatMap escaped ++ ['"']) := by
  rw [literal, String.toList_ofList]
  rfl

theorem literal_injective {s t : String} (h : literal s = literal t) : s = t := by
  have hl := congrArg String.toList h
  rw [toList_literal, toList_literal, List.cons.injEq, List.append_left_inj] at hl
  have hs := unescape_escaped s.toList
  rw [hl.2, unescape_escaped] at hs
  exact String.toList_injective (Option.some.inj hs).symm

/-- A character of code, or a string literal by what stands between its quotes. -/
inductive Piece where
  | code (c : Char)
  | literal (body : List Char)
  deriving DecidableEq

/-- The pieces of a text from left to right, outside of any literal or inside of one that has been read in
part. Inside, a backslash takes the next character with it. A text that ends inside has no pieces. -/
def cut : Option (List Char) → List Char → Option (List Piece)
  | none, [] => some []
  | none, '"' :: cs => cut (some []) cs
  | none, c :: cs => (cut none cs).map (.code c :: ·)
  | some _, [] => none
  | some body, '"' :: cs => (cut none cs).map (.literal body :: ·)
  | some body, '\\' :: c :: cs => cut (some (body ++ ['\\', c])) cs
  | some body, c :: cs => cut (some (body ++ [c])) cs

/-- What stands between the quotes of each literal. -/
def bodies (ps : List Piece) : List (List Char) :=
  ps.filterMap fun
    | .code _ => none
    | .literal body => some body

/-- A text with the same placeholder for every literal. -/
def hidden (placeholder : List Char) (ps : List Piece) : List Char :=
  ps.flatMap fun
    | .code c => [c]
    | .literal _ => placeholder

/-- A piece that stands for nothing if it is a literal. -/
def Piece.emptied : Piece → Piece
  | .code c => .code c
  | .literal _ => .literal []

theorem hidden_emptied (placeholder : List Char) (ps : List Piece) :
    hidden placeholder (ps.map Piece.emptied) = hidden placeholder ps := by
  rw [hidden, List.flatMap_map]
  refine congrArg (List.flatMap · ps) (funext fun p => ?_)
  cases p <;> rfl

theorem cut_code {cs : List Char} (h : '"' ∉ cs) (rest : List Char) :
    cut none (cs ++ rest) = (cut none rest).map (cs.map .code ++ ·) := by
  induction cs with
  | nil => simp
  | cons c cs ih =>
    rw [List.mem_cons, not_or] at h
    rw [List.cons_append, cut, ih h.2, Option.map_map]
    · rfl
    · exact fun hc => h.1 hc.symm

theorem cut_escaped (s body rest : List Char) :
    cut (some body) (s.flatMap escaped ++ rest) = cut (some (body ++ s.flatMap escaped)) rest := by
  induction s generalizing body with
  | nil => simp
  | cons c s ih =>
    have hc (cs : List Char) : cut (some body) (escaped c ++ cs) = cut (some (body ++ escaped c)) cs := by
      rcases escaped_cases c with ⟨d, hd, -⟩ | ⟨hc, hb, hq⟩
      · rw [hd]
        rfl
      · rw [hc, List.cons_append, List.nil_append, cut]
        · exact fun h => hq h
        · exact fun _ _ h => absurd h hb
    rw [List.flatMap_cons, List.append_assoc, hc, ih, List.append_assoc]

theorem cut_literal (s : String) (rest : List Char) :
    cut none ((literal s).toList ++ rest) =
      (cut none rest).map (.literal (s.toList.flatMap escaped) :: ·) := by
  rw [toList_literal, List.cons_append, List.append_assoc, cut, cut_escaped, List.nil_append]
  rfl

/-- An escaped quote ends no literal. -/
example : cut none ['x', '"', '\\', '"', '"', 'y'] =
    some [.code 'x', .literal ['\\', '"'], .code 'y'] := by
  decide

end TypedAssets.Code
