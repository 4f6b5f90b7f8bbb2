import Mathlib.Data.List.Forall2
import TypedAssets.Proofs.Layout.Inline
import TypedAssets.Proofs.Layout.Literal
import TypedAssets.Schema.Manifest

/-!
# Reading expressions

A reader for expressions on one line. It looks at one character at a time, knows a name by its first letter and
any other atom by its opening bracket or quote, and tells a tuple from an application in parentheses by the space
after the bracket. An application goes on as long as another atom follows after a space; so an expression may stand
before everything that closes it (`closes`), and an atom, which shows its own end, before every gap (`ends`).
-/

namespace TypedAssets.Code

open Schema

/-- What is read at the start of a text, and the rest of the text. -/
abbrev Reader (α : Type) := List Char → Option (α × List Char)

section

variable {α : Type}

/-- Reads what follows after a mark. -/
def readAfter (mark : List Char) (read : Reader α) : Reader α := fun cs => mark.isPrefixOf? cs >>= read

/-- Reads as often as there is something to read, `k` times at most. -/
def readMany (read : Reader α) : Nat → List Char → List α × List Char
  | 0, cs => ([], cs)
  | k + 1, cs =>
    match read cs with
    | none => ([], cs)
    | some (x, r) => (x :: (readMany read k r).1, (readMany read k r).2)

/-- Reads items with commas between them. -/
def readRow (read : Reader α) (k : Nat) (cs : List Char) : List α × List Char :=
  match read cs with
  | none => ([], cs)
  | some (x, r) =>
    let (xs, r) := readMany (readAfter [',', ' '] read) k r
    (x :: xs, r)

/-- Reads items with commas between them, and a bracket that closes them after a space. -/
def readItems (read : Reader α) (k : Nat) (close : Char) : Reader (List α) := fun cs => do
  let (xs, r) := readRow read k cs
  let r ← [' ', close].isPrefixOf? r
  return (xs, r)

end

def readName : Reader String := fun cs =>
  if cs.head?.any Char.isAlpha then some (String.ofList (cs.takeWhile isNameChar), cs.dropWhile isNameChar)
  else none

/-- Reads the rest of a literal after its opening quote. -/
def readLiteral : Reader (List Char)
  | '"' :: cs => some ([], cs)
  | '\\' :: c :: cs => do
    let d ← unescapedChar c
    let (s, r) ← readLiteral cs
    return (d :: s, r)
  | c :: cs => do
    let (s, r) ← readLiteral cs
    return (c :: s, r)
  | [] => none

namespace Node

/-- Reads a variable or a field of a record. -/
def readReference : Reader Node := fun cs => do
  let (x, r) ← readName cs
  match r with
  | '.' :: r => do
    let (f, r) ← readName r
    return (.access x f, r)
  | r => return (.var x, r)

/-- Reads an assignment to a field. -/
def readField (read : Reader Node) : Reader (String × Node) := fun cs => do
  let (x, r) ← readName cs
  let (n, r) ← readAfter [' ', '=', ' '] read r
  return ((x, n), r)

/-- Reads a record with some of its fields set anew, from its name on. -/
def readUpdate (read : Reader Node) (k : Nat) : Reader Node := fun cs => do
  let (x, r) ← readName cs
  let (fs, r) ← readAfter [' ', '|', ' '] (readItems (readField read) k '\x7d') r
  return (.update x fs, r)

/-- Reads what shows its start and its end. -/
def readEnclosed (read : Reader Node) (k : Nat) : Reader Node
  | '"' :: cs => do
    let (s, r) ← readLiteral cs
    return (.str (String.ofList s), r)
  | '_' :: cs => some (.wildcard, cs)
  | '[' :: ']' :: cs => some (.list [], cs)
  | '[' :: ' ' :: cs => do
    let (ns, r) ← readItems read k ']' cs
    return (.list ns, r)
  | '(' :: ' ' :: cs => do
    let (ns, r) ← readItems read k ')' cs
    return (.tuple ns, r)
  | '(' :: cs => do
    let (n, r) ← read cs
    let r ← [')'].isPrefixOf? r
    return (n, r)
  | '\x7b' :: '\x7d' :: cs => some (.record [], cs)
  | '\x7b' :: ' ' :: cs => readUpdate read k cs <|> do
    let (fs, r) ← readItems (readField read) k '\x7d' cs
    return (.record fs, r)
  | _ => none

/-- Reads an atom, and then its arguments if it is a variable. -/
def readApplied (read : Reader Node) (k : Nat) : Reader Node := fun cs => do
  match ← read cs with
  | (.var f, r) =>
    match readMany (readAfter [' '] read) k r with
    | ([], r) => return (.var f, r)
    | (ns, r) => return (.call f ns, r)
  | (n, r) => return (n, r)

/-- Reads an expression that can stand as an argument. The number bounds how deep it is nested, and how many parts
stand in a row. -/
def readAtom : Nat → Reader Node
  | 0, _ => none
  | k + 1, cs => readReference cs <|> readEnclosed (readApplied (readAtom k) k) k cs

/-- Reads an expression. -/
def readExpression (k : Nat) : Reader Node := readApplied (readAtom k) k

end Node

/-- Whether an atom can end before a text. -/
def ends : List Char → Bool
  | [] => true
  | c :: _ => c = ' ' || c = ',' || c = ')'

/-- Whether an expression can end before a text: no argument follows. -/
def closes : List Char → Bool
  | ' ' :: c :: _ => c = ']' || c = ')' || c = '\x7d'
  | cs => ends cs

theorem ends_cases {r : List Char} (h : ends r) :
    r = [] ∨ ∃ cs, r = ' ' :: cs ∨ r = ',' :: cs ∨ r = ')' :: cs := by
  cases r with
  | nil => exact .inl rfl
  | cons c cs =>
    simp only [ends, Bool.or_eq_true, decide_eq_true_eq] at h
    obtain (rfl | rfl) | rfl := h
    · exact .inr ⟨cs, .inl rfl⟩
    · exact .inr ⟨cs, .inr (.inl rfl)⟩
    · exact .inr ⟨cs, .inr (.inr rfl)⟩

theorem ends_of_closes {r : List Char} (h : closes r) : ends r := by
  unfold closes at h
  split at h
  · rfl
  · exact h

/-- A reader that reads `x` from a text, before any rest that fits. -/
def ReadsBack {α : Type} (read : Reader α) (fits : List Char → Bool) (t : List Char) (x : α) : Prop :=
  ∀ r, fits r → read (t ++ r) = some (x, r)

section

variable {α : Type} {read : Reader α} {fits : List Char → Bool} {k : Nat} {r : List Char} {ts : List (List Char)}
  {xs : List α}

theorem readAfter_append (mark cs : List Char) : readAfter mark read (mark ++ cs) = read cs := by
  have hmark : mark.isPrefixOf? (mark ++ cs) = some cs := by simp
  rw [readAfter, hmark]
  rfl

theorem ReadsBack.after {t mark : List Char} {x : α} (h : ReadsBack read fits t x) :
    ReadsBack (readAfter mark read) fits (mark ++ t) x := by
  intro r hr
  rw [List.append_assoc, readAfter_append, h r hr]

theorem readMany_of_none (h : read r = none) : readMany read k r = ([], r) := by
  cases k with
  | zero => rfl
  | succ k => rw [readMany, h]

/-- Everything is read, if what follows on each text fits as its rest and nothing can be read at the end. -/
theorem readMany_append (h : List.Forall₂ (ReadsBack read fits) ts xs) (hfits : ∀ t ∈ ts, ∀ r, fits (t ++ r))
    (hr : fits r) (hstop : read r = none) (hk : ts.length ≤ k) : readMany read k (ts.flatten ++ r) = (xs, r) := by
  induction h generalizing k with
  | nil => exact readMany_of_none hstop
  | @cons t x ts xs h hts ih =>
    obtain ⟨-, hfits⟩ := List.forall_mem_cons.1 hfits
    obtain ⟨k, rfl⟩ : ∃ j, k = j + 1 := Nat.exists_eq_succ_of_ne_zero (by rintro rfl; cases hk)
    have hrest : fits (ts.flatten ++ r) := by
      cases ts with
      | nil => exact hr
      | cons u ts =>
        rw [List.flatten_cons, List.append_assoc]
        exact hfits u List.mem_cons_self _
    rw [List.flatten_cons, List.append_assoc, readMany, h _ hrest]
    simp only [ih hfits (Nat.le_of_succ_le_succ hk)]

theorem readRow_append (h : List.Forall₂ (ReadsBack read closes) ts xs) (hr : closes r) (hstop : read r = none)
    (hnext : readAfter [',', ' '] read r = none) (hk : ts.length ≤ k) :
    readRow read k ([',', ' '].intercalate ts ++ r) = (xs, r) := by
  cases h with
  | nil =>
    rw [List.intercalate_nil, List.nil_append, readRow, hstop]
  | @cons t x ts xs h hts =>
    have hmany : readMany (readAfter [',', ' '] read) k ((ts.map ([',', ' '] ++ ·)).flatten ++ r) = (xs, r) := by
      refine readMany_append (List.forall₂_map_left_iff.2 (hts.imp fun _ _ h => h.after)) ?_ hr hnext ?_
      · exact List.forall_mem_map.2 fun _ _ _ => rfl
      · rw [List.length_map]
        exact Nat.le_of_succ_le hk
    have hrest : closes ((ts.map ([',', ' '] ++ ·)).flatten ++ r) := by
      cases ts with
      | nil => exact hr
      | cons u ts => rfl
    rw [intercalate_cons_eq_append, List.append_assoc, readRow, h _ hrest]
    simp only [hmany]

theorem readItems_append {close : Char} (h : List.Forall₂ (ReadsBack read closes) ts xs)
    (hclose : closes (' ' :: close :: r)) (hstop : read (' ' :: close :: r) = none) (hk : ts.length ≤ k) :
    readItems read k close ([',', ' '].intercalate ts ++ ' ' :: close :: r) = some (xs, r) := by
  have hlast : [' ', close].isPrefixOf? (' ' :: close :: r) = some r := by simp
  rw [readItems, readRow_append h hclose hstop rfl hk]
  simp only [hlast]
  rfl

end

/-- A letter, and letters, digits and underscores after it. -/
def IsIdentifier (s : String) : Prop := s.toList.head?.any Char.isAlpha ∧ s.toList.all isNameChar

instance (s : String) : Decidable (IsIdentifier s) :=
  inferInstanceAs (Decidable (s.toList.head?.any Char.isAlpha = true ∧ s.toList.all isNameChar = true))

theorem readName_append {x : String} {r : List Char} (hx : IsIdentifier x) (hr : ∀ c ∈ r.head?, ¬ isNameChar c) :
    readName (x.toList ++ r) = some (x, r) := by
  obtain ⟨hhead, hall⟩ := hx
  rw [List.all_eq_true] at hall
  have hrest : r.takeWhile isNameChar = [] ∧ r.dropWhile isNameChar = r := by
    cases r with
    | nil => exact ⟨rfl, rfl⟩
    | cons c r =>
      have hc := hr c rfl
      exact ⟨List.takeWhile_cons_of_neg hc, List.dropWhile_cons_of_neg hc⟩
  have happend : (x.toList ++ r).head?.any Char.isAlpha := by
    cases hx : x.toList with
    | nil => simp [hx] at hhead
    | cons c cs => simpa [hx] using hhead
  rw [readName, if_pos happend, List.takeWhile_append_of_pos hall, List.dropWhile_append_of_pos hall, hrest.1,
    hrest.2, List.append_nil, String.ofList_toList]

theorem readLiteral_escaped_append (c : Char) (cs : List Char) : readLiteral (escaped c ++ cs) = do
    let (s, r) ← readLiteral cs
    return (c :: s, r) := by
  rcases escaped_cases c with ⟨d, hd, hc⟩ | ⟨hc, hb, hq⟩
  · rw [hd, List.cons_append, List.cons_append, List.nil_append, readLiteral, hc]
    rfl
  · rw [hc, List.cons_append, List.nil_append, readLiteral]
    · exact hq
    · exact fun _ _ h => absurd h hb

theorem readLiteral_append (s r : List Char) : readLiteral (s.flatMap escaped ++ '"' :: r) = some (s, r) := by
  induction s with
  | nil => rfl
  | cons c s ih =>
    rw [List.flatMap_cons, List.append_assoc, readLiteral_escaped_append, ih]
    rfl

end TypedAssets.Code
