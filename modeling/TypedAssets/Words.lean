/-!
# Words of a name

A name is read as a sequence of words. A word is a run of ASCII digits, a run of ASCII small letters
with at most one capital before it, or a run of ASCII capitals; a run of capitals that runs into
small letters leaves its last capital to them. Every other character only separates. `camelCase`
writes the words as one identifier.
-/

namespace TypedAssets.Words

/-- The word that a run of capitals `c :: capitals` starts, and what follows it, where `after` comes
after the run. If small letters come next, a lone capital takes them and a longer run leaves them
its last capital. -/
def takeCapitals (c : Char) (capitals after : List Char) : List Char × List Char :=
  if after.head?.any Char.isLower then
    match capitals.getLast? with
    | none => (c :: after.takeWhile Char.isLower, after.dropWhile Char.isLower)
    | some initial => (c :: capitals.dropLast, initial :: after)
  else (c :: capitals, after)

/-- The word that starts with `c`, and what follows it in `c :: rest`. -/
def take (c : Char) (rest : List Char) : List Char × List Char :=
  if c.isDigit then (c :: rest.takeWhile Char.isDigit, rest.dropWhile Char.isDigit)
  else if c.isLower then (c :: rest.takeWhile Char.isLower, rest.dropWhile Char.isLower)
  else takeCapitals c (rest.takeWhile Char.isUpper) (rest.dropWhile Char.isUpper)

theorem takeCapitals_append (c : Char) (capitals after : List Char) :
    (takeCapitals c capitals after).1 ++ (takeCapitals c capitals after).2 =
      c :: (capitals ++ after) := by
  unfold takeCapitals
  split
  · split
    · next h => simp [List.getLast?_eq_none_iff.mp h]
    · next h =>
      obtain ⟨initials, rfl⟩ := List.getLast?_eq_some_iff.mp h
      simp
  · simp

/-- A word and what follows it are the text it was taken from. -/
theorem take_append (c : Char) (rest : List Char) :
    (take c rest).1 ++ (take c rest).2 = c :: rest := by
  unfold take
  split
  · simp
  · split
    · simp
    · simp [takeCapitals_append]

theorem take_fst_ne_nil (c : Char) (rest : List Char) : (take c rest).1 ≠ [] := by
  unfold take takeCapitals
  repeat' split
  all_goals simp

theorem length_take_snd_le (c : Char) (rest : List Char) :
    (take c rest).2.length ≤ rest.length := by
  have h := congrArg List.length (take_append c rest)
  have := List.length_pos_iff.mpr (take_fst_ne_nil c rest)
  simp only [List.length_append, List.length_cons] at h
  omega

/-- The words of a text, from left to right. -/
def scan : List Char → List (List Char)
  | [] => []
  | c :: rest =>
    if c.isAlphanum then (take c rest).1 :: scan (take c rest).2 else scan rest
termination_by cs => cs.length
decreasing_by
  · have := length_take_snd_le c rest
    simp only [List.length_cons]
    omega
  · simp

/-- The words of a name. -/
def split (name : String) : List String :=
  (scan name.toList).map String.ofList

/-- A word with a capital at its head and small letters after it. -/
def capitalised : List Char → List Char
  | [] => []
  | c :: cs => c.toUpper :: cs.map Char.toLower

/-- Words run together: the first one in small letters, the others capitalised. -/
def joinCamel : List (List Char) → List Char
  | [] => []
  | word :: words => word.map Char.toLower ++ words.flatMap capitalised

/-- The camel case identifier of a name; empty if the name has no words. -/
def camelCase (name : String) : String :=
  String.ofList (joinCamel (scan name.toList))

end TypedAssets.Words
