/-!
# String literals

How a text is written inside generated code: between double quotes, with a backslash before double
quotes and backslashes, and with line controls as two characters each. So a literal stays on its
line and ends at its first double quote that no backslash escapes.
-/

namespace TypedAssets.Code

/-- One character as it is written in a string literal. -/
def escaped (c : Char) : List Char :=
  if c = '\\' then ['\\', '\\']
  else if c = '"' then ['\\', '"']
  else if c = '\n' then ['\\', 'n']
  else if c = '\r' then ['\\', 'r']
  else if c = '\t' then ['\\', 't']
  else [c]

/-- The string literal of a text. -/
def literal (s : String) : String :=
  String.ofList ('"' :: s.toList.flatMap escaped ++ ['"'])

/-- A line control is never written as it is. -/
theorem control_not_mem_escaped {d : Char} (hd : d ∈ ['\n', '\r', '\t']) (c : Char) : d ∉ escaped c := by
  simp only [List.mem_cons, List.not_mem_nil, or_false] at hd
  unfold escaped
  rcases hd with rfl | rfl | rfl
  all_goals
    repeat' split
    all_goals simp_all [eq_comm]

end TypedAssets.Code
