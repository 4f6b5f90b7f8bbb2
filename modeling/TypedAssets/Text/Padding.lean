/-!
# Padding

Texts filled up with spaces to the width of a column. Widths count code points.
-/

namespace TypedAssets.Text

/-- A text of spaces only. -/
def spaces (n : Nat) : String := String.ofList (List.replicate n ' ')

/-- A text filled up with spaces to a width; a longer text stays as it is. -/
def padRight (width : Nat) (s : String) : String := s ++ spaces (width - s.length)

@[simp] theorem toList_spaces (n : Nat) : (spaces n).toList = List.replicate n ' ' := by
  simp [spaces]

theorem length_padRight (width : Nat) (s : String) :
    (padRight width s).length = max width s.length := by
  simp only [padRight, spaces, String.length_append, String.length_ofList, List.length_replicate]
  omega

end TypedAssets.Text
