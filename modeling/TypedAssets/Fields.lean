/-!
# Fields

Names with something bound to each: the fields of a record, the variables in scope, or the owners of
names. They stay in the order in which they were first set; setting a name again keeps its place.

The lemmas say what `set` does to the bindings (`get?_set_self`, `get?_set_of_ne`) and to the order
of the names (`names_set_of_mem`, `names_set_of_not_mem`).
-/

namespace TypedAssets

/-- Names with something bound to each, in the order in which the names were first set. -/
abbrev Fields (α : Type) := List (String × α)

namespace Fields

variable {α : Type}

/-- The names that are bound. -/
def names (fs : Fields α) : List String := fs.map Prod.fst

/-- What a name is bound to. -/
def get? (fs : Fields α) (x : String) : Option α := fs.lookup x

/-- Binds a name. A bound name keeps its place, a new one comes last. -/
def set (fs : Fields α) (x : String) (a : α) : Fields α :=
  match fs with
  | [] => [(x, a)]
  | f :: fs => if f.1 = x then (x, a) :: fs else f :: set fs x a

/-- Binds names one after another. -/
def merge (fs : Fields α) (gs : List (String × α)) : Fields α :=
  gs.foldl (fun fs g => fs.set g.1 g.2) fs

/-- The bindings of a list of pairs; of two pairs with one name the later one counts. -/
def ofList (gs : List (String × α)) : Fields α := merge [] gs

variable {fs : Fields α} {x y : String} {a b : α}

theorem get?_cons (f : String × α) (fs : Fields α) (x : String) :
    get? (f :: fs) x = if f.1 = x then some f.2 else fs.get? x := by
  obtain ⟨y, a⟩ := f
  by_cases h : y = x
  · simp [get?, h]
  · have hx : (x == y) = false := by simpa using Ne.symm h
    simp [get?, List.lookup_cons, h, hx]

theorem get?_set_self : (fs.set x a).get? x = some a := by
  induction fs with
  | nil => simp [set, get?_cons]
  | cons f fs ih =>
    rw [set]
    split
    · simp [get?_cons]
    · next h => simp [get?_cons, h, ih]

theorem get?_set_of_ne (h : x ≠ y) : (fs.set x a).get? y = fs.get? y := by
  induction fs with
  | nil => simp [set, get?_cons, h]
  | cons f fs ih =>
    rw [set]
    split
    · next hf => simp [get?_cons, h, hf]
    · simp [get?_cons, ih]

/-- The second of two bindings of a name counts. -/
theorem set_set : (fs.set x a).set x b = fs.set x b := by
  induction fs with
  | nil => simp [set]
  | cons f fs ih =>
    rw [set]
    split
    · next hf => simp [set, hf]
    · next hf => simp [set, hf, ih]

theorem isSome_get?_iff : (fs.get? x).isSome ↔ x ∈ fs.names := by
  induction fs with
  | nil => simp [get?, names]
  | cons f fs ih =>
    by_cases h : f.1 = x
    · simp [get?_cons, names, h]
    · simpa [get?_cons, names, h, Ne.symm h] using ih

theorem names_set_of_mem (h : x ∈ fs.names) : (fs.set x a).names = fs.names := by
  induction fs with
  | nil => simp [names] at h
  | cons f fs ih =>
    rw [set]
    split
    · next hf => simp [names, hf]
    · next hf =>
      have hx : x ∈ names fs := by simpa [names, Ne.symm hf] using h
      simpa [names] using ih hx

theorem names_set_of_not_mem (h : x ∉ fs.names) : (fs.set x a).names = fs.names ++ [x] := by
  induction fs with
  | nil => rfl
  | cons f fs ih =>
    simp only [names, List.map_cons, List.mem_cons, not_or] at h
    rw [set, if_neg (Ne.symm h.1)]
    simpa [names] using ih h.2

@[simp] theorem merge_nil (fs : Fields α) : fs.merge [] = fs := rfl

theorem merge_cons (fs : Fields α) (g : String × α) (gs : List (String × α)) :
    fs.merge (g :: gs) = (fs.set g.1 g.2).merge gs := rfl

end Fields

end TypedAssets
