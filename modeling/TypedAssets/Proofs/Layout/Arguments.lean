import Mathlib.Data.List.Forall2
import TypedAssets.Code.Layout.Module
import TypedAssets.Proofs.Scope

/-!
# Arguments of a variant

A declared variant is a name and types after it, with a space before each. Its pieces between the spaces outside
all brackets are the name and the pieces of each argument (`typeWords_declared`). An argument in parentheses is one
piece, and so is one without spaces; but a type that starts with a bracket is written as it is, also if the bracket
closes before its end. Every argument is one piece exactly if none of them is such a type
(`variant_arguments_iff`).
-/

namespace TypedAssets.Code

/-- The brackets of types, each with the one that closes it. -/
def brackets : List (Char × Char) := [('(', ')'), ('\x7b', '\x7d')]

def IsBracket (c : Char) : Prop := c ∈ ['(', ')', '\x7b', '\x7d']

instance (c : Char) : Decidable (IsBracket c) := inferInstanceAs (Decidable (c ∈ _))

/-- Brackets that close in the order in which they open, with any text between them. -/
inductive Nested : List Char → Prop
  | nil : Nested []
  | char {c : Char} {cs : List Char} (hc : ¬IsBracket c) (h : Nested cs) : Nested (c :: cs)
  | enclosed {o c : Char} {cs ds : List Char} (ho : (o, c) ∈ brackets) (h : Nested cs) (h' : Nested ds) :
      Nested (o :: (cs ++ c :: ds))

/-- A text without brackets. -/
def Bracketless (cs : List Char) : Prop := ∀ c ∈ cs, ¬IsBracket c

instance (cs : List Char) : Decidable (Bracketless cs) := List.decidableBAll (¬IsBracket ·) cs

theorem Bracketless.nested {cs : List Char} (h : Bracketless cs) : Nested cs := by
  induction cs with
  | nil => exact .nil
  | cons c cs ih =>
    obtain ⟨hc, hcs⟩ := List.forall_mem_cons.1 h
    exact .char hc (ih hcs)

theorem depthAfter_of_not_isBracket {c : Char} (hc : ¬IsBracket c) (depth : Nat) : depthAfter depth c = depth := by
  simp only [IsBracket, List.mem_cons, List.not_mem_nil, or_false, not_or] at hc
  obtain ⟨h1, h2, h3, h4⟩ := hc
  rw [depthAfter, if_neg (not_or.2 ⟨h1, h3⟩), if_neg (not_or.2 ⟨h2, h4⟩)]

theorem depthAfter_brackets {o c : Char} (ho : (o, c) ∈ brackets) (depth : Nat) :
    depthAfter depth o = depth + 1 ∧ depthAfter (depth + 1) c = depth := by
  simp only [brackets, List.mem_cons, List.not_mem_nil, or_false, Prod.mk.injEq] at ho
  rcases ho with ⟨rfl, rfl⟩ | ⟨rfl, rfl⟩ <;> exact ⟨rfl, rfl⟩

theorem ne_space_of_mem_brackets {o c : Char} (ho : (o, c) ∈ brackets) : o ≠ ' ' ∧ c ≠ ' ' := by
  simp only [brackets, List.mem_cons, List.not_mem_nil, or_false, Prod.mk.injEq] at ho
  rcases ho with ⟨rfl, rfl⟩ | ⟨rfl, rfl⟩ <;> decide

section

variable {depth : Nat} {c : Char} {cs ds : List Char}

theorem splitOutside_ne_nil (depth : Nat) (cs : List Char) : splitOutside depth cs ≠ [] := by
  cases cs with
  | nil => exact List.cons_ne_nil _ _
  | cons c cs =>
    rw [splitOutside]
    split
    · exact List.cons_ne_nil _ _
    · split <;> exact List.cons_ne_nil _ _

theorem splitOutside_cons (h : ¬(c = ' ' ∧ depth = 0)) :
    splitOutside depth (c :: cs) = (splitOutside (depthAfter depth c) cs).modifyHead (c :: ·) := by
  rw [splitOutside, if_neg h]
  obtain ⟨w, ws, hws⟩ := List.exists_cons_of_ne_nil (splitOutside_ne_nil (depthAfter depth c) cs)
  rw [hws]
  rfl

theorem splitOutside_of_not_mem (h : ' ' ∉ cs) (depth : Nat) : splitOutside depth cs = [cs] := by
  induction cs generalizing depth with
  | nil => rfl
  | cons c cs ih =>
    have hc : c ≠ ' ' := fun hc => h (hc ▸ List.mem_cons_self)
    rw [splitOutside_cons fun hsplit => hc hsplit.1, ih fun hmem => h (List.mem_cons_of_mem _ hmem)]
    rfl

/-- Inside of brackets nothing is split. -/
theorem Nested.splitOutside_append (h : Nested cs) (depth : Nat) (ds : List Char) :
    splitOutside (depth + 1) (cs ++ ds) = (splitOutside (depth + 1) ds).modifyHead (cs ++ ·) := by
  have hdepth {p : Prop} {k : Nat} : ¬(p ∧ k + 1 = 0) := fun h => Nat.succ_ne_zero _ h.2
  induction h generalizing depth ds with
  | nil => exact (congrFun List.modifyHead_id _).symm
  | char hc _ ih =>
    rw [List.cons_append, splitOutside_cons hdepth, depthAfter_of_not_isBracket hc, ih, List.modifyHead_modifyHead]
    rfl
  | @enclosed o c cs es ho _ _ ih ih' =>
    obtain ⟨hopen, hclose⟩ := depthAfter_brackets ho (depth + 1)
    rw [List.cons_append, List.append_assoc, List.cons_append, splitOutside_cons hdepth, hopen, ih,
      splitOutside_cons hdepth, hclose, ih']
    simp [List.modifyHead_modifyHead, Function.comp_def]

/-- A text in brackets belongs to one piece, whatever it is. -/
theorem splitOutside_enclosed {o c : Char} (ho : (o, c) ∈ brackets) (h : Nested cs) (depth : Nat) (ds : List Char) :
    splitOutside depth (o :: (cs ++ c :: ds)) = (splitOutside depth ds).modifyHead (o :: (cs ++ [c]) ++ ·) := by
  obtain ⟨hopen, hclose⟩ := depthAfter_brackets ho depth
  obtain ⟨ho, hc⟩ := ne_space_of_mem_brackets ho
  rw [splitOutside_cons fun h => ho h.1, hopen, h.splitOutside_append, splitOutside_cons fun h => hc h.1, hclose]
  simp [List.modifyHead_modifyHead, Function.comp_def]

theorem modifyHead_append {α : Type} {xs : List α} (hne : xs ≠ []) (f : α → α) (ys : List α) :
    (xs ++ ys).modifyHead f = xs.modifyHead f ++ ys := by
  obtain ⟨x, xs, rfl⟩ := List.exists_cons_of_ne_nil hne
  rfl

/-- A space after brackets that are all closed is a place to split. -/
theorem Nested.splitOutside_space (h : Nested cs) (ds : List Char) :
    splitOutside 0 (cs ++ ' ' :: ds) = splitOutside 0 cs ++ splitOutside 0 ds := by
  induction h with
  | nil => rfl
  | @char c cs hc _ ih =>
    by_cases hspace : c = ' '
    · subst hspace
      rw [List.cons_append, splitOutside, splitOutside, if_pos ⟨rfl, rfl⟩, if_pos ⟨rfl, rfl⟩, ih, List.cons_append]
    · rw [List.cons_append, splitOutside_cons fun h => hspace h.1, splitOutside_cons fun h => hspace h.1,
        depthAfter_of_not_isBracket hc, ih, modifyHead_append (splitOutside_ne_nil 0 cs)]
  | @enclosed o c cs es ho h _ _ ih =>
    rw [List.cons_append, List.append_assoc, List.cons_append, splitOutside_enclosed ho h, splitOutside_enclosed ho h,
      ih, modifyHead_append (splitOutside_ne_nil 0 es)]

/-- With the spaces put back between them, the pieces are the text. -/
theorem intercalate_splitOutside (depth : Nat) (cs : List Char) : [' '].intercalate (splitOutside depth cs) = cs := by
  induction cs generalizing depth with
  | nil => rfl
  | cons c cs ih =>
    by_cases hsplit : c = ' ' ∧ depth = 0
    · obtain ⟨rfl, rfl⟩ := hsplit
      rw [splitOutside, if_pos ⟨rfl, rfl⟩, List.intercalate_cons_of_ne_nil (splitOutside_ne_nil 0 cs), ih]
      rfl
    · have htail := ih (depthAfter depth c)
      rw [splitOutside_cons hsplit]
      obtain ⟨w, ws, hws⟩ := List.exists_cons_of_ne_nil (splitOutside_ne_nil (depthAfter depth c) cs)
      rw [hws] at htail ⊢
      rw [List.modifyHead_cons, ← htail]
      cases ws with
      | nil => rw [List.intercalate_singleton, List.intercalate_singleton]
      | cons w' ws => rw [List.intercalate_cons_cons, List.intercalate_cons_cons, List.cons_append, List.cons_append]

end

section

variable {s ty : String}

theorem typeWords_ne_nil (s : String) : typeWords s ≠ [] := by
  rw [typeWords, ne_eq, List.map_eq_nil_iff]
  exact splitOutside_ne_nil 0 s.toList

theorem typeWords_of_not_mem (h : ' ' ∉ s.toList) : typeWords s = [s] := by
  rw [typeWords, splitOutside_of_not_mem h, List.map_singleton, String.ofList_toList]

theorem typeWords_space (hs : Nested s.toList) (t : String) :
    typeWords (s ++ " " ++ t) = typeWords s ++ typeWords t := by
  have htoList : (s ++ " " ++ t).toList = s.toList ++ ' ' :: t.toList := by simp
  rw [typeWords, htoList, hs.splitOutside_space, List.map_append]
  rfl

theorem typeWords_parenthesized (h : Nested ty.toList) : typeWords ("(" ++ ty ++ ")") = ["(" ++ ty ++ ")"] := by
  have htoList : ("(" ++ ty ++ ")").toList = '(' :: (ty.toList ++ ')' :: []) := by simp
  rw [typeWords, htoList, splitOutside_enclosed (by decide) h]
  show [String.ofList ('(' :: (ty.toList ++ [')']) ++ [])] = _
  rw [List.append_nil, ← String.ofList_toList (s := "(" ++ ty ++ ")"), htoList]

/-- A type that is one piece is not split. -/
theorem typeWords_eq_singleton (h : (typeWords ty).length = 1) : typeWords ty = [ty] := by
  rw [typeWords, List.length_map] at h
  obtain ⟨w, hw⟩ := List.length_eq_one_iff.1 h
  have htext := intercalate_splitOutside 0 ty.toList
  rw [hw, List.intercalate_singleton] at htext
  rw [typeWords, hw, htext, List.map_singleton, String.ofList_toList]

/-- Whether a type starts with a bracket. -/
def opensWithBracket (ty : String) : Bool := ty.toList.head?.any fun c => c == '(' || c == '\x7b'

/-- The pieces of an argument: those of the type itself if it starts with a bracket, and else one. -/
def argumentPieces (ty : String) : List String := if opensWithBracket ty then typeWords ty else [typeArgument ty]

/-- A type that starts with a bracket and has spaces outside of all brackets. -/
def FallsApart (ty : String) : Prop := opensWithBracket ty ∧ 1 < (typeWords ty).length

instance (ty : String) : Decidable (FallsApart ty) := inferInstanceAs (Decidable (_ ∧ _))

/-- A piece that is a type, or the type in one pair of parentheses. -/
def IsAtomOf (ty piece : String) : Prop := piece = ty ∨ piece = "(" ++ ty ++ ")"

theorem typeArgument_of_opensWithBracket (h : opensWithBracket ty = true) : typeArgument ty = ty := by
  have hwrap : ¬(ty.toList.contains ' ' && !opensWithBracket ty) = true := by simp [h]
  exact if_neg hwrap

theorem isAtomOf_typeArgument (ty : String) : IsAtomOf ty (typeArgument ty) := by
  unfold typeArgument
  split
  · exact .inr rfl
  · exact .inl rfl

theorem nested_typeArgument (h : Nested ty.toList) : Nested (typeArgument ty).toList := by
  rcases isAtomOf_typeArgument ty with heq | heq
  · rwa [heq]
  · have htoList : ("(" ++ ty ++ ")").toList = '(' :: (ty.toList ++ ')' :: []) := by simp
    rw [heq, htoList]
    exact .enclosed (by decide) h .nil

theorem typeWords_typeArgument (h : Nested ty.toList) : typeWords (typeArgument ty) = argumentPieces ty := by
  by_cases hopen : opensWithBracket ty = true
  · rw [argumentPieces, if_pos hopen, typeArgument_of_opensWithBracket hopen]
  · rw [argumentPieces, if_neg hopen]
    by_cases hspace : ' ' ∈ ty.toList
    · have hwrap : typeArgument ty = "(" ++ ty ++ ")" := by
        refine if_pos ?_
        rw [Bool.and_eq_true, Bool.not_eq_true', List.contains_iff_mem]
        exact ⟨hspace, Bool.not_eq_true _ ▸ hopen⟩
      rw [hwrap, typeWords_parenthesized h]
    · have hplain : typeArgument ty = ty := by
        refine if_neg fun h => hspace ?_
        exact List.contains_iff_mem.1 (Bool.and_eq_true_iff.1 h).1
      rw [hplain, typeWords_of_not_mem hspace]

theorem length_argumentPieces_pos (ty : String) : 0 < (argumentPieces ty).length := by
  unfold argumentPieces
  split
  · exact List.length_pos_iff.2 (typeWords_ne_nil ty)
  · exact Nat.one_pos

theorem length_argumentPieces_eq_one_iff : (argumentPieces ty).length = 1 ↔ ¬FallsApart ty := by
  have hpos := length_argumentPieces_pos ty
  unfold argumentPieces at hpos ⊢
  unfold FallsApart
  split
  · next h =>
    rw [if_pos h] at hpos
    simp only [h, true_and]
    omega
  · next h => simp [h]

theorem argumentPieces_eq (h : ¬FallsApart ty) : argumentPieces ty = [typeArgument ty] := by
  have hlen := length_argumentPieces_eq_one_iff.2 h
  unfold argumentPieces at hlen ⊢
  split
  · next hopen =>
    rw [if_pos hopen] at hlen
    rw [typeWords_eq_singleton hlen, typeArgument_of_opensWithBracket hopen]
  · rfl

end

/-! ### Variants -/

/-- A variant with a name of one word, and with types whose brackets are nested. -/
structure Variant.IsNested (v : Variant) : Prop where
  not_mem_name : ' ' ∉ v.name.toList
  bracketless_name : Bracketless v.name.toList
  nested_args : ∀ ty ∈ v.args, Nested ty.toList

theorem typeWords_append_join {s : String} (hs : Nested s.toList) {tys : List String}
    (htys : ∀ ty ∈ tys, Nested ty.toList) :
    typeWords (s ++ String.join (tys.map fun ty => " " ++ typeArgument ty)) =
      typeWords s ++ tys.flatMap argumentPieces := by
  induction tys generalizing s with
  | nil => simp
  | cons ty tys ih =>
    obtain ⟨hty, htys⟩ := List.forall_mem_cons.1 htys
    have hassoc (rest : String) : s ++ (" " ++ typeArgument ty ++ rest) = s ++ " " ++ (typeArgument ty ++ rest) := by
      simp only [String.append_assoc]
    rw [List.map_cons, String.join_cons, hassoc, typeWords_space hs, ih (nested_typeArgument hty) htys,
      typeWords_typeArgument hty, List.flatMap_cons]

theorem typeWords_declared {v : Variant} (hv : v.IsNested) :
    typeWords v.declared = v.name :: v.args.flatMap argumentPieces := by
  rw [Variant.declared, typeWords_append_join hv.bracketless_name.nested hv.nested_args,
    typeWords_of_not_mem hv.not_mem_name]
  rfl

/-- Where no type gives less than one piece, one piece for each means that each gives one. -/
theorem length_argumentPieces_of_length_flatMap {tys : List String}
    (h : (tys.flatMap argumentPieces).length ≤ tys.length) : ∀ ty ∈ tys, (argumentPieces ty).length = 1 := by
  have hle (tys : List String) : tys.length ≤ (tys.flatMap argumentPieces).length := by
    induction tys with
    | nil => exact Nat.le_refl 0
    | cons ty tys ih =>
      have hpos := length_argumentPieces_pos ty
      rw [List.flatMap_cons, List.length_append, List.length_cons]
      omega
  induction tys with
  | nil => exact fun _ hty => nomatch hty
  | cons ty tys ih =>
    have hpos := length_argumentPieces_pos ty
    have hrest := hle tys
    rw [List.flatMap_cons, List.length_append, List.length_cons] at h
    exact List.forall_mem_cons.2 ⟨by omega, ih (by omega)⟩

/-- The pieces of a declared variant are its name and one piece for each argument. -/
def Variant.IsSplitByArgument (v : Variant) : Prop :=
  ∃ ps, typeWords v.declared = v.name :: ps ∧ List.Forall₂ IsAtomOf v.args ps

theorem isSplitByArgument_iff {v : Variant} (hv : v.IsNested) :
    v.IsSplitByArgument ↔ ∀ ty ∈ v.args, ¬FallsApart ty := by
  unfold Variant.IsSplitByArgument
  rw [typeWords_declared hv]
  constructor
  · rintro ⟨ps, hps, hatoms⟩ ty hty
    obtain rfl := (List.cons.inj hps).2
    exact length_argumentPieces_eq_one_iff.1
      (length_argumentPieces_of_length_flatMap (Nat.le_of_eq hatoms.length_eq.symm) ty hty)
  · intro h
    have hpieces : v.args.flatMap argumentPieces = v.args.map typeArgument := by
      rw [List.map_eq_flatMap]
      exact List.flatMap_congr fun ty hty => argumentPieces_eq (h ty hty)
    refine ⟨_, congrArg _ hpieces, ?_⟩
    rw [List.forall₂_map_right_iff, List.forall₂_same]
    exact fun ty _ => isAtomOf_typeArgument ty

/-- In the text of a sum type each variant has a line of its own, with its pieces after the mark: its name, and for
each argument the type, in parentheses or not, except that a type starting with a bracket gives all of its own
pieces. So an argument is read as several exactly if such a type has spaces outside of its brackets. -/
theorem variant_arguments_iff (t : String) {vs : List Variant} (hvs : ∀ v ∈ vs, v.IsNested) :
    ∃ ls, declarationText (.sumType t vs) = .ok (renderLines ls) ∧
      ∀ i v, vs[i]? = some v →
        ls[i + 1]? = some ⟨indentStep, (if i = 0 then "=" else "|") ++ " " ++ v.declared⟩ ∧
          typeWords v.declared = v.name :: v.args.flatMap argumentPieces ∧
          (v.IsSplitByArgument ↔ ∀ ty ∈ v.args, ¬FallsApart ty) := by
  refine ⟨sumTypeLines t vs, rfl, fun i v hv => ⟨?_, ?_⟩⟩
  · cases vs with
    | nil => cases hv
    | cons w vs =>
      cases i with
      | zero =>
        obtain rfl := Option.some.inj hv
        rfl
      | succ i =>
        rw [List.getElem?_cons_succ] at hv
        simp [sumTypeLines, marked, hv]
  · have hnested := hvs v (List.mem_of_getElem? hv)
    exact ⟨typeWords_declared hnested, isSplitByArgument_iff hnested⟩

/-- A function type that starts with a function type in parentheses, beside arguments of one piece. -/
theorem variant_arguments_iff_function :
    let good : Variant := ⟨"Good", ["Maybe Int", "( a, b )", "\x7b r | x : Int \x7d"]⟩
    let bad : Variant := ⟨"Bad", ["(a -> b) -> c"]⟩
    (∀ v ∈ [good, bad], v.IsNested) ∧
      declarationText (.sumType "T" [good, bad]) =
        .ok "type T\n    = Good (Maybe Int) ( a, b ) \x7b r | x : Int \x7d\n    | Bad (a -> b) -> c" ∧
      good.IsSplitByArgument ∧ typeWords bad.declared = ["Bad", "(a -> b)", "->", "c"] ∧ ¬bad.IsSplitByArgument := by
  intro good bad
  have hparens : ('(', ')') ∈ brackets := by decide
  have hbraces : ('\x7b', '\x7d') ∈ brackets := by decide
  have hmaybe : Bracketless "Maybe Int".toList := by decide
  have htuple : Bracketless " a, b ".toList := by decide
  have hrecord : Bracketless " r | x : Int ".toList := by decide
  have hfunction : Bracketless "a -> b".toList := by decide
  have hresult : Bracketless " -> c".toList := by decide
  have hgood : good.IsNested := by
    refine ⟨by decide, by decide, List.forall_mem_cons.2 ⟨hmaybe.nested, List.forall_mem_cons.2 ⟨?_, ?_⟩⟩⟩
    · exact .enclosed hparens htuple.nested .nil
    · exact List.forall_mem_singleton.2 (.enclosed hbraces hrecord.nested .nil)
  have hbad : bad.IsNested := by
    refine ⟨by decide, by decide, List.forall_mem_singleton.2 ?_⟩
    exact .enclosed hparens hfunction.nested hresult.nested
  have hall : ∀ v ∈ [good, bad], v.IsNested := List.forall_mem_cons.2 ⟨hgood, List.forall_mem_singleton.2 hbad⟩
  obtain ⟨ls, -, hlines⟩ := variant_arguments_iff "T" hall
  obtain ⟨-, -, hgoodSplit⟩ := hlines 0 good rfl
  obtain ⟨-, -, hbadSplit⟩ := hlines 1 bad rfl
  have hfalls : FallsApart "(a -> b) -> c" := by decide
  have htext : renderLines (sumTypeLines "T" [good, bad]) =
      "type T\n    = Good (Maybe Int) ( a, b ) \x7b r | x : Int \x7d\n    | Bad (a -> b) -> c" := by decide
  refine ⟨hall, congrArg Except.ok htext, hgoodSplit.2 (by decide), by decide, fun h => ?_⟩
  exact hbadSplit.1 h _ List.mem_cons_self hfalls

end TypedAssets.Code
